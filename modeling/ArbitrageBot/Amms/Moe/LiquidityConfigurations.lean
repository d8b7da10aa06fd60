import ArbitrageBot.Amms.Moe.Sample

/-!
# Liquidity configurations

A configuration packs two shares and a bin id in 152 bits. `decode_params` bounds the word by
`MAX_CONFIG_VALUE`, which is `0xffff` in the highest limb where the contract has the largest number
of 152 bits, so that words with bits above the fields pass (`decodeParams_accepts_iff`).
-/

namespace ArbitrageBot.Moe.LiquidityConfigurations

open Lib Encoded MoeParameters

/-- From its limbs, little-endian. -/
def MAX_CONFIG_VALUE : U256 := BitVec.ofNat 256 (0xffff * 2 ^ 192)

def OFFSET_ID : Nat := 0
def OFFSET_DISTRIBUTION_Y : Nat := 24
def OFFSET_DISTRIBUTION_X : Nat := 88

abbrev Configuration := U256

def encodeParams (distributionX distributionY id : Nat) : MathOutcome Configuration :=
  if distributionX > PRECISION_U128 ∨ distributionY > PRECISION_U128 then
    .error (.err .invalidParameter)
  else
    let config := set 0 (BitVec.ofNat 256 distributionX) MASK_UINT64 OFFSET_DISTRIBUTION_X
    let config := set config (BitVec.ofNat 256 distributionY) MASK_UINT64 OFFSET_DISTRIBUTION_Y
    .ok (set config (BitVec.ofNat 256 id) MASK_UINT24 OFFSET_ID)

def decodeParams (config : Configuration) : MathOutcome (Nat × Nat × Nat) :=
  let distX := decodeU64 config OFFSET_DISTRIBUTION_X
  let distY := decodeU64 config OFFSET_DISTRIBUTION_Y
  let id := decodeU24 config OFFSET_ID
  if config > MAX_CONFIG_VALUE ∨ distX > PRECISION_U128 ∨ distY > PRECISION_U128 then
    .error (.err .invalidConfig)
  else .ok (distX, distY, id)

/-! ## The packed word -/

variable {config : Configuration} {distributionX distributionY id i : Nat}

/-- The word of three fields. -/
def packed (distributionX distributionY id : Nat) : Configuration :=
  put (put (put 0 distributionX 64 88) distributionY 64 24) id 24 0

theorem encodeParams_eq_ok (hx : distributionX ≤ PRECISION_U128)
    (hy : distributionY ≤ PRECISION_U128) :
    encodeParams distributionX distributionY id = .ok (packed distributionX distributionY id) := by
  unfold encodeParams
  rw [if_neg (by omega)]
  rfl

theorem decodeParams_eq (config : Configuration) : decodeParams config =
    if config > MAX_CONFIG_VALUE ∨ take config 64 88 > PRECISION_U128 ∨
        take config 64 24 > PRECISION_U128 then .error (.err .invalidConfig)
    else .ok (take config 64 88, take config 64 24, take config 24 0) := by
  unfold decodeParams OFFSET_DISTRIBUTION_X OFFSET_DISTRIBUTION_Y OFFSET_ID
  dsimp only
  rw [SampleMath.decodeU64_eq, SampleMath.decodeU64_eq, moe_decodeU24]
  rfl

/-- Nothing is written above the fields. -/
theorem getLsbD_packed_high (hi : 152 ≤ i) :
    (packed distributionX distributionY id).getLsbD i = false := by
  unfold packed
  rw [PairParameterHelper.getLsbD_put_of_ge (by omega),
    PairParameterHelper.getLsbD_put_of_ge (by omega),
    PairParameterHelper.getLsbD_put_of_ge (by omega)]
  exact BitVec.getLsbD_zero

theorem packed_lt : (packed distributionX distributionY id).toNat < 2 ^ 152 := by
  apply Nat.lt_pow_two_of_testBit
  intro i hi
  rw [BitVec.testBit_toNat]
  exact getLsbD_packed_high hi

/-- The fields of the packed word are what was packed. -/
theorem take_packed (hx : distributionX < 2 ^ 64) (hy : distributionY < 2 ^ 64)
    (hid : id < 2 ^ 24) :
    take (packed distributionX distributionY id) 64 88 = distributionX ∧
      take (packed distributionX distributionY id) 64 24 = distributionY ∧
        take (packed distributionX distributionY id) 24 0 = id := by
  unfold packed
  refine ⟨?_, ?_, ?_⟩
  · rw [take_put_of_disjoint (by omega), take_put_of_disjoint (by omega), take_put (by omega) hx]
  · rw [take_put_of_disjoint (by omega), take_put (by omega) hy]
  · exact take_put (by omega) hid

theorem getLsbD_put_take {e e' : U256} {w off : Nat} (hoff : off + w ≤ 256) :
    (put e (take e' w off) w off).getLsbD i =
      if off ≤ i ∧ i < off + w then e'.getLsbD i else e.getLsbD i := by
  have hread : take e' w off < 2 ^ 256 := BitVec.isLt _
  unfold put
  rw [BitFields.getLsbD_set]
  by_cases hi : off ≤ i ∧ i < off + w
  · rw [if_pos ⟨hi.1, hi.2, by omega⟩, if_pos hi, BitVec.getLsbD_ofNat,
      PairParameterHelper.testBit_take, Nat.add_sub_cancel' hi.1]
    have h1 : i - off < 256 := by omega
    have h2 : i - off < w := by omega
    simp [h1, h2]
  · rw [if_neg (by omega), if_neg hi]

/-- Packing the fields of a word gives its low 152 bits. -/
theorem packed_take_eq_iff :
    packed (take config 64 88) (take config 64 24) (take config 24 0) = config ↔
      config.toNat < 2 ^ 152 := by
  constructor
  · intro h
    rw [← h]
    exact packed_lt
  · intro h
    apply BitVec.eq_of_getLsbD_eq
    intro i hi
    unfold packed
    rw [getLsbD_put_take (by omega), getLsbD_put_take (by omega), getLsbD_put_take (by omega)]
    by_cases hlow : i < 152
    · split
      · rfl
      · split
        · rfl
        · rw [if_pos (by omega)]
    · have hhigh : config.getLsbD i = false := by
        rw [← BitVec.testBit_toNat]
        exact Nat.testBit_lt_two_pow (Nat.lt_of_lt_of_le h
          (Nat.pow_le_pow_right (by omega) (Nat.le_of_not_lt hlow)))
      rw [if_neg (by omega), if_neg (by omega), if_neg (by omega), hhigh]
      exact BitVec.getLsbD_zero

theorem packed_le_max : packed distributionX distributionY id ≤ MAX_CONFIG_VALUE := by
  have hlt := @packed_lt distributionX distributionY id
  have hmax : MAX_CONFIG_VALUE.toNat = 0xffff * 2 ^ 192 := rfl
  rw [BitVec.le_def, hmax]
  omega

/-- **Every configuration is decoded to what it encodes.** -/
theorem decodeParams_packed (hx : distributionX ≤ PRECISION_U128)
    (hy : distributionY ≤ PRECISION_U128) (hid : id < 2 ^ 24) :
    decodeParams (packed distributionX distributionY id) =
      .ok (distributionX, distributionY, id) := by
  have hprecision : PRECISION_U128 = 1000000000000000000 := rfl
  obtain ⟨htakeX, htakeY, htakeId⟩ :=
    @take_packed distributionX distributionY id (by omega) (by omega) hid
  have hle := @packed_le_max distributionX distributionY id
  rw [decodeParams_eq, htakeX, htakeY, htakeId, if_neg]
  rintro (h | h | h)
  · exact BitVec.not_le.mpr h hle
  · omega
  · omega

/-- The word is rejected, or encodes what it is decoded to. -/
def InImage (config : Configuration) : Prop :=
  ∀ distributionX distributionY id, decodeParams config = .ok (distributionX, distributionY, id) →
    encodeParams distributionX distributionY id = .ok config

/-- **A configuration is decoded to what it encodes, and a word encodes what it is decoded to
exactly when it has no bit above the fields.** The words with such bits are rejected only above
`MAX_CONFIG_VALUE` or for one of their shares. -/
theorem decodeParams_accepts_iff (distributionX distributionY id : Nat) (config : Configuration)
    (hx : distributionX ≤ PRECISION_U128) (hy : distributionY ≤ PRECISION_U128)
    (hid : id < 2 ^ 24) :
    encodeParams distributionX distributionY id >>= decodeParams =
      .ok (distributionX, distributionY, id) ∧
    (InImage config ↔
      config.toNat < 2 ^ 152 ∨ config > MAX_CONFIG_VALUE ∨
        decodeU64 config OFFSET_DISTRIBUTION_X > PRECISION_U128 ∨
          decodeU64 config OFFSET_DISTRIBUTION_Y > PRECISION_U128) := by
  constructor
  · rw [encodeParams_eq_ok hx hy, ok_bind]
    exact decodeParams_packed hx hy hid
  · unfold InImage OFFSET_DISTRIBUTION_X OFFSET_DISTRIBUTION_Y
    rw [SampleMath.decodeU64_eq, SampleMath.decodeU64_eq, decodeParams_eq]
    by_cases hrejected : config > MAX_CONFIG_VALUE ∨ take config 64 88 > PRECISION_U128 ∨
        take config 64 24 > PRECISION_U128
    · rw [if_pos hrejected]
      exact iff_of_true (fun _ _ _ h => by cases h) (.inr hrejected)
    · rw [if_neg hrejected, or_iff_left hrejected]
      obtain ⟨-, hx, hy⟩ : ¬ config > MAX_CONFIG_VALUE ∧ ¬ take config 64 88 > PRECISION_U128 ∧
          ¬ take config 64 24 > PRECISION_U128 := by
        simpa only [not_or] using hrejected
      rw [← packed_take_eq_iff]
      constructor
      · intro h
        have hencode := h _ _ _ rfl
        rw [encodeParams_eq_ok (Nat.le_of_not_lt hx) (Nat.le_of_not_lt hy)] at hencode
        exact Except.ok.inj hencode
      · intro h distributionX distributionY id hdecode
        cases hdecode
        rw [encodeParams_eq_ok (Nat.le_of_not_lt hx) (Nat.le_of_not_lt hy), h]

theorem decodeParams_accepts_half : encodeParams 500000000000000000 500000000000000000 123 >>=
      decodeParams = .ok (500000000000000000, 500000000000000000, 123) ∧
    (InImage 123 ↔
      (123#256).toNat < 2 ^ 152 ∨ 123#256 > MAX_CONFIG_VALUE ∨
        decodeU64 123 OFFSET_DISTRIBUTION_X > PRECISION_U128 ∨
          decodeU64 123 OFFSET_DISTRIBUTION_Y > PRECISION_U128) :=
  decodeParams_accepts_iff 500000000000000000 500000000000000000 123 123 (by decide) (by decide)
    (by omega)

/-- The word of bit 152 alone is decoded to zeros, which are encoded by zero. -/
theorem decodeParams_accepts_bit_152 : ¬ ∀ config : Configuration, InImage config := by
  intro h
  have hencode := h (1#256 <<< 152) 0 0 0 (by decide +kernel)
  revert hencode
  decide +kernel

end ArbitrageBot.Moe.LiquidityConfigurations
