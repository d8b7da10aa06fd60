import ArbitrageBot.Amms.Moe.MathSpec
import ArbitrageBot.Amms.Moe.Power
import ArbitrageBot.Amms.Moe.Swap
import ArbitrageBot.Contracts.LiquidityBook.MathSpec

/-!
# The port of the liquidity-book mathematics

Prices and fees of the Rust code against those of the contract. The unpacked parameters of the Rust
code stand for a packed word of the contract; updating both the same way keeps them so, and they
charge the same fee.
-/

namespace ArbitrageBot

open Lib

/-! ## Prices -/

section Price

variable {price : U256} {prof : BuildProfile} {id binStep : Nat}

theorem getBase_ge (hstep : binStep < 2 ^ 16) :
    2 ^ 128 ≤ (LiquidityBook.PriceHelper.getBase binStep).toNat := by
  have hscale : LiquidityBook.Constants.SCALE.toNat = 2 ^ 128 := rfl
  have hten : (BitVec.ofNat 256 LiquidityBook.Constants.BASIS_POINT_MAX).toNat = 10000 := rfl
  have hoff : LiquidityBook.Constants.SCALE_OFFSET = 128 := rfl
  have hquot : binStep * 2 ^ 128 / 10000 < 2 ^ 144 :=
    Nat.lt_of_le_of_lt (Nat.div_le_self _ _) (by omega)
  unfold LiquidityBook.PriceHelper.getBase
  rw [BitVec.toNat_add, BitVec.toNat_udiv, BitVec.toNat_shiftLeft, BitVec.toNat_ofNat, hscale, hten,
    hoff, Nat.shiftLeft_eq, Nat.mod_eq_of_lt (by omega : binStep < 2 ^ 256),
    Nat.mod_eq_of_lt (by omega : binStep * 2 ^ 128 < 2 ^ 256),
    Nat.mod_eq_of_lt (Nat.add_lt_of_lt_sub (by omega))]
  exact Nat.le_add_right _ _

/-- **The price of a bin is ported**: the Rust code returns every price that the contract does. -/
theorem getPriceFromId_eq_ok (hid : id < 2 ^ 24) (hstep : binStep < 2 ^ 16)
    (h : LiquidityBook.PriceHelper.getPriceFromId id binStep = .ok price) :
    Moe.PriceHelper.getPriceFromId prof id binStep = .ok price := by
  have hexp : Moe.PriceHelper.getExponent prof id =
      .ok (LiquidityBook.PriceHelper.getExponent id) := by
    unfold Moe.PriceHelper.getExponent LiquidityBook.PriceHelper.getExponent Moe.REAL_ID_SHIFT
      LiquidityBook.PriceHelper.REAL_ID_SHIFT
    rw [Int.bmod_eq_of_le (by omega) (by omega),
      BuildProfile.signed_of_range (by norm_num; omega) (by norm_num; omega)]
  have hpow := @Moe.Uint128x128Math.pow_eq_ok prof _ _ _ (getBase_ge hstep) h
  have hbase : Moe.PriceHelper.getBase binStep = LiquidityBook.PriceHelper.getBase binStep := rfl
  unfold Moe.PriceHelper.getPriceFromId
  rw [hexp, ok_bind, hbase, hpow]
  rfl

end Price

/-! ## Parameters -/

section Parameters

open LiquidityBook.PairParameterHelper

variable {mp : MoeParameters} {params params' : U256} {binStep w u off off' id n : Nat}

theorem decode_set {e v : U256} (h : off + w ≤ 256) :
    (LiquidityBook.Encoded.decode (LiquidityBook.Encoded.set e v (BitFields.mask 256 w) off)
      (BitFields.mask 256 w) off).toNat = v.toNat % 2 ^ w :=
  BitFields.toNat_get_set_same h

theorem decode_set_of_disjoint {e v : U256} (h : off + w ≤ off' ∨ off' + u ≤ off) :
    LiquidityBook.Encoded.decode (LiquidityBook.Encoded.set e v (BitFields.mask 256 w) off)
      (BitFields.mask 256 u) off' = LiquidityBook.Encoded.decode e (BitFields.mask 256 u) off' :=
  BitFields.get_set_of_disjoint h

theorem decode_field_lt {e : U256} :
    (LiquidityBook.Encoded.decode e (BitFields.mask 256 w) off).toNat < 2 ^ w := by
  by_cases h : w ≤ 256
  · have hval : (LiquidityBook.Encoded.decode e (BitFields.mask 256 w) off).toNat =
        e.toNat / 2 ^ off % 2 ^ w := BitFields.toNat_get h
    rw [hval]
    exact Nat.mod_lt _ (Nat.two_pow_pos w)
  · exact Nat.lt_of_lt_of_le (BitVec.isLt _) (Nat.pow_le_pow_right (by omega) (by omega))

/-- The fields of a packed word are of their widths. -/
theorem getBaseFactor_lt (params : U256) : getBaseFactor params < 2 ^ 16 :=
  decode_field_lt (w := 16)

theorem getDecayPeriod_lt (params : U256) : getDecayPeriod params < 2 ^ 12 :=
  decode_field_lt (w := 12)

theorem getVariableFeeControl_lt (params : U256) : getVariableFeeControl params < 2 ^ 24 :=
  decode_field_lt (w := 24)

theorem getMaxVolatilityAccumulator_lt (params : U256) :
    getMaxVolatilityAccumulator params < 2 ^ 20 := decode_field_lt (w := 20)

theorem getVolatilityAccumulator_lt (params : U256) : getVolatilityAccumulator params < 2 ^ 20 :=
  decode_field_lt (w := 20)

theorem getVolatilityReference_lt (params : U256) : getVolatilityReference params < 2 ^ 20 :=
  decode_field_lt (w := 20)

theorem getIdReference_lt (params : U256) : getIdReference params < 2 ^ 24 :=
  decode_field_lt (w := 24)

theorem getActiveId_lt (params : U256) : getActiveId params < 2 ^ 24 :=
  decode_field_lt (w := 24)

/-- The unpacked parameters that stand for the word `params`: the fields that a fee depends on,
besides the accumulator, within the bounds that the setters check. -/
structure MoeParameters.Unpacks (mp : MoeParameters) (params : U256) : Prop where
  baseFactor : mp.baseFactor = getBaseFactor params
  filterPeriod : mp.filterPeriod = getFilterPeriod params
  decayPeriod : mp.decayPeriod = getDecayPeriod params
  reductionFactor : mp.reductionFactor = getReductionFactor params
  variableFeeControl : mp.variableFeeControl = getVariableFeeControl params
  protocolShare : mp.protocolShare = getProtocolShare params
  maxVolatilityAccumulator : mp.maxVolatilityAccumulator = getMaxVolatilityAccumulator params
  volatilityReference : mp.volatilityReference = getVolatilityReference params
  idReference : mp.idReference = getIdReference params
  filter_le_decay : mp.filterPeriod ≤ mp.decayPeriod
  reductionFactor_le : mp.reductionFactor ≤ 10000
  protocolShare_le : mp.protocolShare ≤ 2500

/-- Writing a field behind the static ones. -/
theorem MoeParameters.Unpacks.set {v : U256} {volRef idRef : Nat} (h : mp.Unpacks params)
    (hoff : OFFSET_VOL_ACC ≤ off)
    (hvolRef : volRef = getVolatilityReference
      (LiquidityBook.Encoded.set params v (BitFields.mask 256 w) off))
    (hidRef : idRef = getIdReference
      (LiquidityBook.Encoded.set params v (BitFields.mask 256 w) off)) :
    { mp with volatilityReference := volRef, idReference := idRef }.Unpacks
      (LiquidityBook.Encoded.set params v (BitFields.mask 256 w) off) := by
  have hkeep : ∀ {u off'}, off' + u ≤ OFFSET_VOL_ACC →
      (LiquidityBook.Encoded.decode (LiquidityBook.Encoded.set params v (BitFields.mask 256 w) off)
        (BitFields.mask 256 u) off').toNat =
          (LiquidityBook.Encoded.decode params (BitFields.mask 256 u) off').toNat := by
    intro u off' hoff'
    rw [decode_set_of_disjoint (.inr (by omega))]
  exact {
    baseFactor := h.baseFactor.trans (hkeep (u := 16) (by decide)).symm
    filterPeriod := h.filterPeriod.trans (hkeep (u := 12) (by decide)).symm
    decayPeriod := h.decayPeriod.trans (hkeep (u := 12) (by decide)).symm
    reductionFactor := h.reductionFactor.trans (hkeep (u := 14) (by decide)).symm
    variableFeeControl := h.variableFeeControl.trans (hkeep (u := 24) (by decide)).symm
    protocolShare := h.protocolShare.trans (hkeep (u := 14) (by decide)).symm
    maxVolatilityAccumulator :=
      h.maxVolatilityAccumulator.trans (hkeep (u := 20) (by decide)).symm
    volatilityReference := hvolRef
    idReference := hidRef
    filter_le_decay := h.filter_le_decay
    reductionFactor_le := h.reductionFactor_le
    protocolShare_le := h.protocolShare_le }

/-- A field apart from both references leaves them. -/
theorem MoeParameters.Unpacks.set_apart {v : U256} (h : mp.Unpacks params)
    (hoff : (off = OFFSET_VOL_ACC ∧ w = 20) ∨ OFFSET_TIME_LAST_UPDATE ≤ off) :
    mp.Unpacks (LiquidityBook.Encoded.set params v (BitFields.mask 256 w) off) := by
  have hdisjoint : off + w ≤ OFFSET_VOL_REF ∨ OFFSET_TIME_LAST_UPDATE ≤ off := by
    unfold OFFSET_VOL_ACC OFFSET_VOL_REF at *
    omega
  have hvolRef : getVolatilityReference (LiquidityBook.Encoded.set params v (BitFields.mask 256 w)
      off) = getVolatilityReference params := by
    refine congrArg BitVec.toNat (decode_set_of_disjoint (u := 20) ?_)
    unfold OFFSET_VOL_REF OFFSET_TIME_LAST_UPDATE at *
    omega
  have hidRef : getIdReference (LiquidityBook.Encoded.set params v (BitFields.mask 256 w) off) =
      getIdReference params := by
    refine congrArg BitVec.toNat (decode_set_of_disjoint (u := 24) ?_)
    unfold OFFSET_VOL_REF OFFSET_ID_REF OFFSET_TIME_LAST_UPDATE at *
    omega
  refine h.set ?_ (h.volatilityReference.trans hvolRef.symm) (h.idReference.trans hidRef.symm)
  unfold OFFSET_VOL_ACC OFFSET_TIME_LAST_UPDATE at *
  omega

/-- The setters of the contract accept no accumulator and no reference that is cut. -/
theorem setVolatilityAccumulator_eq_ok
    (h : LiquidityBook.PairParameterHelper.setVolatilityAccumulator params n = .ok params') :
    n < 2 ^ 20 ∧ params' = LiquidityBook.Encoded.set params (BitVec.ofNat 256 n)
      (BitFields.mask 256 20) OFFSET_VOL_ACC := by
  have hmask : LiquidityBook.Encoded.MASK_UINT20.toNat = 2 ^ 20 - 1 := rfl
  unfold LiquidityBook.PairParameterHelper.setVolatilityAccumulator at h
  rw [hmask] at h
  split at h
  · cases h
  · cases h
    exact ⟨by omega, rfl⟩

theorem setVolatilityReference_eq_ok
    (h : LiquidityBook.PairParameterHelper.setVolatilityReference params n = .ok params') :
    n < 2 ^ 20 ∧ params' = LiquidityBook.Encoded.set params (BitVec.ofNat 256 n)
      (BitFields.mask 256 20) OFFSET_VOL_REF := by
  have hmask : LiquidityBook.Encoded.MASK_UINT20.toNat = 2 ^ 20 - 1 := rfl
  unfold LiquidityBook.PairParameterHelper.setVolatilityReference at h
  rw [hmask] at h
  split at h
  · cases h
  · cases h
    exact ⟨by omega, rfl⟩

namespace MoeParameters.Unpacks

/-- The accumulator of a bin is ported, whatever the accumulator was before. -/
theorem updateVolatilityAccumulator (h : mp.Unpacks params) (hid : id < 2 ^ 24)
    (hok : LiquidityBook.PairParameterHelper.updateVolatilityAccumulator params id = .ok params') :
    (mp.updateVolatilityAccumulator id).Unpacks params' ∧
      (mp.updateVolatilityAccumulator id).volatilityAccumulator =
        getVolatilityAccumulator params' := by
  have hmax : mp.maxVolatilityAccumulator < 2 ^ 20 :=
    h.maxVolatilityAccumulator ▸ getMaxVolatilityAccumulator_lt params
  have href : mp.volatilityReference < 2 ^ 20 :=
    h.volatilityReference ▸ getVolatilityReference_lt params
  have hidRef : mp.idReference < 2 ^ 24 := h.idReference ▸ getIdReference_lt params
  unfold LiquidityBook.PairParameterHelper.updateVolatilityAccumulator
    LiquidityBook.Constants.BASIS_POINT_MAX at hok
  rw [← h.maxVolatilityAccumulator, ← h.volatilityReference, ← h.idReference] at hok
  obtain ⟨hlt, rfl⟩ := setVolatilityAccumulator_eq_ok hok
  have hacc : (mp.updateVolatilityAccumulator id).volatilityAccumulator =
      (if mp.volatilityReference + (if id > mp.idReference then id - mp.idReference
          else mp.idReference - id) * 10000 > mp.maxVolatilityAccumulator
        then mp.maxVolatilityAccumulator
        else mp.volatilityReference + (if id > mp.idReference then id - mp.idReference
          else mp.idReference - id) * 10000) % 2 ^ 24 := by
    have hdelta : (if id > mp.idReference then id - mp.idReference
        else mp.idReference - id) < 2 ^ 24 := by
      split <;> omega
    unfold MoeParameters.updateVolatilityAccumulator Moe.BASIS_POINT_MAX_U128
    generalize (if id > mp.idReference then id - mp.idReference
      else mp.idReference - id) = delta at hdelta ⊢
    dsimp only
    split <;> omega
  rw [← hacc] at hlt ⊢
  have hset : mp.Unpacks (LiquidityBook.Encoded.set params
      (BitVec.ofNat 256 ((mp.updateVolatilityAccumulator id).volatilityAccumulator))
        (BitFields.mask 256 20) OFFSET_VOL_ACC) := h.set_apart (.inl ⟨rfl, rfl⟩)
  refine ⟨{ hset with }, ?_⟩
  have hread : getVolatilityAccumulator (LiquidityBook.Encoded.set params
      (BitVec.ofNat 256 ((mp.updateVolatilityAccumulator id).volatilityAccumulator))
        (BitFields.mask 256 20) OFFSET_VOL_ACC) = _ := decode_set (w := 20) (by decide)
  rw [hread, BitVec.toNat_ofNat]
  omega

end MoeParameters.Unpacks

/-! ## Fees -/

/-- The fee of a bin in exact numbers. -/
def totalFee (baseFactor variableFeeControl volatilityAccumulator binStep : Nat) : Nat :=
  baseFactor * binStep * 10000000000 +
    if variableFeeControl = 0 then 0
    else ((volatilityAccumulator * binStep) * (volatilityAccumulator * binStep) *
      variableFeeControl + 99) / 100

theorem mul_lt_two_pow {a b i j : Nat} (ha : a < 2 ^ i) (hb : b < 2 ^ j) : a * b < 2 ^ (i + j) := by
  rw [Nat.pow_add]
  exact Nat.mul_lt_mul'' ha hb

/-- No product of the variable fee is cut. -/
theorem variableFee_lt {acc control : Nat} (hacc : acc < 2 ^ 20) (hcontrol : control < 2 ^ 24)
    (hstep : binStep < 2 ^ 16) :
    acc * binStep < 2 ^ 36 ∧ (acc * binStep) * (acc * binStep) < 2 ^ 72 ∧
      (acc * binStep) * (acc * binStep) * control < 2 ^ 96 := by
  have hprod : acc * binStep < 2 ^ 36 := mul_lt_two_pow hacc hstep
  have hsquare : (acc * binStep) * (acc * binStep) < 2 ^ 72 := mul_lt_two_pow hprod hprod
  exact ⟨hprod, hsquare, mul_lt_two_pow hsquare hcontrol⟩

theorem toNat_variableFee {acc control : Nat} (hacc : acc < 2 ^ 20) (hcontrol : control < 2 ^ 24)
    (hstep : binStep < 2 ^ 16) {prod : U256} (hprod : prod.toNat = acc * binStep) :
    ((prod * prod * BitVec.ofNat 256 control + 99#256) / 100#256).toNat =
      ((acc * binStep) * (acc * binStep) * control + 99) / 100 := by
  obtain ⟨h₁, h₂, h₃⟩ := variableFee_lt hacc hcontrol hstep
  have h99 : (99#256).toNat = 99 := rfl
  have h100 : (100#256).toNat = 100 := rfl
  rw [BitVec.toNat_udiv, BitVec.toNat_add, BitVec.toNat_mul, BitVec.toNat_mul, hprod,
    BitVec.toNat_ofNat, h99, h100, Nat.mod_eq_of_lt (by omega : control < 2 ^ 256),
    Nat.mod_eq_of_lt (Nat.lt_trans h₂ (by decide)), Nat.mod_eq_of_lt (Nat.lt_trans h₃ (by decide)),
    Nat.mod_eq_of_lt (by omega)]

theorem totalFee_lt {base control acc : Nat} (hbase : base < 2 ^ 16) (hacc : acc < 2 ^ 20)
    (hcontrol : control < 2 ^ 24) (hstep : binStep < 2 ^ 16) :
    totalFee base control acc binStep < 2 ^ 97 := by
  obtain ⟨-, -, h₃⟩ := variableFee_lt hacc hcontrol hstep
  have hprod : base * binStep < 2 ^ 32 := mul_lt_two_pow hbase hstep
  unfold totalFee
  split <;> omega

theorem getTotalFee_eq_ok {f : Nat} (hstep : binStep < 2 ^ 16)
    (h : LiquidityBook.PairParameterHelper.getTotalFee params binStep = .ok f) :
    f = totalFee (getBaseFactor params) (getVariableFeeControl params)
      (getVolatilityAccumulator params) binStep := by
  have hbase := getBaseFactor_lt params
  have hcontrol := getVariableFeeControl_lt params
  have hacc := getVolatilityAccumulator_lt params
  have hprod : getBaseFactor params * binStep < 2 ^ 32 := mul_lt_two_pow hbase hstep
  have hten : (10000000000#256).toNat = 10000000000 := rfl
  have hbaseFee : (getBaseFee params binStep).toNat =
      getBaseFactor params * binStep * 10000000000 := by
    unfold getBaseFee
    rw [BitVec.toNat_mul, BitVec.toNat_mul, BitVec.toNat_ofNat, BitVec.toNat_ofNat, hten,
      Nat.mod_eq_of_lt (by omega : getBaseFactor params < 2 ^ 256),
      Nat.mod_eq_of_lt (by omega : binStep < 2 ^ 256),
      Nat.mod_eq_of_lt (Nat.lt_trans hprod (by decide)), Nat.mod_eq_of_lt (by omega)]
  have hvariable : (getVariableFee params binStep).toNat =
      if getVariableFeeControl params = 0 then 0
      else ((getVolatilityAccumulator params * binStep) *
        (getVolatilityAccumulator params * binStep) * getVariableFeeControl params + 99) / 100 := by
    unfold getVariableFee
    by_cases hzero : getVariableFeeControl params = 0
    · rw [if_neg (not_not.mpr hzero), if_pos hzero]
      rfl
    · rw [if_pos hzero, if_neg hzero]
      refine toNat_variableFee hacc hcontrol hstep ?_
      rw [BitVec.toNat_mul, BitVec.toNat_ofNat, BitVec.toNat_ofNat,
        Nat.mod_eq_of_lt (by omega : getVolatilityAccumulator params < 2 ^ 256),
        Nat.mod_eq_of_lt (by omega : binStep < 2 ^ 256),
        Nat.mod_eq_of_lt (Nat.lt_trans (variableFee_lt hacc hcontrol hstep).1 (by decide))]
  have hlt := totalFee_lt hbase hacc hcontrol hstep
  unfold LiquidityBook.PairParameterHelper.getTotalFee at h
  rw [(LiquidityBook.BinHelper.safe128_eq_ok h).1, BitVec.toNat_add, hbaseFee, hvariable]
  exact Nat.mod_eq_of_lt (Nat.lt_trans hlt (by decide))

/-- The fields of a packed word that the fee of the Rust code reads. -/
theorem moe_decodeU16 (e : U256) : Moe.Encoded.decodeU16 e off =
    (BitFields.get e (BitFields.mask 256 16) off).toNat := by
  have hlt : (BitFields.get e (BitFields.mask 256 16) off).toNat < 2 ^ 16 :=
    decode_field_lt (w := 16)
  have hread : Moe.Encoded.decode e Moe.Encoded.MASK_UINT16 off =
      BitFields.get e (BitFields.mask 256 16) off := rfl
  unfold Moe.Encoded.decodeU16 Moe.limb0
  rw [hread]
  omega

theorem limb0_and_mask {v : U256} (h : v.toNat < 2 ^ w) (hw : w ≤ 64) :
    Moe.limb0 v &&& (2 ^ w - 1) = v.toNat := by
  have hle : 2 ^ w ≤ 2 ^ 64 := Nat.pow_le_pow_right (by omega) hw
  unfold Moe.limb0
  rw [Nat.and_two_pow_sub_one_eq_mod, Nat.mod_eq_of_lt (Nat.lt_of_lt_of_le h hle),
    Nat.mod_eq_of_lt h]

theorem moe_decodeU20 (e : U256) : Moe.Encoded.decodeU20 e off =
    (BitFields.get e (BitFields.mask 256 20) off).toNat :=
  limb0_and_mask (decode_field_lt (w := 20)) (by omega)

theorem moe_decodeU24 (e : U256) : Moe.Encoded.decodeU24 e off =
    (BitFields.get e (BitFields.mask 256 24) off).toNat :=
  limb0_and_mask (decode_field_lt (w := 24)) (by omega)

theorem moe_set (e v m : U256) (off : Nat) :
    Moe.Encoded.set e v m off = BitFields.set e v m off := rfl

theorem moe_masks : Moe.Encoded.MASK_UINT12 = BitFields.mask 256 12 ∧
    Moe.Encoded.MASK_UINT14 = BitFields.mask 256 14 ∧
      Moe.Encoded.MASK_UINT16 = BitFields.mask 256 16 ∧
        Moe.Encoded.MASK_UINT20 = BitFields.mask 256 20 ∧
          Moe.Encoded.MASK_UINT24 = BitFields.mask 256 24 := ⟨rfl, rfl, rfl, rfl, rfl⟩

/-- The parameters of a bin pack, and the fields of the fee are read back. -/
theorem MoeParameters.Unpacks.pack (h : mp.Unpacks params)
    (hacc : mp.volatilityAccumulator < 2 ^ 20) :
    ∃ p, mp.pack = .ok p ∧ Moe.PairParameterHelper.getBaseFactor p = mp.baseFactor ∧
      Moe.PairParameterHelper.getVariableFeeControl p = mp.variableFeeControl ∧
      Moe.PairParameterHelper.getVolatilityAccumulator p = mp.volatilityAccumulator := by
  have hbase : mp.baseFactor < 2 ^ 16 := h.baseFactor ▸ getBaseFactor_lt params
  have hcontrol : mp.variableFeeControl < 2 ^ 24 :=
    h.variableFeeControl ▸ getVariableFeeControl_lt params
  have hdecay : mp.decayPeriod < 2 ^ 12 := h.decayPeriod ▸ getDecayPeriod_lt params
  have hmax : mp.maxVolatilityAccumulator < 2 ^ 20 :=
    h.maxVolatilityAccumulator ▸ getMaxVolatilityAccumulator_lt params
  have href : mp.volatilityReference < 2 ^ 20 :=
    h.volatilityReference ▸ getVolatilityReference_lt params
  have hfilter := h.filter_le_decay
  have hreduction := h.reductionFactor_le
  have hshare := h.protocolShare_le
  have h12 : Moe.limb0 Moe.Encoded.MASK_UINT12 = 2 ^ 12 - 1 := rfl
  have h20 : Moe.limb0 Moe.Encoded.MASK_UINT20 = 2 ^ 20 - 1 := rfl
  unfold MoeParameters.pack Moe.PairParameterHelper.setStaticFeeParameters
    Moe.PairParameterHelper.setVolatilityAccumulator
    Moe.PairParameterHelper.setVolatilityReference Moe.BASIS_POINT_MAX_U128 Moe.MAX_PROTOCOL_SHARE
  rw [h12, h20, if_neg (by omega), ok_bind]
  dsimp only
  rw [if_neg (by omega), ok_bind, if_neg (by omega), ok_bind]
  have hclear : ∀ x y : U256, 0 &&& x ||| y = y := by
    intro x y
    simp
  rw [hclear]
  refine ⟨_, rfl, ?_, ?_, ?_⟩
  · unfold Moe.PairParameterHelper.getBaseFactor Moe.PairParameterHelper.setIdReference
      Moe.PairParameterHelper.setActiveId
    rw [moe_decodeU16]
    simp (disch := decide) only [moe_set, moe_masks, BitFields.get_set_of_disjoint]
    rw [BitFields.toNat_get_set_same (by decide), BitVec.toNat_ofNat]
    omega
  · unfold Moe.PairParameterHelper.getVariableFeeControl Moe.PairParameterHelper.setIdReference
      Moe.PairParameterHelper.setActiveId
    rw [moe_decodeU24]
    simp (disch := decide) only [moe_set, moe_masks, BitFields.get_set_of_disjoint]
    rw [BitFields.toNat_get_set_same (by decide), BitVec.toNat_ofNat]
    omega
  · unfold Moe.PairParameterHelper.getVolatilityAccumulator Moe.PairParameterHelper.setIdReference
      Moe.PairParameterHelper.setActiveId
    rw [moe_decodeU20]
    simp (disch := decide) only [moe_set, moe_masks, BitFields.get_set_of_disjoint]
    rw [BitFields.toNat_get_set_same (by decide), BitVec.toNat_ofNat]
    omega

/-- **The fee of a bin is ported.** -/
theorem MoeParameters.Unpacks.getTotalFee {f : Nat} (h : mp.Unpacks params)
    (hacc : mp.volatilityAccumulator = getVolatilityAccumulator params) (hstep : binStep < 2 ^ 16)
    (hok : LiquidityBook.PairParameterHelper.getTotalFee params binStep = .ok f) :
    ∃ p, mp.pack = .ok p ∧ Moe.PairParameterHelper.getTotalFee p binStep = .ok f := by
  have hbase := getBaseFactor_lt params
  have hcontrol := getVariableFeeControl_lt params
  have hlt := getVolatilityAccumulator_lt params
  obtain ⟨p, hp, hb, hc, ha⟩ := h.pack (hacc.symm ▸ hlt)
  refine ⟨p, hp, ?_⟩
  rw [h.baseFactor] at hb
  rw [h.variableFeeControl] at hc
  rw [hacc] at ha
  have hprod := (variableFee_lt hlt hcontrol hstep).1
  have hsquare := (variableFee_lt hlt hcontrol hstep).2.2
  have hvariable : Moe.PairParameterHelper.getVariableFee p binStep =
      if getVariableFeeControl params = 0 then 0
      else ((getVolatilityAccumulator params * binStep) *
        (getVolatilityAccumulator params * binStep) * getVariableFeeControl params + 99) / 100 := by
    unfold Moe.PairParameterHelper.getVariableFee
    rw [hc, ha]
    by_cases hzero : getVariableFeeControl params = 0
    · rw [if_pos hzero, if_pos hzero]
    · have hcast : (BitVec.ofNat 256 (getVolatilityAccumulator params * binStep)).toNat =
          getVolatilityAccumulator params * binStep := by
        rw [BitVec.toNat_ofNat, Nat.mod_eq_of_lt (Nat.lt_trans hprod (by decide))]
      have hval := toNat_variableFee hlt hcontrol hstep hcast
      rw [if_neg hzero, if_neg hzero]
      dsimp only
      rw [hval, if_pos (by omega)]
  have hfee := totalFee_lt hbase hlt hcontrol hstep
  have hsum : Moe.PairParameterHelper.getBaseFee p binStep +
      Moe.PairParameterHelper.getVariableFee p binStep = f := by
    rw [getTotalFee_eq_ok hstep hok, hvariable]
    unfold Moe.PairParameterHelper.getBaseFee
    rw [hb]
    rfl
  rw [getTotalFee_eq_ok hstep hok] at hsum ⊢
  unfold Moe.PairParameterHelper.getTotalFee
  dsimp only
  rw [hsum, if_pos (Nat.lt_trans hfee (by decide))]

/-! ## References -/

theorem updateTimeOfLastUpdate_eq_ok {timestamp : Nat}
    (h : updateTimeOfLastUpdate params timestamp = .ok params') :
    params' = LiquidityBook.Encoded.set params (BitVec.ofNat 256 timestamp)
      (BitFields.mask 256 40) OFFSET_TIME_LAST_UPDATE := by
  unfold updateTimeOfLastUpdate LiquidityBook.SafeCast.safe40 at h
  split at h
  · cases h
    rfl
  · cases h

/-- A new reference id, and a new reference of the accumulator. -/
theorem MoeParameters.Unpacks.setIdReference (h : mp.Unpacks params)
    (hactive : mp.activeId = getActiveId params) :
    { mp with idReference := mp.activeId }.Unpacks (updateIdReference params) := by
  have hlt := getActiveId_lt params
  refine h.set (w := 24) (by decide) (h.volatilityReference.trans ?_) (hactive.trans ?_)
  · exact (congrArg BitVec.toNat (decode_set_of_disjoint (u := 20) (.inr (by decide)))).symm
  · refine ((decode_set (w := 24) (by decide)).trans ?_).symm
    rw [BitVec.toNat_ofNat]
    omega

theorem MoeParameters.Unpacks.setVolatilityReference (h : mp.Unpacks params)
    (hok : LiquidityBook.PairParameterHelper.setVolatilityReference params n = .ok params') :
    { mp with volatilityReference := n }.Unpacks params' := by
  obtain ⟨hlt, rfl⟩ := setVolatilityReference_eq_ok hok
  refine h.set (w := 20) (by decide) ?_ (h.idReference.trans ?_)
  · refine ((decode_set (w := 20) (by decide)).trans ?_).symm
    rw [BitVec.toNat_ofNat]
    omega
  · exact (congrArg BitVec.toNat (decode_set_of_disjoint (u := 24) (.inl (by decide)))).symm

/-- **The references are ported** at every time that the contract accepts. -/
theorem MoeParameters.Unpacks.updateReferences {timestamp : Nat} (h : mp.Unpacks params)
    (hacc : mp.volatilityAccumulator = getVolatilityAccumulator params)
    (htime : mp.timeOfLastUpdate = getTimeOfLastUpdate params)
    (hactive : mp.activeId = getActiveId params)
    (hok : LiquidityBook.PairParameterHelper.updateReferences params timestamp = .ok params') :
    (mp.updateReferences timestamp).Unpacks params' := by
  unfold LiquidityBook.PairParameterHelper.updateReferences at hok
  simp only [bind_eq_ok] at hok
  obtain ⟨dt, hdt, params₁, hok₁, hok⟩ := hok
  rw [updateTimeOfLastUpdate_eq_ok hok]
  have hdt' : dt = timestamp - mp.timeOfLastUpdate := by
    unfold LiquidityBook.checkedSub at hdt
    rw [← htime] at hdt
    split at hdt
    · cases hdt
      rfl
    · cases hdt
  subst hdt'
  unfold updateReferencesAfter at hok₁
  rw [← h.filterPeriod] at hok₁
  unfold MoeParameters.updateReferences
  dsimp only at hok₁ ⊢
  by_cases hfilter : timestamp - mp.timeOfLastUpdate ≥ mp.filterPeriod
  · rw [if_pos hfilter] at hok₁ ⊢
    have hid := h.setIdReference hactive
    rw [← hid.decayPeriod] at hok₁
    dsimp only at hok₁
    by_cases hdecay : timestamp - mp.timeOfLastUpdate < mp.decayPeriod
    · rw [if_pos hdecay] at hok₁ ⊢
      have hlt : mp.volatilityAccumulator < 2 ^ 20 := hacc ▸ getVolatilityAccumulator_lt params
      have hkept : getVolatilityAccumulator (updateIdReference params) =
          getVolatilityAccumulator params :=
        congrArg BitVec.toNat (decode_set_of_disjoint (w := 24) (u := 20) (.inr (by decide)))
      have hmul : mp.volatilityAccumulator * mp.reductionFactor ≤ 2 ^ 20 * 10000 :=
        Nat.mul_le_mul hlt.le h.reductionFactor_le
      have hvolRef : min (min (mp.reductionFactor * mp.volatilityAccumulator) (2 ^ 128 - 1) /
          Moe.BASIS_POINT_MAX_U128) (2 ^ 32 - 1) =
            mp.volatilityAccumulator * mp.reductionFactor / 10000 % 2 ^ 24 := by
        unfold Moe.BASIS_POINT_MAX_U128
        rw [Nat.mul_comm mp.reductionFactor, Nat.min_eq_left (by omega),
          Nat.min_eq_left (by omega), Nat.mod_eq_of_lt (by omega)]
      unfold updateVolatilityReference LiquidityBook.Constants.BASIS_POINT_MAX at hok₁
      dsimp only at hok₁
      rw [hkept, ← hacc, ← hid.reductionFactor] at hok₁
      dsimp only at hok₁
      rw [hvolRef]
      generalize mp.volatilityAccumulator * mp.reductionFactor / 10000 % 2 ^ 24 = volRef at hok₁ ⊢
      have hset := (hid.setVolatilityReference hok₁).set_apart (v := BitVec.ofNat 256 timestamp)
        (w := 40) (.inr (Nat.le_refl OFFSET_TIME_LAST_UPDATE))
      exact { hset with }
    · rw [if_neg hdecay] at hok₁ ⊢
      have hset := (hid.setVolatilityReference hok₁).set_apart (v := BitVec.ofNat 256 timestamp)
        (w := 40) (.inr (Nat.le_refl OFFSET_TIME_LAST_UPDATE))
      exact { hset with }
  · rw [if_neg hfilter] at hok₁ ⊢
    cases hok₁
    have hset := h.set_apart (v := BitVec.ofNat 256 timestamp) (w := 40)
      (.inr (Nat.le_refl OFFSET_TIME_LAST_UPDATE))
    exact { hset with }

end Parameters

end ArbitrageBot
