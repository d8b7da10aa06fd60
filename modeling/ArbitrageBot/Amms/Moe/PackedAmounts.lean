import ArbitrageBot.Amms.Moe.MathSpec

/-!
# Packed amounts: what the codec keeps

The lanes are packed, added and subtracted over their whole width; the decoders read the low limb of
each lane. So the sums and differences are those of the lanes, and decoding gives them back exactly
where they fit a limb.
-/

namespace ArbitrageBot.Moe.PackedUint128Math

open Lib Words

variable {x y z : U256}

/-! ## The comparisons of the lanes -/

theorem toNat_and_mask : (z &&& MASK_128).toNat = low z := by
  unfold MASK_128 low
  rw [BitVec.toNat_and, BitVec.toNat_ofNat, Nat.mod_eq_of_lt (by omega : 2 ^ 128 - 1 < 2 ^ 256),
    Nat.and_two_pow_sub_one_eq_mod]

theorem and_mask_lt_iff : x &&& MASK_128 < y &&& MASK_128 ↔ low x < low y := by
  rw [BitVec.lt_def, toNat_and_mask, toNat_and_mask]

theorem low_shift (z : U256) : low (z >>> OFFSET) = high z := by
  have hlt := high_lt z
  unfold low high OFFSET at *
  rw [BitVec.toNat_ushiftRight, Nat.shiftRight_eq_div_pow, Nat.mod_eq_of_lt hlt]

/-! ## Sums and differences -/

/-- The lanes of a wrapping sum: the low lane carries into the high one. -/
theorem low_add (x y : U256) : low (x + y) = (low x + low y) % 2 ^ 128 := by
  unfold low
  rw [BitVec.toNat_add]
  omega

theorem high_add (x y : U256) :
    high (x + y) = (high x + high y + (low x + low y) / 2 ^ 128) % 2 ^ 128 := by
  have hx := x.isLt
  have hy := y.isLt
  unfold high low
  rw [BitVec.toNat_add]
  omega

/-- Both lane sums are lanes: `add` returns the word of the sums. -/
theorem add_eq_ok (hlow : low x + low y < 2 ^ 128) (hhigh : high x + high y < 2 ^ 128) :
    add x y = .ok (pack (low x + low y) (high x + high y)) := by
  have hl := low_add x y
  have hh := high_add x y
  rw [Nat.mod_eq_of_lt hlow] at hl
  rw [Nat.div_eq_of_lt hlow, Nat.add_zero, Nat.mod_eq_of_lt hhigh] at hh
  have hword : x + y = pack (low x + low y) (high x + high y) :=
    eq_of_lanes (by rw [hl, low_pack hlow hhigh]) (by rw [hh, high_pack hlow hhigh])
  unfold add
  simp only [and_mask_lt_iff, low_shift, hl, hh]
  rw [if_neg (by omega), hword]

/-- A lane sum that is no lane fails the comparison with its first summand. -/
theorem add_eq_error (h : ¬ (low x + low y < 2 ^ 128 ∧ high x + high y < 2 ^ 128)) :
    add x y = .error (.err .overflow) := by
  have hl := low_add x y
  have hh := high_add x y
  have hx := low_lt x
  have hy := low_lt y
  have hx' := high_lt x
  have hy' := high_lt y
  unfold add
  simp only [and_mask_lt_iff, low_shift]
  rw [if_pos]
  by_cases hlow : low x + low y < 2 ^ 128
  · -- no carry, so the high lane has lost `2 ^ 128`
    right
    rw [Nat.div_eq_of_lt hlow] at hh
    omega
  · left
    omega

theorem sub_eq_ok (hlow : low y ≤ low x) (hhigh : high y ≤ high x) :
    sub x y = .ok (pack (low x - low y) (high x - high y)) := by
  have hxl := low_lt x
  have hxh := high_lt x
  have hword : x - y = pack (low x - low y) (high x - high y) := by
    apply BitVec.eq_of_toNat_eq
    rw [toNat_pack (by omega) (by omega), BitVec.toNat_sub, toNat_eq x, toNat_eq y]
    omega
  unfold sub
  simp only [and_mask_lt_iff, low_shift]
  rw [if_neg (by omega), hword]

theorem sub_eq_error (h : ¬ (low y ≤ low x ∧ high y ≤ high x)) :
    sub x y = .error (.err .underflow) := by
  unfold sub
  simp only [and_mask_lt_iff, low_shift]
  rw [if_pos (by omega)]

/-! ## Decoding -/

theorem mod_eq_self_iff {n m : Nat} (hm : 0 < m) : n % m = n ↔ n < m :=
  ⟨fun h => h ▸ Nat.mod_lt n hm, Nat.mod_eq_of_lt⟩

/-- Decoding gives back the lanes that fit a limb. -/
theorem decode_pack_iff {a b : Nat} (ha : a < 2 ^ 128) (hb : b < 2 ^ 128) :
    decode (pack a b) = (a, b) ↔ a < 2 ^ 64 ∧ b < 2 ^ 64 := by
  unfold decode
  rw [decodeX_eq, decodeY_eq, low_pack ha hb, high_pack ha hb, Prod.mk.injEq,
    mod_eq_self_iff (by omega), mod_eq_self_iff (by omega)]

theorem encode_decode_iff (z : U256) :
    encode (decode z).1 (decode z).2 = z ↔ low z < 2 ^ 64 ∧ high z < 2 ^ 64 := by
  have hl : low z % 2 ^ 64 < 2 ^ 128 := by omega
  have hh : high z % 2 ^ 64 < 2 ^ 128 := by omega
  unfold decode
  rw [encode_eq, decodeX_eq, decodeY_eq, ← mod_eq_self_iff (by omega : 0 < 2 ^ 64),
    ← mod_eq_self_iff (by omega : 0 < 2 ^ 64)]
  constructor
  · intro h
    have hlow := low_pack hl hh
    have hhigh := high_pack hl hh
    rw [h] at hlow hhigh
    exact ⟨hlow.symm, hhigh.symm⟩
  · intro ⟨hlow, hhigh⟩
    rw [hlow, hhigh, pack_low_high]

/-- All decoders return the lanes that were encoded. -/
def DecodesBack (x y : Nat) : Prop :=
  decode (encode x y) = (x, y) ∧ decodeX (encode x y) = x ∧ decodeY (encode x y) = y ∧
    decodeFirst (encode x y) true = x ∧ decodeFirst (encode x y) false = y

theorem decodesBack_iff {a b : Nat} (ha : a < 2 ^ 128) (hb : b < 2 ^ 128) :
    DecodesBack a b ↔ a < 2 ^ 64 ∧ b < 2 ^ 64 := by
  unfold DecodesBack
  rw [encode_eq, decode_pack_iff ha hb]
  constructor
  · exact fun h => h.1
  · intro h
    have hdecode := (decode_pack_iff ha hb).mpr h
    have hx : decodeX (pack a b) = a := congrArg Prod.fst hdecode
    have hy : decodeY (pack a b) = b := congrArg Prod.snd hdecode
    exact ⟨h, hx, hy, hx, hy⟩

/-- **The codec on all lanes and words.** `add` and `sub` are lane-wise; every decoder is right
exactly where the lanes fit a limb. -/
theorem codec_faithful_iff (x y : BitVec 128) (z a b : U256) :
    (DecodesBack x.toNat y.toNat ↔ x.toNat < 2 ^ 64 ∧ y.toNat < 2 ^ 64) ∧
    (encode (decode z).1 (decode z).2 = z ↔ low z < 2 ^ 64 ∧ high z < 2 ^ 64) ∧
    ((∃ c, add a b = .ok c) ↔ low a + low b < 2 ^ 128 ∧ high a + high b < 2 ^ 128) ∧
    (∀ c, add a b = .ok c →
      (decode c = (low a + low b, high a + high b) ↔
        low a + low b < 2 ^ 64 ∧ high a + high b < 2 ^ 64)) ∧
    ((∃ c, sub a b = .ok c) ↔ low b ≤ low a ∧ high b ≤ high a) ∧
    (∀ c, sub a b = .ok c →
      (decode c = (low a - low b, high a - high b) ↔
        low a - low b < 2 ^ 64 ∧ high a - high b < 2 ^ 64)) := by
  refine ⟨decodesBack_iff x.isLt y.isLt, encode_decode_iff z, ?_, fun c h => ?_, ?_, fun c h => ?_⟩
  · constructor
    · intro ⟨c, h⟩
      by_contra hover
      rw [add_eq_error hover] at h
      cases h
    · exact fun h => ⟨_, add_eq_ok h.1 h.2⟩
  · by_cases hfit : low a + low b < 2 ^ 128 ∧ high a + high b < 2 ^ 128
    · rw [add_eq_ok hfit.1 hfit.2] at h
      cases h
      exact decode_pack_iff hfit.1 hfit.2
    · rw [add_eq_error hfit] at h
      cases h
  · constructor
    · intro ⟨c, h⟩
      by_contra hunder
      rw [sub_eq_error hunder] at h
      cases h
    · exact fun h => ⟨_, sub_eq_ok h.1 h.2⟩
  · by_cases hle : low b ≤ low a ∧ high b ≤ high a
    · have hl := low_lt a
      have hh := high_lt a
      rw [sub_eq_ok hle.1 hle.2] at h
      cases h
      exact decode_pack_iff (by omega) (by omega)
    · rw [sub_eq_error hle] at h
      cases h

/-- A lane of `2 ^ 64` comes back as zero. -/
theorem decode_encode_two_pow_64 :
    ¬ ∀ x y : BitVec 128, decode (encode x.toNat y.toNat) = (x.toNat, y.toNat) := by
  intro h
  have hlimb := h (BitVec.ofNat 128 (2 ^ 64)) 0
  revert hlimb
  decide

end ArbitrageBot.Moe.PackedUint128Math
