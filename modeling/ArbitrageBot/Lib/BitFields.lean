import Mathlib.Data.Nat.Bitwise

/-!
# Bit fields of a word

A word cut into fields: a field is `w` bits from an offset on. Writing a field gives it its new
value and leaves the fields that do not overlap it.
-/

namespace ArbitrageBot.Lib.BitFields

variable {n : Nat}

/-- The word whose low `w` bits are set. -/
def mask (n w : Nat) : BitVec n := BitVec.ofNat n (2 ^ w - 1)

/-- The field of `e` under `m`, from bit `off` on. -/
def get (e m : BitVec n) (off : Nat) : BitVec n := (e >>> off) &&& m

/-- `e` with the low bits of `v` in the field. -/
def set (e v m : BitVec n) (off : Nat) : BitVec n := (e &&& ~~~(m <<< off)) ||| ((v &&& m) <<< off)

variable {e v : BitVec n} {w w' off off' i : Nat}

theorem getLsbD_mask : (mask n w).getLsbD i = (decide (i < n) && decide (i < w)) := by
  simp [mask, BitVec.getLsbD_ofNat, Nat.testBit_two_pow_sub_one]

theorem getLsbD_get : (get e (mask n w) off).getLsbD i =
    (e.getLsbD (off + i) && decide (i < w)) := by
  unfold get
  rw [BitVec.getLsbD_and, BitVec.getLsbD_ushiftRight, getLsbD_mask]
  by_cases hi : i < n
  · simp [hi]
  · rw [BitVec.getLsbD_of_ge e (off + i) (by omega)]
    simp

theorem getLsbD_set : (set e v (mask n w) off).getLsbD i =
    if off ≤ i ∧ i < off + w ∧ i < n then v.getLsbD (i - off) else e.getLsbD i := by
  unfold set
  rw [BitVec.getLsbD_or, BitVec.getLsbD_and, BitVec.getLsbD_not, BitVec.getLsbD_shiftLeft,
    BitVec.getLsbD_shiftLeft, BitVec.getLsbD_and, getLsbD_mask]
  by_cases hn : i < n
  · by_cases hoff : off ≤ i
    · have hsub : i - off < n := by omega
      have hlt : ¬ i < off := by omega
      by_cases hw : i - off < w
      · have : i < off + w := by omega
        simp [hn, hoff, hsub, hlt, hw, this]
      · have : ¬ i < off + w := by omega
        simp [hn, hoff, hlt, hw, this]
    · have : i < off := by omega
      simp [hn, hoff, this]
  · rw [BitVec.getLsbD_of_ge e i (by omega)]
    simp [hn]

/-- A field read back is what was written to it. -/
theorem get_set_same (h : off + w ≤ n) :
    get (set e v (mask n w) off) (mask n w) off = v &&& mask n w := by
  apply BitVec.eq_of_getLsbD_eq
  intro i hi
  rw [getLsbD_get, getLsbD_set, BitVec.getLsbD_and, getLsbD_mask]
  by_cases hw : i < w
  · rw [if_pos (by omega), Nat.add_sub_cancel_left]
    simp [hi, hw]
  · simp [hw]

/-- Writing a field leaves the others. -/
theorem get_set_of_disjoint (h : off + w ≤ off' ∨ off' + w' ≤ off) :
    get (set e v (mask n w) off) (mask n w') off' = get e (mask n w') off' := by
  apply BitVec.eq_of_getLsbD_eq
  intro i hi
  rw [getLsbD_get, getLsbD_get, getLsbD_set]
  by_cases hw : i < w'
  · rw [if_neg (by omega)]
  · simp [hw]

/-- Writing a field twice keeps the second value. -/
theorem set_set_same {v' : BitVec n} :
    set (set e v (mask n w) off) v' (mask n w) off = set e v' (mask n w) off := by
  apply BitVec.eq_of_getLsbD_eq
  intro i hi
  rw [getLsbD_set, getLsbD_set, getLsbD_set]
  split
  · rfl
  · rfl

/-- Fields that do not overlap are written in any order. -/
theorem set_comm_of_disjoint {v' : BitVec n} (h : off + w ≤ off' ∨ off' + w' ≤ off) :
    set (set e v (mask n w) off) v' (mask n w') off' =
      set (set e v' (mask n w') off') v (mask n w) off := by
  apply BitVec.eq_of_getLsbD_eq
  intro i hi
  rw [getLsbD_set, getLsbD_set, getLsbD_set, getLsbD_set]
  by_cases hfield : off ≤ i ∧ i < off + w ∧ i < n
  · rw [if_neg (by omega), if_pos hfield, if_pos hfield]
  · rw [if_neg hfield, if_neg hfield]

theorem toNat_and_mask (h : w ≤ n) : (v &&& mask n w).toNat = v.toNat % 2 ^ w := by
  have hlt : 2 ^ w - 1 < 2 ^ n :=
    Nat.lt_of_lt_of_le (Nat.sub_lt (Nat.two_pow_pos w) Nat.one_pos)
      (Nat.pow_le_pow_right (by omega) h)
  rw [mask, BitVec.toNat_and, BitVec.toNat_ofNat, Nat.mod_eq_of_lt hlt,
    Nat.and_two_pow_sub_one_eq_mod]

theorem toNat_get (h : w ≤ n) : (get e (mask n w) off).toNat = e.toNat / 2 ^ off % 2 ^ w := by
  unfold get
  rw [toNat_and_mask h, BitVec.toNat_ushiftRight, Nat.shiftRight_eq_div_pow]

theorem toNat_get_set_same (h : off + w ≤ n) :
    (get (set e v (mask n w) off) (mask n w) off).toNat = v.toNat % 2 ^ w := by
  rw [get_set_same h, toNat_and_mask (by omega)]

end ArbitrageBot.Lib.BitFields
