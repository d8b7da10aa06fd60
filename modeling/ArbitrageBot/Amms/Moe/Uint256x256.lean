import ArbitrageBot.Amms.Moe.MathSpec
import ArbitrageBot.Lib.NewtonRoot
import ArbitrageBot.Lib.WideDiv

/-!
# Rounded quotients and roots over all words

The functions of `uint256x256_math` on all operands. Rounding down is exact, and an error where the
quotient is no word (`roundDown_exact`). Rounding up adds one without a check, so it is right except
where the quotient lies strictly between the last word and `2 ^ 256` (`roundUp_exact_iff`). The
Newton loop of `sqrt` ends at the root without wrapping (`sqrt_exact`).
-/

namespace ArbitrageBot.Moe.Uint256x256Math

open Lib

/-- The outcome of an exact division that rounds down. -/
def floorQuotient (n d : Nat) : MathOutcome U256 :=
  if d = 0 then .error (.err .divisionByZero)
  else if n / d < 2 ^ 256 then .ok (BitVec.ofNat 256 (n / d))
  else .error (.err .overflow)

/-- The outcome is the quotient rounded up where that is a word, and an error otherwise. -/
def RoundsUp (r : MathOutcome U256) (n d : Nat) : Prop :=
  if 0 < d ∧ n ⌈/⌉ d < 2 ^ 256 then r = .ok (BitVec.ofNat 256 (n ⌈/⌉ d))
  else ∃ e, r = .error (.err e)

variable {x y d prod0 prod1 : U256} {n offset : Nat}

/-! ## Rounding down -/

theorem getMulProds_eq (x y : U256) : getMulProds x y = (Words.prodLow x y, Words.prodHigh x y) :=
  rfl

theorem toNat_two_pow (h : offset < 256) : (((1 <<< offset : Nat) : U256)).toNat = 2 ^ offset := by
  have hlt : 2 ^ offset < 2 ^ 256 := (Nat.pow_lt_pow_iff_right (by omega)).mpr h
  have hcast : ((1 <<< offset : Nat) : U256).toNat = 1 <<< offset % 2 ^ 256 :=
    BitVec.toNat_ofNat _ _
  rw [hcast, Nat.shiftLeft_eq, Nat.one_mul, Nat.mod_eq_of_lt hlt]

/-- A division that runs to its end is the exact one. -/
theorem getEndOfDivRoundDown_wide (hd : d ≠ 0) (h1 : prod1 ≠ 0) (hlt : ¬ d ≤ prod1) :
    getEndOfDivRoundDown x y d prod0 prod1 =
      .ok (WideDiv.quotient prod0 prod1 (Words.mulMod x y d) d) := by
  unfold getEndOfDivRoundDown
  rw [if_neg hd, if_neg h1, if_neg hlt]
  rfl

/-- From the words of the product: its quotient, or the error. -/
theorem getEndOfDivRoundDown_eq (hn : x.toNat * y.toNat = n) (h0 : prod0.toNat = n % 2 ^ 256)
    (h1 : prod1.toNat = n / 2 ^ 256) :
    getEndOfDivRoundDown x y d prod0 prod1 = floorQuotient n d.toNat := by
  unfold floorQuotient
  by_cases hd : d = 0
  · subst hd
    rfl
  have hpos := BitVec.toNat_pos_of_ne_zero hd
  have hd0 := hpos.ne'
  rw [if_neg hd0]
  by_cases hhigh : prod1 = 0
  · -- a dividend of one word
    have hword : n / 2 ^ 256 = 0 := by rw [← h1, hhigh]; rfl
    have hle := Nat.div_le_self n d.toNat
    rw [hhigh, getEndOfDivRoundDown_zero hd, if_pos (by omega)]
    congr 1
    apply BitVec.eq_of_toNat_eq
    rw [BitVec.toNat_udiv, BitVec.toNat_ofNat, h0, Nat.mod_eq_of_lt (by omega : n < 2 ^ 256),
      Nat.mod_eq_of_lt (by omega)]
  by_cases hlt : d ≤ prod1
  · have hover : ¬ n / d.toNat < 2 ^ 256 := by
      rw [BitVec.le_def, h1] at hlt
      rw [Nat.div_lt_iff_lt_mul hpos, Nat.not_lt, Nat.mul_comm]
      exact Nat.le_trans (Nat.mul_le_mul_right _ hlt) (Nat.div_mul_le_self _ _)
    unfold getEndOfDivRoundDown
    rw [if_neg hd, if_neg hhigh, if_pos hlt, if_neg hover]
  · have hfit : n / d.toNat < 2 ^ 256 := by
      rw [BitVec.le_def, h1, Nat.not_le, Nat.div_lt_iff_lt_mul (by omega)] at hlt
      rwa [Nat.div_lt_iff_lt_mul hpos, Nat.mul_comm]
    have hrem : (Words.mulMod x y d).toNat = n % d.toNat := by rw [Words.toNat_mulMod hd, hn]
    have hval : WideDiv.quotient prod0 prod1 (Words.mulMod x y d) d =
        BitVec.ofNat 256 (n / d.toNat) := by
      apply BitVec.eq_of_toNat_eq
      rw [WideDiv.toNat_quotient hd h0 h1 hrem hfit, BitVec.toNat_ofNat, Nat.mod_eq_of_lt hfit]
    rw [getEndOfDivRoundDown_wide hd hhigh hlt, if_pos hfit, hval]

theorem mulDivRoundDown_eq (x y d : U256) :
    mulDivRoundDown x y d = floorQuotient (x.toNat * y.toNat) d.toNat := by
  unfold mulDivRoundDown
  by_cases hd : d = 0
  · subst hd
    rfl
  · rw [if_neg hd, getMulProds_eq]
    exact getEndOfDivRoundDown_eq rfl Words.toNat_prodLow Words.toNat_prodHigh

/-- A word and the words of its shift. -/
theorem toNat_shiftLeft_words (h : offset < 256) :
    (x <<< offset).toNat = x.toNat * 2 ^ offset % 2 ^ 256 ∧
      (if offset = 0 then (0 : U256) else x >>> (256 - offset)).toNat =
        x.toNat * 2 ^ offset / 2 ^ 256 := by
  refine ⟨by rw [BitVec.toNat_shiftLeft, Nat.shiftLeft_eq], ?_⟩
  by_cases h0 : offset = 0
  · have hlt := x.isLt
    have hzero : (0 : U256).toNat = 0 := rfl
    rw [if_pos h0, h0, hzero, Nat.pow_zero, Nat.mul_one, Nat.div_eq_of_lt hlt]
  · have hsplit : 2 ^ 256 = 2 ^ (256 - offset) * 2 ^ offset :=
      (Nat.pow_sub_mul_pow 2 h.le).symm
    rw [if_neg h0, BitVec.toNat_ushiftRight, Nat.shiftRight_eq_div_pow, hsplit,
      Nat.mul_div_mul_right _ _ (Nat.two_pow_pos _)]

theorem shiftDivRoundDown_exact (x d : U256) (h : offset < 256) :
    shiftDivRoundDown x offset d = floorQuotient (x.toNat * 2 ^ offset) d.toNat := by
  obtain ⟨h0, h1⟩ := toNat_shiftLeft_words (x := x) h
  unfold shiftDivRoundDown
  by_cases hd : d = 0
  · subst hd
    rfl
  · rw [if_neg hd]
    exact getEndOfDivRoundDown_eq (by rw [toNat_two_pow h]) h0 h1

/-- The low word shifted down, under the high word shifted to the top. -/
theorem toNat_shift_words (h : offset < 256) (hfit : n / 2 ^ 256 < 2 ^ offset)
    (h0 : prod0.toNat = n % 2 ^ 256) (h1 : prod1.toNat = n / 2 ^ 256) :
    (prod0 >>> offset + prod1 <<< (256 - offset)).toNat = n / 2 ^ offset := by
  have hpos : 0 < 2 ^ offset := Nat.two_pow_pos _
  have hsplit : 2 ^ 256 = 2 ^ offset * 2 ^ (256 - offset) := by
    rw [Nat.mul_comm, Nat.pow_sub_mul_pow 2 h.le]
  have hhigh : n / 2 ^ 256 * 2 ^ (256 - offset) < 2 ^ 256 := by
    calc n / 2 ^ 256 * 2 ^ (256 - offset) < 2 ^ offset * 2 ^ (256 - offset) :=
          Nat.mul_lt_mul_of_pos_right hfit (Nat.two_pow_pos _)
      _ = 2 ^ 256 := hsplit.symm
  have hquot : n / 2 ^ offset =
      n % 2 ^ 256 / 2 ^ offset + n / 2 ^ 256 * 2 ^ (256 - offset) := by
    calc n / 2 ^ offset
        = (n % 2 ^ 256 + 2 ^ offset * (n / 2 ^ 256 * 2 ^ (256 - offset))) / 2 ^ offset := by
          congr 1
          rw [Nat.mul_left_comm, ← hsplit, Nat.mul_comm, Nat.mod_add_div]
      _ = n % 2 ^ 256 / 2 ^ offset + n / 2 ^ 256 * 2 ^ (256 - offset) :=
          Nat.add_mul_div_left _ _ hpos
  have hword : n / 2 ^ offset < 2 ^ 256 := by
    rw [Nat.div_lt_iff_lt_mul hpos, Nat.mul_comm, ← Nat.div_lt_iff_lt_mul (by omega)]
    exact hfit
  rw [BitVec.toNat_add, BitVec.toNat_ushiftRight, BitVec.toNat_shiftLeft, h0, h1,
    Nat.shiftRight_eq_div_pow, Nat.shiftLeft_eq, Nat.mod_eq_of_lt hhigh, ← hquot,
    Nat.mod_eq_of_lt hword]

theorem mulShiftRoundDown_exact (x y : U256) (h : offset < 256) :
    mulShiftRoundDown x y offset = floorQuotient (x.toNat * y.toNat) (2 ^ offset) := by
  have hpos : 0 < 2 ^ offset := Nat.two_pow_pos _
  have h0 : (Words.prodLow x y).toNat = x.toNat * y.toNat % 2 ^ 256 := Words.toNat_prodLow
  have h1 : (Words.prodHigh x y).toNat = x.toNat * y.toNat / 2 ^ 256 := Words.toNat_prodHigh
  unfold mulShiftRoundDown floorQuotient
  rw [getMulProds_eq, if_neg (by omega)]
  generalize Words.prodLow x y = prod0 at h0 ⊢
  generalize Words.prodHigh x y = prod1 at h1 ⊢
  generalize x.toNat * y.toNat = n at h0 h1 ⊢
  dsimp only
  have hlow : (if prod0 ≠ 0 then prod0 >>> offset else 0) = prod0 >>> offset := by
    split
    · rfl
    · rename_i hzero
      rw [not_not.mp hzero]
      simp
  have hiff : n / 2 ^ offset < 2 ^ 256 ↔ prod1.toNat < 2 ^ offset := by
    rw [h1, Nat.div_lt_iff_lt_mul hpos, Nat.div_lt_iff_lt_mul (by omega), Nat.mul_comm]
  rw [hlow]
  by_cases hfit : prod1.toNat < 2 ^ offset
  · have hval := toNat_shift_words h (h1 ▸ hfit) h0 h1
    have hword : prod0 >>> offset + prod1 <<< (256 - offset) =
        BitVec.ofNat 256 (n / 2 ^ offset) := by
      rw [← hval, BitVec.ofNat_toNat, BitVec.setWidth_eq]
    rw [if_pos (hiff.mpr hfit), ← hword]
    by_cases hzero : prod1 = 0
    · rw [if_neg (not_not.mpr hzero), hzero]
      simp
    · rw [if_pos hzero, if_neg (by rw [ge_iff_le, BitVec.le_def, toNat_two_pow h]; omega)]
  · have hzero : prod1 ≠ 0 := by
      intro hzero
      rw [hzero] at hfit
      exact hfit hpos
    rw [if_neg (fun h => hfit (hiff.mp h)), if_pos hzero,
      if_pos (by rw [ge_iff_le, BitVec.le_def, toNat_two_pow h]; omega)]

/-- **Rounding down is exact**: the functions return the quotient of the unbounded integers where
the divisor is not zero and the quotient is a word, and an error otherwise. -/
theorem roundDown_exact (x y d : U256) (offset : UInt8) :
    mulDivRoundDown x y d = floorQuotient (x.toNat * y.toNat) d.toNat ∧
    mulShiftRoundDown x y offset.toNat = floorQuotient (x.toNat * y.toNat) (2 ^ offset.toNat) ∧
    shiftDivRoundDown x offset.toNat d = floorQuotient (x.toNat * 2 ^ offset.toNat) d.toNat :=
  ⟨mulDivRoundDown_eq x y d, mulShiftRoundDown_exact x y offset.toNat_lt,
    shiftDivRoundDown_exact x d offset.toNat_lt⟩

example : mulDivRoundDown (BitVec.allOnes 256) (BitVec.allOnes 256) (BitVec.allOnes 256) =
    .ok (BitVec.allOnes 256) := by decide

/-! ## Rounding up -/

/-- The quotient lies strictly between the last word and `2 ^ 256`. -/
def PastLastWord (n d : Nat) : Prop := d * (2 ^ 256 - 1) < n ∧ n < d * 2 ^ 256

/-- One is added to a rounded-down quotient that has a remainder. The sum wraps exactly where the
quotient lies past the last word. -/
theorem roundsUp_iff {m : U256} {d : Nat} (hm : d ≠ 0 → (m = 0 ↔ n % d = 0)) :
    RoundsUp (floorQuotient n d >>= fun result => pure (if m = 0 then result else result + 1)) n d ↔
      ¬ PastLastWord n d := by
  unfold RoundsUp PastLastWord floorQuotient
  by_cases hd : d = 0
  · subst hd
    rw [if_pos rfl, error_bind, if_neg (by omega)]
    simp
  have hpos : 0 < d := by omega
  have hceil := Words.div_add_ite_eq_ceilDiv (p := n) hpos
  have hdiv := Nat.div_add_mod n d
  have hmod := Nat.mod_lt n hpos
  have hle : ∀ a b, d * a ≤ d * b ↔ a ≤ b := fun a b => Nat.mul_le_mul_left_iff hpos
  rw [if_neg hd]
  by_cases hfit : n / d < 2 ^ 256
  · rw [if_pos hfit, ok_bind]
    by_cases hexact : n % d = 0
    · -- no remainder: the quotient is itself a word
      rw [if_pos hexact, Nat.add_zero] at hceil
      rw [if_pos ((hm hd).mpr hexact), ← hceil, if_pos ⟨hpos, hfit⟩]
      have := hle (n / d) (2 ^ 256 - 1)
      simp only [pure, Except.pure, true_iff]
      omega
    · rw [if_neg hexact] at hceil
      rw [if_neg fun h => hexact ((hm hd).mp h), ← hceil]
      have hone : (1 : U256).toNat = 1 := rfl
      by_cases hlast : n / d + 1 < 2 ^ 256
      · have hsum : BitVec.ofNat 256 (n / d) + 1 = BitVec.ofNat 256 (n / d + 1) := by
          apply BitVec.eq_of_toNat_eq
          rw [BitVec.toNat_add, BitVec.toNat_ofNat, BitVec.toNat_ofNat, hone, Nat.mod_add_mod]
        have := hle (n / d + 1) (2 ^ 256 - 1)
        rw [Nat.mul_add, Nat.mul_one] at this
        rw [if_pos ⟨hpos, hlast⟩, hsum]
        simp only [pure, Except.pure, true_iff]
        omega
      · -- the sum has wrapped to zero
        have hq : n / d = 2 ^ 256 - 1 := by omega
        rw [hq] at hdiv
        rw [if_neg (fun h => hlast h.2)]
        have hpast : d * (2 ^ 256 - 1) < n ∧ n < d * 2 ^ 256 := by omega
        simp only [pure, Except.pure, hpast, not_true_eq_false, reduceCtorEq, exists_false,
          and_self]
  · have hover : ¬ n < d * 2 ^ 256 := by
      rwa [Nat.div_lt_iff_lt_mul hpos, Nat.mul_comm] at hfit
    rw [if_neg hfit, error_bind, if_neg (by omega)]
    simp only [hover, and_false, not_false_eq_true, iff_true]
    exact ⟨_, rfl⟩

/-- A shifted word over a divisor never lies there: its distance to `2 ^ 256` is a multiple of the
power of two. -/
theorem not_pastLastWord_shift (x : U256) (d : Nat) (h : offset < 256) :
    ¬ PastLastWord (x.toNat * 2 ^ offset) d := by
  intro ⟨hlow, hhigh⟩
  have hx := x.isLt
  have hpos : 0 < 2 ^ offset := Nat.two_pow_pos _
  have hsplit : 2 ^ 256 = 2 ^ (256 - offset) * 2 ^ offset :=
    (Nat.pow_sub_mul_pow 2 h.le).symm
  have hhigh' : x.toNat < d * 2 ^ (256 - offset) := by
    rw [hsplit, ← Nat.mul_assoc] at hhigh
    exact Nat.lt_of_mul_lt_mul_right hhigh
  have hd : 2 ^ offset < d := by
    have : 2 ^ offset ≤ d * 2 ^ 256 - x.toNat * 2 ^ offset := by
      rw [hsplit, ← Nat.mul_assoc, ← Nat.sub_mul]
      exact Nat.le_mul_of_pos_left _ (by omega)
    rw [Nat.mul_sub, Nat.mul_one] at hlow
    omega
  obtain ⟨e, he⟩ := Nat.le.dest hd.le
  obtain ⟨c, hc⟩ := Nat.le.dest hhigh'.le
  -- the distance `c` of the word to the divisor's multiple is too large for its own bound
  have hgap : c * 2 ^ offset < d := by
    have : (x.toNat + c) * 2 ^ offset = d * 2 ^ 256 := by
      rw [hc, hsplit, Nat.mul_assoc]
    rw [Nat.add_mul] at this
    rw [Nat.mul_sub, Nat.mul_one] at hlow
    omega
  have hec : e * 2 ^ (256 - offset) < c := by
    have hsum : d * 2 ^ (256 - offset) = 2 ^ 256 + e * 2 ^ (256 - offset) := by
      rw [← he, Nat.add_mul, Nat.mul_comm (2 ^ offset), ← hsplit]
    omega
  have hprod : (e * 2 ^ (256 - offset) + 1) * 2 ^ offset ≤ c * 2 ^ offset :=
    Nat.mul_le_mul_right _ hec
  rw [Nat.add_mul, Nat.mul_assoc, ← hsplit] at hprod
  omega

/-- **Rounding up**: the products are right except past the last word, where the sum wraps to zero;
the shifted quotient is right everywhere. -/
theorem roundUp_exact_iff (x y d : U256) (offset : UInt8) :
    (RoundsUp (mulDivRoundUp x y d) (x.toNat * y.toNat) d.toNat ↔
      ¬ PastLastWord (x.toNat * y.toNat) d.toNat) ∧
    (RoundsUp (mulShiftRoundUp x y offset.toNat) (x.toNat * y.toNat) (2 ^ offset.toNat) ↔
      ¬ PastLastWord (x.toNat * y.toNat) (2 ^ offset.toNat)) ∧
    RoundsUp (shiftDivRoundUp x offset.toNat d) (x.toNat * 2 ^ offset.toNat) d.toNat := by
  have hlt := offset.toNat_lt
  have hd : d.toNat ≠ 0 → d ≠ 0 := fun h h' => h (h' ▸ rfl)
  have hpow : (((1 <<< offset.toNat : Nat) : U256)) ≠ 0 := by
    intro h
    have hval := toNat_two_pow hlt
    rw [h] at hval
    exact absurd hval.symm (Nat.two_pow_pos _).ne'
  refine ⟨?_, ?_, ?_⟩
  · unfold mulDivRoundUp
    rw [mulDivRoundDown_eq]
    exact roundsUp_iff fun h => Words.mulMod_eq_zero_iff (hd h)
  · have hmod := Words.mulMod_eq_zero_iff (x := x) (y := y) hpow
    rw [toNat_two_pow hlt] at hmod
    unfold mulShiftRoundUp
    rw [mulShiftRoundDown_exact x y hlt]
    exact roundsUp_iff fun _ => hmod
  · unfold shiftDivRoundUp
    rw [shiftDivRoundDown_exact x d hlt]
    refine (roundsUp_iff fun h => ?_).mpr (not_pastLastWord_shift x d.toNat hlt)
    rw [Words.mulMod_eq_zero_iff (hd h), toNat_two_pow hlt]

/-- A product of `16 * 2 ^ 256 - 1` shifted by four wraps to zero. -/
theorem mulShiftRoundUp_wraps : ¬ ∀ (x y : U256) (offset : UInt8),
    RoundsUp (mulShiftRoundUp x y offset.toNat) (x.toNat * y.toNat) (2 ^ offset.toNat) := by
  intro h
  have hround := h 31 (BitVec.ofNat 256 ((16 * 2 ^ 256 - 1) / 31)) 4
  have hzero : mulShiftRoundUp 31 (BitVec.ofNat 256 ((16 * 2 ^ 256 - 1) / 31)) 4 = .ok 0 := by
    decide
  have hceil : ¬ (31 : U256).toNat * (BitVec.ofNat 256 ((16 * 2 ^ 256 - 1) / 31)).toNat ⌈/⌉ 2 ^ 4 <
      2 ^ 256 := by decide
  have hfour : (4 : UInt8).toNat = 4 := rfl
  unfold RoundsUp at hround
  rw [hfour, hzero, if_neg fun h => hceil h.2] at hround
  obtain ⟨e, he⟩ := hround
  cases he

/-! ## The square root -/

/-- The states at the head of the loop of `sqrt`. -/
def SqrtHead (x guess : U256) : Prop :=
  ∃ msb, BitMath.mostSignificantBit x = .ok msb ∧
    Loop.Heads (ε := Fault MoeLbtMathError) (fun guess => decide (¬ sqrtNext x guess ≥ guess))
      (fun guess => .ok (sqrtNext x guess)) (1#256 <<< (msb / 2 + 1)) guess

/-- A guess above the root, and at most the first one. -/
structure Guess (x guess : U256) : Prop where
  above : NewtonRoot.Above x.toNat guess.toNat
  le : guess.toNat ≤ 2 ^ 128

namespace Guess

variable {guess : U256} (h : Guess x guess)

include h

theorem ne_zero : guess ≠ 0 := by
  intro h0
  have := h.above.pos
  rw [h0] at this
  exact absurd this (by decide)

/-- The sum of the loop does not wrap. -/
theorem sum_lt : guess.toNat + (x / guess).toNat < 2 ^ 256 := by
  have := h.above.div_le
  have := h.le
  rw [BitVec.toNat_udiv]
  omega

theorem toNat_sqrtNext : (sqrtNext x guess).toNat = NewtonRoot.next x.toNat guess.toNat := by
  have hsum := h.sum_lt
  unfold sqrtNext NewtonRoot.next
  rw [BitVec.toNat_ushiftRight, BitVec.toNat_add, Nat.mod_eq_of_lt hsum, BitVec.toNat_udiv,
    Nat.shiftRight_eq_div_pow, Nat.pow_one]

theorem next (hx : x ≠ 0) (hlt : ¬ sqrtNext x guess ≥ guess) :
    Guess x (sqrtNext x guess) ∧ (sqrtNext x guess).toNat < guess.toNat := by
  have hpos : 0 < x.toNat := BitVec.toNat_pos_of_ne_zero hx
  have hdec : (sqrtNext x guess).toNat < guess.toNat := by
    rw [ge_iff_le, BitVec.le_def, Nat.not_le] at hlt
    exact hlt
  have habove := h.above.next hpos
  rw [← h.toNat_sqrtNext] at habove
  exact ⟨⟨habove, Nat.le_trans hdec.le h.le⟩, hdec⟩

/-- Where the loop ends, the smaller of the guess and its cofactor is the guess, and it is the
root. -/
theorem root (hge : sqrtNext x guess ≥ guess) :
    (if guess ≤ x / guess then guess else x / guess) = guess ∧
      guess.toNat * guess.toNat ≤ x.toNat ∧ x.toNat < (guess.toNat + 1) * (guess.toNat + 1) := by
  rw [ge_iff_le, BitVec.le_def, h.toNat_sqrtNext] at hge
  obtain ⟨hle, hsq⟩ := h.above.root hge
  refine ⟨if_pos ?_, hsq⟩
  rw [BitVec.le_def, BitVec.toNat_udiv]
  exact hle

end Guess

theorem mostSignificantBit_eq (hx : x ≠ 0) :
    BitMath.mostSignificantBit x = .ok x.toNat.log2 ∧ x.toNat.log2 ≤ 255 := by
  have hlt := x.isLt
  have hlog : x.toNat.log2 ≤ 255 := by
    have := (Nat.log2_lt (BitVec.toNat_pos_of_ne_zero hx).ne').mpr hlt
    omega
  refine ⟨?_, hlog⟩
  unfold BitMath.mostSignificantBit BitMath.leadingZeros
  rw [if_neg hx, if_neg hx]
  congr 1
  omega

theorem guess_first (hx : x ≠ 0) :
    (1#256 <<< (x.toNat.log2 / 2 + 1)).toNat = 2 ^ (x.toNat.log2 / 2 + 1) ∧
      Guess x (1#256 <<< (x.toNat.log2 / 2 + 1)) := by
  obtain ⟨-, hlog⟩ := mostSignificantBit_eq hx
  have hle : 2 ^ (x.toNat.log2 / 2 + 1) ≤ 2 ^ 128 := Nat.pow_le_pow_right (by omega) (by omega)
  have hval : (1#256 <<< (x.toNat.log2 / 2 + 1)).toNat = 2 ^ (x.toNat.log2 / 2 + 1) := by
    have hone : (1#256).toNat = 1 := rfl
    rw [BitVec.toNat_shiftLeft, hone, Nat.shiftLeft_eq, Nat.one_mul, Nat.mod_eq_of_lt]
    omega
  refine ⟨hval, ?_, ?_⟩
  · rw [hval]
    exact NewtonRoot.above_two_pow
  · rw [hval]
    exact hle

/-- Every guess at the head of the loop is above the root. -/
theorem SqrtHead.guess {guess : U256} (hx : x ≠ 0) (h : SqrtHead x guess) : Guess x guess := by
  obtain ⟨msb, hmsb, hheads⟩ := h
  rw [(mostSignificantBit_eq hx).1] at hmsb
  cases hmsb
  refine hheads.inv (guess_first hx).2 fun g g' hg hguard hbody => ?_
  cases hbody
  exact (hg.next hx (of_decide_eq_true hguard)).1

/-- With more fuel than the first guess the loop ends. -/
theorem sqrtLoop_total {fuel : Nat} (hx : x ≠ 0) (hfuel : 2 ^ 128 < fuel) :
    ∃ guess, sqrtLoop x fuel (1#256 <<< (x.toNat.log2 / 2 + 1)) = some (.ok guess) ∧
      Guess x guess ∧ sqrtNext x guess ≥ guess := by
  have hfirst := (guess_first hx).2
  have hle := hfirst.le
  have hrun : ∃ r, sqrtLoop x fuel (1#256 <<< (x.toNat.log2 / 2 + 1)) = some r := by
    unfold sqrtLoop
    -- the variant is the guess itself
    refine Loop.run_total (I := Guess x) BitVec.toNat (fun g hg hguard => ?_) hfirst (by omega)
    exact Or.inr ⟨_, rfl, hg.next hx (of_decide_eq_true hguard)⟩
  obtain ⟨r, hr⟩ := hrun
  rcases Loop.run_eq_some hr with ⟨guess, rfl, hheads, hguard⟩ | ⟨guess, e, -, -, -, hbody⟩
  · refine ⟨guess, hr, ?_, not_not.mp (of_decide_eq_false hguard)⟩
    exact SqrtHead.guess hx ⟨_, (mostSignificantBit_eq hx).1, hheads⟩
  · cases hbody

/-- **The square root** of every word is found by a loop that ends, whose first guess is a word,
whose guesses are not zero and whose sums do not wrap. -/
theorem sqrt_exact (x : U256) :
    (∃ s : U256, (∀ fuel, 2 ^ 128 < fuel → sqrt fuel x = some (.ok s)) ∧
      s.toNat * s.toNat ≤ x.toNat ∧ x.toNat < (s.toNat + 1) * (s.toNat + 1)) ∧
    (∀ msb, BitMath.mostSignificantBit x = .ok msb →
      (1#256 <<< (msb / 2 + 1)).toNat = 2 ^ (msb / 2 + 1)) ∧
    ∀ guess, SqrtHead x guess → guess ≠ 0 ∧ guess.toNat + (x / guess).toNat < 2 ^ 256 := by
  by_cases hx : x = 0
  · subst hx
    have herror : ∀ msb, BitMath.mostSignificantBit 0 ≠ .ok msb := by
      intro msb h
      cases h
    refine ⟨⟨0, fun fuel _ => rfl, by decide, by decide⟩, fun msb h => absurd h (herror msb), ?_⟩
    rintro guess ⟨msb, h, -⟩
    exact absurd h (herror msb)
  · have hmsb := (mostSignificantBit_eq hx).1
    refine ⟨?_, ?_, fun guess h => ⟨(h.guess hx).ne_zero, (h.guess hx).sum_lt⟩⟩
    · obtain ⟨s, -, hguess, hge⟩ := @sqrtLoop_total x (2 ^ 128 + 1) hx (by omega)
      obtain ⟨hmin, hroot⟩ := hguess.root hge
      refine ⟨s, fun fuel hfuel => ?_, hroot⟩
      obtain ⟨s', hs', hguess', hge'⟩ := sqrtLoop_total hx hfuel
      obtain ⟨-, hroot'⟩ := hguess'.root hge'
      have hsame : s' = s :=
        BitVec.eq_of_toNat_eq ((Nat.eq_sqrt.mpr hroot').trans (Nat.eq_sqrt.mpr hroot).symm)
      unfold sqrt
      rw [if_neg hx, hmsb]
      simp only [hs', Option.map_some, Except.map, hsame, hmin]
    · intro msb h
      rw [hmsb] at h
      cases h
      exact (guess_first hx).1

end ArbitrageBot.Moe.Uint256x256Math
