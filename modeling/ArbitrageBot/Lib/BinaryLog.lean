import Mathlib.Analysis.SpecialFunctions.Log.Base
import Mathlib.Analysis.Complex.ExponentialBounds

/-!
# Binary logarithms and powers of truncated fixed-point numbers

A fixed-point number with `w` fraction bits is a natural number `y` that stands for `y / 2 ^ w`. Its
products are cut, so that each of them is short of the exact one by less than a unit. The bounds
here are on the logarithms: a unit of a number from `2 ^ w` on is at most `2 / 2 ^ w` of them.
-/

namespace ArbitrageBot.Lib.BinaryLog

/-- The binary logarithm of a natural number. -/
noncomputable def lg (x : Nat) : ℝ := Real.logb 2 x

section Lg

variable {a b c d n N : Nat}

theorem lg_two_pow (n : Nat) : lg (2 ^ n) = n := by
  unfold lg
  rw [Nat.cast_pow, Nat.cast_ofNat, Real.logb_pow, Real.logb_self_eq_one one_lt_two, mul_one]

theorem lg_two : lg 2 = 1 := by
  have h := lg_two_pow 1
  rwa [Nat.pow_one, Nat.cast_one] at h

theorem lg_mul (ha : 0 < a) (hb : 0 < b) : lg (a * b) = lg a + lg b := by
  unfold lg
  rw [Nat.cast_mul, Real.logb_mul (by positivity) (by positivity)]

theorem lg_pow (a n : Nat) : lg (a ^ n) = n * lg a := by
  unfold lg
  rw [Nat.cast_pow, Real.logb_pow]

theorem lg_le_lg (ha : 0 < a) (h : a ≤ b) : lg a ≤ lg b :=
  Real.logb_le_logb_of_le one_lt_two (by exact_mod_cast ha) (by exact_mod_cast h)

theorem lg_lt_lg (ha : 0 < a) (h : a < b) : lg a < lg b :=
  Real.logb_lt_logb one_lt_two (by exact_mod_cast ha) (by exact_mod_cast h)

theorem le_of_lg_le (hb : 0 < b) (h : lg a ≤ lg b) : a ≤ b := by
  by_contra hlt
  exact absurd (lg_lt_lg hb (Nat.lt_of_not_le hlt)) (not_lt.mpr h)

/-- The slope of the logarithm is less than 2 from 1 on. -/
theorem logb_le_mul {x : ℝ} (hx : 1 ≤ x) : Real.logb 2 x ≤ 2 * (x - 1) := by
  have hlog : Real.log x ≤ x - 1 := Real.log_le_sub_one_of_pos (by linarith)
  have htwo : 1 / 2 ≤ Real.log 2 := by linarith [Real.log_two_gt_d9]
  rw [Real.logb, div_le_iff₀ (by linarith)]
  nlinarith

/-- A step of `d` above `b` adds at most `2 d / N` to the logarithm, where `b` is at least `N`. -/
theorem lg_le_add (hN : 0 < N) (hb : N ≤ b) (h : a ≤ b + d) : lg a ≤ lg b + 2 * d / N := by
  have hb0 : (0 : ℝ) < b := by exact_mod_cast Nat.lt_of_lt_of_le hN hb
  rcases Nat.eq_zero_or_pos a with rfl | ha
  · have hzero : lg 0 = 0 := by simp [lg]
    have hone : 0 ≤ lg b := Real.logb_nonneg one_lt_two (by exact_mod_cast hb0)
    rw [hzero]
    positivity
  have hratio : (1 : ℝ) ≤ (b + d) / b := by
    rw [one_le_div hb0]
    linarith [(Nat.cast_nonneg d : (0 : ℝ) ≤ d)]
  have hsum : lg (b + d) = lg b + Real.logb 2 ((b + d) / b) := by
    unfold lg
    rw [← Real.logb_mul hb0.ne' (by positivity)]
    congr 1
    push_cast
    field_simp
  calc lg a ≤ lg (b + d) := lg_le_lg ha h
    _ = lg b + Real.logb 2 ((b + d) / b) := hsum
    _ ≤ lg b + 2 * ((b + d) / b - 1) := by linarith [logb_le_mul hratio]
    _ = lg b + 2 * d / b := by field_simp; ring
    _ ≤ lg b + 2 * d / N := by
      have hcast : (N : ℝ) ≤ b := by exact_mod_cast hb
      gcongr

/-- A step of `d` up to `b` adds at least `d / b` to the logarithm. -/
theorem lg_add_le (ha : 0 < a) (h : a + d ≤ b) : lg a + d / b ≤ lg b := by
  have ha0 : (0 : ℝ) < a := by exact_mod_cast ha
  have hb0 : (0 : ℝ) < b := by exact_mod_cast (by omega : 0 < b)
  have hcast : (a : ℝ) + d ≤ b := by exact_mod_cast h
  have hratio : (1 : ℝ) ≤ b / a := by
    rw [one_le_div ha0]
    linarith [(Nat.cast_nonneg d : (0 : ℝ) ≤ d)]
  have hlog : 1 - (b / a : ℝ)⁻¹ ≤ Real.log (b / a) :=
    Real.one_sub_inv_le_log_of_pos (by positivity)
  have htwo : Real.log 2 ≤ 1 := by linarith [Real.log_two_lt_d9]
  have hbase : Real.log (b / a) ≤ Real.logb 2 (b / a) :=
    le_div_self (Real.log_nonneg hratio) (Real.log_pos one_lt_two) htwo
  have hstep : (d : ℝ) / b ≤ 1 - (b / a : ℝ)⁻¹ := by
    rw [inv_div, div_le_iff₀ hb0, sub_mul, one_mul, div_mul_cancel₀ _ hb0.ne']
    linarith
  have hsum : lg b = lg a + Real.logb 2 (b / a) := by
    unfold lg
    rw [Real.logb_div hb0.ne' ha0.ne']
    ring
  linarith

theorem lg_div_le (hd : 0 < d) (h : 0 < a / d) : lg (a / d) ≤ lg a - lg d := by
  rw [le_sub_iff_add_le, ← lg_mul h hd]
  exact lg_le_lg (Nat.mul_pos h hd) (Nat.div_mul_le_self a d)

theorem le_lg_div (hN : 0 < N) (hd : 0 < d) (h : N ≤ a / d) :
    lg a - lg d - 2 / N ≤ lg (a / d) := by
  have hq : 0 < a / d := Nat.lt_of_lt_of_le hN h
  have hlt : a ≤ (a / d + 1) * d := by
    rw [Nat.mul_comm]
    exact (Nat.lt_mul_div_succ a hd).le
  have hstep := @lg_le_add (a / d + 1) (a / d) 1 N hN h (Nat.le_refl _)
  have ha : 0 < a := Nat.pos_of_ne_zero fun h0 => by simp [h0] at hq
  have hmul := lg_le_lg ha hlt
  rw [lg_mul (Nat.succ_pos _) hd] at hmul
  rw [Nat.cast_one, mul_one] at hstep
  linarith

/-- A product cut at `c` bits. -/
theorem lg_mul_div_le (ha : 0 < a) (hb : 0 < b) (h : 0 < a * b / 2 ^ c) :
    lg (a * b / 2 ^ c) ≤ lg a + lg b - c := by
  have hle := lg_div_le (Nat.two_pow_pos c) h
  rw [lg_mul ha hb, lg_two_pow] at hle
  exact hle

theorem le_lg_mul_div (hN : 0 < N) (ha : 0 < a) (hb : 0 < b) (h : N ≤ a * b / 2 ^ c) :
    lg a + lg b - c - 2 / N ≤ lg (a * b / 2 ^ c) := by
  have hle := le_lg_div hN (Nat.two_pow_pos c) h
  rw [lg_mul ha hb, lg_two_pow] at hle
  exact hle

end Lg

/-! ## The logarithm, bit by bit -/

/-- The first `k` fraction bits of the logarithm of `y / 2 ^ w`, which is in `[1, 2)`: a square from
2 on has the next bit, and is halved. -/
def fracBits (w : Nat) : Nat → Nat → Nat
  | 0, _ => 0
  | k + 1, y =>
    if 2 ^ (w + 1) ≤ y * y / 2 ^ w then 2 ^ k + fracBits w k (y * y / 2 ^ w / 2)
    else fracBits w k (y * y / 2 ^ w)

section FracBits

variable {w k y : Nat}

theorem fracBits_lt (w k y : Nat) : fracBits w k y < 2 ^ k := by
  induction k generalizing y with
  | zero => exact Nat.one_pos
  | succ k ih =>
    have hnext := fun y => @ih y
    unfold fracBits
    rw [Nat.pow_succ]
    split
    · have := hnext (y * y / 2 ^ w / 2)
      omega
    · have := hnext (y * y / 2 ^ w)
      omega

/-- The square of a number in `[1, 2)` is in `[1, 4)`. -/
theorem square_range (hlo : 2 ^ w ≤ y) (hhi : y < 2 ^ (w + 1)) :
    2 ^ w ≤ y * y / 2 ^ w ∧ y * y / 2 ^ w < 2 ^ (w + 2) := by
  have hpos := Nat.two_pow_pos w
  constructor
  · rw [Nat.le_div_iff_mul_le hpos]
    exact Nat.mul_le_mul hlo hlo
  · rw [Nat.div_lt_iff_lt_mul hpos]
    calc y * y < 2 ^ (w + 1) * 2 ^ (w + 1) := Nat.mul_lt_mul'' hhi hhi
      _ = 2 ^ (w + 2) * 2 ^ w := by ring

/-- 1 has the logarithm 0. -/
theorem fracBits_one (w k : Nat) : fracBits w k (2 ^ w) = 0 := by
  induction k with
  | zero => rfl
  | succ k ih =>
    have hlt : ¬ 2 ^ (w + 1) ≤ 2 ^ w := by
      rw [Nat.pow_succ]
      have := Nat.two_pow_pos w
      omega
    rw [fracBits, Nat.mul_div_cancel _ (Nat.two_pow_pos w), if_neg hlt]
    exact ih

/-- The number that the next bit is taken from has twice the logarithm, without the bit. -/
theorem fracBits_step (hlo : 2 ^ w ≤ y) (hhi : y < 2 ^ (w + 1)) :
    ∃ y' bit : Nat, 2 ^ w ≤ y' ∧ y' < 2 ^ (w + 1) ∧
      (∀ k, fracBits w (k + 1) y = bit * 2 ^ k + fracBits w k y') ∧
      lg y' - w ≤ 2 * (lg y - w) - bit ∧ 2 * (lg y - w) - bit - 2 / 2 ^ w ≤ lg y' - w := by
  have hpos := Nat.two_pow_pos w
  have hy := Nat.lt_of_lt_of_le hpos hlo
  obtain ⟨hslo, hshi⟩ := square_range hlo hhi
  have hcast : ((2 ^ w : Nat) : ℝ) = 2 ^ w := by norm_cast
  by_cases hbit : 2 ^ (w + 1) ≤ y * y / 2 ^ w
  · -- the square is from 2 on: both cuts are one
    have hhalf : y * y / 2 ^ w / 2 = y * y / 2 ^ (w + 1) := by
      rw [Nat.div_div_eq_div_mul, Nat.pow_succ]
    have hqlo : 2 ^ w ≤ y * y / 2 ^ w / 2 := by
      rw [Nat.le_div_iff_mul_le two_pos, ← Nat.pow_succ]
      exact hbit
    have hqhi : y * y / 2 ^ w / 2 < 2 ^ (w + 1) := by
      rw [Nat.div_lt_iff_lt_mul two_pos, ← Nat.pow_succ]
      exact hshi
    have hup := @lg_mul_div_le y y (w + 1) hy hy (Nat.lt_of_lt_of_le hpos (hhalf ▸ hqlo))
    have hlow := @le_lg_mul_div y y (w + 1) _ hpos hy hy (hhalf ▸ hqlo)
    rw [← hhalf] at hup hlow
    rw [hcast] at hlow
    refine ⟨_, 1, hqlo, hqhi, fun k => ?_, ?_, ?_⟩
    · rw [fracBits, if_pos hbit, Nat.one_mul]
    · push_cast at hup ⊢
      linarith
    · push_cast at hlow ⊢
      linarith
  · have hup := lg_mul_div_le hy hy (Nat.lt_of_lt_of_le hpos hslo)
    have hlow := le_lg_mul_div hpos hy hy hslo
    rw [hcast] at hlow
    refine ⟨_, 0, hslo, Nat.lt_of_not_le hbit, fun k => ?_, ?_, ?_⟩
    · rw [fracBits, if_neg hbit, Nat.zero_mul, Nat.zero_add]
    · rw [Nat.cast_zero]
      linarith
    · rw [Nat.cast_zero]
      linarith

/-- **The bits are those of the logarithm**, up to the last one and two units of the numbers. -/
theorem fracBits_bounds (hlo : 2 ^ w ≤ y) (hhi : y < 2 ^ (w + 1)) :
    (fracBits w k y : ℝ) ≤ 2 ^ k * (lg y - w) ∧
      2 ^ k * (lg y - w) ≤ fracBits w k y + 1 + 2 ^ k * (2 / 2 ^ w) := by
  induction k generalizing y with
  | zero =>
    have hpos := Nat.two_pow_pos w
    have hlow := lg_le_lg hpos hlo
    have hhigh := lg_le_lg (Nat.lt_of_lt_of_le hpos hlo) hhi.le
    rw [lg_two_pow] at hlow hhigh
    push_cast at hhigh
    have hunit : (0 : ℝ) ≤ 2 / 2 ^ w := by positivity
    simp only [fracBits, Nat.cast_zero, pow_zero, one_mul, zero_add]
    constructor
    · linarith
    · linarith
  | succ k ih =>
    obtain ⟨y', bit, hlo', hhi', hbits, hup, hlow⟩ := fracBits_step hlo hhi
    obtain ⟨h1, h2⟩ := ih hlo' hhi'
    have htwo : (0 : ℝ) ≤ 2 ^ k := by positivity
    have hup' := mul_le_mul_of_nonneg_left hup htwo
    have hlow' := mul_le_mul_of_nonneg_left hlow htwo
    rw [hbits, pow_succ]
    push_cast
    constructor
    · linarith
    · linarith

end FracBits

/-! ## The power, square by square -/

/-- The power of `squared / 2 ^ s` by its squares, multiplied to `result / 2 ^ s`. -/
def truncPow (s : Nat) : Nat → Nat → Nat → Nat → Nat
  | 0, _, result, _ => result
  | rounds + 1, power, result, squared =>
    if power = 0 then result
    else truncPow s rounds (power / 2)
      (if power % 2 = 1 then result * squared / 2 ^ s else result) (squared * squared / 2 ^ s)

section TruncPow

variable {s rounds power result squared N : Nat}

/-- A power that is not zero has no factor that is. -/
theorem pos_of_truncPow_pos (h : 0 < truncPow s rounds power result squared)
    (hrounds : power < 2 ^ rounds) : 0 < result ∧ (power ≠ 0 → 0 < squared) := by
  induction rounds generalizing power result squared with
  | zero =>
    rw [Nat.pow_zero] at hrounds
    exact ⟨h, fun hne => absurd (Nat.lt_one_iff.mp hrounds) hne⟩
  | succ rounds ih =>
    unfold truncPow at h
    split at h
    · exact ⟨h, fun hne => absurd ‹power = 0› hne⟩
    rename_i hpower
    rw [Nat.pow_succ] at hrounds
    obtain ⟨hres, hsq⟩ := ih h (by omega)
    by_cases hodd : power % 2 = 1
    · rw [if_pos hodd] at hres
      have hprod := Nat.pos_of_ne_zero fun h0 : result * squared = 0 => by simp [h0] at hres
      exact ⟨Nat.pos_of_mul_pos_right hprod, fun _ => Nat.pos_of_mul_pos_left hprod⟩
    · rw [if_neg hodd] at hres
      refine ⟨hres, fun _ => ?_⟩
      have hsquare := hsq (by omega)
      exact Nat.pos_of_ne_zero fun h0 => by simp [h0] at hsquare

/-- **The power is not above the exact one.** -/
theorem lg_truncPow_le (h : 0 < truncPow s rounds power result squared)
    (hrounds : power < 2 ^ rounds) :
    lg (truncPow s rounds power result squared) ≤ lg result + power * (lg squared - s) := by
  induction rounds generalizing power result squared with
  | zero =>
    rw [Nat.pow_zero] at hrounds
    rw [Nat.lt_one_iff.mp hrounds, Nat.cast_zero, zero_mul, add_zero]
    exact le_rfl
  | succ rounds ih =>
    obtain ⟨hres, hsq⟩ := pos_of_truncPow_pos h hrounds
    unfold truncPow at h ⊢
    split
    · rw [‹power = 0›, Nat.cast_zero, zero_mul, add_zero]
    rename_i hpower
    rw [if_neg hpower] at h
    rw [Nat.pow_succ] at hrounds
    have hhalf : power / 2 < 2 ^ rounds := by omega
    obtain ⟨hres', hsq'⟩ := pos_of_truncPow_pos h hhalf
    have hsquared := hsq hpower
    have hnext : (power / 2 : Nat) * (lg (squared * squared / 2 ^ s) - s) ≤
        (power / 2 : Nat) * (2 * (lg squared - s)) := by
      rcases Nat.eq_zero_or_pos (power / 2) with h0 | hpos
      · rw [h0, Nat.cast_zero, zero_mul, zero_mul]
      have hle := lg_mul_div_le hsquared hsquared (hsq' (by omega))
      exact mul_le_mul_of_nonneg_left (by linarith) (Nat.cast_nonneg _)
    refine (ih h hhalf).trans ?_
    by_cases hodd : power % 2 = 1
    · have hsplit : (power : ℝ) = 2 * (power / 2 : Nat) + 1 := by
        exact_mod_cast (by omega : power = 2 * (power / 2) + 1)
      rw [if_pos hodd] at hres' ⊢
      have hle := lg_mul_div_le hres hsquared hres'
      rw [hsplit]
      linarith
    · have hsplit : (power : ℝ) = 2 * (power / 2 : Nat) := by
        exact_mod_cast (by omega : power = 2 * (power / 2))
      rw [if_neg hodd, hsplit]
      linarith

/-- A product that is left from `N` on loses a unit. -/
theorem le_lg_cut {x y : Nat} (hN : 0 < N) (hx : 0 < x) (hy : 0 < y)
    (h : lg N ≤ lg x + lg y - s) :
    N ≤ x * y / 2 ^ s ∧ lg x + (lg y - s) - 2 / N ≤ lg (x * y / 2 ^ s) := by
  have hge : N ≤ x * y / 2 ^ s := by
    rw [Nat.le_div_iff_mul_le (Nat.two_pow_pos s)]
    refine le_of_lg_le (Nat.mul_pos hx hy) ?_
    rw [lg_mul hN (Nat.two_pow_pos s), lg_two_pow, lg_mul hx hy]
    linarith
  have hstep := le_lg_mul_div hN hx hy hge
  exact ⟨hge, by linarith⟩

/-- **The halved power of the square** is short of the power by a unit for each factor, where what
is left is from `N` on. -/
theorem half_mul_le_lg_square (hN : 0 < N) (hres : lg result ≤ s) (hsquared : 0 < squared)
    (hle : lg squared - s ≤ 0)
    (h : lg N ≤ lg result + power * (lg squared - s) - 2 * power * (2 / N)) :
    (power / 2 ≠ 0 → 0 < squared * squared / 2 ^ s) ∧
      (power / 2 : Nat) * (2 * (lg squared - s) - 2 / N) ≤
        (power / 2 : Nat) * (lg (squared * squared / 2 ^ s) - s) := by
  rcases Nat.eq_zero_or_pos (power / 2) with h0 | hpos
  · rw [h0, Nat.cast_zero, zero_mul, zero_mul]
    exact ⟨fun hne => absurd rfl hne, le_rfl⟩
  have htwo : (2 : ℝ) ≤ power := by exact_mod_cast (by omega : 2 ≤ power)
  have hpow : power * (lg squared - s) ≤ 2 * (lg squared - s) := by nlinarith
  have hloss : 0 ≤ 2 * power * (2 / N : ℝ) := by positivity
  have hroom : lg N ≤ lg squared + lg squared - s := by linarith
  obtain ⟨hge, hlow⟩ := le_lg_cut hN hsquared hsquared hroom
  exact ⟨fun _ => Nat.lt_of_lt_of_le hN hge,
    mul_le_mul_of_nonneg_left (by linarith) (Nat.cast_nonneg _)⟩

/-- **The power is short of the exact one by two units for each factor**, where what is left is from
`N` on. -/
theorem le_lg_truncPow (hN : 0 < N) (hres : 0 < result) (hone : result ≤ 2 ^ s)
    (hsq : power ≠ 0 → 0 < squared) (hle : squared ≤ 2 ^ s) (hrounds : power < 2 ^ rounds)
    (h : lg N ≤ lg result + power * (lg squared - s) - 2 * power * (2 / N)) :
    lg result + power * (lg squared - s) - 2 * power * (2 / N) ≤
      lg (truncPow s rounds power result squared) := by
  induction rounds generalizing power result squared with
  | zero =>
    rw [Nat.pow_zero] at hrounds
    rw [Nat.lt_one_iff.mp hrounds, truncPow]
    simp
  | succ rounds ih =>
    unfold truncPow
    split
    · rw [‹power = 0›]
      simp
    rename_i hpower
    have hsquared := hsq hpower
    have hunit : (0 : ℝ) ≤ 2 / N := by positivity
    have hres0 : lg result ≤ s := by
      rw [← lg_two_pow s]
      exact lg_le_lg hres hone
    have hsq0 : lg squared - s ≤ 0 := by
      rw [sub_nonpos, ← lg_two_pow s]
      exact lg_le_lg hsquared hle
    have hcut : ∀ x y, x ≤ 2 ^ s → y ≤ 2 ^ s → x * y / 2 ^ s ≤ 2 ^ s := fun x y hx hy =>
      Nat.div_le_of_le_mul (Nat.mul_le_mul hx hy)
    rw [Nat.pow_succ] at hrounds
    have hhalf : power / 2 < 2 ^ rounds := by omega
    have hnonneg : (0 : ℝ) ≤ (power / 2 : Nat) := Nat.cast_nonneg _
    have hnext := half_mul_le_lg_square hN hres0 hsquared hsq0 h
    by_cases hodd : power % 2 = 1
    · have hsplit : (power : ℝ) = 2 * (power / 2 : Nat) + 1 := by
        exact_mod_cast (by omega : power = 2 * (power / 2) + 1)
      have hpow : (power / 2 : Nat) * (lg squared - s) ≤ 0 :=
        mul_nonpos_of_nonneg_of_nonpos hnonneg hsq0
      have hloss : 0 ≤ (power / 2 : Nat) * (2 / N : ℝ) := mul_nonneg hnonneg hunit
      rw [if_pos hodd]
      rw [hsplit] at h ⊢
      have hroom : lg N ≤ lg result + lg squared - s := by linarith
      obtain ⟨hge, hlow⟩ := le_lg_cut hN hres hsquared hroom
      refine le_trans ?_ (ih (Nat.lt_of_lt_of_le hN hge) (hcut _ _ hone hle) hnext.1
        (hcut _ _ hle hle) hhalf ?_)
      · linarith [hnext.2]
      · linarith [hnext.2]
    · have hsplit : (power : ℝ) = 2 * (power / 2 : Nat) := by
        exact_mod_cast (by omega : power = 2 * (power / 2))
      have hloss : 0 ≤ (power / 2 : Nat) * (2 / N : ℝ) := mul_nonneg hnonneg hunit
      rw [if_neg hodd]
      rw [hsplit] at h ⊢
      refine le_trans ?_ (ih hres hone hnext.1 (hcut _ _ hle hle) hhalf ?_)
      · linarith [hnext.2]
      · linarith [hnext.2]

end TruncPow

end ArbitrageBot.Lib.BinaryLog
