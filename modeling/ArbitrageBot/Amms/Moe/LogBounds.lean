import ArbitrageBot.Amms.Moe.Logarithm

/-!
# The logarithms of powers

How far the words of `log2` and `pow` are from the real numbers they stand for: the price `k` bins
from the middle has `k` times the logarithm of the base, but for some units, and it is below the
root of two, or above it, by more than these.
-/

namespace ArbitrageBot

open Lib BinaryLog

/-! ## How far the words are from the numbers -/

namespace Logarithm

/-- What a cut takes from the logarithm of a number from `2 ^ 127` on, at most. -/
noncomputable def unit : ℝ := ((2 : Nat) : ℝ) / ((2 ^ 127 : Nat) : ℝ)

variable {a b d w x : Nat}

theorem unit_eq : unit = 2 / 2 ^ 127 := by
  unfold unit
  rw [Nat.cast_pow, Nat.cast_ofNat]

theorem unit_pos : 0 < unit := by
  rw [unit_eq]
  positivity

theorem unit_le : unit ≤ 1 / 2 ^ 100 := by
  rw [unit_eq]
  norm_num

theorem mul_unit : 2 ^ 127 * unit = 2 := by
  rw [unit_eq]
  norm_num

theorem le_lg_div_unit (hd : 0 < d) (h : 2 ^ 127 ≤ a / d) : lg a - lg d - unit ≤ lg (a / d) := by
  have hle := le_lg_div (Nat.two_pow_pos 127) hd h
  rw [Nat.cast_pow, Nat.cast_ofNat] at hle
  rw [unit_eq]
  exact hle

/-- The largest word is `2 ^ 256` but for a unit. -/
theorem lg_max : 256 - unit ≤ lg (2 ^ 256 - 1) ∧ lg (2 ^ 256 - 1) ≤ 256 := by
  have hpow : lg (2 ^ 256) = 256 := by
    rw [lg_two_pow]
    norm_num
  have hle := @lg_le_add (2 ^ 256) (2 ^ 256 - 1) 1 (2 ^ 127) (by norm_num) (by norm_num)
    (by norm_num)
  have hge := @lg_le_lg (2 ^ 256 - 1) (2 ^ 256) (by norm_num) (Nat.sub_le _ _)
  rw [hpow, Nat.cast_one, mul_one, Nat.cast_pow, Nat.cast_ofNat] at hle
  rw [hpow] at hge
  rw [unit_eq]
  constructor
  · linarith
  · exact hge

/-! ### The logarithm -/

theorem whole_of_lt (h2 : 2 ≤ x) (hx : x < 2 ^ 256) (h : aboveOne x < 2 ^ 128) : whole x = 0 := by
  obtain ⟨hlo, -⟩ := aboveOne_range h2 hx
  have hone : aboveOne x / 2 ^ 127 = 1 := by omega
  rw [whole, hone]
  rfl

/-- Without a whole part, the magnitude is the logarithm but for three units. -/
theorem magnitude_bounds (h2 : 2 ≤ x) (hx : x < 2 ^ 256) (h : aboveOne x < 2 ^ 128) :
    (magnitude x : ℝ) ≤ 2 ^ 127 * (lg (aboveOne x) - 127) ∧
      2 ^ 127 * (lg (aboveOne x) - 127) ≤ magnitude x + 3 := by
  obtain ⟨hlo, -⟩ := aboveOne_range h2 hx
  have hmag : magnitude x = fracBits 127 127 (aboveOne x) := by
    rw [magnitude, mantissa, whole_of_lt h2 hx h, Nat.zero_mul, Nat.zero_add, Nat.pow_zero,
      Nat.div_one]
  obtain ⟨h1, h2⟩ := @fracBits_bounds 127 127 (aboveOne x) hlo h
  have hunit := mul_unit
  rw [unit_eq] at hunit
  rw [hmag]
  rw [hunit] at h2
  constructor
  · exact_mod_cast h1
  · push_cast at h2
    linarith

/-- A logarithm above a half does not fit. -/
theorem magnitude_gt (h2 : 2 ≤ x) (hx : x < 2 ^ 256)
    (h : 127 + 1 / 2 + 1 / 2 ^ 100 ≤ lg (aboveOne x)) : 2 ^ 126 < magnitude x := by
  by_cases hlt : aboveOne x < 2 ^ 128
  · obtain ⟨-, hle⟩ := magnitude_bounds h2 hx hlt
    have hreal : (2 ^ 126 : ℝ) < magnitude x := by linarith
    exact_mod_cast hreal
  · have hne : whole x ≠ 0 := by
      intro h0
      have hlog : aboveOne x / 2 ^ 127 < 2 ^ (whole x + 1) := Nat.lt_log2_self
      rw [h0] at hlog
      omega
    by_contra hle
    exact hne (whole_eq_zero (by omega))

/-! ### The price of a power -/

/-- A power below 1 and its inverse have the logarithm of the power, but for two units. -/
theorem lg_aboveOne (h2 : 2 ≤ w) (hw : w < 2 ^ 128) (hx : x = w ∨ x = (2 ^ 256 - 1) / w) :
    255 - lg w - 2 * unit ≤ lg (aboveOne x) ∧
      (2 ^ 127 ≤ w → lg (aboveOne x) ≤ 255 - lg w + 2 * unit) := by
  have hunit := unit_pos
  rcases hx with rfl | rfl
  · obtain ⟨hlo, -⟩ := aboveOne_range h2 (by omega : x < 2 ^ 256)
    have hne : ¬ 2 ^ 127 ≤ x / 2 := by omega
    have hpos : 0 < x / 2 := by omega
    have hpow : lg (2 ^ 254) = 254 := by
      rw [lg_two_pow]
      norm_num
    have hval : aboveOne x = 2 ^ 254 / (x / 2) := if_neg hne
    rw [hval] at hlo ⊢
    constructor
    · have h1 := le_lg_div_unit hpos hlo
      have h2 := lg_div_le two_pos hpos
      rw [hpow] at h1
      rw [lg_two] at h2
      generalize lg (2 ^ 254 / (x / 2)) = L at h1 ⊢
      linarith
    · intro hge
      have h1 := lg_div_le hpos (Nat.lt_of_lt_of_le (Nat.two_pow_pos 127) hlo)
      have h2 := @le_lg_div x 2 (2 ^ 126) (by norm_num) two_pos (by omega)
      have hloss : (2 : ℝ) / (2 ^ 126 : Nat) = 2 * unit := by
        rw [unit_eq]
        norm_num
      rw [hpow] at h1
      rw [lg_two, hloss] at h2
      generalize lg (2 ^ 254 / (x / 2)) = L at h1 ⊢
      linarith
  · have hpos : 0 < w := by omega
    have hge : 2 ^ 128 ≤ (2 ^ 256 - 1) / w := by
      rw [Nat.le_div_iff_mul_le hpos]
      omega
    have hval : aboveOne ((2 ^ 256 - 1) / w) = (2 ^ 256 - 1) / (w * 2) := by
      rw [← Nat.div_div_eq_div_mul]
      exact if_pos (by omega)
    have hlo : 2 ^ 127 ≤ (2 ^ 256 - 1) / (w * 2) := by
      rw [← Nat.div_div_eq_div_mul]
      omega
    have htwo : lg (w * 2) = lg w + 1 := by rw [lg_mul hpos two_pos, lg_two]
    obtain ⟨hmax, hmax'⟩ := lg_max
    have h1 := le_lg_div_unit (by omega : 0 < w * 2) hlo
    have h2 := lg_div_le (by omega : 0 < w * 2) (Nat.lt_of_lt_of_le (Nat.two_pow_pos 127) hlo)
    rw [hval]
    rw [htwo] at h1 h2
    generalize lg (2 ^ 256 - 1) = M at hmax hmax' h1 h2
    generalize lg ((2 ^ 256 - 1) / (w * 2)) = L at h1 h2 ⊢
    constructor
    · linarith
    · intro _
      linarith

/-! ### The bins up to a factor of the root of two -/

/-- The price `k` bins from the middle is less than a factor of the root of two from 1. -/
def BelowRootTwo (b k : Nat) : Prop := (10000 + b) ^ (2 * k) < 2 * 10000 ^ (2 * k)

/-- The logarithm of the step between two bins. -/
noncomputable def growth (b : Nat) : ℝ := lg (10000 + b) - lg 10000

theorem belowRootTwo_iff {b k : Nat} : BelowRootTwo b k ↔ 2 * k * growth b < 1 := by
  have hleft : lg ((10000 + b) ^ (2 * k)) = 2 * k * lg (10000 + b) := by
    rw [lg_pow]
    push_cast
    ring
  have hright : lg (2 * 10000 ^ (2 * k)) = 1 + 2 * k * lg 10000 := by
    rw [lg_mul two_pos (by positivity), lg_pow, lg_two]
    push_cast
    ring
  have hiff : BelowRootTwo b k ↔ lg ((10000 + b) ^ (2 * k)) < lg (2 * 10000 ^ (2 * k)) :=
    ⟨fun h => lg_lt_lg (by positivity) h,
      fun h => Nat.lt_of_not_le fun hle => absurd (lg_le_lg (by positivity) hle) (not_le.mpr h)⟩
  rw [hiff, hleft, hright, growth, mul_sub, sub_lt_iff_lt_add]

/-- The last bin below the root of two, from the series of its logarithm. -/
def reach (b : Nat) : Nat := (34657359028 + 1732868 * b - 29 * b * b) / (10000000 * b)

/-- The price of the last bin is clearly below the root of two, that of the next clearly above. -/
theorem reach_spec : ∀ b ∈ List.range' 1 200, reach b < 3500 ∧
    (10000 + b) ^ (2 * reach b) * 2 ^ 20 ≤ 2 * 10000 ^ (2 * reach b) * (2 ^ 20 - 1) ∧
      2 * 10000 ^ (2 * (reach b + 1)) * (2 ^ 20 + 1) ≤
        (10000 + b) ^ (2 * (reach b + 1)) * 2 ^ 20 := by
  decide +kernel

/-- What the last bin and the next are apart from the root of two, in logarithms. -/
theorem reach_margin {b : Nat} (hb1 : 1 ≤ b) (hb : b ≤ 200) : reach b < 3500 ∧
    2 * reach b * growth b ≤ 1 - 1 / 2 ^ 20 ∧
      1 + 1 / 2 ^ 21 ≤ 2 * ((reach b + 1 : Nat) : ℝ) * growth b := by
  obtain ⟨hlt, hbelow, habove⟩ := reach_spec b (List.mem_range'_1.mpr ⟨hb1, by omega⟩)
  have htwenty : lg (2 ^ 20) = 20 := by
    rw [lg_two_pow]
    norm_num
  have hless := @lg_add_le (2 ^ 20 - 1) (2 ^ 20) 1 (by norm_num) (by norm_num)
  have hmore := @lg_add_le (2 ^ 20) (2 ^ 20 + 1) 1 (by norm_num) (by norm_num)
  have hlow := lg_le_lg (by positivity) hbelow
  have hhigh := lg_le_lg (by positivity) habove
  rw [lg_mul (by positivity) (by positivity), lg_mul (by positivity) (by norm_num),
    lg_mul (by positivity) (by positivity), htwenty, lg_pow, lg_pow, lg_two] at hlow hhigh
  rw [htwenty] at hless hmore
  refine ⟨hlt, ?_, ?_⟩
  · generalize lg (2 ^ 20 - 1) = L at hless hlow
    unfold growth
    push_cast at hless hlow ⊢
    norm_num at hless
    linarith
  · generalize lg (2 ^ 20 + 1) = L at hmore hhigh
    unfold growth
    push_cast at hmore hhigh ⊢
    norm_num at hmore
    linarith

theorem growth_pos {b : Nat} (hb1 : 1 ≤ b) : 0 < growth b :=
  sub_pos.mpr (lg_lt_lg (by norm_num) (by omega))

/-- The prices are clearly below the root of two, or clearly above. -/
theorem margin {b k : Nat} (hb1 : 1 ≤ b) (hb : b ≤ 200) :
    (BelowRootTwo b k → k < 3500 ∧ k * growth b ≤ 1 / 2 - 1 / 2 ^ 21) ∧
      (¬ BelowRootTwo b k → 1 / 2 + 1 / 2 ^ 22 ≤ ((reach b + 1 : Nat) : ℝ) * growth b ∧
        reach b + 1 ≤ k) := by
  obtain ⟨hlt, hbelow, habove⟩ := reach_margin hb1 hb
  have hpos := growth_pos hb1
  rw [belowRootTwo_iff]
  constructor
  · intro h
    have hle : k ≤ reach b := by
      by_contra hgt
      have hcast : ((reach b + 1 : Nat) : ℝ) ≤ k := by exact_mod_cast (by omega : reach b + 1 ≤ k)
      have hmul := mul_le_mul_of_nonneg_right hcast hpos.le
      have hpow : (0 : ℝ) < 1 / 2 ^ 21 := by positivity
      linarith
    have hcast : (k : ℝ) ≤ reach b := by exact_mod_cast hle
    have hmul := mul_le_mul_of_nonneg_right hcast hpos.le
    exact ⟨by omega, by linarith⟩
  · intro h
    have hle : reach b + 1 ≤ k := by
      by_contra hgt
      have hcast : (k : ℝ) ≤ reach b := by exact_mod_cast (by omega : k ≤ reach b)
      have hmul := mul_le_mul_of_nonneg_right hcast hpos.le
      have hpow : (0 : ℝ) < 1 / 2 ^ 20 := by positivity
      linarith
    exact ⟨by linarith, hle⟩

/-- The steps are not too small: a logarithm has room for the units lost in 3500 of them. -/
theorem growth_ge {b : Nat} (hb1 : 1 ≤ b) (hb : b ≤ 200) : 1 / 7000 ≤ growth b := by
  obtain ⟨hlt, -, habove⟩ := reach_margin hb1 hb
  have hpos := growth_pos hb1
  have hcast : ((reach b + 1 : Nat) : ℝ) ≤ 3500 := by exact_mod_cast hlt
  have hmul := mul_le_mul_of_nonneg_right hcast hpos.le
  have hpow : (0 : ℝ) < 1 / 2 ^ 21 := by positivity
  linarith

/-! ### The base and its powers -/

/-- The base of the prices, in 128 fraction bits. -/
def base (b : Nat) : Nat := 2 ^ 128 + b * 2 ^ 128 / 10000

variable {k : Nat}

theorem lg_base (b : Nat) :
    growth b - unit ≤ lg (base b) - 128 ∧ lg (base b) - 128 ≤ growth b := by
  have heq : base b = (10000 + b) * 2 ^ 128 / 10000 := by
    unfold base
    omega
  have hge : 2 ^ 127 ≤ (10000 + b) * 2 ^ 128 / 10000 := by omega
  have hlow := le_lg_div_unit (by norm_num : 0 < 10000) hge
  have hhigh := lg_div_le (by norm_num : 0 < 10000)
    (Nat.lt_of_lt_of_le (Nat.two_pow_pos 127) hge)
  rw [lg_mul (by omega) (Nat.two_pow_pos 128), lg_two_pow, ← heq] at hlow hhigh
  unfold growth
  push_cast at hlow hhigh
  constructor
  · linarith
  · linarith

/-- The inverse of the base, which the powers are of. -/
theorem lg_inverse (hb : b ≤ 200) : 2 ^ 127 ≤ (2 ^ 256 - 1) / base b ∧
    (2 ^ 256 - 1) / base b ≤ 2 ^ 128 ∧
      128 - growth b - 2 * unit ≤ lg ((2 ^ 256 - 1) / base b) ∧
        lg ((2 ^ 256 - 1) / base b) ≤ 128 - growth b + unit := by
  have hlt : base b ≤ 2 ^ 129 - 1 := by
    unfold base
    omega
  have hge : 2 ^ 128 ≤ base b := Nat.le_add_right _ _
  have hpos : 0 < base b := by omega
  have hlo : 2 ^ 127 ≤ (2 ^ 256 - 1) / base b := by
    rw [Nat.le_div_iff_mul_le hpos]
    omega
  have hhi : (2 ^ 256 - 1) / base b ≤ 2 ^ 128 :=
    Nat.le_trans (Nat.div_le_div_left hge (Nat.two_pow_pos 128)) (by norm_num)
  obtain ⟨hbase, hbase'⟩ := lg_base b
  obtain ⟨hmax, hmax'⟩ := lg_max
  have hlow := le_lg_div_unit hpos hlo
  have hhigh := lg_div_le hpos (Nat.lt_of_lt_of_le (Nat.two_pow_pos 127) hlo)
  refine ⟨hlo, hhi, ?_, ?_⟩
  · generalize lg ((2 ^ 256 - 1) / base b) = L at hlow ⊢
    generalize lg (2 ^ 256 - 1) = M at hmax hlow
    linarith
  · generalize lg ((2 ^ 256 - 1) / base b) = L at hhigh ⊢
    generalize lg (2 ^ 256 - 1) = M at hmax' hhigh
    linarith

/-- The power of the inverse that `pow` computes. -/
def powered (b k : Nat) : Nat := truncPow 128 128 k (2 ^ 128) ((2 ^ 256 - 1) / base b)

theorem lg_powered_le (hb : b ≤ 200) (hk : k < 2 ^ 128) (hpos : 0 < powered b k) :
    lg (powered b k) ≤ 128 - k * (growth b - unit) := by
  obtain ⟨-, -, -, hle⟩ := lg_inverse hb
  have hpow := lg_truncPow_le hpos hk
  have hnonneg : (0 : ℝ) ≤ k := Nat.cast_nonneg k
  unfold powered
  rw [lg_two_pow] at hpow
  push_cast at hpow
  generalize lg ((2 ^ 256 - 1) / base b) = L at hle hpow
  generalize lg (truncPow 128 128 k (2 ^ 128) ((2 ^ 256 - 1) / base b)) = P at hpow ⊢
  nlinarith

theorem le_lg_powered (hb : b ≤ 200) (hk : k < 2 ^ 128)
    (h : k * (growth b + 4 * unit) ≤ 1) : 128 - k * (growth b + 4 * unit) ≤ lg (powered b k) := by
  obtain ⟨hlo, hhi, hge, -⟩ := lg_inverse hb
  have hnonneg : (0 : ℝ) ≤ k := Nat.cast_nonneg k
  have hinv : k * (128 - growth b - 2 * unit - 128) ≤
      k * (lg ((2 ^ 256 - 1) / base b) - 128) :=
    mul_le_mul_of_nonneg_left (by linarith) hnonneg
  have hpow := @le_lg_truncPow 128 128 k (2 ^ 128) ((2 ^ 256 - 1) / base b) (2 ^ 127)
    (Nat.two_pow_pos 127) (Nat.two_pow_pos 128) le_rfl
    (fun _ => Nat.lt_of_lt_of_le (Nat.two_pow_pos 127) hlo) hhi hk
  have hunit : (2 : ℝ) / (2 ^ 127 : Nat) = unit := by
    rw [unit_eq]
    norm_num
  rw [hunit, lg_two_pow, lg_two_pow] at hpow
  unfold powered
  push_cast at hpow
  generalize lg ((2 ^ 256 - 1) / base b) = L at hinv hpow
  generalize lg (truncPow 128 128 k (2 ^ 128) ((2 ^ 256 - 1) / base b)) = P at hpow ⊢
  have hbound := hpow (by linarith)
  linarith

/-! ### The logarithms of the base and of a price -/

/-- The logarithm of the base fits. -/
theorem magnitude_base (hb1 : 1 ≤ b) (hb : b ≤ 200) : magnitude (base b) < 2 ^ 126 ∧
    2 ^ 127 * growth b - 7 ≤ magnitude (base b) ∧
      (magnitude (base b) : ℝ) ≤ 2 ^ 127 * growth b := by
  have hlt : base b < 2 ^ 129 := by
    unfold base
    omega
  have hge : 2 ^ 128 ≤ base b := Nat.le_add_right _ _
  have hval : aboveOne (base b) = base b / 2 := if_pos (by omega)
  have hhalf : 2 ^ 127 ≤ base b / 2 := by omega
  obtain ⟨hbase, hbase'⟩ := lg_base b
  have hlow := le_lg_div_unit two_pos hhalf
  have hhigh := lg_div_le two_pos (Nat.lt_of_lt_of_le (Nat.two_pow_pos 127) hhalf)
  obtain ⟨hmag, hmag'⟩ := @magnitude_bounds (base b) (by omega) (by omega) (by omega)
  have hsmall := ((@margin b 1 hb1 hb).1 <|
    Nat.lt_of_le_of_lt (Nat.pow_le_pow_left (by omega : 10000 + b ≤ 10200) 2) (by norm_num)).2
  have hunit := mul_unit
  rw [lg_two] at hlow hhigh
  rw [hval] at hmag hmag'
  have hcast : (magnitude (base b) : ℝ) < 2 ^ 126 := by
    have hgrow : growth b ≤ 1 / 2 - 1 / 2 ^ 21 := by simpa using hsmall
    linarith
  refine ⟨by exact_mod_cast hcast, ?_, ?_⟩
  · linarith
  · linarith

variable (hb1 : 1 ≤ b) (hb : b ≤ 200) (h2 : 2 ≤ powered b k) (hlt : powered b k < 2 ^ 128)
  (hx2 : 2 ≤ x) (hx : x = powered b k ∨ x = (2 ^ 256 - 1) / powered b k)

include h2 hlt hx in
theorem word_of_powered : x < 2 ^ 256 := by
  rcases hx with rfl | rfl
  · omega
  · exact Nat.lt_of_le_of_lt (Nat.div_le_self _ _) (by norm_num)

include hb1 hb h2 hlt hx2 hx

/-- **From the root of two on, the logarithm of a price does not fit.** -/
theorem magnitude_gt_of_not_below (hk : k < 2 ^ 20) (h : ¬ BelowRootTwo b k) :
    2 ^ 126 < magnitude x := by
  obtain ⟨hroot, hreach⟩ := (margin hb1 hb).2 h
  obtain ⟨hfew, -, -⟩ := reach_margin hb1 hb
  have hpow := lg_powered_le hb (by omega) (by omega : 0 < powered b k)
  obtain ⟨habove, -⟩ := lg_aboveOne h2 hlt hx
  refine magnitude_gt hx2 (word_of_powered h2 hlt hx) (le_trans ?_ habove)
  have hgrow := growth_ge hb1 hb
  have hunit := unit_le
  have hcast : ((reach b + 1 : Nat) : ℝ) ≤ k := by exact_mod_cast hreach
  have hcast' : ((reach b + 1 : Nat) : ℝ) ≤ 3500 := by exact_mod_cast hfew
  have hunits : ((reach b + 1 : Nat) : ℝ) * unit ≤ 3500 * unit :=
    mul_le_mul_of_nonneg_right hcast' unit_pos.le
  have hpos : 0 ≤ growth b - unit := by linarith
  have hmul := mul_le_mul_of_nonneg_right hcast hpos
  linarith

/-- Below it the magnitude is `k` steps, but for the units lost in the power. -/
theorem magnitude_close (h : BelowRootTwo b k) :
    (magnitude x : ℝ) ≤ k * (2 ^ 127 * growth b) + 8 * k + 4 ∧
      k * (2 ^ 127 * growth b) - 2 * k - 7 ≤ magnitude x := by
  obtain ⟨hk, hroot⟩ := (margin hb1 hb).1 h
  have hsmall := unit_le
  have hcast : (k : ℝ) ≤ 3500 := by exact_mod_cast hk.le
  have hunits : k * unit ≤ 3500 * unit := mul_le_mul_of_nonneg_right hcast unit_pos.le
  have hpow := lg_powered_le hb (by omega) (by omega : 0 < powered b k)
  have hpow' := le_lg_powered hb (by omega : k < 2 ^ 128) (by linarith)
  -- the power is from a half on, so that a cut costs it a unit at most
  have hge : 2 ^ 127 ≤ powered b k := by
    refine le_of_lg_le (by omega) ?_
    rw [lg_two_pow]
    push_cast
    linarith
  obtain ⟨hlow, hhigh⟩ := lg_aboveOne h2 hlt hx
  replace hhigh := hhigh hge
  have hone : aboveOne x < 2 ^ 128 := by
    by_contra hnot
    have hle := lg_le_lg (Nat.two_pow_pos 128) (Nat.le_of_not_lt hnot)
    rw [lg_two_pow] at hle
    push_cast at hle
    linarith
  obtain ⟨hmag, hmag'⟩ := magnitude_bounds hx2 (word_of_powered h2 hlt hx) hone
  have hunit := mul_unit
  have hku : 2 ^ 127 * (k * unit) = 2 * k := by
    rw [mul_left_comm, hunit, mul_comm]
  constructor
  · linarith
  · linarith

/-- **Below the root of two it fits**, and is the number of bins times that of the base, but for
less than a bin. -/
theorem magnitude_of_below (h : BelowRootTwo b k) : magnitude x < 2 ^ 126 ∧
    k * magnitude (base b) ≤ magnitude x + magnitude (base b) ∧
      magnitude x < (k + 1) * magnitude (base b) := by
  obtain ⟨hk, hroot⟩ := (margin hb1 hb).1 h
  obtain ⟨-, hbase, hbase'⟩ := magnitude_base hb1 hb
  obtain ⟨hupper, hlower⟩ := magnitude_close hb1 hb h2 hlt hx2 hx h
  have hgrow := growth_ge hb1 hb
  have hnonneg : (0 : ℝ) ≤ k := Nat.cast_nonneg k
  have hcast : (k : ℝ) ≤ 3500 := by exact_mod_cast hk.le
  have hbins : k * (magnitude (base b) : ℝ) ≤ k * (2 ^ 127 * growth b) :=
    mul_le_mul_of_nonneg_left hbase' hnonneg
  have hbins' : k * (2 ^ 127 * growth b - 7) ≤ k * (magnitude (base b) : ℝ) :=
    mul_le_mul_of_nonneg_left hbase hnonneg
  have hroom : (100000 : ℝ) ≤ magnitude (base b) := by linarith
  refine ⟨?_, ?_, ?_⟩
  · have hreal : (magnitude x : ℝ) < 2 ^ 126 := by linarith
    exact_mod_cast hreal
  · have hreal : k * (magnitude (base b) : ℝ) ≤ magnitude x + magnitude (base b) := by linarith
    exact_mod_cast hreal
  · have hreal : (magnitude x : ℝ) < (k + 1) * magnitude (base b) := by linarith
    exact_mod_cast hreal

end Logarithm

end ArbitrageBot
