import ArbitrageBot.Amms.Moe.Uint256x256
import ArbitrageBot.Contracts.LiquidityBook.BitMath
import ArbitrageBot.Contracts.LiquidityBook.Math
import ArbitrageBot.Lib.BinaryLog

/-!
# The 128.128 logarithm

`log2` of the Rust code is that of the contract in an `i128` where the contract has an `int256`. The
logarithm of a 128.128 number is between -128 and 128 and has 128 fraction bits, so that only the
logarithms below a half fit.
-/

namespace ArbitrageBot

open Lib BinaryLog

/-! ## Uint128x128Math -/

namespace LiquidityBook.Uint128x128Math

def LOG_SCALE_OFFSET : Nat := 127
def LOG_SCALE : U256 := 1 <<< LOG_SCALE_OFFSET
def LOG_SCALE_SQUARED : U256 := LOG_SCALE * LOG_SCALE

/-- An unchecked operation on `int256`. -/
def int256 (x : Int) : Int := x.bmod (2 ^ 256)

/-- `for (delta = 2 ** 126; delta > 0; delta >>= 1)`; it is zero after 127 rounds. -/
def log2Loop : Nat → U256 → Int → Int → Int
  | 0, _, result, _ => result
  | rounds + 1, y, result, delta =>
    if delta > 0 then
      let y := (y * y) >>> LOG_SCALE_OFFSET
      if y ≥ 1 <<< (LOG_SCALE_OFFSET + 1) then
        log2Loop rounds (y >>> 1) (int256 (result + delta)) (delta / 2)
      else log2Loop rounds y result (delta / 2)
    else result

def log2 (x : U256) : Call Int :=
  if x = 1 then .ok (-128)
  else if x = 0 then .error (.error "Uint128x128Math__LogUnderflow")
  else
    let x := x >>> 1
    let sign : Int := if x ≥ LOG_SCALE then 1 else -1
    let x := if x ≥ LOG_SCALE then x else LOG_SCALE_SQUARED / x
    let n := BitMath.mostSignificantBit (x >>> LOG_SCALE_OFFSET)
    let result := int256 (n * 2 ^ LOG_SCALE_OFFSET)
    let y := x >>> n
    let result :=
      if y = LOG_SCALE then result else log2Loop 128 y result (2 ^ (LOG_SCALE_OFFSET - 1))
    .ok (int256 (int256 (result * sign) * 2))

end LiquidityBook.Uint128x128Math

/-! ## uint128x128_math -/

namespace Moe.Uint128x128Math

def LOG_SCALE_OFFSET : Nat := 127

/-- From its limbs. -/
def LOG_SCALE : U256 := BitVec.ofNat 256 (0x8000000000000000 * 2 ^ 64)
def LOG_SCALE_SQUARED : U256 := BitVec.ofNat 256 (0x4000000000000000 * 2 ^ 192)

/-- `<<` on an `i128` drops the bits past its width. -/
def shlI128 (x : Int) (offset : Nat) : Int := (x * 2 ^ offset).bmod (2 ^ 128)

variable (prof : BuildProfile)

/-- `while delta > 0`; it is zero after 127 rounds. -/
def log2Loop : Nat → U256 → Int → Int → MathOutcome Int
  | 0, _, result, _ => .ok result
  | rounds + 1, y, result, delta =>
    if delta > 0 then
      let y := (y * y) >>> LOG_SCALE_OFFSET
      if y ≥ 1 <<< (LOG_SCALE_OFFSET + 1) then
        prof.signed 128 (result + delta) >>= fun result =>
          log2Loop rounds (y >>> 1) result (delta / 2)
      else log2Loop rounds y result (delta / 2)
    else .ok result

/-- `if y != LOG_SCALE`: the loop over the fraction bits, from `1 << (LOG_SCALE_OFFSET - 1)` down.
-/
def addFraction (y : U256) (result : Int) : MathOutcome Int :=
  if y ≠ LOG_SCALE then log2Loop prof 128 y result (2 ^ (LOG_SCALE_OFFSET - 1)) else .ok result

def log2 (x : U256) : MathOutcome Int :=
  if x = 0 then .error (.err .logUnderflow)
  else if x = 1 then .ok (-128)
  else do
    let x := x >>> 1
    let sign : Int := if x ≥ LOG_SCALE then 1 else -1
    let x := if sign < 0 then LOG_SCALE_SQUARED / x else x
    let n ← BitMath.mostSignificantBit (x >>> LOG_SCALE_OFFSET)
    let result := shlI128 n LOG_SCALE_OFFSET
    let y := x >>> n
    let result ← addFraction prof y result
    let result ← prof.signed 128 (result * sign)
    prof.signed 128 (result * 2)

/-! ### What goes through an `i128` -/

/-- The sums of the loop. -/
def log2Sums : Nat → U256 → Int → Int → List Int
  | 0, _, _, _ => []
  | rounds + 1, y, result, delta =>
    if delta > 0 then
      let y := (y * y) >>> LOG_SCALE_OFFSET
      if y ≥ 1 <<< (LOG_SCALE_OFFSET + 1) then
        (result + delta) :: log2Sums rounds (y >>> 1) (result + delta) (delta / 2)
      else log2Sums rounds y result (delta / 2)
    else []

/-- The exact values of the results of `log2`, from the whole part to the last doubling. -/
def log2Results (x : U256) : List Int :=
  if x = 0 ∨ x = 1 then []
  else
    let x := x >>> 1
    let sign : Int := if x ≥ LOG_SCALE then 1 else -1
    let x := if sign < 0 then LOG_SCALE_SQUARED / x else x
    let n := (x >>> LOG_SCALE_OFFSET).toNat.log2
    let whole : Int := n * 2 ^ LOG_SCALE_OFFSET
    let y := x >>> n
    let sums := if y ≠ LOG_SCALE then log2Sums 128 y whole (2 ^ (LOG_SCALE_OFFSET - 1)) else []
    let result := sums.getLastD whole
    whole :: sums ++ [result * sign, result * sign * 2]

/-- No result is cut by the width of an `i128`. -/
def NoneCut (results : List Int) : Prop := ∀ r ∈ results, -2 ^ 127 ≤ r ∧ r < 2 ^ 127

end Moe.Uint128x128Math

/-! ## The value of the logarithm -/

namespace Logarithm

/-- The one of a number and its inverse that is from 1 on, with 127 fraction bits. -/
def aboveOne (x : Nat) : Nat := if 2 ^ 127 ≤ x / 2 then x / 2 else 2 ^ 254 / (x / 2)

def sign (x : Nat) : Int := if 2 ^ 127 ≤ x / 2 then 1 else -1

def whole (x : Nat) : Nat := (aboveOne x / 2 ^ 127).log2

def mantissa (x : Nat) : Nat := aboveOne x / 2 ^ whole x

/-- The absolute value of the logarithm, with 127 fraction bits. -/
def magnitude (x : Nat) : Nat := whole x * 2 ^ 127 + fracBits 127 127 (mantissa x)

variable {x : Nat}

theorem aboveOne_range (h2 : 2 ≤ x) (hx : x < 2 ^ 256) :
    2 ^ 127 ≤ aboveOne x ∧ aboveOne x < 2 ^ 255 := by
  unfold aboveOne
  split
  · omega
  · have hpos : 0 < x / 2 := by omega
    constructor
    · rw [Nat.le_div_iff_mul_le hpos]
      calc 2 ^ 127 * (x / 2) ≤ 2 ^ 127 * 2 ^ 127 := Nat.mul_le_mul_left _ (by omega)
        _ = 2 ^ 254 := by norm_num
    · exact Nat.lt_of_le_of_lt (Nat.div_le_self _ _) (by norm_num)

theorem mantissa_range (h2 : 2 ≤ x) (hx : x < 2 ^ 256) :
    2 ^ 127 ≤ mantissa x ∧ mantissa x < 2 ^ 128 := by
  obtain ⟨hlo, -⟩ := aboveOne_range h2 hx
  have hpos := Nat.two_pow_pos (whole x)
  have hne : aboveOne x / 2 ^ 127 ≠ 0 := by omega
  have hle : 2 ^ whole x ≤ aboveOne x / 2 ^ 127 := Nat.log2_self_le hne
  have hlt : aboveOne x / 2 ^ 127 < 2 ^ (whole x + 1) := Nat.lt_log2_self
  unfold mantissa
  constructor
  · rw [Nat.le_div_iff_mul_le hpos, Nat.mul_comm]
    exact (Nat.le_div_iff_mul_le (Nat.two_pow_pos _)).mp hle
  · rw [Nat.div_lt_iff_lt_mul hpos]
    rw [Nat.div_lt_iff_lt_mul (Nat.two_pow_pos _)] at hlt
    calc aboveOne x < 2 ^ (whole x + 1) * 2 ^ 127 := hlt
      _ = 2 ^ 128 * 2 ^ whole x := by ring

theorem whole_lt (h2 : 2 ≤ x) (hx : x < 2 ^ 256) : whole x < 128 := by
  obtain ⟨hlo, hhi⟩ := aboveOne_range h2 hx
  have hne : aboveOne x / 2 ^ 127 ≠ 0 := by omega
  exact (Nat.log2_lt hne).mpr (by omega)

/-- Below a half there is no whole part. -/
theorem whole_eq_zero (h : magnitude x < 2 ^ 127) : whole x = 0 := by
  unfold magnitude at h
  by_contra hne
  have hmul := Nat.mul_le_mul_right (2 ^ 127) (Nat.one_le_iff_ne_zero.mpr hne)
  omega

theorem magnitude_lt (h2 : 2 ≤ x) (hx : x < 2 ^ 256) : magnitude x < 2 ^ 135 := by
  have hfrac := fracBits_lt 127 127 (mantissa x)
  have hmul := Nat.mul_le_mul_right (2 ^ 127) (whole_lt h2 hx).le
  unfold magnitude
  omega

/-- With its sign the magnitude is as far from zero. -/
theorem mul_sign_range {m n : Nat} (h : m < n) (x : Nat) :
    -(n : Int) < m * sign x ∧ m * sign x < n := by
  unfold sign
  split
  · omega
  · omega

section Words

variable {y s : U256}

theorem toNat_square (hhi : y.toNat < 2 ^ 128) :
    ((y * y) >>> 127).toNat = y.toNat * y.toNat / 2 ^ 127 := by
  have hlt : y.toNat * y.toNat < 2 ^ 256 := by
    calc y.toNat * y.toNat < 2 ^ 128 * 2 ^ 128 := Nat.mul_lt_mul'' hhi hhi
      _ = 2 ^ 256 := by norm_num
  rw [BitVec.toNat_ushiftRight, BitVec.toNat_mul, Nat.mod_eq_of_lt hlt, Nat.shiftRight_eq_div_pow]

theorem ge_two_iff : s ≥ 1 <<< 128 ↔ 2 ^ 128 ≤ s.toNat := Iff.rfl

theorem toNat_half : (s >>> 1).toNat = s.toNat / 2 := by
  rw [BitVec.toNat_ushiftRight, Nat.shiftRight_eq_div_pow, Nat.pow_one]

/-- The square of a mantissa, halved where it is from 2 on, is a mantissa. -/
theorem next_range (hlo : 2 ^ 127 ≤ y.toNat) (hhi : y.toNat < 2 ^ 128) :
    (2 ^ 128 ≤ ((y * y) >>> 127).toNat →
      2 ^ 127 ≤ (((y * y) >>> 127) >>> 1).toNat ∧ (((y * y) >>> 127) >>> 1).toNat < 2 ^ 128) ∧
    (¬ 2 ^ 128 ≤ ((y * y) >>> 127).toNat →
      2 ^ 127 ≤ ((y * y) >>> 127).toNat ∧ ((y * y) >>> 127).toNat < 2 ^ 128) := by
  obtain ⟨hslo, hshi⟩ := square_range hlo hhi
  rw [toNat_half, toNat_square hhi]
  omega

end Words

/-! ### The words of `log2` -/

section Scale

variable {x v scale squared : U256}

theorem ne_zero_one (h2 : 2 ≤ x.toNat) : x ≠ 0 ∧ x ≠ 1 := by
  constructor
  · rintro rfl
    exact absurd h2 (by decide)
  · rintro rfl
    exact absurd h2 (by decide)

theorem ge_scale_iff (hscale : scale.toNat = 2 ^ 127) :
    x >>> 1 ≥ scale ↔ 2 ^ 127 ≤ x.toNat / 2 := by
  rw [ge_iff_le, BitVec.le_def, hscale, toNat_half]

theorem sign_eq (hscale : scale.toNat = 2 ^ 127) :
    (if x >>> 1 ≥ scale then 1 else -1 : Int) = sign x.toNat := by
  unfold sign
  by_cases h : 2 ^ 127 ≤ x.toNat / 2
  · rw [if_pos ((ge_scale_iff hscale).mpr h), if_pos h]
  · rw [if_neg (fun h' => h ((ge_scale_iff hscale).mp h')), if_neg h]

theorem toNat_inverse (hsquared : squared.toNat = 2 ^ 254) :
    (squared / (x >>> 1)).toNat = 2 ^ 254 / (x.toNat / 2) := by
  rw [BitVec.toNat_udiv, hsquared, toNat_half]

/-- The first bit of the word from 1 on is its whole part, and what is left of it the mantissa. -/
theorem whole_word (h2 : 2 ≤ x.toNat) (hv : v.toNat = aboveOne x.toNat) :
    v >>> 127 ≠ 0 ∧ (v >>> 127).toNat.log2 = whole x.toNat ∧
      (v >>> whole x.toNat).toNat = mantissa x.toNat := by
  obtain ⟨hlo, -⟩ := aboveOne_range h2 x.isLt
  have hshift : (v >>> 127).toNat = aboveOne x.toNat / 2 ^ 127 := by
    rw [BitVec.toNat_ushiftRight, Nat.shiftRight_eq_div_pow, hv]
  refine ⟨fun h => ?_, ?_, ?_⟩
  · rw [h] at hshift
    have hzero : (0 : U256).toNat = 0 := rfl
    omega
  · rw [hshift, whole]
  · rw [BitVec.toNat_ushiftRight, Nat.shiftRight_eq_div_pow, hv, mantissa]

end Scale

end Logarithm

/-! ## The contract -/

namespace LiquidityBook

open Logarithm

/-- The two binary searches for the first bit find the same one. -/
theorem BitMath.mostSignificantBit_eq_log2 {x : U256} (hx : x ≠ 0) :
    mostSignificantBit x = x.toNat.log2 := by
  obtain ⟨hset, hlast⟩ := mostSignificantBit_spec hx
  have hne : x.toNat ≠ 0 := (BitVec.toNat_pos_of_ne_zero hx).ne'
  apply Nat.le_antisymm
  · exact (Nat.le_log2 hne).mpr (Nat.ge_two_pow_of_testBit hset)
  · exact hlast _ (Nat.testBit_log2 hne)

namespace Uint128x128Math

theorem int256_of_range {v : Int} (h0 : -2 ^ 200 ≤ v) (h1 : v ≤ 2 ^ 200) : int256 v = v := by
  unfold int256
  rw [Int.bmod_eq_of_le] <;> omega

/-- **The loop adds the fraction bits.** -/
theorem log2Loop_eq {k rounds : Nat} {y : U256} {result : Int} (hk : k ≤ rounds)
    (hlo : 2 ^ 127 ≤ y.toNat) (hhi : y.toNat < 2 ^ 128) (h0 : 0 ≤ result)
    (h1 : result + 2 ^ k ≤ 2 ^ 200) :
    log2Loop rounds y result (2 ^ k / 2) = result + fracBits 127 k y.toNat := by
  induction k generalizing rounds y result with
  | zero =>
    have hdelta : ¬ ((2 : Int) ^ 0 / 2 > 0) := by decide
    rw [fracBits, Nat.cast_zero, add_zero]
    cases rounds with
    | zero => rfl
    | succ rounds => rw [log2Loop, if_neg hdelta]
  | succ k ih =>
    obtain ⟨rounds, rfl⟩ : ∃ r, rounds = r + 1 := ⟨rounds - 1, by omega⟩
    have hdelta : (2 : Int) ^ (k + 1) / 2 = 2 ^ k := by
      rw [pow_succ, Int.mul_ediv_cancel _ two_ne_zero]
    have hpos : (0 : Int) < 2 ^ k := by positivity
    have hoff : LOG_SCALE_OFFSET = 127 := rfl
    obtain ⟨hbit, hnone⟩ := next_range hlo hhi
    rw [pow_succ] at h1
    rw [log2Loop, hdelta, if_pos hpos, hoff, fracBits, ← toNat_square hhi]
    dsimp only
    by_cases h : 2 ^ 128 ≤ ((y * y) >>> 127).toNat
    · obtain ⟨hlo', hhi'⟩ := hbit h
      rw [if_pos (ge_two_iff.mpr h), if_pos h, int256_of_range (by omega) (by omega),
        ih (by omega) hlo' hhi' (by omega) (by omega), toNat_half]
      push_cast
      ring
    · obtain ⟨hlo', hhi'⟩ := hnone h
      rw [if_neg (fun h' => h (ge_two_iff.mp h')), if_neg h]
      exact ih (by omega) hlo' hhi' h0 (by omega)

/-- **The logarithm of the contract.** -/
theorem log2_eq {x : U256} (h2 : 2 ≤ x.toNat) :
    log2 x = .ok (magnitude x.toNat * sign x.toNat * 2) := by
  obtain ⟨hzero, hone⟩ := ne_zero_one h2
  obtain ⟨hmlo, hmhi⟩ := mantissa_range h2 x.isLt
  have hwhole := whole_lt h2 x.isLt
  have hscale : LOG_SCALE.toNat = 2 ^ 127 := rfl
  have hoff : LOG_SCALE_OFFSET = 127 := rfl
  have habove : (if x >>> 1 ≥ LOG_SCALE then x >>> 1 else LOG_SCALE_SQUARED / (x >>> 1)).toNat =
      aboveOne x.toNat := by
    unfold aboveOne
    by_cases h : 2 ^ 127 ≤ x.toNat / 2
    · rw [if_pos ((ge_scale_iff hscale).mpr h), if_pos h, toNat_half]
    · rw [if_neg (fun h' => h ((ge_scale_iff hscale).mp h')), if_neg h, toNat_inverse rfl]
  unfold log2
  rw [if_neg hone, if_neg hzero, hoff]
  dsimp only
  rw [sign_eq hscale]
  generalize (if x >>> 1 ≥ LOG_SCALE then x >>> 1 else LOG_SCALE_SQUARED / (x >>> 1)) = v
    at habove ⊢
  obtain ⟨hne, hlog, hy⟩ := whole_word h2 habove
  rw [BitMath.mostSignificantBit_eq_log2 hne, hlog]
  generalize v >>> whole x.toNat = y at hy ⊢
  have hvalue : (if y = LOG_SCALE then int256 (whole x.toNat * 2 ^ 127)
      else log2Loop 128 y (int256 (whole x.toNat * 2 ^ 127)) (2 ^ (127 - 1))) =
        magnitude x.toNat := by
    rw [int256_of_range (by omega) (by omega), magnitude, ← hy]
    by_cases h : y = LOG_SCALE
    · rw [if_pos h, h, hscale, fracBits_one]
      push_cast
      ring
    · rw [if_neg h]
      have hloop := @log2Loop_eq 127 128 y (whole x.toNat * 2 ^ 127) (by omega) (by omega)
        (by omega) (by omega) (by omega)
      push_cast
      exact hloop
  obtain ⟨hlo, hhi⟩ := mul_sign_range (magnitude_lt h2 x.isLt) x.toNat
  rw [hvalue]
  generalize (magnitude x.toNat : Int) * sign x.toNat = m at hlo hhi ⊢
  push_cast at hlo hhi
  have hsigned : int256 m = m := int256_of_range (by omega) (by omega)
  rw [hsigned, int256_of_range (by omega) (by omega)]

end Uint128x128Math

end LiquidityBook

/-! ## The port -/

namespace Moe.Uint128x128Math

open Logarithm

variable {prof : BuildProfile} {x y : U256} {result v : Int} {k rounds : Nat}

/-- **The loop adds the fraction bits**, as long as the whole part leaves room for them. -/
theorem log2Loop_eq (hk : k ≤ rounds) (hlo : 2 ^ 127 ≤ y.toNat) (hhi : y.toNat < 2 ^ 128)
    (h0 : 0 ≤ result) (h1 : result + 2 ^ k ≤ 2 ^ 127) :
    log2Loop prof rounds y result (2 ^ k / 2) = .ok (result + fracBits 127 k y.toNat) ∧
      (∀ r ∈ log2Sums rounds y result (2 ^ k / 2), 0 ≤ r ∧ r < 2 ^ 127) ∧
        (log2Sums rounds y result (2 ^ k / 2)).getLastD result =
          result + fracBits 127 k y.toNat := by
  induction k generalizing rounds y result with
  | zero =>
    have hdelta : ¬ ((2 : Int) ^ 0 / 2 > 0) := by decide
    rw [fracBits, Nat.cast_zero, add_zero]
    cases rounds with
    | zero => exact ⟨rfl, fun r hr => absurd hr List.not_mem_nil, rfl⟩
    | succ rounds =>
      rw [log2Loop, log2Sums, if_neg hdelta, if_neg hdelta]
      exact ⟨rfl, fun r hr => absurd hr List.not_mem_nil, rfl⟩
  | succ k ih =>
    obtain ⟨rounds, rfl⟩ : ∃ r, rounds = r + 1 := ⟨rounds - 1, by omega⟩
    have hdelta : (2 : Int) ^ (k + 1) / 2 = 2 ^ k := by
      rw [pow_succ, Int.mul_ediv_cancel _ two_ne_zero]
    have hpos : (0 : Int) < 2 ^ k := by positivity
    have hoff : LOG_SCALE_OFFSET = 127 := rfl
    obtain ⟨hbit, hnone⟩ := next_range hlo hhi
    rw [pow_succ] at h1
    rw [log2Loop, log2Sums, hdelta, if_pos hpos, if_pos hpos, hoff, fracBits, ← toNat_square hhi]
    dsimp only
    by_cases h : 2 ^ 128 ≤ ((y * y) >>> 127).toNat
    · obtain ⟨hlo', hhi'⟩ := hbit h
      obtain ⟨hloop, hsums, hlast⟩ :=
        @ih _ (result + 2 ^ k) rounds (by omega) hlo' hhi' (by omega) (by omega)
      rw [toNat_half] at hloop hlast
      rw [if_pos (ge_two_iff.mpr h), if_pos (ge_two_iff.mpr h), if_pos h,
        BuildProfile.signed_of_range (by norm_num; omega) (by norm_num; omega), ok_bind, hloop,
        List.getLastD_cons, hlast]
      refine ⟨?_, fun r hr => ?_, ?_⟩
      · push_cast
        rw [add_assoc]
      · rcases List.mem_cons.mp hr with rfl | hr
        · omega
        · exact hsums r hr
      · push_cast
        rw [add_assoc]
    · obtain ⟨hlo', hhi'⟩ := hnone h
      have hnot := fun h' => h (ge_two_iff.mp h')
      rw [if_neg hnot, if_neg hnot, if_neg h]
      exact ih (by omega) hlo' hhi' h0 (by omega)

theorem toNat_aboveOne :
    (if sign x.toNat < 0 then LOG_SCALE_SQUARED / (x >>> 1) else x >>> 1).toNat =
      aboveOne x.toNat := by
  have hneg : ¬ (1 : Int) < 0 := by decide
  have hpos : (-1 : Int) < 0 := by decide
  unfold sign aboveOne
  by_cases h : 2 ^ 127 ≤ x.toNat / 2
  · rw [if_pos h, if_pos h, if_neg hneg, toNat_half]
  · rw [if_neg h, if_neg h, if_pos hpos, toNat_inverse rfl]

/-- **A logarithm below a half is that of the contract**, and none of its parts is cut. -/
theorem log2_eq (h2 : 2 ≤ x.toNat) (hm : magnitude x.toNat < 2 ^ 126) :
    log2 prof x = .ok (magnitude x.toNat * sign x.toNat * 2) ∧ NoneCut (log2Results x) := by
  obtain ⟨hzero, hone⟩ := ne_zero_one h2
  obtain ⟨hmlo, hmhi⟩ := mantissa_range h2 x.isLt
  have hwhole : whole x.toNat = 0 := whole_eq_zero (by omega)
  have hmag : magnitude x.toNat = fracBits 127 127 (mantissa x.toNat) := by
    rw [magnitude, hwhole, Nat.zero_mul, Nat.zero_add]
  have hscale : LOG_SCALE.toNat = 2 ^ 127 := rfl
  have hoff : LOG_SCALE_OFFSET = 127 := rfl
  have habove := @toNat_aboveOne x
  unfold log2 log2Results
  rw [if_neg hzero, if_neg hone, if_neg (not_or.mpr ⟨hzero, hone⟩), hoff]
  dsimp only
  rw [sign_eq hscale]
  generalize (if sign x.toNat < 0 then LOG_SCALE_SQUARED / (x >>> 1) else x >>> 1) = u at habove ⊢
  obtain ⟨hne, hlog, hy⟩ := whole_word h2 habove
  rw [hwhole] at hlog hy
  rw [(Uint256x256Math.mostSignificantBit_eq hne).1, ok_bind, hlog]
  generalize u >>> 0 = y at hy ⊢
  have hshl : shlI128 (0 : Nat) 127 = 0 := by decide
  have hnone : ((0 : Nat) : Int) * 2 ^ 127 = 0 := by rw [Nat.cast_zero, zero_mul]
  obtain ⟨hloop, hsums, hlast⟩ := @log2Loop_eq prof y 0 127 128 (by omega) (by omega) (by omega)
    le_rfl (by omega)
  rw [zero_add, hy, ← hmag] at hloop hlast
  -- a power of two has no fraction: skipping the loop changes nothing
  have hfrac : addFraction prof y 0 = .ok (magnitude x.toNat : Int) ∧
      (∀ r ∈ (if y ≠ LOG_SCALE then log2Sums 128 y 0 (2 ^ (127 - 1)) else []),
        0 ≤ r ∧ r < 2 ^ 127) ∧
      (if y ≠ LOG_SCALE then log2Sums 128 y 0 (2 ^ (127 - 1)) else []).getLastD 0 =
        (magnitude x.toNat : Int) := by
    unfold addFraction
    by_cases h : y = LOG_SCALE
    · have hno : ¬ y ≠ LOG_SCALE := not_not.mpr h
      have hzero : magnitude x.toNat = 0 := by
        rw [hmag, ← hy, h, hscale, fracBits_one]
      rw [if_neg hno, if_neg hno, hzero]
      exact ⟨rfl, fun r hr => absurd hr List.not_mem_nil, rfl⟩
    · rw [if_pos h, if_pos h]
      exact ⟨hloop, hsums, hlast⟩
  obtain ⟨hadd, hin, hend⟩ := hfrac
  obtain ⟨hlo, hhi⟩ := mul_sign_range hm x.toNat
  rw [hshl, hadd, ok_bind, hnone, hend]
  generalize (magnitude x.toNat : Int) * sign x.toNat = m at hlo hhi ⊢
  push_cast at hlo hhi
  rw [BuildProfile.signed_of_range (by norm_num; omega) (by norm_num; omega), ok_bind,
    BuildProfile.signed_of_range (by norm_num; omega) (by norm_num; omega)]
  refine ⟨rfl, fun r hr => ?_⟩
  rcases List.mem_append.mp hr with hr | hr
  · rcases List.mem_cons.mp hr with rfl | hr
    · norm_num
    · have := hin r hr
      omega
  · simp only [List.mem_cons, List.not_mem_nil, or_false] at hr
    rcases hr with rfl | rfl
    · omega
    · omega

theorem signed_fits {w : Int} (h : prof.signed (ε := MoeLbtMathError) 128 w = .ok v) :
    -2 ^ 127 ≤ v ∧ v < 2 ^ 127 := by
  unfold BuildProfile.signed at h
  split at h
  · cases h
    norm_num at *
    omega
  · split at h
    · cases h
    · cases h
      have hlo := @Int.le_bmod w (2 ^ 128) (by norm_num)
      have hhi := @Int.bmod_lt w (2 ^ 128) (by norm_num)
      norm_num at *
      omega

/-- Whatever `log2` returns fits into an `i128`. -/
theorem log2_fits (h : log2 prof x = .ok v) : -2 ^ 127 ≤ v ∧ v < 2 ^ 127 := by
  unfold log2 at h
  split at h
  · cases h
  split at h
  · cases h
    norm_num
  obtain ⟨n, -, h⟩ := bind_eq_ok.mp h
  obtain ⟨result, -, h⟩ := bind_eq_ok.mp h
  obtain ⟨signed, -, h⟩ := bind_eq_ok.mp h
  exact signed_fits h

end Moe.Uint128x128Math

end ArbitrageBot
