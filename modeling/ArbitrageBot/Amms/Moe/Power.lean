import ArbitrageBot.Amms.Moe.Math
import ArbitrageBot.Contracts.LiquidityBook.Math

/-!
# The 128.128 power

`pow` of the Rust code is a loop over the bits of the exponent, `pow` of the contract twenty
unrolled lines. Both multiply the same words as long as both invert the base: the contract from
`2 ^ 128` on, the Rust code from `2 ^ 64` on.
-/

namespace ArbitrageBot.Moe.Uint128x128Math

open Lib

/-! ## The loop and the lines -/

section Loop

variable {absY n j rounds : Nat} {result squared : U256}

/-- A power that has become zero stays zero. -/
theorem foldl_powLine_zero (bits : List Nat) (squared : U256) :
    (bits.foldl (LiquidityBook.Uint128x128Math.powLine absY) (0, squared)).1 = 0 := by
  induction bits generalizing squared with
  | nil => rfl
  | cons i bits ih =>
    have hline : LiquidityBook.Uint128x128Math.powLine absY (0, squared) i =
        ((0 : U256), (squared * squared) >>> 128) := by
      unfold LiquidityBook.Uint128x128Math.powLine
      split
      · simp
      · rfl
    rw [List.foldl_cons, hline]
    exact ih _

/-- A power that is computed, or the error for one that is zero. -/
def orUnderflow (power : U256) : MathOutcome U256 :=
  if power = 0 then .error (.err .powUnderflow) else .ok power

theorem ne_zero_of_orUnderflow {power w : U256} (h : orUnderflow power = .ok w) : w ≠ 0 := by
  unfold orUnderflow at h
  split at h
  · cases h
  · cases h
    assumption

/-- The loop over a power computes what the lines for its bits do. -/
theorem powLoop_eq (hbits : absY / 2 ^ j < 2 ^ n) (hrounds : n ≤ rounds) (hne : result ≠ 0) :
    powLoop rounds (absY / 2 ^ j) result squared =
      orUnderflow ((List.range' j n).foldl (LiquidityBook.Uint128x128Math.powLine absY)
        (result, squared)).1 := by
  induction n generalizing j rounds result squared with
  | zero =>
    have hzero : absY / 2 ^ j = 0 := Nat.lt_one_iff.mp (by rwa [Nat.pow_zero] at hbits)
    rw [hzero, List.range'_zero, List.foldl_nil, orUnderflow, if_neg hne]
    cases rounds with
    | zero => rfl
    | succ rounds => rfl
  | succ n ih =>
    obtain ⟨rounds, rfl⟩ := Nat.exists_eq_add_of_lt (Nat.lt_of_lt_of_le (Nat.succ_pos n) hrounds)
    rw [Nat.zero_add] at hrounds ⊢
    have hhalf : absY / 2 ^ (j + 1) = absY / 2 ^ j / 2 := by
      rw [Nat.pow_succ, Nat.div_div_eq_div_mul]
    have hnext : absY / 2 ^ (j + 1) < 2 ^ n := by
      rw [hhalf]
      omega
    have hbit : absY.testBit j = decide (absY / 2 ^ j % 2 = 1) :=
      Nat.testBit_eq_decide_div_mod_eq
    rw [List.range'_succ, List.foldl_cons]
    by_cases hodd : absY / 2 ^ j % 2 = 1
    · have hline : LiquidityBook.Uint128x128Math.powLine absY (result, squared) j =
          ((result * squared) >>> 128, (squared * squared) >>> 128) := by
        unfold LiquidityBook.Uint128x128Math.powLine
        rw [if_pos (by rw [hbit]; simpa using hodd)]
      rw [hline, powLoop, if_neg (by omega), if_pos hodd]
      dsimp only
      by_cases hres : (result * squared) >>> 128 = 0
      · rw [if_pos hres, hres, foldl_powLine_zero, orUnderflow, if_pos rfl]
      · rw [if_neg hres, ← hhalf]
        exact ih hnext (by omega) hres
    · have hline : LiquidityBook.Uint128x128Math.powLine absY (result, squared) j =
          (result, (squared * squared) >>> 128) := by
        unfold LiquidityBook.Uint128x128Math.powLine
        rw [if_neg (by rw [hbit]; simpa using hodd)]
      have hih := @ih (j + 1) rounds result ((squared * squared) >>> 128) hnext (by omega) hne
      rw [hline, powLoop]
      by_cases hpow : absY / 2 ^ j = 0
      · -- The loop ends early: the lines that are left do nothing.
        rw [if_pos hpow, ← hih, hhalf, hpow]
        cases rounds with
        | zero => rfl
        | succ rounds => rfl
      · rw [if_neg hpow, if_neg hodd, ← hhalf]
        exact hih

end Loop

/-! ## The call -/

variable {prof : BuildProfile} {x price : U256} {y : Int}

theorem gt_limb_iff : x > BitVec.ofNat 256 (2 ^ 64 - 1) ↔ 2 ^ 64 ≤ x.toNat := by
  rw [gt_iff_lt, BitVec.lt_def, BitVec.toNat_ofNat]
  omega

theorem gt_lane_iff : x > 0xffffffffffffffffffffffffffffffff#256 ↔ 2 ^ 128 ≤ x.toNat := by
  have hmax : (0xffffffffffffffffffffffffffffffff#256).toNat = 2 ^ 128 - 1 := rfl
  rw [gt_iff_lt, BitVec.lt_def, hmax]
  omega

/-- A small exponent is used up by the twenty lines. -/
theorem powLoop_lines (hy : y.natAbs < 0x100000) (squared : U256) :
    powLoop 128 y.natAbs SCALE squared =
      orUnderflow ((List.range 20).foldl (LiquidityBook.Uint128x128Math.powLine y.natAbs)
        (LiquidityBook.Constants.SCALE, squared)).1 := by
  have h := @powLoop_eq y.natAbs 20 0 128 SCALE squared (by simpa using hy) (by omega) (by decide)
  rw [Nat.pow_zero, Nat.div_one, ← List.range_eq_range'] at h
  exact h

/-- **Where both invert the base, or neither does, the port is exact.** -/
theorem pow_eq (hx : x.toNat < 2 ^ 64 ∨ 2 ^ 128 ≤ x.toNat) (hy0 : y ≠ 0)
    (hy : y.natAbs < 0x100000) :
    pow prof x y =
      (LiquidityBook.Uint128x128Math.pow x y).mapError fun _ => .err .powUnderflow := by
  have hinverted : x > BitVec.ofNat 256 (2 ^ 64 - 1) ↔
      x > 0xffffffffffffffffffffffffffffffff#256 := by
    rw [gt_limb_iff, gt_lane_iff]
    omega
  rw [pow_of_lt prof hy0 hy, powLoop_lines hy]
  unfold LiquidityBook.Uint128x128Math.pow orUnderflow
  dsimp only
  simp only [if_neg hy0, hy, hinverted, decide_true, Bool.true_and, if_true]
  generalize ((List.range 20).foldl (LiquidityBook.Uint128x128Math.powLine y.natAbs) _).1 = power
  by_cases hzero : power = 0
  · rw [if_pos hzero, if_pos hzero]
    rfl
  · rw [if_neg hzero, if_neg hzero]
    rfl

/-- The powers of a base from `2 ^ 128` on; both sides work with its inverse. -/
theorem pow_eq_ok (hx : 2 ^ 128 ≤ x.toNat)
    (h : LiquidityBook.Uint128x128Math.pow x y = .ok price) : pow prof x y = .ok price := by
  by_cases hy0 : y = 0
  · subst hy0
    cases h
    rfl
  by_cases hy : y.natAbs < 0x100000
  · rw [pow_eq (.inr hx) hy0 hy, h]
    rfl
  · unfold LiquidityBook.Uint128x128Math.pow at h
    dsimp only at h
    rw [if_neg hy0, if_neg hy, if_pos rfl] at h
    cases h

/-! ## The products -/

/-- The factors of the products of the loop, in their order. -/
def powLoopFactors : Nat → Nat → U256 → U256 → List (U256 × U256)
  | 0, _, _, _ => []
  | rounds + 1, power, result, squared =>
    if power = 0 then []
    else if power % 2 = 1 then
      let next := (result * squared) >>> 128
      if next = 0 then [(result, squared)]
      else (result, squared) :: (squared, squared) ::
        powLoopFactors rounds (power / 2) next ((squared * squared) >>> 128)
    else (squared, squared) ::
      powLoopFactors rounds (power / 2) result ((squared * squared) >>> 128)

/-- The factors of the products of `pow`. -/
def powFactors (prof : BuildProfile) (x : U256) (y : Int) : List (U256 × U256) :=
  match absExponent prof y with
  | .ok absY =>
    if y = 0 ∨ absY ≥ 0x100000 then []
    else powLoopFactors 128 (asU128 absY) SCALE
      (if x > BitVec.ofNat 256 (2 ^ 64 - 1) then BitVec.allOnes 256 / x else x)
  | .error _ => []

/-- No product is cut by the width of a word. -/
def NoneWraps (factors : List (U256 × U256)) : Prop :=
  ∀ f ∈ factors, f.1.toNat * f.2.toNat < 2 ^ 256

section Products

variable {rounds power : Nat} {result squared : U256}

/-- The truncated product of two numbers of 128.128 bits of which one is below 1. -/
theorem toNat_mul_shift (h : result.toNat ≤ 2 ^ 128) (hs : squared.toNat < 2 ^ 128) :
    result.toNat * squared.toNat < 2 ^ 256 ∧
      ((result * squared) >>> 128).toNat = result.toNat * squared.toNat / 2 ^ 128 ∧
        ((result * squared) >>> 128).toNat < 2 ^ 128 := by
  have hlt : result.toNat * squared.toNat < 2 ^ 256 := by
    calc result.toNat * squared.toNat ≤ 2 ^ 128 * squared.toNat := Nat.mul_le_mul_right _ h
      _ < 2 ^ 128 * 2 ^ 128 := Nat.mul_lt_mul_of_pos_left hs (Nat.two_pow_pos 128)
      _ = 2 ^ 256 := by norm_num
  have hval : ((result * squared) >>> 128).toNat = result.toNat * squared.toNat / 2 ^ 128 := by
    rw [BitVec.toNat_ushiftRight, BitVec.toNat_mul, Nat.mod_eq_of_lt hlt,
      Nat.shiftRight_eq_div_pow]
  refine ⟨hlt, hval, ?_⟩
  rw [hval]
  exact Nat.div_lt_of_lt_mul (by omega)

/-- Below 1 nothing wraps, and everything stays below 1. -/
theorem powLoopFactors_noneWraps (h : result.toNat ≤ 2 ^ 128) (hs : squared.toNat < 2 ^ 128) :
    NoneWraps (powLoopFactors rounds power result squared) := by
  induction rounds generalizing power result squared with
  | zero =>
    intro f hf
    cases hf
  | succ rounds ih =>
    obtain ⟨hres, -, hnext⟩ := toNat_mul_shift h hs
    obtain ⟨hsq, -, hsquared⟩ := toNat_mul_shift hs.le hs
    unfold powLoopFactors
    dsimp only
    split
    · intro f hf
      cases hf
    · split
      · split
        · intro f hf
          rw [List.mem_singleton] at hf
          subst hf
          exact hres
        · intro f hf
          rcases List.mem_cons.mp hf with rfl | hf
          · exact hres
          rcases List.mem_cons.mp hf with rfl | hf
          · exact hsq
          exact ih hnext.le hsquared f hf
      · intro f hf
        rcases List.mem_cons.mp hf with rfl | hf
        · exact hsq
        exact ih h hsquared f hf

/-- From 1 on the first product wraps. -/
theorem powLoopFactors_wraps (hpower : power ≠ 0) (hs : 2 ^ 128 ≤ squared.toNat) :
    ¬ NoneWraps (powLoopFactors (rounds + 1) power SCALE squared) := by
  have hscale : SCALE.toNat = 2 ^ 128 := rfl
  have hone : ¬ SCALE.toNat * squared.toNat < 2 ^ 256 := by
    have hmul := Nat.mul_le_mul_left (2 ^ 128) hs
    rw [hscale]
    omega
  have hsquare : ¬ squared.toNat * squared.toNat < 2 ^ 256 := by
    have hmul := Nat.mul_le_mul hs hs
    omega
  intro h
  unfold powLoopFactors at h
  rw [if_neg hpower] at h
  dsimp only at h
  split at h
  · split at h
    · exact hone (h _ List.mem_cons_self)
    · exact hone (h _ List.mem_cons_self)
  · exact hsquare (h _ List.mem_cons_self)

end Products

/-! ## The least exponent -/

section Least

variable {squared : U256} {n : Nat}

/-- One truncated squaring below 1. -/
def square (s : Nat) : Nat := s * s / 2 ^ 128

theorem square_mono : Monotone square := fun _ _ h => Nat.div_le_div_right (Nat.mul_le_mul h h)

/-- The loop over a power of two only squares, up to its last round. -/
theorem powLoop_two_pow (hs : squared.toNat < 2 ^ 128) : ∃ w : U256,
    w.toNat = square^[n] squared.toNat ∧
      powLoop (n + 1) (2 ^ n) SCALE squared = orUnderflow w := by
  induction n generalizing squared with
  | zero =>
    obtain ⟨-, hval, -⟩ := @toNat_mul_shift SCALE squared (Nat.le_refl _) hs
    have hscale : SCALE.toNat = 2 ^ 128 := rfl
    refine ⟨(SCALE * squared) >>> 128, ?_, ?_⟩
    · rw [hval, hscale, Nat.mul_div_cancel_left _ (Nat.two_pow_pos 128)]
      rfl
    · rfl
  | succ n ih =>
    obtain ⟨-, hval, hlt⟩ := toNat_mul_shift hs.le hs
    obtain ⟨w, hw, hloop⟩ := ih hlt
    have hpos := Nat.two_pow_pos n
    have heven : 2 ^ (n + 1) % 2 = 0 := by omega
    have hhalf : 2 ^ (n + 1) / 2 = 2 ^ n := by omega
    refine ⟨w, ?_, ?_⟩
    · rw [hw, hval]
      rfl
    · rw [powLoop, if_neg (by omega), if_neg (by omega), hhalf]
      exact hloop

/-- Squared 127 times, a number is zero up to `2 ^ 128 - 178`. -/
theorem square_iterate_eq_zero_iff {s : Nat} : square^[127] s = 0 ↔ s < 2 ^ 128 - 177 := by
  have hzero : square^[127] (2 ^ 128 - 178) = 0 := by decide +kernel
  have hone : square^[127] (2 ^ 128 - 177) = 1 := by decide +kernel
  constructor
  · intro h
    by_contra hge
    have hmono := square_mono.iterate 127 (Nat.le_of_not_lt hge)
    omega
  · intro h
    have hmono := square_mono.iterate 127 (by omega : s ≤ 2 ^ 128 - 178)
    omega

end Least

/-- With overflow checks the negation of the least exponent panics. -/
theorem pow_least_of_checks (h : prof.overflowChecks = true) :
    pow prof x (-2 ^ 127) = .error .panic := by
  have hneg : absExponent prof (-2 ^ 127) = .error .panic := by
    unfold absExponent BuildProfile.signed
    rw [if_pos (by omega), if_neg (by omega), if_pos h]
  unfold pow
  rw [if_neg (by omega), hneg]
  rfl

/-- Without them it is its own absolute value, and passes the check of the size. -/
theorem absExponent_least (h : prof.overflowChecks = false) :
    absExponent prof (-2 ^ 127) = .ok (-2 ^ 127) := by
  unfold absExponent BuildProfile.signed
  rw [if_pos (by omega), if_neg (by omega), if_neg (by simp [h])]
  rfl

theorem pow_least (h : prof.overflowChecks = false) :
    pow prof x (-2 ^ 127) = (do
      let result ← powLoop 128 (2 ^ 127) SCALE
        (if x > BitVec.ofNat 256 (2 ^ 64 - 1) then BitVec.allOnes 256 / x else x)
      return if true ^^ decide (x > BitVec.ofNat 256 (2 ^ 64 - 1)) then
        BitVec.allOnes 256 / result else result) := by
  have hpower : asU128 (-2 ^ 127) = 2 ^ 127 := by decide +kernel
  unfold pow
  rw [if_neg (by omega), absExponent_least h, ok_bind, if_neg (by omega), hpower]
  rfl

/-! ## Agreement with the contract -/

/-- The call returns what the contract returns, fails where the contract reverts, and with a base
below `2 ^ 128` computes no product that a word does not hold. -/
structure Agrees (prof : BuildProfile) (x : U256) (y : Int) : Prop where
  ok : ∀ r, pow prof x y = .ok r ↔ LiquidityBook.Uint128x128Math.pow x y = .ok r
  err : (∃ e, pow prof x y = .error (.err e)) ↔
    ∃ e, LiquidityBook.Uint128x128Math.pow x y = .error e
  exact : x.toNat < 2 ^ 128 → NoneWraps (powFactors prof x y)

/-- The bases that both sides invert or neither does, for the exponents that the base is used for.
The least exponent passes the check of the size in a build without overflow checks, and still fails
where the square loop ends in zero. -/
def Ported (prof : BuildProfile) (x : U256) (y : Int) : Prop :=
  if y = -2 ^ 127 then
    prof.overflowChecks = false ∧ (x.toNat < 2 ^ 64 ∨ 2 ^ 128 + 178 ≤ x.toNat)
  else y = 0 ∨ 0x100000 ≤ y.natAbs ∨ x.toNat < 2 ^ 64 ∨ 2 ^ 128 ≤ x.toNat

theorem pow_contract_of_large (hy0 : y ≠ 0) (hy : 0x100000 ≤ y.natAbs) :
    LiquidityBook.Uint128x128Math.pow x y = .error (.error "Uint128x128Math__PowUnderflow") := by
  have hlarge : ¬ y.natAbs < 0x100000 := by omega
  unfold LiquidityBook.Uint128x128Math.pow
  dsimp only
  rw [if_neg hy0, if_neg hlarge, if_pos rfl]

theorem pow_of_large (hmin : -2 ^ 127 < y) (hy0 : y ≠ 0) (hy : 0x100000 ≤ y.natAbs) :
    pow prof x y = .error (.err .powUnderflow) := by
  unfold pow
  rw [if_neg hy0, absExponent_of_lt prof hmin, ok_bind, if_pos (by omega)]

/-- The factors of a small exponent. -/
theorem powFactors_of_lt (hy0 : y ≠ 0) (hy : y.natAbs < 0x100000) :
    powFactors prof x y = powLoopFactors 128 y.natAbs SCALE
      (if x > BitVec.ofNat 256 (2 ^ 64 - 1) then BitVec.allOnes 256 / x else x) := by
  have hpower : asU128 (y.natAbs : Int) = y.natAbs := by
    rw [asU128_of_range (by omega) (by omega), Int.toNat_natCast]
  unfold powFactors
  rw [absExponent_of_lt prof (by omega)]
  dsimp only
  rw [if_neg (by omega), hpower]

theorem powFactors_of_large (hmin : -2 ^ 127 < y) (hy : y = 0 ∨ 0x100000 ≤ y.natAbs) :
    powFactors prof x y = [] := by
  unfold powFactors
  rw [absExponent_of_lt prof hmin]
  dsimp only
  rw [if_pos (by omega)]

theorem powFactors_least (h : prof.overflowChecks = false) :
    powFactors prof x (-2 ^ 127) = powLoopFactors 128 (2 ^ 127) SCALE
      (if x > BitVec.ofNat 256 (2 ^ 64 - 1) then BitVec.allOnes 256 / x else x) := by
  have hpower : asU128 (-2 ^ 127) = 2 ^ 127 := by decide +kernel
  unfold powFactors
  rw [absExponent_least h]
  dsimp only
  rw [if_neg (by omega), hpower]

/-- The base that is multiplied: its inverse from `2 ^ 64` on. -/
theorem base_lt (hx : x.toNat < 2 ^ 64) :
    (if x > BitVec.ofNat 256 (2 ^ 64 - 1) then BitVec.allOnes 256 / x else x) = x :=
  if_neg fun h => absurd (gt_limb_iff.mp h) (by omega)

theorem toNat_base_ge (hx : 2 ^ 64 ≤ x.toNat) :
    (if x > BitVec.ofNat 256 (2 ^ 64 - 1) then BitVec.allOnes 256 / x else x).toNat =
      (2 ^ 256 - 1) / x.toNat := by
  rw [if_pos (gt_limb_iff.mpr hx), BitVec.toNat_udiv, BitVec.toNat_allOnes]

/-- Between `2 ^ 64` and `2 ^ 128` the inverse is above 1. -/
theorem base_gap (hx : 2 ^ 64 ≤ x.toNat) (hlt : x.toNat < 2 ^ 128) : 2 ^ 128 ≤
    (if x > BitVec.ofNat 256 (2 ^ 64 - 1) then BitVec.allOnes 256 / x else x).toNat := by
  rw [toNat_base_ge hx, Nat.le_div_iff_mul_le (by omega)]
  omega

/-- An outcome of the port that is that of the contract. -/
theorem agrees_of_mapError
    (h : pow prof x y =
      (LiquidityBook.Uint128x128Math.pow x y).mapError fun _ => .err .powUnderflow)
    (hexact : x.toNat < 2 ^ 128 → NoneWraps (powFactors prof x y)) : Agrees prof x y := by
  cases hcall : LiquidityBook.Uint128x128Math.pow x y with
  | ok r =>
    rw [hcall] at h
    refine ⟨fun r' => ?_, ?_, hexact⟩
    · rw [h, hcall]
      exact ⟨fun h => congrArg Except.ok (Except.ok.inj h),
        fun h => congrArg Except.ok (Except.ok.inj h)⟩
    · rw [h, hcall]
      exact iff_of_false (fun ⟨_, h⟩ => by cases h) (fun ⟨_, h⟩ => by cases h)
  | error e =>
    rw [hcall] at h
    refine ⟨fun r' => ?_, ?_, hexact⟩
    · rw [h, hcall]
      exact iff_of_false (fun h => by cases h) (fun h => by cases h)
    · rw [h, hcall]
      exact iff_of_true ⟨_, rfl⟩ ⟨_, rfl⟩

/-- The least exponent. -/
theorem agrees_least_iff : Agrees prof x (-2 ^ 127) ↔
    prof.overflowChecks = false ∧ (x.toNat < 2 ^ 64 ∨ 2 ^ 128 + 178 ≤ x.toNat) := by
  have hrevert : ∃ e, LiquidityBook.Uint128x128Math.pow x (-2 ^ 127) = .error e :=
    ⟨_, pow_contract_of_large (by omega) (by omega)⟩
  by_cases hchecks : prof.overflowChecks = true
  · refine iff_of_false (fun h => ?_) (fun h => ?_)
    · obtain ⟨e, he⟩ := h.err.mpr hrevert
      rw [pow_least_of_checks hchecks] at he
      cases he
    · rw [hchecks] at h
      cases h.1
  rw [Bool.not_eq_true] at hchecks
  rw [and_iff_right hchecks]
  by_cases hgap : 2 ^ 64 ≤ x.toNat ∧ x.toNat < 2 ^ 128
  · refine iff_of_false (fun h => ?_) (by omega)
    have hwraps := h.exact hgap.2
    rw [powFactors_least hchecks] at hwraps
    exact powLoopFactors_wraps (by omega) (base_gap hgap.1 hgap.2) hwraps
  -- Both loops run below 1: the port fails as long as the last square is zero.
  have hbase : ∃ squared : U256, squared =
      (if x > BitVec.ofNat 256 (2 ^ 64 - 1) then BitVec.allOnes 256 / x else x) ∧
        squared.toNat < 2 ^ 128 ∧ (squared.toNat < 2 ^ 128 - 177 ↔
          x.toNat < 2 ^ 64 ∨ 2 ^ 128 + 178 ≤ x.toNat) := by
    refine ⟨_, rfl, ?_⟩
    by_cases hx : x.toNat < 2 ^ 64
    · rw [base_lt hx]
      omega
    · rw [toNat_base_ge (by omega), Nat.div_lt_iff_lt_mul (by omega),
        Nat.div_lt_iff_lt_mul (by omega)]
      omega
  obtain ⟨squared, hsquared, hlt, hiff⟩ := hbase
  obtain ⟨w, hw, hloop⟩ := powLoop_two_pow (n := 127) hlt
  have hzero : w = 0 ↔ x.toNat < 2 ^ 64 ∨ 2 ^ 128 + 178 ≤ x.toNat := by
    rw [← hiff, ← square_iterate_eq_zero_iff, ← hw]
    constructor
    · rintro rfl
      rfl
    · exact fun h => BitVec.eq_of_toNat_eq h
  rw [← hzero]
  have hpow := pow_least (x := x) hchecks
  rw [← hsquared, hloop] at hpow
  constructor
  · intro h
    by_contra hne
    rw [orUnderflow, if_neg hne] at hpow
    obtain ⟨e, he⟩ := h.err.mpr hrevert
    rw [hpow] at he
    cases he
  · intro h
    rw [orUnderflow, if_pos h] at hpow
    refine agrees_of_mapError ?_ fun _ => ?_
    · obtain ⟨e, he⟩ := hrevert
      rw [hpow, he]
      rfl
    · rw [powFactors_least hchecks, ← hsquared]
      exact powLoopFactors_noneWraps (Nat.le_refl _) hlt

/-- **The port agrees with the contract** where both invert the base or neither does: not from
`2 ^ 64` up to `2 ^ 128`, unless the exponent is zero or too large on both sides. -/
theorem pow_agrees_iff (prof : BuildProfile) (x : U256) (y : Int) (hmin : -2 ^ 127 ≤ y)
    (hmax : y < 2 ^ 127) : Agrees prof x y ↔ Ported prof x y := by
  unfold Ported
  by_cases hleast : y = -2 ^ 127
  · rw [if_pos hleast, hleast]
    exact agrees_least_iff
  rw [if_neg hleast]
  by_cases hy0 : y = 0
  · subst hy0
    refine iff_of_true (agrees_of_mapError rfl fun _ => ?_) (.inl rfl)
    rw [powFactors_of_large (by omega) (.inl rfl)]
    intro f hf
    cases hf
  by_cases hy : 0x100000 ≤ y.natAbs
  · refine iff_of_true (agrees_of_mapError ?_ fun _ => ?_) (.inr (.inl hy))
    · rw [pow_of_large (by omega) hy0 hy, pow_contract_of_large hy0 hy]
      rfl
    · rw [powFactors_of_large (by omega) (.inr hy)]
      intro f hf
      cases hf
  rw [or_iff_right hy0, or_iff_right hy]
  by_cases hx : x.toNat < 2 ^ 64 ∨ 2 ^ 128 ≤ x.toNat
  · refine iff_of_true (agrees_of_mapError (pow_eq hx hy0 (by omega)) fun hlt => ?_) hx
    rw [powFactors_of_lt hy0 (by omega), base_lt (by omega)]
    exact powLoopFactors_noneWraps (Nat.le_refl _) hlt
  · refine iff_of_false (fun h => ?_) hx
    have hwraps := h.exact (by omega)
    rw [powFactors_of_lt hy0 (by omega)] at hwraps
    exact powLoopFactors_wraps (by omega) (base_gap (by omega) (by omega)) hwraps

theorem pow_agrees_base : Agrees ⟨true⟩ (SCALE + 1000) 2 ↔ Ported ⟨true⟩ (SCALE + 1000) 2 :=
  pow_agrees_iff ⟨true⟩ (SCALE + 1000) 2 (by omega) (by omega)

/-- The first power of `2 ^ 64` is `2 ^ 128 + 1`. -/
theorem pow_inverts_limb : ¬ ∀ (prof : BuildProfile) (x : U256) (y : Int), -2 ^ 127 ≤ y →
    y < 2 ^ 127 →
      ∀ r, pow prof x y = .ok r ↔ LiquidityBook.Uint128x128Math.pow x y = .ok r := by
  intro h
  have hport : pow ⟨true⟩ (1 <<< 64) 1 = .ok (1 <<< 128 + 1) := by decide +kernel
  have hcontract := (h ⟨true⟩ (1 <<< 64) 1 (by omega) (by omega) _).mp hport
  revert hcontract
  decide +kernel

/-! ## Between the two bounds -/

section Gap

variable {rounds power : Nat} {result squared w r : U256}

/-- What the loop returns is below 1 once it has multiplied. -/
theorem powLoop_lt (h : result.toNat < 2 ^ 128 ∨ power ≠ 0 ∧ power < 2 ^ rounds)
    (hok : powLoop rounds power result squared = .ok w) : w.toNat < 2 ^ 128 := by
  induction rounds generalizing power result squared with
  | zero =>
    cases hok
    omega
  | succ rounds ih =>
    have hshift : ((result * squared) >>> 128).toNat < 2 ^ 128 := by
      rw [BitVec.toNat_ushiftRight, Nat.shiftRight_eq_div_pow]
      exact Nat.div_lt_of_lt_mul (BitVec.isLt _)
    unfold powLoop at hok
    dsimp only at hok
    split at hok
    · cases hok
      omega
    · split at hok
      · split at hok
        · cases hok
        · exact ih (.inl hshift) hok
      · exact ih (by omega) hok

/-- The inverse of a power below 1 is not below 1. -/
theorem allOnes_div_ge (hw : w.toNat < 2 ^ 128) (hne : w ≠ 0) :
    2 ^ 128 ≤ (BitVec.allOnes 256 / w).toNat := by
  have hpos := BitVec.toNat_pos_of_ne_zero hne
  rw [BitVec.toNat_udiv, BitVec.toNat_allOnes, Nat.le_div_iff_mul_le hpos]
  omega

/-- A call of the contract that returns, by the loop of the port. -/
theorem pow_contract_eq_ok (hx : x.toNat < 2 ^ 128) (hy0 : y ≠ 0) (hy : y.natAbs < 0x100000)
    (h : LiquidityBook.Uint128x128Math.pow x y = .ok r) :
    ∃ w, w ≠ 0 ∧ powLoop 128 y.natAbs SCALE x = .ok w ∧
      r = if y < 0 then BitVec.allOnes 256 / w else w := by
  have hinverted : ¬ x > 0xffffffffffffffffffffffffffffffff#256 := by
    rw [gt_lane_iff]
    omega
  rw [powLoop_lines hy]
  unfold LiquidityBook.Uint128x128Math.pow at h
  dsimp only at h
  simp only [if_neg hy0, hy, hinverted, decide_true, decide_false, Bool.true_and, Bool.xor_false,
    if_true, if_false, decide_eq_true_eq] at h
  generalize ((List.range 20).foldl (LiquidityBook.Uint128x128Math.powLine y.natAbs) _).1 = w at h ⊢
  by_cases hzero : w = 0
  · rw [if_pos hzero] at h
    cases h
  · rw [if_neg hzero] at h
    exact ⟨w, hzero, if_neg hzero, (Except.ok.inj h).symm⟩

/-- **Between the two bounds the port never returns what the contract returns**: one of them returns
the power below 1 and the other the inverse of a number below 1. -/
theorem pow_gap_ne (hx : 2 ^ 64 ≤ x.toNat) (hlt : x.toNat < 2 ^ 128) (hy0 : y ≠ 0)
    (hy : y.natAbs < 0x100000) (h : LiquidityBook.Uint128x128Math.pow x y = .ok r) :
    pow prof x y ≠ .ok r := by
  intro hport
  obtain ⟨w, hne, hloop, hr⟩ := pow_contract_eq_ok hlt hy0 hy h
  have hw := powLoop_lt (.inr ⟨by omega, by omega⟩) hloop
  rw [pow_of_lt prof hy0 hy, bind_eq_ok] at hport
  obtain ⟨w', hloop', hr'⟩ := hport
  have hw' := powLoop_lt (.inr ⟨by omega, by omega⟩) hloop'
  have hne' : w' ≠ 0 := by
    rw [powLoop_lines hy] at hloop'
    exact ne_zero_of_orUnderflow hloop'
  have hinv := allOnes_div_ge hw hne
  have hinv' := allOnes_div_ge hw' hne'
  have hinverted := gt_limb_iff.mpr hx
  replace hr' := Except.ok.inj hr'
  by_cases hneg : y < 0
  · rw [if_pos hneg] at hr
    simp only [hneg, hinverted, decide_true, Bool.xor_self, Bool.false_eq_true, if_false] at hr'
    rw [hr', hr] at hw'
    omega
  · rw [if_neg hneg] at hr
    simp only [hneg, hinverted, decide_true, decide_false, Bool.false_xor, if_true] at hr'
    rw [hr', hr] at hinv'
    omega

end Gap

end ArbitrageBot.Moe.Uint128x128Math
