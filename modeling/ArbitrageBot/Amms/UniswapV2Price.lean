import ArbitrageBot.Amms.UniswapV2
import ArbitrageBot.Lib.BinarySearch
import ArbitrageBot.Lib.WideDiv

/-!
# The price of a Uniswap V2 pool

`div_uu` divides two words to a 64.64 number. A dividend of more than 192 bits is first divided by
the divisor rounded up, and the quotient corrected by what remains. The remainder is kept in two
words and has to fit the lower one, which it does not for a divisor close to `2 ^ 256`.
-/

namespace ArbitrageBot

open Lib

def U128_0X10000000000000000 : Nat := 18446744073709551616

/-- `u8 as i8`. -/
def asI8 (n : UInt8) : Int := (n.toNat : Int).bmod (2 ^ 8)

/-- `if xc >= 1 << width { xc >>= width; msb += width; }`; the last step of the source does not
shift `xc` any more. -/
def msbStep (s : U256 × Nat) (width : Nat) : U256 × Nat :=
  if s.1 ≥ 1#256 <<< width then (s.1 >>> width, s.2 + width) else s

/-- `answer` as it is first computed. -/
def firstAnswer (x y : U256) : U256 :=
  if x ≤ BitVec.ofNat 256 (2 ^ 192 - 1) then (x <<< 64) / y
  else
    let msb := ([32, 16, 8, 4, 2, 1].foldl msbStep (x >>> 192, 192)).2
    (x <<< (255 - msb)) / (((y - 1) >>> (msb - 191)) + 1)

def divUu (x y : U256) : Outcome AMMError Nat :=
  if y ≠ 0 then
    let answer := firstAnswer x y
    if answer > BitVec.ofNat 256 (2 ^ 128 - 1) then .ok 0
    else
      let hi := answer * (y >>> 128)
      let lo := answer * (y &&& BitVec.ofNat 256 (2 ^ 128 - 1))
      let xh := x >>> 192
      let xl := x <<< 64
      let xh := if xl < lo then xh - 1 else xh
      let xl := xl - lo
      let lo := hi <<< 128
      let xh := if xl < lo then xh - 1 else xh
      let xl := xl - lo
      if xh ≠ hi >>> 128 then .error (.err (.uniswapV2Error .roundingError))
      else
        let answer := answer + xl / y
        if answer > BitVec.ofNat 256 (2 ^ 128 - 1) then .ok 0 else castU128 answer
  else .error (.err (.uniswapV2Error .divisionByZero))

/-- `calculate_price_64_x_64`. -/
def UniswapV2Pool.calculatePrice64X64 (prof : BuildProfile) (self : UniswapV2Pool)
    (baseToken : Address) : Outcome AMMError Nat := do
  let decimalShift ← prof.signed 8 (asI8 self.tokenA.decimals - asI8 self.tokenB.decimals)
  let (r0, r1) ←
    if decimalShift < 0 then do
      let scale ← prof.unsigned 128 (10 ^ decimalShift.natAbs)
      pure (BitVec.ofNat 256 self.reserve0 * BitVec.ofNat 256 scale,
        BitVec.ofNat 256 self.reserve1)
    else do
      let scale ← prof.unsigned 128 (10 ^ decimalShift.natAbs)
      pure (BitVec.ofNat 256 self.reserve0,
        BitVec.ofNat 256 self.reserve1 * BitVec.ofNat 256 scale)
  if baseToken = self.tokenA.address then
    if r0 = 0 then return U128_0X10000000000000000 else divUu r1 r0
  else if r1 = 0 then return U128_0X10000000000000000 else divUu r0 r1

/-! ## The first answer -/

section Division

variable {x y : U256}

/-- The divisor rounded up to a multiple of `2 ^ s`. -/
def roundedUp (s d : Nat) : Nat := 2 ^ s * ((d - 1) / 2 ^ s + 1)

/-- The divisor of the first answer. -/
def firstDivisor (x y : Nat) : Nat := if x < 2 ^ 192 then y else roundedUp (x.log2 - 191) y

theorem foldl_msbStep (ws : List Nat) (hws : ∀ w ∈ ws, w < 256) (base acc : Nat) :
    (ws.foldl msbStep (x >>> acc, base + acc)).2 =
      base + BinarySearch.climb (fun s => 2 ^ s ≤ x.toNat) ws acc := by
  induction ws generalizing acc with
  | nil => rfl
  | cons w ws ih =>
    have hrest : ∀ w ∈ ws, w < 256 := fun w hw => hws w (List.mem_cons_of_mem _ hw)
    have hpow : 2 ^ w < 2 ^ 256 := Nat.pow_lt_pow_right (by omega) (hws w List.mem_cons_self)
    have hiff : x >>> acc ≥ 1#256 <<< w ↔ 2 ^ (acc + w) ≤ x.toNat := by
      have hone : (1#256 <<< w).toNat = 2 ^ w := by
        rw [BitVec.toNat_shiftLeft, BitVec.toNat_ofNat, Nat.mod_eq_of_lt (by omega : 1 < 2 ^ 256),
          Nat.shiftLeft_eq, Nat.one_mul, Nat.mod_eq_of_lt hpow]
      rw [ge_iff_le, BitVec.le_def, hone, BitVec.toNat_ushiftRight, Nat.shiftRight_eq_div_pow,
        Nat.pow_add, Nat.mul_comm, Nat.le_div_iff_mul_le (Nat.two_pow_pos acc)]
    rw [List.foldl_cons, BinarySearch.climb, msbStep]
    by_cases h : 2 ^ (acc + w) ≤ x.toNat
    · rw [if_pos (hiff.mpr h), if_pos h, ← BitVec.shiftRight_add, Nat.add_assoc]
      exact ih hrest (acc + w)
    · rw [if_neg fun h' => h (hiff.mp h'), if_neg h]
      exact ih hrest acc

/-- The binary search ends at the highest bit. -/
theorem foldl_msbStep_eq_log2 (hx : 2 ^ 192 ≤ x.toNat) :
    ([32, 16, 8, 4, 2, 1].foldl msbStep (x >>> 192, 192)).2 = x.toNat.log2 := by
  have hlt := x.isLt
  have hval : (x >>> 192).toNat = x.toNat / 2 ^ 192 := by
    rw [BitVec.toNat_ushiftRight, Nat.shiftRight_eq_div_pow]
  have hpos : 2 ^ 0 ≤ (x >>> 192).toNat := by
    rw [hval, Nat.le_div_iff_mul_le (Nat.two_pow_pos 192)]
    omega
  have hend : ¬ 2 ^ (0 + 2 ^ 6) ≤ (x >>> 192).toNat := by
    rw [hval]
    omega
  obtain ⟨-, -, hle, hgt⟩ := BinarySearch.climb_spec
    (p := fun s => 2 ^ s ≤ (x >>> 192).toNat) hpos hend
  have hfold := foldl_msbStep (x := x >>> 192) [32, 16, 8, 4, 2, 1] (by decide) 192 0
  rw [BitVec.ushiftRight_zero] at hfold
  change (List.foldl msbStep (x >>> 192, 192) _).2 = _ at hfold
  rw [hfold]
  have hsteps : BinarySearch.steps 6 = [32, 16, 8, 4, 2, 1] := rfl
  rw [hsteps] at hle hgt
  generalize BinarySearch.climb (fun s => 2 ^ s ≤ (x >>> 192).toNat) [32, 16, 8, 4, 2, 1] 0 = D
    at hle hgt ⊢
  rw [hval, Nat.le_div_iff_mul_le (Nat.two_pow_pos 192), ← Nat.pow_add] at hle hgt
  refine ((Nat.log2_eq_iff (by omega)).mpr ⟨?_, ?_⟩).symm
  · rw [Nat.add_comm]
    exact hle
  · have hexp : 192 + D + 1 = D + 1 + 192 := by omega
    rw [hexp]
    exact Nat.lt_of_not_le hgt

theorem roundedUp_pos (s d : Nat) : 0 < roundedUp s d :=
  Nat.mul_pos (Nat.two_pow_pos s) (Nat.succ_pos _)

/-- Rounding up adds less than the step. -/
theorem roundedUp_bounds {s d : Nat} (hd : 0 < d) :
    d ≤ roundedUp s d ∧ roundedUp s d < d + 2 ^ s := by
  have hpos := Nat.two_pow_pos s
  have hsplit := Nat.div_add_mod (d - 1) (2 ^ s)
  have hlt := Nat.mod_lt (d - 1) hpos
  unfold roundedUp
  rw [Nat.mul_add]
  omega

theorem firstDivisor_pos (hy : 0 < y.toNat) : 0 < firstDivisor x.toNat y.toNat := by
  unfold firstDivisor
  split
  · exact hy
  · exact roundedUp_pos _ _

/-- The highest bit of a dividend of more than 192 bits. -/
theorem log2_range (hx : 2 ^ 192 ≤ x.toNat) : 192 ≤ x.toNat.log2 ∧ x.toNat.log2 ≤ 255 := by
  have hlt := x.isLt
  have hne : x.toNat ≠ 0 := by omega
  refine ⟨(Nat.le_log2 hne).mpr hx, ?_⟩
  have := (Nat.log2_lt hne).mpr hlt
  omega

/-- **The first answer** is the quotient by the first divisor. -/
theorem toNat_firstAnswer (hy : 0 < y.toNat) :
    (firstAnswer x y).toNat = x.toNat * 2 ^ 64 / firstDivisor x.toNat y.toNat := by
  have hlimit : x ≤ BitVec.ofNat 256 (2 ^ 192 - 1) ↔ x.toNat < 2 ^ 192 := by
    rw [BitVec.le_def, BitVec.toNat_ofNat]
    omega
  unfold firstAnswer firstDivisor
  by_cases hx : x.toNat < 2 ^ 192
  · rw [if_pos (hlimit.mpr hx), if_pos hx, BitVec.toNat_udiv, BitVec.toNat_shiftLeft,
      Nat.shiftLeft_eq, Nat.mod_eq_of_lt (by omega)]
  · rw [if_neg (mt hlimit.mp hx), if_neg hx]
    dsimp only
    rw [foldl_msbStep_eq_log2 (Nat.le_of_not_lt hx)]
    obtain ⟨hlo, hhi⟩ := log2_range (Nat.le_of_not_lt hx)
    have hlt : x.toNat < 2 ^ (x.toNat.log2 + 1) := Nat.lt_log2_self
    generalize x.toNat.log2 = L at hlo hhi hlt ⊢
    obtain ⟨s, rfl⟩ := Nat.exists_eq_add_of_le (by omega : 191 ≤ L)
    have hshift : 255 - (191 + s) = 64 - s := by omega
    have hpow : 2 ^ s * 2 ^ (64 - s) = 2 ^ 64 := by
      rw [← Nat.pow_add, Nat.add_sub_cancel' (by omega)]
    have hnum : x.toNat * 2 ^ (64 - s) < 2 ^ 256 := by
      calc x.toNat * 2 ^ (64 - s) < 2 ^ (191 + s + 1) * 2 ^ (64 - s) :=
            Nat.mul_lt_mul_of_pos_right hlt (Nat.two_pow_pos _)
        _ = 2 ^ 256 := by
            rw [← Nat.pow_add]
            congr 1
            omega
    have hone : (1 : U256).toNat = 1 := rfl
    have hpred : (y - 1).toNat = y.toNat - 1 := by
      have hyt := y.isLt
      rw [BitVec.toNat_sub, hone]
      omega
    have hhalf : (y.toNat - 1) / 2 ^ s ≤ y.toNat - 1 := Nat.div_le_self _ _
    have hyt := y.isLt
    rw [BitVec.toNat_udiv, BitVec.toNat_shiftLeft, Nat.shiftLeft_eq, hshift, Nat.mod_eq_of_lt hnum,
      BitVec.toNat_add, BitVec.toNat_ushiftRight, Nat.shiftRight_eq_div_pow, hpred, hone,
      Nat.add_sub_cancel_left, Nat.mod_eq_of_lt (by omega)]
    unfold roundedUp
    rw [← Nat.div_div_eq_div_mul, ← hpow, Nat.mul_left_comm,
      Nat.mul_div_cancel_left _ (Nat.two_pow_pos s)]

/-! ## The correction -/

theorem gt_lane_iff {w : U256} : w > BitVec.ofNat 256 (2 ^ 128 - 1) ↔ 2 ^ 128 ≤ w.toNat := by
  rw [gt_iff_lt, BitVec.lt_def, BitVec.toNat_ofNat]
  omega

/-- The two words of the dividend, less the two parts of `answer * y`: the lower word is the
remainder, and the higher one that of `answer * y` unless the remainder does not fit. -/
theorem remainder_words {answer : U256} (hA : answer.toNat < 2 ^ 128)
    (hle : answer.toNat * y.toNat ≤ x.toNat * 2 ^ 64) :
    let hi := answer * (y >>> 128)
    let lo := answer * (y &&& BitVec.ofNat 256 (2 ^ 128 - 1))
    let first := WideDiv.subRemainder (x <<< 64) (x >>> 192) lo
    let second := WideDiv.subRemainder first.1 first.2 (hi <<< 128)
    let r := x.toNat * 2 ^ 64 - answer.toNat * y.toNat
    second.1.toNat = r % 2 ^ 256 ∧ (second.2 = hi >>> 128 ↔ r < 2 ^ 256) := by
  intro hi lo first second r
  have hx := x.isLt
  have hy := y.isLt
  have hdiv : y.toNat / 2 ^ 128 < 2 ^ 128 := by omega
  have hmod : y.toNat % 2 ^ 128 < 2 ^ 128 := Nat.mod_lt _ (by omega)
  have hhi : hi.toNat = answer.toNat * (y.toNat / 2 ^ 128) := by
    have hlt := Nat.mul_lt_mul'' hA hdiv
    change (answer * (y >>> 128)).toNat = _
    rw [BitVec.toNat_mul, BitVec.toNat_ushiftRight, Nat.shiftRight_eq_div_pow,
      Nat.mod_eq_of_lt (by omega)]
  have hlo : lo.toNat = answer.toNat * (y.toNat % 2 ^ 128) := by
    have hlt := Nat.mul_lt_mul'' hA hmod
    change (answer * (y &&& BitVec.ofNat 256 (2 ^ 128 - 1))).toNat = _
    rw [BitVec.toNat_mul, BitVec.toNat_and, BitVec.toNat_ofNat,
      Nat.mod_eq_of_lt (by omega : 2 ^ 128 - 1 < 2 ^ 256), Nat.and_two_pow_sub_one_eq_mod,
      Nat.mod_eq_of_lt (by omega)]
  have hsplit : answer.toNat * y.toNat = hi.toNat * 2 ^ 128 + lo.toNat := by
    rw [hhi, hlo, Nat.mul_assoc, ← Nat.mul_add]
    congr 1
    omega
  have hhigh : (hi <<< 128).toNat = hi.toNat * 2 ^ 128 % 2 ^ 256 := by
    rw [BitVec.toNat_shiftLeft, Nat.shiftLeft_eq]
  have htop : (hi >>> 128).toNat = hi.toNat / 2 ^ 128 := by
    rw [BitVec.toNat_ushiftRight, Nat.shiftRight_eq_div_pow]
  have hp0 : (x <<< 64).toNat = x.toNat * 2 ^ 64 % 2 ^ 256 := by
    rw [BitVec.toNat_shiftLeft, Nat.shiftLeft_eq]
  have hp1 : (x >>> 192).toNat = x.toNat * 2 ^ 64 / 2 ^ 256 := by
    rw [BitVec.toNat_ushiftRight, Nat.shiftRight_eq_div_pow]
    omega
  have hlow : lo.toNat ≤ x.toNat * 2 ^ 64 := by omega
  obtain ⟨hfirst0, hfirst1⟩ := WideDiv.subRemainder_spec hp0 hp1 rfl hlow
  have hlow' : (hi <<< 128).toNat ≤ x.toNat * 2 ^ 64 - lo.toNat := by
    rw [hhigh]
    omega
  obtain ⟨hsecond0, hsecond1⟩ := WideDiv.subRemainder_spec hfirst0 hfirst1 rfl hlow'
  have hrest : x.toNat * 2 ^ 64 - lo.toNat - (hi <<< 128).toNat =
      r + hi.toNat / 2 ^ 128 * 2 ^ 256 := by
    rw [hhigh]
    omega
  rw [hrest] at hsecond0 hsecond1
  refine ⟨?_, ?_⟩
  · rw [hsecond0, Nat.add_mul_mod_self_right]
  · rw [← BitVec.toNat_inj, hsecond1, htop, Nat.add_mul_div_right _ _ (by omega)]
    omega

/-- The first answer is not above the quotient. -/
theorem firstAnswer_mul_le (hy : 0 < y.toNat) :
    x.toNat * 2 ^ 64 / firstDivisor x.toNat y.toNat * y.toNat ≤ x.toNat * 2 ^ 64 := by
  have hge : y.toNat ≤ firstDivisor x.toNat y.toNat := by
    unfold firstDivisor
    split
    · exact Nat.le_refl _
    · exact (roundedUp_bounds hy).1
  exact (Nat.mul_le_mul_left _ hge).trans (Nat.div_mul_le_self _ _)

/-- A first answer of 128 bits leaves a quotient of 129. -/
theorem div_lt_of_firstAnswer_lt (hy : 0 < y.toNat)
    (hA : x.toNat * 2 ^ 64 / firstDivisor x.toNat y.toNat < 2 ^ 128) :
    x.toNat * 2 ^ 64 / y.toNat < 2 ^ 129 := by
  rw [Nat.div_lt_iff_lt_mul (firstDivisor_pos hy)] at hA
  rw [Nat.div_lt_iff_lt_mul hy]
  unfold firstDivisor at hA
  split at hA
  · omega
  · rename_i hx
    obtain ⟨hlo, hhi⟩ := log2_range (Nat.le_of_not_lt hx)
    have hge : 2 ^ x.toNat.log2 ≤ x.toNat := Nat.log2_self_le (by omega)
    obtain ⟨-, hlt⟩ := @roundedUp_bounds (x.toNat.log2 - 191) y.toNat hy
    generalize roundedUp (x.toNat.log2 - 191) y.toNat = d at hA hlt
    -- The dividend has so many bits that the divisor has more than the step it is rounded by.
    have hstep : 2 * 2 ^ (x.toNat.log2 - 191) ≤ d := by
      generalize x.toNat.log2 = L at hlo hhi hge ⊢
      obtain ⟨s, rfl⟩ := Nat.exists_eq_add_of_le (by omega : 191 ≤ L)
      rw [Nat.add_sub_cancel_left]
      rw [Nat.pow_add] at hge
      omega
    omega

/-- **The division**, by its first answer: the correction is exact unless the remainder does not fit
a word. -/
theorem divUu_eq (hy : y ≠ 0) : divUu x y =
    if 2 ^ 128 ≤ x.toNat * 2 ^ 64 / firstDivisor x.toNat y.toNat then .ok 0
    else if 2 ^ 256 ≤ x.toNat * 2 ^ 64 -
        x.toNat * 2 ^ 64 / firstDivisor x.toNat y.toNat * y.toNat then
      .error (.err (.uniswapV2Error .roundingError))
    else if 2 ^ 128 ≤ x.toNat * 2 ^ 64 / y.toNat then .ok 0
    else .ok (x.toNat * 2 ^ 64 / y.toNat) := by
  have hpos := BitVec.toNat_pos_of_ne_zero hy
  have hfirst := toNat_firstAnswer (x := x) hpos
  have hmul := firstAnswer_mul_le (x := x) hpos
  unfold divUu
  rw [if_pos hy]
  dsimp only
  by_cases hlarge : 2 ^ 128 ≤ x.toNat * 2 ^ 64 / firstDivisor x.toNat y.toNat
  · rw [if_pos hlarge, if_pos (gt_lane_iff.mpr (hfirst ▸ hlarge))]
  · have hquot := div_lt_of_firstAnswer_lt hpos (Nat.lt_of_not_le hlarge)
    rw [if_neg hlarge, if_neg fun h => hlarge (hfirst ▸ gt_lane_iff.mp h)]
    rw [← hfirst] at hlarge hmul ⊢
    obtain ⟨hrest, htop⟩ := remainder_words (Nat.lt_of_not_le hlarge) hmul
    dsimp only [WideDiv.subRemainder, gt_iff_lt] at hrest htop
    by_cases hbig : 2 ^ 256 ≤ x.toNat * 2 ^ 64 - (firstAnswer x y).toNat * y.toNat
    · rw [if_pos hbig, if_pos fun h => absurd (htop.mp h) (Nat.not_lt.mpr hbig)]
    · have hlt := Nat.lt_of_not_le hbig
      rw [if_neg hbig, if_neg (not_not.mpr (htop.mpr hlt))]
      rw [Nat.mod_eq_of_lt hlt] at hrest
      have hsum : ∀ w : U256, w.toNat = x.toNat * 2 ^ 64 - (firstAnswer x y).toNat * y.toNat →
          (firstAnswer x y + w / y).toNat = x.toNat * 2 ^ 64 / y.toNat := by
        intro w hw
        have hle : (firstAnswer x y).toNat ≤ x.toNat * 2 ^ 64 / y.toNat :=
          (Nat.le_div_iff_mul_le hpos).mpr hmul
        rw [BitVec.toNat_add, BitVec.toNat_udiv, hw, Nat.mul_comm (firstAnswer x y).toNat,
          Nat.sub_mul_div, Nat.add_sub_cancel' hle, Nat.mod_eq_of_lt (by omega)]
      have hanswer := hsum _ hrest
      by_cases hfit : 2 ^ 128 ≤ x.toNat * 2 ^ 64 / y.toNat
      · rw [if_pos hfit, if_pos (gt_lane_iff.mpr (hanswer ▸ hfit))]
      · rw [if_neg hfit, if_neg fun h => hfit (hanswer ▸ gt_lane_iff.mp h),
          castU128_of_lt (by omega), hanswer]

/-- The quotient as a 64.64 number, zero where it does not fit. -/
def quotient64 (x y : Nat) : Nat := if x * 2 ^ 64 / y < 2 ^ 128 then x * 2 ^ 64 / y else 0

/-- The dividend has more than 192 bits, the first answer fits 128, and it is so far below the
quotient that `2 ^ 256` is left. -/
def Fails (x y : Nat) : Prop :=
  2 ^ 192 ≤ x ∧ x * 2 ^ 64 < 2 ^ 128 * roundedUp (x.log2 - 191) y ∧
    x * 2 ^ 64 < ((x * 2 ^ 64 - 2 ^ 256) / y + 1) * roundedUp (x.log2 - 191) y

theorem fails_iff (hy : 0 < y.toNat) : Fails x.toNat y.toNat ↔
    x.toNat * 2 ^ 64 / firstDivisor x.toNat y.toNat < 2 ^ 128 ∧
      2 ^ 256 ≤ x.toNat * 2 ^ 64 -
        x.toNat * 2 ^ 64 / firstDivisor x.toNat y.toNat * y.toNat := by
  by_cases hx : x.toNat < 2 ^ 192
  · refine iff_of_false (fun h => absurd h.1 (Nat.not_le.mpr hx)) fun h => ?_
    have hlt := y.isLt
    have hsplit := Nat.div_add_mod (x.toNat * 2 ^ 64) y.toNat
    have hmod := Nat.mod_lt (x.toNat * 2 ^ 64) hy
    have hrest := h.2
    rw [firstDivisor, if_pos hx, Nat.mul_comm _ y.toNat] at hrest
    omega
  · have hpos := roundedUp_pos (x.toNat.log2 - 191) y.toNat
    unfold Fails firstDivisor
    rw [if_neg hx, and_iff_right (Nat.le_of_not_lt hx), Nat.div_lt_iff_lt_mul hpos]
    refine and_congr_right fun _ => ?_
    rw [← Nat.div_lt_iff_lt_mul hpos, Nat.lt_succ_iff, Nat.le_div_iff_mul_le hy]
    omega

/-- **The division is exact unless it fails.** -/
theorem divUu_exact_iff (hy : y ≠ 0) :
    divUu x y = .ok (quotient64 x.toNat y.toNat) ↔ ¬ Fails x.toNat y.toNat := by
  have hpos := BitVec.toNat_pos_of_ne_zero hy
  rw [divUu_eq hy, fails_iff hpos]
  unfold quotient64
  by_cases hlarge : 2 ^ 128 ≤ x.toNat * 2 ^ 64 / firstDivisor x.toNat y.toNat
  · have hle : x.toNat * 2 ^ 64 / firstDivisor x.toNat y.toNat ≤ x.toNat * 2 ^ 64 / y.toNat :=
      (Nat.le_div_iff_mul_le hpos).mpr (firstAnswer_mul_le hpos)
    rw [if_pos hlarge, if_neg (by omega)]
    exact iff_of_true rfl fun h => absurd h.1 (Nat.not_lt.mpr hlarge)
  · rw [if_neg hlarge, and_iff_right (Nat.lt_of_not_le hlarge)]
    by_cases hbig : 2 ^ 256 ≤ x.toNat * 2 ^ 64 -
        x.toNat * 2 ^ 64 / firstDivisor x.toNat y.toNat * y.toNat
    · rw [if_pos hbig]
      exact iff_of_false nofun (not_not.mpr hbig)
    · rw [if_neg hbig]
      by_cases hfit : 2 ^ 128 ≤ x.toNat * 2 ^ 64 / y.toNat
      · rw [if_pos hfit, if_neg (Nat.not_lt.mpr hfit)]
        exact iff_of_true rfl hbig
      · rw [if_neg hfit, if_pos (Nat.lt_of_not_le hfit)]
        exact iff_of_true rfl hbig

/-- Only a divisor close to `2 ^ 256` leaves so much. -/
theorem Fails.lt_add (h : Fails x.toNat y.toNat) (hy : 0 < y.toNat) :
    2 ^ 256 < y.toNat + 2 ^ 193 := by
  obtain ⟨hlo, hhi⟩ := log2_range h.1
  obtain ⟨hA, hrest⟩ := (fails_iff hy).mp h
  rw [firstDivisor, if_neg (Nat.not_lt.mpr h.1)] at hA hrest
  obtain ⟨hge, hlt⟩ := @roundedUp_bounds (x.toNat.log2 - 191) y.toNat hy
  have hstep : 2 ^ (x.toNat.log2 - 191) ≤ 2 ^ 64 := Nat.pow_le_pow_right (by omega) (by omega)
  have hpos := roundedUp_pos (x.toNat.log2 - 191) y.toNat
  generalize roundedUp (x.toNat.log2 - 191) y.toNat = d at hA hrest hge hlt hpos
  have hsplit := Nat.div_add_mod (x.toNat * 2 ^ 64) d
  have hmod := Nat.mod_lt (x.toNat * 2 ^ 64) hpos
  generalize x.toNat * 2 ^ 64 / d = A at hA hrest hsplit
  obtain ⟨e, rfl⟩ := Nat.exists_eq_add_of_le hge
  have he : A * e ≤ 2 ^ 128 * 2 ^ 64 := Nat.mul_le_mul hA.le (by omega)
  rw [Nat.mul_comm, Nat.mul_add] at hsplit
  omega

end Division

/-! ## The price -/

namespace UniswapV2Pool

variable {prof : BuildProfile} {pool : UniswapV2Pool} {baseToken : Address} {scale : Nat}

/-- `token_a.decimals - token_b.decimals`, over the integers. -/
def decimalDifference (self : UniswapV2Pool) : Int :=
  (self.tokenA.decimals.toNat : Int) - self.tokenB.decimals.toNat

/-- The reserve that is scaled is the one of the token with fewer decimals. -/
def scaledReserves (self : UniswapV2Pool) (scale : Nat) : Nat × Nat :=
  if self.decimalDifference < 0 then (self.reserve0 * scale, self.reserve1)
  else (self.reserve0, self.reserve1 * scale)

/-- The price of the base token, as a fraction. -/
def priceFraction (self : UniswapV2Pool) (baseToken : Address) (scale : Nat) : Nat × Nat :=
  if baseToken = self.tokenA.address then (self.scaledReserves scale).swap
  else self.scaledReserves scale

/-- The power of ten between the decimals. -/
def decimalScale (self : UniswapV2Pool) : Nat := 10 ^ self.decimalDifference.natAbs

/-- The floor of the 64.64 price, with a given scale. -/
def price64 (self : UniswapV2Pool) (baseToken : Address) (scale : Nat) : Nat :=
  (self.priceFraction baseToken scale).1 * 2 ^ 64 / (self.priceFraction baseToken scale).2

/-- A pool with reserves that scale to 256 bits, and a price below `2 ^ 64`. -/
structure Priced (pool : UniswapV2Pool) (baseToken : Address) : Prop where
  reserve0 : 0 < pool.reserve0 ∧ pool.reserve0 < 2 ^ 128
  reserve1 : 0 < pool.reserve1 ∧ pool.reserve1 < 2 ^ 128
  scaled0 : (pool.scaledReserves pool.decimalScale).1 < 2 ^ 256
  scaled1 : (pool.scaledReserves pool.decimalScale).2 < 2 ^ 256
  price : pool.price64 baseToken pool.decimalScale < 2 ^ 128

/-- The denominator of the price is the reserve that is scaled. -/
def ScalesDenominator (pool : UniswapV2Pool) (baseToken : Address) : Prop :=
  baseToken = pool.tokenA.address ↔ pool.decimalDifference < 0

theorem asI8_eq (n : UInt8) :
    asI8 n = if n.toNat < 128 then (n.toNat : Int) else n.toNat - 256 := by
  have hlt := n.toNat_lt
  unfold asI8
  rw [Int.bmod_def]
  split
  · rw [if_pos (by omega)]
    omega
  · rw [if_neg (by omega)]
    omega

/-- The difference as the code computes it: the operands of one sign do not overflow. -/
theorem decimalShift_eq (h : pool.decimalDifference.natAbs ≤ 77) :
    (prof.signed 8 (asI8 pool.tokenA.decimals - asI8 pool.tokenB.decimals) :
      Outcome AMMError Int) =
      if prof.overflowChecks = true ∧
          ¬ (pool.tokenA.decimals.toNat < 128 ↔ pool.tokenB.decimals.toNat < 128) then
        .error .panic
      else .ok pool.decimalDifference := by
  have ha := pool.tokenA.decimals.toNat_lt
  have hb := pool.tokenB.decimals.toNat_lt
  rw [asI8_eq, asI8_eq]
  unfold decimalDifference at h ⊢
  generalize pool.tokenA.decimals.toNat = a at *
  generalize pool.tokenB.decimals.toNat = b at *
  by_cases hsame : a < 128 ↔ b < 128
  · have hvalue :
        (if a < 128 then (a : Int) else a - 256) - (if b < 128 then (b : Int) else b - 256) =
        (a : Int) - b := by
      by_cases hlow : a < 128
      · rw [if_pos hlow, if_pos (hsame.mp hlow)]
      · rw [if_neg hlow, if_neg fun hb => hlow (hsame.mpr hb)]
        omega
    rw [hvalue, BuildProfile.signed_of_range (by omega) (by omega), if_neg fun hbad => hbad.2 hsame]
  · have hvalue : ∃ e : Int, (e = 256 ∨ e = -256) ∧
        (if a < 128 then (a : Int) else a - 256) - (if b < 128 then (b : Int) else b - 256) =
          (a : Int) - b + e := by
      by_cases hlow : a < 128
      · rw [if_pos hlow, if_neg fun hb => hsame (iff_of_true hlow hb)]
        exact ⟨256, Or.inl rfl, by omega⟩
      · have hb : b < 128 := by
          by_contra hb
          exact hsame (iff_of_false hlow hb)
        rw [if_neg hlow, if_pos hb]
        exact ⟨-256, Or.inr rfl, by omega⟩
    obtain ⟨e, he, hvalue⟩ := hvalue
    have hout : ¬ (-(2 : Int) ^ (8 - 1) ≤ (a : Int) - b + e ∧ (a : Int) - b + e < 2 ^ (8 - 1)) := by
      omega
    rw [hvalue]
    unfold BuildProfile.signed
    rw [if_neg hout]
    by_cases hchecks : prof.overflowChecks = true
    · rw [if_pos hchecks, if_pos ⟨hchecks, hsame⟩]
    · rw [if_neg hchecks, if_neg fun hbad => hchecks hbad.1, Int.bmod_def]
      congr 1
      split <;> omega

/-- Powers of ten up to the 38th fit 128 bits. -/
theorem pow_ten_lt_iff {n : Nat} : 10 ^ n < 2 ^ 128 ↔ n ≤ 38 := by
  constructor
  · intro h
    by_contra hge
    have hmono : 10 ^ 39 ≤ 10 ^ n := Nat.pow_le_pow_right (by omega) (by omega)
    omega
  · intro h
    have hmono : 10 ^ n ≤ 10 ^ 38 := Nat.pow_le_pow_right (by omega) h
    omega

theorem pow_ten_mod_range : ∀ n < 78, 38 < n →
    2 ^ 64 ≤ 10 ^ n % 2 ^ 128 ∧ 10 ^ n % 2 ^ 128 + 2 ^ 66 < 2 ^ 128 := by decide +kernel

/-- The power as the code raises it. -/
theorem unsigned_decimalScale :
    (prof.unsigned 128 (10 ^ pool.decimalDifference.natAbs) : Outcome AMMError Nat) =
      if pool.decimalDifference.natAbs ≤ 38 then .ok pool.decimalScale
      else if prof.overflowChecks then .error .panic else .ok (pool.decimalScale % 2 ^ 128) := by
  have hcast : ((10 : Int) ^ pool.decimalDifference.natAbs) = (pool.decimalScale : Int) := by
    rw [decimalScale, Nat.cast_pow]
    rfl
  have hiff := @pow_ten_lt_iff pool.decimalDifference.natAbs
  change pool.decimalScale < 2 ^ 128 ↔ _ at hiff
  rw [hcast]
  by_cases hn : pool.decimalDifference.natAbs ≤ 38
  · have hlt := hiff.mpr hn
    rw [if_pos hn, BuildProfile.unsigned_of_range (by omega) (by omega), Int.toNat_natCast]
  · have hge := mt hiff.mp hn
    unfold BuildProfile.unsigned
    rw [if_neg hn, if_neg (by omega)]
    split
    · rfl
    · rfl

theorem scaledReserves_of_neg (h : pool.decimalDifference < 0) :
    pool.scaledReserves scale = (pool.reserve0 * scale, pool.reserve1) := if_pos h

theorem scaledReserves_of_nonneg (h : ¬ pool.decimalDifference < 0) :
    pool.scaledReserves scale = (pool.reserve0, pool.reserve1 * scale) := if_neg h

/-- A scale in range keeps the reserves within a word. -/
structure Scales (pool : UniswapV2Pool) (scale : Nat) : Prop where
  pos : 0 < scale
  le : scale ≤ pool.decimalScale

namespace Priced

variable (h : pool.Priced baseToken)
include h

theorem decimals_le : pool.decimalDifference.natAbs ≤ 77 := by
  by_contra hgt
  have hpow : 10 ^ 78 ≤ pool.decimalScale := Nat.pow_le_pow_right (by omega) (by omega)
  have h0 := h.scaled0
  have h1 := h.scaled1
  have hr0 := h.reserve0.1
  have hr1 := h.reserve1.1
  by_cases hneg : pool.decimalDifference < 0
  · rw [scaledReserves_of_neg hneg] at h0
    have := Nat.le_mul_of_pos_left pool.decimalScale hr0
    omega
  · rw [scaledReserves_of_nonneg hneg] at h1
    have := Nat.le_mul_of_pos_left pool.decimalScale hr1
    omega

theorem scaled_lt (hs : pool.Scales scale) :
    (pool.scaledReserves scale).1 < 2 ^ 256 ∧ (pool.scaledReserves scale).2 < 2 ^ 256 := by
  have h0 := h.scaled0
  have h1 := h.scaled1
  by_cases hneg : pool.decimalDifference < 0
  · rw [scaledReserves_of_neg hneg] at h0 h1 ⊢
    exact ⟨(Nat.mul_le_mul_left _ hs.le).trans_lt h0, h1⟩
  · rw [scaledReserves_of_nonneg hneg] at h0 h1 ⊢
    exact ⟨h0, (Nat.mul_le_mul_left _ hs.le).trans_lt h1⟩

theorem scaled_pos (hs : pool.Scales scale) :
    0 < (pool.scaledReserves scale).1 ∧ 0 < (pool.scaledReserves scale).2 := by
  unfold scaledReserves
  split
  · exact ⟨Nat.mul_pos h.reserve0.1 hs.pos, h.reserve1.1⟩
  · exact ⟨h.reserve0.1, Nat.mul_pos h.reserve1.1 hs.pos⟩

/-- **The price** is the division of the scaled reserves, by the scale that the power comes to. -/
theorem calculatePrice64X64_eq (hs : pool.Scales scale)
    (hpow : (prof.unsigned 128 (10 ^ pool.decimalDifference.natAbs) : Outcome AMMError Nat) =
      .ok scale)
    (hside : prof.overflowChecks = true →
      (pool.tokenA.decimals.toNat < 128 ↔ pool.tokenB.decimals.toNat < 128)) :
    pool.calculatePrice64X64 prof baseToken =
      divUu (BitVec.ofNat 256 (pool.priceFraction baseToken scale).1)
        (BitVec.ofNat 256 (pool.priceFraction baseToken scale).2) := by
  have hshift := @decimalShift_eq prof pool h.decimals_le
  rw [if_neg fun hbad => hbad.2 (hside hbad.1)] at hshift
  have hne : ∀ {n : Nat}, 0 < n → n < 2 ^ 256 → BitVec.ofNat 256 n ≠ 0 := by
    intro n hpos hlt hzero
    have hval := congrArg BitVec.toNat hzero
    rw [BitVec.toNat_ofNat, Nat.mod_eq_of_lt hlt] at hval
    exact hpos.ne' hval
  obtain ⟨hpos0, hpos1⟩ := h.scaled_pos hs
  obtain ⟨hlt0, hlt1⟩ := h.scaled_lt hs
  unfold calculatePrice64X64 priceFraction
  rw [hshift]
  by_cases hneg : pool.decimalDifference < 0
  · rw [scaledReserves_of_neg hneg] at hpos0 hpos1 hlt0 hlt1 ⊢
    simp only [ok_bind, hneg, if_true, hpow, pure, Except.pure, ← BitVec.ofNat_mul]
    rw [if_neg (hne hpos0 hlt0), if_neg (hne hpos1 hlt1)]
    split
    · rfl
    · rfl
  · rw [scaledReserves_of_nonneg hneg] at hpos0 hpos1 hlt0 hlt1 ⊢
    simp only [ok_bind, hneg, if_false, hpow, pure, Except.pure, ← BitVec.ofNat_mul]
    rw [if_neg (hne hpos0 hlt0), if_neg (hne hpos1 hlt1)]
    split
    · rfl
    · rfl

/-- A power that panics is the end. -/
theorem calculatePrice64X64_eq_panic
    (hside : prof.overflowChecks = true →
      (pool.tokenA.decimals.toNat < 128 ↔ pool.tokenB.decimals.toNat < 128))
    (hpow : (prof.unsigned 128 (10 ^ pool.decimalDifference.natAbs) : Outcome AMMError Nat) =
      .error .panic) :
    pool.calculatePrice64X64 prof baseToken = .error .panic := by
  have hshift := @decimalShift_eq prof pool h.decimals_le
  rw [if_neg fun hbad => hbad.2 (hside hbad.1)] at hshift
  unfold calculatePrice64X64
  rw [hshift]
  simp only [ok_bind]
  split
  · rw [hpow]
    rfl
  · rw [hpow]
    rfl

/-- A scale below the largest words has a denominator that the division is exact for. -/
theorem divUu_eq_quotient64 (hs : pool.Scales scale) (hlt : scale + 2 ^ 66 < 2 ^ 128) :
    divUu (BitVec.ofNat 256 (pool.priceFraction baseToken scale).1)
        (BitVec.ofNat 256 (pool.priceFraction baseToken scale).2) =
      .ok (quotient64 (pool.priceFraction baseToken scale).1
        (pool.priceFraction baseToken scale).2) := by
  obtain ⟨hpos0, hpos1⟩ := h.scaled_pos hs
  obtain ⟨hlt0, hlt1⟩ := h.scaled_lt hs
  have hr0 := h.reserve0.2
  have hr1 := h.reserve1.2
  have hsmall : (pool.scaledReserves scale).1 + 2 ^ 193 ≤ 2 ^ 256 ∧
      (pool.scaledReserves scale).2 + 2 ^ 193 ≤ 2 ^ 256 := by
    unfold scaledReserves
    split
    · have := Nat.mul_le_mul hr0.le (by omega : scale ≤ 2 ^ 128 - 2 ^ 66)
      dsimp only
      omega
    · have := Nat.mul_le_mul hr1.le (by omega : scale ≤ 2 ^ 128 - 2 ^ 66)
      dsimp only
      omega
  have hquot : ∀ {a b : Nat}, a < 2 ^ 256 → 0 < b → b < 2 ^ 256 → b + 2 ^ 193 ≤ 2 ^ 256 →
      divUu (BitVec.ofNat 256 a) (BitVec.ofNat 256 b) = .ok (quotient64 a b) := by
    intro a b ha hb hb' hfar
    have hval : (BitVec.ofNat 256 b).toNat = b := by
      rw [BitVec.toNat_ofNat, Nat.mod_eq_of_lt hb']
    have hne : BitVec.ofNat 256 b ≠ 0 := by
      intro hzero
      rw [hzero] at hval
      exact hb.ne hval
    have hexact := (divUu_exact_iff (x := BitVec.ofNat 256 a) hne).mpr fun hfail => by
      have := hfail.lt_add (by omega)
      omega
    rwa [hval, BitVec.toNat_ofNat, Nat.mod_eq_of_lt ha] at hexact
  unfold priceFraction
  split
  · exact hquot hlt1 hpos0 hlt0 hsmall.1
  · exact hquot hlt0 hpos1 hlt1 hsmall.2

/-- One of the two reserves is scaled, below or above the line. -/
theorem priceFraction_cases :
    ∃ a r, a < 2 ^ 128 ∧ r < 2 ^ 128 ∧ 0 < a ∧ 0 < r ∧
      (pool.ScalesDenominator baseToken ∧
          (∀ scale, pool.priceFraction baseToken scale = (a, r * scale)) ∨
        ¬ pool.ScalesDenominator baseToken ∧
          ∀ scale, pool.priceFraction baseToken scale = (a * scale, r)) := by
  obtain ⟨hp0, hl0⟩ := h.reserve0
  obtain ⟨hp1, hl1⟩ := h.reserve1
  unfold ScalesDenominator priceFraction scaledReserves
  by_cases hbase : baseToken = pool.tokenA.address <;>
    by_cases hneg : pool.decimalDifference < 0 <;> simp only [hbase, hneg, if_true, if_false]
  · exact ⟨_, _, hl1, hl0, hp1, hp0, Or.inl ⟨trivial, fun _ => rfl⟩⟩
  · exact ⟨_, _, hl1, hl0, hp1, hp0, Or.inr ⟨fun hiff => hiff.mp trivial, fun _ => rfl⟩⟩
  · exact ⟨_, _, hl0, hl1, hp0, hp1, Or.inr ⟨fun hiff => hiff.mpr trivial, fun _ => rfl⟩⟩
  · exact ⟨_, _, hl0, hl1, hp0, hp1, Or.inl ⟨trivial, fun _ => rfl⟩⟩

end Priced

/-- The code reads the decimals as signed bytes and raises ten to their difference in 128 bits: both
have to fit, or the power to be of no matter. -/
def ExactScale (prof : BuildProfile) (pool : UniswapV2Pool) (baseToken : Address) : Prop :=
  (prof.overflowChecks = true →
      (pool.tokenA.decimals.toNat < 128 ↔ pool.tokenB.decimals.toNat < 128)) ∧
    (pool.decimalDifference.natAbs ≤ 38 ∨
      prof.overflowChecks = false ∧ pool.ScalesDenominator baseToken ∧
        (pool.priceFraction baseToken (pool.decimalScale % 2 ^ 128)).1 * 2 ^ 64 <
          (pool.priceFraction baseToken (pool.decimalScale % 2 ^ 128)).2)

/-- A quotient by more than twice the divisor is another one, unless both are zero. -/
theorem div_eq_div_iff_of_two_mul_le {n d e : Nat} (hd : 0 < d) (he : 2 * d ≤ e) :
    n / d = n / e ↔ n < d := by
  constructor
  · intro heq
    by_contra hge
    have hhalf : n / e ≤ n / d / 2 := by
      rw [Nat.div_div_eq_div_mul, Nat.mul_comm d]
      exact Nat.div_le_div_left he (by omega)
    have hone : 1 ≤ n / d := Nat.div_pos (Nat.le_of_not_lt hge) hd
    omega
  · intro hlt
    rw [Nat.div_eq_of_lt hlt, Nat.div_eq_of_lt (by omega)]

/-- The wrapped power makes another price, unless it is in the denominator and the price is zero. -/
theorem Priced.wrapped_iff (h : pool.Priced baseToken) (hn : 38 < pool.decimalDifference.natAbs) :
    quotient64 (pool.priceFraction baseToken (pool.decimalScale % 2 ^ 128)).1
        (pool.priceFraction baseToken (pool.decimalScale % 2 ^ 128)).2 =
      pool.price64 baseToken pool.decimalScale ↔
    pool.ScalesDenominator baseToken ∧
      (pool.priceFraction baseToken (pool.decimalScale % 2 ^ 128)).1 * 2 ^ 64 <
        (pool.priceFraction baseToken (pool.decimalScale % 2 ^ 128)).2 := by
  obtain ⟨hge, hlt⟩ := pow_ten_mod_range _ (by have := h.decimals_le; omega) hn
  have hlarge : 10 ^ 39 ≤ pool.decimalScale := Nat.pow_le_pow_right (by omega) hn
  have hprice := h.price
  change 2 ^ 64 ≤ pool.decimalScale % 2 ^ 128 at hge
  change pool.decimalScale % 2 ^ 128 + 2 ^ 66 < 2 ^ 128 at hlt
  unfold price64 at hprice ⊢
  obtain ⟨a, r, ha, hr, hapos, hrpos, ⟨hden, hfrac⟩ | ⟨hnum, hfrac⟩⟩ := h.priceFraction_cases
  · rw [and_iff_right hden]
    simp only [hfrac] at hprice ⊢
    have hpos : 0 < pool.decimalScale % 2 ^ 128 := by omega
    have hfit : a * 2 ^ 64 / (r * (pool.decimalScale % 2 ^ 128)) < 2 ^ 128 := by
      rw [Nat.div_lt_iff_lt_mul (Nat.mul_pos hrpos hpos)]
      have := Nat.mul_le_mul hrpos hge
      omega
    rw [quotient64, if_pos hfit]
    refine div_eq_div_iff_of_two_mul_le (Nat.mul_pos hrpos hpos) ?_
    rw [Nat.mul_left_comm]
    exact Nat.mul_le_mul_left _ (by omega)
  · refine iff_of_false ?_ fun hbad => hnum hbad.1
    simp only [hfrac] at hprice ⊢
    have hle : a * (pool.decimalScale % 2 ^ 128) * 2 ^ 64 / r + 1 ≤
        a * pool.decimalScale * 2 ^ 64 / r := by
      rw [← Nat.add_div_right _ hrpos]
      refine Nat.div_le_div_right ?_
      have hstep := Nat.mul_le_mul hapos
        (by omega : 2 ^ 128 ≤ pool.decimalScale - pool.decimalScale % 2 ^ 128)
      rw [Nat.mul_sub] at hstep
      omega
    have hlt' := Nat.lt_of_succ_le hle
    rw [quotient64, if_pos (hlt'.trans hprice)]
    exact hlt'.ne

/-- **The price is exact** where the scale is. -/
theorem Priced.exact_iff (h : pool.Priced baseToken) :
    pool.calculatePrice64X64 prof baseToken =
      .ok (pool.price64 baseToken pool.decimalScale) ↔ pool.ExactScale prof baseToken := by
  have hpos : 0 < pool.decimalScale := Nat.pow_pos (by omega)
  unfold ExactScale
  by_cases hside : prof.overflowChecks = true →
      (pool.tokenA.decimals.toNat < 128 ↔ pool.tokenB.decimals.toNat < 128)
  · rw [and_iff_right hside]
    by_cases hn : pool.decimalDifference.natAbs ≤ 38
    · refine iff_of_true ?_ (Or.inl hn)
      have hlt : pool.decimalScale ≤ 10 ^ 38 := Nat.pow_le_pow_right (by omega) hn
      have hscales : pool.Scales pool.decimalScale := ⟨hpos, Nat.le_refl _⟩
      have hfloor : quotient64 (pool.priceFraction baseToken pool.decimalScale).1
          (pool.priceFraction baseToken pool.decimalScale).2 =
            pool.price64 baseToken pool.decimalScale := if_pos h.price
      rw [h.calculatePrice64X64_eq hscales ?_ hside, h.divUu_eq_quotient64 hscales (by omega),
        hfloor]
      rw [unsigned_decimalScale, if_pos hn]
    · rw [or_iff_right hn]
      obtain ⟨hge, hlt⟩ := pow_ten_mod_range _ (by have := h.decimals_le; omega)
        (Nat.lt_of_not_le hn)
      change 2 ^ 64 ≤ pool.decimalScale % 2 ^ 128 at hge
      change pool.decimalScale % 2 ^ 128 + 2 ^ 66 < 2 ^ 128 at hlt
      have hpow := @unsigned_decimalScale prof pool
      rw [if_neg hn] at hpow
      cases hchecks : prof.overflowChecks with
      | true =>
        refine iff_of_false ?_ fun hbad => absurd hbad.1 (by simp)
        rw [h.calculatePrice64X64_eq_panic hside (by rw [hpow, if_pos hchecks])]
        exact nofun
      | false =>
        have hscales : pool.Scales (pool.decimalScale % 2 ^ 128) :=
          ⟨by omega, Nat.mod_le _ _⟩
        rw [h.calculatePrice64X64_eq hscales ?_ hside, h.divUu_eq_quotient64 hscales hlt,
          and_iff_right rfl, ← h.wrapped_iff (Nat.lt_of_not_le hn)]
        · exact ⟨fun heq => Except.ok.inj heq, fun heq => congrArg Except.ok heq⟩
        · rw [hpow, if_neg (by simp [hchecks])]
  · refine iff_of_false ?_ fun hbad => hside hbad.1
    have hshift := @decimalShift_eq prof pool h.decimals_le
    rw [if_pos (Classical.not_imp.mp hside)] at hshift
    unfold calculatePrice64X64
    rw [hshift]
    exact nofun

/-- **The 64.64 quotient and price**: the division is exact unless the first answer leaves more than
a word, and the price unless the decimals do not fit. -/
theorem quotient_and_price_exact_iff (prof : BuildProfile) (x y : U256) (hy : y ≠ 0)
    (pool : UniswapV2Pool) (baseToken : Address) (hpriced : pool.Priced baseToken) :
    (divUu x y = .ok (quotient64 x.toNat y.toNat) ↔ ¬ Fails x.toNat y.toNat) ∧
      (pool.calculatePrice64X64 prof baseToken =
        .ok (pool.price64 baseToken pool.decimalScale) ↔ pool.ExactScale prof baseToken) :=
  ⟨divUu_exact_iff hy, hpriced.exact_iff⟩

/-- Half of the largest word over one close to it: the first answer is one short of `2 ^ 63`, and
what it leaves does not fit a word. -/
theorem divUu_half_of_top :
    divUu (BitVec.ofNat 256 (2 ^ 255 - 1)) (BitVec.ofNat 256 (2 ^ 256 - 4)) =
        .error (.err (.uniswapV2Error .roundingError)) ∧
      (2 ^ 255 - 1) * 2 ^ 64 / (2 ^ 256 - 4) = 2 ^ 63 := by
  constructor
  · decide +kernel
  · decide

/-- A pool of an 18-decimals and a 6-decimals token. -/
def samplePool : UniswapV2Pool :=
  { address := 1, tokenA := { address := 2, decimals := 18 },
    tokenB := { address := 3, decimals := 6 }, reserve0 := 2 * 10 ^ 18, reserve1 := 5 * 10 ^ 9,
    fee := 300 }

/-- A dividend that is above `2 ^ 192`. -/
theorem samplePool_exact :
    (divUu (BitVec.ofNat 256 (2 ^ 200)) (BitVec.ofNat 256 (10 ^ 45)) =
        .ok (quotient64 (2 ^ 200) (10 ^ 45)) ↔ ¬ Fails (2 ^ 200) (10 ^ 45)) ∧
      (samplePool.calculatePrice64X64 { overflowChecks := true } 2 =
        .ok (samplePool.price64 2 samplePool.decimalScale) ↔
          samplePool.ExactScale { overflowChecks := true } 2) :=
  quotient_and_price_exact_iff { overflowChecks := true } (BitVec.ofNat 256 (2 ^ 200))
    (BitVec.ofNat 256 (10 ^ 45)) (by decide) samplePool 2
    ⟨by decide, by decide, by decide +kernel, by decide +kernel, by decide +kernel⟩

end UniswapV2Pool

end ArbitrageBot
