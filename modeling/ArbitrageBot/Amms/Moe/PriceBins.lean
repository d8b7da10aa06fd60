import ArbitrageBot.Amms.Moe.LogBounds
import ArbitrageBot.Amms.Moe.Power

/-!
# The bin of a price

`get_id_from_price` divides the logarithm of a price by that of the base. It leads back to the bin
of the price, or the one before it on the way from the middle, as long as both logarithms fit.
-/

namespace ArbitrageBot

open Lib BinaryLog

/-! ## price_helper -/

namespace Moe.PriceHelper

/-- `/` on `i128` panics on a zero divisor, and where the quotient does not fit. -/
def divI128 (x y : Int) : MathOutcome Int :=
  if y = 0 ∨ x = -2 ^ 127 ∧ y = -1 then .error .panic else .ok (x.tdiv y)

/-- An error of `log2` panics. -/
def getIdFromPrice (prof : BuildProfile) (price : U256) (binStep : Nat) : MathOutcome Nat := do
  let priceLog ← (Uint128x128Math.log2 prof price).mapError fun _ => .panic
  let baseLog ← (Uint128x128Math.log2 prof (getBase binStep)).mapError fun _ => .panic
  let realId ← divI128 priceLog baseLog
  let id ← prof.signed 32 (REAL_ID_SHIFT + realId.bmod (2 ^ 32))
  return (id % 2 ^ 32).toNat

end Moe.PriceHelper

/-! ## Prices and bins -/

namespace Moe.PriceHelper

open Logarithm Uint128x128Math

variable {prof : BuildProfile} {price w result squared : U256} {id binStep k rounds power : Nat}

/-- The loop of `pow` multiplies truncated numbers. -/
theorem powLoop_eq_truncPow (hres : result.toNat ≤ 2 ^ 128) (hsq : squared.toNat < 2 ^ 128)
    (h : powLoop rounds power result squared = .ok w) :
    w.toNat = truncPow 128 rounds power result.toNat squared.toNat := by
  induction rounds generalizing power result squared with
  | zero =>
    cases h
    rfl
  | succ rounds ih =>
    obtain ⟨-, hprod, hlt⟩ := toNat_mul_shift hres hsq
    obtain ⟨-, hsquare, hlt'⟩ := toNat_mul_shift hsq.le hsq
    unfold powLoop at h
    unfold truncPow
    dsimp only at h
    by_cases hpower : power = 0
    · rw [if_pos hpower] at h ⊢
      cases h
      rfl
    rw [if_neg hpower] at h ⊢
    by_cases hodd : power % 2 = 1
    · rw [if_pos hodd] at h ⊢
      split at h
      · cases h
      · rw [← hprod, ← hsquare]
        exact ih hlt.le hlt' h
    · rw [if_neg hodd] at h ⊢
      rw [← hsquare]
      exact ih hres hlt' h

theorem toNat_getBase (hstep : binStep ≤ 200) : (getBase binStep).toNat = base binStep := by
  have hscale : SCALE.toNat = 2 ^ 128 := rfl
  have hten : (BitVec.ofNat 256 BASIS_POINT_MAX_U128).toNat = 10000 := rfl
  have hoff : SCALE_OFFSET = 128 := rfl
  unfold getBase base
  rw [BitVec.toNat_add, BitVec.toNat_udiv, BitVec.toNat_shiftLeft, BitVec.toNat_ofNat, hscale, hten,
    hoff, Nat.shiftLeft_eq, Nat.mod_eq_of_lt (by omega : binStep < 2 ^ 256),
    Nat.mod_eq_of_lt (by omega : binStep * 2 ^ 128 < 2 ^ 256), Nat.mod_eq_of_lt (by omega)]

/-- The loop of `pow` over the inverse of the base. -/
theorem powLoop_powered (hstep1 : 1 ≤ binStep) (hstep : binStep ≤ 200) (hk0 : k ≠ 0)
    (hk : k < 0x100000)
    (h : powLoop 128 k SCALE (BitVec.allOnes 256 / getBase binStep) = .ok w) :
    w.toNat = powered binStep k ∧ 0 < w.toNat ∧ w.toNat < 2 ^ 128 := by
  have hge : 2 ^ 128 < base binStep := by
    unfold base
    omega
  have hsquared : (BitVec.allOnes 256 / getBase binStep).toNat = (2 ^ 256 - 1) / base binStep := by
    rw [BitVec.toNat_udiv, BitVec.toNat_allOnes, toNat_getBase hstep]
  have hlt : (2 ^ 256 - 1) / base binStep < 2 ^ 128 := by
    rw [Nat.div_lt_iff_lt_mul (by omega)]
    omega
  have hscale : SCALE.toNat = 2 ^ 128 := rfl
  have hval := powLoop_eq_truncPow (Nat.le_refl _) (hsquared ▸ hlt) h
  rw [hscale, hsquared] at hval
  have hne : w ≠ 0 := by
    have hlines := @powLoop_lines (k : Int) hk (BitVec.allOnes 256 / getBase binStep)
    rw [Int.natAbs_natCast, h] at hlines
    exact ne_zero_of_orUnderflow hlines.symm
  exact ⟨hval, BitVec.toNat_pos_of_ne_zero hne, powLoop_lt (.inr ⟨hk0, by omega⟩) h⟩

/-- The number of bins from the middle. -/
def distance (id : Nat) : Nat := ((id : Int) - 2 ^ 23).natAbs

/-- A price is 1, a power of the inverse of the base, or the inverse of one. -/
theorem getPriceFromId_cases (hstep1 : 1 ≤ binStep) (hstep : binStep ≤ 200) (hid : id < 2 ^ 24)
    (h : getPriceFromId prof id binStep = .ok price) :
    (id = 2 ^ 23 ∧ price = SCALE) ∨
      (distance id < 2 ^ 20 ∧ 0 < powered binStep (distance id) ∧
        powered binStep (distance id) < 2 ^ 128 ∧
        (id < 2 ^ 23 ∧ price.toNat = powered binStep (distance id) ∨
          2 ^ 23 < id ∧ price.toNat = (2 ^ 256 - 1) / powered binStep (distance id))) := by
  have hexp : getExponent prof id = .ok ((id : Int) - 2 ^ 23) := by
    unfold getExponent REAL_ID_SHIFT
    rw [Int.bmod_eq_of_le (by omega) (by omega),
      BuildProfile.signed_of_range (by norm_num; omega) (by norm_num; omega)]
  unfold getPriceFromId at h
  rw [hexp, ok_bind] at h
  have hpow : pow prof (getBase binStep) ((id : Int) - 2 ^ 23) = .ok price := by
    cases hp : pow prof (getBase binStep) ((id : Int) - 2 ^ 23) with
    | error e =>
      rw [hp] at h
      cases h
    | ok v =>
      rw [hp] at h
      cases h
      rfl
  by_cases hmid : (id : Int) - 2 ^ 23 = 0
  · rw [hmid] at hpow
    cases hpow
    exact .inl ⟨by omega, rfl⟩
  right
  have hsmall : ((id : Int) - 2 ^ 23).natAbs < 0x100000 := by
    by_contra hlarge
    rw [pow_of_large (by omega) hmid (by omega)] at hpow
    cases hpow
  have hge : 2 ^ 128 ≤ base binStep := Nat.le_add_right _ _
  have hbase := toNat_getBase hstep
  have hinverted := gt_limb_iff.mpr (by omega : 2 ^ 64 ≤ (getBase binStep).toNat)
  rw [pow_of_lt prof hmid hsmall, if_pos hinverted, bind_eq_ok] at hpow
  obtain ⟨w, hloop, hprice⟩ := hpow
  obtain ⟨hval, hpos, hword⟩ := powLoop_powered hstep1 hstep (by omega) hsmall hloop
  change w.toNat = powered binStep (distance id) at hval
  rw [hval] at hpos hword
  replace hprice := Except.ok.inj hprice
  refine ⟨hsmall, hpos, hword, ?_⟩
  by_cases hneg : (id : Int) - 2 ^ 23 < 0
  · simp only [hneg, hinverted, decide_true, Bool.xor_self, Bool.false_eq_true, if_false] at hprice
    exact .inl ⟨by omega, by rw [← hprice, hval]⟩
  · simp only [hneg, hinverted, decide_true, decide_false, Bool.false_xor, if_true] at hprice
    refine .inr ⟨by omega, ?_⟩
    rw [← hprice, BitVec.toNat_udiv, BitVec.toNat_allOnes, hval]

/-! ### The way back -/

/-- The quotient of two logarithms is that of their magnitudes. -/
theorem divI128_eq {r M : Nat} (hM : 0 < M) (x : Nat) :
    divI128 ((r : Int) * sign x * 2) ((M : Int) * 2) = .ok (sign x * (r / M : Nat)) := by
  have hdiv : r * 2 / (M * 2) = r / M := Nat.mul_div_mul_right _ _ two_pos
  have hcast : ((r : Int) * 2).tdiv ((M : Int) * 2) = (r / M : Nat) := by
    rw [← hdiv]
    rfl
  have hquot : ((r : Int) * sign x * 2).tdiv ((M : Int) * 2) = sign x * (r / M : Nat) := by
    unfold sign
    split
    · rw [mul_one, one_mul, hcast]
    · rw [mul_neg_one, neg_one_mul, neg_mul, Int.neg_tdiv, hcast]
  unfold divI128
  rw [if_neg (by omega), hquot]

/-- The bin of a price whose logarithm is a number of bins but for less than one. -/
theorem getIdFromPrice_eq (hstep1 : 1 ≤ binStep) (hstep : binStep ≤ 200) (h2 : 2 ≤ price.toNat)
    (hfits : magnitude price.toNat < 2 ^ 126) (hk : k < 2 ^ 20)
    (hlo : k * magnitude (base binStep) ≤ magnitude price.toNat + magnitude (base binStep))
    (hhi : magnitude price.toNat < (k + 1) * magnitude (base binStep)) :
    ∃ id', getIdFromPrice prof price binStep = .ok id' ∧ ∃ q : Nat, q ≤ k ∧ k ≤ q + 1 ∧
      (id' : Int) = 2 ^ 23 + sign price.toNat * q := by
  obtain ⟨hbase, -, -⟩ := magnitude_base hstep1 hstep
  have hgetBase := toNat_getBase hstep
  have hge : 2 ^ 128 ≤ base binStep := Nat.le_add_right _ _
  have hpos : 0 < magnitude (base binStep) := by
    by_contra h0
    rw [Nat.eq_zero_of_not_pos h0] at hhi
    omega
  have hbaseSign : sign (base binStep) = 1 := if_pos (by omega)
  have hprice := (@log2_eq prof price h2 hfits).1
  have hbaseLog := (@log2_eq prof (getBase binStep) (by omega) (by rwa [hgetBase])).1
  rw [hgetBase, hbaseSign, mul_one] at hbaseLog
  have hdivI := @divI128_eq (magnitude price.toNat) _ hpos price.toNat
  generalize magnitude (base binStep) = M at *
  generalize magnitude price.toNat = r at *
  have hq : r / M ≤ k := Nat.lt_succ_iff.mp ((Nat.div_lt_iff_lt_mul hpos).mpr hhi)
  have hq' : k ≤ r / M + 1 := by
    rw [← Nat.add_div_right _ hpos, Nat.le_div_iff_mul_le hpos]
    exact hlo
  generalize r / M = q at hq hq' hdivI
  obtain ⟨hmin, hmax⟩ := mul_sign_range (by omega : q < 2 ^ 20) price.toNat
  rw [mul_comm] at hmin hmax
  push_cast at hmin hmax
  have hid : (REAL_ID_SHIFT + (sign price.toNat * q).bmod (2 ^ 32)) =
      2 ^ 23 + sign price.toNat * q := by
    unfold REAL_ID_SHIFT
    rw [Int.bmod_eq_of_le (by omega) (by omega)]
  refine ⟨((2 ^ 23 + sign price.toNat * q) % 2 ^ 32).toNat, ?_, q, hq, hq', ?_⟩
  · unfold getIdFromPrice
    rw [hprice, hbaseLog]
    dsimp only [Except.mapError]
    rw [ok_bind, ok_bind, hdivI, ok_bind, hid,
      BuildProfile.signed_of_range (by norm_num; omega) (by norm_num; omega)]
    rfl
  · omega

/-- The price of a bin leads back to it but for one bin, and the logarithms on the way are those of
the contract: no `i128` cuts them. -/
structure Converts (prof : BuildProfile) (id binStep : Nat) (price : U256) : Prop where
  back : ∃ id', getIdFromPrice prof price binStep = .ok id' ∧ id' ≤ id + 1 ∧ id ≤ id' + 1
  price_log : ∃ v, Uint128x128Math.log2 prof price = .ok v ∧
    LiquidityBook.Uint128x128Math.log2 price = .ok v
  base_log : ∃ v, Uint128x128Math.log2 prof (getBase binStep) = .ok v ∧
    LiquidityBook.Uint128x128Math.log2 (getBase binStep) = .ok v
  price_uncut : NoneCut (log2Results price)
  base_uncut : NoneCut (log2Results (getBase binStep))

theorem converts_of_close (hstep1 : 1 ≤ binStep) (hstep : binStep ≤ 200) (h2 : 2 ≤ price.toNat)
    (hfits : magnitude price.toNat < 2 ^ 126) (hk : k < 2 ^ 20)
    (hlo : k * magnitude (base binStep) ≤ magnitude price.toNat + magnitude (base binStep))
    (hhi : magnitude price.toNat < (k + 1) * magnitude (base binStep))
    (hid : (id : Int) = 2 ^ 23 + sign price.toNat * k) : Converts prof id binStep price := by
  obtain ⟨hbase, -, -⟩ := magnitude_base hstep1 hstep
  have hgetBase := toNat_getBase hstep
  have hge : 2 ^ 128 ≤ base binStep := Nat.le_add_right _ _
  obtain ⟨hprice, hpriceCut⟩ := @log2_eq prof price h2 hfits
  obtain ⟨hbaseLog, hbaseCut⟩ :=
    @log2_eq prof (getBase binStep) (by omega) (by rwa [hgetBase])
  obtain ⟨id', hback, q, hq, hq', hid'⟩ := getIdFromPrice_eq hstep1 hstep h2 hfits hk hlo hhi
  refine ⟨⟨id', hback, ?_⟩, ⟨_, hprice, LiquidityBook.Uint128x128Math.log2_eq h2⟩,
    ⟨_, hbaseLog, LiquidityBook.Uint128x128Math.log2_eq (by omega)⟩, hpriceCut, hbaseCut⟩
  unfold sign at hid hid'
  split at hid
  · rename_i hsign
    rw [if_pos hsign] at hid'
    omega
  · rename_i hsign
    rw [if_neg hsign] at hid'
    omega

/-- The logarithm of 1 is zero. -/
theorem magnitude_one : magnitude (2 ^ 128) = 0 := by
  have habove : aboveOne (2 ^ 128) = 2 ^ 127 := rfl
  have hwhole : whole (2 ^ 128) = 0 := by
    unfold whole
    rw [habove]
    rfl
  rw [magnitude, mantissa, hwhole, habove, Nat.zero_mul, Nat.zero_add, Nat.pow_zero, Nat.div_one,
    fracBits_one]

/-- **A price converts back exactly up to a factor of the root of two from 1.** -/
theorem converts_iff (prof : BuildProfile) (id binStep : Nat) (price : U256)
    (hstep1 : 1 ≤ binStep) (hstep : binStep ≤ 200) (hid : id < 2 ^ 24)
    (hprice : getPriceFromId prof id binStep = .ok price) (hlo : 2 ^ 64 ≤ price.toNat)
    (hhi : price.toNat ≤ 2 ^ 192) :
    Converts prof id binStep price ↔ BelowRootTwo binStep (distance id) := by
  obtain ⟨hbase, hbase', -⟩ := magnitude_base hstep1 hstep
  rcases getPriceFromId_cases hstep1 hstep hid hprice with ⟨rfl, rfl⟩ | ⟨hk, hpos, hlt, hcases⟩
  · have hmid : distance (2 ^ 23) = 0 := rfl
    have hscale : SCALE.toNat = 2 ^ 128 := rfl
    have hnonzero : 0 < magnitude (base binStep) := by
      have hgrow := growth_ge hstep1 hstep
      have hreal : (0 : ℝ) < magnitude (base binStep) := by linarith
      exact_mod_cast hreal
    have hone := magnitude_one
    rw [← hscale] at hone
    refine iff_of_true (@converts_of_close prof SCALE _ binStep 0 hstep1 hstep (by omega)
      (by omega) (by omega) (by omega) (by omega) rfl) ?_
    rw [hmid]
    exact Nat.lt_of_lt_of_le one_lt_two (Nat.le_refl _)
  have hsigned : (id : Int) = 2 ^ 23 + sign price.toNat * distance id := by
    unfold sign distance
    rcases hcases with ⟨hside, hval⟩ | ⟨hside, hval⟩
    · rw [if_neg (by omega)]
      omega
    · have hge : 2 ^ 128 ≤ (2 ^ 256 - 1) / powered binStep (distance id) := by
        rw [Nat.le_div_iff_mul_le hpos]
        omega
      rw [if_pos (by omega)]
      omega
  have h2 : 2 ≤ powered binStep (distance id) := by
    rcases hcases with ⟨-, hval⟩ | ⟨-, hval⟩
    · omega
    · by_contra hone
      rw [(by omega : powered binStep (distance id) = 1), Nat.div_one] at hval
      omega
  have hval : price.toNat = powered binStep (distance id) ∨
      price.toNat = (2 ^ 256 - 1) / powered binStep (distance id) :=
    hcases.imp And.right And.right
  constructor
  · intro h
    by_contra hnot
    have hgt := magnitude_gt_of_not_below hstep1 hstep h2 hlt (by omega) hval hk hnot
    obtain ⟨v, hport, hcontract⟩ := h.price_log
    obtain ⟨hmin, hmax⟩ := log2_fits hport
    rw [LiquidityBook.Uint128x128Math.log2_eq (by omega)] at hcontract
    replace hcontract := Except.ok.inj hcontract
    unfold sign at hcontract
    split at hcontract
    · omega
    · omega
  · intro h
    obtain ⟨hfits, hclose, hclose'⟩ :=
      magnitude_of_below hstep1 hstep h2 hlt (by omega) hval h
    exact converts_of_close hstep1 hstep (by omega) hfits hk hclose hclose' hsigned

theorem converts_next_bin :
    Converts ⟨true⟩ (2 ^ 23 + 1) 25 (BitVec.ofNat 256 341133072838240809622033043950347631984) ↔
      BelowRootTwo 25 (distance (2 ^ 23 + 1)) :=
  converts_iff ⟨true⟩ (2 ^ 23 + 1) 25 (BitVec.ofNat 256 341133072838240809622033043950347631984)
    (by decide) (by decide) (by decide) (by decide +kernel) (by decide) (by decide)

/-- 139 bins of 0.25% from the middle are past the root of two: the way back panics, or without
overflow checks leads to another bin. -/
theorem not_converts_past_root :
    ¬ ∀ (prof : BuildProfile) (id binStep : Nat) (price : U256), 1 ≤ binStep → binStep ≤ 200 →
      id < 2 ^ 24 → getPriceFromId prof id binStep = .ok price → 2 ^ 64 ≤ price.toNat →
        price.toNat ≤ 2 ^ 192 → Converts prof id binStep price := by
  intro h
  have hprice : getPriceFromId ⟨true⟩ (2 ^ 23 + 139) 25 =
      .ok (BitVec.ofNat 256 481469127331505408452084894052443925303) := by decide +kernel
  have hpanic :
      getIdFromPrice ⟨true⟩ (BitVec.ofNat 256 481469127331505408452084894052443925303) 25 =
      .error .panic := by decide +kernel
  obtain ⟨id', hback, -⟩ := (h ⟨true⟩ (2 ^ 23 + 139) 25 _ (by decide) (by decide) (by decide) hprice
    (by decide) (by decide)).back
  rw [hpanic] at hback
  cases hback

end Moe.PriceHelper

end ArbitrageBot
