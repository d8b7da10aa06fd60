import ArbitrageBot.Amms.UniswapV3.Coherence
import ArbitrageBot.Amms.UniswapV3.Swap

/-!
# One round of the swap loop

What the mathematics crate documents (`UniswapV3Math.Spec`), and what a round of the loop does under
it: the price moves in the direction of the swap and the tick stays that of the price, either by
crossing the next tick or within the gap before it.
-/

namespace ArbitrageBot

open Lib

/-- The Uniswap V3 specification of the mathematics, for the calls that return. -/
structure UniswapV3Math.Spec (math : UniswapV3Math) : Prop where
  /-- The next tick down, from the tick itself on, or the next tick up: no tick between is
  initialised, and the flag is the bit of the tick that was found. -/
  nextDown : ∀ bitmap tick tickSpacing tickNext initialized, MIN_TICK ≤ tick → tick < MAX_TICK →
    1 ≤ tickSpacing → tickSpacing ≤ 16383 →
    math.nextInitializedTickWithinOneWord bitmap tick tickSpacing true =
      .ok (tickNext, initialized) →
    ∃ n, tickNext = n * tickSpacing ∧ n ≤ tick / tickSpacing ∧
      initialized = WordSet.mem bitmap n ∧
      ∀ i, n < i → i ≤ tick / tickSpacing → WordSet.mem bitmap i = false
  nextUp : ∀ bitmap tick tickSpacing tickNext initialized, MIN_TICK ≤ tick → tick < MAX_TICK →
    1 ≤ tickSpacing → tickSpacing ≤ 16383 →
    math.nextInitializedTickWithinOneWord bitmap tick tickSpacing false =
      .ok (tickNext, initialized) →
    ∃ n, tickNext = n * tickSpacing ∧ tick / tickSpacing < n ∧
      initialized = WordSet.mem bitmap n ∧
      ∀ i, tick / tickSpacing < i → i < n → WordSet.mem bitmap i = false
  /-- Prices increase strictly with the tick, between the two extreme prices. -/
  ratioTotal : ∀ tick, MIN_TICK ≤ tick → tick ≤ MAX_TICK →
    ∃ ratio, math.getSqrtRatioAtTick tick = .ok ratio
  ratioMono : ∀ tick tick' ratio ratio', MIN_TICK ≤ tick → tick < tick' → tick' ≤ MAX_TICK →
    math.getSqrtRatioAtTick tick = .ok ratio → math.getSqrtRatioAtTick tick' = .ok ratio' →
    ratio < ratio'
  ratioMin : math.getSqrtRatioAtTick MIN_TICK = .ok MIN_SQRT_RATIO
  ratioMax : math.getSqrtRatioAtTick MAX_TICK = .ok MAX_SQRT_RATIO
  /-- The tick of a price is the last one whose price is not above it. -/
  tickAt : ∀ sqrtPrice tick, MIN_SQRT_RATIO ≤ sqrtPrice → sqrtPrice < MAX_SQRT_RATIO →
    math.getTickAtSqrtRatio sqrtPrice = .ok tick → MIN_TICK ≤ tick ∧ tick < MAX_TICK ∧
    (∀ ratio, math.getSqrtRatioAtTick tick = .ok ratio → ratio ≤ sqrtPrice) ∧
    ∀ ratio, math.getSqrtRatioAtTick (tick + 1) = .ok ratio → sqrtPrice < ratio
  /-- A step moves the price towards the target and not beyond. For an exact input it takes no more
  than what remains, and all of it when it does not reach the target; for an exact output (a
  negative amount) it takes nothing when the price stays. -/
  swapStep : ∀ current target liquidity remaining fee next amountIn amountOut feeAmount,
    MIN_SQRT_RATIO ≤ current → current ≤ MAX_SQRT_RATIO → MIN_SQRT_RATIO ≤ target →
    target ≤ MAX_SQRT_RATIO → fee < 10 ^ 6 →
    math.computeSwapStep current target liquidity remaining fee =
      .ok (next, amountIn, amountOut, feeAmount) →
    (target ≤ current → target ≤ next ∧ next ≤ current) ∧
    (current ≤ target → current ≤ next ∧ next ≤ target) ∧
    (0 ≤ remaining.toInt → amountIn.toNat + feeAmount.toNat ≤ remaining.toNat ∧
      (next ≠ target → amountIn.toNat + feeAmount.toNat = remaining.toNat)) ∧
    (remaining.toInt < 0 → next = current → amountIn = 0 ∧ feeAmount = 0)

/-- A price strictly between the extreme prices and a tick that fit together. A price on the border
of two ticks may go with either. -/
structure Priced (math : UniswapV3Math) (sqrtPrice : U256) (tick : Int) : Prop where
  gtMin : MIN_SQRT_RATIO < sqrtPrice
  ltMax : sqrtPrice < MAX_SQRT_RATIO
  minTick : MIN_TICK ≤ tick
  maxTick : tick < MAX_TICK
  lower : ∀ ratio, math.getSqrtRatioAtTick tick = .ok ratio → ratio ≤ sqrtPrice
  upper : ∀ ratio, math.getSqrtRatioAtTick (tick + 1) = .ok ratio → sqrtPrice ≤ ratio

namespace UniswapV3Math.Spec

variable {math : UniswapV3Math} (h : math.Spec) {t t' : Int} {r r' : U256}
include h

theorem ratio_le (h0 : MIN_TICK ≤ t) (hle : t ≤ t') (h1 : t' ≤ MAX_TICK)
    (hr : math.getSqrtRatioAtTick t = .ok r) (hr' : math.getSqrtRatioAtTick t' = .ok r') :
    r ≤ r' := by
  rcases Int.lt_or_eq_of_le hle with hlt | rfl
  · exact BitVec.le_of_lt (h.ratioMono t t' r r' h0 hlt h1 hr hr')
  · rw [hr] at hr'
    cases hr'
    exact BitVec.le_refl r

theorem lt_of_ratio_lt (h0 : MIN_TICK ≤ t') (h1 : t ≤ MAX_TICK)
    (hr : math.getSqrtRatioAtTick t = .ok r) (hr' : math.getSqrtRatioAtTick t' = .ok r')
    (hlt : r < r') : t < t' := by
  by_contra hle
  have := h.ratio_le h0 (by omega) h1 hr' hr
  exact absurd hlt (BitVec.not_lt.mpr this)

end UniswapV3Math.Spec

/-! ## Mathematics that meets the specification -/

namespace UniswapV3Math

/-- Looks for a bit in at most `k` compressed ticks after `i`, in steps of `dir`. -/
def scanWord (bitmap : HashMap Int U256) (dir : Int) : Nat → Int → Int × Bool
  | 0, i => (i, WordSet.mem bitmap i)
  | k + 1, i => if WordSet.mem bitmap i then (i, true) else scanWord bitmap dir k (i + dir)

theorem scanWord_spec (bitmap : HashMap Int U256) (dir : Int) (k : Nat) (i : Int) :
    ∃ j : Nat, scanWord bitmap dir k i = (i + dir * j, WordSet.mem bitmap (i + dir * j)) ∧
      ∀ j' : Nat, j' < j → WordSet.mem bitmap (i + dir * j') = false := by
  induction k generalizing i with
  | zero => exact ⟨0, by simp [scanWord], fun j' hj => absurd hj (Nat.not_lt_zero j')⟩
  | succ k ih =>
    unfold scanWord
    cases hm : WordSet.mem bitmap i with
    | true => exact ⟨0, by simp [hm], fun j' hj => absurd hj (Nat.not_lt_zero j')⟩
    | false =>
      obtain ⟨j, hj, hbefore⟩ := ih (i + dir)
      have hshift : ∀ a : Nat, i + dir + dir * a = i + dir * (a + 1 : Nat) := by
        intro a
        push_cast
        ring
      rw [hshift] at hj
      refine ⟨j + 1, by simpa using hj, fun j' hj' => ?_⟩
      cases j' with
      | zero => simpa using hm
      | succ j' =>
        rw [← hshift]
        exact hbefore j' (by omega)

/-- The prices of six ticks, and lines of slope one from each to the next. -/
def sampleRatio (tick : Int) : Int :=
  if tick < -60 then 4295128739 + (tick + 887272)
  else if tick < -1 then 78990846045029531151608375686 + (tick + 60)
  else if tick < 0 then 79224201403219477170569942574
  else if tick < 60 then 79228162514264337593543950336 + tick
  else if tick < 887272 then 79466191966197645195421774833 + (tick - 60)
  else 1461446703485210103287273052203988822378723970342

/-- Steps from price one with a fee of 3000 and a liquidity of `2 * 10 ^ 18` above and `10 ^ 18`
below it: a swap of `10 ^ 9` downwards, and one of a single unit, all fee, upwards. -/
def sampleStep (current target : U256) (liquidity : Nat) (remaining : U256) (fee : Nat) :
    Except UniswapV3MathError (U256 × U256 × U256 × U256) :=
  if current = 79228162514264337593543950336#256 ∧ fee = 3000 then
    if target = current ∧ remaining = 1000000000#256 then .ok (current, 0, 0, 0)
    else if target = 78990846045029531151608375686#256 ∧ liquidity = 10 ^ 18 ∧
        remaining = 1000000000#256 then
      .ok (79228162435273859645575912270#256, 997000000#256, 996999999#256, 3000000#256)
    else if target = 79466191966197645195421774833#256 ∧ liquidity = 2 * 10 ^ 18 ∧
        remaining = 1#256 then .ok (current, 0, 0, 1)
    else .error ⟨"not tabulated"⟩
  else .error ⟨"not tabulated"⟩

/-- The next-tick search of the crate, and the prices and steps of a sample swap. -/
def sample : UniswapV3Math where
  nextInitializedTickWithinOneWord bitmap tick tickSpacing lte :=
    let compressed := tick / tickSpacing
    let (n, initialized) :=
      if lte then scanWord bitmap (-1) (compressed % 256).toNat compressed
      else scanWord bitmap 1 (255 - (compressed + 1) % 256).toNat (compressed + 1)
    .ok (n * tickSpacing, initialized)
  getSqrtRatioAtTick tick :=
    if MIN_TICK ≤ tick ∧ tick ≤ MAX_TICK then .ok (BitVec.ofInt 256 (sampleRatio tick))
    else .error ⟨"T"⟩
  getTickAtSqrtRatio sqrtPrice :=
    if 79224201403219477170569942574#256 ≤ sqrtPrice ∧ sqrtPrice < 79228162514264337593543950336#256
    then .ok (-1) else .error ⟨"not tabulated"⟩
  computeSwapStep := sampleStep

theorem sampleRatio_lt {t t' : Int} (h0 : MIN_TICK ≤ t) (hlt : t < t') (h1 : t' ≤ MAX_TICK) :
    0 ≤ sampleRatio t ∧ sampleRatio t < sampleRatio t' ∧ sampleRatio t' < 2 ^ 256 := by
  unfold sampleRatio MIN_TICK MAX_TICK at *
  split_ifs <;> omega

theorem sample_ratio_eq_ok {t : Int} {r : U256} (h : sample.getSqrtRatioAtTick t = .ok r) :
    MIN_TICK ≤ t ∧ t ≤ MAX_TICK ∧ r = BitVec.ofInt 256 (sampleRatio t) := by
  simp only [sample] at h
  split at h
  · rename_i ht
    cases h
    exact ⟨ht.1, ht.2, rfl⟩
  · cases h

/-- The steps of the table. -/
theorem sampleStep_eq_ok {current target remaining next amountIn amountOut feeAmount : U256}
    {liquidity fee : Nat}
    (h : sampleStep current target liquidity remaining fee =
      .ok (next, amountIn, amountOut, feeAmount)) :
    current = 79228162514264337593543950336#256 ∧ fee = 3000 ∧
      ((target = current ∧ remaining = 1000000000#256 ∧
        (next, amountIn, amountOut, feeAmount) = (current, 0, 0, 0)) ∨
      (target = 78990846045029531151608375686#256 ∧ liquidity = 10 ^ 18 ∧
        remaining = 1000000000#256 ∧ (next, amountIn, amountOut, feeAmount) =
          (79228162435273859645575912270#256, 997000000#256, 996999999#256, 3000000#256)) ∨
      (target = 79466191966197645195421774833#256 ∧ liquidity = 2 * 10 ^ 18 ∧
        remaining = 1#256 ∧ (next, amountIn, amountOut, feeAmount) = (current, 0, 0, 1))) := by
  unfold sampleStep at h
  split at h
  · rename_i hcur
    refine ⟨hcur.1, hcur.2, ?_⟩
    split at h
    · rename_i ht
      exact .inl ⟨ht.1, ht.2, (Except.ok.inj h).symm⟩
    · split at h
      · rename_i ht
        exact .inr (.inl ⟨ht.1, ht.2.1, ht.2.2, (Except.ok.inj h).symm⟩)
      · split at h
        · rename_i ht
          exact .inr (.inr ⟨ht.1, ht.2.1, ht.2.2, (Except.ok.inj h).symm⟩)
        · cases h
  · cases h

theorem sample_spec : sample.Spec where
  nextDown := by
    intro bitmap tick tickSpacing tickNext initialized _ _ _ _ h
    obtain ⟨j, hj, hbefore⟩ := scanWord_spec bitmap (-1) (tick / tickSpacing % 256).toNat
      (tick / tickSpacing)
    simp only [sample, if_true, hj, Except.ok.injEq, Prod.mk.injEq] at h
    obtain ⟨rfl, rfl⟩ := h
    refine ⟨_, rfl, by omega, rfl, fun i hi hle => ?_⟩
    have := hbefore (tick / tickSpacing - i).toNat (by omega)
    rwa [show tick / tickSpacing + -1 * ((tick / tickSpacing - i).toNat : Int) = i by omega] at this
  nextUp := by
    intro bitmap tick tickSpacing tickNext initialized _ _ _ _ h
    obtain ⟨j, hj, hbefore⟩ := scanWord_spec bitmap 1
      (255 - (tick / tickSpacing + 1) % 256).toNat (tick / tickSpacing + 1)
    simp only [sample, Bool.false_eq_true, if_false, hj, Except.ok.injEq, Prod.mk.injEq] at h
    obtain ⟨rfl, rfl⟩ := h
    refine ⟨_, rfl, by omega, rfl, fun i hi hlt => ?_⟩
    have := hbefore (i - (tick / tickSpacing + 1)).toNat (by omega)
    rwa [show tick / tickSpacing + 1 + 1 * ((i - (tick / tickSpacing + 1)).toNat : Int) = i
      by omega] at this
  ratioTotal := fun tick h0 h1 => ⟨_, if_pos ⟨h0, h1⟩⟩
  ratioMono := by
    intro tick tick' ratio ratio' h0 hlt h1 hr hr'
    obtain ⟨-, -, rfl⟩ := sample_ratio_eq_ok hr
    obtain ⟨-, -, rfl⟩ := sample_ratio_eq_ok hr'
    obtain ⟨hpos, hless, hmax⟩ := sampleRatio_lt h0 hlt h1
    rw [BitVec.lt_def, BitVec.toNat_ofInt, BitVec.toNat_ofInt]
    omega
  ratioMin := rfl
  ratioMax := rfl
  tickAt := by
    intro sqrtPrice tick _ _ h
    simp only [sample] at h
    split at h
    · rename_i hp
      cases h
      refine ⟨by decide, by decide, fun ratio hr => ?_, fun ratio hr => ?_⟩
      · obtain ⟨-, -, rfl⟩ := sample_ratio_eq_ok hr
        exact hp.1
      · obtain ⟨-, -, rfl⟩ := sample_ratio_eq_ok hr
        exact hp.2
    · cases h
  swapStep := by
    intro current target liquidity remaining fee next amountIn amountOut feeAmount _ _ _ _ _ h
    obtain ⟨rfl, rfl, ⟨rfl, rfl, heq⟩ | ⟨rfl, rfl, rfl, heq⟩ | ⟨rfl, rfl, rfl, heq⟩⟩ :=
      sampleStep_eq_ok h
    · cases heq
      decide
    · cases heq
      decide
    · cases heq
      decide

end UniswapV3Math

/-! ## The cases of a round -/

namespace UniswapV3Pool

variable {math : UniswapV3Math} {prof : BuildProfile} {pool : UniswapV3Pool} {zeroForOne : Bool}
  {s s' : CurrentState}

theorem liftMath_eq_ok {α : Type} {x : Except UniswapV3MathError α} {a : α} :
    liftMath x = .ok a ↔ x = .ok a := by
  cases x <;> simp [liftMath, Except.mapError]

theorem liftMath_ne_underflow {α : Type} {x : Except UniswapV3MathError α} :
    liftMath x ≠ .error (.err (.uniswapV3Error .liquidityUnderflow)) := by
  cases x <;> simp [liftMath, Except.mapError]

/-- Everything a round that returns has computed. -/
theorem swapRound_cases (h : pool.swapRound math prof zeroForOne s = .ok s') :
    ∃ tickNext initialized sqrtPriceNext amountIn amountOut feeAmount,
      math.nextInitializedTickWithinOneWord pool.tickBitmap s.tick pool.tickSpacing zeroForOne =
        .ok (tickNext, initialized) ∧
      math.getSqrtRatioAtTick (clampTick tickNext) = .ok sqrtPriceNext ∧
      math.computeSwapStep s.sqrtPriceX96 (swapTarget zeroForOne sqrtPriceNext) s.liquidity
        s.amountSpecifiedRemaining pool.fee =
          .ok (s'.sqrtPriceX96, amountIn, amountOut, feeAmount) ∧
      s'.amountSpecifiedRemaining = s.amountSpecifiedRemaining - (amountIn + feeAmount) ∧
      prof.subI256 (ε := AMMError) s.amountCalculated amountOut = .ok s'.amountCalculated ∧
      pool.moveTick math prof zeroForOne s (clampTick tickNext) initialized sqrtPriceNext
        s'.sqrtPriceX96 = .ok (s'.liquidity, s'.tick) := by
  unfold swapRound at h
  rw [bind_eq_ok] at h
  obtain ⟨⟨tickNext, initialized⟩, hnext, h⟩ := h
  simp only [bind_eq_ok] at h
  obtain ⟨sqrtPriceNext, hratio, ⟨price, amountIn, amountOut, feeAmount⟩, hstep, calculated, hsub,
    ⟨liquidity, tick⟩, hmove, hs⟩ := h
  cases hs
  exact ⟨tickNext, initialized, sqrtPriceNext, amountIn, amountOut, feeAmount,
    liftMath_eq_ok.mp hnext, liftMath_eq_ok.mp hratio, liftMath_eq_ok.mp hstep, rfl, hsub, hmove⟩

/-- How a round moves the tick. -/
theorem moveTick_cases {tickNext tick : Int} {initialized : Bool} {sqrtPriceNext sqrtPrice : U256}
    {liquidity : Nat}
    (h : pool.moveTick math prof zeroForOne s tickNext initialized sqrtPriceNext sqrtPrice =
      .ok (liquidity, tick)) :
    (sqrtPrice = sqrtPriceNext ∧ tick = (if zeroForOne then wrappingPred tickNext else tickNext) ∧
      pool.reachTick prof zeroForOne s.liquidity tickNext initialized = .ok liquidity) ∨
    (sqrtPrice ≠ sqrtPriceNext ∧ sqrtPrice ≠ s.sqrtPriceX96 ∧ liquidity = s.liquidity ∧
      math.getTickAtSqrtRatio sqrtPrice = .ok tick) ∨
    (sqrtPrice ≠ sqrtPriceNext ∧ sqrtPrice = s.sqrtPriceX96 ∧ liquidity = s.liquidity ∧
      tick = s.tick) := by
  unfold moveTick at h
  by_cases hp : sqrtPrice = sqrtPriceNext
  · rw [if_pos hp, bind_eq_ok] at h
    obtain ⟨liquidity, hcross, hres⟩ := h
    cases hres
    exact Or.inl ⟨hp, rfl, hcross⟩
  · rw [if_neg hp] at h
    by_cases hm : sqrtPrice = s.sqrtPriceX96
    · rw [if_neg (not_not.mpr hm)] at h
      cases h
      exact Or.inr (Or.inr ⟨hp, hm, rfl, rfl⟩)
    · rw [if_pos hm, bind_eq_ok] at h
      obtain ⟨tick, htick, hres⟩ := h
      cases hres
      exact Or.inr (Or.inl ⟨hp, hm, rfl, liftMath_eq_ok.mp htick⟩)

/-- A round fails with an underflow only where it reaches an initialised tick. -/
theorem swapRound_underflow (h : pool.swapRound math prof zeroForOne s =
      .error (.err (.uniswapV3Error .liquidityUnderflow))) :
    ∃ tickNext initialized sqrtPriceNext amountIn amountOut feeAmount,
      math.nextInitializedTickWithinOneWord pool.tickBitmap s.tick pool.tickSpacing zeroForOne =
        .ok (tickNext, initialized) ∧
      math.getSqrtRatioAtTick (clampTick tickNext) = .ok sqrtPriceNext ∧
      math.computeSwapStep s.sqrtPriceX96 (swapTarget zeroForOne sqrtPriceNext) s.liquidity
        s.amountSpecifiedRemaining pool.fee = .ok (sqrtPriceNext, amountIn, amountOut, feeAmount) ∧
      pool.reachTick prof zeroForOne s.liquidity (clampTick tickNext) initialized =
        .error (.err (.uniswapV3Error .liquidityUnderflow)) := by
  unfold swapRound at h
  rw [bind_eq_error] at h
  obtain h | ⟨⟨tickNext, initialized⟩, hnext, h⟩ := h
  · exact absurd h liftMath_ne_underflow
  simp only [bind_eq_error] at h
  obtain h | ⟨sqrtPriceNext, hratio, h | ⟨⟨price, amountIn, amountOut, feeAmount⟩, hstep, h⟩⟩ := h
  · exact absurd h liftMath_ne_underflow
  · exact absurd h liftMath_ne_underflow
  obtain h | ⟨calculated, -, h | ⟨result, -, h⟩⟩ := h
  · unfold BuildProfile.subI256 at h
    split at h <;> cases h
  · unfold moveTick at h
    by_cases hp : price = sqrtPriceNext
    · rw [if_pos hp, bind_eq_error] at h
      obtain h | ⟨liquidity, -, h⟩ := h
      · rw [hp] at hstep
        exact ⟨tickNext, initialized, sqrtPriceNext, amountIn, amountOut, feeAmount,
          liftMath_eq_ok.mp hnext, liftMath_eq_ok.mp hratio, liftMath_eq_ok.mp hstep, h⟩
      · cases h
    · rw [if_neg hp] at h
      by_cases hm : price = s.sqrtPriceX96
      · rw [if_neg (not_not.mpr hm)] at h
        cases h
      · rw [if_pos hm, bind_eq_error] at h
        obtain h | ⟨tick, -, h⟩ := h
        · exact absurd h liftMath_ne_underflow
        · cases h
  · cases h

theorem toInt_nonneg_iff (x : U256) : 0 ≤ x.toInt ↔ x.toNat < 2 ^ 255 := by
  rw [BitVec.toInt_eq_toNat_cond]
  split <;> omega

/-- What a step takes of the remaining amount. -/
structure StepTakes (remaining current target next amountIn feeAmount : U256) : Prop where
  nonneg : 0 ≤ remaining.toInt → 0 ≤ (remaining - (amountIn + feeAmount)).toInt
  all : 0 ≤ remaining.toInt → next ≠ target → amountIn + feeAmount = remaining
  nothing : remaining.toInt < 0 → next = current → amountIn + feeAmount = 0#256

theorem stepTakes {remaining current target next amountIn feeAmount : U256}
    (hin : 0 ≤ remaining.toInt → amountIn.toNat + feeAmount.toNat ≤ remaining.toNat ∧
      (next ≠ target → amountIn.toNat + feeAmount.toNat = remaining.toNat))
    (hout : remaining.toInt < 0 → next = current → amountIn = 0 ∧ feeAmount = 0) :
    StepTakes remaining current target next amountIn feeAmount where
  nonneg := by
    intro h0
    have hle := (hin h0).1
    rw [toInt_nonneg_iff] at h0 ⊢
    have hadd : (amountIn + feeAmount).toNat = amountIn.toNat + feeAmount.toNat := by
      rw [BitVec.toNat_add, Nat.mod_eq_of_lt (by omega)]
    rw [BitVec.toNat_sub_of_le (by rw [BitVec.le_def, hadd]; exact hle), hadd]
    omega
  all := by
    intro h0 hne
    have heq := (hin h0).2 hne
    apply BitVec.eq_of_toNat_eq
    rw [BitVec.toNat_add, heq, Nat.mod_eq_of_lt remaining.isLt]
  nothing := by
    intro h0 hsame
    obtain ⟨rfl, rfl⟩ := hout h0 hsame
    rfl

theorem wrappingPred_of_range {t : Int} (h0 : MIN_TICK ≤ t) (h1 : t ≤ MAX_TICK) :
    wrappingPred t = t - 1 := by
  unfold wrappingPred MIN_TICK MAX_TICK at *
  rw [Int.bmod_eq_of_le] <;> omega

theorem tick_div_lt {tick s n : Int} (hs : 1 ≤ s) : tick / s < n ↔ tick < n * s :=
  Int.ediv_lt_iff_lt_mul (by omega)

theorem le_tick_div {tick s n : Int} (hs : 1 ≤ s) : n ≤ tick / s ↔ n * s ≤ tick :=
  Int.le_ediv_iff_mul_le (by omega)

section Step

variable {tickNext : Int} {initialized : Bool}
  {sqrtPriceNext sqrtPrice amountIn amountOut feeAmount : U256}

/-- A step downwards: the next tick is `n * tickSpacing`, no tick from there (excluded) up to the
old tick has a bit, and the price falls, not beyond the price of the clamped next tick. -/
structure StepDown (pool : UniswapV3Pool) (s : CurrentState) (tickNext : Int) (initialized : Bool)
    (sqrtPriceNext sqrtPrice : U256) (n : Int) : Prop where
  next_eq : tickNext = n * pool.tickSpacing
  initialized_eq : initialized = WordSet.mem pool.tickBitmap n
  next_le : n * pool.tickSpacing ≤ s.tick
  gap : ∀ i, n < i → i * pool.tickSpacing ≤ s.tick → WordSet.mem pool.tickBitmap i = false
  minTick : MIN_TICK ≤ clampTick tickNext
  next_le_clamp : n * pool.tickSpacing ≤ clampTick tickNext
  clamp_le : clampTick tickNext ≤ s.tick
  gtMin : MIN_SQRT_RATIO < sqrtPrice
  next_le_price : sqrtPriceNext ≤ sqrtPrice
  price_le : sqrtPrice ≤ s.sqrtPriceX96
  /-- The lowest tick is beyond the price limit. -/
  reached : sqrtPrice = sqrtPriceNext →
    clampTick tickNext = n * pool.tickSpacing ∧ MIN_TICK < n * pool.tickSpacing

theorem stepDown (hmath : math.Spec) (hspacing : 1 ≤ pool.tickSpacing)
    (hspacing' : pool.tickSpacing ≤ 16383) (hfee : pool.fee < 10 ^ 6)
    (hpriced : Priced math s.sqrtPriceX96 s.tick)
    (hnext : math.nextInitializedTickWithinOneWord pool.tickBitmap s.tick pool.tickSpacing true =
      .ok (tickNext, initialized))
    (hratio : math.getSqrtRatioAtTick (clampTick tickNext) = .ok sqrtPriceNext)
    (hstep : math.computeSwapStep s.sqrtPriceX96 (swapTarget true sqrtPriceNext) s.liquidity
      s.amountSpecifiedRemaining pool.fee = .ok (sqrtPrice, amountIn, amountOut, feeAmount)) :
    StepTakes s.amountSpecifiedRemaining s.sqrtPriceX96 (swapTarget true sqrtPriceNext) sqrtPrice
      amountIn feeAmount ∧
    ∃ n, StepDown pool s tickNext initialized sqrtPriceNext sqrtPrice n := by
  obtain ⟨hgt, hlt, hmin, hmax, hlower, -⟩ := hpriced
  obtain ⟨n, rfl, hn, rfl, hgap⟩ := hmath.nextDown _ _ _ _ _ hmin hmax hspacing hspacing' hnext
  rw [le_tick_div hspacing] at hn
  have hclamp : MIN_TICK ≤ clampTick (n * pool.tickSpacing) ∧
      clampTick (n * pool.tickSpacing) ≤ s.tick ∧
      n * pool.tickSpacing ≤ clampTick (n * pool.tickSpacing) ∧
      (clampTick (n * pool.tickSpacing) = MIN_TICK ∨
        clampTick (n * pool.tickSpacing) = n * pool.tickSpacing) := by
    unfold clampTick MIN_TICK MAX_TICK at *
    omega
  obtain ⟨hc0, hc1, hcn, hc⟩ := hclamp
  -- the price of the clamped next tick is not above the price
  obtain ⟨ratio, hr⟩ := hmath.ratioTotal s.tick hmin (by omega)
  have hnextle := hmath.ratio_le hc0 hc1 (by omega) hratio hr
  have hlo := hlower ratio hr
  have htarget : swapTarget true sqrtPriceNext ≤ s.sqrtPriceX96 ∧
      sqrtPriceNext ≤ swapTarget true sqrtPriceNext ∧
      MIN_SQRT_RATIO < swapTarget true sqrtPriceNext := by
    unfold swapTarget sqrtPriceLimit MIN_SQRT_RATIO at *
    simp only [if_true]
    split <;> bv_omega
  obtain ⟨hdown, -, hin, hout⟩ := hmath.swapStep _ _ _ _ _ _ _ _ _ (BitVec.le_of_lt hgt)
    (BitVec.le_of_lt hlt) (BitVec.le_of_lt htarget.2.2)
    (BitVec.le_trans htarget.1 (BitVec.le_of_lt hlt)) hfee hstep
  obtain ⟨hp0, hp1⟩ := hdown htarget.1
  have hgt' : MIN_SQRT_RATIO < sqrtPrice := by bv_omega
  refine ⟨stepTakes hin hout, n, rfl, rfl, hn,
    fun i hi hle => hgap i hi ((le_tick_div hspacing).mpr hle), hc0, hcn, hc1, hgt',
    BitVec.le_trans htarget.2.1 hp0, hp1, fun hprice => ?_⟩
  have hcmin : clampTick (n * pool.tickSpacing) ≠ MIN_TICK := by
    intro hc
    rw [hc, hmath.ratioMin] at hratio
    cases hratio
    rw [hprice] at hgt'
    exact absurd hgt' (BitVec.lt_irrefl _)
  rcases hc with hc | hc
  · exact absurd hc hcmin
  · exact ⟨hc, by omega⟩

/-- A step upwards: the next tick is `n * tickSpacing`, no tick above the old tick up to there
(excluded) has a bit, and the price rises, not beyond the price of the clamped next tick. -/
structure StepUp (pool : UniswapV3Pool) (s : CurrentState) (tickNext : Int) (initialized : Bool)
    (sqrtPriceNext sqrtPrice : U256) (n : Int) : Prop where
  next_eq : tickNext = n * pool.tickSpacing
  initialized_eq : initialized = WordSet.mem pool.tickBitmap n
  lt_next : s.tick < n * pool.tickSpacing
  gap : ∀ i, i < n → s.tick < i * pool.tickSpacing → WordSet.mem pool.tickBitmap i = false
  maxTick : clampTick tickNext ≤ MAX_TICK
  clamp_le_next : clampTick tickNext ≤ n * pool.tickSpacing
  lt_clamp : s.tick < clampTick tickNext
  ltMax : sqrtPrice < MAX_SQRT_RATIO
  price_le_next : sqrtPrice ≤ sqrtPriceNext
  le_price : s.sqrtPriceX96 ≤ sqrtPrice
  reached : sqrtPrice = sqrtPriceNext →
    clampTick tickNext = n * pool.tickSpacing ∧ n * pool.tickSpacing < MAX_TICK

theorem stepUp (hmath : math.Spec) (hspacing : 1 ≤ pool.tickSpacing)
    (hspacing' : pool.tickSpacing ≤ 16383) (hfee : pool.fee < 10 ^ 6)
    (hpriced : Priced math s.sqrtPriceX96 s.tick)
    (hnext : math.nextInitializedTickWithinOneWord pool.tickBitmap s.tick pool.tickSpacing false =
      .ok (tickNext, initialized))
    (hratio : math.getSqrtRatioAtTick (clampTick tickNext) = .ok sqrtPriceNext)
    (hstep : math.computeSwapStep s.sqrtPriceX96 (swapTarget false sqrtPriceNext) s.liquidity
      s.amountSpecifiedRemaining pool.fee = .ok (sqrtPrice, amountIn, amountOut, feeAmount)) :
    StepTakes s.amountSpecifiedRemaining s.sqrtPriceX96 (swapTarget false sqrtPriceNext) sqrtPrice
      amountIn feeAmount ∧
    ∃ n, StepUp pool s tickNext initialized sqrtPriceNext sqrtPrice n := by
  obtain ⟨hgt, hlt, hmin, hmax, -, hupper⟩ := hpriced
  obtain ⟨n, rfl, hn, rfl, hgap⟩ := hmath.nextUp _ _ _ _ _ hmin hmax hspacing hspacing' hnext
  rw [tick_div_lt hspacing] at hn
  have hclamp : s.tick < clampTick (n * pool.tickSpacing) ∧
      clampTick (n * pool.tickSpacing) ≤ MAX_TICK ∧
      clampTick (n * pool.tickSpacing) ≤ n * pool.tickSpacing ∧
      (clampTick (n * pool.tickSpacing) = MAX_TICK ∨
        clampTick (n * pool.tickSpacing) = n * pool.tickSpacing) := by
    unfold clampTick MIN_TICK MAX_TICK at *
    omega
  obtain ⟨hc0, hc1, hcn, hc⟩ := hclamp
  obtain ⟨ratioSucc, hrs⟩ := hmath.ratioTotal (s.tick + 1) (by omega) (by omega)
  have hnextle := hmath.ratio_le (by omega) (by omega) hc1 hrs hratio
  have hup := hupper ratioSucc hrs
  have htarget : s.sqrtPriceX96 ≤ swapTarget false sqrtPriceNext ∧
      swapTarget false sqrtPriceNext ≤ sqrtPriceNext ∧
      swapTarget false sqrtPriceNext < MAX_SQRT_RATIO := by
    unfold swapTarget sqrtPriceLimit MAX_SQRT_RATIO at *
    simp only [Bool.false_eq_true, if_false]
    split <;> bv_omega
  obtain ⟨-, hupw, hin, hout⟩ := hmath.swapStep _ _ _ _ _ _ _ _ _ (BitVec.le_of_lt hgt)
    (BitVec.le_of_lt hlt) (BitVec.le_trans (BitVec.le_of_lt hgt) htarget.1)
    (BitVec.le_of_lt htarget.2.2) hfee hstep
  obtain ⟨hp0, hp1⟩ := hupw htarget.1
  have hlt' : sqrtPrice < MAX_SQRT_RATIO := by bv_omega
  refine ⟨stepTakes hin hout, n, rfl, rfl, hn,
    fun i hi hle => hgap i ((tick_div_lt hspacing).mpr hle) hi, hc1, hcn, hc0, hlt',
    BitVec.le_trans hp1 htarget.2.1, hp0, fun hprice => ?_⟩
  have hcmax : clampTick (n * pool.tickSpacing) ≠ MAX_TICK := by
    intro hc
    rw [hc, hmath.ratioMax] at hratio
    cases hratio
    rw [hprice] at hlt'
    exact absurd hlt' (BitVec.lt_irrefl _)
  rcases hc with hc | hc
  · exact absurd hc hcmax
  · exact ⟨hc, by omega⟩

end Step

/-! ## Rounds -/

/-- A round downwards: where it leaves price and tick, and which liquidity it leaves. The ticks
from `n * tickSpacing` (excluded) up to the old tick have no bit. -/
structure RoundDown (math : UniswapV3Math) (prof : BuildProfile) (pool : UniswapV3Pool)
    (s s' : CurrentState) (n : Int) : Prop where
  next_le : n * pool.tickSpacing ≤ s.tick
  gap : ∀ i, n < i → i * pool.tickSpacing ≤ s.tick → WordSet.mem pool.tickBitmap i = false
  priced : Priced math s'.sqrtPriceX96 s'.tick
  remaining : 0 ≤ s.amountSpecifiedRemaining.toInt → 0 ≤ s'.amountSpecifiedRemaining.toInt
  price_le : s'.sqrtPriceX96 ≤ s.sqrtPriceX96
  move : (s'.tick = n * pool.tickSpacing - 1 ∧ pool.reachTick prof true s.liquidity
      (n * pool.tickSpacing) (WordSet.mem pool.tickBitmap n) = .ok s'.liquidity) ∨
    (n * pool.tickSpacing ≤ s'.tick ∧ s'.tick ≤ s.tick ∧ s'.liquidity = s.liquidity)

theorem swapRound_down (hmath : math.Spec) (hspacing : 1 ≤ pool.tickSpacing)
    (hspacing' : pool.tickSpacing ≤ 16383) (hfee : pool.fee < 10 ^ 6)
    (hpriced : Priced math s.sqrtPriceX96 s.tick)
    (h : pool.swapRound math prof true s = .ok s') : ∃ n, RoundDown math prof pool s s' n := by
  obtain ⟨tickNext, initialized, ratioNext, amountIn, amountOut, feeAmount, hnext, hratio, hstep,
    hremaining, -, hmove⟩ := swapRound_cases h
  obtain ⟨htakes, n, hst⟩ := stepDown hmath hspacing hspacing' hfee hpriced hnext hratio hstep
  have hrem' := hremaining ▸ htakes.nonneg
  have hmin := hpriced.minTick
  have hmax := hpriced.maxTick
  have hc0 := hst.minTick
  have hcn := hst.next_le_clamp
  have hc1 := hst.clamp_le
  have hgt' := hst.gtMin
  have hp0 := hst.next_le_price
  have hp1 := hst.price_le
  have hlt' : s'.sqrtPriceX96 < MAX_SQRT_RATIO := by
    have := hpriced.ltMax
    bv_omega
  suffices hmoved : Priced math s'.sqrtPriceX96 s'.tick ∧ _ from
    ⟨n, hst.next_le, hst.gap, hmoved.1, hrem', hst.price_le, hmoved.2⟩
  rcases moveTick_cases hmove with ⟨hprice, htick, hliq⟩ | ⟨hne, hne', hliq, htick⟩ |
    ⟨-, hprice, hliq, htick⟩
  · obtain ⟨hc, hcmin⟩ := hst.reached hprice
    rw [hc] at htick hliq hratio
    rw [if_pos rfl, wrappingPred_of_range (by omega) (by omega)] at htick
    rw [hst.initialized_eq] at hliq
    refine ⟨⟨hgt', hlt', by omega, by omega, ?_, ?_⟩, Or.inl ⟨htick, hliq⟩⟩
    · intro ratio hratio'
      rw [htick] at hratio'
      rw [hprice]
      exact hmath.ratio_le (by omega) (by omega) (by omega) hratio' hratio
    · intro ratio hratio'
      rw [htick, Int.sub_add_cancel, hratio] at hratio'
      cases hratio'
      rw [hprice]
      exact BitVec.le_refl _
  · -- the price stays in the gap, and so does its tick
    obtain ⟨ht0, ht1, htlo, hthi⟩ := hmath.tickAt _ _ (BitVec.le_of_lt hgt') hlt' htick
    obtain ⟨ratioSucc, hrs⟩ := hmath.ratioTotal (s.tick + 1) (by omega) (by omega)
    obtain ⟨ratio', hr'⟩ := hmath.ratioTotal s'.tick ht0 (by omega)
    obtain ⟨ratioSucc', hrs'⟩ := hmath.ratioTotal (s'.tick + 1) (by omega) (by omega)
    have hup := hpriced.upper ratioSucc hrs
    have hlo' := htlo ratio' hr'
    have hup' := hthi ratioSucc' hrs'
    have hc' : clampTick tickNext < s'.tick + 1 :=
      hmath.lt_of_ratio_lt (by omega) (by omega) hratio hrs' (by bv_omega)
    have ht' : s'.tick < s.tick + 1 :=
      hmath.lt_of_ratio_lt (by omega) (by omega) hr' hrs (by bv_omega)
    refine ⟨⟨hgt', hlt', ht0, ht1, htlo, fun ratio hratio => ?_⟩,
      Or.inr ⟨by omega, by omega, hliq⟩⟩
    exact BitVec.le_of_lt (hthi ratio hratio)
  · rw [hprice, htick]
    exact ⟨hpriced, Or.inr ⟨hst.next_le, Int.le_refl _, hliq⟩⟩

/-- A round upwards: the ticks above the old tick up to `n * tickSpacing` (excluded) have no bit. -/
structure RoundUp (math : UniswapV3Math) (prof : BuildProfile) (pool : UniswapV3Pool)
    (s s' : CurrentState) (n : Int) : Prop where
  lt_next : s.tick < n * pool.tickSpacing
  gap : ∀ i, i < n → s.tick < i * pool.tickSpacing → WordSet.mem pool.tickBitmap i = false
  priced : Priced math s'.sqrtPriceX96 s'.tick
  remaining : 0 ≤ s.amountSpecifiedRemaining.toInt → 0 ≤ s'.amountSpecifiedRemaining.toInt
  le_price : s.sqrtPriceX96 ≤ s'.sqrtPriceX96
  move : (s'.tick = n * pool.tickSpacing ∧ pool.reachTick prof false s.liquidity
      (n * pool.tickSpacing) (WordSet.mem pool.tickBitmap n) = .ok s'.liquidity) ∨
    (s.tick ≤ s'.tick ∧ s'.tick < n * pool.tickSpacing ∧ s'.liquidity = s.liquidity)

theorem swapRound_up (hmath : math.Spec) (hspacing : 1 ≤ pool.tickSpacing)
    (hspacing' : pool.tickSpacing ≤ 16383) (hfee : pool.fee < 10 ^ 6)
    (hpriced : Priced math s.sqrtPriceX96 s.tick)
    (h : pool.swapRound math prof false s = .ok s') : ∃ n, RoundUp math prof pool s s' n := by
  obtain ⟨tickNext, initialized, ratioNext, amountIn, amountOut, feeAmount, hnext, hratio, hstep,
    hremaining, -, hmove⟩ := swapRound_cases h
  obtain ⟨htakes, n, hst⟩ := stepUp hmath hspacing hspacing' hfee hpriced hnext hratio hstep
  have hrem' := hremaining ▸ htakes.nonneg
  have hmin := hpriced.minTick
  have hmax := hpriced.maxTick
  have hc0 := hst.maxTick
  have hcn := hst.clamp_le_next
  have hc1 := hst.lt_clamp
  have hlt' := hst.ltMax
  have hp0 := hst.price_le_next
  have hp1 := hst.le_price
  have hgt' : MIN_SQRT_RATIO < s'.sqrtPriceX96 := by
    have := hpriced.gtMin
    bv_omega
  suffices hmoved : Priced math s'.sqrtPriceX96 s'.tick ∧ _ from
    ⟨n, hst.lt_next, hst.gap, hmoved.1, hrem', hst.le_price, hmoved.2⟩
  rcases moveTick_cases hmove with ⟨hprice, htick, hliq⟩ | ⟨hne, hne', hliq, htick⟩ |
    ⟨-, hprice, hliq, htick⟩
  · obtain ⟨hc, hcmax⟩ := hst.reached hprice
    rw [hc] at htick hliq hratio
    rw [if_neg Bool.false_ne_true] at htick
    rw [hst.initialized_eq] at hliq
    refine ⟨⟨hgt', hlt', by omega, by omega, ?_, ?_⟩, Or.inl ⟨htick, hliq⟩⟩
    · intro ratio hratio'
      rw [htick, hratio] at hratio'
      cases hratio'
      rw [hprice]
      exact BitVec.le_refl _
    · intro ratio hratio'
      rw [htick] at hratio'
      rw [hprice]
      exact hmath.ratio_le (by omega) (by omega) (by omega) hratio hratio'
  · -- the price stays in the gap, and so does its tick
    obtain ⟨ht0, ht1, htlo, hthi⟩ := hmath.tickAt _ _ (BitVec.le_of_lt hgt') hlt' htick
    obtain ⟨ratio, hr⟩ := hmath.ratioTotal s.tick (by omega) (by omega)
    obtain ⟨ratio', hr'⟩ := hmath.ratioTotal s'.tick ht0 (by omega)
    obtain ⟨ratioSucc', hrs'⟩ := hmath.ratioTotal (s'.tick + 1) (by omega) (by omega)
    have hlo := hpriced.lower ratio hr
    have hlo' := htlo ratio' hr'
    have hup' := hthi ratioSucc' hrs'
    have hc' : s'.tick < clampTick tickNext :=
      hmath.lt_of_ratio_lt (by omega) (by omega) hr' hratio (by bv_omega)
    have ht' : s.tick < s'.tick + 1 :=
      hmath.lt_of_ratio_lt (by omega) (by omega) hr hrs' (by bv_omega)
    refine ⟨⟨hgt', hlt', ht0, ht1, htlo, fun ratio hratio => ?_⟩,
      Or.inr ⟨by omega, by omega, hliq⟩⟩
    exact BitVec.le_of_lt (hthi ratio hratio)
  · rw [hprice, htick]
    exact ⟨hpriced, Or.inr ⟨Int.le_refl _, hst.lt_next, hliq⟩⟩

end UniswapV3Pool

end ArbitrageBot
