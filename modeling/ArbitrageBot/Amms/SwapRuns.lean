import ArbitrageBot.Amms.SwapCopies

/-!
# Runs of the swap loops

A round of the loop takes the whole remaining input, reaches the price limit, or moves the tick in
the direction of the swap (`Advance`); the ticks being bounded, the loop ends. Along a run the
remaining input is the input less what the steps have taken, and the calculated amount is what they
have paid out (`RunInv`). The same holds of both copies of the loop.
-/

namespace ArbitrageBot

open Lib

/-- What a step of an exact input pays out by the Uniswap V3 specification: the difference of the
other token between the two prices, rounded down. -/
structure UniswapV3Math.PaysOut (math : UniswapV3Math) : Prop where
  down : ∀ current target liquidity remaining fee next amountIn amountOut feeAmount,
    MIN_SQRT_RATIO ≤ target → target ≤ current → current ≤ MAX_SQRT_RATIO → liquidity < 2 ^ 128 →
    0 ≤ remaining.toInt → fee < 10 ^ 6 →
    math.computeSwapStep current target liquidity remaining fee =
      .ok (next, amountIn, amountOut, feeAmount) →
    amountOut.toNat = liquidity * (current.toNat - next.toNat) / 2 ^ 96
  up : ∀ current target liquidity remaining fee next amountIn amountOut feeAmount,
    MIN_SQRT_RATIO ≤ current → current < target → target ≤ MAX_SQRT_RATIO → liquidity < 2 ^ 128 →
    0 ≤ remaining.toInt → fee < 10 ^ 6 →
    math.computeSwapStep current target liquidity remaining fee =
      .ok (next, amountIn, amountOut, feeAmount) →
    amountOut.toNat =
      liquidity * 2 ^ 96 * (next.toNat - current.toNat) / next.toNat / current.toNat

/-- What a step takes in, pays out and keeps as fee. -/
structure SwapStep where
  amountIn : U256
  amountOut : U256
  feeAmount : U256
  deriving DecidableEq, Repr

/-- The input that the steps have taken, and the output that they have paid. -/
def taken (steps : List SwapStep) : Nat :=
  (steps.map fun step => step.amountIn.toNat + step.feeAmount.toNat).sum

def paid (steps : List SwapStep) : Nat := (steps.map fun step => step.amountOut.toNat).sum

@[simp] theorem taken_nil : taken [] = 0 := rfl

@[simp] theorem paid_nil : paid [] = 0 := rfl

@[simp] theorem taken_append (steps : List SwapStep) (step : SwapStep) :
    taken (steps ++ [step]) = taken steps + (step.amountIn.toNat + step.feeAmount.toNat) := by
  simp [taken]

@[simp] theorem paid_append (steps : List SwapStep) (step : SwapStep) :
    paid (steps ++ [step]) = paid steps + step.amountOut.toNat := by
  simp [paid]

/-- The step that the mathematics computes in the round from `t` to `t'`. -/
def TookStep (math : UniswapV3Math) (tickBitmap : HashMap Int U256) (tickSpacing : Int) (fee : Nat)
    (zeroForOne : Bool) (t t' : CurrentState) (step : SwapStep) : Prop :=
  ∃ tickNext initialized sqrtPriceNext,
    math.nextInitializedTickWithinOneWord tickBitmap t.tick tickSpacing zeroForOne =
      .ok (tickNext, initialized) ∧
    math.getSqrtRatioAtTick (clampTick tickNext) = .ok sqrtPriceNext ∧
    math.computeSwapStep t.sqrtPriceX96 (swapTarget zeroForOne sqrtPriceNext) t.liquidity
      t.amountSpecifiedRemaining fee =
        .ok (t'.sqrtPriceX96, step.amountIn, step.amountOut, step.feeAmount)

/-- The runs of a loop from `s`, with the steps of their rounds. -/
inductive SwapRuns (zeroForOne : Bool) (round : CurrentState → Outcome AMMError CurrentState)
    (took : CurrentState → CurrentState → SwapStep → Prop) (s : CurrentState) :
    List SwapStep → CurrentState → Prop
  | start : SwapRuns zeroForOne round took s [] s
  | round {steps : List SwapStep} {t t' : CurrentState} {step : SwapStep} :
    SwapRuns zeroForOne round took s steps t → swapGuard zeroForOne t = true → round t = .ok t' →
    took t t' step → SwapRuns zeroForOne round took s (steps ++ [step]) t'

/-- How far the tick has moved in the direction of the swap. -/
def travel (zeroForOne : Bool) (s t : CurrentState) : Int :=
  if zeroForOne then s.tick - t.tick else t.tick - s.tick

/-- Price and tick move in the direction of the swap. -/
structure MovesOn (zeroForOne : Bool) (t t' : CurrentState) : Prop where
  price : if zeroForOne then t'.sqrtPriceX96 ≤ t.sqrtPriceX96 else t.sqrtPriceX96 ≤ t'.sqrtPriceX96
  tick : 0 ≤ travel zeroForOne t t'

/-- **The loop is sound**: it ends; at each of its heads the remaining input is not negative and is
the input less what the steps have taken; its rounds move price and tick in the direction of the
swap; and what the swap returns is the sum of what the steps have paid. -/
structure LoopSound (zeroForOne : Bool) (round : CurrentState → Outcome AMMError CurrentState)
    (took : CurrentState → CurrentState → SwapStep → Prop) (s : CurrentState) (amountIn : U256)
    (swap : Nat → Option (Outcome AMMError U256)) : Prop where
  ends : ∀ fuel, 1774546 < fuel → ∃ result, swap fuel = some result
  traced : ∀ t, Loop.Heads (swapGuard zeroForOne) round s t →
    ∃ steps, SwapRuns zeroForOne round took s steps t
  conserves : ∀ steps t, SwapRuns zeroForOne round took s steps t →
    0 ≤ t.amountSpecifiedRemaining.toInt ∧
      t.amountSpecifiedRemaining.toInt = (amountIn.toNat : Int) - taken steps
  monotone : ∀ steps t t', SwapRuns zeroForOne round took s steps t →
    swapGuard zeroForOne t = true → round t = .ok t' → MovesOn zeroForOne t t'
  returns : ∀ fuel amountOut, swap fuel = some (.ok amountOut) →
    ∃ steps t, SwapRuns zeroForOne round took s steps t ∧ swapGuard zeroForOne t = false ∧
      amountOut.toNat = paid steps

/-! ## One round -/

namespace UniswapV3Pool

variable {math : UniswapV3Math} {prof : BuildProfile} {pool : UniswapV3Pool} {zeroForOne : Bool}
  {t t' : CurrentState} {step : SwapStep}

/-- A round that returns took a step. -/
theorem exists_tookStep (h : pool.swapRound math prof zeroForOne t = .ok t') :
    ∃ step, TookStep math pool.tickBitmap pool.tickSpacing pool.fee zeroForOne t t' step := by
  obtain ⟨tickNext, initialized, sqrtPriceNext, amountIn, amountOut, feeAmount, hnext, hratio,
    hstep, -⟩ := swapRound_cases h
  exact ⟨⟨amountIn, amountOut, feeAmount⟩, tickNext, initialized, sqrtPriceNext, hnext, hratio,
    hstep⟩

/-- The step of a round, and what the round does with it. -/
theorem swapRound_tookStep (h : pool.swapRound math prof zeroForOne t = .ok t')
    (htook : TookStep math pool.tickBitmap pool.tickSpacing pool.fee zeroForOne t t' step) :
    ∃ tickNext initialized sqrtPriceNext,
      math.nextInitializedTickWithinOneWord pool.tickBitmap t.tick pool.tickSpacing zeroForOne =
        .ok (tickNext, initialized) ∧
      math.getSqrtRatioAtTick (clampTick tickNext) = .ok sqrtPriceNext ∧
      math.computeSwapStep t.sqrtPriceX96 (swapTarget zeroForOne sqrtPriceNext) t.liquidity
        t.amountSpecifiedRemaining pool.fee =
          .ok (t'.sqrtPriceX96, step.amountIn, step.amountOut, step.feeAmount) ∧
      t'.amountSpecifiedRemaining = t.amountSpecifiedRemaining - (step.amountIn + step.feeAmount) ∧
      prof.subI256 (ε := AMMError) t.amountCalculated step.amountOut = .ok t'.amountCalculated ∧
      pool.moveTick math prof zeroForOne t (clampTick tickNext) initialized sqrtPriceNext
        t'.sqrtPriceX96 = .ok (t'.liquidity, t'.tick) := by
  obtain ⟨tickNext, initialized, sqrtPriceNext, amountIn, amountOut, feeAmount, hnext, hratio,
    hstep, hremaining, hsub, hmove⟩ := swapRound_cases h
  obtain ⟨tickNext', initialized', sqrtPriceNext', hnext', hratio', hstep'⟩ := htook
  rw [hnext] at hnext'
  cases hnext'
  rw [hratio] at hratio'
  cases hratio'
  rw [hstep] at hstep'
  cases hstep'
  exact ⟨tickNext, initialized, sqrtPriceNext, hnext, hratio, hstep, hremaining, hsub, hmove⟩

theorem subI256_eq_ok {ε : Type} {a b c : U256} (h : prof.subI256 (ε := ε) a b = .ok c) :
    c = a - b := by
  unfold BuildProfile.subI256 at h
  split at h
  · cases h
  · cases h
    rfl

theorem negI256_eq_ok {ε : Type} {a c : U256} (h : prof.negI256 (ε := ε) a = .ok c) : c = -a := by
  unfold BuildProfile.negI256 at h
  split at h
  · cases h
  · cases h
    rfl

theorem unsigned_lt {ε : Type} {x : Int} {n : Nat} (h : prof.unsigned (ε := ε) 128 x = .ok n) :
    n < 2 ^ 128 := by
  unfold BuildProfile.unsigned at h
  split at h
  · rename_i hrange
    cases h
    omega
  · split at h
    · cases h
    · cases h
      omega

theorem crossTick_lt {liquidity n : Nat} {net : Int}
    (h : crossTick prof liquidity net zeroForOne = .ok n) : n < 2 ^ 128 := by
  unfold crossTick at h
  rw [bind_eq_ok] at h
  obtain ⟨net', -, h⟩ := h
  split at h
  · rw [bind_eq_ok] at h
    obtain ⟨decrease, -, h⟩ := h
    split at h
    · cases h
    · exact unsigned_lt h
  · exact unsigned_lt h

theorem moveTick_lt {tickNext tick : Int} {initialized : Bool} {sqrtPriceNext sqrtPrice : U256}
    {liquidity : Nat} (hlt : t.liquidity < 2 ^ 128)
    (h : pool.moveTick math prof zeroForOne t tickNext initialized sqrtPriceNext sqrtPrice =
      .ok (liquidity, tick)) : liquidity < 2 ^ 128 := by
  rcases moveTick_cases h with ⟨-, -, hreach⟩ | ⟨-, -, rfl, -⟩ | ⟨-, -, rfl, -⟩
  · unfold reachTick at hreach
    split at hreach
    · exact crossTick_lt hreach
    · cases hreach
      exact hlt
  · exact hlt
  · exact hlt

/-- The target of a step is a price. -/
theorem swapTarget_range {sqrtPriceNext : U256} (h0 : MIN_SQRT_RATIO ≤ sqrtPriceNext)
    (h1 : sqrtPriceNext ≤ MAX_SQRT_RATIO) :
    MIN_SQRT_RATIO ≤ swapTarget zeroForOne sqrtPriceNext ∧
      swapTarget zeroForOne sqrtPriceNext ≤ MAX_SQRT_RATIO := by
  unfold swapTarget sqrtPriceLimit MIN_SQRT_RATIO MAX_SQRT_RATIO at *
  cases zeroForOne with
  | true =>
    simp only [↓reduceIte]
    split <;> bv_omega
  | false =>
    simp only [Bool.false_eq_true, ↓reduceIte]
    split <;> bv_omega

theorem clampTick_range (tick : Int) : MIN_TICK ≤ clampTick tick ∧ clampTick tick ≤ MAX_TICK := by
  unfold clampTick MIN_TICK MAX_TICK
  omega

/-- A step that is not the last one has reached its next tick. -/
theorem reached_of_guard {sqrtPriceNext sqrtPrice : U256}
    (hne : sqrtPrice ≠ sqrtPriceLimit zeroForOne)
    (htarget : sqrtPrice = swapTarget zeroForOne sqrtPriceNext) : sqrtPrice = sqrtPriceNext := by
  unfold swapTarget at htarget
  cases zeroForOne with
  | true =>
    simp only [↓reduceIte] at htarget
    split at htarget
    · exact absurd htarget hne
    · exact htarget
  | false =>
    simp only [Bool.false_eq_true, ↓reduceIte] at htarget
    split at htarget
    · exact absurd htarget hne
    · exact htarget

/-- What a step pays out is bounded by the liquidity over the lowest price. -/
theorem paidOut_le (hout : math.PaysOut) {current target remaining next amountIn amountOut
    feeAmount : U256} {liquidity fee : Nat} (hmin : MIN_SQRT_RATIO ≤ current)
    (hmax : current ≤ MAX_SQRT_RATIO) (htarget0 : MIN_SQRT_RATIO ≤ target)
    (htarget1 : target ≤ MAX_SQRT_RATIO) (hliquidity : liquidity < 2 ^ 128)
    (hremaining : 0 ≤ remaining.toInt) (hfee : fee < 10 ^ 6)
    (hstep : math.computeSwapStep current target liquidity remaining fee =
      .ok (next, amountIn, amountOut, feeAmount)) : amountOut.toNat ≤ 2 ^ 192 := by
  have hmin' : 2 ^ 32 ≤ current.toNat := by
    have hval : MIN_SQRT_RATIO.toNat = 4295128739 := rfl
    rw [BitVec.le_def, hval] at hmin
    omega
  have hmax' : current.toNat ≤ 2 ^ 160 := by
    have hval : MAX_SQRT_RATIO.toNat = 1461446703485210103287273052203988822378723970342 := rfl
    rw [BitVec.le_def, hval] at hmax
    omega
  by_cases hdown : target ≤ current
  · rw [hout.down _ _ _ _ _ _ _ _ _ htarget0 hdown hmax hliquidity hremaining hfee hstep]
    apply Nat.div_le_of_le_mul
    calc liquidity * (current.toNat - next.toNat) ≤ 2 ^ 128 * 2 ^ 160 :=
          Nat.mul_le_mul hliquidity.le (by omega)
      _ = 2 ^ 96 * (2 ^ 32 * 2 ^ 160) := by
        rw [← Nat.mul_assoc, ← Nat.pow_add 2 96 32, ← Nat.pow_add]
      _ = 2 ^ 96 * 2 ^ 192 := by rw [← Nat.pow_add]
  · rw [hout.up _ _ _ _ _ _ _ _ _ hmin (BitVec.not_le.mp hdown) htarget1 hliquidity hremaining
      hfee hstep]
    apply Nat.div_le_of_le_mul
    calc liquidity * 2 ^ 96 * (next.toNat - current.toNat) / next.toNat ≤ liquidity * 2 ^ 96 := by
          apply Nat.div_le_of_le_mul
          rw [Nat.mul_comm]
          exact Nat.mul_le_mul_right _ (Nat.sub_le _ _)
      _ ≤ 2 ^ 128 * 2 ^ 96 := Nat.mul_le_mul_right _ hliquidity.le
      _ = 2 ^ 32 * 2 ^ 192 := by rw [← Nat.pow_add, ← Nat.pow_add]
      _ ≤ current.toNat * 2 ^ 192 := Nat.mul_le_mul_right _ hmin'

/-- The fields the loop reads are in their ranges. -/
structure Ready (math : UniswapV3Math) (pool : UniswapV3Pool) : Prop where
  swappable : Swappable math pool
  liquidity : pool.liquidity < 2 ^ 128

section Round

variable (hmath : math.Spec) (hpool : Swappable math pool)
  (hpriced : Priced math t.sqrtPriceX96 t.tick) (hremaining : 0 ≤ t.amountSpecifiedRemaining.toInt)
  (hround : pool.swapRound math prof zeroForOne t = .ok t')
include hmath hpool hpriced hround

/-- **A round moves on**, and keeps the price fit to the tick. -/
theorem swapRound_movesOn :
    Priced math t'.sqrtPriceX96 t'.tick ∧ MovesOn zeroForOne t t' := by
  obtain ⟨hspacing, hspacing', hfee, -⟩ := hpool
  cases zeroForOne with
  | true =>
    obtain ⟨n, hn⟩ := swapRound_down hmath hspacing hspacing' hfee hpriced hround
    refine ⟨hn.priced, hn.price_le, ?_⟩
    have hle := hn.next_le
    have hmove := hn.move
    unfold travel
    rw [if_pos rfl]
    omega
  | false =>
    obtain ⟨n, hn⟩ := swapRound_up hmath hspacing hspacing' hfee hpriced hround
    refine ⟨hn.priced, hn.le_price, ?_⟩
    have hlt := hn.lt_next
    have hmove := hn.move
    unfold travel
    rw [if_neg Bool.false_ne_true]
    omega

include hremaining

/-- **Progress**: a round after which the loop goes on has moved the tick. -/
theorem swapRound_progress (hguard : swapGuard zeroForOne t' = true) :
    1 ≤ travel zeroForOne t t' := by
  obtain ⟨hspacing, hspacing', hfee, -⟩ := hpool
  obtain ⟨tickNext, initialized, sqrtPriceNext, amountIn, amountOut, feeAmount, hnext, hratio,
    hstep, hrem, -, hmove⟩ := swapRound_cases hround
  unfold swapGuard at hguard
  rw [Bool.and_eq_true, decide_eq_true_iff, decide_eq_true_iff] at hguard
  obtain ⟨hleft, hlimit⟩ := hguard
  have hclamp := clampTick_range tickNext
  have htick : ∀ htarget : t'.sqrtPriceX96 = swapTarget zeroForOne sqrtPriceNext,
      t'.tick = if zeroForOne then clampTick tickNext - 1 else clampTick tickNext := by
    intro htarget
    have hreached := reached_of_guard hlimit htarget
    rcases moveTick_cases hmove with ⟨-, htick, -⟩ | ⟨hne, -⟩ | ⟨hne, -⟩
    · rw [wrappingPred_of_range hclamp.1 hclamp.2] at htick
      exact htick
    · exact absurd hreached hne
    · exact absurd hreached hne
  cases zeroForOne with
  | true =>
    obtain ⟨htakes, n, hn⟩ := stepDown hmath hspacing hspacing' hfee hpriced hnext hratio hstep
    have htarget : t'.sqrtPriceX96 = swapTarget true sqrtPriceNext := by
      by_contra hne
      rw [hrem, htakes.all hremaining hne] at hleft
      exact hleft (BitVec.sub_self _)
    have hmoved := htick htarget
    have hle := hn.clamp_le
    unfold travel
    rw [if_pos rfl] at hmoved ⊢
    omega
  | false =>
    obtain ⟨htakes, n, hn⟩ := stepUp hmath hspacing hspacing' hfee hpriced hnext hratio hstep
    have htarget : t'.sqrtPriceX96 = swapTarget false sqrtPriceNext := by
      by_contra hne
      rw [hrem, htakes.all hremaining hne] at hleft
      exact hleft (BitVec.sub_self _)
    have hmoved := htick htarget
    have hlt := hn.lt_clamp
    unfold travel
    rw [if_neg Bool.false_ne_true] at hmoved ⊢
    omega

/-- A step takes no more than what remains, and pays out less than `2 ^ 192`. -/
theorem swapRound_amounts (hout : math.PaysOut) (hliquidity : t.liquidity < 2 ^ 128)
    (htook : TookStep math pool.tickBitmap pool.tickSpacing pool.fee zeroForOne t t' step) :
    step.amountIn.toNat + step.feeAmount.toNat ≤ t.amountSpecifiedRemaining.toNat ∧
      t'.amountSpecifiedRemaining.toNat + (step.amountIn.toNat + step.feeAmount.toNat) =
        t.amountSpecifiedRemaining.toNat ∧
      t'.amountCalculated = t.amountCalculated - step.amountOut ∧
      t'.liquidity < 2 ^ 128 ∧ step.amountOut.toNat ≤ 2 ^ 192 := by
  obtain ⟨tickNext, initialized, sqrtPriceNext, -, hratio, hstep, hrem, hsub, hmove⟩ :=
    swapRound_tookStep hround htook
  have hclamp := clampTick_range tickNext
  have hnext0 := hmath.ratio_le (by omega) hclamp.1 hclamp.2 hmath.ratioMin hratio
  have hnext1 := hmath.ratio_le hclamp.1 hclamp.2 (by omega) hratio hmath.ratioMax
  obtain ⟨htarget0, htarget1⟩ := @swapTarget_range zeroForOne _ hnext0 hnext1
  have hmin := BitVec.le_of_lt hpriced.gtMin
  have hmax := BitVec.le_of_lt hpriced.ltMax
  obtain ⟨-, -, hin, -⟩ := hmath.swapStep _ _ _ _ _ _ _ _ _ hmin hmax htarget0 htarget1
    hpool.fee_lt hstep
  have hle := (hin hremaining).1
  have hremlt := t.amountSpecifiedRemaining.isLt
  have hsum : (step.amountIn + step.feeAmount).toNat =
      step.amountIn.toNat + step.feeAmount.toNat := by
    rw [BitVec.toNat_add, Nat.mod_eq_of_lt (by omega)]
  refine ⟨hle, ?_, subI256_eq_ok hsub, moveTick_lt hliquidity hmove, ?_⟩
  · rw [hrem, BitVec.toNat_sub_of_le (by rw [BitVec.le_def, hsum]; exact hle), hsum]
    omega
  · exact paidOut_le hout hmin hmax htarget0 htarget1 hliquidity hremaining hpool.fee_lt hstep

end Round

/-! ## Runs -/

/-- What holds along a run from `s` with the input `amountIn`. Each step has moved the tick, except
the last one of a run that has ended. -/
structure RunInv (math : UniswapV3Math) (zeroForOne : Bool) (s : CurrentState) (amountIn : U256)
    (steps : List SwapStep) (t : CurrentState) : Prop where
  priced : Priced math t.sqrtPriceX96 t.tick
  remaining : t.amountSpecifiedRemaining.toNat + taken steps = amountIn.toNat
  liquidity : t.liquidity < 2 ^ 128
  calculated : t.amountCalculated = -BitVec.ofNat 256 (paid steps)
  travelled : 0 ≤ travel zeroForOne s t
  paid_le : (paid steps : Int) ≤ 2 ^ 192 * (travel zeroForOne s t + 1)
  paid_le_of_guard : swapGuard zeroForOne t = true →
    (paid steps : Int) ≤ 2 ^ 192 * travel zeroForOne s t

theorem travel_self (s : CurrentState) : travel zeroForOne s s = 0 := by
  unfold travel
  split <;> omega

theorem travel_trans (s t t' : CurrentState) :
    travel zeroForOne s t' = travel zeroForOne s t + travel zeroForOne t t' := by
  unfold travel
  split <;> omega

theorem toInt_of_lt {x : U256} (h : x.toNat < 2 ^ 255) : x.toInt = x.toNat := by
  rw [BitVec.toInt_eq_toNat_cond, if_pos (by omega)]

variable {s : CurrentState} {amountIn : U256} {steps : List SwapStep}

theorem RunInv.nonneg (h : RunInv math zeroForOne s amountIn steps t)
    (hamount : amountIn.toNat < 2 ^ 255) : 0 ≤ t.amountSpecifiedRemaining.toInt := by
  have := h.remaining
  rw [toInt_nonneg_iff]
  omega

/-- The sum that has been paid is far from `2 ^ 256`. -/
theorem RunInv.paid_lt (h : RunInv math zeroForOne s amountIn steps t)
    (hs : Priced math s.sqrtPriceX96 s.tick) : paid steps < 2 ^ 256 := by
  have hle := h.paid_le
  have h0 := hs.minTick
  have h1 := hs.maxTick
  have h2 := h.priced.minTick
  have h3 := h.priced.maxTick
  unfold travel MIN_TICK MAX_TICK at *
  split at hle
  · omega
  · omega

theorem runInv_start (hs : Priced math s.sqrtPriceX96 s.tick) (hliquidity : s.liquidity < 2 ^ 128)
    (hremaining : s.amountSpecifiedRemaining = amountIn) (hcalculated : s.amountCalculated = 0) :
    RunInv math zeroForOne s amountIn [] s where
  priced := hs
  remaining := by rw [hremaining, taken_nil, Nat.add_zero]
  liquidity := hliquidity
  calculated := by rw [hcalculated, paid_nil]; rfl
  travelled := by rw [travel_self]
  paid_le := by rw [travel_self, paid_nil]; decide
  paid_le_of_guard := by intro; rw [travel_self, paid_nil]; decide

/-- **One round of a run** keeps the invariant. -/
theorem RunInv.round (hmath : math.Spec) (hout : math.PaysOut) (hpool : Swappable math pool)
    (hamount : amountIn.toNat < 2 ^ 255) (h : RunInv math zeroForOne s amountIn steps t)
    (hguard : swapGuard zeroForOne t = true)
    (hround : pool.swapRound math prof zeroForOne t = .ok t')
    (htook : TookStep math pool.tickBitmap pool.tickSpacing pool.fee zeroForOne t t' step) :
    RunInv math zeroForOne s amountIn (steps ++ [step]) t' := by
  have hremaining := h.nonneg hamount
  obtain ⟨hpriced, hmoves⟩ := swapRound_movesOn hmath hpool h.priced hround
  obtain ⟨hle, hrem, hcalc, hliq, hpaid⟩ :=
    swapRound_amounts hmath hpool h.priced hremaining hround hout h.liquidity htook
  have hbefore := h.paid_le_of_guard hguard
  have htravelled := h.travelled
  have htick := hmoves.tick
  refine ⟨hpriced, ?_, hliq, ?_, ?_, ?_, fun hguard' => ?_⟩
  · have := h.remaining
    rw [taken_append]
    omega
  · rw [hcalc, h.calculated, paid_append, BitVec.ofNat_add, BitVec.ofNat_toNat, BitVec.setWidth_eq]
    ring
  · rw [travel_trans s t t']
    omega
  · rw [travel_trans s t t', paid_append]
    push_cast
    omega
  · have hprogress := swapRound_progress hmath hpool h.priced hremaining hround hguard'
    rw [travel_trans s t t', paid_append]
    push_cast
    omega

section Sound

variable (hmath : math.Spec) (hout : math.PaysOut) (hpool : Ready math pool)
  (hamount : amountIn.toNat < 2 ^ 255) {round : CurrentState → Outcome AMMError CurrentState}
  (hround : ∀ t t', round t = .ok t' → pool.swapRound math prof zeroForOne t = .ok t')
include hmath hout hpool hamount hround

/-- Every run from the first state of the loop. -/
theorem runInv_of_runs (h : SwapRuns zeroForOne round
      (TookStep math pool.tickBitmap pool.tickSpacing pool.fee zeroForOne)
      (pool.initialState amountIn) steps t) :
    RunInv math zeroForOne (pool.initialState amountIn) amountIn steps t := by
  induction h with
  | start => exact runInv_start hpool.swappable.priced hpool.liquidity rfl rfl
  | round _ hguard hok htook ih =>
    exact ih.round hmath hout hpool.swappable hamount hguard (hround _ _ hok) htook

omit hmath hout hpool hamount in
theorem exists_runs (h : Loop.Heads (swapGuard zeroForOne) round s t) :
    ∃ steps, SwapRuns zeroForOne round
      (TookStep math pool.tickBitmap pool.tickSpacing pool.fee zeroForOne) s steps t := by
  induction h with
  | refl => exact ⟨[], .start⟩
  | tail _ hstep ih =>
    obtain ⟨steps, hsteps⟩ := ih
    obtain ⟨step, htook⟩ := exists_tookStep (hround _ _ hstep.2)
    exact ⟨_, hsteps.round hstep.1 hstep.2 htook⟩

/-- The ticks that are left in the direction of the swap, while the loop goes on. -/
def ticksLeft (zeroForOne : Bool) (t : CurrentState) : Nat :=
  if swapGuard zeroForOne t then
    (if zeroForOne then t.tick - MIN_TICK else MAX_TICK - t.tick).toNat + 1
  else 0

/-- **The loop ends**: a round that is not the last one leaves fewer ticks. -/
theorem loop_ends {fuel : Nat} (hfuel : 1774546 < fuel) :
    ∃ r, Loop.run (swapGuard zeroForOne) round fuel (pool.initialState amountIn) = some r := by
  have hstart : RunInv math zeroForOne (pool.initialState amountIn) amountIn []
      (pool.initialState amountIn) :=
    runInv_start hpool.swappable.priced hpool.liquidity rfl rfl
  refine Loop.run_total (I := fun t => ∃ steps,
    RunInv math zeroForOne (pool.initialState amountIn) amountIn steps t) (ticksLeft zeroForOne)
    (fun t ht hguard => ?_) ⟨[], hstart⟩ ?_
  · obtain ⟨steps, hinv⟩ := ht
    cases hok : round t with
    | error e => exact Or.inl ⟨e, rfl⟩
    | ok t' =>
      have hok' := hround t t' hok
      obtain ⟨step, htook⟩ := exists_tookStep hok'
      have hinv' := hinv.round hmath hout hpool.swappable hamount hguard hok' htook
      refine Or.inr ⟨t', rfl, ⟨_, hinv'⟩, ?_⟩
      unfold ticksLeft
      rw [if_pos hguard]
      by_cases hguard' : swapGuard zeroForOne t' = true
      · have hprogress := swapRound_progress hmath hpool.swappable hinv.priced
          (hinv.nonneg hamount) hok' hguard'
        have h0 := hinv'.priced.minTick
        have h1 := hinv'.priced.maxTick
        rw [if_pos hguard']
        unfold travel at hprogress
        split at hprogress
        · rename_i hdown
          rw [if_pos hdown, if_pos hdown]
          omega
        · rename_i hup
          rw [if_neg hup, if_neg hup]
          omega
      · rw [if_neg hguard']
        omega
  · have h0 := hpool.swappable.priced.minTick
    have h1 := hpool.swappable.priced.maxTick
    have htick : (pool.initialState amountIn).tick = pool.tick := rfl
    unfold ticksLeft MIN_TICK MAX_TICK at *
    rw [htick]
    split
    · split
      · omega
      · omega
    · omega

/-- A loop over rounds that return what those of the pool return is sound. -/
theorem loopSound {swap : Nat → Option (Outcome AMMError U256)}
    (hswap : ∀ fuel, swap fuel = if amountIn = 0 then some (.ok 0)
      else (Loop.run (swapGuard zeroForOne) round fuel (pool.initialState amountIn)).map
        fun result => result >>= fun s => prof.negI256 s.amountCalculated) :
    LoopSound zeroForOne round (TookStep math pool.tickBitmap pool.tickSpacing pool.fee zeroForOne)
      (pool.initialState amountIn) amountIn swap where
  ends := by
    intro fuel hfuel
    obtain ⟨r, hr⟩ := loop_ends hmath hout hpool hamount hround hfuel
    rw [hswap, hr]
    split
    · exact ⟨_, rfl⟩
    · exact ⟨_, rfl⟩
  traced := fun t ht => exists_runs hround ht
  conserves := by
    intro steps t h
    have hinv := runInv_of_runs hmath hout hpool hamount hround h
    have hrem := hinv.remaining
    refine ⟨hinv.nonneg hamount, ?_⟩
    rw [toInt_of_lt (by omega)]
    omega
  monotone := by
    intro steps t t' h _ hok
    have hinv := runInv_of_runs hmath hout hpool hamount hround h
    exact (swapRound_movesOn hmath hpool.swappable hinv.priced (hround _ _ hok)).2
  returns := by
    intro fuel amountOut h
    rw [hswap] at h
    split at h
    · rename_i hzero
      cases h
      refine ⟨[], _, .start, ?_, rfl⟩
      have hrem : (pool.initialState amountIn).amountSpecifiedRemaining = 0 := hzero
      unfold swapGuard
      rw [hrem]
      rfl
    · obtain ⟨result, hrun, hresult⟩ := Option.map_eq_some_iff.mp h
      rcases Loop.run_eq_some hrun with ⟨t, rfl, hheads, hend⟩ | ⟨t, e, rfl, -⟩
      · obtain ⟨steps, hsteps⟩ := exists_runs hround hheads
        have hinv := runInv_of_runs hmath hout hpool hamount hround hsteps
        have hneg := negI256_eq_ok hresult
        refine ⟨steps, t, hsteps, hend, ?_⟩
        rw [hneg, hinv.calculated, BitVec.neg_neg, BitVec.toNat_ofNat,
          Nat.mod_eq_of_lt (hinv.paid_lt hpool.swappable.priced)]
      · cases hresult

end Sound

end UniswapV3Pool

/-! ## Both copies -/

/-- The Uniswap pool with the fields that the loop of an Agni pool reads. -/
def AgniPool.toUniswapV3 (agni : AgniPool) : UniswapV3Pool :=
  { UniswapV3Pool.new agni.address with
    tokenA := agni.tokenA, tokenB := agni.tokenB, liquidity := agni.liquidity,
    sqrtPrice := agni.sqrtPrice, fee := agni.fee, tick := agni.tick,
    tickSpacing := agni.tickSpacing, tickBitmap := agni.tickBitmap, ticks := agni.ticks }

theorem AgniPool.sameFields (agni : AgniPool) : SameFields agni.toUniswapV3 agni :=
  ⟨rfl, rfl, rfl, rfl, rfl, rfl, rfl, rfl⟩

theorem AgniPool.swapRound_of_ok {math : UniswapV3Math} {prof : BuildProfile} {agni : AgniPool}
    {zeroForOne : Bool} {t t' : CurrentState}
    (h : agni.swapRound math prof zeroForOne t = .ok t') :
    agni.toUniswapV3.swapRound math prof zeroForOne t = .ok t' := by
  rcases (agni.sameFields.swapRound t).cases_fault with ⟨u, hpool, hagni⟩ | ⟨e, e', -, hagni, -⟩
  · rw [hagni] at h
    cases h
    exact hpool
  · rw [hagni] at h
    cases h

/-- **The swap loops** of both copies are sound for every input below `2 ^ 255`. -/
theorem simulateSwap_loopSound {math : UniswapV3Math} (hmath : math.Spec) (hout : math.PaysOut)
    {pool : UniswapV3Pool} {agni : AgniPool} (hpool : pool.Ready math)
    (hagni : agni.toUniswapV3.Ready math) (prof : BuildProfile) (baseToken : Address)
    {amountIn : U256} (hamount : amountIn.toNat < 2 ^ 255) :
    LoopSound (baseToken == pool.tokenA.address)
      (pool.swapRound math prof (baseToken == pool.tokenA.address))
      (TookStep math pool.tickBitmap pool.tickSpacing pool.fee (baseToken == pool.tokenA.address))
      (pool.initialState amountIn) amountIn
      (fun fuel => pool.simulateSwap math prof fuel baseToken amountIn) ∧
    LoopSound (baseToken == agni.tokenA.address)
      (agni.swapRound math prof (baseToken == agni.tokenA.address))
      (TookStep math agni.tickBitmap agni.tickSpacing agni.fee (baseToken == agni.tokenA.address))
      (agni.initialState amountIn) amountIn
      (fun fuel => agni.simulateSwap math prof fuel baseToken amountIn) :=
  ⟨UniswapV3Pool.loopSound hmath hout hpool hamount (fun _ _ h => h) fun _ => rfl,
    UniswapV3Pool.loopSound hmath hout hagni hamount
      (fun _ _ h => AgniPool.swapRound_of_ok h) fun _ => rfl⟩

/-! ## The sample mathematics -/

theorem UniswapV3Math.sample_paysOut : sample.PaysOut where
  down := by
    intro current target liquidity remaining fee next amountIn amountOut feeAmount _ _ _ _ _ _ h
    obtain ⟨rfl, rfl, ⟨rfl, rfl, heq⟩ | ⟨rfl, rfl, rfl, heq⟩ | ⟨rfl, rfl, rfl, heq⟩⟩ :=
      sampleStep_eq_ok h
    · cases heq
      simp
    · cases heq
      rfl
    · cases heq
      simp
  up := by
    intro current target liquidity remaining fee next amountIn amountOut feeAmount _ hlt _ _ _ _ h
    obtain ⟨rfl, rfl, ⟨rfl, rfl, heq⟩ | ⟨rfl, rfl, rfl, heq⟩ | ⟨rfl, rfl, rfl, heq⟩⟩ :=
      sampleStep_eq_ok h
    · cases heq
      simp
    · exact absurd hlt (by decide)
    · cases heq
      simp

theorem UniswapV3Pool.ready_twoSidedPool : Ready .sample twoSidedPool :=
  ⟨swappable_twoSidedPool, by decide⟩

theorem ready_twoSidedAgni : twoSidedAgni.toUniswapV3.Ready .sample :=
  ⟨⟨by decide, by decide, by decide, UniswapV3Pool.swappable_twoSidedPool.priced⟩, by decide⟩

theorem simulateSwap_loopSound_twoSided :
    LoopSound (1 == UniswapV3Pool.twoSidedPool.tokenA.address)
      (UniswapV3Pool.twoSidedPool.swapRound .sample ⟨true⟩
        (1 == UniswapV3Pool.twoSidedPool.tokenA.address))
      (TookStep .sample UniswapV3Pool.twoSidedPool.tickBitmap UniswapV3Pool.twoSidedPool.tickSpacing
        UniswapV3Pool.twoSidedPool.fee (1 == UniswapV3Pool.twoSidedPool.tokenA.address))
      (UniswapV3Pool.twoSidedPool.initialState 1000000000#256) 1000000000#256
      (fun fuel => UniswapV3Pool.twoSidedPool.simulateSwap .sample ⟨true⟩ fuel 1 1000000000#256) ∧
    LoopSound (1 == twoSidedAgni.tokenA.address)
      (twoSidedAgni.swapRound .sample ⟨true⟩ (1 == twoSidedAgni.tokenA.address))
      (TookStep .sample twoSidedAgni.tickBitmap twoSidedAgni.tickSpacing twoSidedAgni.fee
        (1 == twoSidedAgni.tokenA.address))
      (twoSidedAgni.initialState 1000000000#256) 1000000000#256
      (fun fuel => twoSidedAgni.simulateSwap .sample ⟨true⟩ fuel 1 1000000000#256) :=
  simulateSwap_loopSound UniswapV3Math.sample_spec UniswapV3Math.sample_paysOut
    UniswapV3Pool.ready_twoSidedPool ready_twoSidedAgni ⟨true⟩ 1 (by decide)

end ArbitrageBot
