import ArbitrageBot.Amms.Agni.Swap
import ArbitrageBot.Amms.UniswapV3.SwapCoherence

/-!
# The copies of the concentrated-liquidity loop

The loops of `UniswapV3Pool` and of `AgniPool` do the same on the same fields, up to the type of
their errors. The two `simulate_swap_mut` differ in what they leave behind: the Agni one copies
the fields of its untouched clone.
-/

namespace ArbitrageBot

open Lib

/-- Both return the same value, or both fail: with an `Err` each, or with a panic each. -/
inductive SameOutcome {α : Type} : Outcome AMMError α → Outcome AMMError α → Prop
  | ok (a : α) : SameOutcome (.ok a) (.ok a)
  | err (e e' : AMMError) : SameOutcome (.error (.err e)) (.error (.err e'))
  | panic : SameOutcome (.error .panic) (.error .panic)

namespace SameOutcome

variable {α β : Type} {x y : Outcome AMMError α} {f g : α → Outcome AMMError β}

protected theorem refl (x : Outcome AMMError α) : SameOutcome x x := by
  cases x with
  | ok a => exact .ok a
  | error e =>
    cases e with
    | err e => exact .err e e
    | panic => exact .panic

theorem bind (h : SameOutcome x y) (hf : ∀ a, SameOutcome (f a) (g a)) :
    SameOutcome (x >>= f) (y >>= g) := by
  cases h with
  | ok a => exact hf a
  | err e e' => exact .err e e'
  | panic => exact .panic

/-- Two related failures. -/
def SameFault (e e' : Fault AMMError) : Prop :=
  SameOutcome (α := Empty) (.error e) (.error e')

theorem cases_fault (h : SameOutcome x y) : (∃ a, x = .ok a ∧ y = .ok a) ∨
    ∃ e e', x = .error e ∧ y = .error e' ∧ SameFault e e' := by
  cases h with
  | ok a => exact Or.inl ⟨a, rfl, rfl⟩
  | err e e' => exact Or.inr ⟨_, _, rfl, rfl, .err e e'⟩
  | panic => exact Or.inr ⟨_, _, rfl, rfl, .panic⟩

theorem ofFault {e e' : Fault AMMError} (h : SameFault e e') :
    SameOutcome (α := α) (.error e) (.error e') := by
  cases h with
  | err e e' => exact .err e e'
  | panic => exact .panic

end SameOutcome

/-- The fields the loop reads are the same in both pools. -/
structure SameFields (pool : UniswapV3Pool) (agni : AgniPool) : Prop where
  tokenA : agni.tokenA.address = pool.tokenA.address
  liquidity : agni.liquidity = pool.liquidity
  sqrtPrice : agni.sqrtPrice = pool.sqrtPrice
  fee : agni.fee = pool.fee
  tick : agni.tick = pool.tick
  tickSpacing : agni.tickSpacing = pool.tickSpacing
  tickBitmap : agni.tickBitmap = pool.tickBitmap
  ticks : agni.ticks = pool.ticks

namespace SameFields

variable {math : UniswapV3Math} {prof : BuildProfile} {pool : UniswapV3Pool} {agni : AgniPool}
  {zeroForOne : Bool} (h : SameFields pool agni)

theorem liftMath {α : Type} (x : Except UniswapV3MathError α) :
    SameOutcome (UniswapV3Pool.liftMath x) (AgniPool.liftMath x) := by
  cases x with
  | ok a => exact .ok a
  | error e => exact .err _ _

theorem crossTick (liquidity : Nat) (liquidityNet : Int) :
    SameOutcome (UniswapV3Pool.crossTick prof liquidity liquidityNet zeroForOne)
      (AgniPool.crossTick prof liquidity liquidityNet zeroForOne) := by
  unfold UniswapV3Pool.crossTick AgniPool.crossTick
  refine SameOutcome.bind (SameOutcome.refl _) fun net => ?_
  by_cases hneg : net < 0
  · rw [if_pos hneg, if_pos hneg]
    refine SameOutcome.bind (SameOutcome.refl _) fun decrease => ?_
    by_cases hlt : liquidity < asU128 decrease
    · rw [if_pos hlt, if_pos hlt]
      exact .err _ _
    · rw [if_neg hlt, if_neg hlt]
      exact SameOutcome.refl _
  · rw [if_neg hneg, if_neg hneg]
    exact SameOutcome.refl _

include h

theorem reachTick (liquidity : Nat) (tickNext : Int) (initialized : Bool) :
    SameOutcome (pool.reachTick prof zeroForOne liquidity tickNext initialized)
      (agni.reachTick prof zeroForOne liquidity tickNext initialized) := by
  unfold UniswapV3Pool.reachTick AgniPool.reachTick
  cases initialized with
  | false => exact .ok _
  | true =>
    rw [if_pos rfl, if_pos rfl, h.ticks]
    cases pool.ticks.lookup tickNext with
    | none => exact crossTick liquidity 0
    | some info => exact crossTick liquidity info.liquidityNet

theorem moveTick (s : CurrentState) (tickNext : Int) (initialized : Bool)
    (sqrtPriceNext sqrtPrice : U256) :
    SameOutcome (pool.moveTick math prof zeroForOne s tickNext initialized sqrtPriceNext sqrtPrice)
      (agni.moveTick math prof zeroForOne s tickNext initialized sqrtPriceNext sqrtPrice) := by
  unfold UniswapV3Pool.moveTick AgniPool.moveTick
  by_cases hp : sqrtPrice = sqrtPriceNext
  · rw [if_pos hp, if_pos hp]
    exact (h.reachTick _ _ _).bind fun _ => .ok _
  · rw [if_neg hp, if_neg hp]
    by_cases hm : sqrtPrice ≠ s.sqrtPriceX96
    · rw [if_pos hm, if_pos hm]
      exact (liftMath _).bind fun _ => .ok _
    · rw [if_neg hm, if_neg hm]
      exact .ok _

/-- **One round does the same in both copies.** -/
theorem swapRound (s : CurrentState) : SameOutcome (pool.swapRound math prof zeroForOne s)
    (agni.swapRound math prof zeroForOne s) := by
  unfold UniswapV3Pool.swapRound AgniPool.swapRound
  rw [h.tickBitmap, h.tickSpacing, h.fee]
  refine (liftMath _).bind fun next => ?_
  refine (liftMath _).bind fun sqrtPriceNext => ?_
  refine (liftMath _).bind fun step => ?_
  refine SameOutcome.bind (SameOutcome.refl _) fun amountCalculated => ?_
  exact (h.moveTick _ _ _ _ _).bind fun _ => .ok _

theorem initialState (amountIn : U256) :
    agni.initialState amountIn = pool.initialState amountIn := by
  unfold AgniPool.initialState UniswapV3Pool.initialState
  rw [h.sqrtPrice, h.tick, h.liquidity]

/-- Both loops end within the fuel, in the same state or with a failure each, or neither does. -/
theorem swapLoop (math : UniswapV3Math) (prof : BuildProfile) (zeroForOne : Bool) (fuel : Nat)
    (amountIn : U256) :
    (pool.swapLoop math prof zeroForOne fuel amountIn = none ∧
      agni.swapLoop math prof zeroForOne fuel amountIn = none) ∨
    (∃ t, pool.swapLoop math prof zeroForOne fuel amountIn = some (.ok t) ∧
      agni.swapLoop math prof zeroForOne fuel amountIn = some (.ok t)) ∨
    ∃ e e', pool.swapLoop math prof zeroForOne fuel amountIn = some (.error e) ∧
      agni.swapLoop math prof zeroForOne fuel amountIn = some (.error e') ∧
      SameOutcome.SameFault e e' := by
  unfold UniswapV3Pool.swapLoop AgniPool.swapLoop
  rw [h.initialState]
  exact Loop.run_rel (fun s => (h.swapRound s).cases_fault) fuel _

end SameFields

/-! ## The states the mutable copies leave -/

section Agreement

variable (math : UniswapV3Math) (prof : BuildProfile) (pool : UniswapV3Pool) (agni : AgniPool)
  (baseToken : Address) (amountIn : U256)

/-- What the four copies should agree on within a number of rounds: they need more rounds all, or
they return the same; after an `Ok` the mutable ones leave the fields of the loop's last state, and
after an `Err` the pool as it was. -/
def CopiesAgreeWithin (fuel : Nat) : Prop :=
  (pool.simulateSwap math prof fuel baseToken amountIn = none ∧
    pool.simulateSwapMut math prof fuel baseToken amountIn = none ∧
    agni.simulateSwap math prof fuel baseToken amountIn = none ∧
    agni.simulateSwapMut math prof fuel baseToken amountIn = none) ∨
  ∃ result pool' result' agni',
    pool.simulateSwap math prof fuel baseToken amountIn = some result ∧
    pool.simulateSwapMut math prof fuel baseToken amountIn = some (result, pool') ∧
    agni.simulateSwap math prof fuel baseToken amountIn = some result' ∧
    agni.simulateSwapMut math prof fuel baseToken amountIn = some (result', agni') ∧
    SameOutcome result result' ∧
    (∀ amountOut, result = .ok amountOut →
      (agni'.liquidity, agni'.sqrtPrice, agni'.tick) =
        (pool'.liquidity, pool'.sqrtPrice, pool'.tick) ∧
      ∀ s, amountIn ≠ 0 →
        pool.swapLoop math prof (baseToken == pool.tokenA.address) fuel amountIn = some (.ok s) →
        (pool'.liquidity, pool'.sqrtPrice, pool'.tick) = (s.liquidity, s.sqrtPriceX96, s.tick)) ∧
    ∀ e, result = .error (.err e) → pool' = pool ∧ agni' = agni

/-- The four copies agree, however many rounds they need. -/
def CopiesAgree : Prop :=
  ∀ fuel, CopiesAgreeWithin math prof pool agni baseToken amountIn fuel

/-- The swap ends with an `Ok`. -/
def ReturnsOk : Prop :=
  ∃ fuel amountOut, pool.simulateSwap math prof fuel baseToken amountIn = some (.ok amountOut)

/-- The swap moves nothing: nothing is swapped, the price is at the limit, or the first step takes
the whole input, leaves the price where it is and that is not the price of the next tick. -/
def MovesNothing (zeroForOne : Bool) : Prop :=
  amountIn = 0 ∨ pool.sqrtPrice = sqrtPriceLimit zeroForOne ∨
  ∃ tickNext initialized sqrtPriceNext stepIn stepOut feeAmount,
    math.nextInitializedTickWithinOneWord pool.tickBitmap pool.tick pool.tickSpacing zeroForOne =
      .ok (tickNext, initialized) ∧
    math.getSqrtRatioAtTick (clampTick tickNext) = .ok sqrtPriceNext ∧
    math.computeSwapStep pool.sqrtPrice (swapTarget zeroForOne sqrtPriceNext) pool.liquidity
      amountIn pool.fee = .ok (pool.sqrtPrice, stepIn, stepOut, feeAmount) ∧
    pool.sqrtPrice ≠ sqrtPriceNext ∧ stepIn + feeAmount = amountIn

end Agreement

section Proofs

variable {math : UniswapV3Math} {prof : BuildProfile} {pool : UniswapV3Pool} {agni : AgniPool}
  {baseToken : Address} {amountIn : U256} {zeroForOne : Bool}

theorem negI256_ne_err (prof : BuildProfile) (x : U256) (e : AMMError) :
    prof.negI256 x ≠ .error (.err e) := by
  unfold BuildProfile.negI256
  split
  · rintro ⟨⟩
  · rintro ⟨⟩

/-- The loop ends in `s`, and the swap returns `Ok`. -/
def LastState (math : UniswapV3Math) (prof : BuildProfile) (pool : UniswapV3Pool)
    (zeroForOne : Bool) (amountIn : U256) (fuel : Nat) (s : CurrentState) : Prop :=
  pool.swapLoop math prof zeroForOne fuel amountIn = some (.ok s) ∧
    ∃ amountOut, prof.negI256 (ε := AMMError) s.amountCalculated = .ok amountOut

/-- **The copies agree exactly when the swap ends with the fields it began with**: everything else
they do agrees in any case. -/
theorem SameFields.copiesAgreeWithin_iff (h : SameFields pool agni) (fuel : Nat) :
    CopiesAgreeWithin math prof pool agni baseToken amountIn fuel ↔ (amountIn ≠ 0 → ∀ s,
      LastState math prof pool (baseToken == pool.tokenA.address) amountIn fuel s →
        (s.liquidity, s.sqrtPriceX96, s.tick) = (pool.liquidity, pool.sqrtPrice, pool.tick)) := by
  unfold CopiesAgreeWithin LastState AgniPool.simulateSwapMut UniswapV3Pool.simulateSwap
    UniswapV3Pool.simulateSwapMut AgniPool.simulateSwap
  dsimp only
  rw [h.tokenA]
  by_cases hzero : amountIn = 0
  · simp only [if_pos hzero, Option.map_some]
    refine ⟨fun _ hne => absurd hzero hne, fun _ => Or.inr ?_⟩
    refine ⟨_, _, _, _, rfl, rfl, rfl, rfl, .ok 0,
      fun _ _ => ⟨?_, fun s hne => absurd hzero hne⟩, ?_⟩
    · rw [h.liquidity, h.sqrtPrice, h.tick]
    · rintro e ⟨⟩
  simp only [if_neg hzero]
  have hloops := h.swapLoop math prof (baseToken == pool.tokenA.address) fuel amountIn
  generalize pool.swapLoop math prof (baseToken == pool.tokenA.address) fuel amountIn = x at *
  generalize agni.swapLoop math prof (baseToken == pool.tokenA.address) fuel amountIn = y at *
  rcases hloops with ⟨rfl, rfl⟩ | ⟨t, rfl, rfl⟩ | ⟨e, e', rfl, rfl, hfault⟩
  · refine ⟨fun _ _ s hs => ?_, fun _ => Or.inl ⟨rfl, rfl, rfl, rfl⟩⟩
    cases hs.1
  · have hpanic := negI256_ne_err prof t.amountCalculated
    simp only [Option.map_some, ok_bind]
    cases hneg : prof.negI256 (ε := AMMError) t.amountCalculated with
    | error e =>
      refine ⟨fun _ _ s hs => ?_, fun _ => Or.inr ?_⟩
      · obtain ⟨hst, out, hout⟩ := hs
        cases hst
        rw [hneg] at hout
        cases hout
      · refine ⟨_, _, _, _, rfl, rfl, rfl, rfl, SameOutcome.refl _, ?_, ?_⟩
        · rintro _ ⟨⟩
        · rintro e' ⟨⟩
          exact absurd hneg (hpanic e')
    | ok out =>
      constructor
      · rintro (⟨hnone, -⟩ | ⟨_, _, _, _, hr, hp, hr', ha, -, hok, -⟩) - s ⟨hst, -⟩
        · cases hnone
        · cases hst
          cases hr
          cases hp
          cases hr'
          cases ha
          have := (hok out rfl).1
          rw [h.liquidity, h.sqrtPrice, h.tick] at this
          exact this.symm
      · intro hfields
        have hsame := hfields hzero t ⟨rfl, out, hneg⟩
        refine Or.inr ⟨_, _, _, _, rfl, rfl, rfl, rfl, .ok out,
          fun _ _ => ⟨?_, fun s _ hst => ?_⟩, ?_⟩
        · rw [h.liquidity, h.sqrtPrice, h.tick]
          exact hsame.symm
        · cases hst
          rfl
        · rintro e ⟨⟩
  · refine ⟨fun _ _ s hs => ?_, fun _ => Or.inr ?_⟩
    · cases hs.1
    · refine ⟨_, _, _, _, rfl, rfl, rfl, rfl, .ofFault hfault, ?_, fun _ _ => ⟨rfl, rfl⟩⟩
      rintro _ ⟨⟩

/-! ## When a swap moves nothing -/

/-- Price, tick, liquidity and remaining amount are those the loop starts with. -/
structure AtStart (pool : UniswapV3Pool) (amountIn : U256) (s : CurrentState) : Prop where
  remaining : s.amountSpecifiedRemaining = amountIn
  sqrtPrice : s.sqrtPriceX96 = pool.sqrtPrice
  tick : s.tick = pool.tick
  liquidity : s.liquidity = pool.liquidity

theorem atStart_initialState (pool : UniswapV3Pool) (amountIn : U256) :
    AtStart pool amountIn (pool.initialState amountIn) :=
  ⟨rfl, rfl, rfl, rfl⟩

variable {s s' : CurrentState}

theorem swapGuard_iff : swapGuard zeroForOne s = true ↔
    s.amountSpecifiedRemaining ≠ 0 ∧ s.sqrtPriceX96 ≠ sqrtPriceLimit zeroForOne := by
  simp [swapGuard]

/-- A round whose step leaves the price, away from the price of the next tick, changes nothing but
the amounts. -/
theorem AtStart.round_still {tickNext : Int} {initialized : Bool}
    {sqrtPriceNext stepIn stepOut feeAmount : U256} (hs : AtStart pool amountIn s)
    (hnext : math.nextInitializedTickWithinOneWord pool.tickBitmap pool.tick pool.tickSpacing
      zeroForOne = .ok (tickNext, initialized))
    (hratio : math.getSqrtRatioAtTick (clampTick tickNext) = .ok sqrtPriceNext)
    (hstep : math.computeSwapStep pool.sqrtPrice (swapTarget zeroForOne sqrtPriceNext)
      pool.liquidity amountIn pool.fee = .ok (pool.sqrtPrice, stepIn, stepOut, feeAmount))
    (hne : pool.sqrtPrice ≠ sqrtPriceNext)
    (hround : pool.swapRound math prof zeroForOne s = .ok s') :
    AtStart pool (amountIn - (stepIn + feeAmount)) s' := by
  obtain ⟨hrem, hprice, htick, hliq⟩ := hs
  obtain ⟨tickNext', initialized', sqrtPriceNext', stepIn', stepOut', feeAmount', hnext', hratio',
    hstep', hrem', -, hmove⟩ := UniswapV3Pool.swapRound_cases hround
  rw [htick, hnext] at hnext'
  cases hnext'
  rw [hratio] at hratio'
  cases hratio'
  rw [hprice, hliq, hrem, hstep, Except.ok.injEq, Prod.mk.injEq, Prod.mk.injEq, Prod.mk.injEq]
    at hstep'
  obtain ⟨hprice', rfl, rfl, rfl⟩ := hstep'
  rw [← hprice'] at hmove
  rcases UniswapV3Pool.moveTick_cases hmove with ⟨hp, -⟩ | ⟨-, hp, -⟩ | ⟨-, -, hl, ht⟩
  · exact absurd hp hne
  · exact absurd hprice.symm hp
  · exact ⟨by rw [hrem', hrem], hprice'.symm, ht.trans htick, hl.trans hliq⟩

/-- A swap that moves nothing ends with the fields it began with. -/
theorem MovesNothing.fields (h : MovesNothing math pool amountIn zeroForOne) (hzero : amountIn ≠ 0)
    {fuel : Nat} (hlast : LastState math prof pool zeroForOne amountIn fuel s) :
    (s.liquidity, s.sqrtPriceX96, s.tick) = (pool.liquidity, pool.sqrtPrice, pool.tick) := by
  rcases Loop.run_eq_some hlast.1 with ⟨t, ht, hheads, hguard⟩ | ⟨t, e, he, -⟩
  swap
  · cases he
  cases ht
  rcases hheads.cases_head with rfl | ⟨s₁, hround, hheads₁⟩
  · rfl
  rcases h with h | hlimit | ⟨tickNext, initialized, sqrtPriceNext, stepIn, stepOut, feeAmount,
    hnext, hratio, hstep, hne, hsum⟩
  · exact absurd h hzero
  · exact absurd hlimit (swapGuard_iff.mp hround.1).2
  · have h₁ := (atStart_initialState pool amountIn).round_still hnext hratio hstep hne hround.2
    rw [hsum, BitVec.sub_self] at h₁
    -- nothing remains, so the loop ends here
    rcases hheads₁.cases_head with rfl | ⟨s₂, hround₂, -⟩
    · rw [h₁.liquidity, h₁.sqrtPrice, h₁.tick]
    · exact absurd h₁.remaining (swapGuard_iff.mp hround₂.1).1

section Spec

variable (hmath : math.Spec) (hpool : UniswapV3Pool.Swappable math pool)
include hmath hpool

/-- Price and tick move in one direction. -/
theorem heads_monotone (hs : Priced math s.sqrtPriceX96 s.tick)
    (hheads : Loop.Heads (swapGuard zeroForOne) (pool.swapRound math prof zeroForOne) s s') :
    Priced math s'.sqrtPriceX96 s'.tick ∧
      if zeroForOne then s'.sqrtPriceX96 ≤ s.sqrtPriceX96 ∧ s'.tick ≤ s.tick
      else s.sqrtPriceX96 ≤ s'.sqrtPriceX96 ∧ s.tick ≤ s'.tick := by
  refine hheads.inv (I := fun t => Priced math t.sqrtPriceX96 t.tick ∧
    if zeroForOne then t.sqrtPriceX96 ≤ s.sqrtPriceX96 ∧ t.tick ≤ s.tick
    else s.sqrtPriceX96 ≤ t.sqrtPriceX96 ∧ s.tick ≤ t.tick) ⟨hs, ?_⟩ ?_
  · split
    · exact ⟨BitVec.le_refl _, Int.le_refl _⟩
    · exact ⟨BitVec.le_refl _, Int.le_refl _⟩
  · rintro t t' ⟨hpriced, hmono⟩ - hround
    cases zeroForOne with
    | true =>
      obtain ⟨n, hr⟩ := UniswapV3Pool.swapRound_down hmath hpool.spacing_pos hpool.spacing_le
        hpool.fee_lt hpriced hround
      rw [if_pos rfl] at hmono ⊢
      have hle := hr.next_le
      refine ⟨hr.priced, BitVec.le_trans hr.price_le hmono.1, ?_⟩
      rcases hr.move with ⟨ht, -⟩ | ⟨-, ht, -⟩ <;> omega
    | false =>
      obtain ⟨n, hr⟩ := UniswapV3Pool.swapRound_up hmath hpool.spacing_pos hpool.spacing_le
        hpool.fee_lt hpriced hround
      rw [if_neg Bool.false_ne_true] at hmono ⊢
      have hlt := hr.lt_next
      refine ⟨hr.priced, BitVec.le_trans hmono.1 hr.le_price, ?_⟩
      rcases hr.move with ⟨ht, -⟩ | ⟨ht, -⟩ <;> omega

/-- What a step takes, and that a round which reaches the next tick changes the tick. -/
theorem step_facts {tickNext : Int} {initialized : Bool}
    {sqrtPriceNext sqrtPrice stepIn stepOut feeAmount : U256}
    (hs : Priced math s.sqrtPriceX96 s.tick)
    (hnext : math.nextInitializedTickWithinOneWord pool.tickBitmap s.tick pool.tickSpacing
      zeroForOne = .ok (tickNext, initialized))
    (hratio : math.getSqrtRatioAtTick (clampTick tickNext) = .ok sqrtPriceNext)
    (hstep : math.computeSwapStep s.sqrtPriceX96 (swapTarget zeroForOne sqrtPriceNext) s.liquidity
      s.amountSpecifiedRemaining pool.fee = .ok (sqrtPrice, stepIn, stepOut, feeAmount)) :
    UniswapV3Pool.StepTakes s.amountSpecifiedRemaining s.sqrtPriceX96
      (swapTarget zeroForOne sqrtPriceNext) sqrtPrice stepIn feeAmount ∧
    (if zeroForOne then wrappingPred (clampTick tickNext) else clampTick tickNext) ≠ s.tick := by
  have hmax := hs.maxTick
  cases zeroForOne with
  | true =>
    obtain ⟨htakes, n, hst⟩ := UniswapV3Pool.stepDown hmath hpool.spacing_pos hpool.spacing_le
      hpool.fee_lt hs hnext hratio hstep
    have h0 := hst.minTick
    have h1 := hst.clamp_le
    rw [if_pos rfl, UniswapV3Pool.wrappingPred_of_range h0 (by omega)]
    exact ⟨htakes, by omega⟩
  | false =>
    obtain ⟨htakes, n, hst⟩ := UniswapV3Pool.stepUp hmath hpool.spacing_pos hpool.spacing_le
      hpool.fee_lt hs hnext hratio hstep
    have h1 := hst.lt_clamp
    rw [if_neg Bool.false_ne_true]
    exact ⟨htakes, by omega⟩

/-- **A swap that ends with the fields it began with has moved nothing.** Price and tick move in one
direction only, so the first round has left them; it has not reached the next tick, and what it did
not take it would never take. -/
theorem movesNothing_of_fields {fuel : Nat}
    (hlast : LastState math prof pool zeroForOne amountIn fuel s)
    (hfields : (s.liquidity, s.sqrtPriceX96, s.tick) =
      (pool.liquidity, pool.sqrtPrice, pool.tick)) :
    MovesNothing math pool amountIn zeroForOne := by
  rcases Loop.run_eq_some hlast.1 with ⟨t, ht, hheads, hguard⟩ | ⟨t, e, he, -⟩
  swap
  · cases he
  cases ht
  rw [Prod.mk.injEq, Prod.mk.injEq] at hfields
  obtain ⟨-, hprice, htick⟩ := hfields
  by_cases hzero : amountIn = 0
  · exact Or.inl hzero
  by_cases hlimit : pool.sqrtPrice = sqrtPriceLimit zeroForOne
  · exact Or.inr (Or.inl hlimit)
  refine Or.inr (Or.inr ?_)
  rcases hheads.cases_head with rfl | ⟨s₁, hround, hheads₁⟩
  · rw [swapGuard_iff.mpr ⟨hzero, hlimit⟩] at hguard
    cases hguard
  have hmono := heads_monotone hmath hpool (s := pool.initialState amountIn) hpool.priced
    (Relation.ReflTransGen.single hround)
  have hmono₁ := heads_monotone hmath hpool hmono.1 hheads₁
  have hstill : s₁.sqrtPriceX96 = pool.sqrtPrice ∧ s₁.tick = pool.tick := by
    have h0 := hmono.2
    have h1 := hmono₁.2
    rw [hprice, htick] at h1
    simp only [UniswapV3Pool.initialState] at h0
    cases zeroForOne with
    | true => exact ⟨BitVec.le_antisymm h0.1 h1.1, Int.le_antisymm h0.2 h1.2⟩
    | false => exact ⟨BitVec.le_antisymm h1.1 h0.1, Int.le_antisymm h1.2 h0.2⟩
  obtain ⟨tickNext, initialized, sqrtPriceNext, stepIn, stepOut, feeAmount, hnext, hratio, hstep,
    -, -, hmove⟩ := UniswapV3Pool.swapRound_cases hround.2
  rw [hstill.1] at hstep
  obtain ⟨htakes, htick'⟩ := step_facts hmath hpool (s := pool.initialState amountIn) hpool.priced
    hnext hratio hstep
  have hne : pool.sqrtPrice ≠ sqrtPriceNext := by
    intro heq
    rcases UniswapV3Pool.moveTick_cases hmove with ⟨-, ht, -⟩ | ⟨hp, -⟩ | ⟨hp, -⟩
    · exact htick' (ht.symm.trans hstill.2)
    · exact hp (hstill.1.trans heq)
    · exact hp (hstill.1.trans heq)
  refine ⟨tickNext, initialized, sqrtPriceNext, stepIn, stepOut, feeAmount, hnext, hratio, hstep,
    hne, ?_⟩
  by_cases hsign : 0 ≤ amountIn.toInt
  · -- the price is not the target, since neither the next tick nor the limit is there
    refine htakes.all hsign fun htarget => ?_
    unfold swapTarget at htarget
    split at htarget <;> split at htarget
    · exact hlimit htarget
    · exact hne htarget
    · exact hlimit htarget
    · exact hne htarget
  · -- an exact output that takes nothing leaves the loop where it was
    have hsum := htakes.nothing (not_le.mp hsign) rfl
    have hstart : ∀ t, Loop.Heads (swapGuard zeroForOne) (pool.swapRound math prof zeroForOne)
        (pool.initialState amountIn) t → AtStart pool amountIn t := by
      intro t ht
      refine ht.inv (atStart_initialState pool amountIn) fun t t' hat _ hround => ?_
      have hat' := hat.round_still hnext hratio hstep hne hround
      rwa [hsum, BitVec.sub_zero] at hat'
    have hat := hstart s hheads
    rw [swapGuard_iff.mpr ⟨hat.remaining ▸ hzero, hat.sqrtPrice ▸ hlimit⟩] at hguard
    cases hguard

end Spec

theorem returnsOk_iff (hzero : amountIn ≠ 0) : ReturnsOk math prof pool baseToken amountIn ↔
    ∃ fuel s, LastState math prof pool (baseToken == pool.tokenA.address) amountIn fuel s := by
  unfold ReturnsOk LastState UniswapV3Pool.simulateSwap
  simp only [if_neg hzero, Option.map_eq_some_iff]
  constructor
  · rintro ⟨fuel, amountOut, r, hloop, hr⟩
    obtain ⟨s, rfl, hneg⟩ := bind_eq_ok.mp hr
    exact ⟨fuel, s, hloop, amountOut, hneg⟩
  · rintro ⟨fuel, s, hloop, amountOut, hneg⟩
    exact ⟨fuel, amountOut, _, hloop, hneg⟩

/-- **When the copies agree.** They do where the swap returns no `Ok` or moves nothing; with the
documented mathematics, on a pool whose price fits its tick, they agree nowhere else. -/
theorem copiesAgree_iff (h : SameFields pool agni) (math : UniswapV3Math) (prof : BuildProfile)
    (baseToken : Address) (amountIn : U256) :
    ((ReturnsOk math prof pool baseToken amountIn →
        MovesNothing math pool amountIn (baseToken == pool.tokenA.address)) →
      CopiesAgree math prof pool agni baseToken amountIn) ∧
    (math.Spec → UniswapV3Pool.Swappable math pool →
      CopiesAgree math prof pool agni baseToken amountIn →
      ReturnsOk math prof pool baseToken amountIn →
        MovesNothing math pool amountIn (baseToken == pool.tokenA.address)) := by
  constructor
  · intro hcond fuel
    refine (h.copiesAgreeWithin_iff fuel).mpr fun hzero s hlast => ?_
    exact (hcond ((returnsOk_iff hzero).mpr ⟨fuel, s, hlast⟩)).fields hzero hlast
  · intro hmath hpool hagree hok
    by_cases hzero : amountIn = 0
    · exact Or.inl hzero
    · obtain ⟨fuel, s, hlast⟩ := (returnsOk_iff hzero).mp hok
      exact movesNothing_of_fields hmath hpool hlast
        ((h.copiesAgreeWithin_iff fuel).mp (hagree fuel) hzero s hlast)

/-- The Agni pool with the fields of `twoSidedPool`. -/
def twoSidedAgni : AgniPool :=
  { AgniPool.new 12 with
    tokenA := UniswapV3Pool.twoSidedPool.tokenA
    tokenB := UniswapV3Pool.twoSidedPool.tokenB
    liquidity := UniswapV3Pool.twoSidedPool.liquidity
    sqrtPrice := UniswapV3Pool.twoSidedPool.sqrtPrice
    fee := UniswapV3Pool.twoSidedPool.fee
    tickSpacing := UniswapV3Pool.twoSidedPool.tickSpacing
    tickBitmap := UniswapV3Pool.twoSidedPool.tickBitmap
    ticks := UniswapV3Pool.twoSidedPool.ticks }

theorem sameFields_twoSided : SameFields UniswapV3Pool.twoSidedPool twoSidedAgni :=
  ⟨rfl, rfl, rfl, rfl, rfl, rfl, rfl, rfl⟩

/-- A single unit upwards is all fee: the copies agree, and the swap moves nothing. -/
theorem copiesAgree_iff_twoSided :
    CopiesAgree .sample ⟨true⟩ UniswapV3Pool.twoSidedPool twoSidedAgni 2 1#256 ∧
    MovesNothing .sample UniswapV3Pool.twoSidedPool 1#256 false :=
  have hmoves : MovesNothing .sample UniswapV3Pool.twoSidedPool 1#256 false :=
    Or.inr (Or.inr ⟨60, true, 79466191966197645195421774833#256, 0, 0, 1, rfl, rfl, rfl, by decide,
      by decide⟩)
  have hagree := (copiesAgree_iff sameFields_twoSided .sample ⟨true⟩ 2 1#256).1 fun _ => hmoves
  ⟨hagree, (copiesAgree_iff sameFields_twoSided .sample ⟨true⟩ 2 1#256).2
    UniswapV3Math.sample_spec UniswapV3Pool.swappable_twoSidedPool hagree ⟨1, 0, rfl⟩⟩

/-- A swap of `10 ^ 9` downwards moves the price of the Uniswap pool and leaves that of the Agni
pool. -/
theorem not_copiesAgree_twoSided :
    ¬ CopiesAgree .sample ⟨true⟩ UniswapV3Pool.twoSidedPool twoSidedAgni 1 1000000000#256 := by
  intro hagree
  have hfields := (sameFields_twoSided.copiesAgreeWithin_iff 3).mp (hagree 3) (by decide)
    { amountSpecifiedRemaining := 0
      amountCalculated := -996999999#256
      sqrtPriceX96 := 79228162435273859645575912270#256
      tick := -1
      liquidity := 10 ^ 18 } ⟨rfl, 996999999#256, rfl⟩
  exact absurd hfields (by decide)

end Proofs

end ArbitrageBot
