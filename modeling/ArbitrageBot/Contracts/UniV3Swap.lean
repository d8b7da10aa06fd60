import ArbitrageBot.Contracts.UniV3Pool
import ArbitrageBot.Lib.Loop

/-!
# The swap of the Uniswap V3 pool contract

The loop of `swap` with the amounts that it comes to. Words hold the contract's `int256`s too. The
oracle, the transfers, the callback and the lock only ever make the call revert.
-/

namespace ArbitrageBot.UniV3

open Lib

def TickMath.MIN_SQRT_RATIO : BitVec 160 := 4295128739#160
def TickMath.MAX_SQRT_RATIO : BitVec 160 := 1461446703485210103287273052203988822378723970342#160

/-- The libraries, with those that a swap calls; nothing where they revert. -/
structure SwapLibraries extends Libraries where
  /-- `TickBitmap.nextInitializedTickWithinOneWord`. -/
  nextInitializedTickWithinOneWord : (Int → U256) → Int → Int → Bool → Option (Int × Bool)
  /-- `TickMath.getSqrtRatioAtTick`. -/
  getSqrtRatioAtTick : Int → Option (BitVec 160)
  /-- `TickMath.getTickAtSqrtRatio`. -/
  getTickAtSqrtRatio : BitVec 160 → Option Int
  /-- `SwapMath.computeSwapStep`: the new price, the amounts in and out, and the fee amount. -/
  computeSwapStep : BitVec 160 → BitVec 160 → Nat → U256 → Nat →
    Option (BitVec 160 × U256 × U256 × U256)
  /-- `FullMath.mulDiv`. -/
  mulDiv : U256 → U256 → U256 → Option U256

/-- What a swap reads of the fees. -/
structure Fees where
  fee : Nat
  feeProtocol : BitVec 8
  feeGrowthGlobal0X128 : U256
  feeGrowthGlobal1X128 : U256

structure SwapState where
  amountSpecifiedRemaining : U256
  amountCalculated : U256
  sqrtPriceX96 : BitVec 160
  tick : Int
  feeGrowthGlobalX128 : U256
  protocolFee : BitVec 128
  liquidity : Nat

/-- `SafeCast.toInt256`. -/
def toInt256 (y : U256) : Option U256 :=
  if y.toNat < 2 ^ 255 then some y else none

/-- `LowGasSafeMath.sub` and `add` of `int256`s. -/
def subInt256 (x y : U256) : Option U256 :=
  if x.ssubOverflow y then none else some (x - y)

def addInt256 (x y : U256) : Option U256 :=
  if x.saddOverflow y then none else some (x + y)

namespace Pool

variable (lib : SwapLibraries) (self : Pool) (fees : Fees) (zeroForOne : Bool)

/-- The remaining and the calculated amount after a step. The remaining one is not checked. -/
def takeStep (exactInput : Bool) (s : SwapState) (amountIn amountOut feeAmount : U256) :
    Option (U256 × U256) :=
  if exactInput then do
    let taken ← toInt256 (amountIn + feeAmount)
    let paid ← toInt256 amountOut
    let calculated ← subInt256 s.amountCalculated paid
    return (s.amountSpecifiedRemaining - taken, calculated)
  else do
    let paid ← toInt256 amountOut
    let taken ← toInt256 (amountIn + feeAmount)
    let calculated ← addInt256 s.amountCalculated taken
    return (s.amountSpecifiedRemaining + paid, calculated)

/-- The growth of the fees and the protocol's fee after a step. -/
def accrueFees (s : SwapState) (feeAmount : U256) : Option (U256 × BitVec 128) := do
  let feeProtocol := if zeroForOne then fees.feeProtocol % 16 else fees.feeProtocol >>> 4
  let delta := if feeProtocol > 0 then feeAmount / feeProtocol.setWidth 256 else 0
  let protocolFee := s.protocolFee + delta.setWidth 128
  if s.liquidity > 0 then
    let growth ← lib.mulDiv (feeAmount - delta) (1 <<< 128) (BitVec.ofNat 256 s.liquidity)
    return (s.feeGrowthGlobalX128 + growth, protocolFee)
  else return (s.feeGrowthGlobalX128, protocolFee)

/-- `liquidityNet`, the other way round when the price moves down; an `int128`. -/
def crossedNet (liquidityNet : Int) : Int :=
  if zeroForOne then (-liquidityNet).bmod (2 ^ 128) else liquidityNet

/-- `if (step.initialized)`: the liquidity when the next tick is reached. -/
def reachTick (liquidity : Nat) (tickNext : Int) (initialized : Bool) : Option Nat :=
  if initialized then
    lib.addDelta liquidity (crossedNet zeroForOne (self.ticks tickNext).liquidityNet)
  else some liquidity

/-- The liquidity and the tick after a step to the price `sqrtPriceX96`. -/
def shiftTick (s : SwapState) (tickNext : Int) (initialized : Bool)
    (sqrtPriceNextX96 sqrtPriceX96 : BitVec 160) : Option (Nat × Int) :=
  if sqrtPriceX96 = sqrtPriceNextX96 then do
    let liquidity ← self.reachTick lib zeroForOne s.liquidity tickNext initialized
    return (liquidity, if zeroForOne then tickNext - 1 else tickNext)
  else if sqrtPriceX96 ≠ s.sqrtPriceX96 then do
    let tick ← lib.getTickAtSqrtRatio sqrtPriceX96
    return (s.liquidity, tick)
  else return (s.liquidity, s.tick)

/-- `tickNext` within the bounds, of which the bitmap knows nothing. -/
def boundTick (tickNext : Int) : Int :=
  if tickNext < MIN_TICK then MIN_TICK else if tickNext > MAX_TICK then MAX_TICK else tickNext

/-- Whether a price lies beyond the limit. -/
def beyond (sqrtPriceX96 sqrtPriceLimitX96 : BitVec 160) : Bool :=
  if zeroForOne then sqrtPriceX96 < sqrtPriceLimitX96 else sqrtPriceX96 > sqrtPriceLimitX96

/-- One round of the loop. -/
def swapRound (exactInput : Bool) (sqrtPriceLimitX96 : BitVec 160) (s : SwapState) :
    Option SwapState := do
  let (tickNext, initialized) ←
    lib.nextInitializedTickWithinOneWord self.tickBitmap s.tick self.tickSpacing zeroForOne
  let tickNext := boundTick tickNext
  let sqrtPriceNextX96 ← lib.getSqrtRatioAtTick tickNext
  let (sqrtPriceX96, amountIn, amountOut, feeAmount) ← lib.computeSwapStep s.sqrtPriceX96
    (if beyond zeroForOne sqrtPriceNextX96 sqrtPriceLimitX96 then sqrtPriceLimitX96
      else sqrtPriceNextX96) s.liquidity s.amountSpecifiedRemaining fees.fee
  let (amountSpecifiedRemaining, amountCalculated) ←
    takeStep exactInput s amountIn amountOut feeAmount
  let (feeGrowthGlobalX128, protocolFee) ← accrueFees lib fees zeroForOne s feeAmount
  let (liquidity, tick) ←
    self.shiftTick lib zeroForOne s tickNext initialized sqrtPriceNextX96 sqrtPriceX96
  return { amountSpecifiedRemaining, amountCalculated, sqrtPriceX96, tick, feeGrowthGlobalX128,
           protocolFee, liquidity }

/-- The loop, of at most `fuel` rounds. -/
def swapLoop (exactInput : Bool) (fuel : Nat) (sqrtPriceLimitX96 : BitVec 160)
    (amountSpecified : U256) : Option (Except Unit SwapState) :=
  Loop.run
    (fun s =>
      decide (s.amountSpecifiedRemaining ≠ 0) && decide (s.sqrtPriceX96 ≠ sqrtPriceLimitX96))
    (fun s => match self.swapRound lib fees zeroForOne exactInput sqrtPriceLimitX96 s with
      | none => .error ()
      | some s => .ok s)
    fuel
    { amountSpecifiedRemaining := amountSpecified
      amountCalculated := 0
      sqrtPriceX96 := self.sqrtPriceX96
      tick := self.tick
      feeGrowthGlobalX128 :=
        if zeroForOne then fees.feeGrowthGlobal0X128 else fees.feeGrowthGlobal1X128
      protocolFee := 0
      liquidity := self.liquidity }

/-- `SPL`: the limit lies ahead of the price and within the bounds. -/
def limitAhead (sqrtPriceLimitX96 : BitVec 160) : Bool :=
  if zeroForOne then
    sqrtPriceLimitX96 < self.sqrtPriceX96 && sqrtPriceLimitX96 > TickMath.MIN_SQRT_RATIO
  else sqrtPriceLimitX96 > self.sqrtPriceX96 && sqrtPriceLimitX96 < TickMath.MAX_SQRT_RATIO

/-- What a swap leaves: the pool, the amounts of the tokens that the pool takes, and the event. -/
structure Swapped where
  pool : Pool
  amount0 : U256
  amount1 : U256
  event : Event

/-- What the recipient is sent of the token that comes out. -/
def Swapped.sent (self : Swapped) : U256 :=
  let amount := if zeroForOne then self.amount1 else self.amount0
  if amount.toInt < 0 then -amount else 0

/-- `swap`; `none` when it needs more than `fuel` rounds. -/
def swap (fuel : Nat) (amountSpecified : U256) (sqrtPriceLimitX96 : BitVec 160) :
    Option (Except Unit Swapped) :=
  if amountSpecified = 0 then some (.error ())
  else if self.limitAhead zeroForOne sqrtPriceLimitX96 then
    let exactInput := decide (amountSpecified.toInt > 0)
    (self.swapLoop lib fees zeroForOne exactInput fuel sqrtPriceLimitX96 amountSpecified).map
      fun result => result.map fun s =>
        let specified := amountSpecified - s.amountSpecifiedRemaining
        { pool := { self with
            sqrtPriceX96 := s.sqrtPriceX96, tick := s.tick, liquidity := s.liquidity }
          amount0 := if zeroForOne == exactInput then specified else s.amountCalculated
          amount1 := if zeroForOne == exactInput then s.amountCalculated else specified
          event := .uniswapV3Swap (s.sqrtPriceX96.setWidth 256) s.liquidity s.tick }
  else some (.error ())

variable {lib : SwapLibraries} {self : Pool} {fees : Fees} {zeroForOne : Bool}

/-- What a swap of an exact input that does not revert has come to. -/
theorem swap_exactInput {fuel : Nat} {amountSpecified : U256} {sqrtPriceLimitX96 : BitVec 160}
    {swapped : Swapped} (hpositive : 0 < amountSpecified.toInt)
    (h : self.swap lib fees zeroForOne fuel amountSpecified sqrtPriceLimitX96 =
      some (.ok swapped)) :
    ∃ s, self.swapLoop lib fees zeroForOne true fuel sqrtPriceLimitX96 amountSpecified =
        some (.ok s) ∧
      swapped.pool = { self with
        sqrtPriceX96 := s.sqrtPriceX96, tick := s.tick, liquidity := s.liquidity } ∧
      swapped.event = .uniswapV3Swap (s.sqrtPriceX96.setWidth 256) s.liquidity s.tick ∧
      swapped.sent zeroForOne =
        if s.amountCalculated.toInt < 0 then -s.amountCalculated else 0 := by
  unfold swap at h
  split at h
  · cases h
  · split at h
    · obtain ⟨result, hloop, hresult⟩ := Option.map_eq_some_iff.mp h
      rw [decide_eq_true hpositive] at hloop hresult
      cases result with
      | error e => cases hresult
      | ok s =>
        cases hresult
        refine ⟨s, hloop, rfl, rfl, ?_⟩
        -- the calculated amount is that of the token that comes out
        cases zeroForOne <;> rfl
    · cases h

end Pool

end ArbitrageBot.UniV3
