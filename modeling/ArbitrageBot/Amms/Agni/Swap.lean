import ArbitrageBot.Amms.Agni.Pool
import ArbitrageBot.Amms.UniswapV3.Swap

/-!
# Agni pools: swap simulation

Agni has its own copy of the loop of `UniswapV3Pool::simulate_swap`. Its `simulate_swap_mut` runs
`simulate_swap` on a clone and copies three fields back from the clone.
-/

namespace ArbitrageBot

open Lib

namespace AgniPool

variable (math : UniswapV3Math) (prof : BuildProfile)

/-- `map_err(AgniError::from)?`. -/
def liftMath {α : Type} (x : Except UniswapV3MathError α) : Outcome AMMError α :=
  x.mapError fun e => .err (.agniError (.uniswapV3MathError e))

/-- `liq_net`, negated when the tick is crossed downwards. -/
def directedNet (liqNet : Int) (zeroForOne : Bool) : Outcome AMMError Int :=
  if zeroForOne then prof.signed 128 (-liqNet) else .ok liqNet

/-- The liquidity after a tick is crossed. -/
def crossTick (liquidity : Nat) (liqNet : Int) (zeroForOne : Bool) : Outcome AMMError Nat := do
  let liqNet ← directedNet prof liqNet zeroForOne
  if liqNet < 0 then
    let decrease ← prof.signed 128 (-liqNet)
    if liquidity < asU128 decrease then
      .error (.err (.agniError .liquidityUnderflow))
    else prof.unsigned 128 (liquidity - asU128 decrease)
  else prof.unsigned 128 (liquidity + asU128 liqNet)

def reachTick (self : AgniPool) (zeroForOne : Bool) (liquidity : Nat) (tickNext : Int)
    (initialized : Bool) : Outcome AMMError Nat :=
  if initialized then
    crossTick prof liquidity ((self.ticks.lookup tickNext).elim 0 (·.liquidityNet)) zeroForOne
  else .ok liquidity

def moveTick (self : AgniPool) (zeroForOne : Bool) (s : CurrentState) (tickNext : Int)
    (initialized : Bool) (sqrtPriceNext sqrtPrice : U256) : Outcome AMMError (Nat × Int) :=
  if sqrtPrice = sqrtPriceNext then do
    let liquidity ← self.reachTick prof zeroForOne s.liquidity tickNext initialized
    return (liquidity, if zeroForOne then wrappingPred tickNext else tickNext)
  else if sqrtPrice ≠ s.sqrtPriceX96 then do
    let tick ← liftMath (math.getTickAtSqrtRatio sqrtPrice)
    return (s.liquidity, tick)
  else return (s.liquidity, s.tick)

/-- One round of the loop of `simulate_swap`. -/
def swapRound (self : AgniPool) (zeroForOne : Bool) (s : CurrentState) :
    Outcome AMMError CurrentState := do
  let (tickNext, initialized) ← liftMath
    (math.nextInitializedTickWithinOneWord self.tickBitmap s.tick self.tickSpacing zeroForOne)
  let tickNext := clampTick tickNext
  let sqrtPriceNext ← liftMath (math.getSqrtRatioAtTick tickNext)
  let (sqrtPriceX96, amountIn, amountOut, feeAmount) ← liftMath
    (math.computeSwapStep s.sqrtPriceX96 (swapTarget zeroForOne sqrtPriceNext) s.liquidity
      s.amountSpecifiedRemaining self.fee)
  let amountCalculated ← prof.subI256 s.amountCalculated amountOut
  let (liquidity, tick) ←
    self.moveTick math prof zeroForOne s tickNext initialized sqrtPriceNext sqrtPriceX96
  return {
    amountSpecifiedRemaining := s.amountSpecifiedRemaining - (amountIn + feeAmount)
    amountCalculated, sqrtPriceX96, tick, liquidity }

def initialState (self : AgniPool) (amountIn : U256) : CurrentState where
  amountSpecifiedRemaining := amountIn
  amountCalculated := 0
  sqrtPriceX96 := self.sqrtPrice
  tick := self.tick
  liquidity := self.liquidity

def swapLoop (self : AgniPool) (zeroForOne : Bool) (fuel : Nat) (amountIn : U256) :
    Option (Outcome AMMError CurrentState) :=
  Loop.run (swapGuard zeroForOne) (self.swapRound math prof zeroForOne) fuel
    (self.initialState amountIn)

/-- `simulate_swap`; `none` when the loop needs more than `fuel` rounds. -/
def simulateSwap (self : AgniPool) (fuel : Nat) (baseToken : Address) (amountIn : U256) :
    Option (Outcome AMMError U256) :=
  if amountIn = 0 then some (.ok 0)
  else
    (self.swapLoop math prof (baseToken == self.tokenA.address) fuel amountIn).map fun result => do
      let s ← result
      prof.negI256 s.amountCalculated

/-- `simulate_swap_mut`: the result and the pool after the call. -/
def simulateSwapMut (self : AgniPool) (fuel : Nat) (baseToken : Address) (amountIn : U256) :
    Option (Outcome AMMError U256 × AgniPool) :=
  let tmp := self
  (tmp.simulateSwap math prof fuel baseToken amountIn).map fun
    | .error e => (.error e, self)
    | .ok out => (.ok out, { self with
        sqrtPrice := tmp.sqrtPrice, tick := tmp.tick, liquidity := tmp.liquidity })

end AgniPool

end ArbitrageBot
