import ArbitrageBot.Amms.UniswapV3.Pool
import ArbitrageBot.Lib.Loop

/-!
# Uniswap V3 pools: swap simulation

The loop that walks from tick to tick until the input is used up or the price limit is reached. The
price and tick mathematics is an external crate; the loop takes it as a parameter.
-/

namespace ArbitrageBot

open Lib

def MIN_SQRT_RATIO : U256 := 4295128739#256
def MAX_SQRT_RATIO : U256 := 1461446703485210103287273052203988822378723970342#256

/-- The functions of the concentrated-liquidity mathematics crate that the loops call. -/
structure UniswapV3Math where
  nextInitializedTickWithinOneWord : HashMap Int U256 → Int → Int → Bool →
    Except UniswapV3MathError (Int × Bool)
  getSqrtRatioAtTick : Int → Except UniswapV3MathError U256
  getTickAtSqrtRatio : U256 → Except UniswapV3MathError Int
  /-- From price, target price, liquidity, remaining amount and fee: the new price, the amounts in
  and out, and the fee amount. -/
  computeSwapStep : U256 → U256 → Nat → U256 → Nat →
    Except UniswapV3MathError (U256 × U256 × U256 × U256)

namespace BuildProfile

variable {ε : Type}

/-- `I256` subtraction, which panics on overflow in debug builds. -/
def subI256 (prof : BuildProfile) (a b : U256) : Outcome ε U256 :=
  if prof.overflowChecks && a.ssubOverflow b then .error .panic else .ok (a - b)

/-- `I256` negation. -/
def negI256 (prof : BuildProfile) (a : U256) : Outcome ε U256 :=
  if prof.overflowChecks && a.negOverflow then .error .panic else .ok (-a)

end BuildProfile

/-- `i32::wrapping_sub(1)`. -/
def wrappingPred (tick : Int) : Int := (tick - 1).bmod (2 ^ 32)

/-- `tick.clamp(MIN_TICK, MAX_TICK)`. -/
def clampTick (tick : Int) : Int := max MIN_TICK (min tick MAX_TICK)

/-- The price limit of a swap. -/
def sqrtPriceLimit (zeroForOne : Bool) : U256 :=
  if zeroForOne then MIN_SQRT_RATIO + 1 else MAX_SQRT_RATIO - 1

/-- The target price of a step: the price of the next tick, but not beyond the limit. -/
def swapTarget (zeroForOne : Bool) (sqrtPriceNext : U256) : U256 :=
  if zeroForOne then
    if sqrtPriceNext < sqrtPriceLimit zeroForOne then sqrtPriceLimit zeroForOne else sqrtPriceNext
  else if sqrtPriceNext > sqrtPriceLimit zeroForOne then sqrtPriceLimit zeroForOne
  else sqrtPriceNext

structure CurrentState where
  amountSpecifiedRemaining : U256
  amountCalculated : U256
  sqrtPriceX96 : U256
  tick : Int
  liquidity : Nat
  deriving DecidableEq, Repr

/-- The condition of the loop. -/
def swapGuard (zeroForOne : Bool) (s : CurrentState) : Bool :=
  decide (s.amountSpecifiedRemaining ≠ 0) && decide (s.sqrtPriceX96 ≠ sqrtPriceLimit zeroForOne)

namespace UniswapV3Pool

variable (math : UniswapV3Math) (prof : BuildProfile)

/-- `map_err(UniswapV3Error::from)?`. -/
def liftMath {α : Type} (x : Except UniswapV3MathError α) : Outcome AMMError α :=
  x.mapError fun e => .err (.uniswapV3Error (.uniswapV3MathError e))

/-- `liquidity_net`, negated when the tick is crossed downwards. -/
def directedNet (liquidityNet : Int) (zeroForOne : Bool) : Outcome AMMError Int :=
  if zeroForOne then prof.signed 128 (-liquidityNet) else .ok liquidityNet

/-- The liquidity after a tick is crossed. -/
def crossTick (liquidity : Nat) (liquidityNet : Int) (zeroForOne : Bool) :
    Outcome AMMError Nat := do
  let liquidityNet ← directedNet prof liquidityNet zeroForOne
  if liquidityNet < 0 then
    let decrease ← prof.signed 128 (-liquidityNet)
    if liquidity < asU128 decrease then
      .error (.err (.uniswapV3Error .liquidityUnderflow))
    else prof.unsigned 128 (liquidity - asU128 decrease)
  else prof.unsigned 128 (liquidity + asU128 liquidityNet)

/-- The liquidity when the next tick is reached: only an initialised tick changes it. -/
def reachTick (self : UniswapV3Pool) (zeroForOne : Bool) (liquidity : Nat) (tickNext : Int)
    (initialized : Bool) : Outcome AMMError Nat :=
  if initialized then
    crossTick prof liquidity (((self.ticks.lookup tickNext).map (·.liquidityNet)).getD 0) zeroForOne
  else .ok liquidity

/-- The liquidity and the tick after a step to the price `sqrtPrice`, whose next tick was
`tickNext` at the price `sqrtPriceNext`. -/
def moveTick (self : UniswapV3Pool) (zeroForOne : Bool) (s : CurrentState) (tickNext : Int)
    (initialized : Bool) (sqrtPriceNext sqrtPrice : U256) : Outcome AMMError (Nat × Int) :=
  if sqrtPrice = sqrtPriceNext then do
    let liquidity ← self.reachTick prof zeroForOne s.liquidity tickNext initialized
    return (liquidity, if zeroForOne then wrappingPred tickNext else tickNext)
  else if sqrtPrice ≠ s.sqrtPriceX96 then do
    let tick ← liftMath (math.getTickAtSqrtRatio sqrtPrice)
    return (s.liquidity, tick)
  else return (s.liquidity, s.tick)

/-- One round of the loop of `simulate_swap` and of `simulate_swap_mut`. -/
def swapRound (self : UniswapV3Pool) (zeroForOne : Bool) (s : CurrentState) :
    Outcome AMMError CurrentState := do
  let (tickNext, initialized) ← liftMath
    (math.nextInitializedTickWithinOneWord self.tickBitmap s.tick self.tickSpacing zeroForOne)
  let tickNext := clampTick tickNext
  let sqrtPriceNext ← liftMath (math.getSqrtRatioAtTick tickNext)
  let (sqrtPriceX96, amountIn, amountOut, feeAmount) ← liftMath
    (math.computeSwapStep s.sqrtPriceX96 (swapTarget zeroForOne sqrtPriceNext) s.liquidity
      s.amountSpecifiedRemaining self.fee)
  let amountCalculated ← prof.subI256 s.amountCalculated amountOut
  let (liquidity, tick) ←
    self.moveTick math prof zeroForOne s tickNext initialized sqrtPriceNext sqrtPriceX96
  return {
    amountSpecifiedRemaining := s.amountSpecifiedRemaining - (amountIn + feeAmount)
    amountCalculated, sqrtPriceX96, tick, liquidity }

/-- The state in which the loop starts. -/
def initialState (self : UniswapV3Pool) (amountIn : U256) : CurrentState where
  amountSpecifiedRemaining := amountIn
  amountCalculated := 0
  sqrtPriceX96 := self.sqrtPrice
  tick := self.tick
  liquidity := self.liquidity

def swapLoop (self : UniswapV3Pool) (zeroForOne : Bool) (fuel : Nat) (amountIn : U256) :
    Option (Outcome AMMError CurrentState) :=
  Loop.run (swapGuard zeroForOne) (self.swapRound math prof zeroForOne) fuel
    (self.initialState amountIn)

/-- `simulate_swap`; `none` when the loop needs more than `fuel` rounds. -/
def simulateSwap (self : UniswapV3Pool) (fuel : Nat) (baseToken : Address) (amountIn : U256) :
    Option (Outcome AMMError U256) :=
  if amountIn = 0 then some (.ok 0)
  else
    (self.swapLoop math prof (baseToken == self.tokenA.address) fuel amountIn).map fun result => do
      let s ← result
      prof.negI256 s.amountCalculated

/-- `simulate_swap_mut`: the result and the pool after the call. -/
def simulateSwapMut (self : UniswapV3Pool) (fuel : Nat) (baseToken : Address) (amountIn : U256) :
    Option (Outcome AMMError U256 × UniswapV3Pool) :=
  if amountIn = 0 then some (.ok 0, self)
  else
    (self.swapLoop math prof (baseToken == self.tokenA.address) fuel amountIn).map fun
      | .error e => (.error e, self)
      | .ok s => (prof.negI256 s.amountCalculated,
          { self with liquidity := s.liquidity, sqrtPrice := s.sqrtPriceX96, tick := s.tick })

end UniswapV3Pool

end ArbitrageBot
