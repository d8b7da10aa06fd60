import ArbitrageBot.Amms.Agni.Swap
import ArbitrageBot.Amms.Amm
import ArbitrageBot.Amms.Moe.SwapAcross

/-!
# Swaps of the pool enumeration
-/

namespace ArbitrageBot

/-- What a simulated swap depends on besides the pool: the mathematics crate, the build profile, and
a bound on the rounds of the tick loops. -/
structure SwapEnv where
  math : UniswapV3Math
  prof : BuildProfile
  fuel : Nat

namespace AMM

variable (env : SwapEnv)

/-- `simulate_swap`; `none` when a loop needs more rounds than the bound. -/
def simulateSwap : AMM → Address → U256 → Option (Outcome AMMError U256)
  | uniswapV2Pool pool, baseToken, amountIn => some (pool.simulateSwap baseToken amountIn)
  | uniswapV3Pool pool, baseToken, amountIn =>
    pool.simulateSwap env.math env.prof env.fuel baseToken amountIn
  | agniPool pool, baseToken, amountIn =>
    pool.simulateSwap env.math env.prof env.fuel baseToken amountIn
  | moeLbPair pool, baseToken, amountIn => some (pool.simulateSwap env.prof baseToken amountIn)

/-- `simulate_swap_mut`: the result and the pool after the call. A pair that panics is not used
again. -/
def simulateSwapMut : AMM → Address → U256 → Option (Outcome AMMError U256 × AMM)
  | uniswapV2Pool pool, baseToken, amountIn =>
    match pool.simulateSwapMut env.prof baseToken amountIn with
    | .ok (out, pool') => some (.ok out, uniswapV2Pool pool')
    | .error e => some (.error e, uniswapV2Pool pool)
  | uniswapV3Pool pool, baseToken, amountIn =>
    (pool.simulateSwapMut env.math env.prof env.fuel baseToken amountIn).map
      fun r => (r.1, uniswapV3Pool r.2)
  | agniPool pool, baseToken, amountIn =>
    (pool.simulateSwapMut env.math env.prof env.fuel baseToken amountIn).map
      fun r => (r.1, agniPool r.2)
  | moeLbPair pool, baseToken, amountIn =>
    let r := pool.simulateSwapMut env.prof baseToken amountIn
    some (r.1, moeLbPair r.2)

end AMM

end ArbitrageBot
