import ArbitrageBot.Amms.Swap
import ArbitrageBot.Arbitrage.PathFinder

/-!
# Simulation and optimization of paths

`pools_for_path` clones the pool of every hop out of the state; `simulate_path` feeds the output of
each hop to the next one. `optimize` bisects the inputs for the threshold of the minimal profit.
-/

namespace ArbitrageBot

structure OptimizationResult where
  path : ArbitragePath
  optimalInput : U256
  expectedProfit : U256
  outputAmount : U256

/-- `ArbitrageError::Simulation`, by what its text is made of. -/
inductive SimulationError where
  | swap (e : AMMError)
  /-- "Pool not found in state". -/
  | poolNotFound (pool : Address)
  deriving DecidableEq, Repr

/-- `pools_for_path`. -/
def poolsForPath (path : ArbitragePath) (statePools : List AMM) :
    Outcome SimulationError (List AMM) :=
  path.hops.mapM fun hop =>
    match statePools.find? (·.address == hop.poolAddress) with
    | some pool => .ok pool
    | none => .error (.err (.poolNotFound hop.poolAddress))

/-- `map_err(|e| ArbitrageError::Simulation(e.to_string()))`. -/
def liftSwap {α : Type} (x : Outcome AMMError α) : Outcome SimulationError α :=
  x.mapError fun
    | .err e => .err (.swap e)
    | .panic => .panic

variable (env : SwapEnv)

/-- `simulate_hop`. -/
def simulateHop (amm : AMM) (hop : PathHop) (amountIn : U256) :
    Option (Outcome SimulationError U256) :=
  (amm.simulateSwap env hop.tokenIn amountIn).map liftSwap

/-- The loop of `simulate_path`: the last output, or nothing when some output is zero. -/
def simulateHops : List (PathHop × AMM) → U256 →
    Option (Outcome SimulationError (Option U256))
  | [], currentAmount => some (.ok (some currentAmount))
  | (hop, amm) :: hops, currentAmount =>
    match simulateHop env amm hop currentAmount with
    | none => none
    | some (.error e) => some (.error e)
    | some (.ok output) => if output = 0 then some (.ok none) else simulateHops hops output

/-- The result for a last output; a loss underflows and gives nothing. -/
def resultFor (path : ArbitragePath) (amountIn currentAmount : U256) : Option OptimizationResult :=
  if amountIn ≤ currentAmount then
    some {
      path
      optimalInput := amountIn
      expectedProfit := currentAmount - amountIn
      outputAmount := currentAmount }
  else none

/-- `simulate_path`; `none` when a swap needs more rounds than the bound. -/
def simulatePath (path : ArbitragePath) (pools : List AMM) (amountIn : U256) :
    Option (Outcome SimulationError (Option OptimizationResult)) :=
  if path.hops.isEmpty then some (.ok none)
  else if amountIn = 0 then some (.ok none)
  else
    (simulateHops env (path.hops.zip pools) amountIn).map fun result =>
      result.map fun last => last.bind (resultFor path amountIn)

/-- What `optimize` reads of the configuration. -/
structure OptimizationConfig where
  maxIterations : Nat
  minProfit : U256
  maxInput : U256

/-- `ArbitrageError::Optimization` and `ArbitrageError::Simulation`. -/
inductive OptimizeError where
  /-- "Mismatch between path hops and pools". -/
  | mismatch
  | simulation (e : SimulationError)
  deriving DecidableEq, Repr

/-- The variables of the loop of `optimize`. -/
structure Search where
  low : U256
  high : U256
  bestResult : Option OptimizationResult

namespace Search

def start (config : OptimizationConfig) : Search where
  low := 0
  high := if 1000000000000000000#256 ≤ config.maxInput then 1000000000000000000#256
    else config.maxInput
  bestResult := none

def mid (s : Search) : U256 := (s.low + s.high) >>> 1

/-- `mid.saturating_sub(1)`. -/
def lowered (s : Search) : Search :=
  { s with high := if 1 ≤ s.mid then s.mid - 1 else 0 }

/-- The variables after the simulation of `mid`. -/
def answer (config : OptimizationConfig) (s : Search) : Option OptimizationResult → Search
  | some sim =>
    if sim.expectedProfit > config.minProfit then
      { s with bestResult := some sim, low := s.mid + 1 }
    else s.lowered
  | none => s.lowered

end Search

/-- The loop of `optimize`. -/
def searchLoop (config : OptimizationConfig) (path : ArbitragePath) (pools : List AMM) :
    Nat → Search → Option (Outcome OptimizeError Search)
  | 0, s => some (.ok s)
  | iterations + 1, s =>
    match simulatePath env path pools s.mid with
    | none => none
    | some (.error (.err e)) => some (.error (.err (.simulation e)))
    | some (.error .panic) => some (.error .panic)
    | some (.ok simulation) => searchLoop config path pools iterations (s.answer config simulation)

/-- `PathOptimizer::optimize`. -/
def optimize (config : OptimizationConfig) (path : ArbitragePath) (pools : List AMM) :
    Option (Outcome OptimizeError (Option OptimizationResult)) :=
  if pools.length ≠ path.hops.length then some (.error (.err .mismatch))
  else
    (searchLoop env config path pools config.maxIterations (.start config)).map fun result =>
      result.map Search.bestResult

end ArbitrageBot
