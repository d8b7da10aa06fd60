import ArbitrageBot.Arbitrage.Optimizer

/-!
# Candidates of the monitor services

What both services compute for a path: the best input that a search over simulated inputs finds, and
the profit after gas.
-/

namespace ArbitrageBot

namespace Protocols

/-! ## Gas -/

/-- The field of `GasConfig` that the cost depends on. -/
structure GasConfig where
  gasPriceWei : Nat

namespace GasConfig

def calculateGasCost (self : GasConfig) (numHops : Nat) : U256 :=
  let gasLimit := match numHops with
    | 0 => 0
    | 1 => 300000000
    | 2 => 900000000
    | 3 => 1500000000
    | n => 2800000000 + (n - 4) * 500000000
  BitVec.ofNat 256 gasLimit * BitVec.ofNat 256 self.gasPriceWei

/-- `is_profitable_after_gas` with the safety margin 1.2, in thousandths. -/
def isProfitableAfterGas (self : GasConfig) (profitWei : U256) (numHops : Nat) : Bool :=
  let minRequired := self.calculateGasCost numHops * 1200 / 1000
  decide (minRequired ≤ profitWei)

/-- `net_profit`: a checked subtraction. -/
def netProfit (self : GasConfig) (grossProfitWei : U256) (numHops : Nat) : Option U256 :=
  let gasCost := self.calculateGasCost numHops
  if gasCost ≤ grossProfitWei then some (grossProfitWei - gasCost) else none

end GasConfig

/-! ## Simulations -/

/-- A computation that simulates swaps: nothing when a loop needs more rounds than the bound. -/
abbrev Sim := ExceptT (Fault AMMError) Option

/-- `.ok()`: an error gives nothing, a panic goes on. -/
def attempt {α : Type} (x : Sim α) : Sim (Option α) :=
  Option.map (fun
    | .ok a => .ok (some a)
    | .error (.err _) => .ok none
    | .error .panic => .error .panic) x.run

/-- An input with its output and its profit, an `I256`. -/
structure Evaluated where
  input : U256
  output : U256
  profit : U256

structure PathSimulation where
  input : U256
  output : U256
  profit : U256
  stepOutputs : List U256

section

variable (env : SwapEnv)

/-- The outputs of the hops, each fed to the next one. -/
def hopOutputs : List (PathHop × AMM) → U256 → Sim (List U256)
  | [], _ => return []
  | (hop, amm) :: hops, current => do
    let output ← ExceptT.mk (amm.simulateSwap env hop.tokenIn current)
    let rest ← hopOutputs hops output
    return output :: rest

/-- `simulate_path_steps`. -/
def simulatePathSteps (path : ArbitragePath) (pools : List AMM) (amountIn : U256) :
    Sim (List U256 × U256) := do
  let outputs ← hopOutputs env (path.hops.zip pools) amountIn
  return (outputs, outputs.getLast?.getD amountIn - amountIn)

/-- `simulate_path_raw`. -/
def simulatePathRaw (path : ArbitragePath) (pools : List AMM) (amountIn : U256) :
    Sim (U256 × U256) := do
  let outputs ← hopOutputs env (path.hops.zip pools) amountIn
  let current := outputs.getLast?.getD amountIn
  return (current, current - amountIn)

/-! ## The search for an input -/

/-- The closure `evaluate`. -/
def evaluate (path : ArbitragePath) (pools : List AMM) (minInput maxInput amount : U256) :
    Sim (Option Evaluated) :=
  if amount < minInput ∨ amount > maxInput then return none
  else do
    let result ← attempt (simulatePathRaw env path pools amount)
    return result.map fun (output, profit) => ⟨amount, output, profit⟩

/-- The better of two simulations; the first one where they are alike. -/
def better (best : Option Evaluated) : Option Evaluated → Option Evaluated
  | none => best
  | some candidate =>
    match best with
    | none => some candidate
    | some b => if b.profit.slt candidate.profit then some candidate else some b

/-- Where the search stands. -/
structure Search where
  best : Evaluated
  step : U256

/-- A step to an input, kept if it is better; answers whether it was. -/
def tryInput (path : ArbitragePath) (pools : List AMM) (minInput maxInput : U256)
    (best : Evaluated) (input : U256) : Sim (Option Evaluated) := do
  let candidate ← evaluate env path pools minInput maxInput input
  return candidate.filter fun candidate => best.profit.slt candidate.profit

/-- One round of the search: a step up, else a step down, else half the step. -/
def searchRound (path : ArbitragePath) (pools : List AMM) (minInput maxInput : U256) (s : Search) :
    Sim Search :=
  if s.step = 0 then return s
  else do
    let nextInput := s.best.input + s.step
    let up ← if s.best.input.toNat + s.step.toNat < 2 ^ 256 ∧ nextInput ≤ maxInput then
        tryInput env path pools minInput maxInput s.best nextInput
      else pure none
    match up with
    | some best => return { s with best }
    | none =>
      let prevInput := s.best.input - s.step
      let down ← if s.step ≤ s.best.input ∧ minInput ≤ prevInput then
          tryInput env path pools minInput maxInput s.best prevInput
        else pure none
      match down with
      | some best => return { s with best }
      | none => return { s with step := s.step / 2 }

/-- `best_path_simulation`. -/
def bestPathSimulation (path : ArbitragePath) (pools : List AMM) (minInput maxInput : U256) :
    Sim (Option Evaluated) :=
  if minInput = 0 ∨ maxInput = 0 ∨ minInput > maxInput then return none
  else do
    let range := maxInput - minInput
    let candidates := minInput ::
      if maxInput > minInput then [maxInput, minInput + range / 2] else []
    let best ← (candidates.filter (minInput ≤ ·)).foldlM (fun best amount => do
      let candidate ← evaluate env path pools minInput maxInput amount
      return better best candidate) none
    match best with
    | none => return none
    | some best =>
      if range = 0 then return some best
      else
        let step := range / 4
        let s ← (List.range 64).foldlM
          (fun s _ => searchRound env path pools minInput maxInput s)
          ⟨best, if step = 0 then 1 else step⟩
        return some s.best

def MIN_INPUT : U256 := 1000000000000
def MAX_INPUT : U256 := 1000000000000000000000000

/-- `best_path_simulation_with_steps`. -/
def bestPathSimulationWithSteps (path : ArbitragePath) (pools : List AMM) :
    Sim (Option PathSimulation) := do
  match ← bestPathSimulation env path pools MIN_INPUT MAX_INPUT with
  | none => return none
  | some best =>
    let steps ← attempt (simulatePathSteps env path pools best.input)
    return steps.map fun (stepOutputs, profit) => ⟨best.input, best.output, profit, stepOutputs⟩

end

/-! ## Candidates -/

/-- What `path_signature` prints of each hop. -/
def pathSignature (path : ArbitragePath) : List (Address × Address × Address × Nat) :=
  path.hops.map fun hop => (hop.tokenIn, hop.tokenOut, hop.poolAddress, hop.feeBps)

/-- `build_token_path`. -/
def buildTokenPath (path : ArbitragePath) : List Address :=
  match path.hops with
  | [] => []
  | first :: _ => first.tokenIn :: path.hops.map (·.tokenOut)

/-- A candidate, without the texts for the logs. -/
structure PositiveCandidate where
  signature : List (Address × Address × Address × Nat)
  hops : Nat
  input : U256
  output : U256
  profit : U256
  netProfit : U256
  poolAddresses : List Address
  tokenPath : List Address
  amountsOut : List U256
  expectedStates : List U256

end Protocols

end ArbitrageBot
