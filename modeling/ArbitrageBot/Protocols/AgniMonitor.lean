import Mathlib.Data.List.Sort
import ArbitrageBot.Arbitrage.Misprices
import ArbitrageBot.Protocols.Candidate
import ArbitrageBot.StateSpace.SyncSpec

/-!
# The Agni service

The service builds its path cache once, from the pools it starts with. The cache holds a copy of the
pools besides the paths. The logs of each block change the pools, and the search for candidates
simulates the paths on the copies.
-/

namespace ArbitrageBot

/-- The first topic of a log. -/
def Payload.signature : Payload → Option Signature
  | .event e => some e.signature
  | .undecodable sig => some sig
  | .anonymous => none

namespace Protocols

namespace AgniMonitor

structure ServiceConfig where
  wmntAddress : Address
  minGrossProfit : U256
  minNetProfit : U256

inductive ServiceError where
  /-- A line of the log of the pools is not written. -/
  | csv
  deriving DecidableEq, Repr

/-! ## The cache -/

structure PathCache where
  paths : List ArbitragePath
  statePools : List AMM
  poolToPathIndices : HashMap Address (List Nat)

def PathCache.empty : PathCache where
  paths := []
  statePools := []
  poolToPathIndices := ∅

/-- `entry(..).or_default().push(idx)` for each hop of each path. -/
def indexPaths (paths : List ArbitragePath) : HashMap Address (List Nat) :=
  paths.zipIdx.foldl (fun indices (path, idx) =>
    path.hops.foldl (fun indices hop =>
      let (entry, indices) := indices.orInsert hop.poolAddress []
      indices.insert hop.poolAddress (entry ++ [idx])) indices) ∅

def pathConstraints (maxHops : Nat) (wmntAddress : Address) : PathConstraints :=
  { PathConstraints.default with
    maxLength := maxHops
    requiredStartToken := some wmntAddress
    requiredEndToken := some wmntAddress }

/-- The first path of each signature. -/
def uniquePaths (paths : List ArbitragePath) : List ArbitragePath :=
  (paths.foldl (fun unique path => (unique.orInsert (pathSignature path) path).2)
    (∅ : HashMap (List (Address × Address × Address × Nat)) ArbitragePath)).values

/-- `build_path_cache`; `none` when the search for cycles needs more than `fuel` rounds. -/
def buildPathCache (P : Petgraph Address PoolEdge) (fuel : Nat) (pools : HashMap Address AgniPool)
    (maxHops : Nat) (wmntAddress : Address) : Option PathCache :=
  let state := StateSpace.ofPools .agniPool pools
  let finder := PathFinder.new state (pathConstraints maxHops wmntAddress)
  (finder.scanPaths P fuel).map fun found =>
    let paths := uniquePaths found
    if paths.isEmpty then .empty
    else { paths, statePools := state.state.values, poolToPathIndices := indexPaths paths }

/-! ## The logs of a block -/

variable (prof : BuildProfile) (written : AgniPool → Log → Bool)

/-- One round of `apply_logs`: a log whose event is not decoded is passed over. The file takes a
line for every other log of a pool. -/
def applyLog (s : List Address × HashMap Address AgniPool) (log : Log) :
    Outcome ServiceError (List Address × HashMap Address AgniPool) :=
  let (changed, pools) := s
  let addr := log.address
  match pools.lookup addr with
  | none => .ok s
  | some pool =>
    match log.payload.signature with
    -- `log.topics()[0]`
    | none => .error .panic
    | some sig =>
      match pool.sync prof log with
      | .error .panic => .error .panic
      | .error (.err _) =>
        if sig ∈ [Signature.agniSwap, .mint, .burn] then .ok s
        else if written pool log then .ok s
        else .error (.err .csv)
      | .ok pool' =>
        if written pool' log then .ok (changed.insert addr, pools.insert addr pool')
        else .error (.err .csv)

/-- `apply_logs`: the pools that have changed, and the pools. -/
def applyLogs (pools : HashMap Address AgniPool) (logs : List Log) :
    Outcome ServiceError (List Address × HashMap Address AgniPool) :=
  logs.foldlM (applyLog prof written) ([], pools)

/-- The pools after a sequence of blocks. -/
def applyBlocks (pools : HashMap Address AgniPool) (blocks : List (List Log)) :
    Outcome ServiceError (HashMap Address AgniPool) :=
  blocks.foldlM (fun pools logs => (applyLogs prof written pools logs).map (·.2)) pools

/-! ## The candidates -/

variable (env : SwapEnv) (gasConfig : GasConfig) (config : ServiceConfig)

/-- The state of a pool that the executor contract compares. -/
def expectedState (pool : AgniPool) : List U256 :=
  [pool.sqrtPrice, BitVec.ofNat 256 pool.liquidity]

/-- `collect_agni_expected_states`; nothing when some pool is of another kind. -/
def collectAgniExpectedStates (pools : List AMM) : Option (List U256) :=
  (pools.mapM agniExpectedState).map List.flatten
where
  agniExpectedState : AMM → Option (List U256)
    | .agniPool pool => some (expectedState pool)
    | _ => none

/-- What the search does with one path, on the pools of its hops. -/
def candidateFor (path : ArbitragePath) (poolsForPath : List AMM) :
    Sim (Option PositiveCandidate) := do
  match ← bestPathSimulationWithSteps env path poolsForPath with
  | none => return none
  | some simulation =>
    -- `profit <= I256::ZERO`
    if ¬ (0 : U256).slt simulation.profit then return none
    else if simulation.profit < config.minGrossProfit then return none
    else
      let numHops := path.hops.length
      match gasConfig.netProfit simulation.profit numHops with
      | none => return none
      | some netProfit =>
        if netProfit < config.minNetProfit then return none
        else if ¬ gasConfig.isProfitableAfterGas simulation.profit numHops then return none
        else
          let tokenPath := buildTokenPath path
          if tokenPath.head? ≠ some config.wmntAddress then return none
          else if tokenPath.getLast? ≠ some config.wmntAddress then return none
          else
            match collectAgniExpectedStates poolsForPath with
            | none => return none
            | some expectedStates => return some {
                signature := pathSignature path
                hops := numHops
                input := simulation.input
                output := simulation.output
                profit := simulation.profit
                netProfit
                poolAddresses := path.hops.map (·.poolAddress)
                tokenPath
                amountsOut := simulation.stepOutputs
                expectedStates }

/-- The candidates among the paths of the cache on its own pools, the best one first. -/
def candidatesOf (pathCache : PathCache) : Sim (List PositiveCandidate) := do
  let candidates ← pathCache.paths.mapM fun path =>
    match poolsForPath path pathCache.statePools with
    | .ok pools => candidateFor env gasConfig config path pools
    | .error _ => return none
  return (candidates.filterMap id).insertionSort fun a b => b.netProfit ≤ a.netProfit

/-- `find_profitable_candidates`. -/
def findProfitableCandidates (pools : HashMap Address AgniPool) (pathCache : PathCache) :
    Sim (List PositiveCandidate) :=
  if pools.entries.isEmpty then return []
  else candidatesOf env gasConfig config pathCache

end AgniMonitor

end Protocols

end ArbitrageBot
