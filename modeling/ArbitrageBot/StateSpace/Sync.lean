import ArbitrageBot.StateSpace.Cache

/-!
# The state space and its synchronisation from logs
-/

namespace ArbitrageBot

def CACHE_SIZE : Nat := 30

structure StateSpace where
  state : HashMap Address AMM
  latestBlock : Nat
  cache : StateChangeCache CACHE_SIZE

namespace StateSpace

/-- `StateSpace::default()` with the pools the builder inserts. -/
def ofState (state : HashMap Address AMM) : StateSpace where
  state := state
  latestBlock := 0
  cache := StateChangeCache.new

/-- A call that fails has changed the state space up to the failure. -/
abbrev Failure := Fault StateSpaceError × StateSpace

/-- The local variables of the loop of `sync`, and the state space it changes. -/
structure Syncing where
  space : StateSpace
  blockNumber : Nat
  cachedAmms : List AMM
  affectedAmms : List Address

/-- Reverts the AMMs to their states before `blockNumber`. The log line names the block before. -/
def unwind (prof : BuildProfile) (self : StateSpace) (blockNumber : Nat) :
    Except Failure StateSpace := do
  let _ ← (prof.unsigned (ε := StateSpaceError) 64 (blockNumber - 1)).mapError (·, self)
  let (cachedState, cache) ← (self.cache.unwindStateChanges blockNumber).mapError (·, self)
  return { self with
    cache
    state := cachedState.foldl (fun state amm => state.insert amm.address amm) self.state }

/-- Caches the AMMs the current block changed, as they were before it. -/
def cacheStateChange (s : Syncing) : Except Failure Syncing := do
  let cache ← (s.space.cache.push ⟨s.cachedAmms, s.blockNumber⟩).mapError (·, s.space)
  return { s with
    space := { s.space with cache }
    cachedAmms := []
    affectedAmms := s.affectedAmms ∪ s.cachedAmms.map (·.address) }

/-- `cached_amms.insert(amm.clone())`: a set of AMMs holds one AMM of an address, the first. -/
def insertCached (cachedAmms : List AMM) (amm : AMM) : List AMM :=
  if cachedAmms.any (· == amm) then cachedAmms else cachedAmms ++ [amm]

/-- One round of the loop over the logs. -/
def syncLog (prof : BuildProfile) (s : Syncing) (log : Log) : Except Failure Syncing :=
  match log.blockNumber with
  | none => .error (.err .missingBlockNumber, s.space)
  | some logBlockNumber => do
    let s ← if logBlockNumber ≠ s.blockNumber then
        (cacheStateChange s).map ({ · with blockNumber := logBlockNumber })
      else pure s
    match s.space.state.lookup log.address with
    | none => return s
    | some amm =>
      match amm.sync prof log with
      | .ok amm' => return { s with
          space := { s.space with state := s.space.state.insert log.address amm' }
          cachedAmms := insertCached s.cachedAmms amm }
      | .error (.err e) => .error (.err (.ammError e), s.space)
      | .error .panic => .error (.panic, s.space)

/-- `sync`: the addresses of the affected AMMs. -/
def sync (prof : BuildProfile) (self : StateSpace) (logs : List Log) :
    Except Failure (List Address × StateSpace) :=
  match logs.head? with
  | none => .ok ([], self)
  | some first =>
    match first.blockNumber with
    | none => .error (.err .missingBlockNumber, self)
    | some blockNumber => do
      -- a reorganisation
      let self ← if self.latestBlock ≥ blockNumber then self.unwind prof blockNumber else pure self
      let s ← logs.foldlM (syncLog prof) ⟨self, blockNumber, [], []⟩
      let s ← if s.cachedAmms ≠ [] then cacheStateChange s else pure s
      return (s.affectedAmms, s.space)

end StateSpace

end ArbitrageBot
