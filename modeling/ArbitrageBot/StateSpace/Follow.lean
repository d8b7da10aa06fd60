import ArbitrageBot.Amms.UniswapV3.Follow
import ArbitrageBot.StateSpace.Manager
import ArbitrageBot.StateSpace.Report

/-!
# A state space that follows its contracts

The pool contracts of a chain are called in any order, block after block. The manager sees the logs
of the calls that do not revert, those of contracts that it does not track among them. While the
chain does not reorganise, no block fails, and every tracked pool is what its contract is.
-/

namespace ArbitrageBot

open UniV3 (Libraries)

/-! ## The contracts of a chain -/

namespace UniV3

/-- The contracts after calls, and the events, each with the address of its contract. -/
def runCalls (lib : Libraries) : (Address → Pool) → List (Address × Pool.Call) →
    (Address → Pool) × List (Address × Event)
  | contracts, [] => (contracts, [])
  | contracts, (a, call) :: calls =>
    match (contracts a).call lib call with
    | none => runCalls lib contracts calls
    | some (after, event) =>
      let rest := runCalls lib (Function.update contracts a after) calls
      (rest.1, (a, event) :: rest.2)

/-- The log of an event of a block. -/
def logAt (number : Nat) (entry : Address × Event) : Log :=
  ⟨entry.1, some number, .event entry.2⟩

/-- A block of the chain, with calls of any of the contracts. -/
structure CallBlock where
  number : Nat
  calls : List (Address × Pool.Call)

/-- The block as the provider announces it. -/
def CallBlock.announced (lib : Libraries) (contracts : Address → Pool) (block : CallBlock) :
    Block where
  number := block.number
  logs := (runCalls lib contracts block.calls).2.map (logAt block.number)
  logs_number := List.forall_mem_map.mpr fun _ _ => rfl

/-- The contracts after blocks, and the announced blocks. -/
def runBlocks (lib : Libraries) : (Address → Pool) → List CallBlock →
    (Address → Pool) × List Block
  | contracts, [] => (contracts, [])
  | contracts, block :: blocks =>
    let rest := runBlocks lib (runCalls lib contracts block.calls).1 blocks
    (rest.1, block.announced lib contracts :: rest.2)

theorem logsOf_map_logAt (number : Nat) (events : List (Address × Event)) (a : Address) :
    logsOf a (events.map (logAt number)) ≠ [] ↔ ∃ event, (a, event) ∈ events := by
  unfold logsOf
  simp [logAt, List.filter_eq_nil_iff]

end UniV3

open UniV3 (CallBlock runCalls runBlocks logAt)

/-! ## One block -/

namespace StateSpace

/-- Every tracked pool is under its address and holds what its contract holds. -/
def Follows (space : StateSpace) (contracts : Address → UniV3.Pool) : Prop :=
  ∀ a amm, space.state.lookup a = some amm → ∃ pool : UniswapV3Pool,
    amm = .uniswapV3Pool pool ∧ pool.address = a ∧ pool.Follows (contracts a)

variable {lib : Libraries} {prof : BuildProfile} {space : StateSpace} {s : Syncing}
  {contracts : Address → UniV3.Pool}

theorem Follows.keyed (h : space.Follows contracts) : Keyed space.state := by
  intro a amm ha
  obtain ⟨pool, rfl, haddress, -⟩ := h a amm ha
  exact haddress

/-- A log of the current block at an address without a pool. -/
theorem syncLog_untracked {log : Log} (hnumber : log.blockNumber = some s.blockNumber)
    (hlookup : s.space.state.lookup log.address = none) : syncLog prof s log = .ok s := by
  unfold syncLog
  rw [hnumber]
  dsimp only
  rw [if_neg (not_not.mpr rfl), pure_bind, hlookup]
  rfl

/-- A log of the current block that the pool at its address takes in. -/
theorem syncLog_tracked {log : Log} {amm amm' : AMM}
    (hnumber : log.blockNumber = some s.blockNumber)
    (hlookup : s.space.state.lookup log.address = some amm) (hsync : amm.sync prof log = .ok amm') :
    syncLog prof s log = .ok { s with
      space := { s.space with state := s.space.state.insert log.address amm' }
      cachedAmms := insertCached s.cachedAmms amm } := by
  unfold syncLog
  rw [hnumber]
  dsimp only
  rw [if_neg (not_not.mpr rfl), pure_bind, hlookup]
  dsimp only
  rw [hsync]
  rfl

/-- **One event**: its pool, if it is tracked, takes it in, and the other pools stay. -/
theorem Follows.syncLog (hlib : lib.Documented) (h : s.space.Follows contracts)
    (prof : BuildProfile) {a : Address} {call : UniV3.Pool.Call} {after : UniV3.Pool}
    {event : Event}
    (hcall : (contracts a).call lib call = some (after, event)) :
    ∃ s', StateSpace.syncLog prof s (logAt s.blockNumber (a, event)) = .ok s' ∧
      s'.space.Follows (Function.update contracts a after) ∧
      s'.blockNumber = s.blockNumber ∧ s'.space.latestBlock = s.space.latestBlock := by
  cases hlookup : s.space.state.lookup a with
  | none =>
    refine ⟨s, syncLog_untracked rfl hlookup, fun b amm hb => ?_, rfl, rfl⟩
    have hne : b ≠ a := by
      rintro rfl
      rw [hlookup] at hb
      cases hb
    rw [Function.update_of_ne hne]
    exact h b amm hb
  | some amm =>
    obtain ⟨pool, rfl, haddress, hfollows⟩ := h a amm hlookup
    obtain ⟨pool', hfollows', hsync⟩ := hfollows.call hlib hcall
    have hone : (AMM.uniswapV3Pool pool).sync prof (logAt s.blockNumber (a, event)) =
        .ok (.uniswapV3Pool pool') := by
      unfold AMM.sync
      dsimp only
      rw [hsync prof _ rfl]
      rfl
    refine ⟨_, syncLog_tracked rfl hlookup hone, fun b amm hb => ?_, rfl, rfl⟩
    dsimp only at hb
    rw [HashMap.lookup_insert] at hb
    split at hb
    · rename_i hba
      cases hb
      subst hba
      refine ⟨pool', rfl, (AMM.sync_address hone).trans haddress, ?_⟩
      rwa [Function.update_self]
    · rename_i hba
      have hne : b ≠ a := hba
      rw [Function.update_of_ne hne]
      exact h b amm hb

/-- **The events of a block**, in the order of its calls. -/
theorem Follows.foldlM (hlib : lib.Documented) (h : s.space.Follows contracts)
    (prof : BuildProfile) (calls : List (Address × UniV3.Pool.Call)) :
    ∃ s', ((runCalls lib contracts calls).2.map (logAt s.blockNumber)).foldlM
        (StateSpace.syncLog prof) s = .ok s' ∧
      s'.space.Follows (runCalls lib contracts calls).1 ∧
      s'.space.latestBlock = s.space.latestBlock := by
  induction calls generalizing contracts s with
  | nil => exact ⟨s, rfl, h, rfl⟩
  | cons entry calls ih =>
    obtain ⟨a, call⟩ := entry
    unfold runCalls
    cases hcall : (contracts a).call lib call with
    | none => exact ih h
    | some result =>
      obtain ⟨after, event⟩ := result
      obtain ⟨s₁, hone, hfollows, hnumber, hlatest⟩ := h.syncLog hlib prof hcall
      obtain ⟨s', hrest, hfollows', hlatest'⟩ := ih hfollows
      refine ⟨s', ?_, hfollows', hlatest'.trans hlatest⟩
      dsimp only
      rw [List.map_cons, List.foldlM_cons, hone, ok_bind, ← hnumber]
      exact hrest

theorem exists_cacheStateChange (s : Syncing) : ∃ s', cacheStateChange s = .ok s' ∧
    s'.space.latestBlock = s.space.latestBlock := by
  obtain ⟨cache, hpush⟩ := StateChangeCache.push_ok (by decide : 2 ≤ CACHE_SIZE) s.space.cache
    ⟨s.cachedAmms, s.blockNumber⟩
  unfold cacheStateChange
  rw [hpush]
  exact ⟨_, rfl, rfl⟩

/-- **A block** above the latest block of the state space: no pool fails, and the pools are what the
contracts are. -/
theorem Follows.sync (hlib : lib.Documented) (h : space.Follows contracts) (prof : BuildProfile)
    {block : CallBlock} (hnumber : space.latestBlock < block.number) :
    ∃ affected space', space.sync prof (block.announced lib contracts).logs =
        .ok (affected, space') ∧
      space'.Follows (runCalls lib contracts block.calls).1 ∧
      space'.latestBlock = space.latestBlock := by
  have hstart : (⟨space, block.number, [], []⟩ : Syncing).space.Follows contracts := h
  obtain ⟨s, hloop, hfollows, hlatest⟩ := hstart.foldlM hlib prof block.calls
  change ∃ affected space', space.sync prof
    ((runCalls lib contracts block.calls).2.map (logAt block.number)) = .ok (affected, space') ∧ _
  unfold StateSpace.sync
  cases hevents : (runCalls lib contracts block.calls).2 with
  | nil =>
    rw [hevents] at hloop
    cases hloop
    exact ⟨_, _, rfl, hfollows, rfl⟩
  | cons entry events =>
    rw [hevents] at hloop
    have hreorg : ¬ space.latestBlock ≥ block.number := by omega
    rw [List.map_cons, List.head?_cons]
    dsimp only [logAt]
    rw [if_neg hreorg, pure_bind]
    change ∃ affected space', (List.foldlM _ _ (List.map (logAt block.number) (entry :: events)) >>=
      _) = _ ∧ _
    rw [hloop, ok_bind]
    by_cases hcached : s.cachedAmms ≠ []
    · obtain ⟨s', hcache, hlatest'⟩ := exists_cacheStateChange s
      rw [if_pos hcached, hcache]
      refine ⟨_, _, rfl, ?_, hlatest'.trans hlatest⟩
      unfold Follows
      rw [(cacheStateChange_eq_ok hcache).1]
      exact hfollows
    · rw [if_neg hcached]
      exact ⟨_, _, rfl, hfollows, hlatest⟩

/-- Without a reorganisation the pools that a synchronisation lists are those with a log, and none
comes or goes. -/
theorem sync_affected {logs : List Log} {affected : List Address} {after : StateSpace} {n : Nat}
    (hkeyed : Keyed space.state) (hlogs : ∀ log ∈ logs, log.blockNumber = some n)
    (hlatest : space.latestBlock < n) (h : space.sync prof logs = .ok (affected, after)) :
    (∀ a, a ∈ affected ↔ logsOf a logs ≠ [] ∧ space.state.lookup a ≠ none) ∧
      ∀ a, after.state.lookup a = none ↔ space.state.lookup a = none := by
  cases logs with
  | nil =>
    cases h
    exact ⟨fun a => by simp [logsOf], fun a => Iff.rfl⟩
  | cons first rest =>
    have hfirst : firstNumber (first :: rest) = some n := hlogs first List.mem_cons_self
    have hbase : base prof space (first :: rest) = space := by
      unfold base
      rw [hfirst]
      exact if_neg (by omega)
    obtain ⟨s, htouches, hstate, hmem⟩ := sync_touches hkeyed hfirst h
    rw [hbase] at htouches
    rw [← hstate]
    exact ⟨fun a => (hmem a).trans (htouches.mem_touched a), htouches.present⟩

end StateSpace

/-! ## Runs of the manager -/

namespace StateSpaceManager

/-- The manager tracks the pools of `init`, each of which is what its contract is. -/
structure Follows (init : HashMap Address AMM) (contracts : Address → UniV3.Pool)
    (manager : StateSpaceManager) : Prop where
  follows : manager.state.Follows contracts
  tracked : ∀ a, manager.state.state.lookup a = none ↔ init.lookup a = none
  latestBlock : manager.state.latestBlock = 0

variable {lib : Libraries} {init : HashMap Address AMM} {contracts : Address → UniV3.Pool}
  {manager : StateSpaceManager}

/-- **One block**: it succeeds, and lists the tracked pools with an event. -/
theorem Follows.handleBlock (hlib : lib.Documented) (h : manager.Follows init contracts)
    (prof : BuildProfile) {block : CallBlock} (hnumber : block.number ≠ 0) :
    ∃ affected manager', manager.handleBlock prof (block.announced lib contracts) =
        .ok (affected, manager') ∧
      manager'.Follows init (runCalls lib contracts block.calls).1 ∧
      ∀ a, a ∈ affected ↔ init.lookup a ≠ none ∧
        ∃ event, (a, event) ∈ (runCalls lib contracts block.calls).2 := by
  have hlatest : manager.state.latestBlock < block.number := by
    rw [h.latestBlock]
    omega
  obtain ⟨affected, state, hsync, hfollows, hsame⟩ := h.follows.sync hlib prof hlatest
  obtain ⟨hmem, hpresent⟩ := StateSpace.sync_affected h.follows.keyed
    (block.announced lib contracts).logs_number hlatest hsync
  refine ⟨affected, { manager with state, latestBlock := block.number }, ?_, ?_, fun a => ?_⟩
  · unfold StateSpaceManager.handleBlock
    rw [hsync]
    rfl
  · exact ⟨hfollows, fun a => (hpresent a).trans (h.tracked a), hsame.trans h.latestBlock⟩
  · rw [hmem a, and_comm]
    exact and_congr (not_congr (h.tracked a)) (UniV3.logsOf_map_logAt _ _ a)

/-- Any number of blocks. -/
theorem Follows.handleBlocks (hlib : lib.Documented) (h : manager.Follows init contracts)
    (prof : BuildProfile) {blocks : List CallBlock}
    (hnumbers : ∀ block ∈ blocks, block.number ≠ 0) :
    ∃ manager', manager.handleBlocks prof (runBlocks lib contracts blocks).2 = .ok manager' ∧
      manager'.Follows init (runBlocks lib contracts blocks).1 := by
  induction blocks generalizing contracts manager with
  | nil => exact ⟨manager, rfl, h⟩
  | cons block blocks ih =>
    obtain ⟨hnumber, hrest⟩ := List.forall_mem_cons.mp hnumbers
    obtain ⟨affected, manager₁, hone, hfollows, -⟩ := h.handleBlock hlib prof hnumber
    obtain ⟨manager', hrun, hfollows'⟩ := ih hfollows hrest
    refine ⟨manager', ?_, hfollows'⟩
    unfold StateSpaceManager.handleBlocks at hrun ⊢
    unfold runBlocks
    dsimp only
    rw [List.foldlM_cons, hone]
    exact hrun

/-- **The manager follows the contracts of the chain.** Whatever calls are made of whatever
contracts in the blocks that follow, in any order and with any of them reverting, no block fails;
the tracked pools are what their contracts are; and the next block lists those that have an
event. -/
theorem handleBlocks_follows (lib : Libraries) (hlib : lib.Documented) (prof : BuildProfile)
    (init : HashMap Address AMM) (latestBlock : Nat) (contracts : Address → UniV3.Pool)
    (hinit : (StateSpace.ofState init).Follows contracts) (blocks : List CallBlock)
    (hnumbers : ∀ block ∈ blocks, block.number ≠ 0) :
    ∃ manager, (ofState init latestBlock).handleBlocks prof (runBlocks lib contracts blocks).2 =
        .ok manager ∧
      manager.state.Follows (runBlocks lib contracts blocks).1 ∧
      (∀ a, manager.state.state.lookup a = none ↔ init.lookup a = none) ∧
      ∀ next : CallBlock, next.number ≠ 0 → ∃ affected manager',
        manager.handleBlock prof (next.announced lib (runBlocks lib contracts blocks).1) =
            .ok (affected, manager') ∧
          ∀ a, a ∈ affected ↔ init.lookup a ≠ none ∧ ∃ event,
            (a, event) ∈ (runCalls lib (runBlocks lib contracts blocks).1 next.calls).2 := by
  have hstart : (ofState init latestBlock).Follows init contracts :=
    ⟨hinit, fun _ => Iff.rfl, rfl⟩
  obtain ⟨manager, hrun, hfollows⟩ := hstart.handleBlocks hlib prof hnumbers
  refine ⟨manager, hrun, hfollows.follows, hfollows.tracked, fun next hnumber => ?_⟩
  obtain ⟨affected, manager', hone, -, hmem⟩ := hfollows.handleBlock hlib prof hnumber
  exact ⟨affected, manager', hone, hmem⟩

/-- A pool whose contract has just been initialized, at address 1. -/
def freshPool : UniswapV3Pool :=
  { UniswapV3Pool.new 1 with tickSpacing := 60, sqrtPrice := 1 }

def oneFreshPool : HashMap Address AMM :=
  (∅ : HashMap Address AMM).insert 1 (.uniswapV3Pool freshPool)

/-- Contracts that have just been initialized. -/
def freshContracts : Address → UniV3.Pool :=
  fun _ => UniV3.Pool.initialized 60 1000 1 0

theorem oneFreshPool_follows : (StateSpace.ofState oneFreshPool).Follows freshContracts := by
  intro a amm ha
  unfold StateSpace.ofState oneFreshPool at ha
  dsimp only at ha
  rw [HashMap.lookup_insert] at ha
  split at ha
  · rename_i hone
    cases ha
    exact ⟨freshPool, rfl, hone.symm, rfl, rfl, rfl, rfl, fun _ => rfl, fun _ => rfl⟩
  · cases ha

/-- Calls of the contract of the pool and of another one; the first burn of block 8 reverts. -/
def mintAndBurn : List CallBlock :=
  [⟨7, [(1, .mint 9 (-60) 60 5), (4, .mint 9 (-60) 60 5)]⟩,
    ⟨8, [(1, .burn 9 (-60) 60 6), (4, .burn 9 (-60) 60 2), (1, .burn 9 (-60) 60 5)]⟩]

theorem handleBlocks_follows_mintAndBurn : ∃ manager,
    (ofState oneFreshPool 6).handleBlocks ⟨true⟩
        (runBlocks UniV3.plainLibraries freshContracts mintAndBurn).2 = .ok manager ∧
      manager.state.Follows (runBlocks UniV3.plainLibraries freshContracts mintAndBurn).1 := by
  obtain ⟨manager, hrun, hfollows, -⟩ := handleBlocks_follows UniV3.plainLibraries
    UniV3.plainLibraries_documented ⟨true⟩ oneFreshPool 6 freshContracts oneFreshPool_follows
    mintAndBurn (by decide)
  exact ⟨manager, hrun, hfollows⟩

end StateSpaceManager

end ArbitrageBot
