import ArbitrageBot.StateSpace.Reorg

/-!
# The blocks of a list of logs

The loop over the logs completes a block where it meets a log of another one: what the block has
found of its pools is cached then, in front of the changes from before. Where the loop stops at an
error, the block it is in is not cached.
-/

namespace ArbitrageBot

open Lib

/-! ## The blocks of a list of logs -/

/-- The logs of one block, as the loop meets them. -/
structure LogBlock where
  number : Nat
  logs : List Log

/-- Where the loop stands: the blocks it has completed, the newest first, and the one it is in. -/
structure Blocks where
  complete : List LogBlock
  current : LogBlock

/-- The logs of some blocks, newest first. -/
def logsBefore (older : List LogBlock) : List Log :=
  older.reverse.flatMap (·.logs)

/-- A pool of the state after some logs. -/
def poolAfter (prof : BuildProfile) (state : HashMap Address AMM) (logs : List Log) (a : Address) :
    Option AMM :=
  (state.lookup a).bind fun amm => (amm.replay prof (logsOf a logs)).toOption

/-- What a change of a block lists under an address: a pool with logs in the block, as it was
before. -/
def listed (prof : BuildProfile) (state : HashMap Address AMM) (older : List LogBlock)
    (block : LogBlock) (a : Address) : Option AMM :=
  if logsOf a block.logs = [] then none else poolAfter prof state (logsBefore older) a

/-- What a change says: the number of its block, and the pools it lists. -/
structure Listing where
  number : Nat
  pools : Address → Option AMM

def Listing.ofChange (change : StateChange) : Listing :=
  ⟨change.blockNumber, snapshot change.stateChange⟩

/-- The changes of some blocks, newest first. -/
def listings (prof : BuildProfile) (state : HashMap Address AMM) : List LogBlock → List Listing
  | [] => []
  | block :: older =>
    ⟨block.number, listed prof state older block⟩ :: listings prof state older

/-- The changes that are kept once some blocks are completed: theirs and the older ones, as many as
the cache holds. -/
def keptListings (prof : BuildProfile) (mid : StateSpace) (complete : List LogBlock) :
    List Listing :=
  (listings prof mid.state complete ++ mid.cache.cache.map Listing.ofChange).take CACHE_SIZE

/-- The block that cannot be unwound past: the oldest that is kept, once a change is dropped. -/
def horizon (prof : BuildProfile) (mid : StateSpace) (complete : List LogBlock) : Nat :=
  if complete.length + mid.cache.cache.length ≤ CACHE_SIZE then mid.cache.oldestBlock
  else ((keptListings prof mid complete).getLast?.map (·.number)).getD 0

/-- Does the pool of a log accept it? Logs of other addresses are passed over. -/
def accepts (prof : BuildProfile) (pool : Option AMM) (log : Log) : Bool :=
  match pool with
  | none => true
  | some amm =>
    match amm.sync prof log with
    | .ok _ => true
    | .error _ => false

namespace Blocks

/-- All the logs, in order. -/
def logs (blocks : Blocks) : List Log :=
  logsBefore blocks.complete ++ blocks.current.logs

/-- A log of another block completes the current one. -/
def turn (blocks : Blocks) (number : Nat) : Blocks :=
  if number ≠ blocks.current.number then
    ⟨blocks.current :: blocks.complete, ⟨number, []⟩⟩
  else blocks

def append (blocks : Blocks) (log : Log) : Blocks :=
  { blocks with current := { blocks.current with logs := blocks.current.logs ++ [log] } }

/-- The blocks where the loop stops: at a log without a number, or at one its pool does not
accept. -/
def advance (prof : BuildProfile) (state : HashMap Address AMM) (blocks : Blocks) :
    List Log → Blocks
  | [] => blocks
  | log :: logs =>
    match log.blockNumber with
    | none => blocks
    | some number =>
      let blocks := blocks.turn number
      if accepts prof (poolAfter prof state blocks.logs log.address) log then
        advance prof state (blocks.append log) logs
      else blocks

end Blocks

section Pools

variable {prof : BuildProfile} {state : HashMap Address AMM} {logs : List Log} {log : Log}
  {a : Address}

theorem poolAfter_nil : poolAfter prof state [] a = state.lookup a := by
  unfold poolAfter
  cases state.lookup a <;> rfl

/-- A log of another address leaves the pool. -/
theorem poolAfter_append_ne (ha : log.address ≠ a) :
    poolAfter prof state (logs ++ [log]) a = poolAfter prof state logs a := by
  have hlogs : logsOf a (logs ++ [log]) = logsOf a logs := by
    rw [logsOf_append]
    simp [logsOf, ha]
  unfold poolAfter
  rw [hlogs]

/-- A log is applied to the pool of its address. -/
theorem poolAfter_append_self : poolAfter prof state (logs ++ [log]) log.address =
    (poolAfter prof state logs log.address).bind fun amm => (amm.sync prof log).toOption := by
  have hlogs : logsOf log.address (logs ++ [log]) = logsOf log.address logs ++ [log] := by
    rw [logsOf_append]
    simp [logsOf]
  unfold poolAfter
  cases state.lookup log.address with
  | none => rfl
  | some amm =>
    rw [Option.bind_some, Option.bind_some, hlogs, AMM.replay_append]
    cases amm.replay prof (logsOf log.address logs) with
    | error e => rfl
    | ok amm' =>
      rw [ok_bind]
      unfold AMM.replay
      rw [List.foldlM_cons]
      have hsome : (Except.ok amm' : Outcome AMMError AMM).toOption = some amm' := rfl
      rw [hsome, Option.bind_some]
      cases amm'.sync prof log <;> rfl

/-- Logs of other addresses leave the pool. -/
theorem poolAfter_append_of_logsOf {logs' : List Log} (h : logsOf a logs' = []) :
    poolAfter prof state (logs ++ logs') a = poolAfter prof state logs a := by
  unfold poolAfter
  rw [logsOf_append, h, List.append_nil]

/-- A pool that has survived some logs has survived their beginning. -/
theorem poolAfter_of_append {logs' : List Log} {amm : AMM}
    (h : poolAfter prof state (logs ++ logs') a = some amm) :
    ∃ amm₁, poolAfter prof state logs a = some amm₁ := by
  unfold poolAfter at h ⊢
  cases hl : state.lookup a with
  | none =>
    rw [hl] at h
    cases h
  | some amm₀ =>
    rw [hl, Option.bind_some, logsOf_append, AMM.replay_append] at h
    rw [Option.bind_some]
    cases hr : amm₀.replay prof (logsOf a logs) with
    | error e =>
      rw [hr] at h
      cases h
    | ok amm₁ => exact ⟨amm₁, rfl⟩

end Pools

namespace Blocks

variable {prof : BuildProfile} {state : HashMap Address AMM} {blocks : Blocks} {log : Log}
  {a : Address}

theorem logs_append (blocks : Blocks) (log : Log) :
    (blocks.append log).logs = blocks.logs ++ [log] :=
  (List.append_assoc _ _ _).symm

theorem listed_append_ne (ha : log.address ≠ a) :
    listed prof state (blocks.append log).complete (blocks.append log).current a =
      listed prof state blocks.complete blocks.current a := by
  have hlogs : logsOf a (blocks.current.logs ++ [log]) = logsOf a blocks.current.logs := by
    rw [logsOf_append]
    simp [logsOf, ha]
  unfold listed append
  rw [hlogs]

theorem listed_append_self :
    listed prof state (blocks.append log).complete (blocks.append log).current log.address =
      poolAfter prof state (logsBefore blocks.complete) log.address := by
  have hlogs : logsOf log.address (blocks.current.logs ++ [log]) ≠ [] := by
    rw [logsOf_append]
    simp [logsOf]
  exact if_neg hlogs

theorem turn_number (blocks : Blocks) (number : Nat) :
    (blocks.turn number).current.number = number := by
  unfold turn
  split
  · rfl
  · rename_i heq
    exact (not_not.mp heq).symm

end Blocks

/-! ## The loop over the logs -/

theorem listings_length (prof : BuildProfile) (state : HashMap Address AMM)
    (blocks : List LogBlock) : (listings prof state blocks).length = blocks.length := by
  induction blocks with
  | nil => rfl
  | cons block older ih =>
    unfold listings
    rw [List.length_cons, List.length_cons, ih]

/-- The loop has reached `blocks` from the state space `mid`. -/
structure AtBlocks (prof : BuildProfile) (mid : StateSpace) (blocks : Blocks)
    (s : StateSpace.Syncing) : Prop where
  keyed : Keyed s.space.state
  number : s.blockNumber = blocks.current.number
  pools : ∀ a, s.space.state.lookup a = poolAfter prof mid.state blocks.logs a
  present : ∀ a, s.space.state.lookup a = none → mid.state.lookup a = none
  pending : ∀ a, snapshot s.cachedAmms a = listed prof mid.state blocks.complete blocks.current a
  cache : s.space.cache.cache.map Listing.ofChange = keptListings prof mid blocks.complete
  oldest : s.space.cache.oldestBlock = horizon prof mid blocks.complete

/-- A change is pushed in front of the cache and the changes it has no room for are dropped. -/
theorem StateChangeCache.push_eq_take {CAP : Nat} {cache cache' : StateChangeCache CAP}
    {change : StateChange} (h : cache.push change = .ok cache') :
    cache'.cache = (change :: cache.cache).take CAP := by
  unfold StateChangeCache.push at h
  split at h
  · rename_i hfull
    split at h
    · rename_i back hback
      cases h
      dsimp only
      generalize cache.cache = changes at hfull hback
      cases changes with
      | nil => cases hback
      | cons first rest =>
        rw [List.length_cons] at hfull
        rw [← hfull, List.take_succ_cons, List.dropLast_eq_take, List.length_cons,
          Nat.add_sub_cancel]
    · cases h
  · rename_i hroom
    cases h
    have hle := cache.length_le
    rw [List.take_of_length_le]
    rw [List.length_cons]
    omega

/-- A full cache is as old then as the oldest change it keeps. -/
theorem StateChangeCache.push_oldestBlock {CAP : Nat} {cache cache' : StateChangeCache CAP}
    {change : StateChange} (h : cache.push change = .ok cache') :
    cache'.oldestBlock = if cache.cache.length = CAP then
      (cache'.cache.getLast?.map (·.blockNumber)).getD 0 else cache.oldestBlock := by
  unfold StateChangeCache.push at h
  split at h
  · rename_i hfull
    split at h
    · rename_i back hback
      cases h
      rw [if_pos hfull]
      dsimp only
      rw [List.getLast?_cons, hback]
      rfl
    · cases h
  · rename_i hroom
    cases h
    rw [if_neg hroom]

namespace AtBlocks

open StateSpace

variable {prof : BuildProfile} {mid : StateSpace} {blocks : Blocks} {s : Syncing} {log : Log}
  {number : Nat}

theorem start (hkeyed : Keyed mid.state) (number : Nat) :
    AtBlocks prof mid ⟨[], ⟨number, []⟩⟩ ⟨mid, number, [], []⟩ where
  keyed := hkeyed
  number := rfl
  pools := fun _ => poolAfter_nil.symm
  present := fun _ h => h
  pending := fun _ => rfl
  cache := by
    unfold keptListings listings
    rw [List.nil_append, List.take_of_length_le]
    rw [List.length_map]
    exact mid.cache.length_le
  oldest := by
    unfold horizon
    rw [if_pos]
    rw [List.length_nil, Nat.zero_add]
    exact mid.cache.length_le

/-- What the current block has found goes in front of what is kept. -/
theorem push (h : AtBlocks prof mid blocks s) {cache : StateChangeCache CACHE_SIZE}
    (hpush : s.space.cache.push ⟨s.cachedAmms, s.blockNumber⟩ = .ok cache) :
    cache.cache.map Listing.ofChange =
      keptListings prof mid (blocks.current :: blocks.complete) := by
  have hfound : Listing.ofChange ⟨s.cachedAmms, s.blockNumber⟩ =
      ⟨blocks.current.number, listed prof mid.state blocks.complete blocks.current⟩ := by
    unfold Listing.ofChange
    rw [h.number, funext h.pending]
  have hcache := h.cache
  unfold keptListings at hcache ⊢
  unfold listings
  rw [StateChangeCache.push_eq_take hpush, List.map_take, List.map_cons, hfound, hcache,
    List.cons_append]
  unfold CACHE_SIZE
  rw [List.take_succ_cons, List.take_succ_cons, List.take_take]
  rfl

theorem horizon_push (h : AtBlocks prof mid blocks s) {cache : StateChangeCache CACHE_SIZE}
    (hpush : s.space.cache.push ⟨s.cachedAmms, s.blockNumber⟩ = .ok cache) :
    cache.oldestBlock = horizon prof mid (blocks.current :: blocks.complete) := by
  have hlength : s.space.cache.cache.length =
      min CACHE_SIZE (blocks.complete.length + mid.cache.cache.length) := by
    have hlength := congrArg List.length h.cache
    unfold keptListings at hlength
    rwa [List.length_map, List.length_take, List.length_append, listings_length, List.length_map]
      at hlength
  have hkept := h.push hpush
  have holdest := h.oldest
  unfold horizon at holdest ⊢
  rw [← hkept, List.length_cons]
  rw [StateChangeCache.push_oldestBlock hpush, List.getLast?_map, Option.map_map]
  by_cases hfull : s.space.cache.cache.length = CACHE_SIZE
  · rw [if_pos hfull, if_neg (by omega)]
    rfl
  · rw [if_neg hfull, if_pos (by omega), holdest, if_pos (by omega)]

/-- A log of another block caches the changes of the current one. -/
theorem turn (h : AtBlocks prof mid blocks s) (number : Nat) :
    ∃ s', (if number ≠ s.blockNumber then
        (cacheStateChange s).map ({ · with blockNumber := number })
      else pure s) = Except.ok s' ∧ AtBlocks prof mid (blocks.turn number) s' := by
  unfold Blocks.turn
  rw [← h.number]
  by_cases hne : number ≠ s.blockNumber
  · obtain ⟨cache', hpush⟩ := StateChangeCache.push_ok (by decide : 2 ≤ CACHE_SIZE) s.space.cache
      ⟨s.cachedAmms, s.blockNumber⟩
    rw [if_pos hne, if_pos hne]
    unfold cacheStateChange
    rw [hpush]
    refine ⟨_, rfl, h.keyed, rfl, fun a => ?_, h.present, fun _ => rfl, h.push hpush,
      h.horizon_push hpush⟩
    rw [h.pools]
    unfold Blocks.logs logsBefore
    rw [List.reverse_cons, List.flatMap_append, List.flatMap_singleton, List.append_nil]
  · rw [if_neg hne, if_neg hne]
    exact ⟨s, rfl, h⟩

/-- A log of another address changes nothing. -/
theorem append_none (h : AtBlocks prof mid blocks s)
    (hnone : s.space.state.lookup log.address = none) :
    AtBlocks prof mid (blocks.append log) s := by
  have hmid := h.present _ hnone
  have habsent : ∀ logs, poolAfter prof mid.state logs log.address = none := by
    intro logs
    unfold poolAfter
    rw [hmid]
    rfl
  refine ⟨h.keyed, h.number, fun a => ?_, h.present, fun a => ?_, h.cache, h.oldest⟩
  · rw [Blocks.logs_append]
    by_cases ha : log.address = a
    · rw [← ha, habsent, hnone]
    · rw [poolAfter_append_ne ha]
      exact h.pools a
  · by_cases ha : log.address = a
    · rw [h.pending, ← ha, Blocks.listed_append_self, habsent]
      unfold listed
      rw [habsent, ite_self]
    · rw [h.pending, Blocks.listed_append_ne ha]

/-- An accepted log changes its pool, whose old state is pending from then on. -/
theorem append_some (h : AtBlocks prof mid blocks s) {amm amm' : AMM}
    (hl : s.space.state.lookup log.address = some amm) (hsync : amm.sync prof log = .ok amm') :
    AtBlocks prof mid (blocks.append log) { s with
      space := { s.space with state := s.space.state.insert log.address amm' }
      cachedAmms := insertCached s.cachedAmms amm } := by
  have haddr := h.keyed _ _ hl
  have hpool := h.pools log.address
  rw [hl] at hpool
  have hlookup : ∀ a, (s.space.state.insert log.address amm').lookup a =
      if log.address = a then some amm' else s.space.state.lookup a := by
    intro a
    rw [HashMap.lookup_insert]
    simp only [eq_comm]
  refine ⟨h.keyed.insert ((AMM.sync_address hsync).trans haddr), h.number, fun a => ?_,
    fun a ha => ?_, fun a => ?_, h.cache, h.oldest⟩
  · rw [hlookup, Blocks.logs_append]
    by_cases ha : log.address = a
    · rw [if_pos ha, ← ha, poolAfter_append_self, ← hpool, Option.bind_some, hsync]
      rfl
    · rw [if_neg ha, poolAfter_append_ne ha]
      exact h.pools a
  · rw [hlookup] at ha
    split at ha
    · cases ha
    · exact h.present a ha
  · rw [snapshot_insertCached, haddr, h.pending]
    by_cases ha : log.address = a
    · subst ha
      rw [if_pos rfl, Blocks.listed_append_self]
      unfold listed
      by_cases hlogs : logsOf log.address blocks.current.logs = []
      · -- the first log of the pool in the block
        rw [if_pos hlogs, Option.none_or, hpool]
        unfold Blocks.logs
        exact poolAfter_append_of_logsOf hlogs
      · rw [if_neg hlogs]
        obtain ⟨before, hbefore⟩ :
            ∃ before, poolAfter prof mid.state (logsBefore blocks.complete) log.address =
              some before := poolAfter_of_append hpool.symm
        rw [hbefore]
        rfl
    · rw [if_neg ha, Option.or_none, Blocks.listed_append_ne ha]

/-- One round: the log's block is the current one then, and the log is applied to it if its pool
accepts it. -/
theorem syncLog (h : AtBlocks prof mid blocks s) (hnumber : log.blockNumber = some number) :
    ∃ s', AtBlocks prof mid (blocks.turn number) s' ∧
      ((accepts prof (poolAfter prof mid.state (blocks.turn number).logs log.address) log = true ∧
          ∃ s'', StateSpace.syncLog prof s log = .ok s'' ∧
            AtBlocks prof mid ((blocks.turn number).append log) s'') ∨
        (accepts prof (poolAfter prof mid.state (blocks.turn number).logs log.address) log = false ∧
          ∃ e, StateSpace.syncLog prof s log = .error (e, s'.space))) := by
  obtain ⟨s', hturn, hat⟩ := h.turn number
  refine ⟨s', hat, ?_⟩
  have hsame : number = s'.blockNumber := (hat.number.trans (blocks.turn_number number)).symm
  -- once the block is the current one, the round starts with the lookup
  have hround : StateSpace.syncLog prof s log = StateSpace.syncLog prof s' log := by
    unfold StateSpace.syncLog
    rw [hnumber]
    dsimp only
    rw [if_neg (not_not.mpr hsame)]
    by_cases hne : number ≠ s.blockNumber
    · rw [if_pos hne] at hturn ⊢
      rw [hturn]
      rfl
    · rw [if_neg hne] at hturn ⊢
      rw [hturn]
      rfl
  rw [hround, ← hat.pools]
  unfold accepts StateSpace.syncLog
  rw [hnumber]
  dsimp only
  rw [if_neg (not_not.mpr hsame), pure_bind]
  cases hl : s'.space.state.lookup log.address with
  | none => exact Or.inl ⟨rfl, s', rfl, hat.append_none hl⟩
  | some amm =>
    dsimp only
    cases hsync : amm.sync prof log with
    | ok amm' => exact Or.inl ⟨rfl, _, rfl, hat.append_some hl hsync⟩
    | error e =>
      refine Or.inr ⟨rfl, ?_⟩
      cases e with
      | err e => exact ⟨_, rfl⟩
      | panic => exact ⟨_, rfl⟩

/-- **The loop stops at an error where the blocks say**, with the state space of that moment. -/
theorem foldlM_error {logs : List Log} {e : Fault StateSpaceError} {after : StateSpace}
    (h : AtBlocks prof mid blocks s)
    (hrun : logs.foldlM (StateSpace.syncLog prof) s = .error (e, after)) :
    ∃ s', AtBlocks prof mid (blocks.advance prof mid.state logs) s' ∧ s'.space = after := by
  induction logs generalizing s blocks with
  | nil => cases hrun
  | cons log logs ih =>
    rw [List.foldlM_cons] at hrun
    unfold Blocks.advance
    cases hnumber : log.blockNumber with
    | none =>
      unfold StateSpace.syncLog at hrun
      rw [hnumber] at hrun
      cases hrun
      exact ⟨s, h, rfl⟩
    | some number =>
      obtain ⟨s', hat, ⟨haccepts, s'', hok, hat'⟩ | ⟨haccepts, e', herr⟩⟩ := h.syncLog hnumber
      · rw [hok, ok_bind] at hrun
        dsimp only
        rw [if_pos haccepts]
        exact ih hat' hrun
      · rw [herr, error_bind] at hrun
        dsimp only
        rw [haccepts, if_neg Bool.false_ne_true]
        cases hrun
        exact ⟨s', hat, rfl⟩

end AtBlocks

end ArbitrageBot
