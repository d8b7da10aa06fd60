import ArbitrageBot.StateSpace.LogBlocks

/-!
# Synchronisations that fail

Where the loop over the logs stops at an error, the pools of the block it is in have changed and
their old states are lost: unwinding that block restores nothing.
-/

namespace ArbitrageBot

open Lib

/-! ## Failed synchronisations -/

namespace StateSpace

/-- The number of the first log, which a synchronisation compares with the latest block. -/
def firstNumber (logs : List Log) : Option Nat :=
  logs.head?.bind (·.blockNumber)

/-- The state space the loop of `sync` starts from: after a reorganisation, the unwound one. -/
def base (prof : BuildProfile) (space : StateSpace) (logs : List Log) : StateSpace :=
  match firstNumber logs with
  | none => space
  | some number =>
    if space.latestBlock ≥ number then
      match space.unwind prof number with
      | .ok mid => mid
      | .error _ => space
    else space

/-- The blocks where the loop of `sync` stops. -/
def stop (prof : BuildProfile) (space : StateSpace) (logs : List Log) : Blocks :=
  Blocks.advance prof (base prof space logs).state ⟨[], ⟨(firstNumber logs).getD 0, []⟩⟩ logs

/-- Nothing has happened. -/
def Unchanged (space after : StateSpace) : Prop :=
  after.state = space.state ∧ after.cache = space.cache

/-- One of the blocks has this number, finds the pool in the state `amm` and leaves it in another.
-/
def ChangedIn (prof : BuildProfile) (state : HashMap Address AMM) (blocks : Blocks) (a : Address)
    (amm : AMM) (number : Nat) : Prop :=
  ∃ newer block older, blocks.current :: blocks.complete = newer ++ block :: older ∧
    block.number = number ∧ poolAfter prof state (logsBefore older) a = some amm ∧
    poolAfter prof state (logsBefore (block :: older)) a ≠ some amm

/-- Reverting the pools that `unwind_state_changes` of a block returns gives the state `amm`. -/
def Restores (after : StateSpace) (number : Nat) (a : Address) (amm : AMM) : Prop :=
  ∃ amms cache, after.cache.unwindStateChanges number = .ok (amms, cache) ∧
    (insertAll after.state amms).lookup a = some amm

/-- For every pool that differs, the cache holds its state from before the call under the number of
a block in which it changed from it, and unwinding that block restores it. -/
def Recoverable (prof : BuildProfile) (space : StateSpace) (logs : List Log) (after : StateSpace) :
    Prop :=
  ∀ a, after.state.lookup a ≠ space.state.lookup a → ∃ amm number,
    space.state.lookup a = some amm ∧
    ChangedIn prof (base prof space logs).state (stop prof space logs) a amm number ∧
    (∃ change ∈ after.cache.cache, change.blockNumber = number ∧
      snapshot change.stateChange a = some amm) ∧
    Restores after number a amm

/-- Of the changes that are kept where the loop stops, one of this number lists the pool in the
state `amm`, and so does the oldest to list it of those an unwinding of the block takes; the block
can still be unwound. -/
def Kept (prof : BuildProfile) (mid : StateSpace) (complete : List LogBlock) (a : Address)
    (amm : AMM) (number : Nat) : Prop :=
  (∃ listing ∈ keptListings prof mid complete, listing.number = number ∧
    listing.pools a = some amm) ∧
  horizon prof mid complete ≤ number ∧
  UndoLog.merge (((keptListings prof mid complete).takeWhile (number ≤ ·.number)).map (·.pools)) a =
    some amm

/-- Every pool that the loop leaves different where it stops has changed from its state before the
call in a block for which that state is kept. -/
def Complete (prof : BuildProfile) (space : StateSpace) (logs : List Log) : Prop :=
  let mid := base prof space logs
  let blocks := stop prof space logs
  ∀ a, poolAfter prof mid.state blocks.logs a ≠ space.state.lookup a → ∃ amm number,
    space.state.lookup a = some amm ∧ ChangedIn prof mid.state blocks a amm number ∧
    Kept prof mid blocks.complete a amm number

/-- The blocks come in the order of their numbers, after those of the cached changes. -/
structure InOrder (mid : StateSpace) (blocks : Blocks) : Prop where
  numbers : ((blocks.current :: blocks.complete).map (·.number) ++
    mid.cache.cache.map (·.blockNumber)).Pairwise (· > ·)
  oldest : ∀ block ∈ blocks.complete, mid.cache.oldestBlock ≤ block.number

/-- Every pool that the loop leaves different has changed from its state before the call in a block
that is complete where the loop stops, and not followed by as many as the cache holds. -/
def Settled (prof : BuildProfile) (space : StateSpace) (logs : List Log) : Prop :=
  let mid := base prof space logs
  let blocks := stop prof space logs
  ∀ a, poolAfter prof mid.state blocks.logs a ≠ space.state.lookup a →
    ∃ amm newer block older, space.state.lookup a = some amm ∧
      blocks.complete = newer ++ block :: older ∧ newer.length < CACHE_SIZE ∧
      poolAfter prof mid.state (logsBefore older) a = some amm ∧
      poolAfter prof mid.state (logsBefore (block :: older)) a ≠ some amm

variable {prof : BuildProfile} {space after : StateSpace} {logs : List Log} {e : StateSpaceError}

theorem unwind_error {number : Nat} {f : Failure} (h : space.unwind prof number = .error f) :
    f = (.panic, space) := by
  unfold unwind at h
  rw [bind_eq_error] at h
  rcases h with h | ⟨_, -, h⟩
  · unfold BuildProfile.unsigned at h
    split at h
    · cases h
    · split at h
      · cases h
        rfl
      · cases h
  · rw [bind_eq_error] at h
    rcases h with h | ⟨_, -, h⟩
    · cases hcache : space.cache.unwindStateChanges number with
      | ok result =>
        rw [hcache] at h
        cases h
      | error e =>
        rw [hcache, StateChangeCache.unwindStateChanges_eq_error hcache] at h
        cases h
        rfl
    · cases h

theorem base_keyed (hkeyed : Keyed space.state) : Keyed (base prof space logs).state := by
  unfold base
  split
  · exact hkeyed
  · split
    · split
      · rename_i mid hmid
        exact (unwind_spec hmid hkeyed).1
      · exact hkeyed
    · exact hkeyed

/-- After the loop nothing fails: the cache takes the changes of the last block. -/
theorem loop_error {s₀ : Syncing} {f : Failure} (h : (do
      let s ← logs.foldlM (syncLog prof) s₀
      let s ← if s.cachedAmms ≠ [] then cacheStateChange s else pure s
      return (s.affectedAmms, s.space)) = Except.error f) :
    logs.foldlM (syncLog prof) s₀ = .error f := by
  rw [bind_eq_error] at h
  rcases h with h | ⟨s, -, h⟩
  · exact h
  · obtain ⟨cache', hpush⟩ := StateChangeCache.push_ok (by decide : 2 ≤ CACHE_SIZE) s.space.cache
      ⟨s.cachedAmms, s.blockNumber⟩
    split at h
    · unfold cacheStateChange at h
      rw [hpush] at h
      cases h
    · cases h

/-- **A synchronisation that returns an error has stopped in its loop**: the end of it only pushes
to the cache. -/
theorem sync_error (hkeyed : Keyed space.state)
    (h : space.sync prof logs = .error (.err e, after)) :
    ∃ s, AtBlocks prof (base prof space logs) (stop prof space logs) s ∧ s.space = after := by
  have hbase : Keyed (base prof space logs).state := base_keyed hkeyed
  unfold sync at h
  unfold stop
  cases hlogs : logs with
  | nil =>
    rw [hlogs] at h
    cases h
  | cons first rest =>
    rw [hlogs, List.head?_cons] at h
    dsimp only at h
    cases hnumber : first.blockNumber with
    | none =>
      rw [hnumber] at h
      cases h
      have hfirst : firstNumber (first :: rest) = none := hnumber
      unfold base Blocks.advance
      rw [hfirst, hnumber]
      exact ⟨_, .start hkeyed 0, rfl⟩
    | some number =>
      have hfirst : firstNumber (first :: rest) = some number := hnumber
      have hloop : (first :: rest).foldlM (syncLog prof)
          ⟨base prof space (first :: rest), number, [], []⟩ = .error (.err e, after) := by
        rw [hnumber] at h
        unfold base
        rw [hfirst]
        dsimp only at h ⊢
        by_cases hlatest : space.latestBlock ≥ number
        · rw [if_pos hlatest] at h ⊢
          cases hunwind : space.unwind prof number with
          | ok mid =>
            rw [hunwind, ok_bind] at h
            exact loop_error h
          | error f =>
            rw [hunwind, error_bind, unwind_error hunwind] at h
            cases h
        · rw [if_neg hlatest] at h ⊢
          rw [pure_bind] at h
          exact loop_error h
      rw [hfirst]
      rw [hlogs] at hbase
      exact (AtBlocks.start hbase number).foldlM_error hloop

theorem take_unwound (changes : List StateChange) (number : Nat) :
    changes.take (unwound changes number) = changes.takeWhile (number ≤ ·.blockNumber) := by
  induction changes with
  | nil => rfl
  | cons change changes ih =>
    rw [StateChangeCache.unwound_cons, List.takeWhile_cons]
    by_cases hlt : change.blockNumber < number
    · rw [if_pos hlt, List.take_zero, if_neg (by simpa using hlt)]
    · rw [if_neg hlt, List.take_succ_cons, ih, if_pos (by simpa using hlt)]

/-- Unwinding a block restores a pool that differs if the oldest of the changes it takes does. -/
theorem restores_iff {number : Nat} {a : Address} {amm : AMM}
    (hne : after.state.lookup a ≠ some amm) : Restores after number a amm ↔
      after.cache.oldestBlock ≤ number ∧
      UndoLog.merge (((after.cache.cache.map Listing.ofChange).takeWhile (number ≤ ·.number)).map
        (·.pools)) a = some amm := by
  have hpools : ((after.cache.cache.map Listing.ofChange).takeWhile (number ≤ ·.number)).map
      (·.pools) = snapshots (after.cache.cache.take (unwound after.cache.cache number)) := by
    unfold snapshots
    rw [take_unwound, List.takeWhile_map, List.map_map]
    rfl
  rw [hpools]
  have hrestored : ∀ changes, (insertAll after.state
      (StateChangeCache.flattenStateChanges changes)).lookup a = some amm ↔
        UndoLog.merge (snapshots changes) a = some amm := by
    intro changes
    rw [congrFun (insertAll_flattenStateChanges changes after.state) a]
    unfold UndoLog.restore
    rw [Option.or_eq_some_iff]
    exact or_iff_left fun h => hne h.2
  constructor
  · rintro ⟨amms, cache, hunwind, hlookup⟩
    obtain ⟨hold, rfl, -⟩ := unwindStateChanges_eq_ok hunwind
    exact ⟨not_lt.mp hold, (hrestored _).mp hlookup⟩
  · rintro ⟨hold, hmerge⟩
    cases hunwind : after.cache.unwindStateChanges number with
    | ok result =>
      obtain ⟨-, hamms, -⟩ := unwindStateChanges_eq_ok hunwind
      exact ⟨result.1, result.2, hunwind, by rw [hamms]; exact (hrestored _).mpr hmerge⟩
    | error e =>
      unfold StateChangeCache.unwindStateChanges at hunwind
      rw [if_neg (not_lt.mpr hold)] at hunwind
      split at hunwind
      · cases hunwind
      · split at hunwind <;> cases hunwind

/-! ### Blocks in order -/

section InOrder

variable {mid : StateSpace} {blocks : Blocks} {a : Address} {amm : AMM}

theorem keptListings_numbers (prof : BuildProfile) (mid : StateSpace) (complete : List LogBlock) :
    (keptListings prof mid complete).map (·.number) =
      (complete.map (·.number) ++ mid.cache.cache.map (·.blockNumber)).take CACHE_SIZE := by
  have hlistings : (listings prof mid.state complete).map (·.number) =
      complete.map (·.number) := by
    induction complete with
    | nil => rfl
    | cons block older ih =>
      unfold listings
      rw [List.map_cons, List.map_cons, ih]
  unfold keptListings
  rw [List.map_take, List.map_append, hlistings, List.map_map]
  rfl

/-- What some blocks list stands in front of what the blocks before them list. -/
theorem listings_append (prof : BuildProfile) (state : HashMap Address AMM)
    (newer older : List LogBlock) :
    ∃ front, listings prof state (newer ++ older) = front ++ listings prof state older ∧
      front.map (·.number) = newer.map (·.number) := by
  induction newer with
  | nil => exact ⟨[], rfl, rfl⟩
  | cons block newer ih =>
    obtain ⟨front, hfront, hnumbers⟩ := ih
    refine ⟨⟨block.number, listed prof state (newer ++ older) block⟩ :: front, ?_, ?_⟩
    · rw [List.cons_append, List.cons_append, ← hfront]
      rfl
    · rw [List.map_cons, List.map_cons, hnumbers]

/-- A block that changes a pool has logs of it, and lists it. -/
theorem listed_of_changed {state : HashMap Address AMM} {older : List LogBlock} {block : LogBlock}
    (hbefore : poolAfter prof state (logsBefore older) a = some amm)
    (hafter : poolAfter prof state (logsBefore (block :: older)) a ≠ some amm) :
    listed prof state older block a = some amm := by
  unfold listed
  rw [if_neg, hbefore]
  -- without logs of the pool the block would leave it as it is
  intro hlogs
  refine hafter ?_
  unfold logsBefore at hbefore ⊢
  rw [List.reverse_cons, List.flatMap_append, List.flatMap_singleton,
    poolAfter_append_of_logsOf hlogs]
  exact hbefore

/-- A complete block with fewer blocks after it than the cache holds is kept. -/
theorem keptListings_split (prof : BuildProfile) (mid : StateSpace) {newer : List LogBlock}
    (block : LogBlock) (older : List LogBlock) (hlength : newer.length < CACHE_SIZE) :
    ∃ front rest, keptListings prof mid (newer ++ block :: older) =
      front ++ ⟨block.number, listed prof mid.state older block⟩ :: rest := by
  obtain ⟨front, hfront, hnumbers⟩ := listings_append prof mid.state newer (block :: older)
  have hfrontLength : front.length = newer.length := by
    rw [← List.length_map (·.number), hnumbers, List.length_map]
  obtain ⟨room, hroom⟩ : ∃ room, CACHE_SIZE - front.length = room + 1 :=
    ⟨CACHE_SIZE - front.length - 1, by omega⟩
  unfold keptListings
  rw [hfront]
  unfold listings
  rw [List.append_assoc, List.take_append, List.take_of_length_le (by omega), List.cons_append,
    hroom, List.take_succ_cons]
  exact ⟨front, _, rfl⟩

/-- Where the numbers of the kept changes fall, an unwinding of a block takes its change last. -/
theorem kept_of_split {complete : List LogBlock} {listing : Listing} {front rest : List Listing}
    (hfalling : ((keptListings prof mid complete).map (·.number)).Pairwise (· > ·))
    (hkept : keptListings prof mid complete = front ++ listing :: rest)
    (hlisted : listing.pools a = some amm) (hold : mid.cache.oldestBlock ≤ listing.number) :
    Kept prof mid complete a amm listing.number := by
  rw [hkept, List.map_append, List.map_cons, List.pairwise_append, List.pairwise_cons] at hfalling
  obtain ⟨-, ⟨hrest, -⟩, hnewer⟩ := hfalling
  refine ⟨⟨listing, ?_, rfl, hlisted⟩, ?_, ?_⟩
  · rw [hkept]
    exact List.mem_append_right _ (List.mem_cons_self ..)
  · unfold horizon
    split
    · exact hold
    · rw [hkept, List.getLast?_append, List.getLast?_cons]
      cases hlast : rest.getLast? with
      | none => exact le_rfl
      | some last => exact le_of_lt (hrest _ (List.mem_map_of_mem (List.mem_of_getLast? hlast)))
  · have hbehind : rest.takeWhile (listing.number ≤ ·.number) = [] := by
      cases rest with
      | nil => rfl
      | cons next rest =>
        have hnext := hrest _ (List.mem_map_of_mem (List.mem_cons_self ..))
        rw [List.takeWhile_cons, if_neg (by simpa using hnext)]
    rw [hkept, List.takeWhile_append_of_pos, List.takeWhile_cons, if_pos (by simp), hbehind,
      List.map_append]
    · exact UndoLog.merge_eq_some_iff.mpr ⟨front.map (·.pools), _, [], rfl, hlisted,
        List.forall_mem_nil _⟩
    · intro newer hmem
      have hnumber := hnewer _ (List.mem_map_of_mem hmem) _ (List.mem_cons_self ..)
      exact decide_eq_true (le_of_lt hnumber)

/-- In order, a state is kept for a block exactly when the block is complete and not followed by as
many as the cache holds. -/
theorem InOrder.changedIn_kept_iff (h : InOrder mid blocks) :
    (∃ number, ChangedIn prof mid.state blocks a amm number ∧
      Kept prof mid blocks.complete a amm number) ↔
    ∃ newer block older, blocks.complete = newer ++ block :: older ∧ newer.length < CACHE_SIZE ∧
      poolAfter prof mid.state (logsBefore older) a = some amm ∧
      poolAfter prof mid.state (logsBefore (block :: older)) a ≠ some amm := by
  have hnumbers := h.numbers
  rw [List.map_cons, List.cons_append, List.pairwise_cons] at hnumbers
  obtain ⟨hcurrent, hnumbers⟩ := hnumbers
  constructor
  · rintro ⟨number, ⟨newer, block, older, hall, rfl, hbefore, hafter⟩, ⟨listing, hmem, hnum, -⟩, -⟩
    have hkept : block.number ∈ (blocks.complete.map (·.number) ++
        mid.cache.cache.map (·.blockNumber)).take CACHE_SIZE := by
      rw [← keptListings_numbers prof mid, ← hnum]
      exact List.mem_map_of_mem hmem
    cases newer with
    | nil =>
      cases hall
      exact absurd (hcurrent _ (List.mem_of_mem_take hkept)) (lt_irrefl _)
    | cons first newer =>
      rw [List.cons_append] at hall
      obtain ⟨-, hcomplete⟩ := List.cons_eq_cons.mp hall
      refine ⟨newer, block, older, hcomplete, ?_, hbefore, hafter⟩
      by_contra hlength
      rw [hcomplete, List.map_append, List.append_assoc] at hkept hnumbers
      rw [List.take_append_of_le_length (by rw [List.length_map]; omega)] at hkept
      exact absurd ((List.pairwise_append.mp hnumbers).2.2 _ (List.mem_of_mem_take hkept) _
        (List.mem_append_left _ (List.mem_map_of_mem (List.mem_cons_self ..)))) (lt_irrefl _)
  · rintro ⟨newer, block, older, hcomplete, hlength, hbefore, hafter⟩
    obtain ⟨front, rest, hkept⟩ := keptListings_split prof mid block older hlength
    have hfalling :
        ((keptListings prof mid blocks.complete).map (·.number)).Pairwise (· > ·) := by
      rw [keptListings_numbers]
      exact hnumbers.sublist (List.take_sublist _ _)
    have hmem : block ∈ blocks.complete := by
      rw [hcomplete]
      exact List.mem_append_right _ (List.mem_cons_self ..)
    refine ⟨block.number, ⟨blocks.current :: newer, block, older, ?_, rfl, hbefore, hafter⟩,
      kept_of_split hfalling (hcomplete ▸ hkept) (listed_of_changed hbefore hafter)
        (h.oldest _ hmem)⟩
    rw [hcomplete]
    rfl

end InOrder

/-- **A failed synchronisation is recoverable exactly when the blocks where it stops account for
every pool it leaves different**; in order, when these have changed in blocks that are complete. -/
theorem recoverable_iff (hkeyed : Keyed space.state)
    (h : space.sync prof logs = .error (.err e, after)) :
    (Unchanged space after ∨ Recoverable prof space logs after ↔ Complete prof space logs) ∧
    (InOrder (base prof space logs) (stop prof space logs) →
      (Complete prof space logs ↔ Settled prof space logs)) := by
  obtain ⟨s, hat, rfl⟩ := sync_error hkeyed h
  have hunchanged : Unchanged space s.space → Recoverable prof space logs s.space := by
    intro hsame a hne
    exact absurd (by rw [hsame.1]) hne
  rw [or_iff_right_of_imp hunchanged]
  constructor
  · unfold Recoverable Complete
    refine forall_congr' fun a => ?_
    rw [hat.pools a]
    refine imp_congr_right fun hne => exists_congr fun amm => exists_congr fun number =>
      and_congr_right fun hpre => and_congr_right fun _ => and_congr ?_ ?_
    · rw [← hat.cache]
      simp only [List.mem_map, exists_exists_and_eq_and, Listing.ofChange]
    · rw [restores_iff, hat.cache, hat.oldest]
      rw [hat.pools a, ← hpre]
      exact hne
  · intro horder
    unfold Complete Settled
    refine forall_congr' fun a => imp_congr_right fun _ => exists_congr fun amm => ?_
    constructor
    · rintro ⟨number, hpre, hchanged⟩
      obtain ⟨newer, block, older, hblock⟩ := horder.changedIn_kept_iff.mp ⟨number, hchanged⟩
      exact ⟨newer, block, older, hpre, hblock⟩
    · rintro ⟨newer, block, older, hpre, hblock⟩
      obtain ⟨number, hchanged⟩ := horder.changedIn_kept_iff.mpr ⟨newer, block, older, hblock⟩
      exact ⟨number, hpre, hchanged⟩

/-- The pool reports new reserves in block 1, and block `number` has a log that does not decode. -/
def failingLogs (number : Nat) : List Log :=
  [⟨1, some 1, .event (.uniswapV2Sync 10 10)⟩, ⟨1, some number, .undecodable .uniswapV2Sync⟩]

/-- Where the failing log is one of block 2, block 1 is complete. -/
theorem recoverable_iff_nextBlock : ∃ after,
    (ofState onePool).sync ⟨true⟩ (failingLogs 2) =
      .error (.err (.ammError .solTypesError), after) ∧
    (Unchanged (ofState onePool) after ∨
      Recoverable ⟨true⟩ (ofState onePool) (failingLogs 2) after) := by
  have hfails : ∃ after, (ofState onePool).sync ⟨true⟩ (failingLogs 2) =
      .error (.err (.ammError .solTypesError), after) := ⟨_, rfl⟩
  obtain ⟨after, hsync⟩ := hfails
  obtain ⟨hrecoverable, hinOrder⟩ := recoverable_iff keyed_onePool hsync
  have horder : InOrder (base ⟨true⟩ (ofState onePool) (failingLogs 2))
      (stop ⟨true⟩ (ofState onePool) (failingLogs 2)) := by
    refine ⟨?_, fun block _ => Nat.zero_le _⟩
    change [2, 1].Pairwise (· > ·)
    decide
  refine ⟨after, hsync, hrecoverable.mpr ((hinOrder horder).mpr fun a hne => ?_)⟩
  have ha : a = 1 := by
    by_contra ha
    have hnone : onePool.lookup a = none := AList.lookup_insert_ne ha
    refine hne ?_
    unfold poolAfter
    change (onePool.lookup a).bind _ = onePool.lookup a
    rw [hnone]
    rfl
  subst ha
  refine ⟨poolWith 5, [], ⟨1, _⟩, [], rfl, rfl, by decide, rfl, ?_⟩
  intro hsame
  cases hsame

/-- Where it is one of block 1 too, the old state of the pool is lost. -/
theorem not_recoverable_sameBlock : ∃ after,
    (ofState onePool).sync ⟨true⟩ (failingLogs 1) =
      .error (.err (.ammError .solTypesError), after) ∧
    ¬ (Unchanged (ofState onePool) after ∨
      Recoverable ⟨true⟩ (ofState onePool) (failingLogs 1) after) := by
  refine ⟨_, rfl, ?_⟩
  rintro (⟨hstate, -⟩ | hrecoverable)
  · have hlookup := congrArg (AList.lookup (1 : Address)) hstate
    cases hlookup
  · obtain ⟨amm, number, -, -, ⟨change, hmem, -⟩, -⟩ := hrecoverable 1 (by
      intro hsame
      cases hsame)
    cases hmem

end StateSpace

end ArbitrageBot
