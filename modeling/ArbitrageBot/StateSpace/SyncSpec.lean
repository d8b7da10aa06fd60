import ArbitrageBot.Lib.UndoLog
import ArbitrageBot.StateSpace.Sync

/-!
# What a synchronisation does

A synchronisation with the logs of one block replays them on every pool and caches the states the
changed pools had before (`sync_block`); unwinding the cache rewinds the store through these
snapshots (`unwind_spec`).
-/

namespace ArbitrageBot

open Lib

/-- The logs of one address. -/
def logsOf (a : Address) (logs : List Log) : List Log :=
  logs.filter (·.address == a)

theorem logsOf_append (a : Address) (logs logs' : List Log) :
    logsOf a (logs ++ logs') = logsOf a logs ++ logsOf a logs' :=
  List.filter_append ..

/-- The pools of a map sit under their addresses. -/
def Keyed (state : HashMap Address AMM) : Prop :=
  ∀ a amm, state.lookup a = some amm → amm.address = a

theorem Keyed.empty : Keyed ∅ := by
  intro a amm h
  cases h

theorem Keyed.insert {state : HashMap Address AMM} (h : Keyed state) {a : Address} {amm : AMM}
    (ha : amm.address = a) : Keyed (state.insert a amm) := by
  intro b x hx
  rw [HashMap.lookup_insert] at hx
  split at hx
  · rename_i hb
    cases hx
    rw [ha, hb]
  · exact h b x hx

/-- A keyed map holds a pool exactly where the pool's address is. -/
theorem Keyed.mem_values_iff {state : HashMap Address AMM} (h : Keyed state) {amm : AMM} :
    amm ∈ state.values ↔ state.lookup amm.address = some amm := by
  constructor
  · intro hmem
    obtain ⟨⟨a, amm⟩, hentry, rfl⟩ := List.mem_map.mp hmem
    have ha : state.lookup a = some amm := AList.mem_lookup_iff.mpr hentry
    rw [h a amm ha]
    exact ha
  · intro hl
    exact List.mem_map.mpr ⟨⟨amm.address, amm⟩, AList.mem_lookup_iff.mp hl, rfl⟩

/-- The pools of a map that keeps each under its address have different addresses. -/
theorem values_nodup_addresses {ν : Type} {f : ν → AMM} {m : HashMap Address ν}
    (hm : ∀ a v, m.lookup a = some v → (f v).address = a) :
    ((m.values.map f).map (·.address)).Nodup := by
  have hkeys : (m.values.map f).map (·.address) = m.keys := by
    unfold HashMap.values AList.keys List.keys
    rw [List.map_map, List.map_map]
    refine List.map_congr_left fun entry hentry => ?_
    exact hm entry.1 entry.2 (AList.mem_lookup_iff.mpr hentry)
  rw [hkeys]
  exact AList.keys_nodup m

theorem Keyed.nodup_addresses {state : HashMap Address AMM} (h : Keyed state) :
    (state.values.map (·.address)).Nodup := by
  have hnodup := @values_nodup_addresses AMM id state h
  rwa [List.map_id] at hnodup

/-- `after` is the store `before` with the logs of each pool applied to it. -/
structure Replayed (prof : BuildProfile) (logs : List Log) (before after : Address → Option AMM) :
    Prop where
  absent : ∀ a, before a = none → after a = none
  present : ∀ a amm, before a = some amm →
    ∃ amm', amm.replay prof (logsOf a logs) = .ok amm' ∧ after a = some amm'

namespace Replayed

variable {prof : BuildProfile} {logs logs' : List Log} {s t u : Address → Option AMM}

protected theorem refl (prof : BuildProfile) (s : Address → Option AMM) : Replayed prof [] s s where
  absent := fun _ h => h
  present := fun _ amm h => ⟨amm, rfl, h⟩

theorem append (h : Replayed prof logs s t) (h' : Replayed prof logs' t u) :
    Replayed prof (logs ++ logs') s u where
  absent := fun a ha => h'.absent a (h.absent a ha)
  present := by
    intro a amm ha
    obtain ⟨amm₁, h₁, ha₁⟩ := h.present a amm ha
    obtain ⟨amm₂, h₂, ha₂⟩ := h'.present a amm₁ ha₁
    refine ⟨amm₂, ?_, ha₂⟩
    rw [logsOf_append, AMM.replay_append, h₁, ok_bind, h₂]

end Replayed

/-- The states a list of pools holds. -/
def snapshot (amms : List AMM) (a : Address) : Option AMM :=
  amms.find? (·.address == a)

theorem snapshot_nil : snapshot [] = fun _ => none := rfl

theorem snapshot_insertCached (amms : List AMM) (amm : AMM) (a : Address) :
    snapshot (StateSpace.insertCached amms amm) a =
      (snapshot amms a).or (if amm.address = a then some amm else none) := by
  unfold StateSpace.insertCached snapshot
  split
  · rename_i hany
    obtain ⟨amm', hmem, heq⟩ := List.any_eq_true.mp hany
    have haddr : amm'.address = amm.address := by simpa [BEq.beq] using heq
    by_cases ha : amm.address = a
    · have hsome : (amms.find? (·.address == a)).isSome :=
        List.find?_isSome.mpr ⟨amm', hmem, by simp [haddr, ha]⟩
      obtain ⟨x, hx⟩ := Option.isSome_iff_exists.mp hsome
      rw [hx]
      rfl
    · rw [if_neg ha, Option.or_none]
  · rw [List.find?_append]
    by_cases ha : amm.address = a <;> simp [ha]

namespace StateSpace

variable {prof : BuildProfile} {s s' : Syncing} {space space' mid : StateSpace} {log : Log}
  {logs : List Log} {affected : List Address} {n : Nat}

/-! ## The loop over the logs -/

/-- A round on a log of the current block: it syncs the pool of the log, if there is one. -/
theorem syncLog_cases (h : syncLog prof s log = .ok s')
    (hn : log.blockNumber = some s.blockNumber) :
    (s.space.state.lookup log.address = none ∧ s' = s) ∨
    ∃ amm amm', s.space.state.lookup log.address = some amm ∧ amm.sync prof log = .ok amm' ∧
      s' = { s with
        space := { s.space with state := s.space.state.insert log.address amm' }
        cachedAmms := insertCached s.cachedAmms amm } := by
  unfold syncLog at h
  rw [hn] at h
  simp only [ne_eq, not_true_eq_false, if_false, pure_bind] at h
  cases hl : s.space.state.lookup log.address with
  | none =>
    rw [hl] at h
    cases h
    exact Or.inl ⟨rfl, rfl⟩
  | some amm =>
    rw [hl] at h
    dsimp only at h
    cases hs : amm.sync prof log with
    | ok amm' =>
      rw [hs] at h
      cases h
      exact Or.inr ⟨amm, amm', rfl, hs, rfl⟩
    | error e =>
      rw [hs] at h
      cases e <;> cases h

/-- Where the loop stands: the cached pools undo what it has changed since the store was `before`.
-/
structure Tracking (before : Address → Option AMM) (s : Syncing) : Prop where
  keyed : Keyed s.space.state
  undo : UndoLog.restore (snapshot s.cachedAmms) s.space.state.lookup = before

/-- One round keeps track of the changes, and replays the log. -/
theorem Tracking.syncLog {before : Address → Option AMM} (htr : Tracking before s)
    (h : StateSpace.syncLog prof s log = .ok s') (hn : log.blockNumber = some s.blockNumber) :
    Tracking before s' ∧ Replayed prof [log] s.space.state.lookup s'.space.state.lookup ∧
    s'.space.cache = s.space.cache ∧ s'.space.latestBlock = s.space.latestBlock ∧
    s'.blockNumber = s.blockNumber := by
  rcases syncLog_cases h hn with ⟨hnone, rfl⟩ | ⟨amm, amm', hl, hsync, rfl⟩
  · refine ⟨htr, ⟨fun a ha => ha, fun a amm ha => ⟨amm, ?_, ha⟩⟩, rfl, rfl, rfl⟩
    have hne : ¬ log.address = a := by
      rintro rfl
      rw [hnone] at ha
      cases ha
    simp [logsOf, hne, AMM.replay, pure, Except.pure]
  have haddr := htr.keyed _ _ hl
  refine ⟨⟨htr.keyed.insert ((AMM.sync_address hsync).trans haddr), ?_⟩, ⟨?_, ?_⟩, rfl, rfl, rfl⟩
  · rw [← htr.undo]
    funext a
    simp only [UndoLog.restore, snapshot_insertCached, HashMap.lookup_insert, haddr]
    by_cases ha : a = log.address
    · subst ha
      rw [if_pos rfl, if_pos rfl, hl]
      cases snapshot s.cachedAmms log.address <;> rfl
    · rw [if_neg (Ne.symm ha), if_neg ha, Option.or_none]
  · intro a ha
    rw [HashMap.lookup_insert]
    split
    · rename_i heq
      rw [heq, hl] at ha
      cases ha
    · exact ha
  · intro a x hx
    rw [HashMap.lookup_insert]
    by_cases ha : a = log.address
    · subst ha
      rw [hl] at hx
      cases hx
      refine ⟨amm', ?_, if_pos rfl⟩
      simp [logsOf, AMM.replay, hsync, pure, Except.pure]
    · refine ⟨x, ?_, (if_neg ha).trans hx⟩
      simp [logsOf, Ne.symm ha, AMM.replay, pure, Except.pure]

/-- The loop over the logs of one block. -/
theorem Tracking.foldlM {before : Address → Option AMM} (htr : Tracking before s)
    (h : logs.foldlM (StateSpace.syncLog prof) s = .ok s')
    (hlogs : ∀ log ∈ logs, log.blockNumber = some s.blockNumber) :
    Tracking before s' ∧ Replayed prof logs s.space.state.lookup s'.space.state.lookup ∧
    s'.space.cache = s.space.cache ∧ s'.space.latestBlock = s.space.latestBlock ∧
    s'.blockNumber = s.blockNumber := by
  induction logs generalizing s with
  | nil =>
    cases h
    exact ⟨htr, Replayed.refl _ _, rfl, rfl, rfl⟩
  | cons log logs ih =>
    rw [List.foldlM_cons, bind_eq_ok] at h
    obtain ⟨s₁, h₁, h⟩ := h
    obtain ⟨htr₁, hrep₁, hcache₁, hlatest₁, hnum₁⟩ :=
      htr.syncLog h₁ (hlogs log (List.mem_cons_self ..))
    obtain ⟨htr₂, hrep₂, hcache₂, hlatest₂, hnum₂⟩ := ih htr₁ h fun log' hmem => by
      rw [hnum₁]
      exact hlogs log' (List.mem_cons_of_mem _ hmem)
    exact ⟨htr₂, hrep₁.append hrep₂, hcache₂.trans hcache₁, hlatest₂.trans hlatest₁,
      hnum₂.trans hnum₁⟩

/-! ## Unwinding -/

/-- `state.insert(amm.address(), amm)` for each pool of a list. -/
def insertAll (state : HashMap Address AMM) (amms : List AMM) : HashMap Address AMM :=
  amms.foldl (fun state amm => state.insert amm.address amm) state

theorem insertAll_keyed {state : HashMap Address AMM} (h : Keyed state) (amms : List AMM) :
    Keyed (insertAll state amms) := by
  unfold insertAll
  induction amms generalizing state with
  | nil => exact h
  | cons amm amms ih => exact ih (h.insert rfl)

/-- Inserting pools of different addresses overrides the state at their addresses. -/
theorem insertAll_lookup {amms : List AMM} (hnodup : (amms.map (·.address)).Nodup)
    (state : HashMap Address AMM) (a : Address) :
    (insertAll state amms).lookup a = (snapshot amms a).or (state.lookup a) := by
  induction amms generalizing state with
  | nil => rfl
  | cons amm amms ih =>
    rw [List.map_cons, List.nodup_cons] at hnodup
    have hrec := ih hnodup.2 (state.insert amm.address amm)
    have hfold : insertAll state (amm :: amms) =
        insertAll (state.insert amm.address amm) amms := rfl
    rw [hfold, hrec, HashMap.lookup_insert]
    unfold snapshot
    rw [List.find?_cons]
    by_cases ha : a = amm.address
    · have hnone : amms.find? (·.address == a) = none := by
        rw [List.find?_eq_none]
        rintro amm' hmem heq
        rw [ha, beq_iff_eq] at heq
        exact hnodup.1 (heq ▸ List.mem_map_of_mem hmem)
      rw [hnone, if_pos ha, beq_iff_eq.mpr ha.symm]
      rfl
    · rw [if_neg ha, beq_eq_false_iff_ne.mpr (Ne.symm ha)]

/-- The pools of a map, by their addresses. -/
theorem snapshot_values {ν : Type} {f : ν → AMM} {m : HashMap Address ν}
    (hm : ∀ a v, m.lookup a = some v → (f v).address = a) (a : Address) :
    snapshot (m.values.map f) a = (m.lookup a).map f := by
  have key : ∀ entries : List (Sigma fun _ : Address => ν),
      (∀ e ∈ entries, (f e.2).address = e.1) →
      ((entries.map (·.2)).map f).find? (·.address == a) = (entries.dlookup a).map f := by
    intro entries hkeyed
    induction entries with
    | nil => rfl
    | cons e entries ih =>
      obtain ⟨hfirst, hrest⟩ := List.forall_mem_cons.mp hkeyed
      rw [List.map_cons, List.map_cons, List.find?_cons, hfirst, ih hrest]
      by_cases ha : e.1 = a
      · subst ha
        rw [beq_self_eq_true, List.dlookup_cons_eq]
        rfl
      · rw [beq_eq_false_iff_ne.mpr ha, List.dlookup_cons_ne _ _ (Ne.symm ha)]
  exact key m.entries fun e he => hm e.1 e.2 (AList.mem_lookup_iff.mpr he)

/-- Inserting the pools of a map overrides the state with the map. -/
theorem insertAll_values {m : HashMap Address AMM} (hm : Keyed m) (state : HashMap Address AMM) :
    (insertAll state m.values).lookup = UndoLog.restore m.lookup state.lookup := by
  funext a
  have hvalues := @snapshot_values AMM id m hm a
  rw [List.map_id, Option.map_id_apply] at hvalues
  rw [insertAll_lookup hm.nodup_addresses, hvalues]
  rfl

/-- The state space that a service builds from its pools. -/
def ofPools {ν : Type} (f : ν → AMM) (pools : HashMap Address ν) : StateSpace :=
  .ofState (insertAll ∅ (pools.values.map f))

section OfPools

variable {ν : Type} {f : ν → AMM} {pools : HashMap Address ν}
  (hkeyed : ∀ a pool, pools.lookup a = some pool → (f pool).address = a)

include hkeyed

theorem ofPools_lookup (a : Address) :
    (ofPools f pools).state.lookup a = (pools.lookup a).map f := by
  have hinsert := insertAll_lookup (values_nodup_addresses hkeyed) ∅ a
  rw [snapshot_values hkeyed, AList.lookup_empty, Option.or_none] at hinsert
  exact hinsert

theorem ofPools_keyed : Keyed (ofPools f pools).state := by
  intro a amm h
  rw [ofPools_lookup hkeyed] at h
  obtain ⟨pool, hpool, rfl⟩ := Option.map_eq_some_iff.mp h
  exact hkeyed a pool hpool

end OfPools

/-- The snapshots of the changes in a cache. -/
def snapshots (changes : List StateChange) : List (Address → Option AMM) :=
  changes.map fun change => snapshot change.stateChange

/-- `or_insert` of the pools of one change. -/
theorem foldl_orInsert {m : HashMap Address AMM} (hm : Keyed m) (amms : List AMM) :
    Keyed (amms.foldl (fun amms amm =>
      if (amms.lookup amm.address).isSome then amms else amms.insert amm.address amm) m) ∧
    (amms.foldl (fun amms amm =>
      if (amms.lookup amm.address).isSome then amms else amms.insert amm.address amm) m).lookup =
        UndoLog.restore m.lookup (snapshot amms) := by
  induction amms generalizing m with
  | nil =>
    refine ⟨hm, ?_⟩
    funext a
    simp [UndoLog.restore, snapshot]
  | cons amm amms ih =>
    rw [List.foldl_cons]
    cases hl : m.lookup amm.address with
    | some x =>
      rw [Option.isSome_some, if_pos rfl]
      refine ⟨(ih hm).1, ?_⟩
      rw [(ih hm).2]
      funext a
      simp only [UndoLog.restore, snapshot, List.find?_cons]
      by_cases ha : amm.address = a
      · rw [← ha, hl]
        rfl
      · rw [beq_eq_false_iff_ne.mpr ha]
    | none =>
      have hins : Keyed (m.insert amm.address amm) := hm.insert rfl
      rw [Option.isSome_none, if_neg Bool.false_ne_true]
      refine ⟨(ih hins).1, ?_⟩
      rw [(ih hins).2]
      funext a
      simp only [UndoLog.restore, snapshot, List.find?_cons]
      by_cases ha : a = amm.address
      · rw [ha, AList.lookup_insert, hl, beq_self_eq_true]
        rfl
      · rw [AList.lookup_insert_ne ha, beq_eq_false_iff_ne.mpr (Ne.symm ha)]

/-- Flattening lists the values of a map that holds the oldest state of each pool. -/
theorem flattenStateChanges_spec (changes : List StateChange) :
    ∃ m : HashMap Address AMM, StateChangeCache.flattenStateChanges changes = m.values ∧
      Keyed m ∧ m.lookup = UndoLog.merge (snapshots changes) := by
  unfold StateChangeCache.flattenStateChanges
  refine ⟨_, rfl, ?_⟩
  induction changes with
  | nil =>
    refine ⟨fun a amm h => ?_, rfl⟩
    rw [List.reverse_nil, List.foldl_nil, AList.lookup_empty] at h
    cases h
  | cons change older ih =>
    rw [List.reverse_cons, List.foldl_append, List.foldl_cons, List.foldl_nil]
    obtain ⟨hkeyed, hlookup⟩ := foldl_orInsert ih.1 change.stateChange
    refine ⟨hkeyed, hlookup.trans ?_⟩
    rw [ih.2]
    rfl

/-- **Flattening keeps the oldest state of each pool**: inserting the result is restoring the
merged snapshots. -/
theorem insertAll_flattenStateChanges (changes : List StateChange) (state : HashMap Address AMM) :
    (insertAll state (StateChangeCache.flattenStateChanges changes)).lookup =
      UndoLog.restore (UndoLog.merge (snapshots changes)) state.lookup := by
  obtain ⟨m, hvalues, hkeyed, hlookup⟩ := flattenStateChanges_spec changes
  rw [hvalues, insertAll_values hkeyed, hlookup]

/-- How many changes an unwinding to a block takes from the cache. -/
def unwound (changes : List StateChange) (blockToUnwind : Nat) : Nat :=
  (changes.findIdx? (·.blockNumber < blockToUnwind)).getD changes.length

theorem unwindStateChanges_eq_ok {CAP : Nat} {cache cache' : StateChangeCache CAP} {b : Nat}
    {amms : List AMM} (h : cache.unwindStateChanges b = .ok (amms, cache')) :
    ¬ b < cache.oldestBlock ∧
    amms = StateChangeCache.flattenStateChanges (cache.cache.take (unwound cache.cache b)) ∧
    cache'.cache = cache.cache.drop (unwound cache.cache b) ∧
    cache'.oldestBlock = cache.oldestBlock := by
  obtain ⟨oldestBlock, changes, hle⟩ := cache
  unfold StateChangeCache.unwindStateChanges at h
  unfold unwound
  dsimp only at h ⊢
  by_cases hold : b < oldestBlock
  · rw [if_pos hold] at h
    cases h
  · rw [if_neg hold] at h
    refine ⟨hold, ?_⟩
    cases changes with
    | nil =>
      cases h
      exact ⟨rfl, rfl, rfl⟩
    | cons latest changes =>
      rw [List.head?_cons] at h
      dsimp only at h
      by_cases hlatest : b > latest.blockNumber
      · rw [if_pos hlatest] at h
        cases h
        rw [List.findIdx?_cons, if_pos (by simpa using hlatest)]
        exact ⟨rfl, rfl, rfl⟩
      · rw [if_neg hlatest] at h
        cases h
        exact ⟨rfl, rfl, rfl⟩

/-- **Unwinding rewinds the store through the snapshots it takes from the cache.** -/
theorem unwind_spec (h : space.unwind prof n = .ok mid) (hkeyed : Keyed space.state) :
    Keyed mid.state ∧ ¬ n < space.cache.oldestBlock ∧
    mid.state.lookup = UndoLog.rewind
      (snapshots (space.cache.cache.take (unwound space.cache.cache n))) space.state.lookup ∧
    mid.cache.cache = space.cache.cache.drop (unwound space.cache.cache n) ∧
    mid.cache.oldestBlock = space.cache.oldestBlock ∧ mid.latestBlock = space.latestBlock := by
  unfold unwind at h
  rw [bind_eq_ok] at h
  obtain ⟨_, -, h⟩ := h
  rw [bind_eq_ok] at h
  obtain ⟨⟨cachedState, cache⟩, hunwind, h⟩ := h
  cases h
  have hok : space.cache.unwindStateChanges n = .ok (cachedState, cache) := by
    cases hx : space.cache.unwindStateChanges n with
    | error e =>
      rw [hx] at hunwind
      cases hunwind
    | ok x =>
      rw [hx] at hunwind
      cases hunwind
      rfl
  obtain ⟨hold, rfl, hcache, holdest⟩ := unwindStateChanges_eq_ok hok
  refine ⟨insertAll_keyed hkeyed _, hold, ?_, hcache, holdest, rfl⟩
  rw [UndoLog.rewind_eq_restore_merge]
  exact insertAll_flattenStateChanges _ _

/-! ## One block -/

/-- The effect of a synchronisation on the cache: nothing has changed, or the old states of what has
changed are pushed. -/
inductive Cached (n : Nat) (mid space : StateSpace) : Prop
  | unchanged (hcache : space.cache = mid.cache) (hstate : space.state.lookup = mid.state.lookup)
  | pushed (amms : List AMM) (hcache : mid.cache.push ⟨amms, n⟩ = .ok space.cache)
      (hundo : UndoLog.restore (snapshot amms) space.state.lookup = mid.state.lookup)

/-- The end of a synchronisation: what the loop has changed is cached. -/
theorem Cached.ofLoop (hloop : logs.foldlM (syncLog prof) ⟨mid, n, [], []⟩ = .ok s)
    (hlogs : ∀ log ∈ logs, log.blockNumber = some n) (hkeyed : Keyed mid.state)
    (hend : (if s.cachedAmms ≠ [] then (cacheStateChange s).map (·.space) else .ok s.space) =
      .ok space') :
    Keyed space'.state ∧ Replayed prof logs mid.state.lookup space'.state.lookup ∧
      space'.latestBlock = mid.latestBlock ∧ Cached n mid space' := by
  obtain ⟨htr, hrep, hcache, hlatest, hnum⟩ := Tracking.foldlM (s := ⟨mid, n, [], []⟩)
    ⟨hkeyed, rfl⟩ hloop hlogs
  have hundo := htr.undo
  by_cases hne : s.cachedAmms ≠ []
  · rw [if_pos hne] at hend
    unfold cacheStateChange at hend
    cases hpush : s.space.cache.push ⟨s.cachedAmms, s.blockNumber⟩ with
    | error e =>
      rw [hpush] at hend
      cases hend
    | ok cache =>
      rw [hpush] at hend
      cases hend
      rw [hnum, hcache] at hpush
      exact ⟨htr.keyed, hrep, hlatest, .pushed s.cachedAmms hpush hundo⟩
  · rw [if_neg hne] at hend
    cases hend
    rw [not_not.mp hne, snapshot_nil] at hundo
    exact ⟨htr.keyed, hrep, hlatest, .unchanged hcache hundo⟩

/-- **A synchronisation with the logs of one block** replays them, after an unwinding if the block
number is not above the latest block. -/
theorem sync_block (h : space.sync prof logs = .ok (affected, space')) (hne : logs ≠ [])
    (hlogs : ∀ log ∈ logs, log.blockNumber = some n) :
    ∃ mid, (if space.latestBlock ≥ n then space.unwind prof n = .ok mid else mid = space) ∧
      (Keyed mid.state → Keyed space'.state ∧
        Replayed prof logs mid.state.lookup space'.state.lookup ∧
        space'.latestBlock = mid.latestBlock ∧ Cached n mid space') := by
  cases logs with
  | nil => exact absurd rfl hne
  | cons first rest =>
    have hend : ∀ {s : Syncing}, (if s.cachedAmms ≠ [] then do
          let s ← cacheStateChange s
          pure (s.affectedAmms, s.space)
        else do
          let s ← pure s
          pure (s.affectedAmms, s.space)) = Except.ok (affected, space') →
        (if s.cachedAmms ≠ [] then (cacheStateChange s).map (·.space) else .ok s.space) =
          .ok space' := by
      intro s hs
      split at hs
      · rename_i hcached
        rw [bind_eq_ok] at hs
        obtain ⟨s₂, hs₂, hres⟩ := hs
        cases hres
        rw [if_pos hcached, hs₂]
        rfl
      · rename_i hcached
        cases hs
        rw [if_neg hcached]
    unfold sync at h
    rw [List.head?_cons] at h
    dsimp only at h
    rw [hlogs first (List.mem_cons_self ..)] at h
    by_cases hlatest : space.latestBlock ≥ n
    · simp only [if_pos hlatest] at h ⊢
      rw [bind_eq_ok] at h
      obtain ⟨mid, hmid, h⟩ := h
      rw [bind_eq_ok] at h
      obtain ⟨s, hloop, h⟩ := h
      exact ⟨mid, hmid, fun hkeyed => Cached.ofLoop hloop hlogs hkeyed (hend h)⟩
    · simp only [if_neg hlatest, pure_bind] at h ⊢
      rw [bind_eq_ok] at h
      obtain ⟨s, hloop, h⟩ := h
      exact ⟨space, rfl, fun hkeyed => Cached.ofLoop hloop hlogs hkeyed (hend h)⟩

end StateSpace

end ArbitrageBot
