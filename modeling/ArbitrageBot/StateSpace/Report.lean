import ArbitrageBot.StateSpace.Recovery

/-!
# The report of a synchronisation

`sync` lists the pools of the logs it has replayed. The pools a reorganisation restores are not
among them, so the list is complete exactly when every pool whose state the unwinding changes has a
log of its own (`reportsChanges_iff`).
-/

namespace ArbitrageBot

open Lib

namespace StateSpace

/-- The state to which a synchronisation from block `number` restores a pool: the oldest one in the
changes it unwinds. -/
def restored (self : StateSpace) (number : Nat) (a : Address) : Option AMM :=
  if self.latestBlock ≥ number then
    UndoLog.merge (snapshots (self.cache.cache.take (unwound self.cache.cache number))) a
  else none

/-- Every pool that differs after a synchronisation is in its list. -/
def ReportsChanges (space : StateSpace) (affected : List Address) (after : StateSpace) : Prop :=
  ∀ a, space.state.lookup a ≠ after.state.lookup a → a ∈ affected

/-- A pool without a log is restored to the state it has. -/
def RestoresOnlyLogged (space : StateSpace) (logs : List Log) : Prop :=
  ∀ number a amm, firstNumber logs = some number → space.restored number a = some amm →
    logsOf a logs = [] → space.state.lookup a = some amm

/-! ## The loop -/

/-- The pools the loop has synced so far. -/
def Syncing.touched (s : Syncing) : List Address :=
  s.affectedAmms ∪ s.cachedAmms.map (·.address)

/-- The loop has touched exactly the pools with a log, and has left the others alone. -/
structure Touches (before : Address → Option AMM) (logs : List Log) (s : Syncing) : Prop where
  keyed : Keyed s.space.state
  mem_touched : ∀ a, a ∈ s.touched ↔ logsOf a logs ≠ [] ∧ before a ≠ none
  frame : ∀ a, a ∉ s.touched → s.space.state.lookup a = before a
  present : ∀ a, s.space.state.lookup a = none ↔ before a = none

variable {prof : BuildProfile} {space after : StateSpace} {s s' : Syncing} {log : Log}
  {logs logs' : List Log} {affected : List Address} {before : Address → Option AMM}

theorem mem_map_insertCached {cachedAmms : List AMM} {amm : AMM} {a : Address} :
    a ∈ (insertCached cachedAmms amm).map (·.address) ↔
      a ∈ cachedAmms.map (·.address) ∨ a = amm.address := by
  unfold insertCached
  split
  · rename_i hany
    obtain ⟨amm', hmem, heq⟩ := List.any_eq_true.mp hany
    have haddr : amm'.address = amm.address := by simpa [BEq.beq] using heq
    refine (or_iff_left_of_imp ?_).symm
    rintro rfl
    rw [← haddr]
    exact List.mem_map_of_mem hmem
  · simp

/-- Caching the changes of a block keeps the pools and what has been touched. -/
theorem cacheStateChange_eq_ok (h : cacheStateChange s = .ok s') :
    s'.space.state = s.space.state ∧ s'.cachedAmms = [] ∧ s'.affectedAmms = s.touched := by
  unfold cacheStateChange at h
  rw [bind_eq_ok] at h
  obtain ⟨cache, -, h⟩ := h
  cases h
  exact ⟨rfl, rfl, rfl⟩

theorem touched_of_cached (hcached : s.cachedAmms = []) {a : Address} :
    a ∈ s.touched ↔ a ∈ s.affectedAmms := by
  simp [Syncing.touched, hcached]

namespace Touches

theorem start (hkeyed : Keyed space.state) (number : Nat) :
    Touches space.state.lookup [] ⟨space, number, [], []⟩ where
  keyed := hkeyed
  mem_touched := by simp [Syncing.touched, logsOf]
  frame := fun _ _ => rfl
  present := fun _ => Iff.rfl

theorem congr (h : Touches before logs s) (hstate : s'.space.state = s.space.state)
    (htouched : ∀ a, a ∈ s'.touched ↔ a ∈ s.touched) : Touches before logs s' where
  keyed := hstate ▸ h.keyed
  mem_touched := fun a => (htouched a).trans (h.mem_touched a)
  frame := fun a ha => by
    rw [hstate]
    exact h.frame a fun hmem => ha ((htouched a).mpr hmem)
  present := fun a => by
    rw [hstate]
    exact h.present a

theorem cacheStateChange (h : Touches before logs s)
    (hcache : StateSpace.cacheStateChange s = .ok s') : Touches before logs s' := by
  obtain ⟨hstate, hcached, haffected⟩ := cacheStateChange_eq_ok hcache
  refine h.congr hstate fun a => ?_
  rw [touched_of_cached hcached, haffected]

/-- A log of an address without a pool. -/
theorem append_none (h : Touches before logs s)
    (hnone : s.space.state.lookup log.address = none) : Touches before (logs ++ [log]) s where
  keyed := h.keyed
  mem_touched := by
    intro a
    rw [h.mem_touched, logsOf_append]
    by_cases ha : log.address = a
    · subst ha
      have hbefore := (h.present _).mp hnone
      simp [hbefore]
    · simp [logsOf, ha]
  frame := h.frame
  present := h.present

/-- A log of a pool touches it. -/
theorem append_some (h : Touches before logs s) {amm amm' : AMM}
    (hl : s.space.state.lookup log.address = some amm) (hsync : amm.sync prof log = .ok amm') :
    Touches before (logs ++ [log]) { s with
      space := { s.space with state := s.space.state.insert log.address amm' }
      cachedAmms := insertCached s.cachedAmms amm } := by
  have haddr := h.keyed _ _ hl
  have hbefore : before log.address ≠ none := by
    intro hnone
    rw [(h.present _).mpr hnone] at hl
    cases hl
  have htouched : ∀ a, a ∈ Syncing.touched { s with
        space := { s.space with state := s.space.state.insert log.address amm' }
        cachedAmms := insertCached s.cachedAmms amm } ↔ a ∈ s.touched ∨ a = log.address := by
    intro a
    unfold Syncing.touched
    rw [List.mem_union_iff, List.mem_union_iff, mem_map_insertCached, haddr, or_assoc]
  refine ⟨h.keyed.insert ((AMM.sync_address hsync).trans haddr), fun a => ?_, fun a ha => ?_,
    fun a => ?_⟩
  · rw [htouched, h.mem_touched, logsOf_append]
    by_cases ha : log.address = a
    · subst ha
      simp [logsOf, hbefore]
    · simp [logsOf, ha, Ne.symm ha]
  · rw [htouched, not_or] at ha
    rw [HashMap.lookup_insert, if_neg ha.2]
    exact h.frame a ha.1
  · rw [HashMap.lookup_insert]
    by_cases ha : a = log.address
    · subst ha
      simp [hbefore]
    · rw [if_neg ha]
      exact h.present a

/-- A log of another block caches the changes of the current one. -/
theorem turn (h : Touches before logs s) {number : Nat} (hnumber : log.blockNumber = some number)
    (hsync : StateSpace.syncLog prof s log = .ok s') :
    ∃ s₁, Touches before logs s₁ ∧ s₁.blockNumber = number ∧
      StateSpace.syncLog prof s₁ log = .ok s' := by
  by_cases hne : number ≠ s.blockNumber
  · cases hcache : StateSpace.cacheStateChange s with
    | error f =>
      unfold StateSpace.syncLog at hsync
      rw [hnumber] at hsync
      dsimp only at hsync
      rw [if_pos hne, hcache] at hsync
      cases hsync
    | ok s₂ =>
      refine ⟨{ s₂ with blockNumber := number },
        (h.cacheStateChange hcache).congr rfl fun _ => Iff.rfl, rfl, ?_⟩
      unfold StateSpace.syncLog at hsync ⊢
      rw [hnumber] at hsync ⊢
      dsimp only at hsync ⊢
      rw [if_pos hne, hcache] at hsync
      rw [if_neg (not_not.mpr rfl)]
      exact hsync
  · exact ⟨s, h, (not_not.mp hne).symm, hsync⟩

/-- One round of the loop. -/
theorem syncLog (h : Touches before logs s) (hsync : StateSpace.syncLog prof s log = .ok s') :
    Touches before (logs ++ [log]) s' := by
  cases hnumber : log.blockNumber with
  | none =>
    unfold StateSpace.syncLog at hsync
    rw [hnumber] at hsync
    cases hsync
  | some number =>
    obtain ⟨s₁, h₁, hblock, hround⟩ := h.turn hnumber hsync
    rw [← hblock] at hnumber
    rcases syncLog_cases hround hnumber with ⟨hnone, rfl⟩ | ⟨amm, amm', hl, hpool, rfl⟩
    · exact h₁.append_none hnone
    · exact h₁.append_some hl hpool

/-- The loop over all logs. -/
theorem foldlM (h : Touches before logs s)
    (hloop : logs'.foldlM (StateSpace.syncLog prof) s = .ok s') :
    Touches before (logs ++ logs') s' := by
  induction logs' generalizing logs s with
  | nil =>
    cases hloop
    rw [List.append_nil]
    exact h
  | cons log logs' ih =>
    rw [List.foldlM_cons, bind_eq_ok] at hloop
    obtain ⟨s₁, hround, hloop⟩ := hloop
    have hrest := ih (h.syncLog hround) hloop
    rw [List.append_assoc, List.singleton_append] at hrest
    exact hrest

end Touches

/-! ## A synchronisation -/

/-- A synchronisation that returns is the loop from its base. -/
theorem sync_eq_ok {number : Nat} (hfirst : firstNumber logs = some number)
    (h : space.sync prof logs = .ok (affected, after)) :
    (space.latestBlock ≥ number → space.unwind prof number = .ok (base prof space logs)) ∧
    ∃ s, logs.foldlM (syncLog prof) ⟨base prof space logs, number, [], []⟩ = .ok s ∧
      (if s.cachedAmms ≠ [] then cacheStateChange s else .ok s).map
        (fun s => (s.affectedAmms, s.space)) = .ok (affected, after) := by
  have hend : ∀ {s : Syncing}, (if s.cachedAmms ≠ [] then do
        let s ← cacheStateChange s
        pure (s.affectedAmms, s.space)
      else do
        let s ← pure s
        pure (s.affectedAmms, s.space)) = Except.ok (affected, after) →
      (if s.cachedAmms ≠ [] then cacheStateChange s else .ok s).map
        (fun s => (s.affectedAmms, s.space)) = .ok (affected, after) := by
    intro s hs
    split at hs
    · rename_i hcached
      rw [if_pos hcached]
      exact hs
    · rename_i hcached
      rw [if_neg hcached]
      exact hs
  unfold base
  rw [hfirst]
  cases logs with
  | nil => cases hfirst
  | cons first rest =>
    have hnumber : first.blockNumber = some number := hfirst
    unfold sync at h
    rw [List.head?_cons] at h
    dsimp only at h ⊢
    rw [hnumber] at h
    dsimp only at h
    by_cases hlatest : space.latestBlock ≥ number
    · rw [if_pos hlatest] at h ⊢
      rw [bind_eq_ok] at h
      obtain ⟨mid, hmid, h⟩ := h
      rw [bind_eq_ok] at h
      obtain ⟨s, hloop, h⟩ := h
      rw [hmid]
      exact ⟨fun _ => rfl, s, hloop, hend h⟩
    · rw [if_neg hlatest] at h ⊢
      rw [pure_bind, bind_eq_ok] at h
      obtain ⟨s, hloop, h⟩ := h
      exact ⟨fun hle => absurd hle hlatest, s, hloop, hend h⟩

/-- The state the loop starts from holds the restored pools. -/
theorem base_lookup {number : Nat} (hkeyed : Keyed space.state)
    (hfirst : firstNumber logs = some number)
    (h : space.sync prof logs = .ok (affected, after)) (a : Address) :
    (base prof space logs).state.lookup a =
      (space.restored number a).or (space.state.lookup a) := by
  unfold restored
  by_cases hlatest : space.latestBlock ≥ number
  · have hunwind := (sync_eq_ok hfirst h).1 hlatest
    have hlookup := congrFun (unwind_spec hunwind hkeyed).2.2.1 a
    rw [UndoLog.rewind_eq_restore_merge] at hlookup
    rw [if_pos hlatest]
    exact hlookup
  · unfold base
    rw [hfirst]
    dsimp only
    rw [if_neg hlatest, if_neg hlatest, Option.none_or]

/-- What a synchronisation lists is what its loop touches. -/
theorem sync_touches {number : Nat} (hkeyed : Keyed space.state)
    (hfirst : firstNumber logs = some number)
    (h : space.sync prof logs = .ok (affected, after)) :
    ∃ s, Touches (base prof space logs).state.lookup logs s ∧ s.space.state = after.state ∧
      ∀ a, a ∈ affected ↔ a ∈ s.touched := by
  obtain ⟨-, s, hloop, hend⟩ := sync_eq_ok hfirst h
  have htouches := (Touches.start (base_keyed hkeyed) number).foldlM hloop
  rw [List.nil_append] at htouches
  by_cases hcached : s.cachedAmms ≠ []
  · rw [if_pos hcached] at hend
    cases hcache : cacheStateChange s with
    | error f =>
      rw [hcache] at hend
      cases hend
    | ok s' =>
      rw [hcache] at hend
      cases hend
      exact ⟨s', htouches.cacheStateChange hcache, rfl,
        fun a => (touched_of_cached (cacheStateChange_eq_ok hcache).2.1).symm⟩
  · rw [if_neg hcached] at hend
    cases hend
    exact ⟨s, htouches, rfl, fun a => (touched_of_cached (not_not.mp hcached)).symm⟩

/-- **A synchronisation reports every pool it changes exactly when a reorganisation changes no pool
without a log.** -/
theorem reportsChanges_iff (hkeyed : Keyed space.state)
    (h : space.sync prof logs = .ok (affected, after)) :
    ReportsChanges space affected after ↔ RestoresOnlyLogged space logs := by
  cases hfirst : firstNumber logs with
  | none =>
    have hsame : after = space := by
      unfold sync at h
      cases logs with
      | nil =>
        cases h
        rfl
      | cons first rest =>
        have hnumber : first.blockNumber = none := hfirst
        rw [List.head?_cons] at h
        dsimp only at h
        rw [hnumber] at h
        cases h
    subst hsame
    refine iff_of_true (fun a hne => absurd rfl hne) fun number a amm hnumber => ?_
    rw [hfirst] at hnumber
    cases hnumber
  | some number =>
    obtain ⟨s, htouches, hstate, haffected⟩ := sync_touches hkeyed hfirst h
    have hbase := base_lookup hkeyed hfirst h
    constructor
    · intro hreports number' a amm hnumber hrestored hlogs
      rw [hfirst] at hnumber
      cases hnumber
      have huntouched : a ∉ s.touched := fun hmem => ((htouches.mem_touched a).mp hmem).1 hlogs
      have hafter := htouches.frame a huntouched
      rw [hbase, hrestored, Option.some_or, hstate] at hafter
      by_contra hne
      refine huntouched ((haffected a).mp (hreports a ?_))
      rw [hafter]
      exact hne
    · intro honly a hne
      rw [haffected]
      by_contra huntouched
      have hafter := htouches.frame a huntouched
      rw [hbase, hstate] at hafter
      cases hrestored : space.restored number a with
      | none =>
        rw [hrestored, Option.none_or] at hafter
        exact hne hafter.symm
      | some amm =>
        rw [hrestored, Option.some_or] at hafter
        by_cases hlogs : logsOf a logs = []
        · exact hne ((honly number a amm hfirst hrestored hlogs).trans hafter.symm)
        · refine huntouched ((htouches.mem_touched a).mpr ⟨hlogs, ?_⟩)
          rw [hbase, hrestored]
          exact Option.some_ne_none amm

/-- The space after the pool has reported new reserves in block 5, which is the latest one. -/
def latestFive : StateSpace where
  state := onePool.insert 1 (poolWith 10)
  latestBlock := 5
  cache := ⟨0, [⟨[poolWith 5], 5⟩], by decide⟩

example : ∃ synced, (ofState onePool).sync ⟨true⟩ (reserveBlock 5 10).logs = .ok ([1], synced) ∧
    latestFive = { synced with latestBlock := 5 } :=
  ⟨_, rfl, rfl⟩

/-- A reorganisation in which the pool has a log again. -/
theorem reportsChanges_iff_logged : ∃ affected after,
    latestFive.sync ⟨true⟩ (reserveBlock 5 20).logs = .ok (affected, after) ∧
    ReportsChanges latestFive affected after := by
  have hsyncs : ∃ affected after,
      latestFive.sync ⟨true⟩ (reserveBlock 5 20).logs = .ok (affected, after) := ⟨_, _, rfl⟩
  obtain ⟨affected, after, hsync⟩ := hsyncs
  have hkeyed : Keyed latestFive.state := keyed_onePool.insert rfl
  refine ⟨affected, after, hsync, (reportsChanges_iff hkeyed hsync).mpr ?_⟩
  intro number a amm hnumber hrestored hlogs
  cases hnumber
  have hsnapshot : snapshot [poolWith 5] a = some amm := hrestored
  have ha : (poolWith 5).address = a := by
    have hfound := List.find?_some hsnapshot
    rw [List.mem_singleton.mp (List.mem_of_find?_eq_some hsnapshot)] at hfound
    exact beq_iff_eq.mp hfound
  subst ha
  cases hlogs

/-- The block that replaces block 5 has no log of the pool: its state goes back unreported. -/
theorem not_reportsChanges_reverted : ∃ affected after,
    latestFive.sync ⟨true⟩ [⟨4, some 5, .event (.uniswapV2Sync 20 20)⟩] = .ok (affected, after) ∧
    ¬ ReportsChanges latestFive affected after := by
  refine ⟨_, _, rfl, fun hreports => ?_⟩
  have hmem := hreports 1 (by
    intro hsame
    cases hsame)
  cases hmem

end StateSpace

end ArbitrageBot
