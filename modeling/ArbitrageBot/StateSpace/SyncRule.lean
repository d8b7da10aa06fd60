import ArbitrageBot.StateSpace.Recovery
import Mathlib.Logic.Relation

/-!
# The rule for synchronisations

What holds of a state space, and of the variables of the loop of `sync`, at each step of a
synchronisation holds of what the synchronisation leaves, also where it fails: a failed call keeps
what it has done so far, and the next one goes on from there.
-/

namespace ArbitrageBot.StateSpace

/-- A synchronisation with some logs, successful or not, leaves `space'`. -/
def Synced (prof : BuildProfile) (space space' : StateSpace) : Prop :=
  ∃ logs, (∃ affected, space.sync prof logs = .ok (affected, space')) ∨
    ∃ e, space.sync prof logs = .error (e, space')

/-- Any synchronisations, one after the other. -/
abbrev SyncedAll (prof : BuildProfile) : StateSpace → StateSpace → Prop :=
  Relation.ReflTransGen (Synced prof)

/-- The steps of a synchronisation keep `J`, and `I` while the loop runs. -/
structure SyncRule (prof : BuildProfile) (J : StateSpace → Prop) (I : Syncing → Prop) : Prop where
  unwind : ∀ {space mid number}, J space → space.unwind prof number = .ok mid → J mid
  start : ∀ {space number}, J space → I ⟨space, number, [], []⟩
  turn : ∀ {s number}, I s → I { s with blockNumber := number }
  cache : ∀ {s s'}, I s → cacheStateChange s = .ok s' → I s'
  pool : ∀ {s log amm amm'}, I s → s.space.state.lookup log.address = some amm →
    amm.sync prof log = .ok amm' → I { s with
      space := { s.space with state := s.space.state.insert log.address amm' }
      cachedAmms := insertCached s.cachedAmms amm }
  finish : ∀ {s}, I s → J s.space

namespace SyncRule

variable {prof : BuildProfile} {J : StateSpace → Prop} {I : Syncing → Prop}
  {space space' : StateSpace} {s : Syncing} {log : Log} {logs : List Log}

/-- What a round of the loop leaves, or the state space where it fails. -/
def Leaves (J : StateSpace → Prop) (I : Syncing → Prop) : Except Failure Syncing → Prop
  | .ok s => I s
  | .error (_, space) => J space

theorem leaves_cacheStateChange (rule : SyncRule prof J I) (h : I s) :
    Leaves J I (cacheStateChange s) := by
  cases hcache : cacheStateChange s with
  | ok s' => exact rule.cache h hcache
  | error f =>
    unfold cacheStateChange at hcache
    cases hpush : s.space.cache.push ⟨s.cachedAmms, s.blockNumber⟩ with
    | ok cache =>
      rw [hpush] at hcache
      cases hcache
    | error e =>
      rw [hpush] at hcache
      cases hcache
      exact rule.finish h

/-- The pool of a log. -/
theorem leaves_syncPool (rule : SyncRule prof J I) (h : I s) :
    Leaves J I (match s.space.state.lookup log.address with
      | none => .ok s
      | some amm =>
        match amm.sync prof log with
        | .ok amm' => .ok { s with
            space := { s.space with state := s.space.state.insert log.address amm' }
            cachedAmms := insertCached s.cachedAmms amm }
        | .error (.err e) => .error (.err (.ammError e), s.space)
        | .error .panic => .error (.panic, s.space)) := by
  split
  · exact h
  · rename_i amm hlookup
    split
    · rename_i amm' hsync
      exact rule.pool h hlookup hsync
    · exact rule.finish h
    · exact rule.finish h

theorem leaves_syncLog (rule : SyncRule prof J I) (h : I s) (log : Log) :
    Leaves J I (syncLog prof s log) := by
  unfold syncLog
  cases log.blockNumber with
  | none => exact rule.finish h
  | some number =>
    dsimp only
    split
    · have hcache := rule.leaves_cacheStateChange h
      cases hturn : cacheStateChange s with
      | error f =>
        rw [hturn] at hcache
        exact hcache
      | ok s' =>
        rw [hturn] at hcache
        exact rule.leaves_syncPool (rule.turn hcache)
    · exact rule.leaves_syncPool h

theorem leaves_foldlM (rule : SyncRule prof J I) (h : I s) (logs : List Log) :
    Leaves J I (logs.foldlM (syncLog prof) s) := by
  induction logs generalizing s with
  | nil => exact h
  | cons log logs ih =>
    have hlog := rule.leaves_syncLog h log
    rw [List.foldlM_cons]
    cases hround : syncLog prof s log with
    | error f =>
      rw [hround] at hlog
      exact hlog
    | ok s' =>
      rw [hround] at hlog
      exact ih hlog

/-- **What the steps keep, a synchronisation keeps.** -/
theorem synced (rule : SyncRule prof J I) (h : J space) (hsynced : Synced prof space space') :
    J space' := by
  obtain ⟨logs, hsync⟩ := hsynced
  have hloop : ∀ {mid : StateSpace} {number : Nat}, J mid → ∀ {x}, (do
      let s ← logs.foldlM (syncLog prof) ⟨mid, number, [], []⟩
      let s ← if s.cachedAmms ≠ [] then cacheStateChange s else pure s
      return (s.affectedAmms, s.space)) = x →
      ((∃ affected, x = .ok (affected, space')) ∨ ∃ e, x = .error (e, space')) → J space' := by
    rintro mid number hmid x rfl hx
    have hstart : I ⟨mid, number, [], []⟩ := rule.start hmid
    have hfold := rule.leaves_foldlM hstart logs
    cases hrun : logs.foldlM (syncLog prof) ⟨mid, number, [], []⟩ with
    | error f =>
      rw [hrun] at hfold hx
      rcases hx with ⟨affected, hx⟩ | ⟨e, hx⟩
      · cases hx
      · cases hx
        exact hfold
    | ok s =>
      rw [hrun, ok_bind] at hx
      rw [hrun] at hfold
      split at hx
      · have hlast := rule.leaves_cacheStateChange hfold
        cases hend : cacheStateChange s with
        | error f =>
          rw [hend] at hx hlast
          rcases hx with ⟨affected, hx⟩ | ⟨e, hx⟩
          · cases hx
          · cases hx
            exact hlast
        | ok s' =>
          rw [hend] at hx hlast
          rcases hx with ⟨affected, hx⟩ | ⟨e, hx⟩
          · cases hx
            exact rule.finish hlast
          · cases hx
      · rcases hx with ⟨affected, hx⟩ | ⟨e, hx⟩
        · cases hx
          exact rule.finish hfold
        · cases hx
  unfold sync at hsync
  split at hsync
  · rcases hsync with ⟨affected, hsync⟩ | ⟨e, hsync⟩
    · cases hsync
      exact h
    · cases hsync
  · split at hsync
    · rcases hsync with ⟨affected, hsync⟩ | ⟨e, hsync⟩
      · cases hsync
      · cases hsync
        exact h
    · rename_i number _
      split at hsync
      · cases hunwind : space.unwind prof number with
        | error f =>
          rw [hunwind, error_bind, unwind_error hunwind] at hsync
          rcases hsync with ⟨affected, hsync⟩ | ⟨e, hsync⟩
          · cases hsync
          · cases hsync
            exact h
        | ok mid =>
          rw [hunwind, ok_bind] at hsync
          exact hloop (rule.unwind h hunwind) rfl hsync
      · exact hloop h rfl hsync

/-- **Over any synchronisations**, successful or not. -/
theorem syncedAll (rule : SyncRule prof J I) (h : J space) (hrun : SyncedAll prof space space') :
    J space' := by
  induction hrun with
  | refl => exact h
  | tail _ hstep ih => exact rule.synced ih hstep

end SyncRule

end ArbitrageBot.StateSpace
