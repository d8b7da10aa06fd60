import Mathlib.Data.Option.Basic
import Mathlib.Logic.Function.Basic

/-!
# Undo logs

A log of partial snapshots, newest first. Each snapshot holds the old values of the keys its step
changed. Rewinding the log newest to oldest is restoring one merged snapshot in which the oldest
value of a key wins (`rewind_eq_restore_merge`).
-/

namespace ArbitrageBot.Lib.UndoLog

variable {κ ν : Type*}

/-- The values of a snapshot, and those of the store for the keys it does not hold. -/
def restore (snapshot store : κ → Option ν) : κ → Option ν :=
  fun k => (snapshot k).or (store k)

/-- Restores every snapshot of a log, newest first. -/
def rewind (log : List (κ → Option ν)) (store : κ → Option ν) : κ → Option ν :=
  log.foldl (fun store snapshot => restore snapshot store) store

/-- One snapshot for a whole log: the oldest value of each key. -/
def merge : List (κ → Option ν) → κ → Option ν
  | [] => fun _ => none
  | snapshot :: older => restore (merge older) snapshot

@[simp] theorem rewind_nil (store : κ → Option ν) : rewind [] store = store := rfl

/-- A step recorded in front of a log is undone first. -/
theorem rewind_cons {snapshot before after : κ → Option ν} (log : List (κ → Option ν))
    (h : restore snapshot after = before) : rewind (snapshot :: log) after = rewind log before := by
  rw [← h]
  rfl

theorem restore_assoc (a b c : κ → Option ν) :
    restore a (restore b c) = restore (restore a b) c := by
  funext k
  simp [restore, Option.or_assoc]

theorem rewind_eq_restore_merge (log : List (κ → Option ν)) (store : κ → Option ν) :
    rewind log store = restore (merge log) store := by
  induction log generalizing store with
  | nil =>
    funext k
    simp [merge, restore]
  | cons snapshot older ih =>
    have hstep : rewind (snapshot :: older) store = rewind older (restore snapshot store) := rfl
    rw [hstep, ih, merge, restore_assoc]

theorem merge_eq_none_iff {log : List (κ → Option ν)} {k : κ} :
    merge log k = none ↔ ∀ s ∈ log, s k = none := by
  induction log with
  | nil => simp [merge]
  | cons snapshot older ih =>
    have hmerge : merge (snapshot :: older) k = (merge older k).or (snapshot k) := rfl
    rw [hmerge, Option.or_eq_none_iff, ih, List.forall_mem_cons, and_comm]

/-- The merged value of a key is the one of the oldest snapshot that holds it. -/
theorem merge_eq_some_iff {log : List (κ → Option ν)} {k : κ} {v : ν} :
    merge log k = some v ↔ ∃ newer snapshot older, log = newer ++ snapshot :: older ∧
      snapshot k = some v ∧ ∀ s ∈ older, s k = none := by
  induction log with
  | nil =>
    refine ⟨fun h => (by cases h), ?_⟩
    rintro ⟨newer, snapshot, older, hlog, -⟩
    exact absurd hlog.symm (List.append_ne_nil_of_right_ne_nil _ (List.cons_ne_nil _ _))
  | cons snapshot older ih =>
    have hmerge : merge (snapshot :: older) k = (merge older k).or (snapshot k) := rfl
    rw [hmerge, Option.or_eq_some_iff, ih]
    constructor
    · rintro (⟨newer, s, older', rfl, hs⟩ | ⟨hnone, hsome⟩)
      · exact ⟨snapshot :: newer, s, older', rfl, hs⟩
      · exact ⟨[], snapshot, older, rfl, hsome, merge_eq_none_iff.mp hnone⟩
    · rintro ⟨newer, s, older', hlog, hs, hnone⟩
      cases newer with
      | nil =>
        cases hlog
        exact Or.inr ⟨merge_eq_none_iff.mpr hnone, hs⟩
      | cons t newer =>
        cases hlog
        exact Or.inl ⟨newer, s, older', rfl, hs, hnone⟩

end ArbitrageBot.Lib.UndoLog
