import ArbitrageBot.Lib.Greedy
import ArbitrageBot.Protocols.Candidate
import Mathlib.Data.List.Sort

/-!
# The choice among candidates

Both services send the candidates of a block best first, and none that goes through a pool of one
already chosen: two transactions on one pool would fail each other's state checks.
-/

namespace ArbitrageBot.Protocols

open Lib

/-- Where the loop over the candidates stands. -/
structure Selecting where
  selected : List PositiveCandidate
  usedPools : Finset Address

/-- One round of the loop. -/
def Selecting.next (s : Selecting) (candidate : PositiveCandidate) : Selecting :=
  let hasConflict := candidate.poolAddresses.any fun addr => addr ∈ s.usedPools
  if !hasConflict then
    { selected := s.selected ++ [candidate]
      usedPools := candidate.poolAddresses.foldl (fun used addr => insert addr used) s.usedPools }
  else s

def selectNonConflictingOpportunities (candidates : List PositiveCandidate) :
    List PositiveCandidate :=
  let candidates := candidates.insertionSort fun a b => b.netProfit ≤ a.netProfit
  (candidates.foldl Selecting.next ⟨[], ∅⟩).selected

/-! ## The pools in use -/

/-- Two candidates share a pool. -/
def SharesPool (a b : PositiveCandidate) : Prop := ∃ addr ∈ a.poolAddresses, addr ∈ b.poolAddresses

instance : DecidableRel SharesPool := fun a b =>
  inferInstanceAs (Decidable (∃ addr ∈ a.poolAddresses, addr ∈ b.poolAddresses))

theorem mem_foldl_insert {pools : List Address} {used : Finset Address} {addr : Address} :
    addr ∈ pools.foldl (fun used addr => insert addr used) used ↔ addr ∈ used ∨ addr ∈ pools := by
  induction pools generalizing used with
  | nil => simp
  | cons pool pools ih =>
    rw [List.foldl_cons, ih, Finset.mem_insert, List.mem_cons]
    tauto

/-- The used pools are those of the selected candidates. -/
def Selecting.Tracks (s : Selecting) : Prop :=
  ∀ addr, addr ∈ s.usedPools ↔ ∃ c ∈ s.selected, addr ∈ c.poolAddresses

/-- **A round** takes the candidate unless one that is selected shares a pool with it. -/
theorem Selecting.Tracks.next {s : Selecting} (h : s.Tracks) (candidate : PositiveCandidate) :
    (s.next candidate).Tracks ∧
      (s.next candidate).selected = Greedy.take SharesPool s.selected candidate := by
  have hconflict : (candidate.poolAddresses.any fun addr => addr ∈ s.usedPools) = true ↔
      ∃ c ∈ s.selected, SharesPool c candidate := by
    rw [List.any_eq_true]
    constructor
    · rintro ⟨addr, haddr, hused⟩
      obtain ⟨c, hc, hpool⟩ := (h addr).mp (of_decide_eq_true hused)
      exact ⟨c, hc, addr, hpool, haddr⟩
    · rintro ⟨c, hc, addr, hpool, haddr⟩
      exact ⟨addr, haddr, decide_eq_true ((h addr).mpr ⟨c, hc, hpool⟩)⟩
  unfold Selecting.next Greedy.take
  dsimp only
  by_cases hany : (candidate.poolAddresses.any fun addr => addr ∈ s.usedPools) = true
  · rw [if_pos (hconflict.mp hany), hany]
    exact ⟨h, rfl⟩
  · rw [if_neg (fun hshares => hany (hconflict.mpr hshares)), Bool.eq_false_iff.mpr hany]
    refine ⟨fun addr => ?_, rfl⟩
    simp only [Bool.not_false, if_true, mem_foldl_insert, h addr, List.mem_append,
      List.mem_singleton, or_and_right, exists_or, exists_eq_left]

/-- The loop is the greedy choice. -/
theorem Selecting.foldl_next {s : Selecting} (h : s.Tracks) (candidates : List PositiveCandidate) :
    (candidates.foldl Selecting.next s).selected =
      candidates.foldl (Greedy.take SharesPool) s.selected := by
  induction candidates generalizing s with
  | nil => rfl
  | cons candidate candidates ih =>
    obtain ⟨hnext, hselected⟩ := h.next candidate
    rw [List.foldl_cons, List.foldl_cons, ih hnext, hselected]

/-! ## What is selected -/

/-- The selected candidates are some of the given ones, best first, no two of them share a pool, and
each candidate left out shares a pool with a selected one that is at least as good. -/
structure ConflictFree (candidates selected : List PositiveCandidate) : Prop where
  sub : selected.Subperm candidates
  sorted : selected.Pairwise fun a b => b.netProfit ≤ a.netProfit
  disjoint : selected.Pairwise fun a b => a.poolAddresses.Disjoint b.poolAddresses
  maximal : ∀ leftOut, (selected ++ leftOut).Perm candidates → ∀ c ∈ leftOut,
    ∃ s ∈ selected, c.netProfit ≤ s.netProfit ∧ SharesPool s c

/-- **The selection is free of conflicts and greedy.** -/
theorem selectNonConflictingOpportunities_conflictFree (candidates : List PositiveCandidate) :
    ConflictFree candidates (selectNonConflictingOpportunities candidates) := by
  have hsorted : (candidates.insertionSort fun a b => b.netProfit ≤ a.netProfit).Pairwise
      fun a b => b.netProfit ≤ a.netProfit := List.pairwise_insertionSort _ _
  have hperm := List.perm_insertionSort (fun a b => b.netProfit ≤ a.netProfit) candidates
  obtain ⟨left, hchoice⟩ := @Greedy.choose_choice _ SharesPool _ _ _ hsorted
  have hselect : selectNonConflictingOpportunities candidates =
      Greedy.choose SharesPool (candidates.insertionSort fun a b => b.netProfit ≤ a.netProfit) := by
    unfold selectNonConflictingOpportunities
    exact Selecting.foldl_next (fun addr => by simp) _
  rw [← hselect] at hchoice
  refine ⟨hchoice.sublist.subperm.trans hperm.subperm, hsorted.sublist hchoice.sublist, ?_, ?_⟩
  · refine hchoice.free.imp fun hfree addr ha hb => hfree ⟨addr, ha, hb⟩
  · intro leftOut hleft c hc
    exact (hchoice.of_perm (hleft.trans hperm.symm)).maximal c hc

end ArbitrageBot.Protocols
