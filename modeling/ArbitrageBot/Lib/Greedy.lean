import Mathlib.Data.List.Induction
import Mathlib.Data.List.Perm.Subperm

/-!
# Greedy choice without conflicts

Items are taken in their order, each unless it conflicts with one taken before. What is taken is
free of conflicts, and each item left out conflicts with one that came before it: the choice is
maximal, and where the order is one of preference, nothing is left out for the sake of something
worse.
-/

namespace ArbitrageBot.Lib.Greedy

variable {α : Type*} (conflict : α → α → Prop) [DecidableRel conflict]

/-- The next item, after some that are taken. -/
def take (taken : List α) (a : α) : List α :=
  if ∃ b ∈ taken, conflict b a then taken else taken ++ [a]

def choose (items : List α) : List α := items.foldl (take conflict) []

/-- A choice from the items, with what it leaves out; `before` is the order of the items. -/
structure Choice (before : α → α → Prop) (items taken left : List α) : Prop where
  sublist : taken.Sublist items
  perm : (taken ++ left).Perm items
  free : taken.Pairwise fun b a => ¬ conflict b a
  maximal : ∀ a ∈ left, ∃ b ∈ taken, before b a ∧ conflict b a

variable {conflict} {before : α → α → Prop} {items taken left : List α} {a : α}

/-- **One item more**: it is taken, or left out for one taken before. -/
theorem Choice.take (h : Choice conflict before items taken left)
    (hlast : ∀ b ∈ items, before b a) :
    ∃ left', Choice conflict before (items ++ [a]) (take conflict taken a) left' := by
  unfold Greedy.take
  split
  · rename_i hconflict
    obtain ⟨b, hb, hba⟩ := hconflict
    refine ⟨left ++ [a], ?_, ?_, h.free, ?_⟩
    · exact h.sublist.trans (List.sublist_append_left _ _)
    · rw [← List.append_assoc]
      exact h.perm.append_right _
    · intro c hc
      rcases List.mem_append.mp hc with hc | hc
      · exact h.maximal c hc
      · obtain rfl := List.mem_singleton.mp hc
        exact ⟨b, hb, hlast b (h.sublist.mem hb), hba⟩
  · rename_i hfree
    refine ⟨left, ?_, ?_, ?_, ?_⟩
    · exact h.sublist.append (List.Sublist.refl _)
    · rw [List.append_assoc]
      refine (List.perm_append_comm.append_left taken).trans ?_
      rw [← List.append_assoc]
      exact h.perm.append_right _
    · refine List.pairwise_append.mpr ⟨h.free, List.pairwise_singleton _ _, fun b hb c hc hbc => ?_⟩
      obtain rfl := List.mem_singleton.mp hc
      exact hfree ⟨b, hb, hbc⟩
    · intro c hc
      obtain ⟨b, hb, hbc⟩ := h.maximal c hc
      exact ⟨b, List.mem_append_left _ hb, hbc⟩

/-- **What is chosen from items in an order** is in that order and free of conflicts, and each item
left out conflicts with one before it. -/
theorem choose_choice (h : items.Pairwise before) :
    ∃ left, Choice conflict before items (choose conflict items) left := by
  induction items using List.reverseRecOn with
  | nil => exact ⟨[], List.Sublist.refl _, .refl _, .nil, fun a ha => by cases ha⟩
  | append_singleton items a ih =>
    obtain ⟨hitems, -, hlast⟩ := List.pairwise_append.mp h
    obtain ⟨left, hchoice⟩ := ih hitems
    rw [choose, List.foldl_append]
    exact hchoice.take fun b hb => hlast b hb a List.mem_cons_self

omit [DecidableRel conflict] in
/-- What is left out is determined, up to its order. -/
theorem Choice.of_perm {left' : List α} (h : Choice conflict before items taken left)
    (hperm : (taken ++ left').Perm items) : Choice conflict before items taken left' where
  sublist := h.sublist
  perm := hperm
  free := h.free
  maximal a ha :=
    h.maximal a (((List.perm_append_left_iff _).mp (hperm.trans h.perm.symm)).mem_iff.mp ha)

end ArbitrageBot.Lib.Greedy
