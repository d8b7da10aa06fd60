import Mathlib.Algebra.GroupWithZero.Nat
import Mathlib.Logic.Relation
import Mathlib.Data.List.Basic
import Mathlib.Algebra.BigOperators.Group.List.Basic

/-!
# Breadth-first loops

A loop that takes the first item of a queue, emits what the item yields and appends the item's
successors. With a weight that the successors of an item never reach together, the loop ends
(`run_total`); what it emits is what the reachable items yield (`mem_run`).
-/

namespace ArbitrageBot.Lib.Worklist

variable {σ ρ : Type*}

/-- The loop on `queue` with the results `acc` so far; `none` when the fuel runs out first. -/
def run (next : σ → List σ) (emit : σ → List ρ) : Nat → List σ → List ρ → Option (List ρ)
  | _, [], acc => some acc
  | 0, _ :: _, _ => none
  | fuel + 1, s :: queue, acc => run next emit fuel (queue ++ next s) (acc ++ emit s)

/-- Items the loop can come to from `s`. -/
def Reach (next : σ → List σ) : σ → σ → Prop :=
  Relation.ReflTransGen fun s t => t ∈ next s

variable {next : σ → List σ} {emit : σ → List ρ}

/-- **The loop ends**, if an item outweighs its successors. -/
theorem run_total (μ : σ → Nat) (hμ : ∀ s, ((next s).map μ).sum < μ s) {fuel : Nat} {queue : List σ}
    (acc : List ρ) (hfuel : (queue.map μ).sum ≤ fuel) :
    ∃ res, run next emit fuel queue acc = some res := by
  induction fuel generalizing queue acc with
  | zero =>
    cases queue with
    | nil => exact ⟨acc, rfl⟩
    | cons s queue =>
      have := hμ s
      rw [List.map_cons, List.sum_cons] at hfuel
      omega
  | succ fuel ih =>
    cases queue with
    | nil => exact ⟨acc, rfl⟩
    | cons s queue =>
      have := hμ s
      rw [List.map_cons, List.sum_cons] at hfuel
      exact ih _ (by rw [List.map_append, List.sum_append]; omega)

/-- Reaching from an item is reaching from the item itself or from one of its successors. -/
theorem reach_iff {s t : σ} : Reach next s t ↔ t = s ∨ ∃ u ∈ next s, Reach next u t := by
  unfold Reach
  rw [Relation.ReflTransGen.cases_head_iff]
  constructor
  · rintro (rfl | ⟨u, hu, hreach⟩)
    · exact Or.inl rfl
    · exact Or.inr ⟨u, hu, hreach⟩
  · rintro (rfl | ⟨u, hu, hreach⟩)
    · exact Or.inl rfl
    · exact Or.inr ⟨u, hu, hreach⟩

/-- **The loop emits exactly what the items reachable from the queue yield.** -/
theorem mem_run {fuel : Nat} {queue : List σ} {acc res : List ρ}
    (h : run next emit fuel queue acc = some res) (x : ρ) :
    x ∈ res ↔ x ∈ acc ∨ ∃ q ∈ queue, ∃ s, Reach next q s ∧ x ∈ emit s := by
  induction fuel generalizing queue acc with
  | zero =>
    cases queue with
    | nil =>
      cases h
      simp
    | cons s queue => cases h
  | succ fuel ih =>
    cases queue with
    | nil =>
      cases h
      simp
    | cons s queue =>
      rw [ih h]
      constructor
      · rintro (hx | ⟨q, hq, t, hreach, hx⟩)
        · rcases List.mem_append.mp hx with hx | hx
          · exact Or.inl hx
          · exact Or.inr ⟨s, List.mem_cons_self, s, Relation.ReflTransGen.refl, hx⟩
        · rcases List.mem_append.mp hq with hq | hq
          · exact Or.inr ⟨q, List.mem_cons_of_mem _ hq, t, hreach, hx⟩
          · exact Or.inr ⟨s, List.mem_cons_self, t, reach_iff.mpr (Or.inr ⟨q, hq, hreach⟩), hx⟩
      · rintro (hx | ⟨q, hq, t, hreach, hx⟩)
        · exact Or.inl (List.mem_append_left _ hx)
        · rcases List.mem_cons.mp hq with rfl | hq
          · rcases reach_iff.mp hreach with rfl | ⟨u, hu, hreach⟩
            · exact Or.inl (List.mem_append_right _ hx)
            · exact Or.inr ⟨u, List.mem_append_right _ hu, t, hreach, hx⟩
          · exact Or.inr ⟨q, List.mem_append_left _ hq, t, hreach, hx⟩

/-- Loops run one after the other on common results, when each ends and adds a set of its own. -/
theorem foldlM_total {α : Type*} {f : List ρ → α → Option (List ρ)} {Q : α → ρ → Prop}
    (hf : ∀ acc a, ∃ res, f acc a = some res ∧ ∀ x, x ∈ res ↔ x ∈ acc ∨ Q a x) (l : List α)
    (acc : List ρ) :
    ∃ res, l.foldlM f acc = some res ∧ ∀ x, x ∈ res ↔ x ∈ acc ∨ ∃ a ∈ l, Q a x := by
  induction l generalizing acc with
  | nil => exact ⟨acc, rfl, by simp⟩
  | cons a l ih =>
    obtain ⟨res, hres, hmem⟩ := hf acc a
    obtain ⟨res', hres', hmem'⟩ := ih res
    refine ⟨res', ?_, fun x => ?_⟩
    · rw [List.foldlM_cons, hres]
      exact hres'
    · rw [hmem', hmem, or_assoc]
      simp only [List.mem_cons, exists_eq_or_imp]

end ArbitrageBot.Lib.Worklist
