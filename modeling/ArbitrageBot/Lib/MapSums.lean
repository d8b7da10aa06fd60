import Mathlib.Algebra.GroupWithZero.Nat
import Mathlib.Algebra.BigOperators.Group.Finset.Piecewise
import Mathlib.Algebra.BigOperators.Group.List.Basic
import Mathlib.Data.List.AList

/-!
# Sums over a finite map

The sum of a quantity over the values of an association list. Inserting a value adds its quantity
and takes that of the value it replaces; erasing takes that of the value erased. A list of updates
that name a key each is summed by key.
-/

namespace ArbitrageBot.Lib.MapSums

variable {κ ν : Type*} [DecidableEq κ]

/-- The sum of `f` over the values of a map. -/
def total (f : ν → Nat) (m : AList fun _ : κ => ν) : Nat :=
  (m.entries.map fun e => f e.2).sum

/-- The quantity of what is stored under a key. -/
def valueAt (f : ν → Nat) (m : AList fun _ : κ => ν) (k : κ) : Nat := (m.lookup k).elim 0 f

variable {f : ν → Nat} {m : AList fun _ : κ => ν} {k : κ} {v : ν}

theorem total_erase : total f (m.erase k) + valueAt f m k = total f m := by
  obtain ⟨entries, hnodup⟩ := m
  unfold total valueAt AList.lookup AList.erase
  dsimp only
  clear hnodup
  induction entries with
  | nil => rfl
  | cons e entries ih =>
    by_cases hk : k = e.1
    · subst hk
      rw [List.dlookup_cons_eq, List.kerase_cons_eq rfl, List.map_cons, List.sum_cons, Nat.add_comm]
      rfl
    · rw [List.dlookup_cons_ne _ _ hk, List.kerase_cons_ne hk, List.map_cons, List.sum_cons,
        List.map_cons, List.sum_cons, Nat.add_assoc, ih]

theorem total_insert : total f (m.insert k v) + valueAt f m k = total f m + f v := by
  have hentries : total f (m.insert k v) = f v + total f (m.erase k) := by
    unfold total
    rw [AList.entries_insert, List.map_cons, List.sum_cons]
    rfl
  rw [hentries, Nat.add_assoc, total_erase, Nat.add_comm]

/-- One value counts no more than all. -/
theorem valueAt_le_total : valueAt f m k ≤ total f m := by
  rw [← total_erase (k := k)]
  exact Nat.le_add_left _ _

/-! ## Updates by key -/

section

variable {α : Type*}

/-- The sum of `f` over the updates of the key `k`. -/
def sumAt (key : α → κ) (f : α → Nat) (updates : List α) (k : κ) : Nat :=
  (updates.map fun u => if key u = k then f u else 0).sum

variable {key : α → κ} {f : α → Nat} {u : α} {updates : List α} {k : κ}

theorem sumAt_cons_self :
    sumAt key f (u :: updates) (key u) = f u + sumAt key f updates (key u) := by
  unfold sumAt
  rw [List.map_cons, List.sum_cons, if_pos rfl]

theorem sumAt_cons_ne (h : key u ≠ k) : sumAt key f (u :: updates) k = sumAt key f updates k := by
  unfold sumAt
  rw [List.map_cons, List.sum_cons, if_neg h, Nat.zero_add]

theorem sumAt_of_forall_ne (h : ∀ u ∈ updates, key u ≠ k) : sumAt key f updates k = 0 := by
  induction updates with
  | nil => rfl
  | cons u updates ih =>
    rw [sumAt_cons_ne (h u List.mem_cons_self), ih fun v hv => h v (List.mem_cons_of_mem u hv)]

/-- The sums over all keys that are named make the whole sum. -/
theorem sum_sumAt (keys : Finset κ) (h : ∀ u ∈ updates, key u ∈ keys) :
    ∑ k ∈ keys, sumAt key f updates k = (updates.map f).sum := by
  induction updates with
  | nil => exact Finset.sum_const_zero
  | cons u updates ih =>
    have hrest := ih fun v hv => h v (List.mem_cons_of_mem u hv)
    have hsplit : ∀ k, sumAt key f (u :: updates) k =
        (if key u = k then f u else 0) + sumAt key f updates k := fun k => rfl
    simp only [hsplit]
    rw [Finset.sum_add_distrib, hrest, Finset.sum_ite_eq, if_pos (h u List.mem_cons_self),
      List.map_cons, List.sum_cons]

/-- Two quantities that agree on every key agree on the whole. -/
theorem sum_eq_of_sumAt_eq {g : α → Nat}
    (h : ∀ u ∈ updates, sumAt key f updates (key u) = sumAt key g updates (key u)) :
    (updates.map f).sum = (updates.map g).sum := by
  have hkeys : ∀ u ∈ updates, key u ∈ (updates.map key).toFinset :=
    fun u hu => List.mem_toFinset.mpr (List.mem_map_of_mem hu)
  rw [← sum_sumAt (f := f) _ hkeys, ← sum_sumAt (f := g) _ hkeys]
  refine Finset.sum_congr rfl fun k hk => ?_
  obtain ⟨u, hu, rfl⟩ := List.mem_map.mp (List.mem_toFinset.mp hk)
  exact h u hu

end

end ArbitrageBot.Lib.MapSums
