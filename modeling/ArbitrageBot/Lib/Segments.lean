import Mathlib.Algebra.BigOperators.Group.Finset.Basic
import Mathlib.Algebra.BigOperators.Group.Multiset.Basic
import Mathlib.Algebra.Order.BigOperators.Group.Finset
import Mathlib.Algebra.BigOperators.Ring.Finset
import Mathlib.Tactic.Ring
import Mathlib.Tactic.Linarith

/-!
# Weighted segments of a linear order

A multiset of weighted half-open segments `[lo, hi)`. `gross` and `net` are the total and the
signed weight ending at a point, `cover` the weight of the segments over a point. The weight over
a point is the sum of the net weights up to it (`sum_net_le`), so that two points with no endpoint
between them carry the same weight (`cover_eq_of_gap`).
-/

namespace ArbitrageBot.Lib

/-- A segment from `lo` (included) to `hi` (excluded). -/
structure Segment (α : Type*) where
  lo : α
  hi : α
  weight : ℕ
  deriving DecidableEq, Repr

namespace Segment

variable {α : Type*} [LinearOrder α]

/-- The weight a segment has ending at `t`. -/
def grossAt (p : Segment α) (t : α) : ℕ :=
  if t = p.lo ∨ t = p.hi then p.weight else 0

/-- The weight a segment opens minus the weight it closes at `t`. -/
def netAt (p : Segment α) (t : α) : ℤ :=
  (if t = p.lo then (p.weight : ℤ) else 0) - (if t = p.hi then (p.weight : ℤ) else 0)

/-- The weight a segment has over `x`. -/
def coverAt (p : Segment α) (x : α) : ℕ :=
  if p.lo ≤ x ∧ x < p.hi then p.weight else 0

theorem grossAt_le (p : Segment α) (t : α) : p.grossAt t ≤ p.weight := by
  unfold grossAt
  split <;> omega

theorem coverAt_le (p : Segment α) (x : α) : p.coverAt x ≤ p.weight := by
  unfold coverAt
  split <;> omega

theorem natAbs_netAt_le (p : Segment α) (t : α) : (p.netAt t).natAbs ≤ p.grossAt t := by
  unfold netAt grossAt
  by_cases hlo : t = p.lo <;> by_cases hhi : t = p.hi <;> simp [hlo, hhi]
  all_goals split <;> simp

/-- One segment: the net weights up to `x` add up to the weight over `x`. -/
theorem sum_netAt_le {p : Segment α} (h : p.lo ≤ p.hi) {K : Finset α}
    (hK : p.weight ≠ 0 → p.lo ∈ K ∧ p.hi ∈ K) (x : α) :
    ∑ t ∈ K with t ≤ x, p.netAt t = p.coverAt x := by
  by_cases hw : p.weight = 0
  · simp [netAt, coverAt, hw]
  · obtain ⟨hlo, hhi⟩ := hK hw
    unfold netAt coverAt
    rw [Finset.sum_sub_distrib, Finset.sum_ite_eq', Finset.sum_ite_eq']
    simp only [Finset.mem_filter, hlo, hhi, true_and]
    by_cases h1 : p.lo ≤ x
    · by_cases h2 : p.hi ≤ x
      · simp [h1, h2, not_lt.mpr h2]
      · simp [h1, h2, not_le.mp h2]
    · have h2 : ¬ p.hi ≤ x := fun h2 => h1 (h.trans h2)
      simp [h1, h2]

end Segment

section Total

variable {α : Type*}

/-- The weight of all segments. -/
def total (M : Multiset (Segment α)) : ℕ :=
  (M.map (·.weight)).sum

@[simp] theorem total_zero : total (0 : Multiset (Segment α)) = 0 := rfl

@[simp] theorem total_cons (p : Segment α) (M : Multiset (Segment α)) :
    total (p ::ₘ M) = p.weight + total M := by
  simp [total]

end Total

section Family

variable {α : Type*} [LinearOrder α]

/-- The total weight of the segments that have `t` as an end. -/
def gross (M : Multiset (Segment α)) (t : α) : ℕ :=
  (M.map (·.grossAt t)).sum

/-- The weight opened at `t` minus the weight closed at `t`. -/
def net (M : Multiset (Segment α)) (t : α) : ℤ :=
  (M.map (·.netAt t)).sum

/-- The weight of the segments over `x`. -/
def cover (M : Multiset (Segment α)) (x : α) : ℕ :=
  (M.map (·.coverAt x)).sum

@[simp] theorem gross_zero (t : α) : gross (0 : Multiset (Segment α)) t = 0 := rfl
@[simp] theorem net_zero (t : α) : net (0 : Multiset (Segment α)) t = 0 := rfl
@[simp] theorem cover_zero (x : α) : cover (0 : Multiset (Segment α)) x = 0 := rfl

variable (p : Segment α) (M : Multiset (Segment α))

@[simp] theorem gross_cons (t : α) : gross (p ::ₘ M) t = p.grossAt t + gross M t := by
  simp [gross]

@[simp] theorem net_cons (t : α) : net (p ::ₘ M) t = p.netAt t + net M t := by
  simp [net]

@[simp] theorem cover_cons (x : α) : cover (p ::ₘ M) x = p.coverAt x + cover M x := by
  simp [cover]

variable {p M}

theorem gross_le_total (t : α) : gross M t ≤ total M := by
  induction M using Multiset.induction with
  | empty => simp
  | cons p M ih =>
    have := p.grossAt_le t
    simp only [gross_cons, total_cons]
    omega

theorem cover_le_total (x : α) : cover M x ≤ total M := by
  induction M using Multiset.induction with
  | empty => simp
  | cons p M ih =>
    have := p.coverAt_le x
    simp only [cover_cons, total_cons]
    omega

theorem natAbs_net_le_gross (t : α) : (net M t).natAbs ≤ gross M t := by
  induction M using Multiset.induction with
  | empty => simp
  | cons p M ih =>
    have := p.natAbs_netAt_le t
    simp only [net_cons, gross_cons]
    omega

theorem net_eq_zero {t : α} (h : gross M t = 0) : net M t = 0 := by
  have := natAbs_net_le_gross (M := M) t
  omega

/-- Every end of a segment of non-zero weight has a positive gross weight. -/
theorem gross_pos {t : α} (hp : p ∈ M) (hw : p.weight ≠ 0) (ht : t = p.lo ∨ t = p.hi) :
    0 < gross M t := by
  obtain ⟨N, rfl⟩ := Multiset.exists_cons_of_mem hp
  simp only [gross_cons, Segment.grossAt, if_pos ht]
  omega

/-- A point of positive gross weight is an end of a segment. -/
theorem exists_end_of_gross_pos {t : α} (h : 0 < gross M t) : ∃ p ∈ M, t = p.lo ∨ t = p.hi := by
  by_contra hno
  have hzero : gross M t = 0 := by
    unfold gross
    refine Multiset.sum_eq_zero fun x hx => ?_
    obtain ⟨p, hp, rfl⟩ := Multiset.mem_map.mp hx
    exact if_neg fun hend => hno ⟨p, hp, hend⟩
  omega

/-- **The net weights up to `x` add up to the weight over `x`**, in any finite set of points that
holds the ends of the segments. -/
theorem sum_net_le {K : Finset α} (hord : ∀ p ∈ M, p.lo ≤ p.hi)
    (hK : ∀ t, 0 < gross M t → t ∈ K) (x : α) :
    ∑ t ∈ K with t ≤ x, net M t = cover M x := by
  have key : ∀ N ≤ M, ∑ t ∈ K with t ≤ x, net N t = cover N x := by
    intro N
    induction N using Multiset.induction with
    | empty => simp
    | cons p N ih =>
      intro hN
      have hp : p ∈ M := Multiset.mem_of_le hN (Multiset.mem_cons_self p N)
      have hends : p.weight ≠ 0 → p.lo ∈ K ∧ p.hi ∈ K := fun hw =>
        ⟨hK _ (gross_pos hp hw (.inl rfl)), hK _ (gross_pos hp hw (.inr rfl))⟩
      simp only [net_cons, cover_cons, Finset.sum_add_distrib, Nat.cast_add]
      rw [Segment.sum_netAt_le (hord p hp) hends, ih ((Multiset.le_cons_self N p).trans hN)]
  exact key M le_rfl

/-- With no end between two points, the same weight lies over both. -/
theorem cover_eq_of_gap {x y : α} (hxy : x ≤ y) (hgap : ∀ t, x < t → t ≤ y → gross M t = 0) :
    cover M x = cover M y := by
  induction M using Multiset.induction with
  | empty => simp
  | cons p M ih =>
    have hgap' : ∀ t, x < t → t ≤ y → p.grossAt t = 0 ∧ gross M t = 0 := by
      intro t h1 h2
      have := hgap t h1 h2
      rw [gross_cons] at this
      omega
    simp only [cover_cons, ih fun t h1 h2 => (hgap' t h1 h2).2]
    congr 1
    by_cases hw : p.weight = 0
    · simp [Segment.coverAt, hw]
    · have hend : ∀ t, (t = p.lo ∨ t = p.hi) → x < t → ¬ t ≤ y := by
        intro t ht h1 h2
        have := (hgap' t h1 h2).1
        rw [Segment.grossAt, if_pos ht] at this
        exact hw this
      have hlo : p.lo ≤ x ↔ p.lo ≤ y :=
        ⟨fun h => h.trans hxy, fun h => not_lt.mp fun h' => hend _ (.inl rfl) h' h⟩
      have hhi : x < p.hi ↔ y < p.hi :=
        ⟨fun h => not_le.mp (hend _ (.inr rfl) h), fun h => hxy.trans_lt h⟩
      simp only [Segment.coverAt, hlo, hhi]

end Family

/-- On the integers, one step down from `t` removes the net weight at `t`. -/
theorem cover_sub_one {M : Multiset (Segment ℤ)} (hord : ∀ p ∈ M, p.lo ≤ p.hi) (t : ℤ) :
    (cover M (t - 1) : ℤ) + net M t = cover M t := by
  induction M using Multiset.induction with
  | empty => simp
  | cons p M ih =>
    have hp := hord p (Multiset.mem_cons_self p M)
    have hrec := ih (fun q hq => hord q (Multiset.mem_cons_of_mem hq))
    have hone : (p.coverAt (t - 1) : ℤ) + p.netAt t = p.coverAt t := by
      unfold Segment.coverAt Segment.netAt
      split_ifs <;> omega
    simp only [cover_cons, net_cons, Nat.cast_add]
    omega

end ArbitrageBot.Lib
