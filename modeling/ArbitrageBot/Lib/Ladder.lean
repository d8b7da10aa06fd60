import Mathlib.Data.Nat.Basic
import Mathlib.Tactic.Common

/-!
# Levels filled one after the other

An offer is filled by a list of levels, best first. A level that pays nothing is passed by; one that
is emptied leaves the rest of the offer to the levels behind it; any other ends the fill. What is
paid grows with the offer, as long as the larger offer is paid at no level that the smaller passes
by (`pays_mono`).
-/

namespace ArbitrageBot.Lib

/-- What a level takes of an offer, and what it pays for that. -/
structure Fill where
  taken : Nat
  paid : Nat
  emptied : Bool
  deriving DecidableEq, Repr

namespace Ladder

variable {ι : Type*}

section

variable (fill : ι → Nat → Option Fill)

/-- What the levels pay for an offer; `none` when one that the offer reaches has no fill for it. -/
def pays : List ι → Nat → Option Nat
  | [], _ => some 0
  | l :: ls, offer =>
    if offer = 0 then some 0
    else
      match fill l offer with
      | none => none
      | some q =>
        if q.paid = 0 then pays ls offer
        else if q.emptied then (pays ls (offer - q.taken)).map (q.paid + ·)
        else some q.paid

/-- A level that the offer passes by is passed by with `d` more as well. -/
def passesTogether (d : Nat) : List ι → Nat → Bool
  | [], _ => true
  | l :: ls, offer =>
    offer == 0 ||
      match fill l offer with
      | none => true
      | some q =>
        if q.paid = 0 then
          ((fill l (offer + d)).all fun r => r.paid == 0) && passesTogether d ls offer
        else !q.emptied || passesTogether d ls (offer - q.taken)

end

/-- Of two offers below `M` the larger is paid no less, and both are filled alike unless the level
takes all of the smaller. -/
def Rising (M : Nat) (level : Nat → Option Fill) : Prop :=
  ∀ {a b q r}, a ≤ b → b < M → level a = some q → level b = some r →
    q.taken ≤ a ∧ q.paid ≤ r.paid ∧ (q = r ∨ q.taken = a)

variable {fill : ι → Nat → Option Fill} {l : ι} {ls : List ι} {offer a b d M u v : Nat} {q r : Fill}

@[simp] theorem pays_zero : pays fill ls 0 = some 0 := by
  cases ls with
  | nil => rfl
  | cons l ls => rw [pays, if_pos rfl]

theorem pays_of_passed (ha : offer ≠ 0) (hfill : fill l offer = some q) (hnone : q.paid = 0) :
    pays fill (l :: ls) offer = pays fill ls offer := by
  rw [pays, if_neg ha, hfill]
  exact if_pos hnone

theorem pays_of_emptied (ha : offer ≠ 0) (hfill : fill l offer = some q) (hsome : q.paid ≠ 0)
    (hemptied : q.emptied = true) :
    pays fill (l :: ls) offer = (pays fill ls (offer - q.taken)).map (q.paid + ·) := by
  rw [pays, if_neg ha, hfill]
  dsimp only
  rw [if_neg hsome, if_pos hemptied]

theorem pays_of_ended (ha : offer ≠ 0) (hfill : fill l offer = some q) (hsome : q.paid ≠ 0)
    (hended : q.emptied = false) : pays fill (l :: ls) offer = some q.paid := by
  rw [pays, if_neg ha, hfill]
  dsimp only
  rw [if_neg hsome, if_neg (by simp [hended])]

/-- A level that takes all ends the fill, also when it is emptied. -/
theorem pays_of_all (ha : offer ≠ 0) (hfill : fill l offer = some q) (hsome : q.paid ≠ 0)
    (hall : q.taken = offer) : pays fill (l :: ls) offer = some q.paid := by
  cases hemptied : q.emptied with
  | true =>
    rw [pays_of_emptied ha hfill hsome hemptied, hall, Nat.sub_self, pays_zero]
    rfl
  | false => exact pays_of_ended ha hfill hsome hemptied

/-- An offer that is filled is filled at its first level. -/
theorem fill_of_pays (ha : offer ≠ 0) (h : pays fill (l :: ls) offer = some v) :
    ∃ q, fill l offer = some q := by
  cases hfill : fill l offer with
  | none =>
    rw [pays, if_neg ha, hfill] at h
    cases h
  | some q => exact ⟨q, rfl⟩

/-- The levels pay at least what the first one pays. -/
theorem paid_le_of_pays (ha : offer ≠ 0) (hfill : fill l offer = some q)
    (h : pays fill (l :: ls) offer = some v) : q.paid ≤ v := by
  by_cases hsome : q.paid = 0
  · omega
  · cases hemptied : q.emptied with
    | true =>
      rw [pays_of_emptied ha hfill hsome hemptied, Option.map_eq_some_iff] at h
      obtain ⟨rest, -, rfl⟩ := h
      exact Nat.le_add_right _ _
    | false =>
      rw [pays_of_ended ha hfill hsome hemptied] at h
      cases h
      exact Nat.le_refl _

theorem passesTogether_of_passed (ha : offer ≠ 0) (hfill : fill l offer = some q)
    (hnone : q.paid = 0) (h : passesTogether fill d (l :: ls) offer = true) :
    (∀ r, fill l (offer + d) = some r → r.paid = 0) ∧ passesTogether fill d ls offer = true := by
  simp only [passesTogether, hfill, hnone, ↓reduceIte, Bool.or_eq_true, beq_iff_eq, ha, false_or,
    Bool.and_eq_true] at h
  refine ⟨fun r hr => ?_, h.2⟩
  simpa [hr] using h.1

theorem passesTogether_of_emptied (ha : offer ≠ 0) (hfill : fill l offer = some q)
    (hsome : q.paid ≠ 0) (hemptied : q.emptied = true)
    (h : passesTogether fill d (l :: ls) offer = true) :
    passesTogether fill d ls (offer - q.taken) = true := by
  simpa [passesTogether, hfill, hsome, hemptied, ha] using h

/-- **The larger offer is paid no less**, where the two pass by the same levels. -/
theorem pays_mono (hlevels : ∀ l, Rising M (fill l)) (hab : a ≤ b) (hb : b < M)
    (htogether : passesTogether fill (b - a) ls a = true)
    (hpa : pays fill ls a = some u) (hpb : pays fill ls b = some v) : u ≤ v := by
  induction ls generalizing a b u v with
  | nil =>
    cases hpa
    exact Nat.zero_le v
  | cons l ls ih =>
    by_cases hzero : a = 0
    · rw [hzero, pays_zero] at hpa
      cases hpa
      exact Nat.zero_le v
    have hzero' : b ≠ 0 := by omega
    have hmore : a + (b - a) = b := by omega
    obtain ⟨q, hq⟩ := fill_of_pays hzero hpa
    obtain ⟨r, hr⟩ := fill_of_pays hzero' hpb
    obtain ⟨htaken, hpaid, hcases⟩ := hlevels l hab hb hq hr
    by_cases hnone : q.paid = 0
    · -- Both offers pass the level by.
      obtain ⟨hboth, hrest⟩ := passesTogether_of_passed hzero hq hnone htogether
      rw [pays_of_passed hzero hq hnone] at hpa
      rw [pays_of_passed hzero' hr (hboth r (by rw [hmore]; exact hr))] at hpb
      exact ih hab hb hrest hpa hpb
    · have hle := paid_le_of_pays hzero' hr hpb
      rcases hcases with rfl | hall
      · -- Both are filled alike, and keep their distance.
        cases hemptied : q.emptied with
        | true =>
          have hrest := passesTogether_of_emptied hzero hq hnone hemptied htogether
          rw [pays_of_emptied hzero hq hnone hemptied, Option.map_eq_some_iff] at hpa
          rw [pays_of_emptied hzero' hr hnone hemptied, Option.map_eq_some_iff] at hpb
          obtain ⟨u', hu', rfl⟩ := hpa
          obtain ⟨v', hv', rfl⟩ := hpb
          apply Nat.add_le_add_left
          apply ih (by omega) (by omega) _ hu' hv'
          rw [show b - q.taken - (a - q.taken) = b - a by omega]
          exact hrest
        | false =>
          rw [pays_of_ended hzero hq hnone hemptied] at hpa
          cases hpa
          exact hle
      · rw [pays_of_all hzero hq hnone hall] at hpa
        cases hpa
        exact Nat.le_trans hpaid hle

end Ladder

end ArbitrageBot.Lib
