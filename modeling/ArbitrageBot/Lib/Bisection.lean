import Mathlib.Data.List.Basic

/-!
# Bisection for a threshold

A span is halved at its middle; an accepted middle moves the lower end above it, a rejected one the
upper end below it, also after the ends have crossed. Whatever the answers are, the middle stays
within the first span, and does not fall below a middle that was accepted.
-/

namespace ArbitrageBot.Lib.Bisection

structure Span where
  low : Nat
  high : Nat
  deriving DecidableEq, Repr

namespace Span

def mid (s : Span) : Nat := (s.low + s.high) / 2

/-- The span after an answer. -/
def next (s : Span) (accepted : Bool) : Span :=
  if accepted then ⟨s.mid + 1, s.high⟩ else ⟨s.low, s.mid - 1⟩

/-- What holds of the spans of a bisection of `[0, cap]`: the ends cross by two at most. -/
structure Within (cap : Nat) (s : Span) : Prop where
  low_le : s.low ≤ cap + 1
  high_le : s.high ≤ cap
  gap : s.low ≤ s.high + 2

variable {cap n : Nat} {s : Span} {accepted : Bool}

theorem within_start (cap : Nat) : Within cap ⟨0, cap⟩ :=
  ⟨Nat.zero_le _, Nat.le_refl _, Nat.zero_le _⟩

namespace Within

variable (h : Within cap s)

include h

theorem mid_le : s.mid ≤ cap := by
  have := h.low_le
  have := h.high_le
  unfold mid
  omega

/-- All below the lower end has been left behind. -/
theorem low_le_mid : s.low ≤ s.mid + 1 := by
  have := h.gap
  unfold mid
  omega

theorem next : Within cap (s.next accepted) := by
  obtain ⟨hlow, hhigh, hgap⟩ := h
  unfold Span.next mid
  cases accepted with
  | true =>
    rw [if_pos rfl]
    exact ⟨by dsimp only; omega, hhigh, by dsimp only; omega⟩
  | false =>
    rw [if_neg Bool.false_ne_true]
    exact ⟨hlow, by dsimp only; omega, by dsimp only; omega⟩

end Within

end Span

section Visits

variable (accept : Nat → Bool)

/-- The middles of `n` rounds, where the answers are those of a predicate. -/
def visits : Nat → Span → List Nat
  | 0, _ => []
  | n + 1, s => s.mid :: visits n (s.next (accept s.mid))

/-- The span after `n` rounds. -/
def run : Nat → Span → Span
  | 0, s => s
  | n + 1, s => run n (s.next (accept s.mid))

variable {accept} {cap n : Nat} {s : Span}

theorem Span.Within.low_le_next {accepted : Bool} (h : s.Within cap) :
    s.low ≤ (s.next accepted).low := by
  have := h.low_le_mid
  unfold Span.next
  split
  · exact this
  · exact Nat.le_refl _

theorem low_le_run (h : s.Within cap) : s.low ≤ (run accept n s).low := by
  induction n generalizing s with
  | zero => exact Nat.le_refl _
  | succ n ih => exact Nat.le_trans h.low_le_next (ih h.next)

/-- **Every accepted middle** ends up below the lower end. -/
theorem accepted_lt_run (h : s.Within cap) {m : Nat} (hm : m ∈ visits accept n s)
    (hacc : accept m = true) : m < (run accept n s).low := by
  induction n generalizing s with
  | zero => cases hm
  | succ n ih =>
    rcases List.mem_cons.mp hm with rfl | hm
    · have hle := @low_le_run accept cap n _ (@Span.Within.next cap s (accept s.mid) h)
      unfold run
      unfold Span.next at hle ⊢
      rw [hacc, if_pos rfl] at hle ⊢
      exact hle
    · exact ih h.next hm

end Visits

end ArbitrageBot.Lib.Bisection
