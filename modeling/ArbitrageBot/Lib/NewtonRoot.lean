import Mathlib.Data.Nat.Log
import Mathlib.Tactic.Linarith

/-!
# The integer square root by Newton's iteration

From a guess that is not below the root the iteration does not go below it, and where it does not
go down it is there.
-/

namespace ArbitrageBot.Lib.NewtonRoot

def next (n g : Nat) : Nat := (g + n / g) / 2

/-- A guess that is not below the root. -/
structure Above (n g : Nat) : Prop where
  pos : 0 < g
  le : n < (g + 1) * (g + 1)

variable {n g k : Nat}

/-- The mean of `g` and `n / g` is not below a number whose square is at most `n`. -/
theorem le_next {s : Nat} (hg : 0 < g) (hs : s * s ≤ n) : s ≤ next n g := by
  have hdiv : 2 * s - g ≤ n / g := by
    rw [Nat.le_div_iff_mul_le hg]
    rcases Nat.le_total (2 * s) g with h | h
    · rw [Nat.sub_eq_zero_of_le h, Nat.zero_mul]
      exact Nat.zero_le n
    · obtain ⟨c, hc⟩ := Nat.le.dest h
      have hsq : c * g ≤ s * s := by
        -- `4 * c * g ≤ (c + g) ^ 2 = 4 * s ^ 2`
        nlinarith [sq_nonneg ((c : Int) - g)]
      rw [← hc, Nat.add_sub_cancel_left]
      exact Nat.le_trans hsq hs
  unfold next
  omega

theorem Above.next (h : Above n g) (hn : 0 < n) : Above n (next n g) := by
  have hone : 1 ≤ NewtonRoot.next n g := le_next h.pos (by omega)
  refine ⟨hone, ?_⟩
  by_contra hle
  have := le_next h.pos (Nat.le_of_not_lt hle)
  omega

/-- Where the iteration does not go down, the guess is the root and not above its cofactor. -/
theorem Above.root (h : Above n g) (hstop : g ≤ NewtonRoot.next n g) :
    g ≤ n / g ∧ g * g ≤ n ∧ n < (g + 1) * (g + 1) := by
  have hle : g ≤ n / g := by
    unfold NewtonRoot.next at hstop
    omega
  exact ⟨hle, (Nat.le_div_iff_mul_le h.pos).mp hle, h.le⟩

/-- The cofactor of a guess above the root is hardly larger than the guess. -/
theorem Above.div_le (h : Above n g) : n / g ≤ g + 2 := by
  have hlt : n < (g + 3) * g := by
    have := h.le
    have := h.pos
    nlinarith
  have := (Nat.div_lt_iff_lt_mul h.pos).mpr hlt
  omega

/-- A power of two with half the bits of `n`, rounded up, is above the root. -/
theorem above_two_pow : Above n (2 ^ (n.log2 / 2 + 1)) := by
  refine ⟨Nat.two_pow_pos _, ?_⟩
  calc n < 2 ^ (n.log2 + 1) := Nat.lt_log2_self
    _ ≤ 2 ^ (n.log2 / 2 + 1 + (n.log2 / 2 + 1)) := Nat.pow_le_pow_right (by omega) (by omega)
    _ = 2 ^ (n.log2 / 2 + 1) * 2 ^ (n.log2 / 2 + 1) := Nat.pow_add _ _ _
    _ ≤ (2 ^ (n.log2 / 2 + 1) + 1) * (2 ^ (n.log2 / 2 + 1) + 1) :=
      Nat.mul_le_mul (Nat.le_succ _) (Nat.le_succ _)

end ArbitrageBot.Lib.NewtonRoot
