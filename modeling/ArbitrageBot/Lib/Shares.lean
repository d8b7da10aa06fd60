import Mathlib.Algebra.Order.Floor.Div
import Mathlib.GroupTheory.GroupAction.Ring
import Mathlib.Tactic.Ring

/-!
# Shares of a pot

A pot of `A` is owned by `S` shares. A deposit of `d` mints shares rounded down; what they are
worth, rounded up, is at most the deposit. Where a deposit covers the shares it mints, they redeem
for no more than it. A surplus `δ` is given back in whole units of a weight, as many as there are.
-/

namespace ArbitrageBot.Lib.Shares

/-- The shares a deposit mints. -/
def minted (d S A : Nat) : Nat := d * S / A

/-- The deposit that shares are worth. -/
def worth (s S A : Nat) : Nat := s * A ⌈/⌉ S

/-- The units of weight `w`, of `n`, that a surplus gives back. -/
def trim (w n δ : Nat) : Nat := min (δ / w) n

variable {d s e S A N w n δ : Nat}

theorem minted_mul_le : minted d S A * A ≤ d * S := Nat.div_mul_le_self _ _

theorem worth_le (hS : 0 < S) : worth (minted d S A) S A ≤ d := by
  rw [worth, ceilDiv_le_iff_le_mul hS, Nat.mul_comm S]
  exact minted_mul_le

theorem mul_le_worth_mul (hS : 0 < S) : s * A ≤ worth s S A * S := by
  rw [Nat.mul_comm _ S]
  exact (ceilDiv_le_iff_le_mul hS).mp (Nat.le_refl _)

/-- Shares that a deposit covers redeem for no more than the deposit. -/
theorem redeem_le (h : s * A ≤ e * S) : s * (A + e) ≤ e * (S + s) := by
  calc s * (A + e) = s * A + e * s := by ring
    _ ≤ e * S + e * s := Nat.add_le_add_right h _
    _ = e * (S + s) := by ring

/-- When the supply stays below a bound. -/
theorem add_minted_lt_iff (hA : 0 < A) : S + minted d S A < N ↔ (d + A) * S < N * A := by
  have hsum : S + minted d S A = (d + A) * S / A := by
    rw [minted, Nat.add_mul, Nat.add_mul_div_left _ _ hA, Nat.add_comm]
  rw [hsum, Nat.div_lt_iff_lt_mul hA]

theorem trim_le : trim w n δ ≤ n := Nat.min_le_right _ _

theorem trim_mul_le : trim w n δ * w ≤ δ :=
  (Nat.mul_le_mul_right w (Nat.min_le_left _ _)).trans (Nat.div_mul_le_self _ _)

/-- No surplus of the weight of a unit gives none back. -/
theorem trim_eq_zero (h : δ < w) : trim w n δ = 0 := by
  rw [trim, Nat.div_eq_of_lt h, Nat.zero_min]

end ArbitrageBot.Lib.Shares
