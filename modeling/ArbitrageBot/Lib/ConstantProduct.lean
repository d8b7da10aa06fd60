import Mathlib.Tactic.Linarith
import Mathlib.Tactic.Ring

/-!
# Constant-product quotes

A pool with reserves `x` and `y` sells `y` for `x`. The share `g / D` of an input counts for the
price, and the output is rounded down. The product of the reserves does not decrease, and trading
the output back against the same reserves loses.
-/

namespace ArbitrageBot.Lib.ConstantProduct

/-- The output for the input `a`. -/
def quote (D g x y a : Nat) : Nat := a * g * y / (x * D + a * g)

variable {D g x y a : Nat}

theorem quote_mul_le : quote D g x y a * (x * D + a * g) ≤ a * g * y := Nat.div_mul_le_self _ _

theorem quote_le : quote D g x y a ≤ y := by
  unfold quote
  by_cases h : x * D + a * g = 0
  · rw [h, Nat.div_zero]
    exact Nat.zero_le y
  · apply Nat.div_le_of_le_mul
    exact Nat.mul_le_mul_right y (Nat.le_add_left _ _)

/-- No output empties a pool. -/
theorem quote_lt (hD : 0 < D) (hx : 0 < x) (hy : 0 < y) : quote D g x y a < y := by
  have hpos : 0 < x * D := Nat.mul_pos hx hD
  unfold quote
  apply Nat.div_lt_of_lt_mul
  exact Nat.mul_lt_mul_of_pos_right (by omega) hy

/-- A larger input is paid no less. -/
theorem quote_mono {b : Nat} (h : a ≤ b) : quote D g x y a ≤ quote D g x y b := by
  obtain ⟨k, rfl⟩ := Nat.exists_eq_add_of_le h
  by_cases hden : x * D + (a + k) * g = 0
  · have hg : (a + k) * g = 0 := by omega
    have hg' : a * g = 0 := Nat.eq_zero_of_le_zero (hg ▸ Nat.mul_le_mul_right g h)
    unfold quote
    rw [hg', Nat.zero_mul, Nat.zero_div]
    exact Nat.zero_le _
  · have hle := quote_le (D := D) (g := g) (x := x) (y := y) (a := a)
    have hmul := quote_mul_le (D := D) (g := g) (x := x) (y := y) (a := a)
    generalize quote D g x y a = q at hle hmul ⊢
    apply (Nat.le_div_iff_mul_le (Nat.pos_of_ne_zero hden)).mpr
    calc q * (x * D + (a + k) * g) = q * (x * D + a * g) + q * (k * g) := by ring
      _ ≤ a * g * y + y * (k * g) := Nat.add_le_add hmul (Nat.mul_le_mul_right _ hle)
      _ = (a + k) * g * y := by ring

/-- A larger input leaves no less without a fee of `f / D`. -/
theorem sub_fee_mono {b f : Nat} (hD : 0 < D) (h : a ≤ b) : a - a * f / D ≤ b - b * f / D := by
  rcases Nat.le_total f D with hf | hf
  · obtain ⟨k, rfl⟩ := Nat.exists_eq_add_of_le h
    have hfee : (a + k) * f / D ≤ a * f / D + k := by
      calc (a + k) * f / D = (a * f + k * f) / D := by rw [Nat.add_mul]
        _ ≤ (a * f + k * D) / D := Nat.div_le_div_right (Nat.add_le_add_left
          (Nat.mul_le_mul_left k hf) _)
        _ = a * f / D + k := Nat.add_mul_div_right _ _ hD
    omega
  · have hall : a ≤ a * f / D := (Nat.le_div_iff_mul_le hD).mpr (Nat.mul_le_mul_left a hf)
    omega

/-- **The product of the reserves does not decrease.** -/
theorem mul_le_mul_quote (hg : g ≤ D) :
    x * y ≤ (x + a) * (y - quote D g x y a) := by
  have hle := quote_le (D := D) (g := g) (x := x) (y := y) (a := a)
  have hmul := quote_mul_le (D := D) (g := g) (x := x) (y := y) (a := a)
  by_cases hzero : g = 0
  · have hquote : quote D g x y a = 0 := by
      unfold quote
      rw [hzero, Nat.mul_zero, Nat.zero_mul, Nat.zero_div]
    rw [hquote, Nat.sub_zero]
    exact Nat.mul_le_mul_right y (Nat.le_add_right x a)
  · generalize quote D g x y a = q at hle hmul ⊢
    have hshare : g * ((x + a) * q) ≤ g * (a * y) := by
      have hfee : q * (x * g) ≤ q * (x * D) := Nat.mul_le_mul_left q (Nat.mul_le_mul_left x hg)
      calc g * ((x + a) * q) = q * (x * g) + q * (a * g) := by ring
        _ ≤ q * (x * D) + q * (a * g) := Nat.add_le_add_right hfee _
        _ = q * (x * D + a * g) := by ring
        _ ≤ a * g * y := hmul
        _ = g * (a * y) := by ring
    have hpaid : (x + a) * q ≤ a * y := Nat.le_of_mul_le_mul_left hshare (Nat.pos_of_ne_zero hzero)
    have hsum : x * y + a * y = (x + a) * (y - q) + (x + a) * q := by
      rw [← Nat.mul_add, Nat.sub_add_cancel hle, Nat.add_mul]
    omega

/-- **A trade back loses**: against the reserves of the first trade it does not return the input. -/
theorem quote_quote_lt (hg : g ≤ D) (hpos : 0 < quote D g y x (quote D g x y a)) :
    quote D g y x (quote D g x y a) < a := by
  have hden : 0 < y * D + quote D g x y a * g := by
    apply Nat.pos_of_ne_zero
    intro hzero
    unfold quote at hpos hzero
    rw [hzero, Nat.div_zero] at hpos
    omega
  have hfirst := quote_mul_le (D := D) (g := g) (x := x) (y := y) (a := a)
  have hback := quote_mul_le (D := D) (g := g) (x := y) (y := x) (a := quote D g x y a)
  generalize quote D g x y a = b at *
  generalize quote D g y x b = c at *
  by_contra hge
  have hsold : 0 < b * g * x := Nat.lt_of_lt_of_le (Nat.mul_pos hpos hden) hback
  have hbg : 0 < b * g := Nat.pos_of_mul_pos_right hsold
  have hx : 0 < x := Nat.pos_of_mul_pos_left hsold
  have hD : 0 < D := Nat.lt_of_lt_of_le (Nat.pos_of_mul_pos_left hbg) hg
  have hca : a * (y * D + b * g) ≤ c * (y * D + b * g) :=
    Nat.mul_le_mul_right _ (Nat.le_of_not_lt hge)
  have hxg : b * g * x ≤ b * (x * D) := by
    calc b * g * x = b * (x * g) := by ring
      _ ≤ b * (x * D) := Nat.mul_le_mul_left b (Nat.mul_le_mul_left x hg)
  have hyg : a * g * y ≤ a * (y * D) := by
    calc a * g * y = a * (y * g) := by ring
      _ ≤ a * (y * D) := Nat.mul_le_mul_left a (Nat.mul_le_mul_left y hg)
  -- Both trades together: the shares `a * (b * g)` are lost twice.
  have hlost : a * (b * g) = 0 := by nlinarith
  have ha : a = 0 := (Nat.mul_eq_zero.mp hlost).resolve_right (by omega)
  rw [ha, Nat.zero_mul, Nat.zero_mul, Nat.add_zero] at hfirst
  have : 0 < b * (x * D) := Nat.mul_pos (Nat.pos_of_mul_pos_right hbg) (Nat.mul_pos hx hD)
  omega

end ArbitrageBot.Lib.ConstantProduct
