import Mathlib.Algebra.Order.Floor.Div
import Mathlib.GroupTheory.GroupAction.Ring
import Mathlib.Tactic.Ring
import Mathlib.Tactic.Linarith

/-!
# What a bin of constant price pays

In exact numbers: a bin sells its reserve at the price `p / 2 ^ 128` of token Y for one X, takes a
fee of `f / 10 ^ 18` on the input, and rounds every amount in its own favour. An input below the one
that takes the whole reserve never takes the whole reserve.
-/

namespace ArbitrageBot.LiquidityBook.BinQuote

def FEE_PRECISION : Nat := 10 ^ 18

/-- The input that takes the reserve `r`, without fee. -/
def inputFor (swapForY : Bool) (p r : Nat) : Nat :=
  if swapForY then r * 2 ^ 128 ⌈/⌉ p else r * p ⌈/⌉ 2 ^ 128

/-- The output for the input `n`, net of its fee. -/
def outputFor (swapForY : Bool) (p n : Nat) : Nat :=
  if swapForY then n * p / 2 ^ 128 else n * 2 ^ 128 / p

/-- The fee on top of the input `m`. -/
def feeOn (f m : Nat) : Nat := m * f ⌈/⌉ (FEE_PRECISION - f)

/-- The fee contained in the input `a`. -/
def feeIn (f a : Nat) : Nat := a * f ⌈/⌉ FEE_PRECISION

/-- The input that takes the reserve `r`. -/
def capacity (swapForY : Bool) (p f r : Nat) : Nat :=
  inputFor swapForY p r + feeOn f (inputFor swapForY p r)

/-- What a bin takes in, pays out and keeps as fee when `a` is left to swap. -/
structure Quote where
  amountIn : Nat
  amountOut : Nat
  fee : Nat
  deriving DecidableEq, Repr

def quote (swapForY : Bool) (p f r a : Nat) : Quote :=
  if capacity swapForY p f r ≤ a then
    ⟨capacity swapForY p f r, r, feeOn f (inputFor swapForY p r)⟩
  else ⟨a, outputFor swapForY p (a - feeIn f a), feeIn f a⟩

variable {swapForY : Bool} {p f r r' a m n : Nat}

theorem inputFor_pos (hp : 0 < p) (hr : 0 < r) : 0 < inputFor swapForY p r := by
  have hpos : ∀ {d x : Nat}, 0 < d → 0 < x → 0 < x ⌈/⌉ d := by
    intro d x hd hx
    by_contra h
    have := (ceilDiv_le_iff_le_mul hd (b := x) (c := 0)).mp (by omega)
    omega
  unfold inputFor
  split
  · exact hpos hp (by positivity)
  · exact hpos (by positivity) (by positivity)

theorem ceilDiv_mono {x y d : Nat} (hd : 0 < d) (h : x ≤ y) : x ⌈/⌉ d ≤ y ⌈/⌉ d := by
  rw [ceilDiv_le_iff_le_mul hd]
  exact h.trans ((ceilDiv_le_iff_le_mul hd).mp le_rfl)

theorem inputFor_mono (hp : 0 < p) (h : r' ≤ r) :
    inputFor swapForY p r' ≤ inputFor swapForY p r := by
  unfold inputFor
  split
  · exact ceilDiv_mono hp (Nat.mul_le_mul_right _ h)
  · exact ceilDiv_mono (by positivity) (Nat.mul_le_mul_right _ h)

theorem feeOn_mono (hf : f < FEE_PRECISION) (h : n ≤ m) : feeOn f n ≤ feeOn f m :=
  ceilDiv_mono (by omega) (Nat.mul_le_mul_right _ h)

theorem capacity_mono (hp : 0 < p) (hf : f < FEE_PRECISION) (h : r' ≤ r) :
    capacity swapForY p f r' ≤ capacity swapForY p f r :=
  Nat.add_le_add (inputFor_mono hp h) (feeOn_mono hf (inputFor_mono hp h))

theorem capacity_pos (hp : 0 < p) (hr : 0 < r) : 0 < capacity swapForY p f r :=
  Nat.lt_of_lt_of_le (inputFor_pos hp hr) (Nat.le_add_right _ _)

theorem feeIn_le (hf : f < FEE_PRECISION) : feeIn f a ≤ a := by
  unfold feeIn
  rw [ceilDiv_le_iff_le_mul (by unfold FEE_PRECISION; omega), Nat.mul_comm]
  exact Nat.mul_le_mul_right _ (by omega)

theorem feeOn_le (hf : 2 * f ≤ FEE_PRECISION) (hpos : 0 < FEE_PRECISION - f) :
    feeOn f m ≤ m := by
  unfold feeOn
  rw [ceilDiv_le_iff_le_mul hpos, Nat.mul_comm]
  exact Nat.mul_le_mul_right _ (by omega)

/-- Of an input below `m` with its fee, less than `m` is left without its fee. -/
theorem net_lt (hf : f < FEE_PRECISION) (h : a < m + feeOn f m) : a - feeIn f a < m := by
  have hle := feeIn_le (a := a) hf
  have hfee : a * f ≤ FEE_PRECISION * feeIn f a :=
    (ceilDiv_le_iff_le_mul (by omega)).mp le_rfl
  by_cases ham : a < m
  · omega
  · -- `a - m` is below the fee on `m`, so the fee part of `a` is more than `a - m`.
    have hlt : (FEE_PRECISION - f) * (a - m) < m * f := by
      by_contra hge
      have : feeOn f m ≤ a - m := (ceilDiv_le_iff_le_mul (by omega)).mpr (by omega)
      omega
    obtain ⟨d, rfl⟩ := Nat.exists_eq_add_of_le (by omega : m ≤ a)
    obtain ⟨c, hc⟩ := Nat.exists_eq_add_of_lt hf
    rw [Nat.add_sub_cancel_left, (by omega : FEE_PRECISION - f = c + 1)] at hlt
    by_contra hge
    have hmul : FEE_PRECISION * feeIn f (m + d) ≤ FEE_PRECISION * d :=
      Nat.mul_le_mul_left _ (by omega)
    rw [hc] at hfee hmul
    nlinarith

theorem outputFor_lt (hn : n < inputFor swapForY p r) : outputFor swapForY p n < r := by
  unfold inputFor at hn
  unfold outputFor
  split at hn
  · rename_i hdir
    rw [if_pos hdir]
    by_cases hp : p = 0
    · subst hp
      rw [ceilDiv_zero] at hn
      omega
    · have hlt : n * p < r * 2 ^ 128 := by
        by_contra hge
        have := (ceilDiv_le_iff_le_mul (by omega : 0 < p)).mpr
          (by linarith : r * 2 ^ 128 ≤ p * n)
        omega
      exact Nat.div_lt_of_lt_mul (by linarith)
  · rename_i hdir
    rw [if_neg hdir]
    have hlt : n * 2 ^ 128 < r * p := by
      by_contra hge
      have := (ceilDiv_le_iff_le_mul (by positivity : 0 < 2 ^ 128)).mpr
        (by linarith : r * p ≤ 2 ^ 128 * n)
      omega
    exact Nat.div_lt_of_lt_mul (by linarith)

/-- **An input below the capacity of a bin leaves a part of its reserve.** -/
theorem outputFor_net_lt (hf : f < FEE_PRECISION) (h : a < capacity swapForY p f r) :
    outputFor swapForY p (a - feeIn f a) < r :=
  outputFor_lt (net_lt hf h)

theorem quote_of_le (h : capacity swapForY p f r ≤ a) :
    quote swapForY p f r a =
      ⟨capacity swapForY p f r, r, feeOn f (inputFor swapForY p r)⟩ := if_pos h

theorem quote_of_lt (h : a < capacity swapForY p f r) :
    quote swapForY p f r a = ⟨a, outputFor swapForY p (a - feeIn f a), feeIn f a⟩ :=
  if_neg (by omega)

theorem quote_amountIn_le : (quote swapForY p f r a).amountIn ≤ a := by
  unfold quote
  split
  · assumption
  · exact le_rfl

theorem quote_amountOut_le (hf : f < FEE_PRECISION) :
    (quote swapForY p f r a).amountOut ≤ r := by
  unfold quote
  split
  · exact le_rfl
  · exact (outputFor_net_lt hf (by omega)).le

/-- A larger input leaves no less without its fee. -/
theorem net_mono (hf : f < FEE_PRECISION) (h : a ≤ m) : a - feeIn f a ≤ m - feeIn f m := by
  obtain ⟨k, rfl⟩ := Nat.exists_eq_add_of_le h
  have hpos : 0 < FEE_PRECISION := by omega
  have hfee : a * f ≤ FEE_PRECISION * feeIn f a := (ceilDiv_le_iff_le_mul hpos).mp le_rfl
  have hk : k * f ≤ FEE_PRECISION * k := by
    rw [Nat.mul_comm]
    exact Nat.mul_le_mul_right k hf.le
  have hmore : feeIn f (a + k) ≤ feeIn f a + k := by
    apply (ceilDiv_le_iff_le_mul hpos).mpr
    calc (a + k) * f = a * f + k * f := Nat.add_mul _ _ _
      _ ≤ FEE_PRECISION * feeIn f a + FEE_PRECISION * k := Nat.add_le_add hfee hk
      _ = FEE_PRECISION * (feeIn f a + k) := (Nat.mul_add _ _ _).symm
  omega

theorem outputFor_mono (h : n ≤ m) : outputFor swapForY p n ≤ outputFor swapForY p m := by
  unfold outputFor
  split
  · exact Nat.div_le_div_right (Nat.mul_le_mul_right p h)
  · exact Nat.div_le_div_right (Nat.mul_le_mul_right _ h)

/-- An amount of the token that comes in, at the bin's price, in units of `2 ^ -128` Y. -/
def worthIn (swapForY : Bool) (p n : Nat) : Nat := if swapForY then p * n else 2 ^ 128 * n

/-- An amount of the token that goes out, at the bin's price. -/
def worthOut (swapForY : Bool) (p n : Nat) : Nat := if swapForY then 2 ^ 128 * n else p * n

theorem worthIn_mono (h : n ≤ m) : worthIn swapForY p n ≤ worthIn swapForY p m := by
  unfold worthIn
  split
  · exact Nat.mul_le_mul_left _ h
  · exact Nat.mul_le_mul_left _ h

theorem worthOut_le_worthIn_inputFor (hp : 0 < p) :
    worthOut swapForY p r ≤ worthIn swapForY p (inputFor swapForY p r) := by
  unfold worthOut worthIn inputFor
  cases swapForY with
  | true =>
    simp only [↓reduceIte]
    rw [Nat.mul_comm]
    exact (ceilDiv_le_iff_le_mul hp).mp le_rfl
  | false =>
    simp only [Bool.false_eq_true, ↓reduceIte]
    rw [Nat.mul_comm p r]
    exact (ceilDiv_le_iff_le_mul (by positivity)).mp le_rfl

theorem worthOut_outputFor_le :
    worthOut swapForY p (outputFor swapForY p n) ≤ worthIn swapForY p n := by
  unfold worthOut worthIn outputFor
  cases swapForY with
  | true =>
    simp only [↓reduceIte]
    rw [Nat.mul_comm p n]
    exact Nat.mul_div_le _ _
  | false =>
    simp only [Bool.false_eq_true, ↓reduceIte]
    rw [Nat.mul_comm (2 ^ 128) n]
    exact Nat.mul_div_le _ _

/-- **A bin is paid at least what it gives.** -/
theorem worthOut_quote_le (hp : 0 < p) :
    worthOut swapForY p (quote swapForY p f r a).amountOut ≤
      worthIn swapForY p (quote swapForY p f r a).amountIn := by
  unfold quote
  split
  · exact (worthOut_le_worthIn_inputFor hp).trans (worthIn_mono (Nat.le_add_right _ _))
  · exact worthOut_outputFor_le.trans (worthIn_mono (Nat.sub_le _ _))

theorem worthIn_add : worthIn swapForY p (m + n) = worthIn swapForY p m + worthIn swapForY p n := by
  unfold worthIn
  split
  · exact Nat.mul_add _ _ _
  · exact Nat.mul_add _ _ _

theorem worthOut_sub_add (h : n ≤ m) :
    worthOut swapForY p (m - n) + worthOut swapForY p n = worthOut swapForY p m := by
  unfold worthOut
  split
  · rw [← Nat.mul_add, Nat.sub_add_cancel h]
  · rw [← Nat.mul_add, Nat.sub_add_cancel h]

/-- **A swap does not lower what a bin holds**, at its price. -/
theorem worth_exchange_le {rIn : Nat} (hp : 0 < p)
    (hle : (quote swapForY p f r' a).amountOut ≤ r) :
    worthIn swapForY p rIn + worthOut swapForY p r ≤
      worthIn swapForY p (rIn + (quote swapForY p f r' a).amountIn) +
        worthOut swapForY p (r - (quote swapForY p f r' a).amountOut) := by
  have hpaid := @worthOut_quote_le swapForY p f r' a hp
  rw [worthIn_add, ← worthOut_sub_add hle]
  omega

theorem quote_fee_le (hf : f < FEE_PRECISION) :
    (quote swapForY p f r a).fee ≤ (quote swapForY p f r a).amountIn := by
  unfold quote
  split
  · exact Nat.le_add_left _ _
  · exact feeIn_le hf

/-- A bin with a reserve takes some of the input. -/
theorem quote_amountIn_pos (hp : 0 < p) (hr : 0 < r) (ha : 0 < a) :
    0 < (quote swapForY p f r a).amountIn := by
  unfold quote
  split
  · exact capacity_pos hp hr
  · exact ha

/-- A smaller reserve that is still not taken whole gives the same quote. -/
theorem quote_congr (hp : 0 < p) (hf : f < FEE_PRECISION) (h : r' ≤ r)
    (ha : a < capacity swapForY p f r') : quote swapForY p f r' a = quote swapForY p f r a := by
  rw [quote_of_lt ha, quote_of_lt (Nat.lt_of_lt_of_le ha (capacity_mono hp hf h))]

end ArbitrageBot.LiquidityBook.BinQuote
