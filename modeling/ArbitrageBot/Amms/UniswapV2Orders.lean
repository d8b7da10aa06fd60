import ArbitrageBot.Amms.UniswapV2Spec

/-!
# Orders in parts

Selling to a pool in parts pays no more than selling everything at once: each part is quoted at the
price that the parts before it have left, and each quote is rounded down.
-/

namespace ArbitrageBot

namespace Lib.ConstantProduct

variable {D g x y a b : Nat}

/-- A quote is all that may be paid. -/
theorem le_quote {q : Nat} (hden : 0 < x * D + a * g) (h : q * (x * D + a * g) ≤ a * g * y) :
    q ≤ quote D g x y a :=
  (Nat.le_div_iff_mul_le hden).mpr h

/-- **Two quotes, one after the other, are no more than one.** -/
theorem quote_add_quote_le (hg : g ≤ D) (hD : 0 < D) (hx : 0 < x) :
    quote D g x y a + quote D g (x + a) (y - quote D g x y a) b ≤ quote D g x y (a + b) := by
  have hle := quote_le (D := D) (g := g) (x := x) (y := y) (a := a)
  have hfirst := quote_mul_le (D := D) (g := g) (x := x) (y := y) (a := a)
  have hsecond := quote_mul_le (D := D) (g := g) (x := x + a) (y := y - quote D g x y a) (a := b)
  generalize quote D g x y a = p at *
  generalize quote D g (x + a) (y - p) b = q at *
  apply le_quote
  · have := Nat.mul_pos hx hD
    omega
  -- the second part is quoted at a reserve that the whole first part went into
  have hreserve : x * D + a * g + b * g ≤ (x + a) * D + b * g := by
    have := Nat.mul_le_mul_left a hg
    rw [Nat.add_mul]
    omega
  have hq : q * (x * D + a * g + b * g) ≤ b * g * (y - p) :=
    (Nat.mul_le_mul_left q hreserve).trans hsecond
  calc (p + q) * (x * D + (a + b) * g)
      = p * (x * D + a * g) + b * g * p + q * (x * D + a * g + b * g) := by ring
    _ ≤ a * g * y + b * g * p + b * g * (y - p) :=
        Nat.add_le_add (Nat.add_le_add_right hfirst _) hq
    _ = a * g * y + b * g * (p + (y - p)) := by ring
    _ = (a + b) * g * y := by
        rw [Nat.add_sub_cancel' hle]
        ring

end Lib.ConstantProduct

namespace UniswapV2Pool

open Lib

variable {prof : BuildProfile} {pool : UniswapV2Pool} {baseToken : Address} {a b : Nat}

/-- The swaps of the parts of an order, one after the other: what they return, and the pool after
them. -/
def simulateSwapsMut (prof : BuildProfile) (baseToken : Address) :
    UniswapV2Pool → List U256 → Outcome AMMError (List U256 × UniswapV2Pool)
  | pool, [] => .ok ([], pool)
  | pool, amountIn :: amounts => do
    let (amountOut, pool) ← pool.simulateSwapMut prof baseToken amountIn
    let (amountsOut, pool) ← simulateSwapsMut prof baseToken pool amounts
    return (amountOut :: amountsOut, pool)

theorem fee_moved : (pool.moved baseToken a).fee = pool.fee := by
  unfold moved
  split
  · rfl
  · rfl

theorem reserves_moved :
    (pool.moved baseToken a).reserves baseToken =
      ((pool.reserves baseToken).1 + a,
        (pool.reserves baseToken).2 - pool.exactOut baseToken a) := by
  unfold moved
  generalize pool.exactOut baseToken a = out
  unfold reserves
  split
  · rfl
  · rfl

/-- Two parts in exact numbers. -/
theorem exactOut_add_exactOut_le (hx : 0 < (pool.reserves baseToken).1) :
    pool.exactOut baseToken a + (pool.moved baseToken a).exactOut baseToken b ≤
      pool.exactOut baseToken (a + b) := by
  rcases Nat.eq_zero_or_pos (pool.reserves baseToken).2 with hy | hy
  · have hfirst := @exactOut_le pool baseToken a
    have hsecond := @exactOut_le (pool.moved baseToken a) baseToken b
    rw [reserves_moved] at hsecond
    omega
  have hquotes := @ConstantProduct.quote_add_quote_le 100000 (100000 - pool.fee)
    (pool.reserves baseToken).1 (pool.reserves baseToken).2 a b (by omega) (by omega) hx
  -- away from the three zero tests an output is the quote; at an input of zero the quote is zero
  have hquote : ∀ n, pool.exactOut baseToken n = ConstantProduct.quote 100000 (100000 - pool.fee)
      (pool.reserves baseToken).1 (pool.reserves baseToken).2 n := by
    intro n
    rw [exactOut_eq]
    split
    · rename_i hzero
      obtain rfl : n = 0 := by omega
      simp [ConstantProduct.quote]
    · rfl
  rw [hquote a, hquote (a + b)]
  apply Nat.le_trans (Nat.add_le_add_left _ _) hquotes
  rw [exactOut_eq, reserves_moved, fee_moved, hquote a]
  split
  · exact Nat.zero_le _
  · exact Nat.le_refl _

/-- The outputs of the parts in exact numbers. -/
def exactOuts (baseToken : Address) (pool : UniswapV2Pool) : List Nat → List Nat
  | [] => []
  | a :: amounts =>
    pool.exactOut baseToken a :: exactOuts baseToken (pool.moved baseToken a) amounts

theorem sum_exactOuts_le (amounts : List Nat) (hx : 0 < (pool.reserves baseToken).1) :
    (pool.exactOuts baseToken amounts).sum ≤ pool.exactOut baseToken amounts.sum := by
  induction amounts generalizing pool with
  | nil => exact Nat.zero_le _
  | cons a amounts ih =>
    have hrest := @ih (pool.moved baseToken a) (by rw [reserves_moved]; exact Nat.add_pos_left hx a)
    simp only [exactOuts, List.sum_cons]
    exact (Nat.add_le_add_left hrest _).trans (exactOut_add_exactOut_le hx)

/-- As long as the pair would take all the parts, each of their swaps is exact. -/
theorem simulateSwapsMut_eq {amounts : List U256} (h : pool.Legal)
    (hfits : pool.Fits baseToken (amounts.map (·.toNat)).sum) :
    ∃ outs pool', simulateSwapsMut prof baseToken pool amounts = .ok (outs, pool') ∧
      outs.map (·.toNat) = pool.exactOuts baseToken (amounts.map (·.toNat)) := by
  induction amounts generalizing pool with
  | nil => exact ⟨[], pool, rfl, rfl⟩
  | cons amountIn amounts ih =>
    unfold Fits at hfits
    rw [List.map_cons, List.sum_cons] at hfits
    have hfirst : pool.Fits baseToken amountIn.toNat := by
      unfold Fits
      omega
    obtain ⟨out, hexact⟩ := @exactSwap prof _ _ _ h hfirst
    have hrest : (pool.moved baseToken amountIn.toNat).Fits baseToken
        (amounts.map (·.toNat)).sum := by
      unfold Fits
      rw [reserves_moved]
      dsimp only
      omega
    obtain ⟨outs, pool', hrun, houts⟩ := ih (h.moved hfirst) hrest
    refine ⟨out :: outs, pool', ?_, ?_⟩
    · rw [simulateSwapsMut, hexact.returns, ok_bind]
      dsimp only
      rw [hrun]
      rfl
    · rw [List.map_cons, List.map_cons, exactOuts, houts, hexact.exact]

/-- **Selling in parts pays no more.** Where the pair would take the whole order and has something
of the token that is sold, swapping its parts one after the other succeeds, and the outputs are
together at most what one swap of the whole order returns. -/
theorem simulateSwapsMut_le (prof : BuildProfile) (pool : UniswapV2Pool) (h : pool.Legal)
    (baseToken : Address) (hx : 0 < (pool.reserves baseToken).1) (amounts : List U256)
    (hfits : pool.Fits baseToken (amounts.map (·.toNat)).sum) :
    ∃ outs pool' out, simulateSwapsMut prof baseToken pool amounts = .ok (outs, pool') ∧
      pool.simulateSwap baseToken (BitVec.ofNat 256 (amounts.map (·.toNat)).sum) = .ok out ∧
      (outs.map (·.toNat)).sum ≤ out.toNat := by
  obtain ⟨outs, pool', hrun, houts⟩ := @simulateSwapsMut_eq prof _ _ _ h hfits
  unfold Fits at hfits
  have hsum : (BitVec.ofNat 256 (amounts.map (·.toNat)).sum).toNat =
      (amounts.map (·.toNat)).sum := by
    rw [BitVec.toNat_ofNat, Nat.mod_eq_of_lt (by omega)]
  refine ⟨outs, pool', _, hrun, simulateSwap_eq h (by rw [hsum]; omega), ?_⟩
  have hle := @exactOut_le pool baseToken (amounts.map (·.toNat)).sum
  have hlt := (@Legal.reserves_lt _ baseToken h).2
  rw [houts, hsum, BitVec.toNat_ofNat, Nat.mod_eq_of_lt (by omega)]
  exact sum_exactOuts_le _ hx

theorem simulateSwapsMut_le_evenPool :
    ∃ outs pool' out, simulateSwapsMut ⟨true⟩ 3 evenPool [100#256, 0#256, 50#256] =
        .ok (outs, pool') ∧
      evenPool.simulateSwap 3 (BitVec.ofNat 256 (([100#256, 0#256, 50#256].map (·.toNat)).sum)) =
        .ok out ∧
      (outs.map (·.toNat)).sum ≤ out.toNat :=
  simulateSwapsMut_le ⟨true⟩ evenPool legal_evenPool 3 (by decide) [100#256, 0#256, 50#256]
    (by unfold Fits; decide)

end UniswapV2Pool

end ArbitrageBot
