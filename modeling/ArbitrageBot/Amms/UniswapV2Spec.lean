import ArbitrageBot.Amms.UniswapV2
import ArbitrageBot.Lib.ConstantProduct
import Mathlib.Logic.Relation

/-!
# Uniswap V2 pools: swaps are exact

As long as the reserves are 112-bit numbers no operation of a swap wraps: the output is the
constant-product quote, rounded down, the reserves move by the input and the output, and their
product does not decrease over any run of swaps.
-/

namespace ArbitrageBot.UniswapV2Pool

open Lib

/-- The reserves of the token that is sold and of the token that is bought. -/
def reserves (pool : UniswapV2Pool) (baseToken : Address) : Nat × Nat :=
  if pool.tokenA.address = baseToken then (pool.reserve0, pool.reserve1)
  else (pool.reserve1, pool.reserve0)

/-- The output in exact numbers. -/
def exactOut (pool : UniswapV2Pool) (baseToken : Address) (a : Nat) : Nat :=
  let (reserveIn, reserveOut) := pool.reserves baseToken
  if a = 0 ∨ reserveIn = 0 ∨ reserveOut = 0 then 0
  else a * (100000 - pool.fee) * reserveOut / (reserveIn * 100000 + a * (100000 - pool.fee))

/-- The exact results of the 256-bit operations of a swap, in order, and of the 128-bit ones. -/
def operations (pool : UniswapV2Pool) (baseToken : Address) (a : Nat) : List Int × List Int :=
  let (reserveIn, reserveOut) := pool.reserves baseToken
  let fee : Int := 100000 - pool.fee
  ([fee, a * fee, a * fee * reserveOut, reserveIn * 100000, reserveIn * 100000 + a * fee],
    [a, reserveIn + a, pool.exactOut baseToken a, reserveOut - pool.exactOut baseToken a])

/-- No operation wraps or panics. -/
def NoWrap (pool : UniswapV2Pool) (baseToken : Address) (a : Nat) : Prop :=
  (∀ x ∈ (pool.operations baseToken a).1, 0 ≤ x ∧ x < 2 ^ 256) ∧
  ∀ x ∈ (pool.operations baseToken a).2, 0 ≤ x ∧ x < 2 ^ 128

/-- Reserves as `Sync` reports them, and a legal fee. -/
structure Legal (pool : UniswapV2Pool) : Prop where
  fee_le : pool.fee ≤ 100000
  reserve0_lt : pool.reserve0 < 2 ^ 112
  reserve1_lt : pool.reserve1 < 2 ^ 112

variable {prof : BuildProfile} {pool pool' : UniswapV2Pool} {baseToken : Address}
  {amountIn out : U256} {x y a : Nat}

theorem getAmountOut_eq (hfee : pool.fee ≤ 100000) (ha : a < 2 ^ 112) (hx : x < 2 ^ 112)
    (hy : y < 2 ^ 112) :
    pool.getAmountOut (BitVec.ofNat 256 a) (BitVec.ofNat 256 x) (BitVec.ofNat 256 y) =
      .ok (BitVec.ofNat 256 (if a = 0 ∨ x = 0 ∨ y = 0 then 0
        else ConstantProduct.quote 100000 (100000 - pool.fee) x y a)) := by
  have hzero : ∀ {n : Nat}, n < 2 ^ 112 → (BitVec.ofNat 256 n = 0 ↔ n = 0) := by
    intro n hn
    rw [← BitVec.toNat_inj, BitVec.toNat_ofNat, Nat.mod_eq_of_lt (by omega)]
    rfl
  unfold getAmountOut
  simp only [hzero ha, hzero hx, hzero hy]
  by_cases hnone : a = 0 ∨ x = 0 ∨ y = 0
  · rw [if_pos hnone, if_pos hnone]
    rfl
  · rw [if_neg hnone, if_neg hnone]
    have hD : U256_100000.toNat = 100000 := rfl
    have hfee' : (U256_100000 - BitVec.ofNat 256 pool.fee).toNat = 100000 - pool.fee := by
      rw [BitVec.toNat_sub, hD, BitVec.toNat_ofNat]
      omega
    have hin : a * (100000 - pool.fee) < 2 ^ 112 * 2 ^ 17 :=
      Nat.mul_lt_mul'' ha (by omega)
    have hnum : a * (100000 - pool.fee) * y < 2 ^ 112 * 2 ^ 17 * 2 ^ 112 :=
      Nat.mul_lt_mul'' hin hy
    have hamount : (BitVec.ofNat 256 a * (U256_100000 - BitVec.ofNat 256 pool.fee)).toNat =
        a * (100000 - pool.fee) := by
      rw [BitVec.toNat_mul, hfee', BitVec.toNat_ofNat, Nat.mod_eq_of_lt (by omega : a < 2 ^ 256),
        Nat.mod_eq_of_lt (by omega)]
    have hnumerator : (BitVec.ofNat 256 a * (U256_100000 - BitVec.ofNat 256 pool.fee) *
        BitVec.ofNat 256 y).toNat = a * (100000 - pool.fee) * y := by
      rw [BitVec.toNat_mul, hamount, BitVec.toNat_ofNat, Nat.mod_eq_of_lt (by omega : y < 2 ^ 256),
        Nat.mod_eq_of_lt (by omega)]
    have hdenominator : (BitVec.ofNat 256 x * U256_100000 +
        BitVec.ofNat 256 a * (U256_100000 - BitVec.ofNat 256 pool.fee)).toNat =
          x * 100000 + a * (100000 - pool.fee) := by
      rw [BitVec.toNat_add, hamount, BitVec.toNat_mul, hD, BitVec.toNat_ofNat,
        Nat.mod_eq_of_lt (by omega : x < 2 ^ 256), Nat.mod_eq_of_lt (by omega : x * 100000 < _),
        Nat.mod_eq_of_lt (by omega)]
    rw [if_neg]
    · apply congrArg Except.ok
      apply BitVec.eq_of_toNat_eq
      have hle : ConstantProduct.quote 100000 (100000 - pool.fee) x y a ≤ y :=
        ConstantProduct.quote_le
      rw [BitVec.toNat_udiv, hnumerator, hdenominator, BitVec.toNat_ofNat,
        Nat.mod_eq_of_lt (by omega : ConstantProduct.quote _ _ _ _ _ < 2 ^ 256)]
      rfl
    · intro hdiv
      have := congrArg BitVec.toNat hdiv
      rw [hdenominator] at this
      have hpos : (0 : U256).toNat = 0 := rfl
      omega

theorem exactOut_eq : pool.exactOut baseToken a =
    if a = 0 ∨ (pool.reserves baseToken).1 = 0 ∨ (pool.reserves baseToken).2 = 0 then 0
    else ConstantProduct.quote 100000 (100000 - pool.fee) (pool.reserves baseToken).1
      (pool.reserves baseToken).2 a := rfl

theorem exactOut_le : pool.exactOut baseToken a ≤ (pool.reserves baseToken).2 := by
  rw [exactOut_eq]
  split
  · exact Nat.zero_le _
  · exact ConstantProduct.quote_le

/-- No swap empties a pool. -/
theorem exactOut_lt (h : 0 < (pool.reserves baseToken).2) :
    pool.exactOut baseToken a < (pool.reserves baseToken).2 := by
  rw [exactOut_eq]
  split
  · exact h
  · rename_i hsome
    exact ConstantProduct.quote_lt (by omega) (by omega) h

theorem mul_le_mul_exactOut :
    (pool.reserves baseToken).1 * (pool.reserves baseToken).2 ≤
      ((pool.reserves baseToken).1 + a) *
        ((pool.reserves baseToken).2 - pool.exactOut baseToken a) := by
  rw [exactOut_eq]
  split
  · rw [Nat.sub_zero]
    exact Nat.mul_le_mul_right _ (Nat.le_add_right _ a)
  · exact ConstantProduct.mul_le_mul_quote (Nat.sub_le _ _)

theorem Legal.reserves_lt (h : pool.Legal) :
    (pool.reserves baseToken).1 < 2 ^ 112 ∧ (pool.reserves baseToken).2 < 2 ^ 112 := by
  unfold reserves
  split
  · exact ⟨h.reserve0_lt, h.reserve1_lt⟩
  · exact ⟨h.reserve1_lt, h.reserve0_lt⟩

/-- `a` fits on top of the reserve of the token that is sold, as the pair enforces. -/
def Fits (pool : UniswapV2Pool) (baseToken : Address) (a : Nat) : Prop :=
  (pool.reserves baseToken).1 + a < 2 ^ 112

/-- The pool after an exact swap. -/
def moved (pool : UniswapV2Pool) (baseToken : Address) (a : Nat) : UniswapV2Pool :=
  if pool.tokenA.address = baseToken then
    { pool with
      reserve0 := pool.reserve0 + a
      reserve1 := pool.reserve1 - pool.exactOut baseToken a }
  else
    { pool with
      reserve0 := pool.reserve0 - pool.exactOut baseToken a
      reserve1 := pool.reserve1 + a }

theorem simulateSwap_eq (h : pool.Legal) (hin : amountIn.toNat < 2 ^ 112) :
    pool.simulateSwap baseToken amountIn =
      .ok (BitVec.ofNat 256 (pool.exactOut baseToken amountIn.toNat)) := by
  have hword : amountIn = BitVec.ofNat 256 amountIn.toNat := by simp
  unfold simulateSwap exactOut reserves
  rw [hword, BitVec.toNat_ofNat, Nat.mod_eq_of_lt (by omega)]
  split
  · exact getAmountOut_eq h.fee_le hin h.reserve0_lt h.reserve1_lt
  · exact getAmountOut_eq h.fee_le hin h.reserve1_lt h.reserve0_lt

/-- **One swap is exact**: the output of the quote, and the reserves moved by both amounts. -/
theorem simulateSwapMut_eq (h : pool.Legal) (hin : amountIn.toNat < 2 ^ 112) :
    pool.simulateSwapMut prof baseToken amountIn =
      .ok (BitVec.ofNat 256 (pool.exactOut baseToken amountIn.toNat),
        pool.moved baseToken amountIn.toNat) := by
  have hx := (@Legal.reserves_lt _ baseToken h).1
  have hswap := @simulateSwap_eq _ baseToken _ h hin
  have hle := @exactOut_le pool baseToken amountIn.toNat
  have hlt := (@Legal.reserves_lt _ baseToken h).2
  have hout : (BitVec.ofNat 256 (pool.exactOut baseToken amountIn.toNat)).toNat =
      pool.exactOut baseToken amountIn.toNat := by
    rw [BitVec.toNat_ofNat, Nat.mod_eq_of_lt (by omega)]
  have hcast : (castU128 (BitVec.ofNat 256 (pool.exactOut baseToken amountIn.toNat)) :
      Outcome AMMError Nat) = .ok (pool.exactOut baseToken amountIn.toNat) := by
    rw [castU128_of_lt (by omega), hout]
  have hcast' : (castU128 amountIn : Outcome AMMError Nat) = .ok amountIn.toNat :=
    castU128_of_lt (by omega)
  unfold simulateSwap at hswap
  unfold simulateSwapMut moved
  unfold reserves at hx hle hlt
  by_cases htoken : pool.tokenA.address = baseToken
  · rw [if_pos htoken] at hswap hx hle hlt ⊢
    rw [if_pos htoken, hswap, ok_bind, hcast', ok_bind, BuildProfile.unsigned_of_range (by omega)
      (by push_cast; omega), ok_bind, hcast, ok_bind, BuildProfile.unsigned_of_range (by omega)
      (by omega), ok_bind, Int.toNat_sub]
    rfl
  · rw [if_neg htoken] at hswap hx hle hlt ⊢
    rw [if_neg htoken, hswap, ok_bind, hcast, ok_bind, BuildProfile.unsigned_of_range (by omega)
      (by omega), ok_bind, hcast', ok_bind, BuildProfile.unsigned_of_range (by omega)
      (by push_cast; omega), ok_bind, Int.toNat_sub]
    rfl

/-- No operation of a swap wraps. -/
theorem noWrap (h : pool.Legal) (hfits : pool.Fits baseToken a) : pool.NoWrap baseToken a := by
  have hfee := h.fee_le
  obtain ⟨hx, hy⟩ := @Legal.reserves_lt _ baseToken h
  have hle := @exactOut_le pool baseToken a
  unfold Fits at hfits
  unfold NoWrap operations
  generalize pool.exactOut baseToken a = out at hle ⊢
  generalize pool.reserves baseToken = r at *
  obtain ⟨x, y⟩ := r
  dsimp only at hx hy hfits hle
  have hin : a * (100000 - pool.fee) < 2 ^ 112 * 2 ^ 17 := Nat.mul_lt_mul'' (by omega) (by omega)
  have hnum : a * (100000 - pool.fee) * y < 2 ^ 112 * 2 ^ 17 * 2 ^ 112 := Nat.mul_lt_mul'' hin hy
  have hcast : (100000 : Int) - pool.fee = ((100000 - pool.fee : Nat) : Int) := by omega
  simp only [List.forall_mem_cons, List.not_mem_nil, false_implies, implies_true, and_true]
  rw [hcast, ← Nat.cast_mul, ← Nat.cast_mul]
  generalize a * (100000 - pool.fee) * y = numerator at hnum ⊢
  generalize a * (100000 - pool.fee) = amount at hin ⊢
  omega

/-- A swap keeps the pool legal. -/
theorem Legal.moved (h : pool.Legal) (hfits : pool.Fits baseToken a) :
    (pool.moved baseToken a).Legal := by
  have h0 := h.reserve0_lt
  have h1 := h.reserve1_lt
  unfold Fits reserves at hfits
  unfold UniswapV2Pool.moved
  split
  · rename_i htoken
    rw [if_pos htoken] at hfits
    exact ⟨h.fee_le, hfits, Nat.lt_of_le_of_lt (Nat.sub_le _ _) h1⟩
  · rename_i htoken
    rw [if_neg htoken] at hfits
    exact ⟨h.fee_le, Nat.lt_of_le_of_lt (Nat.sub_le _ _) h0, hfits⟩

/-- A swap that the on-chain pair would take: the state after a call of `simulate_swap_mut`. -/
def Swapped (prof : BuildProfile) (pool pool' : UniswapV2Pool) : Prop :=
  ∃ baseToken amountIn out, pool.Fits baseToken amountIn.toNat ∧
    pool.simulateSwapMut prof baseToken amountIn = .ok (out, pool')

/-- What a call of `simulate_swap_mut` does on a pool, exactly. -/
structure ExactSwap (prof : BuildProfile) (pool : UniswapV2Pool) (baseToken : Address)
    (amountIn : U256) (out : U256) (pool' : UniswapV2Pool) : Prop where
  returns : pool.simulateSwapMut prof baseToken amountIn = .ok (out, pool')
  exact : out.toNat = pool.exactOut baseToken amountIn.toNat
  pure : pool.simulateSwap baseToken amountIn = .ok out
  out_le : out.toNat ≤ (pool.reserves baseToken).2
  out_lt : 0 < (pool.reserves baseToken).2 → out.toNat < (pool.reserves baseToken).2
  noWrap : pool.NoWrap baseToken amountIn.toNat
  reserves_eq : pool'.reserves baseToken =
    ((pool.reserves baseToken).1 + amountIn.toNat, (pool.reserves baseToken).2 - out.toNat)
  product_le : pool.reserve0 * pool.reserve1 ≤ pool'.reserve0 * pool'.reserve1

theorem exactSwap (h : pool.Legal) (hfits : pool.Fits baseToken amountIn.toNat) :
    ∃ out, pool.ExactSwap prof baseToken amountIn out (pool.moved baseToken amountIn.toNat) := by
  have hin : amountIn.toNat < 2 ^ 112 := by
    unfold Fits at hfits
    omega
  have hle := @exactOut_le pool baseToken amountIn.toNat
  have hlt := (@Legal.reserves_lt _ baseToken h).2
  have hout : (BitVec.ofNat 256 (pool.exactOut baseToken amountIn.toNat)).toNat =
      pool.exactOut baseToken amountIn.toNat := by
    rw [BitVec.toNat_ofNat, Nat.mod_eq_of_lt (by omega)]
  refine ⟨_, simulateSwapMut_eq h hin, hout, simulateSwap_eq h hin, ?_, ?_, noWrap h hfits, ?_, ?_⟩
  · rw [hout]
    exact hle
  · intro hpos
    rw [hout]
    exact exactOut_lt hpos
  · rw [hout]
    unfold moved
    generalize pool.exactOut baseToken amountIn.toNat = out
    unfold reserves
    split
    · rfl
    · rfl
  · have hproduct := @mul_le_mul_exactOut pool baseToken amountIn.toNat
    unfold moved
    generalize pool.exactOut baseToken amountIn.toNat = out at hproduct ⊢
    unfold reserves at hproduct
    split
    · rename_i htoken
      rw [if_pos htoken] at hproduct
      exact hproduct
    · rename_i htoken
      rw [if_neg htoken] at hproduct
      rw [Nat.mul_comm, Nat.mul_comm (pool.reserve0 - out)]
      exact hproduct

/-- A run of swaps keeps the pool legal, and the product of its reserves does not decrease. -/
theorem Legal.run (h : pool.Legal) (hrun : Relation.ReflTransGen (Swapped prof) pool pool') :
    pool'.Legal ∧ pool.reserve0 * pool.reserve1 ≤ pool'.reserve0 * pool'.reserve1 := by
  induction hrun with
  | refl => exact ⟨h, Nat.le_refl _⟩
  | tail _ hstep ih =>
    obtain ⟨hlegal, hproduct⟩ := ih
    obtain ⟨baseToken, amountIn, out, hfits, hswap⟩ := hstep
    obtain ⟨out', hexact⟩ := @exactSwap prof _ _ _ hlegal hfits
    rw [hexact.returns] at hswap
    cases hswap
    exact ⟨hlegal.moved hfits, hproduct.trans hexact.product_le⟩

/-- **Swaps are exact over every run**: from a legal pool, after any swaps that the pair would take,
the next one returns the rounded quote of the state it sees, and no product of reserves on the way
is below an earlier one. -/
theorem simulateSwapMut_exact (prof : BuildProfile) (pool : UniswapV2Pool) (h : pool.Legal)
    (pool' : UniswapV2Pool) (hrun : Relation.ReflTransGen (Swapped prof) pool pool')
    (baseToken : Address) (amountIn : U256) (hfits : pool'.Fits baseToken amountIn.toNat) :
    (∃ out pool'', pool'.ExactSwap prof baseToken amountIn out pool'') ∧
      pool.reserve0 * pool.reserve1 ≤ pool'.reserve0 * pool'.reserve1 := by
  obtain ⟨hlegal, hproduct⟩ := h.run hrun
  obtain ⟨out, hexact⟩ := @exactSwap prof _ _ _ hlegal hfits
  exact ⟨⟨out, _, hexact⟩, hproduct⟩

/-- A pool without fee, and what is left of it after a swap of 100. -/
def evenPool : UniswapV2Pool := ⟨1, ⟨2, 18⟩, ⟨3, 18⟩, 1000, 1000, 0⟩

theorem legal_evenPool : evenPool.Legal := ⟨by decide, by decide, by decide⟩

theorem simulateSwapMut_exact_evenPool :
    (∃ out pool'', (evenPool.moved 2 100).ExactSwap ⟨true⟩ 3 50#256 out pool'') ∧
      evenPool.reserve0 * evenPool.reserve1 ≤
        (evenPool.moved 2 100).reserve0 * (evenPool.moved 2 100).reserve1 :=
  simulateSwapMut_exact ⟨true⟩ evenPool legal_evenPool (evenPool.moved 2 100)
    (.single ⟨2, 100#256, _, by unfold Fits; decide,
      simulateSwapMut_eq legal_evenPool (by decide)⟩)
    3 50#256 (by unfold Fits; decide)

end ArbitrageBot.UniswapV2Pool
