import ArbitrageBot.Contracts.Executor
import ArbitrageBot.Execution.Executor

/-!
# The executor's call against the contract

The contract reads the state that it expects of a pool by the pool's type. `execute` sends the
reserves of two-token pairs under the type of concentrated-liquidity pools, so that the contract
asks a pair for `slot0`, which it does not have.
-/

namespace ArbitrageBot.Execution

open Lib
open ArbitrageBot.Executor (Ext POOL_TYPE_V2 POOL_TYPE_V3)

/-- What pairs answer to views, with what the provider has served: their reserves and their first
token. Nothing else is asked of a pair on the way to its swap. -/
def pairAnswer (provider : Provider) : {β : Type} → Ext β → Option β
  | _, .getReserves pool =>
    (provider.getReserves pool).map fun reserves =>
      (reserves.1.setWidth 256, reserves.2.setWidth 256)
  | _, .token0 pool => provider.token0 pool
  | _, _ => none

/-- The contract accepts a call, and swaps at every pool of it as at a pair, for the pool's own
output. -/
structure Accepted (provider : Provider) (c : ExecutorCall) : Prop where
  validated : (ArbitrageBot.Executor.validateStates c.pools c.poolTypes c.expectedStates).view
    (pairAnswer provider) = some ()
  swaps : ∀ i : Nat, i < c.pools.length → ∀ pool poolType expectedOut,
    c.pools[i]? = some pool → c.poolTypes[i]? = some poolType →
    c.amountsOut[i]? = some expectedOut →
    ∀ self amountIn tokenIn tokenOut nextPool nextPoolType, ∃ recipient,
      ArbitrageBot.Executor.doSwap self amountIn tokenIn tokenOut pool poolType nextPool
        nextPoolType expectedOut =
      ArbitrageBot.Executor.swapV2 pool tokenIn amountIn expectedOut recipient

variable {provider : Provider} {executor : Executor} {opportunity : ArbitrageOpportunity}
  {params : ExecutionParams} {c : ExecutorCall} {pools : List Address}
  {expectedStates : List U256}

/-- A pair under the type of a concentrated-liquidity pool is not validated. -/
theorem validateStates_v3 (hsome : pools ≠ []) :
    (ArbitrageBot.Executor.validateStates pools (List.replicate pools.length POOL_TYPE_V3)
      expectedStates).view (pairAnswer provider) = none := by
  obtain ⟨pool, rest, rfl⟩ := List.exists_cons_of_ne_nil hsome
  unfold ArbitrageBot.Executor.validateStates
  rw [List.length_cons, List.range_succ_eq_map, List.foldlM_cons]
  rfl

/-- What `execute` sends of the parameters. -/
theorem execute_eq_ok (h : executor.execute params = .ok c) :
    c.pools = params.poolAddresses ∧
      c.poolTypes = List.replicate params.poolAddresses.length POOL_TYPE_V3 ∧
      c.expectedStates = params.expectedReservesU112.map (·.setWidth 256) := by
  unfold Executor.execute at h
  dsimp only at h
  split at h
  · cases h
  · split at h
    · cases h
    · split at h
      · cases h
      · cases h
        exact ⟨rfl, rfl, rfl⟩

theorem buildParams_eq_ok (h : executor.buildParams provider opportunity = .ok params) :
    params.poolAddresses = opportunity.path.pools ∧
      (opportunity.path.pools = [] → params.expectedReservesU112 = []) := by
  unfold Executor.buildParams at h
  simp only [bind_eq_ok] at h
  obtain ⟨q, hq, h⟩ := h
  cases h
  refine ⟨rfl, ?_⟩
  intro hnone
  rw [hnone] at hq
  cases hq
  rfl

/-- **The contract accepts the call of an opportunity over pairs exactly when it has no pools.** -/
theorem accepted_iff (hparams : executor.buildParams provider opportunity = .ok params)
    (hcall : executor.execute params = .ok c) :
    Accepted provider c ↔ opportunity.path.pools = [] := by
  obtain ⟨hpools, htypes, hstates⟩ := execute_eq_ok hcall
  obtain ⟨hbuilt, hnone⟩ := buildParams_eq_ok hparams
  rw [hbuilt] at hpools htypes
  constructor
  · intro h
    by_contra hsome
    have hvalidated := h.validated
    rw [hpools, htypes, validateStates_v3 hsome] at hvalidated
    cases hvalidated
  · intro hempty
    rw [hnone hempty] at hstates
    rw [hempty] at hpools htypes
    constructor
    · rw [hpools, htypes, hstates]
      rfl
    · intro i hi
      rw [hpools] at hi
      exact absurd hi (Nat.not_lt_zero i)

/-- Two pairs of the native token (1) and another (2), the second one with the better price for the
native token. -/
def twoPairs : Provider where
  getReserves pool :=
    if pool = 10 then some (1000000, 2000000)
    else if pool = 11 then some (2000000, 2000000) else none
  token0 pool := if pool = 10 ∨ pool = 11 then some 1 else none

def roundTrip : ArbitrageOpportunity where
  optimalInputAmount := 1000
  gasCostMntWei := 0
  netProfitMntWei := 900
  path := ⟨[1, 2, 1], [10, 11]⟩

def plainExecutor : Executor where
  config := ⟨100000, 600000000, 100000, 500000000, false, false⟩
  context := ⟨7, 1⟩

def roundTripParams : ExecutionParams where
  amountIn := 1000
  tokenPath := [1, 2, 1]
  poolAddresses := [10, 11]
  expectedReservesU112 := [1000000, 2000000, 2000000, 2000000]
  stepAmountsOut := [1992, 1984]
  minAmountOut := 1886
  expectedNetProfitMntWei := 900

def roundTripCall : ExecutorCall where
  target := 7
  amountIn := 1000
  path := [1, 2, 1]
  pools := [10, 11]
  poolTypes := [1, 1]
  expectedStates := [1000000, 2000000, 2000000, 2000000]
  amountsOut := [1992, 1983]

theorem buildParams_roundTrip :
    plainExecutor.buildParams twoPairs roundTrip = .ok roundTripParams := by
  rfl

theorem execute_roundTripParams : plainExecutor.execute roundTripParams = .ok roundTripCall := by
  rfl

/-- The call is sent, and the validation reverts at the first pair. -/
theorem roundTripCall_rejected :
    plainExecutor.buildParams twoPairs roundTrip = .ok roundTripParams ∧
      plainExecutor.execute roundTripParams = .ok roundTripCall ∧
      (ArbitrageBot.Executor.validateStates roundTripCall.pools roundTripCall.poolTypes
        roundTripCall.expectedStates).view (pairAnswer twoPairs) = none :=
  ⟨buildParams_roundTrip, execute_roundTripParams, rfl⟩

theorem accepted_iff_roundTrip :
    Accepted twoPairs roundTripCall ↔ roundTrip.path.pools = [] :=
  accepted_iff buildParams_roundTrip execute_roundTripParams

end ArbitrageBot.Execution
