import ArbitrageBot.Execution.FeePlan

/-!
# The non-loss guard of `execute`

The call asks the contract for the input and the gas at the planned fee, unless the profit is small:
then it asks for the parameters' own minimum.
-/

namespace ArbitrageBot.Execution

variable {executor : Executor} {params : ExecutionParams} {c : ExecutorCall}

theorem saturatingAdd_toNat {a b : U256} (h : a.toNat + b.toNat < 2 ^ 256) :
    (saturatingAdd a b).toNat = a.toNat + b.toNat := by
  unfold saturatingAdd
  rw [if_pos h, BitVec.toNat_add, Nat.mod_eq_of_lt h]

/-- The plan that `execute` makes for its parameters. -/
def Executor.planFor (self : Executor) (params : ExecutionParams) : FeePlan :=
  computeFeePlan self.config (params.tokenPath.length - 1) params.netExpected

/-- The most that the gas of a plan costs. -/
def FeePlan.maxGasCost (plan : FeePlan) : Nat :=
  plan.gasLimit * plan.maxFeePerGasWei

/-- Every call that `execute` sends asks for the input and the most that its gas can cost. -/
def CoversGas (executor : Executor) (params : ExecutionParams) : Prop :=
  ∀ c, executor.execute params = .ok c → ∀ last ∈ c.amountsOut.getLast?,
    params.amountIn.toNat + (executor.planFor params).maxGasCost ≤ last.toNat

/-- The last output is lowered by one, but not below what is required. -/
theorem haircutLast_getLast? {outs : List U256} (hne : outs ≠ []) (requiredOut : U256) :
    ∃ last, (haircutLast outs requiredOut).getLast? = some last ∧ requiredOut ≤ last := by
  have hpos := List.length_pos_iff.mpr hne
  unfold haircutLast
  dsimp only
  rw [List.getLast?_eq_getElem?, List.length_set, List.getElem?_set_self (by omega)]
  refine ⟨_, rfl, ?_⟩
  split
  · exact BitVec.le_refl _
  · rename_i hle
    exact BitVec.not_lt.mp hle

/-- What a call asks for at the end. -/
theorem execute_last (h : executor.execute params = .ok c) (hne : params.stepAmountsOut ≠ []) :
    ∃ last, c.amountsOut.getLast? = some last ∧
      params.requiredOut executor.config (executor.planFor params) ≤ last := by
  unfold Executor.execute at h
  dsimp only at h
  split at h
  · cases h
  · split at h
    · cases h
    · split at h
      · cases h
      · cases h
        exact haircutLast_getLast? hne _

/-- **The guard of a call that is sent**: for a profit of at least 0.1 MNT the input and the most
that the gas can cost, where neither sum saturates; for a smaller one the minimum of the parameters.
-/
theorem execute_guarded (hguard : executor.config.includeGasCostInMinOut = true ∨
      executor.config.enforceNonLoss = true)
    (hne : params.stepAmountsOut ≠ []) (h : executor.execute params = .ok c) :
    ∃ last, c.amountsOut.getLast? = some last ∧
      (params.netExpected.toNat < 100000000000000000 → params.minAmountOut ≤ last) ∧
      (100000000000000000 ≤ params.netExpected.toNat →
        (executor.planFor params).maxGasCost ≤ U128_MAX →
        params.amountIn.toNat + (executor.planFor params).maxGasCost < 2 ^ 256 →
        params.amountIn.toNat + (executor.planFor params).maxGasCost ≤ last.toNat) := by
  obtain ⟨last, hlast, hrequired⟩ := execute_last h hne
  have hsmall : (executor.planFor params).isSmallProfit =
      decide (params.netExpected.toNat < 100000000000000000) := rfl
  refine ⟨last, hlast, fun hlt => ?_, fun hprofit hcost hsum => ?_⟩
  · unfold ExecutionParams.requiredOut at hrequired
    simpa [hsmall, hlt] using hrequired
  · have hmin : min (executor.planFor params).maxGasCost U128_MAX =
        (executor.planFor params).maxGasCost := min_eq_left hcost
    have hnat : (BitVec.ofNat 256 (executor.planFor params).maxGasCost).toNat =
        (executor.planFor params).maxGasCost := by
      rw [BitVec.toNat_ofNat, Nat.mod_eq_of_lt]
      omega
    unfold ExecutionParams.requiredOut at hrequired
    dsimp only at hrequired
    rw [if_pos ⟨by simpa using hguard, by simpa [hsmall] using hprofit⟩] at hrequired
    change saturatingAdd params.amountIn
      (BitVec.ofNat 256 (min (executor.planFor params).maxGasCost U128_MAX)) ≤ last at hrequired
    rw [hmin, BitVec.le_def, saturatingAdd_toNat (by rw [hnat]; exact hsum), hnat] at hrequired
    exact hrequired

/-! ## Runs -/

/-- An executor with the default configuration. -/
def guardedExecutor : Executor where
  config := .default
  context := ⟨7, 1⟩

/-- A round trip over two pairs with the given last output and profit. -/
def twoHops (amountIn lastOut netProfit : U256) : ExecutionParams where
  amountIn := amountIn
  tokenPath := [1, 2, 1]
  poolAddresses := [10, 11]
  expectedReservesU112 := [1000000, 2000000, 2000000, 2000000]
  stepAmountsOut := [1992, lastOut]
  minAmountOut := amountIn
  expectedNetProfitMntWei := netProfit

/-- A profit of 1.5 MNT: the call asks for more than the 1 MNT of input and the 1.35 MNT of gas. -/
theorem execute_guarded_twoHops :
    ∃ last, [1992, 2999999999999999999#256].getLast? = some last ∧
      (1500000000000000000 < 100000000000000000 → 1000000000000000000 ≤ last) ∧
      (100000000000000000 ≤ 1500000000000000000 →
        450000000 * 3000000000 ≤ U128_MAX →
        1000000000000000000 + 450000000 * 3000000000 < 2 ^ 256 →
        1000000000000000000 + 450000000 * 3000000000 ≤ last.toNat) :=
  @execute_guarded guardedExecutor
    (twoHops 1000000000000000000 3000000000000000000 1500000000000000000)
    ⟨7, 1000000000000000000, [1, 2, 1], [10, 11], [1, 1], [1000000, 2000000, 2000000, 2000000],
      [1992, 2999999999999999999]⟩
    (Or.inl rfl) (by decide) rfl

/-- An executor whose default fee is far above what 128 bits can pay for its gas limit. -/
def overpricedExecutor : Executor where
  config := { ExecutorConfig.default with
    gasLimit := 2 ^ 63
    defaultPriorityFeeWei := 2 ^ 100 }
  context := ⟨7, 1⟩

/-- With a profit of 0.05 MNT the last output asked for is the input alone. Where the cost of the
gas saturates, or its sum with the input, the last output falls short too. -/
theorem not_coversGas :
    ¬ CoversGas guardedExecutor
      (twoHops 1000000000000000000 1000000000000000000 50000000000000000) ∧
    ¬ CoversGas overpricedExecutor
      { twoHops 0 340282366920938463463374607431768211455 5000000000000000000 with
        tokenPath := [1, 2, 3, 1] } ∧
    ¬ CoversGas guardedExecutor
      (twoHops (BitVec.allOnes 256) (BitVec.allOnes 256) 1000000000000000000) := by
  refine ⟨fun h => ?_, fun h => ?_, fun h => ?_⟩
  · exact absurd (h _ rfl _ rfl) (by decide)
  · exact absurd (h _ rfl _ rfl) (by decide)
  · exact absurd (h _ rfl _ rfl) (by decide)

end ArbitrageBot.Execution
