import ArbitrageBot.Execution.Executor

/-!
# Bounds of the fee plan

The fee that a plan allows is the larger of the default fee and the fee that the profit pays for,
cut at the cap of the profit's tier. The hard cap of the configuration takes no part in it.
-/

namespace ArbitrageBot.Execution

/-- `ExecutorConfig::default()`. -/
def ExecutorConfig.default : ExecutorConfig where
  slippageMillionths := 100000
  gasLimit := 600000000
  defaultPriorityFeeWei := 100000
  globalFeeHardCapWei := 500000000
  includeGasCostInMinOut := true
  enforceNonLoss := true

/-- The gas limit for a number of hops. -/
def ExecutorConfig.gasLimitFor (config : ExecutorConfig) (hops : Nat) : Nat :=
  if hops = 4 then 750000000 else if hops = 2 then 450000000 else config.gasLimit

/-- What the plan for a profit promises. -/
structure FeePlan.Bounded (plan : FeePlan) (config : ExecutorConfig) (netExpected : U256) :
    Prop where
  hardCap : plan.maxFeePerGasWei ≤ config.globalFeeHardCapWei
  priority_le : plan.maxPriorityFeePerGasWei ≤ plan.maxFeePerGasWei
  base_add_priority_le : plan.baseFeeWei ≤ plan.maxFeePerGasWei →
    plan.baseFeeWei + plan.maxPriorityFeePerGasWei ≤ plan.maxFeePerGasWei
  spending : config.defaultPriorityFeeWei + plan.baseFeeWei ≤ plan.totalCapFromProfit →
    2 * (plan.gasLimit * plan.maxFeePerGasWei) ≤ 3 * netExpected.toNat

/-- A profit whose plan stays below the hard cap: its tier does, or the default fee and what the
profit pays for a unit of gas do. A profit over 128 bits counts as none. -/
def KeepsHardCap (config : ExecutorConfig) (hops : Nat) (netExpected : U256) : Prop :=
  (netExpected.toNat < 1000000000000000000 ∧ 500000000 ≤ config.globalFeeHardCapWei) ∨
  (netExpected.toNat < 5000000000000000000 ∧ 3000000000 ≤ config.globalFeeHardCapWei) ∨
  U128_MAX ≤ config.globalFeeHardCapWei ∨
  (MANTLE_BASE_FEE_WEI + config.defaultPriorityFeeWei ≤ config.globalFeeHardCapWei ∧
    (netExpected.toNat < 2 ^ 128 →
      if netExpected.toNat < 100000000000000000 then
        3 * (netExpected.toNat / config.gasLimitFor hops) / 2 ≤ config.globalFeeHardCapWei
      else netExpected.toNat / config.gasLimitFor hops ≤ config.globalFeeHardCapWei))

section

variable (config : ExecutorConfig) (hops : Nat) (netExpected : U256)

theorem computeFeePlan_gasLimit :
    (computeFeePlan config hops netExpected).gasLimit = config.gasLimitFor hops := by
  unfold computeFeePlan ExecutorConfig.gasLimitFor
  split <;> simp_all

/-- The fee that the profit pays for. -/
theorem computeFeePlan_totalCap :
    (computeFeePlan config hops netExpected).totalCapFromProfit =
      if netExpected.toNat < 100000000000000000 then
        3 * (netExpected.toNat / config.gasLimitFor hops) / 2
      else if netExpected.toNat < 2 ^ 128 then netExpected.toNat / config.gasLimitFor hops
      else 0 := by
  have hgas := computeFeePlan_gasLimit config hops netExpected
  unfold computeFeePlan at hgas ⊢
  dsimp only at hgas ⊢
  rw [hgas]
  generalize config.gasLimitFor hops = gasLimit
  have hpaid : (if gasLimit > 0 then
      (if netExpected.toNat < 2 ^ 128 then netExpected.toNat else 0) / gasLimit else 0) =
      (if netExpected.toNat < 2 ^ 128 then netExpected.toNat else 0) / gasLimit := by
    split
    · rfl
    · rename_i hzero
      rw [Nat.eq_zero_of_not_pos hzero, Nat.div_zero]
  rw [hpaid]
  by_cases hsmall : netExpected.toNat < 100000000000000000
  · have hlt : netExpected.toNat < 2 ^ 128 := by omega
    have hle := Nat.div_le_self netExpected.toNat gasLimit
    simp only [hsmall, hlt, decide_true, and_true, if_true]
    unfold U128_MAX
    split <;> omega
  · simp only [hsmall, decide_false, Bool.false_eq_true, and_false, if_false]
    split
    · rfl
    · exact Nat.zero_div _

/-- The fee is the larger of the default one and the one the profit pays for, up to the caps. -/
theorem computeFeePlan_maxFee :
    (computeFeePlan config hops netExpected).maxFeePerGasWei =
      min (min (max (MANTLE_BASE_FEE_WEI + config.defaultPriorityFeeWei)
          (computeFeePlan config hops netExpected).totalCapFromProfit) U128_MAX)
        (computeFeePlan config hops netExpected).effectiveGlobalCapWei := by
  have hplan : (computeFeePlan config hops netExpected).maxFeePerGasWei =
      min (min (MANTLE_BASE_FEE_WEI + max config.defaultPriorityFeeWei
        ((computeFeePlan config hops netExpected).totalCapFromProfit - MANTLE_BASE_FEE_WEI))
          U128_MAX) (computeFeePlan config hops netExpected).effectiveGlobalCapWei := rfl
  rw [hplan]
  congr 2
  omega

theorem computeFeePlan_effectiveCap :
    (computeFeePlan config hops netExpected).effectiveGlobalCapWei =
      if netExpected.toNat < 1000000000000000000 then 500000000
      else if netExpected.toNat < 5000000000000000000 then 3000000000
      else U128_MAX := rfl

/-- The fee stays below the hard cap exactly where its tier, or what the profit pays, keeps it
there. -/
theorem computeFeePlan_hardCap_iff :
    (computeFeePlan config hops netExpected).maxFeePerGasWei ≤ config.globalFeeHardCapWei ↔
      KeepsHardCap config hops netExpected := by
  rw [computeFeePlan_maxFee, computeFeePlan_effectiveCap, computeFeePlan_totalCap]
  unfold KeepsHardCap
  simp only [min_le_iff, max_le_iff]
  by_cases hsmall : netExpected.toNat < 100000000000000000
  · have hlt : netExpected.toNat < 2 ^ 128 := by omega
    have htier : netExpected.toNat < 1000000000000000000 := by omega
    simp only [hsmall, hlt, htier, if_true, true_imp_iff, true_and]
    omega
  · simp only [hsmall, if_false]
    by_cases hlt : netExpected.toNat < 2 ^ 128
    · simp only [hlt, if_true, true_imp_iff]
      split <;> [skip; split] <;> omega
    · simp only [hlt, if_false, false_imp_iff, and_true]
      split <;> [skip; split] <;> omega

/-- What is spent at the fee that the profit pays for stays within 3/2 of the profit. -/
theorem computeFeePlan_spending
    (hpays : config.defaultPriorityFeeWei + MANTLE_BASE_FEE_WEI ≤
      (computeFeePlan config hops netExpected).totalCapFromProfit) :
    2 * ((computeFeePlan config hops netExpected).gasLimit *
      (computeFeePlan config hops netExpected).maxFeePerGasWei) ≤ 3 * netExpected.toNat := by
  have hfee : (computeFeePlan config hops netExpected).maxFeePerGasWei ≤
      (computeFeePlan config hops netExpected).totalCapFromProfit := by
    rw [computeFeePlan_maxFee]
    omega
  rw [computeFeePlan_gasLimit]
  have hpaid : 2 * (computeFeePlan config hops netExpected).totalCapFromProfit ≤
      3 * (netExpected.toNat / config.gasLimitFor hops) := by
    rw [computeFeePlan_totalCap]
    split
    · omega
    · split <;> omega
  calc 2 * (config.gasLimitFor hops * (computeFeePlan config hops netExpected).maxFeePerGasWei)
      = config.gasLimitFor hops *
          (2 * (computeFeePlan config hops netExpected).maxFeePerGasWei) := by
        ring
    _ ≤ config.gasLimitFor hops * (3 * (netExpected.toNat / config.gasLimitFor hops)) := by
        apply Nat.mul_le_mul_left
        omega
    _ = 3 * (config.gasLimitFor hops * (netExpected.toNat / config.gasLimitFor hops)) := by ring
    _ ≤ 3 * netExpected.toNat := by
        apply Nat.mul_le_mul_left
        exact Nat.mul_div_le ..

end

/-- **A fee plan keeps its bounds exactly when it happens to stay below the hard cap.** -/
theorem computeFeePlan_bounded_iff (config : ExecutorConfig) (hops : Nat) (netExpected : U256) :
    (computeFeePlan config hops netExpected).Bounded config netExpected ↔
      KeepsHardCap config hops netExpected := by
  rw [← computeFeePlan_hardCap_iff]
  constructor
  · exact FeePlan.Bounded.hardCap
  · intro hcap
    have hpriority : (computeFeePlan config hops netExpected).maxPriorityFeePerGasWei ≤
        (computeFeePlan config hops netExpected).maxFeePerGasWei - MANTLE_BASE_FEE_WEI :=
      Nat.min_le_right ..
    refine ⟨hcap, by omega, fun hbase => ?_, computeFeePlan_spending config hops netExpected⟩
    have hmantle : (computeFeePlan config hops netExpected).baseFeeWei = MANTLE_BASE_FEE_WEI := rfl
    omega

/-- Two hops and a profit of 2 MNT: the plan allows 3 gwei over the default hard cap of 0.5 gwei. -/
theorem default_exceeds_hardCap :
    ¬ (computeFeePlan .default 2 2000000000000000000).Bounded .default 2000000000000000000 := by
  intro h
  exact absurd h.hardCap (by decide)

end ArbitrageBot.Execution
