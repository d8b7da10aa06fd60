import ArbitrageBot.Amms.Machine

/-!
# The executor: from an opportunity to a contract call

`build_params` reads the pairs of a path and computes what each hop pays; `execute` plans the fees,
checks the last output against what is required, and sends the call of `executeArbitrage`.
-/

namespace ArbitrageBot.Execution

/-- `U256::saturating_sub` and `U256::saturating_add`. -/
def saturatingSub (a b : U256) : U256 := if b ≤ a then a - b else 0

def saturatingAdd (a b : U256) : U256 :=
  if a.toNat + b.toNat < 2 ^ 256 then a + b else BitVec.allOnes 256

def U128_MAX : Nat := 2 ^ 128 - 1

/-- The tokens and pools of a path, by address. -/
structure SwapPath where
  tokens : List Address
  pools : List Address

structure ArbitrageOpportunity where
  optimalInputAmount : U256
  gasCostMntWei : U256
  netProfitMntWei : U256
  path : SwapPath

/-- The configuration of the fees and of the checks; the slippage tolerance in millionths, to which
`mul_fraction` scales it. -/
structure ExecutorConfig where
  slippageMillionths : Nat
  gasLimit : Nat
  defaultPriorityFeeWei : Nat
  /-- "Global hard cap for max_fee_per_gas. Prevents overspending even with high profit". -/
  globalFeeHardCapWei : Nat
  includeGasCostInMinOut : Bool
  enforceNonLoss : Bool

structure ExecutionContext where
  executorContract : Address
  wmntAddress : Address

structure Executor where
  config : ExecutorConfig
  context : ExecutionContext

structure ExecutionParams where
  amountIn : U256
  tokenPath : List Address
  poolAddresses : List Address
  expectedReservesU112 : List (BitVec 112)
  stepAmountsOut : List U256
  minAmountOut : U256
  expectedNetProfitMntWei : U256

/-- The calls of the pairs that the provider serves. -/
structure Provider where
  getReserves : Address → Option (BitVec 112 × BitVec 112)
  token0 : Address → Option Address

inductive ExecutionError where
  | contractCall
  /-- "Abort execution: non-loss requirement not satisfied". -/
  | nonLoss
  /-- "Invalid EIP-1559 fees". -/
  | invalidFees
  /-- "Skip execution: expected last-hop out < required". -/
  | skipExecution
  deriving DecidableEq, Repr

/-- `.call().await?`. -/
def awaitCall {α : Type} : Option α → Outcome ExecutionError α
  | some a => .ok a
  | none => .error (.err .contractCall)

/-- `vec[i]`. -/
def index {α : Type} (vec : List α) (i : Nat) : Outcome ExecutionError α :=
  match vec[i]? with
  | some a => .ok a
  | none => .error .panic

/-- `mul_fraction`. -/
def mulFraction (value : U256) (millionths : Nat) : U256 :=
  value * BitVec.ofNat 256 (min millionths 1000000) / 1000000

/-- The output of a pair for an input. -/
def hopOut (amountIn reserveIn reserveOut : U256) : U256 :=
  let numerator := amountIn * 997 * reserveOut
  let denominator := reserveIn * 1000 + amountIn * 997
  if denominator = 0 then 0 else numerator / denominator

/-- What the loop of `build_params` has collected. -/
structure Quotes where
  expectedReserves : List (BitVec 112)
  stepAmountsOut : List U256
  currentAmount : U256

/-- One round of the loop of `build_params`. -/
def quoteHop (provider : Provider) (tokenPath : List Address) (q : Quotes) (hop : Address × Nat) :
    Outcome ExecutionError Quotes := do
  let (pool, i) := hop
  let (reserve0, reserve1) ← awaitCall (provider.getReserves pool)
  let tokenIn ← index tokenPath i
  let _ ← index tokenPath (i + 1)
  let token0 ← awaitCall (provider.token0 pool)
  let (reserveIn, reserveOut) : U256 × U256 :=
    if tokenIn = token0 then (reserve0.setWidth 256, reserve1.setWidth 256)
    else (reserve1.setWidth 256, reserve0.setWidth 256)
  let out := hopOut q.currentAmount reserveIn reserveOut
  return {
    expectedReserves := q.expectedReserves ++ [reserve0, reserve1]
    stepAmountsOut := q.stepAmountsOut ++ [out]
    currentAmount := out }

namespace Executor

variable (self : Executor)

/-- The path with the wrapped native token at both ends. -/
def anchorPath (tokens : List Address) : List Address :=
  (tokens.set 0 self.context.wmntAddress).set (tokens.length - 1) self.context.wmntAddress

def buildParams (provider : Provider) (opportunity : ArbitrageOpportunity) :
    Outcome ExecutionError ExecutionParams := do
  let tokenPath := self.anchorPath opportunity.path.tokens
  let pools := opportunity.path.pools
  let q ← pools.zipIdx.foldlM (quoteHop provider tokenPath)
    ⟨[], [], opportunity.optimalInputAmount⟩
  let expectedProfit := saturatingSub q.currentAmount opportunity.optimalInputAmount
  let slippageAllowance := mulFraction expectedProfit self.config.slippageMillionths
  let minAmountOut := saturatingSub q.currentAmount slippageAllowance
  let requiredOut := saturatingAdd opportunity.optimalInputAmount opportunity.gasCostMntWei
  let minAmountOut :=
    if (self.config.includeGasCostInMinOut || self.config.enforceNonLoss) ∧
      minAmountOut < requiredOut then requiredOut else minAmountOut
  return {
    amountIn := opportunity.optimalInputAmount
    tokenPath
    poolAddresses := pools
    expectedReservesU112 := q.expectedReserves
    stepAmountsOut := q.stepAmountsOut
    minAmountOut
    expectedNetProfitMntWei := opportunity.netProfitMntWei }

end Executor

/-! ## Fees -/

structure FeePlan where
  gasLimit : Nat
  baseFeeWei : Nat
  defaultPriorityFeeWei : Nat
  totalCapFromProfit : Nat
  capPriorityFeeFromProfit : Nat
  initialPriorityFee : Nat
  maxPriorityFeePerGasWei : Nat
  maxFeePerGasWei : Nat
  effectiveGlobalCapWei : Nat
  isSmallProfit : Bool

def MANTLE_BASE_FEE_WEI : Nat := 20000000

def computeFeePlan (config : ExecutorConfig) (hops : Nat) (netExpected : U256) : FeePlan :=
  let gasLimit := match hops with
    | 4 => 750000000
    | 2 => 450000000
    | _ => config.gasLimit
  let netExpectedU128 := if netExpected.toNat < 2 ^ 128 then netExpected.toNat else 0
  let effectiveGlobalCapWei :=
    if netExpected.toNat < 1000000000000000000 then 500000000
    else if netExpected.toNat < 5000000000000000000 then 3000000000
    else U128_MAX
  let isSmallProfit := decide (netExpected.toNat < 100000000000000000)
  let totalCapFromProfit := if gasLimit > 0 then netExpectedU128 / gasLimit else 0
  -- A profit below the smaller bound is below the larger one, and is scaled alike.
  let totalCapFromProfit :=
    if totalCapFromProfit > 0 ∧ isSmallProfit then min (totalCapFromProfit * 3) U128_MAX / 2
    else totalCapFromProfit
  let capPriorityFeeFromProfit := totalCapFromProfit - MANTLE_BASE_FEE_WEI
  let initialPriorityFee := max config.defaultPriorityFeeWei capPriorityFeeFromProfit
  let maxFeePerGasWei :=
    min (min (MANTLE_BASE_FEE_WEI + initialPriorityFee) U128_MAX) effectiveGlobalCapWei
  { gasLimit
    baseFeeWei := MANTLE_BASE_FEE_WEI
    defaultPriorityFeeWei := config.defaultPriorityFeeWei
    totalCapFromProfit
    capPriorityFeeFromProfit
    initialPriorityFee
    maxPriorityFeePerGasWei := min initialPriorityFee (maxFeePerGasWei - MANTLE_BASE_FEE_WEI)
    maxFeePerGasWei
    effectiveGlobalCapWei
    isSmallProfit }

/-! ## The call -/

/-- The arguments of `executeArbitrage`, and the contract they are sent to. -/
structure ExecutorCall where
  target : Address
  amountIn : U256
  path : List Address
  pools : List Address
  poolTypes : List UInt8
  expectedStates : List U256
  amountsOut : List U256

/-- The outputs with the last one a little lower, but not below what is required. -/
def haircutLast (outs : List U256) (requiredOut : U256) : List U256 :=
  let computedLast := outs.getLast?.getD 0
  let targetLast := saturatingSub computedLast 1
  let targetLast := if targetLast < requiredOut then requiredOut else targetLast
  outs.set (outs.length - 1) targetLast

/-- The net profit to plan the fees with. -/
def ExecutionParams.netExpected (params : ExecutionParams) : U256 :=
  if params.expectedNetProfitMntWei ≠ 0 then params.expectedNetProfitMntWei
  else saturatingSub params.minAmountOut params.amountIn

/-- The last output that the call has to reach. -/
def ExecutionParams.requiredOut (params : ExecutionParams) (config : ExecutorConfig)
    (plan : FeePlan) : U256 :=
  let gasCostAtCap := min (plan.gasLimit * plan.maxFeePerGasWei) U128_MAX
  if (config.includeGasCostInMinOut || config.enforceNonLoss) ∧ ¬ plan.isSmallProfit then
    saturatingAdd params.amountIn (BitVec.ofNat 256 gasCostAtCap)
  else params.minAmountOut

namespace Executor

variable (self : Executor)

/-- `execute`, up to the call that it sends. -/
def execute (params : ExecutionParams) : Outcome ExecutionError ExecutorCall :=
  let hops := params.tokenPath.length - 1
  let plan := computeFeePlan self.config hops params.netExpected
  let requiredOut := params.requiredOut self.config plan
  if self.config.enforceNonLoss ∧ params.netExpected = 0 then .error (.err .nonLoss)
  else if plan.maxPriorityFeePerGasWei > plan.maxFeePerGasWei then .error (.err .invalidFees)
  else if params.stepAmountsOut.getLast?.getD 0 < requiredOut then .error (.err .skipExecution)
  else
    .ok {
      target := self.context.executorContract
      amountIn := params.amountIn
      path := params.tokenPath
      pools := params.poolAddresses
      poolTypes := List.replicate params.poolAddresses.length 1
      expectedStates := params.expectedReservesU112.map (·.setWidth 256)
      amountsOut := haircutLast params.stepAmountsOut requiredOut }

end Executor

end ArbitrageBot.Execution
