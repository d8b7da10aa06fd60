import ArbitrageBot.Amms.Machine
import ArbitrageBot.Lib.ProgRuns

/-!
# The direct execution of swaps

`SwapExecutor` swaps step by step from a wallet, through the pools and routers themselves. Each call
to the provider may fail, and what it answers is up to the chain.
-/

namespace ArbitrageBot

open Lib

namespace SwapExecutor

inductive PoolType
  | uniV2
  | uniV3
  | moeLB
  deriving DecidableEq, Repr

structure SwapStep where
  poolAddress : Address
  poolType : PoolType
  tokenIn : Address
  tokenOut : Address
  amountIn : U256
  sqrtPriceLimit : Option (BitVec 160)
  fee : Option (BitVec 32)
  routerAddress : Option Address
  binStep : Option (BitVec 16)
  deriving DecidableEq, Repr

/-- The routers of an `ExecutorConfig`. -/
structure RouterConfig where
  v3RouterAddress : Option Address
  moeRouterAddress : Option Address

structure ExactInputSingleParams where
  tokenIn : Address
  tokenOut : Address
  fee : BitVec 24
  recipient : Address
  deadline : U256
  amountIn : U256
  amountOutMinimum : U256
  sqrtPriceLimitX96 : BitVec 160
  deriving DecidableEq, Repr

/-- `Path` of the Moe router. -/
structure RouterPath where
  pairBinSteps : List U256
  versions : List UInt8
  tokenPath : List Address
  deriving DecidableEq, Repr

/-- What is sent to the chain, by the wallet. -/
inductive Transaction
  | approve (token spender : Address) (amount : U256)
  | transfer (token recipient : Address) (amount : U256)
  | swap (pool : Address) (amount0Out amount1Out : U256) (recipient : Address) (gas : Nat)
  | exactInputSingle (router : Address) (params : ExactInputSingleParams) (gas : Nat)
  | swapExactTokensForTokens (router : Address) (amountIn amountOutMin : U256) (path : RouterPath)
      (recipient : Address) (deadline : U256) (gas : Nat)
  deriving DecidableEq, Repr

abbrev TxHash := BitVec 256

/-- The calls to the provider, with what they answer; a call that fails answers nothing. -/
inductive Call : Type → Type
  | token0 (pool : Address) : Call (Option Address)
  | getReserves (pool : Address) : Call (Option (BitVec 112 × BitVec 112))
  | fee (pool : Address) : Call (Option (BitVec 24))
  | allowance (token owner spender : Address) : Call (Option U256)
  | balanceOf (token account : Address) : Call (Option U256)
  | send (tx : Transaction) : Call (Option TxHash)
  /-- Waits until a transaction is included. -/
  | watch (hash : TxHash) : Call (Option Unit)
  /-- The status of the receipt, if there is one. -/
  | getTransactionReceipt (hash : TxHash) : Call (Option (Option Bool))

abbrev Program := Prog Call

/-- A call that fails ends the program. -/
def ask {α : Type} (call : Call (Option α)) : Program α :=
  Prog.call call >>= fun
    | some answer => .pure answer
    | none => .revert "provider"

def ONE_HOP_GAS_LIMIT : Nat := 300000000
def TWO_HOP_GAS_LIMIT : Nat := 900000000
def THREE_HOP_GAS_LIMIT : Nat := 1500000000
def FOUR_HOP_GAS_LIMIT : Nat := 2800000000
def DEFAULT_GAS_LIMIT : Nat := FOUR_HOP_GAS_LIMIT

def gasLimitForHops : Nat → Nat
  | 0 | 1 => ONE_HOP_GAS_LIMIT
  | 2 => TWO_HOP_GAS_LIMIT
  | 3 => THREE_HOP_GAS_LIMIT
  | 4 => FOUR_HOP_GAS_LIMIT
  | _ => DEFAULT_GAS_LIMIT

/-- Sends a transaction and waits for it. -/
def sendAndWatch (tx : Transaction) : Program TxHash := do
  let hash ← ask (.send tx)
  ask (.watch hash)
  return hash

def ensureApproval (token spender : Address) (amount : U256) (owner : Address) : Program Unit := do
  let currentAllowance ← ask (.allowance token owner spender)
  if currentAllowance < amount then
    let _ ← sendAndWatch (.approve token spender amount)
    return ()
  else return ()

/-! ## The steps -/

/-- The expected output of a V2 pool. -/
def expectedOut (amountIn reserveIn reserveOut : U256) : U256 :=
  let numerator := amountIn * 997 * reserveOut
  let denominator := reserveIn * 1000 + amountIn * 997
  if denominator = 0 then 0 else numerator / denominator

def executeV2Swap (swapStep : SwapStep) (fromAddress : Address) : Program U256 := do
  let token0 ← ask (.token0 swapStep.poolAddress)
  let reserves ← ask (.getReserves swapStep.poolAddress)
  let zeroForOne := swapStep.tokenIn == token0
  let (reserveIn, reserveOut) : U256 × U256 :=
    if zeroForOne then (reserves.1.setWidth 256, reserves.2.setWidth 256)
    else (reserves.2.setWidth 256, reserves.1.setWidth 256)
  let expectedOut := expectedOut swapStep.amountIn reserveIn reserveOut
  ensureApproval swapStep.tokenIn swapStep.poolAddress swapStep.amountIn fromAddress
  let _ ← sendAndWatch (.transfer swapStep.tokenIn swapStep.poolAddress swapStep.amountIn)
  let (amount0Out, amount1Out) : U256 × U256 :=
    if zeroForOne then (0, expectedOut) else (expectedOut, 0)
  let _ ← sendAndWatch
    (.swap swapStep.poolAddress amount0Out amount1Out fromAddress (gasLimitForHops 1))
  return expectedOut

/-- The end of a swap via a router: the receipt decides, and the balance is the output. -/
def finishRouterSwap (tx : Transaction) (missing reverted : String) (tokenOut : Address)
    (fromAddress : Address) : Program U256 := do
  let txHash ← sendAndWatch tx
  let receipt ← ask (.getTransactionReceipt txHash)
  match receipt with
  | none => .revert missing
  | some false => .revert reverted
  | some true => ask (.balanceOf tokenOut fromAddress)

/-- The fee tier: from the step, else from the pool, else 3000. A fee of the step of more than 24
bits is a panic. -/
def feeTier (swapStep : SwapStep) : Program (BitVec 24) :=
  match swapStep.fee with
  | some fee => if fee.toNat < 2 ^ 24 then .pure (fee.setWidth 24) else .revert "panic"
  | none => Prog.call (.fee swapStep.poolAddress) >>= fun answer => .pure (answer.getD 3000)

def executeV3Swap (swapStep : SwapStep) (fromAddress : Address) (config : RouterConfig) :
    Program U256 := do
  match swapStep.routerAddress.or config.v3RouterAddress with
  | none => .revert "No router address configured for V3 swap"
  | some routerAddress => do
    let fee ← feeTier swapStep
    ensureApproval swapStep.tokenIn routerAddress swapStep.amountIn fromAddress
    let params : ExactInputSingleParams :=
      { tokenIn := swapStep.tokenIn
        tokenOut := swapStep.tokenOut
        fee
        recipient := fromAddress
        deadline := BitVec.allOnes 256
        amountIn := swapStep.amountIn
        amountOutMinimum := 0
        sqrtPriceLimitX96 := swapStep.sqrtPriceLimit.getD 0 }
    finishRouterSwap (.exactInputSingle routerAddress params (gasLimitForHops 1))
      "Router swap transaction missing receipt after inclusion"
      "Router swap transaction reverted" swapStep.tokenOut fromAddress

def executeMoeLbSwap (swapStep : SwapStep) (fromAddress : Address) (config : RouterConfig) :
    Program U256 :=
  match swapStep.routerAddress.or config.moeRouterAddress with
  | none => .revert "No Moe router address configured for Moe LB swap"
  | some routerAddress =>
    match swapStep.binStep with
    | none => .revert "Bin step not provided for Moe LB swap"
    | some binStep => do
      ensureApproval swapStep.tokenIn routerAddress swapStep.amountIn fromAddress
      let path : RouterPath :=
        { pairBinSteps := [binStep.setWidth 256]
          versions := [2]
          tokenPath := [swapStep.tokenIn, swapStep.tokenOut] }
      finishRouterSwap
        (.swapExactTokensForTokens routerAddress swapStep.amountIn 0 path fromAddress
          (BitVec.allOnes 256) (gasLimitForHops 1))
        "Moe LB swap via router transaction missing receipt"
        "Moe LB swap via router transaction reverted" swapStep.tokenOut fromAddress

def executeSwap (swapStep : SwapStep) (fromAddress : Address) (config : RouterConfig) :
    Program U256 :=
  match swapStep.poolType with
  | .uniV2 => executeV2Swap swapStep fromAddress
  | .uniV3 => executeV3Swap swapStep fromAddress config
  | .moeLB => executeMoeLbSwap swapStep fromAddress config

/-- The loop of `execute_multi_swap`. -/
def executeSteps (fromAddress : Address) (config : RouterConfig) :
    List SwapStep → U256 → List U256 → Program (List U256)
  | [], _, results => .pure results
  | step :: swapSteps, currentAmount, results => do
    let amountOut ← executeSwap { step with amountIn := currentAmount } fromAddress config
    executeSteps fromAddress config swapSteps amountOut (results ++ [amountOut])

def executeMultiSwap (swapSteps : List SwapStep) (fromAddress : Address) (config : RouterConfig) :
    Program (List U256) :=
  let currentAmount := (swapSteps.head?.map (·.amountIn)).getD 0
  executeSteps fromAddress config swapSteps currentAmount []

end SwapExecutor

end ArbitrageBot
