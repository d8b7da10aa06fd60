import ArbitrageBot.Amms.Machine
import ArbitrageBot.Lib.Prog

/-!
# The arbitrage executor contract

`OptimizedArbitrageExecutor`: its functions as programs over the external calls they make. Array
accesses out of bounds and checked arithmetic that overflows revert.
-/

namespace ArbitrageBot

open Lib

namespace Executor

/-- The external calls of the contract, with the type of their answers. -/
inductive Ext : Type → Type
  | token0 (pool : Address) : Ext Address
  | token1 (pool : Address) : Ext Address
  | getReserves (pool : Address) : Ext (U256 × U256)
  /-- `slot0()`, of which only the price is read. -/
  | slot0 (pool : Address) : Ext U256
  | liquidity (pool : Address) : Ext U256
  | getActiveId (pool : Address) : Ext U256
  | getBinStep (pool : Address) : Ext U256
  | getTokenX (pool : Address) : Ext Address
  | getTokenY (pool : Address) : Ext Address
  | balanceOf (token account : Address) : Ext U256
  | transfer (token recipient : Address) (amount : U256) : Ext Bool
  | swapV2 (pool : Address) (amount0Out amount1Out : U256) (recipient : Address) : Ext Unit
  | swapV3 (pool recipient : Address) (zeroForOne : Bool)
      (amountSpecified sqrtPriceLimitX96 : U256) : Ext Unit
  | swapMoeLB (pool : Address) (swapForY : Bool) (recipient : Address) : Ext Unit

abbrev Program := Prog Ext

open Prog

def MIN_SQRT_RATIO : U256 := 4295128739#256
def MAX_SQRT_RATIO : U256 := 1461446703485210103287273052203988822378723970342#256

def POOL_TYPE_V2 : UInt8 := 0
def POOL_TYPE_V3 : UInt8 := 1
def POOL_TYPE_MOE_LB : UInt8 := 2

/-- `array[i]` of a calldata array. -/
def index {α : Type} (array : List α) (i : Nat) : Program α :=
  match array[i]? with
  | some a => .pure a
  | none => .revert "array index out of bounds"

/-- Checked addition and subtraction of `uint256`. -/
def checkedAdd (a b : U256) : Program U256 :=
  if a.toNat + b.toNat < 2 ^ 256 then .pure (a + b) else .revert "arithmetic overflow"

def checkedSub (a b : U256) : Program U256 :=
  if b.toNat ≤ a.toNat then .pure (a - b) else .revert "arithmetic overflow"

/-- Pays the caller a positive delta, in the token the caller names. -/
def payDelta (sender : Address) (namedToken : Ext Address) (delta : U256) : Program Unit :=
  if 0 < delta.toInt then do
    let token ← call namedToken
    let ok ← call (.transfer token sender delta)
    require ok "TRANSFER_FAILED"
  else .pure ()

/-- `agniSwapCallback`. -/
def agniSwapCallback (origin sender : Address) (amount0Delta amount1Delta : U256) :
    Program Unit := do
  require (sender != origin) "NO_EOA_CALLBACK"
  payDelta sender (.token0 sender) amount0Delta
  payDelta sender (.token1 sender) amount1Delta

/-- One pool of `_validateStates`; answers the next `stateIdx`. -/
def validateState (pools : List Address) (poolTypes : List UInt8) (expectedStates : List U256)
    (stateIdx i : Nat) : Program Nat := do
  let poolType ← index poolTypes i
  let pool ← index pools i
  if poolType = POOL_TYPE_V2 then
    let (r0, r1) ← call (.getReserves pool)
    require (r0 == (← index expectedStates stateIdx)) "V2_R0_MISMATCH"
    require (r1 == (← index expectedStates (stateIdx + 1))) "V2_R1_MISMATCH"
    return stateIdx + 2
  else if poolType = POOL_TYPE_V3 then
    let sqrtPrice ← call (.slot0 pool)
    let liq ← call (.liquidity pool)
    require (sqrtPrice == (← index expectedStates stateIdx)) "V3_PRICE_MISMATCH"
    require (liq == (← index expectedStates (stateIdx + 1))) "V3_LIQ_MISMATCH"
    return stateIdx + 2
  else if poolType = POOL_TYPE_MOE_LB then
    let activeId ← call (.getActiveId pool)
    let binStep ← call (.getBinStep pool)
    require (activeId == (← index expectedStates stateIdx)) "MOE_ACTIVE_ID_MISMATCH"
    require (binStep == (← index expectedStates (stateIdx + 1))) "MOE_BIN_STEP_MISMATCH"
    return stateIdx + 2
  else .revert "UNKNOWN_POOL_TYPE"

def validateStates (pools : List Address) (poolTypes : List UInt8) (expectedStates : List U256) :
    Program Unit := do
  let stateIdx ← (List.range pools.length).foldlM
    (validateState pools poolTypes expectedStates) 0
  require (stateIdx == expectedStates.length) "INVALID_STATES_LENGTH"

def swapV2 (pool tokenIn : Address) (amountIn expectedOut : U256) (recipient : Address) :
    Program Unit := do
  require (← call (.transfer tokenIn pool amountIn)) "V2_TRANSFER_FAILED"
  let token0 ← call (.token0 pool)
  let zeroForOne := tokenIn == token0
  call (.swapV2 pool (if zeroForOne then 0 else expectedOut) (if zeroForOne then expectedOut else 0)
    recipient)

def swapV3 (pool tokenIn : Address) (amountIn : U256) (recipient : Address) : Program Unit := do
  let token0 ← call (.token0 pool)
  let zeroForOne := tokenIn == token0
  call (.swapV3 pool recipient zeroForOne amountIn
    (if zeroForOne then MIN_SQRT_RATIO + 1 else MAX_SQRT_RATIO - 1))

def swapMoeLB (pool tokenIn tokenOut : Address) (amountIn : U256) (recipient : Address) :
    Program Unit := do
  require (← call (.transfer tokenIn pool amountIn)) "MOE_TRANSFER_FAILED"
  let tokenX ← call (.getTokenX pool)
  let tokenY ← call (.getTokenY pool)
  if tokenIn = tokenX ∧ tokenOut = tokenY then call (.swapMoeLB pool true recipient)
  else if tokenIn = tokenY ∧ tokenOut = tokenX then call (.swapMoeLB pool false recipient)
  else .revert "MOE_TOKEN_MISMATCH"

/-- `_doSwap`: a swap whose output goes straight to the next pool if that takes its input first. -/
def doSwap (self : Address) (amountIn : U256) (tokenIn tokenOut pool : Address) (poolType : UInt8)
    (nextPool : Address) (nextPoolType : UInt8) (expectedOut : U256) : Program Unit :=
  let recipient :=
    if nextPool ≠ 0 ∧ (nextPoolType = POOL_TYPE_V2 ∨ nextPoolType = POOL_TYPE_MOE_LB) then
    nextPool else self
  if poolType = POOL_TYPE_V2 then swapV2 pool tokenIn amountIn expectedOut recipient
  else if poolType = POOL_TYPE_V3 then swapV3 pool tokenIn amountIn recipient
  else if poolType = POOL_TYPE_MOE_LB then swapMoeLB pool tokenIn tokenOut amountIn recipient
  else .revert "UNKNOWN_POOL_TYPE"

/-- One swap of `_executeSwaps`; answers the input amount of the next one. -/
def executeSwap (self : Address) (path pools : List Address) (poolTypes : List UInt8)
    (amountsOut : List U256) (amountToSwap : U256) (i : Nat) : Program U256 := do
  let nextPool ← if i < pools.length - 1 then index pools (i + 1) else .pure 0
  let nextPoolType ← if i < pools.length - 1 then index poolTypes (i + 1) else .pure 255
  let tokenIn ← index path i
  let tokenOut ← index path (i + 1)
  let pool ← index pools i
  let poolType ← index poolTypes i
  let expectedOut ← index amountsOut i
  doSwap self amountToSwap tokenIn tokenOut pool poolType nextPool nextPoolType expectedOut
  if i < pools.length - 1 then call (.balanceOf tokenOut self) else .pure amountToSwap

def executeSwaps (self : Address) (amountIn : U256) (path pools : List Address)
    (poolTypes : List UInt8) (amountsOut : List U256) : Program Unit := do
  let _ ← (List.range pools.length).foldlM
    (executeSwap self path pools poolTypes amountsOut) amountIn

/-- The addresses fixed at deployment: the contract, its owner and the wrapped native token. -/
structure Deployment where
  self : Address
  owner : Address
  WMNT : Address

variable (d : Deployment)

/-- The modifier `onlyOwner`. -/
def onlyOwner (sender : Address) : Program Unit :=
  require (sender == d.owner) "NOT_OWNER"

def executeArbitrage (sender : Address) (amountIn : U256) (path pools : List Address)
    (poolTypes : List UInt8) (expectedStates amountsOut : List U256) : Program Unit := do
  onlyOwner d sender
  require (decide (pools.length > 0)) "EMPTY_PATH"
  require (path.length == pools.length + 1) "INVALID_PATH_LENGTH"
  require (poolTypes.length == pools.length) "INVALID_TYPES_LENGTH"
  require (amountsOut.length == pools.length) "INVALID_AMOUNTS_LENGTH"
  validateStates pools poolTypes expectedStates
  let balanceBefore ← call (.balanceOf d.WMNT d.self)
  require (decide (balanceBefore ≥ amountIn)) "INSUFFICIENT_BALANCE"
  executeSwaps d.self amountIn path pools poolTypes amountsOut
  let balanceAfter ← call (.balanceOf d.WMNT d.self)
  let minExpected ← checkedAdd (← checkedSub balanceBefore amountIn)
    (← index amountsOut (pools.length - 1))
  require (decide (balanceAfter ≥ minExpected)) "INSUFFICIENT_OUTPUT"

def withdrawAmount (sender token : Address) (amount : U256) : Program Unit := do
  onlyOwner d sender
  require (decide (amount > 0)) "ZERO_AMOUNT"
  let balance ← call (.balanceOf token d.self)
  require (decide (balance ≥ amount)) "INSUFFICIENT_BALANCE"
  require (← call (.transfer token d.owner amount)) "WITHDRAW_FAILED"

def withdraw (sender token : Address) : Program Unit := do
  onlyOwner d sender
  let balance ← call (.balanceOf token d.self)
  if balance > 0 then
    require (← call (.transfer token d.owner balance)) "WITHDRAW_FAILED"

/-- A call to the contract. -/
inductive Entry where
  | executeArbitrage (amountIn : U256) (path pools : List Address) (poolTypes : List UInt8)
      (expectedStates amountsOut : List U256)
  | withdraw (token : Address)
  | withdrawAmount (token : Address) (amount : U256)
  | agniSwapCallback (amount0Delta amount1Delta : U256)
  | receive

/-- The program that runs when `sender` calls the contract in a transaction of `origin`. -/
def body (origin sender : Address) : Entry → Program Unit
  | .executeArbitrage amountIn path pools poolTypes expectedStates amountsOut =>
    executeArbitrage d sender amountIn path pools poolTypes expectedStates amountsOut
  | .withdraw token => withdraw d sender token
  | .withdrawAmount token amount => withdrawAmount d sender token amount
  | .agniSwapCallback amount0Delta amount1Delta =>
    agniSwapCallback origin sender amount0Delta amount1Delta
  | .receive => .pure ()

end Executor

end ArbitrageBot
