import ArbitrageBot.Amms.Amm
import ArbitrageBot.Lib.Batches

/-!
# The V2 factory

How the pools of a factory are found and read: by constructors that are run in a call and return
what they read, for one window of pools each.
-/

namespace ArbitrageBot

open Lib.Batches

def AMM.tokens : AMM → List Address
  | uniswapV2Pool pool => [pool.tokenA.address, pool.tokenB.address]
  | uniswapV3Pool pool => [pool.tokenA.address, pool.tokenB.address]
  | agniPool pool => [pool.tokenA.address, pool.tokenB.address]
  | moeLbPair pair => [pair.tokenX.address, pair.tokenY.address]

/-! ## What a call sees of the chain -/

/-- What a call of another contract comes to: it returns, it reverts, or it has no code or returns
what is not of its type, which reverts the caller and no `catch` catches. -/
inductive Reply (α : Type) where
  | returned (a : α)
  | reverted
  | unreadable

namespace Reply

variable {α β : Type}

/-- A plain call. -/
def get : Reply α → Option α
  | returned a => some a
  | reverted => none
  | unreadable => none

/-- `try … returns (a) { success } catch { return caught; }`. -/
def tryCatch (reply : Reply α) (caught : β) (success : α → Option β) : Option β :=
  match reply with
  | returned a => success a
  | reverted => some caught
  | unreadable => none

end Reply

/-- The state of the chain at a block, as far as the batch contracts look at it. A function of a
contract gives nothing where the call reverts; for `decimals`, also where the answer is not one
word. -/
structure V2Chain where
  hasCode : Address → Bool
  allPairs : List Address
  token0 : Address → Option Address
  token1 : Address → Option Address
  getReserves : Address → Option (BitVec 112 × BitVec 112)
  decimals : Address → Option U256
  zero_hasCode : hasCode 0 = false

/-- `GetUniswapV2PairsBatchRequest`: nothing where it reverts. -/
def V2Chain.pairsBatchRequest (chain : V2Chain) (start step : Nat) : Option (List Address) :=
  let step := if start + step > chain.allPairs.length then chain.allPairs.length - start else step
  (List.range step).mapM fun i => chain.allPairs[start + i]?

/-- `PoolData` of `GetUniswapV2PoolDataBatchRequest`. -/
structure V2PoolData where
  tokenA : Address
  tokenB : Address
  reserve0 : BitVec 112
  reserve1 : BitVec 112
  tokenADecimals : UInt8
  tokenBDecimals : UInt8

namespace V2Chain

variable (chain : V2Chain)

/-- An entry of the array that nothing was written to. -/
def unset : V2PoolData := ⟨0, 0, 0, 0, 0, 0⟩

/-- The decimals that the constructor goes on with. -/
def tokenDecimals (token : Address) : Option UInt8 :=
  (chain.decimals token).bind fun decimals =>
    if decimals = 0 ∨ decimals > 255 then none else some (UInt8.ofNat decimals.toNat)

/-- The entry of a pool: nothing where the constructor reverts. -/
def poolData (poolAddress : Address) : Option V2PoolData :=
  if !chain.hasCode poolAddress then some unset
  else do
    let tokenA ← chain.token0 poolAddress
    let tokenB ← chain.token1 poolAddress
    if !chain.hasCode tokenA then some unset
    else if !chain.hasCode tokenB then some unset
    else match chain.tokenDecimals tokenA with
      | none => some unset
      | some tokenADecimals =>
        match chain.tokenDecimals tokenB with
        | none => some unset
        | some tokenBDecimals => do
          let (reserve0, reserve1) ← chain.getReserves poolAddress
          some { tokenA, tokenB, reserve0, reserve1, tokenADecimals, tokenBDecimals }

/-- `GetUniswapV2PoolDataBatchRequest`. -/
def poolDataBatchRequest (pools : List Address) : Option (List V2PoolData) :=
  pools.mapM chain.poolData

end V2Chain

/-- The answer to a call: an error where the constructor reverts. -/
def answer {α : Type} : Option α → Outcome Unit α
  | some x => .ok x
  | none => .error (.err ())

/-! ## The factory -/

/-- The field of `UniswapV2Factory` that its pools get. -/
structure UniswapV2Factory where
  fee : Nat

namespace UniswapV2Factory

def getAllPairs (net : Network) (chain : V2Chain) : Outcome Unit (List Address) :=
  if chain.allPairs.length < UInt64.size then
    let step := 766
    let starts := (List.range ((chain.allPairs.length + (step - 1)) / step)).map (· * step)
    (net.calls (.err ()) (fun start => answer (chain.pairsBatchRequest start step)) starts).foldlM
      (fun pairs res => res >>= fun tokens => .ok (pairs ++ tokens.filter (· ≠ 0))) []
  else .error .panic

/-- `discover`. -/
def discover (self : UniswapV2Factory) (net : Network) (chain : V2Chain) :
    Outcome Unit (List AMM) :=
  (getAllPairs net chain).map fun pairs => pairs.map fun pair =>
    .uniswapV2Pool
      { address := pair
        tokenA := .fromAddress 0
        tokenB := .fromAddress 0
        reserve0 := 0
        reserve1 := 0
        fee := self.fee }

/-- A pool with the data of the chain. -/
def populate (poolData : V2PoolData) (pool : UniswapV2Pool) : UniswapV2Pool :=
  { pool with
    tokenA := ⟨poolData.tokenA, poolData.tokenADecimals⟩
    tokenB := ⟨poolData.tokenB, poolData.tokenBDecimals⟩
    reserve0 := poolData.reserve0.toNat
    reserve1 := poolData.reserve1.toNat }

/-- The data of one pool goes into the map; a pool that is not there, or not a V2 pool, is a
panic. -/
def populateAt (amms : HashMap Address AMM) (entry : V2PoolData × Address) :
    Outcome Unit (HashMap Address AMM) :=
  if entry.1.tokenA = 0 then .ok amms
  else match amms.lookup entry.2 with
    | some (.uniswapV2Pool pool) =>
      .ok (amms.insert entry.2 (.uniswapV2Pool (populate entry.1 pool)))
    | _ => .error .panic

def syncAllPools (net : Network) (chain : V2Chain) (amms : List AMM) : Outcome Unit (List AMM) := do
  let groups := windows 120 (amms.map (·.address))
  let answers := net.calls (.err ())
    (fun group => (answer (chain.poolDataBatchRequest group)).map fun returnData =>
      (group, returnData)) groups
  let amms := amms.foldl (fun amms amm => amms.insert amm.address amm) (∅ : HashMap Address AMM)
  let amms ← answers.foldlM (fun amms res => res >>= fun (group, returnData) =>
    (returnData.zip group).foldlM populateAt amms) amms
  return amms.values.filter fun amm => !amm.tokens.any (· = 0)

end UniswapV2Factory

end ArbitrageBot
