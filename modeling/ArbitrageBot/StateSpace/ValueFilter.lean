import ArbitrageBot.Amms.Amm
import ArbitrageBot.Contracts.WmntValueInPools
import ArbitrageBot.Lib.Batches

/-!
# The value filter

`ValueFilter` asks the batch contract for the value of every pool, chunk by chunk, and keeps the
pools that are worth more than a threshold.
-/

namespace ArbitrageBot

open Lib.Batches

structure ValueFilter where
  uniswapV2Factory : Address
  uniswapV3Factory : Address
  wmnt : Address
  minWmntThreshold : U256

namespace ValueFilter

variable (self : ValueFilter)

/-- The arguments of the contract, the pools apart. -/
def contract : WmntValueInPools := ⟨self.uniswapV2Factory, self.uniswapV3Factory, self.wmnt⟩

/-- `PoolInfo`: "treat Agni as UniV3-type", "treat Moe as LB-type". -/
def poolInfo (amm : AMM) : Nat × Address :=
  let poolType :=
    match amm with
    | .uniswapV2Pool _ => 1
    | .uniswapV3Pool _ => 2
    | .agniPool _ => 2
    | .moeLbPair _ => 3
  (poolType, amm.address)

/-- `get_wmnt_value_in_pools`, on the chain that the call is answered by, if it is. -/
def getWmntValueInPools (chain : Option ValueChain) (pools : List (Nat × Address)) :
    Outcome Unit (HashMap Address WmntValueInPools.PoolInfoReturn) :=
  match chain.bind fun chain => self.contract.batchRequest chain pools with
  | none => .error (.err ())
  | some returnData =>
    .ok (returnData.foldl (fun infos info => infos.insert info.poolAddress info) ∅)

/-- `filter`; `calls k` is the chain that the call for the `k`-th chunk is answered by. -/
def filter (chunkSize : Nat) (calls : Nat → Option ValueChain) (amms : List AMM) :
    Outcome Unit (List AMM) :=
  if chunkSize = 0 then .error .panic
  else do
    let poolInfos := amms.map poolInfo
    let results := (windows chunkSize poolInfos).zipIdx.map fun chunk =>
      self.getWmntValueInPools (calls chunk.2) chunk.1
    let poolInfoReturns ← results.foldlM (fun poolInfoReturns result =>
      result >>= fun infos => .ok (infos ∪ poolInfoReturns)) ∅
    return amms.filter fun amm =>
      (poolInfoReturns.lookup amm.address).any fun info => info.wmntValue > self.minWmntThreshold

end ValueFilter

end ArbitrageBot
