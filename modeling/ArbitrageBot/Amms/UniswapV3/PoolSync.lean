import ArbitrageBot.Amms.UniswapV2Factory
import ArbitrageBot.Amms.UniswapV3.BitmapBatch
import ArbitrageBot.Amms.UniswapV3.TickRequests

/-!
# The pools of the V3 factory, read from the chain

`sync_all_pools` reads the prices, the decimals of the tokens, the words of the bitmaps and the
ticks of the pools, each by calls of batch contracts that are answered in any order.
-/

namespace ArbitrageBot

open Lib.Batches

/-- The tokens of the chain. `decimals` is what the call gives where it succeeds with one word. -/
structure TokenChain where
  hasCode : Address → Bool
  decimals : Address → Option U256

/-- The state of the chain, as far as the batch contracts look at it. A function of a contract gives
nothing where the call reverts. -/
structure V3Chain extends TokenChain where
  liquidity : Address → Option (BitVec 128)
  slot0 : Address → Option (BitVec 160 × Int)
  tickBitmap : Address → Int → U256
  ticks : Address → Int → Info

/-! ## The contracts -/

namespace GetUniswapV3PoolSlot0BatchRequest

structure Slot0Data where
  tick : Int
  liquidity : BitVec 128
  sqrtPrice : U256
  deriving DecidableEq, Repr

/-- The entry of a pool. -/
def slot0Data (chain : V3Chain) (poolAddress : Address) : Option Slot0Data := do
  let liquidity ← chain.liquidity poolAddress
  let (sqrtPrice, tick) ← chain.slot0 poolAddress
  return { tick, liquidity, sqrtPrice := sqrtPrice.setWidth 256 }

def constructor (chain : V3Chain) (pools : List Address) : Option (List Slot0Data) :=
  pools.mapM (slot0Data chain)

end GetUniswapV3PoolSlot0BatchRequest

namespace GetTokenDecimalsBatchRequest

/-- The entry of a token; what is not written stays zero. -/
def tokenDecimals (chain : TokenChain) (token : Address) : UInt8 :=
  if !chain.hasCode token then 0
  else match chain.decimals token with
    | none => 0
    | some tokenDecimals =>
      if tokenDecimals = 0 ∨ tokenDecimals > 255 then 0 else UInt8.ofNat tokenDecimals.toNat

def constructor (chain : TokenChain) (tokens : List Address) : List UInt8 :=
  tokens.map (tokenDecimals chain)

end GetTokenDecimalsBatchRequest

/-! ## The decimals of tokens -/

/-- The decimals of one answer. -/
def insertDecimals (tokenDecimals : HashMap Address UInt8)
    (answer : List Address × List UInt8) : HashMap Address UInt8 :=
  (answer.2.zip answer.1).foldl (fun tokenDecimals entry => tokenDecimals.insert entry.2 entry.1)
    tokenDecimals

def getTokenDecimals (net : Network) (chain : TokenChain) (tokens : List Address) :
    Outcome Unit (HashMap Address UInt8) :=
  (net.calls (.err ())
    (fun group => .ok (group, GetTokenDecimalsBatchRequest.constructor chain group))
    (windows 765 tokens)).foldlM
    (fun tokenDecimals res => res >>= fun answer => .ok (insertDecimals tokenDecimals answer)) ∅

/-! ## The factory -/

namespace UniswapV3Factory

/-- The networks of the four batches of a synchronisation. -/
structure Networks where
  slot0 : Network
  decimals : Network
  tickBitmaps : Network
  tickData : Network

/-- Which error it was is not looked at. -/
def anyError {α : Type} (x : Outcome AMMError α) : Outcome Unit α :=
  x.mapError fun
    | .err _ => .err ()
    | .panic => .panic

/-- A pool with the tokens' decimals, where the map has them. -/
def withDecimals (tokenDecimals : HashMap Address UInt8) (pool : UniswapV3Pool) : UniswapV3Pool :=
  { pool with
    tokenA := { pool.tokenA with
      decimals := (tokenDecimals.lookup pool.tokenA.address).getD pool.tokenA.decimals }
    tokenB := { pool.tokenB with
      decimals := (tokenDecimals.lookup pool.tokenB.address).getD pool.tokenB.decimals } }

/-- `sync_token_decimals`; `hashSet` lists the elements of a hash set of tokens. -/
def syncTokenDecimals (net : Network) (hashSet : List Address → List Address) (chain : V3Chain)
    (pools : List UniswapV3Pool) : Outcome Unit (List UniswapV3Pool) := do
  let tokens := hashSet (pools.flatMap fun pool => [pool.tokenA.address, pool.tokenB.address])
  let tokenDecimals ← getTokenDecimals net chain.toTokenChain tokens
  return pools.map (withDecimals tokenDecimals)

def withSlot0 (slot0Data : GetUniswapV3PoolSlot0BatchRequest.Slot0Data) (pool : UniswapV3Pool) :
    UniswapV3Pool :=
  { pool with
    tick := slot0Data.tick
    liquidity := slot0Data.liquidity.toNat
    sqrtPrice := slot0Data.sqrtPrice }

/-- `sync_slot_0`: each answer goes to the slice of the pools that it was asked for. -/
def syncSlot0 (net : Network) (chain : V3Chain) (pools : List UniswapV3Pool) :
    Outcome Unit (List UniswapV3Pool) :=
  net.updateWindows (.err ()) 255
    (fun group =>
      answer (GetUniswapV3PoolSlot0BatchRequest.constructor chain (group.map (·.address))))
    withSlot0 pools

/-- What became of the pools behind `pool_set`, which holds the later of two of one address. -/
def fromPoolSet (set : HashMap Address UniswapV3Pool) : List UniswapV3Pool → List UniswapV3Pool
  | [] => []
  | pool :: pools =>
    (if pools.any (·.address == pool.address) then pool
      else (set.lookup pool.address).getD pool) :: fromPoolSet set pools

/-- `sync_tick_bitmaps`; `none` when the loop over the words needs more than `fuel` rounds. -/
def syncTickBitmaps (net : Network) (fuel : Nat) (chain : V3Chain) (pools : List UniswapV3Pool) :
    Option (Outcome Unit (List UniswapV3Pool)) :=
  (tickBitmapGroups fuel pools).map fun groups => do
    let answers := net.calls (.err ()) (fun group =>
      (answer (GetUniswapV3PoolTickBitmapBatchRequest.constructor chain.tickBitmap group)).map
        fun returnData => (group.map (·.pool), returnData)) groups
    let set ← answers.foldlM (fun set res => res >>= fun answer =>
      anyError (insertTickBitmaps set answer.1 answer.2)) (poolSet pools)
    return fromPoolSet set pools

/-- `sync_tick_data`. -/
def syncTickData (net : Network) (prof : BuildProfile) (chain : V3Chain)
    (pools : List UniswapV3Pool) : Outcome Unit (List UniswapV3Pool) := do
  let groups ← anyError (tickDataGroups prof pools)
  let answers := net.calls (.err ()) (fun group =>
    .ok (group, GetUniswapV3PoolTickDataBatchRequest.constructor chain.ticks group)) groups
  let set ← answers.foldlM (fun set res => res >>= fun response =>
    anyError (insertTickData set [response])) (poolSet pools)
  return fromPoolSet set pools

/-- The pools that `sync_all_pools` goes on with. -/
def isLive (pool : UniswapV3Pool) : Bool :=
  pool.liquidity > 0 && pool.tokenA.decimals > 0 && pool.tokenB.decimals > 0

def syncAllPools (net : Networks) (hashSet : List Address → List Address) (prof : BuildProfile)
    (fuel : Nat) (chain : V3Chain) (pools : List UniswapV3Pool) :
    Option (Outcome Unit (List UniswapV3Pool)) :=
  match syncSlot0 net.slot0 chain pools with
  | .error e => some (.error e)
  | .ok pools =>
    match syncTokenDecimals net.decimals hashSet chain pools with
    | .error e => some (.error e)
    | .ok pools =>
      match syncTickBitmaps net.tickBitmaps fuel chain (pools.filter isLive) with
      | none => none
      | some (.error e) => some (.error e)
      | some (.ok pools) => some (syncTickData net.tickData prof chain pools)

end UniswapV3Factory

end ArbitrageBot
