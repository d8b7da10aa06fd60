import ArbitrageBot.Amms.Moe.BinSync
import ArbitrageBot.Amms.UniswapV3.PoolSync

/-!
# The Moe factory

The pairs of a factory are those of its `LBPairCreated` events. They are read by batch contracts,
like the pools of the other factories; a pair on its own is read by the same calls in `init`.
-/

namespace ArbitrageBot

open Lib.Batches

/-! ## The contract -/

/-- What `getStaticFeeParameters` returns. -/
structure StaticFeeParameters where
  baseFactor : BitVec 16
  filterPeriod : BitVec 16
  decayPeriod : BitVec 16
  reductionFactor : BitVec 16
  variableFeeControl : BitVec 24
  protocolShare : BitVec 16
  maxVolatilityAccumulator : BitVec 24

/-- What `getVariableFeeParameters` returns. -/
structure VariableFeeParameters where
  volatilityAccumulator : BitVec 24
  volatilityReference : BitVec 24
  idReference : BitVec 24
  timeOfLastUpdate : BitVec 40

/-- The state of the chain, as far as the Moe contracts look at it. -/
structure MoeChain extends TokenChain where
  getTokenX : Address → Reply Address
  getTokenY : Address → Reply Address
  getActiveId : Address → Reply (BitVec 24)
  getBinStep : Address → Reply (BitVec 16)
  getReserves : Address → Reply (BitVec 128 × BitVec 128)
  getStaticFeeParameters : Address → Reply StaticFeeParameters
  getVariableFeeParameters : Address → Reply VariableFeeParameters
  zero_hasCode : hasCode 0 = false

namespace GetMoeLBPairSlot0BatchRequest

/-- The fields that `getStaticFeeParameters` does not set stay zero. -/
def noStatic : StaticFeeParameters := ⟨0, 0, 0, 0, 0, 0, 0⟩

def noVariable : VariableFeeParameters := ⟨0, 0, 0, 0⟩

/-- The fields of an entry. The contract cuts the time of the last update to 32 bits. -/
def entry (tokenX tokenY : Address) (activeId : BitVec 24) (binStep : BitVec 16)
    (reserves : BitVec 128 × BitVec 128) (staticFee : StaticFeeParameters)
    (variableFee : VariableFeeParameters) : Slot0Data where
  tokenX := tokenX
  tokenY := tokenY
  activeId := activeId.toNat
  binStep := binStep.toNat
  reserveX := reserves.1.toNat
  reserveY := reserves.2.toNat
  baseFactor := staticFee.baseFactor.toNat
  filterPeriod := staticFee.filterPeriod.toNat
  decayPeriod := staticFee.decayPeriod.toNat
  reductionFactor := staticFee.reductionFactor.toNat
  variableFeeControl := staticFee.variableFeeControl.toNat
  protocolShare := staticFee.protocolShare.toNat
  maxVolatilityAccumulator := staticFee.maxVolatilityAccumulator.toNat
  volatilityAccumulator := variableFee.volatilityAccumulator.toNat
  volatilityReference := variableFee.volatilityReference.toNat
  idReference := variableFee.idReference.toNat
  timeOfLastUpdate := (variableFee.timeOfLastUpdate.setWidth 32).toNat

/-- The entry of a pair. Each call is guarded: where one reverts, its fields stay zero. -/
def slot0Data (chain : MoeChain) (pair : Address) : Option Slot0Data :=
  if !chain.hasCode pair then some (entry 0 0 0 0 (0, 0) noStatic noVariable)
  else do
    let tokenX ← (chain.getTokenX pair).tryCatch 0 some
    let tokenY ← (chain.getTokenY pair).tryCatch 0 some
    let activeId ← (chain.getActiveId pair).tryCatch 0 some
    let binStep ← (chain.getBinStep pair).tryCatch 0 some
    let reserves ← (chain.getReserves pair).tryCatch (0, 0) some
    let staticFee ← (chain.getStaticFeeParameters pair).tryCatch noStatic some
    let variableFee ← (chain.getVariableFeeParameters pair).tryCatch noVariable some
    return entry tokenX tokenY activeId binStep reserves staticFee variableFee

def constructor (chain : MoeChain) (pairs : List Address) : Option (List Slot0Data) :=
  pairs.mapM (slot0Data chain)

end GetMoeLBPairSlot0BatchRequest

/-! ## The batches -/

namespace AMM

/-- What is changed of the Moe pairs. -/
def mapMoe (f : MoeLbPair → MoeLbPair) : AMM → AMM
  | moeLbPair pair => moeLbPair (f pair)
  | amm => amm

/-- The tokens of the Moe pairs. -/
def moeTokens : AMM → List Address
  | moeLbPair pair => [pair.tokenX.address, pair.tokenY.address]
  | _ => []

end AMM

namespace MoeLbPair

/-- `sync_slot0_batch`, all of whose answers are asked of one chain. -/
def syncSlot0 (net : Network) (chain : MoeChain) (pairs : List AMM) : Outcome Unit (List AMM) :=
  net.updateWindows (.err ()) 255
    (fun chunk => answer (GetMoeLBPairSlot0BatchRequest.constructor chain (chunk.map (·.address))))
    (fun slot amm => amm.mapMoe (·.withSlot0 slot)) pairs

/-- A pair with the tokens' decimals, where the map has them. -/
def withDecimals (decs : HashMap Address UInt8) (pair : MoeLbPair) : MoeLbPair :=
  { pair with
    tokenX := { pair.tokenX with
      decimals := (decs.lookup pair.tokenX.address).getD pair.tokenX.decimals }
    tokenY := { pair.tokenY with
      decimals := (decs.lookup pair.tokenY.address).getD pair.tokenY.decimals } }

/-- `sync_token_decimals`. -/
def syncTokenDecimals (net : Network) (chain : MoeChain) (pairs : List AMM) :
    Outcome Unit (List AMM) := do
  let decs ← getTokenDecimals net chain.toTokenChain (pairs.flatMap AMM.moeTokens)
  return pairs.map (AMM.mapMoe (withDecimals decs))

/-- The two batches that read a list of pairs. -/
def readBatches (slot0 decimals : Network) (chain : MoeChain) (pairs : List AMM) :
    Outcome Unit (List AMM) := do
  let pairs ← syncSlot0 slot0 chain pairs
  syncTokenDecimals decimals chain pairs

/-! ## One pair -/

def new (address : Address) : MoeLbPair where
  address := address
  tokenX := .fromAddress 0
  tokenY := .fromAddress 0
  binStep := 0
  activeId := 0
  reserveX := 0
  reserveY := 0
  baseFactor := 0
  filterPeriod := 0
  decayPeriod := 0
  reductionFactor := 0
  variableFeeControl := 0
  protocolShareBps := 0
  maxVolatilityAcc := 0
  volatilityAccumulator := 0
  volatilityReference := 0
  idReference := 0
  timeOfLastUpdate := 0
  bins := ∅

def init (slot0 decimals : Network) (chain : MoeChain) (self : MoeLbPair) :
    Outcome Unit MoeLbPair := do
  let x ← answer (chain.getTokenX self.address).get
  let y ← answer (chain.getTokenY self.address).get
  let self := { self with tokenX := .fromAddress x, tokenY := .fromAddress y }
  let v ← readBatches slot0 decimals chain [.moeLbPair self]
  match v.head? with
  | some (.moeLbPair updated) => return updated
  | _ => return self

/-- `init_basic`; `unreachable!` panics. -/
def initBasic (slot0 decimals : Network) (chain : MoeChain) (self : MoeLbPair) :
    Outcome Unit MoeLbPair := do
  let x ← answer (chain.getTokenX self.address).get
  let y ← answer (chain.getTokenY self.address).get
  let binStep ← answer (chain.getBinStep self.address).get
  let self :=
    { self with tokenX := .fromAddress x, tokenY := .fromAddress y, binStep := binStep.toNat }
  let v ← readBatches slot0 decimals chain [.moeLbPair self]
  match v.head? with
  | some (.moeLbPair pool) => return { pool with bins := ∅ }
  | _ => .error .panic

end MoeLbPair

/-! ## The factory -/

/-- The event of a new pair. -/
structure LBPairCreated where
  tokenX : Address
  tokenY : Address
  binStep : BitVec 16
  lbPair : Address
  deriving DecidableEq

namespace MoeFactory

def createPool (ev : LBPairCreated) : AMM :=
  .moeLbPair
    { MoeLbPair.new ev.lbPair with
      tokenX := .fromAddress ev.tokenX
      tokenY := .fromAddress ev.tokenY
      binStep := ev.binStep.toNat }

/-- `get_all_pools`, on the factory's events up to the block. -/
def getAllPools (logs : List LBPairCreated) : List AMM :=
  logs.map createPool

/-- The pools that `sync_all_pools` goes on with. -/
def isLive : AMM → Bool
  | .moeLbPair pair =>
    pair.reserveX > 0 && pair.reserveY > 0 && pair.tokenX.decimals > 0 && pair.tokenY.decimals > 0
  | _ => true

def syncAllPools (slot0 decimals : Network) (chain : MoeChain) (pools : List AMM) :
    Outcome Unit (List AMM) :=
  (MoeLbPair.readBatches slot0 decimals chain pools).map fun pools => pools.filter isLive

end MoeFactory

end ArbitrageBot
