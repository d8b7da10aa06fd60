import ArbitrageBot.Amms.Amm

/-!
# The batch synchronisation of Moe pairs

`sync_slot0_batch` and `sync_active_bins_batch` ask the chain through batch contracts, whose
constructors collect the answers of the pairs. The chunks of a list are disjoint: the order in which
their answers arrive makes no difference to a call that processes them all.
-/

namespace ArbitrageBot

/-! ## Slot 0 -/

/-- `Slot0Data` of the batch contract. -/
structure Slot0Data where
  tokenX : Address
  tokenY : Address
  activeId : Nat
  binStep : Nat
  reserveX : Nat
  reserveY : Nat
  baseFactor : Nat
  filterPeriod : Nat
  decayPeriod : Nat
  reductionFactor : Nat
  variableFeeControl : Nat
  protocolShare : Nat
  maxVolatilityAccumulator : Nat
  volatilityAccumulator : Nat
  volatilityReference : Nat
  idReference : Nat
  timeOfLastUpdate : Nat

def MoeLbPair.withSlot0 (self : MoeLbPair) (slot : Slot0Data) : MoeLbPair :=
  { self with
    tokenX := Token.fromAddress slot.tokenX
    tokenY := Token.fromAddress slot.tokenY
    activeId := slot.activeId
    binStep := slot.binStep
    reserveX := slot.reserveX
    reserveY := slot.reserveY
    baseFactor := slot.baseFactor
    filterPeriod := slot.filterPeriod
    decayPeriod := slot.decayPeriod
    reductionFactor := slot.reductionFactor
    variableFeeControl := slot.variableFeeControl
    protocolShareBps := slot.protocolShare
    maxVolatilityAcc := slot.maxVolatilityAccumulator
    volatilityAccumulator := slot.volatilityAccumulator
    volatilityReference := slot.volatilityReference
    idReference := slot.idReference
    timeOfLastUpdate := slot.timeOfLastUpdate }

/-- `sync_slot0_batch`. Which answers it has processed when one fails is up to the network: `slots`
has no answer for a chunk of 255 that has not been processed. -/
def syncSlot0Batch (slots : Nat → Option (Address → Slot0Data)) (pairs : List AMM) : List AMM :=
  pairs.mapIdx fun i amm =>
    match amm, slots (i / 255) with
    | .moeLbPair pair, some slot => .moeLbPair (pair.withSlot0 (slot pair.address))
    | amm, _ => amm

/-! ## Bins -/

/-- `BinDataRequest` of the batch contract. -/
structure BinDataRequest where
  pair : Address
  ids : List Nat
  deriving DecidableEq

/-- The constructor of `GetMoeLBPairBinDataBatchRequest`, on a chain whose pairs answer `getBin`. -/
def getMoeLBPairBinData (getBin : Address → Nat → Nat × Nat) (requests : List BinDataRequest) :
    List (List (Nat × Nat)) :=
  requests.map fun request => request.ids.map (getBin request.pair)

namespace MoeLbPair

/-- `active_id.saturating_sub(bins_radius)`. -/
def startId (self : MoeLbPair) (binsRadius : Nat) : Nat :=
  self.activeId - binsRadius

/-- `active_id.saturating_add(bins_radius)`. -/
def endId (self : MoeLbPair) (binsRadius : Nat) : Nat :=
  min (self.activeId + binsRadius) (2 ^ 32 - 1)

/-- The ids from `start_id` to `end_id`. -/
def windowIds (self : MoeLbPair) (binsRadius : Nat) : List Nat :=
  List.range' (self.startId binsRadius) (self.endId binsRadius + 1 - self.startId binsRadius)

/-- The request for a pair. An id over 24 bits panics in its conversion. -/
def binDataRequest (self : MoeLbPair) (binsRadius : Nat) : Outcome AMMError BinDataRequest :=
  if ∀ id ∈ self.windowIds binsRadius, id < 2 ^ 24 then
    .ok ⟨self.address, self.windowIds binsRadius⟩
  else .error .panic

/-- The local constant of `sync_active_bins_batch`. -/
def syncBin.MAX_BIN_RESERVE : Nat := 10 ^ 30

open syncBin in
/-- One entry of the answer: an empty bin or an unreasonably large one is passed over. -/
def syncBin (prof : BuildProfile) (self : MoeLbPair) (startId : Nat)
    (entry : (Nat × Nat) × Nat) : Outcome AMMError MoeLbPair :=
  let ((reserveX, reserveY), offset) := entry
  if reserveX > 0 ∨ reserveY > 0 then do
    let binId ← prof.unsigned 32 (startId + (offset % 2 ^ 32 : Nat))
    if reserveX > MAX_BIN_RESERVE ∨ reserveY > MAX_BIN_RESERVE then return self
    else return { self with bins := self.bins.insert binId ⟨reserveX, reserveY⟩ }
  else .ok self

def syncBins (prof : BuildProfile) (self : MoeLbPair) (binsRadius : Nat)
    (binData : List (Nat × Nat)) : Outcome AMMError MoeLbPair :=
  binData.zipIdx.foldlM (fun pair entry => pair.syncBin prof (self.startId binsRadius) entry) self

end MoeLbPair

/-- `pairs.chunks_mut(5)`. -/
def chunks5 : List AMM → List (List AMM)
  | a :: b :: c :: d :: e :: rest => [a, b, c, d, e] :: chunks5 rest
  | [] => []
  | rest => [rest]

/-- The batch requests for a chunk. -/
def chunkRequests (binsRadius : Nat) : List AMM → Outcome AMMError (List BinDataRequest)
  | [] => .ok []
  | .moeLbPair pair :: chunk => do
    let request ← pair.binDataRequest binsRadius
    let requests ← chunkRequests binsRadius chunk
    return request :: requests
  | _ :: chunk => chunkRequests binsRadius chunk

/-- The answer for a chunk goes to its Moe pairs in order, row by row. -/
def syncChunk (prof : BuildProfile) (binsRadius : Nat) :
    List AMM → List (List (Nat × Nat)) → Outcome AMMError (List AMM)
  | [], _ => .ok []
  | .moeLbPair pair :: chunk, binData :: allBinData => do
    let pair ← pair.syncBins prof binsRadius binData
    let chunk ← syncChunk prof binsRadius chunk allBinData
    return .moeLbPair pair :: chunk
  | amm :: chunk, allBinData => do
    let chunk ← syncChunk prof binsRadius chunk allBinData
    return amm :: chunk

/-- The answers of the chain to the requests for the chunks, the `k`-th onwards. -/
def syncChunks (prof : BuildProfile) (call : Nat → Outcome AMMError (Address → Nat → Nat × Nat))
    (binsRadius : Nat) : Nat → List (List AMM × List BinDataRequest) → Outcome AMMError (List AMM)
  | _, [] => .ok []
  | k, (chunk, []) :: rest => do
    let rest ← syncChunks prof call binsRadius (k + 1) rest
    return chunk ++ rest
  | k, (chunk, requests) :: rest => do
    let getBin ← call k
    let chunk ← syncChunk prof binsRadius chunk (getMoeLBPairBinData getBin requests)
    let rest ← syncChunks prof call binsRadius (k + 1) rest
    return chunk ++ rest

/-- `sync_active_bins_batch`, on a chain that answers the call for the `k`-th chunk by `call k`. A
call that fails returns no pairs: its callers do not read them then. -/
def syncActiveBinsBatch (prof : BuildProfile)
    (call : Nat → Outcome AMMError (Address → Nat → Nat × Nat)) (pairs : List AMM)
    (binsRadius : Nat) : Outcome AMMError (List AMM) := do
  let chunks := chunks5 pairs
  let requests ← chunks.mapM (chunkRequests binsRadius)
  syncChunks prof call binsRadius 0 (chunks.zip requests)

end ArbitrageBot
