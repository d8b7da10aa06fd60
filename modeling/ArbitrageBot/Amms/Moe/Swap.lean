import ArbitrageBot.Amms.Moe.Math
import ArbitrageBot.Amms.Moe.Pair

/-!
# Moe liquidity-book pairs: swap simulation

`simulate_swap_precise` walks from the active bin id by id through the map of bins, with the fee
parameters of the pair updated on the way. It moves reserves of the pair as it goes, also when it
fails later, and writes the parameters back at the end.
-/

namespace ArbitrageBot

open Lib Moe

def MAX_ITERATIONS : Nat := 512

/-- `pair_parameters::Parameters`. -/
structure MoeParameters where
  baseFactor : Nat
  filterPeriod : Nat
  decayPeriod : Nat
  reductionFactor : Nat
  variableFeeControl : Nat
  protocolShare : Nat
  maxVolatilityAccumulator : Nat
  volatilityAccumulator : Nat
  volatilityReference : Nat
  idReference : Nat
  timeOfLastUpdate : Nat
  activeId : Nat
  binStep : Nat

namespace MoeParameters

def fromPair (pair : MoeLbPair) : MoeParameters where
  baseFactor := pair.baseFactor
  filterPeriod := pair.filterPeriod
  decayPeriod := pair.decayPeriod
  reductionFactor := pair.reductionFactor
  variableFeeControl := pair.variableFeeControl
  protocolShare := pair.protocolShareBps
  maxVolatilityAccumulator := pair.maxVolatilityAcc
  volatilityAccumulator := pair.volatilityAccumulator
  volatilityReference := pair.volatilityReference
  idReference := pair.idReference
  timeOfLastUpdate := pair.timeOfLastUpdate
  activeId := pair.activeId
  binStep := pair.binStep

def writeBack (self : MoeParameters) (pair : MoeLbPair) : MoeLbPair :=
  { pair with
    baseFactor := self.baseFactor
    filterPeriod := self.filterPeriod
    decayPeriod := self.decayPeriod
    reductionFactor := self.reductionFactor
    variableFeeControl := self.variableFeeControl
    protocolShareBps := self.protocolShare
    maxVolatilityAcc := self.maxVolatilityAccumulator
    volatilityAccumulator := self.volatilityAccumulator
    volatilityReference := self.volatilityReference
    idReference := self.idReference
    timeOfLastUpdate := self.timeOfLastUpdate
    activeId := self.activeId }

/-- `protocol_fee_amount_u256`. -/
def protocolFeeAmountU256 (self : MoeParameters) (feeAmount : U256) : U256 :=
  if self.protocolShare = 0 then 0
  else BitVec.ofNat 256 self.protocolShare * feeAmount / BitVec.ofNat 256 BASIS_POINT_MAX_U128

def updateReferences (self : MoeParameters) (timestamp : Nat) : MoeParameters :=
  let dt := timestamp - self.timeOfLastUpdate
  let self :=
    if dt ≥ self.filterPeriod then
      { self with
        idReference := self.activeId
        volatilityReference :=
          if dt < self.decayPeriod then
            let reduction := min (self.reductionFactor * self.volatilityAccumulator) (2 ^ 128 - 1)
              / BASIS_POINT_MAX_U128
            min reduction (2 ^ 32 - 1)
          else 0 }
    else self
  { self with timeOfLastUpdate := min timestamp (2 ^ 32 - 1) }

def updateVolatilityAccumulator (self : MoeParameters) (newActiveId : Nat) : MoeParameters :=
  let deltaId :=
    if newActiveId > self.idReference then newActiveId - self.idReference
    else self.idReference - newActiveId
  let newAcc := min (min (self.volatilityReference +
    min (deltaId * BASIS_POINT_MAX_U128) (2 ^ 128 - 1)) (2 ^ 128 - 1)) self.maxVolatilityAccumulator
  { self with
    volatilityAccumulator := newAcc
    activeId := newActiveId }

/-- The parameters as `compute_bin_swap` packs them for the fee of a bin. -/
def pack (self : MoeParameters) : MathOutcome U256 := do
  let p ← PairParameterHelper.setStaticFeeParameters 0 self.baseFactor self.filterPeriod
    self.decayPeriod self.reductionFactor self.variableFeeControl self.protocolShare
    self.maxVolatilityAccumulator
  let p := PairParameterHelper.setActiveId p self.activeId
  let p ← PairParameterHelper.setVolatilityAccumulator p self.volatilityAccumulator
  let p ← PairParameterHelper.setVolatilityReference p self.volatilityReference
  return PairParameterHelper.setIdReference p self.idReference

end MoeParameters

structure BinSwapResult where
  amountInWithFee : U256
  amountOut : U256
  feePaid : U256
  protocolFee : U256
  binExhausted : Bool

/-- `map_err(|_| MoeError::Arithmetic)?`. -/
def liftMoe {α : Type} (x : MathOutcome α) : Outcome AMMError α :=
  x.mapError fun
    | .err _ => .err (.moeError .arithmetic)
    | .panic => .panic

/-- `u128::try_from(U256)`, with an error of the pair. -/
def tryU128 (val : U256) : Outcome AMMError Nat := toU128 (.moeError .arithmetic) val

/-- `checked_add` and `checked_sub` of a reserve. -/
def addReserve (reserve amount : Nat) : Outcome AMMError Nat :=
  if reserve + amount < 2 ^ 128 then .ok (reserve + amount)
  else .error (.err (.moeError .arithmetic))

def subReserve (reserve amount : Nat) : Outcome AMMError Nat :=
  if amount ≤ reserve then .ok (reserve - amount)
  else .error (.err (.moeError .insufficientLiquidity))

/-- One id further, down for Y and up for X; the ends of `u32` hold. -/
def nextId (id : Nat) (swapForY : Bool) : Nat :=
  if swapForY then id - 1 else min (id + 1) (2 ^ 32 - 1)

namespace MoeLbPair

variable (prof : BuildProfile)

/-- The input with fees, the output, the fee and whether the bin is exhausted. -/
def computeBinSwap (pair : MoeLbPair) (params : MoeParameters) (binId : Nat) (swapForY : Bool)
    (amountLeft : U256) : Outcome AMMError (U256 × U256 × U256 × Bool) :=
  match pair.bins.lookup binId with
  | none => .ok (0, 0, 0, true)
  | some bin =>
    if bin.reserveX = 0 ∨ bin.reserveY = 0 then .ok (0, 0, 0, true)
    else do
      let parameters ← liftMoe params.pack
      let amountIn ← tryU128 amountLeft
      let packedReserves := PackedUint128Math.encode bin.reserveX bin.reserveY
      let inputEncoded :=
        if swapForY then PackedUint128Math.encode amountIn 0
        else PackedUint128Math.encode 0 amountIn
      let (amountsInWithFee, amountsOut, totalFees) ← liftMoe
        (BinHelper.getAmounts prof packedReserves parameters pair.binStep swapForY binId
          inputEncoded)
      let amountInWithFee := PackedUint128Math.decodeFirst amountsInWithFee swapForY
      let amountOut := PackedUint128Math.decodeFirst amountsOut (!swapForY)
      let feePaid := PackedUint128Math.decodeFirst totalFees swapForY
      let binExhausted := amountOut == if swapForY then bin.reserveY else bin.reserveX
      return (BitVec.ofNat 256 amountInWithFee, BitVec.ofNat 256 amountOut,
        BitVec.ofNat 256 feePaid, binExhausted)

end MoeLbPair

/-- A function with the pair as `&mut`; the changes made before an error stay. -/
abbrev PairM := ExceptT (Fault AMMError) (StateM MoeLbPair)

def PairM.ofOutcome {α : Type} (x : Outcome AMMError α) : PairM α := fun pair => (x, pair)

namespace MoeLbPair

open PairM

variable (prof : BuildProfile)

/-- The reserves of the bin after `amountIn` came in and `amountOut` went out; those of the pair
move with them. -/
def moveReserves (bin : BinReserve) (swapForY : Bool) (amountIn amountOut : Nat) :
    PairM BinReserve :=
  if swapForY then do
    let binX ← ofOutcome (addReserve bin.reserveX amountIn)
    let binY ← ofOutcome (subReserve bin.reserveY amountOut)
    let pairX ← ofOutcome (addReserve (← get).reserveX amountIn)
    modify fun pair => { pair with reserveX := pairX }
    let pairY ← ofOutcome (subReserve (← get).reserveY amountOut)
    modify fun pair => { pair with reserveY := pairY }
    return ⟨binX, binY⟩
  else do
    let binY ← ofOutcome (addReserve bin.reserveY amountIn)
    let binX ← ofOutcome (subReserve bin.reserveX amountOut)
    let pairY ← ofOutcome (addReserve (← get).reserveY amountIn)
    modify fun pair => { pair with reserveY := pairY }
    let pairX ← ofOutcome (subReserve (← get).reserveX amountOut)
    modify fun pair => { pair with reserveX := pairX }
    return ⟨binX, binY⟩

/-- A bin that is emptied leaves the map. -/
def putBin (pair : MoeLbPair) (binId : Nat) (bin : BinReserve) : MoeLbPair :=
  if bin.reserveX = 0 ∧ bin.reserveY = 0 then { pair with bins := pair.bins.erase binId }
  else { pair with bins := pair.bins.insert binId bin }

/-- `simulate_single_bin`. -/
def simulateSingleBin (params : MoeParameters) (binId : Nat) (swapForY : Bool) (amountIn : U256) :
    PairM BinSwapResult := do
  let pair ← get
  let (amountInWithFee, amountOut, feePaid, binExhausted) ←
    ofOutcome (pair.computeBinSwap prof params binId swapForY amountIn)
  if amountOut = 0 then return ⟨0, 0, 0, 0, binExhausted⟩
  else
    let bin := (pair.bins.lookup binId).getD default
    let amountOutU128 ← ofOutcome (tryU128 amountOut)
    let amountInU128 ← ofOutcome (tryU128 amountInWithFee)
    let protocolFee := params.protocolFeeAmountU256 feePaid
    let protocolFeeU128 ← ofOutcome (tryU128 protocolFee)
    if protocolFeeU128 ≤ amountInU128 then
      let bin ← moveReserves bin swapForY (amountInU128 - protocolFeeU128) amountOutU128
      modify fun pair => pair.putBin binId bin
      return ⟨amountInWithFee, amountOut, feePaid, protocolFee, binExhausted⟩
    else ofOutcome (.error (.err (.moeError .arithmetic)))

end MoeLbPair

/-- The variables of the loop of `simulate_swap_precise`, besides the pair. -/
structure SwapState where
  parameters : MoeParameters
  amountLeft : U256
  amountOut : U256
  currentId : Nat
  visitedBins : List Nat

namespace SwapState

open PairM

variable (prof : BuildProfile)

/-- The move to the next id; the loop ends at an end of `u32` and at an id that was visited. -/
def advance (s : SwapState) (swapForY : Bool) : ForInStep SwapState :=
  let nextBinId := nextId s.currentId swapForY
  if nextBinId = s.currentId then .done s
  else if nextBinId ∈ s.visitedBins then .done s
  else .yield { s with currentId := nextBinId, visitedBins := nextBinId :: s.visitedBins }

/-- `saturating_add`. -/
def addOut (amountOut out : U256) : U256 :=
  if amountOut.toNat + out.toNat < 2 ^ 256 then amountOut + out else BitVec.allOnes 256

/-- What a round does with the result of its bin. -/
def settle (s : SwapState) (swapForY : Bool) (result : BinSwapResult) : ForInStep SwapState :=
  let s := if result.amountOut ≠ 0 then { s with amountOut := addOut s.amountOut result.amountOut }
    else s
  if result.amountInWithFee ≠ 0 ∧ result.amountInWithFee ≥ s.amountLeft then
    .done { s with amountLeft := 0 }
  else
    let s := { s with amountLeft := s.amountLeft - result.amountInWithFee }
    if result.binExhausted ∨ result.amountOut = 0 then s.advance swapForY else .done s

/-- One round of the loop. -/
def round (s : SwapState) (swapForY : Bool) : PairM (ForInStep SwapState) := do
  match (← get).bins.lookup s.currentId with
  | none => return s.advance swapForY
  | some _ =>
    let parameters := s.parameters.updateVolatilityAccumulator s.currentId
    let result ←
      MoeLbPair.simulateSingleBin prof parameters s.currentId swapForY s.amountLeft
    return settle { s with parameters } swapForY result

/-- `while !amount_left.is_zero() && loops < MAX_ITERATIONS`, with the loops that are left. -/
def loop (swapForY : Bool) : Nat → SwapState → PairM SwapState
  | 0, s => return s
  | loops + 1, s =>
    if s.amountLeft = 0 then return s
    else do
      match ← s.round prof swapForY with
      | .done s => return s
      | .yield s => loop swapForY loops s

end SwapState

namespace MoeLbPair

variable (prof : BuildProfile)

/-- The state in which the loop is entered. -/
def startSwap (pair : MoeLbPair) (amountLeft : U256) (timestamp : Nat) : SwapState where
  parameters := (MoeParameters.fromPair pair).updateReferences timestamp
  amountLeft := amountLeft
  amountOut := 0
  currentId := pair.activeId
  visitedBins := []

/-- `simulate_swap_precise`: the result, and the pair that the call leaves. -/
def simulateSwapPrecise (pair : MoeLbPair) (swapForY : Bool) (amountLeft : U256)
    (timestamp : Nat) : Outcome AMMError U256 × MoeLbPair :=
  if pair.bins.entries.isEmpty then (.ok 0, pair)
  else
    let run : PairM U256 := do
      let s ← SwapState.loop prof swapForY MAX_ITERATIONS (pair.startSwap amountLeft timestamp)
      modify fun pair => s.parameters.writeBack pair
      return s.amountOut
    run pair

end MoeLbPair

end ArbitrageBot
