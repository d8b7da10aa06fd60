import ArbitrageBot.Amms.Moe.Swap

/-!
# Moe liquidity-book pairs: the swaps of the pool interface

`simulate_swap_across_bins` guards the precise simulation and rejects an implausible output;
`simulate_swap_with_timestamp` runs it on a clone, `simulate_swap_mut` on the pair itself. A pair
without bins falls back to a constant product.
-/

namespace ArbitrageBot.MoeLbPair

def MAX_REASONABLE_RESERVE : Nat := 10 ^ 30
def MIN_INPUT_THRESHOLD : Nat := 10 ^ 15

/-- The sanity checks on an output, against the reserves after the swap. -/
def isSane (pair : MoeLbPair) (swapForY : Bool) (amountIn amountOut : U256) : Bool :=
  let maxReserve : U256 := BitVec.ofNat 256 (if swapForY then pair.reserveY else pair.reserveX)
  !(amountOut > maxReserve) && !(amountOut > amountIn * 1000#256) &&
    !(amountIn < BitVec.ofNat 256 MIN_INPUT_THRESHOLD && amountOut > amountIn * 100#256)

variable (prof : BuildProfile)

/-- `simulate_swap_across_bins`: the result, and the pair that the call leaves. -/
def simulateSwapAcrossBins (pair : MoeLbPair) (swapForY : Bool) (amountIn : U256)
    (timestamp : Nat) : Outcome AMMError U256 × MoeLbPair :=
  if amountIn = 0 then (.ok 0, pair)
  else if pair.reserveX = 0 ∨ pair.reserveY = 0 then (.ok 0, pair)
  else if pair.reserveX > MAX_REASONABLE_RESERVE ∨ pair.reserveY > MAX_REASONABLE_RESERVE then
    (.ok 0, pair)
  else
    match pair.simulateSwapPrecise prof swapForY amountIn timestamp with
    | (.error e, pair) => (.error e, pair)
    | (.ok amountOut, pair) =>
      if pair.isSane swapForY amountIn amountOut then (.ok amountOut, pair) else (.ok 0, pair)

/-- The fallback of a pair without bins: a constant product, with the bin step and the protocol
share as fee in basis points. -/
def simulateConstantProduct (pair : MoeLbPair) (baseToken : Address) (amountIn : U256) :
    Outcome AMMError U256 :=
  let reserves : Option (U256 × U256) :=
    if baseToken = pair.tokenX.address then
      some (BitVec.ofNat 256 pair.reserveX, BitVec.ofNat 256 pair.reserveY)
    else if baseToken = pair.tokenY.address then
      some (BitVec.ofNat 256 pair.reserveY, BitVec.ofNat 256 pair.reserveX)
    else none
  match reserves with
  | none => .ok 0
  | some (reserveIn, reserveOut) =>
    if reserveIn = 0 ∨ reserveOut = 0 then .ok 0
    else
      let totalFeeBps := pair.binStep + pair.protocolShareBps
      let feeAmount := amountIn * BitVec.ofNat 256 totalFeeBps / 10000#256
      let amountInAfterFee := if feeAmount ≤ amountIn then amountIn - feeAmount else 0
      let numerator := amountInAfterFee * reserveOut
      let denominator := reserveIn + amountInAfterFee
      if denominator = 0 then .error .panic
      else
        let amountOut := numerator / denominator
        if amountOut > reserveOut ∨ amountOut > amountIn * 1000#256 then .ok 0 else .ok amountOut

/-- `simulate_swap_with_timestamp`, on a clone. -/
def simulateSwapWithTimestamp (pair : MoeLbPair) (baseToken : Address) (amountIn : U256)
    (timestamp : Nat) : Outcome AMMError U256 :=
  if amountIn = 0 then .ok 0
  else if !pair.bins.entries.isEmpty then
    (pair.simulateSwapAcrossBins prof (baseToken == pair.tokenX.address) amountIn timestamp).1
  else pair.simulateConstantProduct baseToken amountIn

def simulateSwap (pair : MoeLbPair) (baseToken : Address) (amountIn : U256) :
    Outcome AMMError U256 :=
  pair.simulateSwapWithTimestamp prof baseToken amountIn pair.timeOfLastUpdate

open PairM in
/-- The totals as `simulate_swap_mut` updates them after the swap. -/
def updateTotals (baseToken : Address) (amountIn amountOut : U256) : PairM Unit := do
  let pair ← get
  if baseToken = pair.tokenX.address then do
    let amountIn ← ofOutcome (castU128 amountIn)
    modify fun pair => { pair with reserveX := saturatingAdd pair.reserveX amountIn }
    let amountOut ← ofOutcome (castU128 amountOut)
    modify fun pair => { pair with reserveY := pair.reserveY - amountOut }
  else do
    let amountIn ← ofOutcome (castU128 amountIn)
    modify fun pair => { pair with reserveY := saturatingAdd pair.reserveY amountIn }
    let amountOut ← ofOutcome (castU128 amountOut)
    modify fun pair => { pair with reserveX := pair.reserveX - amountOut }

/-- The swap of `simulate_swap_mut`, before it updates the totals. -/
def simulateSwapForMut (baseToken : Address) (amountIn : U256) : PairM U256 := fun pair =>
  if !pair.bins.entries.isEmpty then
    pair.simulateSwapAcrossBins prof (baseToken == pair.tokenX.address) amountIn
      pair.timeOfLastUpdate
  else (pair.simulateSwap prof baseToken amountIn, pair)

/-- `simulate_swap_mut`: the result, and the pair that the call leaves. -/
def simulateSwapMut (pair : MoeLbPair) (baseToken : Address) (amountIn : U256) :
    Outcome AMMError U256 × MoeLbPair :=
  let run : PairM U256 := do
    let amountOut ← simulateSwapForMut prof baseToken amountIn
    updateTotals baseToken amountIn amountOut
    return amountOut
  run pair

end ArbitrageBot.MoeLbPair
