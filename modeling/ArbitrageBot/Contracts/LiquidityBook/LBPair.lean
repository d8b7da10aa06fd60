import ArbitrageBot.Contracts.LiquidityBook.Math
import ArbitrageBot.Contracts.LiquidityBook.TreeMath

/-!
# Liquidity-book pairs: the quote of a swap

`LBPair.getSwapOut`, over the state of the pair that it reads. The gas of a call is counted in
rounds of the loop.
-/

namespace ArbitrageBot.LiquidityBook

/-- The storage of a pair that a quote reads; the tree holds the bins that hold a reserve. -/
structure LBPair where
  parameters : U256
  binStep : Nat
  bins : Nat → U256
  tree : TreeUint24
  tree_wellFormed : tree.WellFormed
  mem_tree_iff : ∀ id < 2 ^ 24, TreeMath.contains tree id = true ↔ bins id ≠ 0

/-- The variables of the loop of `getSwapOut`. -/
structure QuoteState where
  amountsInLeft : U256
  amountOut : Nat
  fee : Nat
  id : Nat
  parameters : U256

namespace LBPair

open PackedUint128Math

variable (pair : LBPair) (swapForY : Bool)

/-- `_getNextNonEmptyBin`. -/
def getNextNonEmptyBin (id : Nat) : Nat :=
  if swapForY then TreeMath.findFirstRight pair.tree id else TreeMath.findFirstLeft pair.tree id

/-- The amounts of the bin of `s`, when it holds the token that is bought. -/
def binAmounts (s : QuoteState) : Call (U256 × U256 × U256 × U256) := do
  let parameters ← PairParameterHelper.updateVolatilityAccumulator s.parameters s.id
  let (amountsInWithFees, amountsOutOfBin, totalFees) ←
    BinHelper.getAmounts (pair.bins s.id) parameters pair.binStep swapForY s.id s.amountsInLeft
  return (parameters, amountsInWithFees, amountsOutOfBin, totalFees)

/-- The swap in the bin of `s`. -/
def swapInBin (s : QuoteState) : Call QuoteState :=
  if BinHelper.isEmpty (pair.bins s.id) (!swapForY) then .ok s
  else do
    let (parameters, amountsInWithFees, amountsOutOfBin, totalFees) ← pair.binAmounts swapForY s
    if amountsInWithFees > 0 then
      let amountsInLeft ← sub s.amountsInLeft amountsInWithFees
      let amountOut ← checkedAdd128 s.amountOut (decode amountsOutOfBin (!swapForY))
      let fee ← checkedAdd128 s.fee (decode totalFees swapForY)
      return { s with amountsInLeft, amountOut, fee, parameters }
    else return { s with parameters }

/-- One round of the loop. -/
def quoteRound (s : QuoteState) : Call (ForInStep QuoteState) := do
  let s ← pair.swapInBin swapForY s
  if s.amountsInLeft = 0 then return .done s
  else
    let nextId := pair.getNextNonEmptyBin swapForY s.id
    if nextId = 0 ∨ nextId = TreeMath.UINT24_MAX then return .done s
    else return .yield { s with id := nextId }

/-- `while (true)`, for as long as the gas lasts. -/
def quoteLoop : Nat → QuoteState → Call QuoteState
  | 0, _ => .error .outOfGas
  | gas + 1, s => do
    match ← pair.quoteRound swapForY s with
    | .done s => .ok s
    | .yield s => quoteLoop gas s

/-- The states in which the rounds of the loop begin. -/
def quoteVisits : Nat → QuoteState → List QuoteState
  | 0, _ => []
  | gas + 1, s =>
    s :: match pair.quoteRound swapForY s with
      | .ok (.yield s) => quoteVisits gas s
      | _ => []

/-- The state in which the loop is entered, `timestamp` being that of the block. -/
def startQuote (timestamp amountIn : Nat) : Call QuoteState := do
  let parameters ← PairParameterHelper.updateReferences pair.parameters timestamp
  return {
    amountsInLeft := encode amountIn swapForY
    amountOut := 0
    fee := 0
    id := PairParameterHelper.getActiveId pair.parameters
    parameters }

/-- `getSwapOut`: the input that is left, the output and the fee. -/
def getSwapOut (gas timestamp amountIn : Nat) : Call (Nat × Nat × Nat) := do
  let s ← pair.startQuote swapForY timestamp amountIn
  let s ← pair.quoteLoop swapForY gas s
  return (decode s.amountsInLeft swapForY, s.amountOut, s.fee)

end LBPair

end ArbitrageBot.LiquidityBook
