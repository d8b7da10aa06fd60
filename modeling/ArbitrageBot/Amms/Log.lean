import ArbitrageBot.Amms.Machine

/-!
# Event logs

A log as the `sync` methods read it: its first topic selects the event and the typed decoder turns
topics and data into the event's fields. Decoding itself is the ABI library's; a log carries its
result, a log whose data does not decode only its signature.
-/

namespace ArbitrageBot

/-- The event signatures the pools recognise. `Mint` and `Burn` have one signature in Uniswap V3
and in Agni; their `Swap` events differ. -/
inductive Signature where
  | uniswapV2Sync
  | mint
  | burn
  | uniswapV3Swap
  | agniSwap
  | moeSwap
  | depositedToBins
  | withdrawnFromBins
  | other
  deriving DecidableEq, Repr

/-- A decoded event: the fields the pools read. -/
inductive Event where
  | uniswapV2Sync (reserve0 reserve1 : Nat)
  | mint (tickLower tickUpper : Int) (amount : Nat)
  | burn (tickLower tickUpper : Int) (amount : Nat)
  | uniswapV3Swap (sqrtPriceX96 : U256) (liquidity : Nat) (tick : Int)
  | agniSwap (sqrtPriceX96 : U256) (liquidity : Nat) (tick : Int)
  | moeSwap (id : Nat)
  | depositedToBins (ids : List U256) (amounts : List U256)
  | withdrawnFromBins (ids : List U256) (amounts : List U256)
  deriving DecidableEq, Repr

inductive Payload where
  | event (e : Event)
  | undecodable (sig : Signature)
  | anonymous
  deriving DecidableEq, Repr

structure Log where
  address : Address
  blockNumber : Option Nat
  payload : Payload
  deriving DecidableEq, Repr

/-- The error of a typed decoder on a log with signature `sig`, in a method that recognises the
signatures `known`. -/
def decodeError (known : List Signature) (sig : Signature) : Fault AMMError :=
  if sig ∈ known then .err .solTypesError else .err .unrecognizedEventSignature

/-- The signature of a decoded event. -/
def Event.signature : Event → Signature
  | .uniswapV2Sync .. => .uniswapV2Sync
  | .mint .. => .mint
  | .burn .. => .burn
  | .uniswapV3Swap .. => .uniswapV3Swap
  | .agniSwap .. => .agniSwap
  | .moeSwap .. => .moeSwap
  | .depositedToBins .. => .depositedToBins
  | .withdrawnFromBins .. => .withdrawnFromBins

end ArbitrageBot
