import ArbitrageBot.Amms.Machine
import ArbitrageBot.Lib.Words

/-!
# The libraries of the liquidity-book contracts

What `LBPair.getSwapOut` computes with, each library in a namespace of its name. `uint256` and
`bytes32` are words; narrower unsigned integers are numbers. Arithmetic is checked except where the
source says `unchecked` or drops to assembly.
-/

namespace ArbitrageBot.LiquidityBook

open Lib

/-- Why a call reverts: a custom error, a panic of the compiler's checks, or no gas left. -/
inductive Revert where
  | error (name : String)
  | panic (code : Nat)
  | outOfGas
  deriving DecidableEq, Repr

abbrev Call := Except Revert

def ARITHMETIC_PANIC : Nat := 0x11
def DIVISION_PANIC : Nat := 0x12

def checkedAdd128 (a b : Nat) : Call Nat :=
  if a + b < 2 ^ 128 then .ok (a + b) else .error (.panic ARITHMETIC_PANIC)

def checkedSub (a b : Nat) : Call Nat :=
  if b ≤ a then .ok (a - b) else .error (.panic ARITHMETIC_PANIC)

def checkedIncr (result : U256) : Call U256 :=
  if result = BitVec.allOnes 256 then .error (.panic ARITHMETIC_PANIC) else .ok (result + 1)

/-! ## Constants -/

namespace Constants

def SCALE_OFFSET : Nat := 128
def SCALE : U256 := 1 <<< SCALE_OFFSET
def PRECISION : U256 := 1000000000000000000#256
def MAX_FEE : Nat := 100000000000000000
def BASIS_POINT_MAX : Nat := 10000
def MAX_LIQUIDITY_PER_BIN : U256 :=
  65251743116719673010965625540244653191619923014385985379600384103134737#256

end Constants

/-! ## SafeCast -/

namespace SafeCast

def safe128 (x : U256) : Call Nat :=
  if x.toNat < 2 ^ 128 then .ok x.toNat else .error (.error "SafeCast__Exceeds128Bits")

def safe40 (x : Nat) : Call Nat :=
  if x < 2 ^ 40 then .ok x else .error (.error "SafeCast__Exceeds40Bits")

end SafeCast

/-! ## PackedUint128Math -/

namespace PackedUint128Math

def OFFSET : Nat := 128
def MASK_128 : U256 := 0xffffffffffffffffffffffffffffffff#256

def encodeFirst (x1 : Nat) : U256 := BitVec.ofNat 256 x1 &&& MASK_128

def encodeSecond (x2 : Nat) : U256 := BitVec.ofNat 256 x2 <<< OFFSET

def encode (x : Nat) (first : Bool) : U256 := if first then encodeFirst x else encodeSecond x

def decodeX (z : U256) : Nat := (z &&& MASK_128).toNat

def decodeY (z : U256) : Nat := (z >>> OFFSET).toNat

def decode (z : U256) (first : Bool) : Nat := if first then decodeX z else decodeY z

/-- `uint128(uint256(z))`. -/
def toUint128 (z : U256) : Nat := z.toNat % 2 ^ 128

def add (x y : U256) : Call U256 :=
  let z := x + y
  if z < x ∨ toUint128 z < toUint128 x then
    .error (.error "PackedUint128Math__AddOverflow")
  else .ok z

def sub (x y : U256) : Call U256 :=
  let z := x - y
  if z > x ∨ toUint128 z > toUint128 x then
    .error (.error "PackedUint128Math__SubUnderflow")
  else .ok z

end PackedUint128Math

/-! ## Encoded -/

namespace Encoded

def MASK_UINT12 : U256 := 0xfff#256
def MASK_UINT14 : U256 := 0x3fff#256
def MASK_UINT16 : U256 := 0xffff#256
def MASK_UINT20 : U256 := 0xfffff#256
def MASK_UINT24 : U256 := 0xffffff#256
def MASK_UINT40 : U256 := 0xffffffffff#256

def set (encoded value mask : U256) (offset : Nat) : U256 :=
  let newEncoded := encoded &&& ~~~(mask <<< offset)
  newEncoded ||| ((value &&& mask) <<< offset)

def decode (encoded mask : U256) (offset : Nat) : U256 := (encoded >>> offset) &&& mask

end Encoded

/-! ## PairParameterHelper -/

namespace PairParameterHelper

open Encoded

def OFFSET_BASE_FACTOR : Nat := 0
def OFFSET_FILTER_PERIOD : Nat := 16
def OFFSET_DECAY_PERIOD : Nat := 28
def OFFSET_REDUCTION_FACTOR : Nat := 40
def OFFSET_VAR_FEE_CONTROL : Nat := 54
def OFFSET_PROTOCOL_SHARE : Nat := 78
def OFFSET_MAX_VOL_ACC : Nat := 92
def OFFSET_VOL_ACC : Nat := 112
def OFFSET_VOL_REF : Nat := 132
def OFFSET_ID_REF : Nat := 152
def OFFSET_TIME_LAST_UPDATE : Nat := 176
def OFFSET_ACTIVE_ID : Nat := 232

variable (params : U256)

def getBaseFactor : Nat := (decode params MASK_UINT16 OFFSET_BASE_FACTOR).toNat
def getFilterPeriod : Nat := (decode params MASK_UINT12 OFFSET_FILTER_PERIOD).toNat
def getDecayPeriod : Nat := (decode params MASK_UINT12 OFFSET_DECAY_PERIOD).toNat
def getReductionFactor : Nat := (decode params MASK_UINT14 OFFSET_REDUCTION_FACTOR).toNat
def getVariableFeeControl : Nat := (decode params MASK_UINT24 OFFSET_VAR_FEE_CONTROL).toNat
def getProtocolShare : Nat := (decode params MASK_UINT14 OFFSET_PROTOCOL_SHARE).toNat
def getMaxVolatilityAccumulator : Nat := (decode params MASK_UINT20 OFFSET_MAX_VOL_ACC).toNat
def getVolatilityAccumulator : Nat := (decode params MASK_UINT20 OFFSET_VOL_ACC).toNat
def getVolatilityReference : Nat := (decode params MASK_UINT20 OFFSET_VOL_REF).toNat
def getIdReference : Nat := (decode params MASK_UINT24 OFFSET_ID_REF).toNat
def getTimeOfLastUpdate : Nat := (decode params MASK_UINT40 OFFSET_TIME_LAST_UPDATE).toNat
def getActiveId : Nat := (decode params MASK_UINT24 OFFSET_ACTIVE_ID).toNat

def getBaseFee (binStep : Nat) : U256 :=
  BitVec.ofNat 256 (getBaseFactor params) * BitVec.ofNat 256 binStep * 10000000000#256

def getVariableFee (binStep : Nat) : U256 :=
  let variableFeeControl := getVariableFeeControl params
  if variableFeeControl ≠ 0 then
    let prod := BitVec.ofNat 256 (getVolatilityAccumulator params) * BitVec.ofNat 256 binStep
    (prod * prod * BitVec.ofNat 256 variableFeeControl + 99#256) / 100#256
  else 0

def getTotalFee (binStep : Nat) : Call Nat :=
  SafeCast.safe128 (getBaseFee params binStep + getVariableFee params binStep)

def setVolatilityReference (volRef : Nat) : Call U256 :=
  if volRef > MASK_UINT20.toNat then .error (.error "PairParametersHelper__InvalidParameter")
  else .ok (set params (BitVec.ofNat 256 volRef) MASK_UINT20 OFFSET_VOL_REF)

def setVolatilityAccumulator (volAcc : Nat) : Call U256 :=
  if volAcc > MASK_UINT20.toNat then .error (.error "PairParametersHelper__InvalidParameter")
  else .ok (set params (BitVec.ofNat 256 volAcc) MASK_UINT20 OFFSET_VOL_ACC)

def updateIdReference : U256 :=
  set params (BitVec.ofNat 256 (getActiveId params)) MASK_UINT24 OFFSET_ID_REF

def updateTimeOfLastUpdate (timestamp : Nat) : Call U256 := do
  let currentTime ← SafeCast.safe40 timestamp
  return set params (BitVec.ofNat 256 currentTime) MASK_UINT40 OFFSET_TIME_LAST_UPDATE

/-- The quotient is cut to `uint24`. -/
def updateVolatilityReference : Call U256 :=
  let volAcc := getVolatilityAccumulator params
  let reductionFactor := getReductionFactor params
  setVolatilityReference params (volAcc * reductionFactor / Constants.BASIS_POINT_MAX % 2 ^ 24)

def updateVolatilityAccumulator (activeId : Nat) : Call U256 :=
  let idReference := getIdReference params
  let deltaId := if activeId > idReference then activeId - idReference else idReference - activeId
  let volAcc := getVolatilityReference params + deltaId * Constants.BASIS_POINT_MAX
  let maxVolAcc := getMaxVolatilityAccumulator params
  let volAcc := if volAcc > maxVolAcc then maxVolAcc else volAcc
  setVolatilityAccumulator params (volAcc % 2 ^ 24)

/-- The references, `dt` after the last update. -/
def updateReferencesAfter (dt : Nat) : Call U256 :=
  if dt ≥ getFilterPeriod params then
    let params := updateIdReference params
    if dt < getDecayPeriod params then updateVolatilityReference params
    else setVolatilityReference params 0
  else .ok params

def updateReferences (timestamp : Nat) : Call U256 := do
  let dt ← checkedSub timestamp (getTimeOfLastUpdate params)
  let params ← updateReferencesAfter params dt
  updateTimeOfLastUpdate params timestamp

end PairParameterHelper

/-! ## Uint256x256Math -/

namespace Uint256x256Math

def getMulProds (x y : U256) : U256 × U256 :=
  let mm := Words.mulMod x y (~~~0)
  let prod0 := x * y
  (prod0, mm - prod0 - (if mm < prod0 then 1 else 0))

def getEndOfDivRoundDown (x y denominator prod0 prod1 : U256) : Call U256 :=
  if prod1 = 0 then
    if denominator = 0 then .error (.panic DIVISION_PANIC) else .ok (prod0 / denominator)
  else if prod1 ≥ denominator then .error (.error "Uint256x256Math__MulDivOverflow")
  else
    let remainder := Words.mulMod x y denominator
    let prod1 := prod1 - (if remainder > prod0 then 1 else 0)
    let prod0 := prod0 - remainder
    let lpotdod := denominator &&& (~~~denominator + 1)
    let denominator := denominator / lpotdod
    let prod0 := prod0 / lpotdod
    let lpotdod := (0 - lpotdod) / lpotdod + 1
    let prod0 := prod0 ||| (prod1 * lpotdod)
    let inverse := (3 * denominator) ^^^ 2
    let inverse := inverse * (2 - denominator * inverse)
    let inverse := inverse * (2 - denominator * inverse)
    let inverse := inverse * (2 - denominator * inverse)
    let inverse := inverse * (2 - denominator * inverse)
    let inverse := inverse * (2 - denominator * inverse)
    let inverse := inverse * (2 - denominator * inverse)
    .ok (prod0 * inverse)

def mulShiftRoundDown (x y : U256) (offset : Nat) : Call U256 :=
  let (prod0, prod1) := getMulProds x y
  let result := if prod0 ≠ 0 then prod0 >>> offset else 0
  if prod1 ≠ 0 then
    if prod1 ≥ 1 <<< offset then .error (.error "Uint256x256Math__MulShiftOverflow")
    else .ok (result + (prod1 <<< (256 - offset)))
  else .ok result

def mulShiftRoundUp (x y : U256) (offset : Nat) : Call U256 := do
  let result ← mulShiftRoundDown x y offset
  if Words.mulMod x y (1 <<< offset) ≠ 0 then checkedIncr result else return result

def shiftDivRoundDown (x : U256) (offset : Nat) (denominator : U256) : Call U256 :=
  let prod0 := x <<< offset
  let prod1 := x >>> (256 - offset)
  getEndOfDivRoundDown x (1 <<< offset) denominator prod0 prod1

def shiftDivRoundUp (x : U256) (offset : Nat) (denominator : U256) : Call U256 := do
  let result ← shiftDivRoundDown x offset denominator
  if Words.mulMod x (1 <<< offset) denominator ≠ 0 then checkedIncr result else return result

end Uint256x256Math

/-! ## Uint128x128Math -/

namespace Uint128x128Math

/-- One line of the unrolled exponentiation, for bit `i` of the exponent. -/
def powLine (absY : Nat) (s : U256 × U256) (i : Nat) : U256 × U256 :=
  (if absY.testBit i then (s.1 * s.2) >>> 128 else s.1, (s.2 * s.2) >>> 128)

def pow (x : U256) (y : Int) : Call U256 :=
  if y = 0 then .ok Constants.SCALE
  else
    let absY := y.natAbs
    let inverted := x > 0xffffffffffffffffffffffffffffffff#256
    let squared := if inverted then BitVec.allOnes 256 / x else x
    let result :=
      if absY < 0x100000 then
        ((List.range 20).foldl (powLine absY) (Constants.SCALE, squared)).1
      else 0
    let invert := decide (y < 0) ^^ (decide (absY < 0x100000) && decide inverted)
    if result = 0 then .error (.error "Uint128x128Math__PowUnderflow")
    else .ok (if invert then BitVec.allOnes 256 / result else result)

end Uint128x128Math

/-! ## PriceHelper -/

namespace PriceHelper

def REAL_ID_SHIFT : Int := 2 ^ 23

def getBase (binStep : Nat) : U256 :=
  Constants.SCALE +
    (BitVec.ofNat 256 binStep <<< Constants.SCALE_OFFSET) /
      BitVec.ofNat 256 Constants.BASIS_POINT_MAX

def getExponent (id : Nat) : Int := id - REAL_ID_SHIFT

def getPriceFromId (id binStep : Nat) : Call U256 :=
  Uint128x128Math.pow (getBase binStep) (getExponent id)

end PriceHelper

/-! ## FeeHelper -/

namespace FeeHelper

def verifyFee (fee : Nat) : Call Unit :=
  if fee > Constants.MAX_FEE then .error (.error "FeeHelper__FeeTooLarge") else .ok ()

def getFeeAmountFrom (amountWithFees totalFee : Nat) : Call Nat := do
  verifyFee totalFee
  return PackedUint128Math.toUint128
    ((BitVec.ofNat 256 amountWithFees * BitVec.ofNat 256 totalFee + Constants.PRECISION - 1) /
      Constants.PRECISION)

def getFeeAmount (amount totalFee : Nat) : Call Nat := do
  verifyFee totalFee
  let denominator := Constants.PRECISION - BitVec.ofNat 256 totalFee
  return PackedUint128Math.toUint128
    ((BitVec.ofNat 256 amount * BitVec.ofNat 256 totalFee + denominator - 1) / denominator)

end FeeHelper

/-! ## BinHelper -/

namespace BinHelper

open PackedUint128Math Uint256x256Math

/-- `L = price * x + y`: `price * x`, then `y << SCALE_OFFSET` added, each step with its overflow
check. -/
def getLiquidity (amounts price : U256) : Call U256 :=
  Words.checkedMulAdd (.error "BinHelper__LiquidityOverflow") price
    (BitVec.ofNat 256 (decodeX amounts)) (BitVec.ofNat 256 (decodeY amounts))

def isEmpty (binReserves : U256) (isX : Bool) : Bool :=
  if isX then decodeX binReserves == 0 else decodeY binReserves == 0

/-- The input that takes the whole reserve, without fee. -/
def maxAmountIn (swapForY : Bool) (binReserveOut : Nat) (price : U256) : Call Nat := do
  if swapForY then
    SafeCast.safe128
      (← shiftDivRoundUp (BitVec.ofNat 256 binReserveOut) Constants.SCALE_OFFSET price)
  else
    SafeCast.safe128
      (← mulShiftRoundUp (BitVec.ofNat 256 binReserveOut) price Constants.SCALE_OFFSET)

/-- The output for an input net of its fee. -/
def amountOutFor (swapForY : Bool) (amountIn : Nat) (price : U256) : Call Nat := do
  if swapForY then
    SafeCast.safe128 (← mulShiftRoundDown (BitVec.ofNat 256 amountIn) price Constants.SCALE_OFFSET)
  else
    SafeCast.safe128 (← shiftDivRoundDown (BitVec.ofNat 256 amountIn) Constants.SCALE_OFFSET price)

/-- The input with fees, the output and the fee of a swap in one bin, as lanes. -/
def swapAmounts (parameters : U256) (binStep : Nat) (swapForY : Bool) (price : U256)
    (binReserveOut amountIn128 : Nat) : Call (Nat × Nat × Nat) := do
  let maxIn ← maxAmountIn swapForY binReserveOut price
  let totalFee ← PairParameterHelper.getTotalFee parameters binStep
  let maxFee ← FeeHelper.getFeeAmount maxIn totalFee
  let maxIn ← checkedAdd128 maxIn maxFee
  if amountIn128 ≥ maxIn then return (maxIn, binReserveOut, maxFee)
  else
    let fee128 ← FeeHelper.getFeeAmountFrom amountIn128 totalFee
    let amountIn ← checkedSub amountIn128 fee128
    let amountOut128 ← amountOutFor swapForY amountIn price
    return (amountIn128, if amountOut128 > binReserveOut then binReserveOut else amountOut128,
      fee128)

def getAmounts (binReserves parameters : U256) (binStep : Nat) (swapForY : Bool) (activeId : Nat)
    (amountsInLeft : U256) : Call (U256 × U256 × U256) := do
  let price ← PriceHelper.getPriceFromId activeId binStep
  let (amountIn128, amountOut128, fee128) ←
    swapAmounts parameters binStep swapForY price (decode binReserves (!swapForY))
      (decode amountsInLeft swapForY)
  let amountsInWithFees := encode amountIn128 swapForY
  let amountsOutOfBin := encode amountOut128 (!swapForY)
  let totalFees := encode fee128 swapForY
  let amounts ← sub (← add binReserves amountsInWithFees) amountsOutOfBin
  let liquidity ← getLiquidity amounts price
  if liquidity > Constants.MAX_LIQUIDITY_PER_BIN then
    .error (.error "BinHelper__MaxLiquidityPerBinExceeded")
  else return (amountsInWithFees, amountsOutOfBin, totalFees)

end BinHelper

end ArbitrageBot.LiquidityBook
