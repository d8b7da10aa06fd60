import ArbitrageBot.Amms.Machine
import ArbitrageBot.Lib.Loop
import ArbitrageBot.Lib.Words

/-!
# Moe liquidity-book mathematics

The modules of `moe/math` that a swap goes through, each in a namespace of its name. The operators
of `U256` wrap; `u128` sums and differences are checked by the build profile. Products of decoded
`u16` and `u24` fields do not reach 128 bits.
-/

namespace ArbitrageBot.Moe

open Lib

inductive MoeLbtMathError where
  | zeroValue
  | divisionByZero
  | overflow
  | underflow
  | logUnderflow
  | powUnderflow
  | valueExceedsBits (bits : Nat)
  | multiplierTooLarge
  | feeTooLarge
  | protocolShareTooLarge
  | maxLiquidityPerBinExceeded
  | liquidityOverflow
  | invalidConfig
  | invalidParameter
  deriving DecidableEq, Repr

/-- The outcome of a function of `moe/math`. -/
abbrev MathOutcome := Outcome MoeLbtMathError

/-- `u128::try_from(U256)`. -/
def toU128 {ε : Type} (e : ε) (val : U256) : Outcome ε Nat :=
  if val.toNat < 2 ^ 128 then .ok val.toNat else .error (.err e)

/-- `as_limbs()[0]`. -/
def limb0 (val : U256) : Nat := val.toNat % 2 ^ 64

/-! ## constants -/

def REAL_ID_SHIFT : Int := 2 ^ 23
def SCALE_OFFSET : Nat := 128
def SCALE : U256 := 1 <<< 128
def PRECISION_U128 : Nat := 1000000000000000000
def PRECISION : U256 := 1000000000000000000#256
def MAX_FEE_U128 : Nat := 100000000000000000
def MAX_PROTOCOL_SHARE : Nat := 2500
def BASIS_POINT_MAX_U128 : Nat := 10000

/-- From its limbs, little-endian. -/
def MAX_LIQUIDITY_PER_BIN : U256 := BitVec.ofNat 256
  (7868752419796399633 + 14574905401537909530 * 2 ^ 64 + 16199717119757969306 * 2 ^ 128 +
    10395202414653 * 2 ^ 192)

/-! ## packed_uint128_math -/

namespace PackedUint128Math

def MASK_128 : U256 := BitVec.ofNat 256 (2 ^ 128 - 1)
def OFFSET : Nat := 128

def encode (x1 x2 : Nat) : U256 :=
  BitVec.ofNat 256 x1 ||| (BitVec.ofNat 256 x2 <<< OFFSET)

/-- Of the lane only the low limb is read. -/
def decodeX (z : U256) : Nat := limb0 (z &&& MASK_128)

def decodeY (z : U256) : Nat := limb0 (z >>> OFFSET)

def decode (z : U256) : Nat × Nat := (decodeX z, decodeY z)

def decodeFirst (z : U256) (isFirst : Bool) : Nat :=
  if isFirst then decodeX z else decodeY z

def add (x y : U256) : MathOutcome U256 :=
  let z := x + y
  if z &&& MASK_128 < x &&& MASK_128 ∨
      (z >>> OFFSET) &&& MASK_128 < (x >>> OFFSET) &&& MASK_128 then
    .error (.err .overflow)
  else .ok z

def sub (x y : U256) : MathOutcome U256 :=
  if x &&& MASK_128 < y &&& MASK_128 ∨
      (x >>> OFFSET) &&& MASK_128 < (y >>> OFFSET) &&& MASK_128 then
    .error (.err .underflow)
  else .ok (x - y)

end PackedUint128Math

/-! ## encoded -/

namespace Encoded

def MASK_UINT12 : U256 := 0xfff#256
def MASK_UINT14 : U256 := 0x3fff#256
def MASK_UINT16 : U256 := 0xffff#256
def MASK_UINT20 : U256 := 0xfffff#256
def MASK_UINT24 : U256 := 0xffffff#256

def set (encoded value mask : U256) (offset : Nat) : U256 :=
  (encoded &&& ~~~(mask <<< offset)) ||| ((value &&& mask) <<< offset)

def decode (encoded mask : U256) (offset : Nat) : U256 := (encoded >>> offset) &&& mask

def decodeU16 (encoded : U256) (offset : Nat) : Nat :=
  limb0 (decode encoded MASK_UINT16 offset) % 2 ^ 16

def decodeU20 (encoded : U256) (offset : Nat) : Nat :=
  limb0 (decode encoded MASK_UINT20 offset) &&& 0xfffff

def decodeU24 (encoded : U256) (offset : Nat) : Nat :=
  limb0 (decode encoded MASK_UINT24 offset) &&& 0xffffff

end Encoded

/-! ## pair_parameter_helper -/

namespace PairParameterHelper

def OFFSET_BASE_FACTOR : Nat := 0
def OFFSET_FILTER_PERIOD : Nat := 16
def OFFSET_DECAY_PERIOD : Nat := 28
def OFFSET_REDUCTION_FACTOR : Nat := 40
def OFFSET_VAR_FEE_CONTROL : Nat := 54
def OFFSET_PROTOCOL_SHARE : Nat := 78
def OFFSET_MAX_VOL_ACC : Nat := 92
def OFFSET_VOL_ACC : Nat := 112
def OFFSET_VOL_REF : Nat := 132
def OFFSET_ID_REF : Nat := 152
def OFFSET_ACTIVE_ID : Nat := 232

def BASE_FEE_SCALAR : Nat := 10000000000

open Encoded

def getBaseFactor (params : U256) : Nat := decodeU16 params OFFSET_BASE_FACTOR

def getVariableFeeControl (params : U256) : Nat := decodeU24 params OFFSET_VAR_FEE_CONTROL

def getVolatilityAccumulator (params : U256) : Nat := decodeU20 params OFFSET_VOL_ACC

def getBaseFee (params : U256) (binStep : Nat) : Nat :=
  getBaseFactor params * binStep * BASE_FEE_SCALAR

def getVariableFee (params : U256) (binStep : Nat) : Nat :=
  let variableFeeControl := getVariableFeeControl params
  if variableFeeControl = 0 then 0
  else
    let prod := BitVec.ofNat 256 (getVolatilityAccumulator params * binStep)
    let numerator := prod * prod * BitVec.ofNat 256 variableFeeControl
    let result : U256 := (numerator + 99#256) / 100#256
    if result.toNat < 2 ^ 128 then result.toNat else 2 ^ 128 - 1

def getTotalFee (params : U256) (binStep : Nat) : MathOutcome Nat :=
  let sum := getBaseFee params binStep + getVariableFee params binStep
  if sum < 2 ^ 128 then .ok sum else .error (.err .overflow)

def setActiveId (params : U256) (activeId : Nat) : U256 :=
  set params (BitVec.ofNat 256 activeId) MASK_UINT24 OFFSET_ACTIVE_ID

def setIdReference (params : U256) (idReference : Nat) : U256 :=
  set params (BitVec.ofNat 256 idReference) MASK_UINT24 OFFSET_ID_REF

def setVolatilityReference (params : U256) (volRef : Nat) : MathOutcome U256 :=
  if volRef > limb0 MASK_UINT20 then .error (.err .invalidParameter)
  else .ok (set params (BitVec.ofNat 256 volRef) MASK_UINT20 OFFSET_VOL_REF)

def setVolatilityAccumulator (params : U256) (volAcc : Nat) : MathOutcome U256 :=
  if volAcc > limb0 MASK_UINT20 then .error (.err .invalidParameter)
  else .ok (set params (BitVec.ofNat 256 volAcc) MASK_UINT20 OFFSET_VOL_ACC)

def setStaticFeeParameters (params : U256) (baseFactor filterPeriod decayPeriod reductionFactor
    variableFeeControl protocolShare maxVolatilityAccumulator : Nat) : MathOutcome U256 :=
  if filterPeriod > decayPeriod ∨ decayPeriod > limb0 MASK_UINT12 ∨
      reductionFactor > BASIS_POINT_MAX_U128 ∨ protocolShare > MAX_PROTOCOL_SHARE ∨
      maxVolatilityAccumulator > limb0 MASK_UINT20 then
    .error (.err .invalidParameter)
  else
    let p := set 0 (BitVec.ofNat 256 baseFactor) MASK_UINT16 OFFSET_BASE_FACTOR
    let p := set p (BitVec.ofNat 256 filterPeriod) MASK_UINT12 OFFSET_FILTER_PERIOD
    let p := set p (BitVec.ofNat 256 decayPeriod) MASK_UINT12 OFFSET_DECAY_PERIOD
    let p := set p (BitVec.ofNat 256 reductionFactor) MASK_UINT14 OFFSET_REDUCTION_FACTOR
    let p := set p (BitVec.ofNat 256 variableFeeControl) MASK_UINT24 OFFSET_VAR_FEE_CONTROL
    let p := set p (BitVec.ofNat 256 protocolShare) MASK_UINT14 OFFSET_PROTOCOL_SHARE
    let p := set p (BitVec.ofNat 256 maxVolatilityAccumulator) MASK_UINT20 OFFSET_MAX_VOL_ACC
    .ok ((params &&& ~~~(0xffffffffffffffffffffffff#256)) ||| p)

end PairParameterHelper

/-! ## bit_math -/

namespace BitMath

/-- `leading_zeros` of a non-zero word counts from its highest bit. -/
def leadingZeros (x : U256) : Nat := if x = 0 then 256 else 255 - x.toNat.log2

def mostSignificantBit (x : U256) : MathOutcome Nat :=
  if x = 0 then .error (.err .zeroValue) else .ok (255 - leadingZeros x % 2 ^ 8)

end BitMath

/-! ## uint256x256_math -/

namespace Uint256x256Math

def getMulProds (x y : U256) : U256 × U256 :=
  let mm := Words.mulMod x y (BitVec.allOnes 256)
  let prod0 := x * y
  (prod0, mm - prod0 - (if mm < prod0 then 1 else 0))

def getEndOfDivRoundDown (x y denominator prod0 prod1 : U256) : MathOutcome U256 :=
  if denominator = 0 then .error (.err .divisionByZero)
  else if prod1 = 0 then .ok (prod0 / denominator)
  else if denominator ≤ prod1 then .error (.err .overflow)
  else
    let remainder := Words.mulMod x y denominator
    let prod1 := if remainder > prod0 then prod1 - 1 else prod1
    let prod0 := prod0 - remainder
    let twos := (0 - denominator) &&& denominator
    let denominator := denominator / twos
    let prod0 := prod0 / twos
    let twos := (0 - twos) / twos + 1
    let prod0 := prod0 ||| (prod1 * twos)
    let inverse := (3 * denominator) ^^^ 2
    let inverse := inverse * (2 - denominator * inverse)
    let inverse := inverse * (2 - denominator * inverse)
    let inverse := inverse * (2 - denominator * inverse)
    let inverse := inverse * (2 - denominator * inverse)
    let inverse := inverse * (2 - denominator * inverse)
    let inverse := inverse * (2 - denominator * inverse)
    .ok (prod0 * inverse)

def mulDivRoundDown (x y denominator : U256) : MathOutcome U256 :=
  if denominator = 0 then .error (.err .divisionByZero)
  else
    let (prod0, prod1) := getMulProds x y
    getEndOfDivRoundDown x y denominator prod0 prod1

def mulDivRoundUp (x y denominator : U256) : MathOutcome U256 := do
  let result ← mulDivRoundDown x y denominator
  return if Words.mulMod x y denominator = 0 then result else result + 1

def mulShiftRoundDown (x y : U256) (offset : Nat) : MathOutcome U256 :=
  let (prod0, prod1) := getMulProds x y
  let result := if prod0 ≠ 0 then prod0 >>> offset else 0
  if prod1 ≠ 0 then
    if prod1 ≥ 1 <<< offset then .error (.err .overflow)
    else .ok (result + (prod1 <<< (256 - offset)))
  else .ok result

def mulShiftRoundUp (x y : U256) (offset : Nat) : MathOutcome U256 := do
  let result ← mulShiftRoundDown x y offset
  return if Words.mulMod x y (1 <<< offset) = 0 then result else result + 1

def shiftDivRoundDown (x : U256) (offset : Nat) (denominator : U256) : MathOutcome U256 :=
  if denominator = 0 then .error (.err .divisionByZero)
  else
    let prod0 := x <<< offset
    let prod1 := if offset = 0 then 0 else x >>> (256 - offset)
    getEndOfDivRoundDown x (1 <<< offset) denominator prod0 prod1

def shiftDivRoundUp (x : U256) (offset : Nat) (denominator : U256) : MathOutcome U256 := do
  let result ← shiftDivRoundDown x offset denominator
  return if Words.mulMod x (1 <<< offset) denominator = 0 then result else result + 1

/-- One round of the Newton loop. -/
def sqrtNext (x guess : U256) : U256 := (guess + x / guess) >>> 1

/-- The loop of `sqrt`: while the next guess is smaller. -/
def sqrtLoop (x : U256) : Nat → U256 → Option (MathOutcome U256) :=
  Loop.run (fun guess => decide (¬ sqrtNext x guess ≥ guess)) fun guess => .ok (sqrtNext x guess)

/-- `none` when the loop needs more than `fuel` rounds. -/
def sqrt (fuel : Nat) (x : U256) : Option (MathOutcome U256) :=
  if x = 0 then some (.ok 0)
  else
    match BitMath.mostSignificantBit x with
    | .error _ => some (.error .panic)
    | .ok msb => (sqrtLoop x fuel (1#256 <<< (msb / 2 + 1))).map fun r =>
      r.map fun guess => if guess ≤ x / guess then guess else x / guess

end Uint256x256Math

/-! ## uint128x128_math -/

namespace Uint128x128Math

/-- `while power > 0`; a `u128` is zero after 128 halvings. -/
def powLoop : Nat → Nat → U256 → U256 → MathOutcome U256
  | 0, _, result, _ => .ok result
  | rounds + 1, power, result, squared =>
    if power = 0 then .ok result
    else if power % 2 = 1 then
      let result := (result * squared) >>> 128
      if result = 0 then .error (.err .powUnderflow)
      else powLoop rounds (power / 2) result ((squared * squared) >>> 128)
    else powLoop rounds (power / 2) result ((squared * squared) >>> 128)

variable (prof : BuildProfile)

/-- `abs_y`, an `i128`. -/
def absExponent (y : Int) : MathOutcome Int := if y < 0 then prof.signed 128 (-y) else .ok y

def pow (x : U256) (y : Int) : MathOutcome U256 := do
  if y = 0 then return SCALE
  let absY ← absExponent prof y
  if absY ≥ 0x100000 then .error (.err .powUnderflow)
  else
    let inverted := x > BitVec.ofNat 256 (2 ^ 64 - 1)
    let squared := if inverted then BitVec.allOnes 256 / x else x
    let result ← powLoop 128 (asU128 absY) SCALE squared
    return if decide (y < 0) ^^ inverted then BitVec.allOnes 256 / result else result

/-- The negation overflows at the least `i128` only. -/
theorem absExponent_of_lt {y : Int} (h : -2 ^ 127 < y) : absExponent prof y = .ok y.natAbs := by
  unfold absExponent
  split
  · rw [BuildProfile.signed_of_range (by omega) (by omega)]
    congr 1
    omega
  · congr 1
    omega

theorem pow_of_lt {x : U256} {y : Int} (hy0 : y ≠ 0) (hy : y.natAbs < 0x100000) :
    pow prof x y = (do
      let result ← powLoop 128 y.natAbs SCALE
        (if x > BitVec.ofNat 256 (2 ^ 64 - 1) then BitVec.allOnes 256 / x else x)
      return if decide (y < 0) ^^ decide (x > BitVec.ofNat 256 (2 ^ 64 - 1)) then
        BitVec.allOnes 256 / result else result) := by
  have hpower : asU128 (y.natAbs : Int) = y.natAbs := by
    rw [asU128_of_range (by omega) (by omega), Int.toNat_natCast]
  unfold pow
  rw [if_neg hy0, absExponent_of_lt prof (by omega), ok_bind, if_neg (by omega), hpower]

end Uint128x128Math

/-! ## price_helper -/

namespace PriceHelper

def getBase (binStep : Nat) : U256 :=
  SCALE + (BitVec.ofNat 256 binStep <<< SCALE_OFFSET) / BitVec.ofNat 256 BASIS_POINT_MAX_U128

variable (prof : BuildProfile)

/-- `id as i32 - REAL_ID_SHIFT`. -/
def getExponent (id : Nat) : MathOutcome Int :=
  prof.signed 32 ((id : Int).bmod (2 ^ 32) - REAL_ID_SHIFT)

/-- An error of `pow` panics. -/
def getPriceFromId (id binStep : Nat) : MathOutcome U256 := do
  let exponent ← getExponent prof id
  (Uint128x128Math.pow prof (getBase binStep) exponent).mapError fun _ => .panic

end PriceHelper

/-! ## fee_helper -/

namespace FeeHelper

def ensureFee (totalFee : Nat) : MathOutcome Unit :=
  if totalFee > MAX_FEE_U128 then .error (.err .feeTooLarge) else .ok ()

def getFeeAmountFrom (amountWithFees totalFee : Nat) : MathOutcome Nat := do
  ensureFee totalFee
  let numerator := BitVec.ofNat 256 amountWithFees * BitVec.ofNat 256 totalFee
  let numerator := numerator + (PRECISION - 1)
  toU128 .overflow (numerator / PRECISION)

def getFeeAmount (amount totalFee : Nat) : MathOutcome Nat := do
  ensureFee totalFee
  let denominator := BitVec.ofNat 256 (PRECISION_U128 - totalFee)
  let numerator := BitVec.ofNat 256 amount * BitVec.ofNat 256 totalFee
  let numerator := numerator + (denominator - 1)
  toU128 .overflow (numerator / denominator)

end FeeHelper

/-! ## bin_helper -/

namespace BinHelper

open PackedUint128Math Uint256x256Math

def safe128 (val : U256) : MathOutcome Nat := toU128 .overflow val

/-- `price * x`, then `y << SCALE_OFFSET` added, each step with its overflow check. -/
def getLiquidityComponents (x y price : U256) : MathOutcome U256 :=
  Words.checkedMulAdd (.err .liquidityOverflow) price x y

def getLiquidity (amounts price : U256) : MathOutcome U256 :=
  let (x, y) := decode amounts
  getLiquidityComponents (BitVec.ofNat 256 x) (BitVec.ofNat 256 y) price

variable (prof : BuildProfile)

/-- The input that takes the whole reserve, without fee. -/
def maxAmountIn (swapForY : Bool) (binReserveOut : Nat) (price : U256) : MathOutcome Nat := do
  if swapForY then
    safe128 (← shiftDivRoundUp (BitVec.ofNat 256 binReserveOut) SCALE_OFFSET price)
  else safe128 (← mulShiftRoundUp (BitVec.ofNat 256 binReserveOut) price SCALE_OFFSET)

/-- The output for an input net of its fee. -/
def amountOutFor (swapForY : Bool) (amountInNet : Nat) (price : U256) : MathOutcome Nat := do
  if swapForY then
    safe128 (← mulShiftRoundDown (BitVec.ofNat 256 amountInNet) price SCALE_OFFSET)
  else safe128 (← shiftDivRoundDown (BitVec.ofNat 256 amountInNet) SCALE_OFFSET price)

/-- The input with fees, the output and the fee of a swap in one bin, as lanes. -/
def swapAmounts (parameters : U256) (binStep : Nat) (swapForY : Bool) (price : U256)
    (binReserveOut amountIn : Nat) : MathOutcome (Nat × Nat × Nat) := do
  let maxIn ← maxAmountIn swapForY binReserveOut price
  let totalFee ← PairParameterHelper.getTotalFee parameters binStep
  let maxFee ← FeeHelper.getFeeAmount maxIn totalFee
  let maxAmountInTotal ← prof.unsigned 128 (maxIn + maxFee)
  if amountIn ≥ maxAmountInTotal then return (maxAmountInTotal, binReserveOut, maxFee)
  else
    let fee ← FeeHelper.getFeeAmountFrom amountIn totalFee
    let amountInNet ← prof.unsigned 128 ((amountIn : Int) - fee)
    let amountOut ← amountOutFor swapForY amountInNet price
    return (amountIn, if amountOut > binReserveOut then binReserveOut else amountOut, fee)

def getAmounts (binReserves parameters : U256) (binStep : Nat) (swapForY : Bool) (activeId : Nat)
    (amountsInLeft : U256) : MathOutcome (U256 × U256 × U256) := do
  let price ← PriceHelper.getPriceFromId prof activeId binStep
  let binReserveOut := if swapForY then decodeY binReserves else decodeX binReserves
  let amountIn := decodeFirst amountsInLeft swapForY
  let (amountInWithFee, amountOut, fee) ←
    swapAmounts prof parameters binStep swapForY price binReserveOut amountIn
  let amountsInWithFees := if swapForY then encode amountInWithFee 0 else encode 0 amountInWithFee
  let amountsOutOfBin := if swapForY then encode 0 amountOut else encode amountOut 0
  let totalFees := if swapForY then encode fee 0 else encode 0 fee
  let newLiquidity ← getLiquidity (binReserves + amountsInWithFees - amountsOutOfBin) price
  if newLiquidity > MAX_LIQUIDITY_PER_BIN then .error (.err .maxLiquidityPerBinExceeded)
  else return (amountsInWithFees, amountsOutOfBin, totalFees)

end BinHelper

end ArbitrageBot.Moe
