import ArbitrageBot.Amms.UniswapV2Factory
import ArbitrageBot.Amms.UniswapV2Price

/-!
# The contract that values pools

`WmntValueInPools` values a pool by what it holds of one token, in WMNT: the token is quoted in its
V2 pair, and where that has no price in a V3 pool. `WmntValueInPoolsBatchRequest` does so for a list
of pools in its constructor.
-/

namespace ArbitrageBot

/-! ## Fixed-point numbers -/

namespace FixedPointMath

def Q96 : U256 := 1#256 <<< 96

/-- `x` is a 64.64 fixed-point number. -/
def mul64u (x : BitVec 128) (y : U256) : U256 :=
  if y = 0 ∨ x = 0 then 0
  else
    let lo := (x.setWidth 256 * (y &&& BitVec.ofNat 256 (2 ^ 128 - 1))) >>> 64
    let hi := x.setWidth 256 * (y >>> 128)
    if hi > BitVec.ofNat 256 (2 ^ 192 - 1) then 0
    else
      let hi := hi <<< 64
      if hi > BitVec.allOnes 256 - lo then 0 else hi + lo

/-- A failed assertion reverts. -/
def divuu (x y : U256) : Option (BitVec 128) :=
  if y = 0 then some 0
  else if x ≤ BitVec.ofNat 256 (2 ^ 192 - 1) then
    let answer := (x <<< 64) / y
    if answer > BitVec.ofNat 256 (2 ^ 128 - 1) then some 0 else some (answer.setWidth 128)
  else
    let answer := firstAnswer x y
    if answer > BitVec.ofNat 256 (2 ^ 128 - 1) then some 0
    else
      let hi := answer * (y >>> 128)
      let lo := answer * (y &&& BitVec.ofNat 256 (2 ^ 128 - 1))
      let xh := x >>> 192
      let xl := x <<< 64
      let xh := if xl < lo then xh - 1 else xh
      let xl := xl - lo
      let lo := hi <<< 128
      let xh := if xl < lo then xh - 1 else xh
      let xl := xl - lo
      if xh ≠ hi >>> 128 then none
      else
        let answer := answer + xl / y
        if answer > BitVec.ofNat 256 (2 ^ 128 - 1) then some 0 else some (answer.setWidth 128)

def fromSqrtX96 (sqrtPriceX96 : BitVec 160) (token0IsReserve0 : Bool)
    (token0Decimals token1Decimals : BitVec 8) : U256 :=
  let decimalShift := token0Decimals - token1Decimals
  let square := sqrtPriceX96.setWidth 256 * sqrtPriceX96.setWidth 256
  let priceSquaredX96 :=
    if decimalShift.msb then square / BitVec.ofNat 256 (10 ^ (-decimalShift).toNat)
    else square * BitVec.ofNat 256 (10 ^ decimalShift.toNat)
  if Q96 > priceSquaredX96 then 0
  else
    let priceSquaredShiftQ96 :=
      if token0IsReserve0 then priceSquaredX96 / Q96
      else (Q96 * BitVec.ofNat 256 (2 ^ 128 - 1)) / (priceSquaredX96 / Q96)
    if token0IsReserve0 then
      (priceSquaredShiftQ96 * BitVec.ofNat 256 (2 ^ 128 - 1)) / Q96
    else priceSquaredShiftQ96

end FixedPointMath

/-! ## The contract -/

/-- The chain, as far as the contract looks at it. `decimals` is what the low-level call gives where
it succeeds with one word. -/
structure ValueChain where
  token0 : Address → Reply Address
  token1 : Address → Reply Address
  getReserves : Address → Reply (BitVec 112 × BitVec 112)
  balanceOf : Address → Address → Reply U256
  getPair : Address → Address → Address → Reply Address
  getPool : Address → Address → Address → Nat → Reply Address
  slot0 : Address → Reply (BitVec 160)
  decimals : Address → Option U256

structure WmntValueInPools where
  uniswapV2Factory : Address
  uniswapV3Factory : Address
  wmnt : Address

namespace WmntValueInPools

inductive PoolType where
  | uniswapV2
  | uniswapV3
  deriving DecidableEq, Repr

structure PoolInfoReturn where
  poolType : PoolType
  poolAddress : Address
  wmntValue : U256
  deriving DecidableEq, Repr

def WMNT_DECIMALS : Nat := 18

/-- A checked multiplication by two. -/
def twice {w : Nat} (x : BitVec w) : Option (BitVec w) :=
  if 2 * x.toNat < 2 ^ w then some (BitVec.ofNat w (2 * x.toNat)) else none

/-- `getTokenDecimalsUnsafe`: the decimals where it is successful. -/
def getTokenDecimalsUnsafe (chain : ValueChain) (token : Address) : Option Nat :=
  (chain.decimals token).bind fun tokenDecimals =>
    if tokenDecimals = 0 ∨ tokenDecimals > 255 then none else some tokenDecimals.toNat

variable (self : WmntValueInPools) (chain : ValueChain)

/-- A reserve with 18 decimals, cut to 112 bits; a power of ten of more than 256 bits reverts. -/
def normalize (reserveToken : BitVec 112) (tokenDecimals : Nat) : Option (BitVec 112) :=
  if tokenDecimals ≤ WMNT_DECIMALS then
    some (BitVec.ofNat 112 (reserveToken.toNat * 10 ^ (WMNT_DECIMALS - tokenDecimals)))
  else if 10 ^ (tokenDecimals - WMNT_DECIMALS) < 2 ^ 256 then
    some (BitVec.ofNat 112 (reserveToken.toNat / 10 ^ (tokenDecimals - WMNT_DECIMALS)))
  else none

def quoteTokenUniswapV2 (token : Address) : Option (BitVec 128) := do
  let pair ← (chain.getPair self.uniswapV2Factory token self.wmnt).get
  if pair = 0 then return 0
  (chain.getReserves pair).tryCatch 0 fun reserves =>
    if reserves.1 = 0 ∨ reserves.2 = 0 then some 0
    else match getTokenDecimalsUnsafe chain token with
      | none => some 0
      | some tokenDecimals => do
        let reserveWmnt := if token < self.wmnt then reserves.2 else reserves.1
        let reserveToken := if token < self.wmnt then reserves.1 else reserves.2
        let reserveToken ← normalize reserveToken tokenDecimals
        FixedPointMath.divuu (reserveWmnt.setWidth 256) (reserveToken.setWidth 256)

/-- The loop over the fee tiers. It looks at `pool`, not at the pair that it has just got. -/
def searchPool (token : Address) : List Nat → Address → Option Address
  | [], pool => some pool
  | feeTier :: feeTiers, pool => do
    let pair ← (chain.getPool self.uniswapV3Factory token self.wmnt feeTier).get
    if pool ≠ 0 then return pair
    else searchPool token feeTiers pool

def quoteTokenUniswapV3 (token : Address) : Option (BitVec 128) := do
  let pool ← self.searchPool chain token [500, 3000, 10000] 0
  if pool = 0 then return 0
  (chain.slot0 pool).tryCatch 0 fun sqrtPriceX96 =>
    let token0IsReserve0 : Bool := token < self.wmnt
    match getTokenDecimalsUnsafe chain token with
    | none => some 0
    | some tokenDecimals =>
      let ownDecimals := BitVec.ofNat 8 tokenDecimals
      let wmntDecimals := BitVec.ofNat 8 WMNT_DECIMALS
      let price := FixedPointMath.fromSqrtX96 sqrtPriceX96 token0IsReserve0
        (if token0IsReserve0 then ownDecimals else wmntDecimals)
        (if token0IsReserve0 then wmntDecimals else ownDecimals)
      some ((price >>> 64).setWidth 128)

def quoteToken (token : Address) : Option (BitVec 128) := do
  let price ← self.quoteTokenUniswapV2 chain token
  if price > 0 then return price
  self.quoteTokenUniswapV3 chain token

def quoteTokenToWmntValue (token : Address) (amount : U256) : Option U256 := do
  let price ← self.quoteToken chain token
  if price > 0 then return FixedPointMath.mul64u price amount
  return price.setWidth 256

def handleUniswapV2Pool (pool : Address) : Option U256 :=
  (chain.token0 pool).tryCatch 0 fun token0 =>
  (chain.token1 pool).tryCatch 0 fun token1 =>
  (chain.getReserves pool).tryCatch 0 fun reserves =>
    if token0 = self.wmnt then (twice reserves.1).map (·.setWidth 256)
    else if token1 = self.wmnt then (twice reserves.2).map (·.setWidth 256)
    else do
      let wmntValue ← self.quoteTokenToWmntValue chain token0 (reserves.1.setWidth 256)
      twice wmntValue

def handleUniswapV3Pool (pool : Address) : Option U256 :=
  (chain.token0 pool).tryCatch 0 fun token0 =>
  (chain.token1 pool).tryCatch 0 fun token1 =>
    if token0 = self.wmnt then (chain.balanceOf token0 pool).tryCatch 0 twice
    else if token1 = self.wmnt then (chain.balanceOf token1 pool).tryCatch 0 twice
    else (chain.balanceOf token0 pool).tryCatch 0 fun balance => do
      let wmntValue ← self.quoteTokenToWmntValue chain token0 balance
      twice wmntValue

def getWmntValueInPools (pools : List (PoolType × Address)) : Option (List PoolInfoReturn) :=
  pools.mapM fun info => do
    let wmntValue ←
      match info.1 with
      | .uniswapV2 => self.handleUniswapV2Pool chain info.2
      | .uniswapV3 => self.handleUniswapV3Pool chain info.2
    return ⟨info.1, info.2, wmntValue⟩

/-- The type of a pool in the calldata; a number that is none of the two is not decoded. -/
def decodePoolType : Nat → Option PoolType
  | 0 => some .uniswapV2
  | 1 => some .uniswapV3
  | _ => none

/-- The constructor of `WmntValueInPoolsBatchRequest`. -/
def batchRequest (pools : List (Nat × Address)) : Option (List PoolInfoReturn) := do
  let pools ← pools.mapM fun info =>
    (decodePoolType info.1).map fun poolType => (poolType, info.2)
  self.getWmntValueInPools chain pools

end WmntValueInPools

end ArbitrageBot
