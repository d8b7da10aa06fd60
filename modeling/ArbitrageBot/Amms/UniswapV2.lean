import ArbitrageBot.Amms.Log

/-!
# Uniswap V2 pools
-/

namespace ArbitrageBot

structure UniswapV2Pool where
  address : Address
  tokenA : Token
  tokenB : Token
  reserve0 : Nat
  reserve1 : Nat
  fee : Nat
  deriving DecidableEq, Repr

namespace UniswapV2Pool

/-- `sync`: the only event is `Sync`, decoded without looking at the signature first, so that any
other log is a decoding error. -/
def sync (self : UniswapV2Pool) (log : Log) : Outcome AMMError UniswapV2Pool :=
  match log.payload with
  | .event (.uniswapV2Sync reserve0 reserve1) => .ok { self with reserve0, reserve1 }
  | _ => .error (.err .solTypesError)

def U256_100000 : U256 := 100000#256

/-- `get_amount_out`; a division by zero panics. -/
def getAmountOut (self : UniswapV2Pool) (amountIn reserveIn reserveOut : U256) :
    Outcome AMMError U256 :=
  if amountIn = 0 ∨ reserveIn = 0 ∨ reserveOut = 0 then .ok 0
  else
    let fee := U256_100000 - BitVec.ofNat 256 self.fee
    let amountIn := amountIn * fee
    let numerator := amountIn * reserveOut
    let denominator := reserveIn * U256_100000 + amountIn
    if denominator = 0 then .error .panic else .ok (numerator / denominator)

/-- `simulate_swap`; the token that is bought is not looked at. -/
def simulateSwap (self : UniswapV2Pool) (baseToken : Address) (amountIn : U256) :
    Outcome AMMError U256 :=
  if self.tokenA.address = baseToken then
    self.getAmountOut amountIn (BitVec.ofNat 256 self.reserve0) (BitVec.ofNat 256 self.reserve1)
  else
    self.getAmountOut amountIn (BitVec.ofNat 256 self.reserve1) (BitVec.ofNat 256 self.reserve0)

/-- `simulate_swap_mut`: the output, and the pool with the reserves moved. -/
def simulateSwapMut (prof : BuildProfile) (self : UniswapV2Pool) (baseToken : Address)
    (amountIn : U256) : Outcome AMMError (U256 × UniswapV2Pool) :=
  if self.tokenA.address = baseToken then do
    let amountOut ← self.getAmountOut amountIn (BitVec.ofNat 256 self.reserve0)
      (BitVec.ofNat 256 self.reserve1)
    let reserve0 ← prof.unsigned 128 (self.reserve0 + (← castU128 amountIn))
    let reserve1 ← prof.unsigned 128 ((self.reserve1 : Int) - (← castU128 amountOut))
    return (amountOut, { self with reserve0, reserve1 })
  else do
    let amountOut ← self.getAmountOut amountIn (BitVec.ofNat 256 self.reserve1)
      (BitVec.ofNat 256 self.reserve0)
    let reserve0 ← prof.unsigned 128 ((self.reserve0 : Int) - (← castU128 amountOut))
    let reserve1 ← prof.unsigned 128 (self.reserve1 + (← castU128 amountIn))
    return (amountOut, { self with reserve0, reserve1 })

theorem sync_address {pool pool' : UniswapV2Pool} {log : Log} (h : pool.sync log = .ok pool') :
    pool'.address = pool.address := by
  unfold sync at h
  split at h
  · cases h
    rfl
  · cases h

end UniswapV2Pool

end ArbitrageBot
