import ArbitrageBot.Amms.UniswapV3.PoolSync

/-!
# The pools of the Agni factory, read from the chain

`AgniFactory` reads its pools as the V3 factory does, by batch contracts of its own that ask the
same of a pool. The pools have one more field, which no batch writes. `init` of either pool asks the
pool for its tokens, its fee and its spacing and runs the four batches on it alone.
-/

namespace ArbitrageBot

open Lib.Batches

/-! ## Loops with fuel, one after another -/

section AndThen

variable {α β : Type}

/-- One thing after another; either may need more rounds than there is fuel for. -/
def andThen (x : Option (Outcome Unit α)) (f : α → Option (Outcome Unit β)) :
    Option (Outcome Unit β) :=
  x.bind fun
    | .error e => some (.error e)
    | .ok a => f a

theorem andThen_eq_ok {x : Option (Outcome Unit α)} {f : α → Option (Outcome Unit β)} {b : β} :
    andThen x f = some (.ok b) ↔ ∃ a, x = some (.ok a) ∧ f a = some (.ok b) := by
  unfold andThen
  rcases x with _ | e | a
  · simp
  · simp
  · simp

end AndThen

/-! ## The Agni factory -/

namespace AgniPool

/-- The fields that a pool shares with one of Uniswap V3. -/
def shared (self : AgniPool) : UniswapV3Pool where
  address := self.address
  tokenA := self.tokenA
  tokenB := self.tokenB
  liquidity := self.liquidity
  sqrtPrice := self.sqrtPrice
  fee := self.fee
  tick := self.tick
  tickSpacing := self.tickSpacing
  tickBitmap := self.tickBitmap
  ticks := self.ticks

/-- A pool with these fields written. -/
def withShared (self : AgniPool) (pool : UniswapV3Pool) : AgniPool where
  address := pool.address
  tokenA := pool.tokenA
  tokenB := pool.tokenB
  liquidity := pool.liquidity
  sqrtPrice := pool.sqrtPrice
  fee := pool.fee
  tick := pool.tick
  tickSpacing := pool.tickSpacing
  tickBitmap := pool.tickBitmap
  ticks := pool.ticks
  feeProtocol := self.feeProtocol

end AgniPool

namespace AgniFactory

open UniswapV3Factory (Networks)

/-- The pools after a step, as it leaves the shared fields. -/
def writeShared (pools : List AgniPool) (written : List UniswapV3Pool) : List AgniPool :=
  List.zipWith AgniPool.withShared pools written

/-- `sync_slot_0`, which is that of the V3 factory on the shared fields, as the other three are. -/
def syncSlot0 (net : Network) (chain : V3Chain) (pools : List AgniPool) :
    Outcome Unit (List AgniPool) :=
  (UniswapV3Factory.syncSlot0 net chain (pools.map AgniPool.shared)).map (writeShared pools)

/-- `sync_token_decimals`. -/
def syncTokenDecimals (net : Network) (hashSet : List Address → List Address) (chain : V3Chain)
    (pools : List AgniPool) : Outcome Unit (List AgniPool) :=
  (UniswapV3Factory.syncTokenDecimals net hashSet chain (pools.map AgniPool.shared)).map
    (writeShared pools)

/-- `sync_tick_bitmaps`. -/
def syncTickBitmaps (net : Network) (fuel : Nat) (chain : V3Chain) (pools : List AgniPool) :
    Option (Outcome Unit (List AgniPool)) :=
  (UniswapV3Factory.syncTickBitmaps net fuel chain (pools.map AgniPool.shared)).map
    fun res => res.map (writeShared pools)

/-- `sync_tick_data`. -/
def syncTickData (net : Network) (prof : BuildProfile) (chain : V3Chain) (pools : List AgniPool) :
    Outcome Unit (List AgniPool) :=
  (UniswapV3Factory.syncTickData net prof chain (pools.map AgniPool.shared)).map
    (writeShared pools)

/-- The pools that `sync_all_pools` goes on with. -/
def isLive (pool : AgniPool) : Bool :=
  pool.liquidity > 0 && pool.tokenA.decimals > 0 && pool.tokenB.decimals > 0

def syncAllPools (net : Networks) (hashSet : List Address → List Address) (prof : BuildProfile)
    (fuel : Nat) (chain : V3Chain) (pools : List AgniPool) :
    Option (Outcome Unit (List AgniPool)) :=
  andThen (some (syncSlot0 net.slot0 chain pools)) fun pools =>
    andThen (some (syncTokenDecimals net.decimals hashSet chain pools)) fun pools =>
      andThen (syncTickBitmaps net.tickBitmaps fuel chain (pools.filter isLive)) fun pools =>
        some (syncTickData net.tickData prof chain pools)

end AgniFactory

/-! ## One pool -/

/-- The chain, with what a pool itself answers to `init`. `erc20Decimals` is what a call of
`decimals` of a token comes to. -/
structure V3PoolChain extends V3Chain where
  tickSpacing : Address → Option Int
  fee : Address → Option (BitVec 24)
  token0 : Address → Option Address
  token1 : Address → Option Address
  erc20Decimals : Address → Option UInt8

/-- `Token::new`. -/
def Token.new (chain : V3PoolChain) (address : Address) : Outcome Unit Token := do
  let decimals ← answer (chain.erc20Decimals address)
  return ⟨address, decimals⟩

namespace UniswapV3Pool

open UniswapV3Factory

/-- The four batches of `init`, on one pool. -/
def readBatches (net : Networks) (hashSet : List Address → List Address) (prof : BuildProfile)
    (fuel : Nat) (chain : V3Chain) (pools : List UniswapV3Pool) :
    Option (Outcome Unit (List UniswapV3Pool)) :=
  andThen (some (syncSlot0 net.slot0 chain pools)) fun pools =>
    andThen (some (syncTokenDecimals net.decimals hashSet chain pools)) fun pools =>
      andThen (syncTickBitmaps net.tickBitmaps fuel chain pools) fun pools =>
        some (syncTickData net.tickData prof chain pools)

/-- What `init` asks the pool for. -/
def readPool (chain : V3PoolChain) (self : UniswapV3Pool) : Outcome Unit UniswapV3Pool := do
  let tickSpacing ← answer (chain.tickSpacing self.address)
  let fee ← answer (chain.fee self.address)
  let token0 ← answer (chain.token0 self.address)
  let tokenA ← Token.new chain token0
  let token1 ← answer (chain.token1 self.address)
  let tokenB ← Token.new chain token1
  return { self with tickSpacing, fee := fee.toNat, tokenA, tokenB }

/-- `init`; `pool[0]` of no pools would be a panic. -/
def init (net : Networks) (hashSet : List Address → List Address) (prof : BuildProfile)
    (fuel : Nat) (chain : V3PoolChain) (self : UniswapV3Pool) :
    Option (Outcome Unit UniswapV3Pool) :=
  andThen (some (self.readPool chain)) fun self =>
    andThen (readBatches net hashSet prof fuel chain.toV3Chain [self]) fun pools =>
      match pools.head? with
      | some pool => some (.ok pool)
      | none => some (.error .panic)

end UniswapV3Pool

namespace AgniPool

open UniswapV3Factory (Networks)
open AgniFactory

/-- The packed protocol fees that `init` takes for a fee. -/
def feeProtocolOf (fee : Nat) : Nat :=
  if fee = 100 then 216272100
  else if fee = 500 then 222825800
  else 209718400

/-- The four batches of `init`, on one pool. -/
def readBatches (net : Networks) (hashSet : List Address → List Address) (prof : BuildProfile)
    (fuel : Nat) (chain : V3Chain) (pools : List AgniPool) :
    Option (Outcome Unit (List AgniPool)) :=
  andThen (some (syncSlot0 net.slot0 chain pools)) fun pools =>
    andThen (some (syncTokenDecimals net.decimals hashSet chain pools)) fun pools =>
      andThen (syncTickBitmaps net.tickBitmaps fuel chain pools) fun pools =>
        some (syncTickData net.tickData prof chain pools)

/-- What `init` asks the pool for. -/
def readPool (chain : V3PoolChain) (self : AgniPool) : Outcome Unit AgniPool :=
  (self.shared.readPool chain).map fun pool =>
    { self.withShared pool with feeProtocol := feeProtocolOf pool.fee }

/-- `init`; `remove(0)` of no pools would be a panic. -/
def init (net : Networks) (hashSet : List Address → List Address) (prof : BuildProfile)
    (fuel : Nat) (chain : V3PoolChain) (self : AgniPool) : Option (Outcome Unit AgniPool) :=
  andThen (some (self.readPool chain)) fun self =>
    andThen (readBatches net hashSet prof fuel chain.toV3Chain [self]) fun pools =>
      match pools.head? with
      | some pool => some (.ok pool)
      | none => some (.error .panic)

end AgniPool

end ArbitrageBot
