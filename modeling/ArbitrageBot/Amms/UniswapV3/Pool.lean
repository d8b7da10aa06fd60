import ArbitrageBot.Amms.Log

/-!
# Uniswap V3 pools: state and event synchronisation

The tick map, the tick bitmap and the active liquidity, and the updates that `Swap`, `Mint` and
`Burn` events make to them.
-/

namespace ArbitrageBot

/-- Lowest and highest tick of the tick mathematics. -/
def MIN_TICK : Int := -887272
def MAX_TICK : Int := 887272

/-- `tick_bitmap::position`: the word of a compressed tick and its bit in the word. -/
def position (tick : Int) : Int × Nat := (tick >>> (8 : Nat), (tick % 256).toNat)

theorem position_eq (tick : Int) : position tick = (tick / 256, (tick % 256).toNat) := by
  simp [position, Int.shiftRight_eq_div_pow]

/-- `U256::from(1) << bit_pos`. -/
def bitMask (bitPos : Nat) : U256 := 1#256 <<< bitPos

/-- What a pool stores about an initialised tick. -/
structure Info where
  liquidityGross : Nat
  liquidityNet : Int
  initialized : Bool
  deriving DecidableEq, Repr

instance : Inhabited Info := ⟨{ liquidityGross := 0, liquidityNet := 0, initialized := false }⟩

structure UniswapV3Pool where
  address : Address
  tokenA : Token
  tokenB : Token
  liquidity : Nat
  sqrtPrice : U256
  fee : Nat
  tick : Int
  tickSpacing : Int
  tickBitmap : HashMap Int U256
  ticks : HashMap Int Info

namespace UniswapV3Pool

/-- `new`: an address and defaults. -/
def new (address : Address) : UniswapV3Pool where
  address := address
  tokenA := ⟨0, 0⟩
  tokenB := ⟨0, 0⟩
  liquidity := 0
  sqrtPrice := 0
  fee := 0
  tick := 0
  tickSpacing := 0
  tickBitmap := ∅
  ticks := ∅

/-- Flips the bit of a tick in the bitmap. -/
def flipTick (self : UniswapV3Pool) (tick tickSpacing : Int) : UniswapV3Pool :=
  let (wordPos, bitPos) := position (tick.tdiv tickSpacing)
  let mask := bitMask bitPos
  match self.tickBitmap.lookup wordPos with
  | some word => { self with tickBitmap := self.tickBitmap.insert wordPos (word ^^^ mask) }
  | none => { self with tickBitmap := self.tickBitmap.insert wordPos mask }

/-- The `u128` liquidity `before` after a change by an `i128`: a subtraction of the negated change
or an addition, as `update_tick` and `modify_position` both write it. -/
def applyDelta (prof : BuildProfile) (before : Nat) (liquidityDelta : Int) : Outcome AMMError Nat :=
  if liquidityDelta < 0 then do
    let decrease ← prof.signed 128 (-liquidityDelta)
    prof.unsigned 128 (before - asU128 decrease)
  else prof.unsigned 128 (before + asU128 liquidityDelta)

/-- The net liquidity of a tick after a change at the lower or the upper bound. -/
def applyNetDelta (prof : BuildProfile) (liquidityNet liquidityDelta : Int) (upper : Bool) :
    Outcome AMMError Int :=
  if upper then prof.signed 128 (liquidityNet - liquidityDelta)
  else prof.signed 128 (liquidityNet + liquidityDelta)

/-- Adds a liquidity change to one bound of a position; tells whether the tick flipped. -/
def updateTick (prof : BuildProfile) (self : UniswapV3Pool) (tick liquidityDelta : Int)
    (upper : Bool) : Outcome AMMError (Bool × UniswapV3Pool) := do
  let info := (self.ticks.lookup tick).getD default
  let liquidityGrossBefore := info.liquidityGross
  let liquidityGrossAfter ← applyDelta prof liquidityGrossBefore liquidityDelta
  let flipped := decide (liquidityGrossAfter = 0) != decide (liquidityGrossBefore = 0)
  let initialized := if liquidityGrossBefore = 0 then true else info.initialized
  let liquidityNet ← applyNetDelta prof info.liquidityNet liquidityDelta upper
  let info := { liquidityGross := liquidityGrossAfter, liquidityNet, initialized }
  return (flipped, { self with ticks := self.ticks.insert tick info })

/-- Removes a flipped tick from the tick map. -/
def removeTick (self : UniswapV3Pool) (tick : Int) : UniswapV3Pool :=
  { self with ticks := self.ticks.erase tick }

def updatePosition (prof : BuildProfile) (self : UniswapV3Pool)
    (tickLower tickUpper liquidityDelta : Int) : Outcome AMMError UniswapV3Pool := do
  let (flippedLower, flippedUpper, self) ←
    if liquidityDelta ≠ 0 then do
      let (flippedLower, self) ← self.updateTick prof tickLower liquidityDelta false
      let (flippedUpper, self) ← self.updateTick prof tickUpper liquidityDelta true
      let self := if flippedLower then self.flipTick tickLower self.tickSpacing else self
      let self := if flippedUpper then self.flipTick tickUpper self.tickSpacing else self
      pure (flippedLower, flippedUpper, self)
    else pure (false, false, self)
  if liquidityDelta < 0 then
    let self := if flippedLower then self.removeTick tickLower else self
    let self := if flippedUpper then self.removeTick tickUpper else self
    return self
  else return self

/-- Modifies a position's liquidity in the pool. -/
def modifyPosition (prof : BuildProfile) (self : UniswapV3Pool)
    (tickLower tickUpper liquidityDelta : Int) : Outcome AMMError UniswapV3Pool := do
  let self ← self.updatePosition prof tickLower tickUpper liquidityDelta
  if liquidityDelta ≠ 0 ∧ self.tick ≥ tickLower ∧ self.tick < tickUpper then
    let liquidity ← applyDelta prof self.liquidity liquidityDelta
    return { self with liquidity }
  else return self

/-- `sync`. No branch returns an error after it changed the pool. A sum that overflows panics and
may leave one bound of a position written; the pool of a panic is not modelled. -/
def sync (prof : BuildProfile) (self : UniswapV3Pool) (log : Log) :
    Outcome AMMError UniswapV3Pool :=
  match log.payload with
  | .event (.uniswapV3Swap sqrtPriceX96 liquidity tick) =>
    .ok { self with sqrtPrice := sqrtPriceX96, liquidity, tick }
  | .event (.mint tickLower tickUpper amount) =>
    self.modifyPosition prof tickLower tickUpper (asI128 amount)
  | .event (.burn tickLower tickUpper amount) => do
    let liquidityDelta ← prof.signed 128 (-asI128 amount)
    self.modifyPosition prof tickLower tickUpper liquidityDelta
  | .event e => .error (decodeError [.uniswapV3Swap, .mint, .burn] e.signature)
  | .undecodable sig => .error (decodeError [.uniswapV3Swap, .mint, .burn] sig)
  -- `log.topics()[0]` is out of bounds
  | .anonymous => .error .panic

/-! ## The address of a pool stays -/

variable {prof : BuildProfile} {pool pool' : UniswapV3Pool}

theorem flipTick_address (pool : UniswapV3Pool) (tick tickSpacing : Int) :
    (pool.flipTick tick tickSpacing).address = pool.address := by
  unfold flipTick
  dsimp only
  split <;> rfl

theorem updateTick_address {tick liquidityDelta : Int} {upper flipped : Bool}
    (h : pool.updateTick prof tick liquidityDelta upper = .ok (flipped, pool')) :
    pool'.address = pool.address := by
  unfold updateTick at h
  simp only [bind_eq_ok] at h
  obtain ⟨after, -, net, -, h⟩ := h
  cases h
  rfl

theorem updatePosition_address {tickLower tickUpper liquidityDelta : Int}
    (h : pool.updatePosition prof tickLower tickUpper liquidityDelta = .ok pool') :
    pool'.address = pool.address := by
  unfold updatePosition at h
  by_cases hd : liquidityDelta ≠ 0
  · simp only [if_pos hd, bind_eq_ok] at h
    obtain ⟨⟨flippedLower, pool₀⟩, h₀, ⟨flippedUpper, pool₁⟩, h₁, result, hresult, h⟩ := h
    cases hresult
    rw [← updateTick_address h₀, ← updateTick_address h₁]
    dsimp only at h
    split at h
    · cases h
      split <;> split <;> simp only [removeTick, flipTick_address]
    · cases h
      split <;> split <;> simp only [flipTick_address]
  · simp only [if_neg hd, bind_eq_ok] at h
    obtain ⟨result, hresult, h⟩ := h
    cases hresult
    dsimp only at h
    split at h
    · cases h
      rfl
    · cases h
      rfl

theorem modifyPosition_address {tickLower tickUpper liquidityDelta : Int}
    (h : pool.modifyPosition prof tickLower tickUpper liquidityDelta = .ok pool') :
    pool'.address = pool.address := by
  unfold modifyPosition at h
  rw [bind_eq_ok] at h
  obtain ⟨pool₁, h₁, h⟩ := h
  rw [← updatePosition_address h₁]
  split at h
  · rw [bind_eq_ok] at h
    obtain ⟨liquidity, -, h⟩ := h
    cases h
    rfl
  · cases h
    rfl

theorem sync_address {log : Log} (h : pool.sync prof log = .ok pool') :
    pool'.address = pool.address := by
  unfold sync at h
  split at h
  · cases h
    rfl
  · exact modifyPosition_address h
  · rw [bind_eq_ok] at h
    obtain ⟨liquidityDelta, -, h⟩ := h
    exact modifyPosition_address h
  all_goals cases h

end UniswapV3Pool

end ArbitrageBot
