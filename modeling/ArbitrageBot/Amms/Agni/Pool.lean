import ArbitrageBot.Amms.UniswapV3.Pool

/-!
# Agni pools: state and event synchronisation

Agni keeps the tick map, the bitmap and the active liquidity of Uniswap V3. Its updates saturate
where those of `UniswapV3Pool` subtract and add.
-/

namespace ArbitrageBot

structure AgniPool where
  address : Address
  tokenA : Token
  tokenB : Token
  liquidity : Nat
  sqrtPrice : U256
  fee : Nat
  tick : Int
  tickSpacing : Int
  tickBitmap : HashMap Int U256
  ticks : HashMap Int Info
  feeProtocol : Nat

/-- `u128::saturating_add`. -/
def saturatingAdd (a b : Nat) : Nat := min (a + b) (2 ^ 128 - 1)

/-- `i128::saturating_add`, and `saturating_sub` of the negated change. -/
def saturateI128 (x : Int) : Int := max (-2 ^ 127) (min x (2 ^ 127 - 1))

namespace AgniPool

def new (address : Address) : AgniPool where
  address := address
  tokenA := ⟨0, 0⟩
  tokenB := ⟨0, 0⟩
  liquidity := 0
  sqrtPrice := 0
  fee := 0
  tick := 0
  tickSpacing := 0
  tickBitmap := ∅
  ticks := ∅
  feeProtocol := 0

def flipTick (self : AgniPool) (tick : Int) : AgniPool :=
  let (wordPos, bitPos) := position (tick.tdiv self.tickSpacing)
  let word := (self.tickBitmap.lookup wordPos).getD 0
  { self with tickBitmap := self.tickBitmap.insert wordPos (word ^^^ bitMask bitPos) }

/-- The saturating counterpart of `UniswapV3Pool.applyDelta`. -/
def applyDelta (prof : BuildProfile) (before : Nat) (liquidityDelta : Int) : Outcome AMMError Nat :=
  if liquidityDelta < 0 then do
    let decrease ← prof.signed 128 (-liquidityDelta)
    return before - asU128 decrease
  else return saturatingAdd before (asU128 liquidityDelta)

def updateTick (prof : BuildProfile) (self : AgniPool) (tick liquidityDelta : Int) (upper : Bool) :
    Outcome AMMError (Bool × AgniPool) := do
  let info := (self.ticks.lookup tick).getD default
  let before := info.liquidityGross
  let after ← applyDelta prof before liquidityDelta
  let flipped := decide (after = 0) != decide (before = 0)
  let initialized := if before = 0 then true else info.initialized
  let liquidityNet := saturateI128
    (if upper then info.liquidityNet - liquidityDelta else info.liquidityNet + liquidityDelta)
  let info := { liquidityGross := after, liquidityNet, initialized }
  return (flipped, { self with ticks := self.ticks.insert tick info })

def removeTick (self : AgniPool) (tick : Int) : AgniPool :=
  { self with ticks := self.ticks.erase tick }

def updatePosition (prof : BuildProfile) (self : AgniPool)
    (tickLower tickUpper liquidityDelta : Int) : Outcome AMMError AgniPool := do
  let (flippedLower, flippedUpper, self) ←
    if liquidityDelta ≠ 0 then do
      let (flippedLower, self) ← self.updateTick prof tickLower liquidityDelta false
      let (flippedUpper, self) ← self.updateTick prof tickUpper liquidityDelta true
      let self := if flippedLower then self.flipTick tickLower else self
      let self := if flippedUpper then self.flipTick tickUpper else self
      pure (flippedLower, flippedUpper, self)
    else pure (false, false, self)
  if liquidityDelta < 0 then
    let self := if flippedLower then self.removeTick tickLower else self
    let self := if flippedUpper then self.removeTick tickUpper else self
    return self
  else return self

def modifyPosition (prof : BuildProfile) (self : AgniPool)
    (tickLower tickUpper liquidityDelta : Int) : Outcome AMMError AgniPool := do
  let self ← self.updatePosition prof tickLower tickUpper liquidityDelta
  if liquidityDelta ≠ 0 ∧ self.tick ≥ tickLower ∧ self.tick < tickUpper then
    let liquidity ← applyDelta prof self.liquidity liquidityDelta
    return { self with liquidity }
  else return self

def sync (prof : BuildProfile) (self : AgniPool) (log : Log) : Outcome AMMError AgniPool :=
  match log.payload with
  | .event (.agniSwap sqrtPriceX96 liquidity tick) =>
    .ok { self with sqrtPrice := sqrtPriceX96, liquidity, tick }
  | .event (.mint tickLower tickUpper amount) =>
    self.modifyPosition prof tickLower tickUpper (asI128 amount)
  | .event (.burn tickLower tickUpper amount) => do
    let liquidityDelta ← prof.signed 128 (-asI128 amount)
    self.modifyPosition prof tickLower tickUpper liquidityDelta
  | .event e => .error (decodeError [.agniSwap, .mint, .burn] e.signature)
  | .undecodable sig => .error (decodeError [.agniSwap, .mint, .burn] sig)
  | .anonymous => .error .panic

/-! ## The address of a pool stays -/

variable {prof : BuildProfile} {pool pool' : AgniPool}

theorem flipTick_address (pool : AgniPool) (tick : Int) :
    (pool.flipTick tick).address = pool.address := rfl

theorem updateTick_address {tick liquidityDelta : Int} {upper flipped : Bool}
    (h : pool.updateTick prof tick liquidityDelta upper = .ok (flipped, pool')) :
    pool'.address = pool.address := by
  unfold updateTick at h
  simp only [bind_eq_ok] at h
  obtain ⟨after, -, h⟩ := h
  cases h
  rfl

theorem updatePosition_address {tickLower tickUpper liquidityDelta : Int}
    (h : pool.updatePosition prof tickLower tickUpper liquidityDelta = .ok pool') :
    pool'.address = pool.address := by
  unfold updatePosition at h
  by_cases hd : liquidityDelta ≠ 0
  · simp only [if_pos hd, bind_eq_ok] at h
    obtain ⟨⟨flippedLower, pool₀⟩, h₀, ⟨flippedUpper, pool₁⟩, h₁, result, hresult, h⟩ := h
    cases hresult
    rw [← updateTick_address h₀, ← updateTick_address h₁]
    dsimp only at h
    split at h
    · cases h
      split <;> split <;> simp only [removeTick, flipTick_address]
    · cases h
      split <;> split <;> simp only [flipTick_address]
  · simp only [if_neg hd, bind_eq_ok] at h
    obtain ⟨result, hresult, h⟩ := h
    cases hresult
    dsimp only at h
    split at h
    · cases h
      rfl
    · cases h
      rfl

theorem modifyPosition_address {tickLower tickUpper liquidityDelta : Int}
    (h : pool.modifyPosition prof tickLower tickUpper liquidityDelta = .ok pool') :
    pool'.address = pool.address := by
  unfold modifyPosition at h
  rw [bind_eq_ok] at h
  obtain ⟨pool₁, h₁, h⟩ := h
  rw [← updatePosition_address h₁]
  split at h
  · rw [bind_eq_ok] at h
    obtain ⟨liquidity, -, h⟩ := h
    cases h
    rfl
  · cases h
    rfl

theorem sync_address {log : Log} (h : pool.sync prof log = .ok pool') :
    pool'.address = pool.address := by
  unfold sync at h
  split at h
  · cases h
    rfl
  · exact modifyPosition_address h
  · rw [bind_eq_ok] at h
    obtain ⟨liquidityDelta, -, h⟩ := h
    exact modifyPosition_address h
  all_goals cases h

end AgniPool

end ArbitrageBot
