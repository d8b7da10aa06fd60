import ArbitrageBot.Amms.UniswapV3.Pool

/-!
# The Uniswap V3 pool contract

The state of the contract that its events tell of: price, tick, active liquidity, ticks and bitmap,
and the calls that change it. The libraries that it imports are not part of the repository: what
they do to this state is `Libraries`, and what is documented of them is `Libraries.Documented`.
Fees, the oracle, the transfers and the lock only ever make a call revert.
-/

namespace ArbitrageBot.UniV3

/-! ## The libraries -/

/-- The functions of the libraries; nothing where they revert. -/
structure Libraries where
  /-- `LiquidityMath.addDelta`. -/
  addDelta : Nat → Int → Option Nat
  /-- `SafeCast.toInt128`. -/
  toInt128 : Int → Option Int
  /-- `Tick.update`: of the ticks, a tick, the change, which bound it is, and the maximum. -/
  tickUpdate : (Int → Info) → Int → Int → Bool → Nat → Option (Bool × (Int → Info))
  /-- `Tick.clear`. -/
  tickClear : (Int → Info) → Int → (Int → Info)
  /-- `TickBitmap.flipTick`. -/
  flipTick : (Int → U256) → Int → Int → Option (Int → U256)
  /-- `Position.update`, of the liquidity of the position. -/
  positionUpdate : Nat → Int → Option Nat

/-- The entry of a tick after an update. -/
structure Updated (before after : Info) (liquidityDelta : Int) (upper : Bool) : Prop where
  gross : (after.liquidityGross : Int) = before.liquidityGross + liquidityDelta
  grossLt : after.liquidityGross < 2 ^ 128
  net : after.liquidityNet =
    before.liquidityNet + if upper then -liquidityDelta else liquidityDelta
  netRange : -2 ^ 127 ≤ after.liquidityNet ∧ after.liquidityNet < 2 ^ 127
  initialized :
    after.initialized = if before.liquidityGross = 0 then true else before.initialized

/-- What the libraries are documented to do when they do not revert. -/
structure Libraries.Documented (lib : Libraries) : Prop where
  addDelta : ∀ {x y z}, lib.addDelta x y = some z → (z : Int) = x + y ∧ z < 2 ^ 128
  toInt128 : ∀ {y z}, lib.toInt128 y = some z → z = y ∧ -2 ^ 127 ≤ y ∧ y < 2 ^ 127
  tickUpdate : ∀ {ticks tick liquidityDelta upper maxLiquidity flipped ticks'},
    lib.tickUpdate ticks tick liquidityDelta upper maxLiquidity = some (flipped, ticks') →
      ∃ info, Updated (ticks tick) info liquidityDelta upper ∧
        ticks' = Function.update ticks tick info ∧
        flipped = (decide (info.liquidityGross = 0) != decide ((ticks tick).liquidityGross = 0))
  tickClear : ∀ ticks tick, lib.tickClear ticks tick = Function.update ticks tick default
  flipTick : ∀ {bitmap tick tickSpacing bitmap'},
    lib.flipTick bitmap tick tickSpacing = some bitmap' → tickSpacing ∣ tick ∧
      bitmap' = Function.update bitmap (tick / tickSpacing / 256)
        (bitmap (tick / tickSpacing / 256) ^^^ 1#256 <<< (tick / tickSpacing % 256).toNat)

/-- Libraries that revert only where they have to. -/
def plainLibraries : Libraries where
  addDelta x y := if 0 ≤ x + y ∧ x + y < 2 ^ 128 then some (x + y).toNat else none
  toInt128 y := if -2 ^ 127 ≤ y ∧ y < 2 ^ 127 then some y else none
  tickUpdate ticks tick liquidityDelta upper maxLiquidity :=
    let before := ticks tick
    let gross := before.liquidityGross + liquidityDelta
    let net := before.liquidityNet + if upper then -liquidityDelta else liquidityDelta
    if 0 ≤ gross ∧ gross < 2 ^ 128 ∧ gross ≤ maxLiquidity ∧ -2 ^ 127 ≤ net ∧ net < 2 ^ 127 then
      some (decide (gross.toNat = 0) != decide (before.liquidityGross = 0),
        Function.update ticks tick ⟨gross.toNat, net,
          if before.liquidityGross = 0 then true else before.initialized⟩)
    else none
  tickClear ticks tick := Function.update ticks tick default
  flipTick bitmap tick tickSpacing :=
    if tickSpacing ∣ tick then
      some (Function.update bitmap (tick / tickSpacing / 256)
        (bitmap (tick / tickSpacing / 256) ^^^ 1#256 <<< (tick / tickSpacing % 256).toNat))
    else none
  positionUpdate liquidity liquidityDelta :=
    if liquidityDelta = 0 ∧ liquidity = 0 then none
    else if 0 ≤ liquidity + liquidityDelta ∧ liquidity + liquidityDelta < 2 ^ 128 then
      some (liquidity + liquidityDelta).toNat
    else none

theorem plainLibraries_documented : plainLibraries.Documented where
  addDelta := by
    intro x y z h
    obtain ⟨hrange, h⟩ := Option.ite_none_right_eq_some.mp h
    cases h
    omega
  toInt128 := by
    intro y z h
    obtain ⟨hrange, h⟩ := Option.ite_none_right_eq_some.mp h
    cases h
    exact ⟨rfl, hrange⟩
  tickUpdate := by
    intro ticks tick liquidityDelta upper maxLiquidity flipped ticks' h
    obtain ⟨hrange, h⟩ := Option.ite_none_right_eq_some.mp h
    cases h
    refine ⟨_, ⟨?_, ?_, rfl, hrange.2.2.2, rfl⟩, rfl, rfl⟩
    · exact Int.toNat_of_nonneg hrange.1
    · dsimp only
      omega
  tickClear := fun _ _ => rfl
  flipTick := by
    intro bitmap tick tickSpacing bitmap' h
    obtain ⟨hdvd, h⟩ := Option.ite_none_right_eq_some.mp h
    cases h
    exact ⟨hdvd, rfl⟩

/-! ## The contract -/

structure Pool where
  tickSpacing : Int
  maxLiquidityPerTick : Nat
  sqrtPriceX96 : BitVec 160
  tick : Int
  liquidity : Nat
  ticks : Int → Info
  tickBitmap : Int → U256
  positions : Address × Int × Int → Nat

namespace Pool

/-- `checkTicks`. -/
def ticksChecked (tickLower tickUpper : Int) : Bool :=
  tickLower < tickUpper && tickLower ≥ MIN_TICK && tickUpper ≤ MAX_TICK

/-- `if (flipped) tickBitmap.flipTick(tick, tickSpacing)`. -/
def flipIf (lib : Libraries) (flipped : Bool) (bitmap : Int → U256) (tick tickSpacing : Int) :
    Option (Int → U256) :=
  if flipped then lib.flipTick bitmap tick tickSpacing else some bitmap

/-- `if (flipped) ticks.clear(tick)`. -/
def clearIf (lib : Libraries) (flipped : Bool) (ticks : Int → Info) (tick : Int) : Int → Info :=
  if flipped then lib.tickClear ticks tick else ticks

/-- `_updatePosition`. -/
def updatePosition (lib : Libraries) (self : Pool) (owner : Address)
    (tickLower tickUpper liquidityDelta : Int) : Option Pool := do
  let (flippedLower, flippedUpper, self) ←
    if liquidityDelta ≠ 0 then do
      let (flippedLower, ticks) ←
        lib.tickUpdate self.ticks tickLower liquidityDelta false self.maxLiquidityPerTick
      let (flippedUpper, ticks) ←
        lib.tickUpdate ticks tickUpper liquidityDelta true self.maxLiquidityPerTick
      let tickBitmap ← flipIf lib flippedLower self.tickBitmap tickLower self.tickSpacing
      let tickBitmap ← flipIf lib flippedUpper tickBitmap tickUpper self.tickSpacing
      pure (flippedLower, flippedUpper, { self with ticks, tickBitmap })
    else pure (false, false, self)
  let key := (owner, tickLower, tickUpper)
  let liquidity ← lib.positionUpdate (self.positions key) liquidityDelta
  let self := { self with positions := Function.update self.positions key liquidity }
  if liquidityDelta < 0 then
    let ticks := clearIf lib flippedLower self.ticks tickLower
    return { self with ticks := clearIf lib flippedUpper ticks tickUpper }
  else return self

/-- `_modifyPosition`. -/
def modifyPosition (lib : Libraries) (self : Pool) (owner : Address)
    (tickLower tickUpper liquidityDelta : Int) : Option Pool := do
  if ticksChecked tickLower tickUpper then
    let tick := self.tick
    let self ← self.updatePosition lib owner tickLower tickUpper liquidityDelta
    if liquidityDelta ≠ 0 ∧ ¬ tick < tickLower ∧ tick < tickUpper then
      let liquidity ← lib.addDelta self.liquidity liquidityDelta
      return { self with liquidity }
    else return self
  else none

/-- A call of the contract. What the loop of a swap comes to is left open: its event tells it. -/
inductive Call where
  | mint (recipient : Address) (tickLower tickUpper : Int) (amount : BitVec 128)
  | burn (sender : Address) (tickLower tickUpper : Int) (amount : BitVec 128)
  | swap (sqrtPriceX96 : BitVec 160) (liquidity : BitVec 128) (tick : Int)

/-- The pool after a call and the event of the call; nothing where it reverts. -/
def call (lib : Libraries) (self : Pool) : Call → Option (Pool × Event)
  | .mint recipient tickLower tickUpper amount =>
    if amount.toNat > 0 then do
      let liquidityDelta ← lib.toInt128 amount.toNat
      let self ← self.modifyPosition lib recipient tickLower tickUpper liquidityDelta
      return (self, .mint tickLower tickUpper amount.toNat)
    else none
  | .burn sender tickLower tickUpper amount => do
    let amountDelta ← lib.toInt128 amount.toNat
    let self ← self.modifyPosition lib sender tickLower tickUpper (-amountDelta)
    return (self, .burn tickLower tickUpper amount.toNat)
  | .swap sqrtPriceX96 liquidity tick =>
    some ({ self with sqrtPriceX96, liquidity := liquidity.toNat, tick },
      .uniswapV3Swap (sqrtPriceX96.setWidth 256) liquidity.toNat tick)

/-- The pool and the events after calls, of which some may revert. -/
def run (lib : Libraries) : Pool → List Call → Pool × List Event
  | self, [] => (self, [])
  | self, call :: calls =>
    match self.call lib call with
    | none => self.run lib calls
    | some (after, event) => ((after.run lib calls).1, event :: (after.run lib calls).2)

/-- A pool that has just been initialized. -/
def initialized (tickSpacing : Int) (maxLiquidityPerTick : Nat) (sqrtPriceX96 : BitVec 160)
    (tick : Int) : Pool where
  tickSpacing := tickSpacing
  maxLiquidityPerTick := maxLiquidityPerTick
  sqrtPriceX96 := sqrtPriceX96
  tick := tick
  liquidity := 0
  ticks := fun _ => default
  tickBitmap := fun _ => 0
  positions := fun _ => 0

end Pool

end ArbitrageBot.UniV3
