import ArbitrageBot.Amms.UniswapV2Factory

/-!
# What synchronisation leaves alone

Events move the price, the liquidity and the reserves of a pool; its address, its tokens and its
variant stay.
-/

namespace ArbitrageBot

namespace UniswapV3Pool

/-- The fields that no event changes. -/
def fixed (pool : UniswapV3Pool) : Address × Token × Token × Nat × Int :=
  (pool.address, pool.tokenA, pool.tokenB, pool.fee, pool.tickSpacing)

variable {prof : BuildProfile} {pool pool' : UniswapV3Pool}

theorem flipTick_fixed (pool : UniswapV3Pool) (tick tickSpacing : Int) :
    (pool.flipTick tick tickSpacing).fixed = pool.fixed := by
  unfold flipTick
  dsimp only
  split <;> rfl

theorem updateTick_fixed {tick liquidityDelta : Int} {upper flipped : Bool}
    (h : pool.updateTick prof tick liquidityDelta upper = .ok (flipped, pool')) :
    pool'.fixed = pool.fixed := by
  unfold updateTick at h
  simp only [bind_eq_ok] at h
  obtain ⟨after, -, net, -, h⟩ := h
  cases h
  rfl

theorem removeTick_fixed (pool : UniswapV3Pool) (tick : Int) :
    (pool.removeTick tick).fixed = pool.fixed := rfl

theorem updatePosition_fixed {tickLower tickUpper liquidityDelta : Int}
    (h : pool.updatePosition prof tickLower tickUpper liquidityDelta = .ok pool') :
    pool'.fixed = pool.fixed := by
  unfold updatePosition at h
  by_cases hd : liquidityDelta ≠ 0
  · simp only [if_pos hd, bind_eq_ok] at h
    obtain ⟨⟨flippedLower, pool₀⟩, h₀, ⟨flippedUpper, pool₁⟩, h₁, result, hresult, h⟩ := h
    cases hresult
    rw [← updateTick_fixed h₀, ← updateTick_fixed h₁]
    dsimp only at h
    split at h <;> cases h <;> split <;> split <;> simp only [removeTick_fixed, flipTick_fixed]
  · simp only [if_neg hd, bind_eq_ok] at h
    obtain ⟨result, hresult, h⟩ := h
    cases hresult
    dsimp only at h
    split at h <;> cases h <;> rfl

theorem modifyPosition_fixed {tickLower tickUpper liquidityDelta : Int}
    (h : pool.modifyPosition prof tickLower tickUpper liquidityDelta = .ok pool') :
    pool'.fixed = pool.fixed := by
  unfold modifyPosition at h
  obtain ⟨pool₁, h₁, h⟩ := bind_eq_ok.mp h
  rw [← updatePosition_fixed h₁]
  split at h
  · obtain ⟨liquidity, -, h⟩ := bind_eq_ok.mp h
    cases h
    rfl
  · cases h
    rfl

theorem sync_fixed {log : Log} (h : pool.sync prof log = .ok pool') :
    pool'.fixed = pool.fixed := by
  unfold sync at h
  split at h
  · cases h
    rfl
  · exact modifyPosition_fixed h
  · obtain ⟨liquidityDelta, -, h⟩ := bind_eq_ok.mp h
    exact modifyPosition_fixed h
  all_goals cases h

end UniswapV3Pool

namespace AgniPool

/-- The fields that no event changes. -/
def fixed (pool : AgniPool) : Address × Token × Token × Nat × Int :=
  (pool.address, pool.tokenA, pool.tokenB, pool.fee, pool.tickSpacing)

variable {prof : BuildProfile} {pool pool' : AgniPool}

theorem flipTick_fixed (pool : AgniPool) (tick : Int) :
    (pool.flipTick tick).fixed = pool.fixed := rfl

theorem updateTick_fixed {tick liquidityDelta : Int} {upper flipped : Bool}
    (h : pool.updateTick prof tick liquidityDelta upper = .ok (flipped, pool')) :
    pool'.fixed = pool.fixed := by
  unfold updateTick at h
  simp only [bind_eq_ok] at h
  obtain ⟨after, -, h⟩ := h
  cases h
  rfl

theorem removeTick_fixed (pool : AgniPool) (tick : Int) :
    (pool.removeTick tick).fixed = pool.fixed := rfl

theorem updatePosition_fixed {tickLower tickUpper liquidityDelta : Int}
    (h : pool.updatePosition prof tickLower tickUpper liquidityDelta = .ok pool') :
    pool'.fixed = pool.fixed := by
  unfold updatePosition at h
  by_cases hd : liquidityDelta ≠ 0
  · simp only [if_pos hd, bind_eq_ok] at h
    obtain ⟨⟨flippedLower, pool₀⟩, h₀, ⟨flippedUpper, pool₁⟩, h₁, result, hresult, h⟩ := h
    cases hresult
    rw [← updateTick_fixed h₀, ← updateTick_fixed h₁]
    dsimp only at h
    split at h <;> cases h <;> split <;> split <;> simp only [removeTick_fixed, flipTick_fixed]
  · simp only [if_neg hd, bind_eq_ok] at h
    obtain ⟨result, hresult, h⟩ := h
    cases hresult
    dsimp only at h
    split at h <;> cases h <;> rfl

theorem modifyPosition_fixed {tickLower tickUpper liquidityDelta : Int}
    (h : pool.modifyPosition prof tickLower tickUpper liquidityDelta = .ok pool') :
    pool'.fixed = pool.fixed := by
  unfold modifyPosition at h
  obtain ⟨pool₁, h₁, h⟩ := bind_eq_ok.mp h
  rw [← updatePosition_fixed h₁]
  split at h
  · obtain ⟨liquidity, -, h⟩ := bind_eq_ok.mp h
    cases h
    rfl
  · cases h
    rfl

theorem sync_fixed {log : Log} (h : pool.sync prof log = .ok pool') :
    pool'.fixed = pool.fixed := by
  unfold sync at h
  split at h
  · cases h
    rfl
  · exact modifyPosition_fixed h
  · obtain ⟨liquidityDelta, -, h⟩ := bind_eq_ok.mp h
    exact modifyPosition_fixed h
  all_goals cases h

end AgniPool

namespace MoeLbPair

/-- The fields that no event changes, of those that tell which pair it is. -/
def fixed (pair : MoeLbPair) : Address × Token × Token × Nat :=
  (pair.address, pair.tokenX, pair.tokenY, pair.binStep)

variable {pair pair' : MoeLbPair}

theorem updateBin_fixed {id amounts : U256} {isDeposit : Bool}
    (h : pair.updateBin id amounts isDeposit = .ok pair') : pair'.fixed = pair.fixed := by
  unfold updateBin at h
  split at h
  · dsimp only at h
    split at h
    · cases h
      rfl
    · split at h <;> cases h <;> rfl
  · cases h

theorem updateBins_fixed {ids amounts : List U256} {isDeposit : Bool}
    (h : pair.updateBins ids amounts isDeposit = .ok pair') : pair'.fixed = pair.fixed := by
  unfold updateBins at h
  generalize ids.zip amounts = entries at h
  induction entries generalizing pair with
  | nil =>
    cases h
    rfl
  | cons entry entries ih =>
    rw [List.foldlM_cons] at h
    obtain ⟨pair₁, h₁, h⟩ := bind_eq_ok.mp h
    rw [ih h, updateBin_fixed h₁]

theorem sync_fixed {log : Log} (h : pair.sync log = .ok pair') : pair'.fixed = pair.fixed := by
  unfold sync at h
  split at h
  · cases h
    rfl
  · exact updateBins_fixed h
  · exact updateBins_fixed h
  all_goals cases h

end MoeLbPair

inductive Variant where
  | uniswapV2Pool
  | uniswapV3Pool
  | agniPool
  | moeLbPair
  deriving DecidableEq, Repr

namespace AMM

def variant : AMM → Variant
  | uniswapV2Pool _ => .uniswapV2Pool
  | uniswapV3Pool _ => .uniswapV3Pool
  | agniPool _ => .agniPool
  | moeLbPair _ => .moeLbPair

theorem exists_of_map_eq_ok {ε α β : Type} {x : Except ε α} {f : α → β} {b : β}
    (h : x.map f = .ok b) : ∃ a, x = .ok a ∧ b = f a := by
  cases x with
  | error e => cases h
  | ok a =>
    cases h
    exact ⟨a, rfl, rfl⟩

/-- **A pool stays what it is** when it is synchronised. -/
theorem sync_same {prof : BuildProfile} {amm amm' : AMM} {log : Log}
    (h : amm.sync prof log = .ok amm') :
    amm'.address = amm.address ∧ amm'.tokens = amm.tokens ∧ amm'.variant = amm.variant := by
  refine ⟨sync_address h, ?_⟩
  cases amm with
  | uniswapV2Pool pool =>
    obtain ⟨pool', hp, rfl⟩ := exists_of_map_eq_ok h
    unfold UniswapV2Pool.sync at hp
    split at hp <;> cases hp
    exact ⟨rfl, rfl⟩
  | uniswapV3Pool pool =>
    obtain ⟨pool', hp, rfl⟩ := exists_of_map_eq_ok h
    have hfixed := UniswapV3Pool.sync_fixed hp
    simp only [UniswapV3Pool.fixed, Prod.mk.injEq] at hfixed
    simp [tokens, variant, hfixed]
  | agniPool pool =>
    obtain ⟨pool', hp, rfl⟩ := exists_of_map_eq_ok h
    have hfixed := AgniPool.sync_fixed hp
    simp only [AgniPool.fixed, Prod.mk.injEq] at hfixed
    simp [tokens, variant, hfixed]
  | moeLbPair pair =>
    obtain ⟨pair', hp, rfl⟩ := exists_of_map_eq_ok h
    have hfixed := MoeLbPair.sync_fixed hp
    simp only [MoeLbPair.fixed, Prod.mk.injEq] at hfixed
    simp [tokens, variant, hfixed]

end AMM

end ArbitrageBot
