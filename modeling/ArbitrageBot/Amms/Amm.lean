import ArbitrageBot.Amms.Moe.Pair
import ArbitrageBot.Amms.UniswapV2

/-!
# The pool enumeration

`AMM` wraps the four pool types. Two values are equal when their addresses are, whatever their
states: hash sets of pools are sets of addresses.
-/

namespace ArbitrageBot

inductive AMM where
  | uniswapV2Pool (pool : UniswapV2Pool)
  | uniswapV3Pool (pool : UniswapV3Pool)
  | agniPool (pool : AgniPool)
  | moeLbPair (pool : MoeLbPair)

namespace AMM

def address : AMM → Address
  | uniswapV2Pool pool => pool.address
  | uniswapV3Pool pool => pool.address
  | agniPool pool => pool.address
  | moeLbPair pool => pool.address

def sync (prof : BuildProfile) : AMM → Log → Outcome AMMError AMM
  | uniswapV2Pool pool, log => (pool.sync log).map uniswapV2Pool
  | uniswapV3Pool pool, log => (pool.sync prof log).map uniswapV3Pool
  | agniPool pool, log => (pool.sync prof log).map agniPool
  | moeLbPair pool, log => (pool.sync log).map moeLbPair

/-- `PartialEq for AMM`. -/
instance : BEq AMM := ⟨fun a b => a.address == b.address⟩

/-- Synchronisation keeps the address. -/
theorem sync_address {prof : BuildProfile} {amm amm' : AMM} {log : Log}
    (h : amm.sync prof log = .ok amm') : amm'.address = amm.address := by
  have key : ∀ {α : Type} {x : Outcome AMMError α} {f : α → AMM},
      x.map f = .ok amm' → ∃ a, x = .ok a ∧ amm' = f a := by
    intro α x f hx
    cases x with
    | error e => cases hx
    | ok a =>
      cases hx
      exact ⟨a, rfl, rfl⟩
  cases amm with
  | uniswapV2Pool pool =>
    obtain ⟨pool', hp, rfl⟩ := key h
    exact UniswapV2Pool.sync_address hp
  | uniswapV3Pool pool =>
    obtain ⟨pool', hp, rfl⟩ := key h
    exact UniswapV3Pool.sync_address hp
  | agniPool pool =>
    obtain ⟨pool', hp, rfl⟩ := key h
    exact AgniPool.sync_address hp
  | moeLbPair pool =>
    obtain ⟨pool', hp, rfl⟩ := key h
    exact MoeLbPair.sync_address hp

/-- The logs of one block or of several, applied in order. -/
def replay (prof : BuildProfile) (amm : AMM) (logs : List Log) : Outcome AMMError AMM :=
  logs.foldlM (fun amm log => amm.sync prof log) amm

theorem replay_append (prof : BuildProfile) (amm : AMM) (logs logs' : List Log) :
    amm.replay prof (logs ++ logs') = amm.replay prof logs >>= fun amm' =>
      amm'.replay prof logs' := by
  unfold replay
  rw [List.foldlM_append]

end AMM

end ArbitrageBot
