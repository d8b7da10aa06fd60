import ArbitrageBot.StateSpace.Sync

/-!
# The state space manager

The loop of `subscribe`: for each block that the provider announces it fetches the block's logs,
synchronises the state space with them and stores the block number.
-/

namespace ArbitrageBot

/-- An announced block and the logs that the provider returns for it. -/
structure Block where
  number : Nat
  logs : List Log
  logs_number : ∀ log ∈ logs, log.blockNumber = some number

structure StateSpaceManager where
  state : StateSpace
  latestBlock : Nat

namespace StateSpaceManager

/-- What `StateSpaceBuilder::sync` returns for the pools it has built. -/
def ofState (state : HashMap Address AMM) (latestBlock : Nat) : StateSpaceManager where
  state := StateSpace.ofState state
  latestBlock := latestBlock

/-- The body of the loop of `subscribe`. Only the counter of the manager is stored; the one of the
state space, which `sync` compares with, is left alone. -/
def handleBlock (prof : BuildProfile) (self : StateSpaceManager) (block : Block) :
    Except StateSpace.Failure (List Address × StateSpaceManager) := do
  let (affectedAmms, state) ← self.state.sync prof block.logs
  return (affectedAmms, { self with state, latestBlock := block.number })

/-- The loop of `subscribe` over a sequence of announced blocks. -/
def handleBlocks (prof : BuildProfile) (self : StateSpaceManager) (blocks : List Block) :
    Except StateSpace.Failure StateSpaceManager :=
  blocks.foldlM (fun self block => (self.handleBlock prof block).map (·.2)) self

end StateSpaceManager

end ArbitrageBot
