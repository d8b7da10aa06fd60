import ArbitrageBot.Amms.Moe.BinSync

/-!
# The Moe monitor: resynchronisation of changed pools
-/

namespace ArbitrageBot

/-- `n as i32`. -/
def asI32 (n : Nat) : Int := (n : Int).bmod (2 ^ 32)

/-- `x as u32`. -/
def asU32 (x : Int) : Nat := (x % 2 ^ 32).toNat

namespace MoeMonitor

def BINS_RADIUS : Nat := 200
def BINS_BATCH_SIZE : Nat := 15

/-- The active id at an offset from the original one, by `saturating_add` or `saturating_sub`. -/
def shiftedId (prof : BuildProfile) (originalActiveId : Nat) (centerOffset : Int) :
    Outcome AMMError Nat :=
  if centerOffset ≥ 0 then return min (originalActiveId + asU32 centerOffset) (2 ^ 32 - 1)
  else do
    let offset ← prof.signed 32 (-centerOffset)
    return originalActiveId - asU32 offset

/-- `pair.active_id = …` for the Moe pairs of a list. -/
def setActiveId (amm : AMM) (activeId : Nat) : AMM :=
  match amm with
  | .moeLbPair pair => .moeLbPair { pair with activeId }
  | amm => amm

/-- The active id of a Moe pair, `0` for the other pools. -/
def activeId : AMM → Nat
  | .moeLbPair pair => pair.activeId
  | _ => 0

/-- The loop over the pairs that moves the windows of a batch. Other pools are left alone. -/
def shiftActiveIds (prof : BuildProfile) (centerOffset : Int) :
    List AMM → List Nat → Outcome AMMError (List AMM)
  | .moeLbPair pair :: amms, originalActiveId :: ids => do
    let activeId ← shiftedId prof originalActiveId centerOffset
    let amms ← shiftActiveIds prof centerOffset amms ids
    return .moeLbPair { pair with activeId } :: amms
  | amm :: amms, ids => do
    let amms ← shiftActiveIds prof centerOffset amms ids.tail
    return amm :: amms
  | [], _ => return []

/-- One round of the loop over the batches. -/
def syncBatch (prof : BuildProfile)
    (call : Nat → Nat → Outcome AMMError (Address → Nat → Nat × Nat)) (radius batchSize : Nat)
    (originalActiveIds : List Nat) (amms : List AMM) (batchIdx : Nat) :
    Outcome AMMError (List AMM) := do
  let centerOffset ← prof.unsigned 32 (batchIdx * batchSize : Nat)
  let centerOffset ← prof.signed 32 (asI32 centerOffset - asI32 radius)
  let centerOffset ← prof.signed 32 (centerOffset + asI32 batchSize)
  let amms ← shiftActiveIds prof centerOffset amms originalActiveIds
  syncActiveBinsBatch prof (call batchIdx) amms batchSize

/-- `sync_bins_in_batches`: several windows, around shifted active ids, cover the radius. -/
def syncBinsInBatches (prof : BuildProfile)
    (call : Nat → Nat → Outcome AMMError (Address → Nat → Nat × Nat)) (amms : List AMM)
    (radius batchSize : Nat) : Outcome AMMError (List AMM) := do
  let originalActiveIds := amms.map activeId
  let totalRange ← prof.unsigned 32 (radius * 2 : Nat)
  let rounded ← prof.unsigned 32 (totalRange + batchSize : Nat)
  let rounded ← prof.unsigned 32 (rounded - 1 : Int)
  if batchSize = 0 then .error .panic
  else do
    let amms ← (List.range (rounded / batchSize)).foldlM
      (syncBatch prof call radius batchSize originalActiveIds) amms
    return amms.zipWith setActiveId originalActiveIds

/-- `pools.insert(p.address, p)` for a resynchronised pool. -/
def insertPool (pools : HashMap Address MoeLbPair) : AMM → HashMap Address MoeLbPair
  | .moeLbPair pair => pools.insert pair.address pair
  | _ => pools

/-- `resync_changed_pools`: the pools afterwards. Where the bins fail to arrive the pools stay. -/
def resyncChangedPools (prof : BuildProfile) (slots : Nat → Option (Address → Slot0Data))
    (call : Nat → Nat → Outcome AMMError (Address → Nat → Nat × Nat))
    (pools : HashMap Address MoeLbPair) (changed : List Address) :
    Outcome AMMError (HashMap Address MoeLbPair) :=
  let poolsToResync := changed.filterMap fun addr => (pools.lookup addr).map AMM.moeLbPair
  if poolsToResync.isEmpty then .ok pools
  else
    let poolsToResync := syncSlot0Batch slots poolsToResync
    match syncBinsInBatches prof call poolsToResync BINS_RADIUS BINS_BATCH_SIZE with
    | .ok amms => .ok (amms.foldl insertPool pools)
    | .error (.err _) => .ok pools
    | .error .panic => .error .panic

end MoeMonitor

end ArbitrageBot
