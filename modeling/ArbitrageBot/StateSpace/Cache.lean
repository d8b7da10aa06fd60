import ArbitrageBot.Amms.Amm

/-!
# The state change cache

A bounded deque of state changes, the newest in front: for each block the states its AMMs had
before it.
-/

namespace ArbitrageBot

structure StateChange where
  stateChange : List AMM
  blockNumber : Nat

/-- `StateChangeCache<CAP>`. An `ArrayDeque` never holds more than its capacity. -/
structure StateChangeCache (CAP : Nat) where
  oldestBlock : Nat
  cache : List StateChange
  length_le : cache.length ≤ CAP

inductive StateSpaceError where
  | ammError (e : AMMError)
  | missingBlockNumber
  deriving DecidableEq, Repr

namespace StateChangeCache

variable {CAP : Nat}

def new : StateChangeCache CAP where
  oldestBlock := 0
  cache := []
  length_le := Nat.zero_le CAP

/-- `push`: a full cache drops its oldest change, and the change before it is the oldest then. -/
def push (self : StateChangeCache CAP) (stateChange : StateChange) :
    Outcome StateSpaceError (StateChangeCache CAP) :=
  if h : self.cache.length = CAP then
    match hback : self.cache.dropLast.getLast? with
    | some back => .ok
      { oldestBlock := back.blockNumber
        cache := stateChange :: self.cache.dropLast
        length_le := by
          cases hcache : self.cache with
          | nil => simp [hcache] at hback
          | cons a l =>
            rw [hcache] at h
            simp at h ⊢
            omega }
    -- `cache.back().unwrap()`
    | none => .error .panic
  else .ok
    { self with
      cache := stateChange :: self.cache
      length_le := by
        have := self.length_le
        rw [List.length_cons]
        omega }

/-- `flatten_state_changes`: from the oldest change on, the first state of each address. -/
def flattenStateChanges (stateChanges : List StateChange) : List AMM :=
  (stateChanges.reverse.foldl (fun (amms : HashMap Address AMM) change =>
    change.stateChange.foldl (fun amms amm =>
      if (amms.lookup amm.address).isSome then amms else amms.insert amm.address amm) amms)
    ∅).values

/-- `unwind_state_changes`: the states from before `blockToUnwind`, and the cache without the
changes since. -/
def unwindStateChanges (self : StateChangeCache CAP) (blockToUnwind : Nat) :
    Outcome StateSpaceError (List AMM × StateChangeCache CAP) :=
  if blockToUnwind < self.oldestBlock then .error .panic
  else
    match self.cache.head? with
    | none => .ok ([], self)
    | some latest =>
      if blockToUnwind > latest.blockNumber then .ok ([], self)
      else
        let pivotIdx :=
          (self.cache.findIdx? (·.blockNumber < blockToUnwind)).getD self.cache.length
        .ok (flattenStateChanges (self.cache.take pivotIdx),
          { self with
            cache := self.cache.drop pivotIdx
            length_le := by
              have := self.length_le
              rw [List.length_drop]
              omega })

end StateChangeCache

end ArbitrageBot
