import ArbitrageBot.Contracts.Executor
import ArbitrageBot.Execution.Executor
import ArbitrageBot.Protocols.Candidate

/-!
# The Moe service: execution of a candidate

The service sends `executeArbitrage` with an array of zeros for the outputs. The last one is what
the contract has to get back beyond the balance that the input leaves, so the contract accepts any
loss of the input.
-/

namespace ArbitrageBot.Protocols

open Lib
open ArbitrageBot.Execution (ExecutorCall)

namespace MoeMonitor

structure ServiceConfig where
  executorAddress : Address
  wmntAddress : Address

/-- What the node answers to the service; attempts are counted from zero. -/
structure Node where
  balanceOf : Address → Address → Option U256
  activeId : Nat → Address → Option U256
  binStep : Nat → Address → Option U256
  /-- `.send().await`, and `pending_tx.watch().await` of a call that was sent. -/
  send : Nat → ExecutorCall → Option U256
  watch : Nat → U256 → Bool

inductive ServiceError where
  | contractCall
  /-- "Executor contract has zero WMNT balance". -/
  | zeroBalance
  | sendFailed
  /-- "Transaction failed". -/
  | transactionFailed
  /-- "All execution attempts failed". -/
  | attemptsFailed
  deriving DecidableEq, Repr

/-- The calls that were submitted, and what `attempt_execution` returns. -/
structure Execution where
  submitted : List ExecutorCall
  result : Except ServiceError U256

/-- `refresh_moe_states`: the active id and the bin step of each pool. -/
def refreshMoeStates (node : Node) (attempt : Nat) (pools : List Address) : Option (List U256) :=
  (pools.mapM fun pool => do
    let activeId ← node.activeId attempt pool
    let binStep ← node.binStep attempt pool
    return [activeId, binStep]).map List.flatten

/-- The call of one attempt. Every pool has the type 2, and every output is 0. -/
def arbitrageCall (config : ServiceConfig) (candidate : PositiveCandidate) (adjustedInput : U256)
    (freshStates : List U256) : ExecutorCall where
  target := config.executorAddress
  amountIn := adjustedInput
  path := candidate.tokenPath
  pools := candidate.poolAddresses
  poolTypes := List.replicate candidate.poolAddresses.length 2
  expectedStates := freshStates
  amountsOut := List.replicate candidate.amountsOut.length 0

/-- The attempts from a given one on, until one succeeds. -/
def attempts (node : Node) (config : ServiceConfig) (candidate : PositiveCandidate)
    (adjustedInput : U256) : List Nat → ServiceError → Execution
  | [], lastError => ⟨[], .error lastError⟩
  | attempt :: rest, _ =>
    match refreshMoeStates node attempt candidate.poolAddresses with
    | none => attempts node config candidate adjustedInput rest .contractCall
    | some freshStates =>
      let call := arbitrageCall config candidate adjustedInput freshStates
      let next := fun e =>
        let e := attempts node config candidate adjustedInput rest e
        { e with submitted := call :: e.submitted }
      match node.send attempt call with
      | none => next .sendFailed
      | some txHash => if node.watch attempt txHash then ⟨[call], .ok txHash⟩
        else next .transactionFailed

/-- The input, scaled down to the balance. -/
def adjustInput (executorBalance input : U256) : Except ServiceError U256 :=
  if executorBalance < input then
    if executorBalance = 0 then .error .zeroBalance else .ok executorBalance
  else .ok input

def attemptExecution (node : Node) (config : ServiceConfig) (candidate : PositiveCandidate) :
    Execution :=
  match node.balanceOf config.wmntAddress config.executorAddress with
  | none => ⟨[], .error .contractCall⟩
  | some executorBalance =>
    match adjustInput executorBalance candidate.input with
    | .error e => ⟨[], .error e⟩
    | .ok adjustedInput =>
      attempts node config candidate adjustedInput (List.range 3) .attemptsFailed

end MoeMonitor

/-! ## What the contract enforces -/

/-- The checks of `executeArbitrage` on the balances before and after its swaps. -/
def balanceChecks (c : ExecutorCall) (balanceBefore balanceAfter : U256) :
    Executor.Program Unit := do
  Prog.require (decide (balanceBefore ≥ c.amountIn)) "INSUFFICIENT_BALANCE"
  let minExpected ← Executor.checkedAdd (← Executor.checkedSub balanceBefore c.amountIn)
    (← Executor.index c.amountsOut (c.pools.length - 1))
  Prog.require (decide (balanceAfter ≥ minExpected)) "INSUFFICIENT_OUTPUT"

/-- The last output that the call asks for is the input at least. -/
def CoversInput (c : ExecutorCall) : Prop :=
  ∀ last ∈ c.amountsOut.getLast?, c.amountIn ≤ last

namespace MoeMonitor

variable {node : Node} {config : ServiceConfig} {candidate : PositiveCandidate}

/-- The calls of the attempts are calls of the same input. -/
theorem mem_attempts {adjustedInput : U256} {rest : List Nat} {e : ServiceError} {c : ExecutorCall}
    (h : c ∈ (attempts node config candidate adjustedInput rest e).submitted) :
    ∃ freshStates, c = arbitrageCall config candidate adjustedInput freshStates := by
  induction rest generalizing e with
  | nil => simp [attempts] at h
  | cons attempt rest ih =>
    unfold attempts at h
    cases hstates : refreshMoeStates node attempt candidate.poolAddresses with
    | none =>
      rw [hstates] at h
      exact ih h
    | some freshStates =>
      simp only [hstates] at h
      cases hsend : node.send attempt
          (arbitrageCall config candidate adjustedInput freshStates) with
      | none =>
        simp only [hsend, List.mem_cons] at h
        rcases h with rfl | h
        · exact ⟨freshStates, rfl⟩
        · exact ih h
      | some txHash =>
        simp only [hsend] at h
        split at h
        · exact ⟨freshStates, List.mem_singleton.mp h⟩
        · rcases List.mem_cons.mp h with rfl | h
          · exact ⟨freshStates, rfl⟩
          · exact ih h

/-- The first attempt that reads the states of the pools submits a call. -/
theorem attempts_submits {adjustedInput : U256} {rest : List Nat} {e : ServiceError} :
    (attempts node config candidate adjustedInput rest e).submitted = [] ↔
      ∀ attempt ∈ rest, refreshMoeStates node attempt candidate.poolAddresses = none := by
  induction rest generalizing e with
  | nil => simp [attempts]
  | cons attempt rest ih =>
    unfold attempts
    cases hstates : refreshMoeStates node attempt candidate.poolAddresses with
    | none => simpa [hstates] using ih
    | some freshStates =>
      simp only [List.forall_mem_cons, hstates, reduceCtorEq, false_and, iff_false]
      cases node.send attempt (arbitrageCall config candidate adjustedInput freshStates) with
      | none => simp
      | some txHash =>
        dsimp only
        split <;> simp

/-- Nothing is submitted: the balance is not read or is zero, or the states of the pools are read in
no attempt. -/
def Silent (node : Node) (config : ServiceConfig) (candidate : PositiveCandidate) : Prop :=
  node.balanceOf config.wmntAddress config.executorAddress = none ∨
  node.balanceOf config.wmntAddress config.executorAddress = some 0 ∨
  ∀ attempt < 3, refreshMoeStates node attempt candidate.poolAddresses = none

theorem coversInput_arbitrageCall {adjustedInput : U256} {freshStates : List U256} :
    CoversInput (arbitrageCall config candidate adjustedInput freshStates) ↔
      adjustedInput = 0 ∨ candidate.amountsOut = [] := by
  unfold CoversInput arbitrageCall
  cases candidate.amountsOut with
  | nil => simp
  | cons amount amounts =>
    have hlast : (List.replicate (amounts.length + 1) (0 : U256)).getLast? = some 0 := by
      simp [List.getLast?_replicate]
    simp only [List.length_cons, hlast, Option.mem_def, Option.some.injEq, forall_eq',
      reduceCtorEq, or_false]
    exact BitVec.le_zero_iff

theorem attempts_coversInput_iff {adjustedInput : U256} {e : ServiceError} {rest : List Nat} :
    (∀ c ∈ (attempts node config candidate adjustedInput rest e).submitted, CoversInput c) ↔
      adjustedInput = 0 ∨ candidate.amountsOut = [] ∨
        ∀ attempt ∈ rest, refreshMoeStates node attempt candidate.poolAddresses = none := by
  rw [← or_assoc, ← attempts_submits]
  constructor
  · intro h
    rw [or_iff_not_imp_right]
    intro hsome
    obtain ⟨c, hc⟩ := List.exists_mem_of_ne_nil _ hsome
    have hcovers := h c hc
    obtain ⟨freshStates, rfl⟩ := mem_attempts hc
    exact coversInput_arbitrageCall.mp hcovers
  · intro h c hc
    obtain ⟨freshStates, rfl⟩ := mem_attempts hc
    rcases h with hzero | hnone
    · exact coversInput_arbitrageCall.mpr hzero
    · rw [hnone] at hc
      cases hc

/-- **A submitted call covers its input exactly when there is none to cover.** -/
theorem attemptExecution_coversInput_iff (node : Node) (config : ServiceConfig)
    (candidate : PositiveCandidate) :
    (∀ c ∈ (attemptExecution node config candidate).submitted, CoversInput c) ↔
      candidate.input = 0 ∨ candidate.amountsOut = [] ∨ Silent node config candidate := by
  unfold attemptExecution Silent
  cases node.balanceOf config.wmntAddress config.executorAddress with
  | none => simp
  | some balance =>
    simp only [reduceCtorEq, false_or, Option.some.injEq]
    unfold adjustInput
    by_cases hlow : balance < candidate.input
    · have hinput : candidate.input ≠ 0 := by
        rintro hzero
        rw [hzero] at hlow
        exact BitVec.not_lt_zero hlow
      by_cases hzero : balance = 0
      · rw [if_pos hlow, if_pos hzero]
        simp [show balance = 0#256 from hzero]
      · simp only [hlow, hzero, hinput, if_true, if_false, false_or]
        rw [attempts_coversInput_iff]
        simp only [hzero, List.mem_range, false_or]
    · simp only [hlow, if_false]
      rw [attempts_coversInput_iff]
      by_cases hzero : balance = 0
      · have hinput : candidate.input = 0 := by
          rw [hzero, BitVec.not_lt] at hlow
          exact BitVec.le_zero_iff.mp hlow
        simp [hinput]
      · simp only [hzero, List.mem_range, false_or]

/-- A node on which the executor has 100 of the native token (1) and everything is answered. -/
def fundedNode : Node where
  balanceOf _ _ := some 100
  activeId _ _ := some 8388608
  binStep _ _ := some 10
  send _ _ := some 1
  watch _ _ := true

def twoPoolCandidate : PositiveCandidate where
  signature := [(1, 2, 10, 10), (2, 1, 11, 10)]
  hops := 2
  input := 50
  output := 60
  profit := 10
  netProfit := 5
  poolAddresses := [10, 11]
  tokenPath := [1, 2, 1]
  amountsOut := [0, 0]
  expectedStates := [8388608, 10, 8388608, 10]

/-- The call for `twoPoolCandidate` is sent, and the contract would accept the loss of all 50. -/
theorem twoPoolCandidate_uncovered :
    (attemptExecution fundedNode ⟨7, 1⟩ twoPoolCandidate).submitted =
      [arbitrageCall ⟨7, 1⟩ twoPoolCandidate 50 [8388608, 10, 8388608, 10]] ∧
    ¬ CoversInput (arbitrageCall ⟨7, 1⟩ twoPoolCandidate 50 [8388608, 10, 8388608, 10]) ∧
    balanceChecks (arbitrageCall ⟨7, 1⟩ twoPoolCandidate 50 [8388608, 10, 8388608, 10]) 100 50 =
      .pure () := by
  refine ⟨rfl, fun h => ?_, rfl⟩
  exact absurd (h 0 rfl) (by decide)

end MoeMonitor

end ArbitrageBot.Protocols
