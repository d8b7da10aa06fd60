import ArbitrageBot.Lib.Traces
import ArbitrageBot.Protocols.Selection

/-!
# From a selection to an execution

The main loop of both monitor services and the worker task beside it. The loop sends the selected
candidates of a block into a bounded channel, unless one like them failed before; the worker takes
them out one at a time, leaves out what it submitted a short while ago, and records what fails. The
two tasks take turns in any order: a turn goes up to the next lock, or to the next place in the
channel.
-/

namespace ArbitrageBot.Protocols

open Lib

/-! ## How often a path appeared -/

abbrev PathSignature := List (Address × Address × Address × Nat)

/-- The last block in which a path appeared, a `u64`, and the count of its appearances, a `u32`. -/
structure AppearanceTracker where
  appearances : HashMap PathSignature (Nat × Nat)
  maxAppearances : Nat

def MAX_APPEARANCES : Nat := 3

namespace AppearanceTracker

def new (maxAppearances : Nat) : AppearanceTracker := ⟨∅, maxAppearances⟩

/-- The entry of a path once it appeared in a block. -/
def appear (prof : BuildProfile) (blockNumber : Nat) (entry : Nat × Nat) :
    Outcome Empty (Nat × Nat) :=
  if entry.1 ≠ blockNumber then do
    let count ← prof.unsigned 32 (entry.2 + 1)
    return (blockNumber, count)
  else return entry

def filterAndUpdate (prof : BuildProfile) (blockNumber : Nat) :
    AppearanceTracker → List PositiveCandidate →
      Outcome Empty (List PositiveCandidate × AppearanceTracker)
  | self, [] => .ok ([], self)
  | self, candidate :: candidates => do
    let (entry, appearances) := self.appearances.orInsert candidate.signature (0, 0)
    let entry ← appear prof blockNumber entry
    let self := { self with appearances := appearances.insert candidate.signature entry }
    let (filtered, self) ← filterAndUpdate prof blockNumber self candidates
    return (if entry.2 ≤ self.maxAppearances then candidate :: filtered else filtered, self)

end AppearanceTracker

/-! ## What failed before -/

structure OpportunitySignature where
  poolAddresses : List Address
  tokenPath : List Address
  quantizedInput : U256
  deriving DecidableEq

def OpportunitySignature.fromCandidate (candidate : PositiveCandidate) : OpportunitySignature :=
  let quantizationFactor : U256 := 1000000000000
  { poolAddresses := candidate.poolAddresses
    tokenPath := candidate.tokenPath
    quantizedInput := candidate.input / quantizationFactor * quantizationFactor }

/-- The file of a store: an array of signatures, whose order nothing reads, or what a write that
broke off has left. -/
inductive StoreFile where
  | absent
  | array (signatures : Finset OpportunitySignature)
  | brokenOff

/-- How a write goes: the file is written, it cannot be created, or it is emptied and the write
breaks off. -/
inductive Write where
  | written
  | notCreated
  | brokenOff
  deriving DecidableEq

structure FailedOpportunityStore where
  file : StoreFile
  failedSignatures : Finset OpportunitySignature

namespace FailedOpportunityStore

/-- `load`: an array that does not parse is an error. -/
def load : StoreFile → Option (Finset OpportunitySignature)
  | .absent => some ∅
  | .array signatures => some signatures
  | .brokenOff => none

def new (file : StoreFile) : Option FailedOpportunityStore :=
  (load file).map fun failedSignatures => ⟨file, failedSignatures⟩

def isFailed (self : FailedOpportunityStore) (signature : OpportunitySignature) : Bool :=
  signature ∈ self.failedSignatures

/-- A signature that is there already is not written again. -/
def markAsFailed (self : FailedOpportunityStore) (signature : OpportunitySignature)
    (write : Write) : FailedOpportunityStore :=
  if signature ∈ self.failedSignatures then self
  else
    let failedSignatures := insert signature self.failedSignatures
    { file := match write with
        | .written => .array failedSignatures
        | .notCreated => self.file
        | .brokenOff => .brokenOff
      failedSignatures }

end FailedOpportunityStore

/-! ## The two tasks -/

structure ExecutionJob where
  candidate : PositiveCandidate
  blockNumber : Nat

def ExecutionJob.signature (job : ExecutionJob) : PathSignature := job.candidate.signature

def ExecutionJob.opportunity (job : ExecutionJob) : OpportunitySignature :=
  .fromCandidate job.candidate

/-- The places of the channel. -/
def QUEUE_CAPACITY : Nat := 64

/-- Where the main loop stands. It has looked a job up in the store before it waits for a place in
the channel. -/
inductive Monitor where
  | waiting
  | dispatching (blockNumber : Nat) (candidates : List PositiveCandidate)
  | sending (job : ExecutionJob) (candidates : List PositiveCandidate)
  | stopped

/-- Where the worker stands. -/
inductive Worker where
  | waiting
  | attempting (job : ExecutionJob)
  | stopped

structure Service where
  tracker : AppearanceTracker
  failedStore : FailedOpportunityStore
  lastExecutions : HashMap PathSignature Nat
  queue : List ExecutionJob
  monitor : Monitor
  worker : Worker

/-- How `attempt_execution` ends. -/
inductive Attempt where
  | submitted
  | failed (write : Write)
  | panicked

/-- The next turn of a task. The loop takes a block with the candidates that it finds there when it
waits for one; how an attempt ends matters when the worker is at one. -/
inductive Turn where
  | block (number : Nat) (candidates : List PositiveCandidate)
  | monitor
  | worker (attempt : Attempt)

/-- What a turn reports. -/
inductive Event where
  | selected (blockNumber : Nat) (candidates : List PositiveCandidate)
  | refused (job : ExecutionJob)
  | sent (job : ExecutionJob)
  | skipped (job : ExecutionJob)
  | attempted (job : ExecutionJob)
  | submitted (job : ExecutionJob)
  | failed (job : ExecutionJob) (write : Write)

namespace Service

def start (failedStore : FailedOpportunityStore) : Service where
  tracker := .new MAX_APPEARANCES
  failedStore
  lastExecutions := ∅
  queue := []
  monitor := .waiting
  worker := .waiting

/-- A block of the stream: the candidates of the block before it. A panic of the loop ends the
service. -/
def takeBlock (prof : BuildProfile) (s : Service) (number : Nat)
    (candidates : List PositiveCandidate) : Service × Option Event :=
  if number = 0 then (s, none)
  else
    let targetNumber := number - 1
    match s.tracker.filterAndUpdate prof targetNumber candidates with
    | .error _ => ({ s with monitor := .stopped, worker := .stopped }, none)
    | .ok (freshCandidates, tracker) =>
      let selectedCandidates := selectNonConflictingOpportunities freshCandidates
      ({ s with tracker, monitor := .dispatching targetNumber selectedCandidates },
        some (.selected targetNumber selectedCandidates))

/-- The loop over the selected candidates; a closed channel ends it. -/
def dispatch (s : Service) : Service × Option Event :=
  match s.monitor with
  | .waiting | .stopped => (s, none)
  | .dispatching _ [] => ({ s with monitor := .waiting }, none)
  | .dispatching blockNumber (candidate :: candidates) =>
    let job : ExecutionJob := ⟨candidate, blockNumber⟩
    if s.failedStore.isFailed job.opportunity then
      ({ s with monitor := .dispatching blockNumber candidates }, some (.refused job))
    else ({ s with monitor := .sending job candidates }, none)
  | .sending job candidates =>
    match s.worker with
    | .stopped => ({ s with monitor := .waiting }, none)
    | _ =>
      if s.queue.length < QUEUE_CAPACITY then
        ({ s with queue := s.queue ++ [job], monitor := .dispatching job.blockNumber candidates },
          some (.sent job))
      else (s, none)

/-- The worker takes a job out of the channel, or ends an attempt. A panic drops the channel. -/
def work (blockCooldown : Nat) (s : Service) (attempt : Attempt) : Service × Option Event :=
  match s.worker with
  | .stopped => (s, none)
  | .waiting =>
    match s.queue with
    | [] => (s, none)
    | job :: queue =>
      let shouldSkip := ((s.lastExecutions.lookup job.signature).map fun lastBlock =>
        decide (job.blockNumber - lastBlock < blockCooldown)).getD false
      if shouldSkip then ({ s with queue }, some (.skipped job))
      else ({ s with queue, worker := .attempting job }, some (.attempted job))
  | .attempting job =>
    match attempt with
    | .submitted =>
      ({ s with
          lastExecutions := s.lastExecutions.insert job.signature job.blockNumber
          worker := .waiting }, some (.submitted job))
    | .failed write =>
      ({ s with
          failedStore := s.failedStore.markAsFailed job.opportunity write
          worker := .waiting }, some (.failed job write))
    | .panicked => ({ s with queue := [], worker := .stopped }, none)

def step (prof : BuildProfile) (blockCooldown : Nat) (s : Service) :
    Turn → Service × Option Event
  | .block number candidates =>
    match s.monitor with
    | .waiting => s.takeBlock prof number candidates
    | _ => (s, none)
  | .monitor => s.dispatch
  | .worker attempt => s.work blockCooldown attempt

end Service

end ArbitrageBot.Protocols
