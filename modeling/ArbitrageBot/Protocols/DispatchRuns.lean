import ArbitrageBot.Protocols.Dispatch
import Mathlib.Data.Finset.Card
import Mathlib.Data.Nat.Basic

/-!
# Runs of the dispatching loop and its worker

What holds of every order of the turns of the two tasks: no selected candidate is sent twice and
none is lost on the way to the worker, a path is sent for a few blocks only, submissions of one path
keep their distance, and what failed once is soon not attempted any more, also after a restart.
-/

namespace ArbitrageBot.Protocols

open Lib Lib.Traces

/-! ## The tracker -/

namespace AppearanceTracker

variable {prof : BuildProfile} {blockNumber : Nat} {self self' : AppearanceTracker}
  {candidates filtered : List PositiveCandidate} {signature : PathSignature}

/-- The entry of a path; one that never appeared has the entry it would be inserted with. -/
def entry (self : AppearanceTracker) (signature : PathSignature) : Nat × Nat :=
  (self.appearances.lookup signature).getD (0, 0)

theorem entry_insert (self : AppearanceTracker) (key signature : PathSignature) (e : Nat × Nat) :
    entry { self with appearances := self.appearances.insert key e } signature =
      if signature = key then e else self.entry signature := by
  unfold entry
  rw [HashMap.lookup_insert]
  split <;> rfl

theorem filterAndUpdate_cons (candidate : PositiveCandidate) :
    self.filterAndUpdate prof blockNumber (candidate :: candidates) =
      (appear prof blockNumber (self.entry candidate.signature)).bind fun e =>
        (filterAndUpdate prof blockNumber
          { self with appearances := self.appearances.insert candidate.signature e }
          candidates).bind fun rest =>
            .ok (if e.2 ≤ rest.2.maxAppearances then candidate :: rest.1 else rest.1,
              rest.2) := by
  rw [filterAndUpdate]
  unfold HashMap.orInsert entry
  cases self.appearances.lookup candidate.signature with
  | none =>
    dsimp only
    simp only [AList.insert_insert]
    rfl
  | some e => rfl

/-- A path that appeared in a block appears there only once. -/
theorem appear_appear {e e' : Nat × Nat} (h : appear prof blockNumber e = .ok e') :
    appear prof blockNumber e' = .ok e' := by
  have hblock : e'.1 = blockNumber := by
    unfold appear at h
    split at h
    · obtain ⟨count, -, hcount⟩ := bind_eq_ok.mp h
      cases hcount
      rfl
    · rename_i hne
      cases h
      exact not_not.mp hne
  exact if_neg (not_not.mpr hblock)

theorem appear_eq {e e' : Nat × Nat} (h : appear prof blockNumber e = .ok e')
    (hcount : prof.overflowChecks = true ∨ e.2 + 1 < UInt32.size) :
    e' = if e.1 ≠ blockNumber then (blockNumber, e.2 + 1) else e := by
  unfold appear at h
  split at h
  · rename_i hne
    rw [if_pos hne]
    obtain ⟨count, hunsigned, hout⟩ := bind_eq_ok.mp h
    cases hout
    unfold BuildProfile.unsigned at hunsigned
    split at hunsigned
    · cases hunsigned
      rfl
    · rename_i hrange
      split at hunsigned
      · cases hunsigned
      · rename_i hchecks
        refine absurd ?_ hrange
        have := hcount.resolve_left hchecks
        unfold UInt32.size at this
        omega
  · rename_i heq
    cases h
    rw [if_neg heq]

/-- Blocks counted by an entry, and those counted by it once the path appeared in one more. -/
theorem appear_counts {e e' : Nat × Nat} {blocks : Finset Nat}
    (h : e' = if e.1 ≠ blockNumber then (blockNumber, e.2 + 1) else e)
    (hcard : blocks.card ≤ e.2) (hlast : e.1 = 0 ∨ e.1 ∈ blocks) :
    e.2 ≤ e'.2 ∧ e'.2 ≤ e.2 + 1 ∧ ∃ blocks' : Finset Nat,
      blocks'.card ≤ e'.2 ∧ (e'.1 = 0 ∨ e'.1 ∈ blocks') ∧ blocks ⊆ blocks' ∧
        (blockNumber ≠ 0 → blockNumber ∈ blocks') := by
  by_cases hsame : e.1 = blockNumber
  · rw [if_neg (not_not.mpr hsame)] at h
    subst h
    exact ⟨le_rfl, Nat.le_succ _, blocks, hcard, hlast, subset_rfl,
      fun hne => hsame ▸ hlast.resolve_left (hsame ▸ hne)⟩
  · rw [if_pos hsame] at h
    subst h
    refine ⟨Nat.le_succ _, le_rfl, insert blockNumber blocks, ?_, ?_, ?_, ?_⟩
    · exact (Finset.card_insert_le _ _).trans (Nat.succ_le_succ hcard)
    · exact .inr (Finset.mem_insert_self _ _)
    · exact Finset.subset_insert _ _
    · exact fun _ => Finset.mem_insert_self _ _

/-- **What becomes of a path**: without a candidate of it, its entry stays; with one it appears in
the block, and is left as long as it appeared in no more than the greatest number of blocks. -/
theorem filterAndUpdate_entry (signature : PathSignature)
    (h : self.filterAndUpdate prof blockNumber candidates = .ok (filtered, self')) :
    self'.maxAppearances = self.maxAppearances ∧
    ((∀ candidate ∈ filtered, candidate.signature ≠ signature) ∧
        self'.entry signature = self.entry signature ∨
      appear prof blockNumber (self.entry signature) = .ok (self'.entry signature) ∧
        ((∃ candidate ∈ filtered, candidate.signature = signature) →
          (self'.entry signature).2 ≤ self.maxAppearances)) := by
  induction candidates generalizing self filtered with
  | nil =>
    cases h
    exact ⟨rfl, .inl ⟨fun candidate hc => absurd hc List.not_mem_nil, rfl⟩⟩
  | cons candidate candidates ih =>
    rw [filterAndUpdate_cons] at h
    obtain ⟨e, he, hrest⟩ := bind_eq_ok.mp h
    obtain ⟨⟨rest, after⟩, hfilter, hout⟩ := bind_eq_ok.mp hrest
    cases hout
    obtain ⟨hmax, hentry⟩ := ih hfilter
    rw [entry_insert] at hentry
    rw [hmax]
    refine ⟨rfl, ?_⟩
    by_cases hsig : signature = candidate.signature
    · -- the first candidate makes the path appear, the others change nothing
      subst hsig
      rw [if_pos rfl] at hentry
      have hafter : after.entry candidate.signature = e := by
        rcases hentry with ⟨-, heq⟩ | ⟨happear, -⟩
        · exact heq
        · exact (Except.ok.inj ((appear_appear he).symm.trans happear)).symm
      rw [hafter] at hentry ⊢
      refine .inr ⟨he, fun ⟨c, hc, hcs⟩ => ?_⟩
      split at hc
      · assumption
      · rcases hentry with ⟨hne, -⟩ | ⟨-, hle⟩
        · exact absurd hcs (hne c hc)
        · exact hle ⟨c, hc, hcs⟩
    · rw [if_neg hsig] at hentry
      have hmem : ∀ c, c ∈ (if e.2 ≤ self.maxAppearances then candidate :: rest else rest) →
          c.signature = signature → c ∈ rest := by
        intro c hc hcs
        split at hc
        · rcases List.mem_cons.mp hc with rfl | hc
          · exact absurd hcs.symm hsig
          · exact hc
        · exact hc
      rcases hentry with ⟨hne, heq⟩ | ⟨happear, hle⟩
      · exact .inl ⟨fun c hc hcs => hne c (hmem c hc hcs) hcs, heq⟩
      · exact .inr ⟨happear, fun ⟨c, hc, hcs⟩ => hle ⟨c, hmem c hc hcs, hcs⟩⟩

end AppearanceTracker

/-- What is selected is among the candidates. -/
theorem mem_of_mem_select {candidates : List PositiveCandidate} {candidate : PositiveCandidate}
    (h : candidate ∈ selectNonConflictingOpportunities candidates) : candidate ∈ candidates := by
  have hperm := List.perm_insertionSort (fun a b => b.netProfit ≤ a.netProfit) candidates
  obtain ⟨left, hchoice⟩ := @Greedy.choose_choice _ SharesPool _ _ _
    (List.pairwise_insertionSort (fun a b => b.netProfit ≤ a.netProfit) candidates)
  unfold selectNonConflictingOpportunities at h
  rw [Selecting.foldl_next (fun addr => by simp)] at h
  exact hperm.mem_iff.mp (hchoice.sublist.mem h)

/-! ## What a turn can do -/

namespace Service

variable {prof : BuildProfile} {blockCooldown : Nat} {s s' : Service} {event : Option Event}

/-- Every way a turn can go, with what it reports. -/
inductive Moves (prof : BuildProfile) (blockCooldown : Nat) (s : Service) :
    Option Event → Service → Prop
  | idle : Moves prof blockCooldown s none s
  | select (blockNumber : Nat) (candidates fresh : List PositiveCandidate)
      (tracker : AppearanceTracker) (hmonitor : s.monitor = .waiting)
      (hfresh : s.tracker.filterAndUpdate prof blockNumber candidates = .ok (fresh, tracker)) :
      Moves prof blockCooldown s
        (some (.selected blockNumber (selectNonConflictingOpportunities fresh)))
        { s with
          tracker
          monitor := .dispatching blockNumber (selectNonConflictingOpportunities fresh) }
  | halt : Moves prof blockCooldown s none { s with monitor := .stopped, worker := .stopped }
  | await : Moves prof blockCooldown s none { s with monitor := .waiting }
  | refuse (blockNumber : Nat) (candidate : PositiveCandidate) (candidates : List PositiveCandidate)
      (hmonitor : s.monitor = .dispatching blockNumber (candidate :: candidates)) :
      Moves prof blockCooldown s (some (.refused ⟨candidate, blockNumber⟩))
        { s with monitor := .dispatching blockNumber candidates }
  | pass (blockNumber : Nat) (candidate : PositiveCandidate) (candidates : List PositiveCandidate)
      (hmonitor : s.monitor = .dispatching blockNumber (candidate :: candidates))
      (hnew : OpportunitySignature.fromCandidate candidate ∉ s.failedStore.failedSignatures) :
      Moves prof blockCooldown s none
        { s with monitor := .sending ⟨candidate, blockNumber⟩ candidates }
  | send (job : ExecutionJob) (candidates : List PositiveCandidate)
      (hmonitor : s.monitor = .sending job candidates) (hworker : s.worker ≠ .stopped)
      (hroom : s.queue.length < QUEUE_CAPACITY) :
      Moves prof blockCooldown s (some (.sent job))
        { s with
          queue := s.queue ++ [job]
          monitor := .dispatching job.blockNumber candidates }
  | skip (job : ExecutionJob) (queue : List ExecutionJob) (hworker : s.worker = .waiting)
      (hqueue : s.queue = job :: queue) :
      Moves prof blockCooldown s (some (.skipped job)) { s with queue }
  | attempt (job : ExecutionJob) (queue : List ExecutionJob) (hworker : s.worker = .waiting)
      (hqueue : s.queue = job :: queue)
      (hcooldown : ∀ lastBlock, s.lastExecutions.lookup job.signature = some lastBlock →
        blockCooldown ≤ job.blockNumber - lastBlock) :
      Moves prof blockCooldown s (some (.attempted job))
        { s with queue, worker := .attempting job }
  | submit (job : ExecutionJob) (hworker : s.worker = .attempting job) :
      Moves prof blockCooldown s (some (.submitted job))
        { s with
          lastExecutions := s.lastExecutions.insert job.signature job.blockNumber
          worker := .waiting }
  | fail (job : ExecutionJob) (write : Write) (hworker : s.worker = .attempting job) :
      Moves prof blockCooldown s (some (.failed job write))
        { s with
          failedStore := s.failedStore.markAsFailed job.opportunity write
          worker := .waiting }
  | panic (job : ExecutionJob) (hworker : s.worker = .attempting job) :
      Moves prof blockCooldown s none { s with queue := [], worker := .stopped }

theorem takeBlock_moves (hmonitor : s.monitor = .waiting) (number : Nat)
    (candidates : List PositiveCandidate) :
    Moves prof blockCooldown s (s.takeBlock prof number candidates).2
      (s.takeBlock prof number candidates).1 := by
  unfold takeBlock
  split
  · exact .idle
  · dsimp only
    split
    · exact .halt
    · rename_i fresh tracker hfresh
      exact .select _ _ _ _ hmonitor hfresh

theorem dispatch_moves : Moves prof blockCooldown s s.dispatch.2 s.dispatch.1 := by
  unfold dispatch
  split
  · exact .idle
  · exact .idle
  · exact .await
  · rename_i blockNumber candidate candidates hmonitor
    dsimp only
    split
    · exact .refuse _ _ _ hmonitor
    · rename_i hnew
      exact .pass _ _ _ hmonitor fun hmem => hnew (decide_eq_true hmem)
  · rename_i job candidates hmonitor
    split
    · exact .await
    · rename_i hworker
      split
      · rename_i hroom
        exact .send _ _ hmonitor hworker hroom
      · exact .idle

theorem work_moves (attempt : Attempt) :
    Moves prof blockCooldown s (s.work blockCooldown attempt).2
      (s.work blockCooldown attempt).1 := by
  unfold work
  split
  · exact .idle
  · rename_i hworker
    split
    · exact .idle
    · rename_i job queue hqueue
      dsimp only
      split
      · exact .skip _ _ hworker hqueue
      · rename_i hskip
        refine .attempt _ _ hworker hqueue fun lastBlock hlast => ?_
        rw [hlast, Option.map_some, Option.getD_some, decide_eq_true_eq] at hskip
        exact not_lt.mp hskip
  · rename_i job hworker
    split
    · exact .submit _ hworker
    · exact .fail _ _ hworker
    · exact .panic _ hworker

/-- **A turn goes in one of these ways.** -/
theorem step_moves (prof : BuildProfile) (blockCooldown : Nat) (s : Service) (turn : Turn) :
    Moves prof blockCooldown s (s.step prof blockCooldown turn).2
      (s.step prof blockCooldown turn).1 := by
  cases turn with
  | block number candidates =>
    simp only [step]
    split
    · rename_i hmonitor
      exact takeBlock_moves hmonitor number candidates
    · exact .idle
  | monitor => exact dispatch_moves
  | worker attempt => exact work_moves attempt

/-- What every move keeps, every run keeps. -/
theorem run_of_moves (prof : BuildProfile) (blockCooldown : Nat)
    {P : Service → List Event → Prop}
    (hmoves : ∀ {s s' event events}, P s events → Moves prof blockCooldown s event s' →
      P s' (events ++ event.toList))
    (h : P s []) (turns : List Turn) :
    P (run (step prof blockCooldown) s turns).1 (run (step prof blockCooldown) s turns).2 :=
  run_invariant (fun _ _ turn h => hmoves h (step_moves _ _ _ turn)) h turns

end Service

/-! ## The jobs that are reported -/

/-- The jobs of the candidates that were selected. -/
def selectedJobs (events : List Event) : List ExecutionJob :=
  events.flatMap fun
    | .selected blockNumber candidates => candidates.map fun candidate => ⟨candidate, blockNumber⟩
    | _ => []

def sentJobs (events : List Event) : List ExecutionJob :=
  events.filterMap fun
    | .sent job => some job
    | _ => none

/-- The jobs that came out of the channel. -/
def takenJobs (events : List Event) : List ExecutionJob :=
  events.filterMap fun
    | .skipped job | .attempted job => some job
    | _ => none

def attemptedJobs (events : List Event) : List ExecutionJob :=
  events.filterMap fun
    | .attempted job => some job
    | _ => none

def submittedJobs (events : List Event) : List ExecutionJob :=
  events.filterMap fun
    | .submitted job => some job
    | _ => none

theorem attemptedJobs_sublist (events : List Event) :
    (attemptedJobs events).Sublist (takenJobs events) := by
  induction events with
  | nil => exact .slnil
  | cons event events ih =>
    unfold attemptedJobs takenJobs
    cases event with
    | attempted job => exact ih.cons_cons job
    | skipped job => exact ih.cons job
    | selected | refused | sent | submitted | failed => exact ih

/-! ## From a selection to an attempt -/

/-- The selected candidates that the loop has still before it. -/
def Monitor.jobs : Monitor → List ExecutionJob
  | .waiting | .stopped => []
  | .dispatching blockNumber candidates => candidates.map fun candidate => ⟨candidate, blockNumber⟩
  | .sending job candidates => job :: candidates.map fun candidate => ⟨candidate, job.blockNumber⟩

/-- The job that the loop has looked up in the store already. -/
def Monitor.checked : Monitor → List ExecutionJob
  | .sending job _ => [job]
  | _ => []

namespace Service

variable {prof : BuildProfile} {blockCooldown : Nat} {s s' : Service} {event : Option Event}
  {events : List Event}

/-- What the channel and the loop hold, beside what was reported. -/
structure InOrder (s : Service) (events : List Event) : Prop where
  room : s.queue.length ≤ QUEUE_CAPACITY
  selected : (sentJobs events ++ s.monitor.jobs).Sublist (selectedJobs events)
  taken : takenJobs events ++ s.queue <+: sentJobs events
  running : s.worker ≠ .stopped → takenJobs events ++ s.queue = sentJobs events

theorem InOrder.moves (h : s.InOrder events) (hmoves : Moves prof blockCooldown s event s') :
    s'.InOrder (events ++ event.toList) := by
  obtain ⟨hroom, hselected, htaken, hrunning⟩ := h
  -- what the loop has not sent it can leave out
  have hsent : (sentJobs events ++ []).Sublist (selectedJobs events) :=
    (List.append_nil _).symm ▸ (List.sublist_append_left _ _).trans hselected
  cases hmoves with
  | idle =>
    rw [Option.toList_none, List.append_nil]
    exact ⟨hroom, hselected, htaken, hrunning⟩
  | select blockNumber candidates fresh tracker hmonitor hfresh =>
    have hsent' := hsent.append (List.Sublist.refl
      ((selectNonConflictingOpportunities fresh).map fun c => ExecutionJob.mk c blockNumber))
    rw [List.append_nil] at hsent'
    refine ⟨hroom, ?_, ?_, fun hw => ?_⟩
    · simpa [sentJobs, selectedJobs, Monitor.jobs] using hsent'
    · simpa [sentJobs, takenJobs] using htaken
    · simpa [sentJobs, takenJobs] using hrunning hw
  | halt =>
    rw [Option.toList_none, List.append_nil]
    exact ⟨hroom, hsent, htaken, fun hw => absurd rfl hw⟩
  | await =>
    rw [Option.toList_none, List.append_nil]
    exact ⟨hroom, hsent, htaken, hrunning⟩
  | refuse blockNumber candidate candidates hmonitor =>
    rw [hmonitor] at hselected
    have hrest := ((List.sublist_cons_self (⟨candidate, blockNumber⟩ : ExecutionJob)
      (candidates.map fun c => ⟨c, blockNumber⟩)).append_left (sentJobs events)).trans hselected
    refine ⟨hroom, ?_, ?_, fun hw => ?_⟩
    · simpa [sentJobs, selectedJobs, Monitor.jobs] using hrest
    · simpa [sentJobs, takenJobs] using htaken
    · simpa [sentJobs, takenJobs] using hrunning hw
  | pass blockNumber candidate candidates hmonitor hnew =>
    rw [Option.toList_none, List.append_nil]
    rw [hmonitor] at hselected
    exact ⟨hroom, hselected, htaken, hrunning⟩
  | send job candidates hmonitor hworker hlt =>
    rw [hmonitor] at hselected
    have heq : takenJobs (events ++ [.sent job]) ++ (s.queue ++ [job]) =
        sentJobs (events ++ [.sent job]) := by
      simpa [sentJobs, takenJobs] using congrArg (· ++ [job]) (hrunning hworker)
    refine ⟨?_, ?_, heq ▸ List.prefix_refl _, fun _ => heq⟩
    · rw [List.length_append]
      exact hlt
    · simpa [sentJobs, selectedJobs, Monitor.jobs] using hselected
  | skip job queue hworker hqueue =>
    rw [hqueue] at hroom htaken hrunning
    refine ⟨(Nat.le_succ _).trans hroom, ?_, ?_, fun hw => ?_⟩
    · simpa [sentJobs, selectedJobs] using hselected
    · simpa [sentJobs, takenJobs] using htaken
    · simpa [sentJobs, takenJobs] using hrunning hw
  | attempt job queue hworker hqueue hcooldown =>
    rw [hqueue] at hroom htaken hrunning
    refine ⟨(Nat.le_succ _).trans hroom, ?_, ?_, fun _ => ?_⟩
    · simpa [sentJobs, selectedJobs] using hselected
    · simpa [sentJobs, takenJobs] using htaken
    · simpa [sentJobs, takenJobs] using hrunning (hworker ▸ nofun)
  | submit job hworker =>
    refine ⟨hroom, ?_, ?_, fun _ => ?_⟩
    · simpa [sentJobs, selectedJobs] using hselected
    · simpa [sentJobs, takenJobs] using htaken
    · simpa [sentJobs, takenJobs] using hrunning (hworker ▸ nofun)
  | fail job write hworker =>
    refine ⟨hroom, ?_, ?_, fun _ => ?_⟩
    · simpa [sentJobs, selectedJobs] using hselected
    · simpa [sentJobs, takenJobs] using htaken
    · simpa [sentJobs, takenJobs] using hrunning (hworker ▸ nofun)
  | panic job hworker =>
    rw [Option.toList_none, List.append_nil]
    refine ⟨Nat.zero_le _, hselected, ?_, fun hw => absurd rfl hw⟩
    rw [List.append_nil]
    exact (List.prefix_append _ _).trans htaken

theorem run_inOrder (prof : BuildProfile) (blockCooldown : Nat) (store : FailedOpportunityStore)
    (turns : List Turn) :
    (run (step prof blockCooldown) (start store) turns).1.InOrder
      (run (step prof blockCooldown) (start store) turns).2 :=
  run_of_moves prof blockCooldown InOrder.moves
    ⟨Nat.zero_le _, .slnil, List.prefix_refl _, fun _ => rfl⟩ turns

/-- Two jobs of one path are at least the cooldown apart. -/
def Apart (blockCooldown : Nat) (a b : ExecutionJob) : Prop :=
  a.signature = b.signature → a.blockNumber + blockCooldown ≤ b.blockNumber

/-- What was submitted is apart, no path was submitted after its last execution, and the job at hand
is apart from its path's last execution. -/
structure Cooled (blockCooldown : Nat) (s : Service) (events : List Event) : Prop where
  apart : (submittedJobs events).Pairwise (Apart blockCooldown)
  last : ∀ job ∈ submittedJobs events, ∃ lastBlock,
    s.lastExecutions.lookup job.signature = some lastBlock ∧ job.blockNumber ≤ lastBlock
  attempting : ∀ job, s.worker = .attempting job → ∀ lastBlock,
    s.lastExecutions.lookup job.signature = some lastBlock →
      lastBlock + blockCooldown ≤ job.blockNumber

/-- An event other than a submission does not matter. -/
theorem Cooled.append {e : Option Event} (h : s.Cooled blockCooldown events)
    (he : submittedJobs e.toList = []) : s.Cooled blockCooldown (events ++ e.toList) := by
  have hjobs : submittedJobs (events ++ e.toList) = submittedJobs events := by
    unfold submittedJobs at he ⊢
    rw [List.filterMap_append, he, List.append_nil]
  exact ⟨hjobs ▸ h.apart, hjobs ▸ h.last, h.attempting⟩

theorem Cooled.moves (hpos : 0 < blockCooldown) (h : s.Cooled blockCooldown events)
    (hmoves : Moves prof blockCooldown s event s') :
    s'.Cooled blockCooldown (events ++ event.toList) := by
  obtain ⟨hapart, hlast, hattempting⟩ := h
  cases hmoves with
  | idle | await | pass | select | refuse | send | skip =>
    exact .append ⟨hapart, hlast, hattempting⟩ rfl
  | halt | panic | fail => exact .append ⟨hapart, hlast, nofun⟩ rfl
  | attempt job queue hworker hqueue hcooldown =>
    refine .append ⟨hapart, hlast, fun job' heq lastBlock hlookup => ?_⟩ rfl
    cases heq
    have hle := hcooldown lastBlock hlookup
    omega
  | submit job hworker =>
    have hjobs : submittedJobs (events ++ [.submitted job]) = submittedJobs events ++ [job] := by
      simp [submittedJobs]
    -- what was submitted before is as far from the job as its path's last execution
    have hbefore : ∀ a ∈ submittedJobs events, Apart blockCooldown a job := by
      intro a ha hsig
      obtain ⟨lastBlock, hlookup, hle⟩ := hlast a ha
      have := hattempting job hworker lastBlock (hsig ▸ hlookup)
      omega
    refine ⟨?_, ?_, nofun⟩ <;> rw [Option.toList_some, hjobs]
    · refine List.pairwise_append.mpr ⟨hapart, List.pairwise_singleton _ _, fun a ha b hb => ?_⟩
      exact List.mem_singleton.mp hb ▸ hbefore a ha
    · intro a ha
      dsimp only
      rw [HashMap.lookup_insert]
      rcases List.mem_append.mp ha with ha | ha
      · by_cases hsig : a.signature = job.signature
        · rw [if_pos hsig]
          have := hbefore a ha hsig
          exact ⟨_, rfl, by omega⟩
        · rw [if_neg hsig]
          exact hlast a ha
      · obtain rfl := List.mem_singleton.mp ha
        rw [if_pos rfl]
        exact ⟨_, rfl, le_rfl⟩

/-- **Submissions of one path keep their distance**: each is at least the cooldown after every one
before it, also where the blocks of the jobs go back. -/
theorem submissions_apart (hpos : 0 < blockCooldown) (store : FailedOpportunityStore)
    (turns : List Turn) :
    (submittedJobs
        (run (step prof blockCooldown) (start store) turns).2).Pairwise
      (Apart blockCooldown) := by
  have hstart : (start store).Cooled blockCooldown [] :=
    ⟨.nil, fun job hjob => absurd hjob List.not_mem_nil, nofun⟩
  exact (run_of_moves prof blockCooldown (Cooled.moves hpos) hstart turns).apart

/-- A job that goes through one pool, of a given block. -/
def oneHopJob (blockNumber : Nat) : ExecutionJob where
  candidate := ⟨[(1, 2, 3, 30)], 1, 5000000000000, 6000000000000, 1000000000000, 1, [3], [1, 2],
    [6000000000000], [0]⟩
  blockNumber

/-- The job of a block is selected, sent, taken and, unless it is skipped, submitted. -/
def oneRound (blockNumber : Nat) : List Turn :=
  [.block (blockNumber + 1) [(oneHopJob blockNumber).candidate], .monitor, .monitor,
    .worker .submitted, .worker .submitted, .monitor]

/-- Of three blocks in a row, the first and the third. -/
theorem submissions_apart_oneHop :
    submittedJobs (run (step ⟨true⟩ 2) (start ⟨.absent, ∅⟩)
      (oneRound 5 ++ oneRound 6 ++ oneRound 7)).2 = [oneHopJob 5, oneHopJob 7] ∧
    [oneHopJob 5, oneHopJob 7].Pairwise (Apart 2) := by
  have hjobs : submittedJobs (run (step ⟨true⟩ 2) (start ⟨.absent, ∅⟩)
      (oneRound 5 ++ oneRound 6 ++ oneRound 7)).2 = [oneHopJob 5, oneHopJob 7] := rfl
  exact ⟨hjobs, hjobs ▸ submissions_apart (by decide) _ _⟩

/-! ## The blocks a path is sent for -/

/-- The blocks of the jobs of a path, but for the genesis block: an entry of the tracker starts out
with that one. -/
def blocksOf (signature : PathSignature) (jobs : List ExecutionJob) : Finset Nat :=
  ((jobs.filter (·.signature = signature)).map (·.blockNumber)).toFinset.erase 0

theorem mem_blocksOf {signature : PathSignature} {jobs : List ExecutionJob} {blockNumber : Nat} :
    blockNumber ∈ blocksOf signature jobs ↔
      blockNumber ≠ 0 ∧ ∃ job ∈ jobs, job.signature = signature ∧
        job.blockNumber = blockNumber := by
  unfold blocksOf
  simp [and_assoc]

/-- The blocks in which a path appeared are counted, and up to the greatest number of them those
that it was selected in are among them. -/
structure Counted (signature : PathSignature) (s : Service) (events : List Event) : Prop where
  max : s.tracker.maxAppearances = MAX_APPEARANCES
  le : (s.tracker.entry signature).2 ≤ events.length
  appeared : ∃ blocks : Finset Nat, blocks.card ≤ (s.tracker.entry signature).2 ∧
    ((s.tracker.entry signature).1 = 0 ∨ (s.tracker.entry signature).1 ∈ blocks) ∧
    ((s.tracker.entry signature).2 ≤ MAX_APPEARANCES →
      blocksOf signature (selectedJobs events) ⊆ blocks)
  bound : (blocksOf signature (selectedJobs events)).card ≤ MAX_APPEARANCES

variable {signature : PathSignature}

/-- An event other than a selection does not matter. -/
theorem Counted.append {e : Option Event} (h : s.Counted signature events)
    (he : selectedJobs e.toList = []) : s.Counted signature (events ++ e.toList) := by
  have hjobs : selectedJobs (events ++ e.toList) = selectedJobs events := by
    unfold selectedJobs at he ⊢
    rw [List.flatMap_append, he, List.append_nil]
  obtain ⟨hmax, hle, happeared, hbound⟩ := h
  refine ⟨hmax, hle.trans ?_, hjobs.symm ▸ happeared, hjobs.symm ▸ hbound⟩
  exact List.length_append ▸ Nat.le_add_right _ _

theorem blocksOf_selected {blockNumber block : Nat} {candidates : List PositiveCandidate}
    (h : block ∈ blocksOf signature
      (selectedJobs (events ++ [.selected blockNumber candidates]))) :
    block ∈ blocksOf signature (selectedJobs events) ∨
      block = blockNumber ∧ block ≠ 0 ∧ ∃ c ∈ candidates, c.signature = signature := by
  obtain ⟨hne, job, hjob, hsig, hblock⟩ := mem_blocksOf.mp h
  rw [selectedJobs, List.flatMap_append, List.mem_append] at hjob
  rcases hjob with hjob | hjob
  · exact .inl (mem_blocksOf.mpr ⟨hne, job, hjob, hsig, hblock⟩)
  · rw [List.flatMap_singleton, List.mem_map] at hjob
    obtain ⟨c, hc, rfl⟩ := hjob
    exact .inr ⟨hblock.symm, hne, c, hc, hsig⟩

theorem Counted.moves
    (h : prof.overflowChecks = true ∨ events.length < UInt32.size → s.Counted signature events)
    (hmoves : Moves prof blockCooldown s event s')
    (hcount : prof.overflowChecks = true ∨ (events ++ event.toList).length < UInt32.size) :
    s'.Counted signature (events ++ event.toList) := by
  rw [List.length_append] at hcount
  obtain ⟨hmax, hle, ⟨blocks, hcard, hlast, hsub⟩, hbound⟩ := h (hcount.imp_right (by omega))
  cases hmoves with
  | select blockNumber candidates fresh tracker hmonitor hfresh =>
    have hlength : (events ++ [Event.selected blockNumber
        (selectNonConflictingOpportunities fresh)]).length = events.length + 1 := by simp
    obtain ⟨hmax', hentry⟩ := AppearanceTracker.filterAndUpdate_entry signature hfresh
    rw [hmax] at hmax' hentry
    rcases hentry with ⟨hnone, hentry⟩ | ⟨happear, hkept⟩
    · -- the path is not selected
      have hsame : blocksOf signature (selectedJobs (events ++ [Event.selected blockNumber
          (selectNonConflictingOpportunities fresh)])) ⊆
            blocksOf signature (selectedJobs events) := by
        intro block hblock
        refine (blocksOf_selected hblock).resolve_right ?_
        rintro ⟨-, -, c, hc, hsig⟩
        exact hnone c (mem_of_mem_select hc) hsig
      refine ⟨hmax', ?_, ⟨blocks, ?_⟩, (Finset.card_le_card hsame).trans hbound⟩
      · rw [Option.toList_some, hlength, hentry]
        exact hle.trans (Nat.le_succ _)
      · rw [hentry]
        exact ⟨hcard, hlast, fun hmost => hsame.trans (hsub hmost)⟩
    · have hentry := AppearanceTracker.appear_eq happear
        (hcount.imp_right fun hlt => lt_of_le_of_lt (Nat.succ_le_succ hle) hlt)
      obtain ⟨hmore, hone, blocks', hcard', hlast', hblocks, hblock⟩ :=
        AppearanceTracker.appear_counts hentry hcard hlast
      -- a path that appeared too often is not selected
      have hselected : ∀ block ∈ blocksOf signature (selectedJobs (events ++
          [Event.selected blockNumber (selectNonConflictingOpportunities fresh)])),
          block ∈ blocksOf signature (selectedJobs events) ∨
            block = blockNumber ∧ block ≠ 0 ∧ (tracker.entry signature).2 ≤ MAX_APPEARANCES := by
        intro block hmem
        refine (blocksOf_selected hmem).imp_right ?_
        rintro ⟨heq, hne, c, hc, hsig⟩
        exact ⟨heq, hne, hkept ⟨c, mem_of_mem_select hc, hsig⟩⟩
      have hsub' : (tracker.entry signature).2 ≤ MAX_APPEARANCES →
          blocksOf signature (selectedJobs (events ++ [Event.selected blockNumber
            (selectNonConflictingOpportunities fresh)])) ⊆ blocks' := by
        intro hmost block hmem
        rcases hselected block hmem with hold | ⟨rfl, hne, -⟩
        · exact hblocks (hsub (hmore.trans hmost) hold)
        · exact hblock hne
      refine ⟨hmax', ?_, ⟨blocks', hcard', hlast', hsub'⟩, ?_⟩
      · rw [Option.toList_some, hlength]
        exact hone.trans (Nat.succ_le_succ hle)
      · by_cases hmost : (tracker.entry signature).2 ≤ MAX_APPEARANCES
        · exact ((Finset.card_le_card (hsub' hmost)).trans hcard').trans hmost
        · refine (Finset.card_le_card fun block hmem => ?_).trans hbound
          exact (hselected block hmem).resolve_right fun h => hmost h.2.2
  | idle | await | pass | refuse | send | skip | halt | panic | fail | attempt | submit =>
    exact .append ⟨hmax, hle, ⟨blocks, hcard, hlast, hsub⟩, hbound⟩ rfl

/-- **A path is sent for three blocks at most**, apart from the genesis block, wherever they are in
the run: the count of its appearances starts over only where a `u32` wraps around. -/
theorem appearances_bounded (store : FailedOpportunityStore) (turns : List Turn)
    (signature : PathSignature)
    (hcount : prof.overflowChecks = true ∨ turns.length < UInt32.size) :
    (blocksOf signature
      (sentJobs (run (step prof blockCooldown) (start store) turns).2)).card ≤ MAX_APPEARANCES := by
  have hstart : (start store).Counted signature [] :=
    ⟨rfl, Nat.zero_le _, ⟨∅, Nat.zero_le _, .inl rfl, fun _ => subset_rfl⟩, Nat.zero_le _⟩
  have hcounted := run_of_moves prof blockCooldown
    (P := fun s events =>
      prof.overflowChecks = true ∨ events.length < UInt32.size → s.Counted signature events)
    Counted.moves (fun _ => hstart) turns
  have hlength : (run (step prof blockCooldown) (start store) turns).2.length ≤ turns.length :=
    run_length_le
  have hselected := (List.sublist_append_left _ _).trans
    (run_inOrder prof blockCooldown store turns).selected
  refine (Finset.card_le_card fun block hblock => ?_).trans
    (hcounted (hcount.imp_right hlength.trans_lt)).bound
  obtain ⟨hne, job, hjob, hsig, heq⟩ := mem_blocksOf.mp hblock
  exact mem_blocksOf.mpr ⟨hne, job, hselected.mem hjob, hsig, heq⟩

/-- The path of a job is sent for three blocks and not selected in a fourth. -/
theorem appearances_bounded_fourBlocks :
    let events := (run (step ⟨false⟩ 2) (start ⟨.absent, ∅⟩)
      (oneRound 5 ++ oneRound 7 ++ oneRound 9 ++ oneRound 11)).2
    sentJobs events = [oneHopJob 5, oneHopJob 7, oneHopJob 9] ∧ .selected 11 [] ∈ events ∧
      (blocksOf (oneHopJob 5).signature (sentJobs events)).card ≤ MAX_APPEARANCES := by
  refine ⟨rfl, ?_, appearances_bounded _ _ _ (.inr (by decide))⟩
  exact List.mem_append_right [_, _, _, _, _, _, _, _, _, _, _, _] (List.mem_singleton_self _)

/-! ## What failed before -/

/-- The number of jobs of an opportunity that are past the store. -/
def pending (opportunity : OpportunitySignature) (s : Service) : Nat :=
  (s.queue ++ s.monitor.checked).countP (·.opportunity = opportunity)

def attemptsOf (opportunity : OpportunitySignature) (events : List Event) : Nat :=
  (attemptedJobs events).countP (·.opportunity = opportunity)

theorem failed_markAsFailed {store : FailedOpportunityStore} {opportunity : OpportunitySignature}
    {write : Write} : opportunity ∈ (store.markAsFailed opportunity write).failedSignatures := by
  unfold FailedOpportunityStore.markAsFailed
  split
  · assumption
  · exact Finset.mem_insert_self _ _

theorem subset_markAsFailed (store : FailedOpportunityStore) (opportunity : OpportunitySignature)
    (write : Write) :
    store.failedSignatures ⊆ (store.markAsFailed opportunity write).failedSignatures := by
  unfold FailedOpportunityStore.markAsFailed
  split
  · exact subset_rfl
  · exact Finset.subset_insert _ _

variable {opportunity : OpportunitySignature}

theorem Moves.failedSignatures_subset (hmoves : Moves prof blockCooldown s event s') :
    s.failedStore.failedSignatures ⊆ s'.failedStore.failedSignatures := by
  cases hmoves with
  | fail job write hworker => exact subset_markAsFailed _ _ _
  | idle | await | pass | select | refuse | send | skip | halt | panic | attempt | submit =>
    exact subset_rfl

/-- **Nothing of a failed opportunity gets past the store**: an attempt at it uses up what did so
before. -/
theorem Moves.pending_le (hfailed : opportunity ∈ s.failedStore.failedSignatures)
    (hmoves : Moves prof blockCooldown s event s') :
    attemptsOf opportunity event.toList + s'.pending opportunity ≤ s.pending opportunity := by
  unfold pending
  rw [List.countP_append, List.countP_append]
  cases hmoves with
  | idle | submit | fail => exact (Nat.zero_add _).le
  | halt | await | select | refuse =>
    exact (Nat.zero_add _).le.trans (Nat.add_le_add_left (Nat.zero_le _) _)
  | panic => exact (Nat.zero_add _).le.trans (Nat.add_le_add_right (Nat.zero_le _) _)
  | pass blockNumber candidate candidates hmonitor hnew =>
    have hother : OpportunitySignature.fromCandidate candidate ≠ opportunity := by
      rintro rfl
      exact hnew hfailed
    have hzero : [(⟨candidate, blockNumber⟩ : ExecutionJob)].countP
        (·.opportunity = opportunity) = 0 := by
      rw [List.countP_singleton, if_neg]
      exact fun heq => hother (of_decide_eq_true heq)
    refine (Nat.zero_add _).le.trans (Nat.add_le_add_left ?_ _)
    exact hzero.le.trans (Nat.zero_le _)
  | send job candidates hmonitor hworker hroom =>
    rw [hmonitor, List.countP_append]
    exact (Nat.zero_add _).le
  | skip job queue hworker hqueue =>
    rw [hqueue]
    refine (Nat.zero_add _).le.trans (Nat.add_le_add_right ?_ _)
    exact (List.sublist_cons_self job queue).countP_le
  | attempt job queue hworker hqueue hcooldown =>
    rw [hqueue, ← List.singleton_append, List.countP_append, Nat.add_assoc]
    exact le_rfl

theorem run_pending_le (prof : BuildProfile) (blockCooldown : Nat)
    (hfailed : opportunity ∈ s.failedStore.failedSignatures)
    (turns : List Turn) :
    attemptsOf opportunity (run (step prof blockCooldown) s turns).2 ≤ s.pending opportunity := by
  have hrun := run_of_moves prof blockCooldown
    (P := fun s' events => opportunity ∈ s'.failedStore.failedSignatures ∧
      attemptsOf opportunity events + s'.pending opportunity ≤ s.pending opportunity)
    (fun ⟨hfailed, hle⟩ hmoves => ⟨hmoves.failedSignatures_subset hfailed, by
      have hmove := hmoves.pending_le hfailed
      unfold attemptsOf attemptedJobs at hle hmove ⊢
      rw [List.filterMap_append, List.countP_append]
      omega⟩)
    ⟨hfailed, (Nat.zero_add _).le⟩ turns
  exact (Nat.le_add_right _ _).trans hrun.2

/-- **After an opportunity failed**, it is attempted no more often than the channel has places and
the loop has one job in hand. -/
theorem attempts_after_failure (prof : BuildProfile) (blockCooldown : Nat)
    (store : FailedOpportunityStore) (turns : List Turn) (before after : List Event)
    (job : ExecutionJob) (write : Write)
    (hevents : (run (step prof blockCooldown) (start store) turns).2 =
      before ++ .failed job write :: after) :
    attemptsOf job.opportunity after ≤ QUEUE_CAPACITY + 1 := by
  obtain ⟨turnsBefore, turn, turnsAfter, -, -, hturn, hafter⟩ := exists_turn hevents
  have hmoves := step_moves prof blockCooldown
    (run (step prof blockCooldown) (start store) turnsBefore).1 turn
  have horder := (run_inOrder prof blockCooldown store turnsBefore).moves hmoves
  generalize (step prof blockCooldown _ turn).1 = s at hmoves horder hafter
  have hfailed : job.opportunity ∈ s.failedStore.failedSignatures := by
    rw [hturn] at hmoves
    cases hmoves
    exact failed_markAsFailed
  refine hafter ▸ (run_pending_le _ _ hfailed turnsAfter).trans ?_
  refine List.countP_le_length.trans ?_
  rw [List.length_append]
  refine Nat.add_le_add horder.room ?_
  cases s.monitor <;> simp [Monitor.checked]

/-- The jobs of two blocks are sent before the first is taken, which fails; the second is attempted
all the same. -/
def oneFailure : List Turn :=
  [.block 6 [(oneHopJob 5).candidate], .monitor, .monitor, .monitor,
    .block 8 [(oneHopJob 7).candidate], .monitor, .monitor, .worker .submitted,
    .worker (.failed .written), .worker .submitted]

theorem oneFailure_events : (run (step ⟨true⟩ 2) (start ⟨.absent, ∅⟩) oneFailure).2 =
    [.selected 5 [(oneHopJob 5).candidate], .sent (oneHopJob 5),
      .selected 7 [(oneHopJob 7).candidate], .sent (oneHopJob 7), .attempted (oneHopJob 5),
      .failed (oneHopJob 5) .written, .attempted (oneHopJob 7)] := rfl

theorem attempts_after_failure_one :
    attemptsOf (oneHopJob 5).opportunity [.attempted (oneHopJob 7)] = 1 ∧
      attemptsOf (oneHopJob 5).opportunity [.attempted (oneHopJob 7)] ≤ QUEUE_CAPACITY + 1 :=
  ⟨by decide, attempts_after_failure ⟨true⟩ 2 ⟨.absent, ∅⟩ oneFailure
    [.selected 5 [(oneHopJob 5).candidate], .sent (oneHopJob 5),
      .selected 7 [(oneHopJob 7).candidate], .sent (oneHopJob 7), .attempted (oneHopJob 5)]
    [.attempted (oneHopJob 7)] (oneHopJob 5) .written oneFailure_events⟩

/-! ## A restart -/

/-- The file holds what the store holds, as long as every write succeeds. -/
def Stored (s : Service) (events : List Event) : Prop :=
  (∀ job write, .failed job write ∈ events →
    job.opportunity ∈ s.failedStore.failedSignatures) ∧
  ((∀ job write, .failed job write ∈ events → write = .written) →
    FailedOpportunityStore.load s.failedStore.file = some s.failedStore.failedSignatures)

theorem Stored.append {e : Option Event} (h : s.Stored events)
    (he : ∀ job write, .failed job write ∉ e.toList) : s.Stored (events ++ e.toList) := by
  have hmem : ∀ job write, Event.failed job write ∈ events ++ e.toList →
      Event.failed job write ∈ events := fun job write hm =>
    (List.mem_append.mp hm).resolve_right (he job write)
  exact ⟨fun job write hm => h.1 job write (hmem job write hm), fun hwritten =>
    h.2 fun job write hm => hwritten job write (List.mem_append_left _ hm)⟩

theorem Stored.moves (h : s.Stored events) (hmoves : Moves prof blockCooldown s event s') :
    s'.Stored (events ++ event.toList) := by
  cases hmoves with
  | fail job write hworker =>
    refine ⟨fun job' write' hmem => ?_, fun hwritten => ?_⟩
    · rcases List.mem_append.mp hmem with hmem | hmem
      · exact subset_markAsFailed _ _ _ (h.1 job' write' hmem)
      · cases List.mem_singleton.mp hmem
        exact failed_markAsFailed
    · have hload := h.2 fun job' write' hmem => hwritten job' write' (List.mem_append_left _ hmem)
      have hwrite := hwritten job write (List.mem_append_right _ (List.mem_singleton_self _))
      subst hwrite
      dsimp only
      unfold FailedOpportunityStore.markAsFailed
      split
      · exact hload
      · rfl
  | idle | await | pass | halt | panic =>
    exact Stored.append h fun job write hmem => absurd hmem List.not_mem_nil
  | select | refuse | send | skip | attempt | submit =>
    refine Stored.append h fun job write hmem => ?_
    cases List.mem_singleton.mp hmem

/-- **What failed is not attempted after a restart**: the store that starts from the file of a run
whose writes succeeded holds every opportunity that failed in it or was in its own file, and a
service with this store attempts none of them. -/
theorem restart_attempts (prof : BuildProfile) (blockCooldown : Nat) (file : StoreFile)
    (store : FailedOpportunityStore)
    (hstore : FailedOpportunityStore.new file = some store) (turns : List Turn)
    (hwritten : ∀ job write,
      .failed job write ∈ (run (step prof blockCooldown) (start store) turns).2 →
        write = .written) :
    let (s, events) := run (step prof blockCooldown) (start store) turns
    ∃ store', FailedOpportunityStore.new s.failedStore.file = some store' ∧
      store.failedSignatures ⊆ store'.failedSignatures ∧
      (∀ job write, .failed job write ∈ events → job.opportunity ∈ store'.failedSignatures) ∧
      ∀ opportunity ∈ store'.failedSignatures, ∀ (prof' : BuildProfile) (blockCooldown' : Nat)
        (turns' : List Turn),
        attemptsOf opportunity (run (step prof' blockCooldown') (start store') turns').2 = 0 := by
  have hload : FailedOpportunityStore.load store.file = some store.failedSignatures := by
    obtain ⟨signatures, hload, rfl⟩ := Option.map_eq_some_iff.mp hstore
    exact hload
  obtain ⟨hfailed, hfile⟩ := run_of_moves prof blockCooldown (P := Stored) Stored.moves
    (s := start store) ⟨fun job write hmem => absurd hmem List.not_mem_nil, fun _ => hload⟩ turns
  have hsubset := run_of_moves prof blockCooldown
    (P := fun s _ => store.failedSignatures ⊆ s.failedStore.failedSignatures)
    (fun h hmoves => h.trans hmoves.failedSignatures_subset) (s := start store) subset_rfl turns
  refine ⟨⟨_, _⟩, Option.map_eq_some_iff.mpr ⟨_, hfile hwritten, rfl⟩, hsubset, hfailed, ?_⟩
  intro opportunity hmem prof' blockCooldown' turns'
  exact Nat.le_zero.mp (run_pending_le prof' blockCooldown' (s := start ⟨_, _⟩) hmem turns')

theorem restart_attempts_one : ∃ store',
    FailedOpportunityStore.new
      (run (step ⟨true⟩ 2) (start ⟨.absent, ∅⟩) oneFailure).1.failedStore.file = some store' ∧
    (oneHopJob 5).opportunity ∈ store'.failedSignatures := by
  have hwritten : ∀ job write,
      .failed job write ∈ (run (step ⟨true⟩ 2) (start ⟨.absent, ∅⟩) oneFailure).2 →
        write = .written := by
    rw [oneFailure_events]
    intro job write hmem
    simp only [List.mem_cons, List.not_mem_nil, reduceCtorEq, Event.failed.injEq, or_false,
      false_or] at hmem
    exact hmem.2
  obtain ⟨store', hstore', -, hfailed, -⟩ :=
    restart_attempts ⟨true⟩ 2 .absent ⟨.absent, ∅⟩ rfl oneFailure hwritten
  refine ⟨store', hstore', hfailed (oneHopJob 5) .written ?_⟩
  exact (congrArg (_ ∈ ·) oneFailure_events).mpr
    (List.mem_append_right [_, _, _, _, _] (List.mem_cons_self ..))

end Service

end ArbitrageBot.Protocols
