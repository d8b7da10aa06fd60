import ArbitrageBot.StateSpace.Manager
import ArbitrageBot.StateSpace.History

/-!
# Reorganisations

What the state should be after a sequence of announced blocks is the replay of the canonical
chain's logs on the initial pools. The state space never raises its `latest_block`, so only a block
of number 0 makes it unwind: in every other step the logs of the orphaned blocks stay applied.
-/

namespace ArbitrageBot

open Lib

/-! ## The canonical chain -/

/-- The blocks of a chain that stay when a block arrives, and those it orphans. -/
def kept (chain : List Block) (block : Block) : List Block :=
  chain.takeWhile (·.number < block.number)

def orphaned (chain : List Block) (block : Block) : List Block :=
  chain.dropWhile (·.number < block.number)

/-- The canonical chain after a sequence of announced blocks. -/
def canonicalChain (blocks : List Block) : List Block :=
  blocks.foldl (fun chain block => kept chain block ++ [block]) []

/-- The logs of a chain, in order. -/
def chainLogs (chain : List Block) : List Log :=
  chain.flatMap (·.logs)

theorem chainLogs_kept_orphaned (chain : List Block) (block : Block) :
    chainLogs (kept chain block) ++ chainLogs (orphaned chain block) = chainLogs chain := by
  unfold chainLogs kept orphaned
  rw [← List.flatMap_append, List.takeWhile_append_dropWhile]

/-- Every pool is its initial state with its logs on the chain applied. -/
def Canonical (prof : BuildProfile) (init : HashMap Address AMM) (chain : List Block)
    (space : StateSpace) : Prop :=
  Replayed prof (chainLogs chain) init.lookup space.state.lookup

/-- The block makes the state space unwind everything. -/
def Unwinds (block : Block) : Prop :=
  block.number = 0 ∧ block.logs ≠ []

/-- The orphaned logs make no difference: for every pool, replaying them and then the new logs at
the fork gives what the new logs alone give. -/
def Harmless (prof : BuildProfile) (init : HashMap Address AMM) (chain : List Block)
    (block : Block) : Prop :=
  ∀ a amm fork, init.lookup a = some amm →
    amm.replay prof (logsOf a (chainLogs (kept chain block))) = .ok fork →
    fork.replay prof (logsOf a (chainLogs (orphaned chain block) ++ block.logs)) =
      fork.replay prof (logsOf a block.logs)

/-- Orphaned logs of other addresses make no difference. -/
theorem harmless_of_untracked {prof : BuildProfile} {init : HashMap Address AMM}
    {chain : List Block} {block : Block} (h : ∀ a amm, init.lookup a = some amm →
      logsOf a (chainLogs (orphaned chain block)) = []) : Harmless prof init chain block := by
  intro a amm fork ha _
  rw [logsOf_append, h a amm ha, List.nil_append]

/-! ## The cache -/

/-- What the cache of the state space says along a run. A change of block 0 can only be the oldest
one, so that once a change has been dropped the oldest block is positive. -/
structure CacheInv (init : Address → Option AMM) (space : StateSpace) : Prop where
  keyed : Keyed space.state
  latest : space.latestBlock = 0
  undo : space.cache.oldestBlock = 0 →
    UndoLog.rewind (StateSpace.snapshots space.cache.cache) space.state.lookup = init
  pos : ∀ change ∈ space.cache.cache.dropLast, 0 < change.blockNumber
  posAll : 0 < space.cache.oldestBlock → ∀ change ∈ space.cache.cache, 0 < change.blockNumber

theorem CacheInv.cached {init : Address → Option AMM} {mid space : StateSpace} {n : Nat}
    (h : CacheInv init mid)
    (hn : 0 < n ∨ mid.cache.cache = [] ∧ mid.cache.oldestBlock = 0)
    (hc : StateSpace.Cached n mid space) (hkeyed : Keyed space.state)
    (hlatest : space.latestBlock = mid.latestBlock) : CacheInv init space := by
  have hlatest' := hlatest.trans h.latest
  cases hc with
  | unchanged hcache hstate =>
    refine ⟨hkeyed, hlatest', ?_, ?_, ?_⟩
    · rw [hcache, hstate]
      exact h.undo
    · rw [hcache]
      exact h.pos
    · rw [hcache]
      exact h.posAll
  | pushed amms hpush hundo =>
    rcases StateChangeCache.push_eq_ok hpush with
      ⟨hcache, hold⟩ | ⟨hcache, hfull, back, hback, hold⟩
    · refine ⟨hkeyed, hlatest', ?_, ?_, ?_⟩
      · intro h0
        rw [hcache]
        exact (UndoLog.rewind_cons _ hundo).trans (h.undo (hold ▸ h0))
      · intro change hmem
        rw [hcache] at hmem
        rcases hn with hn | ⟨hnil, -⟩
        · by_cases hnil : mid.cache.cache = []
          · rw [hnil] at hmem
            cases hmem
          · rw [List.dropLast_cons_of_ne_nil hnil, List.mem_cons] at hmem
            rcases hmem with rfl | hmem
            · exact hn
            · exact h.pos change hmem
        · rw [hnil] at hmem
          cases hmem
      · intro h0 change hmem
        rw [hold] at h0
        rw [hcache, List.mem_cons] at hmem
        rcases hmem with rfl | hmem
        · rcases hn with hn | ⟨-, hzero⟩
          · exact hn
          · omega
        · exact h.posAll h0 change hmem
    · -- a full cache is not empty, and what it keeps is positive
      have hpos : 0 < n := by
        rcases hn with hn | ⟨hnil, -⟩
        · exact hn
        · rw [hnil] at hfull
          cases hfull
      have hall : ∀ change ∈ space.cache.cache, 0 < change.blockNumber := by
        intro change hmem
        rw [hcache, List.mem_cons] at hmem
        rcases hmem with rfl | hmem
        · exact hpos
        · exact h.pos change hmem
      have hback := h.pos back hback
      refine ⟨hkeyed, hlatest', ?_, ?_, fun _ => hall⟩
      · intro h0
        omega
      · exact fun change hmem => hall change (List.dropLast_subset _ hmem)

/-! ## One block -/

section Step

variable {prof : BuildProfile} {init : HashMap Address AMM} {mgr mgr' : StateSpaceManager}
  {block : Block} {affected : List Address}

/-- A block that does not unwind replays its logs on the state; one that does, on the initial
pools. -/
theorem CacheInv.handleBlock (h : CacheInv init.lookup mgr.state)
    (hrun : mgr.handleBlock prof block = .ok (affected, mgr')) :
    CacheInv init.lookup mgr'.state ∧
    (Unwinds block → Replayed prof block.logs init.lookup mgr'.state.state.lookup) ∧
    (¬ Unwinds block →
      Replayed prof block.logs mgr.state.state.lookup mgr'.state.state.lookup) := by
  unfold StateSpaceManager.handleBlock at hrun
  rw [bind_eq_ok] at hrun
  obtain ⟨⟨affected', space⟩, hsync, hres⟩ := hrun
  cases hres
  by_cases hnil : block.logs = []
  · rw [hnil] at hsync
    cases hsync
    refine ⟨h, fun hunw => absurd hnil hunw.2, fun _ => ?_⟩
    rw [hnil]
    exact Replayed.refl _ _
  obtain ⟨mid, hmid, hspec⟩ := StateSpace.sync_block hsync hnil block.logs_number
  rw [h.latest] at hmid
  by_cases hzero : block.number = 0
  · rw [if_pos (by omega), hzero] at hmid
    obtain ⟨hkeyed, hold, hlookup, hcache, holdest, hlatest⟩ :=
      StateSpace.unwind_spec hmid h.keyed
    have hwhole : StateSpace.unwound mgr.state.cache.cache 0 = mgr.state.cache.cache.length := by
      unfold StateSpace.unwound
      rw [List.findIdx?_eq_none_iff.mpr (by simp)]
      rfl
    rw [hwhole, List.take_length, h.undo (by omega)] at hlookup
    rw [hwhole, List.drop_length] at hcache
    obtain ⟨hkeyed', hrep, hlatest', hc⟩ := hspec hkeyed
    have hmidInv : CacheInv init.lookup mid := by
      refine ⟨hkeyed, hlatest.trans h.latest, fun _ => ?_, ?_, ?_⟩
      · rw [hcache, hlookup]
        rfl
      · rw [hcache]
        rintro change ⟨⟩
      · rw [hcache]
        rintro _ change ⟨⟩
    refine ⟨hmidInv.cached (Or.inr ⟨hcache, by omega⟩) hc hkeyed' hlatest', fun _ => ?_,
      fun hno => absurd ⟨hzero, hnil⟩ hno⟩
    rw [← hlookup]
    exact hrep
  · rw [if_neg (by omega)] at hmid
    subst hmid
    obtain ⟨hkeyed', hrep, hlatest', hc⟩ := hspec h.keyed
    exact ⟨h.cached (Or.inl (by omega)) hc hkeyed' hlatest', fun hunw => absurd hunw.1 hzero,
      fun _ => hrep⟩

/-- **One announced block keeps the state canonical exactly when it unwinds everything or the logs
it orphans make no difference.** -/
theorem Canonical.handleBlock_iff {chain : List Block} (h : CacheInv init.lookup mgr.state)
    (hcanon : Canonical prof init chain mgr.state)
    (hrun : mgr.handleBlock prof block = .ok (affected, mgr')) :
    Canonical prof init (kept chain block ++ [block]) mgr'.state ↔
      Unwinds block ∨ Harmless prof init chain block := by
  obtain ⟨-, hunw, hstay⟩ := h.handleBlock hrun
  have hlogs : chainLogs (kept chain block ++ [block]) =
      chainLogs (kept chain block) ++ block.logs := by
    simp [chainLogs]
  unfold Canonical at *
  by_cases hu : Unwinds block
  · have hkept : kept chain block = [] := by
      unfold kept
      rw [hu.1]
      cases chain <;> simp
    rw [hlogs, hkept]
    exact ⟨fun _ => Or.inl hu, fun _ => hunw hu⟩
  · have hall := hcanon.append (hstay hu)
    rw [← chainLogs_kept_orphaned chain block, List.append_assoc] at hall
    rw [hlogs]
    constructor
    · intro hnew
      refine Or.inr fun a amm fork ha hfork => ?_
      obtain ⟨amm₁, h₁, ha₁⟩ := hall.present a amm ha
      obtain ⟨amm₂, h₂, ha₂⟩ := hnew.present a amm ha
      rw [ha₁] at ha₂
      cases ha₂
      rw [logsOf_append, AMM.replay_append, hfork, ok_bind] at h₁ h₂
      rw [h₁, h₂]
    · rintro (hu' | hharmless)
      · exact absurd hu' hu
      · refine ⟨hall.absent, fun a amm ha => ?_⟩
        obtain ⟨amm₁, h₁, ha₁⟩ := hall.present a amm ha
        rw [logsOf_append, AMM.replay_append, bind_eq_ok] at h₁
        obtain ⟨fork, hfork, h₁⟩ := h₁
        refine ⟨amm₁, ?_, ha₁⟩
        rw [logsOf_append, AMM.replay_append, hfork, ok_bind, ← hharmless a amm fork ha hfork, h₁]

end Step

/-! ## Runs -/

section Run

variable {prof : BuildProfile} {init : HashMap Address AMM} {mgr mgr' : StateSpaceManager}
  {blocks : List Block} {block : Block} {k : Nat}

theorem cacheInv_ofState (hkeyed : Keyed init) (latestBlock : Nat) :
    CacheInv init.lookup (StateSpaceManager.ofState init latestBlock).state where
  keyed := hkeyed
  latest := rfl
  undo := fun _ => rfl
  pos := by
    rintro change ⟨⟩
  posAll := by
    rintro _ change ⟨⟩

theorem CacheInv.handleBlocks (h : CacheInv init.lookup mgr.state)
    (hrun : mgr.handleBlocks prof blocks = .ok mgr') : CacheInv init.lookup mgr'.state := by
  unfold StateSpaceManager.handleBlocks at hrun
  induction blocks generalizing mgr with
  | nil =>
    cases hrun
    exact h
  | cons block blocks ih =>
    rw [List.foldlM_cons, bind_eq_ok] at hrun
    obtain ⟨mgr₁, hstep, hrun⟩ := hrun
    cases hone : mgr.handleBlock prof block with
    | error e =>
      rw [hone] at hstep
      cases hstep
    | ok result =>
      rw [hone] at hstep
      cases hstep
      exact ih (h.handleBlock hone).1 hrun

/-- The prefix of a run one block longer. -/
theorem handleBlocks_take_succ (hblock : blocks[k]? = some block)
    (hk : mgr.handleBlocks prof (blocks.take (k + 1)) = .ok mgr') :
    ∃ mgrₖ affected, mgr.handleBlocks prof (blocks.take k) = .ok mgrₖ ∧
      mgrₖ.handleBlock prof block = .ok (affected, mgr') := by
  unfold StateSpaceManager.handleBlocks at *
  rw [List.take_add_one, hblock, List.foldlM_append, bind_eq_ok] at hk
  obtain ⟨mgrₖ, hrunₖ, hstep⟩ := hk
  refine ⟨mgrₖ, ?_⟩
  simp only [Option.toList_some, List.foldlM_cons, List.foldlM_nil, bind_pure] at hstep
  cases hone : mgrₖ.handleBlock prof block with
  | error e =>
    rw [hone] at hstep
    cases hstep
  | ok result =>
    rw [hone] at hstep
    cases hstep
    exact ⟨result.1, hrunₖ, rfl⟩

theorem canonicalChain_take_succ (hblock : blocks[k]? = some block) :
    canonicalChain (blocks.take (k + 1)) =
      kept (canonicalChain (blocks.take k)) block ++ [block] := by
  unfold canonicalChain
  rw [List.take_add_one, hblock, List.foldl_append]
  rfl

/-- **A run of announced blocks has the canonical state after every block exactly when each of its
blocks unwinds everything or orphans only logs that make no difference.** -/
theorem canonical_iff (hkeyed : Keyed init) (latestBlock : Nat)
    (hrun : (StateSpaceManager.ofState init latestBlock).handleBlocks prof blocks = .ok mgr) :
    (∀ k mgrₖ,
      (StateSpaceManager.ofState init latestBlock).handleBlocks prof (blocks.take k) = .ok mgrₖ →
        Canonical prof init (canonicalChain (blocks.take k)) mgrₖ.state) ↔
    ∀ k block, blocks[k]? = some block →
      Unwinds block ∨ Harmless prof init (canonicalChain (blocks.take k)) block := by
  have hprefix : ∀ k, ∃ mgrₖ,
      (StateSpaceManager.ofState init latestBlock).handleBlocks prof (blocks.take k) =
        .ok mgrₖ := by
    intro k
    unfold StateSpaceManager.handleBlocks at hrun ⊢
    rw [← List.take_append_drop k blocks, List.foldlM_append, bind_eq_ok] at hrun
    obtain ⟨mgrₖ, hmgrₖ, -⟩ := hrun
    exact ⟨mgrₖ, hmgrₖ⟩
  have hstart := cacheInv_ofState hkeyed latestBlock
  constructor
  · intro hcanon k block hblock
    obtain ⟨mgr₁, hmgr₁⟩ := hprefix (k + 1)
    obtain ⟨mgrₖ, affected, hmgrₖ, hone⟩ := handleBlocks_take_succ hblock hmgr₁
    have hafter := hcanon (k + 1) mgr₁ hmgr₁
    rw [canonicalChain_take_succ hblock] at hafter
    exact ((hcanon k mgrₖ hmgrₖ).handleBlock_iff (hstart.handleBlocks hmgrₖ) hone).mp hafter
  · intro hsteps k
    induction k with
    | zero =>
      intro mgrₖ hmgrₖ
      cases hmgrₖ
      exact Replayed.refl _ _
    | succ k ih =>
      intro mgr₁ hmgr₁
      cases hblock : blocks[k]? with
      | none =>
        rw [List.take_add_one, hblock, Option.toList_none, List.append_nil] at hmgr₁ ⊢
        exact ih mgr₁ hmgr₁
      | some block =>
        obtain ⟨mgrₖ, affected, hmgrₖ, hone⟩ := handleBlocks_take_succ hblock hmgr₁
        rw [canonicalChain_take_succ hblock]
        exact ((ih mgrₖ hmgrₖ).handleBlock_iff (hstart.handleBlocks hmgrₖ) hone).mpr
          (hsteps k block hblock)

end Run

/-- A pool with reserves `reserve`. -/
def poolWith (reserve : Nat) : AMM :=
  .uniswapV2Pool ⟨1, ⟨2, 18⟩, ⟨3, 18⟩, reserve, reserve, 300⟩

def onePool : HashMap Address AMM :=
  (∅ : HashMap Address AMM).insert 1 (poolWith 5)

theorem keyed_onePool : Keyed onePool := Keyed.empty.insert rfl

/-- A block in which the pool reports new reserves. -/
def reserveBlock (number reserve : Nat) : Block where
  number := number
  logs := [⟨1, some number, .event (.uniswapV2Sync reserve reserve)⟩]
  logs_number := by simp

def emptyBlock (number : Nat) : Block where
  number := number
  logs := []
  logs_number := by simp

/-- A block without logs is replaced by one with logs: the state is canonical. -/
theorem canonical_iff_emptyOrphan : ∃ mgr,
    (StateSpaceManager.ofState onePool 0).handleBlocks ⟨true⟩
      [reserveBlock 1 10, emptyBlock 2, reserveBlock 2 20] = .ok mgr ∧
    Canonical ⟨true⟩ onePool
      (canonicalChain [reserveBlock 1 10, emptyBlock 2, reserveBlock 2 20]) mgr.state := by
  have hok : ∃ mgr, (StateSpaceManager.ofState onePool 0).handleBlocks ⟨true⟩
      [reserveBlock 1 10, emptyBlock 2, reserveBlock 2 20] = .ok mgr := ⟨_, rfl⟩
  obtain ⟨mgr, hrun⟩ := hok
  refine ⟨mgr, hrun, (canonical_iff keyed_onePool 0 hrun).mpr ?_ 3 mgr hrun⟩
  intro k block hblock
  have horphaned : chainLogs (orphaned (canonicalChain
      ([reserveBlock 1 10, emptyBlock 2, reserveBlock 2 20].take k)) block) = [] := by
    match k, hblock with
    | 0, hblock => cases hblock; rfl
    | 1, hblock => cases hblock; rfl
    | 2, hblock => cases hblock; rfl
  refine Or.inr (harmless_of_untracked fun a _ _ => ?_)
  rw [horphaned]
  rfl

/-- A block with logs is replaced by one without: its effect stays. -/
theorem not_canonical_orphan : ¬ ∀ k mgrₖ,
    (StateSpaceManager.ofState onePool 0).handleBlocks ⟨true⟩
      ([reserveBlock 1 10, emptyBlock 1].take k) = .ok mgrₖ →
    Canonical ⟨true⟩ onePool (canonicalChain ([reserveBlock 1 10, emptyBlock 1].take k))
      mgrₖ.state := by
  intro hall
  have hlast := (hall 2 _ rfl).present 1 (poolWith 5) rfl
  obtain ⟨amm, hreplay, hstate⟩ := hlast
  cases hreplay
  cases hstate

end ArbitrageBot
