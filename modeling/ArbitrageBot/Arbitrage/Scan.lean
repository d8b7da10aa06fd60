import ArbitrageBot.Arbitrage.Misprices
import ArbitrageBot.Arbitrage.OptimizerSpec
import ArbitrageBot.StateSpace.Tracked

/-!
# Scans between synchronisations

`opportunistic_scan` takes the lock of the state twice: once to build the graph, and, when the paths
are enumerated, once to copy the pools. The synchronisations that come in between move prices and
reserves under the paths, but no pool is lost or traded for another one, so that a scan fails only
where the swap of a pool, the provider or a log file does.
-/

namespace ArbitrageBot

open StateSpace

/-- What `opportunistic_scan` reads of the configuration. -/
structure MonitorConfig where
  constraints : PathConstraints
  optimization : OptimizationConfig
  /-- `opportunity_log_path` is set. -/
  logsOpportunities : Bool
  /-- `best_snapshot_log_path` is set. -/
  logsBestSnapshot : Bool
  /-- `pool_update_log_path` is set. -/
  logsPoolUpdates : Bool

structure OpportunisticScanResult where
  blockNumber : Nat
  opportunities : List OptimizationResult

/-- `ArbitrageError::Rpc`, `Io` and `Csv`. -/
inductive OutsideError where
  | rpc
  | io
  | csv
  deriving DecidableEq, Repr

/-- How the steps on a CSV file end: its opening with the directories and the header, the record of
an index, and the flush. -/
structure LogFile where
  opening : Except OutsideError Unit
  record : Nat → Except OutsideError Unit
  flush : Except OutsideError Unit

namespace LogFile

/-- A file with `n` records more. -/
def write (file : LogFile) (n : Nat) : Except OutsideError Unit := do
  file.opening
  (List.range n).forM file.record
  file.flush

/-- One of the steps fails. -/
def Fails (file : LogFile) (e : OutsideError) : Prop :=
  file.opening = .error e ∨ (∃ idx, file.record idx = .error e) ∨ file.flush = .error e

theorem write_error {file : LogFile} {n : Nat} {e : OutsideError}
    (h : file.write n = .error e) : file.Fails e := by
  have hrecords : ∀ idxs : List Nat, idxs.forM file.record = .error e →
      ∃ idx, file.record idx = .error e := by
    intro idxs
    induction idxs with
    | nil => exact fun h => nomatch h
    | cons idx idxs ih =>
      intro h
      change (do file.record idx; idxs.forM file.record) = .error e at h
      cases hidx : file.record idx with
      | error e' =>
        rw [hidx, error_bind] at h
        cases h
        exact ⟨idx, hidx⟩
      | ok _ =>
        rw [hidx, ok_bind] at h
        exact ih h
  unfold write at h
  cases hopening : file.opening with
  | error e' =>
    rw [hopening, error_bind] at h
    cases h
    exact .inl hopening
  | ok _ =>
    rw [hopening, ok_bind] at h
    cases hall : (List.range n).forM file.record with
    | error e' =>
      rw [hall, error_bind] at h
      cases h
      exact .inr (.inl (hrecords _ hall))
    | ok _ =>
      rw [hall, ok_bind] at h
      exact .inr (.inr h)

end LogFile

/-- What the provider and the file system answer during a scan. -/
structure Outside where
  blockNumber : Except OutsideError Nat
  opportunityLog : LogFile
  bestSnapshotLog : LogFile
  poolUpdateLog : LogFile

/-- The provider fails, or a file that is written. -/
def Outside.Fails (config : MonitorConfig) (outside : Outside) (e : OutsideError) : Prop :=
  outside.blockNumber = .error e ∨
    config.logsOpportunities = true ∧ outside.opportunityLog.Fails e ∨
    config.logsBestSnapshot = true ∧ outside.bestSnapshotLog.Fails e ∨
    config.logsPoolUpdates = true ∧ outside.poolUpdateLog.Fails e

/-- The errors of a scan. -/
inductive ScanError where
  | search (e : OptimizeError)
  | outside (e : OutsideError)
  deriving DecidableEq, Repr

namespace ArbitrageMonitor

/-- An error of `pools_for_path` or `simulate_path` among those of the search. -/
def liftSimulation : Fault SimulationError → Fault OptimizeError
  | .err e => .err (.simulation e)
  | .panic => .panic

def liftSearch : Fault OptimizeError → Fault ScanError
  | .err e => .err (.search e)
  | .panic => .panic

def liftOutside {α : Type} (x : Except OutsideError α) : Outcome ScanError α :=
  x.mapError fun e => .err (.outside e)

/-- A loop that looks up the pools of each path and stops at the first error. -/
def eachPath {β : Type} (f : Nat → ArbitragePath → List AMM → Option (Outcome ScanError β))
    (poolsSnapshot : List AMM) :
    Nat → List ArbitragePath → Option (Outcome ScanError (List β))
  | _, [] => some (.ok [])
  | idx, path :: paths =>
    match poolsForPath path poolsSnapshot with
    | .error e => some (.error (liftSearch (liftSimulation e)))
    | .ok pools =>
      match f idx path pools with
      | none => none
      | some (.error e) => some (.error e)
      | some (.ok result) =>
        (eachPath f poolsSnapshot (idx + 1) paths).map fun results => results.map (result :: ·)

variable (env : SwapEnv) (config : MonitorConfig) (outside : Outside)

/-- One path at the largest input, and its record. -/
def logPath (idx : Nat) (path : ArbitragePath) (pools : List AMM) :
    Option (Outcome ScanError Unit) :=
  match simulatePath env path pools config.optimization.maxInput with
  | none => none
  | some (.error e) => some (.error (liftSearch (liftSimulation e)))
  | some (.ok none) => some (.ok ())
  | some (.ok (some _)) => some (liftOutside (outside.bestSnapshotLog.record idx))

/-- `log_best_snapshot`. -/
def logBestSnapshot (paths : List ArbitragePath) (poolsSnapshot : List AMM) :
    Option (Outcome ScanError Unit) :=
  if config.logsBestSnapshot ∧ paths ≠ [] then
    match outside.bestSnapshotLog.opening with
    | .error e => some (.error (.err (.outside e)))
    | .ok _ =>
      (eachPath (logPath env config outside) poolsSnapshot 0 paths).map fun written => do
        let _ ← written
        liftOutside outside.bestSnapshotLog.flush
  else some (.ok ())

/-- `log_opportunities`. -/
def logOpportunities (opportunities : List OptimizationResult) : Except OutsideError Unit :=
  if config.logsOpportunities then outside.opportunityLog.write opportunities.length else .ok ()

/-- `log_pool_presence`. -/
def logPoolPresence (space : StateSpace) : Except OutsideError Unit :=
  if config.logsPoolUpdates then outside.poolUpdateLog.write space.state.keys.length else .ok ()

/-- The loop of `optimize` over the paths. -/
def optimizePaths (poolsSnapshot : List AMM) (paths : List ArbitragePath) :
    Option (Outcome ScanError (List (Option OptimizationResult))) :=
  eachPath (fun _ path pools => (optimize env config.optimization path pools).map
    (·.mapError liftSearch)) poolsSnapshot 0 paths

/-- `opportunistic_scan`, with the state spaces that its two looks at the state find. -/
def opportunisticScan (P : Petgraph Address PoolEdge) (fuel : Nat) (before after : StateSpace) :
    Option (Outcome ScanError OpportunisticScanResult) :=
  match outside.blockNumber with
  | .error e => some (.error (.err (.outside e)))
  | .ok blockNumber =>
    match (PathFinder.new before config.constraints).scanPaths P fuel with
    | none => none
    | some paths =>
      let poolsSnapshot := after.state.values
      match optimizePaths env config poolsSnapshot paths with
      | none => none
      | some (.error e) => some (.error e)
      | some (.ok results) =>
        let opportunities :=
          results.filterMap fun result => result.filter (·.expectedProfit ≠ 0)
        match logOpportunities config outside opportunities with
        | .error e => some (.error (.err (.outside e)))
        | .ok _ =>
          (logBestSnapshot env config outside paths poolsSnapshot).map fun logged => do
            logged
            liftOutside (logPoolPresence config outside after)
            return ⟨blockNumber, opportunities⟩

/-! ## The pools of a path -/

/-- The pools of the hops, each of which trades the tokens of its hop. -/
def PoolsOf (space : StateSpace) (path : ArbitragePath) (pools : List AMM) : Prop :=
  path.hops.Forall₂ (fun hop pool =>
    space.state.lookup hop.poolAddress = some pool ∧ Trades pool hop.key) pools

section Pools

variable {space : StateSpace} {path : ArbitragePath} {pools : List AMM}

theorem PoolsOf.length_eq (h : PoolsOf space path pools) : pools.length = path.hops.length :=
  (List.Forall₂.length_eq h).symm

/-- **`pools_for_path` finds them.** -/
theorem PoolsOf.poolsForPath_eq (hkeyed : Keyed space.state) (h : PoolsOf space path pools) :
    poolsForPath path space.state.values = .ok pools := by
  obtain ⟨hops⟩ := path
  unfold PoolsOf at h
  unfold poolsForPath
  dsimp only at h ⊢
  induction h with
  | nil => rfl
  | @cons hop pool hops pools hhop _ ih =>
    have hfind := @snapshot_values AMM id space.state hkeyed hop.poolAddress
    rw [List.map_id, Option.map_id_apply, hhop.1] at hfind
    unfold snapshot at hfind
    rw [List.mapM_cons, hfind, ok_bind, ih]
    rfl

/-- Where every hop has a pool that trades its tokens. -/
theorem exists_poolsOf (h : ∀ hop ∈ path.hops, ∃ pool,
    space.state.lookup hop.poolAddress = some pool ∧ Trades pool hop.key) :
    ∃ pools, PoolsOf space path pools := by
  obtain ⟨hops⟩ := path
  unfold PoolsOf
  dsimp only at h ⊢
  induction hops with
  | nil => exact ⟨[], .nil⟩
  | cons hop hops ih =>
    obtain ⟨⟨pool, hpool⟩, hrest⟩ := List.forall_mem_cons.mp h
    obtain ⟨pools, hpools⟩ := ih hrest
    exact ⟨pool :: pools, .cons hpool hpools⟩

end Pools

/-! ## The loops over the paths -/

section EachPath

variable {β : Type} {space : StateSpace} {paths : List ArbitragePath} {idx : Nat}
  (hkeyed : Keyed space.state) (hpools : ∀ path ∈ paths, ∃ pools, PoolsOf space path pools)

include hkeyed hpools

theorem mem_eachPath {f : ArbitragePath → List AMM → Option (Outcome ScanError β)}
    {results : List β}
    (h : eachPath (fun _ => f) space.state.values idx paths = some (.ok results)) (result : β) :
    result ∈ results ↔
      ∃ path ∈ paths, ∃ pools, PoolsOf space path pools ∧ f path pools = some (.ok result) := by
  induction paths generalizing results idx with
  | nil =>
    cases h
    simp
  | cons path paths ih =>
    obtain ⟨⟨pools, hpath⟩, hrest⟩ := List.forall_mem_cons.mp hpools
    have hfound := hpath.poolsForPath_eq hkeyed
    -- the pools of a path are one list
    have hunique : ∀ pools', PoolsOf space path pools' → pools' = pools := by
      intro pools' hpath'
      have hfound' := hpath'.poolsForPath_eq hkeyed
      rw [hfound] at hfound'
      cases hfound'
      rfl
    simp only [eachPath, hfound] at h
    split at h
    · cases h
    · cases h
    · rename_i result' hresult'
      obtain ⟨x, hx, h⟩ := Option.map_eq_some_iff.mp h
      cases x with
      | error e => cases h
      | ok rest =>
        cases h
        rw [List.mem_cons, ih hrest hx, List.exists_mem_cons_iff]
        refine or_congr_left ?_
        constructor
        · rintro rfl
          exact ⟨pools, hpath, hresult'⟩
        · rintro ⟨pools', hpath', hf⟩
          rw [hunique pools' hpath', hresult'] at hf
          cases hf
          rfl

/-- A loop fails where one of its bodies does. -/
theorem eachPath_error {f : Nat → ArbitragePath → List AMM → Option (Outcome ScanError β)}
    {e : Fault ScanError} (h : eachPath f space.state.values idx paths = some (.error e)) :
    ∃ idx, ∃ path ∈ paths, ∃ pools, PoolsOf space path pools ∧
      f idx path pools = some (.error e) := by
  induction paths generalizing idx with
  | nil => cases h
  | cons path paths ih =>
    obtain ⟨⟨pools, hpath⟩, hrest⟩ := List.forall_mem_cons.mp hpools
    simp only [eachPath, hpath.poolsForPath_eq hkeyed] at h
    split at h
    · cases h
    · rename_i e' he
      cases h
      exact ⟨idx, path, List.mem_cons_self, pools, hpath, he⟩
    · obtain ⟨x, hx, h⟩ := Option.map_eq_some_iff.mp h
      cases x with
      | ok results => cases h
      | error e' =>
        cases h
        obtain ⟨idx', path', hmem, hfails⟩ := ih hrest hx
        exact ⟨idx', path', List.mem_cons_of_mem _ hmem, hfails⟩

end EachPath

/-! ## Where a simulation fails -/

/-- The swap of a pool fails, and with it the scan. -/
def SwapFails (env : SwapEnv) (space : StateSpace) (e : Fault OptimizeError) : Prop :=
  ∃ pool ∈ space.state.values, ∃ baseToken amountIn e',
    pool.simulateSwap env baseToken amountIn = some (.error e') ∧
      e = match e' with
        | .err e' => .err (.simulation (.swap e'))
        | .panic => .panic

section Fails

variable {env : SwapEnv} {space : StateSpace} {path : ArbitragePath} {pools : List AMM}
  {amountIn : U256}

theorem simulateHops_error {hops : List (PathHop × AMM)} {e : Fault SimulationError}
    (hstate : ∀ entry ∈ hops, entry.2 ∈ space.state.values)
    (h : simulateHops env hops amountIn = some (.error e)) :
    SwapFails env space (liftSimulation e) := by
  induction hops generalizing amountIn with
  | nil => cases h
  | cons entry hops ih =>
    obtain ⟨hop, amm⟩ := entry
    obtain ⟨hamm, hrest⟩ := List.forall_mem_cons.mp hstate
    unfold simulateHops at h
    split at h
    · cases h
    · rename_i e' hhop
      cases h
      obtain ⟨x, hx, hlift⟩ := Option.map_eq_some_iff.mp hhop
      cases x with
      | ok output => cases hlift
      | error e' =>
        refine ⟨amm, hamm, hop.tokenIn, amountIn, e', hx, ?_⟩
        cases e' <;> cases hlift <;> rfl
    · split at h
      · cases h
      · exact ih hrest h

theorem simulatePath_error {e : Fault SimulationError}
    (hstate : ∀ pool ∈ pools, pool ∈ space.state.values)
    (h : simulatePath env path pools amountIn = some (.error e)) :
    SwapFails env space (liftSimulation e) := by
  unfold simulatePath at h
  split at h
  · cases h
  split at h
  · cases h
  obtain ⟨x, hx, hmap⟩ := Option.map_eq_some_iff.mp h
  cases x with
  | ok last => cases hmap
  | error e' =>
    cases hmap
    exact simulateHops_error (fun entry hentry => hstate _ (List.of_mem_zip hentry).2) hx

/-- The search fails where a simulation does. -/
theorem optimize_error {config : OptimizationConfig} {e : Fault OptimizeError}
    (hlength : pools.length = path.hops.length)
    (hstate : ∀ pool ∈ pools, pool ∈ space.state.values)
    (h : optimize env config path pools = some (.error e)) : SwapFails env space e := by
  have hloop : ∀ (n : Nat) (s : Search), searchLoop env config path pools n s = some (.error e) →
      SwapFails env space e := by
    intro n
    induction n with
    | zero => exact fun s h => nomatch h
    | succ n ih =>
      intro s h
      unfold searchLoop at h
      split at h
      · cases h
      · rename_i e' he
        cases h
        exact simulatePath_error hstate he
      · rename_i he
        cases h
        exact simulatePath_error hstate he
      · exact ih _ h
  unfold optimize at h
  rw [if_neg (not_not.mpr hlength)] at h
  obtain ⟨x, hx, hmap⟩ := Option.map_eq_some_iff.mp h
  cases x with
  | ok s => cases hmap
  | error e' =>
    cases hmap
    exact hloop _ _ hx

theorem PoolsOf.mem_values (hkeyed : Keyed space.state) (h : PoolsOf space path pools) :
    ∀ pool ∈ pools, pool ∈ space.state.values := by
  unfold PoolsOf at h
  generalize path.hops = hops at h
  induction h with
  | nil => exact fun pool hpool => absurd hpool List.not_mem_nil
  | @cons hop pool _ _ hhop _ ih =>
    refine List.forall_mem_cons.mpr ⟨?_, ih⟩
    rw [hkeyed.mem_values_iff, hkeyed _ _ hhop.1]
    exact hhop.1

end Fails

/-! ## Between the two looks -/

section Between

variable {prof : BuildProfile} {init : HashMap Address AMM} {before after : StateSpace}

/-- The tokens of a pool, with their decimals, stay. -/
theorem sync_tokenPair {amm amm' : AMM} {log : Log} (h : amm.sync prof log = .ok amm') :
    amm'.tokenPair = amm.tokenPair := by
  cases amm with
  | uniswapV2Pool pool =>
    obtain ⟨pool', hp, rfl⟩ := AMM.exists_of_map_eq_ok h
    unfold UniswapV2Pool.sync at hp
    split at hp <;> cases hp
    rfl
  | uniswapV3Pool pool =>
    obtain ⟨pool', hp, rfl⟩ := AMM.exists_of_map_eq_ok h
    have hfixed := UniswapV3Pool.sync_fixed hp
    simp only [UniswapV3Pool.fixed, Prod.mk.injEq] at hfixed
    simp [AMM.tokenPair, hfixed]
  | agniPool pool =>
    obtain ⟨pool', hp, rfl⟩ := AMM.exists_of_map_eq_ok h
    have hfixed := AgniPool.sync_fixed hp
    simp only [AgniPool.fixed, Prod.mk.injEq] at hfixed
    simp [AMM.tokenPair, hfixed]
  | moeLbPair pair =>
    obtain ⟨pair', hp, rfl⟩ := AMM.exists_of_map_eq_ok h
    have hfixed := MoeLbPair.sync_fixed hp
    simp only [MoeLbPair.fixed, Prod.mk.injEq] at hfixed
    simp [AMM.tokenPair, hfixed]

/-- A pool at one of the addresses of `init`, with the tokens of the pool that was there. -/
def SameTokensIn (init : HashMap Address AMM) (amm : AMM) : Prop :=
  ∃ amm₀, init.lookup amm.address = some amm₀ ∧ amm.tokenPair = amm₀.tokenPair

theorem SameTokensIn.sync {amm amm' : AMM} {log : Log} (h : SameTokensIn init amm)
    (hsync : amm.sync prof log = .ok amm') : SameTokensIn init amm' := by
  obtain ⟨amm₀, hlookup, htokens⟩ := h
  exact ⟨amm₀, (AMM.sync_same hsync).1 ▸ hlookup, (sync_tokenPair hsync).trans htokens⟩

theorem sameTokensIn_of_syncedAll (hkeyed : Keyed init)
    (hrun : SyncedAll prof (.ofState init) before) : before.Everywhere (SameTokensIn init) := by
  refine (Everywhere.rule SameTokensIn.sync).syncedAll (everywhere_ofState fun a amm ha => ?_) hrun
  exact ⟨amm, hkeyed a amm ha ▸ ha, rfl⟩

/-- **What traded before trades after**: whatever came in between, the pool of a hop is there and
trades the tokens of the hop. -/
theorem trades_after (hkeyed : Keyed init) (hbefore : SyncedAll prof (.ofState init) before)
    (hafter : SyncedAll prof before after) {pool : AMM} {key : Address × Address × Address}
    (hpool : pool ∈ before.state.values) (htrades : Trades pool key) :
    ∃ pool', after.state.lookup key.1 = some pool' ∧ Trades pool' key := by
  have hcovers := Covers.rule.syncedAll (covers_ofState hkeyed) hbefore
  have hcovers' := Covers.rule.syncedAll (covers_ofState hkeyed) (hbefore.trans hafter)
  have hlookup := hcovers.keyed.mem_values_iff.mp hpool
  obtain ⟨amm₀, hinit, htokens⟩ := (sameTokensIn_of_syncedAll hkeyed hbefore).state _ _ hlookup
  obtain ⟨pool', hlookup'⟩ := Option.isSome_iff_exists.mp (hcovers'.present _ _ hinit)
  obtain ⟨amm₁, hinit', htokens'⟩ :=
    (sameTokensIn_of_syncedAll hkeyed (hbefore.trans hafter)).state _ _ hlookup'
  have haddress := hcovers'.keyed _ _ hlookup'
  rw [haddress, hinit, Option.some.injEq] at hinit'
  subst hinit'
  have hpair : pool'.tokenPair = pool.tokenPair := htokens'.trans htokens.symm
  have hkey : key.1 = pool.address := by
    obtain ⟨-, rfl | rfl⟩ := htrades <;> rfl
  refine ⟨pool', hkey ▸ hlookup', ?_⟩
  unfold Trades AMM.Tradable at htrades ⊢
  rw [hpair, haddress]
  exact htrades

end Between

/-- The hops of the paths of a scan trade. -/
theorem trades_of_mem_scanPaths {P : Petgraph Address PoolEdge} {space : StateSpace}
    {constraints : PathConstraints} {fuel : Nat}
    (hfuel : ((buildGraph space).graph.edges.length + 1) ^ constraints.maxLength ≤ fuel)
    {paths : List ArbitragePath}
    (hpaths : (PathFinder.new space constraints).scanPaths P fuel = some paths)
    {path : ArbitragePath} (hpath : path ∈ paths) {hop : PathHop} (hhop : hop ∈ path.hops) :
    ∃ pool ∈ space.state.values, Trades pool hop.key := by
  have hw := PathFinder.wellFormed_new space constraints
  obtain ⟨cycles, hcycles, -, -, hfound⟩ := PathFinder.findCycles_total (P := P) hw hfuel
  unfold PathFinder.scanPaths at hpaths
  rw [hcycles] at hpaths
  cases hpaths
  -- a path is a list of edges of the graph
  have hedges : ∃ q, path = pathOf q ∧
      ∀ e ∈ q, ∃ edge ∈ (buildGraph space).graph.edges, edge.weight = e := by
    rcases List.mem_append.mp hpath with hcycle | hmisprice
    · obtain ⟨start, h⟩ := hfound path hcycle
      obtain ⟨q, hq, -, hclosed, -, -⟩ := h.sound hw
      exact ⟨q, hq, hclosed.edges⟩
    · obtain ⟨a, ha, b, hb, -, -, hq⟩ := PathFinder.exists_of_mem_misprices hmisprice
      refine ⟨_, hq, List.forall_mem_cons.mpr ⟨⟨a, ha, rfl⟩, ?_⟩⟩
      exact List.forall_mem_singleton.mpr ⟨b, hb, rfl⟩
  obtain ⟨q, rfl, hq⟩ := hedges
  have hkeys := (@exists_edges_iff space (pathOf q).keys).mp
    ⟨q, hq, (pathOf_keys q).symm⟩
  exact hkeys hop.key (List.mem_map_of_mem hhop)

theorem map_mapError_eq_ok {α : Type} {x : Option (Outcome OptimizeError α)} {v : α} :
    x.map (·.mapError liftSearch) = some (.ok v) ↔ x = some (.ok v) := by
  rcases x with _ | (e | w)
  · exact iff_of_false nofun nofun
  · exact iff_of_false nofun nofun
  · constructor
    · intro h
      cases h
      rfl
    · intro h
      cases h
      rfl

theorem liftOutside_eq_error {α : Type} {x : Except OutsideError α} {e : Fault ScanError}
    (h : liftOutside x = .error e) : ∃ e', x = .error e' ∧ e = .err (.outside e') := by
  cases x with
  | ok v => cases h
  | error e' =>
    cases h
    exact ⟨e', rfl, rfl⟩

section Files

variable {config : MonitorConfig} {outside : Outside} {e : OutsideError}

theorem logOpportunities_error {opportunities : List OptimizationResult}
    (h : logOpportunities config outside opportunities = .error e) :
    config.logsOpportunities = true ∧ outside.opportunityLog.Fails e := by
  unfold logOpportunities at h
  split at h
  · rename_i hset
    exact ⟨hset, LogFile.write_error h⟩
  · cases h

theorem logPoolPresence_error {space : StateSpace}
    (h : logPoolPresence config outside space = .error e) :
    config.logsPoolUpdates = true ∧ outside.poolUpdateLog.Fails e := by
  unfold logPoolPresence at h
  split at h
  · rename_i hset
    exact ⟨hset, LogFile.write_error h⟩
  · cases h

end Files

section Results

variable {env : SwapEnv} {config : MonitorConfig} {space : StateSpace} {paths : List ArbitragePath}
  (hkeyed : Keyed space.state) (hpools : ∀ path ∈ paths, ∃ pools, PoolsOf space path pools)

/-- A result of the search is above the minimal profit, hence above zero. -/
theorem expectedProfit_ne_zero {config : OptimizationConfig} {path : ArbitragePath}
    {pools : List AMM} {found : OptimizationResult}
    (h : optimize env config path pools = some (.ok (some found))) : found.expectedProfit ≠ 0 := by
  obtain ⟨t, -, hfound, -⟩ := optimize_found h
  have hbeats : found.expectedProfit > config.minProfit := hfound.beats
  intro hzero
  rw [hzero] at hbeats
  exact absurd hbeats BitVec.not_lt_zero

include hkeyed hpools in
/-- No result is lost to the filter of the scan, which drops those without a profit. -/
theorem mem_opportunities_iff {results : List (Option OptimizationResult)}
    (h : optimizePaths env config space.state.values paths = some (.ok results))
    (found : OptimizationResult) :
    found ∈ results.filterMap (fun result => result.filter (·.expectedProfit ≠ 0)) ↔
      ∃ path ∈ paths, ∃ pools, PoolsOf space path pools ∧
        optimize env config.optimization path pools = some (.ok (some found)) := by
  have hmem : some found ∈ results ↔ ∃ path ∈ paths, ∃ pools, PoolsOf space path pools ∧
      optimize env config.optimization path pools = some (.ok (some found)) := by
    rw [mem_eachPath hkeyed hpools h]
    simp only [map_mapError_eq_ok]
  rw [← hmem, List.mem_filterMap]
  constructor
  · rintro ⟨result, hresult, hfilter⟩
    obtain ⟨rfl, -⟩ := Option.filter_eq_some_iff.mp hfilter
    exact hresult
  · intro hresult
    obtain ⟨path, -, pools, -, hoptimize⟩ := hmem.mp hresult
    refine ⟨_, hresult, Option.filter_eq_some_iff.mpr ⟨rfl, ?_⟩⟩
    exact decide_eq_true (expectedProfit_ne_zero hoptimize)

include hkeyed hpools in
/-- The loop over the paths fails where a search does. -/
theorem optimizePaths_error {e : Fault ScanError}
    (h : optimizePaths env config space.state.values paths = some (.error e)) :
    ∃ e', e = liftSearch e' ∧ SwapFails env space e' := by
  obtain ⟨-, path, -, pools, hpath, hf⟩ := eachPath_error hkeyed hpools h
  obtain ⟨x, hx, hlift⟩ := Option.map_eq_some_iff.mp hf
  cases x with
  | ok result => cases hlift
  | error e' =>
    cases hlift
    exact ⟨e', rfl, optimize_error hpath.length_eq (hpath.mem_values hkeyed) hx⟩

include hkeyed hpools in
/-- The snapshot fails where the simulation of a path or its file does. -/
theorem logBestSnapshot_error {outside : Outside} {e : Fault ScanError}
    (h : logBestSnapshot env config outside paths space.state.values = some (.error e)) :
    (∃ e', e = liftSearch e' ∧ SwapFails env space e') ∨
      ∃ e', e = .err (.outside e') ∧ config.logsBestSnapshot = true ∧
        outside.bestSnapshotLog.Fails e' := by
  unfold logBestSnapshot at h
  split at h
  · rename_i hset
    split at h
    · rename_i e' hopening
      cases h
      exact .inr ⟨e', rfl, hset.1, .inl hopening⟩
    · obtain ⟨x, hx, hflush⟩ := Option.map_eq_some_iff.mp h
      cases x with
      | ok written =>
        obtain ⟨e', hfails, rfl⟩ := liftOutside_eq_error hflush
        exact .inr ⟨e', rfl, hset.1, .inr (.inr hfails)⟩
      | error e₁ =>
        cases hflush
        obtain ⟨idx, path, -, pools, hpath, hf⟩ := eachPath_error hkeyed hpools hx
        unfold logPath at hf
        split at hf
        · cases hf
        · rename_i e' he
          cases hf
          exact .inl ⟨_, rfl, simulatePath_error (hpath.mem_values hkeyed) he⟩
        · cases hf
        · obtain ⟨e', hfails, rfl⟩ := liftOutside_eq_error (Option.some.inj hf)
          exact .inr ⟨e', rfl, hset.1, .inr (.inl ⟨idx, hfails⟩)⟩
  · cases h

variable {P : Petgraph Address PoolEdge} {outside : Outside} {fuel : Nat} {before : StateSpace}
  (hpaths : (PathFinder.new before config.constraints).scanPaths P fuel = some paths)

include hkeyed hpools hpaths

theorem opportunisticScan_eq_ok {result : OpportunisticScanResult}
    (h : opportunisticScan env config outside P fuel before space = some (.ok result)) :
    outside.blockNumber = .ok result.blockNumber ∧
      ∀ found, found ∈ result.opportunities ↔
        ∃ path ∈ paths, ∃ pools, PoolsOf space path pools ∧
          optimize env config.optimization path pools = some (.ok (some found)) := by
  simp only [opportunisticScan, hpaths] at h
  split at h
  · cases h
  · rename_i blockNumber hblock
    split at h
    · cases h
    · cases h
    · rename_i results hresults
      split at h
      · cases h
      · obtain ⟨x, -, h⟩ := Option.map_eq_some_iff.mp h
        simp only [bind_eq_ok] at h
        obtain ⟨-, -, -, -, h⟩ := h
        cases h
        exact ⟨hblock, mem_opportunities_iff hkeyed hpools hresults⟩

/-- A scan fails in the search, or where the provider or a file does. -/
theorem opportunisticScan_eq_error {e : Fault ScanError}
    (h : opportunisticScan env config outside P fuel before space = some (.error e)) :
    (∃ e', e = liftSearch e' ∧ SwapFails env space e') ∨
      ∃ e', e = .err (.outside e') ∧ outside.Fails config e' := by
  simp only [opportunisticScan, hpaths] at h
  split at h
  · rename_i e' hblock
    cases h
    exact .inr ⟨e', rfl, .inl hblock⟩
  · split at h
    · cases h
    · rename_i e' he
      cases h
      exact .inl (optimizePaths_error hkeyed hpools he)
    · split at h
      · rename_i e' he
        cases h
        exact .inr ⟨e', rfl, .inr (.inl (logOpportunities_error he))⟩
      · obtain ⟨x, hx, h⟩ := Option.map_eq_some_iff.mp h
        rw [bind_eq_error] at h
        rcases h with rfl | ⟨_, -, h⟩
        · rcases logBestSnapshot_error hkeyed hpools hx with hswap | ⟨e', he, hfails⟩
          · exact .inl hswap
          · exact .inr ⟨e', he, .inr (.inr (.inl hfails))⟩
        · rw [bind_eq_error] at h
          rcases h with h | ⟨_, -, h⟩
          · obtain ⟨e', he, rfl⟩ := liftOutside_eq_error h
            exact .inr ⟨e', rfl, .inr (.inr (.inr (logPoolPresence_error he)))⟩
          · cases h

end Results

/-- **A scan between synchronisations.** Whatever has come in since the start, and between the graph
and the copies of the pools, each hop of each path has its pool, which trades the tokens of the hop;
the opportunities are the results of the optimizer for the paths, all of them; and a scan that fails
does so because the swap of a pool does, the provider or a log file, never for a pool that is
missing. -/
theorem opportunisticScan_between (P : Petgraph Address PoolEdge) (env : SwapEnv)
    (config : MonitorConfig) (outside : Outside) (init : HashMap Address AMM)
    (hkeyed : Keyed init) (before after : StateSpace)
    (hbefore : SyncedAll env.prof (.ofState init) before)
    (hafter : SyncedAll env.prof before after) (fuel : Nat)
    (hfuel : ((buildGraph before).graph.edges.length + 1) ^ config.constraints.maxLength ≤ fuel) :
    ∃ paths, (PathFinder.new before config.constraints).scanPaths P fuel = some paths ∧
      (∀ path ∈ paths, ∃ pools, PoolsOf after path pools) ∧
      (∀ result, opportunisticScan env config outside P fuel before after = some (.ok result) →
        outside.blockNumber = .ok result.blockNumber ∧
        ∀ found, found ∈ result.opportunities ↔
          ∃ path ∈ paths, ∃ pools, PoolsOf after path pools ∧
            optimize env config.optimization path pools = some (.ok (some found))) ∧
      ∀ e, opportunisticScan env config outside P fuel before after = some (.error e) →
        (∃ e', e = liftSearch e' ∧ SwapFails env after e') ∨
          ∃ e', e = .err (.outside e') ∧ outside.Fails config e' := by
  have hkeyed' : Keyed after.state :=
    (Covers.rule.syncedAll (covers_ofState hkeyed) (hbefore.trans hafter)).keyed
  have hw := PathFinder.wellFormed_new before config.constraints
  obtain ⟨cycles, hcycles, -⟩ := PathFinder.findCycles_total (P := P) hw hfuel
  have hpaths : (PathFinder.new before config.constraints).scanPaths P fuel =
      some (cycles ++ (PathFinder.new before config.constraints).findTwoPoolMisprices P) := by
    unfold PathFinder.scanPaths
    rw [hcycles]
    rfl
  generalize cycles ++ (PathFinder.new before config.constraints).findTwoPoolMisprices P = paths
    at hpaths
  have hpools : ∀ path ∈ paths, ∃ pools, PoolsOf after path pools := by
    intro path hpath
    refine exists_poolsOf fun hop hhop => ?_
    obtain ⟨pool, hpool, htrades⟩ := trades_of_mem_scanPaths hfuel hpaths hpath hhop
    exact trades_after hkeyed hbefore hafter hpool htrades
  exact ⟨paths, hpaths, hpools,
    fun result h => opportunisticScan_eq_ok hkeyed' hpools hpaths h,
    fun e h => opportunisticScan_eq_error hkeyed' hpools hpaths h⟩

theorem keyed_twoPools : Keyed twoPools.state := by
  unfold twoPools ofState
  apply Keyed.insert
  · exact Keyed.empty.insert rfl
  · rfl

/-- What the first of the two pools reports in block 1. -/
def newReserves : List Log := [⟨11, some 1, .event (.uniswapV2Sync 160 60)⟩]

/-- All three files are set and can be written. -/
def allLogs : MonitorConfig := ⟨.default, ⟨16, 0, 50⟩, true, true, true⟩

def writtenFile : LogFile := ⟨.ok (), fun _ => .ok (), .ok ()⟩

/-- The provider answers with block 7 and the files are written. -/
def allWritten : Outside := ⟨.ok 7, writtenFile, writtenFile, writtenFile⟩

/-- The disk is full when the snapshot is flushed. -/
def fullDisk : Outside :=
  { allWritten with bestSnapshotLog := ⟨.ok (), fun _ => .ok (), .error .io⟩ }

/-- The reserves change between the two looks: a scan finds two opportunities then, and fails when
the disk is full. -/
theorem opportunisticScan_between_newReserves : ∃ affected after result found,
    twoPools.sync plainEnv.prof newReserves = .ok (affected, after) ∧
    opportunisticScan plainEnv allLogs allWritten Petgraph.newestFirst 625 twoPools after =
      some (.ok result) ∧
    result.opportunities.length = 2 ∧ found ∈ result.opportunities ∧
    (∃ path pools, PoolsOf after path pools ∧
      optimize plainEnv allLogs.optimization path pools = some (.ok (some found))) ∧
    opportunisticScan plainEnv allLogs fullDisk Petgraph.newestFirst 625 twoPools after =
      some (.error (.err (.outside .io))) ∧
    fullDisk.Fails allLogs .io := by
  have hrun : ∃ affected after result found rest,
      twoPools.sync plainEnv.prof newReserves = .ok (affected, after) ∧
      opportunisticScan plainEnv allLogs allWritten Petgraph.newestFirst 625 twoPools after =
        some (.ok result) ∧ result.opportunities = found :: rest ∧ rest.length = 1 ∧
      opportunisticScan plainEnv allLogs fullDisk Petgraph.newestFirst 625 twoPools after =
        some (.error (.err (.outside .io))) := ⟨_, _, _, _, _, rfl, rfl, rfl, rfl, rfl⟩
  obtain ⟨affected, after, result, found, rest, hsync, hscan, hopportunities, hrest, hfull⟩ := hrun
  have hafter : SyncedAll plainEnv.prof twoPools after :=
    .single ⟨newReserves, .inl ⟨_, hsync⟩⟩
  have hmem : found ∈ result.opportunities := hopportunities ▸ List.mem_cons_self
  refine ⟨affected, after, result, found, hsync, hscan, ?_, hmem, ?_, hfull, ?_⟩
  · rw [hopportunities, List.length_cons, hrest]
  · obtain ⟨paths, -, -, hok, -⟩ := opportunisticScan_between Petgraph.newestFirst plainEnv allLogs
      allWritten twoPools.state keyed_twoPools twoPools after .refl hafter 625 (by decide)
    obtain ⟨path, -, pools, hpools⟩ := ((hok result hscan).2 found).mp hmem
    exact ⟨path, pools, hpools⟩
  · obtain ⟨paths, -, -, -, herror⟩ := opportunisticScan_between Petgraph.newestFirst plainEnv
      allLogs fullDisk twoPools.state keyed_twoPools twoPools after .refl hafter 625 (by decide)
    rcases herror _ hfull with ⟨e', he, -⟩ | ⟨e', he, hfails⟩
    · cases e' <;> cases he
    · cases he
      exact hfails

end ArbitrageMonitor

end ArbitrageBot
