import ArbitrageBot.Amms.UniswapV3.SwapSpec
import ArbitrageBot.Arbitrage.SharedCopies
import ArbitrageBot.Protocols.AgniMonitor

/-!
# How fresh the candidates of the Agni service are

The pools in the path cache stay the ones of the start. The service decides on the current pools
exactly as long as no pool has changed on a path that is profitable at the start
(`decidesOnCurrent_iff`).
-/

namespace ArbitrageBot

namespace Protocols

open Lib

namespace AgniMonitor

section

variable (env : SwapEnv) (gasConfig : GasConfig) (config : ServiceConfig)

/-- The thresholds of the search: what a path needs, on given pools, to be a candidate. -/
def Profitable (path : ArbitragePath) (pools : List AMM) : Prop :=
  ∃ simulation netProfit,
    (bestPathSimulationWithSteps env path pools).run = some (.ok (some simulation)) ∧
    (0 : U256).slt simulation.profit = true ∧ config.minGrossProfit ≤ simulation.profit ∧
    gasConfig.netProfit simulation.profit path.hops.length = some netProfit ∧
    config.minNetProfit ≤ netProfit ∧
    gasConfig.isProfitableAfterGas simulation.profit path.hops.length = true ∧
    (buildTokenPath path).head? = some config.wmntAddress ∧
    (buildTokenPath path).getLast? = some config.wmntAddress

/-- The pools of a map at the hops of a path. -/
def entriesOf (pools : HashMap Address AgniPool) (path : ArbitragePath) : List (Option AMM) :=
  path.hops.map fun hop => (pools.lookup hop.poolAddress).map .agniPool

/-- The states of the pools of a map at some addresses. -/
def statesOf (pools : HashMap Address AgniPool) (addresses : List Address) : List U256 :=
  addresses.flatMap fun a => (pools.lookup a).elim [] expectedState

/-- The path is profitable on the pools of a map. -/
def ProfitableOn (pools : HashMap Address AgniPool) (path : ArbitragePath) : Prop :=
  ∃ used, used.map some = entriesOf pools path ∧ Profitable env gasConfig config path used

/-- The candidate is what the search finds for a path of the cache, on the pools `used`. -/
structure SimulatedOn (cache : PathCache) (path : ArbitragePath) (used : List AMM)
    (candidate : PositiveCandidate) : Prop where
  mem_paths : path ∈ cache.paths
  pools_eq : poolsForPath path cache.statePools = .ok used
  found : (candidateFor env gasConfig config path used).run = some (.ok (some candidate))

/-- Every candidate was simulated on the current pools, and carries their states. -/
def DecidesOnCurrent (pools : HashMap Address AgniPool) (cache : PathCache)
    (candidates : List PositiveCandidate) : Prop :=
  ∀ candidate ∈ candidates, ∀ path used,
    SimulatedOn env gasConfig config cache path used candidate →
      used.map some = entriesOf pools path ∧
      candidate.expectedStates = statesOf pools candidate.poolAddresses

end

/-! ## Simulations that return -/

theorem Sim.bind_eq_ok {α β : Type} {x : Sim α} {f : α → Sim β} {b : β} :
    (x >>= f).run = some (.ok b) ↔ ∃ a, x.run = some (.ok a) ∧ (f a).run = some (.ok b) := by
  rw [ExceptT.run_bind]
  cases hx : x.run with
  | none => simp
  | some r =>
    cases r with
    | error e => simp
    | ok a => simp

theorem Sim.mem_mapM {α β : Type} {f : α → Sim β} {xs : List α} {ys : List β}
    (h : (xs.mapM f).run = some (.ok ys)) {y : β} :
    y ∈ ys ↔ ∃ x ∈ xs, (f x).run = some (.ok y) := by
  induction xs generalizing ys with
  | nil =>
    rw [List.mapM_nil] at h
    cases h
    simp
  | cons x xs ih =>
    rw [List.mapM_cons, Sim.bind_eq_ok] at h
    obtain ⟨y₀, hy₀, h⟩ := h
    rw [Sim.bind_eq_ok] at h
    obtain ⟨rest, hrest, h⟩ := h
    cases h
    rw [List.mem_cons, ih hrest, List.exists_mem_cons_iff, hy₀]
    simp [eq_comm]

theorem poolsForPath_eq_ok_iff {path : ArbitragePath} {statePools used : List AMM} :
    poolsForPath path statePools = .ok used ↔
      used.map some = path.hops.map fun hop => copiesOf statePools hop.poolAddress := by
  obtain ⟨hops⟩ := path
  unfold poolsForPath copiesOf
  dsimp only
  induction hops generalizing used with
  | nil =>
    rw [List.mapM_nil, List.map_nil, List.map_eq_nil_iff]
    exact ⟨fun h => by cases h; rfl, fun h => by rw [h]; rfl⟩
  | cons hop hops ih =>
    rw [List.mapM_cons, List.map_cons]
    cases hfound : statePools.find? (·.address == hop.poolAddress) with
    | none =>
      refine iff_of_false (fun h => by cases h) fun h => ?_
      cases used with
      | nil => cases h
      | cons pool used => cases h
    | some pool =>
      dsimp only
      rw [ok_bind, bind_eq_ok]
      cases used with
      | nil =>
        refine iff_of_false ?_ (by simp)
        rintro ⟨rest, -, h⟩
        cases h
      | cons pool' used =>
        rw [List.map_cons, List.cons_eq_cons, Option.some.injEq, ← ih]
        constructor
        · rintro ⟨rest, hrest, h⟩
          cases h
          exact ⟨rfl, hrest⟩
        · rintro ⟨rfl, hrest⟩
          exact ⟨used, hrest, rfl⟩

/-! ## The candidate of a path -/

section

variable {env : SwapEnv} {gasConfig : GasConfig} {config : ServiceConfig} {path : ArbitragePath}
  {used : List AMM} {candidate : PositiveCandidate} {cache : PathCache}

/-- A candidate has met the thresholds, and carries the states of the pools of its simulation. -/
theorem candidateFor_eq_some
    (h : (candidateFor env gasConfig config path used).run = some (.ok (some candidate))) :
    Profitable env gasConfig config path used ∧
    collectAgniExpectedStates used = some candidate.expectedStates ∧
    candidate.poolAddresses = path.hops.map (·.poolAddress) := by
  unfold candidateFor at h
  rw [Sim.bind_eq_ok] at h
  obtain ⟨result, hresult, h⟩ := h
  cases result with
  | none => cases h
  | some simulation =>
    dsimp only at h
    split at h
    · cases h
    rename_i hpositive
    split at h
    · cases h
    rename_i hgross
    split at h
    · cases h
    rename_i netProfit hnet
    split at h
    · cases h
    rename_i hminNet
    split at h
    · cases h
    rename_i hgas
    split at h
    · cases h
    rename_i hhead
    split at h
    · cases h
    rename_i hlast
    split at h
    · cases h
    rename_i states hstates
    cases h
    exact ⟨⟨simulation, netProfit, hresult, not_not.mp hpositive, BitVec.not_lt.mp hgross, hnet,
      BitVec.not_lt.mp hminNet, not_not.mp hgas, not_not.mp hhead, not_not.mp hlast⟩, hstates, rfl⟩

/-- A profitable path whose pools are all Agni pools is a candidate. -/
theorem exists_candidate {states : List U256} (h : Profitable env gasConfig config path used)
    (hstates : collectAgniExpectedStates used = some states) :
    ∃ candidate, (candidateFor env gasConfig config path used).run =
      some (.ok (some candidate)) := by
  obtain ⟨simulation, netProfit, hresult, hpositive, hgross, hnet, hminNet, hgas, hhead, hlast⟩ := h
  refine ⟨{
    signature := pathSignature path
    hops := path.hops.length
    input := simulation.input
    output := simulation.output
    profit := simulation.profit
    netProfit
    poolAddresses := path.hops.map (·.poolAddress)
    tokenPath := buildTokenPath path
    amountsOut := simulation.stepOutputs
    expectedStates := states }, ?_⟩
  unfold candidateFor
  rw [Sim.bind_eq_ok]
  refine ⟨_, hresult, ?_⟩
  dsimp only
  rw [if_neg (not_not.mpr hpositive), if_neg (BitVec.not_lt.mpr hgross), hnet]
  dsimp only
  rw [if_neg (BitVec.not_lt.mpr hminNet), if_neg (not_not.mpr hgas), if_neg (not_not.mpr hhead),
    if_neg (not_not.mpr hlast), hstates]
  rfl

/-- The candidates are those of the paths of the cache. -/
theorem mem_candidatesOf {candidates : List PositiveCandidate}
    (h : (candidatesOf env gasConfig config cache).run = some (.ok candidates)) :
    candidate ∈ candidates ↔
      ∃ path used, SimulatedOn env gasConfig config cache path used candidate := by
  unfold candidatesOf at h
  rw [Sim.bind_eq_ok] at h
  obtain ⟨found, hfound, h⟩ := h
  cases h
  rw [List.mem_insertionSort, List.mem_filterMap]
  simp only [id_eq, exists_eq_right, Sim.mem_mapM hfound]
  constructor
  · rintro ⟨path, hpath, h⟩
    cases hpools : poolsForPath path cache.statePools with
    | error e =>
      rw [hpools] at h
      cases h
    | ok used =>
      rw [hpools] at h
      exact ⟨path, used, hpath, hpools, h⟩
  · rintro ⟨path, used, hpath, hpools, h⟩
    refine ⟨path, hpath, ?_⟩
    rw [hpools]
    exact h

end

/-! ## The pools of the cache -/

section

variable {pools pools' initial : HashMap Address AgniPool} {path : ArbitragePath}
  {used : List AMM} {cache : PathCache}

/-- Agni pools have states. -/
theorem collectAgniExpectedStates_eq (h : used.map some = entriesOf pools path) :
    collectAgniExpectedStates used = some (statesOf pools (path.hops.map (·.poolAddress))) := by
  obtain ⟨hops⟩ := path
  unfold entriesOf statesOf collectAgniExpectedStates at *
  dsimp only at *
  induction hops generalizing used with
  | nil =>
    rw [List.map_nil, List.map_eq_nil_iff] at h
    rw [h]
    rfl
  | cons hop hops ih =>
    cases used with
    | nil => cases h
    | cons amm used =>
      rw [List.map_cons, List.map_cons, List.cons_eq_cons] at h
      obtain ⟨pool, hpool, hamm⟩ := Option.map_eq_some_iff.mp h.1.symm
      subst hamm
      have hrest := ih h.2
      rw [Option.map_eq_some_iff] at hrest
      obtain ⟨states, hstates, hflat⟩ := hrest
      rw [List.mapM_cons, hstates, List.map_cons, List.flatMap_cons, hpool, ← hflat]
      rfl

/-- **The cache holds the pools it was built from.** -/
theorem poolsForPath_cache (hkeyed : ∀ a pool, initial.lookup a = some pool → pool.address = a)
    {P : Petgraph Address PoolEdge} {fuel maxHops : Nat} {wmntAddress : Address}
    (hcache : buildPathCache P fuel initial maxHops wmntAddress = some cache)
    (hpath : path ∈ cache.paths) :
    poolsForPath path cache.statePools = .ok used ↔ used.map some = entriesOf initial path := by
  have hcopies : ∀ a, copiesOf (StateSpace.ofPools .agniPool initial).state.values a =
      (initial.lookup a).map .agniPool := by
    intro a
    have hkeyed' := StateSpace.ofPools_keyed (f := .agniPool) hkeyed
    have hvalues := @StateSpace.snapshot_values AMM id _ hkeyed' a
    rw [List.map_id, Option.map_id_apply, StateSpace.ofPools_lookup hkeyed] at hvalues
    exact hvalues
  have hstate : cache.statePools = (StateSpace.ofPools .agniPool initial).state.values := by
    unfold buildPathCache at hcache
    obtain ⟨found, -, hcache⟩ := Option.map_eq_some_iff.mp hcache
    dsimp only at hcache
    split at hcache
    · rw [← hcache] at hpath
      cases hpath
    · rw [← hcache]
  rw [poolsForPath_eq_ok_iff, hstate]
  simp only [hcopies, entriesOf]

/-- The pools of two maps at a path are the same exactly if they are at every hop. -/
theorem entriesOf_eq_iff : entriesOf initial path = entriesOf pools path ↔
    ∀ hop ∈ path.hops, pools.lookup hop.poolAddress = initial.lookup hop.poolAddress := by
  have hinj : Function.Injective (Option.map AMM.agniPool) :=
    Option.map_injective fun _ _ h => AMM.agniPool.inj h
  unfold entriesOf
  rw [List.map_inj_left]
  refine forall₂_congr fun hop _ => ?_
  rw [hinj.eq_iff, eq_comm]

/-! ## The logs keep the addresses of the pools -/

variable {prof : BuildProfile} {written : AgniPool → Log → Bool}

theorem applyLog_present {s s' : List Address × HashMap Address AgniPool} {log : Log}
    (h : applyLog prof written s log = .ok s') (a : Address) :
    s'.2.lookup a = none ↔ s.2.lookup a = none := by
  obtain ⟨changed, pools⟩ := s
  unfold applyLog at h
  dsimp only at h
  split at h
  · cases h
    rfl
  rename_i pool hpool
  split at h
  · cases h
  split at h
  · cases h
  · split at h
    · cases h
      rfl
    · split at h
      · cases h
        rfl
      · cases h
  · split at h
    · cases h
      rw [AList.lookup_insert_eq_none]
      refine and_iff_right_of_imp ?_
      rintro hnone rfl
      rw [hpool] at hnone
      cases hnone
    · cases h

theorem applyLogs_present {logs : List Log} {changed : List Address}
    (h : applyLogs prof written pools logs = .ok (changed, pools')) (a : Address) :
    pools'.lookup a = none ↔ pools.lookup a = none := by
  have hfold : ∀ {s s' : List Address × HashMap Address AgniPool},
      logs.foldlM (applyLog prof written) s = .ok s' →
        (s'.2.lookup a = none ↔ s.2.lookup a = none) := by
    clear h
    induction logs with
    | nil =>
      intro s s' h
      cases h
      rfl
    | cons log logs ih =>
      intro s s' h
      rw [List.foldlM_cons, bind_eq_ok] at h
      obtain ⟨s₁, hlog, h⟩ := h
      exact (ih h).trans (applyLog_present hlog a)
  exact hfold h

theorem applyBlocks_present {blocks : List (List Log)}
    (h : applyBlocks prof written pools blocks = .ok pools') (a : Address) :
    pools'.lookup a = none ↔ pools.lookup a = none := by
  unfold applyBlocks at h
  induction blocks generalizing pools with
  | nil =>
    cases h
    rfl
  | cons logs blocks ih =>
    rw [List.foldlM_cons, bind_eq_ok] at h
    obtain ⟨pools₁, hlogs, h⟩ := h
    cases hresult : applyLogs prof written pools logs with
    | error e =>
      rw [hresult] at hlogs
      cases hlogs
    | ok r =>
      rw [hresult] at hlogs
      cases hlogs
      exact (ih h).trans (applyLogs_present hresult a)

end

/-- **The service decides on current pools exactly if the logs have left every pool of every path
that is profitable at the start as it was.** -/
theorem decidesOnCurrent_iff {initial pools : HashMap Address AgniPool}
    (hkeyed : ∀ a pool, initial.lookup a = some pool → pool.address = a)
    {P : Petgraph Address PoolEdge} {fuel maxHops : Nat} {wmntAddress : Address} {cache : PathCache}
    (hcache : buildPathCache P fuel initial maxHops wmntAddress = some cache)
    {prof : BuildProfile} {written : AgniPool → Log → Bool} {blocks : List (List Log)}
    (hrun : applyBlocks prof written initial blocks = .ok pools)
    {env : SwapEnv} {gasConfig : GasConfig} {config : ServiceConfig}
    {candidates : List PositiveCandidate}
    (hfind : (findProfitableCandidates env gasConfig config pools cache).run =
      some (.ok candidates)) :
    DecidesOnCurrent env gasConfig config pools cache candidates ↔
      ∀ path ∈ cache.paths, ProfitableOn env gasConfig config initial path →
        ∀ hop ∈ path.hops, pools.lookup hop.poolAddress = initial.lookup hop.poolAddress := by
  unfold findProfitableCandidates at hfind
  by_cases hempty : pools.entries.isEmpty
  · rw [if_pos hempty] at hfind
    cases hfind
    refine iff_of_true (fun c hc => by cases hc) fun path _ _ hop _ => ?_
    have hnone : pools.lookup hop.poolAddress = none := by
      rw [AList.lookup_eq_none]
      intro hmem
      rw [AList.mem_keys] at hmem
      unfold AList.keys at hmem
      rw [List.isEmpty_iff.mp hempty] at hmem
      cases hmem
    rw [hnone, ((applyBlocks_present hrun _).mp hnone)]
  · rw [if_neg hempty] at hfind
    constructor
    · intro hcurrent path hpath hprofitable
      obtain ⟨used, hused, hprofit⟩ := hprofitable
      obtain ⟨candidate, hcandidate⟩ :=
        exists_candidate hprofit (collectAgniExpectedStates_eq hused)
      have hsimulated : SimulatedOn env gasConfig config cache path used candidate :=
        ⟨hpath, (poolsForPath_cache hkeyed hcache hpath).mpr hused, hcandidate⟩
      have hmem := (mem_candidatesOf hfind).mpr ⟨path, used, hsimulated⟩
      have hentries := (hcurrent candidate hmem path used hsimulated).1
      exact entriesOf_eq_iff.mp (hused.symm.trans hentries)
    · intro hunchanged candidate _ path used hsimulated
      obtain ⟨hprofit, hstates, haddresses⟩ := candidateFor_eq_some hsimulated.found
      have hused := (poolsForPath_cache hkeyed hcache hsimulated.mem_paths).mp hsimulated.pools_eq
      have hcurrent := hused.trans
        (entriesOf_eq_iff.mpr (hunchanged path hsimulated.mem_paths ⟨used, hused, hprofit⟩))
      rw [collectAgniExpectedStates_eq hcurrent] at hstates
      refine ⟨hcurrent, ?_⟩
      rw [haddresses]
      exact (Option.some.inj hstates).symm

/-! ## Two pools with different prices -/

/-- `next_initialized_tick_within_one_word`. -/
def nextTick (bitmap : HashMap Int U256) (tick tickSpacing : Int) (lte : Bool) : Int × Bool :=
  let compressed := tick / tickSpacing
  if lte then
    let bitPos := (compressed % 256).toNat
    let masked := ((bitmap.lookup (compressed / 256)).getD 0).toNat % 2 ^ (bitPos + 1)
    if masked = 0 then ((compressed - bitPos) * tickSpacing, false)
    else ((compressed - bitPos + Nat.log2 masked) * tickSpacing, true)
  else
    let compressed := compressed + 1
    let bitPos := (compressed % 256).toNat
    let masked := ((bitmap.lookup (compressed / 256)).getD 0).toNat / 2 ^ bitPos
    if masked = 0 then ((compressed + (255 - bitPos : Nat)) * tickSpacing, false)
    else ((compressed + Nat.log2 (masked ^^^ (masked - 1))) * tickSpacing, true)

/-- The prices of the ticks where the swaps between the two pools stop. -/
def tableRatio (tick : Int) : Except UniswapV3MathError U256 :=
  match tick with
  | -887272 => .ok 4295128739#256
  | -163830 => .ok 21955038324264748217711952#256
  | -147447 => .ok 49804517602455127554381657#256
  | -16383 => .ok 34925694055432477665832863688#256
  | 0 => .ok 79228162514264337593543950336#256
  | 887272 => .ok 1461446703485210103287273052203988822378723970342#256
  | _ => .error ⟨"not tabulated"⟩

/-- The steps of these swaps: each crosses the whole position, and there is no liquidity beyond. -/
def tableStep (current target : U256) (liquidity : Nat) (remaining : U256) :
    Except UniswapV3MathError (U256 × U256 × U256 × U256) :=
  if liquidity = 0 ∨ current = target then .ok (target, 0, 0, 0)
  else if current = 79224201403219477170569942574#256 ∧ liquidity = 10 ^ 11 then
    if target = 34925694055432477665832863688#256 ∧ 126906235820#256 ≤ remaining then
      .ok (target, 126842782702, 55912576970, 63453118)
    else if target = 79228162514264337593543950336#256 ∧ 5002128#256 ≤ remaining then
      .ok (target, 4999626, 4999875, 2502)
    else .error ⟨"not tabulated"⟩
  else if current = 21955038324264748217711952#256 ∧ liquidity = 10 ^ 14 then
    if target = 49804517602455127554381657#256 ∧ 35168568979#256 ≤ remaining then
      .ok (target, 35150984694, 201787251766573740, 17584285)
    else .error ⟨"not tabulated"⟩
  else .error ⟨"not tabulated"⟩

def tableMath : UniswapV3Math where
  nextInitializedTickWithinOneWord bitmap tick tickSpacing lte :=
    .ok (nextTick bitmap tick tickSpacing lte)
  getSqrtRatioAtTick := tableRatio
  getTickAtSqrtRatio sqrtPrice :=
    if sqrtPrice = 4295128740#256 then .ok (-887272)
    else if sqrtPrice = 1461446703485210103287273052203988822378723970341#256 then .ok 887271
    else .error ⟨"not tabulated"⟩
  computeSwapStep current target liquidity remaining _ :=
    tableStep current target liquidity remaining

/-- A pool at tick -1 with one position below tick 0. -/
def levelPool : AgniPool :=
  { AgniPool.new 11 with
    tokenA := ⟨1, 18⟩
    tokenB := ⟨2, 18⟩
    liquidity := 10 ^ 11
    sqrtPrice := 79224201403219477170569942574#256
    fee := 500
    tick := -1
    tickSpacing := 16383
    tickBitmap := ((∅ : HashMap Int U256).insert (-1) (1#256 <<< 255)).insert 0 1
    ticks := ((∅ : HashMap Int Info).insert (-16383) ⟨10 ^ 11, 10 ^ 11, true⟩).insert 0
      ⟨10 ^ 11, -10 ^ 11, true⟩ }

/-- A pool of the same tokens at tick -163830, where token 2 is dear. -/
def dearPool : AgniPool :=
  { AgniPool.new 12 with
    tokenA := ⟨1, 18⟩
    tokenB := ⟨2, 18⟩
    liquidity := 10 ^ 14
    sqrtPrice := 21955038324264748217711952#256
    fee := 500
    tick := -163830
    tickSpacing := 16383
    tickBitmap := (∅ : HashMap Int U256).insert (-1) (3#256 <<< 246)
    ticks := ((∅ : HashMap Int Info).insert (-163830) ⟨10 ^ 14, 10 ^ 14, true⟩).insert (-147447)
      ⟨10 ^ 14, -10 ^ 14, true⟩ }

def startPools : HashMap Address AgniPool :=
  ((∅ : HashMap Address AgniPool).insert 11 levelPool).insert 12 dearPool

theorem keyed_startPools : ∀ a pool, startPools.lookup a = some pool → pool.address = a := by
  intro a pool h
  unfold startPools at h
  rw [HashMap.lookup_insert, HashMap.lookup_insert] at h
  split at h
  · rename_i ha
    cases h
    exact ha.symm
  · split at h
    · rename_i ha
      cases h
      exact ha.symm
    · cases h

/-- At the start one path is profitable: token 1 to token 2 in the one pool, and back in the other.
-/
theorem candidatesOf_startPools : ∃ cache candidate,
    buildPathCache Petgraph.newestFirst 100 startPools 4 1 = some cache ∧
    (candidatesOf ⟨tableMath, ⟨true⟩, 4⟩ ⟨0⟩ ⟨1, 1, 1⟩ cache).run = some (.ok [candidate]) ∧
    candidate.poolAddresses = [11, 12] ∧
    candidate.expectedStates = [79224201403219477170569942574#256, 100000000000#256,
      21955038324264748217711952#256, 100000000000000#256] := by
  have hrun : ((buildPathCache Petgraph.newestFirst 100 startPools 4 1).bind fun cache =>
      (candidatesOf ⟨tableMath, ⟨true⟩, 4⟩ ⟨0⟩ ⟨1, 1, 1⟩ cache).run.map fun result =>
        result.toOption.map fun candidates =>
          candidates.map fun c => (c.poolAddresses, c.expectedStates)) =
      some (some [([11, 12], [79224201403219477170569942574#256, 100000000000#256,
        21955038324264748217711952#256, 100000000000000#256])]) := by
    decide +kernel
  obtain ⟨cache, hcache, hrun⟩ := Option.bind_eq_some_iff.mp hrun
  obtain ⟨result, hresult, hrun⟩ := Option.map_eq_some_iff.mp hrun
  obtain ⟨candidates, hok, hlist⟩ := Option.map_eq_some_iff.mp hrun
  cases result with
  | error e => cases hok
  | ok candidates' =>
    cases hok
    obtain ⟨candidate, hsingle, hcandidate⟩ := List.map_eq_singleton_iff.mp hlist
    obtain ⟨haddresses, hstates⟩ := Prod.mk.inj hcandidate
    subst hsingle
    exact ⟨cache, candidate, hcache, hresult, haddresses, hstates⟩

/-- A log that does not decode changes nothing. -/
theorem decidesOnCurrent_iff_undecodable : ∃ cache candidate,
    buildPathCache Petgraph.newestFirst 100 startPools 4 1 = some cache ∧
    (findProfitableCandidates ⟨tableMath, ⟨true⟩, 4⟩ ⟨0⟩ ⟨1, 1, 1⟩ startPools cache).run =
      some (.ok [candidate]) ∧
    DecidesOnCurrent ⟨tableMath, ⟨true⟩, 4⟩ ⟨0⟩ ⟨1, 1, 1⟩ startPools cache [candidate] := by
  obtain ⟨cache, candidate, hcache, hfind, -, -⟩ := candidatesOf_startPools
  have hrun : applyBlocks ⟨true⟩ (fun _ _ => true) startPools
      [[⟨11, some 7, .undecodable .agniSwap⟩]] = .ok startPools := rfl
  exact ⟨cache, candidate, hcache, hfind,
    (decidesOnCurrent_iff keyed_startPools hcache hrun hfind).mpr fun _ _ _ _ _ => rfl⟩

/-- After a swap in one of the pools the candidate still carries the state of the start. -/
theorem not_decidesOnCurrent_swap : ∃ cache pools candidate,
    buildPathCache Petgraph.newestFirst 100 startPools 4 1 = some cache ∧
    applyBlocks ⟨true⟩ (fun _ _ => true) startPools
      [[⟨11, some 7, .event (.agniSwap 34925694055432477665832863688#256 0 (-16384))⟩]] =
        .ok pools ∧
    (findProfitableCandidates ⟨tableMath, ⟨true⟩, 4⟩ ⟨0⟩ ⟨1, 1, 1⟩ pools cache).run =
      some (.ok [candidate]) ∧
    ¬ DecidesOnCurrent ⟨tableMath, ⟨true⟩, 4⟩ ⟨0⟩ ⟨1, 1, 1⟩ pools cache [candidate] := by
  obtain ⟨cache, candidate, hcache, hfind, haddresses, hstates⟩ := candidatesOf_startPools
  refine ⟨cache, _, candidate, hcache, rfl, hfind, fun hcurrent => ?_⟩
  have hmem : candidate ∈ [candidate] := List.mem_singleton_self candidate
  obtain ⟨path, used, hsimulated⟩ := (mem_candidatesOf hfind).mp hmem
  have hfresh := (hcurrent candidate hmem path used hsimulated).2
  rw [hstates, haddresses] at hfresh
  exact absurd hfresh (by decide)

end AgniMonitor

end Protocols

end ArbitrageBot
