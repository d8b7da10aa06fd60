import ArbitrageBot.Amms.UniswapV2Spec
import ArbitrageBot.Arbitrage.FindCycles
import ArbitrageBot.Arbitrage.OptimizerSpec
import ArbitrageBot.StateSpace.SyncSpec

/-!
# Simulation of a path against its execution

`simulate_path` has a clone of its pool for each hop, so a path that trades with one pool twice is
quoted against reserves that its execution has moved. A simple cycle trades with one pool twice only
when it goes through the pool and straight back, and that never pays for its input.
-/

namespace ArbitrageBot

open Lib

/-- The hops in order, on one copy of each pool: a hop sees the reserves that the hops before left.
-/
def executeHops (env : SwapEnv) : List PathHop → (Address → Option AMM) → U256 →
    Option (Outcome SimulationError U256)
  | [], _, amount => some (.ok amount)
  | hop :: hops, copies, amount =>
    match copies hop.poolAddress with
    | none => some (.error (.err (.poolNotFound hop.poolAddress)))
    | some amm =>
      match amm.simulateSwapMut env hop.tokenIn amount with
      | none => none
      | some (.error e, _) => some (liftSwap (.error e))
      | some (.ok out, amm') =>
        executeHops env hops (Function.update copies hop.poolAddress (some amm')) out

/-- The pools of a state, by address. -/
def copiesOf (statePools : List AMM) (a : Address) : Option AMM :=
  statePools.find? (·.address == a)

/-! ## Cycles that trade with a pool twice -/

section Cycles

variable {space : StateSpace} {constraints : PathConstraints}
  {hops : List (Address × Address × Address)}

/-- A keyed state has one pool of an address. -/
theorem Keyed.eq_of_mem_values {state : HashMap Address AMM} (h : Keyed state) {p₁ p₂ : AMM}
    (h₁ : p₁ ∈ state.values) (h₂ : p₂ ∈ state.values) (haddr : p₁.address = p₂.address) :
    p₁ = p₂ := by
  have hsame := h.mem_values_iff.mp h₁
  rw [haddr, h.mem_values_iff.mp h₂] at hsame
  exact (Option.some.inj hsame).symm

/-- Two hops of one pool that sell different tokens go opposite ways. -/
theorem opposite_of_trades (hkeyed : Keyed space.state)
    {hop₁ hop₂ : Address × Address × Address}
    (h₁ : ∃ pool ∈ space.state.values, Trades pool hop₁)
    (h₂ : ∃ pool ∈ space.state.values, Trades pool hop₂) (hpool : hop₁.1 = hop₂.1)
    (hne : hop₁.2.1 ≠ hop₂.2.1) : hop₁.2.2 = hop₂.2.1 ∧ hop₂.2.2 = hop₁.2.1 := by
  obtain ⟨p₁, hp₁, -, h₁⟩ := h₁
  obtain ⟨p₂, hp₂, -, h₂⟩ := h₂
  have haddr : ∀ {p : AMM} {hop : Address × Address × Address},
      (hop = (p.address, p.tokenPair.1.address, p.tokenPair.2.address) ∨
        hop = (p.address, p.tokenPair.2.address, p.tokenPair.1.address)) → hop.1 = p.address := by
    rintro p hop (rfl | rfl)
    · rfl
    · rfl
  obtain rfl := hkeyed.eq_of_mem_values hp₁ hp₂ (by rw [← haddr h₁, ← haddr h₂, hpool])
  rcases h₁ with rfl | rfl
  · rcases h₂ with rfl | rfl
    · exact absurd rfl hne
    · exact ⟨rfl, rfl⟩
  · rcases h₂ with rfl | rfl
    · exact ⟨rfl, rfl⟩
    · exact absurd rfl hne

/-- **A simple cycle that trades with one pool twice** goes through it and straight back. -/
theorem IsCycle.pools_nodup_or (h : IsCycle space constraints hops) (hkeyed : Keyed space.state) :
    (hops.map (·.1)).Nodup ∨ ∃ p a b, a ≠ b ∧ hops = [(p, a, b), (p, b, a)] := by
  by_contra hnot
  rw [not_or] at hnot
  obtain ⟨hdup, hlong⟩ := hnot
  rw [List.nodup_iff_getElem?_ne_getElem?] at hdup
  push Not at hdup
  obtain ⟨i, j, hij, hj, hpool⟩ := hdup
  rw [List.length_map] at hj
  have hi : i < hops.length := Nat.lt_trans hij hj
  rw [List.getElem?_map, List.getElem?_map, List.getElem?_eq_getElem hi,
    List.getElem?_eq_getElem hj] at hpool
  have hpool : hops[i].1 = hops[j].1 := Option.some.inj hpool
  -- The tokens that are sold name the hops.
  have hinj : ∀ {m n : Nat} (hm : m < hops.length) (hn : n < hops.length),
      hops[m].2.1 = hops[n].2.1 → m = n := by
    intro m n hm hn heq
    have hm' : m < (hops.map (·.2.1)).length := by rwa [List.length_map]
    have hn' : n < (hops.map (·.2.1)).length := by rwa [List.length_map]
    apply (@List.Nodup.getElem_inj_iff _ _ h.distinct m hm' n hn').mp
    rw [List.getElem_map, List.getElem_map]
    exact heq
  have hne : hops[i].2.1 ≠ hops[j].2.1 := fun heq => absurd (hinj hi hj heq) (Nat.ne_of_lt hij)
  obtain ⟨hout, hback⟩ := opposite_of_trades hkeyed (h.trades _ (List.getElem_mem hi))
    (h.trades _ (List.getElem_mem hj)) hpool hne
  have hchain := List.isChain_iff_getElem.mp h.chain
  -- The hop after `i` sells what `i` buys, so it is `j`.
  have hnext : i + 1 = j := hinj (by omega) hj ((hchain i (by omega)).symm.trans hout)
  -- No hop comes after `j`, and the first one is `i`.
  have hlast : j + 1 = hops.length := by
    by_contra hmore
    have hafter : j + 1 = i :=
      hinj (by omega) hi ((hchain j (by omega)).symm.trans hback)
    omega
  have hfirst : 0 = i := by
    have hclosed := h.closed
    rw [List.getLast?_eq_getElem?, List.head?_eq_getElem?, ← hlast, Nat.add_sub_cancel,
      List.getElem?_eq_getElem hj, List.getElem?_eq_getElem (by omega : 0 < hops.length)] at hclosed
    have hsame : hops[j].2.2 = hops[0].2.1 := Option.some.inj hclosed
    exact hinj (by omega) hi (hsame.symm.trans hback)
  subst hfirst
  subst hnext
  obtain ⟨x, y, rfl⟩ : ∃ x y, hops = [x, y] := List.length_eq_two.mp hlast.symm
  obtain ⟨p, a, b⟩ := x
  obtain ⟨p', b', a'⟩ := y
  dsimp only [List.getElem_cons_zero, List.getElem_cons_succ] at hpool hne hout hback
  subst hpool hout hback
  exact hlong ⟨_, _, _, hne, rfl⟩

end Cycles

/-! ## Single hops -/

section Hops

variable {env : SwapEnv} {pool : UniswapV2Pool} {hop : PathHop} {hops : List PathHop}
  {statePools pools : List AMM} {copies : Address → Option AMM} {amountIn out last : U256}

/-- A state of legal constant-product pools. -/
def AllLegal (statePools : List AMM) : Prop :=
  ∀ amm ∈ statePools, ∃ pool, amm = .uniswapV2Pool pool ∧ pool.Legal

/-- The simulated hop is the executed one, on the same reserves. -/
theorem simulateHop_eq_ok (h : pool.Legal) (hin : amountIn.toNat < 2 ^ 112)
    (hsim : simulateHop env (.uniswapV2Pool pool) hop amountIn = some (.ok out)) :
    out.toNat = pool.exactOut hop.tokenIn amountIn.toNat ∧ out.toNat < 2 ^ 112 ∧
      (AMM.uniswapV2Pool pool).simulateSwapMut env hop.tokenIn amountIn =
        some (.ok out, .uniswapV2Pool (pool.moved hop.tokenIn amountIn.toNat)) := by
  have hle := @UniswapV2Pool.exactOut_le pool hop.tokenIn amountIn.toNat
  have hlt := (@UniswapV2Pool.Legal.reserves_lt _ hop.tokenIn h).2
  unfold simulateHop AMM.simulateSwap at hsim
  dsimp only at hsim
  rw [UniswapV2Pool.simulateSwap_eq h hin] at hsim
  cases hsim
  have hout : (BitVec.ofNat 256 (pool.exactOut hop.tokenIn amountIn.toNat)).toNat =
      pool.exactOut hop.tokenIn amountIn.toNat := by
    rw [BitVec.toNat_ofNat, Nat.mod_eq_of_lt (by omega)]
  refine ⟨hout, by omega, ?_⟩
  unfold AMM.simulateSwapMut
  dsimp only
  rw [UniswapV2Pool.simulateSwapMut_eq h hin]

/-- **On pools that are used once the execution is the simulation.** -/
theorem executeHops_of_nodup (hlegal : AllLegal statePools)
    (hnodup : (hops.map (·.poolAddress)).Nodup)
    (hcopies : ∀ a ∈ hops.map (·.poolAddress), copies a = copiesOf statePools a)
    (hpools : poolsForPath ⟨hops⟩ statePools = .ok pools) (hin : amountIn.toNat < 2 ^ 112)
    (hsim : simulateHops env (hops.zip pools) amountIn = some (.ok (some last))) :
    executeHops env hops copies amountIn = some (.ok last) := by
  induction hops generalizing copies pools amountIn with
  | nil =>
    cases hsim
    rfl
  | cons hop hops ih =>
    unfold poolsForPath at hpools
    rw [List.mapM_cons] at hpools
    simp only [bind_eq_ok] at hpools
    obtain ⟨amm, hfind, rest, hrest, hpools⟩ := hpools
    cases hpools
    have hfound : copiesOf statePools hop.poolAddress = some amm := by
      unfold copiesOf
      split at hfind
      · rename_i pool hpool
        cases hfind
        exact hpool
      · cases hfind
    obtain ⟨pool, rfl, hpool⟩ := hlegal amm (List.mem_of_find?_eq_some hfound)
    rw [List.zip_cons_cons] at hsim
    unfold simulateHops at hsim
    split at hsim
    · cases hsim
    · cases hsim
    · rename_i out hhop
      split at hsim
      · cases hsim
      · obtain ⟨-, hout, hmut⟩ := simulateHop_eq_ok hpool hin hhop
        rw [List.map_cons, List.nodup_cons] at hnodup
        unfold executeHops
        rw [hcopies _ List.mem_cons_self, hfound]
        dsimp only
        rw [hmut]
        refine ih hnodup.2 ?_ hrest hout hsim
        intro a ha
        have hne : a ≠ hop.poolAddress := by
          rintro rfl
          exact hnodup.1 ha
        rw [Function.update_of_ne hne, hcopies a (List.mem_cons_of_mem _ ha)]

/-- An output of the loop is one of its first hop and of the loop from there. -/
theorem simulateHops_cons_eq_ok {amm : AMM} {rest : List (PathHop × AMM)}
    (h : simulateHops env ((hop, amm) :: rest) amountIn = some (.ok (some last))) :
    ∃ out, simulateHop env amm hop amountIn = some (.ok out) ∧ out ≠ 0 ∧
      simulateHops env rest out = some (.ok (some last)) := by
  rw [simulateHops] at h
  split at h
  · cases h
  · cases h
  · rename_i out hhop
    split at h
    · cases h
    · rename_i hsome
      exact ⟨out, hhop, hsome, h⟩

/-- The other token of a pool sees its reserves exchanged. -/
theorem reserves_other {a b : Address} (hne : a ≠ b)
    (ha : a = pool.tokenA.address ∨ a = pool.tokenB.address)
    (hb : b = pool.tokenA.address ∨ b = pool.tokenB.address) :
    pool.reserves b = ((pool.reserves a).2, (pool.reserves a).1) := by
  unfold UniswapV2Pool.reserves
  by_cases hA : pool.tokenA.address = a
  · rw [if_pos hA, if_neg fun hB => hne (hA.symm.trans hB)]
  · have ha' : a = pool.tokenB.address := ha.resolve_left fun h => hA h.symm
    have hb' : b = pool.tokenA.address := hb.resolve_right fun h => hne (ha'.trans h.symm)
    rw [if_neg hA, if_pos hb'.symm]

/-- **Through a pool and straight back does not pay for the input.** -/
theorem simulateHops_back_lt {back : PathHop} (h : pool.Legal) (hin : amountIn.toNat < 2 ^ 112)
    (hne : hop.tokenIn ≠ back.tokenIn)
    (htoken : hop.tokenIn = pool.tokenA.address ∨ hop.tokenIn = pool.tokenB.address)
    (hback : back.tokenIn = pool.tokenA.address ∨ back.tokenIn = pool.tokenB.address)
    (hsim : simulateHops env [(hop, .uniswapV2Pool pool), (back, .uniswapV2Pool pool)] amountIn =
      some (.ok (some last))) : last < amountIn := by
  obtain ⟨out, hfirst, hsome, hsim⟩ := simulateHops_cons_eq_ok hsim
  obtain ⟨out', hsecond, hsome', hsim⟩ := simulateHops_cons_eq_ok hsim
  cases hsim
  obtain ⟨hout, hlt, -⟩ := simulateHop_eq_ok h hin hfirst
  obtain ⟨hlast, -, -⟩ := simulateHop_eq_ok h hlt hsecond
  have hpos : ∀ {x : U256}, x ≠ 0 → x.toNat ≠ 0 :=
    fun hx hzero => hx (BitVec.eq_of_toNat_eq hzero)
  have hout0 := hpos hsome
  have hlast0 := hpos hsome'
  rw [UniswapV2Pool.exactOut_eq] at hout hlast
  rw [reserves_other hne htoken hback] at hlast
  split at hout
  · exact absurd hout hout0
  · split at hlast
    · exact absurd hlast hlast0
    · dsimp only at hlast
      rw [hout] at hlast
      rw [hlast] at hlast0
      change last.toNat < amountIn.toNat
      rw [hlast]
      exact ConstantProduct.quote_quote_lt (Nat.sub_le _ _) (Nat.pos_of_ne_zero hlast0)

end Hops

/-! ## Paths of the finder -/

section Paths

variable {env : SwapEnv} {space : StateSpace} {constraints : PathConstraints} {path : ArbitragePath}
  {pools : List AMM} {amountIn : U256} {r : OptimizationResult}

/-- A result of `simulate_path` is the last output of the loop, and covers the input. -/
theorem simulatePath_eq_ok (h : simulatePath env path pools amountIn = some (.ok (some r))) :
    simulateHops env (path.hops.zip pools) amountIn = some (.ok (some r.outputAmount)) ∧
      amountIn ≤ r.outputAmount := by
  unfold simulatePath at h
  split at h
  · cases h
  · split at h
    · cases h
    · rw [Option.map_eq_some_iff] at h
      obtain ⟨result, hresult, h⟩ := h
      rw [hresult]
      rcases result with e | last
      · cases h
      · cases last with
        | none => cases h
        | some last =>
          have hr : resultFor path amountIn last = some r := Except.ok.inj h
          unfold resultFor at hr
          split at hr
          · rename_i hle
            cases hr
            exact ⟨rfl, hle⟩
          · cases hr

/-- The pools of a path through one pool and back. -/
theorem poolsForPath_back {hop back : PathHop} {statePools : List AMM}
    (hpath : path.hops = [hop, back]) (hsame : hop.poolAddress = back.poolAddress)
    (h : poolsForPath path statePools = .ok pools) :
    ∃ amm, copiesOf statePools hop.poolAddress = some amm ∧ pools = [amm, amm] := by
  unfold poolsForPath at h
  rw [hpath, List.mapM_cons, List.mapM_cons, List.mapM_nil, ← hsame] at h
  unfold copiesOf
  cases hfind : statePools.find? (·.address == hop.poolAddress) with
  | none =>
    rw [hfind] at h
    cases h
  | some amm =>
    rw [hfind] at h
    cases h
    exact ⟨amm, rfl, rfl⟩

/-- **The result of a path that is a cycle** is what its execution gives. -/
theorem executeHops_of_isCycle (hkeyed : Keyed space.state)
    (hlegal : AllLegal space.state.values) (hcycle : IsCycle space constraints path.keys)
    (hin : amountIn.toNat < 2 ^ 112)
    (hpools : poolsForPath path space.state.values = .ok pools)
    (hsim : simulatePath env path pools amountIn = some (.ok (some r))) :
    executeHops env path.hops (copiesOf space.state.values) amountIn =
      some (.ok r.outputAmount) := by
  obtain ⟨hhops, hle⟩ := simulatePath_eq_ok hsim
  rcases hcycle.pools_nodup_or hkeyed with hnodup | ⟨p, a, b, hne, hkeys⟩
  · unfold ArbitragePath.keys at hnodup
    rw [List.map_map] at hnodup
    exact executeHops_of_nodup hlegal hnodup (fun _ _ => rfl) hpools hin hhops
  · -- A path through one pool and back has no result.
    obtain ⟨hop, back, hpath⟩ : ∃ hop back, path.hops = [hop, back] := by
      have hlength := congrArg List.length hkeys
      unfold ArbitragePath.keys at hlength
      rw [List.length_map] at hlength
      exact List.length_eq_two.mp hlength
    unfold ArbitragePath.keys at hkeys
    rw [hpath] at hkeys
    simp only [List.map_cons, List.map_nil, List.cons.injEq, PathHop.key, Prod.mk.injEq,
      and_true] at hkeys
    obtain ⟨⟨hp₁, rfl, hout₁⟩, hp₂, rfl, -⟩ := hkeys
    obtain ⟨amm, hfound, hpools⟩ := poolsForPath_back hpath (hp₁.trans hp₂.symm) hpools
    have hmem := List.mem_of_find?_eq_some hfound
    have haddr : amm.address = hop.poolAddress := by
      have := List.find?_some hfound
      exact beq_iff_eq.mp this
    obtain ⟨pool, rfl, hpool⟩ := hlegal amm hmem
    have htokens : (hop.tokenIn = pool.tokenA.address ∨ hop.tokenIn = pool.tokenB.address) ∧
        (back.tokenIn = pool.tokenA.address ∨ back.tokenIn = pool.tokenB.address) := by
      have hkey : hop.key ∈ path.keys := by
        unfold ArbitragePath.keys
        rw [hpath]
        exact List.mem_cons_self
      obtain ⟨amm', hmem', -, htrades⟩ := hcycle.trades _ hkey
      have haddr' : amm'.address = hop.poolAddress := by
        rcases htrades with h | h
        · exact (congrArg Prod.fst h).symm
        · exact (congrArg Prod.fst h).symm
      obtain rfl := hkeyed.eq_of_mem_values hmem' hmem (haddr'.trans haddr.symm)
      rw [← hout₁]
      rcases htrades with h | h
      · exact ⟨.inl (congrArg (·.2.1) h), .inr (congrArg (·.2.2) h)⟩
      · exact ⟨.inr (congrArg (·.2.1) h), .inl (congrArg (·.2.2) h)⟩
    rw [hpath, hpools] at hhops
    exact absurd hle (BitVec.not_le.mpr
      (simulateHops_back_lt hpool hin hne htokens.1 htokens.2 hhops))

/-- **Simulation is execution**: for every path that the finder returns on a state of
constant-product pools, a result of `simulate_path` over clones of the pools is what executing its
hops on one copy of each pool returns. -/
theorem simulatePath_eq_executeHops (P : Petgraph Address PoolEdge) (space : StateSpace)
    (constraints : PathConstraints) (hallow : constraints.allowSelfCycle = false)
    (hkeyed : Keyed space.state) (hlegal : AllLegal space.state.values) :
    ∃ bound, ∀ fuel ≥ bound, ∃ paths,
      (PathFinder.new space constraints).findCycles P fuel = some paths ∧
      ∀ path ∈ paths, ∀ (env : SwapEnv) (amountIn : U256) (pools : List AMM)
        (r : OptimizationResult), amountIn.toNat < 2 ^ 112 →
        poolsForPath path space.state.values = .ok pools →
        simulatePath env path pools amountIn = some (.ok (some r)) →
        executeHops env path.hops (copiesOf space.state.values) amountIn =
          some (.ok r.outputAmount) := by
  have hw := PathFinder.wellFormed_new space constraints
  refine ⟨((buildGraph space).graph.edges.length + 1) ^ constraints.maxLength,
    fun fuel hfuel => ?_⟩
  obtain ⟨paths, hpaths, -, -, hfound⟩ := PathFinder.findCycles_total (P := P) hw hfuel
  refine ⟨paths, hpaths, fun path hpath env amountIn pools r hin hpools hsim => ?_⟩
  obtain ⟨start, h⟩ := hfound path hpath
  obtain ⟨q, rfl, hlen, hclosed, hsimple, hmatch⟩ := h.sound hw
  have hcycle : IsCycle space constraints (pathOf q).keys := by
    rw [pathOf_keys]
    exact (isCycle_keys_iff hclosed.edges).mpr ⟨hclosed, hsimple hallow, hlen, hmatch⟩
  exact executeHops_of_isCycle hkeyed hlegal hcycle hin hpools hsim

/-- The two pools of `twoHops`, each under its address. -/
def twoV2Space : StateSpace :=
  .ofState (StateSpace.insertAll ∅ twoV2Pools)

theorem twoV2Space_isCycle : IsCycle twoV2Space PathConstraints.default twoHops.keys where
  length_pos := by decide
  length_le := by decide
  trades := by
    have hknown : (18 : UInt8) ≠ 0 ∧ (18 : UInt8) ≠ 0 := by decide
    exact List.forall_mem_cons.mpr
      ⟨⟨_, List.mem_cons_of_mem _ List.mem_cons_self, hknown, .inl rfl⟩,
        List.forall_mem_singleton.mpr ⟨_, List.mem_cons_self, hknown, .inl rfl⟩⟩
  chain := by decide
  closed := rfl
  distinct := by decide
  start := fun _ ht => nomatch ht
  finish := fun _ ht => nomatch ht

theorem twoV2Space_allLegal : AllLegal twoV2Space.state.values := by
  intro amm h
  rcases List.mem_cons.mp h with rfl | h
  · exact ⟨_, rfl, by decide, by decide, by decide⟩
  · rcases List.mem_cons.mp h with rfl | h
    · exact ⟨_, rfl, by decide, by decide, by decide⟩
    · cases h

/-- The round trip over both pools is found; 150 bring 205, simulated and executed. -/
theorem simulatePath_eq_executeHops_twoV2Space : ∃ fuel paths path r,
    (PathFinder.new twoV2Space PathConstraints.default).findCycles Petgraph.newestFirst fuel =
        some paths ∧
      path ∈ paths ∧ path.keys = twoHops.keys ∧
      simulatePath plainEnv path twoV2Pools 150 = some (.ok (some r)) ∧ r.expectedProfit = 55 ∧
      executeHops plainEnv path.hops (copiesOf twoV2Space.state.values) 150 =
        some (.ok r.outputAmount) ∧ r.outputAmount = 205 := by
  obtain ⟨bound, h⟩ := simulatePath_eq_executeHops Petgraph.newestFirst twoV2Space
    PathConstraints.default rfl (StateSpace.insertAll_keyed Keyed.empty twoV2Pools)
    twoV2Space_allLegal
  let fuel := max bound (((buildGraph twoV2Space).graph.edges.length + 1) ^ 4)
  obtain ⟨paths, hpaths, hall⟩ := h fuel (Nat.le_max_left ..)
  obtain ⟨paths', hpaths', -, hkeys⟩ := findCycles_keys Petgraph.newestFirst twoV2Space
    PathConstraints.default rfl (Nat.le_max_right bound _)
  obtain rfl : paths = paths' := Option.some.inj (hpaths.symm.trans hpaths')
  obtain ⟨path, hpath, hpathKeys⟩ := List.mem_map.mp ((hkeys _).mpr twoV2Space_isCycle)
  -- the keys say everything of the hops but their fees, which no swap reads
  obtain ⟨fee, fee', rfl⟩ : ∃ fee fee', path = ⟨[⟨3, 1, 2, fee⟩, ⟨4, 2, 1, fee'⟩]⟩ := by
    obtain ⟨hops⟩ := path
    obtain ⟨hop, rest, rfl, hhop, hrest⟩ := List.map_eq_cons_iff.mp hpathKeys
    obtain ⟨back, rest, rfl, hback, hrest⟩ := List.map_eq_cons_iff.mp hrest
    cases List.map_eq_nil_iff.mp hrest
    obtain ⟨_, _, _, fee⟩ := hop
    obtain ⟨_, _, _, fee'⟩ := back
    cases hhop
    cases hback
    exact ⟨fee, fee', rfl⟩
  refine ⟨fuel, paths, _, ⟨_, 150, 55, 205⟩, hpaths, hpath, rfl, rfl, rfl, ?_, rfl⟩
  exact hall _ hpath plainEnv 150 twoV2Pools ⟨_, 150, 55, 205⟩ (by decide) rfl rfl

end Paths

end ArbitrageBot
