import ArbitrageBot.Arbitrage.FindCycles

/-!
# The paths handed to the optimizer

`opportunistic_scan` optimizes the cycles followed by the two-pool misprices. The cycles are closed.
A misprice joins an edge into a node with an edge out of it whose other ends differ, so that it
never returns to the token it starts from.
-/

namespace ArbitrageBot

open Lib

/-- The hops of a path chain and end at the token the path starts from. -/
structure IsClosedPath (path : ArbitragePath) : Prop where
  ne_nil : path.hops ≠ []
  chain : path.hops.IsChain fun a b => a.tokenOut = b.tokenIn
  closed : path.hops.getLast?.map (·.tokenOut) = path.hops.head?.map (·.tokenIn)

/-- The paths `opportunistic_scan` optimizes. -/
def PathFinder.scanPaths (P : Petgraph Address PoolEdge) (self : PathFinder) (fuel : Nat) :
    Option (List ArbitragePath) :=
  (self.findCycles P fuel).map (· ++ self.findTwoPoolMisprices P)

/-- No token is traded against two different tokens. -/
def SinglePartner (stateSpace : StateSpace) : Prop :=
  ∀ pool ∈ stateSpace.state.values, ∀ pool' ∈ stateSpace.state.values, ∀ hop hop',
    Trades pool hop → Trades pool' hop' → hop.2.1 = hop'.2.1 → hop.2.2 = hop'.2.2

/-- Whether a path is closed depends on its keys only. -/
theorem isClosedPath_congr {path path' : ArbitragePath} (h : path.keys = path'.keys) :
    IsClosedPath path ↔ IsClosedPath path' := by
  have key : ∀ path : ArbitragePath, IsClosedPath path ↔
      path.keys ≠ [] ∧ (path.keys.IsChain fun a b => a.2.2 = b.2.1) ∧
        path.keys.getLast?.map (·.2.2) = path.keys.head?.map (·.2.1) := by
    intro path
    unfold ArbitragePath.keys
    rw [List.isChain_map, List.getLast?_map, List.head?_map, Option.map_map, Option.map_map]
    constructor
    · rintro ⟨hne, hchain, hclosed⟩
      exact ⟨by simpa using hne, hchain, hclosed⟩
    · rintro ⟨hne, hchain, hclosed⟩
      exact ⟨by simpa using hne, hchain, hclosed⟩
  rw [key, key, h]

theorem isClosedPath_pathOf {E : PoolEdge → Prop} {q : List PoolEdge}
    (h : IsClosedWalk (·.tokenIn.address) (·.tokenOut.address) E q) :
    IsClosedPath (pathOf q) where
  ne_nil := by simpa [pathOf] using h.ne_nil
  chain := by
    unfold pathOf
    rw [List.isChain_map]
    exact h.chain
  closed := by
    unfold pathOf
    rw [List.getLast?_map, List.head?_map, Option.map_map, Option.map_map]
    exact h.closed

namespace PathFinder

section Misprices

variable {P : Petgraph Address PoolEdge} {self : PathFinder} {path : ArbitragePath}

/-- Every misprice is an edge into a node and an edge out of it with different other ends. -/
theorem exists_of_mem_misprices (h : path ∈ self.findTwoPoolMisprices P) :
    ∃ a ∈ self.graph.graph.edges, ∃ b ∈ self.graph.graph.edges,
      a.target = b.source ∧ a.source ≠ b.target ∧ path = pathOf [a.weight, b.weight] := by
  have hmem := mem_of_mem_uniqueBy _ h
  simp only [List.mem_flatMap, List.mem_filterMap] at hmem
  obtain ⟨node, -, inNeighbor, -, outNeighbor, -, hpath⟩ := hmem
  unfold twoPoolPath at hpath
  by_cases hne : inNeighbor = outNeighbor
  · rw [if_pos hne] at hpath
    cases hpath
  · rw [if_neg hne] at hpath
    cases ha : P.findEdge self.graph.graph inNeighbor node with
    | none =>
      rw [ha] at hpath
      cases hpath
    | some a =>
      cases hb : P.findEdge self.graph.graph node outNeighbor with
      | none =>
        rw [ha, hb] at hpath
        cases hpath
      | some b =>
        obtain ⟨hae, hsa, hta⟩ := P.findEdge_mem _ _ _ a ha
        obtain ⟨hbe, hsb, htb⟩ := P.findEdge_mem _ _ _ b hb
        rw [ha, hb] at hpath
        have hconv : convertEdges [a.weight, b.weight] = some (pathOf [a.weight, b.weight]) := rfl
        simp only [hconv] at hpath
        split at hpath
        · exact ⟨a, hae, b, hbe, hta.trans hsb.symm, by rw [hsa, htb]; exact hne,
            (Option.some.inj hpath).symm⟩
        · cases hpath

/-- Without required tokens, two edges through a node with different other ends give a misprice
between those ends, along these edges or parallel ones. -/
theorem exists_mem_misprices (hw : self.WellFormed)
    (hstart : self.constraints.requiredStartToken = none)
    (hend : self.constraints.requiredEndToken = none) {a b : Edge PoolEdge}
    (ha : a ∈ self.graph.graph.edges) (hb : b ∈ self.graph.graph.edges)
    (hab : a.target = b.source) (hne : a.source ≠ b.target) :
    ∃ path ∈ self.findTwoPoolMisprices P, ∃ a' ∈ self.graph.graph.edges,
      ∃ b' ∈ self.graph.graph.edges, a'.source = a.source ∧ b'.target = b.target ∧
        path.keys = (pathOf [a'.weight, b'.weight]).keys := by
  obtain ⟨a', ha'⟩ := Option.isSome_iff_exists.mp (P.findEdge_isSome _ a ha)
  obtain ⟨b', hb'⟩ := Option.isSome_iff_exists.mp (P.findEdge_isSome _ b hb)
  obtain ⟨hae, hsa, -⟩ := P.findEdge_mem _ _ _ a' ha'
  obtain ⟨hbe, -, htb⟩ := P.findEdge_mem _ _ _ b' hb'
  have hpath : self.twoPoolPath P a.target a.source b.target =
      some (pathOf [a'.weight, b'.weight]) := by
    have hmatch :
        pathMatchesConstraints (pathOf [a'.weight, b'.weight]) self.constraints = true := by
      rw [pathMatchesConstraints_pathOf, hstart, hend]
      simp
    have hconv : convertEdges [a'.weight, b'.weight] = some (pathOf [a'.weight, b'.weight]) := rfl
    unfold twoPoolPath
    rw [if_neg hne, ha', hab, hb']
    simp only [hconv]
    rw [if_pos hmatch]
  have hmem : pathOf [a'.weight, b'.weight] ∈ self.graph.graph.nodeIndices.flatMap fun node =>
      (P.neighborsIncoming self.graph.graph node).flatMap fun inNeighbor =>
        (P.neighbors self.graph.graph node).filterMap fun outNeighbor =>
          self.twoPoolPath P node inNeighbor outNeighbor := by
    simp only [List.mem_flatMap, List.mem_filterMap]
    refine ⟨a.target, ?_, a.source, P.mem_neighborsIncoming.mpr ⟨a, ha, rfl, rfl⟩, b.target,
      List.mem_map.mpr ⟨b, P.mem_edges.mpr ⟨hb, hab.symm⟩, rfl⟩, hpath⟩
    obtain ⟨hlt, -⟩ := List.getElem?_eq_some_iff.mp (hw.target a ha)
    exact List.mem_range.mpr hlt
  have hkeys := (mem_map_uniqueBy (·.keys) _ _).mpr (List.mem_map.mpr ⟨_, hmem, rfl⟩)
  obtain ⟨path, hpath', heq⟩ := List.mem_map.mp hkeys
  exact ⟨path, hpath', a', hae, b', hbe, hsa, htb, heq⟩

/-- **Every path of `find_cycles` is closed**, with or without self cycles. -/
theorem findCycles_closed (hw : self.WellFormed) {fuel : Nat}
    (hfuel : (self.graph.graph.edges.length + 1) ^ self.constraints.maxLength ≤ fuel) :
    ∃ paths, self.findCycles P fuel = some paths ∧ ∀ path ∈ paths, IsClosedPath path := by
  obtain ⟨paths, hpaths, -, -, hfound⟩ := findCycles_total (P := P) hw hfuel
  refine ⟨paths, hpaths, fun path hpath => ?_⟩
  obtain ⟨start, h⟩ := hfound path hpath
  obtain ⟨q, rfl, -, hclosed, -, -⟩ := h.sound hw
  exact isClosedPath_pathOf hclosed

end Misprices

end PathFinder

/-- A hop that a pool trades along, the other way. -/
theorem Trades.swap {pool : AMM} {hop : Address × Address × Address} (h : Trades pool hop) :
    Trades pool (hop.1, hop.2.2, hop.2.1) := by
  obtain ⟨htr, rfl | rfl⟩ := h
  · exact ⟨htr, Or.inr rfl⟩
  · exact ⟨htr, Or.inl rfl⟩

/-- Two edges out of a node with different ends are hops that break `SinglePartner`. -/
theorem SinglePartner.target_eq {stateSpace : StateSpace} (h : SinglePartner stateSpace)
    {a b : Edge PoolEdge} (ha : a ∈ (buildGraph stateSpace).graph.edges)
    (hb : b ∈ (buildGraph stateSpace).graph.edges) (hab : a.target = b.source) :
    a.source = b.target := by
  obtain ⟨hg, -, hkeys⟩ := buildGraph_spec stateSpace
  have hw := PathFinder.wellFormed_new stateSpace .default
  obtain ⟨pool, hpool, htrades⟩ := (hkeys _).mp ⟨a, ha, rfl⟩
  obtain ⟨pool', hpool', htrades'⟩ := (hkeys _).mp ⟨b, hb, rfl⟩
  have hmid : a.weight.tokenOut.address = b.weight.tokenIn.address := by
    have := hg.target a ha
    rw [hab, hg.source b hb, Option.some_inj] at this
    exact this.symm
  have htok : a.weight.tokenIn.address = b.weight.tokenOut.address :=
    h pool hpool pool' hpool' _ _ htrades.swap htrades' hmid
  exact hw.node_unique (hg.source a ha) (htok ▸ hg.target b hb)

/-- **Exactly when no token is traded against two different tokens, all paths handed to the
optimizer are closed.** -/
theorem scanPaths_closed_iff (P : Petgraph Address PoolEdge) (stateSpace : StateSpace)
    (constraints : PathConstraints) (hstart : constraints.requiredStartToken = none)
    (hend : constraints.requiredEndToken = none) :
    ∃ bound, ∀ fuel ≥ bound, ∃ paths,
      (PathFinder.new stateSpace constraints).scanPaths P fuel = some paths ∧
      ((∀ path ∈ paths, IsClosedPath path) ↔ SinglePartner stateSpace) := by
  have hw := PathFinder.wellFormed_new stateSpace constraints
  obtain ⟨hg, -, hkeys⟩ := buildGraph_spec stateSpace
  refine ⟨((buildGraph stateSpace).graph.edges.length + 1) ^ constraints.maxLength,
    fun fuel hfuel => ?_⟩
  obtain ⟨cycles, hcycles, hclosed⟩ := PathFinder.findCycles_closed (P := P) hw hfuel
  refine ⟨_, by rw [PathFinder.scanPaths, hcycles]; rfl, ?_⟩
  constructor
  · intro hall pool hpool pool' hpool' hop hop' htrades htrades' hin
    by_contra hne
    -- the edge back along the first hop and the edge along the second one
    obtain ⟨a, ha, hkey⟩ := (hkeys _).mpr ⟨pool, hpool, htrades.swap⟩
    obtain ⟨b, hb, hkey'⟩ := (hkeys _).mpr ⟨pool', hpool', htrades'⟩
    have hab : a.target = b.source := by
      refine hw.node_unique (hg.target a ha) ?_
      rw [show a.weight.tokenOut.address = b.weight.tokenIn.address by
        have h1 := congrArg (·.2.2) hkey
        have h2 := congrArg (·.2.1) hkey'
        exact h1.trans (hin.trans h2.symm)]
      exact hg.source b hb
    have hends : a.weight.tokenIn.address ≠ b.weight.tokenOut.address := by
      have h1 := congrArg (·.2.1) hkey
      have h2 := congrArg (·.2.2) hkey'
      intro h
      exact hne (h1.symm.trans (h.trans h2))
    have hnodes : a.source ≠ b.target := by
      intro h
      have := hg.source a ha
      rw [h, hg.target b hb, Option.some_inj] at this
      exact hends this.symm
    obtain ⟨path, hpath, a', ha', b', hb', hsa, htb, heq⟩ :=
      PathFinder.exists_mem_misprices (P := P) hw hstart hend ha hb hab hnodes
    have hopen := ((isClosedPath_congr heq).mp (hall path (List.mem_append_right _ hpath))).closed
    rw [pathOf] at hopen
    have htok : b'.weight.tokenOut.address = a'.weight.tokenIn.address := Option.some.inj hopen
    have h1 := hg.source a' ha'
    have h2 := hg.target b' hb'
    rw [hsa, hg.source a ha, Option.some_inj] at h1
    rw [htb, hg.target b hb, Option.some_inj] at h2
    exact hends (h1.trans (htok.symm.trans h2.symm))
  · intro hsingle path hpath
    rcases List.mem_append.mp hpath with hpath | hpath
    · exact hclosed path hpath
    · obtain ⟨a, ha, b, hb, hab, hne, -⟩ := PathFinder.exists_of_mem_misprices hpath
      exact absurd (hsingle.target_eq ha hb hab) hne

theorem scanPaths_closed_iff_twoPools :
    ∃ bound, ∀ fuel ≥ bound, ∃ paths,
      (PathFinder.new twoPools PathConstraints.default).scanPaths Petgraph.newestFirst fuel =
        some paths ∧
      ((∀ path ∈ paths, IsClosedPath path) ↔ SinglePartner twoPools) :=
  scanPaths_closed_iff Petgraph.newestFirst twoPools PathConstraints.default rfl rfl

/-- Two pools of different pairs with a token in common. -/
def twoPairs : StateSpace :=
  .ofState ((AList.insert 11 (.uniswapV2Pool ⟨11, ⟨1, 6⟩, ⟨2, 18⟩, 100, 100, 300⟩) ∅).insert 12
    (.uniswapV2Pool ⟨12, ⟨2, 18⟩, ⟨3, 18⟩, 100, 90, 300⟩))

/-- A misprice from token 1 to token 3. -/
theorem scanPaths_twoPairs_open : ∃ paths,
    (PathFinder.new twoPairs PathConstraints.default).scanPaths Petgraph.newestFirst 625 =
      some paths ∧ ∃ path ∈ paths, ¬ IsClosedPath path := by
  refine ⟨_, rfl, ⟨[⟨11, 1, 2, 30⟩, ⟨12, 2, 3, 30⟩]⟩, by decide, ?_⟩
  intro h
  exact absurd h.closed (by decide)

end ArbitrageBot
