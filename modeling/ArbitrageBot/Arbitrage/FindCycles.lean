import ArbitrageBot.Arbitrage.PathFinder
import ArbitrageBot.Lib.Cycles
import Mathlib.Algebra.Group.Action.Defs
import Mathlib.Algebra.Order.BigOperators.Group.List

/-!
# `find_cycles` finds the cycles of the pools

Each entry of the queue is a walk of the pool graph without a repeated token, and every such walk
within the length bound comes to the front of the queue. So the search from the node of a token
finds the simple cycles through the token, and the searches together find each cycle of hops once.
-/

namespace ArbitrageBot

open Lib

/-! ## The search from one node -/

/-- The path of a list of edges. -/
def pathOf (edges : List PoolEdge) : ArbitragePath :=
  ⟨edges.map fun edge =>
    ⟨edge.poolAddress, edge.tokenIn.address, edge.tokenOut.address, edge.feeBps⟩⟩

theorem convertEdges_append (edges : List PoolEdge) (edge : PoolEdge) :
    convertEdges (edges ++ [edge]) = some (pathOf (edges ++ [edge])) := by
  unfold convertEdges
  rw [if_neg (by simp)]
  rfl

theorem pathOf_keys (edges : List PoolEdge) : (pathOf edges).keys = edges.map (·.key) := by
  simp [pathOf, ArbitragePath.keys, PathHop.key, PoolEdge.key, Function.comp_def]

/-- Walks in a pool graph, from token to token. -/
abbrev PoolWalk (g : DiGraph Address PoolEdge) : Address → List PoolEdge → Address → Prop :=
  Walk (·.tokenIn.address) (·.tokenOut.address) fun e => ∃ edge ∈ g.edges, edge.weight = e

namespace PathFinder

/-- The graph of the finder is well formed and its token map gives the tokens of the nodes. -/
structure WellFormed (finder : PathFinder) : Prop extends finder.graph.graph.WellFormed where
  tokens : ∀ n, finder.graph.tokenOf n = finder.graph.graph.nodes[n]?

section Search

variable {P : Petgraph Address PoolEdge} {self : PathFinder} {start : NodeIndex}
  {startToken : Address} {item : Frontier}

theorem mem_edgesOf {edge : Edge PoolEdge} : edge ∈ self.edgesOf P item ↔
    item.path.length < self.constraints.maxLength ∧ edge ∈ self.graph.graph.edges ∧
      edge.source = item.node := by
  unfold edgesOf
  by_cases h : item.path.length ≥ self.constraints.maxLength
  · rw [if_pos h]
    simp [Nat.not_lt.mpr h]
  · rw [if_neg h, P.mem_edges]
    simp [Nat.not_le.mp h]

variable (hw : self.WellFormed)
include hw

/-- An edge is passed over when its target was seen, closes a cycle at the start, and extends the
path elsewhere. -/
theorem WellFormed.visitEdge_eq {edge : Edge PoolEdge} (he : edge ∈ self.graph.graph.edges) :
    self.visitEdge start item edge =
      if edge.target = start then
        if pathMatchesConstraints (pathOf (item.path ++ [edge.weight])) self.constraints then
          .cycle (pathOf (item.path ++ [edge.weight]))
        else .skip
      else if self.constraints.allowSelfCycle = false ∧
          edge.weight.tokenOut.address ∈ item.tokensSeen then .skip
      else .push ⟨edge.target, item.path ++ [edge.weight],
        item.tokensSeen.insert edge.weight.tokenOut.address⟩ := by
  unfold visitEdge
  rw [hw.tokens, hw.target edge he]
  by_cases ht : edge.target = start
  · simp [ht, convertEdges_append]
  · cases self.constraints.allowSelfCycle <;> simp [ht]

theorem WellFormed.mem_pushed {item' : Frontier} : item' ∈ self.pushed P start item ↔
    ∃ edge ∈ self.edgesOf P item, edge.target ≠ start ∧
      (self.constraints.allowSelfCycle = false →
        edge.weight.tokenOut.address ∉ item.tokensSeen) ∧
      item' = ⟨edge.target, item.path ++ [edge.weight],
        item.tokensSeen.insert edge.weight.tokenOut.address⟩ := by
  unfold pushed
  rw [List.mem_filterMap]
  apply exists_congr
  intro edge
  apply and_congr_right
  intro he
  rw [hw.visitEdge_eq (mem_edgesOf.mp he).2.1]
  by_cases ht : edge.target = start
  · by_cases hm : pathMatchesConstraints (pathOf (item.path ++ [edge.weight])) self.constraints <;>
      simp [ht, hm]
  · by_cases hs : self.constraints.allowSelfCycle = false ∧
        edge.weight.tokenOut.address ∈ item.tokensSeen
    · simp [ht, hs]
    · rw [if_neg ht, if_neg hs]
      constructor
      · intro h
        exact ⟨ht, not_and.mp hs, (Option.some.inj h).symm⟩
      · rintro ⟨-, -, rfl⟩
        rfl

theorem WellFormed.mem_closed {path : ArbitragePath} : path ∈ self.closed P start item ↔
    ∃ edge ∈ self.edgesOf P item, edge.target = start ∧
      path = pathOf (item.path ++ [edge.weight]) ∧
      pathMatchesConstraints path self.constraints = true := by
  unfold closed
  rw [List.mem_filterMap]
  apply exists_congr
  intro edge
  apply and_congr_right
  intro he
  rw [hw.visitEdge_eq (mem_edgesOf.mp he).2.1]
  by_cases ht : edge.target = start
  · by_cases hm : pathMatchesConstraints (pathOf (item.path ++ [edge.weight])) self.constraints
    · rw [if_pos ht, if_pos hm]
      constructor
      · intro h
        obtain rfl := Option.some.inj h
        exact ⟨ht, rfl, hm⟩
      · rintro ⟨-, rfl, -⟩
        rfl
    · rw [if_pos ht, if_neg hm]
      constructor
      · intro h
        cases h
      · rintro ⟨-, rfl, hm'⟩
        exact absurd hm' hm
  · by_cases hs : self.constraints.allowSelfCycle = false ∧
        edge.weight.tokenOut.address ∈ item.tokensSeen <;> simp [ht, hs]

end Search

/-- What holds of every entry of the queue in a search from a token. -/
structure Searching (finder : PathFinder) (startToken : Address) (item : Frontier) (v : Address) :
    Prop where
  node : finder.graph.graph.nodes[item.node]? = some v
  walk : PoolWalk finder.graph.graph startToken item.path v
  length_le : item.path.length ≤ finder.constraints.maxLength
  simple : finder.constraints.allowSelfCycle = false →
    (startToken :: item.path.map (·.tokenOut.address)).Nodup
  seen : ∀ t, t ∈ item.tokensSeen ↔ t ∈ startToken :: item.path.map (·.tokenOut.address)

section Search

variable {P : Petgraph Address PoolEdge} {self : PathFinder} {start : NodeIndex}
  {startToken v : Address} {item item' : Frontier} (hw : self.WellFormed)

theorem searching_start (hs : self.graph.graph.nodes[start]? = some startToken) :
    Searching self startToken ⟨start, [], [startToken]⟩ startToken where
  node := hs
  walk := Walk.nil
  length_le := Nat.zero_le _
  simple := by simp
  seen := by simp

include hw

/-- One push keeps the invariant of the queue. -/
theorem Searching.push (h : Searching self startToken item v)
    (hmem : item' ∈ self.pushed P start item) : ∃ v', Searching self startToken item' v' := by
  obtain ⟨edge, hedge, -, hseen, rfl⟩ := (hw.mem_pushed).mp hmem
  obtain ⟨hlt, he, hsource⟩ := mem_edgesOf.mp hedge
  have htokenIn : edge.weight.tokenIn.address = v := by
    have := hw.source edge he
    rw [hsource, h.node, Option.some_inj] at this
    exact this.symm
  refine ⟨_, hw.target edge he, Walk.snoc h.walk ⟨edge, he, rfl⟩ htokenIn, ?_, ?_, ?_⟩
  · rw [List.length_append, List.length_singleton]
    omega
  · intro hallow
    rw [List.map_append, ← List.cons_append, List.nodup_append]
    refine ⟨h.simple hallow, List.nodup_singleton _, ?_⟩
    intro a ha b hb hab
    rw [List.map_singleton, List.mem_singleton] at hb
    subst hb hab
    exact hseen hallow ((h.seen _).mpr ha)
  · intro t
    rw [List.mem_insert_iff, h.seen, List.map_append, ← List.cons_append, List.mem_append,
      List.map_singleton, List.mem_singleton, or_comm]

theorem Searching.reach (hs : self.graph.graph.nodes[start]? = some startToken)
    (hreach : Worklist.Reach (self.pushed P start) ⟨start, [], [startToken]⟩ item) :
    ∃ v, Searching self startToken item v := by
  induction hreach with
  | refl => exact ⟨startToken, searching_start hs⟩
  | tail _ hstep ih =>
    obtain ⟨v, h⟩ := ih
    exact h.push hw hstep

/-- Two nodes of one token are one node. -/
theorem WellFormed.node_unique {n m : NodeIndex} {t : Address}
    (hn : self.graph.graph.nodes[n]? = some t) (hm : self.graph.graph.nodes[m]? = some t) :
    n = m := by
  obtain ⟨hlt, -⟩ := List.getElem?_eq_some_iff.mp hn
  exact (List.getElem?_inj hlt hw.nodup).mp (hn.trans hm.symm)

/-- Every walk without repetition comes to the front of the queue. -/
theorem reach_of_walk (hs : self.graph.graph.nodes[start]? = some startToken) {p : List PoolEdge}
    (hwalk : PoolWalk self.graph.graph startToken p v)
    (hnodup : (startToken :: p.map (·.tokenOut.address)).Nodup)
    (hlen : p.length ≤ self.constraints.maxLength) :
    ∃ item, Worklist.Reach (self.pushed P start) ⟨start, [], [startToken]⟩ item ∧
      item.path = p ∧ self.graph.graph.nodes[item.node]? = some v := by
  induction hwalk with
  | nil => exact ⟨_, Relation.ReflTransGen.refl, rfl, hs⟩
  | @snoc p v e hp hE hsrc ih =>
    obtain ⟨edge, he, rfl⟩ := hE
    rw [List.map_append, ← List.cons_append, List.nodup_append] at hnodup
    obtain ⟨hnodup, -, hnew⟩ := hnodup
    rw [List.length_append, List.length_singleton] at hlen
    obtain ⟨item, hreach, rfl, hnode⟩ := ih hnodup (by omega)
    obtain ⟨_, hsearch⟩ := Searching.reach hw hs hreach
    have hfresh : edge.weight.tokenOut.address ∉
        startToken :: item.path.map (·.tokenOut.address) := fun hmem =>
      hnew _ hmem _ (by simp) rfl
    have hsource : edge.source = item.node := hw.node_unique (hsrc ▸ hw.source edge he) hnode
    refine ⟨_, hreach.tail
      (hw.mem_pushed.mpr ⟨edge, mem_edgesOf.mpr ⟨by omega, he, hsource⟩, ?_, ?_,
      rfl⟩), rfl, hw.target edge he⟩
    · rintro rfl
      have htok := (hw.target edge he).symm.trans hs
      rw [Option.some_inj] at htok
      exact hfresh (htok ▸ List.mem_cons_self)
    · exact fun _ hmem => hfresh ((hsearch.seen _).mp hmem)

/-- The entries pushed from an entry weigh less than it, in powers of the number of edges. -/
theorem sum_pushed_lt (item : Frontier) :
    ((self.pushed P start item).map fun item =>
      (self.graph.graph.edges.length + 1) ^
        (self.constraints.maxLength - item.path.length)).sum <
      (self.graph.graph.edges.length + 1) ^
        (self.constraints.maxLength - item.path.length) := by
  by_cases hlt : item.path.length < self.constraints.maxLength
  · obtain ⟨k, hk⟩ : ∃ k, self.constraints.maxLength - item.path.length = k + 1 :=
      ⟨self.constraints.maxLength - item.path.length - 1, by omega⟩
    have hbound : ∀ x ∈ (self.pushed P start item).map fun item =>
        (self.graph.graph.edges.length + 1) ^ (self.constraints.maxLength - item.path.length),
        x ≤ (self.graph.graph.edges.length + 1) ^ k := by
      intro x hx
      obtain ⟨item', hitem', rfl⟩ := List.mem_map.mp hx
      obtain ⟨edge, -, -, -, rfl⟩ := hw.mem_pushed.mp hitem'
      refine Nat.pow_le_pow_right (by omega) ?_
      simp only [List.length_append, List.length_singleton]
      omega
    have hcount : (self.pushed P start item).length ≤ self.graph.graph.edges.length := by
      refine (List.length_filterMap_le _ _).trans ?_
      unfold edgesOf
      split
      · exact Nat.zero_le _
      · exact P.length_edges_le _ _
    have hsum := List.sum_le_card_nsmul _ _ hbound
    rw [List.length_map, smul_eq_mul] at hsum
    rw [hk]
    calc _ ≤ (self.pushed P start item).length * (self.graph.graph.edges.length + 1) ^ k := hsum
      _ ≤ self.graph.graph.edges.length * (self.graph.graph.edges.length + 1) ^ k :=
        Nat.mul_le_mul_right _ hcount
      _ < (self.graph.graph.edges.length + 1) * (self.graph.graph.edges.length + 1) ^ k :=
        Nat.mul_lt_mul_of_pos_right (Nat.lt_succ_self _) (Nat.pow_pos (Nat.succ_pos _))
      _ = (self.graph.graph.edges.length + 1) ^ (k + 1) := by rw [pow_succ, Nat.mul_comm]
  · have hnone : self.pushed P start item = [] := by
      unfold pushed edgesOf
      rw [if_pos (by omega)]
      rfl
    rw [hnone]
    exact Nat.pow_pos (by omega)

end Search

section Search

variable {P : Petgraph Address PoolEdge} {self : PathFinder} {start : NodeIndex}
  {path : ArbitragePath} {q : List PoolEdge}

/-- The required tokens of a path, in terms of its ends. -/
theorem pathMatchesConstraints_pathOf (q : List PoolEdge) (c : PathConstraints) :
    pathMatchesConstraints (pathOf q) c = true ↔
      (∀ t ∈ c.requiredStartToken, q.head?.map (·.tokenIn.address) = some t) ∧
      ∀ t ∈ c.requiredEndToken, q.getLast?.map (·.tokenOut.address) = some t := by
  unfold pathMatchesConstraints pathOf
  rw [Bool.and_eq_true, List.head?_map, List.getLast?_map]
  refine and_congr ?_ ?_
  · cases c.requiredStartToken with
    | none => simp
    | some t => cases q.head? <;> simp
  · cases c.requiredEndToken with
    | none => simp
    | some t => cases q.getLast? <;> simp

/-- The search from `start` closes a cycle with this path. -/
def FoundFrom (P : Petgraph Address PoolEdge) (self : PathFinder) (start : NodeIndex)
    (path : ArbitragePath) : Prop :=
  ∃ startToken, self.graph.graph.nodes[start]? = some startToken ∧
    (∀ t ∈ self.constraints.requiredStartToken, t = startToken) ∧
    ∃ item, Worklist.Reach (self.pushed P start) ⟨start, [], [startToken]⟩ item ∧
      path ∈ self.closed P start item

variable (hw : self.WellFormed)
include hw

/-- The search from one node ends and adds what it closes. -/
theorem findCyclesFrom_spec {fuel : Nat}
    (hfuel : (self.graph.graph.edges.length + 1) ^ self.constraints.maxLength ≤ fuel)
    (cycles : List ArbitragePath) (start : NodeIndex) :
    ∃ res, self.findCyclesFrom P fuel cycles start = some res ∧
      ∀ path, path ∈ res ↔ path ∈ cycles ∨ FoundFrom P self start path := by
  unfold findCyclesFrom FoundFrom
  rw [hw.tokens]
  cases hs : self.graph.graph.nodes[start]? with
  | none => exact ⟨cycles, rfl, by simp⟩
  | some startToken =>
    by_cases hreq : self.constraints.requiredStartToken.any (· ≠ startToken) = true
    · refine ⟨cycles, if_pos hreq, fun path => ⟨Or.inl, ?_⟩⟩
      rintro (hpath | ⟨token, htoken, hstart, -⟩)
      · exact hpath
      · obtain rfl := Option.some.inj htoken
        rw [Option.any_eq_true] at hreq
        obtain ⟨t, ht, hne⟩ := hreq
        exact absurd (hstart t ht) (by simpa using hne)
    · have hstart : ∀ t ∈ self.constraints.requiredStartToken, t = startToken := by
        intro t ht
        by_contra hne
        exact hreq ((Option.any_eq_true _ _).mpr ⟨t, ht, by simpa using hne⟩)
      have hend : ∃ res, Worklist.run (self.pushed P start) (self.closed P start) fuel
          [⟨start, [], [startToken]⟩] cycles = some res :=
        Worklist.run_total _ (sum_pushed_lt hw) cycles (by simpa using hfuel)
      obtain ⟨res, hres⟩ := hend
      refine ⟨res, (if_neg hreq).trans hres, fun path => ?_⟩
      rw [Worklist.mem_run hres]
      apply or_congr_right
      simp only [List.mem_singleton, exists_eq_left]
      constructor
      · exact fun h => ⟨startToken, rfl, hstart, h⟩
      · rintro ⟨token, htoken, -, h⟩
        obtain rfl := Option.some.inj htoken
        exact h

/-- What a search closes is a closed walk within the length bound, without repetition unless
self cycles are allowed. -/
theorem FoundFrom.sound (h : FoundFrom P self start path) :
    ∃ q, path = pathOf q ∧ q.length ≤ self.constraints.maxLength ∧
      IsClosedWalk (·.tokenIn.address) (·.tokenOut.address)
        (fun e => ∃ edge ∈ self.graph.graph.edges, edge.weight = e) q ∧
      (self.constraints.allowSelfCycle = false → (q.map (·.tokenIn.address)).Nodup) ∧
      pathMatchesConstraints path self.constraints = true := by
  obtain ⟨startToken, hs, -, item, hreach, hclosed⟩ := h
  obtain ⟨v, hsearch⟩ := Searching.reach hw hs hreach
  obtain ⟨edge, hedge, rfl, hpath, hmatch⟩ := hw.mem_closed.mp hclosed
  obtain ⟨hlt, he, hsource⟩ := mem_edgesOf.mp hedge
  have htokenIn : edge.weight.tokenIn.address = v := by
    have := hw.source edge he
    rw [hsource, hsearch.node, Option.some_inj] at this
    exact this.symm
  have htokenOut : edge.weight.tokenOut.address = startToken := by
    have := hw.target edge he
    rw [hs, Option.some_inj] at this
    exact this.symm
  refine ⟨_, hpath, ?_, isClosedWalk_iff.mpr ⟨startToken, item.path, edge.weight, rfl,
    htokenIn ▸ hsearch.walk, ⟨edge, he, rfl⟩, htokenOut⟩, ?_, hmatch⟩
  · rw [List.length_append, List.length_singleton]
    exact hlt
  · intro hallow
    rw [List.map_append, List.map_singleton, htokenIn, hsearch.walk.map_src]
    exact hsearch.simple hallow

/-- Every simple cycle within the length bound that has the required tokens is closed by the
search from where it starts. -/
theorem FoundFrom.complete
    (hq : IsClosedWalk (·.tokenIn.address) (·.tokenOut.address)
      (fun e => ∃ edge ∈ self.graph.graph.edges, edge.weight = e) q)
    (hnodup : (q.map (·.tokenIn.address)).Nodup) (hlen : q.length ≤ self.constraints.maxLength)
    (hmatch : pathMatchesConstraints (pathOf q) self.constraints = true) :
    ∃ start ∈ self.graph.graph.nodeIndices, FoundFrom P self start (pathOf q) := by
  have hclosed := hq.closed
  obtain ⟨s, p, e, rfl, hwalk, hsimple, ⟨edge, he, rfl⟩, rfl⟩ := isSimpleCycle_iff.mp ⟨hq, hnodup⟩
  have hs := hw.target edge he
  rw [List.length_append, List.length_singleton] at hlen
  obtain ⟨item, hreach, rfl, hnode⟩ := reach_of_walk (P := P) hw hs hwalk hsimple (by omega)
  refine ⟨edge.target, ?_, edge.weight.tokenOut.address, hs, ?_, item, hreach, hw.mem_closed.mpr
    ⟨edge, mem_edgesOf.mpr ⟨by omega, he, hw.node_unique (hw.source edge he) hnode⟩, rfl, rfl,
      hmatch⟩⟩
  · obtain ⟨hlt, -⟩ := List.getElem?_eq_some_iff.mp hs
    exact List.mem_range.mpr hlt
  · intro t ht
    have hhead := ((pathMatchesConstraints_pathOf _ _).mp hmatch).1 t ht
    rw [← hclosed, List.getLast?_append_cons, List.getLast?_singleton, Option.map_some,
      Option.some_inj] at hhead
    exact hhead.symm

/-- The search over all nodes ends and returns what the single searches close, once for each
sequence of hops. -/
theorem findCycles_total {fuel : Nat}
    (hfuel : (self.graph.graph.edges.length + 1) ^ self.constraints.maxLength ≤ fuel) :
    ∃ paths, self.findCycles P fuel = some paths ∧ (paths.map (·.keys)).Nodup ∧
      (∀ keys, keys ∈ paths.map (·.keys) ↔ ∃ start ∈ self.graph.graph.nodeIndices,
        ∃ path, FoundFrom P self start path ∧ path.keys = keys) ∧
      ∀ path ∈ paths, ∃ start, FoundFrom P self start path := by
  obtain ⟨res, hres, hmem⟩ := Worklist.foldlM_total (findCyclesFrom_spec (P := P) hw hfuel)
    self.graph.graph.nodeIndices []
  refine ⟨uniqueBy (·.keys) res, ?_, uniqueBy_nodup _ _, ?_, ?_⟩
  · unfold findCycles
    rw [hres]
    rfl
  · intro keys
    rw [mem_map_uniqueBy, List.mem_map]
    constructor
    · rintro ⟨path, hpath, rfl⟩
      obtain ⟨start, hstart, hfound⟩ := ((hmem path).mp hpath).resolve_left (by simp)
      exact ⟨start, hstart, path, hfound, rfl⟩
    · rintro ⟨start, hstart, path, hfound, rfl⟩
      exact ⟨path, (hmem path).mpr (Or.inr ⟨start, hstart, hfound⟩), rfl⟩
  · intro path hpath
    obtain ⟨start, -, hfound⟩ :=
      ((hmem path).mp (mem_of_mem_uniqueBy _ hpath)).resolve_left (by simp)
    exact ⟨start, hfound⟩

end Search

end PathFinder

/-! ## The cycles of a state space -/

/-- The hop sequences of the pools of a state space that are cycles within the constraints. A hop
is `(pool, token_in, token_out)`. -/
structure IsCycle (stateSpace : StateSpace) (constraints : PathConstraints)
    (hops : List (Address × Address × Address)) : Prop where
  length_pos : 1 ≤ hops.length
  length_le : hops.length ≤ constraints.maxLength
  trades : ∀ hop ∈ hops, ∃ pool ∈ stateSpace.state.values, Trades pool hop
  chain : hops.IsChain fun a b => a.2.2 = b.2.1
  closed : hops.getLast?.map (·.2.2) = hops.head?.map (·.2.1)
  distinct : (hops.map (·.2.1)).Nodup
  start : ∀ t ∈ constraints.requiredStartToken, hops.head?.map (·.2.1) = some t
  finish : ∀ t ∈ constraints.requiredEndToken, hops.getLast?.map (·.2.2) = some t

/-- The finder on the graph of a state space. -/
def PathFinder.new (stateSpace : StateSpace) (constraints : PathConstraints) : PathFinder :=
  ⟨buildGraph stateSpace, constraints⟩

theorem PathFinder.wellFormed_new (stateSpace : StateSpace) (constraints : PathConstraints) :
    (PathFinder.new stateSpace constraints).WellFormed where
  toWellFormed := (buildGraph_spec stateSpace).1
  tokens := (buildGraph_spec stateSpace).2.1

/-- Lists of edges with given keys. -/
theorem exists_edges_iff {stateSpace : StateSpace} (hops : List (Address × Address × Address)) :
    (∃ q : List PoolEdge,
      (∀ e ∈ q, ∃ edge ∈ (buildGraph stateSpace).graph.edges, edge.weight = e) ∧
        q.map (·.key) = hops) ↔
      ∀ hop ∈ hops, ∃ pool ∈ stateSpace.state.values, Trades pool hop := by
  induction hops with
  | nil =>
    simp only [List.map_eq_nil_iff, List.not_mem_nil, false_implies, implies_true, iff_true]
    exact ⟨[], by simp, rfl⟩
  | cons hop hops ih =>
    rw [List.forall_mem_cons, ← ih, ← (buildGraph_spec stateSpace).2.2]
    constructor
    · rintro ⟨q, hq, hmap⟩
      cases q with
      | nil => cases hmap
      | cons e q =>
        rw [List.map_cons, List.cons.injEq] at hmap
        rw [List.forall_mem_cons] at hq
        obtain ⟨⟨edge, he, rfl⟩, hq⟩ := hq
        exact ⟨⟨edge, he, hmap.1⟩, q, hq, hmap.2⟩
    · rintro ⟨⟨edge, he, hkey⟩, q, hq, hmap⟩
      refine ⟨edge.weight :: q, ?_, by rw [List.map_cons, hkey, hmap]⟩
      rw [List.forall_mem_cons]
      exact ⟨⟨edge, he, rfl⟩, hq⟩

/-- A list of edges is a simple cycle with the required tokens exactly when its keys are. -/
theorem isCycle_keys_iff {stateSpace : StateSpace} {constraints : PathConstraints}
    {q : List PoolEdge}
    (hq : ∀ e ∈ q, ∃ edge ∈ (buildGraph stateSpace).graph.edges, edge.weight = e) :
    IsCycle stateSpace constraints (q.map (·.key)) ↔
      IsClosedWalk (·.tokenIn.address) (·.tokenOut.address)
        (fun e => ∃ edge ∈ (buildGraph stateSpace).graph.edges, edge.weight = e) q ∧
      (q.map (·.tokenIn.address)).Nodup ∧ q.length ≤ constraints.maxLength ∧
      pathMatchesConstraints (pathOf q) constraints = true := by
  rw [PathFinder.pathMatchesConstraints_pathOf]
  constructor
  · rintro ⟨hpos, hle, -, hchain, hclosed, hdistinct, hstart, hfinish⟩
    rw [List.length_map] at hpos hle
    rw [List.isChain_map] at hchain
    rw [List.map_map] at hdistinct
    simp only [List.getLast?_map, List.head?_map, Option.map_map] at hclosed hstart hfinish
    exact ⟨⟨List.length_pos_iff.mp hpos, hq, hchain, hclosed⟩, hdistinct, hle, hstart, hfinish⟩
  · rintro ⟨⟨hne, -, hchain, hclosed⟩, hdistinct, hle, hstart, hfinish⟩
    refine ⟨?_, ?_, (exists_edges_iff _).mp ⟨q, hq, rfl⟩, ?_, ?_, ?_, ?_, ?_⟩
    · rw [List.length_map]
      exact List.length_pos_iff.mpr hne
    · rw [List.length_map]
      exact hle
    · rw [List.isChain_map]
      exact hchain
    · simp only [List.getLast?_map, List.head?_map, Option.map_map]
      exact hclosed
    · rw [List.map_map]
      exact hdistinct
    · simp only [List.head?_map, Option.map_map]
      exact hstart
    · simp only [List.getLast?_map, Option.map_map]
      exact hfinish

/-- What the finder returns on the graph of a state space, with fuel for all its edges. -/
theorem findCycles_keys (P : Petgraph Address PoolEdge) (stateSpace : StateSpace)
    (constraints : PathConstraints) (hallow : constraints.allowSelfCycle = false) {fuel : Nat}
    (hfuel : ((buildGraph stateSpace).graph.edges.length + 1) ^ constraints.maxLength ≤ fuel) :
    ∃ paths, (PathFinder.new stateSpace constraints).findCycles P fuel = some paths ∧
      (paths.map (·.keys)).Nodup ∧
      ∀ hops, hops ∈ paths.map (·.keys) ↔ IsCycle stateSpace constraints hops := by
  have hw := PathFinder.wellFormed_new stateSpace constraints
  obtain ⟨paths, hpaths, hnodup, hmem, -⟩ := PathFinder.findCycles_total (P := P) hw hfuel
  refine ⟨paths, hpaths, hnodup, fun hops => (hmem hops).trans ?_⟩
  constructor
  · rintro ⟨start, -, path, hfound, rfl⟩
    obtain ⟨q, rfl, hlen, hclosed, hsimple, hmatch⟩ := hfound.sound hw
    rw [pathOf_keys]
    exact (isCycle_keys_iff hclosed.edges).mpr ⟨hclosed, hsimple hallow, hlen, hmatch⟩
  · intro hcycle
    obtain ⟨q, hq, rfl⟩ := (exists_edges_iff hops).mpr hcycle.trades
    obtain ⟨hclosed, hdistinct, hlen, hmatch⟩ := (isCycle_keys_iff hq).mp hcycle
    obtain ⟨start, hstart, hfound⟩ :=
      PathFinder.FoundFrom.complete (P := P) hw hclosed hdistinct hlen hmatch
    exact ⟨start, hstart, pathOf q, hfound, pathOf_keys q⟩

/-- **`find_cycles` after `build_graph` is sound and complete**: with enough fuel it returns, and
the hop sequences it returns are the cycles of the state space, each once. -/
theorem findCycles_buildGraph (P : Petgraph Address PoolEdge) (stateSpace : StateSpace)
    (constraints : PathConstraints) (hallow : constraints.allowSelfCycle = false) :
    ∃ bound, ∀ fuel ≥ bound, ∃ paths,
      (PathFinder.new stateSpace constraints).findCycles P fuel = some paths ∧
      (paths.map (·.keys)).Nodup ∧
      ∀ hops, hops ∈ paths.map (·.keys) ↔ IsCycle stateSpace constraints hops :=
  ⟨((buildGraph stateSpace).graph.edges.length + 1) ^ constraints.maxLength,
    fun _ hfuel => findCycles_keys P stateSpace constraints hallow hfuel⟩

/-- Two pools of one pair of tokens. -/
def twoPools : StateSpace :=
  .ofState ((AList.insert 11 (.uniswapV2Pool ⟨11, ⟨1, 6⟩, ⟨2, 18⟩, 100, 100, 300⟩) ∅).insert 12
    (.uniswapV2Pool ⟨12, ⟨2, 18⟩, ⟨1, 6⟩, 100, 90, 300⟩))

theorem findCycles_buildGraph_twoPools :
    ∃ bound, ∀ fuel ≥ bound, ∃ paths,
      (PathFinder.new twoPools PathConstraints.default).findCycles Petgraph.newestFirst fuel =
        some paths ∧
      (paths.map (·.keys)).Nodup ∧
      ∀ hops, hops ∈ paths.map (·.keys) ↔ IsCycle twoPools PathConstraints.default hops :=
  findCycles_buildGraph Petgraph.newestFirst twoPools PathConstraints.default rfl

end ArbitrageBot
