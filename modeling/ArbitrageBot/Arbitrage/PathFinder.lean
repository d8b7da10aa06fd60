import ArbitrageBot.Arbitrage.Graph
import ArbitrageBot.Lib.Worklist

/-!
# Path enumeration

`find_cycles` searches breadth-first from every node for paths back to it; `find_two_pool_misprices`
joins every edge into a node with every edge out of it.
-/

namespace ArbitrageBot

open Lib

structure PathHop where
  poolAddress : Address
  tokenIn : Address
  tokenOut : Address
  feeBps : Nat
  deriving DecidableEq, Repr

def PathHop.key (self : PathHop) : Address × Address × Address :=
  (self.poolAddress, self.tokenIn, self.tokenOut)

structure ArbitragePath where
  hops : List PathHop
  deriving DecidableEq, Repr

/-- What `unique_by` compares paths by. -/
def ArbitragePath.keys (self : ArbitragePath) : List (Address × Address × Address) :=
  self.hops.map (·.key)

structure PathConstraints where
  maxLength : Nat
  allowSelfCycle : Bool
  requiredStartToken : Option Address
  requiredEndToken : Option Address

/-- `PathConstraints::default()`. -/
def PathConstraints.default : PathConstraints where
  maxLength := 4
  allowSelfCycle := false
  requiredStartToken := none
  requiredEndToken := none

def convertEdges (edges : List PoolEdge) : Option ArbitragePath :=
  if edges.isEmpty then none
  else some ⟨edges.map fun edge =>
    ⟨edge.poolAddress, edge.tokenIn.address, edge.tokenOut.address, edge.feeBps⟩⟩

def pathMatchesConstraints (path : ArbitragePath) (constraints : PathConstraints) : Bool :=
  (match constraints.requiredStartToken with
    | none => true
    | some requiredStart =>
      match path.hops.head? with
      | some firstHop => firstHop.tokenIn == requiredStart
      | none => false) &&
  match constraints.requiredEndToken with
  | none => true
  | some requiredEnd =>
    match path.hops.getLast? with
    | some lastHop => lastHop.tokenOut == requiredEnd
    | none => false

/-- `unique_by` of the iterator library: the first item of each key. -/
def uniqueBy {α κ : Type} [DecidableEq κ] (key : α → κ) (items : List α) : List α :=
  items.foldl (fun acc item => if key item ∈ acc.map key then acc else acc ++ [item]) []

structure PathFinder where
  graph : PoolGraph
  constraints : PathConstraints

/-- An entry of the queue: the node, the path to it and the tokens seen. -/
structure Frontier where
  node : NodeIndex
  path : List PoolEdge
  tokensSeen : List Address

namespace PathFinder

/-- What the search does at an edge. -/
inductive Visit where
  | skip
  | cycle (path : ArbitragePath)
  | push (item : Frontier)

def visitEdge (self : PathFinder) (start : NodeIndex) (item : Frontier) (edge : Edge PoolEdge) :
    Visit :=
  match self.graph.tokenOf edge.target with
  | none => .skip
  | some targetToken =>
    if !self.constraints.allowSelfCycle && decide (targetToken ∈ item.tokensSeen) &&
        decide (edge.target ≠ start) then .skip
    else
      let newPath := item.path ++ [edge.weight]
      if edge.target = start then
        if self.constraints.allowSelfCycle || !newPath.isEmpty then
          match convertEdges newPath with
          | none => .skip
          | some path =>
            if pathMatchesConstraints path self.constraints then .cycle path else .skip
        else .skip
      else .push ⟨edge.target, newPath, item.tokensSeen.insert targetToken⟩

variable (P : Petgraph Address PoolEdge)

/-- The edges followed from an entry of the queue. -/
def edgesOf (self : PathFinder) (item : Frontier) : List (Edge PoolEdge) :=
  if item.path.length ≥ self.constraints.maxLength then []
  else P.edges self.graph.graph item.node

/-- The entries an entry pushes. -/
def pushed (self : PathFinder) (start : NodeIndex) (item : Frontier) : List Frontier :=
  (self.edgesOf P item).filterMap fun edge =>
    match self.visitEdge start item edge with
    | .push item => some item
    | _ => none

/-- The cycles an entry closes. -/
def closed (self : PathFinder) (start : NodeIndex) (item : Frontier) : List ArbitragePath :=
  (self.edgesOf P item).filterMap fun edge =>
    match self.visitEdge start item edge with
    | .cycle path => some path
    | _ => none

/-- The search from one node. -/
def findCyclesFrom (self : PathFinder) (fuel : Nat) (cycles : List ArbitragePath)
    (start : NodeIndex) : Option (List ArbitragePath) :=
  match self.graph.tokenOf start with
  | none => some cycles
  | some startToken =>
    if self.constraints.requiredStartToken.any (· ≠ startToken) then some cycles
    else
      Worklist.run (self.pushed P start) (self.closed P start) fuel [⟨start, [], [startToken]⟩]
        cycles

/-- `find_cycles`; `none` when some search needs more than `fuel` rounds. -/
def findCycles (self : PathFinder) (fuel : Nat) : Option (List ArbitragePath) :=
  (self.graph.graph.nodeIndices.foldlM (self.findCyclesFrom P fuel) []).map
    (uniqueBy (·.keys))

/-- The path of one pair of neighbours of a node, if there is one. -/
def twoPoolPath (self : PathFinder) (node inNeighbor outNeighbor : NodeIndex) :
    Option ArbitragePath :=
  if inNeighbor = outNeighbor then none
  else
    match P.findEdge self.graph.graph inNeighbor node,
        P.findEdge self.graph.graph node outNeighbor with
    | some inEdge, some outEdge =>
      match convertEdges [inEdge.weight, outEdge.weight] with
      | some path => if pathMatchesConstraints path self.constraints then some path else none
      | none => none
    | _, _ => none

def findTwoPoolMisprices (self : PathFinder) : List ArbitragePath :=
  uniqueBy (·.keys) <|
    self.graph.graph.nodeIndices.flatMap fun node =>
      (P.neighborsIncoming self.graph.graph node).flatMap fun inNeighbor =>
        (P.neighbors self.graph.graph node).filterMap fun outNeighbor =>
          self.twoPoolPath P node inNeighbor outNeighbor

end PathFinder

/-! ## `unique_by` -/

section UniqueBy

variable {α κ : Type} [DecidableEq κ] (key : α → κ)

/-- The items kept so far, their keys distinct, after a prefix of the items. -/
theorem uniqueBy_go (items acc : List α) (hacc : (acc.map key).Nodup) :
    ((items.foldl (fun acc item => if key item ∈ acc.map key then acc else acc ++ [item])
      acc).map key).Nodup ∧
    (∀ k, k ∈ (items.foldl (fun acc item => if key item ∈ acc.map key then acc else acc ++ [item])
      acc).map key ↔ k ∈ acc.map key ∨ k ∈ items.map key) ∧
    ∀ x ∈ items.foldl (fun acc item => if key item ∈ acc.map key then acc else acc ++ [item]) acc,
      x ∈ acc ∨ x ∈ items := by
  induction items generalizing acc with
  | nil => exact ⟨hacc, by simp, by simp⟩
  | cons item items ih =>
    rw [List.foldl_cons]
    by_cases hmem : key item ∈ acc.map key
    · rw [if_pos hmem]
      obtain ⟨h1, h2, h3⟩ := ih acc hacc
      refine ⟨h1, fun k => ?_, fun x hx => ?_⟩
      · rw [h2, List.map_cons, List.mem_cons]
        constructor
        · rintro (hk | hk)
          · exact Or.inl hk
          · exact Or.inr (Or.inr hk)
        · rintro (hk | rfl | hk)
          · exact Or.inl hk
          · exact Or.inl hmem
          · exact Or.inr hk
      · exact (h3 x hx).imp_right (List.mem_cons_of_mem _)
    · rw [if_neg hmem]
      have hacc' : ((acc ++ [item]).map key).Nodup := by
        rw [List.map_append, List.nodup_append]
        refine ⟨hacc, List.nodup_singleton _, ?_⟩
        intro a ha b hb hab
        rw [List.map_singleton, List.mem_singleton] at hb
        exact hmem (hb ▸ hab ▸ ha)
      obtain ⟨h1, h2, h3⟩ := ih (acc ++ [item]) hacc'
      refine ⟨h1, fun k => ?_, fun x hx => ?_⟩
      · rw [h2, List.map_append, List.mem_append, List.map_singleton, List.mem_singleton,
          List.map_cons, List.mem_cons, or_assoc]
      · rcases h3 x hx with hx | hx
        · rcases List.mem_append.mp hx with hx | hx
          · exact Or.inl hx
          · rw [List.mem_singleton] at hx
            exact Or.inr (hx ▸ List.mem_cons_self)
        · exact Or.inr (List.mem_cons_of_mem _ hx)

theorem uniqueBy_nodup (items : List α) : ((uniqueBy key items).map key).Nodup :=
  (uniqueBy_go key items [] List.nodup_nil).1

theorem mem_map_uniqueBy (items : List α) (k : κ) :
    k ∈ (uniqueBy key items).map key ↔ k ∈ items.map key := by
  refine ((uniqueBy_go key items [] List.nodup_nil).2.1 k).trans ?_
  simp

theorem mem_of_mem_uniqueBy {items : List α} {x : α} (h : x ∈ uniqueBy key items) : x ∈ items := by
  have hx := (uniqueBy_go key items [] List.nodup_nil).2.2 x h
  rwa [List.mem_nil_iff, false_or] at hx

end UniqueBy

end ArbitrageBot
