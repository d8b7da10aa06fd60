import ArbitrageBot.StateSpace.Sync

/-!
# The pool graph

Tokens are the nodes and every pool with known decimals gives an edge in each direction. The graph
library's storage is a list of nodes and a list of edges; in which order its iterators give the
edges of a node, and which of several parallel edges `find_edge` finds, is a parameter (`Petgraph`).
-/

namespace ArbitrageBot

/-! ## Pool edges -/

structure TokenState where
  address : Address
  decimals : UInt8
  deriving DecidableEq, Repr

inductive ArbitrageError where
  | missingTokenDecimals (token : Address)
  deriving DecidableEq, Repr

def TokenState.fromToken (token : Token) : Except ArbitrageError TokenState :=
  if token.decimals = 0 then .error (.missingTokenDecimals token.address)
  else .ok ⟨token.address, token.decimals⟩

structure PoolEdge where
  poolAddress : Address
  tokenIn : TokenState
  tokenOut : TokenState
  feeBps : Nat
  deriving DecidableEq, Repr

def PoolEdge.reversed (self : PoolEdge) : PoolEdge :=
  { self with tokenIn := self.tokenOut, tokenOut := self.tokenIn }

/-- What tells hops apart: `(pool_address, token_in, token_out)`. -/
def PoolEdge.key (self : PoolEdge) : Address × Address × Address :=
  (self.poolAddress, self.tokenIn.address, self.tokenOut.address)

structure PoolExtraction where
  tokenA : TokenState
  tokenB : TokenState
  feeBps : Nat

def PoolExtraction.intoEdges (self : PoolExtraction) (poolAddress : Address) :
    PoolEdge × PoolEdge :=
  let forward := ⟨poolAddress, self.tokenA, self.tokenB, self.feeBps⟩
  (forward, forward.reversed)

/-- The common body of the `extract_*` functions. -/
def extractTokens (tokenA tokenB : Token) (feeBps : Nat) :
    Except ArbitrageError PoolExtraction := do
  let tokenA ← TokenState.fromToken tokenA
  let tokenB ← TokenState.fromToken tokenB
  return { tokenA, tokenB, feeBps }

/-- `extract_pool`. V2 fees are scaled by `1e5`; the bin step stands in for a Moe fee. -/
def extractPool : AMM → Except ArbitrageError PoolExtraction
  | .uniswapV3Pool pool => extractTokens pool.tokenA pool.tokenB pool.fee
  | .agniPool pool => extractTokens pool.tokenA pool.tokenB pool.fee
  | .uniswapV2Pool pool => extractTokens pool.tokenA pool.tokenB (pool.fee % 2 ^ 32 / 10)
  | .moeLbPair pool => extractTokens pool.tokenX pool.tokenY pool.binStep

/-! ## The graph library -/

abbrev NodeIndex := Nat

structure Edge (ε : Type) where
  source : NodeIndex
  target : NodeIndex
  weight : ε

/-- A directed multigraph: node weights by index, edges in the order they were added. -/
structure DiGraph (ν ε : Type) where
  nodes : List ν
  edges : List (Edge ε)

namespace DiGraph

variable {ν ε : Type}

def addNode (self : DiGraph ν ε) (weight : ν) : NodeIndex × DiGraph ν ε :=
  (self.nodes.length, { self with nodes := self.nodes ++ [weight] })

def addEdge (self : DiGraph ν ε) (source target : NodeIndex) (weight : ε) : DiGraph ν ε :=
  { self with edges := self.edges ++ [⟨source, target, weight⟩] }

def nodeIndices (self : DiGraph ν ε) : List NodeIndex :=
  List.range self.nodes.length

end DiGraph

/-- The iterators of the graph library: every edge of a node once, in some order, and some edge
between two nodes where there is one. -/
structure Petgraph (ν ε : Type) where
  edges : DiGraph ν ε → NodeIndex → List (Edge ε)
  edges_perm : ∀ g n, (edges g n).Perm (g.edges.filter (·.source = n))
  neighborsIncoming : DiGraph ν ε → NodeIndex → List NodeIndex
  neighborsIncoming_perm : ∀ g n,
    (neighborsIncoming g n).Perm ((g.edges.filter (·.target = n)).map (·.source))
  findEdge : DiGraph ν ε → NodeIndex → NodeIndex → Option (Edge ε)
  findEdge_mem : ∀ g a b, ∀ e ∈ findEdge g a b, e ∈ g.edges ∧ e.source = a ∧ e.target = b
  findEdge_isSome : ∀ g, ∀ e ∈ g.edges, (findEdge g e.source e.target).isSome

namespace Petgraph

variable {ν ε : Type} (P : Petgraph ν ε)

/-- `graph.neighbors(node)`: the targets of the outgoing edges. -/
def neighbors (g : DiGraph ν ε) (n : NodeIndex) : List NodeIndex :=
  (P.edges g n).map (·.target)

theorem mem_edges {g : DiGraph ν ε} {n : NodeIndex} {e : Edge ε} :
    e ∈ P.edges g n ↔ e ∈ g.edges ∧ e.source = n := by
  rw [(P.edges_perm g n).mem_iff, List.mem_filter, decide_eq_true_eq]

theorem length_edges_le (g : DiGraph ν ε) (n : NodeIndex) :
    (P.edges g n).length ≤ g.edges.length := by
  rw [(P.edges_perm g n).length_eq]
  exact List.length_filter_le _ _

theorem mem_neighborsIncoming {g : DiGraph ν ε} {n m : NodeIndex} :
    m ∈ P.neighborsIncoming g n ↔ ∃ e ∈ g.edges, e.source = m ∧ e.target = n := by
  rw [(P.neighborsIncoming_perm g n).mem_iff, List.mem_map]
  constructor
  · rintro ⟨e, he, rfl⟩
    rw [List.mem_filter, decide_eq_true_eq] at he
    exact ⟨e, he.1, rfl, he.2⟩
  · rintro ⟨e, he, rfl, ht⟩
    exact ⟨e, List.mem_filter.mpr ⟨he, decide_eq_true ht⟩, rfl⟩

/-- The newest edge first, as the library's linked lists of edges give them. -/
def newestFirst : Petgraph ν ε where
  edges g n := (g.edges.filter (·.source = n)).reverse
  edges_perm _ _ := List.reverse_perm _
  neighborsIncoming g n := ((g.edges.filter (·.target = n)).map (·.source)).reverse
  neighborsIncoming_perm _ _ := List.reverse_perm _
  findEdge g a b := g.edges.reverse.find? fun e => e.source = a ∧ e.target = b
  findEdge_mem := by
    intro g a b e he
    have hmem := List.mem_of_find?_eq_some he
    have hprop := List.find?_some he
    simp only [decide_eq_true_eq] at hprop
    exact ⟨List.mem_reverse.mp hmem, hprop⟩
  findEdge_isSome := by
    intro g e he
    rw [List.find?_isSome]
    exact ⟨e, List.mem_reverse.mpr he, by simp⟩

end Petgraph

/-! ## Building the graph -/

structure PoolGraph where
  graph : DiGraph Address PoolEdge
  nodeTokens : HashMap NodeIndex Address
  nodeDecimals : HashMap NodeIndex UInt8

namespace PoolGraph

def tokenOf (self : PoolGraph) (node : NodeIndex) : Option Address :=
  self.nodeTokens.lookup node

end PoolGraph

/-- The local variables of `build_graph`. -/
structure GraphBuilder where
  graph : DiGraph Address PoolEdge
  nodeTokens : HashMap NodeIndex Address
  nodeDecimals : HashMap NodeIndex UInt8
  tokenNodes : HashMap Address NodeIndex
  edgeSeen : List (Address × Address × Address)

namespace GraphBuilder

def empty : GraphBuilder where
  graph := ⟨[], []⟩
  nodeTokens := ∅
  nodeDecimals := ∅
  tokenNodes := ∅
  edgeSeen := []

/-- `token_nodes.entry(token).or_insert_with(..)`: the node of a token, added when it is new. -/
def nodeFor (b : GraphBuilder) (token : TokenState) : NodeIndex × GraphBuilder :=
  match b.tokenNodes.lookup token.address with
  | some idx => (idx, b)
  | none =>
    let (idx, graph) := b.graph.addNode token.address
    (idx, { b with
      graph
      nodeTokens := b.nodeTokens.insert idx token.address
      nodeDecimals := b.nodeDecimals.insert idx token.decimals
      tokenNodes := b.tokenNodes.insert token.address idx })

/-- Adds an edge unless one with its key was seen. -/
def insertEdge (b : GraphBuilder) (source target : NodeIndex) (edge : PoolEdge) : GraphBuilder :=
  if edge.key ∈ b.edgeSeen then b
  else { b with
    graph := b.graph.addEdge source target edge
    edgeSeen := edge.key :: b.edgeSeen }

def visitPool (b : GraphBuilder) (pool : AMM) : GraphBuilder :=
  match extractPool pool with
  | .error _ => b
  | .ok extraction =>
    let (forwardEdge, reverseEdge) := extraction.intoEdges pool.address
    let (tokenAIdx, b) := b.nodeFor forwardEdge.tokenIn
    let (tokenBIdx, b) := b.nodeFor forwardEdge.tokenOut
    (b.insertEdge tokenAIdx tokenBIdx forwardEdge).insertEdge tokenBIdx tokenAIdx reverseEdge

end GraphBuilder

/-- `build_graph`, on the pools in the order the state map iterates them. -/
def buildGraph (stateSpace : StateSpace) : PoolGraph :=
  let b := stateSpace.state.values.foldl GraphBuilder.visitPool GraphBuilder.empty
  ⟨b.graph, b.nodeTokens, b.nodeDecimals⟩

/-! ## The shape of the graph -/

/-- The two tokens of a pool. -/
def AMM.tokenPair : AMM → Token × Token
  | .uniswapV2Pool pool => (pool.tokenA, pool.tokenB)
  | .uniswapV3Pool pool => (pool.tokenA, pool.tokenB)
  | .agniPool pool => (pool.tokenA, pool.tokenB)
  | .moeLbPair pool => (pool.tokenX, pool.tokenY)

/-- Both decimals of a pool are known. -/
def AMM.Tradable (pool : AMM) : Prop :=
  pool.tokenPair.1.decimals ≠ 0 ∧ pool.tokenPair.2.decimals ≠ 0

/-- `(pool, token_in, token_out)` swaps the tokens of a pool with known decimals, in one of the
two directions. -/
def Trades (pool : AMM) (key : Address × Address × Address) : Prop :=
  pool.Tradable ∧
    (key = (pool.address, pool.tokenPair.1.address, pool.tokenPair.2.address) ∨
      key = (pool.address, pool.tokenPair.2.address, pool.tokenPair.1.address))

theorem extractTokens_eq (tokenA tokenB : Token) (feeBps : Nat) :
    (∃ e, extractTokens tokenA tokenB feeBps = .error e ∧
      ¬ (tokenA.decimals ≠ 0 ∧ tokenB.decimals ≠ 0)) ∨
    (extractTokens tokenA tokenB feeBps =
      .ok ⟨⟨tokenA.address, tokenA.decimals⟩, ⟨tokenB.address, tokenB.decimals⟩, feeBps⟩ ∧
      tokenA.decimals ≠ 0 ∧ tokenB.decimals ≠ 0) := by
  unfold extractTokens TokenState.fromToken
  by_cases ha : tokenA.decimals = 0
  · exact Or.inl ⟨_, by rw [if_pos ha]; rfl, fun h => h.1 ha⟩
  · by_cases hb : tokenB.decimals = 0
    · exact Or.inl ⟨_, by rw [if_neg ha, if_pos hb]; rfl, fun h => h.2 hb⟩
    · exact Or.inr ⟨by rw [if_neg ha, if_neg hb]; rfl, ha, hb⟩

/-- What `extract_pool` says of a pool, whatever its type. -/
theorem extractPool_eq (pool : AMM) :
    (∃ e, extractPool pool = .error e ∧ ¬ pool.Tradable) ∨
    (∃ extraction, extractPool pool = .ok extraction ∧ pool.Tradable ∧
      extraction.tokenA.address = pool.tokenPair.1.address ∧
      extraction.tokenB.address = pool.tokenPair.2.address) := by
  have key : ∀ tokenA tokenB feeBps, extractPool pool = extractTokens tokenA tokenB feeBps →
      pool.tokenPair = (tokenA, tokenB) → (∃ e, extractPool pool = .error e ∧ ¬ pool.Tradable) ∨
      (∃ extraction, extractPool pool = .ok extraction ∧ pool.Tradable ∧
        extraction.tokenA.address = pool.tokenPair.1.address ∧
        extraction.tokenB.address = pool.tokenPair.2.address) := by
    intro tokenA tokenB feeBps heq hpair
    unfold AMM.Tradable
    rw [heq, hpair]
    rcases extractTokens_eq tokenA tokenB feeBps with
      ⟨e, he, hdec⟩ | ⟨hok, hdec⟩
    · exact Or.inl ⟨e, he, hdec⟩
    · exact Or.inr ⟨_, hok, hdec, rfl, rfl⟩
  cases pool with
  | uniswapV2Pool pool => exact key _ _ _ rfl rfl
  | uniswapV3Pool pool => exact key _ _ _ rfl rfl
  | agniPool pool => exact key _ _ _ rfl rfl
  | moeLbPair pool => exact key _ _ _ rfl rfl

/-- Edges run between the nodes of their tokens and no two have one key. -/
structure DiGraph.WellFormed (g : DiGraph Address PoolEdge) : Prop where
  nodup : g.nodes.Nodup
  source : ∀ e ∈ g.edges, g.nodes[e.source]? = some e.weight.tokenIn.address
  target : ∀ e ∈ g.edges, g.nodes[e.target]? = some e.weight.tokenOut.address
  keys : (g.edges.map (·.weight.key)).Nodup

namespace GraphBuilder

/-- The maps of the builder describe its graph. -/
structure WellFormed (b : GraphBuilder) : Prop extends b.graph.WellFormed where
  tokens : ∀ n, b.nodeTokens.lookup n = b.graph.nodes[n]?
  tokenNodes : ∀ t n, b.tokenNodes.lookup t = some n ↔ b.graph.nodes[n]? = some t
  seen : ∀ k, k ∈ b.edgeSeen ↔ k ∈ b.graph.edges.map (·.weight.key)

theorem wellFormed_empty : empty.WellFormed where
  nodup := List.nodup_nil
  source := by intro e he; cases he
  target := by intro e he; cases he
  keys := List.nodup_nil
  tokens := by intro n; simp [empty]
  tokenNodes := by intro t n; simp [empty]
  seen := by intro k; simp [empty]

variable {b : GraphBuilder}

theorem lookup_concat {nodes : List Address} {token t : Address} {n : NodeIndex} :
    (nodes ++ [token])[n]? = some t ↔ nodes[n]? = some t ∨ n = nodes.length ∧ token = t := by
  rcases Nat.lt_trichotomy n nodes.length with hlt | rfl | hgt
  · rw [List.getElem?_append_left hlt]
    simp [hlt.ne]
  · rw [List.getElem?_concat_length]
    simp
  · have hlen : (nodes ++ [token]).length ≤ n := by
      rw [List.length_append, List.length_singleton]
      exact hgt
    rw [List.getElem?_eq_none hlen, List.getElem?_eq_none hgt.le]
    simp [hgt.ne']

/-- `nodeFor` returns the node of the token and keeps the nodes and the edges there are. -/
theorem WellFormed.nodeFor (h : b.WellFormed) (token : TokenState) :
    (b.nodeFor token).2.WellFormed ∧
    (b.nodeFor token).2.graph.nodes[(b.nodeFor token).1]? = some token.address ∧
    (b.nodeFor token).2.graph.edges = b.graph.edges ∧
    ∀ (n : NodeIndex) (t : Address), b.graph.nodes[n]? = some t →
      (b.nodeFor token).2.graph.nodes[n]? = some t := by
  unfold GraphBuilder.nodeFor
  cases hl : b.tokenNodes.lookup token.address with
  | some idx => exact ⟨h, (h.tokenNodes _ _).mp hl, rfl, fun _ _ hn => hn⟩
  | none =>
    have hfresh : ∀ n : NodeIndex, b.graph.nodes[n]? ≠ some token.address := by
      intro n hn
      rw [← h.tokenNodes, hl] at hn
      cases hn
    have hkeep : ∀ (n : NodeIndex) (t : Address), b.graph.nodes[n]? = some t →
        (b.graph.nodes ++ [token.address])[n]? = some t := by
      intro n t hn
      obtain ⟨hlt, -⟩ := List.getElem?_eq_some_iff.mp hn
      rw [List.getElem?_append_left hlt]
      exact hn
    refine ⟨⟨⟨?_, ?_, ?_, h.keys⟩, ?_, ?_, h.seen⟩, ?_, rfl, hkeep⟩
    · simp only [DiGraph.addNode]
      rw [List.nodup_append]
      refine ⟨h.nodup, List.nodup_singleton _, ?_⟩
      intro a ha c hc hac
      rw [List.mem_singleton] at hc
      subst hc hac
      obtain ⟨n, hn⟩ := List.mem_iff_getElem?.mp ha
      exact hfresh n hn
    · exact fun e he => hkeep _ _ (h.source e he)
    · exact fun e he => hkeep _ _ (h.target e he)
    · intro n
      simp only [DiGraph.addNode]
      by_cases hn : n = b.graph.nodes.length
      · subst hn
        simp
      · rw [AList.lookup_insert_ne hn, h.tokens]
        rcases Nat.lt_or_gt_of_ne hn with hlt | hgt
        · rw [List.getElem?_append_left hlt]
        · rw [List.getElem?_eq_none (by omega),
            List.getElem?_eq_none (by rw [List.length_append, List.length_singleton]; omega)]
    · intro t n
      simp only [DiGraph.addNode]
      rw [lookup_concat]
      by_cases ht : t = token.address
      · subst ht
        rw [AList.lookup_insert, Option.some_inj]
        constructor
        · rintro rfl
          exact Or.inr ⟨rfl, rfl⟩
        · rintro (hn | ⟨rfl, -⟩)
          · exact absurd hn (hfresh n)
          · rfl
      · rw [AList.lookup_insert_ne ht, h.tokenNodes]
        constructor
        · exact Or.inl
        · rintro (hn | ⟨-, heq⟩)
          · exact hn
          · exact absurd heq.symm ht
    · simp [DiGraph.addNode]

theorem WellFormed.insertEdge (h : b.WellFormed) {source target : NodeIndex} (edge : PoolEdge)
    (hs : b.graph.nodes[source]? = some edge.tokenIn.address)
    (ht : b.graph.nodes[target]? = some edge.tokenOut.address) :
    (b.insertEdge source target edge).WellFormed ∧
    (b.insertEdge source target edge).graph.nodes = b.graph.nodes ∧
    ∀ k, k ∈ (b.insertEdge source target edge).graph.edges.map (·.weight.key) ↔
      k ∈ b.graph.edges.map (·.weight.key) ∨ k = edge.key := by
  unfold GraphBuilder.insertEdge
  by_cases hseen : edge.key ∈ b.edgeSeen
  · rw [if_pos hseen]
    refine ⟨h, rfl, fun k => ?_⟩
    rw [h.seen] at hseen
    constructor
    · exact Or.inl
    · rintro (hk | rfl)
      · exact hk
      · exact hseen
  · rw [if_neg hseen]
    rw [h.seen] at hseen
    refine ⟨⟨⟨h.nodup, ?_, ?_, ?_⟩, h.tokens, h.tokenNodes, ?_⟩, rfl, ?_⟩
    · intro e he
      rcases List.mem_append.mp he with he | he
      · exact h.source e he
      · rw [List.mem_singleton] at he
        exact he ▸ hs
    · intro e he
      rcases List.mem_append.mp he with he | he
      · exact h.target e he
      · rw [List.mem_singleton] at he
        exact he ▸ ht
    · simp only [DiGraph.addEdge]
      rw [List.map_append, List.nodup_append]
      refine ⟨h.keys, List.nodup_singleton _, ?_⟩
      intro k hk c hc hkc
      rw [List.map_singleton, List.mem_singleton] at hc
      exact hseen (hc ▸ hkc ▸ hk)
    · intro k
      simp only [DiGraph.addEdge]
      rw [List.mem_cons, h.seen, List.map_append, List.mem_append, List.map_singleton,
        List.mem_singleton, or_comm]
    · intro k
      simp only [DiGraph.addEdge]
      rw [List.map_append, List.mem_append, List.map_singleton, List.mem_singleton]

/-- One pool adds the keys it trades along. -/
theorem WellFormed.visitPool (h : b.WellFormed) (pool : AMM) :
    (b.visitPool pool).WellFormed ∧
    ∀ k, k ∈ (b.visitPool pool).graph.edges.map (·.weight.key) ↔
      k ∈ b.graph.edges.map (·.weight.key) ∨ Trades pool k := by
  unfold GraphBuilder.visitPool
  rcases extractPool_eq pool with ⟨e, he, hno⟩ | ⟨extraction, hok, htr, haddrA, haddrB⟩
  · rw [he]
    exact ⟨h, fun k => ⟨Or.inl, fun hk => hk.resolve_right fun ht => hno ht.1⟩⟩
  · rw [hok]
    obtain ⟨h₁, hn₁, he₁, -⟩ := h.nodeFor extraction.tokenA
    obtain ⟨h₂, hn₂, he₂, hkeep⟩ := h₁.nodeFor extraction.tokenB
    obtain ⟨h₃, hn₃, hk₃⟩ := h₂.insertEdge (extraction.intoEdges pool.address).1
      (hkeep _ _ hn₁) hn₂
    obtain ⟨h₄, -, hk₄⟩ := h₃.insertEdge (extraction.intoEdges pool.address).2
      (by rw [hn₃]; exact hn₂) (by rw [hn₃]; exact hkeep _ _ hn₁)
    refine ⟨h₄, fun k => ?_⟩
    refine (hk₄ k).trans ?_
    rw [hk₃, he₂, he₁, or_assoc]
    simp only [Trades, htr, true_and, PoolExtraction.intoEdges, PoolEdge.reversed, PoolEdge.key,
      haddrA, haddrB]

theorem WellFormed.foldl_visitPool (h : b.WellFormed) (pools : List AMM) :
    (pools.foldl GraphBuilder.visitPool b).WellFormed ∧ ∀ k,
      k ∈ (pools.foldl GraphBuilder.visitPool b).graph.edges.map (·.weight.key) ↔
        k ∈ b.graph.edges.map (·.weight.key) ∨ ∃ pool ∈ pools, Trades pool k := by
  induction pools generalizing b with
  | nil => exact ⟨h, by simp⟩
  | cons pool pools ih =>
    obtain ⟨h₁, hk₁⟩ := h.visitPool pool
    obtain ⟨h₂, hk₂⟩ := ih h₁
    refine ⟨h₂, fun k => ?_⟩
    rw [List.foldl_cons, hk₂, hk₁, or_assoc]
    simp only [List.mem_cons, exists_eq_or_imp]

end GraphBuilder

/-- **The graph of a state space**: one node for each token, edges between the nodes of their
tokens, and for each key that a pool trades along exactly one edge. -/
theorem buildGraph_spec (stateSpace : StateSpace) :
    (buildGraph stateSpace).graph.WellFormed ∧
    (∀ n, (buildGraph stateSpace).tokenOf n = (buildGraph stateSpace).graph.nodes[n]?) ∧
    ∀ k, (∃ e ∈ (buildGraph stateSpace).graph.edges, e.weight.key = k) ↔
      ∃ pool ∈ stateSpace.state.values, Trades pool k := by
  obtain ⟨h, hk⟩ := GraphBuilder.wellFormed_empty.foldl_visitPool stateSpace.state.values
  refine ⟨h.toWellFormed, h.tokens, fun k => ?_⟩
  have := hk k
  rw [List.mem_map] at this
  unfold buildGraph
  rw [this]
  simp [GraphBuilder.empty]

end ArbitrageBot
