import ArbitrageBot.Amms.Moe.FactorySpec
import ArbitrageBot.StateSpace.Builder
import ArbitrageBot.StateSpace.SyncRule

/-!
# What stays true of the pools of a state space

A pool in the state space is one that a log or an unwinding has put there, and its past states are
in the cache. What synchronisation keeps of a pool holds of all of them, in every run of the
manager: no reorganisation brings back what the filters of the builder have kept out.
-/

namespace ArbitrageBot

open Lib

namespace StateSpace

variable {Q : AMM → Prop} {prof : BuildProfile}

/-- Every pool of the state space, and every one in the cache, is so. -/
structure Everywhere (Q : AMM → Prop) (space : StateSpace) : Prop where
  state : ∀ a amm, space.state.lookup a = some amm → Q amm
  cache : ∀ change ∈ space.cache.cache, ∀ amm ∈ change.stateChange, Q amm

theorem forall_insert {state : HashMap Address AMM} (h : ∀ a amm, state.lookup a = some amm → Q amm)
    {key : Address} {new : AMM} (hnew : Q new) :
    ∀ a amm, (state.insert key new).lookup a = some amm → Q amm := by
  intro a amm hlookup
  rw [HashMap.lookup_insert] at hlookup
  split at hlookup
  · cases hlookup
    exact hnew
  · exact h a amm hlookup

theorem forall_insertAll {state : HashMap Address AMM} {amms : List AMM}
    (h : ∀ a amm, state.lookup a = some amm → Q amm) (hamms : ∀ amm ∈ amms, Q amm) :
    ∀ a amm, (insertAll state amms).lookup a = some amm → Q amm := by
  unfold insertAll
  induction amms generalizing state with
  | nil => exact h
  | cons new amms ih =>
    obtain ⟨hnew, hamms⟩ := List.forall_mem_cons.mp hamms
    exact ih (forall_insert h hnew) hamms

/-- What is flattened is in one of the changes. -/
theorem mem_flattenStateChanges {changes : List StateChange} {amm : AMM}
    (h : amm ∈ StateChangeCache.flattenStateChanges changes) :
    ∃ change ∈ changes, amm ∈ change.stateChange := by
  obtain ⟨m, hvalues, hkeyed, hlookup⟩ := flattenStateChanges_spec changes
  rw [hvalues, hkeyed.mem_values_iff] at h
  obtain ⟨newer, snap, older, hsplit, hsnap, -⟩ :=
    UndoLog.merge_eq_some_iff.mp ((congrFun hlookup _).symm.trans h)
  have hmem : snap ∈ snapshots changes := by
    rw [hsplit]
    simp
  obtain ⟨change, hchange, rfl⟩ := List.mem_map.mp hmem
  exact ⟨change, hchange, List.mem_of_find?_eq_some hsnap⟩

theorem Everywhere.unwind {space space' : StateSpace} (h : space.Everywhere Q) {n : Nat}
    (hunwind : space.unwind prof n = .ok space') : space'.Everywhere Q := by
  unfold StateSpace.unwind at hunwind
  obtain ⟨_, -, hunwind⟩ := bind_eq_ok.mp hunwind
  obtain ⟨⟨cachedState, cache⟩, hcache, hunwind⟩ := bind_eq_ok.mp hunwind
  cases hunwind
  have hok : space.cache.unwindStateChanges n = .ok (cachedState, cache) := by
    cases hx : space.cache.unwindStateChanges n with
    | error e => simp [hx, Except.mapError] at hcache
    | ok x =>
      rw [hx] at hcache
      cases hcache
      rfl
  obtain ⟨-, rfl, hdrop, -⟩ := unwindStateChanges_eq_ok hok
  refine ⟨forall_insertAll h.state fun amm hamm => ?_, fun change hchange => ?_⟩
  · obtain ⟨change, hchange, hmem⟩ := mem_flattenStateChanges hamm
    exact h.cache change (List.mem_of_mem_take hchange) amm hmem
  · rw [hdrop] at hchange
    exact h.cache change (List.mem_of_mem_drop hchange)

/-- The same of the loop over the logs, with the pools that it is going to cache. -/
structure Syncing.Everywhere (Q : AMM → Prop) (s : Syncing) : Prop where
  space : s.space.Everywhere Q
  cached : ∀ amm ∈ s.cachedAmms, Q amm

theorem Syncing.Everywhere.cacheStateChange {s s' : Syncing} (h : s.Everywhere Q)
    (hcache : StateSpace.cacheStateChange s = .ok s') : s'.Everywhere Q := by
  unfold StateSpace.cacheStateChange at hcache
  obtain ⟨cache, hpush, hout⟩ := bind_eq_ok.mp hcache
  cases hout
  have hok : s.space.cache.push ⟨s.cachedAmms, s.blockNumber⟩ = .ok cache := by
    cases hx : s.space.cache.push ⟨s.cachedAmms, s.blockNumber⟩ with
    | error e => simp [hx, Except.mapError] at hpush
    | ok x =>
      rw [hx] at hpush
      cases hpush
      rfl
  refine ⟨⟨h.space.state, fun change hchange => ?_⟩, fun amm hamm => absurd hamm List.not_mem_nil⟩
  have hmem : change = ⟨s.cachedAmms, s.blockNumber⟩ ∨ change ∈ s.space.cache.cache := by
    rcases StateChangeCache.push_eq_ok hok with ⟨heq, -⟩ | ⟨heq, -⟩
    · exact List.mem_cons.mp (heq ▸ hchange)
    · exact (List.mem_cons.mp (heq ▸ hchange)).imp_right List.mem_of_mem_dropLast
  rcases hmem with rfl | hmem
  · exact h.cached
  · exact h.space.cache change hmem

/-- **The rule for what the synchronisation of a pool keeps.** -/
theorem Everywhere.rule
    (hsync : ∀ {amm amm' log}, Q amm → amm.sync prof log = .ok amm' → Q amm') :
    SyncRule prof (Everywhere Q) (Syncing.Everywhere Q) where
  unwind h := h.unwind
  start h := ⟨h, fun _ hamm => absurd hamm List.not_mem_nil⟩
  turn h := ⟨h.space, h.cached⟩
  cache h := h.cacheStateChange
  pool := by
    intro s log amm amm' h hlookup hamm'
    have hQ := h.space.state _ amm hlookup
    refine ⟨⟨forall_insert h.space.state (hsync hQ hamm'), h.space.cache⟩, ?_⟩
    intro x hx
    unfold insertCached at hx
    split at hx
    · exact h.cached x hx
    · rcases List.mem_append.mp hx with hx | hx
      · exact h.cached x hx
      · exact List.mem_singleton.mp hx ▸ hQ
  finish h := h.space

theorem everywhere_ofState {state : HashMap Address AMM}
    (h : ∀ a amm, state.lookup a = some amm → Q amm) : (ofState state).Everywhere Q :=
  ⟨h, fun _ hchange => absurd hchange List.not_mem_nil⟩

/-- Every pool is under its address, and none of those of `init` has gone. -/
structure Covers (init : HashMap Address AMM) (space : StateSpace) : Prop where
  keyed : Keyed space.state
  present : ∀ a amm, init.lookup a = some amm → (space.state.lookup a).isSome

theorem isSome_lookup_insert {state : HashMap Address AMM} {a key : Address} {new : AMM}
    (h : (state.lookup a).isSome) : ((state.insert key new).lookup a).isSome := by
  rw [HashMap.lookup_insert]
  split
  · rfl
  · exact h

theorem isSome_lookup_insertAll {state : HashMap Address AMM} {a : Address} {amms : List AMM}
    (h : (state.lookup a).isSome) : ((insertAll state amms).lookup a).isSome := by
  unfold insertAll
  induction amms generalizing state with
  | nil => exact h
  | cons new amms ih => exact ih (isSome_lookup_insert h)

/-- **No synchronisation loses a pool.** -/
theorem Covers.rule {init : HashMap Address AMM} :
    SyncRule prof (Covers init) fun s => Covers init s.space where
  unwind := by
    intro space mid number h hunwind
    refine ⟨(unwind_spec hunwind h.keyed).1, fun a amm ha => ?_⟩
    obtain ⟨_, -, hunwind⟩ := bind_eq_ok.mp hunwind
    obtain ⟨_, -, hunwind⟩ := bind_eq_ok.mp hunwind
    cases hunwind
    exact isSome_lookup_insertAll (h.present a amm ha)
  start h := h
  turn h := h
  cache := by
    intro s s' h hcache
    obtain ⟨_, -, hout⟩ := bind_eq_ok.mp hcache
    cases hout
    exact ⟨h.keyed, h.present⟩
  pool := by
    intro s log amm amm' h hlookup hsync
    refine ⟨h.keyed.insert ?_, fun a x ha => isSome_lookup_insert (h.present a x ha)⟩
    rw [(AMM.sync_same hsync).1, h.keyed _ amm hlookup]
  finish h := h

theorem covers_ofState {init : HashMap Address AMM} (hkeyed : Keyed init) :
    (ofState init).Covers init :=
  ⟨hkeyed, fun _ _ ha => Option.isSome_of_eq_some ha⟩

end StateSpace

/-! ## Runs of the manager -/

namespace StateSpaceManager

variable {prof : BuildProfile} {self self' : StateSpaceManager}

/-- A pool that is one of the given pools but for what synchronisation changes. -/
def Descends (amms : List AMM) (amm : AMM) : Prop :=
  ∃ amm₀ ∈ amms, amm.address = amm₀.address ∧ amm.tokens = amm₀.tokens ∧
    amm.variant = amm₀.variant

theorem Descends.sync {amms : List AMM} {amm amm' : AMM} {log : Log} (h : Descends amms amm)
    (hsync : amm.sync prof log = .ok amm') : Descends amms amm' := by
  obtain ⟨amm₀, hmem, haddress, htokens, hvariant⟩ := h
  obtain ⟨haddress', htokens', hvariant'⟩ := AMM.sync_same hsync
  exact ⟨amm₀, hmem, haddress'.trans haddress, htokens'.trans htokens, hvariant'.trans hvariant⟩

/-- In every run each pool descends from one that the manager started with. -/
theorem handleBlocks_descends {state : HashMap Address AMM} {latestBlock : Nat}
    (hkeyed : Keyed state)
    {blocks : List Block} (h : (ofState state latestBlock).handleBlocks prof blocks = .ok self') :
    self'.state.Everywhere (Descends state.values) := by
  have hrun : ∀ (blocks : List Block) (self self' : StateSpaceManager),
      self.state.Everywhere (Descends state.values) → self.handleBlocks prof blocks = .ok self' →
        self'.state.Everywhere (Descends state.values) := by
    intro blocks
    induction blocks with
    | nil =>
      intro self self' h hrun
      cases hrun
      exact h
    | cons block blocks ih =>
      intro self self' h hrun
      unfold handleBlocks at hrun
      rw [List.foldlM_cons] at hrun
      obtain ⟨next, hnext, hrun⟩ := bind_eq_ok.mp hrun
      obtain ⟨⟨affected, next⟩, hblock, rfl⟩ := AMM.exists_of_map_eq_ok hnext
      obtain ⟨⟨affected', space⟩, hsync, hout⟩ := bind_eq_ok.mp hblock
      cases hout
      exact ih _ self' ((StateSpace.Everywhere.rule Descends.sync).synced h ⟨_, .inl ⟨_, hsync⟩⟩)
        hrun
  refine hrun blocks _ self' (StateSpace.everywhere_ofState fun a amm hlookup => ?_) h
  refine ⟨amm, hkeyed.mem_values_iff.mpr ?_, rfl, rfl, rfl⟩
  rw [hkeyed a amm hlookup]
  exact hlookup

end StateSpaceManager

namespace StateSpaceBuilder

open Lib.Batches

/-- **What the builder has kept out stays out**: in every run of the manager that it returns, with
every reorganisation, each pool of a variant with a factory passes every pool filter, and the filter
of the subscription selects the events of every pool. -/
theorem run_tracks (self : StateSpaceBuilder) (provider : Provider) (prof : BuildProfile)
    (fuel : Nat) (manager : StateSpaceManager) (blockFilter : List Signature)
    (hbuild : self.sync provider prof fuel = some (.ok (manager, blockFilter)))
    (blocks : List Block) (manager' : StateSpaceManager)
    (hrun : manager.handleBlocks prof blocks = .ok manager') :
    ∀ amm ∈ manager'.state.state.values,
      (∀ event ∈ amm.syncEvents, event ∈ blockFilter) ∧
      ((∃ factory ∈ self.factories, factory.variant = amm.variant) →
        ∀ filter ∈ self.filters, filter.keeps amm = true) := by
  obtain ⟨state, rfl, hkeyed, htracks⟩ := sync_tracks hbuild
  have hdescends := StateSpaceManager.handleBlocks_descends hkeyed hrun
  intro amm hamm
  obtain ⟨entry, hentry, rfl⟩ := List.mem_map.mp hamm
  obtain ⟨amm₀, hmem, haddress, htokens, hvariant⟩ :=
    hdescends.state entry.1 entry.2 (AList.mem_lookup_iff.mpr hentry)
  obtain ⟨hevents, hkeeps, -⟩ := htracks amm₀ hmem
  constructor
  · unfold AMM.syncEvents at hevents ⊢
    rw [hvariant]
    exact hevents
  · intro hfactory filter hfilter
    rw [PoolFilter.keeps_same filter haddress htokens]
    exact hkeeps (hvariant ▸ hfactory) filter hfilter

/-- A chain of V3 pools with one tick each. -/
def v3Chain : V3PoolChain where
  hasCode _ := true
  decimals _ := some 18
  liquidity _ := some 5
  slot0 _ := some (2 ^ 96, 0)
  tickBitmap _ w := if w = 0 then 1 else 0
  ticks _ _ := ⟨7, 7, true⟩
  tickSpacing _ := some 60
  fee _ := some 3000
  token0 _ := some 1
  token1 _ := some 2
  erc20Decimals _ := some 18

/-- Two pairs, a V3 pool with a token that is asked for and one without, and Moe pairs; the last
call is answered first. -/
def answers : Answers where
  v2 := UniswapV2Factory.twoPairChain
  v3 := v3Chain
  agni := v3Chain
  moe := MoeFactory.onePairChain
  poolCreated _ := some [some ⟨1, 2, 3000, 60, 11⟩, some ⟨4, 5, 3000, 60, 12⟩]
  lbPairCreated _ := none
  logs := UniswapV2Factory.lastFirst
  pairs := UniswapV2Factory.lastFirst
  pools := UniswapV2Factory.lastFirst
  batches := ⟨UniswapV2Factory.lastFirst, UniswapV2Factory.lastFirst, UniswapV2Factory.lastFirst,
    UniswapV2Factory.lastFirst⟩
  hashSet := List.dedup

def provider : Provider where
  blockNumber := some 100
  task _ := answers
  init _ := answers
  order := List.reverse
  perm := List.reverse_perm

/-- A builder with a V2 and a V3 factory, filters on their pools, and a given Moe pair. -/
def twoFactoryBuilder : StateSpaceBuilder where
  latestBlock := 100
  factories := [.uniswapV2Factory ⟨300⟩, .uniswapV3Factory ⟨90⟩]
  amms := [.moeLbPair (.new 13)]
  filters := [.tokenWhitelistFilter [1], .blacklistFilter [9]]

/-- Reserves of the pair, then a position of the V3 pool. -/
def twoBlocks : List Block :=
  [⟨101, [⟨7, some 101, .event (.uniswapV2Sync 1100 1900)⟩], by simp⟩,
    ⟨102, [⟨11, some 102, .event (.mint (-60) 60 1000)⟩], by simp⟩]

/-- The addresses that are tracked after the blocks. -/
def trackedAfter : Option (List Address) :=
  match twoFactoryBuilder.sync provider ⟨true⟩ 6932 with
  | some (.ok (manager, _)) =>
    match manager.handleBlocks ⟨true⟩ twoBlocks with
    | .ok manager' => some (manager'.state.state.values.map (·.address))
    | .error _ => none
  | _ => none

theorem run_tracks_twoFactoryBuilder : ∃ manager blockFilter manager',
    twoFactoryBuilder.sync provider ⟨true⟩ 6932 = some (.ok (manager, blockFilter)) ∧
    manager.handleBlocks ⟨true⟩ twoBlocks = .ok manager' ∧
    manager'.state.state.values.map (·.address) = [11, 7, 13] ∧
    ∀ amm ∈ manager'.state.state.values,
      (∀ event ∈ amm.syncEvents, event ∈ blockFilter) ∧
      ((∃ factory ∈ twoFactoryBuilder.factories, factory.variant = amm.variant) →
        ∀ filter ∈ twoFactoryBuilder.filters, filter.keeps amm = true) := by
  have htracked : trackedAfter = some [11, 7, 13] := by decide +kernel
  unfold trackedAfter at htracked
  split at htracked
  · rename_i manager blockFilter hbuild
    split at htracked
    · rename_i manager' hrun
      exact ⟨manager, blockFilter, manager', hbuild, hrun, Option.some.inj htracked,
        run_tracks twoFactoryBuilder provider ⟨true⟩ 6932 manager blockFilter hbuild twoBlocks
          manager' hrun⟩
    · cases htracked
  · cases htracked

end StateSpaceBuilder

end ArbitrageBot
