import ArbitrageBot.Amms.Factories
import ArbitrageBot.StateSpace.Bootstrap
import ArbitrageBot.StateSpace.Manager

/-!
# The builder

`StateSpaceBuilder::sync` runs a task for each factory, which discovers, filters, synchronises and
filters again, puts what the tasks return into one map in the order in which they end, and adds the
given pools of the variants without a factory. Whatever that order is, what is tracked has passed
the filters, and the filter of the subscription lets its events through.
-/

namespace ArbitrageBot

open Lib Lib.Batches

/-- `sync_events` of the pools of a variant. -/
def Variant.syncEvents : Variant → List Signature
  | uniswapV2Pool => [.uniswapV2Sync]
  | uniswapV3Pool => [.mint, .burn, .uniswapV3Swap]
  | agniPool => [.mint, .burn, .agniSwap]
  | moeLbPair => [.moeSwap, .depositedToBins, .withdrawnFromBins]

def AMM.syncEvents (amm : AMM) : List Signature := amm.variant.syncEvents

/-! ## Filters -/

inductive FilterStage where
  | discovery
  | sync
  deriving DecidableEq, Repr

inductive PoolFilter where
  | blacklistFilter (blacklist : List Address)
  | poolWhitelistFilter (pools : List Address)
  | tokenWhitelistFilter (tokens : List Address)

namespace PoolFilter

def stage : PoolFilter → FilterStage
  | blacklistFilter _ => .sync
  | poolWhitelistFilter _ => .discovery
  | tokenWhitelistFilter _ => .sync

/-- What a filter keeps. -/
def keeps : PoolFilter → AMM → Bool
  | blacklistFilter blacklist, amm =>
    !blacklist.contains amm.address && amm.tokens.all fun t => !blacklist.contains t
  | poolWhitelistFilter pools, amm => pools.contains amm.address
  | tokenWhitelistFilter tokens, amm => amm.tokens.any fun t => tokens.contains t

def filter (self : PoolFilter) (amms : List AMM) : List AMM := amms.filter self.keeps

/-- The filters of a stage, one after the other. -/
def applyStage (stage : FilterStage) (filters : List PoolFilter) (amms : List AMM) : List AMM :=
  filters.foldl (fun amms filter => if filter.stage = stage then filter.filter amms else amms) amms

end PoolFilter

/-! ## The builder -/

def Factory.poolEvents (self : Factory) : List Signature := self.variant.syncEvents

/-- What the calls of the builder are answered: the number of the chain's tip, what the tasks and
the pools to initialise see, by their place; and the order in which tasks end and a map is drained.
-/
structure Provider where
  blockNumber : Option Nat
  task : Nat → Answers
  init : Nat → Answers
  order : ∀ {α : Type}, List α → List α
  perm : ∀ {α : Type} (l : List α), (order l).Perm l

structure StateSpaceBuilder where
  latestBlock : Nat
  factories : List Factory
  amms : List AMM
  filters : List PoolFilter

namespace StateSpaceBuilder

/-- The task of a factory, with the given pools of its variant. -/
def task (prof : BuildProfile) (fuel : Nat) (answers : Answers) (chainTip : Nat)
    (filters : List PoolFilter) (factory : Factory) (extension : Option (List AMM)) :
    Option (Outcome Unit (List AMM)) :=
  andThen (factory.discover prof fuel answers chainTip) fun discoveredAmms =>
    let discoveredAmms := discoveredAmms ++ extension.getD []
    let discoveredAmms := PoolFilter.applyStage .discovery filters discoveredAmms
    andThen (factory.sync prof fuel answers discoveredAmms) fun discoveredAmms =>
      some (.ok (PoolFilter.applyStage .sync filters discoveredAmms))

/-- `entry(amm.variant()).or_insert_with(Vec::new).push(amm)`. -/
def pushVariant (variants : HashMap Variant (List AMM)) (amm : AMM) :
    HashMap Variant (List AMM) :=
  let (group, variants) := variants.orInsert amm.variant []
  variants.insert amm.variant (group ++ [amm])

/-- The given pools by their variants. -/
def ammVariants (amms : List AMM) : HashMap Variant (List AMM) := amms.foldl pushVariant ∅

/-- The tasks of the factories from the `k`-th on: the first factory of a variant gets the given
pools. -/
def tasks (prof : BuildProfile) (fuel : Nat) (provider : Provider) (chainTip : Nat)
    (filters : List PoolFilter) : Nat → List Factory → HashMap Variant (List AMM) →
      List (Option (Outcome Unit (List AMM))) × HashMap Variant (List AMM)
  | _, [], ammVariants => ([], ammVariants)
  | k, factory :: factories, ammVariants =>
    let extension := ammVariants.lookup factory.variant
    let (rest, ammVariants) := tasks prof fuel provider chainTip filters (k + 1) factories
      (ammVariants.erase factory.variant)
    (task prof fuel (provider.task k) chainTip filters factory extension :: rest, ammVariants)

/-- The pools that the tasks return; one that fails or panics fails the call. -/
def collect (state : HashMap Address AMM) :
    List (Option (Outcome Unit (List AMM))) → Option (Outcome Unit (HashMap Address AMM))
  | [] => some (.ok state)
  | res :: futures => andThen res fun syncedAmms =>
    collect (syncedAmms.foldl (fun state amm => state.insert amm.address amm) state) futures

/-- The remaining pools, each initialised on its own. -/
def initRemaining (prof : BuildProfile) (fuel : Nat) (provider : Provider) :
    Nat → HashMap Address AMM → List AMM → Option (Outcome Unit (HashMap Address AMM))
  | _, state, [] => some (.ok state)
  | k, state, amm :: remainingAmms =>
    andThen (amm.init prof fuel (provider.init k)) fun initialized =>
    initRemaining prof fuel provider (k + 1) (state.insert amm.address initialized) remainingAmms

/-- The events of the subscription's filter. -/
def filterSet (self : StateSpaceBuilder) : List Signature :=
  self.factories.flatMap Factory.poolEvents ++ self.amms.flatMap AMM.syncEvents

/-- The manager, with the events that its block filter selects; `none` when a loop needs more than
`fuel` rounds. -/
def sync (self : StateSpaceBuilder) (provider : Provider) (prof : BuildProfile) (fuel : Nat) :
    Option (Outcome Unit (StateSpaceManager × List Signature)) :=
  andThen (some (answer provider.blockNumber)) fun chainTip =>
    let blockFilter := self.filterSet
    let (futures, ammVariants) := tasks prof fuel provider chainTip self.filters 0 self.factories
      (ammVariants self.amms)
    andThen (collect ∅ (provider.order futures)) fun state =>
      andThen (initRemaining prof fuel provider 0 state
          (provider.order ammVariants.values).flatten) fun state =>
        some (.ok (.ofState state self.latestBlock, blockFilter))

end StateSpaceBuilder

/-! ## What the filters keep -/

namespace PoolFilter

variable {filters : List PoolFilter} {amms : List AMM} {amm : AMM}

theorem mem_applyStage {stage : FilterStage} : amm ∈ applyStage stage filters amms ↔
    amm ∈ amms ∧ ∀ filter ∈ filters, filter.stage = stage → filter.keeps amm = true := by
  unfold applyStage
  induction filters generalizing amms with
  | nil => simp
  | cons f filters ih =>
    rw [List.foldl_cons, ih, List.forall_mem_cons]
    by_cases hstage : f.stage = stage
    · simp [hstage, filter, and_assoc]
    · simp [hstage]

/-- A filter looks at the address and the tokens. -/
theorem keeps_same (f : PoolFilter) {amm' : AMM} (haddress : amm.address = amm'.address)
    (htokens : amm.tokens = amm'.tokens) : f.keeps amm = f.keeps amm' := by
  cases f <;> simp [keeps, haddress, htokens]

/-- A filter of discovery looks at the address only. -/
theorem keeps_congr {f : PoolFilter} {amm' : AMM} (hstage : f.stage = .discovery)
    (haddress : amm.address = amm'.address) : f.keeps amm = f.keeps amm' := by
  cases f with
  | blacklistFilter blacklist => cases hstage
  | poolWhitelistFilter pools => simp [keeps, haddress]
  | tokenWhitelistFilter tokens => cases hstage

end PoolFilter

namespace StateSpaceBuilder

variable {filters : List PoolFilter} {amms : List AMM} {amm : AMM}
  {variants : HashMap Variant (List AMM)} {prof : BuildProfile} {fuel chainTip : Nat}
  {provider : Provider}

theorem lookup_pushVariant (a : AMM) (v : Variant) : (pushVariant variants a).lookup v =
    if v = a.variant then some ((variants.lookup v).getD [] ++ [a]) else variants.lookup v := by
  unfold pushVariant HashMap.orInsert
  by_cases hv : v = a.variant
  · subst hv
    cases hl : variants.lookup a.variant <;> simp
  · cases hl : variants.lookup a.variant <;> simp [hv]

/-- The given pools are kept with those of their variant. -/
theorem mem_foldl_pushVariant {v : Variant} :
    amm ∈ ((amms.foldl pushVariant variants).lookup v).getD [] ↔
      amm ∈ (variants.lookup v).getD [] ∨ amm ∈ amms ∧ amm.variant = v := by
  induction amms generalizing variants with
  | nil => simp
  | cons a amms ih =>
    rw [List.foldl_cons, ih, lookup_pushVariant]
    by_cases hv : v = a.variant
    · subst hv
      rw [if_pos rfl, Option.getD_some, List.mem_append, List.mem_singleton, List.mem_cons,
        or_assoc]
      refine or_congr_right ⟨?_, ?_⟩
      · rintro (rfl | ⟨hmem, hv⟩)
        · exact ⟨.inl rfl, rfl⟩
        · exact ⟨.inr hmem, hv⟩
      · rintro ⟨rfl | hmem, hv⟩
        · exact .inl rfl
        · exact .inr ⟨hmem, hv⟩
    · rw [if_neg hv]
      refine or_congr_right (and_congr_left fun hvariant => ?_)
      rw [List.mem_cons]
      refine ⟨.inr, fun h => h.resolve_left ?_⟩
      rintro rfl
      exact hv hvariant.symm

theorem mem_ammVariants {v : Variant} :
    amm ∈ ((ammVariants amms).lookup v).getD [] ↔ amm ∈ amms ∧ amm.variant = v := by
  unfold ammVariants
  rw [mem_foldl_pushVariant]
  simp

/-- **The tasks** are those of the factories, each with given pools of its variant or none; what
remains are the given pools of the other variants. -/
theorem tasks_spec (filters : List PoolFilter) (k : Nat) (factories : List Factory)
    (variants : HashMap Variant (List AMM)) :
    (∀ future ∈ (tasks prof fuel provider chainTip filters k factories variants).1,
      ∃ factory ∈ factories, ∃ answers extension,
        future = task prof fuel answers chainTip filters factory extension ∧
        (extension = none ∨ extension = variants.lookup factory.variant)) ∧
    ∀ v, (tasks prof fuel provider chainTip filters k factories variants).2.lookup v =
      if ∃ factory ∈ factories, factory.variant = v then none else variants.lookup v := by
  induction factories generalizing k variants with
  | nil => simp [tasks]
  | cons factory factories ih =>
    obtain ⟨htasks, hrest⟩ := ih (k + 1) (variants.erase factory.variant)
    constructor
    · intro future hfuture
      rcases List.mem_cons.mp hfuture with rfl | hfuture
      · exact ⟨factory, List.mem_cons_self, _, _, rfl, .inr rfl⟩
      · obtain ⟨factory', hmem, answers, extension, rfl, hextension⟩ := htasks future hfuture
        refine ⟨factory', List.mem_cons_of_mem _ hmem, answers, extension, rfl, ?_⟩
        by_cases hvariant : factory'.variant = factory.variant
        · rw [hvariant, AList.lookup_erase] at hextension
          exact .inl (or_self_iff.mp hextension)
        · rwa [AList.lookup_erase_ne hvariant] at hextension
    · intro v
      rw [tasks]
      dsimp only
      rw [hrest]
      by_cases hv : v = factory.variant
      · subst hv
        simp
      · simp [AList.lookup_erase_ne hv, Ne.symm hv]

/-! ## What is tracked -/

/-- The pools in a map are some of those inserted. -/
theorem mem_foldl_insert {state : HashMap Address AMM} (hkeyed : Keyed state) (amms : List AMM) :
    Keyed (amms.foldl (fun state amm => state.insert amm.address amm) state) ∧
    ∀ amm ∈ (amms.foldl (fun state amm => state.insert amm.address amm) state).values,
      amm ∈ state.values ∨ amm ∈ amms := by
  induction amms generalizing state with
  | nil => exact ⟨hkeyed, fun amm h => .inl h⟩
  | cons a amms ih =>
    have hinsert : Keyed (state.insert a.address a) := hkeyed.insert rfl
    obtain ⟨hkeyed', hmem⟩ := ih hinsert
    refine ⟨hkeyed', fun amm h => ?_⟩
    rcases hmem amm h with hmem | hmem
    · rw [hinsert.mem_values_iff, HashMap.lookup_insert] at hmem
      split at hmem
      · cases hmem
        exact .inr List.mem_cons_self
      · exact .inl (hkeyed.mem_values_iff.mpr hmem)
    · exact .inr (List.mem_cons_of_mem a hmem)

theorem mem_collect {state state' : HashMap Address AMM} (hkeyed : Keyed state)
    {futures : List (Option (Outcome Unit (List AMM)))}
    (h : collect state futures = some (.ok state')) : Keyed state' ∧
    ∀ amm ∈ state'.values,
      amm ∈ state.values ∨ ∃ synced, some (.ok synced) ∈ futures ∧ amm ∈ synced := by
  induction futures generalizing state with
  | nil =>
    cases h
    exact ⟨hkeyed, fun amm hamm => .inl hamm⟩
  | cons res futures ih =>
    obtain ⟨synced, rfl, h⟩ := andThen_eq_ok.mp h
    obtain ⟨hinsert, hvalues⟩ := mem_foldl_insert hkeyed synced
    obtain ⟨hkeyed', hmem⟩ := ih hinsert h
    refine ⟨hkeyed', fun amm hamm => ?_⟩
    rcases hmem amm hamm with hamm | ⟨synced', hsynced, hamm⟩
    · refine (hvalues amm hamm).imp_right fun hamm => ?_
      exact ⟨synced, List.mem_cons_self, hamm⟩
    · exact .inr ⟨synced', List.mem_cons_of_mem _ hsynced, hamm⟩

theorem mem_initRemaining {k : Nat} {state state' : HashMap Address AMM} (hkeyed : Keyed state)
    (h : initRemaining prof fuel provider k state amms = some (.ok state')) : Keyed state' ∧
    ∀ amm ∈ state'.values, amm ∈ state.values ∨ ∃ given ∈ amms, ∃ answers,
      given.init prof fuel answers = some (.ok amm) := by
  induction amms generalizing k state with
  | nil =>
    cases h
    exact ⟨hkeyed, fun amm hamm => .inl hamm⟩
  | cons a amms ih =>
    obtain ⟨initialized, hinitialized, h⟩ := andThen_eq_ok.mp h
    have hinsert := hkeyed.insert (congrArg Prod.fst (AMM.init_which hinitialized))
    obtain ⟨hkeyed', hmem⟩ := ih hinsert h
    refine ⟨hkeyed', fun amm hamm => ?_⟩
    rcases hmem amm hamm with hamm | ⟨given, hgiven, hamm⟩
    · rw [hinsert.mem_values_iff, HashMap.lookup_insert] at hamm
      split at hamm
      · cases hamm
        exact .inr ⟨a, List.mem_cons_self, _, hinitialized⟩
      · exact .inl (hkeyed.mem_values_iff.mpr hamm)
    · exact .inr ⟨given, List.mem_cons_of_mem _ hgiven, hamm⟩

/-- The pools of the builder: what some task returned, or a given pool of a variant without a
factory. -/
theorem sync_values {self : StateSpaceBuilder} {manager : StateSpaceManager}
    {blockFilter : List Signature}
    (h : self.sync provider prof fuel = some (.ok (manager, blockFilter))) :
    ∃ state, manager = .ofState state self.latestBlock ∧ blockFilter = self.filterSet ∧
    Keyed state ∧ ∀ amm ∈ state.values,
      (∃ factory ∈ self.factories, ∃ answers chainTip extension synced,
        (extension = none ∨ extension = (ammVariants self.amms).lookup factory.variant) ∧
        task prof fuel answers chainTip self.filters factory extension = some (.ok synced) ∧
        amm ∈ synced) ∨
      ∃ given ∈ self.amms, (∀ factory ∈ self.factories, factory.variant ≠ given.variant) ∧
        ∃ answers, given.init prof fuel answers = some (.ok amm) := by
  obtain ⟨chainTip, -, h⟩ := andThen_eq_ok.mp h
  obtain ⟨state, hstate, h⟩ := andThen_eq_ok.mp h
  obtain ⟨state', hstate', h⟩ := andThen_eq_ok.mp h
  cases h
  obtain ⟨hkeyed, hsynced⟩ := mem_collect Keyed.empty hstate
  obtain ⟨hkeyed', hinitialized⟩ := mem_initRemaining hkeyed hstate'
  obtain ⟨htasks, hrest⟩ := @tasks_spec prof fuel chainTip provider self.filters 0 self.factories
    (ammVariants self.amms)
  refine ⟨state', rfl, rfl, hkeyed', fun amm hamm => ?_⟩
  rcases hinitialized amm hamm with hamm | ⟨given, hgiven, hamm⟩
  · rcases hsynced amm hamm with hamm | ⟨synced, hmem, hamm⟩
    · cases hamm
    · obtain ⟨factory, hfactory, answers, extension, heq, hextension⟩ :=
        htasks _ ((provider.perm _).mem_iff.mp hmem)
      exact .inl ⟨factory, hfactory, answers, chainTip, extension, synced, hextension, heq.symm,
        hamm⟩
  · obtain ⟨group, hgroup, hgiven⟩ := List.mem_flatten.mp hgiven
    obtain ⟨entry, hentry, rfl⟩ := List.mem_map.mp ((provider.perm _).mem_iff.mp hgroup)
    have hlookup := hrest entry.1
    rw [AList.mem_lookup_iff.mpr hentry] at hlookup
    split at hlookup
    · cases hlookup
    · rename_i hnone
      obtain ⟨hmem, hvariant⟩ := mem_ammVariants.mp
        (show given ∈ ((ammVariants self.amms).lookup entry.1).getD [] from hlookup ▸ hgiven)
      refine .inr ⟨given, hmem, fun factory hfactory heq => hnone ⟨factory, hfactory, ?_⟩, hamm⟩
      exact heq.trans hvariant

/-- What a task returns is of its factory's variant and has passed every filter. -/
theorem task_spec {factory : Factory} {answers : Answers} {extension : Option (List AMM)}
    (hextension : ∀ p ∈ extension.getD [], p.variant = factory.variant) {synced : List AMM}
    (h : task prof fuel answers chainTip filters factory extension = some (.ok synced)) :
    ∀ amm ∈ synced, amm.variant = factory.variant ∧
      ∀ filter ∈ filters, filter.keeps amm = true := by
  obtain ⟨discovered, hdiscover, h⟩ := andThen_eq_ok.mp h
  obtain ⟨unfiltered, hsync, h⟩ := andThen_eq_ok.mp h
  cases h
  intro amm hamm
  obtain ⟨hmem, hkeeps⟩ := PoolFilter.mem_applyStage.mp hamm
  have hvariants : ∀ p ∈ PoolFilter.applyStage .discovery filters
      (discovered ++ extension.getD []), p.variant = factory.variant := by
    intro p hp
    rcases List.mem_append.mp (PoolFilter.mem_applyStage.mp hp).1 with hp | hp
    · exact Factory.discover_variant hdiscover p hp
    · exact hextension p hp
  obtain ⟨hvariant, p, hp, haddress⟩ := Factory.sync_same hvariants hsync amm hmem
  refine ⟨hvariant, fun filter hfilter => ?_⟩
  cases hstage : filter.stage with
  | discovery =>
    rw [← PoolFilter.keeps_congr hstage haddress]
    exact (PoolFilter.mem_applyStage.mp hp).2 filter hfilter hstage
  | sync => exact hkeeps filter hfilter hstage

/-- **What the builder tracks**, in whatever order its tasks end: the events of every pool pass the
filter of the subscription; a pool of a variant with a factory has passed every pool filter, and one
of another variant is a given pool. -/
theorem sync_tracks {self : StateSpaceBuilder} {manager : StateSpaceManager}
    {blockFilter : List Signature}
    (h : self.sync provider prof fuel = some (.ok (manager, blockFilter))) :
    ∃ state, manager = .ofState state self.latestBlock ∧ Keyed state ∧ ∀ amm ∈ state.values,
      (∀ event ∈ amm.syncEvents, event ∈ blockFilter) ∧
      ((∃ factory ∈ self.factories, factory.variant = amm.variant) →
        ∀ filter ∈ self.filters, filter.keeps amm = true) ∧
      ((∀ factory ∈ self.factories, factory.variant ≠ amm.variant) →
        ∃ given ∈ self.amms, ∃ answers, given.init prof fuel answers = some (.ok amm)) := by
  obtain ⟨state, rfl, rfl, hkeyed, hvalues⟩ := sync_values h
  refine ⟨state, rfl, hkeyed, fun amm hamm => ?_⟩
  rcases hvalues amm hamm with
    ⟨factory, hfactory, answers, chainTip, extension, synced, hextension, htask, hmem⟩ |
    ⟨given, hgiven, hnone, answers, hamm⟩
  · have hgiven : ∀ p ∈ extension.getD [], p.variant = factory.variant := by
      intro p hp
      rcases hextension with rfl | rfl
      · cases hp
      · exact (mem_ammVariants.mp hp).2
    obtain ⟨hvariant, hkeeps⟩ := task_spec hgiven htask amm hmem
    refine ⟨fun event hevent => ?_, fun _ => hkeeps, fun h => ?_⟩
    · refine List.mem_append_left _ (List.mem_flatMap.mpr ⟨factory, hfactory, ?_⟩)
      unfold AMM.syncEvents at hevent
      rw [hvariant] at hevent
      exact hevent
    · exact absurd hvariant.symm (h factory hfactory)
  · have hvariant : amm.variant = given.variant := congrArg Prod.snd (AMM.init_which hamm)
    refine ⟨fun event hevent => ?_, fun ⟨factory, hfactory, heq⟩ => ?_, fun _ => ?_⟩
    · refine List.mem_append_right _ (List.mem_flatMap.mpr ⟨given, hgiven, ?_⟩)
      unfold AMM.syncEvents at hevent ⊢
      exact hvariant ▸ hevent
    · exact absurd (heq.trans hvariant) (hnone factory hfactory)
    · exact ⟨given, hgiven, answers, hamm⟩

end StateSpaceBuilder

end ArbitrageBot
