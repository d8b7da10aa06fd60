import ArbitrageBot.Arbitrage.Graph
import ArbitrageBot.Protocols.Resync
import ArbitrageBot.StateSpace.SyncSpec

/-!
# Resynchronised pairs in the graph

The slot-0 data of a pair brings its token addresses anew, without their decimals. A pair without
decimals has no edges, so a resynchronisation that stores such data takes the pair out of the graph.
-/

namespace ArbitrageBot

namespace MoeMonitor

/-! ## One batch -/

/-- The two tokens of a pair have the decimals they had. -/
def SameDecimals (pair pair' : MoeLbPair) : Prop :=
  pair'.tokenX.decimals = pair.tokenX.decimals ∧ pair'.tokenY.decimals = pair.tokenY.decimals

/-- `extract_pool` succeeds. -/
def Extracted (pair : MoeLbPair) : Prop :=
  ∃ extraction, extractPool (.moeLbPair pair) = .ok extraction

theorem extracted_iff {pair : MoeLbPair} :
    Extracted pair ↔ pair.tokenX.decimals ≠ 0 ∧ pair.tokenY.decimals ≠ 0 := by
  unfold Extracted
  rcases extractPool_eq (.moeLbPair pair) with ⟨e, he, hno⟩ | ⟨extraction, hok, htradable, -⟩
  · rw [he]
    exact iff_of_false (fun ⟨_, h⟩ => by cases h) hno
  · exact iff_of_true ⟨extraction, hok⟩ htradable

theorem syncSlot0Batch_getElem? {slots : Nat → Option (Address → Slot0Data)} {pairs : List AMM}
    {i : Nat} {pair : MoeLbPair} (hi : pairs[i]? = some (.moeLbPair pair)) :
    (syncSlot0Batch slots pairs)[i]? = some (.moeLbPair
      (match slots (i / 255) with
        | some slot => pair.withSlot0 (slot pair.address)
        | none => pair)) := by
  unfold syncSlot0Batch
  rw [List.getElem?_mapIdx, hi]
  cases slots (i / 255) <;> rfl

/-- A pair of a batch is still extracted exactly when its chunk has not been answered. -/
theorem syncSlot0Batch_extracted_iff {slots : Nat → Option (Address → Slot0Data)} {pairs : List AMM}
    {i : Nat} {pair : MoeLbPair} (hi : pairs[i]? = some (.moeLbPair pair))
    (hpair : Extracted pair) :
    (∃ pair', (syncSlot0Batch slots pairs)[i]? = some (.moeLbPair pair') ∧
      SameDecimals pair pair' ∧ Extracted pair') ↔ slots (i / 255) = none := by
  rw [syncSlot0Batch_getElem? hi]
  cases slots (i / 255) with
  | none => simpa [SameDecimals] using hpair
  | some slot =>
    simp only [Option.some.injEq, AMM.moeLbPair.injEq, reduceCtorEq, iff_false]
    rintro ⟨pair', rfl, -, hextracted⟩
    exact (extracted_iff.mp hextracted).1 rfl

/-! ## One resynchronisation -/

/-- The data of a resynchronisation: which pools have changed (a set), and what the chain answers.
-/
structure Resync where
  changed : List Address
  nodup : changed.Nodup
  slots : Nat → Option (Address → Slot0Data)
  calls : Nat → Nat → Outcome AMMError (Address → Nat → Nat × Nat)

namespace Resync

variable (prof : BuildProfile)

def apply (self : Resync) (pools : HashMap Address MoeLbPair) :
    Outcome AMMError (HashMap Address MoeLbPair) :=
  resyncChangedPools prof self.slots self.calls pools self.changed

/-- The chain answers the slot-0 request of the pool at `a` with `slot`, and the requests for bins.
-/
def Refetches (self : Resync) (pools : HashMap Address MoeLbPair) (a : Address)
    (slot : Slot0Data) : Prop :=
  ∃ i pair answer, (poolsToResync pools self.changed)[i]? = some (.moeLbPair pair) ∧
    pair.address = a ∧ self.slots (i / 255) = some answer ∧ answer a = slot ∧
    ∃ amms, syncBinsInBatches prof self.calls
      (syncSlot0Batch self.slots (poolsToResync pools self.changed)) BINS_RADIUS BINS_BATCH_SIZE =
        .ok amms

end Resync

/-- A pool that is the same pair with the same tokens. -/
inductive SameTokens : AMM → AMM → Prop
  | refl (amm : AMM) : SameTokens amm amm
  | pair {pair pair' : MoeLbPair} (haddress : pair'.address = pair.address)
      (htokenX : pair'.tokenX = pair.tokenX) (htokenY : pair'.tokenY = pair.tokenY) :
      SameTokens (.moeLbPair pair) (.moeLbPair pair')

theorem SameTokens.trans {amm₁ amm₂ amm₃ : AMM} (h : SameTokens amm₁ amm₂)
    (h' : SameTokens amm₂ amm₃) : SameTokens amm₁ amm₃ := by
  cases h with
  | refl => exact h'
  | pair haddress htokenX htokenY =>
    cases h' with
    | refl => exact .pair haddress htokenX htokenY
    | pair haddress' htokenX' htokenY' =>
      exact .pair (haddress'.trans haddress) (htokenX'.trans htokenX) (htokenY'.trans htokenY)

theorem batchStep_sameTokens (calls : Nat → Nat → Outcome AMMError (Address → Nat → Nat × Nat)) :
    BatchStep calls SameTokens where
  refl := .refl
  trans := SameTokens.trans
  moved _ _ := .pair rfl rfl rfl
  synced _ _ := .pair rfl rfl rfl

theorem SameTokens.eq_pair {pair : MoeLbPair} {amm : AMM} (h : SameTokens (.moeLbPair pair) amm) :
    ∃ pair', amm = .moeLbPair pair' ∧ pair'.address = pair.address ∧
      pair'.tokenX = pair.tokenX ∧ pair'.tokenY = pair.tokenY := by
  cases h with
  | refl => exact ⟨pair, rfl, rfl, rfl, rfl⟩
  | pair haddress htokenX htokenY => exact ⟨_, rfl, haddress, htokenX, htokenY⟩

variable {prof : BuildProfile} {pools pools' : HashMap Address MoeLbPair} {r : Resync}
  {a : Address} {pair : MoeLbPair}

/-- The pools of a service sit under their addresses. -/
def KeyedPairs (pools : HashMap Address MoeLbPair) : Prop :=
  ∀ a pair, pools.lookup a = some pair → pair.address = a

theorem mem_poolsToResync {changed : List Address} {amm : AMM} (hkeyed : KeyedPairs pools)
    (h : amm ∈ poolsToResync pools changed) :
    ∃ pair, amm = .moeLbPair pair ∧ pair.address ∈ changed ∧
      pools.lookup pair.address = some pair := by
  obtain ⟨a, ha, hpool⟩ := List.mem_filterMap.mp h
  obtain ⟨pair, hpair, rfl⟩ := Option.map_eq_some_iff.mp hpool
  obtain rfl := hkeyed a pair hpair
  exact ⟨pair, rfl, ha, hpair⟩

/-- The `i`-th of the pools after the batches, where there was a pair. -/
theorem resynced_getElem? {pairs amms : List AMM} {i : Nat}
    (hsame : List.Forall₂ SameTokens (syncSlot0Batch r.slots pairs) amms)
    (hi : pairs[i]? = some (.moeLbPair pair)) :
    ∃ pair', amms[i]? = some (.moeLbPair pair') ∧ pair'.address = pair.address ∧
      match r.slots (i / 255) with
      | none => pair'.tokenX = pair.tokenX ∧ pair'.tokenY = pair.tokenY
      | some answer => pair'.tokenX = .fromAddress (answer pair.address).tokenX ∧
          pair'.tokenY = .fromAddress (answer pair.address).tokenY := by
  have hslot := @syncSlot0Batch_getElem? r.slots pairs i pair hi
  obtain ⟨hlt, hget⟩ := List.getElem?_eq_some_iff.mp hslot
  have hlt' : i < amms.length := by rwa [← hsame.length_eq]
  have hamm := hsame.get hlt hlt'
  simp only [List.get_eq_getElem, hget] at hamm
  obtain ⟨pair', hpair', haddress, htokenX, htokenY⟩ := hamm.eq_pair
  refine ⟨pair', by rw [List.getElem?_eq_getElem hlt', hpair'], ?_⟩
  cases hanswer : r.slots (i / 255) with
  | none =>
    simp only [hanswer] at haddress htokenX htokenY
    exact ⟨haddress, htokenX, htokenY⟩
  | some answer =>
    simp only [hanswer] at haddress htokenX htokenY
    exact ⟨haddress, htokenX, htokenY⟩

/-- The pools after the batches are the same pairs. -/
theorem resynced_addresses {pairs amms : List AMM}
    (hsame : List.Forall₂ SameTokens (syncSlot0Batch r.slots pairs) amms)
    (hmoe : ∀ amm ∈ pairs, ∃ pair, amm = .moeLbPair pair) :
    amms.map (·.address) = pairs.map (·.address) ∧ ∀ amm ∈ amms, ∃ pair, amm = .moeLbPair pair := by
  have hlen : amms.length = pairs.length := by
    rw [← hsame.length_eq]
    exact List.length_mapIdx
  have hat : ∀ i, (hi : i < pairs.length) → ∃ pair', amms[i]? = some (.moeLbPair pair') ∧
      pair'.address = pairs[i].address := by
    intro i hi
    obtain ⟨pair, hpair⟩ := hmoe _ (List.getElem_mem hi)
    obtain ⟨pair', hpair', haddress, -⟩ := @resynced_getElem? r pair pairs amms i hsame
      (by rw [List.getElem?_eq_getElem hi, hpair])
    refine ⟨pair', hpair', ?_⟩
    rw [hpair]
    exact haddress
  constructor
  · apply List.ext_getElem
    · simp [hlen]
    · intro i hi _
      obtain ⟨pair', hpair', haddress⟩ := hat i (by simpa [hlen] using hi)
      obtain ⟨hlt, hget⟩ := List.getElem?_eq_some_iff.mp hpair'
      simp only [List.getElem_map, hget]
      exact haddress
  · intro amm hamm
    obtain ⟨i, hi, rfl⟩ := List.mem_iff_getElem.mp hamm
    obtain ⟨pair', hpair', -⟩ := hat i (by omega)
    rw [List.getElem?_eq_getElem hi] at hpair'
    exact ⟨pair', Option.some.inj hpair'⟩

/-- **One resynchronisation**: the tokens of a pair stay, or they are those of its slot-0 data. -/
theorem Resync.apply_spec (hkeyed : KeyedPairs pools) (hpair : pools.lookup a = some pair)
    (h : r.apply prof pools = .ok pools') :
    ∃ pair', pools'.lookup a = some pair' ∧
      (((∀ slot, ¬ r.Refetches prof pools a slot) ∧ pair'.tokenX = pair.tokenX ∧
        pair'.tokenY = pair.tokenY) ∨
      ∃ slot, r.Refetches prof pools a slot ∧ pair'.tokenX = .fromAddress slot.tokenX ∧
        pair'.tokenY = .fromAddress slot.tokenY) := by
  rcases resyncChangedPools_cases h with ⟨rfl, hempty⟩ | ⟨amms, hamms, rfl⟩
  · refine ⟨pair, hpair, Or.inl ⟨?_, rfl, rfl⟩⟩
    rintro slot ⟨i, p, answer, hi, -, -, -, amms, hamms⟩
    rw [hempty amms hamms] at hi
    cases hi
  · have hsame := (batchStep_sameTokens r.calls).syncBinsInBatches hamms
    have hmoe : ∀ amm ∈ poolsToResync pools r.changed, ∃ pair, amm = .moeLbPair pair := by
      intro amm hamm
      obtain ⟨p, hp, -⟩ := mem_poolsToResync hkeyed hamm
      exact ⟨p, hp⟩
    obtain ⟨haddresses, hmoe'⟩ := resynced_addresses hsame hmoe
    have hnodup := poolsToResync_nodup r.nodup hkeyed
    rw [← haddresses] at hnodup
    obtain ⟨hinserted, hkept⟩ := @lookup_foldl_insertPool pools amms hmoe' hnodup a
    have haddress := hkeyed a pair hpair
    by_cases ha : a ∈ r.changed
    · have hmem : AMM.moeLbPair pair ∈ poolsToResync pools r.changed :=
        List.mem_filterMap.mpr ⟨a, ha, by rw [hpair]; rfl⟩
      obtain ⟨i, hi⟩ := List.mem_iff_getElem?.mp hmem
      obtain ⟨pair', hpair', haddress', htokens⟩ := resynced_getElem? hsame hi
      refine ⟨pair', hinserted pair' (List.mem_of_getElem? hpair') (haddress'.trans haddress), ?_⟩
      cases hanswer : r.slots (i / 255) with
      | none =>
        rw [hanswer] at htokens
        refine Or.inl ⟨?_, htokens⟩
        rintro slot ⟨j, p, answer, hj, hp, hsome, -⟩
        have hij : i = j := by
          rw [haddresses] at hnodup
          have hlt : i < ((poolsToResync pools r.changed).map (·.address)).length := by
            simpa using (List.getElem?_eq_some_iff.mp hi).1
          apply (List.getElem?_inj hlt hnodup).mp
          rw [List.getElem?_map, List.getElem?_map, hi, hj]
          exact congrArg some (haddress.trans hp.symm)
        rw [hij, hsome] at hanswer
        cases hanswer
      | some answer =>
        rw [hanswer, haddress] at htokens
        exact Or.inr ⟨answer a, ⟨i, pair, answer, hi, haddress, hanswer, rfl, amms, hamms⟩, htokens⟩
    · have hnot : a ∉ (poolsToResync pools r.changed).map (·.address) := by
        intro hmem
        obtain ⟨amm, hamm, rfl⟩ := List.mem_map.mp hmem
        obtain ⟨p, rfl, hp, -⟩ := mem_poolsToResync hkeyed hamm
        exact ha hp
      refine ⟨pair, (hkept (haddresses ▸ hnot)).trans hpair, Or.inl ⟨?_, rfl, rfl⟩⟩
      rintro slot ⟨i, p, answer, hi, hp, -⟩
      exact hnot (List.mem_map.mpr ⟨_, List.mem_of_getElem? hi, hp⟩)

theorem Resync.apply_keyed (hkeyed : KeyedPairs pools) (h : r.apply prof pools = .ok pools') :
    KeyedPairs pools' := by
  rcases resyncChangedPools_cases h with ⟨rfl, -⟩ | ⟨amms, -, rfl⟩
  · exact hkeyed
  · clear h
    induction amms generalizing pools with
    | nil => exact hkeyed
    | cons amm amms ih =>
      apply ih
      cases amm with
      | moeLbPair pair =>
        intro b p hp
        change (pools.insert pair.address pair).lookup b = some p at hp
        rw [HashMap.lookup_insert] at hp
        split at hp
        · rename_i hb
          cases hp
          exact hb.symm
        · exact hkeyed b p hp
      | _ => exact hkeyed

/-! ## Runs -/

/-- A run of resynchronisations, the changes of the pools between them apart. -/
def resyncAll (prof : BuildProfile) (pools : HashMap Address MoeLbPair) (run : List Resync) :
    Outcome AMMError (HashMap Address MoeLbPair) :=
  run.foldlM (fun pools r => r.apply prof pools) pools

/-- No resynchronisation of the run stores slot-0 data for the pool at `a`. -/
def NeverRefetched (prof : BuildProfile) (a : Address) :
    HashMap Address MoeLbPair → List Resync → Prop
  | _, [] => True
  | pools, r :: rest => (∀ slot, ¬ r.Refetches prof pools a slot) ∧
    ∀ pools', r.apply prof pools = .ok pools' → NeverRefetched prof a pools' rest

/-- The graph of the state space of the pools has an edge with this key. -/
def HasEdge (pools : HashMap Address MoeLbPair) (key : Address × Address × Address) : Prop :=
  ∃ e ∈ (buildGraph (StateSpace.ofPools .moeLbPair pools)).graph.edges, e.weight.key = key

/-- A pair keeps its decimals, is still extracted, and keeps both of its edges. -/
def StaysInGraph (pair : MoeLbPair) (pools : HashMap Address MoeLbPair) : Prop :=
  ∃ pair', pools.lookup pair.address = some pair' ∧ SameDecimals pair pair' ∧ Extracted pair' ∧
    HasEdge pools (pair.address, pair.tokenX.address, pair.tokenY.address) ∧
    HasEdge pools (pair.address, pair.tokenY.address, pair.tokenX.address)

/-- The edges of a pool are those of its pair. -/
theorem hasEdge_iff {key : Address × Address} (hkeyed : KeyedPairs pools)
    (hpair : pools.lookup a = some pair) :
    HasEdge pools (a, key) ↔ Trades (.moeLbPair pair) (a, key) := by
  have hkeyed' : ∀ b p, pools.lookup b = some p → (AMM.moeLbPair p).address = b := hkeyed
  have hlookup : (StateSpace.ofPools .moeLbPair pools).state.lookup a = some (.moeLbPair pair) := by
    rw [StateSpace.ofPools_lookup hkeyed', hpair]
    rfl
  unfold HasEdge
  rw [(buildGraph_spec _).2.2]
  constructor
  · rintro ⟨pool, hmem, htrades⟩
    have haddress : pool.address = a := by
      rcases htrades.2 with hkey | hkey
      · exact (congrArg Prod.fst hkey).symm
      · exact (congrArg Prod.fst hkey).symm
    rw [(StateSpace.ofPools_keyed hkeyed').mem_values_iff, haddress, hlookup] at hmem
    cases hmem
    exact htrades
  · intro htrades
    refine ⟨.moeLbPair pair, ?_, htrades⟩
    rw [(StateSpace.ofPools_keyed hkeyed').mem_values_iff]
    change (StateSpace.ofPools .moeLbPair pools).state.lookup pair.address = _
    rw [hkeyed a pair hpair]
    exact hlookup

/-- A run keeps the tokens of a pair exactly where it stores no slot-0 data for it. -/
theorem resyncAll_spec {run : List Resync} (hkeyed : KeyedPairs pools)
    (hpair : pools.lookup a = some pair) (h : resyncAll prof pools run = .ok pools') :
    KeyedPairs pools' ∧ ∃ pair', pools'.lookup a = some pair' ∧
      (NeverRefetched prof a pools run → pair'.tokenX = pair.tokenX ∧ pair'.tokenY = pair.tokenY) ∧
      (¬ NeverRefetched prof a pools run ∨ pair.tokenX.decimals = 0 →
        pair'.tokenX.decimals = 0) := by
  induction run generalizing pools pair with
  | nil =>
    cases h
    exact ⟨hkeyed, pair, hpair, fun _ => ⟨rfl, rfl⟩, by simp [NeverRefetched]⟩
  | cons r run ih =>
    unfold resyncAll at h
    rw [List.foldlM_cons, bind_eq_ok] at h
    obtain ⟨pools₁, hfirst, hrest⟩ := h
    obtain ⟨pair₁, hpair₁, htokens⟩ := Resync.apply_spec hkeyed hpair hfirst
    obtain ⟨hkeyed', pair', hpair', hsame, hlost⟩ :=
      ih (Resync.apply_keyed hkeyed hfirst) hpair₁ hrest
    have hnext : NeverRefetched prof a pools (r :: run) ↔
        (∀ slot, ¬ r.Refetches prof pools a slot) ∧ NeverRefetched prof a pools₁ run := by
      rw [NeverRefetched]
      refine and_congr_right fun _ => ⟨fun hrun => hrun pools₁ hfirst, fun hrun pools₂ h₂ => ?_⟩
      rw [hfirst] at h₂
      cases h₂
      exact hrun
    refine ⟨hkeyed', pair', hpair', ?_⟩
    rw [hnext]
    rcases htokens with ⟨hnone, htokenX, htokenY⟩ | ⟨slot, hslot, htokenX, -⟩
    · rw [← htokenX, ← htokenY]
      simp only [hnone, not_false_eq_true, implies_true, true_and]
      exact ⟨hsame, hlost⟩
    · refine ⟨fun hnever => absurd hslot (hnever.1 slot), fun _ => hlost (Or.inr ?_)⟩
      rw [htokenX]
      rfl

/-- **A pair stays in the graph exactly where no slot-0 data is stored for it**: in one batch, and
over any run of resynchronisations. -/
theorem staysInGraph_iff (prof : BuildProfile) :
    (∀ slots pairs i pair, pairs[i]? = some (.moeLbPair pair) → Extracted pair →
      ((∃ pair', (syncSlot0Batch slots pairs)[i]? = some (.moeLbPair pair') ∧
        SameDecimals pair pair' ∧ Extracted pair') ↔ slots (i / 255) = none)) ∧
    (∀ run pools pools' pair, KeyedPairs pools → pools.lookup pair.address = some pair →
      Extracted pair → resyncAll prof pools run = .ok pools' →
      (StaysInGraph pair pools' ↔ NeverRefetched prof pair.address pools run)) := by
  constructor
  · intro slots pairs i pair hi hpair
    exact syncSlot0Batch_extracted_iff hi hpair
  · intro run pools pools' pair hkeyed hpair hextracted h
    obtain ⟨hkeyed', pair', hpair', hsame, hlost⟩ := resyncAll_spec hkeyed hpair h
    constructor
    · rintro ⟨pair'', hpair'', -, hextracted'', -⟩
      rw [hpair'] at hpair''
      cases hpair''
      by_contra hrefetched
      exact (extracted_iff.mp hextracted'').1 (hlost (Or.inl hrefetched))
    · intro hnever
      obtain ⟨htokenX, htokenY⟩ := hsame hnever
      have hextracted' : Extracted pair' := by
        rw [extracted_iff, htokenX, htokenY]
        exact extracted_iff.mp hextracted
      have htrades : (AMM.moeLbPair pair').Tradable := extracted_iff.mp hextracted'
      have haddress := hkeyed' _ _ hpair'
      refine ⟨pair', hpair', ⟨by rw [htokenX], by rw [htokenY]⟩, hextracted', ?_, ?_⟩
      · rw [hasEdge_iff hkeyed' hpair', ← htokenX, ← htokenY]
        exact ⟨htrades, Or.inl (by rw [← haddress]; rfl)⟩
      · rw [hasEdge_iff hkeyed' hpair', ← htokenX, ← htokenY]
        exact ⟨htrades, Or.inr (by rw [← haddress]; rfl)⟩

/-- A pair with known decimals. -/
def freshPair : MoeLbPair := .feeless 10 100 5 5 ∅

/-- Slot-0 data of `freshPair`, with its own tokens. -/
def ownSlot : Slot0Data where
  tokenX := freshPair.tokenX.address
  tokenY := freshPair.tokenY.address
  activeId := 100
  binStep := 10
  reserveX := 5
  reserveY := 5
  baseFactor := 0
  filterPeriod := 30
  decayPeriod := 600
  reductionFactor := 5000
  variableFeeControl := 0
  protocolShare := 0
  maxVolatilityAccumulator := 100000
  volatilityAccumulator := 0
  volatilityReference := 0
  idReference := 100
  timeOfLastUpdate := 0

theorem extracted_freshPair : Extracted freshPair := ⟨_, rfl⟩

/-- A resynchronisation without changed pools. -/
def quietResync : Resync where
  changed := []
  nodup := List.nodup_nil
  slots _ := some fun _ => ownSlot
  calls _ _ := .ok fun _ _ => (0, 0)

theorem staysInGraph_freshPair :
    (∃ pair', (syncSlot0Batch (fun _ => none) [.moeLbPair freshPair])[0]? =
        some (.moeLbPair pair') ∧ SameDecimals freshPair pair' ∧ Extracted pair') ∧
    StaysInGraph freshPair ((∅ : HashMap Address MoeLbPair).insert 1 freshPair) := by
  have hkeyed : KeyedPairs ((∅ : HashMap Address MoeLbPair).insert 1 freshPair) := by
    intro b p hp
    rw [HashMap.lookup_insert] at hp
    split at hp
    · rename_i hb
      cases hp
      exact hb.symm
    · cases hp
  have hnever : NeverRefetched ⟨true⟩ freshPair.address
      ((∅ : HashMap Address MoeLbPair).insert 1 freshPair) [quietResync] := by
    refine ⟨?_, fun _ _ => trivial⟩
    rintro slot ⟨i, p, answer, hi, -⟩
    cases hi
  exact ⟨((staysInGraph_iff ⟨true⟩).1 _ _ 0 freshPair rfl extracted_freshPair).mpr rfl,
    ((staysInGraph_iff ⟨true⟩).2 [quietResync] _ _ freshPair hkeyed rfl extracted_freshPair
      rfl).mpr hnever⟩

/-- Its own slot-0 data take the decimals of the pair, and the pair out of the graph. -/
theorem freshPair_lost :
    Extracted freshPair ∧
    syncSlot0Batch (fun _ => some fun _ => ownSlot) [.moeLbPair freshPair] =
      [.moeLbPair (freshPair.withSlot0 ownSlot)] ∧
    ¬ SameDecimals freshPair (freshPair.withSlot0 ownSlot) ∧
    ¬ Extracted (freshPair.withSlot0 ownSlot) := by
  refine ⟨extracted_freshPair, rfl, fun h => ?_, fun h => ?_⟩
  · exact absurd h.1 (by decide)
  · exact (extracted_iff.mp h).1 rfl

end MoeMonitor

end ArbitrageBot
