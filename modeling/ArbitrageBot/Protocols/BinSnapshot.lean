import ArbitrageBot.Amms.Moe.BinSyncSpec
import ArbitrageBot.Protocols.Resync

/-!
# Resynchronised bins

A resynchronisation only ever adds bins. What the chain reports empty is absent afterwards exactly
when it was absent before.
-/

namespace ArbitrageBot

open MoeMonitor

/-! ## One batch -/

/-- The ids from `active_id - bins_radius` to `active_id + bins_radius`. -/
def MoeLbPair.InWindow (pair : MoeLbPair) (binsRadius id : Nat) : Prop :=
  pair.activeId ≤ id + binsRadius ∧ id ≤ pair.activeId + binsRadius ∧ id < 2 ^ 32

/-- The bin of reported reserves: an empty bin is absent. -/
def reported (reserves : Nat × Nat) : Option BinReserve :=
  if reserves = (0, 0) then none else some ⟨reserves.1, reserves.2⟩

section Batch

variable (call : Nat → Outcome AMMError (Address → Nat → Nat × Nat)) (binsRadius : Nat)

/-- Every Moe pair holds what the chain reports for its window. -/
def IsSnapshot (pairs pairs' : List AMM) : Prop :=
  ∀ i pair, pairs[i]? = some (.moeLbPair pair) → ∃ pair' getBin,
    pairs'[i]? = some (.moeLbPair pair') ∧ call (i / 5) = .ok getBin ∧
    ∀ id, pair.InWindow binsRadius id →
      pair'.bins.lookup id = reported (getBin pair.address id)

/-- The bins that the chain reports empty are not there yet. -/
def EmptyAbsent (pairs : List AMM) : Prop :=
  ∀ i pair getBin, pairs[i]? = some (.moeLbPair pair) → call (i / 5) = .ok getBin →
    ∀ id, pair.InWindow binsRadius id → getBin pair.address id = (0, 0) →
      pair.bins.lookup id = none

end Batch

theorem mem_windowIds_iff {pair : MoeLbPair} {binsRadius id : Nat} :
    id ∈ pair.windowIds binsRadius ↔ pair.InWindow binsRadius id := by
  unfold MoeLbPair.windowIds MoeLbPair.InWindow MoeLbPair.startId MoeLbPair.endId
  rw [List.mem_range'_1]
  omega

variable {prof : BuildProfile} {call : Nat → Outcome AMMError (Address → Nat → Nat × Nat)}
  {binsRadius : Nat} {pairs pairs' : List AMM}

theorem isSnapshot_iff
    (hreserves : ∀ k getBin, call k = .ok getBin → ∀ a id,
      (getBin a id).1 ≤ 10 ^ 30 ∧ (getBin a id).2 ≤ 10 ^ 30)
    (h : syncActiveBinsBatch prof call pairs binsRadius = .ok pairs') :
    IsSnapshot call binsRadius pairs pairs' ↔ EmptyAbsent call binsRadius pairs := by
  obtain ⟨-, hat⟩ := syncActiveBinsBatch_synced h
  -- the bin of an id of the window
  have hbin : ∀ (pair : MoeLbPair) k getBin id, call k = .ok getBin →
      pair.InWindow binsRadius id → pair.syncedBin binsRadius getBin id =
        if getBin pair.address id = (0, 0) then pair.bins.lookup id
        else reported (getBin pair.address id) := by
    intro pair k getBin id hk hid
    obtain ⟨hX, hY⟩ := hreserves k getBin hk pair.address id
    unfold MoeLbPair.syncedBin MoeLbPair.Stores reported
    generalize getBin pair.address id = reserves at hX hY ⊢
    obtain ⟨x, y⟩ := reserves
    simp only [mem_windowIds_iff, hid, Prod.mk.injEq, true_and]
    by_cases hzero : x = 0 ∧ y = 0
    · rw [if_neg (by omega), if_pos hzero]
    · rw [if_pos ⟨by omega, hX, hY⟩, if_neg hzero, if_neg hzero]
  constructor
  · intro hsnapshot i pair getBin hi hcall id hid hzero
    obtain ⟨pair', getBin', hi', hcall', hbins⟩ := hsnapshot i pair hi
    obtain ⟨amm', hamm', getBin'', hcall'', bins, rfl, hlookup⟩ := hat i _ hi
    have hcall'' := hcall'' pair rfl
    rw [hcall] at hcall' hcall''
    cases hcall'
    cases hcall''
    rw [hi'] at hamm'
    cases hamm'
    have hsame := hbins id hid
    dsimp only at hsame
    rw [hlookup, hbin pair _ _ id hcall hid, if_pos hzero, hzero] at hsame
    exact hsame
  · intro habsent i pair hi
    obtain ⟨amm', hamm', getBin, hcall, bins, rfl, hlookup⟩ := hat i _ hi
    have hcall := hcall pair rfl
    refine ⟨_, getBin, hamm', hcall, fun id hid => ?_⟩
    dsimp only
    rw [hlookup, hbin pair _ _ id hcall hid]
    by_cases hzero : getBin pair.address id = (0, 0)
    · rw [if_pos hzero, habsent i pair getBin hi hcall id hid hzero, hzero]
      rfl
    · rw [if_neg hzero]

/-! ## A resynchronisation -/

section Resync

variable {chain : Address → Nat → Nat × Nat} {amm amm' : AMM}

/-- The pool stays the pool it was, with the same bins where the chain reports empty ones. -/
inductive KeepsEmpty (chain : Address → Nat → Nat × Nat) : AMM → AMM → Prop
  | refl (amm : AMM) : KeepsEmpty chain amm amm
  | pair {pair pair' : MoeLbPair} (haddress : pair'.address = pair.address)
      (hbins : ∀ id, chain pair.address id = (0, 0) →
        pair'.bins.lookup id = pair.bins.lookup id) :
      KeepsEmpty chain (.moeLbPair pair) (.moeLbPair pair')

theorem KeepsEmpty.trans {amm₁ amm₂ amm₃ : AMM} (h : KeepsEmpty chain amm₁ amm₂)
    (h' : KeepsEmpty chain amm₂ amm₃) : KeepsEmpty chain amm₁ amm₃ := by
  cases h with
  | refl => exact h'
  | @pair pair pair' haddress hbins =>
    cases h' with
    | refl => exact .pair haddress hbins
    | pair haddress' hbins' =>
      refine .pair (haddress'.trans haddress) fun id hid => ?_
      rw [hbins' id (haddress.symm ▸ hid), hbins id hid]

theorem syncSlot0Batch_keepsEmpty (slots : Nat → Option (Address → Slot0Data)) (pairs : List AMM) :
    List.Forall₂ (KeepsEmpty chain) pairs (syncSlot0Batch slots pairs) := by
  refine List.forall₂_iff_get.mpr ⟨List.length_mapIdx.symm, fun i hi hi' => ?_⟩
  simp only [List.get_eq_getElem, syncSlot0Batch, List.getElem_mapIdx]
  cases pairs[i] with
  | moeLbPair pair =>
    cases slots (i / 255) with
    | none => exact .refl _
    | some slot => exact .pair rfl fun _ _ => rfl
  | _ => exact .refl _

/-- A batch from a chain adds no bin that the chain reports empty, and removes none. -/
theorem batchStep_keepsEmpty {calls : Nat → Nat → Outcome AMMError (Address → Nat → Nat × Nat)}
    (hcalls : ∀ b k getBin, calls b k = .ok getBin → getBin = chain) :
    BatchStep calls (KeepsEmpty chain) where
  refl := .refl
  trans := KeepsEmpty.trans
  moved _ _ := .pair rfl fun _ _ => rfl
  synced := by
    intro batchIdx k getBin binsRadius pair bins hcall hlookup
    obtain rfl := hcalls _ _ _ hcall
    refine .pair rfl fun id hid => ?_
    dsimp only
    rw [hlookup]
    unfold MoeLbPair.syncedBin MoeLbPair.Stores
    rw [hid, if_neg]
    rintro ⟨-, hpos | hpos, -⟩ <;> cases hpos

variable {pools pools' : HashMap Address MoeLbPair} {changed : List Address}

/-- The pools of two maps are the same, with the same bins where the chain reports empty ones. -/
structure SameEmpty (chain : Address → Nat → Nat × Nat) (pools pools' : HashMap Address MoeLbPair) :
    Prop where
  forward : ∀ a pair, pools.lookup a = some pair → ∃ pair', pools'.lookup a = some pair' ∧
    ∀ id, chain a id = (0, 0) → pair'.bins.lookup id = pair.bins.lookup id
  back : ∀ a pair', pools'.lookup a = some pair' → ∃ pair, pools.lookup a = some pair ∧
    ∀ id, chain a id = (0, 0) → pair'.bins.lookup id = pair.bins.lookup id

protected theorem SameEmpty.refl (chain : Address → Nat → Nat × Nat)
    (pools : HashMap Address MoeLbPair) : SameEmpty chain pools pools :=
  ⟨fun _ pair h => ⟨pair, h, fun _ _ => rfl⟩, fun _ pair h => ⟨pair, h, fun _ _ => rfl⟩⟩

/-- Inserting a resynchronised pool. -/
theorem SameEmpty.insertPool (h : SameEmpty chain pools pools') {pair : MoeLbPair}
    (hpair : pools.lookup pair.address = some pair)
    (hkeeps : KeepsEmpty chain (.moeLbPair pair) amm) :
    SameEmpty chain pools (insertPool pools' amm) := by
  obtain ⟨pair', rfl, haddress, hbins⟩ : ∃ pair', amm = .moeLbPair pair' ∧
      pair'.address = pair.address ∧ ∀ id, chain pair.address id = (0, 0) →
        pair'.bins.lookup id = pair.bins.lookup id := by
    cases hkeeps with
    | refl => exact ⟨pair, rfl, rfl, fun _ _ => rfl⟩
    | pair haddress hbins => exact ⟨_, rfl, haddress, hbins⟩
  have hinsert : MoeMonitor.insertPool pools' (.moeLbPair pair') =
      pools'.insert pair.address pair' := by
    rw [← haddress]
    rfl
  rw [hinsert]
  constructor
  · intro a p hp
    by_cases ha : a = pair.address
    · subst ha
      rw [hpair] at hp
      cases hp
      exact ⟨pair', AList.lookup_insert _, hbins⟩
    · rw [AList.lookup_insert_ne ha]
      exact h.forward a p hp
  · intro a p hp
    by_cases ha : a = pair.address
    · subst ha
      rw [AList.lookup_insert] at hp
      cases hp
      exact ⟨pair, hpair, hbins⟩
    · rw [AList.lookup_insert_ne ha] at hp
      exact h.back a p hp

theorem SameEmpty.foldl_insertPool (h : SameEmpty chain pools pools') {pairs amms : List AMM}
    (hpairs : ∀ amm ∈ pairs, ∃ pair, amm = .moeLbPair pair ∧
      pools.lookup pair.address = some pair)
    (hkeeps : List.Forall₂ (KeepsEmpty chain) pairs amms) :
    SameEmpty chain pools (amms.foldl MoeMonitor.insertPool pools') := by
  induction hkeeps generalizing pools' with
  | nil => exact h
  | cons hhead _ ih =>
    obtain ⟨hfirst, hrest⟩ := List.forall_mem_cons.mp hpairs
    obtain ⟨pair, rfl, hpair⟩ := hfirst
    exact ih (h.insertPool hpair hhead) hrest

/-- A resynchronisation changes no bin that the chain reports empty. -/
theorem resyncChangedPools_sameEmpty {slots : Nat → Option (Address → Slot0Data)}
    {calls : Nat → Nat → Outcome AMMError (Address → Nat → Nat × Nat)}
    (hcalls : ∀ b k getBin, calls b k = .ok getBin → getBin = chain)
    (hkeyed : ∀ a pair, pools.lookup a = some pair → pair.address = a)
    (h : resyncChangedPools prof slots calls pools changed = .ok pools') :
    SameEmpty chain pools pools' := by
  have hstep := batchStep_keepsEmpty hcalls
  rcases resyncChangedPools_cases h with ⟨rfl, -⟩ | ⟨amms, hamms, rfl⟩
  · exact .refl chain _
  · refine (SameEmpty.refl chain pools).foldl_insertPool ?_
      (hstep.forall₂_trans (syncSlot0Batch_keepsEmpty slots _) (hstep.syncBinsInBatches hamms))
    intro amm hamm
    obtain ⟨a, -, hpool⟩ := List.mem_filterMap.mp hamm
    obtain ⟨pair, hpair, rfl⟩ := Option.map_eq_some_iff.mp hpool
    refine ⟨pair, rfl, ?_⟩
    rw [hkeyed a pair hpair]
    exact hpair

/-- The changed pools have no bin that the chain reports empty. -/
def NoEmptyBins (chain : Address → Nat → Nat × Nat) (changed : List Address)
    (pools : HashMap Address MoeLbPair) : Prop :=
  ∀ a ∈ changed, ∀ pair, pools.lookup a = some pair → ∀ id, chain a id = (0, 0) →
    pair.bins.lookup id = none

theorem SameEmpty.noEmptyBins_iff (h : SameEmpty chain pools pools') (changed : List Address) :
    NoEmptyBins chain changed pools' ↔ NoEmptyBins chain changed pools := by
  constructor
  · intro hafter a ha pair hpair id hid
    obtain ⟨pair', hpair', hbins⟩ := h.forward a pair hpair
    rw [← hbins id hid]
    exact hafter a ha pair' hpair' id hid
  · intro hbefore a ha pair' hpair' id hid
    obtain ⟨pair, hpair, hbins⟩ := h.back a pair' hpair'
    rw [hbins id hid]
    exact hbefore a ha pair hpair id hid

end Resync

/-- **A batch gives the snapshot of the chain exactly when what the chain reports empty was absent
before, and a resynchronisation leaves no such bin exactly when there was none.** -/
theorem binResync_iff (prof : BuildProfile) :
    (∀ call binsRadius pairs pairs',
      (∀ k getBin, call k = .ok getBin → ∀ a id,
        (getBin a id).1 ≤ 10 ^ 30 ∧ (getBin a id).2 ≤ 10 ^ 30) →
      syncActiveBinsBatch prof call pairs binsRadius = .ok pairs' →
      (IsSnapshot call binsRadius pairs pairs' ↔ EmptyAbsent call binsRadius pairs)) ∧
    (∀ slots calls chain pools pools' changed,
      (∀ b k getBin, calls b k = .ok getBin → getBin = chain) →
      (∀ a pair, pools.lookup a = some pair → pair.address = a) →
      resyncChangedPools prof slots calls pools changed = .ok pools' →
      (NoEmptyBins chain changed pools' ↔ NoEmptyBins chain changed pools)) := by
  constructor
  · intro call binsRadius pairs pairs' hreserves h
    exact isSnapshot_iff hreserves h
  · intro slots calls chain pools pools' changed hcalls hkeyed h
    exact (resyncChangedPools_sameEmpty hcalls hkeyed h).noEmptyBins_iff changed

/-- A pair that holds old reserves of two bins. -/
def tradedPair : MoeLbPair :=
  .feeless 10 8388608 8 5
    (((∅ : HashMap Nat BinReserve).insert 8388607 ⟨3, 0⟩).insert 8388608 ⟨5, 5⟩)

/-- The chain has other reserves in both, one more bin, and no others. -/
def tradedChain : Address → Nat → Nat × Nat := fun _ id =>
  if id = 8388607 then (2, 0) else if id = 8388608 then (7, 1) else if id = 8388610 then (0, 9)
  else (0, 0)

theorem tradedPair_noEmptyBins {a : Address} {id : Nat} (h : tradedChain a id = (0, 0)) :
    tradedPair.bins.lookup id = none := by
  unfold tradedChain at h
  unfold tradedPair MoeLbPair.feeless
  dsimp only
  rw [HashMap.lookup_insert, HashMap.lookup_insert]
  split_ifs at h ⊢ <;> first | rfl | cases h

def oneTradedPair : HashMap Address MoeLbPair :=
  (∅ : HashMap Address MoeLbPair).insert 1 tradedPair

/-- A batch replaces both bins; a resynchronisation replaces both and finds the third. -/
theorem binResync_iff_traded :
    (∃ pairs', syncActiveBinsBatch ⟨true⟩ (fun _ => .ok tradedChain) [.moeLbPair tradedPair] 1 =
        .ok pairs' ∧
      IsSnapshot (fun _ => .ok tradedChain) 1 [.moeLbPair tradedPair] pairs') ∧
    ∃ pools' pair', resyncChangedPools ⟨true⟩ (fun _ => none) (fun _ _ => .ok tradedChain)
        oneTradedPair [1] = .ok pools' ∧
      NoEmptyBins tradedChain [1] pools' ∧ pools'.lookup 1 = some pair' ∧
      pair'.bins.lookup 8388608 = some ⟨7, 1⟩ ∧ pair'.bins.lookup 8388610 = some ⟨0, 9⟩ := by
  have hreserves : ∀ (k : Nat) getBin, (Except.ok tradedChain : Outcome AMMError _) = .ok getBin →
      ∀ a id, (getBin a id).1 ≤ 10 ^ 30 ∧ (getBin a id).2 ≤ 10 ^ 30 := by
    intro k getBin hk a id
    cases hk
    unfold tradedChain
    split_ifs <;> decide
  constructor
  · refine ⟨_, rfl,
      ((binResync_iff ⟨true⟩).1 (fun _ => .ok tradedChain) 1 _ _ hreserves rfl).mpr ?_⟩
    intro i pair getBin hi hcall id _ hzero
    cases hcall
    cases i with
    | zero =>
      cases hi
      exact tradedPair_noEmptyBins hzero
    | succ i => cases hi
  · have hsync : ∃ pools' pair', resyncChangedPools ⟨true⟩ (fun _ => none)
        (fun _ _ => .ok tradedChain) oneTradedPair [1] = .ok pools' ∧
        pools'.lookup 1 = some pair' ∧ pair'.bins.lookup 8388608 = some ⟨7, 1⟩ ∧
        pair'.bins.lookup 8388610 = some ⟨0, 9⟩ := ⟨_, _, rfl, rfl, rfl, rfl⟩
    obtain ⟨pools', pair', hpools, hpair, hbins⟩ := hsync
    have hbefore : ∀ a pair, oneTradedPair.lookup a = some pair → a = 1 ∧ pair = tradedPair := by
      intro a pair ha
      unfold oneTradedPair at ha
      rw [HashMap.lookup_insert] at ha
      split at ha
      · rename_i hone
        cases ha
        exact ⟨hone, rfl⟩
      · cases ha
    refine ⟨pools', pair', hpools, ?_, hpair, hbins⟩
    refine ((binResync_iff ⟨true⟩).2 (fun _ => none) (fun _ _ => .ok tradedChain) tradedChain
      oneTradedPair pools' [1] ?_ ?_ hpools).mpr ?_
    · intro b k getBin hk
      cases hk
      rfl
    · intro a pair ha
      obtain ⟨rfl, rfl⟩ := hbefore a pair ha
      rfl
    · intro a _ pair ha id hid
      obtain ⟨-, rfl⟩ := hbefore a pair ha
      exact tradedPair_noEmptyBins hid

/-- A pair with one bin, which the chain reports empty. -/
def drainedPair : MoeLbPair :=
  .feeless 10 100 5 5 ((∅ : HashMap Nat BinReserve).insert 100 ⟨5, 5⟩)

/-- A chain whose bins are all empty. -/
def emptyChain : Nat → Outcome AMMError (Address → Nat → Nat × Nat) :=
  fun _ => .ok fun _ _ => (0, 0)

/-- The pair keeps its bin. -/
theorem not_isSnapshot_drained : ∃ pairs',
    syncActiveBinsBatch ⟨true⟩ emptyChain [.moeLbPair drainedPair] 1 = .ok pairs' ∧
    ¬ IsSnapshot emptyChain 1 [.moeLbPair drainedPair] pairs' := by
  refine ⟨_, rfl, fun hsnapshot => ?_⟩
  obtain ⟨pair', getBin, hpair', hcall, hbins⟩ := hsnapshot 0 drainedPair rfl
  cases hpair'
  cases hcall
  have hbin := hbins 100 ⟨by decide, by decide, by decide⟩
  cases hbin

end ArbitrageBot
