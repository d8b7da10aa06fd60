import ArbitrageBot.Amms.Moe.BinSyncSpec
import ArbitrageBot.Protocols.MoeMonitor

/-!
# What a resynchronisation does to the pools

The batches of a resynchronisation move the active ids of the pairs, insert bins, and put the active
ids back. What every such step preserves holds between a pool and the pool after all batches.
-/

namespace ArbitrageBot

namespace MoeMonitor

/-- A relation that the steps of the batches keep, on a chain that answers by `calls`. -/
structure BatchStep (calls : Nat → Nat → Outcome AMMError (Address → Nat → Nat × Nat))
    (R : AMM → AMM → Prop) : Prop where
  refl : ∀ amm, R amm amm
  trans : ∀ {amm₁ amm₂ amm₃}, R amm₁ amm₂ → R amm₂ amm₃ → R amm₁ amm₃
  moved : ∀ pair activeId, R (.moeLbPair pair) (.moeLbPair { pair with activeId })
  synced : ∀ {batchIdx k getBin binsRadius} {pair : MoeLbPair} {bins : HashMap Nat BinReserve},
    calls batchIdx k = .ok getBin →
    (∀ id, bins.lookup id = pair.syncedBin binsRadius getBin id) →
    R (.moeLbPair pair) (.moeLbPair { pair with bins })

namespace BatchStep

variable {prof : BuildProfile} {R : AMM → AMM → Prop} {pairs pairs' : List AMM}
  {calls : Nat → Nat → Outcome AMMError (Address → Nat → Nat × Nat)} {radius batchSize : Nat}

theorem forall₂_trans (hR : BatchStep calls R) {amms₁ amms₂ amms₃ : List AMM}
    (h : List.Forall₂ R amms₁ amms₂) (h' : List.Forall₂ R amms₂ amms₃) :
    List.Forall₂ R amms₁ amms₃ := by
  induction h generalizing amms₃ with
  | nil => exact h'
  | cons hhead _ ih =>
    cases h' with
    | cons hhead' htail' => exact .cons (hR.trans hhead hhead') (ih htail')

theorem setActiveId (hR : BatchStep calls R) (amm : AMM) (activeId : Nat) :
    R amm (setActiveId amm activeId) := by
  cases amm with
  | moeLbPair pair => exact hR.moved pair activeId
  | _ => exact hR.refl _

theorem shiftActiveIds (hR : BatchStep calls R) {centerOffset : Int} {ids : List Nat}
    (h : shiftActiveIds prof centerOffset pairs ids = .ok pairs') :
    List.Forall₂ R pairs pairs' := by
  induction pairs generalizing ids pairs' with
  | nil =>
    simp only [MoeMonitor.shiftActiveIds] at h
    cases h
    exact .nil
  | cons amm amms ih =>
    have hkeep : ∀ {ids : List Nat}, (do
        let amms ← MoeMonitor.shiftActiveIds prof centerOffset amms ids.tail
        return amm :: amms) = Except.ok pairs' → List.Forall₂ R (amm :: amms) pairs' := by
      intro ids h
      rw [bind_eq_ok] at h
      obtain ⟨rest, hrest, h⟩ := h
      cases h
      exact .cons (hR.refl _) (ih hrest)
    cases amm with
    | moeLbPair pair =>
      cases ids with
      | nil =>
        simp only [MoeMonitor.shiftActiveIds] at h
        exact @hkeep [] h
      | cons originalActiveId ids =>
        simp only [MoeMonitor.shiftActiveIds] at h
        rw [bind_eq_ok] at h
        obtain ⟨activeId, -, h⟩ := h
        rw [bind_eq_ok] at h
        obtain ⟨rest, hrest, h⟩ := h
        cases h
        exact .cons (hR.moved pair activeId) (ih hrest)
    | _ =>
      simp only [MoeMonitor.shiftActiveIds] at h
      exact hkeep h

theorem syncActiveBinsBatch (hR : BatchStep calls R) {batchIdx binsRadius : Nat}
    (h : syncActiveBinsBatch prof (calls batchIdx) pairs binsRadius = .ok pairs') :
    List.Forall₂ R pairs pairs' := by
  obtain ⟨hlen, hat⟩ := syncActiveBinsBatch_synced h
  refine List.forall₂_iff_get.mpr ⟨hlen.symm, fun i hi hi' => ?_⟩
  obtain ⟨amm', hamm', getBin, hanswer, hsynced⟩ := hat i pairs[i] (List.getElem?_eq_getElem hi)
  rw [List.getElem?_eq_getElem hi'] at hamm'
  simp only [List.get_eq_getElem]
  cases hamm'
  cases hamm : pairs[i] with
  | moeLbPair pair =>
    rw [hamm] at hsynced
    obtain ⟨bins, hpair, hlookup⟩ := hsynced
    rw [hpair]
    exact hR.synced (hanswer pair hamm) hlookup
  | _ =>
    rw [hamm] at hsynced
    rw [hsynced]
    exact hR.refl _

theorem syncBatch (hR : BatchStep calls R) {ids : List Nat} {batchIdx : Nat}
    (h : syncBatch prof calls radius batchSize ids pairs batchIdx = .ok pairs') :
    List.Forall₂ R pairs pairs' := by
  unfold MoeMonitor.syncBatch at h
  simp only [bind_eq_ok] at h
  obtain ⟨_, -, _, -, centerOffset, -, shifted, hshift, hsync⟩ := h
  exact hR.forall₂_trans (hR.shiftActiveIds hshift) (hR.syncActiveBinsBatch hsync)

theorem foldlM_syncBatch (hR : BatchStep calls R) {ids batches : List Nat}
    (h : batches.foldlM (MoeMonitor.syncBatch prof calls radius batchSize ids) pairs = .ok pairs') :
    List.Forall₂ R pairs pairs' := by
  induction batches generalizing pairs with
  | nil =>
    cases h
    exact List.forall₂_same.mpr fun amm _ => hR.refl amm
  | cons batchIdx batches ih =>
    rw [List.foldlM_cons, bind_eq_ok] at h
    obtain ⟨amms, hbatch, hrest⟩ := h
    exact hR.forall₂_trans (hR.syncBatch hbatch) (ih hrest)

/-- Restoring the active ids. -/
theorem zipWith_setActiveId (hR : BatchStep calls R) {ids : List Nat}
    (h : List.Forall₂ R pairs pairs') (hlen : pairs.length = ids.length) :
    List.Forall₂ R pairs (pairs'.zipWith MoeMonitor.setActiveId ids) := by
  induction h generalizing ids with
  | nil => exact .nil
  | cons hhead _ ih =>
    cases ids with
    | nil => cases hlen
    | cons id ids =>
      exact .cons (hR.trans hhead (hR.setActiveId _ id)) (ih (Nat.succ.inj hlen))

/-- **What the steps keep holds from the pools to the pools after all batches.** -/
theorem syncBinsInBatches (hR : BatchStep calls R)
    (h : syncBinsInBatches prof calls pairs radius batchSize = .ok pairs') :
    List.Forall₂ R pairs pairs' := by
  unfold MoeMonitor.syncBinsInBatches at h
  dsimp only at h
  simp only [bind_eq_ok] at h
  obtain ⟨totalRange, -, sum, -, rounded, -, h⟩ := h
  split at h
  · cases h
  rw [bind_eq_ok] at h
  obtain ⟨amms, hbatches, h⟩ := h
  cases h
  exact hR.zipWith_setActiveId (hR.foldlM_syncBatch hbatches) (List.length_map ..).symm

end BatchStep

/-! ## The pools of the service -/

variable {prof : BuildProfile} {pools pools' : HashMap Address MoeLbPair} {changed : List Address}
  {slots : Nat → Option (Address → Slot0Data)}
  {calls : Nat → Nat → Outcome AMMError (Address → Nat → Nat × Nat)}

/-- The changed pools, as a resynchronisation takes them. -/
def poolsToResync (pools : HashMap Address MoeLbPair) (changed : List Address) : List AMM :=
  changed.filterMap fun a => (pools.lookup a).map AMM.moeLbPair

/-- The pools stay, or the batches have returned pools that are inserted. -/
theorem resyncChangedPools_cases
    (h : resyncChangedPools prof slots calls pools changed = .ok pools') :
    (pools' = pools ∧ ∀ amms,
      MoeMonitor.syncBinsInBatches prof calls (syncSlot0Batch slots (poolsToResync pools changed))
        BINS_RADIUS BINS_BATCH_SIZE = .ok amms → poolsToResync pools changed = []) ∨
    ∃ amms, MoeMonitor.syncBinsInBatches prof calls
        (syncSlot0Batch slots (poolsToResync pools changed)) BINS_RADIUS BINS_BATCH_SIZE =
          .ok amms ∧
      pools' = amms.foldl insertPool pools := by
  unfold resyncChangedPools at h
  dsimp only at h
  change (if (poolsToResync pools changed).isEmpty then _ else _) = _ at h
  split at h
  · rename_i hempty
    cases h
    exact Or.inl ⟨rfl, fun _ _ => List.isEmpty_iff.mp hempty⟩
  · split at h
    · rename_i amms hamms
      cases h
      exact Or.inr ⟨amms, hamms, rfl⟩
    · rename_i e he
      cases h
      refine Or.inl ⟨rfl, fun amms hamms => ?_⟩
      unfold poolsToResync at hamms
      rw [he] at hamms
      cases hamms
    · cases h

theorem poolsToResync_nodup (hchanged : changed.Nodup)
    (hkeyed : ∀ a pair, pools.lookup a = some pair → pair.address = a) :
    ((poolsToResync pools changed).map (·.address)).Nodup := by
  have hsub : List.Sublist ((poolsToResync pools changed).map (·.address)) changed := by
    unfold poolsToResync
    induction changed with
    | nil => simp
    | cons a changed ih =>
      have ih := ih (List.nodup_cons.mp hchanged).2
      cases hpair : pools.lookup a with
      | none =>
        simp only [List.filterMap_cons, hpair, Option.map_none]
        exact ih.cons a
      | some pair =>
        have haddress : (AMM.moeLbPair pair).address = a := hkeyed a pair hpair
        simp only [List.filterMap_cons, hpair, Option.map_some, List.map_cons, haddress]
        exact ih.cons_cons a
  exact hsub.nodup hchanged

/-- The entry of a pool after the insertions: the one of the list at its address, if there is one.
-/
theorem lookup_foldl_insertPool {amms : List AMM}
    (hmoe : ∀ amm ∈ amms, ∃ pair, amm = .moeLbPair pair)
    (hnodup : (amms.map (·.address)).Nodup) (a : Address) :
    (∀ pair, AMM.moeLbPair pair ∈ amms → pair.address = a →
      (amms.foldl insertPool pools).lookup a = some pair) ∧
    (a ∉ amms.map (·.address) → (amms.foldl insertPool pools).lookup a = pools.lookup a) := by
  induction amms generalizing pools with
  | nil => simp
  | cons amm amms ih =>
    obtain ⟨hfirst, hrest⟩ := List.forall_mem_cons.mp hmoe
    obtain ⟨p, rfl⟩ := hfirst
    rw [List.map_cons, List.nodup_cons] at hnodup
    have ih := @ih (pools.insert p.address p) hrest hnodup.2
    rw [List.foldl_cons]
    change _ ∧ (_ → (amms.foldl insertPool (pools.insert p.address p)).lookup a = _)
    constructor
    · intro pair hpair ha
      rcases List.mem_cons.mp hpair with heq | hpair
      · cases heq
        subst ha
        exact (ih.2 hnodup.1).trans (AList.lookup_insert _)
      · exact ih.1 pair hpair ha
    · intro ha
      rw [List.map_cons, List.mem_cons, not_or] at ha
      exact (ih.2 ha.2).trans (AList.lookup_insert_ne ha.1)

end MoeMonitor

end ArbitrageBot
