import ArbitrageBot.Amms.Moe.BinSync

/-!
# What a batch synchronisation of bins does

Every Moe pair gets the bins of its window that the chain reports with a reserve. The other bins,
the empty ones of the window too, stay as they were.
-/

namespace ArbitrageBot

namespace MoeLbPair

variable {prof : BuildProfile} {pair pair' : MoeLbPair} {binsRadius start k n : Nat}
  {g : Nat → Nat × Nat}

/-- A reported bin that the synchronisation stores. -/
def Stores (reserves : Nat × Nat) : Prop :=
  (reserves.1 > 0 ∨ reserves.2 > 0) ∧ reserves.1 ≤ syncBin.MAX_BIN_RESERVE ∧
    reserves.2 ≤ syncBin.MAX_BIN_RESERVE

instance (reserves : Nat × Nat) : Decidable (Stores reserves) :=
  inferInstanceAs (Decidable (_ ∧ _ ∧ _))

/-- One entry of an answer, for an id that does not overflow. -/
theorem syncBin_eq (reserves : Nat × Nat) (h : start + k < 2 ^ 32) :
    ∃ bins, pair.syncBin prof start (reserves, k) = .ok { pair with bins } ∧
      ∀ id, bins.lookup id =
        if id = start + k ∧ Stores reserves then some ⟨reserves.1, reserves.2⟩
        else pair.bins.lookup id := by
  obtain ⟨reserveX, reserveY⟩ := reserves
  unfold syncBin Stores
  dsimp only
  by_cases hempty : reserveX > 0 ∨ reserveY > 0
  · have hid : prof.unsigned (ε := AMMError) 32 ((start : Int) + (k % 2 ^ 32 : Nat)) =
        .ok (start + k) := by
      rw [BuildProfile.unsigned_of_range (by omega) (by omega)]
      congr 1
      omega
    rw [if_pos hempty, hid, ok_bind]
    by_cases hlarge : reserveX > syncBin.MAX_BIN_RESERVE ∨ reserveY > syncBin.MAX_BIN_RESERVE
    · rw [if_pos hlarge]
      refine ⟨pair.bins, rfl, fun id => ?_⟩
      rw [if_neg]
      omega
    · rw [if_neg hlarge]
      refine ⟨_, rfl, fun id => ?_⟩
      by_cases hsame : id = start + k
      · rw [if_pos ⟨hsame, hempty, by omega, by omega⟩, hsame, AList.lookup_insert]
      · rw [if_neg (fun hboth => hsame hboth.1), AList.lookup_insert_ne hsame]
  · rw [if_neg hempty]
    refine ⟨pair.bins, rfl, fun id => ?_⟩
    rw [if_neg (fun hboth => hempty hboth.2.1)]

/-- The entries of an answer from the `k`-th on. -/
theorem foldlM_syncBin (h : ∀ id ∈ List.range' (start + k) n, id < 2 ^ 32) :
    ∃ bins, (((List.range' (start + k) n).map g).zipIdx k).foldlM
        (fun pair entry => syncBin prof pair start entry) pair = .ok { pair with bins } ∧
      ∀ id, bins.lookup id =
        if id ∈ List.range' (start + k) n ∧ Stores (g id) then some ⟨(g id).1, (g id).2⟩
        else pair.bins.lookup id := by
  induction n generalizing k pair with
  | zero =>
    refine ⟨pair.bins, rfl, fun id => ?_⟩
    rw [if_neg (fun hboth => by cases hboth.1)]
  | succ n ih =>
    rw [List.range'_succ, List.forall_mem_cons] at h
    obtain ⟨bins₁, hfirst, hbins₁⟩ := @syncBin_eq prof pair start k (g (start + k)) h.1
    obtain ⟨bins, hrest, hbins⟩ := @ih { pair with bins := bins₁ } (k + 1) h.2
    refine ⟨bins, ?_, fun id => ?_⟩
    · rw [List.range'_succ, List.map_cons, List.zipIdx_cons, List.foldlM_cons, hfirst, ok_bind]
      exact hrest
    · rw [hbins]
      simp only [List.range'_succ, List.mem_cons]
      by_cases hsame : id = start + k
      · have hnot : id ∉ List.range' (start + (k + 1)) n := by
          rw [List.mem_range'_1]
          omega
        rw [if_neg (fun hboth => hnot hboth.1)]
        simp only [hbins₁, hsame, true_and, true_or]
      · simp only [hbins₁, hsame, false_and, false_or, if_false]
        rfl

/-- The bin of an id after a synchronisation with a chain that answers `getBin`. -/
def syncedBin (pair : MoeLbPair) (binsRadius : Nat) (getBin : Address → Nat → Nat × Nat)
    (id : Nat) : Option BinReserve :=
  if id ∈ pair.windowIds binsRadius ∧ Stores (getBin pair.address id) then
    some ⟨(getBin pair.address id).1, (getBin pair.address id).2⟩
  else pair.bins.lookup id

/-- The row for a pair, where its request has not panicked. -/
theorem syncBins_eq {getBin : Address → Nat → Nat × Nat}
    (h : ∀ id ∈ pair.windowIds binsRadius, id < 2 ^ 24) :
    ∃ bins, pair.syncBins prof binsRadius
        ((pair.windowIds binsRadius).map (getBin pair.address)) = .ok { pair with bins } ∧
      ∀ id, bins.lookup id = pair.syncedBin binsRadius getBin id := by
  exact foldlM_syncBin (k := 0) fun id hid => Nat.lt_trans (h id hid) (by decide)

end MoeLbPair

/-! ## Chunks -/

/-- A pool after the synchronisation: a Moe pair has new bins, the others are as before. -/
def Synced (binsRadius : Nat) (getBin : Address → Nat → Nat × Nat) : AMM → AMM → Prop
  | .moeLbPair pair, amm' => ∃ bins, amm' = .moeLbPair { pair with bins } ∧
      ∀ id, bins.lookup id = pair.syncedBin binsRadius getBin id
  | amm, amm' => amm' = amm

variable {prof : BuildProfile} {binsRadius : Nat} {getBin : Address → Nat → Nat × Nat}
  {call : Nat → Outcome AMMError (Address → Nat → Nat × Nat)} {chunk chunk' pairs pairs' : List AMM}
  {requests : List BinDataRequest}

theorem binDataRequest_eq_ok {pair : MoeLbPair} {request : BinDataRequest}
    (h : pair.binDataRequest binsRadius = .ok request) :
    (∀ id ∈ pair.windowIds binsRadius, id < 2 ^ 24) ∧
      request = ⟨pair.address, pair.windowIds binsRadius⟩ := by
  unfold MoeLbPair.binDataRequest at h
  split at h
  · rename_i hids
    cases h
    exact ⟨hids, rfl⟩
  · cases h

/-- The pairs of a chunk each get the row of their request. -/
theorem syncChunk_synced (hrequests : chunkRequests binsRadius chunk = .ok requests)
    (h : syncChunk prof binsRadius chunk (getMoeLBPairBinData getBin requests) = .ok chunk') :
    List.Forall₂ (Synced binsRadius getBin) chunk chunk' := by
  induction chunk generalizing requests chunk' with
  | nil =>
    cases h
    exact .nil
  | cons amm chunk ih =>
    cases amm with
    | moeLbPair pair =>
      unfold chunkRequests at hrequests
      rw [bind_eq_ok] at hrequests
      obtain ⟨request, hrequest, hrequests⟩ := hrequests
      rw [bind_eq_ok] at hrequests
      obtain ⟨rest, hrest, hrequests⟩ := hrequests
      cases hrequests
      obtain ⟨hids, rfl⟩ := binDataRequest_eq_ok hrequest
      unfold getMoeLBPairBinData at h
      rw [List.map_cons] at h
      unfold syncChunk at h
      obtain ⟨bins, hbins, hlookup⟩ := pair.syncBins_eq hids
      rw [hbins, ok_bind, bind_eq_ok] at h
      obtain ⟨chunk₁, hchunk, h⟩ := h
      cases h
      exact .cons ⟨bins, rfl, hlookup⟩ (ih hrest hchunk)
    | _ =>
      simp only [chunkRequests] at hrequests
      simp only [syncChunk] at h
      rw [bind_eq_ok] at h
      obtain ⟨chunk₁, hchunk, h⟩ := h
      cases h
      exact .cons rfl (ih hrequests hchunk)

/-- A chunk without requests has no Moe pairs. -/
theorem synced_of_no_requests (getBin : Address → Nat → Nat × Nat)
    (h : chunkRequests binsRadius chunk = .ok []) :
    (∀ pair, AMM.moeLbPair pair ∉ chunk) ∧ List.Forall₂ (Synced binsRadius getBin) chunk chunk := by
  induction chunk with
  | nil => exact ⟨fun _ hmem => (by cases hmem), .nil⟩
  | cons amm chunk ih =>
    cases amm with
    | moeLbPair pair =>
      unfold chunkRequests at h
      rw [bind_eq_ok] at h
      obtain ⟨request, -, h⟩ := h
      rw [bind_eq_ok] at h
      obtain ⟨rest, -, h⟩ := h
      cases h
    | _ =>
      simp only [chunkRequests] at h
      obtain ⟨hnone, hforall⟩ := ih h
      refine ⟨fun pair hmem => ?_, .cons rfl hforall⟩
      rcases List.mem_cons.mp hmem with heq | hmem
      · cases heq
      · exact hnone pair hmem

theorem chunks5_of_ne_nil (h : pairs ≠ []) :
    chunks5 pairs = pairs.take 5 :: chunks5 (pairs.drop 5) := by
  match pairs with
  | [] => exact absurd rfl h
  | [_] | [_, _] | [_, _, _] | [_, _, _, _] => rfl
  | _ :: _ :: _ :: _ :: _ :: _ => rfl

/-- What becomes of the `i`-th pool, in a chunk that the chain answers by `answer`. -/
def SyncedAt (binsRadius : Nat) (answer : Outcome AMMError (Address → Nat → Nat × Nat))
    (amm amm' : AMM) : Prop :=
  ∃ getBin, (∀ pair, amm = .moeLbPair pair → answer = .ok getBin) ∧
    Synced binsRadius getBin amm amm'

/-- A run over the chunks is the first chunk and the run over the rest; a chunk without requests
is not asked for. -/
theorem syncChunks_cons {k : Nat} {rest : List (List AMM × List BinDataRequest)}
    (hrequests : chunkRequests binsRadius chunk = .ok requests)
    (h : syncChunks prof call binsRadius k ((chunk, requests) :: rest) = .ok pairs') :
    ∃ chunk' rest' getBin, List.Forall₂ (Synced binsRadius getBin) chunk chunk' ∧
      (∀ pair, AMM.moeLbPair pair ∈ chunk → call k = .ok getBin) ∧
      syncChunks prof call binsRadius (k + 1) rest = .ok rest' ∧ pairs' = chunk' ++ rest' := by
  cases requests with
  | nil =>
    unfold syncChunks at h
    rw [bind_eq_ok] at h
    obtain ⟨rest', hrest, h⟩ := h
    cases h
    obtain ⟨hnone, hforall⟩ := synced_of_no_requests (fun _ _ => (0, 0)) hrequests
    exact ⟨_, rest', _, hforall, fun pair hmem => absurd hmem (hnone pair), hrest, rfl⟩
  | cons request requests =>
    unfold syncChunks at h
    rw [bind_eq_ok] at h
    obtain ⟨getBin, hcall, h⟩ := h
    rw [bind_eq_ok] at h
    obtain ⟨chunk', hsynced, h⟩ := h
    rw [bind_eq_ok] at h
    obtain ⟨rest', hrest, h⟩ := h
    cases h
    exact ⟨chunk', rest', getBin, syncChunk_synced hrequests hsynced, fun _ _ => hcall, hrest, rfl⟩

theorem syncChunks_synced {k : Nat} {allRequests : List (List BinDataRequest)}
    (hrequests : (chunks5 pairs).mapM (chunkRequests binsRadius) = .ok allRequests)
    (h : syncChunks prof call binsRadius k ((chunks5 pairs).zip allRequests) = .ok pairs') :
    pairs'.length = pairs.length ∧ ∀ i amm, pairs[i]? = some amm →
      ∃ amm', pairs'[i]? = some amm' ∧ SyncedAt binsRadius (call (k + i / 5)) amm amm' := by
  induction hlen : pairs.length using Nat.strong_induction_on
    generalizing pairs pairs' k allRequests with
  | _ len ih =>
  by_cases hnil : pairs = []
  · subst hnil
    cases hrequests
    cases h
    exact ⟨hlen, fun i amm hi => by simp at hi⟩
  rw [chunks5_of_ne_nil hnil, List.mapM_cons, bind_eq_ok] at hrequests
  obtain ⟨requests, hchunk, hrequests⟩ := hrequests
  rw [bind_eq_ok] at hrequests
  obtain ⟨restRequests, hrest, hrequests⟩ := hrequests
  cases hrequests
  rw [chunks5_of_ne_nil hnil, List.zip_cons_cons] at h
  obtain ⟨chunk, rest, getBin, hforall, hcall, hgo, rfl⟩ := syncChunks_cons hchunk h
  have hpos := List.length_pos_iff.mpr hnil
  have hdrop : (pairs.drop 5).length = pairs.length - 5 := List.length_drop
  obtain ⟨hrestLen, hrestAt⟩ := ih (pairs.drop 5).length (by omega) hrest hgo rfl
  have hchunkLen : chunk.length = min 5 pairs.length := by
    rw [← hforall.length_eq, List.length_take]
  refine ⟨by rw [List.length_append]; omega, fun i amm hi => ?_⟩
  have hlt : i < pairs.length := (List.getElem?_eq_some_iff.mp hi).1
  by_cases hi5 : i < 5
  · have hichunk : i < chunk.length := by omega
    have htake : (pairs.take 5)[i]? = some amm := by
      rw [List.getElem?_take_of_lt hi5]
      exact hi
    obtain ⟨hitake, hamm⟩ := List.getElem?_eq_some_iff.mp htake
    have hsynced := hforall.get hitake hichunk
    simp only [List.get_eq_getElem] at hsynced
    rw [hamm] at hsynced
    refine ⟨chunk[i], ?_, getBin, fun pair hpair => ?_, hsynced⟩
    · rw [List.getElem?_append_left hichunk]
      exact List.getElem?_eq_getElem hichunk
    · have hzero : k + i / 5 = k := by omega
      rw [hzero]
      refine hcall pair ?_
      rw [← hpair]
      exact List.mem_of_getElem? htake
  · obtain ⟨amm', hamm', hat⟩ := hrestAt (i - 5) amm (by
      rw [List.getElem?_drop]
      rw [← hi]
      congr 1
      omega)
    have hindex : k + 1 + (i - 5) / 5 = k + i / 5 := by omega
    rw [hindex] at hat
    refine ⟨amm', ?_, hat⟩
    have hle : chunk.length ≤ i := by omega
    rw [List.getElem?_append_right hle, ← hamm']
    congr 1
    omega

/-- **A batch synchronisation stores what the chain reports for each window, and removes nothing.**
-/
theorem syncActiveBinsBatch_synced
    (h : syncActiveBinsBatch prof call pairs binsRadius = .ok pairs') :
    pairs'.length = pairs.length ∧ ∀ i amm, pairs[i]? = some amm →
      ∃ amm', pairs'[i]? = some amm' ∧ SyncedAt binsRadius (call (i / 5)) amm amm' := by
  unfold syncActiveBinsBatch at h
  dsimp only at h
  rw [bind_eq_ok] at h
  obtain ⟨allRequests, hrequests, h⟩ := h
  obtain ⟨hlen, hat⟩ := syncChunks_synced hrequests h
  simp only [Nat.zero_add] at hat
  exact ⟨hlen, hat⟩

end ArbitrageBot
