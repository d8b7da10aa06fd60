import ArbitrageBot.Contracts.WmntValue
import ArbitrageBot.StateSpace.ValueFilter

/-!
# What the value filter keeps

The batch contract has two types of pools, numbered from 0, and the filter numbers its pools from 1:
a V2 pool is valued as a V3 pool, and a pool of any other kind makes the whole call fail. So the
filter gives an answer for lists of V2 pools only.
-/

namespace ArbitrageBot

open Lib.Batches

namespace ValueFilter

variable {self : ValueFilter} {chain : ValueChain} {group : List AMM}

/-! ## One call -/

theorem mapM_eq_some {α β : Type} {f : α → Option β} {g : α → β} {l : List α}
    (h : ∀ a ∈ l, f a = some (g a)) : l.mapM f = some (l.map g) := by
  induction l with
  | nil => rfl
  | cons a l ih =>
    obtain ⟨ha, hl⟩ := List.forall_mem_cons.mp h
    rw [List.mapM_cons, ha, ih hl]
    rfl

theorem exists_of_mapM_eq_some {α β : Type} {f : α → Option β} {l : List α} {l' : List β}
    (h : l.mapM f = some l') : ∀ a ∈ l, ∃ b, f a = some b := by
  induction l generalizing l' with
  | nil => exact fun a ha => absurd ha List.not_mem_nil
  | cons a l ih =>
    rw [List.mapM_cons] at h
    obtain ⟨b, hb, h⟩ := Option.bind_eq_some_iff.mp h
    obtain ⟨bs, hbs, -⟩ := Option.bind_eq_some_iff.mp h
    exact List.forall_mem_cons.mpr ⟨⟨b, hb⟩, ih hbs⟩

def IsV2 : AMM → Prop
  | .uniswapV2Pool _ => True
  | _ => False

/-- The contract takes the number of a V2 pool for that of a V3 pool, and knows no other. -/
theorem decodePoolType_poolInfo (amm : AMM) :
    IsV2 amm ∧ WmntValueInPools.decodePoolType (poolInfo amm).1 = some .uniswapV3 ∨
      ¬ IsV2 amm ∧ WmntValueInPools.decodePoolType (poolInfo amm).1 = none := by
  cases amm with
  | uniswapV2Pool pool => exact .inl ⟨trivial, rfl⟩
  | uniswapV3Pool pool => exact .inr ⟨id, rfl⟩
  | agniPool pool => exact .inr ⟨id, rfl⟩
  | moeLbPair pair => exact .inr ⟨id, rfl⟩

/-- The pools of a chunk are V2 pools, and these are their values. -/
def ValuedBy (self : ValueFilter) (chain : ValueChain) (group : List AMM) (value : Address → U256) :
    Prop :=
  ∀ amm ∈ group, IsV2 amm ∧
    self.contract.handleUniswapV3Pool chain amm.address = some (value amm.address)

theorem decode_eq (h : ∀ amm ∈ group, IsV2 amm) :
    ((group.map poolInfo).mapM fun info =>
      (WmntValueInPools.decodePoolType info.1).map fun poolType => (poolType, info.2)) =
      some (group.map fun amm => (.uniswapV3, amm.address)) := by
  rw [mapM_eq_some (g := fun info => (.uniswapV3, info.2)), List.map_map]
  · rfl
  · refine List.forall_mem_map.mpr fun amm hamm => ?_
    rcases decodePoolType_poolInfo amm with ⟨-, htype⟩ | ⟨hnot, -⟩
    · rw [htype]
      rfl
    · exact absurd (h amm hamm) hnot

theorem batchRequest_eq {value : Address → U256} (h : self.ValuedBy chain group value) :
    self.contract.batchRequest chain (group.map poolInfo) =
      some (group.map fun amm => ⟨.uniswapV3, amm.address, value amm.address⟩) := by
  unfold WmntValueInPools.batchRequest
  rw [decode_eq fun amm hamm => (h amm hamm).1, Option.bind_eq_bind, Option.bind_some]
  unfold WmntValueInPools.getWmntValueInPools
  rw [mapM_eq_some (g := fun info => ⟨.uniswapV3, info.2, value info.2⟩), List.map_map]
  · rfl
  · refine List.forall_mem_map.mpr fun amm hamm => ?_
    change (self.contract.handleUniswapV3Pool chain amm.address >>= _) = _
    rw [(h amm hamm).2]
    rfl

/-- A chunk that is answered has V2 pools only, and all of them have a value. -/
theorem valuedBy_of_batchRequest {returnData : List WmntValueInPools.PoolInfoReturn}
    (h : self.contract.batchRequest chain (group.map poolInfo) = some returnData) :
    self.ValuedBy chain group fun a =>
      (self.contract.handleUniswapV3Pool chain a).getD 0 := by
  unfold WmntValueInPools.batchRequest at h
  obtain ⟨pools, hpools, hvalues⟩ := Option.bind_eq_some_iff.mp h
  have hv2 : ∀ amm ∈ group, IsV2 amm := by
    intro amm hamm
    obtain ⟨b, hb⟩ := exists_of_mapM_eq_some hpools _ (List.mem_map_of_mem hamm)
    rcases decodePoolType_poolInfo amm with ⟨hv2, -⟩ | ⟨-, hnone⟩
    · exact hv2
    · rw [hnone] at hb
      cases hb
  obtain rfl := Option.some.inj ((decode_eq hv2).symm.trans hpools)
  intro amm hamm
  obtain ⟨b, hb⟩ := exists_of_mapM_eq_some hvalues (.uniswapV3, amm.address)
    (List.mem_map_of_mem hamm)
  obtain ⟨value, hvalue, -⟩ := Option.bind_eq_some_iff.mp hb
  dsimp only at hvalue ⊢
  rw [hvalue]
  exact ⟨hv2 amm hamm, rfl⟩

theorem lookup_infos (value : Address → U256) (group : List AMM)
    (infos : HashMap Address WmntValueInPools.PoolInfoReturn) (a : Address) :
    ((group.map fun amm => (⟨.uniswapV3, amm.address, value amm.address⟩ :
        WmntValueInPools.PoolInfoReturn)).foldl
      (fun infos info => infos.insert info.poolAddress info) infos).lookup a =
      if a ∈ group.map (·.address) then some ⟨.uniswapV3, a, value a⟩ else infos.lookup a := by
  induction group generalizing infos with
  | nil => rfl
  | cons amm group ih =>
    rw [List.map_cons, List.foldl_cons, ih, HashMap.lookup_insert, List.map_cons]
    by_cases ha : a ∈ group.map (·.address)
    · rw [if_pos ha, if_pos (List.mem_cons_of_mem _ ha)]
    · rw [if_neg ha]
      by_cases heq : a = amm.address
      · subst heq
        rw [if_pos rfl, if_pos List.mem_cons_self]
      · rw [if_neg heq, if_neg fun hmem => (List.mem_cons.mp hmem).elim heq ha]

/-- **One call**: the values of the pools, by address. -/
theorem getWmntValueInPools_eq {call : Option ValueChain}
    {infos : HashMap Address WmntValueInPools.PoolInfoReturn}
    (h : self.getWmntValueInPools call (group.map poolInfo) = .ok infos) :
    ∃ chain, call = some chain ∧
      (self.ValuedBy chain group fun a => (self.contract.handleUniswapV3Pool chain a).getD 0) ∧
      ∀ a, infos.lookup a = if a ∈ group.map (·.address) then
        some ⟨.uniswapV3, a, (self.contract.handleUniswapV3Pool chain a).getD 0⟩ else none := by
  unfold getWmntValueInPools at h
  split at h
  · cases h
  · rename_i returnData hdata
    cases h
    obtain ⟨chain, rfl, hrequest⟩ := Option.bind_eq_some_iff.mp hdata
    have hvalued := valuedBy_of_batchRequest hrequest
    refine ⟨chain, rfl, hvalued, fun a => ?_⟩
    obtain rfl := Option.some.inj ((batchRequest_eq hvalued).symm.trans hrequest)
    exact lookup_infos (fun a => (self.contract.handleUniswapV3Pool chain a).getD 0) group ∅ a

/-! ## All calls -/

/-- Every chunk from call `n` on is answered, and its pools are V2 pools with these values. -/
def AllValued (self : ValueFilter) (calls : Nat → Option ValueChain) (chunks : List (List AMM))
    (n : Nat) (value : Address → U256) : Prop :=
  ∀ (i : Nat) chunk, chunks[i]? = some chunk →
    ∃ chain, calls (n + i) = some chain ∧ self.ValuedBy chain chunk value

/-- The loop over the results. -/
def collect (self : ValueFilter) (calls : Nat → Option ValueChain) (chunks : List (List AMM))
    (n : Nat) (infos : HashMap Address WmntValueInPools.PoolInfoReturn) :
    Outcome Unit (HashMap Address WmntValueInPools.PoolInfoReturn) :=
  (((chunks.map (List.map poolInfo)).zipIdx n).map fun chunk =>
    self.getWmntValueInPools (calls chunk.2) chunk.1).foldlM (fun poolInfoReturns result =>
      result >>= fun infos => .ok (infos ∪ poolInfoReturns)) infos

variable {calls : Nat → Option ValueChain} {chunks : List (List AMM)} {n : Nat}
  {infos infos' : HashMap Address WmntValueInPools.PoolInfoReturn}

theorem collect_cons {chunk : List AMM} :
    self.collect calls (chunk :: chunks) n infos =
      self.getWmntValueInPools (calls n) (chunk.map poolInfo) >>= fun new =>
        self.collect calls chunks (n + 1) (new ∪ infos) := by
  unfold collect
  rw [List.map_cons, List.zipIdx_cons, List.map_cons, List.foldlM_cons]
  cases self.getWmntValueInPools (calls n) (chunk.map poolInfo) <;> rfl

/-- The value that is kept of a pool. -/
def valueOf (infos : HashMap Address WmntValueInPools.PoolInfoReturn) (a : Address) : U256 :=
  ((infos.lookup a).map (·.wmntValue)).getD 0

/-- **What the calls bring**, where no pool is in two chunks. -/
theorem allValued_of_collect (hnodup : (chunks.flatten.map (·.address)).Nodup)
    (h : self.collect calls chunks n infos = .ok infos') :
    self.AllValued calls chunks n (valueOf infos') ∧
      (∀ a ∈ chunks.flatten.map (·.address), (infos'.lookup a).isSome) ∧
      ∀ a, a ∉ chunks.flatten.map (·.address) → infos'.lookup a = infos.lookup a := by
  induction chunks generalizing n infos with
  | nil =>
    cases h
    exact ⟨fun i chunk hi => (by cases hi), fun a ha => absurd ha List.not_mem_nil, fun _ _ => rfl⟩
  | cons chunk chunks ih =>
    rw [collect_cons] at h
    obtain ⟨new, hnew, hrest⟩ := bind_eq_ok.mp h
    obtain ⟨chain, hchain, hvalued, hlookup⟩ := getWmntValueInPools_eq hnew
    rw [List.flatten_cons, List.map_append, List.nodup_append] at hnodup
    obtain ⟨-, hnodup, hdisjoint⟩ := hnodup
    obtain ⟨hall, hsome, hframe⟩ := ih hnodup hrest
    -- a pool of this chunk is in no later one
    have hfirst : ∀ a ∈ chunk.map (·.address), infos'.lookup a =
        some ⟨.uniswapV3, a, (self.contract.handleUniswapV3Pool chain a).getD 0⟩ := by
      intro a ha
      have hnew := hlookup a
      rw [if_pos ha] at hnew
      rw [hframe a fun hmem => hdisjoint a ha a hmem rfl, AList.lookup_union_left, hnew]
      exact AList.lookup_isSome.mp (by rw [hnew]; rfl)
    refine ⟨fun i chunk' hi => ?_, fun a ha => ?_, fun a ha => ?_⟩
    · cases i with
      | zero =>
        cases hi
        refine ⟨chain, hchain, fun amm hamm => ⟨(hvalued amm hamm).1, ?_⟩⟩
        rw [(hvalued amm hamm).2, valueOf, hfirst _ (List.mem_map_of_mem hamm)]
        rfl
      | succ i =>
        obtain ⟨chain', hchain', hvalued'⟩ := hall i chunk' hi
        exact ⟨chain', by rw [← hchain']; congr 1; omega, hvalued'⟩
    · rw [List.flatten_cons, List.map_append, List.mem_append] at ha
      rcases ha with ha | ha
      · rw [hfirst a ha]
        rfl
      · exact hsome a ha
    · rw [List.flatten_cons, List.map_append, List.mem_append, not_or] at ha
      have hnone := hlookup a
      rw [if_neg ha.1] at hnone
      rw [hframe a ha.2, AList.lookup_union_right]
      exact AList.lookup_eq_none.mp hnone

/-- Chunks that are all valued are collected. -/
theorem exists_collect {value : Address → U256} (h : self.AllValued calls chunks n value) :
    ∃ infos', self.collect calls chunks n infos = .ok infos' := by
  induction chunks generalizing n infos with
  | nil => exact ⟨infos, rfl⟩
  | cons chunk chunks ih =>
    obtain ⟨chain, hchain, hvalued⟩ := h 0 chunk rfl
    have hcall : ∃ new, self.getWmntValueInPools (calls n) (chunk.map poolInfo) = .ok new := by
      unfold getWmntValueInPools
      rw [Nat.add_zero] at hchain
      rw [hchain, Option.bind_some, batchRequest_eq hvalued]
      exact ⟨_, rfl⟩
    obtain ⟨new, hnew⟩ := hcall
    rw [collect_cons, hnew]
    refine ih fun i chunk' hi => ?_
    obtain ⟨chain', hchain', hvalued'⟩ := h (i + 1) chunk' hi
    exact ⟨chain', by rw [← hchain']; congr 1; omega, hvalued'⟩

theorem filter_eq {chunkSize : Nat} (hchunk : 0 < chunkSize) (amms : List AMM) :
    self.filter chunkSize calls amms =
      self.collect calls (windows chunkSize amms) 0 ∅ >>= fun infos => .ok (amms.filter fun amm =>
        (infos.lookup amm.address).any fun info => info.wmntValue > self.minWmntThreshold) := by
  unfold filter collect
  rw [if_neg (by omega), ← windows_map]
  rfl

/-- **The filter answers for V2 pools only**, all of them valued: then it keeps, in their order,
those that are worth more than the threshold. With any other pool it fails, whatever the chain. -/
theorem filter_eq_ok_iff (self : ValueFilter) {chunkSize : Nat} (hchunk : 0 < chunkSize)
    (calls : Nat → Option ValueChain) {amms : List AMM} (hnodup : (amms.map (·.address)).Nodup)
    (kept : List AMM) :
    self.filter chunkSize calls amms = .ok kept ↔ ∃ value : Address → U256,
      (∀ (k : Nat) chunk, (windows chunkSize amms)[k]? = some chunk →
        ∃ chain, calls k = some chain ∧ ∀ amm ∈ chunk, IsV2 amm ∧
          self.contract.handleUniswapV3Pool chain amm.address = some (value amm.address)) ∧
      kept = amms.filter fun amm => value amm.address > self.minWmntThreshold := by
  have hflatten := flatten_windows hchunk amms
  -- where every pool has been asked for, what is kept is decided by the values
  have hkeep : ∀ {infos : HashMap Address WmntValueInPools.PoolInfoReturn},
      (∀ a ∈ amms.map (·.address), (infos.lookup a).isSome) →
      (amms.filter fun amm => (infos.lookup amm.address).any fun info =>
        info.wmntValue > self.minWmntThreshold) =
        amms.filter fun amm => valueOf infos amm.address > self.minWmntThreshold := by
    intro infos hsome
    refine List.filter_congr fun amm hamm => ?_
    obtain ⟨info, hinfo⟩ :=
      Option.isSome_iff_exists.mp (hsome amm.address (List.mem_map_of_mem hamm))
    rw [valueOf, hinfo]
    rfl
  rw [filter_eq hchunk, bind_eq_ok]
  constructor
  · rintro ⟨infos, hcollect, hkept⟩
    obtain ⟨hall, hsome, -⟩ := allValued_of_collect (by rwa [hflatten]) hcollect
    rw [hflatten] at hsome
    refine ⟨valueOf infos, fun k chunk hk => ?_, ?_⟩
    · obtain ⟨chain, hchain, hvalued⟩ := hall k chunk hk
      exact ⟨chain, by rwa [Nat.zero_add] at hchain, hvalued⟩
    · rw [← hkeep hsome]
      exact (Except.ok.inj hkept).symm
  · rintro ⟨value, hall, rfl⟩
    have hvalued : self.AllValued calls (windows chunkSize amms) 0 value := by
      intro k chunk hk
      rw [Nat.zero_add]
      exact hall k chunk hk
    obtain ⟨infos, hcollect⟩ := @exists_collect _ _ _ _ ∅ _ hvalued
    obtain ⟨hall', hsome, -⟩ := allValued_of_collect (by rwa [hflatten]) hcollect
    rw [hflatten] at hsome
    refine ⟨infos, hcollect, congrArg Except.ok ((hkeep hsome).trans ?_)⟩
    refine List.filter_congr fun amm hamm => ?_
    rw [← hflatten, List.mem_flatten] at hamm
    obtain ⟨chunk, hmem, hamm⟩ := hamm
    obtain ⟨k, hk⟩ := List.mem_iff_getElem?.mp hmem
    obtain ⟨chain, hchain, hvalued⟩ := hall k chunk hk
    obtain ⟨chain', hchain', hvalued'⟩ := hall' k chunk hk
    rw [Nat.zero_add, hchain] at hchain'
    obtain rfl := Option.some.inj hchain'
    have hvalue := (hvalued amm hamm).2.symm.trans (hvalued' amm hamm).2
    rw [Option.some.inj hvalue]

def quotedPool (a : Address) : AMM := .uniswapV2Pool ⟨a, ⟨7, 18⟩, ⟨8, 18⟩, 10, 20, 300⟩

theorem filter_eq_ok_iff_quotedPools :
    (⟨3, 4, 9, 399⟩ : ValueFilter).filter 1 (fun _ => some WmntValueInPools.quotedChain)
      [quotedPool 1, quotedPool 2] = .ok [quotedPool 1, quotedPool 2] ↔ ∃ value : Address → U256,
      (∀ (k : Nat) chunk, (windows 1 [quotedPool 1, quotedPool 2])[k]? = some chunk →
        ∃ chain, some WmntValueInPools.quotedChain = some chain ∧ ∀ amm ∈ chunk, IsV2 amm ∧
          (⟨3, 4, 9, 399⟩ : ValueFilter).contract.handleUniswapV3Pool chain amm.address =
            some (value amm.address)) ∧
      [quotedPool 1, quotedPool 2] =
        [quotedPool 1, quotedPool 2].filter fun amm => value amm.address > 399 :=
  filter_eq_ok_iff ⟨3, 4, 9, 399⟩ (by decide) (fun _ => some WmntValueInPools.quotedChain)
    (by decide) [quotedPool 1, quotedPool 2]

/-- A V3 pool takes the pools of its list down with it. -/
example : (⟨3, 4, 9, 399⟩ : ValueFilter).filter 2 (fun _ => some WmntValueInPools.quotedChain)
    [quotedPool 1, .uniswapV3Pool (UniswapV3Pool.new 2)] = .error (.err ()) := rfl

end ValueFilter

end ArbitrageBot
