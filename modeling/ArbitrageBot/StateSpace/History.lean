import ArbitrageBot.StateSpace.SyncSpec

/-!
# The changes behind the cache

The cache keeps the newest of the changes that have not been unwound. The changes it has evicted
are all below its oldest block, so that an unwinding which needs one of them is refused and every
other one is exact.
-/

namespace ArbitrageBot

open Lib

namespace StateChangeCache

variable {CAP : Nat} {cache cache' : StateChangeCache CAP} {changes : List StateChange}
  {change : StateChange} {b : Nat}

/-! ## Pushing -/

/-- The two ways a change is pushed. -/
theorem push_eq_ok (h : cache.push change = .ok cache') :
    (cache'.cache = change :: cache.cache ∧ cache'.oldestBlock = cache.oldestBlock) ∨
    (cache'.cache = change :: cache.cache.dropLast ∧ cache.cache.length = CAP ∧
      ∃ back ∈ cache.cache.dropLast, cache'.oldestBlock = back.blockNumber) := by
  unfold push at h
  split at h
  · rename_i hfull
    split at h
    · rename_i back hback
      cases h
      exact Or.inr ⟨rfl, hfull, back, List.mem_of_getLast? hback, rfl⟩
    · cases h
  · cases h
    exact Or.inl ⟨rfl, rfl⟩

/-- With room for two changes a full cache has a change before its oldest one. -/
theorem push_ok (hcap : 2 ≤ CAP) (cache : StateChangeCache CAP) (change : StateChange) :
    ∃ cache', cache.push change = .ok cache' := by
  unfold push
  split
  · rename_i hfull
    have hlen : cache.cache.dropLast.length ≠ 0 := by
      rw [List.length_dropLast]
      omega
    split
    · exact ⟨_, rfl⟩
    · rename_i hnone
      rw [List.getLast?_eq_none_iff.mp hnone] at hlen
      exact absurd rfl hlen
  · exact ⟨_, rfl⟩

/-! ## Unwinding -/

/-- The newest change is in front. -/
def Descending (changes : List StateChange) : Prop :=
  changes.Pairwise fun newer older => older.blockNumber < newer.blockNumber

theorem unwound_cons (change : StateChange) (changes : List StateChange) (b : Nat) :
    StateSpace.unwound (change :: changes) b =
      if change.blockNumber < b then 0 else StateSpace.unwound changes b + 1 := by
  unfold StateSpace.unwound
  simp only [List.findIdx?_cons, decide_eq_true_eq]
  split
  · rfl
  · cases changes.findIdx? (·.blockNumber < b) <;> rfl

/-- An unwinding takes the changes from the block on, and leaves those before it. -/
theorem Descending.unwound (h : Descending changes) (b : Nat) :
    changes.take (StateSpace.unwound changes b) = changes.filter (b ≤ ·.blockNumber) ∧
    changes.drop (StateSpace.unwound changes b) = changes.filter (·.blockNumber < b) := by
  induction changes with
  | nil => exact ⟨rfl, rfl⟩
  | cons change changes ih =>
    obtain ⟨hbelow, hrest⟩ := List.pairwise_cons.mp h
    rw [unwound_cons]
    by_cases hb : change.blockNumber < b
    · have hall : ∀ c ∈ change :: changes, c.blockNumber < b := by
        intro c hc
        rcases List.mem_cons.mp hc with rfl | hc
        · exact hb
        · exact Nat.lt_trans (hbelow c hc) hb
      rw [if_pos hb]
      refine ⟨(List.filter_eq_nil_iff.mpr fun c hc => ?_).symm,
        (List.filter_eq_self.mpr fun c hc => ?_).symm⟩
      · have := hall c hc
        simp only [decide_eq_true_eq]
        omega
      · exact decide_eq_true (hall c hc)
    · obtain ⟨htake, hdrop⟩ := ih hrest
      rw [if_neg hb, List.take_succ_cons, List.drop_succ_cons, htake, hdrop,
        List.filter_cons_of_pos (by simpa using hb), List.filter_cons_of_neg (by simpa using hb)]
      exact ⟨rfl, rfl⟩

/-- The state a pool had before the earliest of the changes since block `b` that list it. -/
def EarliestSince (changes : List StateChange) (b : Nat) (amm : AMM) : Prop :=
  ∃ change ∈ changes, b ≤ change.blockNumber ∧ snapshot change.stateChange amm.address = some amm ∧
    ∀ earlier ∈ changes, b ≤ earlier.blockNumber → earlier.blockNumber < change.blockNumber →
      snapshot earlier.stateChange amm.address = none

/-- The merged snapshots of the changes since a block hold the earliest states. -/
theorem Descending.merge_eq_some_iff (h : Descending changes) (b : Nat) (amm : AMM) :
    UndoLog.merge (StateSpace.snapshots (changes.filter (b ≤ ·.blockNumber))) amm.address =
      some amm ↔ EarliestSince changes b amm := by
  have hmem : ∀ c, c ∈ changes.filter (b ≤ ·.blockNumber) ↔ c ∈ changes ∧ b ≤ c.blockNumber := by
    intro c
    rw [List.mem_filter, decide_eq_true_eq]
  have hsorted : Descending (changes.filter (b ≤ ·.blockNumber)) := List.Pairwise.filter _ h
  unfold StateSpace.snapshots
  rw [UndoLog.merge_eq_some_iff]
  constructor
  · rintro ⟨newer, s, older, hsplit, hs, holder⟩
    obtain ⟨newer', rest, hlist, rfl, hrest⟩ := List.map_eq_append_iff.mp hsplit
    obtain ⟨change, older', rfl, rfl, rfl⟩ := List.map_eq_cons_iff.mp hrest
    rw [hlist] at hmem hsorted
    obtain ⟨hin, hb⟩ := (hmem change).mp (by simp)
    refine ⟨change, hin, hb, hs, fun earlier hearlier hbe hlt => ?_⟩
    refine holder _ (List.mem_map.mpr ⟨earlier, ?_, rfl⟩)
    obtain ⟨-, hsorted', hcross⟩ := List.pairwise_append.mp hsorted
    -- the changes before it in the list are newer
    rcases List.mem_append.mp ((hmem earlier).mpr ⟨hearlier, hbe⟩) with hnew | hold
    · have := hcross earlier hnew change (List.mem_cons_self ..)
      omega
    · rcases List.mem_cons.mp hold with rfl | hold
      · omega
      · exact hold
  · rintro ⟨change, hin, hb, hs, hfirst⟩
    obtain ⟨newer, older, hlist⟩ := List.append_of_mem ((hmem change).mpr ⟨hin, hb⟩)
    rw [hlist] at hmem hsorted ⊢
    refine ⟨newer.map _, _, older.map _, by rw [List.map_append, List.map_cons], hs, ?_⟩
    intro s hsmem
    obtain ⟨earlier, hearlier, rfl⟩ := List.mem_map.mp hsmem
    obtain ⟨hein, heb⟩ := (hmem earlier).mp (by simp [hearlier])
    obtain ⟨-, hsorted', -⟩ := List.pairwise_append.mp hsorted
    exact hfirst earlier hein heb ((List.pairwise_cons.mp hsorted').1 earlier hearlier)

theorem unwindStateChanges_eq_error {e : Fault StateSpaceError}
    (h : cache.unwindStateChanges b = .error e) : e = .panic := by
  unfold unwindStateChanges at h
  split at h
  · cases h
    rfl
  · split at h
    · cases h
    · split at h <;> cases h

/-! ## Histories -/

/-- A cache after pushes and unwindings, with the changes that have not been unwound since, evicted
ones included. The number of a pushed block is above theirs; a refused unwinding changes nothing. -/
inductive History : StateChangeCache CAP → List StateChange → Prop
  | new : History new []
  | push {cache cache' : StateChangeCache CAP} {changes : List StateChange} {change : StateChange}
      (h : History cache changes) (hnumber : ∀ c ∈ changes, c.blockNumber < change.blockNumber)
      (hpush : cache.push change = .ok cache') : History cache' (change :: changes)
  | unwind {cache cache' : StateChangeCache CAP} {changes : List StateChange} {b : Nat}
      {amms : List AMM} (h : History cache changes)
      (hunwind : cache.unwindStateChanges b = .ok (amms, cache')) :
      History cache' (changes.filter (·.blockNumber < b))

/-- What the cache no longer holds is older than its oldest block. -/
structure Behind (cache : StateChangeCache CAP) (changes evicted : List StateChange) : Prop where
  split : changes = cache.cache ++ evicted
  descending : Descending changes
  below : ∀ change ∈ evicted, change.blockNumber < cache.oldestBlock

namespace Behind

variable {evicted : List StateChange}

theorem push (h : Behind cache changes evicted)
    (hnumber : ∀ c ∈ changes, c.blockNumber < change.blockNumber)
    (hpush : cache.push change = .ok cache') :
    ∃ evicted', Behind cache' (change :: changes) evicted' := by
  have hsplit := h.split
  have hdesc : Descending (change :: changes) := List.pairwise_cons.mpr ⟨hnumber, h.descending⟩
  rcases push_eq_ok hpush with ⟨hcache, hold⟩ | ⟨hcache, -, back, hback, hold⟩
  · refine ⟨evicted, ?_, hdesc, ?_⟩
    · rw [hcache, hsplit, List.cons_append]
    · rw [hold]
      exact h.below
  · have hne : cache.cache ≠ [] := by
      intro hnil
      rw [hnil] at hback
      cases hback
    have hlast : cache.cache = cache.cache.dropLast ++ [cache.cache.getLast hne] :=
      (List.dropLast_append_getLast hne).symm
    have hchanges : changes =
        cache.cache.dropLast ++ cache.cache.getLast hne :: evicted := by
      rw [hsplit]
      conv_lhs => rw [hlast]
      rw [List.append_assoc, List.singleton_append]
    refine ⟨cache.cache.getLast hne :: evicted, ?_, hdesc, ?_⟩
    · rw [hcache, hchanges, List.cons_append]
    · intro c hc
      have hsorted := h.descending
      rw [hchanges] at hsorted
      rw [hold]
      exact (List.pairwise_append.mp hsorted).2.2 back hback c hc

/-- A change the cache has evicted is never unwound. -/
theorem not_unwound (h : Behind cache changes evicted) (hb : ¬ b < cache.oldestBlock) :
    ∀ c ∈ evicted, c.blockNumber < b := by
  intro c hc
  have := h.below c hc
  omega

/-- The changes before a block, when no evicted one is since. -/
theorem filter_lt (h : Behind cache changes evicted) (hb : ¬ b < cache.oldestBlock) :
    changes.filter (·.blockNumber < b) = cache.cache.filter (·.blockNumber < b) ++ evicted := by
  have hall : evicted.filter (·.blockNumber < b) = evicted :=
    List.filter_eq_self.mpr fun c hc => decide_eq_true (h.not_unwound hb c hc)
  rw [h.split, List.filter_append, hall]

theorem filter_le (h : Behind cache changes evicted) (hb : ¬ b < cache.oldestBlock) :
    changes.filter (b ≤ ·.blockNumber) = cache.cache.filter (b ≤ ·.blockNumber) := by
  have hnone : evicted.filter (b ≤ ·.blockNumber) = [] := by
    refine List.filter_eq_nil_iff.mpr fun c hc => ?_
    have := h.not_unwound hb c hc
    simp only [decide_eq_true_eq]
    omega
  rw [h.split, List.filter_append, hnone, List.append_nil]

theorem cache_descending (h : Behind cache changes evicted) : Descending cache.cache := by
  have hsorted := h.descending
  rw [h.split] at hsorted
  exact (List.pairwise_append.mp hsorted).1

theorem unwind {amms : List AMM} (h : Behind cache changes evicted)
    (hunwind : cache.unwindStateChanges b = .ok (amms, cache')) :
    Behind cache' (changes.filter (·.blockNumber < b)) evicted := by
  obtain ⟨hb, -, hcache, hold⟩ := StateSpace.unwindStateChanges_eq_ok hunwind
  refine ⟨?_, List.Pairwise.filter _ h.descending, ?_⟩
  · rw [hcache, (h.cache_descending.unwound b).2, h.filter_lt hb]
  · rw [hold]
    exact h.below

end Behind

theorem History.behind (h : History cache changes) : ∃ evicted, Behind cache changes evicted := by
  induction h with
  | new => exact ⟨[], rfl, List.Pairwise.nil, fun c hc => by cases hc⟩
  | push _ hnumber hpush ih =>
    obtain ⟨evicted, hbehind⟩ := ih
    exact hbehind.push hnumber hpush
  | unwind _ hunwind ih =>
    obtain ⟨evicted, hbehind⟩ := ih
    exact ⟨evicted, hbehind.unwind hunwind⟩

/-- An unwinding is refused, or returns the earliest states since the block and leaves the changes
before it; it is refused where an evicted change is since the block. -/
def UnwindsExactly (cache : StateChangeCache CAP) (changes : List StateChange) : Prop :=
  ∃ evicted, changes = cache.cache ++ evicted ∧ ∀ b,
    cache.unwindStateChanges b = .error .panic ∨
    ∃ amms cache', cache.unwindStateChanges b = .ok (amms, cache') ∧
      (∀ change ∈ evicted, change.blockNumber < b) ∧
      (amms.map (·.address)).Nodup ∧ (∀ amm, amm ∈ amms ↔ EarliestSince changes b amm) ∧
      cache'.cache = cache.cache.filter (·.blockNumber < b)

/-- **The cache unwinds exactly**, after any history of pushes, evictions and unwindings. -/
theorem History.unwindsExactly (hcap : 2 ≤ CAP) (h : History cache changes) :
    (∀ change, ∃ cache', cache.push change = .ok cache') ∧ UnwindsExactly cache changes := by
  obtain ⟨evicted, hbehind⟩ := h.behind
  refine ⟨push_ok hcap cache, evicted, hbehind.split, fun b => ?_⟩
  cases hunwind : cache.unwindStateChanges b with
  | error e => exact Or.inl (congrArg _ (unwindStateChanges_eq_error hunwind))
  | ok result =>
    obtain ⟨amms, cache'⟩ := result
    obtain ⟨hb, hamms, hcache, -⟩ := StateSpace.unwindStateChanges_eq_ok hunwind
    obtain ⟨htake, hdrop⟩ := hbehind.cache_descending.unwound b
    obtain ⟨m, hvalues, hkeyed, hlookup⟩ :=
      StateSpace.flattenStateChanges_spec (cache.cache.filter (b ≤ ·.blockNumber))
    rw [htake, hvalues] at hamms
    subst hamms
    refine Or.inr ⟨_, _, rfl, hbehind.not_unwound hb, hkeyed.nodup_addresses, fun amm => ?_,
      hcache.trans hdrop⟩
    rw [hkeyed.mem_values_iff, congrFun hlookup, ← hbehind.filter_le hb]
    exact hbehind.descending.merge_eq_some_iff b amm

/-- A pool with reserve `reserve`, before a change of block `number`. -/
def changeAt (number reserve : Nat) : StateChange :=
  ⟨[.uniswapV2Pool ⟨1, ⟨2, 18⟩, ⟨3, 18⟩, reserve, reserve, 300⟩], number⟩

/-- Two changes evicted by two others, of which one is unwound and replaced. -/
theorem unwindsExactly_evicted : ∃ cache : StateChangeCache 2,
    (∀ change, ∃ cache', cache.push change = .ok cache') ∧
    UnwindsExactly cache [changeAt 5 4, changeAt 3 3, changeAt 2 2, changeAt 1 1] := by
  have h₁ : @History 2 _ [changeAt 1 1] := .push .new (by simp) rfl
  have h₂ : History _ [changeAt 2 2, changeAt 1 1] := .push h₁ (by simp [changeAt]) rfl
  have h₃ : History _ [changeAt 3 3, changeAt 2 2, changeAt 1 1] :=
    .push h₂ (by simp [changeAt]) rfl
  have h₄ : History _ [changeAt 4 4, changeAt 3 3, changeAt 2 2, changeAt 1 1] :=
    .push h₃ (by simp [changeAt]) rfl
  have h₅ : History _ [changeAt 3 3, changeAt 2 2, changeAt 1 1] :=
    .unwind (b := 4) h₄ rfl
  have h₆ : History _ [changeAt 5 4, changeAt 3 3, changeAt 2 2, changeAt 1 1] :=
    .push h₅ (by simp [changeAt]) rfl
  exact ⟨_, h₆.unwindsExactly le_rfl⟩

end StateChangeCache

end ArbitrageBot
