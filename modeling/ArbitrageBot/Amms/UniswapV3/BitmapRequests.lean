import ArbitrageBot.Amms.Agni.Pool
import ArbitrageBot.Lib.Loop
import Mathlib.Algebra.BigOperators.Group.List.Basic

/-!
# The word intervals of the bitmap synchronisation

`sync_tick_bitmaps` asks for the bitmap words of all pools in groups of at most 6900 words. A pool
that does not fit into the current group is split, and every split costs it one word at the top.
-/

namespace ArbitrageBot

open Lib

/-- `x as i16`. -/
def asI16 (x : Int) : Int := x.bmod (2 ^ 16)

theorem asI16_of_range {x : Int} (h0 : -32768 ≤ x) (h1 : x < 32768) : asI16 x = x := by
  unfold asI16
  rw [Int.bmod_eq_of_le] <;> omega

def tickToWord (tick tickSpacing : Int) : Int :=
  let compressed := tick.tdiv tickSpacing
  let compressed :=
    if tick < 0 ∧ tick.tmod tickSpacing ≠ 0 then compressed - 1 else compressed
  compressed >>> (8 : Nat)

structure TickBitmapInfo where
  pool : Address
  minWord : Int
  maxWord : Int
  deriving DecidableEq, Repr

/-- `max_range`: the words of a group. -/
def MAX_RANGE : Int := 6900

/-- The local variables of the loops of `sync_tick_bitmaps`; `fired` are the groups sent off. -/
structure Batching where
  minWord : Int
  wordRange : Int
  groupRange : Int
  group : List TickBitmapInfo
  fired : List (List TickBitmapInfo)

namespace Batching

/-- One round of the inner loop. -/
def round (pool : Address) (s : Batching) : Batching :=
  let remainingRange := MAX_RANGE - s.groupRange
  let range := min s.wordRange remainingRange
  let group := s.group ++ [⟨pool, asI16 s.minWord, asI16 (s.minWord + range)⟩]
  let wordRange := s.wordRange - range
  let minWord := s.minWord + (range - 1)
  let groupRange := s.groupRange + range
  if groupRange ≥ MAX_RANGE then
    { minWord, wordRange, groupRange := 0, group := [], fired := s.fired ++ [group] }
  else { minWord, wordRange, groupRange, group, fired := s.fired }

/-- The inner loop, for a pool and its tick spacing. -/
def addPool (fuel : Nat) (s : Batching) (pool : Address × Int) : Option Batching :=
  let minWord := tickToWord MIN_TICK pool.2
  let maxWord := tickToWord MAX_TICK pool.2
  match Loop.run (fun s => decide (s.wordRange > 0))
    (fun s => Except.ok (ε := Empty) (s.round pool.1))
      fuel { s with minWord, wordRange := maxWord - minWord } with
  | some (.ok s) => some s
  | _ => none

end Batching

/-- The groups of a list of pools, given by address and tick spacing. -/
def tickBitmapGroups (fuel : Nat) (pools : List (Address × Int)) :
    Option (List (List TickBitmapInfo)) :=
  (pools.foldlM (Batching.addPool fuel) ⟨0, 0, 0, [], []⟩).map fun s =>
    if s.group.isEmpty then s.fired else s.fired ++ [s.group]

/-- `UniswapV3Factory::sync_tick_bitmaps`. -/
def UniswapV3Factory.tickBitmapGroups (fuel : Nat) (pools : List UniswapV3Pool) :
    Option (List (List TickBitmapInfo)) :=
  ArbitrageBot.tickBitmapGroups fuel (pools.map fun p => (p.address, p.tickSpacing))

/-- `AgniFactory::sync_tick_bitmaps`. -/
def AgniFactory.tickBitmapGroups (fuel : Nat) (pools : List AgniPool) :
    Option (List (List TickBitmapInfo)) :=
  ArbitrageBot.tickBitmapGroups fuel (pools.map fun p => (p.address, p.tickSpacing))

/-! ## The words of a tick spacing -/

/-- First and last word of the ticks of a pool. -/
def firstWord (tickSpacing : Int) : Int := tickToWord MIN_TICK tickSpacing
def lastWord (tickSpacing : Int) : Int := tickToWord MAX_TICK tickSpacing

theorem lastWord_eq (s : Int) : lastWord s = (887272 : Int).tdiv s / 256 := by
  unfold lastWord tickToWord MAX_TICK
  simp [Int.shiftRight_eq_div_pow]

theorem firstWord_eq (s : Int) :
    firstWord s = if (887272 : Int) % s = 0 then -(887272 / s) / 256
      else (-(887272 / s) - 1) / 256 := by
  have hdiv : (887272 : Int).tdiv s = 887272 / s := Int.tdiv_eq_ediv_of_nonneg (by omega)
  have hneg : (-887272 : Int).tdiv s = -(887272 / s) := by rw [Int.neg_tdiv, hdiv]
  have hmod : (-887272 : Int).tmod s = -(887272 % s) := by
    rw [Int.neg_tmod, Int.tmod_eq_emod_of_nonneg (by omega)]
  unfold firstWord tickToWord MIN_TICK
  simp only [hneg, hmod, Int.shiftRight_eq_div_pow]
  by_cases h : (887272 : Int) % s = 0 <;> simp [h]

/-- The words of a spacing lie around the words `-1` and `0`, nearly symmetrically. -/
theorem words_range {s : Int} (hs : 1 ≤ s) :
    firstWord s ≤ -1 ∧ 0 ≤ lastWord s ∧ -(lastWord s + 1) ≤ firstWord s ∧ lastWord s ≤ 3465 := by
  have hdiv : (887272 : Int).tdiv s = 887272 / s := Int.tdiv_eq_ediv_of_nonneg (by omega)
  have hle : (887272 : Int) / s ≤ 887272 := Int.ediv_le_self _ (by omega)
  have hpos : 0 ≤ (887272 : Int) / s := Int.ediv_nonneg (by omega) (by omega)
  have hfirst := firstWord_eq s
  have hdm := Int.mul_ediv_add_emod 887272 s
  rw [lastWord_eq, hdiv]
  split at hfirst
  · rename_i h
    have hone : 1 ≤ (887272 : Int) / s := by
      by_contra hlt
      have hzero : (887272 : Int) / s = 0 := by omega
      rw [hzero, h] at hdm
      simp at hdm
    omega
  · omega

/-! ## What the groups ask for -/

namespace Batching

/-- All intervals asked for so far. -/
def requests (s : Batching) : List TickBitmapInfo :=
  s.fired.flatten ++ s.group

theorem requests_round (pool : Address) (s : Batching) :
    (s.round pool).requests = s.requests ++ [⟨pool, asI16 s.minWord,
      asI16 (s.minWord + min s.wordRange (MAX_RANGE - s.groupRange))⟩] := by
  unfold round requests
  simp only
  split <;> simp

theorem round_fields (pool : Address) (s : Batching) :
    (s.round pool).minWord = s.minWord + (min s.wordRange (MAX_RANGE - s.groupRange) - 1) ∧
    (s.round pool).wordRange = s.wordRange - min s.wordRange (MAX_RANGE - s.groupRange) ∧
    (s.round pool).groupRange =
      if s.groupRange + min s.wordRange (MAX_RANGE - s.groupRange) ≥ MAX_RANGE then 0
      else s.groupRange + min s.wordRange (MAX_RANGE - s.groupRange) := by
  unfold round
  simp only
  split <;> exact ⟨rfl, rfl, rfl⟩

end Batching

/-- The words lost at the top by a pool of `range` words that starts in a group with `fill` words.
-/
def lostWords (fill range : Int) : Int := (fill + range - 1) / MAX_RANGE

/-- **The inner loop** ends with the group filled as far as the words of the pool go, and has asked
for all words of the pool but one for each split. -/
theorem loop_spec (pool : Address) (fuel : Nat) {s : Batching} (hg0 : 0 ≤ s.groupRange)
    (hg1 : s.groupRange < MAX_RANGE) (hr : 0 ≤ s.wordRange) (hm : -32768 ≤ s.minWord)
    (htop : s.minWord + s.wordRange < 32768) (hfuel : s.wordRange < fuel) :
    ∃ s' new, Loop.run (fun s => decide (s.wordRange > 0))
        (fun s => Except.ok (ε := Empty) (s.round pool)) fuel s = some (.ok s') ∧
      s'.groupRange = (s.groupRange + s.wordRange) % MAX_RANGE ∧
      s'.requests = s.requests ++ new ∧ (∀ info ∈ new, info.pool = pool) ∧
      ∀ w, (∃ info ∈ new, info.minWord ≤ w ∧ w ≤ info.maxWord) ↔
        1 ≤ s.wordRange ∧ s.minWord ≤ w ∧
          w ≤ s.minWord + s.wordRange - lostWords s.groupRange s.wordRange := by
  induction fuel generalizing s with
  | zero => omega
  | succ fuel ih =>
    unfold MAX_RANGE at hg1
    by_cases hpos : s.wordRange > 0
    · obtain ⟨hm', hr', hg'⟩ := s.round_fields pool
      have hreq := s.requests_round pool
      unfold MAX_RANGE at hm' hr' hg' hreq
      rw [asI16_of_range hm (by omega), asI16_of_range (by omega) (by omega)] at hreq
      obtain ⟨s', new, hrun, hgroup, hnew, hpool, hcover⟩ :=
        ih (s := s.round pool) (by omega) (by unfold MAX_RANGE; omega) (by omega) (by omega)
          (by omega) (by omega)
      refine ⟨s', ⟨pool, s.minWord, s.minWord + min s.wordRange (6900 - s.groupRange)⟩ :: new,
        by rw [Loop.run, if_pos (by simpa using hpos)]; exact hrun, ?_, ?_, ?_, ?_⟩
      · unfold MAX_RANGE at hgroup ⊢
        omega
      · rw [hnew, hreq, List.append_assoc, List.singleton_append]
      · exact List.forall_mem_cons.mpr ⟨rfl, hpool⟩
      · intro w
        rw [List.exists_mem_cons_iff, hcover]
        unfold lostWords MAX_RANGE
        dsimp only
        -- the interval of this round, then what the rest of the pool asks for
        omega
    · refine ⟨s, [], by rw [Loop.run, if_neg (by simpa using hpos)], ?_, by simp, by simp, ?_⟩
      · unfold MAX_RANGE
        omega
      · intro w
        simp
        omega

/-- The number of words a pool is asked for, as the source counts them. -/
def wordRange (tickSpacing : Int) : Int := lastWord tickSpacing - firstWord tickSpacing

/-- The words in the current group after pools of these spacings. -/
def fillAfter (fill : Int) (spacings : List Int) : Int :=
  (fill + (spacings.map wordRange).sum) % MAX_RANGE

theorem addPool_spec (pool : Address × Int) (hs : 1 ≤ pool.2) {fuel : Nat} (hfuel : 6932 ≤ fuel)
    {s : Batching} (hg0 : 0 ≤ s.groupRange) (hg1 : s.groupRange < MAX_RANGE) :
    ∃ s' new, Batching.addPool fuel s pool = some s' ∧
      s'.groupRange = fillAfter s.groupRange [pool.2] ∧ s'.requests = s.requests ++ new ∧
      (∀ info ∈ new, info.pool = pool.1) ∧
      ∀ w, (∃ info ∈ new, info.minWord ≤ w ∧ w ≤ info.maxWord) ↔ firstWord pool.2 ≤ w ∧
        w ≤ lastWord pool.2 - lostWords s.groupRange (wordRange pool.2) := by
  obtain ⟨h1, h2, h3, h4⟩ := words_range hs
  obtain ⟨s', new, hrun, hgroup, hnew, hpool, hcover⟩ :=
    loop_spec pool.1 fuel (s := { s with
      minWord := tickToWord MIN_TICK pool.2
      wordRange := tickToWord MAX_TICK pool.2 - tickToWord MIN_TICK pool.2 }) hg0 hg1
      (by unfold firstWord lastWord at *; dsimp only; omega)
      (by unfold firstWord lastWord at *; dsimp only; omega)
      (by unfold firstWord lastWord at *; dsimp only; omega)
      (by unfold firstWord lastWord at *; dsimp only; omega)
  refine ⟨s', new, ?_, ?_, hnew, hpool, fun w => ?_⟩
  · simp only [Batching.addPool]
    rw [hrun]
  · rw [hgroup, fillAfter, List.map_singleton, List.sum_singleton]
    rfl
  · rw [hcover]
    unfold wordRange
    unfold firstWord lastWord at *
    dsimp only
    constructor
    · rintro ⟨-, h5, h6⟩
      exact ⟨h5, by omega⟩
    · rintro ⟨h5, h6⟩
      exact ⟨by omega, h5, by omega⟩

/-- **The outer loop**: the pool at position `i` starts with the words that the pools before it
left in the group. -/
theorem foldlM_addPool_spec {fuel : Nat} (hfuel : 6932 ≤ fuel) (pools : List (Address × Int))
    (hs : ∀ p ∈ pools, 1 ≤ p.2) {s : Batching} (hg0 : 0 ≤ s.groupRange)
    (hg1 : s.groupRange < MAX_RANGE) :
    ∃ s' new, pools.foldlM (Batching.addPool fuel) s = some s' ∧ s'.requests = s.requests ++ new ∧
      ∀ a w, (∃ info ∈ new, info.pool = a ∧ info.minWord ≤ w ∧ w ≤ info.maxWord) ↔
        ∃ i p, pools[i]? = some p ∧ p.1 = a ∧ firstWord p.2 ≤ w ∧
          w ≤ lastWord p.2 -
            lostWords (fillAfter s.groupRange ((pools.take i).map (·.2))) (wordRange p.2) := by
  induction pools generalizing s with
  | nil => exact ⟨s, [], rfl, by simp, by simp⟩
  | cons pool pools ih =>
    rw [List.forall_mem_cons] at hs
    obtain ⟨s₁, new₁, hadd, hgroup, hreq₁, hpool, hcover₁⟩ := addPool_spec pool hs.1 hfuel hg0 hg1
    have hmod : fillAfter s.groupRange [pool.2] =
        (s.groupRange + wordRange pool.2) % MAX_RANGE := by
      rw [fillAfter, List.map_singleton, List.sum_singleton]
    have hpos : (0 : Int) < MAX_RANGE := by decide
    obtain ⟨s₂, new₂, hfold, hreq₂, hcover₂⟩ := ih hs.2 (s := s₁)
      (by rw [hgroup, hmod]; exact Int.emod_nonneg _ (by omega))
      (by rw [hgroup, hmod]; exact Int.emod_lt_of_pos _ hpos)
    refine ⟨s₂, new₁ ++ new₂, ?_, ?_, fun a w => ?_⟩
    · rw [List.foldlM_cons, hadd]
      exact hfold
    · rw [hreq₂, hreq₁, List.append_assoc]
    · have hfirst : (∃ info ∈ new₁, info.pool = a ∧ info.minWord ≤ w ∧ w ≤ info.maxWord) ↔
          pool.1 = a ∧ firstWord pool.2 ≤ w ∧
            w ≤ lastWord pool.2 - lostWords s.groupRange (wordRange pool.2) := by
        rw [← hcover₁]
        constructor
        · rintro ⟨info, hinfo, rfl, hle⟩
          exact ⟨(hpool info hinfo).symm, info, hinfo, hle⟩
        · rintro ⟨rfl, info, hinfo, hle⟩
          exact ⟨info, hinfo, hpool info hinfo, hle⟩
      have hfill : ∀ l, fillAfter s₁.groupRange l = fillAfter s.groupRange (pool.2 :: l) := by
        intro l
        rw [hgroup, hmod, fillAfter, fillAfter, List.map_cons, List.sum_cons, Int.emod_add_emod,
          add_assoc]
      simp only [List.mem_append, or_and_right, exists_or, hfirst, hcover₂, hfill]
      constructor
      · rintro (h | ⟨i, p, hp, h⟩)
        · refine ⟨0, pool, rfl, ?_⟩
          have hzero : fillAfter s.groupRange [] = s.groupRange := by
            rw [fillAfter, List.map_nil, List.sum_nil, add_zero]
            exact Int.emod_eq_of_lt hg0 hg1
          rw [List.take_zero, List.map_nil, hzero]
          exact h
        · exact ⟨i + 1, p, hp, h⟩
      · rintro ⟨i, p, hp, h⟩
        cases i with
        | zero =>
          have hzero : fillAfter s.groupRange [] = s.groupRange := by
            rw [fillAfter, List.map_nil, List.sum_nil, add_zero]
            exact Int.emod_eq_of_lt hg0 hg1
          rw [List.take_zero, List.map_nil, hzero] at h
          cases hp
          exact Or.inl h
        | succ i => exact Or.inr ⟨i, p, hp, h⟩

/-! ## When no word is lost -/

/-- Every word of every pool is asked for. -/
def RequestsAllWords (pools : List (Address × Int)) (groups : List (List TickBitmapInfo)) : Prop :=
  ∀ p ∈ pools, ∀ w, tickToWord MIN_TICK p.2 ≤ w → w ≤ tickToWord MAX_TICK p.2 →
    ∃ group ∈ groups, ∃ info ∈ group, info.pool = p.1 ∧ info.minWord ≤ w ∧ w ≤ info.maxWord

/-- For every pool, an entry of its address whose last word is not lost to splits of the entry
covers its last word. -/
def LastWordsKept (pools : List (Address × Int)) : Prop :=
  ∀ p ∈ pools, ∃ i q, pools[i]? = some q ∧ q.1 = p.1 ∧
    lastWord p.2 ≤ lastWord q.2 -
      lostWords (fillAfter 0 ((pools.take i).map (·.2))) (wordRange q.2)

theorem tickBitmapGroups_spec {fuel : Nat} (hfuel : 6932 ≤ fuel) (pools : List (Address × Int))
    (hs : ∀ p ∈ pools, 1 ≤ p.2) :
    ∃ groups, tickBitmapGroups fuel pools = some groups ∧
      (RequestsAllWords pools groups ↔ LastWordsKept pools) := by
  obtain ⟨s', new, hfold, hreq, hcover⟩ := foldlM_addPool_spec hfuel pools hs
    (s := ⟨0, 0, 0, [], []⟩) (by decide) (by decide)
  refine ⟨_, by rw [tickBitmapGroups, hfold]; rfl, ?_⟩
  have hgroups : (if s'.group.isEmpty then s'.fired else s'.fired ++ [s'.group]).flatten = new := by
    have hreq' : s'.fired.flatten ++ s'.group = new := hreq
    split
    · rename_i h
      rw [List.isEmpty_iff] at h
      rw [h, List.append_nil] at hreq'
      exact hreq'
    · rw [List.flatten_append, List.flatten_singleton]
      exact hreq'
  have hasked : ∀ a w, (∃ group ∈ if s'.group.isEmpty then s'.fired else s'.fired ++ [s'.group],
      ∃ info ∈ group, info.pool = a ∧ info.minWord ≤ w ∧ w ≤ info.maxWord) ↔
      ∃ i p, pools[i]? = some p ∧ p.1 = a ∧ firstWord p.2 ≤ w ∧
        w ≤ lastWord p.2 - lostWords (fillAfter 0 ((pools.take i).map (·.2))) (wordRange p.2) := by
    intro a w
    rw [← hcover, ← hgroups]
    simp only [List.mem_flatten]
    constructor
    · rintro ⟨group, hgroup, info, hinfo, h⟩
      exact ⟨info, ⟨group, hgroup, hinfo⟩, h⟩
    · rintro ⟨info, ⟨group, hgroup, hinfo⟩, h⟩
      exact ⟨group, hgroup, info, hinfo, h⟩
  unfold RequestsAllWords
  simp only [hasked]
  constructor
  · intro h p hp
    obtain ⟨h1, h2, -, -⟩ := words_range (hs p hp)
    obtain ⟨i, q, hq, ha, -, hw⟩ := h p hp (lastWord p.2) (by unfold firstWord lastWord at *; omega)
      (le_refl _)
    exact ⟨i, q, hq, ha, hw⟩
  · intro h p hp w hw0 hw1
    -- below word 0 the entry of the pool itself asks for the word
    obtain ⟨j, hj⟩ := List.mem_iff_getElem?.mp hp
    by_cases hneg : w ≤ -1
    · refine ⟨j, p, hj, rfl, hw0, ?_⟩
      obtain ⟨h1, h2, h3, h4⟩ := words_range (hs p hp)
      have hpos : (0 : Int) < MAX_RANGE := by decide
      have hfill : fillAfter 0 ((pools.take j).map (·.2)) < 6900 := Int.emod_lt_of_pos _ hpos
      unfold lostWords wordRange MAX_RANGE
      omega
    · obtain ⟨i, q, hq, ha, hlast⟩ := h p hp
      obtain ⟨h1, -, -, -⟩ := words_range (hs q (List.mem_of_getElem? hq))
      refine ⟨i, q, hq, ha, by omega, ?_⟩
      unfold firstWord lastWord at *
      omega

/-- With one entry for each address, no word is lost exactly when no pool is split. -/
theorem lastWordsKept_iff_of_nodup {pools : List (Address × Int)} (hnodup : (pools.map (·.1)).Nodup)
    (hs : ∀ p ∈ pools, 1 ≤ p.2) :
    LastWordsKept pools ↔ ∀ i p, pools[i]? = some p →
      fillAfter 0 ((pools.take i).map (·.2)) + wordRange p.2 ≤ MAX_RANGE := by
  have hsplit : ∀ i p, pools[i]? = some p →
      (lastWord p.2 ≤ lastWord p.2 -
        lostWords (fillAfter 0 ((pools.take i).map (·.2))) (wordRange p.2) ↔
      fillAfter 0 ((pools.take i).map (·.2)) + wordRange p.2 ≤ MAX_RANGE) := by
    intro i p hp
    obtain ⟨h1, h2, -, -⟩ := words_range (hs p (List.mem_of_getElem? hp))
    have hpos : (0 : Int) < MAX_RANGE := by decide
    have hfill : 0 ≤ fillAfter 0 ((pools.take i).map (·.2)) := Int.emod_nonneg _ (by omega)
    unfold lostWords wordRange MAX_RANGE
    omega
  constructor
  · intro h i p hp
    obtain ⟨j, q, hq, ha, hlast⟩ := h p (List.mem_of_getElem? hp)
    have hij : j = i := by
      obtain ⟨hlt, -⟩ := List.getElem?_eq_some_iff.mp hq
      refine (List.getElem?_inj (by rw [List.length_map]; exact hlt) hnodup).mp ?_
      rw [List.getElem?_map, List.getElem?_map, hq, hp, Option.map_some, Option.map_some, ha]
    subst hij
    obtain rfl := Option.some.inj (hq.symm.trans hp)
    exact (hsplit j q hp).mp hlast
  · intro h p hp
    obtain ⟨i, hi⟩ := List.mem_iff_getElem?.mp hp
    exact ⟨i, p, hi, rfl, (hsplit i p hi).mpr (h i p hi)⟩

/-- **The bitmap synchronisation asks for every word of every pool exactly when no last word is
lost to a split**, in both factories. -/
theorem tickBitmapGroups_complete_iff (uniswap : List UniswapV3Pool) (agni : List AgniPool)
    (huniswap : ∀ p ∈ uniswap, 1 ≤ p.tickSpacing) (hagni : ∀ p ∈ agni, 1 ≤ p.tickSpacing) :
    (∃ bound, ∀ fuel ≥ bound, ∃ groups,
      UniswapV3Factory.tickBitmapGroups fuel uniswap = some groups ∧
        (RequestsAllWords (uniswap.map fun p => (p.address, p.tickSpacing)) groups ↔
          LastWordsKept (uniswap.map fun p => (p.address, p.tickSpacing)))) ∧
    ∃ bound, ∀ fuel ≥ bound, ∃ groups, AgniFactory.tickBitmapGroups fuel agni = some groups ∧
      (RequestsAllWords (agni.map fun p => (p.address, p.tickSpacing)) groups ↔
        LastWordsKept (agni.map fun p => (p.address, p.tickSpacing))) := by
  constructor
  · exact ⟨6932, fun fuel hfuel =>
      tickBitmapGroups_spec hfuel _ (List.forall_mem_map.mpr huniswap)⟩
  · exact ⟨6932, fun fuel hfuel =>
      tickBitmapGroups_spec hfuel _ (List.forall_mem_map.mpr hagni)⟩

theorem tickBitmapGroups_complete_iff_spacing60 :
    (∃ bound, ∀ fuel ≥ bound, ∃ groups,
      UniswapV3Factory.tickBitmapGroups fuel [{ UniswapV3Pool.new 1 with tickSpacing := 60 }] =
        some groups ∧ (RequestsAllWords [(1, 60)] groups ↔ LastWordsKept [(1, 60)])) ∧
    ∃ bound, ∀ fuel ≥ bound, ∃ groups,
      AgniFactory.tickBitmapGroups fuel [{ AgniPool.new 1 with tickSpacing := 60 }] =
        some groups ∧ (RequestsAllWords [(1, 60)] groups ↔ LastWordsKept [(1, 60)]) :=
  tickBitmapGroups_complete_iff [{ UniswapV3Pool.new 1 with tickSpacing := 60 }]
    [{ AgniPool.new 1 with tickSpacing := 60 }] (by simp) (by simp)

/-- A single pool of spacing 1 loses its last word, 3465. -/
theorem tickBitmapGroups_spacing1_incomplete :
    (∃ groups, UniswapV3Factory.tickBitmapGroups 6932
        [{ UniswapV3Pool.new 1 with tickSpacing := 1 }] = some groups ∧
      ¬ RequestsAllWords [(1, 1)] groups) ∧
    ∃ groups, AgniFactory.tickBitmapGroups 6932 [{ AgniPool.new 1 with tickSpacing := 1 }] =
        some groups ∧ ¬ RequestsAllWords [(1, 1)] groups := by
  have hlost : ¬ RequestsAllWords [(1, 1)] [[⟨1, -3466, 3434⟩], [⟨1, 3433, 3464⟩]] := by
    intro h
    have := h (1, 1) (by simp) 3465 (by decide) (by decide)
    simp at this
  exact ⟨⟨_, by decide, hlost⟩, _, by decide, hlost⟩

end ArbitrageBot
