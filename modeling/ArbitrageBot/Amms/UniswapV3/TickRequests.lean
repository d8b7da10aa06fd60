import ArbitrageBot.Amms.UniswapV3.BitmapRequests
import ArbitrageBot.Amms.UniswapV3.Coherence
import ArbitrageBot.Lib.SparseBits

/-!
# The tick data synchronisation

`sync_tick_data` reads the initialised ticks of each pool off its bitmap, asks for them in groups of
at most 60, and stores what the batch contract returns. A pool's ticks may be spread over several
groups, and the groups come back in any order.
-/

namespace ArbitrageBot

open Lib

/-- `Signed::<24, 1>::from_str(..).unwrap()`. -/
def i24FromStr (tickIndex : Int) : Outcome AMMError Int :=
  if -8388608 ≤ tickIndex ∧ tickIndex ≤ 8388607 then .ok tickIndex else .error .panic

structure TickDataInfo where
  pool : Address
  ticks : List Int
  deriving DecidableEq, Repr

/-- The words `min_word..=max_word` of a pool. -/
def tickWords (tickSpacing : Int) : List Int :=
  let minWord := tickToWord MIN_TICK tickSpacing
  let maxWord := tickToWord MAX_TICK tickSpacing
  (List.range (maxWord - minWord + 1).toNat).map fun k : Nat => minWord + (k : Int)

def UniswapV3Pool.initializedTicks (prof : BuildProfile) (self : UniswapV3Pool) :
    Outcome AMMError (List Int) :=
  let bitmaps := (tickWords self.tickSpacing).filterMap fun wordPos =>
    ((self.tickBitmap.lookup (asI16 wordPos)).filter (· ≠ 0)).map fun bitmap => (wordPos, bitmap)
  let bits := bitmaps.flatMap fun (wordPos, bitmap) =>
    ((List.range 256).filter fun i => bitmap &&& bitMask i ≠ 0).map fun i => (wordPos, i)
  bits.mapM fun (wordPos, i) => do
    let index ← prof.signed 32 (wordPos * 256 + i)
    let tickIndex ← prof.signed 32 (index * self.tickSpacing)
    i24FromStr tickIndex

/-! ## The groups -/

def MAX_TICKS : Nat := 60

/-- The local variables of the draining loops; `fired` are the groups sent off. A group is sent off
as soon as it is full. -/
structure TickBatching where
  groupTicks : Nat
  group : List TickDataInfo
  fired : List (List TickDataInfo)
  notFull : groupTicks < MAX_TICKS

namespace TickBatching

def new : TickBatching := ⟨0, [], [], by decide⟩

/-- One round of the inner loop, with the ticks that it drains. -/
def push (s : TickBatching) (poolAddress : Address) (selectedTicks : List Int) : TickBatching :=
  let groupTicks := s.groupTicks + selectedTicks.length
  let group := s.group ++ [⟨poolAddress, selectedTicks⟩]
  if h : groupTicks ≥ MAX_TICKS then ⟨0, [], s.fired ++ [group], by decide⟩
  else ⟨groupTicks, group, s.fired, Nat.lt_of_not_le h⟩

/-- The inner loop, for the ticks of a pool. -/
def drain (poolAddress : Address) (s : TickBatching) (ticks : List Int) : TickBatching :=
  if ticks.isEmpty then s
  else
    let remainingTicks := MAX_TICKS - s.groupTicks
    let n := min remainingTicks ticks.length
    drain poolAddress (s.push poolAddress (ticks.take n)) (ticks.drop n)
termination_by ticks.length
decreasing_by
  have hpos : ticks.length ≠ 0 := by simpa using ‹¬ ticks.isEmpty = true›
  have := s.notFull
  rw [List.length_drop]
  omega

/-- The groups, with the last one that is not full. -/
def groups (s : TickBatching) : List (List TickDataInfo) :=
  if s.group.isEmpty then s.fired else s.fired ++ [s.group]

end TickBatching

/-- The groups that `UniswapV3Factory::sync_tick_data` asks for. -/
def UniswapV3Factory.tickDataGroups (prof : BuildProfile) (pools : List UniswapV3Pool) :
    Outcome AMMError (List (List TickDataInfo)) := do
  let poolTicks ← pools.mapM fun pool => do
    let initializedTicks ← pool.initializedTicks prof
    return (pool.address, initializedTicks)
  let poolTicks := poolTicks.filter fun entry => !entry.2.isEmpty
  return (poolTicks.foldl (fun s entry => s.drain entry.1 entry.2) TickBatching.new).groups

/-- The constructor of the batch contract: its return data, a row for each entry. -/
def GetUniswapV3PoolTickDataBatchRequest.constructor (ticks : Address → Int → Info)
    (allPoolInfo : List TickDataInfo) : List (List (Bool × Nat × Int)) :=
  allPoolInfo.map fun info => info.ticks.map fun t =>
    let tick := ticks info.pool t
    (tick.initialized, tick.liquidityGross, tick.liquidityNet)

/-! ## The application -/

/-- `pool_set`: of two pools of one address, the later one. -/
def poolSet (pools : List UniswapV3Pool) : HashMap Address UniswapV3Pool :=
  pools.foldl (fun set pool => set.insert pool.address pool) ∅

def insertTick (pool : UniswapV3Pool) (entry : (Bool × Nat × Int) × Int) : UniswapV3Pool :=
  let info :=
    { liquidityGross := entry.1.2.1, liquidityNet := entry.1.2.2, initialized := entry.1.1 }
  { pool with ticks := pool.ticks.insert entry.2 info }

/-- Inserts one row; `pool_set.get_mut(&tick_info.pool).unwrap()` panics for an unknown address. -/
def insertTickInfo (set : HashMap Address UniswapV3Pool)
    (row : List (Bool × Nat × Int) × TickDataInfo) :
    Outcome AMMError (HashMap Address UniswapV3Pool) :=
  match set.lookup row.2.pool with
  | none => .error .panic
  | some pool => .ok (set.insert row.2.pool ((row.1.zip row.2.ticks).foldl insertTick pool))

/-- The loop over the responses, each with the group it answers. -/
def insertTickData (set : HashMap Address UniswapV3Pool)
    (responses : List (List TickDataInfo × List (List (Bool × Nat × Int)))) :
    Outcome AMMError (HashMap Address UniswapV3Pool) :=
  responses.foldlM (fun set response => (response.2.zip response.1).foldlM insertTickInfo set) set

/-! ## The ticks of a bitmap -/

/-- A loop that succeeds on every element collects their values. -/
theorem mapM_eq_ok {α β ε : Type} {f : α → Except ε β} {g : α → β} {l : List α}
    (h : ∀ a ∈ l, f a = .ok (g a)) : l.mapM f = .ok (l.map g) := by
  induction l with
  | nil => rfl
  | cons a l ih =>
    obtain ⟨ha, hl⟩ := List.forall_mem_cons.mp h
    rw [List.mapM_cons, ha, ih hl]
    rfl

namespace UniswapV3Pool

variable {pool : UniswapV3Pool} {order : List Int}

/-- The bitmap of the pool was made by flipping these ticks, once each, on an empty one. -/
structure Flipped (pool : UniswapV3Pool) (order : List Int) : Prop where
  spacing : 1 ≤ pool.tickSpacing
  nodup : order.Nodup
  range : ∀ t ∈ order, MIN_TICK ≤ t ∧ t ≤ MAX_TICK
  dvd : ∀ t ∈ order, pool.tickSpacing ∣ t
  bitmap : pool.tickBitmap =
    (order.foldl (fun (p : UniswapV3Pool) t => p.flipTick t pool.tickSpacing)
      { pool with tickBitmap := ∅ }).tickBitmap

theorem foldl_flipTick (s : Int) (order : List Int) (pool : UniswapV3Pool) :
    (order.foldl (fun (p : UniswapV3Pool) t => p.flipTick t s) pool).tickBitmap =
      (order.map (·.tdiv s)).foldl WordSet.flip pool.tickBitmap := by
  induction order generalizing pool with
  | nil => rfl
  | cons t order ih =>
    rw [List.foldl_cons, ih, flipTick_eq]
    rfl

/-- The bits that the code collects are the members of the bitmap in its words. -/
theorem bits_eq_members (bitmap : HashMap Int U256) (words : List Int)
    (hwords : ∀ w ∈ words, -32768 ≤ w ∧ w < 32768) :
    ((words.filterMap fun wordPos =>
        ((bitmap.lookup (asI16 wordPos)).filter (· ≠ 0)).map fun b => (wordPos, b)).flatMap
      fun (wordPos, b) => ((List.range 256).filter fun i => b &&& bitMask i ≠ 0).map
        fun i : Nat => (wordPos, i)).map (fun bit => bit.1 * 256 + (bit.2 : Int)) =
      WordSet.members bitmap words := by
  unfold WordSet.members
  induction words with
  | nil => rfl
  | cons j words ih =>
    obtain ⟨hj, hwords⟩ := List.forall_mem_cons.mp hwords
    have ih := ih hwords
    rw [List.flatMap_cons, ← ih]
    have hfilter : ∀ b : U256, ((List.range 256).filter fun i => b &&& bitMask i ≠ 0) =
        (List.range 256).filter fun i => b.getLsbD i := by
      intro b
      refine List.filter_congr fun i hi => ?_
      rw [List.mem_range] at hi
      have hbit : b &&& bitMask i = 0 ↔ b.getLsbD i = false := SparseBits.and_bit_eq_zero_iff hi
      rw [Bool.eq_iff_iff, decide_eq_true_eq, ne_eq, hbit, Bool.not_eq_false]
    cases hl : bitmap.lookup j with
    | none =>
      rw [List.filterMap_cons_none (by rw [asI16_of_range hj.1 hj.2, hl]; rfl)]
      simp
    | some b =>
      by_cases hzero : b = 0
      · subst hzero
        rw [List.filterMap_cons_none (by rw [asI16_of_range hj.1 hj.2, hl]; rfl)]
        simp
      · have hkeep : ((bitmap.lookup (asI16 j)).filter (· ≠ 0)).map (fun b => (j, b)) =
            some (j, b) := by
          rw [asI16_of_range hj.1 hj.2, hl, Option.filter_some, if_pos (decide_eq_true hzero)]
          rfl
        rw [List.filterMap_cons, hkeep]
        dsimp only
        rw [List.flatMap_cons, List.map_append]
        congr 1
        dsimp only
        rw [hfilter, List.map_map]
        rfl

theorem pairwise_tickWords (s : Int) : (tickWords s).Pairwise (· < ·) := by
  unfold tickWords
  refine List.Pairwise.map _ (fun a b hab => ?_) List.pairwise_lt_range
  omega

theorem mem_tickWords {s w : Int} : w ∈ tickWords s ↔ firstWord s ≤ w ∧ w ≤ lastWord s := by
  unfold tickWords firstWord lastWord
  dsimp only
  rw [List.mem_map]
  constructor
  · rintro ⟨k, hk, rfl⟩
    rw [List.mem_range] at hk
    omega
  · rintro ⟨h0, h1⟩
    exact ⟨(w - tickToWord MIN_TICK s).toNat, by rw [List.mem_range]; omega, by omega⟩

namespace Flipped

variable (h : Flipped pool order)
include h

/-- The members of the bitmap are the compressed ticks. -/
theorem mem_iff (i : Int) :
    WordSet.mem pool.tickBitmap i = true ↔ i * pool.tickSpacing ∈ order := by
  have hs : pool.tickSpacing ≠ 0 := by have := h.spacing; omega
  have hinj : (order.map (·.tdiv pool.tickSpacing)).Nodup :=
    List.Nodup.map_on (fun a ha b hb heq => (tdiv_inj hs (h.dvd a ha) (h.dvd b hb)).mp heq) h.nodup
  rw [h.bitmap, foldl_flipTick, WordSet.mem_foldl_flip (by decide) _ hinj]
  have hempty : WordSet.mem (∅ : HashMap Int U256) i = false := by
    unfold WordSet.mem
    rw [AList.lookup_empty]
    simp
  dsimp only
  rw [hempty, Bool.false_xor, decide_eq_true_eq, List.mem_map]
  constructor
  · rintro ⟨t, ht, rfl⟩
    rwa [Int.tdiv_mul_cancel (h.dvd t ht)]
  · intro hmem
    exact ⟨_, hmem, Int.mul_tdiv_cancel _ hs⟩

/-- The word of a tick is one of those the code looks at. -/
theorem word_mem {i : Int} (hi : i * pool.tickSpacing ∈ order) :
    i / 256 ∈ tickWords pool.tickSpacing := by
  obtain ⟨hlo, hhi⟩ := h.range _ hi
  have hs := h.spacing
  have hdiv : (887272 : Int).tdiv pool.tickSpacing = 887272 / pool.tickSpacing :=
    Int.tdiv_eq_ediv_of_nonneg (by omega)
  have hupper : i ≤ 887272 / pool.tickSpacing := (Int.le_ediv_iff_mul_le (by omega)).mpr hhi
  have hlower : -i ≤ 887272 / pool.tickSpacing := by
    rw [Int.le_ediv_iff_mul_le (by omega), Int.neg_mul]
    unfold MIN_TICK at hlo
    omega
  rw [mem_tickWords, firstWord_eq, lastWord_eq, hdiv]
  split
  · omega
  · omega

/-- **The ticks of the bitmap**, read off in increasing order. -/
theorem initializedTicks (prof : BuildProfile) :
    ∃ ticks, pool.initializedTicks prof = .ok ticks ∧ ticks.Pairwise (· < ·) ∧
      ∀ t, t ∈ ticks ↔ t ∈ order := by
  have hs := h.spacing
  have hne : pool.tickSpacing ≠ 0 := by omega
  have hrange : ∀ w ∈ tickWords pool.tickSpacing, -32768 ≤ w ∧ w < 32768 := by
    intro w hw
    rw [mem_tickWords] at hw
    have := words_range hs
    omega
  have hmembers := bits_eq_members pool.tickBitmap _ hrange
  refine ⟨(WordSet.members pool.tickBitmap (tickWords pool.tickSpacing)).map (· * pool.tickSpacing),
    ?_, ?_, fun t => ?_⟩
  · rw [← hmembers, List.map_map]
    refine mapM_eq_ok fun bit hbit => ?_
    have hmem : bit.1 * 256 + (bit.2 : Int) ∈
        WordSet.members pool.tickBitmap (tickWords pool.tickSpacing) := by
      rw [← hmembers]
      exact List.mem_map_of_mem hbit
    rw [WordSet.mem_members (by decide), h.mem_iff] at hmem
    obtain ⟨hlo, hhi⟩ := h.range _ hmem.1
    have hindex := hrange _ hmem.2
    unfold MIN_TICK at hlo
    unfold MAX_TICK at hhi
    dsimp only
    rw [BuildProfile.signed_of_range (by omega) (by omega), ok_bind,
      BuildProfile.signed_of_range (by omega) (by omega), ok_bind, i24FromStr,
      if_pos ⟨by omega, by omega⟩]
    rfl
  · refine List.Pairwise.map _ (fun a b hab => ?_)
      (WordSet.pairwise_members (pairwise_tickWords pool.tickSpacing))
    exact Int.mul_lt_mul_of_pos_right hab (by omega)
  · rw [List.mem_map]
    constructor
    · rintro ⟨i, hi, rfl⟩
      rw [WordSet.mem_members (by decide), h.mem_iff] at hi
      exact hi.1
    · intro ht
      have hmul : t.tdiv pool.tickSpacing * pool.tickSpacing = t :=
        Int.tdiv_mul_cancel (h.dvd t ht)
      refine ⟨_, ?_, hmul⟩
      rw [← hmul] at ht
      rw [WordSet.mem_members (by decide), h.mem_iff]
      exact ⟨ht, h.word_mem ht⟩

end Flipped

end UniswapV3Pool

/-! ## What the groups ask for -/

/-- The ticks of a group. -/
def groupSize (group : List TickDataInfo) : Nat := (group.map (·.ticks.length)).sum

/-- What a list of entries asks for, tick by tick. -/
def requested (infos : List TickDataInfo) : List (Address × Int) :=
  infos.flatMap fun info => info.ticks.map fun t => (info.pool, t)

/-- What all groups in order ask for of one pool. -/
def requestedTicks (groups : List (List TickDataInfo)) (a : Address) : List Int :=
  (groups.flatten.filter (·.pool = a)).flatMap (·.ticks)

/-- The part of a tick-by-tick list with one key. -/
theorem filter_flatMap_key {α : Type} (key : α → Address) (ticks : α → List Int) (a : Address)
    (l : List α) :
    ((l.flatMap fun x => (ticks x).map fun t => (key x, t)).filter (·.1 = a)).map (·.2) =
      (l.filter (key · = a)).flatMap ticks := by
  induction l with
  | nil => rfl
  | cons x l ih =>
    rw [List.flatMap_cons, List.filter_append, List.map_append, ih]
    by_cases ha : key x = a
    · rw [List.filter_cons_of_pos (by simpa using ha), List.flatMap_cons]
      congr 1
      simp [List.filter_map, Function.comp_def, ha]
    · rw [List.filter_cons_of_neg (by simpa using ha)]
      simp [List.filter_map, Function.comp_def, ha]

namespace TickBatching

variable {s : TickBatching} {a : Address} {ticks : List Int}

/-- All entries so far. -/
def requests (s : TickBatching) : List TickDataInfo := s.fired.flatten ++ s.group

/-- The counter counts the group, and no group is too large. -/
structure Sized (s : TickBatching) : Prop where
  group : groupSize s.group = s.groupTicks
  fired : ∀ group ∈ s.fired, groupSize group ≤ MAX_TICKS

theorem requests_push : (s.push a ticks).requests = s.requests ++ [⟨a, ticks⟩] := by
  unfold push requests
  dsimp only
  split
  · simp
  · simp

theorem Sized.push (h : s.Sized) (hfit : s.groupTicks + ticks.length ≤ MAX_TICKS) :
    (s.push a ticks).Sized := by
  have hsize : groupSize (s.group ++ [⟨a, ticks⟩]) = s.groupTicks + ticks.length := by
    rw [← h.group]
    simp [groupSize]
  unfold TickBatching.push
  dsimp only
  split
  · refine ⟨rfl, fun group hgroup => ?_⟩
    rw [List.mem_append, List.mem_singleton] at hgroup
    rcases hgroup with hgroup | rfl
    · exact h.fired group hgroup
    · rw [hsize]
      exact hfit
  · exact ⟨hsize, h.fired⟩

/-- **The inner loop** asks for the ticks of the pool in their order. -/
theorem drain_spec (a : Address) (s : TickBatching) (ticks : List Int) :
    ∃ new, (s.drain a ticks).requests = s.requests ++ new ∧ (∀ info ∈ new, info.pool = a) ∧
      requested new = ticks.map (fun t => (a, t)) ∧ (s.Sized → (s.drain a ticks).Sized) := by
  induction s, ticks using drain.induct a with
  | case1 s ticks hempty =>
    rw [List.isEmpty_iff] at hempty
    subst hempty
    rw [drain, if_pos List.isEmpty_nil]
    exact ⟨[], by simp, by simp, rfl, id⟩
  | case2 s ticks hmore remainingTicks n ih =>
    obtain ⟨new, hreq, hpool, hticks, hsized⟩ := ih
    rw [drain, if_neg hmore]
    refine ⟨⟨a, ticks.take n⟩ :: new, ?_, ?_, ?_, fun h => hsized (h.push ?_)⟩
    · rw [hreq, requests_push, List.append_assoc, List.singleton_append]
    · exact List.forall_mem_cons.mpr ⟨rfl, hpool⟩
    · rw [requested, List.flatMap_cons, ← requested, hticks, ← List.map_append,
        List.take_append_drop]
    · have := s.notFull
      rw [List.length_take]
      omega

/-- **The outer loop** asks for the ticks of all pools in their order. -/
theorem foldl_drain_spec (poolTicks : List (Address × List Int)) (s : TickBatching) :
    ∃ new, (poolTicks.foldl (fun s entry => s.drain entry.1 entry.2) s).requests =
        s.requests ++ new ∧
      (∀ info ∈ new, ∃ entry ∈ poolTicks, info.pool = entry.1) ∧
      requested new = poolTicks.flatMap (fun entry => entry.2.map fun t => (entry.1, t)) ∧
      (s.Sized → (poolTicks.foldl (fun s entry => s.drain entry.1 entry.2) s).Sized) := by
  induction poolTicks generalizing s with
  | nil => exact ⟨[], by simp, by simp, rfl, id⟩
  | cons entry poolTicks ih =>
    obtain ⟨new₁, hreq₁, hpool₁, hticks₁, hsized₁⟩ := drain_spec entry.1 s entry.2
    obtain ⟨new₂, hreq₂, hpool₂, hticks₂, hsized₂⟩ := ih (s.drain entry.1 entry.2)
    rw [List.foldl_cons]
    refine ⟨new₁ ++ new₂, ?_, fun info hinfo => ?_, ?_, fun h => hsized₂ (hsized₁ h)⟩
    · rw [hreq₂, hreq₁, List.append_assoc]
    · rcases List.mem_append.mp hinfo with hinfo | hinfo
      · exact ⟨entry, List.mem_cons_self, hpool₁ info hinfo⟩
      · obtain ⟨entry', hmem, heq⟩ := hpool₂ info hinfo
        exact ⟨entry', List.mem_cons_of_mem _ hmem, heq⟩
    · rw [requested, List.flatMap_append, ← requested, ← requested, hticks₁, hticks₂,
        List.flatMap_cons]

theorem groups_flatten : s.groups.flatten = s.requests := by
  unfold groups requests
  split
  · rename_i h
    rw [List.isEmpty_iff.mp h, List.append_nil]
  · rw [List.flatten_append, List.flatten_singleton]

theorem Sized.groups (h : s.Sized) : ∀ group ∈ s.groups, groupSize group ≤ MAX_TICKS := by
  unfold TickBatching.groups
  intro group hgroup
  split at hgroup
  · exact h.fired group hgroup
  · rw [List.mem_append, List.mem_singleton] at hgroup
    rcases hgroup with hgroup | rfl
    · exact h.fired group hgroup
    · rw [h.group]
      exact s.notFull.le

end TickBatching

/-- The pools' entries before the groups, empty ones left out. -/
def poolTicks (prof : BuildProfile) (pools : List UniswapV3Pool) : List (Address × List Int) :=
  (pools.map fun pool => (pool.address, (pool.initializedTicks prof).toOption.getD [])).filter
    fun entry => !entry.2.isEmpty

/-- Entries without ticks ask for nothing. -/
theorem flatMap_filter_nonempty (entries : List (Address × List Int)) :
    (entries.filter fun entry => !entry.2.isEmpty).flatMap
        (fun entry => entry.2.map fun t => (entry.1, t)) =
      entries.flatMap fun entry => entry.2.map fun t => (entry.1, t) := by
  induction entries with
  | nil => rfl
  | cons entry entries ih =>
    rw [List.flatMap_cons, ← ih]
    cases hticks : entry.2 with
    | nil => rw [List.filter_cons_of_neg (by simp [hticks]), List.map_nil, List.nil_append]
    | cons t ticks =>
      rw [List.filter_cons_of_pos (by simp [hticks]), List.flatMap_cons, hticks]

/-- **The groups** hold at most 60 ticks each, and ask for the ticks of every pool in order. -/
theorem tickDataGroups_spec (prof : BuildProfile) {pools : List UniswapV3Pool}
    (hflipped : ∀ pool ∈ pools, ∃ order, pool.Flipped order) :
    ∃ groups, UniswapV3Factory.tickDataGroups prof pools = .ok groups ∧
      (∀ group ∈ groups, groupSize group ≤ MAX_TICKS) ∧
      (∀ info ∈ groups.flatten, ∃ pool ∈ pools, info.pool = pool.address) ∧
      requested groups.flatten =
        pools.flatMap fun pool =>
          ((pool.initializedTicks prof).toOption.getD []).map fun t => (pool.address, t) := by
  have hread : pools.mapM (fun pool => do
      let initializedTicks ← pool.initializedTicks prof
      return (pool.address, initializedTicks)) =
      (.ok (pools.map fun pool =>
        (pool.address, (pool.initializedTicks prof).toOption.getD [])) : Outcome AMMError _) := by
    refine mapM_eq_ok fun pool hpool => ?_
    obtain ⟨order, h⟩ := hflipped pool hpool
    obtain ⟨ticks, hticks, -⟩ := h.initializedTicks prof
    rw [hticks]
    rfl
  obtain ⟨new, hreq, hpool, hticks, hsized⟩ :=
    TickBatching.foldl_drain_spec (poolTicks prof pools) TickBatching.new
  have hnew : (TickBatching.groups ((poolTicks prof pools).foldl
      (fun s entry => s.drain entry.1 entry.2) TickBatching.new)).flatten = new := by
    rw [TickBatching.groups_flatten, hreq]
    rfl
  refine ⟨_, ?_, (hsized ⟨rfl, by simp [TickBatching.new]⟩).groups, ?_, ?_⟩
  · unfold UniswapV3Factory.tickDataGroups
    rw [hread]
    rfl
  · rw [hnew]
    intro info hinfo
    obtain ⟨entry, hentry, heq⟩ := hpool info hinfo
    obtain ⟨pool, hmem, rfl⟩ := List.mem_map.mp (List.mem_of_mem_filter hentry)
    exact ⟨pool, hmem, heq⟩
  · rw [hnew, hticks]
    rw [poolTicks, flatMap_filter_nonempty, List.flatMap_map]

/-! ## What is stored -/

section Stored

variable {ticks : Address → Int → Info} {l l' : List (Address × Int)}
  {set set' set'' : HashMap Address UniswapV3Pool}

/-- The pools hold the entries of the listed ticks, and are unchanged elsewhere. -/
structure Stored (ticks : Address → Int → Info) (l : List (Address × Int))
    (set set' : HashMap Address UniswapV3Pool) : Prop where
  unknown : ∀ a, set.lookup a = none → set'.lookup a = none
  known : ∀ a pool, set.lookup a = some pool → ∃ m, set'.lookup a = some { pool with ticks := m } ∧
    ∀ t, m.lookup t = if (a, t) ∈ l then some (ticks a t) else pool.ticks.lookup t

theorem Stored.refl (ticks : Address → Int → Info) (set : HashMap Address UniswapV3Pool) :
    Stored ticks [] set set where
  unknown _ h := h
  known _ pool h := ⟨pool.ticks, h, fun _ => rfl⟩

theorem Stored.trans (h : Stored ticks l set set') (h' : Stored ticks l' set' set'') :
    Stored ticks (l ++ l') set set'' where
  unknown a hnone := h'.unknown a (h.unknown a hnone)
  known a pool hpool := by
    obtain ⟨m, hm, hlookup⟩ := h.known a pool hpool
    obtain ⟨m', hm', hlookup'⟩ := h'.known a _ hm
    refine ⟨m', hm', fun t => ?_⟩
    rw [hlookup', hlookup]
    by_cases hmem : (a, t) ∈ l'
    · rw [if_pos hmem, if_pos (List.mem_append_right _ hmem)]
    · simp only [hmem, if_false, List.mem_append, or_false]

theorem Stored.isSome (h : Stored ticks l set set') {a : Address} (ha : (set.lookup a).isSome) :
    (set'.lookup a).isSome := by
  obtain ⟨pool, hpool⟩ := Option.isSome_iff_exists.mp ha
  obtain ⟨m, hm, -⟩ := h.known a pool hpool
  rw [hm]
  rfl

/-- The row of one entry of a request. -/
def tickRow (ticks : Address → Int → Info) (info : TickDataInfo) : List (Bool × Nat × Int) :=
  info.ticks.map fun t =>
    ((ticks info.pool t).initialized, (ticks info.pool t).liquidityGross,
      (ticks info.pool t).liquidityNet)

theorem foldl_insertTick (f : Int → Info) (ts : List Int) (pool : UniswapV3Pool) :
    ∃ m, ((ts.map fun t => ((f t).initialized, (f t).liquidityGross, (f t).liquidityNet)).zip
        ts).foldl insertTick pool = { pool with ticks := m } ∧
      ∀ t, m.lookup t = if t ∈ ts then some (f t) else pool.ticks.lookup t := by
  induction ts generalizing pool with
  | nil => exact ⟨pool.ticks, rfl, by simp⟩
  | cons u ts ih =>
    obtain ⟨m, hfold, hlookup⟩ := ih { pool with ticks := pool.ticks.insert u (f u) }
    refine ⟨m, ?_, fun t => ?_⟩
    · rw [List.map_cons, List.zip_cons_cons, List.foldl_cons]
      exact hfold
    · rw [hlookup]
      by_cases ht : t ∈ ts
      · rw [if_pos ht, if_pos (List.mem_cons_of_mem _ ht)]
      · by_cases hu : t = u
        · subst hu
          rw [if_neg ht, if_pos List.mem_cons_self]
          exact AList.lookup_insert _
        · rw [if_neg ht, if_neg (by simp [hu, ht])]
          exact AList.lookup_insert_ne hu

theorem insertTickInfo_spec (info : TickDataInfo) (hpool : (set.lookup info.pool).isSome) :
    ∃ set', insertTickInfo set (tickRow ticks info, info) = .ok set' ∧
      Stored ticks (info.ticks.map fun t => (info.pool, t)) set set' := by
  obtain ⟨pool, hpool⟩ := Option.isSome_iff_exists.mp hpool
  obtain ⟨m, hfold, hlookup⟩ := foldl_insertTick (ticks info.pool) info.ticks pool
  refine ⟨set.insert info.pool { pool with ticks := m }, ?_, ?_, ?_⟩
  · unfold insertTickInfo tickRow
    simp only [hpool, hfold]
  · intro a hnone
    have hne : a ≠ info.pool := by
      rintro rfl
      rw [hpool] at hnone
      cases hnone
    rw [AList.lookup_insert_ne hne]
    exact hnone
  · intro a p hp
    by_cases ha : a = info.pool
    · subst ha
      obtain rfl := Option.some.inj (hpool.symm.trans hp)
      refine ⟨m, AList.lookup_insert _, fun t => ?_⟩
      rw [hlookup]
      simp
    · refine ⟨p.ticks, by rw [AList.lookup_insert_ne ha]; exact hp, fun t => ?_⟩
      rw [if_neg]
      intro hmem
      obtain ⟨u, -, heq⟩ := List.mem_map.mp hmem
      exact ha (congrArg Prod.fst heq).symm

/-- The entries of one group. -/
theorem foldlM_insertTickInfo (infos : List TickDataInfo)
    (hpools : ∀ info ∈ infos, (set.lookup info.pool).isSome) :
    ∃ set', ((GetUniswapV3PoolTickDataBatchRequest.constructor ticks infos).zip infos).foldlM
        insertTickInfo set = .ok set' ∧ Stored ticks (requested infos) set set' := by
  induction infos generalizing set with
  | nil => exact ⟨set, rfl, Stored.refl ticks set⟩
  | cons info infos ih =>
    rw [List.forall_mem_cons] at hpools
    obtain ⟨set₁, hrow, h₁⟩ := @insertTickInfo_spec ticks set info hpools.1
    obtain ⟨set₂, hrest, h₂⟩ := ih fun info' hinfo' => h₁.isSome (hpools.2 info' hinfo')
    refine ⟨set₂, ?_, h₁.trans h₂⟩
    unfold GetUniswapV3PoolTickDataBatchRequest.constructor at hrest ⊢
    unfold tickRow at hrow
    rw [List.map_cons, List.zip_cons_cons, List.foldlM_cons, hrow]
    exact hrest

/-- **The responses**, in whatever order they come. -/
theorem insertTickData_spec
    (responses : List (List TickDataInfo × List (List (Bool × Nat × Int))))
    (hresponses : ∀ response ∈ responses,
      response.2 = GetUniswapV3PoolTickDataBatchRequest.constructor ticks response.1)
    (hpools : ∀ info ∈ (responses.map (·.1)).flatten, (set.lookup info.pool).isSome) :
    ∃ set', insertTickData set responses = .ok set' ∧
      Stored ticks (requested (responses.map (·.1)).flatten) set set' := by
  unfold insertTickData
  induction responses generalizing set with
  | nil => exact ⟨set, rfl, Stored.refl ticks set⟩
  | cons response responses ih =>
    obtain ⟨hresponse, hresponses⟩ := List.forall_mem_cons.mp hresponses
    rw [List.map_cons, List.flatten_cons] at hpools ⊢
    obtain ⟨set₁, hgroup, h₁⟩ := @foldlM_insertTickInfo ticks set response.1
      fun info hinfo => hpools info (List.mem_append_left _ hinfo)
    obtain ⟨set₂, hrest, h₂⟩ := ih hresponses
      fun info hinfo => h₁.isSome (hpools info (List.mem_append_right _ hinfo))
    refine ⟨set₂, ?_, ?_⟩
    · rw [List.foldlM_cons, hresponse, hgroup]
      exact hrest
    · rw [requested, List.flatMap_append]
      exact h₁.trans h₂

end Stored

theorem lookup_foldl_insert (pools : List UniswapV3Pool) (set : HashMap Address UniswapV3Pool)
    (a : Address) : (pools.foldl (fun set pool => set.insert pool.address pool) set).lookup a =
      (pools.filter (·.address = a)).getLast?.or (set.lookup a) := by
  induction pools generalizing set with
  | nil => rfl
  | cons pool pools ih =>
    rw [List.foldl_cons, ih, HashMap.lookup_insert]
    by_cases ha : pool.address = a
    · rw [if_pos ha.symm, List.filter_cons_of_pos (by simpa using ha), List.getLast?_cons]
      cases (pools.filter (·.address = a)).getLast? <;> rfl
    · rw [if_neg (Ne.symm ha), List.filter_cons_of_neg (by simpa using ha)]

/-- The set holds the last pool of each address. -/
theorem lookup_poolSet (pools : List UniswapV3Pool) (a : Address) :
    (poolSet pools).lookup a = (pools.filter (·.address = a)).getLast? := by
  rw [poolSet, lookup_foldl_insert, AList.lookup_empty, Option.or_none]

/-! ## The round trip -/

/-- A pool alone at its address is asked for its own ticks. -/
theorem requestedTicks_eq {prof : BuildProfile} {pools : List UniswapV3Pool} {pool : UniswapV3Pool}
    {groups : List (List TickDataInfo)}
    (hrequested : requested groups.flatten = pools.flatMap fun pool =>
      ((pool.initializedTicks prof).toOption.getD []).map fun t => (pool.address, t))
    (halone : pools.filter (·.address = pool.address) = [pool]) :
    requestedTicks groups pool.address = (pool.initializedTicks prof).toOption.getD [] := by
  have hgroups := filter_flatMap_key (fun info : TickDataInfo => info.pool) (·.ticks) pool.address
    groups.flatten
  have hpools := filter_flatMap_key (fun pool : UniswapV3Pool => pool.address)
    (fun pool => (pool.initializedTicks prof).toOption.getD []) pool.address pools
  rw [← hrequested, halone, List.flatMap_singleton] at hpools
  rw [← hpools, requestedTicks, ← hgroups, requested]

theorem mem_requested_iff {groups : List (List TickDataInfo)} {a : Address} {t : Int} :
    (a, t) ∈ requested groups.flatten ↔ t ∈ requestedTicks groups a := by
  unfold requested requestedTicks
  rw [List.mem_flatMap, List.mem_flatMap]
  refine exists_congr fun info => ?_
  rw [List.mem_filter, decide_eq_true_eq, and_assoc, List.mem_map]
  refine and_congr_right fun _ => ?_
  constructor
  · rintro ⟨u, hu, heq⟩
    cases heq
    exact ⟨rfl, hu⟩
  · rintro ⟨rfl, ht⟩
    exact ⟨t, ht, rfl⟩

/-- **The tick data round trip**: no group is too large, every pool alone at its address is asked
for exactly the ticks of its bitmap, in increasing order, and holds what was returned for them,
whatever the order of the responses. -/
theorem UniswapV3Factory.tickData_roundTrip (prof : BuildProfile) (ticks : Address → Int → Info)
    (pools : List UniswapV3Pool) (hflipped : ∀ pool ∈ pools, ∃ order, pool.Flipped order) :
    ∃ groups, UniswapV3Factory.tickDataGroups prof pools = .ok groups ∧
      (∀ group ∈ groups, groupSize group ≤ MAX_TICKS) ∧
      ∀ responses, responses.Perm (groups.map fun group =>
          (group, GetUniswapV3PoolTickDataBatchRequest.constructor ticks group)) →
        ∃ set, insertTickData (poolSet pools) responses = .ok set ∧
          ∀ pool ∈ pools, pools.filter (·.address = pool.address) = [pool] →
            ∀ order, pool.Flipped order →
              ((requestedTicks groups pool.address).Pairwise (· < ·) ∧
                ∀ t, t ∈ requestedTicks groups pool.address ↔ t ∈ order) ∧
              ∃ m, set.lookup pool.address = some { pool with ticks := m } ∧
                ∀ t, m.lookup t =
                  if t ∈ order then some (ticks pool.address t) else pool.ticks.lookup t := by
  obtain ⟨groups, hgroups, hsize, hknown, hrequested⟩ := tickDataGroups_spec prof hflipped
  refine ⟨groups, hgroups, hsize, fun responses hperm => ?_⟩
  have hcontents : ∀ response ∈ responses,
      response.2 = GetUniswapV3PoolTickDataBatchRequest.constructor ticks response.1 := by
    intro response hmem
    obtain ⟨group, -, rfl⟩ := List.mem_map.mp (hperm.mem_iff.mp hmem)
    rfl
  have hfirst : (responses.map (·.1)).Perm groups := by
    have hid : (groups.map fun group =>
        (group, GetUniswapV3PoolTickDataBatchRequest.constructor ticks group)).map (·.1) =
          groups := by
      rw [List.map_map]
      exact List.map_id groups
    exact hid ▸ hperm.map (·.1)
  have hinfos : (responses.map (·.1)).flatten.Perm groups.flatten := hfirst.flatten
  obtain ⟨set, hset, hstored⟩ := @insertTickData_spec ticks (poolSet pools) responses
    hcontents (by
      intro info hinfo
      obtain ⟨pool, hpool, heq⟩ := hknown info (hinfos.mem_iff.mp hinfo)
      rw [heq, lookup_poolSet, List.getLast?_isSome]
      exact List.ne_nil_of_mem (List.mem_filter.mpr ⟨hpool, by simp⟩))
  refine ⟨set, hset, fun pool hpool halone order h => ?_⟩
  obtain ⟨own, hown, hsorted, hmem⟩ := h.initializedTicks prof
  have hticks : requestedTicks groups pool.address = own := by
    rw [requestedTicks_eq hrequested halone, hown]
    rfl
  refine ⟨by rw [hticks]; exact ⟨hsorted, hmem⟩, ?_⟩
  have hlookup : (poolSet pools).lookup pool.address = some pool := by
    rw [lookup_poolSet, halone]
    rfl
  obtain ⟨m, hm, hentries⟩ := hstored.known pool.address pool hlookup
  refine ⟨m, hm, fun t => ?_⟩
  rw [hentries]
  refine if_congr ?_ rfl rfl
  rw [← hmem, ← hticks, ← mem_requested_iff]
  unfold requested
  rw [List.mem_flatMap, List.mem_flatMap]
  exact exists_congr fun info => and_congr_left fun _ => hinfos.mem_iff

/-- A pool of spacing 60 at address 1 whose bitmap has one tick. -/
def oneTickPool (t : Int) : UniswapV3Pool :=
  { UniswapV3Pool.new 1 with
    tickSpacing := 60
    tickBitmap := (UniswapV3Pool.flipTick (UniswapV3Pool.new 1) t 60).tickBitmap }

theorem oneTickPool_flipped {t : Int} (h0 : MIN_TICK ≤ t) (h1 : t ≤ MAX_TICK) (hdvd : 60 ∣ t) :
    (oneTickPool t).Flipped [t] where
  spacing := by
    change (1 : Int) ≤ 60
    decide
  nodup := List.nodup_singleton t
  range := by simpa using ⟨h0, h1⟩
  dvd := by
    intro u hu
    rw [List.mem_singleton] at hu
    subst hu
    exact hdvd
  bitmap := rfl

theorem UniswapV3Factory.tickData_roundTrip_oneTickPool :
    ∃ groups, UniswapV3Factory.tickDataGroups { overflowChecks := true } [oneTickPool (-60)] =
        .ok groups ∧
      (∀ group ∈ groups, groupSize group ≤ MAX_TICKS) ∧
      ∀ responses, responses.Perm (groups.map fun group =>
          (group, GetUniswapV3PoolTickDataBatchRequest.constructor
            (fun _ _ => ⟨7, 7, true⟩) group)) →
        ∃ set, insertTickData (poolSet [oneTickPool (-60)]) responses = .ok set ∧
          ∀ pool ∈ [oneTickPool (-60)],
            [oneTickPool (-60)].filter (·.address = pool.address) = [pool] →
            ∀ order, pool.Flipped order →
              ((requestedTicks groups pool.address).Pairwise (· < ·) ∧
                ∀ t, t ∈ requestedTicks groups pool.address ↔ t ∈ order) ∧
              ∃ m, set.lookup pool.address = some { pool with ticks := m } ∧
                ∀ t, m.lookup t = if t ∈ order then some ⟨7, 7, true⟩ else pool.ticks.lookup t :=
  UniswapV3Factory.tickData_roundTrip { overflowChecks := true } (fun _ _ => ⟨7, 7, true⟩)
    [oneTickPool (-60)] (by
      intro pool hpool
      rw [List.mem_singleton] at hpool
      subst hpool
      exact ⟨[-60], oneTickPool_flipped (by decide) (by decide) (by decide)⟩)

/-- Two pools of one address: the address is asked for the ticks of both, and only the second is
held to store them. -/
theorem UniswapV3Factory.tickData_same_address :
    (oneTickPool 60).Flipped [60] ∧ (oneTickPool 120).Flipped [120] ∧
      (∃ groups, UniswapV3Factory.tickDataGroups { overflowChecks := true }
          [oneTickPool 60, oneTickPool 120] = .ok groups ∧ requestedTicks groups 1 = [60, 120]) ∧
      (poolSet [oneTickPool 60, oneTickPool 120]).lookup 1 = some (oneTickPool 120) := by
  have h60 : (oneTickPool 60).Flipped [60] :=
    oneTickPool_flipped (by decide) (by decide) (by decide)
  have h120 : (oneTickPool 120).Flipped [120] :=
    oneTickPool_flipped (by decide) (by decide) (by decide)
  refine ⟨h60, h120, ?_, ?_⟩
  · obtain ⟨groups, hgroups, -, -, hrequested⟩ := @tickDataGroups_spec { overflowChecks := true }
      [oneTickPool 60, oneTickPool 120] (by
        intro pool hpool
        rw [List.mem_pair] at hpool
        rcases hpool with rfl | rfl
        · exact ⟨_, h60⟩
        · exact ⟨_, h120⟩)
    refine ⟨groups, hgroups, ?_⟩
    have hkey :=
      filter_flatMap_key (fun info : TickDataInfo => info.pool) (·.ticks) 1 groups.flatten
    have hticks : ∀ t, (oneTickPool t).Flipped [t] →
        (oneTickPool t).initializedTicks { overflowChecks := true } = .ok [t] := by
      intro t h
      obtain ⟨ticks, hticks, hsorted, hmem⟩ := h.initializedTicks { overflowChecks := true }
      have hperm : ticks.Perm [t] := (List.perm_ext_iff_of_nodup (hsorted.imp fun hlt => hlt.ne)
        (List.nodup_singleton t)).mpr hmem
      rw [hticks, List.perm_singleton.mp hperm]
    unfold requested at hrequested
    rw [requestedTicks, ← hkey, hrequested]
    simp only [List.flatMap_cons, List.flatMap_nil, hticks 60 h60, hticks 120 h120]
    rfl
  · rw [lookup_poolSet]
    rfl

end ArbitrageBot
