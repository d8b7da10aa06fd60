import ArbitrageBot.Amms.UniswapV3.BitmapRequests

/-!
# The tick bitmap batch contract and its decoder

The constructor of `GetUniswapV3PoolTickBitmapBatchRequest` reads the words of each interval and
returns position and bitmap of the non-zero ones; `sync_tick_bitmaps` reads them back in pairs. The
array of an interval has one slot for each word, and a non-zero word takes two.
-/

namespace ArbitrageBot

/-! ## The contract -/

namespace GetUniswapV3PoolTickBitmapBatchRequest

/-- `array[i] = value`, with Solidity's bounds check; `none` is a revert. -/
def write (array : List U256) (i : Nat) (value : U256) : Option (List U256) :=
  if i < array.length then some (array.set i value) else none

/-- The words of an interval, in the order of the loop over `j`. -/
def words (info : TickBitmapInfo) : List Int :=
  (List.range (info.maxWord - info.minWord + 1).toNat).map fun i : Nat => info.minWord + (i : Int)

/-- One round of the inner loop, on the array and `wordIdx`. -/
def visitWord (tickBitmap : Int → U256) (s : List U256 × Nat) (j : Int) :
    Option (List U256 × Nat) := do
  let (tickBitmaps, wordIdx) := s
  if tickBitmap j = 0 then return s
  let tickBitmaps ← write tickBitmaps wordIdx (BitVec.ofInt 256 j)
  let tickBitmaps ← write tickBitmaps (wordIdx + 1) (tickBitmap j)
  return (tickBitmaps, wordIdx + 2)

/-- The row of one pool. `int16` and `uint16` arithmetic is checked, the conversion between them
is not; the last store cuts the array to `wordIdx` slots. -/
def row (tickBitmap : Int → U256) (info : TickBitmapInfo) : Option (List U256) :=
  let difference := info.maxWord - info.minWord
  if difference < -32768 ∨ 32767 < difference then none
  else
    let size := (difference % 2 ^ 16).toNat + 1
    -- `uint16(..) + 1`, and `++j` after the last word
    if size = 2 ^ 16 ∨ (info.minWord ≤ info.maxWord ∧ info.maxWord = 32767) then none
    else
      ((words info).foldlM (visitWord tickBitmap) (List.replicate size 0, 0)).map
        fun s => s.1.take s.2

/-- The constructor: the returned rows, or `none` when it reverts. The rows are ABI-encoded as
`uint256[][]`. -/
def constructor (tickBitmap : Address → Int → U256) (allPoolInfo : List TickBitmapInfo) :
    Option (List (List U256)) :=
  allPoolInfo.mapM fun info => row (tickBitmap info.pool) info

end GetUniswapV3PoolTickBitmapBatchRequest

/-! ## The decoder -/

/-- `chunks_exact(2)`. -/
def chunksExact2 : List U256 → List (U256 × U256)
  | a :: b :: rest => (a, b) :: chunksExact2 rest
  | _ => []

/-- `I256::from_raw(word).as_i16()`, which panics outside the range of `i16`. -/
def i256AsI16 (word : U256) : Outcome AMMError Int :=
  if -32768 ≤ word.toInt ∧ word.toInt ≤ 32767 then .ok word.toInt else .error .panic

/-- Inserts one chunk of a row. -/
def insertChunk (pool : UniswapV3Pool) (chunk : U256 × U256) : Outcome AMMError UniswapV3Pool := do
  let wordPos ← i256AsI16 chunk.1
  return { pool with tickBitmap := pool.tickBitmap.insert wordPos chunk.2 }

/-- Inserts one row; `pool_set.get_mut(pool_address).unwrap()` panics for an unknown address. -/
def insertRow (poolSet : HashMap Address UniswapV3Pool) (entry : List U256 × Address) :
    Outcome AMMError (HashMap Address UniswapV3Pool) :=
  match poolSet.lookup entry.2 with
  | none => .error .panic
  | some pool => do
    let pool ← (chunksExact2 entry.1).foldlM insertChunk pool
    return poolSet.insert entry.2 pool

/-- The decoding loop of `sync_tick_bitmaps` for one group. -/
def insertTickBitmaps (poolSet : HashMap Address UniswapV3Pool) (pools : List Address)
    (returnData : List (List U256)) : Outcome AMMError (HashMap Address UniswapV3Pool) :=
  (returnData.zip pools).foldlM insertRow poolSet

/-! ## The rows the contract returns -/

open GetUniswapV3PoolTickBitmapBatchRequest

/-- The non-zero words of an interval. -/
def nonEmptyWords (tickBitmap : Int → U256) (info : TickBitmapInfo) : List Int :=
  (words info).filter (tickBitmap · ≠ 0)

/-- Position and bitmap of each word. -/
def pairs (tickBitmap : Int → U256) (ws : List Int) : List U256 :=
  ws.flatMap fun w => [BitVec.ofInt 256 w, tickBitmap w]

theorem mem_words {info : TickBitmapInfo} {w : Int} :
    w ∈ words info ↔ info.minWord ≤ w ∧ w ≤ info.maxWord := by
  unfold words
  rw [List.mem_map]
  constructor
  · rintro ⟨i, hi, rfl⟩
    rw [List.mem_range] at hi
    omega
  · rintro ⟨h0, h1⟩
    exact ⟨(w - info.minWord).toNat, by rw [List.mem_range]; omega, by omega⟩

theorem length_pairs (tickBitmap : Int → U256) (ws : List Int) :
    (pairs tickBitmap ws).length = 2 * ws.length := by
  induction ws with
  | nil => rfl
  | cons w ws ih =>
    rw [pairs, List.flatMap_cons, List.length_append] at *
    rw [ih]
    simp
    omega

/-- Writing the next slot of a partly filled array. -/
theorem write_next (written : List U256) (n : Nat) (value : U256) :
    write (written ++ List.replicate n 0) written.length value =
      if n = 0 then none else some (written ++ [value] ++ List.replicate (n - 1) 0) := by
  unfold write
  cases n with
  | zero => simp
  | succ n => simp [List.replicate_succ]

/-- The array after a prefix of the words: their pairs and then zeros, or a revert when the pairs
do not fit. -/
theorem foldlM_visitWord (tickBitmap : Int → U256) (ws : List Int) (written : List U256) (n : Nat) :
    ws.foldlM (visitWord tickBitmap) (written ++ List.replicate n 0, written.length) =
      if 2 * (ws.filter (tickBitmap · ≠ 0)).length ≤ n then
        some (written ++ pairs tickBitmap (ws.filter (tickBitmap · ≠ 0)) ++
            List.replicate (n - 2 * (ws.filter (tickBitmap · ≠ 0)).length) 0,
          written.length + 2 * (ws.filter (tickBitmap · ≠ 0)).length)
      else none := by
  induction ws generalizing written n with
  | nil => simp [pairs]
  | cons w ws ih =>
    rw [List.foldlM_cons]
    by_cases hw : tickBitmap w = 0
    · have hstep : visitWord tickBitmap (written ++ List.replicate n 0, written.length) w =
          some (written ++ List.replicate n 0, written.length) := if_pos hw
      rw [hstep, List.filter_cons_of_neg (by simp [hw])]
      exact ih written n
    · have hcons : (w :: ws).filter (tickBitmap · ≠ 0) = w :: ws.filter (tickBitmap · ≠ 0) :=
        List.filter_cons_of_pos (decide_eq_true hw)
      rw [hcons, List.length_cons]
      by_cases hfit : 2 ≤ n
      · have hstep : visitWord tickBitmap (written ++ List.replicate n 0, written.length) w =
            some (written ++ [BitVec.ofInt 256 w, tickBitmap w] ++ List.replicate (n - 2) 0,
              (written ++ [BitVec.ofInt 256 w, tickBitmap w]).length) := by
          have h1 := write_next written n (BitVec.ofInt 256 w)
          have h2 := write_next (written ++ [BitVec.ofInt 256 w]) (n - 1) (tickBitmap w)
          rw [if_neg (by omega)] at h1 h2
          rw [List.length_append, List.length_singleton] at h2
          unfold visitWord
          simp only [if_neg hw, h1, h2, Option.bind_eq_bind, Option.bind_some]
          simp only [List.append_assoc, List.singleton_append, Nat.sub_sub, List.length_append,
            List.length_cons, List.length_nil]
          rfl
        rw [hstep]
        refine (ih _ _).trans ?_
        have hpairs : pairs tickBitmap (w :: ws.filter (tickBitmap · ≠ 0)) =
            [BitVec.ofInt 256 w, tickBitmap w] ++ pairs tickBitmap (ws.filter (tickBitmap · ≠ 0)) :=
          rfl
        rw [hpairs, List.length_append, List.append_assoc written]
        by_cases hall : 2 * (ws.filter (tickBitmap · ≠ 0)).length ≤ n - 2
        · rw [if_pos hall, if_pos (by omega), List.append_assoc written, Nat.sub_sub,
            List.length_cons, List.length_singleton, Nat.mul_add, Nat.add_assoc,
            Nat.add_comm (2 * _) (2 * 1)]
          simp only [List.append_assoc, Nat.reduceAdd, Nat.reduceMul]
        · rw [if_neg hall, if_neg (by omega)]
      · rw [if_neg (by omega)]
        have h1 := write_next written n (BitVec.ofInt 256 w)
        have hrevert : visitWord tickBitmap (written ++ List.replicate n 0, written.length) w =
            none := by
          unfold visitWord
          by_cases hn : n = 0
          · rw [if_pos hn] at h1
            simp only [if_neg hw, h1, Option.bind_eq_bind, Option.bind_none]
          · have h2 := write_next (written ++ [BitVec.ofInt 256 w]) (n - 1) (tickBitmap w)
            rw [if_neg hn] at h1
            rw [if_pos (by omega), List.length_append, List.length_singleton] at h2
            simp only [if_neg hw, h1, h2, Option.bind_eq_bind, Option.bind_some, Option.bind_none]
        rw [hrevert]
        rfl

/-- A list of intervals within the words of valid ticks. -/
structure ValidWords (info : TickBitmapInfo) : Prop where
  minWord : -3466 ≤ info.minWord
  ordered : info.minWord ≤ info.maxWord
  maxWord : info.maxWord ≤ 3465

theorem row_eq {tickBitmap : Int → U256} {info : TickBitmapInfo} (h : ValidWords info) :
    row tickBitmap info =
      if 2 * (nonEmptyWords tickBitmap info).length ≤ (info.maxWord - info.minWord + 1).toNat then
        some (pairs tickBitmap (nonEmptyWords tickBitmap info))
      else none := by
  obtain ⟨h0, h1, h2⟩ := h
  have hsize : ((info.maxWord - info.minWord) % 2 ^ 16).toNat + 1 =
      (info.maxWord - info.minWord + 1).toNat := by omega
  have hfold := foldlM_visitWord tickBitmap (words info) []
    (info.maxWord - info.minWord + 1).toNat
  unfold row nonEmptyWords
  simp only [hsize]
  rw [if_neg (by omega), if_neg (by omega)]
  simp only [List.nil_append, List.length_nil, Nat.zero_add] at hfold
  rw [hfold]
  split
  · rw [Option.map_some]
    congr 1
    rw [← length_pairs tickBitmap, List.take_left]
  · rfl

/-! ## Reading the rows back -/

theorem i256AsI16_ofInt {w : Int} (h0 : -32768 ≤ w) (h1 : w ≤ 32767) :
    i256AsI16 (BitVec.ofInt 256 w) = .ok w := by
  have hint : (BitVec.ofInt 256 w).toInt = w := by
    rw [BitVec.toInt_ofInt]
    exact Int.bmod_eq_of_le (by omega) (by omega)
  unfold i256AsI16
  rw [hint, if_pos ⟨h0, h1⟩]

/-- Inserting the chunks of a row sets the words of the row. -/
theorem foldlM_insertChunk (tickBitmap : Int → U256) (ws : List Int)
    (hws : ∀ w ∈ ws, -32768 ≤ w ∧ w ≤ 32767) (pool : UniswapV3Pool) :
    ∃ bitmap, (chunksExact2 (pairs tickBitmap ws)).foldlM insertChunk pool =
        .ok { pool with tickBitmap := bitmap } ∧
      ∀ w, bitmap.lookup w = if w ∈ ws then some (tickBitmap w) else pool.tickBitmap.lookup w := by
  induction ws generalizing pool with
  | nil => exact ⟨pool.tickBitmap, rfl, by simp⟩
  | cons v ws ih =>
    rw [List.forall_mem_cons] at hws
    obtain ⟨bitmap, hfold, hlookup⟩ :=
      ih hws.2 { pool with tickBitmap := pool.tickBitmap.insert v (tickBitmap v) }
    refine ⟨bitmap, ?_, fun w => ?_⟩
    · have hchunks : chunksExact2 (pairs tickBitmap (v :: ws)) =
          (BitVec.ofInt 256 v, tickBitmap v) :: chunksExact2 (pairs tickBitmap ws) := rfl
      rw [hchunks, List.foldlM_cons]
      have hinsert : insertChunk pool (BitVec.ofInt 256 v, tickBitmap v) =
          .ok { pool with tickBitmap := pool.tickBitmap.insert v (tickBitmap v) } := by
        unfold insertChunk
        rw [i256AsI16_ofInt hws.1.1 hws.1.2]
        rfl
      rw [hinsert]
      exact hfold
    · rw [hlookup]
      by_cases hw : w ∈ ws
      · rw [if_pos hw, if_pos (List.mem_cons_of_mem _ hw)]
      · by_cases hv : w = v
        · subst hv
          rw [if_neg hw, if_pos List.mem_cons_self]
          exact AList.lookup_insert _
        · rw [if_neg hw, if_neg (by simp [hv, hw])]
          exact AList.lookup_insert_ne hv

/-- Some interval asks for the word of the pool. -/
def Requested (infos : List TickBitmapInfo) (a : Address) (w : Int) : Prop :=
  ∃ info ∈ infos, info.pool = a ∧ info.minWord ≤ w ∧ w ≤ info.maxWord

/-- The bitmaps hold the requested non-zero words and are unchanged elsewhere. -/
structure Holds (tickBitmap : Address → Int → U256) (infos : List TickBitmapInfo)
    (poolSet poolSet' : HashMap Address UniswapV3Pool) : Prop where
  keys : ∀ a, (poolSet'.lookup a).isSome = (poolSet.lookup a).isSome
  frame : ∀ a pool pool', poolSet.lookup a = some pool → poolSet'.lookup a = some pool' →
    pool' = { pool with tickBitmap := pool'.tickBitmap }
  inserted : ∀ a pool', poolSet'.lookup a = some pool' → ∀ w, Requested infos a w →
    tickBitmap a w ≠ 0 → pool'.tickBitmap.lookup w = some (tickBitmap a w)
  kept : ∀ a pool pool', poolSet.lookup a = some pool → poolSet'.lookup a = some pool' → ∀ w,
    ¬ (Requested infos a w ∧ tickBitmap a w ≠ 0) →
      pool'.tickBitmap.lookup w = pool.tickBitmap.lookup w

/-- The row of one interval sets its non-zero words in the bitmap of its pool. -/
theorem insertRow_spec (tickBitmap : Int → U256) {info : TickBitmapInfo} (hvalid : ValidWords info)
    {poolSet : HashMap Address UniswapV3Pool} {pool : UniswapV3Pool}
    (hpool : poolSet.lookup info.pool = some pool) :
    ∃ bitmap, insertRow poolSet (pairs tickBitmap (nonEmptyWords tickBitmap info), info.pool) =
        .ok (poolSet.insert info.pool { pool with tickBitmap := bitmap }) ∧
      ∀ w, bitmap.lookup w =
        if (info.minWord ≤ w ∧ w ≤ info.maxWord) ∧ tickBitmap w ≠ 0 then some (tickBitmap w)
        else pool.tickBitmap.lookup w := by
  have hmem : ∀ w, w ∈ nonEmptyWords tickBitmap info ↔
      (info.minWord ≤ w ∧ w ≤ info.maxWord) ∧ tickBitmap w ≠ 0 := by
    intro w
    unfold nonEmptyWords
    rw [List.mem_filter, mem_words, decide_eq_true_eq]
  have hwords : ∀ w ∈ nonEmptyWords tickBitmap info, -32768 ≤ w ∧ w ≤ 32767 := by
    intro w hw
    have := ((hmem w).mp hw).1
    have := hvalid.minWord
    have := hvalid.maxWord
    omega
  obtain ⟨bitmap, hfold, hlookup⟩ := foldlM_insertChunk tickBitmap _ hwords pool
  refine ⟨bitmap, ?_, fun w => ?_⟩
  · unfold insertRow
    simp only [hpool, hfold, ok_bind]
    rfl
  · simp only [hlookup, hmem]

theorem Holds.refl (tickBitmap : Address → Int → U256) (poolSet : HashMap Address UniswapV3Pool) :
    Holds tickBitmap [] poolSet poolSet where
  keys _ := rfl
  frame a pool pool' h h' := by
    obtain rfl := Option.some.inj (h.symm.trans h')
    rfl
  inserted := by
    rintro a pool' - w ⟨info, hinfo, -⟩
    cases hinfo
  kept a pool pool' h h' w _ := by
    obtain rfl := Option.some.inj (h.symm.trans h')
    rfl

/-- A row more: only its own pool changes, and only in the non-zero words of its interval. -/
theorem Holds.cons {tickBitmap : Address → Int → U256} {info : TickBitmapInfo}
    {infos : List TickBitmapInfo} {poolSet poolSet' : HashMap Address UniswapV3Pool}
    {pool : UniswapV3Pool} {bitmap : HashMap Int U256}
    (h : Holds tickBitmap infos (poolSet.insert info.pool { pool with tickBitmap := bitmap })
      poolSet')
    (hpool : poolSet.lookup info.pool = some pool)
    (hlookup : ∀ w, bitmap.lookup w =
      if (info.minWord ≤ w ∧ w ≤ info.maxWord) ∧ tickBitmap info.pool w ≠ 0 then
        some (tickBitmap info.pool w)
      else pool.tickBitmap.lookup w) :
    Holds tickBitmap (info :: infos) poolSet poolSet' where
  keys a := by
    rw [h.keys, HashMap.lookup_insert]
    by_cases heq : a = info.pool
    · rw [if_pos heq, heq, hpool]
      rfl
    · rw [if_neg heq]
  frame a p p' hp hp' := by
    by_cases heq : a = info.pool
    · subst heq
      obtain rfl := Option.some.inj (hpool.symm.trans hp)
      exact h.frame _ { pool with tickBitmap := bitmap } p' (AList.lookup_insert _) hp'
    · exact h.frame a p p' (by rw [AList.lookup_insert_ne heq]; exact hp) hp'
  inserted := by
    rintro a p' hp' w ⟨info', hinfo', rfl, hw⟩ hne
    by_cases hrest : Requested infos info'.pool w
    · exact h.inserted _ p' hp' w hrest hne
    · -- only the row of `info` has the word
      rcases List.mem_cons.mp hinfo' with rfl | hinfo'
      · rw [h.kept _ _ p' (AList.lookup_insert _) hp' w fun hno => hrest hno.1, hlookup,
          if_pos ⟨hw, hne⟩]
      · exact absurd ⟨info', hinfo', rfl, hw⟩ hrest
  kept a p p' hp hp' w hno := by
    have hno' : ¬ (Requested infos a w ∧ tickBitmap a w ≠ 0) := by
      rintro ⟨⟨info', hinfo', hw⟩, hne⟩
      exact hno ⟨⟨info', List.mem_cons_of_mem _ hinfo', hw⟩, hne⟩
    by_cases heq : a = info.pool
    · subst heq
      obtain rfl := Option.some.inj (hpool.symm.trans hp)
      rw [h.kept _ _ p' (AList.lookup_insert _) hp' w hno', hlookup, if_neg]
      rintro ⟨hw, hne⟩
      exact hno ⟨⟨info, List.mem_cons_self, rfl, hw⟩, hne⟩
    · exact h.kept a p p' (by rw [AList.lookup_insert_ne heq]; exact hp) hp' w hno'

/-- The rows of a group, read back into its pools. -/
theorem insertTickBitmaps_spec (tickBitmap : Address → Int → U256) (infos : List TickBitmapInfo)
    (hvalid : ∀ info ∈ infos, ValidWords info) (poolSet : HashMap Address UniswapV3Pool)
    (hpools : ∀ info ∈ infos, (poolSet.lookup info.pool).isSome) :
    ∃ poolSet', insertTickBitmaps poolSet (infos.map (·.pool))
        (infos.map fun info => pairs (tickBitmap info.pool)
          (nonEmptyWords (tickBitmap info.pool) info)) = .ok poolSet' ∧
      Holds tickBitmap infos poolSet poolSet' := by
  unfold insertTickBitmaps
  induction infos generalizing poolSet with
  | nil => exact ⟨poolSet, rfl, Holds.refl tickBitmap poolSet⟩
  | cons info infos ih =>
    rw [List.forall_mem_cons] at hvalid hpools
    obtain ⟨pool, hpool⟩ := Option.isSome_iff_exists.mp hpools.1
    obtain ⟨bitmap, hrow, hlookup⟩ := insertRow_spec (tickBitmap info.pool) hvalid.1 hpool
    have hrest : ∀ info' ∈ infos,
        ((poolSet.insert info.pool { pool with tickBitmap := bitmap }).lookup
          info'.pool).isSome := by
      intro info' hinfo'
      rw [HashMap.lookup_insert]
      split
      · rfl
      · exact hpools.2 info' hinfo'
    obtain ⟨poolSet', hok, hholds⟩ := ih hvalid.2 _ hrest
    refine ⟨poolSet', ?_, hholds.cons hpool hlookup⟩
    rw [List.map_cons, List.map_cons, List.zip_cons_cons, List.foldlM_cons, hrow]
    exact hok

/-! ## The round trip -/

/-- The constructor returns, and its return data puts exactly the non-zero words of the intervals
into the pools. -/
def RoundTrips (tickBitmap : Address → Int → U256) (infos : List TickBitmapInfo) : Prop :=
  ∃ returnData, constructor tickBitmap infos = some returnData ∧
    ∀ poolSet, (∀ info ∈ infos, (poolSet.lookup info.pool).isSome) →
      ∃ poolSet', insertTickBitmaps poolSet (infos.map (·.pool)) returnData = .ok poolSet' ∧
        Holds tickBitmap infos poolSet poolSet'

/-- **The batch contract and its decoder round-trip exactly when no interval has more non-zero
words than half its words.** -/
theorem roundTrips_iff (tickBitmap : Address → Int → U256) (infos : List TickBitmapInfo)
    (hvalid : ∀ info ∈ infos, ValidWords info) :
    RoundTrips tickBitmap infos ↔ ∀ info ∈ infos,
      2 * (nonEmptyWords (tickBitmap info.pool) info).length ≤
        (info.maxWord - info.minWord + 1).toNat := by
  have hrows : ∀ infos : List TickBitmapInfo, (∀ info ∈ infos, ValidWords info) →
      (∀ info ∈ infos, 2 * (nonEmptyWords (tickBitmap info.pool) info).length ≤
        (info.maxWord - info.minWord + 1).toNat) →
      constructor tickBitmap infos = some (infos.map fun info =>
        pairs (tickBitmap info.pool) (nonEmptyWords (tickBitmap info.pool) info)) := by
    intro infos hvalid hfit
    unfold constructor
    induction infos with
    | nil => rfl
    | cons info infos ih =>
      rw [List.forall_mem_cons] at hvalid hfit
      rw [List.mapM_cons, row_eq hvalid.1, if_pos hfit.1, ih hvalid.2 hfit.2]
      rfl
  constructor
  · rintro ⟨returnData, hreturn, -⟩ info hinfo
    by_contra hfull
    have hrevert : row (tickBitmap info.pool) info = none := by
      rw [row_eq (hvalid info hinfo), if_neg hfull]
    have hnone : ∀ infos : List TickBitmapInfo, info ∈ infos →
        constructor tickBitmap infos = none := by
      intro infos hmem
      unfold constructor
      induction infos with
      | nil => cases hmem
      | cons other infos ih =>
        rw [List.mapM_cons]
        rcases List.mem_cons.mp hmem with rfl | hmem
        · rw [hrevert]
          rfl
        · rw [ih hmem]
          cases row (tickBitmap other.pool) other <;> rfl
    rw [hnone infos hinfo] at hreturn
    cases hreturn
  · intro hfit
    exact ⟨_, hrows infos hvalid hfit, insertTickBitmaps_spec tickBitmap infos hvalid⟩

/-- Word 0 alone is set, in an interval of two words. -/
theorem roundTrips_iff_word0 :
    RoundTrips (fun _ w => if w = 0 then 5 else 0) [⟨1, -1, 0⟩] ↔
      ∀ info ∈ [(⟨1, -1, 0⟩ : TickBitmapInfo)],
        2 * (nonEmptyWords ((fun _ w => if w = 0 then 5 else 0 : Address → Int → U256) info.pool)
          info).length ≤ (info.maxWord - info.minWord + 1).toNat :=
  roundTrips_iff _ _ (by
    intro info hinfo
    rw [List.mem_singleton] at hinfo
    subst hinfo
    exact ⟨by decide, by decide, by decide⟩)

/-- Both words of an interval of two words are set: the third store is out of bounds. -/
theorem not_roundTrips_full : ¬ RoundTrips (fun _ _ => 1) [⟨1, -1, 0⟩] := by
  rintro ⟨returnData, hreturn, -⟩
  have hnone : constructor (fun _ _ => 1) [⟨1, -1, 0⟩] = none := by decide
  rw [hnone] at hreturn
  cases hreturn

end ArbitrageBot
