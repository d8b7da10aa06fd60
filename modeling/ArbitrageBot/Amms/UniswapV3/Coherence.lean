import ArbitrageBot.Amms.UniswapV3.Pool
import ArbitrageBot.Lib.Segments
import ArbitrageBot.Lib.WordSet

/-!
# Tick coherence of Uniswap V3 pools

The open positions of a pool are weighted segments of the tick line. A pool is coherent for a
multiset of them when its tick map, its bitmap and its active liquidity all say what the positions
say. `modifyPosition` is proved against a table of gross and net liquidities (`Table`), one lemma
for each function of the source; `sync` then keeps the pool coherent along every run of events.
-/

namespace ArbitrageBot

open Lib

namespace UniswapV3Pool

/-! ## Views of the tick map and of the bitmap -/

/-- The gross and net liquidity stored under a tick, if it is a key. -/
def tickView (pool : UniswapV3Pool) (t : Int) : Option (Nat × Int) :=
  (pool.ticks.lookup t).map fun info => (info.liquidityGross, info.liquidityNet)

/-- The bit of a tick in the bitmap. -/
def tickBit (pool : UniswapV3Pool) (t : Int) : Bool :=
  let (wordPos, bitPos) := position (t.tdiv pool.tickSpacing)
  ((pool.tickBitmap.lookup wordPos).getD 0).getLsbD bitPos

theorem tickBit_eq (pool : UniswapV3Pool) (t : Int) :
    pool.tickBit t = WordSet.mem pool.tickBitmap (t.tdiv pool.tickSpacing) := by
  unfold tickBit WordSet.mem
  rw [position_eq]
  rfl

theorem flipTick_eq (pool : UniswapV3Pool) (t s : Int) :
    pool.flipTick t s = { pool with tickBitmap := WordSet.flip pool.tickBitmap (t.tdiv s) } := by
  unfold flipTick WordSet.flip
  rw [position_eq]
  simp only [bitMask, Nat.cast_ofNat]
  cases pool.tickBitmap.lookup (t.tdiv s / 256) <;> simp

/-- The stored info of a tick, the default where there is none. -/
def infoAt (pool : UniswapV3Pool) (t : Int) : Info :=
  (pool.ticks.lookup t).getD default

/-! ## One bound of a position -/

theorem applyDelta_eq (prof : BuildProfile) {before : Nat} {delta : Int}
    (h0 : -2 ^ 127 < delta) (h1 : delta < 2 ^ 127) (h2 : 0 ≤ before + delta)
    (h3 : before + delta < 2 ^ 128) :
    applyDelta prof before delta = .ok (before + delta).toNat := by
  unfold applyDelta
  by_cases hneg : delta < 0
  · have hd : prof.signed (ε := AMMError) 128 (-delta) = .ok (-delta) :=
      BuildProfile.signed_of_range (by omega) (by omega)
    have hu : ((asU128 (-delta) : Nat) : Int) = -delta := by
      rw [asU128_of_range (by omega) (by omega)]
      omega
    rw [if_pos hneg, hd, ok_bind, hu, BuildProfile.unsigned_of_range (by omega) (by omega)]
    congr 2
    omega
  · have hu : ((asU128 delta : Nat) : Int) = delta := by
      rw [asU128_of_range (by omega) (by omega)]
      omega
    rw [if_neg hneg, hu, BuildProfile.unsigned_of_range (by omega) (by omega)]

/-- The change of a tick's net liquidity, by the bound it is made at. -/
def signedDelta (upper : Bool) (delta : Int) : Int :=
  if upper then -delta else delta

theorem applyNetDelta_eq (prof : BuildProfile) {net delta : Int} {upper : Bool}
    (h0 : -2 ^ 127 ≤ net + signedDelta upper delta) (h1 : net + signedDelta upper delta < 2 ^ 127) :
    applyNetDelta prof net delta upper = .ok (net + signedDelta upper delta) := by
  unfold applyNetDelta
  cases upper with
  | false => exact BuildProfile.signed_of_range h0 h1
  | true => exact BuildProfile.signed_of_range h0 h1

/-- `update_tick` with no overflow: the new entry of the tick, and whether the tick flipped. -/
theorem updateTick_eq (prof : BuildProfile) (pool : UniswapV3Pool) (upper : Bool) {t delta : Int}
    {a a' : Nat} {b b' : Int} (ha : (pool.infoAt t).liquidityGross = a)
    (hb : (pool.infoAt t).liquidityNet = b) (h0 : -2 ^ 127 < delta) (h1 : delta < 2 ^ 127)
    (ha' : (a' : Int) = a + delta) (hb' : b' = b + signedDelta upper delta) (h2 : a' < 2 ^ 128)
    (h3 : -2 ^ 127 ≤ b' ∧ b' < 2 ^ 127) :
    pool.updateTick prof t delta upper = .ok (decide (a' = 0) != decide (a = 0),
      { pool with ticks := (pool.ticks.insert t
          ⟨a', b', if a = 0 then true else (pool.infoAt t).initialized⟩) }) := by
  have hgross : applyDelta prof a delta = .ok a' := by
    rw [applyDelta_eq prof h0 h1 (by omega) (by omega), ← ha', Int.toNat_natCast]
  have hnet : applyNetDelta prof b delta upper = .ok b' := by
    rw [applyNetDelta_eq prof (by omega) (by omega), hb']
  unfold infoAt at *
  unfold updateTick
  simp only [ha, hb, hgross, hnet, ok_bind]
  rfl

/-! ## Both bounds of a position -/

/-- The tick map and the bitmap hold the gross and net liquidities `g` and `n`, at exactly the
ticks where `g` is positive. -/
structure Table (pool : UniswapV3Pool) (g : Int → Nat) (n : Int → Int) : Prop where
  view : ∀ t, pool.tickView t = if g t = 0 then none else some (g t, n t)
  bit : ∀ t, pool.tickSpacing ∣ t → pool.tickBit t = decide (g t ≠ 0)
  netZero : ∀ t, g t = 0 → n t = 0

theorem Table.infoAt {pool : UniswapV3Pool} {g : Int → Nat} {n : Int → Int} (h : Table pool g n)
    (t : Int) : (pool.infoAt t).liquidityGross = g t ∧ (pool.infoAt t).liquidityNet = n t := by
  have hv := h.view t
  unfold tickView at hv
  unfold UniswapV3Pool.infoAt
  by_cases hg : g t = 0
  · rw [if_pos hg, Option.map_eq_none_iff] at hv
    rw [hv, hg, h.netZero t hg]
    exact ⟨rfl, rfl⟩
  · rw [if_neg hg, Option.map_eq_some_iff] at hv
    obtain ⟨info, hl, hi⟩ := hv
    rw [Prod.mk.injEq] at hi
    rw [hl]
    exact hi

/-- `liquidityDelta` added to the gross liquidity of both bounds of a position, to the net
liquidity of the lower one and taken from the net liquidity of the upper one. -/
structure Shifted (lower upper delta : Int) (g g' : Int → Nat) (n n' : Int → Int) : Prop where
  gross : ∀ t, (g' t : Int) = g t + if t = lower ∨ t = upper then delta else 0
  net : ∀ t, n' t = n t + (if t = lower then delta else 0) - (if t = upper then delta else 0)
  grossLt : ∀ t, g' t < 2 ^ 128
  netRange : ∀ t, -2 ^ 127 ≤ n' t ∧ n' t < 2 ^ 127
  netZero : ∀ t, g' t = 0 → n' t = 0

theorem lookup_eraseIf {ν : Type} (m : HashMap Int ν) (c : Prop) [Decidable c] (a t : Int) :
    (if c then m.erase a else m).lookup t = if c ∧ t = a then none else m.lookup t := by
  by_cases hc : c
  · by_cases h : t = a
    · subst h
      simp [hc]
    · simp [hc, h, AList.lookup_erase_ne h]
  · simp [hc]

theorem mem_flipIf (m : HashMap Int U256) (b : Bool) (i j : Int) :
    WordSet.mem (if b then WordSet.flip m i else m) j =
      (WordSet.mem m j ^^ (b && decide (i = j))) := by
  cases b with
  | false => simp
  | true => simp [WordSet.mem_flip]

/-- On multiples of the spacing, compressed ticks are equal only for equal ticks. -/
theorem tdiv_inj {s a b : Int} (hs : s ≠ 0) (ha : s ∣ a) (hb : s ∣ b) :
    a.tdiv s = b.tdiv s ↔ a = b := by
  obtain ⟨k, rfl⟩ := ha
  obtain ⟨l, rfl⟩ := hb
  rw [Int.mul_tdiv_cancel_left _ hs, Int.mul_tdiv_cancel_left _ hs]
  constructor
  · rintro rfl
    rfl
  · intro h
    exact Int.eq_of_mul_eq_mul_left hs h

section UpdatePosition

variable {pool : UniswapV3Pool} {g g' : Int → Nat} {n n' : Int → Int} {lower upper delta : Int}

/-- The flip test of `update_tick`, in a table that changes from `g` to `g'`. -/
def flips (g g' : Int → Nat) (t : Int) : Bool :=
  decide (g' t = 0) != decide (g t = 0)

/-- The entry `update_tick` writes for a tick. -/
def entryAfter (pool : UniswapV3Pool) (g g' : Int → Nat) (n' : Int → Int) (t : Int) : Info :=
  ⟨g' t, n' t, if g t = 0 then true else (pool.infoAt t).initialized⟩

/-- The pool `update_position` returns for a non-zero change. -/
def positionUpdated (pool : UniswapV3Pool) (g g' : Int → Nat) (n' : Int → Int)
    (lower upper delta : Int) : UniswapV3Pool :=
  let ticks := (pool.ticks.insert lower (pool.entryAfter g g' n' lower)).insert upper
    (pool.entryAfter g g' n' upper)
  let ticks := if decide (delta < 0) && flips g g' lower then ticks.erase lower else ticks
  let ticks := if decide (delta < 0) && flips g g' upper then ticks.erase upper else ticks
  let tickBitmap := if flips g g' lower then
    WordSet.flip pool.tickBitmap (lower.tdiv pool.tickSpacing) else pool.tickBitmap
  let tickBitmap := if flips g g' upper then
    WordSet.flip tickBitmap (upper.tdiv pool.tickSpacing) else tickBitmap
  { pool with ticks, tickBitmap }

/-- `update_position` for a non-zero change that overflows nothing. -/
theorem Table.updatePosition_eq (hT : Table pool g n)
    (hS : Shifted lower upper delta g g' n n') (hne : lower ≠ upper) (hd0 : delta ≠ 0)
    (hd1 : -2 ^ 127 < delta) (hd2 : delta < 2 ^ 127) (prof : BuildProfile) :
    pool.updatePosition prof lower upper delta =
      .ok (positionUpdated pool g g' n' lower upper delta) := by
  have hgl := hS.gross lower
  have hgu := hS.gross upper
  have hnl := hS.net lower
  have hnu := hS.net upper
  rw [if_pos (Or.inl rfl)] at hgl
  rw [if_pos (Or.inr rfl)] at hgu
  rw [if_pos rfl, if_neg hne, Int.sub_zero] at hnl
  rw [if_neg hne.symm, if_pos rfl, Int.add_zero, Int.sub_eq_add_neg] at hnu
  have h1 : pool.updateTick prof lower delta false = .ok (flips g g' lower,
      { pool with ticks := pool.ticks.insert lower (pool.entryAfter g g' n' lower) }) :=
    updateTick_eq prof pool false (hT.infoAt lower).1 (hT.infoAt lower).2 hd1 hd2 hgl hnl
      (hS.grossLt lower) (hS.netRange lower)
  -- the entry of the upper bound, which the lower one has left alone
  have hinfo : UniswapV3Pool.infoAt
      { pool with ticks := pool.ticks.insert lower (pool.entryAfter g g' n' lower) } upper =
        pool.infoAt upper := by
    unfold UniswapV3Pool.infoAt
    rw [AList.lookup_insert_ne hne.symm]
  have h2 := updateTick_eq prof
    { pool with ticks := pool.ticks.insert lower (pool.entryAfter g g' n' lower) } true
    (hinfo ▸ (hT.infoAt upper).1) (hinfo ▸ (hT.infoAt upper).2) hd1 hd2 hgu hnu
    (hS.grossLt upper) (hS.netRange upper)
  rw [hinfo, show (decide (g' upper = 0) != decide (g upper = 0)) = flips g g' upper from rfl] at h2
  unfold updatePosition positionUpdated
  rw [if_pos hd0, h1]
  simp only [ok_bind]
  rw [h2]
  simp only [ok_bind]
  generalize flips g g' lower = bl
  generalize flips g g' upper = bu
  by_cases hneg : delta < 0 <;> cases bl <;> cases bu <;>
    simp only [hneg, flipTick_eq, removeTick] <;> rfl

/-- A tick is removed exactly when its gross liquidity is gone. -/
theorem Shifted.removes_iff (hS : Shifted lower upper delta g g' n n') (hd0 : delta ≠ 0) {t : Int}
    (ht : t = lower ∨ t = upper) :
    (decide (delta < 0) && flips g g' t) = decide (g' t = 0) := by
  have hg := hS.gross t
  rw [if_pos ht] at hg
  unfold flips
  by_cases hneg : delta < 0
  · have hpos : g t ≠ 0 := by omega
    simp [hneg, hpos]
  · have hpos : g' t ≠ 0 := by omega
    simp [hneg, hpos]

/-- Away from the bounds nothing changes. -/
theorem Shifted.other (hS : Shifted lower upper delta g g' n n') {t : Int}
    (ht : ¬ (t = lower ∨ t = upper)) : g' t = g t ∧ n' t = n t := by
  have hg := hS.gross t
  have hn := hS.net t
  rw [if_neg ht] at hg
  rw [not_or] at ht
  rw [if_neg ht.1, if_neg ht.2] at hn
  omega

theorem Table.positionUpdated (hT : Table pool g n) (hS : Shifted lower upper delta g g' n n')
    (hne : lower ≠ upper) (hd0 : delta ≠ 0) (hs : pool.tickSpacing ≠ 0)
    (hl : pool.tickSpacing ∣ lower) (hu : pool.tickSpacing ∣ upper) :
    Table (positionUpdated pool g g' n' lower upper delta) g' n' where
  view := by
    intro t
    have hv := hT.view t
    unfold tickView at hv ⊢
    simp only [UniswapV3Pool.positionUpdated, hS.removes_iff hd0 (.inl rfl),
      hS.removes_iff hd0 (.inr rfl), lookup_eraseIf, HashMap.lookup_insert, decide_eq_true_eq]
    by_cases htl : t = lower
    · subst htl
      by_cases hg : g' t = 0 <;> simp [hne, hg, entryAfter]
    · by_cases htu : t = upper
      · subst htu
        by_cases hg : g' t = 0 <;> simp [htl, hg, entryAfter]
      · obtain ⟨hg, hn⟩ := hS.other (t := t) (by simp [htl, htu])
        simp only [htl, htu, and_false, if_false, hg, hn]
        exact hv
  bit := by
    intro t ht
    have hb := hT.bit t ht
    rw [tickBit_eq] at hb ⊢
    simp only [UniswapV3Pool.positionUpdated, mem_flipIf, tdiv_inj hs hl ht,
      tdiv_inj hs hu ht] at ht ⊢
    rw [hb]
    by_cases htl : t = lower
    · subst htl
      simp only [flips, decide_not, hne.symm, decide_true, decide_false, Bool.and_true,
        Bool.and_false, Bool.xor_false]
      cases decide (g t = 0) <;> cases decide (g' t = 0) <;> rfl
    · by_cases htu : t = upper
      · subst htu
        simp only [flips, decide_not, hne, decide_true, decide_false, Bool.and_true, Bool.and_false,
          Bool.xor_false]
        cases decide (g t = 0) <;> cases decide (g' t = 0) <;> rfl
      · obtain ⟨hg, -⟩ := hS.other (t := t) (by simp [htl, htu])
        simp [Ne.symm htl, Ne.symm htu, hg]
  netZero := hS.netZero

/-- **`update_position` moves the tick map and the bitmap from one table to the next** and leaves
every other field as it was. -/
theorem Table.updatePosition (hT : Table pool g n) (hS : Shifted lower upper delta g g' n n')
    (hne : lower ≠ upper) (hd1 : -2 ^ 127 < delta) (hd2 : delta < 2 ^ 127)
    (hs : pool.tickSpacing ≠ 0) (hl : pool.tickSpacing ∣ lower) (hu : pool.tickSpacing ∣ upper) :
    ∃ ticks tickBitmap, Table { pool with ticks, tickBitmap } g' n' ∧ ∀ prof,
      pool.updatePosition prof lower upper delta = .ok { pool with ticks, tickBitmap } := by
  by_cases hd0 : delta = 0
  · subst hd0
    have hg : g' = g := by
      funext t
      have := hS.gross t
      simp only [ite_self] at this
      omega
    have hn : n' = n := by
      funext t
      have := hS.net t
      simp only [ite_self] at this
      omega
    subst hg hn
    exact ⟨pool.ticks, pool.tickBitmap, hT, fun _ => rfl⟩
  · exact ⟨_, _, hT.positionUpdated hS hne hd0 hs hl hu,
      hT.updatePosition_eq hS hne hd0 hd1 hd2⟩

end UpdatePosition

/-! ## Coherence -/

/-- An open position: its bounds and its liquidity. -/
abbrev Position := Segment Int

/-- The bounds the pool contract lets a position have. -/
structure ValidBounds (tickSpacing lower upper : Int) : Prop where
  lt : lower < upper
  dvdLower : tickSpacing ∣ lower
  dvdUpper : tickSpacing ∣ upper
  minTick : MIN_TICK ≤ lower
  maxTick : upper ≤ MAX_TICK

/-- The sum of `liquidity_net` over the ticks of the map that are at most `tick`. -/
def netUpTo (pool : UniswapV3Pool) (tick : Int) : Int :=
  ((pool.ticks.entries.filter fun e => e.1 ≤ tick).map fun e => e.2.liquidityNet).sum

/-- The tick map, the bitmap and the active liquidity of a pool agree with a multiset of open
positions. -/
structure Coherent (pool : UniswapV3Pool) (M : Multiset Position) : Prop where
  bounds : ∀ p ∈ M, ValidBounds pool.tickSpacing p.lo p.hi
  total_lt : total M < 2 ^ 127
  key_iff : ∀ t, (∃ info, pool.ticks.lookup t = some info) ↔ 0 < gross M t
  bit_iff : ∀ t, pool.tickSpacing ∣ t → (pool.tickBit t = true ↔ 0 < gross M t)
  gross_eq : ∀ t info, pool.ticks.lookup t = some info → info.liquidityGross = gross M t
  net_eq : ∀ t info, pool.ticks.lookup t = some info → info.liquidityNet = net M t
  liquidity_eq : (pool.liquidity : Int) = pool.netUpTo pool.tick

variable {pool : UniswapV3Pool} {M N : Multiset Position}

theorem Coherent.table (h : Coherent pool M) : Table pool (gross M) (net M) where
  view := by
    intro t
    unfold tickView
    cases hl : pool.ticks.lookup t with
    | none =>
      have hg : ¬ 0 < gross M t := fun hpos => by
        obtain ⟨info, hi⟩ := (h.key_iff t).mpr hpos
        rw [hl] at hi
        cases hi
      rw [if_pos (by omega)]
      rfl
    | some info =>
      have hpos := (h.key_iff t).mp ⟨info, hl⟩
      rw [if_neg (by omega), Option.map_some, h.gross_eq t info hl, h.net_eq t info hl]
  bit := by
    intro t ht
    have hb := h.bit_iff t ht
    cases hbit : pool.tickBit t <;> rw [hbit] at hb <;> simp at hb ⊢ <;> omega
  netZero := fun t => net_eq_zero

/-- The prefix sums of a table are the liquidities of the positions over each tick. -/
theorem Table.netUpTo_eq (hT : Table pool (gross M) (net M)) (hord : ∀ p ∈ M, p.lo ≤ p.hi)
    (tick : Int) : pool.netUpTo tick = cover M tick := by
  have hkeys : ∀ t, 0 < gross M t → t ∈ pool.ticks.keys.toFinset := by
    intro t hpos
    have hv := hT.view t
    rw [if_neg (by omega), tickView, Option.map_eq_some_iff] at hv
    obtain ⟨info, hl, -⟩ := hv
    rw [List.mem_toFinset, ← AList.mem_keys, ← AList.lookup_isSome, hl]
    rfl
  have hentry : ∀ e ∈ pool.ticks.entries, e.2.liquidityNet = net M e.1 := by
    intro e he
    have hl : pool.ticks.lookup e.1 = some e.2 := AList.mem_lookup_iff.mpr he
    rw [← (hT.infoAt e.1).2, UniswapV3Pool.infoAt, hl]
    rfl
  have hfin : {t ∈ pool.ticks.keys.toFinset | t ≤ tick} =
      (pool.ticks.keys.filter (· ≤ tick)).toFinset := by
    ext t
    simp
  rw [← sum_net_le hord hkeys, hfin, List.sum_toFinset _ (pool.ticks.keys_nodup.filter _)]
  unfold netUpTo AList.keys List.keys
  rw [List.filter_map, List.map_map]
  congr 1
  exact List.map_congr_left fun e he => hentry e (List.mem_of_mem_filter he)

theorem Coherent.liquidity_eq_cover (h : Coherent pool M) : pool.liquidity = cover M pool.tick := by
  have hl := h.liquidity_eq
  rw [h.table.netUpTo_eq fun p hp => (h.bounds p hp).lt.le] at hl
  exact_mod_cast hl

theorem Coherent.ofTable (hT : Table pool (gross M) (net M))
    (hbounds : ∀ p ∈ M, ValidBounds pool.tickSpacing p.lo p.hi) (htotal : total M < 2 ^ 127)
    (hliq : pool.liquidity = cover M pool.tick) : Coherent pool M where
  bounds := hbounds
  total_lt := htotal
  key_iff := by
    intro t
    have hv := hT.view t
    unfold tickView at hv
    by_cases hg : gross M t = 0
    · rw [if_pos hg, Option.map_eq_none_iff] at hv
      simp [hv, hg]
    · rw [if_neg hg, Option.map_eq_some_iff] at hv
      obtain ⟨info, hl, -⟩ := hv
      exact ⟨fun _ => by omega, fun _ => ⟨info, hl⟩⟩
  bit_iff := by
    intro t ht
    rw [hT.bit t ht, decide_eq_true_eq]
    omega
  gross_eq := by
    intro t info hl
    rw [← (hT.infoAt t).1, UniswapV3Pool.infoAt, hl]
    rfl
  net_eq := by
    intro t info hl
    rw [← (hT.infoAt t).2, UniswapV3Pool.infoAt, hl]
    rfl
  liquidity_eq := by rw [hT.netUpTo_eq fun p hp => (hbounds p hp).lt.le, hliq]

/-! ## Events -/

/-- Changing the liquidity of one position from `w` to `w'` shifts the gross and net liquidities
of its bounds. -/
theorem shifted_of_position {lower upper : Int} (w w' : Nat)
    (htotal : total (⟨lower, upper, w'⟩ ::ₘ N : Multiset Position) < 2 ^ 127) :
    Shifted lower upper ((w' : Int) - w) (gross (⟨lower, upper, w⟩ ::ₘ N))
      (gross (⟨lower, upper, w'⟩ ::ₘ N)) (net (⟨lower, upper, w⟩ ::ₘ N))
      (net (⟨lower, upper, w'⟩ ::ₘ N)) where
  gross := by
    intro t
    simp only [gross_cons, Segment.grossAt]
    split <;> omega
  net := by
    intro t
    simp only [net_cons, Segment.netAt]
    split_ifs <;> omega
  grossLt := by
    intro t
    have := gross_le_total (M := (⟨lower, upper, w'⟩ ::ₘ N : Multiset Position)) t
    omega
  netRange := by
    intro t
    have h1 := gross_le_total (M := (⟨lower, upper, w'⟩ ::ₘ N : Multiset Position)) t
    have h2 := natAbs_net_le_gross (M := (⟨lower, upper, w'⟩ ::ₘ N : Multiset Position)) t
    omega
  netZero := fun t => net_eq_zero

/-- **`modify_position` turns a pool that is coherent with a position of liquidity `w` into one
coherent with liquidity `w'` in its place**, and overflows nowhere. -/
theorem Coherent.modifyPosition {lower upper : Int} {w : Nat}
    (h : Coherent pool (⟨lower, upper, w⟩ ::ₘ N)) (w' : Nat)
    (htotal : total (⟨lower, upper, w'⟩ ::ₘ N : Multiset Position) < 2 ^ 127) :
    ∃ pool', Coherent pool' (⟨lower, upper, w'⟩ ::ₘ N) ∧ pool'.tickSpacing = pool.tickSpacing ∧
      ∀ prof, pool.modifyPosition prof lower upper ((w' : Int) - w) = .ok pool' := by
  have hb := h.bounds _ (Multiset.mem_cons_self _ _)
  have htotal₀ := h.total_lt
  simp only [total_cons] at htotal₀ htotal
  have hs : pool.tickSpacing ≠ 0 := by
    intro h0
    have hl := hb.dvdLower
    have hu := hb.dvdUpper
    have := hb.lt
    rw [h0, Int.zero_dvd] at hl hu
    omega
  obtain ⟨ticks, tickBitmap, hT, heq⟩ := h.table.updatePosition
    (shifted_of_position w w' (by simpa using htotal)) hb.lt.ne (by omega) (by omega) hs
    hb.dvdLower hb.dvdUpper
  have hvalid : ∀ p ∈ (⟨lower, upper, w'⟩ ::ₘ N : Multiset Position),
      ValidBounds pool.tickSpacing p.lo p.hi := by
    intro p hp
    rcases Multiset.mem_cons.mp hp with rfl | hp
    · exact hb
    · exact h.bounds p (Multiset.mem_cons_of_mem hp)
  have hliq := h.liquidity_eq_cover
  have hcov := cover_le_total (M := N) pool.tick
  simp only [cover_cons, Segment.coverAt] at hliq
  unfold UniswapV3Pool.modifyPosition
  by_cases hact : (w' : Int) - w ≠ 0 ∧ pool.tick ≥ lower ∧ pool.tick < upper
  · rw [if_pos ⟨hact.2.1, hact.2.2⟩] at hliq
    have hafter : ∀ prof, applyDelta prof pool.liquidity ((w' : Int) - w) =
        .ok (w' + cover N pool.tick) := by
      intro prof
      rw [applyDelta_eq prof (by omega) (by omega) (by omega) (by omega)]
      congr 1
      omega
    refine ⟨{ pool with ticks, tickBitmap, liquidity := w' + cover N pool.tick },
      Coherent.ofTable ⟨hT.view, hT.bit, hT.netZero⟩ hvalid (by simpa using htotal) ?_, rfl, ?_⟩
    · simp only [cover_cons, Segment.coverAt]
      rw [if_pos ⟨hact.2.1, hact.2.2⟩]
    · intro prof
      rw [heq prof, ok_bind, if_pos hact, hafter prof]
      rfl
  · refine ⟨{ pool with ticks, tickBitmap }, Coherent.ofTable hT hvalid (by simpa using htotal) ?_,
      rfl, ?_⟩
    · simp only [cover_cons, Segment.coverAt]
      split at hliq <;> split <;> omega
    · intro prof
      rw [heq prof, ok_bind, if_neg hact]
      rfl

/-- What an event of the pool does to the open positions, and what the pool contract promises of
it: bounds are valid, a burn takes at most what the position has, the open liquidity stays below
`2 ^ 127`, and a swap reports the liquidity of the positions over its tick. -/
inductive PositionStep (tickSpacing : Int) : Multiset Position → Event → Multiset Position → Prop
  | «open» {M : Multiset Position} {lower upper : Int} {amount : Nat}
      (hb : ValidBounds tickSpacing lower upper)
      (ht : total (⟨lower, upper, amount⟩ ::ₘ M) < 2 ^ 127) :
      PositionStep tickSpacing M (.mint lower upper amount) (⟨lower, upper, amount⟩ ::ₘ M)
  | increase {M : Multiset Position} {lower upper : Int} {w amount : Nat}
      (ht : total (⟨lower, upper, w + amount⟩ ::ₘ M) < 2 ^ 127) :
      PositionStep tickSpacing (⟨lower, upper, w⟩ ::ₘ M) (.mint lower upper amount)
        (⟨lower, upper, w + amount⟩ ::ₘ M)
  | burn {M : Multiset Position} {lower upper : Int} {w amount : Nat} (hle : amount ≤ w) :
      PositionStep tickSpacing (⟨lower, upper, w⟩ ::ₘ M) (.burn lower upper amount)
        (⟨lower, upper, w - amount⟩ ::ₘ M)
  | swap {M : Multiset Position} (sqrtPriceX96 : U256) {liquidity : Nat} {tick : Int}
      (hl : liquidity = cover M tick) :
      PositionStep tickSpacing M (.uniswapV3Swap sqrtPriceX96 liquidity tick) M

/-- **One event keeps the pool coherent**, and its addition and subtractions overflow in no build
profile. -/
theorem Coherent.sync {M' : Multiset Position} {log : Log} {e : Event} (h : Coherent pool M)
    (hlog : log.payload = .event e) (hstep : PositionStep pool.tickSpacing M e M') :
    ∃ pool', Coherent pool' M' ∧ pool'.tickSpacing = pool.tickSpacing ∧
      ∀ prof, pool.sync prof log = .ok pool' := by
  unfold UniswapV3Pool.sync
  rw [hlog]
  cases hstep with
  | «open» hb ht =>
    rename_i lower upper amount
    have h0 : Coherent pool (⟨lower, upper, 0⟩ ::ₘ M) := by
      refine Coherent.ofTable ?_ ?_ ?_ ?_
      · have hg : gross (⟨lower, upper, 0⟩ ::ₘ M : Multiset Position) = gross M := by
          funext t
          simp [Segment.grossAt]
        have hn : net (⟨lower, upper, 0⟩ ::ₘ M : Multiset Position) = net M := by
          funext t
          simp [Segment.netAt]
        rw [hg, hn]
        exact h.table
      · intro p hp
        rcases Multiset.mem_cons.mp hp with rfl | hp
        · exact hb
        · exact h.bounds p hp
      · simpa using h.total_lt
      · simpa [Segment.coverAt] using h.liquidity_eq_cover
    obtain ⟨pool', h', hs, heq⟩ := h0.modifyPosition amount ht
    refine ⟨pool', h', hs, fun prof => ?_⟩
    simp only [total_cons] at ht
    rw [← heq prof]
    dsimp only
    rw [asI128_of_lt (by omega), Nat.cast_zero, Int.sub_zero]
  | increase ht =>
    rename_i lower upper w amount
    obtain ⟨pool', h', hs, heq⟩ := h.modifyPosition (w + amount) ht
    refine ⟨pool', h', hs, fun prof => ?_⟩
    simp only [total_cons] at ht
    rw [← heq prof]
    dsimp only
    rw [asI128_of_lt (by omega), Nat.cast_add, add_sub_cancel_left]
  | burn hle =>
    rename_i lower upper w amount
    have ht := h.total_lt
    simp only [total_cons] at ht
    obtain ⟨pool', h', hs, heq⟩ := h.modifyPosition (w - amount) (by simp only [total_cons]; omega)
    refine ⟨pool', h', hs, fun prof => ?_⟩
    have hneg : (((w - amount : Nat) : Int) - w) = -amount := by omega
    rw [← heq prof, hneg]
    dsimp only
    rw [asI128_of_lt (by omega), BuildProfile.signed_of_range (by omega) (by omega), ok_bind]
  | swap sqrtPriceX96 hl =>
    rename_i liquidity tick
    refine ⟨{ pool with sqrtPrice := sqrtPriceX96, liquidity, tick }, ?_, rfl, fun _ => rfl⟩
    have hT := h.table
    exact Coherent.ofTable ⟨hT.view, hT.bit, hT.netZero⟩ h.bounds h.total_lt hl

/-- Sequences of logs whose events are steps of the open positions. -/
inductive PositionRun (tickSpacing : Int) : Multiset Position → List Log → Multiset Position → Prop
  | nil {M : Multiset Position} : PositionRun tickSpacing M [] M
  | cons {M M' M'' : Multiset Position} {log : Log} {logs : List Log} {e : Event}
      (hlog : log.payload = .event e) (hstep : PositionStep tickSpacing M e M')
      (hrun : PositionRun tickSpacing M' logs M'') :
      PositionRun tickSpacing M (log :: logs) M''

/-- `sync` on a sequence of logs. -/
def syncAll (prof : BuildProfile) (pool : UniswapV3Pool) (logs : List Log) :
    Outcome AMMError UniswapV3Pool :=
  logs.foldlM (fun pool log => pool.sync prof log) pool

/-- **Tick coherence over event runs**: from a coherent pool, after every event of a run `sync`
has succeeded in every build profile, with one result, and the pool is coherent. -/
theorem coherent_syncAll {M' : Multiset Position} {logs : List Log} (h : Coherent pool M)
    (hrun : PositionRun pool.tickSpacing M logs M') (k : Nat) :
    ∃ pool' M'', PositionRun pool.tickSpacing M (logs.take k) M'' ∧ Coherent pool' M'' ∧
      ∀ prof, pool.syncAll prof (logs.take k) = .ok pool' := by
  induction k generalizing pool M logs with
  | zero => exact ⟨pool, M, .nil, h, fun _ => rfl⟩
  | succ k ih =>
    cases hrun with
    | nil => exact ⟨pool, _, .nil, h, fun _ => rfl⟩
    | cons hlog hstep hrun =>
      obtain ⟨pool₁, h₁, hs₁, heq₁⟩ := h.sync hlog hstep
      rw [← hs₁] at hrun
      obtain ⟨pool₂, M₂, hrun₂, h₂, heq₂⟩ := ih h₁ hrun
      rw [hs₁] at hrun₂
      refine ⟨pool₂, M₂, .cons hlog hstep hrun₂, h₂, fun prof => ?_⟩
      rw [List.take_succ_cons, syncAll, List.foldlM_cons, heq₁ prof, ok_bind]
      exact heq₂ prof

/-- A pool with no tick and no active liquidity is coherent with no position. -/
theorem coherent_fresh (hticks : pool.ticks = ∅) (hbitmap : pool.tickBitmap = ∅)
    (hliq : pool.liquidity = 0) : Coherent pool 0 := by
  refine Coherent.ofTable ⟨?_, ?_, fun _ _ => rfl⟩ (by simp) (by simp) (by simp [hliq])
  · intro t
    simp [tickView, hticks]
  · intro t _
    simp [tickBit, hbitmap]

/-- A pool of spacing 60 with no position. -/
def freshPool : UniswapV3Pool :=
  { UniswapV3Pool.new 1 with sqrtPrice := 2 ^ 96, fee := 3000, tickSpacing := 60 }

/-- A position is opened, the price moves to its lower bound, and the position is burnt. -/
def freshLogs : List Log :=
  [⟨1, some 1, .event (.mint (-60) 60 1000)⟩, ⟨1, some 2, .event (.uniswapV3Swap 0 1000 (-60))⟩,
    ⟨1, some 3, .event (.burn (-60) 60 1000)⟩]

theorem coherent_syncAll_freshPool :
    ∃ pool' M'', PositionRun freshPool.tickSpacing 0 (freshLogs.take 3) M'' ∧ Coherent pool' M'' ∧
      ∀ prof, freshPool.syncAll prof (freshLogs.take 3) = .ok pool' :=
  have hrun : PositionRun freshPool.tickSpacing 0 freshLogs (⟨-60, 60, 0⟩ ::ₘ 0) :=
    .cons rfl (.open ⟨by decide, by decide, by decide, by decide, by decide⟩ (by decide))
      (.cons rfl (.swap 0 (by decide))
        (.cons rfl (.burn (w := 1000) (by decide)) .nil))
  coherent_syncAll (coherent_fresh rfl rfl rfl) hrun 3

end UniswapV3Pool

end ArbitrageBot
