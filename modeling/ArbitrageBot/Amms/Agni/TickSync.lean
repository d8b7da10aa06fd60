import ArbitrageBot.Amms.Agni.Pool
import ArbitrageBot.Amms.UniswapV3.Coherence

/-!
# The tick map and the bitmap of an Agni pool

Three things say that a tick is in use: a key of the tick map, a bit of the bitmap, and a gross
liquidity that is not zero. Mints keep them together, and so do burns of ticks that are keys,
whatever the amount. A burn of a tick that is no key stores one with nothing in it.
-/

namespace ArbitrageBot

open Lib

namespace AgniPool

/-- The gross liquidity of a tick, zero where there is no key. -/
def gross (pool : AgniPool) (t : Int) : Nat :=
  ((pool.ticks.lookup t).getD default).liquidityGross

/-- The bit of a tick in the bitmap. -/
def tickBit (pool : AgniPool) (t : Int) : Bool :=
  let (wordPos, bitPos) := position (t.tdiv pool.tickSpacing)
  ((pool.tickBitmap.lookup wordPos).getD 0).getLsbD bitPos

/-- The keys are the ticks of some gross liquidity, and those whose bit is set. -/
structure Synced (pool : AgniPool) : Prop where
  key_iff_gross : ∀ t, t ∈ pool.ticks ↔ 0 < pool.gross t
  key_iff_bit : ∀ t, pool.tickSpacing ∣ t → (t ∈ pool.ticks ↔ pool.tickBit t = true)

variable {pool pool' : AgniPool} {lower upper delta t : Int}

theorem tickBit_eq (pool : AgniPool) (t : Int) :
    pool.tickBit t = WordSet.mem pool.tickBitmap (t.tdiv pool.tickSpacing) := by
  unfold tickBit WordSet.mem
  rw [position_eq]
  rfl

theorem flipTick_eq (pool : AgniPool) (t : Int) :
    pool.flipTick t =
      { pool with tickBitmap := WordSet.flip pool.tickBitmap (t.tdiv pool.tickSpacing) } := by
  unfold flipTick WordSet.flip
  rw [position_eq]
  simp [bitMask]

/-! ## One bound of a position -/

/-- The gross liquidity after a change, which saturates at both ends. -/
def grossAfter (before : Nat) (delta : Int) : Nat :=
  if delta < 0 then before - delta.natAbs else saturatingAdd before delta.natAbs

theorem applyDelta_eq (prof : BuildProfile) (before : Nat) (h0 : -2 ^ 127 < delta)
    (h1 : delta < 2 ^ 127) : applyDelta prof before delta = .ok (grossAfter before delta) := by
  unfold applyDelta grossAfter
  by_cases hneg : delta < 0
  · have hd : prof.signed (ε := AMMError) 128 (-delta) = .ok (-delta) :=
      BuildProfile.signed_of_range (by omega) (by omega)
    have hu : asU128 (-delta) = delta.natAbs := by
      rw [asU128_of_range (by omega) (by omega)]
      omega
    rw [if_pos hneg, if_pos hneg, hd, ok_bind, hu]
    rfl
  · have hu : asU128 delta = delta.natAbs := by
      rw [asU128_of_range (by omega) (by omega)]
      omega
    rw [if_neg hneg, if_neg hneg, hu]
    rfl

/-- A change flips a tick that starts or ends empty. -/
def flips (pool : AgniPool) (delta t : Int) : Bool :=
  decide (grossAfter (pool.gross t) delta = 0) != decide (pool.gross t = 0)

/-- The entry `update_tick` writes. -/
def entryAfter (pool : AgniPool) (delta : Int) (upper : Bool) (t : Int) : Info :=
  let info := (pool.ticks.lookup t).getD default
  { liquidityGross := grossAfter (pool.gross t) delta
    liquidityNet := saturateI128
      (if upper then info.liquidityNet - delta else info.liquidityNet + delta)
    initialized := if pool.gross t = 0 then true else info.initialized }

theorem updateTick_eq (prof : BuildProfile) (pool : AgniPool) (t : Int) (upper : Bool)
    (h0 : -2 ^ 127 < delta) (h1 : delta < 2 ^ 127) :
    pool.updateTick prof t delta upper =
      .ok (pool.flips delta t,
        { pool with ticks := pool.ticks.insert t (pool.entryAfter delta upper t) }) := by
  unfold updateTick
  simp only [applyDelta_eq prof _ h0 h1, ok_bind]
  rfl

/-! ## Both bounds -/

/-- The pool `update_position` returns for a non-zero change. -/
def positionUpdated (pool : AgniPool) (lower upper delta : Int) : AgniPool :=
  let ticks := (pool.ticks.insert lower (pool.entryAfter delta false lower)).insert upper
    (pool.entryAfter delta true upper)
  let ticks := if decide (delta < 0) && pool.flips delta lower then ticks.erase lower else ticks
  let ticks := if decide (delta < 0) && pool.flips delta upper then ticks.erase upper else ticks
  let tickBitmap := if pool.flips delta lower then
    WordSet.flip pool.tickBitmap (lower.tdiv pool.tickSpacing) else pool.tickBitmap
  let tickBitmap := if pool.flips delta upper then
    WordSet.flip tickBitmap (upper.tdiv pool.tickSpacing) else tickBitmap
  { pool with ticks, tickBitmap }

theorem updatePosition_eq (prof : BuildProfile) (pool : AgniPool) (hne : lower ≠ upper)
    (hd : delta ≠ 0) (h0 : -2 ^ 127 < delta) (h1 : delta < 2 ^ 127) :
    pool.updatePosition prof lower upper delta = .ok (pool.positionUpdated lower upper delta) := by
  have hlower := updateTick_eq prof pool lower false h0 h1
  have hupper := updateTick_eq prof
    { pool with ticks := pool.ticks.insert lower (pool.entryAfter delta false lower) } upper true
    h0 h1
  -- the lower bound has left the entry of the upper one alone
  have hother : ∀ e, flips { pool with ticks := pool.ticks.insert lower e } delta upper =
        pool.flips delta upper ∧
      entryAfter { pool with ticks := pool.ticks.insert lower e } delta true upper =
        pool.entryAfter delta true upper := by
    intro e
    have hlookup : (pool.ticks.insert lower e).lookup upper = pool.ticks.lookup upper :=
      AList.lookup_insert_ne hne.symm
    unfold flips entryAfter gross
    simp only [hlookup, and_self]
  rw [(hother _).1, (hother _).2] at hupper
  unfold updatePosition positionUpdated
  rw [if_pos hd, hlower]
  simp only [ok_bind]
  rw [hupper]
  simp only [ok_bind]
  generalize pool.flips delta lower = bl
  generalize pool.flips delta upper = bu
  by_cases hneg : delta < 0 <;> cases bl <;> cases bu <;>
    simp only [hneg, flipTick_eq, removeTick] <;> rfl

section PositionUpdated

variable (hne : lower ≠ upper)
include hne

/-- A bound of the position holds its new entry, unless it is removed. -/
theorem lookup_bound (ht : t = lower ∨ t = upper) :
    (pool.positionUpdated lower upper delta).ticks.lookup t =
      if decide (delta < 0) && pool.flips delta t then none
      else some (pool.entryAfter delta (decide (t = upper)) t) := by
  simp only [positionUpdated, UniswapV3Pool.lookup_eraseIf, HashMap.lookup_insert]
  rcases ht with rfl | rfl
  · simp [hne]
  · simp [hne.symm]

omit hne in
theorem lookup_other (ht : ¬ (t = lower ∨ t = upper)) :
    (pool.positionUpdated lower upper delta).ticks.lookup t = pool.ticks.lookup t := by
  rw [not_or] at ht
  simp only [positionUpdated, UniswapV3Pool.lookup_eraseIf, HashMap.lookup_insert, ht.1, ht.2,
    and_false, if_false]

/-- Whether a bound is a key afterwards: it is, unless the change takes from it all it had. -/
theorem mem_bound (ht : t = lower ∨ t = upper) :
    t ∈ (pool.positionUpdated lower upper delta).ticks ↔
      ¬ (delta < 0 ∧ 0 < pool.gross t ∧ grossAfter (pool.gross t) delta = 0) := by
  rw [← AList.lookup_isSome, lookup_bound hne ht]
  by_cases hneg : delta < 0
  · have hle : grossAfter (pool.gross t) delta ≤ pool.gross t := by
      rw [grossAfter, if_pos hneg]
      omega
    unfold flips
    by_cases hb : pool.gross t = 0
    · rw [hb, Nat.le_zero] at hle
      simp [hneg, hle, hb]
    · by_cases ha : grossAfter (pool.gross t) delta = 0
      · simp [hneg, ha, hb, Nat.pos_iff_ne_zero]
      · simp [hneg, ha, hb]
  · simp [hneg]

theorem gross_bound (ht : t = lower ∨ t = upper) :
    (pool.positionUpdated lower upper delta).gross t = grossAfter (pool.gross t) delta := by
  unfold gross
  rw [lookup_bound hne ht]
  split
  · rename_i hgone
    rw [Bool.and_eq_true, decide_eq_true_eq] at hgone
    obtain ⟨hneg, hflips⟩ := hgone
    have hle : grossAfter (pool.gross t) delta ≤ pool.gross t := by
      rw [grossAfter, if_pos hneg]
      omega
    have hzero : grossAfter (pool.gross t) delta = 0 := by
      by_contra hpos
      have hb : pool.gross t ≠ 0 := by omega
      simp [flips, hpos, hb] at hflips
    exact hzero.symm
  · rfl

omit hne in
theorem tickBit_positionUpdated (hs : pool.tickSpacing ≠ 0) (hl : pool.tickSpacing ∣ lower)
    (hu : pool.tickSpacing ∣ upper) (ht : pool.tickSpacing ∣ t) :
    (pool.positionUpdated lower upper delta).tickBit t =
      (pool.tickBit t ^^ (pool.flips delta lower && decide (lower = t)) ^^
        (pool.flips delta upper && decide (upper = t))) := by
  rw [tickBit_eq, tickBit_eq]
  simp only [positionUpdated, UniswapV3Pool.mem_flipIf, UniswapV3Pool.tdiv_inj hs hl ht,
    UniswapV3Pool.tdiv_inj hs hu ht]

/-- The bit of a bound says whether it is empty, as it said before. -/
theorem bit_bound (hs : pool.tickSpacing ≠ 0) (hl : pool.tickSpacing ∣ lower)
    (hu : pool.tickSpacing ∣ upper) (ht : t = lower ∨ t = upper)
    (hbit : pool.tickBit t = decide (0 < pool.gross t)) :
    (pool.positionUpdated lower upper delta).tickBit t =
      decide (0 < grossAfter (pool.gross t) delta) := by
  have hdvd : pool.tickSpacing ∣ t := by
    rcases ht with rfl | rfl
    · exact hl
    · exact hu
  have hflip : (pool.positionUpdated lower upper delta).tickBit t =
      (pool.tickBit t ^^ pool.flips delta t) := by
    rw [tickBit_positionUpdated hs hl hu hdvd]
    rcases ht with rfl | rfl
    · simp [hne.symm]
    · simp [hne]
  rw [hflip, hbit]
  unfold flips
  by_cases ha : grossAfter (pool.gross t) delta = 0 <;> by_cases hb : pool.gross t = 0 <;>
    simp [ha, hb, Nat.pos_iff_ne_zero]

/-- A bound of no gross liquidity becomes a key of none when something is burnt from it; every other
bound stays in step. -/
theorem bound_iff (ht : t = lower ∨ t = upper) (hd : delta ≠ 0) :
    (t ∈ (pool.positionUpdated lower upper delta).ticks ↔
        0 < (pool.positionUpdated lower upper delta).gross t) ↔
      (delta < 0 → 0 < pool.gross t) := by
  rw [mem_bound hne ht, gross_bound hne ht]
  by_cases hneg : delta < 0
  · have hafter : grossAfter (pool.gross t) delta = pool.gross t - delta.natAbs := by
      rw [grossAfter, if_pos hneg]
    rw [hafter]
    constructor
    · intro hiff _
      by_contra hzero
      have hkey : 0 < pool.gross t - delta.natAbs := hiff.mp fun hgone => hzero hgone.2.1
      omega
    · intro hpos
      have hpos := hpos hneg
      simp only [hneg, hpos, true_and]
      omega
  · refine iff_of_true (iff_of_true (fun hgone => hneg hgone.1) ?_) fun h => absurd h hneg
    rw [grossAfter, if_neg hneg, saturatingAdd]
    omega

end PositionUpdated

/-- **A change keeps the tick map and the bitmap together** exactly when it adds, or takes from
keys. -/
theorem Synced.positionUpdated_iff (h : pool.Synced) (hlt : lower < upper) (hd : delta ≠ 0)
    (hl : pool.tickSpacing ∣ lower) (hu : pool.tickSpacing ∣ upper) :
    (pool.positionUpdated lower upper delta).Synced ↔
      (delta < 0 → lower ∈ pool.ticks ∧ upper ∈ pool.ticks) := by
  have hne : lower ≠ upper := hlt.ne
  have hs : pool.tickSpacing ≠ 0 := by
    intro h0
    rw [h0, Int.zero_dvd] at hl hu
    omega
  constructor
  · intro h' hneg
    rw [h.key_iff_gross, h.key_iff_gross]
    exact ⟨(bound_iff hne (Or.inl rfl) hd).mp (h'.key_iff_gross lower) hneg,
      (bound_iff hne (Or.inr rfl) hd).mp (h'.key_iff_gross upper) hneg⟩
  · intro hkeys
    have hpos : ∀ t, t = lower ∨ t = upper → delta < 0 → 0 < pool.gross t := by
      rintro t (rfl | rfl) hneg
      · exact (h.key_iff_gross _).mp (hkeys hneg).1
      · exact (h.key_iff_gross _).mp (hkeys hneg).2
    have hgross : ∀ t, t ∈ (pool.positionUpdated lower upper delta).ticks ↔
        0 < (pool.positionUpdated lower upper delta).gross t := by
      intro t
      by_cases ht : t = lower ∨ t = upper
      · exact (bound_iff hne ht hd).mpr (hpos t ht)
      · have hlookup := @lookup_other pool lower upper delta t ht
        rw [← AList.lookup_isSome, gross, hlookup, AList.lookup_isSome]
        exact h.key_iff_gross t
    refine ⟨hgross, fun t hdvd => ?_⟩
    by_cases ht : t = lower ∨ t = upper
    · have hbit : pool.tickBit t = decide (0 < pool.gross t) := by
        rw [Bool.eq_iff_iff, decide_eq_true_eq, ← h.key_iff_bit t hdvd, h.key_iff_gross]
      rw [hgross t, gross_bound hne ht, bit_bound hne hs hl hu ht hbit, decide_eq_true_eq]
    · have hlookup := @lookup_other pool lower upper delta t ht
      rw [not_or] at ht
      rw [← AList.lookup_isSome, hlookup, AList.lookup_isSome, h.key_iff_bit t hdvd,
        tickBit_positionUpdated hs hl hu hdvd]
      simp [Ne.symm ht.1, Ne.symm ht.2]

/-! ## Events -/

/-- The events of positions, as the pool contract emits them. -/
inductive PositionEvent (tickSpacing : Int) : Event → Prop
  | mint {lower upper : Int} {amount : Nat} (hlt : lower < upper) (hl : tickSpacing ∣ lower)
      (hu : tickSpacing ∣ upper) (ha : amount < 2 ^ 127) :
      PositionEvent tickSpacing (.mint lower upper amount)
  | burn {lower upper : Int} {amount : Nat} (hlt : lower < upper) (hl : tickSpacing ∣ lower)
      (hu : tickSpacing ∣ upper) (ha : amount < 2 ^ 127) :
      PositionEvent tickSpacing (.burn lower upper amount)

/-- A burn of some liquidity is of ticks that the pool has. -/
def BurnsKeys (pool : AgniPool) : Event → Prop
  | .burn lower upper amount => amount ≠ 0 → lower ∈ pool.ticks ∧ upper ∈ pool.ticks
  | _ => True

/-- `sync` on a sequence of logs. -/
def syncAll (prof : BuildProfile) (pool : AgniPool) (logs : List Log) : Outcome AMMError AgniPool :=
  logs.foldlM (fun pool log => pool.sync prof log) pool

theorem syncAll_cons {prof : BuildProfile} {log : Log} {logs : List Log}
    (h : pool.sync prof log = .ok pool') :
    pool.syncAll prof (log :: logs) = pool'.syncAll prof logs := by
  rw [syncAll, List.foldlM_cons, h, ok_bind]
  rfl

/-- The active liquidity is of no matter here. -/
theorem modifyPosition_eq (pool : AgniPool) (hlt : lower < upper) (h0 : -2 ^ 127 < delta)
    (h1 : delta < 2 ^ 127) :
    ∃ liquidity, ∀ prof, pool.modifyPosition prof lower upper delta =
      .ok { (if delta = 0 then pool else pool.positionUpdated lower upper delta) with
        liquidity } := by
  have hposition : ∀ prof, pool.updatePosition prof lower upper delta =
      .ok (if delta = 0 then pool else pool.positionUpdated lower upper delta) := by
    intro prof
    by_cases hd : delta = 0
    · subst hd
      rfl
    · rw [if_neg hd, updatePosition_eq prof pool hlt.ne hd h0 h1]
  unfold modifyPosition
  generalize (if delta = 0 then pool else pool.positionUpdated lower upper delta) = pool'
    at hposition ⊢
  by_cases hactive : delta ≠ 0 ∧ pool'.tick ≥ lower ∧ pool'.tick < upper
  · refine ⟨grossAfter pool'.liquidity delta, fun prof => ?_⟩
    rw [hposition, ok_bind, if_pos hactive, applyDelta_eq prof _ h0 h1]
    rfl
  · refine ⟨pool'.liquidity, fun prof => ?_⟩
    rw [hposition, ok_bind, if_neg hactive]
    rfl

theorem Synced.modifyPosition_iff (h : pool.Synced) (hlt : lower < upper) (h0 : -2 ^ 127 < delta)
    (h1 : delta < 2 ^ 127) (hl : pool.tickSpacing ∣ lower) (hu : pool.tickSpacing ∣ upper) :
    ∃ pool', (∀ prof, pool.modifyPosition prof lower upper delta = .ok pool') ∧
      pool'.tickSpacing = pool.tickSpacing ∧
      (pool'.Synced ↔ (delta < 0 → lower ∈ pool.ticks ∧ upper ∈ pool.ticks)) := by
  obtain ⟨liquidity, heq⟩ := modifyPosition_eq pool hlt h0 h1
  refine ⟨_, heq, ?_, ?_⟩
  · dsimp only
    split
    · rfl
    · rfl
  · have hiff : ∀ p : AgniPool, { p with liquidity }.Synced ↔ p.Synced :=
      fun p => ⟨fun h => ⟨h.1, h.2⟩, fun h => ⟨h.1, h.2⟩⟩
    rw [hiff]
    by_cases hd : delta = 0
    · rw [if_pos hd]
      exact iff_of_true h fun hneg => absurd hd hneg.ne
    · rw [if_neg hd]
      exact h.positionUpdated_iff hlt hd hl hu

/-- **One event** succeeds in every build profile, and keeps the tick map and the bitmap together
unless it burns from a tick that is no key. -/
theorem Synced.sync_iff {log : Log} {e : Event} (h : pool.Synced) (hlog : log.payload = .event e)
    (he : PositionEvent pool.tickSpacing e) :
    ∃ pool', (∀ prof, pool.sync prof log = .ok pool') ∧ pool'.tickSpacing = pool.tickSpacing ∧
      (pool'.Synced ↔ pool.BurnsKeys e) := by
  unfold sync
  rw [hlog]
  cases he with
  | mint hlt hl hu ha =>
    rename_i lower upper amount
    obtain ⟨pool', heq, hs, hiff⟩ := @modifyPosition_iff pool lower upper amount h hlt (by omega)
      (by omega) hl hu
    refine ⟨pool', fun prof => ?_, hs, ?_⟩
    · dsimp only
      rw [asI128_of_lt ha, heq]
    · rw [hiff]
      exact iff_of_true (fun hneg => absurd hneg (by omega)) trivial
  | burn hlt hl hu ha =>
    rename_i lower upper amount
    obtain ⟨pool', heq, hs, hiff⟩ := @modifyPosition_iff pool lower upper (-amount) h hlt (by omega)
      (by omega) hl hu
    refine ⟨pool', fun prof => ?_, hs, ?_⟩
    · dsimp only
      rw [asI128_of_lt ha, BuildProfile.signed_of_range (by omega) (by omega), ok_bind, heq]
    · rw [hiff]
      exact imp_congr_left (by omega)

/-- **Runs of events**: the tick map and the bitmap are together after every event exactly when
every burn, in the state before it, is of keys. -/
theorem synced_syncAll_iff (prof : BuildProfile) (pool : AgniPool) (logs : List Log)
    (h : pool.Synced)
    (hlogs : ∀ log ∈ logs, ∃ e, log.payload = .event e ∧ PositionEvent pool.tickSpacing e) :
    (∀ k ≤ logs.length, ∃ pool', pool.syncAll prof (logs.take k) = .ok pool' ∧ pool'.Synced) ↔
      ∀ k log e, logs[k]? = some log → log.payload = .event e →
        ∃ pool', pool.syncAll prof (logs.take k) = .ok pool' ∧ pool'.BurnsKeys e := by
  induction logs generalizing pool with
  | nil =>
    refine iff_of_true (fun k _ => ⟨pool, ?_, h⟩) nofun
    rw [List.take_nil]
    rfl
  | cons log logs ih =>
    obtain ⟨e, hlog, he⟩ := hlogs log List.mem_cons_self
    obtain ⟨pool₁, heq, hs, hiff⟩ := h.sync_iff hlog he
    have hstep : ∀ k, pool.syncAll prof ((log :: logs).take (k + 1)) =
        pool₁.syncAll prof (logs.take k) := by
      intro k
      rw [List.take_succ_cons, syncAll_cons (heq prof)]
    have hrest : ∀ log ∈ logs, ∃ e, log.payload = .event e ∧
        PositionEvent pool₁.tickSpacing e := by
      rw [hs]
      exact fun log hmem => hlogs log (List.mem_cons_of_mem _ hmem)
    constructor
    · intro hall
      have h₁ : pool₁.Synced := by
        obtain ⟨pool', heq', h'⟩ := hall 1 (by simp)
        rw [hstep 0] at heq'
        cases heq'
        exact h'
      intro k log' e' hk hlog'
      cases k with
      | zero =>
        rw [List.getElem?_cons_zero] at hk
        cases hk
        rw [hlog] at hlog'
        cases hlog'
        exact ⟨pool, rfl, hiff.mp h₁⟩
      | succ k =>
        rw [hstep]
        refine (ih pool₁ h₁ hrest).mp (fun j hj => ?_) k log' e' hk hlog'
        rw [← hstep]
        exact hall (j + 1) (Nat.succ_le_succ hj)
    · intro hburns
      obtain ⟨_, hpool, hkeys⟩ := hburns 0 log e rfl hlog
      cases hpool
      intro k hk
      cases k with
      | zero => exact ⟨pool, rfl, h⟩
      | succ k =>
        rw [hstep]
        refine (ih pool₁ (hiff.mpr hkeys) hrest).mpr (fun j log' e' hj hlog' => ?_) k
          (Nat.le_of_succ_le_succ hk)
        rw [← hstep]
        exact hburns (j + 1) log' e' hj hlog'

/-- The pool that `init_basic` leaves, of spacing 60. -/
def basicPool : AgniPool := { AgniPool.new 1 with tickSpacing := 60 }

theorem basicPool_synced : basicPool.Synced where
  key_iff_gross := fun t => iff_of_false (AList.notMem_empty t) (Nat.lt_irrefl 0)
  key_iff_bit := fun t _ => iff_of_false (AList.notMem_empty t) (by simp [tickBit, basicPool, new])

/-- A burn of a position from before the pool was loaded leaves a key of no liquidity, without a
bit. -/
theorem basicPool_burn :
    basicPool.Synced ∧ PositionEvent basicPool.tickSpacing (.burn (-60) 60 1000) ∧
    ∃ pool', basicPool.sync { overflowChecks := true } ⟨1, some 1, .event (.burn (-60) 60 1000)⟩ =
        .ok pool' ∧ -60 ∈ pool'.ticks ∧ pool'.gross (-60) = 0 ∧ pool'.tickBit (-60) = false :=
  ⟨basicPool_synced, .burn (by decide) (by decide) (by decide) (by decide), _, rfl, by decide,
    by decide, by decide⟩

theorem basicPool_synced_syncAll_iff :
    (∀ k ≤ 1, ∃ pool', basicPool.syncAll { overflowChecks := true }
        ([⟨1, some 1, .event (.mint (-60) 60 1000)⟩].take k) = .ok pool' ∧ pool'.Synced) ↔
      ∀ k log e, [(⟨1, some 1, .event (.mint (-60) 60 1000)⟩ : Log)][k]? = some log →
        log.payload = .event e → ∃ pool', basicPool.syncAll { overflowChecks := true }
          ([⟨1, some 1, .event (.mint (-60) 60 1000)⟩].take k) = .ok pool' ∧ pool'.BurnsKeys e :=
  synced_syncAll_iff { overflowChecks := true } basicPool
    [⟨1, some 1, .event (.mint (-60) 60 1000)⟩] basicPool_synced (by
      intro log hmem
      rw [List.mem_singleton] at hmem
      subst hmem
      exact ⟨_, rfl, .mint (by decide) (by decide) (by decide) (by decide)⟩)

end AgniPool

end ArbitrageBot
