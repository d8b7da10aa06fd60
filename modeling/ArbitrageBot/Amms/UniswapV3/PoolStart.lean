import ArbitrageBot.Amms.UniswapV3.Coherence
import ArbitrageBot.Amms.UniswapV3.PoolSyncSpec

/-!
# Pools that start from the chain

A pool that is read from a chain whose contracts have open positions is coherent for them. From
there on it is coherent after every run of events that the positions account for.
-/

namespace ArbitrageBot

open Lib

/-! ## The positions of the chain -/

open UniswapV3Pool (Position ValidBounds) in
/-- What the contract of the pool has stored when the positions are open. -/
structure V3Chain.HasPositions (chain : V3Chain) (pool : UniswapV3Pool) (M : Multiset Position) :
    Prop where
  bounds : ∀ p ∈ M, ValidBounds pool.tickSpacing p.lo p.hi
  total_lt : total M < 2 ^ 127
  tick : ∀ t, 0 < gross M t → chain.ticks pool.address t = ⟨gross M t, net M t, true⟩
  bit : ∀ (w : Int) (i : Nat), i < 256 → ((chain.tickBitmap pool.address w).getLsbD i = true ↔
    0 < gross M ((w * 256 + i) * pool.tickSpacing))
  liquidity : ∃ liquidity sqrtPrice tick, chain.liquidity pool.address = some liquidity ∧
    chain.slot0 pool.address = some (sqrtPrice, tick) ∧ liquidity.toNat = cover M tick

namespace V3Chain.HasPositions

variable {chain : V3Chain} {pool : UniswapV3Pool} {M : Multiset UniswapV3Pool.Position}

theorem slot0Data (h : chain.HasPositions pool M) :
    ∃ data, GetUniswapV3PoolSlot0BatchRequest.slot0Data chain pool.address = some data ∧
      data.liquidity.toNat = cover M data.tick := by
  obtain ⟨liquidity, sqrtPrice, tick, hliquidity, hslot0, hcover⟩ := h.liquidity
  unfold GetUniswapV3PoolSlot0BatchRequest.slot0Data
  rw [hliquidity, hslot0]
  exact ⟨_, rfl, hcover⟩

theorem inBounds (h : chain.HasPositions pool M) : chain.InBounds pool := by
  intro w i hset
  have hi : i < 256 := BitVec.lt_of_getLsbD hset
  obtain ⟨p, hp, hend⟩ := exists_end_of_gross_pos ((h.bit w i hi).mp hset)
  have hbounds := h.bounds p hp
  have hlt := hbounds.lt
  have hmin := hbounds.minTick
  have hmax := hbounds.maxTick
  rcases hend with hend | hend
  · omega
  · omega

/-- The bit of a tick of the pool's spacing. -/
theorem bit_at (h : chain.HasPositions pool M) {t : Int} (ht : pool.tickSpacing ∣ t) :
    (chain.tickBitmap pool.address (t / pool.tickSpacing / 256)).getLsbD
      (t / pool.tickSpacing % 256).toNat = true ↔ 0 < gross M t := by
  have hindex : t / pool.tickSpacing / 256 * 256 + ((t / pool.tickSpacing % 256).toNat : Int) =
      t / pool.tickSpacing := by omega
  rw [h.bit _ _ (by omega), hindex, Int.ediv_mul_cancel ht]

/-- The ticks that the chain marks are the ends of the positions. -/
theorem initialized_iff (h : chain.HasPositions pool M) (t : Int) :
    UniswapV3Factory.Initialized chain pool t ↔ pool.tickSpacing ∣ t ∧ 0 < gross M t :=
  and_congr_right h.bit_at

theorem dvd_of_gross_pos (h : chain.HasPositions pool M) {t : Int} (ht : 0 < gross M t) :
    pool.tickSpacing ∣ t := by
  obtain ⟨p, hp, rfl | rfl⟩ := exists_end_of_gross_pos ht
  · exact (h.bounds p hp).dvdLower
  · exact (h.bounds p hp).dvdUpper

/-- **A pool that mirrors the chain is coherent** for the positions that the chain has. -/
theorem coherent (h : chain.HasPositions pool M) {synced : UniswapV3Pool}
    (hmirrors : UniswapV3Factory.Mirrors chain pool synced) :
    synced.Coherent M := by
  have hsame : synced.tickSpacing = pool.tickSpacing := by rw [hmirrors.state]; rfl
  have hword : ∀ w, (synced.tickBitmap.lookup w).getD 0#256 = chain.tickBitmap pool.address w := by
    intro w
    by_cases hzero : chain.tickBitmap pool.address w = 0
    · rw [hmirrors.noWord w hzero, hzero]
      rfl
    · rw [hmirrors.word w hzero]
      rfl
  refine .ofTable ⟨fun t => ?_, fun t ht => ?_, fun t => net_eq_zero⟩ ?_ h.total_lt ?_
  · unfold UniswapV3Pool.tickView
    by_cases hgross : gross M t = 0
    · rw [if_pos hgross, hmirrors.noTick t, Option.map_none]
      rw [h.initialized_iff]
      omega
    · have hpos : 0 < gross M t := Nat.pos_of_ne_zero hgross
      have hmarked := (h.initialized_iff t).mpr ⟨h.dvd_of_gross_pos hpos, hpos⟩
      rw [if_neg hgross, hmirrors.tick t hmarked, h.tick t hpos]
      rfl
  · rw [hsame] at ht
    have hdiv : t.tdiv pool.tickSpacing = t / pool.tickSpacing := Int.tdiv_eq_ediv_of_dvd ht
    rw [UniswapV3Pool.tickBit_eq, hsame, hdiv]
    unfold WordSet.mem
    rw [hword, Bool.eq_iff_iff, Nat.cast_ofNat, h.bit_at ht, decide_eq_true_eq]
    exact Nat.pos_iff_ne_zero
  · rw [hsame]
    exact h.bounds
  · obtain ⟨data, hdata, hcover⟩ := h.slot0Data
    rw [hmirrors.state]
    change ((GetUniswapV3PoolSlot0BatchRequest.slot0Data chain pool.address).getD
      ⟨0, 0, 0⟩).liquidity.toNat = cover M
        ((GetUniswapV3PoolSlot0BatchRequest.slot0Data chain pool.address).getD ⟨0, 0, 0⟩).tick
    rw [hdata]
    exact hcover

end V3Chain.HasPositions

/-! ## Runs of events -/

/-- A coherent pool takes in a whole run of events, in every build profile. -/
theorem UniswapV3Pool.Coherent.run {tickSpacing : Int} {M M' : Multiset UniswapV3Pool.Position}
    {logs : List Log} (hrun : PositionRun tickSpacing M logs M') {pool : UniswapV3Pool}
    (h : pool.Coherent M) (hspacing : pool.tickSpacing = tickSpacing) :
    ∃ pool' : UniswapV3Pool, pool'.Coherent M' ∧ ∀ prof, pool.syncAll prof logs = .ok pool' := by
  induction hrun generalizing pool with
  | nil => exact ⟨pool, h, fun _ => rfl⟩
  | cons hlog hstep _ ih =>
    subst hspacing
    obtain ⟨pool₁, h₁, hsame, hsync⟩ := h.sync hlog hstep
    obtain ⟨pool', h', hrest⟩ := ih h₁ hsame
    refine ⟨pool', h', fun prof => ?_⟩
    rw [syncAll, List.foldlM_cons, hsync prof, ok_bind]
    exact hrest prof

namespace UniswapV3Factory

open UniswapV3Pool (Position PositionRun)

/-- **The pools of a factory are coherent from the start and stay so**: each pool that a
synchronisation keeps is coherent for the positions that its contract has, and takes in every run of
events that changes them. -/
theorem syncAllPools_coherent (net : Networks) {hashSet : List Address → List Address}
    (prof : BuildProfile) {fuel : Nat} (chain : V3Chain) (pools : List UniswapV3Pool)
    (positions : Address → Multiset Position)
    (hslot0 : ∀ k, net.slot0.answered k = true) (hdecimals : ∀ k, net.decimals.answered k = true)
    (hbitmaps : ∀ k, net.tickBitmaps.answered k = true)
    (hticks : ∀ k, net.tickData.answered k = true) (hset : ∀ l a, a ∈ hashSet l ↔ a ∈ l)
    (hfuel : 6932 ≤ fuel) (hnodup : (pools.map (·.address)).Nodup)
    (hnew : ∀ pool ∈ pools, pool.tickBitmap = ∅ ∧ pool.ticks = ∅)
    (hspacing : ∀ pool ∈ pools, 1 ≤ pool.tickSpacing)
    (hpositions : ∀ pool ∈ pools, chain.HasPositions pool (positions pool.address))
    (hkept : LastWordsKept ((pools.filter fun pool => isLive (readState chain pool)).map
      fun pool => (pool.address, pool.tickSpacing)))
    (hfits : ∀ groups, tickBitmapGroups fuel
        (pools.filter fun pool => isLive (readState chain pool)) = some groups →
      ∀ info ∈ groups.flatten, Fits chain info) :
    ∃ synced, syncAllPools net hashSet prof fuel chain pools = some (.ok synced) ∧
      synced.map (·.address) =
        (pools.filter fun pool => isLive (readState chain pool)).map (·.address) ∧
      ∀ pool ∈ synced, pool.Coherent (positions pool.address) ∧
        ∀ logs M', PositionRun pool.tickSpacing (positions pool.address) logs M' →
          ∃ pool' : UniswapV3Pool, pool'.Coherent M' ∧
            ∀ prof, pool.syncAll prof logs = .ok pool' := by
  obtain ⟨f, hrun, hmirrors⟩ := syncAllPools_eq net prof chain pools hslot0 hdecimals hbitmaps
    hticks hset hfuel hnodup hnew hspacing
    (fun pool hpool => by
      obtain ⟨data, hdata, -⟩ := (hpositions pool hpool).slot0Data
      rw [hdata]
      rfl)
    (fun pool hpool => (hpositions pool hpool).inBounds) hkept hfits
  have haddress : ∀ pool ∈ pools.filter fun pool => isLive (readState chain pool),
      (f pool).address = pool.address := by
    intro pool hpool
    rw [(hmirrors pool hpool).state]
    rfl
  refine ⟨_, hrun, ?_, List.forall_mem_map.mpr fun pool hpool => ?_⟩
  · rw [List.map_map]
    exact List.map_congr_left haddress
  · have hmem := List.mem_of_mem_filter hpool
    have hcoherent : (f pool).Coherent (positions (f pool).address) := by
      rw [haddress pool hpool]
      exact (hpositions pool hmem).coherent (hmirrors pool hpool)
    exact ⟨hcoherent, fun logs M' hlogs => hcoherent.run hlogs rfl⟩

/-- A chain whose pools have one position, of the ticks from -60 to 60. -/
def onePositionChain : V3Chain where
  liquidity := fun _ => some 5
  slot0 := fun _ => some (1, 0)
  tickBitmap := fun _ w => if w = 0 then 2 else if w = -1 then 1 <<< 255 else 0
  ticks := fun _ t => ⟨5, if t = -60 then 5 else -5, true⟩
  hasCode := fun _ => true
  decimals := fun _ => some 18

theorem onePositionChain_hasPositions :
    onePositionChain.HasPositions newPool (⟨-60, 60, 5⟩ ::ₘ 0) where
  bounds := by
    intro p hp
    rw [Multiset.mem_cons, or_iff_left (Multiset.notMem_zero p)] at hp
    subst hp
    exact ⟨by decide, by decide, by decide, by decide, by decide⟩
  total_lt := by decide
  tick := by
    intro t ht
    obtain ⟨p, hp, hend⟩ := exists_end_of_gross_pos ht
    rw [Multiset.mem_cons, or_iff_left (Multiset.notMem_zero p)] at hp
    subst hp
    rcases hend with rfl | rfl
    · rfl
    · rfl
  bit := by
    intro w i hi
    have hgross : 0 < gross (⟨-60, 60, 5⟩ ::ₘ 0 : Multiset Position)
        ((w * 256 + i) * newPool.tickSpacing) ↔ w * 256 + i = -1 ∨ w * 256 + i = 1 := by
      change 0 < gross _ ((w * 256 + i) * 60) ↔ _
      simp only [gross_cons, gross_zero, Segment.grossAt]
      split <;> omega
    rw [hgross]
    change (if w = 0 then 2#256 else if w = -1 then 1#256 <<< 255 else 0).getLsbD i = true ↔ _
    by_cases h0 : w = 0
    · subst h0
      rw [if_pos rfl, show (2#256 : BitVec 256) = BitVec.twoPow 256 1 from rfl,
        BitVec.getLsbD_twoPow]
      simp
      omega
    · rw [if_neg h0]
      by_cases h1 : w = -1
      · subst h1
        rw [if_pos rfl, show (1#256 <<< 255 : BitVec 256) = BitVec.twoPow 256 255 from rfl,
          BitVec.getLsbD_twoPow]
        simp
        omega
      · rw [if_neg h1]
        simp
        omega
  liquidity := ⟨5, 1, 0, rfl, rfl, by decide⟩

theorem syncAllPools_coherent_onePositionChain :
    ∃ synced, syncAllPools reversed List.reverse { overflowChecks := true } 6932 onePositionChain
        [newPool] = some (.ok synced) ∧
      synced.map (·.address) = ([newPool].filter fun pool =>
        isLive (readState onePositionChain pool)).map (·.address) ∧
      ∀ pool ∈ synced, pool.Coherent (⟨-60, 60, 5⟩ ::ₘ 0) ∧
        ∀ logs M', PositionRun pool.tickSpacing (⟨-60, 60, 5⟩ ::ₘ 0) logs M' →
          ∃ pool' : UniswapV3Pool, pool'.Coherent M' ∧
            ∀ prof, pool.syncAll prof logs = .ok pool' :=
  syncAllPools_coherent reversed { overflowChecks := true } onePositionChain [newPool]
    (fun _ => ⟨-60, 60, 5⟩ ::ₘ 0) (fun _ => rfl) (fun _ => rfl) (fun _ => rfl) (fun _ => rfl)
    (fun _ _ => List.mem_reverse) (Nat.le_refl 6932) (by simp)
    (List.forall_mem_singleton.mpr ⟨rfl, rfl⟩) (List.forall_mem_singleton.mpr (by decide))
    (List.forall_mem_singleton.mpr onePositionChain_hasPositions) (newPool_lastWordsKept _)
    (by
      intro groups hgroups info hinfo
      rw [newPool_groups hgroups info hinfo]
      unfold Fits
      decide)

end UniswapV3Factory

end ArbitrageBot
