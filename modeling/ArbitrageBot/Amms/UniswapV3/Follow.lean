import ArbitrageBot.Amms.UniswapV3.Coherence
import ArbitrageBot.Amms.UniswapV3.PoolSyncSpec
import ArbitrageBot.Contracts.UniV3PoolSpec

/-!
# Pools that follow their contracts

`modify_position` does to the maps of a pool what the contract does to its mappings, entry by entry
and word by word. So a pool that agrees with its contract takes in the events of any calls without
an error and agrees with it again.
-/

namespace ArbitrageBot

open UniV3 (Libraries)

namespace UniswapV3Pool

/-- The pool holds what the contract holds. -/
structure Follows (pool : UniswapV3Pool) (contract : UniV3.Pool) : Prop where
  tickSpacing : pool.tickSpacing = contract.tickSpacing
  sqrtPrice : pool.sqrtPrice = contract.sqrtPriceX96.setWidth 256
  tick : pool.tick = contract.tick
  liquidity : pool.liquidity = contract.liquidity
  info : ∀ t, pool.infoAt t = contract.ticks t
  word : ∀ w, (pool.tickBitmap.lookup w).getD 0 = contract.tickBitmap w

variable {lib : Libraries} {pool : UniswapV3Pool} {ticks ticks' : Int → Info}
  {bitmap bitmap' : Int → U256} {t delta : Int} {upper flipped : Bool} {maxLiquidity : Nat}

/-! ## One bound -/

/-- `update_tick` writes the entry that `Tick.update` writes. -/
theorem updateTick_follows (hlib : lib.Documented) (hinfo : ∀ u, pool.infoAt u = ticks u)
    (hmin : -2 ^ 127 < delta) (hmax : delta < 2 ^ 127)
    (h : lib.tickUpdate ticks t delta upper maxLiquidity = some (flipped, ticks')) :
    ∃ m, (∀ prof, pool.updateTick prof t delta upper =
        .ok (flipped, { pool with ticks := m })) ∧
      ∀ u, infoAt { pool with ticks := m } u = ticks' u := by
  obtain ⟨info, hupdated, rfl, rfl⟩ := hlib.tickUpdate h
  have hentry : info = ⟨info.liquidityGross, info.liquidityNet,
      if (ticks t).liquidityGross = 0 then true else (pool.infoAt t).initialized⟩ := by
    rw [hinfo, ← hupdated.initialized]
  refine ⟨pool.ticks.insert t info, fun prof => ?_, fun u => ?_⟩
  · rw [hentry]
    exact updateTick_eq prof pool upper (congrArg Info.liquidityGross (hinfo t))
      (congrArg Info.liquidityNet (hinfo t)) hmin hmax hupdated.gross hupdated.net
      hupdated.grossLt hupdated.netRange
  · unfold infoAt
    by_cases hu : u = t
    · subst hu
      rw [AList.lookup_insert, Function.update_self]
      rfl
    · rw [AList.lookup_insert_ne hu, Function.update_of_ne hu]
      exact hinfo u

/-- A tick is flipped in both bitmaps or in none. -/
theorem flipIf_follows (hlib : lib.Documented) (pool : UniswapV3Pool)
    (hword : ∀ w, (pool.tickBitmap.lookup w).getD 0 = bitmap w) {s : Int}
    (h : UniV3.Pool.flipIf lib flipped bitmap t s = some bitmap') :
    ∃ m, (if flipped then pool.flipTick t s else pool) = { pool with tickBitmap := m } ∧
      ∀ w, (m.lookup w).getD 0 = bitmap' w := by
  unfold UniV3.Pool.flipIf at h
  cases flipped with
  | false =>
    cases h
    exact ⟨pool.tickBitmap, rfl, hword⟩
  | true =>
    obtain ⟨hdvd, rfl⟩ := hlib.flipTick h
    refine ⟨_, flipTick_eq pool t s, fun w => ?_⟩
    have hdiv : t.tdiv s = t / s := Int.tdiv_eq_ediv_of_dvd hdvd
    unfold Lib.WordSet.flip
    rw [hdiv, Nat.cast_ofNat, HashMap.lookup_insert]
    by_cases hw : w = t / s / 256
    · subst hw
      rw [if_pos rfl, Function.update_self, ← hword]
      rfl
    · rw [if_neg hw, Function.update_of_ne hw]
      exact hword w

/-- A tick is removed where the contract clears it. -/
theorem clearIf_follows (hlib : lib.Documented) (pool : UniswapV3Pool) (flipped : Bool) (t : Int)
    (hinfo : ∀ u, pool.infoAt u = ticks u) :
    ∃ m, (if flipped then pool.removeTick t else pool) = { pool with ticks := m } ∧
      ∀ u, infoAt { pool with ticks := m } u = UniV3.Pool.clearIf lib flipped ticks t u := by
  unfold UniV3.Pool.clearIf
  cases flipped with
  | false => exact ⟨pool.ticks, rfl, hinfo⟩
  | true =>
    refine ⟨pool.ticks.erase t, rfl, fun u => ?_⟩
    rw [if_pos rfl, hlib.tickClear]
    unfold infoAt
    by_cases hu : u = t
    · subst hu
      rw [AList.lookup_erase, Function.update_self]
      rfl
    · rw [AList.lookup_erase_ne hu, Function.update_of_ne hu]
      exact hinfo u

/-! ## A position -/

variable {contract contract' : UniV3.Pool} {owner : Address} {lower upperTick : Int}

theorem Follows.updatePosition (hlib : lib.Documented) (hfollows : pool.Follows contract)
    (hmin : -2 ^ 127 < delta) (hmax : delta < 2 ^ 127)
    (h : contract.updatePosition lib owner lower upperTick delta = some contract') :
    ∃ pool', pool'.Follows contract' ∧ pool'.liquidity = pool.liquidity ∧
      pool'.tick = pool.tick ∧
      ∀ prof, pool.updatePosition prof lower upperTick delta = .ok pool' := by
  by_cases hzero : delta = 0
  · subst hzero
    obtain ⟨positions, rfl⟩ := UniV3.Pool.updatePosition_zero h
    exact ⟨pool, ⟨hfollows.tickSpacing, hfollows.sqrtPrice, hfollows.tick, hfollows.liquidity,
      hfollows.info, hfollows.word⟩, rfl, rfl, fun _ => rfl⟩
  · obtain ⟨flippedLower, flippedUpper, ticks₁, ticks₂, bitmap₁, bitmap₂, positions, hlower, hupper,
      hbitmap₁, hbitmap₂, rfl⟩ := UniV3.Pool.updatePosition_cases hzero h
    rw [← hfollows.tickSpacing] at hbitmap₁ hbitmap₂
    obtain ⟨m₁, hm₁, hinfo₁⟩ := updateTick_follows hlib hfollows.info hmin hmax hlower
    obtain ⟨m₂, hm₂, hinfo₂⟩ := updateTick_follows hlib hinfo₁ hmin hmax hupper
    obtain ⟨b₁, hb₁, hword₁⟩ := flipIf_follows hlib { pool with ticks := m₂ } hfollows.word hbitmap₁
    obtain ⟨b₂, hb₂, hword₂⟩ := flipIf_follows hlib { pool with ticks := m₂, tickBitmap := b₁ }
      hword₁ hbitmap₂
    have hflipped : ∀ prof, pool.updatePosition prof lower upperTick delta =
        if delta < 0 then
          .ok (if flippedUpper then
            removeTick (if flippedLower then
              removeTick { pool with ticks := m₂, tickBitmap := b₂ } lower
              else { pool with ticks := m₂, tickBitmap := b₂ }) upperTick
            else if flippedLower then
              removeTick { pool with ticks := m₂, tickBitmap := b₂ } lower
              else { pool with ticks := m₂, tickBitmap := b₂ })
        else .ok { pool with ticks := m₂, tickBitmap := b₂ } := by
      intro prof
      unfold updatePosition
      simp only [if_pos hzero, hm₁ prof, hm₂ prof, ok_bind, hb₁, hb₂]
      rfl
    by_cases hneg : delta < 0
    · obtain ⟨m₃, hm₃, hinfo₃⟩ := clearIf_follows hlib
        { pool with ticks := m₂, tickBitmap := b₂ } flippedLower lower hinfo₂
      obtain ⟨m₄, hm₄, hinfo₄⟩ := clearIf_follows hlib
        { pool with ticks := m₃, tickBitmap := b₂ } flippedUpper upperTick hinfo₃
      refine ⟨{ pool with ticks := m₄, tickBitmap := b₂ }, ⟨hfollows.tickSpacing,
        hfollows.sqrtPrice, hfollows.tick, hfollows.liquidity, ?_, hword₂⟩, rfl, rfl,
        fun prof => ?_⟩
      · rw [if_pos hneg]
        exact hinfo₄
      · rw [hflipped, if_pos hneg, hm₃, hm₄]
    · refine ⟨{ pool with ticks := m₂, tickBitmap := b₂ }, ⟨hfollows.tickSpacing,
        hfollows.sqrtPrice, hfollows.tick, hfollows.liquidity, ?_, hword₂⟩, rfl, rfl,
        fun prof => ?_⟩
      · rw [if_neg hneg]
        exact hinfo₂
      · rw [hflipped, if_neg hneg]

theorem Follows.modifyPosition (hlib : lib.Documented) (hfollows : pool.Follows contract)
    (hmin : -2 ^ 127 < delta) (hmax : delta < 2 ^ 127)
    (h : contract.modifyPosition lib owner lower upperTick delta = some contract') :
    ∃ pool', pool'.Follows contract' ∧
      ∀ prof, pool.modifyPosition prof lower upperTick delta = .ok pool' := by
  obtain ⟨-, -, -, updated, hupdated, hliquidity⟩ := UniV3.Pool.modifyPosition_cases h
  obtain ⟨pool', hfollows', hsame, htick, hrun⟩ := hfollows.updatePosition hlib hmin hmax hupdated
  have htick' : pool'.tick = contract.tick := htick.trans hfollows.tick
  have hmodify : ∀ prof, pool.modifyPosition prof lower upperTick delta =
      if delta ≠ 0 ∧ lower ≤ contract.tick ∧ contract.tick < upperTick then do
        let liquidity ← applyDelta prof pool'.liquidity delta
        return { pool' with liquidity }
      else .ok pool' := by
    intro prof
    unfold UniswapV3Pool.modifyPosition
    rw [hrun prof, ok_bind, htick']
    rfl
  rcases hliquidity with ⟨hinside, liquidity, hadd, rfl⟩ | ⟨houtside, rfl⟩
  · obtain ⟨heq, hlt⟩ := hlib.addDelta hadd
    refine ⟨{ pool' with liquidity }, ⟨hfollows'.tickSpacing, hfollows'.sqrtPrice, hfollows'.tick,
      rfl, hfollows'.info, hfollows'.word⟩, fun prof => ?_⟩
    have hdelta : applyDelta prof pool'.liquidity delta = .ok liquidity := by
      rw [hfollows'.liquidity, applyDelta_eq prof hmin hmax (by omega) (by omega), ← heq,
        Int.toNat_natCast]
    rw [hmodify, if_pos hinside, hdelta]
    rfl
  · refine ⟨pool', hfollows', fun prof => ?_⟩
    rw [hmodify, if_neg houtside]

/-! ## Calls -/

/-- **One call**: the event of a call that does not revert makes the pool what the contract is. -/
theorem Follows.call (hlib : lib.Documented) (hfollows : pool.Follows contract)
    {call : UniV3.Pool.Call} {event : Event}
    (h : contract.call lib call = some (contract', event)) :
    ∃ pool', pool'.Follows contract' ∧
      ∀ prof log, log.payload = .event event → pool.sync prof log = .ok pool' := by
  unfold UniV3.Pool.call at h
  cases call with
  | mint recipient tickLower tickUpper amount =>
    dsimp only at h
    split at h
    · obtain ⟨liquidityDelta, hcast, h⟩ := Option.bind_eq_some_iff.mp h
      obtain ⟨after, hmodify, h⟩ := Option.bind_eq_some_iff.mp h
      cases h
      obtain ⟨rfl, -, hmax⟩ := hlib.toInt128 hcast
      obtain ⟨pool', hfollows', hrun⟩ := hfollows.modifyPosition hlib (by omega) hmax hmodify
      refine ⟨pool', hfollows', fun prof log hlog => ?_⟩
      unfold UniswapV3Pool.sync
      rw [hlog]
      dsimp only
      rw [asI128_of_lt (by omega), hrun prof]
    · cases h
  | burn sender tickLower tickUpper amount =>
    obtain ⟨liquidityDelta, hcast, h⟩ := Option.bind_eq_some_iff.mp h
    obtain ⟨after, hmodify, h⟩ := Option.bind_eq_some_iff.mp h
    cases h
    obtain ⟨rfl, -, hmax⟩ := hlib.toInt128 hcast
    obtain ⟨pool', hfollows', hrun⟩ := hfollows.modifyPosition hlib (by omega) (by omega) hmodify
    refine ⟨pool', hfollows', fun prof log hlog => ?_⟩
    unfold UniswapV3Pool.sync
    rw [hlog]
    dsimp only
    rw [asI128_of_lt (by omega), BuildProfile.signed_of_range (by omega) (by omega), ok_bind,
      hrun prof]
  | swap sqrtPriceX96 liquidity tick =>
    cases h
    let pool' : UniswapV3Pool :=
      { pool with sqrtPrice := sqrtPriceX96.setWidth 256, liquidity := liquidity.toNat, tick }
    refine ⟨pool', ⟨hfollows.tickSpacing, rfl, rfl, rfl, hfollows.info, hfollows.word⟩,
      fun prof log hlog => ?_⟩
    unfold UniswapV3Pool.sync
    rw [hlog]

/-- **Any calls**: some may revert, and the logs of the others are taken in one by one. -/
theorem Follows.run (hlib : lib.Documented) (hfollows : pool.Follows contract)
    (calls : List UniV3.Pool.Call) {logs : List Log}
    (hlogs : logs.map (·.payload) = (contract.run lib calls).2.map .event) :
    ∃ pool', pool'.Follows (contract.run lib calls).1 ∧
      ∀ prof, pool.syncAll prof logs = .ok pool' := by
  induction calls generalizing pool contract logs with
  | nil =>
    cases List.map_eq_nil_iff.mp hlogs
    exact ⟨pool, hfollows, fun _ => rfl⟩
  | cons call calls ih =>
    unfold UniV3.Pool.run at hlogs ⊢
    cases hcall : contract.call lib call with
    | none =>
      rw [hcall] at hlogs
      exact ih hfollows hlogs
    | some after =>
      rw [hcall] at hlogs
      obtain ⟨log, rest, rfl, hlog, hrest⟩ := List.map_eq_cons_iff.mp hlogs
      obtain ⟨pool₁, hfollows₁, hsync⟩ := hfollows.call hlib hcall
      obtain ⟨pool', hfollows', hrun⟩ := ih hfollows₁ hrest
      refine ⟨pool', hfollows', fun prof => ?_⟩
      rw [syncAll, List.foldlM_cons, hsync prof log hlog, ok_bind]
      exact hrun prof

end UniswapV3Pool

/-! ## From the chain -/

/-- What the batch contracts see of a pool contract. -/
structure V3Chain.Shows (chain : V3Chain) (a : Address) (contract : UniV3.Pool) : Prop where
  liquidity : ∃ liquidity, chain.liquidity a = some liquidity ∧
    liquidity.toNat = contract.liquidity
  slot0 : chain.slot0 a = some (contract.sqrtPriceX96, contract.tick)
  tickBitmap : ∀ w, chain.tickBitmap a w = contract.tickBitmap w
  ticks : ∀ t, chain.ticks a t = contract.ticks t

namespace V3Chain.Shows

open GetUniswapV3PoolSlot0BatchRequest (slot0Data)

variable {chain : V3Chain} {pool synced : UniswapV3Pool} {contract : UniV3.Pool}

theorem slot0Data (h : chain.Shows pool.address contract) : ∃ data,
    slot0Data chain pool.address = some data ∧ data.liquidity.toNat = contract.liquidity ∧
      data.sqrtPrice = contract.sqrtPriceX96.setWidth 256 ∧ data.tick = contract.tick := by
  obtain ⟨liquidity, hliquidity, heq⟩ := h.liquidity
  unfold GetUniswapV3PoolSlot0BatchRequest.slot0Data
  rw [hliquidity, h.slot0]
  exact ⟨_, rfl, heq, rfl, rfl⟩

theorem inBounds (h : chain.Shows pool.address contract) (hcontract : contract.Consistent)
    (hspacing : pool.tickSpacing = contract.tickSpacing) : chain.InBounds pool := by
  intro w i hset
  have hi : i < 256 := BitVec.lt_of_getLsbD hset
  have hbit := hcontract.bit (w * 256 + i)
  unfold UniV3.Pool.bitAt at hbit
  have hword : (w * 256 + (i : Int)) / 256 = w := by omega
  have hindex : ((w * 256 + (i : Int)) % 256).toNat = i := by omega
  rw [hword, hindex, ← h.tickBitmap, hset] at hbit
  rw [hspacing]
  exact hcontract.bounds _ (of_decide_eq_true hbit.symm)

/-- The bits of the chain are those of the ticks with liquidity. -/
theorem initialized_iff (h : chain.Shows pool.address contract) (hcontract : contract.Consistent)
    (hspacing : pool.tickSpacing = contract.tickSpacing) (t : Int) :
    UniswapV3Factory.Initialized chain pool t ↔ (contract.ticks t).liquidityGross ≠ 0 := by
  have hbit : pool.tickSpacing ∣ t → ((chain.tickBitmap pool.address
      (t / pool.tickSpacing / 256)).getLsbD (t / pool.tickSpacing % 256).toNat = true ↔
        (contract.ticks t).liquidityGross ≠ 0) := by
    intro hdvd
    have hbit := hcontract.bit (t / pool.tickSpacing)
    rw [← hspacing, Int.ediv_mul_cancel hdvd] at hbit
    unfold UniV3.Pool.bitAt at hbit
    rw [h.tickBitmap, hbit, decide_eq_true_eq]
  unfold UniswapV3Factory.Initialized
  constructor
  · rintro ⟨hdvd, hset⟩
    exact (hbit hdvd).mp hset
  · intro hgross
    have hdvd : pool.tickSpacing ∣ t := hspacing ▸ hcontract.dvd t hgross
    exact ⟨hdvd, (hbit hdvd).mpr hgross⟩

/-- **A pool that mirrors the chain** holds what its contract holds. -/
theorem follows (h : chain.Shows pool.address contract) (hcontract : contract.Consistent)
    (hspacing : pool.tickSpacing = contract.tickSpacing)
    (hmirrors : UniswapV3Factory.Mirrors chain pool synced) : synced.Follows contract := by
  obtain ⟨data, hdata, hliquidity, hsqrtPrice, htick⟩ := h.slot0Data
  have hread : UniswapV3Factory.readState chain pool = UniswapV3Factory.readDecimals chain
      (UniswapV3Factory.withSlot0 data pool) := by
    unfold UniswapV3Factory.readState UniswapV3Factory.readSlot0
    rw [hdata]
    rfl
  have hstate := hmirrors.state
  rw [hread] at hstate
  refine ⟨?_, ?_, ?_, ?_, fun t => ?_, fun w => ?_⟩
  · rw [hstate]
    exact hspacing
  · rw [hstate]
    exact hsqrtPrice
  · rw [hstate]
    exact htick
  · rw [hstate]
    exact hliquidity
  · unfold UniswapV3Pool.infoAt
    by_cases hinitialized : UniswapV3Factory.Initialized chain pool t
    · rw [hmirrors.tick t hinitialized, h.ticks]
      rfl
    · rw [hmirrors.noTick t hinitialized]
      rw [h.initialized_iff hcontract hspacing, not_ne_iff] at hinitialized
      exact (hcontract.empty t hinitialized).symm
  · by_cases hzero : chain.tickBitmap pool.address w = 0
    · rw [hmirrors.noWord w hzero, ← h.tickBitmap, hzero]
      rfl
    · rw [hmirrors.word w hzero, h.tickBitmap]
      rfl

end V3Chain.Shows

namespace UniswapV3Factory

/-- **The pools of a factory follow their contracts**, from a synchronisation on: after any calls of
a contract since the block that was read, the logs of those that did not revert make the pool what
the contract is. -/
theorem syncAllPools_follows (lib : Libraries) (hlib : lib.Documented) (net : Networks)
    {hashSet : List Address → List Address} (prof : BuildProfile) {fuel : Nat} (chain : V3Chain)
    (pools : List UniswapV3Pool) (contracts : Address → UniV3.Pool)
    (hslot0 : ∀ k, net.slot0.answered k = true) (hdecimals : ∀ k, net.decimals.answered k = true)
    (hbitmaps : ∀ k, net.tickBitmaps.answered k = true)
    (hticks : ∀ k, net.tickData.answered k = true) (hset : ∀ l a, a ∈ hashSet l ↔ a ∈ l)
    (hfuel : 6932 ≤ fuel) (hnodup : (pools.map (·.address)).Nodup)
    (hnew : ∀ pool ∈ pools, pool.tickBitmap = ∅ ∧ pool.ticks = ∅)
    (hspacing : ∀ pool ∈ pools, 1 ≤ pool.tickSpacing)
    (hcontracts : ∀ pool ∈ pools, ∃ maxLiquidity sqrtPrice tick calls, contracts pool.address =
      ((UniV3.Pool.initialized pool.tickSpacing maxLiquidity sqrtPrice tick).run lib calls).1)
    (hshows : ∀ pool ∈ pools, chain.Shows pool.address (contracts pool.address))
    (hkept : LastWordsKept ((pools.filter fun pool => isLive (readState chain pool)).map
      fun pool => (pool.address, pool.tickSpacing)))
    (hfits : ∀ groups, tickBitmapGroups fuel
        (pools.filter fun pool => isLive (readState chain pool)) = some groups →
      ∀ info ∈ groups.flatten, Fits chain info) :
    ∃ synced, syncAllPools net hashSet prof fuel chain pools = some (.ok synced) ∧
      synced.map (·.address) =
        (pools.filter fun pool => isLive (readState chain pool)).map (·.address) ∧
      ∀ pool ∈ synced, ∀ calls logs,
        logs.map Log.payload = ((contracts pool.address).run lib calls).2.map .event →
          ∃ pool' : UniswapV3Pool, pool'.Follows ((contracts pool.address).run lib calls).1 ∧
            ∀ prof, pool.syncAll prof logs = .ok pool' := by
  have hconsistent : ∀ pool ∈ pools, (contracts pool.address).Consistent ∧
      pool.tickSpacing = (contracts pool.address).tickSpacing := by
    intro pool hpool
    obtain ⟨maxLiquidity, sqrtPrice, tick, calls, heq⟩ := hcontracts pool hpool
    obtain ⟨hrun, hsame⟩ := (UniV3.Pool.consistent_initialized (hspacing pool hpool)).run hlib calls
    rw [heq]
    exact ⟨hrun, hsame.symm⟩
  obtain ⟨sync, hsync, hmirrors⟩ := syncAllPools_eq net prof chain pools hslot0 hdecimals hbitmaps
    hticks hset hfuel hnodup hnew hspacing
    (fun pool hpool => by
      obtain ⟨data, hdata, -⟩ := (hshows pool hpool).slot0Data
      rw [hdata]
      rfl)
    (fun pool hpool => by
      obtain ⟨hcontract, hsame⟩ := hconsistent pool hpool
      exact (hshows pool hpool).inBounds hcontract hsame)
    hkept hfits
  have haddress : ∀ pool ∈ pools.filter fun pool => isLive (readState chain pool),
      (sync pool).address = pool.address := by
    intro pool hpool
    rw [(hmirrors pool hpool).state]
    rfl
  refine ⟨_, hsync, ?_, List.forall_mem_map.mpr fun pool hpool => ?_⟩
  · rw [List.map_map]
    exact List.map_congr_left haddress
  · have hmem := List.mem_of_mem_filter hpool
    obtain ⟨hcontract, hsame⟩ := hconsistent pool hmem
    have hfollows := (hshows pool hmem).follows hcontract hsame (hmirrors pool hpool)
    rw [haddress pool hpool]
    exact fun calls logs hlogs => hfollows.run hlib calls hlogs

/-- A contract with one position, of the ticks from -60 to 60. -/
def mintedContract : UniV3.Pool :=
  ((UniV3.Pool.initialized 60 1000 1 0).run UniV3.plainLibraries [.mint 7 (-60) 60 5]).1

/-- The chain that shows it at every address. -/
def mintedChain : V3Chain where
  liquidity := fun _ => some (BitVec.ofNat 128 mintedContract.liquidity)
  slot0 := fun _ => some (mintedContract.sqrtPriceX96, mintedContract.tick)
  tickBitmap := fun _ => mintedContract.tickBitmap
  ticks := fun _ => mintedContract.ticks
  hasCode := fun _ => true
  decimals := fun _ => some 18

theorem syncAllPools_follows_mintedChain :
    ∃ synced, syncAllPools reversed List.reverse { overflowChecks := true } 6932 mintedChain
        [newPool] = some (.ok synced) ∧
      synced.map (·.address) = ([newPool].filter fun pool =>
        isLive (readState mintedChain pool)).map (·.address) ∧
      ∀ pool ∈ synced, ∀ calls logs,
        logs.map Log.payload =
            (mintedContract.run UniV3.plainLibraries calls).2.map .event →
          ∃ pool' : UniswapV3Pool,
            pool'.Follows (mintedContract.run UniV3.plainLibraries calls).1 ∧
              ∀ prof, pool.syncAll prof logs = .ok pool' :=
  syncAllPools_follows UniV3.plainLibraries UniV3.plainLibraries_documented reversed
    { overflowChecks := true } mintedChain [newPool] (fun _ => mintedContract) (fun _ => rfl)
    (fun _ => rfl) (fun _ => rfl) (fun _ => rfl) (fun _ _ => List.mem_reverse) (Nat.le_refl 6932)
    (by simp) (List.forall_mem_singleton.mpr ⟨rfl, rfl⟩)
    (List.forall_mem_singleton.mpr (by decide))
    (List.forall_mem_singleton.mpr ⟨1000, 1, 0, [.mint 7 (-60) 60 5], rfl⟩)
    (List.forall_mem_singleton.mpr
      ⟨⟨_, rfl, by decide⟩, rfl, fun _ => rfl, fun _ => rfl⟩)
    (newPool_lastWordsKept _)
    (by
      intro groups hgroups info hinfo
      rw [newPool_groups hgroups info hinfo]
      unfold Fits
      decide)

end UniswapV3Factory

end ArbitrageBot
