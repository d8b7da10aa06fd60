import ArbitrageBot.Amms.UniswapV3.PoolSync

/-!
# The pools mirror the chain

In whatever order the calls are answered, a pool that `sync_all_pools` returns has the price and
the liquidity of the chain, the non-zero words of its bitmap and the ticks that they mark.
-/

namespace ArbitrageBot

open Lib Lib.Batches

namespace UniswapV3Factory

open GetUniswapV3PoolSlot0BatchRequest (slot0Data)
open GetTokenDecimalsBatchRequest (tokenDecimals)

variable {chain : V3Chain} {net : Network} {pools : List UniswapV3Pool}

/-! ## Prices and liquidity -/

/-- A pool with what the chain says of its price and its liquidity. -/
def readSlot0 (chain : V3Chain) (pool : UniswapV3Pool) : UniswapV3Pool :=
  withSlot0 ((slot0Data chain pool.address).getD ⟨0, 0, 0⟩) pool

theorem slot0_constructor_eq (hslots : ∀ pool ∈ pools, (slot0Data chain pool.address).isSome) :
    GetUniswapV3PoolSlot0BatchRequest.constructor chain (pools.map (·.address)) =
      some (pools.map fun pool => (slot0Data chain pool.address).getD ⟨0, 0, 0⟩) := by
  unfold GetUniswapV3PoolSlot0BatchRequest.constructor
  induction pools with
  | nil => rfl
  | cons pool pools ih =>
    obtain ⟨hslot, hslots⟩ := List.forall_mem_cons.mp hslots
    obtain ⟨data, hdata⟩ := Option.isSome_iff_exists.mp hslot
    simp only [List.map_cons, List.mapM_cons, ih hslots, hdata]
    rfl

/-- **Every pool gets its own price**, in whatever order the slices are answered. -/
theorem syncSlot0_eq (hanswered : ∀ k, net.answered k = true)
    (hslots : ∀ pool ∈ pools, (slot0Data chain pool.address).isSome) :
    syncSlot0 net chain pools = .ok (pools.map (readSlot0 chain)) := by
  refine net.updateWindows_eq (Fault.err ()) (by decide : 0 < 255) _ withSlot0
    (fun pool => (slot0Data chain pool.address).getD ⟨0, 0, 0⟩) pools hanswered ?_
  intro group hgroup
  rw [slot0_constructor_eq fun pool hpool => hslots pool (mem_of_mem_windows hgroup hpool)]
  rfl

/-! ## Decimals -/

theorem lookup_insertDecimals {chain : TokenChain} (group : List Address)
    (m : HashMap Address UInt8) (a : Address) :
    (insertDecimals m (group, GetTokenDecimalsBatchRequest.constructor chain group)).lookup a =
      if a ∈ group then some (tokenDecimals chain a) else m.lookup a := by
  unfold insertDecimals GetTokenDecimalsBatchRequest.constructor
  dsimp only
  induction group generalizing m with
  | nil => rfl
  | cons token group ih =>
    rw [List.map_cons, List.zip_cons_cons, List.foldl_cons, ih, HashMap.lookup_insert]
    by_cases ha : a ∈ group
    · rw [if_pos ha, if_pos (List.mem_cons_of_mem _ ha)]
    · by_cases heq : a = token
      · subst heq
        rw [if_neg ha, if_pos rfl, if_pos List.mem_cons_self]
      · rw [if_neg ha, if_neg heq, if_neg (by simp [heq, ha])]

/-- The decimals of all tokens that are asked for. -/
theorem getTokenDecimals_eq {chain : TokenChain} (hanswered : ∀ k, net.answered k = true)
    (tokens : List Address) :
    ∃ m, getTokenDecimals net chain tokens = .ok m ∧
      ∀ a ∈ tokens, m.lookup a = some (tokenDecimals chain a) := by
  obtain ⟨ws, hperm, hfold⟩ := net.foldlM_calls (.err ())
    (fun group => .ok (group, GetTokenDecimalsBatchRequest.constructor chain group))
    (fun group => (group, GetTokenDecimalsBatchRequest.constructor chain group))
    (windows 765 tokens) hanswered (fun _ _ => rfl)
    (fun (tokenDecimals : HashMap Address UInt8) answer =>
      (.ok (insertDecimals tokenDecimals answer) : Outcome Unit _))
  have hlookup : ∀ (ws : List (List Address)) (m : HashMap Address UInt8) (a : Address),
      (ws.foldl (fun m group =>
        insertDecimals m (group, GetTokenDecimalsBatchRequest.constructor chain group)) m).lookup
          a = if a ∈ ws.flatten then some (tokenDecimals chain a) else m.lookup a := by
    intro ws
    induction ws with
    | nil => exact fun m a => rfl
    | cons group ws ih =>
      intro m a
      rw [List.foldl_cons, ih, lookup_insertDecimals, List.flatten_cons]
      by_cases ha : a ∈ ws.flatten
      · rw [if_pos ha, if_pos (List.mem_append_right _ ha)]
      · simp [ha]
  refine ⟨_, (hfold ∅).trans (List.foldlM_pure (m := Except (Fault Unit))), fun a ha => ?_⟩
  rw [hlookup, if_pos]
  rw [hperm.flatten.mem_iff, flatten_windows (by decide)]
  exact ha

/-- A pool with what the chain says of the decimals of its tokens. -/
def readDecimals (chain : V3Chain) (pool : UniswapV3Pool) : UniswapV3Pool :=
  { pool with
    tokenA := { pool.tokenA with
      decimals := tokenDecimals chain.toTokenChain pool.tokenA.address }
    tokenB := { pool.tokenB with
      decimals := tokenDecimals chain.toTokenChain pool.tokenB.address } }

theorem syncTokenDecimals_eq (hanswered : ∀ k, net.answered k = true)
    {hashSet : List Address → List Address} (hset : ∀ l a, a ∈ hashSet l ↔ a ∈ l) :
    syncTokenDecimals net hashSet chain pools = .ok (pools.map (readDecimals chain)) := by
  obtain ⟨m, hm, hlookup⟩ := @getTokenDecimals_eq _ chain.toTokenChain hanswered
    (hashSet (pools.flatMap fun pool => [pool.tokenA.address, pool.tokenB.address]))
  unfold syncTokenDecimals
  dsimp only
  rw [hm, ok_bind]
  refine congrArg Except.ok (List.map_congr_left fun pool hpool => ?_)
  have hmem : ∀ a ∈ [pool.tokenA.address, pool.tokenB.address],
      m.lookup a = some (tokenDecimals chain.toTokenChain a) := by
    intro a ha
    exact hlookup a ((hset _ _).mpr (List.mem_flatMap_of_mem hpool ha))
  unfold withDecimals readDecimals
  rw [hmem _ (by simp), hmem _ (by simp)]
  rfl

end UniswapV3Factory

/-! ## The words that are asked for -/

section Words

open Batching (requests)

/-- The intervals asked for so far are words of the pools, and the group is not full. -/
structure Within (pools : List (Address × Int)) (s : Batching) : Prop where
  nonneg : 0 ≤ s.groupRange
  notFull : s.groupRange < MAX_RANGE
  valid : ∀ info ∈ s.requests, ValidWords info ∧ ∃ p ∈ pools, info.pool = p.1

variable {pools : List (Address × Int)} {s s' : Batching}

theorem Within.round (h : Within pools s) {p : Address × Int} (hp : p ∈ pools)
    (hrange : 0 < s.wordRange) (hmin : -3466 ≤ s.minWord)
    (hmax : s.minWord + s.wordRange ≤ 3465) :
    Within pools (s.round p.1) ∧ 0 ≤ (s.round p.1).wordRange ∧ -3466 ≤ (s.round p.1).minWord ∧
      (s.round p.1).minWord + (s.round p.1).wordRange ≤ 3465 := by
  obtain ⟨hminWord, hwordRange, hgroupRange⟩ := s.round_fields p.1
  have hrequests := s.requests_round p.1
  have hnonneg := h.nonneg
  have hnotFull := h.notFull
  unfold MAX_RANGE at hminWord hwordRange hgroupRange hrequests hnotFull
  rw [asI16_of_range (by omega) (by omega), asI16_of_range (by omega) (by omega)] at hrequests
  refine ⟨⟨by omega, by unfold MAX_RANGE; omega, ?_⟩, by omega, by omega, by omega⟩
  intro info hinfo
  rw [hrequests, List.mem_append, List.mem_singleton] at hinfo
  rcases hinfo with hinfo | rfl
  · exact h.valid info hinfo
  · refine ⟨⟨hmin, ?_, ?_⟩, p, hp, rfl⟩
    · dsimp only
      omega
    · dsimp only
      omega

theorem Within.addPool (h : Within pools s) {p : Address × Int} (hp : p ∈ pools) (hs : 1 ≤ p.2)
    {fuel : Nat} (hrun : Batching.addPool fuel s p = some s') : Within pools s' := by
  obtain ⟨hfirst, hzero, hlow, hlast⟩ := words_range hs
  unfold Batching.addPool at hrun
  dsimp only at hrun
  split at hrun
  · rename_i s₁ hloop
    cases hrun
    rcases Loop.run_eq_some hloop with ⟨t, ht, hheads, -⟩ | ⟨t, e, -, -, -, hbody⟩
    · cases ht
      refine (hheads.inv (I := fun s => Within pools s ∧ 0 ≤ s.wordRange ∧ -3466 ≤ s.minWord ∧
        s.minWord + s.wordRange ≤ 3465) ?_ ?_).1
      · refine ⟨⟨h.nonneg, h.notFull, h.valid⟩, ?_⟩
        unfold firstWord lastWord at *
        dsimp only
        omega
      · rintro t t' ⟨hwithin, -, hmin, hmax⟩ hguard hbody
        cases hbody
        exact hwithin.round hp (of_decide_eq_true hguard) hmin hmax
    · cases hbody
  · cases hrun

/-- **Every interval is one of words of a pool.** -/
theorem tickBitmapGroups_valid {fuel : Nat} (hs : ∀ p ∈ pools, 1 ≤ p.2)
    {groups : List (List TickBitmapInfo)} (h : tickBitmapGroups fuel pools = some groups) :
    ∀ info ∈ groups.flatten, ValidWords info ∧ ∃ p ∈ pools, info.pool = p.1 := by
  obtain ⟨s, hfold, hgroups⟩ := Option.map_eq_some_iff.mp h
  have hrun : ∀ (rest : List (Address × Int)) (s s' : Batching), (∀ p ∈ rest, p ∈ pools) →
      Within pools s → rest.foldlM (Batching.addPool fuel) s = some s' → Within pools s' := by
    intro rest
    induction rest with
    | nil =>
      intro s s' _ h hfold
      cases hfold
      exact h
    | cons p rest ih =>
      intro s s' hmem h hfold
      obtain ⟨hp, hrest⟩ := List.forall_mem_cons.mp hmem
      rw [List.foldlM_cons] at hfold
      obtain ⟨s₁, hs₁, hfold⟩ := Option.bind_eq_some_iff.mp hfold
      exact ih s₁ s' hrest (h.addPool hp (hs p hp) hs₁) hfold
  have hwithin := hrun pools ⟨0, 0, 0, [], []⟩ s (fun _ hp => hp)
    ⟨Int.le_refl 0, by decide, fun info hinfo => absurd hinfo (by simp [requests])⟩ hfold
  intro info hinfo
  refine hwithin.valid info ?_
  rw [← hgroups] at hinfo
  unfold requests
  split at hinfo
  · exact List.mem_append_left _ hinfo
  · rw [List.flatten_append, List.flatten_singleton] at hinfo
    exact hinfo

/-- The word of a valid tick is one of those of its spacing. -/
theorem word_between {spacing j : Int} (hs : 1 ≤ spacing) (hlo : MIN_TICK ≤ j * spacing)
    (hhi : j * spacing ≤ MAX_TICK) : firstWord spacing ≤ j / 256 ∧ j / 256 ≤ lastWord spacing := by
  have hdiv : (887272 : Int).tdiv spacing = 887272 / spacing :=
    Int.tdiv_eq_ediv_of_nonneg (by omega)
  have hupper : j ≤ 887272 / spacing := (Int.le_ediv_iff_mul_le (by omega)).mpr hhi
  have hlower : -j ≤ 887272 / spacing := by
    rw [Int.le_ediv_iff_mul_le (by omega), Int.neg_mul]
    unfold MIN_TICK at hlo
    omega
  rw [firstWord_eq, lastWord_eq, hdiv]
  split
  · omega
  · omega

end Words

/-! ## The bitmaps -/

/-- Only valid ticks of the pool's spacing are in its bitmap. -/
def V3Chain.InBounds (chain : V3Chain) (pool : UniswapV3Pool) : Prop :=
  ∀ (w : Int) (i : Nat), (chain.tickBitmap pool.address w).getLsbD i = true →
    MIN_TICK ≤ (w * 256 + i) * pool.tickSpacing ∧ (w * 256 + i) * pool.tickSpacing ≤ MAX_TICK

theorem V3Chain.InBounds.word_between {chain : V3Chain} {pool : UniswapV3Pool}
    (h : chain.InBounds pool) (hs : 1 ≤ pool.tickSpacing) {w : Int}
    (hw : chain.tickBitmap pool.address w ≠ 0) :
    firstWord pool.tickSpacing ≤ w ∧ w ≤ lastWord pool.tickSpacing := by
  have hbit : ∃ i < 256, (chain.tickBitmap pool.address w).getLsbD i = true := by
    by_contra hnone
    refine hw (SparseBits.eq_zero_iff.mpr fun i hi => ?_)
    rw [← Bool.not_eq_true]
    exact fun hset => hnone ⟨i, hi, hset⟩
  obtain ⟨i, hi, hset⟩ := hbit
  obtain ⟨hlo, hhi⟩ := h w i hset
  have hword := ArbitrageBot.word_between hs hlo hhi
  have hdiv : (w * 256 + (i : Int)) / 256 = w := by omega
  rwa [hdiv] at hword

namespace UniswapV3Factory

variable {chain : V3Chain} {net : Network} {pools : List UniswapV3Pool}

/-- What the contract returns for some intervals. -/
def bitmapRows (chain : V3Chain) (infos : List TickBitmapInfo) : List (List U256) :=
  infos.map fun info => pairs (chain.tickBitmap info.pool)
    (nonEmptyWords (chain.tickBitmap info.pool) info)

/-- No interval has more non-zero words than half its words. -/
def Fits (chain : V3Chain) (info : TickBitmapInfo) : Prop :=
  2 * (nonEmptyWords (chain.tickBitmap info.pool) info).length ≤
    (info.maxWord - info.minWord + 1).toNat

theorem bitmap_constructor_eq {infos : List TickBitmapInfo}
    (hvalid : ∀ info ∈ infos, ValidWords info) (hfits : ∀ info ∈ infos, Fits chain info) :
    GetUniswapV3PoolTickBitmapBatchRequest.constructor chain.tickBitmap infos =
      some (bitmapRows chain infos) := by
  unfold GetUniswapV3PoolTickBitmapBatchRequest.constructor
  induction infos with
  | nil => rfl
  | cons info infos ih =>
    obtain ⟨hinfo, hvalid⟩ := List.forall_mem_cons.mp hvalid
    obtain ⟨hfit, hfits⟩ := List.forall_mem_cons.mp hfits
    unfold Fits at hfit
    rw [List.mapM_cons, row_eq hinfo, if_pos hfit, ih hvalid hfits]
    rfl

theorem foldlM_anyError {ι σ : Type} (f : σ → ι → Outcome AMMError σ) (l : List ι) (s : σ) :
    l.foldlM (fun s i => anyError (f s i)) s = anyError (l.foldlM f s) := by
  induction l generalizing s with
  | nil => rfl
  | cons i l ih =>
    rw [List.foldlM_cons, List.foldlM_cons]
    cases f s i with
    | error e => rfl
    | ok t => exact ih t

/-- Group by group, or all intervals at once. -/
theorem foldlM_insertTickBitmaps (ws : List (List TickBitmapInfo))
    (set : HashMap Address UniswapV3Pool) :
    ws.foldlM (fun set group => insertTickBitmaps set (group.map (·.pool)) (bitmapRows chain group))
      set = insertTickBitmaps set (ws.flatten.map (·.pool)) (bitmapRows chain ws.flatten) := by
  induction ws generalizing set with
  | nil => rfl
  | cons group ws ih =>
    have happend : insertTickBitmaps set ((group ++ ws.flatten).map (·.pool))
        (bitmapRows chain (group ++ ws.flatten)) =
          insertTickBitmaps set (group.map (·.pool)) (bitmapRows chain group) >>= fun set =>
            insertTickBitmaps set (ws.flatten.map (·.pool)) (bitmapRows chain ws.flatten) := by
      unfold insertTickBitmaps bitmapRows
      rw [List.map_append, List.map_append, List.zip_append (by simp), List.foldlM_append]
    rw [List.foldlM_cons, List.flatten_cons, happend]
    exact congrArg _ (funext ih)

theorem lookup_poolSet_of_nodup (hnodup : (pools.map (·.address)).Nodup) {pool : UniswapV3Pool}
    (hpool : pool ∈ pools) : (poolSet pools).lookup pool.address = some pool := by
  rw [lookup_poolSet]
  induction pools with
  | nil => cases hpool
  | cons first pools ih =>
    rw [List.map_cons, List.nodup_cons] at hnodup
    rcases List.mem_cons.mp hpool with rfl | hrest
    · rw [List.filter_cons_of_pos (by simp), List.filter_eq_nil_iff.mpr]
      · rfl
      · intro other hother
        rw [decide_eq_true_eq]
        exact fun heq => hnodup.1 (heq ▸ List.mem_map_of_mem hother)
    · rw [List.filter_cons_of_neg, ih hnodup.2 hrest]
      rw [decide_eq_true_eq]
      exact fun heq => hnodup.1 (heq ▸ List.mem_map_of_mem hrest)

theorem fromPoolSet_of_nodup (hnodup : (pools.map (·.address)).Nodup)
    (set : HashMap Address UniswapV3Pool) :
    fromPoolSet set pools = pools.map fun pool => (set.lookup pool.address).getD pool := by
  induction pools with
  | nil => rfl
  | cons pool pools ih =>
    rw [List.map_cons, List.nodup_cons] at hnodup
    rw [fromPoolSet, ih hnodup.2, if_neg, List.map_cons]
    rw [List.any_eq_true]
    rintro ⟨other, hother, heq⟩
    rw [beq_iff_eq] at heq
    exact hnodup.1 (heq ▸ List.mem_map_of_mem hother)

/-- **The bitmaps after the call**: the non-zero words of the chain over those there were. -/
theorem syncTickBitmaps_eq (hanswered : ∀ k, net.answered k = true) {fuel : Nat}
    (hfuel : 6932 ≤ fuel) (hnodup : (pools.map (·.address)).Nodup)
    (hspacing : ∀ pool ∈ pools, 1 ≤ pool.tickSpacing)
    (hbounds : ∀ pool ∈ pools, chain.InBounds pool)
    (hkept : LastWordsKept (pools.map fun p => (p.address, p.tickSpacing)))
    (hfits : ∀ groups, tickBitmapGroups fuel pools = some groups →
      ∀ info ∈ groups.flatten, Fits chain info) :
    ∃ bitmap : UniswapV3Pool → HashMap Int U256,
      syncTickBitmaps net fuel chain pools =
        some (.ok (pools.map fun pool => { pool with tickBitmap := bitmap pool })) ∧
      ∀ pool ∈ pools, ∀ w, (bitmap pool).lookup w =
        if chain.tickBitmap pool.address w = 0 then pool.tickBitmap.lookup w
        else some (chain.tickBitmap pool.address w) := by
  have hs : ∀ p ∈ pools.map fun p => (p.address, p.tickSpacing), 1 ≤ p.2 :=
    List.forall_mem_map.mpr hspacing
  obtain ⟨groups, hgroups, hall⟩ := tickBitmapGroups_spec hfuel _ hs
  have hall := hall.mpr hkept
  have hvalid := tickBitmapGroups_valid hs hgroups
  have hfit := hfits groups hgroups
  have hgroup : ∀ group ∈ groups, ∀ info ∈ group, info ∈ groups.flatten :=
    fun group hgroup info hinfo => List.mem_flatten_of_mem hgroup hinfo
  obtain ⟨ws, hperm, hfold⟩ := net.foldlM_calls (.err ())
    (fun group => (answer
      (GetUniswapV3PoolTickBitmapBatchRequest.constructor chain.tickBitmap group)).map
        fun returnData => (group.map (·.pool), returnData))
    (fun group => (group.map (·.pool), bitmapRows chain group)) groups hanswered (by
      intro group hmem
      rw [bitmap_constructor_eq (fun info hinfo => (hvalid info (hgroup group hmem info hinfo)).1)
        (fun info hinfo => hfit info (hgroup group hmem info hinfo))]
      rfl)
    (fun (set : HashMap Address UniswapV3Pool) answer =>
      anyError (insertTickBitmaps set answer.1 answer.2))
  have hwords : ∀ info, info ∈ ws.flatten ↔ info ∈ groups.flatten :=
    fun info => hperm.flatten.mem_iff
  obtain ⟨set, hset, hholds⟩ := insertTickBitmaps_spec chain.tickBitmap ws.flatten
    (fun info hinfo => (hvalid info ((hwords info).mp hinfo)).1) (poolSet pools) (by
      intro info hinfo
      obtain ⟨p, hp, heq⟩ := (hvalid info ((hwords info).mp hinfo)).2
      obtain ⟨pool, hpool, rfl⟩ := List.mem_map.mp hp
      rw [heq, lookup_poolSet_of_nodup hnodup hpool]
      rfl)
  have hafter : ∀ pool ∈ pools, ∃ pool', set.lookup pool.address = some pool' ∧
      pool' = { pool with tickBitmap := pool'.tickBitmap } := by
    intro pool hpool
    have hbefore := lookup_poolSet_of_nodup hnodup hpool
    have hsome := hholds.keys pool.address
    rw [hbefore] at hsome
    obtain ⟨pool', hpool'⟩ := Option.isSome_iff_exists.mp hsome
    exact ⟨pool', hpool', hholds.frame _ _ _ hbefore hpool'⟩
  refine ⟨fun pool => ((set.lookup pool.address).getD pool).tickBitmap, ?_, fun pool hpool w => ?_⟩
  · unfold syncTickBitmaps
    have hrun : ws.foldlM (fun set group => anyError (insertTickBitmaps set (group.map (·.pool))
        (bitmapRows chain group))) (poolSet pools) = .ok set := by
      rw [foldlM_anyError, foldlM_insertTickBitmaps]
      exact congrArg anyError hset
    have hgroups' : tickBitmapGroups fuel pools = some groups := hgroups
    rw [hgroups', Option.map_some]
    dsimp only
    rw [hfold, hrun, ok_bind, fromPoolSet_of_nodup hnodup]
    refine congrArg (fun l => some (Except.ok l)) (List.map_congr_left fun pool hpool => ?_)
    obtain ⟨pool', hpool', hframe⟩ := hafter pool hpool
    rw [hpool']
    exact hframe
  · obtain ⟨pool', hpool', -⟩ := hafter pool hpool
    have hbefore := lookup_poolSet_of_nodup hnodup hpool
    dsimp only
    rw [hpool', Option.getD_some]
    split
    · rename_i hzero
      exact hholds.kept _ _ _ hbefore hpool' w fun h => h.2 hzero
    · rename_i hne
      refine hholds.inserted _ _ hpool' w ?_ hne
      -- a word that is not zero is one of those that are asked for
      obtain ⟨hlo, hhi⟩ := (hbounds pool hpool).word_between (hspacing pool hpool) hne
      obtain ⟨group, hmem, info, hinfo, hwindow⟩ := hall (pool.address, pool.tickSpacing)
        (List.mem_map_of_mem hpool) w hlo hhi
      exact ⟨info, (hwords info).mpr (List.mem_flatten_of_mem hmem hinfo), hwindow⟩

end UniswapV3Factory

/-! ## The ticks -/

namespace UniswapV3Pool

variable {pool : UniswapV3Pool}

/-- The bitmap of the pool marks the tick. -/
def Marked (pool : UniswapV3Pool) (t : Int) : Prop :=
  pool.tickSpacing ∣ t ∧ WordSet.mem pool.tickBitmap (t / pool.tickSpacing) = true

/-- A bitmap that marks valid ticks only is read off whole, whoever wrote it. -/
theorem initializedTicks_of_valid (hs : 1 ≤ pool.tickSpacing)
    (hvalid : ∀ t, pool.Marked t → MIN_TICK ≤ t ∧ t ≤ MAX_TICK) (prof : BuildProfile) :
    ∃ ticks, pool.initializedTicks prof = .ok ticks ∧ ∀ t, t ∈ ticks ↔ pool.Marked t := by
  have hne : pool.tickSpacing ≠ 0 := by omega
  have hmarked : ∀ i, pool.Marked (i * pool.tickSpacing) ↔
      WordSet.mem pool.tickBitmap i = true := by
    intro i
    unfold Marked
    rw [Int.mul_ediv_cancel _ hne]
    exact and_iff_right (Int.dvd_mul_left _ _)
  have hrange : ∀ w ∈ tickWords pool.tickSpacing, -32768 ≤ w ∧ w < 32768 := by
    intro w hw
    rw [mem_tickWords] at hw
    have := words_range hs
    omega
  have hmembers := bits_eq_members pool.tickBitmap _ hrange
  refine ⟨(WordSet.members pool.tickBitmap (tickWords pool.tickSpacing)).map (· * pool.tickSpacing),
    ?_, fun t => ?_⟩
  · rw [← hmembers, List.map_map]
    refine mapM_eq_ok fun bit hbit => ?_
    have hmem : bit.1 * 256 + (bit.2 : Int) ∈
        WordSet.members pool.tickBitmap (tickWords pool.tickSpacing) := by
      rw [← hmembers]
      exact List.mem_map_of_mem hbit
    rw [WordSet.mem_members (by decide)] at hmem
    obtain ⟨hlo, hhi⟩ := hvalid _ ((hmarked _).mpr hmem.1)
    have hindex := hrange _ hmem.2
    unfold MIN_TICK at hlo
    unfold MAX_TICK at hhi
    dsimp only
    rw [BuildProfile.signed_of_range (by omega) (by omega), ok_bind,
      BuildProfile.signed_of_range (by omega) (by omega), ok_bind, i24FromStr,
      if_pos ⟨by omega, by omega⟩]
    rfl
  · rw [List.mem_map]
    constructor
    · rintro ⟨i, hi, rfl⟩
      rw [WordSet.mem_members (by decide)] at hi
      exact (hmarked i).mpr hi.1
    · intro ht
      have hmul : t / pool.tickSpacing * pool.tickSpacing = t := Int.ediv_mul_cancel ht.1
      refine ⟨_, ?_, hmul⟩
      rw [WordSet.mem_members (by decide), mem_tickWords]
      obtain ⟨hlo, hhi⟩ := hvalid t ht
      rw [← hmul] at hlo hhi
      exact ⟨ht.2, word_between hs hlo hhi⟩

end UniswapV3Pool

namespace UniswapV3Factory

open GetUniswapV3PoolSlot0BatchRequest (slot0Data)

variable {chain : V3Chain} {net : Network} {pools : List UniswapV3Pool}

/-- The groups ask for the marked ticks of the pools, and for no others. -/
theorem tickDataGroups_of_valid (prof : BuildProfile)
    (hspacing : ∀ pool ∈ pools, 1 ≤ pool.tickSpacing)
    (hvalid : ∀ pool ∈ pools, ∀ t, pool.Marked t → MIN_TICK ≤ t ∧ t ≤ MAX_TICK) :
    ∃ groups, tickDataGroups prof pools = .ok groups ∧
      (∀ info ∈ groups.flatten, ∃ pool ∈ pools, info.pool = pool.address) ∧
      ∀ a t, (a, t) ∈ requested groups.flatten ↔
        ∃ pool ∈ pools, pool.address = a ∧ pool.Marked t := by
  have hticks : ∀ pool ∈ pools, ∃ ticks, pool.initializedTicks prof = .ok ticks ∧
      ∀ t, t ∈ ticks ↔ pool.Marked t := fun pool hpool =>
    UniswapV3Pool.initializedTicks_of_valid (hspacing pool hpool) (hvalid pool hpool) prof
  have hread : pools.mapM (fun pool => do
      let initializedTicks ← pool.initializedTicks prof
      return (pool.address, initializedTicks)) =
      (.ok (pools.map fun pool =>
        (pool.address, (pool.initializedTicks prof).toOption.getD [])) : Outcome AMMError _) := by
    refine mapM_eq_ok fun pool hpool => ?_
    obtain ⟨ticks, hok, -⟩ := hticks pool hpool
    rw [hok]
    rfl
  obtain ⟨new, hreq, hknown, hnew, -⟩ :=
    TickBatching.foldl_drain_spec (poolTicks prof pools) TickBatching.new
  let batching := (poolTicks prof pools).foldl (fun s entry => s.drain entry.1 entry.2)
    TickBatching.new
  have hflatten : batching.groups.flatten = new := by
    rw [TickBatching.groups_flatten, hreq]
    rfl
  refine ⟨batching.groups, ?_, ?_, ?_⟩
  · unfold tickDataGroups
    rw [hread]
    rfl
  · rw [hflatten]
    intro info hinfo
    obtain ⟨entry, hentry, heq⟩ := hknown info hinfo
    obtain ⟨pool, hpool, rfl⟩ := List.mem_map.mp (List.mem_of_mem_filter hentry)
    exact ⟨pool, hpool, heq⟩
  · rw [hflatten, hnew, poolTicks, flatMap_filter_nonempty, List.flatMap_map]
    intro a t
    rw [List.mem_flatMap]
    refine exists_congr fun pool => and_congr_right fun hpool => ?_
    obtain ⟨ticks, hok, hmem⟩ := hticks pool hpool
    rw [hok, List.mem_map, ← hmem]
    constructor
    · rintro ⟨u, hu, heq⟩
      cases heq
      exact ⟨rfl, hu⟩
    · rintro ⟨rfl, ht⟩
      exact ⟨t, ht, rfl⟩

/-- One response after the other, or all of them. -/
theorem foldlM_insertTickData
    (responses : List (List TickDataInfo × List (List (Bool × Nat × Int))))
    (set : HashMap Address UniswapV3Pool) :
    responses.foldlM (fun set response => insertTickData set [response]) set =
      insertTickData set responses := by
  unfold insertTickData
  simp only [List.foldlM_cons, List.foldlM_nil, bind_pure]

/-- **The ticks after the call**: those that the bitmap marks over those there were. -/
theorem syncTickData_eq (hanswered : ∀ k, net.answered k = true) (prof : BuildProfile)
    (hnodup : (pools.map (·.address)).Nodup)
    (hspacing : ∀ pool ∈ pools, 1 ≤ pool.tickSpacing)
    (hvalid : ∀ pool ∈ pools, ∀ t, pool.Marked t → MIN_TICK ≤ t ∧ t ≤ MAX_TICK) :
    ∃ ticks : UniswapV3Pool → HashMap Int Info,
      syncTickData net prof chain pools =
        .ok (pools.map fun pool => { pool with ticks := ticks pool }) ∧
      ∀ pool ∈ pools, ∀ t,
        (pool.Marked t → (ticks pool).lookup t = some (chain.ticks pool.address t)) ∧
        (¬ pool.Marked t → (ticks pool).lookup t = pool.ticks.lookup t) := by
  obtain ⟨groups, hgroups, hknown, hrequested⟩ := tickDataGroups_of_valid prof hspacing hvalid
  obtain ⟨ws, hperm, hfold⟩ := net.foldlM_calls (.err ())
    (fun group => .ok (group, GetUniswapV3PoolTickDataBatchRequest.constructor chain.ticks group))
    (fun group => (group, GetUniswapV3PoolTickDataBatchRequest.constructor chain.ticks group))
    groups hanswered (fun _ _ => rfl)
    (fun (set : HashMap Address UniswapV3Pool) response => anyError (insertTickData set [response]))
  let responses := ws.map fun group =>
    (group, GetUniswapV3PoolTickDataBatchRequest.constructor chain.ticks group)
  have hfirst : responses.map (·.1) = ws := by
    rw [List.map_map]
    exact List.map_id ws
  have hinfos : ∀ info, info ∈ (responses.map (·.1)).flatten ↔ info ∈ groups.flatten := by
    intro info
    rw [hfirst]
    exact hperm.flatten.mem_iff
  obtain ⟨set, hset, hstored⟩ := @insertTickData_spec chain.ticks (poolSet pools) responses
    (by
      intro response hmem
      obtain ⟨group, -, rfl⟩ := List.mem_map.mp hmem
      rfl)
    (by
      intro info hinfo
      obtain ⟨pool, hpool, heq⟩ := hknown info ((hinfos info).mp hinfo)
      rw [heq, lookup_poolSet_of_nodup hnodup hpool]
      rfl)
  have hasked : ∀ pool ∈ pools, ∀ t,
      (pool.address, t) ∈ requested (responses.map (·.1)).flatten ↔ pool.Marked t := by
    intro pool hpool t
    have hperm' : (pool.address, t) ∈ requested (responses.map (·.1)).flatten ↔
        (pool.address, t) ∈ requested groups.flatten := by
      unfold requested
      rw [List.mem_flatMap, List.mem_flatMap]
      exact exists_congr fun info => and_congr_left fun _ => hinfos info
    rw [hperm', hrequested]
    constructor
    · rintro ⟨other, hother, heq, ht⟩
      rwa [List.inj_on_of_nodup_map hnodup hother hpool heq] at ht
    · exact fun ht => ⟨pool, hpool, rfl, ht⟩
  refine ⟨fun pool => ((set.lookup pool.address).getD pool).ticks, ?_, fun pool hpool t => ?_⟩
  · have hrun : ws.foldlM (fun set group => anyError (insertTickData set
        [(group, GetUniswapV3PoolTickDataBatchRequest.constructor chain.ticks group)]))
          (poolSet pools) = .ok set := by
      rw [foldlM_anyError]
      have hone := foldlM_insertTickData responses (poolSet pools)
      rw [List.foldlM_map] at hone
      rw [hone, hset]
      rfl
    have hok : anyError (tickDataGroups prof pools) = .ok groups := congrArg anyError hgroups
    unfold syncTickData
    rw [hok, ok_bind]
    dsimp only
    rw [hfold, hrun, ok_bind, fromPoolSet_of_nodup hnodup]
    refine congrArg Except.ok (List.map_congr_left fun pool hpool => ?_)
    obtain ⟨m, hm, -⟩ := hstored.known _ _ (lookup_poolSet_of_nodup hnodup hpool)
    rw [hm]
    rfl
  · obtain ⟨m, hm, hlookup⟩ := hstored.known _ _ (lookup_poolSet_of_nodup hnodup hpool)
    dsimp only
    rw [hm, Option.getD_some, hlookup]
    exact ⟨fun ht => if_pos ((hasked pool hpool t).mpr ht),
      fun ht => if_neg fun hmem => ht ((hasked pool hpool t).mp hmem)⟩

/-! ## The pools after a synchronisation -/

/-- The chain's bitmap of the pool marks the tick. -/
def Initialized (chain : V3Chain) (pool : UniswapV3Pool) (t : Int) : Prop :=
  pool.tickSpacing ∣ t ∧
    (chain.tickBitmap pool.address (t / pool.tickSpacing / 256)).getLsbD
      (t / pool.tickSpacing % 256).toNat = true

/-- The pool with its price, its liquidity and its decimals from the chain. -/
def readState (chain : V3Chain) (pool : UniswapV3Pool) : UniswapV3Pool :=
  readDecimals chain (readSlot0 chain pool)

/-- What a pool became holds what the chain has of it, and nothing else. -/
structure Mirrors (chain : V3Chain) (pool synced : UniswapV3Pool) : Prop where
  state : synced =
    { readState chain pool with tickBitmap := synced.tickBitmap, ticks := synced.ticks }
  word : ∀ w, chain.tickBitmap pool.address w ≠ 0 →
    synced.tickBitmap.lookup w = some (chain.tickBitmap pool.address w)
  noWord : ∀ w, chain.tickBitmap pool.address w = 0 → synced.tickBitmap.lookup w = none
  tick : ∀ t, Initialized chain pool t →
    synced.ticks.lookup t = some (chain.ticks pool.address t)
  noTick : ∀ t, ¬ Initialized chain pool t → synced.ticks.lookup t = none

/-- A pool with the chain's words marks the chain's ticks. -/
theorem marked_iff {pool synced : UniswapV3Pool} (hspacing : synced.tickSpacing = pool.tickSpacing)
    (hlookup : ∀ w, synced.tickBitmap.lookup w =
      if chain.tickBitmap pool.address w = 0 then none else some (chain.tickBitmap pool.address w))
    (t : Int) : synced.Marked t ↔ Initialized chain pool t := by
  have hword : ∀ w, (synced.tickBitmap.lookup w).getD 0#256 = chain.tickBitmap pool.address w := by
    intro w
    rw [hlookup]
    split
    · rename_i hzero
      exact hzero.symm
    · rfl
  unfold UniswapV3Pool.Marked Initialized WordSet.mem
  rw [hspacing, hword]
  rfl

theorem Initialized.valid {pool : UniswapV3Pool} {t : Int} (h : Initialized chain pool t)
    (hbounds : chain.InBounds pool) : MIN_TICK ≤ t ∧ t ≤ MAX_TICK := by
  have hindex : t / pool.tickSpacing / 256 * 256 + ((t / pool.tickSpacing % 256).toNat : Int) =
      t / pool.tickSpacing := by omega
  have hvalid := hbounds _ _ h.2
  rwa [hindex, Int.ediv_mul_cancel h.1] at hvalid

/-- A new pool with the chain's words, and with the chain's entries at the ticks that they mark. -/
theorem mirrors_of_lookups {pool : UniswapV3Pool} {bitmap : HashMap Int U256}
    {ticks : HashMap Int Info} (hnew : pool.ticks = ∅)
    (hwords : ∀ w, bitmap.lookup w =
      if chain.tickBitmap pool.address w = 0 then none else some (chain.tickBitmap pool.address w))
    (hentries : ∀ t,
      (Initialized chain pool t → ticks.lookup t = some (chain.ticks pool.address t)) ∧
      (¬ Initialized chain pool t → ticks.lookup t = pool.ticks.lookup t)) :
    Mirrors chain pool { readState chain pool with tickBitmap := bitmap, ticks := ticks } where
  state := rfl
  word := fun w hw => (hwords w).trans (if_neg hw)
  noWord := fun w hw => (hwords w).trans (if_pos hw)
  tick := fun t ht => (hentries t).1 ht
  noTick := by
    intro t ht
    rw [(hentries t).2 ht, hnew, AList.lookup_empty]

/-- What each pool becomes when all calls are answered. -/
theorem syncAllPools_eq (net : Networks) {hashSet : List Address → List Address}
    (prof : BuildProfile) {fuel : Nat} (chain : V3Chain) (pools : List UniswapV3Pool)
    (hslot0 : ∀ k, net.slot0.answered k = true) (hdecimals : ∀ k, net.decimals.answered k = true)
    (hbitmaps : ∀ k, net.tickBitmaps.answered k = true)
    (hticks : ∀ k, net.tickData.answered k = true) (hset : ∀ l a, a ∈ hashSet l ↔ a ∈ l)
    (hfuel : 6932 ≤ fuel) (hnodup : (pools.map (·.address)).Nodup)
    (hnew : ∀ pool ∈ pools, pool.tickBitmap = ∅ ∧ pool.ticks = ∅)
    (hspacing : ∀ pool ∈ pools, 1 ≤ pool.tickSpacing)
    (hslots : ∀ pool ∈ pools, (slot0Data chain pool.address).isSome)
    (hbounds : ∀ pool ∈ pools, chain.InBounds pool)
    (hkept : LastWordsKept ((pools.filter fun pool => isLive (readState chain pool)).map
      fun pool => (pool.address, pool.tickSpacing)))
    (hfits : ∀ groups, tickBitmapGroups fuel
        (pools.filter fun pool => isLive (readState chain pool)) = some groups →
      ∀ info ∈ groups.flatten, Fits chain info) :
    ∃ sync : UniswapV3Pool → UniswapV3Pool,
      syncAllPools net hashSet prof fuel chain pools =
        some (.ok ((pools.filter fun pool => isLive (readState chain pool)).map sync)) ∧
      ∀ pool ∈ pools.filter fun pool => isLive (readState chain pool),
        Mirrors chain pool (sync pool) := by
  let live := pools.filter fun pool => isLive (readState chain pool)
  have hlive : ∀ pool ∈ live, pool ∈ pools := fun pool hpool => List.mem_of_mem_filter hpool
  have hstates : (pools.map (readState chain)).filter isLive = live.map (readState chain) :=
    List.filter_map
  have haddresses : (live.map (readState chain)).map (·.address) = live.map (·.address) := by
    rw [List.map_map]
    rfl
  have hnodup' : (live.map (·.address)).Nodup :=
    hnodup.sublist (List.filter_sublist.map _)
  obtain ⟨bitmap, hrunBitmaps, hlookup⟩ := @syncTickBitmaps_eq chain net.tickBitmaps
    (live.map (readState chain)) hbitmaps fuel hfuel (haddresses ▸ hnodup')
    (List.forall_mem_map.mpr fun pool hpool => hspacing pool (hlive pool hpool))
    (List.forall_mem_map.mpr fun pool hpool => hbounds pool (hlive pool hpool))
    (by rw [List.map_map]; exact hkept)
    (by
      intro groups hgroups
      refine hfits groups ?_
      unfold tickBitmapGroups at hgroups ⊢
      rw [List.map_map] at hgroups
      exact hgroups)
  -- the words of a pool before its ticks are read
  have hwords : ∀ pool ∈ live, ∀ w, (bitmap (readState chain pool)).lookup w =
      if chain.tickBitmap pool.address w = 0 then none
      else some (chain.tickBitmap pool.address w) := by
    intro pool hpool w
    rw [hlookup _ (List.mem_map_of_mem hpool)]
    change (if _ then pool.tickBitmap.lookup w else _) = _
    rw [(hnew pool (hlive pool hpool)).1, AList.lookup_empty]
    rfl
  let withWords : UniswapV3Pool → UniswapV3Pool := fun pool =>
    { readState chain pool with tickBitmap := bitmap (readState chain pool) }
  have hmarked : ∀ pool ∈ live, ∀ t, (withWords pool).Marked t ↔ Initialized chain pool t :=
    fun pool hpool => marked_iff rfl (hwords pool hpool)
  have hwithWords : (live.map (readState chain)).map
      (fun pool => { pool with tickBitmap := bitmap pool }) = live.map withWords := by
    rw [List.map_map]
    rfl
  have haddresses' : (live.map withWords).map (·.address) = live.map (·.address) := by
    rw [List.map_map]
    rfl
  obtain ⟨ticks, hrunTicks, hentries⟩ := @syncTickData_eq chain net.tickData (live.map withWords)
    hticks prof (haddresses' ▸ hnodup')
    (List.forall_mem_map.mpr fun pool hpool => hspacing pool (hlive pool hpool))
    (List.forall_mem_map.mpr fun pool hpool t ht =>
      ((hmarked pool hpool t).mp ht).valid (hbounds pool (hlive pool hpool)))
  refine ⟨fun pool => { withWords pool with ticks := ticks (withWords pool) }, ?_, ?_⟩
  · unfold syncAllPools
    rw [syncSlot0_eq hslot0 hslots]
    dsimp only
    rw [syncTokenDecimals_eq hdecimals hset, List.map_map]
    dsimp only
    rw [show readDecimals chain ∘ readSlot0 chain = readState chain from rfl, hstates, hrunBitmaps]
    dsimp only
    rw [hwithWords, hrunTicks, List.map_map]
    rfl
  · intro pool hpool
    have hentry := hentries _ (List.mem_map_of_mem hpool)
    refine mirrors_of_lookups (hnew pool (hlive pool hpool)).2 (hwords pool hpool) fun t => ?_
    rw [← hmarked pool hpool t]
    exact hentry t

/-- **The whole synchronisation of new pools**, when all calls are answered: the pools of which the
chain has liquidity and decimals mirror it, in whatever order the calls are answered, and the others
are gone. -/
theorem syncAllPools_mirrors (net : Networks) {hashSet : List Address → List Address}
    (prof : BuildProfile) {fuel : Nat} (chain : V3Chain) (pools : List UniswapV3Pool)
    (hslot0 : ∀ k, net.slot0.answered k = true) (hdecimals : ∀ k, net.decimals.answered k = true)
    (hbitmaps : ∀ k, net.tickBitmaps.answered k = true)
    (hticks : ∀ k, net.tickData.answered k = true) (hset : ∀ l a, a ∈ hashSet l ↔ a ∈ l)
    (hfuel : 6932 ≤ fuel) (hnodup : (pools.map (·.address)).Nodup)
    (hnew : ∀ pool ∈ pools, pool.tickBitmap = ∅ ∧ pool.ticks = ∅)
    (hspacing : ∀ pool ∈ pools, 1 ≤ pool.tickSpacing)
    (hslots : ∀ pool ∈ pools, (slot0Data chain pool.address).isSome)
    (hbounds : ∀ pool ∈ pools, chain.InBounds pool)
    (hkept : LastWordsKept ((pools.filter fun pool => isLive (readState chain pool)).map
      fun pool => (pool.address, pool.tickSpacing)))
    (hfits : ∀ groups, tickBitmapGroups fuel
        (pools.filter fun pool => isLive (readState chain pool)) = some groups →
      ∀ info ∈ groups.flatten, Fits chain info) :
    ∃ synced, syncAllPools net hashSet prof fuel chain pools = some (.ok synced) ∧
      List.Forall₂ (Mirrors chain) (pools.filter fun pool => isLive (readState chain pool))
        synced := by
  obtain ⟨sync, hsync, hmirrors⟩ := syncAllPools_eq net prof chain pools hslot0 hdecimals hbitmaps
    hticks hset hfuel hnodup hnew hspacing hslots hbounds hkept hfits
  refine ⟨_, hsync, ?_⟩
  rw [List.forall₂_map_right_iff, List.forall₂_same]
  exact hmirrors

/-- A chain whose pools have all one price, and one tick. -/
def oneTickChain : V3Chain where
  liquidity := fun _ => some 5
  slot0 := fun _ => some (1, 0)
  tickBitmap := fun _ w => if w = 0 then 1 else 0
  ticks := fun _ _ => ⟨7, 7, true⟩
  hasCode := fun _ => true
  decimals := fun _ => some 18

/-- Answers that come last first. -/
def reversed : Networks :=
  let net : Network := ⟨fun _ => true, List.reverse, List.reverse_perm⟩
  ⟨net, net, net, net⟩

/-- A pool that nothing is known of but its spacing. -/
def newPool : UniswapV3Pool := { UniswapV3Pool.new 1 with tickSpacing := 60 }

theorem filter_newPool (p : UniswapV3Pool → Bool) :
    [newPool].filter p = [newPool] ∨ [newPool].filter p = [] := by
  cases hp : p newPool with
  | true => exact .inl (List.filter_cons_of_pos hp)
  | false => exact .inr (List.filter_cons_of_neg (by simp [hp]))

theorem newPool_lastWordsKept (p : UniswapV3Pool → Bool) :
    LastWordsKept (([newPool].filter p).map fun pool => (pool.address, pool.tickSpacing)) := by
  rcases filter_newPool p with heq | heq
  · rw [heq, lastWordsKept_iff_of_nodup (by decide) (by decide)]
    intro i entry hentry
    have hone : i = 0 ∧ entry = (1, 60) := by
      cases i with
      | zero => exact ⟨rfl, (Option.some.inj hentry).symm⟩
      | succ i => cases hentry
    obtain ⟨rfl, rfl⟩ := hone
    decide
  · rw [heq, lastWordsKept_iff_of_nodup (by decide) (by decide)]
    exact fun i entry hentry => by cases hentry

theorem newPool_groups {p : UniswapV3Pool → Bool} {groups : List (List TickBitmapInfo)}
    (hgroups : tickBitmapGroups 6932 ([newPool].filter p) = some groups) :
    ∀ info ∈ groups.flatten, info = ⟨1, -58, 57⟩ := by
  rcases filter_newPool p with heq | heq
  · rw [heq] at hgroups
    obtain rfl : groups = [[⟨1, -58, 57⟩]] := Option.some.inj (hgroups.symm.trans (by decide))
    exact fun info hinfo => List.mem_singleton.mp hinfo
  · rw [heq] at hgroups
    obtain rfl : groups = [] := Option.some.inj (hgroups.symm.trans (by decide))
    exact fun info hinfo => absurd hinfo List.not_mem_nil

theorem syncAllPools_mirrors_oneTickChain :
    ∃ synced, syncAllPools reversed List.reverse { overflowChecks := true } 6932 oneTickChain
        [newPool] = some (.ok synced) ∧
      List.Forall₂ (Mirrors oneTickChain)
        ([newPool].filter fun pool => isLive (readState oneTickChain pool)) synced :=
  syncAllPools_mirrors reversed { overflowChecks := true } oneTickChain [newPool]
    (fun _ => rfl) (fun _ => rfl) (fun _ => rfl) (fun _ => rfl) (fun _ _ => List.mem_reverse)
    (Nat.le_refl 6932) (by simp) (List.forall_mem_singleton.mpr ⟨rfl, rfl⟩)
    (List.forall_mem_singleton.mpr (by decide)) (List.forall_mem_singleton.mpr rfl)
    (by
      refine List.forall_mem_singleton.mpr fun w i hset => ?_
      change (if w = 0 then 1#256 else 0).getLsbD i = true at hset
      split at hset
      · rename_i hw
        subst hw
        rw [BitVec.getLsbD_one, Bool.and_eq_true, decide_eq_true_eq, decide_eq_true_eq] at hset
        obtain rfl := hset.2
        exact ⟨by decide, by decide⟩
      · simp at hset)
    (newPool_lastWordsKept _)
    (by
      intro groups hgroups info hinfo
      rw [newPool_groups hgroups info hinfo]
      unfold Fits
      decide)

end UniswapV3Factory

end ArbitrageBot
