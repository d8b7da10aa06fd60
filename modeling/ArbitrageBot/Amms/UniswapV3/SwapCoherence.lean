import ArbitrageBot.Amms.UniswapV3.SwapSpec

/-!
# Swaps keep Uniswap V3 pools coherent

At every head of the swap loop the running liquidity is the prefix sum of the net liquidities at
the running tick: a round crosses a tick, which adds or removes exactly its net liquidity, or stays
in a gap of the bitmap, where no position has a bound.
-/

namespace ArbitrageBot

open Lib

namespace UniswapV3Pool

variable {math : UniswapV3Math} {prof : BuildProfile} {pool : UniswapV3Pool} {M : Multiset Position}
  {zeroForOne : Bool} {s s' : CurrentState}

/-! ## Crossing a tick -/

/-- Crossing a tick with no overflow adds the net liquidity, or its negation downwards. -/
theorem crossTick_eq {liquidity : Nat} {liquidityNet directed : Int}
    (hdir : directed = if zeroForOne then -liquidityNet else liquidityNet)
    (h0 : -2 ^ 127 < liquidityNet) (h1 : liquidityNet < 2 ^ 127)
    (h2 : 0 ≤ liquidity + directed) (h3 : liquidity + directed < 2 ^ 128) :
    crossTick prof liquidity liquidityNet zeroForOne = .ok (liquidity + directed).toNat := by
  have hnet : directedNet prof liquidityNet zeroForOne = .ok directed := by
    unfold directedNet
    cases zeroForOne with
    | false => rw [hdir]; rfl
    | true => rw [hdir]; exact BuildProfile.signed_of_range (by omega) (by omega)
  have hd : -2 ^ 127 < directed ∧ directed < 2 ^ 127 := by
    cases zeroForOne <;> simp only [Bool.false_eq_true, if_false, if_true] at hdir <;> omega
  unfold crossTick
  rw [hnet, ok_bind]
  by_cases hneg : directed < 0
  · have hdec : prof.signed (ε := AMMError) 128 (-directed) = .ok (-directed) :=
      BuildProfile.signed_of_range (by omega) (by omega)
    have hu : ((asU128 (-directed) : Nat) : Int) = -directed := by
      rw [asU128_of_range (by omega) (by omega)]
      omega
    rw [if_pos hneg, hdec, ok_bind, if_neg (by omega), hu,
      BuildProfile.unsigned_of_range (by omega) (by omega)]
    congr 2
    omega
  · have hu : ((asU128 directed : Nat) : Int) = directed := by
      rw [asU128_of_range (by omega) (by omega)]
      omega
    rw [if_neg hneg, hu, BuildProfile.unsigned_of_range (by omega) (by omega)]

theorem Coherent.lookup_net (h : Coherent pool M) (t : Int) :
    ((pool.ticks.lookup t).map (·.liquidityNet)).getD 0 = net M t := by
  cases hl : pool.ticks.lookup t with
  | some info =>
    exact h.net_eq t info hl
  | none =>
    have hg : ¬ 0 < gross M t := by
      intro hpos
      obtain ⟨info, hi⟩ := (h.key_iff t).mpr hpos
      rw [hl] at hi
      cases hi
    exact (net_eq_zero (by omega)).symm

/-- The bit of a compressed tick tells whether a position ends there. -/
theorem Coherent.mem_iff (h : Coherent pool M) (hs : 1 ≤ pool.tickSpacing) (n : Int) :
    WordSet.mem pool.tickBitmap n = true ↔ 0 < gross M (n * pool.tickSpacing) := by
  rw [← h.bit_iff _ (Int.dvd_mul_left _ _), tickBit_eq, Int.mul_tdiv_cancel _ (by omega)]

/-- Where no bit is set, no position ends. -/
theorem Coherent.gross_eq_zero (h : Coherent pool M) (hs : 1 ≤ pool.tickSpacing) {t : Int}
    (hbit : ∀ n, t = n * pool.tickSpacing → WordSet.mem pool.tickBitmap n = false) :
    gross M t = 0 := by
  by_contra hpos
  obtain ⟨p, hp, ht⟩ := exists_end_of_gross_pos (Nat.pos_of_ne_zero hpos)
  have hb := h.bounds p hp
  have hdvd : pool.tickSpacing ∣ t := by
    rcases ht with rfl | rfl
    · exact hb.dvdLower
    · exact hb.dvdUpper
  obtain ⟨n, rfl⟩ := hdvd
  rw [Int.mul_comm] at hpos hbit
  have hmem := (h.mem_iff hs n).mpr (Nat.pos_of_ne_zero hpos)
  rw [hbit n rfl] at hmem
  cases hmem

/-- Reaching the tick `n * tickSpacing`: the liquidity changes from one side of it to the other. -/
theorem Coherent.reachTick (h : Coherent pool M) (hs : 1 ≤ pool.tickSpacing) (n : Int)
    {before after : Int} (hside : if zeroForOne then before = n * pool.tickSpacing ∧
      after = n * pool.tickSpacing - 1 else before = n * pool.tickSpacing - 1 ∧
      after = n * pool.tickSpacing) :
    pool.reachTick prof zeroForOne (cover M before) (n * pool.tickSpacing)
      (WordSet.mem pool.tickBitmap n) = .ok (cover M after) := by
  have hstep := cover_sub_one (fun p hp => (h.bounds p hp).lt.le) (n * pool.tickSpacing)
  have hnet := natAbs_net_le_gross (M := M) (n * pool.tickSpacing)
  have hgross := gross_le_total (M := M) (n * pool.tickSpacing)
  have htotal := h.total_lt
  have hafter := cover_le_total (M := M) after
  have hsum : (cover M before : Int) + (if zeroForOne then -net M (n * pool.tickSpacing)
      else net M (n * pool.tickSpacing)) = cover M after := by
    cases zeroForOne <;> simp only [Bool.false_eq_true, if_false, if_true] at hside ⊢ <;>
      obtain ⟨rfl, rfl⟩ := hside <;> omega
  unfold UniswapV3Pool.reachTick
  cases hmem : WordSet.mem pool.tickBitmap n with
  | true =>
    rw [if_pos rfl, h.lookup_net, crossTick_eq rfl (by omega) (by omega) (by omega) (by omega),
      hsum]
    rfl
  | false =>
    have hzero : net M (n * pool.tickSpacing) = 0 := by
      refine net_eq_zero ?_
      by_contra hpos
      have := (h.mem_iff hs n).mpr (Nat.pos_of_ne_zero hpos)
      rw [hmem] at this
      cases this
    rw [hzero, Int.neg_zero, ite_self, Int.add_zero] at hsum
    rw [if_neg Bool.false_ne_true, Int.ofNat_inj.mp hsum]

/-- From the next tick down up to the tick the liquidity is the same. -/
theorem Coherent.cover_gap_down (h : Coherent pool M) (hs : 1 ≤ pool.tickSpacing) {n tick x : Int}
    (hgap : ∀ i, n < i → i * pool.tickSpacing ≤ tick → WordSet.mem pool.tickBitmap i = false)
    (hx : n * pool.tickSpacing ≤ x) (hxs : x ≤ tick) : cover M x = cover M tick := by
  refine cover_eq_of_gap hxs fun t h1 h2 => h.gross_eq_zero hs ?_
  rintro i rfl
  have hlt : n * pool.tickSpacing < i * pool.tickSpacing := by omega
  exact hgap i (Int.lt_of_mul_lt_mul_right hlt (by omega)) h2

/-- From the tick up to the next tick (excluded) the liquidity is the same. -/
theorem Coherent.cover_gap_up (h : Coherent pool M) (hs : 1 ≤ pool.tickSpacing) {n tick x : Int}
    (hgap : ∀ i, i < n → tick < i * pool.tickSpacing → WordSet.mem pool.tickBitmap i = false)
    (hx : tick ≤ x) (hxs : x < n * pool.tickSpacing) : cover M x = cover M tick := by
  refine (cover_eq_of_gap hx fun t h1 h2 => h.gross_eq_zero hs ?_).symm
  rintro i rfl
  have hlt : i * pool.tickSpacing < n * pool.tickSpacing := by omega
  exact hgap i (Int.lt_of_mul_lt_mul_right hlt (by omega)) h1

/-! ## The loop invariant -/

/-- A pool within the bounds of the Uniswap V3 contracts, at a price between the price limits that
fits its tick. -/
structure Swappable (math : UniswapV3Math) (pool : UniswapV3Pool) : Prop where
  spacing_pos : 1 ≤ pool.tickSpacing
  spacing_le : pool.tickSpacing ≤ 16383
  fee_lt : pool.fee < 10 ^ 6
  priced : Priced math pool.sqrtPrice pool.tick

/-- What holds at every head of the loop. -/
structure SwapInv (math : UniswapV3Math) (M : Multiset Position) (s : CurrentState) : Prop where
  priced : Priced math s.sqrtPriceX96 s.tick
  remaining : 0 ≤ s.amountSpecifiedRemaining.toInt
  liquidity : s.liquidity = cover M s.tick

section Round

variable (hmath : math.Spec) (h : Coherent pool M) (hpool : Swappable math pool)
include hmath h hpool

/-- **A round keeps the running liquidity equal to the liquidity over the running tick.** -/
theorem SwapInv.round (hinv : SwapInv math M s)
    (hround : pool.swapRound math prof zeroForOne s = .ok s') : SwapInv math M s' := by
  have hs := hpool.spacing_pos
  cases zeroForOne with
  | true =>
    obtain ⟨n, hr⟩ := swapRound_down hmath hs hpool.spacing_le hpool.fee_lt hinv.priced
      hround
    refine ⟨hr.priced, hr.remaining hinv.remaining, ?_⟩
    rcases hr.move with ⟨htick, hreach⟩ | ⟨hlo, hhi, hliq⟩
    · rw [hinv.liquidity, ← h.cover_gap_down hs hr.gap (Int.le_refl _) hr.next_le,
        h.reachTick hs n (by exact ⟨rfl, htick⟩)] at hreach
      exact (Except.ok.inj hreach).symm
    · rw [h.cover_gap_down hs hr.gap hlo hhi, hliq, hinv.liquidity]
  | false =>
    obtain ⟨n, hr⟩ := swapRound_up hmath hs hpool.spacing_le hpool.fee_lt hinv.priced
      hround
    refine ⟨hr.priced, hr.remaining hinv.remaining, ?_⟩
    rcases hr.move with ⟨htick, hreach⟩ | ⟨hlo, hhi, hliq⟩
    · have hlt := hr.lt_next
      rw [hinv.liquidity, ← h.cover_gap_up hs hr.gap (x := n * pool.tickSpacing - 1) (by omega)
        (by omega), h.reachTick hs n (by exact ⟨rfl, htick⟩)] at hreach
      exact (Except.ok.inj hreach).symm
    · rw [h.cover_gap_up hs hr.gap hlo hhi, hliq, hinv.liquidity]

/-- No round removes more liquidity than there is. -/
theorem SwapInv.round_ne_underflow (hinv : SwapInv math M s) :
    pool.swapRound math prof zeroForOne s ≠
      .error (.err (.uniswapV3Error .liquidityUnderflow)) := by
  intro hround
  have hs := hpool.spacing_pos
  obtain ⟨tickNext, initialized, sqrtPriceNext, amountIn, amountOut, feeAmount, hnext, hratio,
    hstep, hreach⟩ := swapRound_underflow hround
  cases zeroForOne with
  | true =>
    obtain ⟨-, n, hst⟩ := stepDown hmath hs hpool.spacing_le hpool.fee_lt hinv.priced
      hnext hratio hstep
    rw [(hst.reached rfl).1, hst.initialized_eq, hinv.liquidity,
      ← h.cover_gap_down hs hst.gap (Int.le_refl _) hst.next_le,
      h.reachTick hs n (by exact ⟨rfl, rfl⟩)] at hreach
    cases hreach
  | false =>
    obtain ⟨-, n, hst⟩ := stepUp hmath hs hpool.spacing_le hpool.fee_lt hinv.priced
      hnext hratio hstep
    have hlt := hst.lt_next
    rw [(hst.reached rfl).1, hst.initialized_eq, hinv.liquidity,
      ← h.cover_gap_up hs hst.gap (x := n * pool.tickSpacing - 1) (by omega) (by omega),
      h.reachTick hs n (by exact ⟨rfl, rfl⟩)] at hreach
    cases hreach

/-- The invariant holds at every head of the loop. -/
theorem SwapInv.heads {amountIn : U256} (hamount : amountIn.toNat < 2 ^ 255)
    (hheads : Loop.Heads (swapGuard zeroForOne) (pool.swapRound math prof zeroForOne)
      (pool.initialState amountIn) s) : SwapInv math M s :=
  hheads.inv ⟨hpool.priced, (toInt_nonneg_iff amountIn).mpr hamount, h.liquidity_eq_cover⟩
    fun _ _ hinv _ hround => hinv.round hmath h hpool hround

end Round

/-- **A swap keeps a coherent pool coherent.** At every head of the loop of `simulate_swap_mut` the
running liquidity is the prefix sum at the running tick, no round underflows, and the pool left by
an `Ok` is coherent again and again at a price that fits its tick. -/
theorem simulateSwapMut_coherent (hmath : math.Spec) (h : Coherent pool M)
    (hpool : Swappable math pool) {amountIn : U256} (hamount : amountIn.toNat < 2 ^ 255)
    (prof : BuildProfile) (baseToken : Address) :
    (∀ s, Loop.Heads (swapGuard (baseToken == pool.tokenA.address))
        (pool.swapRound math prof (baseToken == pool.tokenA.address))
        (pool.initialState amountIn) s →
      (s.liquidity : Int) = pool.netUpTo s.tick ∧
      pool.swapRound math prof (baseToken == pool.tokenA.address) s ≠
        .error (.err (.uniswapV3Error .liquidityUnderflow))) ∧
    ∀ fuel result pool', pool.simulateSwapMut math prof fuel baseToken amountIn =
        some (result, pool') →
      result ≠ .error (.err (.uniswapV3Error .liquidityUnderflow)) ∧
      ∀ amountOut, result = .ok amountOut → Coherent pool' M ∧ Swappable math pool' := by
  generalize hz : (baseToken == pool.tokenA.address) = zeroForOne
  have hheads : ∀ s, Loop.Heads (swapGuard zeroForOne) (pool.swapRound math prof zeroForOne)
      (pool.initialState amountIn) s → SwapInv math M s :=
    fun s hs => SwapInv.heads hmath h hpool hamount hs
  refine ⟨fun s hs => ⟨?_, (hheads s hs).round_ne_underflow hmath h hpool⟩, ?_⟩
  · rw [(hheads s hs).liquidity, h.table.netUpTo_eq fun p hp => (h.bounds p hp).lt.le]
  intro fuel result pool' hrun
  unfold simulateSwapMut at hrun
  by_cases hzero : amountIn = 0
  · rw [if_pos hzero] at hrun
    cases hrun
    refine ⟨?_, fun _ _ => ⟨h, hpool⟩⟩
    rintro ⟨⟩
  · rw [if_neg hzero, hz, Option.map_eq_some_iff] at hrun
    obtain ⟨r, hloop, hr⟩ := hrun
    rcases Loop.run_eq_some hloop with ⟨s, rfl, hs, -⟩ | ⟨s, e, rfl, hs, -, he⟩
    · have hinv := hheads s hs
      cases hr
      refine ⟨?_, fun _ _ => ⟨?_, hpool.spacing_pos, hpool.spacing_le, hpool.fee_lt, hinv.priced⟩⟩
      · unfold BuildProfile.negI256
        split <;> intro hr <;> cases hr
      · exact Coherent.ofTable ⟨h.table.view, h.table.bit, h.table.netZero⟩ h.bounds h.total_lt
          hinv.liquidity
    · cases hr
      refine ⟨?_, ?_⟩
      · rintro ⟨⟩
        exact (hheads s hs).round_ne_underflow hmath h hpool he
      · rintro _ ⟨⟩

/-- A pool at tick 0 and price one, with one position on each side of the price. -/
def twoSidedPool : UniswapV3Pool :=
  { UniswapV3Pool.new 11 with
    tokenA := ⟨1, 18⟩
    tokenB := ⟨2, 18⟩
    liquidity := 2 * 10 ^ 18
    sqrtPrice := 79228162514264337593543950336#256
    fee := 3000
    tickSpacing := 60
    tickBitmap := ((∅ : HashMap Int U256).insert (-1) (bitMask 255)).insert 0 3
    ticks := (((∅ : HashMap Int Info).insert (-60) ⟨10 ^ 18, 10 ^ 18, true⟩).insert 0
      ⟨3 * 10 ^ 18, 10 ^ 18, true⟩).insert 60 ⟨2 * 10 ^ 18, -2 * 10 ^ 18, true⟩ }

def twoSidedPositions : Multiset Position :=
  ⟨0, 60, 2 * 10 ^ 18⟩ ::ₘ ⟨-60, 0, 10 ^ 18⟩ ::ₘ 0

theorem coherent_twoSidedPool : Coherent twoSidedPool twoSidedPositions := by
  have hgross : ∀ t, gross twoSidedPositions t = if t = 60 then 2 * 10 ^ 18
      else if t = 0 then 3 * 10 ^ 18 else if t = -60 then 10 ^ 18 else 0 := by
    intro t
    simp only [twoSidedPositions, gross_cons, gross_zero, Segment.grossAt]
    split_ifs <;> omega
  have hnet : ∀ t, net twoSidedPositions t = if t = 60 then -2 * 10 ^ 18
      else if t = 0 then 10 ^ 18 else if t = -60 then 10 ^ 18 else 0 := by
    intro t
    simp only [twoSidedPositions, net_cons, net_zero, Segment.netAt]
    split_ifs <;> omega
  have hbitmap : twoSidedPool.tickBitmap =
      WordSet.flip (WordSet.flip (WordSet.flip ∅ (-1)) 0) 1 := rfl
  refine Coherent.ofTable ⟨?_, ?_, fun _ => net_eq_zero⟩ ?_ (by decide) (by decide)
  · intro t
    rw [hgross, hnet]
    simp only [tickView, twoSidedPool, HashMap.lookup_insert]
    split_ifs <;> simp_all
  · rintro t ⟨k, rfl⟩
    rw [tickBit_eq, hgross, hbitmap, Int.mul_tdiv_cancel_left _ (by decide)]
    have hempty : WordSet.mem (∅ : HashMap Int U256) k = false := by
      simp [WordSet.mem]
    have hspacing : twoSidedPool.tickSpacing = 60 := rfl
    have h60 : (60 * k = 60 ↔ k = 1) ∧ (60 * k = 0 ↔ k = 0) ∧ (60 * k = -60 ↔ k = -1) := by omega
    simp only [WordSet.mem_flip (show 0 < 256 by decide), hempty, Bool.false_xor, hspacing, h60.1,
      h60.2.1, h60.2.2]
    by_cases h1 : k = 1
    · subst h1
      decide
    · by_cases h0 : k = 0
      · subst h0
        decide
      · by_cases hm : k = -1
        · subst hm
          decide
        · simp [h1, h0, hm, Ne.symm h1, Ne.symm h0, Ne.symm hm]
  · intro p hp
    simp only [twoSidedPositions, Multiset.mem_cons, Multiset.notMem_zero, or_false] at hp
    rcases hp with rfl | rfl
    · exact ⟨by decide, by decide, by decide, by decide, by decide⟩
    · exact ⟨by decide, by decide, by decide, by decide, by decide⟩

theorem swappable_twoSidedPool : Swappable .sample twoSidedPool where
  spacing_pos := by decide
  spacing_le := by decide
  fee_lt := by decide
  priced := by
    refine ⟨by decide, by decide, by decide, by decide, fun ratio hr => ?_, fun ratio hr => ?_⟩
    · cases hr
      decide
    · cases hr
      decide

/-- The swap crosses tick 0 in a step of width zero and stops below it. -/
theorem simulateSwapMut_coherent_twoSidedPool :
    Coherent { twoSidedPool with
      liquidity := 10 ^ 18, sqrtPrice := 79228162435273859645575912270#256, tick := -1 }
      twoSidedPositions :=
  have hrun : twoSidedPool.simulateSwapMut .sample ⟨true⟩ 3 1 1000000000#256 =
    some (.ok 996999999#256, { twoSidedPool with
      liquidity := 10 ^ 18, sqrtPrice := 79228162435273859645575912270#256, tick := -1 }) := rfl
  (((simulateSwapMut_coherent UniswapV3Math.sample_spec coherent_twoSidedPool
    swappable_twoSidedPool (by decide) ⟨true⟩ 1).2 3 _ _ hrun).2 _ rfl).1

end UniswapV3Pool

end ArbitrageBot
