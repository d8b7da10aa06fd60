import ArbitrageBot.Amms.UniswapV3.Follow
import ArbitrageBot.Amms.UniswapV3.SwapSpec
import ArbitrageBot.Contracts.UniV3Swap

/-!
# Quotes that the contract pays

Round by round the simulated swap of a pool does what the loop of its contract does, as long as the
contract does not revert. So the quote is what the contract pays, and a simulated swap leaves the
pool as the log of the real one does.
-/

namespace ArbitrageBot

open Lib
open UniV3 (SwapLibraries SwapState Fees)
open UniV3.Pool (beyond boundTick crossedNet)

/-- The crate is a port of the libraries: where they return, it returns the same. -/
structure UniswapV3Math.Ports (math : UniswapV3Math) (lib : SwapLibraries) : Prop where
  nextInitializedTickWithinOneWord : ∀ {words : HashMap Int U256} {bitmap : Int → U256}
    {tick tickSpacing : Int} {lte : Bool} {next : Int × Bool},
    (∀ w, (words.lookup w).getD 0 = bitmap w) →
    lib.nextInitializedTickWithinOneWord bitmap tick tickSpacing lte = some next →
      math.nextInitializedTickWithinOneWord words tick tickSpacing lte = .ok next
  getSqrtRatioAtTick : ∀ {tick sqrtPrice}, lib.getSqrtRatioAtTick tick = some sqrtPrice →
    math.getSqrtRatioAtTick tick = .ok (sqrtPrice.setWidth 256)
  getTickAtSqrtRatio : ∀ {sqrtPrice tick}, lib.getTickAtSqrtRatio sqrtPrice = some tick →
    math.getTickAtSqrtRatio (sqrtPrice.setWidth 256) = .ok tick
  computeSwapStep : ∀ {current target : BitVec 160} {liquidity : Nat} {remaining : U256}
    {fee : Nat} {next : BitVec 160} {amountIn amountOut feeAmount : U256},
    lib.computeSwapStep current target liquidity remaining fee =
      some (next, amountIn, amountOut, feeAmount) →
    math.computeSwapStep (current.setWidth 256) (target.setWidth 256) liquidity remaining fee =
      .ok (next.setWidth 256, amountIn, amountOut, feeAmount)

/-! ## Prices -/

theorem toNat_setWidth_price (p : BitVec 160) : (p.setWidth 256).toNat = p.toNat := by
  rw [BitVec.toNat_setWidth]
  exact Nat.mod_eq_of_lt (by have := p.isLt; omega)

theorem setWidth_price_inj {p q : BitVec 160} : p.setWidth 256 = q.setWidth 256 ↔ p = q := by
  rw [← BitVec.toNat_inj, ← BitVec.toNat_inj, toNat_setWidth_price, toNat_setWidth_price]

theorem setWidth_price_lt {p q : BitVec 160} : p.setWidth 256 < q.setWidth 256 ↔ p < q := by
  rw [BitVec.lt_def, BitVec.lt_def, toNat_setWidth_price, toNat_setWidth_price]

/-- The price limit of a simulated swap, which is that of the executor's swaps too. -/
def sqrtPriceLimitX96 (zeroForOne : Bool) : BitVec 160 :=
  if zeroForOne then UniV3.TickMath.MIN_SQRT_RATIO + 1 else UniV3.TickMath.MAX_SQRT_RATIO - 1

theorem sqrtPriceLimit_eq (zeroForOne : Bool) :
    sqrtPriceLimit zeroForOne = (sqrtPriceLimitX96 zeroForOne).setWidth 256 := by
  cases zeroForOne <;> decide

theorem swapTarget_eq (zeroForOne : Bool) (sqrtPriceNext : BitVec 160) :
    swapTarget zeroForOne (sqrtPriceNext.setWidth 256) =
      (if beyond zeroForOne sqrtPriceNext (sqrtPriceLimitX96 zeroForOne) then
        sqrtPriceLimitX96 zeroForOne else sqrtPriceNext).setWidth 256 := by
  unfold swapTarget beyond
  rw [sqrtPriceLimit_eq]
  cases zeroForOne with
  | true =>
    simp only [if_true, setWidth_price_lt, decide_eq_true_eq]
    split <;> rfl
  | false =>
    simp only [Bool.false_eq_true, if_false, gt_iff_lt, setWidth_price_lt, decide_eq_true_eq]
    split <;> rfl

/-! ## Ticks -/

theorem clampTick_eq (tick : Int) : clampTick tick = boundTick tick := by
  unfold clampTick boundTick MIN_TICK MAX_TICK
  omega

theorem boundTick_range (tick : Int) : MIN_TICK ≤ boundTick tick ∧ boundTick tick ≤ MAX_TICK := by
  unfold boundTick MIN_TICK MAX_TICK
  omega

namespace UniswapV3Pool

variable {math : UniswapV3Math} {lib : SwapLibraries} {prof : BuildProfile}
  {pool : UniswapV3Pool} {contract : UniV3.Pool} {zeroForOne : Bool}

/-- The net liquidity of a tick is no smallest `int128`, so that it can be negated. -/
def NetNegatable (contract : UniV3.Pool) : Prop :=
  ∀ t, -2 ^ 127 < (contract.ticks t).liquidityNet ∧ (contract.ticks t).liquidityNet < 2 ^ 127

theorem crossTick_follows (hlib : lib.Documented) {liquidity liquidity' : Nat} {net : Int}
    (hnet : -2 ^ 127 < net ∧ net < 2 ^ 127)
    (h : lib.addDelta liquidity (crossedNet zeroForOne net) = some liquidity') :
    crossTick prof liquidity net zeroForOne = .ok liquidity' := by
  obtain ⟨hsum, hlt⟩ := hlib.addDelta h
  have hdirected : directedNet prof net zeroForOne = .ok (crossedNet zeroForOne net) := by
    unfold directedNet crossedNet
    cases zeroForOne with
    | false => rfl
    | true =>
      have hneg : (-net).bmod (2 ^ 128) = -net := by
        rw [Int.bmod_eq_of_le] <;> omega
      rw [if_pos rfl, if_pos rfl, hneg]
      exact BuildProfile.signed_of_range (by omega) (by omega)
  have hrange : -2 ^ 127 < crossedNet zeroForOne net ∧ crossedNet zeroForOne net < 2 ^ 127 := by
    unfold crossedNet
    cases zeroForOne with
    | false => exact hnet
    | true =>
      rw [if_pos rfl, Int.bmod_eq_of_le] <;> omega
  generalize crossedNet zeroForOne net = delta at *
  unfold crossTick
  rw [hdirected, ok_bind]
  by_cases hneg : delta < 0
  · rw [if_pos hneg, BuildProfile.signed_of_range (by omega) (by omega), ok_bind,
      asU128_of_range (by omega) (by omega), if_neg (by omega),
      BuildProfile.unsigned_of_range (by omega) (by omega)]
    congr 1
    omega
  · rw [if_neg hneg, asU128_of_range (by omega) (by omega),
      BuildProfile.unsigned_of_range (by omega) (by omega)]
    congr 1
    omega

/-! ## The loop -/

/-- The simulation is where the contract is. -/
structure Agree (s : CurrentState) (t : SwapState) : Prop where
  remaining : s.amountSpecifiedRemaining = t.amountSpecifiedRemaining
  calculated : s.amountCalculated = t.amountCalculated
  sqrtPrice : s.sqrtPriceX96 = t.sqrtPriceX96.setWidth 256
  tick : s.tick = t.tick
  liquidity : s.liquidity = t.liquidity
  paid : t.amountCalculated.toInt ≤ 0
  width : t.liquidity < 2 ^ 128

variable {fees : Fees} {s : CurrentState} {t t' : SwapState}

theorem Agree.guard (h : Agree s t) : swapGuard zeroForOne s =
    (decide (t.amountSpecifiedRemaining ≠ 0) &&
      decide (t.sqrtPriceX96 ≠ sqrtPriceLimitX96 zeroForOne)) := by
  unfold swapGuard
  rw [h.remaining, h.sqrtPrice, sqrtPriceLimit_eq]
  congr 2
  rw [ne_eq, ne_eq, setWidth_price_inj]

/-- The liquidity when the next tick is reached. -/
theorem reachTick_follows (hlib : lib.Documented) (hfollows : pool.Follows contract)
    (hnet : NetNegatable contract) {liquidity liquidity' : Nat} {tickNext : Int}
    {initialized : Bool}
    (h : contract.reachTick lib zeroForOne liquidity tickNext initialized = some liquidity') :
    pool.reachTick prof zeroForOne liquidity tickNext initialized = .ok liquidity' := by
  unfold UniV3.Pool.reachTick at h
  unfold UniswapV3Pool.reachTick
  cases initialized with
  | false =>
    cases h
    rfl
  | true =>
    have hinfo : ((pool.ticks.lookup tickNext).map (·.liquidityNet)).getD 0 =
        (contract.ticks tickNext).liquidityNet := by
      rw [← hfollows.info tickNext]
      unfold infoAt
      cases pool.ticks.lookup tickNext <;> rfl
    rw [if_pos rfl, hinfo]
    exact crossTick_follows hlib (hnet tickNext) h

/-- The liquidity and the tick after a step. -/
theorem Agree.moveTick (hports : math.Ports lib) (hlib : lib.Documented)
    (hfollows : pool.Follows contract) (hnet : NetNegatable contract) (hagree : Agree s t)
    (prof : BuildProfile) {tickNext tick : Int} {initialized : Bool} {next price : BitVec 160}
    {liquidity : Nat} (hbounds : MIN_TICK ≤ tickNext ∧ tickNext ≤ MAX_TICK)
    (h : contract.shiftTick lib zeroForOne t tickNext initialized next price =
      some (liquidity, tick)) :
    pool.moveTick math prof zeroForOne s tickNext initialized (next.setWidth 256)
      (price.setWidth 256) = .ok (liquidity, tick) := by
  unfold UniV3.Pool.shiftTick at h
  unfold UniswapV3Pool.moveTick
  by_cases hreached : price = next
  · rw [if_pos hreached] at h
    obtain ⟨liquidity₁, hreach, h⟩ := Option.bind_eq_some_iff.mp h
    cases h
    rw [if_pos (setWidth_price_inj.mpr hreached), hagree.liquidity,
      reachTick_follows hlib hfollows hnet hreach, wrappingPred_of_range hbounds.1 hbounds.2]
    rfl
  · rw [if_neg hreached] at h
    rw [if_neg (mt setWidth_price_inj.mp hreached)]
    have hsame : price.setWidth 256 = s.sqrtPriceX96 ↔ price = t.sqrtPriceX96 := by
      rw [hagree.sqrtPrice, setWidth_price_inj]
    by_cases hmoved : price = t.sqrtPriceX96
    · rw [if_neg (not_not.mpr hmoved)] at h
      rw [if_neg (not_not.mpr (hsame.mpr hmoved)), hagree.liquidity, hagree.tick]
      cases h
      rfl
    · rw [if_pos hmoved] at h
      obtain ⟨tick₁, htick, h⟩ := Option.bind_eq_some_iff.mp h
      cases h
      rw [if_pos (mt hsame.mp hmoved), hports.getTickAtSqrtRatio htick, hagree.liquidity]
      rfl

/-- The liquidity stays a `uint128`. -/
theorem shiftTick_lt (hlib : lib.Documented) (hwidth : t.liquidity < 2 ^ 128) {tickNext tick : Int}
    {initialized : Bool} {next price : BitVec 160} {liquidity : Nat}
    (h : contract.shiftTick lib zeroForOne t tickNext initialized next price =
      some (liquidity, tick)) : liquidity < 2 ^ 128 := by
  unfold UniV3.Pool.shiftTick at h
  split at h
  · obtain ⟨liquidity₁, hreach, h⟩ := Option.bind_eq_some_iff.mp h
    cases h
    unfold UniV3.Pool.reachTick at hreach
    split at hreach
    · exact (hlib.addDelta hreach).2
    · cases hreach
      exact hwidth
  · split at h
    · obtain ⟨_, -, h⟩ := Option.bind_eq_some_iff.mp h
      cases h
      exact hwidth
    · cases h
      exact hwidth

theorem subI256_of_subInt256 {x y z : U256} (h : UniV3.subInt256 x y = some z) :
    prof.subI256 (ε := AMMError) x y = .ok z := by
  unfold UniV3.subInt256 at h
  split at h
  · cases h
  · rename_i hfits
    cases h
    unfold BuildProfile.subI256
    rw [if_neg (by simp [hfits])]

/-- What a step of an exact input takes and pays. -/
theorem takeStep_exactInput {amountIn amountOut feeAmount remaining calculated : U256}
    (h : UniV3.Pool.takeStep true t amountIn amountOut feeAmount = some (remaining, calculated)) :
    remaining = t.amountSpecifiedRemaining - (amountIn + feeAmount) ∧ 0 ≤ amountOut.toInt ∧
      UniV3.subInt256 t.amountCalculated amountOut = some calculated := by
  have htoInt256 : ∀ {y z : U256}, UniV3.toInt256 y = some z → z = y ∧ 0 ≤ y.toInt := by
    intro y z hy
    unfold UniV3.toInt256 at hy
    split at hy
    · rename_i hlt
      cases hy
      exact ⟨rfl, (toInt_nonneg_iff y).mpr hlt⟩
    · cases hy
  unfold UniV3.Pool.takeStep at h
  rw [if_pos rfl] at h
  obtain ⟨taken, htaken, h⟩ := Option.bind_eq_some_iff.mp h
  obtain ⟨paid, hpaid, h⟩ := Option.bind_eq_some_iff.mp h
  obtain ⟨calculated₁, hcalculated, h⟩ := Option.bind_eq_some_iff.mp h
  cases h
  obtain ⟨rfl, -⟩ := htoInt256 htaken
  obtain ⟨rfl, hpos⟩ := htoInt256 hpaid
  exact ⟨rfl, hpos, hcalculated⟩

/-- The calculated amount only falls. -/
theorem subInt256_nonpos {x y z : U256} (hx : x.toInt ≤ 0) (hy : 0 ≤ y.toInt)
    (h : UniV3.subInt256 x y = some z) : z.toInt ≤ 0 := by
  unfold UniV3.subInt256 at h
  split at h
  · cases h
  · rename_i hfits
    cases h
    rw [BitVec.toInt_sub_of_not_ssubOverflow hfits]
    omega

/-- **One round**: where the contract's does not revert, the simulated one agrees with it. -/
theorem Agree.swapRound (hports : math.Ports lib) (hlib : lib.Documented)
    (hfollows : pool.Follows contract) (hfee : pool.fee = fees.fee)
    (hnet : NetNegatable contract) (prof : BuildProfile) (hagree : Agree s t)
    (h : contract.swapRound lib fees zeroForOne true (sqrtPriceLimitX96 zeroForOne) t =
      some t') :
    ∃ s', pool.swapRound math prof zeroForOne s = .ok s' ∧ Agree s' t' := by
  unfold UniV3.Pool.swapRound at h
  obtain ⟨⟨tickNext, initialized⟩, hnext, h⟩ := Option.bind_eq_some_iff.mp h
  obtain ⟨next, hratio, h⟩ := Option.bind_eq_some_iff.mp h
  obtain ⟨⟨price, amountIn, amountOut, feeAmount⟩, hstep, h⟩ := Option.bind_eq_some_iff.mp h
  obtain ⟨⟨remaining, calculated⟩, htake, h⟩ := Option.bind_eq_some_iff.mp h
  obtain ⟨⟨growth, protocolFee⟩, -, h⟩ := Option.bind_eq_some_iff.mp h
  obtain ⟨⟨liquidity, tick⟩, hshift, h⟩ := Option.bind_eq_some_iff.mp h
  cases h
  obtain ⟨hremaining, hout, hcalculated⟩ := takeStep_exactInput htake
  refine ⟨⟨remaining, calculated, price.setWidth 256, tick, liquidity⟩, ?_,
    ⟨rfl, rfl, rfl, rfl, rfl, subInt256_nonpos hagree.paid hout hcalculated,
      shiftTick_lt hlib hagree.width hshift⟩⟩
  -- the simulated round makes the same calls, one by one
  unfold UniswapV3Pool.swapRound
  refine bind_eq_ok.mpr ⟨(tickNext, initialized), liftMath_eq_ok.mpr ?_, ?_⟩
  · rw [hagree.tick, hfollows.tickSpacing]
    exact hports.nextInitializedTickWithinOneWord hfollows.word hnext
  refine bind_eq_ok.mpr ⟨next.setWidth 256, liftMath_eq_ok.mpr ?_, ?_⟩
  · rw [clampTick_eq]
    exact hports.getSqrtRatioAtTick hratio
  refine bind_eq_ok.mpr ⟨(price.setWidth 256, amountIn, amountOut, feeAmount),
    liftMath_eq_ok.mpr ?_, ?_⟩
  · rw [swapTarget_eq, hagree.sqrtPrice, hagree.liquidity, hagree.remaining, hfee]
    exact hports.computeSwapStep hstep
  refine bind_eq_ok.mpr ⟨calculated, ?_, ?_⟩
  · rw [hagree.calculated]
    exact subI256_of_subInt256 hcalculated
  refine bind_eq_ok.mpr ⟨(liquidity, tick), ?_, ?_⟩
  · rw [clampTick_eq]
    exact hagree.moveTick hports hlib hfollows hnet prof (boundTick_range tickNext) hshift
  rw [hagree.remaining, hremaining]
  rfl

/-- The whole loop, in as many rounds. -/
theorem swapLoop_follows (hports : math.Ports lib) (hlib : lib.Documented)
    (hfollows : pool.Follows contract) (hfee : pool.fee = fees.fee) (hnet : NetNegatable contract)
    (hwidth : contract.liquidity < 2 ^ 128) (prof : BuildProfile) {fuel : Nat} {amountIn : U256}
    (h : contract.swapLoop lib fees zeroForOne true fuel (sqrtPriceLimitX96 zeroForOne) amountIn =
      some (.ok t)) :
    ∃ s, pool.swapLoop math prof zeroForOne fuel amountIn = some (.ok s) ∧ Agree s t := by
  unfold UniV3.Pool.swapLoop at h
  unfold UniswapV3Pool.swapLoop
  refine Loop.run_follows (fun _ _ hagree => hagree.guard) ?_ ?_ h
  · intro s t t' hagree _ hround
    split at hround
    · cases hround
    · rename_i after hafter
      cases hround
      exact hagree.swapRound hports hlib hfollows hfee hnet prof hafter
  · exact ⟨rfl, rfl, hfollows.sqrtPrice, hfollows.tick, hfollows.liquidity,
      (by decide : (0 : U256).toInt ≤ 0), hwidth⟩

/-- What is sent of an output is the quote, if it is no `2 ^ 255`. -/
theorem negI256_of_sent (prof : BuildProfile) {calculated : U256} (hpaid : calculated.toInt ≤ 0)
    (hsent : (if calculated.toInt < 0 then -calculated else 0).toNat < 2 ^ 255) :
    prof.negI256 (ε := AMMError) calculated =
      .ok (if calculated.toInt < 0 then -calculated else 0) := by
  have hneg : (if calculated.toInt < 0 then -calculated else 0) = -calculated := by
    split
    · rfl
    · have hzero : calculated.toInt = (0 : U256).toInt := by
        have hnone : (0 : U256).toInt = 0 := rfl
        omega
      rw [BitVec.eq_of_toInt_eq hzero]
      rfl
  rw [hneg] at hsent ⊢
  have hfits : ¬ calculated.negOverflow = true := by
    intro hoverflow
    unfold BitVec.negOverflow at hoverflow
    have hmin : calculated = BitVec.intMin 256 := BitVec.eq_of_toInt_eq (by
      rw [beq_iff_eq.mp hoverflow]
      decide)
    rw [hmin] at hsent
    exact absurd hsent (by decide)
  unfold BuildProfile.negI256
  rw [if_neg (by simp [hfits])]

/-- **The quote is what the contract pays.** For a pool that follows its contract: where the swap of
the contract, up to the price limit of the simulation, does not revert, it is one of the contract's
calls, `simulate_swap` and `simulate_swap_mut` return what it sends, and the latter leaves the pool
as the log of the swap does, where the contract is. -/
theorem simulateSwap_pays (math : UniswapV3Math) (lib : SwapLibraries) (hports : math.Ports lib)
    (hlib : lib.Documented) (prof : BuildProfile) (pool : UniswapV3Pool) (contract : UniV3.Pool)
    (fees : Fees) (hfollows : pool.Follows contract) (hfee : pool.fee = fees.fee)
    (hnet : NetNegatable contract) (hwidth : contract.liquidity < 2 ^ 128) (fuel : Nat)
    (baseToken : Address) (amountIn : U256)
    (hpositive : 0 < amountIn.toInt) (swapped : UniV3.Pool.Swapped)
    (hswap : contract.swap lib fees (baseToken == pool.tokenA.address) fuel amountIn
      (sqrtPriceLimitX96 (baseToken == pool.tokenA.address)) = some (.ok swapped))
    (hsent : (swapped.sent (baseToken == pool.tokenA.address)).toNat < 2 ^ 255) :
    (∃ call, contract.call lib.toLibraries call = some (swapped.pool, swapped.event)) ∧
    ∃ pool' : UniswapV3Pool,
      pool.simulateSwap math prof fuel baseToken amountIn =
        some (.ok (swapped.sent (baseToken == pool.tokenA.address))) ∧
      pool.simulateSwapMut math prof fuel baseToken amountIn =
        some (.ok (swapped.sent (baseToken == pool.tokenA.address)), pool') ∧
      pool'.Follows swapped.pool ∧
      ∀ log : Log, log.payload = .event swapped.event → pool.sync prof log = .ok pool' := by
  have hzero : amountIn ≠ 0 := by
    rintro rfl
    exact absurd hpositive (by decide)
  unfold simulateSwap simulateSwapMut
  rw [if_neg hzero, if_neg hzero]
  generalize (baseToken == pool.tokenA.address) = zeroForOne at *
  obtain ⟨t, hloop, hpool, hevent, hamount⟩ := UniV3.Pool.swap_exactInput hpositive hswap
  obtain ⟨s, hrun, hagree⟩ := swapLoop_follows hports hlib hfollows hfee hnet hwidth prof hloop
  rw [hamount] at hsent ⊢
  have hquote := negI256_of_sent prof hagree.paid hsent
  have hliquidity : (BitVec.ofNat 128 t.liquidity).toNat = t.liquidity :=
    Nat.mod_eq_of_lt hagree.width
  rw [hrun, hpool, hevent]
  refine ⟨⟨.swap t.sqrtPriceX96 (BitVec.ofNat 128 t.liquidity) t.tick, ?_⟩,
    { pool with liquidity := s.liquidity, sqrtPrice := s.sqrtPriceX96, tick := s.tick },
    ?_, ?_, ?_, ?_⟩
  · unfold UniV3.Pool.call
    dsimp only
    rw [hliquidity]
  · rw [Option.map_some, ok_bind, hagree.calculated, hquote]
  · rw [Option.map_some]
    dsimp only
    rw [hagree.calculated, hquote]
  · exact ⟨hfollows.tickSpacing, hagree.sqrtPrice, hagree.tick, hagree.liquidity,
      hfollows.info, hfollows.word⟩
  · intro log hlog
    unfold UniswapV3Pool.sync
    rw [hlog, hagree.sqrtPrice, hagree.liquidity, hagree.tick]

/-- A pool at price one with liquidity between the ticks -60 and 60, and half as much between 60 and
120. -/
def quotedPool : UniswapV3Pool where
  address := 1
  tokenA := ⟨2, 18⟩
  tokenB := ⟨3, 18⟩
  liquidity := 10 ^ 18
  sqrtPrice := 79228162514264337593543950336
  fee := 3000
  tick := 0
  tickSpacing := 60
  tickBitmap := ((∅ : HashMap Int U256).insert (-1) (1 <<< 255)).insert 0 6
  ticks := (((∅ : HashMap Int Info).insert (-60) ⟨10 ^ 18, 10 ^ 18, true⟩).insert 60
    ⟨15 * 10 ^ 17, -5 * 10 ^ 17, true⟩).insert 120 ⟨5 * 10 ^ 17, -5 * 10 ^ 17, true⟩

/-- Its contract. -/
def quotedContract : UniV3.Pool where
  tickSpacing := 60
  maxLiquidityPerTick := 11505743598341114571880798222544994
  sqrtPriceX96 := 79228162514264337593543950336
  tick := 0
  liquidity := 10 ^ 18
  ticks := quotedPool.infoAt
  tickBitmap := fun w => (quotedPool.tickBitmap.lookup w).getD 0
  positions := Function.update (Function.update (fun _ => 0) (7, -60, 60) (10 ^ 18)) (8, 60, 120)
    (5 * 10 ^ 17)

/-- The search for the next tick, and the prices, the tick and the two steps of a swap of 4 * 10^15
upwards, past the tick 60. -/
def quotedLibraries : SwapLibraries :=
  { UniV3.plainLibraries with
    nextInitializedTickWithinOneWord := fun bitmap tick tickSpacing lte =>
      let compressed := tick / tickSpacing
      let indices : List Int :=
        if lte then (List.range ((compressed % 256).toNat + 1)).map fun k => compressed - k
        else (List.range (256 - (compressed + 1) % 256).toNat).map fun k => compressed + 1 + k
      match indices.find? (UniV3.Pool.bitAt bitmap) with
      | some i => some (i * tickSpacing, true)
      | none => some (indices.getLastD compressed * tickSpacing, false)
    getSqrtRatioAtTick := fun tick =>
      if tick = 60 then some 79466191966197645195421774833
      else if tick = 120 then some 79704936542881920863903188246 else none
    getTickAtSqrtRatio := fun sqrtPrice =>
      if 79621294461323324686845448680 ≤ sqrtPrice ∧ sqrtPrice < 79625275426524748796330556128
      then some 99 else none
    computeSwapStep := fun current target liquidity remaining fee =>
      if current = 79228162514264337593543950336 ∧ target = 79466191966197645195421774833 ∧
          liquidity = 10 ^ 18 ∧ remaining = 4 * 10 ^ 15 ∧ fee = 3000 then
        some (79466191966197645195421774833, 3004354062741926, 2995354955910780, 9040182736436)
      else if current = 79466191966197645195421774833 ∧ target = 79704936542881920863903188246 ∧
          liquidity = 5 * 10 ^ 17 ∧ remaining = 986605754521638 ∧ fee = 3000 then
        some (79622056886544802135026634042, 983645937258073, 975847997791444, 2959817263565)
      else none
    mulDiv := fun a b denominator =>
      if a.toNat * b.toNat / denominator.toNat < 2 ^ 256 ∧ denominator ≠ 0 then
        some (BitVec.ofNat 256 (a.toNat * b.toNat / denominator.toNat))
      else none }

/-- The crate that does what the libraries do. -/
def portOf (lib : SwapLibraries) : UniswapV3Math where
  nextInitializedTickWithinOneWord words tick tickSpacing lte :=
    (lib.nextInitializedTickWithinOneWord (fun w => (words.lookup w).getD 0) tick tickSpacing
      lte).elim (.error ⟨"next tick"⟩) .ok
  getSqrtRatioAtTick tick :=
    (lib.getSqrtRatioAtTick tick).elim (.error ⟨"T"⟩) fun sqrtPrice => .ok (sqrtPrice.setWidth 256)
  getTickAtSqrtRatio sqrtPrice :=
    (lib.getTickAtSqrtRatio (sqrtPrice.setWidth 160)).elim (.error ⟨"R"⟩) .ok
  computeSwapStep current target liquidity remaining fee :=
    (lib.computeSwapStep (current.setWidth 160) (target.setWidth 160) liquidity remaining fee).elim
      (.error ⟨"step"⟩) fun (next, amounts) => .ok (next.setWidth 256, amounts)

theorem portOf_ports (lib : SwapLibraries) : (portOf lib).Ports lib where
  nextInitializedTickWithinOneWord := by
    intro words bitmap tick tickSpacing lte next hwords h
    unfold portOf
    dsimp only
    rw [funext hwords, h]
    rfl
  getSqrtRatioAtTick := by
    intro tick sqrtPrice h
    unfold portOf
    dsimp only
    rw [h]
    rfl
  getTickAtSqrtRatio := by
    intro sqrtPrice tick h
    unfold portOf
    dsimp only
    rw [BitVec.setWidth_setWidth_of_le _ (by decide), BitVec.setWidth_eq, h]
    rfl
  computeSwapStep := by
    intro current target liquidity remaining fee next amountIn amountOut feeAmount h
    unfold portOf
    dsimp only
    rw [BitVec.setWidth_setWidth_of_le _ (by decide), BitVec.setWidth_setWidth_of_le _ (by decide),
      BitVec.setWidth_eq, BitVec.setWidth_eq, h]
    rfl

/-- A fee of 0.3 % and a protocol's share of a sixth. -/
def quotedFees : Fees := ⟨3000, 102, 0, 0⟩

theorem quotedContract_netNegatable : NetNegatable quotedContract := by
  intro t
  unfold quotedContract infoAt quotedPool
  dsimp only
  rw [HashMap.lookup_insert, HashMap.lookup_insert, HashMap.lookup_insert]
  split
  · decide
  · split
    · decide
    · split
      · decide
      · rw [AList.lookup_empty]
        decide

/-- A swap that crosses the tick 60 and ends at the tick 99. -/
theorem simulateSwap_pays_crossing : ∃ swapped pool',
    quotedContract.swap quotedLibraries quotedFees false 5 (4 * 10 ^ 15) (sqrtPriceLimitX96 false) =
        some (.ok swapped) ∧
      quotedPool.simulateSwap (portOf quotedLibraries) ⟨true⟩ 5 3 (4 * 10 ^ 15) =
        some (.ok 3971202953702224) ∧
      quotedPool.simulateSwapMut (portOf quotedLibraries) ⟨true⟩ 5 3 (4 * 10 ^ 15) =
        some (.ok 3971202953702224, pool') ∧
      pool'.tick = 99 ∧ pool'.liquidity = 5 * 10 ^ 17 ∧ pool'.Follows swapped.pool := by
  have hruns : ∃ swapped, quotedContract.swap quotedLibraries quotedFees
      ((3 : Address) == quotedPool.tokenA.address) 5 (4 * 10 ^ 15)
      (sqrtPriceLimitX96 ((3 : Address) == quotedPool.tokenA.address)) = some (.ok swapped) ∧
      swapped.sent ((3 : Address) == quotedPool.tokenA.address) = 3971202953702224 ∧
      swapped.pool.tick = 99 ∧ swapped.pool.liquidity = 5 * 10 ^ 17 := ⟨_, rfl, rfl, rfl, rfl⟩
  obtain ⟨swapped, hswap, hsent, htick, hliquidity⟩ := hruns
  obtain ⟨-, pool', hquote, hmut, hfollows, -⟩ := simulateSwap_pays (portOf quotedLibraries)
    quotedLibraries (portOf_ports quotedLibraries) UniV3.plainLibraries_documented ⟨true⟩ quotedPool
    quotedContract quotedFees ⟨rfl, rfl, rfl, rfl, fun _ => rfl, fun _ => rfl⟩ rfl
    quotedContract_netNegatable (by decide) 5 3 (4 * 10 ^ 15) (by decide) swapped hswap
    (by rw [hsent]; decide)
  rw [hsent] at hquote hmut
  exact ⟨swapped, pool', hswap, hquote, hmut, hfollows.tick.trans htick,
    hfollows.liquidity.trans hliquidity, hfollows⟩

end UniswapV3Pool

end ArbitrageBot
