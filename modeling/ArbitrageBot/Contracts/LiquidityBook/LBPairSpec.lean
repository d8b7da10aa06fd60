import ArbitrageBot.Contracts.LiquidityBook.LBPair
import ArbitrageBot.Contracts.LiquidityBook.MathSpec

/-!
# Liquidity-book pairs: what a round of a quote does

A round skips a bin that holds none of the token that is bought; any other bin takes in and pays out
its exact quote. The next round is at the closest non-empty bin beyond.
-/

namespace ArbitrageBot.LiquidityBook.LBPair

open PackedUint128Math

section

variable (pair : LBPair) (swapForY : Bool)

/-- The reserves of a bin, of the token that is bought and of the token that is sold. -/
def reserveOut (id : Nat) : Nat := decode (pair.bins id) (!swapForY)
def reserveIn (id : Nat) : Nat := decode (pair.bins id) swapForY

/-- What a bin takes in, pays out and keeps when it is left with `a`: the facts of a swap that did
not revert. -/
structure BinSwap (s : QuoteState) (a : Nat) (parameters price : U256) (f : Nat)
    (q : BinQuote.Quote) : Prop where
  parameters_eq :
    PairParameterHelper.updateVolatilityAccumulator s.parameters s.id = .ok parameters
  price_eq : PriceHelper.getPriceFromId s.id pair.binStep = .ok price
  fee_eq : PairParameterHelper.getTotalFee parameters pair.binStep = .ok f
  fee_le : f ≤ 10 ^ 17
  capacity_lt : BinQuote.capacity swapForY price.toNat f (pair.reserveOut swapForY s.id) < 2 ^ 128
  quote_eq : q = BinQuote.quote swapForY price.toNat f (pair.reserveOut swapForY s.id) a
  reserveIn_add_lt : pair.reserveIn swapForY s.id + q.amountIn < 2 ^ 128
  liquidity_le : ∃ L, BinHelper.getLiquidity (pair.bins s.id + encode q.amountIn swapForY -
    encode q.amountOut (!swapForY)) price = .ok L ∧ L ≤ Constants.MAX_LIQUIDITY_PER_BIN

end

variable {pair : LBPair} {swapForY : Bool} {s s' : QuoteState} {a id next : Nat}

theorem reserveOut_lt : pair.reserveOut swapForY id < 2 ^ 128 := decode_lt _ _

theorem isEmpty_iff :
    BinHelper.isEmpty (pair.bins id) (!swapForY) = true ↔ pair.reserveOut swapForY id = 0 := by
  unfold BinHelper.isEmpty reserveOut decode
  cases swapForY with
  | true => simp
  | false => simp

/-- A bin without the token that is bought is skipped. -/
theorem swapInBin_skip (h : pair.reserveOut swapForY s.id = 0) :
    pair.swapInBin swapForY s = .ok s := by
  unfold swapInBin
  rw [if_pos (isEmpty_iff.mpr h)]

namespace BinSwap

variable {parameters price : U256} {f : Nat} {q : BinQuote.Quote}

theorem fee_lt (h : pair.BinSwap swapForY s a parameters price f q) :
    f < BinQuote.FEE_PRECISION := by
  have := h.fee_le
  unfold BinQuote.FEE_PRECISION
  omega

theorem price_pos (h : pair.BinSwap swapForY s a parameters price f q) : 0 < price.toNat :=
  Nat.pos_of_ne_zero fun h0 =>
    PriceHelper.getPriceFromId_ne_zero h.price_eq (BitVec.eq_of_toNat_eq h0)

theorem amountIn_le (h : pair.BinSwap swapForY s a parameters price f q) : q.amountIn ≤ a := by
  rw [h.quote_eq]
  exact BinQuote.quote_amountIn_le

theorem amountOut_le (h : pair.BinSwap swapForY s a parameters price f q) :
    q.amountOut ≤ pair.reserveOut swapForY s.id := by
  rw [h.quote_eq]
  exact BinQuote.quote_amountOut_le h.fee_lt

theorem fee_le_amountIn (h : pair.BinSwap swapForY s a parameters price f q) :
    q.fee ≤ q.amountIn := by
  rw [h.quote_eq]
  exact BinQuote.quote_fee_le h.fee_lt

/-- A bin takes some of the input. -/
theorem amountIn_pos (h : pair.BinSwap swapForY s a parameters price f q)
    (hr : pair.reserveOut swapForY s.id ≠ 0) (ha : 0 < a) : 0 < q.amountIn := by
  rw [h.quote_eq]
  exact BinQuote.quote_amountIn_pos h.price_pos (Nat.pos_of_ne_zero hr) ha

/-- Input is left only by a bin that paid out its reserve. -/
theorem drained_or_taken (h : pair.BinSwap swapForY s a parameters price f q) :
    (BinQuote.capacity swapForY price.toNat f (pair.reserveOut swapForY s.id) ≤ a ∧
      q.amountOut = pair.reserveOut swapForY s.id) ∨
    (a < BinQuote.capacity swapForY price.toNat f (pair.reserveOut swapForY s.id) ∧
      q.amountIn = a) := by
  rw [h.quote_eq]
  by_cases hcap : BinQuote.capacity swapForY price.toNat f (pair.reserveOut swapForY s.id) ≤ a
  · rw [BinQuote.quote_of_le hcap]
    exact .inl ⟨hcap, rfl⟩
  · rw [BinQuote.quote_of_lt (Nat.lt_of_not_le hcap)]
    exact .inr ⟨Nat.lt_of_not_le hcap, rfl⟩

end BinSwap

/-- What is left of a lane after a part of it went. -/
theorem sub_encode_eq_ok {z : U256} {n : Nat} (ha : a < 2 ^ 128) (hn : n ≤ a)
    (h : sub (encode a swapForY) (encode n swapForY) = .ok z) : z = encode (a - n) swapForY := by
  have hlane := (sub_eq_ok h swapForY).2
  have hother := (sub_eq_ok h (!swapForY)).2
  rw [decode_encode ha, decode_encode (by omega)] at hlane
  rw [decode_encode_not ha, decode_encode_not (by omega)] at hother
  have hleft := decode_encode (a := a - n) (by omega) swapForY
  have hright := decode_encode_not (a := a - n) (by omega) swapForY
  rw [decode_eq] at hlane hother hleft hright
  cases swapForY with
  | true => exact Lib.Words.eq_of_lanes (by simp at *; omega) (by simp at *; omega)
  | false => exact Lib.Words.eq_of_lanes (by simp at *; omega) (by simp at *; omega)

/-- The amounts of a bin that holds the token that is bought are its quote. -/
theorem binAmounts_eq_ok {amounts : U256 × U256 × U256 × U256}
    (hs : s.amountsInLeft = encode a swapForY) (ha : a < 2 ^ 128)
    (h : pair.binAmounts swapForY s = .ok amounts) :
    ∃ parameters price f q, pair.BinSwap swapForY s a parameters price f q ∧
      amounts = (parameters, encode q.amountIn swapForY, encode q.amountOut (!swapForY),
        encode q.fee swapForY) := by
  unfold binAmounts BinHelper.getAmounts at h
  simp only [bind_eq_ok] at h
  obtain ⟨parameters, hparameters, amounts', ⟨price, hprice, ⟨amountIn, amountOut, fee⟩, hswap,
    reserves, hadd, left, hsub, L, hL, hmax⟩, hret⟩ := h
  have hin : decode s.amountsInLeft swapForY = a := by rw [hs, decode_encode ha]
  rw [hin] at hswap
  obtain ⟨f, hf, hfle, hcap, hquote⟩ := BinHelper.swapAmounts_eq_ok
    (PriceHelper.getPriceFromId_ne_zero hprice) (decode_lt _ _) ha hswap
  generalize hq : BinQuote.quote swapForY price.toNat f (decode (pair.bins s.id) (!swapForY)) a = q
    at hquote
  cases hquote
  dsimp only at hadd hsub hmax
  have hle : q.amountIn ≤ a := hq ▸ BinQuote.quote_amountIn_le
  obtain ⟨rfl, hlane⟩ := add_eq_ok hadd swapForY
  obtain ⟨rfl, -⟩ := sub_eq_ok hsub swapForY
  rw [decode_encode (by omega)] at hlane
  split at hmax
  · cases hmax
  · rename_i hliquidity
    cases hmax
    cases hret
    refine ⟨parameters, price, f, q, ?_, rfl⟩
    exact {
      parameters_eq := hparameters
      price_eq := hprice
      fee_eq := hf
      fee_le := hfle
      capacity_lt := hcap
      quote_eq := hq.symm
      reserveIn_add_lt := by
        unfold reserveIn
        rw [← hlane]
        exact decode_lt _ _
      liquidity_le := ⟨L, hL, BitVec.not_lt.mp hliquidity⟩ }

theorem encode_ne_zero (ha : a < 2 ^ 128) (hpos : 0 < a) : encode a swapForY ≠ 0 := by
  intro hzero
  have hlane := decode_encode ha swapForY
  rw [hzero, decode_eq] at hlane
  cases swapForY with
  | true =>
    simp [Lib.Words.low] at hlane
    omega
  | false =>
    simp [Lib.Words.high] at hlane
    omega

/-- **The swap in a bin** that holds the token that is bought. -/
theorem swapInBin_eq_ok (hs : s.amountsInLeft = encode a swapForY) (ha : a < 2 ^ 128)
    (hpos : 0 < a) (hr : pair.reserveOut swapForY s.id ≠ 0)
    (h : pair.swapInBin swapForY s = .ok s') :
    ∃ parameters price f q, pair.BinSwap swapForY s a parameters price f q ∧
      pair.binAmounts swapForY s = .ok (parameters, encode q.amountIn swapForY,
        encode q.amountOut (!swapForY), encode q.fee swapForY) ∧
      s.amountOut + q.amountOut < 2 ^ 128 ∧
      s'.amountsInLeft = encode (a - q.amountIn) swapForY ∧
      s'.amountOut = s.amountOut + q.amountOut ∧ s'.id = s.id ∧ s'.parameters = parameters := by
  unfold swapInBin at h
  rw [if_neg (fun hempty => hr (isEmpty_iff.mp hempty))] at h
  simp only [bind_eq_ok] at h
  obtain ⟨amounts, hamounts, h⟩ := h
  obtain ⟨parameters, price, f, q, hswap, rfl⟩ := binAmounts_eq_ok hs ha hamounts
  refine ⟨parameters, price, f, q, hswap, hamounts, ?_⟩
  have hout : q.amountOut < 2 ^ 128 := Nat.lt_of_le_of_lt hswap.amountOut_le reserveOut_lt
  have hin : q.amountIn < 2 ^ 128 := Nat.lt_of_le_of_lt hswap.amountIn_le ha
  have hsome : encode q.amountIn swapForY > 0 := by
    rw [gt_iff_lt, BitVec.lt_def]
    exact Nat.pos_of_ne_zero fun hzero =>
      encode_ne_zero hin (hswap.amountIn_pos hr hpos) (BitVec.eq_of_toNat_eq hzero)
  dsimp only at h
  rw [if_pos hsome] at h
  simp only [bind_eq_ok] at h
  obtain ⟨left, hleft, out, hsum, fee, -, h⟩ := h
  cases h
  rw [hs] at hleft
  rw [decode_encode hout] at hsum
  unfold checkedAdd128 at hsum
  split at hsum
  · rename_i hlt
    cases hsum
    exact ⟨hlt, sub_encode_eq_ok ha hswap.amountIn_le hleft, rfl, rfl, rfl⟩
  · cases hsum

/-- **The next bin** is the closest one beyond that is not empty. -/
theorem getNextNonEmptyBin_spec (hid : id < 2 ^ 24) (h0 : pair.getNextNonEmptyBin swapForY id ≠ 0)
    (hmax : pair.getNextNonEmptyBin swapForY id ≠ TreeMath.UINT24_MAX) :
    FirstBeyond swapForY (fun j => j < 2 ^ 24 ∧ pair.bins j ≠ 0) id
      (pair.getNextNonEmptyBin swapForY id) := by
  have hmem : ∀ j, j < 2 ^ 24 ∧ TreeMath.contains pair.tree j = true ↔
      j < 2 ^ 24 ∧ pair.bins j ≠ 0 :=
    fun j => and_congr_right fun hj => pair.mem_tree_iff j hj
  have hfirst : FirstBeyond swapForY
      (fun j => j < 2 ^ 24 ∧ TreeMath.contains pair.tree j = true) id
      (pair.getNextNonEmptyBin swapForY id) := by
    unfold getNextNonEmptyBin at *
    cases swapForY with
    | true =>
      rcases TreeMath.findFirst_spec TreeMath.searches_right pair.tree_wellFormed hid
        TreeMath.UINT24_MAX with ⟨hnone, -⟩ | hfound
      · exact absurd hnone hmax
      · exact hfound
    | false =>
      rcases TreeMath.findFirst_spec TreeMath.searches_left pair.tree_wellFormed hid 0 with
        ⟨hnone, -⟩ | hfound
      · exact absurd hnone h0
      · exact hfound
  simpa only [hmem] using hfirst

/-- **A loop that returns** ends at its first bin, or goes on at the next one. -/
theorem quoteLoop_eq_ok {gas : Nat} (h : pair.quoteLoop swapForY (gas + 1) s = .ok s') :
    ∃ s₁, pair.swapInBin swapForY s = .ok s₁ ∧
      ((s' = s₁ ∧ pair.quoteVisits swapForY (gas + 1) s = [s]) ∨
      (s₁.amountsInLeft ≠ 0 ∧ pair.getNextNonEmptyBin swapForY s₁.id ≠ 0 ∧
        pair.getNextNonEmptyBin swapForY s₁.id ≠ TreeMath.UINT24_MAX ∧
        pair.quoteLoop swapForY gas
          { s₁ with id := pair.getNextNonEmptyBin swapForY s₁.id } = .ok s' ∧
        pair.quoteVisits swapForY (gas + 1) s = s :: pair.quoteVisits swapForY gas
          { s₁ with id := pair.getNextNonEmptyBin swapForY s₁.id })) := by
  unfold quoteLoop at h
  cases hbin : pair.swapInBin swapForY s with
  | error e =>
    unfold quoteRound at h
    rw [hbin] at h
    cases h
  | ok s₁ =>
    have hround : pair.quoteRound swapForY s =
        if s₁.amountsInLeft = 0 then .ok (.done s₁)
        else if pair.getNextNonEmptyBin swapForY s₁.id = 0 ∨
          pair.getNextNonEmptyBin swapForY s₁.id = TreeMath.UINT24_MAX then .ok (.done s₁)
        else .ok (.yield { s₁ with id := pair.getNextNonEmptyBin swapForY s₁.id }) := by
      unfold quoteRound
      rw [hbin]
      rfl
    refine ⟨s₁, rfl, ?_⟩
    by_cases hleft : s₁.amountsInLeft = 0
    · rw [if_pos hleft] at hround
      rw [hround] at h
      cases h
      rw [quoteVisits, hround]
      exact .inl ⟨rfl, rfl⟩
    · rw [if_neg hleft] at hround
      by_cases hend : pair.getNextNonEmptyBin swapForY s₁.id = 0 ∨
          pair.getNextNonEmptyBin swapForY s₁.id = TreeMath.UINT24_MAX
      · rw [if_pos hend] at hround
        rw [hround] at h
        cases h
        rw [quoteVisits, hround]
        exact .inl ⟨rfl, rfl⟩
      · rw [if_neg hend] at hround
        rw [hround] at h
        obtain ⟨h0, hmax⟩ := not_or.mp hend
        exact .inr ⟨hleft, h0, hmax, h, by rw [quoteVisits, hround]⟩

/-- The output of a quote is checked. -/
theorem swapInBin_amountOut_lt (h : pair.swapInBin swapForY s = .ok s')
    (hlt : s.amountOut < 2 ^ 128) : s'.amountOut < 2 ^ 128 := by
  unfold swapInBin at h
  split at h
  · cases h
    exact hlt
  · simp only [bind_eq_ok] at h
    obtain ⟨⟨parameters, amountIn, amountOut, fees⟩, -, h⟩ := h
    dsimp only at h
    split at h
    · simp only [bind_eq_ok] at h
      obtain ⟨left, -, out, hout, fee, -, h⟩ := h
      cases h
      unfold checkedAdd128 at hout
      split at hout
      · cases hout
        assumption
      · cases hout
    · cases h
      exact hlt

theorem quoteLoop_amountOut_lt {gas : Nat} (h : pair.quoteLoop swapForY gas s = .ok s')
    (hlt : s.amountOut < 2 ^ 128) : s'.amountOut < 2 ^ 128 := by
  induction gas generalizing s with
  | zero => cases h
  | succ gas ih =>
    obtain ⟨s₁, hbin, hcase⟩ := quoteLoop_eq_ok h
    have hlt₁ := swapInBin_amountOut_lt hbin hlt
    rcases hcase with ⟨rfl, -⟩ | ⟨-, -, -, hrest, -⟩
    · exact hlt₁
    · exact ih hrest hlt₁

theorem mem_quoteVisits {gas : Nat} (h : pair.quoteLoop swapForY gas s = .ok s') :
    s ∈ pair.quoteVisits swapForY gas s := by
  cases gas with
  | zero => cases h
  | succ gas => exact List.mem_cons_self

end ArbitrageBot.LiquidityBook.LBPair
