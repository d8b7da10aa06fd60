import ArbitrageBot.Amms.Moe.Port
import ArbitrageBot.Amms.Moe.SwapSpec
import ArbitrageBot.Contracts.LiquidityBook.LBPairSpec

/-!
# The port of a bin's swap

The Rust code reads the low 64 bits of a lane. Where these give the quote that the whole lanes give,
`compute_bin_swap` returns the amounts of the contract.
-/

namespace ArbitrageBot

open Lib LiquidityBook

/-! ## Lanes -/

section Lanes

variable {z : U256} {a : Nat}

/-- Both sides build a lane the same way. -/
theorem moe_encode_eq (ha : a < 2 ^ 128) (first : Bool) :
    (if first then Moe.PackedUint128Math.encode a 0 else Moe.PackedUint128Math.encode 0 a) =
      PackedUint128Math.encode a first := by
  rw [PackedUint128Math.encode_eq ha]
  rfl

theorem moe_encode_not_eq (ha : a < 2 ^ 128) (first : Bool) :
    (if first then Moe.PackedUint128Math.encode 0 a else Moe.PackedUint128Math.encode a 0) =
      PackedUint128Math.encode a (!first) := by
  rw [← moe_encode_eq ha]
  cases first with
  | true => rfl
  | false => rfl

theorem moe_decodeFirst_eq (z : U256) (first : Bool) :
    Moe.PackedUint128Math.decodeFirst z first = PackedUint128Math.decode z first % 2 ^ 64 := by
  unfold Moe.PackedUint128Math.decodeFirst
  rw [Moe.PackedUint128Math.decodeX_eq, Moe.PackedUint128Math.decodeY_eq,
    PackedUint128Math.decode_eq]
  cases first with
  | true => rfl
  | false => rfl

/-- The liquidity of cut lanes is at most that of the whole ones. -/
theorem getLiquidity_port {amounts price L : U256}
    (h : BinHelper.getLiquidity amounts price = .ok L) :
    ∃ L', Moe.BinHelper.getLiquidity amounts price = .ok L' ∧ L'.toNat ≤ L.toNat := by
  obtain ⟨hfit, hL⟩ := BinHelper.getLiquidity_eq_ok_iff.mp h
  have hX : price.toNat * (Words.low amounts % 2 ^ 64) ≤ price.toNat * Words.low amounts :=
    Nat.mul_le_mul_left _ (Nat.mod_le _ _)
  have hY : Words.high amounts % 2 ^ 64 * 2 ^ 128 ≤ Words.high amounts * 2 ^ 128 :=
    Nat.mul_le_mul_right _ (Nat.mod_le _ _)
  have hlt := Nat.lt_of_le_of_lt (Nat.add_le_add hX hY) hfit
  have hval : (BitVec.ofNat 256 (price.toNat * (Words.low amounts % 2 ^ 64) +
      Words.high amounts % 2 ^ 64 * 2 ^ 128)).toNat =
        price.toNat * (Words.low amounts % 2 ^ 64) + Words.high amounts % 2 ^ 64 * 2 ^ 128 := by
    rw [BitVec.toNat_ofNat, Nat.mod_eq_of_lt hlt]
  refine ⟨_, Moe.BinHelper.getLiquidity_eq_ok_iff.mpr ⟨hlt, hval⟩, ?_⟩
  rw [hval, hL]
  exact Nat.add_le_add hX hY

end Lanes

/-! ## Quotes -/

/-- The low limbs of the reserve `r` and of the input `a` give the quote of `r` and `a`, and it pays
something. -/
structure QuotesAlike (swapForY : Bool) (p f r a : Nat) : Prop where
  drained : BinQuote.capacity swapForY p f r ≤ a →
    r < 2 ^ 64 ∧ BinQuote.capacity swapForY p f r ≤ a % 2 ^ 64
  taken : a < BinQuote.capacity swapForY p f r →
    a < 2 ^ 64 ∧ a < BinQuote.capacity swapForY p f (r % 2 ^ 64) ∧
      0 < BinQuote.outputFor swapForY p (a - BinQuote.feeIn f a)

namespace QuotesAlike

variable {swapForY : Bool} {p f r a : Nat}

instance : Decidable (QuotesAlike swapForY p f r a) :=
  decidable_of_iff ((BinQuote.capacity swapForY p f r ≤ a →
      r < 2 ^ 64 ∧ BinQuote.capacity swapForY p f r ≤ a % 2 ^ 64) ∧
    (a < BinQuote.capacity swapForY p f r →
      a < 2 ^ 64 ∧ a < BinQuote.capacity swapForY p f (r % 2 ^ 64) ∧
        0 < BinQuote.outputFor swapForY p (a - BinQuote.feeIn f a)))
    ⟨fun h => ⟨h.1, h.2⟩, fun h => ⟨h.drained, h.taken⟩⟩

theorem quote_eq (h : QuotesAlike swapForY p f r a) (hp : 0 < p) (hf : f < BinQuote.FEE_PRECISION) :
    BinQuote.quote swapForY p f (r % 2 ^ 64) (a % 2 ^ 64) = BinQuote.quote swapForY p f r a := by
  by_cases hcap : BinQuote.capacity swapForY p f r ≤ a
  · obtain ⟨hr, hle⟩ := h.drained hcap
    rw [Nat.mod_eq_of_lt hr, BinQuote.quote_of_le hle, BinQuote.quote_of_le hcap]
  · obtain ⟨ha, hlt, -⟩ := h.taken (Nat.lt_of_not_le hcap)
    rw [Nat.mod_eq_of_lt ha]
    exact BinQuote.quote_congr hp hf (Nat.mod_le _ _) hlt

theorem amountIn_lt (h : QuotesAlike swapForY p f r a) :
    (BinQuote.quote swapForY p f r a).amountIn < 2 ^ 64 := by
  by_cases hcap : BinQuote.capacity swapForY p f r ≤ a
  · obtain ⟨-, hle⟩ := h.drained hcap
    rw [BinQuote.quote_of_le hcap]
    exact Nat.lt_of_le_of_lt hle (Nat.mod_lt _ (by omega))
  · rw [BinQuote.quote_of_lt (Nat.lt_of_not_le hcap)]
    exact (h.taken (Nat.lt_of_not_le hcap)).1

theorem amountOut_lt (h : QuotesAlike swapForY p f r a) (hp : 0 < p)
    (hf : f < BinQuote.FEE_PRECISION) :
    (BinQuote.quote swapForY p f r a).amountOut < 2 ^ 64 := by
  rw [← h.quote_eq hp hf]
  exact Nat.lt_of_le_of_lt (BinQuote.quote_amountOut_le hf) (Nat.mod_lt _ (by omega))

theorem amountOut_pos (h : QuotesAlike swapForY p f r a) (hr : 0 < r) :
    0 < (BinQuote.quote swapForY p f r a).amountOut := by
  by_cases hcap : BinQuote.capacity swapForY p f r ≤ a
  · rw [BinQuote.quote_of_le hcap]
    exact hr
  · rw [BinQuote.quote_of_lt (Nat.lt_of_not_le hcap)]
    exact (h.taken (Nat.lt_of_not_le hcap)).2.2

end QuotesAlike

/-! ## Bins -/

section Bins

variable {prof : BuildProfile} {swapForY : Bool} {z price parameters : U256} {binStep id a f : Nat}
  {q : BinQuote.Quote}

/-- **The amounts of a bin are ported** where the low limbs give the same quote. -/
theorem getAmounts_port (hprice : Moe.PriceHelper.getPriceFromId prof id binStep = .ok price)
    (hp : price ≠ 0) (hfee : Moe.PairParameterHelper.getTotalFee parameters binStep = .ok f)
    (hf : f ≤ Moe.MAX_FEE_U128) (ha : a < 2 ^ 128)
    (hcap : BinQuote.capacity swapForY price.toNat f (PackedUint128Math.decode z (!swapForY)) <
      2 ^ 128)
    (hq : BinQuote.quote swapForY price.toNat f (PackedUint128Math.decode z (!swapForY) % 2 ^ 64)
      (a % 2 ^ 64) = q)
    (hin : q.amountIn < 2 ^ 128) (hout : q.amountOut < 2 ^ 128) (hfees : q.fee < 2 ^ 128)
    (hliquidity : ∃ L, BinHelper.getLiquidity (z + PackedUint128Math.encode q.amountIn swapForY -
      PackedUint128Math.encode q.amountOut (!swapForY)) price = .ok L ∧
        L ≤ Constants.MAX_LIQUIDITY_PER_BIN) :
    Moe.BinHelper.getAmounts prof z parameters binStep swapForY id
        (PackedUint128Math.encode a swapForY) =
      .ok (PackedUint128Math.encode q.amountIn swapForY,
        PackedUint128Math.encode q.amountOut (!swapForY),
        PackedUint128Math.encode q.fee swapForY) := by
  have hpos : 0 < price.toNat := BitVec.toNat_pos_of_ne_zero hp
  have hfP : f < BinQuote.FEE_PRECISION := by
    have hf' : f ≤ 10 ^ 17 := hf
    unfold BinQuote.FEE_PRECISION
    omega
  have hreserve : (if swapForY then Moe.PackedUint128Math.decodeY z
      else Moe.PackedUint128Math.decodeX z) = PackedUint128Math.decode z (!swapForY) % 2 ^ 64 := by
    rw [← moe_decodeFirst_eq]
    cases swapForY with
    | true => rfl
    | false => rfl
  have hamount : Moe.PackedUint128Math.decodeFirst (PackedUint128Math.encode a swapForY) swapForY =
      a % 2 ^ 64 := by
    rw [moe_decodeFirst_eq, PackedUint128Math.decode_encode ha]
  have hmod : ∀ n, n % 2 ^ 64 < 2 ^ 128 := fun n =>
    Nat.lt_trans (Nat.mod_lt _ (by decide)) (by decide)
  have hswap : Moe.BinHelper.swapAmounts prof parameters binStep swapForY price
      (PackedUint128Math.decode z (!swapForY) % 2 ^ 64) (a % 2 ^ 64) =
        .ok (q.amountIn, q.amountOut, q.fee) := by
    rw [← hq]
    refine Moe.BinHelper.swapAmounts_eq hp (hmod _) (hmod _) hfee hf ?_
    exact Nat.lt_of_le_of_lt (BinQuote.capacity_mono hpos hfP (Nat.mod_le _ _)) hcap
  obtain ⟨L, hL, hmax⟩ := hliquidity
  obtain ⟨L', hL', hle⟩ := getLiquidity_port hL
  unfold Moe.BinHelper.getAmounts
  rw [hprice, ok_bind]
  dsimp only
  rw [hreserve, hamount, hswap, ok_bind]
  dsimp only
  rw [moe_encode_eq hin, moe_encode_not_eq hout, moe_encode_eq hfees, hL', ok_bind, if_neg]
  · rfl
  · have hsame : Moe.MAX_LIQUIDITY_PER_BIN = Constants.MAX_LIQUIDITY_PER_BIN := rfl
    rw [hsame, gt_iff_lt, BitVec.lt_def]
    exact Nat.not_lt.mpr (Nat.le_trans hle (BitVec.le_def.mp hmax))

end Bins

/-! ## The swap in a bin -/

theorem liftMoe_ok {α : Type} (x : α) : liftMoe (.ok x) = .ok x := rfl

namespace LiquidityBook.LBPair

/-- The true reserves of a bin, as the Rust code keeps them. -/
def binReserve (pair : LBPair) (id : Nat) : BinReserve where
  reserveX := PackedUint128Math.decodeX (pair.bins id)
  reserveY := PackedUint128Math.decodeY (pair.bins id)

variable {pair : LBPair} {swapForY : Bool} {id : Nat}

theorem binReserve_reserveIn :
    (pair.binReserve id).reserveIn swapForY = pair.reserveIn swapForY id := by
  unfold binReserve BinReserve.reserveIn reserveIn PackedUint128Math.decode
  rfl

theorem binReserve_reserveOut :
    (pair.binReserve id).reserveOut swapForY = pair.reserveOut swapForY id := by
  unfold binReserve BinReserve.reserveOut reserveOut PackedUint128Math.decode
  cases swapForY with
  | true => rfl
  | false => rfl

theorem encode_binReserve : Moe.PackedUint128Math.encode (pair.binReserve id).reserveX
    (pair.binReserve id).reserveY = pair.bins id := by
  unfold binReserve
  rw [Moe.PackedUint128Math.encode_eq, PackedUint128Math.decodeX_eq, PackedUint128Math.decodeY_eq,
    Words.pack_low_high]

end LiquidityBook.LBPair

section

variable {prof : BuildProfile} {pair : MoeLbPair} {lb : LBPair} {swapForY : Bool}
  {mp : MoeParameters} {s : QuoteState} {a f : Nat} {parameters price : U256} {q : BinQuote.Quote}

/-- Amounts that quote alike are limbs. -/
theorem QuotesAlike.amounts_lt (hswap : lb.BinSwap swapForY s a parameters price f q)
    (halike : QuotesAlike swapForY price.toNat f (lb.reserveOut swapForY s.id) a) :
    q.amountIn < 2 ^ 64 ∧ q.amountOut < 2 ^ 64 ∧ q.fee < 2 ^ 64 := by
  have hamountIn : q.amountIn < 2 ^ 64 := hswap.quote_eq ▸ halike.amountIn_lt
  exact ⟨hamountIn, hswap.quote_eq ▸ halike.amountOut_lt hswap.price_pos hswap.fee_lt,
    Nat.lt_of_le_of_lt hswap.fee_le_amountIn hamountIn⟩

/-- **The swap in a bin is ported** where both tokens are in the bin and its low limbs quote alike.
-/
theorem computeBinSwap_port (hswap : lb.BinSwap swapForY s a parameters price f q)
    (hunpacks : mp.Unpacks s.parameters) (hid : s.id < 2 ^ 24) (hstep : lb.binStep < 2 ^ 16)
    (hsame : pair.binStep = lb.binStep) (hbin : pair.bins.lookup s.id = some (lb.binReserve s.id))
    (hin : lb.reserveIn swapForY s.id ≠ 0) (hout : lb.reserveOut swapForY s.id ≠ 0)
    (halike : QuotesAlike swapForY price.toNat f (lb.reserveOut swapForY s.id) a)
    (ha : a < 2 ^ 128) :
    pair.computeBinSwap prof (mp.updateVolatilityAccumulator s.id) s.id swapForY
        (BitVec.ofNat 256 a) =
      .ok (BitVec.ofNat 256 q.amountIn, BitVec.ofNat 256 q.amountOut, BitVec.ofNat 256 q.fee,
        q.amountOut == lb.reserveOut swapForY s.id) := by
  obtain ⟨hunpacks', hacc⟩ := hunpacks.updateVolatilityAccumulator hid hswap.parameters_eq
  obtain ⟨p, hpack, hfee⟩ := hunpacks'.getTotalFee hacc hstep hswap.fee_eq
  have hprice : Moe.PriceHelper.getPriceFromId prof s.id lb.binStep = .ok price :=
    getPriceFromId_eq_ok hid hstep hswap.price_eq
  obtain ⟨hamountIn, hamountOut, hfees⟩ := halike.amounts_lt hswap
  have hquote := (halike.quote_eq hswap.price_pos hswap.fee_lt).trans hswap.quote_eq.symm
  have hamounts := getAmounts_port hprice
    (PriceHelper.getPriceFromId_ne_zero hswap.price_eq) hfee hswap.fee_le ha hswap.capacity_lt
    hquote (by omega) (by omega) (by omega) hswap.liquidity_le
  have hboth : ¬ ((lb.binReserve s.id).reserveX = 0 ∨ (lb.binReserve s.id).reserveY = 0) := by
    rw [← LBPair.binReserve_reserveIn] at hin
    rw [← LBPair.binReserve_reserveOut] at hout
    unfold BinReserve.reserveIn at hin
    unfold BinReserve.reserveOut at hout
    rintro (hx | hy)
    · cases swapForY with
      | true => exact hin hx
      | false => exact hout hx
    · cases swapForY with
      | true => exact hout hy
      | false => exact hin hy
  have hleft : tryU128 (BitVec.ofNat 256 a) = .ok a := by
    unfold tryU128
    rw [Moe.toU128_of_lt]
    · rw [BitVec.toNat_ofNat, Nat.mod_eq_of_lt (by omega)]
    · rw [BitVec.toNat_ofNat]
      omega
  have hread : ∀ {n : Nat} (first : Bool), n < 2 ^ 64 →
      Moe.PackedUint128Math.decodeFirst (PackedUint128Math.encode n first) first = n := by
    intro n first hn
    rw [moe_decodeFirst_eq, PackedUint128Math.decode_encode (by omega), Nat.mod_eq_of_lt hn]
  unfold MoeLbPair.computeBinSwap
  rw [hbin]
  dsimp only
  rw [if_neg hboth, hpack, liftMoe_ok, ok_bind, hleft, ok_bind, LBPair.encode_binReserve,
    moe_encode_eq ha, hsame, hamounts, liftMoe_ok, ok_bind]
  dsimp only
  rw [hread swapForY hamountIn, hread (!swapForY) hamountOut, hread swapForY hfees,
    ← LBPair.binReserve_reserveOut]
  rfl

end

end ArbitrageBot
