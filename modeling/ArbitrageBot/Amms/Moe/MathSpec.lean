import ArbitrageBot.Amms.Moe.Math
import ArbitrageBot.Contracts.LiquidityBook.BinQuote
import ArbitrageBot.Lib.BitFields

/-!
# Moe liquidity-book mathematics: what the functions compute

On reserves and inputs below `2 ^ 128` the functions return the exact numbers of a bin's quote; the
lanes of packed words come back cut to their low limb.
-/

namespace ArbitrageBot.Moe

open Lib LiquidityBook

theorem toU128_of_lt {ε : Type} {e : ε} {val : U256} (h : val.toNat < 2 ^ 128) :
    toU128 e val = .ok val.toNat := if_pos h

theorem toU128_eq_ok {ε : Type} {e : ε} {val : U256} {v : Nat} (h : toU128 e val = .ok v) :
    v = val.toNat ∧ v < 2 ^ 128 := by
  unfold toU128 at h
  split at h
  · cases h
    exact ⟨rfl, by assumption⟩
  · cases h

/-! ## Lanes -/

namespace PackedUint128Math

theorem encode_eq (x1 x2 : Nat) : encode x1 x2 = Words.pack x1 x2 := rfl

theorem decodeX_eq (z : U256) : decodeX z = Words.low z % 2 ^ 64 := by
  unfold decodeX limb0 MASK_128 Words.low
  rw [BitVec.toNat_and, BitVec.toNat_ofNat, Nat.mod_eq_of_lt (by omega : 2 ^ 128 - 1 < 2 ^ 256),
    Nat.and_two_pow_sub_one_eq_mod]

theorem decodeY_eq (z : U256) : decodeY z = Words.high z % 2 ^ 64 := by
  unfold decodeY limb0 OFFSET Words.high
  rw [BitVec.toNat_ushiftRight, Nat.shiftRight_eq_div_pow]

theorem decodeFirst_lt (z : U256) (isFirst : Bool) : decodeFirst z isFirst < 2 ^ 64 := by
  unfold decodeFirst
  rw [decodeX_eq, decodeY_eq]
  split
  · exact Nat.mod_lt _ (by omega)
  · exact Nat.mod_lt _ (by omega)

/-- The lane of a token, read back from a word that holds nothing of the other token. -/
theorem decodeFirst_encode {n : Nat} (hn : n < 2 ^ 128) (isFirst : Bool) :
    decodeFirst (if isFirst then encode n 0 else encode 0 n) isFirst = n % 2 ^ 64 := by
  unfold decodeFirst
  rw [decodeX_eq, decodeY_eq, encode_eq, encode_eq]
  cases isFirst with
  | true =>
    rw [if_pos rfl, if_pos rfl, Words.low_pack hn (by omega)]
  | false =>
    rw [if_neg Bool.false_ne_true, if_neg Bool.false_ne_true, Words.high_pack (by omega) hn]

end PackedUint128Math

/-! ## Rounded products and quotients -/

namespace Uint256x256Math

variable {x y d : U256}

theorem mulShiftRoundDown_eq (hx : x.toNat < 2 ^ 128) :
    ∃ w, mulShiftRoundDown x y 128 = .ok w ∧ w.toNat = x.toNat * y.toNat / 2 ^ 128 :=
  Words.shiftProds_eq_ok _ hx

theorem mulShiftRoundUp_eq (hx : x.toNat < 2 ^ 128) :
    ∃ w, mulShiftRoundUp x y 128 = .ok w ∧ w.toNat = x.toNat * y.toNat ⌈/⌉ 2 ^ 128 := by
  obtain ⟨w, hw, hval⟩ := mulShiftRoundDown_eq (y := y) hx
  have hlt := Words.prod_shift_lt (y := y) hx
  have hzero := Words.mulMod_eq_zero_iff (x := x) (y := y) (m := 1 <<< 128) (by decide)
  have hone : (1 <<< 128 : U256).toNat = 2 ^ 128 := rfl
  rw [hone] at hzero
  unfold mulShiftRoundUp
  rw [hw, ok_bind]
  exact ⟨_, rfl, Words.toNat_roundUp (by positivity) hval hzero (by omega)⟩

/-- A dividend of one word is divided as it is. -/
theorem getEndOfDivRoundDown_zero {prod0 : U256} (hd : d ≠ 0) :
    getEndOfDivRoundDown x y d prod0 0 = .ok (prod0 / d) := by
  unfold getEndOfDivRoundDown
  rw [if_neg hd, if_pos rfl]

theorem shiftDivRoundDown_eq (hx : x.toNat < 2 ^ 128) (hd : d ≠ 0) :
    ∃ w, shiftDivRoundDown x 128 d = .ok w ∧ w.toNat = x.toNat * 2 ^ 128 / d.toNat := by
  refine ⟨x <<< 128 / d, ?_, by rw [BitVec.toNat_udiv, Words.toNat_shiftLeft_lane hx]⟩
  unfold shiftDivRoundDown
  rw [if_neg hd, if_neg (by decide), Words.ushiftRight_lane hx]
  exact getEndOfDivRoundDown_zero hd

theorem shiftDivRoundUp_eq (hx : x.toNat < 2 ^ 128) (hd : d ≠ 0) :
    ∃ w, shiftDivRoundUp x 128 d = .ok w ∧ w.toNat = x.toNat * 2 ^ 128 ⌈/⌉ d.toNat := by
  obtain ⟨w, hw, hval⟩ := shiftDivRoundDown_eq hx hd
  have hpos : 0 < d.toNat := BitVec.toNat_pos_of_ne_zero hd
  have hle := Nat.div_le_self (x.toNat * 2 ^ 128) d.toNat
  have hzero := Words.mulMod_eq_zero_iff (x := x) (y := 1 <<< 128) hd
  have hone : (1 <<< 128 : U256).toNat = 2 ^ 128 := rfl
  rw [hone] at hzero
  unfold shiftDivRoundUp
  rw [hw, ok_bind]
  exact ⟨_, rfl, Words.toNat_roundUp hpos hval hzero (by omega)⟩

end Uint256x256Math

/-! ## Fees -/

namespace FeeHelper

variable {a m f : Nat}

theorem toNat_PRECISION : PRECISION.toNat = 10 ^ 18 := rfl

theorem getFeeAmountFrom_eq (ha : a < 2 ^ 128) (hf : f ≤ MAX_FEE_U128) :
    getFeeAmountFrom a f = .ok (BinQuote.feeIn f a) := by
  have hf' : f ≤ 10 ^ 17 := hf
  have hprod : a * f < 2 ^ 128 * 10 ^ 18 := Nat.mul_lt_mul_of_lt_of_le ha (by omega) (by omega)
  have hval : ((BitVec.ofNat 256 a * BitVec.ofNat 256 f + (PRECISION - 1)) / PRECISION).toNat =
      BinQuote.feeIn f a := by
    have hone : (PRECISION - 1).toNat = 10 ^ 18 - 1 := rfl
    rw [BitVec.toNat_udiv, BitVec.toNat_add, BitVec.toNat_mul, BitVec.toNat_ofNat,
      BitVec.toNat_ofNat, Nat.mod_eq_of_lt (by omega : a < 2 ^ 256),
      Nat.mod_eq_of_lt (by omega : f < 2 ^ 256), hone, toNat_PRECISION,
      Nat.mod_eq_of_lt (by omega : a * f < 2 ^ 256), Nat.mod_eq_of_lt (by omega)]
    unfold BinQuote.feeIn BinQuote.FEE_PRECISION
    rw [Nat.ceilDiv_eq_add_pred_div, Nat.add_sub_assoc (by omega)]
  have hle := BinQuote.feeIn_le (a := a) (f := f) (by unfold BinQuote.FEE_PRECISION; omega)
  unfold getFeeAmountFrom ensureFee
  rw [if_neg (by omega), ok_bind]
  dsimp only
  rw [toU128_of_lt (by omega), hval]

theorem getFeeAmount_eq (hm : m < 2 ^ 128) (hf : f ≤ MAX_FEE_U128) :
    getFeeAmount m f = .ok (BinQuote.feeOn f m) := by
  have hf' : f ≤ 10 ^ 17 := hf
  have hprod : m * f < 2 ^ 128 * 10 ^ 18 := Nat.mul_lt_mul_of_lt_of_le hm (by omega) (by omega)
  have hd : (BitVec.ofNat 256 (PRECISION_U128 - f)).toNat = 10 ^ 18 - f := by
    rw [BitVec.toNat_ofNat]
    unfold PRECISION_U128
    omega
  have hd' : (BitVec.ofNat 256 (PRECISION_U128 - f) - 1).toNat = 10 ^ 18 - f - 1 := by
    have hone : (1 : U256).toNat = 1 := rfl
    rw [BitVec.toNat_sub, hd, hone]
    omega
  have hval : ((BitVec.ofNat 256 m * BitVec.ofNat 256 f +
      (BitVec.ofNat 256 (PRECISION_U128 - f) - 1)) /
        BitVec.ofNat 256 (PRECISION_U128 - f)).toNat = BinQuote.feeOn f m := by
    rw [BitVec.toNat_udiv, BitVec.toNat_add, BitVec.toNat_mul, BitVec.toNat_ofNat,
      BitVec.toNat_ofNat, Nat.mod_eq_of_lt (by omega : m < 2 ^ 256),
      Nat.mod_eq_of_lt (by omega : f < 2 ^ 256), hd', hd,
      Nat.mod_eq_of_lt (by omega : m * f < 2 ^ 256), Nat.mod_eq_of_lt (by omega)]
    unfold BinQuote.feeOn BinQuote.FEE_PRECISION
    rw [Nat.ceilDiv_eq_add_pred_div, Nat.add_sub_assoc (by omega)]
  have hle := BinQuote.feeOn_le (m := m) (f := f) (by unfold BinQuote.FEE_PRECISION; omega)
    (by unfold BinQuote.FEE_PRECISION; omega)
  unfold getFeeAmount ensureFee
  rw [if_neg (by omega), ok_bind]
  dsimp only
  rw [toU128_of_lt (by omega), hval]

theorem getFeeAmount_eq_ok {v : Nat} (hm : m < 2 ^ 128) (h : getFeeAmount m f = .ok v) :
    f ≤ MAX_FEE_U128 ∧ v = BinQuote.feeOn f m := by
  have hf : f ≤ MAX_FEE_U128 := by
    unfold getFeeAmount ensureFee at h
    split at h
    · cases h
    · omega
  rw [getFeeAmount_eq hm hf] at h
  cases h
  exact ⟨hf, rfl⟩

end FeeHelper

/-! ## Bins -/

namespace BinHelper

open Uint256x256Math

variable {prof : BuildProfile} {swapForY : Bool} {price parameters amounts : U256}
  {binStep r n a f v : Nat}

theorem toNat_ofNat_lane (h : n < 2 ^ 128) : (BitVec.ofNat 256 n).toNat = n := by
  rw [BitVec.toNat_ofNat, Nat.mod_eq_of_lt (by omega)]

/-- The input is computed exactly in 256 bits and then has to fit 128. -/
theorem maxAmountIn_spec (hp : price ≠ 0) (hr : r < 2 ^ 128) :
    ∃ w : U256, maxAmountIn swapForY r price = safe128 w ∧
      w.toNat = BinQuote.inputFor swapForY price.toNat r := by
  have hlane := toNat_ofNat_lane hr
  unfold maxAmountIn SCALE_OFFSET BinQuote.inputFor
  cases swapForY with
  | true =>
    obtain ⟨w, hw, hval⟩ := shiftDivRoundUp_eq (hlane.symm ▸ hr) hp
    rw [hlane] at hval
    simp only [↓reduceIte]
    exact ⟨w, by rw [hw, ok_bind], hval⟩
  | false =>
    obtain ⟨w, hw, hval⟩ := mulShiftRoundUp_eq (y := price) (hlane.symm ▸ hr)
    rw [hlane] at hval
    simp only [Bool.false_eq_true, ↓reduceIte]
    exact ⟨w, by rw [hw, ok_bind], hval⟩

theorem amountOutFor_spec (hp : price ≠ 0) (hn : n < 2 ^ 128) :
    ∃ w : U256, amountOutFor swapForY n price = safe128 w ∧
      w.toNat = BinQuote.outputFor swapForY price.toNat n := by
  have hlane := toNat_ofNat_lane hn
  unfold amountOutFor SCALE_OFFSET BinQuote.outputFor
  cases swapForY with
  | true =>
    obtain ⟨w, hw, hval⟩ := mulShiftRoundDown_eq (y := price) (hlane.symm ▸ hn)
    rw [hlane] at hval
    simp only [↓reduceIte]
    exact ⟨w, by rw [hw, ok_bind], hval⟩
  | false =>
    obtain ⟨w, hw, hval⟩ := shiftDivRoundDown_eq (hlane.symm ▸ hn) hp
    rw [hlane] at hval
    simp only [Bool.false_eq_true, ↓reduceIte]
    exact ⟨w, by rw [hw, ok_bind], hval⟩

theorem maxAmountIn_eq (hp : price ≠ 0) (hr : r < 2 ^ 128)
    (hfit : BinQuote.inputFor swapForY price.toNat r < 2 ^ 128) :
    maxAmountIn swapForY r price = .ok (BinQuote.inputFor swapForY price.toNat r) := by
  obtain ⟨w, hw, hval⟩ := @maxAmountIn_spec swapForY price r hp hr
  rw [hw, ← hval]
  exact toU128_of_lt (hval ▸ hfit)

theorem maxAmountIn_eq_ok (hp : price ≠ 0) (hr : r < 2 ^ 128)
    (h : maxAmountIn swapForY r price = .ok v) :
    v = BinQuote.inputFor swapForY price.toNat r ∧ v < 2 ^ 128 := by
  obtain ⟨w, hw, hval⟩ := @maxAmountIn_spec swapForY price r hp hr
  rw [hw] at h
  rw [← hval]
  exact toU128_eq_ok h

theorem amountOutFor_eq (hp : price ≠ 0) (hn : n < 2 ^ 128)
    (hfit : BinQuote.outputFor swapForY price.toNat n < 2 ^ 128) :
    amountOutFor swapForY n price = .ok (BinQuote.outputFor swapForY price.toNat n) := by
  obtain ⟨w, hw, hval⟩ := @amountOutFor_spec swapForY price n hp hn
  rw [hw, ← hval]
  exact toU128_of_lt (hval ▸ hfit)

theorem amountOutFor_eq_ok (hp : price ≠ 0) (hn : n < 2 ^ 128)
    (h : amountOutFor swapForY n price = .ok v) :
    v = BinQuote.outputFor swapForY price.toNat n := by
  obtain ⟨w, hw, hval⟩ := @amountOutFor_spec swapForY price n hp hn
  rw [hw] at h
  rw [← hval]
  exact (toU128_eq_ok h).1

/-- **One bin**: the amounts of a swap are the exact quote, as long as the bin's capacity is a
`u128`. -/
theorem swapAmounts_eq (hp : price ≠ 0) (hr : r < 2 ^ 128) (ha : a < 2 ^ 128)
    (hfee : PairParameterHelper.getTotalFee parameters binStep = .ok f) (hf : f ≤ MAX_FEE_U128)
    (hfit : BinQuote.capacity swapForY price.toNat f r < 2 ^ 128) :
    swapAmounts prof parameters binStep swapForY price r a =
      .ok ((BinQuote.quote swapForY price.toNat f r a).amountIn,
        (BinQuote.quote swapForY price.toNat f r a).amountOut,
        (BinQuote.quote swapForY price.toNat f r a).fee) := by
  have hfP : f < BinQuote.FEE_PRECISION := by
    have hf' : f ≤ 10 ^ 17 := hf
    unfold BinQuote.FEE_PRECISION
    omega
  have hcap : BinQuote.capacity swapForY price.toNat f r =
    BinQuote.inputFor swapForY price.toNat r +
      BinQuote.feeOn f (BinQuote.inputFor swapForY price.toNat r) := rfl
  have hin : BinQuote.inputFor swapForY price.toNat r < 2 ^ 128 := by omega
  unfold swapAmounts
  rw [maxAmountIn_eq hp hr hin, ok_bind, hfee, ok_bind, FeeHelper.getFeeAmount_eq hin hf, ok_bind,
    BuildProfile.unsigned_of_range (by omega) (by push_cast; omega), ok_bind]
  have hsum : (((BinQuote.inputFor swapForY price.toNat r : Nat) : Int) +
      (BinQuote.feeOn f (BinQuote.inputFor swapForY price.toNat r) : Nat)).toNat =
        BinQuote.capacity swapForY price.toNat f r := by omega
  rw [hsum]
  by_cases h : BinQuote.capacity swapForY price.toNat f r ≤ a
  · rw [if_pos h, BinQuote.quote_of_le h]
    rfl
  · have hle := BinQuote.feeIn_le (a := a) hfP
    have hout := BinQuote.outputFor_net_lt hfP (Nat.lt_of_not_le h)
    rw [if_neg h, BinQuote.quote_of_lt (Nat.lt_of_not_le h), FeeHelper.getFeeAmountFrom_eq ha hf,
      ok_bind, BuildProfile.unsigned_of_range (by omega) (by omega), ok_bind]
    rw [Int.toNat_sub, amountOutFor_eq hp (by omega) (by omega), ok_bind,
      if_neg (Nat.not_lt.mpr hout.le)]
    rfl

/-- A bin takes no more than what is left. -/
theorem swapAmounts_le {i o v : Nat}
    (h : swapAmounts prof parameters binStep swapForY price r a = .ok (i, o, v)) : i ≤ a := by
  unfold swapAmounts at h
  simp only [bind_eq_ok] at h
  obtain ⟨maxIn, -, totalFee, -, maxFee, -, total, -, h⟩ := h
  split at h
  · rename_i hge
    cases h
    exact hge
  · simp only [bind_eq_ok] at h
    obtain ⟨fee, -, net, -, out, -, h⟩ := h
    cases h
    exact Nat.le_refl _

theorem getAmounts_le {binReserves ins outs fees : U256} {id : Nat} (ha : a < 2 ^ 128)
    (h : getAmounts prof binReserves parameters binStep swapForY id
      (if swapForY then PackedUint128Math.encode a 0 else PackedUint128Math.encode 0 a) =
        .ok (ins, outs, fees)) :
    PackedUint128Math.decodeFirst ins swapForY ≤ a := by
  unfold getAmounts at h
  simp only [bind_eq_ok] at h
  obtain ⟨price, -, ⟨i, o, v⟩, hswap, L, -, h⟩ := h
  rw [PackedUint128Math.decodeFirst_encode ha] at hswap
  have hle := swapAmounts_le hswap
  split at h
  · cases h
  · cases h
    rw [PackedUint128Math.decodeFirst_encode (by omega)]
    omega

/-- The liquidity of the lanes, cut to their low limbs. -/
theorem getLiquidity_eq_ok_iff {L : U256} : getLiquidity amounts price = .ok L ↔
    price.toNat * (Words.low amounts % 2 ^ 64) + Words.high amounts % 2 ^ 64 * 2 ^ 128 < 2 ^ 256 ∧
      L.toNat = price.toNat * (Words.low amounts % 2 ^ 64) +
        Words.high amounts % 2 ^ 64 * 2 ^ 128 := by
  have hx : (BitVec.ofNat 256 (PackedUint128Math.decodeX amounts)).toNat =
      Words.low amounts % 2 ^ 64 := by
    rw [PackedUint128Math.decodeX_eq, toNat_ofNat_lane (by omega)]
  have hy : (BitVec.ofNat 256 (PackedUint128Math.decodeY amounts)).toNat =
      Words.high amounts % 2 ^ 64 := by
    rw [PackedUint128Math.decodeY_eq, toNat_ofNat_lane (by omega)]
  rw [← hx, ← hy]
  exact Words.checkedMulAdd_eq_ok_iff (by omega)

end BinHelper

end ArbitrageBot.Moe
