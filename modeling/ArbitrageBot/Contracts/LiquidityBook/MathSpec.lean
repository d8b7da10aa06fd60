import ArbitrageBot.Contracts.LiquidityBook.Math
import ArbitrageBot.Contracts.LiquidityBook.BinQuote

/-!
# The libraries of the liquidity-book contracts: what a call that returns has computed

A call that does not revert has returned the exact amounts of the bin's quote, within the lanes, and
has left the bin within the liquidity bound.
-/

namespace ArbitrageBot.LiquidityBook

open Lib

/-! ## Lanes -/

namespace PackedUint128Math

variable {x y z : U256} {a : Nat}

theorem decodeX_eq (z : U256) : decodeX z = Words.low z := by
  unfold decodeX MASK_128 Words.low
  rw [BitVec.toNat_and, ← Nat.and_two_pow_sub_one_eq_mod]
  rfl

theorem decodeY_eq (z : U256) : decodeY z = Words.high z := by
  unfold decodeY OFFSET Words.high
  rw [BitVec.toNat_ushiftRight, Nat.shiftRight_eq_div_pow]

theorem encodeFirst_eq (ha : a < 2 ^ 128) : encodeFirst a = Words.pack a 0 := by
  apply BitVec.eq_of_toNat_eq
  rw [Words.toNat_pack ha (by omega)]
  unfold encodeFirst MASK_128
  have hmask : (0xffffffffffffffffffffffffffffffff#256).toNat = 2 ^ 128 - 1 := rfl
  rw [BitVec.toNat_and, BitVec.toNat_ofNat, Nat.mod_eq_of_lt (by omega : a < 2 ^ 256), hmask,
    Nat.and_two_pow_sub_one_eq_mod]
  omega

theorem encodeSecond_eq (a : Nat) : encodeSecond a = Words.pack 0 a := by
  unfold encodeSecond Words.pack OFFSET
  rw [BitVec.zero_or]

theorem encode_eq (ha : a < 2 ^ 128) (first : Bool) :
    encode a first = if first then Words.pack a 0 else Words.pack 0 a := by
  unfold encode
  rw [encodeFirst_eq ha, encodeSecond_eq]

theorem decode_eq (z : U256) (first : Bool) :
    decode z first = if first then Words.low z else Words.high z := by
  unfold decode
  rw [decodeX_eq, decodeY_eq]

theorem decode_lt (z : U256) (first : Bool) : decode z first < 2 ^ 128 := by
  rw [decode_eq]
  cases first with
  | true => exact Words.low_lt z
  | false => exact Words.high_lt z

theorem decode_encode (ha : a < 2 ^ 128) (first : Bool) : decode (encode a first) first = a := by
  rw [decode_eq, encode_eq ha]
  cases first with
  | true => exact Words.low_pack ha (by omega)
  | false => exact Words.high_pack (by omega) ha

theorem decode_encode_not (ha : a < 2 ^ 128) (first : Bool) :
    decode (encode a first) (!first) = 0 := by
  rw [decode_eq, encode_eq ha]
  cases first with
  | true => exact Words.high_pack ha (by omega)
  | false => exact Words.low_pack (by omega) ha

theorem add_eq_ok (h : add x y = .ok z) (first : Bool) :
    z = x + y ∧ decode z first = decode x first + decode y first := by
  unfold add at h
  dsimp only at h
  split at h
  · cases h
  · rename_i hno
    rw [not_or] at hno
    cases h
    obtain ⟨hlow, hhigh⟩ := Words.lanes_add hno.1 hno.2
    rw [decode_eq, decode_eq, decode_eq]
    cases first with
    | true => exact ⟨rfl, hlow⟩
    | false => exact ⟨rfl, hhigh⟩

theorem sub_eq_ok (h : sub x y = .ok z) (first : Bool) :
    z = x - y ∧ decode z first + decode y first = decode x first := by
  unfold sub at h
  dsimp only at h
  split at h
  · cases h
  · rename_i hno
    rw [not_or] at hno
    cases h
    obtain ⟨hlow, hhigh⟩ := Words.lanes_sub hno.1 hno.2
    rw [decode_eq, decode_eq, decode_eq]
    cases first with
    | true => exact ⟨rfl, hlow⟩
    | false => exact ⟨rfl, hhigh⟩

end PackedUint128Math

/-! ## Rounded products and quotients -/

theorem checkedIncr_of_lt {w : U256} (h : w.toNat + 1 < 2 ^ 256) : checkedIncr w = .ok (w + 1) := by
  unfold checkedIncr
  rw [if_neg]
  intro hmax
  rw [hmax, BitVec.toNat_allOnes] at h
  omega

/-- The rounding up of a quotient with its checked increment. -/
theorem roundUp_eq {w r : U256} {p q : Nat} (hq : 0 < q) (hw : w.toNat = p / q)
    (hr : r = 0 ↔ p % q = 0) (hlt : p / q + 1 < 2 ^ 256) :
    ∃ v, (if r ≠ 0 then checkedIncr w else return w) = .ok v ∧ v.toNat = p ⌈/⌉ q := by
  refine ⟨if r = 0 then w else w + 1, ?_, Words.toNat_roundUp hq hw hr hlt⟩
  by_cases h : r = 0
  · rw [if_neg (not_not.mpr h), if_pos h]
    rfl
  · rw [if_pos h, if_neg h, checkedIncr_of_lt (by omega)]

namespace Uint256x256Math

variable {x y d : U256}

theorem mulShiftRoundDown_eq (hx : x.toNat < 2 ^ 128) :
    ∃ w, mulShiftRoundDown x y 128 = .ok w ∧ w.toNat = x.toNat * y.toNat / 2 ^ 128 :=
  Words.shiftProds_eq_ok _ hx

theorem mulShiftRoundUp_eq (hx : x.toNat < 2 ^ 128) :
    ∃ w, mulShiftRoundUp x y 128 = .ok w ∧ w.toNat = x.toNat * y.toNat ⌈/⌉ 2 ^ 128 := by
  obtain ⟨w, hw, hval⟩ := mulShiftRoundDown_eq (y := y) hx
  have hlt := Words.prod_shift_lt (y := y) hx
  have hzero := Words.mulMod_eq_zero_iff (x := x) (y := y) (m := 1 <<< 128) (by decide)
  have hone : (1 <<< 128 : U256).toNat = 2 ^ 128 := rfl
  rw [hone] at hzero
  unfold mulShiftRoundUp
  rw [hw, ok_bind]
  exact roundUp_eq (by positivity) hval hzero (by omega)

/-- A dividend of one word is divided as it is. -/
theorem getEndOfDivRoundDown_zero {prod0 : U256} (hd : d ≠ 0) :
    getEndOfDivRoundDown x y d prod0 0 = .ok (prod0 / d) := by
  unfold getEndOfDivRoundDown
  rw [if_pos rfl, if_neg hd]

theorem shiftDivRoundDown_eq (hx : x.toNat < 2 ^ 128) (hd : d ≠ 0) :
    ∃ w, shiftDivRoundDown x 128 d = .ok w ∧ w.toNat = x.toNat * 2 ^ 128 / d.toNat := by
  refine ⟨x <<< 128 / d, ?_, by rw [BitVec.toNat_udiv, Words.toNat_shiftLeft_lane hx]⟩
  unfold shiftDivRoundDown
  rw [Words.ushiftRight_lane hx]
  exact getEndOfDivRoundDown_zero hd

theorem shiftDivRoundUp_eq (hx : x.toNat < 2 ^ 128) (hd : d ≠ 0) :
    ∃ w, shiftDivRoundUp x 128 d = .ok w ∧ w.toNat = x.toNat * 2 ^ 128 ⌈/⌉ d.toNat := by
  obtain ⟨w, hw, hval⟩ := shiftDivRoundDown_eq hx hd
  have hpos : 0 < d.toNat := BitVec.toNat_pos_of_ne_zero hd
  have hle := Nat.div_le_self (x.toNat * 2 ^ 128) d.toNat
  have hzero := Words.mulMod_eq_zero_iff (x := x) (y := 1 <<< 128) hd
  have hone : (1 <<< 128 : U256).toNat = 2 ^ 128 := rfl
  rw [hone] at hzero
  unfold shiftDivRoundUp
  rw [hw, ok_bind]
  exact roundUp_eq hpos hval hzero (by omega)

end Uint256x256Math

/-! ## Prices -/

theorem allOnes_div_ne_zero {r : U256} (hr : r ≠ 0) : BitVec.allOnes 256 / r ≠ 0 := by
  intro hzero
  have hpos : 0 < r.toNat := BitVec.toNat_pos_of_ne_zero hr
  have hle : r.toNat ≤ 2 ^ 256 - 1 := Nat.le_sub_one_of_lt r.isLt
  have hval := congrArg BitVec.toNat hzero
  rw [BitVec.toNat_udiv, BitVec.toNat_allOnes] at hval
  have hquot := Nat.div_pos hle hpos
  rw [hval] at hquot
  exact absurd hquot (Nat.lt_irrefl 0)

/-- A price is not zero. -/
theorem Uint128x128Math.pow_ne_zero {x price : U256} {y : Int} (h : pow x y = .ok price) :
    price ≠ 0 := by
  unfold pow at h
  split at h
  · cases h
    decide
  · dsimp only at h
    generalize (if y.natAbs < 0x100000 then _ else (0 : U256)) = result at h
    by_cases hresult : result = 0
    · rw [if_pos hresult] at h
      cases h
    · rw [if_neg hresult] at h
      cases h
      split
      · exact allOnes_div_ne_zero hresult
      · exact hresult

theorem PriceHelper.getPriceFromId_ne_zero {price : U256} {id binStep : Nat}
    (h : getPriceFromId id binStep = .ok price) : price ≠ 0 :=
  Uint128x128Math.pow_ne_zero h

/-! ## Fees -/

namespace FeeHelper

variable {a m f v : Nat}

theorem toNat_PRECISION : Constants.PRECISION.toNat = 10 ^ 18 := rfl

theorem verifyFee_eq_ok (h : verifyFee f = .ok ()) : f ≤ 10 ^ 17 := by
  unfold verifyFee Constants.MAX_FEE at h
  split at h
  · cases h
  · omega

theorem getFeeAmountFrom_eq_ok (ha : a < 2 ^ 128) (h : getFeeAmountFrom a f = .ok v) :
    f ≤ 10 ^ 17 ∧ v = BinQuote.feeIn f a := by
  unfold getFeeAmountFrom at h
  rw [bind_eq_ok] at h
  obtain ⟨⟨⟩, hverify, h⟩ := h
  have hf := verifyFee_eq_ok hverify
  cases h
  have hprod : a * f < 2 ^ 128 * 10 ^ 18 := Nat.mul_lt_mul_of_lt_of_le ha (by omega) (by omega)
  have hle := BinQuote.feeIn_le (a := a) (f := f) (by unfold BinQuote.FEE_PRECISION; omega)
  have hval : ((BitVec.ofNat 256 a * BitVec.ofNat 256 f + Constants.PRECISION - 1) /
      Constants.PRECISION).toNat = BinQuote.feeIn f a := by
    have hone : (1 : U256).toNat = 1 := rfl
    have hnum : (2 ^ 256 - 1 + (a * f + 10 ^ 18) % 2 ^ 256) % 2 ^ 256 = a * f + 10 ^ 18 - 1 := by
      omega
    rw [BitVec.toNat_udiv, BitVec.toNat_sub, BitVec.toNat_add, BitVec.toNat_mul, BitVec.toNat_ofNat,
      BitVec.toNat_ofNat, Nat.mod_eq_of_lt (by omega : a < 2 ^ 256),
      Nat.mod_eq_of_lt (by omega : f < 2 ^ 256), hone, toNat_PRECISION,
      Nat.mod_eq_of_lt (by omega : a * f < 2 ^ 256), hnum]
    rw [BinQuote.feeIn, BinQuote.FEE_PRECISION, Nat.ceilDiv_eq_add_pred_div]
  refine ⟨hf, ?_⟩
  unfold PackedUint128Math.toUint128
  rw [hval, Nat.mod_eq_of_lt (by omega)]

theorem getFeeAmount_eq_ok (hm : m < 2 ^ 128) (h : getFeeAmount m f = .ok v) :
    f ≤ 10 ^ 17 ∧ v = BinQuote.feeOn f m := by
  unfold getFeeAmount at h
  rw [bind_eq_ok] at h
  obtain ⟨⟨⟩, hverify, h⟩ := h
  have hf := verifyFee_eq_ok hverify
  cases h
  have hprod : m * f < 2 ^ 128 * 10 ^ 18 := Nat.mul_lt_mul_of_lt_of_le hm (by omega) (by omega)
  have hle := BinQuote.feeOn_le (m := m) (f := f) (by unfold BinQuote.FEE_PRECISION; omega)
    (by unfold BinQuote.FEE_PRECISION; omega)
  have hd : (Constants.PRECISION - BitVec.ofNat 256 f).toNat = 10 ^ 18 - f := by
    rw [BitVec.toNat_sub, toNat_PRECISION, BitVec.toNat_ofNat]
    omega
  have hval : ((BitVec.ofNat 256 m * BitVec.ofNat 256 f +
      (Constants.PRECISION - BitVec.ofNat 256 f) - 1) /
        (Constants.PRECISION - BitVec.ofNat 256 f)).toNat = BinQuote.feeOn f m := by
    have hone : (1 : U256).toNat = 1 := rfl
    have hnum : (2 ^ 256 - 1 + (m * f + (10 ^ 18 - f)) % 2 ^ 256) % 2 ^ 256 =
        m * f + (10 ^ 18 - f) - 1 := by omega
    rw [BitVec.toNat_udiv, BitVec.toNat_sub, BitVec.toNat_add, BitVec.toNat_mul, BitVec.toNat_ofNat,
      BitVec.toNat_ofNat, Nat.mod_eq_of_lt (by omega : m < 2 ^ 256),
      Nat.mod_eq_of_lt (by omega : f < 2 ^ 256), hone, hd,
      Nat.mod_eq_of_lt (by omega : m * f < 2 ^ 256), hnum]
    rw [BinQuote.feeOn, BinQuote.FEE_PRECISION, Nat.ceilDiv_eq_add_pred_div]
  refine ⟨hf, ?_⟩
  unfold PackedUint128Math.toUint128
  rw [hval, Nat.mod_eq_of_lt (by omega)]

end FeeHelper

/-! ## Bins -/

namespace BinHelper

open Uint256x256Math PackedUint128Math

variable {swapForY : Bool} {price parameters binReserves amountsInLeft : U256}
  {binStep r n a f v id : Nat}

theorem toNat_ofNat_lane (h : n < 2 ^ 128) : (BitVec.ofNat 256 n).toNat = n := by
  rw [BitVec.toNat_ofNat, Nat.mod_eq_of_lt (by omega)]

theorem safe128_eq_ok {w : U256} (h : SafeCast.safe128 w = .ok v) : v = w.toNat ∧ v < 2 ^ 128 := by
  unfold SafeCast.safe128 at h
  split at h
  · cases h
    exact ⟨rfl, by assumption⟩
  · cases h

theorem maxAmountIn_eq_ok (hp : price ≠ 0) (hr : r < 2 ^ 128)
    (h : maxAmountIn swapForY r price = .ok v) :
    v = BinQuote.inputFor swapForY price.toNat r ∧ v < 2 ^ 128 := by
  have hlane := toNat_ofNat_lane hr
  unfold maxAmountIn Constants.SCALE_OFFSET at h
  unfold BinQuote.inputFor
  cases swapForY with
  | true =>
    obtain ⟨w, hw, hval⟩ := shiftDivRoundUp_eq (hlane.symm ▸ hr) hp
    rw [hlane] at hval
    simp only [↓reduceIte] at h ⊢
    rw [hw, ok_bind] at h
    rw [← hval]
    exact safe128_eq_ok h
  | false =>
    obtain ⟨w, hw, hval⟩ := mulShiftRoundUp_eq (y := price) (hlane.symm ▸ hr)
    rw [hlane] at hval
    simp only [Bool.false_eq_true, ↓reduceIte] at h ⊢
    rw [hw, ok_bind] at h
    rw [← hval]
    exact safe128_eq_ok h

theorem amountOutFor_eq_ok (hp : price ≠ 0) (hn : n < 2 ^ 128)
    (h : amountOutFor swapForY n price = .ok v) :
    v = BinQuote.outputFor swapForY price.toNat n := by
  have hlane := toNat_ofNat_lane hn
  unfold amountOutFor Constants.SCALE_OFFSET at h
  unfold BinQuote.outputFor
  cases swapForY with
  | true =>
    obtain ⟨w, hw, hval⟩ := mulShiftRoundDown_eq (y := price) (hlane.symm ▸ hn)
    rw [hlane] at hval
    simp only [↓reduceIte] at h ⊢
    rw [hw, ok_bind] at h
    rw [← hval]
    exact (safe128_eq_ok h).1
  | false =>
    obtain ⟨w, hw, hval⟩ := shiftDivRoundDown_eq (hlane.symm ▸ hn) hp
    rw [hlane] at hval
    simp only [Bool.false_eq_true, ↓reduceIte] at h ⊢
    rw [hw, ok_bind] at h
    rw [← hval]
    exact (safe128_eq_ok h).1

/-- **One bin**: a call that returns has computed the exact quote, with a legal fee and a capacity
that is a `uint128`. -/
theorem swapAmounts_eq_ok {amounts : Nat × Nat × Nat} (hp : price ≠ 0) (hr : r < 2 ^ 128)
    (ha : a < 2 ^ 128) (h : swapAmounts parameters binStep swapForY price r a = .ok amounts) :
    ∃ f, PairParameterHelper.getTotalFee parameters binStep = .ok f ∧ f ≤ 10 ^ 17 ∧
      BinQuote.capacity swapForY price.toNat f r < 2 ^ 128 ∧
      amounts = ((BinQuote.quote swapForY price.toNat f r a).amountIn,
        (BinQuote.quote swapForY price.toNat f r a).amountOut,
        (BinQuote.quote swapForY price.toNat f r a).fee) := by
  unfold swapAmounts at h
  simp only [bind_eq_ok] at h
  obtain ⟨m, hm, f, hf, maxFee, hmaxFee, total, htotal, h⟩ := h
  obtain ⟨rfl, hmlt⟩ := maxAmountIn_eq_ok hp hr hm
  obtain ⟨hfle, rfl⟩ := FeeHelper.getFeeAmount_eq_ok hmlt hmaxFee
  have hfP : f < BinQuote.FEE_PRECISION := by
    unfold BinQuote.FEE_PRECISION
    omega
  have hcap : total = BinQuote.capacity swapForY price.toNat f r ∧
      BinQuote.capacity swapForY price.toNat f r < 2 ^ 128 := by
    unfold checkedAdd128 at htotal
    split at htotal
    · cases htotal
      exact ⟨rfl, by assumption⟩
    · cases htotal
  refine ⟨f, hf, hfle, hcap.2, ?_⟩
  rw [hcap.1] at h
  by_cases hge : BinQuote.capacity swapForY price.toNat f r ≤ a
  · rw [if_pos hge] at h
    cases h
    rw [BinQuote.quote_of_le hge]
  · rw [if_neg hge] at h
    simp only [bind_eq_ok] at h
    obtain ⟨fee, hfee, net, hnet, out, hout, h⟩ := h
    obtain ⟨-, rfl⟩ := FeeHelper.getFeeAmountFrom_eq_ok ha hfee
    have hnet' : net = a - BinQuote.feeIn f a := by
      unfold checkedSub at hnet
      split at hnet
      · cases hnet
        rfl
      · cases hnet
    subst hnet'
    have hout' := amountOutFor_eq_ok hp (by omega) hout
    have hlt := BinQuote.outputFor_net_lt hfP (Nat.lt_of_not_le hge)
    rw [if_neg (by omega)] at h
    cases h
    rw [BinQuote.quote_of_lt (Nat.lt_of_not_le hge), hout']

theorem getLiquidity_eq_ok_iff {amounts L : U256} : getLiquidity amounts price = .ok L ↔
    price.toNat * Words.low amounts + Words.high amounts * 2 ^ 128 < 2 ^ 256 ∧
      L.toNat = price.toNat * Words.low amounts + Words.high amounts * 2 ^ 128 := by
  have hx := toNat_ofNat_lane (Words.low_lt amounts)
  have hy := toNat_ofNat_lane (Words.high_lt amounts)
  rw [← decodeX_eq] at hx
  rw [← decodeY_eq] at hy
  rw [← decodeX_eq, ← decodeY_eq]
  unfold getLiquidity
  rw [Words.checkedMulAdd_eq_ok_iff (hy.symm ▸ (decodeY_eq amounts ▸ Words.high_lt amounts)),
    hx, hy]

end BinHelper

end ArbitrageBot.LiquidityBook
