import ArbitrageBot.Amms.Moe.MathSpec

/-!
# The fee on an amount and the fee in it

`get_fee_amount` adds to a net amount the fee that `get_fee_amount_from` takes from the sum. The two
round up different quotients, and still undo each other: the sum is the least input that leaves the
amount. A swap in one bin therefore takes the whole reserve exactly from the sum on.
-/

namespace ArbitrageBot

open Lib

namespace LiquidityBook.BinQuote

variable {f m : Nat}

/-- The fee in an amount with its fee is that fee. -/
theorem feeIn_add_feeOn (hf : f < FEE_PRECISION) : feeIn f (m + feeOn f m) = feeOn f m := by
  have hpos : 0 < FEE_PRECISION := by omega
  have hpos' : 0 < FEE_PRECISION - f := by omega
  have hon : m * f ≤ (FEE_PRECISION - f) * feeOn f m := (ceilDiv_le_iff_le_mul hpos').mp le_rfl
  have hin : (m + feeOn f m) * f ≤ FEE_PRECISION * feeIn f (m + feeOn f m) :=
    (ceilDiv_le_iff_le_mul hpos).mp le_rfl
  obtain ⟨c, hc⟩ := Nat.exists_eq_add_of_lt hf
  have hsub : FEE_PRECISION - f = c + 1 := by omega
  rw [hsub] at hon
  apply Nat.le_antisymm
  · apply (ceilDiv_le_iff_le_mul hpos).mpr
    calc (m + feeOn f m) * f = m * f + feeOn f m * f := Nat.add_mul _ _ _
      _ ≤ (c + 1) * feeOn f m + feeOn f m * f := Nat.add_le_add_right hon _
      _ = FEE_PRECISION * feeOn f m := by rw [hc]; ring
  · generalize feeIn f (m + feeOn f m) = k at hin
    by_contra hlt
    have hle : feeOn f m ≤ k := by
      apply (ceilDiv_le_iff_le_mul hpos').mpr
      have hmul : k * f ≤ feeOn f m * f := Nat.mul_le_mul_right f (by omega)
      rw [hsub]
      rw [hc] at hin
      nlinarith
    omega

end LiquidityBook.BinQuote

namespace Moe

open LiquidityBook

/-- The fee on the net amount `a`, as the fee in the gross amount `a + f`. -/
structure GrossUp (a totalFee f : Nat) : Prop where
  inverse : FeeHelper.getFeeAmountFrom (a + f) totalFee = .ok f
  least : ∀ g < 2 ^ 128, ∀ fee, FeeHelper.getFeeAmountFrom g totalFee = .ok fee →
    a ≤ (g : Int) - fee → a + f ≤ g

/-- A bin that is emptied by the net input `a` with the fee `f`: from `a + f` on the swap takes just
that and the whole reserve, below it takes the input, less than `a` without its fee, and leaves a
part of the reserve. -/
structure Meets (prof : BuildProfile) (parameters : U256) (binStep : Nat) (swapForY : Bool)
    (price : U256) (binReserveOut a totalFee f : Nat) : Prop where
  exhausting : ∀ amountIn, a + f ≤ amountIn →
    BinHelper.swapAmounts prof parameters binStep swapForY price binReserveOut amountIn =
      .ok (a + f, binReserveOut, f)
  partly : ∀ amountIn < a + f, ∃ fee amountOut,
    FeeHelper.getFeeAmountFrom amountIn totalFee = .ok fee ∧ (amountIn : Int) - fee < a ∧
      amountOut < binReserveOut ∧
        BinHelper.swapAmounts prof parameters binStep swapForY price binReserveOut amountIn =
          .ok (amountIn, amountOut, fee)

namespace FeeHelper

variable {a f totalFee : Nat}

theorem grossUp (ha : a < 2 ^ 128) (htotal : totalFee ≤ MAX_FEE_U128)
    (hf : getFeeAmount a totalFee = .ok f) (hfit : a + f < 2 ^ 128) : GrossUp a totalFee f := by
  have htotal17 : totalFee ≤ 10 ^ 17 := htotal
  have hprecision : totalFee < BinQuote.FEE_PRECISION := by
    unfold BinQuote.FEE_PRECISION
    omega
  obtain ⟨-, rfl⟩ := getFeeAmount_eq_ok ha hf
  constructor
  · rw [getFeeAmountFrom_eq hfit htotal, BinQuote.feeIn_add_feeOn hprecision]
  · intro g hg fee hfee hnet
    rw [getFeeAmountFrom_eq hg htotal] at hfee
    cases hfee
    by_contra hlt
    have hless := BinQuote.net_lt hprecision (Nat.lt_of_not_le hlt)
    omega

end FeeHelper

namespace BinHelper

variable {prof : BuildProfile} {swapForY : Bool} {price parameters : U256}
  {binStep binReserveOut a f totalFee : Nat}

/-- A bin that needs an input has a price. -/
theorem price_ne_zero_of_maxAmountIn (ha : a ≠ 0) (hr : binReserveOut < 2 ^ 128)
    (hmax : maxAmountIn swapForY binReserveOut price = .ok a) : price ≠ 0 := by
  rintro rfl
  unfold maxAmountIn at hmax
  cases swapForY with
  | true => cases hmax
  | false =>
    simp only [Bool.false_eq_true, if_false] at hmax
    obtain ⟨w, hw, hval⟩ := Uint256x256Math.mulShiftRoundUp_eq (y := 0)
      ((toNat_ofNat_lane hr).symm ▸ hr)
    rw [SCALE_OFFSET, hw, ok_bind] at hmax
    obtain ⟨hw', -⟩ := toU128_eq_ok hmax
    rw [hw', hval] at ha
    exact ha (by simp)

theorem meets (ha : a < 2 ^ 128) (htotal : totalFee ≤ MAX_FEE_U128)
    (hf : FeeHelper.getFeeAmount a totalFee = .ok f) (hfit : a + f < 2 ^ 128)
    (hr : binReserveOut < 2 ^ 128) (hmax : maxAmountIn swapForY binReserveOut price = .ok a)
    (hfee : PairParameterHelper.getTotalFee parameters binStep = .ok totalFee) :
    Meets prof parameters binStep swapForY price binReserveOut a totalFee f := by
  have htotal17 : totalFee ≤ 10 ^ 17 := htotal
  have hprecision : totalFee < BinQuote.FEE_PRECISION := by
    unfold BinQuote.FEE_PRECISION
    omega
  have hsum : (prof.unsigned 128 ((a : Int) + f) : MathOutcome Nat) = .ok (a + f) := by
    rw [BuildProfile.unsigned_of_range (by omega) (by omega)]
    rfl
  have hswap : ∀ amountIn, swapAmounts prof parameters binStep swapForY price binReserveOut
      amountIn = if amountIn ≥ a + f then return (a + f, binReserveOut, f)
    else do
      let fee ← FeeHelper.getFeeAmountFrom amountIn totalFee
      let amountInNet ← prof.unsigned 128 ((amountIn : Int) - fee)
      let amountOut ← amountOutFor swapForY amountInNet price
      return (amountIn, if amountOut > binReserveOut then binReserveOut else amountOut, fee) := by
    intro amountIn
    unfold swapAmounts
    rw [hmax, ok_bind, hfee, ok_bind, hf, ok_bind, hsum, ok_bind]
  obtain ⟨-, hfeeOn⟩ := FeeHelper.getFeeAmount_eq_ok ha hf
  constructor
  · intro amountIn hge
    rw [hswap, if_pos hge]
    rfl
  · intro amountIn hlt
    have hne : a ≠ 0 := by
      rintro rfl
      have hzero : BinQuote.feeOn totalFee 0 = 0 := by
        unfold BinQuote.feeOn
        rw [Nat.zero_mul, zero_ceilDiv]
      omega
    have hprice := price_ne_zero_of_maxAmountIn hne hr hmax
    obtain ⟨hinput, -⟩ := maxAmountIn_eq_ok hprice hr hmax
    have hle := BinQuote.feeIn_le (a := amountIn) hprecision
    have hnet := BinQuote.net_lt hprecision (hfeeOn ▸ hlt)
    have hout : BinQuote.outputFor swapForY price.toNat
        (amountIn - BinQuote.feeIn totalFee amountIn) < binReserveOut :=
      BinQuote.outputFor_lt (hinput ▸ hnet)
    refine ⟨BinQuote.feeIn totalFee amountIn, _, FeeHelper.getFeeAmountFrom_eq (by omega) htotal,
      by omega, hout, ?_⟩
    rw [hswap, if_neg (Nat.not_le.mpr hlt), FeeHelper.getFeeAmountFrom_eq (by omega) htotal,
    ok_bind, BuildProfile.unsigned_of_range (by omega) (by omega), ok_bind, Int.toNat_sub,
      amountOutFor_eq hprice (by omega) (by omega), ok_bind, if_neg (Nat.not_lt.mpr hout.le)]
    rfl

end BinHelper

/-- **The fee on an amount is the fee in the sum**, the sum is the least input that leaves the
amount, and a swap in a bin that the amount empties takes the whole reserve exactly from the sum on.
-/
theorem fee_grossUp_inverse (prof : BuildProfile) (a totalFee f : Nat) (ha : a < 2 ^ 128)
    (htotal : totalFee ≤ MAX_FEE_U128) (hf : FeeHelper.getFeeAmount a totalFee = .ok f)
    (hfit : a + f < 2 ^ 128) :
    GrossUp a totalFee f ∧
      ∀ (parameters : U256) (binStep : Nat) (swapForY : Bool) (price : U256) (binReserveOut : Nat),
        binReserveOut < 2 ^ 128 →
          BinHelper.maxAmountIn swapForY binReserveOut price = .ok a →
            PairParameterHelper.getTotalFee parameters binStep = .ok totalFee →
              Meets prof parameters binStep swapForY price binReserveOut a totalFee f :=
  ⟨FeeHelper.grossUp ha htotal hf hfit, fun _ _ _ _ _ hr hmax hfee =>
    BinHelper.meets ha htotal hf hfit hr hmax hfee⟩

theorem fee_grossUp_inverse_unit : GrossUp 1000000000000000000 100000000000000 100010001000101 ∧
    ∀ (parameters : U256) (binStep : Nat) (swapForY : Bool) (price : U256) (binReserveOut : Nat),
      binReserveOut < 2 ^ 128 →
        BinHelper.maxAmountIn swapForY binReserveOut price = .ok 1000000000000000000 →
          PairParameterHelper.getTotalFee parameters binStep = .ok 100000000000000 →
            Meets ⟨true⟩ parameters binStep swapForY price binReserveOut 1000000000000000000
              100000000000000 100010001000101 :=
  fee_grossUp_inverse ⟨true⟩ 1000000000000000000 100000000000000 100010001000101 (by omega)
    (by decide) (by decide +kernel) (by omega)

end Moe

end ArbitrageBot
