import ArbitrageBot.Amms.Moe.BinPort

/-!
# What a swap in one bin keeps

`get_amounts` on the whole 128-bit lanes: it never pays more than the bin has nor takes more than
there is, and the exact liquidity of the bin does not drop. The code decodes the low limb of each
lane, so it spends less than the input, or stops with reserve left, where a lane does not fit a
limb.
-/

namespace ArbitrageBot.Moe

open Lib LiquidityBook

/-! ## Prices are positive -/

theorem Uint128x128Math.powLoop_ne_zero {rounds power : Nat} {result squared w : U256}
    (hresult : result ≠ 0) (h : powLoop rounds power result squared = .ok w) : w ≠ 0 := by
  induction rounds generalizing power result squared with
  | zero =>
    cases h
    exact hresult
  | succ rounds ih =>
    unfold powLoop at h
    split at h
    · cases h
      exact hresult
    · split at h
      · dsimp only at h
        split at h
        · cases h
        · rename_i hne
          exact ih hne h
      · exact ih hresult h

theorem Uint128x128Math.pow_ne_zero {prof : BuildProfile} {x price : U256} {y : Int}
    (h : pow prof x y = .ok price) : price ≠ 0 := by
  unfold pow at h
  split at h
  · cases h
    decide
  · rw [bind_eq_ok] at h
    obtain ⟨absY, -, h⟩ := h
    split at h
    · cases h
    · simp only [bind_eq_ok] at h
      obtain ⟨w, hw, h⟩ := h
      have hne := powLoop_ne_zero (by decide) hw
      cases h
      split
      · exact allOnes_div_ne_zero hne
      · exact hne

theorem PriceHelper.getPriceFromId_ne_zero {prof : BuildProfile} {id binStep : Nat} {price : U256}
    (h : getPriceFromId prof id binStep = .ok price) : price ≠ 0 := by
  unfold getPriceFromId at h
  rw [bind_eq_ok] at h
  obtain ⟨exponent, -, h⟩ := h
  cases hpow : Uint128x128Math.pow prof (getBase binStep) exponent with
  | error e =>
    rw [hpow] at h
    cases h
  | ok w =>
    rw [hpow] at h
    cases h
    exact Uint128x128Math.pow_ne_zero hpow

/-! ## Calls that return -/

namespace BinHelper

variable {prof : BuildProfile} {swapForY : Bool} {price parameters : U256}
  {binStep r n a f v : Nat}

/-- The input that takes the reserve `r` is past 128 bits, and what is left of it is paid by `a`. -/
def Wraps (swapForY : Bool) (p f r a : Nat) : Prop :=
  2 ^ 128 ≤ BinQuote.capacity swapForY p f r ∧ BinQuote.capacity swapForY p f r ≤ a + 2 ^ 128

/-- **One bin, backwards**: from the input that takes the reserve on, as it is in 128 bits, a call
that returns takes that and pays the reserve; below it takes all and pays less. -/
theorem swapAmounts_cases {i o : Nat} (hp : price ≠ 0) (hr : r < 2 ^ 128) (ha : a < 2 ^ 128)
    (hfee : PairParameterHelper.getTotalFee parameters binStep = .ok f)
    (h : swapAmounts prof parameters binStep swapForY price r a = .ok (i, o, v)) :
    f ≤ MAX_FEE_U128 ∧ BinQuote.inputFor swapForY price.toNat r < 2 ^ 128 ∧
      ((BinQuote.capacity swapForY price.toNat f r % 2 ^ 128 ≤ a ∧
          i = BinQuote.capacity swapForY price.toNat f r % 2 ^ 128 ∧ o = r ∧
          v = BinQuote.feeOn f (BinQuote.inputFor swapForY price.toNat r)) ∨
        (a < BinQuote.capacity swapForY price.toNat f r % 2 ^ 128 ∧ i = a ∧
          o = BinQuote.outputFor swapForY price.toNat (a - BinQuote.feeIn f a) ∧ o < r ∧
          v = BinQuote.feeIn f a)) := by
  unfold swapAmounts at h
  simp only [bind_eq_ok] at h
  obtain ⟨m, hm, f', hf', maxFee, hmaxFee, total, htotal, h⟩ := h
  rw [hfee] at hf'
  cases hf'
  obtain ⟨rfl, hmlt⟩ := maxAmountIn_eq_ok hp hr hm
  obtain ⟨hfle, rfl⟩ := FeeHelper.getFeeAmount_eq_ok hmlt hmaxFee
  have hf17 : f ≤ 10 ^ 17 := hfle
  have hfP : f < BinQuote.FEE_PRECISION := by
    unfold BinQuote.FEE_PRECISION
    omega
  have hcap : BinQuote.capacity swapForY price.toNat f r =
    BinQuote.inputFor swapForY price.toNat r +
      BinQuote.feeOn f (BinQuote.inputFor swapForY price.toNat r) := rfl
  have htotal' : total = BinQuote.capacity swapForY price.toNat f r % 2 ^ 128 := by
    rw [← Int.natCast_add, ← hcap] at htotal
    exact BuildProfile.unsigned_eq_ok htotal
  refine ⟨hfle, hmlt, ?_⟩
  by_cases hge : total ≤ a
  · rw [if_pos hge] at h
    cases h
    exact .inl ⟨by omega, htotal', rfl, rfl⟩
  · rw [if_neg hge] at h
    simp only [bind_eq_ok] at h
    obtain ⟨fee, hfeeIn, net, hnet, out, hout, h⟩ := h
    have hlt : a < BinQuote.capacity swapForY price.toNat f r :=
      Nat.lt_of_lt_of_le (Nat.lt_of_not_le hge) (htotal' ▸ Nat.mod_le _ _)
    have hle := BinQuote.feeIn_le (a := a) hfP
    rw [FeeHelper.getFeeAmountFrom_eq ha hfle] at hfeeIn
    cases hfeeIn
    rw [BuildProfile.unsigned_of_range (by omega) (by omega)] at hnet
    cases hnet
    rw [Int.toNat_sub] at hout
    have hout' := amountOutFor_eq_ok hp (by omega) hout
    have hlt' := BinQuote.outputFor_net_lt hfP hlt
    rw [if_neg (by omega)] at h
    cases h
    exact .inr ⟨by omega, rfl, hout', by omega, rfl⟩

theorem swapAmounts_fee {a i o : Nat}
    (h : swapAmounts prof parameters binStep swapForY price r a = .ok (i, o, v)) :
    ∃ f, PairParameterHelper.getTotalFee parameters binStep = .ok f := by
  unfold swapAmounts at h
  simp only [bind_eq_ok] at h
  obtain ⟨m, -, f, hf, -⟩ := h
  exact ⟨f, hf⟩

/-- The amounts of a call that returns are the exact quote, but where the capacity wraps. -/
theorem swapAmounts_eq_ok {i o : Nat} (hp : price ≠ 0) (hr : r < 2 ^ 128) (ha : a < 2 ^ 128)
    (hfee : PairParameterHelper.getTotalFee parameters binStep = .ok f)
    (h : swapAmounts prof parameters binStep swapForY price r a = .ok (i, o, v)) :
    f ≤ MAX_FEE_U128 ∧
      (¬ Wraps swapForY price.toNat f r a →
        BinQuote.quote swapForY price.toNat f r a = ⟨i, o, v⟩) ∧
      (Wraps swapForY price.toNat f r a → i < v ∧ v < 2 ^ 128) := by
  obtain ⟨hfle, hmlt, hcases⟩ := swapAmounts_cases hp hr ha hfee h
  have hf17 : f ≤ 10 ^ 17 := hfle
  have hcap : BinQuote.capacity swapForY price.toNat f r =
    BinQuote.inputFor swapForY price.toNat r +
      BinQuote.feeOn f (BinQuote.inputFor swapForY price.toNat r) := rfl
  have hfeeOn := BinQuote.feeOn_le (m := BinQuote.inputFor swapForY price.toNat r) (f := f)
    (by unfold BinQuote.FEE_PRECISION; omega) (by unfold BinQuote.FEE_PRECISION; omega)
  refine ⟨hfle, ?_⟩
  rcases hcases with ⟨hge, hi, ho, hv⟩ | ⟨hlt, hi, ho, -, hv⟩
  · constructor
    · intro hwraps
      unfold Wraps at hwraps
      rw [BinQuote.quote_of_le (by omega), hi, ho, hv, Nat.mod_eq_of_lt (by omega)]
    · intro hwraps
      unfold Wraps at hwraps
      exact ⟨by omega, by omega⟩
  · constructor
    · intro _
      rw [BinQuote.quote_of_lt (Nat.lt_of_lt_of_le hlt (Nat.mod_le _ _)), hi, ho, hv]
    · intro hwraps
      unfold Wraps at hwraps
      omega

/-! ## The amounts of a swap in one bin -/

/-- A whole lane of a packed word. -/
def lane (z : U256) (first : Bool) : Nat := if first then Words.low z else Words.high z

/-- The liquidity of a bin, over the integers. -/
def exactLiquidity (price : U256) (x y : Int) : Int := price.toNat * x + 2 ^ 128 * y

/-- What the amounts of a swap in a bin of the reserves `x` and `y` owe. -/
structure SafeAmounts (swapForY : Bool) (price : U256) (x y amountIn : Nat)
    (ins outs fees : U256) : Prop where
  out_le : lane outs (!swapForY) ≤ if swapForY then y else x
  in_le : lane ins swapForY ≤ amountIn
  fee_le : lane fees swapForY ≤ lane ins swapForY
  others : lane outs swapForY = 0 ∧ lane ins (!swapForY) = 0 ∧ lane fees (!swapForY) = 0
  spent : lane outs (!swapForY) ≠ (if swapForY then y else x) → lane ins swapForY = amountIn
  kept : exactLiquidity price x y ≤ exactLiquidity price (x + lane ins true - lane outs true)
    (y + lane ins false - lane outs false)
  bounded : exactLiquidity price (x + lane ins true - lane outs true)
    (y + lane ins false - lane outs false) ≤ MAX_LIQUIDITY_PER_BIN.toNat

/-- The low limbs of the output reserve and of the input are enough to quote the swap, and those of
the reserves after it, or the reserves themselves, stay within the limit of a bin. -/
structure LimbsSuffice (swapForY : Bool) (p f reserveIn reserveOut a : Nat) : Prop where
  amounts : (reserveOut < 2 ^ 64 ∧ BinQuote.capacity swapForY p f reserveOut ≤ a % 2 ^ 64) ∨
    (a < 2 ^ 64 ∧ a ≤ BinQuote.capacity swapForY p f (reserveOut % 2 ^ 64) ∧
      ¬ Wraps swapForY p f (reserveOut % 2 ^ 64) a)
  reserves : ∀ q, q = BinQuote.quote swapForY p f (reserveOut % 2 ^ 64) (a % 2 ^ 64) →
    (reserveIn + q.amountIn < 2 ^ 64 ∧ reserveOut - q.amountOut < 2 ^ 64) ∨
      BinQuote.worthIn swapForY p (reserveIn + q.amountIn) +
        BinQuote.worthOut swapForY p (reserveOut - q.amountOut) ≤ MAX_LIQUIDITY_PER_BIN.toNat

theorem lane_encode (hn : n < 2 ^ 128) (first : Bool) :
    lane (if first then PackedUint128Math.encode n 0 else PackedUint128Math.encode 0 n) first =
      n := by
  cases first with
  | true => exact Words.low_pack hn (by omega)
  | false => exact Words.high_pack (by omega) hn

theorem lane_encode_not (hn : n < 2 ^ 128) (first : Bool) :
    lane (if first then PackedUint128Math.encode n 0 else PackedUint128Math.encode 0 n) (!first) =
      0 := by
  cases first with
  | true => exact Words.high_pack hn (by omega)
  | false => exact Words.low_pack (by omega) hn

/-- The output is in the other lane. -/
theorem lane_encode_out (hn : n < 2 ^ 128) (first : Bool) :
    lane (if first then PackedUint128Math.encode 0 n else PackedUint128Math.encode n 0) (!first) =
      n := by
  cases first with
  | true => exact lane_encode hn false
  | false => exact lane_encode hn true

theorem lane_encode_out_not (hn : n < 2 ^ 128) (first : Bool) :
    lane (if first then PackedUint128Math.encode 0 n else PackedUint128Math.encode n 0) first =
      0 := by
  cases first with
  | true => exact lane_encode_not hn false
  | false => exact lane_encode_not hn true

section Quotes

variable {p reserveIn reserveOut : Nat} {q : BinQuote.Quote}

/-- Without a wrap, the quote of the limbs spends the whole input, or pays the whole reserve,
exactly where the limbs are enough. -/
theorem quote_limbs_spent_iff (hf : f < BinQuote.FEE_PRECISION)
    (hq : BinQuote.quote swapForY p f (reserveOut % 2 ^ 64) (a % 2 ^ 64) = q)
    (hwraps : ¬ Wraps swapForY p f (reserveOut % 2 ^ 64) (a % 2 ^ 64)) :
    (q.amountOut ≠ reserveOut → q.amountIn = a) ↔
      (reserveOut < 2 ^ 64 ∧ BinQuote.capacity swapForY p f reserveOut ≤ a % 2 ^ 64) ∨
        (a < 2 ^ 64 ∧ a ≤ BinQuote.capacity swapForY p f (reserveOut % 2 ^ 64) ∧
          ¬ Wraps swapForY p f (reserveOut % 2 ^ 64) a) := by
  have hr : reserveOut % 2 ^ 64 = reserveOut ↔ reserveOut < 2 ^ 64 := by omega
  have ha : a % 2 ^ 64 = a ↔ a < 2 ^ 64 := by omega
  by_cases hcap : BinQuote.capacity swapForY p f (reserveOut % 2 ^ 64) ≤ a % 2 ^ 64
  · rw [BinQuote.quote_of_le hcap] at hq
    subst hq
    dsimp only
    constructor
    · intro hspent
      by_cases hlt : reserveOut < 2 ^ 64
      · rw [hr.mpr hlt] at hcap
        exact .inl ⟨hlt, hcap⟩
      · have heq := hspent fun h => hlt (hr.mp h)
        have hlt' := ha.mp (Nat.le_antisymm (Nat.mod_le _ _) (heq ▸ hcap))
        rw [ha.mpr hlt'] at hwraps
        exact .inr ⟨hlt', heq.ge, hwraps⟩
    · rintro (⟨hlt, -⟩ | ⟨hlt, hle, -⟩) hne
      · exact absurd (hr.mpr hlt) hne
      · rw [ha.mpr hlt] at hcap
        exact Nat.le_antisymm hcap hle
  · have hout := BinQuote.outputFor_net_lt hf (Nat.lt_of_not_le hcap)
    rw [BinQuote.quote_of_lt (Nat.lt_of_not_le hcap)] at hq
    subst hq
    dsimp only
    constructor
    · intro hspent
      have heq := hspent (Nat.ne_of_lt (Nat.lt_of_lt_of_le hout (Nat.mod_le _ _)))
      rw [heq] at hcap hwraps
      exact .inr ⟨ha.mp heq, (Nat.lt_of_not_le hcap).le, hwraps⟩
    · rintro (⟨hlt, hle⟩ | ⟨hlt, -, -⟩) -
      · rw [hr.mpr hlt] at hcap
        exact absurd hle hcap
      · exact ha.mpr hlt

end Quotes

section Exchange

variable {x y i o : Nat}

/-- The liquidity of a bin, by the direction of the swap. -/
theorem exactLiquidity_eq : exactLiquidity price x y =
    BinQuote.worthIn swapForY price.toNat (if swapForY then x else y) +
      BinQuote.worthOut swapForY price.toNat (if swapForY then y else x) := by
  unfold exactLiquidity BinQuote.worthIn BinQuote.worthOut
  cases swapForY with
  | true => simp
  | false => simp [add_comm]

/-- The liquidity after an exchange, by the direction of the swap. -/
theorem exactLiquidity_exchange (hi : i < 2 ^ 128) (ho : o < 2 ^ 128)
    (hle : o ≤ if swapForY then y else x) {ins outs : U256}
    (hins : ins = if swapForY then PackedUint128Math.encode i 0 else PackedUint128Math.encode 0 i)
    (houts : outs = if swapForY then PackedUint128Math.encode 0 o
      else PackedUint128Math.encode o 0) :
    exactLiquidity price (x + lane ins true - lane outs true)
        (y + lane ins false - lane outs false) =
      (BinQuote.worthIn swapForY price.toNat ((if swapForY then x else y) + i) +
        BinQuote.worthOut swapForY price.toNat ((if swapForY then y else x) - o) : Nat) := by
  subst hins houts
  unfold exactLiquidity BinQuote.worthIn BinQuote.worthOut lane
  cases swapForY with
  | true =>
    simp only [↓reduceIte, Bool.false_eq_true] at hle ⊢
    rw [PackedUint128Math.encode_eq, PackedUint128Math.encode_eq, Words.low_pack hi (by omega),
      Words.low_pack (by omega) ho, Words.high_pack hi (by omega), Words.high_pack (by omega) ho]
    push_cast [hle]
    ring
  | false =>
    simp only [↓reduceIte, Bool.false_eq_true] at hle ⊢
    rw [PackedUint128Math.encode_eq, PackedUint128Math.encode_eq, Words.low_pack ho (by omega),
      Words.low_pack (by omega) hi, Words.high_pack ho (by omega), Words.high_pack (by omega) hi]
    push_cast [hle]
    ring

/-- The guard of the code is exact where the reserves after the exchange are limbs. -/
theorem getLiquidity_exchange {L : U256} (hx : x < 2 ^ 128) (hy : y < 2 ^ 128)
    (hi : (if swapForY then x else y) + i < 2 ^ 64)
    (ho : (if swapForY then y else x) - o < 2 ^ 64) (ho' : o < 2 ^ 128)
    (hle : o ≤ if swapForY then y else x)
    (h : getLiquidity (PackedUint128Math.encode x y +
      (if swapForY then PackedUint128Math.encode i 0 else PackedUint128Math.encode 0 i) -
      (if swapForY then PackedUint128Math.encode 0 o else PackedUint128Math.encode o 0)) price =
        .ok L) :
    L.toNat = BinQuote.worthIn swapForY price.toNat ((if swapForY then x else y) + i) +
      BinQuote.worthOut swapForY price.toNat ((if swapForY then y else x) - o) := by
  have hL := (getLiquidity_eq_ok_iff.mp h).2
  unfold BinQuote.worthIn BinQuote.worthOut
  simp only [PackedUint128Math.encode_eq] at hL
  cases swapForY with
  | true =>
    simp only [↓reduceIte] at hi ho hle hL ⊢
    rw [Words.pack_add_sub (by omega) (by omega) (by omega) (by omega),
      Words.low_pack (by omega) (by omega), Words.high_pack (by omega) (by omega), Nat.add_zero,
      Nat.sub_zero, Nat.mod_eq_of_lt hi, Nat.mod_eq_of_lt ho] at hL
    rw [hL, Nat.mul_comm (2 ^ 128)]
  | false =>
    simp only [Bool.false_eq_true, ↓reduceIte] at hi ho hle hL ⊢
    rw [Words.pack_add_sub (by omega) (by omega) (by omega) (by omega),
      Words.low_pack (by omega) (by omega), Words.high_pack (by omega) (by omega), Nat.add_zero,
      Nat.sub_zero, Nat.mod_eq_of_lt hi, Nat.mod_eq_of_lt ho] at hL
    rw [hL, Nat.mul_comm (2 ^ 128), Nat.add_comm]

end Exchange

variable {x y amountIn id : Nat} {ins outs fees : U256}

theorem getAmounts_price {binReserves amounts : U256}
    (h : getAmounts prof binReserves parameters binStep swapForY id amounts =
      .ok (ins, outs, fees)) :
    ∃ price, PriceHelper.getPriceFromId prof id binStep = .ok price := by
  unfold getAmounts at h
  simp only [bind_eq_ok] at h
  obtain ⟨price, hprice, -⟩ := h
  exact ⟨price, hprice⟩

/-- A call that returns, by the lanes it swaps and the guard it passes. -/
theorem getAmounts_eq_ok (hx : x < 2 ^ 128) (hy : y < 2 ^ 128) (ha : amountIn < 2 ^ 128)
    (hprice : PriceHelper.getPriceFromId prof id binStep = .ok price)
    (h : getAmounts prof (PackedUint128Math.encode x y) parameters binStep swapForY id
      (if swapForY then PackedUint128Math.encode amountIn 0
        else PackedUint128Math.encode 0 amountIn) = .ok (ins, outs, fees)) :
    ∃ i o v L, ins = (if swapForY then PackedUint128Math.encode i 0
        else PackedUint128Math.encode 0 i) ∧
      outs = (if swapForY then PackedUint128Math.encode 0 o else PackedUint128Math.encode o 0) ∧
      fees = (if swapForY then PackedUint128Math.encode v 0 else PackedUint128Math.encode 0 v) ∧
      swapAmounts prof parameters binStep swapForY price ((if swapForY then y else x) % 2 ^ 64)
        (amountIn % 2 ^ 64) = .ok (i, o, v) ∧
      getLiquidity (PackedUint128Math.encode x y + ins - outs) price = .ok L ∧
      L.toNat ≤ MAX_LIQUIDITY_PER_BIN.toNat := by
  have hreserve : (if swapForY then PackedUint128Math.decodeY (PackedUint128Math.encode x y)
      else PackedUint128Math.decodeX (PackedUint128Math.encode x y)) =
        (if swapForY then y else x) % 2 ^ 64 := by
    rw [PackedUint128Math.decodeX_eq, PackedUint128Math.decodeY_eq, PackedUint128Math.encode_eq,
      Words.low_pack hx hy, Words.high_pack hx hy]
    split
    · rfl
    · rfl
  unfold getAmounts at h
  simp only [bind_eq_ok] at h
  obtain ⟨price', hprice', ⟨i, o, v⟩, hswap, L, hL, hguard⟩ := h
  rw [hprice] at hprice'
  cases hprice'
  rw [hreserve, PackedUint128Math.decodeFirst_encode ha] at hswap
  split at hguard
  · cases hguard
  · rename_i hmax
    cases hguard
    exact ⟨i, o, v, L, rfl, rfl, rfl, hswap, hL, BitVec.le_def.mp (BitVec.not_lt.mp hmax)⟩

section Quoted

variable {p reserveIn reserveOut i o : Nat}

/-- A swap whose lanes are the quote of the low limbs, without a wrap. -/
structure Quoted (swapForY : Bool) (p f reserveOut a i o v : Nat) : Prop where
  fee_lt : f < BinQuote.FEE_PRECISION
  price_pos : 0 < p
  input_lt : a < 2 ^ 128
  reserve_lt : reserveOut < 2 ^ 128
  unwrapped : ¬ Wraps swapForY p f (reserveOut % 2 ^ 64) (a % 2 ^ 64)
  quote_eq : BinQuote.quote swapForY p f (reserveOut % 2 ^ 64) (a % 2 ^ 64) = ⟨i, o, v⟩

namespace Quoted

variable (h : Quoted swapForY p f reserveOut a i o v)
include h

theorem amountIn_le : i ≤ a := by
  have hle := @BinQuote.quote_amountIn_le swapForY p f (reserveOut % 2 ^ 64) (a % 2 ^ 64)
  rw [h.quote_eq] at hle
  exact hle.trans (Nat.mod_le _ _)

theorem amountOut_le : o ≤ reserveOut := by
  have hle := @BinQuote.quote_amountOut_le swapForY p f (reserveOut % 2 ^ 64) (a % 2 ^ 64) h.fee_lt
  rw [h.quote_eq] at hle
  exact hle.trans (Nat.mod_le _ _)

theorem fee_le : v ≤ i := by
  have hle := @BinQuote.quote_fee_le swapForY p f (reserveOut % 2 ^ 64) (a % 2 ^ 64) h.fee_lt
  rw [h.quote_eq] at hle
  exact hle

theorem amountIn_lt : i < 2 ^ 128 := Nat.lt_of_le_of_lt h.amountIn_le h.input_lt

theorem amountOut_lt : o < 2 ^ 128 := Nat.lt_of_le_of_lt h.amountOut_le h.reserve_lt

theorem fee_read_lt : v < 2 ^ 128 := Nat.lt_of_le_of_lt h.fee_le h.amountIn_lt

/-- What the bin holds is worth no less afterwards. -/
theorem kept : BinQuote.worthIn swapForY p reserveIn + BinQuote.worthOut swapForY p reserveOut ≤
    BinQuote.worthIn swapForY p (reserveIn + i) +
      BinQuote.worthOut swapForY p (reserveOut - o) := by
  have hkept := @BinQuote.worth_exchange_le swapForY p f reserveOut (reserveOut % 2 ^ 64)
    (a % 2 ^ 64) reserveIn h.price_pos
    ((congrArg BinQuote.Quote.amountOut h.quote_eq).trans_le h.amountOut_le)
  rwa [h.quote_eq] at hkept

end Quoted

/-- The wrapped total leaves no room for the fee, and no limbs are enough for it. -/
theorem LimbsSuffice.not_wraps (h : LimbsSuffice swapForY p f reserveIn reserveOut a) :
    ¬ Wraps swapForY p f (reserveOut % 2 ^ 64) (a % 2 ^ 64) := by
  rcases h.amounts with ⟨hr, hle⟩ | ⟨ha, -, hno⟩
  · rw [Nat.mod_eq_of_lt hr]
    intro hwraps
    unfold Wraps at hwraps
    omega
  · rwa [Nat.mod_eq_of_lt ha]

/-- **Where the lanes are the quote of the limbs**, they are safe exactly where the limbs are
enough. -/
theorem Quoted.safeAmounts_iff {L : U256} (hx : x < 2 ^ 128) (hy : y < 2 ^ 128)
    (h : Quoted swapForY price.toNat f (if swapForY then y else x) amountIn i o v)
    (hins : ins = if swapForY then PackedUint128Math.encode i 0 else PackedUint128Math.encode 0 i)
    (houts : outs = if swapForY then PackedUint128Math.encode 0 o
      else PackedUint128Math.encode o 0)
    (hfees : fees = if swapForY then PackedUint128Math.encode v 0
      else PackedUint128Math.encode 0 v)
    (hL : getLiquidity (PackedUint128Math.encode x y + ins - outs) price = .ok L)
    (hmax : L.toNat ≤ MAX_LIQUIDITY_PER_BIN.toNat) :
    SafeAmounts swapForY price x y amountIn ins outs fees ↔
      LimbsSuffice swapForY price.toNat f (if swapForY then x else y)
        (if swapForY then y else x) amountIn := by
  have hspent := quote_limbs_spent_iff h.fee_lt h.quote_eq h.unwrapped
  have hafter := @exactLiquidity_exchange swapForY price x y i o h.amountIn_lt h.amountOut_lt
    h.amountOut_le ins outs hins houts
  have hout : lane outs (!swapForY) = o := houts ▸ lane_encode_out h.amountOut_lt _
  have hin : lane ins swapForY = i := hins ▸ lane_encode h.amountIn_lt _
  have hfee : lane fees swapForY = v := hfees ▸ lane_encode h.fee_read_lt _
  constructor
  · intro hsafe
    have hspent' := hsafe.spent
    have hbounded := hsafe.bounded
    rw [hout, hin] at hspent'
    rw [hafter] at hbounded
    refine ⟨hspent.mp hspent', ?_⟩
    intro q hq
    rw [h.quote_eq] at hq
    subst hq
    exact .inr (Int.ofNat_le.mp hbounded)
  · intro hlimbs
    refine ⟨?_, ?_, ?_, ⟨?_, ?_, ?_⟩, ?_, ?_, ?_⟩
    · rw [hout]
      exact h.amountOut_le
    · rw [hin]
      exact h.amountIn_le
    · rw [hfee, hin]
      exact h.fee_le
    · exact houts ▸ lane_encode_out_not h.amountOut_lt _
    · exact hins ▸ lane_encode_not h.amountIn_lt _
    · exact hfees ▸ lane_encode_not h.fee_read_lt _
    · rw [hout, hin]
      exact hspent.mpr hlimbs.amounts
    · rw [hafter, @exactLiquidity_eq swapForY price x y]
      exact_mod_cast h.kept
    · rw [hafter]
      apply Int.ofNat_le.mpr
      rcases hlimbs.reserves _ h.quote_eq.symm with ⟨hin', hout'⟩ | hfits
      · -- The guard has read the lanes as they are.
        rw [hins, houts] at hL
        rw [← getLiquidity_exchange hx hy hin' hout' h.amountOut_lt h.amountOut_le hL]
        exact hmax
      · exact hfits

end Quoted

/-- **What a swap in one bin owes, and when it pays it**: the amounts of a call that returns are
safe on whole lanes exactly where the low limbs the code reads are enough. -/
theorem getAmounts_safe_iff (hx : x < 2 ^ 128) (hy : y < 2 ^ 128) (ha : amountIn < 2 ^ 128)
    (hprice : PriceHelper.getPriceFromId prof id binStep = .ok price)
    (hfee : PairParameterHelper.getTotalFee parameters binStep = .ok f)
    (h : getAmounts prof (PackedUint128Math.encode x y) parameters binStep swapForY id
      (if swapForY then PackedUint128Math.encode amountIn 0
        else PackedUint128Math.encode 0 amountIn) = .ok (ins, outs, fees)) :
    SafeAmounts swapForY price x y amountIn ins outs fees ↔
      LimbsSuffice swapForY price.toNat f (if swapForY then x else y)
        (if swapForY then y else x) amountIn := by
  have hne := PriceHelper.getPriceFromId_ne_zero hprice
  have hreserve : (if swapForY then y else x) < 2 ^ 128 := by
    split
    · exact hy
    · exact hx
  obtain ⟨i, o, v, L, hins, houts, hfees, hswap, hL, hmax⟩ := getAmounts_eq_ok hx hy ha hprice h
  obtain ⟨hfle, hexact, hwrapped⟩ := swapAmounts_eq_ok hne (by omega) (by omega) hfee hswap
  by_cases hwraps : Wraps swapForY price.toNat f ((if swapForY then y else x) % 2 ^ 64)
    (amountIn % 2 ^ 64)
  · obtain ⟨hlt, hv⟩ := hwrapped hwraps
    refine iff_of_false ?_ fun hlimbs => hlimbs.not_wraps hwraps
    intro hsafe
    have hle := hsafe.fee_le
    rw [hfees, hins, lane_encode hv, lane_encode (by omega)] at hle
    omega
  · have hquoted : Quoted swapForY price.toNat f (if swapForY then y else x) amountIn i o v := by
      refine ⟨?_, BitVec.toNat_pos_of_ne_zero hne, ha, hreserve, hwraps,
        hexact hwraps⟩
      have hf17 : f ≤ 10 ^ 17 := hfle
      unfold BinQuote.FEE_PRECISION
      omega
    exact hquoted.safeAmounts_iff hx hy hins houts hfees hL hmax

/-- A bin at price one that holds a little less than `2 ^ 64` of Y, and an input that takes a part
of it. -/
theorem getAmounts_safe_iff_part :
    getAmounts ⟨true⟩ (PackedUint128Math.encode 5000000000000000000 10000000000000000000) 8000 25
        true 8388608 (PackedUint128Math.encode 3000000000000000000 0) =
      .ok (PackedUint128Math.encode 3000000000000000000 0,
        PackedUint128Math.encode 0 2994000000000000000,
        PackedUint128Math.encode 6000000000000000 0) ∧
    SafeAmounts true SCALE 5000000000000000000 10000000000000000000 3000000000000000000
      (PackedUint128Math.encode 3000000000000000000 0)
      (PackedUint128Math.encode 0 2994000000000000000)
      (PackedUint128Math.encode 6000000000000000 0) := by
  have h : getAmounts ⟨true⟩ (PackedUint128Math.encode 5000000000000000000 10000000000000000000)
      8000 25 true 8388608 (if true then PackedUint128Math.encode 3000000000000000000 0
        else PackedUint128Math.encode 0 3000000000000000000) =
      .ok (PackedUint128Math.encode 3000000000000000000 0,
        PackedUint128Math.encode 0 2994000000000000000,
        PackedUint128Math.encode 6000000000000000 0) := by decide +kernel
  refine ⟨h, (getAmounts_safe_iff (by omega) (by omega) (by omega) (by decide +kernel)
    (f := 2000000000000000) (by decide +kernel) h).mpr ⟨.inr ?_, ?_⟩⟩
  · exact ⟨by omega, by decide +kernel, by unfold Wraps; decide +kernel⟩
  · rintro q rfl
    exact .inl (by decide +kernel)

/-- A bin at price one that holds `2 ^ 64` of Y sells nothing: its low limb is empty. -/
theorem not_getAmounts_safe : ¬ ∀ (prof : BuildProfile) (x y amountIn : Nat)
    (parameters price : U256) (binStep id : Nat) (swapForY : Bool) (ins outs fees : U256),
    x < 2 ^ 128 → y < 2 ^ 128 → amountIn < 2 ^ 128 →
    PriceHelper.getPriceFromId prof id binStep = .ok price →
    getAmounts prof (PackedUint128Math.encode x y) parameters binStep swapForY id
      (if swapForY then PackedUint128Math.encode amountIn 0
        else PackedUint128Math.encode 0 amountIn) = .ok (ins, outs, fees) →
    SafeAmounts swapForY price x y amountIn ins outs fees := by
  intro hall
  have hsafe := hall ⟨true⟩ 0 (2 ^ 64) 1000 8000 SCALE 25 8388608 true 0 0 0 (by omega) (by omega)
    (by omega) (by decide +kernel) (by decide +kernel)
  exact absurd (hsafe.spent (by decide +kernel)) (by decide +kernel)

end BinHelper

end ArbitrageBot.Moe
