import ArbitrageBot.Amms.Moe.PackedAmounts
import ArbitrageBot.Amms.Moe.Uint256x256
import ArbitrageBot.Lib.Shares

/-!
# Shares of a liquidity-book bin

A deposit mints shares of its liquidity rounded down, and gives back what they are not worth, first
in `y`, then in `x`. The reserves and the deposit are decoded to the low limb of each lane, the sum
of reserves and deposit wraps: holders are not diluted where the reserves fit a limb and the sums
fit their lanes and the word of the supply.
-/

namespace ArbitrageBot.Moe.BinHelper

open Lib PackedUint128Math Uint256x256Math

/-- The amount of one token, which is only computed where the bin holds some. -/
def amountOutFromBin (binReserve : Nat) (amountToBurn totalSupply : U256) : MathOutcome Nat :=
  if binReserve > 0 then do
    let val ← mulDivRoundDown amountToBurn (BitVec.ofNat 256 binReserve) totalSupply
    safe128 val
  else return 0

def getAmountOutOfBin (binReserves amountToBurn totalSupply : U256) : MathOutcome U256 := do
  let (binReserveX, binReserveY) := decode binReserves
  let amountXOutFromBin ← amountOutFromBin binReserveX amountToBurn totalSupply
  let amountYOutFromBin ← amountOutFromBin binReserveY amountToBurn totalSupply
  return encode amountXOutFromBin amountYOutFromBin

/-- `mut y` and `delta_liquidity`, where a unit of `y` can be given back. -/
def reduceY (prof : BuildProfile) (y : Nat) (deltaLiquidity : U256) : MathOutcome (Nat × U256) :=
  if deltaLiquidity ≥ SCALE then do
    let deltaY := deltaLiquidity >>> SCALE_OFFSET
    let yU256 := BitVec.ofNat 256 y
    let deltaY := if deltaY > yU256 then yU256 else deltaY
    let y ← prof.unsigned 128 ((y : Int) - limb0 deltaY)
    return (y, deltaLiquidity - (deltaY <<< SCALE_OFFSET))
  else return (y, deltaLiquidity)

/-- `mut x`, where a unit of it can be given back. A division by zero panics. -/
def reduceX (prof : BuildProfile) (x : Nat) (price deltaLiquidity : U256) : MathOutcome Nat :=
  if deltaLiquidity ≥ price then
    if price = 0 then .error .panic
    else
      let deltaX := deltaLiquidity / price
      let xU256 := BitVec.ofNat 256 x
      let deltaX := if deltaX > xU256 then xU256 else deltaX
      prof.unsigned 128 ((x : Int) - limb0 deltaX)
  else return x

/-- The amounts, less the `delta_liquidity` that the shares are not worth. -/
def reduceAmounts (prof : BuildProfile) (x y : Nat) (price deltaLiquidity : U256) :
    MathOutcome U256 := do
  let (y, deltaLiquidity) ← reduceY prof y deltaLiquidity
  let x ← reduceX prof x price deltaLiquidity
  return encode x y

def effectiveAmounts (prof : BuildProfile)
    (amountsIn price userLiquidity effectiveLiquidity : U256) : MathOutcome U256 :=
  let (x, y) := decode amountsIn
  if userLiquidity > effectiveLiquidity then
    reduceAmounts prof x y price (userLiquidity - effectiveLiquidity)
  else return amountsIn

/-- The part of `get_shares_and_effective_amounts_in` for a bin with liquidity and shares. -/
def sharesOfLiquidBin (prof : BuildProfile) (binReserves amountsIn price totalSupply userLiquidity
    binLiquidity : U256) : MathOutcome (U256 × U256) := do
  let shares ← mulDivRoundDown userLiquidity totalSupply binLiquidity
  let effectiveLiquidity ← mulDivRoundUp shares binLiquidity totalSupply
  let amountsIn ← effectiveAmounts prof amountsIn price userLiquidity effectiveLiquidity
  let newLiquidity ← getLiquidity (binReserves + amountsIn) price
  if newLiquidity > MAX_LIQUIDITY_PER_BIN then .error (.err .maxLiquidityPerBinExceeded)
  else return (shares, amountsIn)

/-- `none` when the loop of the square root needs more than `fuel` rounds. -/
def getSharesAndEffectiveAmountsIn (prof : BuildProfile) (fuel : Nat)
    (binReserves amountsIn price totalSupply : U256) : Option (MathOutcome (U256 × U256)) :=
  let (x, y) := decode amountsIn
  match getLiquidityComponents (BitVec.ofNat 256 x) (BitVec.ofNat 256 y) price with
  | .error e => some (.error e)
  | .ok userLiquidity =>
    if userLiquidity = 0 then some (.ok (0, 0))
    else
      match getLiquidity binReserves price with
      | .error e => some (.error e)
      | .ok binLiquidity =>
        if binLiquidity = 0 ∨ totalSupply = 0 then
          (sqrt fuel userLiquidity).map fun r => r.map fun shares => (shares, amountsIn)
        else
          some (sharesOfLiquidBin prof binReserves amountsIn price totalSupply userLiquidity
            binLiquidity)

/-! ## What holders are promised -/

/-- `price * x + 2 ^ 128 * y`, over the integers. -/
def liquidity (amounts price : U256) : Nat :=
  price.toNat * Words.low amounts + Words.high amounts * 2 ^ 128

/-- What the code reads of it. -/
def limbLiquidity (amounts price : U256) : Nat :=
  price.toNat * (Words.low amounts % 2 ^ 64) + Words.high amounts % 2 ^ 64 * 2 ^ 128

/-- Holders are not diluted by a deposit of the effective amounts for the shares. -/
structure NotDiluted (binReserves amountsIn price totalSupply shares effective : U256) : Prop where
  low_le : Words.low effective ≤ Words.low amountsIn
  high_le : Words.high effective ≤ Words.high amountsIn
  low_fits : Words.low binReserves + Words.low effective < 2 ^ 128
  high_fits : Words.high binReserves + Words.high effective < 2 ^ 128
  minted : liquidity binReserves price ≠ 0 → totalSupply ≠ 0 →
    shares.toNat * liquidity binReserves price ≤ liquidity effective price * totalSupply.toNat
  redeemed : liquidity binReserves price ≠ 0 → totalSupply ≠ 0 → ∀ amountsOut,
    getAmountOutOfBin (binReserves + effective) shares (totalSupply + shares) = .ok amountsOut →
      liquidity amountsOut price ≤ liquidity effective price

/-- Every return of the function keeps the promise. -/
def Keeps (prof : BuildProfile) (binReserves amountsIn price totalSupply : U256) : Prop :=
  ∀ fuel shares effective,
    getSharesAndEffectiveAmountsIn prof fuel binReserves amountsIn price totalSupply =
        some (.ok (shares, effective)) →
      NotDiluted binReserves amountsIn price totalSupply shares effective

/-- Both lanes fit the limb that is decoded. -/
def Decodable (z : U256) : Prop := Words.low z < 2 ^ 64 ∧ Words.high z < 2 ^ 64

/-- Reserves and deposit fit their lanes. -/
def LanesFit (binReserves amountsIn : U256) : Prop :=
  Words.low binReserves + Words.low amountsIn < 2 ^ 128 ∧
    Words.high binReserves + Words.high amountsIn < 2 ^ 128

/-- The supply, grown as the liquidity of the bin grows, is a word. -/
def SupplyFits (binReserves amountsIn price totalSupply : U256) : Prop :=
  liquidity binReserves price ≠ 0 →
    (limbLiquidity amountsIn price + liquidity binReserves price) * totalSupply.toNat <
      2 ^ 256 * liquidity binReserves price

/-! ## The liquidity that is computed -/

variable {prof : BuildProfile} {fuel : Nat}
  {binReserves amountsIn price totalSupply userLiquidity binLiquidity : U256}

theorem decode_eq (z : U256) : decode z = (Words.low z % 2 ^ 64, Words.high z % 2 ^ 64) := by
  rw [decode, decodeX_eq, decodeY_eq]

/-- The liquidity the code computes, where it is a word. -/
theorem getLiquidity_eq_limb {amounts w : U256} : getLiquidity amounts price = .ok w ↔
    limbLiquidity amounts price < 2 ^ 256 ∧ w.toNat = limbLiquidity amounts price :=
  getLiquidity_eq_ok_iff

theorem limbLiquidity_le (amounts price : U256) :
    limbLiquidity amounts price ≤ liquidity amounts price :=
  Nat.add_le_add (Nat.mul_le_mul_left _ (Nat.mod_le _ _)) (Nat.mul_le_mul_right _ (Nat.mod_le _ _))

theorem limbLiquidity_of_decodable (h : Decodable binReserves) :
    limbLiquidity binReserves price = liquidity binReserves price := by
  rw [limbLiquidity, Nat.mod_eq_of_lt h.1, Nat.mod_eq_of_lt h.2, liquidity]

/-- **The cases of the function.** -/
theorem getShares_cases {shares effective : U256}
    (h : getSharesAndEffectiveAmountsIn prof fuel binReserves amountsIn price totalSupply =
      some (.ok (shares, effective))) :
    (limbLiquidity amountsIn price = 0 ∧ shares = 0 ∧ effective = 0) ∨
    (limbLiquidity binReserves price = 0 ∨ totalSupply = 0) ∧ effective = amountsIn ∨
    ∃ userLiquidity binLiquidity : U256,
      userLiquidity.toNat = limbLiquidity amountsIn price ∧
      binLiquidity.toNat = limbLiquidity binReserves price ∧ binLiquidity ≠ 0 ∧ totalSupply ≠ 0 ∧
      sharesOfLiquidBin prof binReserves amountsIn price totalSupply userLiquidity binLiquidity =
        .ok (shares, effective) := by
  unfold getSharesAndEffectiveAmountsIn decode at h
  dsimp only at h
  split at h
  · cases h
  · rename_i user huser
    obtain ⟨-, huser⟩ := (@getLiquidity_eq_limb price amountsIn user).mp huser
    split at h
    · rename_i hzero
      cases h
      rw [hzero] at huser
      exact Or.inl ⟨huser.symm, rfl, rfl⟩
    · split at h
      · cases h
      · rename_i bin hbin
        obtain ⟨-, hbin⟩ := getLiquidity_eq_limb.mp hbin
        split at h
        · rename_i hempty
          rw [Option.map_eq_some_iff] at h
          obtain ⟨r, -, hr⟩ := h
          refine Or.inr (Or.inl ⟨hempty.imp_left fun hzero => ?_, ?_⟩)
          · rw [← hbin, hzero]
            rfl
          · cases r with
            | error e => cases hr
            | ok s =>
              cases hr
              rfl
        · rename_i hliquid
          rw [not_or] at hliquid
          exact Or.inr (Or.inr ⟨user, bin, huser, hbin, hliquid.1, hliquid.2, Option.some.inj h⟩)

/-! ## What is given back -/

/-- The smaller of the surplus and the lane, in the code's comparison. -/
theorem toNat_min_lane {d : U256} {n : Nat} (hn : n < 2 ^ 64) :
    (if d > BitVec.ofNat 256 n then BitVec.ofNat 256 n else d).toNat = min d.toNat n := by
  have hval : (BitVec.ofNat 256 n).toNat = n := by
    rw [BitVec.toNat_ofNat, Nat.mod_eq_of_lt (by omega)]
  by_cases h : d > BitVec.ofNat 256 n
  · rw [if_pos h, hval]
    rw [gt_iff_lt, BitVec.lt_def, hval] at h
    exact (Nat.min_eq_right h.le).symm
  · rw [if_neg h]
    rw [gt_iff_lt, BitVec.lt_def, hval, Nat.not_lt] at h
    exact (Nat.min_eq_left h).symm

/-- A lane less what is taken of it. -/
theorem unsigned_sub_lane {d : U256} {n k : Nat} (hn : n < 2 ^ 64) (hd : d.toNat = k) (hk : k ≤ n) :
    (prof.unsigned 128 ((n : Int) - limb0 d) : MathOutcome Nat) = .ok (n - k) := by
  have hlimb : limb0 d = k := by rw [limb0, hd, Nat.mod_eq_of_lt (by omega)]
  rw [hlimb, BuildProfile.unsigned_of_range (by omega) (by omega)]
  congr 1
  omega

theorem reduceY_eq {y : Nat} (hy : y < 2 ^ 64) (delta : U256) :
    ∃ rest : U256, reduceY prof y delta = .ok (y - Shares.trim (2 ^ 128) y delta.toNat, rest) ∧
      rest.toNat = delta.toNat - Shares.trim (2 ^ 128) y delta.toNat * 2 ^ 128 := by
  have hscale : SCALE.toNat = 2 ^ 128 := rfl
  have hdelta := delta.isLt
  have hle := @Shares.trim_le (2 ^ 128) y delta.toNat
  have hmul := @Shares.trim_mul_le (2 ^ 128) y delta.toNat
  unfold reduceY
  by_cases hlarge : delta ≥ SCALE
  · rw [if_pos hlarge]
    dsimp only
    have htake : (if delta >>> SCALE_OFFSET > BitVec.ofNat 256 y then BitVec.ofNat 256 y
        else delta >>> SCALE_OFFSET).toNat = Shares.trim (2 ^ 128) y delta.toNat := by
      rw [toNat_min_lane hy, BitVec.toNat_ushiftRight, Nat.shiftRight_eq_div_pow]
      rfl
    generalize (if delta >>> SCALE_OFFSET > BitVec.ofNat 256 y then BitVec.ofNat 256 y
      else delta >>> SCALE_OFFSET) = taken at htake ⊢
    have hshift : (taken <<< SCALE_OFFSET).toNat =
        Shares.trim (2 ^ 128) y delta.toNat * 2 ^ 128 := by
      have hlt : Shares.trim (2 ^ 128) y delta.toNat * 2 ^ 128 < 2 ^ 256 := by omega
      rw [BitVec.toNat_shiftLeft, Nat.shiftLeft_eq, htake]
      exact Nat.mod_eq_of_lt hlt
    refine ⟨delta - taken <<< SCALE_OFFSET, ?_, ?_⟩
    · rw [unsigned_sub_lane hy htake hle]
      rfl
    · rw [BitVec.toNat_sub_of_le (by rw [BitVec.le_def, hshift]; exact hmul), hshift]
  · have hsmall : delta.toNat < 2 ^ 128 := by
      rw [ge_iff_le, BitVec.le_def, hscale] at hlarge
      omega
    rw [if_neg hlarge, Shares.trim_eq_zero hsmall, Nat.zero_mul]
    exact ⟨delta, rfl, rfl⟩

theorem reduceX_eq {x : Nat} (hx : x < 2 ^ 64) (hprice : price ≠ 0) (delta : U256) :
    reduceX prof x price delta = .ok (x - Shares.trim price.toNat x delta.toNat) := by
  unfold reduceX
  by_cases hlarge : delta ≥ price
  · have htake : (if delta / price > BitVec.ofNat 256 x then BitVec.ofNat 256 x
        else delta / price).toNat = Shares.trim price.toNat x delta.toNat := by
      rw [toNat_min_lane hx, BitVec.toNat_udiv]
      rfl
    rw [if_pos hlarge, if_neg hprice]
    exact unsigned_sub_lane hx htake Shares.trim_le
  · have hsmall : delta.toNat < price.toNat := by
      rw [ge_iff_le, BitVec.le_def] at hlarge
      omega
    rw [if_neg hlarge, Shares.trim_eq_zero hsmall]
    rfl

/-- **The reduction** gives back units of `y`, then of `x`, for no more than the surplus. -/
theorem reduceAmounts_spec {x y : Nat} (hx : x < 2 ^ 64) (hy : y < 2 ^ 64) (hprice : price ≠ 0)
    (delta : U256) : ∃ x' y', reduceAmounts prof x y price delta = .ok (encode x' y') ∧ x' ≤ x ∧
      y' ≤ y ∧ price.toNat * x + y * 2 ^ 128 ≤
        price.toNat * x' + y' * 2 ^ 128 + delta.toNat := by
  obtain ⟨rest, hreduced, hrest⟩ := @reduceY_eq prof y hy delta
  refine ⟨x - Shares.trim price.toNat x rest.toNat, y - Shares.trim (2 ^ 128) y delta.toNat, ?_,
    Nat.sub_le _ _, Nat.sub_le _ _, ?_⟩
  · unfold reduceAmounts
    rw [hreduced, ok_bind]
    dsimp only
    rw [reduceX_eq hx hprice]
    rfl
  · have hxmul := @Shares.trim_mul_le price.toNat x rest.toNat
    have hymul := @Shares.trim_mul_le (2 ^ 128) y delta.toNat
    have hxle := @Shares.trim_le price.toNat x rest.toNat
    have hyle := @Shares.trim_le (2 ^ 128) y delta.toNat
    generalize Shares.trim price.toNat x rest.toNat = dx at *
    generalize Shares.trim (2 ^ 128) y delta.toNat = dy at *
    obtain ⟨x', rfl⟩ := Nat.exists_eq_add_of_le hxle
    obtain ⟨y', rfl⟩ := Nat.exists_eq_add_of_le hyle
    rw [Nat.add_sub_cancel_left, Nat.add_sub_cancel_left, Nat.mul_add, Nat.add_mul,
      Nat.mul_comm _ dx]
    omega

/-! ## A bin with liquidity -/

/-- The quotient rounded down, where it returns. -/
theorem toNat_mulDivRoundDown {a b d w : U256} (h : mulDivRoundDown a b d = .ok w) :
    d ≠ 0 ∧ w.toNat = a.toNat * b.toNat / d.toNat := by
  rw [mulDivRoundDown_eq, floorQuotient] at h
  split at h
  · cases h
  · rename_i hd
    split at h
    · rename_i hlt
      cases h
      refine ⟨fun hzero => hd (hzero ▸ rfl), ?_⟩
      rw [BitVec.toNat_ofNat, Nat.mod_eq_of_lt hlt]
    · cases h

/-- What the shares are worth is no more than the deposit, and so a word. -/
theorem mulDivRoundUp_worth {shares : U256} (ht : totalSupply ≠ 0)
    (hshares : shares.toNat =
      Shares.minted userLiquidity.toNat totalSupply.toNat binLiquidity.toNat) :
    ∃ w : U256, mulDivRoundUp shares binLiquidity totalSupply = .ok w ∧
      w.toNat = Shares.worth shares.toNat totalSupply.toNat binLiquidity.toNat ∧
        w ≤ userLiquidity := by
  have htpos := BitVec.toNat_pos_of_ne_zero ht
  have hle : Shares.worth shares.toNat totalSupply.toNat binLiquidity.toNat ≤
      userLiquidity.toNat := by
    rw [hshares]
    exact Shares.worth_le htpos
  have hlt := userLiquidity.isLt
  have hround := (roundUp_exact_iff shares binLiquidity totalSupply 0).1.mpr fun hpast => by
    have hmul : shares.toNat * binLiquidity.toNat ≤ userLiquidity.toNat * totalSupply.toNat := by
      rw [hshares]
      exact Shares.minted_mul_le
    have hword :=
      Nat.mul_le_mul_left totalSupply.toNat (by omega : userLiquidity.toNat ≤ 2 ^ 256 - 1)
    rw [Nat.mul_comm totalSupply.toNat userLiquidity.toNat] at hword
    have := hpast.1
    omega
  change Shares.worth shares.toNat totalSupply.toNat binLiquidity.toNat ≤ _ at hle
  unfold RoundsUp at hround
  rw [if_pos ⟨htpos, lt_of_le_of_lt hle hlt⟩] at hround
  refine ⟨_, hround, ?_, ?_⟩
  · exact (BitVec.toNat_ofNat _ _).trans (Nat.mod_eq_of_lt (lt_of_le_of_lt hle hlt))
  · rw [BitVec.le_def, BitVec.toNat_ofNat]
    exact (Nat.mod_le _ _).trans hle

/-- The effective amounts are within those sent, and worth the effective liquidity. -/
theorem effectiveAmounts_spec {effectiveLiquidity effective : U256} (hprice : price ≠ 0)
    (huser : userLiquidity.toNat = limbLiquidity amountsIn price)
    (hle : effectiveLiquidity ≤ userLiquidity)
    (h : effectiveAmounts prof amountsIn price userLiquidity effectiveLiquidity = .ok effective) :
    Words.low effective ≤ Words.low amountsIn ∧ Words.high effective ≤ Words.high amountsIn ∧
      effectiveLiquidity.toNat ≤ liquidity effective price := by
  have hle' := BitVec.le_def.mp hle
  unfold effectiveAmounts at h
  rw [decode_eq] at h
  dsimp only at h
  split at h
  · have hxlt := Nat.mod_lt (Words.low amountsIn) (by omega : 0 < 2 ^ 64)
    have hylt := Nat.mod_lt (Words.high amountsIn) (by omega : 0 < 2 ^ 64)
    obtain ⟨x', y', hreduced, hx, hy, hkept⟩ :=
      @reduceAmounts_spec prof price _ _ hxlt hylt hprice (userLiquidity - effectiveLiquidity)
    rw [h] at hreduced
    obtain rfl := Except.ok.inj hreduced
    have hlow : Words.low (encode x' y') = x' := Words.low_pack (by omega) (by omega)
    have hhigh : Words.high (encode x' y') = y' := Words.high_pack (by omega) (by omega)
    rw [BitVec.toNat_sub_of_le hle] at hkept
    unfold liquidity
    unfold limbLiquidity at huser
    rw [hlow, hhigh]
    exact ⟨hx.trans (Nat.mod_le _ _), hy.trans (Nat.mod_le _ _), by omega⟩
  · obtain rfl := Except.ok.inj h
    refine ⟨Nat.le_refl _, Nat.le_refl _, ?_⟩
    rw [huser] at hle'
    exact hle'.trans (limbLiquidity_le amountsIn price)

/-- **The shares of a liquid bin**: they are minted rounded down, and the effective amounts are
worth them. -/
theorem sharesOfLiquidBin_spec {shares effective : U256} (hprice : price ≠ 0)
    (ht : totalSupply ≠ 0) (huser : userLiquidity.toNat = limbLiquidity amountsIn price)
    (h : sharesOfLiquidBin prof binReserves amountsIn price totalSupply userLiquidity binLiquidity =
      .ok (shares, effective)) :
    shares.toNat = Shares.minted userLiquidity.toNat totalSupply.toNat binLiquidity.toNat ∧
      Words.low effective ≤ Words.low amountsIn ∧ Words.high effective ≤ Words.high amountsIn ∧
      Shares.worth shares.toNat totalSupply.toNat binLiquidity.toNat ≤
        liquidity effective price := by
  unfold sharesOfLiquidBin at h
  simp only [bind_eq_ok] at h
  obtain ⟨s, hs, w, hw, eff, heff, newLiquidity, -, h⟩ := h
  split at h
  · cases h
  · cases h
    obtain ⟨-, hs⟩ := toNat_mulDivRoundDown hs
    obtain ⟨w', hw', hworth, hle⟩ := mulDivRoundUp_worth ht hs
    obtain rfl := Except.ok.inj (hw'.symm.trans hw)
    refine ⟨hs, ?_⟩
    rw [← hworth]
    exact effectiveAmounts_spec hprice huser hle heff

/-! ## Redeeming -/

theorem amountOutFromBin_eq {n k : Nat} (hn : n < 2 ^ 64) {shares supply : U256}
    (h : amountOutFromBin n shares supply = .ok k) :
    k = shares.toNat * n / supply.toNat ∧ k < 2 ^ 128 := by
  unfold amountOutFromBin at h
  split at h
  · rw [bind_eq_ok] at h
    obtain ⟨val, hval, h⟩ := h
    obtain ⟨-, hval⟩ := toNat_mulDivRoundDown hval
    rw [BitVec.toNat_ofNat, Nat.mod_eq_of_lt (by omega)] at hval
    unfold safe128 toU128 at h
    split at h
    · rename_i hlt
      cases h
      exact ⟨hval, hlt⟩
    · cases h
  · rename_i hzero
    cases h
    have hn0 : n = 0 := by omega
    rw [hn0, Nat.mul_zero, Nat.zero_div]
    exact ⟨rfl, by omega⟩

theorem getAmountOutOfBin_spec {reserves shares supply amountsOut : U256}
    (h : getAmountOutOfBin reserves shares supply = .ok amountsOut) :
    Words.low amountsOut = shares.toNat * (Words.low reserves % 2 ^ 64) / supply.toNat ∧
      Words.high amountsOut = shares.toNat * (Words.high reserves % 2 ^ 64) / supply.toNat := by
  unfold getAmountOutOfBin at h
  rw [decode_eq] at h
  dsimp only at h
  rw [bind_eq_ok] at h
  obtain ⟨x, hx, h⟩ := h
  rw [bind_eq_ok] at h
  obtain ⟨y, hy, h⟩ := h
  cases h
  obtain ⟨hx, hxlt⟩ := amountOutFromBin_eq (Nat.mod_lt _ (by omega)) hx
  obtain ⟨hy, hylt⟩ := amountOutFromBin_eq (Nat.mod_lt _ (by omega)) hy
  exact ⟨(Words.low_pack hxlt hylt).trans hx, (Words.high_pack hxlt hylt).trans hy⟩

/-- **Redeeming** the shares of a deposit that covers them returns no more than the deposit. -/
theorem redeemed_le {shares effective amountsOut : U256} (ht : totalSupply ≠ 0)
    (hlanes : LanesFit binReserves effective)
    (hsupply : totalSupply.toNat + shares.toNat < 2 ^ 256)
    (hminted : shares.toNat * liquidity binReserves price ≤
      liquidity effective price * totalSupply.toNat)
    (h : getAmountOutOfBin (binReserves + effective) shares (totalSupply + shares) =
      .ok amountsOut) : liquidity amountsOut price ≤ liquidity effective price := by
  obtain ⟨hlow, hhigh⟩ := getAmountOutOfBin_spec h
  have htpos := BitVec.toNat_pos_of_ne_zero ht
  have hsum : (totalSupply + shares).toNat = totalSupply.toNat + shares.toNat := by
    rw [BitVec.toNat_add, Nat.mod_eq_of_lt hsupply]
  rw [hsum] at hlow hhigh
  have hlowle : Words.low (binReserves + effective) % 2 ^ 64 ≤
      Words.low binReserves + Words.low effective := by
    rw [low_add, Nat.mod_eq_of_lt hlanes.1]
    exact Nat.mod_le _ _
  have hhighle : Words.high (binReserves + effective) % 2 ^ 64 ≤
      Words.high binReserves + Words.high effective := by
    rw [high_add, Nat.div_eq_of_lt hlanes.1, Nat.add_zero, Nat.mod_eq_of_lt hlanes.2]
    exact Nat.mod_le _ _
  have hredeem := Shares.redeem_le hminted
  refine Nat.le_of_mul_le_mul_right (Nat.le_trans ?_ hredeem)
    (by omega : 0 < totalSupply.toNat + shares.toNat)
  have hx := Nat.div_mul_le_self
    (shares.toNat * (Words.low (binReserves + effective) % 2 ^ 64))
    (totalSupply.toNat + shares.toNat)
  have hy := Nat.div_mul_le_self
    (shares.toNat * (Words.high (binReserves + effective) % 2 ^ 64))
    (totalSupply.toNat + shares.toNat)
  rw [← hlow] at hx
  rw [← hhigh] at hy
  unfold liquidity
  calc (price.toNat * Words.low amountsOut + Words.high amountsOut * 2 ^ 128) *
        (totalSupply.toNat + shares.toNat) =
      price.toNat * (Words.low amountsOut * (totalSupply.toNat + shares.toNat)) +
        Words.high amountsOut * (totalSupply.toNat + shares.toNat) * 2 ^ 128 := by ring
    _ ≤ price.toNat * (shares.toNat * (Words.low binReserves + Words.low effective)) +
        shares.toNat * (Words.high binReserves + Words.high effective) * 2 ^ 128 :=
      Nat.add_le_add
        (Nat.mul_le_mul_left _ (hx.trans (Nat.mul_le_mul_left _ hlowle)))
        (Nat.mul_le_mul_right _ (hy.trans (Nat.mul_le_mul_left _ hhighle)))
    _ = shares.toNat * (price.toNat * Words.low binReserves + Words.high binReserves * 2 ^ 128 +
        (price.toNat * Words.low effective + Words.high effective * 2 ^ 128)) := by ring

/-- No shares dilute nobody. -/
theorem notDiluted_zero {effective : U256} (hlow : Words.low effective ≤ Words.low amountsIn)
    (hhigh : Words.high effective ≤ Words.high amountsIn)
    (hlanes : LanesFit binReserves effective) :
    NotDiluted binReserves amountsIn price totalSupply 0 effective := by
  have hminted : (0 : U256).toNat * liquidity binReserves price ≤
      liquidity effective price * totalSupply.toNat := (Nat.zero_mul _).trans_le (Nat.zero_le _)
  exact ⟨hlow, hhigh, hlanes.1, hlanes.2, fun _ _ => hminted, fun _ ht _ hout =>
    redeemed_le ht hlanes (Nat.add_zero _ ▸ totalSupply.isLt) hminted hout⟩

/-- **A deposit into decodable reserves** whose sums fit dilutes no holder. -/
theorem keeps_of_decodable (hprice : price ≠ 0) (hreserves : Decodable binReserves)
    (hlanes : LanesFit binReserves amountsIn)
    (hsupply : SupplyFits binReserves amountsIn price totalSupply) :
    Keeps prof binReserves amountsIn price totalSupply := by
  intro fuel shares effective h
  have hbin := @limbLiquidity_of_decodable binReserves price hreserves
  rcases getShares_cases h with
    ⟨-, rfl, rfl⟩ | ⟨hempty, rfl⟩ | ⟨user, bin, huser, hval, hbin0, ht, h⟩
  · exact notDiluted_zero (Nat.zero_le _) (Nat.zero_le _) ⟨Words.low_lt _, Words.high_lt _⟩
  · rw [hbin] at hempty
    refine ⟨Nat.le_refl _, Nat.le_refl _, hlanes.1, hlanes.2, fun hL ht => ?_, fun hL ht => ?_⟩
    · exact absurd hempty (not_or.mpr ⟨hL, ht⟩)
    · exact absurd hempty (not_or.mpr ⟨hL, ht⟩)
  · obtain ⟨hshares, hlow, hhigh, hworth⟩ := sharesOfLiquidBin_spec hprice ht huser h
    rw [hbin] at hval
    rw [hval] at hshares hworth
    have hfit : LanesFit binReserves effective :=
      ⟨(Nat.add_le_add_left hlow _).trans_lt hlanes.1,
        (Nat.add_le_add_left hhigh _).trans_lt hlanes.2⟩
    have hpos : 0 < liquidity binReserves price := by
      rw [← hval]
      exact BitVec.toNat_pos_of_ne_zero hbin0
    have hminted : shares.toNat * liquidity binReserves price ≤
        liquidity effective price * totalSupply.toNat :=
      (Shares.mul_le_worth_mul (BitVec.toNat_pos_of_ne_zero ht)).trans
        (Nat.mul_le_mul_right _ hworth)
    have hsum : totalSupply.toNat + shares.toNat < 2 ^ 256 := by
      rw [hshares, Shares.add_minted_lt_iff hpos, huser]
      exact hsupply hpos.ne'
    exact ⟨hlow, hhigh, hfit.1, hfit.2, fun _ _ => hminted,
      fun _ ht amountsOut hout => redeemed_le ht hfit hsum hminted hout⟩

/-! ## Where holders are diluted -/

theorem limbLiquidity_one (amounts : U256) : limbLiquidity amounts 1 =
    Words.low amounts % 2 ^ 64 + Words.high amounts % 2 ^ 64 * 2 ^ 128 := by
  have hone : (1 : U256).toNat = 1 := rfl
  rw [limbLiquidity, hone, Nat.one_mul]

theorem liquidity_one (amounts : U256) :
    liquidity amounts 1 = Words.low amounts + Words.high amounts * 2 ^ 128 := by
  have hone : (1 : U256).toNat = 1 := rfl
  rw [liquidity, hone, Nat.one_mul]

/-- At the price 1 every liquidity of limbs is a word below the limit of a bin. -/
theorem exists_getLiquidity_one (amounts : U256) :
    ∃ w : U256, getLiquidity amounts 1 = .ok w ∧ w.toNat = limbLiquidity amounts 1 ∧
      ¬ w > MAX_LIQUIDITY_PER_BIN := by
  have hlt : limbLiquidity amounts 1 < 2 ^ 194 := by
    rw [limbLiquidity_one]
    omega
  have hval : (BitVec.ofNat 256 (limbLiquidity amounts 1)).toNat = limbLiquidity amounts 1 := by
    rw [BitVec.toNat_ofNat, Nat.mod_eq_of_lt (by omega)]
  have hmax : 2 ^ 194 ≤ MAX_LIQUIDITY_PER_BIN.toNat := by decide
  refine ⟨_, getLiquidity_eq_limb.mpr ⟨by omega, hval⟩, hval, ?_⟩
  rw [gt_iff_lt, BitVec.lt_def, hval]
  omega

/-- A supply of as many shares as the code sees liquidity: a deposit is taken whole, for as many
shares as the code sees liquidity in it. -/
theorem getShares_exactSupply (hsupply : totalSupply.toNat = limbLiquidity binReserves 1)
    (ht : totalSupply ≠ 0) (huser : limbLiquidity amountsIn 1 ≠ 0) :
    ∃ shares : U256, shares.toNat = limbLiquidity amountsIn 1 ∧
      getSharesAndEffectiveAmountsIn prof fuel binReserves amountsIn 1 totalSupply =
        some (.ok (shares, amountsIn)) := by
  obtain ⟨user, hgetUser, hval, -⟩ := exists_getLiquidity_one amountsIn
  obtain ⟨bin, hgetBin, hbin, -⟩ := exists_getLiquidity_one binReserves
  obtain ⟨new, hgetNew, -, hmax⟩ := exists_getLiquidity_one (binReserves + amountsIn)
  obtain rfl : bin = totalSupply := BitVec.eq_of_toNat_eq (hbin.trans hsupply.symm)
  have hpos := BitVec.toNat_pos_of_ne_zero ht
  have huser0 : user ≠ 0 := by
    rintro rfl
    exact huser hval.symm
  have hself : user.toNat * bin.toNat / bin.toNat = user.toNat := Nat.mul_div_cancel _ hpos
  have hdown : mulDivRoundDown user bin bin = .ok user := by
    rw [mulDivRoundDown_eq, floorQuotient, if_neg hpos.ne', hself, if_pos user.isLt,
      BitVec.ofNat_toNat, BitVec.setWidth_eq]
  obtain ⟨w, hup, hw, -⟩ := @mulDivRoundUp_worth bin user bin user ht hself.symm
  have hnone : ¬ user > w := by
    have hcover := @Shares.mul_le_worth_mul user.toNat bin.toNat bin.toNat hpos
    rw [← hw] at hcover
    rw [gt_iff_lt, BitVec.lt_def, Nat.not_lt]
    exact Nat.le_of_mul_le_mul_right hcover hpos
  have hshares : sharesOfLiquidBin prof binReserves amountsIn 1 bin user bin =
      .ok (user, amountsIn) := by
    unfold sharesOfLiquidBin effectiveAmounts
    simp only [hdown, hup, ok_bind, hnone, if_false, hgetNew, hmax, pure, Except.pure]
  refine ⟨user, hval, ?_⟩
  have hcomponents : getLiquidityComponents (BitVec.ofNat 256 (decodeX amountsIn))
      (BitVec.ofNat 256 (decodeY amountsIn)) 1 = .ok user := hgetUser
  unfold getSharesAndEffectiveAmountsIn decode
  simp only [hcomponents, huser0, if_false, hgetBin, ht, or_self, hshares]

/-- Reserves of more than the limbs have more liquidity than the code sees. -/
theorem limbLiquidity_lt (hreserves : ¬ Decodable binReserves) :
    limbLiquidity binReserves 1 < liquidity binReserves 1 := by
  rw [limbLiquidity_one, liquidity_one]
  unfold Decodable at hreserves
  omega

/-- A deposit of a unit of one token, which fits unless both lanes are full. -/
theorem exists_unit (hfull : binReserves ≠ BitVec.allOnes 256) :
    ∃ amounts, LanesFit binReserves amounts ∧ limbLiquidity amounts 1 = liquidity amounts 1 ∧
      (liquidity amounts 1 = 1 ∨
        liquidity amounts 1 = 2 ^ 128 ∧ Words.low binReserves = 2 ^ 128 - 1) := by
  have hlow := Words.low_lt binReserves
  have hhigh := Words.high_lt binReserves
  by_cases hroom : Words.low binReserves = 2 ^ 128 - 1
  · refine ⟨encode 0 1, ?_, by decide, Or.inr ⟨by decide, hroom⟩⟩
    have hlow1 : Words.low (encode 0 1) = 0 := by decide
    have hhigh1 : Words.high (encode 0 1) = 1 := by decide
    unfold LanesFit
    rw [hlow1, hhigh1]
    refine ⟨hlow, ?_⟩
    by_contra hno
    refine hfull (BitVec.eq_of_toNat_eq ?_)
    rw [Words.toNat_eq, BitVec.toNat_allOnes]
    omega
  · refine ⟨encode 1 0, ?_, by decide, Or.inl (by decide)⟩
    have hlow1 : Words.low (encode 1 0) = 1 := by decide
    have hhigh1 : Words.high (encode 1 0) = 0 := by decide
    unfold LanesFit
    rw [hlow1, hhigh1]
    exact ⟨by omega, hhigh⟩

/-- The first deposit into a bin that the code sees as empty. -/
theorem getShares_unseen (hbin : limbLiquidity binReserves 1 = 0) {amounts : U256}
    (huser : limbLiquidity amounts 1 = 1) :
    getSharesAndEffectiveAmountsIn prof 10 binReserves amounts 1 1 = some (.ok (1, amounts)) := by
  obtain ⟨user, hgetUser, hval, -⟩ := exists_getLiquidity_one amounts
  obtain ⟨bin, hgetBin, hzero, -⟩ := exists_getLiquidity_one binReserves
  obtain rfl : user = 1 := BitVec.eq_of_toNat_eq (hval.trans huser)
  obtain rfl : bin = 0 := BitVec.eq_of_toNat_eq (hzero.trans hbin)
  have hcomponents : getLiquidityComponents (BitVec.ofNat 256 (decodeX amounts))
      (BitVec.ofNat 256 (decodeY amounts)) 1 = .ok 1 := hgetUser
  have hsqrt : sqrt 10 1 = some (.ok 1) := by decide
  have hone : (1 : U256) ≠ 0 := by decide
  unfold getSharesAndEffectiveAmountsIn decode
  simp only [hcomponents, hone, if_false, hgetBin, true_or, if_true, hsqrt]
  rfl

/-- **Reserves of more than the limbs** are diluted by a deposit of a unit. -/
theorem exists_diluted (prof : BuildProfile) (hreserves : ¬ Decodable binReserves)
    (hfull : binReserves ≠ BitVec.allOnes 256) :
    ∃ amounts totalSupply, LanesFit binReserves amounts ∧
      SupplyFits binReserves amounts 1 totalSupply ∧
      ¬ Keeps prof binReserves amounts 1 totalSupply := by
  obtain ⟨amounts, hlanes, hlimbs, hunit⟩ := exists_unit hfull
  have hless := limbLiquidity_lt hreserves
  have hlow := Words.low_lt binReserves
  by_cases hseen : limbLiquidity binReserves 1 = 0
  · -- the low lane is a multiple of `2 ^ 64`, and has room
    have hone : liquidity amounts 1 = 1 := by
      rcases hunit with hone | ⟨-, hlast⟩
      · exact hone
      · rw [limbLiquidity_one, hlast] at hseen
        omega
    rw [hone] at hlimbs
    have htotal : (1 : U256).toNat = 1 := rfl
    refine ⟨amounts, 1, hlanes, fun _ => ?_, fun hkeeps => ?_⟩
    · rw [hlimbs, htotal]
      omega
    · have hminted := (hkeeps _ _ _ (getShares_unseen hseen hlimbs)).minted (by omega) (by decide)
      rw [htotal, hone] at hminted
      rw [limbLiquidity_one] at hseen
      rw [liquidity_one] at hminted
      unfold Decodable at hreserves
      omega
  · have hsmall : limbLiquidity binReserves 1 < 2 ^ 193 := by
      rw [limbLiquidity_one]
      omega
    have hval : (BitVec.ofNat 256 (limbLiquidity binReserves 1)).toNat =
        limbLiquidity binReserves 1 := by
      rw [BitVec.toNat_ofNat, Nat.mod_eq_of_lt (by omega)]
    have ht : BitVec.ofNat 256 (limbLiquidity binReserves 1) ≠ 0 := by
      intro hzero
      rw [hzero] at hval
      exact hseen hval.symm
    refine ⟨amounts, BitVec.ofNat 256 (limbLiquidity binReserves 1), hlanes, fun _ => ?_,
      fun hkeeps => ?_⟩
    · rw [hval, hlimbs]
      have hthrice : liquidity amounts 1 + liquidity binReserves 1 ≤
          3 * liquidity binReserves 1 := by
        rcases hunit with hone | ⟨hone, hlast⟩
        · omega
        · have hL := liquidity_one binReserves
          rw [hlast] at hL
          omega
      have hmul := Nat.mul_le_mul hthrice hsmall.le
      have hpos : 0 < liquidity binReserves 1 := by omega
      rw [Nat.mul_right_comm] at hmul
      omega
    · obtain ⟨shares, hshares, hget⟩ := @getShares_exactSupply prof 0 binReserves amounts
        (BitVec.ofNat 256 (limbLiquidity binReserves 1)) hval ht (by omega)
      have hminted := (hkeeps _ _ _ hget).minted (by omega) ht
      rw [hval, hshares, hlimbs] at hminted
      exact absurd (Nat.le_of_mul_le_mul_left hminted (by omega)) (Nat.not_le.mpr hless)

/-- **A deposit that does not fit its lanes** is taken whole. -/
theorem exists_unfit (prof : BuildProfile) (hreserves : Decodable binReserves)
    (hlanes : ¬ LanesFit binReserves amountsIn) :
    ∃ totalSupply, SupplyFits binReserves amountsIn 1 totalSupply ∧
      ¬ Keeps prof binReserves amountsIn 1 totalSupply := by
  have hlimbs := @limbLiquidity_of_decodable binReserves 1 hreserves
  have hL := liquidity_one binReserves
  have huser := limbLiquidity_one amountsIn
  have hlow := Words.low_lt amountsIn
  have hhigh := Words.high_lt amountsIn
  obtain ⟨hlow0, hhigh0⟩ := hreserves
  have hpos : liquidity binReserves 1 ≠ 0 ∧ limbLiquidity amountsIn 1 ≠ 0 := by
    unfold LanesFit at hlanes
    omega
  have hval : (BitVec.ofNat 256 (liquidity binReserves 1)).toNat = liquidity binReserves 1 := by
    rw [BitVec.toNat_ofNat, Nat.mod_eq_of_lt (by omega)]
  have ht : BitVec.ofNat 256 (liquidity binReserves 1) ≠ 0 := by
    intro hzero
    rw [hzero] at hval
    exact hpos.1 hval.symm
  refine ⟨BitVec.ofNat 256 (liquidity binReserves 1), fun _ => ?_, fun hkeeps => ?_⟩
  · rw [hval]
    exact Nat.mul_lt_mul_of_pos_right (by omega) (Nat.pos_of_ne_zero hpos.1)
  · obtain ⟨shares, -, hget⟩ := @getShares_exactSupply prof 0 binReserves amountsIn
      (BitVec.ofNat 256 (liquidity binReserves 1)) (hval.trans hlimbs.symm) ht hpos.2
    have hkept := hkeeps _ _ _ hget
    exact hlanes ⟨hkept.low_fits, hkept.high_fits⟩

/-- Full lanes take no deposit. -/
theorem keeps_full (hprice : price ≠ 0) (hlanes : LanesFit (BitVec.allOnes 256) amountsIn) :
    Keeps prof (BitVec.allOnes 256) amountsIn price totalSupply := by
  have hlowFull : Words.low (BitVec.allOnes 256) = 2 ^ 128 - 1 := by decide
  have hhighFull : Words.high (BitVec.allOnes 256) = 2 ^ 128 - 1 := by decide
  have hnone : Words.low amountsIn = 0 ∧ Words.high amountsIn = 0 := by
    unfold LanesFit at hlanes
    omega
  have huser : limbLiquidity amountsIn price = 0 := by
    rw [limbLiquidity, hnone.1, hnone.2, Nat.zero_mod, Nat.mul_zero, Nat.zero_mul]
  intro fuel shares effective h
  rcases getShares_cases h with ⟨-, rfl, rfl⟩ | ⟨hempty, rfl⟩ | ⟨user, bin, hval, -, -, ht, h⟩
  · exact notDiluted_zero (Nat.zero_le _) (Nat.zero_le _) ⟨by decide, by decide⟩
  · have ht : totalSupply = 0 := by
      refine hempty.resolve_left fun hseen => ?_
      rw [limbLiquidity, hlowFull, hhighFull] at hseen
      omega
    exact ⟨Nat.le_refl _, Nat.le_refl _, hlanes.1, hlanes.2, fun _ hne => absurd ht hne,
      fun _ hne => absurd ht hne⟩
  · obtain ⟨hshares, hlow, hhigh, -⟩ := sharesOfLiquidBin_spec hprice ht hval h
    rw [hval, huser, Shares.minted, Nat.zero_mul, Nat.zero_div] at hshares
    obtain rfl : shares = 0 := BitVec.eq_of_toNat_eq hshares
    exact notDiluted_zero hlow hhigh
      ⟨(Nat.add_le_add_left hlow _).trans_lt hlanes.1,
        (Nat.add_le_add_left hhigh _).trans_lt hlanes.2⟩

/-- A deposit that is read as empty is given back. -/
theorem keeps_unread (hunread : limbLiquidity amountsIn price = 0) :
    Keeps prof binReserves amountsIn price totalSupply := by
  intro fuel shares effective h
  unfold getSharesAndEffectiveAmountsIn decode at h
  dsimp only at h
  split at h
  · cases h
  · rename_i user huser
    obtain ⟨-, huser⟩ := (@getLiquidity_eq_limb price amountsIn user).mp huser
    rw [hunread] at huser
    obtain rfl : user = 0 := BitVec.eq_of_toNat_eq huser
    rw [if_pos rfl] at h
    cases h
    exact notDiluted_zero (Nat.zero_le _) (Nat.zero_le _)
      ⟨Words.low_lt binReserves, Words.high_lt binReserves⟩

/-- **When deposits dilute no holder**: for all deposits that fit, exactly for reserves of one limb
a lane, or of no room; for one deposit into reserves of one limb a lane, at every price and supply
that fits, exactly when it fits the lanes; and for every deposit that is read as empty. -/
theorem keeps_iff (prof : BuildProfile) (binReserves : U256) :
    ((∀ amountsIn price totalSupply, price ≠ 0 → LanesFit binReserves amountsIn →
        SupplyFits binReserves amountsIn price totalSupply →
          Keeps prof binReserves amountsIn price totalSupply) ↔
      Decodable binReserves ∨ binReserves = BitVec.allOnes 256) ∧
    (Decodable binReserves → ∀ amountsIn,
      (∀ price totalSupply, price ≠ 0 → SupplyFits binReserves amountsIn price totalSupply →
        Keeps prof binReserves amountsIn price totalSupply) ↔ LanesFit binReserves amountsIn) ∧
    ∀ amountsIn price totalSupply, limbLiquidity amountsIn price = 0 →
      Keeps prof binReserves amountsIn price totalSupply := by
  have hone : (1 : U256) ≠ 0 := by decide
  refine ⟨⟨fun h => ?_, ?_⟩, fun hreserves amountsIn => ⟨fun h => ?_, ?_⟩,
    fun _ _ _ => keeps_unread⟩
  · by_contra hno
    rw [not_or] at hno
    obtain ⟨amounts, totalSupply, hlanes, hsupply, hdiluted⟩ := exists_diluted prof hno.1 hno.2
    exact hdiluted (h amounts 1 totalSupply hone hlanes hsupply)
  · rintro (hreserves | rfl) amountsIn price totalSupply hprice hlanes hsupply
    · exact keeps_of_decodable hprice hreserves hlanes hsupply
    · exact keeps_full hprice hlanes
  · by_contra hlanes
    obtain ⟨totalSupply, hsupply, hdiluted⟩ := exists_unfit prof hreserves hlanes
    exact hdiluted (h 1 totalSupply hone hsupply)
  · exact fun hlanes price totalSupply hprice hsupply =>
      keeps_of_decodable hprice hreserves hlanes hsupply

/-- A bin of `2 ^ 64` units of `x`, with `10 ^ 18` shares, at the price 1 token for 1: one unit of
`x` mints `2 ^ 64` shares of the whole bin. -/
theorem bin_of_two_pow_64_diluted :
    getSharesAndEffectiveAmountsIn { overflowChecks := true } 100
      (BitVec.ofNat 256 (2 ^ 64)) 1 SCALE
        (BitVec.ofNat 256 (10 ^ 18)) = some (.ok (BitVec.ofNat 256 (2 ^ 64), 1)) ∧
      ¬ 2 ^ 64 * liquidity (BitVec.ofNat 256 (2 ^ 64)) SCALE ≤ liquidity 1 SCALE * 10 ^ 18 := by
  constructor
  · decide +kernel
  · decide +kernel

end ArbitrageBot.Moe.BinHelper
