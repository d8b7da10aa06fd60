import ArbitrageBot.Amms.Moe.MathSpec
import ArbitrageBot.Amms.Moe.SwapAcross

/-!
# Moe liquidity-book pairs: what a round of a swap does

A round passes an id by, pays in its bin, or fails. Everything that holds over a whole swap is
derived from these cases.
-/

namespace ArbitrageBot

open Lib Moe

namespace PairM

variable {α β : Type} {x : PairM α} {f : α → PairM β} {a : α} {e : Fault AMMError}
  {pair pair' : MoeLbPair}

/-- A sequence runs its second part on the pair that the first one left, unless that failed. -/
theorem bind_apply (x : PairM α) (f : α → PairM β) (pair : MoeLbPair) :
    (x >>= f) pair = match x pair with
      | (.ok a, pair') => f a pair'
      | (.error e, pair') => (.error e, pair') := by
  change (ExceptT.bindCont f (x pair).1) (x pair).2 = _
  rcases x pair with ⟨r | r, pair'⟩ <;> rfl

@[simp] theorem pure_apply (a : α) (pair : MoeLbPair) : (pure a : PairM α) pair = (.ok a, pair) :=
  rfl

@[simp] theorem get_apply (pair : MoeLbPair) : (get : PairM MoeLbPair) pair = (.ok pair, pair) :=
  rfl

@[simp] theorem modify_apply (g : MoeLbPair → MoeLbPair) (pair : MoeLbPair) :
    (modify g : PairM PUnit) pair = (.ok ⟨⟩, g pair) := rfl

@[simp] theorem ofOutcome_apply (r : Outcome AMMError α) (pair : MoeLbPair) :
    ofOutcome r pair = (r, pair) := rfl

theorem bind_of_ok (h : x pair = (.ok a, pair')) : (x >>= f) pair = f a pair' := by
  rw [bind_apply, h]

theorem bind_of_error (h : x pair = (.error e, pair')) : (x >>= f) pair = (.error e, pair') := by
  rw [bind_apply, h]

end PairM

/-! ## The side of the input and the side of the output -/

namespace BinReserve

variable (bin : BinReserve) (swapForY : Bool)

def reserveIn : Nat := if swapForY then bin.reserveX else bin.reserveY
def reserveOut : Nat := if swapForY then bin.reserveY else bin.reserveX

/-- The bin after `net` came in and `out` went out. -/
def moved (net out : Nat) : BinReserve :=
  if swapForY then ⟨bin.reserveX + net, bin.reserveY - out⟩
  else ⟨bin.reserveX - out, bin.reserveY + net⟩

end BinReserve

namespace MoeLbPair

section

variable (pair : MoeLbPair) (swapForY : Bool)

def totalIn : Nat := if swapForY then pair.reserveX else pair.reserveY
def totalOut : Nat := if swapForY then pair.reserveY else pair.reserveX

/-- The pair with `net` more of the token that is sold. -/
def grown (net : Nat) : MoeLbPair :=
  if swapForY then { pair with reserveX := pair.reserveX + net }
  else { pair with reserveY := pair.reserveY + net }

/-- The pair with `out` less of the token that is bought. -/
def shrunk (out : Nat) : MoeLbPair :=
  if swapForY then { pair with reserveY := pair.reserveY - out }
  else { pair with reserveX := pair.reserveX - out }

/-- The pair after a bin paid. -/
def paid (binId : Nat) (bin : BinReserve) (net out : Nat) : MoeLbPair :=
  ((pair.grown swapForY net).shrunk swapForY out).putBin binId (bin.moved swapForY net out)

/-- The checks on the reserves of a bin and on the total of the token that is sold. -/
def CanMove (bin : BinReserve) (net out : Nat) : Prop :=
  bin.reserveIn swapForY + net < 2 ^ 128 ∧ out ≤ bin.reserveOut swapForY ∧
    pair.totalIn swapForY + net < 2 ^ 128

end

open PairM

variable {prof : BuildProfile} {pair pair' : MoeLbPair} {swapForY : Bool} {bin bin' : BinReserve}
  {params : MoeParameters} {binId net out : Nat} {left amountIn amountOut fee : U256}
  {exhausted : Bool} {e : Fault AMMError}

/-! ## What a payment changes -/

section

variable (pair : MoeLbPair) (swapForY : Bool) (binId : Nat) (bin : BinReserve) (net out : Nat)

@[simp] theorem grown_totalIn :
    (pair.grown swapForY net).totalIn swapForY = pair.totalIn swapForY + net := by
  cases swapForY <;> rfl

@[simp] theorem grown_totalOut :
    (pair.grown swapForY net).totalOut swapForY = pair.totalOut swapForY := by
  cases swapForY <;> rfl

@[simp] theorem shrunk_totalIn :
    (pair.shrunk swapForY out).totalIn swapForY = pair.totalIn swapForY := by
  cases swapForY <;> rfl

@[simp] theorem shrunk_totalOut :
    (pair.shrunk swapForY out).totalOut swapForY = pair.totalOut swapForY - out := by
  cases swapForY <;> rfl

theorem grown_zero : pair.grown swapForY 0 = pair := by
  cases swapForY <;> rfl

/-- Putting a bin writes the map of bins. -/
theorem putBin_eq : pair.putBin binId bin = { pair with bins := (pair.putBin binId bin).bins } := by
  unfold putBin
  split
  · rfl
  · rfl

/-- A payment writes the totals and the bins. -/
theorem paid_eq : pair.paid swapForY binId bin net out =
    { (pair.grown swapForY net).shrunk swapForY out with
      bins := (pair.paid swapForY binId bin net out).bins } := putBin_eq _ _ _

theorem paid_totalIn :
    (pair.paid swapForY binId bin net out).totalIn swapForY = pair.totalIn swapForY + net := by
  rw [paid_eq]
  exact (shrunk_totalIn _ swapForY out).trans (grown_totalIn pair swapForY net)

theorem paid_totalOut :
    (pair.paid swapForY binId bin net out).totalOut swapForY = pair.totalOut swapForY - out := by
  rw [paid_eq]
  exact (shrunk_totalOut _ swapForY out).trans (by rw [grown_totalOut])

theorem paid_tokenX : (pair.paid swapForY binId bin net out).tokenX = pair.tokenX := by
  rw [paid_eq]
  cases swapForY <;> rfl

theorem paid_binStep : (pair.paid swapForY binId bin net out).binStep = pair.binStep := by
  rw [paid_eq]
  cases swapForY <;> rfl

end

theorem addReserve_of_lt {r a : Nat} (h : r + a < 2 ^ 128) : addReserve r a = .ok (r + a) :=
  if_pos h

theorem addReserve_of_not {r a : Nat} (h : ¬ r + a < 2 ^ 128) :
    addReserve r a = .error (.err (.moeError .arithmetic)) := if_neg h

theorem subReserve_of_le {r a : Nat} (h : a ≤ r) : subReserve r a = .ok (r - a) := if_pos h

theorem subReserve_of_not {r a : Nat} (h : ¬ a ≤ r) :
    subReserve r a = .error (.err (.moeError .insufficientLiquidity)) := if_neg h

/-- `moveReserves` in three cases: its first checks fail and nothing has changed; the last check
fails, and the total of the token that is sold has grown; or all of them hold. -/
theorem moveReserves_cases (bin : BinReserve) (swapForY : Bool) (net out : Nat) (pair : MoeLbPair) :
    (¬ pair.CanMove swapForY bin net out ∧
      ∃ e, moveReserves bin swapForY net out pair = (.error (.err e), pair)) ∨
    (pair.CanMove swapForY bin net out ∧ ¬ out ≤ pair.totalOut swapForY ∧
      ∃ e, moveReserves bin swapForY net out pair = (.error (.err e), pair.grown swapForY net)) ∨
    (pair.CanMove swapForY bin net out ∧ out ≤ pair.totalOut swapForY ∧
      moveReserves bin swapForY net out pair =
        (.ok (bin.moved swapForY net out), (pair.grown swapForY net).shrunk swapForY out)) := by
  unfold CanMove BinReserve.reserveIn BinReserve.reserveOut totalIn totalOut BinReserve.moved grown
    shrunk moveReserves
  cases swapForY with
  | true =>
    simp only [↓reduceIte, bind_apply, ofOutcome_apply]
    by_cases h₁ : bin.reserveX + net < 2 ^ 128
    · rw [addReserve_of_lt h₁]
      by_cases h₂ : out ≤ bin.reserveY
      · rw [subReserve_of_le h₂]
        by_cases h₃ : pair.reserveX + net < 2 ^ 128
        · simp only [get_apply, addReserve_of_lt h₃, modify_apply]
          by_cases h₄ : out ≤ pair.reserveY
          · exact .inr (.inr ⟨⟨h₁, h₂, h₃⟩, h₄, by rw [subReserve_of_le h₄]; rfl⟩)
          · exact .inr (.inl ⟨⟨h₁, h₂, h₃⟩, h₄, _, by rw [subReserve_of_not h₄]⟩)
        · exact .inl ⟨fun h => h₃ h.2.2, _, by
          simp only [get_apply, addReserve_of_not h₃]
          rfl⟩
      · exact .inl ⟨fun h => h₂ h.2.1, _, by rw [subReserve_of_not h₂]⟩
    · exact .inl ⟨fun h => h₁ h.1, _, by rw [addReserve_of_not h₁]⟩
  | false =>
    simp only [Bool.false_eq_true, ↓reduceIte, bind_apply, ofOutcome_apply]
    by_cases h₁ : bin.reserveY + net < 2 ^ 128
    · rw [addReserve_of_lt h₁]
      by_cases h₂ : out ≤ bin.reserveX
      · rw [subReserve_of_le h₂]
        by_cases h₃ : pair.reserveY + net < 2 ^ 128
        · simp only [get_apply, addReserve_of_lt h₃, modify_apply]
          by_cases h₄ : out ≤ pair.reserveX
          · exact .inr (.inr ⟨⟨h₁, h₂, h₃⟩, h₄, by rw [subReserve_of_le h₄]; rfl⟩)
          · exact .inr (.inl ⟨⟨h₁, h₂, h₃⟩, h₄, _, by rw [subReserve_of_not h₄]⟩)
        · exact .inl ⟨fun h => h₃ h.2.2, _, by
          simp only [get_apply, addReserve_of_not h₃]
          rfl⟩
      · exact .inl ⟨fun h => h₂ h.2.1, _, by rw [subReserve_of_not h₂]⟩
    · exact .inl ⟨fun h => h₁ h.1, _, by rw [addReserve_of_not h₁]⟩

/-! ## One bin -/

theorem liftMoe_eq_ok {α : Type} {x : MathOutcome α} {a : α} (h : liftMoe x = .ok a) :
    x = .ok a := by
  unfold liftMoe at h
  cases x with
  | ok b =>
    cases h
    rfl
  | error e => cases h

/-- The amounts of a bin are limbs, and it takes no more than what is left. -/
theorem computeBinSwap_le {i o f : U256}
    (h : pair.computeBinSwap prof params binId swapForY left = .ok (i, o, f, exhausted)) :
    i.toNat ≤ left.toNat ∧ i.toNat < 2 ^ 64 ∧ o.toNat < 2 ^ 64 ∧ f.toNat < 2 ^ 64 := by
  unfold computeBinSwap at h
  split at h
  · cases h
    exact ⟨Nat.zero_le _, by decide, by decide, by decide⟩
  · split at h
    · cases h
      exact ⟨Nat.zero_le _, by decide, by decide, by decide⟩
    · simp only [bind_eq_ok] at h
      obtain ⟨parameters, -, a, ha, ⟨amountsIn, amountsOut, fees⟩, hamounts, h⟩ := h
      obtain ⟨rfl, ha⟩ := toU128_eq_ok ha
      have hle := BinHelper.getAmounts_le ha (liftMoe_eq_ok hamounts)
      have hin := PackedUint128Math.decodeFirst_lt amountsIn swapForY
      have hout := PackedUint128Math.decodeFirst_lt amountsOut (!swapForY)
      have hfee := PackedUint128Math.decodeFirst_lt fees swapForY
      dsimp only at h
      cases h
      rw [BitVec.toNat_ofNat, BitVec.toNat_ofNat, BitVec.toNat_ofNat]
      omega

/-- What stays in the pair of an input with its fee. -/
def netIn (params : MoeParameters) (amountIn fee : U256) : Nat :=
  amountIn.toNat - (params.protocolFeeAmountU256 fee).toNat

/-- A payment of a bin passes its checks, besides that on the total of the token that is bought. -/
def CanPay (pair : MoeLbPair) (params : MoeParameters) (bin : BinReserve) (swapForY : Bool)
    (amountIn amountOut fee : U256) : Prop :=
  (params.protocolFeeAmountU256 fee).toNat ≤ amountIn.toNat ∧
    pair.CanMove swapForY bin (netIn params amountIn fee) amountOut.toNat

/-- What `simulate_single_bin` returns and leaves. -/
inductive BinCase (prof : BuildProfile) (params : MoeParameters) (binId : Nat) (swapForY : Bool)
    (left : U256) (pair : MoeLbPair) (bin : BinReserve) :
    Outcome AMMError BinSwapResult × MoeLbPair → Prop
  /-- The amounts of the bin are not computed. -/
  | failed (e : Fault AMMError)
      (amounts : pair.computeBinSwap prof params binId swapForY left = .error e) :
      BinCase prof params binId swapForY left pair bin (.error e, pair)
  /-- The bin pays nothing. -/
  | idle (i f : U256) (exhausted : Bool)
      (amounts : pair.computeBinSwap prof params binId swapForY left = .ok (i, 0, f, exhausted)) :
      BinCase prof params binId swapForY left pair bin (.ok ⟨0, 0, 0, 0, exhausted⟩, pair)
  /-- The first checks of the payment fail. -/
  | refused (i o f : U256) (exhausted : Bool) (e : AMMError)
      (amounts : pair.computeBinSwap prof params binId swapForY left = .ok (i, o, f, exhausted))
      (some : o ≠ 0) (checks : ¬ pair.CanPay params bin swapForY i o f) :
      BinCase prof params binId swapForY left pair bin (.error (.err e), pair)
  /-- The last check of the payment fails. -/
  | broken (i o f : U256) (exhausted : Bool) (e : AMMError)
      (amounts : pair.computeBinSwap prof params binId swapForY left = .ok (i, o, f, exhausted))
      (some : o ≠ 0) (checks : pair.CanPay params bin swapForY i o f)
      (last : ¬ o.toNat ≤ pair.totalOut swapForY) :
      BinCase prof params binId swapForY left pair bin
        (.error (.err e), pair.grown swapForY (netIn params i f))
  /-- The bin pays. -/
  | paid (i o f : U256) (exhausted : Bool)
      (amounts : pair.computeBinSwap prof params binId swapForY left = .ok (i, o, f, exhausted))
      (some : o ≠ 0) (checks : pair.CanPay params bin swapForY i o f)
      (last : o.toNat ≤ pair.totalOut swapForY) :
      BinCase prof params binId swapForY left pair bin
        (.ok ⟨i, o, f, params.protocolFeeAmountU256 f, exhausted⟩,
          pair.paid swapForY binId bin (netIn params i f) o.toNat)

theorem tryU128_of_lt {val : U256} (h : val.toNat < 2 ^ 128) : tryU128 val = .ok val.toNat :=
  toU128_of_lt h

/-- **A bin** is passed by, refuses, breaks off or pays. -/
theorem simulateSingleBin_cases (hbin : pair.bins.lookup binId = some bin) :
    BinCase prof params binId swapForY left pair bin
      (simulateSingleBin prof params binId swapForY left pair) := by
  unfold simulateSingleBin
  rw [bind_of_ok (get_apply pair)]
  cases hamounts : pair.computeBinSwap prof params binId swapForY left with
  | error e =>
    rw [bind_of_error (ofOutcome_apply _ _)]
    exact .failed e hamounts
  | ok amounts =>
    obtain ⟨i, o, f, exhausted⟩ := amounts
    obtain ⟨-, hi, ho, -⟩ := computeBinSwap_le hamounts
    rw [bind_of_ok (ofOutcome_apply _ _)]
    dsimp only
    by_cases hnone : o = 0
    · rw [if_pos hnone]
      subst hnone
      exact .idle i f exhausted hamounts
    · rw [if_neg hnone, hbin, Option.getD_some, tryU128_of_lt (by omega), tryU128_of_lt (by omega),
        bind_of_ok (ofOutcome_apply _ _), bind_of_ok (ofOutcome_apply _ _)]
      by_cases hfee : (params.protocolFeeAmountU256 f).toNat ≤ i.toNat
      · rw [tryU128_of_lt (by omega), bind_of_ok (ofOutcome_apply _ _), if_pos hfee]
        have hnet : i.toNat - (params.protocolFeeAmountU256 f).toNat = netIn params i f := rfl
        rw [hnet]
        rcases moveReserves_cases bin swapForY (netIn params i f) o.toNat pair with
          ⟨hno, e, hmove⟩ | ⟨hcan, hlast, e, hmove⟩ | ⟨hcan, hlast, hmove⟩
        · rw [bind_of_error hmove]
          exact .refused i o f exhausted e hamounts hnone fun h => hno h.2
        · rw [bind_of_error hmove]
          exact .broken i o f exhausted e hamounts hnone ⟨hfee, hcan⟩ hlast
        · rw [bind_of_ok hmove]
          exact .paid i o f exhausted hamounts hnone ⟨hfee, hcan⟩ hlast
      · have hrefused : ∀ e : AMMError, BinCase prof params binId swapForY left pair bin
            (.error (.err e), pair) := fun e =>
          .refused i o f exhausted e hamounts hnone fun h => hfee h.1
        by_cases hfit : (params.protocolFeeAmountU256 f).toNat < 2 ^ 128
        · rw [tryU128_of_lt hfit, bind_of_ok (ofOutcome_apply _ _), if_neg hfee]
          exact hrefused _
        · have hlarge : tryU128 (params.protocolFeeAmountU256 f) =
              .error (.err (.moeError .arithmetic)) := if_neg hfit
          rw [hlarge, bind_of_error (ofOutcome_apply _ _)]
          exact hrefused _

end MoeLbPair

/-! ## A round and the loop -/

namespace SwapState

open PairM

variable {prof : BuildProfile} {pair pair' : MoeLbPair} {swapForY : Bool} {s s' : SwapState}
  {bin : BinReserve} {loops : Nat}

/-- `s` with the fee parameters of its bin. -/
def atBin (s : SwapState) : SwapState :=
  { s with parameters := s.parameters.updateVolatilityAccumulator s.currentId }

theorem round_of_none (h : pair.bins.lookup s.currentId = none) :
    s.round prof swapForY pair = (.ok (s.advance swapForY), pair) := by
  unfold round
  rw [bind_of_ok (get_apply pair), h]
  rfl

/-- A round at a bin does what the bin does, and settles its result. -/
theorem round_of_some (h : pair.bins.lookup s.currentId = some bin)
    {r : Outcome AMMError BinSwapResult × MoeLbPair}
    (hr : MoeLbPair.simulateSingleBin prof s.atBin.parameters s.currentId swapForY s.amountLeft
      pair = r) :
    s.round prof swapForY pair = (r.1.map (s.atBin.settle swapForY), r.2) := by
  obtain ⟨outcome, pair'⟩ := r
  unfold round
  rw [bind_of_ok (get_apply pair), h]
  dsimp only
  cases outcome with
  | error e =>
    exact bind_of_error hr
  | ok result =>
    exact bind_of_ok hr

theorem toNat_addOut {a b : U256} (h : a.toNat + b.toNat < 2 ^ 256) :
    (addOut a b).toNat = a.toNat + b.toNat := by
  unfold addOut
  rw [if_pos h, BitVec.toNat_add, Nat.mod_eq_of_lt h]

/-- A bin that pays nothing is passed by. -/
theorem settle_idle (s : SwapState) (swapForY exhausted : Bool) :
    s.settle swapForY ⟨0, 0, 0, 0, exhausted⟩ = s.advance swapForY := by
  unfold settle
  simp

/-- `s` after a bin paid `o` for a part `i` of what is left. -/
def afterPart (s : SwapState) (i o : U256) : SwapState :=
  { s with amountOut := addOut s.amountOut o, amountLeft := s.amountLeft - i }

/-- A bin that takes all that is left ends the swap. -/
theorem settle_all {result : BinSwapResult} (hsome : result.amountOut ≠ 0)
    (hleft : s.amountLeft ≠ 0) (hall : result.amountInWithFee = s.amountLeft) :
    s.settle swapForY result =
      .done { s with amountOut := addOut s.amountOut result.amountOut, amountLeft := 0 } := by
  unfold settle
  rw [if_pos hsome]
  dsimp only
  rw [if_pos ⟨hall ▸ hleft, hall ▸ Nat.le_refl _⟩]

/-- A bin that takes a part ends the swap as well, unless it is emptied. -/
theorem settle_part {result : BinSwapResult} (hsome : result.amountOut ≠ 0)
    (hpart : result.amountInWithFee < s.amountLeft) :
    s.settle swapForY result =
      if result.binExhausted then
        (s.afterPart result.amountInWithFee result.amountOut).advance swapForY
      else .done (s.afterPart result.amountInWithFee result.amountOut) := by
  have hnot : ¬ (result.amountInWithFee ≠ 0 ∧ result.amountInWithFee ≥ s.amountLeft) :=
    fun h => absurd hpart (BitVec.not_lt.mpr h.2)
  unfold settle
  rw [if_pos hsome]
  dsimp only
  rw [if_neg hnot]
  simp only [hsome, or_false]
  rfl

/-- The bin of `s` pays `o` for `i`, with the fee `f`. -/
structure Pays (prof : BuildProfile) (swapForY : Bool) (s : SwapState) (pair : MoeLbPair)
    (bin : BinReserve) (i o f : U256) (exhausted : Bool) : Prop where
  lookup : pair.bins.lookup s.currentId = some bin
  amounts : pair.computeBinSwap prof s.atBin.parameters s.currentId swapForY s.amountLeft =
    .ok (i, o, f, exhausted)
  some : o ≠ 0
  checks : pair.CanPay s.atBin.parameters bin swapForY i o f

/-- The pair after the bin of `s` paid. -/
def pairPaid (s : SwapState) (swapForY : Bool) (pair : MoeLbPair) (bin : BinReserve)
    (i o f : U256) : MoeLbPair :=
  pair.paid swapForY s.currentId bin (MoeLbPair.netIn s.atBin.parameters i f) o.toNat

/-- **A round that returns** passes the id by, passes its bin by, or has its bin pay. -/
theorem round_eq_ok {r : ForInStep SwapState}
    (h : s.round prof swapForY pair = (.ok r, pair')) :
    (pair.bins.lookup s.currentId = none ∧ r = s.advance swapForY ∧ pair' = pair) ∨
    (∃ bin i f exhausted, pair.bins.lookup s.currentId = some bin ∧
      pair.computeBinSwap prof s.atBin.parameters s.currentId swapForY s.amountLeft =
        .ok (i, 0, f, exhausted) ∧
      r = s.atBin.settle swapForY ⟨0, 0, 0, 0, exhausted⟩ ∧ pair' = pair) ∨
    ∃ bin i o f exhausted, s.Pays prof swapForY pair bin i o f exhausted ∧
      o.toNat ≤ pair.totalOut swapForY ∧
      r = s.atBin.settle swapForY
        ⟨i, o, f, s.atBin.parameters.protocolFeeAmountU256 f, exhausted⟩ ∧
      pair' = s.pairPaid swapForY pair bin i o f := by
  cases hbin : pair.bins.lookup s.currentId with
  | none =>
    rw [round_of_none hbin] at h
    cases h
    exact .inl ⟨rfl, rfl, rfl⟩
  | some bin =>
    generalize hr : MoeLbPair.simulateSingleBin prof s.atBin.parameters s.currentId swapForY
      s.amountLeft pair = result at *
    have hcases := hr ▸ MoeLbPair.simulateSingleBin_cases hbin
    rw [round_of_some hbin hr] at h
    cases hcases with
    | failed e amounts => cases h
    | idle i f exhausted amounts =>
      cases h
      exact .inr (.inl ⟨bin, i, f, exhausted, rfl, amounts, rfl, rfl⟩)
    | refused i o f exhausted e amounts some checks => cases h
    | broken i o f exhausted e amounts some checks last => cases h
    | paid i o f exhausted amounts some checks last =>
      cases h
      exact .inr (.inr ⟨bin, i, o, f, exhausted, ⟨hbin, amounts, some, checks⟩, last, rfl, rfl⟩)

/-- **A round that fails** has changed the pair only when its payment broke off. -/
theorem round_eq_error {e : Fault AMMError}
    (h : s.round prof swapForY pair = (.error e, pair')) :
    (pair' = pair ∧
      (¬ ∃ i f exhausted, pair.computeBinSwap prof s.atBin.parameters s.currentId swapForY
        s.amountLeft = .ok (i, 0, f, exhausted)) ∧
      ¬ ∃ bin i o f exhausted, s.Pays prof swapForY pair bin i o f exhausted) ∨
    ∃ bin i o f exhausted, s.Pays prof swapForY pair bin i o f exhausted ∧
      ¬ o.toNat ≤ pair.totalOut swapForY ∧
      pair' = pair.grown swapForY (MoeLbPair.netIn s.atBin.parameters i f) := by
  cases hbin : pair.bins.lookup s.currentId with
  | none =>
    rw [round_of_none hbin] at h
    cases h
  | some bin =>
    generalize hr : MoeLbPair.simulateSingleBin prof s.atBin.parameters s.currentId swapForY
      s.amountLeft pair = result at *
    have hcases := hr ▸ MoeLbPair.simulateSingleBin_cases hbin
    rw [round_of_some hbin hr] at h
    cases hcases with
    | failed e amounts =>
      cases h
      refine .inl ⟨rfl, ?_, ?_⟩
      · intro ⟨i, f, exhausted, hamounts⟩
        rw [amounts] at hamounts
        cases hamounts
      · intro ⟨bin', i, o, f, exhausted, hpays⟩
        have hamounts := hpays.amounts
        rw [amounts] at hamounts
        cases hamounts
    | idle i f exhausted amounts => cases h
    | refused i o f exhausted e amounts some checks =>
      cases h
      refine .inl ⟨rfl, ?_, ?_⟩
      · intro ⟨i', f', exhausted', hamounts⟩
        rw [amounts] at hamounts
        cases hamounts
        exact some rfl
      · intro ⟨bin', i', o', f', exhausted', hpays⟩
        have hlookup := hpays.lookup
        rw [hbin] at hlookup
        have hamounts := hpays.amounts
        rw [amounts] at hamounts
        cases hlookup
        cases hamounts
        exact checks hpays.checks
    | broken i o f exhausted e amounts some checks last =>
      cases h
      exact .inr ⟨bin, i, o, f, exhausted, ⟨hbin, amounts, some, checks⟩, last, rfl⟩
    | paid i o f exhausted amounts some checks last => cases h

theorem loop_of_left_zero (h : s.amountLeft = 0) :
    loop prof swapForY loops s pair = (.ok s, pair) := by
  cases loops with
  | zero => rfl
  | succ loops =>
    unfold loop
    rw [if_pos h]
    rfl

theorem loop_of_error {e : Fault AMMError} (hleft : s.amountLeft ≠ 0)
    (h : s.round prof swapForY pair = (.error e, pair')) :
    loop prof swapForY (loops + 1) s pair = (.error e, pair') := by
  unfold loop
  rw [if_neg hleft, bind_of_error h]

theorem loop_of_done (hleft : s.amountLeft ≠ 0)
    (h : s.round prof swapForY pair = (.ok (.done s'), pair')) :
    loop prof swapForY (loops + 1) s pair = (.ok s', pair') := by
  unfold loop
  rw [if_neg hleft, bind_of_ok h]
  rfl

theorem loop_of_yield (hleft : s.amountLeft ≠ 0)
    (h : s.round prof swapForY pair = (.ok (.yield s'), pair')) :
    loop prof swapForY (loops + 1) s pair = loop prof swapForY loops s' pair' := by
  rw [loop, if_neg hleft, bind_of_ok h]

/-- **The rule of the loop**: what every round keeps, with one loop fewer left, holds at the end,
and what a failing round leaves is left by the swap. -/
theorem loop_rule {Inv : Nat → SwapState → MoeLbPair → Prop}
    {Err : Fault AMMError → MoeLbPair → Prop}
    (hok : ∀ {n s pair r pair'}, Inv (n + 1) s pair → s.amountLeft ≠ 0 →
      s.round prof swapForY pair = (.ok r, pair') → Inv n r.value pair')
    (herror : ∀ {n s pair e pair'}, Inv (n + 1) s pair → s.amountLeft ≠ 0 →
      s.round prof swapForY pair = (.error e, pair') → Err e pair')
    (hinv : Inv loops s pair) :
    match loop prof swapForY loops s pair with
    | (.ok s', pair') => ∃ n, Inv n s' pair'
    | (.error e, pair') => Err e pair' := by
  induction loops generalizing s pair with
  | zero => exact ⟨0, hinv⟩
  | succ loops ih =>
    by_cases hleft : s.amountLeft = 0
    · rw [loop_of_left_zero hleft]
      exact ⟨_, hinv⟩
    · rcases hround : s.round prof swapForY pair with ⟨r | r, pair'⟩
      · rw [loop_of_error hleft hround]
        exact herror hinv hleft hround
      · have hnext := hok hinv hleft hround
        cases r with
        | done s' =>
          rw [loop_of_done hleft hround]
          exact ⟨_, hnext⟩
        | yield s' =>
          rw [loop_of_yield hleft hround]
          exact ih hnext

end SwapState

namespace MoeLbPair

open PairM

/-- The swap of a pair with bins is the loop, after which the parameters are written back. -/
theorem simulateSwapPrecise_eq {prof : BuildProfile} {pair : MoeLbPair} {swapForY : Bool}
    {amountIn : U256} {timestamp : Nat} (hbins : ¬ pair.bins.entries.isEmpty) :
    pair.simulateSwapPrecise prof swapForY amountIn timestamp =
      match SwapState.loop prof swapForY MAX_ITERATIONS (pair.startSwap amountIn timestamp)
        pair with
      | (.ok s, pair') => (.ok s.amountOut, s.parameters.writeBack pair')
      | (.error e, pair') => (.error e, pair') := by
  unfold simulateSwapPrecise
  rw [if_neg hbins]
  dsimp only
  rw [bind_apply]
  rcases SwapState.loop prof swapForY MAX_ITERATIONS (pair.startSwap amountIn timestamp) pair with
    ⟨e | s, pair'⟩
  · rfl
  · rfl

section

variable {prof : BuildProfile} {pair pair' : MoeLbPair} {swapForY : Bool}
  {amountIn amountOut : U256} {timestamp : Nat} {e : Fault AMMError}

/-- An error of the guarded swap is one of the swap itself. -/
theorem simulateSwapAcrossBins_eq_error
    (h : pair.simulateSwapAcrossBins prof swapForY amountIn timestamp = (.error e, pair')) :
    pair.simulateSwapPrecise prof swapForY amountIn timestamp = (.error e, pair') := by
  unfold simulateSwapAcrossBins at h
  split at h
  · cases h
  · split at h
    · cases h
    · split at h
      · cases h
      · split at h
        · rename_i hrun
          cases h
          exact hrun
        · split at h
          · cases h
          · cases h

/-- An output of the guarded swap is one of the swap itself, past the guards. -/
theorem simulateSwapAcrossBins_eq_ok
    (h : pair.simulateSwapAcrossBins prof swapForY amountIn timestamp = (.ok amountOut, pair'))
    (hout : amountOut ≠ 0) : amountIn ≠ 0 ∧
      (pair.reserveX ≤ MAX_REASONABLE_RESERVE ∧ pair.reserveY ≤ MAX_REASONABLE_RESERVE) ∧
      pair.simulateSwapPrecise prof swapForY amountIn timestamp = (.ok amountOut, pair') := by
  unfold simulateSwapAcrossBins at h
  split at h
  · cases h
    exact absurd rfl hout
  · rename_i hin
    split at h
    · cases h
      exact absurd rfl hout
    · split at h
      · cases h
        exact absurd rfl hout
      · rename_i hlarge
        split at h
        · cases h
        · rename_i hrun
          split at h
          · cases h
            exact ⟨hin, by omega, hrun⟩
          · cases h
            exact absurd rfl hout

end

end MoeLbPair

end ArbitrageBot
