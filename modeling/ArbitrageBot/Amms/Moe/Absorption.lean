import ArbitrageBot.Amms.Moe.BinSafety
import ArbitrageBot.Amms.Moe.Walk

/-!
# Moe liquidity-book pairs: how much of the input a swap uses

The loop ends when nothing is left, and also at the end of the walk, after `MAX_ITERATIONS` ids, and
at a bin that takes a part of what is left without being emptied. Only the first of these uses the
whole input.
-/

namespace ArbitrageBot

open Lib Moe

/-! ## What a bin takes -/

/-- What decides the amounts of a bin: the reserve it pays from, its price and its total fee. -/
structure BinTerms where
  reserve : Nat
  price : Nat
  fee : Nat

namespace BinTerms

variable (t : BinTerms) (swapForY : Bool) (left : Nat)

/-- The input that empties the bin, in 128 bits. Of the reserve and of the input the low limb is
read. -/
def need : Nat :=
  LiquidityBook.BinQuote.capacity swapForY t.price t.fee (t.reserve % 2 ^ 64) % 2 ^ 128

/-- What an input below that is paid. -/
def pays : Nat :=
  LiquidityBook.BinQuote.outputFor swapForY t.price
    (left - LiquidityBook.BinQuote.feeIn t.fee left)

/-- The bin takes all that is left and pays for it. -/
def Fits : Prop :=
  left < 2 ^ 64 ∧ (left < t.need swapForY ∧ 0 < t.pays swapForY left ∨
    left = t.need swapForY ∧ 0 < t.reserve % 2 ^ 64)

/-- It pays its reserve for less than is left. -/
def Empties : Prop :=
  0 < t.reserve ∧ t.reserve < 2 ^ 64 ∧ t.need swapForY ≤ left % 2 ^ 64 ∧ t.need swapForY < left

/-- It pays nothing. -/
def Idle : Prop :=
  t.reserve % 2 ^ 64 = 0 ∨
    left % 2 ^ 64 < t.need swapForY ∧ t.pays swapForY (left % 2 ^ 64) = 0

/-- The amounts of the bin and whether they are quoted as emptying it. -/
structure Quoted (i o : Nat) (exhausted : Bool) : Prop where
  amounts : t.need swapForY ≤ left % 2 ^ 64 ∧ i = t.need swapForY ∧ o = t.reserve % 2 ^ 64 ∨
    left % 2 ^ 64 < t.need swapForY ∧ i = left % 2 ^ 64 ∧ o = t.pays swapForY (left % 2 ^ 64) ∧
      o < t.reserve % 2 ^ 64
  exhausted_iff : exhausted = true ↔ o = t.reserve

variable {t swapForY left} {i o : Nat} {exhausted : Bool}

theorem Quoted.idle_iff (h : t.Quoted swapForY left i o exhausted) :
    t.Idle swapForY left ↔ o = 0 := by
  unfold Idle
  rcases h.amounts with ⟨hge, -, ho⟩ | ⟨hlt, -, ho, hless⟩
  · omega
  · constructor
    · rintro (hdry | ⟨-, hzero⟩)
      · omega
      · omega
    · intro hzero
      exact .inr ⟨hlt, by omega⟩

theorem Quoted.fits_iff (h : t.Quoted swapForY left i o exhausted) :
    t.Fits swapForY left ↔ i = left ∧ o ≠ 0 := by
  unfold Fits
  rcases h.amounts with ⟨hge, hi, ho⟩ | ⟨hlt, hi, ho, -⟩
  · omega
  · constructor
    · rintro ⟨hleft, ⟨-, hpays⟩ | ⟨heq, -⟩⟩
      · rw [Nat.mod_eq_of_lt hleft] at hi ho
        omega
      · omega
    · rintro ⟨hall, hsome⟩
      have hleft : left % 2 ^ 64 = left := hi.symm.trans hall
      rw [hleft] at hlt ho
      exact ⟨by omega, .inl ⟨hlt, by omega⟩⟩

theorem Quoted.empties_iff (h : t.Quoted swapForY left i o exhausted) :
    t.Empties swapForY left ↔ exhausted = true ∧ o ≠ 0 ∧ i < left := by
  unfold Empties
  rw [h.exhausted_iff]
  rcases h.amounts with ⟨hge, hi, ho⟩ | ⟨hlt, hi, ho, hless⟩
  · omega
  · omega

/-- The amounts that the code computes of the low limbs. -/
theorem quoted_of_swapAmounts {prof : BuildProfile} {parameters price : U256}
    {binStep reserve fee v : Nat} (hprice : price ≠ 0)
    (hfee : PairParameterHelper.getTotalFee parameters binStep = .ok fee)
    (h : BinHelper.swapAmounts prof parameters binStep swapForY price (reserve % 2 ^ 64)
      (left % 2 ^ 64) = .ok (i, o, v)) :
    i < 2 ^ 64 ∧ o < 2 ^ 64 ∧
      Quoted ⟨reserve, price.toNat, fee⟩ swapForY left i o (o == reserve) := by
  have hr : reserve % 2 ^ 64 < 2 ^ 64 := Nat.mod_lt _ (by omega)
  have ha : left % 2 ^ 64 < 2 ^ 64 := Nat.mod_lt _ (by omega)
  obtain ⟨-, -, hcases⟩ := BinHelper.swapAmounts_cases hprice (by omega) (by omega) hfee h
  refine ⟨by omega, by omega, ?_, beq_iff_eq⟩
  unfold need pays
  dsimp only
  rcases hcases with ⟨hge, hi, ho, -⟩ | ⟨hlt, hi, ho, hless, -⟩
  · exact .inl ⟨hge, hi, ho⟩
  · exact .inr ⟨hlt, hi, ho, hless⟩

end BinTerms

namespace MoeLbPair

variable (prof : BuildProfile) (pair : MoeLbPair) (swapForY : Bool) (timestamp : Nat)

/-- The reserves of the bins are `u128`. -/
def BinsFit : Prop :=
  ∀ id bin, pair.bins.lookup id = some bin → bin.reserveX < 2 ^ 128 ∧ bin.reserveY < 2 ^ 128

/-- The terms of the bin of an id with both tokens, on the pair before the swap. -/
def termsAt (id : Nat) : Option BinTerms := do
  let bin ← pair.bins.lookup id
  if bin.reserveX = 0 ∨ bin.reserveY = 0 then none
  else
    let price ← (PriceHelper.getPriceFromId prof id pair.binStep).toOption
    let parameters ← (pair.parametersAt timestamp id).pack.toOption
    let fee ← (PairParameterHelper.getTotalFee parameters pair.binStep).toOption
    return ⟨if swapForY then bin.reserveY else bin.reserveX, price.toNat, fee⟩

/-- Of the ids from `id` on, one takes all that is left there; the bins before it pay nothing, or
are emptied for less than is left. -/
inductive Absorbs : Nat → Nat → Nat → Prop
  | taken {loops id left : Nat} {t : BinTerms}
      (terms : pair.termsAt prof swapForY timestamp id = some t) (fits : t.Fits swapForY left) :
      Absorbs (loops + 1) id left
  | emptied {loops id left : Nat} {t : BinTerms}
      (terms : pair.termsAt prof swapForY timestamp id = some t)
      (empties : t.Empties swapForY left) (next : nextId id swapForY ≠ id)
      (rest : Absorbs loops (nextId id swapForY) (left - t.need swapForY)) :
      Absorbs (loops + 1) id left
  | passed {loops id left : Nat}
      (idle : ∀ t, pair.termsAt prof swapForY timestamp id = some t → t.Idle swapForY left)
      (next : nextId id swapForY ≠ id) (rest : Absorbs loops (nextId id swapForY) left) :
      Absorbs (loops + 1) id left

section

variable {prof : BuildProfile} {pair : MoeLbPair} {swapForY : Bool} {timestamp loops id : Nat}
  {left i o f : U256} {exhausted : Bool}

theorem termsAt_eq {bin : BinReserve} {price parameters : U256} {fee : Nat}
    (hbin : pair.bins.lookup id = some bin) (hboth : ¬ (bin.reserveX = 0 ∨ bin.reserveY = 0))
    (hprice : PriceHelper.getPriceFromId prof id pair.binStep = .ok price)
    (hparams : (pair.parametersAt timestamp id).pack = .ok parameters)
    (hfee : PairParameterHelper.getTotalFee parameters pair.binStep = .ok fee) :
    pair.termsAt prof swapForY timestamp id =
      some ⟨if swapForY then bin.reserveY else bin.reserveX, price.toNat, fee⟩ := by
  have hprice' : (PriceHelper.getPriceFromId prof id pair.binStep).toOption = some price := by
    rw [hprice]
    rfl
  have hparams' : (pair.parametersAt timestamp id).pack.toOption = some parameters := by
    rw [hparams]
    rfl
  have hfee' : (PairParameterHelper.getTotalFee parameters pair.binStep).toOption = some fee := by
    rw [hfee]
    rfl
  unfold termsAt
  rw [hbin, Option.bind_eq_bind, Option.bind_some, if_neg hboth, hprice', Option.bind_eq_bind,
    Option.bind_some, hparams', Option.bind_eq_bind, Option.bind_some, hfee']
  rfl

/-- **The amounts of a bin are those of its terms**; a bin without terms pays nothing. -/
theorem quoteAt_terms (hfit : pair.BinsFit)
    (h : pair.quoteAt prof swapForY timestamp id left = .ok (i, o, f, exhausted)) :
    (pair.termsAt prof swapForY timestamp id = none ∧ o = 0) ∨
      ∃ t, pair.termsAt prof swapForY timestamp id = some t ∧
        t.Quoted swapForY left.toNat i.toNat o.toNat exhausted := by
  unfold quoteAt computeBinSwap at h
  cases hbin : pair.bins.lookup id with
  | none =>
    simp only [hbin] at h
    cases h
    refine .inl ⟨?_, rfl⟩
    unfold termsAt
    rw [hbin]
    rfl
  | some bin =>
    simp only [hbin] at h
    by_cases hdry : bin.reserveX = 0 ∨ bin.reserveY = 0
    · rw [if_pos hdry] at h
      cases h
      refine .inl ⟨?_, rfl⟩
      unfold termsAt
      rw [hbin, Option.bind_eq_bind, Option.bind_some, if_pos hdry]
    · rw [if_neg hdry] at h
      simp only [bind_eq_ok] at h
      obtain ⟨parameters, hparams, n, hn, ⟨ins, outs, fees⟩, hamounts, h⟩ := h
      obtain ⟨rfl, hlt⟩ := toU128_eq_ok hn
      obtain ⟨hx, hy⟩ := hfit id bin hbin
      have hamounts := liftMoe_eq_ok hamounts
      obtain ⟨price, hprice⟩ := BinHelper.getAmounts_price hamounts
      obtain ⟨i', o', v, L, hins, houts, -, hswap, -⟩ :=
        BinHelper.getAmounts_eq_ok hx hy hlt hprice hamounts
      obtain ⟨fee, hfee⟩ := BinHelper.swapAmounts_fee hswap
      refine .inr ⟨_, termsAt_eq hbin hdry hprice (liftMoe_eq_ok hparams) hfee, ?_⟩
      generalize (if swapForY then bin.reserveY else bin.reserveX) = reserve at hswap h ⊢
      obtain ⟨hi', ho', hquoted⟩ := BinTerms.quoted_of_swapAmounts
        (PriceHelper.getPriceFromId_ne_zero hprice) hfee hswap
      -- both amounts fit the limb that the code reads of a lane
      have hin : PackedUint128Math.decodeFirst ins swapForY = i' := by
        rw [hins, PackedUint128Math.decodeFirst_encode (by omega), Nat.mod_eq_of_lt hi']
      have hout : PackedUint128Math.decodeFirst outs (!swapForY) = o' := by
        have hlane := PackedUint128Math.decodeFirst_encode (n := o') (by omega) (!swapForY)
        rw [Nat.mod_eq_of_lt ho'] at hlane
        rw [houts]
        cases swapForY with
        | true => exact hlane
        | false => exact hlane
      dsimp only at h
      rw [hin, hout] at h
      cases h
      rw [BinHelper.toNat_ofNat_lane (by omega), BinHelper.toNat_ofNat_lane (by omega)]
      exact hquoted

/-- A bin that pays nothing is passed by. -/
theorem absorbs_of_idle (hfit : pair.BinsFit)
    (hquote : pair.quoteAt prof swapForY timestamp id left = .ok (i, 0, f, exhausted)) :
    pair.Absorbs prof swapForY timestamp (loops + 1) id left.toNat ↔
      nextId id swapForY ≠ id ∧
        pair.Absorbs prof swapForY timestamp loops (nextId id swapForY) left.toNat := by
  have hidle : ∀ t, pair.termsAt prof swapForY timestamp id = some t →
      t.Quoted swapForY left.toNat i.toNat 0 exhausted := by
    intro t ht
    rcases quoteAt_terms hfit hquote with ⟨hnone, -⟩ | ⟨t', ht', hquoted⟩
    · rw [hnone] at ht
      cases ht
    · rw [ht'] at ht
      cases ht
      exact hquoted
  constructor
  · intro h
    cases h with
    | taken terms fits => exact absurd rfl ((hidle _ terms).fits_iff.mp fits).2
    | emptied terms empties next rest =>
      exact absurd rfl ((hidle _ terms).empties_iff.mp empties).2.1
    | passed idle next rest => exact ⟨next, rest⟩
  · intro ⟨hnext, hrest⟩
    exact .passed (fun t ht => (hidle t ht).idle_iff.mpr rfl) hnext hrest

/-- A bin that pays has terms. -/
theorem terms_of_some (hfit : pair.BinsFit)
    (hquote : pair.quoteAt prof swapForY timestamp id left = .ok (i, o, f, exhausted))
    (hsome : o ≠ 0) : o.toNat ≠ 0 ∧ ∃ t, pair.termsAt prof swapForY timestamp id = some t ∧
      t.Quoted swapForY left.toNat i.toNat o.toNat exhausted := by
  rcases quoteAt_terms hfit hquote with ⟨-, hzero⟩ | hterms
  · exact absurd hzero hsome
  · exact ⟨fun hzero => hsome (BitVec.eq_of_toNat_eq hzero), hterms⟩

/-- A bin that takes a part leaves the rest to the bins beyond when it is emptied, and to none
otherwise. -/
theorem absorbs_of_part (hfit : pair.BinsFit)
    (hquote : pair.quoteAt prof swapForY timestamp id left = .ok (i, o, f, exhausted))
    (hsome : o ≠ 0) (hpart : i < left) :
    pair.Absorbs prof swapForY timestamp (loops + 1) id left.toNat ↔
      exhausted = true ∧ nextId id swapForY ≠ id ∧
        pair.Absorbs prof swapForY timestamp loops (nextId id swapForY) (left - i).toNat := by
  have hlt : i.toNat < left.toNat := hpart
  rw [BitVec.toNat_sub_of_le (le_of_lt hlt)]
  obtain ⟨ho, t, hterms, hquoted⟩ := terms_of_some hfit hquote hsome
  have hsame : ∀ t', pair.termsAt prof swapForY timestamp id = some t' → t' = t := by
    intro t' ht'
    rw [hterms] at ht'
    cases ht'
    rfl
  have hneed : t.Empties swapForY left.toNat → t.need swapForY = i.toNat := by
    rintro ⟨-, -, hge, -⟩
    rcases hquoted.amounts with ⟨-, hi, -⟩ | ⟨hless, -⟩
    · exact hi.symm
    · omega
  constructor
  · intro h
    cases h with
    | taken terms fits =>
      cases hsame _ terms
      exact absurd (hquoted.fits_iff.mp fits).1 (Nat.ne_of_lt hlt)
    | emptied terms empties next rest =>
      cases hsame _ terms
      rw [hneed empties] at rest
      exact ⟨(hquoted.empties_iff.mp empties).1, next, rest⟩
    | passed idle next rest => exact absurd (hquoted.idle_iff.mp (idle t hterms)) ho
  · rintro ⟨hexhausted, hnext, hrest⟩
    have hempties := hquoted.empties_iff.mpr ⟨hexhausted, ho, hlt⟩
    exact .emptied hterms hempties hnext (by rw [hneed hempties]; exact hrest)

/-- A bin that takes all ends the walk. -/
theorem absorbs_of_all (hfit : pair.BinsFit)
    (hquote : pair.quoteAt prof swapForY timestamp id left = .ok (left, o, f, exhausted))
    (hsome : o ≠ 0) : pair.Absorbs prof swapForY timestamp (loops + 1) id left.toNat := by
  obtain ⟨ho, t, hterms, hquoted⟩ := terms_of_some hfit hquote hsome
  exact .taken hterms (hquoted.fits_iff.mpr ⟨rfl, ho⟩)

end

end MoeLbPair

namespace SwapState

open MoeLbPair

/-! ## The input of the visited bins -/

section

variable (prof : BuildProfile) (swapForY : Bool)

/-- The `amount_in_with_fee` of the bin that a round visits. -/
def roundInputs (s : SwapState) (pair : MoeLbPair) : List U256 :=
  match pair.bins.lookup s.currentId with
  | none => []
  | some _ =>
    match (simulateSingleBin prof s.atBin.parameters s.currentId swapForY s.amountLeft pair).1 with
    | .ok result => [result.amountInWithFee]
    | .error _ => []

/-- The `amount_in_with_fee` of the bins that the loop visits, in order. -/
def loopInputs : Nat → SwapState → MoeLbPair → List U256
  | 0, _, _ => []
  | loops + 1, s, pair =>
    if s.amountLeft = 0 then []
    else s.roundInputs prof swapForY pair ++
      match s.round prof swapForY pair with
      | (.ok (.yield s), pair) => loopInputs loops s pair
      | _ => []

end

variable {prof : BuildProfile} {start pair pair' : MoeLbPair} {swapForY : Bool} {timestamp : Nat}
  {s s' : SwapState} {bin : BinReserve} {r : ForInStep SwapState} {loops : Nat}

/-- The sum of amounts, without wrapping. -/
def sum (amounts : List U256) : Nat := (amounts.map (·.toNat)).sum

theorem sum_append (xs ys : List U256) : sum (xs ++ ys) = sum xs + sum ys := by
  unfold sum
  rw [List.map_append, List.sum_append]

theorem advance_amountLeft (s : SwapState) (swapForY : Bool) :
    (s.advance swapForY).value.amountLeft = s.amountLeft := by
  unfold advance
  dsimp only
  split
  · rfl
  · split
    · rfl
    · rfl

/-- What a round leaves of the input after its bin took a part of it. -/
theorem settle_amountLeft (s : SwapState) (swapForY : Bool) (result : BinSwapResult)
    (hle : result.amountInWithFee.toNat ≤ s.amountLeft.toNat) :
    (s.settle swapForY result).value.amountLeft.toNat + result.amountInWithFee.toNat =
      s.amountLeft.toNat := by
  unfold settle
  generalize ht : (if result.amountOut ≠ 0 then
    { s with amountOut := addOut s.amountOut result.amountOut } else s) = t
  have hleft : t.amountLeft = s.amountLeft := by
    rw [← ht]
    split
    · rfl
    · rfl
  dsimp only
  rw [hleft]
  split
  · rename_i hall
    have hge : s.amountLeft.toNat ≤ result.amountInWithFee.toNat := hall.2
    have hzero : (0 : U256).toNat = 0 := rfl
    unfold ForInStep.value
    dsimp only
    omega
  · have hsub : (s.amountLeft - result.amountInWithFee).toNat =
        s.amountLeft.toNat - result.amountInWithFee.toNat := BitVec.toNat_sub_of_le hle
    split
    · rw [advance_amountLeft]
      dsimp only
      omega
    · unfold ForInStep.value
      dsimp only
      omega

/-- **A round** takes from what is left the input of its bin. -/
theorem roundInputs_sum (h : s.round prof swapForY pair = (.ok r, pair')) :
    sum (s.roundInputs prof swapForY pair) + r.value.amountLeft.toNat = s.amountLeft.toNat := by
  unfold roundInputs
  cases hbin : pair.bins.lookup s.currentId with
  | none =>
    rw [round_of_none hbin] at h
    cases h
    rw [advance_amountLeft]
    exact Nat.zero_add _
  | some bin =>
    generalize hr : simulateSingleBin prof s.atBin.parameters s.currentId swapForY
      s.amountLeft pair = result at *
    have hcases := hr ▸ simulateSingleBin_cases hbin
    rw [round_of_some hbin hr] at h
    cases hcases with
    | failed e amounts => cases h
    | idle i f exhausted amounts =>
      cases h
      rw [settle_idle, advance_amountLeft]
      exact Nat.zero_add _
    | refused i o f exhausted e amounts some checks => cases h
    | broken i o f exhausted e amounts some checks last => cases h
    | paid i o f exhausted amounts some checks last =>
      cases h
      have hsettle := s.atBin.settle_amountLeft swapForY
        ⟨i, o, f, s.atBin.parameters.protocolFeeAmountU256 f, exhausted⟩
        (computeBinSwap_le amounts).1
      have hsum : sum [i] = i.toNat := Nat.add_zero _
      dsimp only at hsettle ⊢
      rw [hsum, Nat.add_comm]
      exact hsettle

/-- **The inputs of the visited bins and what is left at the end** are the input. -/
theorem loopInputs_sum (h : loop prof swapForY loops s pair = (.ok s', pair')) :
    sum (loopInputs prof swapForY loops s pair) + s'.amountLeft.toNat = s.amountLeft.toNat := by
  induction loops generalizing s pair with
  | zero =>
    cases h
    exact Nat.zero_add _
  | succ loops ih =>
    unfold loopInputs
    by_cases hleft : s.amountLeft = 0
    · rw [loop_of_left_zero hleft] at h
      cases h
      rw [if_pos hleft]
      exact Nat.zero_add _
    · rw [if_neg hleft, sum_append]
      rcases hround : s.round prof swapForY pair with ⟨e | r, pair₁⟩
      · rw [loop_of_error hleft hround] at h
        cases h
      · have hsum := roundInputs_sum hround
        cases r with
        | done s₁ =>
          rw [loop_of_done hleft hround] at h
          cases h
          exact hsum
        | yield s₁ =>
          rw [loop_of_yield hleft hround] at h
          have hrest := ih h
          unfold ForInStep.value at hsum
          dsimp only at hsum ⊢
          omega

/-! ## When nothing is left -/

/-- The swap ends with nothing left exactly when the bins ahead absorb what is left now. -/
theorem OnWalk.absorbs_iff (hfit : start.BinsFit) (h : OnWalk start swapForY timestamp s pair)
    (hleft : s.amountLeft ≠ 0) (hloop : loop prof swapForY loops s pair = (.ok s', pair')) :
    s'.amountLeft = 0 ↔
      start.Absorbs prof swapForY timestamp loops s.currentId s.amountLeft.toNat := by
  induction loops generalizing s pair with
  | zero =>
    cases hloop
    refine ⟨fun hzero => absurd hzero hleft, fun habsorbs => ?_⟩
    cases habsorbs
  | succ loops ih =>
    -- Where the loop goes on, the rest of it decides.
    have hgo : ∀ {left out : U256}, left ≠ 0 →
        GoesOn prof start swapForY timestamp loops s s' pair' left out →
        (s'.amountLeft = 0 ↔ nextId s.currentId swapForY ≠ s.currentId ∧
          start.Absorbs prof swapForY timestamp loops (nextId s.currentId swapForY)
            left.toNat) := by
      intro left out hrest go
      cases go with
      | ended last left_eq out_eq =>
        rw [left_eq]
        exact ⟨fun hzero => absurd hzero hrest, fun hboth => absurd last hboth.1⟩
      | next more t pair₁ walk currentId left_eq out_eq rest =>
        have hiff := ih walk (left_eq ▸ hrest) rest
        rw [currentId, left_eq] at hiff
        rw [hiff]
        exact ⟨fun habsorbs => ⟨more, habsorbs⟩, fun hboth => hboth.2⟩
    cases h.loop_cases hleft hloop with
    | passed i f exhausted quote go =>
      rw [absorbs_of_idle hfit quote]
      exact hgo hleft go
    | emptied i o f quote some part go =>
      rw [absorbs_of_part hfit quote some part, hgo (sub_ne_zero_of_lt part) go]
      exact ⟨fun hboth => ⟨rfl, hboth⟩, fun hboth => hboth.2⟩
    | taken o f exhausted quote some left_eq out_eq =>
      exact ⟨fun _ => absorbs_of_all hfit quote some, fun _ => left_eq⟩
    | stopped i o f quote some part left_eq out_eq =>
      rw [absorbs_of_part hfit quote some part, left_eq]
      exact ⟨fun hzero => absurd hzero (sub_ne_zero_of_lt part),
        fun hboth => absurd hboth.1 Bool.false_ne_true⟩

end SwapState

/-! ## The calls -/

namespace MoeLbPair

variable {prof : BuildProfile} {pair pair' : MoeLbPair} {swapForY : Bool} {timestamp : Nat}
  {amountIn amountOut : U256} {baseToken : Address}

/-- The `amount_in_with_fee` of the bins that a swap visits. -/
def swapInputs (prof : BuildProfile) (pair : MoeLbPair) (swapForY : Bool) (amountIn : U256)
    (timestamp : Nat) : List U256 :=
  SwapState.loopInputs prof swapForY MAX_ITERATIONS (pair.startSwap amountIn timestamp) pair

/-- **A swap with an output used its whole input exactly when the bins absorb it.** -/
theorem simulateSwapWithTimestamp_inputs_iff (hbins : ¬ pair.bins.entries.isEmpty)
    (hfit : pair.BinsFit)
    (h : pair.simulateSwapWithTimestamp prof baseToken amountIn timestamp = .ok amountOut)
    (hout : amountOut ≠ 0) :
    SwapState.sum (pair.swapInputs prof (baseToken == pair.tokenX.address) amountIn timestamp) =
        amountIn.toNat ↔
      pair.Absorbs prof (baseToken == pair.tokenX.address) timestamp MAX_ITERATIONS pair.activeId
        amountIn.toNat := by
  unfold simulateSwapWithTimestamp at h
  split at h
  · cases h
    exact absurd rfl hout
  · rw [if_pos (by simpa using hbins)] at h
    obtain ⟨hin, -, hrun⟩ := simulateSwapAcrossBins_eq_ok (Prod.ext h rfl) hout
    rw [simulateSwapPrecise_eq hbins] at hrun
    generalize (baseToken == pair.tokenX.address) = swapForY at *
    rcases hloop : SwapState.loop prof swapForY MAX_ITERATIONS (pair.startSwap amountIn timestamp)
      pair with ⟨e | s, pair₁⟩
    · rw [hloop] at hrun
      cases hrun
    · have hsum := SwapState.loopInputs_sum hloop
      have hiff := SwapState.onWalk_start.absorbs_iff hfit hin hloop
      have hstart : (pair.startSwap amountIn timestamp).amountLeft = amountIn := rfl
      have hid : (pair.startSwap amountIn timestamp).currentId = pair.activeId := rfl
      rw [hstart, hid] at hiff
      rw [hstart] at hsum
      rw [← hiff]
      have hzero : s.amountLeft = 0 ↔ s.amountLeft.toNat = 0 :=
        ⟨fun h => congrArg BitVec.toNat h, fun h => BitVec.eq_of_toNat_eq h⟩
      rw [hzero]
      unfold swapInputs
      omega

/-- A pair with one bin at price one. -/
def thinPair : MoeLbPair :=
  feeless 10 (2 ^ 23) (10 ^ 6) (10 ^ 6) ((∅ : HashMap Nat BinReserve).insert (2 ^ 23)
    ⟨10 ^ 6, 10 ^ 6⟩)

/-- `2 ^ 64 + 1000` of X for Y: the bin takes 1000, and the rest is dropped. -/
theorem thinPair_drops :
    ¬ thinPair.bins.entries.isEmpty ∧
      thinPair.simulateSwapWithTimestamp ⟨true⟩ 2 (2 ^ 64 + 1000) 0 = .ok 1000 ∧
      thinPair.swapInputs ⟨true⟩ true (2 ^ 64 + 1000) 0 = [1000] ∧
      SwapState.sum (thinPair.swapInputs ⟨true⟩ true (2 ^ 64 + 1000) 0) ≠
        (2 ^ 64 + 1000 : U256).toNat := by
  decide +kernel

theorem twoBinPair_binsFit : twoBinPair.BinsFit := by
  intro id bin hbin
  unfold twoBinPair feeless at hbin
  dsimp only at hbin
  rw [HashMap.lookup_insert, HashMap.lookup_insert] at hbin
  split_ifs at hbin <;> cases hbin <;> decide

/-- A swap that empties the active bin and takes a part of the next one, with its fees. -/
theorem simulateSwapWithTimestamp_inputs_iff_twoBinPair :
    twoBinPair.swapInputs ⟨true⟩ ((2 : Address) == twoBinPair.tokenX.address) 1500000 100 =
        [1000501, 499499] ∧
      twoBinPair.Absorbs ⟨true⟩ ((2 : Address) == twoBinPair.tokenX.address) 100 MAX_ITERATIONS
        twoBinPair.activeId (1500000 : U256).toNat := by
  have hinputs : twoBinPair.swapInputs ⟨true⟩ ((2 : Address) == twoBinPair.tokenX.address)
      1500000 100 = [1000501, 499499] := by decide +kernel
  refine ⟨hinputs, (simulateSwapWithTimestamp_inputs_iff (by decide +kernel) twoBinPair_binsFit
    (by decide +kernel : twoBinPair.simulateSwapWithTimestamp ⟨true⟩ 2 1500000 100 =
      .ok 1498748) (by decide)).mp ?_⟩
  rw [hinputs]
  decide

end MoeLbPair

end ArbitrageBot
