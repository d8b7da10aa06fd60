import ArbitrageBot.Amms.Moe.Absorption
import ArbitrageBot.Amms.Moe.BinSafety
import ArbitrageBot.Lib.ConstantProduct
import ArbitrageBot.Lib.Ladder

/-!
# Moe liquidity-book pairs: what a larger input is paid

The bins that a swap visits are levels that fill its input one after the other. A bin pays no less
for more, so a larger input below `2 ^ 64` is paid no less in total. That fails where the larger
input is paid by a bin that the smaller one passes by, and where the sanity checks reject what is
paid.
-/

namespace ArbitrageBot

open Lib Moe

/-! ## One bin -/

namespace Moe.BinHelper

open LiquidityBook

variable {prof : BuildProfile} {swapForY : Bool} {price parameters : U256}
  {binStep r a b i o v i' o' v' n n' : Nat}

theorem amountOutFor_mono (hp : price ≠ 0) (hn : n' < 2 ^ 128) (hle : n ≤ n')
    (h : amountOutFor swapForY n price = .ok o) (h' : amountOutFor swapForY n' price = .ok o') :
    o ≤ o' := by
  rw [amountOutFor_eq_ok hp (by omega) h, amountOutFor_eq_ok hp hn h']
  exact BinQuote.outputFor_mono hle

/-- **A bin pays no less for more**, and takes all of an input for which it pays less. -/
theorem swapAmounts_mono (hp : price ≠ 0) (hr : r < 2 ^ 128) (hle : a ≤ b) (hb : b < 2 ^ 128)
    (h : swapAmounts prof parameters binStep swapForY price r a = .ok (i, o, v))
    (h' : swapAmounts prof parameters binStep swapForY price r b = .ok (i', o', v')) :
    o ≤ o' ∧ o' ≤ r ∧ ((i = i' ∧ o = o') ∨ i = a) := by
  unfold swapAmounts at h h'
  simp only [bind_eq_ok] at h h'
  obtain ⟨m, hm, f, hf, maxFee, hmaxFee, total, htotal, h⟩ := h
  obtain ⟨m', hm', f', hf', maxFee', hmaxFee', total', htotal', h'⟩ := h'
  rw [hm] at hm'
  cases hm'
  rw [hf] at hf'
  cases hf'
  rw [hmaxFee] at hmaxFee'
  cases hmaxFee'
  rw [htotal] at htotal'
  cases htotal'
  have hmlt := (maxAmountIn_eq_ok hp hr hm).2
  have hfle := (FeeHelper.getFeeAmount_eq_ok hmlt hmaxFee).1
  have hfP : f < BinQuote.FEE_PRECISION := by
    have hf17 : f ≤ 10 ^ 17 := hfle
    unfold BinQuote.FEE_PRECISION
    omega
  by_cases hcap : a ≥ total
  · -- Both inputs take the whole reserve.
    rw [if_pos hcap] at h
    rw [if_pos (by omega)] at h'
    cases h
    cases h'
    exact ⟨Nat.le_refl _, Nat.le_refl _, .inl ⟨rfl, rfl⟩⟩
  · rw [if_neg hcap, FeeHelper.getFeeAmountFrom_eq (by omega) hfle, ok_bind] at h
    have hfee := BinQuote.feeIn_le (a := a) hfP
    rw [BuildProfile.unsigned_of_range (by omega) (by omega), ok_bind, Int.toNat_sub,
      bind_eq_ok] at h
    obtain ⟨out, hout, h⟩ := h
    cases h
    by_cases hcap' : b ≥ total
    · rw [if_pos hcap'] at h'
      cases h'
      refine ⟨?_, Nat.le_refl _, .inr rfl⟩
      split
      · exact Nat.le_refl _
      · omega
    · rw [if_neg hcap', FeeHelper.getFeeAmountFrom_eq hb hfle, ok_bind] at h'
      have hfee' := BinQuote.feeIn_le (a := b) hfP
      rw [BuildProfile.unsigned_of_range (by omega) (by omega), ok_bind, Int.toNat_sub,
        bind_eq_ok] at h'
      obtain ⟨out', hout', h'⟩ := h'
      cases h'
      have hmono := amountOutFor_mono hp (by omega) (BinQuote.net_mono hfP hle) hout hout'
      refine ⟨?_, ?_, .inr rfl⟩
      · split
        · split
          · exact Nat.le_refl _
          · omega
        · split
          · omega
          · exact hmono
      · split
        · exact Nat.le_refl _
        · omega

/-- The lanes of the packed amounts of an input of one limb are the amounts of the bin. -/
theorem getAmounts_lanes {binReserves ins outs fees : U256} {id : Nat} (ha : a < 2 ^ 64)
    (h : getAmounts prof binReserves parameters binStep swapForY id
      (if swapForY then PackedUint128Math.encode a 0 else PackedUint128Math.encode 0 a) =
        .ok (ins, outs, fees)) :
    ∃ price v, PriceHelper.getPriceFromId prof id binStep = .ok price ∧
      swapAmounts prof parameters binStep swapForY price
          (PackedUint128Math.decodeFirst binReserves (!swapForY)) a =
        .ok (PackedUint128Math.decodeFirst ins swapForY,
          PackedUint128Math.decodeFirst outs (!swapForY), v) := by
  have hreserve : (if swapForY then PackedUint128Math.decodeY binReserves
      else PackedUint128Math.decodeX binReserves) =
        PackedUint128Math.decodeFirst binReserves (!swapForY) := by
    cases swapForY with
    | true => rfl
    | false => rfl
  have hr := PackedUint128Math.decodeFirst_lt binReserves (!swapForY)
  unfold getAmounts at h
  simp only [bind_eq_ok] at h
  obtain ⟨price, hprice, ⟨i, o, v⟩, hswap, L, -, h⟩ := h
  rw [PackedUint128Math.decodeFirst_encode (by omega), Nat.mod_eq_of_lt ha, hreserve] at hswap
  have hin := swapAmounts_le hswap
  have hout := (swapAmounts_mono (PriceHelper.getPriceFromId_ne_zero hprice) (by omega)
    (Nat.le_refl a) (by omega) hswap hswap).2.1
  refine ⟨price, v, hprice, ?_⟩
  split at h
  · cases h
  · cases h
    rw [PackedUint128Math.decodeFirst_encode (by omega), Nat.mod_eq_of_lt (by omega)]
    have houts : PackedUint128Math.decodeFirst (if swapForY then PackedUint128Math.encode 0 o
        else PackedUint128Math.encode o 0) (!swapForY) = o := by
      have hlane := PackedUint128Math.decodeFirst_encode (n := o) (by omega) (!swapForY)
      rw [Nat.mod_eq_of_lt (by omega)] at hlane
      cases swapForY with
      | true => exact hlane
      | false => exact hlane
    rw [houts]
    exact hswap

end Moe.BinHelper

namespace MoeLbPair

variable {prof : BuildProfile} {pair pair' : MoeLbPair} {params : MoeParameters} {binId : Nat}
  {swapForY : Bool} {a b i o f i' o' f' : U256} {ex ex' : Bool}

/-- **The bin of an id pays no less for more**, and takes all of an input unless it does the same
for a larger one. -/
theorem computeBinSwap_mono (hle : a.toNat ≤ b.toNat) (hb : b.toNat < 2 ^ 64)
    (h : pair.computeBinSwap prof params binId swapForY a = .ok (i, o, f, ex))
    (h' : pair.computeBinSwap prof params binId swapForY b = .ok (i', o', f', ex')) :
    o.toNat ≤ o'.toNat ∧ ((i = i' ∧ o = o' ∧ ex = ex') ∨ i = a) := by
  unfold computeBinSwap at h h'
  cases hbin : pair.bins.lookup binId with
  | none =>
    simp only [hbin] at h h'
    cases h
    cases h'
    exact ⟨Nat.le_refl _, .inl ⟨rfl, rfl, rfl⟩⟩
  | some bin =>
    simp only [hbin] at h h'
    by_cases hdry : bin.reserveX = 0 ∨ bin.reserveY = 0
    · rw [if_pos hdry] at h h'
      cases h
      cases h'
      exact ⟨Nat.le_refl _, .inl ⟨rfl, rfl, rfl⟩⟩
    · rw [if_neg hdry] at h h'
      simp only [bind_eq_ok] at h h'
      obtain ⟨parameters, hparams, n, hn, ⟨ins, outs, fees⟩, hamounts, h⟩ := h
      obtain ⟨parameters', hparams', n', hn', ⟨ins', outs', fees'⟩, hamounts', h'⟩ := h'
      rw [hparams] at hparams'
      cases hparams'
      obtain ⟨rfl, -⟩ := toU128_eq_ok hn
      obtain ⟨rfl, -⟩ := toU128_eq_ok hn'
      obtain ⟨price, v, hprice, hswap⟩ :=
        BinHelper.getAmounts_lanes (by omega) (liftMoe_eq_ok hamounts)
      obtain ⟨price', v', hprice', hswap'⟩ :=
        BinHelper.getAmounts_lanes hb (liftMoe_eq_ok hamounts')
      rw [hprice] at hprice'
      cases hprice'
      have hp := PriceHelper.getPriceFromId_ne_zero hprice
      have hr := PackedUint128Math.decodeFirst_lt
        (PackedUint128Math.encode bin.reserveX bin.reserveY) (!swapForY)
      obtain ⟨hmono, -, hcases⟩ :=
        BinHelper.swapAmounts_mono hp (by omega) hle (by omega) hswap hswap'
      have hout := PackedUint128Math.decodeFirst_lt outs (!swapForY)
      have hout' := PackedUint128Math.decodeFirst_lt outs' (!swapForY)
      dsimp only at h h'
      cases h
      cases h'
      rw [BinHelper.toNat_ofNat_lane (by omega), BinHelper.toNat_ofNat_lane (by omega)]
      refine ⟨hmono, ?_⟩
      rcases hcases with ⟨hin, hsame⟩ | hall
      · rw [hin, hsame]
        exact .inl ⟨rfl, rfl, rfl⟩
      · rw [hall]
        exact .inr (BitVec.ofNat_toNat _ a ▸ BitVec.setWidth_eq a)

/-! ## The bins as levels -/

section

variable (prof : BuildProfile) (pair : MoeLbPair) (swapForY : Bool) (timestamp : Nat)

/-- How the bin of an id fills an offer, on the pair before the swap. -/
def fillAt (id offer : Nat) : Option Fill :=
  match pair.quoteAt prof swapForY timestamp id (BitVec.ofNat 256 offer) with
  | .ok (i, o, _, exhausted) => some ⟨i.toNat, o.toNat, exhausted⟩
  | .error _ => none

/-- The ids of at most `loops` rounds from `id` on. -/
def idsFrom (swapForY : Bool) : Nat → Nat → List Nat
  | 0, _ => []
  | loops + 1, id =>
    id :: if nextId id swapForY = id then [] else idsFrom swapForY loops (nextId id swapForY)

end

variable {timestamp id : Nat}

theorem fillAt_of_quote
    (h : pair.quoteAt prof swapForY timestamp id a = .ok (i, o, f, ex)) :
    pair.fillAt prof swapForY timestamp id a.toNat = some ⟨i.toNat, o.toNat, ex⟩ := by
  unfold fillAt
  rw [BitVec.ofNat_toNat, BitVec.setWidth_eq, h]

theorem fillAt_rising : Ladder.Rising (2 ^ 64) (pair.fillAt prof swapForY timestamp id) := by
  intro m n q r hle hn hq hr
  unfold fillAt quoteAt at hq hr
  split at hq
  · rename_i i o f ex h
    split at hr
    · rename_i i' o' f' ex' h'
      cases hq
      cases hr
      have hm : (BitVec.ofNat 256 m).toNat = m := BinHelper.toNat_ofNat_lane (by omega)
      have hn' : (BitVec.ofNat 256 n).toNat = n := BinHelper.toNat_ofNat_lane (by omega)
      have htaken := (computeBinSwap_le h).1
      obtain ⟨hpaid, hcases⟩ := computeBinSwap_mono (by omega) (by omega) h h'
      rw [hm] at htaken
      refine ⟨htaken, hpaid, ?_⟩
      rcases hcases with ⟨rfl, rfl, rfl⟩ | rfl
      · exact .inl rfl
      · exact .inr hm
    · cases hr
  · cases hq

end MoeLbPair

namespace SwapState

open MoeLbPair

variable {prof : BuildProfile} {start pair pair' : MoeLbPair} {swapForY : Bool}
  {timestamp loops : Nat} {s s' : SwapState}

/-- **The loop pays what the levels ahead pay** for what is left. -/
theorem OnWalk.pays_eq (h : OnWalk start swapForY timestamp s pair)
    (hroom : s.amountOut.toNat + 2 ^ 64 * loops < 2 ^ 256)
    (hloop : loop prof swapForY loops s pair = (.ok s', pair')) :
    ∃ v, Ladder.pays (start.fillAt prof swapForY timestamp) (idsFrom swapForY loops s.currentId)
        s.amountLeft.toNat = some v ∧
      s'.amountOut.toNat = s.amountOut.toNat + v := by
  induction loops generalizing s pair with
  | zero =>
    cases hloop
    exact ⟨0, rfl, rfl⟩
  | succ loops ih =>
    by_cases hleft : s.amountLeft = 0
    · rw [loop_of_left_zero hleft] at hloop
      cases hloop
      rw [hleft]
      exact ⟨0, Ladder.pays_zero, rfl⟩
    have hoffer : s.amountLeft.toNat ≠ 0 := (BitVec.toNat_pos_of_ne_zero hleft).ne'
    -- Where the loop goes on, the levels behind pay for the rest.
    have hgo : ∀ {left out : U256}, out.toNat + 2 ^ 64 * loops < 2 ^ 256 →
        GoesOn prof start swapForY timestamp loops s s' pair' left out →
        ∃ v, Ladder.pays (start.fillAt prof swapForY timestamp)
            (if nextId s.currentId swapForY = s.currentId then []
              else idsFrom swapForY loops (nextId s.currentId swapForY)) left.toNat = some v ∧
          s'.amountOut.toNat = out.toNat + v := by
      intro left out hroom' go
      cases go with
      | ended last left_eq out_eq =>
        rw [if_pos last, out_eq]
        exact ⟨0, rfl, rfl⟩
      | next more t pair₁ walk currentId left_eq out_eq rest =>
        have hrest := ih walk (out_eq ▸ hroom') rest
        rw [currentId, left_eq, out_eq] at hrest
        rw [if_neg more]
        exact hrest
    -- A bin that pays, pays a limb.
    have hpaid : ∀ {i o f : U256} {exhausted : Bool},
        start.quoteAt prof swapForY timestamp s.currentId s.amountLeft = .ok (i, o, f, exhausted) →
        o ≠ 0 → o.toNat ≠ 0 ∧ i.toNat ≤ s.amountLeft.toNat ∧
          (addOut s.amountOut o).toNat = s.amountOut.toNat + o.toNat ∧
          (addOut s.amountOut o).toNat + 2 ^ 64 * loops < 2 ^ 256 := by
      intro i o f exhausted hquote hsome
      obtain ⟨hin, -, hout, -⟩ := computeBinSwap_le hquote
      have hadd := @toNat_addOut s.amountOut o (by omega)
      exact ⟨(BitVec.toNat_pos_of_ne_zero hsome).ne', hin, hadd, by omega⟩
    unfold idsFrom
    cases h.loop_cases hleft hloop with
    | passed i f exhausted quote go =>
      rw [Ladder.pays_of_passed hoffer (fillAt_of_quote quote) rfl]
      exact hgo (by omega) go
    | emptied i o f quote some part go =>
      obtain ⟨hsome, hin, hadd, hroom'⟩ := hpaid quote some
      obtain ⟨v, hv, hsum⟩ := hgo hroom' go
      rw [BitVec.toNat_sub_of_le hin] at hv
      rw [Ladder.pays_of_emptied hoffer (fillAt_of_quote quote) hsome rfl, hv, hsum, hadd]
      exact ⟨o.toNat + v, rfl, Nat.add_assoc _ _ _⟩
    | taken o f exhausted quote some left_eq out_eq =>
      obtain ⟨hsome, -, hadd, -⟩ := hpaid quote some
      rw [Ladder.pays_of_all hoffer (fillAt_of_quote quote) hsome rfl, out_eq]
      exact ⟨_, rfl, hadd⟩
    | stopped i o f quote some part left_eq out_eq =>
      obtain ⟨hsome, -, hadd, -⟩ := hpaid quote some
      rw [Ladder.pays_of_ended hoffer (fillAt_of_quote quote) hsome rfl, out_eq]
      exact ⟨_, rfl, hadd⟩

end SwapState

namespace MoeLbPair

/-! ## The fallback -/

/-- The ranges of the integer fields that a quote of the fallback reads. -/
structure FieldTypes (pair : MoeLbPair) : Prop where
  reserveX : pair.reserveX < 2 ^ 128
  reserveY : pair.reserveY < 2 ^ 128
  binStep : pair.binStep < 2 ^ 16
  protocolShareBps : pair.protocolShareBps < 2 ^ 16

section

variable (prof : BuildProfile) (pair : MoeLbPair) (baseToken : Address) (amountIn : U256)

/-- What the fallback computes before its check, in exact numbers. -/
def constantProductQuote : Nat :=
  ConstantProduct.quote 1 1 (pair.totalIn (baseToken == pair.tokenX.address))
    (pair.totalOut (baseToken == pair.tokenX.address))
    (amountIn.toNat - amountIn.toNat * (pair.binStep + pair.protocolShareBps) / 10000)

/-- The checks on the output of a quote reject it. -/
def Rejects (timestamp : Nat) : Prop :=
  if pair.bins.entries.isEmpty then
    amountIn.toNat * 1000 < pair.constantProductQuote baseToken amountIn
  else ∃ amountOut pair', pair.simulateSwapPrecise prof (baseToken == pair.tokenX.address) amountIn
    timestamp = (.ok amountOut, pair') ∧
      pair'.isSane (baseToken == pair.tokenX.address) amountIn amountOut = false

end

variable {prof : BuildProfile} {pair pair' : MoeLbPair} {baseToken : Address} {swapForY : Bool}
  {a b amountIn amountOut : U256} {timestamp x y bps : Nat}

/-- The fallback, for the reserves of a direction. -/
def fallback (bps : Nat) (reserveIn reserveOut amountIn : U256) : Outcome AMMError U256 :=
  if reserveIn = 0 ∨ reserveOut = 0 then .ok 0
  else
    let feeAmount := amountIn * BitVec.ofNat 256 bps / 10000#256
    let net := if feeAmount ≤ amountIn then amountIn - feeAmount else 0
    if reserveIn + net = 0 then .error .panic
    else
      let amountOut := net * reserveOut / (reserveIn + net)
      if amountOut > reserveOut ∨ amountOut > amountIn * 1000#256 then .ok 0 else .ok amountOut

/-- The fallback sells one of the two tokens. -/
theorem simulateConstantProduct_eq (pair : MoeLbPair) (baseToken : Address) (amountIn : U256) :
    pair.simulateConstantProduct baseToken amountIn =
      if baseToken = pair.tokenX.address ∨ baseToken = pair.tokenY.address then
        fallback (pair.binStep + pair.protocolShareBps)
          (BitVec.ofNat 256 (pair.totalIn (baseToken == pair.tokenX.address)))
          (BitVec.ofNat 256 (pair.totalOut (baseToken == pair.tokenX.address))) amountIn
      else .ok 0 := by
  unfold simulateConstantProduct
  by_cases hX : baseToken = pair.tokenX.address
  · simp only [hX, ↓reduceIte, true_or, beq_self_eq_true]
    rfl
  · by_cases hY : baseToken = pair.tokenY.address
    · have hne : (baseToken == pair.tokenX.address) = false := beq_eq_false_iff_ne.mpr hX
      rw [if_neg hX, if_pos hY, if_pos (.inr hY), hne]
      rfl
    · rw [if_neg hX, if_neg hY, if_neg (not_or.mpr ⟨hX, hY⟩)]

/-- The arithmetic of the fallback is exact. -/
theorem fallback_toNat (ha : amountIn.toNat < 2 ^ 128) (hx : x < 2 ^ 128) (hy : y < 2 ^ 128)
    (hbps : bps < 2 ^ 17) {net : U256}
    (hnet : net = if amountIn * BitVec.ofNat 256 bps / 10000#256 ≤ amountIn then
      amountIn - amountIn * BitVec.ofNat 256 bps / 10000#256 else 0) :
    (net * BitVec.ofNat 256 y / (BitVec.ofNat 256 x + net)).toNat =
      ConstantProduct.quote 1 1 x y (amountIn.toNat - amountIn.toNat * bps / 10000) := by
  have hprod : amountIn.toNat * bps < 2 ^ 128 * 2 ^ 17 := Nat.mul_lt_mul'' ha hbps
  have hfee : (amountIn * BitVec.ofNat 256 bps / 10000#256).toNat =
      amountIn.toNat * bps / 10000 := by
    rw [BitVec.toNat_udiv, BitVec.toNat_mul, BinHelper.toNat_ofNat_lane (by omega),
      Nat.mod_eq_of_lt (by omega)]
    rfl
  have hval : net.toNat = amountIn.toNat - amountIn.toNat * bps / 10000 := by
    rw [hnet, ← hfee]
    split
    · rename_i hle
      exact BitVec.toNat_sub_of_le hle
    · rename_i hle
      have hlt := BitVec.not_le.mp hle
      exact (Nat.sub_eq_zero_of_le (Nat.le_of_lt hlt)).symm
  have hsmall : net.toNat < 2 ^ 128 := by omega
  have hnum : net.toNat * y < 2 ^ 128 * 2 ^ 128 := Nat.mul_lt_mul'' hsmall hy
  have hden : (BitVec.ofNat 256 x + net).toNat = x + net.toNat := by
    rw [BitVec.toNat_add, BinHelper.toNat_ofNat_lane hx, Nat.mod_eq_of_lt (by omega)]
  rw [BitVec.toNat_udiv, BitVec.toNat_mul, BinHelper.toNat_ofNat_lane hy, hden,
    Nat.mod_eq_of_lt (by omega), hval]
  unfold ConstantProduct.quote
  rw [Nat.mul_one, Nat.mul_one]

/-- The fallback returns nothing for any input, or the exact quote where it passes its check. -/
theorem fallback_cases (hx : x < 2 ^ 128) (hy : y < 2 ^ 128) (hbps : bps < 2 ^ 17) :
    (∀ amountIn, fallback bps (BitVec.ofNat 256 x) (BitVec.ofNat 256 y) amountIn = .ok 0) ∨
      ∀ {amountIn amountOut : U256}, amountIn.toNat < 2 ^ 128 →
        fallback bps (BitVec.ofNat 256 x) (BitVec.ofNat 256 y) amountIn = .ok amountOut →
        amountOut.toNat = if amountIn.toNat * 1000 < ConstantProduct.quote 1 1 x y
            (amountIn.toNat - amountIn.toNat * bps / 10000) then 0
          else ConstantProduct.quote 1 1 x y
            (amountIn.toNat - amountIn.toNat * bps / 10000) := by
  unfold fallback
  by_cases hdry : BitVec.ofNat 256 x = 0 ∨ BitVec.ofNat 256 y = 0
  · left
    intro amountIn
    rw [if_pos hdry]
  · right
    intro amountIn amountOut hin h
    rw [if_neg hdry] at h
    dsimp only at h
    generalize hnet : (if amountIn * BitVec.ofNat 256 bps / 10000#256 ≤ amountIn then
      amountIn - amountIn * BitVec.ofNat 256 bps / 10000#256 else 0) = net at h
    have hquote := fallback_toNat hin hx hy hbps hnet.symm
    have hle : ConstantProduct.quote 1 1 x y (amountIn.toNat - amountIn.toNat * bps / 10000) ≤ y :=
      ConstantProduct.quote_le
    have hthousand : (amountIn * 1000#256).toNat = amountIn.toNat * 1000 := by
      have h1000 : (1000#256).toNat = 1000 := rfl
      rw [BitVec.toNat_mul, h1000, Nat.mod_eq_of_lt (by omega)]
    have hlane := BinHelper.toNat_ofNat_lane hy
    split at h
    · cases h
    · split at h
      · rename_i hover
        cases h
        rw [if_pos]
        · rfl
        · rcases hover with hover | hover
          · have hover' : (BitVec.ofNat 256 y).toNat < _ := hover
            omega
          · have hover' : (amountIn * 1000#256).toNat < _ := hover
            omega
      · rename_i hover
        cases h
        have hfair : ¬ (amountIn * 1000#256).toNat < _ := fun h => hover (.inr h)
        rw [if_neg (by omega), hquote]

/-- **A quote of a pair without bins** is nothing for any input, or the exact quote where it passes
its check. -/
theorem simulateConstantProduct_cases (hpair : pair.FieldTypes) (baseToken : Address) :
    (∀ amountIn, pair.simulateConstantProduct baseToken amountIn = .ok 0) ∨
      ∀ {amountIn amountOut : U256}, amountIn.toNat < 2 ^ 128 →
        pair.simulateConstantProduct baseToken amountIn = .ok amountOut →
        amountOut.toNat = if amountIn.toNat * 1000 < pair.constantProductQuote baseToken amountIn
          then 0 else pair.constantProductQuote baseToken amountIn := by
  have hstep := hpair.binStep
  have hshare := hpair.protocolShareBps
  simp only [simulateConstantProduct_eq]
  split
  · apply fallback_cases _ _ (by omega)
    · unfold totalIn
      split
      · exact hpair.reserveX
      · exact hpair.reserveY
    · unfold totalOut
      split
      · exact hpair.reserveY
      · exact hpair.reserveX
  · exact .inl fun _ => rfl

/-! ## The calls -/

section

variable (prof : BuildProfile) (pair : MoeLbPair) (swapForY : Bool) (timestamp : Nat)

/-- What the levels of a pair pay for an input. -/
def levelsPay (amountIn : U256) : Option Nat :=
  Ladder.pays (pair.fillAt prof swapForY timestamp) (idsFrom swapForY MAX_ITERATIONS pair.activeId)
    amountIn.toNat

/-- Where a swap of `a` passes a bin by, as it pays nothing for what is left, that bin pays nothing
for `b - a` more either. -/
def passesTogether (a b : U256) : Bool :=
  Ladder.passesTogether (pair.fillAt prof swapForY timestamp) (b.toNat - a.toNat)
    (idsFrom swapForY MAX_ITERATIONS pair.activeId) a.toNat

end

/-- A swap through the bins pays what the levels pay. -/
theorem levelsPay_eq (hbins : ¬ pair.bins.entries.isEmpty)
    (h : pair.simulateSwapPrecise prof swapForY amountIn timestamp = (.ok amountOut, pair')) :
    pair.levelsPay prof swapForY timestamp amountIn = some amountOut.toNat := by
  rw [simulateSwapPrecise_eq hbins] at h
  rcases hloop : SwapState.loop prof swapForY MAX_ITERATIONS (pair.startSwap amountIn timestamp)
    pair with ⟨e | s, pair₁⟩
  · rw [hloop] at h
    cases h
  · rw [hloop] at h
    cases h
    have hzero : (pair.startSwap amountIn timestamp).amountOut.toNat = 0 := rfl
    have hroom : (pair.startSwap amountIn timestamp).amountOut.toNat + 2 ^ 64 * MAX_ITERATIONS <
        2 ^ 256 := by
      rw [hzero]
      decide
    obtain ⟨v, hv, hout⟩ := SwapState.onWalk_start.pays_eq hroom hloop
    rw [hout, hzero, Nat.zero_add]
    exact hv

/-- A guarded swap returns nothing for any input, or what the swap itself pays, unless the sanity
checks reject that. -/
theorem simulateSwapAcrossBins_cases (prof : BuildProfile) (pair : MoeLbPair) (swapForY : Bool)
    (timestamp : Nat) :
    (∀ amountIn, (pair.simulateSwapAcrossBins prof swapForY amountIn timestamp).1 = .ok 0) ∨
      ∀ {amountIn amountOut : U256}, amountIn ≠ 0 →
        (pair.simulateSwapAcrossBins prof swapForY amountIn timestamp).1 = .ok amountOut →
        ∃ paid pair', pair.simulateSwapPrecise prof swapForY amountIn timestamp =
            (.ok paid, pair') ∧
          amountOut = if pair'.isSane swapForY amountIn paid then paid else 0 := by
  unfold simulateSwapAcrossBins
  by_cases hguard : (pair.reserveX = 0 ∨ pair.reserveY = 0) ∨
      pair.reserveX > MAX_REASONABLE_RESERVE ∨ pair.reserveY > MAX_REASONABLE_RESERVE
  · left
    intro amountIn
    split
    · rfl
    · rcases hguard with hdry | hlarge
      · rw [if_pos hdry]
      · rw [if_pos hlarge]
        split
        · rfl
        · rfl
  · right
    intro amountIn amountOut hin h
    obtain ⟨hdry, hlarge⟩ := not_or.mp hguard
    rw [if_neg hin, if_neg hdry, if_neg hlarge] at h
    rcases hrun : pair.simulateSwapPrecise prof swapForY amountIn timestamp with ⟨e | paid, pair₁⟩
    · rw [hrun] at h
      cases h
    · rw [hrun] at h
      refine ⟨paid, pair₁, rfl, ?_⟩
      dsimp only at h
      split at h
      · rename_i hsane
        cases h
        rw [if_pos hsane]
      · rename_i hsane
        cases h
        rw [if_neg hsane]

/-- **What the bins pay grows with the input**, up to one limb. -/
theorem simulateSwapPrecise_mono {paid paid' : U256} {pair₁ pair₂ : MoeLbPair}
    (hbins : ¬ pair.bins.entries.isEmpty) (hle : a.toNat ≤ b.toNat) (hb : b.toNat < 2 ^ 64)
    (htogether : pair.passesTogether prof swapForY timestamp a b = true)
    (h : pair.simulateSwapPrecise prof swapForY a timestamp = (.ok paid, pair₁))
    (h' : pair.simulateSwapPrecise prof swapForY b timestamp = (.ok paid', pair₂)) :
    paid.toNat ≤ paid'.toNat := by
  have hpays := levelsPay_eq hbins h
  have hpays' := levelsPay_eq hbins h'
  unfold levelsPay at hpays hpays'
  unfold passesTogether at htogether
  have hlevels : ∀ id, Ladder.Rising (2 ^ 64) (pair.fillAt prof swapForY timestamp id) :=
    fun _ => fillAt_rising
  exact Ladder.pays_mono hlevels hle hb htogether hpays hpays'

/-- Of two amounts in order, the larger of which may be replaced by nothing. -/
theorem le_filtered_iff {outA outB paid paid' : Nat} {rejected : Prop} [Decidable rejected]
    (hA : outA ≤ paid) (hle : paid ≤ paid') (hB : outB = if rejected then 0 else paid') :
    outA ≤ outB ↔ (rejected → outA = 0) := by
  split at hB
  · rename_i hrejected
    constructor
    · intro h _
      omega
    · intro h
      rw [h hrejected]
      exact Nat.zero_le _
  · rename_i hkept
    exact ⟨fun _ hrejected => absurd hrejected hkept, fun _ => by omega⟩

theorem simulateConstantProduct_mono_iff (hpair : pair.FieldTypes) (hle : a.toNat ≤ b.toNat)
    (hb : b.toNat < 2 ^ 128) {outA outB : U256}
    (hA : pair.simulateConstantProduct baseToken a = .ok outA)
    (hB : pair.simulateConstantProduct baseToken b = .ok outB) :
    outA.toNat ≤ outB.toNat ↔
      (b.toNat * 1000 < pair.constantProductQuote baseToken b → outA.toNat = 0) := by
  rcases simulateConstantProduct_cases hpair baseToken with hoff | hon
  · rw [hoff] at hA
    cases hA
    exact ⟨fun _ _ => rfl, fun _ => Nat.zero_le _⟩
  · have hmono : pair.constantProductQuote baseToken a ≤ pair.constantProductQuote baseToken b :=
      ConstantProduct.quote_mono (ConstantProduct.sub_fee_mono (by decide) hle)
    apply le_filtered_iff _ hmono (hon hb hB)
    rw [hon (Nat.lt_of_le_of_lt hle hb) hA]
    split
    · exact Nat.zero_le _
    · exact Nat.le_refl _

open Classical in
theorem simulateSwapAcrossBins_mono_iff (hbins : ¬ pair.bins.entries.isEmpty) (ha : a ≠ 0)
    (hb : b ≠ 0) (hle : a.toNat ≤ b.toNat) (hlimb : b.toNat < 2 ^ 64)
    (htogether : pair.passesTogether prof swapForY timestamp a b = true) {outA outB : U256}
    (hA : (pair.simulateSwapAcrossBins prof swapForY a timestamp).1 = .ok outA)
    (hB : (pair.simulateSwapAcrossBins prof swapForY b timestamp).1 = .ok outB) :
    outA.toNat ≤ outB.toNat ↔
      ((∃ paid pair', pair.simulateSwapPrecise prof swapForY b timestamp = (.ok paid, pair') ∧
        pair'.isSane swapForY b paid = false) → outA.toNat = 0) := by
  rcases simulateSwapAcrossBins_cases prof pair swapForY timestamp with hoff | hon
  · rw [hoff] at hA
    cases hA
    exact ⟨fun _ _ => rfl, fun _ => Nat.zero_le _⟩
  · obtain ⟨paid, pair₁, hrun, hout⟩ := hon ha hA
    obtain ⟨paid', pair₂, hrun', hout'⟩ := hon hb hB
    have hmono := simulateSwapPrecise_mono hbins hle hlimb htogether hrun hrun'
    have hrejects : (∃ paid pair', pair.simulateSwapPrecise prof swapForY b timestamp =
        (.ok paid, pair') ∧ pair'.isSane swapForY b paid = false) ↔
          pair₂.isSane swapForY b paid' = false := by
      rw [hrun']
      constructor
      · rintro ⟨p, q, heq, hinsane⟩
        cases heq
        exact hinsane
      · intro hinsane
        exact ⟨paid', pair₂, rfl, hinsane⟩
    rw [hrejects]
    apply le_filtered_iff _ hmono
    · rw [hout']
      cases pair₂.isSane swapForY b paid' with
      | true => rfl
      | false => rfl
    · rw [hout]
      split
      · exact Nat.le_refl _
      · exact Nat.zero_le _

/-- **A larger input is quoted no less, exactly where its output is not rejected**, unless the
smaller is quoted nothing; through the bins, for inputs of one limb of which the smaller passes by
no bin that pays for the larger. -/
theorem simulateSwapWithTimestamp_mono_iff (hpair : pair.FieldTypes) (hle : a ≤ b)
    (hb : b.toNat < 2 ^ 128)
    (hbins : ¬ pair.bins.entries.isEmpty → b.toNat < 2 ^ 64 ∧
      pair.passesTogether prof (baseToken == pair.tokenX.address) timestamp a b = true)
    {outA outB : U256}
    (hA : pair.simulateSwapWithTimestamp prof baseToken a timestamp = .ok outA)
    (hB : pair.simulateSwapWithTimestamp prof baseToken b timestamp = .ok outB) :
    outA ≤ outB ↔ (pair.Rejects prof baseToken b timestamp → outA = 0) := by
  have hzero : outA = 0 ↔ outA.toNat = 0 :=
    ⟨fun h => congrArg BitVec.toNat h, fun h => BitVec.eq_of_toNat_eq h⟩
  rw [hzero, BitVec.le_def]
  unfold simulateSwapWithTimestamp at hA hB
  by_cases ha : a = 0
  · rw [if_pos ha] at hA
    cases hA
    exact ⟨fun _ _ => rfl, fun _ => Nat.zero_le _⟩
  have hb0 : b ≠ 0 := by
    rintro rfl
    exact ha (BitVec.eq_of_toNat_eq (Nat.eq_zero_of_le_zero hle))
  rw [if_neg ha] at hA
  rw [if_neg hb0] at hB
  unfold Rejects
  cases hempty : pair.bins.entries.isEmpty with
  | true =>
    simp only [hempty, Bool.not_true, Bool.false_eq_true, ↓reduceIte] at hA hB ⊢
    exact simulateConstantProduct_mono_iff hpair hle hb hA hB
  | false =>
    simp only [hempty, Bool.not_false, Bool.false_eq_true, ↓reduceIte] at hA hB ⊢
    have hsome : ¬ pair.bins.entries.isEmpty := by simp [hempty]
    obtain ⟨hlimb, htogether⟩ := hbins hsome
    exact simulateSwapAcrossBins_mono_iff hsome ha hb0 hle hlimb htogether hA hB

/-- Both inputs empty the active bin and take a part of the next one. -/
theorem simulateSwapWithTimestamp_mono_iff_twoBinPair :
    (1199198 : U256) ≤ 1498748 ↔
      (twoBinPair.Rejects ⟨true⟩ 2 1500000 100 → (1199198 : U256) = 0) :=
  simulateSwapWithTimestamp_mono_iff ⟨by decide, by decide, by decide, by decide⟩ (by decide)
    (by decide) (fun _ => ⟨by decide, by decide +kernel⟩)
    (by decide +kernel : twoBinPair.simulateSwapWithTimestamp ⟨true⟩ 2 1200000 100 = .ok 1199198)
    (by decide +kernel : twoBinPair.simulateSwapWithTimestamp ⟨true⟩ 2 1500000 100 = .ok 1498748)

/-- A pair with one bin at a price of 100.4. -/
def dearPair : MoeLbPair :=
  feeless 25 (2 ^ 23 + 1846) (10 ^ 6) (10 ^ 9) ((∅ : HashMap Nat BinReserve).insert (2 ^ 23 + 1846)
    ⟨10 ^ 6, 10 ^ 9⟩)

/-- A pair whose active bin, at price 16, takes a fee, and the bin below, at price 8, none. -/
def steepPair : MoeLbPair :=
  { feeless 10000 (2 ^ 23 + 4) 1001 1001 (((∅ : HashMap Nat BinReserve).insert (2 ^ 23 + 4)
      ⟨1, 1⟩).insert (2 ^ 23 + 3) ⟨1000, 1000⟩) with
    variableFeeControl := 1
    idReference := 2 ^ 23 + 3 }

/-- Quotes that fall: a third unit is more than a hundredfold and rejected; a first unit is all fee
in the active bin and passes on to the next, which a second one does not reach; and a bin reads the
low limb of its input. -/
theorem quotes_fall :
    (dearPair.simulateSwapWithTimestamp ⟨true⟩ 2 1 0 = .ok 100 ∧
      dearPair.simulateSwapWithTimestamp ⟨true⟩ 2 3 0 = .ok 0) ∧
    (steepPair.simulateSwapWithTimestamp ⟨true⟩ 2 1 0 = .ok 8 ∧
      steepPair.simulateSwapWithTimestamp ⟨true⟩ 2 2 0 = .ok 1) ∧
    (thinPair.simulateSwapWithTimestamp ⟨true⟩ 2 2000 0 = .ok 2000 ∧
      thinPair.simulateSwapWithTimestamp ⟨true⟩ 2 (2 ^ 64 + 1000) 0 = .ok 1000) := by
  decide +kernel

/-- Not every larger input is quoted no less. -/
theorem simulateSwapWithTimestamp_falls : ¬ ∀ (prof : BuildProfile) (pair : MoeLbPair)
    (baseToken : Address) (timestamp : Nat) (a b outA outB : U256), a ≤ b → b.toNat < 2 ^ 128 →
    pair.simulateSwapWithTimestamp prof baseToken a timestamp = .ok outA →
    pair.simulateSwapWithTimestamp prof baseToken b timestamp = .ok outB → outA ≤ outB := by
  intro hall
  obtain ⟨⟨hone, hthree⟩, -⟩ := quotes_fall
  exact absurd (hall ⟨true⟩ dearPair 2 0 1 3 100 0 (by decide) (by decide) hone hthree) (by decide)

end MoeLbPair

end ArbitrageBot
