import ArbitrageBot.Amms.Moe.Atomicity
import ArbitrageBot.Amms.Moe.Reserves
import ArbitrageBot.Amms.Moe.Walk

/-!
# Moe liquidity-book pairs: what a swap delivers

A walk over the bins of the pair before the swap that takes the whole input, with what stays in the
pair and what is paid. The loop of `simulate_swap_precise` pays the same, if the totals of the pair
bear it.
-/

namespace ArbitrageBot

open Lib Moe

namespace MoeLbPair

section

variable (prof : BuildProfile) (pair : MoeLbPair) (swapForY : Bool) (timestamp : Nat)

/-- What stays in the pair of the input `i` of the bin of `id`, with the fee `f`. -/
def netAt (id : Nat) (i f : U256) : Nat := netIn (pair.parametersAt timestamp id) i f

/-- The bin of `id` can move `i` in, with the fee `f`, and `o` out. -/
structure HasRoom (id : Nat) (i o f : U256) : Prop where
  fee_le : ((pair.parametersAt timestamp id).protocolFeeAmountU256 f).toNat ≤ i.toNat
  bin : ∃ bin, pair.bins.lookup id = some bin ∧
    bin.reserveIn swapForY + pair.netAt timestamp id i f < 2 ^ 128 ∧
    o.toNat ≤ bin.reserveOut swapForY

/-- The walk from `id` takes all of `left` within some loops: so much stays in the pair, and so much
is paid. -/
inductive Delivers : Nat → Nat → U256 → Nat → Nat → Prop
  | taken {loops id : Nat} {left o f : U256} {exhausted : Bool}
      (quote : pair.quoteAt prof swapForY timestamp id left = .ok (left, o, f, exhausted))
      (some : o ≠ 0) (room : pair.HasRoom swapForY timestamp id left o f) :
      Delivers (loops + 1) id left (pair.netAt timestamp id left f) o.toNat
  | emptied {loops id net out : Nat} {left i o f : U256}
      (quote : pair.quoteAt prof swapForY timestamp id left = .ok (i, o, f, true))
      (some : o ≠ 0) (room : pair.HasRoom swapForY timestamp id i o f) (part : i < left)
      (next : nextId id swapForY ≠ id)
      (rest : Delivers loops (nextId id swapForY) (left - i) net out) :
      Delivers (loops + 1) id left (pair.netAt timestamp id i f + net) (o.toNat + out)
  | passed {loops id net out : Nat} {left i f : U256} {exhausted : Bool}
      (quote : pair.quoteAt prof swapForY timestamp id left = .ok (i, 0, f, exhausted))
      (next : nextId id swapForY ≠ id)
      (rest : Delivers loops (nextId id swapForY) left net out) :
      Delivers (loops + 1) id left net out

end

variable {prof : BuildProfile} {pair : MoeLbPair} {swapForY : Bool} {timestamp id : Nat}
  {left : U256}

theorem Delivers.out_pos {loops net out : Nat}
    (h : pair.Delivers prof swapForY timestamp loops id left net out) : 0 < out := by
  induction h with
  | taken quote some room =>
    exact BitVec.toNat_pos_of_ne_zero some
  | emptied quote some room part next rest ih => exact Nat.lt_of_lt_of_le ih (Nat.le_add_left _ _)
  | passed quote next rest ih => exact ih

/-- A walk that pays finds a bin. -/
theorem Delivers.bins_ne_nil {loops net out : Nat}
    (h : pair.Delivers prof swapForY timestamp loops id left net out) :
    ¬ pair.bins.entries.isEmpty := by
  have hbin : ∀ {id bin}, pair.bins.lookup id = some bin → ¬ pair.bins.entries.isEmpty := by
    intro id bin hlookup hempty
    unfold AList.lookup at hlookup
    rw [List.isEmpty_iff.mp hempty] at hlookup
    cases hlookup
  induction h with
  | taken quote some room =>
    obtain ⟨bin, hlookup, -⟩ := room.bin
    exact hbin hlookup
  | emptied quote some room part next rest ih => exact ih
  | passed quote next rest ih => exact ih

end MoeLbPair

namespace SwapState

open MoeLbPair

variable {prof : BuildProfile} {start pair : MoeLbPair} {swapForY : Bool} {timestamp : Nat}
  {s : SwapState} {bin : BinReserve} {i o f : U256} {exhausted : Bool} {loops net out : Nat}

/-- A bin that pays nothing is passed by. -/
theorem round_of_idle (hbin : pair.bins.lookup s.currentId = some bin)
    (h : pair.computeBinSwap prof s.atBin.parameters s.currentId swapForY s.amountLeft =
      .ok (i, 0, f, exhausted)) :
    s.round prof swapForY pair = (.ok (s.atBin.advance swapForY), pair) := by
  generalize hr : simulateSingleBin prof s.atBin.parameters s.currentId swapForY s.amountLeft pair =
    result at *
  have hcases := hr ▸ simulateSingleBin_cases hbin
  rw [round_of_some hbin hr]
  cases hcases with
  | failed e amounts =>
    rw [h] at amounts
    cases amounts
  | idle i f exhausted amounts =>
    dsimp only [Except.map]
    rw [settle_idle]
  | refused i o f exhausted e amounts some checks =>
    rw [h] at amounts
    cases amounts
    exact absurd rfl some
  | broken i o f exhausted e amounts some checks last =>
    rw [h] at amounts
    cases amounts
    exact absurd rfl some
  | paid i o f exhausted amounts some checks last =>
    rw [h] at amounts
    cases amounts
    exact absurd rfl some

/-- A bin that pays does so when the total of the token that is bought bears it. -/
theorem round_of_pays (h : s.Pays prof swapForY pair bin i o f exhausted)
    (hlast : o.toNat ≤ pair.totalOut swapForY) :
    s.round prof swapForY pair =
      (.ok (s.atBin.settle swapForY
        ⟨i, o, f, s.atBin.parameters.protocolFeeAmountU256 f, exhausted⟩),
        s.pairPaid swapForY pair bin i o f) := by
  generalize hr : simulateSingleBin prof s.atBin.parameters s.currentId swapForY s.amountLeft pair =
    result at *
  have hcases := hr ▸ simulateSingleBin_cases h.lookup
  rw [round_of_some h.lookup hr]
  cases hcases with
  | failed e amounts =>
    rw [h.amounts] at amounts
    cases amounts
  | idle i f exhausted amounts =>
    rw [h.amounts] at amounts
    cases amounts
    exact absurd rfl h.some
  | refused i o f exhausted e amounts some checks =>
    rw [h.amounts] at amounts
    cases amounts
    exact absurd h.checks checks
  | broken i o f exhausted e amounts some checks last =>
    rw [h.amounts] at amounts
    cases amounts
    exact absurd hlast last
  | paid i o f exhausted amounts some checks last =>
    rw [h.amounts] at amounts
    cases amounts
    rfl

/-- A bin that has room pays on the walk, if the total of the token that is sold bears it. -/
theorem OnWalk.pays (h : OnWalk start swapForY timestamp s pair)
    (hquote : start.quoteAt prof swapForY timestamp s.currentId s.amountLeft =
      .ok (i, o, f, exhausted)) (hsome : o ≠ 0)
    (hroom : start.HasRoom swapForY timestamp s.currentId i o f)
    (htotal : pair.totalIn swapForY + start.netAt timestamp s.currentId i f < 2 ^ 128) :
    ∃ bin, s.Pays prof swapForY pair bin i o f exhausted ∧
      netIn s.atBin.parameters i f = start.netAt timestamp s.currentId i f := by
  have hparams : s.atBin.parameters = start.parametersAt timestamp s.currentId :=
    h.parameters s.currentId
  obtain ⟨bin, hbin, hin, hout⟩ := hroom.bin
  refine ⟨bin, ?_, by rw [hparams]; rfl⟩
  exact {
    lookup := h.here.trans hbin
    amounts := h.quote.trans hquote
    some := hsome
    checks := by
      rw [hparams]
      exact ⟨hroom.fee_le, hin, hout, htotal⟩ }

/-- A loop at a bin that pays nothing goes on at the next id. -/
theorem OnWalk.loop_passed (h : OnWalk start swapForY timestamp s pair) (hleft : s.amountLeft ≠ 0)
    (hquote : start.quoteAt prof swapForY timestamp s.currentId s.amountLeft =
      .ok (i, 0, f, exhausted)) (hnext : nextId s.currentId swapForY ≠ s.currentId) :
    ∃ t, OnWalk start swapForY timestamp t pair ∧ t.currentId = nextId s.currentId swapForY ∧
      t.amountLeft = s.amountLeft ∧ t.amountOut = s.amountOut ∧
      ∀ loops, loop prof swapForY (loops + 1) s pair = loop prof swapForY loops t pair := by
  have hround : ∃ t, SamePlace s t ∧ t.amountLeft = s.amountLeft ∧ t.amountOut = s.amountOut ∧
      s.round prof swapForY pair = (.ok (t.advance swapForY), pair) := by
    cases hbin : pair.bins.lookup s.currentId with
    | none => exact ⟨s, .refl s, rfl, rfl, round_of_none hbin⟩
    | some bin =>
      exact ⟨s.atBin, samePlace_atBin s, rfl, rfl, round_of_idle hbin (h.quote.trans hquote)⟩
  obtain ⟨t, hplace, htleft, htout, hround⟩ := hround
  have hgo := fun loops => h.loop_advance loops hleft hplace (fun _ _ => rfl) rfl hround
  rcases hgo 0 with ⟨hend, -⟩ | ⟨-, hcurrent, hwalk, -⟩
  · exact absurd hend hnext
  · refine ⟨t.passed swapForY, hwalk, hcurrent, htleft, htout, fun loops => ?_⟩
    rcases hgo loops with ⟨hend, -⟩ | ⟨-, -, -, hloop⟩
    · exact absurd hend hnext
    · exact hloop

/-- A loop at a bin that is emptied goes on at the next id with the rest. -/
theorem OnWalk.loop_emptied (h : OnWalk start swapForY timestamp s pair) (hleft : s.amountLeft ≠ 0)
    (hpays : s.Pays prof swapForY pair bin i o f true) (hlast : o.toNat ≤ pair.totalOut swapForY)
    (hpart : i < s.amountLeft) (hnext : nextId s.currentId swapForY ≠ s.currentId)
    (hsum : s.amountOut.toNat + o.toNat < 2 ^ 256) :
    ∃ t pair₁, OnWalk start swapForY timestamp t pair₁ ∧
      t.currentId = nextId s.currentId swapForY ∧ t.amountLeft = s.amountLeft - i ∧
      t.amountLeft ≠ 0 ∧ t.amountOut.toNat = s.amountOut.toNat + o.toNat ∧
      pair₁.totalIn swapForY = pair.totalIn swapForY + netIn s.atBin.parameters i f ∧
      pair₁.totalOut swapForY = pair.totalOut swapForY - o.toNat ∧
      ∀ loops, loop prof swapForY (loops + 1) s pair = loop prof swapForY loops t pair₁ := by
  have hround := round_of_pays hpays hlast
  rw [settle_part (s := s.atBin) hpays.some hpart] at hround
  dsimp only at hround
  rw [if_pos rfl] at hround
  have hgo := fun loops => h.loop_advance loops hleft (samePlace_afterPart s i o)
    (fun id hid => paid_lookup hid) (paid_binStep _ _ _ _ _ _) hround
  rcases hgo 0 with ⟨hend, -⟩ | ⟨-, hcurrent, hwalk, -⟩
  · exact absurd hend hnext
  · refine ⟨_, _, hwalk, hcurrent, rfl, sub_ne_zero_of_lt hpart, @toNat_addOut s.amountOut o hsum,
      paid_totalIn pair swapForY s.currentId bin _ _,
      paid_totalOut pair swapForY s.currentId bin _ _, fun loops => ?_⟩
    rcases hgo loops with ⟨hend, -⟩ | ⟨-, -, -, hloop⟩
    · exact absurd hend hnext
    · exact hloop

/-- **The loop pays what the walk delivers**, when the totals of the pair bear it. -/
theorem OnWalk.loop_delivers {id : Nat} {left : U256}
    (hdelivers : start.Delivers prof swapForY timestamp loops id left net out)
    (h : OnWalk start swapForY timestamp s pair) (hid : s.currentId = id)
    (hleft : s.amountLeft = left) (hsome : left ≠ 0)
    (hin : pair.totalIn swapForY + net < 2 ^ 128) (hout : out ≤ pair.totalOut swapForY)
    (hsum : s.amountOut.toNat + out < 2 ^ 256) :
    ∃ s' pair', loop prof swapForY loops s pair = (.ok s', pair') ∧
      s'.amountOut.toNat = s.amountOut.toNat + out := by
  induction hdelivers generalizing s pair with
  | @taken loops id left o f exhausted quote some room =>
    subst hid hleft
    obtain ⟨bin, hpays, -⟩ := h.pays quote some room hin
    have hround := round_of_pays hpays hout
    rw [settle_all (s := s.atBin) some hsome rfl] at hround
    exact ⟨_, _, loop_of_done hsome hround, toNat_addOut hsum⟩
  | @emptied loops id net out left i o f quote some room part next rest ih =>
    subst hid hleft
    obtain ⟨bin, hpays, hnet⟩ := h.pays quote some room (by omega)
    obtain ⟨t, pair₁, hwalk, hcurrent, hrest, hne, hpaid, htotalIn, htotalOut, hloop⟩ :=
      h.loop_emptied hsome hpays (by omega) part next (by omega)
    obtain ⟨s', pair', hrun, hamount⟩ := ih hwalk hcurrent hrest (hrest ▸ hne) (by omega)
      (by omega) (by omega)
    rw [hloop]
    exact ⟨s', pair', hrun, by omega⟩
  | @passed loops id net out left i f exhausted quote next rest ih =>
    subst hid hleft
    obtain ⟨t, hwalk, hcurrent, hrest, hkept, hloop⟩ := h.loop_passed hsome quote next
    obtain ⟨s', pair', hrun, hamount⟩ := ih hwalk hcurrent hrest hsome hin hout (hkept ▸ hsum)
    rw [hloop]
    exact ⟨s', pair', hrun, hkept ▸ hamount⟩

/-- A round that returns at a bin that pays has passed the checks of the payment. -/
theorem OnWalk.pays_of_round {r : ForInStep SwapState} {pair₁ : MoeLbPair}
    (h : OnWalk start swapForY timestamp s pair)
    (hquote : start.quoteAt prof swapForY timestamp s.currentId s.amountLeft =
      .ok (i, o, f, exhausted)) (hsome : o ≠ 0)
    (hround : s.round prof swapForY pair = (.ok r, pair₁)) :
    ∃ bin, s.Pays prof swapForY pair bin i o f exhausted ∧ o.toNat ≤ pair.totalOut swapForY ∧
      pair.totalIn swapForY + start.netAt timestamp s.currentId i f < 2 ^ 128 ∧
      netIn s.atBin.parameters i f = start.netAt timestamp s.currentId i f := by
  have hparams : s.atBin.parameters = start.parametersAt timestamp s.currentId :=
    h.parameters s.currentId
  have hamounts : pair.computeBinSwap prof s.atBin.parameters s.currentId swapForY s.amountLeft =
      .ok (i, o, f, exhausted) := h.quote.trans hquote
  rcases round_eq_ok hround with
    ⟨hnone, -, -⟩ | ⟨bin, i', f', exhausted', -, hidle, -, -⟩ |
    ⟨bin, i', o', f', exhausted', hpays, hlast, -, -⟩
  · rw [h.quote_of_none hnone] at hquote
    cases hquote
    exact absurd rfl hsome
  · rw [hidle] at hamounts
    cases hamounts
    exact absurd rfl hsome
  · have hsame := hpays.amounts
    rw [hamounts] at hsame
    cases hsame
    have htotal := hpays.checks.2.2.2
    rw [hparams] at htotal ⊢
    exact ⟨bin, hpays, hlast, htotal, rfl⟩

/-- **A loop that pays what a longer walk delivers** has walked to its end, and the totals of the
pair bear it. -/
theorem OnWalk.delivers_of_loop {n id : Nat} {left : U256} {s' : SwapState} {pair' : MoeLbPair}
    (hdelivers : start.Delivers prof swapForY timestamp n id left net out)
    (h : OnWalk start swapForY timestamp s pair) (hid : s.currentId = id)
    (hleft : s.amountLeft = left) (hsome : left ≠ 0) (hsum : s.amountOut.toNat + out < 2 ^ 256)
    (hloop : loop prof swapForY loops s pair = (.ok s', pair'))
    (hpaid : s'.amountOut.toNat = s.amountOut.toNat + out) :
    start.Delivers prof swapForY timestamp loops id left net out ∧
      pair.totalIn swapForY + net < 2 ^ 128 ∧ out ≤ pair.totalOut swapForY := by
  induction hdelivers generalizing loops s pair with
  | @taken n id left o f exhausted quote some room =>
    subst hid hleft
    cases loops with
    | zero =>
      cases hloop
      exact absurd (BitVec.eq_of_toNat_eq (y := 0#256) (by rw [BitVec.toNat_zero]; omega)) some
    | succ loops =>
      rcases hround : s.round prof swapForY pair with ⟨e | r, pair₁⟩
      · rw [loop_of_error hsome hround] at hloop
        cases hloop
      · obtain ⟨bin, -, hlast, htotal, -⟩ := h.pays_of_round quote some hround
        exact ⟨.taken quote some room, htotal, hlast⟩
  | @emptied n id net out left i o f quote some room part next rest ih =>
    subst hid hleft
    cases loops with
    | zero =>
      cases hloop
      exact absurd (BitVec.eq_of_toNat_eq (y := 0#256) (by rw [BitVec.toNat_zero]; omega)) some
    | succ loops =>
      rcases hround : s.round prof swapForY pair with ⟨e | r, pair₁⟩
      · rw [loop_of_error hsome hround] at hloop
        cases hloop
      · obtain ⟨bin, hpays, hlast, htotal, hnet⟩ := h.pays_of_round quote some hround
        obtain ⟨t, pair₁, hwalk, hcurrent, hrest, hne, htout, htotalIn, htotalOut, hstep⟩ :=
          h.loop_emptied hsome hpays hlast part next (by omega)
        rw [hstep] at hloop
        obtain ⟨hdel, hin, hout⟩ := ih hwalk hcurrent hrest (hrest ▸ hne) (by omega) hloop
          (by omega)
        exact ⟨.emptied quote some room part next hdel, by omega, by omega⟩
  | @passed n id net out left i f exhausted quote next rest ih =>
    subst hid hleft
    cases loops with
    | zero =>
      cases hloop
      have hpos := rest.out_pos
      omega
    | succ loops =>
      obtain ⟨t, hwalk, hcurrent, hrest, hkept, hstep⟩ := h.loop_passed hsome quote next
      rw [hstep] at hloop
      obtain ⟨hdel, hin, hout⟩ := ih hwalk hcurrent hrest hsome (hkept ▸ hsum) hloop (hkept ▸ hpaid)
      exact ⟨.passed quote next hdel, hin, hout⟩

end SwapState

/-- **A swap returns what its walk delivers** when the walk ends within `MAX_ITERATIONS` ids and the
totals of the pair bear it, and otherwise it does not. -/
theorem MoeLbPair.simulateSwapPrecise_delivers_iff {prof : BuildProfile} {pair : MoeLbPair}
    {swapForY : Bool} {timestamp n net out : Nat} {amountIn : U256}
    (hdelivers : pair.Delivers prof swapForY timestamp n pair.activeId amountIn net out)
    (hbins : ¬ pair.bins.entries.isEmpty) (hsome : amountIn ≠ 0) (hlt : out < 2 ^ 256) :
    (pair.simulateSwapPrecise prof swapForY amountIn timestamp).1 = .ok (BitVec.ofNat 256 out) ↔
      pair.Delivers prof swapForY timestamp MAX_ITERATIONS pair.activeId amountIn net out ∧
        pair.totalIn swapForY + net < 2 ^ 128 ∧ out ≤ pair.totalOut swapForY := by
  have hwalk : SwapState.OnWalk pair swapForY timestamp (pair.startSwap amountIn timestamp) pair :=
    SwapState.onWalk_start
  have hzero : (pair.startSwap amountIn timestamp).amountOut.toNat = 0 := rfl
  have htoNat : (BitVec.ofNat 256 out).toNat = out := by
    rw [BitVec.toNat_ofNat, Nat.mod_eq_of_lt hlt]
  rw [simulateSwapPrecise_eq hbins]
  constructor
  · intro h
    rcases hloop : SwapState.loop prof swapForY MAX_ITERATIONS
      (pair.startSwap amountIn timestamp) pair with ⟨e | s', pair'⟩
    · rw [hloop] at h
      cases h
    · rw [hloop] at h
      dsimp only at h
      have hpaid : s'.amountOut.toNat =
          (pair.startSwap amountIn timestamp).amountOut.toNat + out := by
        rw [Except.ok.inj h, htoNat, hzero, Nat.zero_add]
      exact hwalk.delivers_of_loop hdelivers rfl rfl hsome (by omega) hloop hpaid
  · intro ⟨hdel, hin, hout⟩
    obtain ⟨s', pair', hloop, hpaid⟩ := SwapState.OnWalk.loop_delivers hdel hwalk rfl rfl hsome hin
      hout (by omega)
    have hval : s'.amountOut = BitVec.ofNat 256 out := by
      apply BitVec.eq_of_toNat_eq
      rw [hpaid, htoNat, hzero, Nat.zero_add]
    rw [hloop]
    dsimp only
    rw [hval]

end ArbitrageBot
