import ArbitrageBot.Amms.Moe.Walk

/-!
# Moe liquidity-book pairs: what a failed swap leaves

Until a bin pays, a swap only reads the pair: every bin that it passes by is quoted the whole input
on the pair as it was. From the first payment on the pair is changed for good, since the total of
the token that is bought only falls. So a swap that fails left the pair alone exactly when the first
bin that was not passed by did not begin a payment.
-/

namespace ArbitrageBot

open Lib Moe

namespace MoeLbPair

/-! ## The walk before any payment -/

section

variable (prof : BuildProfile) (pair : MoeLbPair) (swapForY : Bool) (amountIn : U256)
  (timestamp : Nat)

/-- The `k`-th id of the walk. -/
def walkId (k : Nat) : Nat := (nextId · swapForY)^[k] pair.activeId

/-- The bin of an id pays nothing for the whole input. -/
def PassesBy (id : Nat) : Prop :=
  ∃ i f exhausted, pair.computeBinSwap prof (pair.parametersAt timestamp id) id swapForY amountIn =
    .ok (i, 0, f, exhausted)

/-- The bin of an id pays for the whole input: its first checks hold, and it gets as far as a total
that changes. -/
def BeginsPayment (id : Nat) : Prop :=
  ∃ bin i o f exhausted, pair.bins.lookup id = some bin ∧
    pair.computeBinSwap prof (pair.parametersAt timestamp id) id swapForY amountIn =
      .ok (i, o, f, exhausted) ∧ o ≠ 0 ∧
    pair.CanPay (pair.parametersAt timestamp id) bin swapForY i o f ∧
    (o.toNat ≤ pair.totalOut swapForY ∨ netIn (pair.parametersAt timestamp id) i f ≠ 0)

/-- The first bin of the walk that is not passed by begins a payment. -/
def BeginsAPayment : Prop :=
  ∃ k < MAX_ITERATIONS,
    (∀ j < k, pair.PassesBy prof swapForY amountIn timestamp (pair.walkId swapForY j)) ∧
    pair.BeginsPayment prof swapForY amountIn timestamp (pair.walkId swapForY k)

end

variable {prof : BuildProfile} {pair pair' start : MoeLbPair} {swapForY : Bool} {bin : BinReserve}
  {amountIn amountOut : U256} {timestamp k n : Nat} {s s' : SwapState} {r : ForInStep SwapState}
  {e : Fault AMMError} {baseToken : Address}

theorem BeginsPayment.not_passesBy {id : Nat}
    (h : pair.BeginsPayment prof swapForY amountIn timestamp id) :
    ¬ pair.PassesBy prof swapForY amountIn timestamp id := by
  obtain ⟨bin, i, o, f, exhausted, -, hamounts, hsome, -⟩ := h
  intro ⟨i', f', exhausted', hnone⟩
  rw [hamounts] at hnone
  cases hnone
  exact hsome rfl

/-- A walk that stops at a bin that neither pays nor is passed by begins no payment. -/
theorem not_beginsAPayment
    (hpassed : ∀ j < k, pair.PassesBy prof swapForY amountIn timestamp (pair.walkId swapForY j))
    (hnot : ¬ pair.PassesBy prof swapForY amountIn timestamp (pair.walkId swapForY k))
    (hnone : ¬ pair.BeginsPayment prof swapForY amountIn timestamp (pair.walkId swapForY k)) :
    ¬ pair.BeginsAPayment prof swapForY amountIn timestamp := by
  rintro ⟨k', -, hpassed', hbegins⟩
  rcases Nat.lt_trichotomy k' k with hlt | rfl | hlt
  · exact hbegins.not_passesBy (hpassed k' hlt)
  · exact hnone hbegins
  · exact hnot (hpassed' k hlt)

end MoeLbPair

namespace SwapState

open MoeLbPair

variable {prof : BuildProfile} {pair pair' start : MoeLbPair} {swapForY : Bool} {bin : BinReserve}
  {amountIn amountOut : U256} {timestamp k n : Nat} {s s' : SwapState} {r : ForInStep SwapState}
  {e : Fault AMMError}

/-- The swap has passed `k` ids by. -/
structure Untouched (prof : BuildProfile) (start : MoeLbPair) (swapForY : Bool) (amountIn : U256)
    (timestamp k : Nat) (s : SwapState) : Prop where
  amountLeft : s.amountLeft = amountIn
  amountOut : s.amountOut = 0
  currentId : s.currentId = start.walkId swapForY k
  parameters : ∀ id, s.parameters.updateVolatilityAccumulator id = start.parametersAt timestamp id
  passed : ∀ j < k, start.PassesBy prof swapForY amountIn timestamp (start.walkId swapForY j)

theorem Untouched.atBin (h : Untouched prof start swapForY amountIn timestamp k s) :
    Untouched prof start swapForY amountIn timestamp k s.atBin where
  amountLeft := h.amountLeft
  amountOut := h.amountOut
  currentId := h.currentId
  parameters := h.parameters
  passed := h.passed

/-- To pass an id by is to reach the next one, or to end. -/
theorem Untouched.advance (h : Untouched prof start swapForY amountIn timestamp k s)
    (hpasses : start.PassesBy prof swapForY amountIn timestamp (start.walkId swapForY k)) :
    ∃ k' ≤ k + 1, Untouched prof start swapForY amountIn timestamp k'
      (s.advance swapForY).value := by
  unfold SwapState.advance
  dsimp only
  split
  · exact ⟨k, Nat.le_succ k, h⟩
  · split
    · exact ⟨k, Nat.le_succ k, h⟩
    · refine ⟨k + 1, Nat.le_refl _, h.amountLeft, h.amountOut, ?_, h.parameters, ?_⟩
      · unfold ForInStep.value walkId
        rw [Function.iterate_succ_apply']
        exact congrArg (nextId · swapForY) h.currentId
      · intro j hj
        rcases Nat.lt_succ_iff_lt_or_eq.mp hj with hlt | rfl
        · exact h.passed j hlt
        · exact hpasses

/-- Where the loop is, with `n` loops left: it has not touched the pair, or a bin has paid. -/
def Progress (prof : BuildProfile) (start : MoeLbPair) (swapForY : Bool) (amountIn : U256)
    (timestamp n : Nat) (s : SwapState) (pair : MoeLbPair) : Prop :=
  (pair = start ∧ ∃ k, n + k ≤ MAX_ITERATIONS ∧
    Untouched prof start swapForY amountIn timestamp k s) ∨
  (start.BeginsAPayment prof swapForY amountIn timestamp ∧
    pair.totalOut swapForY < start.totalOut swapForY)

theorem Untouched.parametersAt (h : Untouched prof start swapForY amountIn timestamp k s) :
    start.parametersAt timestamp (start.walkId swapForY k) = s.atBin.parameters := by
  rw [← h.currentId, ← h.parameters]
  rfl

/-- A bin that is reached untouched is passed by in the swap when it is on the pair before it. -/
theorem Untouched.passesBy (h : Untouched prof start swapForY amountIn timestamp k s) :
    start.PassesBy prof swapForY amountIn timestamp (start.walkId swapForY k) ↔
      ∃ i f exhausted, start.computeBinSwap prof s.atBin.parameters s.currentId swapForY
        s.amountLeft = .ok (i, 0, f, exhausted) := by
  unfold PassesBy
  rw [h.parametersAt, h.currentId, h.amountLeft]

/-- A bin that is reached untouched begins a payment in the swap when it does on the pair before
it. -/
theorem Untouched.beginsPayment (h : Untouched prof start swapForY amountIn timestamp k s) :
    start.BeginsPayment prof swapForY amountIn timestamp (start.walkId swapForY k) ↔
      ∃ bin i o f exhausted, s.Pays prof swapForY start bin i o f exhausted ∧
        (o.toNat ≤ start.totalOut swapForY ∨ netIn s.atBin.parameters i f ≠ 0) := by
  unfold BeginsPayment
  rw [h.parametersAt, ← h.currentId, ← h.amountLeft]
  constructor
  · intro ⟨bin, i, o, f, exhausted, hlookup, hamounts, hsome, hchecks, hgoes⟩
    exact ⟨bin, i, o, f, exhausted, ⟨hlookup, hamounts, hsome, hchecks⟩, hgoes⟩
  · intro ⟨bin, i, o, f, exhausted, hpays, hgoes⟩
    exact ⟨bin, i, o, f, exhausted, hpays.lookup, hpays.amounts, hpays.some, hpays.checks, hgoes⟩

/-- **A round** goes on without touching the pair, or makes the first or a later payment. -/
theorem Progress.round (h : Progress prof start swapForY amountIn timestamp (n + 1) s pair)
    (hround : s.round prof swapForY pair = (.ok r, pair')) :
    Progress prof start swapForY amountIn timestamp n r.value pair' := by
  rcases h with ⟨rfl, k, hk, hs⟩ | ⟨hbegins, hlt⟩
  · rcases round_eq_ok hround with
      ⟨hnone, rfl, rfl⟩ | ⟨bin, i, f, exhausted, -, hamounts, rfl, rfl⟩ |
      ⟨bin, i, o, f, exhausted, hpays, hle, rfl, rfl⟩
    · have hpasses : pair'.PassesBy prof swapForY amountIn timestamp (pair'.walkId swapForY k) := by
        refine ⟨0, 0, true, ?_⟩
        unfold computeBinSwap
        rw [← hs.currentId, hnone]
      obtain ⟨k', hk', hs'⟩ := hs.advance hpasses
      exact .inl ⟨rfl, k', by omega, hs'⟩
    · have hpasses := hs.passesBy.mpr ⟨i, f, exhausted, hamounts⟩
      obtain ⟨k', hk', hs'⟩ := hs.atBin.advance hpasses
      rw [settle_idle]
      exact .inl ⟨rfl, k', by omega, hs'⟩
    · have hpayment := hs.beginsPayment.mpr ⟨bin, i, o, f, exhausted, hpays, .inl hle⟩
      refine .inr ⟨⟨k, by omega, hs.passed, hpayment⟩, ?_⟩
      unfold pairPaid
      rw [paid_totalOut]
      have hpos : o.toNat ≠ 0 := (BitVec.toNat_pos_of_ne_zero hpays.some).ne'
      omega
  · refine .inr ⟨hbegins, ?_⟩
    rcases round_eq_ok hround with
      ⟨-, -, rfl⟩ | ⟨bin, i, f, exhausted, -, -, -, rfl⟩ |
      ⟨bin, i, o, f, exhausted, hpays, hle, rfl, rfl⟩
    · exact hlt
    · exact hlt
    · unfold pairPaid
      rw [paid_totalOut]
      omega

/-- **A round that fails** leaves the pair alone when no payment was begun, and only then. -/
theorem Progress.round_error (h : Progress prof start swapForY amountIn timestamp (n + 1) s pair)
    (hround : s.round prof swapForY pair = (.error e, pair')) :
    pair' = start ↔ ¬ start.BeginsAPayment prof swapForY amountIn timestamp := by
  rcases h with ⟨rfl, k, hk, hs⟩ | ⟨hbegins, hlt⟩
  · rcases round_eq_error hround with
      ⟨rfl, hidle, hpays⟩ | ⟨bin, i, o, f, exhausted, hpays, hlast, rfl⟩
    · refine ⟨fun _ => ?_, fun _ => rfl⟩
      apply not_beginsAPayment hs.passed
      · exact fun hpasses => hidle (hs.passesBy.mp hpasses)
      · intro hpayment
        obtain ⟨bin, i, o, f, exhausted, hpays', -⟩ := hs.beginsPayment.mp hpayment
        exact hpays ⟨bin, i, o, f, exhausted, hpays'⟩
    · by_cases hnet : netIn s.atBin.parameters i f = 0
      · rw [hnet, grown_zero]
        refine ⟨fun _ => ?_, fun _ => rfl⟩
        apply not_beginsAPayment hs.passed
        · intro hpasses
          obtain ⟨i', f', exhausted', hamounts⟩ := hs.passesBy.mp hpasses
          rw [hpays.amounts] at hamounts
          cases hamounts
          exact hpays.some rfl
        · intro hpayment
          obtain ⟨bin', i', o', f', exhausted', hpays', hgoes⟩ := hs.beginsPayment.mp hpayment
          have hamounts := hpays'.amounts
          rw [hpays.amounts] at hamounts
          cases hamounts
          rcases hgoes with hle | hgrows
          · exact hlast hle
          · exact hgrows hnet
      · have hpayment := hs.beginsPayment.mpr ⟨bin, i, o, f, exhausted, hpays, .inr hnet⟩
        have hbegins : pair.BeginsAPayment prof swapForY amountIn timestamp :=
          ⟨k, by omega, hs.passed, hpayment⟩
        refine ⟨fun heq => ?_, fun hnone => absurd hbegins hnone⟩
        have htotal := grown_totalIn pair swapForY (netIn s.atBin.parameters i f)
        rw [heq] at htotal
        omega
  · have hne : pair' ≠ start := by
      intro heq
      rcases round_eq_error hround with ⟨rfl, -⟩ | ⟨bin, i, o, f, exhausted, -, -, rfl⟩
      · rw [heq] at hlt
        exact Nat.lt_irrefl _ hlt
      · rw [← grown_totalOut pair swapForY, heq] at hlt
        exact Nat.lt_irrefl _ hlt
    exact ⟨fun heq => absurd heq hne, fun hnone => absurd hbegins hnone⟩

end SwapState

/-! ## The calls -/

namespace MoeLbPair

variable {prof : BuildProfile} {pair pair' : MoeLbPair} {swapForY : Bool}
  {amountIn amountOut : U256} {timestamp : Nat} {e : Fault AMMError} {baseToken : Address}

theorem simulateSwapPrecise_of_isEmpty (h : pair.bins.entries.isEmpty) :
    pair.simulateSwapPrecise prof swapForY amountIn timestamp = (.ok 0, pair) := if_pos h

/-- The loop with its rule at the start of a swap. -/
theorem loop_progress (pair : MoeLbPair) :
    match SwapState.loop prof swapForY MAX_ITERATIONS (pair.startSwap amountIn timestamp) pair with
    | (.ok s, pair') => ∃ n, SwapState.Progress prof pair swapForY amountIn timestamp n s pair'
    | (.error _, pair') => pair' = pair ↔
        ¬ pair.BeginsAPayment prof swapForY amountIn timestamp := by
  have hstart : SwapState.Untouched prof pair swapForY amountIn timestamp 0
      (pair.startSwap amountIn timestamp) :=
    ⟨rfl, rfl, rfl, fun _ => rfl, fun j hj => absurd hj (Nat.not_lt_zero j)⟩
  exact @SwapState.loop_rule prof pair swapForY (pair.startSwap amountIn timestamp) MAX_ITERATIONS
    (fun n s => SwapState.Progress prof pair swapForY amountIn timestamp n s)
    (fun _ pair' => pair' = pair ↔ ¬ pair.BeginsAPayment prof swapForY amountIn timestamp)
    (fun hinv _ hround => hinv.round hround) (fun hinv _ hround => hinv.round_error hround)
    (.inl ⟨rfl, 0, Nat.le_refl _, hstart⟩)

theorem simulateSwapPrecise_eq_error
    (h : pair.simulateSwapPrecise prof swapForY amountIn timestamp = (.error e, pair')) :
    pair' = pair ↔ ¬ pair.BeginsAPayment prof swapForY amountIn timestamp := by
  by_cases hempty : pair.bins.entries.isEmpty
  · rw [simulateSwapPrecise_of_isEmpty hempty] at h
    cases h
  · rw [simulateSwapPrecise_eq hempty] at h
    have hloop := @loop_progress prof swapForY amountIn timestamp pair
    rcases hrun : SwapState.loop prof swapForY MAX_ITERATIONS (pair.startSwap amountIn timestamp)
      pair with ⟨e | s, pair₁⟩
    · rw [hrun] at h hloop
      cases h
      exact hloop
    · rw [hrun] at h
      cases h

/-- A swap with an output began a payment, and has changed the pair. -/
theorem simulateSwapPrecise_eq_ok
    (h : pair.simulateSwapPrecise prof swapForY amountIn timestamp = (.ok amountOut, pair'))
    (hout : amountOut ≠ 0) :
    pair.BeginsAPayment prof swapForY amountIn timestamp ∧
      pair'.totalOut swapForY < pair.totalOut swapForY := by
  by_cases hempty : pair.bins.entries.isEmpty
  · rw [simulateSwapPrecise_of_isEmpty hempty] at h
    cases h
    exact absurd rfl hout
  · rw [simulateSwapPrecise_eq hempty] at h
    have hloop := @loop_progress prof swapForY amountIn timestamp pair
    rcases hrun : SwapState.loop prof swapForY MAX_ITERATIONS (pair.startSwap amountIn timestamp)
      pair with ⟨e | s, pair₁⟩
    · rw [hrun] at h
      cases h
    · rw [hrun] at h hloop
      cases h
      obtain ⟨n, ⟨rfl, k, -, hs⟩ | hpaid⟩ := hloop
      · exact absurd hs.amountOut hout
      · exact hpaid

theorem isSane_zero : pair.isSane swapForY amountIn 0 = true := by
  unfold isSane
  have hnot : ∀ x : U256, (0 > x) = False := by
    intro x
    exact eq_false (Nat.not_lt_zero x.toNat)
  simp only [hnot, decide_false, Bool.not_false, Bool.and_true, Bool.and_false]

theorem simulateConstantProduct_ne_err {ε : AMMError} :
    pair.simulateConstantProduct baseToken amountIn ≠ .error (.err ε) := by
  unfold simulateConstantProduct
  dsimp only
  intro h
  split at h
  · cases h
  · split at h
    · cases h
    · split at h
      all_goals
        split at h
        · cases h
        · split at h
          · cases h
          · cases h

/-- The calls that fail, with the pair that each leaves: an error of the swap, of its guarded form
or of `simulate_swap_mut`, or an output that a sanity check rejects. -/
inductive SwapFails (prof : BuildProfile) (pair : MoeLbPair) (swapForY : Bool) (amountIn : U256)
    (timestamp : Nat) (pair' : MoeLbPair) : Prop
  | precise (e : AMMError)
      (run : pair.simulateSwapPrecise prof swapForY amountIn timestamp = (.error (.err e), pair'))
  | acrossBins (e : AMMError)
      (run : pair.simulateSwapAcrossBins prof swapForY amountIn timestamp =
        (.error (.err e), pair'))
  | rejected (amountOut : U256)
      (run : pair.simulateSwapPrecise prof swapForY amountIn timestamp = (.ok amountOut, pair'))
      (insane : pair'.isSane swapForY amountIn amountOut = false)
      (result : pair.simulateSwapAcrossBins prof swapForY amountIn timestamp = (.ok 0, pair'))
  | swapMut (e : AMMError) (baseToken : Address)
      (token : swapForY = (baseToken == pair.tokenX.address))
      (now : timestamp = pair.timeOfLastUpdate)
      (run : pair.simulateSwapMut prof baseToken amountIn = (.error (.err e), pair'))

/-- The totals are updated or the update panics. -/
theorem updateTotals_ne_err {ε : AMMError} {pair₁ : MoeLbPair} :
    updateTotals baseToken amountIn amountOut pair₁ ≠ (.error (.err ε), pair') := by
  have hcast : ∀ x : U256, (castU128 x : Outcome AMMError Nat) = .ok x.toNat ∨
      (castU128 x : Outcome AMMError Nat) = .error .panic := by
    intro x
    unfold castU128
    split
    · exact .inl rfl
    · exact .inr rfl
  unfold updateTotals
  rw [PairM.bind_of_ok (PairM.get_apply pair₁)]
  rcases hcast amountIn with hin | hin
  · rcases hcast amountOut with hout | hout
    · rw [hin, hout]
      split
      · intro h
        cases h
      · intro h
        cases h
    · rw [hin, hout]
      split
      · intro h
        cases h
      · intro h
        cases h
  · rw [hin]
    split
    · intro h
      cases h
    · intro h
      cases h

/-- An error of `simulate_swap_mut` is one of its swap over the bins. -/
theorem simulateSwapMut_eq_error {ε : AMMError}
    (h : pair.simulateSwapMut prof baseToken amountIn = (.error (.err ε), pair')) :
    pair.simulateSwapAcrossBins prof (baseToken == pair.tokenX.address) amountIn
      pair.timeOfLastUpdate = (.error (.err ε), pair') := by
  unfold simulateSwapMut at h
  dsimp only at h
  rw [PairM.bind_apply] at h
  rcases hrun : simulateSwapForMut prof baseToken amountIn pair with ⟨e | out, pair₁⟩
  · rw [hrun] at h
    cases h
    unfold simulateSwapForMut at hrun
    split at hrun
    · exact hrun
    · rename_i hempty
      have hswap := congrArg Prod.fst hrun
      dsimp only at hswap
      unfold simulateSwap simulateSwapWithTimestamp at hswap
      rw [if_neg hempty] at hswap
      split at hswap
      · cases hswap
      · exact absurd hswap simulateConstantProduct_ne_err
  · rw [hrun] at h
    dsimp only at h
    rcases htotals : updateTotals baseToken amountIn out pair₁ with ⟨e | ⟨⟩, pair₂⟩
    · rw [PairM.bind_of_error htotals] at h
      cases h
      exact absurd htotals updateTotals_ne_err
    · rw [PairM.bind_of_ok htotals] at h
      cases h

/-- **A swap that fails leaves the pair as it was exactly when no bin began a payment.** -/
theorem SwapFails.unchanged_iff (h : pair.SwapFails prof swapForY amountIn timestamp pair') :
    pair' = pair ↔ ¬ pair.BeginsAPayment prof swapForY amountIn timestamp := by
  cases h with
  | precise e run => exact simulateSwapPrecise_eq_error run
  | acrossBins e run => exact simulateSwapPrecise_eq_error (simulateSwapAcrossBins_eq_error run)
  | rejected amountOut run insane result =>
    have hout : amountOut ≠ 0 := by
      rintro rfl
      rw [isSane_zero] at insane
      cases insane
    obtain ⟨hbegins, hlt⟩ := simulateSwapPrecise_eq_ok run hout
    refine ⟨fun heq => ?_, fun hnone => absurd hbegins hnone⟩
    rw [heq] at hlt
    exact absurd hlt (Nat.lt_irrefl _)
  | swapMut e baseToken token now run =>
    subst token now
    exact simulateSwapPrecise_eq_error
      (simulateSwapAcrossBins_eq_error (simulateSwapMut_eq_error run))

/-- An output that a sanity check rejects becomes nothing, on the pair that the swap left. -/
theorem simulateSwapAcrossBins_rejected (hin : amountIn ≠ 0)
    (hsome : pair.reserveX ≠ 0 ∧ pair.reserveY ≠ 0)
    (hle : pair.reserveX ≤ MAX_REASONABLE_RESERVE ∧ pair.reserveY ≤ MAX_REASONABLE_RESERVE)
    (hrun : pair.simulateSwapPrecise prof swapForY amountIn timestamp = (.ok amountOut, pair'))
    (hinsane : pair'.isSane swapForY amountIn amountOut = false) :
    pair.simulateSwapAcrossBins prof swapForY amountIn timestamp = (.ok 0, pair') := by
  unfold simulateSwapAcrossBins
  rw [if_neg hin, if_neg (by omega), if_neg (by omega), hrun]
  dsimp only
  rw [hinsane]
  rfl

/-- A pair whose price is over a thousand. -/
def highPricePair : MoeLbPair :=
  feeless 100 (2 ^ 23 + 700) (10 ^ 18) (10 ^ 19) ((∅ : HashMap Nat BinReserve).insert
    (2 ^ 23 + 700) ⟨10 ^ 18, 10 ^ 19⟩)

/-- `10 ^ 15` of X for Y at that price. -/
theorem highPricePair_fails :
    highPricePair.SwapFails ⟨true⟩ true (10 ^ 15) 0
      (highPricePair.simulateSwapPrecise ⟨true⟩ true (10 ^ 15) 0).2 := by
  have hrun : highPricePair.simulateSwapPrecise ⟨true⟩ true (10 ^ 15) 0 =
      (.ok 1059160187575619848, (highPricePair.simulateSwapPrecise ⟨true⟩ true (10 ^ 15) 0).2) :=
    Prod.ext (by decide +kernel) rfl
  have hinsane : (highPricePair.simulateSwapPrecise ⟨true⟩ true (10 ^ 15) 0).2.isSane true
      (10 ^ 15) 1059160187575619848 = false := by decide +kernel
  exact .rejected _ hrun hinsane (simulateSwapAcrossBins_rejected (by decide) (by decide +kernel)
    (by decide +kernel) hrun hinsane)

/-- The output is rejected, and the bin and the totals have moved. -/
theorem highPricePair_changed :
    (highPricePair.simulateSwapAcrossBins ⟨true⟩ true (10 ^ 15) 0).1 = .ok 0 ∧
      (highPricePair.simulateSwapPrecise ⟨true⟩ true (10 ^ 15) 0).1 = .ok 1059160187575619848 ∧
      (highPricePair.simulateSwapAcrossBins ⟨true⟩ true (10 ^ 15) 0).2 ≠ highPricePair := by
  refine ⟨by decide +kernel, by decide +kernel, ?_⟩
  intro hsame
  have hreserve := congrArg MoeLbPair.reserveX hsame
  exact absurd hreserve (by decide +kernel)

theorem unchanged_iff_highPricePair :
    (highPricePair.simulateSwapPrecise ⟨true⟩ true (10 ^ 15) 0).2 = highPricePair ↔
      ¬ highPricePair.BeginsAPayment ⟨true⟩ true (10 ^ 15) 0 :=
  highPricePair_fails.unchanged_iff

end MoeLbPair

end ArbitrageBot
