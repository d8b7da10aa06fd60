import ArbitrageBot.Amms.Moe.SwapSpec
import ArbitrageBot.Lib.MapSums

/-!
# Moe liquidity-book pairs: the totals and the bins

A pair is balanced when its totals are the sums over its bins. The bins of a swap keep that: each
payment moves its bin and the totals by the same amounts. `simulate_swap_mut` then moves the totals
once more, so that no swap with an output leaves the pair balanced.
-/

namespace ArbitrageBot.MoeLbPair

open Lib Moe

/-- The totals are the sums over the bins. -/
structure Balanced (pair : MoeLbPair) : Prop where
  reserveX : pair.reserveX = MapSums.total (·.reserveX) pair.bins
  reserveY : pair.reserveY = MapSums.total (·.reserveY) pair.bins

variable {prof : BuildProfile} {pair pair' : MoeLbPair} {swapForY : Bool} {bin : BinReserve}
  {binId net out timestamp : Nat} {amountIn amountOut : U256} {f : BinReserve → Nat}
  {baseToken : Address}

/-- The sum over the bins after a bin was put, or taken out because it is empty. -/
theorem total_putBin (hbin : pair.bins.lookup binId = some bin) {new : BinReserve}
    (hf : new.reserveX = 0 → new.reserveY = 0 → f new = 0) :
    MapSums.total f (pair.putBin binId new).bins + f bin = MapSums.total f pair.bins + f new := by
  have hold : MapSums.valueAt f pair.bins binId = f bin := by
    unfold MapSums.valueAt
    rw [hbin]
    rfl
  unfold putBin
  split
  · rename_i hempty
    rw [hf hempty.1 hempty.2, Nat.add_zero, ← hold]
    exact MapSums.total_erase
  · rw [← hold]
    exact MapSums.total_insert

/-- A bin holds no more than all the bins do. -/
theorem le_total (hbin : pair.bins.lookup binId = some bin) (f : BinReserve → Nat) :
    f bin ≤ MapSums.total f pair.bins := by
  have hle : MapSums.valueAt f pair.bins binId ≤ MapSums.total f pair.bins :=
    MapSums.valueAt_le_total
  unfold MapSums.valueAt at hle
  rw [hbin] at hle
  exact hle

/-- **A payment keeps the pair balanced.** -/
theorem Balanced.paid (h : pair.Balanced) (hbin : pair.bins.lookup binId = some bin)
    (hout : out ≤ bin.reserveOut swapForY) :
    (pair.paid swapForY binId bin net out).Balanced := by
  have hx := h.reserveX
  have hy := h.reserveY
  have hleX := le_total hbin (·.reserveX)
  have hleY := le_total hbin (·.reserveY)
  have hsame : ((pair.grown swapForY net).shrunk swapForY out).bins = pair.bins := by
    cases swapForY with
    | true => rfl
    | false => rfl
  rw [← hsame] at hbin
  have hsumX : MapSums.total (·.reserveX) (pair.paid swapForY binId bin net out).bins +
      bin.reserveX = _ := total_putBin hbin fun h _ => h
  have hsumY : MapSums.total (·.reserveY) (pair.paid swapForY binId bin net out).bins +
      bin.reserveY = _ := total_putBin hbin fun _ h => h
  rw [hsame] at hsumX hsumY
  have hkeepX := congrArg MoeLbPair.reserveX (paid_eq pair swapForY binId bin net out)
  have hkeepY := congrArg MoeLbPair.reserveY (paid_eq pair swapForY binId bin net out)
  unfold BinReserve.reserveOut at hout
  unfold grown shrunk at hkeepX hkeepY
  unfold BinReserve.moved at hsumX hsumY
  cases swapForY with
  | true =>
    simp only [↓reduceIte] at hout hsumX hsumY hkeepX hkeepY
    exact ⟨by omega, by omega⟩
  | false =>
    simp only [Bool.false_eq_true, ↓reduceIte] at hout hsumX hsumY hkeepX hkeepY
    exact ⟨by omega, by omega⟩

/-- What the loop keeps with `n` loops left: the pair stays balanced and trades its token, and the
total of the token that is sold stays under a bound, of which each loop uses less than `2 ^ 64`. -/
structure BalancedWithin (tokenX : Token) (swapForY : Bool) (bound n : Nat) (pair : MoeLbPair) :
    Prop where
  balanced : pair.Balanced
  tokenX : pair.tokenX = tokenX
  totalIn_le : pair.totalIn swapForY + n * 2 ^ 64 ≤ bound

/-- **A round keeps the pair balanced.** -/
theorem BalancedWithin.round {tokenX : Token} {bound n : Nat} {s : SwapState}
    {r : ForInStep SwapState} (h : BalancedWithin tokenX swapForY bound (n + 1) pair)
    (hround : s.round prof swapForY pair = (.ok r, pair')) :
    BalancedWithin tokenX swapForY bound n pair' := by
  have htotal := h.totalIn_le
  rw [Nat.succ_mul, ← Nat.add_assoc] at htotal
  have hle : pair.totalIn swapForY + n * 2 ^ 64 ≤ bound :=
    Nat.le_trans (Nat.le_add_right _ _) htotal
  rcases SwapState.round_eq_ok hround with
    ⟨-, -, rfl⟩ | ⟨bin, i, f, exhausted, -, -, -, rfl⟩ |
    ⟨bin, i, o, f, exhausted, hpays, -, -, rfl⟩
  · exact ⟨h.balanced, h.tokenX, hle⟩
  · exact ⟨h.balanced, h.tokenX, hle⟩
  · have hlt := (computeBinSwap_le hpays.amounts).2.1
    have hnet : netIn s.atBin.parameters i f ≤ i.toNat := Nat.sub_le _ _
    refine ⟨h.balanced.paid hpays.lookup hpays.checks.2.2.1,
      (paid_tokenX pair swapForY _ _ _ _).trans h.tokenX, ?_⟩
    unfold SwapState.pairPaid
    rw [paid_totalIn]
    generalize n * 2 ^ 64 = later at htotal ⊢
    omega

/-- **The swap keeps the pair balanced**, and adds less than `2 ^ 73` to a total. -/
theorem Balanced.simulateSwapPrecise (h : pair.Balanced)
    (hok : pair.simulateSwapPrecise prof swapForY amountIn timestamp = (.ok amountOut, pair')) :
    pair'.Balanced ∧ pair'.tokenX = pair.tokenX ∧
      pair'.totalIn swapForY ≤ pair.totalIn swapForY + 2 ^ 73 := by
  by_cases hempty : pair.bins.entries.isEmpty
  · unfold MoeLbPair.simulateSwapPrecise at hok
    rw [if_pos hempty] at hok
    cases hok
    exact ⟨h, rfl, Nat.le_add_right _ _⟩
  · rw [simulateSwapPrecise_eq hempty] at hok
    have hloops : MAX_ITERATIONS * 2 ^ 64 = 2 ^ 73 := by norm_num [MAX_ITERATIONS]
    have hstart : BalancedWithin pair.tokenX swapForY (pair.totalIn swapForY + 2 ^ 73)
        MAX_ITERATIONS pair := ⟨h, rfl, by rw [hloops]⟩
    have hloop := @SwapState.loop_rule prof pair swapForY (pair.startSwap amountIn timestamp)
      MAX_ITERATIONS
      (fun n _ => BalancedWithin pair.tokenX swapForY (pair.totalIn swapForY + 2 ^ 73) n)
      (fun _ _ => True) (fun hinv _ hround => hinv.round hround) (fun _ _ _ => trivial) hstart
    rcases hrun : SwapState.loop prof swapForY MAX_ITERATIONS (pair.startSwap amountIn timestamp)
      pair with ⟨e | s, pair₁⟩
    · rw [hrun] at hok
      cases hok
    · rw [hrun] at hloop hok
      obtain ⟨n, hinv⟩ := hloop
      cases hok
      exact ⟨⟨hinv.balanced.reserveX, hinv.balanced.reserveY⟩, hinv.tokenX,
        Nat.le_trans (Nat.le_add_right _ _) hinv.totalIn_le⟩

/-- **The bins of a swap keep a pair balanced.** -/
theorem Balanced.simulateSwapAcrossBins (h : pair.Balanced)
    (hok : pair.simulateSwapAcrossBins prof swapForY amountIn timestamp = (.ok amountOut, pair'))
    (hout : amountOut ≠ 0) :
    pair'.Balanced ∧ pair'.tokenX = pair.tokenX ∧ pair'.totalIn swapForY < 2 ^ 128 - 1 := by
  obtain ⟨-, hle, hrun⟩ := simulateSwapAcrossBins_eq_ok hok hout
  obtain ⟨hbalanced, htoken, htotal⟩ := h.simulateSwapPrecise hrun
  have hstart : pair.totalIn swapForY ≤ 10 ^ 30 := by
    unfold totalIn
    split
    · exact hle.1
    · exact hle.2
  exact ⟨hbalanced, htoken, by omega⟩

/-! ## The second count -/

/-- `simulate_swap_mut` counts the input a second time in the total of the token that is sold, and
leaves the bins of its swap. -/
theorem updateTotals_eq_ok
    (h : updateTotals baseToken amountIn amountOut pair = (.ok (), pair')) :
    pair'.bins = pair.bins ∧ pair'.totalIn (baseToken == pair.tokenX.address) =
      saturatingAdd (pair.totalIn (baseToken == pair.tokenX.address)) amountIn.toNat := by
  unfold updateTotals at h
  rw [PairM.bind_of_ok (PairM.get_apply pair)] at h
  by_cases hin : amountIn.toNat < 2 ^ 128
  · by_cases hout : amountOut.toNat < 2 ^ 128
    · simp only [castU128_of_lt hin, castU128_of_lt hout] at h
      by_cases hx : baseToken = pair.tokenX.address
      · rw [if_pos hx] at h
        cases h
        rw [beq_iff_eq.mpr hx]
        exact ⟨rfl, rfl⟩
      · rw [if_neg hx] at h
        cases h
        rw [beq_eq_false_iff_ne.mpr hx]
        exact ⟨rfl, rfl⟩
    · have hcast : (castU128 amountOut : Outcome AMMError Nat) = .error .panic := if_neg hout
      simp only [castU128_of_lt hin, hcast] at h
      split at h
      · cases h
      · cases h
  · have hcast : (castU128 amountIn : Outcome AMMError Nat) = .error .panic := if_neg hin
    simp only [hcast] at h
    split at h
    · cases h
    · cases h

/-- A pair that is balanced stays so under no change of a total alone. -/
theorem not_balanced_of_totalIn (h : pair.Balanced) (hbins : pair'.bins = pair.bins)
    (hne : pair'.totalIn swapForY ≠ pair.totalIn swapForY) : ¬ pair'.Balanced := by
  intro h'
  apply hne
  unfold totalIn
  rw [h.reserveX, h.reserveY, h'.reserveX, h'.reserveY, hbins]

/-- **No swap of `simulate_swap_mut` with an output leaves the totals equal to the sums over the
bins.** -/
theorem simulateSwapMut_unbalanced (hbins : ¬ pair.bins.entries.isEmpty) (h : pair.Balanced)
    (hok : pair.simulateSwapMut prof baseToken amountIn = (.ok amountOut, pair'))
    (hout : amountOut ≠ 0) : ¬ pair'.Balanced := by
  unfold simulateSwapMut at hok
  dsimp only at hok
  rw [PairM.bind_apply] at hok
  have hrun : simulateSwapForMut prof baseToken amountIn pair =
      pair.simulateSwapAcrossBins prof (baseToken == pair.tokenX.address) amountIn
        pair.timeOfLastUpdate := by
    unfold simulateSwapForMut
    rw [if_pos (by simpa using hbins)]
  rw [hrun] at hok
  rcases hswap : pair.simulateSwapAcrossBins prof (baseToken == pair.tokenX.address) amountIn
    pair.timeOfLastUpdate with ⟨e | out, pair₁⟩
  · rw [hswap] at hok
    cases hok
  · rw [hswap] at hok
    dsimp only at hok
    rcases htotals : updateTotals baseToken amountIn out pair₁ with ⟨e | ⟨⟩, pair₂⟩
    · rw [PairM.bind_of_error htotals] at hok
      cases hok
    · rw [PairM.bind_of_ok htotals] at hok
      cases hok
      obtain ⟨hbalanced, htoken, hlt⟩ := h.simulateSwapAcrossBins hswap hout
      obtain ⟨hsame, htotal⟩ := updateTotals_eq_ok htotals
      have hpos : amountIn.toNat ≠ 0 := fun hzero =>
        (simulateSwapAcrossBins_eq_ok hswap hout).1 (BitVec.eq_of_toNat_eq hzero)
      apply not_balanced_of_totalIn hbalanced hsame
      rw [htotal, htoken]
      unfold saturatingAdd
      omega

/-- A pair with one bin at price one. -/
def oneBinPair : MoeLbPair :=
  feeless 10 (2 ^ 23) (10 ^ 20) (10 ^ 20) ((∅ : HashMap Nat BinReserve).insert (2 ^ 23)
    ⟨10 ^ 20, 10 ^ 20⟩)

theorem oneBinPair_balanced : oneBinPair.Balanced where
  reserveX := rfl
  reserveY := rfl

/-- Selling `10 ^ 18` of X to the one bin: the bin moves by `10 ^ 18` on each side, the totals by
twice that. -/
theorem oneBinPair_unbalanced :
    ¬ oneBinPair.bins.entries.isEmpty ∧ oneBinPair.Balanced ∧
      ∃ pair', oneBinPair.simulateSwapMut ⟨true⟩ 2 (10 ^ 18) = (.ok (10 ^ 18), pair') ∧
        pair'.reserveX = 10 ^ 20 + 2 * 10 ^ 18 ∧ pair'.reserveY = 10 ^ 20 - 2 * 10 ^ 18 ∧
        pair'.bins.lookup (2 ^ 23) = some ⟨10 ^ 20 + 10 ^ 18, 10 ^ 20 - 10 ^ 18⟩ ∧
        ¬ pair'.Balanced := by
  refine ⟨by decide +kernel, oneBinPair_balanced, _, Prod.ext (by decide +kernel) rfl,
    by decide +kernel, by decide +kernel, by decide +kernel, ?_⟩
  intro h
  exact absurd h.reserveX (by decide +kernel)

/-- With fees, a swap that empties one bin and takes a part of the next. -/
theorem simulateSwapMut_unbalanced_twoBinPair : ∃ pair',
    twoBinPair.simulateSwapMut ⟨true⟩ 2 1500000 = (.ok 1498748, pair') ∧ ¬ pair'.Balanced := by
  have hswap : ∃ pair', twoBinPair.simulateSwapMut ⟨true⟩ 2 1500000 = (.ok 1498748, pair') :=
    ⟨_, Prod.ext (by decide +kernel) rfl⟩
  obtain ⟨pair', hswap⟩ := hswap
  exact ⟨pair', hswap, simulateSwapMut_unbalanced (by decide +kernel) ⟨rfl, rfl⟩ hswap (by decide)⟩

end ArbitrageBot.MoeLbPair
