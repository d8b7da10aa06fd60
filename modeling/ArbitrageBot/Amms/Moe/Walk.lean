import ArbitrageBot.Amms.Moe.SwapSpec

/-!
# Moe liquidity-book pairs: the walk of a swap

A swap visits ids in one direction and writes only the bin it is at. So every bin is as it was
before the swap when the swap reaches it, and its fee parameters are those of the start, moved to
its id.
-/

namespace ArbitrageBot

open Lib Moe

namespace MoeLbPair

section

variable (prof : BuildProfile) (pair : MoeLbPair) (swapForY : Bool) (timestamp : Nat)

/-- The fee parameters with which a swap reaches an id. -/
def parametersAt (id : Nat) : MoeParameters :=
  ((MoeParameters.fromPair pair).updateReferences timestamp).updateVolatilityAccumulator id

/-- What the bin of an id takes and pays when `left` is left, on the pair before the swap. -/
def quoteAt (id : Nat) (left : U256) : Outcome AMMError (U256 × U256 × U256 × Bool) :=
  pair.computeBinSwap prof (pair.parametersAt timestamp id) id swapForY left

end

variable {prof : BuildProfile} {pair pair' : MoeLbPair} {swapForY : Bool} {bin : BinReserve}
  {params : MoeParameters} {binId id id' net out timestamp : Nat} {left : U256}

/-- The amounts of a bin depend on the bin and the bin step alone. -/
theorem computeBinSwap_congr (hbin : pair'.bins.lookup binId = pair.bins.lookup binId)
    (hstep : pair'.binStep = pair.binStep) :
    pair'.computeBinSwap prof params binId swapForY left =
      pair.computeBinSwap prof params binId swapForY left := by
  unfold computeBinSwap
  rw [hbin, hstep]

/-- An id without a bin pays nothing. -/
theorem quoteAt_of_none (h : pair.bins.lookup id = none) :
    pair.quoteAt prof swapForY timestamp id left = .ok (0, 0, 0, true) := by
  unfold quoteAt computeBinSwap
  rw [h]

/-- Neither does a bin that holds one token only. -/
theorem quoteAt_of_oneSided {bin : BinReserve} (h : pair.bins.lookup id = some bin)
    (hside : bin.reserveX = 0 ∨ bin.reserveY = 0) :
    pair.quoteAt prof swapForY timestamp id left = .ok (0, 0, 0, true) := by
  unfold quoteAt computeBinSwap
  rw [h]
  dsimp only
  rw [if_pos hside]

/-- A payment writes its own bin. -/
theorem paid_lookup (h : id ≠ binId) :
    (pair.paid swapForY binId bin net out).bins.lookup id = pair.bins.lookup id := by
  have hsame : ((pair.grown swapForY net).shrunk swapForY out).bins = pair.bins := by
    unfold shrunk grown
    cases swapForY with
    | true => rfl
    | false => rfl
  unfold paid putBin
  split
  · rw [AList.lookup_erase_ne h, hsame]
  · rw [AList.lookup_insert_ne h, hsame]

end MoeLbPair

/-! ## The direction of the walk -/

/-- `id'` comes after `id` on the walk. -/
def Ahead (swapForY : Bool) (id id' : Nat) : Prop :=
  if swapForY then id' < id else id' < 2 ^ 32 ∧ (id < id' ∨ 2 ^ 32 ≤ id)

variable {prof : BuildProfile} {swapForY : Bool} {id₁ id₂ id₃ : Nat}

theorem Ahead.irrefl (h : Ahead swapForY id₁ id₁) : False := by
  unfold Ahead at h
  split at h
  · omega
  · omega

theorem Ahead.trans (h₁ : Ahead swapForY id₁ id₂) (h₂ : Ahead swapForY id₂ id₃) :
    Ahead swapForY id₁ id₃ := by
  unfold Ahead at *
  split
  · rename_i h
    rw [if_pos h] at h₁ h₂
    omega
  · rename_i h
    rw [if_neg h] at h₁ h₂
    omega

/-- The next id is ahead, besides at the ends of `u32`. -/
theorem ahead_nextId (h : nextId id₁ swapForY ≠ id₁) :
    Ahead swapForY id₁ (nextId id₁ swapForY) := by
  unfold nextId Ahead at *
  split
  · rename_i hdir
    rw [if_pos hdir] at h
    omega
  · rename_i hdir
    rw [if_neg hdir] at h
    omega

namespace SwapState

open MoeLbPair

/-- The swap from `start` is at `s`: what lies ahead is as it was, and no id ahead was visited. -/
structure OnWalk (start : MoeLbPair) (swapForY : Bool) (timestamp : Nat) (s : SwapState)
    (pair : MoeLbPair) : Prop where
  here : pair.bins.lookup s.currentId = start.bins.lookup s.currentId
  ahead : ∀ id, Ahead swapForY s.currentId id → pair.bins.lookup id = start.bins.lookup id
  binStep : pair.binStep = start.binStep
  parameters : ∀ id, s.parameters.updateVolatilityAccumulator id = start.parametersAt timestamp id
  visited : ∀ id ∈ s.visitedBins, id = s.currentId ∨ Ahead swapForY id s.currentId

variable {start pair pair' : MoeLbPair} {timestamp : Nat} {s s' : SwapState} {bin : BinReserve}
  {left : U256}

theorem onWalk_start {amountIn : U256} :
    OnWalk pair swapForY timestamp (pair.startSwap amountIn timestamp) pair where
  here := rfl
  ahead := fun _ _ => rfl
  binStep := rfl
  parameters := fun _ => rfl
  visited := fun _ h => absurd h List.not_mem_nil

/-- `t` stands where `s` does; what is left and what was paid may differ. -/
structure SamePlace (s t : SwapState) : Prop where
  currentId : t.currentId = s.currentId
  visitedBins : t.visitedBins = s.visitedBins
  parameters : ∀ id, t.parameters.updateVolatilityAccumulator id =
    s.parameters.updateVolatilityAccumulator id

theorem SamePlace.refl (s : SwapState) : SamePlace s s := ⟨rfl, rfl, fun _ => rfl⟩

theorem samePlace_atBin (s : SwapState) : SamePlace s s.atBin := ⟨rfl, rfl, fun _ => rfl⟩

theorem samePlace_afterPart (s : SwapState) (i o : U256) :
    SamePlace s (s.atBin.afterPart i o) := ⟨rfl, rfl, fun _ => rfl⟩

theorem OnWalk.congr {t : SwapState} (h : OnWalk start swapForY timestamp s pair)
    (hst : SamePlace s t) : OnWalk start swapForY timestamp t pair where
  here := by
    rw [hst.currentId]
    exact h.here
  ahead := by
    rw [hst.currentId]
    exact h.ahead
  binStep := h.binStep
  parameters := fun id => (hst.parameters id).trans (h.parameters id)
  visited := by
    rw [hst.currentId, hst.visitedBins]
    exact h.visited

/-- The bin that is reached quotes as on the pair before the swap. -/
theorem OnWalk.quote (h : OnWalk start swapForY timestamp s pair) :
    pair.computeBinSwap prof s.atBin.parameters s.currentId swapForY left =
      start.quoteAt prof swapForY timestamp s.currentId left := by
  have hparams : s.atBin.parameters = start.parametersAt timestamp s.currentId :=
    h.parameters s.currentId
  rw [hparams]
  exact computeBinSwap_congr h.here h.binStep

theorem OnWalk.quote_of_none (h : OnWalk start swapForY timestamp s pair)
    (hnone : pair.bins.lookup s.currentId = none) :
    start.quoteAt prof swapForY timestamp s.currentId left = .ok (0, 0, 0, true) :=
  quoteAt_of_none (h.here.symm.trans hnone)

/-- Where the walk is after it passed the id of `s`. -/
def passed (s : SwapState) (swapForY : Bool) : SwapState :=
  { s with
    currentId := nextId s.currentId swapForY
    visitedBins := nextId s.currentId swapForY :: s.visitedBins }

/-- The walk goes on at the next id, besides at the ends of `u32`. -/
theorem OnWalk.advance (h : OnWalk start swapForY timestamp s pair) :
    s.advance swapForY = if nextId s.currentId swapForY = s.currentId then .done s
      else .yield (s.passed swapForY) := by
  unfold SwapState.advance passed
  dsimp only
  split
  · rfl
  · rename_i hnext
    rw [if_neg]
    intro hmem
    have hahead := ahead_nextId hnext
    rcases h.visited _ hmem with heq | hbehind
    · exact hnext heq
    · exact (hahead.trans hbehind).irrefl

/-- What holds at the next id, when at most the bin of this one was written. -/
theorem OnWalk.passed (h : OnWalk start swapForY timestamp s pair)
    (hnext : nextId s.currentId swapForY ≠ s.currentId)
    (hbins : ∀ id, id ≠ s.currentId → pair'.bins.lookup id = pair.bins.lookup id)
    (hstep : pair'.binStep = pair.binStep) :
    OnWalk start swapForY timestamp (s.passed swapForY) pair' := by
  have hahead := ahead_nextId hnext
  have hsame : ∀ id, Ahead swapForY s.currentId id →
      pair'.bins.lookup id = start.bins.lookup id := by
    intro id hid
    have hne : id ≠ s.currentId := by
      rintro rfl
      exact hid.irrefl
    rw [hbins id hne, h.ahead id hid]
  refine ⟨hsame _ hahead, fun id hid => hsame id (hahead.trans hid), hstep.trans h.binStep,
    h.parameters, ?_⟩
  intro id hid
  rcases List.mem_cons.mp hid with rfl | hid
  · exact .inl rfl
  · rcases h.visited id hid with rfl | hbehind
    · exact .inr hahead
    · exact .inr (hbehind.trans hahead)

/-- **A round that goes on from its id** ends the loop at an end of `u32`; otherwise the loop goes
on at the next id, on the walk. -/
theorem OnWalk.loop_advance {t : SwapState} {pair₁ : MoeLbPair}
    (h : OnWalk start swapForY timestamp s pair) (loops : Nat) (hleft : s.amountLeft ≠ 0)
    (hst : SamePlace s t)
    (hbins : ∀ id, id ≠ s.currentId → pair₁.bins.lookup id = pair.bins.lookup id)
    (hstep : pair₁.binStep = pair.binStep)
    (hround : s.round prof swapForY pair = (.ok (t.advance swapForY), pair₁)) :
    (nextId s.currentId swapForY = s.currentId ∧
      loop prof swapForY (loops + 1) s pair = (.ok t, pair₁)) ∨
    (nextId s.currentId swapForY ≠ s.currentId ∧
      (t.passed swapForY).currentId = nextId s.currentId swapForY ∧
      OnWalk start swapForY timestamp (t.passed swapForY) pair₁ ∧
      loop prof swapForY (loops + 1) s pair =
        loop prof swapForY loops (t.passed swapForY) pair₁) := by
  have ht := h.congr hst
  rw [ht.advance, hst.currentId] at hround
  split at hround
  · rename_i hend
    exact .inl ⟨hend, loop_of_done hleft hround⟩
  · rename_i hnext
    have hcurrent : (t.passed swapForY).currentId = nextId s.currentId swapForY := by
      unfold SwapState.passed
      rw [hst.currentId]
    rw [← hst.currentId] at hbins
    exact .inr ⟨hnext, hcurrent, ht.passed (hst.currentId ▸ hnext) hbins hstep,
      loop_of_yield hleft hround⟩

theorem sub_ne_zero_of_lt {x y : U256} (h : y < x) : x - y ≠ 0 := by
  intro hzero
  have hnat : (x - y).toNat = x.toNat - y.toNat := BitVec.toNat_sub_of_le (Nat.le_of_lt h)
  have hlt : y.toNat < x.toNat := h
  have hzero' : (0 : U256).toNat = 0 := rfl
  rw [hzero] at hnat
  omega

section

variable (prof : BuildProfile) (start : MoeLbPair) (swapForY : Bool) (timestamp loops : Nat)
  (s s' : SwapState) (pair' : MoeLbPair)

/-- From the id of `s` the loop goes on with `left` and `out`: it ends there at an end of `u32`, and
otherwise runs on from the next id. -/
inductive GoesOn (left out : U256) : Prop
  | ended (last : nextId s.currentId swapForY = s.currentId) (left_eq : s'.amountLeft = left)
      (out_eq : s'.amountOut = out)
  | next (more : nextId s.currentId swapForY ≠ s.currentId) (t : SwapState) (pair₁ : MoeLbPair)
      (walk : OnWalk start swapForY timestamp t pair₁)
      (currentId : t.currentId = nextId s.currentId swapForY) (left_eq : t.amountLeft = left)
      (out_eq : t.amountOut = out) (rest : loop prof swapForY loops t pair₁ = (.ok s', pair'))

/-- What a loop that returns did at the id of `s`. -/
inductive LoopCase : Prop
  /-- Nothing was paid there. -/
  | passed (i f : U256) (exhausted : Bool)
      (quote : start.quoteAt prof swapForY timestamp s.currentId s.amountLeft =
        .ok (i, 0, f, exhausted))
      (go : GoesOn prof start swapForY timestamp loops s s' pair' s.amountLeft s.amountOut)
  /-- The bin was emptied for a part of what was left. -/
  | emptied (i o f : U256)
      (quote : start.quoteAt prof swapForY timestamp s.currentId s.amountLeft =
        .ok (i, o, f, true))
      (some : o ≠ 0) (part : i < s.amountLeft)
      (go : GoesOn prof start swapForY timestamp loops s s' pair' (s.amountLeft - i)
        (addOut s.amountOut o))
  /-- The bin took all that was left. -/
  | taken (o f : U256) (exhausted : Bool)
      (quote : start.quoteAt prof swapForY timestamp s.currentId s.amountLeft =
        .ok (s.amountLeft, o, f, exhausted))
      (some : o ≠ 0) (left_eq : s'.amountLeft = 0) (out_eq : s'.amountOut = addOut s.amountOut o)
  /-- The bin took a part and was not emptied. -/
  | stopped (i o f : U256)
      (quote : start.quoteAt prof swapForY timestamp s.currentId s.amountLeft =
        .ok (i, o, f, false))
      (some : o ≠ 0) (part : i < s.amountLeft) (left_eq : s'.amountLeft = s.amountLeft - i)
      (out_eq : s'.amountOut = addOut s.amountOut o)

end

variable {pair' : MoeLbPair} {loops : Nat}

/-- **A loop that returns** passed the id of `s`, emptied its bin, or ended there. -/
theorem OnWalk.loop_cases (h : OnWalk start swapForY timestamp s pair) (hleft : s.amountLeft ≠ 0)
    (hloop : loop prof swapForY (loops + 1) s pair = (.ok s', pair')) :
    LoopCase prof start swapForY timestamp loops s s' pair' := by
  have hgo : ∀ {t : SwapState} {pair₁ : MoeLbPair}, SamePlace s t →
      (∀ id, id ≠ s.currentId → pair₁.bins.lookup id = pair.bins.lookup id) →
      pair₁.binStep = pair.binStep →
      s.round prof swapForY pair = (.ok (t.advance swapForY), pair₁) →
      GoesOn prof start swapForY timestamp loops s s' pair' t.amountLeft t.amountOut := by
    intro t pair₁ hst hbins hstep hround
    rcases h.loop_advance loops hleft hst hbins hstep hround with
      ⟨hend, hsame⟩ | ⟨hnext, hcurrent, hwalk, hsame⟩
    · rw [hloop] at hsame
      cases hsame
      exact .ended hend rfl rfl
    · rw [hloop] at hsame
      exact .next hnext _ _ hwalk hcurrent rfl rfl hsame.symm
  rcases hround : s.round prof swapForY pair with ⟨e | r, pair₁⟩
  · rw [loop_of_error hleft hround] at hloop
    cases hloop
  · rcases round_eq_ok hround with
      ⟨hnone, rfl, rfl⟩ | ⟨bin, i, f, exhausted, -, hamounts, rfl, rfl⟩ |
      ⟨bin, i, o, f, exhausted, hpays, hle, rfl, rfl⟩
    · exact .passed 0 0 true (h.quote_of_none hnone) (hgo (.refl s) (fun _ _ => rfl) rfl hround)
    · rw [h.quote] at hamounts
      rw [settle_idle] at hround
      exact .passed i f exhausted hamounts
        (@hgo s.atBin _ (samePlace_atBin s) (fun _ _ => rfl) rfl hround)
    · have hamounts := hpays.amounts
      have hin := (computeBinSwap_le hamounts).1
      rw [h.quote] at hamounts
      by_cases hall : i = s.amountLeft
      · rw [settle_all (s := s.atBin) hpays.some hleft hall] at hround
        rw [loop_of_done hleft hround] at hloop
        cases hloop
        subst hall
        exact .taken o f exhausted hamounts hpays.some rfl rfl
      · have hpart : i < s.amountLeft :=
          Nat.lt_of_le_of_ne hin fun heq => hall (BitVec.eq_of_toNat_eq heq)
        rw [settle_part (s := s.atBin) hpays.some hpart] at hround
        cases exhausted with
        | true =>
          exact .emptied i o f hamounts hpays.some hpart
            (hgo (samePlace_afterPart s i o) (fun id hid => paid_lookup hid)
              (paid_binStep _ _ _ _ _ _) hround)
        | false =>
          simp only [Bool.false_eq_true, ↓reduceIte] at hround
          rw [loop_of_done hleft hround] at hloop
          cases hloop
          exact .stopped i o f hamounts hpays.some hpart rfl rfl

end SwapState

end ArbitrageBot
