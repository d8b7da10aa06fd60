import ArbitrageBot.Amms.Machine
import ArbitrageBot.Lib.Loop

/-!
# The block ranges of pool discovery

`get_all_pools` of the Uniswap V3 and the Agni factory asks for the logs of inclusive block ranges,
one after the other. Each range starts a block behind the last one, and the loop stops as soon as
the next start is not below the target, so that a start that meets the target leaves the target out.
-/

namespace ArbitrageBot

open Lib

/-- A block to query at, by number, tag or hash. -/
inductive BlockId where
  | number (n : Nat)
  | tag
  | hash (h : BitVec 256)
  deriving DecidableEq, Repr

/-- `as_u64`. -/
def BlockId.asU64 : BlockId → Option Nat
  | .number n => some n
  | .tag => none
  | .hash _ => none

/-- The inclusive range of a log filter. -/
structure BlockRange where
  fromBlock : Nat
  toBlock : Nat
  deriving DecidableEq, Repr

namespace Discovery

/-- The loop: where the next range starts, and the ranges requested so far. -/
structure State where
  latestBlock : Nat
  requested : List BlockRange
  deriving DecidableEq, Repr

section

variable (prof : BuildProfile) (syncStep target : Nat)

/-- One round. -/
def request (s : State) : Outcome AMMError State := do
  let fromBlock := s.latestBlock
  let upper ← prof.unsigned 64 ((fromBlock : Int) + syncStep)
  let toBlock := min upper target
  let latestBlock ← prof.unsigned 64 ((toBlock : Int) + 1)
  return { latestBlock, requested := s.requested ++ [⟨fromBlock, toBlock⟩] }

def guard (s : State) : Bool := decide (s.latestBlock < target)

/-- The ranges from the creation block on; `none` when the loop needs more than `fuel` rounds. -/
def ranges (fuel creationBlock : Nat) : Option (Outcome AMMError (List BlockRange)) :=
  (Loop.run (guard target) (request prof syncStep target) fuel ⟨creationBlock, []⟩).map
    fun r => r.map State.requested

end

end Discovery

/-- The ranges of `UniswapV3Factory::get_all_pools`. -/
def UniswapV3Factory.getAllPoolsRanges (prof : BuildProfile) (fuel creationBlock : Nat)
    (blockNumber : BlockId) : Option (Outcome AMMError (List BlockRange)) :=
  Discovery.ranges prof 1000 (blockNumber.asU64.getD 0) fuel creationBlock

/-- The ranges of `AgniFactory::get_all_pools`. -/
def AgniFactory.getAllPoolsRanges (prof : BuildProfile) (fuel creationBlock : Nat)
    (blockNumber : BlockId) : Option (Outcome AMMError (List BlockRange)) :=
  Discovery.ranges prof 90000 (blockNumber.asU64.getD 0) fuel creationBlock

namespace Discovery

/-! ## Ranges that cover the blocks from `c` on -/

/-- The ranges are disjoint and of the right lengths, and hold exactly the blocks from `c` up to
below `t`. -/
structure Tile (syncStep c t : Nat) (ranges : List BlockRange) : Prop where
  bounds : ∀ r ∈ ranges, r.fromBlock ≤ r.toBlock ∧ r.toBlock ≤ r.fromBlock + syncStep
  disjoint : ranges.Pairwise fun r r' => r.toBlock < r'.fromBlock ∨ r'.toBlock < r.fromBlock
  exact : ∀ n, (∃ r ∈ ranges, r.fromBlock ≤ n ∧ n ≤ r.toBlock) ↔ c ≤ n ∧ n < t

variable {syncStep c t b : Nat} {ranges ranges' : List BlockRange}

namespace Tile

theorem nil : Tile syncStep c c [] := by
  refine ⟨by simp, List.Pairwise.nil, fun n => ?_⟩
  constructor
  · rintro ⟨r, hr, -⟩
    cases hr
  · omega

theorem from_lt (h : Tile syncStep c t ranges) {r : BlockRange} (hr : r ∈ ranges) :
    c ≤ r.fromBlock ∧ r.toBlock < t := by
  obtain ⟨hle, -⟩ := h.bounds r hr
  exact ⟨((h.exact r.fromBlock).mp ⟨r, hr, Nat.le_refl _, hle⟩).1,
    ((h.exact r.toBlock).mp ⟨r, hr, hle, Nat.le_refl _⟩).2⟩

/-- A range that starts where the others end. -/
theorem append (h : Tile syncStep c t ranges) {u : Nat} (hc : c ≤ t) (hle : t ≤ u)
    (hstep : u ≤ t + syncStep) : Tile syncStep c (u + 1) (ranges ++ [⟨t, u⟩]) := by
  refine ⟨?_, ?_, fun n => ?_⟩
  · intro r hr
    rcases List.mem_append.mp hr with hr | hr
    · exact h.bounds r hr
    · obtain rfl := List.mem_singleton.mp hr
      exact ⟨hle, hstep⟩
  · refine List.pairwise_append.mpr ⟨h.disjoint, List.pairwise_singleton _ _, ?_⟩
    intro r hr r' hr'
    obtain rfl := List.mem_singleton.mp hr'
    exact Or.inl (h.from_lt hr).2
  · have hn := h.exact n
    constructor
    · rintro ⟨r, hr, hfrom, hto⟩
      rcases List.mem_append.mp hr with hr | hr
      · have := hn.mp ⟨r, hr, hfrom, hto⟩
        omega
      · obtain rfl := List.mem_singleton.mp hr
        dsimp only at hfrom hto
        omega
    · intro hbetween
      by_cases hlt : n < t
      · obtain ⟨r, hr, hin⟩ := hn.mpr ⟨hbetween.1, hlt⟩
        exact ⟨r, List.mem_append_left _ hr, hin⟩
      · exact ⟨⟨t, u⟩, List.mem_append_right _ (List.mem_singleton_self _), by dsimp only; omega⟩

end Tile

/-- What ranges keep while others are added behind them. -/
structure Fine (c : Nat) (ranges : List BlockRange) : Prop where
  bounds : ∀ r ∈ ranges, r.fromBlock ≤ r.toBlock ∧ c ≤ r.fromBlock
  disjoint : ranges.Pairwise fun r r' => r.toBlock < r'.fromBlock ∨ r'.toBlock < r.fromBlock

theorem Tile.fine (h : Tile syncStep c t ranges) : Fine c ranges :=
  ⟨fun r hr => ⟨(h.bounds r hr).1, (h.from_lt hr).1⟩, h.disjoint⟩

theorem Fine.of_append (h : Fine c (ranges ++ ranges')) : Fine c ranges :=
  ⟨fun r hr => h.bounds r (List.mem_append_left _ hr), (List.pairwise_append.mp h.disjoint).1⟩

/-- A range at block zero does not fit behind ranges that cover the blocks from `c` on. -/
theorem Tile.not_fine_zero (h : Tile syncStep c t ranges) (hc : c < t) {u : Nat} :
    ¬ Fine c (ranges ++ [⟨0, u⟩]) := by
  intro hfine
  have hzero := (hfine.bounds ⟨0, u⟩ (List.mem_append_right _ (List.mem_singleton_self _))).2
  obtain ⟨r, hr, hfrom, -⟩ := (h.exact 0).mpr ⟨hzero, by dsimp only at hzero; omega⟩
  have hdisj := (List.pairwise_append.mp hfine.disjoint).2.2 r hr ⟨0, u⟩
    (List.mem_singleton_self _)
  dsimp only at hdisj
  omega

/-! ## One round -/

variable {prof : BuildProfile} {s s' : State}

/-- A round without overflow. -/
theorem request_of_lt (hupper : s.latestBlock + syncStep < 2 ^ 64)
    (hnext : min (s.latestBlock + syncStep) b + 1 < 2 ^ 64) :
    request prof syncStep b s = .ok ⟨min (s.latestBlock + syncStep) b + 1,
      s.requested ++ [⟨s.latestBlock, min (s.latestBlock + syncStep) b⟩]⟩ := by
  unfold request
  dsimp only
  rw [BuildProfile.unsigned_of_range (by omega) (by push_cast; omega), ok_bind]
  have hcast : ((s.latestBlock : Int) + syncStep).toNat = s.latestBlock + syncStep := by omega
  rw [hcast, BuildProfile.unsigned_of_range (by omega) (by push_cast; omega), ok_bind]
  rfl

/-- A round that returns has computed modulo `2 ^ 64`. -/
theorem request_eq_ok (h : request prof syncStep b s = .ok s') :
    s' = ⟨(min ((s.latestBlock + syncStep) % 2 ^ 64) b + 1) % 2 ^ 64,
      s.requested ++ [⟨s.latestBlock, min ((s.latestBlock + syncStep) % 2 ^ 64) b⟩]⟩ := by
  unfold request at h
  simp only [bind_eq_ok] at h
  obtain ⟨upper, hupper, latest, hlatest, h⟩ := h
  rw [← Int.natCast_add] at hupper
  have hup := BuildProfile.unsigned_eq_ok hupper
  have hcast : ((min upper b : Nat) : Int) + 1 = ((min upper b + 1 : Nat) : Int) := rfl
  rw [hcast] at hlatest
  have hlat := BuildProfile.unsigned_eq_ok hlatest
  cases h
  rw [hlat, hup]

/-! ## Runs -/

/-- The start of the last range. -/
def lastStart (syncStep c b : Nat) : Nat := b - (b - c) % (syncStep + 1)

/-- A start of the loop: some whole ranges behind the creation block, and not behind the last
start. -/
def Start (syncStep c b t : Nat) : Prop :=
  ∃ k, t = c + k * (syncStep + 1) ∧ t ≤ lastStart syncStep c b

theorem start_creation (hc : c ≤ b) : Start syncStep c b c := by
  have := Nat.mod_le (b - c) (syncStep + 1)
  unfold Start lastStart
  exact ⟨0, by omega, by omega⟩

theorem lastStart_eq (hc : c ≤ b) :
    lastStart syncStep c b = c + (b - c) / (syncStep + 1) * (syncStep + 1) ∧
      lastStart syncStep c b ≤ b ∧ b ≤ lastStart syncStep c b + syncStep := by
  have hdiv := Nat.div_add_mod (b - c) (syncStep + 1)
  have hmod := Nat.mod_lt (b - c) (by omega : 0 < syncStep + 1)
  rw [Nat.mul_comm] at hdiv
  unfold lastStart
  omega

/-- Before the last start a whole range fits below it. -/
theorem Start.next (hc : c ≤ b) (h : Start syncStep c b t) (hne : t ≠ lastStart syncStep c b) :
    t + syncStep < lastStart syncStep c b ∧ Start syncStep c b (t + syncStep + 1) := by
  obtain ⟨k, hk, hle⟩ := h
  obtain ⟨hlast, -⟩ := @lastStart_eq syncStep c b hc
  generalize (b - c) / (syncStep + 1) = q at hlast
  have hlt : k < q := by
    by_contra hge
    have := Nat.mul_le_mul_right (syncStep + 1) (Nat.le_of_not_lt hge)
    omega
  have hmul := Nat.mul_le_mul_right (syncStep + 1) hlt
  rw [Nat.succ_mul] at hmul
  exact ⟨by omega, k + 1, by rw [Nat.succ_mul]; omega, by omega⟩

/-- The last start meets the target exactly when the distance is a multiple of the step. -/
theorem lastStart_eq_target (hc : c ≤ b) :
    lastStart syncStep c b = b ↔ (b - c) % (syncStep + 1) = 0 := by
  have := Nat.mod_le (b - c) (syncStep + 1)
  unfold lastStart
  omega

/-- At the head of a loop whose sums fit: the requested ranges tile the blocks below the start. -/
def Tiled (syncStep c b : Nat) (s : State) : Prop :=
  Tile syncStep c s.latestBlock s.requested ∧ c ≤ s.latestBlock ∧
    (Start syncStep c b s.latestBlock ∨
      s.latestBlock = b + 1 ∧ lastStart syncStep c b ≠ b)

/-- A round from a start, without overflow, keeps the tiling and comes nearer to the target. -/
theorem Tiled.request (hc : c ≤ b) (hb : b < 2 ^ 64)
    (hsums : lastStart syncStep c b ≠ b → lastStart syncStep c b + syncStep < 2 ^ 64 ∧
      b + 1 < 2 ^ 64)
    (h : Tiled syncStep c b s) (hlt : s.latestBlock < b) :
    ∃ s', request prof syncStep b s = .ok s' ∧ Tiled syncStep c b s' ∧
      b + 1 - s'.latestBlock < b + 1 - s.latestBlock := by
  obtain ⟨htile, hcl, hstart | ⟨hover, -⟩⟩ := h
  · obtain ⟨-, hle, hge⟩ := @lastStart_eq syncStep c b hc
    by_cases hlast : s.latestBlock = lastStart syncStep c b
    · -- the last range, up to the target
      obtain ⟨hupper, hnext⟩ := hsums (by omega)
      have hmin : min (s.latestBlock + syncStep) b = b := by omega
      refine ⟨_, request_of_lt (by omega) (by omega), ?_, ?_⟩
      · rw [hmin]
        exact ⟨htile.append hcl hlt.le (by omega), by dsimp only; omega, Or.inr ⟨rfl, by omega⟩⟩
      · dsimp only
        omega
    · obtain ⟨hfit, hstart'⟩ := hstart.next hc hlast
      have hmin : min (s.latestBlock + syncStep) b = s.latestBlock + syncStep := by omega
      refine ⟨_, request_of_lt (by omega) (by omega), ?_, ?_⟩
      · rw [hmin]
        exact ⟨htile.append hcl (by omega) (by omega), by dsimp only; omega, Or.inl hstart'⟩
      · dsimp only
        omega
  · omega

/-- The sums that a run computes last do not overflow. -/
def SumsFit (syncStep c b : Nat) : Prop :=
  lastStart syncStep c b + syncStep < 2 ^ 64 ∧ b + 1 < 2 ^ 64

/-- The loop asks for ranges that are disjoint, of the right lengths, and hold exactly the blocks
from `c` to `b`. -/
def SkipsNothing (prof : BuildProfile) (syncStep c b : Nat) : Prop :=
  ∃ fuel ranges, Discovery.ranges prof syncStep b fuel c = some (.ok ranges) ∧
    Tile syncStep c (b + 1) ranges

/-- Every head of a loop whose sums fit. -/
theorem heads_tiled (hc : c ≤ b) (hb : b < 2 ^ 64)
    (hsums : lastStart syncStep c b ≠ b → SumsFit syncStep c b)
    (h : Loop.Heads (guard b) (request prof syncStep b) ⟨c, []⟩ s) : Tiled syncStep c b s := by
  refine h.inv ⟨Tile.nil, Nat.le_refl _, Or.inl (start_creation hc)⟩ fun s s' hs hguard hbody => ?_
  obtain ⟨t, ht, htiled, -⟩ := hs.request hc hb hsums (of_decide_eq_true hguard)
  rw [ht] at hbody
  cases hbody
  exact htiled

/-- A run whose sums fit ends with a tiling. -/
theorem run_tiled (prof : BuildProfile) (hc : c ≤ b) (hb : b < 2 ^ 64)
    (hsums : lastStart syncStep c b ≠ b → SumsFit syncStep c b) :
    ∃ fuel s, Loop.run (guard b) (request prof syncStep b) fuel ⟨c, []⟩ = some (.ok s) ∧
      Tiled syncStep c b s ∧ b ≤ s.latestBlock := by
  have hfirst : Tiled syncStep c b ⟨c, []⟩ := ⟨Tile.nil, Nat.le_refl _, Or.inl (start_creation hc)⟩
  have hround : ∀ s, Tiled syncStep c b s → guard b s = true →
      ∃ s', request prof syncStep b s = .ok s' ∧ Tiled syncStep c b s' ∧
        b + 1 - s'.latestBlock < b + 1 - s.latestBlock :=
    fun s hs hguard => hs.request hc hb hsums (of_decide_eq_true hguard)
  obtain ⟨r, hr⟩ := Loop.run_total (I := Tiled syncStep c b) (fun s => b + 1 - s.latestBlock)
    (fun s hs hguard => Or.inr (hround s hs hguard)) hfirst (Nat.lt_succ_self _)
  rcases Loop.run_eq_some hr with ⟨s, rfl, hheads, hend⟩ | ⟨s, e, -, hheads, hguard, hbody⟩
  · exact ⟨_, s, hr, heads_tiled hc hb hsums hheads, Nat.le_of_not_lt (of_decide_eq_false hend)⟩
  · obtain ⟨s', hs', -⟩ := hround s (heads_tiled hc hb hsums hheads) hguard
    rw [hbody] at hs'
    cases hs'

/-- At the head of a loop whose last sums overflow: before the last start, behind the overflow of
the start after the target, or with a range that does not fit. -/
def Astray (syncStep c b : Nat) (s : State) : Prop :=
  (Tile syncStep c s.latestBlock s.requested ∧ c ≤ s.latestBlock ∧
      Start syncStep c b s.latestBlock) ∨
    (s.latestBlock = 0 ∧ Tile syncStep c (b + 1) s.requested) ∨ ¬ Fine c s.requested

theorem Astray.request (hc : c ≤ b) (hb : b < 2 ^ 64) (hstep : syncStep < 2 ^ 64)
    (hover : ¬ SumsFit syncStep c b) (h : Astray syncStep c b s)
    (hbody : request prof syncStep b s = .ok s') : Astray syncStep c b s' := by
  have hs' := request_eq_ok hbody
  rw [hs']
  obtain ⟨-, hle, hge⟩ := @lastStart_eq syncStep c b hc
  rcases h with ⟨htile, hcl, hstart⟩ | ⟨hzero, htile⟩ | hbad
  · by_cases hlast : s.latestBlock = lastStart syncStep c b
    · by_cases hupper : s.latestBlock + syncStep < 2 ^ 64
      · -- the range ends at the target, and the next start wraps to zero
        have hb' : b + 1 = 2 ^ 64 := by
          unfold SumsFit at hover
          omega
        have hmin : min ((s.latestBlock + syncStep) % 2 ^ 64) b = b := by
          rw [Nat.mod_eq_of_lt hupper]
          omega
        rw [hmin, hb', Nat.mod_self]
        refine Or.inr (Or.inl ⟨rfl, ?_⟩)
        have htile' := htile.append hcl (by omega : s.latestBlock ≤ b) (by omega)
        exact htile'
      · -- the upper end wraps below the start
        refine Or.inr (Or.inr fun hfine => ?_)
        have hbounds := (hfine.bounds _ (List.mem_append_right _ (List.mem_singleton_self _))).1
        dsimp only at hbounds
        omega
    · obtain ⟨hfit, hstart'⟩ := hstart.next hc hlast
      have hmin : min ((s.latestBlock + syncStep) % 2 ^ 64) b = s.latestBlock + syncStep := by
        rw [Nat.mod_eq_of_lt (by omega)]
        omega
      rw [hmin, Nat.mod_eq_of_lt (by omega : s.latestBlock + syncStep + 1 < 2 ^ 64)]
      exact Or.inl ⟨htile.append hcl (by omega) (by omega), by dsimp only; omega, hstart'⟩
  · rw [hzero]
    exact Or.inr (Or.inr (htile.not_fine_zero (by omega)))
  · exact Or.inr (Or.inr fun hfine => hbad hfine.of_append)

/-- The loop that skips nothing has ended at a head. -/
theorem SkipsNothing.head (h : SkipsNothing prof syncStep c b) :
    ∃ s, Loop.Heads (guard b) (request prof syncStep b) ⟨c, []⟩ s ∧ b ≤ s.latestBlock ∧
      Tile syncStep c (b + 1) s.requested := by
  obtain ⟨fuel, ranges, hrun, htile⟩ := h
  obtain ⟨r, hr, hmap⟩ := Option.map_eq_some_iff.mp hrun
  rcases Loop.run_eq_some hr with ⟨s, rfl, hheads, hend⟩ | ⟨s, e, rfl, -⟩
  · cases hmap
    exact ⟨s, hheads, Nat.le_of_not_lt (of_decide_eq_false hend), htile⟩
  · cases hmap

/-- A run whose last sums overflow asks for no tiling. -/
theorem sumsFit_of_skipsNothing (hc : c ≤ b) (hb : b < 2 ^ 64) (hstep : syncStep < 2 ^ 64)
    (hlast : lastStart syncStep c b ≠ b) (h : SkipsNothing prof syncStep c b) :
    SumsFit syncStep c b := by
  by_contra hover
  obtain ⟨s, hheads, hle, htile⟩ := h.head
  obtain ⟨-, hle', -⟩ := @lastStart_eq syncStep c b hc
  have hfirst : Astray syncStep c b ⟨c, []⟩ :=
    Or.inl ⟨Tile.nil, Nat.le_refl _, start_creation hc⟩
  have hs : Astray syncStep c b s :=
    hheads.inv hfirst fun s s' hs _ hbody => hs.request hc hb hstep hover hbody
  rcases hs with ⟨-, -, ⟨k, -, hstart⟩⟩ | ⟨hzero, -⟩ | hbad
  · omega
  · omega
  · exact hbad htile.fine

/-- A run whose last start is the target leaves the target out. -/
theorem lastStart_ne_of_skipsNothing (hc : c ≤ b) (hb : b < 2 ^ 64)
    (h : SkipsNothing prof syncStep c b) : lastStart syncStep c b ≠ b := by
  intro hlast
  obtain ⟨s, hheads, hle, htile⟩ := h.head
  obtain ⟨htile', -, ⟨k, -, hstart⟩ | ⟨-, hne⟩⟩ :=
    heads_tiled hc hb (fun hne => absurd hlast hne) hheads
  · have hlatest : s.latestBlock = b := by omega
    have hin := (htile.exact b).mpr ⟨hc, by omega⟩
    have hout := (htile'.exact b).mp hin
    omega
  · exact hne hlast

/-- **A loop of one step** skips nothing exactly when the distance of the blocks is no multiple of
the step plus one and its last sums fit. -/
theorem skipsNothing_iff (hc : c ≤ b) (hb : b < 2 ^ 64) (hstep : syncStep < 2 ^ 64) :
    SkipsNothing prof syncStep c b ↔
      (b - c) % (syncStep + 1) ≠ 0 ∧ lastStart syncStep c b + syncStep < 2 ^ 64 ∧
        b + 1 < 2 ^ 64 := by
  have hiff := @lastStart_eq_target syncStep c b hc
  constructor
  · intro h
    have hlast := lastStart_ne_of_skipsNothing hc hb h
    exact ⟨fun h0 => hlast (hiff.mpr h0), sumsFit_of_skipsNothing hc hb hstep hlast h⟩
  · intro ⟨hres, hfit⟩
    obtain ⟨fuel, s, hrun, ⟨htile, -, hend⟩, hle⟩ := run_tiled prof hc hb fun _ => hfit
    obtain ⟨-, hle', -⟩ := @lastStart_eq syncStep c b hc
    have hlatest : s.latestBlock = b + 1 := by
      rcases hend with ⟨k, -, hstart⟩ | ⟨hlatest, -⟩
      · have hlast : lastStart syncStep c b ≠ b := fun h => hres (hiff.mp h)
        omega
      · exact hlatest
    refine ⟨fuel, s.requested, ?_, hlatest ▸ htile⟩
    unfold Discovery.ranges
    rw [hrun]
    rfl

end Discovery

open Discovery

/-- **Pool discovery** of both factories skips no block exactly when the distance from the creation
block to the target is no multiple of the step plus one, and neither the last range's upper end nor
the start behind the target overflows. -/
theorem getAllPoolsRanges_skip_nothing_iff (prof : BuildProfile) {creationBlock b : Nat}
    (hc : creationBlock ≤ b) (hb : b < 2 ^ 64) :
    ((∃ fuel ranges, UniswapV3Factory.getAllPoolsRanges prof fuel creationBlock (.number b) =
        some (.ok ranges) ∧ Tile 1000 creationBlock (b + 1) ranges) ↔
      (b - creationBlock) % 1001 ≠ 0 ∧ b - (b - creationBlock) % 1001 + 1000 < 2 ^ 64 ∧
        b + 1 < 2 ^ 64) ∧
    ((∃ fuel ranges, AgniFactory.getAllPoolsRanges prof fuel creationBlock (.number b) =
        some (.ok ranges) ∧ Tile 90000 creationBlock (b + 1) ranges) ↔
      (b - creationBlock) % 90001 ≠ 0 ∧ b - (b - creationBlock) % 90001 + 90000 < 2 ^ 64 ∧
        b + 1 < 2 ^ 64) :=
  ⟨skipsNothing_iff hc hb (by omega), skipsNothing_iff hc hb (by omega)⟩

theorem getAllPoolsRanges_skip_nothing_iff_small :
    ((∃ fuel ranges, UniswapV3Factory.getAllPoolsRanges ⟨false⟩ fuel 7 (.number 2009) =
        some (.ok ranges) ∧ Tile 1000 7 (2009 + 1) ranges) ↔
      (2009 - 7) % 1001 ≠ 0 ∧ 2009 - (2009 - 7) % 1001 + 1000 < 2 ^ 64 ∧ 2009 + 1 < 2 ^ 64) ∧
    ((∃ fuel ranges, AgniFactory.getAllPoolsRanges ⟨false⟩ fuel 7 (.number 2009) =
        some (.ok ranges) ∧ Tile 90000 7 (2009 + 1) ranges) ↔
      (2009 - 7) % 90001 ≠ 0 ∧ 2009 - (2009 - 7) % 90001 + 90000 < 2 ^ 64 ∧ 2009 + 1 < 2 ^ 64) :=
  getAllPoolsRanges_skip_nothing_iff ⟨false⟩ (by omega) (by omega)

/-- Discovery of one block asks for nothing. -/
theorem getAllPoolsRanges_same_block :
    ¬ ∀ (prof : BuildProfile) (creationBlock b : Nat), creationBlock ≤ b → b < 2 ^ 64 →
      ∃ fuel ranges, UniswapV3Factory.getAllPoolsRanges prof fuel creationBlock (.number b) =
        some (.ok ranges) ∧ Tile 1000 creationBlock (b + 1) ranges := by
  intro h
  obtain ⟨fuel, ranges, hrun, htile⟩ := h ⟨true⟩ 1000 1000 (by omega) (by omega)
  have hnone : UniswapV3Factory.getAllPoolsRanges ⟨true⟩ fuel 1000 (.number 1000) =
      some (.ok []) := by
    cases fuel <;> rfl
  rw [hnone] at hrun
  cases hrun
  obtain ⟨r, hr, -⟩ := (htile.exact 1000).mpr (by omega)
  cases hr

end ArbitrageBot
