import ArbitrageBot.Arbitrage.Optimizer
import ArbitrageBot.Lib.Bisection

/-!
# What the optimizer returns

The loop of `optimize` is a bisection of the inputs up to a bound, whatever the simulations answer
(`span_answer`). It returns the largest input it tried that beats the minimal profit, with its
simulation (`optimize_sound`); that is the best input it tried exactly when none of the others that
beat the minimal profit earns more (`optimize_best_iff`).
-/

namespace ArbitrageBot

open Lib Bisection

/-! ## A simulation that succeeds -/

section

variable {env : SwapEnv} {path : ArbitragePath} {pools : List AMM} {amount : U256}
  {sim : OptimizationResult}

/-- The amounts of a simulation that succeeds. -/
theorem simulatePath_eq_ok_some (h : simulatePath env path pools amount = some (.ok (some sim))) :
    amount ≠ 0 ∧ sim.optimalInput = amount ∧
      sim.outputAmount.toNat = amount.toNat + sim.expectedProfit.toNat := by
  unfold simulatePath at h
  split at h
  · cases h
  split at h
  · cases h
  rename_i hzero
  obtain ⟨result, -, hresult⟩ := Option.map_eq_some_iff.mp h
  cases result with
  | error e => cases hresult
  | ok last =>
    have hlast : last.bind (resultFor path amount) = some sim := Except.ok.inj hresult
    obtain ⟨current, -, hsim⟩ := Option.bind_eq_some_iff.mp hlast
    unfold resultFor at hsim
    split at hsim
    · rename_i hle
      cases hsim
      refine ⟨hzero, rfl, ?_⟩
      rw [BitVec.le_def] at hle
      dsimp only
      rw [BitVec.toNat_sub_of_le (BitVec.le_def.mpr hle)]
      omega
    · cases hsim

end

/-! ## The loop as a bisection -/

namespace OptimizationConfig

/-- The inputs are searched up to this bound. -/
def cap (config : OptimizationConfig) : Nat := min (10 ^ 18) config.maxInput.toNat

theorem cap_lt (config : OptimizationConfig) : config.cap < 2 ^ 60 := by
  unfold cap
  omega

/-- The simulation beats the minimal profit. -/
def beats (config : OptimizationConfig) : Option OptimizationResult → Bool
  | some sim => decide (sim.expectedProfit > config.minProfit)
  | none => false

end OptimizationConfig

namespace Search

def span (s : Search) : Span := ⟨s.low.toNat, s.high.toNat⟩

variable {config : OptimizationConfig} {s : Search} {simulation : Option OptimizationResult}

theorem span_start (config : OptimizationConfig) : (start config).span = ⟨0, config.cap⟩ := by
  have hguess : (1000000000000000000#256).toNat = 10 ^ 18 := rfl
  unfold span start OptimizationConfig.cap
  dsimp only
  split
  · rename_i h
    rw [BitVec.le_def, hguess] at h
    rw [hguess, Nat.min_eq_left h]
    rfl
  · rename_i h
    rw [BitVec.le_def, hguess] at h
    rw [Nat.min_eq_right (by omega)]
    rfl

theorem within_start (config : OptimizationConfig) : (start config).span.Within config.cap := by
  rw [span_start]
  exact Span.within_start _

/-- The sum of the bounds does not wrap. -/
theorem toNat_mid (h : s.span.Within config.cap) : s.mid.toNat = s.span.mid := by
  have hlow : s.low.toNat ≤ config.cap + 1 := h.low_le
  have hhigh : s.high.toNat ≤ config.cap := h.high_le
  have hcap := config.cap_lt
  unfold mid Span.mid span
  rw [BitVec.toNat_ushiftRight, BitVec.toNat_add, Nat.mod_eq_of_lt (by omega),
    Nat.shiftRight_eq_div_pow, Nat.pow_one]

theorem span_lowered (h : s.span.Within config.cap) : s.lowered.span = s.span.next false := by
  have hmid := toNat_mid h
  have hone : (1 : U256).toNat = 1 := rfl
  unfold lowered span Span.next
  rw [if_neg Bool.false_ne_true]
  unfold span at hmid
  rw [← hmid]
  dsimp only
  split
  · rename_i hle
    rw [BitVec.toNat_sub_of_le hle, hone]
  · rename_i hle
    rw [BitVec.le_def, hone] at hle
    have hzero : (0 : U256).toNat = 0 := rfl
    rw [hzero, Nat.sub_eq_zero_of_le (by omega)]

/-- **An answer** of the simulation is an answer of the bisection. -/
theorem span_answer (h : s.span.Within config.cap) :
    (s.answer config simulation).span = s.span.next (config.beats simulation) := by
  have hmid := toNat_mid h
  have hle := h.mid_le
  have hcap := config.cap_lt
  cases simulation with
  | none => exact span_lowered h
  | some sim =>
    unfold answer OptimizationConfig.beats
    by_cases hbeats : sim.expectedProfit > config.minProfit
    · have hone : (1 : U256).toNat = 1 := rfl
      simp only [hbeats, decide_true, ↓reduceIte]
      unfold span Span.next
      rw [if_pos rfl]
      dsimp only
      unfold span at hmid hle
      rw [BitVec.toNat_add, hmid, hone, Nat.mod_eq_of_lt (by omega)]
    · simp only [hbeats, decide_false, ↓reduceIte]
      exact span_lowered h

theorem within_answer (h : s.span.Within config.cap) :
    (s.answer config simulation).span.Within config.cap := by
  rw [span_answer h]
  exact h.next

/-- Over any answers, the bounds stay within the search. -/
theorem within_answers (answers : List (Option OptimizationResult))
    (h : s.span.Within config.cap) :
    (answers.foldl (answer config) s).span.Within config.cap := by
  induction answers generalizing s with
  | nil => exact h
  | cons simulation answers ih => exact ih (within_answer h)

end Search

/-! ## The runs of the loop -/

section Loop

variable (env : SwapEnv) (config : OptimizationConfig) (path : ArbitragePath) (pools : List AMM)

/-- The simulation of an amount beats the minimal profit. -/
def beatsAt (amount : Nat) : Bool :=
  match simulatePath env path pools (BitVec.ofNat 256 amount) with
  | some (.ok simulation) => config.beats simulation
  | _ => false

/-- The profit of an amount. -/
def earned (amount : Nat) : Nat :=
  match simulatePath env path pools (BitVec.ofNat 256 amount) with
  | some (.ok (some sim)) => sim.expectedProfit.toNat
  | _ => 0

/-- The amounts that a bisection of the inputs for the minimal profit visits. -/
def visited : List Nat :=
  visits (beatsAt env config path pools) config.maxIterations ⟨0, config.cap⟩

/-- The search simulates an amount. -/
def Probed (amount : U256) : Prop :=
  ∃ i s, i < config.maxIterations ∧
    searchLoop env config path pools i (.start config) = some (.ok s) ∧ s.mid = amount

variable {env config path pools} {s t : Search} {n : Nat}

/-- One round of a loop that returns. -/
theorem searchLoop_succ (h : searchLoop env config path pools (n + 1) s = some (.ok t)) :
    ∃ simulation, simulatePath env path pools s.mid = some (.ok simulation) ∧
      searchLoop env config path pools n (s.answer config simulation) = some (.ok t) := by
  unfold searchLoop at h
  split at h
  · cases h
  · cases h
  · cases h
  · rename_i simulation hsim
    exact ⟨simulation, hsim, h⟩

theorem searchLoop_of_round {simulation : Option OptimizationResult}
    (h : simulatePath env path pools s.mid = some (.ok simulation)) :
    searchLoop env config path pools (n + 1) s =
      searchLoop env config path pools n (s.answer config simulation) := by
  rw [searchLoop, h]

theorem beatsAt_mid (hs : s.span.Within config.cap) {simulation : Option OptimizationResult}
    (h : simulatePath env path pools s.mid = some (.ok simulation)) :
    beatsAt env config path pools s.span.mid = config.beats simulation := by
  unfold beatsAt
  rw [← Search.toNat_mid hs, BitVec.ofNat_toNat, BitVec.setWidth_eq, h]

theorem searchLoop_within (hs : s.span.Within config.cap)
    (h : searchLoop env config path pools n s = some (.ok t)) : t.span.Within config.cap := by
  induction n generalizing s with
  | zero =>
    cases h
    exact hs
  | succ n ih =>
    obtain ⟨simulation, -, h⟩ := searchLoop_succ h
    exact ih (Search.within_answer hs) h

/-- The bounds after the loop are those of the bisection. -/
theorem searchLoop_span (hs : s.span.Within config.cap)
    (h : searchLoop env config path pools n s = some (.ok t)) :
    t.span = run (beatsAt env config path pools) n s.span := by
  induction n generalizing s with
  | zero =>
    cases h
    rfl
  | succ n ih =>
    obtain ⟨simulation, hsim, h⟩ := searchLoop_succ h
    rw [ih (Search.within_answer hs) h, Search.span_answer hs, run, beatsAt_mid hs hsim]

/-- The amounts that the rounds of a loop that returns simulate are the visited ones. -/
theorem mem_visits_iff (hs : s.span.Within config.cap)
    (h : searchLoop env config path pools n s = some (.ok t)) {m : Nat} :
    m ∈ visits (beatsAt env config path pools) n s.span ↔
      ∃ i s', i < n ∧ searchLoop env config path pools i s = some (.ok s') ∧ s'.mid.toNat = m := by
  induction n generalizing s with
  | zero =>
    constructor
    · intro hm
      cases hm
    · rintro ⟨i, -, hi, -⟩
      omega
  | succ n ih =>
    obtain ⟨simulation, hsim, h⟩ := searchLoop_succ h
    have hrest := ih (Search.within_answer hs) h
    rw [Search.span_answer hs, ← beatsAt_mid hs hsim] at hrest
    rw [visits, List.mem_cons, hrest]
    constructor
    · rintro (rfl | ⟨i, s', hi, hloop, hmid⟩)
      · exact ⟨0, s, Nat.zero_lt_succ n, rfl, Search.toNat_mid hs⟩
      · exact ⟨i + 1, s', by omega, (searchLoop_of_round hsim).trans hloop, hmid⟩
    · rintro ⟨i, s', hi, hloop, hmid⟩
      cases i with
      | zero =>
        cases hloop
        exact Or.inl (hmid.symm.trans (Search.toNat_mid hs))
      | succ i =>
        rw [searchLoop_of_round hsim] at hloop
        exact Or.inr ⟨i, s', by omega, hloop, hmid⟩

/-- What is known of the best result: its simulation, that it beats the minimal profit, and that
the lower bound stands above it. -/
structure Found (env : SwapEnv) (config : OptimizationConfig) (path : ArbitragePath)
    (pools : List AMM) (s : Search) (r : OptimizationResult) : Prop where
  simulated : simulatePath env path pools r.optimalInput = some (.ok (some r))
  beats : r.expectedProfit > config.minProfit
  low_eq : s.low.toNat = r.optimalInput.toNat + 1
  le : r.optimalInput.toNat ≤ config.cap

/-- A best result found in the loop was visited. -/
theorem searchLoop_best (hs : s.span.Within config.cap)
    (hbest : ∀ r, s.bestResult = some r → Found env config path pools s r)
    (h : searchLoop env config path pools n s = some (.ok t)) {r : OptimizationResult}
    (hr : t.bestResult = some r) :
    Found env config path pools t r ∧ (s.bestResult = some r ∨
      r.optimalInput.toNat ∈ visits (beatsAt env config path pools) n s.span) := by
  induction n generalizing s with
  | zero =>
    cases h
    exact ⟨hbest r hr, Or.inl hr⟩
  | succ n ih =>
    obtain ⟨simulation, hsim, h⟩ := searchLoop_succ h
    have hmid := Search.toNat_mid hs
    have hspan := @Search.span_answer config s simulation hs
    by_cases hbeats : config.beats simulation = true
    · cases simulation with
      | none => cases hbeats
      | some sim =>
        have hprofit : sim.expectedProfit > config.minProfit := of_decide_eq_true hbeats
        have hstep : s.answer config (some sim) =
            { s with bestResult := some sim, low := s.mid + 1 } := if_pos hprofit
        obtain ⟨-, hinput, -⟩ := simulatePath_eq_ok_some hsim
        have hlow : (s.answer config (some sim)).low.toNat = s.span.mid + 1 := by
          have := congrArg Span.low hspan
          rw [hbeats] at this
          exact this
        have hfound : Found env config path pools (s.answer config (some sim)) sim :=
          ⟨hinput ▸ hsim, hprofit, by rw [hlow, hinput, hmid],
            by rw [hinput, hmid]; exact hs.mid_le⟩
        have hnew : (s.answer config (some sim)).bestResult = some sim := by rw [hstep]
        obtain ⟨hfinal, hseen⟩ := ih (Search.within_answer hs)
          (fun r' hr' => by rw [hnew] at hr'; cases hr'; exact hfound) h
        refine ⟨hfinal, Or.inr ?_⟩
        rw [visits, beatsAt_mid hs hsim, ← hspan]
        rcases hseen with hseen | hseen
        · rw [hnew] at hseen
          cases hseen
          rw [hinput, hmid]
          exact List.mem_cons_self ..
        · exact List.mem_cons_of_mem _ hseen
    · have hstep : s.answer config simulation = s.lowered := by
        cases simulation with
        | none => rfl
        | some sim => exact if_neg fun hprofit => hbeats (decide_eq_true hprofit)
      have hkept : ∀ r', (s.answer config simulation).bestResult = some r' →
          Found env config path pools (s.answer config simulation) r' := by
        intro r' hr'
        rw [hstep] at hr' ⊢
        obtain ⟨hsim', hbeats', hlow', hle'⟩ := hbest r' hr'
        exact ⟨hsim', hbeats', hlow', hle'⟩
      obtain ⟨hfinal, hseen⟩ := ih (Search.within_answer hs) hkept h
      refine ⟨hfinal, ?_⟩
      rw [visits, beatsAt_mid hs hsim, ← hspan]
      rcases hseen with hseen | hseen
      · rw [hstep] at hseen
        exact Or.inl hseen
      · exact Or.inr (List.mem_cons_of_mem _ hseen)

/-- The result of the optimizer is the best result of its loop. -/
theorem optimize_eq_ok {best : Option OptimizationResult}
    (h : optimize env config path pools = some (.ok best)) :
    ∃ t, searchLoop env config path pools config.maxIterations (.start config) = some (.ok t) ∧
      t.bestResult = best := by
  unfold optimize at h
  split at h
  · cases h
  · obtain ⟨result, hloop, hresult⟩ := Option.map_eq_some_iff.mp h
    cases result with
    | error e => cases hresult
    | ok t => exact ⟨t, hloop, Except.ok.inj hresult⟩

/-- A result: it was found, it was visited, and the accepted visits are not above it. -/
theorem optimize_found {r : OptimizationResult}
    (h : optimize env config path pools = some (.ok (some r))) :
    ∃ t, searchLoop env config path pools config.maxIterations (.start config) = some (.ok t) ∧
      Found env config path pools t r ∧ r.optimalInput.toNat ∈ visited env config path pools ∧
      ∀ m ∈ visited env config path pools, beatsAt env config path pools m = true →
        m ≤ r.optimalInput.toNat := by
  obtain ⟨t, hloop, hbest⟩ := optimize_eq_ok h
  have hstart := Search.within_start config
  obtain ⟨hfound, hseen⟩ := searchLoop_best hstart (fun r' hr' => by cases hr') hloop hbest
  have hspan := searchLoop_span hstart hloop
  rw [Search.span_start] at hstart hspan hseen
  refine ⟨t, hloop, hfound, ?_, fun m hm hacc => ?_⟩
  · rcases hseen with hseen | hseen
    · cases hseen
    · exact hseen
  · have hlt := accepted_lt_run hstart hm hacc
    rw [← hspan] at hlt
    have hlow := hfound.low_eq
    unfold Search.span at hlt
    dsimp only at hlt
    omega

end Loop

/-! ## Main results -/

variable {env : SwapEnv} {config : OptimizationConfig} {path : ArbitragePath} {pools : List AMM}

/-- Every amount that the search simulates is within its bound. -/
theorem Probed.le {amount : U256} (h : Probed env config path pools amount) :
    amount.toNat ≤ config.cap := by
  obtain ⟨i, s, -, hloop, rfl⟩ := h
  have hs := searchLoop_within (Search.within_start config) hloop
  rw [Search.toNat_mid hs]
  exact hs.mid_le

/-- **Results are sound**: a result is the simulation of a positive input within the bound, with a
profit above the minimum; and no input beyond the bound is simulated, whatever the simulations
answer. -/
theorem optimize_sound (env : SwapEnv) (config : OptimizationConfig) (path : ArbitragePath)
    (pools : List AMM) :
    (∀ r, optimize env config path pools = some (.ok (some r)) →
      0 < r.optimalInput.toNat ∧ r.optimalInput.toNat ≤ min (10 ^ 18) config.maxInput.toNat ∧
      r.expectedProfit > config.minProfit ∧
      r.outputAmount.toNat = r.optimalInput.toNat + r.expectedProfit.toNat ∧
      simulatePath env path pools r.optimalInput = some (.ok (some r))) ∧
    (∀ amount, Probed env config path pools amount →
      amount.toNat ≤ min (10 ^ 18) config.maxInput.toNat) ∧
    ∀ answers : List (Option OptimizationResult),
      (answers.foldl (Search.answer config) (.start config)).mid.toNat ≤
        min (10 ^ 18) config.maxInput.toNat := by
  refine ⟨fun r h => ?_, fun amount h => h.le, fun answers => ?_⟩
  · obtain ⟨t, -, hfound, -⟩ := optimize_found h
    obtain ⟨hzero, -, hout⟩ := simulatePath_eq_ok_some hfound.simulated
    have hpos : 0 < r.optimalInput.toNat :=
      BitVec.toNat_pos_of_ne_zero hzero
    exact ⟨hpos, hfound.le, hfound.beats, hout, hfound.simulated⟩
  · have hs := Search.within_answers answers (Search.within_start config)
    rw [Search.toNat_mid hs]
    exact hs.mid_le

/-- Of the visited amounts that beat the minimal profit, the largest earns most. -/
def LargestEarnsMost (env : SwapEnv) (config : OptimizationConfig) (path : ArbitragePath)
    (pools : List AMM) : Prop :=
  ∀ b ∈ visited env config path pools, beatsAt env config path pools b = true →
    (∀ m ∈ visited env config path pools, beatsAt env config path pools m = true → m ≤ b) →
    ∀ a ∈ visited env config path pools, beatsAt env config path pools a = true →
      earned env path pools a ≤ earned env path pools b

theorem earned_toNat {amount : U256} {sim : OptimizationResult}
    (h : simulatePath env path pools amount = some (.ok (some sim))) :
    earned env path pools amount.toNat = sim.expectedProfit.toNat := by
  unfold earned
  rw [BitVec.ofNat_toNat, BitVec.setWidth_eq, h]

theorem beatsAt_toNat {amount : U256} {sim : OptimizationResult}
    (h : simulatePath env path pools amount = some (.ok (some sim))) :
    beatsAt env config path pools amount.toNat = true ↔ sim.expectedProfit > config.minProfit := by
  unfold beatsAt
  rw [BitVec.ofNat_toNat, BitVec.setWidth_eq, h]
  exact decide_eq_true_iff

/-- Amounts that beat the minimal profit have simulations. -/
theorem exists_simulation {m : Nat} (h : beatsAt env config path pools m = true) :
    ∃ sim, simulatePath env path pools (BitVec.ofNat 256 m) = some (.ok (some sim)) ∧
      earned env path pools m = sim.expectedProfit.toNat := by
  unfold beatsAt at h
  split at h
  · rename_i simulation hsim
    cases simulation with
    | none => cases h
    | some sim =>
      refine ⟨sim, hsim, ?_⟩
      unfold earned
      rw [hsim]
  · cases h

/-- **The result is the best input that was tried** exactly when, of the visited amounts that beat
the minimal profit, the largest earns most. -/
theorem optimize_best_iff {r : OptimizationResult}
    (h : optimize env config path pools = some (.ok (some r))) :
    (∀ amount sim, Probed env config path pools amount →
      simulatePath env path pools amount = some (.ok (some sim)) →
        sim.expectedProfit ≤ r.expectedProfit) ↔
    LargestEarnsMost env config path pools := by
  obtain ⟨t, hloop, hfound, hvisited, hlargest⟩ := optimize_found h
  have hprobed := fun m => mem_visits_iff (m := m) (Search.within_start config) hloop
  rw [Search.span_start] at hprobed
  have hbeats : beatsAt env config path pools r.optimalInput.toNat = true :=
    (beatsAt_toNat hfound.simulated).mpr hfound.beats
  have hearned := earned_toNat hfound.simulated
  constructor
  · intro hbest b hb hbeatsb hmax a ha hbeatsa
    -- the largest accepted visit is the input of the result
    have hsame : b = r.optimalInput.toNat :=
      Nat.le_antisymm (hlargest b hb hbeatsb) (hmax _ hvisited hbeats)
    obtain ⟨sim, hsim, hval⟩ := exists_simulation hbeatsa
    obtain ⟨i, s, hi, hrun, hmid⟩ := (hprobed a).mp ha
    have hamount : s.mid = BitVec.ofNat 256 a := by
      rw [← hmid, BitVec.ofNat_toNat, BitVec.setWidth_eq]
    have hle := hbest (BitVec.ofNat 256 a) sim ⟨i, s, hi, hrun, hamount⟩ hsim
    rw [hsame, hearned, hval]
    exact hle
  · rintro hearns amount sim ⟨i, s, hi, hrun, rfl⟩ hsim
    by_cases hprofit : sim.expectedProfit > config.minProfit
    · have hin := (hprobed s.mid.toNat).mpr ⟨i, s, hi, hrun, rfl⟩
      have hle := hearns _ hvisited hbeats hlargest _ hin ((beatsAt_toNat hsim).mpr hprofit)
      rw [hearned, earned_toNat hsim] at hle
      exact hle
    · have hbest := hfound.beats
      rw [gt_iff_lt, BitVec.lt_def] at hbest hprofit
      rw [BitVec.le_def]
      omega

/-! ## A path over two pools -/

/-- Swaps of V2 pools do not use the mathematics crate. -/
def plainEnv : SwapEnv where
  math := ⟨fun _ _ _ _ => .ok (0, false), fun _ => .ok 0, fun _ => .ok 0,
    fun _ _ _ _ _ => .ok (0, 0, 0, 0)⟩
  prof := ⟨true⟩
  fuel := 0

/-- Pool 3 pays two of token 2 for one of token 1, pool 4 one of token 1 for one of token 2. -/
def twoV2Pools : List AMM :=
  [.uniswapV2Pool ⟨3, ⟨1, 18⟩, ⟨2, 18⟩, 1000, 2000, 300⟩,
    .uniswapV2Pool ⟨4, ⟨2, 18⟩, ⟨1, 18⟩, 1000, 1000, 300⟩]

def twoHops : ArbitragePath := ⟨[⟨3, 1, 2, 30⟩, ⟨4, 2, 1, 30⟩]⟩

/-- Two rounds over the inputs up to 300. -/
def twoRounds : OptimizationConfig := ⟨2, 10, 300⟩

/-- The first round simulates 150, for a profit of 55. -/
theorem twoV2Pools_first : Probed plainEnv twoRounds twoHops twoV2Pools 150 ∧
    simulatePath plainEnv twoHops twoV2Pools 150 = some (.ok (some ⟨twoHops, 150, 55, 205⟩)) :=
  ⟨⟨0, _, Nat.zero_lt_succ 1, rfl, rfl⟩, rfl⟩

/-- The second round simulates 225, for a profit of 42, and replaces the first result. -/
theorem twoV2Pools_result : optimize plainEnv twoRounds twoHops twoV2Pools =
    some (.ok (some ⟨twoHops, 225, 42, 267⟩)) := rfl

theorem optimize_sound_twoV2Pools :
    0 < (225#256).toNat ∧ (225#256).toNat ≤ min (10 ^ 18) (300#256).toNat ∧ 42#256 > 10#256 ∧
      (267#256).toNat = (225#256).toNat + (42#256).toNat ∧
      simulatePath plainEnv twoHops twoV2Pools 225 = some (.ok (some ⟨twoHops, 225, 42, 267⟩)) :=
  (optimize_sound plainEnv twoRounds twoHops twoV2Pools).1 _ twoV2Pools_result

theorem optimize_not_best : ¬ ∀ env config path pools r,
    optimize env config path pools = some (.ok (some r)) →
      ∀ amount sim, Probed env config path pools amount →
        simulatePath env path pools amount = some (.ok (some sim)) →
          sim.expectedProfit ≤ r.expectedProfit := by
  intro h
  have hle := h plainEnv twoRounds twoHops twoV2Pools _ twoV2Pools_result 150 _ twoV2Pools_first.1
    twoV2Pools_first.2
  exact absurd hle (by decide)

theorem optimize_best_iff_twoV2Pools :
    (∀ amount sim, Probed plainEnv twoRounds twoHops twoV2Pools amount →
      simulatePath plainEnv twoHops twoV2Pools amount = some (.ok (some sim)) →
        sim.expectedProfit ≤ 42#256) ↔
    LargestEarnsMost plainEnv twoRounds twoHops twoV2Pools :=
  optimize_best_iff twoV2Pools_result

end ArbitrageBot
