import Mathlib.Logic.Relation

/-!
# While loops with errors

`while guard s { s = body(s)? }` with a bound on its rounds. The states at the head of the loop are
those reached by rounds from the initial one; an invariant of the rounds holds at each of them, and
a variant bounds the fuel that is needed.
-/

namespace ArbitrageBot.Lib.Loop

variable {σ ε : Type*}

/-- Runs the loop; `none` when it needs more than `fuel` rounds. -/
def run (guard : σ → Bool) (body : σ → Except ε σ) : Nat → σ → Option (Except ε σ)
  | 0, s => if guard s then none else some (.ok s)
  | fuel + 1, s =>
    if guard s then
      match body s with
      | .error e => some (.error e)
      | .ok s' => run guard body fuel s'
    else some (.ok s)

/-- One round of the loop. -/
def Round (guard : σ → Bool) (body : σ → Except ε σ) (s s' : σ) : Prop :=
  guard s = true ∧ body s = .ok s'

/-- The states at the head of the loop. -/
def Heads (guard : σ → Bool) (body : σ → Except ε σ) : σ → σ → Prop :=
  Relation.ReflTransGen (Round guard body)

variable {guard : σ → Bool} {body : σ → Except ε σ} {s : σ}

/-- An invariant of the rounds holds at every head. -/
theorem Heads.inv {I : σ → Prop} (hI : I s)
    (hround : ∀ s s', I s → guard s = true → body s = .ok s' → I s') {t : σ}
    (h : Heads guard body s t) : I t := by
  induction h with
  | refl => exact hI
  | tail _ hstep ih => exact hround _ _ ih hstep.1 hstep.2

/-- How a loop that returns has ended: at a head where the guard fails, or by the error of the
body at a head. -/
theorem run_eq_some {fuel : Nat} {r : Except ε σ} (h : run guard body fuel s = some r) :
    (∃ t, r = .ok t ∧ Heads guard body s t ∧ guard t = false) ∨
    ∃ t e, r = .error e ∧ Heads guard body s t ∧ guard t = true ∧ body t = .error e := by
  induction fuel generalizing s with
  | zero =>
    unfold run at h
    by_cases hg : guard s = true
    · rw [if_pos hg] at h
      cases h
    · rw [if_neg hg] at h
      cases h
      exact Or.inl ⟨s, rfl, Relation.ReflTransGen.refl, by simpa using hg⟩
  | succ fuel ih =>
    unfold run at h
    by_cases hg : guard s = true
    · rw [if_pos hg] at h
      cases hb : body s with
      | error e =>
        rw [hb] at h
        cases h
        exact Or.inr ⟨s, e, rfl, Relation.ReflTransGen.refl, hg, hb⟩
      | ok s' =>
        rw [hb] at h
        have hstep : Round guard body s s' := ⟨hg, hb⟩
        rcases ih h with ⟨t, hr, hheads, hgt⟩ | ⟨t, e, hr, hheads, hgt, hbt⟩
        · exact Or.inl ⟨t, hr, Relation.ReflTransGen.head hstep hheads, hgt⟩
        · exact Or.inr ⟨t, e, hr, Relation.ReflTransGen.head hstep hheads, hgt, hbt⟩
    · rw [if_neg hg] at h
      cases h
      exact Or.inl ⟨s, rfl, Relation.ReflTransGen.refl, by simpa using hg⟩

/-- Two bodies that return the same states, and fail together: so do their loops, with errors that
are related as those of the bodies are. -/
theorem run_rel {ε' : Type*} {body' : σ → Except ε' σ} {R : ε → ε' → Prop}
    (hbody : ∀ s, (∃ s', body s = .ok s' ∧ body' s = .ok s') ∨
      ∃ e e', body s = .error e ∧ body' s = .error e' ∧ R e e') (fuel : Nat) (s : σ) :
    (run guard body fuel s = none ∧ run guard body' fuel s = none) ∨
    (∃ t, run guard body fuel s = some (.ok t) ∧ run guard body' fuel s = some (.ok t)) ∨
    ∃ e e', run guard body fuel s = some (.error e) ∧ run guard body' fuel s = some (.error e') ∧
      R e e' := by
  induction fuel generalizing s with
  | zero =>
    unfold run
    by_cases hg : guard s = true
    · rw [if_pos hg, if_pos hg]
      exact Or.inl ⟨rfl, rfl⟩
    · rw [if_neg hg, if_neg hg]
      exact Or.inr (Or.inl ⟨s, rfl, rfl⟩)
  | succ fuel ih =>
    unfold run
    by_cases hg : guard s = true
    · rw [if_pos hg, if_pos hg]
      rcases hbody s with ⟨s', h, h'⟩ | ⟨e, e', h, h', hR⟩
      · rw [h, h']
        exact ih s'
      · rw [h, h']
        exact Or.inr (Or.inr ⟨e, e', rfl, rfl, hR⟩)
    · rw [if_neg hg, if_neg hg]
      exact Or.inr (Or.inl ⟨s, rfl, rfl⟩)

/-- **A loop with a variant ends** within the fuel that the variant gives. -/
theorem run_total {I : σ → Prop} (μ : σ → Nat)
    (hround : ∀ s, I s → guard s = true →
      (∃ e, body s = .error e) ∨ ∃ s', body s = .ok s' ∧ I s' ∧ μ s' < μ s)
    (hI : I s) {fuel : Nat} (hfuel : μ s < fuel) : ∃ r, run guard body fuel s = some r := by
  induction fuel generalizing s with
  | zero => omega
  | succ fuel ih =>
    unfold run
    by_cases hg : guard s = true
    · rw [if_pos hg]
      rcases hround s hI hg with ⟨e, hb⟩ | ⟨s', hb, hI', hlt⟩
      · rw [hb]
        exact ⟨_, rfl⟩
      · rw [hb]
        exact ih hI' (by omega)
    · rw [if_neg hg]
      exact ⟨_, rfl⟩

/-- **A loop that follows another one**: where the rounds of the other return, its rounds return
related states. So does the loop, in as many rounds. -/
theorem run_follows {τ ε' : Type*} {guard' : τ → Bool} {body' : τ → Except ε' τ} {R : σ → τ → Prop}
    (hguard : ∀ s t, R s t → guard s = guard' t)
    (hbody : ∀ s t t', R s t → guard' t = true → body' t = .ok t' → ∃ s', body s = .ok s' ∧ R s' t')
    {fuel : Nat} {t t' : τ} (hR : R s t) (h : run guard' body' fuel t = some (.ok t')) :
    ∃ s', run guard body fuel s = some (.ok s') ∧ R s' t' := by
  induction fuel generalizing s t with
  | zero =>
    unfold run at h ⊢
    rw [hguard s t hR]
    by_cases hg : guard' t = true
    · rw [if_pos hg] at h
      cases h
    · rw [if_neg hg] at h ⊢
      cases h
      exact ⟨s, rfl, hR⟩
  | succ fuel ih =>
    unfold run at h ⊢
    rw [hguard s t hR]
    by_cases hg : guard' t = true
    · rw [if_pos hg] at h ⊢
      cases hb : body' t with
      | error e =>
        rw [hb] at h
        cases h
      | ok t₁ =>
        rw [hb] at h
        obtain ⟨s₁, hs₁, hR₁⟩ := hbody s t t₁ hR hg hb
        rw [hs₁]
        exact ih hR₁ h
    · rw [if_neg hg] at h ⊢
      cases h
      exact ⟨s, rfl, hR⟩

end ArbitrageBot.Lib.Loop
