import ArbitrageBot.Lib.Prog

/-!
# Runs of programs against any answers

A run of a program lists its calls with the answers they got. No answer is ruled out: what holds in
every run holds whatever the callees do.
-/

namespace ArbitrageBot.Lib.Prog

/-- A call with its answer. -/
structure Exchange (E : Type → Type) : Type 1 where
  {β : Type}
  request : E β
  answer : β

variable {E : Type → Type} {α β : Type}

/-- The run of a program that makes these calls, gets these answers and ends so. -/
inductive Runs {E : Type → Type} {α : Type} :
    Prog E α → List (Exchange E) → Except String α → Prop
  | pure (a : α) : Runs (.pure a) [] (.ok a)
  | revert (reason : String) : Runs (.revert reason) [] (.error reason)
  | ext {β : Type} {e : E β} {x : β} {k : β → Prog E α} {events : List (Exchange E)}
      {result : Except String α} (h : Runs (k x) events result) :
      Runs (.ext e k) (⟨e, x⟩ :: events) result

variable {events : List (Exchange E)} {result : Except String β}

theorem runs_pure {a : α} {result : Except String α} (h : Runs (.pure a) events result) :
    events = [] ∧ result = .ok a := by
  cases h
  exact ⟨rfl, rfl⟩

theorem runs_revert {reason : String} {result : Except String α}
    (h : Runs (.revert reason) events result) : events = [] ∧ result = .error reason := by
  cases h
  exact ⟨rfl, rfl⟩

theorem runs_ext {γ : Type} {e : E γ} {k : γ → Prog E β} (h : Runs (.ext e k) events result) :
    ∃ x rest, events = ⟨e, x⟩ :: rest ∧ Runs (k x) rest result := by
  cases h with
  | ext h => exact ⟨_, _, rfl, h⟩

/-- **A run of a sequence** is a run of its first part that fails, or one that does not and then one
of the second part. -/
theorem runs_bind {p : Prog E α} {f : α → Prog E β} (h : Runs (p >>= f) events result) :
    (∃ a first second, events = first ++ second ∧ Runs p first (.ok a) ∧
      Runs (f a) second result) ∨
    ∃ reason, result = .error reason ∧ Runs p events (.error reason) := by
  induction p generalizing events with
  | pure a => exact .inl ⟨a, [], events, rfl, .pure a, h⟩
  | revert reason =>
    obtain ⟨rfl, rfl⟩ := runs_revert h
    exact .inr ⟨reason, rfl, .revert reason⟩
  | ext e k ih =>
    rw [ext_bind] at h
    obtain ⟨x, rest, rfl, hrest⟩ := runs_ext h
    rcases ih x hrest with ⟨a, first, second, rfl, hfirst, hsecond⟩ | ⟨reason, hresult, hrun⟩
    · exact .inl ⟨a, _, second, rfl, .ext hfirst, hsecond⟩
    · exact .inr ⟨reason, hresult, .ext hrun⟩

/-- Runs of the parts make one of the sequence. -/
theorem Runs.bind {p : Prog E α} {f : α → Prog E β} {a : α} {first second : List (Exchange E)}
    (hp : Runs p first (.ok a)) (hf : Runs (f a) second result) :
    Runs (p >>= f) (first ++ second) result := by
  induction p generalizing first with
  | pure b =>
    obtain ⟨rfl, heq⟩ := runs_pure hp
    cases heq
    exact hf
  | revert reason => cases hp
  | ext e k ih =>
    obtain ⟨x, rest, rfl, hrest⟩ := runs_ext hp
    exact .ext (ih x hrest)

end ArbitrageBot.Lib.Prog
