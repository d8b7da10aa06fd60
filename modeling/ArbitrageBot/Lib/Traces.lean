import Mathlib.Order.Basic

/-!
# Runs of a machine that reports events

A machine takes turns; a turn leads to a state and may report an event. Its runs are linearized
when the value that it represents moves at the turns with an event only, and there as the event
says: then the events of a run, in the order of their turns, are a history of the value.
-/

namespace ArbitrageBot.Lib.Traces

variable {σ τ ε α : Type*}

/-! ## Histories -/

/-- Events that move a value one after the other. -/
inductive History (acts : ε → α → α → Prop) : α → List ε → α → Prop
  | nil (a : α) : History acts a [] a
  | cons {a b c : α} {e : ε} {es : List ε} :
    acts e a b → History acts b es c → History acts a (e :: es) c

namespace History

variable {acts : ε → α → α → Prop} {a b c : α} {es es' : List ε}

theorem single {e : ε} (h : acts e a b) : History acts a [e] b :=
  .cons h (.nil b)

theorem append (h : History acts a es b) (h' : History acts b es' c) :
    History acts a (es ++ es') c := by
  induction h with
  | nil a => exact h'
  | cons hacts hes ih => exact .cons hacts (ih h')

theorem of_map {ε' : Type*} {f : ε' → ε} {es : List ε'} (h : History acts a (es.map f) b) :
    History (fun e => acts (f e)) a es b := by
  induction es generalizing a with
  | nil =>
    cases h
    exact .nil _
  | cons e es ih =>
    cases h with
    | cons hacts hes => exact .cons hacts (ih hes)

section Order

variable [Preorder α] (hle : ∀ e a b, acts e a b → a ≤ b)

include hle

/-- A value that no event lowers only goes up. -/
theorem le (h : History acts a es b) : a ≤ b := by
  induction h with
  | nil a => exact le_refl a
  | cons hacts hes ih => exact (hle _ _ _ hacts).trans ih

/-- What holds of an event at the values that are at least `a` holds of the events from `a` on. -/
theorem forall_mem {p : ε → Prop} (hp : ∀ e b c, a ≤ b → acts e b c → p e)
    (h : History acts a es b) : ∀ e ∈ es, p e := by
  induction h with
  | nil a => exact fun e he => absurd he List.not_mem_nil
  | cons hacts hes ih =>
    refine List.forall_mem_cons.mpr ⟨hp _ _ _ le_rfl hacts, ih fun e b c hb => ?_⟩
    exact hp e b c ((hle _ _ _ hacts).trans hb)

/-- **The events of a history are in order** when each is so with an event at any later value. -/
theorem pairwise {before : ε → ε → Prop}
    (hbefore : ∀ e a b, acts e a b → ∀ e' c d, b ≤ c → acts e' c d → before e e')
    (h : History acts a es b) : es.Pairwise before := by
  induction h with
  | nil a => exact .nil
  | cons hacts hes ih => exact .cons (hes.forall_mem hle (hbefore _ _ _ hacts)) ih

end Order

end History

/-! ## Runs -/

variable (step : σ → τ → σ × Option ε)

/-- The state after some turns, and the events on the way. -/
def run (s : σ) : List τ → σ × List ε
  | [] => (s, [])
  | t :: ts =>
    let rest := run (step s t).1 ts
    (rest.1, (step s t).2.toList ++ rest.2)

variable {step} {s : σ} {ts us : List τ}

theorem run_append : run step s (ts ++ us) =
    ((run step (run step s ts).1 us).1,
      (run step s ts).2 ++ (run step (run step s ts).1 us).2) := by
  induction ts generalizing s with
  | nil => rfl
  | cons t ts ih =>
    rw [List.cons_append, run, ih, run, List.append_assoc]

/-- A turn reports one event at most. -/
theorem run_length_le : (run step s ts).2.length ≤ ts.length := by
  induction ts generalizing s with
  | nil => exact Nat.le_refl _
  | cons t ts ih =>
    rw [run, List.length_append, List.length_cons, Nat.add_comm ts.length]
    refine Nat.add_le_add ?_ ih
    cases (step s t).2 <;> simp

/-- **An invariant of the state and of the events so far** that every turn keeps, every run keeps.
-/
theorem run_invariant {P : σ → List ε → Prop}
    (hstep : ∀ s es t, P s es → P (step s t).1 (es ++ (step s t).2.toList)) {es : List ε}
    (h : P s es) (ts : List τ) : P (run step s ts).1 (es ++ (run step s ts).2) := by
  induction ts generalizing s es with
  | nil => exact (List.append_nil es).symm ▸ h
  | cons t ts ih =>
    rw [run, ← List.append_assoc]
    exact ih (hstep s es t h)

/-- The turn that reports an event of a run, with what comes before it and after it. -/
theorem exists_turn {es es' : List ε} {e : ε} (h : (run step s ts).2 = es ++ e :: es') :
    ∃ before t after, ts = before ++ t :: after ∧ (run step s before).2 = es ∧
      (step (run step s before).1 t).2 = some e ∧
      (run step (step (run step s before).1 t).1 after).2 = es' := by
  induction ts generalizing s es with
  | nil => exact absurd h.symm (List.append_ne_nil_of_right_ne_nil es (List.cons_ne_nil e es'))
  | cons t ts ih =>
    rw [run] at h
    cases hevent : (step s t).2 with
    | none =>
      rw [hevent] at h
      obtain ⟨before, u, after, hts, hes, hu, hafter⟩ := ih h
      refine ⟨t :: before, u, after, congrArg (t :: ·) hts, ?_, hu, hafter⟩
      rw [run, hevent]
      exact hes
    | some e₀ =>
      rw [hevent] at h
      cases es with
      | nil =>
        obtain ⟨rfl, hafter⟩ := List.cons.inj h
        exact ⟨[], t, ts, rfl, rfl, hevent, hafter⟩
      | cons e₁ es =>
        obtain ⟨rfl, htail⟩ := List.cons.inj h
        obtain ⟨before, u, after, hts, hes, hu, hafter⟩ := ih htail
        refine ⟨t :: before, u, after, congrArg (t :: ·) hts, ?_, hu, hafter⟩
        rw [run, hevent]
        exact congrArg (e₀ :: ·) hes

/-- **Runs are linearized** when turns are: a turn without an event leaves the value `abs`, a turn
with one moves it as the event acts. Only the runs whose events are all `ok` are concerned. -/
theorem run_history (abs : σ → α) (inv : σ → Prop) {acts : ε → α → α → Prop} {ok : ε → Prop}
    (hstep : ∀ s t, inv s → (∀ e ∈ (step s t).2.toList, ok e) →
      inv (step s t).1 ∧ History acts (abs s) (step s t).2.toList (abs (step s t).1))
    (h : inv s) (hok : ∀ e ∈ (run step s ts).2, ok e) :
    inv (run step s ts).1 ∧ History acts (abs s) (run step s ts).2 (abs (run step s ts).1) := by
  induction ts generalizing s with
  | nil => exact ⟨h, .nil _⟩
  | cons t ts ih =>
    obtain ⟨hfirst, hrest⟩ := List.forall_mem_append.mp hok
    obtain ⟨hinv, hhistory⟩ := hstep s t h hfirst
    obtain ⟨hinv', hhistory'⟩ := ih hinv hrest
    exact ⟨hinv', hhistory.append hhistory'⟩

end ArbitrageBot.Lib.Traces
