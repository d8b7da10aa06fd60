/-!
# Programs with external calls

A contract function as a tree: it returns, reverts, or makes an external call and continues with the
answer. What a call does and what it answers is up to the semantics that runs the tree.
-/

namespace ArbitrageBot.Lib

/-- A program that makes the external calls `E` and returns an `α`. -/
inductive Prog (E : Type → Type) (α : Type) : Type 1
  | pure (a : α)
  | revert (reason : String)
  | ext {β : Type} (e : E β) (k : β → Prog E α)

namespace Prog

variable {E : Type → Type} {α β : Type}

protected def bind (p : Prog E α) (f : α → Prog E β) : Prog E β :=
  match p with
  | .pure a => f a
  | .revert reason => .revert reason
  | .ext e k => .ext e fun x => (k x).bind f

instance : Monad (Prog E) where
  pure := .pure
  bind := Prog.bind

/-- One external call. -/
def call (e : E α) : Prog E α := .ext e .pure

/-- `require(condition, reason)`. -/
def require (condition : Bool) (reason : String) : Prog E Unit :=
  if condition then .pure () else .revert reason

@[simp] theorem pure_bind (a : α) (f : α → Prog E β) : (Prog.pure a >>= f) = f a := rfl

@[simp] theorem revert_bind (reason : String) (f : α → Prog E β) :
    (Prog.revert reason >>= f) = .revert reason := rfl

@[simp] theorem ext_bind {γ : Type} (e : E γ) (k : γ → Prog E α) (f : α → Prog E β) :
    (Prog.ext e k >>= f) = .ext e fun x => k x >>= f := rfl

@[simp] theorem call_bind (e : E α) (f : α → Prog E β) : (call e >>= f) = .ext e f := rfl

theorem bind_assoc {γ : Type} (p : Prog E α) (f : α → Prog E β) (g : β → Prog E γ) :
    p >>= f >>= g = p >>= fun a => f a >>= g := by
  induction p with
  | pure a => rfl
  | revert reason => rfl
  | ext e k ih =>
    rw [ext_bind, ext_bind, ext_bind]
    exact congrArg (Prog.ext e) (funext ih)

theorem bind_pure (p : Prog E α) : p >>= Prog.pure = p := by
  induction p with
  | pure a => rfl
  | revert reason => rfl
  | ext e k ih =>
    rw [ext_bind]
    exact congrArg (Prog.ext e) (funext ih)

instance : LawfulMonad (Prog E) := LawfulMonad.mk' (Prog E) bind_pure pure_bind bind_assoc

theorem require_false (reason : String) : require (E := E) false reason = .revert reason := rfl

/-! ## Views -/

/-- What a program returns when its calls only read: `answer` is what a callee replies, if it has
such a function at all. -/
def view (answer : {β : Type} → E β → Option β) : Prog E α → Option α
  | .pure a => some a
  | .revert _ => none
  | .ext e k => (answer e).bind fun x => (k x).view answer

variable {answer : {β : Type} → E β → Option β}

@[simp] theorem view_pure (a : α) : (Prog.pure a : Prog E α).view answer = some a := rfl

@[simp] theorem view_revert (reason : String) :
    (Prog.revert reason : Prog E α).view answer = none := rfl

@[simp] theorem view_ext {γ : Type} (e : E γ) (k : γ → Prog E α) :
    (Prog.ext e k).view answer = (answer e).bind fun x => (k x).view answer := rfl

/-! ## Runs -/

section Runs

variable {S : Type}

/-- A program run over a state by a handler of its calls. A run that reverts, in the program or in a
callee, has no result. -/
def exec (handle : {β : Type} → E β → S → Option (β × S)) : Prog E α → S → Option (α × S)
  | .pure a, s => some (a, s)
  | .revert _, _ => none
  | .ext e k, s => (handle e s).bind fun r => (k r.1).exec handle r.2

variable {handle : {β : Type} → E β → S → Option (β × S)} {s s' : S}

@[simp] theorem exec_pure (a : α) : (Prog.pure a : Prog E α).exec handle s = some (a, s) := rfl

@[simp] theorem exec_revert (reason : String) :
    (Prog.revert reason : Prog E α).exec handle s = none := rfl

@[simp] theorem exec_ext {γ : Type} (e : E γ) (k : γ → Prog E α) :
    (Prog.ext e k).exec handle s = (handle e s).bind fun r => (k r.1).exec handle r.2 := rfl

@[simp] theorem exec_call (e : E α) : (call e).exec handle s = handle e s := by
  unfold call
  rw [exec_ext]
  cases handle e s with
  | none => rfl
  | some r => rfl

theorem exec_bind (p : Prog E α) (f : α → Prog E β) :
    (p >>= f).exec handle s = (p.exec handle s).bind fun r => (f r.1).exec handle r.2 := by
  induction p generalizing s with
  | pure a => rfl
  | revert reason => rfl
  | ext e k ih =>
    rw [ext_bind, exec_ext, exec_ext]
    cases handle e s with
    | none => rfl
    | some r => exact ih r.1

/-- A run of a sequence is a run of its parts, one after the other. -/
theorem exec_bind_eq_some {p : Prog E α} {f : α → Prog E β} {r : β × S} :
    (p >>= f).exec handle s = some r ↔
      ∃ a s₁, p.exec handle s = some (a, s₁) ∧ (f a).exec handle s₁ = some r := by
  rw [exec_bind, Option.bind_eq_some_iff]
  constructor
  · rintro ⟨⟨a, s₁⟩, hp, hf⟩
    exact ⟨a, s₁, hp, hf⟩
  · rintro ⟨a, s₁, hp, hf⟩
    exact ⟨(a, s₁), hp, hf⟩

theorem exec_require_eq_some {condition : Bool} {reason : String} {r : Unit × S} :
    (require (E := E) condition reason).exec handle s = some r ↔
      condition = true ∧ r = ((), s) := by
  cases condition with
  | true => simp [require, eq_comm]
  | false => simp [require]

/-- All calls of a program satisfy `P`, whatever their answers are. -/
def Only (P : {β : Type} → E β → Prop) : Prog E α → Prop
  | .pure _ => True
  | .revert _ => True
  | .ext e k => P e ∧ ∀ x, (k x).Only P

variable {P : {β : Type} → E β → Prop}

theorem Only.bind {p : Prog E α} {f : α → Prog E β} (hp : p.Only P) (hf : ∀ a, (f a).Only P) :
    (p >>= f).Only P := by
  induction p with
  | pure a => exact hf a
  | revert reason => trivial
  | ext e k ih => exact ⟨hp.1, fun x => ih x (hp.2 x)⟩

theorem Only.require (condition : Bool) (reason : String) :
    (require (E := E) condition reason).Only P := by
  cases condition with
  | true => trivial
  | false => trivial

theorem Only.foldlM {ι : Type} {f : α → ι → Prog E α} (hf : ∀ a i, (f a i).Only P) (is : List ι)
    (a : α) : (is.foldlM f a).Only P := by
  induction is generalizing a with
  | nil => trivial
  | cons i is ih => exact (hf a i).bind fun a' => ih a'

/-- Calls that leave the state alone leave it alone in every run. -/
theorem Only.exec_state {p : Prog E α} (hp : p.Only P) {a : α}
    (hkeep : ∀ {β : Type} (e : E β) {x : β} {s s' : S}, P e → handle e s = some (x, s') → s' = s)
    (h : p.exec handle s = some (a, s')) : s' = s := by
  induction p generalizing s with
  | pure b =>
    cases h
    rfl
  | revert reason => cases h
  | ext e k ih =>
    rw [exec_ext, Option.bind_eq_some_iff] at h
    obtain ⟨⟨x, s₁⟩, he, hk⟩ := h
    rw [ih x (hp.2 x) hk, hkeep e hp.1 he]

/-- **The rule for loops**: what every round preserves holds after the last one. -/
theorem exec_foldlM_range {f : α → Nat → Prog E α} {inv : Nat → α → S → Prop} {n : Nat} {a a' : α}
    (hstep : ∀ i a a' s s', i < n → inv i a s → (f a i).exec handle s = some (a', s') →
      inv (i + 1) a' s')
    (hinit : inv 0 a s) (h : ((List.range n).foldlM f a).exec handle s = some (a', s')) :
    inv n a' s' := by
  induction n generalizing a' s' with
  | zero =>
    cases h
    exact hinit
  | succ n ih =>
    rw [List.range_succ, List.foldlM_append, exec_bind_eq_some] at h
    obtain ⟨b, t, hfirst, hlast⟩ := h
    have hinv := ih (fun i a a' s s' hi => hstep i a a' s s' (by omega)) hfirst
    refine hstep n b a' t s' (by omega) hinv ?_
    rw [List.foldlM_cons, exec_bind_eq_some] at hlast
    obtain ⟨c, u, hone, hnil⟩ := hlast
    cases hnil
    exact hone

end Runs

end Prog

end ArbitrageBot.Lib
