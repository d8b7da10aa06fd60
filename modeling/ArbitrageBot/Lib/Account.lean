import Mathlib.Algebra.Order.Ring.Int

/-!
# What an account ends with

The movements of one balance: amounts spent, amounts received, and drains, which spend all but a
remainder whatever the balance is. After a drain it does not matter what the account began with, so
the end is not below the beginning exactly when the beginning is covered from the last drain on.
-/

namespace ArbitrageBot.Lib.Account

inductive Movement where
  | spend (n : Nat)
  | drain (left : Nat)
  | receive (n : Nat)
  deriving DecidableEq, Repr

/-- The balance after a movement. -/
def Movement.apply (balance : Int) : Movement → Int
  | .spend n => balance - n
  | .drain left => left
  | .receive n => balance + n

def run (movements : List Movement) (balance : Int) : Int := movements.foldl Movement.apply balance

/-- What is spent, the drains apart. -/
def spent : List Movement → Nat
  | [] => 0
  | .spend n :: rest => n + spent rest
  | _ :: rest => spent rest

def received : List Movement → Nat
  | [] => 0
  | .receive n :: rest => n + received rest
  | _ :: rest => received rest

/-- The remainder of the last drain, with the movements after it. -/
def lastDrain : List Movement → Option (Nat × List Movement)
  | [] => none
  | .drain left :: rest => (lastDrain rest).or (some (left, rest))
  | _ :: rest => lastDrain rest

/-- From the last drain on, what is left and received pays for what the account began with and for
what is spent; without a drain, what is received pays for what is spent. -/
def Covers (movements : List Movement) (balance : Nat) : Prop :=
  match lastDrain movements with
  | none => spent movements ≤ received movements
  | some (left, rest) => balance + spent rest ≤ left + received rest

variable {movements movements' : List Movement} {balance : Int} {left : Nat}

@[simp] theorem run_nil : run [] balance = balance := rfl

@[simp] theorem run_cons (m : Movement) :
    run (m :: movements) balance = run movements (m.apply balance) := rfl

theorem run_append :
    run (movements ++ movements') balance = run movements' (run movements balance) :=
  List.foldl_append

/-- Without a drain the movements add up. -/
theorem run_of_lastDrain_none (h : lastDrain movements = none) :
    run movements balance = balance + received movements - spent movements := by
  induction movements generalizing balance with
  | nil => simp [received, spent]
  | cons m rest ih =>
    cases m with
    | spend n =>
      have hrest := @ih (balance - n) h
      simp only [run_cons, Movement.apply, received, spent, hrest]
      omega
    | drain left =>
      unfold lastDrain at h
      rw [Option.or_eq_none_iff] at h
      cases h.2
    | receive n =>
      have hrest := @ih (balance + n) h
      simp only [run_cons, Movement.apply, received, spent, hrest]
      omega

/-- After its last drain an account has forgotten its balance. -/
theorem run_of_lastDrain_some (h : lastDrain movements = some (left, movements')) :
    run movements balance = left + received movements' - spent movements' := by
  induction movements generalizing balance with
  | nil => cases h
  | cons m rest ih =>
    cases m with
    | spend n => exact ih h
    | receive n => exact ih h
    | drain left' =>
      unfold lastDrain at h
      cases hlast : lastDrain rest with
      | none =>
        rw [hlast] at h
        cases h
        exact run_of_lastDrain_none hlast
      | some last =>
        rw [hlast] at h
        cases h
        exact ih hlast

/-- **An account does not lose exactly when its movements cover its balance.** -/
theorem le_run_iff {balance : Nat} : (balance : Int) ≤ run movements balance ↔
    Covers movements balance := by
  unfold Covers
  cases hlast : lastDrain movements with
  | none =>
    rw [run_of_lastDrain_none hlast]
    dsimp only
    omega
  | some last =>
    rw [run_of_lastDrain_some hlast]
    dsimp only
    omega

theorem lastDrain_of_drains (h : ∀ m ∈ movements, m = .drain 0) (hne : movements ≠ []) :
    lastDrain movements = some (0, []) := by
  induction movements with
  | nil => exact absurd rfl hne
  | cons m rest ih =>
    obtain ⟨rfl, hrest⟩ := List.forall_mem_cons.mp h
    unfold lastDrain
    by_cases hempty : rest = []
    · rw [hempty]
      rfl
    · rw [ih hrest hempty]
      rfl

/-- An account that is only drained has to be empty from the start. -/
theorem covers_of_drains {balance : Nat} (h : ∀ m ∈ movements, m = .drain 0) :
    Covers movements balance ↔ (movements ≠ [] → balance = 0) := by
  unfold Covers
  by_cases hne : movements = []
  · subst hne
    simp [lastDrain, spent, received]
  · rw [lastDrain_of_drains h hne]
    simp [hne, spent, received]

end ArbitrageBot.Lib.Account
