import ArbitrageBot.Lib.Traces
import Mathlib.Data.List.Basic
import Mathlib.Data.Nat.Basic
import Mathlib.Logic.Function.Basic

/-!
# The nonce manager

The callers of one `NonceManager` share an atomic word. A reservation is one atomic step; raising
the word to the chain's nonce is a load and as many attempts at an exchange as other callers make
fail. Every call takes effect at one of its atomic steps, and so every interleaving of the steps is
a history of a counter whose calls are not interleaved (`system_linearizable`).
-/

namespace ArbitrageBot.Execution

open Lib Lib.Traces

structure NonceManager where
  nextNonce : UInt64

namespace NonceManager

def new (initialNonce : UInt64) : NonceManager := ⟨initialNonce⟩

/-- `fetch_add(1)`, which wraps around. -/
def reserve (m : NonceManager) : UInt64 × NonceManager := (m.nextNonce, ⟨m.nextNonce + 1⟩)

def peek (m : NonceManager) : UInt64 := m.nextNonce

/-- `compare_exchange`: it fails with the value it finds. -/
def compareExchange (m : NonceManager) (current new : UInt64) :
    Except UInt64 UInt64 × NonceManager :=
  if m.nextNonce = current then (.ok current, ⟨new⟩) else (.error m.nextNonce, m)

theorem compareExchange_eq (m : NonceManager) (new : UInt64) :
    m.compareExchange m.nextNonce new = (.ok m.nextNonce, ⟨new⟩) :=
  if_pos rfl

theorem compareExchange_ne {m : NonceManager} {current : UInt64} (new : UInt64)
    (h : m.nextNonce ≠ current) : m.compareExchange current new = (.error m.nextNonce, m) :=
  if_neg h

end NonceManager

/-! ## Calls and their atomic steps -/

inductive Call where
  | reserve
  | peek
  | syncAtLeast (chainNextNonce : UInt64)

/-- Where a caller stands: between two calls, or in the loop of `sync_at_least`, about to attempt
the exchange of the value it saw last. -/
inductive Progress where
  | idle
  | syncing (chainNextNonce current : UInt64)

/-- The call a caller returned from, with the value returned. -/
inductive Outcome where
  | reserved (nonce : UInt64)
  | peeked (nonce : UInt64)
  | synced (chainNextNonce : UInt64)

/-- The head of the loop of `sync_at_least`. -/
def syncWhile (chainNextNonce current : UInt64) : Progress × Option Outcome :=
  if chainNextNonce > current then (.syncing chainNextNonce current, none)
  else (.idle, some (.synced chainNextNonce))

/-- One atomic step of a caller, with what it does up to its next one. A caller between two calls
begins the given one; the loop goes on whatever call comes after it. -/
def NonceManager.turn (m : NonceManager) :
    Progress → Call → NonceManager × Progress × Option Outcome
  | .idle, .reserve =>
    let (nonce, m) := m.reserve
    (m, .idle, some (.reserved nonce))
  | .idle, .peek => (m, .idle, some (.peeked m.peek))
  | .idle, .syncAtLeast chainNextNonce =>
    let current := m.nextNonce
    (m, syncWhile chainNextNonce current)
  | .syncing chainNextNonce current, _ =>
    match m.compareExchange current chainNextNonce with
    | (.ok _, m) => (m, .idle, some (.synced chainNextNonce))
    | (.error actual, m) => (m, syncWhile chainNextNonce actual)

/-- The manager and its callers. -/
structure System (ι : Type*) where
  manager : NonceManager
  progress : ι → Progress

variable {ι : Type*}

/-- No call has begun. -/
def System.start (initialNonce : UInt64) : System ι := ⟨.new initialNonce, fun _ => .idle⟩

/-- A caller takes its next atomic step. -/
def System.step [DecidableEq ι] (s : System ι) (turn : ι × Call) :
    System ι × Option (ι × Outcome) :=
  let (manager, progress, outcome) := s.manager.turn (s.progress turn.1) turn.2
  (⟨manager, Function.update s.progress turn.1 progress⟩,
    outcome.map fun outcome => (turn.1, outcome))

/-! ## The counter that the manager is for -/

/-- What a call does to a counter when no other call comes in between. -/
def Outcome.Acts : Outcome → ℕ → ℕ → Prop
  | .reserved nonce, next, next' => nonce.toNat = next ∧ next' = next + 1
  | .peeked nonce, next, next' => nonce.toNat = next ∧ next' = next
  | .synced chainNextNonce, next, next' => next' = max next chainNextNonce.toNat

theorem Outcome.Acts.le {o : Outcome} {next next' : ℕ} (h : o.Acts next next') : next ≤ next' := by
  cases o with
  | reserved nonce =>
    obtain ⟨-, rfl⟩ := h
    exact next.le_succ
  | peeked nonce =>
    obtain ⟨-, rfl⟩ := h
    exact le_rfl
  | synced chainNextNonce =>
    obtain rfl := h
    exact le_max_left next _

/-- A nonce reserved is below the next one, and a chain's nonce that was synced is not above it. -/
def Outcome.Covered : Outcome → ℕ → Prop
  | .reserved nonce, next => nonce.toNat < next
  | .peeked nonce, next => nonce.toNat ≤ next
  | .synced chainNextNonce, next => chainNextNonce.toNat ≤ next

theorem Outcome.Acts.covered {o : Outcome} {next next' : ℕ} (h : o.Acts next next') :
    o.Covered next' := by
  cases o with
  | reserved nonce =>
    obtain ⟨hnonce, rfl⟩ := h
    exact Nat.lt_succ_of_le hnonce.le
  | peeked nonce =>
    obtain ⟨hnonce, rfl⟩ := h
    exact hnonce.le
  | synced chainNextNonce =>
    obtain rfl := h
    exact le_max_right next _

theorem Outcome.Covered.mono {o : Outcome} {next next' : ℕ} (h : o.Covered next)
    (hle : next ≤ next') : o.Covered next' := by
  cases o with
  | reserved nonce => exact Nat.lt_of_lt_of_le h hle
  | peeked nonce => exact Nat.le_trans h hle
  | synced chainNextNonce => exact Nat.le_trans h hle

/-- A reservation is above the ones before it, and not below the chain's nonces synced before it. -/
theorem reserved_covers {a b : ℕ} {events : List (ι × Outcome)}
    (h : History (fun e : ι × Outcome => e.2.Acts) a events b) :
    events.Pairwise fun e e' => ∀ nonce, e'.2 = .reserved nonce → e.2.Covered nonce.toNat := by
  refine h.pairwise (fun e a b h => h.le) fun e a b h e' c d hle h' nonce he' => ?_
  rw [he'] at h'
  exact h'.1 ▸ h.covered.mono hle

def Outcome.reservation : Outcome → Option UInt64
  | .reserved nonce => some nonce
  | _ => none

/-- The nonces reserved, in the order of the steps that reserved them. -/
def reservations (events : List (ι × Outcome)) : List UInt64 :=
  events.filterMap fun e => e.2.reservation

theorem Outcome.reservation_eq_some {o : Outcome} {nonce : UInt64}
    (h : o.reservation = some nonce) : o = .reserved nonce := by
  cases o with
  | reserved nonce' => exact congrArg Outcome.reserved (Option.some.inj h)
  | peeked nonce' => exact absurd h (Option.some_ne_none nonce).symm
  | synced chainNextNonce => exact absurd h (Option.some_ne_none nonce).symm

/-- Reservations that cover the ones before them increase. -/
theorem reservations_increasing {events : List (ι × Outcome)}
    (h : events.Pairwise fun e e' => ∀ nonce, e'.2 = .reserved nonce → e.2.Covered nonce.toNat) :
    (reservations events).Pairwise (· < ·) := by
  refine List.pairwise_filterMap.mpr (h.imp fun {e e'} hcovers nonce hnonce nonce' hnonce' => ?_)
  have hcovered := hcovers nonce' (Outcome.reservation_eq_some hnonce')
  rw [Outcome.reservation_eq_some hnonce] at hcovered
  exact UInt64.lt_iff_toNat_lt.mpr hcovered

/-! ## The manager implements the counter -/

/-- The nonce after a reserved one is a word. -/
def Outcome.Fits : Outcome → Prop
  | .reserved nonce => nonce.toNat + 1 < UInt64.size
  | _ => True

instance : DecidablePred Outcome.Fits
  | .reserved nonce => inferInstanceAs (Decidable (nonce.toNat + 1 < UInt64.size))
  | .peeked _ => .isTrue trivial
  | .synced _ => .isTrue trivial

/-- A caller in the loop saw a value below the one it raises the word to. -/
def Progress.Below : Progress → Prop
  | .idle => True
  | .syncing chainNextNonce current => current < chainNextNonce

/-- The events of a caller's turn are a history of the counter. -/
abbrev Implements (m : NonceManager) (t : NonceManager × Progress × Option Outcome) : Prop :=
  t.2.1.Below ∧ History Outcome.Acts m.nextNonce.toNat t.2.2.toList t.1.nextNonce.toNat

/-- The loop goes on without an effect, or returns because the word is large enough. -/
theorem syncWhile_implements (m : NonceManager) (chainNextNonce : UInt64) :
    Implements m (m, syncWhile chainNextNonce m.nextNonce) := by
  unfold syncWhile
  by_cases hlt : chainNextNonce > m.nextNonce
  · rw [if_pos hlt]
    exact ⟨hlt, .nil _⟩
  · rw [if_neg hlt]
    refine ⟨trivial, .single ?_⟩
    exact (max_eq_left (UInt64.le_iff_toNat_le.mp (UInt64.not_lt.mp hlt))).symm

/-- An exchange that succeeds finds the value that its caller saw. -/
theorem compareExchange_implements {m : NonceManager} {chainNextNonce current : UInt64}
    (h : current < chainNextNonce) (call : Call) :
    Implements m (m.turn (.syncing chainNextNonce current) call) := by
  by_cases heq : m.nextNonce = current
  · subst heq
    simp only [NonceManager.turn, m.compareExchange_eq]
    refine ⟨trivial, .single ?_⟩
    exact (max_eq_right (UInt64.lt_iff_toNat_lt.mp h).le).symm
  · simp only [NonceManager.turn, NonceManager.compareExchange_ne chainNextNonce heq]
    exact syncWhile_implements m chainNextNonce

/-- **A turn** takes effect at once or not at all. -/
theorem turn_implements {m : NonceManager} {p : Progress} (h : p.Below) (call : Call)
    (hfits : ∀ o ∈ (m.turn p call).2.2.toList, o.Fits) : Implements m (m.turn p call) := by
  cases p with
  | syncing chainNextNonce current => exact compareExchange_implements h call
  | idle =>
    cases call with
    | reserve =>
      have hfits : m.nextNonce.toNat + 1 < UInt64.size := hfits _ (List.mem_singleton_self _)
      refine ⟨trivial, .single ⟨rfl, ?_⟩⟩
      change (m.nextNonce + 1).toNat = m.nextNonce.toNat + 1
      rw [UInt64.toNat_add]
      exact Nat.mod_eq_of_lt hfits
    | peek => exact ⟨trivial, .single ⟨rfl, rfl⟩⟩
    | syncAtLeast chainNextNonce => exact syncWhile_implements m chainNextNonce

/-! ## Interleavings -/

/-- The callers in the loop saw values below the ones they raise the word to. -/
def System.Below (s : System ι) : Prop := ∀ i, (s.progress i).Below

theorem System.start_below (initialNonce : UInt64) : (System.start initialNonce : System ι).Below :=
  fun _ => trivial

variable [DecidableEq ι]

theorem System.step_implements {s : System ι} (h : s.Below) (turn : ι × Call)
    (hfits : ∀ e ∈ (s.step turn).2.toList, e.2.Fits) : (s.step turn).1.Below ∧
      History (fun e : ι × Outcome => e.2.Acts) s.manager.nextNonce.toNat
        (s.step turn).2.toList (s.step turn).1.manager.nextNonce.toNat := by
  have hevents : (s.step turn).2.toList.map Prod.snd =
      (s.manager.turn (s.progress turn.1) turn.2).2.2.toList := by
    unfold System.step
    rw [Option.toList_map, List.map_map]
    exact List.map_id _
  have hturn := turn_implements (h turn.1) turn.2 (hevents ▸ List.forall_mem_map.mpr hfits)
  refine ⟨fun i => ?_, (hevents ▸ hturn.2).of_map⟩
  change (Function.update s.progress turn.1 _ i).Below
  by_cases hi : i = turn.1
  · rw [hi, Function.update_self]
    exact hturn.1
  · rw [Function.update_of_ne hi]
    exact h i

/-- **The manager is linearizable**: in every interleaving of their atomic steps, the calls act as
on a counter that each of them has to itself, in the order in which they return. -/
theorem system_linearizable {s : System ι} (h : s.Below) {schedule : List (ι × Call)}
    (hfits : ∀ e ∈ (run System.step s schedule).2, e.2.Fits) :
    (run System.step s schedule).1.Below ∧
      History (fun e : ι × Outcome => e.2.Acts) s.manager.nextNonce.toNat
        (run System.step s schedule).2 (run System.step s schedule).1.manager.nextNonce.toNat :=
  run_history (fun s => s.manager.nextNonce.toNat) System.Below
    (fun _ turn h hfits => System.step_implements h turn hfits) h hfits

/-! ## The nonces of a run -/

/-- The nonces of a run are unique and in order: the reserved ones increase, the next nonce never
decreases, and what is reserved after the chain's nonce was synced is at least that. -/
structure NoncesInOrder (initialNonce : UInt64) (schedule : List (ι × Call)) : Prop where
  nodup : (reservations (run System.step (.start initialNonce) schedule).2).Nodup
  increasing : (reservations (run System.step (.start initialNonce) schedule).2).Pairwise (· < ·)
  monotone : ∀ first next last, schedule = first ++ next ++ last →
    (run System.step (.start initialNonce) first).1.manager.nextNonce ≤
      (run System.step (.start initialNonce) (first ++ next)).1.manager.nextNonce
  synced : (run System.step (.start initialNonce) schedule).2.Pairwise fun e e' =>
    ∀ chainNextNonce nonce, e.2 = .synced chainNextNonce → e'.2 = .reserved nonce →
      chainNextNonce ≤ nonce

/-- The word never goes down. -/
theorem nextNonce_le {s : System ι} (h : s.Below) {first next : List (ι × Call)}
    (hfits : ∀ e ∈ (run System.step s (first ++ next)).2, e.2.Fits) :
    (run System.step s first).1.manager.nextNonce ≤
      (run System.step s (first ++ next)).1.manager.nextNonce := by
  rw [run_append] at hfits ⊢
  obtain ⟨hfirst, hnext⟩ := List.forall_mem_append.mp hfits
  obtain ⟨hbelow, -⟩ := system_linearizable h hfirst
  obtain ⟨-, hhistory⟩ := system_linearizable hbelow hnext
  exact UInt64.le_iff_toNat_le.mpr (hhistory.le fun e a b h => h.le)

/-- **Nonces are unique and monotone** in every interleaving of any number of callers, as long as
they stay below `2 ^ 64`. -/
theorem nonces_inOrder (initialNonce : UInt64) (schedule : List (ι × Call))
    (hfits : ∀ e ∈ (run System.step (.start initialNonce) schedule).2, e.2.Fits) :
    NoncesInOrder initialNonce schedule := by
  have hbelow : (System.start initialNonce : System ι).Below := System.start_below initialNonce
  obtain ⟨-, hhistory⟩ := system_linearizable hbelow hfits
  have hcovers := reserved_covers hhistory
  have hincreasing := reservations_increasing hcovers
  refine ⟨hincreasing.imp fun hlt => UInt64.ne_of_lt hlt, hincreasing, ?_, ?_⟩
  · intro first next last hschedule
    rw [hschedule, run_append] at hfits
    exact nextNonce_le hbelow fun e he => hfits e (List.mem_append_left _ he)
  · refine hcovers.imp fun {e e'} hcovers chainNextNonce nonce he he' => ?_
    have hcovered := hcovers nonce he'
    rw [he] at hcovered
    exact UInt64.le_iff_toNat_le.mpr hcovered

/-- Caller 0 sees 5 and raises the word to 7; caller 1 reserves 5 in between, and caller 0 tries
again. -/
theorem nonces_inOrder_contended : NoncesInOrder 5
    [(0, .syncAtLeast 7), (1, .reserve), (0, .peek), (0, .peek), (1, .reserve), (2, .reserve)] :=
  nonces_inOrder 5 _ (by decide)

end ArbitrageBot.Execution
