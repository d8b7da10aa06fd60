import Mathlib.Data.BitVec
import Mathlib.Data.List.AList
import Mathlib.Data.Int.Basic
import Mathlib.Tactic.Ring

/-!
# Machine integers, maps and outcomes

The value types the Rust code computes with. `u128`, `i128` and `i32` values are `Nat` and `Int`
together with the range check Rust makes on every `+`, `-` and unary `-`; `U256` and `I256` words
are 256-bit vectors, whose operators wrap. What an overflowing native operation does depends on
the build profile: with overflow checks it panics (`profile.dev`), without them it wraps
(`profile.release`), so every function that computes with native integers takes the profile.
-/

namespace ArbitrageBot

/-- A 20-byte account address. -/
abbrev Address := BitVec 160

/-- `U256`, and `I256` read through its two's complement. -/
abbrev U256 := BitVec 256

/-- A hash map: the entries in the order the map iterates them, keys distinct. -/
abbrev HashMap (κ ν : Type) := AList (fun _ : κ => ν)

/-- The values of a map, in iteration order. -/
def HashMap.values {κ ν : Type} (m : HashMap κ ν) : List ν :=
  m.entries.map (·.2)

/-- A map after an insertion. -/
theorem HashMap.lookup_insert {κ ν : Type} [DecidableEq κ] (m : HashMap κ ν) (a t : κ) (v : ν) :
    AList.lookup t (m.insert a v) = if t = a then some v else AList.lookup t m := by
  by_cases h : t = a
  · subst h
    rw [AList.lookup_insert, if_pos rfl]
  · rw [AList.lookup_insert_ne h, if_neg h]

/-- `map.entry(key).or_insert(value)`: the value of the entry, and the map with the entry. -/
def HashMap.orInsert {κ ν : Type} [DecidableEq κ] (m : HashMap κ ν) (key : κ) (value : ν) :
    ν × HashMap κ ν :=
  match m.lookup key with
  | some x => (x, m)
  | none => (value, m.insert key value)

/-- The part of a Cargo profile that the arithmetic depends on. -/
structure BuildProfile where
  overflowChecks : Bool

/-- Errors of the concentrated-liquidity mathematics crate. -/
structure UniswapV3MathError where
  message : String
  deriving DecidableEq, Repr

inductive UniswapV2Error where
  | divisionByZero
  | roundingError
  deriving DecidableEq, Repr

inductive UniswapV3Error where
  | uniswapV3MathError (e : UniswapV3MathError)
  | liquidityUnderflow
  deriving DecidableEq, Repr

inductive AgniError where
  | uniswapV3MathError (e : UniswapV3MathError)
  | liquidityUnderflow
  deriving DecidableEq, Repr

inductive MoeError where
  | missingSlot0
  | unsupportedToken
  | arithmetic
  | insufficientLiquidity
  | invalidBinId
  deriving DecidableEq, Repr

/-- The variants of `AMMError` the modelled functions return. -/
inductive AMMError where
  | solTypesError
  | uniswapV2Error (e : UniswapV2Error)
  | uniswapV3Error (e : UniswapV3Error)
  | agniError (e : AgniError)
  | moeError (e : MoeError)
  | unrecognizedEventSignature
  deriving DecidableEq, Repr

/-- Why a call did not return `Ok`: it returned `Err`, or it panicked. -/
inductive Fault (ε : Type) where
  | err (e : ε)
  | panic
  deriving DecidableEq, Repr

/-- The outcome of a fallible call. -/
abbrev Outcome (ε α : Type) := Except (Fault ε) α

theorem bind_eq_ok {ε α β : Type} {x : Except ε α} {f : α → Except ε β} {b : β} :
    x >>= f = .ok b ↔ ∃ a, x = .ok a ∧ f a = .ok b := by
  cases x with
  | error e => simp [bind, Except.bind]
  | ok a => simp [bind, Except.bind]

theorem bind_eq_error {ε α β : Type} {x : Except ε α} {f : α → Except ε β} {e : ε} :
    x >>= f = .error e ↔ x = .error e ∨ ∃ a, x = .ok a ∧ f a = .error e := by
  cases x with
  | error e => simp [bind, Except.bind]
  | ok a => simp [bind, Except.bind]

@[simp] theorem ok_bind {ε α β : Type} (a : α) (f : α → Except ε β) :
    (Except.ok a >>= f) = f a := rfl

@[simp] theorem error_bind {ε α β : Type} (e : ε) (f : α → Except ε β) :
    (Except.error e >>= f : Except ε β) = .error e := rfl

/-- `n as i128`. -/
def asI128 (n : Nat) : Int := (n : Int).bmod (2 ^ 128)

/-- `x as u128`. -/
def asU128 (x : Int) : Nat := (x % 2 ^ 128).toNat

/-- `x.to::<u128>()`, which panics where the value does not fit. -/
def castU128 {ε : Type} (x : U256) : Outcome ε Nat :=
  if x.toNat < 2 ^ 128 then .ok x.toNat else .error .panic

theorem castU128_of_lt {ε : Type} {x : U256} (h : x.toNat < 2 ^ 128) :
    (castU128 x : Outcome ε Nat) = .ok x.toNat := if_pos h

theorem asI128_of_lt {n : Nat} (h : n < 2 ^ 127) : asI128 n = n := by
  unfold asI128
  rw [Int.bmod_eq_of_le] <;> omega

theorem asU128_of_range {x : Int} (h0 : 0 ≤ x) (h1 : x < 2 ^ 128) : asU128 x = x.toNat := by
  unfold asU128
  rw [Int.emod_eq_of_lt h0 h1]

namespace BuildProfile

/-- The value of an unsigned `w`-bit operation whose exact result is `x`. -/
def unsigned {ε : Type} (prof : BuildProfile) (w : Nat) (x : Int) : Outcome ε Nat :=
  if 0 ≤ x ∧ x < 2 ^ w then .ok x.toNat
  else if prof.overflowChecks then .error .panic
  else .ok (x % 2 ^ w).toNat

/-- The value of a signed `w`-bit operation whose exact result is `x`. -/
def signed {ε : Type} (prof : BuildProfile) (w : Nat) (x : Int) : Outcome ε Int :=
  if -2 ^ (w - 1) ≤ x ∧ x < 2 ^ (w - 1) then .ok x
  else if prof.overflowChecks then .error .panic
  else .ok (x.bmod (2 ^ w))

variable {ε : Type} {prof : BuildProfile} {w : Nat} {x : Int}

theorem unsigned_of_range (h0 : 0 ≤ x) (h1 : x < 2 ^ w) :
    prof.unsigned (ε := ε) w x = .ok x.toNat := by
  simp [unsigned, h0, h1]

/-- An operation that does not panic has its value modulo `2 ^ w`. -/
theorem unsigned_eq_ok {k n : Nat} (h : prof.unsigned (ε := ε) w k = .ok n) : n = k % 2 ^ w := by
  unfold unsigned at h
  split at h
  · rename_i hrange
    have hlt : k < 2 ^ w := by exact_mod_cast hrange.2
    cases h
    rw [Nat.mod_eq_of_lt hlt, Int.toNat_natCast]
  · split at h
    · cases h
    · cases h
      have hcast : (k : Int) % 2 ^ w = ((k % 2 ^ w : Nat) : Int) := by push_cast; rfl
      rw [hcast, Int.toNat_natCast]

theorem signed_of_range (h0 : -2 ^ (w - 1) ≤ x) (h1 : x < 2 ^ (w - 1)) :
    prof.signed (ε := ε) w x = .ok x := by
  simp [signed, h0, h1]

end BuildProfile

/-- A token and its decimal precision; `0` decimals mean "not fetched". -/
structure Token where
  address : Address
  decimals : UInt8
  deriving DecidableEq, Repr

/-- `From<Address> for Token`. -/
def Token.fromAddress (address : Address) : Token :=
  { address, decimals := 0 }

end ArbitrageBot
