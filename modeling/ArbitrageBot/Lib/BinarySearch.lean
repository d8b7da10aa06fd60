import Mathlib.Data.List.Range
import Mathlib.Data.Nat.Bitwise

/-!
# Binary search by halved steps

Going up from a start by steps `2 ^ (k - 1), …, 2, 1`, each taken when the property still holds
after it, ends at the last number of the property, for a property that only stops holding. The first
and the last bit of a word are found so.
-/

namespace ArbitrageBot.Lib.BinarySearch

/-- The halved steps below `2 ^ k`. -/
def steps : Nat → List Nat
  | 0 => []
  | k + 1 => 2 ^ k :: steps k

def climb (p : Nat → Prop) [DecidablePred p] : List Nat → Nat → Nat
  | [], acc => acc
  | w :: ws, acc => climb p ws (if p (acc + w) then acc + w else acc)

/-- The climb ends at the last number of the property. -/
theorem climb_spec {p : Nat → Prop} [DecidablePred p] {k acc : Nat} (h : p acc)
    (hend : ¬ p (acc + 2 ^ k)) :
    acc ≤ climb p (steps k) acc ∧ climb p (steps k) acc < acc + 2 ^ k ∧
      p (climb p (steps k) acc) ∧ ¬ p (climb p (steps k) acc + 1) := by
  induction k generalizing acc with
  | zero => exact ⟨le_rfl, Nat.lt_succ_self acc, h, hend⟩
  | succ k ih =>
    have hpow : 2 ^ (k + 1) = 2 ^ k + 2 ^ k := by rw [Nat.pow_succ, Nat.mul_two]
    rw [hpow] at hend ⊢
    unfold steps climb
    by_cases hstep : p (acc + 2 ^ k)
    · rw [if_pos hstep]
      obtain ⟨hle, hlt, hp, hnot⟩ := ih hstep (by rwa [Nat.add_assoc])
      exact ⟨by omega, by omega, hp, hnot⟩
    · rw [if_neg hstep]
      obtain ⟨hle, hlt, hp, hnot⟩ := ih h hstep
      exact ⟨hle, by omega, hp, hnot⟩

/-! ## Bits of a word -/

variable {n : Nat} {x : BitVec n} {i : Nat}

/-- The last bit: a word is at least `2 ^ D` and below `2 ^ (D + 1)`. -/
theorem isLast_of_pow_le {D : Nat} (hle : 2 ^ D ≤ x.toNat) (hlt : ¬ 2 ^ (D + 1) ≤ x.toNat) :
    x.getLsbD D = true ∧ ∀ i, x.getLsbD i = true → i ≤ D := by
  constructor
  · exact Nat.testBit_of_two_pow_le_and_two_pow_add_one_gt hle (by omega)
  · intro i hi
    by_contra hgt
    have := Nat.ge_two_pow_of_testBit hi
    have := Nat.pow_le_pow_right (n := 2) (by omega) (by omega : D + 1 ≤ i)
    omega

/-- The first bit: a word is shifted to zero by one place more than `D`, but not by `D`. -/
theorem isFirst_of_shiftLeft {D : Nat} (hne : x <<< D ≠ 0#n) (hzero : x <<< (D + 1) = 0#n) :
    x.getLsbD (n - 1 - D) = true ∧ ∀ i, x.getLsbD i = true → n - 1 - D ≤ i := by
  have hlow : ∀ i, x.getLsbD i = true → n ≤ i + (D + 1) := by
    intro i hi
    by_contra hlt
    have hbit : (x <<< (D + 1)).getLsbD (i + (D + 1)) = false := by
      rw [hzero, BitVec.getLsbD_zero]
    rw [BitVec.getLsbD_shiftLeft, Nat.add_sub_cancel, hi] at hbit
    simp at hbit
    omega
  obtain ⟨j, hj⟩ : ∃ j, (x <<< D).getLsbD j = true := by
    by_contra hno
    refine hne (BitVec.eq_of_getLsbD_eq fun i hi => ?_)
    rw [BitVec.getLsbD_zero]
    exact Bool.eq_false_iff.mpr fun h => hno ⟨i, h⟩
  rw [BitVec.getLsbD_shiftLeft] at hj
  simp only [Bool.and_eq_true, decide_eq_true_eq, Bool.not_eq_true', decide_eq_false_iff_not] at hj
  have hfirst := hlow _ hj.2
  have : j - D = n - 1 - D := by omega
  refine ⟨this ▸ hj.2, fun i hi => ?_⟩
  have := hlow i hi
  omega

end ArbitrageBot.Lib.BinarySearch
