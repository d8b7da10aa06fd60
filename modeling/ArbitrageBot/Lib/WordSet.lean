import Mathlib.Data.List.AList
import Mathlib.Data.Int.Basic

/-!
# Sets of integers as words of bits

A map from word positions to `w`-bit words, read as the set of the integers whose bit is set: `i`
has bit `i % w` of word `i / w`, and a missing word is zero. Flipping the bit of `i` changes the
membership of `i` and of nothing else (`mem_flip`). Read word by word and bit by bit, the members
come in increasing order (`mem_members`, `pairwise_members`).
-/

namespace ArbitrageBot.Lib.WordSet

variable {w : Nat}

/-- The bit of `i`. -/
def mem (m : AList (fun _ : Int => BitVec w)) (i : Int) : Bool :=
  ((m.lookup (i / w)).getD 0#w).getLsbD (i % w).toNat

/-- The map with the bit of `i` flipped. -/
def flip (m : AList (fun _ : Int => BitVec w)) (i : Int) : AList (fun _ : Int => BitVec w) :=
  m.insert (i / w) ((m.lookup (i / w)).getD 0#w ^^^ 1#w <<< (i % w).toNat)

theorem getLsbD_one_shiftLeft {k j : Nat} (hk : k < w) :
    (1#w <<< k).getLsbD j = decide (k = j) := by
  rw [BitVec.getLsbD_shiftLeft, BitVec.getLsbD_one]
  by_cases h : k = j
  · subst h
    simp [hk]
    omega
  · by_cases hj : j < k
    · simp [h, hj]
    · have : j - k ≠ 0 := by omega
      simp [h, this]

theorem mem_flip (hw : 0 < w) (m : AList (fun _ : Int => BitVec w)) (i j : Int) :
    mem (flip m i) j = (mem m j ^^ decide (i = j)) := by
  have hpos : (0 : Int) < w := by exact_mod_cast hw
  have hi := Int.emod_nonneg i (Int.ne_of_gt hpos)
  have hi' := Int.emod_lt_of_pos i hpos
  have hj := Int.emod_nonneg j (Int.ne_of_gt hpos)
  unfold mem flip
  by_cases hword : j / w = i / w
  · rw [hword, AList.lookup_insert, Option.getD_some, BitVec.getLsbD_xor,
      getLsbD_one_shiftLeft (by omega)]
    congr 2
    have hdi := Int.mul_ediv_add_emod i w
    have hdj := Int.mul_ediv_add_emod j w
    rw [hword] at hdj
    apply propext
    constructor <;> intro h <;> omega
  · rw [AList.lookup_insert_ne hword]
    have hne : i ≠ j := fun h => hword (by rw [h])
    simp [hne]

/-- Flipping each of a list of different integers. -/
theorem mem_foldl_flip (hw : 0 < w) (l : List Int) (hl : l.Nodup)
    (m : AList (fun _ : Int => BitVec w))
    (i : Int) : mem (l.foldl flip m) i = (mem m i ^^ decide (i ∈ l)) := by
  induction l generalizing m with
  | nil => simp
  | cons a l ih =>
    obtain ⟨hnot, hl⟩ := List.nodup_cons.mp hl
    rw [List.foldl_cons, ih hl, mem_flip hw]
    by_cases h : a = i
    · subst h
      simp [hnot]
    · simp [h, Ne.symm h]

/-! ## Enumeration -/

/-- The members in some words, word by word and bit by bit. -/
def members (m : AList (fun _ : Int => BitVec w)) (words : List Int) : List Int :=
  words.flatMap fun j =>
    ((List.range w).filter fun i => ((m.lookup j).getD 0#w).getLsbD i).map fun i : Nat => j * w + i

theorem mem_members {m : AList (fun _ : Int => BitVec w)} {words : List Int} (hw : 0 < w)
    {i : Int} :
    i ∈ members m words ↔ mem m i = true ∧ i / w ∈ words := by
  have hpos : (0 : Int) < w := by exact_mod_cast hw
  unfold members mem
  simp only [List.mem_flatMap, List.mem_map, List.mem_filter, List.mem_range]
  constructor
  · rintro ⟨j, hj, k, ⟨hk, hbit⟩, rfl⟩
    have hdiv : (j * w + (k : Int)) / w = j := by
      rw [Int.mul_comm, Int.mul_add_ediv_left _ _ (Int.ne_of_gt hpos),
        Int.ediv_eq_zero_of_lt (by omega) (by omega), Int.add_zero]
    have hmod : (j * w + (k : Int)) % w = k := by
      rw [Int.mul_comm, Int.mul_add_emod_self_left, Int.emod_eq_of_lt (by omega) (by omega)]
    rw [hdiv, hmod, Int.toNat_natCast]
    exact ⟨hbit, hj⟩
  · rintro ⟨hbit, hword⟩
    have h0 := Int.emod_nonneg i (Int.ne_of_gt hpos)
    have h1 := Int.emod_lt_of_pos i hpos
    refine ⟨i / w, hword, (i % w).toNat, ⟨by omega, hbit⟩, ?_⟩
    rw [Int.toNat_of_nonneg h0, Int.mul_comm]
    exact Int.mul_ediv_add_emod i w

theorem pairwise_members {m : AList (fun _ : Int => BitVec w)} {words : List Int}
    (hwords : words.Pairwise (· < ·)) : (members m words).Pairwise (· < ·) := by
  unfold members
  rw [List.pairwise_flatMap]
  refine ⟨fun j _ => ?_, hwords.imp fun {a b} hab => ?_⟩
  · refine List.Pairwise.map _ (fun a b hab => ?_) (List.pairwise_lt_range.filter _)
    omega
  · intro x hx y hy
    obtain ⟨k, hk, rfl⟩ := List.mem_map.mp hx
    obtain ⟨l, hl, rfl⟩ := List.mem_map.mp hy
    have hk := List.mem_range.mp (List.mem_of_mem_filter hk)
    have hmul : (a + 1) * (w : Int) ≤ b * w := Int.mul_le_mul_of_nonneg_right hab (by omega)
    rw [Int.add_mul, Int.one_mul] at hmul
    omega

end ArbitrageBot.Lib.WordSet
