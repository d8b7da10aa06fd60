import Mathlib.Data.Finset.Image
import ArbitrageBot.Lib.WordSet

/-!
# Finite sets of numbers as sparse words of bits

A map from word positions to `w`-bit words in which a word that is zero has no entry. It represents
the finite set of the numbers whose bit is set, and its entries are the positions of these numbers:
the next level of a tree of such maps represents the image of the set under division by `w`.
-/

namespace ArbitrageBot.Lib.SparseBits

variable {w : Nat}

/-- The word at a position; a missing one is zero. -/
def word (m : AList (fun _ : Nat => BitVec w)) (k : Nat) : BitVec w :=
  (m.lookup k).getD 0#w

theorem word_of_lookup {m : AList (fun _ : Nat => BitVec w)} {k : Nat} {x : BitVec w}
    (hx : m.lookup k = some x) : word m k = x := by
  rw [word, hx, Option.getD_some]

/-! ## Positions -/

section Position

variable {i j k : Nat}

theorem div_block (hj : j < w) : (k * w + j) / w = k := by
  rw [Nat.mul_comm, Nat.mul_add_div (by omega), Nat.div_eq_of_lt hj, Nat.add_zero]

theorem mod_block (hj : j < w) : (k * w + j) % w = j := by
  rw [Nat.mul_comm, Nat.mul_add_mod, Nat.mod_eq_of_lt hj]

/-- In one word, numbers are told apart by their bits. -/
theorem mod_eq_iff (hkey : j / w = i / w) : j % w = i % w ↔ j = i := by
  constructor
  · intro hmod
    rw [← Nat.div_add_mod j w, ← Nat.div_add_mod i w, hkey, hmod]
  · rintro rfl
    rfl

end Position

/-! ## One word -/

section Word

variable {x : BitVec w} {j k : Nat}

theorem getLsbD_or_bit (hk : k < w) :
    (x ||| 1#w <<< k).getLsbD j = true ↔ j = k ∨ x.getLsbD j = true := by
  rw [BitVec.getLsbD_or, WordSet.getLsbD_one_shiftLeft hk, Bool.or_eq_true, decide_eq_true_iff,
    or_comm, eq_comm]

theorem getLsbD_and_not_bit (hk : k < w) :
    (x &&& ~~~(1#w <<< k)).getLsbD j = true ↔ j ≠ k ∧ x.getLsbD j = true := by
  rw [BitVec.getLsbD_and, BitVec.getLsbD_not, WordSet.getLsbD_one_shiftLeft hk, Bool.and_eq_true,
    Bool.and_eq_true, Bool.not_eq_true', decide_eq_true_iff, decide_eq_false_iff_not]
  constructor
  · rintro ⟨hx, -, hne⟩
    exact ⟨Ne.symm hne, hx⟩
  · rintro ⟨hne, hx⟩
    exact ⟨hx, BitVec.lt_of_getLsbD hx, Ne.symm hne⟩

theorem eq_zero_iff : x = 0#w ↔ ∀ j < w, x.getLsbD j = false := by
  constructor
  · rintro rfl j -
    exact BitVec.getLsbD_zero
  · intro h
    apply BitVec.eq_of_getLsbD_eq
    intro j hj
    rw [h j hj, BitVec.getLsbD_zero]

theorem and_bit_eq_zero_iff (hk : k < w) : x &&& 1#w <<< k = 0#w ↔ x.getLsbD k = false := by
  rw [eq_zero_iff]
  constructor
  · intro h
    have hbit := h k hk
    rw [BitVec.getLsbD_and, WordSet.getLsbD_one_shiftLeft hk] at hbit
    simpa using hbit
  · intro h j _
    rw [BitVec.getLsbD_and, WordSet.getLsbD_one_shiftLeft hk]
    by_cases hj : k = j
    · subst hj
      simp [h]
    · simp [hj]

end Word

/-! ## Representation -/

/-- The map has the bits of the set, and an entry for every word that is not zero. -/
structure Represents (m : AList (fun _ : Nat => BitVec w)) (s : Finset Nat) : Prop where
  mem : ∀ i, (word m (i / w)).getLsbD (i % w) = true ↔ i ∈ s
  ne_zero : ∀ k x, m.lookup k = some x → x ≠ 0#w

namespace Represents

variable {m : AList (fun _ : Nat => BitVec w)} {s : Finset Nat} {i k : Nat} {x : BitVec w}

protected theorem empty : Represents (∅ : AList (fun _ : Nat => BitVec w)) ∅ where
  mem := fun i => by simp [word]
  ne_zero := fun k x h => by simp at h

variable (h : Represents m s)

include h

/-- The bits of one word. -/
theorem getLsbD_word {j : Nat} (hj : j < w) : (word m k).getLsbD j = true ↔ k * w + j ∈ s := by
  have hmem := h.mem (k * w + j)
  rwa [div_block hj, mod_block hj] at hmem

/-- A position without an entry has no member. -/
theorem lookup_eq_none_iff : m.lookup k = none ↔ ∀ i ∈ s, i / w ≠ k := by
  constructor
  · rintro hnone i hi rfl
    have hbit := (h.mem i).mpr hi
    rw [word, hnone, Option.getD_none, BitVec.getLsbD_zero] at hbit
    cases hbit
  · intro hall
    cases hx : m.lookup k with
    | none => rfl
    | some x =>
      refine absurd (eq_zero_iff.mpr fun j hj => ?_) (h.ne_zero k x hx)
      rw [← Bool.not_eq_true, ← word_of_lookup hx, h.getLsbD_word hj]
      intro hmem
      exact hall _ hmem (div_block hj)

/-- Setting the bit of `i`. -/
theorem insert (hw : 0 < w) :
    Represents (m.insert (i / w) (word m (i / w) ||| 1#w <<< (i % w))) (insert i s) where
  mem := by
    intro j
    have hi : i % w < w := Nat.mod_lt _ hw
    rw [Finset.mem_insert]
    by_cases hkey : j / w = i / w
    · rw [hkey, word, AList.lookup_insert, Option.getD_some, getLsbD_or_bit hi,
        mod_eq_iff hkey, ← hkey, h.mem]
    · have hne : j ≠ i := fun hji => hkey (by rw [hji])
      rw [word, AList.lookup_insert_ne hkey, ← word, h.mem, or_iff_right hne]
  ne_zero := by
    intro k x hx
    by_cases hkey : k = i / w
    · subst hkey
      rw [AList.lookup_insert] at hx
      cases hx
      have hbit : (word m (i / w) ||| 1#w <<< (i % w)).getLsbD (i % w) = true :=
        (getLsbD_or_bit (Nat.mod_lt _ hw)).mpr (Or.inl rfl)
      intro hzero
      rw [hzero, BitVec.getLsbD_zero] at hbit
      cases hbit
    · rw [AList.lookup_insert_ne hkey] at hx
      exact h.ne_zero k x hx

/-- The word that is left when the bit of `i` is cleared is zero exactly when no other member is at
its position. -/
theorem cleared_eq_zero_iff (hw : 0 < w) : word m (i / w) &&& ~~~(1#w <<< (i % w)) = 0#w ↔
    ∀ j ∈ s, j / w = i / w → j = i := by
  have hi : i % w < w := Nat.mod_lt _ hw
  rw [eq_zero_iff]
  constructor
  · intro hzero j hj hkey
    by_contra hne
    have hmod : j % w ≠ i % w := fun hmod => hne ((mod_eq_iff hkey).mp hmod)
    have hbit := hzero (j % w) (Nat.mod_lt _ hw)
    rw [← Bool.not_eq_true, getLsbD_and_not_bit hi, ← hkey, h.mem] at hbit
    exact hbit ⟨hmod, hj⟩
  · intro halone j hj
    rw [← Bool.not_eq_true, getLsbD_and_not_bit hi, h.getLsbD_word hj]
    rintro ⟨hne, hmem⟩
    have heq := halone _ hmem (div_block hj)
    refine hne ?_
    rw [← heq, mod_block hj]

/-- Clearing the bit of `i` where other bits stay. -/
theorem clear (hw : 0 < w) (hne : word m (i / w) &&& ~~~(1#w <<< (i % w)) ≠ 0#w) :
    Represents (m.insert (i / w) (word m (i / w) &&& ~~~(1#w <<< (i % w)))) (s.erase i) where
  mem := by
    intro j
    have hi : i % w < w := Nat.mod_lt _ hw
    rw [Finset.mem_erase]
    by_cases hkey : j / w = i / w
    · rw [hkey, word, AList.lookup_insert, Option.getD_some, getLsbD_and_not_bit hi,
        ne_eq, mod_eq_iff hkey, ← hkey, h.mem]
    · have hji : j ≠ i := fun hji => hkey (by rw [hji])
      rw [word, AList.lookup_insert_ne hkey, ← word, h.mem, and_iff_right hji]
  ne_zero := by
    intro k x hx
    by_cases hkey : k = i / w
    · subst hkey
      rw [AList.lookup_insert] at hx
      cases hx
      exact hne
    · rw [AList.lookup_insert_ne hkey] at hx
      exact h.ne_zero k x hx

/-- Erasing the word of which `i` has the last bit. -/
theorem erase (halone : ∀ j ∈ s, j / w = i / w → j = i) :
    Represents (m.erase (i / w)) (s.erase i) where
  mem := by
    intro j
    rw [Finset.mem_erase]
    by_cases hkey : j / w = i / w
    · rw [hkey, word, AList.lookup_erase, Option.getD_none, BitVec.getLsbD_zero]
      refine iff_of_false Bool.false_ne_true ?_
      rintro ⟨hne, hj⟩
      exact hne (halone j hj hkey)
    · have hji : j ≠ i := fun hji => hkey (by rw [hji])
      rw [word, AList.lookup_erase_ne hkey, ← word, h.mem, and_iff_right hji]
  ne_zero := by
    intro k x hx
    by_cases hkey : k = i / w
    · subst hkey
      rw [AList.lookup_erase] at hx
      cases hx
    · rw [AList.lookup_erase_ne hkey] at hx
      exact h.ne_zero k x hx

end Represents

/-! ## The level above -/

section Image

variable {f : Nat → Nat} {s : Finset Nat} {i : Nat}

/-- The last member of a fibre takes its image with it. -/
theorem image_erase_of_alone (halone : ∀ j ∈ s, f j = f i → j = i) :
    (s.erase i).image f = (s.image f).erase (f i) := by
  ext k
  rw [Finset.mem_erase, Finset.mem_image, Finset.mem_image]
  constructor
  · rintro ⟨j, hj, rfl⟩
    rw [Finset.mem_erase] at hj
    exact ⟨fun heq => hj.1 (halone j hj.2 heq), j, hj.2, rfl⟩
  · rintro ⟨hne, j, hj, rfl⟩
    exact ⟨j, Finset.mem_erase.mpr ⟨fun hji => hne (by rw [hji]), hj⟩, rfl⟩

/-- Another member of the fibre keeps the image. -/
theorem image_erase_of_shared {j : Nat} (hj : j ∈ s) (hne : j ≠ i) (hf : f j = f i) :
    (s.erase i).image f = s.image f := by
  ext k
  rw [Finset.mem_image, Finset.mem_image]
  constructor
  · rintro ⟨a, ha, rfl⟩
    exact ⟨a, Finset.mem_of_mem_erase ha, rfl⟩
  · rintro ⟨a, ha, rfl⟩
    by_cases hai : a = i
    · subst hai
      exact ⟨j, Finset.mem_erase.mpr ⟨hne, hj⟩, hf⟩
    · exact ⟨a, Finset.mem_erase.mpr ⟨hai, ha⟩, rfl⟩

end Image

end ArbitrageBot.Lib.SparseBits
