import ArbitrageBot.Amms.Machine
import ArbitrageBot.Lib.SparseBits

/-!
# The tree of bin ids in the port

`tree_math` keeps a set of 24-bit ids in three levels of 256-bit words, the lower two in hash maps
that have no entry for a word that is zero. On every run of `add` and `remove` each level
represents the set of the level below divided by 256 (`run_spec`).
-/

namespace ArbitrageBot

open Lib

namespace Moe

structure TreeUint24 where
  level0 : U256
  level1 : HashMap Nat U256
  level2 : HashMap Nat U256

namespace TreeUint24

def default : TreeUint24 where
  level0 := 0#256
  level1 := ∅
  level2 := ∅

def contains (self : TreeUint24) (id : Nat) : Bool :=
  let key2 := id >>> 8
  match self.level2.lookup key2 with
  | some leaves =>
    let mask := 1#256 <<< (id &&& 0xff)
    leaves &&& mask ≠ 0#256
  | none => false

/-- `add`: the answer, and the tree after it. -/
def add (self : TreeUint24) (id : Nat) : Bool × TreeUint24 :=
  let key2 := id >>> 8
  let bit := 1#256 <<< (id &&& 0xff)
  let (leaves, level2) := self.level2.orInsert key2 0#256
  if leaves &&& bit = 0#256 then
    let level2 := level2.insert key2 (leaves ||| bit)
    -- `as u16`
    let key1 := (key2 >>> 8) % 2 ^ 16
    let bit1 := 1#256 <<< (key2 &&& 0xff)
    let (words, level1) := self.level1.orInsert key1 0#256
    if words &&& bit1 = 0#256 then
      (true, {
        level0 := self.level0 ||| 1#256 <<< (key1 &&& 0xff)
        level1 := level1.insert key1 (words ||| bit1)
        level2 })
    else (true, { self with level1, level2 })
  else (false, { self with level2 })

/-- `remove`: the answer, and the tree after it. A word that becomes zero leaves its map, and its
bit the word above. -/
def remove (self : TreeUint24) (id : Nat) : Bool × TreeUint24 :=
  let key2 := id >>> 8
  let bit := 1#256 <<< (id &&& 0xff)
  match self.level2.lookup key2 with
  | some leaves =>
    if leaves &&& bit = 0#256 then (false, self)
    else
      let leaves := leaves &&& ~~~bit
      if leaves = 0#256 then
        let level2 := self.level2.erase key2
        let key1 := (key2 >>> 8) % 2 ^ 16
        let bit1 := 1#256 <<< (key2 &&& 0xff)
        match self.level1.lookup key1 with
        | some words =>
          let words := words &&& ~~~bit1
          if words = 0#256 then
            (true, {
              level0 := self.level0 &&& ~~~(1#256 <<< (key1 &&& 0xff))
              level1 := self.level1.erase key1
              level2 })
          else (true, { self with level1 := self.level1.insert key1 words, level2 })
        | none => (true, { self with level2 })
      else (true, { self with level2 := self.level2.insert key2 leaves })
  | none => (false, self)

/-! ## Runs -/

/-- A call that changes the tree. -/
inductive Call where
  | add (id : Nat)
  | remove (id : Nat)
  deriving DecidableEq, Repr

def Call.id : Call → Nat
  | .add id => id
  | .remove id => id

def call (self : TreeUint24) : Call → Bool × TreeUint24
  | .add id => self.add id
  | .remove id => self.remove id

/-- The tree after a sequence of calls. -/
def run (calls : List Call) : TreeUint24 :=
  calls.foldl (fun tree c => (tree.call c).2) default

/-- The same insertions and deletions on a set of ids. -/
def Call.apply (s : Finset Nat) : Call → Finset Nat
  | .add id => insert id s
  | .remove id => s.erase id

def idSet (calls : List Call) : Finset Nat :=
  calls.foldl Call.apply ∅

/-! ## What the levels represent -/

open SparseBits

/-- The keys the code computes, by division. -/
theorem key_eq (id : Nat) : id >>> 8 = id / 256 :=
  Nat.shiftRight_eq_div_pow id 8

theorem bit_eq (id : Nat) : id &&& 0xff = id % 256 :=
  Nat.and_two_pow_sub_one_eq_mod id 8

theorem key1_eq {id : Nat} (hid : id < 2 ^ 24) : (id / 256) >>> 8 % 2 ^ 16 = id / 256 / 256 := by
  rw [key_eq]
  omega

/-- `orInsert` with a zero word reads the word, and the entry can be overwritten. -/
theorem orInsert_fst (m : HashMap Nat U256) (k : Nat) : (m.orInsert k 0#256).1 = word m k := by
  unfold HashMap.orInsert word
  cases m.lookup k <;> rfl

theorem orInsert_snd_insert (m : HashMap Nat U256) (k : Nat) (x : U256) :
    (m.orInsert k 0#256).2.insert k x = m.insert k x := by
  unfold HashMap.orInsert
  cases m.lookup k with
  | none => exact AList.insert_insert m
  | some y => rfl

/-- An entry with a bit is not made. -/
theorem orInsert_snd_of_bit {m : HashMap Nat U256} {k : Nat} {x : U256}
    (hx : word m k &&& x ≠ 0#256) : (m.orInsert k 0#256).2 = m := by
  unfold HashMap.orInsert
  unfold word at hx
  cases hl : m.lookup k with
  | none =>
    rw [hl, Option.getD_none, BitVec.zero_and] at hx
    exact absurd rfl hx
  | some y => rfl

/-- The tree represents a set of ids: each level, the keys of the level below. -/
structure Holds (tree : TreeUint24) (s : Finset Nat) : Prop where
  lt : ∀ id ∈ s, id < 2 ^ 24
  level2 : Represents tree.level2 s
  level1 : Represents tree.level1 (s.image (· / 256))
  level0 : ∀ key1, tree.level0.getLsbD key1 = true ↔ key1 ∈ (s.image (· / 256)).image (· / 256)

namespace Holds

variable {tree : TreeUint24} {s : Finset Nat} {id : Nat}

theorem default : Holds TreeUint24.default ∅ where
  lt := by simp
  level2 := Represents.empty
  level1 := Represents.empty
  level0 := by simp [TreeUint24.default]

variable (h : Holds tree s)

include h

/-- The bit the code tests. -/
theorem leaf_eq_zero_iff : word tree.level2 (id / 256) &&& 1#256 <<< (id % 256) = 0#256 ↔
    id ∉ s := by
  rw [and_bit_eq_zero_iff (Nat.mod_lt _ (by omega)), ← Bool.not_eq_true, h.level2.mem]

theorem parent_eq_zero_iff {key2 : Nat} :
    word tree.level1 (key2 / 256) &&& 1#256 <<< (key2 % 256) = 0#256 ↔
      key2 ∉ s.image (· / 256) := by
  rw [and_bit_eq_zero_iff (Nat.mod_lt _ (by omega)), ← Bool.not_eq_true, h.level1.mem]

theorem contains_iff : tree.contains id = true ↔ id ∈ s := by
  rw [← not_iff_not, ← h.leaf_eq_zero_iff]
  unfold contains
  dsimp only
  rw [key_eq, bit_eq]
  cases hl : tree.level2.lookup (id / 256) with
  | none =>
    rw [word, hl, Option.getD_none, BitVec.zero_and]
    exact iff_of_true Bool.false_ne_true rfl
  | some leaves =>
    rw [word_of_lookup hl]
    simp

/-- **`add` inserts the id**, and answers whether it was new. -/
theorem add (hid : id < 2 ^ 24) :
    ((tree.add id).1 = true ↔ id ∉ s) ∧ Holds (tree.add id).2 (insert id s) := by
  have hkey1 : id / 256 / 256 < 256 := by omega
  have hlt : ∀ i ∈ insert id s, i < 2 ^ 24 := by
    intro i hi
    rcases Finset.mem_insert.mp hi with rfl | hi
    · exact hid
    · exact h.lt i hi
  unfold TreeUint24.add
  dsimp only
  rw [orInsert_fst, orInsert_fst, orInsert_snd_insert, orInsert_snd_insert, key_eq, bit_eq, bit_eq,
    key1_eq hid, bit_eq, Nat.mod_eq_of_lt hkey1]
  by_cases hnew : word tree.level2 (id / 256) &&& 1#256 <<< (id % 256) = 0#256
  · rw [if_pos hnew]
    have hid' := h.leaf_eq_zero_iff.mp hnew
    by_cases hparent : word tree.level1 (id / 256 / 256) &&& 1#256 <<< (id / 256 % 256) = 0#256
    · rw [if_pos hparent]
      refine ⟨iff_of_true rfl hid', hlt, h.level2.insert (by omega), ?_, fun key1 => ?_⟩
      · rw [Finset.image_insert]
        exact h.level1.insert (by omega)
      · rw [Finset.image_insert, Finset.image_insert, getLsbD_or_bit hkey1, h.level0,
          Finset.mem_insert]
    · rw [if_neg hparent, orInsert_snd_of_bit hparent]
      have hmem := not_not.mp (mt h.parent_eq_zero_iff.mpr hparent)
      have himage : (insert id s).image (· / 256) = s.image (· / 256) := by
        rw [Finset.image_insert, Finset.insert_eq_of_mem hmem]
      refine ⟨iff_of_true rfl hid', hlt, h.level2.insert (by omega), ?_, ?_⟩
      · rw [himage]
        exact h.level1
      · rw [himage]
        exact h.level0
  · rw [if_neg hnew, orInsert_snd_of_bit hnew]
    have hmem := not_not.mp (mt h.leaf_eq_zero_iff.mpr hnew)
    rw [Finset.insert_eq_of_mem hmem]
    exact ⟨iff_of_false Bool.false_ne_true (not_not.mpr hmem), h⟩

/-- The last id of a leaf leaves its parent, and the last leaf of a parent the root. -/
theorem remove_last (hid : id < 2 ^ 24)
    (halone : ∀ j ∈ s, j / 256 = id / 256 → j = id) {words : U256}
    (hwords : tree.level1.lookup (id / 256 / 256) = some words) :
    Holds (if words &&& ~~~(1#256 <<< (id / 256 % 256)) = 0#256 then {
        level0 := tree.level0 &&& ~~~(1#256 <<< (id / 256 / 256))
        level1 := tree.level1.erase (id / 256 / 256)
        level2 := tree.level2.erase (id / 256) }
      else { tree with
        level1 := tree.level1.insert (id / 256 / 256) (words &&& ~~~(1#256 <<< (id / 256 % 256)))
        level2 := tree.level2.erase (id / 256) }) (s.erase id) := by
  have hlt : ∀ i ∈ s.erase id, i < 2 ^ 24 := fun i hi => h.lt i (Finset.mem_of_mem_erase hi)
  have himage : (s.erase id).image (· / 256) = (s.image (· / 256)).erase (id / 256) :=
    image_erase_of_alone halone
  have hcleared := h.level1.cleared_eq_zero_iff (by omega) (i := id / 256)
  rw [← word_of_lookup hwords]
  split
  · rename_i hzero
    have halone1 := hcleared.mp hzero
    have himage1 : ((s.image (· / 256)).erase (id / 256)).image (· / 256) =
        ((s.image (· / 256)).image (· / 256)).erase (id / 256 / 256) :=
      image_erase_of_alone halone1
    refine ⟨hlt, h.level2.erase halone, ?_, fun key1 => ?_⟩
    · rw [himage]
      exact h.level1.erase halone1
    · rw [himage, himage1, getLsbD_and_not_bit (by omega), h.level0, Finset.mem_erase]
  · rename_i hne
    obtain ⟨key2, hkey2, hsame, hother⟩ : ∃ key2 ∈ s.image (· / 256),
        key2 / 256 = id / 256 / 256 ∧ key2 ≠ id / 256 := by
      by_contra hnone
      refine hne (hcleared.mpr fun j hj hsame => ?_)
      by_contra hother
      exact hnone ⟨j, hj, hsame, hother⟩
    have himage1 : ((s.image (· / 256)).erase (id / 256)).image (· / 256) =
        (s.image (· / 256)).image (· / 256) :=
      image_erase_of_shared hkey2 hother hsame
    refine ⟨hlt, h.level2.erase halone, ?_, fun key1 => ?_⟩
    · rw [himage]
      exact h.level1.clear (by omega) hne
    · rw [himage, himage1]
      exact h.level0 key1

/-- **`remove` deletes the id**, and answers whether it was there. -/
theorem remove (hid : id < 2 ^ 24) :
    ((tree.remove id).1 = true ↔ id ∈ s) ∧ Holds (tree.remove id).2 (s.erase id) := by
  have hkey1 : id / 256 / 256 < 256 := by omega
  have habsent : id ∉ s → Holds tree (s.erase id) := by
    intro hnot
    rw [Finset.erase_eq_of_notMem hnot]
    exact h
  unfold TreeUint24.remove
  dsimp only
  rw [key_eq, bit_eq, bit_eq, key1_eq hid, bit_eq, Nat.mod_eq_of_lt hkey1]
  cases hleaves : tree.level2.lookup (id / 256) with
  | none =>
    have hnot : id ∉ s := fun hmem => h.level2.lookup_eq_none_iff.mp hleaves id hmem rfl
    exact ⟨iff_of_false Bool.false_ne_true hnot, habsent hnot⟩
  | some leaves =>
    have hword := word_of_lookup hleaves
    dsimp only
    rw [← hword]
    by_cases hold : word tree.level2 (id / 256) &&& 1#256 <<< (id % 256) = 0#256
    · rw [if_pos hold]
      have hnot := h.leaf_eq_zero_iff.mp hold
      exact ⟨iff_of_false Bool.false_ne_true hnot, habsent hnot⟩
    · rw [if_neg hold]
      have hmem := not_not.mp (mt h.leaf_eq_zero_iff.mpr hold)
      have hcleared := h.level2.cleared_eq_zero_iff (by omega) (i := id)
      by_cases hzero : word tree.level2 (id / 256) &&& ~~~(1#256 <<< (id % 256)) = 0#256
      · rw [if_pos hzero]
        have halone := hcleared.mp hzero
        cases hwords : tree.level1.lookup (id / 256 / 256) with
        | none =>
          exact absurd rfl
            (h.level1.lookup_eq_none_iff.mp hwords _ (Finset.mem_image_of_mem _ hmem))
        | some words =>
          have hlast := h.remove_last hid halone hwords
          dsimp only
          split at hlast
          · rename_i hwords'
            rw [if_pos hwords']
            exact ⟨iff_of_true rfl hmem, hlast⟩
          · rename_i hwords'
            rw [if_neg hwords']
            exact ⟨iff_of_true rfl hmem, hlast⟩
      · rw [if_neg hzero]
        obtain ⟨j, hj, hsame, hother⟩ : ∃ j ∈ s, j / 256 = id / 256 ∧ j ≠ id := by
          by_contra hnone
          refine hzero (hcleared.mpr fun j hj hsame => ?_)
          by_contra hother
          exact hnone ⟨j, hj, hsame, hother⟩
        have himage : (s.erase id).image (· / 256) = s.image (· / 256) :=
          image_erase_of_shared hj hother hsame
        refine ⟨iff_of_true rfl hmem, fun i hi => h.lt i (Finset.mem_of_mem_erase hi),
          h.level2.clear (by omega) hzero, ?_, ?_⟩
        · rw [himage]
          exact h.level1
        · rw [himage]
          exact h.level0

end Holds

/-- Every run of calls with 24-bit ids keeps the tree and the set together. -/
theorem run_holds {calls : List Call} (hcalls : ∀ c ∈ calls, c.id < 2 ^ 24) :
    Holds (run calls) (idSet calls) := by
  have hfold : ∀ {tree : TreeUint24} {s : Finset Nat}, Holds tree s →
      Holds (calls.foldl (fun tree c => (tree.call c).2) tree) (calls.foldl Call.apply s) := by
    induction calls with
    | nil => exact fun h => h
    | cons c calls ih =>
      intro tree s h
      obtain ⟨hc, hrest⟩ := List.forall_mem_cons.mp hcalls
      refine ih hrest ?_
      cases c with
      | add id => exact (h.add hc).2
      | remove id => exact (h.remove hc).2
  exact hfold Holds.default

/-- **The tree represents the set of the ids that were added and not removed since**: its membership
test, its answers and the bits of its upper levels. -/
theorem run_spec {calls : List Call} (hcalls : ∀ c ∈ calls, c.id < 2 ^ 24) :
    (∀ id < 2 ^ 24, (run calls).contains id = true ↔ id ∈ idSet calls) ∧
    (∀ id < 2 ^ 24, ((run calls).add id).1 = true ↔ id ∉ idSet calls) ∧
    (∀ id < 2 ^ 24, ((run calls).remove id).1 = true ↔ id ∈ idSet calls) ∧
    (∀ key2, (((run calls).level1.lookup (key2 / 256)).getD 0#256).getLsbD (key2 % 256) =
      true ↔ ∃ id ∈ idSet calls, id / 256 = key2) ∧
    (∀ key1, (run calls).level0.getLsbD key1 = true ↔
      ∃ id ∈ idSet calls, id / 65536 = key1) := by
  have h := run_holds hcalls
  refine ⟨fun id _ => h.contains_iff, fun id hid => (h.add hid).1, fun id hid => (h.remove hid).1,
    fun key2 => ?_, fun key1 => ?_⟩
  · rw [← word, h.level1.mem, Finset.mem_image]
  · rw [h.level0, Finset.mem_image]
    simp only [Finset.mem_image, exists_exists_and_eq_and, Nat.div_div_eq_div_mul]

/-- Two ids of one leaf: removing one keeps the leaf. -/
theorem run_spec_oneLeaf : (run [.add 700, .add 701, .remove 700]).contains 701 = true ∧
    ((run [.add 700, .add 701, .remove 700]).add 700).1 = true := by
  have hcalls : ∀ c ∈ [Call.add 700, .add 701, .remove 700], c.id < 2 ^ 24 := by decide
  obtain ⟨hcontains, hadd, -⟩ := run_spec hcalls
  exact ⟨(hcontains 701 (by decide)).mpr (by decide), (hadd 700 (by decide)).mpr (by decide)⟩

end TreeUint24

end Moe

end ArbitrageBot
