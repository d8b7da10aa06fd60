import ArbitrageBot.Contracts.LiquidityBook.BitMath

/-!
# The tree of bin ids

`TreeMath` keeps a set of 24-bit ids as three levels of 256-bit words. `findFirstRight` finds the
first id of the set below a given one, `findFirstLeft` the first above it.
-/

namespace ArbitrageBot.LiquidityBook

/-- Three levels of words; a key is the number it encodes. -/
structure TreeUint24 where
  level0 : U256
  level1 : Nat → U256
  level2 : Nat → U256

namespace TreeMath

open BitMath

def UINT24_MAX : Nat := 2 ^ 24 - 1

def contains (tree : TreeUint24) (id : Nat) : Bool :=
  tree.level2 (id >>> 8) &&& (1#256 <<< (id % 256)) != 0#256

/-- The tree after `add`; the answer of `add` is whether a bit was new. -/
def add (tree : TreeUint24) (id : Nat) : TreeUint24 :=
  let key2 := id >>> 8
  let leaves := tree.level2 key2
  let newLeaves := leaves ||| (1#256 <<< (id % 256))
  if leaves ≠ newLeaves then
    let tree2 := { tree with level2 := Function.update tree.level2 key2 newLeaves }
    if leaves = 0 then
      let key1 := key2 >>> 8
      let leaves := tree2.level1 key1
      let tree1 := { tree2 with
        level1 := Function.update tree2.level1 key1 (leaves ||| (1#256 <<< (key2 % 256))) }
      if leaves = 0 then { tree1 with level0 := tree1.level0 ||| (1#256 <<< (key1 % 256)) }
      else tree1
    else tree2
  else tree

/-- Both searches: the closest bit beside the id's in its leaf, else beside the leaf's in its
parent, else beside the parent's in the root; below a bit that was found, the extreme bits. `atEdge`
is a bit that has no bit beside it on the side of the search. -/
def findFirst (atEdge : Nat → Bool) (closest : U256 → Nat → Nat) (extreme : U256 → Nat)
    (absent : Nat) (tree : TreeUint24) (id : Nat) : Nat :=
  let closestBit := fun (leaves : U256) (bit : Nat) =>
    if atEdge bit then UINT256_MAX else closest leaves bit
  let key2 := id >>> 8
  let found := closestBit (tree.level2 key2) (id % 256)
  if found ≠ UINT256_MAX then (key2 <<< 8 ||| found) % 2 ^ 24
  else
    let key1 := key2 >>> 8
    let found := closestBit (tree.level1 key1) (key2 % 256)
    if found ≠ UINT256_MAX then
      let key2 := key1 <<< 8 ||| found
      (key2 <<< 8 ||| extreme (tree.level2 key2)) % 2 ^ 24
    else
      let found := closestBit tree.level0 (key1 % 256)
      if found ≠ UINT256_MAX then
        let key1 := found
        let key2 := key1 <<< 8 ||| extreme (tree.level1 key1)
        (key2 <<< 8 ||| extreme (tree.level2 key2)) % 2 ^ 24
      else absent

def findFirstRight (tree : TreeUint24) (id : Nat) : Nat :=
  findFirst (fun bit => bit == 0) (fun leaves bit => closestBitRight leaves (bit - 1))
    mostSignificantBit UINT24_MAX tree id

def findFirstLeft (tree : TreeUint24) (id : Nat) : Nat :=
  findFirst (fun bit => bit == 255) (fun leaves bit => closestBitLeft leaves (bit + 1))
    leastSignificantBit 0 tree id

end TreeMath

/-- A word of an upper level has a bit for each word below it that is not zero. -/
structure TreeUint24.WellFormed (tree : TreeUint24) : Prop where
  level1 : ∀ key2 < 2 ^ 16,
    (tree.level1 (key2 / 256)).getLsbD (key2 % 256) = true ↔ tree.level2 key2 ≠ 0
  level0 : ∀ key1 < 2 ^ 8, tree.level0.getLsbD key1 = true ↔ tree.level1 key1 ≠ 0

/-! ## What the searches find -/

/-- `j` lies beyond `i`, to the right (down) or to the left (up). -/
def Beyond (right : Bool) (i j : Nat) : Prop := if right then j < i else i < j

@[simp] theorem beyond_right {i j : Nat} : Beyond true i j ↔ j < i := Iff.rfl

@[simp] theorem beyond_left {i j : Nat} : Beyond false i j ↔ i < j := Iff.rfl

/-- `r` is the first member of `s` beyond `i`. -/
structure FirstBeyond (right : Bool) (s : Nat → Prop) (i r : Nat) : Prop where
  mem : s r
  beyond : Beyond right i r
  first : ∀ j, s j → Beyond right i j → j = r ∨ Beyond right r j

theorem Beyond.trans {right : Bool} {i j k : Nat} (h : Beyond right i j) (h' : Beyond right j k) :
    Beyond right i k := by
  unfold Beyond at *
  split at h
  · rename_i hr
    rw [if_pos hr] at h' ⊢
    omega
  · rename_i hr
    rw [if_neg hr] at h' ⊢
    omega

theorem Beyond.asymm {right : Bool} {i j : Nat} (h : Beyond right i j) : ¬ Beyond right j i := by
  unfold Beyond at *
  cases right with
  | true =>
    simp only [↓reduceIte] at *
    omega
  | false =>
    simp only [Bool.false_eq_true, ↓reduceIte] at *
    omega

/-- What lies between two small ids is small. -/
theorem Beyond.lt_of_lt {right : Bool} {i j k n : Nat} (h : Beyond right i j)
    (h' : Beyond right j k) (hi : i < n) (hk : k < n) : j < n := by
  unfold Beyond at *
  cases right with
  | true =>
    simp only [↓reduceIte] at *
    omega
  | false =>
    simp only [Bool.false_eq_true, ↓reduceIte] at *
    omega

/-- The order of ids is that of their keys, and of their bits where the keys agree. -/
theorem beyond_iff_digits {right : Bool} {i j : Nat} : Beyond right i j ↔
    Beyond right (i / 256) (j / 256) ∨ i / 256 = j / 256 ∧ Beyond right (i % 256) (j % 256) := by
  unfold Beyond
  cases right with
  | true =>
    simp only [↓reduceIte]
    omega
  | false =>
    simp only [Bool.false_eq_true, ↓reduceIte]
    omega

namespace TreeMath

open BitMath

theorem contains_iff {tree : TreeUint24} {id : Nat} :
    contains tree id = true ↔ (tree.level2 (id / 256)).getLsbD (id % 256) = true := by
  have hlt : id % 256 < 256 := Nat.mod_lt _ (by omega)
  unfold contains
  rw [Nat.shiftRight_eq_div_pow, show 2 ^ 8 = 256 from rfl]
  generalize tree.level2 (id / 256) = leaves
  rw [bne_iff_ne]
  constructor
  · intro h
    obtain ⟨i, hi⟩ := exists_bit_of_ne_zero h
    rw [BitVec.getLsbD_and, Bool.and_eq_true, BitVec.getLsbD_shiftLeft] at hi
    have : i = id % 256 := by
      have := hi.2
      simp at this
      omega
    rw [← this]
    exact hi.1
  · intro h hzero
    have hbit : (leaves &&& 1#256 <<< (id % 256)).getLsbD (id % 256) = true := by
      rw [BitVec.getLsbD_and, h, BitVec.getLsbD_shiftLeft]
      simp [hlt]
    rw [hzero, BitVec.getLsbD_zero] at hbit
    cases hbit

theorem shl_or {k c : Nat} (hc : c < 256) : k <<< 8 ||| c = k * 256 + c := by
  rw [← Nat.shiftLeft_add_eq_or_of_lt (by omega : c < 2 ^ 8), Nat.shiftLeft_eq]

/-- What `findFirst` needs of the two searches in a word. -/
structure Searches (right : Bool) (atEdge : Nat → Bool) (closest : U256 → Nat → Nat)
    (extreme : U256 → Nat) : Prop where
  closest : ∀ x bit, bit < 256 →
    ((if atEdge bit then UINT256_MAX else closest x bit) = UINT256_MAX ∧
      ∀ i, x.getLsbD i = true → ¬ Beyond right bit i) ∨
    ((if atEdge bit then UINT256_MAX else closest x bit) < 256 ∧
      FirstBeyond right (fun i => x.getLsbD i = true) bit
        (if atEdge bit then UINT256_MAX else closest x bit))
  extreme : ∀ x ≠ 0, x.getLsbD (extreme x) = true ∧
    ∀ i, x.getLsbD i = true → i = extreme x ∨ Beyond right (extreme x) i

/-- One level of the tree, for the `n` keys above it: `s` are the ids it lists, by their bits in the
words, and `t` the keys of the words that list any. -/
structure Level (n : Nat) (s t : Nat → Prop) (words : Nat → U256) : Prop where
  mem : ∀ j, s j ↔ j / 256 < n ∧ (words (j / 256)).getLsbD (j % 256) = true
  key : ∀ k, t k ↔ k < n ∧ words k ≠ 0

section

variable {right : Bool} {atEdge : Nat → Bool} {closest : U256 → Nat → Nat} {extreme : U256 → Nat}
  {n : Nat} {s t : Nat → Prop} {words : Nat → U256} {i j key bit : Nat}

theorem Level.key_of_mem (h : Level n s t words) (hj : s j) : t (j / 256) := by
  obtain ⟨hlt, hbit⟩ := (h.mem j).mp hj
  refine (h.key _).mpr ⟨hlt, fun hzero => ?_⟩
  rw [hzero] at hbit
  simp at hbit

theorem Level.mem_of_bit (h : Level n s t words) (hkey : key < n) (hbit : bit < 256)
    (hset : (words key).getLsbD bit = true) : s (key * 256 + bit) := by
  refine (h.mem _).mpr ?_
  rw [show (key * 256 + bit) / 256 = key by omega, show (key * 256 + bit) % 256 = bit by omega]
  exact ⟨hkey, hset⟩

/-- The first bit beside that of `i` in the word of `i`. -/
theorem Level.beside (h : Level n s t words) (hi : i / 256 < n) (hbit : bit < 256)
    (hfirst : FirstBeyond right (fun b => (words (i / 256)).getLsbD b = true) (i % 256) bit) :
    FirstBeyond right s i (i / 256 * 256 + bit) := by
  have hdiv : (i / 256 * 256 + bit) / 256 = i / 256 := by omega
  have hmod : (i / 256 * 256 + bit) % 256 = bit := by omega
  refine ⟨h.mem_of_bit hi hbit hfirst.mem, ?_, fun j hj hij => ?_⟩
  · rw [beyond_iff_digits, hdiv, hmod]
    exact Or.inr ⟨rfl, hfirst.beyond⟩
  · rw [beyond_iff_digits (i := i / 256 * 256 + bit), hdiv, hmod]
    rcases beyond_iff_digits.mp hij with hbeyond | ⟨heq, hbits⟩
    · exact Or.inr (Or.inl hbeyond)
    · have hset := ((h.mem j).mp hj).2
      rw [← heq] at hset
      rcases hfirst.first _ hset hbits with hb | hb
      · exact Or.inl (by omega)
      · exact Or.inr (Or.inr ⟨heq, hb⟩)

/-- The extreme bit of the first word beyond that of `i`, when nothing lies beside `i` in its own
word. -/
theorem Level.descend (h : Level n s t words) (hs : Searches right atEdge closest extreme)
    (hkey : FirstBeyond right t (i / 256) key)
    (hnone : ∀ j, s j → j / 256 = i / 256 → ¬ Beyond right i j) :
    extreme (words key) < 256 ∧ FirstBeyond right s i (key * 256 + extreme (words key)) := by
  obtain ⟨hlt, hne⟩ := (h.key key).mp hkey.mem
  obtain ⟨hset, hext⟩ := hs.extreme _ hne
  have hbit := lt_of_getLsbD hset
  generalize extreme (words key) = bit at *
  have hdiv : (key * 256 + bit) / 256 = key := by omega
  have hmod : (key * 256 + bit) % 256 = bit := by omega
  refine ⟨hbit, h.mem_of_bit hlt hbit hset, ?_, fun j hj hij => ?_⟩
  · rw [beyond_iff_digits, hdiv]
    exact Or.inl hkey.beyond
  · rw [beyond_iff_digits (i := key * 256 + bit), hdiv, hmod]
    rcases beyond_iff_digits.mp hij with hbeyond | ⟨heq, -⟩
    · rcases hkey.first _ (h.key_of_mem hj) hbeyond with hsame | hfurther
      · have hj := ((h.mem j).mp hj).2
        rw [hsame] at hj
        rcases hext _ hj with hb | hb
        · exact Or.inl (by omega)
        · exact Or.inr (Or.inr ⟨hsame.symm, hb⟩)
      · exact Or.inr (Or.inl hfurther)
    · exact absurd hij (hnone j hj heq.symm)

/-- Nothing lies beyond `i` when nothing lies beside it in its word and no word beyond. -/
theorem Level.none_beyond (h : Level n s t words) (hkey : ∀ k, t k → ¬ Beyond right (i / 256) k)
    (hnone : ∀ j, s j → j / 256 = i / 256 → ¬ Beyond right i j) (j : Nat) (hj : s j) :
    ¬ Beyond right i j := by
  intro hij
  rcases beyond_iff_digits.mp hij with hbeyond | ⟨heq, -⟩
  · exact hkey _ (h.key_of_mem hj) hbeyond
  · exact hnone j hj heq.symm hij

/-- No bit beside that of `i` in its word. -/
theorem Level.none_beside (h : Level n s t words)
    (hnone : ∀ b, (words (i / 256)).getLsbD b = true → ¬ Beyond right (i % 256) b) (j : Nat)
    (hj : s j) (heq : j / 256 = i / 256) : ¬ Beyond right i j := by
  intro hij
  rcases beyond_iff_digits.mp hij with hbeyond | ⟨-, hbits⟩
  · rw [heq] at hbeyond
    exact hbeyond.asymm hbeyond
  · have hset := ((h.mem j).mp hj).2
    rw [heq] at hset
    exact hnone _ hset hbits

end

section

variable {right : Bool} {atEdge : Nat → Bool} {closest : U256 → Nat → Nat} {extreme : U256 → Nat}
  {tree : TreeUint24} {id : Nat}

theorem level_leaves (tree : TreeUint24) :
    Level (2 ^ 16) (fun j => j < 2 ^ 24 ∧ contains tree j = true)
      (fun k => k < 2 ^ 16 ∧ tree.level2 k ≠ 0) tree.level2 where
  mem j := by
    rw [contains_iff, show j < 2 ^ 24 ↔ j / 256 < 2 ^ 16 by omega]
  key k := Iff.rfl

theorem level_parents (hwf : tree.WellFormed) :
    Level (2 ^ 8) (fun k => k < 2 ^ 16 ∧ tree.level2 k ≠ 0)
      (fun k => k < 2 ^ 8 ∧ tree.level1 k ≠ 0) tree.level1 where
  mem k := by
    rw [show k < 2 ^ 16 ↔ k / 256 < 2 ^ 8 by omega]
    refine and_congr_right fun hk => ?_
    exact (hwf.level1 k (by omega)).symm
  key k := Iff.rfl

/-- **A search finds the first id of the tree beyond the given one**, or answers `absent` when there
is none. -/
theorem findFirst_spec (hs : Searches right atEdge closest extreme) (hwf : tree.WellFormed)
    (hid : id < 2 ^ 24) (absent : Nat) :
    (findFirst atEdge closest extreme absent tree id = absent ∧
      ∀ j, j < 2 ^ 24 ∧ contains tree j = true → ¬ Beyond right id j) ∨
    FirstBeyond right (fun j => j < 2 ^ 24 ∧ contains tree j = true) id
      (findFirst atEdge closest extreme absent tree id) := by
  have leaves := level_leaves tree
  have parents := level_parents hwf
  have hbit0 : ∀ k, k < 2 ^ 8 ∧ tree.level1 k ≠ 0 → tree.level0.getLsbD k = true :=
    fun k hk => (hwf.level0 k hk.1).mpr hk.2
  have hshr : ∀ n : Nat, n >>> 8 = n / 256 := fun n => Nat.shiftRight_eq_div_pow n 8
  have hmax : ¬ UINT256_MAX < 256 := by decide
  have hroot : id / 256 / 256 % 256 = id / 256 / 256 := Nat.mod_eq_of_lt (by omega)
  unfold findFirst
  simp only [hshr, hroot]
  -- The leaf of the id.
  rcases hs.closest (tree.level2 (id / 256)) (id % 256) (Nat.mod_lt _ (by omega)) with
    ⟨hnone, hbeside⟩ | ⟨hlt, hfirst⟩
  · have hside2 := leaves.none_beside hbeside
    rw [if_neg (not_not.mpr hnone)]
    -- Its parent.
    rcases hs.closest (tree.level1 (id / 256 / 256)) (id / 256 % 256) (Nat.mod_lt _ (by omega))
      with ⟨hnone, hbeside⟩ | ⟨hlt, hfirst⟩
    · have hside1 := parents.none_beside hbeside
      rw [if_neg (not_not.mpr hnone)]
      -- The root.
      rcases hs.closest tree.level0 (id / 256 / 256) (by omega) with
        ⟨hnone, hbeside⟩ | ⟨hlt, hfirst⟩
      · rw [if_neg (not_not.mpr hnone)]
        have hnone0 : ∀ k, k < 2 ^ 8 ∧ tree.level1 k ≠ 0 → ¬ Beyond right (id / 256 / 256) k :=
          fun k hk => hbeside k (hbit0 k hk)
        have hnone1 := parents.none_beyond hnone0 hside1
        exact Or.inl ⟨rfl, leaves.none_beyond hnone1 hside2⟩
      · generalize (if atEdge (id / 256 / 256) then UINT256_MAX
          else closest tree.level0 (id / 256 / 256)) = key1 at hlt hfirst ⊢
        right
        have hkey1 : FirstBeyond right (fun k => k < 2 ^ 8 ∧ tree.level1 k ≠ 0)
            (id / 256 / 256) key1 :=
          ⟨⟨hlt, (hwf.level0 key1 hlt).mp hfirst.mem⟩, hfirst.beyond,
            fun k hk => hfirst.first k (hbit0 k hk)⟩
        obtain ⟨hlt1, hkey2⟩ := parents.descend hs hkey1 hside1
        obtain ⟨hlt2, hfound⟩ := leaves.descend hs hkey2 hside2
        rw [if_pos (by omega), shl_or hlt1, shl_or hlt2, Nat.mod_eq_of_lt (by omega)]
        exact hfound
    · generalize (if atEdge (id / 256 % 256) then UINT256_MAX
        else closest (tree.level1 (id / 256 / 256)) (id / 256 % 256)) = found at hlt hfirst ⊢
      right
      have hkey2 := parents.beside (by omega) hlt hfirst
      obtain ⟨hlt2, hfound⟩ := leaves.descend hs hkey2 hside2
      rw [if_pos (by omega), shl_or hlt, shl_or hlt2, Nat.mod_eq_of_lt (by omega)]
      exact hfound
  · generalize (if atEdge (id % 256) then UINT256_MAX
      else closest (tree.level2 (id / 256)) (id % 256)) = found at hlt hfirst ⊢
    right
    rw [if_pos (by omega), shl_or hlt, Nat.mod_eq_of_lt (by omega)]
    exact leaves.beside (by omega) hlt hfirst

theorem searches_right : Searches true (fun bit => bit == 0)
    (fun leaves bit => closestBitRight leaves (bit - 1)) mostSignificantBit := by
  constructor
  · intro x bit hbit
    by_cases h0 : bit = 0
    · left
      rw [if_pos (by simpa using h0)]
      refine ⟨rfl, fun i _ hlt => ?_⟩
      simp only [beyond_right] at hlt
      omega
    · rw [if_neg (by simpa using h0)]
      rcases @closestBitRight_spec x (bit - 1) (by omega) with
        ⟨hmax, hnone⟩ | ⟨hle, hset, hlast⟩
      · refine Or.inl ⟨hmax, fun i hi hlt => ?_⟩
        simp only [beyond_right] at hlt
        rw [hnone i (by omega)] at hi
        cases hi
      · refine Or.inr ⟨by omega, hset, ?_, fun i hi hlt => ?_⟩
        · simp only [beyond_right]
          omega
        · simp only [beyond_right] at hlt ⊢
          have := hlast i (by omega) hi
          omega
  · intro x hx
    obtain ⟨hset, hlast⟩ := mostSignificantBit_spec hx
    refine ⟨hset, fun i hi => ?_⟩
    simp only [beyond_right]
    have := hlast i hi
    omega

theorem searches_left : Searches false (fun bit => bit == 255)
    (fun leaves bit => closestBitLeft leaves (bit + 1)) leastSignificantBit := by
  constructor
  · intro x bit hbit
    by_cases h255 : bit = 255
    · left
      rw [if_pos (by simpa using h255)]
      refine ⟨rfl, fun i hi hlt => ?_⟩
      simp only [beyond_left] at hlt
      have := lt_of_getLsbD hi
      omega
    · rw [if_neg (by simpa using h255)]
      rcases @closestBitLeft_spec x (bit + 1) with
        ⟨hmax, hnone⟩ | ⟨hle, hset, hfirst⟩
      · refine Or.inl ⟨hmax, fun i hi hlt => ?_⟩
        simp only [beyond_left] at hlt
        rw [hnone i (by omega)] at hi
        cases hi
      · refine Or.inr ⟨lt_of_getLsbD hset, hset, ?_, fun i hi hlt => ?_⟩
        · simp only [beyond_left]
          omega
        · simp only [beyond_left] at hlt ⊢
          have := hfirst i (by omega) hi
          omega
  · intro x hx
    obtain ⟨hset, hfirst⟩ := leastSignificantBit_spec hx
    refine ⟨hset, fun i hi => ?_⟩
    simp only [beyond_left]
    have := hfirst i hi
    omega

end

/-! ## Building a tree -/

variable {tree : TreeUint24} {id : Nat}

theorem wellFormed_empty : ({ level0 := 0, level1 := fun _ => 0, level2 := fun _ => 0 } :
    TreeUint24).WellFormed := by
  constructor
  · intro key2 _
    simp
  · intro key1 _
    simp

theorem getLsbD_or_bit {leaves : U256} {b j : Nat} (hb : b < 256) :
    (leaves ||| (1#256 <<< b)).getLsbD j = true ↔ leaves.getLsbD j = true ∨ j = b := by
  rw [BitVec.getLsbD_or, Bool.or_eq_true, BitVec.getLsbD_shiftLeft]
  apply or_congr_right
  simp
  omega

theorem or_bit_ne_zero {leaves : U256} {b : Nat} (hb : b < 256) :
    leaves ||| (1#256 <<< b) ≠ 0 := by
  intro h
  have hbit : (leaves ||| (1#256 <<< b)).getLsbD b = true := (getLsbD_or_bit hb).mpr (Or.inr rfl)
  rw [h] at hbit
  simp at hbit

/-- The levels after `add`: the words on the way to the id have its bits. -/
theorem add_levels (hwf : tree.WellFormed) (hid : id < 2 ^ 24) :
    (add tree id).level2 = Function.update tree.level2 (id / 256)
      (tree.level2 (id / 256) ||| (1#256 <<< (id % 256))) ∧
    (add tree id).level1 = Function.update tree.level1 (id / 256 / 256)
      (tree.level1 (id / 256 / 256) ||| (1#256 <<< (id / 256 % 256))) ∧
    (add tree id).level0 = tree.level0 ||| (1#256 <<< (id / 256 / 256)) := by
  have hshr : ∀ n : Nat, n >>> 8 = n / 256 := fun n => Nat.shiftRight_eq_div_pow n 8
  have hset : ∀ {leaves : U256} {b : Nat}, b < 256 → leaves.getLsbD b = true →
      leaves ||| (1#256 <<< b) = leaves := by
    intro leaves b hb hbit
    apply BitVec.eq_of_getLsbD_eq
    intro j _
    apply Bool.eq_iff_iff.mpr
    rw [getLsbD_or_bit hb]
    constructor
    · rintro (h | rfl)
      · exact h
      · exact hbit
    · exact Or.inl
  have hset1 : tree.level2 (id / 256) ≠ 0 →
      (tree.level1 (id / 256 / 256)).getLsbD (id / 256 % 256) = true :=
    (hwf.level1 _ (by omega)).mpr
  have hset0 : tree.level1 (id / 256 / 256) ≠ 0 → tree.level0.getLsbD (id / 256 / 256) = true :=
    (hwf.level0 _ (by omega)).mpr
  have hne0 : ∀ {leaves : U256} {b : Nat}, leaves.getLsbD b = true → leaves ≠ 0 := by
    intro leaves b hb h
    rw [h] at hb
    simp at hb
  unfold add
  simp only [hshr]
  by_cases hnew : tree.level2 (id / 256) ≠ tree.level2 (id / 256) ||| (1#256 <<< (id % 256))
  · rw [if_pos hnew]
    by_cases hleaf : tree.level2 (id / 256) = 0
    · rw [if_pos hleaf]
      by_cases hparent : tree.level1 (id / 256 / 256) = 0
      · rw [if_pos hparent, Nat.mod_eq_of_lt (by omega : id / 256 / 256 < 256)]
        exact ⟨rfl, rfl, rfl⟩
      · rw [if_neg hparent, hset (by omega) (hset0 hparent)]
        exact ⟨rfl, rfl, rfl⟩
    · rw [if_neg hleaf, hset (Nat.mod_lt _ (by omega)) (hset1 hleaf),
        hset (by omega) (hset0 (hne0 (hset1 hleaf))), Function.update_eq_self]
      exact ⟨rfl, rfl, rfl⟩
  · have hold : tree.level2 (id / 256) ≠ 0 := by
      rw [not_not.mp hnew]
      exact or_bit_ne_zero (Nat.mod_lt _ (by omega))
    rw [if_neg hnew, ← not_not.mp hnew, hset (Nat.mod_lt _ (by omega)) (hset1 hold),
      hset (by omega) (hset0 (hne0 (hset1 hold))), Function.update_eq_self, Function.update_eq_self]
    exact ⟨rfl, rfl, rfl⟩

theorem contains_add (hwf : tree.WellFormed) (hid : id < 2 ^ 24) {j : Nat} :
    contains (add tree id) j = true ↔ contains tree j = true ∨ j = id := by
  rw [contains_iff, contains_iff, (add_levels hwf hid).1, Function.update_apply]
  by_cases hword : j / 256 = id / 256
  · rw [if_pos hword, getLsbD_or_bit (Nat.mod_lt _ (by omega)), hword]
    apply or_congr_right
    omega
  · rw [if_neg hword]
    have : j ≠ id := fun h => hword (by rw [h])
    simp [this]

theorem wellFormed_add (hwf : tree.WellFormed) (hid : id < 2 ^ 24) : (add tree id).WellFormed := by
  obtain ⟨h2, h1, h0⟩ := add_levels hwf hid
  constructor
  · intro key2 hkey2
    rw [h2, h1, Function.update_apply, Function.update_apply]
    by_cases hword : key2 / 256 = id / 256 / 256
    · rw [if_pos hword, getLsbD_or_bit (Nat.mod_lt _ (by omega)), ← hword, hwf.level1 _ hkey2]
      by_cases hleaf : key2 = id / 256
      · rw [if_pos hleaf, hleaf]
        exact ⟨fun _ => or_bit_ne_zero (Nat.mod_lt _ (by omega)), fun _ => Or.inr rfl⟩
      · rw [if_neg hleaf]
        have : key2 % 256 ≠ id / 256 % 256 := by omega
        simp [this]
    · have : key2 ≠ id / 256 := fun h => hword (by rw [h])
      rw [if_neg hword, if_neg this, hwf.level1 _ hkey2]
  · intro key1 hkey1
    rw [h1, h0, Function.update_apply, getLsbD_or_bit (by omega), hwf.level0 _ hkey1]
    by_cases hkey : key1 = id / 256 / 256
    · rw [if_pos hkey]
      exact ⟨fun _ => or_bit_ne_zero (Nat.mod_lt _ (by omega)), fun _ => Or.inr hkey⟩
    · rw [if_neg hkey]
      simp [hkey]

end TreeMath

end ArbitrageBot.LiquidityBook
