import ArbitrageBot.Amms.Moe.TreeMath
import ArbitrageBot.Amms.Moe.Uint256x256
import ArbitrageBot.Contracts.LiquidityBook.TreeMath

/-!
# Neighbours in the tree of the port

The searches of the contract start beside a bit, those of the port at it. A level whose word has the
bit of the id itself, or of its block, and none beside it therefore answers with what the search
should leave behind (`findFirst_exact_iff`).
-/

namespace ArbitrageBot.Moe

open Lib
open LiquidityBook (Beyond FirstBeyond beyond_iff_digits beyond_left beyond_right)

/-! ## The searches -/

namespace BitMath

def U32_MAX : Nat := 2 ^ 32 - 1

/-- `trailing_zeros`. -/
def trailingZeros (x : U256) : Nat := ((List.range 256).find? x.getLsbD).getD 256

def leastSignificantBit (x : U256) : MathOutcome Nat :=
  if x = 0 then .error (.err .zeroValue) else .ok (trailingZeros x % 2 ^ 8)

/-- The highest bit of a word that was shifted is not below the shift. -/
def closestBitRight (x : U256) (bit : Nat) : MathOutcome Nat := do
  let shift := 255 - bit
  let shifted := x <<< shift
  if shifted = 0 then return U32_MAX
  else
    let msb ← mostSignificantBit shifted
    return msb - shift

def closestBitLeft (x : U256) (bit : Nat) : MathOutcome Nat := do
  let shifted := x >>> bit
  if shifted = 0 then return U32_MAX
  else
    let lsb ← leastSignificantBit shifted
    return lsb + bit

end BitMath

namespace TreeUint24

open BitMath

/-- `if let Ok(next_bit) = .. { if next_bit != u32::MAX`. -/
def found : MathOutcome Nat → Option Nat
  | .ok next => if next ≠ U32_MAX then some next else none
  | .error _ => none

/-- The closest bit in a word that is there, unless the bit is the last on the side of the search.
-/
def nextBit (atEdge : Nat → Bool) (closest : U256 → Nat → MathOutcome Nat) (word : Option U256)
    (bit : Nat) : Option Nat :=
  if atEdge bit then none else word.bind fun leaves => found (closest leaves bit)

/-- The first bit of a word that is there. -/
def extremeBit (extreme : U256 → MathOutcome Nat) (word : Option U256) : Option Nat :=
  word.bind fun leaves => (extreme leaves).toOption

/-- Both searches: in the leaf of the id, among the leaves of its parent, among the parents. A step
that finds nothing falls through to the next. -/
def findFirst (atEdge : Nat → Bool) (closest : U256 → Nat → MathOutcome Nat)
    (extreme : U256 → MathOutcome Nat) (self : TreeUint24) (id : Nat) : Option Nat :=
  let key2 := id >>> 8
  let key1 := key2 >>> 8
  (do
    let next ← nextBit atEdge closest (self.level2.lookup key2) (id &&& 0xff)
    return key2 <<< 8 ||| next) <|>
  (do
    -- `key1 as u16`
    let next ← nextBit atEdge closest (self.level1.lookup (key1 % 2 ^ 16)) (key2 &&& 0xff)
    let key2 := key1 <<< 8 ||| next
    let last ← extremeBit extreme (self.level2.lookup key2)
    return key2 <<< 8 ||| last) <|>
  (do
    let key1 ← nextBit atEdge closest (some self.level0) (key1 &&& 0xff)
    let last1 ← extremeBit extreme (self.level1.lookup (key1 % 2 ^ 16))
    let key2 := key1 <<< 8 ||| last1
    let last2 ← extremeBit extreme (self.level2.lookup key2)
    return key2 <<< 8 ||| last2)

def findFirstRight (self : TreeUint24) (id : Nat) : Option Nat :=
  findFirst (fun bit => bit == 0) closestBitRight mostSignificantBit self id

def findFirstLeft (self : TreeUint24) (id : Nat) : Option Nat :=
  findFirst (fun bit => bit == 255) closestBitLeft leastSignificantBit self id

end TreeUint24

/-! ## Bits of a word -/

namespace BitMath

variable {x : U256} {bit i : Nat}

theorem mostSignificantBit_spec (hx : x ≠ 0) : ∃ r, mostSignificantBit x = .ok r ∧
    x.getLsbD r = true ∧ ∀ i, x.getLsbD i = true → i ≤ r := by
  have hne : x.toNat ≠ 0 := fun h => hx (BitVec.eq_of_toNat_eq h)
  refine ⟨x.toNat.log2, (Uint256x256Math.mostSignificantBit_eq hx).1, ?_⟩
  apply BinarySearch.isLast_of_pow_le
  · exact Nat.log2_self_le hne
  · rw [← Nat.le_log2 hne]
    omega

theorem leastSignificantBit_spec (hx : x ≠ 0) : ∃ r, leastSignificantBit x = .ok r ∧
    x.getLsbD r = true ∧ ∀ i, x.getLsbD i = true → r ≤ i := by
  obtain ⟨j, hj⟩ := LiquidityBook.BitMath.exists_bit_of_ne_zero hx
  have hlt := LiquidityBook.BitMath.lt_of_getLsbD hj
  cases hfind : (List.range 256).find? x.getLsbD with
  | none =>
    rw [List.find?_eq_none] at hfind
    exact absurd hj (hfind j (List.mem_range.mpr hlt))
  | some r =>
    obtain ⟨hr, hmem, hfirst⟩ := List.find?_range_eq_some.mp hfind
    have hr256 := List.mem_range.mp hmem
    refine ⟨r, ?_, hr, fun i hi => ?_⟩
    · unfold leastSignificantBit trailingZeros
      rw [if_neg hx, hfind, Option.getD_some, Nat.mod_eq_of_lt (by omega)]
    · by_contra hlow
      have hnot := hfirst i (by omega)
      simp [hi] at hnot

/-- The last bit up to `bit`, if there is one. -/
theorem closestBitRight_spec (hbit : bit < 256) :
    (closestBitRight x bit = .ok U32_MAX ∧ ∀ i ≤ bit, x.getLsbD i = false) ∨
    ∃ r ≤ bit, closestBitRight x bit = .ok r ∧ x.getLsbD r = true ∧
      ∀ i ≤ bit, x.getLsbD i = true → i ≤ r := by
  have hshift : ∀ i ≤ bit, (x <<< (255 - bit)).getLsbD (i + (255 - bit)) = x.getLsbD i := by
    intro i hi
    rw [BitVec.getLsbD_shiftLeft, Nat.add_sub_cancel]
    have h1 : i + (255 - bit) < 256 := by omega
    have h2 : ¬ i + (255 - bit) < 255 - bit := by omega
    simp [h1, h2]
  unfold closestBitRight
  dsimp only
  by_cases h : x <<< (255 - bit) = 0
  · rw [if_pos h]
    refine Or.inl ⟨rfl, fun i hi => ?_⟩
    rw [← hshift i hi, h]
    exact BitVec.getLsbD_zero
  · rw [if_neg h]
    obtain ⟨msb, hmsb, hset, hlast⟩ := mostSignificantBit_spec h
    have hlt := LiquidityBook.BitMath.lt_of_getLsbD hset
    have hge : 255 - bit ≤ msb := by
      by_contra hlow
      rw [BitVec.getLsbD_shiftLeft] at hset
      simp at hset
      omega
    refine Or.inr ⟨msb - (255 - bit), by omega, ?_, ?_, fun i hi hb => ?_⟩
    · rw [hmsb]
      rfl
    · rw [← hshift _ (by omega), Nat.sub_add_cancel hge]
      exact hset
    · have := hlast (i + (255 - bit)) (by rw [hshift i hi]; exact hb)
      omega

/-- The first bit from `bit` on, if there is one. -/
theorem closestBitLeft_spec :
    (closestBitLeft x bit = .ok U32_MAX ∧ ∀ i ≥ bit, x.getLsbD i = false) ∨
    ∃ r ≥ bit, closestBitLeft x bit = .ok r ∧ x.getLsbD r = true ∧
      ∀ i ≥ bit, x.getLsbD i = true → r ≤ i := by
  have hshift : ∀ i ≥ bit, (x >>> bit).getLsbD (i - bit) = x.getLsbD i := by
    intro i hi
    rw [BitVec.getLsbD_ushiftRight, Nat.add_sub_cancel' hi]
  unfold closestBitLeft
  dsimp only
  by_cases h : x >>> bit = 0
  · rw [if_pos h]
    refine Or.inl ⟨rfl, fun i hi => ?_⟩
    rw [← hshift i hi, h]
    exact BitVec.getLsbD_zero
  · rw [if_neg h]
    obtain ⟨lsb, hlsb, hset, hfirst⟩ := leastSignificantBit_spec h
    refine Or.inr ⟨lsb + bit, by omega, ?_, ?_, fun i hi hb => ?_⟩
    · rw [hlsb]
      rfl
    · rw [← hshift _ (by omega), Nat.add_sub_cancel]
      exact hset
    · have := hfirst (i - bit) (by rw [hshift i hi]; exact hb)
      omega

end BitMath

/-! ## One level -/

namespace TreeUint24

open BitMath SparseBits

/-- `r` is the first member of `s` beyond `i`, or there is none. -/
def IsFirst (right : Bool) (s : Finset Nat) (i : Nat) : Option Nat → Prop
  | some r => FirstBeyond right (· ∈ s) i r
  | none => ∀ j ∈ s, ¬ Beyond right i j

/-- What the searches of the port find in a word: unlike those of the contract, the bit itself. -/
structure Searches (right : Bool) (atEdge : Nat → Bool) (closest : U256 → Nat → MathOutcome Nat)
    (extreme : U256 → MathOutcome Nat) : Prop where
  edge : ∀ bit i, atEdge bit = true → i < 256 → ¬ Beyond right bit i
  closest : ∀ x bit, bit < 256 →
    (found (closest x bit) = none ∧
      ∀ i, x.getLsbD i = true → i ≠ bit ∧ ¬ Beyond right bit i) ∨
    ∃ r < 256, found (closest x bit) = some r ∧ x.getLsbD r = true ∧
      (r = bit ∨ Beyond right bit r) ∧
      ∀ i, x.getLsbD i = true → i = bit ∨ Beyond right bit i → i = r ∨ Beyond right r i
  extreme : ∀ x ≠ 0, ∃ r, extreme x = .ok r ∧ x.getLsbD r = true ∧
    ∀ i, x.getLsbD i = true → i = r ∨ Beyond right r i

section Level

variable {right : Bool} {atEdge : Nat → Bool} {closest : U256 → Nat → MathOutcome Nat}
  {extreme : U256 → MathOutcome Nat} {words : HashMap Nat U256} {s : Finset Nat} {i : Nat}

theorem beyond_same_word {j : Nat} (h : j / 256 = i / 256) :
    Beyond right i j ↔ Beyond right (i % 256) (j % 256) := by
  rw [beyond_iff_digits, h, or_iff_right fun h => h.asymm h, and_iff_right rfl]

/-- The bit that is found in a word, as a member of the set whose bits the words are. -/
theorem nextBit_spec (hs : Searches right atEdge closest extreme) {x : U256} {bit : Nat}
    (hbit : bit < 256) :
    (nextBit atEdge closest (some x) bit = none ∧
      ∀ i, x.getLsbD i = true → ¬ Beyond right bit i ∧ (atEdge bit = false → i ≠ bit)) ∨
    ∃ r < 256, nextBit atEdge closest (some x) bit = some r ∧ atEdge bit = false ∧
      x.getLsbD r = true ∧ (r = bit ∨ Beyond right bit r) ∧
      ∀ i, x.getLsbD i = true → i = bit ∨ Beyond right bit i → i = r ∨ Beyond right r i := by
  unfold nextBit
  cases hedge : atEdge bit with
  | true =>
    left
    rw [if_pos rfl]
    refine ⟨rfl, fun i hi => ⟨?_, fun h => by cases h⟩⟩
    exact hs.edge bit i hedge (LiquidityBook.BitMath.lt_of_getLsbD hi)
  | false =>
    rw [if_neg Bool.false_ne_true, Option.bind_some]
    rcases hs.closest x bit hbit with ⟨hnone, hall⟩ | ⟨r, hr, hsome, hset, hbeyond, hfirst⟩
    · exact Or.inl ⟨hnone, fun i hi => ⟨(hall i hi).2, fun _ => (hall i hi).1⟩⟩
    · exact Or.inr ⟨r, hr, hsome, rfl, hset, hbeyond, hfirst⟩

/-- A word without an entry is searched like a zero word. -/
theorem nextBit_lookup (hs : Searches right atEdge closest extreme) {key bit : Nat}
    (hbit : bit < 256) : nextBit atEdge closest (words.lookup key) bit =
      nextBit atEdge closest (some (word words key)) bit := by
  cases hlookup : words.lookup key with
  | some x => rw [word_of_lookup hlookup]
  | none =>
    have hzero : word words key = 0 := by
      rw [word, hlookup]
      rfl
    rw [hzero]
    rcases nextBit_spec hs (x := 0) hbit with ⟨hnone, -⟩ | ⟨r, -, -, -, hset, -⟩
    · rw [hnone, nextBit]
      split
      · rfl
      · rfl
    · rw [BitVec.ofNat_eq_ofNat, BitVec.getLsbD_zero] at hset
      cases hset

/-- The member of a leaf that the search finds there: at `i`, or the first one beyond. -/
theorem beside_spec (hs : Searches right atEdge closest extreme) (h : Represents words s) :
    (nextBit atEdge closest (words.lookup (i / 256)) (i % 256) = none ∧
      ∀ j ∈ s, j / 256 = i / 256 → ¬ Beyond right i j ∧ (atEdge (i % 256) = false → j ≠ i)) ∨
    ∃ b < 256, nextBit atEdge closest (words.lookup (i / 256)) (i % 256) = some b ∧
      atEdge (i % 256) = false ∧ i / 256 * 256 + b ∈ s ∧
      (i / 256 * 256 + b = i ∨ Beyond right i (i / 256 * 256 + b)) ∧
      ∀ j ∈ s, j / 256 = i / 256 → j = i ∨ Beyond right i j →
        j = i / 256 * 256 + b ∨ Beyond right (i / 256 * 256 + b) j := by
  have hmod : i % 256 < 256 := Nat.mod_lt _ (by omega)
  have hbit : ∀ j ∈ s, j / 256 = i / 256 → (word words (i / 256)).getLsbD (j % 256) = true := by
    intro j hj hkey
    rw [← hkey]
    exact (h.mem j).mpr hj
  rw [nextBit_lookup hs hmod]
  rcases nextBit_spec hs (x := word words (i / 256)) hmod with
    ⟨hnone, hall⟩ | ⟨b, hb, hsome, hedge, hset, hbeyond, hfirst⟩
  · refine Or.inl ⟨hnone, fun j hj hkey => ?_⟩
    obtain ⟨hnot, hne⟩ := hall _ (hbit j hj hkey)
    rw [beyond_same_word hkey]
    exact ⟨hnot, fun hedge hji => hne hedge (by rw [hji])⟩
  · have hdiv : (i / 256 * 256 + b) / 256 = i / 256 := by omega
    have hrem : (i / 256 * 256 + b) % 256 = b := by omega
    refine Or.inr ⟨b, hb, hsome, hedge, (h.getLsbD_word hb).mp hset, ?_, fun j hj hkey hat => ?_⟩
    · rw [beyond_same_word hdiv, hrem]
      exact hbeyond.imp_left (by omega)
    · rw [beyond_same_word (hkey.trans hdiv.symm), hrem]
      rw [beyond_same_word hkey] at hat
      exact (hfirst _ (hbit j hj hkey) (hat.imp_left fun h => by rw [h])).imp_left (by omega)

/-- The first member of a leaf that has any. -/
theorem below_spec (hs : Searches right atEdge closest extreme) (h : Represents words s)
    {key : Nat} (hkey : key ∈ s.image (· / 256)) :
    ∃ b < 256, extremeBit extreme (words.lookup key) = some b ∧ key * 256 + b ∈ s ∧
      ∀ j ∈ s, j / 256 = key → j = key * 256 + b ∨ Beyond right (key * 256 + b) j := by
  obtain ⟨i, hi, rfl⟩ := Finset.mem_image.mp hkey
  cases hlookup : words.lookup (i / 256) with
  | none => exact absurd rfl (h.lookup_eq_none_iff.mp hlookup i hi)
  | some x =>
    obtain ⟨b, hb, hset, hfirst⟩ := hs.extreme x (h.ne_zero _ x hlookup)
    have hlt := LiquidityBook.BitMath.lt_of_getLsbD hset
    have hword := word_of_lookup hlookup
    have hdiv : (i / 256 * 256 + b) / 256 = i / 256 := by omega
    have hrem : (i / 256 * 256 + b) % 256 = b := by omega
    refine ⟨b, hlt, ?_, ?_, fun j hj hkey => ?_⟩
    · rw [extremeBit, Option.bind_some, hb]
      rfl
    · rw [← hword] at hset
      exact (h.getLsbD_word hlt).mp hset
    · have hbit := (h.mem j).mpr hj
      rw [hkey, hword] at hbit
      rw [beyond_same_word (hkey.trans hdiv.symm), hrem]
      exact (hfirst _ hbit).imp_left (by omega)

/-- One level of a search: in the word of `i`, else under the key that the level above found. -/
def levelSearch (atEdge : Nat → Bool) (closest : U256 → Nat → MathOutcome Nat)
    (extreme : U256 → MathOutcome Nat) (words : HashMap Nat U256) (i : Nat)
    (upper : Option Nat) : Option Nat :=
  ((nextBit atEdge closest (words.lookup (i / 256)) (i % 256)).map (i / 256 * 256 + ·)).or
    (upper.bind fun key => (extremeBit extreme (words.lookup key)).map (key * 256 + ·))

variable {upper : Option Nat}

/-- What is found is a member. -/
theorem levelSearch_mem (hs : Searches right atEdge closest extreme) (h : Represents words s)
    (hupper : ∀ k, upper = some k → k ∈ s.image (· / 256)) (r : Nat)
    (hr : levelSearch atEdge closest extreme words i upper = some r) : r ∈ s := by
  unfold levelSearch at hr
  rcases beside_spec (i := i) hs h with ⟨hnone, -⟩ | ⟨b, -, hsome, -, hmem, -⟩
  · rw [hnone] at hr
    cases hk : upper with
    | none =>
      rw [hk] at hr
      cases hr
    | some k =>
      obtain ⟨b, -, hb, hmem, -⟩ := below_spec hs h (hupper k hk)
      rw [hk, Option.map_none, Option.none_or, Option.bind_some, hb] at hr
      cases hr
      exact hmem
  · rw [hsome] at hr
    cases hr
    exact hmem

/-- Where nothing lies beside `i` in its own leaf, the level below finds its first member exactly
when the level above does. -/
theorem isFirst_below_iff (hs : Searches right atEdge closest extreme) (h : Represents words s)
    (hupper : ∀ k, upper = some k → k ∈ s.image (· / 256))
    (hnone : ∀ j ∈ s, j / 256 = i / 256 → ¬ Beyond right i j) :
    IsFirst right s i (upper.bind fun key =>
      (extremeBit extreme (words.lookup key)).map (key * 256 + ·)) ↔
        IsFirst right (s.image (· / 256)) (i / 256) upper := by
  have hbeyond : ∀ j ∈ s, Beyond right i j ↔ Beyond right (i / 256) (j / 256) := by
    intro j hj
    rw [beyond_iff_digits, or_iff_left]
    rintro ⟨hkey, hbits⟩
    exact hnone j hj hkey.symm ((beyond_same_word hkey.symm).mpr hbits)
  cases hk : upper with
  | none =>
    constructor
    · intro hall k hk
      obtain ⟨j, hj, rfl⟩ := Finset.mem_image.mp hk
      exact fun hkey => hall j hj ((hbeyond j hj).mpr hkey)
    · intro hall j hj
      rw [hbeyond j hj]
      exact hall _ (Finset.mem_image_of_mem _ hj)
  | some k =>
    obtain ⟨b, hb, hbelow, hmem, hfirst⟩ := below_spec hs h (hupper k hk)
    have hdiv : (k * 256 + b) / 256 = k := by omega
    rw [Option.bind_some, hbelow, Option.map_some]
    constructor
    · intro hr
      refine ⟨hupper k hk, ?_, fun k' hk' hkey => ?_⟩
      · rw [← hdiv]
        exact (hbeyond _ hmem).mp hr.beyond
      · obtain ⟨j, hj, rfl⟩ := Finset.mem_image.mp hk'
        rcases hr.first j hj ((hbeyond j hj).mpr hkey) with rfl | hfurther
        · exact Or.inl hdiv
        · rcases beyond_iff_digits.mp hfurther with hkeys | ⟨hkeys, -⟩
          · rw [hdiv] at hkeys
            exact Or.inr hkeys
          · rw [hdiv] at hkeys
            exact Or.inl hkeys.symm
    · intro hr
      refine ⟨hmem, ?_, fun j hj hij => ?_⟩
      · rw [hbeyond _ hmem, hdiv]
        exact hr.beyond
      · rcases hr.first _ (Finset.mem_image_of_mem _ hj) ((hbeyond j hj).mp hij) with hsame | hfar
        · exact hfirst j hj hsame
        · refine Or.inr (beyond_iff_digits.mpr (Or.inl ?_))
          rw [hdiv]
          exact hfar

/-- **One level**: the search is right unless the bit of `i` is found itself, or nothing lies beside
it and the level above is wrong. -/
theorem levelSearch_iff (hs : Searches right atEdge closest extreme) (h : Represents words s)
    (hupper : ∀ k, upper = some k → k ∈ s.image (· / 256)) :
    IsFirst right s i (levelSearch atEdge closest extreme words i upper) ↔
      ¬ (atEdge (i % 256) = false ∧ i ∈ s) ∧
        ((∀ j ∈ s, j / 256 = i / 256 → ¬ Beyond right i j) →
          IsFirst right (s.image (· / 256)) (i / 256) upper) := by
  unfold levelSearch
  rcases beside_spec (i := i) hs h with ⟨hnext, hall⟩ | ⟨b, hb, hnext, hedge, hmem, hat, hfirst⟩
  · have hnone : ∀ j ∈ s, j / 256 = i / 256 → ¬ Beyond right i j := fun j hj hkey =>
      (hall j hj hkey).1
    have habsent : ¬ (atEdge (i % 256) = false ∧ i ∈ s) := fun ⟨hedge, hi⟩ =>
      (hall i hi rfl).2 hedge rfl
    rw [hnext, Option.map_none, Option.none_or, isFirst_below_iff hs h hupper hnone]
    exact ⟨fun hfirst => ⟨habsent, fun _ => hfirst⟩, fun hfirst => hfirst.2 hnone⟩
  · have hdiv : (i / 256 * 256 + b) / 256 = i / 256 := by omega
    rw [hnext, Option.map_some, Option.some_or]
    generalize i / 256 * 256 + b = r at *
    by_cases hi : i ∈ s
    · -- The bit of `i` is the closest one, and the search stays where it is.
      refine iff_of_false (fun hr => ?_) (fun hr => hr.1 ⟨hedge, hi⟩)
      rcases hfirst i hi rfl (Or.inl rfl) with hir | hback
      · have hself := hr.beyond
        rw [← hir] at hself
        exact hself.asymm hself
      · exact hr.beyond.asymm hback
    · have hbeyond : Beyond right i r := hat.resolve_left fun hri => hi (hri ▸ hmem)
      refine iff_of_true ⟨hmem, hbeyond, fun j hj hij => ?_⟩ ⟨fun hr => hi hr.2, fun hnone => ?_⟩
      · rcases beyond_iff_digits.mp hij with hkey | ⟨hkey, -⟩
        · refine Or.inr (beyond_iff_digits.mpr (Or.inl ?_))
          rw [hdiv]
          exact hkey
        · exact hfirst j hj hkey.symm (Or.inr hij)
      · exact absurd hbeyond (hnone r hmem hdiv)

end Level

/-! ## The tree -/

section Tree

variable {right : Bool} {atEdge : Nat → Bool} {closest : U256 → Nat → MathOutcome Nat}
  {extreme : U256 → MathOutcome Nat} {tree : TreeUint24} {s : Finset Nat} {id : Nat}

/-- The ids of the 65536-blocks. -/
def parents (s : Finset Nat) : Finset Nat := (s.image (· / 256)).image (· / 256)

/-- The bit that is found in the root. -/
theorem root_spec (hs : Searches right atEdge closest extreme) (h : Holds tree s)
    {key1 : Nat} (hkey1 : key1 < 256) :
    (∀ k, nextBit atEdge closest (some tree.level0) key1 = some k → k ∈ parents s) ∧
    (IsFirst right (parents s) key1 (nextBit atEdge closest (some tree.level0) key1) ↔
      ¬ (atEdge key1 = false ∧ key1 ∈ parents s)) := by
  have hlevel0 : ∀ k, tree.level0.getLsbD k = true ↔ k ∈ parents s := h.level0
  rcases nextBit_spec hs (x := tree.level0) hkey1 with
    ⟨hnone, hall⟩ | ⟨r, -, hsome, hedge, hset, hat, hfirst⟩
  · rw [hnone]
    refine ⟨nofun, iff_of_true (fun j hj => ?_) ?_⟩
    · exact (hall j ((hlevel0 j).mpr hj)).1
    · rintro ⟨hedge, hkey⟩
      exact (hall key1 ((hlevel0 key1).mpr hkey)).2 hedge rfl
  · rw [hsome]
    have hmem := (hlevel0 r).mp hset
    refine ⟨fun k hk => Option.some.inj hk ▸ hmem, ?_⟩
    by_cases hkey : key1 ∈ parents s
    · refine iff_of_false (fun hr => ?_) fun hr => hr ⟨hedge, hkey⟩
      rcases hfirst key1 ((hlevel0 key1).mpr hkey) (Or.inl rfl) with hself | hback
      · have hbeyond := hr.beyond
        rw [← hself] at hbeyond
        exact hbeyond.asymm hbeyond
      · exact hr.beyond.asymm hback
    · refine iff_of_true ⟨hmem, hat.resolve_left fun hr => hkey (hr ▸ hmem), fun j hj hbeyond => ?_⟩
        fun hr => hkey hr.2
      exact hfirst j ((hlevel0 j).mpr hj) (Or.inr hbeyond)

/-- A search goes up the levels and down again. -/
theorem findFirst_eq (hs : Searches right atEdge closest extreme) (h : Holds tree s)
    (hid : id < 2 ^ 24) : findFirst atEdge closest extreme tree id =
      levelSearch atEdge closest extreme tree.level2 id
        (levelSearch atEdge closest extreme tree.level1 (id / 256)
          (nextBit atEdge closest (some tree.level0) (id / 256 / 256))) := by
  have hshl : ∀ {k b : Nat}, b < 256 → k <<< 8 ||| b = k * 256 + b :=
    LiquidityBook.TreeMath.shl_or
  have hlookup : ∀ {k : Nat}, k < 256 → k % 2 ^ 16 = k := fun hk => Nat.mod_eq_of_lt (by omega)
  have hkey1 : id / 256 / 256 < 256 := by omega
  unfold findFirst levelSearch
  dsimp only
  rw [key_eq id, key_eq (id / 256), bit_eq, bit_eq, bit_eq, Nat.mod_eq_of_lt hkey1, hlookup hkey1]
  rcases beside_spec (i := id) hs h.level2 with ⟨hnone2, -⟩ | ⟨b, hb, hsome2, -⟩
  · rw [hnone2]
    rcases beside_spec (i := id / 256) hs h.level1 with ⟨hnone1, -⟩ | ⟨b, hb, hsome1, -, hmem, -⟩
    · rw [hnone1]
      obtain ⟨hroot, -⟩ := root_spec hs h hkey1
      cases hr : nextBit atEdge closest (some tree.level0) (id / 256 / 256) with
      | none => rfl
      | some key1 =>
        obtain ⟨last1, hlt1, hlast1, hmem1, -⟩ := below_spec hs h.level1 (hroot key1 hr)
        obtain ⟨last2, hlt2, hlast2, -⟩ := below_spec hs h.level2 hmem1
        have hkey : key1 < 256 := by
          obtain ⟨k, hk, rfl⟩ := Finset.mem_image.mp (hroot key1 hr)
          obtain ⟨j, hj, rfl⟩ := Finset.mem_image.mp hk
          have := h.lt j hj
          omega
        change (extremeBit extreme (tree.level1.lookup (key1 % 2 ^ 16)) >>= fun last1 =>
          extremeBit extreme (tree.level2.lookup (key1 <<< 8 ||| last1)) >>= fun last2 =>
            some ((key1 <<< 8 ||| last1) <<< 8 ||| last2)) =
          ((extremeBit extreme (tree.level1.lookup key1)).map (key1 * 256 + ·)).bind fun key =>
            (extremeBit extreme (tree.level2.lookup key)).map (key * 256 + ·)
        rw [hlookup hkey, hlast1, Option.map_some, Option.bind_some, hlast2, Option.map_some]
        change extremeBit extreme (tree.level2.lookup (key1 <<< 8 ||| last1)) >>= (fun last2 =>
          some ((key1 <<< 8 ||| last1) <<< 8 ||| last2)) = _
        rw [hshl hlt1, hlast2]
        exact congrArg some (hshl hlt2)
    · obtain ⟨last, hlt, hlast, -⟩ := below_spec hs h.level2 hmem
      rw [hsome1, Option.map_none, Option.none_or, Option.map_some, Option.some_or,
        Option.bind_some, hlast]
      change ((extremeBit extreme (tree.level2.lookup ((id / 256 / 256) <<< 8 ||| b)) >>=
        fun last =>
        some (((id / 256 / 256) <<< 8 ||| b) <<< 8 ||| last)) <|> _) = _
      rw [hshl hb, hlast]
      exact congrArg some (hshl hlt)
  · rw [hsome2]
    exact congrArg some (hshl hb)

/-- The block of the id has ids, none of them beyond it, and is not the last of its parent on the
side of the search. -/
def Stalls (right : Bool) (atEdge : Nat → Bool) (s : Finset Nat) (id block : Nat) : Prop :=
  atEdge (id / block % 256) = false ∧ (∃ j ∈ s, j / block = id / block) ∧
    ∀ j ∈ s, j / block = id / block → ¬ Beyond right id j

theorem mem_image_div_iff {key : Nat} : key ∈ s.image (· / 256) ↔ ∃ j ∈ s, j / 256 = key :=
  Finset.mem_image

theorem mem_parents_iff {key : Nat} : key ∈ parents s ↔ ∃ j ∈ s, j / 65536 = key := by
  unfold parents
  rw [Finset.mem_image]
  simp only [Finset.mem_image, exists_exists_and_eq_and, Nat.div_div_eq_div_mul, Nat.reduceMul]

/-- Nothing lies beyond the id in its 65536-block: nothing in its leaf, and no leaf of its parent.
-/
theorem none_beyond_iff : (∀ j ∈ s, j / 65536 = id / 65536 → ¬ Beyond right id j) ↔
    (∀ j ∈ s, j / 256 = id / 256 → ¬ Beyond right id j) ∧
      ∀ k ∈ s.image (· / 256), k / 256 = id / 256 / 256 → ¬ Beyond right (id / 256) k := by
  have hdiv : ∀ n : Nat, n / 65536 = n / 256 / 256 := fun n => by omega
  constructor
  · intro hall
    refine ⟨fun j hj hkey => hall j hj (by rw [hdiv, hdiv, hkey]), fun k hk hkey hbeyond => ?_⟩
    obtain ⟨j, hj, rfl⟩ := Finset.mem_image.mp hk
    exact hall j hj (by rw [hdiv, hdiv, hkey]) (beyond_iff_digits.mpr (Or.inl hbeyond))
  · rintro ⟨hleaf, hparent⟩ j hj hkey hbeyond
    rcases beyond_iff_digits.mp hbeyond with hkeys | ⟨hkeys, -⟩
    · rw [hdiv, hdiv] at hkey
      exact hparent _ (Finset.mem_image_of_mem _ hj) hkey hkeys
    · exact hleaf j hj hkeys.symm hbeyond

/-- Three levels, each asked only where the one below finds nothing. -/
theorem levels_iff {own leaf parent noneLeaf noneParent : Prop} :
    (¬ own ∧ (noneLeaf → ¬ leaf ∧ (noneParent → ¬ parent))) ↔
      ¬ own ∧ ¬ (leaf ∧ noneLeaf) ∧ ¬ (parent ∧ noneLeaf ∧ noneParent) := by
  tauto

/-- **A search is exact unless it stalls at one of the levels.** -/
theorem findFirst_iff (hs : Searches right atEdge closest extreme) (h : Holds tree s)
    (hid : id < 2 ^ 24) : IsFirst right s id (findFirst atEdge closest extreme tree id) ↔
      ∀ block ∈ [1, 256, 65536], ¬ Stalls right atEdge s id block := by
  have hkey1 : id / 256 / 256 < 256 := by omega
  obtain ⟨hroot, hiff0⟩ := root_spec hs h hkey1
  have hmem1 := levelSearch_mem (i := id / 256) hs h.level1 hroot
  have hself : ¬ Beyond right id id := fun hbeyond => hbeyond.asymm hbeyond
  have hstall1 : Stalls right atEdge s id 1 ↔ atEdge (id % 256) = false ∧ id ∈ s := by
    unfold Stalls
    simp only [Nat.div_one]
    refine and_congr_right fun _ => ⟨fun ⟨⟨j, hj, hji⟩, _⟩ => hji ▸ hj, fun hi => ?_⟩
    exact ⟨⟨id, hi, rfl⟩, fun j _ hji => hji ▸ hself⟩
  have hstall2 : Stalls right atEdge s id 256 ↔
      (atEdge (id / 256 % 256) = false ∧ id / 256 ∈ s.image (· / 256)) ∧
        ∀ j ∈ s, j / 256 = id / 256 → ¬ Beyond right id j := by
    unfold Stalls
    rw [mem_image_div_iff, and_assoc]
  have hstall3 : Stalls right atEdge s id 65536 ↔
      (atEdge (id / 256 / 256) = false ∧ id / 256 / 256 ∈ parents s) ∧
        (∀ j ∈ s, j / 256 = id / 256 → ¬ Beyond right id j) ∧
          ∀ k ∈ s.image (· / 256), k / 256 = id / 256 / 256 → ¬ Beyond right (id / 256) k := by
    have hdiv : id / 65536 = id / 256 / 256 := by omega
    unfold Stalls
    rw [none_beyond_iff, mem_parents_iff, hdiv, Nat.mod_eq_of_lt hkey1, and_assoc]
  rw [findFirst_eq hs h hid, levelSearch_iff hs h.level2 hmem1, levelSearch_iff hs h.level1 hroot]
  unfold parents at hiff0 hstall3
  rw [hiff0]
  simp only [List.forall_mem_cons, List.not_mem_nil, false_imp_iff, implies_true, and_true]
  rw [hstall1, hstall2, hstall3]
  exact levels_iff

end Tree

/-! ## The two searches -/

theorem found_eq_some {n : Nat} (hn : n < 256) : found (.ok n) = some n :=
  if_pos (by unfold U32_MAX; omega)

theorem found_eq_none : found (.ok U32_MAX) = none := rfl

theorem searches_right :
    Searches true (fun bit => bit == 0) closestBitRight mostSignificantBit := by
  constructor
  · intro bit i hedge _ hlt
    simp only [beq_iff_eq] at hedge
    simp only [beyond_right] at hlt
    omega
  · intro x bit hbit
    rcases closestBitRight_spec (x := x) hbit with ⟨hmax, hnone⟩ | ⟨r, hle, hok, hset, hlast⟩
    · rw [hmax]
      refine Or.inl ⟨found_eq_none, fun i hi => ?_⟩
      have hgt : ¬ i ≤ bit := fun hle => by
        rw [hnone i hle] at hi
        cases hi
      simp only [beyond_right]
      omega
    · rw [hok]
      refine Or.inr ⟨r, by omega, found_eq_some (by omega), hset, ?_, fun i hi hat => ?_⟩
      · simp only [beyond_right]
        omega
      · simp only [beyond_right] at hat ⊢
        have := hlast i (by omega) hi
        omega
  · intro x hx
    obtain ⟨r, hok, hset, hlast⟩ := mostSignificantBit_spec hx
    refine ⟨r, hok, hset, fun i hi => ?_⟩
    have := hlast i hi
    simp only [beyond_right]
    omega

theorem searches_left :
    Searches false (fun bit => bit == 255) closestBitLeft leastSignificantBit := by
  constructor
  · intro bit i hedge hi hlt
    simp only [beq_iff_eq] at hedge
    simp only [beyond_left] at hlt
    omega
  · intro x bit hbit
    rcases @closestBitLeft_spec x bit with ⟨hmax, hnone⟩ | ⟨r, hge, hok, hset, hfirst⟩
    · rw [hmax]
      refine Or.inl ⟨found_eq_none, fun i hi => ?_⟩
      have hlt : ¬ bit ≤ i := fun hge => by
        rw [hnone i hge] at hi
        cases hi
      simp only [beyond_left]
      omega
    · have hlt := LiquidityBook.BitMath.lt_of_getLsbD hset
      rw [hok]
      refine Or.inr ⟨r, hlt, found_eq_some hlt, hset, ?_, fun i hi hat => ?_⟩
      · simp only [beyond_left]
        omega
      · simp only [beyond_left] at hat ⊢
        have := hfirst i (by omega) hi
        omega
  · intro x hx
    obtain ⟨r, hok, hset, hfirst⟩ := leastSignificantBit_spec hx
    refine ⟨r, hok, hset, fun i hi => ?_⟩
    have := hfirst i hi
    simp only [beyond_left]
    omega

/-- The greatest member below `id`, or none. -/
def IsGreatestBelow (s : Finset Nat) (id : Nat) : Option Nat → Prop
  | some r => r ∈ s ∧ r < id ∧ ∀ j ∈ s, j < id → j ≤ r
  | none => ∀ j ∈ s, ¬ j < id

/-- The least member above `id`, or none. -/
def IsLeastAbove (s : Finset Nat) (id : Nat) : Option Nat → Prop
  | some r => r ∈ s ∧ id < r ∧ ∀ j ∈ s, id < j → r ≤ j
  | none => ∀ j ∈ s, ¬ id < j

/-- The block of the id has ids, none of them below it, and has blocks before it in its parent. -/
def StallsRight (s : Finset Nat) (id block : Nat) : Prop :=
  id / block % 256 ≠ 0 ∧ (∃ j ∈ s, j / block = id / block) ∧
    ∀ j ∈ s, j / block = id / block → ¬ j < id

/-- The block of the id has ids, none of them above it, and has blocks after it in its parent. -/
def StallsLeft (s : Finset Nat) (id block : Nat) : Prop :=
  id / block % 256 ≠ 255 ∧ (∃ j ∈ s, j / block = id / block) ∧
    ∀ j ∈ s, j / block = id / block → ¬ id < j

section Exact

variable {tree : TreeUint24} {s : Finset Nat} {id : Nat}

theorem findFirstRight_iff (h : Holds tree s) (hid : id < 2 ^ 24) :
    IsGreatestBelow s id (tree.findFirstRight id) ↔
      ∀ block ∈ [1, 256, 65536], ¬ StallsRight s id block := by
  have hiff := findFirst_iff searches_right h hid
  have hstalls : ∀ block, Stalls true (fun bit => bit == 0) s id block ↔
      StallsRight s id block := by
    intro block
    unfold Stalls StallsRight
    simp only [beyond_right, beq_eq_false_iff_ne]
  simp only [hstalls] at hiff
  rw [← hiff, findFirstRight]
  generalize findFirst _ _ _ tree id = result
  cases result with
  | none => simp only [IsGreatestBelow, IsFirst, beyond_right]
  | some r =>
    constructor
    · rintro ⟨hr, hlt, hgreatest⟩
      refine ⟨hr, by simpa only [beyond_right] using hlt, fun j hj hji => ?_⟩
      simp only [beyond_right] at hji ⊢
      have := hgreatest j hj hji
      omega
    · rintro ⟨hr, hlt, hfirst⟩
      refine ⟨hr, by simpa only [beyond_right] using hlt, fun j hj hji => ?_⟩
      have := hfirst j hj (by simpa only [beyond_right] using hji)
      simp only [beyond_right] at this
      omega

theorem findFirstLeft_iff (h : Holds tree s) (hid : id < 2 ^ 24) :
    IsLeastAbove s id (tree.findFirstLeft id) ↔
      ∀ block ∈ [1, 256, 65536], ¬ StallsLeft s id block := by
  have hiff := findFirst_iff searches_left h hid
  have hstalls : ∀ block, Stalls false (fun bit => bit == 255) s id block ↔
      StallsLeft s id block := by
    intro block
    unfold Stalls StallsLeft
    simp only [beyond_left, beq_eq_false_iff_ne]
  simp only [hstalls] at hiff
  rw [← hiff, findFirstLeft]
  generalize findFirst _ _ _ tree id = result
  cases result with
  | none => simp only [IsLeastAbove, IsFirst, beyond_left]
  | some r =>
    constructor
    · rintro ⟨hr, hlt, hleast⟩
      refine ⟨hr, by simpa only [beyond_left] using hlt, fun j hj hji => ?_⟩
      simp only [beyond_left] at hji ⊢
      have := hleast j hj hji
      omega
    · rintro ⟨hr, hlt, hfirst⟩
      refine ⟨hr, by simpa only [beyond_left] using hlt, fun j hj hji => ?_⟩
      have := hfirst j hj (by simpa only [beyond_left] using hji)
      simp only [beyond_left] at this
      omega

end Exact

/-- **Both searches are exact unless they stall**: at the id itself, at its leaf, or at the parent
of its leaf, where that has ids and none of them on the side of the search. -/
theorem findFirst_exact_iff (calls : List Call) (id : Nat) (hcalls : ∀ c ∈ calls, c.id < 2 ^ 24)
    (hid : id < 2 ^ 24) :
    (IsGreatestBelow (idSet calls) id ((run calls).findFirstRight id) ∧
        IsLeastAbove (idSet calls) id ((run calls).findFirstLeft id)) ↔
      ∀ block ∈ [1, 256, 65536],
        ¬ StallsRight (idSet calls) id block ∧ ¬ StallsLeft (idSet calls) id block := by
  have h := run_holds hcalls
  rw [findFirstRight_iff h hid, findFirstLeft_iff h hid]
  exact forall₂_and.symm

theorem findFirst_exact_between :
    (IsGreatestBelow (idSet [.add 50, .add 150]) 100
        ((run [.add 50, .add 150]).findFirstRight 100) ∧
      IsLeastAbove (idSet [.add 50, .add 150]) 100 ((run [.add 50, .add 150]).findFirstLeft 100)) ↔
      ∀ block ∈ [1, 256, 65536], ¬ StallsRight (idSet [.add 50, .add 150]) 100 block ∧
        ¬ StallsLeft (idSet [.add 50, .add 150]) 100 block :=
  findFirst_exact_iff [.add 50, .add 150] 100 (by decide) (by omega)

/-- Below 259 the search finds 261, the last id of the same leaf. -/
theorem findFirstRight_goes_up : ¬ ∀ (calls : List Call) (id : Nat),
    (∀ c ∈ calls, c.id < 2 ^ 24) → id < 2 ^ 24 →
      IsGreatestBelow (idSet calls) id ((run calls).findFirstRight id) := by
  intro h
  have hexact := h [.add 261] 259 (by decide) (by omega)
  have hfound : (run [.add 261]).findFirstRight 259 = some 261 := by decide +kernel
  rw [hfound] at hexact
  exact absurd hexact.2.1 (by omega)

end TreeUint24

end ArbitrageBot.Moe
