import ArbitrageBot.Amms.Machine
import ArbitrageBot.Lib.BinarySearch

/-!
# First and last bits of a word

`BitMath` finds the extreme bits of a word by binary search, and the bit closest to a given one by
shifting the bits on the other side out of the word.
-/

namespace ArbitrageBot.LiquidityBook

open Lib.BinarySearch

namespace BitMath

def UINT256_MAX : Nat := 2 ^ 256 - 1

/-- `if gt(x, 2 ** width - 1) { x := shr(width, x) msb := add(msb, width) }`. -/
def msbStep (s : U256 × Nat) (width : Nat) : U256 × Nat :=
  if s.1 > BitVec.ofNat 256 (2 ^ width - 1) then (s.1 >>> width, s.2 + width) else s

def mostSignificantBit (x : U256) : Nat :=
  ([128, 64, 32, 16, 8, 4, 2, 1].foldl msbStep (x, 0)).2

/-- `let sx := shl(width, x) if sx { x := sx lsb := add(lsb, width) }`. -/
def lsbStep (s : U256 × Nat) (width : Nat) : U256 × Nat :=
  let sx := s.1 <<< width
  if sx ≠ 0#256 then (sx, s.2 + width) else s

def leastSignificantBit (x : U256) : Nat :=
  255 - ([128, 64, 32, 16, 8, 4, 2, 1].foldl lsbStep (x, 0)).2

def closestBitRight (x : U256) (bit : Nat) : Nat :=
  let shift := 255 - bit
  let x := x <<< shift
  if x = 0 then UINT256_MAX else mostSignificantBit x - shift

def closestBitLeft (x : U256) (bit : Nat) : Nat :=
  let x := x >>> bit
  if x = 0 then UINT256_MAX else leastSignificantBit x + bit

variable {x : U256} {bit i : Nat}

theorem foldl_msbStep (ws : List Nat) (hws : ∀ w ∈ ws, w < 256) (acc : Nat) :
    (ws.foldl msbStep (x >>> acc, acc)).2 = climb (fun s => 2 ^ s ≤ x.toNat) ws acc := by
  induction ws generalizing acc with
  | nil => rfl
  | cons w ws ih =>
    have hw := hws w List.mem_cons_self
    have hpow : 2 ^ w < 2 ^ 256 := Nat.pow_lt_pow_right (by omega) hw
    have hiff : x >>> acc > BitVec.ofNat 256 (2 ^ w - 1) ↔ 2 ^ (acc + w) ≤ x.toNat := by
      rw [gt_iff_lt, BitVec.lt_def, BitVec.toNat_ofNat, Nat.mod_eq_of_lt (by omega),
        BitVec.toNat_ushiftRight, Nat.shiftRight_eq_div_pow, Nat.pow_add,
        Nat.mul_comm, ← Nat.le_div_iff_mul_le (Nat.two_pow_pos acc)]
      have := Nat.two_pow_pos w
      omega
    rw [List.foldl_cons, climb, msbStep]
    by_cases h : 2 ^ (acc + w) ≤ x.toNat
    · rw [if_pos (hiff.mpr h), if_pos h, ← BitVec.shiftRight_add]
      exact ih (fun w hw => hws w (List.mem_cons_of_mem _ hw)) (acc + w)
    · rw [if_neg (fun h' => h (hiff.mp h')), if_neg h]
      exact ih (fun w hw => hws w (List.mem_cons_of_mem _ hw)) acc

theorem foldl_lsbStep (ws : List Nat) (acc : Nat) :
    (ws.foldl lsbStep (x <<< acc, acc)).2 = climb (fun s => x <<< s ≠ 0#256) ws acc := by
  induction ws generalizing acc with
  | nil => rfl
  | cons w ws ih =>
    rw [List.foldl_cons, climb, lsbStep]
    dsimp only
    rw [← BitVec.shiftLeft_add]
    by_cases h : x <<< (acc + w) ≠ 0#256
    · rw [if_pos h, if_pos h]
      exact ih (acc + w)
    · rw [if_neg h, if_neg h]
      exact ih acc

theorem mostSignificantBit_spec (hx : x ≠ 0) : x.getLsbD (mostSignificantBit x) = true ∧
    ∀ i, x.getLsbD i = true → i ≤ mostSignificantBit x := by
  have hpos : 0 < x.toNat := BitVec.toNat_pos_of_ne_zero hx
  have hmsb : mostSignificantBit x = climb (fun s => 2 ^ s ≤ x.toNat) (steps 8) 0 :=
    foldl_msbStep (x := x) (steps 8) (by decide) 0
  have hend : ¬ 2 ^ (0 + 2 ^ 8) ≤ x.toNat := by
    have := x.isLt
    omega
  obtain ⟨-, -, hle, hlt⟩ := climb_spec (p := fun s => 2 ^ s ≤ x.toNat) hpos hend
  rw [hmsb]
  exact isLast_of_pow_le hle hlt

theorem leastSignificantBit_spec (hx : x ≠ 0) : x.getLsbD (leastSignificantBit x) = true ∧
    ∀ i, x.getLsbD i = true → leastSignificantBit x ≤ i := by
  have hlsb : leastSignificantBit x = 255 - climb (fun s => x <<< s ≠ 0#256) (steps 8) 0 := by
    have := foldl_lsbStep (x := x) (steps 8) 0
    rw [BitVec.shiftLeft_zero] at this
    rw [← this]
    rfl
  have hstart : x <<< 0 ≠ 0#256 := by
    rw [BitVec.shiftLeft_zero]
    exact hx
  have hend : ¬ x <<< (0 + 2 ^ 8) ≠ 0#256 := by
    rw [not_not]
    exact BitVec.shiftLeft_eq_zero (by omega)
  obtain ⟨-, -, hne, hzero⟩ := climb_spec (p := fun s => x <<< s ≠ 0#256) hstart hend
  rw [hlsb]
  exact isFirst_of_shiftLeft hne (not_not.mp hzero)

theorem lt_of_getLsbD (h : x.getLsbD i = true) : i < 256 := by
  by_contra hge
  rw [BitVec.getLsbD_of_ge x i (by omega)] at h
  cases h

theorem exists_bit_of_ne_zero (hx : x ≠ 0) : ∃ i, x.getLsbD i = true :=
  ⟨_, (mostSignificantBit_spec hx).1⟩

/-- The last bit up to `bit`, if there is one. -/
theorem closestBitRight_spec (hbit : bit < 256) :
    (closestBitRight x bit = UINT256_MAX ∧ ∀ i ≤ bit, x.getLsbD i = false) ∨
    (closestBitRight x bit ≤ bit ∧ x.getLsbD (closestBitRight x bit) = true ∧
      ∀ i ≤ bit, x.getLsbD i = true → i ≤ closestBitRight x bit) := by
  have hshift : ∀ i ≤ bit, (x <<< (255 - bit)).getLsbD (i + (255 - bit)) = x.getLsbD i := by
    intro i hi
    rw [BitVec.getLsbD_shiftLeft, Nat.add_sub_cancel]
    have h1 : i + (255 - bit) < 256 := by omega
    have h2 : ¬ i + (255 - bit) < 255 - bit := by omega
    simp [h1, h2]
  unfold closestBitRight
  dsimp only
  by_cases h : x <<< (255 - bit) = 0
  · rw [if_pos h]
    refine Or.inl ⟨rfl, fun i hi => ?_⟩
    rw [← hshift i hi, h]
    exact BitVec.getLsbD_zero
  · rw [if_neg h]
    obtain ⟨hset, hlast⟩ := mostSignificantBit_spec h
    have hlt := lt_of_getLsbD hset
    have hge : 255 - bit ≤ mostSignificantBit (x <<< (255 - bit)) := by
      by_contra hlow
      rw [BitVec.getLsbD_shiftLeft] at hset
      simp at hset
      omega
    refine Or.inr ⟨by omega, ?_, fun i hi hbit => ?_⟩
    · rw [← hshift _ (by omega), Nat.sub_add_cancel hge]
      exact hset
    · have := hlast (i + (255 - bit)) (by rw [hshift i hi]; exact hbit)
      omega

/-- The first bit from `bit` on, if there is one. -/
theorem closestBitLeft_spec :
    (closestBitLeft x bit = UINT256_MAX ∧ ∀ i ≥ bit, x.getLsbD i = false) ∨
    (bit ≤ closestBitLeft x bit ∧ x.getLsbD (closestBitLeft x bit) = true ∧
      ∀ i ≥ bit, x.getLsbD i = true → closestBitLeft x bit ≤ i) := by
  have hshift : ∀ i ≥ bit, (x >>> bit).getLsbD (i - bit) = x.getLsbD i := by
    intro i hi
    rw [BitVec.getLsbD_ushiftRight, Nat.add_sub_cancel' hi]
  unfold closestBitLeft
  dsimp only
  by_cases h : x >>> bit = 0
  · rw [if_pos h]
    refine Or.inl ⟨rfl, fun i hi => ?_⟩
    rw [← hshift i hi, h]
    exact BitVec.getLsbD_zero
  · rw [if_neg h]
    obtain ⟨hset, hfirst⟩ := leastSignificantBit_spec h
    refine Or.inr ⟨by omega, ?_, fun i hi hbit => ?_⟩
    · rw [← hshift _ (by omega), Nat.add_sub_cancel]
      exact hset
    · have := hfirst (i - bit) (by rw [hshift i hi]; exact hbit)
      omega

end BitMath

end ArbitrageBot.LiquidityBook
