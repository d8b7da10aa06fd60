import Mathlib.Data.Nat.Bitwise
import Mathlib.Algebra.Order.Floor.Div
import Mathlib.GroupTheory.GroupAction.Ring
import Mathlib.Tactic.Ring

/-!
# 256-bit words: lanes and products

Two unsigned 128-bit lanes in one word, as they are packed, added and subtracted; and the two words
of a full 512-bit product, with the rounded divisions by powers of two that are made of them.
-/

namespace ArbitrageBot.Lib.Words

/-! ## Lanes -/

/-- The word with `x` in the low lane and `y` in the high lane. -/
def pack (x y : Nat) : BitVec 256 := BitVec.ofNat 256 x ||| (BitVec.ofNat 256 y <<< 128)

def low (z : BitVec 256) : Nat := z.toNat % 2 ^ 128
def high (z : BitVec 256) : Nat := z.toNat / 2 ^ 128

variable {x y z m : BitVec 256} {a b : Nat}

theorem low_lt (z : BitVec 256) : low z < 2 ^ 128 := Nat.mod_lt _ (by omega)

theorem high_lt (z : BitVec 256) : high z < 2 ^ 128 := by
  have := z.isLt
  unfold high
  omega

theorem toNat_eq (z : BitVec 256) : z.toNat = low z + 2 ^ 128 * high z := by
  unfold low high
  omega

theorem toNat_pack (ha : a < 2 ^ 128) (hb : b < 2 ^ 128) :
    (pack a b).toNat = a + 2 ^ 128 * b := by
  have hshift : b <<< 128 % 2 ^ 256 = b <<< 128 := by
    rw [Nat.shiftLeft_eq]
    omega
  unfold pack
  rw [BitVec.toNat_or, BitVec.toNat_shiftLeft, BitVec.toNat_ofNat, BitVec.toNat_ofNat,
    Nat.mod_eq_of_lt (by omega : a < 2 ^ 256), Nat.mod_eq_of_lt (by omega : b < 2 ^ 256), hshift,
    Nat.or_comm, ← Nat.shiftLeft_add_eq_or_of_lt ha, Nat.shiftLeft_eq]
  ring

theorem low_pack (ha : a < 2 ^ 128) (hb : b < 2 ^ 128) : low (pack a b) = a := by
  unfold low
  rw [toNat_pack ha hb]
  omega

theorem high_pack (ha : a < 2 ^ 128) (hb : b < 2 ^ 128) : high (pack a b) = b := by
  unfold high
  rw [toNat_pack ha hb]
  omega

theorem pack_low_high (z : BitVec 256) : pack (low z) (high z) = z := by
  apply BitVec.eq_of_toNat_eq
  rw [toNat_pack (low_lt z) (high_lt z), ← toNat_eq]

theorem eq_of_lanes (hlow : low x = low y) (hhigh : high x = high y) : x = y := by
  rw [← pack_low_high x, ← pack_low_high y, hlow, hhigh]

/-- A sum that is not below its first summand, in the word and in the low lane, has added the
lanes. -/
theorem lanes_add (hword : ¬ x + y < x) (hlow : ¬ low (x + y) < low x) :
    low (x + y) = low x + low y ∧ high (x + y) = high x + high y := by
  have hx := x.isLt
  have hy := y.isLt
  rw [BitVec.lt_def, BitVec.toNat_add] at hword
  unfold low high at *
  rw [BitVec.toNat_add] at *
  omega

/-- A difference that is not above its minuend, in the word and in the low lane, has subtracted the
lanes. -/
theorem lanes_sub (hword : ¬ x < x - y) (hlow : ¬ low x < low (x - y)) :
    low (x - y) + low y = low x ∧ high (x - y) + high y = high x := by
  have hx := x.isLt
  have hy := y.isLt
  rw [BitVec.lt_def, BitVec.toNat_sub] at hword
  unfold low high at *
  rw [BitVec.toNat_sub] at *
  omega

/-- Lanes that neither overflow nor underflow are added and subtracted on their own. -/
theorem pack_add_sub {i j o u : Nat} (hi : a + i < 2 ^ 128) (hj : b + j < 2 ^ 128) (ho : o ≤ a + i)
    (hu : u ≤ b + j) : pack a b + pack i j - pack o u = pack (a + i - o) (b + j - u) := by
  apply BitVec.eq_of_toNat_eq
  rw [toNat_pack (by omega) (by omega), BitVec.toNat_sub, BitVec.toNat_add,
    toNat_pack (by omega) (by omega), toNat_pack (by omega) (by omega),
    toNat_pack (by omega) (by omega)]
  omega

/-! ## Products -/

/-- `x * y` modulo `m`, without overflow; zero modulo zero. -/
def mulMod (x y m : BitVec 256) : BitVec 256 :=
  if m = 0 then 0 else BitVec.ofNat 256 (x.toNat * y.toNat % m.toNat)

theorem toNat_mulMod (hm : m ≠ 0) :
    (mulMod x y m).toNat = x.toNat * y.toNat % m.toNat := by
  have hpos : 0 < m.toNat := by
    rcases Nat.eq_zero_or_pos m.toNat with h | h
    · exact absurd (BitVec.eq_of_toNat_eq h) hm
    · exact h
  have hlt := Nat.mod_lt (x.toNat * y.toNat) hpos
  have := m.isLt
  rw [mulMod, if_neg hm, BitVec.toNat_ofNat, Nat.mod_eq_of_lt (by omega)]

theorem mulMod_eq_zero_iff (hm : m ≠ 0) :
    mulMod x y m = 0 ↔ x.toNat * y.toNat % m.toNat = 0 := by
  rw [← toNat_mulMod hm]
  constructor
  · intro h
    rw [h]
    rfl
  · intro h
    exact BitVec.eq_of_toNat_eq h

/-- The low word of the product. -/
def prodLow (x y : BitVec 256) : BitVec 256 := x * y

/-- The high word of the product, from its value modulo `2 ^ 256 - 1`. -/
def prodHigh (x y : BitVec 256) : BitVec 256 :=
  let mm := mulMod x y (BitVec.allOnes 256)
  mm - prodLow x y - (if mm < prodLow x y then 1 else 0)

theorem toNat_prodLow : (prodLow x y).toNat = x.toNat * y.toNat % 2 ^ 256 := BitVec.toNat_mul x y

/-- Modulo `2 ^ 256 - 1` a number is the sum of its two words. -/
theorem mod_allOnes (p : Nat) :
    p % (2 ^ 256 - 1) = (p % 2 ^ 256 + p / 2 ^ 256) % (2 ^ 256 - 1) := by
  omega

theorem toNat_prodHigh : (prodHigh x y).toNat = x.toNat * y.toNat / 2 ^ 256 := by
  have hmm : (mulMod x y (BitVec.allOnes 256)).toNat = x.toNat * y.toNat % (2 ^ 256 - 1) := by
    rw [toNat_mulMod (by decide), BitVec.toNat_allOnes]
  have hx := x.isLt
  have hy := y.isLt
  have hprod : x.toNat * y.toNat ≤ (2 ^ 256 - 1) * (2 ^ 256 - 1) :=
    Nat.mul_le_mul (by omega) (by omega)
  have hlo : (prodLow x y).toNat = x.toNat * y.toNat % 2 ^ 256 := toNat_prodLow
  have hone : (1 : BitVec 256).toNat = 1 := rfl
  have hzero : (0 : BitVec 256).toNat = 0 := rfl
  unfold prodHigh
  simp only [BitVec.lt_def]
  generalize x.toNat * y.toNat = p at hprod hmm hlo
  have hhigh : p / 2 ^ 256 ≤ 2 ^ 256 - 2 := by omega
  have hsum := mod_allOnes p
  -- The sum of the two words reaches `2 ^ 256 - 1` once or not at all.
  split
  · rw [BitVec.toNat_sub, BitVec.toNat_sub, hmm, hlo, hone]
    omega
  · rw [BitVec.toNat_sub, BitVec.toNat_sub, hmm, hlo, hzero]
    omega

/-- A product divided by a factor gives the other factor back exactly when it did not wrap. -/
theorem mul_div_ne_iff (hx : 0 < x.toNat) :
    y * x / x ≠ y ↔ 2 ^ 256 ≤ y.toNat * x.toNat := by
  have hy := y.isLt
  have hval : (y * x / x).toNat = y.toNat * x.toNat % 2 ^ 256 / x.toNat := by
    rw [BitVec.toNat_udiv, BitVec.toNat_mul]
  rw [ne_eq, ← BitVec.toNat_inj, hval]
  constructor
  · intro h
    by_contra hlt
    rw [Nat.mod_eq_of_lt (by omega), Nat.mul_div_cancel _ hx] at h
    exact h rfl
  · intro h heq
    have hmod : y.toNat * x.toNat % 2 ^ 256 < y.toNat * x.toNat :=
      Nat.lt_of_lt_of_le (Nat.mod_lt _ (by omega)) h
    rw [Nat.mul_comm y.toNat] at hmod heq
    have := Nat.div_lt_of_lt_mul hmod
    omega

/-- A sum is below a summand exactly when it wrapped. -/
theorem add_lt_iff : x + y < y ↔ 2 ^ 256 ≤ x.toNat + y.toNat := by
  have hx := x.isLt
  have hy := y.isLt
  rw [BitVec.lt_def, BitVec.toNat_add]
  omega

/-- The high word of the product of a lane and a word is a lane. -/
theorem prodHigh_lt (hx : x.toNat < 2 ^ 128) : prodHigh x y < 1 <<< 128 := by
  have hone : (1 <<< 128 : BitVec 256).toNat = 2 ^ 128 := rfl
  have hprod : x.toNat * y.toNat < 2 ^ 128 * 2 ^ 256 :=
    Nat.mul_lt_mul_of_lt_of_le hx y.isLt.le (by omega)
  rw [BitVec.lt_def, toNat_prodHigh, hone]
  omega

/-- The product of a lane and a word divided by `2 ^ 128`, from the words of the product. -/
theorem toNat_prod_shift (hx : x.toNat < 2 ^ 128) :
    ((prodLow x y >>> 128) + (prodHigh x y <<< 128)).toNat = x.toNat * y.toNat / 2 ^ 128 := by
  have hprod : x.toNat * y.toNat < 2 ^ 128 * 2 ^ 256 :=
    Nat.mul_lt_mul_of_lt_of_le hx y.isLt.le (by omega)
  rw [BitVec.toNat_add, BitVec.toNat_ushiftRight, BitVec.toNat_shiftLeft, toNat_prodHigh,
    toNat_prodLow, Nat.shiftRight_eq_div_pow, Nat.shiftLeft_eq]
  omega

/-- The product of a lane and a word divided by `2 ^ 128` leaves room for rounding up. -/
theorem prod_shift_lt (hx : x.toNat < 2 ^ 128) : x.toNat * y.toNat / 2 ^ 128 < 2 ^ 256 - 1 := by
  have hy := y.isLt
  have hprod : x.toNat * y.toNat ≤ (2 ^ 128 - 1) * 2 ^ 256 :=
    Nat.mul_le_mul (by omega) (by omega)
  omega

/-- The product of two words without its low 128 bits, or the error when that is over a word. -/
def shiftProds {ε : Type*} (overflow : ε) (prod0 prod1 : BitVec 256) : Except ε (BitVec 256) :=
  let result := if prod0 ≠ 0 then prod0 >>> 128 else 0
  if prod1 ≠ 0 then
    if prod1 ≥ 1 <<< 128 then .error overflow else .ok (result + (prod1 <<< 128))
  else .ok result

theorem shiftProds_eq_ok {ε : Type*} (overflow : ε) (hx : x.toNat < 2 ^ 128) :
    ∃ w, shiftProds overflow (prodLow x y) (prodHigh x y) = .ok w ∧
      w.toNat = x.toNat * y.toNat / 2 ^ 128 := by
  refine ⟨_, ?_, toNat_prod_shift hx⟩
  have hhigh := prodHigh_lt (y := y) hx
  unfold shiftProds
  generalize prodLow x y = prod0, prodHigh x y = prod1 at hhigh ⊢
  have hlow : (if prod0 ≠ 0 then prod0 >>> 128 else 0) = prod0 >>> 128 := by
    split
    · rfl
    · rename_i h
      rw [not_not.mp h]
      rfl
  rw [hlow]
  by_cases h : prod1 = 0
  · rw [if_neg (not_not.mpr h), h]
    simp
  · rw [if_pos h, if_neg (by rw [ge_iff_le, BitVec.not_le]; exact hhigh)]

/-- A lane moved up, and what lies above it. -/
theorem toNat_shiftLeft_lane (hx : x.toNat < 2 ^ 128) :
    (x <<< 128).toNat = x.toNat * 2 ^ 128 := by
  rw [BitVec.toNat_shiftLeft, Nat.shiftLeft_eq]
  omega

theorem ushiftRight_lane (hx : x.toNat < 2 ^ 128) : x >>> 128 = 0 := by
  apply BitVec.eq_of_toNat_eq
  rw [BitVec.toNat_ushiftRight, Nat.shiftRight_eq_div_pow, Nat.div_eq_of_lt hx]
  rfl

/-- Rounding down and adding one for a remainder rounds up. -/
theorem div_add_ite_eq_ceilDiv {p d : Nat} (hd : 0 < d) :
    p / d + (if p % d = 0 then 0 else 1) = p ⌈/⌉ d := by
  have hdiv := Nat.div_add_mod p d
  have hmod := Nat.mod_lt p hd
  apply Nat.le_antisymm
  · by_contra hlt
    have hle : p ≤ d * (p ⌈/⌉ d) := (ceilDiv_le_iff_le_mul hd).mp le_rfl
    by_cases h0 : p % d = 0
    · rw [if_pos h0] at hlt
      have := Nat.mul_le_mul_left d (by omega : p ⌈/⌉ d + 1 ≤ p / d)
      rw [Nat.mul_add] at this
      omega
    · rw [if_neg h0] at hlt
      have := Nat.mul_le_mul_left d (by omega : p ⌈/⌉ d ≤ p / d)
      omega
  · rw [ceilDiv_le_iff_le_mul hd, Nat.mul_add]
    by_cases h0 : p % d = 0
    · rw [if_pos h0]
      omega
    · rw [if_neg h0]
      omega

/-- The floor of a quotient, one more where something is left over, is its ceiling. -/
theorem toNat_roundUp {w r : BitVec 256} {p d : Nat} (hd : 0 < d) (hw : w.toNat = p / d)
    (hr : r = 0 ↔ p % d = 0) (hlt : p / d + 1 < 2 ^ 256) :
    (if r = 0 then w else w + 1).toNat = p ⌈/⌉ d := by
  have hone : (1 : BitVec 256).toNat = 1 := rfl
  rw [← div_add_ite_eq_ceilDiv hd]
  split
  · rename_i h
    rw [if_pos (hr.mp h), hw, Nat.add_zero]
  · rename_i h
    rw [if_neg fun h' => h (hr.mpr h'), BitVec.toNat_add, hw, hone, Nat.mod_eq_of_lt hlt]

/-! ## A product plus a lane -/

section MulAdd

variable {ε : Type*} (overflow : ε)

/-- `price * x`, or the error when it wraps. -/
def checkedMul (price x : BitVec 256) : Except ε (BitVec 256) :=
  if x > 0 then
    if price * x / x ≠ price then .error overflow else .ok (price * x)
  else .ok 0

/-- `sum + y * 2 ^ 128`, or the error when it wraps. -/
def checkedAddHigh (sum y : BitVec 256) : Except ε (BitVec 256) :=
  if y > 0 then
    if sum + y <<< 128 < y <<< 128 then .error overflow else .ok (sum + y <<< 128)
  else .ok sum

/-- `price * x + y * 2 ^ 128`, each step checked. -/
def checkedMulAdd (price x y : BitVec 256) : Except ε (BitVec 256) := do
  let sum ← checkedMul overflow price x
  checkedAddHigh overflow sum y

variable {overflow} {price sum w : BitVec 256}

theorem checkedMul_eq_ok_iff : checkedMul overflow price x = .ok w ↔
    price.toNat * x.toNat < 2 ^ 256 ∧ w.toNat = price.toNat * x.toNat := by
  unfold checkedMul
  by_cases hx : x > 0
  · have hiff := mul_div_ne_iff (y := price) (BitVec.lt_def.mp hx)
    rw [if_pos hx]
    by_cases hwrap : price * x / x ≠ price
    · rw [if_pos hwrap]
      have := hiff.mp hwrap
      constructor
      · intro h
        cases h
      · intro h
        omega
    · rw [if_neg hwrap, Except.ok.injEq, ← BitVec.toNat_inj, BitVec.toNat_mul]
      have hlt : price.toNat * x.toNat < 2 ^ 256 := by
        by_contra hge
        exact hwrap (hiff.mpr (by omega))
      rw [Nat.mod_eq_of_lt hlt]
      exact ⟨fun h => ⟨hlt, h.symm⟩, fun h => h.2.symm⟩
  · have hx0 : x.toNat = 0 := by
      rw [gt_iff_lt, BitVec.lt_def] at hx
      exact Nat.eq_zero_of_not_pos hx
    have hzero : (0 : BitVec 256).toNat = 0 := rfl
    rw [if_neg hx, hx0, Except.ok.injEq, ← BitVec.toNat_inj, hzero]
    omega

theorem checkedAddHigh_eq_ok_iff (hy : y.toNat < 2 ^ 128) :
    checkedAddHigh overflow sum y = .ok w ↔
      sum.toNat + y.toNat * 2 ^ 128 < 2 ^ 256 ∧ w.toNat = sum.toNat + y.toNat * 2 ^ 128 := by
  have hshift := toNat_shiftLeft_lane hy
  have hsum := sum.isLt
  unfold checkedAddHigh
  by_cases hy0 : y > 0
  · have hiff := add_lt_iff (x := sum) (y := y <<< 128)
    rw [hshift] at hiff
    rw [if_pos hy0]
    by_cases hwrap : sum + y <<< 128 < y <<< 128
    · rw [if_pos hwrap]
      have := hiff.mp hwrap
      constructor
      · intro h
        cases h
      · intro h
        omega
    · rw [hiff] at hwrap
      rw [if_neg (by rwa [hiff]), Except.ok.injEq, ← BitVec.toNat_inj, BitVec.toNat_add, hshift,
        Nat.mod_eq_of_lt (by omega)]
      omega
  · have hzero : y.toNat = 0 := by
      rw [gt_iff_lt, BitVec.lt_def] at hy0
      exact Nat.eq_zero_of_not_pos hy0
    rw [if_neg hy0, hzero, Except.ok.injEq, ← BitVec.toNat_inj]
    omega

/-- The checks pass exactly when the exact sum is a word, and then return it. -/
theorem checkedMulAdd_eq_ok_iff (hy : y.toNat < 2 ^ 128) :
    checkedMulAdd overflow price x y = .ok w ↔
      price.toNat * x.toNat + y.toNat * 2 ^ 128 < 2 ^ 256 ∧
        w.toNat = price.toNat * x.toNat + y.toNat * 2 ^ 128 := by
  unfold checkedMulAdd
  cases hmul : checkedMul overflow price x with
  | error e =>
    have hwrap : ¬ price.toNat * x.toNat < 2 ^ 256 := by
      intro hlt
      have : checkedMul overflow price x = .ok (price * x) :=
        checkedMul_eq_ok_iff.mpr ⟨hlt, by rw [BitVec.toNat_mul, Nat.mod_eq_of_lt hlt]⟩
      rw [hmul] at this
      cases this
    constructor
    · intro h
      cases h
    · intro h
      omega
  | ok sum =>
    obtain ⟨-, hsum⟩ := checkedMul_eq_ok_iff.mp hmul
    rw [← hsum]
    exact checkedAddHigh_eq_ok_iff hy

end MulAdd

end ArbitrageBot.Lib.Words
