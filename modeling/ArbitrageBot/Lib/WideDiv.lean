import Mathlib.Algebra.Order.Floor.Div
import Mathlib.Algebra.Ring.Parity
import Mathlib.Data.BitVec
import Mathlib.Data.Nat.Factorization.Basic
import Mathlib.Tactic.Ring

/-!
# Exact division of a number of two words by a word

A dividend below `2 ^ 256` times the divisor is divided in wrapping arithmetic: the remainder is
taken off, the power of two of the divisor is divided out of divisor and dividend, and the dividend
is multiplied by the inverse of the odd divisor that is left. The inverse is found by Newton's
iteration, which doubles the number of correct low bits.
-/

namespace ArbitrageBot.Lib.WideDiv

/-! ## The inverse of an odd word -/

/-- One iteration squares the error. -/
theorem newton_step {R : Type*} [CommRing R] {d i m : R} (h : m ∣ d * i - 1) :
    m * m ∣ d * (i * (2 - d * i)) - 1 := by
  obtain ⟨c, hc⟩ := h
  have hdi : d * i = 1 + m * c := by rw [← hc]; ring
  refine ⟨-(c * c), ?_⟩
  calc d * (i * (2 - d * i)) - 1 = (d * i) * (2 - d * i) - 1 := by ring
    _ = m * m * -(c * c) := by rw [hdi]; ring

def newton (d i : BitVec 256) : BitVec 256 := i * (2 - d * i)

/-- The seed is right in four bits. -/
def seed (d : BitVec 256) : BitVec 256 := (3 * d) ^^^ 2

def inverse (d : BitVec 256) : BitVec 256 :=
  newton d (newton d (newton d (newton d (newton d (newton d (seed d))))))

variable {d p0 p1 : BitVec 256} {k m n o : Nat}

theorem dvd_of_setWidth_eq_zero {e : BitVec 256} (h : e.setWidth 4 = 0) : 16 ∣ e := by
  have hmod : e.toNat % 2 ^ 4 = 0 := by
    rw [← BitVec.toNat_setWidth, h]
    rfl
  refine ⟨BitVec.ofNat 256 (e.toNat / 2 ^ 4), ?_⟩
  have hsixteen : (16 : BitVec 256).toNat = 16 := rfl
  have hlt := e.isLt
  apply BitVec.eq_of_toNat_eq
  rw [BitVec.toNat_mul, BitVec.toNat_ofNat, hsixteen]
  omega

theorem seed_spec (hd : d.getLsbD 0 = true) : 16 ∣ d * seed d - 1 := by
  have hnibble : ∀ e : BitVec 4, e.getLsbD 0 = true → e * ((3 * e) ^^^ 2) - 1 = 0 := by decide
  have hlow : (d.setWidth 4).getLsbD 0 = true := by
    rw [BitVec.getLsbD_setWidth, hd]
    rfl
  apply dvd_of_setWidth_eq_zero
  unfold seed
  rw [BitVec.sub_eq_add_neg, BitVec.setWidth_add _ _ (by omega), BitVec.setWidth_mul _ _ (by omega),
    BitVec.setWidth_xor, BitVec.setWidth_mul _ _ (by omega), ← hnibble _ hlow,
    BitVec.sub_eq_add_neg]
  rfl

/-- **Newton's iteration** inverts an odd word. -/
theorem mul_inverse (hd : d.getLsbD 0 = true) : d * inverse d = 1 := by
  have herror := newton_step (newton_step (newton_step (newton_step (newton_step
    (newton_step (seed_spec hd))))))
  -- `16 ^ 64` is `2 ^ 256`
  have hzero : ∀ e : BitVec 256, e * e = 0 → e * e ∣ d * inverse d - 1 → d * inverse d = 1 := by
    intro e he hdvd
    rw [he, zero_dvd_iff, sub_eq_zero] at hdvd
    exact hdvd
  exact hzero _ (by decide) herror

/-! ## The power of two of a word -/

/-- The lowest bit that is set. -/
def lowestBit (d : BitVec 256) : BitVec 256 := (0 - d) &&& d

theorem neg_and_self_of_odd {e : BitVec 256} (he : e.getLsbD 0 = true) : -e &&& e = 1 := by
  have hdisj : ~~~e &&& 1#256 = 0#256 := by
    apply BitVec.eq_of_getLsbD_eq
    intro i hi
    rw [BitVec.getLsbD_and, BitVec.getLsbD_not, BitVec.getLsbD_one]
    by_cases h0 : i = 0
    · subst h0
      simp [he]
    · simp [h0]
  have hneg : -e = ~~~e ||| 1#256 := by
    rw [BitVec.neg_eq_not_add, BitVec.add_eq_or_of_and_eq_zero _ _ hdisj]
  rw [hneg]
  apply BitVec.eq_of_getLsbD_eq
  intro i hi
  have hone : (1 : BitVec 256) = 1#256 := rfl
  rw [hone, BitVec.getLsbD_and, BitVec.getLsbD_or, BitVec.getLsbD_not, BitVec.getLsbD_one]
  by_cases h0 : i = 0
  · subst h0
    simp [he]
  · simp [h0]

/-- A word is a power of two times an odd number, and its lowest bit is that power. -/
theorem exists_lowestBit (hd : d ≠ 0) : ∃ k m, k < 256 ∧ m % 2 = 1 ∧ d.toNat = 2 ^ k * m ∧
    (lowestBit d).toNat = 2 ^ k := by
  have hd0 : d.toNat ≠ 0 := (BitVec.toNat_pos_of_ne_zero hd).ne'
  obtain ⟨k, m, hodd, hval⟩ := Nat.exists_eq_two_pow_mul_odd hd0
  have hm : m % 2 = 1 := Nat.odd_iff.mp hodd
  have hlt := d.isLt
  have hpow : 2 ^ k ≤ d.toNat := by
    rw [hval]
    exact Nat.le_mul_of_pos_right _ (by omega)
  have hk : k < 256 := (Nat.pow_lt_pow_iff_right (by omega : 1 < 2)).mp (by omega)
  have hmle : m ≤ d.toNat := by
    rw [hval]
    exact Nat.le_mul_of_pos_left _ (Nat.two_pow_pos k)
  have hshift : d = BitVec.ofNat 256 m <<< k := by
    apply BitVec.eq_of_toNat_eq
    rw [BitVec.toNat_shiftLeft, BitVec.toNat_ofNat, Nat.mod_eq_of_lt (by omega : m < 2 ^ 256),
      Nat.shiftLeft_eq, Nat.mul_comm m, ← hval, Nat.mod_eq_of_lt hlt]
  have hbit : (BitVec.ofNat 256 m).getLsbD 0 = true := by
    rw [BitVec.getLsbD_ofNat, Nat.testBit_zero, hm]
    rfl
  refine ⟨k, m, hk, hm, hval, ?_⟩
  have hlow : lowestBit d = (1 : BitVec 256) <<< k := by
    unfold lowestBit
    rw [zero_sub, hshift, ← BitVec.shiftLeft_neg, ← BitVec.shiftLeft_and_distrib,
      neg_and_self_of_odd hbit]
  have hone : (1 : BitVec 256).toNat = 1 := rfl
  rw [hlow, BitVec.toNat_shiftLeft, hone, Nat.shiftLeft_eq, Nat.one_mul, Nat.mod_eq_of_lt]
  omega

/-! ## The division -/

/-- The words of the dividend without its remainder `r`. -/
def subRemainder (p0 p1 r : BitVec 256) : BitVec 256 × BitVec 256 :=
  (p0 - r, if r > p0 then p1 - 1 else p1)

theorem subRemainder_spec {p r : Nat} {rw : BitVec 256} (h0 : p0.toNat = p % 2 ^ 256)
    (h1 : p1.toNat = p / 2 ^ 256) (hr : rw.toNat = r) (hle : r ≤ p) :
    (subRemainder p0 p1 rw).1.toNat = (p - r) % 2 ^ 256 ∧
      (subRemainder p0 p1 rw).2.toNat = (p - r) / 2 ^ 256 := by
  have hlt := rw.isLt
  have hp1 := p1.isLt
  have hone : (1 : BitVec 256).toNat = 1 := rfl
  unfold subRemainder
  refine ⟨?_, ?_⟩
  · dsimp only
    rw [BitVec.toNat_sub, h0, hr]
    omega
  · dsimp only
    split
    · rename_i h
      rw [gt_iff_lt, BitVec.lt_def, h0, hr] at h
      rw [BitVec.toNat_sub, h1, hone]
      omega
    · rename_i h
      rw [gt_iff_lt, BitVec.lt_def, h0, hr] at h
      rw [h1]
      omega

/-- Two words shifted down by a power of two into one. -/
def joinWords (p0 p1 twos : BitVec 256) : BitVec 256 :=
  (p0 / twos) ||| (p1 * ((0 - twos) / twos + 1))

/-- The cofactor of a power of two in `2 ^ 256`, which wraps to zero for the power one. -/
theorem toNat_cofactor {twos : BitVec 256} (hk : k < 256) (h : twos.toNat = 2 ^ k) :
    ((0 - twos) / twos + 1).toNat = 2 ^ (256 - k) % 2 ^ 256 := by
  have hpos : 0 < 2 ^ (256 - k) := Nat.two_pow_pos _
  have hpos' : 0 < 2 ^ k := Nat.two_pow_pos _
  have hsplit : 2 ^ 256 = 2 ^ k * 2 ^ (256 - k) := by
    rw [Nat.mul_comm, Nat.pow_sub_mul_pow 2 hk.le]
  have hzero : (0 : BitVec 256).toNat = 0 := rfl
  have hone : (1 : BitVec 256).toNat = 1 := rfl
  have hlt : 2 ^ k < 2 ^ 256 := h ▸ twos.isLt
  have hneg : (0 - twos).toNat = 2 ^ 256 - 2 ^ k := by
    rw [BitVec.toNat_sub, h, hzero]
    omega
  have hquot : (2 ^ 256 - 2 ^ k) / 2 ^ k = 2 ^ (256 - k) - 1 := by
    calc (2 ^ 256 - 2 ^ k) / 2 ^ k = 2 ^ k * (2 ^ (256 - k) - 1) / 2 ^ k := by
          rw [Nat.mul_sub, ← hsplit, Nat.mul_one]
      _ = 2 ^ (256 - k) - 1 := Nat.mul_div_cancel_left _ hpos'
  rw [BitVec.toNat_add, BitVec.toNat_udiv, hneg, h, hone, hquot, Nat.sub_add_cancel hpos]

/-- The low word of a dividend divided by a power of two that divides it. -/
theorem toNat_joinWords {twos : BitVec 256} (hk : k < 256) (htwos : twos.toNat = 2 ^ k)
    (h0 : p0.toNat = 2 ^ k * n % 2 ^ 256) (h1 : p1.toNat = 2 ^ k * n / 2 ^ 256) :
    (joinWords p0 p1 twos).toNat = n % 2 ^ 256 := by
  have hpos : 0 < 2 ^ k := Nat.two_pow_pos _
  have hsplit : 2 ^ 256 = 2 ^ k * 2 ^ (256 - k) := by
    rw [Nat.mul_comm, Nat.pow_sub_mul_pow 2 hk.le]
  have hlow : p0.toNat / 2 ^ k = n % 2 ^ (256 - k) := by
    rw [h0, hsplit, Nat.mul_mod_mul_left, Nat.mul_div_cancel_left _ hpos]
  have hhigh : p1.toNat = n / 2 ^ (256 - k) := by
    rw [h1, hsplit, Nat.mul_div_mul_left _ _ hpos]
  have hmul : n / 2 ^ (256 - k) * (2 ^ (256 - k) % 2 ^ 256) % 2 ^ 256 =
      2 ^ (256 - k) * (n / 2 ^ (256 - k) % 2 ^ k) := by
    rw [Nat.mul_mod_mod, Nat.mul_comm, hsplit, Nat.mul_comm (2 ^ k), Nat.mul_mod_mul_left]
  have hlt : n % 2 ^ (256 - k) < 2 ^ (256 - k) := Nat.mod_lt _ (Nat.two_pow_pos _)
  unfold joinWords
  rw [BitVec.toNat_or, BitVec.toNat_udiv, BitVec.toNat_mul, toNat_cofactor hk htwos, htwos, hlow,
    hhigh, hmul, Nat.or_comm, ← Nat.two_pow_add_eq_or_of_lt hlt, Nat.add_comm, ← Nat.mod_mul,
    Nat.mul_comm, ← hsplit]

/-- The quotient from the words of the dividend and its remainder. -/
def quotient (p0 p1 r d : BitVec 256) : BitVec 256 :=
  joinWords (subRemainder p0 p1 r).1 (subRemainder p0 p1 r).2 (lowestBit d) *
    inverse (d / lowestBit d)

/-- **The division is exact** where the quotient is a word. -/
theorem toNat_quotient {p : Nat} {r : BitVec 256} (hd : d ≠ 0) (h0 : p0.toNat = p % 2 ^ 256)
    (h1 : p1.toNat = p / 2 ^ 256) (hr : r.toNat = p % d.toNat) (hlt : p / d.toNat < 2 ^ 256) :
    (quotient p0 p1 r d).toNat = p / d.toNat := by
  obtain ⟨k, m, hk, hm, hval, htwos⟩ := exists_lowestBit hd
  have hpos : 0 < 2 ^ k := Nat.two_pow_pos _
  obtain ⟨hs0, hs1⟩ := subRemainder_spec h0 h1 hr (Nat.mod_le _ _)
  have hdiv : p - p % d.toNat = 2 ^ k * (m * (p / d.toNat)) := by
    have := Nat.div_add_mod p d.toNat
    rw [← Nat.mul_assoc, ← hval]
    omega
  rw [hdiv] at hs0 hs1
  -- the odd part of the divisor
  have hodd : (d / lowestBit d).toNat = m := by
    rw [BitVec.toNat_udiv, htwos, hval, Nat.mul_div_cancel_left _ hpos]
  have hbit : (d / lowestBit d).getLsbD 0 = true := by
    rw [← BitVec.testBit_toNat, hodd, Nat.testBit_zero, hm]
    rfl
  have hjoin : joinWords (subRemainder p0 p1 r).1 (subRemainder p0 p1 r).2 (lowestBit d) =
      BitVec.ofNat 256 (p / d.toNat) * (d / lowestBit d) := by
    apply BitVec.eq_of_toNat_eq
    rw [toNat_joinWords hk htwos hs0 hs1, BitVec.toNat_mul, BitVec.toNat_ofNat,
      Nat.mod_eq_of_lt hlt, hodd, Nat.mul_comm]
  unfold quotient
  rw [hjoin, mul_assoc, mul_inverse hbit, mul_one, BitVec.toNat_ofNat, Nat.mod_eq_of_lt hlt]

end ArbitrageBot.Lib.WideDiv
