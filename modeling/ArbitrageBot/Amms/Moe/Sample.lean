import ArbitrageBot.Amms.Moe.StaticParameters

/-!
# Oracle samples

A sample packs three cumulative values of 64 bits. The weighted average of two samples is computed
in `u64`, where the contract has words of 256 bits: it is exact as long as the weighted sums stay
below `2 ^ 64` (`getWeightedAverage_exact_iff`).
-/

namespace ArbitrageBot.Moe.SampleMath

open Lib Encoded MoeParameters

abbrev Sample := U256

def OFFSET_ORACLE_LENGTH : Nat := 0
def OFFSET_CUMULATIVE_ID : Nat := 16
def OFFSET_CUMULATIVE_VOLATILITY : Nat := 80
def OFFSET_CUMULATIVE_BIN_CROSSED : Nat := 144
def OFFSET_SAMPLE_LIFETIME : Nat := 208
def OFFSET_SAMPLE_CREATION : Nat := 216

def encode (oracleLength cumulativeId cumulativeVolatility cumulativeBinCrossed sampleLifetime
    createdAt : Nat) : Sample :=
  let sample := set 0 (BitVec.ofNat 256 oracleLength) MASK_UINT16 OFFSET_ORACLE_LENGTH
  let sample := set sample (BitVec.ofNat 256 cumulativeId) MASK_UINT64 OFFSET_CUMULATIVE_ID
  let sample := set sample (BitVec.ofNat 256 cumulativeVolatility) MASK_UINT64
    OFFSET_CUMULATIVE_VOLATILITY
  let sample := set sample (BitVec.ofNat 256 cumulativeBinCrossed) MASK_UINT64
    OFFSET_CUMULATIVE_BIN_CROSSED
  let sample := set sample (BitVec.ofNat 256 sampleLifetime) MASK_UINT8 OFFSET_SAMPLE_LIFETIME
  set sample (BitVec.ofNat 256 createdAt) MASK_UINT40 OFFSET_SAMPLE_CREATION

def getCumulativeId (sample : Sample) : Nat := decodeU64 sample OFFSET_CUMULATIVE_ID

def getCumulativeVolatility (sample : Sample) : Nat :=
  decodeU64 sample OFFSET_CUMULATIVE_VOLATILITY

def getCumulativeBinCrossed (sample : Sample) : Nat :=
  decodeU64 sample OFFSET_CUMULATIVE_BIN_CROSSED

variable (prof : BuildProfile)

/-- `(c1 * weight1 + c2 * weight2) / total_weight` on `u64`. -/
def weighted (c1 c2 weight1 weight2 totalWeight : Nat) : MathOutcome Nat := do
  let product1 ← prof.unsigned 64 (c1 * weight1)
  let product2 ← prof.unsigned 64 (c2 * weight2)
  let sum ← prof.unsigned 64 (product1 + product2)
  if totalWeight = 0 then .error .panic else return sum / totalWeight

def getWeightedAverage (sample1 sample2 : Sample) (weight1 weight2 : Nat) :
    MathOutcome (Nat × Nat × Nat) := do
  let cId1 := getCumulativeId sample1
  let cVol1 := getCumulativeVolatility sample1
  let cBin1 := getCumulativeBinCrossed sample1
  if weight2 = 0 then return (cId1, cVol1, cBin1)
  let cId2 := getCumulativeId sample2
  let cVol2 := getCumulativeVolatility sample2
  let cBin2 := getCumulativeBinCrossed sample2
  if weight1 = 0 then return (cId2, cVol2, cBin2)
  let totalWeight ← prof.unsigned 64 (weight1 + weight2)
  let weightedId ← weighted prof cId1 cId2 weight1 weight2 totalWeight
  let weightedVol ← weighted prof cVol1 cVol2 weight1 weight2 totalWeight
  let weightedBin ← weighted prof cBin1 cBin2 weight1 weight2 totalWeight
  return (weightedId, weightedVol, weightedBin)

/-! ## The fields of a sample -/

theorem decodeU64_eq (e : U256) (off : Nat) : decodeU64 e off = take e 64 off := by
  have hlt : take e 64 off < 2 ^ 64 := decode_field_lt (w := 64)
  have hread : decodeU64 e off = take e 64 off % 2 ^ 64 := rfl
  rw [hread, Nat.mod_eq_of_lt hlt]

/-! ## The average -/

/-- The average over unbounded integers, rounded down. -/
def mean (c1 c2 weight1 weight2 : Nat) : Nat := (c1 * weight1 + c2 * weight2) / (weight1 + weight2)

variable {prof} {c1 c2 weight1 weight2 : Nat} {sample1 sample2 : Sample}

theorem mean_of_weight2_zero (hne : weight1 ≠ 0) : mean c1 c2 weight1 0 = c1 := by
  unfold mean
  rw [Nat.mul_zero, Nat.add_zero, Nat.add_zero, Nat.mul_div_cancel _ (Nat.pos_of_ne_zero hne)]

theorem mean_of_weight1_zero (hne : weight2 ≠ 0) : mean c1 c2 0 weight2 = c2 := by
  unfold mean
  rw [Nat.mul_zero, Nat.zero_add, Nat.zero_add, Nat.mul_div_cancel _ (Nat.pos_of_ne_zero hne)]

/-- An average lies between its two values. -/
theorem mean_between (hne : weight1 ≠ 0 ∨ weight2 ≠ 0) :
    min c1 c2 ≤ mean c1 c2 weight1 weight2 ∧ mean c1 c2 weight1 weight2 ≤ max c1 c2 := by
  have hpos : 0 < weight1 + weight2 := by omega
  constructor
  · apply (Nat.le_div_iff_mul_le hpos).mpr
    rw [Nat.mul_add]
    exact Nat.add_le_add (Nat.mul_le_mul_right _ (Nat.min_le_left c1 c2))
      (Nat.mul_le_mul_right _ (Nat.min_le_right c1 c2))
  · apply Nat.div_le_of_le_mul
    rw [Nat.add_mul, Nat.mul_comm c1, Nat.mul_comm c2]
    exact Nat.add_le_add (Nat.mul_le_mul_left _ (Nat.le_max_left c1 c2))
      (Nat.mul_le_mul_left _ (Nat.le_max_right c1 c2))

/-- A quotient survives the loss of the high bits of its numerator only if there are none. -/
theorem mod_div_eq_iff {s w m : Nat} (hpos : 0 < w) (hle : w ≤ m) :
    s % m / w = s / w ↔ s < m := by
  constructor
  · intro h
    by_contra hge
    have hsub : s % m + w ≤ s := by
      have hsplit := Nat.mod_add_div s m
      have hquot : 0 < s / m := Nat.div_pos (Nat.le_of_not_lt hge) (by omega)
      have hmul : m * 1 ≤ m * (s / m) := Nat.mul_le_mul_left m hquot
      omega
    have hlt : s % m / w < s / w := by
      calc s % m / w < s % m / w + 1 := Nat.lt_succ_self _
        _ = (s % m + w) / w := (Nat.add_div_right _ hpos).symm
        _ ≤ s / w := Nat.div_le_div_right hsub
    omega
  · intro h
    rw [Nat.mod_eq_of_lt h]

/-- One component is exact as long as its weighted sum fits in a `u64`. -/
theorem weighted_exact_iff (hpos : 0 < weight1 + weight2) (hlt : weight1 + weight2 ≤ 2 ^ 64) :
    weighted prof c1 c2 weight1 weight2 (weight1 + weight2) = .ok (mean c1 c2 weight1 weight2) ↔
      c1 * weight1 + c2 * weight2 < 2 ^ 64 := by
  constructor
  · intro h
    unfold weighted at h
    simp only [bind_eq_ok] at h
    obtain ⟨product1, hproduct1, product2, hproduct2, sum, hsum, h⟩ := h
    have hsum' : sum = (c1 * weight1 + c2 * weight2) % 2 ^ 64 := by
      have h1 := BuildProfile.unsigned_eq_ok (k := c1 * weight1) (by exact_mod_cast hproduct1)
      have h2 := BuildProfile.unsigned_eq_ok (k := c2 * weight2) (by exact_mod_cast hproduct2)
      have h3 := BuildProfile.unsigned_eq_ok (k := product1 + product2) (by exact_mod_cast hsum)
      rw [h3, h1, h2, ← Nat.add_mod]
    rw [if_neg (by omega), hsum'] at h
    exact (mod_div_eq_iff hpos hlt).mp (Except.ok.inj h)
  · intro h
    have hfits : ∀ x : Nat, x < 2 ^ 64 →
        (prof.unsigned 64 x : MathOutcome Nat) = .ok x := by
      intro x hx
      rw [BuildProfile.unsigned_of_range (by omega) (by exact_mod_cast hx), Int.toNat_natCast]
    have h1 := hfits (c1 * weight1) (by omega)
    have h2 := hfits (c2 * weight2) (by omega)
    have h3 := hfits (c1 * weight1 + c2 * weight2) h
    push_cast at h1 h2 h3
    unfold weighted
    rw [h1, ok_bind, h2, ok_bind]
    push_cast
    rw [h3, ok_bind, if_neg (by omega)]
    rfl

/-- `result` is the average of the two values, and so lies between them. -/
def IsMean (c1 c2 weight1 weight2 result : Nat) : Prop :=
  result = mean c1 c2 weight1 weight2 ∧ min c1 c2 ≤ result ∧ result ≤ max c1 c2

/-- The call returns, and every component is the average of the two fields. -/
def Averages (prof : BuildProfile) (sample1 sample2 : Sample) (weight1 weight2 : Nat) : Prop :=
  ∃ id vol bin, getWeightedAverage prof sample1 sample2 weight1 weight2 = .ok (id, vol, bin) ∧
    IsMean (getCumulativeId sample1) (getCumulativeId sample2) weight1 weight2 id ∧
    IsMean (getCumulativeVolatility sample1) (getCumulativeVolatility sample2) weight1 weight2 vol ∧
    IsMean (getCumulativeBinCrossed sample1) (getCumulativeBinCrossed sample2) weight1 weight2 bin

/-- The three weighted sums stay in `u64`. -/
def SumsFit (sample1 sample2 : Sample) (weight1 weight2 : Nat) : Prop :=
  getCumulativeId sample1 * weight1 + getCumulativeId sample2 * weight2 < 2 ^ 64 ∧
  getCumulativeVolatility sample1 * weight1 + getCumulativeVolatility sample2 * weight2 < 2 ^ 64 ∧
  getCumulativeBinCrossed sample1 * weight1 + getCumulativeBinCrossed sample2 * weight2 < 2 ^ 64

/-- The interval comes with the average. -/
theorem averages_iff (hne : weight1 ≠ 0 ∨ weight2 ≠ 0) :
    Averages prof sample1 sample2 weight1 weight2 ↔
      getWeightedAverage prof sample1 sample2 weight1 weight2 = .ok
        (mean (getCumulativeId sample1) (getCumulativeId sample2) weight1 weight2,
          mean (getCumulativeVolatility sample1) (getCumulativeVolatility sample2) weight1 weight2,
          mean (getCumulativeBinCrossed sample1) (getCumulativeBinCrossed sample2) weight1
            weight2) := by
  constructor
  · rintro ⟨id, vol, bin, hok, ⟨rfl, -⟩, ⟨rfl, -⟩, ⟨rfl, -⟩⟩
    exact hok
  · intro hok
    exact ⟨_, _, _, hok, ⟨rfl, mean_between hne⟩, ⟨rfl, mean_between hne⟩, ⟨rfl, mean_between hne⟩⟩

/-- Without a zero weight the three components are computed. -/
theorem getWeightedAverage_of_weights (h1 : weight1 ≠ 0) (h2 : weight2 ≠ 0)
    (hlt : weight1 + weight2 < 2 ^ 64) :
    getWeightedAverage prof sample1 sample2 weight1 weight2 = (do
      let id ← weighted prof (getCumulativeId sample1) (getCumulativeId sample2) weight1 weight2
        (weight1 + weight2)
      let vol ← weighted prof (getCumulativeVolatility sample1) (getCumulativeVolatility sample2)
        weight1 weight2 (weight1 + weight2)
      let bin ← weighted prof (getCumulativeBinCrossed sample1) (getCumulativeBinCrossed sample2)
        weight1 weight2 (weight1 + weight2)
      return (id, vol, bin)) := by
  have htotal : (prof.unsigned 64 ((weight1 : Int) + weight2) : MathOutcome Nat) =
      .ok (weight1 + weight2) := by
    rw [BuildProfile.unsigned_of_range (by omega) (by exact_mod_cast hlt)]
    rfl
  unfold getWeightedAverage
  dsimp only
  rw [if_neg h2, if_neg h1, htotal, ok_bind]

/-- **The average is exact as long as the weighted sums fit in a `u64`**, or a weight is zero. -/
theorem getWeightedAverage_exact_iff (prof : BuildProfile) (sample1 sample2 : Sample)
    (weight1 weight2 : Nat) (h1 : weight1 < 2 ^ 40) (h2 : weight2 < 2 ^ 40)
    (hne : weight1 ≠ 0 ∨ weight2 ≠ 0) :
    Averages prof sample1 sample2 weight1 weight2 ↔
      weight1 = 0 ∨ weight2 = 0 ∨ SumsFit sample1 sample2 weight1 weight2 := by
  rw [averages_iff hne]
  by_cases hzero2 : weight2 = 0
  · subst hzero2
    have hne1 : weight1 ≠ 0 := by omega
    rw [mean_of_weight2_zero hne1, mean_of_weight2_zero hne1, mean_of_weight2_zero hne1]
    exact iff_of_true rfl (.inr (.inl rfl))
  by_cases hzero1 : weight1 = 0
  · subst hzero1
    rw [mean_of_weight1_zero hzero2, mean_of_weight1_zero hzero2, mean_of_weight1_zero hzero2]
    unfold getWeightedAverage
    dsimp only
    rw [if_neg hzero2]
    exact iff_of_true rfl (.inl rfl)
  rw [getWeightedAverage_of_weights hzero1 hzero2 (by omega)]
  have hiff : ∀ c1 c2, weighted prof c1 c2 weight1 weight2 (weight1 + weight2) =
      .ok (mean c1 c2 weight1 weight2) ↔ c1 * weight1 + c2 * weight2 < 2 ^ 64 :=
    fun c1 c2 => weighted_exact_iff (by omega) (by omega)
  unfold SumsFit
  rw [or_iff_right hzero1, or_iff_right hzero2, ← hiff, ← hiff, ← hiff]
  constructor
  · intro h
    simp only [bind_eq_ok] at h
    obtain ⟨id, hid, vol, hvol, bin, hbin, h⟩ := h
    cases h
    exact ⟨hid, hvol, hbin⟩
  · rintro ⟨hid, hvol, hbin⟩
    rw [hid, hvol, hbin]
    rfl

theorem getWeightedAverage_exact_of_units :
    Averages ⟨true⟩ (encode 0 10 20 30 0 0) (encode 0 20 40 60 0 0) 1 1 ↔
      1 = 0 ∨ 1 = 0 ∨ SumsFit (encode 0 10 20 30 0 0) (encode 0 20 40 60 0 0) 1 1 :=
  getWeightedAverage_exact_iff ⟨true⟩ _ _ 1 1 (by omega) (by omega) (by omega)

/-- Two samples of a pair that stood at its middle id for three years, each weighted with a day. -/
theorem getWeightedAverage_overflows : ¬ ∀ (prof : BuildProfile) (sample1 sample2 : Sample)
    (weight1 weight2 : Nat), weight1 < 2 ^ 40 → weight2 < 2 ^ 40 → weight1 ≠ 0 ∨ weight2 ≠ 0 →
      Averages prof sample1 sample2 weight1 weight2 := by
  intro h
  obtain ⟨id, vol, bin, hok, -⟩ := h ⟨true⟩ (encode 0 838860800000000 0 0 0 0)
    (encode 0 838860800000000 0 0 0 0) 86400 86400 (by omega) (by omega) (by omega)
  have hpanic : getWeightedAverage ⟨true⟩ (encode 0 838860800000000 0 0 0 0)
      (encode 0 838860800000000 0 0 0 0) 86400 86400 = .error .panic := by decide +kernel
  rw [hpanic] at hok
  cases hok

end ArbitrageBot.Moe.SampleMath
