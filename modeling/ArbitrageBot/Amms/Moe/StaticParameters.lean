import ArbitrageBot.Amms.Moe.Volatility

/-!
# Setting the static fee parameters

`set_static_fee_parameters` clears the low 96 bits of the word and writes the seven static fields,
which take 112. The high 16 bits of the maximal volatility accumulator are therefore joined with the
old ones; every other field comes out as it should.
-/

namespace ArbitrageBot.Moe.PairParameterHelper

open Lib MoeParameters

/-- The static fields of a word. -/
structure StaticFee where
  baseFactor : Nat
  filterPeriod : Nat
  decayPeriod : Nat
  reductionFactor : Nat
  variableFeeControl : Nat
  protocolShare : Nat
  maxVolatilityAccumulator : Nat
  deriving DecidableEq, Repr

/-- The other fields. -/
structure DynamicFee where
  volatilityAccumulator : Nat
  volatilityReference : Nat
  idReference : Nat
  timeOfLastUpdate : Nat
  oracleId : Nat
  activeId : Nat
  deriving DecidableEq, Repr

def staticFee (params : U256) : StaticFee where
  baseFactor := getBaseFactor params
  filterPeriod := getFilterPeriod params
  decayPeriod := getDecayPeriod params
  reductionFactor := getReductionFactor params
  variableFeeControl := getVariableFeeControl params
  protocolShare := getProtocolShare params
  maxVolatilityAccumulator := getMaxVolatilityAccumulator params

def dynamicFee (params : U256) : DynamicFee where
  volatilityAccumulator := getVolatilityAccumulator params
  volatilityReference := getVolatilityReference params
  idReference := getIdReference params
  timeOfLastUpdate := getTimeOfLastUpdate params
  oracleId := getOracleId params
  activeId := getActiveId params

/-! ## The getters read fields -/

theorem decodeU12_eq (e : U256) (off : Nat) : Encoded.decodeU12 e off = take e 12 off :=
  limb0_and_mask (decode_field_lt (w := 12)) (by omega)

theorem decodeU14_eq (e : U256) (off : Nat) : Encoded.decodeU14 e off = take e 14 off :=
  limb0_and_mask (decode_field_lt (w := 14)) (by omega)

theorem decodeU40_eq (e : U256) (off : Nat) : Encoded.decodeU40 e off = take e 40 off :=
  limb0_and_mask (decode_field_lt (w := 40)) (by omega)

theorem staticFee_eq (params : U256) : staticFee params =
    ⟨take params 16 0, take params 12 16, take params 12 28, take params 14 40, take params 24 54,
      take params 14 78, take params 20 92⟩ := by
  unfold staticFee getBaseFactor getFilterPeriod getDecayPeriod getReductionFactor
    getVariableFeeControl getProtocolShare getMaxVolatilityAccumulator
  rw [moe_decodeU16, decodeU12_eq, decodeU12_eq, decodeU14_eq, moe_decodeU24, decodeU14_eq,
    moe_decodeU20]
  rfl

theorem dynamicFee_eq (params : U256) : dynamicFee params =
    ⟨take params 20 112, take params 20 132, take params 24 152, take params 40 176,
      take params 16 216, take params 24 232⟩ := by
  unfold dynamicFee getVolatilityAccumulator getVolatilityReference getIdReference
    getTimeOfLastUpdate getOracleId getActiveId
  rw [moe_decodeU20, moe_decodeU20, moe_decodeU24, decodeU40_eq, moe_decodeU16, moe_decodeU24]
  rfl

/-! ## The word that is stored -/

/-- The old word without its low 96 bits, and the fields. -/
def stored (params fields : U256) : U256 :=
  (params &&& ~~~(BitFields.mask 256 96)) ||| fields

variable {params fields e e' : U256} {i w off : Nat}

theorem getLsbD_stored : (stored params fields).getLsbD i =
    ((params.getLsbD i && decide (96 ≤ i)) || fields.getLsbD i) := by
  unfold stored
  rw [BitVec.getLsbD_or, BitVec.getLsbD_and, BitVec.getLsbD_not, BitFields.getLsbD_mask]
  by_cases hn : i < 256
  · by_cases h : i < 96
    · have : ¬ 96 ≤ i := by omega
      simp [hn, h, this]
    · have : 96 ≤ i := by omega
      simp [hn, h, this]
  · rw [BitVec.getLsbD_of_ge params i (by omega)]
    simp

theorem testBit_take :
    (take e w off).testBit i = (decide (i < w) && e.getLsbD (off + i)) := by
  unfold take
  rw [BitVec.testBit_toNat, BitFields.getLsbD_get, Bool.and_comm]

/-- A field is given by its bits. -/
theorem take_congr (h : ∀ i, off ≤ i → i < off + w → e.getLsbD i = e'.getLsbD i) :
    take e w off = take e' w off := by
  apply Nat.eq_of_testBit_eq
  intro i
  rw [testBit_take, testBit_take]
  by_cases hi : i < w
  · rw [h (off + i) (by omega) (by omega)]
  · simp [hi]

/-- Below the cleared bits a field is the new one. -/
theorem take_stored_low (hw : off + w ≤ 96) :
    take (stored params fields) w off = take fields w off := by
  apply take_congr
  intro i _ hi
  have : ¬ 96 ≤ i := by omega
  rw [getLsbD_stored]
  simp [this]

/-- A field that the new word leaves empty, above the cleared bits, is the old one. -/
theorem take_stored_high (hoff : 96 ≤ off)
    (hempty : ∀ i, off ≤ i → fields.getLsbD i = false) :
    take (stored params fields) w off = take params w off := by
  apply take_congr
  intro i hi _
  have : 96 ≤ i := by omega
  rw [getLsbD_stored, hempty i hi]
  simp [this]

/-- The field over the edge joins the old bits above it with the new ones. -/
theorem take_stored_eq_iff : take (stored params fields) 20 92 = take fields 20 92 ↔
    ∀ i, 4 ≤ i → (take params 20 92).testBit i = true → (take fields 20 92).testBit i = true := by
  constructor
  · intro h i hi hbit
    rw [← h, testBit_take, getLsbD_stored]
    rw [testBit_take, Bool.and_eq_true] at hbit
    have : 96 ≤ 92 + i := by omega
    simp only [hbit.1, hbit.2, this, decide_true, Bool.and_self, Bool.true_or]
  · intro h
    apply Nat.eq_of_testBit_eq
    intro i
    have himp := h i
    rw [testBit_take, testBit_take] at himp
    rw [testBit_take, testBit_take, getLsbD_stored]
    by_cases hi : i < 20
    · by_cases h4 : 4 ≤ i
      · have : 96 ≤ 92 + i := by omega
        cases hold : params.getLsbD (92 + i) with
        | false => simp
        | true =>
          rw [hold] at himp
          simp only [hi, h4, decide_true, Bool.true_and, forall_const] at himp
          simp [himp]
      · have : ¬ 96 ≤ 92 + i := by omega
        simp [this]
    · simp [hi]

/-! ## What the setter stores -/

/-- The word of the static fields. -/
def fieldsOf (f : StaticFee) : U256 :=
  put (put (put (put (put (put (put 0 f.baseFactor 16 0) f.filterPeriod 12 16)
    f.decayPeriod 12 28) f.reductionFactor 14 40) f.variableFeeControl 24 54)
    f.protocolShare 14 78) f.maxVolatilityAccumulator 20 92

/-- What the fields of a static fee hold, as their types and the checks of the setter bound it. -/
structure StaticFee.InRange (f : StaticFee) : Prop where
  baseFactor : f.baseFactor < 2 ^ 16
  filterPeriod : f.filterPeriod < 2 ^ 12
  decayPeriod : f.decayPeriod < 2 ^ 12
  reductionFactor : f.reductionFactor < 2 ^ 14
  variableFeeControl : f.variableFeeControl < 2 ^ 24
  protocolShare : f.protocolShare < 2 ^ 14
  maxVolatilityAccumulator : f.maxVolatilityAccumulator < 2 ^ 20

theorem getLsbD_put_of_ge {v : Nat} (h : off + w ≤ i) :
    (put e v w off).getLsbD i = e.getLsbD i := by
  unfold put
  rw [BitFields.getLsbD_set, if_neg (by omega)]

/-- Nothing is written above the static fields. -/
theorem fieldsOf_empty {f : StaticFee} (h : 112 ≤ i) : (fieldsOf f).getLsbD i = false := by
  unfold fieldsOf
  rw [getLsbD_put_of_ge (by omega), getLsbD_put_of_ge (by omega), getLsbD_put_of_ge (by omega),
    getLsbD_put_of_ge (by omega), getLsbD_put_of_ge (by omega), getLsbD_put_of_ge (by omega),
    getLsbD_put_of_ge (by omega)]
  exact BitVec.getLsbD_zero

theorem staticFee_fieldsOf {f : StaticFee} (h : f.InRange) : staticFee (fieldsOf f) = f := by
  have hbase : take (fieldsOf f) 16 0 = f.baseFactor := by
    unfold fieldsOf
    rw [take_put_of_disjoint (by omega), take_put_of_disjoint (by omega),
      take_put_of_disjoint (by omega), take_put_of_disjoint (by omega),
      take_put_of_disjoint (by omega), take_put_of_disjoint (by omega),
      take_put (by omega) h.baseFactor]
  have hfilter : take (fieldsOf f) 12 16 = f.filterPeriod := by
    unfold fieldsOf
    rw [take_put_of_disjoint (by omega), take_put_of_disjoint (by omega),
      take_put_of_disjoint (by omega), take_put_of_disjoint (by omega),
      take_put_of_disjoint (by omega), take_put (by omega) h.filterPeriod]
  have hdecay : take (fieldsOf f) 12 28 = f.decayPeriod := by
    unfold fieldsOf
    rw [take_put_of_disjoint (by omega), take_put_of_disjoint (by omega),
      take_put_of_disjoint (by omega), take_put_of_disjoint (by omega),
      take_put (by omega) h.decayPeriod]
  have hreduction : take (fieldsOf f) 14 40 = f.reductionFactor := by
    unfold fieldsOf
    rw [take_put_of_disjoint (by omega), take_put_of_disjoint (by omega),
      take_put_of_disjoint (by omega), take_put (by omega) h.reductionFactor]
  have hcontrol : take (fieldsOf f) 24 54 = f.variableFeeControl := by
    unfold fieldsOf
    rw [take_put_of_disjoint (by omega), take_put_of_disjoint (by omega),
      take_put (by omega) h.variableFeeControl]
  have hshare : take (fieldsOf f) 14 78 = f.protocolShare := by
    unfold fieldsOf
    rw [take_put_of_disjoint (by omega), take_put (by omega) h.protocolShare]
  have hmax : take (fieldsOf f) 20 92 = f.maxVolatilityAccumulator :=
    take_put (by omega) h.maxVolatilityAccumulator
  rw [staticFee_eq, hbase, hfilter, hdecay, hreduction, hcontrol, hshare, hmax]

theorem dynamicFee_stored {f : StaticFee} :
    dynamicFee (stored params (fieldsOf f)) = dynamicFee params := by
  have hempty : ∀ i, 112 ≤ i → (fieldsOf f).getLsbD i = false := fun _ => fieldsOf_empty
  rw [dynamicFee_eq, dynamicFee_eq,
    take_stored_high (by omega) fun i hi => hempty i (by omega),
    take_stored_high (by omega) fun i hi => hempty i (by omega),
    take_stored_high (by omega) fun i hi => hempty i (by omega),
    take_stored_high (by omega) fun i hi => hempty i (by omega),
    take_stored_high (by omega) fun i hi => hempty i (by omega),
    take_stored_high (by omega) fun i hi => hempty i (by omega)]

/-- The static fields of the stored word: all but the last are the new ones. -/
theorem staticFee_stored {f : StaticFee} (h : f.InRange) :
    staticFee (stored params (fieldsOf f)) =
      { f with maxVolatilityAccumulator := take (stored params (fieldsOf f)) 20 92 } := by
  have hfields := staticFee_fieldsOf h
  rw [staticFee_eq] at hfields
  rw [staticFee_eq, take_stored_low (by omega), take_stored_low (by omega),
    take_stored_low (by omega), take_stored_low (by omega), take_stored_low (by omega),
    take_stored_low (by omega)]
  exact congrArg (fun g : StaticFee =>
    { g with maxVolatilityAccumulator := take (stored params (fieldsOf f)) 20 92 }) hfields

/-- The setter stores the fields it accepts. -/
theorem setStaticFeeParameters_eq_ok {p : U256} {f : StaticFee}
    (hbase : f.baseFactor < 2 ^ 16) (hcontrol : f.variableFeeControl < 2 ^ 24)
    (h : setStaticFeeParameters params f.baseFactor f.filterPeriod f.decayPeriod f.reductionFactor
      f.variableFeeControl f.protocolShare f.maxVolatilityAccumulator = .ok p) :
    f.InRange ∧ p = stored params (fieldsOf f) := by
  have h12 : limb0 Encoded.MASK_UINT12 = 2 ^ 12 - 1 := rfl
  have h20 : limb0 Encoded.MASK_UINT20 = 2 ^ 20 - 1 := rfl
  unfold setStaticFeeParameters BASIS_POINT_MAX_U128 MAX_PROTOCOL_SHARE at h
  rw [h12, h20] at h
  split at h
  · cases h
  · rename_i hchecks
    cases h
    refine ⟨⟨hbase, ?_, ?_, ?_, hcontrol, ?_, ?_⟩, rfl⟩
    · omega
    · omega
    · omega
    · omega
    · omega

/-- The setter writes the static fields and no others exactly when the old maximal accumulator has
no bit from the fourth on that the new one lacks. -/
theorem setStaticFeeParameters_writes_iff {p : U256} {baseFactor filterPeriod decayPeriod
    reductionFactor variableFeeControl protocolShare maxVolatilityAccumulator : Nat}
    (hbase : baseFactor < 2 ^ 16) (hcontrol : variableFeeControl < 2 ^ 24)
    (h : setStaticFeeParameters params baseFactor filterPeriod decayPeriod reductionFactor
      variableFeeControl protocolShare maxVolatilityAccumulator = .ok p) :
    (staticFee p = ⟨baseFactor, filterPeriod, decayPeriod, reductionFactor, variableFeeControl,
        protocolShare, maxVolatilityAccumulator⟩ ∧
      dynamicFee p = dynamicFee params) ↔
    ∀ i, 4 ≤ i → (getMaxVolatilityAccumulator params).testBit i = true →
      maxVolatilityAccumulator.testBit i = true := by
  obtain ⟨hrange, rfl⟩ := setStaticFeeParameters_eq_ok (f := ⟨baseFactor, filterPeriod, decayPeriod,
    reductionFactor, variableFeeControl, protocolShare, maxVolatilityAccumulator⟩) hbase hcontrol h
  generalize hf : (⟨baseFactor, filterPeriod, decayPeriod, reductionFactor, variableFeeControl,
    protocolShare, maxVolatilityAccumulator⟩ : StaticFee) = f at hrange ⊢
  have hmax : maxVolatilityAccumulator = f.maxVolatilityAccumulator := by rw [← hf]
  have hnew : take (fieldsOf f) 20 92 = f.maxVolatilityAccumulator :=
    take_put (by omega) hrange.maxVolatilityAccumulator
  have hold : getMaxVolatilityAccumulator params = take params 20 92 := moe_decodeU20 _
  have hiff := @take_stored_eq_iff params (fieldsOf f)
  rw [hnew] at hiff
  rw [hmax, hold, ← hiff, staticFee_stored hrange]
  constructor
  · exact fun h => congrArg StaticFee.maxVolatilityAccumulator h.1
  · intro hkept
    rw [hkept]
    exact ⟨rfl, dynamicFee_stored⟩

/-- Lowering the maximal accumulator from 16 to 0 leaves it at 16. -/
theorem setStaticFeeParameters_keeps_bit :
    ¬ ∀ (params p : U256) (maxVolatilityAccumulator : Nat),
      setStaticFeeParameters params 0 0 0 0 0 0 maxVolatilityAccumulator = .ok p →
        getMaxVolatilityAccumulator p = maxVolatilityAccumulator := by
  intro h
  have hkept := h (put 0 16 20 92) (put 0 16 20 92) 0 (by decide)
  revert hkept
  decide

/-- The parameters of a pair that has been traded, with the maximal accumulator 327680. -/
def tradedParameters : U256 :=
  fieldsOf ⟨8000, 10, 120, 4000, 30000, 500, 327680⟩ ||| 12345#256 <<< 112 ||| 6000#256 <<< 132 |||
    8388601#256 <<< 152 ||| 1700000000#256 <<< 176 ||| 8388608#256 <<< 232

/-- The new maximal accumulator has the two bits of the old one. -/
theorem setStaticFeeParameters_writes_iff_tradedParameters :
    ∃ p, setStaticFeeParameters tradedParameters 5000 30 600 5000 40000 1000 350000 = .ok p ∧
      ((staticFee p = ⟨5000, 30, 600, 5000, 40000, 1000, 350000⟩ ∧
          dynamicFee p = dynamicFee tradedParameters) ↔
        ∀ i, 4 ≤ i → (getMaxVolatilityAccumulator tradedParameters).testBit i = true →
          Nat.testBit 350000 i = true) :=
  ⟨_, rfl, setStaticFeeParameters_writes_iff (by omega) (by omega) rfl⟩

end ArbitrageBot.Moe.PairParameterHelper
