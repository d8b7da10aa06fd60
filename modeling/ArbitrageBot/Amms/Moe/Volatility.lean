import ArbitrageBot.Amms.Moe.Port

/-!
# The packed and the unpacked volatility state

`pair_parameter_helper` updates the volatility fields of a packed word, `Parameters` the fields of a
struct. A struct whose fields are in range stands for one word (`word`); every setter of the packed
form writes a field of the struct, so that the updates of both forms agree
(`updateVolatilityParameters_refines`).
-/

namespace ArbitrageBot

open Lib

namespace Moe

namespace Encoded

def MASK_UINT8 : U256 := 0xff#256
def MASK_UINT40 : U256 := 0xffffffffff#256
def MASK_UINT64 : U256 := 0xffffffffffffffff#256

def decodeU12 (encoded : U256) (offset : Nat) : Nat :=
  limb0 (decode encoded MASK_UINT12 offset) &&& 0xfff

def decodeU14 (encoded : U256) (offset : Nat) : Nat :=
  limb0 (decode encoded MASK_UINT14 offset) &&& 0x3fff

def decodeU40 (encoded : U256) (offset : Nat) : Nat :=
  limb0 (decode encoded MASK_UINT40 offset) &&& 0xffffffffff

def decodeU64 (encoded : U256) (offset : Nat) : Nat :=
  limb0 (decode encoded MASK_UINT64 offset)

end Encoded

namespace PairParameterHelper

open Encoded

def OFFSET_TIME_LAST_UPDATE : Nat := 176
def OFFSET_ORACLE_ID : Nat := 216

def getFilterPeriod (params : U256) : Nat := decodeU12 params OFFSET_FILTER_PERIOD

def getDecayPeriod (params : U256) : Nat := decodeU12 params OFFSET_DECAY_PERIOD

def getReductionFactor (params : U256) : Nat := decodeU14 params OFFSET_REDUCTION_FACTOR

def getProtocolShare (params : U256) : Nat := decodeU14 params OFFSET_PROTOCOL_SHARE

def getMaxVolatilityAccumulator (params : U256) : Nat := decodeU20 params OFFSET_MAX_VOL_ACC

def getVolatilityReference (params : U256) : Nat := decodeU20 params OFFSET_VOL_REF

def getIdReference (params : U256) : Nat := decodeU24 params OFFSET_ID_REF

def getTimeOfLastUpdate (params : U256) : Nat := decodeU40 params OFFSET_TIME_LAST_UPDATE

def getOracleId (params : U256) : Nat := decodeU16 params OFFSET_ORACLE_ID

def getActiveId (params : U256) : Nat := decodeU24 params OFFSET_ACTIVE_ID

def updateIdReference (params : U256) : U256 :=
  let active := getActiveId params
  set params (BitVec.ofNat 256 active) MASK_UINT24 OFFSET_ID_REF

def updateTimeOfLastUpdate (params : U256) (timestamp : Nat) : U256 :=
  let value := min timestamp (limb0 MASK_UINT40)
  set params (BitVec.ofNat 256 value) MASK_UINT40 OFFSET_TIME_LAST_UPDATE

/-- The product of two fields fits `u64`, and the reference `u32`. -/
def updateVolatilityReference (params : U256) : MathOutcome U256 :=
  let volAcc := getVolatilityAccumulator params
  let reductionFactor := getReductionFactor params
  let value := volAcc * reductionFactor / BASIS_POINT_MAX_U128
  setVolatilityReference params (value % 2 ^ 32)

def updateVolatilityAccumulator (params : U256) (activeId : Nat) : MathOutcome U256 :=
  let idReference := getIdReference params
  let delta := if activeId > idReference then activeId - idReference else idReference - activeId
  let volAcc := getVolatilityReference params + delta * BASIS_POINT_MAX_U128
  let maxVolAcc := getMaxVolatilityAccumulator params
  let volAcc := if volAcc > maxVolAcc then maxVolAcc else volAcc
  setVolatilityAccumulator params (volAcc % 2 ^ 32)

def updateReferences (params : U256) (timestamp : Nat) : MathOutcome U256 := do
  let lastUpdate := getTimeOfLastUpdate params
  let dt := timestamp - lastUpdate
  let filterPeriod := getFilterPeriod params
  let decayPeriod := getDecayPeriod params
  let params ← if dt ≥ filterPeriod then
      let params := updateIdReference params
      if dt < decayPeriod then updateVolatilityReference params
      else setVolatilityReference params 0
    else pure params
  return updateTimeOfLastUpdate params timestamp

def updateVolatilityParameters (params : U256) (activeId timestamp : Nat) : MathOutcome U256 := do
  let params ← updateReferences params timestamp
  updateVolatilityAccumulator params activeId

end PairParameterHelper

end Moe

namespace MoeParameters

open Moe.PairParameterHelper

/-- The fields in a zero word: as `pack` writes them, and the time of the last update. -/
def encode (self : MoeParameters) : Moe.MathOutcome U256 := do
  let p ← self.pack
  return updateTimeOfLastUpdate p self.timeOfLastUpdate

/-- The fields are in the ranges that the setters check or that their widths leave. -/
structure InRange (mp : MoeParameters) : Prop where
  baseFactor : mp.baseFactor < 2 ^ 16
  filterPeriod : mp.filterPeriod ≤ mp.decayPeriod
  decayPeriod : mp.decayPeriod ≤ 4095
  reductionFactor : mp.reductionFactor ≤ 10000
  variableFeeControl : mp.variableFeeControl < 2 ^ 24
  protocolShare : mp.protocolShare ≤ 2500
  maxVolatilityAccumulator : mp.maxVolatilityAccumulator < 2 ^ 20
  volatilityAccumulator : mp.volatilityAccumulator < 2 ^ 20
  volatilityReference : mp.volatilityReference < 2 ^ 20
  idReference : mp.idReference < 2 ^ 24
  timeOfLastUpdate : mp.timeOfLastUpdate < 2 ^ 32
  activeId : mp.activeId < 2 ^ 24

/-! ## The word of a struct -/

/-- A field of a word. -/
def put (e : U256) (v w off : Nat) : U256 :=
  BitFields.set e (BitVec.ofNat 256 v) (BitFields.mask 256 w) off

/-- The value of a field. -/
def take (e : U256) (w off : Nat) : Nat :=
  (BitFields.get e (BitFields.mask 256 w) off).toNat

section Fields

variable {e : U256} {v v' w w' off off' : Nat}

theorem put_put : put (put e v w off) v' w off = put e v' w off :=
  BitFields.set_set_same

/-- A field under another one is written first. -/
theorem put_under {e' : U256} (h : off + w ≤ off' ∨ off' + w' ≤ off)
    (hput : put e v' w' off' = e') : put (put e v w off) v' w' off' = put e' v w off := by
  rw [← hput]
  exact BitFields.set_comm_of_disjoint h

theorem take_put (hoff : off + w ≤ 256) (hv : v < 2 ^ w) : take (put e v w off) w off = v := by
  have hle : 2 ^ w ≤ 2 ^ 256 := Nat.pow_le_pow_right (by omega) (by omega)
  unfold take put
  rw [BitFields.toNat_get_set_same hoff, BitVec.toNat_ofNat,
    Nat.mod_eq_of_lt (Nat.lt_of_lt_of_le hv hle), Nat.mod_eq_of_lt hv]

theorem take_put_of_disjoint (h : off + w ≤ off' ∨ off' + w' ≤ off) :
    take (put e v w off) w' off' = take e w' off' :=
  congrArg BitVec.toNat (BitFields.get_set_of_disjoint h)

end Fields

/-- The static fields of the word. -/
def staticWord (mp : MoeParameters) : U256 :=
  put (put (put (put (put (put (put 0 mp.baseFactor 16 0) mp.filterPeriod 12 16)
    mp.decayPeriod 12 28) mp.reductionFactor 14 40) mp.variableFeeControl 24 54)
    mp.protocolShare 14 78) mp.maxVolatilityAccumulator 20 92

/-- The word that stands for the struct. -/
def word (mp : MoeParameters) : U256 :=
  put (put (put (put (put mp.staticWord mp.activeId 24 232) mp.volatilityAccumulator 20 112)
    mp.volatilityReference 20 132) mp.idReference 24 152) mp.timeOfLastUpdate 40 176

variable {mp : MoeParameters} {n id timestamp : Nat}

theorem InRange.encode_eq_ok (h : mp.InRange) : mp.encode = .ok mp.word := by
  have h12 : Moe.limb0 Moe.Encoded.MASK_UINT12 = 2 ^ 12 - 1 := rfl
  have h20 : Moe.limb0 Moe.Encoded.MASK_UINT20 = 2 ^ 20 - 1 := rfl
  have h40 : Moe.limb0 Moe.Encoded.MASK_UINT40 = 2 ^ 40 - 1 := rfl
  obtain ⟨-, hfilter, hdecay, hreduction, -, hshare, hmax, hacc, href, -, htime, -⟩ := h
  unfold encode pack setStaticFeeParameters setVolatilityAccumulator setVolatilityReference
    updateTimeOfLastUpdate Moe.BASIS_POINT_MAX_U128 Moe.MAX_PROTOCOL_SHARE
  rw [h12, h20, h40, if_neg (by omega), ok_bind]
  dsimp only
  rw [if_neg (by omega), ok_bind, if_neg (by omega), ok_bind]
  have hclear : ∀ x y : U256, 0 &&& x ||| y = y := by
    intro x y
    simp
  rw [hclear, Nat.min_eq_left (by omega)]
  rfl

/-! ## Writing a field -/

theorem setIdReference_word : setIdReference mp.word n = { mp with idReference := n }.word := by
  have hset : setIdReference mp.word n = put mp.word n 24 152 := rfl
  rw [hset]
  exact put_under (by omega) put_put

theorem setVolatilityReference_word (hn : n < 2 ^ 20) :
    setVolatilityReference mp.word n = .ok { mp with volatilityReference := n }.word := by
  have h20 : Moe.limb0 Moe.Encoded.MASK_UINT20 = 2 ^ 20 - 1 := rfl
  unfold setVolatilityReference
  rw [h20, if_neg (by omega)]
  have hset : Moe.Encoded.set mp.word (BitVec.ofNat 256 n) Moe.Encoded.MASK_UINT20 OFFSET_VOL_REF =
      put mp.word n 20 132 := rfl
  rw [hset]
  exact congrArg Except.ok (put_under (by omega) (put_under (by omega) put_put))

theorem setVolatilityAccumulator_word (hn : n < 2 ^ 20) :
    setVolatilityAccumulator mp.word n = .ok { mp with volatilityAccumulator := n }.word := by
  have h20 : Moe.limb0 Moe.Encoded.MASK_UINT20 = 2 ^ 20 - 1 := rfl
  unfold setVolatilityAccumulator
  rw [h20, if_neg (by omega)]
  have hset : Moe.Encoded.set mp.word (BitVec.ofNat 256 n) Moe.Encoded.MASK_UINT20 OFFSET_VOL_ACC =
      put mp.word n 20 112 := rfl
  rw [hset]
  exact congrArg Except.ok
    (put_under (by omega) (put_under (by omega) (put_under (by omega) put_put)))

theorem updateTimeOfLastUpdate_word (hn : n < 2 ^ 40) :
    updateTimeOfLastUpdate mp.word n = { mp with timeOfLastUpdate := n }.word := by
  have h40 : Moe.limb0 Moe.Encoded.MASK_UINT40 = 2 ^ 40 - 1 := rfl
  unfold updateTimeOfLastUpdate
  rw [h40, Nat.min_eq_left (by omega)]
  exact put_put

theorem setActiveId_word : setActiveId mp.word n = { mp with activeId := n }.word := by
  have hset : setActiveId mp.word n = put mp.word n 24 232 := rfl
  rw [hset]
  exact put_under (by omega)
    (put_under (by omega) (put_under (by omega) (put_under (by omega) put_put)))

/-! ## Reading a field -/

/-- A static field is not written over. -/
theorem take_word_of_static {w off : Nat} (hoff : off + w ≤ 112) :
    take mp.word w off = take mp.staticWord w off := by
  unfold word
  rw [take_put_of_disjoint (by omega), take_put_of_disjoint (by omega),
    take_put_of_disjoint (by omega), take_put_of_disjoint (by omega),
    take_put_of_disjoint (by omega)]

namespace InRange

variable (h : mp.InRange)

include h

theorem getFilterPeriod_word : getFilterPeriod mp.word = mp.filterPeriod := by
  have hread : getFilterPeriod mp.word = take mp.word 12 16 :=
    limb0_and_mask (decode_field_lt (w := 12)) (by omega)
  have := h.filterPeriod
  have := h.decayPeriod
  rw [hread, take_word_of_static (by omega)]
  unfold staticWord
  rw [take_put_of_disjoint (by omega), take_put_of_disjoint (by omega),
    take_put_of_disjoint (by omega), take_put_of_disjoint (by omega),
    take_put_of_disjoint (by omega), take_put (by omega) (by omega)]

theorem getDecayPeriod_word : getDecayPeriod mp.word = mp.decayPeriod := by
  have hread : getDecayPeriod mp.word = take mp.word 12 28 :=
    limb0_and_mask (decode_field_lt (w := 12)) (by omega)
  have := h.decayPeriod
  rw [hread, take_word_of_static (by omega)]
  unfold staticWord
  rw [take_put_of_disjoint (by omega), take_put_of_disjoint (by omega),
    take_put_of_disjoint (by omega), take_put_of_disjoint (by omega),
    take_put (by omega) (by omega)]

theorem getReductionFactor_word : getReductionFactor mp.word = mp.reductionFactor := by
  have hread : getReductionFactor mp.word = take mp.word 14 40 :=
    limb0_and_mask (decode_field_lt (w := 14)) (by omega)
  have := h.reductionFactor
  rw [hread, take_word_of_static (by omega)]
  unfold staticWord
  rw [take_put_of_disjoint (by omega), take_put_of_disjoint (by omega),
    take_put_of_disjoint (by omega), take_put (by omega) (by omega)]

theorem getMaxVolatilityAccumulator_word :
    getMaxVolatilityAccumulator mp.word = mp.maxVolatilityAccumulator := by
  have hread : getMaxVolatilityAccumulator mp.word = take mp.word 20 92 := moe_decodeU20 _
  rw [hread, take_word_of_static (by omega)]
  exact take_put (by omega) h.maxVolatilityAccumulator

theorem getVolatilityAccumulator_word :
    getVolatilityAccumulator mp.word = mp.volatilityAccumulator := by
  have hread : getVolatilityAccumulator mp.word = take mp.word 20 112 := moe_decodeU20 _
  rw [hread]
  unfold word
  rw [take_put_of_disjoint (by omega), take_put_of_disjoint (by omega),
    take_put_of_disjoint (by omega), take_put (by omega) h.volatilityAccumulator]

theorem getVolatilityReference_word :
    getVolatilityReference mp.word = mp.volatilityReference := by
  have hread : getVolatilityReference mp.word = take mp.word 20 132 := moe_decodeU20 _
  rw [hread]
  unfold word
  rw [take_put_of_disjoint (by omega), take_put_of_disjoint (by omega),
    take_put (by omega) h.volatilityReference]

theorem getIdReference_word : getIdReference mp.word = mp.idReference := by
  have hread : getIdReference mp.word = take mp.word 24 152 := moe_decodeU24 _
  rw [hread]
  unfold word
  rw [take_put_of_disjoint (by omega), take_put (by omega) h.idReference]

theorem getTimeOfLastUpdate_word : getTimeOfLastUpdate mp.word = mp.timeOfLastUpdate := by
  have hread : getTimeOfLastUpdate mp.word = take mp.word 40 176 :=
    limb0_and_mask (decode_field_lt (w := 40)) (by omega)
  have := h.timeOfLastUpdate
  rw [hread]
  exact take_put (by omega) (by omega)

theorem getActiveId_word : getActiveId mp.word = mp.activeId := by
  have hread : getActiveId mp.word = take mp.word 24 232 := moe_decodeU24 _
  rw [hread]
  unfold word
  rw [take_put_of_disjoint (by omega), take_put_of_disjoint (by omega),
    take_put_of_disjoint (by omega), take_put_of_disjoint (by omega),
    take_put (by omega) h.activeId]

/-! ## The updates -/

theorem updateIdReference_word :
    updateIdReference mp.word = { mp with idReference := mp.activeId }.word := by
  have hset : updateIdReference mp.word = setIdReference mp.word (getActiveId mp.word) := rfl
  rw [hset, h.getActiveId_word, setIdReference_word]

/-- The reduced accumulator is a reference. -/
theorem reduction_lt : mp.volatilityAccumulator * mp.reductionFactor / 10000 < 2 ^ 20 := by
  have hacc := h.volatilityAccumulator
  have hmul : mp.volatilityAccumulator * mp.reductionFactor ≤ mp.volatilityAccumulator * 10000 :=
    Nat.mul_le_mul_left _ h.reductionFactor
  omega

theorem updateVolatilityReference_word : updateVolatilityReference mp.word = .ok
    { mp with
      volatilityReference := mp.volatilityAccumulator * mp.reductionFactor / 10000 }.word := by
  have hlt := h.reduction_lt
  unfold updateVolatilityReference Moe.BASIS_POINT_MAX_U128
  dsimp only
  rw [h.getVolatilityAccumulator_word, h.getReductionFactor_word, Nat.mod_eq_of_lt (by omega),
    setVolatilityReference_word hlt]

/-- **The references agree.** -/
theorem updateReferences_word (ht : timestamp < 2 ^ 32) :
    Moe.PairParameterHelper.updateReferences mp.word timestamp =
      .ok (mp.updateReferences timestamp).word := by
  have htime : ∀ mp : MoeParameters, updateTimeOfLastUpdate mp.word timestamp =
      { mp with timeOfLastUpdate := min timestamp (2 ^ 32 - 1) }.word := by
    intro mp
    rw [Nat.min_eq_left (by omega), updateTimeOfLastUpdate_word (by omega)]
  have hmoved : ({ mp with idReference := mp.activeId } : MoeParameters).InRange :=
    { h with idReference := h.activeId }
  unfold Moe.PairParameterHelper.updateReferences MoeParameters.updateReferences
  dsimp only
  rw [h.getTimeOfLastUpdate_word, h.getFilterPeriod_word, h.getDecayPeriod_word]
  by_cases hfilter : timestamp - mp.timeOfLastUpdate ≥ mp.filterPeriod
  · rw [if_pos hfilter, if_pos hfilter, h.updateIdReference_word]
    by_cases hdecay : timestamp - mp.timeOfLastUpdate < mp.decayPeriod
    · have hreduction : min (min (mp.reductionFactor * mp.volatilityAccumulator) (2 ^ 128 - 1) /
          Moe.BASIS_POINT_MAX_U128) (2 ^ 32 - 1) =
            mp.volatilityAccumulator * mp.reductionFactor / 10000 := by
        have hlt := h.reduction_lt
        have hacc := h.volatilityAccumulator
        have hmul : mp.volatilityAccumulator * mp.reductionFactor ≤ 2 ^ 20 * 10000 :=
          Nat.mul_le_mul hacc.le h.reductionFactor
        unfold Moe.BASIS_POINT_MAX_U128
        rw [Nat.mul_comm, Nat.min_eq_left (by omega), Nat.min_eq_left (by omega)]
      rw [if_pos hdecay, if_pos hdecay, hmoved.updateVolatilityReference_word, ok_bind, htime,
        hreduction]
      rfl
    · rw [if_neg hdecay, if_neg hdecay, setVolatilityReference_word (by omega), ok_bind, htime]
      rfl
  · rw [if_neg hfilter, if_neg hfilter, pure_bind, htime]
    rfl

/-- **The accumulators agree**; the packed form keeps its active id. -/
theorem updateVolatilityAccumulator_word (hid : id < 2 ^ 24) :
    Moe.PairParameterHelper.updateVolatilityAccumulator mp.word id =
      .ok { mp.updateVolatilityAccumulator id with activeId := mp.activeId }.word := by
  have hmax := h.maxVolatilityAccumulator
  have href := h.volatilityReference
  have hidRef := h.idReference
  unfold Moe.PairParameterHelper.updateVolatilityAccumulator
    MoeParameters.updateVolatilityAccumulator Moe.BASIS_POINT_MAX_U128
  dsimp only
  rw [h.getIdReference_word, h.getVolatilityReference_word, h.getMaxVolatilityAccumulator_word]
  have hdelta : (if id > mp.idReference then id - mp.idReference else mp.idReference - id) <
      2 ^ 24 := by
    split <;> omega
  generalize (if id > mp.idReference then id - mp.idReference
    else mp.idReference - id) = delta at hdelta ⊢
  have hacc : (if mp.volatilityReference + delta * 10000 > mp.maxVolatilityAccumulator then
      mp.maxVolatilityAccumulator else mp.volatilityReference + delta * 10000) % 2 ^ 32 =
        min (min (mp.volatilityReference + min (delta * 10000) (2 ^ 128 - 1)) (2 ^ 128 - 1))
          mp.maxVolatilityAccumulator := by
    split <;> omega
  rw [hacc, setVolatilityAccumulator_word (by omega)]

/-- The references stay in range. -/
theorem updateReferences (ht : timestamp < 2 ^ 32) : (mp.updateReferences timestamp).InRange := by
  have hreduction : min (min (mp.reductionFactor * mp.volatilityAccumulator) (2 ^ 128 - 1) /
      Moe.BASIS_POINT_MAX_U128) (2 ^ 32 - 1) < 2 ^ 20 := by
    have hlt := h.reduction_lt
    rw [Nat.mul_comm mp.volatilityAccumulator] at hlt
    unfold Moe.BASIS_POINT_MAX_U128
    omega
  have htime : min timestamp (2 ^ 32 - 1) < 2 ^ 32 := by omega
  unfold MoeParameters.updateReferences
  dsimp only
  split
  · split
    · exact { h with
        idReference := h.activeId
        volatilityReference := hreduction
        timeOfLastUpdate := htime }
    · exact { h with
        idReference := h.activeId
        volatilityReference := Nat.two_pow_pos 20
        timeOfLastUpdate := htime }
  · exact { h with timeOfLastUpdate := htime }

/-- The accumulator stays in range. -/
theorem updateVolatilityAccumulator (hid : id < 2 ^ 24) :
    (mp.updateVolatilityAccumulator id).InRange :=
  { h with
    volatilityAccumulator := Nat.lt_of_le_of_lt (Nat.min_le_right ..) h.maxVolatilityAccumulator
    activeId := hid }

end InRange

/-- **The unpacked parameters refine the packed ones**: the update of the word succeeds, and with
the new active id it is the word of the updated struct. -/
theorem updateVolatilityParameters_refines (h : mp.InRange) (ht : timestamp < 2 ^ 32)
    (hid : id < 2 ^ 24) : ∃ params params', mp.encode = .ok params ∧
      updateVolatilityParameters params id timestamp = .ok params' ∧
      ((mp.updateReferences timestamp).updateVolatilityAccumulator id).encode =
        .ok (setActiveId params' id) := by
  have href := h.updateReferences ht
  have hacc := href.updateVolatilityAccumulator hid
  have hupdate : updateVolatilityParameters mp.word id timestamp = .ok
      { (mp.updateReferences timestamp).updateVolatilityAccumulator id with
        activeId := (mp.updateReferences timestamp).activeId }.word := by
    unfold updateVolatilityParameters
    rw [h.updateReferences_word ht, ok_bind, href.updateVolatilityAccumulator_word hid]
  refine ⟨mp.word, _, h.encode_eq_ok, hupdate, ?_⟩
  rw [hacc.encode_eq_ok, setActiveId_word]
  rfl

/-- Between the filter and the decay period the reference is reduced. -/
theorem updateVolatilityParameters_refines_decaying : ∃ params params',
    encode ⟨8000, 30, 600, 5000, 40000, 1000, 350000, 20000, 0, 8388608, 1700000000, 8388610, 25⟩ =
      .ok params ∧
    updateVolatilityParameters params 8388613 1700000100 = .ok params' ∧
    (MoeParameters.updateVolatilityAccumulator (MoeParameters.updateReferences
      ⟨8000, 30, 600, 5000, 40000, 1000, 350000, 20000, 0, 8388608, 1700000000, 8388610, 25⟩
        1700000100) 8388613).encode = .ok (setActiveId params' 8388613) :=
  updateVolatilityParameters_refines
    ⟨by decide, by decide, by decide, by decide, by decide, by decide, by decide, by decide,
      by decide, by decide, by decide, by decide⟩ (by decide) (by decide)

end MoeParameters

end ArbitrageBot
