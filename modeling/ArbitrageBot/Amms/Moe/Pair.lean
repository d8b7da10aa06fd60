import ArbitrageBot.Amms.Agni.Pool

/-!
# Moe liquidity-book pairs: state and event synchronisation
-/

namespace ArbitrageBot

structure BinReserve where
  reserveX : Nat
  reserveY : Nat
  deriving DecidableEq, Repr

instance : Inhabited BinReserve := ⟨{ reserveX := 0, reserveY := 0 }⟩

structure MoeLbPair where
  address : Address
  tokenX : Token
  tokenY : Token
  binStep : Nat
  activeId : Nat
  reserveX : Nat
  reserveY : Nat
  baseFactor : Nat
  filterPeriod : Nat
  decayPeriod : Nat
  reductionFactor : Nat
  variableFeeControl : Nat
  protocolShareBps : Nat
  maxVolatilityAcc : Nat
  volatilityAccumulator : Nat
  volatilityReference : Nat
  idReference : Nat
  timeOfLastUpdate : Nat
  bins : HashMap Nat BinReserve

namespace MoeLbPair

def MAX_BIN_AMOUNT : Nat := 10 ^ 30

/-- One round of the loop of `update_bins`. An id over 32 bits panics in `id.to::<u32>()`; the
first sixteen bytes of `amounts`, big-endian, are the X amount. -/
def updateBin (self : MoeLbPair) (id amounts : U256) (isDeposit : Bool) :
    Outcome AMMError MoeLbPair :=
  if id.toNat < 2 ^ 32 then
    let binId := id.toNat
    let amountX := amounts.toNat / 2 ^ 128
    let amountY := amounts.toNat % 2 ^ 128
    if amountX > MAX_BIN_AMOUNT ∨ amountY > MAX_BIN_AMOUNT then .ok self
    else
      let bin := (self.bins.lookup binId).getD default
      if isDeposit then
        let bin := ⟨saturatingAdd bin.reserveX amountX, saturatingAdd bin.reserveY amountY⟩
        .ok { self with
          bins := self.bins.insert binId bin
          reserveX := saturatingAdd self.reserveX amountX
          reserveY := saturatingAdd self.reserveY amountY }
      else
        let bin : BinReserve := ⟨bin.reserveX - amountX, bin.reserveY - amountY⟩
        let bins := self.bins.insert binId bin
        .ok { self with
          bins := if bin.reserveX = 0 ∧ bin.reserveY = 0 then bins.erase binId else bins
          reserveX := self.reserveX - amountX
          reserveY := self.reserveY - amountY }
  else .error .panic

def updateBins (self : MoeLbPair) (ids amounts : List U256) (isDeposit : Bool) :
    Outcome AMMError MoeLbPair :=
  (ids.zip amounts).foldlM (fun self entry => self.updateBin entry.1 entry.2 isDeposit) self

/-- A swap event moves the active bin and touches no reserve. -/
def sync (self : MoeLbPair) (log : Log) : Outcome AMMError MoeLbPair :=
  match log.payload with
  | .event (.moeSwap id) => .ok { self with activeId := id }
  | .event (.depositedToBins ids amounts) => self.updateBins ids amounts true
  | .event (.withdrawnFromBins ids amounts) => self.updateBins ids amounts false
  | .event e => .error (decodeError [.moeSwap, .depositedToBins, .withdrawnFromBins] e.signature)
  | .undecodable sig =>
    .error (decodeError [.moeSwap, .depositedToBins, .withdrawnFromBins] sig)
  | .anonymous => .error .panic

/-- A pair without fees, on which nothing has traded yet. -/
def feeless (binStep activeId reserveX reserveY : Nat) (bins : HashMap Nat BinReserve) :
    MoeLbPair where
  address := 1
  tokenX := ⟨2, 18⟩
  tokenY := ⟨3, 18⟩
  binStep := binStep
  activeId := activeId
  reserveX := reserveX
  reserveY := reserveY
  baseFactor := 0
  filterPeriod := 30
  decayPeriod := 600
  reductionFactor := 5000
  variableFeeControl := 0
  protocolShareBps := 0
  maxVolatilityAcc := 100000
  volatilityAccumulator := 0
  volatilityReference := 0
  idReference := activeId
  timeOfLastUpdate := 0
  bins := bins

/-- A pair with two bins, fees and a protocol share. -/
def twoBinPair : MoeLbPair :=
  { feeless 10 8388608 3000000 3000000 (((∅ : HashMap Nat BinReserve).insert 8388607
      ⟨1000000, 2000000⟩).insert 8388608 ⟨2000000, 1000000⟩) with
    baseFactor := 5000
    variableFeeControl := 40000
    protocolShareBps := 1000 }

/-! ## The address of a pair stays -/

variable {pair pair' : MoeLbPair}

theorem updateBin_address {id amounts : U256} {isDeposit : Bool}
    (h : pair.updateBin id amounts isDeposit = .ok pair') : pair'.address = pair.address := by
  unfold updateBin at h
  split at h
  · dsimp only at h
    split at h
    · cases h
      rfl
    · split at h
      · cases h
        rfl
      · cases h
        rfl
  · cases h

theorem updateBins_address {ids amounts : List U256} {isDeposit : Bool}
    (h : pair.updateBins ids amounts isDeposit = .ok pair') : pair'.address = pair.address := by
  unfold updateBins at h
  generalize ids.zip amounts = entries at h
  induction entries generalizing pair with
  | nil =>
    cases h
    rfl
  | cons entry entries ih =>
    rw [List.foldlM_cons, bind_eq_ok] at h
    obtain ⟨pair₁, h₁, h⟩ := h
    rw [ih h, updateBin_address h₁]

theorem sync_address {log : Log} (h : pair.sync log = .ok pair') :
    pair'.address = pair.address := by
  unfold sync at h
  split at h
  · cases h
    rfl
  · exact updateBins_address h
  · exact updateBins_address h
  all_goals cases h

end MoeLbPair

end ArbitrageBot
