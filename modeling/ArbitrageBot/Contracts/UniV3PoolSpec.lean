import ArbitrageBot.Contracts.UniV3Pool
import ArbitrageBot.Lib.WordSet

/-!
# What the pool contract keeps

The bitmap marks exactly the ticks that positions end at, after every run of calls from a pool that
has just been initialized.
-/

namespace ArbitrageBot.UniV3

/-- A tick flips where it gets its first liquidity or loses its last. -/
theorem Updated.clears {before info : Info} {liquidityDelta : Int} {upper : Bool}
    (h : Updated before info liquidityDelta upper) (hzero : liquidityDelta ≠ 0) :
    (decide (liquidityDelta < 0) &&
      (decide (info.liquidityGross = 0) != decide (before.liquidityGross = 0))) =
        decide (info.liquidityGross = 0) := by
  have hgross := h.gross
  by_cases hneg : liquidityDelta < 0
  · have hbefore : before.liquidityGross ≠ 0 := by omega
    simp [hneg, hbefore]
  · have hafter : info.liquidityGross ≠ 0 := by omega
    simp [hneg, hafter]

namespace Pool

variable {lib : Libraries} {self after : Pool} {owner : Address}
  {tickLower tickUpper liquidityDelta : Int}

/-! ## What a call does -/

theorem updatePosition_zero
    (h : self.updatePosition lib owner tickLower tickUpper 0 = some after) :
    ∃ positions, after = { self with positions } := by
  unfold updatePosition at h
  simp only [ne_eq, not_true_eq_false, if_false, Option.bind_eq_bind, Option.pure_def,
    Option.bind_some, lt_self_iff_false, Option.bind_eq_some_iff] at h
  obtain ⟨liquidity, -, h⟩ := h
  cases h
  exact ⟨_, rfl⟩

/-- What a change of a position does: to both ticks, to their bits, and to the entries of the ticks
that it leaves empty. -/
theorem updatePosition_cases (hzero : liquidityDelta ≠ 0)
    (h : self.updatePosition lib owner tickLower tickUpper liquidityDelta = some after) :
    ∃ flippedLower flippedUpper ticks₁ ticks₂ bitmap₁ bitmap₂ positions,
      lib.tickUpdate self.ticks tickLower liquidityDelta false self.maxLiquidityPerTick =
        some (flippedLower, ticks₁) ∧
      lib.tickUpdate ticks₁ tickUpper liquidityDelta true self.maxLiquidityPerTick =
        some (flippedUpper, ticks₂) ∧
      flipIf lib flippedLower self.tickBitmap tickLower self.tickSpacing = some bitmap₁ ∧
      flipIf lib flippedUpper bitmap₁ tickUpper self.tickSpacing = some bitmap₂ ∧
      after = { self with
        ticks := if liquidityDelta < 0 then
          clearIf lib flippedUpper (clearIf lib flippedLower ticks₂ tickLower) tickUpper else ticks₂
        tickBitmap := bitmap₂
        positions } := by
  unfold updatePosition at h
  simp only [if_pos hzero, Option.bind_eq_bind, Option.bind_eq_some_iff] at h
  obtain ⟨lower, hlower, upper, hupper, bitmap₁, hbitmap₁, bitmap₂, hbitmap₂, updated, hupdated,
    liquidity, -, h⟩ := h
  cases hupdated
  refine ⟨lower.1, upper.1, lower.2, upper.2, bitmap₁, bitmap₂,
    Function.update self.positions (owner, tickLower, tickUpper) liquidity, hlower, hupper,
    hbitmap₁, hbitmap₂, ?_⟩
  by_cases hneg : liquidityDelta < 0
  · rw [if_pos hneg] at h
    cases h
    rw [if_pos hneg]
  · rw [if_neg hneg] at h
    cases h
    rw [if_neg hneg]

/-- What a change of a position does to the active liquidity. -/
theorem modifyPosition_cases
    (h : self.modifyPosition lib owner tickLower tickUpper liquidityDelta = some after) :
    tickLower < tickUpper ∧ MIN_TICK ≤ tickLower ∧ tickUpper ≤ MAX_TICK ∧ ∃ updated,
      self.updatePosition lib owner tickLower tickUpper liquidityDelta = some updated ∧
      ((liquidityDelta ≠ 0 ∧ tickLower ≤ self.tick ∧ self.tick < tickUpper) ∧
          (∃ liquidity, lib.addDelta updated.liquidity liquidityDelta = some liquidity ∧
            after = { updated with liquidity }) ∨
        ¬ (liquidityDelta ≠ 0 ∧ tickLower ≤ self.tick ∧ self.tick < tickUpper) ∧
          after = updated) := by
  unfold modifyPosition at h
  split at h
  · rename_i hchecked
    unfold ticksChecked at hchecked
    simp only [Bool.and_eq_true, decide_eq_true_eq] at hchecked
    obtain ⟨updated, hupdated, h⟩ := Option.bind_eq_some_iff.mp h
    refine ⟨hchecked.1.1, hchecked.1.2, hchecked.2, updated, hupdated, ?_⟩
    split at h
    · rename_i hinside
      rw [not_lt] at hinside
      obtain ⟨liquidity, hliquidity, h⟩ := Option.bind_eq_some_iff.mp h
      cases h
      exact .inl ⟨hinside, liquidity, hliquidity, rfl⟩
    · rename_i houtside
      rw [not_lt] at houtside
      cases h
      exact .inr ⟨houtside, rfl⟩
  · cases h

/-! ## The bitmap -/

/-- The bit of a compressed tick. -/
def bitAt (bitmap : Int → U256) (k : Int) : Bool :=
  (bitmap (k / 256)).getLsbD (k % 256).toNat

theorem bitAt_flip (bitmap : Int → U256) (j k : Int) :
    bitAt (Function.update bitmap (j / 256) (bitmap (j / 256) ^^^ 1#256 <<< (j % 256).toNat)) k =
      (bitAt bitmap k ^^ decide (j = k)) := by
  unfold bitAt
  by_cases hword : k / 256 = j / 256
  · have hiff : (j % 256).toNat = (k % 256).toNat ↔ j = k := by omega
    rw [hword, Function.update_self, BitVec.getLsbD_xor,
      Lib.WordSet.getLsbD_one_shiftLeft (by omega)]
    simp only [hiff]
  · have hne : j ≠ k := by
      rintro rfl
      exact hword rfl
    rw [Function.update_of_ne hword]
    simp [hne]

theorem flipIf_spec (hlib : lib.Documented) {flipped : Bool} {bitmap bitmap' : Int → U256}
    {tick tickSpacing : Int} (h : flipIf lib flipped bitmap tick tickSpacing = some bitmap') :
    (flipped = true → tickSpacing ∣ tick) ∧
      ∀ k, bitAt bitmap' k = (bitAt bitmap k ^^ (flipped && decide (tick / tickSpacing = k))) := by
  unfold flipIf at h
  cases flipped with
  | false =>
    cases h
    simp
  | true =>
    obtain ⟨hdvd, rfl⟩ := hlib.flipTick h
    refine ⟨fun _ => hdvd, fun k => ?_⟩
    rw [bitAt_flip, Bool.true_and]

/-! ## The ticks -/

/-- The entry of a tick after a call: none is kept where no liquidity is left. -/
def settle (info : Info) : Info :=
  if info.liquidityGross = 0 then default else info

theorem settle_gross (info : Info) : (settle info).liquidityGross = info.liquidityGross := by
  unfold settle
  split
  · rename_i hzero
    exact hzero.symm
  · rfl

theorem settle_eq_default {info : Info} (h : (settle info).liquidityGross = 0) :
    settle info = default := by
  rw [settle_gross] at h
  exact if_pos h

/-- The ticks after a change of a position. -/
theorem updatePosition_ticks (hlib : lib.Documented) (hzero : liquidityDelta ≠ 0)
    (hlt : tickLower < tickUpper)
    (h : self.updatePosition lib owner tickLower tickUpper liquidityDelta = some after) :
    ∃ lower upper bitmap positions,
      Updated (self.ticks tickLower) lower liquidityDelta false ∧
      Updated (self.ticks tickUpper) upper liquidityDelta true ∧
      after = { self with
        ticks := Function.update (Function.update self.ticks tickLower (settle lower)) tickUpper
          (settle upper)
        tickBitmap := bitmap
        positions } ∧
      (∀ t info, (t = tickLower ∧ info = lower ∨ t = tickUpper ∧ info = upper) →
        decide (info.liquidityGross = 0) ≠ decide ((self.ticks t).liquidityGross = 0) →
          self.tickSpacing ∣ t) ∧
      ∀ k, bitAt bitmap k = (bitAt self.tickBitmap k ^^
        ((decide (lower.liquidityGross = 0) !=
            decide ((self.ticks tickLower).liquidityGross = 0)) &&
          decide (tickLower / self.tickSpacing = k)) ^^
        ((decide (upper.liquidityGross = 0) !=
            decide ((self.ticks tickUpper).liquidityGross = 0)) &&
          decide (tickUpper / self.tickSpacing = k))) := by
  obtain ⟨flippedLower, flippedUpper, ticks₁, ticks₂, bitmap₁, bitmap₂, positions, hlower, hupper,
    hbitmap₁, hbitmap₂, rfl⟩ := updatePosition_cases hzero h
  obtain ⟨lower, hlowerInfo, rfl, rfl⟩ := hlib.tickUpdate hlower
  obtain ⟨upper, hupperInfo, rfl, rfl⟩ := hlib.tickUpdate hupper
  rw [Function.update_of_ne hlt.ne'] at hupperInfo hbitmap₂
  obtain ⟨hdvd₁, hbits₁⟩ := flipIf_spec hlib hbitmap₁
  obtain ⟨hdvd₂, hbits₂⟩ := flipIf_spec hlib hbitmap₂
  refine ⟨lower, upper, bitmap₂, positions, hlowerInfo, hupperInfo, ?_, ?_, fun k => ?_⟩
  · congr 1
    have hclearLower := hlowerInfo.clears hzero
    have hclearUpper := hupperInfo.clears hzero
    rw [Function.update_of_ne hlt.ne']
    unfold settle
    by_cases hneg : liquidityDelta < 0
    · rw [decide_eq_true hneg, Bool.true_and] at hclearLower hclearUpper
      rw [if_pos hneg, hclearLower, hclearUpper]
      simp only [clearIf, hlib.tickClear, decide_eq_true_eq]
      funext t
      simp only [Function.update_apply]
      grind
    · rw [decide_eq_false hneg, Bool.false_and] at hclearLower hclearUpper
      rw [if_neg hneg, if_neg (of_decide_eq_false hclearLower.symm),
        if_neg (of_decide_eq_false hclearUpper.symm)]
  · rintro t info (⟨rfl, rfl⟩ | ⟨rfl, rfl⟩) hflip
    · exact hdvd₁ (by simpa using hflip)
    · exact hdvd₂ (by simpa using hflip)
  · rw [hbits₂, hbits₁]

/-! ## Runs of calls -/

/-- What the contract keeps: an entry of a tick says whether its bit is set, and the ticks are valid
ones of its spacing. -/
structure Consistent (pool : Pool) : Prop where
  spacing : 1 ≤ pool.tickSpacing
  empty : ∀ t, (pool.ticks t).liquidityGross = 0 → pool.ticks t = default
  dvd : ∀ t, (pool.ticks t).liquidityGross ≠ 0 → pool.tickSpacing ∣ t
  bounds : ∀ t, (pool.ticks t).liquidityGross ≠ 0 → MIN_TICK ≤ t ∧ t ≤ MAX_TICK
  bit : ∀ k, bitAt pool.tickBitmap k =
    decide ((pool.ticks (k * pool.tickSpacing)).liquidityGross ≠ 0)

/-- A tick that a change does not flip had liquidity before. -/
theorem Consistent.aligned (hself : self.Consistent) {t : Int} {info : Info} {upper : Bool}
    (hinfo : Updated (self.ticks t) info liquidityDelta upper) (hzero : liquidityDelta ≠ 0)
    (hflip : decide (info.liquidityGross = 0) ≠ decide ((self.ticks t).liquidityGross = 0) →
      self.tickSpacing ∣ t) : self.tickSpacing ∣ t := by
  by_cases hbefore : (self.ticks t).liquidityGross = 0
  · have hgross := hinfo.gross
    have hafter : info.liquidityGross ≠ 0 := by omega
    exact hflip (by simp [hbefore, hafter])
  · exact hself.dvd t hbefore

/-- A bit that is flipped exactly where its tick does. -/
theorem flip_bit (after before : Bool) : ((!before) ^^ (after != before)) = !after := by
  cases after <;> cases before <;> rfl

theorem Consistent.updatePosition (hlib : lib.Documented) (hself : self.Consistent)
    (hlt : tickLower < tickUpper) (hmin : MIN_TICK ≤ tickLower) (hmax : tickUpper ≤ MAX_TICK)
    (h : self.updatePosition lib owner tickLower tickUpper liquidityDelta = some after) :
    after.Consistent ∧ after.tickSpacing = self.tickSpacing := by
  by_cases hzero : liquidityDelta = 0
  · subst hzero
    obtain ⟨positions, rfl⟩ := updatePosition_zero h
    exact ⟨⟨hself.spacing, hself.empty, hself.dvd, hself.bounds, hself.bit⟩, rfl⟩
  · obtain ⟨lower, upper, bitmap, positions, hlower, hupper, rfl, hdvd, hbits⟩ :=
      updatePosition_ticks hlib hzero hlt h
    have hdvdLower := hself.aligned hlower hzero (hdvd tickLower lower (.inl ⟨rfl, rfl⟩))
    have hdvdUpper := hself.aligned hupper hzero (hdvd tickUpper upper (.inr ⟨rfl, rfl⟩))
    have hspacing := hself.spacing
    have hindex : ∀ t, self.tickSpacing ∣ t → ∀ k,
        t / self.tickSpacing = k ↔ k * self.tickSpacing = t := by
      rintro t ⟨i, rfl⟩ k
      rw [Int.mul_ediv_cancel_left _ (by omega), Int.mul_comm k]
      refine ⟨fun h => congrArg _ h.symm, fun h => ?_⟩
      exact (Int.eq_of_mul_eq_mul_left (by omega) h).symm
    refine ⟨⟨hspacing, fun t => ?_, fun t => ?_, fun t => ?_, fun k => ?_⟩, rfl⟩
    · simp only [Function.update_apply]
      split
      · exact settle_eq_default
      · split
        · exact settle_eq_default
        · exact hself.empty t
    · simp only [Function.update_apply]
      split
      · rename_i heq
        exact fun _ => heq ▸ hdvdUpper
      · split
        · rename_i heq
          exact fun _ => heq ▸ hdvdLower
        · exact hself.dvd t
    · simp only [Function.update_apply]
      split
      · intro _
        omega
      · split
        · intro _
          omega
        · exact hself.bounds t
    · dsimp only
      rw [hbits, hself.bit]
      simp only [hindex _ hdvdLower, hindex _ hdvdUpper, Function.update_apply]
      by_cases hkUpper : k * self.tickSpacing = tickUpper
      · have hkLower : k * self.tickSpacing ≠ tickLower := by omega
        rw [if_pos hkUpper, settle_gross, hkUpper]
        simp only [hlt.ne', decide_true, decide_false, Bool.and_true, Bool.and_false,
          Bool.xor_false, decide_not]
        exact flip_bit _ _
      · by_cases hkLower : k * self.tickSpacing = tickLower
        · rw [if_neg hkUpper, if_pos hkLower, settle_gross, hkLower]
          simp only [hlt.ne, decide_true, decide_false, Bool.and_true, Bool.and_false,
            Bool.xor_false, decide_not]
          exact flip_bit _ _
        · rw [if_neg hkUpper, if_neg hkLower]
          simp [hkUpper, hkLower]

theorem Consistent.modifyPosition (hlib : lib.Documented) (hself : self.Consistent)
    (h : self.modifyPosition lib owner tickLower tickUpper liquidityDelta = some after) :
    after.Consistent ∧ after.tickSpacing = self.tickSpacing := by
  obtain ⟨hlt, hmin, hmax, updated, hupdated, hliquidity⟩ := modifyPosition_cases h
  obtain ⟨hconsistent, hsame⟩ := hself.updatePosition hlib hlt hmin hmax hupdated
  rcases hliquidity with ⟨-, liquidity, -, rfl⟩ | ⟨-, rfl⟩
  · exact ⟨⟨hconsistent.spacing, hconsistent.empty, hconsistent.dvd, hconsistent.bounds,
      hconsistent.bit⟩, hsame⟩
  · exact ⟨hconsistent, hsame⟩

theorem Consistent.call (hlib : lib.Documented) (hself : self.Consistent) {call : Call}
    {event : Event} (h : self.call lib call = some (after, event)) :
    after.Consistent ∧ after.tickSpacing = self.tickSpacing := by
  unfold Pool.call at h
  cases call with
  | mint recipient tickLower tickUpper amount =>
    dsimp only at h
    split at h
    · obtain ⟨liquidityDelta, -, h⟩ := Option.bind_eq_some_iff.mp h
      obtain ⟨modified, hmodify, h⟩ := Option.bind_eq_some_iff.mp h
      cases h
      exact hself.modifyPosition hlib hmodify
    · cases h
  | burn sender tickLower tickUpper amount =>
    obtain ⟨liquidityDelta, -, h⟩ := Option.bind_eq_some_iff.mp h
    obtain ⟨modified, hmodify, h⟩ := Option.bind_eq_some_iff.mp h
    cases h
    exact hself.modifyPosition hlib hmodify
  | swap sqrtPriceX96 liquidity tick =>
    cases h
    exact ⟨⟨hself.spacing, hself.empty, hself.dvd, hself.bounds, hself.bit⟩, rfl⟩

/-- **The bitmap after any calls** marks exactly the ticks with liquidity. -/
theorem Consistent.run (hlib : lib.Documented) (hself : self.Consistent) (calls : List Call) :
    (self.run lib calls).1.Consistent ∧ (self.run lib calls).1.tickSpacing = self.tickSpacing := by
  induction calls generalizing self with
  | nil => exact ⟨hself, rfl⟩
  | cons call calls ih =>
    unfold Pool.run
    cases hcall : self.call lib call with
    | none => exact ih hself
    | some after =>
      obtain ⟨hafter, hsame⟩ := hself.call hlib hcall
      obtain ⟨hrest, hsame'⟩ := ih hafter
      exact ⟨hrest, hsame'.trans hsame⟩

theorem consistent_initialized {tickSpacing tick : Int} {maxLiquidityPerTick : Nat}
    {sqrtPriceX96 : BitVec 160} (hspacing : 1 ≤ tickSpacing) :
    (initialized tickSpacing maxLiquidityPerTick sqrtPriceX96 tick).Consistent where
  spacing := hspacing
  empty := fun _ _ => rfl
  dvd := fun _ h => absurd rfl h
  bounds := fun _ h => absurd rfl h
  bit := fun _ => BitVec.getLsbD_zero

end Pool

end ArbitrageBot.UniV3
