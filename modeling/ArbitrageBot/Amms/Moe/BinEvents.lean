import ArbitrageBot.Amms.Moe.MathSpec
import ArbitrageBot.Amms.Moe.Pair
import ArbitrageBot.Lib.MapSums

/-!
# Moe liquidity-book pairs: the amounts of deposit and withdraw events

A pair emits an amount as `encode(x, y)`, with X in the low 128 bits. `update_bins` takes the first
sixteen bytes of the big-endian word, which are its high 128 bits, for X. So a deposit of `(x, y)`
is booked as `(y, x)`, and the books are right only where the amounts of each bin are equal in sum.
-/

namespace ArbitrageBot.MoeLbPair

open Lib Moe

/-- An amount that is deposited to or withdrawn from a bin. -/
structure BinAmount where
  id : Nat
  x : Nat
  y : Nat
  deriving DecidableEq, Repr

namespace BinAmount

/-- The word of the event. -/
def word (a : BinAmount) : U256 := PackedUint128Math.encode a.x a.y

/-- The amounts that `update_bins` does not skip, of an id that is a bin's. -/
structure Legal (a : BinAmount) : Prop where
  id_lt : a.id < 2 ^ 24
  x_le : a.x ≤ 10 ^ 30
  y_le : a.y ≤ 10 ^ 30

instance (a : BinAmount) : Decidable a.Legal :=
  decidable_of_iff (a.id < 2 ^ 24 ∧ a.x ≤ 10 ^ 30 ∧ a.y ≤ 10 ^ 30)
    ⟨fun ⟨h₁, h₂, h₃⟩ => ⟨h₁, h₂, h₃⟩, fun h => ⟨h.id_lt, h.x_le, h.y_le⟩⟩

/-- The sum of the X amounts of a bin, and that of its Y amounts. -/
def sumX (amounts : List BinAmount) (id : Nat) : Nat :=
  MapSums.sumAt BinAmount.id BinAmount.x amounts id

def sumY (amounts : List BinAmount) (id : Nat) : Nat :=
  MapSums.sumAt BinAmount.id BinAmount.y amounts id

/-- The ids that amounts name. -/
def ids (amounts : List BinAmount) : List Nat := amounts.map BinAmount.id

def totalX (amounts : List BinAmount) : Nat := (amounts.map BinAmount.x).sum
def totalY (amounts : List BinAmount) : Nat := (amounts.map BinAmount.y).sum

variable {a : BinAmount} {amounts : List BinAmount} {id : Nat}

theorem sumX_cons_self : sumX (a :: amounts) a.id = a.x + sumX amounts a.id :=
  MapSums.sumAt_cons_self

theorem sumY_cons_self : sumY (a :: amounts) a.id = a.y + sumY amounts a.id :=
  MapSums.sumAt_cons_self

theorem sumX_cons_ne (h : a.id ≠ id) : sumX (a :: amounts) id = sumX amounts id :=
  MapSums.sumAt_cons_ne h

theorem sumY_cons_ne (h : a.id ≠ id) : sumY (a :: amounts) id = sumY amounts id :=
  MapSums.sumAt_cons_ne h

theorem sums_of_not_mem (h : id ∉ ids amounts) : sumX amounts id = 0 ∧ sumY amounts id = 0 := by
  have hne : ∀ a ∈ amounts, a.id ≠ id := by
    rintro a ha rfl
    exact h (List.mem_map_of_mem ha)
  exact ⟨MapSums.sumAt_of_forall_ne hne, MapSums.sumAt_of_forall_ne hne⟩

theorem mem_ids_cons : id ∈ ids (a :: amounts) ↔ id = a.id ∨ id ∈ ids amounts := List.mem_cons

end BinAmount

variable {pair : MoeLbPair} {a : BinAmount} {amounts : List BinAmount} {id : Nat}

/-- The reserves of a bin; those of an absent bin are zero. -/
def stored (pair : MoeLbPair) (id : Nat) : BinReserve := (pair.bins.lookup id).getD default

/-- `update_bins` with the ids and words of amounts. -/
def updateWith (pair : MoeLbPair) (amounts : List BinAmount) (isDeposit : Bool) :
    Outcome AMMError MoeLbPair :=
  pair.updateBins (amounts.map fun a => BitVec.ofNat 256 a.id)
    (amounts.map BinAmount.word) isDeposit

/-! ## One amount -/

/-- The pair with an amount booked as it is decoded: `y` to X and `x` to Y. -/
def deposited (pair : MoeLbPair) (a : BinAmount) : MoeLbPair :=
  { pair with
    bins := pair.bins.insert a.id ⟨saturatingAdd (pair.stored a.id).reserveX a.y,
      saturatingAdd (pair.stored a.id).reserveY a.x⟩
    reserveX := saturatingAdd pair.reserveX a.y
    reserveY := saturatingAdd pair.reserveY a.x }

def withdrawn (pair : MoeLbPair) (a : BinAmount) : MoeLbPair :=
  let bin : BinReserve := ⟨(pair.stored a.id).reserveX - a.y, (pair.stored a.id).reserveY - a.x⟩
  let bins := pair.bins.insert a.id bin
  { pair with
    bins := if bin.reserveX = 0 ∧ bin.reserveY = 0 then bins.erase a.id else bins
    reserveX := pair.reserveX - a.y
    reserveY := pair.reserveY - a.x }

theorem toNat_word (h : a.Legal) : a.word.toNat / 2 ^ 128 = a.y ∧ a.word.toNat % 2 ^ 128 = a.x := by
  have hx : a.x < 2 ^ 128 := Nat.lt_of_le_of_lt h.x_le (by norm_num)
  have hy : a.y < 2 ^ 128 := Nat.lt_of_le_of_lt h.y_le (by norm_num)
  exact ⟨Words.high_pack hx hy, Words.low_pack hx hy⟩

/-- **An amount is booked with its lanes exchanged.** -/
theorem updateBin_eq (h : a.Legal) (isDeposit : Bool) :
    pair.updateBin (BitVec.ofNat 256 a.id) a.word isDeposit =
      .ok (if isDeposit then pair.deposited a else pair.withdrawn a) := by
  have hid : (BitVec.ofNat 256 a.id).toNat = a.id := by
    rw [BitVec.toNat_ofNat, Nat.mod_eq_of_lt (Nat.lt_trans h.id_lt (by norm_num))]
  have hid' : a.id < 2 ^ 32 := Nat.lt_trans h.id_lt (by norm_num)
  obtain ⟨hhigh, hlow⟩ := toNat_word h
  have hkept : ¬ (a.y > MAX_BIN_AMOUNT ∨ a.x > MAX_BIN_AMOUNT) := by
    have := h.x_le
    have := h.y_le
    unfold MAX_BIN_AMOUNT
    omega
  unfold updateBin
  rw [hid, hhigh, hlow, if_pos hid']
  dsimp only
  rw [if_neg hkept]
  cases isDeposit with
  | true => rfl
  | false => rfl

/-- The amounts of an event are booked one after the other. -/
theorem updateWith_eq (h : ∀ a ∈ amounts, a.Legal) (isDeposit : Bool) :
    pair.updateWith amounts isDeposit = .ok (amounts.foldl
      (fun pair a => if isDeposit then pair.deposited a else pair.withdrawn a) pair) := by
  unfold updateWith updateBins
  rw [List.zip_map', List.foldlM_map]
  induction amounts generalizing pair with
  | nil => rfl
  | cons a amounts ih =>
    rw [List.foldlM_cons, updateBin_eq (h a List.mem_cons_self), ok_bind, List.foldl_cons]
    exact ih fun b hb => h b (List.mem_cons_of_mem a hb)

theorem updateWith_deposit (h : ∀ a ∈ amounts, a.Legal) :
    pair.updateWith amounts true = .ok (amounts.foldl deposited pair) := updateWith_eq h true

theorem updateWith_withdrawal (h : ∀ a ∈ amounts, a.Legal) :
    pair.updateWith amounts false = .ok (amounts.foldl withdrawn pair) := updateWith_eq h false

/-! ## All amounts of an event -/

theorem lookup_deposited_self :
    (pair.deposited a).bins.lookup a.id = some ⟨saturatingAdd (pair.stored a.id).reserveX a.y,
      saturatingAdd (pair.stored a.id).reserveY a.x⟩ := AList.lookup_insert _

theorem lookup_deposited_ne (h : id ≠ a.id) :
    (pair.deposited a).bins.lookup id = pair.bins.lookup id := AList.lookup_insert_ne h

theorem lookup_withdrawn_ne (h : id ≠ a.id) :
    (pair.withdrawn a).bins.lookup id = pair.bins.lookup id := by
  unfold withdrawn
  dsimp only
  split
  · rw [AList.lookup_erase_ne h, AList.lookup_insert_ne h]
  · rw [AList.lookup_insert_ne h]

/-- A bin that is left, or nothing for an empty one. -/
def remaining (bin : BinReserve) : Option BinReserve :=
  if bin.reserveX = 0 ∧ bin.reserveY = 0 then none else some bin

theorem getD_remaining (bin : BinReserve) : (remaining bin).getD default = bin := by
  unfold remaining
  split
  · rename_i hempty
    obtain ⟨x, y⟩ := bin
    obtain ⟨rfl, rfl⟩ := hempty
    rfl
  · rfl

theorem lookup_withdrawn_self :
    (pair.withdrawn a).bins.lookup a.id =
      remaining ⟨(pair.stored a.id).reserveX - a.y, (pair.stored a.id).reserveY - a.x⟩ := by
  unfold withdrawn remaining
  dsimp only
  split
  · exact AList.lookup_erase _ _
  · exact AList.lookup_insert _

theorem saturatingAdd_saturatingAdd (n b c : Nat) :
    saturatingAdd (saturatingAdd n b) c = saturatingAdd n (b + c) := by
  unfold saturatingAdd
  omega

theorem saturatingAdd_of_lt {n b : Nat} (h : n + b < 2 ^ 128) : saturatingAdd n b = n + b := by
  unfold saturatingAdd
  omega

theorem lookup_foldl_of_not_mem {step : MoeLbPair → BinAmount → MoeLbPair}
    (hstep : ∀ pair a, id ≠ a.id → (step pair a).bins.lookup id = pair.bins.lookup id)
    (h : id ∉ BinAmount.ids amounts) :
    (amounts.foldl step pair).bins.lookup id = pair.bins.lookup id := by
  induction amounts generalizing pair with
  | nil => rfl
  | cons a amounts ih =>
    rw [BinAmount.mem_ids_cons] at h
    rw [List.foldl_cons, ih fun hmem => h (.inr hmem)]
    exact hstep pair a fun heq => h (.inl heq)

/-- **The bins after a fold of bookings**: one booking of the sums does what the bookings of the
amounts do, when two bookings of a bin are one of their sums. -/
theorem lookup_foldl_booked {step : MoeLbPair → BinAmount → MoeLbPair}
    (book : BinReserve → Nat → Nat → Option BinReserve)
    (hself : ∀ pair a, (step pair a).bins.lookup a.id = book (pair.stored a.id) a.y a.x)
    (hne : ∀ id pair a, id ≠ a.id → (step pair a).bins.lookup id = pair.bins.lookup id)
    (hbook : ∀ bin x y x' y',
      book ((book bin x y).getD default) x' y' = book bin (x + x') (y + y'))
    (h : id ∈ BinAmount.ids amounts) :
    (amounts.foldl step pair).bins.lookup id =
      book (pair.stored id) (BinAmount.sumY amounts id) (BinAmount.sumX amounts id) := by
  induction amounts generalizing pair with
  | nil => exact absurd h List.not_mem_nil
  | cons a amounts ih =>
    rw [List.foldl_cons]
    by_cases hid : id = a.id
    · subst hid
      rw [BinAmount.sumX_cons_self, BinAmount.sumY_cons_self]
      by_cases hmem : a.id ∈ BinAmount.ids amounts
      · have hstored : (step pair a).stored a.id =
            (book (pair.stored a.id) a.y a.x).getD default :=
              congrArg (·.getD default) (hself pair a)
        rw [ih hmem, hstored, hbook]
      · obtain ⟨hx, hy⟩ := BinAmount.sums_of_not_mem hmem
        rw [lookup_foldl_of_not_mem (hne a.id) hmem, hself, hx, hy, Nat.add_zero, Nat.add_zero]
    · have hmem := (BinAmount.mem_ids_cons.mp h).resolve_left hid
      have hstored : (step pair a).stored id = pair.stored id :=
        congrArg (·.getD default) (hne id pair a hid)
      rw [ih hmem, hstored, BinAmount.sumX_cons_ne (Ne.symm hid),
        BinAmount.sumY_cons_ne (Ne.symm hid)]

/-- The bins after a deposit: each is booked the sums of its amounts, lanes exchanged. -/
theorem lookup_foldl_deposited (h : id ∈ BinAmount.ids amounts) :
    (amounts.foldl deposited pair).bins.lookup id =
      some ⟨saturatingAdd (pair.stored id).reserveX (BinAmount.sumY amounts id),
        saturatingAdd (pair.stored id).reserveY (BinAmount.sumX amounts id)⟩ := by
  refine lookup_foldl_booked (fun bin x y =>
      some ⟨saturatingAdd bin.reserveX x, saturatingAdd bin.reserveY y⟩)
    (fun _ _ => lookup_deposited_self) (fun _ _ _ => lookup_deposited_ne)
    (fun bin x y x' y' => ?_) h
  rw [Option.getD_some, saturatingAdd_saturatingAdd, saturatingAdd_saturatingAdd]

/-- The bins after a withdrawal. -/
theorem lookup_foldl_withdrawn (h : id ∈ BinAmount.ids amounts) :
    (amounts.foldl withdrawn pair).bins.lookup id =
      remaining ⟨(pair.stored id).reserveX - BinAmount.sumY amounts id,
        (pair.stored id).reserveY - BinAmount.sumX amounts id⟩ := by
  refine lookup_foldl_booked (fun bin x y => remaining ⟨bin.reserveX - x, bin.reserveY - y⟩)
    (fun _ _ => lookup_withdrawn_self) (fun _ _ _ => lookup_withdrawn_ne)
    (fun bin x y x' y' => ?_) h
  rw [getD_remaining, Nat.sub_sub, Nat.sub_sub]

/-- The totals after a deposit. -/
theorem totals_foldl_deposited (hx : pair.reserveX < 2 ^ 128) (hy : pair.reserveY < 2 ^ 128) :
    (amounts.foldl deposited pair).reserveX =
        saturatingAdd pair.reserveX (BinAmount.totalY amounts) ∧
      (amounts.foldl deposited pair).reserveY =
        saturatingAdd pair.reserveY (BinAmount.totalX amounts) := by
  induction amounts generalizing pair with
  | nil => exact ⟨(saturatingAdd_of_lt (b := 0) hx).symm, (saturatingAdd_of_lt (b := 0) hy).symm⟩
  | cons a amounts ih =>
    have hlt : ∀ n b, saturatingAdd n b < 2 ^ 128 := by
      intro n b
      unfold saturatingAdd
      omega
    obtain ⟨hX, hY⟩ := @ih (pair.deposited a) (hlt _ _) (hlt _ _)
    rw [List.foldl_cons, hX, hY]
    exact ⟨saturatingAdd_saturatingAdd _ _ _, saturatingAdd_saturatingAdd _ _ _⟩

theorem totals_foldl_withdrawn :
    (amounts.foldl withdrawn pair).reserveX = pair.reserveX - BinAmount.totalY amounts ∧
      (amounts.foldl withdrawn pair).reserveY = pair.reserveY - BinAmount.totalX amounts := by
  induction amounts generalizing pair with
  | nil => exact ⟨rfl, rfl⟩
  | cons a amounts ih =>
    obtain ⟨hX, hY⟩ := @ih (pair.withdrawn a)
    rw [List.foldl_cons, hX, hY]
    exact ⟨Nat.sub_sub _ _ _, Nat.sub_sub _ _ _⟩

/-! ## A deposit and its withdrawal -/

/-- What a deposit of amounts and a following withdrawal of the same do, with X counted as X: the
deposit adds the sums of each bin and touches no other bin, and the withdrawal restores the bins and
the totals. -/
structure Booked (pair : MoeLbPair) (amounts : List BinAmount) (deposit withdrawal : MoeLbPair) :
    Prop where
  deposit_eq : pair.updateWith amounts true = .ok deposit
  withdrawal_eq : deposit.updateWith amounts false = .ok withdrawal
  added : ∀ id ∈ BinAmount.ids amounts, deposit.bins.lookup id =
    some ⟨(pair.stored id).reserveX + BinAmount.sumX amounts id,
      (pair.stored id).reserveY + BinAmount.sumY amounts id⟩
  untouched : ∀ id ∉ BinAmount.ids amounts, deposit.bins.lookup id = pair.bins.lookup id
  totalX : deposit.reserveX = pair.reserveX + BinAmount.totalX amounts
  totalY : deposit.reserveY = pair.reserveY + BinAmount.totalY amounts
  restored : ∀ id, withdrawal.bins.lookup id = pair.bins.lookup id
  restoredX : withdrawal.reserveX = pair.reserveX
  restoredY : withdrawal.reserveY = pair.reserveY

/-- The reserves stay below `2 ^ 128` when the amounts are added to them. -/
structure Fits (pair : MoeLbPair) (amounts : List BinAmount) : Prop where
  reserveX : pair.reserveX + BinAmount.totalX amounts < 2 ^ 128
  reserveY : pair.reserveY + BinAmount.totalY amounts < 2 ^ 128
  bins : ∀ id ∈ BinAmount.ids amounts,
    (pair.stored id).reserveX + BinAmount.sumX amounts id < 2 ^ 128 ∧
      (pair.stored id).reserveY + BinAmount.sumY amounts id < 2 ^ 128

/-- The amounts of each bin are equal in sum, and no bin is stored with no reserves. -/
def Symmetric (pair : MoeLbPair) (amounts : List BinAmount) : Prop :=
  ∀ id ∈ BinAmount.ids amounts, BinAmount.sumX amounts id = BinAmount.sumY amounts id ∧
    pair.bins.lookup id ≠ some ⟨0, 0⟩

/-- Sums that exchanged lanes leave right are the same. -/
theorem sums_eq_of_saturatingAdd {x y n m : Nat} (h₁ : saturatingAdd x m = x + n)
    (h₂ : saturatingAdd y n = y + m) : n = m := by
  unfold saturatingAdd at h₁ h₂
  omega

theorem Booked.symmetric {deposit withdrawal : MoeLbPair} (hlegal : ∀ a ∈ amounts, a.Legal)
    (h : pair.Booked amounts deposit withdrawal) : pair.Symmetric amounts := by
  have hdeposit := h.deposit_eq
  have hwithdrawal := h.withdrawal_eq
  rw [updateWith_deposit hlegal] at hdeposit
  rw [updateWith_withdrawal hlegal] at hwithdrawal
  cases hdeposit
  cases hwithdrawal
  intro id hid
  have hadded := h.added id hid
  rw [lookup_foldl_deposited hid] at hadded
  simp only [Option.some.injEq, BinReserve.mk.injEq] at hadded
  refine ⟨sums_eq_of_saturatingAdd hadded.1 hadded.2, ?_⟩
  intro hempty
  have hrestored := h.restored id
  have hzero : pair.stored id = ⟨0, 0⟩ := by
    unfold stored
    rw [hempty]
    rfl
  have hstored : (amounts.foldl deposited pair).stored id =
      ⟨BinAmount.sumX amounts id, BinAmount.sumY amounts id⟩ := by
    unfold stored
    rw [h.added id hid, hzero, Nat.zero_add, Nat.zero_add]
    rfl
  have hsame := sums_eq_of_saturatingAdd hadded.1 hadded.2
  rw [lookup_foldl_withdrawn hid, hstored, hempty, hsame, Nat.sub_self] at hrestored
  cases hrestored

theorem Symmetric.booked (hlegal : ∀ a ∈ amounts, a.Legal) (hfits : pair.Fits amounts)
    (h : pair.Symmetric amounts) : pair.Booked amounts (amounts.foldl deposited pair)
      (amounts.foldl withdrawn (amounts.foldl deposited pair)) := by
  have htotal : BinAmount.totalX amounts = BinAmount.totalY amounts :=
    MapSums.sum_eq_of_sumAt_eq fun a ha => (h a.id (List.mem_map_of_mem ha)).1
  have hX := hfits.reserveX
  have hY := hfits.reserveY
  obtain ⟨hdepositX, hdepositY⟩ :=
    @totals_foldl_deposited pair amounts (Nat.lt_of_le_of_lt (Nat.le_add_right _ _) hX)
      (Nat.lt_of_le_of_lt (Nat.le_add_right _ _) hY)
  rw [← htotal, saturatingAdd_of_lt hX] at hdepositX
  rw [htotal, saturatingAdd_of_lt hY] at hdepositY
  obtain ⟨hwithdrawalX, hwithdrawalY⟩ :=
    @totals_foldl_withdrawn (amounts.foldl deposited pair) amounts
  have hadded : ∀ id ∈ BinAmount.ids amounts, (amounts.foldl deposited pair).bins.lookup id =
      some ⟨(pair.stored id).reserveX + BinAmount.sumX amounts id,
        (pair.stored id).reserveY + BinAmount.sumY amounts id⟩ := by
    intro id hid
    obtain ⟨hbinX, hbinY⟩ := hfits.bins id hid
    have hsum := (h id hid).1
    rw [lookup_foldl_deposited hid, ← hsum, saturatingAdd_of_lt hbinX,
      saturatingAdd_of_lt (hsum ▸ hbinY)]
  have huntouched : ∀ id ∉ BinAmount.ids amounts,
      (amounts.foldl deposited pair).bins.lookup id = pair.bins.lookup id :=
    fun id hid => lookup_foldl_of_not_mem (fun _ _ => lookup_deposited_ne) hid
  refine {
    deposit_eq := updateWith_deposit hlegal
    withdrawal_eq := updateWith_withdrawal hlegal
    added := hadded
    untouched := huntouched
    totalX := hdepositX
    totalY := hdepositY
    restored := ?_
    restoredX := by rw [hwithdrawalX, hdepositX, htotal, Nat.add_sub_cancel]
    restoredY := by rw [hwithdrawalY, hdepositY, htotal, Nat.add_sub_cancel] }
  intro id
  by_cases hid : id ∈ BinAmount.ids amounts
  · obtain ⟨hsum, hne⟩ := h id hid
    have hstored : (amounts.foldl deposited pair).stored id =
        ⟨(pair.stored id).reserveX + BinAmount.sumX amounts id,
          (pair.stored id).reserveY + BinAmount.sumY amounts id⟩ := by
      unfold stored
      rw [hadded id hid]
      rfl
    rw [lookup_foldl_withdrawn hid, hstored, hsum, Nat.add_sub_cancel, Nat.add_sub_cancel]
    unfold stored remaining
    cases hbin : pair.bins.lookup id with
    | none => rfl
    | some bin =>
      rw [Option.getD_some, if_neg]
      obtain ⟨x, y⟩ := bin
      rintro ⟨rfl, rfl⟩
      exact hne hbin
  · rw [lookup_foldl_of_not_mem (fun _ _ => lookup_withdrawn_ne) hid, huntouched id hid]

/-- **A deposit is booked and taken back as it was meant exactly when the amounts of each bin are
equal in sum**, and no bin of them is stored with no reserves. -/
theorem booked_iff (hlegal : ∀ a ∈ amounts, a.Legal) (hfits : pair.Fits amounts) :
    (∃ deposit withdrawal, pair.Booked amounts deposit withdrawal) ↔ pair.Symmetric amounts := by
  constructor
  · intro ⟨deposit, withdrawal, h⟩
    exact h.symmetric hlegal
  · intro h
    exact ⟨_, _, h.booked hlegal hfits⟩

/-- A pair with one bin, and a deposit of one X and two Y to it. -/
def eventPair : MoeLbPair :=
  feeless 10 (2 ^ 23) 5 5 ((∅ : HashMap Nat BinReserve).insert (2 ^ 23) ⟨5, 5⟩)

def unevenDeposit : List BinAmount := [⟨2 ^ 23, 1, 2⟩]

/-- The deposit is booked as two X and one Y. -/
theorem unevenDeposit_not_booked :
    (∀ a ∈ unevenDeposit, a.Legal) ∧
      (∃ pair', eventPair.updateWith unevenDeposit true = .ok pair' ∧
        pair'.bins.lookup (2 ^ 23) = some ⟨7, 6⟩ ∧ pair'.reserveX = 7 ∧ pair'.reserveY = 6) ∧
      ¬ ∃ deposit withdrawal, eventPair.Booked unevenDeposit deposit withdrawal := by
  have hlegal : ∀ a ∈ unevenDeposit, a.Legal := by decide
  refine ⟨hlegal, ⟨_, updateWith_deposit hlegal, by decide +kernel, rfl, rfl⟩, ?_⟩
  rintro ⟨deposit, withdrawal, h⟩
  have hsum := (h.symmetric hlegal (2 ^ 23) (by decide)).1
  exact absurd hsum (by decide)

/-- Two uneven amounts for one bin that are equal in sum, and a bin that is not stored. -/
def crossedDeposit : List BinAmount := [⟨2 ^ 23, 1, 2⟩, ⟨2 ^ 23 + 1, 4, 4⟩, ⟨2 ^ 23, 2, 1⟩]

theorem booked_iff_eventPair :
    (∃ deposit withdrawal, eventPair.Booked crossedDeposit deposit withdrawal) ↔
      eventPair.Symmetric crossedDeposit :=
  booked_iff (by decide) ⟨by decide, by decide, by decide +kernel⟩

end ArbitrageBot.MoeLbPair
