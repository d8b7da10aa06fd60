import ArbitrageBot.Amms.Moe.BinPort
import ArbitrageBot.Amms.Moe.Delivery
import Mathlib.Algebra.Order.BigOperators.Group.List
import Mathlib.Data.Nat.Dist

/-!
# The off-chain swap against the on-chain quote

The contract jumps from one non-empty bin to the next; the Rust code walks id by id. A quote of the
contract that takes the whole input is a walk over the mirrored pair, as long as the bins it swaps
in are ported; such a walk delivers what the contract returns.
-/

namespace ArbitrageBot

open Lib LiquidityBook

/-- The pair of the Rust code is the pair of the contract: the parameters are those of the packed
word, within the bounds of its setters, and the bins are the non-empty ones. -/
structure Mirrors (pair : MoeLbPair) (lb : LBPair) : Prop where
  binStep : pair.binStep = lb.binStep
  binStep_lt : lb.binStep < 2 ^ 16
  unpacks : (MoeParameters.fromPair pair).Unpacks lb.parameters
  volatilityAccumulator :
    pair.volatilityAccumulator = PairParameterHelper.getVolatilityAccumulator lb.parameters
  timeOfLastUpdate : pair.timeOfLastUpdate = PairParameterHelper.getTimeOfLastUpdate lb.parameters
  activeId : pair.activeId = PairParameterHelper.getActiveId lb.parameters
  bins : ∀ id bin, pair.bins.lookup id = some bin ↔
    id < 2 ^ 24 ∧ lb.bins id ≠ 0 ∧ bin = lb.binReserve id

namespace LiquidityBook.LBPair

variable (lb : LBPair) (swapForY : Bool)

/-- The states in which the rounds of `getSwapOut` begin. -/
def visits (gas timestamp amountIn : Nat) : List QuoteState :=
  match lb.startQuote swapForY timestamp amountIn with
  | .ok s => lb.quoteVisits swapForY gas s
  | .error _ => []

/-- What stays of the input of a bin, when the protocol takes its share of the fee. -/
def visitNet (protocolShare : Nat) (s : QuoteState) : Nat :=
  if lb.reserveOut swapForY s.id = 0 then 0
  else
    match lb.binAmounts swapForY s with
    | .ok (_, amountsInWithFees, _, totalFees) =>
      PackedUint128Math.decode amountsInWithFees swapForY -
        protocolShare * PackedUint128Math.decode totalFees swapForY / 10000
    | .error _ => 0

/-- What stays of the input of a quote. -/
def netInput (gas timestamp amountIn protocolShare : Nat) : Nat :=
  ((lb.visits swapForY gas timestamp amountIn).map (lb.visitNet swapForY protocolShare)).sum

/-- A bin that the Rust code swaps in as the contract does: both tokens are in it, and the low limbs
of its reserve and of the input quote alike. -/
structure Ported (s : QuoteState) : Prop where
  reserveIn_ne_zero : lb.reserveIn swapForY s.id ≠ 0
  alike : ∀ parameters price f,
    PairParameterHelper.updateVolatilityAccumulator s.parameters s.id = .ok parameters →
    PriceHelper.getPriceFromId s.id lb.binStep = .ok price →
    PairParameterHelper.getTotalFee parameters lb.binStep = .ok f →
    QuotesAlike swapForY price.toNat f (lb.reserveOut swapForY s.id)
      (PackedUint128Math.decode s.amountsInLeft swapForY)

/-- What is said of the value of a computation is decided by running it. -/
def decidableForallOk {ε α : Type} (x : Except ε α) {P : α → Prop} (h : ∀ a, Decidable (P a)) :
    Decidable (∀ a, x = .ok a → P a) :=
  match x with
  | .error _ => isTrue fun _ h => by cases h
  | .ok a =>
    haveI := h a
    decidable_of_iff (P a) ⟨fun h _ heq => Except.ok.inj heq ▸ h, fun h => h a rfl⟩

instance (s : QuoteState) : Decidable (lb.Ported swapForY s) :=
  let halike := decidableForallOk
      (PairParameterHelper.updateVolatilityAccumulator s.parameters s.id) fun parameters =>
    decidableForallOk (PriceHelper.getPriceFromId s.id lb.binStep) fun price =>
    decidableForallOk (PairParameterHelper.getTotalFee parameters lb.binStep) fun f =>
      inferInstanceAs (Decidable (QuotesAlike swapForY price.toNat f (lb.reserveOut swapForY s.id)
        (PackedUint128Math.decode s.amountsInLeft swapForY)))
  if hin : lb.reserveIn swapForY s.id ≠ 0 then
    match halike with
    | .isTrue h => .isTrue ⟨hin, fun parameters price f h₁ h₂ h₃ => h parameters h₁ price h₂ f h₃⟩
    | .isFalse h => .isFalse fun hported => h fun parameters h₁ price h₂ f h₃ =>
        hported.alike parameters price f h₁ h₂ h₃
  else .isFalse fun hported => hin hported.reserveIn_ne_zero

end LiquidityBook.LBPair

/-! ## The walk to the next bin -/

section

variable {swapForY : Bool} {id id' j : Nat}

/-- One id further on the way to `id'`. -/
theorem nextId_of_beyond (h : Beyond swapForY id id') (hlt : id' < 2 ^ 24) :
    nextId id swapForY ≠ id ∧ Beyond swapForY id (nextId id swapForY) ∧
      (nextId id swapForY = id' ∨ Beyond swapForY (nextId id swapForY) id') ∧
      Nat.dist id id' = Nat.dist (nextId id swapForY) id' + 1 := by
  unfold Beyond nextId Nat.dist at *
  cases swapForY with
  | true =>
    simp only [↓reduceIte] at *
    omega
  | false =>
    simp only [Bool.false_eq_true, ↓reduceIte] at *
    omega

/-- Ids on the way are as far as their parts. -/
theorem dist_of_beyond (h : id = j ∨ Beyond swapForY id j) (h' : Beyond swapForY j id') :
    Beyond swapForY id id' ∧ Nat.dist id id' = Nat.dist id j + Nat.dist j id' := by
  unfold Beyond Nat.dist at *
  cases swapForY with
  | true =>
    simp only [↓reduceIte] at *
    omega
  | false =>
    simp only [Bool.false_eq_true, ↓reduceIte] at *
    omega

end

variable {prof : BuildProfile} {pair : MoeLbPair} {lb : LBPair} {swapForY : Bool}
  {timestamp id id' loops net out a : Nat} {left : U256}

theorem MoeLbPair.Delivers.loops_pos
    (h : pair.Delivers prof swapForY timestamp loops id left net out) : 0 < loops := by
  cases h with
  | taken quote some room => exact Nat.succ_pos _
  | emptied quote some room part next rest => exact Nat.succ_pos _
  | passed quote next rest => exact Nat.succ_pos _

/-- A walk from an id that pays nothing is one from the next id. -/
theorem MoeLbPair.delivers_of_idle
    (hquote : pair.quoteAt prof swapForY timestamp id left = .ok (0, 0, 0, true))
    (hnext : nextId id swapForY ≠ id) :
    pair.Delivers prof swapForY timestamp loops id left net out ↔
      ∃ k, loops = k + 1 ∧
        pair.Delivers prof swapForY timestamp k (nextId id swapForY) left net out := by
  constructor
  · intro h
    cases h with
    | taken quote some room =>
      rw [hquote] at quote
      cases quote
      exact absurd rfl some
    | emptied quote some room part next rest =>
      rw [hquote] at quote
      cases quote
      exact absurd rfl some
    | passed quote next rest => exact ⟨_, rfl, rest⟩
  · rintro ⟨k, rfl, hrest⟩
    exact .passed hquote hnext hrest

/-- A walk from a bin that is emptied is one from the next id with the rest. -/
theorem MoeLbPair.delivers_of_emptied {i o f : U256}
    (hquote : pair.quoteAt prof swapForY timestamp id left = .ok (i, o, f, true)) (hsome : o ≠ 0)
    (hroom : pair.HasRoom swapForY timestamp id i o f) (hpart : i < left)
    (hnext : nextId id swapForY ≠ id) :
    pair.Delivers prof swapForY timestamp loops id left (pair.netAt timestamp id i f + net)
        (o.toNat + out) ↔
      ∃ k, loops = k + 1 ∧
        pair.Delivers prof swapForY timestamp k (nextId id swapForY) (left - i) net out := by
  constructor
  · intro h
    generalize hnet : pair.netAt timestamp id i f + net = net' at h
    generalize hout : o.toNat + out = out' at h
    cases h with
    | taken quote some room =>
      rw [hquote] at quote
      cases quote
      exact absurd hpart (Nat.lt_irrefl _)
    | emptied quote some room part next rest =>
      rw [hquote] at quote
      cases quote
      obtain rfl := Nat.add_left_cancel hnet
      obtain rfl := Nat.add_left_cancel hout
      exact ⟨_, rfl, rest⟩
    | passed quote next rest =>
      rw [hquote] at quote
      cases quote
      exact absurd rfl hsome
  · rintro ⟨k, rfl, hrest⟩
    exact .emptied hquote hsome hroom hpart hnext hrest

/-- A walk that passes the ids before a bin by is one from there. -/
theorem MoeLbPair.delivers_of_reach
    (hidle : ∀ j, j = id ∨ Beyond swapForY id j → Beyond swapForY j id' →
      pair.quoteAt prof swapForY timestamp j left = .ok (0, 0, 0, true))
    (h : id = id' ∨ Beyond swapForY id id') (hlt : id' < 2 ^ 24) :
    pair.Delivers prof swapForY timestamp loops id left net out ↔
      ∃ k, loops = k + Nat.dist id id' ∧
        pair.Delivers prof swapForY timestamp k id' left net out := by
  generalize hn : Nat.dist id id' = n
  induction n generalizing id loops with
  | zero =>
    obtain rfl := Nat.eq_of_dist_eq_zero hn
    exact ⟨fun hdel => ⟨loops, rfl, hdel⟩, fun ⟨k, hk, hdel⟩ => hk ▸ hdel⟩
  | succ n ih =>
    rcases h with rfl | hbeyond
    · rw [Nat.dist_self] at hn
      cases hn
    · obtain ⟨hne, hstep, hrest, hdist⟩ := nextId_of_beyond hbeyond hlt
      have hidle' : ∀ j, j = nextId id swapForY ∨ Beyond swapForY (nextId id swapForY) j →
          Beyond swapForY j id' →
            pair.quoteAt prof swapForY timestamp j left = .ok (0, 0, 0, true) := by
        intro j hj
        refine hidle j (.inr ?_)
        rcases hj with rfl | hj
        · exact hstep
        · exact hstep.trans hj
      rw [delivers_of_idle (hidle id (.inl rfl) hbeyond) hne]
      constructor
      · rintro ⟨k, rfl, hdel⟩
        obtain ⟨m, rfl, hrest⟩ := (ih hidle' hrest (by omega)).mp hdel
        exact ⟨m, by omega, hrest⟩
      · rintro ⟨m, rfl, hdel⟩
        exact ⟨m + n, by omega, (ih hidle' hrest (by omega)).mpr ⟨m, rfl, hdel⟩⟩

namespace Mirrors

theorem lookup_of_reserveOut (h : Mirrors pair lb) (hid : id < 2 ^ 24)
    (hr : lb.reserveOut swapForY id ≠ 0) : pair.bins.lookup id = some (lb.binReserve id) := by
  refine (h.bins id _).mpr ⟨hid, fun hzero => hr ?_, rfl⟩
  unfold LBPair.reserveOut
  rw [hzero, PackedUint128Math.decode_eq]
  cases swapForY with
  | true => rfl
  | false => rfl

/-- The Rust code passes a bin by that holds none of the token that is bought. -/
theorem quoteAt_idle (h : Mirrors pair lb) (hr : lb.reserveOut swapForY id = 0) :
    pair.quoteAt prof swapForY timestamp id left = .ok (0, 0, 0, true) := by
  cases hbin : pair.bins.lookup id with
  | none => exact MoeLbPair.quoteAt_of_none hbin
  | some bin =>
    obtain ⟨-, -, rfl⟩ := (h.bins id bin).mp hbin
    rw [← LBPair.binReserve_reserveOut] at hr
    refine MoeLbPair.quoteAt_of_oneSided hbin ?_
    unfold BinReserve.reserveOut at hr
    cases swapForY with
    | true => exact .inr hr
    | false => exact .inl hr

/-- Between two visited bins there is nothing to swap with. -/
theorem quoteAt_between (h : Mirrors pair lb) {next j : Nat} (hid : id < 2 ^ 24)
    (hnext : FirstBeyond swapForY (fun j => j < 2 ^ 24 ∧ lb.bins j ≠ 0) id next)
    (hj : Beyond swapForY id j) (hj' : Beyond swapForY j next) :
    pair.quoteAt prof swapForY timestamp j left = .ok (0, 0, 0, true) := by
  have hjlt : j < 2 ^ 24 := hj.lt_of_lt hj' hid hnext.mem.1
  have hempty : lb.bins j = 0 := by
    by_contra hne
    rcases hnext.first j ⟨hjlt, hne⟩ hj with rfl | hback
    · exact hj'.asymm hj'
    · exact hj'.asymm hback
  refine h.quoteAt_idle ?_
  unfold LBPair.reserveOut
  rw [hempty, PackedUint128Math.decode_eq]
  cases swapForY with
  | true => rfl
  | false => rfl

theorem parametersAt_protocolShare :
    (pair.parametersAt timestamp id).protocolShare = pair.protocolShareBps := by
  unfold MoeLbPair.parametersAt MoeParameters.updateReferences
  dsimp only [MoeParameters.updateVolatilityAccumulator]
  split
  · rfl
  · rfl

theorem toNat_protocolFeeAmountU256 {mp : MoeParameters} {fee : Nat}
    (hshare : mp.protocolShare ≤ 2500) (hfee : fee < 2 ^ 64) :
    (mp.protocolFeeAmountU256 (BitVec.ofNat 256 fee)).toNat = mp.protocolShare * fee / 10000 := by
  have hprod : mp.protocolShare * fee ≤ 2500 * 2 ^ 64 := Nat.mul_le_mul hshare (Nat.le_of_lt hfee)
  have hmax : (BitVec.ofNat 256 Moe.BASIS_POINT_MAX_U128).toNat = 10000 := rfl
  unfold MoeParameters.protocolFeeAmountU256
  by_cases hzero : mp.protocolShare = 0
  · rw [if_pos hzero, hzero, Nat.zero_mul, Nat.zero_div]
    rfl
  · rw [if_neg hzero, BitVec.toNat_udiv, BitVec.toNat_mul, BitVec.toNat_ofNat, BitVec.toNat_ofNat,
      hmax, Nat.mod_eq_of_lt (by omega : mp.protocolShare < 2 ^ 256),
      Nat.mod_eq_of_lt (by omega : fee < 2 ^ 256),
      Nat.mod_eq_of_lt (Nat.lt_of_le_of_lt hprod (by norm_num))]

section

variable {s : QuoteState} {parameters price : U256} {f : Nat} {q : BinQuote.Quote}

/-- What stays of the input of a ported bin, on both sides. -/
theorem netAt_eq (h : Mirrors pair lb) (hin : q.amountIn < 2 ^ 64) (hfee : q.fee < 2 ^ 64) :
    pair.netAt timestamp id (BitVec.ofNat 256 q.amountIn) (BitVec.ofNat 256 q.fee) =
      q.amountIn - pair.protocolShareBps * q.fee / 10000 := by
  have hshare : pair.protocolShareBps ≤ 2500 := h.unpacks.protocolShare_le
  unfold MoeLbPair.netAt MoeLbPair.netIn
  rw [toNat_protocolFeeAmountU256 (parametersAt_protocolShare ▸ hshare) hfee,
    parametersAt_protocolShare, BitVec.toNat_ofNat, Nat.mod_eq_of_lt (by omega)]

theorem visitNet_eq (hr : lb.reserveOut swapForY s.id ≠ 0)
    (hin : q.amountIn < 2 ^ 64) (hfee : q.fee < 2 ^ 64)
    (hamounts : lb.binAmounts swapForY s = .ok (parameters,
      PackedUint128Math.encode q.amountIn swapForY,
      PackedUint128Math.encode q.amountOut (!swapForY),
      PackedUint128Math.encode q.fee swapForY)) (share : Nat) :
    lb.visitNet swapForY share s = q.amountIn - share * q.fee / 10000 := by
  unfold LBPair.visitNet
  rw [if_neg hr, hamounts]
  dsimp only
  rw [PackedUint128Math.decode_encode (by omega), PackedUint128Math.decode_encode (by omega)]

/-- A bin in which the contract swaps has room for the swap of the Rust code. -/
theorem hasRoom (h : Mirrors pair lb) (hswap : lb.BinSwap swapForY s a parameters price f q)
    (hid : s.id < 2 ^ 24) (hr : lb.reserveOut swapForY s.id ≠ 0)
    (halike : QuotesAlike swapForY price.toNat f (lb.reserveOut swapForY s.id) a) :
    pair.HasRoom swapForY timestamp s.id (BitVec.ofNat 256 q.amountIn)
      (BitVec.ofNat 256 q.amountOut) (BitVec.ofNat 256 q.fee) := by
  obtain ⟨hin, hout, hfee⟩ := halike.amounts_lt hswap
  have hshare : pair.protocolShareBps ≤ 2500 := h.unpacks.protocolShare_le
  have htoIn : (BitVec.ofNat 256 q.amountIn).toNat = q.amountIn := by
    rw [BitVec.toNat_ofNat, Nat.mod_eq_of_lt (by omega)]
  have htoOut : (BitVec.ofNat 256 q.amountOut).toNat = q.amountOut := by
    rw [BitVec.toNat_ofNat, Nat.mod_eq_of_lt (by omega)]
  refine ⟨?_, lb.binReserve s.id, h.lookup_of_reserveOut hid hr, ?_, ?_⟩
  · have hpart : pair.protocolShareBps * q.fee / 10000 ≤ q.fee := by
      apply Nat.div_le_of_le_mul
      exact Nat.mul_le_mul_right _ (Nat.le_trans hshare (by norm_num))
    rw [toNat_protocolFeeAmountU256 (parametersAt_protocolShare ▸ hshare) hfee,
      parametersAt_protocolShare, htoIn]
    exact Nat.le_trans hpart hswap.fee_le_amountIn
  · have hroom := hswap.reserveIn_add_lt
    rw [h.netAt_eq hin hfee, LBPair.binReserve_reserveIn]
    omega
  · rw [htoOut, LBPair.binReserve_reserveOut]
    exact hswap.amountOut_le

end

end Mirrors

/-! ## The simulation -/

/-- The swap of the contract from `s` to `s₁` with `a` left, and that of the Rust code in the same
bin of the mirrored pair. -/
structure SwapsAlike (prof : BuildProfile) (pair : MoeLbPair) (lb : LBPair) (swapForY : Bool)
    (timestamp a : Nat) (s s₁ : QuoteState) (q : BinQuote.Quote) : Prop where
  quote : pair.quoteAt prof swapForY timestamp s.id (BitVec.ofNat 256 a) =
    .ok (BitVec.ofNat 256 q.amountIn, BitVec.ofNat 256 q.amountOut, BitVec.ofNat 256 q.fee,
      q.amountOut == lb.reserveOut swapForY s.id)
  some : BitVec.ofNat 256 q.amountOut ≠ 0
  room : pair.HasRoom swapForY timestamp s.id (BitVec.ofNat 256 q.amountIn)
    (BitVec.ofNat 256 q.amountOut) (BitVec.ofNat 256 q.fee)
  net : pair.netAt timestamp s.id (BitVec.ofNat 256 q.amountIn) (BitVec.ofNat 256 q.fee) =
    lb.visitNet swapForY pair.protocolShareBps s
  amountIn_le : q.amountIn ≤ a
  drained : q.amountIn < a → q.amountOut = lb.reserveOut swapForY s.id
  left : s₁.amountsInLeft = PackedUint128Math.encode (a - q.amountIn) swapForY
  paid : s₁.amountOut = s.amountOut + (BitVec.ofNat 256 q.amountOut).toNat
  id_eq : s₁.id = s.id
  unpacks : ((MoeParameters.fromPair pair).updateReferences timestamp).Unpacks s₁.parameters

/-- **A ported bin swaps alike.** -/
theorem Mirrors.swapsAlike (h : Mirrors pair lb) {s s₁ : QuoteState}
    (hs : s.amountsInLeft = PackedUint128Math.encode a swapForY) (ha : a < 2 ^ 128) (hpos : 0 < a)
    (hid : s.id < 2 ^ 24)
    (hunpacks : ((MoeParameters.fromPair pair).updateReferences timestamp).Unpacks s.parameters)
    (hr : lb.reserveOut swapForY s.id ≠ 0) (hported : lb.Ported swapForY s)
    (hbin : lb.swapInBin swapForY s = .ok s₁) :
    ∃ q, SwapsAlike prof pair lb swapForY timestamp a s s₁ q := by
  obtain ⟨parameters, price, f, q, hswap, hamounts, -, hleft, hpaid, hsame, hparams⟩ :=
    LBPair.swapInBin_eq_ok hs ha hpos hr hbin
  have halike := hported.alike parameters price f hswap.parameters_eq hswap.price_eq hswap.fee_eq
  rw [hs, PackedUint128Math.decode_encode ha] at halike
  obtain ⟨hin, hout, hfee⟩ := halike.amounts_lt hswap
  have htoOut : (BitVec.ofNat 256 q.amountOut).toNat = q.amountOut := by
    rw [BitVec.toNat_ofNat, Nat.mod_eq_of_lt (by omega)]
  have hsome : 0 < q.amountOut := hswap.quote_eq ▸ halike.amountOut_pos (Nat.pos_of_ne_zero hr)
  refine ⟨q, ?_⟩
  exact {
    quote := computeBinSwap_port hswap hunpacks hid h.binStep_lt h.binStep
      (h.lookup_of_reserveOut hid hr) hported.reserveIn_ne_zero hr halike ha
    some := by
      intro hzero
      rw [hzero] at htoOut
      exact Nat.lt_irrefl 0 (by rwa [← htoOut] at hsome)
    room := h.hasRoom hswap hid hr halike
    net := (h.netAt_eq hin hfee).trans
      (Mirrors.visitNet_eq hr hin hfee hamounts pair.protocolShareBps).symm
    amountIn_le := hswap.amountIn_le
    drained := by
      intro hlt
      rcases hswap.drained_or_taken with ⟨-, hdrained⟩ | ⟨-, htaken⟩
      · exact hdrained
      · omega
    left := hleft
    paid := by rw [htoOut, hpaid]
    id_eq := hsame
    unpacks := by
      rw [hparams]
      have hnext := (hunpacks.updateVolatilityAccumulator hid hswap.parameters_eq).1
      exact { hnext with } }

/-! ## One visit -/

section

variable {s s₁ : QuoteState} {q : BinQuote.Quote} {next : Nat}

/-- Where the contract skips a bin, the walk goes on from the next one. -/
theorem Mirrors.delivers_of_skip (h : Mirrors pair lb) (hid : s.id < 2 ^ 24)
    (hr : lb.reserveOut swapForY s.id = 0)
    (hnext : FirstBeyond swapForY (fun j => j < 2 ^ 24 ∧ lb.bins j ≠ 0) s.id next) :
    pair.Delivers prof swapForY timestamp loops s.id left net out ↔
      ∃ k, loops = k + Nat.dist s.id next ∧
        pair.Delivers prof swapForY timestamp k next left net out := by
  refine MoeLbPair.delivers_of_reach (fun j hj hj' => ?_) (.inr hnext.beyond) hnext.mem.1
  rcases hj with rfl | hj
  · exact h.quoteAt_idle hr
  · exact h.quoteAt_between hid hnext hj hj'

/-- Where a bin takes what is left, the walk ends. -/
theorem SwapsAlike.delivers_of_taken
    (hswap : SwapsAlike prof pair lb swapForY timestamp a s s₁ q) (hall : q.amountIn = a) :
    pair.Delivers prof swapForY timestamp loops s.id (BitVec.ofNat 256 a)
        (lb.visitNet swapForY pair.protocolShareBps s) (BitVec.ofNat 256 q.amountOut).toNat ↔
      0 < loops := by
  refine ⟨fun hdel => hdel.loops_pos, fun hlt => ?_⟩
  have hquote := hswap.quote
  have hroom := hswap.room
  have hnet := hswap.net
  rw [hall] at hquote hroom hnet
  obtain ⟨k, rfl⟩ := Nat.exists_eq_add_of_lt hlt
  rw [Nat.zero_add, ← hnet]
  exact .taken hquote hswap.some hroom

/-- Where a bin is emptied for less, the walk goes on from the next one with the rest. -/
theorem SwapsAlike.delivers_of_emptied (h : Mirrors pair lb)
    (hswap : SwapsAlike prof pair lb swapForY timestamp a s s₁ q) (ha : a < 2 ^ 128)
    (hid : s.id < 2 ^ 24) (hlt : q.amountIn < a)
    (hnext : FirstBeyond swapForY (fun j => j < 2 ^ 24 ∧ lb.bins j ≠ 0) s.id next) :
    pair.Delivers prof swapForY timestamp loops s.id (BitVec.ofNat 256 a)
        (lb.visitNet swapForY pair.protocolShareBps s + net)
        ((BitVec.ofNat 256 q.amountOut).toNat + out) ↔
      ∃ k, loops = k + Nat.dist s.id next ∧
        pair.Delivers prof swapForY timestamp k next (BitVec.ofNat 256 (a - q.amountIn)) net
          out := by
  obtain ⟨hne, hstep, hrest, hdist⟩ := nextId_of_beyond hnext.beyond hnext.mem.1
  have htoNat : ∀ {n}, n ≤ a → (BitVec.ofNat 256 n).toNat = n := fun hn => by
    rw [BitVec.toNat_ofNat, Nat.mod_eq_of_lt (by omega)]
  have hleft : BitVec.ofNat 256 a - BitVec.ofNat 256 q.amountIn =
      BitVec.ofNat 256 (a - q.amountIn) := by
    apply BitVec.eq_of_toNat_eq
    rw [BitVec.toNat_sub_of_le, htoNat le_rfl, htoNat hlt.le, htoNat (Nat.sub_le _ _)]
    rw [BitVec.le_def, htoNat le_rfl, htoNat hlt.le]
    exact hlt.le
  have hpart : BitVec.ofNat 256 q.amountIn < BitVec.ofNat 256 a := by
    rw [BitVec.lt_def, htoNat le_rfl, htoNat hlt.le]
    exact hlt
  have hquote := hswap.quote
  rw [hswap.drained hlt, beq_self_eq_true, ← hswap.drained hlt] at hquote
  have hwalk : ∀ k, pair.Delivers prof swapForY timestamp k (nextId s.id swapForY)
      (BitVec.ofNat 256 (a - q.amountIn)) net out ↔
        ∃ m, k = m + Nat.dist (nextId s.id swapForY) next ∧
          pair.Delivers prof swapForY timestamp m next (BitVec.ofNat 256 (a - q.amountIn)) net
            out := by
    intro k
    refine MoeLbPair.delivers_of_reach (fun j hj hj' => ?_) hrest hnext.mem.1
    refine h.quoteAt_between hid hnext ?_ hj'
    rcases hj with rfl | hj
    · exact hstep
    · exact hstep.trans hj
  rw [← hswap.net, MoeLbPair.delivers_of_emptied hquote hswap.some hswap.room hpart hne, hleft]
  constructor
  · rintro ⟨k, rfl, hk⟩
    obtain ⟨m, rfl, hm⟩ := (hwalk k).mp hk
    exact ⟨m, by omega, hm⟩
  · rintro ⟨m, rfl, hm⟩
    exact ⟨m + Nat.dist (nextId s.id swapForY) next, by omega, (hwalk _).mpr ⟨m, rfl, hm⟩⟩

/-- What holds within every number of ids that reaches the visits from the next bin, in terms of the
visits from this one. -/
theorem near_cons_iff {visits : List QuoteState} {t : QuoteState} {P : Nat → Prop}
    (hfirst : t ∈ visits) (hbeyond : Beyond swapForY s.id t.id)
    (hsides : ∀ u ∈ visits, t.id = u.id ∨ Beyond swapForY t.id u.id)
    (hP : ∀ k, P k ↔ ∀ u ∈ visits, Nat.dist t.id u.id < k) :
    (∃ k, loops = k + Nat.dist s.id t.id ∧ P k) ↔
      ∀ u ∈ s :: visits, Nat.dist s.id u.id < loops := by
  have hdist : ∀ u ∈ visits, Nat.dist s.id u.id = Nat.dist s.id t.id + Nat.dist t.id u.id := by
    intro u hu
    rcases hsides u hu with heq | hside
    · rw [← heq, Nat.dist_self, Nat.add_zero]
    · exact (dist_of_beyond (.inr hbeyond) hside).2
  rw [List.forall_mem_cons, Nat.dist_self]
  constructor
  · rintro ⟨k, rfl, hk⟩
    have hnear := (hP k).mp hk
    have hpos := hnear t hfirst
    refine ⟨by omega, fun u hu => ?_⟩
    have hlt := hnear u hu
    have hsum := hdist u hu
    omega
  · rintro ⟨-, hnear⟩
    have hlt := hnear t hfirst
    refine ⟨loops - Nat.dist s.id t.id, by omega, (hP _).mpr fun u hu => ?_⟩
    have hfar := hnear u hu
    have hsum := hdist u hu
    omega

/-- From the bin of `s` the walk over the pair delivers `out` for `a`, within any number of ids that
reaches the visits of the contract, all of which lie on one side. -/
structure DeliversVisits (prof : BuildProfile) (pair : MoeLbPair) (lb : LBPair) (swapForY : Bool)
    (timestamp a : Nat) (s : QuoteState) (visits : List QuoteState) (out : Nat) : Prop where
  sides : ∀ t ∈ visits, s.id = t.id ∨ Beyond swapForY s.id t.id
  delivers : ∀ loops, pair.Delivers prof swapForY timestamp loops s.id (BitVec.ofNat 256 a)
    (visits.map (lb.visitNet swapForY pair.protocolShareBps)).sum out ↔
      ∀ t ∈ visits, Nat.dist s.id t.id < loops

variable {t : QuoteState} {visits : List QuoteState}

theorem DeliversVisits.sides_cons
    (hrest : DeliversVisits prof pair lb swapForY timestamp a t visits out)
    (hbeyond : Beyond swapForY s.id t.id) :
    ∀ u ∈ s :: visits, s.id = u.id ∨ Beyond swapForY s.id u.id := by
  intro u hu
  rcases List.mem_cons.mp hu with rfl | hu
  · exact .inl rfl
  · rcases hrest.sides u hu with heq | hside
    · exact .inr (heq ▸ hbeyond)
    · exact .inr (hbeyond.trans hside)

theorem DeliversVisits.skip (h : Mirrors pair lb) (hid : s.id < 2 ^ 24)
    (hr : lb.reserveOut swapForY s.id = 0)
    (hnext : FirstBeyond swapForY (fun j => j < 2 ^ 24 ∧ lb.bins j ≠ 0) s.id t.id)
    (hfirst : t ∈ visits)
    (hrest : DeliversVisits prof pair lb swapForY timestamp a t visits out) :
    DeliversVisits prof pair lb swapForY timestamp a s (s :: visits) out := by
  refine ⟨hrest.sides_cons hnext.beyond, fun loops => ?_⟩
  have hnone : lb.visitNet swapForY pair.protocolShareBps s = 0 := if_pos hr
  rw [List.map_cons, List.sum_cons, hnone, Nat.zero_add,
    ← near_cons_iff hfirst hnext.beyond hrest.sides hrest.delivers]
  exact h.delivers_of_skip hid hr hnext

theorem DeliversVisits.taken
    (hswap : SwapsAlike prof pair lb swapForY timestamp a s s₁ q) (hall : q.amountIn = a) :
    DeliversVisits prof pair lb swapForY timestamp a s [s]
      (BitVec.ofNat 256 q.amountOut).toNat := by
  refine ⟨fun u hu => .inl (List.mem_singleton.mp hu ▸ rfl), fun loops => ?_⟩
  rw [List.map_singleton, List.sum_singleton, List.forall_mem_singleton, Nat.dist_self]
  exact hswap.delivers_of_taken hall

theorem DeliversVisits.emptied (h : Mirrors pair lb)
    (hswap : SwapsAlike prof pair lb swapForY timestamp a s s₁ q) (ha : a < 2 ^ 128)
    (hid : s.id < 2 ^ 24) (hlt : q.amountIn < a)
    (hnext : FirstBeyond swapForY (fun j => j < 2 ^ 24 ∧ lb.bins j ≠ 0) s.id t.id)
    (hfirst : t ∈ visits)
    (hrest : DeliversVisits prof pair lb swapForY timestamp (a - q.amountIn) t visits out) :
    DeliversVisits prof pair lb swapForY timestamp a s (s :: visits)
      ((BitVec.ofNat 256 q.amountOut).toNat + out) := by
  refine ⟨hrest.sides_cons hnext.beyond, fun loops => ?_⟩
  rw [List.map_cons, List.sum_cons,
    ← near_cons_iff hfirst hnext.beyond hrest.sides hrest.delivers]
  exact hswap.delivers_of_emptied h ha hid hlt hnext

end

/-- **A quote that takes the whole input is delivered** by the walk over the mirrored pair, from the
bin where the contract is, within any number of ids that reaches the bins that it visits. -/
theorem Mirrors.quoteLoop_delivers (h : Mirrors pair lb) {gas : Nat} {s s' : QuoteState}
    (hs : s.amountsInLeft = PackedUint128Math.encode a swapForY) (ha : a < 2 ^ 128) (hpos : 0 < a)
    (hid : s.id < 2 ^ 24)
    (hunpacks : ((MoeParameters.fromPair pair).updateReferences timestamp).Unpacks s.parameters)
    (hported : ∀ t ∈ lb.quoteVisits swapForY gas s,
      lb.reserveOut swapForY t.id ≠ 0 → lb.Ported swapForY t)
    (hloop : lb.quoteLoop swapForY gas s = .ok s')
    (hdone : PackedUint128Math.decode s'.amountsInLeft swapForY = 0) :
    ∃ out, s'.amountOut = s.amountOut + out ∧ DeliversVisits prof pair lb swapForY timestamp a s
      (lb.quoteVisits swapForY gas s) out := by
  induction gas generalizing s a with
  | zero => cases hloop
  | succ gas ih =>
    obtain ⟨s₁, hbin, hcase⟩ := LBPair.quoteLoop_eq_ok hloop
    have hmem : s ∈ lb.quoteVisits swapForY (gas + 1) s := List.mem_cons_self
    -- Where input is left, the contract goes on and the rest of its loop is delivered.
    have hgo : ∀ {b : Nat}, s₁.amountsInLeft = PackedUint128Math.encode b swapForY → 0 < b →
        b ≤ a → s₁.id = s.id →
        ((MoeParameters.fromPair pair).updateReferences timestamp).Unpacks s₁.parameters →
        ∃ t visits out, FirstBeyond swapForY (fun j => j < 2 ^ 24 ∧ lb.bins j ≠ 0) s.id t.id ∧
          t ∈ visits ∧ lb.quoteVisits swapForY (gas + 1) s = s :: visits ∧
          s'.amountOut = s₁.amountOut + out ∧
          DeliversVisits prof pair lb swapForY timestamp b t visits out := by
      intro b hb hbpos hba hsame hunp
      rcases hcase with ⟨rfl, -⟩ | ⟨-, h0, hmax, hrest, hvisits⟩
      · rw [hb, PackedUint128Math.decode_encode (by omega)] at hdone
        omega
      · have hnext := LBPair.getNextNonEmptyBin_spec (hsame.symm ▸ hid) h0 hmax
        rw [hsame] at hnext hrest hvisits
        rw [hvisits] at hported
        obtain ⟨out, hout, hdel⟩ := ih
          (s := { s₁ with id := lb.getNextNonEmptyBin swapForY s.id }) hb (by omega) hbpos
          hnext.mem.1 hunp (fun t ht => hported t (List.mem_cons_of_mem _ ht)) hrest
        exact ⟨_, _, out, hnext, LBPair.mem_quoteVisits hrest, hvisits, hout, hdel⟩
    by_cases hr : lb.reserveOut swapForY s.id = 0
    · -- The contract skips the bin.
      rw [LBPair.swapInBin_skip hr] at hbin
      cases hbin
      obtain ⟨t, visits, out, hnext, hfirst, hvisits, hout, hdel⟩ :=
        hgo hs hpos le_rfl rfl hunpacks
      rw [hvisits]
      exact ⟨out, hout, hdel.skip h hid hr hnext hfirst⟩
    · obtain ⟨q, hswap⟩ : ∃ q, SwapsAlike prof pair lb swapForY timestamp a s s₁ q :=
        h.swapsAlike hs ha hpos hid hunpacks hr (hported s hmem hr) hbin
      by_cases hall : q.amountIn = a
      · -- The bin takes what is left.
        have hzero := hswap.left
        rw [hall, Nat.sub_self] at hzero
        rcases hcase with ⟨rfl, hvisits⟩ | ⟨hne, -⟩
        · rw [hvisits]
          exact ⟨_, hswap.paid, .taken hswap hall⟩
        · refine absurd (hzero.trans ?_) hne
          cases swapForY with
          | true => rfl
          | false => rfl
      · -- The bin is emptied.
        have hlt : q.amountIn < a := Nat.lt_of_le_of_ne hswap.amountIn_le hall
        obtain ⟨t, visits, out, hnext, hfirst, hvisits, hout, hdel⟩ := hgo hswap.left (by omega)
          (Nat.sub_le _ _) hswap.id_eq hswap.unpacks
        rw [hvisits]
        refine ⟨(BitVec.ofNat 256 q.amountOut).toNat + out, ?_,
          hdel.emptied h hswap ha hid hlt hnext hfirst⟩
        rw [hout, hswap.paid, Nat.add_assoc]

/-! ## The call -/

/-- **The off-chain swap refines the on-chain quote**: when every visited bin that holds the token
that is bought is ported, the Rust code returns the output of the contract if and only if the
visited ids are less than `MAX_ITERATIONS` away and the totals of the pair bear the swap. -/
theorem Mirrors.simulateSwapPrecise_iff (h : Mirrors pair lb) {gas amountIn fee : Nat}
    (hpos : 1 ≤ amountIn) (hlt : amountIn < 2 ^ 128)
    (hquote : lb.getSwapOut swapForY gas timestamp amountIn = .ok (0, out, fee))
    (hported : ∀ s ∈ lb.visits swapForY gas timestamp amountIn,
      lb.reserveOut swapForY s.id ≠ 0 → lb.Ported swapForY s) :
    (pair.simulateSwapPrecise prof swapForY (BitVec.ofNat 256 amountIn) timestamp).1 =
        .ok (BitVec.ofNat 256 out) ↔
      (∀ s ∈ lb.visits swapForY gas timestamp amountIn,
        Nat.dist pair.activeId s.id < MAX_ITERATIONS) ∧
      pair.totalIn swapForY +
        lb.netInput swapForY gas timestamp amountIn pair.protocolShareBps < 2 ^ 128 ∧
      out ≤ pair.totalOut swapForY := by
  unfold LBPair.getSwapOut at hquote
  unfold LBPair.netInput
  simp only [bind_eq_ok] at hquote
  obtain ⟨s, hstart, s', hloop, hret⟩ := hquote
  have hvisits : lb.visits swapForY gas timestamp amountIn = lb.quoteVisits swapForY gas s := by
    unfold LBPair.visits
    rw [hstart]
  rw [hvisits] at hported ⊢
  unfold LBPair.startQuote at hstart
  rw [bind_eq_ok] at hstart
  obtain ⟨parameters, hparameters, hstart⟩ := hstart
  have hunpacks := h.unpacks.updateReferences h.volatilityAccumulator h.timeOfLastUpdate h.activeId
    hparameters
  have hactive : pair.activeId = s.id := by
    cases hstart
    exact h.activeId
  have hid : s.id < 2 ^ 24 := by
    rw [← hactive, h.activeId]
    exact getActiveId_lt lb.parameters
  have hleft : s.amountsInLeft = PackedUint128Math.encode amountIn swapForY := by
    cases hstart
    rfl
  have hzero : s.amountOut = 0 := by
    cases hstart
    rfl
  have hparams : s.parameters = parameters := by
    cases hstart
    rfl
  obtain ⟨hdone, hrest⟩ := Prod.mk.inj (Except.ok.inj hret)
  obtain ⟨hout, -⟩ := Prod.mk.inj hrest
  obtain ⟨out', hpaid, -, hdelivers⟩ := @Mirrors.quoteLoop_delivers prof _ _ _ _ _ h _ _ _ hleft hlt
    hpos hid (hparams.symm ▸ hunpacks) hported hloop hdone
  rw [hzero, Nat.zero_add, hout] at hpaid
  subst hpaid
  have hfit : out < 2 ^ 128 := hout ▸ LBPair.quoteLoop_amountOut_lt hloop (by omega)
  have hsome : BitVec.ofNat 256 amountIn ≠ 0 := by
    intro hnone
    have hnat := congrArg BitVec.toNat hnone
    have hnat' : (0 : U256).toNat = 0 := rfl
    rw [BitVec.toNat_ofNat, Nat.mod_eq_of_lt (by omega), hnat'] at hnat
    omega
  -- Within enough ids the walk ends.
  obtain ⟨n, hn⟩ : ∃ n, ∀ t ∈ lb.quoteVisits swapForY gas s, Nat.dist s.id t.id < n :=
    ⟨((lb.quoteVisits swapForY gas s).map fun t => Nat.dist s.id t.id).sum + 1, fun t ht =>
      Nat.lt_succ_of_le (List.single_le_sum (fun _ _ => Nat.zero_le _) _
        (List.mem_map_of_mem (f := fun t : QuoteState => Nat.dist s.id t.id) ht))⟩
  have hwalk := (hdelivers n).mpr hn
  rw [hactive, ← hdelivers MAX_ITERATIONS, ← hactive]
  rw [← hactive] at hwalk
  exact MoeLbPair.simulateSwapPrecise_delivers_iff hwalk hwalk.bins_ne_nil hsome (by omega)

/-! ## A pair with one bin -/

open PairParameterHelper

/-- Parameters without fees; the active id is that of price 1. -/
def freeParameters : U256 :=
  30#256 <<< 16 ||| 600#256 <<< 28 ||| 5000#256 <<< 40 ||| 100000#256 <<< 92 |||
    8388608#256 <<< 152 ||| 8388608#256 <<< 232

/-- A pair of the contract whose only bin is the active one. -/
def oneBinQuote (z : U256) (hz : z ≠ 0) : LBPair where
  parameters := freeParameters
  binStep := 25
  bins := fun id => if id = 2 ^ 23 then z else 0
  tree := TreeMath.add { level0 := 0, level1 := fun _ => 0, level2 := fun _ => 0 } (2 ^ 23)
  tree_wellFormed := TreeMath.wellFormed_add TreeMath.wellFormed_empty (by norm_num)
  mem_tree_iff := by
    intro id _
    have hnone : TreeMath.contains { level0 := 0, level1 := fun _ => 0, level2 := fun _ => 0 } id =
        false := by
      simp [TreeMath.contains]
    rw [TreeMath.contains_add TreeMath.wellFormed_empty (by norm_num), hnone]
    by_cases hid : id = 2 ^ 23
    · rw [if_pos hid]
      exact ⟨fun _ => hz, fun _ => .inr hid⟩
    · rw [if_neg hid]
      exact ⟨fun h => absurd (h.resolve_left Bool.false_ne_true) hid, fun h => absurd rfl h⟩

/-- The same pair in the Rust code. -/
def oneBinMirror (z : U256) : MoeLbPair :=
  MoeLbPair.feeless 25 (2 ^ 23) (PackedUint128Math.decodeX z) (PackedUint128Math.decodeY z)
    ((∅ : HashMap Nat BinReserve).insert (2 ^ 23)
      ⟨PackedUint128Math.decodeX z, PackedUint128Math.decodeY z⟩)

theorem mirrors_oneBin (z : U256) (hz : z ≠ 0) : Mirrors (oneBinMirror z) (oneBinQuote z hz) where
  binStep := rfl
  binStep_lt := by norm_num [oneBinQuote]
  unpacks := {
    baseFactor := (by decide +kernel : 0 = getBaseFactor freeParameters)
    filterPeriod := (by decide +kernel : 30 = getFilterPeriod freeParameters)
    decayPeriod := (by decide +kernel : 600 = getDecayPeriod freeParameters)
    reductionFactor := (by decide +kernel : 5000 = getReductionFactor freeParameters)
    variableFeeControl := (by decide +kernel : 0 = getVariableFeeControl freeParameters)
    protocolShare := (by decide +kernel : 0 = getProtocolShare freeParameters)
    maxVolatilityAccumulator :=
      (by decide +kernel : 100000 = getMaxVolatilityAccumulator freeParameters)
    volatilityReference := (by decide +kernel : 0 = getVolatilityReference freeParameters)
    idReference := (by decide +kernel : 2 ^ 23 = getIdReference freeParameters)
    filter_le_decay := (by omega : 30 ≤ 600)
    reductionFactor_le := (by omega : 5000 ≤ 10000)
    protocolShare_le := (by omega : 0 ≤ 2500) }
  volatilityAccumulator := (by decide +kernel : 0 = getVolatilityAccumulator freeParameters)
  timeOfLastUpdate := (by decide +kernel : 0 = getTimeOfLastUpdate freeParameters)
  activeId := (by decide +kernel : 2 ^ 23 = getActiveId freeParameters)
  bins := by
    intro id bin
    unfold oneBinMirror MoeLbPair.feeless LBPair.binReserve oneBinQuote
    dsimp only
    by_cases hid : id = 2 ^ 23
    · subst hid
      rw [AList.lookup_insert, if_pos rfl]
      constructor
      · intro h
        cases h
        exact ⟨by norm_num, hz, rfl⟩
      · rintro ⟨-, -, rfl⟩
        rfl
    · rw [AList.lookup_insert_ne hid, if_neg hid]
      constructor
      · intro h
        cases h
      · rintro ⟨-, hne, -⟩
        exact absurd rfl hne

/-- The word of `twoBinPair`, whose active id is that of price 1. -/
def twoBinParameters : U256 :=
  5000#256 ||| 30#256 <<< 16 ||| 600#256 <<< 28 ||| 5000#256 <<< 40 ||| 40000#256 <<< 54 |||
    1000#256 <<< 78 ||| 100000#256 <<< 92 ||| 8388608#256 <<< 152 ||| 8388608#256 <<< 232

/-- The bins of `twoBinPair`. -/
def twoBins (id : Nat) : U256 :=
  if id = 8388608 then
    PackedUint128Math.encode 2000000 true ||| PackedUint128Math.encode 1000000 false
  else if id = 8388607 then
    PackedUint128Math.encode 1000000 true ||| PackedUint128Math.encode 2000000 false
  else 0

/-- `twoBinPair` on the chain. -/
def twoBinQuote : LBPair where
  parameters := twoBinParameters
  binStep := 10
  bins := twoBins
  tree := TreeMath.add (TreeMath.add { level0 := 0, level1 := fun _ => 0, level2 := fun _ => 0 }
    8388608) (8388607)
  tree_wellFormed := TreeMath.wellFormed_add
    (TreeMath.wellFormed_add TreeMath.wellFormed_empty (by norm_num)) (by norm_num)
  mem_tree_iff := by
    intro id _
    have hnone : TreeMath.contains { level0 := 0, level1 := fun _ => 0, level2 := fun _ => 0 } id =
        false := by
      simp [TreeMath.contains]
    rw [TreeMath.contains_add (TreeMath.wellFormed_add TreeMath.wellFormed_empty (by norm_num))
      (by norm_num), TreeMath.contains_add TreeMath.wellFormed_empty (by norm_num), hnone]
    unfold twoBins
    by_cases hactive : id = 8388608
    · rw [if_pos hactive]
      exact ⟨fun _ => by decide, fun _ => .inl (.inr hactive)⟩
    · by_cases hnext : id = 8388607
      · rw [if_neg hactive, if_pos hnext]
        exact ⟨fun _ => by decide, fun _ => .inr hnext⟩
      · rw [if_neg hactive, if_neg hnext]
        simp only [hactive, hnext, or_false, Bool.false_eq_true, ne_eq, not_true_eq_false]

theorem mirrors_twoBin : Mirrors MoeLbPair.twoBinPair twoBinQuote where
  binStep := rfl
  binStep_lt := by norm_num [twoBinQuote]
  unpacks := {
    baseFactor := (by decide +kernel : 5000 = getBaseFactor twoBinParameters)
    filterPeriod := (by decide +kernel : 30 = getFilterPeriod twoBinParameters)
    decayPeriod := (by decide +kernel : 600 = getDecayPeriod twoBinParameters)
    reductionFactor := (by decide +kernel : 5000 = getReductionFactor twoBinParameters)
    variableFeeControl := (by decide +kernel : 40000 = getVariableFeeControl twoBinParameters)
    protocolShare := (by decide +kernel : 1000 = getProtocolShare twoBinParameters)
    maxVolatilityAccumulator :=
      (by decide +kernel : 100000 = getMaxVolatilityAccumulator twoBinParameters)
    volatilityReference := (by decide +kernel : 0 = getVolatilityReference twoBinParameters)
    idReference := (by decide +kernel : 8388608 = getIdReference twoBinParameters)
    filter_le_decay := (by omega : 30 ≤ 600)
    reductionFactor_le := (by omega : 5000 ≤ 10000)
    protocolShare_le := (by omega : 1000 ≤ 2500) }
  volatilityAccumulator := (by decide +kernel : 0 = getVolatilityAccumulator twoBinParameters)
  timeOfLastUpdate := (by decide +kernel : 0 = getTimeOfLastUpdate twoBinParameters)
  activeId := (by decide +kernel : 8388608 = getActiveId twoBinParameters)
  bins := by
    intro id bin
    unfold MoeLbPair.twoBinPair MoeLbPair.feeless LBPair.binReserve twoBinQuote
    dsimp only
    rw [HashMap.lookup_insert, HashMap.lookup_insert, AList.lookup_empty]
    by_cases hactive : id = 8388608
    · subst hactive
      rw [if_pos rfl, Option.some.injEq, eq_comm]
      exact ⟨fun h => ⟨by norm_num, by decide, h⟩, fun h => h.2.2⟩
    · rw [if_neg hactive]
      by_cases hnext : id = 8388607
      · subst hnext
        rw [if_pos rfl, Option.some.injEq, eq_comm]
        exact ⟨fun h => ⟨by norm_num, by decide, h⟩, fun h => h.2.2⟩
      · rw [if_neg hnext]
        have hzero : twoBins id = 0 := by
          unfold twoBins
          rw [if_neg hactive, if_neg hnext]
        refine ⟨fun h => ?_, fun h => absurd hzero h.2.1⟩
        cases h

/-- The quote for 1500000 of X, which empties the active bin and takes a part of the next one. -/
theorem simulateSwapPrecise_iff_twoBinPair :
    (MoeLbPair.twoBinPair.simulateSwapPrecise ⟨true⟩ true (BitVec.ofNat 256 1500000) 100).1 =
        .ok (BitVec.ofNat 256 1498748) ↔
      (∀ s ∈ twoBinQuote.visits true 2 100 1500000,
        Nat.dist MoeLbPair.twoBinPair.activeId s.id < MAX_ITERATIONS) ∧
      MoeLbPair.twoBinPair.totalIn true +
        twoBinQuote.netInput true 2 100 1500000 MoeLbPair.twoBinPair.protocolShareBps < 2 ^ 128 ∧
      1498748 ≤ MoeLbPair.twoBinPair.totalOut true :=
  mirrors_twoBin.simulateSwapPrecise_iff (by norm_num) (by norm_num)
    (by decide +kernel : twoBinQuote.getSwapOut true 2 100 1500000 = .ok (0, 1498748, 753))
    (by decide +kernel)

/-- A bin with more than `2 ^ 64` of each token. -/
def deepBin : U256 :=
  PackedUint128Math.encode (2 ^ 64) true ||| PackedUint128Math.encode (2 ^ 64 + 10) false

theorem deepBin_ne_zero : deepBin ≠ 0 := by decide

/-- Of the 20 of Y that the contract pays out of `deepBin`, the Rust code pays the 10 that the low
limb of the reserve holds. -/
theorem not_refines_deepBin :
    Mirrors (oneBinMirror deepBin) (oneBinQuote deepBin deepBin_ne_zero) ∧
    (oneBinQuote deepBin deepBin_ne_zero).getSwapOut true 1 0 20 = .ok (0, 20, 0) ∧
    (∀ s ∈ (oneBinQuote deepBin deepBin_ne_zero).visits true 1 0 20,
      Nat.dist (oneBinMirror deepBin).activeId s.id ≤ MAX_ITERATIONS) ∧
    ((oneBinMirror deepBin).simulateSwapPrecise ⟨true⟩ true 20 0).1 = .ok 10 ∧
    ((oneBinMirror deepBin).simulateSwapPrecise ⟨true⟩ true 20 0).1 ≠ .ok 20 := by
  refine ⟨mirrors_oneBin deepBin deepBin_ne_zero, ?_, ?_, ?_, ?_⟩
  · decide +kernel
  · decide +kernel
  · decide +kernel
  · decide +kernel

end ArbitrageBot
