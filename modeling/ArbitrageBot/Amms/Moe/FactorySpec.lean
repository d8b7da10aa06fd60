import ArbitrageBot.Amms.Moe.Factory
import ArbitrageBot.Amms.UniswapV3.PoolSyncSpec

/-!
# The pairs that the Moe factory reads

A synchronisation keeps the pairs with reserves and two tokens with decimals, and each of them is
what the chain has, in whatever order the chunks are answered. A pair that is read on its own comes
to the same.
-/

namespace ArbitrageBot

open Lib.Batches

/-! ## Answers of the chain -/

namespace Reply

variable {α : Type}

/-- What a guarded call leaves in a variable. -/
def getD (reply : Reply α) (caught : α) : α :=
  match reply with
  | returned a => a
  | _ => caught

theorem tryCatch_some {reply : Reply α} (h : reply ≠ .unreadable) (caught : α) :
    reply.tryCatch caught some = some (reply.getD caught) := by
  cases reply with
  | returned a => rfl
  | reverted => rfl
  | unreadable => exact absurd rfl h

theorem eq_returned {reply : Reply α} {caught : α} (h : reply.getD caught ≠ caught) :
    reply = .returned (reply.getD caught) := by
  cases reply with
  | returned a => rfl
  | reverted => exact absurd rfl h
  | unreadable => exact absurd rfl h

end Reply

/-- A token contract, with decimals that are positive and fit a byte. -/
structure TokenChain.HasToken (chain : TokenChain) (token : Token) : Prop where
  code : chain.hasCode token.address = true
  decimals : ∃ decimals, chain.decimals token.address = some decimals ∧ decimals ≠ 0 ∧
    decimals.toNat = token.decimals.toNat

open GetTokenDecimalsBatchRequest (tokenDecimals) in
theorem TokenChain.hasToken_iff {chain : TokenChain} {token : Token} :
    chain.HasToken token ↔
      tokenDecimals chain token.address = token.decimals ∧ 0 < token.decimals := by
  have hbyte := token.decimals.toNat_lt
  have hpos : 0 < token.decimals ↔ 0 < token.decimals.toNat := UInt8.lt_iff_toNat_lt
  have hzero : ∀ n : UInt8, (0 : UInt8) = n → ¬ 0 < n := by
    rintro n rfl h
    exact absurd h (by decide)
  unfold tokenDecimals
  constructor
  · rintro ⟨hcode, decimals, hdecimals, hne, heq⟩
    have hle : ¬ (decimals = 0 ∨ decimals > 255) := by
      rintro (h | h)
      · exact hne h
      · rw [gt_iff_lt, BitVec.lt_def] at h
        change 255 < decimals.toNat at h
        omega
    rw [hcode, hdecimals, Bool.not_true, if_neg Bool.false_ne_true]
    dsimp only
    rw [if_neg hle, heq, UInt8.ofNat_toNat, hpos, ← heq]
    refine ⟨rfl, Nat.pos_of_ne_zero fun h => hne (BitVec.eq_of_toNat_eq h)⟩
  · rintro ⟨heq, hlive⟩
    split at heq
    · exact absurd hlive (hzero _ heq)
    · rename_i hcode
      split at heq
      · exact absurd hlive (hzero _ heq)
      · rename_i decimals hdecimals
        split at heq
        · exact absurd hlive (hzero _ heq)
        · rename_i hrange
          rw [not_or] at hrange
          refine ⟨by simpa using hcode, decimals, hdecimals, hrange.1, ?_⟩
          have hle : decimals.toNat ≤ 255 := Nat.le_of_not_lt hrange.2
          rw [← heq]
          simp only [UInt8.toNat_ofNat']
          omega

namespace MoeChain

open GetMoeLBPairSlot0BatchRequest

variable (chain : MoeChain)

/-- The calls of a pair return or revert. -/
structure Readable (a : Address) : Prop where
  getTokenX : chain.getTokenX a ≠ .unreadable
  getTokenY : chain.getTokenY a ≠ .unreadable
  getActiveId : chain.getActiveId a ≠ .unreadable
  getBinStep : chain.getBinStep a ≠ .unreadable
  getReserves : chain.getReserves a ≠ .unreadable
  getStaticFeeParameters : chain.getStaticFeeParameters a ≠ .unreadable
  getVariableFeeParameters : chain.getVariableFeeParameters a ≠ .unreadable

/-- What the contract writes for an address with code. -/
def pairEntry (a : Address) : Slot0Data :=
  entry ((chain.getTokenX a).getD 0) ((chain.getTokenY a).getD 0) ((chain.getActiveId a).getD 0)
    ((chain.getBinStep a).getD 0) ((chain.getReserves a).getD (0, 0))
    ((chain.getStaticFeeParameters a).getD noStatic)
    ((chain.getVariableFeeParameters a).getD noVariable)

/-- What the contract writes for an address. -/
def slot (a : Address) : Slot0Data :=
  if chain.hasCode a then chain.pairEntry a else entry 0 0 0 0 (0, 0) noStatic noVariable

variable {chain} {a : Address}

theorem slot0Data_eq (h : chain.hasCode a = true → chain.Readable a) :
    slot0Data chain a = some (chain.slot a) := by
  unfold slot0Data slot
  cases hcode : chain.hasCode a with
  | false => rfl
  | true =>
    obtain ⟨hX, hY, hactive, hstep, hreserves, hstatic, hvariable⟩ := h hcode
    simp only [Reply.tryCatch_some hX, Reply.tryCatch_some hY, Reply.tryCatch_some hactive,
      Reply.tryCatch_some hstep, Reply.tryCatch_some hreserves, Reply.tryCatch_some hstatic,
      Reply.tryCatch_some hvariable]
    rfl

theorem constructor_eq {pairs : List Address}
    (h : ∀ a ∈ pairs, chain.hasCode a = true → chain.Readable a) :
    constructor chain pairs = some (pairs.map chain.slot) := by
  unfold constructor
  induction pairs with
  | nil => rfl
  | cons a pairs ih =>
    obtain ⟨ha, hpairs⟩ := List.forall_mem_cons.mp h
    rw [List.mapM_cons, slot0Data_eq ha, ih hpairs]
    rfl

end MoeChain

/-! ## The batches -/

namespace MoeLbPair

open GetTokenDecimalsBatchRequest (tokenDecimals)

variable {chain : MoeChain} {net slot0 decimals : Network} {pairs : List AMM}

theorem syncSlot0_eq (hanswered : ∀ k, net.answered k = true)
    (hreadable : ∀ amm ∈ pairs, chain.hasCode amm.address = true → chain.Readable amm.address) :
    syncSlot0 net chain pairs =
      .ok (pairs.map fun amm => amm.mapMoe (·.withSlot0 (chain.slot amm.address))) := by
  refine net.updateWindows_eq (Fault.err ()) (by decide : 0 < 255) _
    (fun slot amm => amm.mapMoe (·.withSlot0 slot)) (fun amm => chain.slot amm.address) pairs
    hanswered ?_
  intro chunk hchunk
  rw [MoeChain.constructor_eq, List.map_map]
  · rfl
  · exact List.forall_mem_map.mpr fun amm hamm => hreadable amm (mem_of_mem_windows hchunk hamm)

/-- A pair with what the chain says of the decimals of its tokens. -/
def readDecimals (chain : MoeChain) (pair : MoeLbPair) : MoeLbPair :=
  { pair with
    tokenX := { pair.tokenX with
      decimals := tokenDecimals chain.toTokenChain pair.tokenX.address }
    tokenY := { pair.tokenY with
      decimals := tokenDecimals chain.toTokenChain pair.tokenY.address } }

theorem syncTokenDecimals_eq (hanswered : ∀ k, net.answered k = true) :
    syncTokenDecimals net chain pairs = .ok (pairs.map (AMM.mapMoe (readDecimals chain))) := by
  obtain ⟨m, hm, hlookup⟩ := @UniswapV3Factory.getTokenDecimals_eq _ chain.toTokenChain hanswered
    (pairs.flatMap AMM.moeTokens)
  unfold syncTokenDecimals
  rw [hm, ok_bind]
  refine congrArg Except.ok (List.map_congr_left fun amm hamm => ?_)
  have hmem := fun a ha => hlookup a (List.mem_flatMap_of_mem hamm ha)
  cases amm with
  | moeLbPair pair =>
    unfold AMM.mapMoe withDecimals readDecimals
    dsimp only
    rw [hmem _ List.mem_cons_self, hmem _ (List.mem_cons_of_mem _ List.mem_cons_self)]
    rfl
  | uniswapV2Pool pool => rfl
  | uniswapV3Pool pool => rfl
  | agniPool pool => rfl

/-- A pair once it was read. -/
def read (chain : MoeChain) (pair : MoeLbPair) : MoeLbPair :=
  readDecimals chain (pair.withSlot0 (chain.slot pair.address))

theorem readBatches_eq (hslot0 : ∀ k, slot0.answered k = true)
    (hdecimals : ∀ k, decimals.answered k = true)
    (hreadable : ∀ amm ∈ pairs, chain.hasCode amm.address = true → chain.Readable amm.address) :
    readBatches slot0 decimals chain pairs = .ok (pairs.map (AMM.mapMoe (read chain))) := by
  unfold readBatches
  rw [syncSlot0_eq hslot0 hreadable, ok_bind, syncTokenDecimals_eq hdecimals, List.map_map]
  refine congrArg Except.ok (List.map_congr_left fun amm _ => ?_)
  cases amm <;> rfl

/-- **A pair on its own** is read as in a batch. -/
theorem init_eq {pair : MoeLbPair} {x y : Address} (hslot0 : ∀ k, slot0.answered k = true)
    (hdecimals : ∀ k, decimals.answered k = true)
    (hreadable : chain.hasCode pair.address = true → chain.Readable pair.address)
    (hx : chain.getTokenX pair.address = .returned x)
    (hy : chain.getTokenY pair.address = .returned y) :
    pair.init slot0 decimals chain = .ok (read chain pair) := by
  unfold init
  simp only [hx, hy, Reply.get, answer, ok_bind]
  rw [readBatches_eq hslot0 hdecimals (List.forall_mem_singleton.mpr hreadable)]
  rfl

theorem initBasic_eq {pair : MoeLbPair} {x y : Address} {binStep : BitVec 16}
    (hslot0 : ∀ k, slot0.answered k = true) (hdecimals : ∀ k, decimals.answered k = true)
    (hreadable : chain.hasCode pair.address = true → chain.Readable pair.address)
    (hx : chain.getTokenX pair.address = .returned x)
    (hy : chain.getTokenY pair.address = .returned y)
    (hstep : chain.getBinStep pair.address = .returned binStep) :
    pair.initBasic slot0 decimals chain = .ok { read chain pair with bins := ∅ } := by
  unfold initBasic
  simp only [hx, hy, hstep, Reply.get, answer, ok_bind]
  rw [readBatches_eq hslot0 hdecimals (List.forall_mem_singleton.mpr hreadable)]
  rfl

end MoeLbPair

/-! ## What the chain has -/

/-- The pair has the parameters of its static fee. -/
structure MoeLbPair.HasStaticFee (pair : MoeLbPair) (staticFee : StaticFeeParameters) : Prop where
  baseFactor : pair.baseFactor = staticFee.baseFactor.toNat
  filterPeriod : pair.filterPeriod = staticFee.filterPeriod.toNat
  decayPeriod : pair.decayPeriod = staticFee.decayPeriod.toNat
  reductionFactor : pair.reductionFactor = staticFee.reductionFactor.toNat
  variableFeeControl : pair.variableFeeControl = staticFee.variableFeeControl.toNat
  protocolShare : pair.protocolShareBps = staticFee.protocolShare.toNat
  maxVolatilityAccumulator : pair.maxVolatilityAcc = staticFee.maxVolatilityAccumulator.toNat

/-- The pair has the parameters of its variable fee, of whose time the last 32 bits are kept. -/
structure MoeLbPair.HasVariableFee (pair : MoeLbPair) (variableFee : VariableFeeParameters) :
    Prop where
  volatilityAccumulator : pair.volatilityAccumulator = variableFee.volatilityAccumulator.toNat
  volatilityReference : pair.volatilityReference = variableFee.volatilityReference.toNat
  idReference : pair.idReference = variableFee.idReference.toNat
  timeOfLastUpdate : pair.timeOfLastUpdate = variableFee.timeOfLastUpdate.toNat % 2 ^ 32

namespace MoeChain

open GetMoeLBPairSlot0BatchRequest
open MoeFactory (isLive)

/-- A pair of two tokens with reserves, in the state that it has. What a pair does not say of its
active bin, its bin step or its fees is zero. -/
structure Holds (chain : MoeChain) (pair : MoeLbPair) : Prop where
  code : chain.hasCode pair.address = true
  getTokenX : chain.getTokenX pair.address = .returned pair.tokenX.address
  getTokenY : chain.getTokenY pair.address = .returned pair.tokenY.address
  tokenX : chain.HasToken pair.tokenX
  tokenY : chain.HasToken pair.tokenY
  reserves : ∃ reserves, chain.getReserves pair.address = .returned reserves ∧
    pair.reserveX = reserves.1.toNat ∧ pair.reserveY = reserves.2.toNat
  positive : 0 < pair.reserveX ∧ 0 < pair.reserveY
  activeId : pair.activeId = ((chain.getActiveId pair.address).getD 0).toNat
  binStep : pair.binStep = ((chain.getBinStep pair.address).getD 0).toNat
  staticFee : pair.HasStaticFee ((chain.getStaticFeeParameters pair.address).getD noStatic)
  variableFee : pair.HasVariableFee
    ((chain.getVariableFeeParameters pair.address).getD noVariable)
  bins : pair.bins = ∅

variable {chain : MoeChain} {a : Address}

theorem isLive_iff {pair : MoeLbPair} : isLive (.moeLbPair pair) = true ↔
    ((0 < pair.reserveX ∧ 0 < pair.reserveY) ∧ 0 < pair.tokenX.decimals) ∧
      0 < pair.tokenY.decimals := by
  simp [isLive]

theorem tokenDecimals_zero : GetTokenDecimalsBatchRequest.tokenDecimals chain.toTokenChain 0 = 0 :=
  if_pos (by rw [chain.zero_hasCode]; rfl)

/-- What a live pair has got from its calls. -/
theorem holds_read (hlive : isLive (.moeLbPair (.read chain (.new a))) = true) :
    chain.Holds (.read chain (.new a)) := by
  obtain ⟨⟨⟨hreserveX, hreserveY⟩, hdecimalsX⟩, hdecimalsY⟩ := isLive_iff.mp hlive
  have hcode : chain.hasCode a = true := by
    by_contra hcode
    have hslot : chain.slot a = entry 0 0 0 0 (0, 0) noStatic noVariable := if_neg hcode
    change 0 < (chain.slot a).reserveX at hreserveX
    rw [hslot] at hreserveX
    exact absurd hreserveX (by decide)
  have hread : MoeLbPair.read chain (.new a) =
      MoeLbPair.readDecimals chain ((MoeLbPair.new a).withSlot0 (chain.pairEntry a)) :=
    congrArg (fun slot => MoeLbPair.readDecimals chain ((MoeLbPair.new a).withSlot0 slot))
      (if_pos hcode)
  rw [hread] at hreserveX hreserveY hdecimalsX hdecimalsY ⊢
  -- without an answer a token is the zero address, which has no decimals
  have htoken : ∀ token : Address,
      0 < GetTokenDecimalsBatchRequest.tokenDecimals chain.toTokenChain token → token ≠ 0 := by
    rintro token hdecimals rfl
    rw [tokenDecimals_zero] at hdecimals
    exact absurd hdecimals (by decide)
  have hreserves : (chain.getReserves a).getD (0, 0) ≠ (0, 0) := by
    intro hzero
    change 0 < ((chain.getReserves a).getD (0, 0)).1.toNat at hreserveX
    rw [hzero] at hreserveX
    exact absurd hreserveX (by decide)
  exact {
    code := hcode
    getTokenX := Reply.eq_returned (htoken _ hdecimalsX)
    getTokenY := Reply.eq_returned (htoken _ hdecimalsY)
    tokenX := TokenChain.hasToken_iff.mpr ⟨rfl, hdecimalsX⟩
    tokenY := TokenChain.hasToken_iff.mpr ⟨rfl, hdecimalsY⟩
    reserves := ⟨_, Reply.eq_returned hreserves, rfl, rfl⟩
    positive := ⟨hreserveX, hreserveY⟩
    activeId := rfl
    binStep := rfl
    staticFee := ⟨rfl, rfl, rfl, rfl, rfl, rfl, rfl⟩
    variableFee := ⟨rfl, rfl, rfl, BitVec.toNat_setWidth _ _⟩
    bins := rfl }

/-- There is one state that the chain has of a pair. -/
theorem Holds.eq_read {pair : MoeLbPair} (h : chain.Holds pair) :
    pair = .read chain (.new pair.address) := by
  have hslot : chain.slot pair.address = chain.pairEntry pair.address := if_pos h.code
  obtain ⟨reserves, hreserves, hreserveX, hreserveY⟩ := h.reserves
  have htoken : ∀ token : Token, chain.HasToken token → token = ⟨token.address,
      GetTokenDecimalsBatchRequest.tokenDecimals chain.toTokenChain token.address⟩ := by
    intro token htoken
    rw [(TokenChain.hasToken_iff.mp htoken).1]
  have hX := htoken _ h.tokenX
  have hY := htoken _ h.tokenY
  have htime := h.variableFee.timeOfLastUpdate
  rw [← BitVec.toNat_setWidth] at htime
  unfold MoeLbPair.read MoeLbPair.readDecimals MoeLbPair.withSlot0 MoeLbPair.new
  dsimp only
  rw [hslot]
  unfold pairEntry entry
  rw [h.getTokenX, h.getTokenY, hreserves]
  obtain ⟨-, -, -, -, -, -, -, hactiveId, hbinStep, ⟨hbase, hfilter, hdecay, hreduction, hcontrol,
    hshare, hmax⟩, ⟨hacc, hreference, hid, -⟩, hbins⟩ := h
  cases pair
  simp only [MoeLbPair.mk.injEq]
  exact ⟨trivial, hX, hY, hbinStep, hactiveId, hreserveX, hreserveY, hbase, hfilter, hdecay,
    hreduction, hcontrol, hshare, hmax, hacc, hreference, hid, htime, hbins⟩

theorem holds_iff {pair : MoeLbPair} : chain.Holds pair ↔
    isLive (.moeLbPair (.read chain (.new pair.address))) = true ∧
      .read chain (.new pair.address) = pair := by
  constructor
  · intro h
    have hread := h.eq_read.symm
    refine ⟨?_, hread⟩
    rw [hread, isLive_iff]
    exact ⟨⟨h.positive, (TokenChain.hasToken_iff.mp h.tokenX).2⟩,
      (TokenChain.hasToken_iff.mp h.tokenY).2⟩
  · rintro ⟨hlive, hread⟩
    rw [← hread]
    exact holds_read hlive

end MoeChain

/-! ## The factory -/

namespace MoeFactory

/-- **The pairs of the factory's events**, when all calls are answered: the chain's live pairs, in
order, and no others; each is what the pair comes to when it is read on its own. -/
theorem syncAllPools_holds (slot0 decimals : Network) (chain : MoeChain) (logs : List LBPairCreated)
    (hslot0 : ∀ k, slot0.answered k = true) (hdecimals : ∀ k, decimals.answered k = true)
    (hreadable : ∀ ev ∈ logs, chain.hasCode ev.lbPair = true → chain.Readable ev.lbPair) :
    ∃ pairs : List MoeLbPair,
      syncAllPools slot0 decimals chain (getAllPools logs) = .ok (pairs.map .moeLbPair) ∧
      (pairs.map (·.address)).Sublist (logs.map (·.lbPair)) ∧
      (∀ pair, pair ∈ pairs ↔ pair.address ∈ logs.map (·.lbPair) ∧ chain.Holds pair) ∧
      ∀ pair ∈ pairs, (MoeLbPair.new pair.address).init slot0 decimals chain = .ok pair ∧
        ∀ self : MoeLbPair, self.address = pair.address →
          ∀ binStep, chain.getBinStep pair.address = .returned binStep →
            self.initBasic slot0 decimals chain = .ok pair := by
  let reads := logs.map fun ev => MoeLbPair.read chain (.new ev.lbPair)
  have hmem : ∀ pair, pair ∈ reads.filter (fun pair => isLive (.moeLbPair pair)) ↔
      pair.address ∈ logs.map (·.lbPair) ∧ chain.Holds pair := by
    intro pair
    rw [List.mem_filter, List.mem_map, List.mem_map, MoeChain.holds_iff]
    constructor
    · rintro ⟨⟨ev, hev, rfl⟩, hlive⟩
      exact ⟨⟨ev, hev, rfl⟩, hlive, rfl⟩
    · rintro ⟨⟨ev, hev, haddress⟩, hlive, hread⟩
      rw [hread] at hlive
      refine ⟨⟨ev, hev, ?_⟩, hlive⟩
      rw [haddress, hread]
  refine ⟨reads.filter fun pair => isLive (.moeLbPair pair), ?_, ?_, hmem, ?_⟩
  · have hbatches : MoeLbPair.readBatches slot0 decimals chain (getAllPools logs) =
        .ok (reads.map .moeLbPair) := by
      unfold getAllPools
      rw [MoeLbPair.readBatches_eq hslot0 hdecimals (List.forall_mem_map.mpr hreadable),
        List.map_map, List.map_map]
      rfl
    unfold syncAllPools
    rw [hbatches]
    exact congrArg Except.ok List.filter_map
  · have haddresses : reads.map (·.address) = logs.map (·.lbPair) := by
      rw [List.map_map]
      rfl
    rw [← haddresses]
    exact List.filter_sublist.map _
  · intro pair hpair
    obtain ⟨haddress, hholds⟩ := (hmem pair).mp hpair
    obtain ⟨ev, hev, heq⟩ := List.mem_map.mp haddress
    have hreadable' : chain.hasCode pair.address = true → chain.Readable pair.address :=
      heq ▸ hreadable ev hev
    have hread := hholds.eq_read.symm
    refine ⟨?_, fun self hself binStep hstep => ?_⟩
    · have hinit := @MoeLbPair.init_eq chain slot0 decimals (.new pair.address) _ _ hslot0 hdecimals
        hreadable' hholds.getTokenX hholds.getTokenY
      rw [hinit, hread]
    · rw [← hself] at hreadable' hstep hread
      rw [MoeLbPair.initBasic_eq hslot0 hdecimals hreadable' (hself ▸ hholds.getTokenX)
        (hself ▸ hholds.getTokenY) hstep]
      exact congrArg Except.ok hread

/-- A chain of one pair, which does not say its bin step. -/
def onePairChain : MoeChain where
  hasCode := fun a => a.getLsbD 0
  decimals := fun _ => some 18
  getTokenX := fun _ => .returned 3
  getTokenY := fun _ => .returned 5
  getActiveId := fun _ => .returned 8388608
  getBinStep := fun _ => .reverted
  getReserves := fun _ => .returned (1000, 1)
  getStaticFeeParameters := fun _ => .returned ⟨8000, 30, 600, 5000, 120000, 1000, 300000⟩
  getVariableFeeParameters := fun _ => .returned ⟨0, 0, 8388608, 1700000000⟩
  zero_hasCode := rfl

/-- Answers that come last first. -/
def lastFirst : Network := ⟨fun _ => true, List.reverse, List.reverse_perm⟩

theorem syncAllPools_holds_onePairChain :
    ∃ pairs : List MoeLbPair,
      syncAllPools lastFirst lastFirst onePairChain
        (getAllPools [⟨3, 5, 25, 7⟩, ⟨3, 5, 25, 8⟩]) = .ok (pairs.map .moeLbPair) ∧
      (pairs.map (·.address)).Sublist ([⟨3, 5, 25, 7⟩, ⟨3, 5, 25, 8⟩].map LBPairCreated.lbPair) ∧
      (∀ pair, pair ∈ pairs ↔
        pair.address ∈ [⟨3, 5, 25, 7⟩, ⟨3, 5, 25, 8⟩].map LBPairCreated.lbPair ∧
          onePairChain.Holds pair) ∧
      ∀ pair ∈ pairs,
        (MoeLbPair.new pair.address).init lastFirst lastFirst onePairChain = .ok pair ∧
        ∀ self : MoeLbPair, self.address = pair.address →
          ∀ binStep, onePairChain.getBinStep pair.address = .returned binStep →
            self.initBasic lastFirst lastFirst onePairChain = .ok pair :=
  syncAllPools_holds lastFirst lastFirst onePairChain [⟨3, 5, 25, 7⟩, ⟨3, 5, 25, 8⟩]
    (fun _ => rfl) (fun _ => rfl) fun _ _ _ => by constructor <;> nofun

end MoeFactory

end ArbitrageBot
