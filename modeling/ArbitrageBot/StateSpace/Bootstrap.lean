import ArbitrageBot.Amms.UniswapV2Factory
import ArbitrageBot.StateSpace.SyncSpec

/-!
# Starting from the chain

What the V2 factory finds and reads is what the chain has at the block, in whatever order the calls
are answered: every pair with code, tokens and decimals, and no other.
-/

namespace ArbitrageBot

open Lib Lib.Batches

/-! ## Finding the pairs -/

theorem mapM_getElem {α : Type} (xs : List α) {start n : Nat} (h : start + n ≤ xs.length) :
    ((List.range n).mapM fun i => xs[start + i]?) = some ((xs.drop start).take n) := by
  induction n with
  | zero => rfl
  | succ n ih =>
    have hlt : start + n < xs.length := h
    rw [List.range_succ, List.mapM_append, ih hlt.le, List.mapM_cons, List.mapM_nil,
      List.getElem?_eq_getElem hlt, List.take_add_one, List.getElem?_drop,
      List.getElem?_eq_getElem hlt]
    rfl

namespace V2Chain

variable {chain : V2Chain}

theorem pairsBatchRequest_eq {start : Nat} (hstart : start ≤ chain.allPairs.length) (step : Nat) :
    chain.pairsBatchRequest start step = some ((chain.allPairs.drop start).take step) := by
  unfold pairsBatchRequest
  dsimp only
  split
  · rename_i hlong
    rw [mapM_getElem _ (by omega), List.take_of_length_le, List.take_of_length_le]
    · rw [List.length_drop]
      omega
    · rw [List.length_drop]
  · rename_i hshort
    exact mapM_getElem _ (not_lt.mp hshort)

end V2Chain

namespace UniswapV2Factory

variable {chain : V2Chain} {net : Network} {pairs : List Address}

theorem foldlM_append (answers : List (List Address)) (before : List Address) :
    answers.foldlM (fun pairs tokens =>
      (.ok (pairs ++ tokens.filter (· ≠ 0)) : Outcome Unit (List Address))) before =
        .ok (before ++ answers.flatten.filter (· ≠ 0)) := by
  induction answers generalizing before with
  | nil => exact congrArg Except.ok (List.append_nil before).symm
  | cons tokens answers ih =>
    rw [List.foldlM_cons, ok_bind, ih, List.append_assoc, List.flatten_cons, List.filter_append]

/-- **The pairs that are found** are those of the factory, but for the zero address. -/
theorem getAllPairs_perm (h : getAllPairs net chain = .ok pairs) :
    pairs.Perm (chain.allPairs.filter (· ≠ 0)) := by
  unfold getAllPairs at h
  split at h
  · obtain ⟨answers, hanswers, hfold⟩ := foldlM_answers.mp h
    obtain ⟨windows, hwindows, hperm⟩ := Network.calls_eq hanswers
    rw [foldlM_append] at hfold
    cases hfold
    refine (hperm.flatten.filter _).trans (List.Perm.of_eq ?_)
    -- the calls return the windows of the pairs
    have hcalls : Batches.windows 766 chain.allPairs = windows := by
      refine (Function.Injective.list_map fun _ _ heq => Except.ok.inj heq) (Eq.trans ?_ hwindows)
      unfold Batches.windows
      rw [List.map_map, List.map_map]
      refine List.map_congr_left fun k hk => ?_
      have hlt := List.mem_range.mp hk
      dsimp only [Function.comp]
      rw [V2Chain.pairsBatchRequest_eq (by omega)]
      rfl
    rw [← hcalls, flatten_windows (by decide)]
  · cases h

/-! ## Reading the pools -/

/-- A pool that nothing is known of yet. -/
def blank (fee : Nat) (address : Address) : UniswapV2Pool :=
  ⟨address, .fromAddress 0, .fromAddress 0, 0, 0, fee⟩

/-- A pool once it was read. -/
def read (chain : V2Chain) (fee : Nat) (address : Address) : UniswapV2Pool :=
  match chain.poolData address with
  | some poolData =>
    if poolData.tokenA = 0 then blank fee address else populate poolData (blank fee address)
  | none => blank fee address

/-- The map of the pools, some of which were read. -/
def Reading (chain : V2Chain) (fee : Nat) (pairs done : List Address) (amms : HashMap Address AMM) :
    Prop :=
  ∀ a, amms.lookup a = if pairs.contains a then
    some (.uniswapV2Pool (if done.contains a then read chain fee a else blank fee a)) else none

variable {fee : Nat} {done : List Address} {amms : HashMap Address AMM}

theorem reading_iff : Reading chain fee pairs done amms ↔ ∀ a, amms.lookup a = if a ∈ pairs then
    some (.uniswapV2Pool (if a ∈ done then read chain fee a else blank fee a)) else none := by
  simp [Reading]

theorem Reading.start (chain : V2Chain) (fee : Nat) (pairs : List Address) :
    Reading chain fee pairs []
      ((pairs.map fun a => AMM.uniswapV2Pool (blank fee a)).foldl
        (fun amms amm => amms.insert amm.address amm) ∅) := by
  have hfold : ∀ (pairs : List Address) (amms : HashMap Address AMM) (a : Address),
      ((pairs.map fun a => AMM.uniswapV2Pool (blank fee a)).foldl
        (fun amms amm => amms.insert amm.address amm) amms).lookup a =
          if a ∈ pairs then some (.uniswapV2Pool (blank fee a)) else amms.lookup a := by
    intro pairs
    induction pairs with
    | nil => exact fun amms a => (if_neg List.not_mem_nil).symm
    | cons b pairs ih =>
      intro amms a
      rw [List.map_cons, List.foldl_cons, ih, HashMap.lookup_insert]
      have haddress : (AMM.uniswapV2Pool (blank fee b)).address = b := rfl
      rw [haddress]
      by_cases hmem : a ∈ pairs
      · rw [if_pos hmem, if_pos (List.mem_cons_of_mem b hmem)]
      · by_cases heq : a = b
        · subst heq
          rw [if_neg hmem, if_pos rfl, if_pos List.mem_cons_self]
        · rw [if_neg hmem, if_neg heq, if_neg (by simp [heq, hmem])]
  rw [reading_iff]
  intro a
  rw [hfold, AList.lookup_empty]
  simp

/-- The data of a pool, or of one read before, makes it a pool that was read. -/
theorem Reading.populateAt (h : Reading chain fee pairs done amms) {a : Address} (ha : a ∈ pairs)
    {poolData : V2PoolData} (hdata : chain.poolData a = some poolData) :
    ∃ amms', UniswapV2Factory.populateAt amms (poolData, a) = .ok amms' ∧
      Reading chain fee pairs (a :: done) amms' := by
  have hread : read chain fee a = if poolData.tokenA = 0 then blank fee a
      else populate poolData (blank fee a) := by
    simp only [read, hdata]
  have hother : ∀ b, b ≠ a → (b ∈ a :: done ↔ b ∈ done) := by
    intro b hb
    simp [hb]
  unfold UniswapV2Factory.populateAt
  simp only [reading_iff] at h ⊢
  by_cases hzero : poolData.tokenA = 0
  · refine ⟨amms, if_pos hzero, fun b => ?_⟩
    rw [h b]
    by_cases hb : b = a
    · subst hb
      simp [hread, hzero]
    · simp [hother b hb]
  · rw [if_neg hzero] at hread
    have hlookup := h a
    rw [if_pos ha] at hlookup
    have hpopulate : populate poolData (if a ∈ done then read chain fee a else blank fee a) =
        read chain fee a := by
      rw [hread]
      split <;> rfl
    simp only [hzero, if_false, hlookup, hpopulate]
    refine ⟨_, rfl, fun b => ?_⟩
    rw [HashMap.lookup_insert]
    by_cases hb : b = a
    · subst hb
      simp [ha]
    · simp [hb, h b]

/-- The pools of one answer. -/
theorem Reading.zip {group : List Address} (h : Reading chain fee pairs done amms)
    (hgroup : ∀ a ∈ group, a ∈ pairs) {returnData : List V2PoolData}
    (hdata : chain.poolDataBatchRequest group = some returnData) :
    ∃ amms', (returnData.zip group).foldlM UniswapV2Factory.populateAt amms = .ok amms' ∧
      Reading chain fee pairs (group.reverse ++ done) amms' := by
  unfold V2Chain.poolDataBatchRequest at hdata
  induction group generalizing done amms returnData with
  | nil =>
    cases hdata
    exact ⟨amms, rfl, h⟩
  | cons a group ih =>
    obtain ⟨ha, hgroup⟩ := List.forall_mem_cons.mp hgroup
    simp only [List.mapM_cons, Option.bind_eq_bind, Option.bind_eq_some_iff, Option.pure_def,
      Option.some.injEq] at hdata
    obtain ⟨poolData, hpool, rest, hrest, rfl⟩ := hdata
    obtain ⟨amms', hfirst, hreading⟩ := h.populateAt ha hpool
    obtain ⟨amms'', hfold, hreading'⟩ := ih hreading hgroup hrest
    refine ⟨amms'', ?_, ?_⟩
    · rw [List.zip_cons_cons, List.foldlM_cons, hfirst, ok_bind]
      exact hfold
    · simpa using hreading'

/-- The pools of some answers. -/
theorem Reading.answers {answers : List (List Address × List V2PoolData)}
    (h : Reading chain fee pairs done amms)
    (hanswers : ∀ answer ∈ answers, (∀ a ∈ answer.1, a ∈ pairs) ∧
      chain.poolDataBatchRequest answer.1 = some answer.2) :
    ∃ amms', answers.foldlM (fun amms answer =>
        (answer.2.zip answer.1).foldlM UniswapV2Factory.populateAt amms) amms = .ok amms' ∧
      ∃ done', Reading chain fee pairs done' amms' ∧
        ∀ a, a ∈ done' ↔ a ∈ done ∨ a ∈ (answers.map (·.1)).flatten := by
  induction answers generalizing done amms with
  | nil => exact ⟨amms, rfl, done, h, by simp⟩
  | cons answer answers ih =>
    obtain ⟨⟨hgroup, hdata⟩, hanswers⟩ := List.forall_mem_cons.mp hanswers
    obtain ⟨amms', hfirst, hreading⟩ := h.zip hgroup hdata
    obtain ⟨amms'', hfold, done', hreading', hdone⟩ := ih hreading hanswers
    refine ⟨amms'', ?_, done', hreading', fun a => ?_⟩
    · rw [List.foldlM_cons, hfirst, ok_bind]
      exact hfold
    · rw [hdone, List.mem_append, List.mem_reverse, List.map_cons, List.flatten_cons,
        List.mem_append]
      tauto

end UniswapV2Factory

/-! ## What the chain has -/

namespace V2Chain

variable (chain : V2Chain)

/-- A token contract, with decimals that are positive and fit a byte. -/
structure HasToken (token : Token) : Prop where
  code : chain.hasCode token.address = true
  decimals : ∃ decimals, chain.decimals token.address = some decimals ∧ decimals ≠ 0 ∧
    decimals.toNat = token.decimals.toNat

/-- A pair of two tokens, with the reserves that it has. -/
structure Holds (fee : Nat) (pool : UniswapV2Pool) : Prop where
  code : chain.hasCode pool.address = true
  token0 : chain.token0 pool.address = some pool.tokenA.address
  token1 : chain.token1 pool.address = some pool.tokenB.address
  tokenA : chain.HasToken pool.tokenA
  tokenB : chain.HasToken pool.tokenB
  reserves : ∃ reserves, chain.getReserves pool.address = some reserves ∧
    pool.reserve0 = reserves.1.toNat ∧ pool.reserve1 = reserves.2.toNat
  fee : pool.fee = fee

variable {chain} {fee : Nat} {pool : UniswapV2Pool} {a : Address} {poolData : V2PoolData}

theorem tokenDecimals_eq_some_iff {token : Address} {n : UInt8} :
    chain.tokenDecimals token = some n ↔
      ∃ decimals, chain.decimals token = some decimals ∧ decimals ≠ 0 ∧
        decimals.toNat = n.toNat := by
  unfold tokenDecimals
  rw [Option.bind_eq_some_iff]
  refine exists_congr fun decimals => and_congr_right fun _ => ?_
  have hbyte := n.toNat_lt
  constructor
  · intro h
    split at h
    · cases h
    · rename_i hrange
      cases h
      rw [not_or] at hrange
      refine ⟨hrange.1, ?_⟩
      have hle : decimals.toNat ≤ 255 := Nat.le_of_not_lt hrange.2
      simp only [UInt8.toNat_ofNat']
      omega
  · rintro ⟨hne, heq⟩
    have hle : ¬ decimals > 255 := by
      rw [gt_iff_lt, BitVec.lt_def]
      simp
      omega
    rw [if_neg (not_or.mpr ⟨hne, hle⟩), heq, UInt8.ofNat_toNat]

theorem ne_zero_of_hasCode (h : chain.hasCode a = true) : a ≠ 0 := by
  rintro rfl
  exact Bool.noConfusion (chain.zero_hasCode.symm.trans h)

/-- **An entry is set exactly for a pair that the chain holds.** -/
theorem holds_populate_iff :
    chain.poolData a = some poolData ∧ poolData.tokenA ≠ 0 ↔
      chain.Holds fee (UniswapV2Factory.populate poolData (UniswapV2Factory.blank fee a)) := by
  constructor
  · rintro ⟨h, hne⟩
    have hunset : some unset ≠ some poolData := by
      rintro heq
      cases heq
      exact hne rfl
    unfold V2Chain.poolData at h
    split at h
    · exact absurd h hunset
    · rename_i hcode
      obtain ⟨tokenA, htoken0, h⟩ := Option.bind_eq_some_iff.mp h
      obtain ⟨tokenB, htoken1, h⟩ := Option.bind_eq_some_iff.mp h
      split at h
      · exact absurd h hunset
      · rename_i hcodeA
        split at h
        · exact absurd h hunset
        · rename_i hcodeB
          split at h
          · exact absurd h hunset
          · rename_i tokenADecimals hdecimalsA
            split at h
            · exact absurd h hunset
            · rename_i tokenBDecimals hdecimalsB
              obtain ⟨reserves, hreserves, h⟩ := Option.bind_eq_some_iff.mp h
              cases h
              simp only [Bool.not_eq_true', Bool.not_eq_false] at hcode hcodeA hcodeB
              refine ⟨hcode, htoken0, htoken1, ⟨hcodeA, ?_⟩, ⟨hcodeB, ?_⟩,
                ⟨reserves, hreserves, rfl, rfl⟩, rfl⟩
              · exact tokenDecimals_eq_some_iff.mp hdecimalsA
              · exact tokenDecimals_eq_some_iff.mp hdecimalsB
  · rintro ⟨hcode, htoken0, htoken1, htokenA, htokenB, ⟨reserves, hreserves, h0, h1⟩, -⟩
    have hcodeA : chain.hasCode poolData.tokenA = true := htokenA.code
    have hcodeB : chain.hasCode poolData.tokenB = true := htokenB.code
    have hdecimalsA : chain.tokenDecimals poolData.tokenA = some poolData.tokenADecimals :=
      tokenDecimals_eq_some_iff.mpr htokenA.decimals
    have hdecimalsB : chain.tokenDecimals poolData.tokenB = some poolData.tokenBDecimals :=
      tokenDecimals_eq_some_iff.mpr htokenB.decimals
    have hreserves' : chain.getReserves a = some (poolData.reserve0, poolData.reserve1) := by
      have hpair : reserves = (poolData.reserve0, poolData.reserve1) :=
        Prod.ext (BitVec.eq_of_toNat_eq h0.symm) (BitVec.eq_of_toNat_eq h1.symm)
      exact hpair ▸ hreserves
    refine ⟨?_, ne_zero_of_hasCode htokenA.code⟩
    simp only [UniswapV2Factory.populate, UniswapV2Factory.blank] at hcode htoken0 htoken1
    simp [V2Chain.poolData, hcode, htoken0, htoken1, hcodeA, hcodeB, hdecimalsA, hdecimalsB,
      hreserves']

end V2Chain

namespace UniswapV2Factory

variable {chain : V2Chain} {net net' : Network} {discovered amms : List AMM}

/-- The call for the data of a group. -/
theorem call_eq_ok {group : List Address} {a : List Address × List V2PoolData} :
    (answer (chain.poolDataBatchRequest group)).map (fun returnData => (group, returnData)) =
      .ok a ↔
      a.1 = group ∧ chain.poolDataBatchRequest a.1 = some a.2 := by
  cases hdata : chain.poolDataBatchRequest group with
  | none =>
    constructor
    · intro h
      cases h
    · rintro ⟨rfl, h⟩
      simp [hdata] at h
  | some returnData =>
    constructor
    · intro h
      cases h
      exact ⟨rfl, hdata⟩
    · rintro ⟨rfl, h⟩
      rw [hdata] at h
      cases h
      rfl

/-- The answers are about the groups that were asked for. -/
theorem answers_spec {pairs : List Address} {answers : List (List Address × List V2PoolData)}
    (h : net.calls (.err ()) (fun group => (answer (chain.poolDataBatchRequest group)).map
      fun returnData => (group, returnData)) (windows 120 pairs) = answers.map Except.ok) :
    (∀ a ∈ answers, (∀ pair ∈ a.1, pair ∈ pairs) ∧
      chain.poolDataBatchRequest a.1 = some a.2) ∧
    ∀ pair, pair ∈ (answers.map (·.1)).flatten ↔ pair ∈ pairs := by
  obtain ⟨hcalls, hgroups⟩ := Network.mem_answers h
  constructor
  · intro a ha
    obtain ⟨group, hgroup, heq⟩ := hcalls a ha
    obtain ⟨rfl, hdata⟩ := call_eq_ok.mp heq
    exact ⟨fun pair hpair => mem_of_mem_windows hgroup hpair, hdata⟩
  · intro pair
    constructor
    · intro hmem
      obtain ⟨group, hgroup, hpair⟩ := List.mem_flatten.mp hmem
      obtain ⟨a, ha, rfl⟩ := List.mem_map.mp hgroup
      obtain ⟨group, hgroup, heq⟩ := hcalls a ha
      obtain ⟨rfl, -⟩ := call_eq_ok.mp heq
      exact mem_of_mem_windows hgroup hpair
    · intro hmem
      rw [← flatten_windows (by decide : 0 < 120) pairs] at hmem
      obtain ⟨group, hgroup, hpair⟩ := List.mem_flatten.mp hmem
      obtain ⟨a, ha, heq⟩ := hgroups group hgroup
      obtain ⟨rfl, -⟩ := call_eq_ok.mp heq
      exact List.mem_flatten.mpr ⟨a.1, List.mem_map_of_mem ha, hpair⟩

theorem read_address {fee : Nat} {a : Address} : (read chain fee a).address = a := by
  unfold read
  split
  · split <;> rfl
  · rfl

/-- A pool that was read has its tokens exactly when the chain holds it. -/
theorem read_tokens_iff {fee : Nat} {a : Address} :
    (!(AMM.uniswapV2Pool (read chain fee a)).tokens.any (· = 0)) = true ↔
      chain.Holds fee (read chain fee a) := by
  constructor
  · intro h
    have hne : (read chain fee a).tokenA.address ≠ 0 := by
      intro hzero
      simp [AMM.tokens, hzero] at h
    unfold read at hne ⊢
    split
    · rename_i poolData hdata
      rw [hdata] at hne
      by_cases hzero : poolData.tokenA = 0
      · simp [hzero, blank, Token.fromAddress] at hne
      · rw [if_neg hzero]
        exact V2Chain.holds_populate_iff.mp ⟨hdata, hzero⟩
    · rename_i hdata
      simp [hdata, blank, Token.fromAddress] at hne
  · intro h
    have hA := V2Chain.ne_zero_of_hasCode h.tokenA.code
    have hB := V2Chain.ne_zero_of_hasCode h.tokenB.code
    simpa [AMM.tokens] using And.intro hA hB

/-- What the chain holds is what is read. -/
theorem eq_read_of_holds {fee : Nat} {pool : UniswapV2Pool} (h : chain.Holds fee pool) :
    pool = read chain fee pool.address := by
  obtain ⟨⟨reserve0, reserve1⟩, -, h0, h1⟩ := h.reserves
  have hpool : pool = populate
      ⟨pool.tokenA.address, pool.tokenB.address, reserve0, reserve1, pool.tokenA.decimals,
        pool.tokenB.decimals⟩ (blank fee pool.address) := by
    obtain ⟨address, tokenA, tokenB, r0, r1, fee'⟩ := pool
    obtain rfl : fee' = fee := h.fee
    simp only at h0 h1
    subst h0 h1
    rfl
  obtain ⟨hdata, hne⟩ := V2Chain.holds_populate_iff.mpr (hpool ▸ h)
  unfold read
  rw [hdata]
  exact hpool.trans (if_neg hne).symm

/-- What discovery and synchronisation find when they succeed. -/
theorem syncAllPools_spec (factory : UniswapV2Factory)
    (hdiscover : factory.discover net chain = .ok discovered)
    (hsync : syncAllPools net' chain discovered = .ok amms) :
    (amms.map (·.address)).Nodup ∧
    ∀ amm, amm ∈ amms ↔ ∃ pool, amm = .uniswapV2Pool pool ∧ pool.address ∈ chain.allPairs ∧
      chain.Holds factory.fee pool := by
  obtain ⟨state, hstate, hfilter⟩ := bind_eq_ok.mp hsync
  obtain ⟨pairs, hpairs, rfl⟩ : ∃ pairs, getAllPairs net chain = .ok pairs ∧
      discovered = pairs.map fun pair => .uniswapV2Pool (blank factory.fee pair) := by
    unfold discover at hdiscover
    cases hpairs : getAllPairs net chain with
    | error e => simp [hpairs, Except.map] at hdiscover
    | ok pairs =>
      rw [hpairs] at hdiscover
      cases hdiscover
      exact ⟨pairs, rfl, rfl⟩
  cases hfilter
  have hpairs := getAllPairs_perm hpairs
  obtain ⟨answers, hanswers, hfold⟩ := foldlM_answers.mp hstate
  have haddresses : (pairs.map fun pair => AMM.uniswapV2Pool (blank factory.fee pair)).map
      (·.address) = pairs := by
    rw [List.map_map]
    exact List.map_id' pairs
  rw [haddresses] at hanswers
  obtain ⟨hanswers, hgroups⟩ := answers_spec hanswers
  obtain ⟨amms, hfold', done, hreading, hdone⟩ :=
    (Reading.start chain factory.fee pairs).answers hanswers
  rw [hfold'] at hfold
  cases hfold
  have hread : ∀ a, state.lookup a = if a ∈ pairs then
      some (.uniswapV2Pool (read chain factory.fee a)) else none := by
    intro a
    rw [reading_iff.mp hreading a]
    by_cases ha : a ∈ pairs
    · simp [ha, (hdone a).mpr (.inr ((hgroups a).mpr ha))]
    · simp [ha]
  have hkeyed : Keyed state := by
    intro a amm h
    rw [hread] at h
    split at h
    · cases h
      exact read_address
    · cases h
  refine ⟨(hkeyed.nodup_addresses).sublist (List.filter_sublist.map _), fun amm => ?_⟩
  rw [List.mem_filter, hkeyed.mem_values_iff, hread]
  have hlisted : ∀ a, a ≠ 0 → (a ∈ pairs ↔ a ∈ chain.allPairs) := by
    intro a ha
    rw [hpairs.mem_iff, List.mem_filter]
    exact and_iff_left (decide_eq_true ha)
  constructor
  · rintro ⟨hlookup, htokens⟩
    generalize amm.address = a at hlookup
    split at hlookup
    · rename_i hmem
      cases hlookup
      have hholds := read_tokens_iff.mp htokens
      have hne := V2Chain.ne_zero_of_hasCode hholds.code
      rw [read_address] at hne
      exact ⟨_, rfl, read_address.symm ▸ (hlisted a hne).mp hmem, hholds⟩
    · cases hlookup
  · rintro ⟨pool, rfl, hmem, hholds⟩
    have hne := V2Chain.ne_zero_of_hasCode hholds.code
    have heq := eq_read_of_holds hholds
    refine ⟨?_, ?_⟩
    · exact (if_pos ((hlisted _ hne).mpr hmem)).trans
        (congrArg (some ∘ AMM.uniswapV2Pool) heq.symm)
    · rw [heq] at hholds ⊢
      exact read_tokens_iff.mpr hholds

theorem getAllPairs_total (hlength : chain.allPairs.length < UInt64.size)
    (hanswered : ∀ k, net.answered k = true) : ∃ pairs, getAllPairs net chain = .ok pairs := by
  unfold getAllPairs
  rw [if_pos hlength]
  obtain ⟨answers, hanswers⟩ := net.exists_answers (.err ())
    (fun start => answer (chain.pairsBatchRequest start 766))
    ((List.range ((chain.allPairs.length + (766 - 1)) / 766)).map (· * 766)) hanswered (by
      intro start hstart
      obtain ⟨k, hk, rfl⟩ := List.mem_map.mp hstart
      have hlt := List.mem_range.mp hk
      exact ⟨_, congrArg answer (V2Chain.pairsBatchRequest_eq (by omega) 766)⟩)
  exact ⟨_, foldlM_answers.mpr ⟨answers, hanswers, foldlM_append answers []⟩⟩

theorem poolDataBatchRequest_total {group : List Address}
    (h : ∀ a ∈ group, (chain.poolData a).isSome = true) :
    ∃ returnData, chain.poolDataBatchRequest group = some returnData := by
  unfold V2Chain.poolDataBatchRequest
  induction group with
  | nil => exact ⟨[], rfl⟩
  | cons a group ih =>
    obtain ⟨ha, hgroup⟩ := List.forall_mem_cons.mp h
    obtain ⟨poolData, hdata⟩ := Option.isSome_iff_exists.mp ha
    obtain ⟨rest, hrest⟩ := ih hgroup
    exact ⟨poolData :: rest, by simp [hdata, hrest]⟩

theorem syncAllPools_total (fee : Nat) {pairs : List Address}
    (hanswered : ∀ k, net.answered k = true)
    (hpairs : ∀ a ∈ pairs, (chain.poolData a).isSome = true) :
    ∃ amms, syncAllPools net chain (pairs.map fun pair => .uniswapV2Pool (blank fee pair)) =
      .ok amms := by
  obtain ⟨answers, hanswers⟩ := net.exists_answers (.err ())
    (fun group => (answer (chain.poolDataBatchRequest group)).map fun returnData =>
      (group, returnData)) (windows 120 pairs) hanswered (by
      intro group hgroup
      obtain ⟨returnData, hdata⟩ := poolDataBatchRequest_total fun a ha =>
        hpairs a (mem_of_mem_windows hgroup ha)
      exact ⟨(group, returnData), call_eq_ok.mpr ⟨rfl, hdata⟩⟩)
  obtain ⟨state, hfold, -⟩ := (Reading.start chain fee pairs).answers
    (answers_spec hanswers).1
  have haddresses : (pairs.map fun pair => AMM.uniswapV2Pool (blank fee pair)).map
      (·.address) = pairs := by
    rw [List.map_map]
    exact List.map_id' pairs
  refine ⟨_, bind_eq_ok.mpr ⟨state, foldlM_answers.mpr ⟨answers, ?_, hfold⟩, rfl⟩⟩
  rw [haddresses]
  exact hanswers

/-- **Discovery and synchronisation find what the chain has**: when every call is answered and none
reverts, both succeed, in whatever order the answers arrive, and the pools are those pairs of the
factory that the chain holds, each once, with the tokens, the decimals and the reserves they have
there. -/
theorem discover_syncAllPools (factory : UniswapV2Factory) (net net' : Network)
    (hlength : chain.allPairs.length < UInt64.size)
    (hanswered : ∀ k, net.answered k = true) (hanswered' : ∀ k, net'.answered k = true)
    (hpairs : ∀ a ∈ chain.allPairs, a ≠ 0 → (chain.poolData a).isSome = true) :
    ∃ discovered amms, factory.discover net chain = .ok discovered ∧
      syncAllPools net' chain discovered = .ok amms ∧ (amms.map (·.address)).Nodup ∧
      ∀ amm, amm ∈ amms ↔ ∃ pool, amm = .uniswapV2Pool pool ∧ pool.address ∈ chain.allPairs ∧
        chain.Holds factory.fee pool := by
  obtain ⟨pairs, hfound⟩ := getAllPairs_total hlength hanswered
  obtain ⟨amms, hsync⟩ := syncAllPools_total factory.fee hanswered' fun a ha => by
    obtain ⟨hmem, hne⟩ := List.mem_filter.mp ((getAllPairs_perm hfound).mem_iff.mp ha)
    exact hpairs a hmem (of_decide_eq_true hne)
  have hdiscover : factory.discover net chain =
      .ok (pairs.map fun pair => .uniswapV2Pool (blank factory.fee pair)) := by
    unfold discover
    rw [hfound]
    rfl
  exact ⟨_, amms, hdiscover, hsync, syncAllPools_spec factory hdiscover hsync⟩

/-- A factory with one pair of two tokens, and one whose second token has no decimals. -/
def twoPairChain : V2Chain where
  hasCode a := [1, 2, 3, 7, 8].contains a
  allPairs := [7, 8]
  token0 _ := some 1
  token1 a := if a = 7 then some 2 else some 3
  getReserves _ := some (1000, 2000)
  decimals a := if a = 3 then none else some 18
  zero_hasCode := by decide

/-- A network that answers the last call first. -/
def lastFirst : Network := ⟨fun _ => true, List.reverse, List.reverse_perm⟩

theorem discover_syncAllPools_twoPairChain :
    ∃ discovered amms, discover ⟨300⟩ lastFirst twoPairChain = .ok discovered ∧
      syncAllPools lastFirst twoPairChain discovered = .ok amms ∧
      (amms.map (·.address)).Nodup ∧
      ∀ amm, amm ∈ amms ↔ ∃ pool, amm = .uniswapV2Pool pool ∧
        pool.address ∈ twoPairChain.allPairs ∧ twoPairChain.Holds 300 pool := by
  refine discover_syncAllPools ⟨300⟩ lastFirst lastFirst (by decide) (fun _ => rfl) (fun _ => rfl)
    fun a ha _ => ?_
  rcases List.mem_pair.mp ha with rfl | rfl <;> rfl

end UniswapV2Factory

end ArbitrageBot
