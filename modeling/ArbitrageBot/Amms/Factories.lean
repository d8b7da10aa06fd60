import ArbitrageBot.Amms.Agni.PoolSync
import ArbitrageBot.Amms.Discovery
import ArbitrageBot.Amms.Moe.Factory
import ArbitrageBot.Amms.SyncFrame

/-!
# The factories

`Factory` wraps the four factories, each of which finds its pools and reads them. Whatever the calls
are answered, a factory finds pools of its own variant, and reading pools leaves them their variant
and their addresses and makes none up; nor does `init` change which pool it is.
-/

namespace ArbitrageBot

open Lib.Batches

/-! ## Discovery -/

/-- The event of a new V3 or Agni pool. -/
structure PoolCreated where
  token0 : Address
  token1 : Address
  fee : BitVec 24
  tickSpacing : BitVec 24
  pool : Address
  deriving DecidableEq

/-- The logs of the ranges as they are answered; one that does not decode ends the loop. -/
def poolsOfLogs (createPool : PoolCreated → AMM) (net : Network)
    (getLogs : BlockRange → Option (List (Option PoolCreated))) (ranges : List BlockRange) :
    Outcome Unit (List AMM) :=
  (net.calls (.err ()) (fun range => answer (getLogs range)) ranges).foldlM
    (fun pools res => res >>= fun logs => do
      let created ← logs.mapM fun log => answer (log.map createPool)
      return pools ++ created) []

structure UniswapV3Factory where
  creationBlock : Nat

structure AgniFactory where
  creationBlock : Nat

structure MoeFactory where
  creationBlock : Nat

/-- What the calls of one task are answered, and in what order. -/
structure Answers where
  v2 : V2Chain
  v3 : V3PoolChain
  agni : V3PoolChain
  moe : MoeChain
  poolCreated : BlockRange → Option (List (Option PoolCreated))
  lbPairCreated : BlockRange → Option (List (Option LBPairCreated))
  logs : Network
  pairs : Network
  pools : Network
  batches : UniswapV3Factory.Networks
  hashSet : List Address → List Address

namespace UniswapV3Factory

def createPool (ev : PoolCreated) : AMM :=
  .uniswapV3Pool
    { UniswapV3Pool.new ev.pool with
      tokenA := .fromAddress ev.token0
      tokenB := .fromAddress ev.token1
      fee := ev.fee.toNat
      tickSpacing := ev.tickSpacing.toInt }

/-- `get_all_pools`. -/
def getAllPools (self : UniswapV3Factory) (prof : BuildProfile) (fuel : Nat) (answers : Answers)
    (blockNumber : BlockId) : Option (Outcome Unit (List AMM)) :=
  andThen ((getAllPoolsRanges prof fuel self.creationBlock blockNumber).map anyError) fun ranges =>
    some (poolsOfLogs createPool answers.logs answers.poolCreated ranges)

end UniswapV3Factory

namespace AgniFactory

def createPool (ev : PoolCreated) : AMM :=
  .agniPool
    { AgniPool.new ev.pool with
      tokenA := .fromAddress ev.token0
      tokenB := .fromAddress ev.token1
      fee := ev.fee.toNat
      tickSpacing := ev.tickSpacing.toInt }

/-- `get_all_pools`. -/
def getAllPools (self : AgniFactory) (prof : BuildProfile) (fuel : Nat) (answers : Answers)
    (blockNumber : BlockId) : Option (Outcome Unit (List AMM)) :=
  andThen ((getAllPoolsRanges prof fuel self.creationBlock blockNumber).map
      UniswapV3Factory.anyError) fun ranges =>
    some (poolsOfLogs createPool answers.logs answers.poolCreated ranges)

end AgniFactory

namespace MoeFactory

/-- `discover`, at a block that is given by its number. -/
def discover (self : MoeFactory) (answers : Answers) (toBlock : Nat) : Outcome Unit (List AMM) := do
  let logs ← answer (answers.lbPairCreated ⟨self.creationBlock, toBlock⟩)
  let logs ← logs.mapM answer
  return getAllPools logs

end MoeFactory

/-! ## The enumeration -/

inductive Factory where
  | uniswapV2Factory (factory : UniswapV2Factory)
  | uniswapV3Factory (factory : UniswapV3Factory)
  | agniFactory (factory : AgniFactory)
  | moeFactory (factory : MoeFactory)

namespace AMM

/-- The V3 pools of a list; another pool is an `unreachable!`. -/
def asUniswapV3 : AMM → Outcome Unit UniswapV3Pool
  | uniswapV3Pool pool => .ok pool
  | _ => .error .panic

/-- The Agni pools of a list; another pool is an `unreachable!`. -/
def asAgni : AMM → Outcome Unit AgniPool
  | agniPool pool => .ok pool
  | _ => .error .panic

end AMM

namespace Factory

def variant : Factory → Variant
  | uniswapV2Factory _ => .uniswapV2Pool
  | uniswapV3Factory _ => .uniswapV3Pool
  | agniFactory _ => .agniPool
  | moeFactory _ => .moeLbPair

def discover (prof : BuildProfile) (fuel : Nat) (answers : Answers) (toBlock : Nat) :
    Factory → Option (Outcome Unit (List AMM))
  | uniswapV2Factory factory => some (factory.discover answers.pairs answers.v2)
  | uniswapV3Factory factory => factory.getAllPools prof fuel answers (.number toBlock)
  | agniFactory factory => factory.getAllPools prof fuel answers (.number toBlock)
  | moeFactory factory => some (factory.discover answers toBlock)

def sync (prof : BuildProfile) (fuel : Nat) (answers : Answers) (amms : List AMM) :
    Factory → Option (Outcome Unit (List AMM))
  | uniswapV2Factory _ => some (UniswapV2Factory.syncAllPools answers.pools answers.v2 amms)
  | uniswapV3Factory _ =>
    andThen (some (amms.mapM AMM.asUniswapV3)) fun pools =>
      andThen (UniswapV3Factory.syncAllPools answers.batches answers.hashSet prof fuel
        answers.v3.toV3Chain pools) fun pools => some (.ok (pools.map .uniswapV3Pool))
  | agniFactory _ =>
    andThen (some (amms.mapM AMM.asAgni)) fun pools =>
      andThen (AgniFactory.syncAllPools answers.batches answers.hashSet prof fuel
        answers.agni.toV3Chain pools) fun pools => some (.ok (pools.map .agniPool))
  | moeFactory _ =>
    some (MoeFactory.syncAllPools answers.batches.slot0 answers.batches.decimals answers.moe amms)

end Factory

/-! ## One pool -/

/-- `UniswapV2Pool::init`; a pool that the chain does not have is a `todo!`. -/
def UniswapV2Pool.init (net : Network) (chain : V2Chain) (self : UniswapV2Pool) :
    Outcome Unit UniswapV2Pool :=
  if net.answered 0 then do
    let returnData ← answer (chain.poolDataBatchRequest [self.address])
    match returnData.head? with
    | some poolData =>
      if poolData.tokenA = 0 then .error .panic else return UniswapV2Factory.populate poolData self
    | none => .error .panic
  else .error (.err ())

def AMM.init (prof : BuildProfile) (fuel : Nat) (answers : Answers) :
    AMM → Option (Outcome Unit AMM)
  | uniswapV2Pool pool =>
    andThen (some (pool.init answers.pools answers.v2)) fun pool => some (.ok (.uniswapV2Pool pool))
  | uniswapV3Pool pool =>
    andThen (pool.init answers.batches answers.hashSet prof fuel answers.v3) fun pool =>
      some (.ok (.uniswapV3Pool pool))
  | agniPool pool =>
    andThen (pool.init answers.batches answers.hashSet prof fuel answers.agni) fun pool =>
      some (.ok (.agniPool pool))
  | moeLbPair pair =>
    andThen (some (pair.init answers.batches.slot0 answers.batches.decimals answers.moe))
      fun pair =>
      some (.ok (.moeLbPair pair))

/-! ## The V2 factory -/

/-- What a loop that succeeds has collected are the values of elements. -/
theorem mem_of_mapM_eq_ok {α β ε : Type} {f : α → Except ε β} {l : List α} {l' : List β}
    (h : l.mapM f = .ok l') {b : β} (hb : b ∈ l') : ∃ a ∈ l, f a = .ok b := by
  induction l generalizing l' with
  | nil =>
    cases h
    cases hb
  | cons a l ih =>
    rw [List.mapM_cons] at h
    cases ha : f a with
    | error e =>
      rw [ha] at h
      cases h
    | ok b' =>
      cases hl : l.mapM f with
      | error e =>
        rw [ha, hl] at h
        cases h
      | ok rest =>
        rw [ha, hl] at h
        cases h
        rcases List.mem_cons.mp hb with rfl | hb
        · exact ⟨a, List.mem_cons_self, ha⟩
        · obtain ⟨a', ha', heq⟩ := ih hl hb
          exact ⟨a', List.mem_cons_of_mem a ha', heq⟩

/-- Where two lists show the same, what an element of the one shows an element of the other does. -/
theorem exists_of_map_eq {α β : Type} {f : α → β} {l l' : List α} (h : l.map f = l'.map f) {a : α}
    (ha : a ∈ l) : ∃ a' ∈ l', f a' = f a := by
  have hmem : f a ∈ l'.map f := h ▸ List.mem_map_of_mem ha
  exact List.mem_map.mp hmem

namespace UniswapV2Factory

variable {pools amms : List AMM} {net : Network} {chain : V2Chain}

/-- The map of the pools holds given V2 pools, each at its address. -/
def Known (pools : List AMM) (amms : HashMap Address AMM) : Prop :=
  ∀ a amm, amms.lookup a = some amm →
    amm.address = a ∧ amm.variant = .uniswapV2Pool ∧ ∃ p ∈ pools, p.address = a

theorem Known.populateAt {pools : List AMM} {amms amms' : HashMap Address AMM}
    {entry : V2PoolData × Address} (h : Known pools amms)
    (hpopulate : UniswapV2Factory.populateAt amms entry = .ok amms') : Known pools amms' := by
  unfold UniswapV2Factory.populateAt at hpopulate
  split at hpopulate
  · cases hpopulate
    exact h
  · split at hpopulate
    · rename_i pool hpool
      cases hpopulate
      obtain ⟨haddress, -, hgiven⟩ := h _ _ hpool
      intro a amm hlookup
      rw [HashMap.lookup_insert] at hlookup
      split at hlookup
      · rename_i ha
        cases hlookup
        subst ha
        exact ⟨haddress, rfl, hgiven⟩
      · exact h a amm hlookup
    · cases hpopulate

theorem Known.foldlM {pools : List AMM} {entries : List (V2PoolData × Address)}
    {amms amms' : HashMap Address AMM} (h : Known pools amms)
    (hfold : entries.foldlM UniswapV2Factory.populateAt amms = .ok amms') : Known pools amms' := by
  induction entries generalizing amms with
  | nil =>
    cases hfold
    exact h
  | cons entry entries ih =>
    rw [List.foldlM_cons] at hfold
    obtain ⟨next, hnext, hfold⟩ := bind_eq_ok.mp hfold
    exact ih (h.populateAt hnext) hfold

theorem Known.answers {pools : List AMM} {answers : List (List Address × List V2PoolData)}
    {amms amms' : HashMap Address AMM} (h : Known pools amms)
    (hfold : answers.foldlM (fun amms answer =>
      (answer.2.zip answer.1).foldlM UniswapV2Factory.populateAt amms) amms = .ok amms') :
    Known pools amms' := by
  induction answers generalizing amms with
  | nil =>
    cases hfold
    exact h
  | cons answer answers ih =>
    rw [List.foldlM_cons] at hfold
    obtain ⟨next, hnext, hfold⟩ := bind_eq_ok.mp hfold
    exact ih (h.foldlM hnext) hfold

theorem Known.insert {pools : List AMM} (hvariants : ∀ p ∈ pools, p.variant = .uniswapV2Pool)
    {amms : HashMap Address AMM} (h : Known pools amms) {given : List AMM}
    (hgiven : ∀ p ∈ given, p ∈ pools) :
    Known pools (given.foldl (fun amms amm => amms.insert amm.address amm) amms) := by
  induction given generalizing amms with
  | nil => exact h
  | cons p given ih =>
    obtain ⟨hp, hgiven⟩ := List.forall_mem_cons.mp hgiven
    refine ih (fun a amm hlookup => ?_) hgiven
    rw [HashMap.lookup_insert] at hlookup
    split at hlookup
    · rename_i ha
      cases hlookup
      exact ⟨ha.symm, hvariants p hp, p, hp, ha.symm⟩
    · exact h a amm hlookup

theorem discover_variant {self : UniswapV2Factory} (h : self.discover net chain = .ok pools) :
    ∀ p ∈ pools, p.variant = .uniswapV2Pool := by
  intro p hp
  obtain ⟨pairs, -, rfl⟩ := AMM.exists_of_map_eq_ok h
  obtain ⟨pair, -, rfl⟩ := List.mem_map.mp hp
  rfl

theorem syncAllPools_same (hvariants : ∀ p ∈ pools, p.variant = .uniswapV2Pool)
    (h : syncAllPools net chain pools = .ok amms) :
    ∀ amm ∈ amms, amm.variant = .uniswapV2Pool ∧ ∃ p ∈ pools, p.address = amm.address := by
  intro amm hamm
  obtain ⟨state, hstate, hout⟩ := bind_eq_ok.mp h
  cases hout
  obtain ⟨answers, -, hfold⟩ := foldlM_answers.mp hstate
  have hempty : Known pools ∅ := fun a amm hlookup => by cases hlookup
  have hknown := (hempty.insert hvariants fun p hp => hp).answers hfold
  obtain ⟨entry, hentry, rfl⟩ := List.mem_map.mp (List.mem_filter.mp hamm).1
  obtain ⟨haddress, hvariant, p, hp, hpa⟩ :=
    hknown entry.1 entry.2 (AList.mem_lookup_iff.mpr hentry)
  exact ⟨hvariant, p, hp, hpa.trans haddress.symm⟩

end UniswapV2Factory

theorem UniswapV2Pool.init_address {net : Network} {chain : V2Chain} {pool pool' : UniswapV2Pool}
    (h : pool.init net chain = .ok pool') : pool'.address = pool.address := by
  unfold init at h
  split at h
  · obtain ⟨returnData, -, h⟩ := bind_eq_ok.mp h
    split at h
    · split at h
      · cases h
      · cases h
        rfl
    · cases h
  · cases h

/-! ## The V3 and the Agni factory -/

namespace UniswapV3Factory

variable {net : Network} {nets : Networks} {hashSet : List Address → List Address}
  {prof : BuildProfile} {fuel : Nat} {chain : V3Chain} {pools synced : List UniswapV3Pool}
  {set set' : HashMap Address UniswapV3Pool}

/-- Every pool of the set is at its address. -/
def Addressed (set : HashMap Address UniswapV3Pool) : Prop :=
  ∀ a pool, set.lookup a = some pool → pool.address = a

theorem Addressed.insert (h : Addressed set) {a : Address} {pool : UniswapV3Pool}
    (hpool : pool.address = a) : Addressed (set.insert a pool) := by
  intro b pool' hlookup
  rw [HashMap.lookup_insert] at hlookup
  split at hlookup
  · rename_i hb
    cases hlookup
    exact hpool.trans hb.symm
  · exact h b pool' hlookup

theorem addressed_poolSet (pools : List UniswapV3Pool) : Addressed (poolSet pools) := by
  intro a pool hlookup
  rw [lookup_poolSet] at hlookup
  simpa using (List.mem_filter.mp (List.mem_of_getLast? hlookup)).2

/-- A loop of steps that keep every pool at its address. -/
theorem Addressed.foldlM {β ε : Type} {step : HashMap Address UniswapV3Pool → β →
      Except ε (HashMap Address UniswapV3Pool)}
    (hstep : ∀ {set set'} {b : β}, Addressed set → step set b = .ok set' → Addressed set')
    {bs : List β} (h : Addressed set) (hfold : bs.foldlM step set = .ok set') :
    Addressed set' := by
  induction bs generalizing set with
  | nil =>
    cases hfold
    exact h
  | cons b bs ih =>
    rw [List.foldlM_cons] at hfold
    cases hnext : step set b with
    | error e =>
      rw [hnext] at hfold
      cases hfold
    | ok next =>
      rw [hnext] at hfold
      exact ih (hstep h hnext) hfold

theorem foldlM_insertChunk_address {pool pool' : UniswapV3Pool} {chunks : List (U256 × U256)}
    (h : chunks.foldlM insertChunk pool = .ok pool') : pool'.address = pool.address := by
  induction chunks generalizing pool with
  | nil =>
    cases h
    rfl
  | cons chunk chunks ih =>
    rw [List.foldlM_cons] at h
    obtain ⟨next, hnext, h⟩ := bind_eq_ok.mp h
    obtain ⟨wordPos, -, hout⟩ := bind_eq_ok.mp hnext
    cases hout
    have haddress := ih h
    exact haddress

theorem Addressed.insertRow {entry : List U256 × Address} (h : Addressed set)
    (hinsert : ArbitrageBot.insertRow set entry = .ok set') : Addressed set' := by
  unfold ArbitrageBot.insertRow at hinsert
  split at hinsert
  · cases hinsert
  · rename_i pool hpool
    obtain ⟨pool', hpool', hout⟩ := bind_eq_ok.mp hinsert
    cases hout
    exact h.insert ((foldlM_insertChunk_address hpool').trans (h _ pool hpool))

theorem foldl_insertTick_address (entries : List ((Bool × Nat × Int) × Int))
    (pool : UniswapV3Pool) : (entries.foldl insertTick pool).address = pool.address := by
  induction entries generalizing pool with
  | nil => rfl
  | cons entry entries ih =>
    rw [List.foldl_cons, ih]
    rfl

theorem Addressed.insertTickInfo {row : List (Bool × Nat × Int) × TickDataInfo}
    (h : Addressed set) (hinsert : ArbitrageBot.insertTickInfo set row = .ok set') :
    Addressed set' := by
  unfold ArbitrageBot.insertTickInfo at hinsert
  split at hinsert
  · cases hinsert
  · rename_i pool hpool
    cases hinsert
    exact h.insert ((foldl_insertTick_address _ pool).trans (h _ pool hpool))

theorem anyError_eq_ok {α : Type} {x : Outcome AMMError α} {a : α} (h : anyError x = .ok a) :
    x = .ok a := by
  cases x with
  | error e => cases h
  | ok b =>
    cases h
    rfl

theorem map_address_fromPoolSet (h : Addressed set) (pools : List UniswapV3Pool) :
    (fromPoolSet set pools).map (·.address) = pools.map (·.address) := by
  induction pools with
  | nil => rfl
  | cons pool pools ih =>
    rw [fromPoolSet, List.map_cons, List.map_cons, ih]
    congr 1
    split
    · rfl
    · cases hlookup : set.lookup pool.address with
      | none => rfl
      | some pool' => exact h _ pool' hlookup

theorem syncSlot0_address (h : syncSlot0 net chain pools = .ok synced) :
    synced.map (·.address) = pools.map (·.address) :=
  Network.updateWindows_key (f := withSlot0) (by decide : 0 < 255) (fun _ _ => rfl) h

theorem syncTokenDecimals_address (h : syncTokenDecimals net hashSet chain pools = .ok synced) :
    synced.map (·.address) = pools.map (·.address) := by
  obtain ⟨decimals, -, h⟩ := bind_eq_ok.mp h
  cases h
  rw [List.map_map]
  rfl

theorem syncTickBitmaps_address (h : syncTickBitmaps net fuel chain pools = some (.ok synced)) :
    synced.map (·.address) = pools.map (·.address) := by
  obtain ⟨groups, -, h⟩ := Option.map_eq_some_iff.mp h
  obtain ⟨set, hset, hout⟩ := bind_eq_ok.mp h
  cases hout
  obtain ⟨values, -, hfold⟩ := foldlM_answers.mp hset
  refine map_address_fromPoolSet ((addressed_poolSet pools).foldlM ?_ hfold) pools
  intro set set' answer haddressed hstep
  exact haddressed.foldlM (fun h hrow => h.insertRow hrow) (anyError_eq_ok hstep)

theorem syncTickData_address (h : syncTickData net prof chain pools = .ok synced) :
    synced.map (·.address) = pools.map (·.address) := by
  obtain ⟨groups, -, h⟩ := bind_eq_ok.mp h
  obtain ⟨set, hset, hout⟩ := bind_eq_ok.mp h
  cases hout
  obtain ⟨values, -, hfold⟩ := foldlM_answers.mp hset
  refine map_address_fromPoolSet ((addressed_poolSet pools).foldlM ?_ hfold) pools
  intro set set' response haddressed hstep
  refine haddressed.foldlM (fun h hresponse => ?_) (anyError_eq_ok hstep)
  exact h.foldlM (fun h hrow => h.insertTickInfo hrow) hresponse

/-- **The V3 factory makes up no pool.** -/
theorem syncAllPools_address
    (h : syncAllPools nets hashSet prof fuel chain pools = some (.ok synced)) :
    ∀ pool ∈ synced, ∃ p ∈ pools, p.address = pool.address := by
  unfold syncAllPools at h
  split at h
  · cases h
  · rename_i pools₁ hslot0
    split at h
    · cases h
    · rename_i pools₂ hdecimals
      split at h
      · cases h
      · cases h
      · rename_i pools₃ hbitmaps
        intro pool hpool
        obtain ⟨p₃, hp₃, heq₃⟩ :=
          exists_of_map_eq (syncTickData_address (Option.some.inj h)) hpool
        obtain ⟨p₂, hp₂, heq₂⟩ := exists_of_map_eq (syncTickBitmaps_address hbitmaps) hp₃
        have hsame := (syncTokenDecimals_address hdecimals).trans (syncSlot0_address hslot0)
        obtain ⟨p, hp, heq⟩ := exists_of_map_eq hsame (List.mem_of_mem_filter hp₂)
        exact ⟨p, hp, heq.trans (heq₂.trans heq₃)⟩

end UniswapV3Factory

namespace UniswapV3Pool

open UniswapV3Factory

variable {nets : Networks} {hashSet : List Address → List Address} {prof : BuildProfile}
  {fuel : Nat} {chain : V3PoolChain} {pool pool' : UniswapV3Pool}

theorem readPool_address (h : pool.readPool chain = .ok pool') : pool'.address = pool.address := by
  unfold readPool at h
  simp only [bind_eq_ok] at h
  obtain ⟨tickSpacing, -, fee, -, token0, -, tokenA, -, token1, -, tokenB, -, h⟩ := h
  cases h
  rfl

theorem readBatches_address {pools synced : List UniswapV3Pool} {chain : V3Chain}
    (h : readBatches nets hashSet prof fuel chain pools = some (.ok synced)) :
    synced.map (·.address) = pools.map (·.address) := by
  obtain ⟨pools₁, hslot0, h⟩ := andThen_eq_ok.mp h
  obtain ⟨pools₂, hdecimals, h⟩ := andThen_eq_ok.mp h
  obtain ⟨pools₃, hbitmaps, h⟩ := andThen_eq_ok.mp h
  rw [syncTickData_address (Option.some.inj h), syncTickBitmaps_address hbitmaps,
    syncTokenDecimals_address (Option.some.inj hdecimals),
    syncSlot0_address (Option.some.inj hslot0)]

theorem init_address (h : pool.init nets hashSet prof fuel chain = some (.ok pool')) :
    pool'.address = pool.address := by
  obtain ⟨read, hread, h⟩ := andThen_eq_ok.mp h
  obtain ⟨pools, hpools, h⟩ := andThen_eq_ok.mp h
  have haddresses := readBatches_address hpools
  split at h
  · rename_i pool₁ hhead
    cases h
    obtain ⟨p, hp, heq⟩ := exists_of_map_eq haddresses (List.mem_of_head? hhead)
    obtain rfl := List.mem_singleton.mp hp
    exact heq.symm.trans (readPool_address (Option.some.inj hread))
  · cases h

end UniswapV3Pool

namespace AgniFactory

open UniswapV3Factory (Networks)

variable {net : Network} {nets : Networks} {hashSet : List Address → List Address}
  {prof : BuildProfile} {fuel : Nat} {chain : V3Chain} {pools synced : List AgniPool}

theorem map_address_writeShared {written : List UniswapV3Pool}
    (h : written.map (·.address) = (pools.map AgniPool.shared).map (·.address)) :
    (writeShared pools written).map (·.address) = pools.map (·.address) := by
  induction pools generalizing written with
  | nil => rfl
  | cons pool pools ih =>
    cases written with
    | nil => cases h
    | cons pool' written =>
      obtain ⟨hpool, hwritten⟩ := List.cons.inj h
      exact congrArg₂ List.cons hpool (ih hwritten)

/-- A step that leaves the addresses of the shared fields leaves those of the pools. -/
theorem map_writeShared_address {step : Outcome Unit (List UniswapV3Pool)}
    (h : step.map (writeShared pools) = .ok synced)
    (hstep : ∀ written, step = .ok written →
      written.map (·.address) = (pools.map AgniPool.shared).map (·.address)) :
    synced.map (·.address) = pools.map (·.address) := by
  obtain ⟨written, hwritten, rfl⟩ := AMM.exists_of_map_eq_ok h
  exact map_address_writeShared (hstep written hwritten)

theorem syncSlot0_address (h : syncSlot0 net chain pools = .ok synced) :
    synced.map (·.address) = pools.map (·.address) :=
  map_writeShared_address h fun _ => UniswapV3Factory.syncSlot0_address

theorem syncTokenDecimals_address (h : syncTokenDecimals net hashSet chain pools = .ok synced) :
    synced.map (·.address) = pools.map (·.address) :=
  map_writeShared_address h fun _ => UniswapV3Factory.syncTokenDecimals_address

theorem syncTickBitmaps_address (h : syncTickBitmaps net fuel chain pools = some (.ok synced)) :
    synced.map (·.address) = pools.map (·.address) := by
  obtain ⟨step, hstep, hout⟩ := Option.map_eq_some_iff.mp h
  refine map_writeShared_address hout fun written hwritten => ?_
  exact UniswapV3Factory.syncTickBitmaps_address (hstep.trans (congrArg some hwritten))

theorem syncTickData_address (h : syncTickData net prof chain pools = .ok synced) :
    synced.map (·.address) = pools.map (·.address) :=
  map_writeShared_address h fun _ => UniswapV3Factory.syncTickData_address

/-- **The Agni factory makes up no pool.** -/
theorem syncAllPools_address
    (h : syncAllPools nets hashSet prof fuel chain pools = some (.ok synced)) :
    ∀ pool ∈ synced, ∃ p ∈ pools, p.address = pool.address := by
  obtain ⟨pools₁, hslot0, h⟩ := andThen_eq_ok.mp h
  obtain ⟨pools₂, hdecimals, h⟩ := andThen_eq_ok.mp h
  obtain ⟨pools₃, hbitmaps, h⟩ := andThen_eq_ok.mp h
  intro pool hpool
  have hlive := (syncTickData_address (Option.some.inj h)).trans (syncTickBitmaps_address hbitmaps)
  have hsame := (syncTokenDecimals_address (Option.some.inj hdecimals)).trans
    (syncSlot0_address (Option.some.inj hslot0))
  obtain ⟨p₂, hp₂, heq₂⟩ := exists_of_map_eq hlive hpool
  obtain ⟨p, hp, heq⟩ := exists_of_map_eq hsame (List.mem_of_mem_filter hp₂)
  exact ⟨p, hp, heq.trans heq₂⟩

end AgniFactory

namespace AgniPool

open UniswapV3Factory (Networks)

variable {nets : Networks} {hashSet : List Address → List Address} {prof : BuildProfile}
  {fuel : Nat} {chain : V3PoolChain} {pool pool' : AgniPool}

theorem readPool_address (h : pool.readPool chain = .ok pool') : pool'.address = pool.address := by
  obtain ⟨read, hread, rfl⟩ := AMM.exists_of_map_eq_ok h
  exact UniswapV3Pool.readPool_address hread

theorem init_address (h : pool.init nets hashSet prof fuel chain = some (.ok pool')) :
    pool'.address = pool.address := by
  obtain ⟨read, hread, h⟩ := andThen_eq_ok.mp h
  obtain ⟨pools, hpools, h⟩ := andThen_eq_ok.mp h
  obtain ⟨pools₁, hslot0, hpools⟩ := andThen_eq_ok.mp hpools
  obtain ⟨pools₂, hdecimals, hpools⟩ := andThen_eq_ok.mp hpools
  obtain ⟨pools₃, hbitmaps, hpools⟩ := andThen_eq_ok.mp hpools
  split at h
  · rename_i pool₁ hhead
    cases h
    have haddresses := (AgniFactory.syncTickData_address (Option.some.inj hpools)).trans <|
      (AgniFactory.syncTickBitmaps_address hbitmaps).trans <|
      (AgniFactory.syncTokenDecimals_address (Option.some.inj hdecimals)).trans <|
      AgniFactory.syncSlot0_address (Option.some.inj hslot0)
    obtain ⟨p, hp, heq⟩ := exists_of_map_eq haddresses (List.mem_of_head? hhead)
    obtain rfl := List.mem_singleton.mp hp
    exact heq.symm.trans (readPool_address (Option.some.inj hread))
  · cases h

end AgniPool

/-! ## The Moe factory -/

namespace AMM

/-- Which pool it is. -/
def which (amm : AMM) : Address × Variant := (amm.address, amm.variant)

theorem which_mapMoe {f : MoeLbPair → MoeLbPair} (hf : ∀ pair, (f pair).address = pair.address)
    (amm : AMM) : (amm.mapMoe f).which = amm.which := by
  cases amm with
  | moeLbPair pair => exact congrArg (·, Variant.moeLbPair) (hf pair)
  | uniswapV2Pool | uniswapV3Pool | agniPool => rfl

end AMM

namespace MoeLbPair

variable {slot0 decimals : Network} {chain : MoeChain} {pairs synced : List AMM}
  {pair pair' : MoeLbPair}

/-- **The batches leave which pairs they are.** -/
theorem readBatches_which (h : readBatches slot0 decimals chain pairs = .ok synced) :
    synced.map AMM.which = pairs.map AMM.which := by
  obtain ⟨pairs₁, hslot0, h⟩ := bind_eq_ok.mp h
  obtain ⟨decs, -, h⟩ := bind_eq_ok.mp h
  cases h
  rw [List.map_map]
  have hdecimals : AMM.which ∘ AMM.mapMoe (withDecimals decs) = AMM.which :=
    funext fun amm => AMM.which_mapMoe (f := withDecimals decs) (fun _ => rfl) amm
  rw [hdecimals]
  refine Network.updateWindows_key (by decide : 0 < 255) (fun slot amm => ?_) hslot0
  exact AMM.which_mapMoe (f := (·.withSlot0 slot)) (fun _ => rfl) amm

theorem init_address (h : pair.init slot0 decimals chain = .ok pair') :
    pair'.address = pair.address := by
  unfold init at h
  simp only [bind_eq_ok] at h
  obtain ⟨x, -, y, -, v, hv, h⟩ := h
  have hwhich := readBatches_which hv
  split at h
  · rename_i updated hhead
    cases h
    cases v with
    | nil => cases hhead
    | cons amm v =>
      cases hhead
      exact congrArg Prod.fst (List.cons.inj hwhich).1
  · cases h
    rfl

end MoeLbPair

namespace MoeFactory

variable {slot0 decimals : Network} {chain : MoeChain} {pools synced : List AMM}

theorem syncAllPools_same (h : syncAllPools slot0 decimals chain pools = .ok synced) :
    ∀ amm ∈ synced, ∃ p ∈ pools, p.which = amm.which := by
  intro amm hamm
  obtain ⟨read, hread, rfl⟩ := AMM.exists_of_map_eq_ok h
  have hmem : amm.which ∈ pools.map AMM.which := by
    rw [← MoeLbPair.readBatches_which hread]
    exact List.mem_map_of_mem (List.mem_of_mem_filter hamm)
  exact List.mem_map.mp hmem

end MoeFactory

/-! ## The four factories -/

/-- The pools of the logs are those that are created of them. -/
theorem poolsOfLogs_variant {createPool : PoolCreated → AMM} {net : Network}
    {getLogs : BlockRange → Option (List (Option PoolCreated))} {ranges : List BlockRange}
    {v : Variant} (hcreate : ∀ ev, (createPool ev).variant = v) {pools : List AMM}
    (h : poolsOfLogs createPool net getLogs ranges = .ok pools) : ∀ p ∈ pools, p.variant = v := by
  obtain ⟨answers, -, hfold⟩ := foldlM_answers.mp h
  have hrun : ∀ (answers : List (List (Option PoolCreated))) (found pools : List AMM),
      (∀ p ∈ found, p.variant = v) → answers.foldlM (fun pools logs => (do
        let created ← logs.mapM fun log => answer (log.map createPool)
        return pools ++ created : Outcome Unit (List AMM))) found = .ok pools →
      ∀ p ∈ pools, p.variant = v := by
    intro answers
    induction answers with
    | nil =>
      intro found pools hfound h
      cases h
      exact hfound
    | cons logs answers ih =>
      intro found pools hfound h
      rw [List.foldlM_cons] at h
      obtain ⟨next, hnext, h⟩ := bind_eq_ok.mp h
      obtain ⟨created, hcreated, hout⟩ := bind_eq_ok.mp hnext
      cases hout
      refine ih _ pools (fun p hp => ?_) h
      rcases List.mem_append.mp hp with hp | hp
      · exact hfound p hp
      · obtain ⟨log, -, hlog⟩ := mem_of_mapM_eq_ok hcreated hp
        cases log with
        | none => cases hlog
        | some ev =>
          cases hlog
          exact hcreate ev
  exact hrun answers [] pools (List.forall_mem_nil _) hfold

namespace Factory

variable {factory : Factory} {prof : BuildProfile} {fuel : Nat} {answers : Answers}

/-- **A factory finds pools of its variant.** -/
theorem discover_variant {toBlock : Nat} {pools : List AMM}
    (h : factory.discover prof fuel answers toBlock = some (.ok pools)) :
    ∀ p ∈ pools, p.variant = factory.variant := by
  cases factory with
  | uniswapV2Factory factory => exact UniswapV2Factory.discover_variant (Option.some.inj h)
  | uniswapV3Factory factory =>
    obtain ⟨ranges, -, h⟩ := andThen_eq_ok.mp h
    have hcreate : ∀ ev, (UniswapV3Factory.createPool ev).variant = .uniswapV3Pool := fun _ => rfl
    exact poolsOfLogs_variant hcreate (Option.some.inj h)
  | agniFactory factory =>
    obtain ⟨ranges, -, h⟩ := andThen_eq_ok.mp h
    have hcreate : ∀ ev, (AgniFactory.createPool ev).variant = .agniPool := fun _ => rfl
    exact poolsOfLogs_variant hcreate (Option.some.inj h)
  | moeFactory factory =>
    obtain ⟨logs, -, h⟩ := bind_eq_ok.mp (Option.some.inj h)
    obtain ⟨events, -, h⟩ := bind_eq_ok.mp h
    cases h
    intro p hp
    obtain ⟨ev, -, rfl⟩ := List.mem_map.mp hp
    rfl

/-- **A factory reads the pools that it is given**: what it returns is of its variant and at the
address of one of them. -/
theorem sync_same {pools synced : List AMM} (hvariants : ∀ p ∈ pools, p.variant = factory.variant)
    (h : factory.sync prof fuel answers pools = some (.ok synced)) :
    ∀ amm ∈ synced, amm.variant = factory.variant ∧ ∃ p ∈ pools, p.address = amm.address := by
  intro amm hamm
  cases factory with
  | uniswapV2Factory factory =>
    exact UniswapV2Factory.syncAllPools_same hvariants (Option.some.inj h) amm hamm
  | uniswapV3Factory factory =>
    obtain ⟨v3Pools, hpools, h⟩ := andThen_eq_ok.mp h
    obtain ⟨v3Synced, hsynced, h⟩ := andThen_eq_ok.mp h
    cases h
    obtain ⟨pool, hpool, rfl⟩ := List.mem_map.mp hamm
    obtain ⟨p, hp, haddress⟩ := UniswapV3Factory.syncAllPools_address hsynced pool hpool
    obtain ⟨given, hgiven, heq⟩ := mem_of_mapM_eq_ok (Option.some.inj hpools) hp
    cases given with
    | uniswapV3Pool p' =>
      cases heq
      exact ⟨rfl, _, hgiven, haddress⟩
    | uniswapV2Pool | agniPool | moeLbPair => cases heq
  | agniFactory factory =>
    obtain ⟨agniPools, hpools, h⟩ := andThen_eq_ok.mp h
    obtain ⟨agniSynced, hsynced, h⟩ := andThen_eq_ok.mp h
    cases h
    obtain ⟨pool, hpool, rfl⟩ := List.mem_map.mp hamm
    obtain ⟨p, hp, haddress⟩ := AgniFactory.syncAllPools_address hsynced pool hpool
    obtain ⟨given, hgiven, heq⟩ := mem_of_mapM_eq_ok (Option.some.inj hpools) hp
    cases given with
    | agniPool p' =>
      cases heq
      exact ⟨rfl, _, hgiven, haddress⟩
    | uniswapV2Pool | uniswapV3Pool | moeLbPair => cases heq
  | moeFactory factory =>
    obtain ⟨p, hp, hwhich⟩ := MoeFactory.syncAllPools_same (Option.some.inj h) amm hamm
    obtain ⟨haddress, hvariant⟩ := Prod.mk.inj hwhich
    exact ⟨hvariant.symm.trans (hvariants p hp), p, hp, haddress⟩

end Factory

/-- **`init` does not change which pool it is.** -/
theorem AMM.init_which {prof : BuildProfile} {fuel : Nat} {answers : Answers} {amm amm' : AMM}
    (h : amm.init prof fuel answers = some (.ok amm')) : amm'.which = amm.which := by
  cases amm with
  | uniswapV2Pool pool =>
    obtain ⟨pool', hpool, h⟩ := andThen_eq_ok.mp h
    cases h
    exact congrArg (·, Variant.uniswapV2Pool) (UniswapV2Pool.init_address (Option.some.inj hpool))
  | uniswapV3Pool pool =>
    obtain ⟨pool', hpool, h⟩ := andThen_eq_ok.mp h
    cases h
    exact congrArg (·, Variant.uniswapV3Pool) (UniswapV3Pool.init_address hpool)
  | agniPool pool =>
    obtain ⟨pool', hpool, h⟩ := andThen_eq_ok.mp h
    cases h
    exact congrArg (·, Variant.agniPool) (AgniPool.init_address hpool)
  | moeLbPair pair =>
    obtain ⟨pair', hpair, h⟩ := andThen_eq_ok.mp h
    cases h
    exact congrArg (·, Variant.moeLbPair) (MoeLbPair.init_address (Option.some.inj hpair))

end ArbitrageBot
