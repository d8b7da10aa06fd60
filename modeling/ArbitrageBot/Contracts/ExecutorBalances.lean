import ArbitrageBot.Contracts.Executor
import ArbitrageBot.Lib.Account

/-!
# What `executeArbitrage` leaves of the executor's tokens

The contract among honest tokens and pools: a token moves what it is told to, a pool keeps what it
is paid and sends its output to the recipient. Between two swaps the contract reads its whole
balance of the next token and swaps that, so a token it held before survives only in what a V3 pool
leaves untaken and in what the last swap sends back.
-/

namespace ArbitrageBot

open Lib

namespace Executor

/-! ## Honest tokens and pools -/

/-- Balances, by token and account. -/
abbrev Ledger := Address → Address → Nat

/-- A token moves an amount that is there. -/
def Ledger.move (l : Ledger) (token src dst : Address) (n : Nat) : Option Ledger :=
  if n ≤ l token src then
    let paid : Ledger := fun t a => if t = token ∧ a = src then l t a - n else l t a
    some fun t a => if t = token ∧ a = dst then paid t a + n else paid t a
  else none

/-- The tokens of the pools, X and Y of a liquidity book being 0 and 1, and the states that the
contract compares with its snapshot. -/
structure Market where
  token0 : Address → Address
  token1 : Address → Address
  reserves : Address → U256 × U256
  sqrtPriceX96 : Address → U256
  liquidity : Address → U256
  activeId : Address → U256
  binStep : Address → U256

/-- What a pool does with a swap: the input a V3 pool takes and the rest it leaves, and the output a
V3 or liquidity-book pool sends. A V2 pool sends what it is asked for. -/
structure Fill where
  taken : Nat
  left : Nat
  sent : Nat
  deriving DecidableEq, Repr

/-- The balances and the fills of the swaps to come. -/
structure MarketState where
  ledger : Ledger
  fills : List Fill

def MarketState.send (s : MarketState) (token src dst : Address) (n : Nat) : Option MarketState :=
  (s.ledger.move token src dst n).map fun ledger => { s with ledger }

variable (m : Market) (origin self : Address)

/-- The calls that are no swaps. -/
def answer : {β : Type} → Ext β → MarketState → Option (β × MarketState)
  | _, .token0 pool, s => some (m.token0 pool, s)
  | _, .token1 pool, s => some (m.token1 pool, s)
  | _, .getTokenX pool, s => some (m.token0 pool, s)
  | _, .getTokenY pool, s => some (m.token1 pool, s)
  | _, .getReserves pool, s => some (m.reserves pool, s)
  | _, .slot0 pool, s => some (m.sqrtPriceX96 pool, s)
  | _, .liquidity pool, s => some (m.liquidity pool, s)
  | _, .getActiveId pool, s => some (m.activeId pool, s)
  | _, .getBinStep pool, s => some (m.binStep pool, s)
  | _, .balanceOf token account, s =>
    if s.ledger token account < 2 ^ 256 then some (BitVec.ofNat 256 (s.ledger token account), s)
    else none
  | _, .transfer token recipient amount, s =>
    (s.send token self recipient amount.toNat).map fun s => (true, s)
  | _, _, _ => none

/-- A swap takes the next fill. Pools are other contracts than the executor, which has no `swap`. -/
def fillV2 (pool : Address) (amount0Out amount1Out : U256) (recipient : Address) (s : MarketState) :
    Option (Unit × MarketState) :=
  match s.fills with
  | _ :: fills => if pool = self then none else do
    let s ← MarketState.send { s with fills } (m.token0 pool) pool recipient amount0Out.toNat
    let s ← s.send (m.token1 pool) pool recipient amount1Out.toNat
    return ((), s)
  | [] => none

def fillMoeLB (pool : Address) (swapForY : Bool) (recipient : Address) (s : MarketState) :
    Option (Unit × MarketState) :=
  match s.fills with
  | fill :: fills => if pool = self then none else do
    let s ← MarketState.send { s with fills }
      (if swapForY then m.token1 pool else m.token0 pool) pool recipient fill.sent
    return ((), s)
  | [] => none

/-- A V3 pool sends its output and then takes its input by the callback. -/
def fillV3 (pool recipient : Address) (zeroForOne : Bool) (amountSpecified : U256)
    (s : MarketState) : Option (Unit × MarketState) :=
  match s.fills with
  | fill :: fills =>
    if pool = self ∨ fill.taken + fill.left ≠ amountSpecified.toNat ∨ 2 ^ 255 ≤ fill.taken ∨
        2 ^ 255 < fill.sent then none
    else do
      let s ← MarketState.send { s with fills }
        (if zeroForOne then m.token1 pool else m.token0 pool) pool recipient fill.sent
      let deltaIn := BitVec.ofNat 256 fill.taken
      let deltaOut := -BitVec.ofNat 256 fill.sent
      (agniSwapCallback origin pool (if zeroForOne then deltaIn else deltaOut)
        (if zeroForOne then deltaOut else deltaIn)).exec (answer m self) s
  | [] => none

/-- All calls of the contract. -/
def honest : {β : Type} → Ext β → MarketState → Option (β × MarketState)
  | _, .swapV2 pool amount0Out amount1Out recipient, s =>
    fillV2 m self pool amount0Out amount1Out recipient s
  | _, .swapMoeLB pool swapForY recipient, s => fillMoeLB m self pool swapForY recipient s
  | _, .swapV3 pool recipient zeroForOne amountSpecified _, s =>
    fillV3 m origin self pool recipient zeroForOne amountSpecified s
  | _, e, s => answer m self e s

/-! ## The movements of a token -/

/-- The token a pool is paid in, of the one the contract names. -/
def paidToken (poolType : UInt8) (pool tokenIn : Address) : Address :=
  if poolType = POOL_TYPE_V3 ∧ tokenIn ≠ m.token0 pool then m.token1 pool else tokenIn

/-- The token a pool sends. -/
def soldToken (pool tokenIn : Address) : Address :=
  if tokenIn = m.token0 pool then m.token1 pool else m.token0 pool

/-- The recipient of a swap, by the pool after it. -/
def recipientOf (nextPool : Address) (nextPoolType : UInt8) : Address :=
  if nextPool ≠ 0 ∧ (nextPoolType = POOL_TYPE_V2 ∨ nextPoolType = POOL_TYPE_MOE_LB) then nextPool
  else self

/-- What the executor pays of a token `t` in one swap. A first swap pays what it is told to, a later
one swaps the whole balance of `tokenIn`; only a V3 pool leaves a part of it. -/
def payment (first : Bool) (amountIn : U256) (poolType : UInt8) (pool tokenIn : Address)
    (fill : Fill) (t : Address) : List Account.Movement :=
  if paidToken m poolType pool tokenIn = t then
    if !first && tokenIn == t then [.drain (if poolType = POOL_TYPE_V3 then fill.left else 0)]
    else [.spend (if poolType = POOL_TYPE_V3 then fill.taken else amountIn.toNat)]
  else []

/-- What the executor is sent of a token `t` in one swap. -/
def receipt (poolType : UInt8) (pool tokenIn recipient : Address) (expectedOut : U256) (fill : Fill)
    (t : Address) : List Account.Movement :=
  if soldToken m pool tokenIn = t ∧ recipient = self then
    [.receive (if poolType = POOL_TYPE_V2 then expectedOut.toNat else fill.sent)]
  else []

/-- The movements of the token `t` in the swap at index `i`. -/
def hopMovements (amountIn : U256) (path pools : List Address) (poolTypes : List UInt8)
    (amountsOut : List U256) (fills : List Fill) (t : Address) (i : Nat) : List Account.Movement :=
  let poolType := poolTypes.getD i 0
  let pool := pools.getD i 0
  let fill := fills.getD i ⟨0, 0, 0⟩
  payment m (i == 0) amountIn poolType pool (path.getD i 0) fill t ++
    receipt m self poolType pool (path.getD i 0)
      (recipientOf self (pools.getD (i + 1) 0) (poolTypes.getD (i + 1) 255))
      (amountsOut.getD i 0) fill t

/-- The movements of the token `t` in the swaps of a path. -/
def movements (amountIn : U256) (path pools : List Address) (poolTypes : List UInt8)
    (amountsOut : List U256) (fills : List Fill) (t : Address) (n : Nat) : List Account.Movement :=
  (List.range n).flatMap (hopMovements m self amountIn path pools poolTypes amountsOut fills t)

section Calls

variable {m origin self}
variable {s s' : MarketState} {token src dst pool tokenIn tokenOut recipient : Address} {n : Nat}

theorem Ledger.move_eq_some {l l' : Ledger} (h : l.move token src dst n = some l') (t a : Address) :
    (l' t a : Int) = l t a - (if token = t ∧ src = a then n else 0 : Nat) +
      (if token = t ∧ dst = a then n else 0 : Nat) := by
  unfold Ledger.move at h
  split at h
  · rename_i hle
    cases h
    simp only [eq_comm (a := t), eq_comm (a := a)]
    by_cases hsrc : token = t ∧ src = a
    · obtain ⟨rfl, rfl⟩ := hsrc
      simp only [and_self, ↓reduceIte]
      split
      · omega
      · omega
    · simp only [if_neg hsrc]
      split
      · omega
      · omega
  · cases h

theorem MarketState.send_eq_some (h : s.send token src dst n = some s') :
    s'.fills = s.fills ∧ ∀ t a, (s'.ledger t a : Int) =
      s.ledger t a - (if token = t ∧ src = a then n else 0 : Nat) +
        (if token = t ∧ dst = a then n else 0 : Nat) := by
  unfold MarketState.send at h
  rw [Option.map_eq_some_iff] at h
  obtain ⟨l, hl, rfl⟩ := h
  exact ⟨rfl, Ledger.move_eq_some hl⟩

/-- A pool sends its own tokens. -/
theorem send_of_pool (hpool : pool ≠ self) (h : s.send token pool recipient n = some s') :
    s'.fills = s.fills ∧ ∀ t, (s'.ledger t self : Int) =
      s.ledger t self + (if token = t ∧ recipient = self then n else 0 : Nat) := by
  obtain ⟨hfills, hledger⟩ := MarketState.send_eq_some h
  refine ⟨hfills, ?_⟩
  intro t
  rw [hledger, if_neg fun h => hpool h.2]
  omega

/-- The executor pays a pool. -/
theorem transfer_exec {ok : Bool} {amount : U256} (hpool : pool ≠ self)
    (h : answer m self (.transfer token pool amount) s = some (ok, s')) :
    s'.fills = s.fills ∧ ∀ t, (s'.ledger t self : Int) =
      s.ledger t self - (if token = t then amount.toNat else 0 : Nat) := by
  unfold answer at h
  rw [Option.map_eq_some_iff] at h
  obtain ⟨s₁, hs₁, heq⟩ := h
  cases heq
  obtain ⟨hfills, hledger⟩ := MarketState.send_eq_some hs₁
  refine ⟨hfills, ?_⟩
  intro t
  rw [hledger, @if_neg (token = t ∧ pool = self) _ fun h => hpool h.2]
  simp only [and_true, Int.natCast_zero, Int.add_zero]

theorem payDelta_exec {namedToken : Ext Address} {delta : U256} (hpool : pool ≠ self)
    (hname : ∀ s, answer m self namedToken s = some (token, s))
    (h : (payDelta pool namedToken delta).exec (answer m self) s = some ((), s')) :
    s'.fills = s.fills ∧ ∀ t, (s'.ledger t self : Int) =
      s.ledger t self - (if token = t then delta.toInt.toNat else 0 : Nat) := by
  unfold payDelta at h
  split at h
  · rename_i hpos
    simp only [Prog.exec_bind_eq_some, Prog.exec_call, hname, Prog.exec_require_eq_some] at h
    obtain ⟨token', s₁, hnamed, ok, s₂, htransfer, -, heq⟩ := h
    cases hnamed
    cases heq
    obtain ⟨hfills, hledger⟩ := transfer_exec hpool htransfer
    have hnat : delta.toInt.toNat = delta.toNat := by
      rw [BitVec.toInt_eq_toNat_cond] at hpos ⊢
      split at hpos
      · rename_i hsmall
        rw [if_pos hsmall, Int.toNat_natCast]
      · have := delta.isLt
        omega
    rw [hnat]
    exact ⟨hfills, hledger⟩
  · rename_i hneg
    cases h
    refine ⟨rfl, ?_⟩
    intro t
    rw [Int.toNat_of_nonpos (by omega)]
    simp

/-- The callback pays the positive delta. -/
theorem agniSwapCallback_exec {amount0Delta amount1Delta : U256} (hpool : pool ≠ self)
    (h : (agniSwapCallback origin pool amount0Delta amount1Delta).exec (answer m self) s =
      some ((), s')) :
    s'.fills = s.fills ∧ ∀ t, (s'.ledger t self : Int) = s.ledger t self -
      (if m.token0 pool = t then amount0Delta.toInt.toNat else 0 : Nat) -
        (if m.token1 pool = t then amount1Delta.toInt.toNat else 0 : Nat) := by
  unfold agniSwapCallback at h
  simp only [Prog.exec_bind_eq_some, Prog.exec_require_eq_some] at h
  obtain ⟨_, _, ⟨-, heq⟩, _, s₁, h0, h1⟩ := h
  cases heq
  obtain ⟨hfills0, hledger0⟩ := payDelta_exec hpool (fun _ => rfl) h0
  obtain ⟨hfills1, hledger1⟩ := payDelta_exec hpool (fun _ => rfl) h1
  refine ⟨hfills1.trans hfills0, ?_⟩
  intro t
  rw [hledger1, hledger0]

end Calls

section Swaps

variable {m origin self}
variable {s s' : MarketState} {pool tokenIn tokenOut recipient : Address}
  {amountIn expectedOut : U256}

/-- What a swap does to the executor's balances: it takes `paid` and, where the executor is the
recipient, brings `sold`. -/
structure Swapped (executor : Address) (s s' : MarketState) (fill : Fill)
    (paidIn soldIn recipient : Address) (paid sold : Nat) : Prop where
  fills : s.fills = fill :: s'.fills
  ledger : ∀ t, (s'.ledger t executor : Int) =
    s.ledger t executor - (if paidIn = t then paid else 0 : Nat) +
      (if soldIn = t ∧ recipient = executor then sold else 0 : Nat)

theorem toInt_taken {n : Nat} (h : n < 2 ^ 255) : (BitVec.ofNat 256 n).toInt.toNat = n := by
  rw [BitVec.toInt_eq_toNat_of_lt, Int.toNat_natCast, BitVec.toNat_ofNat,
    Nat.mod_eq_of_lt (by omega)]
  rw [BitVec.toNat_ofNat, Nat.mod_eq_of_lt (by omega)]
  omega

theorem toInt_sent {n : Nat} (h : n ≤ 2 ^ 255) : (-BitVec.ofNat 256 n).toInt.toNat = 0 := by
  have hval : (BitVec.ofNat 256 n).toNat = n := by
    rw [BitVec.toNat_ofNat, Nat.mod_eq_of_lt (by omega)]
  rw [BitVec.toInt_eq_toNat_cond, BitVec.toNat_neg, hval]
  split
  · omega
  · omega

/-! What each kind of pool does with a swap. -/

theorem fillV2_eq_some {amount0Out amount1Out : U256}
    (h : fillV2 m self pool amount0Out amount1Out recipient s = some ((), s')) :
    pool ≠ self ∧ ∃ fill, s.fills = fill :: s'.fills ∧ ∀ t, (s'.ledger t self : Int) =
      s.ledger t self +
        (if m.token0 pool = t ∧ recipient = self then amount0Out.toNat else 0 : Nat) +
        (if m.token1 pool = t ∧ recipient = self then amount1Out.toNat else 0 : Nat) := by
  unfold fillV2 at h
  cases hfills : s.fills with
  | nil =>
    rw [hfills] at h
    cases h
  | cons fill fills =>
    rw [hfills] at h
    dsimp only at h
    split at h
    · cases h
    rename_i hpool
    simp only [Option.bind_eq_bind, Option.bind_eq_some_iff] at h
    obtain ⟨s₁, hs₁, s₂, hs₂, heq⟩ := h
    cases heq
    obtain ⟨hfills₁, hledger₁⟩ := send_of_pool hpool hs₁
    obtain ⟨hfills₂, hledger₂⟩ := send_of_pool hpool hs₂
    refine ⟨hpool, fill, by rw [hfills₂, hfills₁], ?_⟩
    intro t
    rw [hledger₂, hledger₁]

theorem fillMoeLB_eq_some {swapForY : Bool}
    (h : fillMoeLB m self pool swapForY recipient s = some ((), s')) :
    pool ≠ self ∧ ∃ fill, s.fills = fill :: s'.fills ∧ ∀ t, (s'.ledger t self : Int) =
      s.ledger t self + (if (if swapForY then m.token1 pool else m.token0 pool) = t ∧
        recipient = self then fill.sent else 0 : Nat) := by
  unfold fillMoeLB at h
  cases hfills : s.fills with
  | nil =>
    rw [hfills] at h
    cases h
  | cons fill fills =>
    rw [hfills] at h
    dsimp only at h
    split at h
    · cases h
    rename_i hpool
    simp only [Option.bind_eq_bind, Option.bind_eq_some_iff] at h
    obtain ⟨s₁, hs₁, heq⟩ := h
    cases heq
    obtain ⟨hfills₁, hledger₁⟩ := send_of_pool hpool hs₁
    exact ⟨hpool, fill, by rw [hfills₁], hledger₁⟩

theorem fillV3_eq_some {zeroForOne : Bool}
    (h : fillV3 m origin self pool recipient zeroForOne amountIn s = some ((), s')) :
    ∃ fill, fill.taken + fill.left = amountIn.toNat ∧
      Swapped self s s' fill (if zeroForOne then m.token0 pool else m.token1 pool)
        (if zeroForOne then m.token1 pool else m.token0 pool) recipient fill.taken fill.sent := by
  unfold fillV3 at h
  cases hfills : s.fills with
  | nil =>
    rw [hfills] at h
    cases h
  | cons fill fills =>
    rw [hfills] at h
    dsimp only at h
    split at h
    · cases h
    rename_i hfill
    simp only [not_or, not_not, Nat.not_le, Nat.not_lt] at hfill
    obtain ⟨hpool, hsum, htaken, hsent⟩ := hfill
    simp only [Option.bind_eq_bind, Option.bind_eq_some_iff] at h
    obtain ⟨s₁, hs₁, hcallback⟩ := h
    obtain ⟨hfills₁, hledger₁⟩ := send_of_pool hpool hs₁
    obtain ⟨hfills₂, hledger₂⟩ := agniSwapCallback_exec hpool hcallback
    refine ⟨fill, hsum, by rw [hfills, hfills₂, hfills₁], ?_⟩
    intro t
    rw [hledger₂, hledger₁]
    cases zeroForOne with
    | true =>
      simp only [↓reduceIte, toInt_taken htaken, toInt_sent hsent, ite_self]
      omega
    | false =>
      simp only [Bool.false_eq_true, ↓reduceIte, toInt_taken htaken, toInt_sent hsent, ite_self]
      omega

/-! The three swaps of the contract. -/

theorem swapV2_exec (h : (swapV2 pool tokenIn amountIn expectedOut recipient).exec
    (honest m origin self) s = some ((), s')) :
    ∃ fill, Swapped self s s' fill tokenIn (soldToken m pool tokenIn) recipient amountIn.toNat
      expectedOut.toNat := by
  unfold swapV2 at h
  simp only [Prog.exec_bind_eq_some, Prog.exec_call, Prog.exec_require_eq_some] at h
  obtain ⟨ok, s₁, htransfer, _, _, ⟨-, heq⟩, token0, s₂, htoken0, hswap⟩ := h
  cases heq
  cases htoken0
  change answer m self (.transfer tokenIn pool amountIn) s = _ at htransfer
  obtain ⟨hpool, fill, hfills, hledger⟩ := fillV2_eq_some hswap
  obtain ⟨hfills₁, hledger₁⟩ := transfer_exec hpool htransfer
  refine ⟨fill, hfills₁.symm.trans hfills, ?_⟩
  intro t
  rw [hledger, hledger₁]
  unfold soldToken
  by_cases hzero : tokenIn = m.token0 pool
  · simp [hzero]
  · simp [hzero]

/-- The direction of a liquidity-book swap is the one that sells `tokenIn`. -/
theorem swapMoeLB_direction {tokenX tokenY : Address} {swapForY : Bool}
    (hX : m.token0 pool = tokenX) (hY : m.token1 pool = tokenY)
    (h : if swapForY then tokenIn = tokenX ∧ tokenOut = tokenY
      else ¬ (tokenIn = tokenX ∧ tokenOut = tokenY) ∧ tokenIn = tokenY ∧ tokenOut = tokenX) :
    (if swapForY then m.token1 pool else m.token0 pool) = soldToken m pool tokenIn := by
  subst hX hY
  unfold soldToken
  cases swapForY with
  | true => exact (if_pos h.1).symm
  | false =>
    obtain ⟨hnot, hin, hout⟩ := h
    refine (if_neg ?_).symm
    intro hsame
    exact hnot ⟨hsame, hout.trans (hsame.symm.trans hin)⟩

theorem swapMoeLB_exec (h : (swapMoeLB pool tokenIn tokenOut amountIn recipient).exec
    (honest m origin self) s = some ((), s')) :
    ∃ fill, Swapped self s s' fill tokenIn (soldToken m pool tokenIn) recipient amountIn.toNat
      fill.sent := by
  unfold swapMoeLB at h
  simp only [Prog.exec_bind_eq_some, Prog.exec_call, Prog.exec_require_eq_some] at h
  obtain ⟨ok, s₁, htransfer, _, _, ⟨-, heq⟩, tokenX, s₂, htokenX, tokenY, s₃, htokenY, hswap⟩ := h
  cases heq
  cases htokenX
  cases htokenY
  change answer m self (.transfer tokenIn pool amountIn) s = _ at htransfer
  have hcall : ∃ swapForY, (if swapForY then m.token1 pool else m.token0 pool) =
      soldToken m pool tokenIn ∧ fillMoeLB m self pool swapForY recipient s₁ = some ((), s') := by
    split at hswap
    · rename_i hdir
      rw [Prog.exec_call] at hswap
      exact ⟨true, @swapMoeLB_direction m pool tokenIn tokenOut _ _ true rfl rfl hdir, hswap⟩
    · rename_i hdir
      split at hswap
      · rename_i hdir'
        rw [Prog.exec_call] at hswap
        exact ⟨false, @swapMoeLB_direction m pool tokenIn tokenOut _ _ false rfl rfl ⟨hdir, hdir'⟩,
          hswap⟩
      · cases hswap
  obtain ⟨swapForY, hsold, hfill⟩ := hcall
  obtain ⟨hpool, fill, hfills, hledger⟩ := fillMoeLB_eq_some hfill
  obtain ⟨hfills₁, hledger₁⟩ := transfer_exec hpool htransfer
  refine ⟨fill, hfills₁.symm.trans hfills, ?_⟩
  intro t
  rw [hledger, hledger₁, hsold]

theorem swapV3_exec (h : (swapV3 pool tokenIn amountIn recipient).exec
    (honest m origin self) s = some ((), s')) :
    ∃ fill, fill.taken + fill.left = amountIn.toNat ∧
      Swapped self s s' fill (paidToken m POOL_TYPE_V3 pool tokenIn) (soldToken m pool tokenIn)
        recipient fill.taken fill.sent := by
  unfold swapV3 at h
  simp only [Prog.exec_bind_eq_some, Prog.exec_call] at h
  obtain ⟨token0, s₁, htoken0, hswap⟩ := h
  cases htoken0
  obtain ⟨fill, hsum, hswapped⟩ := fillV3_eq_some hswap
  refine ⟨fill, hsum, ?_⟩
  unfold soldToken paidToken
  by_cases hzero : tokenIn = m.token0 pool
  · simpa [hzero] using hswapped
  · simpa [hzero] using hswapped

end Swaps

section Hops

variable {m origin self}
variable {s s' : MarketState} {pool tokenIn tokenOut recipient nextPool : Address}
  {a amountIn expectedOut : U256} {poolType nextPoolType : UInt8} {first : Bool}

theorem paidToken_of_ne (h : poolType ≠ POOL_TYPE_V3) :
    paidToken m poolType pool tokenIn = tokenIn :=
  if_neg fun hv3 => h hv3.1

theorem Swapped.of_ne {fill : Fill} {soldIn : Address} {paid sold : Nat}
    (hv3 : poolType ≠ POOL_TYPE_V3)
    (h : Swapped self s s' fill tokenIn soldIn recipient paid sold) :
    Swapped self s s' fill (paidToken m poolType pool tokenIn) soldIn recipient paid sold := by
  rw [paidToken_of_ne hv3]
  exact h

/-- The movements of a swap, of the amounts it took and brought. -/
theorem Swapped.run_eq {fill : Fill} {paid sold : Nat}
    (h : Swapped self s s' fill (paidToken m poolType pool tokenIn) (soldToken m pool tokenIn)
      recipient paid sold)
    (hasked : paid + (if poolType = POOL_TYPE_V3 then fill.left else 0) = a.toNat)
    (htaken : poolType = POOL_TYPE_V3 → paid = fill.taken)
    (hsold : sold = if poolType = POOL_TYPE_V2 then expectedOut.toNat else fill.sent)
    (hfirst : first = true → a = amountIn)
    (hlater : first = false → a.toNat = s.ledger tokenIn self) (t : Address) :
    (s'.ledger t self : Int) = Account.run (payment m first amountIn poolType pool tokenIn fill t ++
      receipt m self poolType pool tokenIn recipient expectedOut fill t) (s.ledger t self) := by
  have hreceipt : ∀ b : Int, Account.run
      (receipt m self poolType pool tokenIn recipient expectedOut fill t) b =
        b + (if soldToken m pool tokenIn = t ∧ recipient = self then sold else 0 : Nat) := by
    intro b
    unfold receipt
    split
    · rw [hsold]
      rfl
    · simp
  have hpayment : Account.run (payment m first amountIn poolType pool tokenIn fill t)
      (s.ledger t self) =
        s.ledger t self - (if paidToken m poolType pool tokenIn = t then paid else 0 : Nat) := by
    unfold payment
    by_cases hpaid : paidToken m poolType pool tokenIn = t
    · rw [if_pos hpaid, if_pos hpaid]
      split
      · -- The whole balance of `t` was asked for.
        rename_i hdrain
        simp only [Bool.and_eq_true, Bool.not_eq_true', beq_iff_eq] at hdrain
        obtain ⟨hnot, rfl⟩ := hdrain
        have hbalance := hlater hnot
        simp only [Account.run_cons, Account.run_nil, Account.Movement.apply]
        omega
      · rename_i hspend
        simp only [Account.run_cons, Account.run_nil, Account.Movement.apply]
        split
        · rename_i hv3
          rw [htaken hv3]
        · rename_i hv3
          rw [paidToken_of_ne hv3] at hpaid
          simp only [hpaid, beq_self_eq_true, Bool.and_true, Bool.not_eq_true', Bool.not_eq_false]
            at hspend
          rw [if_neg hv3] at hasked
          rw [← hfirst hspend]
          omega
    · rw [if_neg hpaid, if_neg hpaid]
      simp
  rw [Account.run_append, hpayment, hreceipt, h.ledger]

/-- One swap, by its movements. -/
theorem doSwap_exec (hfirst : first = true → a = amountIn)
    (hlater : first = false → a.toNat = s.ledger tokenIn self)
    (h : (doSwap self a tokenIn tokenOut pool poolType nextPool nextPoolType expectedOut).exec
      (honest m origin self) s = some ((), s')) :
    ∃ fill, s.fills = fill :: s'.fills ∧ ∀ t, (s'.ledger t self : Int) =
      Account.run (payment m first amountIn poolType pool tokenIn fill t ++
        receipt m self poolType pool tokenIn (recipientOf self nextPool nextPoolType) expectedOut
          fill t) (s.ledger t self) := by
  unfold doSwap at h
  change Prog.exec _ (if poolType = POOL_TYPE_V2 then
    swapV2 pool tokenIn a expectedOut (recipientOf self nextPool nextPoolType)
    else if poolType = POOL_TYPE_V3 then
      swapV3 pool tokenIn a (recipientOf self nextPool nextPoolType)
    else if poolType = POOL_TYPE_MOE_LB then
      swapMoeLB pool tokenIn tokenOut a (recipientOf self nextPool nextPoolType)
    else .revert "UNKNOWN_POOL_TYPE") s = _ at h
  split at h
  · rename_i hv2
    have hv3 : poolType ≠ POOL_TYPE_V3 := by
      rw [hv2]
      decide
    obtain ⟨fill, hswap⟩ := swapV2_exec h
    refine ⟨fill, hswap.fills, (hswap.of_ne hv3).run_eq (by rw [if_neg hv3]; rfl)
      (fun h => absurd h hv3) ?_ hfirst hlater⟩
    rw [if_pos hv2]
  · rename_i hv2
    split at h
    · rename_i hv3
      obtain ⟨fill, hasked, hswap⟩ := swapV3_exec h
      rw [← hv3] at hswap
      refine ⟨fill, hswap.fills, hswap.run_eq (by rw [if_pos hv3]; exact hasked) (fun _ => rfl) ?_
        hfirst hlater⟩
      rw [if_neg hv2]
    · rename_i hv3
      split at h
      · obtain ⟨fill, hswap⟩ := swapMoeLB_exec h
        refine ⟨fill, hswap.fills, (hswap.of_ne hv3).run_eq (by rw [if_neg hv3]; rfl)
          (fun h => absurd h hv3) ?_ hfirst hlater⟩
        rw [if_neg hv2]
      · cases h

end Hops

section Runs

variable {m origin self}
variable {s s' s₀ : MarketState} {path pools : List Address} {poolTypes : List UInt8}
  {expectedStates amountsOut : List U256} {amountIn a a' : U256} {i : Nat}

theorem index_exec {α : Type} {array : List α} {x : α}
    (h : (index array i).exec (honest m origin self) s = some (x, s')) :
    array[i]? = some x ∧ s' = s := by
  unfold index at h
  cases harray : array[i]? with
  | none =>
    rw [harray] at h
    cases h
  | some y =>
    rw [harray] at h
    cases h
    exact ⟨rfl, rfl⟩

/-- The pool after the one at `i`, or its type, with a default for the last one. -/
theorem next_exec {α : Type} {array : List α} {x d : α} (hlen : array.length = pools.length)
    (h : (if i < pools.length - 1 then index array (i + 1) else .pure d).exec
      (honest m origin self) s = some (x, s')) : x = array.getD (i + 1) d ∧ s' = s := by
  rw [List.getD_eq_getElem?_getD]
  split at h
  · obtain ⟨harray, rfl⟩ := index_exec h
    rw [harray]
    exact ⟨rfl, rfl⟩
  · cases h
    rw [List.getElem?_eq_none (by omega)]
    exact ⟨rfl, rfl⟩

theorem balanceOf_exec {token account : Address}
    (h : honest m origin self (.balanceOf token account) s = some (a, s')) :
    a.toNat = s.ledger token account ∧ s' = s := by
  change answer m self (.balanceOf token account) s = _ at h
  unfold answer at h
  dsimp only at h
  split at h
  · rename_i hlt
    cases h
    rw [BitVec.toNat_ofNat, Nat.mod_eq_of_lt hlt]
    exact ⟨rfl, rfl⟩
  · cases h

/-- What holds before the swap at index `i`: the fills and the movements of the swaps before it are
done, and the contract is about to swap its whole balance. -/
structure Before (m : Market) (executor : Address) (amountIn : U256) (path pools : List Address)
    (poolTypes : List UInt8) (amountsOut : List U256) (s₀ : MarketState) (i : Nat) (a : U256)
    (s : MarketState) : Prop where
  fills : s.fills = s₀.fills.drop i
  ledger : ∀ t, (s.ledger t executor : Int) = Account.run
    (movements m executor amountIn path pools poolTypes amountsOut s₀.fills t i)
      (s₀.ledger t executor)
  first : i = 0 → a = amountIn
  later : 0 < i → i < pools.length → a.toNat = s.ledger (path.getD i 0) executor

theorem movements_succ {fills : List Fill} {t : Address} :
    movements m self amountIn path pools poolTypes amountsOut fills t (i + 1) =
      movements m self amountIn path pools poolTypes amountsOut fills t i ++
        hopMovements m self amountIn path pools poolTypes amountsOut fills t i := by
  unfold movements
  rw [List.range_succ, List.flatMap_append, List.flatMap_singleton]

/-- The body of the loop as a sequence. -/
theorem executeSwap_eq : executeSwap self path pools poolTypes amountsOut a i =
    ((if i < pools.length - 1 then index pools (i + 1) else .pure 0) >>= fun nextPool =>
      (if i < pools.length - 1 then index poolTypes (i + 1) else .pure 255) >>= fun nextPoolType =>
        index path i >>= fun tokenIn => index path (i + 1) >>= fun tokenOut =>
          index pools i >>= fun pool => index poolTypes i >>= fun poolType =>
            index amountsOut i >>= fun expectedOut =>
              doSwap self a tokenIn tokenOut pool poolType nextPool nextPoolType expectedOut >>=
                fun _ => if i < pools.length - 1 then Prog.call (.balanceOf tokenOut self)
                  else .pure a) := by
  unfold executeSwap
  split
  · rfl
  · rfl

theorem executeSwap_exec (htypes : poolTypes.length = pools.length) (hi : i < pools.length)
    (hbefore : Before m self amountIn path pools poolTypes amountsOut s₀ i a s)
    (h : (executeSwap self path pools poolTypes amountsOut a i).exec (honest m origin self) s =
      some (a', s')) :
    Before m self amountIn path pools poolTypes amountsOut s₀ (i + 1) a' s' := by
  rw [executeSwap_eq] at h
  simp only [Prog.exec_bind_eq_some] at h
  obtain ⟨nextPool, _, hnextPool, nextPoolType, _, hnextType, tokenIn, _, htokenIn, tokenOut, _,
    htokenOut, pool, _, hpool, poolType, _, hpoolType, expectedOut, _, hexpected, _, s₁, hswap,
    hasked⟩ := h
  obtain ⟨rfl, rfl⟩ := next_exec rfl hnextPool
  obtain ⟨rfl, rfl⟩ := next_exec htypes hnextType
  obtain ⟨hin, rfl⟩ := index_exec htokenIn
  obtain ⟨hout, rfl⟩ := index_exec htokenOut
  obtain ⟨hat, rfl⟩ := index_exec hpool
  obtain ⟨htype, rfl⟩ := index_exec hpoolType
  obtain ⟨hexp, rfl⟩ := index_exec hexpected
  have hread : path.getD i 0 = tokenIn := by rw [List.getD_eq_getElem?_getD, hin]; rfl
  obtain ⟨fill, hfills, hledger⟩ := @doSwap_exec m origin self _ s₁ pool tokenIn tokenOut _ a
    amountIn expectedOut poolType _ (i == 0) (fun h => hbefore.first (beq_iff_eq.mp h))
    (fun h => by
      rw [hbefore.later (Nat.pos_of_ne_zero (by simpa using h)) hi, hread]) hswap
  have hdrop := hbefore.fills.symm.trans hfills
  have hfill : s₀.fills[i]? = some fill := by
    rw [← Nat.add_zero i, ← List.getElem?_drop, hdrop]
    rfl
  have hrest : s₁.fills = s₀.fills.drop (i + 1) := by
    rw [← List.tail_drop, hdrop]
    rfl
  have hstate : s' = s₁ ∧ (0 < i + 1 → i + 1 < pools.length →
      a'.toNat = s₁.ledger (path.getD (i + 1) 0) self) := by
    split at hasked
    · rw [Prog.exec_call] at hasked
      obtain ⟨ha', rfl⟩ := balanceOf_exec hasked
      rw [List.getD_eq_getElem?_getD, hout]
      exact ⟨rfl, fun _ _ => ha'⟩
    · cases hasked
      exact ⟨rfl, fun _ hlt => absurd hlt (by omega)⟩
  obtain ⟨rfl, hlater⟩ := hstate
  refine ⟨hrest, ?_, fun h => absurd h (Nat.succ_ne_zero i), hlater⟩
  intro t
  rw [movements_succ, Account.run_append, ← hbefore.ledger, hledger]
  unfold hopMovements
  simp only [List.getD_eq_getElem?_getD, hin, hat, htype, hexp, hfill,
    Option.getD_some]

theorem executeSwaps_exec (htypes : poolTypes.length = pools.length)
    (h : (executeSwaps self amountIn path pools poolTypes amountsOut).exec
      (honest m origin self) s = some ((), s')) (t : Address) :
    (s'.ledger t self : Int) = Account.run
      (movements m self amountIn path pools poolTypes amountsOut s.fills t pools.length)
        (s.ledger t self) := by
  unfold executeSwaps at h
  rw [Prog.exec_bind_eq_some] at h
  obtain ⟨a, s₁, hloop, heq⟩ := h
  cases heq
  have hinit : Before m self amountIn path pools poolTypes amountsOut s 0 amountIn s :=
    ⟨rfl, fun _ => rfl, fun _ => rfl, fun h => absurd h (Nat.lt_irrefl 0)⟩
  exact (Prog.exec_foldlM_range (fun i a a' s s' hi hbefore hrun =>
    executeSwap_exec htypes hi hbefore hrun) hinit hloop).ledger t

end Runs

section Arbitrage

variable {m : Market} {origin : Address} {d : Deployment} {s s' : MarketState} {sender : Address}
  {path pools : List Address} {poolTypes : List UInt8} {expectedStates amountsOut : List U256}
  {amountIn : U256}

/-- A call that leaves the market alone. -/
def Keeps (m : Market) (origin self : Address) {β : Type} (e : Ext β) : Prop :=
  ∀ x s s', honest m origin self e s = some (x, s') → s' = s

theorem only_index {self : Address} {α : Type} (array : List α) (i : Nat) :
    (index array i).Only (Keeps m origin self) := by
  unfold index
  split
  · trivial
  · trivial

theorem keeps_of_answer {self : Address} {β : Type} {e : Ext β}
    (h : ∀ s, ∃ x, honest m origin self e s = some (x, s)) : Keeps m origin self e := by
  intro x s s' heq
  obtain ⟨y, hy⟩ := h s
  rw [hy] at heq
  cases heq
  rfl

/-- The states of the pools are read and compared with the snapshot. -/
theorem validateState_only {self : Address} (stateIdx i : Nat) :
    (validateState pools poolTypes expectedStates stateIdx i).Only (Keeps m origin self) := by
  have hcompare : ∀ (value : U256) (j : Nat) (reason : String) {rest : Unit → Program Nat},
      (∀ u, (rest u).Only (Keeps m origin self)) →
        (index expectedStates j >>= fun expected =>
          Prog.require (value == expected) reason >>= rest).Only (Keeps m origin self) := by
    intro value j reason rest hrest
    exact (only_index expectedStates j).bind fun expected =>
      (Prog.Only.require _ _).bind hrest
  unfold validateState
  refine (only_index poolTypes i).bind fun poolType => (only_index pools i).bind fun pool => ?_
  split
  · exact ⟨keeps_of_answer fun s => ⟨_, rfl⟩, fun r => hcompare _ _ _ fun _ =>
      hcompare _ _ _ fun _ => trivial⟩
  · split
    · exact ⟨keeps_of_answer fun s => ⟨_, rfl⟩, fun sqrtPrice =>
        ⟨keeps_of_answer fun s => ⟨_, rfl⟩, fun liq =>
          hcompare _ _ _ fun _ => hcompare _ _ _ fun _ => trivial⟩⟩
    · split
      · exact ⟨keeps_of_answer fun s => ⟨_, rfl⟩, fun activeId =>
          ⟨keeps_of_answer fun s => ⟨_, rfl⟩, fun binStep =>
            hcompare _ _ _ fun _ => hcompare _ _ _ fun _ => trivial⟩⟩
      · trivial

theorem validateStates_exec {self : Address}
    (h : (validateStates pools poolTypes expectedStates).exec (honest m origin self) s =
      some ((), s')) : s' = s := by
  refine Prog.Only.exec_state (P := Keeps m origin self) ?_ (fun e x s s' hkeep => hkeep x s s') h
  unfold validateStates
  exact (Prog.Only.foldlM validateState_only _ _).bind fun _ => Prog.Only.require _ _

theorem checkedAdd_exec {self : Address} {a b x : U256}
    (h : (checkedAdd a b).exec (honest m origin self) s = some (x, s')) : s' = s := by
  unfold checkedAdd at h
  split at h
  · cases h
    rfl
  · cases h

theorem checkedSub_exec {self : Address} {a b x : U256}
    (h : (checkedSub a b).exec (honest m origin self) s = some (x, s')) : s' = s := by
  unfold checkedSub at h
  split at h
  · cases h
    rfl
  · cases h

/-- What a run of `executeArbitrage` does to a balance of the executor. -/
theorem executeArbitrage_exec
    (h : (executeArbitrage d sender amountIn path pools poolTypes expectedStates amountsOut).exec
      (honest m origin d.self) s = some ((), s')) (t : Address) :
    (s'.ledger t d.self : Int) = Account.run
      (movements m d.self amountIn path pools poolTypes amountsOut s.fills t pools.length)
        (s.ledger t d.self) := by
  unfold executeArbitrage onlyOwner at h
  simp only [Prog.exec_bind_eq_some, Prog.exec_require_eq_some, Prog.exec_call] at h
  obtain ⟨_, _, ⟨-, h₁⟩, _, _, ⟨-, h₂⟩, _, _, ⟨-, h₃⟩, _, _, ⟨htypes, h₄⟩, _, _, ⟨-, h₅⟩, _, _,
    hvalidate, balanceBefore, _, hbefore, _, _, ⟨-, h₆⟩, _, s₁, hswaps, balanceAfter, _, hafter,
    _, _, hsub, _, _, hindex, _, _, hadd, -, h₇⟩ := h
  cases h₁
  cases h₂
  cases h₃
  cases h₄
  cases h₅
  cases h₆
  cases h₇
  have hread₁ := validateStates_exec hvalidate
  have hread₂ := (balanceOf_exec hbefore).2
  have hread₃ := (balanceOf_exec hafter).2
  have hread₄ := checkedSub_exec hsub
  have hread₅ := (index_exec hindex).2
  have hread₆ := checkedAdd_exec hadd
  subst hread₁ hread₂ hread₃ hread₄ hread₅ hread₆
  exact executeSwaps_exec (beq_iff_eq.mp htypes) hswaps t

theorem executeArbitrage_le_iff
    (h : (executeArbitrage d sender amountIn path pools poolTypes expectedStates amountsOut).exec
      (honest m origin d.self) s = some ((), s')) (t : Address) :
    s.ledger t d.self ≤ s'.ledger t d.self ↔ Account.Covers
      (movements m d.self amountIn path pools poolTypes amountsOut s.fills t pools.length)
        (s.ledger t d.self) := by
  rw [← Account.le_run_iff, ← executeArbitrage_exec h]
  exact Int.ofNat_le.symm

/-- **Which tokens survive**: after a run of `executeArbitrage` among honest pools the executor
holds no less of any other token than before exactly when, from the last swap of the executor's
whole balance on, what a pool left of it and what came back cover what the executor held. -/
theorem executeArbitrage_keeps_iff
    (h : (executeArbitrage d sender amountIn path pools poolTypes expectedStates amountsOut).exec
      (honest m origin d.self) s = some ((), s')) :
    (∀ t, t ≠ d.WMNT → s.ledger t d.self ≤ s'.ledger t d.self) ↔
      ∀ t, t ≠ d.WMNT → Account.Covers
        (movements m d.self amountIn path pools poolTypes amountsOut s.fills t pools.length)
          (s.ledger t d.self) :=
  forall₂_congr fun t _ => executeArbitrage_le_iff h t

/-- A path from the wrapped native token back to it, over pools that take their input before they
swap and trade the tokens around them. -/
structure RoundTrip (m : Market) (d : Deployment) (path pools : List Address)
    (poolTypes : List UInt8) : Prop where
  first : path.getD 0 0 = d.WMNT
  last : path.getD pools.length 0 = d.WMNT
  types : ∀ i < pools.length, poolTypes.getD i 255 = POOL_TYPE_V2 ∨
    poolTypes.getD i 255 = POOL_TYPE_MOE_LB
  types_length : poolTypes.length = pools.length
  pools_ne : ∀ i < pools.length, pools.getD i 0 ≠ 0 ∧ pools.getD i 0 ≠ d.self
  trades : ∀ i < pools.length, soldToken m (pools.getD i 0) (path.getD i 0) = path.getD (i + 1) 0

namespace RoundTrip

variable {t : Address} {i : Nat} {fills : List Fill} (hpath : RoundTrip m d path pools poolTypes)
  (ht : t ≠ d.WMNT)
include hpath ht

/-- The executor sees such a token only when it swaps all it has of it. -/
theorem hopMovements_eq (hi : i < pools.length) :
    hopMovements m d.self amountIn path pools poolTypes amountsOut fills t i =
      if path.getD i 0 = t then [.drain 0] else [] := by
  have htype : poolTypes.getD i 0 = poolTypes.getD i 255 := by
    have hlt : i < poolTypes.length := hpath.types_length ▸ hi
    rw [List.getD_eq_getElem?_getD, List.getD_eq_getElem?_getD, List.getElem?_eq_getElem hlt]
    rfl
  have hv3 : poolTypes.getD i 0 ≠ POOL_TYPE_V3 := by
    rw [htype]
    rcases hpath.types i hi with h | h
    · rw [h]
      decide
    · rw [h]
      decide
  have hreceipt : ¬ (path.getD (i + 1) 0 = t ∧
      recipientOf d.self (pools.getD (i + 1) 0) (poolTypes.getD (i + 1) 255) = d.self) := by
    rintro ⟨hout, hself⟩
    by_cases hlast : i + 1 < pools.length
    · rw [recipientOf, if_pos ⟨(hpath.pools_ne _ hlast).1, hpath.types _ hlast⟩] at hself
      exact (hpath.pools_ne _ hlast).2 hself
    · rw [(by omega : i + 1 = pools.length), hpath.last] at hout
      exact ht hout.symm
  unfold hopMovements payment receipt
  dsimp only
  rw [paidToken_of_ne hv3, hpath.trades i hi, if_neg hreceipt, List.append_nil]
  by_cases hin : path.getD i 0 = t
  · have hlater : i ≠ 0 := by
      rintro rfl
      exact ht (hin.symm.trans hpath.first)
    rw [if_pos hin, if_pos hin, if_neg hv3, hin, beq_self_eq_true, Bool.and_true,
      beq_eq_false_iff_ne.mpr hlater]
    rfl
  · rw [if_neg hin, if_neg hin]

theorem covers_iff {balance : Nat} : Account.Covers
    (movements m d.self amountIn path pools poolTypes amountsOut fills t pools.length) balance ↔
      ((∃ i < pools.length, path.getD i 0 = t) → balance = 0) := by
  have hmem : ∀ movement ∈ movements m d.self amountIn path pools poolTypes amountsOut fills t
      pools.length, movement = .drain 0 := by
    intro movement hmovement
    obtain ⟨i, hi, hmovement⟩ := List.mem_flatMap.mp hmovement
    rw [hpath.hopMovements_eq ht (List.mem_range.mp hi)] at hmovement
    split at hmovement
    · exact List.mem_singleton.mp hmovement
    · cases hmovement
  have hne : movements m d.self amountIn path pools poolTypes amountsOut fills t pools.length ≠ [] ↔
      ∃ i < pools.length, path.getD i 0 = t := by
    unfold movements
    rw [Ne, List.flatMap_eq_nil_iff]
    push Not
    refine exists_congr fun i => ?_
    rw [List.mem_range]
    refine and_congr_right fun hi => ?_
    rw [hpath.hopMovements_eq ht hi]
    by_cases hin : path.getD i 0 = t
    · rw [if_pos hin]
      exact iff_of_true (List.cons_ne_nil _ _) hin
    · rw [if_neg hin]
      exact iff_of_false (fun hne => hne rfl) hin
  rw [Account.covers_of_drains hmem, hne]

end RoundTrip

/-- **On a round trip over V2 and liquidity-book pools** no token is lost exactly when the executor
holds none of the tokens on the way. -/
theorem roundTrip_keeps_iff (hpath : RoundTrip m d path pools poolTypes)
    (h : (executeArbitrage d sender amountIn path pools poolTypes expectedStates amountsOut).exec
      (honest m origin d.self) s = some ((), s')) :
    (∀ t, t ≠ d.WMNT → s.ledger t d.self ≤ s'.ledger t d.self) ↔
      ∀ t, t ≠ d.WMNT → (∃ i < pools.length, path.getD i 0 = t) → s.ledger t d.self = 0 := by
  refine forall₂_congr fun t ht => ?_
  rw [executeArbitrage_le_iff h, hpath.covers_iff ht]

end Arbitrage

/-! ## Two swaps through a token that the executor holds -/

/-- Pool 1 trades the tokens 5 and 7, pool 2 the tokens 7 and 5. -/
def twoPools : Market where
  token0 pool := if pool = 1 then 5 else 7
  token1 pool := if pool = 1 then 7 else 5
  reserves _ := (1000, 1000)
  sqrtPriceX96 _ := 0
  liquidity _ := 0
  activeId _ := 0
  binStep _ := 0

/-- The executor 9 holds 100 of the wrapped native token 5 and `held` of the token 7. -/
def heldState (held : Nat) : MarketState where
  ledger token account :=
    if account = 9 then (if token = 5 then 100 else held)
    else if account = 1 ∨ account = 2 then 1000
    else 0
  fills := [⟨0, 0, 0⟩, ⟨0, 0, 0⟩]

/-- 10 of the token 5 for 20 of the token 7, and these for 12 of the token 5, by V2 pools. -/
def roundTrip : Program Unit :=
  executeArbitrage ⟨9, 8, 5⟩ 8 10 [5, 7, 5] [1, 2] [0, 0] [1000, 1000, 1000, 1000] [20, 12]

theorem roundTrip_movements (t : Address) (ht : t ≠ 5) :
    movements twoPools 9 10 [5, 7, 5] [1, 2] [0, 0] [20, 12] (heldState 0).fills t 2 =
      if t = 7 then [.drain 0] else [] := by
  by_cases h7 : t = 7
  · subst h7
    decide +kernel
  · have h5' : ¬ 5#160 = t := Ne.symm ht
    have h7' : ¬ 7#160 = t := Ne.symm h7
    simpa [movements, hopMovements, payment, receipt, paidToken, soldToken, twoPools, recipientOf,
      List.range_succ, POOL_TYPE_V3, POOL_TYPE_V2, h5', h7'] using h7

/-- The executor holds 40 of the token 6 as well, and none of the token 7. -/
def besideState : MarketState where
  ledger token account :=
    if account = 9 ∧ token = 6 then 40 else (heldState 0).ledger token account
  fills := [⟨0, 0, 0⟩, ⟨0, 0, 0⟩]

/-- What the executor holds beside the way there and back stays. -/
theorem executeArbitrage_keeps_iff_beside :
    ∃ s', roundTrip.exec (honest twoPools 8 9) besideState = some ((), s') ∧
      besideState.ledger 6 9 = 40 ∧ ∀ t, t ≠ 5 → besideState.ledger t 9 ≤ s'.ledger t 9 := by
  have hrun : ((roundTrip.exec (honest twoPools 8 9) besideState).isSome = true) := by
    decide +kernel
  obtain ⟨⟨u, s'⟩, h⟩ := Option.isSome_iff_exists.mp hrun
  refine ⟨s', h, by decide, (@executeArbitrage_keeps_iff twoPools 8 ⟨9, 8, 5⟩ besideState s' 8
    [5, 7, 5] [1, 2] [0, 0] [1000, 1000, 1000, 1000] [20, 12] 10 h).mpr ?_⟩
  intro t ht
  change Account.Covers
    (movements twoPools 9 10 [5, 7, 5] [1, 2] [0, 0] [20, 12] (heldState 0).fills
    t 2) _
  rw [roundTrip_movements t ht]
  split
  · rename_i h7
    subst h7
    exact Nat.le_refl 0
  · exact Nat.le_refl 0

/-- An executor that holds 5 of the token 7 pays them to the pool 2 on top of what pool 1 sent it.
-/
theorem not_executeArbitrage_keeps : ¬ ∀ (m : Market) (origin : Address) (d : Deployment)
    (s s' : MarketState) (sender : Address) (amountIn : U256) (path pools : List Address)
    (poolTypes : List UInt8) (expectedStates amountsOut : List U256),
    (executeArbitrage d sender amountIn path pools poolTypes expectedStates amountsOut).exec
      (honest m origin d.self) s = some ((), s') →
    ∀ t, t ≠ d.WMNT → s.ledger t d.self ≤ s'.ledger t d.self := by
  intro hall
  have hrun : ((roundTrip.exec (honest twoPools 8 9) (heldState 5)).map fun r => r.2.ledger 7 9) =
      some 0 := by decide +kernel
  obtain ⟨⟨u, s'⟩, h, hzero⟩ := Option.map_eq_some_iff.mp hrun
  have hle := hall twoPools 8 ⟨9, 8, 5⟩ (heldState 5) s' 8 10 [5, 7, 5] [1, 2] [0, 0]
    [1000, 1000, 1000, 1000] [20, 12] h 7 (by decide)
  rw [hzero] at hle
  exact absurd hle (by decide)

end Executor

end ArbitrageBot
