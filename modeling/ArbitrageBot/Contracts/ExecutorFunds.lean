import ArbitrageBot.Contracts.Executor
import Mathlib.Data.Set.Basic

/-!
# Who can spend the executor's tokens

Transactions over the executor, the tokens and arbitrary other contracts, as call trees with a trace
of what matters: which balances moved, what the executor asked, and whether the owner was running
one of the owner's functions at the time. Calls that revert undo all they did and leave no trace.
Outside the owner's calls the executor's balances fall exactly when a callback names a token.
-/

namespace ArbitrageBot

open Lib

namespace Executor

/-! ## Tokens -/

/-- Balances and allowances: by token and account, and by token, account and spender. -/
structure World where
  balance : Address → Address → Nat
  allowance : Address → Address → Address → Nat

/-- A deployed executor and the ERC20 tokens around it. -/
structure System extends Deployment where
  tokens : Set Address

variable (sys : System)

/-- The rules of the tokens for the executor's account while it makes no call itself: only an
approved spender takes from it, and nobody else approves a spender of it. -/
structure Permitted (w w' : World) : Prop where
  balance : ∀ t ∈ sys.tokens, w'.balance t sys.self < w.balance t sys.self →
    ∃ spender, 0 < w.allowance t sys.self spender
  allowance : ∀ t ∈ sys.tokens, ∀ spender,
    w'.allowance t sys.self spender ≤ w.allowance t sys.self spender

/-- A successful `transfer` of the executor: a token takes the amount from its account. -/
structure Transferred (token recipient : Address) (amount : Nat) (w w' : World) : Prop where
  paid : token ∈ sys.tokens → recipient ≠ sys.self →
    w'.balance token sys.self + amount = w.balance token sys.self
  other : ∀ t ∈ sys.tokens, t ≠ token → w'.balance t sys.self < w.balance t sys.self →
    ∃ spender, 0 < w.allowance t sys.self spender
  allowance : ∀ t ∈ sys.tokens, ∀ spender,
    w'.allowance t sys.self spender ≤ w.allowance t sys.self spender

/-- Some token balance of the executor falls. -/
def Decreases (w w' : World) : Prop :=
  ∃ t ∈ sys.tokens, w'.balance t sys.self < w.balance t sys.self

/-- No spender is approved. -/
def Unapproved (w : World) : Prop :=
  ∀ t ∈ sys.tokens, ∀ spender, w.allowance t sys.self spender = 0

variable {sys}

theorem Permitted.unapproved {w w' : World} (h : Permitted sys w w') (hw : Unapproved sys w) :
    Unapproved sys w' ∧ ¬ Decreases sys w w' := by
  constructor
  · intro t ht spender
    have := h.allowance t ht spender
    rw [hw t ht spender] at this
    omega
  · rintro ⟨t, ht, hlt⟩
    obtain ⟨spender, hpos⟩ := h.balance t ht hlt
    rw [hw t ht spender] at hpos
    omega

theorem Transferred.unapproved {token recipient : Address} {amount : Nat} {w w' : World}
    (h : Transferred sys token recipient amount w w') (hw : Unapproved sys w) :
    Unapproved sys w' ∧ (token ∉ sys.tokens → ¬ Decreases sys w w') ∧
    (token ∈ sys.tokens → recipient ≠ sys.self → 0 < amount → Decreases sys w w') := by
  refine ⟨?_, ?_, ?_⟩
  · intro t ht spender
    have := h.allowance t ht spender
    rw [hw t ht spender] at this
    omega
  · rintro hno ⟨t, ht, hlt⟩
    have hne : t ≠ token := by
      rintro rfl
      exact hno ht
    obtain ⟨spender, hpos⟩ := h.other t ht hne hlt
    rw [hw t ht spender] at hpos
    omega
  · intro ht hne hpos
    have := h.paid ht hne
    exact ⟨token, ht, by omega⟩

/-! ## Transactions -/

/-- The address a call goes to. -/
def Ext.target {β : Type} : Ext β → Address
  | token0 pool => pool
  | token1 pool => pool
  | getReserves pool => pool
  | slot0 pool => pool
  | liquidity pool => pool
  | getActiveId pool => pool
  | getBinStep pool => pool
  | getTokenX pool => pool
  | getTokenY pool => pool
  | balanceOf token _ => token
  | transfer token _ _ => token
  | swapV2 pool _ _ _ => pool
  | swapV3 pool _ _ _ _ => pool
  | swapMoeLB pool _ _ => pool

/-- The swaps of the pools, whose code may call back and do anything else. -/
def Ext.isSwap {β : Type} : Ext β → Bool
  | swapV2 .. => true
  | swapV3 .. => true
  | swapMoeLB .. => true
  | _ => false

def Ext.isTransfer {β : Type} : Ext β → Bool
  | transfer .. => true
  | _ => false

/-- What a view may answer: a token its balances, anyone else anything. -/
def Answers (sys : System) (w : World) : {β : Type} → Ext β → β → Prop
  | _, .balanceOf token account, answer =>
    token ∈ sys.tokens → answer.toNat = w.balance token account
  | _, _, _ => True

/-- One of the owner's functions, called by the owner. -/
def ownerCall (d : Deployment) (sender : Address) : Entry → Bool
  | .executeArbitrage .. => sender == d.owner
  | .withdraw _ => sender == d.owner
  | .withdrawAmount .. => sender == d.owner
  | .agniSwapCallback .. => false
  | .receive => false

/-- A trace event, with whether it happens inside a call of the owner: the balances moved, or a view
was answered. -/
inductive Event : Type 1
  | moved (inOwnerCall : Bool) (before after : World)
  | asked {β : Type} (inOwnerCall : Bool) (e : Ext β) (answer : β)

def Event.inOwnerCall : Event → Bool
  | moved g _ _ => g
  | asked g _ _ => g

/-- What is running: contracts other than the executor, or the rest of one of its functions. -/
inductive Code : Type 1
  | outside
  | executor (p : Program Unit)

/-- The runs that succeed, in a transaction of `origin`. The contracts outside move balances as the
tokens permit and call the executor, from any other address. A view of the executor is a static
call and changes nothing; its transfers and swaps let the contracts outside run. The executor has
none of the functions it calls, so it never calls itself. -/
inductive Run (sys : System) (origin : Address) :
    Bool → Code → World → List Event → World → Prop
  | idle {g : Bool} {w : World} : Run sys origin g .outside w [] w
  | move {g : Bool} {w w₁ w' : World} {tr : List Event} (hmove : Permitted sys w w₁)
      (hrest : Run sys origin g .outside w₁ tr w') :
      Run sys origin g .outside w (.moved g w w₁ :: tr) w'
  | enter {g : Bool} {w w₁ w' : World} {tr tr' : List Event} {sender : Address} {entry : Entry}
      (hsender : sender ≠ sys.self)
      (hbody : Run sys origin (g || ownerCall sys.toDeployment sender entry)
        (.executor (body sys.toDeployment origin sender entry)) w tr w₁)
      (hrest : Run sys origin g .outside w₁ tr' w') :
      Run sys origin g .outside w (tr ++ tr') w'
  | ret {g : Bool} {w : World} : Run sys origin g (.executor (.pure ())) w [] w
  | view {g : Bool} {w w' : World} {tr : List Event} {β : Type} {e : Ext β} {answer : β}
      {k : β → Program Unit} (htarget : e.target ≠ sys.self) (hswap : e.isSwap = false)
      (htransfer : e.isTransfer = false) (hanswer : Answers sys w e answer)
      (hrest : Run sys origin g (.executor (k answer)) w tr w') :
      Run sys origin g (.executor (.ext e k)) w (.asked g e answer :: tr) w'
  | transfer {g ok : Bool} {w w₁ w₂ w₃ w' : World} {tr₁ tr₂ tr : List Event}
      {token recipient : Address} {amount : U256} {k : Bool → Program Unit}
      (htarget : token ≠ sys.self) (hbefore : Run sys origin g .outside w tr₁ w₁)
      (hpay : if ok then Transferred sys token recipient amount.toNat w₁ w₂ else
        Permitted sys w₁ w₂)
      (hafter : Run sys origin g .outside w₂ tr₂ w₃)
      (hrest : Run sys origin g (.executor (k ok)) w₃ tr w') :
      Run sys origin g (.executor (.ext (.transfer token recipient amount) k)) w
        (tr₁ ++ .moved g w₁ w₂ :: tr₂ ++ tr) w'
  | swap {g : Bool} {w w₁ w' : World} {tr₁ tr : List Event} {β : Type} {e : Ext β} {answer : β}
      {k : β → Program Unit} (htarget : e.target ≠ sys.self) (hswap : e.isSwap = true)
      (hcallee : Run sys origin g .outside w tr₁ w₁)
      (hrest : Run sys origin g (.executor (k answer)) w₁ tr w') :
      Run sys origin g (.executor (.ext e k)) w (tr₁ ++ tr) w'

/-- A sequence of transactions, each with an origin of its own. -/
inductive Transactions (sys : System) : World → List Event → World → Prop
  | nil {w : World} : Transactions sys w [] w
  | cons {w w₁ w' : World} {tr tr' : List Event} (origin : Address)
      (hrun : Run sys origin false .outside w tr w₁) (hrest : Transactions sys w₁ tr' w') :
      Transactions sys w (tr ++ tr') w'

/-- A balance of the executor falls outside the owner's calls. -/
def Falls (sys : System) (tr : List Event) : Prop :=
  ∃ w w', .moved false w w' ∈ tr ∧ Decreases sys w w'

/-- Outside the owner's calls somebody whom the executor asks for `token0` or `token1` names one of
the tokens. -/
def NamesToken (sys : System) (tr : List Event) : Prop :=
  ∃ pool token, (.asked false (.token0 pool) token ∈ tr ∨ .asked false (.token1 pool) token ∈ tr) ∧
    token ∈ sys.tokens

section Traces

variable {tr tr' : List Event}

theorem falls_append : Falls sys (tr ++ tr') ↔ Falls sys tr ∨ Falls sys tr' := by
  unfold Falls
  simp only [List.mem_append, or_and_right, exists_or]

theorem namesToken_append : NamesToken sys (tr ++ tr') ↔
    NamesToken sys tr ∨ NamesToken sys tr' := by
  unfold NamesToken
  constructor
  · rintro ⟨pool, token, hmem, ht⟩
    simp only [List.mem_append] at hmem
    rcases hmem with (h | h) | (h | h)
    · exact Or.inl ⟨pool, token, Or.inl h, ht⟩
    · exact Or.inr ⟨pool, token, Or.inl h, ht⟩
    · exact Or.inl ⟨pool, token, Or.inr h, ht⟩
    · exact Or.inr ⟨pool, token, Or.inr h, ht⟩
  · rintro (⟨pool, token, h | h, ht⟩ | ⟨pool, token, h | h, ht⟩)
    · exact ⟨pool, token, Or.inl (List.mem_append_left _ h), ht⟩
    · exact ⟨pool, token, Or.inr (List.mem_append_left _ h), ht⟩
    · exact ⟨pool, token, Or.inl (List.mem_append_right _ h), ht⟩
    · exact ⟨pool, token, Or.inr (List.mem_append_right _ h), ht⟩

theorem falls_moved {w w' : World} :
    Falls sys (.moved false w w' :: tr) ↔ Decreases sys w w' ∨ Falls sys tr := by
  unfold Falls
  constructor
  · rintro ⟨u, u', hmem, hdec⟩
    rcases List.mem_cons.mp hmem with heq | hmem
    · cases heq
      exact Or.inl hdec
    · exact Or.inr ⟨u, u', hmem, hdec⟩
  · rintro (hdec | ⟨u, u', hmem, hdec⟩)
    · exact ⟨w, w', List.mem_cons_self .., hdec⟩
    · exact ⟨u, u', List.mem_cons_of_mem _ hmem, hdec⟩

theorem namesToken_moved {g : Bool} {w w' : World} :
    NamesToken sys (.moved g w w' :: tr) ↔ NamesToken sys tr := by
  simp [NamesToken]

theorem falls_asked {g : Bool} {β : Type} {e : Ext β} {answer : β} :
    Falls sys (.asked g e answer :: tr) ↔ Falls sys tr := by
  simp [Falls]

/-- The two questions for a token. -/
def Names (e : Ext Address) : Prop :=
  ∃ pool, e = .token0 pool ∨ e = .token1 pool

theorem namesToken_asked {e : Ext Address} (he : Names e) {answer : Address} :
    NamesToken sys (.asked false e answer :: tr) ↔ answer ∈ sys.tokens ∨ NamesToken sys tr := by
  obtain ⟨pool, he⟩ := he
  constructor
  · rintro ⟨pool', token, hmem | hmem, ht⟩
    · rcases List.mem_cons.mp hmem with heq | hmem
      · cases heq
        exact Or.inl ht
      · exact Or.inr ⟨pool', token, Or.inl hmem, ht⟩
    · rcases List.mem_cons.mp hmem with heq | hmem
      · cases heq
        exact Or.inl ht
      · exact Or.inr ⟨pool', token, Or.inr hmem, ht⟩
  · rintro (ht | ⟨pool', token, hmem, ht⟩)
    · rcases he with rfl | rfl
      · exact ⟨pool, answer, Or.inl (List.mem_cons_self ..), ht⟩
      · exact ⟨pool, answer, Or.inr (List.mem_cons_self ..), ht⟩
    · exact ⟨pool', token, hmem.imp (List.mem_cons_of_mem _) (List.mem_cons_of_mem _), ht⟩

end Traces

/-! ## Runs -/

section Runs

variable {origin : Address} {g : Bool} {code : Code} {w w' : World} {tr : List Event}

/-- Nobody ever becomes an approved spender: the executor makes no such call. -/
theorem Run.unapproved (h : Run sys origin g code w tr w') (hw : Unapproved sys w) :
    Unapproved sys w' := by
  induction h with
  | idle => exact hw
  | move hmove _ ih => exact ih (hmove.unapproved hw).1
  | enter _ _ _ ih ih' => exact ih' (ih hw)
  | ret => exact hw
  | view _ _ _ _ _ ih => exact ih hw
  | transfer _ _ hpay _ _ ih₁ ih₂ ih =>
    refine ih (ih₂ ?_)
    split at hpay
    · exact (hpay.unapproved (ih₁ hw)).1
    · exact (hpay.unapproved (ih₁ hw)).1
  | swap _ _ _ _ ih₁ ih => exact ih (ih₁ hw)

/-- Inside a call of the owner every event is inside it. -/
theorem Run.inOwnerCall (h : Run sys origin g code w tr w') (hg : g = true) :
    ∀ event ∈ tr, event.inOwnerCall = true := by
  induction h with
  | idle =>
    rintro event ⟨⟩
  | move _ _ ih =>
    intro event hmem
    rcases List.mem_cons.mp hmem with rfl | hmem
    · exact hg
    · exact ih hg event hmem
  | enter _ _ _ ih ih' =>
    intro event hmem
    rcases List.mem_append.mp hmem with hmem | hmem
    · exact ih (by rw [hg, Bool.true_or]) event hmem
    · exact ih' hg event hmem
  | ret =>
    rintro event ⟨⟩
  | view _ _ _ _ _ ih =>
    intro event hmem
    rcases List.mem_cons.mp hmem with rfl | hmem
    · exact hg
    · exact ih hg event hmem
  | transfer _ _ _ _ _ ih₁ ih₂ ih =>
    intro event hmem
    rw [List.append_assoc, List.mem_append, List.cons_append, List.mem_cons,
      List.mem_append] at hmem
    rcases hmem with hmem | rfl | hmem | hmem
    · exact ih₁ hg event hmem
    · exact hg
    · exact ih₂ hg event hmem
    · exact ih hg event hmem
  | swap _ _ _ _ ih₁ ih =>
    intro event hmem
    rcases List.mem_append.mp hmem with hmem | hmem
    · exact ih₁ hg event hmem
    · exact ih hg event hmem

theorem Run.quiet (h : Run sys origin true code w tr w') :
    ¬ Falls sys tr ∧ ¬ NamesToken sys tr := by
  constructor
  · rintro ⟨u, u', hmem, -⟩
    cases h.inOwnerCall rfl _ hmem
  · rintro ⟨pool, token, hmem | hmem, -⟩
    · cases h.inOwnerCall rfl _ hmem
    · cases h.inOwnerCall rfl _ hmem

/-- What runs outside the owner's calls: it asks for a token and, when one is named, pays in it a
positive amount to somebody else, or reverts. -/
def Payment (sys : System) : Program Unit → Option Address → Prop
  | .pure _, named => named = none
  | .revert _, named => named = none
  | .ext (.token0 _) k, named => named = none ∧ ∀ token, Payment sys (k token) (some token)
  | .ext (.token1 _) k, named => named = none ∧ ∀ token, Payment sys (k token) (some token)
  | .ext (.transfer token recipient amount) k, named =>
    named = some token ∧ 0 < amount.toNat ∧ recipient ≠ sys.self ∧
      (∃ reason, k false = .revert reason) ∧ Payment sys (k true) none
  | .ext _ _, _ => False

theorem Payment.bind {named : Option Address} {p : Program Unit} {k : Unit → Program Unit}
    (h : Payment sys p named) (hk : Payment sys (k ()) none) : Payment sys (p >>= k) named := by
  induction p generalizing named with
  | pure a =>
    cases h
    exact hk
  | revert reason => exact h
  | ext e next ih =>
    cases e with
    | token0 pool => exact ⟨h.1, fun token => ih token (h.2 token)⟩
    | token1 pool => exact ⟨h.1, fun token => ih token (h.2 token)⟩
    | transfer token recipient amount =>
      obtain ⟨hnamed, hpos, hne, ⟨reason, hfail⟩, hrest⟩ := h
      exact ⟨hnamed, hpos, hne, ⟨reason, congrArg (· >>= k) hfail⟩, ih true hrest⟩
    | _ => exact h.elim

theorem payment_payDelta {sender : Address} (hsender : sender ≠ sys.self) {namedToken : Ext Address}
    (hnames : Names namedToken) (delta : U256) :
    Payment sys (payDelta sender namedToken delta) none := by
  unfold payDelta
  by_cases hpos : 0 < delta.toInt
  · have hpos' : 0 < delta.toNat := by
      by_contra hzero
      have : delta = 0 := BitVec.eq_of_toNat_eq (by simpa using hzero)
      rw [this] at hpos
      exact absurd hpos (by decide)
    rw [if_pos hpos]
    obtain ⟨pool, rfl | rfl⟩ := hnames
    · exact ⟨rfl, fun token => ⟨rfl, hpos', hsender, ⟨_, rfl⟩, rfl⟩⟩
    · exact ⟨rfl, fun token => ⟨rfl, hpos', hsender, ⟨_, rfl⟩, rfl⟩⟩
  · rw [if_neg hpos]
    rfl

theorem onlyOwner_of_ne {sender : Address} (h : (sender == sys.owner) = false) :
    onlyOwner sys.toDeployment sender = .revert "NOT_OWNER" := by
  unfold onlyOwner
  rw [h, Prog.require_false]

/-- A call from outside that is no call of the owner runs nothing but payments. -/
theorem payment_body {sender : Address} (hsender : sender ≠ sys.self) {entry : Entry}
    (hcall : ownerCall sys.toDeployment sender entry = false) :
    Payment sys (body sys.toDeployment origin sender entry) none := by
  cases entry with
  | executeArbitrage =>
    unfold body executeArbitrage
    rw [onlyOwner_of_ne hcall]
    rfl
  | withdraw token =>
    unfold body withdraw
    rw [onlyOwner_of_ne hcall]
    rfl
  | withdrawAmount token amount =>
    unfold body withdrawAmount
    rw [onlyOwner_of_ne hcall]
    rfl
  | agniSwapCallback amount0Delta amount1Delta =>
    unfold body agniSwapCallback
    cases (sender != origin) with
    | false => rfl
    | true =>
      exact (payment_payDelta hsender ⟨sender, Or.inl rfl⟩ _).bind
        (payment_payDelta hsender ⟨sender, Or.inr rfl⟩ _)
  | receive => rfl

/-- **Outside the owner's calls a balance of the executor falls exactly when a token is named.** -/
theorem Run.falls_iff (h : Run sys origin g code w tr w') (hg : g = false) (hw : Unapproved sys w) :
    match code with
    | .outside => Falls sys tr ↔ NamesToken sys tr
    | .executor p => ∀ named, Payment sys p named →
      (Falls sys tr ↔ (∃ token ∈ named, token ∈ sys.tokens) ∨ NamesToken sys tr) := by
  induction h with
  | idle => simp [Falls, NamesToken]
  | move hmove _ ih =>
    subst hg
    obtain ⟨hw₁, hno⟩ := hmove.unapproved hw
    rw [falls_moved, namesToken_moved]
    have hrec : Falls sys _ ↔ NamesToken sys _ := ih rfl hw₁
    rw [or_iff_right hno]
    exact hrec
  | @enter g w w₁ w' tr tr' sender entry hsender hbody _ ih ih' =>
    subst hg
    rw [falls_append, namesToken_append]
    refine or_congr ?_ (ih' rfl (hbody.unapproved hw))
    cases hcall : ownerCall sys.toDeployment sender entry with
    | true =>
      rw [hcall, Bool.false_or] at hbody
      exact iff_of_false hbody.quiet.1 hbody.quiet.2
    | false =>
      have hrec := ih (by rw [hcall]; rfl) hw none (payment_body hsender hcall)
      simpa using hrec
  | ret =>
    intro named hp
    cases hp
    simp [Falls, NamesToken]
  | @view g w w' tr β e answer k _ _ htransfer _ _ ih =>
    subst hg
    intro named hp
    cases e with
    | token0 pool =>
      obtain ⟨rfl, hk⟩ := hp
      rw [falls_asked, namesToken_asked ⟨pool, Or.inl rfl⟩, ih rfl hw _ (hk answer)]
      simp
    | token1 pool =>
      obtain ⟨rfl, hk⟩ := hp
      rw [falls_asked, namesToken_asked ⟨pool, Or.inr rfl⟩, ih rfl hw _ (hk answer)]
      simp
    | transfer token recipient amount => cases htransfer
    | _ => exact hp.elim
  | @transfer g ok w w₁ w₂ w₃ w' tr₁ tr₂ tr token recipient amount k _ hbefore hpay hafter hrest
      ih₁ ih₂ ih =>
    subst hg
    intro named hp
    obtain ⟨rfl, hpos, hne, ⟨reason, hfail⟩, hk⟩ := hp
    cases ok with
    | false =>
      rw [hfail] at hrest
      cases hrest
    | true =>
      rw [if_pos rfl] at hpay
      have hw₁ := hbefore.unapproved hw
      obtain ⟨hw₂, hnone, hdec⟩ := hpay.unapproved hw₁
      have hpaid : Decreases sys w₁ w₂ ↔ token ∈ sys.tokens :=
        ⟨fun h => not_not.mp fun hno => hnone hno h, fun ht => hdec ht hne hpos⟩
      have hrec₁ : Falls sys tr₁ ↔ NamesToken sys tr₁ := ih₁ rfl hw
      have hrec₂ : Falls sys tr₂ ↔ NamesToken sys tr₂ := ih₂ rfl hw₂
      have hrec := ih rfl (hafter.unapproved hw₂) none hk
      have hnone : ¬ ∃ t ∈ (none : Option Address), t ∈ sys.tokens := by simp
      have hsome : (∃ t ∈ some token, t ∈ sys.tokens) ↔ token ∈ sys.tokens := by simp
      rw [or_iff_right hnone] at hrec
      rw [List.append_assoc, List.cons_append, falls_append, falls_moved, falls_append,
        namesToken_append, namesToken_moved, namesToken_append, hpaid, hsome, hrec₁, hrec₂, hrec]
      exact or_left_comm
  | @swap g w w₁ w' tr₁ tr β e answer k _ hswap _ _ ih₁ ih =>
    intro named hp
    cases e with
    | swapV2 => exact hp.elim
    | swapV3 => exact hp.elim
    | swapMoeLB => exact hp.elim
    | _ => cases hswap

theorem Transactions.falls_iff (h : Transactions sys w tr w') (hw : Unapproved sys w) :
    Falls sys tr ↔ NamesToken sys tr := by
  induction h with
  | nil => simp [Falls, NamesToken]
  | cons origin hrun _ ih =>
    rw [falls_append, namesToken_append]
    exact or_congr (hrun.falls_iff rfl hw) (ih (hrun.unapproved hw))

/-- **When the funds are safe**: over every sequence of transactions, the executor's balances fall
inside calls of the owner only, exactly when outside of them nobody whom a callback asks for
`token0` or `token1` names a token. -/
theorem fundsSafe_iff (h : Transactions sys w tr w') (hw : Unapproved sys w) :
    (∀ inOwnerCall before after, .moved inOwnerCall before after ∈ tr →
      Decreases sys before after → inOwnerCall = true) ↔
    ∀ pool token,
      .asked false (.token0 pool) token ∈ tr ∨ .asked false (.token1 pool) token ∈ tr →
        token ∉ sys.tokens := by
  have hiff := h.falls_iff hw
  constructor
  · intro hsafe pool token hasked ht
    obtain ⟨before, after, hmoved, hdec⟩ := hiff.mpr ⟨pool, token, hasked, ht⟩
    cases hsafe false before after hmoved hdec
  · intro hnames inOwnerCall before after hmoved hdec
    cases inOwnerCall with
    | true => rfl
    | false =>
      obtain ⟨pool, token, hasked, ht⟩ := hiff.mp ⟨before, after, hmoved, hdec⟩
      exact absurd ht (hnames pool token hasked)

end Runs

/-- An executor at 9 that holds 10 of the token 5. -/
def funded : System where
  self := 9
  owner := 1
  WMNT := 5
  tokens := {5}

def fundedWorld (amount : Nat) : World where
  balance token account := if token = 5 ∧ account = 9 then amount else 0
  allowance _ _ _ := 0

/-- The contract 66 calls `agniSwapCallback(5, 0)` in a transaction of 100 and names `token`. -/
theorem callback_run {token : Address} (htoken : token ≠ 9) {w w' : World}
    (hpay : Transferred funded token 66 5 w w') :
    Transactions funded w [.asked false (.token0 66) token, .moved false w w'] w' := by
  have hbody : Run funded 100 false
      (.executor (body funded.toDeployment 100 66 (.agniSwapCallback 5 0))) w
      [.asked false (.token0 66) token, .moved false w w'] w' := by
    refine .view (by decide) rfl rfl trivial ?_
    exact @Run.transfer funded 100 false true w w w' w' w' [] [] [] token 66 5 _ htoken .idle hpay
      .idle .ret
  have hrun := @Run.enter funded 100 false w w' w' _ [] 66 (.agniSwapCallback 5 0) (by decide) hbody
    .idle
  exact .cons 100 hrun .nil

/-- A caller that names itself is paid in nothing. -/
theorem fundsSafe_iff_ownToken :
    ∃ tr, Transactions funded (fundedWorld 10) tr (fundedWorld 10) ∧ tr ≠ [] ∧
      ∀ inOwnerCall before after, .moved inOwnerCall before after ∈ tr →
        Decreases funded before after → inOwnerCall = true := by
  have hpay : Transferred funded 66 66 5 (fundedWorld 10) (fundedWorld 10) := by
    refine ⟨?_, fun t _ _ hlt => absurd hlt (Nat.lt_irrefl _), fun _ _ _ => Nat.le_refl _⟩
    intro ht
    cases ht
  have hrun := callback_run (by decide) hpay
  refine ⟨_, hrun, List.cons_ne_nil _ _, (fundsSafe_iff hrun fun _ _ _ => rfl).mpr ?_⟩
  intro pool token hasked ht
  have htoken : token = 66 := by
    rcases hasked with h | h
    · rcases List.mem_cons.mp h with heq | h
      · cases heq
        rfl
      · cases List.mem_singleton.mp h
    · rcases List.mem_cons.mp h with heq | h
      · cases heq
      · cases List.mem_singleton.mp h
  rw [htoken] at ht
  cases ht

/-- A caller that names the token is paid in it: 5 of the executor's 10. -/
theorem not_fundsSafe_callback : ¬ ∀ tr w', Transactions funded (fundedWorld 10) tr w' →
    ∀ inOwnerCall before after, .moved inOwnerCall before after ∈ tr →
      Decreases funded before after → inOwnerCall = true := by
  intro hsafe
  have hpay : Transferred funded 5 66 5 (fundedWorld 10) (fundedWorld 5) := by
    refine ⟨fun _ _ => rfl, ?_, fun _ _ _ => Nat.le_refl _⟩
    rintro t rfl hne
    exact absurd rfl hne
  cases hsafe _ _ (callback_run (by decide) hpay) false _ _
    (List.mem_cons_of_mem _ (List.mem_cons_self ..)) ⟨5, rfl, by decide⟩

end Executor

end ArbitrageBot
