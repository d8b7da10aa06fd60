import ArbitrageBot.Execution.SwapExecutor

/-!
# What the direct execution sends

In every run, whatever the provider answers: a step sends an approval for the amount that it swaps,
where the allowance is short of it, and then its swap, to the wallet itself; the next step swaps
what the step before returned, and after a step that fails nothing is sent.
-/

namespace ArbitrageBot.SwapExecutor

open Lib Lib.Prog

/-! ## Transactions of a run -/

/-- The transaction of a call. -/
def Call.sent {β : Type} : Call β → Option Transaction
  | .send tx => some tx
  | _ => none

/-- The transactions of a run, in order. -/
def sent (events : List (Exchange Call)) : List Transaction :=
  events.filterMap fun exchange => exchange.request.sent

theorem sent_append (first second : List (Exchange Call)) :
    sent (first ++ second) = sent first ++ sent second :=
  List.filterMap_append

variable {α β : Type} {events : List (Exchange Call)}

theorem runs_ask {call : Call (Option α)} {result : Except String α}
    (h : Runs (ask call) events result) :
    (∃ a, events = [⟨call, some a⟩] ∧ result = .ok a) ∨
      events = [⟨call, none⟩] ∧ ∃ reason, result = .error reason := by
  unfold ask at h
  rw [call_bind] at h
  obtain ⟨answer, rest, rfl, hrest⟩ := runs_ext h
  cases answer with
  | none =>
    obtain ⟨rfl, rfl⟩ := runs_revert hrest
    exact .inr ⟨rfl, _, rfl⟩
  | some a =>
    obtain ⟨rfl, rfl⟩ := runs_pure hrest
    exact .inl ⟨a, rfl, rfl⟩

/-- A program that only reads first. -/
theorem runs_ask_bind {call : Call (Option α)} {f : α → Program β} {result : Except String β}
    (hcall : call.sent = none) (h : Runs (ask call >>= f) events result) :
    (∃ a rest, events = ⟨call, some a⟩ :: rest ∧ Runs (f a) rest result) ∨
      sent events = [] ∧ ∃ reason, result = .error reason := by
  rcases runs_bind h with ⟨a, first, second, rfl, hfirst, hsecond⟩ | ⟨reason, rfl, hrun⟩
  · rcases runs_ask hfirst with ⟨b, rfl, hb⟩ | ⟨-, reason, hreason⟩
    · cases hb
      exact .inl ⟨a, second, rfl, hsecond⟩
    · cases hreason
  · rcases runs_ask hrun with ⟨b, -, hb⟩ | ⟨rfl, -⟩
    · cases hb
    · refine .inr ⟨?_, reason, rfl⟩
      exact List.filterMap_cons_none hcall

/-- A transaction is sent before all else, and a run that goes on has waited for it. -/
theorem runs_sendAndWatch_bind {tx : Transaction} {f : TxHash → Program β}
    {result : Except String β} (h : Runs (sendAndWatch tx >>= f) events result) :
    (∃ hash rest, events = ⟨.send tx, some hash⟩ :: ⟨.watch hash, some ()⟩ :: rest ∧
      Runs (f hash) rest result) ∨
    sent events = [tx] ∧ ∃ reason, result = .error reason := by
  unfold sendAndWatch at h
  rw [bind_assoc] at h
  rcases runs_bind h with ⟨hash, first, second, rfl, hfirst, hsecond⟩ | ⟨reason, rfl, hrun⟩
  · rcases runs_ask hfirst with ⟨b, rfl, hb⟩ | ⟨-, reason, hreason⟩
    · cases hb
      rw [bind_assoc] at hsecond
      rcases runs_ask_bind rfl hsecond with ⟨-, rest, rfl, hrest⟩ | ⟨hsent, hreason⟩
      · exact .inl ⟨hash, rest, rfl, hrest⟩
      · refine .inr ⟨?_, hreason⟩
        rw [sent_append, hsent]
        rfl
    · cases hreason
  · rcases runs_ask hrun with ⟨b, -, hb⟩ | ⟨rfl, -⟩
    · cases hb
    · exact .inr ⟨rfl, reason, rfl⟩

/-! ## Approvals -/

/-- The run sends what satisfies `P`, behind an approval of the amount where the allowance is short
of it. -/
def Spends (token spender owner : Address) (amount : U256) (P : List Transaction → Prop)
    (events : List (Exchange Call)) : Prop :=
  ∃ allowance : U256, (⟨.allowance token owner spender, some allowance⟩ : Exchange Call) ∈ events ∧
    (amount ≤ allowance ∧ P (sent events) ∨
      allowance < amount ∧ ∃ txs, sent events = .approve token spender amount :: txs ∧ P txs)

variable {token spender owner : Address} {amount : U256} {core : List Transaction}
  {P : List Transaction → Prop}

/-- Calls that send nothing may come first. -/
theorem Spends.behind {front : List (Exchange Call)} (hfront : sent front = [])
    (h : Spends token spender owner amount P events) :
    Spends token spender owner amount P (front ++ events) := by
  have hsent : sent (front ++ events) = sent events := by
    rw [sent_append, hfront, List.nil_append]
  unfold Spends
  rw [hsent]
  exact h.imp fun allowance ⟨hmem, hsends⟩ => ⟨List.mem_append_right _ hmem, hsends⟩

/-- The transactions of a program whose runs send no more than these, and all of them where it
returns. -/
def SendsCore (rest : Program β) (core : List Transaction) : Prop :=
  ∀ events result, Runs rest events result →
    sent events <+: core ∧ ∀ b, result = .ok b → sent events = core

/-- **An approved program.** -/
theorem runs_ensureApproval_bind {rest : Program β} {result : Except String β}
    (hrest : SendsCore rest core)
    (h : Runs (ensureApproval token spender amount owner >>= fun _ => rest) events result) :
    (sent events = [] ∨ Spends token spender owner amount (· <+: core) events) ∧
      ∀ b, result = .ok b → Spends token spender owner amount (· = core) events ∧
        ∃ first second, events = first ++ second ∧ Runs rest second (.ok b) := by
  unfold ensureApproval at h
  rw [bind_assoc] at h
  rcases runs_ask_bind rfl h with ⟨allowance, events, rfl, hrun⟩ | ⟨hsent, reason, rfl⟩
  · clear h
    split at hrun
    · rename_i hshort
      rw [bind_assoc] at hrun
      rcases runs_sendAndWatch_bind hrun with ⟨hash, tail, rfl, htail⟩ | ⟨hsent, reason, rfl⟩
      · obtain ⟨hpart, hall⟩ := hrest tail _ htail
        refine ⟨.inr ⟨allowance, List.mem_cons_self, .inr ⟨hshort, _, rfl, hpart⟩⟩, ?_⟩
        rintro b rfl
        exact ⟨⟨allowance, List.mem_cons_self, .inr ⟨hshort, _, rfl, hall b rfl⟩⟩,
          [_, _, _], tail, rfl, htail⟩
      · refine ⟨.inr ⟨allowance, List.mem_cons_self, .inr ⟨hshort, [], hsent, ?_⟩⟩, ?_⟩
        · exact List.nil_prefix
        · intro b hb
          cases hb
    · rename_i henough
      obtain ⟨hpart, hall⟩ := hrest events _ hrun
      have hle := BitVec.not_lt.mp henough
      refine ⟨.inr ⟨allowance, List.mem_cons_self, .inl ⟨hle, hpart⟩⟩, ?_⟩
      rintro b rfl
      exact ⟨⟨allowance, List.mem_cons_self, .inl ⟨hle, hall b rfl⟩⟩, [_], events, rfl, hrun⟩
  · exact ⟨.inl hsent, fun b hb => by cases hb⟩

/-! ## One step -/

/-- The quote of a V2 pool whose first token and reserves these are. -/
def v2Quote (step : SwapStep) (token0 : Address) (reserves : BitVec 112 × BitVec 112) : U256 :=
  if step.tokenIn = token0 then
    expectedOut step.amountIn (reserves.1.setWidth 256) (reserves.2.setWidth 256)
  else expectedOut step.amountIn (reserves.2.setWidth 256) (reserves.1.setWidth 256)

/-- The fee tier of a step: its own, else what its pool has answered, else 3000. -/
inductive FeeTier (step : SwapStep) (events : List (Exchange Call)) : BitVec 24 → Prop
  | own {fee : BitVec 32} (hfee : step.fee = some fee) (hlt : fee.toNat < 2 ^ 24) :
      FeeTier step events (fee.setWidth 24)
  | pool {answer : Option (BitVec 24)} (hfee : step.fee = none)
      (hanswer : (⟨.fee step.poolAddress, answer⟩ : Exchange Call) ∈ events) :
      FeeTier step events (answer.getD 3000)

/-- The spender of a step and its transactions, the approval apart: all of the amount of the step,
all to the wallet. A V2 pool pays its quote in the token that does not come in. -/
inductive Swaps (fromAddress : Address) (config : RouterConfig) (step : SwapStep)
    (events : List (Exchange Call)) : Address → List Transaction → Prop
  | v2 (token0 : Address) (reserves : BitVec 112 × BitVec 112) (htype : step.poolType = .uniV2)
      (htoken0 : (⟨.token0 step.poolAddress, some token0⟩ : Exchange Call) ∈ events)
      (hreserves : (⟨.getReserves step.poolAddress, some reserves⟩ : Exchange Call) ∈ events) :
      Swaps fromAddress config step events step.poolAddress
        [.transfer step.tokenIn step.poolAddress step.amountIn,
          .swap step.poolAddress (if step.tokenIn = token0 then 0 else v2Quote step token0 reserves)
            (if step.tokenIn = token0 then v2Quote step token0 reserves else 0) fromAddress
            ONE_HOP_GAS_LIMIT]
  | v3 (routerAddress : Address) (fee : BitVec 24) (htype : step.poolType = .uniV3)
      (hrouter : step.routerAddress.or config.v3RouterAddress = some routerAddress)
      (hfee : FeeTier step events fee) :
      Swaps fromAddress config step events routerAddress
        [.exactInputSingle routerAddress
          { tokenIn := step.tokenIn
            tokenOut := step.tokenOut
            fee
            recipient := fromAddress
            deadline := BitVec.allOnes 256
            amountIn := step.amountIn
            amountOutMinimum := 0
            sqrtPriceLimitX96 := step.sqrtPriceLimit.getD 0 } ONE_HOP_GAS_LIMIT]
  | moeLB (routerAddress : Address) (binStep : BitVec 16) (htype : step.poolType = .moeLB)
      (hrouter : step.routerAddress.or config.moeRouterAddress = some routerAddress)
      (hbinStep : step.binStep = some binStep) :
      Swaps fromAddress config step events routerAddress
        [.swapExactTokensForTokens routerAddress step.amountIn 0
          { pairBinSteps := [binStep.setWidth 256]
            versions := [2]
            tokenPath := [step.tokenIn, step.tokenOut] }
          fromAddress (BitVec.allOnes 256) ONE_HOP_GAS_LIMIT]

/-- What a run of a step sends: nothing, or a part of its transactions. -/
def StepSends (fromAddress : Address) (config : RouterConfig) (step : SwapStep)
    (events : List (Exchange Call)) : Prop :=
  sent events = [] ∨ ∃ spender core, Swaps fromAddress config step events spender core ∧
    Spends step.tokenIn spender fromAddress step.amountIn (· <+: core) events

/-- The run of a step that has sent all of them. -/
def StepDone (fromAddress : Address) (config : RouterConfig) (step : SwapStep)
    (events : List (Exchange Call)) : Prop :=
  ∃ spender core, Swaps fromAddress config step events spender core ∧
    Spends step.tokenIn spender fromAddress step.amountIn (· = core) events

/-- What a step returns: the quote of a V2 pool, and after a router has succeeded all that the
wallet has of the token. -/
inductive Returns (fromAddress : Address) (step : SwapStep) (events : List (Exchange Call)) :
    U256 → Prop
  | quote (token0 : Address) (reserves : BitVec 112 × BitVec 112) (htype : step.poolType = .uniV2)
      (htoken0 : (⟨.token0 step.poolAddress, some token0⟩ : Exchange Call) ∈ events)
      (hreserves : (⟨.getReserves step.poolAddress, some reserves⟩ : Exchange Call) ∈ events) :
      Returns fromAddress step events (v2Quote step token0 reserves)
  | balance (hash : TxHash) (amountOut : U256) (htype : step.poolType ≠ .uniV2)
      (hreceipt : (⟨.getTransactionReceipt hash, some (some true)⟩ : Exchange Call) ∈ events)
      (hbalance :
        (⟨.balanceOf step.tokenOut fromAddress, some amountOut⟩ : Exchange Call) ∈ events) :
      Returns fromAddress step events amountOut

variable {fromAddress : Address} {config : RouterConfig} {step : SwapStep}

/-- The last part of a router step. -/
theorem runs_finishRouterSwap {tx : Transaction} {missing reverted : String} {tokenOut : Address}
    {result : Except String U256}
    (h : Runs (finishRouterSwap tx missing reverted tokenOut fromAddress) events result) :
    (sent events <+: [tx] ∧ ∀ amountOut, result = .ok amountOut → sent events = [tx]) ∧
      ∀ amountOut, result = .ok amountOut →
      (∃ hash, (⟨.getTransactionReceipt hash, some (some true)⟩ : Exchange Call) ∈ events) ∧
        (⟨.balanceOf tokenOut fromAddress, some amountOut⟩ : Exchange Call) ∈ events := by
  unfold finishRouterSwap at h
  rcases runs_sendAndWatch_bind h with ⟨hash, events, rfl, hrun⟩ | ⟨hsent, reason, rfl⟩
  · clear h
    rcases runs_ask_bind rfl hrun with ⟨receipt, events, rfl, hend⟩ | ⟨hsent, reason, rfl⟩
    · match receipt with
      | none =>
        obtain ⟨rfl, rfl⟩ := runs_revert hend
        exact ⟨⟨List.prefix_rfl, fun _ _ => rfl⟩, fun amountOut heq => by cases heq⟩
      | some false =>
        obtain ⟨rfl, rfl⟩ := runs_revert hend
        exact ⟨⟨List.prefix_rfl, fun _ _ => rfl⟩, fun amountOut heq => by cases heq⟩
      | some true =>
        rcases runs_ask hend with ⟨amountOut, rfl, rfl⟩ | ⟨rfl, reason, rfl⟩
        · refine ⟨⟨List.prefix_rfl, fun _ _ => rfl⟩, fun out heq => ?_⟩
          cases heq
          exact ⟨⟨hash, by simp⟩, by simp⟩
        · exact ⟨⟨List.prefix_rfl, fun _ _ => rfl⟩, fun amountOut heq => by cases heq⟩
    · refine ⟨⟨?_, fun amountOut heq => by cases heq⟩, fun amountOut heq => by cases heq⟩
      change tx :: sent events <+: _
      rw [hsent]
  · rw [hsent]
    exact ⟨⟨List.prefix_rfl, fun _ _ => rfl⟩, fun amountOut heq => by cases heq⟩

/-- What a run of a step does, whatever it ends with. -/
structure StepRun (fromAddress : Address) (config : RouterConfig) (step : SwapStep)
    (events : List (Exchange Call)) (result : Except String U256) : Prop where
  sends : StepSends fromAddress config step events
  done : ∀ amountOut, result = .ok amountOut →
    StepDone fromAddress config step events ∧ Returns fromAddress step events amountOut

theorem StepRun.of_error {reason : String} (h : sent events = []) :
    StepRun fromAddress config step events (.error reason) where
  sends := .inl h
  done _ heq := by cases heq

/-- The run of a step behind calls that send nothing. -/
theorem StepRun.behind {front : List (Exchange Call)} {result : Except String U256}
    (hfront : sent front = [])
    (hswaps : Swaps fromAddress config step (front ++ events) spender core)
    (hpart : sent events = [] ∨
      Spends step.tokenIn spender fromAddress step.amountIn (· <+: core) events)
    (hall : ∀ amountOut, result = .ok amountOut →
      Spends step.tokenIn spender fromAddress step.amountIn (· = core) events ∧
        Returns fromAddress step (front ++ events) amountOut) :
    StepRun fromAddress config step (front ++ events) result where
  sends := by
    rcases hpart with hnone | hspends
    · exact .inl (by rw [sent_append, hfront, hnone, List.nil_append])
    · exact .inr ⟨spender, core, hswaps, hspends.behind hfront⟩
  done amountOut heq :=
    ⟨⟨spender, core, hswaps, (hall amountOut heq).1.behind hfront⟩, (hall amountOut heq).2⟩

/-- The transfer to a V2 pool and the swap. -/
theorem runs_transferAndSwap {tx tx' : Transaction} {amountOut : U256} {result : Except String U256}
    (h : Runs (do
      let _ ← sendAndWatch tx
      let _ ← sendAndWatch tx'
      return amountOut) events result) :
    (sent events <+: [tx, tx'] ∧ ∀ out, result = .ok out → sent events = [tx, tx']) ∧
      ∀ out, result = .ok out → out = amountOut := by
  rcases runs_sendAndWatch_bind h with ⟨-, rest, rfl, hrest⟩ | ⟨hsent, reason, rfl⟩
  · rcases runs_sendAndWatch_bind hrest with ⟨-, rest, rfl, hend⟩ | ⟨hsent, reason, rfl⟩
    · obtain ⟨rfl, rfl⟩ := runs_pure hend
      refine ⟨⟨List.prefix_rfl, fun _ _ => rfl⟩, fun out heq => ?_⟩
      cases heq
      rfl
    · refine ⟨⟨?_, fun out heq => by cases heq⟩, fun out heq => by cases heq⟩
      change tx :: sent rest <+: _
      rw [hsent]
  · rw [hsent]
    exact ⟨⟨⟨[tx'], rfl⟩, fun out heq => by cases heq⟩, fun out heq => by cases heq⟩

/-- A V2 step from its approval on. -/
theorem runs_v2Swap (front : List (Exchange Call)) {token0 : Address}
    {reserves : BitVec 112 × BitVec 112} {result : Except String U256}
    (htype : step.poolType = .uniV2) (hfront : sent front = [])
    (htoken0 : (⟨.token0 step.poolAddress, some token0⟩ : Exchange Call) ∈ front)
    (hreserves : (⟨.getReserves step.poolAddress, some reserves⟩ : Exchange Call) ∈ front)
    (h : Runs (ensureApproval step.tokenIn step.poolAddress step.amountIn fromAddress >>=
      fun _ => do
      let _ ← sendAndWatch (.transfer step.tokenIn step.poolAddress step.amountIn)
      let _ ← sendAndWatch (.swap step.poolAddress
        (if step.tokenIn = token0 then 0 else v2Quote step token0 reserves)
        (if step.tokenIn = token0 then v2Quote step token0 reserves else 0) fromAddress
        ONE_HOP_GAS_LIMIT)
      return v2Quote step token0 reserves) events result) :
    StepRun fromAddress config step (front ++ events) result := by
  have htoken0 := List.mem_append_left events htoken0
  have hreserves := List.mem_append_left events hreserves
  obtain ⟨hspends, hok⟩ := runs_ensureApproval_bind
    (fun events result hrun => (runs_transferAndSwap hrun).1) h
  refine .behind hfront (.v2 token0 reserves htype htoken0 hreserves) hspends
    fun amountOut heq => ?_
  obtain ⟨hall, first, second, rfl, hrun⟩ := hok amountOut heq
  rw [(runs_transferAndSwap hrun).2 amountOut rfl]
  exact ⟨hall, .quote token0 reserves htype htoken0 hreserves⟩

theorem runs_executeV2Swap {result : Except String U256} (htype : step.poolType = .uniV2)
    (h : Runs (executeV2Swap step fromAddress) events result) :
    StepRun fromAddress config step events result := by
  unfold executeV2Swap at h
  rcases runs_ask_bind rfl h with ⟨token0, rest, rfl, h₁⟩ | ⟨hsent, reason, rfl⟩
  · rcases runs_ask_bind rfl h₁ with ⟨reserves, rest, rfl, h₂⟩ | ⟨hsent, reason, rfl⟩
    · refine runs_v2Swap [⟨.token0 step.poolAddress, some token0⟩,
        ⟨.getReserves step.poolAddress, some reserves⟩] htype rfl List.mem_cons_self
        (List.mem_cons_of_mem _ List.mem_cons_self) ?_
      unfold v2Quote
      -- which of the two tokens comes in decides the sides
      by_cases hside : step.tokenIn = token0
      · rw [beq_iff_eq.mpr hside] at h₂
        rw [if_pos hside, if_pos hside, if_pos hside]
        exact h₂
      · rw [beq_eq_false_iff_ne.mpr hside] at h₂
        rw [if_neg hside, if_neg hside, if_neg hside]
        exact h₂
    · exact .of_error hsent
  · exact .of_error hsent

/-- A router step from its approval on. -/
theorem runs_routerSwap (front : List (Exchange Call)) {routerAddress : Address} {tx : Transaction}
    {missing reverted : String} {result : Except String U256} (hfront : sent front = [])
    (htype : step.poolType ≠ .uniV2)
    (hswaps : Swaps fromAddress config step (front ++ events) routerAddress [tx])
    (h : Runs (ensureApproval step.tokenIn routerAddress step.amountIn fromAddress >>= fun _ =>
      finishRouterSwap tx missing reverted step.tokenOut fromAddress) events result) :
    StepRun fromAddress config step (front ++ events) result := by
  obtain ⟨hspends, hok⟩ := runs_ensureApproval_bind
    (fun events result hrun => (runs_finishRouterSwap hrun).1) h
  refine .behind hfront hswaps hspends fun amountOut heq => ?_
  obtain ⟨hall, first, second, rfl, hrun⟩ := hok amountOut heq
  obtain ⟨⟨hash, hreceipt⟩, hbalance⟩ := (runs_finishRouterSwap hrun).2 amountOut rfl
  exact ⟨hall, .balance hash amountOut htype
    (List.mem_append_right _ (List.mem_append_right _ hreceipt))
    (List.mem_append_right _ (List.mem_append_right _ hbalance))⟩

theorem runs_executeV3Swap {result : Except String U256} (htype : step.poolType = .uniV3)
    (h : Runs (executeV3Swap step fromAddress config) events result) :
    StepRun fromAddress config step events result := by
  have hne : step.poolType ≠ .uniV2 := by
    rw [htype]
    decide
  unfold executeV3Swap at h
  split at h
  · obtain ⟨rfl, rfl⟩ := runs_revert h
    exact .of_error rfl
  · rename_i routerAddress hrouter
    unfold feeTier at h
    split at h
    · rename_i fee hfee
      split at h
      · rename_i hlt
        exact runs_routerSwap [] rfl hne
          (.v3 routerAddress _ htype hrouter (.own hfee hlt)) h
      · obtain ⟨rfl, rfl⟩ := runs_revert h
        exact .of_error rfl
    · rename_i hfee
      obtain ⟨answer, rest, rfl, hrun⟩ := runs_ext h
      exact runs_routerSwap [⟨.fee step.poolAddress, answer⟩] rfl hne
        (.v3 routerAddress _ htype hrouter (.pool hfee List.mem_cons_self)) hrun

theorem runs_executeMoeLbSwap {result : Except String U256} (htype : step.poolType = .moeLB)
    (h : Runs (executeMoeLbSwap step fromAddress config) events result) :
    StepRun fromAddress config step events result := by
  have hne : step.poolType ≠ .uniV2 := by
    rw [htype]
    decide
  unfold executeMoeLbSwap at h
  split at h
  · obtain ⟨rfl, rfl⟩ := runs_revert h
    exact .of_error rfl
  · rename_i routerAddress hrouter
    split at h
    · obtain ⟨rfl, rfl⟩ := runs_revert h
      exact .of_error rfl
    · rename_i binStep hbinStep
      exact runs_routerSwap [] rfl hne
        (.moeLB routerAddress binStep htype hrouter hbinStep) h

/-- **A step, against any answers.** -/
theorem runs_executeSwap {result : Except String U256}
    (h : Runs (executeSwap step fromAddress config) events result) :
    StepRun fromAddress config step events result := by
  unfold executeSwap at h
  split at h
  · exact runs_executeV2Swap ‹_› h
  · exact runs_executeV3Swap ‹_› h
  · exact runs_executeMoeLbSwap ‹_› h

/-! ## All steps -/

/-- The runs of steps one after the other, each with what the step before returned: `outs` are the
outputs of those that did not fail, and only the last one fails. -/
structure StepRuns (fromAddress : Address) (config : RouterConfig) (swapSteps : List SwapStep)
    (currentAmount : U256) (blocks : List (List (Exchange Call))) (outs : List U256) : Prop where
  length : outs.length ≤ blocks.length ∧ blocks.length ≤ swapSteps.length
  sends : ∀ (i : Nat) step block amount, swapSteps[i]? = some step → blocks[i]? = some block →
    (currentAmount :: outs)[i]? = some amount →
      StepSends fromAddress config { step with amountIn := amount } block
  done : ∀ (i : Nat) step block amount out, swapSteps[i]? = some step → blocks[i]? = some block →
    (currentAmount :: outs)[i]? = some amount → outs[i]? = some out →
      StepDone fromAddress config { step with amountIn := amount } block ∧
        Returns fromAddress { step with amountIn := amount } block out

variable {swapSteps : List SwapStep} {currentAmount : U256}

theorem StepRuns.cons {blocks : List (List (Exchange Call))} {outs : List U256}
    {block : List (Exchange Call)} {amountOut : U256}
    (hstep : StepRun fromAddress config { step with amountIn := currentAmount } block
      (.ok amountOut))
    (h : StepRuns fromAddress config swapSteps amountOut blocks outs) :
    StepRuns fromAddress config (step :: swapSteps) currentAmount (block :: blocks)
      (amountOut :: outs) where
  length := by
    have := h.length
    simp only [List.length_cons]
    omega
  sends i step' block' amount hs hb ha := by
    cases i with
    | zero =>
      cases hs
      cases hb
      cases ha
      exact hstep.sends
    | succ i => exact h.sends i step' block' amount hs hb ha
  done i step' block' amount out hs hb ha ho := by
    cases i with
    | zero =>
      cases hs
      cases hb
      cases ha
      cases ho
      exact hstep.done amountOut rfl
    | succ i => exact h.done i step' block' amount out hs hb ha ho

/-- A step that fails is the last one. -/
theorem StepRuns.failed {block : List (Exchange Call)} {result : Except String U256}
    (hstep : StepRun fromAddress config { step with amountIn := currentAmount } block result) :
    StepRuns fromAddress config (step :: swapSteps) currentAmount [block] [] where
  length := by simp
  sends i step' block' amount hs hb ha := by
    cases i with
    | zero =>
      cases hs
      cases hb
      cases ha
      exact hstep.sends
    | succ i => cases ha
  done i step' block' amount out hs hb ha ho := by cases ho

/-- **The loop**, by induction on the steps. -/
theorem runs_executeSteps {results : List U256} {result : Except String (List U256)}
    (h : Runs (executeSteps fromAddress config swapSteps currentAmount results) events result) :
    ∃ blocks outs, events = blocks.flatten ∧
      StepRuns fromAddress config swapSteps currentAmount blocks outs ∧
      (result = .ok (results ++ outs) ∧ outs.length = swapSteps.length ∨
        (∃ reason, result = .error reason) ∧ blocks.length = outs.length + 1) := by
  induction swapSteps generalizing currentAmount results events with
  | nil =>
    obtain ⟨rfl, rfl⟩ := runs_pure h
    exact ⟨[], [], rfl, ⟨by simp, by simp, by simp⟩, .inl ⟨by rw [List.append_nil], rfl⟩⟩
  | cons step swapSteps ih =>
    unfold executeSteps at h
    rcases runs_bind h with ⟨amountOut, first, second, rfl, hfirst, hsecond⟩ | ⟨reason, rfl, hrun⟩
    · obtain ⟨blocks, outs, rfl, hruns, hresult⟩ := ih hsecond
      refine ⟨first :: blocks, amountOut :: outs, rfl, hruns.cons (runs_executeSwap hfirst), ?_⟩
      simp only [List.append_assoc, List.singleton_append] at hresult
      simpa using hresult
    · exact ⟨[events], [], by simp, .failed (runs_executeSwap hrun), .inr ⟨⟨reason, rfl⟩, rfl⟩⟩

/-- A swap of 100 in a V2 pool. -/
def sampleStep : SwapStep :=
  { poolAddress := 5
    poolType := .uniV2
    tokenIn := 1
    tokenOut := 2
    amountIn := 100
    sqrtPriceLimit := none
    fee := none
    routerAddress := none
    binStep := none }

/-- A swap in a V3 pool, via a router, of what the first one returns. -/
def routerStep : SwapStep :=
  { sampleStep with
    poolAddress := 6
    poolType := .uniV3
    tokenIn := 2
    tokenOut := 3
    routerAddress := some 7 }

/-- Both swaps are done: the second pays the fee that its pool answers and needs no approval. -/
def sampleEvents : List (Exchange Call) :=
  [⟨.token0 5, some 1⟩, ⟨.getReserves 5, some (1000, 1000)⟩, ⟨.allowance 1 9 5, some 0⟩,
    ⟨.send (.approve 1 5 100), some 11⟩, ⟨.watch 11, some ()⟩,
    ⟨.send (.transfer 1 5 100), some 12⟩, ⟨.watch 12, some ()⟩,
    ⟨.send (.swap 5 0 90 9 300000000), some 13⟩, ⟨.watch 13, some ()⟩,
    ⟨.fee 6, some 500⟩, ⟨.allowance 2 9 7, some 90⟩,
    ⟨.send (.exactInputSingle 7
      { tokenIn := 2
        tokenOut := 3
        fee := 500
        recipient := 9
        deadline := BitVec.allOnes 256
        amountIn := 90
        amountOutMinimum := 0
        sqrtPriceLimitX96 := 0 } 300000000), some 14⟩,
    ⟨.watch 14, some ()⟩, ⟨.getTransactionReceipt 14, some (some true)⟩,
    ⟨.balanceOf 3 9, some 85⟩]

end ArbitrageBot.SwapExecutor
