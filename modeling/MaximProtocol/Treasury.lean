import MaximProtocol.Ledger
import MaximProtocol.Library.Postings

/-!
# The tokens of a run

Every accepted instruction that moves tokens is one posting, in the mint it names.

`double_entry`: what a token account holds is what it held, what came and went outside the
program, and its side of the postings; the postings leave every total as it was; and each
posting of a settlement has its record.
-/

namespace MaximProtocol

open MachineInt World Transitions Bookkeeping

variable {Pubkey : Type}

/-! ## 1. Postings -/

/-- What the transition moves between token accounts. -/
def posting (x : Transition (World Pubkey) (Action Pubkey)) : Option (Posting Pubkey Pubkey) :=
  match x.label with
  | .accepted _ (.settlePayment accs _ params) =>
      some ⟨accs.usdcTokenAccount, accs.payeeTokenAccount, accs.usdcMint, params.amountUsdc.toNat⟩
  | .accepted _ (.withdrawFunds accs amount) =>
      some ⟨accs.usdcTokenAccount, accs.ownerTokenAccount, accs.usdcMint, amount.toNat⟩
  | .accepted _ (.withdrawAll accs) =>
      some ⟨accs.usdcTokenAccount, accs.ownerTokenAccount, accs.usdcMint,
        x.pre.tokens.balance accs.usdcTokenAccount⟩
  | _ => none

variable [DecidableEq Pubkey]

/-- What `k` gains or loses of `m` in what happens outside the program. -/
def deposited (m k : Pubkey) (x : Transition (World Pubkey) (Action Pubkey)) : Int :=
  match x.label with
  | .outside => x.post.tokens.holding m k - x.pre.tokens.holding m k
  | _ => 0

variable {rt : Runtime Pubkey} {s s' : World Pubkey} {tr : Trace Pubkey} {m k : Pubkey}
variable {source destination authority : Pubkey} {amount : UInt64} {tokens tokens' : Tokens Pubkey}

/-- A transfer of tokens is a posting in the mint of its source. -/
theorem transfer_posted {src : TokenAccount Pubkey}
    (h : tokenTransfer source destination authority amount tokens = .ok tokens')
    (hs : tokens source = some src) (m k : Pubkey) :
    (tokens'.holding m k : Int) = tokens.holding m k +
      (Posting.mk source destination src.mint amount.toNat).net m k := by
  unfold Posting.net
  rcases eq_or_ne source destination with rfl | hne
  · rw [transfer_self h, sub_self, ite_self, add_zero]
  · obtain ⟨_, dst, hs', hd, _, _, hm, _⟩ := tokenTransfer_eq_ok.mp h
    rw [hs] at hs'
    cases hs'
    obtain ⟨a, ha⟩ := transfer_keeps h hs
    obtain ⟨b, hb⟩ := transfer_keeps h hd
    obtain ⟨hfrom, hto⟩ := transfer_moves h hne
    simp only [Tokens.balance, hs, hd, ha, hb] at hfrom hto
    by_cases hks : k = source
    · subst hks
      simp only [Tokens.holding, hs, ha, hne, if_true, if_false]
      split <;> omega
    · by_cases hkd : k = destination
      · subst hkd
        simp only [Tokens.holding, hd, hb, ← hm, hks, if_true, if_false]
        split <;> omega
      · rw [holding_of_ne h hks hkd, if_neg hkd, if_neg hks, sub_self, ite_self, add_zero]

/-! ## 2. One step -/

variable [Inhabited Pubkey] {x : Transition (World Pubkey) (Action Pubkey)}

/-- What one step can do to the token accounts. -/
inductive TokenStep (rt : Runtime Pubkey) (s : World Pubkey) :
    Action Pubkey → World Pubkey → Prop
  | settled {s' : World Pubkey} {now : Int64} {accs : SettlePayment Pubkey} {sequence : UInt64}
      {params : SettlePaymentParams Pubkey} {src : TokenAccount Pubkey} :
      s.tokens accs.usdcTokenAccount = some src →
      accs.usdcTokenAccount = rt.associatedTokenAddress accs.agentWallet accs.usdcMint →
      tokenTransfer accs.usdcTokenAccount accs.payeeTokenAccount accs.agentWallet
        params.amountUsdc s.tokens = .ok s'.tokens →
      TokenStep rt s (.accepted now (.settlePayment accs sequence params)) s'
  | withdrawn {s' : World Pubkey} {now : Int64} {accs : WithdrawFunds Pubkey} {amount : UInt64}
      {ctx : WithdrawFunds.Loaded Pubkey} : Withdraws rt accs amount s s' ctx →
      TokenStep rt s (.accepted now (.withdrawFunds accs amount)) s'
  | withdrawnAll {s' : World Pubkey} {now : Int64} {accs : WithdrawFunds Pubkey}
      {ctx : WithdrawFunds.Loaded Pubkey} : Withdraws rt accs ctx.source.amount s s' ctx →
      TokenStep rt s (.accepted now (.withdrawAll accs)) s'
  | outside {s' : World Pubkey} : TokenStep rt s .outside s'
  /-- Registration opens an empty account. -/
  | untouched {act : Action Pubkey} {s' : World Pubkey} :
      posting ⟨s, act, s'⟩ = none → act ≠ .outside →
      (∀ m k, s'.tokens.holding m k = s.tokens.holding m k) → TokenStep rt s act s'

omit [Inhabited Pubkey] in
theorem register_holding {accs : RegisterAgent Pubkey} {agentId : Bytes} {bump : UInt8}
    {now : Int64} (h : Registers rt now accs agentId s s' bump) (m k : Pubkey) :
    s'.tokens.holding m k = s.tokens.holding m k := by
  unfold Tokens.holding
  rw [h.views.tokens]
  rcases eq_or_ne k accs.usdcTokenAccount with rfl | hk
  · simp [h.token_free]
  · rw [Function.update_of_ne hk]

theorem tokenStep {act : Action Pubkey} (h : Step rt s act s') : TokenStep rt s act s' := by
  have hsame : s'.tokens = s.tokens → ∀ m k, s'.tokens.holding m k = s.tokens.holding m k :=
    fun he m k => by rw [he]
  cases h with
  | rejected _ => exact .untouched rfl (by simp) (hsame rfl)
  | outside _ => exact .outside
  | accepted h =>
    cases (execute_effect h).2 with
    | settlePayment hs =>
      obtain ⟨src, hsrc, _⟩ := hs.validates.source
      exact .settled hsrc hs.validates.associated hs.transfer
    | withdrawFunds hd => exact .withdrawn hd
    | withdrawAll hd => exact .withdrawnAll hd
    | registerAgent hr => exact .untouched rfl (by simp) (register_holding hr)
    | initProtocol _ _ _ hv => exact .untouched rfl (by simp) (hsame hv.tokens)
    | rotateProtocolAdmin _ hc => exact .untouched rfl (by simp) (hsame hc.views.tokens)
    | updateProtocolConfig hc => exact .untouched rfl (by simp) (hsame hc.views.tokens)
    | setSpendPolicy hp => exact .untouched rfl (by simp) (hsame hp.views.tokens)
    | recordPolicyViolation hv =>
      obtain ⟨_, _, hv⟩ := hv.views
      exact .untouched rfl (by simp) (hsame hv.tokens)
    | deactivateAgent _ he => exact .untouched rfl (by simp) (hsame he.views.tokens)
    | reactivateAgent _ he => exact .untouched rfl (by simp) (hsame he.views.tokens)
    | freezeAgent _ _ _ he => exact .untouched rfl (by simp) (hsame he.views.tokens)
    | unfreezeAgent _ _ _ he => exact .untouched rfl (by simp) (hsame he.views.tokens)
    | transferOwnership _ _ _ he => exact .untouched rfl (by simp) (hsame he.views.tokens)
    | closeAgent hc => exact .untouched rfl (by simp) (hsame hc.views.tokens)

omit [Inhabited Pubkey] in
theorem withdraw_posted {accs : WithdrawFunds Pubkey} {ctx : WithdrawFunds.Loaded Pubkey}
    (hl : LawfulTokens rt s.mints s.tokens) (h : Withdraws rt accs amount s s' ctx) (m k : Pubkey) :
    (s'.tokens.holding m k : Int) = s.tokens.holding m k +
      (Posting.mk accs.usdcTokenAccount accs.ownerTokenAccount accs.usdcMint
        amount.toNat).net m k := by
  have hm := associated_source hl h.validates.source_associated h.validates.source
  rw [← hm]
  exact transfer_posted h.transfer h.validates.source m k

theorem step_posted (hreach : Reachable rt x.pre) (hs : Step rt x.pre x.label x.post)
    (m k : Pubkey) :
    (x.post.tokens.holding m k : Int) =
      x.pre.tokens.holding m k + deposited m k x + net (posting x).toList m k := by
  have hl := (reachable_wellFormed hreach).lawful
  obtain ⟨s, act, s'⟩ := x
  -- outside the program and without a posting the holding moves by `deposited` alone
  have hnone : posting ⟨s, act, s'⟩ = none →
      net (posting (⟨s, act, s'⟩ : Transition _ _)).toList m k = 0 := fun h => by
    rw [h, Option.toList_none, net_nil]
  cases tokenStep hs with
  | settled hsrc ha ht =>
    have hm := associated_source hl ha hsrc
    show (s'.tokens.holding m k : Int) = s.tokens.holding m k + 0 + net [_] m k
    rw [transfer_posted ht hsrc m k, hm, add_zero, net_singleton]
  | withdrawn hd =>
    show (s'.tokens.holding m k : Int) = s.tokens.holding m k + 0 + net [_] m k
    rw [withdraw_posted hl hd m k, add_zero, net_singleton]
  | @withdrawnAll _ _ accs ctx hd =>
    have hsource : s.tokens accs.usdcTokenAccount = some ctx.source := hd.validates.source
    have hbalance : s.tokens.balance accs.usdcTokenAccount = ctx.source.amount.toNat := by
      simp only [Tokens.balance, hsource]
    show (s'.tokens.holding m k : Int) = s.tokens.holding m k + 0 + net [_] m k
    rw [withdraw_posted hl hd m k, add_zero, net_singleton, ← hbalance]
  | outside =>
    rw [hnone rfl]
    show (s'.tokens.holding m k : Int) = s.tokens.holding m k +
      (s'.tokens.holding m k - s.tokens.holding m k) + 0
    omega
  | untouched hpost houtside hsame =>
    have hdeposit : deposited m k ⟨s, act, s'⟩ = 0 := by
      cases act with
      | outside => exact absurd rfl houtside
      | accepted => rfl
      | rejected => rfl
    rw [hnone hpost, hdeposit, add_zero, add_zero, hsame]

/-! ## 3. Double entry -/

/-- The books of the run. -/
structure DoubleEntry (tr : Trace Pubkey) (s s' : World Pubkey) : Prop where
  account : ∀ m k, (s'.tokens.holding m k : Int) =
    s.tokens.holding m k + (tr.map (deposited m k)).sum + net (tr.filterMap posting) m k
  /-- Nothing but what happens outside the program changes the total of a mint. -/
  total : ∀ m S, accounts (tr.filterMap posting) ⊆ S →
    ∑ k ∈ S, (s'.tokens.holding m k : Int) =
      ∑ k ∈ S, (s.tokens.holding m k + (tr.map (deposited m k)).sum : Int)
  /-- The posting of a settlement is in the ledger, for good. -/
  recorded : ∀ x ∈ tr, ∀ accs n params, Accepts x (.settlePayment accs n params) →
    ∃ r t, s'.record accs.paymentRecord = some r ∧ r.agentWallet = accs.agentWallet ∧
      r.policyPassed = true ∧ x.pre.tokens accs.payeeTokenAccount = some t ∧ r.payee = t.owner ∧
      posting x = some ⟨accs.usdcTokenAccount, accs.payeeTokenAccount, accs.usdcMint,
        r.amountUsdc.toNat⟩

theorem recorded_posting {accs : SettlePayment Pubkey} {n : UInt64}
    {params : SettlePaymentParams Pubkey} (hr : Reaches rt s tr s') (hx : x ∈ tr)
    (hacc : Accepts x (.settlePayment accs n params)) :
    ∃ r t, s'.record accs.paymentRecord = some r ∧ r.agentWallet = accs.agentWallet ∧
      r.policyPassed = true ∧ x.pre.tokens accs.payeeTokenAccount = some t ∧ r.payee = t.owner ∧
      posting x = some ⟨accs.usdcTokenAccount, accs.payeeTokenAccount, accs.usdcMint,
        r.amountUsdc.toNat⟩ := by
  obtain ⟨_, _, _, _, hs, hrest⟩ := run_split hr hx
  obtain ⟨now, hl⟩ := hacc
  rw [hl] at hs
  cases (step_effect hs).2 with
  | @settlePayment _ _ _ ctx _ _ h =>
    obtain ⟨protocol, hv⟩ := h.views
    have hwritten : x.post.record accs.paymentRecord = some (PaymentRecord.settlement
        accs.agentWallet ctx.payee.owner n params protocol now ctx.recordBump) := by
      rw [hv.record, Function.update_self]
    refine ⟨_, ctx.payee, record_run hrest hwritten, rfl, rfl, h.validates.payee, rfl, ?_⟩
    unfold posting
    rw [hl]
    rfl

/-- **Double entry.** -/
theorem double_entry (h : Reachable rt s) (hr : Reaches rt s tr s') : DoubleEntry tr s s' := by
  have haccount : ∀ m k, (s'.tokens.holding m k : Int) =
      s.tokens.holding m k + (tr.map (deposited m k)).sum + net (tr.filterMap posting) m k :=
    fun m k => (run_posted (I := Reachable rt) (fun s => (s.tokens.holding m k : Int)) hr h
      fun x _ hs hI => ⟨reachable_step hI hs, step_posted hI hs m k⟩).2
  refine ⟨haccount, fun m S hS => ?_, fun x hx accs n params hacc => recorded_posting hr hx hacc⟩
  simp only [haccount]
  rw [Finset.sum_add_distrib, sum_net (within_of_accounts hS), add_zero]

theorem double_entry_opening :
    DoubleEntry (replay Key.runtime Demo.chain Demo.opening) Demo.chain
      (submitAll Key.runtime Demo.chain Demo.opening) :=
  double_entry (reachable_init Demo.genesis_chain)
    (replay_reaches Key.runtime Demo.chain Demo.opening)

end MaximProtocol
