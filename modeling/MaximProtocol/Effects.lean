import MaximProtocol.Steps

/-!
# The effect of every instruction

`Effect rt now s s' i` lists, for each of the fifteen instructions, the guards a
successful execution passed and the views of the state it left. Proofs about what
a step can do split on it (`execute_effect`).
-/

namespace MaximProtocol

open MachineInt World

variable {Pubkey : Type}

/-- A state with other token accounts has the same views of the program's accounts. -/
theorem views_tokens {s : World Pubkey} {config wallet policy record tokens mints}
    (h : Views s config wallet policy record tokens mints) (tokens' : Tokens Pubkey) :
    Views { s with tokens := tokens' } config wallet policy record tokens' mints :=
  ⟨h.config, h.wallet, h.policy, h.record, rfl, h.mints⟩

variable [DecidableEq Pubkey]

/-- What a successful `settle_payment` did: the loaded accounts, the wallet and the
policy its checks left, and the token accounts after the transfer. -/
structure Settles (rt : Runtime Pubkey) (now : Int64) (accs : SettlePayment Pubkey)
    (sequence : UInt64) (params : SettlePaymentParams Pubkey) (s s' : World Pubkey)
    (ctx : SettlePayment.Loaded Pubkey) (w : AgentWallet Pubkey) (p : SpendPolicy Pubkey) :
    Prop where
  validates : accs.Validates rt sequence params.agentId s ctx
  passed : Passed now ctx.config ctx.wallet ctx.policy sequence params w p
  signer_seeds : rt.createProgramAddress (.agentWallet w.agentId) w.bump = some accs.agentWallet
  transfer : tokenTransfer accs.usdcTokenAccount accs.payeeTokenAccount accs.agentWallet
    params.amountUsdc s.tokens = .ok s'.tokens
  views : ∃ protocol, Views s' s.config
    (Function.update s.wallet accs.agentWallet
      (some (w.accountPayment now params.amountUsdc)))
    (Function.update s.policy accs.spendPolicy (some p))
    (Function.update s.record accs.paymentRecord (some (PaymentRecord.settlement
      accs.agentWallet ctx.payee.owner sequence params protocol now ctx.recordBump)))
    s'.tokens s.mints

/-- What a successful `record_policy_violation` did. -/
structure Violates [Inhabited Pubkey] (rt : Runtime Pubkey) (now : Int64)
    (accs : RecordPolicyViolation Pubkey) (sequence : UInt64)
    (params : SettlePaymentParams Pubkey) (s s' : World Pubkey) (w : AgentWallet Pubkey)
    (bump : UInt8) : Prop where
  validates : accs.Validates rt sequence params.agentId s w bump
  sequence_eq : sequence = w.paymentSequence
  views : ∃ protocol, PaymentProtocol.fromDiscriminant params.protocol = some protocol ∧
    Views s' s.config (Function.update s.wallet accs.agentWallet (some w.advance)) s.policy
      (Function.update s.record accs.paymentRecord (some (PaymentRecord.violation
        accs.agentWallet sequence params protocol now bump)))
      s.tokens s.mints

/-- What a successful withdrawal of `amount` did. -/
structure Withdraws (rt : Runtime Pubkey) (accs : WithdrawFunds Pubkey) (amount : UInt64)
    (s s' : World Pubkey) (ctx : WithdrawFunds.Loaded Pubkey) : Prop where
  validates : accs.Validates rt s ctx
  positive : 0 < amount
  signer_seeds : rt.createProgramAddress (.agentWallet ctx.wallet.agentId) ctx.wallet.bump =
    some accs.agentWallet
  transfer : tokenTransfer accs.usdcTokenAccount accs.ownerTokenAccount accs.agentWallet
    amount s.tokens = .ok s'.tokens
  views : Views s' s.config s.wallet s.policy s.record s'.tokens s.mints

/-- What a successful `close_agent` did. -/
structure Closes (rt : Runtime Pubkey) (accs : CloseAgent Pubkey) (s s' : World Pubkey)
    (w : AgentWallet Pubkey) (p : SpendPolicy Pubkey) (t : TokenAccount Pubkey) : Prop where
  wallet : s.wallet accs.agentWallet = some w
  policy : s.policy accs.spendPolicy = some p
  token : s.tokens accs.usdcTokenAccount = some t
  mint : s.mints accs.usdcMint = true
  owner : w.owner = accs.owner
  inactive : w.isActive = false
  policy_seeds : rt.createProgramAddress (.spendPolicy accs.agentWallet) p.bump =
    some accs.spendPolicy
  token_owner : t.owner = accs.agentWallet
  associated : accs.usdcTokenAccount = rt.associatedTokenAddress accs.agentWallet accs.usdcMint
  empty : t.amount = 0
  views : Views s' s.config (Function.update s.wallet accs.agentWallet none)
    (Function.update s.policy accs.spendPolicy none) s.record s.tokens s.mints

/-- What a successful `register_agent` did. -/
structure Registers (rt : Runtime Pubkey) (now : Int64) (accs : RegisterAgent Pubkey)
    (agentId : Bytes) (s s' : World Pubkey) (bump : UInt8) : Prop where
  mint : s.mints accs.usdcMint = true
  addr : rt.findProgramAddress (.agentWallet agentId) = some (accs.agentWallet, bump)
  free : s.Free accs.agentWallet
  associated : accs.usdcTokenAccount = rt.associatedTokenAddress accs.agentWallet accs.usdcMint
  token_free : s.tokens accs.usdcTokenAccount = none
  id_length : agentId ≠ [] ∧ agentId.length ≤ MAX_AGENT_ID_LEN
  id_bytes : agentId.all isAgentIdByte = true
  views : Views s' s.config
    (Function.update s.wallet accs.agentWallet
      (some (AgentWallet.registered agentId accs.owner accs.usdcTokenAccount now bump)))
    s.policy s.record
    (Function.update s.tokens accs.usdcTokenAccount
      (some { mint := accs.usdcMint, owner := accs.agentWallet, amount := 0,
              isFrozen := false })) s.mints

/-- What a successful `set_spend_policy` did. -/
structure SetsPolicy (rt : Runtime Pubkey) (now : Int64) (accs : SetSpendPolicy Pubkey)
    (params : SetSpendPolicyParams) (s s' : World Pubkey) (w : AgentWallet Pubkey)
    (bump : UInt8) : Prop where
  wallet : s.wallet accs.agentWallet = some w
  owner : w.owner = accs.owner
  addr : rt.findProgramAddress (.spendPolicy accs.agentWallet) = some (accs.spendPolicy, bump)
  free_or_policy : s.Free accs.spendPolicy ∨ ∃ p₀, s.policy accs.spendPolicy = some p₀
  allowed_len : params.allowedDomainHashes.length ≤ MAX_DOMAIN_ENTRIES
  blocked_len : params.blockedDomainHashes.length ≤ MAX_DOMAIN_ENTRIES
  views : Views s' s.config s.wallet
    (Function.update s.policy accs.spendPolicy
      (some (SpendPolicy.ofParams accs.agentWallet now params bump))) s.record s.tokens s.mints

/-- The admin-signed update of the configuration at `k` from `c` to `c'`. -/
structure Configures (rt : Runtime Pubkey) (k admin : Pubkey) (s s' : World Pubkey)
    (c c' : ProtocolConfig Pubkey) : Prop where
  config : s.config k = some c
  seeds : rt.createProgramAddress .protocolConfig c.bump = some k
  admin : c.admin = admin
  views : Views s' (Function.update s.config k (some c')) s.wallet s.policy s.record
    s.tokens s.mints

/-- An edit of the wallet at `k` from `w` to `w'` that touches nothing else. -/
structure Edits (k : Pubkey) (s s' : World Pubkey) (w w' : AgentWallet Pubkey) : Prop where
  wallet : s.wallet k = some w
  views : Views s' s.config (Function.update s.wallet k (some w')) s.policy s.record
    s.tokens s.mints

/-- What a successful instruction did. -/
inductive Effect [Inhabited Pubkey] (rt : Runtime Pubkey) (now : Int64) (s s' : World Pubkey) :
    Instruction Pubkey → Prop
  | initProtocol {accs : InitProtocol Pubkey} {admin : Pubkey} {bump : UInt8}
      (addr : rt.findProgramAddress .protocolConfig = some (accs.protocolConfig, bump))
      (free : s.Free accs.protocolConfig) (valid : admin ≠ default)
      (views : Views s' (Function.update s.config accs.protocolConfig
        (some { admin := admin, version := PROGRAM_VERSION, maxSinglePaymentUsdc := 0,
                bump := bump })) s.wallet s.policy s.record s.tokens s.mints) :
      Effect rt now s s' (.initProtocol accs admin)
  | rotateProtocolAdmin {accs : RotateProtocolAdmin Pubkey} {newAdmin : Pubkey}
      {c : ProtocolConfig Pubkey} (valid : newAdmin ≠ default)
      (h : Configures rt accs.protocolConfig accs.admin s s' c { c with admin := newAdmin }) :
      Effect rt now s s' (.rotateProtocolAdmin accs newAdmin)
  | updateProtocolConfig {accs : UpdateProtocolConfig Pubkey} {cap : UInt64}
      {c : ProtocolConfig Pubkey}
      (h : Configures rt accs.protocolConfig accs.admin s s' c
        { c with maxSinglePaymentUsdc := cap }) :
      Effect rt now s s' (.updateProtocolConfig accs cap)
  | registerAgent {accs : RegisterAgent Pubkey} {agentId : Bytes} {bump : UInt8}
      (h : Registers rt now accs agentId s s' bump) :
      Effect rt now s s' (.registerAgent accs agentId)
  | setSpendPolicy {accs : SetSpendPolicy Pubkey} {params : SetSpendPolicyParams}
      {w : AgentWallet Pubkey} {bump : UInt8} (h : SetsPolicy rt now accs params s s' w bump) :
      Effect rt now s s' (.setSpendPolicy accs params)
  | settlePayment {accs : SettlePayment Pubkey} {sequence : UInt64}
      {params : SettlePaymentParams Pubkey} {ctx : SettlePayment.Loaded Pubkey}
      {w : AgentWallet Pubkey} {p : SpendPolicy Pubkey}
      (h : Settles rt now accs sequence params s s' ctx w p) :
      Effect rt now s s' (.settlePayment accs sequence params)
  | recordPolicyViolation {accs : RecordPolicyViolation Pubkey} {sequence : UInt64}
      {params : SettlePaymentParams Pubkey} {reason : UInt8} {w : AgentWallet Pubkey}
      {bump : UInt8} (h : Violates rt now accs sequence params s s' w bump) :
      Effect rt now s s' (.recordPolicyViolation accs sequence params reason)
  | deactivateAgent {accs : ManageAgentStatus Pubkey} {w : AgentWallet Pubkey}
      (owner : w.owner = accs.owner)
      (h : Edits accs.agentWallet s s' w { w with isActive := false }) :
      Effect rt now s s' (.deactivateAgent accs)
  | reactivateAgent {accs : ManageAgentStatus Pubkey} {w : AgentWallet Pubkey}
      (owner : w.owner = accs.owner)
      (h : Edits accs.agentWallet s s' w { w with isActive := true }) :
      Effect rt now s s' (.reactivateAgent accs)
  | freezeAgent {accs : ProtocolManageAgent Pubkey} {w : AgentWallet Pubkey}
      {c : ProtocolConfig Pubkey} (config : s.config accs.protocolConfig = some c)
      (seeds : rt.createProgramAddress .protocolConfig c.bump = some accs.protocolConfig)
      (admin : c.admin = accs.admin)
      (h : Edits accs.agentWallet s s' w { w with isFrozen := true }) :
      Effect rt now s s' (.freezeAgent accs)
  | unfreezeAgent {accs : ProtocolManageAgent Pubkey} {w : AgentWallet Pubkey}
      {c : ProtocolConfig Pubkey} (config : s.config accs.protocolConfig = some c)
      (seeds : rt.createProgramAddress .protocolConfig c.bump = some accs.protocolConfig)
      (admin : c.admin = accs.admin)
      (h : Edits accs.agentWallet s s' w { w with isFrozen := false }) :
      Effect rt now s s' (.unfreezeAgent accs)
  | withdrawFunds {accs : WithdrawFunds Pubkey} {amount : UInt64}
      {ctx : WithdrawFunds.Loaded Pubkey} (h : Withdraws rt accs amount s s' ctx) :
      Effect rt now s s' (.withdrawFunds accs amount)
  | withdrawAll {accs : WithdrawFunds Pubkey} {ctx : WithdrawFunds.Loaded Pubkey}
      (h : Withdraws rt accs ctx.source.amount s s' ctx) :
      Effect rt now s s' (.withdrawAll accs)
  | transferOwnership {accs : TransferOwnership Pubkey} {newOwner : Pubkey}
      {w : AgentWallet Pubkey} (owner : w.owner = accs.owner) (valid : newOwner ≠ default)
      (changed : newOwner ≠ w.owner)
      (h : Edits accs.agentWallet s s' w { w with owner := newOwner }) :
      Effect rt now s s' (.transferOwnership accs newOwner)
  | closeAgent {accs : CloseAgent Pubkey} {w : AgentWallet Pubkey} {p : SpendPolicy Pubkey}
      {t : TokenAccount Pubkey} (h : Closes rt accs s s' w p t) :
      Effect rt now s s' (.closeAgent accs)

variable {rt : Runtime Pubkey} {now : Int64} {s s' : World Pubkey} {ev : Option (Event Pubkey)}

/-! ## 1. One inversion lemma for each handler -/

theorem settlePayment_inv {accs : SettlePayment Pubkey} {sequence : UInt64}
    {params : SettlePaymentParams Pubkey}
    (h : settlePayment rt now accs sequence params s = .ok (s', ev)) :
    ∃ ctx w p, Settles rt now accs sequence params s s' ctx w p := by
  simp only [settlePayment, bind_eq_ok, settle_tryAccounts_eq_ok, settlePaymentChecks_eq_ok,
    cpiTransferFromWallet, orFail_eq_ok, require_eq_ok, pure_eq_ok, Prod.mk.injEq, Prod.exists,
    exists_const] at h
  obtain ⟨ctx, hv, w, p, hp, tokens, ⟨hseed, ht⟩, protocol, _, rfl, _⟩ := h
  refine ⟨ctx, w, p, hv, hp, hseed, ht, protocol, ?_⟩
  -- the three writes hit a wallet, a policy and a free address, in this order
  have h₁ := views_write_wallet (.inr ⟨_, hv.wallet⟩) (w.accountPayment now params.amountUsdc)
  have hp₁ := congrFun h₁.policy accs.spendPolicy
  rw [hv.policy] at hp₁
  have h₂ := views_write_policy (.inr ⟨_, hp₁⟩) p
  have hfree : ((s.write accs.agentWallet (some (.agentWallet
      (w.accountPayment now params.amountUsdc)))).write accs.spendPolicy
      (some (.spendPolicy p))).Free accs.paymentRecord := by
    have hrec := hv.record_free
    have hne : accs.paymentRecord ≠ accs.agentWallet := by
      rintro he
      have hw := hv.wallet
      rw [← he, (free_iff.mp hrec).2.1] at hw
      cases hw
    have hne' : accs.paymentRecord ≠ accs.spendPolicy := by
      rintro he
      have hpol := hv.policy
      rw [← he, (free_iff.mp hrec).2.2.1] at hpol
      cases hpol
    rw [free_write_of_ne hne', free_write_of_ne hne]
    exact hrec
  have h₃ := views_write_record hfree (PaymentRecord.settlement accs.agentWallet ctx.payee.owner
    sequence params protocol now ctx.recordBump)
  rw [h₂.config, h₁.config, h₂.wallet, h₁.wallet, h₂.policy, h₁.policy, h₂.record, h₁.record]
    at h₃
  exact views_tokens h₃ tokens

theorem recordPolicyViolation_inv [Inhabited Pubkey] {accs : RecordPolicyViolation Pubkey}
    {sequence : UInt64} {params : SettlePaymentParams Pubkey} {reason : UInt8}
    (h : recordPolicyViolation rt now accs sequence params reason s = .ok (s', ev)) :
    ∃ w bump, Violates rt now accs sequence params s s' w bump := by
  simp only [recordPolicyViolation, bind_eq_ok, Prod.exists, violation_tryAccounts_eq_ok,
    orFail_eq_ok, require_eq_ok, pure_eq_ok, Prod.mk.injEq, exists_const] at h
  obtain ⟨w, bump, hv, protocol, hprot, hseq, rfl, _⟩ := h
  refine ⟨w, bump, hv, hseq, protocol, hprot, ?_⟩
  have h₁ := views_write_wallet (.inr ⟨_, hv.wallet⟩) w.advance
  have hne : accs.paymentRecord ≠ accs.agentWallet := by
    rintro he
    have hw := hv.wallet
    rw [← he, (free_iff.mp hv.record_free).2.1] at hw
    cases hw
  have hfree : (s.write accs.agentWallet (some (.agentWallet w.advance))).Free
      accs.paymentRecord := by
    rw [free_write_of_ne hne]
    exact hv.record_free
  have h₂ := views_write_record hfree
    (PaymentRecord.violation accs.agentWallet sequence params protocol now bump)
  rw [h₁.config, h₁.wallet, h₁.policy, h₁.record] at h₂
  exact h₂

theorem registerAgent_inv {accs : RegisterAgent Pubkey} {agentId : Bytes}
    (h : registerAgent rt now accs agentId s = .ok (s', ev)) :
    ∃ bump, Registers rt now accs agentId s s' bump := by
  simp only [registerAgent, RegisterAgent.tryAccounts, bind_eq_ok, loadMint_eq_ok,
    initAccount_eq_ok, require_eq_ok, pure_eq_ok, Option.isNone_iff_eq_none, Prod.mk.injEq,
    exists_const] at h
  obtain ⟨bump, ⟨hm, _, ⟨hf, hfree⟩, ha, ht, rfl⟩, hlen, hbytes, rfl, _⟩ := h
  exact ⟨_, hm, hf, hfree, ha, ht, hlen, hbytes,
    views_tokens (views_write_wallet (.inl hfree) _) _⟩

theorem setSpendPolicy_inv {accs : SetSpendPolicy Pubkey} {params : SetSpendPolicyParams}
    (h : setSpendPolicy rt now accs params s = .ok (s', ev)) :
    ∃ w bump, SetsPolicy rt now accs params s s' w bump := by
  simp only [setSpendPolicy, bind_eq_ok, policy_tryAccounts_eq_ok, require_eq_ok, pure_eq_ok,
    Prod.mk.injEq, exists_const] at h
  obtain ⟨bump, hv, ha, hb, rfl, _⟩ := h
  obtain ⟨w, hw, ho⟩ := hv.wallet
  have hfree := hv.policy
  rw [Option.isSome_iff_exists] at hfree
  exact ⟨w, _, hw, ho, hv.policy_addr, hfree, ha, hb, views_write_policy hfree _⟩

theorem withdraw_inv {accs : WithdrawFunds Pubkey} {ctx : WithdrawFunds.Loaded Pubkey}
    {amount : UInt64} (hv : accs.Validates rt s ctx) (hpos : 0 < amount)
    (h : withdrawAmount rt now accs ctx amount s = .ok (s', ev)) :
    Withdraws rt accs amount s s' ctx := by
  simp only [withdrawAmount, bind_eq_ok, cpiTransferFromWallet, require_eq_ok, pure_eq_ok,
    Prod.mk.injEq, exists_const] at h
  obtain ⟨tokens, ⟨hseed, ht⟩, rfl, _⟩ := h
  exact ⟨hv, hpos, hseed, ht, views_tokens (views_self s) tokens⟩

theorem closeAgent_inv {accs : CloseAgent Pubkey} (h : closeAgent rt accs s = .ok (s', ev)) :
    ∃ w p t, Closes rt accs s s' w p t := by
  simp only [closeAgent, bind_eq_ok, load_wallet, load_policy, loadToken_eq_ok, loadMint_eq_ok,
    require_eq_ok, checkSeeds_eq_ok, checkAssociated_eq_ok, pure_eq_ok, Prod.mk.injEq,
    exists_and_left, exists_const] at h
  obtain ⟨w, hw, p, hp, t, ht, hm, ho, hi, hs, ⟨hto, ha⟩, he, rfl, _⟩ := h
  refine ⟨w, p, t, hw, hp, ht, hm, ho, hi, hs, hto, ha, he, ?_⟩
  have h₁ := views_close_wallet hw
  have hp₁ := congrFun h₁.policy accs.spendPolicy
  rw [hp] at hp₁
  have h₂ := views_close_policy hp₁
  rw [h₁.config, h₁.wallet, h₁.policy, h₁.record] at h₂
  exact h₂

/-! ## 2. The whole instruction set -/

/-- Every successful instruction was signed and had its effect. -/
theorem execute_effect [Inhabited Pubkey] {i : Instruction Pubkey}
    (h : execute rt now i s = .ok (s', ev)) :
    rt.canSign i.signer = true ∧ Effect rt now s s' i := by
  simp only [execute, bind_eq_ok, require_eq_ok, exists_const] at h
  obtain ⟨hsign, h⟩ := h
  refine ⟨hsign, ?_⟩
  cases i with
  | initProtocol accs admin =>
    simp only [handle, initProtocol, bind_eq_ok, initAccount_eq_ok, require_eq_ok, pure_eq_ok,
      Prod.mk.injEq, exists_const] at h
    obtain ⟨bump, ⟨hf, hfree⟩, hv, rfl, _⟩ := h
    exact .initProtocol hf hfree hv (views_write_config (.inl hfree) _)
  | rotateProtocolAdmin accs newAdmin =>
    simp only [handle, rotateProtocolAdmin, bind_eq_ok, loadConfigOfAdmin_eq_ok, require_eq_ok,
      pure_eq_ok, Prod.mk.injEq, exists_const] at h
    obtain ⟨c, ⟨hc, hs, ha⟩, hv, rfl, _⟩ := h
    exact .rotateProtocolAdmin hv ⟨hc, hs, ha, views_write_config (.inr ⟨c, hc⟩) _⟩
  | updateProtocolConfig accs cap =>
    simp only [handle, updateProtocolConfig, bind_eq_ok, loadConfigOfAdmin_eq_ok, pure_eq_ok,
      Prod.mk.injEq] at h
    obtain ⟨c, ⟨hc, hs, ha⟩, rfl, _⟩ := h
    exact .updateProtocolConfig ⟨hc, hs, ha, views_write_config (.inr ⟨c, hc⟩) _⟩
  | registerAgent accs agentId =>
    obtain ⟨_, h⟩ := registerAgent_inv h
    exact .registerAgent h
  | setSpendPolicy accs params =>
    obtain ⟨_, _, h⟩ := setSpendPolicy_inv h
    exact .setSpendPolicy h
  | settlePayment accs sequence params =>
    obtain ⟨_, _, _, h⟩ := settlePayment_inv h
    exact .settlePayment h
  | recordPolicyViolation accs sequence params reason =>
    obtain ⟨_, _, h⟩ := recordPolicyViolation_inv h
    exact .recordPolicyViolation h
  | deactivateAgent accs =>
    simp only [handle, deactivateAgent, setActive, bind_eq_ok, loadWalletOfOwner_eq_ok,
      pure_eq_ok, Prod.mk.injEq] at h
    obtain ⟨w, ⟨hw, ho⟩, rfl, _⟩ := h
    exact .deactivateAgent ho ⟨hw, views_write_wallet (.inr ⟨w, hw⟩) _⟩
  | reactivateAgent accs =>
    simp only [handle, reactivateAgent, setActive, bind_eq_ok, loadWalletOfOwner_eq_ok,
      pure_eq_ok, Prod.mk.injEq] at h
    obtain ⟨w, ⟨hw, ho⟩, rfl, _⟩ := h
    exact .reactivateAgent ho ⟨hw, views_write_wallet (.inr ⟨w, hw⟩) _⟩
  | freezeAgent accs =>
    simp only [handle, freezeAgent, setFrozen, bind_eq_ok, load_wallet, loadConfigOfAdmin_eq_ok,
      pure_eq_ok, Prod.mk.injEq] at h
    obtain ⟨w, hw, c, ⟨hc, hs, ha⟩, rfl, _⟩ := h
    exact .freezeAgent hc hs ha ⟨hw, views_write_wallet (.inr ⟨w, hw⟩) _⟩
  | unfreezeAgent accs =>
    simp only [handle, unfreezeAgent, setFrozen, bind_eq_ok, load_wallet,
      loadConfigOfAdmin_eq_ok, pure_eq_ok, Prod.mk.injEq] at h
    obtain ⟨w, hw, c, ⟨hc, hs, ha⟩, rfl, _⟩ := h
    exact .unfreezeAgent hc hs ha ⟨hw, views_write_wallet (.inr ⟨w, hw⟩) _⟩
  | withdrawFunds accs amount =>
    simp only [handle, withdrawFunds, bind_eq_ok, withdraw_tryAccounts_eq_ok, require_eq_ok,
      exists_const] at h
    obtain ⟨ctx, hv, hpos, _, h⟩ := h
    exact .withdrawFunds (withdraw_inv hv hpos h)
  | withdrawAll accs =>
    simp only [handle, withdrawAll, bind_eq_ok, withdraw_tryAccounts_eq_ok, require_eq_ok,
      exists_const] at h
    obtain ⟨ctx, hv, hpos, h⟩ := h
    exact .withdrawAll (withdraw_inv hv hpos h)
  | transferOwnership accs newOwner =>
    simp only [handle, transferOwnership, bind_eq_ok, loadWalletOfOwner_eq_ok, require_eq_ok,
      pure_eq_ok, Prod.mk.injEq, exists_const] at h
    obtain ⟨w, ⟨hw, ho⟩, hv, hne, rfl, _⟩ := h
    exact .transferOwnership ho hv hne ⟨hw, views_write_wallet (.inr ⟨w, hw⟩) _⟩
  | closeAgent accs =>
    obtain ⟨_, _, _, h⟩ := closeAgent_inv h
    exact .closeAgent h

end MaximProtocol
