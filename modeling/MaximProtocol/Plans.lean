import MaximProtocol.Recovery

/-!
# What an instruction writes

An instruction reads the state, decides, and then writes. `Plans rt now s i d` says that
the instruction passes every check in `s` and that `d` is what it writes: accounts at
named addresses, and one change of the token accounts.

* `execute_iff_plans`: an instruction succeeds exactly when it is signed and has a plan,
  and it leaves the state with the plan applied.
* `apply_agrees`: two states related address by address stay so when related plans are
  applied to them.

Two runs are compared through their plans: it is enough to relate what they read.
-/

namespace MaximProtocol

open MachineInt World Transitions

variable {Pubkey : Type} [DecidableEq Pubkey]

/-! ## 1. Changes of the token accounts -/

/-- `x` more in the token account at `k`, modulo `2^64`. -/
def Tokens.add (tokens : Tokens Pubkey) (k : Pubkey) (x : UInt64) : Tokens Pubkey :=
  Function.update tokens k ((tokens k).map fun t => { t with amount := t.amount + x })

inductive TokenChange (Pubkey : Type) where
  | unchanged
  | moved (source destination : Pubkey) (amount : UInt64)
  | opened (k : Pubkey) (t : TokenAccount Pubkey)

def TokenChange.apply (tokens : Tokens Pubkey) : TokenChange Pubkey → Tokens Pubkey
  | .unchanged => tokens
  | .moved source destination amount => (tokens.add source (-amount)).add destination amount
  | .opened k t => Function.update tokens k (some t)

section Tokens

variable {tokens tokens' : Tokens Pubkey} {k k' : Pubkey} {x y : UInt64}

@[simp] theorem add_self : tokens.add k x k =
    (tokens k).map fun t => { t with amount := t.amount + x } :=
  Function.update_self _ _ _

@[simp] theorem add_of_ne (h : k' ≠ k) : tokens.add k x k' = tokens k' :=
  Function.update_of_ne h _ _

theorem add_comm (tokens : Tokens Pubkey) (k k' : Pubkey) (x y : UInt64) :
    (tokens.add k x).add k' y = (tokens.add k' y).add k x := by
  funext a
  by_cases hk : a = k <;> by_cases hk' : a = k'
  · subst hk
    subst hk'
    cases h : tokens a with
    | none => simp [h]
    | some t => simp [h, UInt64.add_assoc, UInt64.add_comm x y]
  · subst hk
    simp [hk']
  · subst hk'
    simp [hk]
  · simp [hk, hk']

/-- A transfer moves its amount, also from an account to itself. -/
theorem transfer_change {source destination authority : Pubkey} {amount : UInt64}
    (h : tokenTransfer source destination authority amount tokens = .ok tokens') :
    tokens' = (TokenChange.moved source destination amount).apply tokens := by
  obtain ⟨src, dst, hs, hd, _, _, _, _, ⟨rfl, rfl⟩ | ⟨hne, _, rfl⟩⟩ := tokenTransfer_eq_ok.mp h
  · funext a
    rcases eq_or_ne a source with rfl | ha
    · have hback : src.amount + -amount + amount = src.amount := by
        rw [UInt64.add_assoc, UInt64.add_left_neg, UInt64.add_zero]
      simp only [TokenChange.apply, add_self, hs, Option.map_some, hback]
    · simp [TokenChange.apply, ha]
  · show _ = Function.update (Function.update _ _ _) _ _
    simp [hs, hd, Ne.symm hne, UInt64.sub_eq_add_neg]

end Tokens

/-! ## 2. Plans -/

/-- The writes of one instruction, in order, and its change of the token accounts. -/
structure Delta (Pubkey : Type) where
  writes : List (Pubkey × Option (ProgramAccount Pubkey))
  tokens : TokenChange Pubkey

/-- One write and nothing else. -/
def Delta.single (k : Pubkey) (account : ProgramAccount Pubkey) : Delta Pubkey :=
  ⟨[(k, some account)], .unchanged⟩

def writeAll (accounts : Pubkey → Option (ProgramAccount Pubkey))
    (writes : List (Pubkey × Option (ProgramAccount Pubkey))) :
    Pubkey → Option (ProgramAccount Pubkey) :=
  writes.foldl (fun f x => Function.update f x.1 x.2) accounts

def Delta.apply (d : Delta Pubkey) (s : World Pubkey) : World Pubkey where
  accounts := writeAll s.accounts d.writes
  tokens := d.tokens.apply s.tokens
  mints := s.mints

@[simp] theorem apply_tokens (d : Delta Pubkey) (s : World Pubkey) :
    (d.apply s).tokens = d.tokens.apply s.tokens := rfl

/-- The instruction passes its checks in `s`, and `d` is what it writes. -/
inductive Plans [Inhabited Pubkey] (rt : Runtime Pubkey) (now : Int64) (s : World Pubkey) :
    Instruction Pubkey → Delta Pubkey → Prop
  | initProtocol {accs : InitProtocol Pubkey} {admin : Pubkey} {bump : UInt8}
      (addr : rt.findProgramAddress .protocolConfig = some (accs.protocolConfig, bump))
      (free : s.Free accs.protocolConfig) (valid : admin ≠ default) :
      Plans rt now s (.initProtocol accs admin) (.single accs.protocolConfig (.protocolConfig
        { admin := admin, version := PROGRAM_VERSION, maxSinglePaymentUsdc := 0, bump := bump }))
  | rotateProtocolAdmin {accs : RotateProtocolAdmin Pubkey} {newAdmin : Pubkey}
      {c : ProtocolConfig Pubkey}
      (config : loadConfigOfAdmin rt accs.protocolConfig accs.admin s = .ok c)
      (valid : newAdmin ≠ default) :
      Plans rt now s (.rotateProtocolAdmin accs newAdmin)
        (.single accs.protocolConfig (.protocolConfig { c with admin := newAdmin }))
  | updateProtocolConfig {accs : UpdateProtocolConfig Pubkey} {cap : UInt64}
      {c : ProtocolConfig Pubkey}
      (config : loadConfigOfAdmin rt accs.protocolConfig accs.admin s = .ok c) :
      Plans rt now s (.updateProtocolConfig accs cap)
        (.single accs.protocolConfig (.protocolConfig { c with maxSinglePaymentUsdc := cap }))
  | registerAgent {accs : RegisterAgent Pubkey} {agentId : Bytes} {bump : UInt8}
      (accounts : accs.tryAccounts rt agentId s = .ok bump)
      (id_length : agentId ≠ [] ∧ agentId.length ≤ MAX_AGENT_ID_LEN)
      (id_bytes : agentId.all isAgentIdByte = true) :
      Plans rt now s (.registerAgent accs agentId)
        ⟨[(accs.agentWallet, some (.agentWallet
            (AgentWallet.registered agentId accs.owner accs.usdcTokenAccount now bump)))],
          .opened accs.usdcTokenAccount
            { mint := accs.usdcMint, owner := accs.agentWallet, amount := 0, isFrozen := false }⟩
  | setSpendPolicy {accs : SetSpendPolicy Pubkey} {params : SetSpendPolicyParams}
      {bump : UInt8} (accounts : accs.tryAccounts rt s = .ok bump)
      (allowed_len : params.allowedDomainHashes.length ≤ MAX_DOMAIN_ENTRIES)
      (blocked_len : params.blockedDomainHashes.length ≤ MAX_DOMAIN_ENTRIES) :
      Plans rt now s (.setSpendPolicy accs params) (.single accs.spendPolicy
        (.spendPolicy (SpendPolicy.ofParams accs.agentWallet now params bump)))
  | settlePayment {accs : SettlePayment Pubkey} {sequence : UInt64}
      {params : SettlePaymentParams Pubkey} {ctx : SettlePayment.Loaded Pubkey}
      {w : AgentWallet Pubkey} {p : SpendPolicy Pubkey} {tokens' : Tokens Pubkey}
      {protocol : PaymentProtocol}
      (validates : accs.Validates rt sequence params.agentId s ctx)
      (passed : Passed now ctx.config ctx.wallet ctx.policy sequence params w p)
      (transfer : cpiTransferFromWallet rt accs.usdcTokenAccount accs.payeeTokenAccount
        accs.agentWallet w.agentId w.bump params.amountUsdc s.tokens = .ok tokens')
      (discriminant : PaymentProtocol.fromDiscriminant params.protocol = some protocol) :
      Plans rt now s (.settlePayment accs sequence params)
        ⟨[(accs.agentWallet, some (.agentWallet (w.accountPayment now params.amountUsdc))),
          (accs.spendPolicy, some (.spendPolicy p)),
          (accs.paymentRecord, some (.paymentRecord (PaymentRecord.settlement accs.agentWallet
            ctx.payee.owner sequence params protocol now ctx.recordBump)))],
          .moved accs.usdcTokenAccount accs.payeeTokenAccount params.amountUsdc⟩
  | recordPolicyViolation {accs : RecordPolicyViolation Pubkey} {sequence : UInt64}
      {params : SettlePaymentParams Pubkey} {reason : UInt8} {w : AgentWallet Pubkey}
      {bump : UInt8} {protocol : PaymentProtocol}
      (validates : accs.Validates rt sequence params.agentId s w bump)
      (sequence_eq : sequence = w.paymentSequence)
      (discriminant : PaymentProtocol.fromDiscriminant params.protocol = some protocol) :
      Plans rt now s (.recordPolicyViolation accs sequence params reason)
        ⟨[(accs.agentWallet, some (.agentWallet w.advance)),
          (accs.paymentRecord, some (.paymentRecord (PaymentRecord.violation accs.agentWallet
            sequence params protocol now bump)))], .unchanged⟩
  | deactivateAgent {accs : ManageAgentStatus Pubkey} {w : AgentWallet Pubkey}
      (wallet : loadWalletOfOwner accs.agentWallet accs.owner s = .ok w) :
      Plans rt now s (.deactivateAgent accs)
        (.single accs.agentWallet (.agentWallet { w with isActive := false }))
  | reactivateAgent {accs : ManageAgentStatus Pubkey} {w : AgentWallet Pubkey}
      (wallet : loadWalletOfOwner accs.agentWallet accs.owner s = .ok w) :
      Plans rt now s (.reactivateAgent accs)
        (.single accs.agentWallet (.agentWallet { w with isActive := true }))
  | freezeAgent {accs : ProtocolManageAgent Pubkey} {w : AgentWallet Pubkey}
      {c : ProtocolConfig Pubkey} (wallet : s.wallet accs.agentWallet = some w)
      (config : loadConfigOfAdmin rt accs.protocolConfig accs.admin s = .ok c) :
      Plans rt now s (.freezeAgent accs)
        (.single accs.agentWallet (.agentWallet { w with isFrozen := true }))
  | unfreezeAgent {accs : ProtocolManageAgent Pubkey} {w : AgentWallet Pubkey}
      {c : ProtocolConfig Pubkey} (wallet : s.wallet accs.agentWallet = some w)
      (config : loadConfigOfAdmin rt accs.protocolConfig accs.admin s = .ok c) :
      Plans rt now s (.unfreezeAgent accs)
        (.single accs.agentWallet (.agentWallet { w with isFrozen := false }))
  | withdrawFunds {accs : WithdrawFunds Pubkey} {amount : UInt64}
      {ctx : WithdrawFunds.Loaded Pubkey} {tokens' : Tokens Pubkey}
      (validates : accs.Validates rt s ctx) (positive : 0 < amount)
      (covered : amount ≤ ctx.source.amount)
      (transfer : cpiTransferFromWallet rt accs.usdcTokenAccount accs.ownerTokenAccount
        accs.agentWallet ctx.wallet.agentId ctx.wallet.bump amount s.tokens = .ok tokens') :
      Plans rt now s (.withdrawFunds accs amount)
        ⟨[], .moved accs.usdcTokenAccount accs.ownerTokenAccount amount⟩
  | withdrawAll {accs : WithdrawFunds Pubkey} {ctx : WithdrawFunds.Loaded Pubkey}
      {tokens' : Tokens Pubkey} (validates : accs.Validates rt s ctx)
      (positive : 0 < ctx.source.amount)
      (transfer : cpiTransferFromWallet rt accs.usdcTokenAccount accs.ownerTokenAccount
        accs.agentWallet ctx.wallet.agentId ctx.wallet.bump ctx.source.amount s.tokens =
        .ok tokens') :
      Plans rt now s (.withdrawAll accs)
        ⟨[], .moved accs.usdcTokenAccount accs.ownerTokenAccount ctx.source.amount⟩
  | transferOwnership {accs : TransferOwnership Pubkey} {newOwner : Pubkey}
      {w : AgentWallet Pubkey}
      (wallet : loadWalletOfOwner accs.agentWallet accs.owner s = .ok w)
      (valid : newOwner ≠ default) (changed : newOwner ≠ w.owner) :
      Plans rt now s (.transferOwnership accs newOwner)
        (.single accs.agentWallet (.agentWallet { w with owner := newOwner }))
  | closeAgent {accs : CloseAgent Pubkey} {w : AgentWallet Pubkey} {p : SpendPolicy Pubkey}
      {t : TokenAccount Pubkey} (wallet : s.wallet accs.agentWallet = some w)
      (policy : s.policy accs.spendPolicy = some p)
      (token : s.tokens accs.usdcTokenAccount = some t) (mint : s.mints accs.usdcMint = true)
      (owner : w.owner = accs.owner) (inactive : w.isActive = false)
      (policy_seeds : checkSeeds rt (.spendPolicy accs.agentWallet) p.bump accs.spendPolicy =
        .ok ())
      (associated : checkAssociated rt accs.usdcTokenAccount t accs.agentWallet accs.usdcMint =
        .ok ())
      (empty : t.amount = 0) :
      Plans rt now s (.closeAgent accs)
        ⟨[(accs.agentWallet, none), (accs.spendPolicy, none)], .unchanged⟩

variable [Inhabited Pubkey] {rt : Runtime Pubkey} {now : Int64} {s s' t : World Pubkey}
variable {i : Instruction Pubkey} {d : Delta Pubkey}

theorem execute_eq_ok {r : Outcome Pubkey} :
    execute rt now i s = .ok r ↔ rt.canSign i.signer = true ∧ handle rt now i s = .ok r := by
  simp only [execute, bind_eq_ok, require_eq_ok, exists_const]

omit [Inhabited Pubkey] in
theorem cpiTransfer_change {source destination authority : Pubkey} {agentId : Bytes}
    {bump : UInt8} {amount : UInt64} {tokens tokens' : Tokens Pubkey}
    (h : cpiTransferFromWallet rt source destination authority agentId bump amount tokens =
      .ok tokens') : tokens' = (TokenChange.moved source destination amount).apply tokens := by
  simp only [cpiTransferFromWallet, bind_eq_ok, require_eq_ok, exists_const] at h
  exact transfer_change h.2

/-- Whatever succeeds had a plan, and left the state with the plan applied. -/
theorem plans_of_handle {ev : Option (Event Pubkey)} (h : handle rt now i s = .ok (s', ev)) :
    ∃ d, Plans rt now s i d ∧ s' = d.apply s := by
  cases i with
  | initProtocol accs admin =>
    simp only [handle, initProtocol, bind_eq_ok, initAccount_eq_ok, require_eq_ok, pure_eq_ok,
      Prod.mk.injEq, exists_const] at h
    obtain ⟨bump, ⟨hf, hfree⟩, hv, rfl, _⟩ := h
    exact ⟨_, .initProtocol hf hfree hv, rfl⟩
  | rotateProtocolAdmin accs newAdmin =>
    simp only [handle, rotateProtocolAdmin, bind_eq_ok, require_eq_ok, pure_eq_ok,
      Prod.mk.injEq, exists_const] at h
    obtain ⟨c, hc, hv, rfl, _⟩ := h
    exact ⟨_, .rotateProtocolAdmin hc hv, rfl⟩
  | updateProtocolConfig accs cap =>
    simp only [handle, updateProtocolConfig, bind_eq_ok, pure_eq_ok, Prod.mk.injEq] at h
    obtain ⟨c, hc, rfl, _⟩ := h
    exact ⟨_, .updateProtocolConfig hc, rfl⟩
  | registerAgent accs agentId =>
    simp only [handle, registerAgent, bind_eq_ok, require_eq_ok, pure_eq_ok, Prod.mk.injEq,
      exists_const] at h
    obtain ⟨bump, hacc, hlen, hbytes, rfl, _⟩ := h
    exact ⟨_, .registerAgent hacc hlen hbytes, rfl⟩
  | setSpendPolicy accs params =>
    simp only [handle, setSpendPolicy, bind_eq_ok, require_eq_ok, pure_eq_ok, Prod.mk.injEq,
      exists_const] at h
    obtain ⟨bump, hacc, ha, hb, rfl, _⟩ := h
    exact ⟨_, .setSpendPolicy hacc ha hb, rfl⟩
  | settlePayment accs sequence params =>
    simp only [handle, settlePayment, bind_eq_ok, settle_tryAccounts_eq_ok,
      settlePaymentChecks_eq_ok, orFail_eq_ok, pure_eq_ok, Prod.mk.injEq, Prod.exists] at h
    obtain ⟨ctx, hv, w, p, hp, tokens, ht, protocol, hd, rfl, _⟩ := h
    refine ⟨_, .settlePayment hv hp ht hd, ?_⟩
    rw [cpiTransfer_change ht]
    rfl
  | recordPolicyViolation accs sequence params reason =>
    simp only [handle, recordPolicyViolation, bind_eq_ok, Prod.exists,
      violation_tryAccounts_eq_ok, orFail_eq_ok, require_eq_ok, pure_eq_ok, Prod.mk.injEq,
      exists_const] at h
    obtain ⟨w, bump, hv, protocol, hd, hseq, rfl, _⟩ := h
    exact ⟨_, .recordPolicyViolation hv hseq hd, rfl⟩
  | deactivateAgent accs =>
    simp only [handle, deactivateAgent, setActive, bind_eq_ok, pure_eq_ok, Prod.mk.injEq] at h
    obtain ⟨w, hw, rfl, _⟩ := h
    exact ⟨_, .deactivateAgent hw, rfl⟩
  | reactivateAgent accs =>
    simp only [handle, reactivateAgent, setActive, bind_eq_ok, pure_eq_ok, Prod.mk.injEq] at h
    obtain ⟨w, hw, rfl, _⟩ := h
    exact ⟨_, .reactivateAgent hw, rfl⟩
  | freezeAgent accs =>
    simp only [handle, freezeAgent, setFrozen, bind_eq_ok, load_wallet, pure_eq_ok,
      Prod.mk.injEq] at h
    obtain ⟨w, hw, c, hc, rfl, _⟩ := h
    exact ⟨_, .freezeAgent hw hc, rfl⟩
  | unfreezeAgent accs =>
    simp only [handle, unfreezeAgent, setFrozen, bind_eq_ok, load_wallet, pure_eq_ok,
      Prod.mk.injEq] at h
    obtain ⟨w, hw, c, hc, rfl, _⟩ := h
    exact ⟨_, .unfreezeAgent hw hc, rfl⟩
  | withdrawFunds accs amount =>
    simp only [handle, withdrawFunds, withdrawAmount, bind_eq_ok, withdraw_tryAccounts_eq_ok,
      require_eq_ok, pure_eq_ok, Prod.mk.injEq, exists_const] at h
    obtain ⟨ctx, hv, hpos, hle, tokens, ht, rfl, _⟩ := h
    refine ⟨_, .withdrawFunds hv hpos hle ht, ?_⟩
    rw [cpiTransfer_change ht]
    rfl
  | withdrawAll accs =>
    simp only [handle, withdrawAll, withdrawAmount, bind_eq_ok, withdraw_tryAccounts_eq_ok,
      require_eq_ok, pure_eq_ok, Prod.mk.injEq, exists_const] at h
    obtain ⟨ctx, hv, hpos, tokens, ht, rfl, _⟩ := h
    refine ⟨_, .withdrawAll hv hpos ht, ?_⟩
    rw [cpiTransfer_change ht]
    rfl
  | transferOwnership accs newOwner =>
    simp only [handle, transferOwnership, bind_eq_ok, require_eq_ok, pure_eq_ok, Prod.mk.injEq,
      exists_const] at h
    obtain ⟨w, hw, hv, hne, rfl, _⟩ := h
    exact ⟨_, .transferOwnership hw hv hne, rfl⟩
  | closeAgent accs =>
    simp only [handle, closeAgent, bind_eq_ok, load_wallet, load_policy, loadToken_eq_ok,
      loadMint_eq_ok, require_eq_ok, pure_eq_ok, Prod.mk.injEq, exists_and_left,
      exists_const] at h
    obtain ⟨w, hw, p, hp, t, ht, hm, ho, hi, _, hs, _, ha, he, rfl, _⟩ := h
    exact ⟨_, .closeAgent hw hp ht hm ho hi hs ha he, rfl⟩

/-- Whatever has a plan succeeds. -/
theorem handle_of_plans (h : Plans rt now s i d) :
    ∃ ev, handle rt now i s = .ok (d.apply s, ev) := by
  cases h with
  | initProtocol addr free valid =>
    apply Exists.intro
    simp only [handle, initProtocol, bind_eq_ok, initAccount_eq_ok, require_eq_ok, exists_const]
    exact ⟨_, ⟨addr, free⟩, valid, rfl⟩
  | rotateProtocolAdmin config valid =>
    apply Exists.intro
    simp only [handle, rotateProtocolAdmin, bind_eq_ok, require_eq_ok, exists_const]
    exact ⟨_, config, valid, rfl⟩
  | updateProtocolConfig config =>
    apply Exists.intro
    simp only [handle, updateProtocolConfig, bind_eq_ok]
    exact ⟨_, config, rfl⟩
  | registerAgent accounts id_length id_bytes =>
    apply Exists.intro
    simp only [handle, registerAgent, bind_eq_ok, require_eq_ok, exists_const]
    exact ⟨_, accounts, id_length, id_bytes, rfl⟩
  | setSpendPolicy accounts allowed_len blocked_len =>
    apply Exists.intro
    simp only [handle, setSpendPolicy, bind_eq_ok, require_eq_ok, exists_const]
    exact ⟨_, accounts, allowed_len, blocked_len, rfl⟩
  | settlePayment validates passed transfer discriminant =>
    apply Exists.intro
    simp only [handle, settlePayment, bind_eq_ok, settle_tryAccounts_eq_ok,
      settlePaymentChecks_eq_ok, orFail_eq_ok, Prod.exists]
    refine ⟨_, validates, _, _, passed, _, transfer, _, discriminant, ?_⟩
    rw [cpiTransfer_change transfer]
    rfl
  | recordPolicyViolation validates sequence_eq discriminant =>
    apply Exists.intro
    simp only [handle, recordPolicyViolation, bind_eq_ok, Prod.exists,
      violation_tryAccounts_eq_ok, orFail_eq_ok, require_eq_ok, exists_const]
    exact ⟨_, _, validates, _, discriminant, sequence_eq, rfl⟩
  | deactivateAgent wallet =>
    apply Exists.intro
    simp only [handle, deactivateAgent, setActive, bind_eq_ok]
    exact ⟨_, wallet, rfl⟩
  | reactivateAgent wallet =>
    apply Exists.intro
    simp only [handle, reactivateAgent, setActive, bind_eq_ok]
    exact ⟨_, wallet, rfl⟩
  | freezeAgent wallet config =>
    apply Exists.intro
    simp only [handle, freezeAgent, setFrozen, bind_eq_ok, load_wallet]
    exact ⟨_, wallet, _, config, rfl⟩
  | unfreezeAgent wallet config =>
    apply Exists.intro
    simp only [handle, unfreezeAgent, setFrozen, bind_eq_ok, load_wallet]
    exact ⟨_, wallet, _, config, rfl⟩
  | withdrawFunds validates positive covered transfer =>
    apply Exists.intro
    simp only [handle, withdrawFunds, withdrawAmount, bind_eq_ok, withdraw_tryAccounts_eq_ok,
      require_eq_ok, exists_const]
    refine ⟨_, validates, positive, covered, _, transfer, ?_⟩
    rw [cpiTransfer_change transfer]
    rfl
  | withdrawAll validates positive transfer =>
    apply Exists.intro
    simp only [handle, withdrawAll, withdrawAmount, bind_eq_ok, withdraw_tryAccounts_eq_ok,
      require_eq_ok, exists_const]
    refine ⟨_, validates, positive, _, transfer, ?_⟩
    rw [cpiTransfer_change transfer]
    rfl
  | transferOwnership wallet valid changed =>
    apply Exists.intro
    simp only [handle, transferOwnership, bind_eq_ok, require_eq_ok, exists_const]
    exact ⟨_, wallet, valid, changed, rfl⟩
  | closeAgent wallet policy token mint owner inactive policy_seeds associated empty =>
    apply Exists.intro
    simp only [handle, closeAgent, bind_eq_ok, load_wallet, load_policy, loadToken_eq_ok,
      loadMint_eq_ok, require_eq_ok, exists_and_left, exists_const]
    exact ⟨_, wallet, _, policy, _, token, mint, owner, inactive, (), policy_seeds, (),
      associated, empty, rfl⟩

/-- **An instruction succeeds exactly when it is signed and has a plan**, and it then
leaves the state with the plan applied. -/
theorem execute_iff_plans :
    (∃ ev, execute rt now i s = .ok (s', ev)) ↔
      rt.canSign i.signer = true ∧ ∃ d, Plans rt now s i d ∧ s' = d.apply s := by
  constructor
  · rintro ⟨ev, h⟩
    obtain ⟨hsign, h⟩ := execute_eq_ok.mp h
    exact ⟨hsign, plans_of_handle h⟩
  · rintro ⟨hsign, d, h, rfl⟩
    obtain ⟨ev, h⟩ := handle_of_plans h
    exact ⟨ev, execute_eq_ok.mpr ⟨hsign, h⟩⟩

/-- A submission succeeds exactly when it is signed and has a plan. -/
theorem succeeds_iff {x : Submission Pubkey} :
    succeeds rt s x = true ↔ rt.canSign x.2.signer = true ∧ ∃ d, Plans rt x.1 s x.2 d := by
  have hok : succeeds rt s x = true ↔ ∃ s' ev, execute rt x.1 x.2 s = .ok (s', ev) := by
    unfold succeeds
    cases h : execute rt x.1 x.2 s with
    | error e => simp
    | ok r => simp only [Except.ok.injEq, true_iff]; exact ⟨r.1, r.2, rfl⟩
  rw [hok]
  constructor
  · rintro ⟨s', h⟩
    obtain ⟨hsign, d, hd, _⟩ := execute_iff_plans.mp h
    exact ⟨hsign, d, hd⟩
  · rintro ⟨hsign, d, hd⟩
    exact ⟨d.apply s, execute_iff_plans.mpr ⟨hsign, d, hd, rfl⟩⟩

theorem submit_of_plans {x : Submission Pubkey} (hsign : rt.canSign x.2.signer = true)
    (h : Plans rt x.1 s x.2 d) : submit rt s x = d.apply s := by
  obtain ⟨ev, h⟩ := execute_iff_plans.mpr ⟨hsign, d, h, rfl⟩
  rw [submit, h]

theorem submit_of_fails {x : Submission Pubkey} (h : succeeds rt s x = false) :
    submit rt s x = s := by
  unfold succeeds at h
  unfold submit
  cases hx : execute rt x.1 x.2 s with
  | error e => rfl
  | ok r =>
    rw [hx] at h
    cases h

/-! ## 3. Related states -/

variable {f : Pubkey → Option (ProgramAccount Pubkey) → Option (ProgramAccount Pubkey)}

/-- The same writes with every account changed by `f`. -/
def Delta.map (f : Pubkey → Option (ProgramAccount Pubkey) → Option (ProgramAccount Pubkey))
    (d : Delta Pubkey) : Delta Pubkey :=
  ⟨d.writes.map fun x => (x.1, f x.1 x.2), d.tokens⟩

omit [DecidableEq Pubkey] [Inhabited Pubkey] in
@[simp] theorem map_tokens (d : Delta Pubkey) : (d.map f).tokens = d.tokens := rfl

omit [Inhabited Pubkey] in
/-- Where the accounts of one state are those of another changed by `f`, they stay so
when the same writes, changed by `f`, are made. -/
theorem apply_agrees {P : Pubkey → Prop} (h : ∀ k, P k → t.accounts k = f k (s.accounts k))
    (d : Delta Pubkey) :
    ∀ k, P k → ((d.map f).apply t).accounts k = f k ((d.apply s).accounts k) := by
  obtain ⟨writes, tokens⟩ := d
  show ∀ k, P k → writeAll t.accounts (writes.map _) k = f k (writeAll s.accounts writes k)
  generalize t.accounts = v at h
  generalize s.accounts = u at h
  induction writes generalizing u v with
  | nil => exact h
  | cons x writes ih =>
    refine ih (Function.update v x.1 (f x.1 x.2)) (Function.update u x.1 x.2) fun k hk => ?_
    by_cases he : k = x.1
    · subst he
      simp
    · simp only [Function.update_of_ne he]
      exact h k hk

end MaximProtocol
