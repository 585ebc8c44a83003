import MaximProtocol.Wire
import MaximProtocol.Independence
import MaximProtocol.Library.Footprint

/-!
# Account contexts

The accounts that an instruction names in the fields of its context, and that its handler
keeps to them.

1. the fields of each context, and the accounts of an instruction;
2. `handle_local`: a handler reads nothing but the accounts of its context;
3. `plans_writable`: it writes nothing but those that are `mut` or `init` there.
-/

namespace MaximProtocol

open MachineInt World Interleaving

variable {Pubkey : Type}

/-! ## 1. Contexts -/

/-- The addresses that `Program` and `Sysvar` fields ask for. -/
structure Programs (Pubkey : Type) where
  token : Pubkey
  associatedToken : Pubkey
  system : Pubkey
  rent : Pubkey

/-- One field of an account context. `writable` where it is `mut` or `init`. -/
inductive Role (Pubkey : Type) where
  | account (writable : Bool)
  | signer (writable : Bool)
  | fixed (k : Pubkey)

/-- The fields of each method's context, in the order of the declaration. -/
def Method.roles (ps : Programs Pubkey) : Method → List (Role Pubkey)
  | .initProtocol => [.account true, .signer true, .fixed ps.system]
  | .rotateProtocolAdmin => [.account true, .signer false]
  | .updateProtocolConfig => [.account true, .signer false]
  | .registerAgent => [.account true, .account true, .account false, .signer true,
      .fixed ps.token, .fixed ps.associatedToken, .fixed ps.system, .fixed ps.rent]
  | .setSpendPolicy => [.account true, .account false, .signer true, .fixed ps.system]
  | .settlePayment => [.account true, .account true, .account true, .account true,
      .account true, .account false, .signer true, .account false, .fixed ps.token,
      .fixed ps.system]
  | .recordPolicyViolation => [.account true, .account true, .signer true, .fixed ps.system]
  | .deactivateAgent => [.account true, .signer false]
  | .reactivateAgent => [.account true, .signer false]
  | .freezeAgent => [.account true, .account false, .signer false]
  | .unfreezeAgent => [.account true, .account false, .signer false]
  | .withdrawFunds => [.account false, .account true, .account true, .account false,
      .signer false, .fixed ps.token, .fixed ps.associatedToken]
  | .transferOwnership => [.account true, .signer false]
  | .closeAgent => [.account true, .account true, .account false, .account false,
      .signer true, .fixed ps.token, .fixed ps.associatedToken, .fixed ps.system]
  | .withdrawAll => [.account false, .account true, .account true, .account false,
      .signer false, .fixed ps.token, .fixed ps.associatedToken]

namespace Instruction

/-- The method and the arguments of an instruction. -/
def call : Instruction Pubkey → Call Pubkey
  | .initProtocol _ admin => .initProtocol admin
  | .rotateProtocolAdmin _ newAdmin => .rotateProtocolAdmin newAdmin
  | .updateProtocolConfig _ cap => .updateProtocolConfig cap
  | .registerAgent _ agentId => .registerAgent agentId
  | .setSpendPolicy _ params => .setSpendPolicy params
  | .settlePayment _ sequence params => .settlePayment sequence params
  | .recordPolicyViolation _ sequence params reason =>
      .recordPolicyViolation sequence params reason
  | .deactivateAgent _ => .deactivateAgent
  | .reactivateAgent _ => .reactivateAgent
  | .freezeAgent _ => .freezeAgent
  | .unfreezeAgent _ => .unfreezeAgent
  | .withdrawFunds _ amount => .withdrawFunds amount
  | .withdrawAll _ => .withdrawAll
  | .transferOwnership _ newOwner => .transferOwnership newOwner
  | .closeAgent _ => .closeAgent

/-- Its accounts, in the order of the context. -/
def keys : Instruction Pubkey → List Pubkey
  | .initProtocol a _ => [a.protocolConfig, a.payer]
  | .rotateProtocolAdmin a _ => [a.protocolConfig, a.admin]
  | .updateProtocolConfig a _ => [a.protocolConfig, a.admin]
  | .registerAgent a _ => [a.agentWallet, a.usdcTokenAccount, a.usdcMint, a.owner]
  | .setSpendPolicy a _ => [a.spendPolicy, a.agentWallet, a.owner]
  | .settlePayment a _ _ => [a.paymentRecord, a.agentWallet, a.spendPolicy, a.usdcTokenAccount,
      a.payeeTokenAccount, a.usdcMint, a.owner, a.protocolConfig]
  | .recordPolicyViolation a _ _ _ => [a.paymentRecord, a.agentWallet, a.owner]
  | .deactivateAgent a => [a.agentWallet, a.owner]
  | .reactivateAgent a => [a.agentWallet, a.owner]
  | .freezeAgent a => [a.agentWallet, a.protocolConfig, a.admin]
  | .unfreezeAgent a => [a.agentWallet, a.protocolConfig, a.admin]
  | .withdrawFunds a _ =>
      [a.agentWallet, a.usdcTokenAccount, a.ownerTokenAccount, a.usdcMint, a.owner]
  | .withdrawAll a =>
      [a.agentWallet, a.usdcTokenAccount, a.ownerTokenAccount, a.usdcMint, a.owner]
  | .transferOwnership a _ => [a.agentWallet, a.owner]
  | .closeAgent a => [a.agentWallet, a.spendPolicy, a.usdcTokenAccount, a.usdcMint, a.owner]

end Instruction

/-- What is at an address. -/
def World.held (s : World Pubkey) (k : Pubkey) :
    Option (ProgramAccount Pubkey) × Option (TokenAccount Pubkey) × Bool :=
  (s.accounts k, s.tokens k, s.mints k)

theorem held_eq {s t : World Pubkey} {k : Pubkey} : s.held k = t.held k ↔
    s.accounts k = t.accounts k ∧ s.tokens k = t.tokens k ∧ s.mints k = t.mints k := by
  simp only [World.held, Prod.mk.injEq]

theorem held_injective : Function.Injective (@World.held Pubkey) := by
  intro s t h
  obtain ⟨accounts, tokens, mints⟩ := s
  have hat : ∀ k, accounts k = t.accounts k ∧ tokens k = t.tokens k ∧ mints k = t.mints k :=
    fun k => held_eq.mp (congrFun h k)
  obtain rfl : accounts = t.accounts := funext fun k => (hat k).1
  obtain rfl : tokens = t.tokens := funext fun k => (hat k).2.1
  obtain rfl : mints = t.mints := funext fun k => (hat k).2.2
  rfl

/-! ## 2. What a handler reads -/

section Reads

variable {s t : World Pubkey} {k k' : Pubkey}

theorem load_local {α : Type} {kind? : ProgramAccount Pubkey → Option α}
    (h : s.held k = t.held k) : s.load k kind? = t.load k kind? := by
  rw [World.load, World.load, (held_eq.mp h).1]

theorem loadToken_local (h : s.held k = t.held k) : loadToken k s = loadToken k t := by
  rw [loadToken, loadToken, (held_eq.mp h).2.1]

theorem loadMint_local (h : s.held k = t.held k) : loadMint k s = loadMint k t := by
  unfold loadMint
  rw [(held_eq.mp h).2.2]

variable [DecidableEq Pubkey] {rt : Runtime Pubkey}

theorem initAccount_local {seeds : Seeds Pubkey} (h : s.held k = t.held k) :
    initAccount rt seeds k s = initAccount rt seeds k t := by
  have hfree : s.Free k ↔ t.Free k := same_free (held_eq.mp h).1
  simp only [initAccount, hfree]

theorem loadWalletOfOwner_local {owner : Pubkey} (h : s.held k = t.held k) :
    loadWalletOfOwner k owner s = loadWalletOfOwner k owner t := by
  rw [loadWalletOfOwner, load_local h, ← loadWalletOfOwner]

theorem loadConfigOfAdmin_local {admin : Pubkey} (h : s.held k = t.held k) :
    loadConfigOfAdmin rt k admin s = loadConfigOfAdmin rt k admin t := by
  rw [loadConfigOfAdmin, load_local h, ← loadConfigOfAdmin]

/-- What is left of `s` and of `t` differs only where they did. -/
structure SameOutcome (s t : World Pubkey) (r r' : Outcome Pubkey) : Prop where
  held : ∀ k, s.held k = t.held k → r.1.held k = r'.1.held k
  event : r.2 = r'.2

theorem held_write (h : s.held k = t.held k) (k' : Pubkey)
    (a : Option (ProgramAccount Pubkey)) : (s.write k' a).held k = (t.write k' a).held k := by
  obtain ⟨haccounts, hrest⟩ := held_eq.mp h
  refine held_eq.mpr ⟨?_, hrest⟩
  by_cases hk : k = k'
  · subst hk
    simp [write]
  · simp [write, Function.update_of_ne hk, haccounts]

omit [DecidableEq Pubkey] in
theorem held_tokens (h : s.held k = t.held k) {a b : Tokens Pubkey} (hab : a k = b k) :
    ({ s with tokens := a } : World Pubkey).held k =
      ({ t with tokens := b } : World Pubkey).held k :=
  held_eq.mpr ⟨(held_eq.mp h).1, hab, (held_eq.mp h).2.2⟩

theorem write_outcome (s t : World Pubkey) (k : Pubkey) (a : Option (ProgramAccount Pubkey))
    (ev : Option (Event Pubkey)) : SameOutcome s t (s.write k a, ev) (t.write k a, ev) :=
  ⟨fun _ h => held_write h k a, rfl⟩

/-- A transfer reads its two accounts, and treats every other account alike. -/
theorem tokenTransfer_local {source destination authority : Pubkey} {amount : UInt64}
    {a b : Tokens Pubkey} (hs : a source = b source) (hd : a destination = b destination) :
    Paired (ε := ProgramError) (fun a' b' : Tokens Pubkey => ∀ k, a k = b k → a' k = b' k)
      (tokenTransfer source destination authority amount a)
      (tokenTransfer source destination authority amount b) := by
  unfold tokenTransfer
  rw [hs, hd]
  refine paired_after _ fun src => paired_after _ fun dst => paired_after _ fun _ =>
    paired_after _ fun _ => paired_after _ fun _ => paired_after _ fun _ => ?_
  split
  · exact paired_pure fun k hk => hk
  · refine paired_after _ fun _ => paired_pure fun k hk => ?_
    by_cases hkd : k = destination
    · subst hkd
      simp
    · by_cases hks : k = source
      · subst hks
        simp [Function.update_of_ne hkd]
      · simp [Function.update_of_ne hkd, Function.update_of_ne hks, hk]

theorem cpiTransfer_local {source destination authority : Pubkey} {agentId : Bytes}
    {bump : UInt8} {amount : UInt64} {a b : Tokens Pubkey} (hs : a source = b source)
    (hd : a destination = b destination) :
    Paired (fun a' b' : Tokens Pubkey => ∀ k, a k = b k → a' k = b' k)
      (cpiTransferFromWallet rt source destination authority agentId bump amount a)
      (cpiTransferFromWallet rt source destination authority agentId bump amount b) :=
  paired_after _ fun _ => tokenTransfer_local hs hd

/-! ### The contexts -/

theorem register_local {accs : RegisterAgent Pubkey} {agentId : Bytes}
    (hwallet : s.held accs.agentWallet = t.held accs.agentWallet)
    (htoken : s.held accs.usdcTokenAccount = t.held accs.usdcTokenAccount)
    (hmint : s.held accs.usdcMint = t.held accs.usdcMint) :
    accs.tryAccounts rt agentId s = accs.tryAccounts rt agentId t := by
  rw [RegisterAgent.tryAccounts, loadMint_local hmint, initAccount_local hwallet,
    (held_eq.mp htoken).2.1, ← RegisterAgent.tryAccounts]

theorem setSpendPolicy_local {accs : SetSpendPolicy Pubkey}
    (hpolicy : s.held accs.spendPolicy = t.held accs.spendPolicy)
    (hwallet : s.held accs.agentWallet = t.held accs.agentWallet) :
    accs.tryAccounts rt s = accs.tryAccounts rt t := by
  have haccounts := (held_eq.mp hpolicy).1
  simp only [SetSpendPolicy.tryAccounts, load_local hwallet, same_free haccounts,
    same_policy haccounts]

theorem settle_local {accs : SettlePayment Pubkey} {sequence : UInt64} {agentId : Bytes}
    (hrecord : s.held accs.paymentRecord = t.held accs.paymentRecord)
    (hwallet : s.held accs.agentWallet = t.held accs.agentWallet)
    (hpolicy : s.held accs.spendPolicy = t.held accs.spendPolicy)
    (hsource : s.held accs.usdcTokenAccount = t.held accs.usdcTokenAccount)
    (hpayee : s.held accs.payeeTokenAccount = t.held accs.payeeTokenAccount)
    (hmint : s.held accs.usdcMint = t.held accs.usdcMint)
    (hconfig : s.held accs.protocolConfig = t.held accs.protocolConfig) :
    accs.tryAccounts rt sequence agentId s = accs.tryAccounts rt sequence agentId t := by
  rw [SettlePayment.tryAccounts, load_local hwallet, load_local hpolicy, loadToken_local hsource,
    loadToken_local hpayee, loadMint_local hmint, load_local hconfig,
    initAccount_local hrecord, ← SettlePayment.tryAccounts]

theorem violation_local {accs : RecordPolicyViolation Pubkey} {sequence : UInt64}
    {agentId : Bytes} (hrecord : s.held accs.paymentRecord = t.held accs.paymentRecord)
    (hwallet : s.held accs.agentWallet = t.held accs.agentWallet) :
    accs.tryAccounts rt sequence agentId s = accs.tryAccounts rt sequence agentId t := by
  rw [RecordPolicyViolation.tryAccounts, load_local hwallet, initAccount_local hrecord,
    ← RecordPolicyViolation.tryAccounts]

theorem withdraw_local {accs : WithdrawFunds Pubkey}
    (hwallet : s.held accs.agentWallet = t.held accs.agentWallet)
    (hsource : s.held accs.usdcTokenAccount = t.held accs.usdcTokenAccount)
    (hdestination : s.held accs.ownerTokenAccount = t.held accs.ownerTokenAccount)
    (hmint : s.held accs.usdcMint = t.held accs.usdcMint) :
    accs.tryAccounts rt s = accs.tryAccounts rt t := by
  rw [WithdrawFunds.tryAccounts, load_local hwallet, loadToken_local hsource,
    loadToken_local hdestination, loadMint_local hmint, ← WithdrawFunds.tryAccounts]

/-! ### The handlers -/

variable {now : Int64}

theorem setActive_local {accs : ManageAgentStatus Pubkey} {isActive : Bool}
    (hwallet : s.held accs.agentWallet = t.held accs.agentWallet) :
    Paired (SameOutcome s t) (setActive now accs isActive s) (setActive now accs isActive t) := by
  rw [setActive, loadWalletOfOwner_local hwallet]
  exact paired_after _ fun w => paired_pure (write_outcome s t _ _ _)

theorem setFrozen_local {accs : ProtocolManageAgent Pubkey} {isFrozen : Bool}
    (hwallet : s.held accs.agentWallet = t.held accs.agentWallet)
    (hconfig : s.held accs.protocolConfig = t.held accs.protocolConfig) :
    Paired (SameOutcome s t) (setFrozen rt now accs isFrozen s)
      (setFrozen rt now accs isFrozen t) := by
  rw [setFrozen, load_local hwallet, loadConfigOfAdmin_local hconfig]
  exact paired_after _ fun w => paired_after _ fun _ => paired_pure (write_outcome s t _ _ _)

theorem withdrawAmount_local {accs : WithdrawFunds Pubkey} {ctx : WithdrawFunds.Loaded Pubkey}
    {amount : UInt64} (hsource : s.held accs.usdcTokenAccount = t.held accs.usdcTokenAccount)
    (hdestination : s.held accs.ownerTokenAccount = t.held accs.ownerTokenAccount) :
    Paired (SameOutcome s t) (withdrawAmount rt now accs ctx amount s)
      (withdrawAmount rt now accs ctx amount t) :=
  paired_bind (cpiTransfer_local (held_eq.mp hsource).2.1 (held_eq.mp hdestination).2.1)
    fun _ _ hab => paired_pure ⟨fun k hk => held_tokens hk (hab k (held_eq.mp hk).2.1), rfl⟩

theorem registerAgent_local {accs : RegisterAgent Pubkey} {agentId : Bytes}
    (h : ∀ k ∈ (Instruction.registerAgent accs agentId).keys, s.held k = t.held k) :
    Paired (SameOutcome s t) (registerAgent rt now accs agentId s)
      (registerAgent rt now accs agentId t) := by
  simp only [Instruction.keys, List.forall_mem_cons] at h
  obtain ⟨hwallet, htoken, hmint, _⟩ := h
  rw [registerAgent, register_local hwallet htoken hmint]
  refine paired_after _ fun bump => paired_after _ fun _ => paired_after _ fun _ =>
    paired_pure ⟨fun k hk => held_tokens (held_write hk _ _) ?_, rfl⟩
  by_cases he : k = accs.usdcTokenAccount
  · subst he
    simp
  · simp [Function.update_of_ne he, (held_eq.mp hk).2.1]

theorem settlePayment_local {accs : SettlePayment Pubkey} {sequence : UInt64}
    {params : SettlePaymentParams Pubkey}
    (h : ∀ k ∈ (Instruction.settlePayment accs sequence params).keys, s.held k = t.held k) :
    Paired (SameOutcome s t) (settlePayment rt now accs sequence params s)
      (settlePayment rt now accs sequence params t) := by
  simp only [Instruction.keys, List.forall_mem_cons] at h
  obtain ⟨hrecord, hwallet, hpolicy, hsource, hpayee, hmint, _, hconfig, _⟩ := h
  rw [settlePayment, settle_local hrecord hwallet hpolicy hsource hpayee hmint hconfig]
  refine paired_after _ fun ctx => paired_after _ fun wp =>
    paired_bind (cpiTransfer_local (held_eq.mp hsource).2.1 (held_eq.mp hpayee).2.1)
      fun a b hab => paired_after _ fun protocol => paired_pure ⟨fun k hk => ?_, rfl⟩
  exact held_tokens (held_write (held_write (held_write hk _ _) _ _) _ _)
    (hab k (held_eq.mp hk).2.1)

theorem recordPolicyViolation_local [Inhabited Pubkey] {accs : RecordPolicyViolation Pubkey}
    {sequence : UInt64} {params : SettlePaymentParams Pubkey} {reason : UInt8}
    (h : ∀ k ∈ (Instruction.recordPolicyViolation accs sequence params reason).keys,
      s.held k = t.held k) :
    Paired (SameOutcome s t) (recordPolicyViolation rt now accs sequence params reason s)
      (recordPolicyViolation rt now accs sequence params reason t) := by
  simp only [Instruction.keys, List.forall_mem_cons] at h
  obtain ⟨hrecord, hwallet, _⟩ := h
  rw [recordPolicyViolation, violation_local hrecord hwallet]
  exact paired_after _ fun wb => paired_after _ fun protocol => paired_after _ fun _ =>
    paired_pure ⟨fun k hk => held_write (held_write hk _ _) _ _, rfl⟩

theorem closeAgent_local {accs : CloseAgent Pubkey}
    (h : ∀ k ∈ (Instruction.closeAgent accs).keys, s.held k = t.held k) :
    Paired (SameOutcome s t) (closeAgent rt accs s) (closeAgent rt accs t) := by
  simp only [Instruction.keys, List.forall_mem_cons] at h
  obtain ⟨hwallet, hpolicy, htoken, hmint, _⟩ := h
  rw [closeAgent, load_local hwallet, load_local hpolicy, loadToken_local htoken,
    loadMint_local hmint]
  exact paired_after _ fun w => paired_after _ fun p => paired_after _ fun token =>
    paired_after _ fun _ => paired_after _ fun _ => paired_after _ fun _ =>
    paired_after _ fun _ => paired_after _ fun _ => paired_after _ fun _ =>
    paired_pure ⟨fun k hk => held_write (held_write hk _ _) _ _, rfl⟩

/-- **A handler reads only the accounts of its context.** -/
theorem handle_local [Inhabited Pubkey] {i : Instruction Pubkey}
    (h : ∀ k ∈ i.keys, s.held k = t.held k) :
    Paired (SameOutcome s t) (handle rt now i s) (handle rt now i t) := by
  cases i with
  | initProtocol accs admin =>
    simp only [Instruction.keys, List.forall_mem_cons] at h
    show Paired _ (initProtocol rt accs admin s) (initProtocol rt accs admin t)
    rw [initProtocol, initAccount_local h.1]
    exact paired_after _ fun bump => paired_after _ fun _ =>
      paired_pure (write_outcome s t _ _ _)
  | rotateProtocolAdmin accs newAdmin =>
    simp only [Instruction.keys, List.forall_mem_cons] at h
    show Paired _ (rotateProtocolAdmin rt accs newAdmin s) (rotateProtocolAdmin rt accs newAdmin t)
    rw [rotateProtocolAdmin, loadConfigOfAdmin_local h.1]
    exact paired_after _ fun c => paired_after _ fun _ => paired_pure (write_outcome s t _ _ _)
  | updateProtocolConfig accs cap =>
    simp only [Instruction.keys, List.forall_mem_cons] at h
    show Paired _ (updateProtocolConfig rt accs cap s) (updateProtocolConfig rt accs cap t)
    rw [updateProtocolConfig, loadConfigOfAdmin_local h.1]
    exact paired_after _ fun c => paired_pure (write_outcome s t _ _ _)
  | registerAgent accs agentId => exact registerAgent_local h
  | setSpendPolicy accs params =>
    simp only [Instruction.keys, List.forall_mem_cons] at h
    obtain ⟨hpolicy, hwallet, _⟩ := h
    show Paired _ (setSpendPolicy rt now accs params s) (setSpendPolicy rt now accs params t)
    rw [setSpendPolicy, setSpendPolicy_local hpolicy hwallet]
    exact paired_after _ fun bump => paired_after _ fun _ => paired_after _ fun _ =>
      paired_pure (write_outcome s t _ _ _)
  | settlePayment accs sequence params => exact settlePayment_local h
  | recordPolicyViolation accs sequence params reason => exact recordPolicyViolation_local h
  | deactivateAgent accs =>
    simp only [Instruction.keys, List.forall_mem_cons] at h
    exact setActive_local h.1
  | reactivateAgent accs =>
    simp only [Instruction.keys, List.forall_mem_cons] at h
    exact setActive_local h.1
  | freezeAgent accs =>
    simp only [Instruction.keys, List.forall_mem_cons] at h
    exact setFrozen_local h.1 h.2.1
  | unfreezeAgent accs =>
    simp only [Instruction.keys, List.forall_mem_cons] at h
    exact setFrozen_local h.1 h.2.1
  | withdrawFunds accs amount =>
    simp only [Instruction.keys, List.forall_mem_cons] at h
    obtain ⟨hwallet, hsource, hdestination, hmint, _⟩ := h
    show Paired _ (withdrawFunds rt now accs amount s) (withdrawFunds rt now accs amount t)
    rw [withdrawFunds, withdraw_local hwallet hsource hdestination hmint]
    exact paired_after _ fun ctx => paired_after _ fun _ => paired_after _ fun _ =>
      withdrawAmount_local hsource hdestination
  | withdrawAll accs =>
    simp only [Instruction.keys, List.forall_mem_cons] at h
    obtain ⟨hwallet, hsource, hdestination, hmint, _⟩ := h
    show Paired _ (withdrawAll rt now accs s) (withdrawAll rt now accs t)
    rw [withdrawAll, withdraw_local hwallet hsource hdestination hmint]
    exact paired_after _ fun ctx => paired_after _ fun _ =>
      withdrawAmount_local hsource hdestination
  | transferOwnership accs newOwner =>
    simp only [Instruction.keys, List.forall_mem_cons] at h
    show Paired _ (transferOwnership now accs newOwner s) (transferOwnership now accs newOwner t)
    rw [transferOwnership, loadWalletOfOwner_local h.1]
    exact paired_after _ fun w => paired_after _ fun _ => paired_after _ fun _ =>
      paired_pure (write_outcome s t _ _ _)
  | closeAgent accs => exact closeAgent_local h

theorem execute_local [Inhabited Pubkey] {i : Instruction Pubkey}
    (h : ∀ k ∈ i.keys, s.held k = t.held k) :
    Paired (SameOutcome s t) (execute rt now i s) (execute rt now i t) :=
  paired_after _ fun _ => handle_local h

end Reads

/-! ## 3. What a handler writes -/

/-- The keys in the `mut` and `init` fields of a context whose accounts are `keys`. -/
def writableKeys : List (Role Pubkey) → List Pubkey → List Pubkey
  | .fixed _ :: roles, keys => writableKeys roles keys
  | .account writable :: roles, k :: keys =>
      if writable then k :: writableKeys roles keys else writableKeys roles keys
  | .signer writable :: roles, k :: keys =>
      if writable then k :: writableKeys roles keys else writableKeys roles keys
  | _, _ => []

def Instruction.writable (ps : Programs Pubkey) (i : Instruction Pubkey) : List Pubkey :=
  writableKeys (i.call.method.roles ps) i.keys

theorem writableKeys_subset (roles : List (Role Pubkey)) (keys : List Pubkey) :
    writableKeys roles keys ⊆ keys := by
  induction roles generalizing keys with
  | nil => cases keys <;> exact List.nil_subset _
  | cons r roles ih =>
    have hfield : ∀ (writable : Bool) (k : Pubkey) (keys : List Pubkey),
        (if writable then k :: writableKeys roles keys else writableKeys roles keys) ⊆
          k :: keys := by
      intro writable k keys
      cases writable with
      | false => exact List.subset_cons_of_subset _ (ih keys)
      | true => exact List.cons_subset_cons _ (ih keys)
    cases r with
    | fixed k => exact ih keys
    | account writable =>
      cases keys with
      | nil => exact List.nil_subset _
      | cons k keys => exact hfield writable k keys
    | signer writable =>
      cases keys with
      | nil => exact List.nil_subset _
      | cons k keys => exact hfield writable k keys

section Writes

variable [DecidableEq Pubkey] [Inhabited Pubkey] {rt : Runtime Pubkey} {ps : Programs Pubkey}
variable {s s' : World Pubkey} {now : Int64} {i : Instruction Pubkey} {d : Delta Pubkey}
variable {k : Pubkey}

/-- The token accounts that a change is about. -/
def TokenChange.touched : TokenChange Pubkey → List Pubkey
  | .unchanged => []
  | .moved source destination _ => [source, destination]
  | .opened k _ => [k]

omit [Inhabited Pubkey] in
theorem change_frame {c : TokenChange Pubkey} (h : k ∉ c.touched) (tokens : Tokens Pubkey) :
    c.apply tokens k = tokens k := by
  cases c with
  | unchanged => rfl
  | moved source destination amount =>
    simp only [TokenChange.touched, List.mem_cons, List.not_mem_nil, or_false, not_or] at h
    show ((tokens.add source (-amount)).add destination amount) k = tokens k
    rw [add_of_ne h.2, add_of_ne h.1]
  | opened k' t =>
    simp only [TokenChange.touched, List.mem_cons, List.not_mem_nil, or_false] at h
    exact Function.update_of_ne h _ _

def Delta.touched (d : Delta Pubkey) : List Pubkey :=
  d.writes.map Prod.fst ++ d.tokens.touched

omit [Inhabited Pubkey] in
theorem apply_frame (h : k ∉ d.touched) (s : World Pubkey) : (d.apply s).held k = s.held k := by
  rw [Delta.touched, List.mem_append, not_or] at h
  refine held_eq.mpr ⟨writeAll_of_ne fun x hx hk => h.1 ?_, change_frame h.2 s.tokens, rfl⟩
  rw [← hk]
  exact List.mem_map_of_mem hx

/-- **A handler writes only what its context declares writable.** -/
theorem plans_writable (h : Plans rt now s i d) : d.touched ⊆ i.writable ps := by
  cases h <;>
    simp [Delta.touched, Delta.single, TokenChange.touched, Instruction.writable,
      Instruction.call, Call.method, Method.roles, Instruction.keys, writableKeys]

theorem handle_frame (ps : Programs Pubkey) {ev : Option (Event Pubkey)}
    (h : handle rt now i s = .ok (s', ev)) (hk : k ∉ i.writable ps) : s'.held k = s.held k := by
  obtain ⟨d, hd, rfl⟩ := plans_of_handle h
  exact apply_frame (fun hmem => hk (plans_writable hd hmem)) s

end Writes

end MaximProtocol
