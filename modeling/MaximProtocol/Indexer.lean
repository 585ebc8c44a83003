import MaximProtocol.AuditTrail
import MaximProtocol.Books
import MaximProtocol.Library.Projection

/-!
# What the indexer sees

The events of the program are consumed by an indexer that shows the state of each agent
without reading its accounts again.

1. `Instruction.event`: the event of each instruction;
2. `AgentView`: what can be shown of an agent, and how an event changes it;
3. `indexer_agrees`: a snapshot and the events since are the accounts as they are now.
-/

namespace MaximProtocol

open MachineInt World Transitions

variable {Pubkey : Type}

/-! ## 1. Events -/

/-- The event a successful instruction emits. Five emit none. -/
def Instruction.event (now : Int64) (s : World Pubkey) : Instruction Pubkey →
    Option (Event Pubkey)
  | .initProtocol _ _ => none
  | .rotateProtocolAdmin _ _ => none
  | .updateProtocolConfig _ _ => none
  | .registerAgent _ _ => none
  | .setSpendPolicy accs params =>
      some (.spendPolicyUpdated accs.agentWallet params.dailyBudget params.weeklyBudget
        params.monthlyBudget params.perCallLimit params.highValueThreshold now)
  | .settlePayment accs sequence params =>
      (s.tokens accs.payeeTokenAccount).map fun t =>
        .paymentSettled accs.agentWallet sequence params.endpointHash t.owner params.amountUsdc
          params.protocol now params.parentPayment params.memo
  | .recordPolicyViolation accs sequence params reason =>
      some (.policyViolationRecorded accs.agentWallet sequence params.endpointHash
        params.amountUsdc reason)
  | .deactivateAgent accs =>
      (s.wallet accs.agentWallet).map fun w =>
        .agentStatusChanged accs.agentWallet w.agentId false now
  | .reactivateAgent accs =>
      (s.wallet accs.agentWallet).map fun w =>
        .agentStatusChanged accs.agentWallet w.agentId true now
  | .freezeAgent accs =>
      (s.wallet accs.agentWallet).map fun w =>
        .agentFreezeChanged accs.agentWallet w.agentId true now
  | .unfreezeAgent accs =>
      (s.wallet accs.agentWallet).map fun w =>
        .agentFreezeChanged accs.agentWallet w.agentId false now
  | .withdrawFunds accs amount =>
      (s.tokens accs.ownerTokenAccount).map fun t =>
        .fundsWithdrawn accs.agentWallet t.owner amount now
  | .withdrawAll accs => do
      let destination ← s.tokens accs.ownerTokenAccount
      let source ← s.tokens accs.usdcTokenAccount
      pure (.fundsWithdrawn accs.agentWallet destination.owner source.amount now)
  | .transferOwnership accs newOwner =>
      (s.wallet accs.agentWallet).map fun w =>
        .ownershipTransferred accs.agentWallet w.owner newOwner now
  | .closeAgent _ => none

/-- The event of a transition. -/
def eventOf (x : Transition (World Pubkey) (Action Pubkey)) : Option (Event Pubkey) :=
  match x.label with
  | .accepted now i => i.event now x.pre
  | _ => none

section Emitted

variable [DecidableEq Pubkey] [Inhabited Pubkey] {rt : Runtime Pubkey} {now : Int64}
variable {s s' : World Pubkey} {i : Instruction Pubkey} {ev : Option (Event Pubkey)}

/-- What a successful instruction emits is its event. -/
theorem execute_event (h : execute rt now i s = .ok (s', ev)) : ev = i.event now s := by
  simp only [execute, bind_eq_ok, require_eq_ok, exists_const] at h
  obtain ⟨_, h⟩ := h
  cases i with
  | initProtocol accs admin =>
    simp only [handle, initProtocol, bind_eq_ok, pure_eq_ok, Prod.mk.injEq] at h
    obtain ⟨_, _, _, _, _, rfl⟩ := h
    rfl
  | rotateProtocolAdmin accs newAdmin =>
    simp only [handle, rotateProtocolAdmin, bind_eq_ok, pure_eq_ok, Prod.mk.injEq] at h
    obtain ⟨_, _, _, _, _, rfl⟩ := h
    rfl
  | updateProtocolConfig accs cap =>
    simp only [handle, updateProtocolConfig, bind_eq_ok, pure_eq_ok, Prod.mk.injEq] at h
    obtain ⟨_, _, _, rfl⟩ := h
    rfl
  | registerAgent accs agentId =>
    simp only [handle, registerAgent, bind_eq_ok, pure_eq_ok, Prod.mk.injEq] at h
    obtain ⟨_, _, _, _, _, _, _, rfl⟩ := h
    rfl
  | setSpendPolicy accs params =>
    simp only [handle, setSpendPolicy, bind_eq_ok, pure_eq_ok, Prod.mk.injEq] at h
    obtain ⟨_, _, _, _, _, _, _, rfl⟩ := h
    rfl
  | settlePayment accs sequence params =>
    simp only [handle, settlePayment, bind_eq_ok, settle_tryAccounts_eq_ok, pure_eq_ok,
      Prod.mk.injEq, Prod.exists] at h
    obtain ⟨ctx, hv, _, _, _, _, _, _, _, _, rfl⟩ := h
    simp only [Instruction.event, hv.payee, Option.map_some]
  | recordPolicyViolation accs sequence params reason =>
    simp only [handle, recordPolicyViolation, bind_eq_ok, pure_eq_ok, Prod.mk.injEq,
      Prod.exists] at h
    obtain ⟨_, _, _, _, _, _, _, _, rfl⟩ := h
    rfl
  | deactivateAgent accs =>
    simp only [handle, deactivateAgent, setActive, bind_eq_ok, loadWalletOfOwner_eq_ok,
      pure_eq_ok, Prod.mk.injEq] at h
    obtain ⟨w, ⟨hw, _⟩, _, rfl⟩ := h
    simp only [Instruction.event, hw, Option.map_some]
  | reactivateAgent accs =>
    simp only [handle, reactivateAgent, setActive, bind_eq_ok, loadWalletOfOwner_eq_ok,
      pure_eq_ok, Prod.mk.injEq] at h
    obtain ⟨w, ⟨hw, _⟩, _, rfl⟩ := h
    simp only [Instruction.event, hw, Option.map_some]
  | freezeAgent accs =>
    simp only [handle, freezeAgent, setFrozen, bind_eq_ok, load_wallet, pure_eq_ok,
      Prod.mk.injEq] at h
    obtain ⟨w, hw, _, _, _, rfl⟩ := h
    simp only [Instruction.event, hw, Option.map_some]
  | unfreezeAgent accs =>
    simp only [handle, unfreezeAgent, setFrozen, bind_eq_ok, load_wallet, pure_eq_ok,
      Prod.mk.injEq] at h
    obtain ⟨w, hw, _, _, _, rfl⟩ := h
    simp only [Instruction.event, hw, Option.map_some]
  | withdrawFunds accs amount =>
    simp only [handle, withdrawFunds, withdrawAmount, bind_eq_ok, withdraw_tryAccounts_eq_ok,
      pure_eq_ok, Prod.mk.injEq] at h
    obtain ⟨ctx, hv, _, _, _, _, _, _, _, rfl⟩ := h
    simp only [Instruction.event, hv.destination, Option.map_some]
  | withdrawAll accs =>
    simp only [handle, withdrawAll, withdrawAmount, bind_eq_ok, withdraw_tryAccounts_eq_ok,
      pure_eq_ok, Prod.mk.injEq] at h
    obtain ⟨ctx, hv, _, _, _, _, _, rfl⟩ := h
    simp only [Instruction.event, hv.destination, hv.source, Option.bind_eq_bind, Option.bind_some,
      Option.pure_def]
  | transferOwnership accs newOwner =>
    simp only [handle, transferOwnership, bind_eq_ok, loadWalletOfOwner_eq_ok, pure_eq_ok,
      Prod.mk.injEq] at h
    obtain ⟨w, ⟨hw, _⟩, _, _, _, _, _, rfl⟩ := h
    simp only [Instruction.event, hw, Option.map_some]
  | closeAgent accs =>
    simp only [handle, closeAgent, bind_eq_ok, pure_eq_ok, Prod.mk.injEq] at h
    obtain ⟨_, _, _, _, _, _, _, _, _, _, _, _, _, _, _, _, _, _, _, rfl⟩ := h
    rfl

end Emitted

/-! ## 2. What is shown of an agent -/

/-- What the event of a policy update tells of the policy. -/
structure PolicyView where
  dailyBudget : UInt64
  weeklyBudget : UInt64
  monthlyBudget : UInt64
  perCallLimit : UInt64
  highValueThreshold : UInt64

def PolicyView.of (p : SpendPolicy Pubkey) : PolicyView where
  dailyBudget := p.dailyBudget
  weeklyBudget := p.weeklyBudget
  monthlyBudget := p.monthlyBudget
  perCallLimit := p.perCallLimit
  highValueThreshold := p.highValueThreshold

/-- What the events of a settlement and of a violation tell of their records. -/
inductive LedgerEntry (Pubkey : Type) where
  | settled (endpointHash : Hash) (payee : Pubkey) (amountUsdc : UInt64) (protocol : UInt8)
      (settledAt : Int64) (parentPayment : Option Pubkey)
  | violation (endpointHash : Hash) (amountUsdc : UInt64)

def LedgerEntry.of (r : PaymentRecord Pubkey) : LedgerEntry Pubkey :=
  if r.policyPassed then
    .settled r.endpointHash r.payee r.amountUsdc r.protocol.tag r.settledAt r.parentPayment
  else
    .violation r.endpointHash r.amountUsdc

structure AgentView (Pubkey : Type) where
  owner : Pubkey
  isActive : Bool
  isFrozen : Bool
  paymentSequence : UInt64
  totalPayments : UInt64
  totalVolume : UInt64
  lastPaymentAt : Int64
  policy : Option PolicyView
  ledger : UInt64 → Option (LedgerEntry Pubkey)

def AgentView.of (w : AgentWallet Pubkey) (policy : Option (SpendPolicy Pubkey))
    (record : UInt64 → Option (PaymentRecord Pubkey)) : AgentView Pubkey where
  owner := w.owner
  isActive := w.isActive
  isFrozen := w.isFrozen
  paymentSequence := w.paymentSequence
  totalPayments := w.totalPayments
  totalVolume := w.totalVolume
  lastPaymentAt := w.lastPaymentAt
  policy := policy.map PolicyView.of
  ledger n := (record n).map LedgerEntry.of

/-- The agent an event is about. -/
def Event.agentWallet : Event Pubkey → Pubkey
  | .paymentSettled k _ _ _ _ _ _ _ _ => k
  | .policyViolationRecorded k _ _ _ _ => k
  | .agentStatusChanged k _ _ _ => k
  | .agentFreezeChanged k _ _ _ => k
  | .fundsWithdrawn k _ _ _ => k
  | .ownershipTransferred k _ _ _ => k
  | .spendPolicyUpdated k _ _ _ _ _ _ => k

/-- The counters both ledger events advance, and the entry they add. -/
def AgentView.advance (v : AgentView Pubkey) (n : UInt64) (entry : LedgerEntry Pubkey) :
    AgentView Pubkey :=
  { v with
    paymentSequence := saturatingAdd n 1
    totalPayments := saturatingAdd v.totalPayments 1
    ledger := Function.update v.ledger n (some entry) }

/-- The change that an event about the agent makes to what is shown of it. -/
def AgentView.change (v : AgentView Pubkey) : Event Pubkey → AgentView Pubkey
  | .paymentSettled _ n endpointHash payee amount protocol settledAt parent _ =>
      { v.advance n (.settled endpointHash payee amount protocol settledAt parent) with
        totalVolume := saturatingAdd v.totalVolume amount
        lastPaymentAt := settledAt }
  | .policyViolationRecorded _ n endpointHash amount _ =>
      v.advance n (.violation endpointHash amount)
  | .agentStatusChanged _ _ isActive _ => { v with isActive := isActive }
  | .agentFreezeChanged _ _ isFrozen _ => { v with isFrozen := isFrozen }
  | .fundsWithdrawn _ _ _ _ => v
  | .ownershipTransferred _ _ newOwner _ => { v with owner := newOwner }
  | .spendPolicyUpdated _ daily weekly monthly perCall threshold _ =>
      { v with
        policy := some
          { dailyBudget := daily, weeklyBudget := weekly, monthlyBudget := monthly
            perCallLimit := perCall, highValueThreshold := threshold } }

section View

variable [DecidableEq Pubkey]

/-- The indexer's entry of the agent `k`, after an event. -/
def index (k : Pubkey) (v : AgentView Pubkey) (e : Event Pubkey) : AgentView Pubkey :=
  if e.agentWallet = k then v.change e else v

/-- The policy at the address derived from the wallet address `k`. -/
def policyAt (rt : Runtime Pubkey) (s : World Pubkey) (k : Pubkey) : Option (SpendPolicy Pubkey) :=
  (rt.findProgramAddress (.spendPolicy k)).bind fun x => s.policy x.1

/-- A snapshot of the accounts of the agent `k`. -/
def snapshot (rt : Runtime Pubkey) (k : Pubkey) (s : World Pubkey) : Option (AgentView Pubkey) :=
  (s.wallet k).map fun w => .of w (policyAt rt s k) (recordAt rt s k)

variable [Inhabited Pubkey] {rt : Runtime Pubkey} {now : Int64} {s s' : World Pubkey}
variable {i : Instruction Pubkey} {k k' q : Pubkey} {tr : Trace Pubkey}

omit [DecidableEq Pubkey] [Inhabited Pubkey] in
theorem policyAt_of_find {bump : UInt8}
    (h : rt.findProgramAddress (.spendPolicy k) = some (q, bump)) :
    policyAt rt s k = s.policy q := by
  simp [policyAt, h]

omit [Inhabited Pubkey] in
/-- Writing or closing the policy of one wallet leaves the others. -/
theorem policyAt_write {bump : UInt8} {p : Option (SpendPolicy Pubkey)}
    (h : rt.createProgramAddress (.spendPolicy k') bump = some q)
    (hs : s'.policy = Function.update s.policy q p) (hk : k ≠ k') :
    policyAt rt s' k = policyAt rt s k := by
  have hfits : (Seeds.spendPolicy k).fits = true := rfl
  obtain ⟨a, c, ha⟩ := exists_find rt hfits
  have hne : a ≠ q := by
    rintro rfl
    exact hk (policy_seeds_inj h ha).symm
  rw [policyAt_of_find ha, policyAt_of_find ha, hs, Function.update_of_ne hne]

omit [DecidableEq Pubkey] [Inhabited Pubkey] in
theorem snapshot_same (hw : s'.wallet k = s.wallet k) (hp : policyAt rt s' k = policyAt rt s k)
    (hr : ∀ n, recordAt rt s' k n = recordAt rt s k n) :
    snapshot rt k s' = snapshot rt k s := by
  unfold snapshot
  rw [hw, hp, funext hr]

/-! ## 3. Agreement -/

/-- The entry an observer makes of one more event. -/
def observe (k : Pubkey) (v : Option (AgentView Pubkey)) (e : Event Pubkey) :
    Option (AgentView Pubkey) := v.map fun v => index k v e

omit [Inhabited Pubkey] in
theorem observe_other {v : Option (AgentView Pubkey)} {e : Event Pubkey} (h : e.agentWallet ≠ k) :
    observe k v e = v := by
  have hid : (fun v => index k v e) = id := funext fun v => if_neg h
  unfold observe
  rw [hid, Option.map_id]
  rfl

omit [Inhabited Pubkey] in
theorem observe_withdrawn {owner : Pubkey} {amount : UInt64} (v : Option (AgentView Pubkey)) :
    observe k v (.fundsWithdrawn k' owner amount now) = v := by
  have hid : (fun v => index k v (.fundsWithdrawn k' owner amount now)) = id :=
    funext fun v => ite_self v
  unfold observe
  rw [hid, Option.map_id]
  rfl

omit [Inhabited Pubkey] in
/-- An edit of a wallet shows as the change of its event. -/
theorem observe_edit {w w' : AgentWallet Pubkey} {e : Event Pubkey} (h : Edits k' s s' w w')
    (he : e.agentWallet = k')
    (hview : ∀ p r, AgentView.of w' p r = (AgentView.of w p r).change e) :
    snapshot rt k s' = observe k (snapshot rt k s) e := by
  by_cases hk : k = k'
  · subst hk
    have hw : s'.wallet k = some w' := by rw [h.views.wallet, Function.update_self]
    have hp : policyAt rt s' k = policyAt rt s k := by
      unfold policyAt
      rw [h.views.policy]
    have hr : recordAt rt s' k = recordAt rt s k := funext fun n => recordAt_congr h.views.record
    unfold snapshot observe
    rw [hw, h.wallet, hp, hr, Option.map_some, Option.map_some, Option.map_some, hview, index,
      if_pos he]
  · obtain ⟨hw, hr⟩ := edits_same rt h hk
    have hp : policyAt rt s' k = policyAt rt s k := by
      unfold policyAt
      rw [h.views.policy]
    rw [snapshot_same hw hp hr, observe_other fun hne => hk (hne.symm.trans he)]

omit [DecidableEq Pubkey] [Inhabited Pubkey] in
theorem discriminant_tag {v : UInt8} {protocol : PaymentProtocol}
    (h : PaymentProtocol.fromDiscriminant v = some protocol) : protocol.tag = v := by
  unfold PaymentProtocol.fromDiscriminant at h
  split at h
  · next hv =>
    cases h
    exact hv.symm
  · split at h
    · next hv =>
      cases h
      exact hv.symm
    · cases h

omit [DecidableEq Pubkey] [Inhabited Pubkey] in
/-- The ledger after one more record, when the record is at its own address. -/
theorem entries_appends {w w' : AgentWallet Pubkey} {r r' : PaymentRecord Pubkey} {n : UInt64}
    {a : Pubkey} {bump : UInt8} (h : Appends rt k s s' w w' r) (hn : n = w.paymentSequence)
    (ha : rt.findProgramAddress (.paymentRecord k n) = some (a, bump))
    (hr : s'.record a = some r') :
    (fun m => (recordAt rt s' k m).map LedgerEntry.of) =
      Function.update (fun m => (recordAt rt s k m).map LedgerEntry.of) n
        (some (LedgerEntry.of r')) := by
  funext m
  by_cases hm : m = n
  · rw [hm, recordAt_of_find ha, hr, Function.update_self]
    rfl
  · rw [Function.update_of_ne hm, h.slots, if_neg (hn ▸ hm)]

/-- A settlement shows as the change of its event. -/
theorem observe_settled {accs : SettlePayment Pubkey} {n : UInt64}
    {params : SettlePaymentParams Pubkey} {ev : Option (Event Pubkey)} (hreach : Reachable rt s)
    (h : execute rt now (.settlePayment accs n params) s = .ok (s', ev)) :
    ∃ e, ev = some e ∧ snapshot rt k s' = observe k (snapshot rt k s) e := by
  obtain ⟨payee, protocol, bump, _, hprotocol, haddr, hrecord, hev⟩ :=
    settlement_log ⟨now, s, s', ev, hreach, h⟩
  refine ⟨_, hev, ?_⟩
  cases (execute_effect h).2 with
  | @settlePayment _ _ _ ctx w p hs =>
    obtain ⟨_, hv⟩ := hs.views
    obtain ⟨_, _, hp, _⟩ := passed_policy hs.passed
    -- the policy is at its own address
    have hfind := (reachable_wellFormed hreach).policy hs.validates.policy
    rw [hs.validates.policy_wallet] at hfind
    by_cases hk : k = accs.agentWallet
    · subst hk
      obtain ⟨_, ha⟩ := settled_appends hs
      have hseq := hs.passed.sequence
      have hledger := entries_appends ha hseq haddr hrecord
      have hentry : LedgerEntry.of (PaymentRecord.settlement accs.agentWallet payee n params
          protocol now bump) = .settled params.endpointHash payee params.amountUsdc params.protocol
            now params.parentPayment := by
        rw [← discriminant_tag hprotocol]
        rfl
      have hpolicy : (policyAt rt s' accs.agentWallet).map PolicyView.of =
          (policyAt rt s accs.agentWallet).map PolicyView.of := by
        rw [policyAt_of_find hfind, policyAt_of_find hfind, hs.validates.policy, hv.policy,
          Function.update_self, hp]
        rfl
      obtain ⟨_, _, _, _, _, _, hw⟩ := (passed_resets hs.passed).frame
      unfold snapshot observe
      rw [ha.before, ha.after]
      simp only [Option.map_some, index, Event.agentWallet, if_true, AgentView.of, hpolicy,
        hledger, hentry, hw]
      simp only [AgentView.change, AgentView.advance, AgentWallet.accountPayment,
        AgentWallet.advance, hseq]
    · rw [snapshot_same ?_ ?_ fun m => ?_, observe_other (Ne.symm hk)]
      · rw [hv.wallet, Function.update_of_ne hk]
      · exact policyAt_write (rt.find_create hfind) hv.policy hk
      · rw [recordAt_write haddr hv.record, if_neg fun he => hk he.1]

/-- A violation shows as the change of its event. -/
theorem observe_violated {accs : RecordPolicyViolation Pubkey} {n : UInt64}
    {params : SettlePaymentParams Pubkey} {reason : UInt8} {ev : Option (Event Pubkey)}
    (hreach : Reachable rt s)
    (h : execute rt now (.recordPolicyViolation accs n params reason) s = .ok (s', ev)) :
    ∃ e, ev = some e ∧ snapshot rt k s' = observe k (snapshot rt k s) e := by
  obtain ⟨protocol, bump, _, haddr, hrecord, hev⟩ :=
    violation_log ⟨now, s, s', ev, hreach, h⟩
  refine ⟨_, hev, ?_⟩
  cases (execute_effect h).2 with
  | recordPolicyViolation hs =>
    obtain ⟨_, _, hv⟩ := hs.views
    have hpolicy : ∀ j, policyAt rt s' j = policyAt rt s j := by
      intro j
      unfold policyAt
      rw [hv.policy]
    by_cases hk : k = accs.agentWallet
    · subst hk
      obtain ⟨_, ha⟩ := violated_appends hs
      have hseq := hs.sequence_eq
      have hledger := entries_appends ha hseq haddr hrecord
      unfold snapshot observe
      rw [ha.before, ha.after]
      simp only [Option.map_some, index, Event.agentWallet, if_true, AgentView.of, hpolicy,
        hledger]
      simp only [AgentView.change, AgentView.advance, AgentWallet.advance, hseq]
      rfl
    · rw [snapshot_same ?_ (hpolicy k) fun m => ?_, observe_other (Ne.symm hk)]
      · rw [hv.wallet, Function.update_of_ne hk]
      · rw [recordAt_write haddr hv.record, if_neg fun he => hk he.1]

omit [Inhabited Pubkey] in
/-- A policy update shows as the change of its event. -/
theorem observe_policy {accs : SetSpendPolicy Pubkey} {params : SetSpendPolicyParams}
    {w : AgentWallet Pubkey} {bump : UInt8} (h : SetsPolicy rt now accs params s s' w bump) :
    snapshot rt k s' = observe k (snapshot rt k s) (.spendPolicyUpdated accs.agentWallet
      params.dailyBudget params.weeklyBudget params.monthlyBudget params.perCallLimit
      params.highValueThreshold now) := by
  have hw : s'.wallet k = s.wallet k := by rw [h.views.wallet]
  have hr : recordAt rt s' k = recordAt rt s k := funext fun n => recordAt_congr h.views.record
  by_cases hk : k = accs.agentWallet
  · subst hk
    have hp : policyAt rt s' accs.agentWallet =
        some (SpendPolicy.ofParams accs.agentWallet now params bump) := by
      rw [policyAt_of_find h.addr, h.views.policy, Function.update_self]
    unfold snapshot observe
    rw [hw, h.wallet, hp, hr]
    simp only [Option.map_some, index, Event.agentWallet, if_true]
    rfl
  · rw [snapshot_same hw (policyAt_write (rt.find_create h.addr) h.views.policy hk)
      (congrFun hr), observe_other (Ne.symm hk)]

/-- A successful instruction that does not close the agent changes what is shown of it by
its event. -/
theorem observe_accepted {ev : Option (Event Pubkey)} (hreach : Reachable rt s)
    (h : execute rt now i s = .ok (s', ev)) (hw : s.wallet k ≠ none)
    (hopen : ¬ ClosesWallet k ⟨s, .accepted now i, s'⟩) :
    snapshot rt k s' = ((i.event now s).map (observe k (snapshot rt k s))).getD
      (snapshot rt k s) := by
  have hev := execute_event h
  have hsame : ∀ {config tokens mints}, Views s' config s.wallet s.policy s.record tokens mints →
      snapshot rt k s' = snapshot rt k s := fun hv => by
    refine snapshot_same (by rw [hv.wallet]) ?_ fun n => recordAt_congr hv.record
    unfold policyAt
    rw [hv.policy]
  cases (execute_effect h).2 with
  | initProtocol _ _ _ hv => exact hsame hv
  | rotateProtocolAdmin _ hc => exact hsame hc.views
  | updateProtocolConfig hc => exact hsame hc.views
  | @registerAgent accs _ _ hr =>
    have hk : k ≠ accs.agentWallet := by
      rintro rfl
      exact hw (free_iff.mp hr.free).2.1
    refine snapshot_same ?_ ?_ fun n => recordAt_congr hr.views.record
    · rw [hr.views.wallet, Function.update_of_ne hk]
    · unfold policyAt
      rw [hr.views.policy]
  | setSpendPolicy hp => exact observe_policy hp
  | settlePayment _ =>
    obtain ⟨e, he, hview⟩ := observe_settled (k := k) hreach h
    rw [← hev, he]
    exact hview
  | recordPolicyViolation _ =>
    obtain ⟨e, he, hview⟩ := observe_violated (k := k) hreach h
    rw [← hev, he]
    exact hview
  | deactivateAgent _ he =>
    simp only [Instruction.event, he.wallet, Option.map_some, Option.getD_some]
    exact observe_edit he rfl fun _ _ => rfl
  | reactivateAgent _ he =>
    simp only [Instruction.event, he.wallet, Option.map_some, Option.getD_some]
    exact observe_edit he rfl fun _ _ => rfl
  | freezeAgent _ _ _ he =>
    simp only [Instruction.event, he.wallet, Option.map_some, Option.getD_some]
    exact observe_edit he rfl fun _ _ => rfl
  | unfreezeAgent _ _ _ he =>
    simp only [Instruction.event, he.wallet, Option.map_some, Option.getD_some]
    exact observe_edit he rfl fun _ _ => rfl
  | withdrawFunds hd =>
    rw [hsame hd.views]
    simp only [Instruction.event, hd.validates.destination, Option.map_some, Option.getD_some]
    exact (observe_withdrawn _).symm
  | withdrawAll hd =>
    rw [hsame hd.views]
    simp only [Instruction.event, hd.validates.destination, hd.validates.source,
      Option.bind_eq_bind, Option.bind_some, Option.pure_def, Option.map_some, Option.getD_some]
    exact (observe_withdrawn _).symm
  | transferOwnership _ _ _ he =>
    simp only [Instruction.event, he.wallet, Option.map_some, Option.getD_some]
    exact observe_edit he rfl fun _ _ => rfl
  | @closeAgent accs _ _ _ hc =>
    have hk : k ≠ accs.agentWallet := fun hk => hopen ⟨accs, ⟨now, rfl⟩, hk.symm⟩
    refine snapshot_same ?_ (policyAt_write hc.policy_seeds hc.views.policy hk)
      fun n => recordAt_congr hc.views.record
    rw [hc.views.wallet, Function.update_of_ne hk]

/-- The event of an accepted transition is the one its instruction emits. -/
theorem eventOf_emitted {x : Transition (World Pubkey) (Action Pubkey)}
    (hs : Step rt x.pre x.label x.post) (hl : x.label = .accepted now i) :
    execute rt now i x.pre = .ok (x.post, eventOf x) := by
  obtain ⟨pre, label, post⟩ := x
  cases hl
  cases hs with
  | @accepted _ _ _ ev h =>
    have hev : ev = eventOf ⟨pre, .accepted now i, post⟩ := execute_event h
    rw [← hev]
    exact h

/-- **A snapshot and the events since are the accounts as they are now.** From any reachable
state, along any run that does not close the agent: its owner, its flags, its counters, its
policy and its ledger are what the snapshot and the emitted events give, in their order. -/
theorem indexer_agrees (hreach : Reachable rt s) (hw : s.wallet k ≠ none)
    (hr : Reaches rt s tr s') (hopen : StaysOpen k tr) :
    (∀ x ∈ tr, ∀ now i, x.label = .accepted now i →
      execute rt now i x.pre = .ok (x.post, eventOf x)) ∧
    snapshot rt k s' = project eventOf (observe k) (snapshot rt k s) tr := by
  refine ⟨fun x hx now i hl => eventOf_emitted (run_step hr hx) hl, ?_⟩
  refine (run_projects (snapshot rt k) (I := fun t => Reachable rt t ∧ t.wallet k ≠ none) hr
    ⟨hreach, hw⟩ fun x hx hs hI => ?_).2
  refine ⟨⟨reachable_step hI.1 hs, wallet_stays hs (hopen x hx) hI.2⟩, ?_⟩
  rw [project_single]
  obtain ⟨pre, label, post⟩ := x
  cases hs with
  | accepted h => exact observe_accepted hI.1 h hI.2 (hopen _ hx)
  | rejected _ => rfl
  | outside h =>
    have hv := outside_views h
    refine snapshot_same (by rw [hv.wallet]) ?_ fun n => recordAt_congr hv.record
    unfold policyAt
    rw [hv.policy]

end View

/-- A policy, a settlement and a violation, shown from their events. -/
theorem indexer_agrees_spending :
    snapshot Key.runtime (Demo.wallet Demo.alice) (submitAll Key.runtime Demo.chain Demo.opening) =
      project eventOf (observe (Demo.wallet Demo.alice))
        (snapshot Key.runtime (Demo.wallet Demo.alice) Demo.afterRegister)
        (replay Key.runtime Demo.afterRegister Demo.spending) := by
  have hsome : (Demo.afterRegister.wallet (Demo.wallet Demo.alice)).isSome = true := by
    decide +kernel
  refine (indexer_agrees (reachable_step Demo.reachable_beforeRegister Demo.register_step)
    (Option.isSome_iff_ne_none.mp hsome) Demo.spending_run (Demo.opening_open ?_)).2
  exact fun _ h => List.mem_cons_of_mem _ (List.mem_cons_of_mem _ h)

end MaximProtocol
