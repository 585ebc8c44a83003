import MaximProtocol.Replay

/-!
# One step, seen from one wallet address

The ledger of a wallet address is the family of records at the addresses derived
from it and a sequence number (`recordAt`).

* `walletStep`: what a step can do to the wallet at one address and to its ledger.
* `settled_appends`, `violated_appends`: what the two ledger instructions do to them.
* `policyStep`: what a step can do to the policy of one wallet address; `policy_before`:
  where a policy comes from.
* `funds_step`, `lowers_signed`: a token account keeps what it holds unless the program
  spends from it, and then the owner of its wallet signs.
-/

namespace MaximProtocol

open MachineInt World Transitions

variable {Pubkey : Type} [DecidableEq Pubkey]

/-! ## 1. Slots -/

/-- The record in slot `n` of the ledger of the wallet address `k`. -/
def recordAt (rt : Runtime Pubkey) (s : World Pubkey) (k : Pubkey) (n : UInt64) :
    Option (PaymentRecord Pubkey) :=
  (rt.findProgramAddress (.paymentRecord k n)).bind fun x => s.record x.1

variable [Inhabited Pubkey] {rt : Runtime Pubkey} {s s' : World Pubkey} {now : Int64}
variable {k a : Pubkey} {n : UInt64} {act : Action Pubkey} {i : Instruction Pubkey}
variable {tr : Trace Pubkey}

section Slots

omit [DecidableEq Pubkey] [Inhabited Pubkey]

/-- Every slot has an address. -/
theorem exists_slot (rt : Runtime Pubkey) (k : Pubkey) (n : UInt64) :
    ∃ a bump, rt.findProgramAddress (.paymentRecord k n) = some (a, bump) :=
  exists_find rt rfl

theorem recordAt_of_find {bump : UInt8}
    (h : rt.findProgramAddress (.paymentRecord k n) = some (a, bump)) :
    recordAt rt s k n = s.record a := by
  simp [recordAt, h]

theorem recordAt_congr (h : s'.record = s.record) : recordAt rt s' k n = recordAt rt s k n := by
  simp [recordAt, h]

end Slots

omit [Inhabited Pubkey] in
/-- Writing the record of one slot leaves the others. -/
theorem recordAt_write {k' : Pubkey} {n' : UInt64} {bump : UInt8} {r : PaymentRecord Pubkey}
    (h : rt.findProgramAddress (.paymentRecord k' n') = some (a, bump))
    (hs : s'.record = Function.update s.record a (some r)) :
    recordAt rt s' k n = if k = k' ∧ n = n' then some r else recordAt rt s k n := by
  obtain ⟨b, c, hb⟩ := exists_slot rt k n
  rw [recordAt_of_find hb, recordAt_of_find hb, hs]
  rcases eq_or_ne b a with rfl | hab
  · have he := find_inj rt hb h
    simp only [Seeds.paymentRecord.injEq] at he
    rw [Function.update_self, if_pos he]
  · have hne : ¬ (k = k' ∧ n = n') := by
      rintro ⟨rfl, rfl⟩
      rw [h] at hb
      cases hb
      exact hab rfl
    rw [Function.update_of_ne hab, if_neg hne]

/-! ## 2. One step, seen from one wallet address -/

/-- The instructions that edit the wallet `w` at `k` in place, and what each needs. -/
inductive WalletEdit (s : World Pubkey) (k : Pubkey) (w : AgentWallet Pubkey) :
    Instruction Pubkey → AgentWallet Pubkey → Prop
  | deactivate {accs : ManageAgentStatus Pubkey} :
      accs.agentWallet = k → w.owner = accs.owner →
      WalletEdit s k w (.deactivateAgent accs) { w with isActive := false }
  | reactivate {accs : ManageAgentStatus Pubkey} :
      accs.agentWallet = k → w.owner = accs.owner →
      WalletEdit s k w (.reactivateAgent accs) { w with isActive := true }
  | freeze {accs : ProtocolManageAgent Pubkey} {c : ProtocolConfig Pubkey} :
      accs.agentWallet = k → s.config accs.protocolConfig = some c → c.admin = accs.admin →
      WalletEdit s k w (.freezeAgent accs) { w with isFrozen := true }
  | unfreeze {accs : ProtocolManageAgent Pubkey} {c : ProtocolConfig Pubkey} :
      accs.agentWallet = k → s.config accs.protocolConfig = some c → c.admin = accs.admin →
      WalletEdit s k w (.unfreezeAgent accs) { w with isFrozen := false }
  | owner {accs : TransferOwnership Pubkey} {newOwner : Pubkey} :
      accs.agentWallet = k → w.owner = accs.owner → newOwner ≠ w.owner →
      WalletEdit s k w (.transferOwnership accs newOwner) { w with owner := newOwner }

/-- What one step can do to the wallet at `k` and to its ledger. -/
inductive WalletStep (rt : Runtime Pubkey) (k : Pubkey) (s : World Pubkey) :
    Action Pubkey → World Pubkey → Prop
  | settled {s' : World Pubkey} {now : Int64} {accs : SettlePayment Pubkey} {n : UInt64}
      {params : SettlePaymentParams Pubkey} {ctx : SettlePayment.Loaded Pubkey}
      {w : AgentWallet Pubkey} {p : SpendPolicy Pubkey} :
      accs.agentWallet = k → Settles rt now accs n params s s' ctx w p →
      WalletStep rt k s (.accepted now (.settlePayment accs n params)) s'
  | violated {s' : World Pubkey} {now : Int64} {accs : RecordPolicyViolation Pubkey}
      {n : UInt64} {params : SettlePaymentParams Pubkey} {reason : UInt8}
      {w : AgentWallet Pubkey} {bump : UInt8} :
      accs.agentWallet = k → Violates rt now accs n params s s' w bump →
      WalletStep rt k s (.accepted now (.recordPolicyViolation accs n params reason)) s'
  | registered {s' : World Pubkey} {now : Int64} {accs : RegisterAgent Pubkey} {agentId : Bytes}
      {bump : UInt8} :
      accs.agentWallet = k → Registers rt now accs agentId s s' bump →
      WalletStep rt k s (.accepted now (.registerAgent accs agentId)) s'
  | closed {s' : World Pubkey} {now : Int64} {accs : CloseAgent Pubkey} {w : AgentWallet Pubkey}
      {p : SpendPolicy Pubkey} {t : TokenAccount Pubkey} :
      accs.agentWallet = k → Closes rt accs s s' w p t →
      WalletStep rt k s (.accepted now (.closeAgent accs)) s'
  | edited {s' : World Pubkey} {now : Int64} {i : Instruction Pubkey} {w w' : AgentWallet Pubkey} :
      WalletEdit s k w i w' → Edits k s s' w w' → WalletStep rt k s (.accepted now i) s'
  | untouched {act : Action Pubkey} {s' : World Pubkey} :
      s'.wallet k = s.wallet k → (∀ n, recordAt rt s' k n = recordAt rt s k n) →
      WalletStep rt k s act s'

omit [Inhabited Pubkey] in
theorem edits_same (rt : Runtime Pubkey) {k k' : Pubkey} {w w' : AgentWallet Pubkey}
    (h : Edits k' s s' w w') (hne : k ≠ k') :
    s'.wallet k = s.wallet k ∧ ∀ n, recordAt rt s' k n = recordAt rt s k n := by
  refine ⟨?_, fun n => recordAt_congr h.views.record⟩
  rw [h.views.wallet, Function.update_of_ne hne]

/-- An in-place edit of the wallet at `k'`, seen from `k`. -/
theorem walletStep_edit {k' : Pubkey} {w w' : AgentWallet Pubkey}
    (he : k' = k → WalletEdit s k w i w') (h : Edits k' s s' w w') :
    WalletStep rt k s (.accepted now i) s' := by
  by_cases hk : k' = k
  · subst hk
    exact .edited (he rfl) h
  · obtain ⟨hw, hr⟩ := edits_same rt h (Ne.symm hk)
    exact .untouched hw hr

theorem walletStep_effect (h : Effect rt now s s' i) (k : Pubkey) :
    WalletStep rt k s (.accepted now i) s' := by
  cases h with
  | initProtocol _ _ _ hv => exact .untouched (by rw [hv.wallet]) fun n => recordAt_congr hv.record
  | rotateProtocolAdmin _ h =>
    exact .untouched (by rw [h.views.wallet]) fun n => recordAt_congr h.views.record
  | updateProtocolConfig h =>
    exact .untouched (by rw [h.views.wallet]) fun n => recordAt_congr h.views.record
  | @registerAgent accs _ _ h =>
    by_cases hk : accs.agentWallet = k
    · exact .registered hk h
    · refine .untouched ?_ fun n => recordAt_congr h.views.record
      rw [h.views.wallet, Function.update_of_ne (Ne.symm hk)]
  | setSpendPolicy h =>
    exact .untouched (by rw [h.views.wallet]) fun n => recordAt_congr h.views.record
  | @settlePayment accs n' params ctx w p h =>
    by_cases hk : accs.agentWallet = k
    · exact .settled hk h
    · obtain ⟨protocol, hv⟩ := h.views
      refine .untouched ?_ fun n => ?_
      · rw [hv.wallet, Function.update_of_ne (Ne.symm hk)]
      · rw [recordAt_write h.validates.record_addr hv.record, if_neg fun he => hk he.1.symm]
  | @recordPolicyViolation accs n' params reason w bump h =>
    by_cases hk : accs.agentWallet = k
    · exact .violated hk h
    · obtain ⟨protocol, _, hv⟩ := h.views
      refine .untouched ?_ fun n => ?_
      · rw [hv.wallet, Function.update_of_ne (Ne.symm hk)]
      · rw [recordAt_write h.validates.record_addr hv.record, if_neg fun he => hk he.1.symm]
  | deactivateAgent ho h => exact walletStep_edit (fun hk => .deactivate hk ho) h
  | reactivateAgent ho h => exact walletStep_edit (fun hk => .reactivate hk ho) h
  | freezeAgent hc _ ha h => exact walletStep_edit (fun hk => .freeze hk hc ha) h
  | unfreezeAgent hc _ ha h => exact walletStep_edit (fun hk => .unfreeze hk hc ha) h
  | withdrawFunds h =>
    exact .untouched (by rw [h.views.wallet]) fun n => recordAt_congr h.views.record
  | withdrawAll h =>
    exact .untouched (by rw [h.views.wallet]) fun n => recordAt_congr h.views.record
  | transferOwnership ho _ hne h => exact walletStep_edit (fun hk => .owner hk ho hne) h
  | @closeAgent accs _ _ _ h =>
    by_cases hk : accs.agentWallet = k
    · exact .closed hk h
    · refine .untouched ?_ fun n => recordAt_congr h.views.record
      rw [h.views.wallet, Function.update_of_ne (Ne.symm hk)]

/-- Every step is one of these, seen from any wallet address. -/
theorem walletStep (h : Step rt s act s') (k : Pubkey) : WalletStep rt k s act s' := by
  cases h with
  | accepted h => exact walletStep_effect (execute_effect h).2 k
  | rejected _ => exact .untouched rfl fun _ => rfl
  | outside h =>
    have hv := outside_views h
    exact .untouched (by rw [hv.wallet]) fun n => recordAt_congr hv.record

omit [DecidableEq Pubkey] [Inhabited Pubkey] in
/-- An edit changes at most the owner and the two flags. -/
theorem walletEdit_frame {w w' : AgentWallet Pubkey} (h : WalletEdit s k w i w') :
    ∃ o a f, w' = { w with owner := o, isActive := a, isFrozen := f } := by
  cases h <;> exact ⟨_, _, _, rfl⟩

/-! ## 3. The two ledger instructions -/

/-- What one ledger instruction does to the wallet at `k`: it takes the free slot of
the wallet's sequence, fills it with `r`, and advances the counters. -/
structure Appends (rt : Runtime Pubkey) (k : Pubkey) (s s' : World Pubkey)
    (w w' : AgentWallet Pubkey) (r : PaymentRecord Pubkey) : Prop where
  before : s.wallet k = some w
  after : s'.wallet k = some w'
  sequence : w'.paymentSequence = saturatingAdd w.paymentSequence 1
  free : recordAt rt s k w.paymentSequence = none
  slots : ∀ n, recordAt rt s' k n = if n = w.paymentSequence then some r else recordAt rt s k n

omit [Inhabited Pubkey] in
theorem settled_appends {accs : SettlePayment Pubkey} {params : SettlePaymentParams Pubkey}
    {ctx : SettlePayment.Loaded Pubkey} {w : AgentWallet Pubkey} {p : SpendPolicy Pubkey}
    (h : Settles rt now accs n params s s' ctx w p) :
    ∃ protocol, Appends rt accs.agentWallet s s' ctx.wallet (w.accountPayment now params.amountUsdc)
      (PaymentRecord.settlement accs.agentWallet ctx.payee.owner n params protocol now
        ctx.recordBump) := by
  obtain ⟨protocol, hv⟩ := h.views
  obtain ⟨_, _, _, _, _, _, rfl⟩ := (passed_resets h.passed).frame
  have hseq := h.passed.sequence
  refine ⟨protocol, h.validates.wallet, ?_, rfl, ?_, fun m => ?_⟩
  · rw [hv.wallet, Function.update_self]
  · rw [← hseq, recordAt_of_find h.validates.record_addr]
    exact (free_iff.mp h.validates.record_free).2.2.2
  · rw [recordAt_write h.validates.record_addr hv.record, hseq]
    simp

theorem violated_appends {accs : RecordPolicyViolation Pubkey}
    {params : SettlePaymentParams Pubkey} {w : AgentWallet Pubkey} {bump : UInt8}
    (h : Violates rt now accs n params s s' w bump) :
    ∃ protocol, Appends rt accs.agentWallet s s' w w.advance
      (PaymentRecord.violation accs.agentWallet n params protocol now bump) := by
  obtain ⟨protocol, _, hv⟩ := h.views
  have hseq := h.sequence_eq
  refine ⟨protocol, h.validates.wallet, ?_, rfl, ?_, fun m => ?_⟩
  · rw [hv.wallet, Function.update_self]
  · rw [← hseq, recordAt_of_find h.validates.record_addr]
    exact (free_iff.mp h.validates.record_free).2.2.2
  · rw [recordAt_write h.validates.record_addr hv.record, hseq]
    simp

omit [Inhabited Pubkey] in
/-- A settlement keeps the owner and the freeze. -/
theorem settled_kept {accs : SettlePayment Pubkey} {params : SettlePaymentParams Pubkey}
    {ctx : SettlePayment.Loaded Pubkey} {w : AgentWallet Pubkey} {p : SpendPolicy Pubkey}
    (h : Settles rt now accs n params s s' ctx w p) :
    ∃ v v', s.wallet accs.agentWallet = some v ∧ s'.wallet accs.agentWallet = some v' ∧
      v'.owner = v.owner ∧ v'.isFrozen = v.isFrozen := by
  obtain ⟨_, ha⟩ := settled_appends h
  obtain ⟨_, _, _, _, _, _, hframe⟩ := (passed_resets h.passed).frame
  refine ⟨_, _, ha.before, ha.after, ?_⟩
  rw [hframe]
  exact ⟨rfl, rfl⟩

theorem violated_kept {accs : RecordPolicyViolation Pubkey}
    {params : SettlePaymentParams Pubkey} {w : AgentWallet Pubkey} {bump : UInt8}
    (h : Violates rt now accs n params s s' w bump) :
    ∃ v v', s.wallet accs.agentWallet = some v ∧ s'.wallet accs.agentWallet = some v' ∧
      v'.owner = v.owner ∧ v'.isFrozen = v.isFrozen := by
  obtain ⟨_, ha⟩ := violated_appends h
  exact ⟨_, _, ha.before, ha.after, rfl, rfl⟩

/-! ## 4. Policies and balances -/

/-- What one step can do to the policy account `q` of the wallet address `k`. -/
inductive PolicyStep (rt : Runtime Pubkey) (k q : Pubkey) (s : World Pubkey) :
    Action Pubkey → World Pubkey → Prop
  | set {s' : World Pubkey} {now : Int64} {accs : SetSpendPolicy Pubkey}
      {params : SetSpendPolicyParams} {w : AgentWallet Pubkey} {bump : UInt8} :
      accs.agentWallet = k → accs.spendPolicy = q → SetsPolicy rt now accs params s s' w bump →
      PolicyStep rt k q s (.accepted now (.setSpendPolicy accs params)) s'
  | settled {s' : World Pubkey} {now : Int64} {accs : SettlePayment Pubkey} {n : UInt64}
      {params : SettlePaymentParams Pubkey} {ctx : SettlePayment.Loaded Pubkey}
      {w : AgentWallet Pubkey} {p : SpendPolicy Pubkey} :
      accs.agentWallet = k → accs.spendPolicy = q → Settles rt now accs n params s s' ctx w p →
      PolicyStep rt k q s (.accepted now (.settlePayment accs n params)) s'
  | closed {s' : World Pubkey} {now : Int64} {accs : CloseAgent Pubkey} {w : AgentWallet Pubkey}
      {p : SpendPolicy Pubkey} {t : TokenAccount Pubkey} :
      accs.agentWallet = k → accs.spendPolicy = q → Closes rt accs s s' w p t →
      PolicyStep rt k q s (.accepted now (.closeAgent accs)) s'
  | untouched {act : Action Pubkey} {s' : World Pubkey} :
      s'.policy q = s.policy q → PolicyStep rt k q s act s'

omit [DecidableEq Pubkey] [Inhabited Pubkey] in
/-- A policy address that the seeds of `k'` create is the one of `k` only if `k'` is `k`. -/
theorem policy_seeds_inj {k' q : Pubkey} {bump bump' : UInt8}
    (h : rt.createProgramAddress (.spendPolicy k') bump' = some q)
    (hq : rt.findProgramAddress (.spendPolicy k) = some (q, bump)) : k' = k := by
  have hseeds := (rt.create_inj h (rt.find_create hq)).1
  cases hseeds
  rfl

theorem policyStep {q : Pubkey} {bump : UInt8} (h : Step rt s act s')
    (hq : rt.findProgramAddress (.spendPolicy k) = some (q, bump)) :
    PolicyStep rt k q s act s' := by
  cases h with
  | rejected _ => exact .untouched rfl
  | outside h => exact .untouched (by rw [(outside_views h).policy])
  | accepted he =>
    cases (execute_effect he).2 with
    | initProtocol _ _ _ hv => exact .untouched (by rw [hv.policy])
    | rotateProtocolAdmin _ h => exact .untouched (by rw [h.views.policy])
    | updateProtocolConfig h => exact .untouched (by rw [h.views.policy])
    | registerAgent h => exact .untouched (by rw [h.views.policy])
    | @setSpendPolicy accs _ _ _ h =>
      by_cases hne : accs.spendPolicy = q
      · have hk := policy_seeds_inj (rt.find_create h.addr) (hne ▸ hq)
        exact .set hk hne h
      · exact .untouched (by rw [h.views.policy, Function.update_of_ne (Ne.symm hne)])
    | @settlePayment accs _ _ _ _ _ h =>
      by_cases hne : accs.spendPolicy = q
      · have hk := policy_seeds_inj h.validates.policy_seeds (hne ▸ hq)
        exact .settled hk hne h
      · obtain ⟨_, hv⟩ := h.views
        exact .untouched (by rw [hv.policy, Function.update_of_ne (Ne.symm hne)])
    | recordPolicyViolation h =>
      obtain ⟨_, _, hv⟩ := h.views
      exact .untouched (by rw [hv.policy])
    | deactivateAgent _ h => exact .untouched (by rw [h.views.policy])
    | reactivateAgent _ h => exact .untouched (by rw [h.views.policy])
    | freezeAgent _ _ _ h => exact .untouched (by rw [h.views.policy])
    | unfreezeAgent _ _ _ h => exact .untouched (by rw [h.views.policy])
    | withdrawFunds h => exact .untouched (by rw [h.views.policy])
    | withdrawAll h => exact .untouched (by rw [h.views.policy])
    | transferOwnership _ _ _ h => exact .untouched (by rw [h.views.policy])
    | @closeAgent accs _ _ _ h =>
      by_cases hne : accs.spendPolicy = q
      · have hk := policy_seeds_inj h.policy_seeds (hne ▸ hq)
        exact .closed hk hne h
      · exact .untouched (by rw [h.views.policy, Function.update_of_ne (Ne.symm hne)])

/-- The transition is a successful `set_spend_policy` for the wallet address `k`. -/
def SetsPolicyOf (k : Pubkey) (x : Transition (World Pubkey) (Action Pubkey)) : Prop :=
  ∃ accs params, Accepts x (.setSpendPolicy accs params) ∧ accs.agentWallet = k

/-- A policy as `set_spend_policy` writes it in the action `act`. -/
structure NewlySet (act : Action Pubkey) (p : SpendPolicy Pubkey) : Prop where
  allowed : p.allowedDomainHashes.length ≤ MAX_DOMAIN_ENTRIES
  blocked : p.blockedDomainHashes.length ≤ MAX_DOMAIN_ENTRIES
  clock : act.clock? = some p.rateLimitWindowStart

/-- A policy was set in this step, or was there before up to its rate counter. -/
theorem policy_before {q : Pubkey} {p : SpendPolicy Pubkey} {bump : UInt8} (hs : Step rt s act s')
    (hq : rt.findProgramAddress (.spendPolicy k) = some (q, bump)) (hp : s'.policy q = some p) :
    (SetsPolicyOf k ⟨s, act, s'⟩ ∧ NewlySet act p) ∨
    ∃ p₀ n t, s.policy q = some p₀ ∧
      p = { p₀ with rateLimitCallCount := n, rateLimitWindowStart := t } ∧
      (act.clock? = some t ∨ t = p₀.rateLimitWindowStart) := by
  cases policyStep hs hq with
  | set hk hq' h =>
    rw [h.views.policy, hq', Function.update_self] at hp
    cases hp
    exact .inl ⟨⟨_, _, ⟨_, rfl⟩, hk⟩, h.allowed_len, h.blocked_len, rfl⟩
  | settled _ hq' h =>
    obtain ⟨_, hv⟩ := h.views
    rw [hv.policy, hq', Function.update_self] at hp
    cases hp
    obtain ⟨n, t, hframe, hstart⟩ := passed_policy h.passed
    refine .inr ⟨_, n, t, hq' ▸ h.validates.policy, hframe, ?_⟩
    exact hstart.imp_left fun ht => congrArg some ht.symm
  | closed _ hq' h =>
    rw [h.views.policy, hq', Function.update_self] at hp
    cases hp
  | untouched hsame =>
    rw [hsame] at hp
    exact .inr ⟨p, _, _, hp, rfl, .inr rfl⟩

omit [Inhabited Pubkey] in
theorem lowers_source {source destination authority T : Pubkey} {amount : UInt64}
    {tokens tokens' : Tokens Pubkey}
    (h : tokenTransfer source destination authority amount tokens = .ok tokens')
    (hlow : tokens'.balance T < tokens.balance T) :
    ∃ t, tokens T = some t ∧ t.owner = authority := by
  have hT : T = source := by
    by_contra hne
    have := transfer_balance_le h hne
    omega
  subst hT
  obtain ⟨src, _, hs, _, _, _, _, ho, _⟩ := tokenTransfer_eq_ok.mp h
  exact ⟨src, hs, ho⟩

omit [Inhabited Pubkey] in
theorem balance_update_free {T b : Pubkey} {t : TokenAccount Pubkey} {tokens : Tokens Pubkey}
    (hfree : tokens b = none) :
    tokens.balance T ≤ Tokens.balance (Function.update tokens b (some t)) T := by
  unfold Tokens.balance
  rcases eq_or_ne T b with rfl | hT
  · simp [hfree]
  · rw [Function.update_of_ne hT]

/-- An instruction that lowers a balance is signed by the owner of the wallet that
the token account belongs to. -/
theorem lowers_balance {T : Pubkey} (h : Effect rt now s s' i)
    (hlow : s'.tokens.balance T < s.tokens.balance T) :
    ∃ t w, s.tokens T = some t ∧ s.wallet t.owner = some w ∧ w.owner = i.signer := by
  cases h with
  | initProtocol _ _ _ hv => rw [hv.tokens] at hlow; omega
  | rotateProtocolAdmin _ h => rw [h.views.tokens] at hlow; omega
  | updateProtocolConfig h => rw [h.views.tokens] at hlow; omega
  | registerAgent h =>
    rw [h.views.tokens] at hlow
    exact absurd hlow (Nat.not_lt.mpr (balance_update_free h.token_free))
  | setSpendPolicy h => rw [h.views.tokens] at hlow; omega
  | settlePayment h =>
    obtain ⟨t, ht, ho⟩ := lowers_source h.transfer hlow
    exact ⟨t, _, ht, ho ▸ h.validates.wallet, h.validates.owner⟩
  | recordPolicyViolation h =>
    obtain ⟨_, _, hv⟩ := h.views
    rw [hv.tokens] at hlow
    omega
  | deactivateAgent _ h => rw [h.views.tokens] at hlow; omega
  | reactivateAgent _ h => rw [h.views.tokens] at hlow; omega
  | freezeAgent _ _ _ h => rw [h.views.tokens] at hlow; omega
  | unfreezeAgent _ _ _ h => rw [h.views.tokens] at hlow; omega
  | withdrawFunds h =>
    obtain ⟨t, ht, ho⟩ := lowers_source h.transfer hlow
    exact ⟨t, _, ht, ho ▸ h.validates.wallet, h.validates.owner⟩
  | withdrawAll h =>
    obtain ⟨t, ht, ho⟩ := lowers_source h.transfer hlow
    exact ⟨t, _, ht, ho ▸ h.validates.wallet, h.validates.owner⟩
  | transferOwnership _ _ _ h => rw [h.views.tokens] at hlow; omega
  | closeAgent h => rw [h.views.tokens] at hlow; omega

/-- An instruction keeps every token account, with its mint and owner. -/
theorem token_persists {T : Pubkey} {t : TokenAccount Pubkey} (h : Effect rt now s s' i)
    (ht : s.tokens T = some t) : ∃ b, s'.tokens T = some { t with amount := b } := by
  have hkept : s'.tokens = s.tokens → ∃ b, s'.tokens T = some { t with amount := b } :=
    fun hsame => ⟨t.amount, by rw [hsame, ht]⟩
  cases h with
  | initProtocol _ _ _ hv => exact hkept hv.tokens
  | rotateProtocolAdmin _ h => exact hkept h.views.tokens
  | updateProtocolConfig h => exact hkept h.views.tokens
  | registerAgent h =>
    have hne : T ≠ _ := fun he => by
      rw [he, h.token_free] at ht
      cases ht
    exact ⟨t.amount, by rw [h.views.tokens, Function.update_of_ne hne, ht]⟩
  | setSpendPolicy h => exact hkept h.views.tokens
  | settlePayment h => exact transfer_keeps h.transfer ht
  | recordPolicyViolation h =>
    obtain ⟨_, _, hv⟩ := h.views
    exact hkept hv.tokens
  | deactivateAgent _ h => exact hkept h.views.tokens
  | reactivateAgent _ h => exact hkept h.views.tokens
  | freezeAgent _ _ _ h => exact hkept h.views.tokens
  | unfreezeAgent _ _ _ h => exact hkept h.views.tokens
  | withdrawFunds h => exact transfer_keeps h.transfer ht
  | withdrawAll h => exact transfer_keeps h.transfer ht
  | transferOwnership _ _ _ h => exact hkept h.views.tokens
  | closeAgent h => exact hkept h.views.tokens

/-- The transition is an instruction of the program that lowers the balance at `T`. -/
def Lowers (T : Pubkey) (x : Transition (World Pubkey) (Action Pubkey)) : Prop :=
  (∃ now i, x.label = .accepted now i) ∧ x.post.tokens.balance T < x.pre.tokens.balance T

/-- A funded token account of a derived address keeps its owner, and what it holds
unless the program spends from it. -/
theorem funds_step {x : Transition (World Pubkey) (Action Pubkey)} {T : Pubkey}
    {t : TokenAccount Pubkey} (hs : Step rt x.pre x.label x.post)
    (ht : x.pre.tokens T = some t) (hderived : rt.IsDerived t.owner) (hpos : 0 < t.amount)
    (hlow : ¬ Lowers T x) :
    ∃ t', x.post.tokens T = some t' ∧ t'.owner = t.owner ∧ t.amount ≤ t'.amount := by
  obtain ⟨s, act, s'⟩ := x
  simp only at hs ht ⊢
  cases hs with
  | rejected _ => exact ⟨t, ht, rfl, UInt64.le_refl _⟩
  | outside h =>
    obtain ⟨t', ht', _, ho, hle⟩ := h.derived T t ht hderived hpos
    exact ⟨t', ht', ho, hle⟩
  | accepted he =>
    obtain ⟨b, hb⟩ := token_persists (execute_effect he).2 ht
    refine ⟨_, hb, rfl, ?_⟩
    by_contra hlt
    rw [UInt64.not_le, UInt64.lt_iff_toNat_lt] at hlt
    refine hlow ⟨⟨_, _, rfl⟩, ?_⟩
    simp only [Tokens.balance, ht, hb]
    exact hlt

/-- An instruction of the program that spends from a token account is signed by the
owner of the wallet that the account belongs to. -/
theorem lowers_signed {x : Transition (World Pubkey) (Action Pubkey)} {T : Pubkey}
    (hs : Step rt x.pre x.label x.post) (h : Lowers T x) :
    ∃ t w now i, x.pre.tokens T = some t ∧ x.pre.wallet t.owner = some w ∧
      x.label = .accepted now i ∧ i.signer = w.owner := by
  obtain ⟨⟨now, i, hl⟩, hlow⟩ := h
  rw [hl] at hs
  obtain ⟨t, w, ht, hw, ho⟩ := lowers_balance (step_effect hs).2 hlow
  exact ⟨t, w, now, i, ht, hw, hl, ho.symm⟩

end MaximProtocol
