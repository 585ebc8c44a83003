import MaximProtocol.AuditTrail

/-!
# The ledger is its history

The payment records of the chain as a function of what was accepted, for every address at
once and across closes and registrations.

1. `recorded`: the records that the accepted settlements and violations of an address call
   for, in order;
2. `ledger_history`: slot `n` of the address holds the `n`-th of them.
-/

namespace MaximProtocol

open MachineInt World Transitions

variable {Pubkey : Type} [DecidableEq Pubkey]

/-! ## 1. What is recorded -/

/-- The record that a transition calls for at the wallet address `k`. -/
def recorded? [Inhabited Pubkey] (rt : Runtime Pubkey) (k : Pubkey)
    (x : Transition (World Pubkey) (Action Pubkey)) : Option (PaymentRecord Pubkey) :=
  match x.label with
  | .accepted now (.settlePayment accs n params) =>
      if accs.agentWallet = k then do
        let payee ← payeeOwner x.pre accs
        let protocol ← PaymentProtocol.fromDiscriminant params.protocol
        let (_, bump) ← rt.findProgramAddress (.paymentRecord k n)
        pure (PaymentRecord.settlement k payee n params protocol now bump)
      else none
  | .accepted now (.recordPolicyViolation accs n params _) =>
      if accs.agentWallet = k then do
        let protocol ← PaymentProtocol.fromDiscriminant params.protocol
        let (_, bump) ← rt.findProgramAddress (.paymentRecord k n)
        pure (PaymentRecord.violation k n params protocol now bump)
      else none
  | _ => none

variable [Inhabited Pubkey]

def recorded (rt : Runtime Pubkey) (k : Pubkey) (tr : Trace Pubkey) :
    List (PaymentRecord Pubkey) :=
  tr.filterMap (recorded? rt k)

variable {rt : Runtime Pubkey} {s s' : World Pubkey} {k : Pubkey} {tr : Trace Pubkey}
variable {x : Transition (World Pubkey) (Action Pubkey)} {r : PaymentRecord Pubkey}
variable {l : List (PaymentRecord Pubkey)}

theorem recorded_snoc :
    recorded rt k (tr ++ [x]) = recorded rt k tr ++ (recorded? rt k x).toList := by
  cases h : recorded? rt k x <;> simp [recorded, h]

theorem recorded?_writes (h : recorded? rt k x = some r) : ∃ n, WritesSlot k n x := by
  unfold recorded? at h
  split at h
  · next now accs n params hl =>
    split at h
    · next hk => exact ⟨n, .inl ⟨accs, params, ⟨now, hl⟩, hk⟩⟩
    · cases h
  · next now accs n params reason hl =>
    split at h
    · next hk => exact ⟨n, .inr ⟨accs, params, reason, ⟨now, hl⟩, hk⟩⟩
    · cases h
  · cases h

/-- A step that leaves the ledger of `k` records nothing for it. -/
theorem recorded?_none (hs : Step rt x.pre x.label x.post)
    (hsame : ∀ n, recordAt rt x.post k n = recordAt rt x.pre k n) : recorded? rt k x = none := by
  by_contra hsome
  obtain ⟨r, hr⟩ := Option.ne_none_iff_exists'.mp hsome
  obtain ⟨n, hw⟩ := recorded?_writes hr
  obtain ⟨hfree, hused⟩ := writesSlot_records hs hw
  rw [hsame, hfree] at hused
  exact hused rfl

/-- A ledger step of `k` appends the record it calls for. -/
theorem recorded?_settled {now : Int64} {accs : SettlePayment Pubkey} {n : UInt64}
    {params : SettlePaymentParams Pubkey} (hreach : Reachable rt s)
    (hs : Step rt s (.accepted now (.settlePayment accs n params)) s') :
    ∃ r w w', recorded? rt accs.agentWallet
        ⟨s, .accepted now (.settlePayment accs n params), s'⟩ = some r ∧
      Appends rt accs.agentWallet s s' w w' r := by
  cases hs with
  | accepted hok =>
    obtain ⟨payee, protocol, bump, hpayee, hprotocol, haddr, hrecord, _⟩ :=
      settlement_log ⟨now, s, s', _, hreach, hok⟩
    cases (execute_effect hok).2 with
    | settlePayment h =>
      obtain ⟨_, ha⟩ := settled_appends h
      refine ⟨_, _, _, ?_, ha⟩
      have hslot := ha.slots n
      rw [if_pos h.passed.sequence, recordAt_of_find haddr] at hslot
      have hrec := hslot.symm.trans hrecord
      have hpayee' : payeeOwner s accs = some payee := hpayee
      rw [hrec]
      simp only [recorded?, if_true, hpayee', hprotocol, haddr]
      rfl

theorem recorded?_violated {now : Int64} {accs : RecordPolicyViolation Pubkey} {n : UInt64}
    {params : SettlePaymentParams Pubkey} {reason : UInt8} (hreach : Reachable rt s)
    (hs : Step rt s (.accepted now (.recordPolicyViolation accs n params reason)) s') :
    ∃ r w w', recorded? rt accs.agentWallet
        ⟨s, .accepted now (.recordPolicyViolation accs n params reason), s'⟩ = some r ∧
      Appends rt accs.agentWallet s s' w w' r := by
  cases hs with
  | accepted hok =>
    obtain ⟨protocol, bump, hprotocol, haddr, hrecord, _⟩ :=
      violation_log ⟨now, s, s', _, hreach, hok⟩
    cases (execute_effect hok).2 with
    | recordPolicyViolation h =>
      obtain ⟨_, ha⟩ := violated_appends h
      refine ⟨_, _, _, ?_, ha⟩
      have hslot := ha.slots n
      rw [if_pos h.sequence_eq, recordAt_of_find haddr] at hslot
      have hrec := hslot.symm.trans hrecord
      rw [hrec]
      simp only [recorded?, if_true, hprotocol, haddr]
      rfl

/-! ## 2. The slots of an address -/

/-- The slots of `k` hold the list `l`, and a wallet at `k` stands at its end, or at 0. -/
structure Lists (rt : Runtime Pubkey) (k : Pubkey) (l : List (PaymentRecord Pubkey))
    (s : World Pubkey) : Prop where
  slots : ∀ n, recordAt rt s k n = l[n.toNat]?
  sequence : ∀ w, s.wallet k = some w →
    w.paymentSequence.toNat = min u64Max l.length ∨ w.paymentSequence = 0

omit [DecidableEq Pubkey] [Inhabited Pubkey] in
/-- The free slot that a wallet stands at is the first after the list. -/
theorem lists_next {w w' : AgentWallet Pubkey} (h : Lists rt k l s)
    (ha : Appends rt k s s' w w' r) : w.paymentSequence.toNat = l.length := by
  have hfree := ha.free
  rw [h.slots, List.getElem?_eq_none_iff] at hfree
  rcases h.sequence w ha.before with hseq | hseq
  · rw [hseq] at hfree ⊢
    exact Nat.le_antisymm (Nat.min_le_right _ _) hfree
  · rw [hseq] at hfree ⊢
    exact (Nat.le_zero.mp hfree).symm

omit [DecidableEq Pubkey] [Inhabited Pubkey] in
theorem lists_appends {w w' : AgentWallet Pubkey} (h : Lists rt k l s)
    (ha : Appends rt k s s' w w' r) : Lists rt k (l ++ [r]) s' := by
  have hnext := lists_next h ha
  refine ⟨fun n => ?_, fun v hv => .inl ?_⟩
  · rw [ha.slots]
    split
    · next hn => rw [hn, hnext, List.getElem?_concat_length]
    · next hn =>
      have hne : n.toNat ≠ l.length := fun he => hn (UInt64.toNat_inj.mp (he.trans hnext.symm))
      rw [h.slots, List.getElem?_append]
      split
      · rfl
      · next hge =>
        have hlt : l.length < n.toNat := Nat.lt_of_le_of_ne (not_lt.mp hge) hne.symm
        rw [List.getElem?_eq_none_iff.mpr hlt.le,
          List.getElem?_eq_none_iff.mpr (Nat.sub_pos_of_lt hlt)]
  · rw [ha.after] at hv
    cases hv
    rw [ha.sequence, toNat_saturatingAdd, hnext, List.length_append]
    rfl

omit [DecidableEq Pubkey] [Inhabited Pubkey] in
/-- A step that writes no slot, and leaves a wallet with the sequence it had or 0. -/
theorem lists_kept (h : Lists rt k l s) (hr : ∀ n, recordAt rt s' k n = recordAt rt s k n)
    (hw : ∀ v, s'.wallet k = some v → v.paymentSequence = 0 ∨
      ∃ w, s.wallet k = some w ∧ v.paymentSequence = w.paymentSequence) : Lists rt k l s' := by
  refine ⟨fun n => (hr n).trans (h.slots n), fun v hv => ?_⟩
  rcases hw v hv with h0 | ⟨w, hw, hseq⟩
  · exact .inr h0
  · rw [hseq]
    exact h.sequence w hw

/-- One step extends the list by what it records. -/
theorem lists_step (hreach : Reachable rt x.pre) (hs : Step rt x.pre x.label x.post)
    (h : Lists rt k (recorded rt k tr) x.pre) : Lists rt k (recorded rt k (tr ++ [x])) x.post := by
  have hkept : (∀ n, recordAt rt x.post k n = recordAt rt x.pre k n) →
      (∀ v, x.post.wallet k = some v → v.paymentSequence = 0 ∨
        ∃ w, x.pre.wallet k = some w ∧ v.paymentSequence = w.paymentSequence) →
      Lists rt k (recorded rt k (tr ++ [x])) x.post := fun hsame hw => by
    rw [recorded_snoc, recorded?_none hs hsame, Option.toList_none, List.append_nil]
    exact lists_kept h hsame hw
  obtain ⟨s, act, s'⟩ := x
  simp only at hreach hs h hkept ⊢
  cases walletStep hs k with
  | settled hk _ =>
    subst hk
    obtain ⟨r, w, w', hr, ha⟩ := recorded?_settled hreach hs
    rw [recorded_snoc, hr, Option.toList_some]
    exact lists_appends h ha
  | violated hk _ =>
    subst hk
    obtain ⟨r, w, w', hr, ha⟩ := recorded?_violated hreach hs
    rw [recorded_snoc, hr, Option.toList_some]
    exact lists_appends h ha
  | registered hk h' =>
    subst hk
    refine hkept (fun n => recordAt_congr h'.views.record) fun v hv => ?_
    rw [h'.views.wallet, Function.update_self] at hv
    cases hv
    exact .inl rfl
  | closed hk h' =>
    subst hk
    refine hkept (fun n => recordAt_congr h'.views.record) fun v hv => ?_
    rw [h'.views.wallet, Function.update_self] at hv
    cases hv
  | edited he h' =>
    refine hkept (fun n => recordAt_congr h'.views.record) fun v hv => ?_
    rw [h'.views.wallet, Function.update_self] at hv
    cases hv
    obtain ⟨_, _, _, rfl⟩ := walletEdit_frame he
    exact .inr ⟨_, h'.wallet, rfl⟩
  | untouched hw hsame =>
    refine hkept hsame fun v hv => ?_
    rw [hw] at hv
    exact .inr ⟨v, hv, rfl⟩

theorem lists_run (h0 : Genesis rt s) (hr : Reaches rt s tr s') (k : Pubkey) :
    Lists rt k (recorded rt k tr) s' := by
  refine run_history (I := fun l v => Lists rt k (recorded rt k l) v) hr ?_ ?_
  · refine ⟨fun n => ?_, fun w hw => ?_⟩
    · rw [genesis_recordAt h0]
      rfl
    · rw [genesis_wallet h0] at hw
      cases hw
  · intro l x _ hrun hs h
    exact lists_step (reachable_run (reachable_init h0) hrun) hs h

/-- **The records are the history.** After every run, through closes and registrations and up
to the largest sequence: slot `n` of an address holds the record of its `n`-th accepted
settlement or violation, there is no other record, and a wallet stands at the next slot,
or at slot 0. -/
theorem ledger_history (h0 : Genesis rt s) (hr : Reaches rt s tr s') :
    (∀ k n, recordAt rt s' k n = (recorded rt k tr)[n.toNat]?) ∧
    (∀ a r, s'.record a = some r →
      (recorded rt r.agentWallet tr)[r.sequence.toNat]? = some r) ∧
    ∀ k w, s'.wallet k = some w →
      w.paymentSequence.toNat = min u64Max (recorded rt k tr).length ∨ w.paymentSequence = 0 := by
  refine ⟨fun k => (lists_run h0 hr k).slots, fun a r hrec => ?_,
    fun k => (lists_run h0 hr k).sequence⟩
  have haddr := (reachable_wellFormed ⟨s, tr, h0, hr⟩).record hrec
  rw [← (lists_run h0 hr r.agentWallet).slots, recordAt_of_find haddr]
  exact hrec

theorem ledger_history_opening :
    (∀ k n, recordAt Key.runtime (submitAll Key.runtime Demo.chain Demo.opening) k n =
      (recorded Key.runtime k (replay Key.runtime Demo.chain Demo.opening))[n.toNat]?) ∧
    (∀ a r, (submitAll Key.runtime Demo.chain Demo.opening).record a = some r →
      (recorded Key.runtime r.agentWallet
        (replay Key.runtime Demo.chain Demo.opening))[r.sequence.toNat]? = some r) ∧
    ∀ k w, (submitAll Key.runtime Demo.chain Demo.opening).wallet k = some w →
      w.paymentSequence.toNat =
          min u64Max (recorded Key.runtime k (replay Key.runtime Demo.chain Demo.opening)).length ∨
        w.paymentSequence = 0 :=
  ledger_history Demo.genesis_chain (replay_reaches Key.runtime Demo.chain Demo.opening)

end MaximProtocol
