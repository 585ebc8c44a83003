import MaximProtocol.Recounting
import MaximProtocol.Library.Simulation

/-!
# Violations leave payments alone

A violation takes a number and a slot, as a settlement does. Take the violations of one
wallet out of a run and renumber its settlements: what is left is a run, with the same
outcomes, that ends in the same state up to the numbers.

1. `Numbered`: how the states of the two runs compare;
2. one lemma for each kind of step;
3. `violations_deleted`, by simulation.
-/

namespace MaximProtocol

open MachineInt World Transitions

variable {Pubkey : Type} [DecidableEq Pubkey]

/-! ## 1. The run without its violations -/

/-- The number that the next entry in the ledger of `k` takes. -/
def sequenceAt (s : World Pubkey) (k : Pubkey) : UInt64 :=
  match s.wallet k with
  | some w => w.paymentSequence
  | none => 0

/-- The transition submits a violation of `k`. -/
def RecordsViolation (k : Pubkey) (x : Transition (World Pubkey) (Action Pubkey)) : Prop :=
  ∃ accs n params reason, Submits x (.recordPolicyViolation accs n params reason) ∧
    accs.agentWallet = k

/-- A settlement of `k` that the transition submits carries the sequence of `k`. -/
def Current (k : Pubkey) (x : Transition (World Pubkey) (Action Pubkey)) : Prop :=
  ∀ accs n params, Submits x (.settlePayment accs n params) → accs.agentWallet = k →
    n = sequenceAt x.pre k

variable [Inhabited Pubkey]

/-- The settlements of `k` with `m` for `n`. -/
def Instruction.renumber (rt : Runtime Pubkey) (k : Pubkey) (n m : UInt64) :
    Instruction Pubkey → Instruction Pubkey
  | .settlePayment accs j params =>
      if accs.agentWallet = k then .settlePayment (accs.renumber rt n m) m params
      else .settlePayment accs j params
  | i => i

def Action.renumber (rt : Runtime Pubkey) (k : Pubkey) (n m : UInt64) :
    Action Pubkey → Action Pubkey
  | .accepted now i => .accepted now (i.renumber rt k n m)
  | .rejected now i => .rejected now (i.renumber rt k n m)
  | .outside => .outside

/-- What becomes of a transition: a violation of `k` goes, anything else stays, with the
number that its state asks for, and with the same outcome and the same tokens. -/
inductive Becomes (rt : Runtime Pubkey) (k : Pubkey)
    (x : Transition (World Pubkey) (Action Pubkey)) : Trace Pubkey → Prop
  | violation : RecordsViolation k x → Becomes rt k x []
  | other {y : Transition (World Pubkey) (Action Pubkey)} : ¬ RecordsViolation k x →
      y.label = x.label.renumber rt k (sequenceAt x.pre k) (sequenceAt y.pre k) →
      y.post.tokens = x.post.tokens → y.post.mints = x.post.mints → Becomes rt k x [y]

/-- Two states that differ in the counters and in the ledger of `k` only, and there in the
violations and the numbers only. -/
structure SamePayments (rt : Runtime Pubkey) (k : Pubkey) (s t : World Pubkey) : Prop where
  accounts : ∀ a, a ≠ k → ¬ IsSlot rt k a → t.accounts a = s.accounts a
  tokens : t.tokens = s.tokens
  mints : t.mints = s.mints
  wallet : ∃ w m, s.wallet k = some w ∧ t.wallet k = some (w.recount m)
  settlements : (ledger rt t k (sequenceAt t k)).map PaymentRecord.unnumbered =
    (passed (ledger rt s k (sequenceAt s k))).map PaymentRecord.unnumbered
  rest : ∀ n, sequenceAt t k ≤ n → recordAt rt t k n = none

/-- The states after the same steps of the two runs, where the ledger of `k` has `n` entries
in the first and `m` in the second. -/
structure Numbered (rt : Runtime Pubkey) (k : Pubkey) (n m : UInt64) (u v : World Pubkey) : Prop
    extends Recounted rt k n m u v where
  left : WellFormed rt u
  right : WellFormed rt v
  le : m ≤ n
  free : ∀ j, n ≤ j → recordAt rt u k j = none
  rest : ∀ j, m ≤ j → recordAt rt v k j = none
  settlements : (ledger rt v k m).map PaymentRecord.unnumbered =
    (passed (ledger rt u k n)).map PaymentRecord.unnumbered

variable {rt : Runtime Pubkey} {k : Pubkey} {n m : UInt64} {s s' u u' v : World Pubkey}
variable {now : Int64} {i : Instruction Pubkey} {w w' : AgentWallet Pubkey}
variable {r r' : PaymentRecord Pubkey}

omit [Inhabited Pubkey] in
theorem recounted_counted (h : Recounted rt k n m u v) (hwf : WellFormed rt u) :
    sequenceAt u k = n ∧ sequenceAt v k = m := by
  obtain ⟨w, hw, hn, _⟩ := h.counted
  have hv := recounted_wallet hwf h hw
  rw [recounted, if_pos rfl] at hv
  refine ⟨?_, ?_⟩
  · rw [sequenceAt, hw]
    exact hn
  · rw [sequenceAt, hv]
    rfl

omit [Inhabited Pubkey] in
theorem numbered_same (h : Numbered rt k n m u v) : SamePayments rt k u v := by
  obtain ⟨hn, hm⟩ := recounted_counted h.toRecounted h.left
  obtain ⟨w, hw, _⟩ := h.counted
  have hv := recounted_wallet h.left h.toRecounted hw
  rw [recounted, if_pos rfl] at hv
  refine ⟨fun a ha hslot => ?_, h.tokens, h.mints, ⟨w, m, hw, hv⟩, ?_, ?_⟩
  · rw [h.accounts a hslot, recountAt_of_ne ha]
  · rw [hn, hm]
    exact h.settlements
  · rw [hm]
    exact h.rest

/-! ## 2. One step -/

omit [DecidableEq Pubkey] [Inhabited Pubkey] in
/-- The slots from the next number on stay free when one entry is appended. -/
theorem free_appends (h : Appends rt k s s' w w' r) (hlt : w.paymentSequence.toNat < u64Max)
    (hfree : ∀ j, w.paymentSequence ≤ j → recordAt rt s k j = none) :
    ∀ j, w'.paymentSequence ≤ j → recordAt rt s' k j = none := by
  intro j hj
  have hone : (1 : UInt64).toNat = 1 := rfl
  rw [h.sequence, UInt64.le_iff_toNat_le, toNat_saturatingAdd] at hj
  have hne : j ≠ w.paymentSequence := by
    rintro rfl
    omega
  rw [h.slots, if_neg hne]
  exact hfree j (UInt64.le_iff_toNat_le.mpr (by omega))

omit [DecidableEq Pubkey] [Inhabited Pubkey] in
theorem le_saturatingAdd {x : UInt64} : x ≤ saturatingAdd x 1 := by
  have hle := toNat_le_u64Max x
  rw [UInt64.le_iff_toNat_le, toNat_saturatingAdd]
  omega

theorem accepted_iff : Step rt s (.accepted now i) s' ↔
    rt.canSign i.signer = true ∧ ∃ d, Plans rt now s i d ∧ s' = d.apply s := by
  rw [← execute_iff_plans]
  constructor
  · intro h
    cases h with
    | accepted h => exact ⟨_, h⟩
  · rintro ⟨_, h⟩
    exact .accepted h

theorem rejected_iff : Step rt s (.rejected now i) s ↔
    ¬ (rt.canSign i.signer = true ∧ ∃ d, Plans rt now s i d) := by
  have hplans : (∃ s' ev, execute rt now i s = .ok (s', ev)) ↔
      rt.canSign i.signer = true ∧ ∃ d, Plans rt now s i d := by
    simp only [execute_iff_plans]
    exact ⟨fun ⟨_, hsign, d, hd, _⟩ => ⟨hsign, d, hd⟩, fun ⟨hsign, d, hd⟩ => ⟨_, hsign, d, hd, rfl⟩⟩
  rw [← hplans]
  constructor
  · rintro h ⟨s', ev, hok⟩
    cases h with
    | rejected he =>
      rw [he] at hok
      cases hok
  · intro h
    cases he : execute rt now i s with
    | error e => exact .rejected he
    | ok x => exact absurd ⟨x.1, x.2, he⟩ h

/-- A violation leaves the second run where it was. -/
theorem numbered_violation {accs : RecordPolicyViolation Pubkey} {j : UInt64}
    {params : SettlePaymentParams Pubkey} {reason : UInt8}
    (h : Numbered rt accs.agentWallet n m u v) (hlt : n.toNat < u64Max)
    (hs : Step rt u (.accepted now (.recordPolicyViolation accs j params reason)) u') :
    Numbered rt accs.agentWallet (saturatingAdd n 1) m u' v := by
  have hwf := wellFormed_step h.left hs
  obtain ⟨_, d, hd, rfl⟩ := accepted_iff.mp hs
  have hrec := violation_recounted h.left h.toRecounted hd
  obtain ⟨w, hw, rfl, _⟩ := h.counted
  cases (step_effect hs).2 with
  | recordPolicyViolation hviolates =>
    obtain ⟨protocol, happ⟩ := violated_appends hviolates
    have hbefore := happ.before
    rw [hw] at hbefore
    cases hbefore
    refine ⟨hrec, hwf, h.right, UInt64.le_trans h.le le_saturatingAdd,
      free_appends happ hlt h.free, h.rest, ?_⟩
    have hledger := ledger_appends happ hlt
    rw [happ.sequence] at hledger
    rw [hledger, passed_violation rfl]
    exact h.settlements

/-- What a settlement under the number `n` of its wallet does to the ledger. -/
theorem settled_ledger {accs : SettlePayment Pubkey} {params : SettlePaymentParams Pubkey}
    (hs : Step rt s (.accepted now (.settlePayment accs n params)) s') (hlt : n.toNat < u64Max)
    (hfree : ∀ j, n ≤ j → recordAt rt s accs.agentWallet j = none)
    (hr : recordAt rt s' accs.agentWallet n = some r) :
    (∀ j, saturatingAdd n 1 ≤ j → recordAt rt s' accs.agentWallet j = none) ∧
      ledger rt s' accs.agentWallet (saturatingAdd n 1) =
        ledger rt s accs.agentWallet n ++ [r] := by
  cases (step_effect hs).2 with
  | settlePayment hsettles =>
    obtain ⟨protocol, happ⟩ := settled_appends hsettles
    have hseq := hsettles.passed.sequence
    subst hseq
    rw [happ.slots, if_pos rfl, Option.some.injEq] at hr
    subst hr
    rw [← happ.sequence]
    exact ⟨free_appends happ hlt hfree, ledger_appends happ hlt⟩

/-- A settlement is one of the second run, under its number there. -/
theorem numbered_settlement {accs : SettlePayment Pubkey} {params : SettlePaymentParams Pubkey}
    (h : Numbered rt accs.agentWallet n m u v) (hlt : n.toNat < u64Max)
    (hs : Step rt u (.accepted now (.settlePayment accs n params)) u') :
    ∃ v', Step rt v (.accepted now (.settlePayment (accs.renumber rt n m) m params)) v' ∧
      Numbered rt accs.agentWallet (saturatingAdd n 1) (saturatingAdd m 1) u' v' := by
  have hwf := wellFormed_step h.left hs
  obtain ⟨hsign, d, hd, rfl⟩ := accepted_iff.mp hs
  obtain ⟨e, he, hrec, r, r', hr, hr', hpass, hsame⟩ := settlement_renumbered h.left h.right
    h.toRecounted (h.rest m (UInt64.le_refl m)) hd
  have hs' : Step rt v (.accepted now (.settlePayment (accs.renumber rt n m) m params))
    (e.apply v) := accepted_iff.mpr ⟨hsign, e, he, rfl⟩
  have hle := UInt64.le_iff_toNat_le.mp h.le
  obtain ⟨hfree, hledger⟩ := settled_ledger hs hlt h.free hr
  obtain ⟨hrest, hledger'⟩ := settled_ledger (r := r') hs' (by omega) h.rest hr'
  refine ⟨_, hs', hrec, hwf, wellFormed_step h.right hs', ?_, hfree, hrest, ?_⟩
  · rw [UInt64.le_iff_toNat_le, toNat_saturatingAdd, toNat_saturatingAdd]
    omega
  · show (ledger rt _ (accs.renumber rt n m).agentWallet _).map _ = _
    rw [hledger, hledger', passed_settlement hpass, List.map_append, List.map_append,
      List.map_singleton, List.map_singleton, hsame]
    exact congrArg (· ++ _) h.settlements

/-- A rejected settlement is rejected in the second run, under its number there. -/
theorem rejected_settlement {accs : SettlePayment Pubkey} {params : SettlePaymentParams Pubkey}
    (h : Numbered rt accs.agentWallet n m u v)
    (hs : Step rt u (.rejected now (.settlePayment accs n params)) u) :
    Step rt v (.rejected now (.settlePayment (accs.renumber rt n m) m params)) v := by
  rw [rejected_iff] at hs ⊢
  rintro ⟨hsign, d, hd⟩
  refine hs ⟨hsign, ?_⟩
  -- back to the first run, where the number is `n` again
  have hback : Recounted rt (accs.renumber rt n m).agentWallet m n v u :=
    recounted_symm h.left h.toRecounted
  obtain ⟨e, he, _⟩ := settlement_renumbered h.right h.left hback
    (h.free n (UInt64.le_refl n)) hd
  rw [renumber_renumber] at he
  exact ⟨e, he⟩

/-- Any other step leaves the ledger of `k` and the counters of its wallet. -/
theorem uncounted_step {x : Transition (World Pubkey) (Action Pubkey)}
    (hs : Step rt x.pre x.label x.post) (hopen : ¬ ClosesWallet k x)
    (hoff : ∀ now i, x.label = .accepted now i → i.ledgerOf ≠ some k)
    (hw : x.pre.wallet k = some w) :
    (∃ w', x.post.wallet k = some w' ∧ w'.paymentSequence = w.paymentSequence ∧
      w'.totalPayments = w.totalPayments) ∧
    ∀ j, recordAt rt x.post k j = recordAt rt x.pre k j := by
  obtain ⟨s, act, s'⟩ := x
  simp only at hs hoff hw ⊢
  cases walletStep hs k with
  | settled hk _ => exact absurd (congrArg some hk) (hoff _ _ rfl)
  | violated hk _ => exact absurd (congrArg some hk) (hoff _ _ rfl)
  | registered hk h =>
    rw [← hk, (free_iff.mp h.free).2.1] at hw
    cases hw
  | closed hk _ => exact absurd ⟨_, ⟨_, rfl⟩, hk⟩ hopen
  | edited he h =>
    rw [h.wallet, Option.some.injEq] at hw
    subst hw
    have hafter := congrFun h.views.wallet k
    rw [Function.update_self] at hafter
    obtain ⟨_, _, _, rfl⟩ := walletEdit_frame he
    exact ⟨⟨_, hafter, rfl, rfl⟩, fun j => recordAt_congr h.views.record⟩
  | untouched hw' hr => exact ⟨⟨w, hw'.trans hw, rfl, rfl⟩, hr⟩

/-- Both runs take a step that leaves the ledger of `k`. -/
theorem numbered_uncounted {a b : Action Pubkey} {v' : World Pubkey}
    (h : Numbered rt k n m u v) (hs : Step rt u a u') (hs' : Step rt v b v')
    (hopen : ¬ ClosesWallet k ⟨u, a, u'⟩) (hopen' : ¬ ClosesWallet k ⟨v, b, v'⟩)
    (hoff : ∀ now i, a = .accepted now i → i.ledgerOf ≠ some k)
    (hoff' : ∀ now i, b = .accepted now i → i.ledgerOf ≠ some k)
    (haccounts : ∀ c, ¬ IsSlot rt k c → v'.accounts c = recountAt k m c (u'.accounts c))
    (htokens : v'.tokens = u'.tokens) (hmints : v'.mints = u'.mints) :
    Numbered rt k n m u' v' := by
  obtain ⟨w, hw, hn, ht⟩ := h.counted
  have hv := recounted_wallet h.left h.toRecounted hw
  obtain ⟨⟨w', hw', hseq, htot⟩, hr⟩ := uncounted_step (x := ⟨u, a, u'⟩) hs hopen hoff hw
  obtain ⟨_, hr'⟩ := uncounted_step (x := ⟨v, b, v'⟩) hs' hopen' hoff' hv
  refine ⟨⟨haccounts, htokens, hmints, w', hw', hseq.trans hn, htot.trans ht⟩,
    wellFormed_step h.left hs, wellFormed_step h.right hs', h.le, fun j hj => ?_,
    fun j hj => ?_, ?_⟩
  · exact (hr j).trans (h.free j hj)
  · exact (hr' j).trans (h.rest j hj)
  · rw [ledger_congr hr, ledger_congr hr']
    exact h.settlements

/-- Every other instruction does the same in both runs. -/
theorem numbered_accepted (h : Numbered rt k n m u v) (hi : i.ledgerOf ≠ some k)
    (hopen : ∀ accs, i = .closeAgent accs → accs.agentWallet ≠ k)
    (hs : Step rt u (.accepted now i) u') :
    ∃ v', Step rt v (.accepted now i) v' ∧ Numbered rt k n m u' v' := by
  obtain ⟨hsign, d, hd, rfl⟩ := accepted_iff.mp hs
  have hd' := plans_recounted h.left h.toRecounted hi hd
  have hs' : Step rt v (.accepted now i) ((d.map (recountAt k m)).apply v) :=
    accepted_iff.mpr ⟨hsign, _, hd', rfl⟩
  have hopen' : ∀ s s' : World Pubkey, ¬ ClosesWallet k ⟨s, .accepted now i, s'⟩ := by
    rintro s s' ⟨accs, ⟨_, hl⟩, hk⟩
    cases hl
    exact hopen accs rfl hk
  have hoff : ∀ now' i', Action.accepted now i = .accepted now' i' → i'.ledgerOf ≠ some k := by
    intro now' i' he
    cases he
    exact hi
  refine ⟨_, hs', numbered_uncounted h hs hs' (hopen' _ _) (hopen' _ _) hoff hoff ?_ ?_ h.mints⟩
  · exact apply_agrees (P := fun c => ¬ IsSlot rt k c) h.accounts d
  · rw [apply_tokens, apply_tokens, map_tokens, h.tokens]

theorem rejected_other (h : Numbered rt k n m u v) (hi : i.ledgerOf ≠ some k)
    (hs : Step rt u (.rejected now i) u) : Step rt v (.rejected now i) v := by
  rw [rejected_iff] at hs ⊢
  rintro ⟨hsign, d, hd⟩
  exact hs ⟨hsign, _, plans_recounted h.right (recounted_symm h.left h.toRecounted) hi hd⟩

/-- What happens outside the program happens in both runs. -/
theorem numbered_outside (h : Numbered rt k n m u v) (hs : Outside rt u u') :
    ∃ v', Step rt v .outside v' ∧ Numbered rt k n m u' v' := by
  have ho : Outside rt v ⟨v.accounts, u'.tokens, u'.mints⟩ := by
    refine ⟨rfl, ?_, ?_, ?_, hs.lawful⟩
    · rw [h.mints]
      exact hs.mints
    · rw [h.tokens]
      exact hs.derived
    · rw [h.tokens]
      exact hs.associated
  have hopen : ∀ s s' : World Pubkey, ¬ ClosesWallet k ⟨s, .outside, s'⟩ := by
    rintro s s' ⟨accs, ⟨_, hl⟩, _⟩
    cases hl
  have hoff : ∀ now i, Action.outside = .accepted now i → i.ledgerOf ≠ some k := by
    intro now i he
    cases he
  refine ⟨_, .outside ho, numbered_uncounted h (.outside hs) (.outside ho) (hopen _ _) (hopen _ _)
    hoff hoff (fun c hc => ?_) rfl rfl⟩
  rw [hs.accounts]
  exact h.accounts c hc

/-! ## 3. A whole run -/

omit [DecidableEq Pubkey] [Inhabited Pubkey] in
/-- An instruction leaves the ledger of `k` alone, or settles or records a violation there. -/
theorem ledgerOf_cases (i : Instruction Pubkey) (k : Pubkey) : i.ledgerOf ≠ some k ∨
    (∃ accs j params, i = .settlePayment accs j params ∧ accs.agentWallet = k) ∨
    (∃ accs j params reason, i = .recordPolicyViolation accs j params reason ∧
      accs.agentWallet = k) := by
  rcases ne_or_eq i.ledgerOf (some k) with hne | he
  · exact .inl hne
  · cases i with
    | settlePayment accs j params => exact .inr (.inl ⟨accs, j, params, rfl, Option.some.inj he⟩)
    | recordPolicyViolation accs j params reason =>
      exact .inr (.inr ⟨accs, j, params, reason, rfl, Option.some.inj he⟩)
    | _ => cases he

theorem renumber_of_ne (h : i.ledgerOf ≠ some k) : i.renumber rt k n m = i := by
  cases i with
  | settlePayment accs j params => exact if_neg fun he => h (congrArg some he)
  | _ => rfl

theorem renumber_settlement {accs : SettlePayment Pubkey} {j : UInt64}
    {params : SettlePaymentParams Pubkey} :
    (Instruction.settlePayment accs j params).renumber rt accs.agentWallet n m =
      .settlePayment (accs.renumber rt n m) m params := if_pos rfl

omit [DecidableEq Pubkey] [Inhabited Pubkey] in
theorem submits_inj {x : Transition (World Pubkey) (Action Pubkey)} {i' : Instruction Pubkey}
    (h : Submits x i) (h' : Submits x i') : i = i' := by
  obtain ⟨_, hl | hl⟩ := h <;> obtain ⟨_, hl' | hl'⟩ := h' <;> rw [hl] at hl' <;> cases hl' <;> rfl

omit [DecidableEq Pubkey] [Inhabited Pubkey] in
/-- What leaves the ledger of `k`, or settles there, is not a violation of `k`. -/
theorem not_violation {x : Transition (World Pubkey) (Action Pubkey)} (hx : Submits x i)
    (hi : i.ledgerOf ≠ some k ∨ ∃ accs j params, i = .settlePayment accs j params) :
    ¬ RecordsViolation k x := by
  rintro ⟨accs, j, params, reason, hx', rfl⟩
  cases submits_inj hx hx'
  rcases hi with hi | ⟨_, _, _, he⟩
  · exact hi rfl
  · cases he

/-- A step of the second run that stands for one of the first. -/
theorem becomes_step {x : Transition (World Pubkey) (Action Pubkey)} {n' m' : UInt64}
    {v' : World Pubkey} (h : Numbered rt k n m x.pre v) (hx : ¬ RecordsViolation k x)
    (hs : Step rt v (x.label.renumber rt k n m) v') (h' : Numbered rt k n' m' x.post v') :
    ∃ l v', Reaches rt v l v' ∧ Becomes rt k x l ∧ ∃ n m, Numbered rt k n m x.post v' := by
  obtain ⟨hn, hm⟩ := recounted_counted h.toRecounted h.left
  refine ⟨_, v', run_single hs, .other hx ?_ h'.tokens h'.mints, n', m', h'⟩
  rw [hn, hm]

/-- The second run follows each step of the first. -/
theorem numbered_step {x : Transition (World Pubkey) (Action Pubkey)}
    (hs : Step rt x.pre x.label x.post) (hopen : ¬ ClosesWallet k x)
    (hlt : (sequenceAt x.pre k).toNat < u64Max) (hcur : Current k x)
    (h : Numbered rt k n m x.pre v) :
    ∃ l v', Reaches rt v l v' ∧ Becomes rt k x l ∧ ∃ n m, Numbered rt k n m x.post v' := by
  obtain ⟨hn, _⟩ := recounted_counted h.toRecounted h.left
  obtain ⟨u, act, u'⟩ := x
  simp only at hs hlt h hn ⊢
  rw [hn] at hlt
  cases act with
  | outside =>
    cases hs with
    | outside ho =>
      obtain ⟨v', hs', h'⟩ := numbered_outside h ho
      refine becomes_step (x := ⟨u, .outside, u'⟩) h ?_ hs' h'
      rintro ⟨_, _, _, _, ⟨_, hl | hl⟩, _⟩ <;> cases hl
  | accepted now i =>
    rcases ledgerOf_cases i k with hi | ⟨accs, j, params, rfl, rfl⟩ |
      ⟨accs, j, params, reason, rfl, rfl⟩
    · obtain ⟨v', hs', h'⟩ := numbered_accepted h hi
        (fun accs he hk => hopen ⟨accs, ⟨now, by rw [he]⟩, hk⟩) hs
      refine becomes_step (x := ⟨u, .accepted now _, u'⟩) h
        (not_violation ⟨now, .inl rfl⟩ (.inl hi)) ?_ h'
      rw [Action.renumber, renumber_of_ne hi]
      exact hs'
    · have hj := hcur accs j params ⟨now, .inl rfl⟩ rfl
      rw [hn] at hj
      subst hj
      obtain ⟨v', hs', h'⟩ := numbered_settlement h hlt hs
      refine becomes_step (x := ⟨u, .accepted now _, u'⟩) h
        (not_violation ⟨now, .inl rfl⟩ (.inr ⟨_, _, _, rfl⟩)) ?_ h'
      rw [Action.renumber, renumber_settlement]
      exact hs'
    · exact ⟨[], v, .nil v, .violation ⟨accs, j, params, reason, ⟨now, .inl rfl⟩, rfl⟩, _, _,
        numbered_violation h hlt hs⟩
  | rejected now i =>
    have hu := step_rejected hs
    subst hu
    rcases ledgerOf_cases i k with hi | ⟨accs, j, params, rfl, rfl⟩ |
      ⟨accs, j, params, reason, rfl, rfl⟩
    · refine becomes_step (x := ⟨_, .rejected now _, _⟩) h
        (not_violation ⟨now, .inr rfl⟩ (.inl hi)) ?_ h
      rw [Action.renumber, renumber_of_ne hi]
      exact rejected_other h hi hs
    · have hj := hcur accs j params ⟨now, .inr rfl⟩ rfl
      rw [hn] at hj
      subst hj
      refine becomes_step (x := ⟨_, .rejected now _, _⟩) h
        (not_violation ⟨now, .inr rfl⟩ (.inr ⟨_, _, _, rfl⟩)) ?_ h
      rw [Action.renumber, renumber_settlement]
      exact rejected_settlement h hs
    · exact ⟨[], v, .nil v, .violation ⟨accs, j, params, reason, ⟨now, .inr rfl⟩, rfl⟩, _, _, h⟩

/-- At its first registration, a wallet has no ledger. -/
theorem numbered_registered {tr : Trace Pubkey} {x : Transition (World Pubkey) (Action Pubkey)}
    (h0 : Genesis rt s) (hr : Reaches rt s tr x.pre) (hfirst : ∀ y ∈ tr, ¬ RegistersAt rt k y)
    (hs : Step rt x.pre x.label x.post) (hreg : RegistersAt rt k x) :
    Numbered rt k 0 0 x.post x.post := by
  have hwf := reachable_wellFormed ⟨s, _, h0, hr.snoc hs⟩
  have hbefore : x.pre.wallet k = none ∧ ∀ n, recordAt rt x.pre k n = none := by
    refine run_preserves (I := fun u => u.wallet k = none ∧ ∀ n, recordAt rt u k n = none) hr ?_ ?_
    · exact ⟨genesis_wallet h0 k, genesis_recordAt h0⟩
    · rintro y hy hys ⟨hw, hr⟩
      obtain ⟨hw', hr'⟩ := wallet_none_step (hfirst y hy) hys hw
      exact ⟨hw', fun n => (hr' n).trans (hr n)⟩
  obtain ⟨now, accs, agentId, bump, _, rfl, hregisters⟩ := hreg
  have hempty : ∀ n, recordAt rt x.post accs.agentWallet n = none := fun n =>
    (recordAt_congr hregisters.views.record).trans (hbefore.2 n)
  have hwallet := congrFun hregisters.views.wallet accs.agentWallet
  rw [Function.update_self] at hwallet
  exact ⟨recounted_refl hwallet rfl rfl, hwf, hwf, UInt64.le_refl 0, fun j _ => hempty j,
    fun j _ => hempty j, rfl⟩

/-- **Violations do not influence payments.** Of a run from the first registration of a wallet
that stays open and below the largest sequence, where each settlement of the wallet carries
its sequence, the violations of the wallet can be taken out. -/
theorem violations_deleted {s₀ : World Pubkey} {tr₀ tr : Trace Pubkey}
    {x : Transition (World Pubkey) (Action Pubkey)} (h0 : Genesis rt s₀)
    (hr : Reaches rt s₀ (tr₀ ++ x :: tr) s) (hfirst : ∀ y ∈ tr₀, ¬ RegistersAt rt k y)
    (hreg : RegistersAt rt k x) (hopen : StaysOpen k tr)
    (hlt : ∀ y ∈ tr, (sequenceAt y.pre k).toNat < u64Max) (hcur : ∀ y ∈ tr, Current k y) :
    ∃ tr' t, Reaches rt s₀ (tr₀ ++ x :: tr') t ∧ Matched (Becomes rt k) tr tr' ∧
      SamePayments rt k s t := by
  obtain ⟨hr₀, hs, hrun⟩ := run_middle hr
  have hstart := numbered_registered h0 hr₀ hfirst hs hreg
  obtain ⟨tr', t, hrun', hmatched, n, m, hend⟩ := run_simulates
    (R := fun u v => ∃ n m, Numbered rt k n m u v) hrun ⟨0, 0, hstart⟩
    fun y hy hys v ⟨n, m, h⟩ => numbered_step hys (hopen y hy) (hlt y hy) (hcur y hy) h
  have hall := run_append (hr₀.snoc hs) hrun'
  rw [List.append_assoc] at hall
  exact ⟨tr', t, hall, hmatched, numbered_same hend⟩

theorem transition_submits {x : Submission Pubkey} (h : Submits (transition rt s x) i) :
    i = x.2 := by
  obtain ⟨now, hl⟩ := h
  unfold transition at hl
  split at hl <;> rcases hl with hl | hl <;> cases hl <;> rfl

namespace Demo

/-- Payments around a violation. The last one is more than what is left. -/
def audited : List (Submission Key) :=
  spending ++ [settle alice owner 2 (mint 1) (.associated payee (mint 1)) 5 400,
    settle alice owner 3 (mint 1) (.associated payee (mint 1)) 9000 500]

theorem register_first : ∀ y ∈ replay Key.runtime chain [initProtocol],
    ¬ RegistersAt Key.runtime (wallet alice) y := by
  rintro y hy ⟨now, accs, agentId, bump, hl, _, _⟩
  obtain ⟨_, hmem⟩ := accepts_mem hy ⟨now, hl⟩
  simp [initProtocol] at hmem

theorem audited_open : StaysOpen (wallet alice) (replay Key.runtime afterRegister audited) := by
  rintro x hx ⟨accs, hclose, _⟩
  obtain ⟨now, hmem⟩ := accepts_mem hx hclose
  simp [audited, spending, setPolicy, settle, violate] at hmem

end Demo

/-- The violation of the run below taken out. -/
theorem violations_deleted_audited :
    ∃ tr' t, Reaches Key.runtime Demo.chain
        (replay Key.runtime Demo.chain [Demo.initProtocol] ++ ⟨Demo.beforeRegister,
          .accepted 100 (Demo.register Demo.alice Demo.owner (Demo.mint 0) 100).2,
          Demo.afterRegister⟩ :: tr') t ∧
      Matched (Becomes Key.runtime (Demo.wallet Demo.alice))
        (replay Key.runtime Demo.afterRegister Demo.audited) tr' ∧
      SamePayments Key.runtime (Demo.wallet Demo.alice)
        (submitAll Key.runtime Demo.afterRegister Demo.audited) t := by
  have hreg : RegistersAt Key.runtime (Demo.wallet Demo.alice) ⟨Demo.beforeRegister,
      .accepted 100 (Demo.register Demo.alice Demo.owner (Demo.mint 0) 100).2,
      Demo.afterRegister⟩ := by
    cases (step_effect Demo.register_step).2 with
    | registerAgent h => exact ⟨_, _, _, _, rfl, rfl, h⟩
  refine violations_deleted Demo.genesis_chain ?_ Demo.register_first hreg Demo.audited_open ?_ ?_
  · have hpre := replay_reaches Key.runtime Demo.chain [Demo.initProtocol]
    have hpost := replay_reaches Key.runtime Demo.afterRegister Demo.audited
    have hall := run_append (hpre.snoc Demo.register_step) hpost
    rw [List.append_assoc] at hall
    exact hall
  · have hall : (replay Key.runtime Demo.afterRegister Demo.audited).all
        (fun y => (sequenceAt y.pre (Demo.wallet Demo.alice)).toNat < u64Max) = true := by
      decide +kernel
    simpa using hall
  · simp only [Demo.audited, Demo.spending, List.cons_append, List.nil_append, replay,
      List.forall_mem_cons, List.not_mem_nil, false_imp_iff, implies_true, and_true]
    refine ⟨?_, ?_, ?_, ?_, ?_⟩ <;> intro accs n params hsub hk <;>
      cases transition_submits hsub <;> decide +kernel

end MaximProtocol
