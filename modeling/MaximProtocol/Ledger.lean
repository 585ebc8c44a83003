import MaximProtocol.WalletSteps

/-!
# The payment ledger

1. `exactly_once`: over any run a slot of the ledger is written at most once, and
   a record is never changed or removed.
2. `reachable_contiguous`: the slots below a used one are used.
3. `slots_free_iff`: the slots at and above every wallet's sequence are free in
   every state of a run, exactly when no registration of the run lands on an
   address that already has a record.
-/

namespace MaximProtocol

open MachineInt World Transitions

variable {Pubkey : Type} [DecidableEq Pubkey] [Inhabited Pubkey] {rt : Runtime Pubkey}
variable {s s' : World Pubkey} {now : Int64} {k a : Pubkey} {n : UInt64} {act : Action Pubkey}
variable {i : Instruction Pubkey} {tr : Trace Pubkey}

/-! ## 1. The ledger is written once -/

/-- The transition is an accepted settlement or violation for slot `n` of `k`. -/
def WritesSlot (k : Pubkey) (n : UInt64) (x : Transition (World Pubkey) (Action Pubkey)) : Prop :=
  (∃ accs params, Accepts x (.settlePayment accs n params) ∧ accs.agentWallet = k) ∨
  (∃ accs params reason, Accepts x (.recordPolicyViolation accs n params reason) ∧
    accs.agentWallet = k)

/-- The transition is a submission of `i`, accepted or rejected. -/
def Submits (x : Transition (World Pubkey) (Action Pubkey)) (i : Instruction Pubkey) : Prop :=
  ∃ now, x.label = .accepted now i ∨ x.label = .rejected now i

/-- What one step can do to the records: the two ledger instructions create one where
nothing was, and nothing else touches them. -/
inductive RecordStep (rt : Runtime Pubkey) (s : World Pubkey) :
    Action Pubkey → World Pubkey → Prop
  | settled {s' : World Pubkey} {now : Int64} {accs : SettlePayment Pubkey} {n : UInt64}
      {params : SettlePaymentParams Pubkey} {ctx : SettlePayment.Loaded Pubkey}
      {protocol : PaymentProtocol} :
      s.Free accs.paymentRecord →
      s'.record = Function.update s.record accs.paymentRecord
        (some (PaymentRecord.settlement accs.agentWallet ctx.payee.owner n params protocol now
          ctx.recordBump)) →
      RecordStep rt s (.accepted now (.settlePayment accs n params)) s'
  | violated {s' : World Pubkey} {now : Int64} {accs : RecordPolicyViolation Pubkey} {n : UInt64}
      {params : SettlePaymentParams Pubkey} {reason : UInt8} {protocol : PaymentProtocol}
      {bump : UInt8} :
      s.Free accs.paymentRecord →
      s'.record = Function.update s.record accs.paymentRecord
        (some (PaymentRecord.violation accs.agentWallet n params protocol now bump)) →
      RecordStep rt s (.accepted now (.recordPolicyViolation accs n params reason)) s'
  | untouched {act : Action Pubkey} {s' : World Pubkey} :
      s'.record = s.record → RecordStep rt s act s'

theorem recordStep (h : Step rt s act s') : RecordStep rt s act s' := by
  cases h with
  | rejected _ => exact .untouched rfl
  | outside h => exact .untouched (outside_views h).record
  | accepted he =>
    cases (execute_effect he).2 with
    | initProtocol _ _ _ hv => exact .untouched hv.record
    | rotateProtocolAdmin _ h => exact .untouched h.views.record
    | updateProtocolConfig h => exact .untouched h.views.record
    | registerAgent h => exact .untouched h.views.record
    | setSpendPolicy h => exact .untouched h.views.record
    | settlePayment h =>
      obtain ⟨_, hv⟩ := h.views
      exact .settled h.validates.record_free hv.record
    | recordPolicyViolation h =>
      obtain ⟨_, _, hv⟩ := h.views
      exact .violated h.validates.record_free hv.record
    | deactivateAgent _ h => exact .untouched h.views.record
    | reactivateAgent _ h => exact .untouched h.views.record
    | freezeAgent _ _ _ h => exact .untouched h.views.record
    | unfreezeAgent _ _ _ h => exact .untouched h.views.record
    | withdrawFunds h => exact .untouched h.views.record
    | withdrawAll h => exact .untouched h.views.record
    | transferOwnership _ _ _ h => exact .untouched h.views.record
    | closeAgent h => exact .untouched h.views.record

omit [Inhabited Pubkey] in
theorem record_update {r r' : PaymentRecord Pubkey} {b : Pubkey} (hfree : s.Free b)
    (hs : s'.record = Function.update s.record b (some r')) (hr : s.record a = some r) :
    s'.record a = some r := by
  have hne : a ≠ b := by
    rintro rfl
    rw [(free_iff.mp hfree).2.2.2] at hr
    cases hr
  rw [hs, Function.update_of_ne hne]
  exact hr

/-- No step changes or removes a record. -/
theorem record_persists {r : PaymentRecord Pubkey} (h : Step rt s act s')
    (hr : s.record a = some r) : s'.record a = some r := by
  cases recordStep h with
  | settled hfree hs => exact record_update hfree hs hr
  | violated hfree hs => exact record_update hfree hs hr
  | untouched hs =>
    rw [hs]
    exact hr

theorem recordAt_persists {r : PaymentRecord Pubkey} (h : Step rt s act s')
    (hr : recordAt rt s k n = some r) : recordAt rt s' k n = some r := by
  obtain ⟨a, bump, ha⟩ := exists_slot rt k n
  rw [recordAt_of_find ha] at hr ⊢
  exact record_persists h hr

/-- Writing a slot takes it from free to used. -/
theorem writesSlot_records {x : Transition (World Pubkey) (Action Pubkey)}
    (hs : Step rt x.pre x.label x.post) (h : WritesSlot k n x) :
    recordAt rt x.pre k n = none ∧ recordAt rt x.post k n ≠ none := by
  rcases h with ⟨accs, params, ⟨now, hl⟩, rfl⟩ | ⟨accs, params, reason, ⟨now, hl⟩, rfl⟩
  · rw [hl] at hs
    cases (step_effect hs).2 with
    | settlePayment h =>
      obtain ⟨_, ha⟩ := settled_appends h
      rw [h.passed.sequence, ha.slots, if_pos rfl]
      exact ⟨ha.free, Option.some_ne_none _⟩
  · rw [hl] at hs
    cases (step_effect hs).2 with
    | recordPolicyViolation h =>
      obtain ⟨_, ha⟩ := violated_appends h
      rw [h.sequence_eq, ha.slots, if_pos rfl]
      exact ⟨ha.free, Option.some_ne_none _⟩

/-- A record that exists at some point of a run is there ever after. -/
theorem record_run {r : PaymentRecord Pubkey} (h : Reaches rt s tr s')
    (hr : s.record a = some r) : s'.record a = some r :=
  run_preserves (I := fun t => t.record a = some r) h hr fun _ _ hs hI => record_persists hs hI

theorem recordAt_run {r : PaymentRecord Pubkey} (h : Reaches rt s tr s')
    (hr : recordAt rt s k n = some r) : recordAt rt s' k n = some r :=
  run_preserves (I := fun t => recordAt rt t k n = some r) h hr
    fun _ _ hs hI => recordAt_persists hs hI

/-- A slot is free when it is written, so two writes of it cannot both succeed. -/
theorem slot_once {x y : Transition (World Pubkey) (Action Pubkey)} {m : Trace Pubkey}
    (hx : Step rt x.pre x.label x.post) (hm : Reaches rt x.post m y.pre)
    (hy : Step rt y.pre y.label y.post) (hwx : WritesSlot k n x) : ¬ WritesSlot k n y := by
  intro hwy
  obtain ⟨_, hused⟩ := writesSlot_records hx hwx
  obtain ⟨hfree, _⟩ := writesSlot_records hy hwy
  obtain ⟨r, hr⟩ := Option.ne_none_iff_exists'.mp hused
  rw [recordAt_run hm hr] at hfree
  cases hfree

/-- A submission that moved tokens was accepted. -/
theorem moved_accepts {x : Transition (World Pubkey) (Action Pubkey)}
    (hs : Step rt x.pre x.label x.post) (hi : Submits x i)
    (hmoved : x.post.tokens ≠ x.pre.tokens) : Accepts x i := by
  obtain ⟨now, hl | hl⟩ := hi
  · exact ⟨now, hl⟩
  · rw [hl] at hs
    rw [step_rejected hs] at hmoved
    exact absurd rfl hmoved

/-- Over any run, a slot is written at most once, a settlement submitted any number
of times moves tokens at most once, and a record stays as it was written. -/
theorem exactly_once (h : Reaches rt s tr s') :
    (∀ k n, tr.Pairwise fun x y => WritesSlot k n x → ¬ WritesSlot k n y) ∧
    (∀ accs n params, tr.Pairwise fun x y =>
      Submits x (.settlePayment accs n params) → Submits y (.settlePayment accs n params) →
      x.post.tokens ≠ x.pre.tokens → y.post.tokens = y.pre.tokens) ∧
    (∀ k n bump a r, rt.findProgramAddress (.paymentRecord k n) = some (a, bump) →
      ∀ x ∈ tr, x.pre.record a = some r → x.post.record a = some r ∧ s'.record a = some r) := by
  refine ⟨fun k n => ?_, fun accs n params => ?_, fun k n bump a r _ x hx hr => ?_⟩
  · exact run_pairwise h fun x m y hx hm hy hwx => slot_once hx hm hy hwx
  · refine run_pairwise h fun x m y hx hm hy hsx hsy hmoved => ?_
    by_contra hmoved'
    have hwx : WritesSlot accs.agentWallet n x :=
      .inl ⟨accs, params, moved_accepts hx hsx hmoved, rfl⟩
    have hwy : WritesSlot accs.agentWallet n y :=
      .inl ⟨accs, params, moved_accepts hy hsy hmoved', rfl⟩
    exact slot_once hx hm hy hwx hwy
  · obtain ⟨_, m, _, _, hs, hm⟩ := run_split h hx
    have hpost := record_persists hs hr
    exact ⟨hpost, record_run hm hpost⟩

/-- In the opening run slot 0 is written by one of the five submissions. -/
theorem exactly_once_opening :
    (replay Key.runtime Demo.chain Demo.opening).Pairwise fun x y =>
      WritesSlot (Demo.wallet Demo.alice) 0 x → ¬ WritesSlot (Demo.wallet Demo.alice) 0 y :=
  (exactly_once (replay_reaches Key.runtime Demo.chain Demo.opening)).1 _ _

/-! ## 2. Used slots are contiguous -/

/-- The slots below the wallet's sequence, and below any used slot, are used. -/
structure Contiguous (rt : Runtime Pubkey) (s : World Pubkey) (k : Pubkey) : Prop where
  wallet : ∀ {w n}, s.wallet k = some w → n < w.paymentSequence → recordAt rt s k n ≠ none
  record : ∀ {n m}, recordAt rt s k n ≠ none → m < n → recordAt rt s k m ≠ none

omit [Inhabited Pubkey] in
theorem genesis_recordAt (h : Genesis rt s) (n : UInt64) : recordAt rt s k n = none := by
  obtain ⟨a, bump, ha⟩ := exists_slot rt k n
  rw [recordAt_of_find ha]
  exact genesis_record h a

omit [Inhabited Pubkey] in
theorem contiguous_genesis (h : Genesis rt s) : Contiguous rt s k := by
  refine ⟨fun {w n} hw => ?_, fun hn => absurd (genesis_recordAt h _) hn⟩
  rw [genesis_wallet h] at hw
  cases hw

theorem lt_saturatingAdd_one {n m : UInt64} (h : n < saturatingAdd m 1) : n < m ∨ n = m := by
  rw [UInt64.lt_iff_toNat_lt, toNat_saturatingAdd] at h
  rw [UInt64.lt_iff_toNat_lt, ← UInt64.toNat_inj]
  have hone : (1 : UInt64).toNat = 1 := rfl
  omega

omit [DecidableEq Pubkey] [Inhabited Pubkey] in
theorem contiguous_appends {w w' : AgentWallet Pubkey} {r : PaymentRecord Pubkey}
    (hc : Contiguous rt s k) (h : Appends rt k s s' w w' r) : Contiguous rt s' k := by
  have hused : ∀ {m}, m = w.paymentSequence ∨ recordAt rt s k m ≠ none →
      recordAt rt s' k m ≠ none := by
    intro m hm
    rw [h.slots]
    split
    · exact Option.some_ne_none _
    · next hne => exact hm.resolve_left hne
  refine ⟨fun {v n} hv hn => ?_, fun {n m} hn hm => ?_⟩
  · rw [h.after] at hv
    cases hv
    rw [h.sequence] at hn
    rcases lt_saturatingAdd_one hn with hn | rfl
    · exact hused (.inr (hc.wallet h.before hn))
    · exact hused (.inl rfl)
  · rw [h.slots] at hn
    split at hn
    · next he =>
      rw [he] at hm
      exact hused (.inr (hc.wallet h.before hm))
    · exact hused (.inr (hc.record hn hm))

omit [DecidableEq Pubkey] [Inhabited Pubkey] in
/-- A step that writes no slot, and leaves a wallet with the sequence it had or 0. -/
theorem contiguous_kept (hc : Contiguous rt s k)
    (hr : ∀ n, recordAt rt s' k n = recordAt rt s k n)
    (hw : ∀ v, s'.wallet k = some v → v.paymentSequence = 0 ∨
      ∃ w, s.wallet k = some w ∧ v.paymentSequence = w.paymentSequence) :
    Contiguous rt s' k := by
  refine ⟨fun {v n} hv hn => ?_, fun {n m} => ?_⟩
  · rcases hw v hv with h0 | ⟨w, hw, hseq⟩
    · rw [h0] at hn
      exact absurd hn UInt64.not_lt_zero
    · rw [hseq] at hn
      rw [hr]
      exact hc.wallet hw hn
  · rw [hr, hr]
    exact hc.record

theorem contiguous_step (hc : Contiguous rt s k) (h : Step rt s act s') :
    Contiguous rt s' k := by
  cases walletStep h k with
  | settled hk h =>
    subst hk
    obtain ⟨_, ha⟩ := settled_appends h
    exact contiguous_appends hc ha
  | violated hk h =>
    subst hk
    obtain ⟨_, ha⟩ := violated_appends h
    exact contiguous_appends hc ha
  | registered hk h =>
    subst hk
    refine contiguous_kept hc (fun n => recordAt_congr h.views.record) fun v hv => ?_
    rw [h.views.wallet, Function.update_self] at hv
    cases hv
    exact .inl rfl
  | closed hk h =>
    subst hk
    refine contiguous_kept hc (fun n => recordAt_congr h.views.record) fun v hv => ?_
    rw [h.views.wallet, Function.update_self] at hv
    cases hv
  | edited he h =>
    refine contiguous_kept hc (fun n => recordAt_congr h.views.record) fun v hv => ?_
    rw [h.views.wallet, Function.update_self] at hv
    cases hv
    obtain ⟨_, _, _, rfl⟩ := walletEdit_frame he
    exact .inr ⟨_, h.wallet, rfl⟩
  | untouched hw hr =>
    refine contiguous_kept hc hr fun v hv => ?_
    rw [hw] at hv
    exact .inr ⟨v, hv, rfl⟩

theorem reachable_contiguous (h : Reachable rt s) (k : Pubkey) : Contiguous rt s k :=
  reachable_invariant (I := fun t => Contiguous rt t k) h (fun _ => contiguous_genesis)
    fun _ _ _ _ hs hc => contiguous_step hc hs

omit [DecidableEq Pubkey] [Inhabited Pubkey] in
/-- With slot 0 free, the whole ledger is empty. -/
theorem ledger_empty (hc : Contiguous rt s k) (h : recordAt rt s k 0 = none) (n : UInt64) :
    recordAt rt s k n = none := by
  by_contra hn
  rcases eq_or_ne n 0 with rfl | h0
  · exact hn h
  · exact hc.record hn (UInt64.pos_iff_ne_zero.mpr h0) h

/-! ## 3. The next slot -/

/-- The slots from the wallet's sequence on are free, below the largest sequence. -/
def NextFree (rt : Runtime Pubkey) (s : World Pubkey) (k : Pubkey) : Prop :=
  ∀ w, s.wallet k = some w → w.paymentSequence.toNat < u64Max →
    ∀ n, w.paymentSequence ≤ n → recordAt rt s k n = none

/-- The transition registers a wallet at `k`, where there already is a record. -/
def ReusesLedger (rt : Runtime Pubkey) (k : Pubkey)
    (x : Transition (World Pubkey) (Action Pubkey)) : Prop :=
  ∃ accs agentId, Accepts x (.registerAgent accs agentId) ∧ accs.agentWallet = k ∧
    recordAt rt x.pre k 0 ≠ none

omit [DecidableEq Pubkey] [Inhabited Pubkey] in
theorem nextFree_appends {w w' : AgentWallet Pubkey} {r : PaymentRecord Pubkey}
    (hf : NextFree rt s k) (h : Appends rt k s s' w w' r) : NextFree rt s' k := by
  intro v hv hlt n hn
  rw [h.after] at hv
  cases hv
  have hone : (1 : UInt64).toNat = 1 := rfl
  have hseq : w'.paymentSequence.toNat = w.paymentSequence.toNat + 1 := by
    rw [h.sequence, toNat_saturatingAdd] at hlt ⊢
    omega
  rw [UInt64.le_iff_toNat_le] at hn
  have hne : n ≠ w.paymentSequence := by
    rintro rfl
    omega
  rw [h.slots, if_neg hne]
  exact hf w h.before (by omega) n (UInt64.le_iff_toNat_le.mpr (by omega))

theorem nextFree_step {x : Transition (World Pubkey) (Action Pubkey)}
    (hc : Contiguous rt x.pre k) (hreg : ¬ ReusesLedger rt k x)
    (hs : Step rt x.pre x.label x.post) (hf : NextFree rt x.pre k) : NextFree rt x.post k := by
  obtain ⟨s, act, s'⟩ := x
  simp only at hc hs hf ⊢
  cases walletStep hs k with
  | settled hk h =>
    subst hk
    obtain ⟨_, ha⟩ := settled_appends h
    exact nextFree_appends hf ha
  | violated hk h =>
    subst hk
    obtain ⟨_, ha⟩ := violated_appends h
    exact nextFree_appends hf ha
  | registered hk h =>
    subst hk
    intro w _ _ n _
    rw [recordAt_congr h.views.record]
    refine ledger_empty hc ?_ n
    by_contra hne
    exact hreg ⟨_, _, ⟨_, rfl⟩, rfl, hne⟩
  | closed hk h =>
    subst hk
    intro w hw
    rw [h.views.wallet, Function.update_self] at hw
    cases hw
  | edited he h =>
    intro v hv hlt n hn
    rw [h.views.wallet, Function.update_self] at hv
    cases hv
    obtain ⟨_, _, _, rfl⟩ := walletEdit_frame he
    rw [recordAt_congr h.views.record]
    exact hf _ h.wallet hlt n hn
  | untouched hw hr =>
    intro v hv hlt n hn
    rw [hw] at hv
    rw [hr]
    exact hf v hv hlt n hn

omit [Inhabited Pubkey] in
/-- Only a record can be at the address of a slot. -/
theorem slot_free {bump : UInt8} (hwf : WellFormed rt s)
    (ha : rt.findProgramAddress (.paymentRecord k n) = some (a, bump))
    (hf : recordAt rt s k n = none) : s.Free a := by
  rw [recordAt_of_find ha] at hf
  rw [free_iff]
  refine ⟨?_, ?_, ?_, hf⟩ <;> by_contra hne <;>
    obtain ⟨x, hx⟩ := Option.ne_none_iff_exists'.mp hne
  · have hseeds := find_inj rt ha (hwf.config hx)
    cases hseeds
  · have hseeds := find_inj rt ha (hwf.wallet hx)
    cases hseeds
  · have hseeds := find_inj rt ha (hwf.policy hx)
    cases hseeds

/-- The owner can always take a free next slot, with a violation. -/
theorem violation_succeeds {w : AgentWallet Pubkey} (now : Int64) (hwf : WellFormed rt s)
    (hw : s.wallet k = some w) (hsign : rt.canSign w.owner = true)
    (hf : recordAt rt s k w.paymentSequence = none) (params : SettlePaymentParams Pubkey)
    (hid : params.agentId = w.agentId)
    (hprot : (PaymentProtocol.fromDiscriminant params.protocol).isSome = true) (reason : UInt8) :
    ∃ accs s' ev, accs.agentWallet = k ∧ accs.owner = w.owner ∧
      execute rt now (.recordPolicyViolation accs w.paymentSequence params reason) s =
        .ok (s', ev) ∧ s'.wallet k = some w.advance := by
  obtain ⟨a, bump, ha⟩ := exists_slot rt k w.paymentSequence
  obtain ⟨protocol, hp⟩ := Option.isSome_iff_exists.mp hprot
  have hseeds : rt.createProgramAddress (.agentWallet params.agentId) w.bump = some k := by
    rw [hid]
    exact rt.find_create (hwf.wallet hw)
  have hok : ∃ s' ev, execute rt now (.recordPolicyViolation ⟨a, k, w.owner⟩ w.paymentSequence
      params reason) s = .ok (s', ev) := by
    have hval : (⟨a, k, w.owner⟩ : RecordPolicyViolation Pubkey).Validates rt w.paymentSequence
        params.agentId s w bump := ⟨hw, ha, slot_free hwf ha hf, hseeds, rfl⟩
    simp only [execute, handle, recordPolicyViolation, bind_eq_ok, require_eq_ok, Prod.exists,
      violation_tryAccounts_eq_ok, orFail_eq_ok, exists_const, pure_eq_ok]
    exact ⟨_, _, hsign, w, bump, hval, protocol, hp, rfl, rfl⟩
  obtain ⟨s', ev, hex⟩ := hok
  refine ⟨⟨a, k, w.owner⟩, s', ev, rfl, rfl, hex, ?_⟩
  cases (execute_effect hex).2 with
  | recordPolicyViolation h =>
    obtain ⟨_, happ⟩ := violated_appends h
    have hbefore := happ.before
    rw [hw] at hbefore
    cases hbefore
    exact happ.after

/-- The next slot of every wallet below the largest sequence is free: no record sits
in it or above, no ledger instruction for it fails on an account in use, and an owner
that can sign is able to take it. -/
structure SlotsFree (rt : Runtime Pubkey) (s : World Pubkey) : Prop where
  free : ∀ k, NextFree rt s k
  settle : ∀ {k w}, s.wallet k = some w → w.paymentSequence.toNat < u64Max →
    ∀ now accs params, accs.agentWallet = k →
      execute rt now (.settlePayment accs w.paymentSequence params) s ≠
        .error .accountAlreadyInUse
  violation : ∀ {k w}, s.wallet k = some w → w.paymentSequence.toNat < u64Max →
    ∀ now accs params reason, accs.agentWallet = k →
      execute rt now (.recordPolicyViolation accs w.paymentSequence params reason) s ≠
        .error .accountAlreadyInUse
  not_stuck : ∀ {k w}, s.wallet k = some w → w.paymentSequence.toNat < u64Max →
    rt.canSign w.owner = true → ∀ now, ∃ i s' ev w', i.signer = w.owner ∧
      execute rt now i s = .ok (s', ev) ∧ s'.wallet k = some w' ∧
      w'.paymentSequence.toNat = w.paymentSequence.toNat + 1

theorem slotsFree_of_nextFree (hwf : WellFormed rt s) (hf : ∀ k, NextFree rt s k) :
    SlotsFree rt s := by
  have hnext : ∀ {k w}, s.wallet k = some w → w.paymentSequence.toNat < u64Max →
      recordAt rt s k w.paymentSequence = none :=
    fun hw hlt => hf _ _ hw hlt _ (UInt64.le_refl _)
  refine ⟨hf, ?_, ?_, ?_⟩
  · rintro k w hw hlt now accs params rfl
    exact avoids_bind (avoids_require (by decide)) fun _ =>
      settlePayment_avoids fun bump ha => slot_free hwf ha (hnext hw hlt)
  · rintro k w hw hlt now accs params reason rfl
    exact avoids_bind (avoids_require (by decide)) fun _ =>
      recordPolicyViolation_avoids fun bump ha => slot_free hwf ha (hnext hw hlt)
  · intro k w hw hlt hsign now
    obtain ⟨accs, s', ev, hk, ho, hex, hw'⟩ := violation_succeeds now hwf hw hsign
      (hnext hw hlt)
      { agentId := w.agentId, endpointHash := Vector.replicate 32 0
        domainHash := Vector.replicate 32 0, amountUsdc := 0, protocol := 0
        parentPayment := none, memo := none } rfl rfl 0
    refine ⟨.recordPolicyViolation accs w.paymentSequence _ 0, s', ev, w.advance, ho, hex, hw', ?_⟩
    have hone : (1 : UInt64).toNat = 1 := rfl
    simp only [AgentWallet.advance, toNat_saturatingAdd]
    omega

/-- In a run from an unused program, every slot a wallet comes to next is free, in
every state, exactly when no registration lands on an address that already has a
record. -/
theorem slots_free_iff (h0 : Genesis rt s) (h : Reaches rt s tr s') :
    (∀ x ∈ tr, ∀ k, ¬ ReusesLedger rt k x) ↔ ∀ t ∈ visited s tr, SlotsFree rt t := by
  constructor
  · intro hreg t ht
    obtain ⟨l, hl, hr⟩ := run_visited h ht
    have hreach : Reachable rt t := ⟨s, l, h0, hr⟩
    refine slotsFree_of_nextFree (reachable_wellFormed hreach) fun k => ?_
    refine run_preserves (I := fun t => NextFree rt t k) hr ?_ fun x hx hs hf => ?_
    · intro w hw
      rw [genesis_wallet h0] at hw
      cases hw
    · have hpre : Reachable rt x.pre := (reachable_mem (reachable_init h0) hr hx).1
      exact nextFree_step (reachable_contiguous hpre k) (hreg x (hl.subset hx) k) hs hf
  · rintro hfree x hx k ⟨accs, agentId, ⟨now, hl⟩, rfl, hused⟩
    have hs := run_step h hx
    rw [hl] at hs
    cases (step_effect hs).2 with
    | registerAgent hreg =>
      have hslots := (hfree x.post (List.mem_cons_of_mem _ (List.mem_map_of_mem hx))).free
        accs.agentWallet _ (by rw [hreg.views.wallet, Function.update_self])
        (show (0 : UInt64).toNat < u64Max by decide) 0 (UInt64.le_refl _)
      rw [recordAt_congr hreg.views.record] at hslots
      exact hused hslots

/-- A wallet is closed after one violation and its agent registered again, with
another mint. -/
def Demo.reopening : List (Submission Key) :=
  [Demo.register Demo.alice Demo.owner (Demo.mint 0) 100, Demo.violate Demo.alice Demo.owner 0 100,
    Demo.setPolicy Demo.alice Demo.owner 0 0 100, Demo.deactivate Demo.alice Demo.owner 100,
    Demo.close Demo.alice Demo.owner (Demo.mint 2) 100,
    Demo.register Demo.alice Demo.owner (Demo.mint 3) 100]

theorem slots_free_reopening :
    (∀ x ∈ replay Key.runtime Demo.chain Demo.reopening, ∀ k, ¬ ReusesLedger Key.runtime k x) ↔
      ∀ t ∈ visited Demo.chain (replay Key.runtime Demo.chain Demo.reopening),
        SlotsFree Key.runtime t :=
  slots_free_iff Demo.genesis_chain (replay_reaches Key.runtime Demo.chain Demo.reopening)

/-- Not every reachable state has its next slots free. -/
theorem slots_taken : ¬ ∀ s, Reachable Key.runtime s → SlotsFree Key.runtime s := by
  intro h
  have hfree := (h _ ⟨_, _, Demo.genesis_chain,
    replay_reaches Key.runtime Demo.chain Demo.reopening⟩).free (Demo.wallet Demo.alice)
  have hwallet : (submitAll Key.runtime Demo.chain Demo.reopening).wallet
      (Demo.wallet Demo.alice) = some (AgentWallet.registered Demo.alice Demo.owner
        (.associated (Demo.wallet Demo.alice) (Demo.mint 3)) 100 255) := rfl
  have hrecord : (recordAt Key.runtime (submitAll Key.runtime Demo.chain Demo.reopening)
      (Demo.wallet Demo.alice) 0).isSome = true := by decide +kernel
  rw [hfree _ hwallet (by decide) 0 (UInt64.le_refl _)] at hrecord
  cases hrecord

end MaximProtocol
