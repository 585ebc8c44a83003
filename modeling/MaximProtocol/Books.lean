import MaximProtocol.Ledger

/-!
# A wallet's counters and its ledger

From its registration on, and while it is not closed, the counters of a wallet are
functions of its ledger: `Book` says which, `booked_run` that they stay so over every
run whose clock does not go back.

1. the ledger as a list, in the order of the slots;
2. `Book`, and what the two ledger instructions do to it;
3. `booked_run`, by induction over the run;
4. `registered_since`: a wallet was registered, and has stayed open since;
5. `ledger_reconciles`: the totals of a wallet and its records agree.
-/

namespace MaximProtocol

open MachineInt World Transitions Tumbling

variable {Pubkey : Type}

/-! ## 1. The ledger as a list -/

/-- The records in the slots below `n`. -/
def ledger (rt : Runtime Pubkey) (s : World Pubkey) (k : Pubkey) (n : UInt64) :
    List (PaymentRecord Pubkey) :=
  (List.range n.toNat).filterMap fun i => recordAt rt s k (UInt64.ofNat i)

/-- The settlements of a ledger. -/
def passed (l : List (PaymentRecord Pubkey)) : List (PaymentRecord Pubkey) :=
  l.filter fun r => r.policyPassed

def PaymentRecord.charge (r : PaymentRecord Pubkey) : Charge :=
  ⟨r.settledAt.toInt, r.amountUsdc.toNat, false⟩

/-- What a ledger charges to the windows of its wallet. -/
def charges (l : List (PaymentRecord Pubkey)) : List Charge :=
  (passed l).map PaymentRecord.charge

variable {rt : Runtime Pubkey} {s s' : World Pubkey} {k : Pubkey} {n : UInt64}

theorem ledger_congr (h : ∀ n, recordAt rt s' k n = recordAt rt s k n) (n : UInt64) :
    ledger rt s' k n = ledger rt s k n := by
  simp [ledger, h]

theorem mem_ledger {r : PaymentRecord Pubkey} (h : r ∈ ledger rt s k n) :
    ∃ m < n, recordAt rt s k m = some r := by
  simp only [ledger, List.mem_filterMap, List.mem_range] at h
  obtain ⟨i, hi, hr⟩ := h
  refine ⟨UInt64.ofNat i, ?_, hr⟩
  rw [UInt64.lt_iff_toNat_lt, UInt64.toNat_ofNat_of_lt' (hi.trans n.toNat_lt)]
  exact hi

/-- A ledger instruction below the largest sequence puts its record at the end. -/
theorem ledger_appends {w w' : AgentWallet Pubkey} {r : PaymentRecord Pubkey}
    (h : Appends rt k s s' w w' r) (hlt : w.paymentSequence.toNat < u64Max) :
    ledger rt s' k w'.paymentSequence = ledger rt s k w.paymentSequence ++ [r] := by
  have hseq : w'.paymentSequence.toNat = w.paymentSequence.toNat + 1 := by
    have hone : (1 : UInt64).toNat = 1 := rfl
    rw [h.sequence, toNat_saturatingAdd]
    omega
  have hold : ∀ i ∈ List.range w.paymentSequence.toNat,
      recordAt rt s' k (UInt64.ofNat i) = recordAt rt s k (UInt64.ofNat i) := by
    intro i hi
    rw [List.mem_range] at hi
    have hne : UInt64.ofNat i ≠ w.paymentSequence := by
      intro he
      have hi' := congrArg UInt64.toNat he
      rw [UInt64.toNat_ofNat_of_lt' (hi.trans w.paymentSequence.toNat_lt)] at hi'
      omega
    rw [h.slots, if_neg hne]
  unfold ledger
  rw [hseq, List.range_succ, List.filterMap_append, List.filterMap_congr hold]
  simp [h.slots]

section Snoc

variable {l : List (PaymentRecord Pubkey)} {r : PaymentRecord Pubkey}

theorem passed_settlement (h : r.policyPassed = true) : passed (l ++ [r]) = passed l ++ [r] := by
  simp [passed, h]

theorem passed_violation (h : r.policyPassed = false) : passed (l ++ [r]) = passed l := by
  simp [passed, h]

theorem charges_settlement (h : r.policyPassed = true) :
    charges (l ++ [r]) = charges l ++ [r.charge] := by
  simp [charges, passed_settlement h]

theorem charges_violation (h : r.policyPassed = false) : charges (l ++ [r]) = charges l := by
  simp [charges, passed_violation h]

end Snoc

/-! ## 2. The books of a wallet -/

/-- The counters of `w`, registered at clock `t`, as functions of its ledger `l`. -/
structure Book [Inhabited Pubkey] (t : Int) (w : AgentWallet Pubkey)
    (l : List (PaymentRecord Pubkey)) : Prop where
  total_payments : w.totalPayments = w.paymentSequence
  total_volume : w.totalVolume.toNat = min u64Max (total (charges l))
  last_payment : w.lastPaymentAt = ((passed l).getLast?.map (·.settledAt)).getD 0
  window : ∀ h : Horizon, w.window h = chargeAll u64Max h.seconds ⟨t, 0⟩ (charges l)
  violation : ∀ r ∈ l, r.policyPassed = false → r.payee = default ∧ r.parentPayment = none

/-- What the accounting of a payment does to one window. -/
theorem window_accountPayment (w : AgentWallet Pubkey) (now : Int64) (amount : UInt64)
    (h : Horizon) : (w.accountPayment now amount).window h =
      { w.window h with spent := min u64Max ((w.window h).spent + amount.toNat) } := by
  cases h <;> simp [AgentWallet.window, AgentWallet.accountPayment, AgentWallet.advance,
    Horizon.spend, Horizon.windowStart]

/-- A settlement charges every window: the reset rolls it, the accounting adds. -/
theorem window_settlement {w w₁ : AgentWallet Pubkey} {now : Int64} {amount : UInt64}
    (h : Resets now w w₁) (hz : Horizon) (gated : Bool) :
    (w₁.accountPayment now amount).window hz =
      charge u64Max hz.seconds (w.window hz) ⟨now.toInt, amount.toNat, gated⟩ := by
  rw [window_accountPayment, h.window]
  rfl

variable [Inhabited Pubkey] {t : Int} {w w₁ : AgentWallet Pubkey}
variable {l : List (PaymentRecord Pubkey)}

theorem book_registered {agentId : Bytes} {owner token : Pubkey} {now : Int64} {bump : UInt8} :
    Book now.toInt (AgentWallet.registered agentId owner token now bump) [] where
  total_payments := rfl
  total_volume := rfl
  last_payment := rfl
  window h := by cases h <;> rfl
  violation r hr := absurd hr List.not_mem_nil

theorem book_settlement {now : Int64} {amount : UInt64} {r : PaymentRecord Pubkey}
    (hb : Book t w l) (hreset : Resets now w w₁) (hpass : r.policyPassed = true)
    (htime : r.settledAt = now) (hamount : r.amountUsdc = amount) :
    Book t (w₁.accountPayment now amount) (l ++ [r]) := by
  obtain ⟨_, _, _, _, _, _, hframe⟩ := hreset.frame
  have hcharge : r.charge = ⟨now.toInt, amount.toNat, false⟩ := by
    rw [PaymentRecord.charge, htime, hamount]
  refine ⟨?_, ?_, ?_, ?_, ?_⟩
  · have hpay := hb.total_payments
    rw [hframe]
    simp only [AgentWallet.accountPayment, AgentWallet.advance]
    rw [hpay]
  · have hvol := hb.total_volume
    rw [hframe, charges_settlement hpass, total_append, total_singleton, hcharge]
    simp only [AgentWallet.accountPayment, AgentWallet.advance, toNat_saturatingAdd]
    omega
  · rw [passed_settlement hpass, List.getLast?_append, List.getLast?_singleton]
    exact htime.symm
  · intro h
    rw [charges_settlement hpass, chargeAll_snoc, ← hb.window h, hcharge]
    exact window_settlement hreset h false
  · intro r' hr' hfail
    simp only [List.mem_append, List.mem_singleton] at hr'
    rcases hr' with hr' | rfl
    · exact hb.violation r' hr' hfail
    · rw [hpass] at hfail
      cases hfail

theorem book_violation {r : PaymentRecord Pubkey} (hb : Book t w l)
    (hfail : r.policyPassed = false) (hpayee : r.payee = default)
    (hparent : r.parentPayment = none) : Book t w.advance (l ++ [r]) := by
  refine ⟨?_, ?_, ?_, ?_, ?_⟩
  · have hpay := hb.total_payments
    simp only [AgentWallet.advance]
    rw [hpay]
  · rw [charges_violation hfail]
    exact hb.total_volume
  · rw [passed_violation hfail]
    exact hb.last_payment
  · intro h
    rw [charges_violation hfail, ← hb.window h]
    cases h <;> rfl
  · intro r' hr' hfail'
    simp only [List.mem_append, List.mem_singleton] at hr'
    rcases hr' with hr' | rfl
    · exact hb.violation r' hr' hfail'
    · exact ⟨hpayee, hparent⟩

theorem book_edit {o : Pubkey} {a f : Bool} (hb : Book t w l) :
    Book t { w with owner := o, isActive := a, isFrozen := f } l :=
  ⟨hb.total_payments, hb.total_volume, hb.last_payment,
    fun h => (hb.window h) ▸ by cases h <;> rfl, hb.violation⟩

/-! ## 3. Over a run -/

/-- After the history `tr`: the books agree with the ledger, whose times are
readings of the clock, in order. -/
structure Booked (rt : Runtime Pubkey) (k : Pubkey) (t : Int) (tr : Trace Pubkey)
    (s : World Pubkey) (w : AgentWallet Pubkey) : Prop where
  book : Book t w (ledger rt s k w.paymentSequence)
  times : ∀ r ∈ ledger rt s k w.paymentSequence, r.settledAt.toInt ∈ clocks tr
  ordered : (ledger rt s k w.paymentSequence).Pairwise
    fun r r' => r.settledAt.toInt ≤ r'.settledAt.toInt

/-- The wallet at `k` is there, and booked as long as its next slot is free. The slot
is not free once the largest sequence has been used. -/
def BookedAt (rt : Runtime Pubkey) (k : Pubkey) (t : Int) (tr : Trace Pubkey)
    (s : World Pubkey) : Prop :=
  ∃ w, s.wallet k = some w ∧
    (recordAt rt s k w.paymentSequence = none → Booked rt k t tr s w)

/-- `k` is closed as a wallet nowhere in the trace. -/
def StaysOpen (k : Pubkey) (tr : Trace Pubkey) : Prop := ∀ x ∈ tr, ¬ ClosesWallet k x

variable {act : Action Pubkey} {tr : Trace Pubkey} {now : Int64}

omit [Inhabited Pubkey] in
theorem clocks_snoc (hact : act.clock? = some now) :
    clocks (tr ++ [⟨s, act, s'⟩]) = clocks tr ++ [now.toInt] := by
  simp [clocks, hact]

omit [Inhabited Pubkey] in
theorem mem_clocks {x : Transition (World Pubkey) (Action Pubkey)} (hx : x ∈ tr)
    (h : x.label.clock? = some now) : now.toInt ∈ clocks tr :=
  List.mem_filterMap.mpr ⟨x, hx, by rw [h, Option.map_some]⟩

omit [Inhabited Pubkey] in
theorem mem_clocks_append {c : Int} {tr' : Trace Pubkey} (h : c ∈ clocks tr) :
    c ∈ clocks (tr ++ tr') := by
  rw [clocks_append]
  exact List.mem_append_left _ h

theorem bookedAt_appends {w w' : AgentWallet Pubkey} {r : PaymentRecord Pubkey}
    (hb : BookedAt rt k t tr s) (ha : Appends rt k s s' w w' r)
    (hbook : ∀ l, Book t w l → Book t w' (l ++ [r])) (htime : r.settledAt = now)
    (hact : act.clock? = some now) (hclock : ClockOrdered (tr ++ [⟨s, act, s'⟩])) :
    BookedAt rt k t (tr ++ [⟨s, act, s'⟩]) s' := by
  obtain ⟨v, hv, hb⟩ := hb
  rw [ha.before] at hv
  cases hv
  refine ⟨w', ha.after, fun hfree => ?_⟩
  have hb := hb ha.free
  have hlt : w.paymentSequence.toNat < u64Max := by
    -- at the largest sequence the counter stays, and its slot has just been used
    by_contra hmax
    have hle := toNat_le_u64Max w.paymentSequence
    have hsame : w'.paymentSequence = w.paymentSequence := by
      rw [ha.sequence, ← UInt64.toNat_inj, toNat_saturatingAdd]
      omega
    rw [hsame, ha.slots, if_pos rfl] at hfree
    cases hfree
  have hled := ledger_appends ha hlt
  unfold ClockOrdered at hclock
  rw [clocks_snoc hact, List.pairwise_append] at hclock
  refine ⟨?_, ?_, ?_⟩
  · rw [hled]
    exact hbook _ hb.book
  · rw [hled]
    intro r' hr'
    simp only [List.mem_append, List.mem_singleton] at hr'
    rcases hr' with hr' | rfl
    · exact mem_clocks_append (hb.times r' hr')
    · rw [clocks_snoc hact, htime]
      simp
  · rw [hled, List.pairwise_append]
    refine ⟨hb.ordered, List.pairwise_singleton _ _, ?_⟩
    intro r' hr' r'' hr''
    rw [List.mem_singleton] at hr''
    rw [hr'', htime]
    exact hclock.2.2 _ (hb.times r' hr') _ (List.mem_singleton_self _)

/-- A step that leaves the ledger, and the wallet up to its owner and flags. -/
theorem bookedAt_kept {x : Transition (World Pubkey) (Action Pubkey)}
    (hb : BookedAt rt k t tr s) (hr : ∀ n, recordAt rt s' k n = recordAt rt s k n)
    (hw : ∀ w, s.wallet k = some w → ∃ o a f,
      s'.wallet k = some { w with owner := o, isActive := a, isFrozen := f }) :
    BookedAt rt k t (tr ++ [x]) s' := by
  obtain ⟨w, hwk, hb⟩ := hb
  obtain ⟨o, a, f, hw'⟩ := hw w hwk
  refine ⟨_, hw', fun hfree => ?_⟩
  rw [hr] at hfree
  have hb := hb hfree
  refine ⟨?_, ?_, ?_⟩ <;> rw [ledger_congr hr]
  · exact book_edit hb.book
  · exact fun r hmem => mem_clocks_append (hb.times r hmem)
  · exact hb.ordered

variable [DecidableEq Pubkey]

theorem bookedAt_step {x : Transition (World Pubkey) (Action Pubkey)}
    (hopen : ¬ ClosesWallet k x) (hclock : ClockOrdered (tr ++ [x]))
    (hs : Step rt x.pre x.label x.post) (hb : BookedAt rt k t tr x.pre) :
    BookedAt rt k t (tr ++ [x]) x.post := by
  obtain ⟨s, act, s'⟩ := x
  simp only at hs hb ⊢
  cases walletStep hs k with
  | settled hk h =>
    subst hk
    obtain ⟨_, ha⟩ := settled_appends h
    exact bookedAt_appends hb ha
      (fun l hl => book_settlement hl (passed_resets h.passed) rfl rfl rfl) rfl rfl hclock
  | violated hk h =>
    subst hk
    obtain ⟨_, ha⟩ := violated_appends h
    exact bookedAt_appends hb ha (fun l hl => book_violation hl rfl rfl rfl) rfl rfl hclock
  | registered hk h =>
    subst hk
    obtain ⟨w, hw, _⟩ := hb
    rw [(free_iff.mp h.free).2.1] at hw
    cases hw
  | closed hk h => exact absurd ⟨_, ⟨_, rfl⟩, hk⟩ hopen
  | edited he h =>
    refine bookedAt_kept hb (fun n => recordAt_congr h.views.record) fun v hv => ?_
    rw [h.wallet] at hv
    cases hv
    obtain ⟨o, a, f, rfl⟩ := walletEdit_frame he
    exact ⟨o, a, f, by rw [h.views.wallet, Function.update_self]⟩
  | untouched hw hr =>
    exact bookedAt_kept hb hr fun v hv => ⟨v.owner, v.isActive, v.isFrozen, by rw [hw, hv]⟩

/-- From its registration on, a wallet that is not closed is booked. -/
theorem booked_run {accs : RegisterAgent Pubkey} {agentId : Bytes} {bump : UInt8}
    {s₁ : World Pubkey} (hreg : Registers rt now accs agentId s s₁ bump)
    (hr : Reaches rt s₁ tr s') (hopen : StaysOpen accs.agentWallet tr)
    (hclock : ClockOrdered tr) : BookedAt rt accs.agentWallet now.toInt tr s' := by
  refine run_history (I := fun l v => BookedAt rt accs.agentWallet now.toInt l v) hr ?_ ?_
  · refine ⟨_, by rw [hreg.views.wallet, Function.update_self], fun _ => ?_⟩
    refine ⟨book_registered, fun r hmem => ?_, ?_⟩
    · obtain ⟨m, hm, _⟩ := mem_ledger hmem
      exact absurd hm UInt64.not_lt_zero
    · exact List.Pairwise.nil
  · intro l x hl _ hs hb
    refine bookedAt_step (hopen x (hl.subset (by simp))) ?_ hs hb
    obtain ⟨m, rfl⟩ := hl
    unfold ClockOrdered at hclock ⊢
    rw [clocks_append] at hclock
    exact (List.pairwise_append.mp hclock).1

/-! ## 4. Where a wallet comes from -/

/-- `x` registers a wallet at `k`. -/
def RegistersAt (rt : Runtime Pubkey) (k : Pubkey)
    (x : Transition (World Pubkey) (Action Pubkey)) : Prop :=
  ∃ now accs agentId bump, x.label = .accepted now (.registerAgent accs agentId) ∧
    accs.agentWallet = k ∧ Registers rt now accs agentId x.pre x.post bump

/-- A wallet appears at an address only by registration. -/
theorem wallet_none_step {x : Transition (World Pubkey) (Action Pubkey)}
    (hreg : ¬ RegistersAt rt k x) (hs : Step rt x.pre x.label x.post)
    (hnone : x.pre.wallet k = none) :
    x.post.wallet k = none ∧ ∀ n, recordAt rt x.post k n = recordAt rt x.pre k n := by
  obtain ⟨s, act, s'⟩ := x
  simp only at hs hnone ⊢
  cases walletStep hs k with
  | settled hk h =>
    subst hk
    rw [h.validates.wallet] at hnone
    cases hnone
  | violated hk h =>
    subst hk
    rw [h.validates.wallet] at hnone
    cases hnone
  | registered hk h => exact absurd ⟨_, _, _, _, rfl, hk, h⟩ hreg
  | closed hk h =>
    subst hk
    rw [h.wallet] at hnone
    cases hnone
  | edited _ h =>
    rw [h.wallet] at hnone
    cases hnone
  | untouched hw hr => exact ⟨hw.trans hnone, hr⟩

/-- A run to a wallet that was not there before registers it, after a part of the
run that leaves its ledger alone. -/
theorem registration_of_run (h : Reaches rt s tr s') (hnone : s.wallet k = none)
    (hsome : s'.wallet k ≠ none) :
    ∃ l x m, tr = l ++ x :: m ∧ RegistersAt rt k x ∧ Reaches rt x.post m s' ∧
      ∀ n, recordAt rt x.pre k n = recordAt rt s k n := by
  have hfirst : (s'.wallet k = none ∧ ∀ n, recordAt rt s' k n = recordAt rt s k n) ∨
      ∃ l x m, tr = l ++ x :: m ∧ RegistersAt rt k x ∧ Reaches rt x.post m s' ∧
        ∀ n, recordAt rt x.pre k n = recordAt rt s k n := by
    refine run_history (I := fun tr v => (v.wallet k = none ∧
      ∀ n, recordAt rt v k n = recordAt rt s k n) ∨
      ∃ l x m, tr = l ++ x :: m ∧ RegistersAt rt k x ∧ Reaches rt x.post m v ∧
        ∀ n, recordAt rt x.pre k n = recordAt rt s k n) h (.inl ⟨hnone, fun _ => rfl⟩) ?_
    rintro tr x _ _ hs (⟨hw, hr⟩ | ⟨l, y, m, rfl, hy, hm, hr⟩)
    · by_cases hreg : RegistersAt rt k x
      · exact .inr ⟨tr, x, [], rfl, hreg, .nil _, hr⟩
      · obtain ⟨hw', hr'⟩ := wallet_none_step hreg hs hw
        exact .inl ⟨hw', fun n => (hr' n).trans (hr n)⟩
    · exact .inr ⟨l, y, m ++ [x], by simp, hy, hm.snoc hs, hr⟩
  rcases hfirst with ⟨hw, _⟩ | hfound
  · exact absurd hw hsome
  · exact hfound

/-- A wallet that the step does not close is there after it. -/
theorem wallet_stays {x : Transition (World Pubkey) (Action Pubkey)}
    (hs : Step rt x.pre x.label x.post) (hopen : ¬ ClosesWallet k x)
    (hw : x.pre.wallet k ≠ none) : x.post.wallet k ≠ none := by
  obtain ⟨s, act, s'⟩ := x
  cases walletStep hs k with
  | settled hk h =>
    subst hk
    obtain ⟨_, ha⟩ := settled_appends h
    simp [ha.after]
  | violated hk h =>
    subst hk
    obtain ⟨_, ha⟩ := violated_appends h
    simp [ha.after]
  | registered hk h => simp [← hk, h.views.wallet]
  | closed hk _ => exact absurd ⟨_, ⟨_, rfl⟩, hk⟩ hopen
  | edited _ h => simp [h.views.wallet]
  | untouched hw' _ =>
    simp only [hw']
    exact hw

/-- The fields of a wallet that stay as they were registered. -/
structure SameIdentity (w w' : AgentWallet Pubkey) : Prop where
  agentId : w'.agentId = w.agentId
  bump : w'.bump = w.bump
  token : w'.usdcTokenAccount = w.usdcTokenAccount

/-- A wallet was registered in this step, or was there before under the same id. -/
theorem wallet_before {w' : AgentWallet Pubkey} (hs : Step rt s act s')
    (hw : s'.wallet k = some w') :
    RegistersAt rt k ⟨s, act, s'⟩ ∨ ∃ w, s.wallet k = some w ∧ SameIdentity w w' := by
  cases walletStep hs k with
  | settled hk h =>
    subst hk
    obtain ⟨_, ha⟩ := settled_appends h
    obtain ⟨_, _, _, _, _, _, rfl⟩ := (passed_resets h.passed).frame
    rw [ha.after] at hw
    cases hw
    exact .inr ⟨_, ha.before, rfl, rfl, rfl⟩
  | violated hk h =>
    subst hk
    obtain ⟨_, ha⟩ := violated_appends h
    rw [ha.after] at hw
    cases hw
    exact .inr ⟨_, ha.before, rfl, rfl, rfl⟩
  | registered hk h => exact .inl ⟨_, _, _, _, rfl, hk, h⟩
  | closed hk h =>
    rw [h.views.wallet, hk, Function.update_self] at hw
    cases hw
  | edited he h =>
    rw [h.views.wallet, Function.update_self] at hw
    cases hw
    obtain ⟨_, _, _, rfl⟩ := walletEdit_frame he
    exact .inr ⟨_, h.wallet, rfl, rfl, rfl⟩
  | untouched hsame _ =>
    rw [hsame] at hw
    exact .inr ⟨w', hw, rfl, rfl, rfl⟩

/-- A wallet that was closed is gone. -/
theorem closed_gone {x : Transition (World Pubkey) (Action Pubkey)}
    (hs : Step rt x.pre x.label x.post) (h : ClosesWallet k x) : x.post.wallet k = none := by
  obtain ⟨accs, ⟨now, hl⟩, rfl⟩ := h
  rw [hl] at hs
  cases (step_effect hs).2 with
  | closeAgent h => rw [h.views.wallet, Function.update_self]

/-- A wallet that was not there at first was registered, and has stayed open since. -/
theorem registered_since {w : AgentWallet Pubkey} (hr : Reaches rt s tr s')
    (hnone : s.wallet k = none) (hw : s'.wallet k = some w) :
    ∃ l x m, tr = l ++ x :: m ∧ RegistersAt rt k x ∧ Reaches rt x.post m s' ∧ StaysOpen k m := by
  refine run_history (I := fun tr v => ∀ w, v.wallet k = some w → ∃ l x m, tr = l ++ x :: m ∧
    RegistersAt rt k x ∧ Reaches rt x.post m v ∧ StaysOpen k m) hr ?_ ?_ w hw
  · intro w hw
    rw [hnone] at hw
    cases hw
  · intro tr x _ _ hs hI w' hw'
    rcases wallet_before hs hw' with hreg | ⟨w, hw, _⟩
    · exact ⟨tr, x, [], rfl, hreg, .nil _, fun y hy => absurd hy List.not_mem_nil⟩
    · obtain ⟨l, y, m, rfl, hreg, hm, hopen⟩ := hI w hw
      refine ⟨l, y, m ++ [x], by simp, hreg, hm.snoc hs, fun z hz => ?_⟩
      rcases List.mem_append.mp hz with hz | hz
      · exact hopen z hz
      · rw [List.mem_singleton] at hz
        subst hz
        intro hcloses
        rw [closed_gone hs hcloses] at hw'
        cases hw'

/-- While the wallet stays open, the slots from its sequence on stay free. -/
theorem nextFree_run (hc : Contiguous rt s k) (hf : NextFree rt s k) (hw : s.wallet k ≠ none)
    (h : Reaches rt s tr s') (hopen : StaysOpen k tr) : NextFree rt s' k := by
  suffices hall : s'.wallet k ≠ none ∧ Contiguous rt s' k ∧ NextFree rt s' k from hall.2.2
  refine run_preserves (I := fun v => v.wallet k ≠ none ∧ Contiguous rt v k ∧ NextFree rt v k)
    h ⟨hw, hc, hf⟩ ?_
  rintro x hx hs ⟨hw, hc, hf⟩
  refine ⟨wallet_stays hs (hopen x hx) hw, contiguous_step hc hs, nextFree_step hc ?_ hs hf⟩
  rintro ⟨accs, agentId, ⟨now, hl⟩, rfl, _⟩
  rw [hl] at hs
  cases (step_effect hs).2 with
  | registerAgent h => exact hw (free_iff.mp h.free).2.1

/-! ## 5. Ledger and wallet totals reconcile -/

omit [Inhabited Pubkey] in
/-- The record in a slot names its wallet and its sequence. -/
theorem recordAt_fields {r : PaymentRecord Pubkey} (hwf : WellFormed rt s)
    (h : recordAt rt s k n = some r) : r.agentWallet = k ∧ r.sequence = n := by
  obtain ⟨a, bump, ha⟩ := exists_slot rt k n
  rw [recordAt_of_find ha] at h
  have hseeds := find_inj rt ha (hwf.record h)
  simp only [Seeds.paymentRecord.injEq] at hseeds
  exact ⟨hseeds.1.symm, hseeds.2.symm⟩

/-- The ledger of the wallet `w` at `k`, and the totals it keeps. -/
structure Reconciles (rt : Runtime Pubkey) (s : World Pubkey) (k : Pubkey)
    (w : AgentWallet Pubkey) : Prop where
  no_gap : ∀ n < w.paymentSequence, ∃ r, recordAt rt s k n = some r ∧
    r.agentWallet = k ∧ r.sequence = n
  exact : ∀ {a r}, s.record a = some r → r.agentWallet = k →
    r.sequence < w.paymentSequence ∧ recordAt rt s k r.sequence = some r
  total_payments : w.totalPayments = w.paymentSequence
  total_volume : w.totalVolume.toNat = min u64Max
    ((passed (ledger rt s k w.paymentSequence)).map fun r => r.amountUsdc.toNat).sum
  last_payment : w.lastPaymentAt =
    ((passed (ledger rt s k w.paymentSequence)).getLast?.map (·.settledAt)).getD 0
  violation : ∀ r ∈ ledger rt s k w.paymentSequence, r.policyPassed = false →
    r.payee = default ∧ r.parentPayment = none
  ordered : (ledger rt s k w.paymentSequence).Pairwise
    fun r r' => r.settledAt.toInt ≤ r'.settledAt.toInt

omit [Inhabited Pubkey] [DecidableEq Pubkey] in
theorem total_charges (l : List (PaymentRecord Pubkey)) :
    total (charges l) = ((passed l).map fun r => r.amountUsdc.toNat).sum := by
  simp [total, charges, PaymentRecord.charge, Function.comp_def]

/-- In every run of the program, the totals of a wallet that was never closed
agree with its ledger, below the largest sequence. -/
theorem ledger_reconciles {w : AgentWallet Pubkey} (h0 : Genesis rt s) (h : Reaches rt s tr s')
    (hclock : ClockOrdered tr) (hopen : StaysOpen k tr) (hw : s'.wallet k = some w)
    (hlt : w.paymentSequence.toNat < u64Max) : Reconciles rt s' k w := by
  have hreach : Reachable rt s' := ⟨s, tr, h0, h⟩
  have hwf := reachable_wellFormed hreach
  have hcont := reachable_contiguous hreach k
  obtain ⟨l, x, m, rfl, ⟨now, accs, agentId, bump, hl, rfl, hreg⟩, hm, hrec⟩ :=
    registration_of_run h (genesis_wallet h0 k) (by simp [hw])
  have hopen' : StaysOpen accs.agentWallet m := fun y hy => hopen y (by simp [hy])
  have hclock' : ClockOrdered m := by
    unfold ClockOrdered at hclock ⊢
    rw [← List.singleton_append, ← List.append_assoc, clocks_append] at hclock
    exact (List.pairwise_append.mp hclock).2.1
  -- the ledger was empty when the wallet was registered
  have hempty : ∀ n, recordAt rt x.post accs.agentWallet n = none := by
    intro n
    rw [recordAt_congr hreg.views.record, hrec]
    exact genesis_recordAt h0 n
  have hnext : NextFree rt s' accs.agentWallet := by
    refine nextFree_run ⟨fun {v n} hv hn => ?_, fun hn => absurd (hempty _) hn⟩
      (fun _ _ _ n _ => hempty n) ?_ hm hopen'
    · rw [hreg.views.wallet, Function.update_self] at hv
      cases hv
      exact absurd hn UInt64.not_lt_zero
    · simp [hreg.views.wallet]
  obtain ⟨v, hv, hbooked⟩ := booked_run hreg hm hopen' hclock'
  rw [hw] at hv
  cases hv
  have hb := hbooked (hnext w hw hlt _ (UInt64.le_refl _))
  refine ⟨fun n hn => ?_, fun {a r} hr hk => ?_, hb.book.total_payments, ?_,
    hb.book.last_payment, hb.book.violation, hb.ordered⟩
  · obtain ⟨r, hr⟩ := Option.ne_none_iff_exists'.mp (hcont.wallet hw hn)
    exact ⟨r, hr, recordAt_fields hwf hr⟩
  · have haddr := hwf.record hr
    rw [hk] at haddr
    have hslot : recordAt rt s' accs.agentWallet r.sequence = some r := by
      rw [recordAt_of_find haddr]
      exact hr
    refine ⟨?_, hslot⟩
    by_contra hge
    rw [hnext w hw hlt _ (UInt64.not_lt.mp hge)] at hslot
    cases hslot
  · rw [hb.book.total_volume, total_charges]

/-- No agent is closed in the opening run. -/
theorem Demo.opening_open {s : World Key} {l : List (Submission Key)}
    (hl : l ⊆ Demo.opening) : StaysOpen (Demo.wallet Demo.alice) (replay Key.runtime s l) := by
  rintro x hx ⟨accs, hclose, _⟩
  obtain ⟨now, hmem⟩ := accepts_mem hx hclose
  have hmem := hl hmem
  simp [Demo.opening, Demo.spending, Demo.initProtocol, Demo.register, Demo.setPolicy,
    Demo.settle, Demo.violate] at hmem

/-- The opening run leaves a wallet with one settlement and one violation. -/
theorem ledger_reconciles_opening :
    Reconciles Key.runtime (submitAll Key.runtime Demo.chain Demo.opening)
      (Demo.wallet Demo.alice) Demo.opened := by
  refine ledger_reconciles Demo.genesis_chain
    (replay_reaches Key.runtime Demo.chain Demo.opening) ?_
    (Demo.opening_open (List.Subset.refl _)) rfl (by decide)
  unfold ClockOrdered
  rw [clocks_replay]
  decide

end MaximProtocol
