import MaximProtocol.Registration
import MaximProtocol.Library.Links

/-!
# Payment chains

A record can name a parent payment, and the records of a workflow are meant to be
followed from parent to parent up to a root. `settle_payment` stores the caller's
`parent_payment` as it comes.

`traceable_iff`: over a run from an unused program every link leads to an earlier record,
and every record to a root, exactly when every accepted settlement names no parent or a
record that exists.
-/

namespace MaximProtocol

open MachineInt World Transitions Links

variable {Pubkey : Type}

/-- The parent links of the records of a state. -/
def parentLink (s : World Pubkey) : Store Pubkey :=
  fun a => (s.record a).map PaymentRecord.parentPayment

/-- Every accepted settlement of the run names no parent or an existing record. -/
def NamesRecords (tr : Trace Pubkey) : Prop :=
  ∀ x ∈ tr, ∀ accs n params, Accepts x (.settlePayment accs n params) →
    ∀ p, params.parentPayment = some p → ∃ r, x.pre.record p = some r

/-- The payment chains of a run from `s`: a record is created after its parent, and in
every state the links of every record lead to a root and visit no record twice. -/
structure Traceable (s : World Pubkey) (tr : Trace Pubkey) : Prop where
  earlier : ∀ x ∈ tr, ∀ {a r p}, x.pre.record a = none → x.post.record a = some r →
    r.parentPayment = some p → ∃ r', x.pre.record p = some r'
  rooted : ∀ t ∈ visited s tr, ∀ {a r}, t.record a = some r →
    ∃ l, Chain (parentLink t) a l ∧ l.Nodup

variable [DecidableEq Pubkey]
variable {rt : Runtime Pubkey} {s s' : World Pubkey} {tr : Trace Pubkey}
variable {x : Transition (World Pubkey) (Action Pubkey)} {a p : Pubkey}

omit [DecidableEq Pubkey] in
theorem parentLink_eq_none : parentLink s a = none ↔ s.record a = none := by
  simp [parentLink]

theorem parentLink_genesis (h : Genesis rt s) : Rooted (parentLink s) := by
  intro a ha
  exact absurd (parentLink_eq_none.mpr (genesis_record h a)) ha

/-- A new record adds its link. -/
theorem parentLink_write {r : PaymentRecord Pubkey}
    (h : s'.record = Function.update s.record a (some r)) :
    parentLink s' = Function.update (parentLink s) a (some r.parentPayment) := by
  funext b
  unfold parentLink
  rw [h]
  rcases eq_or_ne b a with rfl | hb
  · simp
  · rw [Function.update_of_ne hb, Function.update_of_ne hb]

variable [Inhabited Pubkey]

/-- A step keeps the chains if the parent it records, if any, exists. -/
theorem rooted_step (hs : Step rt x.pre x.label x.post)
    (hnames : ∀ accs n params, Accepts x (.settlePayment accs n params) →
      ∀ p, params.parentPayment = some p → ∃ r, x.pre.record p = some r)
    (h : Rooted (parentLink x.pre)) : Rooted (parentLink x.post) := by
  obtain ⟨s, act, s'⟩ := x
  simp only at hs hnames h ⊢
  cases recordStep hs with
  | settled hfree hr =>
    rw [parentLink_write hr]
    refine rooted_insert h (parentLink_eq_none.mpr (free_iff.mp hfree).2.2.2) fun p hp => ?_
    obtain ⟨r, hr⟩ := hnames _ _ _ ⟨_, rfl⟩ p hp
    rw [Ne, parentLink_eq_none, hr]
    exact Option.some_ne_none r
  | violated hfree hr =>
    rw [parentLink_write hr]
    refine rooted_insert h (parentLink_eq_none.mpr (free_iff.mp hfree).2.2.2) fun p hp => ?_
    cases hp
  | untouched hr =>
    unfold parentLink at h ⊢
    rw [hr]
    exact h

/-- What a step creates names a parent only if a settlement submitted it. -/
theorem created_parent {r : PaymentRecord Pubkey} (hs : Step rt x.pre x.label x.post)
    (hnone : x.pre.record a = none) (hr : x.post.record a = some r)
    (hp : r.parentPayment = some p) :
    ∃ accs n params, Accepts x (.settlePayment accs n params) ∧
      params.parentPayment = some p := by
  obtain ⟨s, act, s'⟩ := x
  simp only at hs hnone hr ⊢
  cases recordStep hs with
  | settled _ hw =>
    rw [hw] at hr
    rcases update_some hr with ⟨_, rfl⟩ | ⟨_, hr⟩
    · exact ⟨_, _, _, ⟨_, rfl⟩, hp⟩
    · rw [hnone] at hr
      cases hr
  | violated _ hw =>
    rw [hw] at hr
    rcases update_some hr with ⟨_, rfl⟩ | ⟨_, hr⟩
    · cases hp
    · rw [hnone] at hr
      cases hr
  | untouched hw =>
    rw [hw, hnone] at hr
    cases hr

/-- The record an accepted settlement creates, with its parent. -/
theorem settled_parent {accs : SettlePayment Pubkey} {n : UInt64}
    {params : SettlePaymentParams Pubkey} (hs : Step rt x.pre x.label x.post)
    (h : Accepts x (.settlePayment accs n params)) :
    x.pre.record accs.paymentRecord = none ∧ ∃ r, x.post.record accs.paymentRecord = some r ∧
      r.parentPayment = params.parentPayment := by
  obtain ⟨now, hl⟩ := h
  rw [hl] at hs
  cases (step_effect hs).2 with
  | settlePayment h =>
    obtain ⟨_, hv⟩ := h.views
    have hcreated := congrFun hv.record accs.paymentRecord
    rw [Function.update_self] at hcreated
    exact ⟨(free_iff.mp h.validates.record_free).2.2.2, _, hcreated, rfl⟩

/-- **Payment chains can be followed to a root**, exactly in the runs whose settlements
name existing records. -/
theorem traceable_iff (h0 : Genesis rt s) (hr : Reaches rt s tr s') :
    Traceable s tr ↔ NamesRecords tr := by
  constructor
  · intro h x hx accs n params hacc p hp
    obtain ⟨hnone, r, hrec, hparent⟩ := settled_parent (run_step hr hx) hacc
    exact h.earlier x hx hnone hrec (hparent.trans hp)
  · intro h
    refine ⟨fun x hx _ _ _ hnone hrec hp => ?_, fun t ht a r hrec => ?_⟩
    · obtain ⟨accs, n, params, hacc, hparams⟩ := created_parent (run_step hr hx) hnone hrec hp
      exact h x hx accs n params hacc _ hparams
    · obtain ⟨l, hl, hrun⟩ := run_visited hr ht
      have hroot : Rooted (parentLink t) :=
        run_preserves (I := fun v => Rooted (parentLink v)) hrun (parentLink_genesis h0)
          fun x hx hs hI => rooted_step hs (h x (hl.subset hx)) hI
      obtain ⟨l, hchain⟩ := hroot a (by rw [Ne, parentLink_eq_none, hrec]; exact fun e => nomatch e)
      exact ⟨l, hchain, chain_nodup hchain⟩

namespace Demo

/-- A settlement that names a parent. -/
def settleUnder (parent : Key) (n : UInt64) (now : Int64) : Submission Key :=
  (now, .settlePayment (settleAccounts alice owner n (mint 1) (.associated payee (mint 1))) n
    { params alice 5 with parentPayment := some parent })

/-- The opening run and a settlement under its first record. -/
def linking : List (Submission Key) :=
  opening ++ [settleUnder (.paymentRecord (wallet alice) 0) 2 400]

/-- The opening run and a settlement under its own record: the address is known before
the record is created. -/
def looping : List (Submission Key) :=
  opening ++ [settleUnder (.paymentRecord (wallet alice) 2) 2 400]

end Demo

theorem traceable_linking :
    Traceable Demo.chain (replay Key.runtime Demo.chain Demo.linking) ↔
      NamesRecords (replay Key.runtime Demo.chain Demo.linking) :=
  traceable_iff Demo.genesis_chain (replay_reaches Key.runtime Demo.chain Demo.linking)

/-- A payment that is its own parent. -/
theorem self_parent : ¬ ∀ (s s' : World Key) tr, Genesis Key.runtime s →
    Reaches Key.runtime s tr s' → Traceable s tr := by
  intro h
  have htrace := h _ _ _ Demo.genesis_chain (replay_reaches Key.runtime Demo.chain Demo.looping)
  have hlast : (submitAll Key.runtime Demo.chain Demo.looping) ∈
      visited Demo.chain (replay Key.runtime Demo.chain Demo.looping) := by
    rw [Demo.looping, replay_append]
    simp [visited, replay, transition, submitAll]
  have hlink : parentLink (submitAll Key.runtime Demo.chain Demo.looping)
      (.paymentRecord (Demo.wallet Demo.alice) 2) =
      some (some (.paymentRecord (Demo.wallet Demo.alice) 2)) := by
    decide +kernel
  obtain ⟨r, hr, _⟩ := Option.map_eq_some_iff.mp hlink
  obtain ⟨l, hl, _⟩ := htrace.rooted _ hlast hr
  exact (chain_parent hl hlink).1 rfl

end MaximProtocol
