import MaximProtocol.Budget

/-!
# Authority

Who can change what, over whole runs.

* `undisturbed_run`: without a signature of its owner a wallet keeps every field but
  `is_frozen`, its policy, its records and its funds.
* `frozen_by_admin`, `config_by_admin`: `is_frozen` and the configuration change only by
  the admin of the moment.
* `authority_separation`: all of it, and what it says of a past owner.
-/

namespace MaximProtocol

open MachineInt World Transitions

variable {Pubkey : Type}

/-- The transition is an accepted instruction signed by `K`. -/
def SignedBy (K : Pubkey) (x : Transition (World Pubkey) (Action Pubkey)) : Prop :=
  ∃ now i, x.label = .accepted now i ∧ i.signer = K

/-- The wallet at `k`, its policy, its records and its token accounts, from `s` to `s'`:
nothing but `is_frozen` changed, and no balance went down. -/
structure Undisturbed (rt : Runtime Pubkey) (k : Pubkey) (s s' : World Pubkey) : Prop where
  wallet : ∃ w f, s.wallet k = some w ∧ s'.wallet k = some { w with isFrozen := f }
  policy : ∀ {q bump}, rt.findProgramAddress (.spendPolicy k) = some (q, bump) →
    s'.policy q = s.policy q
  record : ∀ {a r}, s'.record a = some r → r.agentWallet = k → s.record a = some r
  funds : ∀ {a t}, s.tokens a = some t → t.owner = k →
    s.tokens.balance a ≤ s'.tokens.balance a

variable [DecidableEq Pubkey] [Inhabited Pubkey] {rt : Runtime Pubkey} {s s' v v' : World Pubkey}
variable {k a : Pubkey} {now : Int64} {i : Instruction Pubkey} {tr : Trace Pubkey}
variable {x : Transition (World Pubkey) (Action Pubkey)} {w : AgentWallet Pubkey}

/-! ## 1. Without the owner's signature -/

/-- One step that the owner of the wallet at `k` did not sign. -/
theorem unsigned_wallet (hs : Step rt x.pre x.label x.post) (hw : x.pre.wallet k = some w)
    (hsign : ¬ SignedBy w.owner x) :
    (∃ f, x.post.wallet k = some { w with isFrozen := f }) ∧
      ∀ n, recordAt rt x.post k n = recordAt rt x.pre k n := by
  obtain ⟨s, act, s'⟩ := x
  simp only at hs hw ⊢
  have howner : ∀ {now i} {K : Pubkey}, act = .accepted now i → i.signer = K → w.owner ≠ K :=
    fun hact hi he => hsign ⟨_, _, hact, hi.trans he.symm⟩
  cases walletStep hs k with
  | settled hk h =>
    have hw' := h.validates.wallet
    rw [hk, hw] at hw'
    cases hw'
    exact absurd h.validates.owner (howner rfl rfl)
  | violated hk h =>
    have hw' := h.validates.wallet
    rw [hk, hw] at hw'
    cases hw'
    exact absurd h.validates.owner (howner rfl rfl)
  | registered hk h =>
    rw [← hk, (free_iff.mp h.free).2.1] at hw
    cases hw
  | closed hk h =>
    have hw' := h.wallet
    rw [hk, hw] at hw'
    cases hw'
    exact absurd h.owner (howner rfl rfl)
  | edited he h =>
    have hw' := h.wallet
    rw [hw] at hw'
    cases hw'
    refine ⟨?_, fun n => recordAt_congr h.views.record⟩
    rw [h.views.wallet, Function.update_self]
    cases he with
    | deactivate _ ho => exact absurd ho (howner rfl rfl)
    | reactivate _ ho => exact absurd ho (howner rfl rfl)
    | freeze _ _ _ => exact ⟨true, rfl⟩
    | unfreeze _ _ _ => exact ⟨false, rfl⟩
    | owner _ ho _ => exact absurd ho (howner rfl rfl)
  | untouched hw' hr => exact ⟨⟨w.isFrozen, hw'.trans hw⟩, hr⟩

theorem unsigned_policy {q : Pubkey} {bump : UInt8} (hs : Step rt x.pre x.label x.post)
    (hw : x.pre.wallet k = some w) (hsign : ¬ SignedBy w.owner x)
    (hq : rt.findProgramAddress (.spendPolicy k) = some (q, bump)) :
    x.post.policy q = x.pre.policy q := by
  obtain ⟨s, act, s'⟩ := x
  simp only at hs hw ⊢
  have howner : ∀ {now i} {K : Pubkey}, act = .accepted now i → i.signer = K → w.owner ≠ K :=
    fun hact hi he => hsign ⟨_, _, hact, hi.trans he.symm⟩
  cases policyStep hs hq with
  | set hk _ h =>
    have hw' := h.wallet
    rw [hk, hw] at hw'
    cases hw'
    exact absurd h.owner (howner rfl rfl)
  | settled hk _ h =>
    have hw' := h.validates.wallet
    rw [hk, hw] at hw'
    cases hw'
    exact absurd h.validates.owner (howner rfl rfl)
  | closed hk _ h =>
    have hw' := h.wallet
    rw [hk, hw] at hw'
    cases hw'
    exact absurd h.owner (howner rfl rfl)
  | untouched hp => exact hp

/-- A token account of the wallet keeps its owner and what it holds. -/
theorem unsigned_funds {t : TokenAccount Pubkey} (hwf : WellFormed rt x.pre)
    (hs : Step rt x.pre x.label x.post) (hw : x.pre.wallet k = some w)
    (hsign : ¬ SignedBy w.owner x) (ht : x.pre.tokens a = some t) (ho : t.owner = k)
    (hpos : 0 < t.amount) :
    ∃ t', x.post.tokens a = some t' ∧ t'.owner = k ∧ t.amount ≤ t'.amount := by
  subst ho
  refine funds_step hs ht (find_derived rt (hwf.wallet hw)) hpos fun hlow => ?_
  obtain ⟨t', w', now, i, ht', hw', hl, hsigner⟩ := lowers_signed hs hlow
  rw [ht] at ht'
  cases ht'
  rw [hw] at hw'
  cases hw'
  exact hsign ⟨now, i, hl, hsigner⟩

omit [Inhabited Pubkey] in
/-- What `Undisturbed` says of the records, slot by slot. -/
theorem record_of_slots {r : PaymentRecord Pubkey} (hwf : WellFormed rt s')
    (hslots : ∀ n, recordAt rt s' k n = recordAt rt s k n) (hr : s'.record a = some r)
    (hk : r.agentWallet = k) : s.record a = some r := by
  have haddr := hwf.record hr
  rw [hk] at haddr
  have hslot := hslots r.sequence
  rw [recordAt_of_find haddr, recordAt_of_find haddr, hr] at hslot
  exact hslot.symm

/-- What a run that the owner of `w` does not sign keeps, from `s` to `v`. A token account
is followed while it is funded: an empty one may be closed from outside. -/
structure Intact (rt : Runtime Pubkey) (k : Pubkey) (w : AgentWallet Pubkey)
    (s v : World Pubkey) : Prop where
  wallet : ∃ f, v.wallet k = some { w with isFrozen := f }
  slots : ∀ n, recordAt rt v k n = recordAt rt s k n
  policy : ∀ {q bump}, rt.findProgramAddress (.spendPolicy k) = some (q, bump) →
    v.policy q = s.policy q
  funds : ∀ {a t}, s.tokens a = some t → t.owner = k → 0 < t.amount →
    ∃ t', v.tokens a = some t' ∧ t'.owner = k ∧ t.amount ≤ t'.amount

omit [DecidableEq Pubkey] [Inhabited Pubkey] in
theorem intact_refl (hw : s.wallet k = some w) : Intact rt k w s s where
  wallet := ⟨w.isFrozen, hw⟩
  slots _ := rfl
  policy _ := rfl
  funds ht ho _ := ⟨_, ht, ho, UInt64.le_refl _⟩

theorem intact_step (hwf : WellFormed rt x.pre) (hs : Step rt x.pre x.label x.post)
    (hsign : ¬ SignedBy w.owner x) (h : Intact rt k w s x.pre) : Intact rt k w s x.post := by
  obtain ⟨f, hw⟩ := h.wallet
  obtain ⟨hwallet, hslots⟩ := unsigned_wallet hs hw hsign
  refine ⟨hwallet, fun n => (hslots n).trans (h.slots n),
    fun hq => (unsigned_policy hs hw hsign hq).trans (h.policy hq), ?_⟩
  intro a t ht ho hpos
  obtain ⟨t', ht', ho', hle⟩ := h.funds ht ho hpos
  obtain ⟨t'', ht'', ho'', hle'⟩ := unsigned_funds hwf hs hw hsign ht' ho'
    (UInt64.lt_of_lt_of_le hpos hle)
  exact ⟨t'', ht'', ho'', UInt64.le_trans hle hle'⟩

omit [Inhabited Pubkey] in
theorem intact_undisturbed (hwf : WellFormed rt s') (hw : s.wallet k = some w)
    (h : Intact rt k w s s') : Undisturbed rt k s s' := by
  obtain ⟨f, hwallet⟩ := h.wallet
  refine ⟨⟨w, f, hw, hwallet⟩, h.policy, record_of_slots hwf h.slots, fun {a t} ht ho => ?_⟩
  by_cases hpos : 0 < t.amount
  · obtain ⟨t', ht', _, hle⟩ := h.funds ht ho hpos
    simp only [Tokens.balance, ht, ht']
    exact UInt64.le_iff_toNat_le.mp hle
  · have hzero : t.amount = 0 := by
      by_contra hne
      exact hpos (UInt64.pos_iff_ne_zero.mpr hne)
    simp [Tokens.balance, ht, hzero]

/-- A run without a signature of its owner leaves a wallet undisturbed. -/
theorem undisturbed_run (h : Reachable rt s) (hw : s.wallet k = some w)
    (hr : Reaches rt s tr s') (hsign : ∀ x ∈ tr, ¬ SignedBy w.owner x) :
    Undisturbed rt k s s' := by
  refine intact_undisturbed (reachable_wellFormed (reachable_run h hr)) hw ?_
  refine run_preserves (I := fun v => Intact rt k w s v) hr (intact_refl hw) ?_
  intro x hx hs hI
  exact intact_step (reachable_wellFormed (reachable_mem h hr hx).1) hs (hsign x hx) hI

/-! ## 2. What only the admin changes -/

/-- The transition is signed by the admin of the configuration before it. -/
def SignedByAdmin (x : Transition (World Pubkey) (Action Pubkey)) : Prop :=
  ∃ a c, x.pre.config a = some c ∧ SignedBy c.admin x

theorem frozen_by_admin {w' : AgentWallet Pubkey} (hs : Step rt x.pre x.label x.post)
    (hw : x.pre.wallet k = some w) (hw' : x.post.wallet k = some w')
    (hne : w'.isFrozen ≠ w.isFrozen) : SignedByAdmin x := by
  obtain ⟨s, act, s'⟩ := x
  simp only at hs hw hw'
  cases walletStep hs k with
  | settled hk h =>
    obtain ⟨v, v', hv, hv', _, hkept⟩ := settled_kept h
    rw [hk, hw] at hv
    rw [hk, hw'] at hv'
    cases hv
    cases hv'
    exact absurd hkept hne
  | violated hk h =>
    obtain ⟨v, v', hv, hv', _, hkept⟩ := violated_kept h
    rw [hk, hw] at hv
    rw [hk, hw'] at hv'
    cases hv
    cases hv'
    exact absurd hkept hne
  | registered hk h =>
    rw [← hk, (free_iff.mp h.free).2.1] at hw
    cases hw
  | closed hk h =>
    rw [← hk, h.views.wallet, Function.update_self] at hw'
    cases hw'
  | edited he h =>
    have hbefore := h.wallet
    rw [hw] at hbefore
    cases hbefore
    rw [h.views.wallet, Function.update_self] at hw'
    cases hw'
    cases he with
    | deactivate => exact absurd rfl hne
    | reactivate => exact absurd rfl hne
    | freeze _ hc ha => exact ⟨_, _, hc, _, _, rfl, ha.symm⟩
    | unfreeze _ hc ha => exact ⟨_, _, hc, _, _, rfl, ha.symm⟩
    | owner => exact absurd rfl hne
  | untouched hsame _ =>
    rw [hsame, hw] at hw'
    cases hw'
    exact absurd rfl hne

omit [Inhabited Pubkey] in
theorem configured_by_admin {c c' c₀ : ProtocolConfig Pubkey} {b admin : Pubkey}
    (h : Configures rt b admin s s' c c') (hc : s.config a = some c₀) :
    s'.config a = some c₀ ∨ (c₀.admin = admin ∧ s'.config a ≠ none) := by
  rcases eq_or_ne a b with rfl | hab
  · have hbefore := h.config
    rw [hc] at hbefore
    cases hbefore
    exact .inr ⟨h.admin, by rw [h.views.config, Function.update_self]; exact Option.some_ne_none _⟩
  · rw [h.views.config, Function.update_of_ne hab]
    exact .inl hc

/-- Once there, the configuration stays, and changes only by its admin. -/
theorem config_by_admin {c : ProtocolConfig Pubkey} (hs : Step rt x.pre x.label x.post)
    (hc : x.pre.config a = some c) :
    x.post.config a = some c ∨ (SignedBy c.admin x ∧ x.post.config a ≠ none) := by
  obtain ⟨s, act, s'⟩ := x
  simp only at hs hc ⊢
  have hkept : s'.config = s.config → s'.config a = some c := fun hsame => by rw [hsame, hc]
  cases hs with
  | rejected _ => exact .inl hc
  | outside h => exact .inl (hkept (outside_views h).config)
  | accepted he =>
    cases (execute_effect he).2 with
    | initProtocol _ hfree _ hv =>
      have hne : a ≠ _ := fun hab => by
        rw [hab, (free_iff.mp hfree).1] at hc
        cases hc
      rw [hv.config, Function.update_of_ne hne]
      exact .inl hc
    | rotateProtocolAdmin _ h =>
      rcases configured_by_admin h hc with hsame | ⟨ha, hsome⟩
      · exact .inl hsame
      · exact .inr ⟨⟨_, _, rfl, ha.symm⟩, hsome⟩
    | updateProtocolConfig h =>
      rcases configured_by_admin h hc with hsame | ⟨ha, hsome⟩
      · exact .inl hsame
      · exact .inr ⟨⟨_, _, rfl, ha.symm⟩, hsome⟩
    | registerAgent h => exact .inl (hkept h.views.config)
    | setSpendPolicy h => exact .inl (hkept h.views.config)
    | settlePayment h =>
      obtain ⟨_, hv⟩ := h.views
      exact .inl (hkept hv.config)
    | recordPolicyViolation h =>
      obtain ⟨_, _, hv⟩ := h.views
      exact .inl (hkept hv.config)
    | deactivateAgent _ h => exact .inl (hkept h.views.config)
    | reactivateAgent _ h => exact .inl (hkept h.views.config)
    | freezeAgent _ _ _ h => exact .inl (hkept h.views.config)
    | unfreezeAgent _ _ _ h => exact .inl (hkept h.views.config)
    | withdrawFunds h => exact .inl (hkept h.views.config)
    | withdrawAll h => exact .inl (hkept h.views.config)
    | transferOwnership _ _ _ h => exact .inl (hkept h.views.config)
    | closeAgent h => exact .inl (hkept h.views.config)

/-! ## 3. Authority separation -/

/-- Over every run from a reachable state with a wallet at `k`:
without a signature of its owner the wallet is undisturbed; `is_frozen` of any wallet
changes only by the admin of the moment, and so does the configuration; and after a
transfer of ownership the old owner alone can disturb nothing. -/
theorem authority_separation (h : Reachable rt s) (hw : s.wallet k = some w)
    (hr : Reaches rt s tr s') :
    ((∀ x ∈ tr, ¬ SignedBy w.owner x) → Undisturbed rt k s s') ∧
    (∀ x ∈ tr, ∀ b w₁ w₂, x.pre.wallet b = some w₁ → x.post.wallet b = some w₂ →
      w₂.isFrozen ≠ w₁.isFrozen → SignedByAdmin x) ∧
    (∀ x ∈ tr, ∀ a c, x.pre.config a = some c →
      x.post.config a = some c ∨ (SignedBy c.admin x ∧ x.post.config a ≠ none)) ∧
    (∀ l x m accs newOwner, tr = l ++ x :: m → Accepts x (.transferOwnership accs newOwner) →
      (∀ y ∈ m, ∀ K, SignedBy K y → K = accs.owner) →
      Undisturbed rt accs.agentWallet x.post s') := by
  refine ⟨undisturbed_run h hw hr, fun x hx b w₁ w₂ h₁ h₂ hne => ?_, fun x hx a c hc => ?_, ?_⟩
  · exact frozen_by_admin (run_step hr hx) h₁ h₂ hne
  · exact config_by_admin (run_step hr hx) hc
  · rintro l x m accs newOwner rfl ⟨now, hl⟩ hold
    obtain ⟨hl₁, hs, hm⟩ := run_middle hr
    have hreach : Reachable rt x.post := reachable_step (reachable_run h hl₁) hs
    rw [hl] at hs
    cases (step_effect hs).2 with
    | transferOwnership ho _ hne hedit =>
      refine undisturbed_run hreach (by rw [hedit.views.wallet, Function.update_self]) hm ?_
      intro y hy hsy
      exact hne ((hold y hy _ hsy).trans ho.symm)

/-- After the opening run the admin freezes the wallet and a stranger tries to spend. -/
def Demo.meddling : List (Submission Key) :=
  [Demo.freeze Demo.alice 400,
    Demo.settle Demo.alice Demo.stranger 2 (Demo.mint 1)
      (.associated Demo.payee (Demo.mint 1)) 5 500]

theorem authority_separation_meddling :
    Undisturbed Key.runtime (Demo.wallet Demo.alice)
      (submitAll Key.runtime Demo.chain Demo.opening)
      (submitAll Key.runtime (submitAll Key.runtime Demo.chain Demo.opening) Demo.meddling) := by
  have hreach : Reachable Key.runtime (submitAll Key.runtime Demo.chain Demo.opening) :=
    Demo.reachable_chain Demo.opening
  refine (authority_separation (w := Demo.opened) hreach rfl
    (replay_reaches Key.runtime _ Demo.meddling)).1 ?_
  rintro x hx ⟨now, i, hl, hsigner⟩
  obtain ⟨_, hmem⟩ := accepts_mem hx ⟨now, hl⟩
  simp only [Demo.meddling, List.mem_cons, List.not_mem_nil, or_false] at hmem
  rcases hmem with he | he
  · cases he
    cases hsigner
  · cases he
    cases hsigner

end MaximProtocol
