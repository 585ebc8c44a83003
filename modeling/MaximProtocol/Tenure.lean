import MaximProtocol.Books

/-!
# Whose ledger it is

The records at a wallet address outlive the wallet: `close_agent` leaves them, and a wallet
registered over them starts at sequence 0, which is used.

1. `retired_run`: from a close over records on, no run writes at the address again.
2. `ledger_tenure`: all records at an address were written by one registration of it.
-/

namespace MaximProtocol

open MachineInt World Transitions

variable {Pubkey : Type} [DecidableEq Pubkey] [Inhabited Pubkey] {rt : Runtime Pubkey}
variable {s s' : World Pubkey} {k : Pubkey} {n i j : UInt64} {tr : Trace Pubkey}
variable {x y : Transition (World Pubkey) (Action Pubkey)}

/-! ## 1. After a close over records -/

/-- There are records at `k`, and a wallet there, if any, has sequence 0. -/
structure Retired (rt : Runtime Pubkey) (s : World Pubkey) (k : Pubkey) : Prop where
  used : recordAt rt s k 0 ≠ none
  sequence : ∀ w, s.wallet k = some w → w.paymentSequence = 0

omit [DecidableEq Pubkey] [Inhabited Pubkey] in
/-- No ledger instruction runs from a retired wallet. -/
theorem retired_blocks {w w' : AgentWallet Pubkey} {r : PaymentRecord Pubkey}
    (h : Retired rt s k) : ¬ Appends rt k s s' w w' r := by
  intro ha
  have hfree := ha.free
  rw [h.sequence w ha.before] at hfree
  exact h.used hfree

omit [DecidableEq Pubkey] [Inhabited Pubkey] in
/-- A step that leaves the ledger, and a wallet at sequence 0. -/
theorem retired_kept (h : Retired rt s k) (hr : ∀ n, recordAt rt s' k n = recordAt rt s k n)
    (hw : ∀ w, s'.wallet k = some w → w.paymentSequence = 0) :
    Retired rt s' k ∧ ∀ n, recordAt rt s' k n = recordAt rt s k n := by
  refine ⟨⟨?_, hw⟩, hr⟩
  rw [hr]
  exact h.used

/-- Each step leaves a retired address retired, and its ledger as it is. -/
theorem retired_step (hs : Step rt x.pre x.label x.post) (h : Retired rt x.pre k) :
    Retired rt x.post k ∧ ∀ n, recordAt rt x.post k n = recordAt rt x.pre k n := by
  obtain ⟨s, act, s'⟩ := x
  simp only at hs h ⊢
  cases walletStep hs k with
  | settled hk h' =>
    subst hk
    obtain ⟨_, ha⟩ := settled_appends h'
    exact absurd ha (retired_blocks h)
  | violated hk h' =>
    subst hk
    obtain ⟨_, ha⟩ := violated_appends h'
    exact absurd ha (retired_blocks h)
  | registered hk h' =>
    subst hk
    refine retired_kept h (fun n => recordAt_congr h'.views.record) fun w hw => ?_
    rw [h'.views.wallet, Function.update_self] at hw
    cases hw
    rfl
  | closed hk h' =>
    subst hk
    refine retired_kept h (fun n => recordAt_congr h'.views.record) fun w hw => ?_
    rw [h'.views.wallet, Function.update_self] at hw
    cases hw
  | edited he h' =>
    refine retired_kept h (fun n => recordAt_congr h'.views.record) fun w hw => ?_
    rw [h'.views.wallet, Function.update_self] at hw
    cases hw
    obtain ⟨_, _, _, rfl⟩ := walletEdit_frame he
    have hseq := h.sequence _ h'.wallet
    exact hseq
  | untouched hw hr =>
    refine retired_kept h hr fun w hw' => ?_
    rw [hw] at hw'
    exact h.sequence w hw'

theorem retired_silent (hs : Step rt x.pre x.label x.post) (h : Retired rt x.pre k) :
    ¬ WritesSlot k n x := by
  intro hw
  obtain ⟨hfree, hused⟩ := writesSlot_records hs hw
  rw [(retired_step hs h).2, hfree] at hused
  exact hused rfl

theorem retired_run (hr : Reaches rt s tr s') (h : Retired rt s k) :
    Retired rt s' k ∧ (∀ y ∈ tr, ∀ n, ¬ WritesSlot k n y) ∧
      ∀ n, recordAt rt s' k n = recordAt rt s k n := by
  refine run_history (I := fun l v => Retired rt v k ∧ (∀ y ∈ l, ∀ n, ¬ WritesSlot k n y) ∧
    ∀ n, recordAt rt v k n = recordAt rt s k n) hr ⟨h, by simp, fun _ => rfl⟩ ?_
  rintro l x _ _ hs ⟨hx, hsilent, hsame⟩
  obtain ⟨hpost, hledger⟩ := retired_step hs hx
  refine ⟨hpost, fun y hy n => ?_, fun n => (hledger n).trans (hsame n)⟩
  rcases List.mem_append.mp hy with hy | hy
  · exact hsilent y hy n
  · rw [List.mem_singleton.mp hy]
    exact retired_silent hs hx

/-- Closing a wallet that has records retires its address. -/
theorem closed_retires (hs : Step rt x.pre x.label x.post) (hclose : ClosesWallet k x)
    (hused : recordAt rt x.pre k 0 ≠ none) : Retired rt x.post k := by
  have hgone := closed_gone hs hclose
  obtain ⟨r, hr⟩ := Option.ne_none_iff_exists'.mp hused
  refine ⟨?_, fun w hw => ?_⟩
  · rw [recordAt_persists hs hr]
    exact Option.some_ne_none r
  · rw [hgone] at hw
    cases hw

/-! ## 2. One registration -/

/-- The transition is a successful registration of the wallet address `k`. -/
def RegistersWallet (k : Pubkey) (x : Transition (World Pubkey) (Action Pubkey)) : Prop :=
  ∃ accs agentId, Accepts x (.registerAgent accs agentId) ∧ accs.agentWallet = k

/-- After any write of the ledger its slot 0 is used. -/
theorem written_used (hc : Contiguous rt x.post k) (hs : Step rt x.pre x.label x.post)
    (hw : WritesSlot k n x) : recordAt rt x.post k 0 ≠ none := by
  obtain ⟨_, hused⟩ := writesSlot_records hs hw
  rcases eq_or_ne n 0 with rfl | h0
  · exact hused
  · exact hc.record hused (UInt64.pos_iff_ne_zero.mpr h0)

/-- A ledger instruction needs a wallet, and leaves one. -/
theorem written_wallet (hs : Step rt x.pre x.label x.post) (hw : WritesSlot k n x) :
    x.post.wallet k ≠ none := by
  rcases hw with ⟨accs, params, ⟨now, hl⟩, rfl⟩ | ⟨accs, params, reason, ⟨now, hl⟩, rfl⟩
  · rw [hl] at hs
    cases (step_effect hs).2 with
    | settlePayment h =>
      obtain ⟨_, ha⟩ := settled_appends h
      simp [ha.after]
  · rw [hl] at hs
    cases (step_effect hs).2 with
    | recordPolicyViolation h =>
      obtain ⟨_, ha⟩ := violated_appends h
      simp [ha.after]

/-- Between two writes of the ledger the wallet is not closed. -/
theorem writes_open {l m r : Trace Pubkey} (h : Reachable rt s)
    (hr : Reaches rt s (l ++ x :: (m ++ y :: r)) s') (hx : WritesSlot k i x)
    (hy : WritesSlot k j y) : StaysOpen k m := by
  intro z hz hclose
  obtain ⟨hl, hxs, hrest⟩ := run_middle hr
  obtain ⟨hm, _, _⟩ := run_middle hrest
  have hc := reachable_contiguous (reachable_step (reachable_run h hl) hxs) k
  obtain ⟨r₀, hr₀⟩ := Option.ne_none_iff_exists'.mp (written_used hc hxs hx)
  obtain ⟨m₁, m₂, rfl, hm₁, hzs, _⟩ := run_split hm hz
  -- the close retires the address, so the second write does not happen
  have hretired := closed_retires hzs hclose (by simp [recordAt_run hm₁ hr₀])
  rw [List.append_assoc, List.cons_append] at hrest
  obtain ⟨_, _, htail⟩ := run_middle hrest
  exact (retired_run htail hretired).2.1 y (by simp) j hy

/-- Nor is it registered. -/
theorem writes_unregistered {l m r : Trace Pubkey} (h : Reachable rt s)
    (hr : Reaches rt s (l ++ x :: (m ++ y :: r)) s') (hx : WritesSlot k i x)
    (hy : WritesSlot k j y) : ∀ z ∈ m, ¬ RegistersWallet k z := by
  rintro z hz ⟨accs, agentId, ⟨now, hlabel⟩, rfl⟩
  have hopen := writes_open h hr hx hy
  obtain ⟨_, hxs, hrest⟩ := run_middle hr
  obtain ⟨hm, _, _⟩ := run_middle hrest
  obtain ⟨m₁, m₂, rfl, hm₁, hzs, _⟩ := run_split hm hz
  -- the wallet of the first write is still there when `z` would register it
  have hthere : z.pre.wallet accs.agentWallet ≠ none :=
    run_preserves (I := fun v => v.wallet accs.agentWallet ≠ none) hm₁ (written_wallet hxs hx)
      fun u hu hs hv => wallet_stays hs (hopen u (by simp [hu])) hv
  rw [hlabel] at hzs
  cases (step_effect hzs).2 with
  | registerAgent hreg => exact hthere (free_iff.mp hreg.free).2.1

/-- **A ledger has one registration.** Once a wallet with records is closed, its address is
never written again by any run, and between two ledger instructions at one address the
wallet there is neither closed nor registered. -/
theorem ledger_tenure (h : Reachable rt s) (hr : Reaches rt s tr s') (k : Pubkey) :
    (∀ l x m, tr = l ++ x :: m → ClosesWallet k x → recordAt rt x.pre k 0 ≠ none →
      (∀ y ∈ m, ∀ n, ¬ WritesSlot k n y) ∧ (∀ n, recordAt rt s' k n = recordAt rt x.pre k n) ∧
        ∀ w, s'.wallet k = some w → w.paymentSequence = 0) ∧
    ∀ l x m y r i j, tr = l ++ x :: (m ++ y :: r) → WritesSlot k i x → WritesSlot k j y →
      ∀ z ∈ m, ¬ ClosesWallet k z ∧ ¬ RegistersWallet k z := by
  constructor
  · rintro l x m rfl hclose hused
    obtain ⟨hl, hs, hm⟩ := run_middle hr
    obtain ⟨hretired, hsilent, hsame⟩ := retired_run hm (closed_retires hs hclose hused)
    refine ⟨hsilent, fun n => (hsame n).trans ?_, hretired.sequence⟩
    obtain ⟨accs, ⟨now, hlabel⟩, _⟩ := hclose
    rw [hlabel] at hs
    cases (step_effect hs).2 with
    | closeAgent hcl => exact recordAt_congr hcl.views.record
  · rintro l x m y r i j rfl hx hy z hz
    exact ⟨writes_open h hr hx hy z hz, writes_unregistered h hr hx hy z hz⟩

/-- A wallet closed over one violation, and its agent registered again. -/
theorem ledger_tenure_reopening :
    (∀ l x m, replay Key.runtime Demo.chain Demo.reopening = l ++ x :: m →
      ClosesWallet (Demo.wallet Demo.alice) x →
      recordAt Key.runtime x.pre (Demo.wallet Demo.alice) 0 ≠ none →
      (∀ y ∈ m, ∀ n, ¬ WritesSlot (Demo.wallet Demo.alice) n y) ∧
      (∀ n, recordAt Key.runtime (submitAll Key.runtime Demo.chain Demo.reopening)
        (Demo.wallet Demo.alice) n = recordAt Key.runtime x.pre (Demo.wallet Demo.alice) n) ∧
      ∀ w, (submitAll Key.runtime Demo.chain Demo.reopening).wallet (Demo.wallet Demo.alice) =
        some w → w.paymentSequence = 0) ∧
    ∀ l x m y r i j, replay Key.runtime Demo.chain Demo.reopening = l ++ x :: (m ++ y :: r) →
      WritesSlot (Demo.wallet Demo.alice) i x → WritesSlot (Demo.wallet Demo.alice) j y →
      ∀ z ∈ m, ¬ ClosesWallet (Demo.wallet Demo.alice) z ∧
        ¬ RegistersWallet (Demo.wallet Demo.alice) z :=
  ledger_tenure (reachable_init Demo.genesis_chain)
    (replay_reaches Key.runtime Demo.chain Demo.reopening) (Demo.wallet Demo.alice)

end MaximProtocol
