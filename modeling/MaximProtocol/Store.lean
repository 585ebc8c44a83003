import MaximProtocol.Budget

/-!
# The account store

What holds of every account the program owns, in every state it can come to.

1. `StoreSound`: each account is at the address its own fields derive, its fields are
   within their bounds, and a policy has its wallet.
2. `fieldsBounded_step`: where each account comes from, one step back, its fields are in
   bounds.
3. `store_sound`: every reachable state is sound, and the policy of a wallet was set after
   its registration, also where the same agent was registered and closed before.
-/

namespace MaximProtocol

open MachineInt World Transitions

variable {Pubkey : Type}

/-! ## 1. Sound stores -/

/-- An agent id that passes the checks of `register_agent`. -/
structure PermittedId (agentId : Bytes) : Prop where
  nonempty : agentId ≠ []
  length : agentId.length ≤ MAX_AGENT_ID_LEN
  bytes : agentId.all isAgentIdByte = true

/-- The fields of every account keep to the bounds its writers check. -/
structure FieldsBounded (s : World Pubkey) : Prop where
  id : ∀ {k w}, s.wallet k = some w → PermittedId w.agentId
  lists : ∀ {q p}, s.policy q = some p → p.allowedDomainHashes.length ≤ MAX_DOMAIN_ENTRIES ∧
    p.blockedDomainHashes.length ≤ MAX_DOMAIN_ENTRIES
  amount : ∀ {a r}, s.record a = some r → r.policyPassed = true → 0 < r.amountUsdc

/-- Every account is at its own address with its fields in bounds, and no policy is
without its wallet. -/
structure StoreSound (rt : Runtime Pubkey) (s : World Pubkey) : Prop where
  wallet_address : ∀ {k w}, s.wallet k = some w →
    rt.findProgramAddress (.agentWallet w.agentId) = some (k, w.bump)
  policy_address : ∀ {q p}, s.policy q = some p →
    rt.findProgramAddress (.spendPolicy p.agentWallet) = some (q, p.bump)
  policy_wallet : ∀ {q p}, s.policy q = some p → ∃ w, s.wallet p.agentWallet = some w
  record_address : ∀ {a r}, s.record a = some r →
    rt.findProgramAddress (.paymentRecord r.agentWallet r.sequence) = some (a, r.bump)
  fields : FieldsBounded s

/-! ## 2. One step back -/

variable [DecidableEq Pubkey] [Inhabited Pubkey] {rt : Runtime Pubkey} {s s₁ s' : World Pubkey}
variable {act : Action Pubkey} {k q a : Pubkey} {tr : Trace Pubkey} {now : Int64}

/-- A record was there before, or is a violation, or was settled with a positive amount. -/
theorem record_before {r : PaymentRecord Pubkey} (hs : Step rt s act s')
    (hr : s'.record a = some r) :
    s.record a = some r ∨ r.policyPassed = false ∨ 0 < r.amountUsdc := by
  cases recordStep hs with
  | settled _ hrecord =>
    rw [hrecord] at hr
    rcases update_some hr with ⟨_, rfl⟩ | ⟨_, hr⟩
    · cases (step_effect hs).2 with
      | settlePayment h => exact .inr (.inr h.passed.amount)
    · exact .inl hr
  | violated _ hrecord =>
    rw [hrecord] at hr
    rcases update_some hr with ⟨_, rfl⟩ | ⟨_, hr⟩
    · exact .inr (.inl rfl)
    · exact .inl hr
  | untouched hsame =>
    rw [hsame] at hr
    exact .inl hr

theorem fieldsBounded_step (hwf : WellFormed rt s) (hs : Step rt s act s')
    (h : FieldsBounded s) : FieldsBounded s' := by
  refine ⟨fun {k w} hw => ?_, fun {q p} hp => ?_, fun {a r} hr hpass => ?_⟩
  · rcases wallet_before hs hw with ⟨_, _, _, _, _, rfl, hreg⟩ | ⟨w₀, hw₀, hsame⟩
    · rw [hreg.views.wallet, Function.update_self] at hw
      cases hw
      exact ⟨hreg.id_length.1, hreg.id_length.2, hreg.id_bytes⟩
    · rw [hsame.agentId]
      exact h.id hw₀
  · have haddr := (wellFormed_step hwf hs).policy hp
    rcases policy_before hs haddr hp with ⟨_, hset⟩ | ⟨p₀, _, _, hp₀, rfl, _⟩
    · exact ⟨hset.allowed, hset.blocked⟩
    · have hbefore := h.lists hp₀
      exact hbefore
  · rcases record_before hs hr with hr₀ | hfail | hpos
    · exact h.amount hr₀ hpass
    · rw [hfail] at hpass
      cases hpass
    · exact hpos

/-! ## 3. Every reachable store -/

theorem reachable_fieldsBounded (h : Reachable rt s) : FieldsBounded s := by
  refine reachable_invariant h ?_ fun _ _ _ hr hs hI =>
    fieldsBounded_step (reachable_wellFormed hr) hs hI
  intro s h0
  refine ⟨fun {k w} hw => ?_, fun {q p} hp => ?_, fun {a r} hr _ => ?_⟩
  · rw [genesis_wallet h0] at hw
    cases hw
  · rw [genesis_policy h0] at hp
    cases hp
  · rw [genesis_record h0] at hr
    cases hr

theorem reachable_policy_wallet {p : SpendPolicy Pubkey} (h : Reachable rt s)
    (hp : s.policy q = some p) : ∃ w, s.wallet p.agentWallet = some w := by
  refine Option.ne_none_iff_exists'.mp fun hnone => ?_
  rw [policy_needs_wallet h ((reachable_wellFormed h).policy hp) hnone] at hp
  cases hp

/-- A policy that was not there at first was set on the way. -/
theorem policy_since {bump : UInt8} (hr : Reaches rt s tr s')
    (hq : rt.findProgramAddress (.spendPolicy k) = some (q, bump)) (hnone : s.policy q = none) :
    s'.policy q ≠ none → ∃ x ∈ tr, SetsPolicyOf k x := by
  refine run_history (I := fun l v => v.policy q ≠ none → ∃ x ∈ l, SetsPolicyOf k x) hr ?_ ?_
  · exact fun hne => absurd hnone hne
  · intro l x _ _ hs hI hne
    obtain ⟨p, hp⟩ := Option.ne_none_iff_exists'.mp hne
    rcases policy_before hs hq hp with ⟨hset, _⟩ | ⟨p₀, _, _, hp₀, _⟩
    · exact ⟨x, by simp, hset⟩
    · obtain ⟨y, hy, hset⟩ := hI (by simp [hp₀])
      exact ⟨y, List.mem_append_left _ hy, hset⟩

/-- Every reachable store is sound. After a registration, whatever policy the wallet
comes to have was set since. -/
theorem store_sound (h : Reachable rt s) :
    StoreSound rt s ∧
    ∀ {now accs agentId s₁}, Step rt s (.accepted now (.registerAgent accs agentId)) s₁ →
      ∀ {tr s' q p}, Reaches rt s₁ tr s' → s'.policy q = some p →
        p.agentWallet = accs.agentWallet → ∃ x ∈ tr, SetsPolicyOf accs.agentWallet x := by
  have hwf := reachable_wellFormed h
  refine ⟨⟨hwf.wallet, hwf.policy, reachable_policy_wallet h, hwf.record,
    reachable_fieldsBounded h⟩, ?_⟩
  intro now accs agentId s₁ hs tr s' q p hr hp hk
  have haddr := (reachable_wellFormed (reachable_run (reachable_step h hs) hr)).policy hp
  rw [hk] at haddr
  cases (step_effect hs).2 with
  | registerAgent hreg =>
    have hnone : s₁.policy q = none := by
      rw [hreg.views.policy]
      exact policy_needs_wallet h haddr (free_iff.mp hreg.free).2.1
    exact policy_since hr haddr hnone (by simp [hp])

namespace Demo

/-- The first agent was registered under a policy and closed. -/
def closedDown : World Key := submitAll Key.runtime chain (reopening.take 5)

/-- Somebody else registers the agent again. -/
def takeover : Submission Key := register alice stranger (mint 3) 200

def takenOver : World Key := submit Key.runtime closedDown takeover

end Demo

/-- The second owner of the agent is governed by a policy of their own. -/
theorem store_sound_takeover :
    StoreSound Key.runtime Demo.closedDown ∧
      ∃ x ∈ replay Key.runtime Demo.takenOver [Demo.setPolicy Demo.alice Demo.stranger 5 1 200],
        SetsPolicyOf (Demo.wallet Demo.alice) x := by
  have hreach : Reachable Key.runtime Demo.closedDown :=
    Demo.reachable_chain (Demo.reopening.take 5)
  have hok : succeeds Key.runtime Demo.closedDown Demo.takeover = true := by decide +kernel
  have hpolicy : (submitAll Key.runtime Demo.takenOver
      [Demo.setPolicy Demo.alice Demo.stranger 5 1 200]).policy
      (.spendPolicy (Demo.wallet Demo.alice)) = some
      { Demo.openedPolicy with
        dailyBudget := 5, highValueThreshold := 1, rateLimitCallCount := 0
        rateLimitWindowStart := 200 } := rfl
  obtain ⟨hsound, hsince⟩ := store_sound hreach
  exact ⟨hsound, hsince (submit_accepted hok)
    (replay_reaches Key.runtime Demo.takenOver _) hpolicy rfl⟩

end MaximProtocol
