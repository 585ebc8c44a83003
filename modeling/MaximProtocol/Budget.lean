import MaximProtocol.Settlements

/-!
# Budgets

1. `ReferenceDecision`: when a payment should pass, read off the ledger and a grid of
   periods through the registration of the wallet.
2. `checks_iff_reference`: `settlePaymentChecks` decides the same on a wallet whose
   books agree with its ledger.
3. `budget_agrees`: so it does on every run from a registration.
4. `sliding_window`: in any interval of one period the enforced settlements sum to at
   most twice the budget, wherever the interval lies on the grid.
-/

namespace MaximProtocol

open MachineInt World Transitions Tumbling

variable {Pubkey : Type}

/-! ## 1. The reference decision -/

instance (p : SpendPolicy Pubkey) (now : Int64) : Decidable (p.RateElapsed now) :=
  inferInstanceAs (Decidable (_ ∧ _))

/-- The calls the rate counter stands for at `now`. -/
def SpendPolicy.rateCount (p : SpendPolicy Pubkey) (now : Int64) : Nat :=
  if p.RateElapsed now then 0 else p.rateLimitCallCount.toNat

/-- What the settlements of a ledger sum to in the period of length `D` that
contains `now`, on the grid through `t`. -/
def spentInPeriod (D t now : Int) (l : List (PaymentRecord Pubkey)) : Nat :=
  (((passed l).filter fun r => periodStart D t now ≤ r.settledAt.toInt ∧
    r.settledAt.toInt < periodStart D t now + D).map fun r => r.amountUsdc.toNat).sum

/-- When a payment from a wallet registered at clock `t`, with ledger `l`, should pass. -/
structure ReferenceDecision (t : Int) (now : Int64) (config : ProtocolConfig Pubkey)
    (wallet : AgentWallet Pubkey) (policy : SpendPolicy Pubkey) (l : List (PaymentRecord Pubkey))
    (sequence : UInt64) (params : SettlePaymentParams Pubkey) : Prop where
  amount : 0 < params.amountUsdc
  protocol : params.protocol = 0 ∨ params.protocol = 1
  sequence : sequence = wallet.paymentSequence
  cap : config.maxSinglePaymentUsdc ≠ 0 → params.amountUsdc ≤ config.maxSinglePaymentUsdc
  active : wallet.isActive = true
  not_frozen : wallet.isFrozen = false
  enforced : policy.highValueThreshold ≠ 0 → policy.highValueThreshold ≤ params.amountUsdc →
    (policy.perCallLimit ≠ 0 → params.amountUsdc ≤ policy.perCallLimit) ∧
    (policy.rateLimitCalls ≠ 0 → policy.rateCount now < policy.rateLimitCalls.toNat) ∧
    params.domainHash ∉ policy.blockedDomainHashes ∧
    (policy.allowedDomainHashes = [] ∨ params.domainHash ∈ policy.allowedDomainHashes) ∧
    ∀ h : Horizon, h.budget policy ≠ 0 →
      min u64Max (params.amountUsdc.toNat + spentInPeriod h.seconds t now.toInt l) ≤
        (h.budget policy).toNat

/-! ## 2. The checks decide the same -/

variable {t : Int} {now : Int64} {config : ProtocolConfig Pubkey} {w : AgentWallet Pubkey}
variable {p : SpendPolicy Pubkey} {l : List (PaymentRecord Pubkey)} {sequence : UInt64}
variable {params : SettlePaymentParams Pubkey}

/-- With no record after `now`, the records from the period's start on are those in it. -/
theorem spentInPeriod_eq {D : Int} (hD : 0 < D) (hl : ∀ r ∈ l, r.settledAt.toInt ≤ now.toInt) :
    spentInPeriod D t now.toInt l =
      spentSince (periodStart D t now.toInt) (charges l) := by
  have hfilter : (passed l).filter (fun r => periodStart D t now.toInt ≤ r.settledAt.toInt ∧
      r.settledAt.toInt < periodStart D t now.toInt + D) =
      (passed l).filter ((fun c : Charge => decide (periodStart D t now.toInt ≤ c.time)) ∘
        PaymentRecord.charge) := by
    apply List.filter_congr
    intro r hr
    have hle := hl r (List.mem_of_mem_filter hr)
    have hlt : now.toInt < periodStart D t now.toInt + D := lt_periodStart_add hD
    rw [Function.comp_apply, decide_eq_decide]
    simp only [PaymentRecord.charge]
    constructor
    · exact fun h => h.1
    · exact fun h => ⟨h, by omega⟩
  rw [spentInPeriod, hfilter, spentSince, charges, List.filter_map, total, List.map_map]
  rfl

theorem fromDiscriminant_isSome {v : UInt8} :
    (PaymentProtocol.fromDiscriminant v).isSome = true ↔ v = 0 ∨ v = 1 := by
  unfold PaymentProtocol.fromDiscriminant
  by_cases h0 : v = 0
  · simp [h0]
  · by_cases h1 : v = 1 <;> simp [h0, h1]

theorem pos_iff_ne_zero64 {a : UInt64} : 0 < a ↔ a ≠ 0 := UInt64.pos_iff_ne_zero

theorem enforceOnChain_iff {amount : UInt64} :
    p.enforceOnChain amount = true ↔ p.highValueThreshold ≠ 0 ∧ p.highValueThreshold ≤ amount := by
  simp [SpendPolicy.enforceOnChain, UInt64.pos_iff_ne_zero]

theorem withinPerCallLimit_iff {amount : UInt64} :
    p.withinPerCallLimit amount = true ↔ (p.perCallLimit ≠ 0 → amount ≤ p.perCallLimit) := by
  simp only [SpendPolicy.withinPerCallLimit, Bool.or_eq_true, beq_iff_eq, decide_eq_true_eq]
  tauto

/-- After its reset the rate counter stands for the calls of its window. -/
theorem withinRateLimit_iff {p₁ : SpendPolicy Pubkey}
    (h : p.resetRateWindowIfElapsed now = .ok p₁) :
    p₁.withinRateLimit = true ↔
      (p.rateLimitCalls ≠ 0 → p.rateCount now < p.rateLimitCalls.toNat) := by
  have hcount : p₁.rateLimitCalls = p.rateLimitCalls ∧
      p₁.rateLimitCallCount.toNat = p.rateCount now := by
    unfold SpendPolicy.rateCount
    rcases resetRate_of_ok h with ⟨he, rfl⟩ | ⟨he, rfl⟩
    · simp [he]
    · simp [he]
  simp only [SpendPolicy.withinRateLimit, Bool.or_eq_true, beq_iff_eq, decide_eq_true_eq,
    UInt32.lt_iff_toNat_lt, hcount.1, hcount.2]
  tauto

theorem budget_ne_zero {b : UInt64} : b.toNat ≠ 0 ↔ b ≠ 0 := by
  rw [ne_eq, ne_eq, ← UInt64.toNat_inj]
  rfl

variable [Inhabited Pubkey]

/-- Rolled to `now`, each window holds what the ledger spent in the current period. -/
theorem rolled_spend {w₁ : AgentWallet Pubkey} (hb : Book t w l) (hreset : Resets now w w₁)
    (hl : ∀ r ∈ l, t ≤ r.settledAt.toInt ∧ r.settledAt.toInt ≤ now.toInt)
    (hord : l.Pairwise fun r r' => r.settledAt.toInt ≤ r'.settledAt.toInt) (ht : t ≤ now.toInt)
    (h : Horizon) :
    (h.spend w₁).toNat = min u64Max (spentInPeriod h.seconds t now.toInt l) := by
  have hcharge : ∀ c ∈ charges l, t ≤ c.time ∧ c.time ≤ now.toInt := by
    intro c hc
    obtain ⟨r, hr, rfl⟩ := List.mem_map.mp hc
    exact hl r (List.mem_of_mem_filter hr)
  have hsorted : (charges l).Pairwise fun c d => c.time ≤ d.time :=
    List.pairwise_map.mpr (hord.sublist List.filter_sublist)
  have hwindow := hreset.window h
  rw [hb.window h, roll_chargeAll h.seconds_pos (fun c hc => (hcharge c hc).1) hsorted ht
    fun c hc => (hcharge c hc).2] at hwindow
  have hspent := congrArg Window.spent hwindow
  rw [spentInPeriod_eq h.seconds_pos fun r hr => (hl r hr).2]
  exact hspent

/-- The three resets and the reset of the rate window do not overflow. -/
theorem resets_in_range (hb : Book t w l)
    (hl : ∀ r ∈ l, t ≤ r.settledAt.toInt ∧ r.settledAt.toInt ≤ now.toInt)
    (hord : l.Pairwise fun r r' => r.settledAt.toInt ≤ r'.settledAt.toInt) (h0 : 0 ≤ t)
    (ht : t ≤ now.toInt) (hmax : now.toInt ≤ 2 ^ 62) :
    ∃ a b c, w.resetDailyWindowIfElapsed now = .ok a ∧
      a.resetWeeklyWindowIfElapsed now = .ok b ∧ b.resetMonthlyWindowIfElapsed now = .ok c := by
  refine resets_succeed (h0.trans ht) fun h => ?_
  have hcharge : ∀ c ∈ charges l, t ≤ c.time ∧ c.time ≤ now.toInt := by
    intro c hc
    obtain ⟨r, hr, rfl⟩ := List.mem_map.mp hc
    exact hl r (List.mem_of_mem_filter hr)
  have hsorted : (charges l).Pairwise fun c d => c.time ≤ d.time :=
    List.pairwise_map.mpr (hord.sublist List.filter_sublist)
  have hstart : (h.windowStart w).toInt =
      (chargeAll u64Max h.seconds ⟨t, 0⟩ (charges l)).start := by
    rw [← hb.window h]
    rfl
  have hlo : t ≤ (h.windowStart w).toInt := by
    rw [hstart]
    exact le_chargeAll_start h.seconds_pos
  have hhi : (h.windowStart w).toInt ≤ now.toInt := by
    rw [hstart]
    exact (chargeAll_tracks h.seconds_pos (fun c hc => (hcharge c hc).1) hsorted).start_le _ ht
      fun c hc => (hcharge c hc).2
  have hsec := h.seconds_le
  omega

/-- On a wallet whose books agree with its ledger, the checks of a settlement pass
exactly when the reference decision does. -/
theorem checks_iff_reference (hb : Book t w l)
    (hl : ∀ r ∈ l, t ≤ r.settledAt.toInt ∧ r.settledAt.toInt ≤ now.toInt)
    (hord : l.Pairwise fun r r' => r.settledAt.toInt ≤ r'.settledAt.toInt) (h0 : 0 ≤ t)
    (ht : t ≤ now.toInt) (hmax : now.toInt ≤ 2 ^ 62)
    (hrate : 0 ≤ p.rateLimitWindowStart.toInt ∧ p.rateLimitWindowStart.toInt ≤ 2 ^ 62) :
    (∃ r, settlePaymentChecks now config w p sequence params = .ok r) ↔
      ReferenceDecision t now config w p l sequence params := by
  have hspend : ∀ {w₁ : AgentWallet Pubkey} (_ : Resets now w w₁) (h : Horizon),
      min u64Max ((h.spend w₁).toNat + params.amountUsdc.toNat) =
        min u64Max (params.amountUsdc.toNat + spentInPeriod h.seconds t now.toInt l) := by
    intro w₁ hreset h
    rw [rolled_spend hb hreset hl hord ht h]
    omega
  constructor
  · rintro ⟨⟨w₁, q⟩, hok⟩
    have h := settlePaymentChecks_eq_ok.mp hok
    have hreset := passed_resets h
    refine ⟨h.amount, fromDiscriminant_isSome.mp h.protocol, h.sequence,
      fun hc => h.cap (pos_iff_ne_zero64.mpr hc), h.active, h.not_frozen, fun h1 h2 => ?_⟩
    have he := h.enforced (enforceOnChain_iff.mpr ⟨h1, h2⟩)
    obtain ⟨p₁, hp₁, hlimit, _⟩ := he.rate
    refine ⟨withinPerCallLimit_iff.mp he.per_call, (withinRateLimit_iff hp₁).mp hlimit,
      he.not_blocked, he.allowed, fun hz hbud => ?_⟩
    rw [← hspend hreset hz]
    exact he.budget hz (budget_ne_zero.mpr hbud)
  · intro h
    obtain ⟨a, b, c, hd, hwk, hm⟩ := resets_in_range hb hl hord h0 ht hmax
    have hreset := resets_of_ok hd hwk hm
    have hcap := fun hc => h.cap (pos_iff_ne_zero64.mp hc)
    cases he : p.enforceOnChain params.amountUsdc with
    | false =>
      exact ⟨(c, p), settlePaymentChecks_eq_ok.mpr ⟨h.amount,
        fromDiscriminant_isSome.mpr h.protocol, h.sequence, hcap, h.active, h.not_frozen,
        ⟨a, b, hd, hwk, hm⟩, by simp [he], fun _ => rfl⟩⟩
    | true =>
      obtain ⟨h1, h2⟩ := enforceOnChain_iff.mp he
      obtain ⟨hcall, hlimit, hblock, hallow, hbudget⟩ := h.enforced h1 h2
      obtain ⟨p₁, hp₁⟩ : ∃ p₁, p.resetRateWindowIfElapsed now = .ok p₁ :=
        resetRate_succeeds hrate.1 (by omega)
      have henf : Enforced now c p params
          { p₁ with rateLimitCallCount := saturatingAdd32 p₁.rateLimitCallCount 1 } :=
        ⟨withinPerCallLimit_iff.mpr hcall, fun hz hbud => by
            rw [hspend hreset hz]
            exact hbudget hz (budget_ne_zero.mp hbud),
          ⟨p₁, hp₁, (withinRateLimit_iff hp₁).mpr hlimit, rfl⟩, hblock, hallow⟩
      exact ⟨(c, _), settlePaymentChecks_eq_ok.mpr ⟨h.amount,
        fromDiscriminant_isSome.mpr h.protocol, h.sequence, hcap, h.active, h.not_frozen,
        ⟨a, b, hd, hwk, hm⟩, fun _ => henf, by simp [he]⟩⟩

/-! ## 3. Over a run -/

variable [DecidableEq Pubkey] {rt : Runtime Pubkey} {s s₁ s' : World Pubkey} {k q : Pubkey}
variable {bump : UInt8} {act : Action Pubkey} {tr : Trace Pubkey}

theorem policy_needs_wallet_step (hwf : WellFormed rt s) (hs : Step rt s act s')
    (hq : rt.findProgramAddress (.spendPolicy k) = some (q, bump))
    (hI : s.wallet k = none → s.policy q = none) : s'.wallet k = none → s'.policy q = none := by
  intro hnone
  cases policyStep hs hq with
  | set hk _ h =>
    rw [h.views.wallet, ← hk, h.wallet] at hnone
    cases hnone
  | settled hk _ h =>
    obtain ⟨_, hv⟩ := h.views
    rw [hv.wallet, hk, Function.update_self] at hnone
    cases hnone
  | closed _ hq' h => rw [h.views.policy, hq', Function.update_self]
  | untouched hp =>
    by_cases hclose : ClosesWallet k ⟨s, act, s'⟩
    · -- `close_agent` closes the policy at the canonical address too, which is `q`
      obtain ⟨accs, ⟨now, rfl⟩, hk⟩ := hclose
      cases (step_effect hs).2 with
      | closeAgent h =>
        have haddr := hwf.policy h.policy
        rw [← policy_seeds_inj h.policy_seeds haddr, hk, hq] at haddr
        cases haddr
        rw [h.views.policy, Function.update_self]
    · rw [hp]
      exact hI (by_contra fun hw => wallet_stays hs hclose hw hnone)

/-- A policy goes when its wallet does. -/
theorem policy_needs_wallet (h : Reachable rt s)
    (hq : rt.findProgramAddress (.spendPolicy k) = some (q, bump)) (hnone : s.wallet k = none) :
    s.policy q = none := by
  refine reachable_invariant (I := fun v => v.wallet k = none → v.policy q = none) h ?_ ?_ hnone
  · exact fun s h0 _ => genesis_policy h0 q
  · exact fun s a t hr hs hI => policy_needs_wallet_step (reachable_wellFormed hr) hs hq hI

/-- The rate window of a policy starts at a reading of the clock. -/
theorem rateStart_run (h : Reaches rt s tr s')
    (hq : rt.findProgramAddress (.spendPolicy k) = some (q, bump)) (hnone : s.policy q = none) :
    ∀ p, s'.policy q = some p → p.rateLimitWindowStart.toInt ∈ clocks tr := by
  refine run_history (I := fun tr v => ∀ p, v.policy q = some p →
    p.rateLimitWindowStart.toInt ∈ clocks tr) h ?_ ?_
  · intro p hp
    rw [hnone] at hp
    cases hp
  · intro l x _ _ hs hI p hp
    rcases policy_before hs hq hp with ⟨_, hset⟩ | ⟨p₀, n, t, hp₀, rfl, hclock | rfl⟩
    · exact mem_clocks (x := x) (by simp) hset.clock
    · exact mem_clocks (x := x) (by simp) hclock
    · exact mem_clocks_append (hI p₀ hp₀)

/-- From the registration of a wallet at clock `t` on, at every attempted settlement
whose accounts validate, the checks of `settle_payment` pass exactly when the reference
decision over the wallet's ledger does. -/
theorem budget_agrees {t : Int64} {reg : RegisterAgent Pubkey} {agentId : Bytes}
    {accs : SettlePayment Pubkey} {ctx : SettlePayment.Loaded Pubkey} (h : Reachable rt s)
    (hreg : Step rt s (.accepted t (.registerAgent reg agentId)) s₁)
    (hrun : Reaches rt s₁ tr s') (hopen : StaysOpen reg.agentWallet tr)
    (hclock : (t.toInt :: (clocks tr ++ [now.toInt])).Pairwise (· ≤ ·))
    (hrange : ∀ c ∈ t.toInt :: (clocks tr ++ [now.toInt]), 0 ≤ c ∧ c ≤ 2 ^ 62)
    (hk : accs.agentWallet = reg.agentWallet)
    (hv : accs.tryAccounts rt sequence params.agentId s' = .ok ctx) :
    (∃ r, settlePaymentChecks now ctx.config ctx.wallet ctx.policy sequence params = .ok r) ↔
      ReferenceDecision t.toInt now ctx.config ctx.wallet ctx.policy
        (ledger rt s' accs.agentWallet ctx.wallet.paymentSequence) sequence params := by
  rw [settle_tryAccounts_eq_ok] at hv
  by_cases hseq : sequence = ctx.wallet.paymentSequence
  · obtain ⟨hafter, hsorted⟩ := List.pairwise_cons.mp hclock
    obtain ⟨hsorted, _, hbefore⟩ := List.pairwise_append.mp hsorted
    have hreach : Reachable rt s' := reachable_run (reachable_step h hreg) hrun
    have hq : rt.findProgramAddress (.spendPolicy accs.agentWallet) =
        some (accs.spendPolicy, ctx.policy.bump) := by
      have haddr := (reachable_wellFormed hreach).policy hv.policy
      rw [hv.policy_wallet] at haddr
      exact haddr
    cases (step_effect hreg).2 with
    | registerAgent hregs =>
      have hpolicy : s₁.policy accs.spendPolicy = none := by
        rw [hregs.views.policy]
        exact policy_needs_wallet h hq (hk ▸ (free_iff.mp hregs.free).2.1)
      have hrate := rateStart_run hrun hq hpolicy _ hv.policy
      obtain ⟨w, hw, hbooked⟩ := booked_run hregs hrun hopen hsorted
      rw [← hk, hv.wallet] at hw
      cases hw
      rw [← hk] at hbooked
      have hb := hbooked (by
        rw [← hseq, recordAt_of_find hv.record_addr]
        exact (free_iff.mp hv.record_free).2.2.2)
      refine checks_iff_reference hb.book (fun r hr => ?_) hb.ordered (hrange _ (by simp)).1
        (hafter _ (by simp)) (hrange _ (by simp)).2 ?_
      · have htime := hb.times r hr
        exact ⟨hafter _ (List.mem_append_left _ htime), hbefore _ htime _ (by simp)⟩
      · exact hrange _ (List.mem_cons_of_mem _ (List.mem_append_left _ hrate))
  · constructor
    · rintro ⟨⟨w₁, q⟩, hok⟩
      exact absurd (settlePaymentChecks_eq_ok.mp hok).sequence hseq
    · exact fun href => absurd href.sequence hseq

namespace Demo

/-- The policy the opening run leaves: one call was counted. -/
def openedPolicy : SpendPolicy Key where
  agentWallet := wallet alice
  dailyBudget := 500
  weeklyBudget := 0
  monthlyBudget := 0
  perCallLimit := 0
  rateLimitCalls := 0
  rateLimitWindowSecs := 0
  rateLimitCallCount := 1
  rateLimitWindowStart := 100
  highValueThreshold := 10
  allowedDomainHashes := []
  blockedDomainHashes := []
  bump := 255

def protocolConfig : ProtocolConfig Key :=
  { admin := admin, version := PROGRAM_VERSION, maxSinglePaymentUsdc := 0, bump := 255 }

end Demo

/-- After the opening run, with 70 of a daily budget of 500 spent, a payment of 431. -/
theorem budget_agrees_opening :
    (∃ r, settlePaymentChecks 400 Demo.protocolConfig Demo.opened Demo.openedPolicy 2
        (Demo.params Demo.alice 431) = .ok r) ↔
      ReferenceDecision 100 400 Demo.protocolConfig Demo.opened Demo.openedPolicy
        (ledger Key.runtime (submitAll Key.runtime Demo.chain Demo.opening)
          (Demo.wallet Demo.alice) 2) 2 (Demo.params Demo.alice 431) := by
  have hv : (Demo.settleAccounts Demo.alice Demo.owner 2 (Demo.mint 1) Demo.ownAccount).tryAccounts
      Key.runtime 2 (Demo.params Demo.alice 431).agentId
      (submitAll Key.runtime Demo.chain Demo.opening) =
      .ok ⟨Demo.opened, Demo.openedPolicy, Demo.protocolConfig,
        ⟨Demo.mint 1, Demo.wallet Demo.alice, 930, false⟩, 255⟩ := rfl
  refine budget_agrees Demo.reachable_beforeRegister Demo.register_step Demo.spending_run
    (Demo.opening_open Demo.spending_subset) ?_ ?_ rfl hv
  · rw [clocks_replay]
    decide
  · rw [clocks_replay]
    decide

/-! ## 4. Any interval of one period -/

/-- The sum of the enforced settlements from `k` with clock in `[t, t + D)`. -/
def enforcedSum (k : Pubkey) (D t : Int) (tr : Trace Pubkey) : Nat :=
  amounts ((settlements k tr).filter fun x =>
    x.enforced && t ≤ x.clock.toInt && x.clock.toInt < t + D)

omit [Inhabited Pubkey] in
theorem enforcedSum_eq (k : Pubkey) (D t : Int) (tr : Trace Pubkey) :
    enforcedSum k D t tr = gatedSum D t ((settlements k tr).map Settlement.charge) := by
  rw [enforcedSum, amounts, gatedSum, List.filter_map, total, List.map_map]
  rfl

omit [Inhabited Pubkey] in
theorem settlement?_clock {x : Settlement Pubkey} {y : Transition (World Pubkey) (Action Pubkey)}
    (h : settlement? k y = some x) :
    y.label.clock?.map Int64.toInt = some x.clock.toInt := by
  unfold settlement? at h
  split at h
  · next hl =>
    split at h
    · cases h
      rw [hl]
      rfl
    · cases h
  · cases h

omit [Inhabited Pubkey] in
theorem settlement_clock {x : Settlement Pubkey} (hx : x ∈ settlements k tr) :
    x.clock.toInt ∈ clocks tr := by
  obtain ⟨y, hy, hsome⟩ := List.mem_filterMap.mp hx
  exact List.mem_filterMap.mpr ⟨y, hy, settlement?_clock hsome⟩

omit [Inhabited Pubkey] in
/-- The settlements of a run come in the order of the clock. -/
theorem settlements_ordered (h : ClockOrdered tr) :
    ((settlements k tr).map Settlement.charge).Pairwise fun c d => c.time ≤ d.time := by
  unfold ClockOrdered clocks at h
  rw [List.pairwise_filterMap] at h
  rw [List.pairwise_map, settlements, List.pairwise_filterMap]
  refine h.imp ?_
  intro y y' hyy x hx x' hx'
  exact hyy _ (settlement?_clock hx) _ (settlement?_clock hx')

omit [Inhabited Pubkey] in
/-- An enforced settlement leaves each budgeted window at or below the budget. -/
theorem enforced_within {x : Settlement Pubkey} {n : UInt64} {params : SettlePaymentParams Pubkey}
    {ctx : SettlePayment.Loaded Pubkey} {w₁ : AgentWallet Pubkey} {p : SpendPolicy Pubkey}
    (hx : SettledBy rt k x n params ctx w₁ p) (henf : x.enforced = true) (h : Horizon) :
    ∃ q, x.policy = some q ∧ (h.budget q ≠ 0 →
      (charge u64Max h.seconds (ctx.wallet.window h) x.charge).spent ≤ (h.budget q).toNat) := by
  have hpolicy : x.policy = some ctx.policy := hx.settles.validates.policy
  refine ⟨ctx.policy, hpolicy, fun hbud => ?_⟩
  have henf' : ctx.policy.enforceOnChain params.amountUsdc = true := by
    rw [Settlement.enforced, hpolicy, Option.any_some] at henf
    rw [hx.amount]
    exact henf
  have hle := (hx.settles.passed.enforced henf').budget h (budget_ne_zero.mpr hbud)
  have hwindow := (passed_resets hx.settles.passed).window h
  have hspent := congrArg Window.spent hwindow
  rw [hx.amount] at hle
  rw [charge_spent]
  simp only [Settlement.charge]
  rw [← hspent]
  exact hle

/-- Over any run, the enforced settlements of an interval `[t, t + D)` sum to at most
`2 * B`, if the policy in force at each of them had a budget of at most `B`. -/
theorem sliding_window {B : Nat} (h : Horizon) (t : Int) (hB : B < u64Max)
    (hr : Reaches rt s tr s') (hw : s.wallet k ≠ none) (hopen : StaysOpen k tr)
    (hclock : ClockOrdered tr)
    (hbudget : ∀ x ∈ settlements k tr, x.enforced = true → t ≤ x.clock.toInt →
      x.clock.toInt < t + h.seconds → ∀ q, x.policy = some q →
        0 < h.budget q ∧ (h.budget q).toNat ≤ B) :
    enforcedSum k h.seconds t tr ≤ 2 * B := by
  obtain ⟨w, hw⟩ := Option.ne_none_iff_exists'.mp hw
  rw [enforcedSum_eq]
  refine gated_sum_le (w := w.window h) h.seconds_pos hB (settlements_ordered hclock) ?_
  intro l₁ c l₂ hl hgate hlo hhi
  -- the charge comes from one transition, and those before it from the run up to there
  obtain ⟨xs, zs, hxs, rfl, hzs⟩ := List.map_eq_append_iff.mp hl
  obtain ⟨x, ys, rfl, rfl, rfl⟩ := List.map_eq_cons_iff.mp hzs
  obtain ⟨tr₁, tr₂, rfl, rfl, htail⟩ := List.filterMap_eq_append_iff.mp hxs
  obtain ⟨tr₃, y, tr₄, rfl, hskip, hy, rfl⟩ := List.filterMap_eq_cons_iff.mp htail
  have heq : tr₁ ++ (tr₃ ++ y :: tr₄) = (tr₁ ++ tr₃ ++ [y]) ++ tr₄ := by simp
  rw [heq] at hr
  obtain ⟨_, hr, _⟩ := run_append_inv hr
  obtain ⟨hprev, hstep, _⟩ := run_snoc_inv hr
  have hnone : settlements k tr₃ = [] := List.filterMap_eq_nil_iff.mpr hskip
  have hlist : settlements k (tr₁ ++ tr₃) = settlements k tr₁ := by
    rw [settlements, List.filterMap_append]
    exact (congrArg _ hnone).trans (List.append_nil _)
  obtain ⟨v, hv, hacc⟩ := accrues_run hprev (fun z hz => hopen z (by
    simp only [List.mem_append] at hz ⊢
    tauto)) hw
  obtain ⟨hpre, _, n, params, ctx, w₁, p, hx⟩ := settlement_inv hstep hy
  have hmem : x ∈ settlements k (tr₁ ++ (tr₃ ++ y :: tr₄)) :=
    List.mem_filterMap.mpr ⟨y, by simp, hy⟩
  obtain ⟨q, hq, hwithin⟩ := enforced_within hx hgate h
  obtain ⟨hpos, hle⟩ := hbudget x hmem hgate hlo hhi q hq
  -- the wallet that was settled from is the one the earlier settlements left
  have hctx : ctx.wallet = v := by
    have hbefore := hx.settles.validates.wallet
    rw [hx.wallet, hpre, hv] at hbefore
    cases hbefore
    rfl
  have hwindow := hacc.window h
  rw [hlist] at hwindow
  rw [hctx, hwindow] at hwithin
  exact (hwithin (pos_iff_ne_zero64.mp hpos)).trans hle

/-- One enforced settlement of 70, under a daily budget of 500. -/
theorem sliding_window_opening :
    enforcedSum (Demo.wallet Demo.alice) Horizon.daily.seconds 150
      (replay Key.runtime Demo.afterRegister Demo.spending) ≤ 2 * 500 := by
  refine sliding_window .daily 150 (by decide) Demo.spending_run ?_
    (Demo.opening_open Demo.spending_subset) ?_ ?_
  · have hsome : (Demo.afterRegister.wallet (Demo.wallet Demo.alice)).isSome = true := by
      decide +kernel
    exact Option.isSome_iff_ne_none.mp hsome
  · unfold ClockOrdered
    rw [clocks_replay]
    decide
  · have hall : (settlements (Demo.wallet Demo.alice)
        (replay Key.runtime Demo.afterRegister Demo.spending)).all
        (fun x => x.policy.all fun q => 0 < q.dailyBudget && q.dailyBudget.toNat ≤ 500) = true := by
      decide +kernel
    intro x hx _ _ _ q hq
    have hq' := List.all_eq_true.mp hall x hx
    rw [hq] at hq'
    simp only [Option.all_some, Bool.and_eq_true, decide_eq_true_eq] at hq'
    exact hq'

end MaximProtocol
