import MaximProtocol.Chains
import MaximProtocol.Library.Restarting

/-!
# The rate limit over a run

1. `metered_step`: while a policy is neither set again nor closed, its rate counter is
   a quota of the restarting windows, hit by the enforced settlements only.
2. `rate_limit_run`: the counter stays at or below the limit and counts the enforced
   settlements since the window start was set; any interval of one window length has at
   most twice the limit of them.
3. `quotas_refill_iff`: after the longest window has passed every payment that fits the
   policy goes through, unless the policy has a call limit and a window of zero seconds.
-/

namespace MaximProtocol

open MachineInt World Transitions Tumbling Restarting

variable {Pubkey : Type}

/-! ## 1. The rate counter as a quota -/

/-- The rate counter and the start of its window. -/
def SpendPolicy.quota (p : SpendPolicy Pubkey) : Quota :=
  ⟨p.rateLimitWindowStart.toInt, p.rateLimitCallCount.toNat⟩

/-- The length of the rate window in seconds. -/
def SpendPolicy.rateSeconds (p : SpendPolicy Pubkey) : Int := p.rateLimitWindowSecs.toNat

/-- The start of the rate window of the policy account `q` was set in this transition. -/
def setsRateWindow (q : Pubkey) (x : Transition (World Pubkey) (Action Pubkey)) : Bool :=
  (x.post.policy q).map SpendPolicy.rateLimitWindowStart ≠
    (x.pre.policy q).map SpendPolicy.rateLimitWindowStart

/-- The end of the trace, from the transition that last set the start of the rate
window on; the whole trace if none did. -/
def sinceRateWindow (q : Pubkey) (tr : Trace Pubkey) : Trace Pubkey :=
  tr.foldl (fun l x => if setsRateWindow q x then [x] else l ++ [x]) []

theorem sinceRateWindow_snoc (q : Pubkey) (tr : Trace Pubkey)
    (x : Transition (World Pubkey) (Action Pubkey)) :
    sinceRateWindow q (tr ++ [x]) =
      if setsRateWindow q x then [x] else sinceRateWindow q tr ++ [x] := by
  simp [sinceRateWindow]

theorem toNat_saturatingAdd32_of_lt {a b : UInt32} (h : a.toNat < b.toNat) :
    (saturatingAdd32 a 1).toNat = a.toNat + 1 := by
  have hb := b.toNat_lt
  have hle : a.toNat + (1 : UInt32).toNat ≤ 4294967295 := by
    show a.toNat + 1 ≤ 4294967295
    omega
  rw [saturatingAdd32, if_pos hle, UInt32.toNat_add]
  exact Nat.mod_eq_of_lt (by show a.toNat + 1 < 2 ^ 32; omega)

theorem rateSeconds_pos {p : SpendPolicy Pubkey} (h : 0 < p.rateLimitWindowSecs) :
    0 < p.rateSeconds := by
  have hpos : 0 < p.rateLimitWindowSecs.toNat := UInt32.lt_iff_toNat_lt.mp h
  show (0 : Int) < p.rateLimitWindowSecs.toNat
  omega

theorem resetRate_quota {p p₁ : SpendPolicy Pubkey} {now : Int64}
    (hsecs : 0 < p.rateLimitWindowSecs) (h : p.resetRateWindowIfElapsed now = .ok p₁) :
    p₁.quota = restart p.rateSeconds now.toInt p.quota := by
  rcases resetRate_of_ok h with ⟨helapsed, rfl⟩ | ⟨hnot, rfl⟩
  · rw [restart_of_le helapsed.2]
    rfl
  · rw [restart_of_lt]
    by_contra hle
    exact hnot ⟨hsecs, not_lt.mp hle⟩

/-- An enforced payment under a call limit hits the quota, within the limit. -/
theorem enforced_hit {wallet : AgentWallet Pubkey} {policy p : SpendPolicy Pubkey} {now : Int64}
    {params : SettlePaymentParams Pubkey} (hcalls : 0 < policy.rateLimitCalls)
    (hsecs : 0 < policy.rateLimitWindowSecs) (h : Enforced now wallet policy params p) :
    p.quota = hit policy.rateSeconds policy.quota now.toInt ∧
      p.quota.count ≤ policy.rateLimitCalls.toNat := by
  obtain ⟨p₁, hreset, hlimit, rfl⟩ := h.rate
  have hquota := resetRate_quota hsecs hreset
  have hlt : p₁.rateLimitCallCount.toNat < policy.rateLimitCalls.toNat := by
    have hcalls₁ : p₁.rateLimitCalls = policy.rateLimitCalls := by
      rcases resetRate_of_ok hreset with ⟨_, rfl⟩ | ⟨_, rfl⟩ <;> rfl
    simp only [SpendPolicy.withinRateLimit, Bool.or_eq_true, beq_iff_eq, decide_eq_true_eq,
      hcalls₁] at hlimit
    rcases hlimit with hzero | hlt
    · rw [hzero] at hcalls
      exact absurd hcalls (by decide)
    · exact UInt32.lt_iff_toNat_lt.mp hlt
  have hcount := toNat_saturatingAdd32_of_lt hlt
  refine ⟨?_, ?_⟩
  · rw [hit, ← hquota]
    ext
    · rfl
    · exact hcount
  · show (saturatingAdd32 p₁.rateLimitCallCount 1).toNat ≤ _
    omega

variable [DecidableEq Pubkey]

/-- The enforced settlements of a trace. -/
def enforcedSettlements (k : Pubkey) (tr : Trace Pubkey) : List (Settlement Pubkey) :=
  (settlements k tr).filter Settlement.enforced

/-- The enforced settlements with clock in `[t, t + W)`. -/
def enforcedWithin (k : Pubkey) (W t : Int) (tr : Trace Pubkey) : Nat :=
  (enforcedSettlements k tr).countP fun x => t ≤ x.clock.toInt && x.clock.toInt < t + W

/-- The clock readings of the enforced settlements. -/
def enforcedTimes (k : Pubkey) (tr : Trace Pubkey) : List Int :=
  (enforcedSettlements k tr).map fun x => x.clock.toInt

variable {rt : Runtime Pubkey} {s s₁ s' : World Pubkey} {k q : Pubkey} {bump : UInt8}
variable {tr l : Trace Pubkey} {x : Transition (World Pubkey) (Action Pubkey)}

theorem enforcedSettlements_append :
    enforcedSettlements k (l ++ tr) = enforcedSettlements k l ++ enforcedSettlements k tr := by
  simp [enforcedSettlements, settlements]

theorem enforcedSettlements_single :
    enforcedSettlements k [x] = (settlement? k x).toList.filter Settlement.enforced := by
  cases h : settlement? k x <;> simp [enforcedSettlements, settlements, h]

theorem enforcedWithin_eq (k : Pubkey) (W t : Int) (tr : Trace Pubkey) :
    enforcedWithin k W t tr = inside W t (enforcedTimes k tr) := by
  rw [inside, enforcedTimes, List.countP_map]
  rfl

variable [Inhabited Pubkey]

/-! ## 2. The quota of a run -/

/-- The transition neither sets the policy of the wallet address `k` nor closes `k`. -/
def KeepsPolicy (k : Pubkey) (x : Transition (World Pubkey) (Action Pubkey)) : Prop :=
  (∀ accs params, Accepts x (.setSpendPolicy accs params) → accs.agentWallet ≠ k) ∧
    ¬ ClosesWallet k x

/-- The policy account `q` after the trace `tr`, which starts where it was set at `t₀`
with `N` calls in `W` seconds. -/
structure Metered (k q : Pubkey) (N W : UInt32) (t₀ : Int) (tr : Trace Pubkey)
    (p : SpendPolicy Pubkey) : Prop where
  calls : p.rateLimitCalls = N
  secs : p.rateLimitWindowSecs = W
  quota : p.quota = hitAll W.toNat ⟨t₀, 0⟩ (enforcedTimes k tr)
  since : p.quota.count = (enforcedSettlements k (sinceRateWindow q tr)).length
  le : p.quota.count ≤ N.toNat

/-- The settlements of the wallet address `k` use its policy at the canonical address. -/
theorem settled_policy {y : Settlement Pubkey} (hwf : WellFormed rt x.pre)
    (hq : rt.findProgramAddress (.spendPolicy k) = some (q, bump))
    (hs : Step rt x.pre x.label x.post) (hy : settlement? k x = some y) :
    ∃ config w p p' w' n params, x.pre.policy q = some p ∧ x.post.policy q = some p' ∧
      y.enforced = p.enforceOnChain params.amountUsdc ∧ params.amountUsdc = y.amount ∧
      Passed y.clock config w p n params w' p' := by
  obtain ⟨hpre, hpost, n, params, ctx, w', p', h⟩ := settlement_inv hs hy
  have hpolicy := h.settles.validates.policy
  have haddr : y.accs.spendPolicy = q := by
    have hfound := hwf.policy (hpre ▸ hpolicy)
    rw [h.settles.validates.policy_wallet, h.wallet, hq] at hfound
    cases hfound
    rfl
  obtain ⟨protocol, hv⟩ := h.settles.views
  refine ⟨ctx.config, ctx.wallet, ctx.policy, p', w', n, params, ?_, ?_, ?_, h.amount,
    h.settles.passed⟩
  · rw [← hpre, ← haddr, hpolicy]
  · rw [← hpost, hv.policy, haddr, Function.update_self]
  · rw [Settlement.enforced, Settlement.policy, hpolicy, h.amount]
    rfl

/-- What is no settlement of `k` leaves its policy alone. -/
theorem unsettled_policy (hq : rt.findProgramAddress (.spendPolicy k) = some (q, bump))
    (hs : Step rt x.pre x.label x.post) (hkeep : KeepsPolicy k x)
    (hnone : settlement? k x = none) : x.post.policy q = x.pre.policy q := by
  obtain ⟨s, act, s'⟩ := x
  simp only at hs ⊢
  cases policyStep hs hq with
  | set hk _ _ => exact absurd hk (hkeep.1 _ _ ⟨_, rfl⟩)
  | settled hk _ _ => simp [settlement?, hk] at hnone
  | closed hk _ _ => exact absurd ⟨_, ⟨_, rfl⟩, hk⟩ hkeep.2
  | untouched h => exact h

omit [Inhabited Pubkey] in
/-- A step without an enforced settlement that leaves the policy. -/
theorem metered_kept {N W : UInt32} {t₀ : Int} {p : SpendPolicy Pubkey}
    (hp : x.pre.policy q = some p) (hpost : x.post.policy q = some p)
    (hnil : (settlement? k x).toList.filter Settlement.enforced = [])
    (h : Metered k q N W t₀ tr p) : Metered k q N W t₀ (tr ++ [x]) p := by
  have hsince := sinceRateWindow_snoc q tr x
  have hno : setsRateWindow q x = false := by simp [setsRateWindow, hp, hpost]
  rw [hno, if_neg Bool.false_ne_true] at hsince
  refine ⟨h.calls, h.secs, ?_, ?_, h.le⟩
  · rw [h.quota, enforcedTimes, enforcedTimes, enforcedSettlements_append,
      enforcedSettlements_single, hnil, List.append_nil]
  · rw [h.since, hsince, enforcedSettlements_append, enforcedSettlements_single, hnil,
      List.append_nil]

omit [Inhabited Pubkey] in
/-- The count after an enforced settlement is that of the settlements since the window
start was set, which it was exactly when the quota restarted. -/
theorem since_hit {p p' : SpendPolicy Pubkey} {y : Settlement Pubkey}
    (hsecs : 0 < p.rateLimitWindowSecs) (hp : x.pre.policy q = some p)
    (hpost : x.post.policy q = some p')
    (hone : (settlement? k x).toList.filter Settlement.enforced = [y])
    (hhit : p'.quota = hit p.rateSeconds p.quota y.clock.toInt)
    (hsince : p.quota.count = (enforcedSettlements k (sinceRateWindow q tr)).length) :
    p'.quota.count = (enforcedSettlements k (sinceRateWindow q (tr ++ [x]))).length := by
  have hpos := rateSeconds_pos hsecs
  have hstart : setsRateWindow q x = decide (p'.quota.start ≠ p.quota.start) := by
    simp only [setsRateWindow, hp, hpost, Option.map_some, ne_eq, Option.some.injEq,
      SpendPolicy.quota, Int64.toInt_inj]
  rw [sinceRateWindow_snoc, hstart, hhit]
  rcases lt_or_ge y.clock.toInt (p.quota.start + p.rateSeconds) with hin | hout
  · rw [hit, restart_of_lt hin]
    simp only [ne_eq, not_true_eq_false, decide_false, Bool.false_eq_true, if_false,
      enforcedSettlements_append, enforcedSettlements_single, hone, List.length_append,
      List.length_singleton, hsince]
  · rw [hit, restart_of_le hout]
    have hne : ¬ y.clock.toInt = p.quota.start := by omega
    simp only [ne_eq, hne, not_false_eq_true, decide_true, if_true,
      enforcedSettlements_single, hone, List.length_singleton]

/-- One step of the run keeps the counter a quota of the enforced settlements. -/
theorem metered_step {N W : UInt32} {t₀ : Int} {p : SpendPolicy Pubkey} (hN : 0 < N)
    (hW : 0 < W) (hwf : WellFormed rt x.pre)
    (hq : rt.findProgramAddress (.spendPolicy k) = some (q, bump))
    (hs : Step rt x.pre x.label x.post) (hkeep : KeepsPolicy k x)
    (hp : x.pre.policy q = some p) (h : Metered k q N W t₀ tr p) :
    ∃ p', x.post.policy q = some p' ∧ Metered k q N W t₀ (tr ++ [x]) p' := by
  cases hx : settlement? k x with
  | none =>
    have hpost := unsettled_policy hq hs hkeep hx
    rw [hp] at hpost
    exact ⟨p, hpost, metered_kept hp hpost (by simp [hx]) h⟩
  | some y =>
    obtain ⟨config, w, p₀, p', w', n, params, hpre, hpost, henf, _, hpassed⟩ :=
      settled_policy hwf hq hs hx
    rw [hp] at hpre
    cases hpre
    cases he : y.enforced with
    | false =>
      rw [hpassed.skipped (henf.symm.trans he)] at hpost
      exact ⟨p, hpost, metered_kept hp hpost (by simp [hx, he]) h⟩
    | true =>
      have hone : (settlement? k x).toList.filter Settlement.enforced = [y] := by simp [hx, he]
      have henforced := hpassed.enforced (henf.symm.trans he)
      rw [← h.calls] at hN
      rw [← h.secs] at hW
      obtain ⟨hhit, hle⟩ := enforced_hit hN hW henforced
      obtain ⟨_, _, hframe, _⟩ := passed_policy hpassed
      refine ⟨p', hpost, ⟨?_, ?_, ?_, since_hit hW hp hpost hone hhit h.since, h.calls ▸ hle⟩⟩
      · rw [hframe]
        exact h.calls
      · rw [hframe]
        exact h.secs
      · rw [hhit, h.quota, enforcedTimes, enforcedTimes, enforcedSettlements_append,
          enforcedSettlements_single, hone, List.map_append, List.map_singleton, hitAll_snoc,
          SpendPolicy.rateSeconds, h.secs]

omit [Inhabited Pubkey] in
/-- The enforced settlements of a run come in the order of the clock. -/
theorem enforcedTimes_ordered {t : Int} (h : (t :: clocks tr).Pairwise (· ≤ ·)) :
    (t :: enforcedTimes k tr).Pairwise (· ≤ ·) := by
  obtain ⟨hafter, hsorted⟩ := List.pairwise_cons.mp h
  rw [List.pairwise_cons]
  constructor
  · intro c hc
    obtain ⟨y, hy, rfl⟩ := List.mem_map.mp hc
    exact hafter _ (settlement_clock (List.mem_filter.mp hy).1)
  · have hall := settlements_ordered (k := k) hsorted
    rw [List.pairwise_map] at hall
    rw [enforcedTimes, List.pairwise_map]
    exact hall.filter _

/-- The counter over a whole run from where the policy was set. -/
theorem metered_run {N W : UInt32} {t₀ : Int} {p : SpendPolicy Pubkey} (hN : 0 < N) (hW : 0 < W)
    (h : Reachable rt s) (hq : rt.findProgramAddress (.spendPolicy k) = some (q, bump))
    (hr : Reaches rt s tr s') (hkeep : ∀ x ∈ tr, KeepsPolicy k x) (hp : s.policy q = some p)
    (h0 : Metered k q N W t₀ [] p) : ∃ p', s'.policy q = some p' ∧ Metered k q N W t₀ tr p' := by
  refine run_history (I := fun l v => ∃ p', v.policy q = some p' ∧ Metered k q N W t₀ l p') hr
    ⟨p, hp, h0⟩ ?_
  rintro l x hl hrun hs ⟨p', hp', hm⟩
  exact metered_step hN hW (reachable_wellFormed (reachable_run h hrun)) hq hs
    (hkeep x (hl.subset (by simp))) hp' hm

/-- **The rate limit over a whole run**, from where the policy is set with `N` calls in
`W` seconds. -/
theorem rate_limit_run {t : Int64} {accs : SetSpendPolicy Pubkey} {params : SetSpendPolicyParams}
    (h : Reachable rt s) (hset : Step rt s (.accepted t (.setSpendPolicy accs params)) s₁)
    (hN : 0 < params.rateLimitCalls) (hW : 0 < params.rateLimitWindowSecs)
    (hr : Reaches rt s₁ tr s') (hkeep : ∀ x ∈ tr, KeepsPolicy accs.agentWallet x)
    (hclock : (t.toInt :: clocks tr).Pairwise (· ≤ ·)) :
    (∃ p, s'.policy accs.spendPolicy = some p ∧
      p.rateLimitCallCount ≤ params.rateLimitCalls ∧
      p.rateLimitCallCount.toNat = (enforcedSettlements accs.agentWallet
        (sinceRateWindow accs.spendPolicy tr)).length) ∧
    ∀ t', enforcedWithin accs.agentWallet params.rateLimitWindowSecs.toNat t' tr ≤
      2 * params.rateLimitCalls.toNat := by
  cases (step_effect hset).2 with
  | @setSpendPolicy _ _ _ bump hsets =>
    have h₁ := reachable_step h hset
    have hp : s₁.policy accs.spendPolicy =
        some (SpendPolicy.ofParams accs.agentWallet t params bump) := by
      rw [hsets.views.policy, Function.update_self]
    have h0 : Metered accs.agentWallet accs.spendPolicy params.rateLimitCalls
        params.rateLimitWindowSecs t.toInt []
        (SpendPolicy.ofParams accs.agentWallet t params bump) :=
      ⟨rfl, rfl, rfl, rfl, Nat.zero_le _⟩
    refine ⟨?_, fun t' => ?_⟩
    · obtain ⟨p, hp', hm⟩ := metered_run hN hW h₁ hsets.addr hr hkeep hp h0
      exact ⟨p, hp', UInt32.le_iff_toNat_le.mpr hm.le, hm.since⟩
    · rw [enforcedWithin_eq]
      refine hits_le (q := ⟨t.toInt, 0⟩) ?_ (enforcedTimes_ordered hclock) ?_
      · exact_mod_cast UInt32.lt_iff_toNat_lt.mp hW
      · -- a first part of the hits is the enforced settlements of a first part of the run
        intro l₁ l₂ hl
        obtain ⟨ys, zs, hys, rfl, rfl⟩ := List.map_eq_append_iff.mp hl
        obtain ⟨us, vs, hus, rfl, rfl⟩ := List.filter_eq_append_iff.mp hys
        obtain ⟨tr₁, tr₂, rfl, rfl, rfl⟩ := List.filterMap_eq_append_iff.mp hus
        obtain ⟨u, hr₁, _⟩ := run_append_inv hr
        obtain ⟨p, _, hm⟩ := metered_run hN hW h₁ hsets.addr hr₁
          (fun x hx => hkeep x (List.mem_append_left _ hx)) hp h0
        have hle := hm.le
        rw [hm.quota] at hle
        exact hle

namespace Demo

/-- A policy with `calls` enforced payments in `seconds`, enforced from 10 on. -/
def setRateLimit (calls seconds : UInt32) (now : Int64) : Submission Key :=
  (now, .setSpendPolicy ⟨.spendPolicy (wallet alice), wallet alice, owner⟩
    { dailyBudget := 0, weeklyBudget := 0, perCallLimit := 0, rateLimitCalls := calls
      rateLimitWindowSecs := seconds, highValueThreshold := 10, monthlyBudget := 0
      allowedDomainHashes := [], blockedDomainHashes := [] })

def pay (n : UInt64) (amount : UInt64) (now : Int64) : Submission Key :=
  settle alice owner n (mint 1) (.associated payee (mint 1)) amount now

def limited : World Key := submit Key.runtime afterRegister (setRateLimit 2 60 200)

/-- Two enforced payments around one below the threshold, a third that is rejected, and
the first one after the window. -/
def metering : List (Submission Key) :=
  [pay 0 20 210, pay 1 5 220, pay 2 20 230, pay 3 20 240, pay 3 20 300]

theorem reachable_afterRegister : Reachable Key.runtime afterRegister :=
  reachable_step reachable_beforeRegister register_step

theorem limit_step : Step Key.runtime afterRegister
    (.accepted 200 (setRateLimit 2 60 200).2) limited := by
  have hok : succeeds Key.runtime afterRegister (setRateLimit 2 60 200) = true := by
    decide +kernel
  exact submit_accepted hok

theorem metering_keeps :
    ∀ x ∈ replay Key.runtime limited metering, KeepsPolicy (wallet alice) x := by
  refine fun x hx => ⟨fun accs params hacc => ?_, ?_⟩
  · obtain ⟨now, hmem⟩ := accepts_mem hx hacc
    simp [metering, pay, settle] at hmem
  · rintro ⟨accs, hacc, _⟩
    obtain ⟨now, hmem⟩ := accepts_mem hx hacc
    simp [metering, pay, settle] at hmem

end Demo

theorem rate_limit_run_metering :
    (∃ p, (submitAll Key.runtime Demo.limited Demo.metering).policy
        (.spendPolicy (Demo.wallet Demo.alice)) = some p ∧ p.rateLimitCallCount ≤ 2 ∧
      p.rateLimitCallCount.toNat = (enforcedSettlements (Demo.wallet Demo.alice)
        (sinceRateWindow (.spendPolicy (Demo.wallet Demo.alice))
          (replay Key.runtime Demo.limited Demo.metering))).length) ∧
    ∀ t', enforcedWithin (Demo.wallet Demo.alice) 60 t'
      (replay Key.runtime Demo.limited Demo.metering) ≤ 2 * 2 :=
  rate_limit_run Demo.reachable_afterRegister Demo.limit_step (by decide) (by decide)
    (replay_reaches Key.runtime Demo.limited Demo.metering) Demo.metering_keeps
    (by rw [clocks_replay]; decide)

/-! ## 3. Quotas refill -/

/-- Every window of every wallet starts at a time in `[0, T]`. -/
def WindowsWithin (T : Int) (s : World Pubkey) : Prop :=
  ∀ {k w}, s.wallet k = some w → ∀ h : Horizon, 0 ≤ (w.window h).start ∧ (w.window h).start ≤ T

theorem windowsWithin_run {T : Int} (h0 : Genesis rt s) (hr : Reaches rt s tr s')
    (hclock : ∀ c ∈ clocks tr, 0 ≤ c ∧ c ≤ T) : WindowsWithin T s' := by
  intro k w hw h
  obtain ⟨l, x, m, t, _, _, _, rfl, hl, _, _, hacc⟩ :=
    accrues_since hr (genesis_wallet h0 k) hw
  obtain ⟨hlo, hhi⟩ := hclock t.toInt (mem_clocks (x := x) (by simp) (by rw [hl]; rfl))
  rw [hacc.window h, window_registered]
  refine ⟨hlo.trans (le_chargeAll_start h.seconds_pos), ?_⟩
  -- the window moves to readings of the clock only
  refine chargeAll_start_le h.seconds_pos hhi fun c hc => ?_
  obtain ⟨y, hy, rfl⟩ := List.mem_map.mp hc
  have hmem : y.clock.toInt ∈ clocks (l ++ [x] ++ m) := by
    rw [clocks_append]
    exact List.mem_append_right _ (settlement_clock hy)
  rw [List.append_assoc, List.singleton_append] at hmem
  exact (hclock _ hmem).2

/-- A payment that fits the global cap, the single-payment limit, each budget on its
own and the domain lists. -/
structure Payable (config : ProtocolConfig Pubkey) (p : SpendPolicy Pubkey)
    (params : SettlePaymentParams Pubkey) : Prop where
  amount : 0 < params.amountUsdc
  protocol : (PaymentProtocol.fromDiscriminant params.protocol).isSome = true
  cap : 0 < config.maxSinglePaymentUsdc → params.amountUsdc ≤ config.maxSinglePaymentUsdc
  per_call : p.perCallLimit ≠ 0 → params.amountUsdc ≤ p.perCallLimit
  budget : ∀ h : Horizon, h.budget p ≠ 0 → params.amountUsdc ≤ h.budget p
  not_blocked : params.domainHash ∉ p.blockedDomainHashes
  allowed : p.allowedDomainHashes = [] ∨ params.domainHash ∈ p.allowedDomainHashes

/-- A used-up call limit whose window of zero seconds never ends. -/
def SpendPolicy.LockedOut (p : SpendPolicy Pubkey) : Prop :=
  p.rateLimitWindowSecs = 0 ∧ 0 < p.rateLimitCalls ∧ p.rateLimitCalls ≤ p.rateLimitCallCount

omit [DecidableEq Pubkey] [Inhabited Pubkey] in
/-- Once the window has passed, the rate limit refuses only where it is locked out. -/
theorem rate_refills {p p₁ : SpendPolicy Pubkey} {now : Int64}
    (hpast : p.rateLimitWindowStart.toInt + p.rateLimitWindowSecs.toNat ≤ now.toInt)
    (h : p.resetRateWindowIfElapsed now = .ok p₁) :
    p₁.withinRateLimit = true ↔ ¬ p.LockedOut := by
  unfold SpendPolicy.LockedOut
  rcases resetRate_of_ok h with ⟨helapsed, rfl⟩ | ⟨hnot, rfl⟩
  · have hne : p.rateLimitWindowSecs ≠ 0 := UInt32.pos_iff_ne_zero.mp helapsed.1
    have hpass : (0 : UInt32) < p.rateLimitCalls ∨ p.rateLimitCalls = 0 := by
      rw [UInt32.pos_iff_ne_zero]
      tauto
    simp only [SpendPolicy.withinRateLimit, Bool.or_eq_true, beq_iff_eq, decide_eq_true_eq]
    tauto
  · have hzero : p₁.rateLimitWindowSecs = 0 := by
      by_contra hne
      exact hnot ⟨UInt32.pos_iff_ne_zero.mpr hne, hpast⟩
    simp only [SpendPolicy.withinRateLimit, Bool.or_eq_true, beq_iff_eq, decide_eq_true_eq,
      UInt32.pos_iff_ne_zero, hzero, true_and, not_and, UInt32.not_le]
    tauto

omit [DecidableEq Pubkey] [Inhabited Pubkey] in
/-- Once every window has passed, the three resets clear every counter. -/
theorem spends_refill {w w₁ : AgentWallet Pubkey} {now : Int64} (hreset : Resets now w w₁)
    (hpast : ∀ h : Horizon, (w.window h).start + h.seconds ≤ now.toInt) (h : Horizon) :
    (h.spend w₁).toNat = 0 := by
  have hspent := congrArg Window.spent (hreset.window h)
  rw [roll_of_le (hpast h)] at hspent
  exact hspent

omit [DecidableEq Pubkey] [Inhabited Pubkey] in
/-- Long after windows that started before `2 ^ 62`, the three resets go through and leave
no spend. -/
theorem resets_refill {T : Int} {now : Int64} {w : AgentWallet Pubkey} (hT : T ≤ 2 ^ 62)
    (hwithin : ∀ h : Horizon, 0 ≤ (w.window h).start ∧ (w.window h).start ≤ T)
    (hnow : T + 2592000 ≤ now.toInt) :
    ∃ a b c, (w.resetDailyWindowIfElapsed now = .ok a ∧ a.resetWeeklyWindowIfElapsed now = .ok b ∧
      b.resetMonthlyWindowIfElapsed now = .ok c) ∧ ∀ h : Horizon, (h.spend c).toNat = 0 := by
  have hpast : ∀ h : Horizon, (w.window h).start + h.seconds ≤ now.toInt := by
    intro h
    have hstart := (hwithin h).2
    have hlen := h.seconds_le
    omega
  have hpos : 0 ≤ now.toInt := by
    have hstart := hwithin .daily
    omega
  -- the window starts are small, so no reset overflows
  have hsmall : ∀ h : Horizon, 0 ≤ (h.windowStart w).toInt ∧
      (h.windowStart w).toInt + h.seconds < 2 ^ 63 := by
    intro h
    have hstart := hwithin h
    have hlen := h.seconds_le
    simp only [AgentWallet.window] at hstart
    omega
  obtain ⟨a, b, c, hd, hwk, hm⟩ := resets_succeed hpos hsmall
  exact ⟨a, b, c, ⟨hd, hwk, hm⟩, spends_refill (resets_of_ok hd hwk hm) hpast⟩

/-- **Quotas refill with time**, except where a call limit has a window of zero seconds. -/
theorem quotas_refill_iff {T : Int} {now : Int64} {w : AgentWallet Pubkey}
    {p : SpendPolicy Pubkey} {config : ProtocolConfig Pubkey}
    {params : SettlePaymentParams Pubkey} (h0 : Genesis rt s) (hr : Reaches rt s tr s')
    (hT : T ≤ 2 ^ 62) (hclock : ∀ c ∈ clocks tr, 0 ≤ c ∧ c ≤ T)
    (hq : rt.findProgramAddress (.spendPolicy k) = some (q, bump)) (hw : s'.wallet k = some w)
    (hp : s'.policy q = some p) (hactive : w.isActive = true) (hfrozen : w.isFrozen = false)
    (hpay : Payable config p params)
    (hnow : T + max 2592000 p.rateLimitWindowSecs.toNat + 1 ≤ now.toInt) :
    (∃ r, settlePaymentChecks now config w p w.paymentSequence params = .ok r) ↔
      ¬ (p.enforceOnChain params.amountUsdc = true ∧ p.LockedOut) := by
  have hlong : T + 2592000 ≤ now.toInt := by omega
  obtain ⟨a, b, c, hresets, hzero⟩ :=
    resets_refill hT (windowsWithin_run h0 hr hclock hw) hlong
  have hrate := hclock _ (rateStart_run hr hq (genesis_policy h0 q) p hp)
  obtain ⟨p₁, hp₁⟩ : ∃ p₁, p.resetRateWindowIfElapsed now = .ok p₁ :=
    resetRate_succeeds hrate.1 (by omega)
  have hlimit := rate_refills (by omega) hp₁
  constructor
  · rintro ⟨⟨w', p'⟩, hok⟩ ⟨henf, hlocked⟩
    obtain ⟨p₂, hp₂, hpass, _⟩ := ((settlePaymentChecks_eq_ok.mp hok).enforced henf).rate
    rw [hp₁] at hp₂
    cases hp₂
    exact hlimit.mp hpass hlocked
  · intro hnot
    have hbudget : ∀ h : Horizon, (h.budget p).toNat ≠ 0 →
        min u64Max ((h.spend c).toNat + params.amountUsdc.toNat) ≤ (h.budget p).toNat := by
      intro h hb
      have hle := UInt64.le_iff_toNat_le.mp (hpay.budget h (budget_ne_zero.mp hb))
      rw [hzero h]
      omega
    cases henf : p.enforceOnChain params.amountUsdc with
    | false =>
      exact ⟨(c, p), settlePaymentChecks_eq_ok.mpr ⟨hpay.amount, hpay.protocol, rfl, hpay.cap,
        hactive, hfrozen, ⟨a, b, hresets⟩, by simp [henf], fun _ => rfl⟩⟩
    | true =>
      have hpass := hlimit.mpr fun hlocked => hnot ⟨henf, hlocked⟩
      have henforced : Enforced now c p params
          { p₁ with rateLimitCallCount := saturatingAdd32 p₁.rateLimitCallCount 1 } :=
        ⟨withinPerCallLimit_iff.mpr hpay.per_call, hbudget, ⟨p₁, hp₁, hpass, rfl⟩,
          hpay.not_blocked, hpay.allowed⟩
      exact ⟨(c, _), settlePaymentChecks_eq_ok.mpr ⟨hpay.amount, hpay.protocol, rfl, hpay.cap,
        hactive, hfrozen, ⟨a, b, hresets⟩, fun _ => henforced, by simp [henf]⟩⟩

namespace Demo

/-- One enforced payment under a limit of one call, with the window length `seconds`. -/
def exhausting (seconds : UInt32) : List (Submission Key) :=
  [initProtocol, register alice owner (mint 0) 100, setRateLimit 1 seconds 200, pay 0 20 210]

/-- The wallet and the policy this leaves. -/
def usedWallet : AgentWallet Key :=
  { AgentWallet.registered alice owner (.associated (wallet alice) (mint 0)) 100 255 with
    dailySpend := 20, weeklySpend := 20, monthlySpend := 20, paymentSequence := 1
    totalPayments := 1, totalVolume := 20, lastPaymentAt := 210 }

def usedPolicy (seconds : UInt32) : SpendPolicy Key :=
  { SpendPolicy.ofParams (wallet alice) 200
      { dailyBudget := 0, weeklyBudget := 0, perCallLimit := 0, rateLimitCalls := 1
        rateLimitWindowSecs := seconds, highValueThreshold := 10, monthlyBudget := 0
        allowedDomainHashes := [], blockedDomainHashes := [] } 255 with
    rateLimitCallCount := 1 }

theorem payable_used (seconds : UInt32) :
    Payable protocolConfig (usedPolicy seconds) (params alice 20) :=
  ⟨by decide, by decide, fun h => absurd h (by decide), fun h => absurd rfl h,
    fun h hb => by cases h <;> exact absurd rfl hb, List.not_mem_nil, .inl rfl⟩

end Demo

/-- A month and a second later, with a window of one minute. -/
theorem quotas_refill_used :
    (∃ r, settlePaymentChecks 2592211 Demo.protocolConfig Demo.usedWallet (Demo.usedPolicy 60)
        Demo.usedWallet.paymentSequence (Demo.params Demo.alice 20) = .ok r) ↔
      ¬ ((Demo.usedPolicy 60).enforceOnChain 20 = true ∧ (Demo.usedPolicy 60).LockedOut) :=
  quotas_refill_iff (T := 210) Demo.genesis_chain
    (replay_reaches Key.runtime Demo.chain (Demo.exhausting 60)) (by decide)
    (by rw [clocks_replay]; decide)
    (show Key.runtime.findProgramAddress (.spendPolicy (Demo.wallet Demo.alice)) =
      some (.spendPolicy (Demo.wallet Demo.alice), 255) from rfl) rfl rfl rfl rfl
    (Demo.payable_used 60) (by decide)

/-- With a window of zero seconds the limit is used up for good. -/
theorem locked_out : ¬ ∀ (s s' : World Key) tr T now k q bump w p config params,
    Genesis Key.runtime s → Reaches Key.runtime s tr s' → ClockOrdered tr → T ≤ 2 ^ 62 →
    (∀ c ∈ clocks tr, 0 ≤ c ∧ c ≤ T) →
    Key.runtime.findProgramAddress (.spendPolicy k) = some (q, bump) → s'.wallet k = some w →
    s'.policy q = some p → w.isActive = true → w.isFrozen = false → Payable config p params →
    T + max 2592000 p.rateLimitWindowSecs.toNat + 1 ≤ (now : Int64).toInt →
    ∃ r, settlePaymentChecks now config w p w.paymentSequence params = .ok r := by
  intro h
  obtain ⟨r, hr⟩ := h Demo.chain (submitAll Key.runtime Demo.chain (Demo.exhausting 0)) _ 210
    9000000 (Demo.wallet Demo.alice) (.spendPolicy (Demo.wallet Demo.alice)) 255 Demo.usedWallet
    (Demo.usedPolicy 0) Demo.protocolConfig (Demo.params Demo.alice 20) Demo.genesis_chain
    (replay_reaches Key.runtime Demo.chain (Demo.exhausting 0))
    (by unfold ClockOrdered; rw [clocks_replay]; decide) (by decide)
    (by rw [clocks_replay]; decide) rfl rfl rfl rfl rfl (Demo.payable_used 0) (by decide)
  have herr : settlePaymentChecks 9000000 Demo.protocolConfig Demo.usedWallet (Demo.usedPolicy 0)
      Demo.usedWallet.paymentSequence (Demo.params Demo.alice 20) =
      .error (.maxim .rateLimitExceeded) := rfl
  rw [herr] at hr
  cases hr

end MaximProtocol
