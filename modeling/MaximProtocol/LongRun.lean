import MaximProtocol.Quotas
import MaximProtocol.Tenure

/-!
# Limits over long runs

A limit is checked against one window. Windows end, the owner sets another policy, and a
closed wallet is registered again with empty windows. What the limits still say of an
interval of any length, over every run:

1. events of a run, in the order of the clock;
2. `rate_limit_updates`: the enforced settlements in an interval, from how often the policy
   was set in it;
3. `long_run_spend`: their sum, from how often the wallet was registered in it.
-/

namespace MaximProtocol

open MachineInt World Transitions Tumbling Restarting

variable {Pubkey : Type} [DecidableEq Pubkey]

/-! ## 1. Events -/

/-- The clock and the parameters of a successful `set_spend_policy` for the wallet address `k`. -/
def policySet? (k : Pubkey) (x : Transition (World Pubkey) (Action Pubkey)) :
    Option (Int64 × SetSpendPolicyParams) :=
  match x.label with
  | .accepted now (.setSpendPolicy accs params) =>
      if accs.agentWallet = k then some (now, params) else none
  | _ => none

def policySets (k : Pubkey) (tr : Trace Pubkey) : List (Int64 × SetSpendPolicyParams) :=
  tr.filterMap (policySet? k)

/-- How often the policy was set in `[t, t + L)`. -/
def policySetsWithin (k : Pubkey) (L t : Int) (tr : Trace Pubkey) : Nat :=
  (policySets k tr).countP fun x => t ≤ x.1.toInt && x.1.toInt < t + L

/-- What the rate counter of `k` sees of a transition. -/
def rateUse? (k : Pubkey) (x : Transition (World Pubkey) (Action Pubkey)) : Option Use :=
  ((policySet? k x).map fun y => Use.reset y.1.toInt).or
    (((settlement? k x).filter Settlement.enforced).map fun y =>
      Use.hit (y.policy.elim 0 SpendPolicy.rateSeconds) y.clock.toInt)

def rateUses (k : Pubkey) (tr : Trace Pubkey) : List Use := tr.filterMap (rateUse? k)

/-- The first reading a clock can have. -/
def dawn : Int := Int64.minValue.toInt

variable {rt : Runtime Pubkey} {s s' : World Pubkey} {k q : Pubkey} {bump : UInt8}
variable {tr l : Trace Pubkey} {x : Transition (World Pubkey) (Action Pubkey)} {t L : Int}

theorem policySet?_inv {y : Int64 × SetSpendPolicyParams} (h : policySet? k x = some y) :
    ∃ accs, x.label = .accepted y.1 (.setSpendPolicy accs y.2) ∧ accs.agentWallet = k := by
  unfold policySet? at h
  split at h
  · next accs params hl =>
    split at h
    · next hk =>
      cases h
      exact ⟨accs, hl, hk⟩
    · cases h
  · cases h

theorem settlement?_set {y : Int64 × SetSpendPolicyParams} (h : policySet? k x = some y) :
    settlement? k x = none := by
  obtain ⟨accs, hl, _⟩ := policySet?_inv h
  rw [settlement?, hl]

theorem rateUse?_clock {u : Use} (h : rateUse? k x = some u) :
    x.label.clock?.map Int64.toInt = some u.time := by
  cases hset : policySet? k x with
  | some y =>
    simp only [rateUse?, hset, Option.map_some, Option.some_or, Option.some.injEq] at h
    obtain ⟨accs, hl, _⟩ := policySet?_inv hset
    rw [hl, ← h]
    rfl
  | none =>
    simp only [rateUse?, hset, Option.map_none, Option.none_or, Option.map_eq_some_iff,
      Option.filter_eq_some_iff] at h
    obtain ⟨y, ⟨hy, _⟩, rfl⟩ := h
    exact settlement?_clock hy

omit [DecidableEq Pubkey] in
/-- Events of a run that happen at a reading of the clock come in its order. -/
theorem events_ordered {β : Type}
    {f : Transition (World Pubkey) (Action Pubkey) → Option β} {time : β → Int}
    (hf : ∀ {x b}, f x = some b → x.label.clock?.map Int64.toInt = some (time b))
    (h : ClockOrdered tr) : (dawn :: (tr.filterMap f).map time).Pairwise (· ≤ ·) := by
  rw [List.pairwise_cons]
  constructor
  · intro c hc
    obtain ⟨b, hb, rfl⟩ := List.mem_map.mp hc
    obtain ⟨x, _, hx⟩ := List.mem_filterMap.mp hb
    obtain ⟨c, _, hc⟩ := Option.map_eq_some_iff.mp (hf hx)
    rw [← hc]
    exact Int64.minValue_le_toInt c
  · unfold ClockOrdered clocks at h
    rw [List.pairwise_filterMap] at h
    rw [List.pairwise_map, List.pairwise_filterMap]
    refine h.imp ?_
    intro y y' hyy b hb b' hb'
    exact hyy _ (hf hb) _ (hf hb')

theorem hitsWithin_uses (k : Pubkey) (L t : Int) (tr : Trace Pubkey) :
    hitsWithin t L (rateUses k tr) = enforcedWithin k L t tr := by
  rw [hitsWithin, rateUses, enforcedWithin, enforcedSettlements, settlements,
    List.countP_filter, List.countP_filterMap, List.countP_filterMap]
  refine List.countP_congr fun x _ => ?_
  cases hset : policySet? k x with
  | some y => simp [rateUse?, hset, settlement?_set hset]
  | none =>
    cases hx : settlement? k x with
    | none => simp [rateUse?, hset, hx]
    | some y => cases he : y.enforced <;> simp [rateUse?, hset, hx, he, Option.filter]

theorem resetsWithin_uses (k : Pubkey) (L t : Int) (tr : Trace Pubkey) :
    resetsWithin t L (rateUses k tr) = policySetsWithin k L t tr := by
  rw [resetsWithin, rateUses, policySetsWithin, policySets, List.countP_filterMap,
    List.countP_filterMap]
  refine List.countP_congr fun x _ => ?_
  cases hset : policySet? k x with
  | some y => simp [rateUse?, hset]
  | none =>
    cases hx : settlement? k x with
    | none => simp [rateUse?, hset, hx]
    | some y => cases he : y.enforced <;> simp [rateUse?, hset, hx, he, Option.filter]

variable [Inhabited Pubkey]

/-! ## 2. The rate limit -/

/-- A call limit of at most `N` in a window of at least `W` seconds. -/
structure SetSpendPolicyParams.Limits (N W : Nat) (params : SetSpendPolicyParams) : Prop where
  calls_pos : 0 < params.rateLimitCalls
  calls_le : params.rateLimitCalls.toNat ≤ N
  secs_le : W ≤ params.rateLimitWindowSecs.toNat

/-- The policy account `q` of `k` after the trace `tr`, whose policies all have such limits. -/
structure Rated (k q : Pubkey) (N W : Nat) (tr : Trace Pubkey) (s : World Pubkey) : Prop where
  count : (useAll ⟨dawn, 0⟩ (rateUses k tr)).count ≤ N
  widths : ∀ width c, Use.hit width c ∈ rateUses k tr → (W : Int) ≤ width
  policy : ∀ p, s.policy q = some p → p.quota = useAll ⟨dawn, 0⟩ (rateUses k tr) ∧
    0 < p.rateLimitCalls ∧ p.rateLimitCalls.toNat ≤ N ∧ W ≤ p.rateLimitWindowSecs.toNat

omit [Inhabited Pubkey] in
theorem rateUses_snoc : rateUses k (tr ++ [x]) = rateUses k tr ++ (rateUse? k x).toList := by
  cases h : rateUse? k x <;> simp [rateUses, h]

omit [Inhabited Pubkey] in
/-- Between two uses the policy stays what it is, or goes. -/
theorem rated_kept {N W : Nat} (hnone : rateUse? k x = none)
    (hpolicy : ∀ p, x.post.policy q = some p → x.pre.policy q = some p)
    (h : Rated k q N W tr x.pre) : Rated k q N W (tr ++ [x]) x.post := by
  have huses : rateUses k (tr ++ [x]) = rateUses k tr := by
    rw [rateUses_snoc, hnone, Option.toList_none, List.append_nil]
  refine ⟨?_, ?_, fun p hp => ?_⟩
  · rw [huses]
    exact h.count
  · rw [huses]
    exact h.widths
  · rw [huses]
    exact h.policy p (hpolicy p hp)

theorem rated_set {N W : Nat} {y : Int64 × SetSpendPolicyParams} (hset : policySet? k x = some y)
    (hlimits : y.2.Limits N W) (hq : rt.findProgramAddress (.spendPolicy k) = some (q, bump))
    (hs : Step rt x.pre x.label x.post) (h : Rated k q N W tr x.pre) :
    Rated k q N W (tr ++ [x]) x.post := by
  have huses : rateUses k (tr ++ [x]) = rateUses k tr ++ [.reset y.1.toInt] := by
    simp [rateUses_snoc, rateUse?, hset]
  obtain ⟨accs, hl, hk⟩ := policySet?_inv hset
  rw [hl] at hs
  have hpost : x.post.policy q = some (SpendPolicy.ofParams k y.1 y.2 bump) := by
    cases (step_effect hs).2 with
    | setSpendPolicy h =>
      have haddr := h.addr
      rw [hk, hq] at haddr
      cases haddr
      rw [h.views.policy, Function.update_self, hk]
  refine ⟨?_, fun width c hmem => ?_, fun p hp => ?_⟩
  · rw [huses, useAll_snoc]
    exact Nat.zero_le N
  · rw [huses, List.mem_append, List.mem_singleton] at hmem
    rcases hmem with hmem | hmem
    · exact h.widths _ _ hmem
    · cases hmem
  · rw [hpost] at hp
    cases hp
    rw [huses, useAll_snoc]
    exact ⟨rfl, hlimits.calls_pos, hlimits.calls_le, hlimits.secs_le⟩

/-- An enforced settlement hits the quota, in the window length of the policy in force. -/
theorem rated_settled {N W : Nat} {y : Settlement Pubkey} (hW : 0 < W)
    (hx : settlement? k x = some y) (hwf : WellFormed rt x.pre)
    (hq : rt.findProgramAddress (.spendPolicy k) = some (q, bump))
    (hs : Step rt x.pre x.label x.post) (h : Rated k q N W tr x.pre) :
    Rated k q N W (tr ++ [x]) x.post := by
  have hset : policySet? k x = none := by
    cases hset : policySet? k x with
    | none => rfl
    | some z =>
      rw [settlement?_set hset] at hx
      cases hx
  obtain ⟨config, w, p, p', w', n, params, hpre, hpost, henf, _, hpassed⟩ :=
    settled_policy hwf hq hs hx
  obtain ⟨hquota, hcalls, hN, hsecs⟩ := h.policy p hpre
  cases he : y.enforced with
  | false =>
    refine rated_kept (by simp [rateUse?, hset, hx, he, Option.filter]) (fun p₁ hp₁ => ?_) h
    rw [hpost, hpassed.skipped (henf.symm.trans he)] at hp₁
    rw [hpre, hp₁]
  | true =>
    have hpol : y.policy = some p := by
      obtain ⟨hypre, _, _, _, ctx, _, _, hy⟩ := settlement_inv hs hx
      have haddr : y.accs.spendPolicy = q := by
        have hfound := hwf.policy (hypre ▸ hy.settles.validates.policy)
        rw [hy.settles.validates.policy_wallet, hy.wallet, hq] at hfound
        cases hfound
        rfl
      rw [Settlement.policy, haddr, hypre, hpre]
    have huses : rateUses k (tr ++ [x]) =
        rateUses k tr ++ [.hit p.rateSeconds y.clock.toInt] := by
      simp [rateUses_snoc, rateUse?, hset, hx, he, hpol, Option.filter]
    have hpos : 0 < p.rateLimitWindowSecs :=
      UInt32.lt_iff_toNat_lt.mpr (Nat.lt_of_lt_of_le hW hsecs)
    obtain ⟨hhit, hle⟩ := enforced_hit hcalls hpos (hpassed.enforced (henf.symm.trans he))
    obtain ⟨_, _, hframe, _⟩ := passed_policy hpassed
    rw [hquota] at hhit
    refine ⟨?_, fun width c hmem => ?_, fun p₁ hp₁ => ?_⟩
    · rw [huses, useAll_snoc, use, ← hhit]
      exact hle.trans hN
    · rw [huses, List.mem_append, List.mem_singleton] at hmem
      rcases hmem with hmem | hmem
      · exact h.widths _ _ hmem
      · cases hmem
        exact Int.ofNat_le.mpr hsecs
    · rw [hpost] at hp₁
      cases hp₁
      rw [huses, useAll_snoc, use, ← hhit]
      refine ⟨rfl, ?_⟩
      rw [hframe]
      exact ⟨hcalls, hN, hsecs⟩

theorem rated_step {N W : Nat} (hW : 0 < W) (hwf : WellFormed rt x.pre)
    (hq : rt.findProgramAddress (.spendPolicy k) = some (q, bump))
    (hlimits : ∀ y, policySet? k x = some y → y.2.Limits N W)
    (hs : Step rt x.pre x.label x.post) (h : Rated k q N W tr x.pre) :
    Rated k q N W (tr ++ [x]) x.post := by
  cases hset : policySet? k x with
  | some y => exact rated_set hset (hlimits y hset) hq hs h
  | none =>
    cases hx : settlement? k x with
    | some y => exact rated_settled hW hx hwf hq hs h
    | none =>
      refine rated_kept (by simp [rateUse?, hset, hx]) (fun p hp => ?_) h
      obtain ⟨s, act, s'⟩ := x
      simp only at hs hp ⊢
      cases policyStep hs hq with
      | set hk _ _ => simp [policySet?, hk] at hset
      | settled hk _ _ => simp [settlement?, hk] at hx
      | closed _ hq' h =>
        rw [h.views.policy, hq', Function.update_self] at hp
        cases hp
      | untouched hsame => exact hsame.symm.trans hp

theorem rated_run {N W : Nat} (hW : 0 < W) (h0 : Genesis rt s) (hr : Reaches rt s tr s')
    (hq : rt.findProgramAddress (.spendPolicy k) = some (q, bump))
    (hlimits : ∀ y ∈ policySets k tr, y.2.Limits N W) : Rated k q N W tr s' := by
  refine run_history (I := Rated k q N W) hr ?_ ?_
  · refine ⟨Nat.zero_le N, fun _ _ h => absurd h List.not_mem_nil, fun p hp => ?_⟩
    rw [genesis_policy h0] at hp
    cases hp
  · intro l x hl hrun hs h
    have hwf := reachable_wellFormed (reachable_run (reachable_init h0) hrun)
    refine rated_step hW hwf hq (fun y hy => hlimits y ?_) hs h
    exact List.mem_filterMap.mpr ⟨x, hl.subset (by simp), hy⟩

/-- **The rate limit through every policy.** If all policies of `k` allow at most `N` enforced
payments in a window of at least `W` seconds, an interval of `n * W` seconds has at most `N`
of them for each time the policy was set in it, and `(n + 1) * N` more. -/
theorem rate_limit_updates {N W : Nat} (hW : 0 < W) (h0 : Genesis rt s)
    (hr : Reaches rt s tr s') (hclock : ClockOrdered tr)
    (hlimits : ∀ y ∈ policySets k tr, y.2.Limits N W) (n : Nat) (t : Int) :
    enforcedWithin k (n * W) t tr ≤ (policySetsWithin k (n * W) t tr + n + 1) * N := by
  have hfits : (Seeds.spendPolicy k).fits = true := rfl
  obtain ⟨q, bump, hq⟩ := exists_find rt hfits
  rw [← hitsWithin_uses, ← resetsWithin_uses]
  refine uses_le (q := ⟨dawn, 0⟩) (events_ordered rateUse?_clock hclock)
    (rated_run hW h0 hr hq hlimits).widths fun l₁ l₂ hl => ?_
  -- a first part of the uses is the uses of a first part of the run
  obtain ⟨tr₁, tr₂, rfl, rfl, _⟩ := List.filterMap_eq_append_iff.mp hl
  obtain ⟨u, hr₁, _⟩ := run_append_inv hr
  refine (rated_run hW h0 hr₁ hq fun y hy => hlimits y ?_).count
  rw [policySets, List.filterMap_append]
  exact List.mem_append_left _ hy

/-- A limit of two payments a minute, and after two of them one of three in 90 seconds. -/
def Demo.renewing : List (Submission Key) :=
  [initProtocol, register alice owner (mint 0) 100, setRateLimit 2 60 200, pay 0 20 210,
    pay 1 20 230, setRateLimit 3 90 240, pay 2 20 250, pay 3 20 340]

theorem rate_limit_updates_renewing :
    enforcedWithin (Demo.wallet Demo.alice) (2 * 60) 220
        (replay Key.runtime Demo.chain Demo.renewing) ≤
      (policySetsWithin (Demo.wallet Demo.alice) (2 * 60) 220
        (replay Key.runtime Demo.chain Demo.renewing) + 2 + 1) * 3 := by
  refine rate_limit_updates (by decide) Demo.genesis_chain
    (replay_reaches Key.runtime Demo.chain Demo.renewing) ?_ ?_ 2 220
  · unfold ClockOrdered
    rw [clocks_replay]
    decide
  · intro y hy
    obtain ⟨x, hx, hset⟩ := List.mem_filterMap.mp hy
    obtain ⟨accs, hl, _⟩ := policySet?_inv hset
    obtain ⟨now, hmem⟩ := accepts_mem hx ⟨_, hl⟩
    simp only [Demo.renewing, Demo.initProtocol, Demo.register, Demo.setRateLimit, Demo.pay,
      Demo.settle, List.mem_cons, Prod.mk.injEq, reduceCtorEq, and_false, false_or,
      Instruction.setSpendPolicy.injEq, List.not_mem_nil, or_false] at hmem
    rcases hmem with ⟨_, _, hp⟩ | ⟨_, _, hp⟩ <;> rw [hp] <;> exact ⟨by decide, by decide, by decide⟩

/-! ## 3. The budgets -/

variable {w : AgentWallet Pubkey} {h : Horizon} {B : Nat}

omit [Inhabited Pubkey] in
theorem settlement_writes {y : Settlement Pubkey} (hx : settlement? k x = some y) :
    ∃ n, WritesSlot k n x := by
  unfold settlement? at hx
  split at hx
  · next now accs n params hl =>
    split at hx
    · next hk => exact ⟨n, .inl ⟨accs, params, ⟨now, hl⟩, hk⟩⟩
    · cases hx
  · cases hx

/-- Each charge of a wallet that stays open is one of its settlements, made when the windows
held the charges before it. -/
theorem charge_settled {l₁ l₂ : List Charge} {c : Charge} (hr : Reaches rt s tr s')
    (hw : s.wallet k = some w) (hopen : StaysOpen k tr)
    (hl : (settlements k tr).map Settlement.charge = l₁ ++ c :: l₂) :
    ∃ x ∈ settlements k tr, x.charge = c ∧ ∃ n params ctx w₁ p,
      SettledBy rt k x n params ctx w₁ p ∧
      ∀ h : Horizon, ctx.wallet.window h = chargeAll u64Max h.seconds (w.window h) l₁ := by
  obtain ⟨xs, zs, hxs, rfl, hzs⟩ := List.map_eq_append_iff.mp hl
  obtain ⟨x, ys, rfl, rfl, rfl⟩ := List.map_eq_cons_iff.mp hzs
  obtain ⟨tr₁, tr₂, rfl, rfl, htail⟩ := List.filterMap_eq_append_iff.mp hxs
  obtain ⟨tr₃, y, tr₄, rfl, hskip, hy, rfl⟩ := List.filterMap_eq_cons_iff.mp htail
  rw [← List.append_assoc] at hr hopen
  obtain ⟨hprev, hstep, _⟩ := run_middle hr
  obtain ⟨v, hv, hacc⟩ := accrues_run hprev (fun z hz => hopen z (List.mem_append_left _ hz)) hw
  obtain ⟨hpre, _, n, params, ctx, w₁, p, hx⟩ := settlement_inv hstep hy
  refine ⟨x, List.mem_filterMap.mpr ⟨y, by simp, hy⟩, rfl, n, params, ctx, w₁, p, hx, ?_⟩
  -- the wallet that was settled from is the one the earlier settlements left
  have hctx := hx.settles.validates.wallet
  rw [hx.wallet, hpre, hv] at hctx
  cases hctx
  have hnone : settlements k tr₃ = [] := List.filterMap_eq_nil_iff.mpr hskip
  have hlist : settlements k (tr₁ ++ tr₃) = settlements k tr₁ := by
    rw [settlements, List.filterMap_append]
    exact (congrArg _ hnone).trans (List.append_nil _)
  intro h
  rw [hacc.window h, hlist]
  rfl

/-- The policies in force at the enforced settlements in `[t, t + L)` have a budget of at
most `B`. -/
def BudgetedWithin (k : Pubkey) (h : Horizon) (L t : Int) (B : Nat) (tr : Trace Pubkey) : Prop :=
  ∀ x ∈ settlements k tr, x.enforced = true → t ≤ x.clock.toInt → x.clock.toInt < t + L →
    ∀ p, x.policy = some p → 0 < h.budget p ∧ (h.budget p).toNat ≤ B

/-- While the wallet stays open. -/
theorem open_spend (hB : B < u64Max) (hr : Reaches rt s tr s') (hw : s.wallet k ≠ none)
    (hopen : StaysOpen k tr) (hclock : ClockOrdered tr) {n : Nat}
    (hbudget : BudgetedWithin k h (n * h.seconds) t B tr) :
    enforcedSum k (n * h.seconds) t tr ≤ (n + 1) * B := by
  obtain ⟨w, hw⟩ := Option.ne_none_iff_exists'.mp hw
  rw [enforcedSum_eq]
  refine gated_span_le (w := w.window h) h.seconds_pos hB (settlements_ordered hclock) ?_
  intro l₁ c l₂ hl hgate hlo hhi
  obtain ⟨x, hx, rfl, _, _, ctx, _, _, hset, hwindow⟩ := charge_settled hr hw hopen hl
  obtain ⟨p, hp, hwithin⟩ := enforced_within hset hgate h
  obtain ⟨hpos, hle⟩ := hbudget x hx hgate hlo hhi p hp
  rw [hwindow h] at hwithin
  exact (hwithin (pos_iff_ne_zero64.mp hpos)).trans hle

/-- All settlements of a run from `k` lie in one part of it that opens with a registration
of `k` and does not close it. -/
theorem settlements_open (h0 : Genesis rt s) (hr : Reaches rt s tr s') :
    settlements k tr = [] ∨ ∃ u m u', List.Sublist m tr ∧ u.wallet k ≠ none ∧
      Reaches rt u m u' ∧ StaysOpen k m ∧ settlements k tr = settlements k m := by
  rcases List.eq_nil_or_concat (settlements k tr) with hnil | ⟨xs, x, hlast⟩
  · exact .inl hnil
  refine .inr ?_
  rw [List.concat_eq_append] at hlast
  obtain ⟨tr₁, tr₂, rfl, hxs, htail⟩ := List.filterMap_eq_append_iff.mp hlast
  obtain ⟨tr₃, y, tr₄, rfl, hskip, hy, hnone⟩ := List.filterMap_eq_cons_iff.mp htail
  rw [← List.append_assoc] at hr
  obtain ⟨hprev, hstep, _⟩ := run_middle hr
  obtain ⟨hpre, _, _, _, ctx, _, _, hx⟩ := settlement_inv hstep hy
  have hw := hx.settles.validates.wallet
  rw [hx.wallet, hpre] at hw
  obtain ⟨l, z, m, hsplit, hreg, hm, hopen⟩ := registered_since hprev (genesis_wallet h0 k) hw
  obtain ⟨i, hwrite⟩ := settlement_writes hy
  -- what settled before that registration would have written the same ledger
  have hbefore : settlements k l = [] := by
    refine List.filterMap_eq_nil_iff.mpr fun v hv => ?_
    by_contra hsome
    obtain ⟨b, hb⟩ := Option.ne_none_iff_exists'.mp hsome
    obtain ⟨j, hwrite'⟩ := settlement_writes hb
    obtain ⟨l₁, l₂, rfl⟩ := List.append_of_mem hv
    have hr' : Reaches rt s (l₁ ++ v :: ((l₂ ++ z :: m) ++ y :: tr₄)) s' := by
      rw [hsplit] at hr
      simpa using hr
    obtain ⟨now, accs, agentId, _, hl, hk, _⟩ := hreg
    exact writes_unregistered (reachable_init h0) hr' hwrite' hwrite z (by simp)
      ⟨accs, agentId, ⟨now, hl⟩, hk⟩
  obtain ⟨now, accs, agentId, bump, hl, hk, hregs⟩ := hreg
  have hthere : z.post.wallet k ≠ none := by
    rw [hregs.views.wallet, hk, Function.update_self]
    exact Option.some_ne_none _
  have hz : settlement? k z = none := by rw [settlement?, hl]
  have hopen' : StaysOpen k (m ++ [y]) := by
    intro v hv
    rcases List.mem_append.mp hv with hv | hv
    · exact hopen v hv
    · rw [List.mem_singleton.mp hv]
      intro hclose
      have hwallet := closed_gone hstep hclose
      exact written_wallet hstep hwrite hwallet
  refine ⟨z.post, m ++ [y], y.post, ?_, hthere, hm.snoc hstep, hopen', ?_⟩
  · rw [← List.append_assoc, hsplit]
    refine List.Sublist.append ?_ (List.singleton_sublist.mpr List.mem_cons_self)
    exact (List.sublist_cons_self z m).trans (List.sublist_append_right l (z :: m))
  · rw [← List.append_assoc, hsplit]
    unfold settlements at hbefore ⊢
    simp only [List.filterMap_append, hbefore, List.filterMap_cons, hz, hy, hnone,
      List.filterMap_nil, List.nil_append]

/-- **The budgets over any interval.** If the policies in force at the enforced settlements
of an interval of `n` periods had a budget of at most `B`, they sum to at most
`(n + 1) * B`, also when the wallet is closed or registered again. -/
theorem long_run_spend (h : Horizon) (hB : B < u64Max) (h0 : Genesis rt s)
    (hr : Reaches rt s tr s') (hclock : ClockOrdered tr) (n : Nat) (t : Int)
    (hbudget : BudgetedWithin k h (n * h.seconds) t B tr) :
    enforcedSum k (n * h.seconds) t tr ≤ (n + 1) * B := by
  rcases settlements_open (k := k) h0 hr with hnil | ⟨u, m, u', hsub, hw, hm, hopen, hsame⟩
  · simp [enforcedSum, hnil, amounts]
  · have hclock' : ClockOrdered m := List.Pairwise.sublist (hsub.filterMap _) hclock
    have hbudget' : BudgetedWithin k h (n * h.seconds) t B m := by
      unfold BudgetedWithin at hbudget ⊢
      rwa [hsame] at hbudget
    have hle := open_spend hB hm hw hopen hclock' hbudget'
    rwa [enforcedSum, ← hsame] at hle

/-- Three days of the opening run. -/
theorem long_run_spend_opening :
    enforcedSum (Demo.wallet Demo.alice) ((3 : Nat) * Horizon.daily.seconds) 150
      (replay Key.runtime Demo.chain Demo.opening) ≤ (3 + 1) * 500 := by
  refine long_run_spend .daily (by decide) Demo.genesis_chain
    (replay_reaches Key.runtime Demo.chain Demo.opening) ?_ 3 150 ?_
  · unfold ClockOrdered
    rw [clocks_replay]
    decide
  · have hall : (settlements (Demo.wallet Demo.alice)
        (replay Key.runtime Demo.chain Demo.opening)).all
        (fun x => x.policy.all fun q => 0 < q.dailyBudget && q.dailyBudget.toNat ≤ 500) = true := by
      decide +kernel
    intro x hx _ _ _ q hq
    have hq' := List.all_eq_true.mp hall x hx
    rw [hq] at hq'
    simp only [Option.all_some, Bool.and_eq_true, decide_eq_true_eq] at hq'
    exact hq'

end MaximProtocol
