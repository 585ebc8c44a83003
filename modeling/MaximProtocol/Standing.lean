import MaximProtocol.Governance
import MaximProtocol.Library.PastTime

/-!
# The standing of an agent

Who owns a wallet, whether it is active or frozen and under which limits it pays is decided
by the accepted instructions alone.

1. `AgentChange`: what an accepted instruction does to the standing of an agent.
2. `standing_current`: the standing is the fold of the changes.
3. `standing_since`: each part of it, as what has held since some change.
4. `settlement_mandated`: what stands behind every accepted settlement.
-/

namespace MaximProtocol

open MachineInt World Transitions

variable {Pubkey : Type}

/-! ## 1. Changes of the standing -/

inductive AgentChange (Pubkey : Type) where
  | registered (owner : Pubkey)
  | closed
  | activated (isActive : Bool)
  | froze (isFrozen : Bool)
  | handedOver (newOwner : Pubkey)
  | limited (params : SetSpendPolicyParams)

/-- The wallet address that an instruction changes the standing of, and the change. -/
def Instruction.agentChange : Instruction Pubkey → Option (Pubkey × AgentChange Pubkey)
  | .registerAgent accs _ => some (accs.agentWallet, .registered accs.owner)
  | .closeAgent accs => some (accs.agentWallet, .closed)
  | .deactivateAgent accs => some (accs.agentWallet, .activated false)
  | .reactivateAgent accs => some (accs.agentWallet, .activated true)
  | .freezeAgent accs => some (accs.agentWallet, .froze true)
  | .unfreezeAgent accs => some (accs.agentWallet, .froze false)
  | .transferOwnership accs newOwner => some (accs.agentWallet, .handedOver newOwner)
  | .setSpendPolicy accs params => some (accs.agentWallet, .limited params)
  | _ => none

/-- The change that a transition makes to the standing of `k`. -/
def agentChange [DecidableEq Pubkey] (k : Pubkey)
    (x : Transition (World Pubkey) (Action Pubkey)) : Option (AgentChange Pubkey) :=
  match x.label with
  | .accepted _ i => (i.agentChange.filter fun c => c.1 = k).map Prod.snd
  | _ => none

def agentChanges [DecidableEq Pubkey] (k : Pubkey) (tr : Trace Pubkey) :
    List (AgentChange Pubkey) := tr.filterMap (agentChange k)

/-- What the owner set a policy to. -/
def SpendPolicy.params (p : SpendPolicy Pubkey) : SetSpendPolicyParams where
  dailyBudget := p.dailyBudget
  weeklyBudget := p.weeklyBudget
  perCallLimit := p.perCallLimit
  rateLimitCalls := p.rateLimitCalls
  rateLimitWindowSecs := p.rateLimitWindowSecs
  highValueThreshold := p.highValueThreshold
  monthlyBudget := p.monthlyBudget
  allowedDomainHashes := p.allowedDomainHashes
  blockedDomainHashes := p.blockedDomainHashes

structure Standing (Pubkey : Type) where
  owner : Pubkey
  isActive : Bool
  isFrozen : Bool
  limits : Option SetSpendPolicyParams

/-- The standing of the wallet `k` with the policy account `q`. -/
def standing (k q : Pubkey) (s : World Pubkey) : Option (Standing Pubkey) :=
  (s.wallet k).map fun w => ⟨w.owner, w.isActive, w.isFrozen, (s.policy q).map SpendPolicy.params⟩

/-- The standing after a change. -/
def amendStanding (t : Option (Standing Pubkey)) : AgentChange Pubkey → Option (Standing Pubkey)
  | .registered owner => some ⟨owner, true, false, none⟩
  | .closed => none
  | .activated isActive => t.map fun t => { t with isActive := isActive }
  | .froze isFrozen => t.map fun t => { t with isFrozen := isFrozen }
  | .handedOver newOwner => t.map fun t => { t with owner := newOwner }
  | .limited params => t.map fun t => { t with limits := some params }

/-! ## 2. One step -/

variable [DecidableEq Pubkey] [Inhabited Pubkey] {rt : Runtime Pubkey} {s s' : World Pubkey}
variable {x : Transition (World Pubkey) (Action Pubkey)} {tr : Trace Pubkey} {now : Int64}
variable {i : Instruction Pubkey} {a k q : Pubkey} {bump : UInt8} {c : AgentChange Pubkey}

section Views

omit [Inhabited Pubkey]

theorem agentChange_here (h : i.agentChange = some (k, c)) :
    agentChange k ⟨s, .accepted now i, s'⟩ = some c := by
  simp [agentChange, h]

theorem agentChange_elsewhere (h : i.agentChange = some (a, c)) (hne : a ≠ k) :
    agentChange k ⟨s, .accepted now i, s'⟩ = none := by
  simp [agentChange, h, hne]

theorem agentChange_some (h : agentChange k x = some c) :
    ∃ now i, x.label = .accepted now i ∧ i.agentChange = some (k, c) := by
  unfold agentChange at h
  split at h
  · next now i hl =>
    obtain ⟨⟨_, _⟩, hfilter, rfl⟩ := Option.map_eq_some_iff.mp h
    obtain ⟨hi, hk⟩ := Option.filter_eq_some_iff.mp hfilter
    rw [decide_eq_true_eq] at hk
    exact ⟨now, i, hl, hk ▸ hi⟩
  · cases h

omit [DecidableEq Pubkey] in
theorem standing_congr (hw : s'.wallet k = s.wallet k) (hp : s'.policy q = s.policy q) :
    standing k q s' = standing k q s := by
  rw [standing, hw, hp, standing]

/-- An edit of the flags and the owner at `a`, seen from `k`. -/
theorem standing_edit {w w' : AgentWallet Pubkey} (h : Edits a s s' w w')
    (hi : i.agentChange = some (a, c))
    (hc : ∀ limits, amendStanding (some ⟨w.owner, w.isActive, w.isFrozen, limits⟩) c =
      some ⟨w'.owner, w'.isActive, w'.isFrozen, limits⟩) :
    standing k q s' = project (agentChange k) amendStanding (standing k q s)
      [⟨s, .accepted now i, s'⟩] := by
  rw [project_single]
  by_cases hk : a = k
  · subst hk
    rw [agentChange_here hi, standing, standing, h.views.wallet, h.views.policy, h.wallet,
      Function.update_self]
    exact (hc _).symm
  · rw [agentChange_elsewhere hi hk]
    refine standing_congr ?_ (by rw [h.views.policy])
    rw [h.views.wallet, Function.update_of_ne (Ne.symm hk)]

/-- A settlement keeps the standing of every agent. -/
theorem standing_settled {accs : SettlePayment Pubkey} {n : UInt64}
    {params : SettlePaymentParams Pubkey} {ctx : SettlePayment.Loaded Pubkey}
    {w : AgentWallet Pubkey} {p : SpendPolicy Pubkey}
    (h : Settles rt now accs n params s s' ctx w p) :
    standing k q s' = standing k q s := by
  obtain ⟨_, hv⟩ := h.views
  have hpolicy : (s'.policy q).map SpendPolicy.params = (s.policy q).map SpendPolicy.params := by
    rw [hv.policy]
    by_cases hne : accs.spendPolicy = q
    · obtain ⟨_, _, hframe, _⟩ := passed_policy h.passed
      rw [← hne, Function.update_self, h.validates.policy, hframe]
      rfl
    · rw [Function.update_of_ne (Ne.symm hne)]
  rw [standing, standing, hpolicy, hv.wallet]
  by_cases hk : accs.agentWallet = k
  · obtain ⟨_, _, _, _, _, _, hframe⟩ := (passed_resets h.passed).frame
    rw [← hk, Function.update_self, h.validates.wallet, hframe]
    rfl
  · rw [Function.update_of_ne (Ne.symm hk)]

end Views

/-- The standing is changed as the transition says. -/
theorem standing_step (hreach : Reachable rt x.pre) (hs : Step rt x.pre x.label x.post)
    (hq : rt.findProgramAddress (.spendPolicy k) = some (q, bump)) :
    standing k q x.post = project (agentChange k) amendStanding (standing k q x.pre) [x] := by
  obtain ⟨s, act, s'⟩ := x
  cases hs with
  | rejected _ => rfl
  | outside h =>
    have hv := outside_views h
    exact standing_congr (by rw [hv.wallet]) (by rw [hv.policy])
  | accepted h =>
    cases (execute_effect h).2 with
    | initProtocol _ _ _ hv => exact standing_congr (by rw [hv.wallet]) (by rw [hv.policy])
    | rotateProtocolAdmin _ hc =>
      exact standing_congr (by rw [hc.views.wallet]) (by rw [hc.views.policy])
    | updateProtocolConfig hc =>
      exact standing_congr (by rw [hc.views.wallet]) (by rw [hc.views.policy])
    | @registerAgent accs _ _ hr =>
      rw [project_single]
      by_cases hk : accs.agentWallet = k
      · have hfresh := policy_needs_wallet hreach hq (hk ▸ (free_iff.mp hr.free).2.1)
        rw [agentChange_here (c := .registered accs.owner) (by rw [← hk]; rfl), standing,
          hr.views.wallet, hr.views.policy, ← hk, Function.update_self, hfresh]
        rfl
      · rw [agentChange_elsewhere rfl hk]
        refine standing_congr ?_ (by rw [hr.views.policy])
        rw [hr.views.wallet, Function.update_of_ne (Ne.symm hk)]
    | @setSpendPolicy accs params w _ hp =>
      rw [project_single]
      by_cases hk : accs.agentWallet = k
      · have haddr := hp.addr
        rw [hk, hq] at haddr
        obtain rfl : q = accs.spendPolicy := (Prod.mk.inj (Option.some.inj haddr)).1
        rw [agentChange_here (c := .limited params) (by rw [← hk]; rfl), standing, standing,
          hp.views.wallet, hp.views.policy, Function.update_self, ← hk, hp.wallet]
        rfl
      · rw [agentChange_elsewhere rfl hk]
        refine standing_congr (by rw [hp.views.wallet]) ?_
        rw [hp.views.policy, Function.update_of_ne]
        rintro rfl
        exact hk (policy_seeds_inj (rt.find_create hp.addr) hq)
    | settlePayment hsettles => exact standing_settled hsettles
    | @recordPolicyViolation accs _ _ _ w _ hv =>
      obtain ⟨_, _, hviews⟩ := hv.views
      rw [project_single]
      show standing k q s' = standing k q s
      rw [standing, standing, hviews.wallet, hviews.policy]
      by_cases hk : accs.agentWallet = k
      · rw [← hk, Function.update_self, hv.validates.wallet]
        rfl
      · rw [Function.update_of_ne (Ne.symm hk)]
    | deactivateAgent _ he => exact standing_edit he rfl fun _ => rfl
    | reactivateAgent _ he => exact standing_edit he rfl fun _ => rfl
    | freezeAgent _ _ _ he => exact standing_edit he rfl fun _ => rfl
    | unfreezeAgent _ _ _ he => exact standing_edit he rfl fun _ => rfl
    | withdrawFunds hw => exact standing_congr (by rw [hw.views.wallet]) (by rw [hw.views.policy])
    | withdrawAll hw => exact standing_congr (by rw [hw.views.wallet]) (by rw [hw.views.policy])
    | transferOwnership _ _ _ he => exact standing_edit he rfl fun _ => rfl
    | @closeAgent accs _ _ _ hc =>
      rw [project_single]
      by_cases hk : accs.agentWallet = k
      · rw [agentChange_here (c := .closed) (by rw [← hk]; rfl), standing, hc.views.wallet, ← hk,
          Function.update_self]
        rfl
      · rw [agentChange_elsewhere rfl hk]
        refine standing_congr ?_ ?_
        · rw [hc.views.wallet, Function.update_of_ne (Ne.symm hk)]
        · rw [hc.views.policy, Function.update_of_ne]
          rintro rfl
          exact hk (policy_seeds_inj hc.policy_seeds hq)

/-- The standing after a run from the beginning. -/
theorem standing_current (h0 : Genesis rt s) (hr : Reaches rt s tr s')
    (hq : rt.findProgramAddress (.spendPolicy k) = some (q, bump)) :
    standing k q s' = (agentChanges k tr).foldl amendStanding none := by
  obtain ⟨_, hproject⟩ := run_projects (standing k q) (I := Reachable rt) hr
    (reachable_init h0) fun x _ hs hI => ⟨reachable_step hI hs, standing_step hI hs hq⟩
  have hnone : standing k q s = none := by
    rw [standing, genesis_wallet h0]
    rfl
  rw [hnone] at hproject
  exact hproject

/-- A registration finds no wallet, every other change finds one. -/
theorem change_wallet (hs : Step rt x.pre x.label x.post) (hc : agentChange k x = some c) :
    ((∃ owner, c = .registered owner) ∧ x.pre.wallet k = none) ∨
      ((∀ owner, c ≠ .registered owner) ∧ ∃ w, x.pre.wallet k = some w) := by
  obtain ⟨now, i, hl, hi⟩ := agentChange_some hc
  rw [hl] at hs
  cases (step_effect hs).2 with
  | initProtocol => cases hi
  | rotateProtocolAdmin => cases hi
  | updateProtocolConfig => cases hi
  | registerAgent hr =>
    cases hi
    exact .inl ⟨⟨_, rfl⟩, (free_iff.mp hr.free).2.1⟩
  | setSpendPolicy hp =>
    cases hi
    exact .inr ⟨fun _ => nofun, _, hp.wallet⟩
  | settlePayment => cases hi
  | recordPolicyViolation => cases hi
  | deactivateAgent _ he =>
    cases hi
    exact .inr ⟨fun _ => nofun, _, he.wallet⟩
  | reactivateAgent _ he =>
    cases hi
    exact .inr ⟨fun _ => nofun, _, he.wallet⟩
  | freezeAgent _ _ _ he =>
    cases hi
    exact .inr ⟨fun _ => nofun, _, he.wallet⟩
  | unfreezeAgent _ _ _ he =>
    cases hi
    exact .inr ⟨fun _ => nofun, _, he.wallet⟩
  | withdrawFunds => cases hi
  | withdrawAll => cases hi
  | transferOwnership _ _ _ he =>
    cases hi
    exact .inr ⟨fun _ => nofun, _, he.wallet⟩
  | closeAgent hcloses =>
    cases hi
    exact .inr ⟨fun _ => nofun, _, hcloses.wallet⟩

/-- The same of the standing that the earlier changes fold to. -/
theorem change_known {l : List (AgentChange Pubkey)} (h0 : Genesis rt s) (hr : Reaches rt s tr s')
    (hq : rt.findProgramAddress (.spendPolicy k) = some (q, bump))
    (hl : l ++ [c] <+: agentChanges k tr) :
    ((∃ owner, c = .registered owner) ∧ l.foldl amendStanding none = none) ∨
      ((∀ owner, c ≠ .registered owner) ∧ ∃ t, l.foldl amendStanding none = some t) := by
  obtain ⟨r, hr'⟩ := hl
  rw [List.append_assoc] at hr'
  obtain ⟨l', x, m, rfl, rfl, hx, -⟩ := emitted_split hr'.symm
  obtain ⟨hrun, hs, -⟩ := run_middle hr
  have hcurrent := standing_current h0 hrun hq
  rcases change_wallet hs hx with ⟨hc, hw⟩ | ⟨hc, w, hw⟩
  · rw [standing, hw] at hcurrent
    exact .inl ⟨hc, hcurrent.symm⟩
  · rw [standing, hw] at hcurrent
    exact .inr ⟨hc, _, hcurrent.symm⟩

/-! ## 3. What has held since -/

/-- Registered, and not closed since. -/
def RegisteredSince : List (AgentChange Pubkey) → Prop :=
  Since (fun c => c ≠ .closed) fun c => ∃ owner, c = .registered owner

/-- Registered or reactivated, and neither closed nor deactivated since. -/
def ActiveSince : List (AgentChange Pubkey) → Prop :=
  Since (fun c => c ≠ .closed ∧ c ≠ .activated false)
    fun c => (∃ owner, c = .registered owner) ∨ c = .activated true

/-- Frozen, and neither closed nor unfrozen since. -/
def FrozenSince : List (AgentChange Pubkey) → Prop :=
  Since (fun c => c ≠ .closed ∧ c ≠ .froze false) fun c => c = .froze true

/-- Registered by `owner` or handed over to it, and neither closed nor handed over since. -/
def OwnedSince (owner : Pubkey) : List (AgentChange Pubkey) → Prop :=
  Since (fun c => c ≠ .closed ∧ ∀ o, c ≠ .handedOver o)
    fun c => c = .registered owner ∨ c = .handedOver owner

/-- Limited by `params`, and neither closed nor limited anew since. -/
def LimitedSince (params : SetSpendPolicyParams) : List (AgentChange Pubkey) → Prop :=
  Since (fun c => c ≠ .closed ∧ ∀ p, c ≠ .limited p) fun c => c = .limited params

/-- A fact about standings, given what each change makes of it. -/
theorem standing_fact {f : Standing Pubkey → Prop} {keep start : AgentChange Pubkey → Prop}
    (h0 : Genesis rt s) (hr : Reaches rt s tr s')
    (hq : rt.findProgramAddress (.spendPolicy k) = some (q, bump))
    (hnew : ∀ owner, f ⟨owner, true, false, none⟩ ↔ start (.registered owner))
    (hstep : ∀ t c, (∀ owner, c ≠ .registered owner) →
      ((∃ t', amendStanding (some t) c = some t' ∧ f t') ↔ start c ∨ keep c ∧ f t)) :
    (∃ t, standing k q s' = some t ∧ f t) ↔ Since keep start (agentChanges k tr) := by
  rw [standing_current h0 hr hq]
  refine fold_since (φ := fun v => ∃ t, v = some t ∧ f t) (fun ⟨_, h, _⟩ => nomatch h) ?_
  intro a c ha
  rcases change_known h0 hr hq ha with ⟨⟨owner, rfl⟩, hnone⟩ | ⟨hc, t, hsome⟩
  · rw [hnone, ← hnew]
    constructor
    · rintro ⟨t, ht, hf⟩
      cases ht
      exact .inl hf
    · rintro (hf | ⟨-, _, h, -⟩)
      · exact ⟨_, rfl, hf⟩
      · cases h
  · rw [hsome, hstep t c hc]
    simp

/-- The wallet at `k` and its policy at `q`, as what has held since some change. -/
structure StandingSince (k q : Pubkey) (l : List (AgentChange Pubkey)) (s' : World Pubkey) :
    Prop where
  registered : (∃ w, s'.wallet k = some w) ↔ RegisteredSince l
  active : (∃ w, s'.wallet k = some w ∧ w.isActive = true) ↔ ActiveSince l
  frozen : (∃ w, s'.wallet k = some w ∧ w.isFrozen = true) ↔ FrozenSince l
  owner : ∀ owner, (∃ w, s'.wallet k = some w ∧ w.owner = owner) ↔ OwnedSince owner l
  limits : ∀ params, (∃ p, s'.policy q = some p ∧ p.params = params) ↔ LimitedSince params l

section Facts

omit [DecidableEq Pubkey] [Inhabited Pubkey]

theorem standing_wallet {f : Standing Pubkey → Prop} {g : AgentWallet Pubkey → Prop}
    (hf : ∀ w limits, f ⟨w.owner, w.isActive, w.isFrozen, limits⟩ ↔ g w) :
    (∃ t, standing k q s = some t ∧ f t) ↔ ∃ w, s.wallet k = some w ∧ g w := by
  rw [standing]
  constructor
  · rintro ⟨t, ht, hft⟩
    obtain ⟨w, hw, rfl⟩ := Option.map_eq_some_iff.mp ht
    exact ⟨w, hw, (hf w _).mp hft⟩
  · rintro ⟨w, hw, hg⟩
    exact ⟨_, Option.map_eq_some_iff.mpr ⟨w, hw, rfl⟩, (hf w _).mpr hg⟩

end Facts

theorem wallet_since (h0 : Genesis rt s) (hr : Reaches rt s tr s')
    (hq : rt.findProgramAddress (.spendPolicy k) = some (q, bump)) :
    (∃ w, s'.wallet k = some w) ↔ RegisteredSince (agentChanges k tr) := by
  have h : (∃ t, standing k q s' = some t ∧ True) ↔ RegisteredSince (agentChanges k tr) := by
    refine standing_fact h0 hr hq (by simp) ?_
    intro t c hc
    cases c <;> simp_all [amendStanding]
  rw [standing_wallet (g := fun _ => True) (by simp)] at h
  simp only [and_true] at h
  exact h

theorem active_since (h0 : Genesis rt s) (hr : Reaches rt s tr s')
    (hq : rt.findProgramAddress (.spendPolicy k) = some (q, bump)) :
    (∃ w, s'.wallet k = some w ∧ w.isActive = true) ↔ ActiveSince (agentChanges k tr) := by
  rw [← standing_wallet (k := k) (q := q) (f := fun t => t.isActive = true) fun _ _ => Iff.rfl]
  refine standing_fact h0 hr hq (by simp) ?_
  intro t c hc
  cases c <;> simp_all [amendStanding]

theorem frozen_since (h0 : Genesis rt s) (hr : Reaches rt s tr s')
    (hq : rt.findProgramAddress (.spendPolicy k) = some (q, bump)) :
    (∃ w, s'.wallet k = some w ∧ w.isFrozen = true) ↔ FrozenSince (agentChanges k tr) := by
  rw [← standing_wallet (k := k) (q := q) (f := fun t => t.isFrozen = true) fun _ _ => Iff.rfl]
  refine standing_fact h0 hr hq (by simp) ?_
  intro t c hc
  cases c <;> simp_all [amendStanding]

theorem owner_since (h0 : Genesis rt s) (hr : Reaches rt s tr s')
    (hq : rt.findProgramAddress (.spendPolicy k) = some (q, bump)) (owner : Pubkey) :
    (∃ w, s'.wallet k = some w ∧ w.owner = owner) ↔ OwnedSince owner (agentChanges k tr) := by
  rw [← standing_wallet (k := k) (q := q) (f := fun t => t.owner = owner) fun _ _ => Iff.rfl]
  refine standing_fact h0 hr hq (by simp) ?_
  intro t c hc
  cases c <;> simp_all [amendStanding]

theorem limits_since (h0 : Genesis rt s) (hr : Reaches rt s tr s')
    (hq : rt.findProgramAddress (.spendPolicy k) = some (q, bump))
    (params : SetSpendPolicyParams) :
    (∃ p, s'.policy q = some p ∧ p.params = params) ↔
      LimitedSince params (agentChanges k tr) := by
  have hpolicy : (∃ t, standing k q s' = some t ∧ t.limits = some params) ↔
      ∃ p, s'.policy q = some p ∧ p.params = params := by
    rw [← Option.map_eq_some_iff, standing]
    cases hw : s'.wallet k with
    | none =>
      rw [policy_needs_wallet (reachable_run (reachable_init h0) hr) hq hw]
      simp
    | some w => simp
  rw [← hpolicy]
  refine standing_fact h0 hr hq (by simp) ?_
  intro t c hc
  cases c <;> simp_all [amendStanding]

/-- **The standing of an agent is its history.** After every run from the beginning, through
closes and new registrations, whether a wallet is there, is active, is frozen, who owns it
and under which policy it pays are what the accepted instructions say has held since. -/
theorem standing_since (h0 : Genesis rt s) (hr : Reaches rt s tr s')
    (hq : rt.findProgramAddress (.spendPolicy k) = some (q, bump)) :
    StandingSince k q (agentChanges k tr) s' where
  registered := wallet_since h0 hr hq
  active := active_since h0 hr hq
  frozen := frozen_since h0 hr hq
  owner := owner_since h0 hr hq
  limits := limits_since h0 hr hq

theorem standing_since_opening :
    StandingSince (Demo.wallet Demo.alice) (.spendPolicy (Demo.wallet Demo.alice))
      (agentChanges (Demo.wallet Demo.alice) (replay Key.runtime Demo.chain Demo.opening))
      (submitAll Key.runtime Demo.chain Demo.opening) :=
  standing_since Demo.genesis_chain (replay_reaches Key.runtime Demo.chain Demo.opening) rfl

/-! ## 4. What stands behind a settlement -/

/-- What the limits ask of one payment that is not below their threshold. -/
structure SetSpendPolicyParams.Allows (limits : SetSpendPolicyParams)
    (params : SettlePaymentParams Pubkey) : Prop where
  per_call : limits.perCallLimit ≠ 0 → params.amountUsdc ≤ limits.perCallLimit
  daily : limits.dailyBudget ≠ 0 → params.amountUsdc ≤ limits.dailyBudget
  weekly : limits.weeklyBudget ≠ 0 → params.amountUsdc ≤ limits.weeklyBudget
  monthly : limits.monthlyBudget ≠ 0 → params.amountUsdc ≤ limits.monthlyBudget
  not_blocked : params.domainHash ∉ limits.blockedDomainHashes
  allowed : limits.allowedDomainHashes = [] ∨ params.domainHash ∈ limits.allowedDomainHashes

/-- The trace gives `owner` the right to make a payment from the wallet `k`. -/
structure Mandated (k owner : Pubkey) (params : SettlePaymentParams Pubkey) (tr : Trace Pubkey) :
    Prop where
  owner : OwnedSince owner (agentChanges k tr)
  active : ActiveSince (agentChanges k tr)
  not_frozen : ¬ FrozenSince (agentChanges k tr)
  /-- The owner of that time has set the limits, which neither a close nor other limits have
  replaced. -/
  limits : ∃ l x m accs limits, tr = l ++ x :: m ∧ Accepts x (.setSpendPolicy accs limits) ∧
    accs.agentWallet = k ∧ OwnedSince accs.owner (agentChanges k l) ∧
    (∀ c ∈ agentChanges k m, c ≠ .closed ∧ ∀ p, c ≠ .limited p) ∧
    (0 < limits.highValueThreshold → limits.highValueThreshold ≤ params.amountUsdc →
      limits.Allows params)

section Enforced

omit [DecidableEq Pubkey] [Inhabited Pubkey]

variable {params : SettlePaymentParams Pubkey} {w : AgentWallet Pubkey} {p p' : SpendPolicy Pubkey}

/-- An enforced payment is within every budget, whatever was spent before. -/
theorem enforced_budget (h : Enforced now w p params p') (horizon : Horizon)
    (hne : horizon.budget p ≠ 0) : params.amountUsdc ≤ horizon.budget p := by
  have hle := h.budget horizon fun h0 => hne (UInt64.toNat_inj.mp h0)
  have hmax := params.amountUsdc.toNat_lt
  rw [UInt64.le_iff_toNat_le]
  refine Nat.le_trans (Nat.le_min.mpr ⟨?_, Nat.le_add_left _ _⟩) hle
  exact Nat.le_of_lt_succ hmax

theorem enforced_allows (h : Enforced now w p params p') : p.params.Allows params where
  per_call hne := by
    have hcall := h.per_call
    rw [SpendPolicy.withinPerCallLimit, Bool.or_eq_true, beq_iff_eq, decide_eq_true_eq] at hcall
    exact hcall.resolve_left hne
  daily := enforced_budget h .daily
  weekly := enforced_budget h .weekly
  monthly := enforced_budget h .monthly
  not_blocked := h.not_blocked
  allowed := h.allowed

end Enforced

omit [Inhabited Pubkey] in
theorem settled_allows {accs : SettlePayment Pubkey} {n : UInt64}
    {params : SettlePaymentParams Pubkey} {ctx : SettlePayment.Loaded Pubkey}
    {w : AgentWallet Pubkey} {p : SpendPolicy Pubkey}
    (h : Settles rt now accs n params s s' ctx w p) :
    0 < ctx.policy.params.highValueThreshold →
      ctx.policy.params.highValueThreshold ≤ params.amountUsdc →
      ctx.policy.params.Allows params := by
  intro hpos hle
  have hon : ctx.policy.enforceOnChain params.amountUsdc = true := by
    rw [SpendPolicy.enforceOnChain, Bool.and_eq_true, decide_eq_true_eq, decide_eq_true_eq]
    exact ⟨hpos, hle⟩
  exact enforced_allows (h.passed.enforced hon)

/-- Limits are set by the owner. -/
theorem limited_owner {limits : SetSpendPolicyParams} (hs : Step rt x.pre x.label x.post)
    (hx : agentChange k x = some (.limited limits)) :
    ∃ accs w, Accepts x (.setSpendPolicy accs limits) ∧ accs.agentWallet = k ∧
      x.pre.wallet k = some w ∧ w.owner = accs.owner := by
  obtain ⟨now, i, hl, hi⟩ := agentChange_some hx
  rw [hl] at hs
  cases (step_effect hs).2 with
  | setSpendPolicy h =>
    cases hi
    exact ⟨_, _, ⟨now, hl⟩, rfl, h.wallet, h.owner⟩
  | _ => cases hi

/-- **Every settlement has a mandate.** In every run from the beginning, each accepted
settlement is signed by the key that was the last to register the wallet or to have it handed
over, the wallet was neither deactivated nor frozen last, and the payment is allowed by the
limits that the owner of the time set last. -/
theorem settlement_mandated (h0 : Genesis rt s) (hr : Reaches rt s tr s') :
    ∀ l x m accs n params, tr = l ++ x :: m → Accepts x (.settlePayment accs n params) →
      Mandated accs.agentWallet accs.owner params l := by
  rintro l ⟨v, _, v'⟩ m accs n params rfl ⟨now, rfl⟩
  obtain ⟨hl, hs, -⟩ := run_middle hr
  cases (step_effect hs).2 with
  | @settlePayment _ _ _ ctx w p h =>
    have hv := h.validates
    have hreach := reachable_run (reachable_init h0) hl
    have hq := (reachable_wellFormed hreach).policy hv.policy
    rw [hv.policy_wallet] at hq
    obtain ⟨l', y, m', c, rfl, hy, rfl, hkeep⟩ :=
      since_steps ((limits_since h0 hl hq ctx.policy.params).mp ⟨_, hv.policy, rfl⟩)
    refine ⟨?_, ?_, ?_, ?_⟩
    · exact (owner_since h0 hl hq _).mp ⟨_, hv.wallet, hv.owner⟩
    · exact (active_since h0 hl hq).mp ⟨_, hv.wallet, h.passed.active⟩
    · intro hfrozen
      obtain ⟨w', hw', htrue⟩ := (frozen_since h0 hl hq).mpr hfrozen
      rw [hv.wallet] at hw'
      cases hw'
      rw [h.passed.not_frozen] at htrue
      cases htrue
    · obtain ⟨hl', hsy, -⟩ := run_middle hl
      obtain ⟨accs', w', hset, hk, hw', howner⟩ := limited_owner hsy hy
      exact ⟨l', y, m', accs', _, rfl, hset, hk, (owner_since h0 hl' hq _).mp ⟨_, hw', howner⟩,
        hkeep, settled_allows h⟩

/-- The submissions before a payment of 70 that the limits apply to. -/
def Demo.underLimits : List (Submission Key) :=
  [initProtocol, register alice owner (mint 0) 100, setPolicy alice owner 500 10 100]

theorem settlement_mandated_opening :
    Mandated (Demo.wallet Demo.alice) Demo.owner (Demo.params Demo.alice 70)
      (replay Key.runtime Demo.chain Demo.underLimits) := by
  have hok : succeeds Key.runtime (submitAll Key.runtime Demo.chain Demo.underLimits)
      (Demo.settle Demo.alice Demo.owner 0 (Demo.mint 1) (.associated Demo.payee (Demo.mint 1))
        70 200) = true := by decide +kernel
  exact settlement_mandated Demo.genesis_chain
    (replay_reaches Key.runtime Demo.chain (Demo.underLimits ++ [_])) _ _ [] _ _ _
    (replay_append Demo.chain Demo.underLimits [_]) (transition_accepts hok)

end MaximProtocol
