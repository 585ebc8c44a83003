import MaximProtocol.Bystanders

/-!
# Leaving

An agent is wound down in up to four instructions, all signed by its owner: a policy is set
if there is none, since `close_agent` asks for one; the wallet is deactivated; the funds are
withdrawn if there are any; the wallet is closed.

1. `Performs`: submissions that all succeed, one after the other;
2. the four instructions;
3. `owner_exits`: in every reachable state the plan goes through, unless the freeze authority
   of the mint holds funds that have to be moved.
-/

namespace MaximProtocol

open MachineInt World Transitions

variable {Pubkey : Type} [DecidableEq Pubkey]

/-! ## 1. Submissions that succeed -/

section Performs

variable [Inhabited Pubkey] {rt : Runtime Pubkey} {s s' t : World Pubkey}
variable {l m : List (Submission Pubkey)} {x : Submission Pubkey}

/-- Submitted from `s`, all of `l` are accepted, and leave `s'`. -/
structure Performs (rt : Runtime Pubkey) (s : World Pubkey) (l : List (Submission Pubkey))
    (s' : World Pubkey) : Prop where
  accepted : ∀ x ∈ replay rt s l, ∃ now i, x.label = .accepted now i
  final : submitAll rt s l = s'

theorem performs_nil (s : World Pubkey) : Performs rt s [] s where
  accepted _ hx := absurd hx List.not_mem_nil
  final := rfl

theorem performs_single (h : succeeds rt s x = true) : Performs rt s [x] (submit rt s x) where
  accepted y hy := by
    rw [replay, replay, List.mem_singleton] at hy
    exact ⟨_, _, hy ▸ transition_label h⟩
  final := rfl

theorem performs_of_plans {now : Int64} {i : Instruction Pubkey} {d : Delta Pubkey}
    (hsign : rt.canSign i.signer = true) (h : Plans rt now s i d) :
    Performs rt s [(now, i)] (d.apply s) ∧ Effect rt now s (d.apply s) i := by
  have hok : succeeds rt s (now, i) = true := succeeds_iff.mpr ⟨hsign, d, h⟩
  have hsubmit : submit rt s (now, i) = d.apply s := submit_of_plans hsign h
  rw [← hsubmit]
  exact ⟨performs_single hok, (step_effect (submit_accepted hok)).2⟩

theorem performs_append (h : Performs rt s l t) (h' : Performs rt t m s') :
    Performs rt s (l ++ m) s' where
  accepted x hx := by
    rw [replay_append, h.final, List.mem_append] at hx
    exact hx.elim (h.accepted x) (h'.accepted x)
  final := by
    rw [submitAll, List.foldl_append]
    exact (congrArg (fun v => submitAll rt v m) h.final).trans h'.final

theorem performs_reachable (hreach : Reachable rt s) (h : Performs rt s l s') :
    Reachable rt s' := by
  rw [← h.final]
  exact reachable_run hreach (replay_reaches rt s l)

end Performs

/-! ## 2. The plan -/

/-- A policy without a limit. -/
def SetSpendPolicyParams.unlimited : SetSpendPolicyParams where
  dailyBudget := 0
  weeklyBudget := 0
  perCallLimit := 0
  rateLimitCalls := 0
  rateLimitWindowSecs := 0
  highValueThreshold := 0
  monthlyBudget := 0
  allowedDomainHashes := []
  blockedDomainHashes := []

/-- What the owner of the wallet `w` at `k` submits, at the readings `clock` of the clock. -/
def exitPlan (rt : Runtime Pubkey) (clock : Nat → Int64) (s : World Pubkey)
    (w : AgentWallet Pubkey) (k q mint : Pubkey) : List (Submission Pubkey) :=
  (if (s.policy q).isNone then
    [(clock 0, .setSpendPolicy ⟨q, k, w.owner⟩ .unlimited)] else []) ++
  [(clock 1, .deactivateAgent ⟨k, w.owner⟩)] ++
  (if s.tokens.balance w.usdcTokenAccount = 0 then [] else
    [(clock 2, .withdrawAll ⟨k, w.usdcTokenAccount, rt.associatedTokenAddress w.owner mint, mint,
      w.owner⟩)]) ++
  [(clock 3, .closeAgent ⟨k, q, w.usdcTokenAccount, mint, w.owner⟩)]

/-- The wallet at `k` and its policy at `q` are gone, what `source` held is at `destination`,
and nothing else has changed. -/
structure Exited (k q source destination : Pubkey) (s s' : World Pubkey) : Prop where
  wallet : s'.wallet = Function.update s.wallet k none
  policy : s'.policy = Function.update s.policy q none
  config : s'.config = s.config
  record : s'.record = s.record
  emptied : s'.tokens.balance source = 0
  received : s'.tokens.balance destination =
    s.tokens.balance destination + s.tokens.balance source
  others : ∀ a, a ≠ source → a ≠ destination → s'.tokens a = s.tokens a

section Exits

variable [Inhabited Pubkey] {rt : Runtime Pubkey} {s s' : World Pubkey} {now : Int64}
variable {k q mint : Pubkey} {bump : UInt8} {w : AgentWallet Pubkey}

/-- The owner can set a policy whenever there is none. -/
theorem perform_policy (hwf : WellFormed rt s) (hw : s.wallet k = some w)
    (hsign : rt.canSign w.owner = true)
    (hq : rt.findProgramAddress (.spendPolicy k) = some (q, bump)) (hnone : s.policy q = none) :
    ∃ p s', Performs rt s [(now, .setSpendPolicy ⟨q, k, w.owner⟩ .unlimited)] s' ∧
      Views s' s.config s.wallet (Function.update s.policy q (some p)) s.record s.tokens
        s.mints := by
  have hplan : Plans rt now s (.setSpendPolicy ⟨q, k, w.owner⟩ .unlimited)
      (.single q (.spendPolicy (SpendPolicy.ofParams k now .unlimited bump))) := by
    refine .setSpendPolicy ?_ (Nat.zero_le _) (Nat.zero_le _)
    exact policy_tryAccounts_eq_ok.mpr ⟨⟨w, hw, rfl⟩, hq, .inl (policy_slot_free hwf hq hnone)⟩
  obtain ⟨hperforms, heffect⟩ := performs_of_plans hsign hplan
  cases heffect with
  | setSpendPolicy h => exact ⟨_, _, hperforms, h.views⟩

/-- The owner can always deactivate. -/
theorem perform_deactivate (hw : s.wallet k = some w) (hsign : rt.canSign w.owner = true) :
    ∃ s', Performs rt s [(now, .deactivateAgent ⟨k, w.owner⟩)] s' ∧
      Views s' s.config (Function.update s.wallet k (some { w with isActive := false })) s.policy
        s.record s.tokens s.mints := by
  have hplan : Plans rt now s (.deactivateAgent ⟨k, w.owner⟩)
      (.single k (.agentWallet { w with isActive := false })) :=
    .deactivateAgent (loadWalletOfOwner_eq_ok.mpr ⟨hw, rfl⟩)
  obtain ⟨hperforms, heffect⟩ := performs_of_plans hsign hplan
  cases heffect with
  | deactivateAgent _ h =>
    have hv := h.wallet
    rw [hw] at hv
    cases hv
    exact ⟨_, hperforms, h.views⟩

/-- The owner can withdraw all there is, if there is anything. -/
theorem perform_withdraw {account : Pubkey} {b d : TokenAccount Pubkey} (hwf : WellFormed rt s)
    (hw : s.wallet k = some w) (hsign : rt.canSign w.owner = true)
    (hsource : w.usdcTokenAccount = rt.associatedTokenAddress k mint)
    (haccount : account = rt.associatedTokenAddress w.owner mint)
    (hb : s.tokens w.usdcTokenAccount = some b) (hd : s.tokens account = some d)
    (hdo : d.owner = w.owner) (hpos : 0 < b.amount)
    (hthawed : s.tokens.Thawed w.usdcTokenAccount ∧ s.tokens.Thawed account) :
    ∃ s', Performs rt s
        [(now, .withdrawAll ⟨k, w.usdcTokenAccount, account, mint, w.owner⟩)] s' ∧
      Views s' s.config s.wallet s.policy s.record s'.tokens s.mints ∧
      Moves w.usdcTokenAccount account b.amount s s' := by
  have hv : (⟨k, w.usdcTokenAccount, account, mint, w.owner⟩ : WithdrawFunds Pubkey).Validates rt s
      ⟨w, b, d⟩ := withdraw_validates hwf hw rfl hsource haccount hb hd hdo
  obtain ⟨s₁, ev, hok, hmoves⟩ :=
    withdrawAmount_moves now b.amount hwf hv hsign hthawed.1 hthawed.2 (UInt64.le_refl _)
  have hexec : execute rt now (.withdrawAll ⟨k, w.usdcTokenAccount, account, mint, w.owner⟩) s =
      .ok (s₁, ev) := by
    rw [withdrawAll_eq hv]
    exact (execute_withdrawFunds now b.amount hsign hv _).mpr ⟨hpos, UInt64.le_refl _, hok⟩
  obtain ⟨_, _, hplan, rfl⟩ := execute_iff_plans.mp ⟨ev, hexec⟩
  obtain ⟨hperforms, heffect⟩ := performs_of_plans hsign hplan
  cases heffect with
  | withdrawAll h => exact ⟨_, hperforms, h.views, hmoves⟩

/-- The owner can close an inactive wallet that has a policy and no funds. -/
theorem perform_close {p : SpendPolicy Pubkey} {t : TokenAccount Pubkey} (hwf : WellFormed rt s)
    (hw : s.wallet k = some w) (hsign : rt.canSign w.owner = true)
    (hinactive : w.isActive = false)
    (hq : rt.findProgramAddress (.spendPolicy k) = some (q, bump)) (hp : s.policy q = some p)
    (hsource : w.usdcTokenAccount = rt.associatedTokenAddress k mint)
    (ht : s.tokens w.usdcTokenAccount = some t) (hempty : t.amount = 0) :
    ∃ s', Performs rt s [(now, .closeAgent ⟨k, q, w.usdcTokenAccount, mint, w.owner⟩)] s' ∧
      Views s' s.config (Function.update s.wallet k none) (Function.update s.policy q none)
        s.record s.tokens s.mints := by
  have hseeds : rt.createProgramAddress (.spendPolicy k) p.bump = some q := by
    have hfind := hwf.policy hp
    have hcreate := rt.find_create hfind
    rw [← policy_seeds_inj hcreate hq]
    exact hcreate
  have hmint : t.mint = mint := associated_source hwf.lawful hsource ht
  have howner : t.owner = k := by
    rw [hsource] at ht
    exact hwf.lawful.associated_owner (find_derived rt (hwf.wallet hw)) ht
  have hplan : Plans rt now s (.closeAgent ⟨k, q, w.usdcTokenAccount, mint, w.owner⟩)
      ⟨[(k, none), (q, none)], .unchanged⟩ :=
    .closeAgent hw hp ht (hmint ▸ hwf.lawful.mint_exists ht) rfl hinactive
      (checkSeeds_eq_ok.mpr hseeds) (checkAssociated_eq_ok.mpr ⟨howner, hsource⟩) hempty
  obtain ⟨hperforms, heffect⟩ := performs_of_plans hsign hplan
  cases heffect with
  | closeAgent h => exact ⟨_, hperforms, h.views⟩

/-! ## 3. The whole plan -/

/-- A policy is set if there is none. -/
theorem plan_policy (hwf : WellFormed rt s) (hw : s.wallet k = some w)
    (hsign : rt.canSign w.owner = true)
    (hq : rt.findProgramAddress (.spendPolicy k) = some (q, bump)) :
    ∃ p s', Performs rt s (if (s.policy q).isNone then
        [(now, .setSpendPolicy ⟨q, k, w.owner⟩ .unlimited)] else []) s' ∧
      Views s' s.config s.wallet (Function.update s.policy q (some p)) s.record s.tokens
        s.mints := by
  cases hp : s.policy q with
  | none => exact perform_policy hwf hw hsign hq hp
  | some p =>
    refine ⟨p, s, performs_nil s, rfl, rfl, ?_, rfl, rfl, rfl⟩
    rw [← hp, Function.update_eq_self]

/-- The funds are withdrawn if there are any. -/
theorem plan_withdraw {account : Pubkey} {b d : TokenAccount Pubkey} (hwf : WellFormed rt s)
    (hw : s.wallet k = some w) (hsign : rt.canSign w.owner = true)
    (hsource : w.usdcTokenAccount = rt.associatedTokenAddress k mint)
    (haccount : account = rt.associatedTokenAddress w.owner mint)
    (hb : s.tokens w.usdcTokenAccount = some b) (hd : s.tokens account = some d)
    (hdo : d.owner = w.owner) (hthawed : s.tokens.balance w.usdcTokenAccount ≠ 0 →
      s.tokens.Thawed w.usdcTokenAccount ∧ s.tokens.Thawed account) :
    ∃ s' t, Performs rt s (if s.tokens.balance w.usdcTokenAccount = 0 then [] else
        [(now, .withdrawAll ⟨k, w.usdcTokenAccount, account, mint, w.owner⟩)]) s' ∧
      Views s' s.config s.wallet s.policy s.record s'.tokens s.mints ∧
      s'.tokens w.usdcTokenAccount = some t ∧ t.amount = 0 ∧
      s'.tokens.balance account =
        s.tokens.balance account + s.tokens.balance w.usdcTokenAccount ∧
      ∀ a, a ≠ w.usdcTokenAccount → a ≠ account → s'.tokens a = s.tokens a := by
  have hbalance : s.tokens.balance w.usdcTokenAccount = b.amount.toNat := by
    rw [Tokens.balance, hb]
  by_cases hzero : b.amount = 0
  · have hnil : s.tokens.balance w.usdcTokenAccount = 0 := by
      rw [hbalance, hzero]
      rfl
    rw [if_pos hnil]
    exact ⟨s, b, performs_nil s, ⟨rfl, rfl, rfl, rfl, rfl, rfl⟩, hb, hzero,
      by rw [hnil, Nat.add_zero], fun _ _ _ => rfl⟩
  · have hne : s.tokens.balance w.usdcTokenAccount ≠ 0 := by
      rw [hbalance]
      exact fun h0 => hzero (UInt64.toNat_inj.mp h0)
    rw [if_neg hne]
    obtain ⟨s', hperforms, hviews, hmoves⟩ := perform_withdraw hwf hw hsign hsource
      haccount hb hd hdo (UInt64.pos_iff_ne_zero.mpr hzero) (hthawed hne)
    obtain ⟨b', x, hb', hx, hsum⟩ := hmoves.debited
    rw [hb] at hb'
    cases hb'
    obtain ⟨d', y, hd', hy, hcredit⟩ := hmoves.credited
    rw [hd] at hd'
    cases hd'
    refine ⟨s', _, hperforms, hviews, hx, UInt64.toNat_inj.mp ?_, ?_, hmoves.others⟩
    · show x.toNat = 0
      omega
    · rw [hbalance, Tokens.balance, Tokens.balance, hy, hd]
      exact hcredit

/-- **The owner can always leave.** In every reachable state, whatever the flags, counters,
policy and cap are, and at any readings of the clock, the plan of a wallet's owner who has a
token account for the wallet's mint succeeds in full: the wallet and its policy are gone, the
owner has what the wallet held, and nothing else has changed. Only the freeze authority of the
mint can hold it up, where there are funds. -/
theorem owner_exits {d : TokenAccount Pubkey} (h : Reachable rt s) (hw : s.wallet k = some w)
    (hsign : rt.canSign w.owner = true)
    (hq : rt.findProgramAddress (.spendPolicy k) = some (q, bump))
    (hsource : w.usdcTokenAccount = rt.associatedTokenAddress k mint)
    (hd : s.tokens (rt.associatedTokenAddress w.owner mint) = some d) (hdo : d.owner = w.owner)
    (hthawed : s.tokens.balance w.usdcTokenAccount ≠ 0 → s.tokens.Thawed w.usdcTokenAccount ∧
      s.tokens.Thawed (rt.associatedTokenAddress w.owner mint))
    (clock : Nat → Int64) :
    ∃ s', Performs rt s (exitPlan rt clock s w k q mint) s' ∧
      Exited k q w.usdcTokenAccount (rt.associatedTokenAddress w.owner mint) s s' := by
  have hwf := reachable_wellFormed h
  obtain ⟨m, hm, htoken⟩ := hwf.token hw
  obtain ⟨b, hb⟩ := Option.ne_none_iff_exists'.mp htoken
  obtain ⟨p, s₁, hperforms₁, hv₁⟩ := plan_policy hwf hw hsign hq
  obtain ⟨s₂, hperforms₂, hv₂⟩ := perform_deactivate (hv₁.wallet ▸ hw) hsign
  have hperforms₁₂ := performs_append hperforms₁ hperforms₂
  have hwf₂ : WellFormed rt s₂ := reachable_wellFormed (performs_reachable h hperforms₁₂)
  have hw₂ : s₂.wallet k = some { w with isActive := false } := by
    rw [hv₂.wallet, Function.update_self]
  have htokens₂ : s₂.tokens = s.tokens := hv₂.tokens.trans hv₁.tokens
  rw [← htokens₂] at hb hd hthawed
  obtain ⟨s₃, t, hperforms₃, hv₃, ht, hempty, hreceived, hothers⟩ :=
    plan_withdraw hwf₂ hw₂ hsign hsource rfl hb hd hdo hthawed
  have hperforms₁₃ := performs_append hperforms₁₂ hperforms₃
  have hwf₃ : WellFormed rt s₃ := reachable_wellFormed (performs_reachable h hperforms₁₃)
  have hpolicy₃ : s₃.policy = Function.update s.policy q (some p) := by
    rw [hv₃.policy, hv₂.policy, hv₁.policy]
  have hw₃ : s₃.wallet k = some { w with isActive := false } := by rw [hv₃.wallet, hw₂]
  have hp₃ : s₃.policy q = some p := by rw [hpolicy₃, Function.update_self]
  obtain ⟨s₄, hperforms₄, hv₄⟩ :=
    perform_close hwf₃ hw₃ hsign rfl hq hp₃ hsource ht hempty
  have hperforms := performs_append hperforms₁₃ hperforms₄
  refine ⟨s₄, ?_, ?_, ?_, ?_, ?_, ?_, ?_, ?_⟩
  · rw [htokens₂] at hperforms
    exact hperforms
  · rw [hv₄.wallet, hv₃.wallet, hv₂.wallet, hv₁.wallet, Function.update_idem]
  · rw [hv₄.policy, hpolicy₃, Function.update_idem]
  · rw [hv₄.config, hv₃.config, hv₂.config, hv₁.config]
  · rw [hv₄.record, hv₃.record, hv₂.record, hv₁.record]
  · rw [hv₄.tokens, Tokens.balance, ht]
    exact congrArg UInt64.toNat hempty
  · rw [hv₄.tokens, hreceived, htokens₂]
  · intro a ha ha'
    rw [hv₄.tokens, hothers a ha ha', htokens₂]

end Exits

namespace Demo

/-- A wallet without a policy is paid by another wallet, and frozen. -/
def frozenFunds : List (Submission Key) :=
  [initProtocol, register bob payee (mint 1) 100, register alice owner (mint 0) 100,
    setPolicy alice owner 0 0 100,
    settle alice owner 0 (mint 1) (.associated (wallet bob) (mint 1)) 70 200, freeze bob 300]

def frozen : World Key := submitAll Key.runtime chain frozenFunds

def frozenWallet : AgentWallet Key :=
  { AgentWallet.registered bob payee (.associated (wallet bob) (mint 1)) 100 255 with
    isFrozen := true }

/-- All four instructions are needed. -/
example : (exitPlan Key.runtime (fun n => Int64.ofNat (400 + n)) frozen frozenWallet (wallet bob)
    (.spendPolicy (wallet bob)) (mint 1)).length = 4 := by decide

end Demo

theorem owner_exits_frozen :
    ∃ s', Performs Key.runtime Demo.frozen
        (exitPlan Key.runtime (fun n => Int64.ofNat (400 + n)) Demo.frozen Demo.frozenWallet
          (Demo.wallet Demo.bob) (.spendPolicy (Demo.wallet Demo.bob)) (Demo.mint 1)) s' ∧
      Exited (Demo.wallet Demo.bob) (.spendPolicy (Demo.wallet Demo.bob))
        (.associated (Demo.wallet Demo.bob) (Demo.mint 1))
        (.associated Demo.payee (Demo.mint 1)) Demo.frozen s' :=
  owner_exits (w := Demo.frozenWallet) (d := ⟨Demo.mint 1, Demo.payee, 0, false⟩)
    (Demo.reachable_chain Demo.frozenFunds) rfl rfl rfl rfl rfl rfl (fun _ => by decide) _

end MaximProtocol
