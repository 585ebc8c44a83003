import MaximProtocol.Instructions
import MaximProtocol.Library.Tumbling

/-!
# What each instruction does

One lemma for each function of `Instructions` that later proofs meet: when it
succeeds, and what it then returns.

1. the account constraints;
2. the contexts of settlement, violation and withdrawal;
3. the checks of a settlement, with the window resets as rolls of tumbling windows;
4. the token transfer;
5. the only checks of a ledger instruction that report an account in use or an overflow.
-/

namespace MaximProtocol

open MachineInt World Tumbling

variable {Pubkey : Type} [DecidableEq Pubkey] {rt : Runtime Pubkey} {s s' : World Pubkey}
variable {now : Int64}

/-! ## 1. Account constraints -/

section Constraints

variable {seeds : Seeds Pubkey} {bump : UInt8} {k owner admin authority mint : Pubkey} {u : Unit}

@[simp] theorem checkSeeds_eq_ok :
    checkSeeds rt seeds bump k = .ok u ↔ rt.createProgramAddress seeds bump = some k := by
  simp [checkSeeds]

@[simp] theorem checkCanonical_eq_ok :
    checkCanonical rt seeds k = .ok bump ↔ rt.findProgramAddress seeds = some (k, bump) := by
  simp only [checkCanonical, bind_eq_ok, orFail_eq_ok, require_eq_ok, pure_eq_ok, Prod.exists,
    exists_and_left, exists_const]
  constructor
  · rintro ⟨k', b, hf, rfl, rfl⟩
    exact hf
  · intro hf
    exact ⟨k, bump, hf, rfl, rfl⟩

@[simp] theorem initAccount_eq_ok :
    initAccount rt seeds k s = .ok bump ↔
      rt.findProgramAddress seeds = some (k, bump) ∧ s.Free k := by
  simp only [initAccount, bind_eq_ok, checkCanonical_eq_ok, require_eq_ok, pure_eq_ok,
    exists_const]
  constructor
  · rintro ⟨b, hf, hfree, rfl⟩
    exact ⟨hf, hfree⟩
  · rintro ⟨hf, hfree⟩
    exact ⟨bump, hf, hfree, rfl⟩

omit [DecidableEq Pubkey] in
@[simp] theorem loadMint_eq_ok : loadMint mint s = .ok u ↔ s.mints mint = true := by
  simp [loadMint]

omit [DecidableEq Pubkey] in
@[simp] theorem loadToken_eq_ok {t : TokenAccount Pubkey} :
    loadToken k s = .ok t ↔ s.tokens k = some t := by
  simp [loadToken]

@[simp] theorem checkAssociated_eq_ok {t : TokenAccount Pubkey} :
    checkAssociated rt k t authority mint = .ok u ↔
      t.owner = authority ∧ k = rt.associatedTokenAddress authority mint := by
  simp [checkAssociated]

@[simp] theorem loadConfigOfAdmin_eq_ok {c : ProtocolConfig Pubkey} :
    loadConfigOfAdmin rt k admin s = .ok c ↔
      s.config k = some c ∧ rt.createProgramAddress .protocolConfig c.bump = some k ∧
        c.admin = admin := by
  simp only [loadConfigOfAdmin, bind_eq_ok, load_config, checkSeeds_eq_ok, require_eq_ok,
    pure_eq_ok, exists_and_left, exists_const]
  constructor
  · rintro ⟨c', hc, hs, ha, rfl⟩
    exact ⟨hc, hs, ha⟩
  · rintro ⟨hc, hs, ha⟩
    exact ⟨c, hc, hs, ha, rfl⟩

@[simp] theorem loadWalletOfOwner_eq_ok {w : AgentWallet Pubkey} :
    loadWalletOfOwner k owner s = .ok w ↔ s.wallet k = some w ∧ w.owner = owner := by
  simp only [loadWalletOfOwner, bind_eq_ok, load_wallet, require_eq_ok, pure_eq_ok,
    exists_and_left, exists_const]
  constructor
  · rintro ⟨w', hw, ho, rfl⟩
    exact ⟨hw, ho⟩
  · rintro ⟨hw, ho⟩
    exact ⟨w, hw, ho, rfl⟩

end Constraints

/-! ## 2. Contexts -/

/-- The account checks of `settle_payment` pass and load `ctx`. -/
structure SettlePayment.Validates (rt : Runtime Pubkey) (accs : SettlePayment Pubkey)
    (sequence : UInt64) (agentId : Bytes) (s : World Pubkey)
    (ctx : SettlePayment.Loaded Pubkey) : Prop where
  wallet : s.wallet accs.agentWallet = some ctx.wallet
  policy : s.policy accs.spendPolicy = some ctx.policy
  config : s.config accs.protocolConfig = some ctx.config
  source : ∃ t, s.tokens accs.usdcTokenAccount = some t ∧ t.owner = accs.agentWallet
  payee : s.tokens accs.payeeTokenAccount = some ctx.payee
  mint : s.mints accs.usdcMint = true
  record_addr : rt.findProgramAddress (.paymentRecord accs.agentWallet sequence) =
    some (accs.paymentRecord, ctx.recordBump)
  record_free : s.Free accs.paymentRecord
  wallet_seeds : rt.createProgramAddress (.agentWallet agentId) ctx.wallet.bump =
    some accs.agentWallet
  owner : ctx.wallet.owner = accs.owner
  policy_seeds : rt.createProgramAddress (.spendPolicy accs.agentWallet) ctx.policy.bump =
    some accs.spendPolicy
  policy_wallet : ctx.policy.agentWallet = accs.agentWallet
  associated : accs.usdcTokenAccount = rt.associatedTokenAddress accs.agentWallet accs.usdcMint
  config_seeds : rt.createProgramAddress .protocolConfig ctx.config.bump =
    some accs.protocolConfig

theorem settle_tryAccounts_eq_ok {accs : SettlePayment Pubkey} {sequence : UInt64}
    {agentId : Bytes} {ctx : SettlePayment.Loaded Pubkey} :
    accs.tryAccounts rt sequence agentId s = .ok ctx ↔
      accs.Validates rt sequence agentId s ctx := by
  simp only [SettlePayment.tryAccounts, bind_eq_ok, load_wallet, load_policy, load_config,
    loadToken_eq_ok, loadMint_eq_ok, initAccount_eq_ok, checkSeeds_eq_ok, require_eq_ok,
    checkAssociated_eq_ok, pure_eq_ok, exists_and_left, exists_const]
  constructor
  · rintro ⟨w, hw, p, hp, t, ht, d, hd, hm, c, hc, b, ⟨hf, hfree⟩, hws, ho, hps, hpw,
      ⟨hto, hata⟩, hcs, rfl⟩
    exact ⟨hw, hp, hc, ⟨t, ht, hto⟩, hd, hm, hf, hfree, hws, ho, hps, hpw, hata, hcs⟩
  · intro h
    obtain ⟨t, ht, hto⟩ := h.source
    exact ⟨ctx.wallet, h.wallet, ctx.policy, h.policy, t, ht, ctx.payee, h.payee, h.mint,
      ctx.config, h.config, ctx.recordBump, ⟨h.record_addr, h.record_free⟩, h.wallet_seeds,
      h.owner, h.policy_seeds, h.policy_wallet, ⟨hto, h.associated⟩, h.config_seeds, rfl⟩

/-- The account checks of `record_policy_violation` pass. -/
structure RecordPolicyViolation.Validates (rt : Runtime Pubkey)
    (accs : RecordPolicyViolation Pubkey) (sequence : UInt64) (agentId : Bytes)
    (s : World Pubkey) (w : AgentWallet Pubkey) (bump : UInt8) : Prop where
  wallet : s.wallet accs.agentWallet = some w
  record_addr : rt.findProgramAddress (.paymentRecord accs.agentWallet sequence) =
    some (accs.paymentRecord, bump)
  record_free : s.Free accs.paymentRecord
  wallet_seeds : rt.createProgramAddress (.agentWallet agentId) w.bump = some accs.agentWallet
  owner : w.owner = accs.owner

theorem violation_tryAccounts_eq_ok {accs : RecordPolicyViolation Pubkey} {sequence : UInt64}
    {agentId : Bytes} {w : AgentWallet Pubkey} {bump : UInt8} :
    accs.tryAccounts rt sequence agentId s = .ok (w, bump) ↔
      accs.Validates rt sequence agentId s w bump := by
  simp only [RecordPolicyViolation.tryAccounts, bind_eq_ok, load_wallet, initAccount_eq_ok,
    checkSeeds_eq_ok, require_eq_ok, pure_eq_ok, exists_and_left, exists_const, Prod.mk.injEq]
  constructor
  · rintro ⟨w', hw, b, ⟨hf, hfree⟩, hs, ho, rfl, rfl⟩
    exact ⟨hw, hf, hfree, hs, ho⟩
  · intro h
    exact ⟨w, h.wallet, bump, ⟨h.record_addr, h.record_free⟩, h.wallet_seeds, h.owner, rfl, rfl⟩

/-- The account checks of the withdrawals pass and load `ctx`. -/
structure WithdrawFunds.Validates (rt : Runtime Pubkey) (accs : WithdrawFunds Pubkey)
    (s : World Pubkey) (ctx : WithdrawFunds.Loaded Pubkey) : Prop where
  wallet : s.wallet accs.agentWallet = some ctx.wallet
  owner : ctx.wallet.owner = accs.owner
  source : s.tokens accs.usdcTokenAccount = some ctx.source
  destination : s.tokens accs.ownerTokenAccount = some ctx.destination
  mint : s.mints accs.usdcMint = true
  source_owner : ctx.source.owner = accs.agentWallet
  source_associated :
    accs.usdcTokenAccount = rt.associatedTokenAddress accs.agentWallet accs.usdcMint
  destination_owner : ctx.destination.owner = accs.owner
  destination_associated :
    accs.ownerTokenAccount = rt.associatedTokenAddress accs.owner accs.usdcMint

theorem withdraw_tryAccounts_eq_ok {accs : WithdrawFunds Pubkey}
    {ctx : WithdrawFunds.Loaded Pubkey} :
    accs.tryAccounts rt s = .ok ctx ↔ accs.Validates rt s ctx := by
  simp only [WithdrawFunds.tryAccounts, bind_eq_ok, load_wallet, loadToken_eq_ok,
    loadMint_eq_ok, require_eq_ok, checkAssociated_eq_ok, pure_eq_ok, exists_and_left,
    exists_const]
  constructor
  · rintro ⟨w, hw, t, ht, d, hd, hm, ho, ⟨hto, hta⟩, ⟨hdo, hda⟩, rfl⟩
    exact ⟨hw, ho, ht, hd, hm, hto, hta, hdo, hda⟩
  · intro h
    exact ⟨ctx.wallet, h.wallet, ctx.source, h.source, ctx.destination, h.destination, h.mint,
      h.owner, ⟨h.source_owner, h.source_associated⟩,
      ⟨h.destination_owner, h.destination_associated⟩, rfl⟩

/-- The account checks of `set_spend_policy` pass and return the bump. -/
structure SetSpendPolicy.Validates (rt : Runtime Pubkey) (accs : SetSpendPolicy Pubkey)
    (s : World Pubkey) (bump : UInt8) : Prop where
  wallet : ∃ w, s.wallet accs.agentWallet = some w ∧ w.owner = accs.owner
  policy_addr : rt.findProgramAddress (.spendPolicy accs.agentWallet) =
    some (accs.spendPolicy, bump)
  policy : s.Free accs.spendPolicy ∨ (s.policy accs.spendPolicy).isSome = true

theorem policy_tryAccounts_eq_ok {accs : SetSpendPolicy Pubkey} {bump : UInt8} :
    accs.tryAccounts rt s = .ok bump ↔ accs.Validates rt s bump := by
  simp only [SetSpendPolicy.tryAccounts, bind_eq_ok, load_wallet, checkCanonical_eq_ok,
    require_eq_ok, pure_eq_ok, exists_and_left, exists_const]
  constructor
  · rintro ⟨w, hw, b, hb, hp, ho, rfl⟩
    exact ⟨⟨w, hw, ho⟩, hb, hp⟩
  · intro h
    obtain ⟨w, hw, ho⟩ := h.wallet
    exact ⟨w, hw, bump, h.policy_addr, h.policy, ho, rfl⟩

/-! ## 3. The checks of a settlement -/

/-- The accounting window of a wallet at one horizon. -/
def AgentWallet.window (w : AgentWallet Pubkey) (h : Horizon) : Window :=
  ⟨(h.windowStart w).toInt, (h.spend w).toNat⟩

/-- A successful reset rolls the window. -/
theorem resetWindow_roll {period start start' : Int64} {spend spend' : UInt64}
    (hp : 0 < period.toInt)
    (h : resetWindowIfElapsed period spend start now = .ok (spend', start')) :
    (⟨start'.toInt, spend'.toNat⟩ : Window) =
      roll period.toInt now.toInt ⟨start.toInt, spend.toNat⟩ := by
  simp only [resetWindowIfElapsed, bind_eq_ok, checkedAdd_eq_ok] at h
  obtain ⟨e, he, h⟩ := h
  by_cases hnow : e ≤ now
  · simp only [hnow, if_true, bind_eq_ok, checkedSub_eq_ok, checkedDiv_eq_ok, checkedMul_eq_ok,
      checkedAdd_eq_ok, pure_eq_ok, Prod.mk.injEq] at h
    obtain ⟨el, hel, q, hq, sh, hsh, st, hst, rfl, rfl⟩ := h
    rw [Int64.le_iff_toInt_le, he] at hnow
    rw [roll_of_le hnow]
    ext
    · rw [hst, hsh, hq, hel, Int.tdiv_eq_ediv_of_nonneg (by omega)]
      rfl
    · rfl
  · simp only [hnow, if_false, pure_eq_ok, Prod.mk.injEq] at h
    obtain ⟨rfl, rfl⟩ := h
    rw [Int64.le_iff_toInt_le, he] at hnow
    rw [roll_of_lt (by simp only; omega)]

/-- A reset succeeds when the window end and the clock are far from the `i64` bounds. -/
theorem resetWindow_succeeds {period start : Int64} (spend : UInt64)
    (hp : 0 < period.toInt) (hstart : 0 ≤ start.toInt) (hend : start.toInt + period.toInt < 2 ^ 63)
    (hnow : 0 ≤ now.toInt) :
    ∃ r, resetWindowIfElapsed period spend start now = .ok r := by
  obtain ⟨e, he, hei⟩ := checkedI64_ok_of_range ProgramError.arithmeticOverflow
    (x := start.toInt + period.toInt) (by omega) hend
  by_cases hle : e ≤ now
  · have hlei := hle
    rw [Int64.le_iff_toInt_le, hei] at hlei
    have hlt := now.toInt_lt
    have hq := Int.ediv_mul_le (now.toInt - start.toInt) (ne_of_gt hp)
    have hq0 : 0 ≤ (now.toInt - start.toInt) / period.toInt * period.toInt :=
      Int.mul_nonneg (Int.ediv_nonneg (by omega) (by omega)) (by omega)
    have hq1 : (now.toInt - start.toInt) / period.toInt ≤ now.toInt - start.toInt :=
      Int.ediv_le_self _ (by omega)
    have hq2 : 0 ≤ (now.toInt - start.toInt) / period.toInt :=
      Int.ediv_nonneg (by omega) (by omega)
    obtain ⟨el, hel, heli⟩ := checkedI64_ok_of_range ProgramError.arithmeticOverflow
      (x := now.toInt - start.toInt) (by omega) (by omega)
    have hdiv : el.toInt.tdiv period.toInt = (now.toInt - start.toInt) / period.toInt := by
      rw [heli, Int.tdiv_eq_ediv_of_nonneg (by omega)]
    obtain ⟨q, hqq, hqi⟩ := checkedI64_ok_of_range ProgramError.arithmeticOverflow
      (x := el.toInt.tdiv period.toInt) (by omega) (by omega)
    obtain ⟨sh, hsh, hshi⟩ := checkedI64_ok_of_range ProgramError.arithmeticOverflow
      (x := q.toInt * period.toInt) (by rw [hqi, hdiv]; omega) (by rw [hqi, hdiv]; omega)
    obtain ⟨st, hst, _⟩ := checkedI64_ok_of_range ProgramError.arithmeticOverflow
      (x := start.toInt + sh.toInt) (by rw [hshi, hqi, hdiv]; omega)
      (by rw [hshi, hqi, hdiv]; omega)
    refine ⟨(0, st), ?_⟩
    simp only [resetWindowIfElapsed, bind_eq_ok]
    refine ⟨e, he, ?_⟩
    simp only [hle, if_true, bind_eq_ok]
    exact ⟨el, hel, q, hqq, sh, hsh, st, hst, rfl⟩
  · refine ⟨(spend, start), ?_⟩
    simp only [resetWindowIfElapsed, bind_eq_ok]
    refine ⟨e, he, ?_⟩
    simp only [hle, if_false, pure_eq_ok]

/-- The wallet after the three resets: each window rolled, nothing else changed. -/
structure Resets (now : Int64) (w w₁ : AgentWallet Pubkey) : Prop where
  frame : ∃ ds dt ws wt ms mt, w₁ = { w with
    dailySpend := ds, dailyWindowStart := dt, weeklySpend := ws, weeklyWindowStart := wt,
    monthlySpend := ms, monthlyWindowStart := mt }
  window : ∀ h : Horizon, w₁.window h = roll h.seconds now.toInt (w.window h)

omit [DecidableEq Pubkey] in
theorem resets_of_ok {w a b c : AgentWallet Pubkey}
    (hd : w.resetDailyWindowIfElapsed now = .ok a)
    (hw : a.resetWeeklyWindowIfElapsed now = .ok b)
    (hm : b.resetMonthlyWindowIfElapsed now = .ok c) : Resets now w c := by
  simp only [AgentWallet.resetDailyWindowIfElapsed, AgentWallet.resetWeeklyWindowIfElapsed,
    AgentWallet.resetMonthlyWindowIfElapsed, bind_eq_ok, Prod.exists, pure_eq_ok] at hd hw hm
  obtain ⟨ds, dt, hd, rfl⟩ := hd
  obtain ⟨ws, wt, hw, rfl⟩ := hw
  obtain ⟨ms, mt, hm, rfl⟩ := hm
  refine ⟨⟨ds, dt, ws, wt, ms, mt, rfl⟩, ?_⟩
  intro h
  cases h with
  | daily => exact resetWindow_roll (Horizon.seconds_pos .daily) hd
  | weekly => exact resetWindow_roll (Horizon.seconds_pos .weekly) hw
  | monthly => exact resetWindow_roll (Horizon.seconds_pos .monthly) hm

omit [DecidableEq Pubkey] in
/-- The three resets succeed when every window end is far from the `i64` bounds. -/
theorem resets_succeed {w : AgentWallet Pubkey} (hnow : 0 ≤ now.toInt)
    (hw : ∀ h : Horizon, 0 ≤ (h.windowStart w).toInt ∧
      (h.windowStart w).toInt + h.seconds < 2 ^ 63) :
    ∃ a b c, w.resetDailyWindowIfElapsed now = .ok a ∧ a.resetWeeklyWindowIfElapsed now = .ok b ∧
      b.resetMonthlyWindowIfElapsed now = .ok c := by
  obtain ⟨⟨ds, dt⟩, hd⟩ := resetWindow_succeeds w.dailySpend
    (Horizon.seconds_pos .daily) (hw .daily).1 (hw .daily).2 hnow
  obtain ⟨⟨ws, wt⟩, hwk⟩ := resetWindow_succeeds w.weeklySpend
    (Horizon.seconds_pos .weekly) (hw .weekly).1 (hw .weekly).2 hnow
  obtain ⟨⟨ms, mt⟩, hm⟩ := resetWindow_succeeds w.monthlySpend
    (Horizon.seconds_pos .monthly) (hw .monthly).1 (hw .monthly).2 hnow
  simp only [Horizon.period, Horizon.windowStart] at hd hwk hm
  refine ⟨{ w with dailySpend := ds, dailyWindowStart := dt },
    { w with dailySpend := ds, dailyWindowStart := dt, weeklySpend := ws, weeklyWindowStart := wt },
    { w with
      dailySpend := ds, dailyWindowStart := dt, weeklySpend := ws, weeklyWindowStart := wt
      monthlySpend := ms, monthlyWindowStart := mt }, ?_, ?_, ?_⟩
  · simp only [AgentWallet.resetDailyWindowIfElapsed, bind_eq_ok, pure_eq_ok]
    exact ⟨_, hd, rfl⟩
  · simp only [AgentWallet.resetWeeklyWindowIfElapsed, bind_eq_ok, pure_eq_ok]
    exact ⟨_, hwk, rfl⟩
  · simp only [AgentWallet.resetMonthlyWindowIfElapsed, bind_eq_ok, pure_eq_ok]
    exact ⟨_, hm, rfl⟩

/-- The rate window of a policy is over at `now`. -/
def SpendPolicy.RateElapsed (p : SpendPolicy Pubkey) (now : Int64) : Prop :=
  0 < p.rateLimitWindowSecs ∧
    p.rateLimitWindowStart.toInt + p.rateLimitWindowSecs.toNat ≤ now.toInt

theorem toInt_ofNat_u32 (n : UInt32) : (Int64.ofNat n.toNat).toInt = n.toNat := by
  have := n.toNat_lt
  exact Int64.toInt_ofNat_of_lt (by omega)

omit [DecidableEq Pubkey] in
theorem resetRate_of_ok {p p₁ : SpendPolicy Pubkey}
    (h : p.resetRateWindowIfElapsed now = .ok p₁) :
    (p.RateElapsed now ∧
      p₁ = { p with rateLimitCallCount := 0, rateLimitWindowStart := now }) ∨
    (¬ p.RateElapsed now ∧ p₁ = p) := by
  unfold SpendPolicy.resetRateWindowIfElapsed at h
  unfold SpendPolicy.RateElapsed
  by_cases hs : 0 < p.rateLimitWindowSecs
  · simp only [hs, if_true, bind_eq_ok, checkedAdd_eq_ok, toInt_ofNat_u32] at h
    obtain ⟨e, he, h⟩ := h
    by_cases hle : e ≤ now
    · simp only [hle, if_true, pure_eq_ok] at h
      rw [Int64.le_iff_toInt_le, he] at hle
      exact .inl ⟨⟨hs, hle⟩, h.symm⟩
    · simp only [hle, if_false, pure_eq_ok] at h
      rw [Int64.le_iff_toInt_le, he] at hle
      exact .inr ⟨fun hn => hle hn.2, h.symm⟩
  · simp only [hs, if_false, pure_eq_ok] at h
    exact .inr ⟨fun hn => hs hn.1, h.symm⟩

omit [DecidableEq Pubkey] in
theorem resetRate_succeeds {p : SpendPolicy Pubkey} (hstart : 0 ≤ p.rateLimitWindowStart.toInt)
    (hend : p.rateLimitWindowStart.toInt < 2 ^ 63 - 2 ^ 32) :
    ∃ p₁, p.resetRateWindowIfElapsed now = .ok p₁ := by
  have hsecs := p.rateLimitWindowSecs.toNat_lt
  unfold SpendPolicy.resetRateWindowIfElapsed
  by_cases hs : 0 < p.rateLimitWindowSecs
  · obtain ⟨e, he, _⟩ := checkedI64_ok_of_range ProgramError.arithmeticOverflow
      (x := p.rateLimitWindowStart.toInt +
        (Int64.ofNat p.rateLimitWindowSecs.toNat).toInt)
      (by rw [toInt_ofNat_u32]; omega) (by rw [toInt_ofNat_u32]; omega)
    simp only [hs, if_true, bind_eq_ok]
    by_cases hle : e ≤ now
    · exact ⟨_, e, he, by simp only [hle, if_true]; rfl⟩
    · exact ⟨_, e, he, by simp only [hle, if_false]; rfl⟩
  · simp only [hs, if_false]
    exact ⟨p, rfl⟩

/-- A budget check over natural numbers. -/
theorem withinBudget_iff {budget spend amount : UInt64} :
    SpendPolicy.withinBudget budget spend amount = true ↔
      (budget.toNat ≠ 0 → min u64Max (spend.toNat + amount.toNat) ≤ budget.toNat) := by
  have hzero : budget = 0 ↔ budget.toNat = 0 := by
    rw [← UInt64.toNat_inj]
    rfl
  simp only [SpendPolicy.withinBudget, Bool.or_eq_true, beq_iff_eq, decide_eq_true_eq,
    UInt64.le_iff_toNat_le, toNat_saturatingAdd, hzero]
  tauto

/-- `enforcePolicy` lets the payment through and leaves the policy `p`. -/
structure Enforced (now : Int64) (wallet : AgentWallet Pubkey) (policy : SpendPolicy Pubkey)
    (params : SettlePaymentParams Pubkey) (p : SpendPolicy Pubkey) : Prop where
  per_call : policy.withinPerCallLimit params.amountUsdc = true
  budget : ∀ h : Horizon, (h.budget policy).toNat ≠ 0 →
    min u64Max ((h.spend wallet).toNat + params.amountUsdc.toNat) ≤ (h.budget policy).toNat
  rate : ∃ p₁, policy.resetRateWindowIfElapsed now = .ok p₁ ∧ p₁.withinRateLimit = true ∧
    p = { p₁ with rateLimitCallCount := saturatingAdd32 p₁.rateLimitCallCount 1 }
  not_blocked : params.domainHash ∉ policy.blockedDomainHashes
  allowed : policy.allowedDomainHashes = [] ∨ params.domainHash ∈ policy.allowedDomainHashes

omit [DecidableEq Pubkey] in
theorem resetRate_lists {p p₁ : SpendPolicy Pubkey}
    (h : p.resetRateWindowIfElapsed now = .ok p₁) :
    p₁.blockedDomainHashes = p.blockedDomainHashes ∧
      p₁.allowedDomainHashes = p.allowedDomainHashes := by
  rcases resetRate_of_ok h with ⟨_, rfl⟩ | ⟨_, rfl⟩ <;> exact ⟨rfl, rfl⟩

omit [DecidableEq Pubkey] in
theorem enforcePolicy_eq_ok {wallet : AgentWallet Pubkey} {policy p : SpendPolicy Pubkey}
    {params : SettlePaymentParams Pubkey} :
    enforcePolicy now wallet policy params = .ok p ↔ Enforced now wallet policy params p := by
  have hblock : ∀ l : List Hash, (l ≠ [] → params.domainHash ∉ l) ↔ params.domainHash ∉ l := by
    intro l
    cases l <;> simp
  have hallow : ∀ l : List Hash,
      (l ≠ [] → params.domainHash ∈ l) ↔ (l = [] ∨ params.domainHash ∈ l) := by
    intro l
    cases l <;> simp
  simp only [enforcePolicy, bind_eq_ok, require_eq_ok, requireIf_eq_ok, pure_eq_ok,
    SpendPolicy.withinDailyBudget, SpendPolicy.withinWeeklyBudget,
    SpendPolicy.withinMonthlyBudget, withinBudget_iff, exists_and_left, exists_const,
    hblock, hallow]
  constructor
  · rintro ⟨hc, hd, hw, hm, p₁, hr, hrate, hb, ha, rfl⟩
    obtain ⟨hbl, hal⟩ := resetRate_lists hr
    refine ⟨hc, ?_, ⟨p₁, hr, hrate, rfl⟩, hbl ▸ hb, hal ▸ ha⟩
    intro h
    cases h with
    | daily => exact hd
    | weekly => exact hw
    | monthly => exact hm
  · intro h
    obtain ⟨p₁, hr, hrate, hp⟩ := h.rate
    obtain ⟨hbl, hal⟩ := resetRate_lists hr
    exact ⟨h.per_call, h.budget .daily, h.budget .weekly, h.budget .monthly, p₁, hr, hrate,
      hbl ▸ h.not_blocked, hal ▸ h.allowed, hp.symm⟩

/-- All checks of `settle_payment` pass and leave the wallet `w` and the policy `p`. -/
structure Passed (now : Int64) (config : ProtocolConfig Pubkey) (wallet : AgentWallet Pubkey)
    (policy : SpendPolicy Pubkey) (sequence : UInt64) (params : SettlePaymentParams Pubkey)
    (w : AgentWallet Pubkey) (p : SpendPolicy Pubkey) : Prop where
  amount : 0 < params.amountUsdc
  protocol : (PaymentProtocol.fromDiscriminant params.protocol).isSome = true
  sequence : sequence = wallet.paymentSequence
  cap : 0 < config.maxSinglePaymentUsdc → params.amountUsdc ≤ config.maxSinglePaymentUsdc
  active : wallet.isActive = true
  not_frozen : wallet.isFrozen = false
  reset : ∃ a b, wallet.resetDailyWindowIfElapsed now = .ok a ∧
    a.resetWeeklyWindowIfElapsed now = .ok b ∧ b.resetMonthlyWindowIfElapsed now = .ok w
  enforced : policy.enforceOnChain params.amountUsdc = true → Enforced now w policy params p
  skipped : policy.enforceOnChain params.amountUsdc = false → p = policy

omit [DecidableEq Pubkey] in
theorem settlePaymentChecks_eq_ok {config : ProtocolConfig Pubkey} {wallet w : AgentWallet Pubkey}
    {policy p : SpendPolicy Pubkey} {sequence : UInt64} {params : SettlePaymentParams Pubkey} :
    settlePaymentChecks now config wallet policy sequence params = .ok (w, p) ↔
      Passed now config wallet policy sequence params w p := by
  simp only [settlePaymentChecks, bind_eq_ok, require_eq_ok, requireIf_eq_ok, exists_and_left,
    exists_const]
  constructor
  · rintro ⟨ha, hpr, hs, hc, hac, hfr, a, hd, b, hw, c, hm, hrest⟩
    cases he : policy.enforceOnChain params.amountUsdc with
    | true =>
      simp only [he, if_true, bind_eq_ok, enforcePolicy_eq_ok, pure_eq_ok, Prod.mk.injEq] at hrest
      obtain ⟨q, hq, rfl, rfl⟩ := hrest
      exact ⟨ha, hpr, hs, hc, hac, hfr, ⟨a, b, hd, hw, hm⟩, fun _ => hq, by simp [he]⟩
    | false =>
      simp only [he, Bool.false_eq_true, if_false, pure_eq_ok, Prod.mk.injEq] at hrest
      obtain ⟨rfl, rfl⟩ := hrest
      exact ⟨ha, hpr, hs, hc, hac, hfr, ⟨a, b, hd, hw, hm⟩, by simp [he], fun _ => rfl⟩
  · intro h
    obtain ⟨a, b, hd, hw, hm⟩ := h.reset
    refine ⟨h.amount, h.protocol, h.sequence, h.cap, h.active, h.not_frozen, a, hd, b, hw, w,
      hm, ?_⟩
    cases he : policy.enforceOnChain params.amountUsdc with
    | true =>
      simp only [if_true, bind_eq_ok, enforcePolicy_eq_ok, pure_eq_ok, Prod.mk.injEq, true_and]
      exact ⟨p, h.enforced he, rfl⟩
    | false =>
      simp only [Bool.false_eq_true, if_false, pure_eq_ok, Prod.mk.injEq, true_and]
      exact (h.skipped he).symm

omit [DecidableEq Pubkey] in
theorem passed_resets {config : ProtocolConfig Pubkey} {wallet w : AgentWallet Pubkey}
    {policy p : SpendPolicy Pubkey} {sequence : UInt64} {params : SettlePaymentParams Pubkey}
    (h : Passed now config wallet policy sequence params w p) : Resets now wallet w := by
  obtain ⟨_, _, hd, hw, hm⟩ := h.reset
  exact resets_of_ok hd hw hm

omit [DecidableEq Pubkey] in
/-- A settlement changes nothing in the policy but the rate counter and its window,
and it moves the window only to `now`. -/
theorem passed_policy {config : ProtocolConfig Pubkey} {wallet w : AgentWallet Pubkey}
    {policy p : SpendPolicy Pubkey} {sequence : UInt64} {params : SettlePaymentParams Pubkey}
    (h : Passed now config wallet policy sequence params w p) :
    ∃ n t, p = { policy with rateLimitCallCount := n, rateLimitWindowStart := t } ∧
      (t = now ∨ t = policy.rateLimitWindowStart) := by
  cases he : policy.enforceOnChain params.amountUsdc with
  | true =>
    obtain ⟨p₁, hr, _, hp⟩ := (h.enforced he).rate
    rcases resetRate_of_ok hr with ⟨_, rfl⟩ | ⟨_, rfl⟩
    · exact ⟨_, _, hp, .inl rfl⟩
    · exact ⟨_, _, hp, .inr rfl⟩
  | false => exact ⟨_, _, h.skipped he, .inr rfl⟩

/-! ## 4. The token transfer -/

section Transfer

variable {source destination authority k : Pubkey} {amount : UInt64}
variable {tokens tokens' : Tokens Pubkey}

/-- A successful transfer: the accounts it read and the table it left. -/
theorem tokenTransfer_eq_ok :
    tokenTransfer source destination authority amount tokens = .ok tokens' ↔
      ∃ src dst, tokens source = some src ∧ tokens destination = some dst ∧
        (src.isFrozen = false ∧ dst.isFrozen = false) ∧ amount ≤ src.amount ∧
        src.mint = dst.mint ∧ src.owner = authority ∧
        ((source = destination ∧ tokens' = tokens) ∨
          (source ≠ destination ∧ dst.amount.toNat + amount.toNat ≤ u64Max ∧
            tokens' = Function.update
              (Function.update tokens source (some { src with amount := src.amount - amount }))
              destination (some { dst with amount := dst.amount + amount }))) := by
  simp only [tokenTransfer, bind_eq_ok, orFail_eq_ok, require_eq_ok, exists_and_left,
    exists_const]
  constructor
  · rintro ⟨src, hs, dst, hd, hz, ha, hm, ho, h⟩
    refine ⟨src, hs, dst, hd, hz, ha, hm, ho, ?_⟩
    by_cases he : source = destination
    · simp only [he, if_true, pure_eq_ok] at h
      exact .inl ⟨he, h.symm⟩
    · simp only [he, if_false, bind_eq_ok, require_eq_ok, pure_eq_ok, exists_const] at h
      exact .inr ⟨he, h.1, h.2.symm⟩
  · rintro ⟨src, hs, dst, hd, hz, ha, hm, ho, h⟩
    refine ⟨src, hs, dst, hd, hz, ha, hm, ho, ?_⟩
    rcases h with ⟨he, rfl⟩ | ⟨he, hov, rfl⟩
    · simp only [he, if_true, pure_eq_ok]
    · simp only [he, if_false, bind_eq_ok, require_eq_ok, pure_eq_ok, exists_const]
      exact ⟨hov, trivial⟩

theorem transfer_of_ne (h : tokenTransfer source destination authority amount tokens = .ok tokens')
    (hs : k ≠ source) (hd : k ≠ destination) : tokens' k = tokens k := by
  obtain ⟨_, _, _, _, _, _, _, _, ⟨_, rfl⟩ | ⟨_, _, rfl⟩⟩ := tokenTransfer_eq_ok.mp h
  · rfl
  · rw [Function.update_of_ne hd, Function.update_of_ne hs]

/-- A transfer between two accounts moves exactly the amount. -/
theorem transfer_moves (h : tokenTransfer source destination authority amount tokens = .ok tokens')
    (hne : source ≠ destination) :
    tokens'.balance source + amount.toNat = tokens.balance source ∧
      tokens'.balance destination = tokens.balance destination + amount.toNat := by
  obtain ⟨src, dst, hs, hd, _, ha, _, _, ⟨he, _⟩ | ⟨_, hov, rfl⟩⟩ := tokenTransfer_eq_ok.mp h
  · exact absurd he hne
  · have hlt : dst.amount.toNat + amount.toNat < 2 ^ 64 := by
      unfold u64Max at hov
      omega
    have hsub := UInt64.toNat_sub_of_le _ _ ha
    rw [UInt64.le_iff_toNat_le] at ha
    simp only [Tokens.balance, Function.update_self, Function.update_of_ne hne, hs, hd]
    rw [hsub, UInt64.toNat_add, Nat.mod_eq_of_lt hlt]
    omega

/-- A transfer from an account to itself changes nothing. -/
theorem transfer_self (h : tokenTransfer source source authority amount tokens = .ok tokens') :
    tokens' = tokens := by
  obtain ⟨_, _, _, _, _, _, _, _, ⟨_, rfl⟩ | ⟨hne, _⟩⟩ := tokenTransfer_eq_ok.mp h
  · rfl
  · exact absurd rfl hne

/-- A transfer keeps every token account, with its mint and owner. -/
theorem transfer_keeps (h : tokenTransfer source destination authority amount tokens = .ok tokens')
    {t : TokenAccount Pubkey} (ht : tokens k = some t) :
    ∃ a, tokens' k = some { t with amount := a } := by
  obtain ⟨src, dst, hs, hd, _, _, _, _, ⟨_, rfl⟩ | ⟨hne, _, rfl⟩⟩ := tokenTransfer_eq_ok.mp h
  · exact ⟨t.amount, ht⟩
  · rcases eq_or_ne k destination with rfl | hkd
    · rw [hd] at ht
      cases ht
      exact ⟨_, Function.update_self _ _ _⟩
    · rw [Function.update_of_ne hkd]
      rcases eq_or_ne k source with rfl | hks
      · rw [hs] at ht
        cases ht
        exact ⟨_, Function.update_self _ _ _⟩
      · rw [Function.update_of_ne hks]
        exact ⟨t.amount, ht⟩

/-- A transfer creates no token account. -/
theorem transfer_from (h : tokenTransfer source destination authority amount tokens = .ok tokens')
    {t' : TokenAccount Pubkey} (ht : tokens' k = some t') :
    ∃ t, tokens k = some t ∧ t.mint = t'.mint ∧ t.owner = t'.owner := by
  cases hk : tokens k with
  | some t =>
    obtain ⟨a, ha⟩ := transfer_keeps h hk
    rw [ha] at ht
    cases ht
    exact ⟨t, rfl, rfl, rfl⟩
  | none =>
    obtain ⟨src, dst, hs, hd, _⟩ := tokenTransfer_eq_ok.mp h
    have hks : k ≠ source := by
      rintro rfl
      rw [hs] at hk
      cases hk
    have hkd : k ≠ destination := by
      rintro rfl
      rw [hd] at hk
      cases hk
    rw [transfer_of_ne h hks hkd, hk] at ht
    cases ht

/-- A transfer lowers no balance but the source's. -/
theorem transfer_balance_le
    (h : tokenTransfer source destination authority amount tokens = .ok tokens')
    (hk : k ≠ source) : tokens.balance k ≤ tokens'.balance k := by
  rcases eq_or_ne k destination with rfl | hkd
  · rw [(transfer_moves h (Ne.symm hk)).2]
    omega
  · unfold Tokens.balance
    rw [transfer_of_ne h hk hkd]

end Transfer

/-! ## 5. Which checks report an account in use or an overflow -/

/-- Neither an account in use, which only `init` reports, nor an overflow, which only the
window resets do. -/
def ProgramError.plain : ProgramError → Bool
  | .accountAlreadyInUse => false
  | .arithmeticOverflow => false
  | _ => true

section Avoids

variable {seeds : Seeds Pubkey} {k : Pubkey} {e e' : ProgramError} {n : UInt64}

theorem plain_ne (he : e.plain = false) (h : e'.plain = true) : e' ≠ e := by
  rintro rfl
  rw [h] at he
  cases he

omit [DecidableEq Pubkey] in
theorem load_avoids {α : Type} {kind? : ProgramAccount Pubkey → Option α}
    (he : e.plain = false) : Avoids e (s.load k kind?) :=
  avoids_bind (avoids_orFail (plain_ne he rfl)) fun _ => avoids_orFail (plain_ne he rfl)

/-- `init` reports an account in use only where one is, at the address it derives. -/
theorem initAccount_avoids (he : e.plain = false) (h : e = .accountAlreadyInUse →
      ∀ bump, rt.findProgramAddress seeds = some (k, bump) → s.Free k) :
    Avoids e (initAccount rt seeds k s) := by
  have hcanonical : Avoids e (checkCanonical rt seeds k) :=
    avoids_bind (avoids_orFail (plain_ne he rfl)) fun _ =>
      avoids_bind (avoids_require (plain_ne he rfl)) fun _ => avoids_pure
  refine avoids_bind_ok hcanonical fun bump hc => avoids_bind ?_ fun _ => avoids_pure
  by_cases hinuse : e = .accountAlreadyInUse
  · have hfree : s.Free k := h hinuse bump (checkCanonical_eq_ok.mp hc)
    exact avoids_of_ok (a := ()) (require_eq_ok.mpr hfree)
  · exact avoids_require (Ne.symm hinuse)

theorem tokenTransfer_avoids {source destination authority : Pubkey} {amount : UInt64}
    {tokens : Tokens Pubkey} (he : e.plain = false) :
    Avoids e (tokenTransfer source destination authority amount tokens) := by
  refine avoids_bind (avoids_orFail (plain_ne he rfl)) fun _ => ?_
  refine avoids_bind (avoids_orFail (plain_ne he rfl)) fun _ => ?_
  refine avoids_bind (avoids_require (plain_ne he rfl)) fun _ => ?_
  refine avoids_bind (avoids_require (plain_ne he rfl)) fun _ => ?_
  refine avoids_bind (avoids_require (plain_ne he rfl)) fun _ => ?_
  refine avoids_bind (avoids_require (plain_ne he rfl)) fun _ => ?_
  refine avoids_ite avoids_pure ?_
  exact avoids_bind (avoids_require (plain_ne he rfl)) fun _ => avoids_pure

omit [DecidableEq Pubkey] in
theorem enforcePolicy_avoids {wallet : AgentWallet Pubkey} {policy : SpendPolicy Pubkey}
    {params : SettlePaymentParams Pubkey} (he : e.plain = false)
    (hrate : Avoids e (policy.resetRateWindowIfElapsed now)) :
    Avoids e (enforcePolicy now wallet policy params) := by
  refine avoids_bind (avoids_require (plain_ne he rfl)) fun _ => ?_
  refine avoids_bind (avoids_require (plain_ne he rfl)) fun _ => ?_
  refine avoids_bind (avoids_require (plain_ne he rfl)) fun _ => ?_
  refine avoids_bind (avoids_require (plain_ne he rfl)) fun _ => ?_
  refine avoids_bind hrate fun _ => ?_
  refine avoids_bind (avoids_require (plain_ne he rfl)) fun _ => ?_
  refine avoids_bind (avoids_requireIf (plain_ne he rfl)) fun _ => ?_
  exact avoids_bind (avoids_requireIf (plain_ne he rfl)) fun _ => avoids_pure

/-- The four resets of a settlement do not fail with `e`. -/
structure ResetsAvoid (e : ProgramError) (now : Int64) (wallet : AgentWallet Pubkey)
    (policy : SpendPolicy Pubkey) : Prop where
  daily : Avoids e (wallet.resetDailyWindowIfElapsed now)
  weekly : ∀ a, wallet.resetDailyWindowIfElapsed now = .ok a →
    Avoids e (a.resetWeeklyWindowIfElapsed now)
  monthly : ∀ a b, wallet.resetDailyWindowIfElapsed now = .ok a →
    a.resetWeeklyWindowIfElapsed now = .ok b → Avoids e (b.resetMonthlyWindowIfElapsed now)
  rate : Avoids e (policy.resetRateWindowIfElapsed now)

omit [DecidableEq Pubkey] in
theorem settlePaymentChecks_avoids {config : ProtocolConfig Pubkey} {wallet : AgentWallet Pubkey}
    {policy : SpendPolicy Pubkey} {params : SettlePaymentParams Pubkey} (he : e.plain = false)
    (hresets : ResetsAvoid e now wallet policy) :
    Avoids e (settlePaymentChecks now config wallet policy n params) := by
  refine avoids_bind (avoids_require (plain_ne he rfl)) fun _ => ?_
  refine avoids_bind (avoids_require (plain_ne he rfl)) fun _ => ?_
  refine avoids_bind (avoids_require (plain_ne he rfl)) fun _ => ?_
  refine avoids_bind (avoids_requireIf (plain_ne he rfl)) fun _ => ?_
  refine avoids_bind (avoids_require (plain_ne he rfl)) fun _ => ?_
  refine avoids_bind (avoids_require (plain_ne he rfl)) fun _ => ?_
  refine avoids_bind_ok hresets.daily fun a ha => ?_
  refine avoids_bind_ok (hresets.weekly a ha) fun b hb => ?_
  refine avoids_bind_ok (hresets.monthly a b ha hb) fun _ _ => ?_
  exact avoids_ite (avoids_bind (enforcePolicy_avoids he hresets.rate) fun _ => avoids_pure)
    avoids_pure

/-- A settlement fails with `e` only in the `init` of its record or in its resets. -/
theorem settlePayment_fails {accs : SettlePayment Pubkey} {params : SettlePaymentParams Pubkey}
    (he : e.plain = false) (hinit : e = .accountAlreadyInUse →
      ∀ bump, rt.findProgramAddress (.paymentRecord accs.agentWallet n) =
        some (accs.paymentRecord, bump) → s.Free accs.paymentRecord)
    (hresets : ∀ ctx, accs.tryAccounts rt n params.agentId s = .ok ctx →
      ResetsAvoid e now ctx.wallet ctx.policy) :
    Avoids e (settlePayment rt now accs n params s) := by
  have haccounts : Avoids e (accs.tryAccounts rt n params.agentId s) := by
    refine avoids_bind (load_avoids he) fun _ => ?_
    refine avoids_bind (load_avoids he) fun _ => ?_
    refine avoids_bind (avoids_orFail (plain_ne he rfl)) fun _ => ?_
    refine avoids_bind (avoids_orFail (plain_ne he rfl)) fun _ => ?_
    refine avoids_bind (avoids_require (plain_ne he rfl)) fun _ => ?_
    refine avoids_bind (load_avoids he) fun _ => ?_
    refine avoids_bind (initAccount_avoids he hinit) fun _ => ?_
    refine avoids_bind (avoids_require (plain_ne he rfl)) fun _ => ?_
    refine avoids_bind (avoids_require (plain_ne he rfl)) fun _ => ?_
    refine avoids_bind (avoids_require (plain_ne he rfl)) fun _ => ?_
    refine avoids_bind (avoids_require (plain_ne he rfl)) fun _ => ?_
    refine avoids_bind (avoids_bind (avoids_require (plain_ne he rfl)) fun _ =>
      avoids_require (plain_ne he rfl)) fun _ => ?_
    exact avoids_bind (avoids_require (plain_ne he rfl)) fun _ => avoids_pure
  refine avoids_bind_ok haccounts fun ctx hctx => ?_
  refine avoids_bind (settlePaymentChecks_avoids he (hresets ctx hctx)) fun _ => ?_
  refine avoids_bind (avoids_bind (avoids_require (plain_ne he rfl)) fun _ =>
    tokenTransfer_avoids he) fun _ => ?_
  exact avoids_bind (avoids_orFail (plain_ne he rfl)) fun _ => avoids_pure

theorem resetWindow_avoids {period start : Int64} {spend : UInt64} (he : .arithmeticOverflow ≠ e) :
    Avoids e (resetWindowIfElapsed period spend start now) := by
  have hchecked : ∀ x, Avoids e (checkedI64 ProgramError.arithmeticOverflow x) :=
    fun _ => avoids_checkedI64 he
  refine avoids_bind (hchecked _) fun _ => avoids_ite ?_ avoids_pure
  refine avoids_bind (hchecked _) fun _ => ?_
  refine avoids_bind (hchecked _) fun _ => ?_
  refine avoids_bind (hchecked _) fun _ => ?_
  exact avoids_bind (hchecked _) fun _ => avoids_pure

omit [DecidableEq Pubkey] in
/-- A reset fails with nothing but an overflow. -/
theorem resetsAvoid_of_ne {wallet : AgentWallet Pubkey} {policy : SpendPolicy Pubkey}
    (he : .arithmeticOverflow ≠ e) : ResetsAvoid e now wallet policy where
  daily := avoids_bind (resetWindow_avoids he) fun _ => avoids_pure
  weekly _ _ := avoids_bind (resetWindow_avoids he) fun _ => avoids_pure
  monthly _ _ _ _ := avoids_bind (resetWindow_avoids he) fun _ => avoids_pure
  rate := avoids_ite (avoids_bind (avoids_checkedI64 he) fun _ =>
    avoids_ite avoids_pure avoids_pure) avoids_pure

/-- A settlement reports an account in use only for its payment record. -/
theorem settlePayment_avoids {accs : SettlePayment Pubkey} {params : SettlePaymentParams Pubkey}
    (h : ∀ bump, rt.findProgramAddress (.paymentRecord accs.agentWallet n) =
      some (accs.paymentRecord, bump) → s.Free accs.paymentRecord) :
    Avoids .accountAlreadyInUse (settlePayment rt now accs n params s) :=
  settlePayment_fails rfl (fun _ => h) fun _ _ => resetsAvoid_of_ne (by decide)

/-- A violation reports an account in use only for its payment record. -/
theorem recordPolicyViolation_avoids [Inhabited Pubkey] {accs : RecordPolicyViolation Pubkey}
    {params : SettlePaymentParams Pubkey} {reason : UInt8}
    (h : ∀ bump, rt.findProgramAddress (.paymentRecord accs.agentWallet n) =
      some (accs.paymentRecord, bump) → s.Free accs.paymentRecord) :
    Avoids .accountAlreadyInUse (recordPolicyViolation rt now accs n params reason s) := by
  have he : ProgramError.accountAlreadyInUse.plain = false := rfl
  have haccounts : Avoids .accountAlreadyInUse (accs.tryAccounts rt n params.agentId s) := by
    refine avoids_bind (load_avoids he) fun _ => ?_
    refine avoids_bind (initAccount_avoids he fun _ => h) fun _ => ?_
    refine avoids_bind (avoids_require (plain_ne he rfl)) fun _ => ?_
    exact avoids_bind (avoids_require (plain_ne he rfl)) fun _ => avoids_pure
  refine avoids_bind haccounts fun _ => ?_
  refine avoids_bind (avoids_orFail (plain_ne he rfl)) fun _ => ?_
  exact avoids_bind (avoids_require (plain_ne he rfl)) fun _ => avoids_pure

end Avoids

end MaximProtocol
