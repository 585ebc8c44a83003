import MaximProtocol.Relaxing

/-!
# The enforcement threshold

Payments of at least `high_value_threshold` are checked against the policy, and none are
where it is zero. So the thresholds are ordered as limits are (`LooserLimit`): from 1, which
lets no payment past the checks, upwards, with 0 above all others.

`threshold_tightens`: a payment that is rejected stays rejected when the threshold is
lowered, down to 1.
-/

namespace MaximProtocol

open MachineInt World Transitions

variable {Pubkey : Type}

/-! ## 1. Two thresholds of one policy -/

def SpendPolicy.atThreshold (p : SpendPolicy Pubkey) (t : UInt64) : SpendPolicy Pubkey :=
  { p with highValueThreshold := t }

variable {p p₁ : SpendPolicy Pubkey} {t₁ t₂ : UInt64} {amount : UInt64} {now : Int64}
variable {wallet w : AgentWallet Pubkey} {params : SettlePaymentParams Pubkey}

theorem atThreshold_enforces {t : UInt64} :
    (p.atThreshold t).enforceOnChain amount = true ↔ t ≠ 0 ∧ t ≤ amount := enforceOnChain_iff

/-- What a looser threshold enforces, the tighter one does. -/
theorem enforces_of_looser (h : LooserLimit t₁.toNat t₂.toNat)
    (he : (p.atThreshold t₂).enforceOnChain amount = true) :
    (p.atThreshold t₁).enforceOnChain amount = true := by
  rw [atThreshold_enforces] at he ⊢
  obtain ⟨hne, hle⟩ := he
  rcases h with hz | ⟨hpos, hlow⟩
  · exact absurd (UInt64.toNat_inj.mp hz) hne
  · rw [UInt64.le_iff_toNat_le] at hle ⊢
    exact ⟨budget_ne_zero.mp hpos, hlow.trans hle⟩

/-- The rate window is reset whatever the threshold. -/
theorem atThreshold_reset {t : UInt64} (h : p.resetRateWindowIfElapsed now = .ok p₁) :
    (p.atThreshold t).resetRateWindowIfElapsed now = .ok (p₁.atThreshold t) := by
  unfold SpendPolicy.resetRateWindowIfElapsed at h ⊢
  simp only [SpendPolicy.atThreshold]
  by_cases hs : 0 < p.rateLimitWindowSecs
  · simp only [hs, if_true, bind_eq_ok] at h ⊢
    obtain ⟨e, he, h⟩ := h
    refine ⟨e, he, ?_⟩
    by_cases hle : e ≤ now
    · simp only [hle, if_true, pure_eq_ok] at h ⊢
      rw [← h]
    · simp only [hle, if_false, pure_eq_ok] at h ⊢
      rw [← h]
  · simp only [hs, if_false, pure_eq_ok] at h ⊢
    rw [← h]

/-- The limits let the same payments through whatever the threshold. -/
theorem atThreshold_enforced {t : UInt64} (h : Enforced now w p params p₁) :
    Enforced now w (p.atThreshold t) params (p₁.atThreshold t) := by
  obtain ⟨p₂, hr, hlimit, rfl⟩ := h.rate
  refine ⟨h.per_call, fun x => ?_, ⟨p₂.atThreshold t, atThreshold_reset hr, hlimit, rfl⟩,
    h.not_blocked, h.allowed⟩
  cases x with
  | daily => exact h.budget .daily
  | weekly => exact h.budget .weekly
  | monthly => exact h.budget .monthly

theorem atThreshold_passed {config : ProtocolConfig Pubkey} {sequence : UInt64}
    (hloose : LooserLimit t₁.toNat t₂.toNat)
    (h : Passed now config wallet (p.atThreshold t₁) sequence params w p₁) :
    ∃ p₂, Passed now config wallet (p.atThreshold t₂) sequence params w p₂ := by
  obtain ⟨hamount, hprotocol, hseq, hcap, hactive, hfrozen, hreset, henforced, _⟩ := h
  cases he : (p.atThreshold t₂).enforceOnChain params.amountUsdc with
  | true =>
    have hpass := atThreshold_enforced (t := t₂) (henforced (enforces_of_looser hloose he))
    exact ⟨_, hamount, hprotocol, hseq, hcap, hactive, hfrozen, hreset, fun _ => hpass,
      by simp [he]⟩
  | false =>
    exact ⟨_, hamount, hprotocol, hseq, hcap, hactive, hfrozen, hreset, by simp [he],
      fun _ => rfl⟩

/-! ## 2. Two states that differ in a threshold -/

variable [DecidableEq Pubkey]

/-- The state with the policy `p` at `q`, its threshold being `t`. -/
def withThreshold (s : World Pubkey) (q : Pubkey) (p : SpendPolicy Pubkey) (t : UInt64) :
    World Pubkey :=
  s.write q (some (.spendPolicy (p.atThreshold t)))

variable {s : World Pubkey} {q k : Pubkey} {rt : Runtime Pubkey} {accs : SettlePayment Pubkey}
variable {n : UInt64}

theorem withThreshold_policy (t : UInt64) :
    (withThreshold s q p t).policy q = some (p.atThreshold t) := by
  rw [withThreshold, (views_write _ _ _).policy, Function.update_self]
  rfl

theorem withThreshold_free (h : (withThreshold s q p t₁).Free k) :
    (withThreshold s q p t₂).Free k := by
  unfold withThreshold Free write at h ⊢
  rcases eq_or_ne k q with rfl | hne
  · simp at h
  · simpa only [Function.update_of_ne hne] using h

/-- The account checks read nothing of the threshold. -/
theorem withThreshold_validates (t₂ : UInt64) {ctx : SettlePayment.Loaded Pubkey}
    (hv : accs.Validates rt n params.agentId (withThreshold s accs.spendPolicy p t₁) ctx) :
    ctx.policy = p.atThreshold t₁ ∧
      accs.Validates rt n params.agentId (withThreshold s accs.spendPolicy p t₂)
        { ctx with policy := p.atThreshold t₂ } := by
  have hv₁ := views_write s accs.spendPolicy (some (.spendPolicy (p.atThreshold t₁)))
  have hv₂ := views_write s accs.spendPolicy (some (.spendPolicy (p.atThreshold t₂)))
  have hpolicy : ctx.policy = p.atThreshold t₁ := by
    have hread := hv.policy
    rw [withThreshold_policy] at hread
    exact (Option.some.inj hread).symm
  have hseeds := hv.policy_seeds
  have hnamed := hv.policy_wallet
  rw [hpolicy] at hseeds hnamed
  refine ⟨hpolicy, { hv with
    wallet := ?_
    policy := withThreshold_policy t₂
    config := ?_
    record_free := withThreshold_free hv.record_free
    policy_seeds := hseeds
    policy_wallet := hnamed }⟩
  · have hwallet := hv.wallet
    rw [withThreshold, hv₁.wallet] at hwallet
    rw [withThreshold, hv₂.wallet]
    exact hwallet
  · have hconfig := hv.config
    rw [withThreshold, hv₁.config] at hconfig
    rw [withThreshold, hv₂.config]
    exact hconfig

variable [Inhabited Pubkey]

/-- A payment accepted under a threshold is accepted under every looser one. -/
theorem looser_accepts (hloose : LooserLimit t₁.toNat t₂.toNat)
    (h : succeeds rt (withThreshold s accs.spendPolicy p t₁)
      (now, .settlePayment accs n params) = true) :
    succeeds rt (withThreshold s accs.spendPolicy p t₂)
      (now, .settlePayment accs n params) = true := by
  obtain ⟨hsign, d, hd⟩ := succeeds_iff.mp h
  refine succeeds_iff.mpr ⟨hsign, ?_⟩
  cases hd with
  | @settlePayment _ _ _ ctx _ _ _ _ validates passed transfer discriminant =>
    obtain ⟨hpolicy, hvalidates⟩ := withThreshold_validates t₂ validates
    rw [hpolicy] at passed
    obtain ⟨p₂, hpassed⟩ := atThreshold_passed hloose passed
    exact ⟨_, .settlePayment hvalidates hpassed transfer discriminant⟩

/-! ## 3. Lowering the threshold -/

/-- **Lowering the threshold of a policy to a positive one only tightens enforcement**: what
is rejected stays so, for every state, clock and payment. The tightest threshold is 1, under
which every payment is enforced. The loosest is 0, under which none is. -/
theorem threshold_tightens (rt : Runtime Pubkey) (s : World Pubkey) (p : SpendPolicy Pubkey)
    (now : Int64) (accs : SettlePayment Pubkey) (n : UInt64) (params : SettlePaymentParams Pubkey) :
    (∀ t₁ t₂, t₁ ≤ t₂ → (t₁ = 0 → t₂ = 0) →
      succeeds rt (withThreshold s accs.spendPolicy p t₂)
        (now, .settlePayment accs n params) = false →
      succeeds rt (withThreshold s accs.spendPolicy p t₁)
        (now, .settlePayment accs n params) = false) ∧
    (∀ amount, (p.atThreshold 1).enforceOnChain amount = true ↔ 0 < amount) ∧
    (∀ amount, (p.atThreshold 0).enforceOnChain amount = false) ∧
    ∀ t, succeeds rt (withThreshold s accs.spendPolicy p 0)
        (now, .settlePayment accs n params) = false →
      succeeds rt (withThreshold s accs.spendPolicy p t)
        (now, .settlePayment accs n params) = false := by
  have hreject : ∀ t₁ t₂ : UInt64, LooserLimit t₁.toNat t₂.toNat →
      succeeds rt (withThreshold s accs.spendPolicy p t₂)
        (now, .settlePayment accs n params) = false →
      succeeds rt (withThreshold s accs.spendPolicy p t₁)
        (now, .settlePayment accs n params) = false := by
    intro t₁ t₂ hloose hfalse
    by_contra htrue
    rw [Bool.not_eq_false] at htrue
    rw [looser_accepts hloose htrue] at hfalse
    cases hfalse
  refine ⟨fun t₁ t₂ hle hzero => hreject t₁ t₂ ?_, fun amount => ?_, fun amount => ?_,
    fun t => hreject t 0 (.inl rfl)⟩
  · rw [UInt64.le_iff_toNat_le] at hle
    by_cases h₁ : t₁ = 0
    · rw [hzero h₁]
      exact .inl rfl
    · exact .inr ⟨budget_ne_zero.mpr h₁, hle⟩
  · have hone : (1 : UInt64) ≠ 0 := by decide
    rw [atThreshold_enforces, and_iff_right hone, UInt64.le_iff_toNat_le, UInt64.lt_iff_toNat_lt]
    exact Nat.succ_le_iff
  · rw [Bool.eq_false_iff, ne_eq, atThreshold_enforces]
    simp

namespace Demo

/-- The state that the opening run leaves. -/
def openingEnd : World Key := submitAll Key.runtime chain opening

/-- A payment of 600, with 70 of a daily budget of 500 spent. -/
def overspend : SettlePayment Key :=
  settleAccounts alice owner 2 (mint 1) (.associated payee (mint 1))

end Demo

/-- Rejected at 20 as at 10. -/
theorem threshold_tightens_opening :
    succeeds Key.runtime (withThreshold Demo.openingEnd Demo.overspend.spendPolicy
      Demo.openedPolicy 10) (400, .settlePayment Demo.overspend 2 (Demo.params Demo.alice 600)) =
      false :=
  (threshold_tightens Key.runtime Demo.openingEnd Demo.openedPolicy 400 Demo.overspend 2
    (Demo.params Demo.alice 600)).1 10 20 (by decide) (by decide) (by decide +kernel)

/-- The same payment is rejected at 10 and accepted at 0. -/
theorem zero_threshold_loosens : ¬ ∀ (s : World Key) (p : SpendPolicy Key) (now : Int64)
    (accs : SettlePayment Key) (n : UInt64) (params : SettlePaymentParams Key) (t₁ t₂ : UInt64),
    t₁ ≤ t₂ →
    succeeds Key.runtime (withThreshold s accs.spendPolicy p t₂)
      (now, .settlePayment accs n params) = false →
    succeeds Key.runtime (withThreshold s accs.spendPolicy p t₁)
      (now, .settlePayment accs n params) = false := by
  intro h
  have hrejected : succeeds Key.runtime (withThreshold Demo.openingEnd Demo.overspend.spendPolicy
      Demo.openedPolicy 10) (400, .settlePayment Demo.overspend 2 (Demo.params Demo.alice 600)) =
      false := by decide +kernel
  have haccepted : succeeds Key.runtime (withThreshold Demo.openingEnd Demo.overspend.spendPolicy
      Demo.openedPolicy 0) (400, .settlePayment Demo.overspend 2 (Demo.params Demo.alice 600)) =
      true := by decide +kernel
  rw [h _ _ _ _ _ _ 0 10 (by decide) hrejected] at haccepted
  cases haccepted

end MaximProtocol
