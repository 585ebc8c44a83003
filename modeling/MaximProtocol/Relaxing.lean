import MaximProtocol.Plans

/-!
# Relaxing a policy

`Relaxes p q`: the policy `q` asks for no more than `p`. Zero is no limit and an empty
list restricts nothing, so this is not the order of the numbers or of the sets.

`relaxing_accepts`: a list of payments that is accepted under `p` is accepted under `q`,
and leaves the same state but for the policy's own settings. The two runs are related at
every step by `Adopts`; the counter and its window move alike in both, whether or not the
limit they serve is on.
-/

namespace MaximProtocol

open MachineInt World Transitions

variable {Pubkey : Type}

/-! ## 1. The order of policies -/

/-- The limit `b` asks for no more than the limit `a`. -/
def LooserLimit (a b : Nat) : Prop := b = 0 ∨ (a ≠ 0 ∧ a ≤ b)

/-- Two policies of one wallet, the second asking for no more than the first. -/
structure Relaxes (p q : SpendPolicy Pubkey) : Prop where
  agentWallet : q.agentWallet = p.agentWallet
  bump : q.bump = p.bump
  threshold : q.highValueThreshold = p.highValueThreshold
  window_secs : q.rateLimitWindowSecs = p.rateLimitWindowSecs
  call_count : q.rateLimitCallCount = p.rateLimitCallCount
  window_start : q.rateLimitWindowStart = p.rateLimitWindowStart
  budget : ∀ h : Horizon, LooserLimit (h.budget p).toNat (h.budget q).toNat
  per_call : LooserLimit p.perCallLimit.toNat q.perCallLimit.toNat
  calls : LooserLimit p.rateLimitCalls.toNat q.rateLimitCalls.toNat
  blocked : q.blockedDomainHashes ⊆ p.blockedDomainHashes
  allowed : q.allowedDomainHashes = [] ∨
    (p.allowedDomainHashes ≠ [] ∧ p.allowedDomainHashes ⊆ q.allowedDomainHashes)

/-- The settings of `q` with the rate counter and its window from `p`. -/
def SpendPolicy.countedAs (q p : SpendPolicy Pubkey) : SpendPolicy Pubkey :=
  { q with
    rateLimitCallCount := p.rateLimitCallCount
    rateLimitWindowStart := p.rateLimitWindowStart }

variable {p p₁ q : SpendPolicy Pubkey} {now : Int64} {wallet w : AgentWallet Pubkey}
variable {params : SettlePaymentParams Pubkey}

theorem relaxes_countedAs (h : Relaxes p q) : q.countedAs p = q := by
  obtain ⟨_, _, _, _, hc, hs, _⟩ := h
  cases q
  simp_all [SpendPolicy.countedAs]

/-- Moving the counter and the window in both policies keeps them related. -/
theorem relaxes_counted (h : Relaxes p q) (n : UInt32) (t : Int64) :
    Relaxes { p with rateLimitCallCount := n, rateLimitWindowStart := t }
      { q with rateLimitCallCount := n, rateLimitWindowStart := t } where
  agentWallet := h.agentWallet
  bump := h.bump
  threshold := h.threshold
  window_secs := h.window_secs
  call_count := rfl
  window_start := rfl
  budget := by
    intro x
    cases x with
    | daily => exact h.budget .daily
    | weekly => exact h.budget .weekly
    | monthly => exact h.budget .monthly
  per_call := h.per_call
  calls := h.calls
  blocked := h.blocked
  allowed := h.allowed

theorem relaxes_reset (h : Relaxes p q) (hr : p.resetRateWindowIfElapsed now = .ok p₁) :
    q.resetRateWindowIfElapsed now = .ok (q.countedAs p₁) ∧ Relaxes p₁ (q.countedAs p₁) := by
  have hframe : ∃ n t, p₁ = { p with rateLimitCallCount := n, rateLimitWindowStart := t } := by
    rcases resetRate_of_ok hr with ⟨_, rfl⟩ | ⟨_, rfl⟩ <;> exact ⟨_, _, rfl⟩
  constructor
  · have hkept := relaxes_countedAs h
    unfold SpendPolicy.resetRateWindowIfElapsed at hr ⊢
    rw [h.window_secs, h.window_start]
    by_cases hs : 0 < p.rateLimitWindowSecs
    · simp only [hs, if_true, bind_eq_ok] at hr ⊢
      obtain ⟨e, he, hr⟩ := hr
      refine ⟨e, he, ?_⟩
      by_cases hle : e ≤ now
      · simp only [hle, if_true, pure_eq_ok] at hr ⊢
        simp [SpendPolicy.countedAs, ← hr, h.window_secs]
      · simp only [hle, if_false, pure_eq_ok] at hr ⊢
        rw [← hr, hkept]
    · simp only [hs, if_false, pure_eq_ok] at hr ⊢
      rw [← hr, hkept]
  · obtain ⟨n, t, rfl⟩ := hframe
    exact relaxes_counted h n t

theorem looserLimit_refl (a : Nat) : LooserLimit a a := by
  rcases Nat.eq_zero_or_pos a with h | h
  · exact .inl h
  · exact .inr ⟨h.ne', le_rfl⟩

theorem relaxes_refl (p : SpendPolicy Pubkey) : Relaxes p p := by
  refine ⟨rfl, rfl, rfl, rfl, rfl, rfl, fun _ => looserLimit_refl _, looserLimit_refl _,
    looserLimit_refl _, List.Subset.refl _, ?_⟩
  by_cases h : p.allowedDomainHashes = []
  · exact .inl h
  · exact .inr ⟨h, List.Subset.refl _⟩

/-! ## 2. One settlement -/

theorem withinPerCallLimit_relaxes {amount : UInt64} (h : Relaxes p q)
    (hp : p.withinPerCallLimit amount = true) : q.withinPerCallLimit amount = true := by
  rw [withinPerCallLimit_iff] at hp ⊢
  intro hne
  rcases h.per_call with hz | ⟨hpos, hle⟩
  · exact absurd (UInt64.toNat_inj.mp hz) hne
  · have hamount := hp (budget_ne_zero.mp hpos)
    rw [UInt64.le_iff_toNat_le] at hamount ⊢
    exact hamount.trans hle

theorem withinRateLimit_relaxes (h : Relaxes p q) (hp : p.withinRateLimit = true) :
    q.withinRateLimit = true := by
  simp only [SpendPolicy.withinRateLimit, Bool.or_eq_true, beq_iff_eq, decide_eq_true_eq,
    h.call_count] at hp ⊢
  rcases h.calls with hz | ⟨hpos, hle⟩
  · exact .inl (UInt32.toNat_inj.mp hz)
  · rcases hp with hz | hlt
    · rw [hz] at hpos
      exact absurd rfl hpos
    · rw [UInt32.lt_iff_toNat_lt] at hlt ⊢
      exact .inr (hlt.trans_le hle)

/-- What `p` lets through, `q` does, and the counters move alike. -/
theorem relaxes_enforced (h : Relaxes p q) (hp : Enforced now w p params p₁) :
    Enforced now w q params (q.countedAs p₁) ∧ Relaxes p₁ (q.countedAs p₁) := by
  obtain ⟨p₂, hr, hlimit, rfl⟩ := hp.rate
  obtain ⟨hr', h₂⟩ := relaxes_reset h hr
  have hrate : ∃ q₂, q.resetRateWindowIfElapsed now = .ok q₂ ∧ q₂.withinRateLimit = true ∧
      q.countedAs { p₂ with rateLimitCallCount := saturatingAdd32 p₂.rateLimitCallCount 1 } =
        { q₂ with rateLimitCallCount := saturatingAdd32 q₂.rateLimitCallCount 1 } :=
    ⟨_, hr', withinRateLimit_relaxes h₂ hlimit, rfl⟩
  refine ⟨⟨withinPerCallLimit_relaxes h hp.per_call, ?_, hrate, ?_, ?_⟩,
    relaxes_counted h₂ _ p₂.rateLimitWindowStart⟩
  · intro x hx
    rcases h.budget x with hz | ⟨hpos, hle⟩
    · exact absurd hz hx
    · exact (hp.budget x hpos).trans hle
  · exact fun hmem => hp.not_blocked (h.blocked hmem)
  · rcases h.allowed with hnil | ⟨hne, hsub⟩
    · exact .inl hnil
    · rcases hp.allowed with hnil | hmem
      · exact absurd hnil hne
      · exact .inr (hsub hmem)

theorem relaxes_passed {config : ProtocolConfig Pubkey} {sequence : UInt64} (h : Relaxes p q)
    (hp : Passed now config wallet p sequence params w p₁) :
    Passed now config wallet q sequence params w (q.countedAs p₁) ∧
      Relaxes p₁ (q.countedAs p₁) := by
  have hon : q.enforceOnChain params.amountUsdc = p.enforceOnChain params.amountUsdc := by
    simp only [SpendPolicy.enforceOnChain, h.threshold]
  obtain ⟨hamount, hprotocol, hseq, hcap, hactive, hfrozen, hreset, henforced, hskipped⟩ := hp
  cases he : p.enforceOnChain params.amountUsdc with
  | true =>
    obtain ⟨hq, hrel⟩ := relaxes_enforced h (henforced he)
    exact ⟨⟨hamount, hprotocol, hseq, hcap, hactive, hfrozen, hreset, fun _ => hq,
      by simp [hon, he]⟩, hrel⟩
  | false =>
    obtain rfl := hskipped he
    rw [relaxes_countedAs h]
    exact ⟨⟨hamount, hprotocol, hseq, hcap, hactive, hfrozen, hreset, by simp [hon, he],
      fun _ => rfl⟩, h⟩

/-! ## 3. The two runs -/

variable [DecidableEq Pubkey]

/-- The policy at `k`, when the one at `a` has the settings of `q`. -/
def adopted (a : Pubkey) (q : SpendPolicy Pubkey) (k : Pubkey) (p : SpendPolicy Pubkey) :
    SpendPolicy Pubkey :=
  if k = a then q.countedAs p else p

def adoptedAccount (a : Pubkey) (q : SpendPolicy Pubkey) (k : Pubkey) :
    Option (ProgramAccount Pubkey) → Option (ProgramAccount Pubkey)
  | some (.spendPolicy p) => some (.spendPolicy (adopted a q k p))
  | account => account

/-- The second state is the first with the settings of `q` in the policy at `a`. -/
structure Adopts (a : Pubkey) (q : SpendPolicy Pubkey) (s t : World Pubkey) : Prop where
  accounts : ∀ k, t.accounts k = adoptedAccount a q k (s.accounts k)
  tokens : t.tokens = s.tokens
  mints : t.mints = s.mints
  relaxes : ∃ p, s.policy a = some p ∧ Relaxes p (q.countedAs p)

section Views

variable {a k : Pubkey} {s t : World Pubkey}

theorem adopts_wallet (h : Adopts a q s t) : t.wallet k = s.wallet k := by
  unfold World.wallet
  rw [h.accounts k]
  cases s.accounts k with
  | none => rfl
  | some x => cases x <;> rfl

theorem adopts_config (h : Adopts a q s t) : t.config k = s.config k := by
  unfold World.config
  rw [h.accounts k]
  cases s.accounts k with
  | none => rfl
  | some x => cases x <;> rfl

theorem adopts_record (h : Adopts a q s t) : t.record k = s.record k := by
  unfold World.record
  rw [h.accounts k]
  cases s.accounts k with
  | none => rfl
  | some x => cases x <;> rfl

theorem adopts_policy (h : Adopts a q s t) (hp : s.policy k = some p) :
    t.policy k = some (adopted a q k p) := by
  rw [policy_eq_some] at hp ⊢
  rw [h.accounts k, hp]
  rfl

theorem adopts_free (h : Adopts a q s t) (hk : s.Free k) : t.Free k := by
  unfold Free at hk ⊢
  rw [h.accounts k, hk]
  rfl

/-- Every policy is replaced by one that asks for no more. -/
theorem adopts_relaxes (h : Adopts a q s t) (hp : s.policy k = some p) :
    Relaxes p (adopted a q k p) := by
  unfold adopted
  split
  · next hk =>
    obtain ⟨p', hp', hrel⟩ := h.relaxes
    rw [← hk, hp, Option.some.injEq] at hp'
    rwa [hp']
  · exact relaxes_refl p

end Views

section Steps

variable [Inhabited Pubkey] {rt : Runtime Pubkey} {a : Pubkey} {s t : World Pubkey}
variable {accs : SettlePayment Pubkey} {n : UInt64} {d : Delta Pubkey}

omit [Inhabited Pubkey] in
/-- The account checks read nothing but the settings differently. -/
theorem adopts_validates {ctx : SettlePayment.Loaded Pubkey} (h : Adopts a q s t)
    (hv : accs.Validates rt n params.agentId s ctx) :
    accs.Validates rt n params.agentId t
      { ctx with policy := adopted a q accs.spendPolicy ctx.policy } :=
  { hv with
    wallet := (adopts_wallet h).trans hv.wallet
    policy := adopts_policy h hv.policy
    config := (adopts_config h).trans hv.config
    source := by
      rw [h.tokens]
      exact hv.source
    payee := by
      rw [h.tokens]
      exact hv.payee
    mint := by
      rw [h.mints]
      exact hv.mint
    record_free := adopts_free h hv.record_free
    policy_seeds := by
      rw [(adopts_relaxes h hv.policy).bump]
      exact hv.policy_seeds
    policy_wallet := by
      rw [(adopts_relaxes h hv.policy).agentWallet]
      exact hv.policy_wallet }

omit [DecidableEq Pubkey] [Inhabited Pubkey] in
theorem countedAs_passed {config : ProtocolConfig Pubkey} {wallet w : AgentWallet Pubkey}
    (hp : Passed now config wallet p n params w p₁) : p.countedAs p₁ = p₁ := by
  obtain ⟨_, _, rfl, _⟩ := passed_policy hp
  rfl

omit [Inhabited Pubkey] in
theorem adopted_countedAs {k : Pubkey} (hp : p.countedAs p₁ = p₁) :
    (adopted a q k p).countedAs p₁ = adopted a q k p₁ := by
  unfold adopted
  split
  · rfl
  · exact hp

/-- **One settlement**: it is accepted in the second state too, and the states stay
related. -/
theorem adopts_plans (h : Adopts a q s t)
    (hd : Plans rt now s (.settlePayment accs n params) d) :
    Plans rt now t (.settlePayment accs n params) (d.map (adoptedAccount a q)) ∧
      Adopts a q (d.apply s) ((d.map (adoptedAccount a q)).apply t) := by
  cases hd with
  | @settlePayment _ _ _ ctx w p' _ _ validates passed transfer discriminant =>
    obtain ⟨hpassed, hrel⟩ := relaxes_passed (adopts_relaxes h validates.policy) passed
    rw [adopted_countedAs (countedAs_passed passed)] at hpassed hrel
    constructor
    · rw [← h.tokens] at transfer
      have hplan := Plans.settlePayment (adopts_validates h validates) hpassed transfer
        discriminant
      exact hplan
    · refine ⟨fun k => apply_agrees (P := fun _ => True) (fun k _ => h.accounts k) _ k trivial,
        by simp only [apply_tokens, map_tokens, h.tokens], h.mints, ?_⟩
      -- the policy at `a` is neither the wallet nor the new record
      obtain ⟨p, hp, hpq⟩ := h.relaxes
      have hwallet : a ≠ accs.agentWallet := by
        rintro rfl
        have hnone := (wallet_only validates.wallet).2.1
        rw [hp] at hnone
        cases hnone
      have hrecord : a ≠ accs.paymentRecord := by
        rintro rfl
        have hnone := (free_iff.mp validates.record_free).2.2.1
        rw [hp] at hnone
        cases hnone
      by_cases ha : accs.spendPolicy = a
      · subst ha
        simp only [adopted, if_true] at hrel
        refine ⟨p', ?_, hrel⟩
        simp [World.policy, Delta.apply, writeAll, hrecord, ProgramAccount.policy?]
      · refine ⟨p, ?_, hpq⟩
        rw [← hp]
        simp [World.policy, Delta.apply, writeAll, hwallet, hrecord, Ne.symm ha]

end Steps

/-! ## 4. Lists of payments -/

section Runs

/-- A clock reading and the inputs of `settle_payment`. -/
structure Payment (Pubkey : Type) where
  now : Int64
  accs : SettlePayment Pubkey
  sequence : UInt64
  params : SettlePaymentParams Pubkey

omit [DecidableEq Pubkey] in
def Payment.submission (x : Payment Pubkey) : Submission Pubkey :=
  (x.now, .settlePayment x.accs x.sequence x.params)

variable [Inhabited Pubkey] {rt : Runtime Pubkey} {a : Pubkey} {s t : World Pubkey}
variable {l : List (Payment Pubkey)}

/-- The state after the payments, submitted in order. -/
def payAll (rt : Runtime Pubkey) (s : World Pubkey) (l : List (Payment Pubkey)) : World Pubkey :=
  submitAll rt s (l.map Payment.submission)

/-- `settle_payment` accepts every payment, each in the state the earlier ones left. -/
def acceptsAll (rt : Runtime Pubkey) (s : World Pubkey) : List (Payment Pubkey) → Bool
  | [] => true
  | x :: l => succeeds rt s x.submission && acceptsAll rt (submit rt s x.submission) l

theorem adopts_payAll (h : Adopts a q s t) (hl : acceptsAll rt s l = true) :
    acceptsAll rt t l = true ∧ Adopts a q (payAll rt s l) (payAll rt t l) := by
  induction l generalizing s t with
  | nil => exact ⟨rfl, h⟩
  | cons x l ih =>
    simp only [acceptsAll, Bool.and_eq_true] at hl ⊢
    obtain ⟨hx, hl⟩ := hl
    obtain ⟨hsign, d, hd⟩ := succeeds_iff.mp hx
    obtain ⟨hd', hnext⟩ := adopts_plans h hd
    rw [submit_of_plans hsign hd] at hl
    obtain ⟨hl', hend⟩ := ih hnext hl
    have hsame : submit rt t x.submission = _ := submit_of_plans hsign hd'
    refine ⟨⟨succeeds_iff.mpr ⟨hsign, _, hd'⟩, hsame ▸ hl'⟩, ?_⟩
    show Adopts a q (payAll rt (submit rt s x.submission) l)
      (payAll rt (submit rt t x.submission) l)
    rw [submit_of_plans hsign hd, hsame]
    exact hend

/-- **Relaxing a policy rejects no list of payments.** What is accepted under `p` is
accepted under `q`, and leaves the same wallets, token accounts and records, and in the
policy the settings of `q` with the same rate counter and window. -/
theorem relaxing_accepts {p q : SpendPolicy Pubkey} (hp : s.policy a = some p)
    (hrelax : Relaxes p q) (hl : acceptsAll rt s l = true) :
    acceptsAll rt (s.write a (some (.spendPolicy q))) l = true ∧
      ∃ p', (payAll rt s l).policy a = some p' ∧
        Views (payAll rt (s.write a (some (.spendPolicy q))) l) (payAll rt s l).config
          (payAll rt s l).wallet
          (Function.update (payAll rt s l).policy a (some (q.countedAs p')))
          (payAll rt s l).record (payAll rt s l).tokens (payAll rt s l).mints := by
  have hstart : Adopts a q s (s.write a (some (.spendPolicy q))) := by
    refine ⟨fun k => ?_, rfl, rfl, p, hp, ?_⟩
    · rcases eq_or_ne k a with rfl | hk
      · rw [policy_eq_some] at hp
        simp [World.write, hp, adoptedAccount, adopted, relaxes_countedAs hrelax]
      · simp only [World.write, Function.update_of_ne hk]
        cases s.accounts k with
        | none => rfl
        | some x => cases x <;> simp [adoptedAccount, adopted, hk]
    · rw [relaxes_countedAs hrelax]
      exact hrelax
  obtain ⟨hacc, hend⟩ := adopts_payAll hstart hl
  obtain ⟨p', hp', hrel⟩ := hend.relaxes
  refine ⟨hacc, p', hp', ?_, ?_, ?_, ?_, hend.tokens, hend.mints⟩
  · exact funext fun k => adopts_config hend
  · exact funext fun k => adopts_wallet hend
  · funext k
    rcases eq_or_ne k a with rfl | hk
    · rw [adopts_policy hend hp', Function.update_self, adopted, if_pos rfl]
    · rw [Function.update_of_ne hk]
      unfold World.policy
      rw [hend.accounts k]
      cases (payAll rt s l).accounts k with
      | none => rfl
      | some x => cases x <;> simp [adoptedAccount, adopted, hk, ProgramAccount.policy?]
  · exact funext fun k => adopts_record hend

end Runs

namespace Demo

def strictParams : SetSpendPolicyParams where
  dailyBudget := 100
  weeklyBudget := 200
  perCallLimit := 50
  rateLimitCalls := 2
  rateLimitWindowSecs := 60
  highValueThreshold := 10
  monthlyBudget := 0
  allowedDomainHashes := [Vector.replicate 32 0]
  blockedDomainHashes := [Vector.replicate 32 1]

/-- No budget, a higher limit for each call, one call more, another allowed domain and none
blocked. -/
def looseParams : SetSpendPolicyParams :=
  { strictParams with
    dailyBudget := 0
    weeklyBudget := 300
    perCallLimit := 60
    rateLimitCalls := 3
    allowedDomainHashes := [Vector.replicate 32 2, Vector.replicate 32 0]
    blockedDomainHashes := [] }

def strict : SpendPolicy Key := SpendPolicy.ofParams (Demo.wallet alice) 200 strictParams 255
def loose : SpendPolicy Key := SpendPolicy.ofParams (Demo.wallet alice) 200 looseParams 255

def restricted : World Key :=
  afterRegister.write (.spendPolicy (Demo.wallet alice)) (some (.spendPolicy strict))

/-- A day's enforced payments around one below the threshold, and one on the next day. -/
def payments : List (Payment Key) :=
  [(0, 50, 210), (1, 5, 220), (2, 45, 230), (3, 50, 90000)].map fun x =>
    ⟨x.2.2, settleAccounts alice owner x.1 (mint 1) (.associated payee (mint 1)), x.1,
      Demo.params alice x.2.1⟩

end Demo

theorem relaxing_accepts_payments :
    acceptsAll Key.runtime (Demo.restricted.write (.spendPolicy (Demo.wallet Demo.alice))
        (some (.spendPolicy Demo.loose))) Demo.payments = true ∧
      ∃ p', (payAll Key.runtime Demo.restricted Demo.payments).policy
          (.spendPolicy (Demo.wallet Demo.alice)) = some p' ∧
        Views (payAll Key.runtime (Demo.restricted.write (.spendPolicy (Demo.wallet Demo.alice))
            (some (.spendPolicy Demo.loose))) Demo.payments)
          (payAll Key.runtime Demo.restricted Demo.payments).config
          (payAll Key.runtime Demo.restricted Demo.payments).wallet
          (Function.update (payAll Key.runtime Demo.restricted Demo.payments).policy
            (.spendPolicy (Demo.wallet Demo.alice)) (some (Demo.loose.countedAs p')))
          (payAll Key.runtime Demo.restricted Demo.payments).record
          (payAll Key.runtime Demo.restricted Demo.payments).tokens
          (payAll Key.runtime Demo.restricted Demo.payments).mints :=
  relaxing_accepts (p := Demo.strict) rfl
    { agentWallet := rfl, bump := rfl, threshold := rfl, window_secs := rfl, call_count := rfl
      window_start := rfl
      budget := by
        intro h
        cases h
        · exact .inl rfl
        · exact .inr (by decide)
        · exact .inl rfl
      per_call := .inr (by decide), calls := .inr (by decide)
      blocked := by decide, allowed := .inr (by decide) }
    (by decide +kernel)

end MaximProtocol
