import MaximProtocol.Quotas
import MaximProtocol.Library.Nested
import Mathlib.Data.Int.ModEq
import Mathlib.Data.Finset.Max

/-!
# The accounting windows of a wallet

Nothing here assumes that the clock moves forward.

1. `counters_consistent`: the daily window of a wallet lies within its weekly and its monthly
   one, all on grids through its registration, and each holds no more than the next.
2. `windows_never_abort`: while the clock stays below the end of the `i64` range by `2 ^ 32`,
   no window reset overflows.
-/

namespace MaximProtocol

open MachineInt World Transitions Tumbling

variable {Pubkey : Type} [DecidableEq Pubkey] [Inhabited Pubkey] {rt : Runtime Pubkey}
variable {s s' : World Pubkey} {k : Pubkey} {tr : Trace Pubkey}

/-! ## 1. The windows nest -/

/-- The windows of a wallet registered at clock `t`. -/
structure Tiered (t : Int) (w : AgentWallet Pubkey) : Prop where
  nested : ∀ h : Horizon,
    Nested Horizon.daily.seconds h.seconds (w.window .daily) (w.window h)
  grid : ∀ h : Horizon, h.seconds ∣ (w.window h).start - t
  volume : ∀ h : Horizon, (w.window h).spent ≤ w.totalVolume.toNat

/-- Every period is a whole number of days. -/
theorem day_dvd (h : Horizon) : Horizon.daily.seconds ∣ h.seconds := by
  cases h <;> decide

omit [DecidableEq Pubkey] [Inhabited Pubkey] in
/-- Settlements at any clock readings leave the windows of a new wallet nested. -/
theorem tiered_accrues {agentId : Bytes} {owner token : Pubkey} {now : Int64} {bump : UInt8}
    {w : AgentWallet Pubkey} {l : List (Settlement Pubkey)}
    (h : Accrues (AgentWallet.registered agentId owner token now bump) w l) :
    Tiered now.toInt w := by
  refine ⟨fun hz => ?_, fun hz => ?_, fun hz => ?_⟩
  · rw [h.window .daily, h.window hz, window_registered, window_registered]
    exact chargeAll_nested (Horizon.seconds_pos .daily) hz.seconds_pos (day_dvd hz)
      (nested_refl hz.seconds_pos _)
  · rw [h.window hz, window_registered]
    exact chargeAll_aligned
  · have hvolume : w.totalVolume.toNat = min u64Max (0 + amounts l) := h.volume
    rw [h.window hz, window_registered, hvolume, ← total_settled]
    exact chargeAll_spent_le (Nat.zero_le _)

theorem tiered_run {w : AgentWallet Pubkey} (h0 : Genesis rt s) (hr : Reaches rt s tr s')
    (hw : s'.wallet k = some w) :
    ∃ l x m t accs agentId, tr = l ++ x :: m ∧
      x.label = .accepted t (.registerAgent accs agentId) ∧ accs.agentWallet = k ∧
      StaysOpen k m ∧ Tiered t.toInt w := by
  obtain ⟨l, x, m, t, accs, agentId, bump, rfl, hl, hk, hopen, hacc⟩ :=
    accrues_since hr (genesis_wallet h0 k) hw
  exact ⟨l, x, m, t, accs, agentId, rfl, hl, hk, hopen, tiered_accrues hacc⟩

/-- The counters of a wallet registered at clock `t` agree with each other. -/
structure Consistent (t : Int) (w : AgentWallet Pubkey) : Prop where
  weekly : w.weeklyWindowStart.toInt ≤ w.dailyWindowStart.toInt ∧
    w.dailyWindowStart.toInt < w.weeklyWindowStart.toInt + 604800
  monthly : w.monthlyWindowStart.toInt ≤ w.dailyWindowStart.toInt ∧
    w.dailyWindowStart.toInt < w.monthlyWindowStart.toInt + 2592000
  day : ∀ h : Horizon, (h.windowStart w).toInt ≡ t [ZMOD 86400]
  week : w.weeklyWindowStart.toInt ≡ t [ZMOD 604800]
  month : w.monthlyWindowStart.toInt ≡ t [ZMOD 2592000]
  weekly_spend : w.dailySpend ≤ w.weeklySpend ∧ w.weeklySpend ≤ w.totalVolume
  monthly_spend : w.dailySpend ≤ w.monthlySpend ∧ w.monthlySpend ≤ w.totalVolume

omit [DecidableEq Pubkey] [Inhabited Pubkey] in
theorem consistent_of_tiered {t : Int} {w : AgentWallet Pubkey} (h : Tiered t w) :
    Consistent t w := by
  have hgrid : ∀ hz : Horizon, (hz.windowStart w).toInt ≡ t [ZMOD hz.seconds] :=
    fun hz => (Int.modEq_iff_dvd.mpr (h.grid hz)).symm
  have hspend : ∀ hz : Horizon, w.dailySpend ≤ hz.spend w ∧ hz.spend w ≤ w.totalVolume :=
    fun hz => ⟨UInt64.le_iff_toNat_le.mpr (h.nested hz).spent_le,
      UInt64.le_iff_toNat_le.mpr (h.volume hz)⟩
  exact ⟨⟨(h.nested .weekly).start_le, (h.nested .weekly).before_end⟩,
    ⟨(h.nested .monthly).start_le, (h.nested .monthly).before_end⟩,
    fun hz => (hgrid hz).of_dvd (day_dvd hz), hgrid .weekly, hgrid .monthly,
    hspend .weekly, hspend .monthly⟩

/-- A settlement that moves any window of a wallet moves the daily one, and clears it first. -/
theorem settlement_forces {x : Settlement Pubkey} (h0 : Genesis rt s) (hr : Reaches rt s tr s')
    (hx : x ∈ settlements k tr) :
    ∃ w w', x.pre.wallet k = some w ∧ x.post.wallet k = some w' ∧
      ∀ h : Horizon, h.windowStart w' ≠ h.windowStart w →
        w.dailyWindowStart < w'.dailyWindowStart ∧ w'.dailySpend = x.amount := by
  obtain ⟨y, hy, he⟩ := List.mem_filterMap.mp hx
  obtain ⟨l, m, rfl, hl, hs, _⟩ := run_split hr hy
  obtain ⟨hpre, _, n, params, ctx, w₁, p, hset⟩ := settlement_inv hs he
  obtain ⟨_, ha⟩ := settled_appends hset.settles
  rw [hset.wallet, hset.amount] at ha
  refine ⟨ctx.wallet, _, ha.before, ha.after, fun h hmove => ?_⟩
  -- the wallet before the settlement is tiered, by the run up to there
  obtain ⟨_, _, _, _, _, _, _, _, _, _, htiered⟩ := tiered_run h0 hl (hpre ▸ ha.before)
  have hwindow : ∀ hz : Horizon, (w₁.accountPayment x.clock x.amount).window hz =
      charge u64Max hz.seconds (ctx.wallet.window hz) x.charge :=
    fun hz => window_settlement (passed_resets hset.settles.passed) hz _
  have hmoved : (charge u64Max h.seconds (ctx.wallet.window h) x.charge).start ≠
      (ctx.wallet.window h).start := by
    rw [← hwindow]
    exact fun heq => hmove (Int64.toInt_inj.mp heq)
  obtain ⟨hstart, hspent⟩ :=
    charge_forces (Horizon.seconds_pos .daily) (day_dvd h) (htiered.nested h) hmoved
  rw [← hwindow .daily] at hstart hspent
  refine ⟨Int64.lt_iff_toInt_lt.mpr hstart, UInt64.toNat_inj.mp (hspent.trans ?_)⟩
  exact Nat.min_eq_right (toNat_le_u64Max x.amount)

/-- **The counters of every wallet agree**, after any run at any readings of the clock, and
no settlement moves the weekly or the monthly window without the daily one. -/
theorem counters_consistent (h0 : Genesis rt s) (hr : Reaches rt s tr s') :
    (∀ k w, s'.wallet k = some w → ∃ l x m t accs agentId, tr = l ++ x :: m ∧
      x.label = .accepted t (.registerAgent accs agentId) ∧ accs.agentWallet = k ∧
      StaysOpen k m ∧ Consistent t.toInt w) ∧
    ∀ k, ∀ x ∈ settlements k tr, ∃ w w', x.pre.wallet k = some w ∧ x.post.wallet k = some w' ∧
      ∀ h : Horizon, h.windowStart w' ≠ h.windowStart w →
        w.dailyWindowStart < w'.dailyWindowStart ∧ w'.dailySpend = x.amount := by
  refine ⟨fun k w hw => ?_, fun k x hx => settlement_forces h0 hr hx⟩
  obtain ⟨l, x, m, t, accs, agentId, htr, hl, hk, hopen, htiered⟩ := tiered_run h0 hr hw
  exact ⟨l, x, m, t, accs, agentId, htr, hl, hk, hopen, consistent_of_tiered htiered⟩

namespace Demo

/-- A payment more than a week after the registration, and one before it. -/
def rewinding : List (Submission Key) :=
  [initProtocol, register alice owner (mint 0) 100, setPolicy alice owner 500 10 100,
    pay 0 20 700000, pay 1 30 50]

/-- The wallet this leaves: eight days and one week have been skipped. -/
def rewound : AgentWallet Key :=
  { AgentWallet.registered alice owner (.associated (wallet alice) (mint 0)) 100 255 with
    dailySpend := 50, dailyWindowStart := 691300, weeklySpend := 50, weeklyWindowStart := 604900
    monthlySpend := 50, paymentSequence := 2, totalPayments := 2, totalVolume := 50
    lastPaymentAt := 50 }

end Demo

theorem counters_consistent_rewinding :
    ∃ l x m t accs agentId, replay Key.runtime Demo.chain Demo.rewinding = l ++ x :: m ∧
      x.label = .accepted t (.registerAgent accs agentId) ∧
      accs.agentWallet = Demo.wallet Demo.alice ∧ StaysOpen (Demo.wallet Demo.alice) m ∧
      Consistent t.toInt Demo.rewound :=
  (counters_consistent Demo.genesis_chain
    (replay_reaches Key.runtime Demo.chain Demo.rewinding)).1 _ _ rfl

/-! ## 2. The resets never overflow -/

/-- The latest time at which no window reset can overflow. -/
def lastClock : Int := 2 ^ 63 - 1 - 2 ^ 32

/-- The start of a window is not negative, and some reading of the clock is as late. -/
def StartsWithin (tr : Trace Pubkey) (start : Int64) : Prop :=
  0 ≤ start.toInt ∧ start.toInt ≤ lastClock ∧ ∃ c ∈ clocks tr, start.toInt ≤ c

/-- No reset of a settlement at `now` overflows on an account of this state. -/
structure ResetsDefined (now : Int64) (s : World Pubkey) : Prop where
  wallet : ∀ {k w}, s.wallet k = some w → ∃ a b c, w.resetDailyWindowIfElapsed now = .ok a ∧
    a.resetWeeklyWindowIfElapsed now = .ok b ∧ b.resetMonthlyWindowIfElapsed now = .ok c
  policy : ∀ {q p}, s.policy q = some p → ∃ p₁, p.resetRateWindowIfElapsed now = .ok p₁

omit [DecidableEq Pubkey] [Inhabited Pubkey] in
theorem resetsAvoid_of_ok {e : ProgramError} {now : Int64} {w a b c : AgentWallet Pubkey}
    {p p₁ : SpendPolicy Pubkey} (hd : w.resetDailyWindowIfElapsed now = .ok a)
    (hwk : a.resetWeeklyWindowIfElapsed now = .ok b)
    (hm : b.resetMonthlyWindowIfElapsed now = .ok c)
    (hp : p.resetRateWindowIfElapsed now = .ok p₁) : ResetsAvoid e now w p := by
  refine ⟨avoids_of_ok hd, fun a' ha => ?_, fun a' b' ha hb => ?_, avoids_of_ok hp⟩
  · rw [hd] at ha
    cases ha
    exact avoids_of_ok hwk
  · rw [hd] at ha
    cases ha
    rw [hwk] at hb
    cases hb
    exact avoids_of_ok hm

omit [DecidableEq Pubkey] [Inhabited Pubkey] in
theorem exists_latest (hne : clocks tr ≠ []) : ∃ T ∈ clocks tr, ∀ c ∈ clocks tr, c ≤ T := by
  obtain ⟨T, hT, hmax⟩ := (clocks tr).toFinset.exists_max_image id
    ((List.toFinset_nonempty_iff _).mpr hne)
  exact ⟨T, List.mem_toFinset.mp hT, fun c hc => hmax c (List.mem_toFinset.mpr hc)⟩

theorem windows_within {w : AgentWallet Pubkey} (h0 : Genesis rt s) (hr : Reaches rt s tr s')
    (hclock : ∀ c ∈ clocks tr, 0 ≤ c ∧ c ≤ lastClock) (hw : s'.wallet k = some w) (h : Horizon) :
    StartsWithin tr (h.windowStart w) := by
  obtain ⟨l, x, m, t, _, _, rfl, hl, _⟩ := tiered_run h0 hr hw
  have hmem : t.toInt ∈ clocks (l ++ x :: m) := mem_clocks (x := x) (by simp) (by rw [hl]; rfl)
  obtain ⟨T, hT, hmax⟩ := exists_latest (List.ne_nil_of_mem hmem)
  have hwithin : WindowsWithin T s' :=
    windowsWithin_run h0 hr fun c hc => ⟨(hclock c hc).1, hmax c hc⟩
  obtain ⟨hlo, hhi⟩ := hwithin hw h
  exact ⟨hlo, hhi.trans (hclock T hT).2, T, hT, hhi⟩

theorem rateWindows_within {q : Pubkey} {p : SpendPolicy Pubkey} (h0 : Genesis rt s)
    (hr : Reaches rt s tr s') (hclock : ∀ c ∈ clocks tr, 0 ≤ c ∧ c ≤ lastClock)
    (hp : s'.policy q = some p) : StartsWithin tr p.rateLimitWindowStart := by
  have haddr := (reachable_wellFormed ⟨s, tr, h0, hr⟩).policy hp
  have hmem := rateStart_run hr haddr (genesis_policy h0 q) p hp
  exact ⟨(hclock _ hmem).1, (hclock _ hmem).2, _, hmem, le_rfl⟩

theorem resets_defined {now : Int64} (h0 : Genesis rt s) (hr : Reaches rt s tr s')
    (hclock : ∀ c ∈ clocks tr, 0 ≤ c ∧ c ≤ lastClock) (hnow : 0 ≤ now.toInt) :
    ResetsDefined now s' where
  wallet hw := by
    refine resets_succeed hnow fun h => ?_
    obtain ⟨hlo, hhi, _⟩ := windows_within h0 hr hclock hw h
    have hsec := h.seconds_le
    unfold lastClock at hhi
    omega
  policy hp := by
    obtain ⟨hlo, hhi, _⟩ := rateWindows_within h0 hr hclock hp
    unfold lastClock at hhi
    exact resetRate_succeeds hlo (by omega)

/-- **Window arithmetic never aborts a payment**, over any run with every reading of the clock
between 0 and `lastClock`, in any order and for rate windows of any length. The payment
itself may come at any time that is not negative. -/
theorem windows_never_abort (h0 : Genesis rt s) (hr : Reaches rt s tr s')
    (hclock : ∀ c ∈ clocks tr, 0 ≤ c ∧ c ≤ lastClock) :
    (∀ k w, s'.wallet k = some w → ∀ h : Horizon, StartsWithin tr (h.windowStart w)) ∧
    (∀ q p, s'.policy q = some p → StartsWithin tr p.rateLimitWindowStart) ∧
    ∀ now : Int64, 0 ≤ now.toInt → ResetsDefined now s' ∧ ∀ accs n params,
        execute rt now (.settlePayment accs n params) s' ≠ .error .arithmeticOverflow := by
  refine ⟨fun k w hw h => windows_within h0 hr hclock hw h,
    fun q p hp => rateWindows_within h0 hr hclock hp, fun now hnow => ?_⟩
  have hdefined := resets_defined h0 hr hclock hnow
  refine ⟨hdefined, fun accs n params => ?_⟩
  have hsettle : Avoids .arithmeticOverflow (settlePayment rt now accs n params s') := by
    refine settlePayment_fails rfl (fun hinuse => by cases hinuse) fun ctx hctx => ?_
    have hv := settle_tryAccounts_eq_ok.mp hctx
    obtain ⟨_, _, _, hd, hwk, hm⟩ := hdefined.wallet hv.wallet
    obtain ⟨_, hrate⟩ := hdefined.policy hv.policy
    exact resetsAvoid_of_ok hd hwk hm hrate
  exact avoids_bind (avoids_require (by decide)) fun _ => hsettle

theorem windows_never_abort_rewinding :
    execute Key.runtime 40 (Demo.pay 2 20 40).2
      (submitAll Key.runtime Demo.chain Demo.rewinding) ≠ .error .arithmeticOverflow :=
  ((windows_never_abort Demo.genesis_chain
    (replay_reaches Key.runtime Demo.chain Demo.rewinding)
    (by rw [clocks_replay]; decide)).2.2 40 (by decide)).2 _ _ _

end MaximProtocol
