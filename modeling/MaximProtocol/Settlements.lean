import MaximProtocol.Books

/-!
# The settlements of a run

`settlements k tr` lists the accepted settlements from the wallet address `k` in the
history `tr`, each with the states around it.

1. `accrues_run`: over any run, the windows and the volume of a wallet that stays open
   grow by its settlements; `accrues_since`: so they did since its registration.
2. `moved_iff`: a settlement moved its amount, and the volume of a wallet counts the
   tokens that left its source accounts, exactly when no payee account is the source.
3. `in_currency_iff`: the counters and records of a wallet are in the mint it was
   registered with, exactly when every settlement passes that mint.
-/

namespace MaximProtocol

open MachineInt World Transitions Tumbling

variable {Pubkey : Type}

/-- An accepted settlement, with the states before and after it. -/
structure Settlement (Pubkey : Type) where
  clock : Int64
  accs : SettlePayment Pubkey
  amount : UInt64
  pre : World Pubkey
  post : World Pubkey

namespace Settlement

variable (x : Settlement Pubkey)

/-- The policy in force. -/
def policy : Option (SpendPolicy Pubkey) := x.pre.policy x.accs.spendPolicy

/-- The policy in force was enforced on chain. -/
def enforced : Bool := x.policy.any fun p => p.enforceOnChain x.amount

def charge : Charge := ⟨x.clock.toInt, x.amount.toNat, x.enforced⟩

/-- What left the source account. -/
def debit : Nat :=
  x.pre.tokens.balance x.accs.usdcTokenAccount - x.post.tokens.balance x.accs.usdcTokenAccount

/-- The mint of the source account. -/
def mint : Option Pubkey := (x.pre.tokens x.accs.usdcTokenAccount).map TokenAccount.mint

/-- The source has exactly the amount less, the payee's account exactly the amount
more, and no other token account has changed. -/
structure Moved : Prop where
  source : x.post.tokens.balance x.accs.usdcTokenAccount + x.amount.toNat =
    x.pre.tokens.balance x.accs.usdcTokenAccount
  payee : x.post.tokens.balance x.accs.payeeTokenAccount =
    x.pre.tokens.balance x.accs.payeeTokenAccount + x.amount.toNat
  frame : ∀ a, a ≠ x.accs.usdcTokenAccount → a ≠ x.accs.payeeTokenAccount →
    x.post.tokens a = x.pre.tokens a

end Settlement

/-- The sum of the amounts of a list of settlements. -/
def amounts (l : List (Settlement Pubkey)) : Nat := (l.map fun x => x.amount.toNat).sum

variable [DecidableEq Pubkey]

def settlement? (k : Pubkey) (x : Transition (World Pubkey) (Action Pubkey)) :
    Option (Settlement Pubkey) :=
  match x.label with
  | .accepted now (.settlePayment accs _ params) =>
      if accs.agentWallet = k then some ⟨now, accs, params.amountUsdc, x.pre, x.post⟩ else none
  | _ => none

def settlements (k : Pubkey) (tr : Trace Pubkey) : List (Settlement Pubkey) :=
  tr.filterMap (settlement? k)

variable {rt : Runtime Pubkey} {s s' : World Pubkey} {k : Pubkey} {tr : Trace Pubkey}
variable {x : Settlement Pubkey} {y : Transition (World Pubkey) (Action Pubkey)}

theorem settlements_snoc : settlements k (tr ++ [y]) =
    settlements k tr ++ (settlement? k y).toList := by
  cases h : settlement? k y <;> simp [settlements, h]

variable [Inhabited Pubkey]

/-- What is known of a settlement of a run. -/
structure SettledBy (rt : Runtime Pubkey) (k : Pubkey) (x : Settlement Pubkey) (n : UInt64)
    (params : SettlePaymentParams Pubkey) (ctx : SettlePayment.Loaded Pubkey)
    (w : AgentWallet Pubkey) (p : SpendPolicy Pubkey) : Prop where
  wallet : x.accs.agentWallet = k
  amount : params.amountUsdc = x.amount
  settles : Settles rt x.clock x.accs n params x.pre x.post ctx w p

theorem settlement_inv (hs : Step rt y.pre y.label y.post) (h : settlement? k y = some x) :
    x.pre = y.pre ∧ x.post = y.post ∧ ∃ n params ctx w p, SettledBy rt k x n params ctx w p := by
  obtain ⟨s, act, s'⟩ := y
  unfold settlement? at h
  simp only at hs h ⊢
  split at h
  · next now accs n params =>
    split at h
    · next hk =>
      cases h
      cases (step_effect hs).2 with
      | settlePayment h => exact ⟨rfl, rfl, n, params, _, _, _, hk, rfl, h⟩
    · cases h
  · cases h

theorem mem_settlements (hr : Reaches rt s tr s') (hx : x ∈ settlements k tr) :
    ∃ n params ctx w p, SettledBy rt k x n params ctx w p := by
  obtain ⟨y, hy, h⟩ := List.mem_filterMap.mp hx
  exact (settlement_inv (run_step hr hy) h).2.2

/-- A step that leaves the ledger of `k` is no settlement from `k`. -/
theorem settlement?_none (hs : Step rt y.pre y.label y.post)
    (hr : ∀ n, recordAt rt y.post k n = recordAt rt y.pre k n) : settlement? k y = none := by
  cases h : settlement? k y with
  | none => rfl
  | some x =>
    obtain ⟨hpre, hpost, n, params, ctx, w, p, hx⟩ := settlement_inv hs h
    obtain ⟨_, ha⟩ := settled_appends hx.settles
    rw [hx.wallet, hpre, hpost] at ha
    have hused := ha.slots ctx.wallet.paymentSequence
    rw [hr, ha.free, if_pos rfl] at hused
    cases hused

/-! ## 1. What settlements add to a wallet -/

/-- The windows and the volume of a wallet after the settlements `l`. -/
structure Accrues (w w' : AgentWallet Pubkey) (l : List (Settlement Pubkey)) : Prop where
  window : ∀ h : Horizon, w'.window h =
    chargeAll u64Max h.seconds (w.window h) (l.map Settlement.charge)
  volume : w'.totalVolume.toNat = min u64Max (w.totalVolume.toNat + amounts l)
  token : w'.usdcTokenAccount = w.usdcTokenAccount

omit [DecidableEq Pubkey] [Inhabited Pubkey] in
theorem accrues_nil (w : AgentWallet Pubkey) : Accrues w w [] where
  window _ := rfl
  volume := by
    have := toNat_le_u64Max w.totalVolume
    simp only [amounts, List.map_nil, List.sum_nil]
    omega
  token := rfl

omit [DecidableEq Pubkey] [Inhabited Pubkey] in
theorem accrues_edit {w v v' : AgentWallet Pubkey} {l : List (Settlement Pubkey)}
    (h : Accrues w v l) (hw : ∀ hz, v'.window hz = v.window hz)
    (hv : v'.totalVolume = v.totalVolume) (ht : v'.usdcTokenAccount = v.usdcTokenAccount) :
    Accrues w v' l where
  window hz := (hw hz).trans (h.window hz)
  volume := by rw [hv, h.volume]
  token := ht.trans h.token

omit [DecidableEq Pubkey] [Inhabited Pubkey] in
theorem accrues_settlement {w v v₁ : AgentWallet Pubkey} {l : List (Settlement Pubkey)}
    (h : Accrues w v l) (hreset : Resets x.clock v v₁) :
    Accrues w (v₁.accountPayment x.clock x.amount) (l ++ [x]) := by
  obtain ⟨_, _, _, _, _, _, hframe⟩ := hreset.frame
  refine ⟨fun hz => ?_, ?_, ?_⟩
  · rw [List.map_append, List.map_singleton, chargeAll_snoc, ← h.window hz]
    exact window_settlement hreset hz _
  · have hvol := h.volume
    rw [hframe]
    simp only [AgentWallet.accountPayment, AgentWallet.advance, toNat_saturatingAdd, amounts,
      List.map_append, List.sum_append, List.map_singleton, List.sum_singleton] at hvol ⊢
    omega
  · rw [hframe]
    exact h.token

/-- One step, seen from a wallet that it does not close. -/
theorem accrues_step {w v : AgentWallet Pubkey} (hs : Step rt y.pre y.label y.post)
    (hopen : ¬ ClosesWallet k y) (hv : y.pre.wallet k = some v)
    (h : Accrues w v (settlements k tr)) :
    ∃ v', y.post.wallet k = some v' ∧ Accrues w v' (settlements k (tr ++ [y])) := by
  have hnone := fun hr => settlement?_none (k := k) hs hr
  rw [settlements_snoc]
  obtain ⟨s, act, s'⟩ := y
  simp only at hs hv hnone ⊢
  cases walletStep hs k with
  | @settled _ now accs n params _ _ _ hk h' =>
    obtain ⟨_, ha⟩ := settled_appends h'
    have hbefore := ha.before
    rw [hk, hv] at hbefore
    cases hbefore
    refine ⟨_, hk ▸ ha.after, ?_⟩
    simp only [settlement?, hk, if_true, Option.toList_some]
    exact accrues_settlement (x := ⟨now, accs, params.amountUsdc, s, s'⟩) h
      (passed_resets h'.passed)
  | violated hk h' =>
    obtain ⟨_, ha⟩ := violated_appends h'
    have hbefore := ha.before
    rw [hk, hv] at hbefore
    cases hbefore
    refine ⟨_, hk ▸ ha.after, ?_⟩
    simp only [settlement?, Option.toList_none, List.append_nil]
    exact accrues_edit h (fun hz => by cases hz <;> rfl) rfl rfl
  | registered hk h' =>
    rw [← hk, (free_iff.mp h'.free).2.1] at hv
    cases hv
  | closed hk _ => exact absurd ⟨_, ⟨_, rfl⟩, hk⟩ hopen
  | edited he h' =>
    have hbefore := h'.wallet
    rw [hv] at hbefore
    cases hbefore
    refine ⟨_, by rw [h'.views.wallet, Function.update_self], ?_⟩
    obtain ⟨_, _, _, rfl⟩ := walletEdit_frame he
    rw [hnone fun n => recordAt_congr h'.views.record, Option.toList_none, List.append_nil]
    exact accrues_edit h (fun hz => by cases hz <;> rfl) rfl rfl
  | untouched hw hr =>
    refine ⟨v, hw.trans hv, ?_⟩
    rw [hnone hr, Option.toList_none, List.append_nil]
    exact h

/-- Over a run that does not close it, a wallet accrues its settlements. -/
theorem accrues_run {w : AgentWallet Pubkey} (hr : Reaches rt s tr s') (hopen : StaysOpen k tr)
    (hw : s.wallet k = some w) :
    ∃ w', s'.wallet k = some w' ∧ Accrues w w' (settlements k tr) := by
  refine run_history (I := fun l v => ∃ w', v.wallet k = some w' ∧ Accrues w w' (settlements k l))
    hr ⟨w, hw, accrues_nil w⟩ ?_
  rintro l y hl _ hs ⟨v, hv, h⟩
  exact accrues_step hs (hopen y (hl.subset (by simp))) hv h

omit [DecidableEq Pubkey] [Inhabited Pubkey] in
/-- The windows of a new wallet start with its registration. -/
theorem window_registered {agentId : Bytes} {owner token : Pubkey} {now : Int64} {bump : UInt8}
    (h : Horizon) :
    (AgentWallet.registered agentId owner token now bump).window h = ⟨now.toInt, 0⟩ := by
  cases h <;> rfl

omit [DecidableEq Pubkey] [Inhabited Pubkey] in
theorem total_settled (l : List (Settlement Pubkey)) :
    total (l.map Settlement.charge) = amounts l := by
  rw [total, amounts, List.map_map]
  rfl

/-- A wallet has accrued its settlements since it was registered. -/
theorem accrues_since {w : AgentWallet Pubkey} (hr : Reaches rt s tr s')
    (hnone : s.wallet k = none) (hw : s'.wallet k = some w) :
    ∃ l x m t accs agentId bump, tr = l ++ x :: m ∧
      x.label = .accepted t (.registerAgent accs agentId) ∧ accs.agentWallet = k ∧
      StaysOpen k m ∧ Accrues
        (AgentWallet.registered agentId accs.owner accs.usdcTokenAccount t bump) w
        (settlements k m) := by
  obtain ⟨l, x, m, rfl, ⟨t, accs, agentId, bump, hl, hk, hreg⟩, hm, hopen⟩ :=
    registered_since hr hnone hw
  have hfirst : x.post.wallet k =
      some (AgentWallet.registered agentId accs.owner accs.usdcTokenAccount t bump) := by
    rw [hreg.views.wallet, hk, Function.update_self]
  obtain ⟨v, hv, hacc⟩ := accrues_run hm hopen hfirst
  rw [hw] at hv
  cases hv
  exact ⟨l, x, m, t, accs, agentId, bump, rfl, hl, hk, hopen, hacc⟩

/-! ## 2. What a settlement moves -/

omit [Inhabited Pubkey] in
/-- A settlement moved its amount exactly when the payee's account is not the source. -/
theorem settlement_moved_iff {n : UInt64} {params : SettlePaymentParams Pubkey}
    {ctx : SettlePayment.Loaded Pubkey} {w : AgentWallet Pubkey} {p : SpendPolicy Pubkey}
    (h : SettledBy rt k x n params ctx w p) :
    x.Moved ↔ x.accs.payeeTokenAccount ≠ x.accs.usdcTokenAccount := by
  have hpos : 0 < x.amount.toNat := by
    have hamount := h.settles.passed.amount
    rw [h.amount] at hamount
    exact UInt64.lt_iff_toNat_lt.mp hamount
  have htransfer := h.settles.transfer
  rw [h.amount] at htransfer
  constructor
  · intro hm he
    have hsource := hm.source
    rw [he] at htransfer
    rw [transfer_self htransfer] at hsource
    omega
  · intro hne
    obtain ⟨hsource, hpayee⟩ := transfer_moves htransfer (Ne.symm hne)
    exact ⟨hsource, hpayee, fun a ha hb => transfer_of_ne htransfer ha hb⟩

omit [Inhabited Pubkey] in
/-- What left the source account: the amount, or nothing when it went back there. -/
theorem settlement_debit {n : UInt64} {params : SettlePaymentParams Pubkey}
    {ctx : SettlePayment.Loaded Pubkey} {w : AgentWallet Pubkey} {p : SpendPolicy Pubkey}
    (h : SettledBy rt k x n params ctx w p) :
    x.debit = if x.accs.payeeTokenAccount = x.accs.usdcTokenAccount then 0
      else x.amount.toNat := by
  unfold Settlement.debit
  split
  · next he =>
    have htransfer := h.settles.transfer
    rw [he] at htransfer
    rw [transfer_self htransfer]
    omega
  · next hne =>
    have hsource := ((settlement_moved_iff h).mpr hne).source
    omega

omit [DecidableEq Pubkey] [Inhabited Pubkey] in
/-- Debits that are at most the amounts sum to them only if they all agree. -/
theorem debits_iff {l : List (Settlement Pubkey)} (hle : ∀ x ∈ l, x.debit ≤ x.amount.toNat) :
    (l.map Settlement.debit).sum = amounts l ↔ ∀ x ∈ l, x.debit = x.amount.toNat := by
  unfold amounts
  induction l with
  | nil => simp
  | cons x l ih =>
    have hx := hle x List.mem_cons_self
    have htail : (l.map Settlement.debit).sum ≤ (l.map fun x => x.amount.toNat).sum :=
      List.sum_le_sum fun y hy => hle y (List.mem_cons_of_mem _ hy)
    have ih := ih fun y hy => hle y (List.mem_cons_of_mem _ hy)
    rw [List.map_cons, List.map_cons, List.sum_cons, List.sum_cons, List.forall_mem_cons, ← ih]
    omega

/-- Each settlement of a run moved its amount exactly when its payee's account is not
its source; and the volume of a wallet, below its maximum, grew by what left its source
accounts exactly when that is so for all of its settlements. -/
theorem moved_iff (hr : Reaches rt s tr s') :
    (∀ k, ∀ x ∈ settlements k tr,
      x.Moved ↔ x.accs.payeeTokenAccount ≠ x.accs.usdcTokenAccount) ∧
    (∀ k w w', s.wallet k = some w → s'.wallet k = some w' → StaysOpen k tr →
      w'.totalVolume.toNat < u64Max →
      (w'.totalVolume.toNat = w.totalVolume.toNat +
          ((settlements k tr).map Settlement.debit).sum ↔
        ∀ x ∈ settlements k tr, x.accs.payeeTokenAccount ≠ x.accs.usdcTokenAccount)) := by
  refine ⟨fun k x hx => ?_, fun k w w' hw hw' hopen hlt => ?_⟩
  · obtain ⟨_, _, _, _, _, h⟩ := mem_settlements hr hx
    exact settlement_moved_iff h
  · obtain ⟨v, hv, hacc⟩ := accrues_run hr hopen hw
    rw [hw'] at hv
    cases hv
    have hdebit : ∀ x ∈ settlements k tr, x.debit ≤ x.amount.toNat ∧
        (x.debit = x.amount.toNat ↔
          x.accs.payeeTokenAccount ≠ x.accs.usdcTokenAccount) := by
      intro x hx
      obtain ⟨_, _, _, _, _, h⟩ := mem_settlements hr hx
      have hpos : 0 < x.amount.toNat := by
        have hamount := h.settles.passed.amount
        rw [h.amount] at hamount
        exact UInt64.lt_iff_toNat_lt.mp hamount
      rw [settlement_debit h]
      split
      · next he => exact ⟨Nat.zero_le _, fun h0 => by omega, fun hne => absurd he hne⟩
      · next hne => exact ⟨Nat.le_refl _, fun _ => hne, fun _ => rfl⟩
    have hvol := hacc.volume
    calc w'.totalVolume.toNat = w.totalVolume.toNat +
          ((settlements k tr).map Settlement.debit).sum
        ↔ ((settlements k tr).map Settlement.debit).sum = amounts (settlements k tr) := by omega
      _ ↔ ∀ x ∈ settlements k tr, x.debit = x.amount.toNat :=
          debits_iff fun x hx => (hdebit x hx).1
      _ ↔ ∀ x ∈ settlements k tr, x.accs.payeeTokenAccount ≠ x.accs.usdcTokenAccount :=
          forall₂_congr fun x hx => (hdebit x hx).2

/-- A settlement submitted in a replay. -/
theorem settlement_mem_replay {l m : List (Submission Pubkey)} {now : Int64}
    {accs : SettlePayment Pubkey} {n : UInt64} {params : SettlePaymentParams Pubkey}
    (h : succeeds rt (submitAll rt s l) (now, .settlePayment accs n params) = true) :
    ⟨now, accs, params.amountUsdc, submitAll rt s l,
        submit rt (submitAll rt s l) (now, .settlePayment accs n params)⟩ ∈
      settlements accs.agentWallet
        (replay rt s (l ++ (now, .settlePayment accs n params) :: m)) := by
  refine List.mem_filterMap.mpr ⟨_, accepted_mem_replay h, ?_⟩
  simp [settlement?]

namespace Demo

/-- A registered agent, with a policy. -/
def registered : List (Submission Key) :=
  [initProtocol, register alice owner (mint 0) 100, setPolicy alice owner 500 10 100]

def readyToPay : World Key := submitAll Key.runtime chain registered

/-- A payment of 70 to the account `payeeAccount`, the first of the agent. -/
def payment (payeeAccount : Key) : Settlement Key where
  clock := 200
  accs := settleAccounts alice owner 0 (mint 1) payeeAccount
  amount := 70
  pre := submitAll Key.runtime chain registered
  post := submit Key.runtime (submitAll Key.runtime chain registered)
    (settle alice owner 0 (mint 1) payeeAccount 70 200)

def paying (payeeAccount : Key) : List (Submission Key) :=
  registered ++ [settle alice owner 0 (mint 1) payeeAccount 70 200]

theorem payment_mem {payeeAccount : Key}
    (h : succeeds Key.runtime (submitAll Key.runtime chain registered)
      (settle alice owner 0 (mint 1) payeeAccount 70 200) = true) :
    payment payeeAccount ∈
      settlements (wallet alice) (replay Key.runtime chain (paying payeeAccount)) :=
  settlement_mem_replay h

def toPayee : Submission Key := settle alice owner 0 (mint 1) (.associated payee (mint 1)) 70 200

/-- The wallet's own account, as the payee's. -/
def ownAccount : Key := .associated (wallet alice) (mint 1)

end Demo

theorem moved_iff_paying :
    ((Demo.payment (.associated Demo.payee (Demo.mint 1))).Moved ↔
      (Demo.payment (.associated Demo.payee (Demo.mint 1))).accs.payeeTokenAccount ≠
        (Demo.payment (.associated Demo.payee (Demo.mint 1))).accs.usdcTokenAccount) ∧
    ∃ w w', Demo.readyToPay.wallet (Demo.wallet Demo.alice) = some w ∧
      (submitAll Key.runtime Demo.readyToPay [Demo.toPayee]).wallet (Demo.wallet Demo.alice) =
        some w' ∧
      (w'.totalVolume.toNat = w.totalVolume.toNat + ((settlements (Demo.wallet Demo.alice)
          (replay Key.runtime Demo.readyToPay [Demo.toPayee])).map Settlement.debit).sum ↔
        ∀ x ∈ settlements (Demo.wallet Demo.alice)
            (replay Key.runtime Demo.readyToPay [Demo.toPayee]),
          x.accs.payeeTokenAccount ≠ x.accs.usdcTokenAccount) := by
  have hopen : StaysOpen (Demo.wallet Demo.alice)
      (replay Key.runtime Demo.readyToPay [Demo.toPayee]) := by
    rintro x hx ⟨accs, hclose, _⟩
    obtain ⟨now, hmem⟩ := accepts_mem hx hclose
    simp [Demo.toPayee, Demo.settle] at hmem
  have hmoved := moved_iff (replay_reaches Key.runtime Demo.chain
    (Demo.paying (.associated Demo.payee (Demo.mint 1))))
  have hvolume := moved_iff (replay_reaches Key.runtime Demo.readyToPay [Demo.toPayee])
  exact ⟨hmoved.1 _ _ (Demo.payment_mem (by decide +kernel)), _, _, rfl, rfl,
    hvolume.2 _ _ _ rfl rfl hopen (by decide +kernel)⟩

/-- A payment to the wallet's own token account succeeds and moves nothing, and the
volume grows by its amount. -/
theorem self_payment : ¬ ∀ s tr s', Genesis Key.runtime s → Reaches Key.runtime s tr s' →
    (∀ k, ∀ x ∈ settlements k tr, x.Moved) ∧
    ∀ k w w', s.wallet k = some w → s'.wallet k = some w' → StaysOpen k tr →
      w'.totalVolume.toNat < u64Max →
      w'.totalVolume.toNat = w.totalVolume.toNat +
        ((settlements k tr).map Settlement.debit).sum := by
  intro h
  have hrun := replay_reaches Key.runtime Demo.chain (Demo.paying Demo.ownAccount)
  have hmem : Demo.payment Demo.ownAccount ∈ _ := Demo.payment_mem (by decide +kernel)
  obtain ⟨_, _, _, _, _, hsettled⟩ := mem_settlements hrun hmem
  exact (settlement_moved_iff hsettled).mp
    ((h _ _ _ Demo.genesis_chain hrun).1 _ _ hmem) rfl

/-! ## 3. The currency of a wallet -/

/-- The settlements of a list that took tokens of `m`. -/
def ofMint (m : Pubkey) (l : List (Settlement Pubkey)) : List (Settlement Pubkey) :=
  l.filter fun x => x.mint = some m

/-- Since its registration at clock `t`, which left `s₁`, the wallet `w` at `k` has counted
units of the mint `m` only: every settlement took `m` from the recorded token account,
and the counters and the new records are those of the settlements in `m`. -/
structure InCurrency (m k : Pubkey) (t : Int64) (s₁ : World Pubkey) (tr : Trace Pubkey)
    (s' : World Pubkey) (w : AgentWallet Pubkey) : Prop where
  debited : ∀ x ∈ settlements k tr, x.accs.usdcTokenAccount = w.usdcTokenAccount
  mint : ∀ x ∈ settlements k tr, x.mint = some m
  spend : ∀ h : Horizon, w.window h = chargeAll u64Max h.seconds ⟨t.toInt, 0⟩
    ((ofMint m (settlements k tr)).map Settlement.charge)
  volume : w.totalVolume.toNat = min u64Max (amounts (ofMint m (settlements k tr)))
  record : ∀ {a r}, s'.record a = some r → s₁.record a = none → r.agentWallet = k →
    r.policyPassed = true → ∃ x ∈ ofMint m (settlements k tr),
      x.accs.paymentRecord = a ∧ x.amount = r.amountUsdc ∧ x.post.record a = some r

/-- A new record that passed the policy was written by a settlement of the run. -/
theorem record_settled {a : Pubkey} {r : PaymentRecord Pubkey} (hr : Reaches rt s tr s')
    (hnone : s.record a = none) (hrec : s'.record a = some r) (hk : r.agentWallet = k)
    (hpass : r.policyPassed = true) :
    ∃ x ∈ settlements k tr, x.accs.paymentRecord = a ∧ x.amount = r.amountUsdc ∧
      x.post.record a = some r := by
  suffices hall : s'.record a = none ∨ ∃ r', s'.record a = some r' ∧
      (r'.agentWallet = k → r'.policyPassed = true → ∃ x ∈ settlements k tr,
        x.accs.paymentRecord = a ∧ x.amount = r'.amountUsdc ∧ x.post.record a = some r') by
    rcases hall with hall | ⟨r', hr', hall⟩
    · rw [hrec] at hall
      cases hall
    · rw [hrec] at hr'
      cases hr'
      exact hall hk hpass
  refine run_history (I := fun l v => v.record a = none ∨ ∃ r', v.record a = some r' ∧
      (r'.agentWallet = k → r'.policyPassed = true → ∃ x ∈ settlements k l,
        x.accs.paymentRecord = a ∧ x.amount = r'.amountUsdc ∧ x.post.record a = some r'))
    hr (.inl hnone) ?_
  rintro l ⟨s, act, s'⟩ _ _ hs hI
  simp only at hs hI ⊢
  rcases hI with hI | ⟨r', hr', hI⟩
  · cases recordStep hs with
    | @settled _ now accs n params ctx protocol _ hnew =>
      by_cases ha : a = accs.paymentRecord
      · subst ha
        rw [hnew, Function.update_self]
        refine .inr ⟨_, rfl, fun hk _ => ?_⟩
        refine ⟨⟨now, accs, params.amountUsdc, s, s'⟩, ?_, rfl, rfl, ?_⟩
        · rw [settlements_snoc, List.mem_append]
          refine .inr ?_
          have hk' : accs.agentWallet = k := hk
          simp [settlement?, hk']
        · simp only [hnew, Function.update_self]
      · rw [hnew, Function.update_of_ne ha]
        exact .inl hI
    | @violated _ _ accs _ _ _ _ _ _ hnew =>
      by_cases ha : a = accs.paymentRecord
      · subst ha
        rw [hnew, Function.update_self]
        exact .inr ⟨_, rfl, fun _ hp => by cases hp⟩
      · rw [hnew, Function.update_of_ne ha]
        exact .inl hI
    | untouched hsame =>
      rw [hsame]
      exact .inl hI
  · refine .inr ⟨r', record_persists hs hr', fun hk hp => ?_⟩
    obtain ⟨x, hx, hx'⟩ := hI hk hp
    exact ⟨x, by rw [settlements_snoc]; exact List.mem_append_left _ hx, hx'⟩

/-- The tokens of a settlement from a reachable state are of the mint passed to it. -/
theorem settlement_mint (h : Reachable rt s) (hr : Reaches rt s tr s')
    (hx : x ∈ settlements k tr) : x.mint = some x.accs.usdcMint ∧
      x.accs.usdcTokenAccount = rt.associatedTokenAddress k x.accs.usdcMint := by
  obtain ⟨y, hy, he⟩ := List.mem_filterMap.mp hx
  obtain ⟨hpre, _, _, _, _, _, _, hs⟩ := settlement_inv (run_step hr hy) he
  have hwf : WellFormed rt x.pre := by
    rw [hpre]
    exact reachable_wellFormed (reachable_mem h hr hy).1
  have hassoc := hs.settles.validates.associated
  obtain ⟨t, ht, _⟩ := hs.settles.validates.source
  have hmint : t.mint = x.accs.usdcMint := by
    rw [hassoc] at ht
    exact hwf.lawful.associated_mint ht
  rw [hs.wallet] at hassoc
  exact ⟨by rw [Settlement.mint, ht, Option.map_some, hmint], hassoc⟩

/-- From the registration of a wallet on, its settlements, counters and new records are in
the mint it was registered with exactly when every settlement passes that mint. -/
theorem in_currency_iff {t : Int64} {s₁ : World Pubkey} {reg : RegisterAgent Pubkey}
    {agentId : Bytes} {w : AgentWallet Pubkey} (h : Reachable rt s)
    (hreg : Step rt s (.accepted t (.registerAgent reg agentId)) s₁)
    (hrun : Reaches rt s₁ tr s') (hopen : StaysOpen reg.agentWallet tr)
    (hw : s'.wallet reg.agentWallet = some w) :
    (∀ x ∈ settlements reg.agentWallet tr, x.accs.usdcMint = reg.usdcMint) ↔
      InCurrency reg.usdcMint reg.agentWallet t s₁ tr s' w := by
  cases (step_effect hreg).2 with
  | registerAgent hregs =>
    have hreach : Reachable rt s₁ := reachable_step h hreg
    obtain ⟨v, hv, hacc⟩ := accrues_run hrun hopen
      (by rw [hregs.views.wallet, Function.update_self])
    rw [hw] at hv
    cases hv
    have htoken : w.usdcTokenAccount =
        rt.associatedTokenAddress reg.agentWallet reg.usdcMint := by
      rw [hacc.token]
      exact hregs.associated
    constructor
    · intro hmints
      have hmint : ∀ x ∈ settlements reg.agentWallet tr, x.mint = some reg.usdcMint := by
        intro x hx
        rw [(settlement_mint hreach hrun hx).1, hmints x hx]
      have hall : ofMint reg.usdcMint (settlements reg.agentWallet tr) =
          settlements reg.agentWallet tr :=
        List.filter_eq_self.mpr fun x hx => decide_eq_true (hmint x hx)
      refine ⟨fun x hx => ?_, hmint, fun hz => ?_, ?_, fun {a r} hr hnone hk hp => ?_⟩
      · rw [(settlement_mint hreach hrun hx).2, hmints x hx, htoken]
      · rw [hall, hacc.window hz]
        cases hz <;> rfl
      · rw [hall, hacc.volume]
        simp [AgentWallet.registered]
      · rw [hall]
        exact record_settled hrun hnone hr hk hp
    · intro hcur x hx
      have hsame := hcur.debited x hx
      rw [(settlement_mint hreach hrun hx).2, htoken] at hsame
      exact (rt.associated_inj hsame).2

theorem Demo.spending_subset : Demo.spending ⊆ Demo.opening :=
  fun _ hx => List.mem_cons_of_mem _ (List.mem_cons_of_mem _ hx)

theorem in_currency_iff_opening :
    (∀ x ∈ settlements (Demo.wallet Demo.alice)
        (replay Key.runtime Demo.afterRegister Demo.spending), x.accs.usdcMint = Demo.mint 0) ↔
      InCurrency (Demo.mint 0) (Demo.wallet Demo.alice) 100 Demo.afterRegister
        (replay Key.runtime Demo.afterRegister Demo.spending)
        (submitAll Key.runtime Demo.chain Demo.opening) Demo.opened :=
  in_currency_iff Demo.reachable_beforeRegister Demo.register_step Demo.spending_run
    (Demo.opening_open Demo.spending_subset) rfl

/-- The agent of the opening run was registered with one mint and paid in another. -/
theorem foreign_currency : ¬ ∀ s s₁ s' t reg agentId tr w, Reachable Key.runtime s →
    Step Key.runtime s (.accepted t (.registerAgent reg agentId)) s₁ →
    Reaches Key.runtime s₁ tr s' → StaysOpen reg.agentWallet tr →
    s'.wallet reg.agentWallet = some w →
    InCurrency reg.usdcMint reg.agentWallet t s₁ tr s' w := by
  intro h
  have hcur := h _ _ _ _ _ _ _ Demo.opened Demo.reachable_beforeRegister Demo.register_step
    Demo.spending_run (Demo.opening_open Demo.spending_subset) rfl
  have hok : succeeds Key.runtime (submitAll Key.runtime Demo.afterRegister
      [Demo.setPolicy Demo.alice Demo.owner 500 10 100]) (Demo.settle Demo.alice Demo.owner 0
      (Demo.mint 1) (.associated Demo.payee (Demo.mint 1)) 70 200) = true := by decide +kernel
  have hmem := settlement_mem_replay (m := [Demo.violate Demo.alice Demo.owner 1 300]) hok
  exact absurd (hcur.debited _ hmem) (by decide)

end MaximProtocol
