import MaximProtocol.Plans
import Mathlib.Logic.Equiv.Basic

/-!
# Counting the ledger of a wallet differently

`Recounted rt k n m u v`: the state `v` is `u` with `m` entries, not `n`, in the counters of
the wallet `k`, up to the slots of its ledger.

* `plans_recounted`: every instruction but the two that write that ledger has the same plan
  in both states.
* `settlement_renumbered`: a settlement of `k` has a plan in both, each under the number of
  its state, and the plans write the same record up to that number.
-/

namespace MaximProtocol

open MachineInt World Transitions

variable {Pubkey : Type}

/-! ## 1. Other counters -/

/-- The wallet with `m` entries in its ledger. -/
def AgentWallet.recount (w : AgentWallet Pubkey) (m : UInt64) : AgentWallet Pubkey :=
  { w with paymentSequence := m, totalPayments := m }

/-- The wallet whose ledger the instruction writes. -/
def Instruction.ledgerOf : Instruction Pubkey → Option Pubkey
  | .settlePayment accs _ _ => some accs.agentWallet
  | .recordPolicyViolation accs _ _ _ => some accs.agentWallet
  | _ => none

/-- `a` is the address of a slot of `k`. -/
def IsSlot (rt : Runtime Pubkey) (k a : Pubkey) : Prop :=
  ∃ n bump, rt.findProgramAddress (.paymentRecord k n) = some (a, bump)

variable [DecidableEq Pubkey]

/-- The wallet at `a`, with `m` entries if `a` is `k`. -/
def recounted (k : Pubkey) (m : UInt64) (a : Pubkey) (w : AgentWallet Pubkey) :
    AgentWallet Pubkey :=
  if a = k then w.recount m else w

def recountAt (k : Pubkey) (m : UInt64) (a : Pubkey) :
    Option (ProgramAccount Pubkey) → Option (ProgramAccount Pubkey)
  | some (.agentWallet w) => some (.agentWallet (recounted k m a w))
  | account => account

/-- The second state is the first with `m` entries, not `n`, in the counters of `k`. Nothing
is said of the slots. -/
structure Recounted (rt : Runtime Pubkey) (k : Pubkey) (n m : UInt64) (u v : World Pubkey) :
    Prop where
  accounts : ∀ a, ¬ IsSlot rt k a → v.accounts a = recountAt k m a (u.accounts a)
  tokens : v.tokens = u.tokens
  mints : v.mints = u.mints
  counted : ∃ w, u.wallet k = some w ∧ w.paymentSequence = n ∧ w.totalPayments = n

variable {rt : Runtime Pubkey} {k a : Pubkey} {n m : UInt64} {u v : World Pubkey}
variable {w : AgentWallet Pubkey}

omit [DecidableEq Pubkey] in
theorem recount_self (hn : w.paymentSequence = n) (ht : w.totalPayments = n) :
    w.recount n = w := by
  cases w
  simp_all [AgentWallet.recount]

omit [DecidableEq Pubkey] in
theorem recount_recount : (w.recount n).recount m = w.recount m := rfl

omit [DecidableEq Pubkey] in
theorem not_slot {seeds : Seeds Pubkey} {bump : UInt8}
    (h : rt.findProgramAddress seeds = some (a, bump)) (hne : ∀ j, seeds ≠ .paymentRecord k j) :
    ¬ IsSlot rt k a := by
  rintro ⟨j, bump', hj⟩
  exact hne j (find_inj rt h hj)

omit [DecidableEq Pubkey] in
theorem wallet_ne_free {b : Pubkey} (hw : u.wallet a = some w) (hf : u.Free b) : a ≠ b := by
  rintro rfl
  rw [(free_iff.mp hf).2.1] at hw
  cases hw

omit [DecidableEq Pubkey] in
theorem wallet_ne_policy {b : Pubkey} {p : SpendPolicy Pubkey} (hw : u.wallet a = some w)
    (hp : u.policy b = some p) : a ≠ b := by
  rintro rfl
  rw [(policy_only hp).2.1] at hw
  cases hw

theorem recounted_owner : (recounted k m a w).owner = w.owner := by
  unfold recounted
  split <;> rfl

theorem recounted_bump : (recounted k m a w).bump = w.bump := by
  unfold recounted
  split <;> rfl

theorem recounted_agentId : (recounted k m a w).agentId = w.agentId := by
  unfold recounted
  split <;> rfl

theorem recounted_isActive : (recounted k m a w).isActive = w.isActive := by
  unfold recounted
  split <;> rfl

/-- Recounting goes through an edit that leaves the counters. -/
theorem recounted_edit (g : AgentWallet Pubkey → AgentWallet Pubkey)
    (hg : ∀ w, (g w).recount m = g (w.recount m)) :
    recounted k m a (g w) = g (recounted k m a w) := by
  unfold recounted
  split
  · exact hg w
  · rfl

theorem recounted_of_ne (h : a ≠ k) : recounted k m a w = w := if_neg h

theorem recountAt_of_ne (h : a ≠ k) {x : Option (ProgramAccount Pubkey)} :
    recountAt k m a x = x := by
  cases x with
  | none => rfl
  | some x =>
    cases x with
    | agentWallet w => rw [recountAt, recounted_of_ne h]
    | _ => rfl

/-- A state is itself with its own counters. -/
theorem recounted_refl (hw : u.wallet k = some w) (hn : w.paymentSequence = n)
    (ht : w.totalPayments = n) : Recounted rt k n n u u := by
  refine ⟨fun a _ => ?_, rfl, rfl, w, hw, hn, ht⟩
  rcases eq_or_ne a k with rfl | hk
  · rw [wallet_eq_some] at hw
    simp only [hw, recountAt, recounted, if_true, recount_self hn ht]
  · rw [recountAt_of_ne hk]

section Views

variable (hwf : WellFormed rt u) (h : Recounted rt k n m u v)

include hwf h

theorem recounted_wallet (hw : u.wallet a = some w) :
    v.wallet a = some (recounted k m a w) := by
  have hslot := not_slot (k := k) (hwf.wallet hw) (fun _ => by simp)
  rw [wallet_eq_some] at hw ⊢
  rw [h.accounts a hslot, hw]
  rfl

theorem recounted_policy {p : SpendPolicy Pubkey} (hp : u.policy a = some p) :
    v.policy a = some p := by
  have hslot := not_slot (k := k) (hwf.policy hp) (fun _ => by simp)
  rw [policy_eq_some] at hp ⊢
  rw [h.accounts a hslot, hp]
  rfl

theorem recounted_config {c : ProtocolConfig Pubkey} (hc : u.config a = some c) :
    v.config a = some c := by
  have hslot := not_slot (k := k) (hwf.config hc) (fun _ => by simp)
  rw [config_eq_some] at hc ⊢
  rw [h.accounts a hslot, hc]
  rfl

omit hwf in
theorem recounted_free {seeds : Seeds Pubkey} {bump : UInt8}
    (hf : rt.findProgramAddress seeds = some (a, bump)) (hne : ∀ j, seeds ≠ .paymentRecord k j)
    (hfree : u.Free a) : v.Free a := by
  unfold Free at hfree ⊢
  rw [h.accounts a (not_slot hf hne), hfree]
  rfl

/-- Either state is the other with its own counters. -/
theorem recounted_symm : Recounted rt k m n v u := by
  obtain ⟨w, hw, hn, ht⟩ := h.counted
  have hv := recounted_wallet hwf h hw
  rw [recounted, if_pos rfl] at hv
  refine ⟨fun a ha => ?_, h.tokens.symm, h.mints.symm, _, hv, rfl, rfl⟩
  rw [h.accounts a ha]
  cases hx : u.accounts a with
  | none => rfl
  | some x =>
    cases x with
    | agentWallet w' =>
      rcases eq_or_ne a k with rfl | hk
      · rw [wallet_eq_some, hx, Option.some.injEq, ProgramAccount.agentWallet.injEq] at hw
        subst hw
        simp [recountAt, recounted, recount_recount, recount_self hn ht]
      · simp [recountAt, recounted, hk]
    | _ => rfl

theorem recounted_loadOwner {owner : Pubkey} (hw : loadWalletOfOwner a owner u = .ok w) :
    loadWalletOfOwner a owner v = .ok (recounted k m a w) := by
  rw [loadWalletOfOwner_eq_ok] at hw ⊢
  exact ⟨recounted_wallet hwf h hw.1, recounted_owner.trans hw.2⟩

theorem recounted_loadConfig {admin : Pubkey} {c : ProtocolConfig Pubkey}
    (hc : loadConfigOfAdmin rt a admin u = .ok c) : loadConfigOfAdmin rt a admin v = .ok c := by
  rw [loadConfigOfAdmin_eq_ok] at hc ⊢
  exact ⟨recounted_config hwf h hc.1, hc.2⟩

theorem recounted_settle {accs : SettlePayment Pubkey} {j : UInt64} {agentId : Bytes}
    {ctx : SettlePayment.Loaded Pubkey} (hk : accs.agentWallet ≠ k)
    (hv : accs.Validates rt j agentId u ctx) : accs.Validates rt j agentId v ctx :=
  { hv with
    wallet := by
      rw [recounted_wallet hwf h hv.wallet, recounted_of_ne hk]
    policy := recounted_policy hwf h hv.policy
    config := recounted_config hwf h hv.config
    source := by
      rw [h.tokens]
      exact hv.source
    payee := by
      rw [h.tokens]
      exact hv.payee
    mint := by
      rw [h.mints]
      exact hv.mint
    record_free := by
      refine recounted_free h hv.record_addr (fun j he => ?_) hv.record_free
      cases he
      exact hk rfl }

theorem recounted_violate {accs : RecordPolicyViolation Pubkey} {j : UInt64} {agentId : Bytes}
    {bump : UInt8} (hk : accs.agentWallet ≠ k) (hv : accs.Validates rt j agentId u w bump) :
    accs.Validates rt j agentId v w bump :=
  { hv with
    wallet := by
      rw [recounted_wallet hwf h hv.wallet, recounted_of_ne hk]
    record_free := by
      refine recounted_free h hv.record_addr (fun j he => ?_) hv.record_free
      cases he
      exact hk rfl }

theorem recounted_withdraw {accs : WithdrawFunds Pubkey} {ctx : WithdrawFunds.Loaded Pubkey}
    (hv : accs.Validates rt u ctx) :
    accs.Validates rt v { ctx with wallet := recounted k m accs.agentWallet ctx.wallet } :=
  { hv with
    wallet := recounted_wallet hwf h hv.wallet
    owner := recounted_owner.trans hv.owner
    source := by
      rw [h.tokens]
      exact hv.source
    destination := by
      rw [h.tokens]
      exact hv.destination
    mint := by
      rw [h.mints]
      exact hv.mint }

end Views

/-! ## 2. Plans under other counters -/

variable [Inhabited Pubkey] {now : Int64} {i : Instruction Pubkey} {d : Delta Pubkey}

omit [Inhabited Pubkey] in
theorem map_single_wallet : (Delta.single a (.agentWallet w)).map (recountAt k m) =
    .single a (.agentWallet (recounted k m a w)) := rfl

/-- **No instruction but the ledger instructions of `k` looks at the counters**: it has
the same plan, with the counters recounted. -/
theorem plans_recounted (hwf : WellFormed rt u) (h : Recounted rt k n m u v)
    (hi : i.ledgerOf ≠ some k) (hd : Plans rt now u i d) :
    Plans rt now v i (d.map (recountAt k m)) := by
  cases hd with
  | initProtocol addr free valid =>
    exact .initProtocol addr (recounted_free h addr (fun _ => by simp) free) valid
  | rotateProtocolAdmin config valid =>
    exact .rotateProtocolAdmin (recounted_loadConfig hwf h config) valid
  | updateProtocolConfig config => exact .updateProtocolConfig (recounted_loadConfig hwf h config)
  | @registerAgent accs agentId bump accounts id_length id_bytes =>
    simp only [RegisterAgent.tryAccounts, bind_eq_ok, loadMint_eq_ok, initAccount_eq_ok,
      require_eq_ok, pure_eq_ok, exists_const] at accounts
    obtain ⟨hmint, b, ⟨hf, hfree⟩, hassoc, hnone, rfl⟩ := accounts
    -- the new wallet is not `k`, where there is one
    obtain ⟨w, hw, _⟩ := h.counted
    have hk : accs.agentWallet ≠ k := (wallet_ne_free hw hfree).symm
    have hok : accs.tryAccounts rt agentId v = .ok b := by
      simp only [RegisterAgent.tryAccounts, bind_eq_ok, loadMint_eq_ok, initAccount_eq_ok,
        require_eq_ok, pure_eq_ok, exists_const, h.mints, h.tokens]
      exact ⟨hmint, b, ⟨hf, recounted_free h hf (fun _ => by simp) hfree⟩, hassoc, hnone, rfl⟩
    have hplan : Plans rt now v (.registerAgent accs agentId) _ :=
      .registerAgent hok id_length id_bytes
    rw [← recounted_of_ne (k := k) (m := m) (w := AgentWallet.registered _ _ _ _ _) hk] at hplan
    exact hplan
  | setSpendPolicy accounts allowed_len blocked_len =>
    refine .setSpendPolicy ?_ allowed_len blocked_len
    have hv := policy_tryAccounts_eq_ok.mp accounts
    obtain ⟨w, hw, ho⟩ := hv.wallet
    have hload := recounted_loadOwner hwf h (loadWalletOfOwner_eq_ok.mpr ⟨hw, ho⟩)
    refine policy_tryAccounts_eq_ok.mpr
      ⟨⟨_, loadWalletOfOwner_eq_ok.mp hload⟩, hv.policy_addr, ?_⟩
    rcases hv.policy with hfree | hp
    · exact .inl (recounted_free h hv.policy_addr (fun _ => by simp) hfree)
    · obtain ⟨p, hp⟩ := Option.isSome_iff_exists.mp hp
      exact .inr (Option.isSome_iff_exists.mpr ⟨p, recounted_policy hwf h hp⟩)
  | settlePayment validates passed transfer discriminant =>
    have hk := fun he => hi (congrArg some he)
    rw [← h.tokens] at transfer
    have hplan := Plans.settlePayment (recounted_settle hwf h hk validates) passed transfer
      discriminant
    rw [← recounted_of_ne (k := k) (m := m) (w := AgentWallet.accountPayment _ _ _) hk] at hplan
    exact hplan
  | @recordPolicyViolation accs j params reason _ _ _ validates sequence_eq discriminant =>
    have hk := fun he => hi (congrArg some he)
    have hplan : Plans rt now v (.recordPolicyViolation accs j params reason) _ :=
      .recordPolicyViolation (recounted_violate hwf h hk validates) sequence_eq discriminant
    rw [← recounted_of_ne (k := k) (m := m) (w := AgentWallet.advance _) hk] at hplan
    exact hplan
  | deactivateAgent wallet =>
    rw [map_single_wallet, recounted_edit (fun w => { w with isActive := false }) fun _ => rfl]
    exact .deactivateAgent (recounted_loadOwner hwf h wallet)
  | reactivateAgent wallet =>
    rw [map_single_wallet, recounted_edit (fun w => { w with isActive := true }) fun _ => rfl]
    exact .reactivateAgent (recounted_loadOwner hwf h wallet)
  | freezeAgent wallet config =>
    rw [map_single_wallet, recounted_edit (fun w => { w with isFrozen := true }) fun _ => rfl]
    exact .freezeAgent (recounted_wallet hwf h wallet) (recounted_loadConfig hwf h config)
  | unfreezeAgent wallet config =>
    rw [map_single_wallet, recounted_edit (fun w => { w with isFrozen := false }) fun _ => rfl]
    exact .unfreezeAgent (recounted_wallet hwf h wallet) (recounted_loadConfig hwf h config)
  | withdrawFunds validates positive covered transfer =>
    rw [← h.tokens, ← recounted_agentId (k := k) (m := m), ← recounted_bump (k := k) (m := m)]
      at transfer
    exact .withdrawFunds (recounted_withdraw hwf h validates) positive covered transfer
  | withdrawAll validates positive transfer =>
    rw [← h.tokens, ← recounted_agentId (k := k) (m := m), ← recounted_bump (k := k) (m := m)]
      at transfer
    have hplan : Plans rt now v (.withdrawAll _) _ :=
      .withdrawAll (recounted_withdraw hwf h validates) positive transfer
    exact hplan
  | @transferOwnership accs newOwner w wallet valid changed =>
    rw [map_single_wallet, recounted_edit (fun w => { w with owner := newOwner }) fun _ => rfl]
    refine .transferOwnership (recounted_loadOwner hwf h wallet) valid ?_
    rw [recounted_owner]
    exact changed
  | closeAgent wallet policy token mint owner inactive policy_seeds associated empty =>
    rw [← h.tokens] at token
    rw [← h.mints] at mint
    exact .closeAgent (recounted_wallet hwf h wallet) (recounted_policy hwf h policy) token mint
      (recounted_owner.trans owner) (recounted_isActive.trans inactive) policy_seeds associated
      empty

/-! ## 3. A settlement under another number -/

/-- The address of slot `n` of `k`. -/
def slotAddress (rt : Runtime Pubkey) (k : Pubkey) (n : UInt64) : Pubkey :=
  ((rt.findProgramAddress (.paymentRecord k n)).map Prod.fst).getD default

/-- The accounts of a settlement moved from slot `n` to slot `m`. An address that was wrong
for `n` is wrong for `m`. -/
def SettlePayment.renumber (accs : SettlePayment Pubkey) (rt : Runtime Pubkey) (n m : UInt64) :
    SettlePayment Pubkey :=
  { accs with
    paymentRecord := Equiv.swap (slotAddress rt accs.agentWallet n)
      (slotAddress rt accs.agentWallet m) accs.paymentRecord }

/-- The record without its number and the bump of its address. -/
def PaymentRecord.unnumbered (r : PaymentRecord Pubkey) : PaymentRecord Pubkey :=
  { r with sequence := 0, bump := 0 }

section Renumbering

variable {accs : SettlePayment Pubkey} {params : SettlePaymentParams Pubkey}
variable {wallet : AgentWallet Pubkey} {policy p : SpendPolicy Pubkey}
variable {config : ProtocolConfig Pubkey}

omit [DecidableEq Pubkey] in
theorem slotAddress_of_find {bump : UInt8}
    (h : rt.findProgramAddress (.paymentRecord k n) = some (a, bump)) : slotAddress rt k n = a := by
  simp [slotAddress, h]

theorem renumber_renumber : (accs.renumber rt n m).renumber rt m n = accs := by
  simp only [SettlePayment.renumber]
  rw [Equiv.swap_comm, Equiv.swap_apply_self]

omit [DecidableEq Pubkey] [Inhabited Pubkey] in
theorem resets_recount
    (h : ∃ x y, wallet.resetDailyWindowIfElapsed now = .ok x ∧
      x.resetWeeklyWindowIfElapsed now = .ok y ∧ y.resetMonthlyWindowIfElapsed now = .ok w) :
    ∃ x y, (wallet.recount m).resetDailyWindowIfElapsed now = .ok x ∧
      x.resetWeeklyWindowIfElapsed now = .ok y ∧
      y.resetMonthlyWindowIfElapsed now = .ok (w.recount m) := by
  obtain ⟨x, y, hd, hw, hm⟩ := h
  refine ⟨x.recount m, y.recount m, ?_, ?_, ?_⟩
  · simp only [AgentWallet.resetDailyWindowIfElapsed, bind_eq_ok, Prod.exists, pure_eq_ok] at hd ⊢
    obtain ⟨ds, dt, hd, rfl⟩ := hd
    exact ⟨ds, dt, hd, rfl⟩
  · simp only [AgentWallet.resetWeeklyWindowIfElapsed, bind_eq_ok, Prod.exists, pure_eq_ok] at hw ⊢
    obtain ⟨ws, wt, hw, rfl⟩ := hw
    exact ⟨ws, wt, hw, rfl⟩
  · simp only [AgentWallet.resetMonthlyWindowIfElapsed, bind_eq_ok, Prod.exists, pure_eq_ok]
      at hm ⊢
    obtain ⟨ms, mt, hm, rfl⟩ := hm
    exact ⟨ms, mt, hm, rfl⟩

omit [DecidableEq Pubkey] [Inhabited Pubkey] in
/-- No check of a settlement but the one of the sequence looks at the counters. -/
theorem passed_recount (h : Passed now config wallet policy n params w p) :
    Passed now config (wallet.recount m) policy m params (w.recount m) p where
  amount := h.amount
  protocol := h.protocol
  sequence := rfl
  cap := h.cap
  active := h.active
  not_frozen := h.not_frozen
  reset := resets_recount h.reset
  enforced := by
    intro he
    obtain ⟨hcall, hbudget, hrate, hblock, hallow⟩ := h.enforced he
    refine ⟨hcall, fun x => ?_, hrate, hblock, hallow⟩
    cases x with
    | daily => exact hbudget .daily
    | weekly => exact hbudget .weekly
    | monthly => exact hbudget .monthly
  skipped := h.skipped

theorem renumbered_record {b : Pubkey} {bump bump' : UInt8}
    (h : rt.findProgramAddress (.paymentRecord accs.agentWallet n) =
      some (accs.paymentRecord, bump))
    (h' : rt.findProgramAddress (.paymentRecord accs.agentWallet m) = some (b, bump')) :
    (accs.renumber rt n m).paymentRecord = b := by
  show Equiv.swap _ _ accs.paymentRecord = b
  rw [slotAddress_of_find h, slotAddress_of_find h', Equiv.swap_apply_left]

theorem renumbered_validates {ctx : SettlePayment.Loaded Pubkey} {agentId : Bytes} {b : Pubkey}
    {bump : UInt8} (hwf : WellFormed rt u) (h : Recounted rt accs.agentWallet n m u v)
    (hb : rt.findProgramAddress (.paymentRecord accs.agentWallet m) = some (b, bump))
    (hfree : v.Free b) (hv : accs.Validates rt n agentId u ctx) :
    (accs.renumber rt n m).Validates rt m agentId v
      { ctx with wallet := ctx.wallet.recount m, recordBump := bump } := by
  have hw := recounted_wallet hwf h hv.wallet
  rw [recounted, if_pos rfl] at hw
  have haddr := renumbered_record hv.record_addr hb
  exact { hv with
    wallet := hw
    policy := recounted_policy hwf h hv.policy
    config := recounted_config hwf h hv.config
    source := by
      rw [h.tokens]
      exact hv.source
    payee := by
      rw [h.tokens]
      exact hv.payee
    mint := by
      rw [h.mints]
      exact hv.mint
    record_addr := by
      rw [haddr]
      exact hb
    record_free := by
      rw [haddr]
      exact hfree }

omit [Inhabited Pubkey] in
theorem recordAt_written {bump : UInt8}
    (h : rt.findProgramAddress (.paymentRecord k n) = some (a, bump))
    (f : Pubkey → Option (ProgramAccount Pubkey)) (r : PaymentRecord Pubkey)
    (tokens : Tokens Pubkey) (mints : Pubkey → Bool) :
    recordAt rt ⟨Function.update f a (some (.paymentRecord r)), tokens, mints⟩ k n = some r := by
  rw [recordAt_of_find h]
  simp [World.record, ProgramAccount.record?]

section Writes

variable {f g : Pubkey → Option (ProgramAccount Pubkey)} {b : Pubkey}
variable {x : Option (ProgramAccount Pubkey)}

/-- Off the slots, `g` is `f` with `m` entries in the counters of `k`. -/
def CountsAs (rt : Runtime Pubkey) (k : Pubkey) (m : UInt64)
    (f g : Pubkey → Option (ProgramAccount Pubkey)) : Prop :=
  ∀ a, ¬ IsSlot rt k a → g a = recountAt k m a (f a)

omit [Inhabited Pubkey] in
theorem countsAs_slot (h : CountsAs rt k m f g) (hb : IsSlot rt k b) :
    CountsAs rt k m (Function.update f b x) g := by
  intro a ha
  have hne : a ≠ b := by
    rintro rfl
    exact ha hb
  rw [Function.update_of_ne hne]
  exact h a ha

omit [Inhabited Pubkey] in
theorem countsAs_slot_right (h : CountsAs rt k m f g) (hb : IsSlot rt k b) :
    CountsAs rt k m f (Function.update g b x) := by
  intro a ha
  have hne : a ≠ b := by
    rintro rfl
    exact ha hb
  rw [Function.update_of_ne hne]
  exact h a ha

omit [Inhabited Pubkey] in
theorem countsAs_write (h : CountsAs rt k m f g) :
    CountsAs rt k m (Function.update f b x) (Function.update g b (recountAt k m b x)) := by
  intro a ha
  rcases eq_or_ne a b with rfl | he
  · rw [Function.update_self, Function.update_self]
  · rw [Function.update_of_ne he, Function.update_of_ne he]
    exact h a ha

omit [Inhabited Pubkey] in
/-- Writing the wallet gives it any number of entries. -/
theorem countsAs_wallet (h : CountsAs rt k n f g) :
    CountsAs rt k m (Function.update f k (some (.agentWallet w)))
      (Function.update g k (some (.agentWallet (w.recount m)))) := by
  intro a ha
  rcases eq_or_ne a k with rfl | he
  · rw [Function.update_self, Function.update_self, recountAt, recounted, if_pos rfl]
  · rw [Function.update_of_ne he, Function.update_of_ne he, h a ha, recountAt_of_ne he,
      recountAt_of_ne he]

end Writes

/-- **A settlement has a plan at either number**, where the slot of that number is free. The
plans leave states that are again recounted, and the same record up to its number. -/
theorem settlement_renumbered (hwf : WellFormed rt u) (hwf' : WellFormed rt v)
    (h : Recounted rt accs.agentWallet n m u v) (hfree : recordAt rt v accs.agentWallet m = none)
    (hd : Plans rt now u (.settlePayment accs n params) d) :
    ∃ e, Plans rt now v (.settlePayment (accs.renumber rt n m) m params) e ∧
      Recounted rt accs.agentWallet (saturatingAdd n 1) (saturatingAdd m 1) (d.apply u)
        (e.apply v) ∧
      ∃ r r', recordAt rt (d.apply u) accs.agentWallet n = some r ∧
        recordAt rt (e.apply v) accs.agentWallet m = some r' ∧ r.policyPassed = true ∧
        r'.unnumbered = r.unnumbered := by
  obtain ⟨b, bump, hb⟩ := exists_slot rt accs.agentWallet m
  have hfreeb := slot_free hwf' hb hfree
  cases hd with
  | @settlePayment _ _ _ ctx w p _ protocol validates passed transfer discriminant =>
    have hv := renumbered_validates hwf h hb hfreeb validates
    have haddr := renumbered_record validates.record_addr hb
    rw [← h.tokens] at transfer
    have hplan := Plans.settlePayment hv (passed_recount (m := m) passed) transfer discriminant
    obtain ⟨w₀, hw₀, hn, ht⟩ := h.counted
    rw [validates.wallet, Option.some.injEq] at hw₀
    subst hw₀
    obtain ⟨_, _, _, _, _, _, hframe⟩ := (passed_resets passed).frame
    have hrecord := wallet_ne_free validates.wallet validates.record_free
    have hpolicy := wallet_ne_policy validates.wallet validates.policy
    refine ⟨_, hplan, ⟨?_, ?_, h.mints, w.accountPayment now params.amountUsdc, ?_, ?_, ?_⟩,
      PaymentRecord.settlement accs.agentWallet ctx.payee.owner n params protocol now
        ctx.recordBump,
      PaymentRecord.settlement accs.agentWallet ctx.payee.owner m params protocol now bump,
      ?_, ?_, rfl, rfl⟩
    · -- both write the wallet, the policy and a slot
      have hwallet := countsAs_wallet (m := saturatingAdd m 1)
        (w := w.accountPayment now params.amountUsdc) h.accounts
      have hslot : IsSlot rt accs.agentWallet (accs.renumber rt n m).paymentRecord :=
        ⟨m, bump, haddr ▸ hb⟩
      exact countsAs_slot_right (countsAs_slot (countsAs_write hwallet)
        ⟨_, _, validates.record_addr⟩) hslot
    · simp only [apply_tokens, h.tokens]
      rfl
    · simp [World.wallet, Delta.apply, writeAll, hrecord, hpolicy, ProgramAccount.wallet?]
    · rw [hframe, ← hn]
      rfl
    · rw [hframe, ← ht]
      rfl
    · exact recordAt_written validates.record_addr _ _ _ _
    · rw [← haddr] at hb
      exact recordAt_written hb _ _ _ _

/-- A violation changes nothing but the counters, off the slots. -/
theorem violation_recounted {accs : RecordPolicyViolation Pubkey} {j : UInt64} {reason : UInt8}
    (hwf : WellFormed rt u) (h : Recounted rt accs.agentWallet n m u v)
    (hd : Plans rt now u (.recordPolicyViolation accs j params reason) d) :
    Recounted rt accs.agentWallet (saturatingAdd n 1) m (d.apply u) v := by
  obtain ⟨w, hw, hn, ht⟩ := h.counted
  have hv := recounted_wallet hwf h hw
  rw [recounted, if_pos rfl, wallet_eq_some] at hv
  cases hd with
  | recordPolicyViolation validates sequence_eq discriminant =>
    have hw' := validates.wallet
    rw [hw, Option.some.injEq] at hw'
    subst hw'
    have hrecord := wallet_ne_free hw validates.record_free
    refine ⟨?_, h.tokens, h.mints, w.advance, ?_, ?_, ?_⟩
    · have hwallet := countsAs_wallet (m := m) (w := w.advance) h.accounts
      -- the second state has the wallet it would be given
      rw [show w.advance.recount m = w.recount m from rfl, ← hv, Function.update_eq_self] at hwallet
      exact countsAs_slot hwallet ⟨_, _, validates.record_addr⟩
    · simp [World.wallet, Delta.apply, writeAll, hrecord, ProgramAccount.wallet?]
    · show saturatingAdd w.paymentSequence 1 = _
      rw [hn]
    · show saturatingAdd w.totalPayments 1 = _
      rw [ht]

end Renumbering

end MaximProtocol
