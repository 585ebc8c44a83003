import MaximProtocol.Plans
import MaximProtocol.Authority
import MaximProtocol.Faults
import MaximProtocol.Indexer

/-!
# What others do in the meantime

The owner of a wallet signs an instruction, and others get theirs in first.

1. `calm_run`: what a run leaves as it is that neither the owner nor the admin signs.
2. `calm_plans`: an instruction of the owner writes the same before and after it.
3. `owner_unhindered`: so it still succeeds, with the same effect and the same event.

SPL Token's freeze of a token account is not the program's: `Tokens.Thawed` leaves it out
where tokens are moved.
-/

namespace MaximProtocol

open MachineInt World Transitions

variable {Pubkey : Type} [DecidableEq Pubkey] [Inhabited Pubkey] {rt : Runtime Pubkey}
variable {s s' v : World Pubkey} {k a : Pubkey} {now : Int64} {i : Instruction Pubkey}
variable {tr : Trace Pubkey} {w : AgentWallet Pubkey} {d : Delta Pubkey}
variable {x : Transition (World Pubkey) (Action Pubkey)}

/-! ## 1. Calm -/

/-- Nothing that an instruction of the owner of `w` reads is different in `v`, but the
token accounts, and those of `k` hold no less. -/
structure Calm (rt : Runtime Pubkey) (k : Pubkey) (w : AgentWallet Pubkey)
    (s v : World Pubkey) : Prop where
  wallet : v.wallet k = some w
  config : ∀ {a c}, s.config a = some c → v.config a = some c
  intact : Intact rt k w s v

/-- The transition is signed neither by the owner of `w` nor by the admin. -/
def Uninvolved (w : AgentWallet Pubkey) (x : Transition (World Pubkey) (Action Pubkey)) : Prop :=
  ¬ SignedBy w.owner x ∧ ¬ SignedByAdmin x

theorem calm_step (hwf : WellFormed rt x.pre) (hs : Step rt x.pre x.label x.post)
    (hx : Uninvolved w x) (h : Calm rt k w s x.pre) : Calm rt k w s x.post := by
  have hintact := intact_step hwf hs hx.1 h.intact
  obtain ⟨f, hw⟩ := hintact.wallet
  refine ⟨?_, fun hc => ?_, hintact⟩
  · -- only the admin would have changed the flag
    have hf : f = w.isFrozen := by
      by_contra hne
      exact hx.2 (frozen_by_admin hs h.wallet hw hne)
    rw [hw, hf]
  · rcases config_by_admin hs (h.config hc) with hsame | ⟨hsigned, _⟩
    · exact hsame
    · exact absurd ⟨_, _, h.config hc, hsigned⟩ hx.2

theorem calm_run (h : Reachable rt s) (hw : s.wallet k = some w) (hr : Reaches rt s tr s')
    (hquiet : ∀ x ∈ tr, Uninvolved w x) : Calm rt k w s s' := by
  refine run_preserves (I := Calm rt k w s) hr ⟨hw, fun hc => hc, intact_refl hw⟩ ?_
  intro x hx hs hcalm
  exact calm_step (reachable_wellFormed (reachable_mem h hr hx).1) hs (hquiet x hx) hcalm

/-! ## 2. The same plan -/

/-- The token accounts that an instruction names besides the wallet's own. -/
def Instruction.outsiders : Instruction Pubkey → List Pubkey
  | .settlePayment accs _ _ => [accs.payeeTokenAccount]
  | .withdrawFunds accs _ => [accs.ownerTokenAccount]
  | _ => []

/-- The token account at `a` is there, of the mint and of the owner it had. -/
def KeepsToken (a : Pubkey) (s s' : World Pubkey) : Prop :=
  ∀ t, s.tokens a = some t → ∃ t', s'.tokens a = some t' ∧ t'.mint = t.mint ∧ t'.owner = t.owner

omit [Inhabited Pubkey] in
/-- Only a policy can be at the address of a policy. -/
theorem policy_slot_free {q : Pubkey} {bump : UInt8} (hwf : WellFormed rt s)
    (ha : rt.findProgramAddress (.spendPolicy k) = some (q, bump)) (hnone : s.policy q = none) :
    s.Free q := by
  rw [free_iff]
  refine ⟨?_, ?_, hnone, ?_⟩ <;> by_contra hne <;>
    obtain ⟨x, hx⟩ := Option.ne_none_iff_exists'.mp hne
  · have hseeds := find_inj rt ha (hwf.config hx)
    cases hseeds
  · have hseeds := find_inj rt ha (hwf.wallet hx)
    cases hseeds
  · have hseeds := find_inj rt ha (hwf.record hx)
    cases hseeds

section Calm

variable (hwf : WellFormed rt s) (hwf' : WellFormed rt s') (hcalm : Calm rt k w s s')

include hwf hwf' hcalm

omit [Inhabited Pubkey] in
/-- A covered transfer out of an associated account of the wallet is covered still. -/
theorem calm_transfer {source destination mint : Pubkey} {amount : UInt64} {agentId : Bytes}
    {bump : UInt8} {tokens' : Tokens Pubkey} {src : TokenAccount Pubkey} (hpos : 0 < amount)
    (hassoc : source = rt.associatedTokenAddress k mint) (hsrc : s.tokens source = some src)
    (howner : src.owner = k) (hkeep : KeepsToken destination s s')
    (hthawed : ∀ a ∈ [source, destination], s'.tokens.Thawed a)
    (h : cpiTransferFromWallet rt source destination k agentId bump amount s.tokens =
      .ok tokens') :
    ∃ src' tokens'', s'.tokens source = some src' ∧ src'.owner = k ∧ amount ≤ src'.amount ∧
      s'.mints mint = true ∧
      cpiTransferFromWallet rt source destination k agentId bump amount s'.tokens =
        .ok tokens'' := by
  simp only [cpiTransferFromWallet, bind_eq_ok, require_eq_ok, exists_const] at h ⊢
  obtain ⟨hseeds, ht⟩ := h
  obtain ⟨src₀, dst, hsrc₀, hdst, _, hle, hmint, _, _⟩ := tokenTransfer_eq_ok.mp ht
  rw [hsrc] at hsrc₀
  cases hsrc₀
  obtain ⟨src', hsrc', howner', hle'⟩ :=
    hcalm.intact.funds hsrc howner (UInt64.lt_of_lt_of_le hpos hle)
  obtain ⟨dst', hdst', hmint', _⟩ := hkeep dst hdst
  have hm : src.mint = mint := associated_source hwf.lawful hassoc hsrc
  have hm' : src'.mint = mint := associated_source hwf'.lawful hassoc hsrc'
  have hcovered := UInt64.le_trans hle hle'
  obtain ⟨tokens'', ht'⟩ := transfer_lawful hwf'.lawful hsrc' hdst'
    ⟨hthawed source (by simp) _ hsrc', hthawed destination (by simp) _ hdst'⟩
    (by rw [hm', hmint', ← hmint, hm]) howner' hcovered
  exact ⟨src', tokens'', hsrc', howner', hcovered, hm' ▸ hwf'.lawful.mint_exists hsrc', hseeds,
    ht'⟩

omit hwf in
omit [Inhabited Pubkey] in
/-- The slot that a ledger instruction takes is free still. -/
theorem calm_slot {n : UInt64} {bump : UInt8}
    (haddr : rt.findProgramAddress (.paymentRecord k n) = some (a, bump)) (hfree : s.Free a) :
    s'.Free a := by
  refine slot_free hwf' haddr ?_
  rw [hcalm.intact.slots, recordAt_of_find haddr]
  exact (free_iff.mp hfree).2.2.2

theorem calm_settle {accs : SettlePayment Pubkey} {n : UInt64}
    {params : SettlePaymentParams Pubkey} (hw : s.wallet k = some w) (hk : accs.agentWallet = k)
    (hkeep : KeepsToken accs.payeeTokenAccount s s')
    (hthawed : ∀ a ∈ [accs.usdcTokenAccount, accs.payeeTokenAccount], s'.tokens.Thawed a)
    (h : Plans rt now s (.settlePayment accs n params) d) :
    Plans rt now s' (.settlePayment accs n params) d := by
  subst hk
  cases h with
  | @settlePayment _ _ _ ctx w₁ p tokens' protocol hv hpassed ht hdisc =>
    obtain ⟨src, hsrc, howner⟩ := hv.source
    obtain ⟨payee', hpayee', _, hpo⟩ := hkeep ctx.payee hv.payee
    obtain ⟨src', tokens'', hsrc', howner', _, hmint, ht'⟩ :=
      calm_transfer hwf hwf' hcalm hpassed.amount hv.associated hsrc howner hkeep hthawed ht
    have hctx := hv.wallet
    rw [hw] at hctx
    cases hctx
    have hfind := hwf.policy hv.policy
    rw [hv.policy_wallet] at hfind
    have hvalid : accs.Validates rt n params.agentId s' { ctx with payee := payee' } :=
      ⟨hcalm.wallet, (hcalm.intact.policy hfind).trans hv.policy, hcalm.config hv.config,
        ⟨src', hsrc', howner'⟩, hpayee', hmint, hv.record_addr,
        calm_slot hwf' hcalm hv.record_addr hv.record_free, hv.wallet_seeds, hv.owner,
        hv.policy_seeds, hv.policy_wallet, hv.associated, hv.config_seeds⟩
    rw [← hpo]
    exact .settlePayment hvalid hpassed ht' hdisc

theorem calm_withdraw {accs : WithdrawFunds Pubkey} {amount : UInt64}
    (hw : s.wallet k = some w) (hk : accs.agentWallet = k)
    (hkeep : KeepsToken accs.ownerTokenAccount s s')
    (hthawed : ∀ a ∈ [accs.usdcTokenAccount, accs.ownerTokenAccount], s'.tokens.Thawed a)
    (h : Plans rt now s (.withdrawFunds accs amount) d) :
    Plans rt now s' (.withdrawFunds accs amount) d := by
  subst hk
  cases h with
  | @withdrawFunds _ _ ctx tokens' hv hpos hcovered ht =>
    obtain ⟨dst', hdst', _, hdo⟩ := hkeep ctx.destination hv.destination
    obtain ⟨src', tokens'', hsrc', howner', hcovered', hmint, ht'⟩ :=
      calm_transfer hwf hwf' hcalm hpos hv.source_associated hv.source hv.source_owner hkeep
        hthawed ht
    have hctx := hv.wallet
    rw [hw] at hctx
    cases hctx
    have hvalid : accs.Validates rt s' ⟨ctx.wallet, src', dst'⟩ :=
      ⟨hcalm.wallet, hv.owner, hsrc', hdst', hmint, howner', hv.source_associated,
        hdo.trans hv.destination_owner, hv.destination_associated⟩
    exact .withdrawFunds hvalid hpos hcovered' ht'

/-- An instruction of the owner writes the same in both states. `withdraw_all` moves what
there is by then, and `close_agent` needs an account that anyone can deposit to. -/
theorem calm_plans (hw : s.wallet k = some w) (hi : i.ownedWallet = some k)
    (hwithdraw : ∀ accs, i ≠ .withdrawAll accs) (hclose : ∀ accs, i ≠ .closeAgent accs)
    (hkeep : ∀ a ∈ i.outsiders, KeepsToken a s s')
    (hthawed : ∀ a ∈ i.transfers, s'.tokens.Thawed a) (h : Plans rt now s i d) :
    Plans rt now s' i d := by
  have hload : ∀ {owner v}, loadWalletOfOwner k owner s = .ok v →
      loadWalletOfOwner k owner s' = .ok v := fun h => by
    rw [loadWalletOfOwner_eq_ok] at h ⊢
    rw [hcalm.wallet, ← hw]
    exact h
  cases i with
  | initProtocol => cases hi
  | rotateProtocolAdmin => cases hi
  | updateProtocolConfig => cases hi
  | registerAgent => cases hi
  | freezeAgent => cases hi
  | unfreezeAgent => cases hi
  | setSpendPolicy accs params =>
    cases hi
    cases h with
    | setSpendPolicy haccounts hallowed hblocked =>
      refine .setSpendPolicy ?_ hallowed hblocked
      have hv := policy_tryAccounts_eq_ok.mp haccounts
      obtain ⟨v, hv', ho⟩ := hv.wallet
      have hloaded := loadWalletOfOwner_eq_ok.mp (hload (loadWalletOfOwner_eq_ok.mpr ⟨hv', ho⟩))
      refine policy_tryAccounts_eq_ok.mpr ⟨⟨v, hloaded⟩, hv.policy_addr, ?_⟩
      cases hp : s'.policy accs.spendPolicy with
      | none => exact .inl (policy_slot_free hwf' hv.policy_addr hp)
      | some p => exact .inr rfl
  | settlePayment accs n params =>
    exact calm_settle hwf hwf' hcalm hw (Option.some.inj hi) (hkeep _ (by
      simp [Instruction.outsiders])) hthawed h
  | recordPolicyViolation accs n params reason =>
    cases hi
    cases h with
    | recordPolicyViolation hv hseq hdisc =>
      have hctx := hv.wallet
      rw [hw] at hctx
      cases hctx
      exact .recordPolicyViolation ⟨hcalm.wallet, hv.record_addr,
        calm_slot hwf' hcalm hv.record_addr hv.record_free, hv.wallet_seeds, hv.owner⟩ hseq hdisc
  | deactivateAgent accs =>
    cases hi
    cases h with
    | deactivateAgent hv => exact .deactivateAgent (hload hv)
  | reactivateAgent accs =>
    cases hi
    cases h with
    | reactivateAgent hv => exact .reactivateAgent (hload hv)
  | withdrawFunds accs amount =>
    exact calm_withdraw hwf hwf' hcalm hw (Option.some.inj hi) (hkeep _ (by
      simp [Instruction.outsiders])) hthawed h
  | withdrawAll accs => exact absurd rfl (hwithdraw accs)
  | transferOwnership accs newOwner =>
    cases hi
    cases h with
    | transferOwnership hv hvalid hchanged => exact .transferOwnership (hload hv) hvalid hchanged
  | closeAgent accs => exact absurd rfl (hclose accs)

omit hwf hwf' in
/-- And it emits the same. -/
theorem calm_event (hw : s.wallet k = some w) (hi : i.ownedWallet = some k)
    (hwithdraw : ∀ accs, i ≠ .withdrawAll accs)
    (hkeep : ∀ a ∈ i.outsiders, KeepsToken a s s') (h : Plans rt now s i d) :
    i.event now s' = i.event now s := by
  have hwallet : s'.wallet k = s.wallet k := hcalm.wallet.trans hw.symm
  cases i with
  | settlePayment accs n params =>
    cases h with
    | settlePayment hv =>
      obtain ⟨t', ht', _, ho⟩ := hkeep _ (by simp [Instruction.outsiders]) _ hv.payee
      simp only [Instruction.event, hv.payee, ht', Option.map_some, ho]
  | withdrawFunds accs amount =>
    cases h with
    | withdrawFunds hv =>
      obtain ⟨t', ht', _, ho⟩ := hkeep _ (by simp [Instruction.outsiders]) _ hv.destination
      simp only [Instruction.event, hv.destination, ht', Option.map_some, ho]
  | withdrawAll accs => exact absurd rfl (hwithdraw accs)
  | _ =>
    cases hi <;> simp only [Instruction.event, hwallet]

end Calm

/-- **Nobody else is in the way of the owner.** In every reachable state, whatever others than
the owner and the admin do first: each instruction of the owner that succeeds, but
`withdraw_all` and `close_agent`, succeeds afterwards at the same reading of the clock, writes
the same accounts, moves the same tokens and emits the same event, if the token account
outside the wallet that it names is there, of the same mint and owner, and no token account
that it moves tokens between has been frozen by the freeze authority of the mint. -/
theorem owner_unhindered (h : Reachable rt s) (hw : s.wallet k = some w)
    (hr : Reaches rt s tr s') (hquiet : ∀ x ∈ tr, Uninvolved w x) (hi : i.ownedWallet = some k)
    (hwithdraw : ∀ accs, i ≠ .withdrawAll accs) (hclose : ∀ accs, i ≠ .closeAgent accs)
    (hkeep : ∀ a ∈ i.outsiders, KeepsToken a s s')
    (hthawed : ∀ a ∈ i.transfers, s'.tokens.Thawed a) {s₁ : World Pubkey}
    {ev : Option (Event Pubkey)} (hok : execute rt now i s = .ok (s₁, ev)) :
    ∃ d : Delta Pubkey, s₁ = d.apply s ∧ execute rt now i s' = .ok (d.apply s', ev) := by
  have hwf := reachable_wellFormed h
  have hwf' := reachable_wellFormed (reachable_run h hr)
  have hcalm := calm_run h hw hr hquiet
  obtain ⟨hsign, d, hd, rfl⟩ := execute_iff_plans.mp ⟨ev, hok⟩
  have hd' := calm_plans hwf hwf' hcalm hw hi hwithdraw hclose hkeep hthawed hd
  obtain ⟨ev', hok'⟩ := execute_iff_plans.mpr ⟨hsign, d, hd', rfl⟩
  refine ⟨d, rfl, ?_⟩
  rw [hok', execute_event hok', execute_event hok,
    calm_event hcalm hw hi hwithdraw hkeep hd]

namespace Demo

/-- A stranger registers an agent. -/
def crowding : Submission Key := register bob stranger (mint 2) 400

/-- A payment by the owner, after the opening run. -/
def ownerPayment : Submission Key :=
  settle alice owner 2 (mint 1) (.associated payee (mint 1)) 5 500

def afterOpening : World Key := submitAll Key.runtime chain opening

theorem crowding_uninvolved :
    ∀ x ∈ replay Key.runtime afterOpening [crowding], Uninvolved opened x := by
  intro x hx
  have hsigned : ∀ K, SignedBy K x → K = stranger := by
    rintro K ⟨now, i, hl, hsigner⟩
    obtain ⟨_, hmem⟩ := accepts_mem hx ⟨now, hl⟩
    rw [List.mem_singleton] at hmem
    cases hmem
    exact hsigner.symm
  rw [replay, replay, List.mem_singleton] at hx
  subst hx
  refine ⟨fun hs => absurd (hsigned _ hs) (by decide), ?_⟩
  rintro ⟨a, c, hc, hs⟩
  -- the configuration is the one that the opening run created
  have haddr := (reachable_wellFormed (reachable_chain opening)).config hc
  have ha : Key.protocolConfig = a := congrArg Prod.fst (Option.some.inj haddr)
  subst ha
  have hadmin : some protocolConfig = some c := hc
  cases hadmin
  exact absurd (hsigned _ hs) (by decide)

end Demo

theorem owner_unhindered_crowding :
    ∃ s₁ ev, execute Key.runtime 500 Demo.ownerPayment.2 Demo.afterOpening = .ok (s₁, ev) ∧
      ∃ d : Delta Key, s₁ = d.apply Demo.afterOpening ∧
        execute Key.runtime 500 Demo.ownerPayment.2
          (submit Key.runtime Demo.afterOpening Demo.crowding) =
        .ok (d.apply (submit Key.runtime Demo.afterOpening Demo.crowding), ev) := by
  have hok : succeeds Key.runtime Demo.afterOpening Demo.ownerPayment = true := by decide +kernel
  obtain ⟨hsign, d, hd⟩ := succeeds_iff.mp hok
  obtain ⟨ev, hexec⟩ := execute_iff_plans.mpr ⟨hsign, d, hd, rfl⟩
  refine ⟨_, ev, hexec, ?_⟩
  refine owner_unhindered (Demo.reachable_chain Demo.opening) (w := Demo.opened) rfl
    (replay_reaches Key.runtime Demo.afterOpening [Demo.crowding]) Demo.crowding_uninvolved rfl
    (fun accs h => by cases h) (fun accs h => by cases h) ?_ (by decide +kernel) hexec
  intro a ha t ht
  rw [Demo.ownerPayment, Demo.settle, Instruction.outsiders, List.mem_singleton] at ha
  subst ha
  exact ⟨t, ht, rfl, rfl⟩

end MaximProtocol
