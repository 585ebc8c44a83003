import MaximProtocol.Accesses
import MaximProtocol.Exit
import MaximProtocol.History
import MaximProtocol.SeedScript
import MaximProtocol.Treasury

/-!
# The payment loops of `scripts/seed.ts`

`main` sends its payments and then its violations one by one, and counts the sequence number
of each agent itself, in `seqMap`. Here the loops run over any list of both, and send the
instructions that are meant.

1. the instructions and the loop;
2. `Ready`: what the list needs of the state;
3. one instruction, and what it leaves as it was;
4. `performs_sent`: what the handlers accept, the entrypoint accepts when it is sent;
5. `loop_completes`: a list that the state is ready for goes through in full.
-/

namespace MaximProtocol

open MachineInt World Transitions Bookkeeping Codecs

variable {Pubkey : Type}

namespace Script

/-! ## 1. The loop -/

/-- What the instructions of a run of the script have in common. -/
structure Sender (Pubkey : Type) where
  configPda : Pubkey
  usdcMint : Pubkey
  owner : Pubkey

/-- A payment, or with a reason a violation, and the clock when it reaches the program. -/
structure Order (Pubkey : Type) where
  now : Int64
  params : SettlePaymentParams Pubkey
  payeeTokenAccount : Pubkey
  violationReason : Option UInt8

def Order.agentId (x : Order Pubkey) : Bytes := x.params.agentId

variable [DecidableEq Pubkey]

/-- The accounts of a payment from the wallet at `k` with the policy `q` and the record `a`. -/
def Order.accounts (rt : Runtime Pubkey) (sender : Sender Pubkey) (x : Order Pubkey)
    (k q a : Pubkey) : SettlePayment Pubkey where
  paymentRecord := a
  agentWallet := k
  spendPolicy := q
  usdcTokenAccount := rt.associatedTokenAddress k sender.usdcMint
  payeeTokenAccount := x.payeeTokenAccount
  usdcMint := sender.usdcMint
  owner := sender.owner
  protocolConfig := sender.configPda

/-- What `settlePaymentIx` or `recordViolationIx` means. -/
def Order.instruction (rt : Runtime Pubkey) (sender : Sender Pubkey) (sequence : UInt64)
    (x : Order Pubkey) : Option (Instruction Pubkey) := do
  let walletPda ← pda rt (.agentWallet x.agentId)
  let recordPda ← pda rt (.paymentRecord walletPda sequence)
  match x.violationReason with
  | none =>
    let policyPda ← pda rt (.spendPolicy walletPda)
    pure (.settlePayment (x.accounts rt sender walletPda policyPda recordPda) sequence x.params)
  | some reason =>
    pure (.recordPolicyViolation ⟨recordPda, walletPda, sender.owner⟩ sequence x.params reason)

/-- The two loops of `main`: what is sent, and `seqMap` at the end. -/
def payLoop (rt : Runtime Pubkey) (sender : Sender Pubkey) (seqMap : Bytes → UInt64) :
    List (Order Pubkey) → Option (List (Submission Pubkey) × (Bytes → UInt64))
  | [] => some ([], seqMap)
  | x :: l => do
    let i ← x.instruction rt sender (seqMap x.agentId)
    let (rest, seqMap') ← payLoop rt sender
      (Function.update seqMap x.agentId (seqMap x.agentId + 1)) l
    pure ((x.now, i) :: rest, seqMap')

/-- What a payment posts. -/
def Order.posting (rt : Runtime Pubkey) (sender : Sender Pubkey) (x : Order Pubkey) :
    Option (Posting Pubkey Pubkey) :=
  match x.violationReason with
  | none => (pda rt (.agentWallet x.agentId)).map fun walletPda =>
      ⟨rt.associatedTokenAddress walletPda sender.usdcMint, x.payeeTokenAccount, sender.usdcMint,
        x.params.amountUsdc.toNat⟩
  | some _ => none

/-! ## 2. What the list needs -/

/-- The orders of one agent. -/
def ordersOf (agentId : Bytes) (l : List (Order Pubkey)) : Nat :=
  l.countP fun x => x.agentId = agentId

/-- What the order takes from the wallet of `agentId`. -/
def Order.charge (agentId : Bytes) (x : Order Pubkey) : Nat :=
  if x.violationReason = none ∧ x.agentId = agentId then x.params.amountUsdc.toNat else 0

def chargesOf (agentId : Bytes) (l : List (Order Pubkey)) : Nat :=
  (l.map (Order.charge agentId)).sum

/-- The wallet `w` at `k` stands at `n`, with the slots from there on free. -/
structure Stands (rt : Runtime Pubkey) (s : World Pubkey) (owner : Pubkey) (n : UInt64)
    (k : Pubkey) (w : AgentWallet Pubkey) : Prop where
  wallet : s.wallet k = some w
  owner : w.owner = owner
  sequence : w.paymentSequence = n
  free : ∀ m, n ≤ m → recordAt rt s k m = none

/-- A payment below the threshold that the wallet `w` at `k` may make. -/
structure Unenforced (rt : Runtime Pubkey) (s : World Pubkey) (sender : Sender Pubkey)
    (x : Order Pubkey) (k : Pubkey) (w : AgentWallet Pubkey) : Prop where
  amount : 0 < x.params.amountUsdc
  active : w.isActive = true
  not_frozen : w.isFrozen = false
  config : ∃ c, s.config sender.configPda = some c ∧
    (0 < c.maxSinglePaymentUsdc → x.params.amountUsdc ≤ c.maxSinglePaymentUsdc)
  policy : ∃ q bump p, rt.findProgramAddress (.spendPolicy k) = some (q, bump) ∧
    s.policy q = some p ∧ p.enforceOnChain x.params.amountUsdc = false
  payee : ∃ t, s.tokens x.payeeTokenAccount = some t ∧ t.mint = sender.usdcMint ∧
    t.isFrozen = false

/-- What an order needs of the state, with the sequence number of its agent and the funds
that its orders from here on take. -/
structure Order.Ready (rt : Runtime Pubkey) (s : World Pubkey) (sender : Sender Pubkey)
    (n : UInt64) (orders charges : Nat) (x : Order Pubkey) : Prop where
  clock : 0 ≤ x.now.toInt ∧ x.now.toInt ≤ 2 ^ 62
  protocol : (PaymentProtocol.fromDiscriminant x.params.protocol).isSome = true
  sequences : n.toNat + orders ≤ u64Max
  agent : ∃ k bump w, rt.findProgramAddress (.agentWallet x.agentId) = some (k, bump) ∧
    Stands rt s sender.owner n k w ∧
    (x.violationReason = none → Unenforced rt s sender x k w ∧
      ∃ t, s.tokens (rt.associatedTokenAddress k sender.usdcMint) = some t ∧
        t.isFrozen = false ∧ charges ≤ t.amount.toNat)

/-- The state is ready for the orders of `l`. -/
def Ready (rt : Runtime Pubkey) (s : World Pubkey) (sender : Sender Pubkey)
    (seqMap : Bytes → UInt64) (l : List (Order Pubkey)) : Prop :=
  ∀ x ∈ l, x.Ready rt s sender (seqMap x.agentId) (ordersOf x.agentId l) (chargesOf x.agentId l)

/-! ## 3. One instruction -/

variable [Inhabited Pubkey] {rt : Runtime Pubkey} {s s' : World Pubkey} {sender : Sender Pubkey}
variable {x : Order Pubkey} {l : List (Order Pubkey)} {n : UInt64} {k : Pubkey} {bump : UInt8}
variable {w : AgentWallet Pubkey}

omit [DecidableEq Pubkey] [Inhabited Pubkey] in
theorem pda_of_find {seeds : Seeds Pubkey} (h : rt.findProgramAddress seeds = some (k, bump)) :
    pda rt seeds = some k :=
  pda_eq_some.mpr ⟨bump, h⟩

/-- What an order of the wallet at `k` with the sequence number `n` leaves: the wallet one
further, and everything else that a later order needs. -/
structure Served (rt : Runtime Pubkey) (sender : Sender Pubkey) (x : Order Pubkey) (k : Pubkey)
    (n : UInt64) (s s' : World Pubkey) : Prop where
  wallet : ∃ w w', s.wallet k = some w ∧ s'.wallet k = some w' ∧ w'.owner = w.owner ∧
    w'.isActive = w.isActive ∧ w'.isFrozen = w.isFrozen ∧
    w'.paymentSequence = saturatingAdd w.paymentSequence 1
  wallets : ∀ j, j ≠ k → s'.wallet j = s.wallet j
  policy : s'.policy = s.policy
  config : s'.config = s.config
  slots : ∀ j m, ¬ (j = k ∧ m = n) → recordAt rt s' j m = recordAt rt s j m
  tokens : ∀ a t, s.tokens a = some t → ∃ t', s'.tokens a = some t' ∧ t'.mint = t.mint ∧
    t'.isFrozen = t.isFrozen
  funds : ∀ a, s.tokens.balance a ≤ s'.tokens.balance a +
    if a = rt.associatedTokenAddress k sender.usdcMint then x.charge x.agentId else 0
  holdings : ∀ m a, (s'.tokens.holding m a : Int) =
    s.tokens.holding m a + net (x.posting rt sender).toList m a

omit [Inhabited Pubkey] in
/-- The wallet at the address of an agent is the one of this agent. -/
theorem agent_seeds {agentId : Bytes} (hwf : WellFormed rt s) (hw : s.wallet k = some w)
    (ha : rt.findProgramAddress (.agentWallet agentId) = some (k, bump)) :
    rt.createProgramAddress (.agentWallet agentId) w.bump = some k := by
  have hfind := hwf.wallet hw
  have hseeds := find_inj rt ha hfind
  rw [← hseeds] at hfind
  exact rt.find_create hfind

omit [DecidableEq Pubkey] [Inhabited Pubkey] in
/-- The checks of a payment below the threshold pass and leave the policy as it is. -/
theorem unenforced_passes {c : ProtocolConfig Pubkey} {p : SpendPolicy Pubkey}
    (hwindows : ∀ h : Horizon, 0 ≤ (w.window h).start ∧ (w.window h).start ≤ 2 ^ 62)
    (hclock : 0 ≤ x.now.toInt) (hu : Unenforced rt s sender x k w)
    (hprotocol : (PaymentProtocol.fromDiscriminant x.params.protocol).isSome = true)
    (hcap : 0 < c.maxSinglePaymentUsdc → x.params.amountUsdc ≤ c.maxSinglePaymentUsdc)
    (hskip : p.enforceOnChain x.params.amountUsdc = false) :
    ∃ w', Passed x.now c w p w.paymentSequence x.params w' p := by
  have hsmall : ∀ h : Horizon, 0 ≤ (h.windowStart w).toInt ∧
      (h.windowStart w).toInt + h.seconds < 2 ^ 63 := by
    intro h
    have hstart := hwindows h
    have hlen := h.seconds_le
    simp only [AgentWallet.window] at hstart
    omega
  obtain ⟨d, e, w', hresets⟩ := resets_succeed hclock hsmall
  exact ⟨w', hu.amount, hprotocol, rfl, hcap, hu.active, hu.not_frozen, ⟨d, e, hresets⟩,
    by simp [hskip], fun _ => rfl⟩

omit [Inhabited Pubkey] in
theorem settled_funds {source destination authority : Pubkey} {amount : UInt64}
    {tokens tokens' : Tokens Pubkey}
    (h : tokenTransfer source destination authority amount tokens = .ok tokens') (a : Pubkey) :
    tokens.balance a ≤ tokens'.balance a + if a = source then amount.toNat else 0 := by
  by_cases ha : a = source
  · subst ha
    rw [if_pos rfl]
    by_cases hne : a = destination
    · rw [← hne] at h
      rw [transfer_self h]
      exact Nat.le_add_right _ _
    · exact (transfer_moves h hne).1.ge
  · rw [if_neg ha, Nat.add_zero]
    exact transfer_balance_le h ha

omit [Inhabited Pubkey] in
theorem settled_served {q a : Pubkey} {ctx : SettlePayment.Loaded Pubkey} {p : SpendPolicy Pubkey}
    (hl : LawfulTokens rt s.mints s.tokens)
    (hx : rt.findProgramAddress (.agentWallet x.agentId) = some (k, bump))
    (h : Settles rt x.now (x.accounts rt sender k q a) n x.params s s' ctx w p)
    (hpay : x.violationReason = none)
    (hskip : ctx.policy.enforceOnChain x.params.amountUsdc = false) :
    Served rt sender x k n s s' := by
  obtain ⟨_, hviews⟩ := h.views
  obtain ⟨_, happends⟩ := settled_appends h
  have hpolicy := h.validates.policy
  obtain rfl := h.passed.skipped hskip
  refine ⟨?_, ?_, ?_, hviews.config, ?_, ?_, ?_, ?_⟩
  · obtain ⟨_, _, _, _, _, _, hframe⟩ := (passed_resets h.passed).frame
    refine ⟨_, _, happends.before, happends.after, ?_⟩
    rw [hframe]
    exact ⟨rfl, rfl, rfl, rfl⟩
  · intro j hj
    rw [hviews.wallet]
    exact Function.update_of_ne hj _ _
  · rw [hviews.policy, ← hpolicy, Function.update_eq_self]
  · intro j m hjm
    rw [recordAt_write h.validates.record_addr hviews.record]
    exact if_neg hjm
  · intro a t ht
    obtain ⟨b, hb⟩ := transfer_keeps h.transfer ht
    exact ⟨_, hb, rfl, rfl⟩
  · have hcharge : x.charge x.agentId = x.params.amountUsdc.toNat := if_pos ⟨hpay, rfl⟩
    rw [hcharge]
    exact settled_funds h.transfer
  · intro m a
    obtain ⟨src, hsrc, -⟩ := h.validates.source
    have hposting : x.posting rt sender = some ⟨rt.associatedTokenAddress k sender.usdcMint,
        x.payeeTokenAccount, sender.usdcMint, x.params.amountUsdc.toNat⟩ := by
      simp [Order.posting, hpay, pda_of_find hx]
    have hmint : src.mint = sender.usdcMint := associated_source hl h.validates.associated hsrc
    rw [transfer_posted h.transfer hsrc m a, hposting, hmint, Option.toList_some, net_singleton]
    rfl

/-- A payment below the threshold is accepted. -/
theorem payment_served (hwf : WellFormed rt s) (hsign : rt.canSign sender.owner = true)
    (hwindows : ∀ h : Horizon, 0 ≤ (w.window h).start ∧ (w.window h).start ≤ 2 ^ 62)
    (hclock : 0 ≤ x.now.toInt) (hpay : x.violationReason = none)
    (hprotocol : (PaymentProtocol.fromDiscriminant x.params.protocol).isSome = true)
    (ha : rt.findProgramAddress (.agentWallet x.agentId) = some (k, bump))
    (hs : Stands rt s sender.owner n k w) (hu : Unenforced rt s sender x k w)
    {t : TokenAccount Pubkey}
    (ht : s.tokens (rt.associatedTokenAddress k sender.usdcMint) = some t)
    (hthawed : t.isFrozen = false) (hfunds : x.params.amountUsdc.toNat ≤ t.amount.toNat) :
    ∃ i s', x.instruction rt sender n = some i ∧ Performs rt s [(x.now, i)] s' ∧
      Served rt sender x k n s s' := by
  obtain ⟨a, b, hrecord⟩ := exists_slot rt k n
  obtain ⟨protocol, hdisc⟩ := Option.isSome_iff_exists.mp hprotocol
  obtain ⟨c, hc, hcap⟩ := hu.config
  obtain ⟨q, _, p, hq, hp, hskip⟩ := hu.policy
  obtain ⟨payee, hpayee, hmint, hopen⟩ := hu.payee
  have hfind := hwf.policy hp
  have hwallet : p.agentWallet = k := by
    have hseeds := find_inj rt hfind hq
    cases hseeds
    rfl
  rw [hwallet] at hfind
  have htmint : t.mint = sender.usdcMint := hwf.lawful.associated_mint ht
  have htowner : t.owner = k :=
    hwf.lawful.associated_owner (find_derived rt (hwf.wallet hs.wallet)) ht
  have hv : (x.accounts rt sender k q a).Validates rt n x.agentId s ⟨w, p, c, payee, b⟩ := by
    refine ⟨hs.wallet, hp, hc, ⟨t, ht, htowner⟩, hpayee, ?_, hrecord, ?_, ?_, hs.owner, ?_,
      hwallet, rfl, ?_⟩
    · show s.mints sender.usdcMint = true
      rw [← htmint]
      exact hwf.lawful.mint_exists ht
    · exact slot_free hwf hrecord (hs.free n (UInt64.le_refl n))
    · exact agent_seeds hwf hs.wallet ha
    · exact rt.find_create hfind
    · exact rt.find_create (hwf.config hc)
  obtain ⟨w', hpassed⟩ := unenforced_passes hwindows hclock hu hprotocol hcap hskip
  rw [hs.sequence] at hpassed
  obtain ⟨tokens', htransfer⟩ := transfer_lawful hwf.lawful ht hpayee ⟨hthawed, hopen⟩
    (htmint.trans hmint.symm) htowner (UInt64.le_iff_toNat_le.mpr hfunds)
  have hcpi : cpiTransferFromWallet rt (rt.associatedTokenAddress k sender.usdcMint)
      x.payeeTokenAccount k w'.agentId w'.bump x.params.amountUsdc s.tokens = .ok tokens' := by
    obtain ⟨_, _, _, _, _, _, rfl⟩ := (passed_resets hpassed).frame
    simp only [cpiTransferFromWallet, bind_eq_ok, require_eq_ok, exists_const]
    exact ⟨rt.find_create (hwf.wallet hs.wallet), htransfer⟩
  obtain ⟨hperforms, heffect⟩ := performs_of_plans hsign
    (Plans.settlePayment hv hpassed hcpi hdisc)
  refine ⟨_, _, ?_, hperforms, ?_⟩
  · simp [Order.instruction, hpay, pda_of_find ha, pda_of_find hq, pda_of_find hrecord]
  · cases heffect with
    | settlePayment h =>
      refine settled_served hwf.lawful ha h hpay ?_
      have hsame : s.policy q = _ := h.validates.policy
      rw [hp] at hsame
      cases hsame
      exact hskip

theorem violated_served {a : Pubkey} {reason : UInt8}
    (h : Violates rt x.now ⟨a, k, sender.owner⟩ n x.params s s' w bump)
    (hviolation : x.violationReason = some reason) : Served rt sender x k n s s' := by
  obtain ⟨_, _, hviews⟩ := h.views
  obtain ⟨_, happends⟩ := violated_appends h
  refine ⟨?_, ?_, hviews.policy, hviews.config, ?_, ?_, ?_, ?_⟩
  · exact ⟨_, _, happends.before, happends.after, rfl, rfl, rfl, rfl⟩
  · intro j hj
    rw [hviews.wallet]
    exact Function.update_of_ne hj _ _
  · intro j m hjm
    rw [recordAt_write h.validates.record_addr hviews.record]
    exact if_neg hjm
  · intro b t ht
    exact ⟨t, by rw [hviews.tokens, ht], rfl, rfl⟩
  · intro b
    rw [hviews.tokens]
    exact Nat.le_add_right _ _
  · intro m b
    have hnone : x.posting rt sender = none := by
      simp [Order.posting, hviolation]
    rw [hviews.tokens, hnone, Option.toList_none, net_nil, add_zero]

/-- A violation is accepted. -/
theorem violation_served {reason : UInt8} (hwf : WellFormed rt s)
    (hsign : rt.canSign sender.owner = true) (hviolation : x.violationReason = some reason)
    (hprotocol : (PaymentProtocol.fromDiscriminant x.params.protocol).isSome = true)
    (ha : rt.findProgramAddress (.agentWallet x.agentId) = some (k, bump))
    (hs : Stands rt s sender.owner n k w) :
    ∃ i s', x.instruction rt sender n = some i ∧ Performs rt s [(x.now, i)] s' ∧
      Served rt sender x k n s s' := by
  obtain ⟨a, b, hrecord⟩ := exists_slot rt k n
  obtain ⟨protocol, hdisc⟩ := Option.isSome_iff_exists.mp hprotocol
  have hfree := slot_free hwf hrecord (hs.free n (UInt64.le_refl n))
  have hv : (⟨a, k, sender.owner⟩ : RecordPolicyViolation Pubkey).Validates rt n x.agentId s w b :=
    ⟨hs.wallet, hrecord, hfree, agent_seeds hwf hs.wallet ha, hs.owner⟩
  have hplan : Plans rt x.now s (.recordPolicyViolation _ n x.params reason) _ :=
    .recordPolicyViolation hv hs.sequence.symm hdisc
  obtain ⟨hperforms, heffect⟩ := performs_of_plans hsign hplan
  refine ⟨_, _, ?_, hperforms, ?_⟩
  · simp [Order.instruction, hviolation, pda_of_find ha, pda_of_find hrecord]
  · cases heffect with
    | recordPolicyViolation h => exact violated_served h hviolation

/-! ## 4. Sending -/

section Sending

variable {τ : Type} [Alphabet τ] {key : Codec τ Pubkey} {sent : List (Submission Pubkey)}

theorem performs_cons {y : Submission Pubkey} (h : Performs rt s (y :: sent) s') :
    (∃ ev, execute rt y.1 y.2 s = .ok (submit rt s y, ev)) ∧
      Performs rt (submit rt s y) sent s' := by
  refine ⟨?_, fun z hz => h.accepted z (List.mem_cons_of_mem _ hz), h.final⟩
  obtain ⟨now, i, hlabel⟩ := h.accepted _ List.mem_cons_self
  have hstep := submit_step rt s y
  unfold transition submit succeeds at *
  cases hy : execute rt y.1 y.2 s with
  | ok r => exact ⟨r.2, rfl⟩
  | error e =>
    rw [hy] at hlabel
    cases hlabel

/-- **What the handlers accept, the entrypoint accepts** when it is sent, with the same effect. -/
theorem performs_sent (ms : MethodDiscriminators) (ps : Programs Pubkey)
    (hkey : ∀ k, key.Valid k) (hs : Reachable rt s)
    (h : Performs rt s sent s') :
    (entryMachine key ms ps rt).run s (sent.map (rawOf key ms ps)) = s' ∧
      ∀ r ∈ (entryMachine key ms ps rt).outcomes s (sent.map (rawOf key ms ps)),
        ∃ ev, r = .ok ev := by
  induction sent generalizing s with
  | nil => exact ⟨h.final, fun r hr => absurd hr List.not_mem_nil⟩
  | cons y sent ih =>
    obtain ⟨⟨ev, hok⟩, hrest⟩ := performs_cons h
    have hprocess : process key ms ps rt (rawOf key ms ps y).1 (rawOf key ms ps y).2 s =
        .ok (submit rt s y, ev) := by
      rw [rawOf, process_build (accepted_writable hkey hs hok), Instruction.sent,
        if_pos (execute_eq_ok.mp hok).1, hok]
      rfl
    obtain ⟨hnext, houtcome⟩ := entry_accepted hprocess
    obtain ⟨hrun, hall⟩ := ih (reachable_step hs (.accepted hok)) hrest
    refine ⟨?_, fun r hr => ?_⟩
    · rw [List.map_cons, Interleaving.Machine.run, List.foldl_cons, hnext]
      exact hrun
    · rw [List.map_cons, Interleaving.Machine.outcomes, hnext] at hr
      rcases List.mem_cons.mp hr with rfl | hr
      · exact ⟨ev, houtcome⟩
      · exact hall r hr

end Sending

/-! ## 5. The whole list -/

section Next

omit [Inhabited Pubkey]

theorem toNat_next (h : n.toNat < u64Max) : (n + 1).toNat = n.toNat + 1 := by
  rw [UInt64.toNat_add]
  exact Nat.mod_eq_of_lt (Nat.succ_lt_succ h)

/-- The wallet of any agent, after the order `x` of the wallet at `k`. -/
theorem stands_next {seqMap : Bytes → UInt64} {agentId : Bytes} {j : Pubkey} {b : UInt8}
    {v : AgentWallet Pubkey} (h : Served rt sender x k (seqMap x.agentId) s s')
    (hx : rt.findProgramAddress (.agentWallet x.agentId) = some (k, bump))
    (hy : rt.findProgramAddress (.agentWallet agentId) = some (j, b))
    (hmax : (seqMap x.agentId).toNat < u64Max)
    (hs : Stands rt s sender.owner (seqMap agentId) j v) :
    ∃ v', Stands rt s' sender.owner
        (Function.update seqMap x.agentId (seqMap x.agentId + 1) agentId) j v' ∧
      v'.isActive = v.isActive ∧ v'.isFrozen = v.isFrozen := by
  by_cases hid : agentId = x.agentId
  · subst hid
    rw [hx] at hy
    cases hy
    obtain ⟨w, w', hw, hw', howner, hactive, hfrozen, hseq⟩ := h.wallet
    rw [hs.wallet] at hw
    cases hw
    rw [Function.update_self]
    refine ⟨w', ⟨hw', howner.trans hs.owner, ?_, ?_⟩, hactive, hfrozen⟩
    · rw [hseq, hs.sequence, ← UInt64.toNat_inj, toNat_saturatingAdd, toNat_next hmax]
      exact Nat.min_eq_right hmax
    · intro m hm
      rw [UInt64.le_iff_toNat_le, toNat_next hmax] at hm
      have hne : m ≠ seqMap x.agentId := by
        rintro rfl
        exact Nat.not_succ_le_self _ hm
      rw [h.slots k m fun he => hne he.2]
      exact hs.free m (UInt64.le_iff_toNat_le.mpr (Nat.le_of_succ_le hm))
  · have hne : j ≠ k := by
      rintro rfl
      have hseeds := find_inj rt hx hy
      injection hseeds with he
      exact hid he.symm
    rw [Function.update_of_ne hid]
    refine ⟨v, ⟨(h.wallets j hne).trans hs.wallet, hs.owner, hs.sequence, fun m hm => ?_⟩, rfl, rfl⟩
    rw [h.slots j m fun he => hne he.1]
    exact hs.free m hm

theorem unenforced_next {y : Order Pubkey} {j : Pubkey} {v v' : AgentWallet Pubkey}
    (h : Served rt sender x k n s s') (hactive : v'.isActive = v.isActive)
    (hfrozen : v'.isFrozen = v.isFrozen) (hu : Unenforced rt s sender y j v) :
    Unenforced rt s' sender y j v' where
  amount := hu.amount
  active := hactive.trans hu.active
  not_frozen := hfrozen.trans hu.not_frozen
  config := by
    rw [h.config]
    exact hu.config
  policy := by
    rw [h.policy]
    exact hu.policy
  payee := by
    obtain ⟨t, ht, hm, hz⟩ := hu.payee
    obtain ⟨t', ht', hm', hz'⟩ := h.tokens _ t ht
    exact ⟨t', ht', hm'.trans hm, hz'.trans hz⟩

/-- The funds that the later orders of an agent take are still there. -/
theorem funds_next {agentId : Bytes} {j : Pubkey} {b : UInt8} {t : TokenAccount Pubkey}
    (h : Served rt sender x k n s s')
    (hx : rt.findProgramAddress (.agentWallet x.agentId) = some (k, bump))
    (hy : rt.findProgramAddress (.agentWallet agentId) = some (j, b))
    (ht : s.tokens (rt.associatedTokenAddress j sender.usdcMint) = some t)
    (hthawed : t.isFrozen = false) (hle : chargesOf agentId (x :: l) ≤ t.amount.toNat) :
    ∃ t', s'.tokens (rt.associatedTokenAddress j sender.usdcMint) = some t' ∧
      t'.isFrozen = false ∧ chargesOf agentId l ≤ t'.amount.toNat := by
  obtain ⟨t', ht', -, hz⟩ := h.tokens _ t ht
  refine ⟨t', ht', hz.trans hthawed, ?_⟩
  have hfunds := h.funds (rt.associatedTokenAddress j sender.usdcMint)
  -- the order takes from this account only where it is of this agent
  have hcharge : (if rt.associatedTokenAddress j sender.usdcMint =
      rt.associatedTokenAddress k sender.usdcMint then x.charge x.agentId else 0) ≤
        x.charge agentId := by
    split
    · next he =>
      obtain ⟨rfl, -⟩ := rt.associated_inj he
      have hseeds := find_inj rt hx hy
      injection hseeds with hid
      rw [hid]
    · exact Nat.zero_le _
  simp only [Tokens.balance, ht, ht'] at hfunds
  simp only [chargesOf, List.map_cons, List.sum_cons] at hle ⊢
  omega

omit [DecidableEq Pubkey] in
theorem ordersOf_self : ordersOf x.agentId (x :: l) = ordersOf x.agentId l + 1 := by
  simp [ordersOf]

omit [DecidableEq Pubkey] in
theorem ordersOf_le (agentId : Bytes) : ordersOf agentId l ≤ ordersOf agentId (x :: l) :=
  (List.sublist_cons_self x l).countP_le

/-- The state that an order leaves is ready for the rest. -/
theorem ready_next {seqMap : Bytes → UInt64}
    (h : Served rt sender x k (seqMap x.agentId) s s')
    (hx : rt.findProgramAddress (.agentWallet x.agentId) = some (k, bump))
    (hmax : (seqMap x.agentId).toNat < u64Max) (hready : Ready rt s sender seqMap (x :: l)) :
    Ready rt s' sender (Function.update seqMap x.agentId (seqMap x.agentId + 1)) l := by
  intro y hy
  have hy' := hready y (List.mem_cons_of_mem x hy)
  obtain ⟨j, b, v, haddr, hs, hpay⟩ := hy'.agent
  obtain ⟨v', hs', hactive, hfrozen⟩ := stands_next h hx haddr hmax hs
  refine ⟨hy'.clock, hy'.protocol, ?_, j, b, v', haddr, hs', fun hnone => ?_⟩
  · have hsum := hy'.sequences
    by_cases hid : y.agentId = x.agentId
    · rw [hid, ordersOf_self] at hsum
      rw [hid, Function.update_self, toNat_next hmax, Nat.add_right_comm]
      exact hsum
    · rw [Function.update_of_ne hid]
      exact (Nat.add_le_add_left (ordersOf_le y.agentId) _).trans hsum
  · obtain ⟨hu, t, ht, hthawed, hle⟩ := hpay hnone
    exact ⟨unenforced_next h hactive hfrozen hu, funds_next h hx haddr ht hthawed hle⟩

end Next

variable {s₀ : World Pubkey} {tr : Trace Pubkey} {seqMap : Bytes → UInt64}

theorem order_served {orders charges : Nat} (h0 : Genesis rt s₀) (hr : Reaches rt s₀ tr s)
    (hclock : ∀ c ∈ clocks tr, 0 ≤ c ∧ c ≤ 2 ^ 62) (hsign : rt.canSign sender.owner = true)
    (hready : x.Ready rt s sender n orders charges) (hle : x.charge x.agentId ≤ charges) :
    ∃ k bump i s', rt.findProgramAddress (.agentWallet x.agentId) = some (k, bump) ∧
      x.instruction rt sender n = some i ∧ Performs rt s [(x.now, i)] s' ∧
      Served rt sender x k n s s' := by
  have hwf := reachable_wellFormed (reachable_run (reachable_init h0) hr)
  obtain ⟨k, bump, w, ha, hs, hpay⟩ := hready.agent
  cases hreason : x.violationReason with
  | none =>
    obtain ⟨hu, t, ht, hthawed, hfunds⟩ := hpay hreason
    rw [Order.charge, if_pos ⟨hreason, rfl⟩] at hle
    obtain ⟨i, s', h⟩ := payment_served hwf hsign (windowsWithin_run h0 hr hclock hs.wallet)
      hready.clock.1 hreason hready.protocol ha hs hu ht hthawed (hle.trans hfunds)
    exact ⟨k, bump, i, s', ha, h⟩
  | some reason =>
    obtain ⟨i, s', h⟩ := violation_served hwf hsign hreason hready.protocol ha hs
    exact ⟨k, bump, i, s', ha, h⟩

/-- What the whole list leaves. -/
structure Completed (rt : Runtime Pubkey) (sender : Sender Pubkey) (l : List (Order Pubkey))
    (seqMap seqMap' : Bytes → UInt64) (s s' : World Pubkey) : Prop where
  /-- `seqMap` is right in the end where it was right before. -/
  sequences : ∀ agentId k bump w, rt.findProgramAddress (.agentWallet agentId) = some (k, bump) →
    Stands rt s sender.owner (seqMap agentId) k w →
    ∃ w', Stands rt s' sender.owner (seqMap' agentId) k w'
  holdings : ∀ m a, (s'.tokens.holding m a : Int) =
    s.tokens.holding m a + net (l.filterMap (Order.posting rt sender)) m a
  policy : s'.policy = s.policy
  config : s'.config = s.config

/-- Instructions that the handlers accept, which do what the list asks for. -/
theorem loop_performs (h0 : Genesis rt s₀) (hr : Reaches rt s₀ tr s)
    (hclock : ∀ c ∈ clocks tr, 0 ≤ c ∧ c ≤ 2 ^ 62) (hsign : rt.canSign sender.owner = true)
    (hready : Ready rt s sender seqMap l) :
    ∃ sent seqMap' s', payLoop rt sender seqMap l = some (sent, seqMap') ∧
      Performs rt s sent s' ∧ Completed rt sender l seqMap seqMap' s s' := by
  induction l generalizing s tr seqMap with
  | nil =>
    exact ⟨[], seqMap, s, rfl, performs_nil s, fun _ _ _ w _ hs => ⟨w, hs⟩, by simp, rfl, rfl⟩
  | cons x l ih =>
    have hx := hready x List.mem_cons_self
    have hle : x.charge x.agentId ≤ chargesOf x.agentId (x :: l) := by
      simp [chargesOf]
    obtain ⟨k, bump, i, t, ha, hi, hperforms, hserved⟩ := order_served h0 hr hclock hsign hx hle
    have hmax : (seqMap x.agentId).toNat < u64Max := by
      have hsum := hx.sequences
      rw [ordersOf_self] at hsum
      omega
    have hrun : Reaches rt s₀ (tr ++ replay rt s [(x.now, i)]) t := by
      have hreplay := replay_reaches rt s [(x.now, i)]
      rw [hperforms.final] at hreplay
      exact run_append hr hreplay
    have hclock' : ∀ c ∈ clocks (tr ++ replay rt s [(x.now, i)]), 0 ≤ c ∧ c ≤ 2 ^ 62 := by
      intro c hc
      rw [clocks_append, clocks_replay, List.mem_append, List.map_singleton,
        List.mem_singleton] at hc
      rcases hc with hc | rfl
      · exact hclock c hc
      · exact hx.clock
    obtain ⟨sent, seqMap', s', hloop, hrest, hdone⟩ :=
      ih hrun hclock' (ready_next hserved ha hmax hready)
    refine ⟨(x.now, i) :: sent, seqMap', s', ?_, performs_append hperforms hrest, ?_, ?_,
      hdone.policy.trans hserved.policy, hdone.config.trans hserved.config⟩
    · simp [payLoop, hi, hloop]
    · intro agentId j b v hj hs
      obtain ⟨v', hs', -⟩ := stands_next hserved ha hj hmax hs
      exact hdone.sequences agentId j b v' hj hs'
    · intro m a
      have hcons : (x :: l).filterMap (Order.posting rt sender) =
          (x.posting rt sender).toList ++ l.filterMap (Order.posting rt sender) := by
        cases hp : x.posting rt sender <;> simp [hp]
      rw [hdone.holdings, hserved.holdings, hcons, net_append, add_assoc]

end Script

namespace Demo

/-- Two agents of one owner, both funded, with a threshold of 200. -/
def seeding : List (Submission Key) :=
  [initProtocol, register alice owner (mint 0) 100, register bob owner (mint 0) 100,
    setPolicy alice owner 50 200 100, setPolicy bob owner 50 200 100]

def seeded : World Key := submitAll Key.runtime sharedChain seeding

def sender : Script.Sender Key := ⟨.protocolConfig, mint 1, owner⟩

/-- Payments of both agents, one to the other, and a violation. -/
def orders : List (Script.Order Key) :=
  [⟨300, params alice 70, .associated payee (mint 1), none⟩,
    ⟨310, params bob 120, .associated (wallet alice) (mint 1), none⟩,
    ⟨320, params bob 600, .associated payee (mint 1), some 5⟩,
    ⟨330, params alice 35, .associated payee (mint 1), none⟩]

theorem genesis_sharedChain : Genesis Key.runtime sharedChain :=
  genesis_chainWith (by decide) (by decide)

theorem seeded_free (k : Key) (n : UInt64) : recordAt Key.runtime seeded k n = none := by
  have hnone : recorded Key.runtime k (replay Key.runtime sharedChain seeding) = [] := rfl
  have hlists := lists_run genesis_sharedChain (replay_reaches Key.runtime sharedChain seeding) k
  rw [seeded, hlists.slots, hnone]
  rfl

theorem alice_stands : Script.Stands Key.runtime seeded owner 0 (wallet alice)
    (AgentWallet.registered alice owner (.associated (wallet alice) (mint 0)) 100 255) :=
  ⟨rfl, rfl, rfl, fun m _ => seeded_free _ m⟩

theorem bob_stands : Script.Stands Key.runtime seeded owner 0 (wallet bob)
    (AgentWallet.registered bob owner (.associated (wallet bob) (mint 0)) 100 255) :=
  ⟨rfl, rfl, rfl, fun m _ => seeded_free _ m⟩

theorem seeded_ready : Script.Ready Key.runtime seeded sender (fun _ => 0) orders := by
  intro x hx
  simp only [orders, List.mem_cons, List.not_mem_nil, or_false] at hx
  rcases hx with rfl | rfl | rfl | rfl
  · exact ⟨by decide, rfl, by decide, _, _, _, rfl, alice_stands, fun _ =>
      ⟨⟨by decide, rfl, rfl, ⟨_, rfl, by decide⟩, ⟨_, _, _, rfl, rfl, rfl⟩, _, rfl, rfl, rfl⟩,
        _, rfl, rfl, by decide⟩⟩
  · exact ⟨by decide, rfl, by decide, _, _, _, rfl, bob_stands, fun _ =>
      ⟨⟨by decide, rfl, rfl, ⟨_, rfl, by decide⟩, ⟨_, _, _, rfl, rfl, rfl⟩, _, rfl, rfl, rfl⟩,
        _, rfl, rfl, by decide⟩⟩
  · exact ⟨by decide, rfl, by decide, _, _, _, rfl, bob_stands, fun h => nomatch h⟩
  · exact ⟨by decide, rfl, by decide, _, _, _, rfl, alice_stands, fun _ =>
      ⟨⟨by decide, rfl, rfl, ⟨_, rfl, by decide⟩, ⟨_, _, _, rfl, rfl, rfl⟩, _, rfl, rfl, rfl⟩,
        _, rfl, rfl, by decide⟩⟩

end Demo

end MaximProtocol
