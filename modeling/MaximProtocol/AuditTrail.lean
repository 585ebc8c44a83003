import MaximProtocol.Quotas
import MaximProtocol.Client

/-!
# Records as an audit trail

What a payment record stores, byte by byte, and what can be told from it about the event
that was emitted with it.

* `data_inj`: the stored data determines the record.
* `audit_trail_iff`: of two settlements, or of two violations, different events leave
  different data, except where they differ in nothing but the memo, or the reason:
  the record has a field for neither.
-/

namespace MaximProtocol

open MachineInt World Transitions
open Borsh hiding Bytes

variable {Pubkey : Type}

/-! ## 1. The data of a payment record -/

/-- A part of account data. A key stands for the 32 bytes of an address. -/
inductive Datum (Pubkey : Type) where
  | byte (b : UInt8)
  | key (k : Pubkey)

def Datum.width : Datum Pubkey → Nat
  | .byte _ => 1
  | .key _ => 32

/-- The number of bytes. -/
def width (l : List (Datum Pubkey)) : Nat := (l.map Datum.width).sum

def bytes (l : List UInt8) : List (Datum Pubkey) := l.map .byte

/-- Borsh writes the index of the variant. -/
def PaymentProtocol.tag : PaymentProtocol → UInt8
  | .x402 => 0
  | .mpp => 1

def encParent : Option Pubkey → List (Datum Pubkey)
  | none => [.byte 0]
  | some p => [.byte 1, .key p]

namespace PaymentRecord

def LEN : Nat := 8 + 32 + 8 + 32 + 32 + 8 + 1 + 8 + 1 + 33 + 1

/-- The discriminator of the account and its fields, in the order of the declaration. -/
def serialize (disc : Vector UInt8 8) (r : PaymentRecord Pubkey) : List (Datum Pubkey) :=
  bytes disc.toList ++ (.key r.agentWallet :: (bytes (encU64 r.sequence) ++
    (bytes r.endpointHash.toList ++ (.key r.payee :: (bytes (encU64 r.amountUsdc) ++
    (.byte r.protocol.tag :: (bytes (encU64 r.settledAt.toUInt64) ++
    (.byte (if r.policyPassed then 1 else 0) ::
    (encParent r.parentPayment ++ [.byte r.bump])))))))))

/-- The data of the account: `init` leaves the rest of its `LEN` bytes zero. -/
def data (disc : Vector UInt8 8) (r : PaymentRecord Pubkey) : List (Datum Pubkey) :=
  r.serialize disc ++ List.replicate (LEN - width (r.serialize disc)) (.byte 0)

end PaymentRecord

variable {disc : Vector UInt8 8} {r r' : PaymentRecord Pubkey}

@[simp] theorem width_append (l m : List (Datum Pubkey)) : width (l ++ m) = width l + width m := by
  simp [width]

@[simp] theorem width_cons (d : Datum Pubkey) (l : List (Datum Pubkey)) :
    width (d :: l) = d.width + width l := by
  simp [width]

@[simp] theorem width_nil : width ([] : List (Datum Pubkey)) = 0 := rfl

@[simp] theorem width_bytes (l : List UInt8) :
    width (bytes l : List (Datum Pubkey)) = l.length := by
  induction l with
  | nil => rfl
  | cons b l ih =>
    show 1 + width (bytes l) = l.length + 1
    rw [ih]
    omega

/-- The declared length is enough for every record. -/
theorem width_data (disc : Vector UInt8 8) (r : PaymentRecord Pubkey) :
    width (r.data disc) = PaymentRecord.LEN := by
  have hpad : ∀ n, width (List.replicate n (.byte 0) : List (Datum Pubkey)) = n := by
    intro n
    simp [width, Datum.width]
  have hfits : width (r.serialize disc) ≤ PaymentRecord.LEN := by
    cases hp : r.parentPayment <;>
      simp [PaymentRecord.serialize, encParent, hp, Datum.width, PaymentRecord.LEN]
  rw [PaymentRecord.data, width_append, hpad]
  omega

theorem bytes_append_inj {l l' : List UInt8} {m m' : List (Datum Pubkey)}
    (hlen : l.length = l'.length) (h : bytes l ++ m = bytes l' ++ m') : l = l' ∧ m = m' := by
  have hlen' : (bytes l : List (Datum Pubkey)).length =
      (bytes l' : List (Datum Pubkey)).length := by
    simpa [bytes] using hlen
  obtain ⟨hl, hm⟩ := List.append_inj h hlen'
  refine ⟨List.map_injective_iff.mpr ?_ hl, hm⟩
  intro a b hab
  cases hab
  rfl

theorem encU64_append_inj {x y : UInt64} {m m' : List (Datum Pubkey)}
    (h : bytes (encU64 x) ++ m = bytes (encU64 y) ++ m') : x = y ∧ m = m' := by
  obtain ⟨hxy, hm⟩ := bytes_append_inj (by simp) h
  have hread := reads_u64 x
  rw [hxy] at hread
  exact ⟨reads_inj hread (reads_u64 y), hm⟩

theorem encParent_append_inj {p q : Option Pubkey} {m m' : List (Datum Pubkey)}
    (h : encParent p ++ m = encParent q ++ m') : p = q ∧ m = m' := by
  cases p <;> cases q <;> simp_all [encParent]

/-- **The data determines the record.** -/
theorem data_inj (h : r.data disc = r'.data disc) : r = r' := by
  simp only [PaymentRecord.data, PaymentRecord.serialize, List.append_assoc, List.cons_append] at h
  obtain ⟨_, h⟩ := bytes_append_inj rfl h
  obtain ⟨hwallet, h⟩ := List.cons.inj h
  obtain ⟨hseq, h⟩ := encU64_append_inj h
  obtain ⟨hendpoint, h⟩ := bytes_append_inj (by simp) h
  obtain ⟨hpayee, h⟩ := List.cons.inj h
  obtain ⟨hamount, h⟩ := encU64_append_inj h
  obtain ⟨hprotocol, h⟩ := List.cons.inj h
  obtain ⟨htime, h⟩ := encU64_append_inj h
  obtain ⟨hpassed, h⟩ := List.cons.inj h
  obtain ⟨hparent, h⟩ := encParent_append_inj h
  obtain ⟨hbump, _⟩ := List.cons.inj h
  obtain ⟨k, n, e, p, a, pr, t, b, pa, bu⟩ := r
  obtain ⟨k', n', e', p', a', pr', t', b', pa', bu'⟩ := r'
  simp only [Datum.key.injEq, Datum.byte.injEq] at *
  have hpr : pr = pr' := by cases pr <;> cases pr' <;> simp_all [PaymentProtocol.tag]
  have hb : b = b' := by cases b <;> cases b' <;> simp_all
  have ht : t = t' := by
    cases t
    cases t'
    exact congrArg Int64.ofUInt64 htime
  have he : e = e' := Vector.toList_inj.mp hendpoint
  subst hwallet hseq he hpayee hamount hpr ht hb hparent hbump
  rfl

/-! ## 2. Executions -/

variable [DecidableEq Pubkey] [Inhabited Pubkey] {rt : Runtime Pubkey}

/-- A successful execution of the instruction `i` in a reachable state. -/
structure Executed (rt : Runtime Pubkey) (i : Instruction Pubkey) where
  now : Int64
  pre : World Pubkey
  post : World Pubkey
  event : Option (Event Pubkey)
  reachable : Reachable rt pre
  ok : execute rt now i pre = .ok (post, event)

/-- The data of the record account at `k` after the execution. -/
def Executed.stored {i : Instruction Pubkey} (x : Executed rt i) (disc : Vector UInt8 8)
    (k : Pubkey) : Option (List (Datum Pubkey)) :=
  (x.post.record k).map (PaymentRecord.data disc)

/-- The owner of the payee's token account. -/
def payeeOwner (s : World Pubkey) (accs : SettlePayment Pubkey) : Option Pubkey :=
  (s.tokens accs.payeeTokenAccount).map TokenAccount.owner

variable {accs accs' : SettlePayment Pubkey} {n n' m m' : UInt64}
variable {params params' vparams vparams' : SettlePaymentParams Pubkey}
variable {vaccs vaccs' : RecordPolicyViolation Pubkey} {reason reason' : UInt8}

/-- Two settlements with the same inputs, the memo apart. -/
structure SameSettlement (x : Executed rt (.settlePayment accs n params))
    (y : Executed rt (.settlePayment accs' n' params')) : Prop where
  wallet : accs.agentWallet = accs'.agentWallet
  sequence : n = n'
  endpoint : params.endpointHash = params'.endpointHash
  payee : payeeOwner x.pre accs = payeeOwner y.pre accs'
  amount : params.amountUsdc = params'.amountUsdc
  protocol : params.protocol = params'.protocol
  clock : x.now = y.now
  parent : params.parentPayment = params'.parentPayment

/-- Two violations with the same inputs, the memo and the reason apart. -/
structure SameViolation (x : Executed rt (.recordPolicyViolation vaccs m vparams reason))
    (y : Executed rt (.recordPolicyViolation vaccs' m' vparams' reason')) : Prop where
  wallet : vaccs.agentWallet = vaccs'.agentWallet
  sequence : m = m'
  endpoint : vparams.endpointHash = vparams'.endpointHash
  amount : vparams.amountUsdc = vparams'.amountUsdc
  protocol : vparams.protocol = vparams'.protocol
  clock : x.now = y.now

/-- The record and the event of a settlement, from its inputs. -/
theorem settlement_log (x : Executed rt (.settlePayment accs n params)) :
    ∃ payee protocol bump, payeeOwner x.pre accs = some payee ∧
      PaymentProtocol.fromDiscriminant params.protocol = some protocol ∧
      rt.findProgramAddress (.paymentRecord accs.agentWallet n) =
        some (accs.paymentRecord, bump) ∧
      x.post.record accs.paymentRecord = some (PaymentRecord.settlement accs.agentWallet payee n
        params protocol x.now bump) ∧
      x.event = some (.paymentSettled accs.agentWallet n params.endpointHash payee
        params.amountUsdc params.protocol x.now params.parentPayment params.memo) := by
  obtain ⟨now, s, s', ev, hreach, hok⟩ := x
  simp only [execute, handle, settlePayment, bind_eq_ok, settle_tryAccounts_eq_ok, orFail_eq_ok,
    require_eq_ok, pure_eq_ok, Prod.mk.injEq, Prod.exists, exists_const] at hok ⊢
  obtain ⟨_, ctx, hv, w, p, _, tokens, _, protocol, hprotocol, rfl, rfl⟩ := hok
  refine ⟨ctx.payee.owner, protocol, ctx.recordBump, ?_, hprotocol, hv.record_addr, ?_, rfl⟩
  · rw [payeeOwner, hv.payee]
    rfl
  · simp [World.record, World.write, ProgramAccount.record?]

/-- The record and the event of a violation, from its inputs. -/
theorem violation_log (x : Executed rt (.recordPolicyViolation vaccs m vparams reason)) :
    ∃ protocol bump, PaymentProtocol.fromDiscriminant vparams.protocol = some protocol ∧
      rt.findProgramAddress (.paymentRecord vaccs.agentWallet m) =
        some (vaccs.paymentRecord, bump) ∧
      x.post.record vaccs.paymentRecord = some (PaymentRecord.violation vaccs.agentWallet m
        vparams protocol x.now bump) ∧
      x.event = some (.policyViolationRecorded vaccs.agentWallet m vparams.endpointHash
        vparams.amountUsdc reason) := by
  obtain ⟨now, s, s', ev, hreach, hok⟩ := x
  simp only [execute, handle, recordPolicyViolation, bind_eq_ok, violation_tryAccounts_eq_ok,
    orFail_eq_ok, require_eq_ok, pure_eq_ok, Prod.mk.injEq, Prod.exists, exists_const] at hok ⊢
  obtain ⟨_, w, bump, hv, protocol, hprotocol, _, rfl, rfl⟩ := hok
  refine ⟨protocol, bump, hprotocol, hv.record_addr, ?_, rfl⟩
  simp [World.record, World.write, ProgramAccount.record?]

omit [DecidableEq Pubkey] [Inhabited Pubkey] in
theorem fromDiscriminant_inj {a b : UInt8} {protocol : PaymentProtocol}
    (ha : PaymentProtocol.fromDiscriminant a = some protocol)
    (hb : PaymentProtocol.fromDiscriminant b = some protocol) : a = b := by
  unfold PaymentProtocol.fromDiscriminant at ha hb
  cases protocol <;> split at ha <;> split at hb <;> simp_all

/-! ## 3. What the records tell -/

/-- The data of two settlements is the same exactly when their inputs are, the memo apart. -/
theorem settlement_stored_iff (disc : Vector UInt8 8)
    (x : Executed rt (.settlePayment accs n params))
    (y : Executed rt (.settlePayment accs' n' params')) :
    x.stored disc accs.paymentRecord = y.stored disc accs'.paymentRecord ↔
      SameSettlement x y := by
  obtain ⟨payee, protocol, bump, hpayee, hprotocol, haddr, hrecord, _⟩ := settlement_log x
  obtain ⟨payee', protocol', bump', hpayee', hprotocol', haddr', hrecord', _⟩ := settlement_log y
  simp only [Executed.stored, hrecord, hrecord', Option.map_some, Option.some.injEq]
  constructor
  · intro hdata
    have hsame := data_inj hdata
    simp only [PaymentRecord.settlement, PaymentRecord.mk.injEq] at hsame
    obtain ⟨hw, hn, he, hp, ha, hpr, ht, _, hpar, _⟩ := hsame
    exact ⟨hw, hn, he, by rw [hpayee, hpayee', hp], ha,
      fromDiscriminant_inj (hpr ▸ hprotocol) hprotocol', ht, hpar⟩
  · intro h
    have hp : payee = payee' := Option.some.inj (by rw [← hpayee, ← hpayee', h.payee])
    have hpr : protocol = protocol' :=
      Option.some.inj (by rw [← hprotocol, ← hprotocol', h.protocol])
    rw [h.wallet, h.sequence, haddr', Option.some.injEq, Prod.mk.injEq] at haddr
    simp only [PaymentRecord.settlement, h.wallet, h.sequence, h.endpoint, h.amount, h.clock,
      h.parent, hp, hpr, haddr.2]

theorem violation_stored_iff (disc : Vector UInt8 8)
    (x : Executed rt (.recordPolicyViolation vaccs m vparams reason))
    (y : Executed rt (.recordPolicyViolation vaccs' m' vparams' reason')) :
    x.stored disc vaccs.paymentRecord = y.stored disc vaccs'.paymentRecord ↔
      SameViolation x y := by
  obtain ⟨protocol, bump, hprotocol, haddr, hrecord, _⟩ := violation_log x
  obtain ⟨protocol', bump', hprotocol', haddr', hrecord', _⟩ := violation_log y
  simp only [Executed.stored, hrecord, hrecord', Option.map_some, Option.some.injEq]
  constructor
  · intro hdata
    have hsame := data_inj hdata
    simp only [PaymentRecord.violation, PaymentRecord.mk.injEq] at hsame
    obtain ⟨hw, hn, he, _, ha, hpr, ht, _, _, _⟩ := hsame
    exact ⟨hw, hn, he, ha, fromDiscriminant_inj (hpr ▸ hprotocol) hprotocol', ht⟩
  · intro h
    have hpr : protocol = protocol' :=
      Option.some.inj (by rw [← hprotocol, ← hprotocol', h.protocol])
    rw [h.wallet, h.sequence, haddr', Option.some.injEq, Prod.mk.injEq] at haddr
    simp only [PaymentRecord.violation, h.wallet, h.sequence, h.endpoint, h.amount, h.clock, hpr,
      haddr.2]

/-- The events of settlements with the same inputs differ in the memo or not at all. -/
theorem settlement_event_iff {x : Executed rt (.settlePayment accs n params)}
    {y : Executed rt (.settlePayment accs' n' params')} (h : SameSettlement x y) :
    x.event = y.event ↔ params.memo = params'.memo := by
  obtain ⟨payee, _, _, hpayee, _, _, _, hev⟩ := settlement_log x
  obtain ⟨payee', _, _, hpayee', _, _, _, hev'⟩ := settlement_log y
  have hp : payee = payee' := Option.some.inj (by rw [← hpayee, ← hpayee', h.payee])
  simp [hev, hev', h.wallet, h.sequence, h.endpoint, hp, h.amount, h.protocol, h.clock, h.parent]

theorem violation_event_iff {x : Executed rt (.recordPolicyViolation vaccs m vparams reason)}
    {y : Executed rt (.recordPolicyViolation vaccs' m' vparams' reason')}
    (h : SameViolation x y) : x.event = y.event ↔ reason = reason' := by
  obtain ⟨_, _, _, _, _, hev⟩ := violation_log x
  obtain ⟨_, _, _, _, _, hev'⟩ := violation_log y
  simp [hev, hev', h.wallet, h.sequence, h.endpoint, h.amount]

/-- **Different events leave different records**, of two settlements unless they differ
in the memo only, of two violations unless they differ in the reason only. -/
theorem audit_trail_iff (disc : Vector UInt8 8) (x : Executed rt (.settlePayment accs n params))
    (y : Executed rt (.settlePayment accs' n' params'))
    (u : Executed rt (.recordPolicyViolation vaccs m vparams reason))
    (v : Executed rt (.recordPolicyViolation vaccs' m' vparams' reason')) :
    ((x.event ≠ y.event →
        x.stored disc accs.paymentRecord ≠ y.stored disc accs'.paymentRecord) ↔
      ¬ (SameSettlement x y ∧ params.memo ≠ params'.memo)) ∧
    ((u.event ≠ v.event →
        u.stored disc vaccs.paymentRecord ≠ v.stored disc vaccs'.paymentRecord) ↔
      ¬ (SameViolation u v ∧ reason ≠ reason')) := by
  constructor
  · rw [Ne, Ne, settlement_stored_iff]
    constructor
    · rintro h ⟨hsame, hmemo⟩
      exact h (fun hev => hmemo ((settlement_event_iff hsame).mp hev)) hsame
    · intro h hev hsame
      exact h ⟨hsame, fun hmemo => hev ((settlement_event_iff hsame).mpr hmemo)⟩
  · rw [Ne, Ne, violation_stored_iff]
    constructor
    · rintro h ⟨hsame, hreason⟩
      exact h (fun hev => hreason ((violation_event_iff hsame).mp hev)) hsame
    · intro h hev hsame
      exact h ⟨hsame, fun hreason => hev ((violation_event_iff hsame).mpr hreason)⟩

namespace Demo

/-- A settlement at sequence `n`, with a memo of the byte `b`. -/
def settleWithMemo (n : UInt64) (b : UInt8) (now : Int64) : Submission Key :=
  (now, .settlePayment (settleAccounts alice owner n (mint 1) (.associated payee (mint 1))) n
    { Demo.params alice 5 with memo := some (Vector.replicate 32 b) })

def report (n : UInt64) (reason : UInt8) (now : Int64) : Submission Key :=
  (now, .recordPolicyViolation ⟨.paymentRecord (wallet alice) n, wallet alice, owner⟩ n
    (Demo.params alice 5) reason)

theorem executed_after {l : List (Submission Key)} {x : Submission Key}
    (h : succeeds Key.runtime (submitAll Key.runtime chain l) x = true) :
    ∃ e : Executed Key.runtime x.2, e.pre = submitAll Key.runtime chain l ∧ e.now = x.1 := by
  unfold succeeds at h
  split at h
  · next r hok => exact ⟨⟨x.1, _, r.1, r.2, reachable_chain l, hok⟩, rfl, rfl⟩
  · cases h

/-- After the opening run, two settlements and two violations. -/
def entries : List (Submission Key) :=
  opening ++ [settleWithMemo 2 1 400, settleWithMemo 3 2 410, report 4 5 420, report 5 6 430]

end Demo

theorem audit_trail_iff_entries :
    ∃ (x : Executed Key.runtime (Demo.settleWithMemo 2 1 400).2)
      (y : Executed Key.runtime (Demo.settleWithMemo 3 2 410).2)
      (u : Executed Key.runtime (Demo.report 4 5 420).2)
      (v : Executed Key.runtime (Demo.report 5 6 430).2),
      (x.pre = submitAll Key.runtime Demo.chain (Demo.entries.take 5) ∧
        y.pre = submitAll Key.runtime Demo.chain (Demo.entries.take 6) ∧
        u.pre = submitAll Key.runtime Demo.chain (Demo.entries.take 7) ∧
        v.pre = submitAll Key.runtime Demo.chain (Demo.entries.take 8)) ∧
      ((x.event ≠ y.event →
          x.stored (Vector.replicate 8 0) (.paymentRecord (Demo.wallet Demo.alice) 2) ≠
            y.stored (Vector.replicate 8 0) (.paymentRecord (Demo.wallet Demo.alice) 3)) ↔
        ¬ (SameSettlement x y ∧
          some (Vector.replicate 32 1) ≠ some (Vector.replicate 32 (2 : UInt8)))) ∧
      ((u.event ≠ v.event →
          u.stored (Vector.replicate 8 0) (.paymentRecord (Demo.wallet Demo.alice) 4) ≠
            v.stored (Vector.replicate 8 0) (.paymentRecord (Demo.wallet Demo.alice) 5)) ↔
        ¬ (SameViolation u v ∧ (5 : UInt8) ≠ 6)) := by
  obtain ⟨x, hx, _⟩ := Demo.executed_after (l := Demo.entries.take 5)
    (x := Demo.settleWithMemo 2 1 400) (by decide +kernel)
  obtain ⟨y, hy, _⟩ := Demo.executed_after (l := Demo.entries.take 6)
    (x := Demo.settleWithMemo 3 2 410) (by decide +kernel)
  obtain ⟨u, hu, _⟩ := Demo.executed_after (l := Demo.entries.take 7)
    (x := Demo.report 4 5 420) (by decide +kernel)
  obtain ⟨v, hv, _⟩ := Demo.executed_after (l := Demo.entries.take 8)
    (x := Demo.report 5 6 430) (by decide +kernel)
  exact ⟨x, y, u, v, ⟨hx, hy, hu, hv⟩, audit_trail_iff (Vector.replicate 8 0) x y u v⟩

/-- Two settlements that differ in the memo only leave the same record. -/
theorem memo_lost : ¬ ((∀ (disc : Vector UInt8 8) accs accs' n n' params params'
      (x : Executed Key.runtime (.settlePayment accs n params))
      (y : Executed Key.runtime (.settlePayment accs' n' params')), x.event ≠ y.event →
      x.stored disc accs.paymentRecord ≠ y.stored disc accs'.paymentRecord) ∧
    (∀ (disc : Vector UInt8 8) accs accs' n n' params params' reason reason'
      (x : Executed Key.runtime (.recordPolicyViolation accs n params reason))
      (y : Executed Key.runtime (.recordPolicyViolation accs' n' params' reason')),
      x.event ≠ y.event →
      x.stored disc accs.paymentRecord ≠ y.stored disc accs'.paymentRecord)) := by
  rintro ⟨h, _⟩
  obtain ⟨x, hx, (hxt : x.now = 400)⟩ := Demo.executed_after (l := Demo.opening)
    (x := Demo.settleWithMemo 2 1 400) (by decide +kernel)
  obtain ⟨y, hy, (hyt : y.now = 400)⟩ := Demo.executed_after (l := Demo.opening)
    (x := Demo.settleWithMemo 2 2 400) (by decide +kernel)
  have hsame : SameSettlement x y :=
    ⟨rfl, rfl, rfl, by rw [hx, hy], rfl, rfl, hxt.trans hyt.symm, rfl⟩
  refine h (Vector.replicate 8 0) _ _ _ _ _ _ x y (fun hev => ?_)
    ((settlement_stored_iff _ x y).mpr hsame)
  have hmemo := (settlement_event_iff hsame).mp hev
  exact absurd hmemo (by decide)

end MaximProtocol
