import MaximProtocol.ByteStore

/-!
# The entrypoint

What a transaction carries is data and a list of account references. The entrypoint reads
the call from the data, takes the accounts of the call's context from the front of the
list, and hands both to the handler. Instructions for the IDL it hands to Anchor.

1. the contexts: what each asks of the account in each of its places;
2. `process`, and the instructions that raw ones stand for;
3. `entrypoint_refines`: the runs of the entrypoint are the runs of the handlers.
-/

namespace MaximProtocol

open MachineInt World Transitions Codecs

variable {τ Pubkey : Type}

/-! ## 1. Contexts -/

structure AccountMeta (Pubkey : Type) where
  pubkey : Pubkey
  isSigner : Bool
  isWritable : Bool

structure RawInstruction (τ Pubkey : Type) where
  data : List τ
  accounts : List (AccountMeta Pubkey)

/-- The address that fills the field, unless the context fixes it. -/
def Role.key? : Role Pubkey → Pubkey → Option Pubkey
  | .fixed _, _ => none
  | _, k => some k

section Contexts

variable [DecidableEq Pubkey]

def Role.admits : Role Pubkey → AccountMeta Pubkey → Bool
  | .account writable, m => !writable || m.isWritable
  | .signer writable, m => m.isSigner && (!writable || m.isWritable)
  | .fixed k, m => m.pubkey = k

/-- The accounts of a context, from the front of the list. Those after them are ignored. -/
def takeAccounts : List (Role Pubkey) → List (AccountMeta Pubkey) → Option (List Pubkey)
  | [], _ => some []
  | _ :: _, [] => none
  | r :: roles, m :: metas =>
      if r.admits m then (takeAccounts roles metas).map ((r.key? m.pubkey).toList ++ ·)
      else none

end Contexts

/-- The instruction that a call with the given accounts is. -/
def Call.instruction : Call Pubkey → List Pubkey → Option (Instruction Pubkey)
  | .initProtocol admin, [protocolConfig, payer] =>
      some (.initProtocol { protocolConfig, payer } admin)
  | .rotateProtocolAdmin newAdmin, [protocolConfig, admin] =>
      some (.rotateProtocolAdmin { protocolConfig, admin } newAdmin)
  | .updateProtocolConfig cap, [protocolConfig, admin] =>
      some (.updateProtocolConfig { protocolConfig, admin } cap)
  | .registerAgent agentId, [agentWallet, usdcTokenAccount, usdcMint, owner] =>
      some (.registerAgent { agentWallet, usdcTokenAccount, usdcMint, owner } agentId)
  | .setSpendPolicy params, [spendPolicy, agentWallet, owner] =>
      some (.setSpendPolicy { spendPolicy, agentWallet, owner } params)
  | .settlePayment sequence params, [paymentRecord, agentWallet, spendPolicy, usdcTokenAccount,
      payeeTokenAccount, usdcMint, owner, protocolConfig] =>
      some (.settlePayment { paymentRecord, agentWallet, spendPolicy, usdcTokenAccount
                             payeeTokenAccount, usdcMint, owner, protocolConfig } sequence params)
  | .recordPolicyViolation sequence params reason, [paymentRecord, agentWallet, owner] =>
      some (.recordPolicyViolation { paymentRecord, agentWallet, owner } sequence params reason)
  | .deactivateAgent, [agentWallet, owner] => some (.deactivateAgent { agentWallet, owner })
  | .reactivateAgent, [agentWallet, owner] => some (.reactivateAgent { agentWallet, owner })
  | .freezeAgent, [agentWallet, protocolConfig, admin] =>
      some (.freezeAgent { agentWallet, protocolConfig, admin })
  | .unfreezeAgent, [agentWallet, protocolConfig, admin] =>
      some (.unfreezeAgent { agentWallet, protocolConfig, admin })
  | .withdrawFunds amount, [agentWallet, usdcTokenAccount, ownerTokenAccount, usdcMint, owner] =>
      some (.withdrawFunds
        { agentWallet, usdcTokenAccount, ownerTokenAccount, usdcMint, owner } amount)
  | .transferOwnership newOwner, [agentWallet, owner] =>
      some (.transferOwnership { agentWallet, owner } newOwner)
  | .closeAgent, [agentWallet, spendPolicy, usdcTokenAccount, usdcMint, owner] =>
      some (.closeAgent { agentWallet, spendPolicy, usdcTokenAccount, usdcMint, owner })
  | .withdrawAll, [agentWallet, usdcTokenAccount, ownerTokenAccount, usdcMint, owner] =>
      some (.withdrawAll { agentWallet, usdcTokenAccount, ownerTokenAccount, usdcMint, owner })
  | _, _ => none

theorem instruction_eq_some {c : Call Pubkey} {keys : List Pubkey} {i : Instruction Pubkey} :
    c.instruction keys = some i ↔ i.call = c ∧ i.keys = keys := by
  constructor
  · intro h
    unfold Call.instruction at h
    split at h <;> cases h <;> exact ⟨rfl, rfl⟩
  · rintro ⟨rfl, rfl⟩
    cases i <;> rfl

/-! ## 2. Processing -/

/-- The keys in the signer fields of a context whose accounts are `keys`. -/
def signers : List (Role Pubkey) → List Pubkey → List Pubkey
  | .fixed _ :: roles, keys => signers roles keys
  | .account _ :: roles, _ :: keys => signers roles keys
  | .signer _ :: roles, k :: keys => k :: signers roles keys
  | _, _ => []

/-- The account references of a context, as a client lists them. -/
def accountMetas : List (Role Pubkey) → List Pubkey → List (AccountMeta Pubkey)
  | .fixed k :: roles, keys => ⟨k, false, false⟩ :: accountMetas roles keys
  | .account writable :: roles, k :: keys => ⟨k, false, writable⟩ :: accountMetas roles keys
  | .signer writable :: roles, k :: keys => ⟨k, true, writable⟩ :: accountMetas roles keys
  | _, _ => []

/-- Why a raw instruction is not served by a handler. Anchor has more errors than these: a
discriminator that no method has and arguments that do not deserialise are both
`unknownCall`, and every fault of the account list is `accountsRefused`, also where Anchor
finds a fault of an account in front of it first. -/
inductive EntryError where
  | unsigned
  /-- Anchor serves it, well or not. -/
  | idl
  | unknownCall
  | accountsRefused
  | program (e : ProgramError)

variable [DecidableEq Pubkey]

omit [DecidableEq Pubkey] in
theorem signer_mem (ps : Programs Pubkey) (i : Instruction Pubkey) :
    i.signer ∈ signers (i.call.method.roles ps) i.keys := by
  cases i <;> simp [Instruction.call, Call.method, Method.roles, Instruction.keys, signers,
    Instruction.signer]

/-- One field takes the account in front. -/
theorem takeAccounts_cons {r : Role Pubkey} {roles : List (Role Pubkey)}
    {metas : List (AccountMeta Pubkey)} {keys : List Pubkey}
    (h : takeAccounts (r :: roles) metas = some keys) :
    ∃ m rest keys', metas = m :: rest ∧ r.admits m = true ∧
      takeAccounts roles rest = some keys' ∧ keys = (r.key? m.pubkey).toList ++ keys' := by
  cases metas with
  | nil => cases h
  | cons m rest =>
    unfold takeAccounts at h
    split at h
    · next hm =>
      obtain ⟨keys', hkeys, rfl⟩ := Option.map_eq_some_iff.mp h
      exact ⟨m, rest, keys', rfl, hm, hkeys, rfl⟩
    · cases h

/-- The key in a signer field is marked as a signer. -/
theorem signers_marked {roles : List (Role Pubkey)} {metas : List (AccountMeta Pubkey)}
    {keys : List Pubkey} {k : Pubkey} (h : takeAccounts roles metas = some keys)
    (hk : k ∈ signers roles keys) : ∃ m ∈ metas, m.pubkey = k ∧ m.isSigner = true := by
  induction roles generalizing metas keys with
  | nil => cases keys <;> cases hk
  | cons r roles ih =>
    obtain ⟨m, rest, keys', rfl, hm, hrest, rfl⟩ := takeAccounts_cons h
    have hlater : k ∈ signers roles keys' →
        ∃ m' ∈ m :: rest, m'.pubkey = k ∧ m'.isSigner = true := by
      intro hk
      obtain ⟨m', hm', h⟩ := ih hrest hk
      exact ⟨m', List.mem_cons_of_mem _ hm', h⟩
    cases r with
    | fixed k' => exact hlater hk
    | account writable => exact hlater hk
    | signer writable =>
      rcases List.mem_cons.mp hk with rfl | hk
      · exact ⟨m, List.mem_cons_self, rfl, (Bool.and_eq_true_iff.mp hm).1⟩
      · exact hlater hk

/-- A context takes one account for each of its fields. -/
theorem takeAccounts_length {roles : List (Role Pubkey)} {metas : List (AccountMeta Pubkey)}
    {keys : List Pubkey} (h : takeAccounts roles metas = some keys) :
    roles.length ≤ metas.length := by
  induction roles generalizing metas keys with
  | nil => exact Nat.zero_le _
  | cons r roles ih =>
    obtain ⟨m, rest, keys', rfl, _, hrest, _⟩ := takeAccounts_cons h
    exact Nat.succ_le_succ (ih hrest)

theorem takeAccounts_metas (ps : Programs Pubkey) (i : Instruction Pubkey) :
    takeAccounts (i.call.method.roles ps) (accountMetas (i.call.method.roles ps) i.keys) =
      some i.keys := by
  cases i <;> simp [Instruction.call, Call.method, Method.roles, Instruction.keys,
    accountMetas, takeAccounts, Role.admits, Role.key?]

omit [DecidableEq Pubkey] in
theorem metas_signer (ps : Programs Pubkey) (i : Instruction Pubkey) :
    ∀ m ∈ accountMetas (i.call.method.roles ps) i.keys, m.isSigner = true →
      m.pubkey = i.signer := by
  cases i <;> simp [Instruction.call, Call.method, Method.roles, Instruction.keys,
    accountMetas, Instruction.signer]

section Process

variable [Inhabited Pubkey] [Alphabet τ] (key : Codec τ Pubkey) (ms : MethodDiscriminators)
variable (ps : Programs Pubkey) (rt : Runtime Pubkey)

/-- The transaction was accepted: every account it marks as a signer has signed. -/
def RawInstruction.Signed (raw : RawInstruction τ Pubkey) : Prop :=
  ∀ m ∈ raw.accounts, m.isSigner = true → rt.canSign m.pubkey = true

instance (raw : RawInstruction τ Pubkey) : Decidable (raw.Signed rt) :=
  inferInstanceAs (Decidable (∀ m ∈ raw.accounts, _ → _))

/-- The signatures are the runtime's; the rest is the entrypoint with its dispatch. -/
def process (now : Int64) (raw : RawInstruction τ Pubkey) (s : World Pubkey) :
    Except EntryError (Outcome Pubkey) := do
  require (raw.Signed rt) .unsigned
  require (isIdl raw.data = false) .idl
  let call ← orFail .unknownCall (readCall key ms raw.data)
  let keys ← orFail .accountsRefused (takeAccounts (call.method.roles ps) raw.accounts)
  let i ← orFail .accountsRefused (call.instruction keys)
  (handle rt now i s).mapError .program

/-- The raw instruction stands for `i`. -/
structure RawInstruction.Encodes (raw : RawInstruction τ Pubkey) (i : Instruction Pubkey) :
    Prop where
  writable : i.call.Writable key
  data : ∃ tail, raw.data = (Call.codec key ms).encode i.call ++ tail
  accounts : takeAccounts (i.call.method.roles ps) raw.accounts = some i.keys

/-- The raw instruction a client builds for `i`. -/
def Instruction.build (i : Instruction Pubkey) : RawInstruction τ Pubkey where
  data := (Call.codec key ms).encode i.call
  accounts := accountMetas (i.call.method.roles ps) i.keys

/-- What becomes of an instruction that is sent. Without its signature it does not reach the
program. -/
def Instruction.sent (now : Int64) (i : Instruction Pubkey) (s : World Pubkey) :
    Except EntryError (Outcome Pubkey) :=
  if rt.canSign i.signer = true then (execute rt now i s).mapError .program
  else .error .unsigned

end Process

section Process

variable [Inhabited Pubkey] [Alphabet τ] {key : Codec τ Pubkey} {ms : MethodDiscriminators}
variable {ps : Programs Pubkey} {rt : Runtime Pubkey} {raw : RawInstruction τ Pubkey}
variable {i : Instruction Pubkey} {s s' : World Pubkey} {now : Int64}

omit [Inhabited Pubkey] in
theorem encodes_iff : raw.Encodes key ms ps i ↔
    ∃ call keys, readCall key ms raw.data = some call ∧
      takeAccounts (call.method.roles ps) raw.accounts = some keys ∧
        call.instruction keys = some i := by
  constructor
  · intro h
    exact ⟨i.call, i.keys, readCall_eq_some.mpr ⟨h.writable, h.data⟩, h.accounts,
      instruction_eq_some.mpr ⟨rfl, rfl⟩⟩
  · rintro ⟨call, keys, hcall, hkeys, hi⟩
    obtain ⟨rfl, rfl⟩ := instruction_eq_some.mp hi
    obtain ⟨hwritable, hdata⟩ := readCall_eq_some.mp hcall
    exact ⟨hwritable, hdata, hkeys⟩

omit [Inhabited Pubkey] in
/-- A raw instruction stands for one instruction. -/
theorem encodes_unique {j : Instruction Pubkey} (hi : raw.Encodes key ms ps i)
    (hj : raw.Encodes key ms ps j) : i = j := by
  obtain ⟨call, keys, hcall, hkeys, hi⟩ := encodes_iff.mp hi
  obtain ⟨call', keys', hcall', hkeys', hj⟩ := encodes_iff.mp hj
  obtain rfl : call = call' := Option.some.inj (hcall.symm.trans hcall')
  obtain rfl : keys = keys' := Option.some.inj (hkeys.symm.trans hkeys')
  exact Option.some.inj (hi.symm.trans hj)

omit [Inhabited Pubkey] in
theorem encodes_not_idl (h : raw.Encodes key ms ps i) : isIdl raw.data = false := by
  obtain ⟨tail, hdata⟩ := h.data
  rw [hdata]
  exact call_not_idl i.call tail

omit [Inhabited Pubkey] in
theorem encodes_signer (h : raw.Encodes key ms ps i) (hsigned : raw.Signed rt) :
    rt.canSign i.signer = true := by
  obtain ⟨m, hm, hk, hmarked⟩ := signers_marked h.accounts (signer_mem ps i)
  rw [← hk]
  exact hsigned m hm hmarked

/-- A raw instruction that stands for `i` ends as `i` does. -/
theorem process_encodes (hsigned : raw.Signed rt) (h : raw.Encodes key ms ps i) (now : Int64)
    (s : World Pubkey) :
    process key ms ps rt now raw s = (execute rt now i s).mapError .program := by
  obtain ⟨call, keys, hcall, hkeys, hi⟩ := encodes_iff.mp h
  have hexecute : execute rt now i s = handle rt now i s := by
    rw [execute, require, if_pos (encodes_signer h hsigned)]
    rfl
  rw [process, require, if_pos hsigned, require, if_pos (encodes_not_idl h), hcall, hexecute]
  show (orFail _ (takeAccounts _ _) >>= _) = _
  rw [hkeys]
  show (orFail _ (call.instruction keys) >>= _) = _
  rw [hi]
  rfl

/-- What the entrypoint accepts is an instruction that its handler accepts. -/
theorem process_eq_ok {r : Outcome Pubkey} : process key ms ps rt now raw s = .ok r ↔
    raw.Signed rt ∧ ∃ i, raw.Encodes key ms ps i ∧ execute rt now i s = .ok r := by
  constructor
  · intro hok
    have hok' := hok
    simp only [process, bind_eq_ok, require_eq_ok, orFail_eq_ok, exists_const] at hok'
    obtain ⟨hsigned, _, call, hcall, keys, hkeys, i, hi, _⟩ := hok'
    have hencodes := encodes_iff.mpr ⟨call, keys, hcall, hkeys, hi⟩
    rw [process_encodes hsigned hencodes, mapError_eq_ok] at hok
    exact ⟨hsigned, i, hencodes, hok⟩
  · rintro ⟨hsigned, i, hencodes, h⟩
    rw [process_encodes hsigned hencodes, mapError_eq_ok]
    exact h

/-- Only instructions for the IDL are handed on. -/
theorem process_idl (h : process key ms ps rt now raw s = .error .idl) :
    isIdl raw.data = true := by
  by_contra hnot
  rw [Bool.not_eq_true] at hnot
  have hhandle : ∀ i, Avoids .idl ((handle rt now i s).mapError EntryError.program) := by
    intro i
    cases handle rt now i s <;> exact nofun
  have havoids : Avoids .idl (process key ms ps rt now raw s) :=
    avoids_bind (avoids_require nofun) fun _ =>
    avoids_bind (avoids_of_ok (a := ()) (require_eq_ok.mpr hnot)) fun _ =>
    avoids_bind (avoids_orFail nofun) fun _ => avoids_bind (avoids_orFail nofun) fun _ =>
    avoids_bind (avoids_orFail nofun) hhandle
  exact havoids h

omit [Inhabited Pubkey] in
theorem build_encodes (h : i.call.Writable key) : (i.build key ms ps).Encodes key ms ps i :=
  ⟨h, ⟨[], (List.append_nil _).symm⟩, takeAccounts_metas ps i⟩

omit [DecidableEq Pubkey] [Inhabited Pubkey] [Alphabet τ] in
theorem metas_signed (hmetas : raw.accounts = accountMetas (i.call.method.roles ps) i.keys)
    (h : rt.canSign i.signer = true) : raw.Signed rt := by
  intro m hm hmarked
  rw [hmetas] at hm
  rw [metas_signer ps i m hm hmarked]
  exact h

/-- With the account list of the context, data that starts with the call is enough. -/
theorem process_sent (h : raw.Encodes key ms ps i)
    (hmetas : raw.accounts = accountMetas (i.call.method.roles ps) i.keys) (now : Int64)
    (s : World Pubkey) : process key ms ps rt now raw s = i.sent rt now s := by
  unfold Instruction.sent
  split
  · next hsign => exact process_encodes (metas_signed hmetas hsign) h now s
  · next hsign =>
    have hunsigned : ¬ raw.Signed rt := fun hs => hsign (encodes_signer h hs)
    rw [process, require, if_neg hunsigned]
    rfl

theorem process_build (h : i.call.Writable key) (now : Int64) (s : World Pubkey) :
    process key ms ps rt now (i.build key ms ps) s = i.sent rt now s :=
  process_sent (build_encodes h) rfl now s

end Process

/-! ## 3. Runs of the entrypoint -/

inductive EntryAction (τ Pubkey : Type) where
  | accepted (now : Int64) (raw : RawInstruction τ Pubkey)
  | rejected (now : Int64) (raw : RawInstruction τ Pubkey)
  | idl (now : Int64) (raw : RawInstruction τ Pubkey)
  | outside

section Runs

variable [Inhabited Pubkey] [Alphabet τ] (key : Codec τ Pubkey) (ms : MethodDiscriminators)
variable (ps : Programs Pubkey) (rt : Runtime Pubkey)

inductive EntryStep : World Pubkey → EntryAction τ Pubkey → World Pubkey → Prop
  | accepted {s s' : World Pubkey} {now : Int64} {raw : RawInstruction τ Pubkey}
      {ev : Option (Event Pubkey)} :
      process key ms ps rt now raw s = .ok (s', ev) → EntryStep s (.accepted now raw) s'
  | rejected {s : World Pubkey} {now : Int64} {raw : RawInstruction τ Pubkey} {e : EntryError} :
      process key ms ps rt now raw s = .error e → e ≠ .idl → EntryStep s (.rejected now raw) s
  /-- What Anchor then does is not followed: the account of the IDL is not in `World`. -/
  | idl {s : World Pubkey} {now : Int64} {raw : RawInstruction τ Pubkey} :
      process key ms ps rt now raw s = .error .idl → EntryStep s (.idl now raw) s
  | outside {s s' : World Pubkey} : Outside rt s s' → EntryStep s .outside s'

/-- What a step of the entrypoint is to the handlers. -/
def Decoded (x : Transition (World Pubkey) (EntryAction τ Pubkey)) (l : Trace Pubkey) : Prop :=
  match x.label with
  | .accepted now raw => ∃ i, raw.Signed rt ∧ raw.Encodes key ms ps i ∧
      l = [⟨x.pre, .accepted now i, x.post⟩]
  | .rejected now raw =>
      (∃ i, raw.Signed rt ∧ raw.Encodes key ms ps i ∧ l = [⟨x.pre, .rejected now i, x.post⟩]) ∨
        (raw.Signed rt → ∀ i, ¬ raw.Encodes key ms ps i) ∧ l = []
  | .idl _ raw => (∀ i, ¬ raw.Encodes key ms ps i) ∧ l = []
  | .outside => l = [⟨x.pre, .outside, x.post⟩]

/-- How a client brings a step of the handlers about. -/
def Built (x : Transition (World Pubkey) (Action Pubkey))
    (l : List (Transition (World Pubkey) (EntryAction τ Pubkey))) : Prop :=
  match x.label with
  | .accepted now i => l = [⟨x.pre, .accepted now (i.build key ms ps), x.post⟩]
  | .rejected now i =>
      (i.call.Writable key ∧ l = [⟨x.pre, .rejected now (i.build key ms ps), x.post⟩]) ∨
        (∀ raw : RawInstruction τ Pubkey, ¬ raw.Encodes key ms ps i) ∧ l = []
  | .outside => l = [⟨x.pre, .outside, x.post⟩]

end Runs

section Runs

variable [Inhabited Pubkey] [Alphabet τ] {key : Codec τ Pubkey} {ms : MethodDiscriminators}
variable {ps : Programs Pubkey} {rt : Runtime Pubkey} {i : Instruction Pubkey}
variable {s s' : World Pubkey} {now : Int64}

omit [DecidableEq Pubkey] [Inhabited Pubkey] in
theorem permitted_writable {agentId : Bytes} (h : PermittedId agentId) :
    agentId.length < 2 ^ 32 ∧ validUtf8 agentId = true := by
  have hlen := h.length
  unfold MAX_AGENT_ID_LEN at hlen
  refine ⟨by omega, ascii_utf8 fun b hb => isAgentIdByte_ascii ?_⟩
  exact List.all_eq_true.mp h.bytes b hb

/-- The id that leads to a wallet is the id of the wallet. -/
theorem wallet_id_writable {k : Pubkey} {w : AgentWallet Pubkey} {agentId : Bytes}
    (hs : Reachable rt s) (hw : s.wallet k = some w)
    (hseeds : rt.createProgramAddress (.agentWallet agentId) w.bump = some k) :
    agentId.length < 2 ^ 32 ∧ validUtf8 agentId = true := by
  have hfind := rt.find_create ((reachable_wellFormed hs).wallet hw)
  obtain ⟨hid, _⟩ := rt.create_inj hseeds hfind
  cases hid
  exact permitted_writable ((reachable_fieldsBounded hs).id hw)

omit [Alphabet τ] in
/-- Whatever a reachable state accepts can be written as data. -/
theorem accepted_writable {ev : Option (Event Pubkey)} (hkey : ∀ k, key.Valid k)
    (hs : Reachable rt s) (h : execute rt now i s = .ok (s', ev)) : i.call.Writable key := by
  cases (execute_effect h).2 with
  | initProtocol => exact hkey _
  | rotateProtocolAdmin => exact hkey _
  | updateProtocolConfig => exact trivial
  | registerAgent hr =>
    exact permitted_writable ⟨hr.id_length.1, hr.id_length.2, hr.id_bytes⟩
  | setSpendPolicy hp =>
    have hallowed := hp.allowed_len
    have hblocked := hp.blocked_len
    unfold MAX_DOMAIN_ENTRIES at hallowed hblocked
    exact ⟨by omega, by omega⟩
  | settlePayment hp =>
    exact ⟨wallet_id_writable hs hp.validates.wallet hp.validates.wallet_seeds, fun k _ => hkey k⟩
  | recordPolicyViolation hv =>
    exact ⟨wallet_id_writable hs hv.validates.wallet hv.validates.wallet_seeds, fun k _ => hkey k⟩
  | deactivateAgent => exact trivial
  | reactivateAgent => exact trivial
  | freezeAgent => exact trivial
  | unfreezeAgent => exact trivial
  | withdrawFunds => exact trivial
  | withdrawAll => exact trivial
  | transferOwnership => exact hkey _
  | closeAgent => exact trivial

/-- A step of the entrypoint is one step of the handlers, or none. -/
theorem entryStep_run {x : Transition (World Pubkey) (EntryAction τ Pubkey)}
    (h : EntryStep key ms ps rt x.pre x.label x.post) :
    ∃ l, Run (Step rt) x.pre l x.post ∧ Decoded key ms ps rt x l := by
  obtain ⟨pre, label, post⟩ := x
  cases h with
  | accepted h =>
    obtain ⟨hsigned, i, hencodes, hok⟩ := process_eq_ok.mp h
    exact ⟨_, run_single (.accepted hok), i, hsigned, hencodes, rfl⟩
  | @rejected now raw e h =>
    by_cases hmeant : raw.Signed rt ∧ ∃ i, raw.Encodes key ms ps i
    · obtain ⟨hsigned, i, hencodes⟩ := hmeant
      rw [process_encodes hsigned hencodes] at h
      cases he : execute rt now i pre with
      | error e' => exact ⟨_, run_single (.rejected he), .inl ⟨i, hsigned, hencodes, rfl⟩⟩
      | ok r =>
        rw [he] at h
        cases h
    · exact ⟨[], .nil _, .inr ⟨fun hsigned i hi => hmeant ⟨hsigned, i, hi⟩, rfl⟩⟩
  | idl h =>
    refine ⟨[], .nil _, fun i hi => ?_, rfl⟩
    have hidl := process_idl h
    rw [encodes_not_idl hi] at hidl
    cases hidl
  | outside h => exact ⟨_, run_single (.outside h), rfl⟩

/-- Built for an instruction that fails, a raw instruction is rejected. -/
theorem build_rejected {e : ProgramError} (h : execute rt now i s = .error e)
    (hwritable : i.call.Writable key) :
    EntryStep key ms ps rt s (.rejected now (i.build key ms ps)) s := by
  have hsent : ∃ e', i.sent rt now s = .error e' ∧ e' ≠ .idl := by
    unfold Instruction.sent
    rw [h]
    split
    · exact ⟨_, rfl, nofun⟩
    · exact ⟨_, rfl, nofun⟩
  obtain ⟨e', hsent, hne⟩ := hsent
  exact .rejected ((process_build hwritable now s).trans hsent) hne

/-- A step of the handlers from a reachable state is one step of the entrypoint, or none. -/
theorem step_entryRun {x : Transition (World Pubkey) (Action Pubkey)} (hkey : ∀ k, key.Valid k)
    (hs : Reachable rt x.pre) (h : Step rt x.pre x.label x.post) :
    ∃ l, Run (EntryStep key ms ps rt) x.pre l x.post ∧ Built key ms ps x l := by
  obtain ⟨pre, label, post⟩ := x
  cases h with
  | @accepted _ now i ev h =>
    have hprocess : process key ms ps rt now (i.build key ms ps) pre = .ok (post, ev) :=
      process_eq_ok.mpr ⟨metas_signed rfl (execute_eq_ok.mp h).1, i,
        build_encodes (accepted_writable hkey hs h), h⟩
    exact ⟨_, run_single (.accepted hprocess), rfl⟩
  | @rejected now i e h =>
    by_cases hwritable : i.call.Writable key
    · exact ⟨_, run_single (build_rejected h hwritable), .inl ⟨hwritable, rfl⟩⟩
    · exact ⟨[], .nil _, .inr ⟨fun raw hraw => hwritable hraw.writable, rfl⟩⟩
  | outside h => exact ⟨_, run_single (.outside h), rfl⟩

end Runs

/-- **The runs of the entrypoint are the runs of the handlers.** A raw instruction stands for
one instruction or none. Signed, it ends as the instruction it stands for, with the same
event or error; what stands for none changes nothing. Every instruction that can be written
as data can be sent, and all that succeed in a reachable state can be written. -/
theorem entrypoint_refines [Inhabited Pubkey] [Alphabet τ] (key : Codec τ Pubkey)
    (hkey : ∀ k, key.Valid k) (ms : MethodDiscriminators) (ps : Programs Pubkey)
    (rt : Runtime Pubkey) :
    (∀ (raw : RawInstruction τ Pubkey) i, raw.Encodes key ms ps i →
      (∀ j, raw.Encodes key ms ps j → j = i) ∧
        (raw.Signed rt → ∀ now s, process key ms ps rt now raw s =
          (execute rt now i s).mapError .program)) ∧
    (∀ i : Instruction Pubkey, i.call.Writable key → (i.build key ms ps).Encodes key ms ps i ∧
      ∀ now s, process key ms ps rt now (i.build key ms ps) s = i.sent rt now s) ∧
    (∀ {s₀ etr s}, Run (EntryStep key ms ps rt) s₀ etr s →
      ∃ tr, Reaches rt s₀ tr s ∧ Matched (Decoded key ms ps rt) etr tr) ∧
    (∀ {s₀ tr s}, Reachable rt s₀ → Reaches rt s₀ tr s →
      ∃ etr, Run (EntryStep key ms ps rt) s₀ etr s ∧ Matched (Built key ms ps) tr etr) := by
  refine ⟨fun raw i hi => ⟨fun j hj => encodes_unique hj hi, fun hsigned now s =>
    process_encodes hsigned hi now s⟩, fun i hi => ⟨build_encodes hi, process_build hi⟩, ?_, ?_⟩
  · intro s₀ etr s hr
    obtain ⟨tr, t, hrun, hmatch, rfl⟩ := run_simulates (R := Eq) hr rfl fun x _ hs v hv => by
      subst hv
      obtain ⟨l, hl, hdecoded⟩ := entryStep_run hs
      exact ⟨l, _, hl, hdecoded, rfl⟩
    exact ⟨tr, hrun, hmatch⟩
  · intro s₀ tr s h0 hr
    have hstep : ∀ x ∈ tr, Step rt x.pre x.label x.post →
        ∃ l, Run (EntryStep key ms ps rt) x.pre l x.post ∧ Built key ms ps x l :=
      fun x hx hs => step_entryRun hkey (reachable_mem h0 hr hx).1 hs
    obtain ⟨etr, t, hrun, hmatch, rfl⟩ := run_simulates (R := Eq) hr rfl fun x hx hs v hv => by
      subst hv
      obtain ⟨l, hl, hbuilt⟩ := hstep x hx hs
      exact ⟨l, _, hl, hbuilt, rfl⟩
    exact ⟨etr, hrun, hmatch⟩

namespace Demo

/-- The first 8 bytes of the SHA-256 of `global:` and the method's name. -/
def methodDisc : Method → Vector UInt8 8
  | .initProtocol => #v[3, 188, 141, 237, 225, 226, 232, 210]
  | .rotateProtocolAdmin => #v[89, 36, 43, 39, 152, 126, 25, 125]
  | .updateProtocolConfig => #v[197, 97, 123, 54, 221, 168, 11, 135]
  | .registerAgent => #v[135, 157, 66, 195, 2, 113, 175, 30]
  | .setSpendPolicy => #v[26, 146, 213, 49, 37, 211, 246, 101]
  | .settlePayment => #v[129, 7, 163, 250, 122, 226, 158, 249]
  | .recordPolicyViolation => #v[213, 162, 56, 14, 1, 114, 158, 61]
  | .deactivateAgent => #v[205, 171, 239, 225, 82, 126, 96, 166]
  | .reactivateAgent => #v[231, 7, 179, 97, 210, 24, 209, 12]
  | .freezeAgent => #v[142, 40, 239, 10, 18, 216, 106, 176]
  | .unfreezeAgent => #v[31, 194, 10, 120, 66, 217, 180, 103]
  | .withdrawFunds => #v[241, 36, 29, 111, 208, 31, 104, 217]
  | .transferOwnership => #v[65, 177, 215, 73, 53, 45, 99, 47]
  | .closeAgent => #v[52, 185, 104, 145, 157, 30, 87, 237]
  | .withdrawAll => #v[96, 246, 166, 130, 229, 50, 43, 70]

def methods : MethodDiscriminators where
  disc := methodDisc
  distinct {m m'} h := by
    have hnodup : (Method.all.map methodDisc).Nodup := by decide
    exact List.inj_on_of_nodup_map hnodup m.mem_all m'.mem_all h
  not_idl m := by cases m <;> decide

end Demo

/-- The opening run, through the entrypoint. -/
theorem entrypoint_refines_opening : ∃ etr,
    Run (EntryStep Demo.keys Demo.methods Demo.programs Key.runtime) Demo.chain etr
      (submitAll Key.runtime Demo.chain Demo.opening) ∧
    Matched (Built Demo.keys Demo.methods Demo.programs)
      (replay Key.runtime Demo.chain Demo.opening) etr :=
  (entrypoint_refines Demo.keys Demo.keys_format.valid Demo.methods Demo.programs
    Key.runtime).2.2.2 (Demo.reachable_chain []) (replay_reaches Key.runtime Demo.chain
      Demo.opening)

end MaximProtocol
