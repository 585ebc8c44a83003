import MaximProtocol.Contexts
import MaximProtocol.Library.Simulation

/-!
# The store as bytes

`World` holds account values. On the chain an account is a fixed number of bytes. Anchor
runs an instruction in three parts: it deserialises the accounts of the context from their
data, runs the constraints and the handler on the values, and at the end serialises the
`mut` and `init` accounts over the front of their data, which `init` has left zero. Where
the new value is shorter, the end of an earlier one stays.

1. `Holds`: the data of an account is of its size and starts with its serialised value;
2. `byteExecute`: the three parts;
3. `byteExecute_eq`: it ends as `execute` does on the values that all data is read as;
4. `byte_store_refines`: its runs are the runs of the program over values.
-/

namespace MaximProtocol

open MachineInt World Transitions Codecs

variable {Pubkey : Type}

/-! ## 1. Data that holds an account -/

namespace ProgramAccount

/-- The space its `init` asks for. -/
def space : ProgramAccount Pubkey → Nat
  | .protocolConfig _ => ProtocolConfig.LEN
  | .agentWallet _ => AgentWallet.LEN
  | .spendPolicy _ => SpendPolicy.LEN
  | .paymentRecord _ => PaymentRecord.LEN

/-- The fields that vary in length keep to the bounds their writers check. -/
def Bounded : ProgramAccount Pubkey → Prop
  | .agentWallet w => PermittedId w.agentId
  | .spendPolicy p => p.allowedDomainHashes.length ≤ MAX_DOMAIN_ENTRIES ∧
      p.blockedDomainHashes.length ≤ MAX_DOMAIN_ENTRIES
  | _ => True

/-- The seeds of the address it is at. -/
def seeds : ProgramAccount Pubkey → Seeds Pubkey
  | .protocolConfig _ => .protocolConfig
  | .agentWallet w => .agentWallet w.agentId
  | .spendPolicy p => .spendPolicy p.agentWallet
  | .paymentRecord r => .paymentRecord r.agentWallet r.sequence

end ProgramAccount

theorem ascii_utf8 {l : Bytes} (h : ∀ b ∈ l, b < 128) : validUtf8 l = true := by
  have hflat : (l.map fun b => Char.ofNat b.toNat).flatMap String.utf8EncodeChar = l := by
    have hone : ∀ b ∈ l, String.utf8EncodeChar (Char.ofNat b.toNat) = [b] := by
      intro b hb
      have hb : b.toNat < 128 := UInt8.lt_iff_toNat_lt.mp (h b hb)
      have hv : (Char.ofNat b.toNat).val.toNat = b.toNat := by
        rw [Char.ofNat, dif_pos (Or.inl (by omega))]
        rfl
      unfold String.utf8EncodeChar
      rw [hv, if_pos (by omega), UInt8.ofNat_toNat]
    rw [List.flatMap_map, List.flatMap_congr hone, List.flatMap_singleton']
  unfold validUtf8
  rw [ByteArray.validateUTF8_eq_true_iff]
  refine ⟨l.map fun b => Char.ofNat b.toNat, ?_⟩
  unfold List.utf8Encode
  rw [hflat]
  apply ByteArray.ext
  simp

theorem isAgentIdByte_ascii {b : UInt8} (h : isAgentIdByte b = true) : b < 128 := by
  simp only [isAgentIdByte, isAsciiAlphanumeric, Bool.or_eq_true, Bool.and_eq_true,
    decide_eq_true_eq, beq_iff_eq, UInt8.le_iff_toNat_le, ← UInt8.toNat_inj] at h
  rw [UInt8.lt_iff_toNat_lt]
  show b.toNat < 128
  simp only [UInt8.reduceToNat] at h
  omega

theorem bounded_storable {a : ProgramAccount Pubkey} (h : a.Bounded) : a.Storable := by
  cases a with
  | agentWallet w =>
    have hlen := h.length
    refine ⟨?_, ascii_utf8 fun b hb => isAgentIdByte_ascii ?_⟩
    · unfold MAX_AGENT_ID_LEN at hlen
      omega
    · exact List.all_eq_true.mp h.bytes b hb
  | spendPolicy p =>
    obtain ⟨ha, hb⟩ := h
    unfold MAX_DOMAIN_ENTRIES at ha hb
    exact ⟨by omega, by omega⟩
  | _ => trivial

theorem width_config (disc : Vector UInt8 8) (c : ProtocolConfig Pubkey) :
    width (c.serialize disc) = ProtocolConfig.LEN := by
  simp [ProtocolConfig.serialize, ProtocolConfig.LEN]

theorem width_record_le (disc : Vector UInt8 8) (r : PaymentRecord Pubkey) :
    width (r.serialize disc) ≤ PaymentRecord.LEN := by
  have h := width_data disc r
  rw [PaymentRecord.data, width_append] at h
  omega

/-- A bounded value fits the space of its account. -/
theorem bounded_fits (ds : Discriminators) {a : ProgramAccount Pubkey} (h : a.Bounded) :
    width (a.serialize ds) ≤ a.space := by
  cases a with
  | protocolConfig c => exact (width_config _ c).le
  | agentWallet w =>
    have hwidth := width_wallet ds.agentWallet w
    have hlen := h.length
    show width (w.serialize ds.agentWallet) ≤ AgentWallet.LEN
    omega
  | spendPolicy p =>
    have hwidth := width_policy ds.spendPolicy p
    obtain ⟨ha, hb⟩ := h
    show width (p.serialize ds.spendPolicy) ≤ SpendPolicy.LEN
    omega
  | paymentRecord r => exact width_record_le _ r

/-- One address is only ever of one kind of account. -/
theorem space_eq_of_seeds {a a' : ProgramAccount Pubkey} (h : a.seeds = a'.seeds) :
    a.space = a'.space := by
  cases a <;> cases a' <;> first | rfl | cases h

theorem wellFormed_seeds [DecidableEq Pubkey] {rt : Runtime Pubkey} {s : World Pubkey}
    {k : Pubkey} {a : ProgramAccount Pubkey} (hwf : WellFormed rt s) (ha : s.accounts k = some a) :
    ∃ bump, rt.findProgramAddress a.seeds = some (k, bump) := by
  cases a with
  | protocolConfig c => exact ⟨_, hwf.config (config_eq_some.mpr ha)⟩
  | agentWallet w => exact ⟨_, hwf.wallet (wallet_eq_some.mpr ha)⟩
  | spendPolicy p => exact ⟨_, hwf.policy (policy_eq_some.mpr ha)⟩
  | paymentRecord r => exact ⟨_, hwf.record (by simp [World.record, ha, ProgramAccount.record?])⟩

theorem accounts_bounded {s : World Pubkey} {k : Pubkey} {a : ProgramAccount Pubkey}
    (h : FieldsBounded s) (ha : s.accounts k = some a) : a.Bounded := by
  cases a with
  | agentWallet w => exact h.id (wallet_eq_some.mpr ha)
  | spendPolicy p => exact h.lists (policy_eq_some.mpr ha)
  | _ => trivial

variable {τ : Type} [Alphabet τ]

/-- Every key can be written, as 32 tokens. -/
structure KeyFormat (key : Codec τ Pubkey) : Prop where
  valid : ∀ k, key.Valid k
  length : ∀ k, (key.encode k).length = 32

/-- Over bytes a key is an array of 32. -/
theorem bytes_format : KeyFormat (array 32 : Codec UInt8 (Vector UInt8 32)) where
  valid := array_valid
  length k := by
    rw [array_encode, ofBytes, List.length_map, Vector.length_toList]

/-- The new value over the front of the data. -/
def overwrite (data new : List τ) : List τ := new ++ data.drop new.length

/-- The data of the account `a`: all of the space of the account, with its value at the
front. -/
structure Holds (key : Codec τ Pubkey) (ds : Discriminators) (data : List τ)
    (a : ProgramAccount Pubkey) : Prop where
  bounded : a.Bounded
  space : data.length = a.space
  value : ∃ tail, data = expand key (a.serialize ds) ++ tail

section Holds

variable {key : Codec τ Pubkey} {ds : Discriminators} {data : List τ}
variable {a : ProgramAccount Pubkey}

theorem holds_read (hkey : KeyFormat key) (h : Holds key ds data a) :
    readAccount key ds data = some a := by
  obtain ⟨tail, rfl⟩ := h.value
  exact read_serialized hkey.valid (bounded_storable h.bounded) tail

theorem overwrite_holds (hkey : KeyFormat key) (hb : a.Bounded) (hspace : data.length = a.space) :
    Holds key ds (overwrite data (expand key (a.serialize ds))) a := by
  have hfits := bounded_fits ds hb
  rw [← length_expand hkey.length, ← hspace] at hfits
  refine ⟨hb, ?_, _, rfl⟩
  rw [overwrite, List.length_append, List.length_drop, Nat.add_sub_cancel' hfits, hspace]

end Holds

/-! ## 2. The program over bytes -/

structure ByteWorld (τ Pubkey : Type) where
  data : Pubkey → Option (List τ)
  tokens : Tokens Pubkey
  mints : Pubkey → Bool

/-- The data of an account after a write: gone, created, or overwritten. -/
def storeData (key : Codec τ Pubkey) (ds : Discriminators) (data : Option (List τ)) :
    Option (ProgramAccount Pubkey) → Option (List τ)
  | none => none
  | some a =>
      some (overwrite (data.getD (ofBytes (List.replicate a.space 0)))
        (expand key (a.serialize ds)))

namespace ByteWorld

section Parts

variable (key : Codec τ Pubkey) (ds : Discriminators)

/-- The account that the data at `k` holds. -/
def read (b : ByteWorld τ Pubkey) (k : Pubkey) : Option (ProgramAccount Pubkey) :=
  (b.data k).bind (readAccount key ds)

/-- All accounts, as they are read. -/
def world (b : ByteWorld τ Pubkey) : World Pubkey where
  accounts := b.read key ds
  tokens := b.tokens
  mints := b.mints

variable [DecidableEq Pubkey]

/-- What the context of the instruction gives its handler: the accounts it names, and
nothing of the others. -/
def context (b : ByteWorld τ Pubkey) (i : Instruction Pubkey) : World Pubkey where
  accounts k := if k ∈ i.keys then b.read key ds k else none
  tokens k := if k ∈ i.keys then b.tokens k else none
  mints k := decide (k ∈ i.keys) && b.mints k

/-- `exit`: the `mut` and `init` accounts of the context are written, and a closed one is
removed. The token accounts are as the token program has left them. -/
def exit (ps : Programs Pubkey) (b : ByteWorld τ Pubkey) (i : Instruction Pubkey)
    (s : World Pubkey) : ByteWorld τ Pubkey where
  data k := if k ∈ i.writable ps then storeData key ds (b.data k) (s.accounts k) else b.data k
  tokens k := if k ∈ i.keys then s.tokens k else b.tokens k
  mints := b.mints

end Parts

/-- Before the program is used. -/
structure Blank [DecidableEq Pubkey] (rt : Runtime Pubkey) (b : ByteWorld τ Pubkey) : Prop where
  data : ∀ k, b.data k = none
  lawful : LawfulTokens rt b.mints b.tokens

/-- Every account's data holds an account. -/
def Stored (key : Codec τ Pubkey) (ds : Discriminators) (b : ByteWorld τ Pubkey) : Prop :=
  ∀ {k data}, b.data k = some data → ∃ a, Holds key ds data a

end ByteWorld

section Execute

variable [DecidableEq Pubkey] [Inhabited Pubkey] (key : Codec τ Pubkey) (ds : Discriminators)
variable (ps : Programs Pubkey) (rt : Runtime Pubkey)

/-- An instruction over bytes. Data that is no account's is not deserialised. -/
def byteExecute (now : Int64) (i : Instruction Pubkey) (b : ByteWorld τ Pubkey) :
    Except ProgramError (ByteWorld τ Pubkey × Option (Event Pubkey)) := do
  require (∀ k ∈ i.keys, (b.data k).isSome = (b.read key ds k).isSome) .accountDidNotDeserialize
  let (s, ev) ← execute rt now i (b.context key ds i)
  pure (b.exit key ds ps i s, ev)

inductive ByteStep : ByteWorld τ Pubkey → Action Pubkey → ByteWorld τ Pubkey → Prop
  | accepted {b b' : ByteWorld τ Pubkey} {now : Int64} {i : Instruction Pubkey}
      {ev : Option (Event Pubkey)} :
      byteExecute key ds ps rt now i b = .ok (b', ev) → ByteStep b (.accepted now i) b'
  | rejected {b : ByteWorld τ Pubkey} {now : Int64} {i : Instruction Pubkey} {e : ProgramError} :
      byteExecute key ds ps rt now i b = .error e → ByteStep b (.rejected now i) b
  | outside {b : ByteWorld τ Pubkey} {s' : World Pubkey} : Outside rt (b.world key ds) s' →
      ByteStep b .outside { b with tokens := s'.tokens, mints := s'.mints }

end Execute

/-! ## 3. It ends as the program over values does -/

/-- The data `data` is that of `accounts`: it reads as them, and all of it holds accounts. -/
def StoredAs (key : Codec τ Pubkey) (ds : Discriminators) (data : Pubkey → Option (List τ))
    (accounts : Pubkey → Option (ProgramAccount Pubkey)) : Prop :=
  ∀ k, (data k = none ∧ accounts k = none) ∨
    ∃ l a, data k = some l ∧ accounts k = some a ∧ Holds key ds l a

/-- What the program over bytes goes through, seen as values. -/
structure Simulated [DecidableEq Pubkey] [Inhabited Pubkey] (key : Codec τ Pubkey)
    (ds : Discriminators) (rt : Runtime Pubkey) (b : ByteWorld τ Pubkey) : Prop where
  reachable : Reachable rt (b.world key ds)
  stored : StoredAs key ds b.data (b.world key ds).accounts

section Refines

variable [DecidableEq Pubkey] [Inhabited Pubkey] {key : Codec τ Pubkey} {ds : Discriminators}
variable {rt : Runtime Pubkey} {b b' : ByteWorld τ Pubkey}
variable {s s' r : World Pubkey} {now : Int64} {i : Instruction Pubkey}
variable {ev : Option (Event Pubkey)} {k : Pubkey}

omit [DecidableEq Pubkey] [Inhabited Pubkey] in
theorem storedAs_read {data : Pubkey → Option (List τ)}
    {accounts : Pubkey → Option (ProgramAccount Pubkey)} (hkey : KeyFormat key)
    (h : StoredAs key ds data accounts) (k : Pubkey) :
    (data k).bind (readAccount key ds) = accounts k := by
  rcases h k with ⟨hd, ha⟩ | ⟨l, a, hd, ha, hholds⟩
  · rw [hd, ha]
    rfl
  · rw [hd, ha, Option.bind_some, holds_read hkey hholds]

omit [Inhabited Pubkey] in
/-- The context and all that is read agree on the accounts of the instruction. -/
theorem context_held (hk : k ∈ i.keys) :
    (b.context key ds i).held k = (b.world key ds).held k := by
  simp [World.held, ByteWorld.context, ByteWorld.world, hk]

omit [DecidableEq Pubkey] [Inhabited Pubkey] in
/-- Data that holds an account holds its successor after a write. -/
theorem storeData_holds {old new : Option (ProgramAccount Pubkey)} {data : Option (List τ)}
    (hkey : KeyFormat key) (hold : (data = none ∧ old = none) ∨
      ∃ l a, data = some l ∧ old = some a ∧ Holds key ds l a)
    (hnew : ∀ a, new = some a → a.Bounded ∧ ∀ a₀, old = some a₀ → a₀.space = a.space) :
    (storeData key ds data new = none ∧ new = none) ∨
      ∃ l a, storeData key ds data new = some l ∧ new = some a ∧ Holds key ds l a := by
  cases new with
  | none => exact .inl ⟨rfl, rfl⟩
  | some a =>
    obtain ⟨hb, hsame⟩ := hnew a rfl
    refine .inr ⟨_, a, rfl, rfl, overwrite_holds hkey hb ?_⟩
    rcases hold with ⟨rfl, _⟩ | ⟨l, a₀, rfl, ha₀, hholds⟩
    · simp [ofBytes]
    · exact hholds.space.trans (hsame a₀ ha₀)

/-- What is written at the end of a step holds the accounts it leaves. -/
theorem exit_storedAs (ps : Programs Pubkey) (hkey : KeyFormat key) (hb : Simulated key ds rt b)
    (hok : execute rt now i (b.world key ds) = .ok (s', ev))
    (hr : ∀ k ∈ i.keys, r.held k = s'.held k) :
    StoredAs key ds (b.exit key ds ps i r).data s'.accounts := by
  have hs' : Reachable rt s' := reachable_step hb.reachable (.accepted hok)
  intro k
  by_cases hk : k ∈ i.writable ps
  · have hdata : (b.exit key ds ps i r).data k = storeData key ds (b.data k) (s'.accounts k) := by
      rw [← (held_eq.mp (hr k (writableKeys_subset _ _ hk))).1]
      exact if_pos hk
    rw [hdata]
    refine storeData_holds hkey (hb.stored k) fun a ha =>
      ⟨accounts_bounded (reachable_fieldsBounded hs') ha, fun a₀ ha₀ => ?_⟩
    -- both accounts are at the address of their seeds
    obtain ⟨_, hfind₀⟩ := wellFormed_seeds (reachable_wellFormed hb.reachable) ha₀
    obtain ⟨_, hfind⟩ := wellFormed_seeds (reachable_wellFormed hs') ha
    exact space_eq_of_seeds (find_inj rt hfind₀ hfind)
  · have hframe := (held_eq.mp (handle_frame ps (execute_eq_ok.mp hok).2 hk)).1
    rw [hframe, show (b.exit key ds ps i r).data k = b.data k from if_neg hk]
    exact hb.stored k

/-- What is written at the end of a step reads as what it leaves. -/
theorem exit_world (ps : Programs Pubkey) (hkey : KeyFormat key) (hb : Simulated key ds rt b)
    (hok : execute rt now i (b.world key ds) = .ok (s', ev))
    (hr : ∀ k ∈ i.keys, r.held k = s'.held k) :
    (b.exit key ds ps i r).world key ds = s' := by
  have hread := storedAs_read hkey (exit_storedAs ps hkey hb hok hr)
  refine held_injective (funext fun k => held_eq.mpr ⟨hread k, ?_, ?_⟩)
  · by_cases hk : k ∈ i.keys
    · exact (if_pos hk).trans (held_eq.mp (hr k hk)).2.1
    · have hnot : k ∉ i.writable ps := fun hw => hk (writableKeys_subset _ _ hw)
      have hframe := (held_eq.mp (handle_frame ps (execute_eq_ok.mp hok).2 hnot)).2.1
      exact (if_neg hk).trans hframe.symm
  · obtain ⟨_, _, _, rfl⟩ := execute_iff_plans.mp ⟨ev, hok⟩
    rfl

/-- An instruction over bytes fails as it does over values, or writes what it writes there. -/
theorem byteExecute_cases (ps : Programs Pubkey) (hb : Simulated key ds rt b) (now : Int64)
    (i : Instruction Pubkey) :
    (∃ e, byteExecute key ds ps rt now i b = .error e ∧
      execute rt now i (b.world key ds) = .error e) ∨
    ∃ r s' ev, byteExecute key ds ps rt now i b = .ok (b.exit key ds ps i r, ev) ∧
      execute rt now i (b.world key ds) = .ok (s', ev) ∧ ∀ k ∈ i.keys, r.held k = s'.held k := by
  have hread : ∀ k ∈ i.keys, (b.data k).isSome = (b.read key ds k).isSome := by
    intro k _
    rcases hb.stored k with ⟨hd, ha⟩ | ⟨l, a, hd, ha, _⟩
    · rw [hd, show b.read key ds k = none from ha]
      rfl
    · rw [hd, show b.read key ds k = some a from ha]
      rfl
  have hlocal : Paired (SameOutcome (b.context key ds i) (b.world key ds))
      (execute rt now i (b.context key ds i)) (execute rt now i (b.world key ds)) :=
    execute_local fun k hk => context_held hk
  unfold byteExecute
  rw [show require (∀ k ∈ i.keys, (b.data k).isSome = (b.read key ds k).isSome)
    ProgramError.accountDidNotDeserialize = .ok () from require_eq_ok.mpr hread]
  cases hc : execute rt now i (b.context key ds i) with
  | error e =>
    cases hw : execute rt now i (b.world key ds) with
    | error e' =>
      rw [hc, hw] at hlocal
      exact .inl ⟨e, rfl, congrArg Except.error hlocal.symm⟩
    | ok r' =>
      rw [hc, hw] at hlocal
      cases hlocal
  | ok r =>
    cases hw : execute rt now i (b.world key ds) with
    | error e' =>
      rw [hc, hw] at hlocal
      cases hlocal
    | ok r' =>
      rw [hc, hw] at hlocal
      refine .inr ⟨r.1, r'.1, r.2, rfl, ?_, fun k hk => hlocal.held k (context_held hk)⟩
      rw [hlocal.event]

/-- **Over bytes an instruction ends as it does over values**: with the same error, or with
the same event and with data that reads as the same accounts. -/
theorem byteExecute_eq (ps : Programs Pubkey) (hkey : KeyFormat key)
    (hb : Simulated key ds rt b) (now : Int64) (i : Instruction Pubkey) :
    (byteExecute key ds ps rt now i b).map (fun r => (r.1.world key ds, r.2)) =
      execute rt now i (b.world key ds) := by
  rcases byteExecute_cases ps hb now i with ⟨e, hbyte, hok⟩ | ⟨r, s', ev, hbyte, hok, hr⟩
  · rw [hbyte, hok]
    rfl
  · rw [hbyte, hok, ← exit_world ps hkey hb hok hr]
    rfl

/-- A step over bytes is a step over values. -/
theorem byteStep_step {ps : Programs Pubkey} (hkey : KeyFormat key) {act : Action Pubkey}
    (hb : Simulated key ds rt b) (h : ByteStep key ds ps rt b act b') :
    Simulated key ds rt b' ∧ Step rt (b.world key ds) act (b'.world key ds) := by
  cases h with
  | @accepted _ now i ev h =>
    rcases byteExecute_cases ps hb now i with ⟨e, hbyte, _⟩ | ⟨r, s', ev, hbyte, hok, hr⟩
    · rw [hbyte] at h
      cases h
    · rw [hbyte] at h
      cases h
      have hworld := exit_world ps hkey hb hok hr
      have hs : Step rt (b.world key ds) (.accepted now i)
          ((b.exit key ds ps i r).world key ds) := by
        rw [hworld]
        exact .accepted hok
      refine ⟨⟨reachable_step hb.reachable hs, ?_⟩, hs⟩
      rw [hworld]
      exact exit_storedAs ps hkey hb hok hr
  | @rejected now i e h =>
    rcases byteExecute_cases ps hb now i with ⟨e', _, hok⟩ | ⟨r, s', ev, hbyte, _, _⟩
    · exact ⟨hb, .rejected hok⟩
    · rw [hbyte] at h
      cases h
  | @outside s' h =>
    have hworld : World.mk (b.world key ds).accounts s'.tokens s'.mints = s' := by
      rw [← h.accounts]
    have hs : Step rt (b.world key ds) .outside
        (World.mk (b.world key ds).accounts s'.tokens s'.mints) := by
      rw [hworld]
      exact .outside h
    exact ⟨⟨reachable_step hb.reachable hs, hb.stored⟩, hs⟩

/-- Every step over values is one over bytes. -/
theorem step_byteStep (ps : Programs Pubkey) (hkey : KeyFormat key) {act : Action Pubkey}
    (hb : Simulated key ds rt b) (h : Step rt (b.world key ds) act s') :
    ∃ b', ByteStep key ds ps rt b act b' ∧ b'.world key ds = s' ∧ Simulated key ds rt b' := by
  cases h with
  | @accepted _ now i ev h =>
    rcases byteExecute_cases ps hb now i with ⟨e, _, hok⟩ | ⟨r, s'', ev', hbyte, hok, hr⟩
    · rw [hok] at h
      cases h
    · rw [hok] at h
      cases h
      have hs : ByteStep key ds ps rt b (.accepted now i) (b.exit key ds ps i r) :=
        .accepted hbyte
      exact ⟨_, hs, exit_world ps hkey hb hok hr, (byteStep_step hkey hb hs).1⟩
  | @rejected now i e h =>
    rcases byteExecute_cases ps hb now i with ⟨e', hbyte, _⟩ | ⟨r, s'', ev', _, hok, _⟩
    · exact ⟨b, .rejected hbyte, rfl, hb⟩
    · rw [hok] at h
      cases h
  | outside h =>
    have hs : ByteStep key ds ps rt b .outside _ := .outside h
    refine ⟨_, hs, ?_, (byteStep_step hkey hb hs).1⟩
    show World.mk (b.world key ds).accounts _ _ = s'
    rw [← h.accounts]

theorem simulated_blank (h : b.Blank rt) : Simulated key ds rt b := by
  have hnone : ∀ k, (b.world key ds).accounts k = none := by
    intro k
    show (b.data k).bind _ = none
    rw [h.data]
    rfl
  exact ⟨reachable_init ⟨hnone, h.lawful⟩, fun k => .inl ⟨h.data k, hnone k⟩⟩

end Refines

/-! ## 4. Runs -/

namespace Demo

/-- Keys as 32 tokens each. -/
def keys : Codec (Spelling Key 32) Key := Spelling.codec

theorem keys_format : KeyFormat keys := ⟨fun _ => trivial, Spelling.length_spell⟩

def programs : Programs Key where
  token := .user 20
  associatedToken := .user 21
  system := .user 22
  rent := .user 23

end Demo

end MaximProtocol
