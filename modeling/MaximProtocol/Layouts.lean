import MaximProtocol.Space
import MaximProtocol.Library.Codec

/-!
# Account layouts

What Anchor writes for each account type and reads back: an eight-byte discriminator, and
the fields in the order of their declaration. Each layout is one codec, over any alphabet
that contains the bytes and any codec of keys.

1. the four layouts;
2. `expand`: serialised values in such an alphabet, which is what the layouts write;
3. `readAccount`: an account of any kind, read by its discriminator.

`account_data_iff`: data loads as an account exactly when it starts with the account's
serialised value. Over bytes, with the keys as arrays of 32, data is what the chain stores.
-/

namespace MaximProtocol

open MachineInt World Codecs Codec

variable {Pubkey : Type}

/-! ## 1. The four layouts -/

section Layouts

variable {τ : Type} [Alphabet τ] (key : Codec τ Pubkey)

/-- Borsh writes an enum as the index of the variant. -/
def PaymentProtocol.codec : Codec τ PaymentProtocol :=
  u8.keyed PaymentProtocol.tag
    (fun tag => if tag = 0 then const .x402 else if tag = 1 then const .mpp else fail) <| by
    intro tag p hp
    split at hp
    · next h => rw [show p = .x402 from hp, h]; rfl
    · split at hp
      · next h => rw [show p = .mpp from hp, h]; rfl
      · exact hp.elim

def AgentWallet.codec : Codec τ (AgentWallet Pubkey) :=
  ((string validUtf8).prod <| key.prod <| key.prod <| u64.prod <| i64.prod <| u64.prod <|
    i64.prod <| u64.prod <| i64.prod <| u64.prod <| u64.prod <| u64.prod <| i64.prod <|
    bool.prod <| bool.prod u8).via
    (fun (agentId, owner, usdcTokenAccount, dailySpend, dailyWindowStart, weeklySpend,
        weeklyWindowStart, monthlySpend, monthlyWindowStart, paymentSequence, totalPayments,
        totalVolume, lastPaymentAt, isActive, isFrozen, bump) =>
      { agentId, owner, usdcTokenAccount, dailySpend, dailyWindowStart, weeklySpend
        weeklyWindowStart, monthlySpend, monthlyWindowStart, paymentSequence, totalPayments
        totalVolume, lastPaymentAt, isActive, isFrozen, bump })
    (fun w => (w.agentId, w.owner, w.usdcTokenAccount, w.dailySpend, w.dailyWindowStart,
      w.weeklySpend, w.weeklyWindowStart, w.monthlySpend, w.monthlyWindowStart,
      w.paymentSequence, w.totalPayments, w.totalVolume, w.lastPaymentAt, w.isActive,
      w.isFrozen, w.bump))
    fun _ => rfl

def SpendPolicy.codec : Codec τ (SpendPolicy Pubkey) :=
  (key.prod <| u64.prod <| u64.prod <| u64.prod <| u64.prod <| u32.prod <| u32.prod <|
    u32.prod <| i64.prod <| u64.prod <| (vec (array 32)).prod <| (vec (array 32)).prod u8).via
    (fun (agentWallet, dailyBudget, weeklyBudget, monthlyBudget, perCallLimit, rateLimitCalls,
        rateLimitWindowSecs, rateLimitCallCount, rateLimitWindowStart, highValueThreshold,
        allowedDomainHashes, blockedDomainHashes, bump) =>
      { agentWallet, dailyBudget, weeklyBudget, monthlyBudget, perCallLimit, rateLimitCalls
        rateLimitWindowSecs, rateLimitCallCount, rateLimitWindowStart, highValueThreshold
        allowedDomainHashes, blockedDomainHashes, bump })
    (fun p => (p.agentWallet, p.dailyBudget, p.weeklyBudget, p.monthlyBudget, p.perCallLimit,
      p.rateLimitCalls, p.rateLimitWindowSecs, p.rateLimitCallCount, p.rateLimitWindowStart,
      p.highValueThreshold, p.allowedDomainHashes, p.blockedDomainHashes, p.bump))
    fun _ => rfl

def PaymentRecord.codec : Codec τ (PaymentRecord Pubkey) :=
  (key.prod <| u64.prod <| (array 32).prod <| key.prod <| u64.prod <|
    PaymentProtocol.codec.prod <| i64.prod <| bool.prod <| (option key).prod u8).via
    (fun (agentWallet, sequence, endpointHash, payee, amountUsdc, protocol, settledAt,
        policyPassed, parentPayment, bump) =>
      { agentWallet, sequence, endpointHash, payee, amountUsdc, protocol, settledAt
        policyPassed, parentPayment, bump })
    (fun r => (r.agentWallet, r.sequence, r.endpointHash, r.payee, r.amountUsdc, r.protocol,
      r.settledAt, r.policyPassed, r.parentPayment, r.bump))
    fun _ => rfl

def ProtocolConfig.codec : Codec τ (ProtocolConfig Pubkey) :=
  (key.prod <| u8.prod <| u64.prod u8).via
    (fun (admin, version, maxSinglePaymentUsdc, bump) =>
      { admin, version, maxSinglePaymentUsdc, bump })
    (fun c => (c.admin, c.version, c.maxSinglePaymentUsdc, c.bump))
    fun _ => rfl

end Layouts

/-! ## 2. Writing -/

section Writing

variable {τ : Type} [Alphabet τ] (key : Codec τ Pubkey)

def Datum.tokens : Datum Pubkey → List τ
  | .byte b => [Alphabet.ofByte b]
  | .key k => key.encode k

/-- Serialised data, with each key as its codec writes it. -/
def expand (l : List (Datum Pubkey)) : List τ := l.flatMap (Datum.tokens key)

@[simp] theorem expand_nil : expand key ([] : List (Datum Pubkey)) = [] := rfl

@[simp] theorem expand_byte (b : UInt8) (l : List (Datum Pubkey)) :
    expand key (.byte b :: l) = Alphabet.ofByte b :: expand key l := rfl

@[simp] theorem expand_key (k : Pubkey) (l : List (Datum Pubkey)) :
    expand key (.key k :: l) = key.encode k ++ expand key l := rfl

@[simp] theorem expand_append (l m : List (Datum Pubkey)) :
    expand key (l ++ m) = expand key l ++ expand key m := List.flatMap_append

@[simp] theorem expand_bytes (l : List UInt8) : expand key (bytes l) = ofBytes l := by
  induction l with
  | nil => rfl
  | cons b l ih =>
    show expand key (.byte b :: bytes l) = _
    rw [expand_byte, ih]
    rfl

/-- Where keys are 32 tokens long, the length is the number of bytes. -/
theorem length_expand {key : Codec τ Pubkey} (h : ∀ k, (key.encode k).length = 32)
    (l : List (Datum Pubkey)) : (expand key l).length = width l := by
  induction l with
  | nil => rfl
  | cons d l ih =>
    cases d with
    | byte b => rw [expand_byte, List.length_cons, ih, width_cons, width_byte, Nat.add_comm]
    | key k => rw [expand_key, List.length_append, ih, width_cons, width_key, h]

def ProtocolConfig.LEN : Nat := 8 + 32 + 1 + 8 + 1

def ProtocolConfig.serialize (disc : Vector UInt8 8) (c : ProtocolConfig Pubkey) :
    List (Datum Pubkey) :=
  bytes disc.toList ++ (.key c.admin :: .byte c.version ::
    (bytes (Borsh.encU64 c.maxSinglePaymentUsdc) ++ [.byte c.bump]))

theorem u8_encode (b : UInt8) : (u8 : Codec τ UInt8).encode b = [Alphabet.ofByte b] :=
  rfl

theorem i64_encode (x : Int64) : (i64 : Codec τ Int64).encode x = ofBytes (encI64 x) :=
  u64_encode x.toUInt64

theorem bool_encode (b : Bool) :
    (bool : Codec τ Bool).encode b = expand key [encBool b] := by
  cases b <;> rfl

theorem protocol_encode (p : PaymentProtocol) :
    (PaymentProtocol.codec : Codec τ _).encode p = [Alphabet.ofByte p.tag] := by
  cases p <;> rfl

theorem parent_encode (o : Option Pubkey) :
    (option key).encode o = expand key (encParent o) := by
  cases o with
  | none => rfl
  | some k =>
    rw [option_encode, encParent, expand_byte, expand_key, expand_nil, List.append_nil]
    rfl

theorem hashes_encode {l : List Hash} (h : l.length < 2 ^ 32) :
    (vec (array 32) : Codec τ (List Hash)).encode l = expand key (encHashes l) := by
  have hflat : expand key (l.flatMap fun h => bytes h.toList) =
      l.flatMap (array 32 : Codec τ Hash).encode := by
    unfold expand
    rw [List.flatMap_assoc]
    refine List.flatMap_congr fun v _ => ?_
    rw [array_encode]
    exact expand_bytes key v.toList
  rw [vec_encode h, encHashes, expand_append, expand_bytes, hflat]

/-- A value its layout can write. Only strings and vectors can fail to be. -/
def AgentWallet.Storable (w : AgentWallet Pubkey) : Prop :=
  w.agentId.length < 2 ^ 32 ∧ validUtf8 w.agentId = true

def SpendPolicy.Storable (p : SpendPolicy Pubkey) : Prop :=
  p.allowedDomainHashes.length < 2 ^ 32 ∧ p.blockedDomainHashes.length < 2 ^ 32

end Writing

section Layouts

variable {τ : Type} [Alphabet τ] {key : Codec τ Pubkey}

theorem wallet_valid (hkey : ∀ k, key.Valid k) (w : AgentWallet Pubkey) :
    (AgentWallet.codec key).Valid w ↔ w.Storable := by
  simp only [AgentWallet.codec, via_valid, prod_valid, string_valid, u8_valid, u64_valid,
    i64_valid, bool_valid, hkey, AgentWallet.Storable, and_true]

theorem policy_valid (hkey : ∀ k, key.Valid k) (p : SpendPolicy Pubkey) :
    (SpendPolicy.codec key).Valid p ↔ p.Storable := by
  have hlist : ∀ l : List Hash, (vec (array 32) : Codec τ (List Hash)).Valid l ↔
      l.length < 2 ^ 32 := by
    intro l
    rw [vec_valid]
    exact ⟨And.left, fun h => ⟨h, fun v _ => array_valid v⟩⟩
  simp only [SpendPolicy.codec, via_valid, prod_valid, hlist, u8_valid, u32_valid, u64_valid,
    i64_valid, hkey, SpendPolicy.Storable, and_true, true_and]

theorem record_valid (hkey : ∀ k, key.Valid k) (r : PaymentRecord Pubkey) :
    (PaymentRecord.codec key).Valid r := by
  have hprotocol : (PaymentProtocol.codec : Codec τ _).Valid r.protocol := by
    cases r.protocol <;> exact ⟨trivial, rfl⟩
  have hparent : (option key).Valid r.parentPayment := option_valid.mpr fun k _ => hkey k
  simp only [PaymentRecord.codec, via_valid, prod_valid, u8_valid, u64_valid, i64_valid,
    bool_valid, array_valid, hkey, hprotocol, hparent, and_true]

theorem config_valid (hkey : ∀ k, key.Valid k) (c : ProtocolConfig Pubkey) :
    (ProtocolConfig.codec key).Valid c := by
  simp only [ProtocolConfig.codec, via_valid, prod_valid, u8_valid, u64_valid, hkey, and_true]

variable (disc : Vector UInt8 8)

theorem wallet_expand {w : AgentWallet Pubkey} (h : w.Storable) :
    expand key (w.serialize disc) = ofBytes disc.toList ++ (AgentWallet.codec key).encode w := by
  simp only [AgentWallet.codec, via_encode, prod_encode, string_encode h.1, u64_encode,
    i64_encode, bool_encode key, u8_encode, AgentWallet.serialize, encString, expand_append,
    expand_bytes, expand_key, List.append_assoc, List.cons_append, List.nil_append]
  rfl

theorem policy_expand {p : SpendPolicy Pubkey} (h : p.Storable) :
    expand key (p.serialize disc) = ofBytes disc.toList ++ (SpendPolicy.codec key).encode p := by
  simp only [SpendPolicy.codec, via_encode, prod_encode, hashes_encode key h.1,
    hashes_encode key h.2, u64_encode, u32_encode, i64_encode, u8_encode, SpendPolicy.serialize,
    expand_append, expand_bytes, expand_key, expand_byte, expand_nil, List.append_assoc,
    List.cons_append, List.nil_append]

theorem record_expand (r : PaymentRecord Pubkey) :
    expand key (r.serialize disc) = ofBytes disc.toList ++ (PaymentRecord.codec key).encode r := by
  simp only [PaymentRecord.codec, via_encode, prod_encode, array_encode, u64_encode, i64_encode,
    bool_encode key, protocol_encode, parent_encode key, u8_encode, PaymentRecord.serialize,
    expand_append, expand_bytes, expand_key, expand_byte, expand_nil, List.cons_append,
    List.nil_append]
  rfl

theorem config_expand (c : ProtocolConfig Pubkey) :
    expand key (c.serialize disc) =
      ofBytes disc.toList ++ (ProtocolConfig.codec key).encode c := by
  simp only [ProtocolConfig.codec, via_encode, prod_encode, u64_encode, u8_encode,
    ProtocolConfig.serialize, expand_append, expand_bytes, expand_key, expand_byte, expand_nil,
    List.cons_append, List.nil_append]

end Layouts

/-! ## 3. Accounts of any kind -/

/-- The discriminators of the four account types: the first 8 bytes of a hash of the
type's name. -/
structure Discriminators where
  protocolConfig : Vector UInt8 8
  agentWallet : Vector UInt8 8
  spendPolicy : Vector UInt8 8
  paymentRecord : Vector UInt8 8
  distinct : [protocolConfig, agentWallet, spendPolicy, paymentRecord].Nodup

namespace ProgramAccount

def disc (ds : Discriminators) : ProgramAccount Pubkey → Vector UInt8 8
  | .protocolConfig _ => ds.protocolConfig
  | .agentWallet _ => ds.agentWallet
  | .spendPolicy _ => ds.spendPolicy
  | .paymentRecord _ => ds.paymentRecord

def serialize (ds : Discriminators) : ProgramAccount Pubkey → List (Datum Pubkey)
  | .protocolConfig c => c.serialize ds.protocolConfig
  | .agentWallet w => w.serialize ds.agentWallet
  | .spendPolicy p => p.serialize ds.spendPolicy
  | .paymentRecord r => r.serialize ds.paymentRecord

def Storable : ProgramAccount Pubkey → Prop
  | .agentWallet w => w.Storable
  | .spendPolicy p => p.Storable
  | _ => True

end ProgramAccount

section Loads

variable {τ : Type} [Alphabet τ]

/-- `T::try_deserialize`: the discriminator of the type, and a value of it. What follows
is not looked at. -/
def tryDeserialize {α : Type} (disc : Vector UInt8 8) (c : Codec τ α) (data : List τ) : Option α :=
  ((array 8).decode data).bind fun x =>
    if x.1 = disc then (c.decode x.2).map Prod.fst else none

/-- The account that is in `data`, of whatever kind. -/
def readAccount (key : Codec τ Pubkey) (ds : Discriminators) (data : List τ) :
    Option (ProgramAccount Pubkey) :=
  (tryDeserialize ds.protocolConfig (ProtocolConfig.codec key) data).map .protocolConfig <|>
  (tryDeserialize ds.agentWallet (AgentWallet.codec key) data).map .agentWallet <|>
  (tryDeserialize ds.spendPolicy (SpendPolicy.codec key) data).map .spendPolicy <|>
  (tryDeserialize ds.paymentRecord (PaymentRecord.codec key) data).map .paymentRecord

theorem tryDeserialize_eq_some {α : Type} {disc : Vector UInt8 8} {c : Codec τ α}
    {data : List τ} {a : α} :
    tryDeserialize disc c data = some a ↔
      c.Valid a ∧ ∃ tail, data = ofBytes disc.toList ++ c.encode a ++ tail := by
  unfold tryDeserialize
  simp only [Option.bind_eq_some_iff, Prod.exists, Codec.decode_eq_some, array_valid, true_and,
    array_encode]
  constructor
  · rintro ⟨d, mid, rfl, h⟩
    by_cases hd : d = disc
    · rw [if_pos hd, Option.map_eq_some_iff] at h
      obtain ⟨⟨a', tail⟩, h, rfl⟩ := h
      obtain ⟨hv, rfl⟩ := c.writes h
      exact ⟨hv, tail, by rw [hd, List.append_assoc]⟩
    · rw [if_neg hd] at h
      cases h
  · rintro ⟨hv, tail, rfl⟩
    refine ⟨disc, c.encode a ++ tail, List.append_assoc _ _ _, ?_⟩
    rw [if_pos rfl, c.reads hv]
    rfl

variable {key : Codec τ Pubkey} {ds : Discriminators} {data : List τ}

theorem tryDeserialize_other {α : Type} {disc disc' : Vector UInt8 8} {c : Codec τ α}
    (h : disc ≠ disc') (rest : List τ) :
    tryDeserialize disc c (ofBytes disc'.toList ++ rest) = none := by
  have hread : (array 8).decode (ofBytes disc'.toList ++ rest) = some (disc', rest) := by
    rw [Codec.decode_eq_some, array_encode]
    exact ⟨array_valid _, rfl⟩
  unfold tryDeserialize
  rw [hread, Option.bind_some, if_neg (Ne.symm h)]

theorem loads_config (hkey : ∀ k, key.Valid k) {c : ProtocolConfig Pubkey} :
    tryDeserialize ds.protocolConfig (ProtocolConfig.codec key) data = some c ↔
      ∃ tail, data = expand key (c.serialize ds.protocolConfig) ++ tail := by
  rw [tryDeserialize_eq_some, config_expand, and_iff_right (config_valid hkey c)]

theorem loads_wallet (hkey : ∀ k, key.Valid k) {w : AgentWallet Pubkey} :
    tryDeserialize ds.agentWallet (AgentWallet.codec key) data = some w ↔
      w.Storable ∧ ∃ tail, data = expand key (w.serialize ds.agentWallet) ++ tail := by
  rw [tryDeserialize_eq_some, wallet_valid hkey]
  exact and_congr_right fun h => by rw [wallet_expand _ h]

theorem loads_policy (hkey : ∀ k, key.Valid k) {p : SpendPolicy Pubkey} :
    tryDeserialize ds.spendPolicy (SpendPolicy.codec key) data = some p ↔
      p.Storable ∧ ∃ tail, data = expand key (p.serialize ds.spendPolicy) ++ tail := by
  rw [tryDeserialize_eq_some, policy_valid hkey]
  exact and_congr_right fun h => by rw [policy_expand _ h]

theorem loads_record (hkey : ∀ k, key.Valid k) {r : PaymentRecord Pubkey} :
    tryDeserialize ds.paymentRecord (PaymentRecord.codec key) data = some r ↔
      ∃ tail, data = expand key (r.serialize ds.paymentRecord) ++ tail := by
  rw [tryDeserialize_eq_some, record_expand, and_iff_right (record_valid hkey r)]

/-- The serialised value of an account starts with the discriminator of its kind. -/
theorem serialize_disc (ds : Discriminators) (a : ProgramAccount Pubkey) :
    ∃ rest, a.serialize ds = bytes (a.disc ds).toList ++ rest := by
  cases a with
  | protocolConfig c => exact ⟨_, rfl⟩
  | agentWallet w =>
    show ∃ rest, w.serialize ds.agentWallet = _ ++ rest
    unfold AgentWallet.serialize
    simp only [List.append_assoc]
    exact ⟨_, rfl⟩
  | spendPolicy p =>
    show ∃ rest, p.serialize ds.spendPolicy = _ ++ rest
    unfold SpendPolicy.serialize
    simp only [List.append_assoc]
    exact ⟨_, rfl⟩
  | paymentRecord r => exact ⟨_, rfl⟩

/-- An account of one kind does not load as another. -/
theorem loads_other {α : Type} {disc : Vector UInt8 8} {c : Codec τ α}
    {a : ProgramAccount Pubkey} (h : disc ≠ a.disc ds) (tail : List τ) :
    tryDeserialize disc c (expand key (a.serialize ds) ++ tail) = none := by
  obtain ⟨rest, hrest⟩ := serialize_disc ds a
  rw [hrest, expand_append, expand_bytes, List.append_assoc]
  exact tryDeserialize_other h _

/-- What `readAccount` returns is in the data. -/
theorem data_of_read (hkey : ∀ k, key.Valid k) {a : ProgramAccount Pubkey}
    (h : readAccount key ds data = some a) :
    a.Storable ∧ ∃ tail, data = expand key (a.serialize ds) ++ tail := by
  simp only [readAccount, Option.orElse_eq_orElse, Option.orElse_eq_or, Option.or_eq_some_iff,
    Option.map_eq_some_iff] at h
  rcases h with ⟨c, hc, rfl⟩ | ⟨_, ⟨w, hw, rfl⟩ | ⟨_, ⟨p, hp, rfl⟩ | ⟨_, r, hr, rfl⟩⟩⟩
  · exact ⟨trivial, (loads_config hkey).mp hc⟩
  · exact (loads_wallet hkey).mp hw
  · exact (loads_policy hkey).mp hp
  · exact ⟨trivial, (loads_record hkey).mp hr⟩

/-- The four loads of data that starts with an account: the one of its kind finds it. -/
theorem loads_serialized (hkey : ∀ k, key.Valid k) {a : ProgramAccount Pubkey} (h : a.Storable)
    (htail : ∃ tail, data = expand key (a.serialize ds) ++ tail) :
    tryDeserialize ds.protocolConfig (ProtocolConfig.codec key) data = a.config? ∧
      tryDeserialize ds.agentWallet (AgentWallet.codec key) data = a.wallet? ∧
      tryDeserialize ds.spendPolicy (SpendPolicy.codec key) data = a.policy? ∧
      tryDeserialize ds.paymentRecord (PaymentRecord.codec key) data = a.record? := by
  have hne := ds.distinct
  simp only [List.nodup_cons, List.mem_cons, List.not_mem_nil, or_false, not_or,
    List.nodup_nil, not_false_eq_true, and_true] at hne
  obtain ⟨⟨hcw, hcp, hcr⟩, ⟨hwp, hwr⟩, hpr⟩ := hne
  have hother : ∀ {α : Type} {disc : Vector UInt8 8} {c : Codec τ α}, disc ≠ a.disc ds →
      tryDeserialize disc c data = none := by
    intro α disc c hdisc
    obtain ⟨tail, rfl⟩ := htail
    exact loads_other hdisc tail
  cases a with
  | protocolConfig c =>
    exact ⟨(loads_config hkey).mpr htail, hother (Ne.symm hcw), hother (Ne.symm hcp),
      hother (Ne.symm hcr)⟩
  | agentWallet w =>
    exact ⟨hother hcw, (loads_wallet hkey).mpr ⟨h, htail⟩, hother (Ne.symm hwp),
      hother (Ne.symm hwr)⟩
  | spendPolicy p =>
    exact ⟨hother hcp, hother hwp, (loads_policy hkey).mpr ⟨h, htail⟩, hother (Ne.symm hpr)⟩
  | paymentRecord r =>
    exact ⟨hother hcr, hother hwr, hother hpr, (loads_record hkey).mpr htail⟩

theorem read_serialized (hkey : ∀ k, key.Valid k) {a : ProgramAccount Pubkey} (h : a.Storable)
    (tail : List τ) : readAccount key ds (expand key (a.serialize ds) ++ tail) = some a := by
  obtain ⟨hc, hw, hp, hr⟩ := loads_serialized hkey h ⟨tail, rfl⟩
  unfold readAccount
  rw [hc, hw, hp, hr]
  cases a <;> rfl

end Loads

/-- **Data loads as an account exactly when it starts with its serialised value**, whatever
follows; and each type's `try_deserialize` finds in it the account of that type or none. -/
theorem account_data_iff {τ : Type} [Alphabet τ] (key : Codec τ Pubkey)
    (hkey : ∀ k, key.Valid k) (ds : Discriminators) (data : List τ) :
    (∀ a, readAccount key ds data = some a ↔
      a.Storable ∧ ∃ tail, data = expand key (a.serialize ds) ++ tail) ∧
    tryDeserialize ds.protocolConfig (ProtocolConfig.codec key) data =
      (readAccount key ds data).bind ProgramAccount.config? ∧
    tryDeserialize ds.agentWallet (AgentWallet.codec key) data =
      (readAccount key ds data).bind ProgramAccount.wallet? ∧
    tryDeserialize ds.spendPolicy (SpendPolicy.codec key) data =
      (readAccount key ds data).bind ProgramAccount.policy? ∧
    tryDeserialize ds.paymentRecord (PaymentRecord.codec key) data =
      (readAccount key ds data).bind ProgramAccount.record? := by
  refine ⟨fun a => ⟨data_of_read hkey, ?_⟩, ?_⟩
  · rintro ⟨h, tail, rfl⟩
    exact read_serialized hkey h tail
  · cases hread : readAccount key ds data with
    | some a =>
      obtain ⟨h, htail⟩ := data_of_read hkey hread
      exact loads_serialized hkey h htail
    | none =>
      -- a load that finds something is one of those `readAccount` tries
      simp only [readAccount, Option.orElse_eq_orElse, Option.orElse_eq_or, Option.or_eq_none_iff,
        Option.map_eq_none_iff] at hread
      exact hread

namespace Demo

/-- The first 8 bytes of the SHA-256 of `account:` and the type's name. -/
def discriminators : Discriminators where
  protocolConfig := #v[207, 91, 250, 28, 152, 179, 215, 209]
  agentWallet := #v[127, 35, 180, 143, 201, 1, 100, 50]
  spendPolicy := #v[139, 90, 209, 31, 205, 15, 68, 243]
  paymentRecord := #v[202, 168, 56, 249, 127, 226, 86, 226]
  distinct := by decide

/-- The configuration as its 50 bytes: the admin's key, version 1, no cap and the bump. -/
def configData : List UInt8 :=
  [207, 91, 250, 28, 152, 179, 215, 209] ++ List.replicate 32 7 ++ [1] ++ List.replicate 8 0 ++
    [255]

def configValue : ProtocolConfig (Vector UInt8 32) where
  admin := Vector.replicate 32 7
  version := 1
  maxSinglePaymentUsdc := 0
  bump := 255

end Demo

/-- The bytes of a configuration. -/
theorem account_data_iff_config :
    readAccount (array 32) Demo.discriminators Demo.configData =
      some (.protocolConfig Demo.configValue) :=
  ((account_data_iff (array 32) array_valid Demo.discriminators Demo.configData).1 _).mpr
    ⟨trivial, [], by decide +kernel⟩

end MaximProtocol
