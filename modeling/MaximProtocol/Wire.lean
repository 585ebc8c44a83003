import MaximProtocol.Layouts

/-!
# Instruction data

What the data of an instruction says: which of the fifteen methods is called, as the first
eight bytes, and with which arguments, in Borsh.

1. `Call`: a method with its arguments;
2. its codec, over any alphabet that contains the bytes and any codec of keys;
3. over bytes, the argument codecs are the decoders of the client's data.

`readCall_eq_some`: data is read as a call exactly when it starts with the call's encoding.
-/

namespace MaximProtocol

open Codecs Codec

/-! ## 1. Calls -/

/-- The methods of the program module, in the order of the source. -/
inductive Method where
  | initProtocol
  | rotateProtocolAdmin
  | updateProtocolConfig
  | registerAgent
  | setSpendPolicy
  | settlePayment
  | recordPolicyViolation
  | deactivateAgent
  | reactivateAgent
  | freezeAgent
  | unfreezeAgent
  | withdrawFunds
  | transferOwnership
  | closeAgent
  | withdrawAll
  deriving DecidableEq

def Method.all : List Method :=
  [.initProtocol, .rotateProtocolAdmin, .updateProtocolConfig, .registerAgent, .setSpendPolicy,
    .settlePayment, .recordPolicyViolation, .deactivateAgent, .reactivateAgent, .freezeAgent,
    .unfreezeAgent, .withdrawFunds, .transferOwnership, .closeAgent, .withdrawAll]

theorem Method.mem_all (m : Method) : m ∈ Method.all := by
  cases m <;> decide

/-- A method and its arguments. -/
inductive Call (Pubkey : Type) where
  | initProtocol (admin : Pubkey)
  | rotateProtocolAdmin (newAdmin : Pubkey)
  | updateProtocolConfig (maxSinglePaymentUsdc : UInt64)
  | registerAgent (agentId : Bytes)
  | setSpendPolicy (params : SetSpendPolicyParams)
  | settlePayment (sequence : UInt64) (params : SettlePaymentParams Pubkey)
  | recordPolicyViolation (sequence : UInt64) (params : SettlePaymentParams Pubkey)
      (violationReason : UInt8)
  | deactivateAgent
  | reactivateAgent
  | freezeAgent
  | unfreezeAgent
  | withdrawFunds (amount : UInt64)
  | transferOwnership (newOwner : Pubkey)
  | closeAgent
  | withdrawAll

variable {Pubkey : Type}

def Call.method : Call Pubkey → Method
  | .initProtocol _ => .initProtocol
  | .rotateProtocolAdmin _ => .rotateProtocolAdmin
  | .updateProtocolConfig _ => .updateProtocolConfig
  | .registerAgent _ => .registerAgent
  | .setSpendPolicy _ => .setSpendPolicy
  | .settlePayment _ _ => .settlePayment
  | .recordPolicyViolation _ _ _ => .recordPolicyViolation
  | .deactivateAgent => .deactivateAgent
  | .reactivateAgent => .reactivateAgent
  | .freezeAgent => .freezeAgent
  | .unfreezeAgent => .unfreezeAgent
  | .withdrawFunds _ => .withdrawFunds
  | .transferOwnership _ => .transferOwnership
  | .closeAgent => .closeAgent
  | .withdrawAll => .withdrawAll

/-- The first 8 bytes of the data of Anchor's own instructions, which every program serves
unless it is built with `no-idl`. They act on the account of the IDL alone. -/
def IDL_IX_TAG_LE : Vector UInt8 8 := #v[64, 244, 188, 120, 167, 233, 105, 10]

/-- The first 8 bytes of the data of a call to each method. -/
structure MethodDiscriminators where
  disc : Method → Vector UInt8 8
  distinct : ∀ {m m'}, disc m = disc m' → m = m'
  not_idl : ∀ m, disc m ≠ IDL_IX_TAG_LE

/-! ## 2. Their encoding -/

section Codecs

variable {τ : Type} [Alphabet τ] (key : Codec τ Pubkey) (ms : MethodDiscriminators)

/-- `SetSpendPolicyParams`, in the order of the declaration. -/
def SetSpendPolicyParams.codec : Codec τ SetSpendPolicyParams :=
  (u64.prod <| u64.prod <| u64.prod <| u32.prod <| u32.prod <| u64.prod <| u64.prod <|
    (vec (array 32)).prod (vec (array 32))).via
    (fun (dailyBudget, weeklyBudget, perCallLimit, rateLimitCalls, rateLimitWindowSecs,
        highValueThreshold, monthlyBudget, allowedDomainHashes, blockedDomainHashes) =>
      { dailyBudget, weeklyBudget, perCallLimit, rateLimitCalls, rateLimitWindowSecs
        highValueThreshold, monthlyBudget, allowedDomainHashes, blockedDomainHashes })
    (fun p => (p.dailyBudget, p.weeklyBudget, p.perCallLimit, p.rateLimitCalls,
      p.rateLimitWindowSecs, p.highValueThreshold, p.monthlyBudget, p.allowedDomainHashes,
      p.blockedDomainHashes))
    fun _ => rfl

/-- `SettlePaymentParams`, in the order of the declaration. -/
def SettlePaymentParams.codec : Codec τ (SettlePaymentParams Pubkey) :=
  ((string validUtf8).prod <| (array 32).prod <| (array 32).prod <| u64.prod <| u8.prod <|
    (option key).prod (option (array 32))).via
    (fun (agentId, endpointHash, domainHash, amountUsdc, protocol, parentPayment, memo) =>
      { agentId, endpointHash, domainHash, amountUsdc, protocol, parentPayment, memo })
    (fun p => (p.agentId, p.endpointHash, p.domainHash, p.amountUsdc, p.protocol,
      p.parentPayment, p.memo))
    fun _ => rfl

def Method.codec : Codec τ Method :=
  (array 8).keyed ms.disc
    (fun v => match Method.all.find? fun m => ms.disc m = v with
      | some m => const m
      | none => fail) <| by
    intro v m hm
    split at hm
    · next m' h =>
      have hv := List.find?_some h
      rw [show m = m' from hm]
      exact of_decide_eq_true hv
    · exact hm.elim

/-- The arguments of each method. -/
def Method.args : Method → Codec τ (Call Pubkey)
  | .initProtocol =>
      key.case .initProtocol (fun | .initProtocol a => some a | _ => none)
        fun {_ c} => by cases c <;> simp
  | .rotateProtocolAdmin =>
      key.case .rotateProtocolAdmin (fun | .rotateProtocolAdmin a => some a | _ => none)
        fun {_ c} => by cases c <;> simp
  | .updateProtocolConfig =>
      u64.case .updateProtocolConfig (fun | .updateProtocolConfig a => some a | _ => none)
        fun {_ c} => by cases c <;> simp
  | .registerAgent =>
      (string validUtf8).case .registerAgent (fun | .registerAgent a => some a | _ => none)
        fun {_ c} => by cases c <;> simp
  | .setSpendPolicy =>
      SetSpendPolicyParams.codec.case .setSpendPolicy
        (fun | .setSpendPolicy a => some a | _ => none) fun {_ c} => by cases c <;> simp
  | .settlePayment =>
      (u64.prod (SettlePaymentParams.codec key)).case (fun x => .settlePayment x.1 x.2)
        (fun | .settlePayment n p => some (n, p) | _ => none)
        fun {_ c} => by cases c <;> simp [Prod.ext_iff, eq_comm]
  | .recordPolicyViolation =>
      (u64.prod ((SettlePaymentParams.codec key).prod u8)).case
        (fun x => .recordPolicyViolation x.1 x.2.1 x.2.2)
        (fun | .recordPolicyViolation n p r => some (n, p, r) | _ => none)
        fun {_ c} => by cases c <;> simp [Prod.ext_iff, eq_comm]
  | .deactivateAgent => const .deactivateAgent
  | .reactivateAgent => const .reactivateAgent
  | .freezeAgent => const .freezeAgent
  | .unfreezeAgent => const .unfreezeAgent
  | .withdrawFunds =>
      u64.case .withdrawFunds (fun | .withdrawFunds a => some a | _ => none)
        fun {_ c} => by cases c <;> simp
  | .transferOwnership =>
      key.case .transferOwnership (fun | .transferOwnership a => some a | _ => none)
        fun {_ c} => by cases c <;> simp
  | .closeAgent => const .closeAgent
  | .withdrawAll => const .withdrawAll

theorem args_method {m : Method} {c : Call Pubkey} (h : (m.args key).Valid c) :
    c.method = m := by
  cases m
  case deactivateAgent => rw [show c = .deactivateAgent from h]; rfl
  case reactivateAgent => rw [show c = .reactivateAgent from h]; rfl
  case freezeAgent => rw [show c = .freezeAgent from h]; rfl
  case unfreezeAgent => rw [show c = .unfreezeAgent from h]; rfl
  case closeAgent => rw [show c = .closeAgent from h]; rfl
  case withdrawAll => rw [show c = .withdrawAll from h]; rfl
  all_goals
    obtain ⟨a, rfl, _⟩ := h
    rfl

/-- A call: the discriminator of its method, and its arguments. -/
def Call.codec : Codec τ (Call Pubkey) :=
  (Method.codec ms).keyed Call.method (Method.args key) (args_method key)

/-- The call that data makes. Bytes left over at its end are ignored. -/
def readCall (data : List τ) : Option (Call Pubkey) :=
  ((Call.codec key ms).decode data).map Prod.fst

/-- The data is that of an instruction for the IDL. -/
def isIdl (data : List τ) : Bool := ((array 8).decode data).map Prod.fst = some IDL_IX_TAG_LE

/-- Parameters that can be written: lengths fit 32 bits, and strings are valid. -/
def SetSpendPolicyParams.Writable (p : SetSpendPolicyParams) : Prop :=
  p.allowedDomainHashes.length < 2 ^ 32 ∧ p.blockedDomainHashes.length < 2 ^ 32

def SettlePaymentParams.Writable (p : SettlePaymentParams Pubkey) : Prop :=
  (p.agentId.length < 2 ^ 32 ∧ validUtf8 p.agentId = true) ∧
    ∀ k, p.parentPayment = some k → key.Valid k

def Call.Writable : Call Pubkey → Prop
  | .initProtocol admin => key.Valid admin
  | .rotateProtocolAdmin newAdmin => key.Valid newAdmin
  | .registerAgent agentId => agentId.length < 2 ^ 32 ∧ validUtf8 agentId = true
  | .setSpendPolicy params => params.Writable
  | .settlePayment _ params => params.Writable key
  | .recordPolicyViolation _ params _ => params.Writable key
  | .transferOwnership newOwner => key.Valid newOwner
  | _ => True

variable {key} {ms}

theorem method_valid (m : Method) : (Method.codec ms : Codec τ Method).Valid m := by
  have hsome : (Method.all.find? fun m' => decide (ms.disc m' = ms.disc m)).isSome = true := by
    rw [List.find?_isSome]
    exact ⟨m, m.mem_all, decide_eq_true rfl⟩
  obtain ⟨m', hm'⟩ := Option.isSome_iff_exists.mp hsome
  have hdisc : decide (ms.disc m' = ms.disc m) = true :=
    List.find?_some (p := fun m' => decide (ms.disc m' = ms.disc m)) hm'
  rw [ms.distinct (of_decide_eq_true hdisc)] at hm'
  refine ⟨array_valid _, ?_⟩
  show (match Method.all.find? fun m' => decide (ms.disc m' = ms.disc m) with
    | some m => const m
    | none => fail : Codec τ Method).Valid m
  rw [hm']
  rfl

theorem policyParams_valid (p : SetSpendPolicyParams) :
    (SetSpendPolicyParams.codec : Codec τ _).Valid p ↔ p.Writable := by
  have hlist : ∀ l : List Hash,
      (vec (array 32) : Codec τ (List Hash)).Valid l ↔ l.length < 2 ^ 32 := by
    intro l
    rw [vec_valid]
    exact ⟨And.left, fun h => ⟨h, fun v _ => array_valid v⟩⟩
  simp only [SetSpendPolicyParams.codec, SetSpendPolicyParams.Writable, via_valid, prod_valid,
    hlist, u32_valid, u64_valid, and_true, true_and]

theorem paymentParams_valid (p : SettlePaymentParams Pubkey) :
    (SettlePaymentParams.codec key).Valid p ↔ p.Writable key := by
  have hmemo : (option (array 32 : Codec τ Hash)).Valid p.memo :=
    option_valid.mpr fun v _ => array_valid v
  have hparent := option_valid (c := key) (o := p.parentPayment)
  simp only [SettlePaymentParams.codec, SettlePaymentParams.Writable, via_valid, prod_valid,
    string_valid, hparent, array_valid, u8_valid, u64_valid, hmemo, and_true, true_and]

theorem args_valid (c : Call Pubkey) : (c.method.args key).Valid c ↔ c.Writable key := by
  cases c with
  | initProtocol k => exact ⟨fun h => by obtain ⟨_, ⟨⟩, h⟩ := h; exact h, fun h => ⟨k, rfl, h⟩⟩
  | rotateProtocolAdmin k =>
    exact ⟨fun h => by obtain ⟨_, ⟨⟩, h⟩ := h; exact h, fun h => ⟨k, rfl, h⟩⟩
  | updateProtocolConfig cap => exact ⟨fun _ => trivial, fun _ => ⟨cap, rfl, u64_valid cap⟩⟩
  | registerAgent agentId =>
    show _ ↔ agentId.length < 2 ^ 32 ∧ validUtf8 agentId = true
    rw [← string_valid (τ := τ)]
    exact ⟨fun h => by obtain ⟨_, ⟨⟩, h⟩ := h; exact h, fun h => ⟨agentId, rfl, h⟩⟩
  | setSpendPolicy p =>
    show _ ↔ p.Writable
    rw [← policyParams_valid (τ := τ)]
    exact ⟨fun h => by obtain ⟨_, ⟨⟩, h⟩ := h; exact h, fun h => ⟨p, rfl, h⟩⟩
  | settlePayment n p =>
    show _ ↔ p.Writable key
    rw [← paymentParams_valid]
    exact ⟨fun h => by obtain ⟨_, ⟨⟩, _, h⟩ := h; exact h, fun h => ⟨(n, p), rfl, u64_valid n, h⟩⟩
  | recordPolicyViolation n p r =>
    show _ ↔ p.Writable key
    rw [← paymentParams_valid]
    exact ⟨fun h => by obtain ⟨_, ⟨⟩, _, h, _⟩ := h; exact h,
      fun h => ⟨(n, p, r), rfl, u64_valid n, h, u8_valid r⟩⟩
  | deactivateAgent => exact ⟨fun _ => trivial, fun _ => rfl⟩
  | reactivateAgent => exact ⟨fun _ => trivial, fun _ => rfl⟩
  | freezeAgent => exact ⟨fun _ => trivial, fun _ => rfl⟩
  | unfreezeAgent => exact ⟨fun _ => trivial, fun _ => rfl⟩
  | withdrawFunds amount => exact ⟨fun _ => trivial, fun _ => ⟨amount, rfl, u64_valid amount⟩⟩
  | transferOwnership k =>
    exact ⟨fun h => by obtain ⟨_, ⟨⟩, h⟩ := h; exact h, fun h => ⟨k, rfl, h⟩⟩
  | closeAgent => exact ⟨fun _ => trivial, fun _ => rfl⟩
  | withdrawAll => exact ⟨fun _ => trivial, fun _ => rfl⟩

theorem method_encode (m : Method) :
    (Method.codec ms : Codec τ Method).encode m = ofBytes (ms.disc m).toList := by
  have hnil : ∀ o : Option Method, (match o with
      | some m => const m
      | none => fail : Codec τ Method).encode m = [] := by
    intro o
    cases o <;> rfl
  show (array 8).encode (ms.disc m) ++ _ = _
  rw [array_encode]
  exact (congrArg _ (hnil _)).trans (List.append_nil _)

/-- A call starts with the discriminator of its method. -/
theorem call_encode (c : Call Pubkey) : (Call.codec key ms).encode c =
    ofBytes (ms.disc c.method).toList ++ (c.method.args key).encode c := by
  show (Method.codec ms).encode c.method ++ _ = _
  rw [method_encode]

/-- Data that starts with the discriminator of a method is a call of it. -/
theorem readCall_disc (m : Method) (rest : List τ) :
    readCall key ms (ofBytes (ms.disc m).toList ++ rest) =
      ((m.args key).decode rest).map Prod.fst := by
  have hread := (Method.codec ms : Codec τ Method).reads (method_valid m) rest
  rw [method_encode] at hread
  unfold readCall
  show (Option.bind _ _).map _ = _
  rw [hread]
  rfl

/-- No call is for the IDL. -/
theorem call_not_idl (c : Call Pubkey) (tail : List τ) :
    isIdl ((Call.codec key ms).encode c ++ tail) = false := by
  have hread := (array 8).reads (array_valid (τ := τ) (ms.disc c.method))
    ((c.method.args key).encode c ++ tail)
  rw [array_encode] at hread
  rw [isIdl, call_encode, List.append_assoc, hread, decide_eq_false_iff_not]
  exact fun h => ms.not_idl _ (Option.some.inj h)

/-- Data is read as a call exactly when it starts with the encoding of the call. -/
theorem readCall_eq_some {data : List τ} {c : Call Pubkey} :
    readCall key ms data = some c ↔
      c.Writable key ∧ ∃ tail, data = (Call.codec key ms).encode c ++ tail := by
  have hvalid : (Call.codec key ms).Valid c ↔ c.Writable key := by
    rw [← args_valid]
    exact and_iff_right (method_valid _)
  unfold readCall
  simp only [Option.map_eq_some_iff, Prod.exists, exists_and_right, exists_eq_right,
    Codec.decode_eq_some, hvalid, exists_and_left]

end Codecs

/-! ## 3. The data the client sends -/

section Client

variable (ms : MethodDiscriminators)

theorem policyParams_decode :
    (SetSpendPolicyParams.codec : Codec UInt8 _).decode = decodeSetSpendPolicyParams := by
  have hhashes := vec_decode (array_decode 32)
  show (fun bs => ((_ : Codec UInt8 _).decode bs).map _) = _
  unfold decodeSetSpendPolicyParams
  rw [prod_decode u64_decode]
  refine congrArg _ (funext fun dailyBudget => ?_)
  rw [prod_decode u64_decode]
  refine congrArg _ (funext fun weeklyBudget => ?_)
  rw [prod_decode u64_decode]
  refine congrArg _ (funext fun perCallLimit => ?_)
  rw [prod_decode u32_decode]
  refine congrArg _ (funext fun rateLimitCalls => ?_)
  rw [prod_decode u32_decode]
  refine congrArg _ (funext fun rateLimitWindowSecs => ?_)
  rw [prod_decode u64_decode]
  refine congrArg _ (funext fun highValueThreshold => ?_)
  rw [prod_decode u64_decode]
  refine congrArg _ (funext fun monthlyBudget => ?_)
  rw [prod_decode hhashes]
  refine congrArg _ (funext fun allowedDomainHashes => ?_)
  exact last_decode hhashes _

theorem paymentParams_decode :
    (SettlePaymentParams.codec (array 32)).decode = decodeSettlePaymentParams := by
  have hoption := option_decode (array_decode 32)
  show (fun bs => ((_ : Codec UInt8 _).decode bs).map _) = _
  unfold decodeSettlePaymentParams
  rw [prod_decode (string_decode validUtf8)]
  refine congrArg _ (funext fun agentId => ?_)
  rw [prod_decode (array_decode 32)]
  refine congrArg _ (funext fun endpointHash => ?_)
  rw [prod_decode (array_decode 32)]
  refine congrArg _ (funext fun domainHash => ?_)
  rw [prod_decode u64_decode]
  refine congrArg _ (funext fun amountUsdc => ?_)
  rw [prod_decode u8_decode]
  refine congrArg _ (funext fun protocol => ?_)
  rw [prod_decode hoption]
  refine congrArg _ (funext fun parentPayment => ?_)
  exact last_decode hoption _

end Client

end MaximProtocol
