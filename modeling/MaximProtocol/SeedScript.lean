import MaximProtocol.Entrypoint

/-!
# The instructions of `scripts/seed.ts`

The five instruction builders of the script with their data and their account lists, over
any alphabet that contains the bytes and any codec of keys.

`seed_script_outcomes`: what the program makes of them. The data of a policy has no monthly
budget, which is read from the bytes of the lists. The data of a settlement and of a
violation stops before `memo`; and a settlement leaves out `protocol_config`, so it is refused
with any data.
-/

namespace MaximProtocol

open MachineInt World Codecs Codec
open Borsh (encU32 encU64)

variable {τ Pubkey : Type}

namespace Script

/-! ## 1. The builders -/

/-- The interface `PaymentParams`, with keys of any type. -/
structure PaymentParams (Pubkey : Type) where
  agentId : Bytes
  endpointHash : Hash
  domainHash : Hash
  amountUsdc : UInt64
  protocol : UInt8
  parentPayment : Option Pubkey
  agentId_utf8 : validUtf8 agentId = true
  /-- `encU32` throws on a longer string. -/
  agentId_length : agentId.length < 2 ^ 32

section Builders

variable [Alphabet τ] (key : Codec τ Pubkey) (ms : MethodDiscriminators) (ps : Programs Pubkey)
variable (rt : Runtime Pubkey)

def encOptPk : Option Pubkey → List τ
  | some pk => ofBytes [1] ++ key.encode pk
  | none => ofBytes [0]

/-- `findProgramAddressSync`, which throws where there is no address. -/
def pda (seeds : Seeds Pubkey) : Option Pubkey := (rt.findProgramAddress seeds).map Prod.fst

def initProtocolIx (deployer admin : Pubkey) : Option (RawInstruction τ Pubkey) := do
  let configPda ← pda rt .protocolConfig
  pure
    { accounts := [⟨configPda, false, true⟩, ⟨deployer, true, true⟩, ⟨ps.system, false, false⟩]
      data := ofBytes (ms.disc .initProtocol).toList ++ key.encode admin }

def registerAgentIx (agentId : Bytes) (usdcMint owner : Pubkey) :
    Option (RawInstruction τ Pubkey) := do
  let walletPda ← pda rt (.agentWallet agentId)
  let agentAta := rt.associatedTokenAddress walletPda usdcMint
  pure
    { accounts := [⟨walletPda, false, true⟩, ⟨agentAta, false, true⟩, ⟨usdcMint, false, false⟩,
        ⟨owner, true, true⟩, ⟨ps.token, false, false⟩, ⟨ps.associatedToken, false, false⟩,
        ⟨ps.system, false, false⟩, ⟨ps.rent, false, false⟩]
      data := ofBytes (ms.disc .registerAgent).toList ++ ofBytes (Client.encStr agentId) }

def setSpendPolicyIx (agentId : Bytes) (params : Client.SpendPolicyParams) (owner : Pubkey) :
    Option (RawInstruction τ Pubkey) := do
  let walletPda ← pda rt (.agentWallet agentId)
  let policyPda ← pda rt (.spendPolicy walletPda)
  pure
    { accounts := [⟨policyPda, false, true⟩, ⟨walletPda, false, false⟩, ⟨owner, true, true⟩,
        ⟨ps.system, false, false⟩]
      data := ofBytes (Client.setSpendPolicyIx (ms.disc .setSpendPolicy) params) }

/-- `paramBytes` of the two payment builders. -/
def paramBytes (params : PaymentParams Pubkey) : List τ :=
  ofBytes (Client.encStr params.agentId) ++ (ofBytes params.endpointHash.toList ++
    (ofBytes params.domainHash.toList ++ (ofBytes (encU64 params.amountUsdc) ++
    (ofBytes [params.protocol] ++ encOptPk key params.parentPayment))))

def settlePaymentData (sequence : UInt64) (params : PaymentParams Pubkey) : List τ :=
  ofBytes (ms.disc .settlePayment).toList ++ (ofBytes (encU64 sequence) ++ paramBytes key params)

def recordViolationData (sequence : UInt64) (params : PaymentParams Pubkey)
    (violationReason : UInt8) : List τ :=
  ofBytes (ms.disc .recordPolicyViolation).toList ++ (ofBytes (encU64 sequence) ++
    (paramBytes key params ++ ofBytes [violationReason]))

def settlePaymentIx (sequence : UInt64) (params : PaymentParams Pubkey)
    (usdcMint payeeTokenAccount owner : Pubkey) : Option (RawInstruction τ Pubkey) := do
  let walletPda ← pda rt (.agentWallet params.agentId)
  let policyPda ← pda rt (.spendPolicy walletPda)
  let recordPda ← pda rt (.paymentRecord walletPda sequence)
  let agentAta := rt.associatedTokenAddress walletPda usdcMint
  pure
    { accounts := [⟨recordPda, false, true⟩, ⟨walletPda, false, true⟩, ⟨policyPda, false, true⟩,
        ⟨agentAta, false, true⟩, ⟨payeeTokenAccount, false, true⟩, ⟨usdcMint, false, false⟩,
        ⟨owner, true, true⟩, ⟨ps.token, false, false⟩, ⟨ps.system, false, false⟩]
      data := settlePaymentData key ms sequence params }

def recordViolationIx (sequence : UInt64) (params : PaymentParams Pubkey)
    (violationReason : UInt8) (owner : Pubkey) : Option (RawInstruction τ Pubkey) := do
  let walletPda ← pda rt (.agentWallet params.agentId)
  let recordPda ← pda rt (.paymentRecord walletPda sequence)
  pure
    { accounts := [⟨recordPda, false, true⟩, ⟨walletPda, false, true⟩, ⟨owner, true, true⟩,
        ⟨ps.system, false, false⟩]
      data := recordViolationData key ms sequence params violationReason }

end Builders

/-- The parameters that are meant: without a memo. -/
def PaymentParams.meant (p : PaymentParams Pubkey) : SettlePaymentParams Pubkey where
  agentId := p.agentId
  endpointHash := p.endpointHash
  domainHash := p.domainHash
  amountUsdc := p.amountUsdc
  protocol := p.protocol
  parentPayment := p.parentPayment
  memo := none

end Script

/-- The parameters that are meant, and a monthly budget. -/
def Client.SpendPolicyParams.meant (p : Client.SpendPolicyParams) (monthlyBudget : UInt64) :
    SetSpendPolicyParams where
  dailyBudget := p.dailyBudget
  weeklyBudget := p.weeklyBudget
  perCallLimit := p.perCallLimit
  rateLimitCalls := p.rateLimitCalls
  rateLimitWindowSecs := p.rateLimitWindowSecs
  highValueThreshold := p.highValueThreshold
  monthlyBudget := monthlyBudget
  allowedDomainHashes := p.allowedDomainHashes
  blockedDomainHashes := p.blockedDomainHashes

/-- What the program reads of a policy that is sent. The bytes at which the lists start are
its monthly budget, and its lists are read from those after them. -/
structure Client.SpendPolicyParams.ReadAs (c : Client.SpendPolicyParams)
    (p : SetSpendPolicyParams) : Prop where
  writable : p.Writable
  numbers : p = { c.meant p.monthlyBudget with
    allowedDomainHashes := p.allowedDomainHashes
    blockedDomainHashes := p.blockedDomainHashes }
  lists : ∃ rest, Client.encVecHash c.allowedDomainHashes ++
      Client.encVecHash c.blockedDomainHashes =
    encU64 p.monthlyBudget ++ (Client.encVecHash p.allowedDomainHashes ++
      (Client.encVecHash p.blockedDomainHashes ++ rest))

open Script

/-! ## 2. Their data -/

section Data

variable [Alphabet τ] {key : Codec τ Pubkey} {ms : MethodDiscriminators}

theorem encStr_encode {s : Bytes} (h : s.length < 2 ^ 32) :
    (ofBytes (Client.encStr s) : List τ) = (string validUtf8).encode s := by
  rw [string_encode h]
  exact List.map_append

theorem encOptPk_encode (o : Option Pubkey) : encOptPk key o = (option key).encode o := by
  cases o <;> rfl

/-- The codec of payments, up to the memo: it reads what the script wrote. -/
theorem paramBytes_then (hkey : ∀ k, key.Valid k) (p : PaymentParams Pubkey) (rest : List τ) :
    (SettlePaymentParams.codec key).decode (paramBytes key p ++ rest) =
      ((option (array 32)).decode rest).map fun x => ({ p.meant with memo := x.1 }, x.2) := by
  have hstr := encStr_encode (τ := τ) p.agentId_length
  have hprotocol : (ofBytes [p.protocol] : List τ) = u8.encode p.protocol := rfl
  show Option.map _ _ = _
  simp only [paramBytes, List.append_assoc]
  rw [hstr, ← array_encode, ← array_encode, ← u64_encode, hprotocol, encOptPk_encode,
    prod_reads (string_valid.mpr ⟨p.agentId_length, p.agentId_utf8⟩), prod_reads (array_valid _),
    prod_reads (array_valid _), prod_reads (u64_valid _), prod_reads (u8_valid _),
    prod_reads (option_valid.mpr fun k _ => hkey k)]
  simp only [Option.map_map]
  rfl

theorem settlement_unread (hkey : ∀ k, key.Valid k) (sequence : UInt64)
    (p : PaymentParams Pubkey) : readCall key ms (settlePaymentData key ms sequence p) = none := by
  have hparams := paramBytes_then hkey p []
  rw [List.append_nil] at hparams
  rw [settlePaymentData, readCall_disc, ← u64_encode]
  show (Option.map _ _).map _ = _
  rw [prod_reads (u64_valid _), hparams]
  rfl

/-- A violation takes the reason for the tag of `memo`, and then has no byte left. -/
theorem violation_unread (hkey : ∀ k, key.Valid k) (sequence : UInt64)
    (p : PaymentParams Pubkey) (violationReason : UInt8) :
    readCall key ms (recordViolationData key ms sequence p violationReason) = none := by
  have hparams := paramBytes_then hkey p (ofBytes [violationReason])
  rw [recordViolationData, readCall_disc, ← u64_encode]
  show (Option.map _ _).map _ = _
  rw [prod_reads (u64_valid _)]
  show Option.map _ (Option.map _ (Option.map _ (Option.bind _ _))) = _
  rw [hparams]
  cases hx : (option (array 32 : Codec τ Hash)).decode (ofBytes [violationReason]) with
  | none => rfl
  | some x =>
    -- an option takes at least its tag, so nothing is left for the reason
    have hrest : x.2 = [] := by
      have htag := ((option (array 32)).writes hx).2
      rw [option_encode] at htag
      cases hx₁ : x.1 <;> simp only [hx₁, ofBytes, List.map_cons, List.map_nil, List.cons_append,
        List.nil_append, List.cons.injEq, List.nil_eq, List.append_eq_nil_iff] at htag
      · exact htag.2
      · exact htag.2.2
    show Option.map _ (Option.map _ (Option.map _ (Option.map _ (u8.decode x.2)))) = _
    rw [hrest]
    rfl

theorem paramBytes_encode (p : PaymentParams Pubkey) :
    paramBytes key p ++ ofBytes [0] = (SettlePaymentParams.codec key).encode p.meant := by
  simp only [paramBytes, encStr_encode p.agentId_length, ← array_encode, ← u64_encode,
    encOptPk_encode, List.append_assoc]
  rfl

/-- With a `memo` of `None` at the end, the data of the settlement that is meant. -/
theorem settlement_completed (sequence : UInt64) (p : PaymentParams Pubkey) :
    settlePaymentData key ms sequence p ++ ofBytes [0] =
      (Call.codec key ms).encode (.settlePayment sequence p.meant) := by
  rw [settlePaymentData, List.append_assoc, List.append_assoc, paramBytes_encode, ← u64_encode,
    call_encode]
  rfl

theorem encVecHash_encode {l : List Hash} (h : l.length < 2 ^ 32) :
    (ofBytes (Client.encVecHash l) : List τ) = (vec (array 32)).encode l := by
  rw [vec_encode h]
  show List.map _ (_ ++ _) = _
  rw [List.map_append, List.map_flatMap]
  exact congrArg _ (List.flatMap_congr fun v _ => (array_encode v).symm)

/-- The data of a policy, up to the lists. -/
def policyFields (disc : Client.Disc) (p : Client.SpendPolicyParams) : Bytes :=
  disc.toList ++ (encU64 p.dailyBudget ++ (encU64 p.weeklyBudget ++ (encU64 p.perCallLimit ++
    (encU32 p.rateLimitCalls ++ (encU32 p.rateLimitWindowSecs ++ encU64 p.highValueThreshold)))))

theorem policyData_split (disc : Client.Disc) (p : Client.SpendPolicyParams) :
    Client.setSpendPolicyIx disc p = policyFields disc p ++
      (Client.encVecHash p.allowedDomainHashes ++ Client.encVecHash p.blockedDomainHashes) := by
  simp only [Client.setSpendPolicyIx, policyFields, List.append_assoc]

/-- What is read after the fields that the script writes. -/
def policyTail : Codec τ (UInt64 × List Hash × List Hash) :=
  u64.prod ((vec (array 32)).prod (vec (array 32)))

theorem policyFields_then (p : Client.SpendPolicyParams) (rest : List τ) :
    readCall key ms (ofBytes (policyFields (ms.disc .setSpendPolicy) p) ++ rest) =
      (policyTail.decode rest).map fun x => .setSpendPolicy
        { p.meant x.1.1 with allowedDomainHashes := x.1.2.1, blockedDomainHashes := x.1.2.2 } := by
  simp only [policyFields, ofBytes_append, List.append_assoc]
  rw [readCall_disc, ← u64_encode, ← u64_encode, ← u64_encode, ← u32_encode, ← u32_encode,
    ← u64_encode]
  show Option.map _ (Option.map _ (Option.map _ _)) = _
  rw [prod_reads (u64_valid _), prod_reads (u64_valid _), prod_reads (u64_valid _),
    prod_reads (u32_valid _), prod_reads (u32_valid _), prod_reads (u64_valid _)]
  simp only [Option.map_map]
  rfl

theorem policyTail_valid {b : UInt64} {l m : List Hash} :
    (policyTail : Codec τ _).Valid (b, l, m) ↔ l.length < 2 ^ 32 ∧ m.length < 2 ^ 32 := by
  simp only [policyTail, prod_valid, u64_valid, vec_valid, array_valid, implies_true, and_true,
    true_and]

theorem policyTail_encode {b : UInt64} {l m : List Hash} (hl : l.length < 2 ^ 32)
    (hm : m.length < 2 ^ 32) : (policyTail : Codec τ _).encode (b, l, m) =
      ofBytes (encU64 b ++ (Client.encVecHash l ++ Client.encVecHash m)) := by
  rw [ofBytes_append, ofBytes_append, encVecHash_encode hl, encVecHash_encode hm, ← u64_encode]
  rfl

/-- The data of a policy is read as a policy with other lists. -/
theorem sentPolicy_read {p : Client.SpendPolicyParams} {c : Call Pubkey} :
    readCall key ms (ofBytes (Client.setSpendPolicyIx (ms.disc .setSpendPolicy) p) : List τ) =
      some c ↔ ∃ q, p.ReadAs q ∧ c = .setSpendPolicy q := by
  rw [policyData_split, ofBytes_append, policyFields_then, Option.map_eq_some_iff]
  constructor
  · rintro ⟨⟨⟨b, l, m⟩, tail⟩, h, rfl⟩
    obtain ⟨hvalid, htail⟩ := policyTail.writes h
    obtain ⟨hl, hm⟩ := policyTail_valid.mp hvalid
    rw [policyTail_encode hl hm] at htail
    obtain ⟨rest, hrest, _⟩ := ofBytes_eq_append htail
    rw [List.append_assoc, List.append_assoc] at hrest
    exact ⟨_, ⟨⟨hl, hm⟩, rfl, rest, hrest⟩, rfl⟩
  · rintro ⟨q, h, rfl⟩
    obtain ⟨rest, hrest⟩ := h.lists
    have hbytes : (ofBytes (Client.encVecHash p.allowedDomainHashes ++
        Client.encVecHash p.blockedDomainHashes) : List τ) =
        policyTail.encode (q.monthlyBudget, q.allowedDomainHashes, q.blockedDomainHashes) ++
          ofBytes rest := by
      rw [policyTail_encode h.writable.1 h.writable.2, ← ofBytes_append, hrest, List.append_assoc,
        List.append_assoc]
    refine ⟨((q.monthlyBudget, q.allowedDomainHashes, q.blockedDomainHashes), ofBytes rest), ?_,
      congrArg _ h.numbers.symm⟩
    rw [hbytes]
    exact policyTail.reads (policyTail_valid.mpr h.writable) _

theorem length_encVecHash (l : List Hash) :
    (Client.encVecHash l).length = 4 + (l.flatMap Vector.toList).length := by
  rw [Client.encVecHash, List.length_append, Borsh.length_encU32]

/-- Without hashes there are eight bytes, and none left for the lists. -/
theorem no_hashes_unread {c : Client.SpendPolicyParams} (ha : c.allowedDomainHashes = [])
    (hb : c.blockedDomainHashes = []) (p : SetSpendPolicyParams) : ¬ c.ReadAs p := by
  intro h
  obtain ⟨rest, hrest⟩ := h.lists
  have hlen := congrArg List.length hrest
  simp only [ha, hb, List.length_append, length_encVecHash, Borsh.length_encU64,
    List.flatMap_nil, List.length_nil] at hlen
  omega

/-- One hash of zeros: the monthly budget is the length of the list, and both lists are read
from the hash as empty. -/
theorem zero_hash_read {c : Client.SpendPolicyParams}
    (ha : c.allowedDomainHashes = [Vector.replicate 32 0]) (hb : c.blockedDomainHashes = []) :
    c.ReadAs { c.meant 1 with allowedDomainHashes := [], blockedDomainHashes := [] } where
  writable := ⟨Nat.two_pow_pos 32, Nat.two_pow_pos 32⟩
  numbers := rfl
  lists := by
    have hbytes : Client.encVecHash [Vector.replicate 32 0] ++ Client.encVecHash [] =
        encU64 1 ++ (Client.encVecHash [] ++ (Client.encVecHash [] ++ List.replicate 24 0)) := by
      decide
    rw [ha, hb]
    exact ⟨_, hbytes⟩

/-- With a monthly budget after the first 48 bytes, the data of the policy that is meant. -/
theorem policyData_completed (p : Client.SpendPolicyParams) (monthlyBudget : UInt64) :
    (ofBytes (Client.setSpendPolicyIx (ms.disc .setSpendPolicy) p) : List τ).take 48 ++
      (ofBytes (encU64 monthlyBudget) ++
        (ofBytes (Client.setSpendPolicyIx (ms.disc .setSpendPolicy) p)).drop 48) =
      (Call.codec key ms).encode (.setSpendPolicy (p.meant monthlyBudget)) := by
  have hlen : (ofBytes (policyFields (ms.disc .setSpendPolicy) p) : List τ).length = 48 := by
    simp [policyFields, ofBytes, encU64, encU32]
  rw [policyData_split, ofBytes_append, List.take_left' hlen, List.drop_left' hlen, call_encode]
  simp only [policyFields, ofBytes_append, encVecHash_encode p.allowed_length,
    encVecHash_encode p.blocked_length, ← u64_encode, ← u32_encode, List.append_assoc]
  rfl

/-- Over bytes, the data is that of the client's byte builders. -/
theorem client_data (ms : MethodDiscriminators) (sequence : UInt64) (c : Client.PaymentParams)
    (violationReason : UInt8) :
    let p : PaymentParams Hash :=
      { agentId := c.agentId, endpointHash := c.endpointHash, domainHash := c.domainHash
        amountUsdc := c.amountUsdc, protocol := c.protocol, parentPayment := c.parentPayment
        agentId_utf8 := c.agentId_utf8, agentId_length := c.agentId_length }
    settlePaymentData (array 32) ms sequence p =
        Client.settlePaymentIx (ms.disc .settlePayment) sequence c ∧
      recordViolationData (array 32) ms sequence p violationReason =
        Client.recordViolationIx (ms.disc .recordPolicyViolation) sequence c violationReason := by
  have hbytes : ∀ l : Bytes, (ofBytes l : List UInt8) = l := List.map_id
  have hparent : ∀ o : Option Hash, encOptPk (array 32) o = Client.encOptPk o := by
    intro o
    cases o with
    | none => rfl
    | some pk =>
      show _ ++ (array 32).encode pk = _
      rw [array_encode, hbytes, hbytes]
      rfl
  simp only [settlePaymentData, recordViolationData, paramBytes, hbytes, hparent]
  exact ⟨rfl, rfl⟩

end Data

/-! ## 3. What becomes of them -/

variable [DecidableEq Pubkey] [Inhabited Pubkey] [Alphabet τ] {key : Codec τ Pubkey}
variable {ms : MethodDiscriminators} {ps : Programs Pubkey} {rt : Runtime Pubkey}
variable {raw : RawInstruction τ Pubkey} {s : World Pubkey} {now : Int64} {r : Outcome Pubkey}

omit [DecidableEq Pubkey] [Inhabited Pubkey] in
theorem pda_eq_some {seeds : Seeds Pubkey} {k : Pubkey} :
    pda rt seeds = some k ↔ ∃ bump, rt.findProgramAddress seeds = some (k, bump) := by
  simp [pda]

/-- Data that is no call is refused. -/
theorem unread_refused (h : readCall key ms raw.data = none) :
    process key ms ps rt now raw s ≠ .ok r := by
  intro hok
  obtain ⟨_, i, hencodes, _⟩ := process_eq_ok.mp hok
  obtain ⟨_, _, hcall, _⟩ := encodes_iff.mp hencodes
  rw [h] at hcall
  cases hcall

/-- Nine accounts are too few for a settlement. -/
theorem short_refused {c : Call Pubkey} (hcall : readCall key ms raw.data = some c)
    (hmethod : c.method = .settlePayment) (hlen : raw.accounts.length = 9) :
    process key ms ps rt now raw s ≠ .ok r := by
  intro hok
  obtain ⟨_, i, hencodes, _⟩ := process_eq_ok.mp hok
  obtain ⟨call, keys, hread, hkeys, _⟩ := encodes_iff.mp hencodes
  rw [hcall] at hread
  cases hread
  have hroles := takeAccounts_length hkeys
  rw [hlen, hmethod] at hroles
  exact absurd hroles (Nat.not_succ_le_self 9)

/-- What is sent for a policy is processed as the policy that is read of it. -/
theorem sentPolicy_outcome {accs : SetSpendPolicy Pubkey} {p : Client.SpendPolicyParams}
    (hdata : raw.data = ofBytes (Client.setSpendPolicyIx (ms.disc .setSpendPolicy) p))
    (hmetas : raw.accounts = accountMetas (Method.setSpendPolicy.roles ps)
      [accs.spendPolicy, accs.agentWallet, accs.owner]) :
    (∀ q, p.ReadAs q → ∀ now s, process key ms ps rt now raw s =
      (Instruction.setSpendPolicy accs q).sent rt now s) ∧
    ((∀ q, ¬ p.ReadAs q) → ∀ now s r, process key ms ps rt now raw s ≠ .ok r) := by
  constructor
  · intro q hq now s
    have hread : readCall key ms raw.data = some (.setSpendPolicy q) := by
      rw [hdata]
      exact sentPolicy_read.mpr ⟨q, hq, rfl⟩
    have hkeys : takeAccounts (Method.setSpendPolicy.roles ps) raw.accounts =
        some (Instruction.setSpendPolicy accs q).keys := by
      rw [hmetas]
      exact takeAccounts_metas ps (.setSpendPolicy accs q)
    exact process_sent (encodes_iff.mpr ⟨_, _, hread, hkeys, rfl⟩) hmetas now s
  · intro hnone now s r
    refine unread_refused (Option.eq_none_iff_forall_ne_some.mpr fun c hc => ?_)
    rw [hdata] at hc
    obtain ⟨q, hq, _⟩ := sentPolicy_read.mp hc
    exact hnone q hq

omit [DecidableEq Pubkey] [Inhabited Pubkey] in
theorem initProtocolIx_build {deployer admin : Pubkey}
    (h : initProtocolIx key ms ps rt deployer admin = some raw) :
    ∃ configPda, pda rt .protocolConfig = some configPda ∧
      raw = (Instruction.initProtocol ⟨configPda, deployer⟩ admin).build key ms ps := by
  simp only [initProtocolIx, Option.bind_eq_bind, Option.bind_eq_some_iff, Option.pure_def,
    Option.some.injEq] at h
  obtain ⟨configPda, hpda, rfl⟩ := h
  refine ⟨configPda, hpda, ?_⟩
  unfold Instruction.build
  rw [call_encode]
  rfl

omit [DecidableEq Pubkey] [Inhabited Pubkey] in
theorem registerAgentIx_build (key : Codec τ Pubkey) {agentId : Bytes} {usdcMint owner : Pubkey}
    (hlen : agentId.length < 2 ^ 32)
    (h : registerAgentIx ms ps rt agentId usdcMint owner = some raw) :
    ∃ walletPda, pda rt (.agentWallet agentId) = some walletPda ∧
      raw = (Instruction.registerAgent ⟨walletPda,
        rt.associatedTokenAddress walletPda usdcMint, usdcMint, owner⟩ agentId).build
          key ms ps := by
  simp only [registerAgentIx, Option.bind_eq_bind, Option.bind_eq_some_iff, Option.pure_def,
    Option.some.injEq] at h
  obtain ⟨walletPda, hpda, rfl⟩ := h
  refine ⟨walletPda, hpda, ?_⟩
  unfold Instruction.build
  rw [call_encode, encStr_encode hlen]
  rfl

omit [DecidableEq Pubkey] [Inhabited Pubkey] in
theorem setSpendPolicyIx_data {agentId : Bytes} {p : Client.SpendPolicyParams} {owner : Pubkey}
    (h : setSpendPolicyIx ms ps rt agentId p owner = some raw) :
    ∃ accs : SetSpendPolicy Pubkey, accs.owner = owner ∧
      pda rt (.agentWallet agentId) = some accs.agentWallet ∧
      pda rt (.spendPolicy accs.agentWallet) = some accs.spendPolicy ∧
      raw.data = ofBytes (Client.setSpendPolicyIx (ms.disc .setSpendPolicy) p) ∧
      raw.accounts = accountMetas (Method.setSpendPolicy.roles ps)
        [accs.spendPolicy, accs.agentWallet, accs.owner] := by
  simp only [setSpendPolicyIx, Option.bind_eq_bind, Option.bind_eq_some_iff, Option.pure_def,
    Option.some.injEq] at h
  obtain ⟨walletPda, hwallet, policyPda, hpolicy, rfl⟩ := h
  exact ⟨⟨policyPda, walletPda, owner⟩, rfl, hwallet, hpolicy, rfl, rfl⟩

omit [DecidableEq Pubkey] [Inhabited Pubkey] in
/-- With a monthly budget in its place, the policy that is meant. -/
theorem policy_completed_build {accs : SetSpendPolicy Pubkey} {p : Client.SpendPolicyParams}
    (hdata : raw.data = ofBytes (Client.setSpendPolicyIx (ms.disc .setSpendPolicy) p))
    (hmetas : raw.accounts = accountMetas (Method.setSpendPolicy.roles ps)
      [accs.spendPolicy, accs.agentWallet, accs.owner]) (monthlyBudget : UInt64) :
    { raw with data := raw.data.take 48 ++ (ofBytes (encU64 monthlyBudget) ++
      raw.data.drop 48) } =
      (Instruction.setSpendPolicy accs (p.meant monthlyBudget)).build key ms ps := by
  unfold Instruction.build
  rw [hdata, hmetas, policyData_completed]
  rfl

omit [DecidableEq Pubkey] [Inhabited Pubkey] in
theorem settlePaymentIx_build {sequence : UInt64} {p : PaymentParams Pubkey}
    {usdcMint payee owner : Pubkey}
    (h : settlePaymentIx key ms ps rt sequence p usdcMint payee owner = some raw) :
    raw.data = settlePaymentData key ms sequence p ∧ raw.accounts.length = 9 ∧
    ∃ walletPda policyPda recordPda, pda rt (.agentWallet p.agentId) = some walletPda ∧
      pda rt (.spendPolicy walletPda) = some policyPda ∧
      pda rt (.paymentRecord walletPda sequence) = some recordPda ∧
      ∀ configPda, RawInstruction.mk (raw.data ++ ofBytes [0])
          (raw.accounts.insertIdx 7 ⟨configPda, false, false⟩) =
        (Instruction.settlePayment ⟨recordPda, walletPda, policyPda,
          rt.associatedTokenAddress walletPda usdcMint, payee, usdcMint, owner, configPda⟩
          sequence p.meant).build key ms ps := by
  simp only [settlePaymentIx, Option.bind_eq_bind, Option.bind_eq_some_iff, Option.pure_def,
    Option.some.injEq] at h
  obtain ⟨walletPda, hwallet, policyPda, hpolicy, recordPda, hrecord, rfl⟩ := h
  refine ⟨rfl, rfl, walletPda, policyPda, recordPda, hwallet, hpolicy, hrecord,
    fun configPda => ?_⟩
  unfold Instruction.build
  rw [settlement_completed]
  rfl

namespace Demo

/-- The first payment of the script. -/
def scriptPayment : PaymentParams Key where
  agentId := alice
  endpointHash := Vector.replicate 32 0
  domainHash := Vector.replicate 32 0
  amountUsdc := 6000000
  protocol := 0
  parentPayment := none
  agentId_utf8 := by decide +kernel
  agentId_length := by decide

end Demo

end MaximProtocol
