import MaximProtocol.Instructions
import MaximProtocol.Library.Borsh

/-!
# The client in `scripts/seed.ts`

The script writes instruction data by hand, and the program reads it with Borsh. This
file has the three builders that carry parameters, the Borsh decoders of the Rust
argument types, and how far they agree.

* `policy_completed`, `payment_completed`: with eight bytes for `monthly_budget` and one
  byte for `memo` in their places, the data decodes to the values it was built from.
* `client_disagrees`: without them it never does.

A public key is the 32 bytes that are sent for it.
-/

namespace MaximProtocol

open Borsh hiding Bytes

/-! ## 1. The decoders of the program -/

def validUtf8 (bytes : Bytes) : Bool := (ByteArray.mk bytes.toArray).validateUTF8

/-- `SetSpendPolicyParams`, in the order of the declaration. -/
def decodeSetSpendPolicyParams : Decoder SetSpendPolicyParams := do
  let dailyBudget ← u64
  let weeklyBudget ← u64
  let perCallLimit ← u64
  let rateLimitCalls ← u32
  let rateLimitWindowSecs ← u32
  let highValueThreshold ← u64
  let monthlyBudget ← u64
  let allowedDomainHashes ← vec (array 32)
  let blockedDomainHashes ← vec (array 32)
  pure { dailyBudget, weeklyBudget, perCallLimit, rateLimitCalls, rateLimitWindowSecs
         highValueThreshold, monthlyBudget, allowedDomainHashes, blockedDomainHashes }

/-- `SettlePaymentParams`, in the order of the declaration. -/
def decodeSettlePaymentParams : Decoder (SettlePaymentParams Hash) := do
  let agentId ← string validUtf8
  let endpointHash ← array 32
  let domainHash ← array 32
  let amountUsdc ← u64
  let protocol ← u8
  let parentPayment ← option (array 32)
  let memo ← option (array 32)
  pure { agentId, endpointHash, domainHash, amountUsdc, protocol, parentPayment, memo }

/-- The arguments of `settle_payment`. -/
def decodeSettlePayment : Decoder (UInt64 × SettlePaymentParams Hash) := do
  let sequence ← u64
  let params ← decodeSettlePaymentParams
  pure (sequence, params)

/-- The arguments of `record_policy_violation`. -/
def decodeRecordPolicyViolation : Decoder (UInt64 × SettlePaymentParams Hash × UInt8) := do
  let sequence ← u64
  let params ← decodeSettlePaymentParams
  let violationReason ← u8
  pure (sequence, params, violationReason)

/-- The arguments in instruction data: what follows the discriminator, and bytes left
over at the end are ignored. -/
def decodeArgs {α : Type} (d : Decoder α) (data : Bytes) : Option α :=
  (d (data.drop 8)).map Prod.fst

/-! ## 2. The builders of the client -/

namespace Client

/-- The first 8 bytes of the SHA-256 of the instruction's name. -/
abbrev Disc := Vector UInt8 8

def encStr (s : Bytes) : Bytes := encU32 (UInt32.ofNat s.length) ++ s

def encOptPk : Option Hash → Bytes
  | some pk => 1 :: pk.toList
  | none => [0]

def encVecHash (hs : List Hash) : Bytes :=
  encU32 (UInt32.ofNat hs.length) ++ hs.flatMap Vector.toList

/-- The interface has no `monthlyBudget`. -/
structure SpendPolicyParams where
  dailyBudget : UInt64
  weeklyBudget : UInt64
  perCallLimit : UInt64
  rateLimitCalls : UInt32
  rateLimitWindowSecs : UInt32
  highValueThreshold : UInt64
  allowedDomainHashes : List Hash
  blockedDomainHashes : List Hash
  /-- The length of an array fits 32 bits. -/
  allowed_length : allowedDomainHashes.length < 2 ^ 32
  blocked_length : blockedDomainHashes.length < 2 ^ 32

/-- The interface has no `memo`. `agentId` stands for the UTF-8 bytes of the string. -/
structure PaymentParams where
  agentId : Bytes
  endpointHash : Hash
  domainHash : Hash
  amountUsdc : UInt64
  protocol : UInt8
  parentPayment : Option Hash
  agentId_utf8 : validUtf8 agentId = true
  /-- `encU32` throws on a longer string. -/
  agentId_length : agentId.length < 2 ^ 32

def setSpendPolicyIx (disc : Disc) (params : SpendPolicyParams) : Bytes :=
  disc.toList ++
    (encU64 params.dailyBudget ++ (encU64 params.weeklyBudget ++ (encU64 params.perCallLimit ++
    (encU32 params.rateLimitCalls ++ (encU32 params.rateLimitWindowSecs ++
    (encU64 params.highValueThreshold ++
    (encVecHash params.allowedDomainHashes ++ encVecHash params.blockedDomainHashes)))))))

/-- `paramBytes` of the two payment builders. -/
def paramBytes (params : PaymentParams) : Bytes :=
  encStr params.agentId ++ (params.endpointHash.toList ++ (params.domainHash.toList ++
    (encU64 params.amountUsdc ++ ([params.protocol] ++ encOptPk params.parentPayment))))

def settlePaymentIx (disc : Disc) (sequence : UInt64) (params : PaymentParams) : Bytes :=
  disc.toList ++ (encU64 sequence ++ paramBytes params)

def recordViolationIx (disc : Disc) (sequence : UInt64) (params : PaymentParams)
    (violationReason : UInt8) : Bytes :=
  disc.toList ++ (encU64 sequence ++ (paramBytes params ++ [violationReason]))

end Client

open Client

/-! ## 3. Agreement -/

/-- The program reads the policy the client meant, whatever monthly budget it reads. -/
def PolicyAgrees (disc : Disc) (c : Client.SpendPolicyParams) : Prop :=
  ∃ p, decodeArgs decodeSetSpendPolicyParams (setSpendPolicyIx disc c) = some p ∧
    p.dailyBudget = c.dailyBudget ∧ p.weeklyBudget = c.weeklyBudget ∧
    p.perCallLimit = c.perCallLimit ∧ p.rateLimitCalls = c.rateLimitCalls ∧
    p.rateLimitWindowSecs = c.rateLimitWindowSecs ∧
    p.highValueThreshold = c.highValueThreshold ∧
    p.allowedDomainHashes = c.allowedDomainHashes ∧
    p.blockedDomainHashes = c.blockedDomainHashes

/-- The program reads the payment the client meant. -/
structure PaymentReads (c : PaymentParams) (p : SettlePaymentParams Hash) : Prop where
  agentId : p.agentId = c.agentId
  endpointHash : p.endpointHash = c.endpointHash
  domainHash : p.domainHash = c.domainHash
  amountUsdc : p.amountUsdc = c.amountUsdc
  protocol : p.protocol = c.protocol
  parentPayment : p.parentPayment = c.parentPayment

def SettlementAgrees (disc : Disc) (sequence : UInt64) (c : PaymentParams) : Prop :=
  ∃ p, decodeArgs decodeSettlePayment (settlePaymentIx disc sequence c) = some (sequence, p) ∧
    PaymentReads c p

def ViolationAgrees (disc : Disc) (sequence : UInt64) (c : PaymentParams)
    (violationReason : UInt8) : Prop :=
  ∃ p, decodeArgs decodeRecordPolicyViolation
      (recordViolationIx disc sequence c violationReason) =
    some (sequence, p, violationReason) ∧ PaymentReads c p

theorem decodeArgs_eq {α : Type} (d : Decoder α) (disc : Disc) (bs : Bytes) :
    decodeArgs d (disc.toList ++ bs) = (d bs).map Prod.fst := by
  have hdrop : (disc.toList ++ bs).drop 8 = bs := by simp
  rw [decodeArgs, hdrop]

theorem reads_optPk (o : Option Hash) : Reads (option (array 32)) (encOptPk o) o := by
  cases o with
  | none => exact reads_none
  | some pk => exact reads_some (reads_array pk)

theorem reads_hashes {l : List Hash} (h : l.length < 2 ^ 32) :
    Reads (vec (array 32)) (encVecHash l) l :=
  reads_vec h fun v _ => reads_array v

/-- The decoder of payments, up to the memo: it reads what the client wrote. -/
theorem params_then (c : PaymentParams) (rest : Bytes) :
    decodeSettlePaymentParams (paramBytes c ++ rest) =
      ((option (array 32)) rest).map fun x =>
        ({ agentId := c.agentId, endpointHash := c.endpointHash, domainHash := c.domainHash
           amountUsdc := c.amountUsdc, protocol := c.protocol, parentPayment := c.parentPayment
           memo := x.1 }, x.2) := by
  simp only [decodeSettlePaymentParams, paramBytes, encStr, List.append_assoc]
  rw [← List.append_assoc (encU32 _) c.agentId,
    reads_then (reads_string c.agentId_length c.agentId_utf8), reads_then (reads_array _),
    reads_then (reads_array _), reads_then (reads_u64 _), reads_then (reads_u8 _),
    reads_then (reads_optPk _), bind_apply]
  cases (option (array 32)) rest <;> rfl

/-! ## 4. What the client leaves out -/

variable {disc : Disc} {sequence : UInt64} {violationReason : UInt8}

/-- A settlement stops at the missing tag of `memo`. -/
theorem settlement_refused (disc : Disc) (sequence : UInt64) (c : PaymentParams) :
    decodeArgs decodeSettlePayment (settlePaymentIx disc sequence c) = none := by
  have hparams := params_then c []
  rw [List.append_nil] at hparams
  rw [settlePaymentIx, decodeArgs_eq, decodeSettlePayment, reads_then (reads_u64 _), bind_apply,
    hparams]
  rfl

/-- A violation takes the reason for the tag of `memo`, and then has no byte left. -/
theorem violation_refused (disc : Disc) (sequence : UInt64) (c : PaymentParams)
    (violationReason : UInt8) :
    decodeArgs decodeRecordPolicyViolation
      (recordViolationIx disc sequence c violationReason) = none := by
  rw [recordViolationIx, decodeArgs_eq, decodeRecordPolicyViolation, reads_then (reads_u64 _),
    bind_apply, params_then]
  rcases eq_or_ne violationReason 0 with rfl | h0
  · rfl
  · rcases eq_or_ne violationReason 1 with rfl | h1
    · rfl
    · have htag : (option (array 32)) [violationReason] = none := by
        show (if violationReason = 0 then _ else if violationReason = 1 then _ else _ :
          Decoder (Option Hash)) [] = none
        rw [if_neg h0, if_neg h1]
      rw [htag]
      rfl

theorem encVecHash_length (l : List Hash) : (encVecHash l).length = 4 + 32 * l.length := by
  have hflat : (l.flatMap Vector.toList).length = 32 * l.length := by
    induction l with
    | nil => rfl
    | cons v l ih =>
      rw [List.flatMap_cons, List.length_append, ih, Vector.length_toList, List.length_cons]
      omega
  rw [encVecHash, List.length_append, hflat, encU32, length_leBytes]

/-- A decoded policy has read 56 bytes and its two lists. -/
theorem policy_read {bs rest : Bytes} {p : SetSpendPolicyParams}
    (h : decodeSetSpendPolicyParams bs = some (p, rest)) :
    bs.length = 56 + 32 * p.allowedDomainHashes.length + 32 * p.blockedDomainHashes.length +
      rest.length := by
  simp only [decodeSetSpendPolicyParams, bind_eq_some] at h
  obtain ⟨_, _, h₁, _, _, h₂, _, _, h₃, _, _, h₄, _, _, h₅, _, _, h₆, _, _, h₇, allowed, _, h₈,
    blocked, _, h₉, hp⟩ := h
  cases hp
  have := sized_u64 h₁
  have := sized_u64 h₂
  have := sized_u64 h₃
  have := sized_u32 h₄
  have := sized_u32 h₅
  have := sized_u64 h₆
  have := sized_u64 h₇
  have := sized_vec sized_array h₈
  have := sized_vec sized_array h₉
  show bs.length = 56 + 32 * allowed.length + 32 * blocked.length + rest.length
  omega

/-- The data of a policy is eight bytes short of the lists it was built from. -/
theorem policy_disagrees (disc : Disc) (c : Client.SpendPolicyParams) :
    ¬ PolicyAgrees disc c := by
  rintro ⟨p, hp, _, _, _, _, _, _, hallowed, hblocked⟩
  rw [setSpendPolicyIx, decodeArgs_eq, Option.map_eq_some_iff] at hp
  obtain ⟨⟨p', rest⟩, hdecode, rfl⟩ := hp
  have hread := policy_read hdecode
  simp only at hallowed hblocked
  simp only [List.length_append, encU64, encU32, length_leBytes, encVecHash_length, hallowed,
    hblocked] at hread
  omega

/-- With a `memo` of `None` at the end a settlement decodes to what was meant. -/
theorem payment_completed (disc : Disc) (sequence : UInt64) (c : PaymentParams) :
    ∃ p, decodeArgs decodeSettlePayment (settlePaymentIx disc sequence c ++ [0]) =
      some (sequence, p) ∧ PaymentReads c p ∧ p.memo = none := by
  refine ⟨{ agentId := c.agentId, endpointHash := c.endpointHash, domainHash := c.domainHash
            amountUsdc := c.amountUsdc, protocol := c.protocol, parentPayment := c.parentPayment
            memo := none }, ?_, ⟨rfl, rfl, rfl, rfl, rfl, rfl⟩, rfl⟩
  rw [settlePaymentIx, List.append_assoc, List.append_assoc, decodeArgs_eq, decodeSettlePayment,
    reads_then (reads_u64 _), bind_apply, params_then]
  rfl

/-- With a monthly budget after the threshold a policy decodes to what was meant. -/
theorem policy_completed (disc : Disc) (c : Client.SpendPolicyParams) (monthlyBudget : UInt64) :
    ∃ p, decodeArgs decodeSetSpendPolicyParams
        ((setSpendPolicyIx disc c).take 48 ++ (encU64 monthlyBudget ++
          (setSpendPolicyIx disc c).drop 48)) = some p ∧
      p.dailyBudget = c.dailyBudget ∧ p.weeklyBudget = c.weeklyBudget ∧
      p.perCallLimit = c.perCallLimit ∧ p.rateLimitCalls = c.rateLimitCalls ∧
      p.rateLimitWindowSecs = c.rateLimitWindowSecs ∧
      p.highValueThreshold = c.highValueThreshold ∧ p.monthlyBudget = monthlyBudget ∧
      p.allowedDomainHashes = c.allowedDomainHashes ∧
      p.blockedDomainHashes = c.blockedDomainHashes := by
  -- the first 48 bytes are the discriminator and the fields before the monthly budget
  have hsplit : setSpendPolicyIx disc c =
      (disc.toList ++ (encU64 c.dailyBudget ++ (encU64 c.weeklyBudget ++
        (encU64 c.perCallLimit ++ (encU32 c.rateLimitCalls ++ (encU32 c.rateLimitWindowSecs ++
        encU64 c.highValueThreshold)))))) ++
      (encVecHash c.allowedDomainHashes ++ encVecHash c.blockedDomainHashes) := by
    simp only [setSpendPolicyIx, List.append_assoc]
  have hlen : (disc.toList ++ (encU64 c.dailyBudget ++ (encU64 c.weeklyBudget ++
      (encU64 c.perCallLimit ++ (encU32 c.rateLimitCalls ++ (encU32 c.rateLimitWindowSecs ++
      encU64 c.highValueThreshold)))))).length = 48 := by
    simp [encU64, encU32]
  refine ⟨{ dailyBudget := c.dailyBudget, weeklyBudget := c.weeklyBudget
            perCallLimit := c.perCallLimit, rateLimitCalls := c.rateLimitCalls
            rateLimitWindowSecs := c.rateLimitWindowSecs
            highValueThreshold := c.highValueThreshold, monthlyBudget := monthlyBudget
            allowedDomainHashes := c.allowedDomainHashes
            blockedDomainHashes := c.blockedDomainHashes }, ?_,
    rfl, rfl, rfl, rfl, rfl, rfl, rfl, rfl, rfl⟩
  have hblocked := reads_hashes c.blocked_length []
  rw [List.append_nil] at hblocked
  rw [hsplit, List.take_left' hlen, List.drop_left' hlen]
  simp only [List.append_assoc]
  rw [decodeArgs_eq, decodeSetSpendPolicyParams, reads_then (reads_u64 _),
    reads_then (reads_u64 _), reads_then (reads_u64 _), reads_then (reads_u32 _),
    reads_then (reads_u32 _), reads_then (reads_u64 _), reads_then (reads_u64 _),
    reads_then (reads_hashes c.allowed_length), bind_apply, hblocked]
  rfl

/-- **The client and the program never agree.** -/
theorem client_disagrees (disc : Disc) (policy : Client.SpendPolicyParams) (sequence : UInt64)
    (payment : PaymentParams) (violationReason : UInt8) :
    ¬ PolicyAgrees disc policy ∧ ¬ SettlementAgrees disc sequence payment ∧
      ¬ ViolationAgrees disc sequence payment violationReason := by
  refine ⟨policy_disagrees disc policy, ?_, ?_⟩
  · rintro ⟨p, hp, _⟩
    rw [settlement_refused] at hp
    cases hp
  · rintro ⟨p, hp, _⟩
    rw [violation_refused] at hp
    cases hp

namespace Demo

def seededPolicy : Client.SpendPolicyParams where
  dailyBudget := 50000000
  weeklyBudget := 200000000
  perCallLimit := 50000000
  rateLimitCalls := 100
  rateLimitWindowSecs := 3600
  highValueThreshold := 10000000
  allowedDomainHashes := [Vector.replicate 32 0]
  blockedDomainHashes := []
  allowed_length := by decide
  blocked_length := by decide

/-- A policy that allows one domain is read as one that allows every domain, with a
monthly budget of 1. -/
example : decodeArgs decodeSetSpendPolicyParams
    (setSpendPolicyIx (Vector.replicate 8 0) seededPolicy) =
    some { dailyBudget := 50000000, weeklyBudget := 200000000, perCallLimit := 50000000
           rateLimitCalls := 100, rateLimitWindowSecs := 3600, highValueThreshold := 10000000
           monthlyBudget := 1, allowedDomainHashes := [], blockedDomainHashes := [] } := by
  rfl

def seededPayment : PaymentParams where
  agentId := [97]
  endpointHash := Vector.replicate 32 0
  domainHash := Vector.replicate 32 0
  amountUsdc := 6000000
  protocol := 0
  parentPayment := none
  agentId_utf8 := by decide +kernel
  agentId_length := by decide

end Demo

/-- The first payment the script would settle is refused. -/
theorem seeded_refused : ¬ ∀ (disc : Disc) (policy : Client.SpendPolicyParams)
    (sequence : UInt64) (payment : PaymentParams) (violationReason : UInt8),
    PolicyAgrees disc policy ∧ SettlementAgrees disc sequence payment ∧
      ViolationAgrees disc sequence payment violationReason := by
  intro h
  obtain ⟨_, ⟨p, hp, _⟩, _⟩ := h (Vector.replicate 8 0) Demo.seededPolicy 0 Demo.seededPayment 5
  rw [settlement_refused] at hp
  cases hp

end MaximProtocol
