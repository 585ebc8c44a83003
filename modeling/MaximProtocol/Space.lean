import MaximProtocol.AuditTrail
import MaximProtocol.Store

/-!
# Account space

`init` gives a wallet and a policy a fixed number of bytes, `LEN`, and at the end of each
instruction that changes one its serialised value is written over them. Only the agent id
and the two domain lists vary in length.

`accounts_fit`: every wallet and policy the program ever stores fits, and uses all its
bytes exactly when the id, respectively both lists, are as long as the checks allow.
-/

namespace MaximProtocol

open MachineInt World Transitions
open Borsh hiding Bytes

variable {Pubkey : Type}

/-! ## 1. What is stored -/

/-- A string: its length and its bytes. -/
def encString (b : Bytes) : List (Datum Pubkey) :=
  bytes (encU32 (UInt32.ofNat b.length)) ++ bytes b

/-- A vector of hashes: its length and the hashes. -/
def encHashes (l : List Hash) : List (Datum Pubkey) :=
  bytes (encU32 (UInt32.ofNat l.length)) ++ l.flatMap fun h => bytes h.toList

def encBool (b : Bool) : Datum Pubkey := .byte (if b then 1 else 0)

/-- An `i64`, as the `u64` with the same bits. -/
def encI64 (x : Int64) : List UInt8 := encU64 x.toUInt64

namespace AgentWallet

def LEN : Nat :=
  8 + 4 + MAX_AGENT_ID_LEN + 32 + 32 + 8 + 8 + 8 + 8 + 8 + 8 + 8 + 8 + 8 + 8 + 1 + 1 + 1

/-- The discriminator and the fields, in the order of the declaration. -/
def serialize (disc : Vector UInt8 8) (w : AgentWallet Pubkey) : List (Datum Pubkey) :=
  bytes disc.toList ++ encString w.agentId ++ [.key w.owner, .key w.usdcTokenAccount] ++
    bytes (encU64 w.dailySpend) ++ bytes (encI64 w.dailyWindowStart) ++
    bytes (encU64 w.weeklySpend) ++ bytes (encI64 w.weeklyWindowStart) ++
    bytes (encU64 w.monthlySpend) ++ bytes (encI64 w.monthlyWindowStart) ++
    bytes (encU64 w.paymentSequence) ++ bytes (encU64 w.totalPayments) ++
    bytes (encU64 w.totalVolume) ++ bytes (encI64 w.lastPaymentAt) ++
    [encBool w.isActive, encBool w.isFrozen, .byte w.bump]

end AgentWallet

namespace SpendPolicy

def LEN : Nat :=
  8 + 32 + 8 + 8 + 8 + 8 + 4 + 4 + 4 + 8 + 8 + 4 + MAX_DOMAIN_ENTRIES * 32 + 4 +
    MAX_DOMAIN_ENTRIES * 32 + 1

/-- The discriminator and the fields, in the order of the declaration. -/
def serialize (disc : Vector UInt8 8) (p : SpendPolicy Pubkey) : List (Datum Pubkey) :=
  bytes disc.toList ++ [.key p.agentWallet] ++ bytes (encU64 p.dailyBudget) ++
    bytes (encU64 p.weeklyBudget) ++ bytes (encU64 p.monthlyBudget) ++
    bytes (encU64 p.perCallLimit) ++ bytes (encU32 p.rateLimitCalls) ++
    bytes (encU32 p.rateLimitWindowSecs) ++ bytes (encU32 p.rateLimitCallCount) ++
    bytes (encI64 p.rateLimitWindowStart) ++ bytes (encU64 p.highValueThreshold) ++
    encHashes p.allowedDomainHashes ++ encHashes p.blockedDomainHashes ++ [.byte p.bump]

end SpendPolicy

/-! ## 2. Its width -/

section Width

@[simp] theorem width_byte (b : UInt8) : (Datum.byte b : Datum Pubkey).width = 1 := rfl

@[simp] theorem width_key (k : Pubkey) : (Datum.key k).width = 32 := rfl

@[simp] theorem length_encI64 (x : Int64) : (encI64 x).length = 8 := length_leBytes 8 _

@[simp] theorem width_encBool (b : Bool) : (encBool b : Datum Pubkey).width = 1 := rfl

@[simp] theorem width_encString (b : Bytes) :
    width (encString b : List (Datum Pubkey)) = 4 + b.length := by
  simp [encString]

@[simp] theorem width_encHashes (l : List Hash) :
    width (encHashes l : List (Datum Pubkey)) = 4 + l.length * 32 := by
  have hflat : width (l.flatMap fun h => bytes h.toList : List (Datum Pubkey)) =
      l.length * 32 := by
    induction l with
    | nil => rfl
    | cons h l ih =>
      rw [List.flatMap_cons, width_append, ih, width_bytes, Vector.length_toList,
        List.length_cons]
      omega
  rw [encHashes, width_append, width_bytes, length_encU32, hflat]

variable (disc : Vector UInt8 8)

/-- A wallet falls short of its account by as much as its id of the longest one. -/
theorem width_wallet (w : AgentWallet Pubkey) :
    width (w.serialize disc) + MAX_AGENT_ID_LEN = AgentWallet.LEN + w.agentId.length := by
  simp only [AgentWallet.serialize, width_append, width_cons, width_nil, width_bytes,
    width_encString, width_encBool, length_encU64, length_encI64, Vector.length_toList,
    width_byte, width_key, AgentWallet.LEN]
  omega

/-- A policy falls short of its account by 32 bytes for each hash its lists could still
hold. -/
theorem width_policy (p : SpendPolicy Pubkey) :
    width (p.serialize disc) + (MAX_DOMAIN_ENTRIES + MAX_DOMAIN_ENTRIES) * 32 =
      SpendPolicy.LEN +
        (p.allowedDomainHashes.length + p.blockedDomainHashes.length) * 32 := by
  simp only [SpendPolicy.serialize, width_append, width_cons, width_nil, width_bytes,
    width_encHashes, length_encU64, length_encU32, length_encI64, Vector.length_toList,
    width_byte, width_key, SpendPolicy.LEN]
  omega

end Width

/-! ## 3. Everything that is stored fits -/

/-- Every wallet and every policy is within the space of its account. -/
structure FitsSpace (walletDisc policyDisc : Vector UInt8 8) (s : World Pubkey) : Prop where
  wallet : ∀ {k w}, s.wallet k = some w → width (w.serialize walletDisc) ≤ AgentWallet.LEN
  policy : ∀ {q p}, s.policy q = some p → width (p.serialize policyDisc) ≤ SpendPolicy.LEN

variable {s s' : World Pubkey} {walletDisc policyDisc : Vector UInt8 8}

theorem fitsSpace_of_bounded (h : FieldsBounded s) : FitsSpace walletDisc policyDisc s := by
  refine ⟨fun {k w} hw => ?_, fun {q p} hp => ?_⟩
  · have hwidth := width_wallet walletDisc w
    have hlen := (h.id hw).length
    omega
  · have hwidth := width_policy policyDisc p
    have hlists := h.lists hp
    omega

variable [DecidableEq Pubkey] [Inhabited Pubkey] {rt : Runtime Pubkey}

/-- Every reachable wallet and policy fits its account, exactly filling it at the largest
id, respectively the two largest lists; and so does what a successful instruction is
about to write. -/
theorem accounts_fit (walletDisc policyDisc : Vector UInt8 8) (h : Reachable rt s) :
    FitsSpace walletDisc policyDisc s ∧
    (∀ {k w}, s.wallet k = some w →
      (width (w.serialize walletDisc) = AgentWallet.LEN ↔
        w.agentId.length = MAX_AGENT_ID_LEN)) ∧
    (∀ {q p}, s.policy q = some p →
      (width (p.serialize policyDisc) = SpendPolicy.LEN ↔
        p.allowedDomainHashes.length = MAX_DOMAIN_ENTRIES ∧
          p.blockedDomainHashes.length = MAX_DOMAIN_ENTRIES)) ∧
    ∀ {now i s' ev}, execute rt now i s = .ok (s', ev) → FitsSpace walletDisc policyDisc s' := by
  have hbounded := reachable_fieldsBounded h
  refine ⟨fitsSpace_of_bounded hbounded, fun {k w} _ => ?_, fun {q p} hp => ?_,
    fun {now i s' ev} hok => ?_⟩
  · have hwidth := width_wallet walletDisc w
    omega
  · have hwidth := width_policy policyDisc p
    have hlists := hbounded.lists hp
    omega
  · exact fitsSpace_of_bounded (reachable_fieldsBounded (reachable_step h (.accepted hok)))

/-- In the opening run the wallet of a one-byte id is 63 bytes short of its account. -/
theorem accounts_fit_opening :
    width (Demo.opened.serialize (Vector.replicate 8 0)) = AgentWallet.LEN ↔
      Demo.opened.agentId.length = MAX_AGENT_ID_LEN := by
  have h := accounts_fit (Vector.replicate 8 0) (Vector.replicate 8 0)
    (Demo.reachable_chain Demo.opening)
  exact h.2.1 (k := Demo.wallet Demo.alice) rfl

end MaximProtocol
