import MaximProtocol.Library.MachineInt
import Mathlib.Data.Finset.Sum
import Mathlib.Algebra.BigOperators.Group.Finset.Basic

/-!
# The Solana runtime and the SPL Token program

What the program takes from outside its own source:

* `Seeds`: the four seed lists it derives addresses from;
* `Runtime`: address derivation and signatures, with the behaviour the program
  relies on as fields;
* `TokenAccount` and `tokenTransfer`: the SPL Token accounts and the `transfer`
  instruction it invokes.

Public keys are an arbitrary type. Distinct seeds deriving distinct addresses is
collision resistance of the address hash, which no type of 32-byte keys has
literally.
-/

namespace MaximProtocol

open MachineInt

abbrev Bytes := List UInt8

/-- `[u8; 32]`, a SHA-256 hash. -/
abbrev Hash := Vector UInt8 32

/-! ## 1. Errors -/

/-- `MaximError`, in the order of the source. -/
inductive MaximError where
  | agentIdTooLong
  | invalidAgentId
  | agentNotActive
  | agentFrozen
  | unauthorized
  | zeroPaymentAmount
  | invalidProtocol
  | dailyBudgetExceeded
  | weeklyBudgetExceeded
  | monthlyBudgetExceeded
  | perCallLimitExceeded
  | rateLimitExceeded
  | domainNotAllowed
  | domainBlocked
  | domainListFull
  | parentAgentMismatch
  | invalidOwner
  | ownerUnchanged
  | insufficientFunds
  | protocolAlreadyInitialised
  | agentStillActive
  | tokenAccountNotEmpty
  | sequenceMismatch
  | globalPaymentCapExceeded
  deriving DecidableEq

/-- Why a submitted instruction fails: an error of the program, of the checks
Anchor generates from the account contexts, of the token program, or a panic. -/
inductive ProgramError where
  | maxim (e : MaximError)
  | accountNotSigner
  /-- With `AccountOwnedByWrongProgram`, for what is there of another program, if anything. -/
  | accountNotInitialized
  | accountDiscriminatorMismatch
  | accountDidNotDeserialize
  | accountAlreadyInUse
  | constraintSeeds
  | constraintRaw
  | constraintTokenOwner
  | constraintAssociated
  | privilegeEscalation
  /-- This and the next are the associated token program's. -/
  | invalidSeeds
  | illegalOwner
  /-- `find_program_address` panics. -/
  | seedPanic
  | tokenAccountFrozen
  | tokenInsufficientFunds
  | tokenMintMismatch
  | tokenOwnerMismatch
  | tokenOverflow
  | arithmeticOverflow
  deriving DecidableEq

/-! ## 2. Addresses and signatures -/

/-- The seed lists of the program's derived addresses. -/
inductive Seeds (Pubkey : Type) where
  /-- `[b"protocol_config"]` -/
  | protocolConfig
  /-- `[b"agent_wallet", agent_id.as_bytes()]` -/
  | agentWallet (agentId : Bytes)
  /-- `[b"spend_policy", agent_wallet.key()]` -/
  | spendPolicy (agentWallet : Pubkey)
  /-- `[b"payment_record", agent_wallet.key(), sequence.to_le_bytes()]` -/
  | paymentRecord (agentWallet : Pubkey) (sequence : UInt64)
  deriving DecidableEq

/-- No seed is longer than `MAX_SEED_LEN`, 32 bytes. Only the agent id can be. -/
def Seeds.fits {Pubkey : Type} : Seeds Pubkey → Bool
  | .agentWallet agentId => agentId.length ≤ 32
  | _ => true

/-- Address derivation for this program's id, associated token addresses, and the
keys that can sign a submitted instruction. -/
structure Runtime (Pubkey : Type) where
  createProgramAddress : Seeds Pubkey → UInt8 → Option Pubkey
  findProgramAddress : Seeds Pubkey → Option (Pubkey × UInt8)
  associatedTokenAddress : (authority mint : Pubkey) → Pubkey
  canSign : Pubkey → Bool
  /-- The address that is found is the one the found bump creates. -/
  find_create : ∀ {seeds k bump},
    findProgramAddress seeds = some (k, bump) → createProgramAddress seeds bump = some k
  /-- Derivation fails on a seed that is too long, and finds a bump otherwise. -/
  find_isSome : ∀ seeds, (findProgramAddress seeds).isSome = seeds.fits
  create_fits : ∀ {seeds bump k}, createProgramAddress seeds bump = some k → seeds.fits = true
  /-- Distinct seeds or bumps give distinct addresses. -/
  create_inj : ∀ {seeds seeds' bump bump' k}, createProgramAddress seeds bump = some k →
    createProgramAddress seeds' bump' = some k → seeds = seeds' ∧ bump = bump'
  /-- Distinct authorities or mints have distinct associated token accounts. -/
  associated_inj : ∀ {a m a' m'},
    associatedTokenAddress a m = associatedTokenAddress a' m' → a = a' ∧ m = m'
  /-- A derived address has no private key. -/
  create_not_canSign : ∀ {seeds bump k},
    createProgramAddress seeds bump = some k → canSign k = false

variable {Pubkey : Type}

/-- `k` is a derived address of this program: nobody else can sign for it. -/
def Runtime.IsDerived (rt : Runtime Pubkey) (k : Pubkey) : Prop :=
  ∃ seeds bump, rt.createProgramAddress seeds bump = some k

theorem find_inj (rt : Runtime Pubkey) {seeds seeds' : Seeds Pubkey} {k : Pubkey}
    {bump bump' : UInt8} (h : rt.findProgramAddress seeds = some (k, bump))
    (h' : rt.findProgramAddress seeds' = some (k, bump')) : seeds = seeds' :=
  (rt.create_inj (rt.find_create h) (rt.find_create h')).1

theorem find_derived (rt : Runtime Pubkey) {seeds : Seeds Pubkey} {k : Pubkey} {bump : UInt8}
    (h : rt.findProgramAddress seeds = some (k, bump)) : rt.IsDerived k :=
  ⟨seeds, bump, rt.find_create h⟩

theorem exists_find (rt : Runtime Pubkey) {seeds : Seeds Pubkey} (h : seeds.fits = true) :
    ∃ k bump, rt.findProgramAddress seeds = some (k, bump) := by
  rw [← rt.find_isSome seeds, Option.isSome_iff_exists] at h
  obtain ⟨⟨k, bump⟩, h⟩ := h
  exact ⟨k, bump, h⟩

/-! ## 3. Token accounts -/

/-- The fields of an SPL token account that the program and its transfers read.
`isFrozen` is the state `Frozen`, which the freeze authority of the mint sets and
clears. -/
structure TokenAccount (Pubkey : Type) where
  mint : Pubkey
  owner : Pubkey
  amount : UInt64
  isFrozen : Bool

/-- The token accounts of the chain. -/
abbrev Tokens (Pubkey : Type) := Pubkey → Option (TokenAccount Pubkey)

/-- The balance of the token account at `k`, zero when there is none. -/
def Tokens.balance (tokens : Tokens Pubkey) (k : Pubkey) : Nat :=
  match tokens k with
  | some t => t.amount.toNat
  | none => 0

/-- What the token account at `k` holds of `mint`. -/
def Tokens.holding (tokens : Tokens Pubkey) (mint k : Pubkey) [DecidableEq Pubkey] : Nat :=
  match tokens k with
  | some t => if t.mint = mint then t.amount.toNat else 0
  | none => 0

/-- The token account at `k`, if there is one, is not frozen. -/
def Tokens.Thawed (tokens : Tokens Pubkey) (k : Pubkey) : Prop :=
  ∀ t, tokens k = some t → t.isFrozen = false

instance (tokens : Tokens Pubkey) (k : Pubkey) : Decidable (tokens.Thawed k) :=
  inferInstanceAs (Decidable (∀ t ∈ tokens k, t.isFrozen = false))

variable [DecidableEq Pubkey]

/-- `transfer` of the SPL Token program by the owner of the source account, with
these checks in its order. A transfer from an account to itself passes them and moves
nothing. Delegates and native accounts are left out: no wallet approves a delegate. -/
def tokenTransfer (source destination authority : Pubkey) (amount : UInt64)
    (tokens : Tokens Pubkey) : Except ProgramError (Tokens Pubkey) := do
  let src ← orFail .accountNotInitialized (tokens source)
  let dst ← orFail .accountNotInitialized (tokens destination)
  require (src.isFrozen = false ∧ dst.isFrozen = false) .tokenAccountFrozen
  require (amount ≤ src.amount) .tokenInsufficientFunds
  require (src.mint = dst.mint) .tokenMintMismatch
  require (src.owner = authority) .tokenOwnerMismatch
  if source = destination then
    pure tokens
  else do
    require (dst.amount.toNat + amount.toNat ≤ u64Max) .tokenOverflow
    pure (Function.update
      (Function.update tokens source (some { src with amount := src.amount - amount }))
      destination (some { dst with amount := dst.amount + amount }))

/-- What holds of the token accounts of every chain: an associated token account
is one of its mint, and of its authority when nobody but this program can sign for
that; mints are mint accounts; and no mint has more than `u64::MAX` tokens. -/
structure LawfulTokens (rt : Runtime Pubkey) (mints : Pubkey → Bool) (tokens : Tokens Pubkey) :
    Prop where
  associated_mint : ∀ {a m t}, tokens (rt.associatedTokenAddress a m) = some t → t.mint = m
  associated_owner : ∀ {a m t}, rt.IsDerived a →
    tokens (rt.associatedTokenAddress a m) = some t → t.owner = a
  mint_exists : ∀ {k t}, tokens k = some t → mints t.mint = true
  supply : ∀ (m : Pubkey) (S : Finset Pubkey), ∑ k ∈ S, tokens.holding m k ≤ u64Max

/-- An associated token account is of the mint that its address was derived from. -/
theorem associated_source {rt : Runtime Pubkey} {mints : Pubkey → Bool} {tokens : Tokens Pubkey}
    {t : TokenAccount Pubkey} {k authority mint : Pubkey} (hl : LawfulTokens rt mints tokens)
    (ha : k = rt.associatedTokenAddress authority mint) (ht : tokens k = some t) :
    t.mint = mint := by
  rw [ha] at ht
  exact hl.associated_mint ht

end MaximProtocol
