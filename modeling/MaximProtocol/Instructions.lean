import MaximProtocol.World

/-!
# The program's instructions

`lib.rs`: the parameter structs, the events, the account contexts and the fifteen
handlers. A context is the list of addresses the caller passes; its `tryAccounts`
makes the checks Anchor generates from the `#[account(..)]` constraints and loads
the accounts, in Anchor's order: the accounts are deserialised, then the `init`s run,
then come the other constraints. A handler that fails returns no state, so a failed
instruction changes nothing.

Rent is left out: the payer of an `init` is taken to be funded.
-/

namespace MaximProtocol

open MachineInt World

variable {Pubkey : Type}

/-! ## 1. Parameters and events -/

structure SetSpendPolicyParams where
  dailyBudget : UInt64
  weeklyBudget : UInt64
  perCallLimit : UInt64
  rateLimitCalls : UInt32
  rateLimitWindowSecs : UInt32
  highValueThreshold : UInt64
  monthlyBudget : UInt64
  allowedDomainHashes : List Hash
  blockedDomainHashes : List Hash

structure SettlePaymentParams (Pubkey : Type) where
  agentId : Bytes
  endpointHash : Hash
  domainHash : Hash
  amountUsdc : UInt64
  protocol : UInt8
  parentPayment : Option Pubkey
  memo : Option Hash

inductive Event (Pubkey : Type) where
  | paymentSettled (agentWallet : Pubkey) (sequence : UInt64) (endpointHash : Hash)
      (payee : Pubkey) (amountUsdc : UInt64) (protocol : UInt8) (settledAt : Int64)
      (parentPayment : Option Pubkey) (memo : Option Hash)
  | policyViolationRecorded (agentWallet : Pubkey) (sequence : UInt64) (endpointHash : Hash)
      (amountUsdc : UInt64) (violationReason : UInt8)
  | agentStatusChanged (agentWallet : Pubkey) (agentId : Bytes) (isActive : Bool)
      (changedAt : Int64)
  | agentFreezeChanged (agentWallet : Pubkey) (agentId : Bytes) (isFrozen : Bool)
      (changedAt : Int64)
  | fundsWithdrawn (agentWallet recipient : Pubkey) (amountUsdc : UInt64) (withdrawnAt : Int64)
  | ownershipTransferred (agentWallet oldOwner newOwner : Pubkey) (transferredAt : Int64)
  | spendPolicyUpdated (agentWallet : Pubkey) (dailyBudget weeklyBudget monthlyBudget
      perCallLimit highValueThreshold : UInt64) (updatedAt : Int64)

/-- What a successful instruction leaves: the new state and the emitted event. -/
abbrev Outcome (Pubkey : Type) := World Pubkey × Option (Event Pubkey)

/-! ## 2. Account constraints -/

instance (s : World Pubkey) (k : Pubkey) : Decidable (s.Free k) :=
  decidable_of_iff ((s.accounts k).isNone = true) Option.isNone_iff_eq_none

variable [DecidableEq Pubkey]

/-- `seeds = [..], bump = bump`. -/
def checkSeeds (rt : Runtime Pubkey) (seeds : Seeds Pubkey) (bump : UInt8) (k : Pubkey) :
    Except ProgramError Unit :=
  require (rt.createProgramAddress seeds bump = some k) .constraintSeeds

/-- `seeds = [..], bump`: the address is the canonical one. The bump is returned.
`find_program_address` panics on a seed that is too long. -/
def checkCanonical (rt : Runtime Pubkey) (seeds : Seeds Pubkey) (k : Pubkey) :
    Except ProgramError UInt8 := do
  let (found, bump) ← orFail .seedPanic (rt.findProgramAddress seeds)
  require (found = k) .constraintSeeds
  pure bump

/-- `init, seeds = [..], bump`: creation fails where an account exists. -/
def initAccount (rt : Runtime Pubkey) (seeds : Seeds Pubkey) (k : Pubkey) (s : World Pubkey) :
    Except ProgramError UInt8 := do
  let bump ← checkCanonical rt seeds k
  require (s.Free k) .accountAlreadyInUse
  pure bump

def loadMint (mint : Pubkey) (s : World Pubkey) : Except ProgramError Unit :=
  require (s.mints mint = true) .accountNotInitialized

def loadToken (k : Pubkey) (s : World Pubkey) : Except ProgramError (TokenAccount Pubkey) :=
  orFail .accountNotInitialized (s.tokens k)

/-- `associated_token::mint = mint, associated_token::authority = authority`. -/
def checkAssociated (rt : Runtime Pubkey) (k : Pubkey) (t : TokenAccount Pubkey)
    (authority mint : Pubkey) : Except ProgramError Unit := do
  require (t.owner = authority) .constraintTokenOwner
  require (k = rt.associatedTokenAddress authority mint) .constraintAssociated

/-- The `protocol_config` constraints of the contexts the admin signs. -/
def loadConfigOfAdmin (rt : Runtime Pubkey) (protocolConfig admin : Pubkey) (s : World Pubkey) :
    Except ProgramError (ProtocolConfig Pubkey) := do
  let config ← s.load protocolConfig ProgramAccount.config?
  checkSeeds rt .protocolConfig config.bump protocolConfig
  require (config.admin = admin) (.maxim .unauthorized)
  pure config

/-- `has_one = owner`, the only constraint several contexts put on the wallet. -/
def loadWalletOfOwner (agentWallet owner : Pubkey) (s : World Pubkey) :
    Except ProgramError (AgentWallet Pubkey) := do
  let wallet ← s.load agentWallet ProgramAccount.wallet?
  require (wallet.owner = owner) (.maxim .unauthorized)
  pure wallet

/-! ## 3. Protocol configuration -/

structure InitProtocol (Pubkey : Type) where
  protocolConfig : Pubkey
  payer : Pubkey

structure RotateProtocolAdmin (Pubkey : Type) where
  protocolConfig : Pubkey
  admin : Pubkey

structure UpdateProtocolConfig (Pubkey : Type) where
  protocolConfig : Pubkey
  admin : Pubkey

def initProtocol [Inhabited Pubkey] (rt : Runtime Pubkey) (accs : InitProtocol Pubkey)
    (admin : Pubkey) (s : World Pubkey) : Except ProgramError (Outcome Pubkey) := do
  let bump ← initAccount rt .protocolConfig accs.protocolConfig s
  require (admin ≠ default) (.maxim .invalidOwner)
  pure (s.write accs.protocolConfig (some (.protocolConfig
    { admin := admin, version := PROGRAM_VERSION, maxSinglePaymentUsdc := 0, bump := bump })), none)

def rotateProtocolAdmin [Inhabited Pubkey] (rt : Runtime Pubkey)
    (accs : RotateProtocolAdmin Pubkey) (newAdmin : Pubkey) (s : World Pubkey) :
    Except ProgramError (Outcome Pubkey) := do
  let config ← loadConfigOfAdmin rt accs.protocolConfig accs.admin s
  require (newAdmin ≠ default) (.maxim .invalidOwner)
  pure (s.write accs.protocolConfig (some (.protocolConfig { config with admin := newAdmin })),
    none)

def updateProtocolConfig (rt : Runtime Pubkey) (accs : UpdateProtocolConfig Pubkey)
    (maxSinglePaymentUsdc : UInt64) (s : World Pubkey) : Except ProgramError (Outcome Pubkey) := do
  let config ← loadConfigOfAdmin rt accs.protocolConfig accs.admin s
  pure (s.write accs.protocolConfig (some (.protocolConfig
    { config with maxSinglePaymentUsdc := maxSinglePaymentUsdc })), none)

/-! ## 4. Registration -/

structure RegisterAgent (Pubkey : Type) where
  agentWallet : Pubkey
  usdcTokenAccount : Pubkey
  usdcMint : Pubkey
  owner : Pubkey

/-- `u8::is_ascii_alphanumeric`. -/
def isAsciiAlphanumeric (b : UInt8) : Bool :=
  (48 ≤ b && b ≤ 57) || (65 ≤ b && b ≤ 90) || (97 ≤ b && b ≤ 122)

/-- A byte an agent id may contain: `b'-'` is 45 and `b'_'` is 95. -/
def isAgentIdByte (b : UInt8) : Bool := isAsciiAlphanumeric b || b == 45 || b == 95

/-- Both `init`s: the wallet and its associated token account. The second is the
associated token program's, with its errors. -/
def RegisterAgent.tryAccounts (rt : Runtime Pubkey) (accs : RegisterAgent Pubkey)
    (agentId : Bytes) (s : World Pubkey) : Except ProgramError UInt8 := do
  loadMint accs.usdcMint s
  let bump ← initAccount rt (.agentWallet agentId) accs.agentWallet s
  require (accs.usdcTokenAccount = rt.associatedTokenAddress accs.agentWallet accs.usdcMint)
    .invalidSeeds
  require ((s.tokens accs.usdcTokenAccount).isNone = true) .illegalOwner
  pure bump

/-- The wallet `register_agent` writes. -/
def AgentWallet.registered (agentId : Bytes) (owner usdcTokenAccount : Pubkey) (now : Int64)
    (bump : UInt8) : AgentWallet Pubkey where
  agentId := agentId
  owner := owner
  usdcTokenAccount := usdcTokenAccount
  dailySpend := 0
  dailyWindowStart := now
  weeklySpend := 0
  weeklyWindowStart := now
  monthlySpend := 0
  monthlyWindowStart := now
  paymentSequence := 0
  totalPayments := 0
  totalVolume := 0
  lastPaymentAt := 0
  isActive := true
  isFrozen := false
  bump := bump

def registerAgent (rt : Runtime Pubkey) (now : Int64) (accs : RegisterAgent Pubkey)
    (agentId : Bytes) (s : World Pubkey) : Except ProgramError (Outcome Pubkey) := do
  let bump ← accs.tryAccounts rt agentId s
  require (agentId ≠ [] ∧ agentId.length ≤ MAX_AGENT_ID_LEN) (.maxim .agentIdTooLong)
  require (agentId.all isAgentIdByte = true) (.maxim .invalidAgentId)
  -- the sequence starts at 0 even where an earlier wallet left records
  let wallet := AgentWallet.registered agentId accs.owner accs.usdcTokenAccount now bump
  let tokens := Function.update s.tokens accs.usdcTokenAccount
    (some { mint := accs.usdcMint, owner := accs.agentWallet, amount := 0, isFrozen := false })
  pure ({ s.write accs.agentWallet (some (.agentWallet wallet)) with tokens := tokens }, none)

/-! ## 5. Spend policy -/

structure SetSpendPolicy (Pubkey : Type) where
  spendPolicy : Pubkey
  agentWallet : Pubkey
  owner : Pubkey

/-- `init_if_needed`: the policy account is free or already a policy. -/
def SetSpendPolicy.tryAccounts (rt : Runtime Pubkey) (accs : SetSpendPolicy Pubkey)
    (s : World Pubkey) : Except ProgramError UInt8 := do
  let wallet ← s.load accs.agentWallet ProgramAccount.wallet?
  let bump ← checkCanonical rt (.spendPolicy accs.agentWallet) accs.spendPolicy
  require (s.Free accs.spendPolicy ∨ (s.policy accs.spendPolicy).isSome = true)
    .accountDiscriminatorMismatch
  require (wallet.owner = accs.owner) (.maxim .unauthorized)
  pure bump

/-- The policy `set_spend_policy` writes: every field, whatever was there before. -/
def SpendPolicy.ofParams (agentWallet : Pubkey) (now : Int64) (params : SetSpendPolicyParams)
    (bump : UInt8) : SpendPolicy Pubkey where
  agentWallet := agentWallet
  dailyBudget := params.dailyBudget
  weeklyBudget := params.weeklyBudget
  monthlyBudget := params.monthlyBudget
  perCallLimit := params.perCallLimit
  rateLimitCalls := params.rateLimitCalls
  rateLimitWindowSecs := params.rateLimitWindowSecs
  rateLimitCallCount := 0
  rateLimitWindowStart := now
  highValueThreshold := params.highValueThreshold
  allowedDomainHashes := params.allowedDomainHashes
  blockedDomainHashes := params.blockedDomainHashes
  bump := bump

def setSpendPolicy (rt : Runtime Pubkey) (now : Int64) (accs : SetSpendPolicy Pubkey)
    (params : SetSpendPolicyParams) (s : World Pubkey) : Except ProgramError (Outcome Pubkey) := do
  let bump ← accs.tryAccounts rt s
  require (params.allowedDomainHashes.length ≤ MAX_DOMAIN_ENTRIES) (.maxim .domainListFull)
  require (params.blockedDomainHashes.length ≤ MAX_DOMAIN_ENTRIES) (.maxim .domainListFull)
  let policy := SpendPolicy.ofParams accs.agentWallet now params bump
  pure (s.write accs.spendPolicy (some (.spendPolicy policy)),
    some (.spendPolicyUpdated accs.agentWallet params.dailyBudget params.weeklyBudget
      params.monthlyBudget params.perCallLimit params.highValueThreshold now))

/-! ## 6. Settlement -/

structure SettlePayment (Pubkey : Type) where
  paymentRecord : Pubkey
  agentWallet : Pubkey
  spendPolicy : Pubkey
  usdcTokenAccount : Pubkey
  payeeTokenAccount : Pubkey
  usdcMint : Pubkey
  owner : Pubkey
  protocolConfig : Pubkey

/-- The accounts of a `settle_payment` whose context validates. -/
structure SettlePayment.Loaded (Pubkey : Type) where
  wallet : AgentWallet Pubkey
  policy : SpendPolicy Pubkey
  config : ProtocolConfig Pubkey
  payee : TokenAccount Pubkey
  recordBump : UInt8

/-- The payee's token account has no constraint, and `usdc_mint` is any mint. -/
def SettlePayment.tryAccounts (rt : Runtime Pubkey) (accs : SettlePayment Pubkey)
    (sequence : UInt64) (agentId : Bytes) (s : World Pubkey) :
    Except ProgramError (SettlePayment.Loaded Pubkey) := do
  -- first every account is deserialised, then `init` runs, then the constraints
  let wallet ← s.load accs.agentWallet ProgramAccount.wallet?
  let policy ← s.load accs.spendPolicy ProgramAccount.policy?
  let source ← loadToken accs.usdcTokenAccount s
  let payee ← loadToken accs.payeeTokenAccount s
  loadMint accs.usdcMint s
  let config ← s.load accs.protocolConfig ProgramAccount.config?
  let recordBump ← initAccount rt (.paymentRecord accs.agentWallet sequence) accs.paymentRecord s
  checkSeeds rt (.agentWallet agentId) wallet.bump accs.agentWallet
  require (wallet.owner = accs.owner) (.maxim .unauthorized)
  checkSeeds rt (.spendPolicy accs.agentWallet) policy.bump accs.spendPolicy
  require (policy.agentWallet = accs.agentWallet) .constraintRaw
  checkAssociated rt accs.usdcTokenAccount source accs.agentWallet accs.usdcMint
  checkSeeds rt .protocolConfig config.bump accs.protocolConfig
  pure { wallet, policy, config, payee, recordBump }

def SpendPolicy.enforceOnChain (p : SpendPolicy Pubkey) (amount : UInt64) : Bool :=
  0 < p.highValueThreshold && p.highValueThreshold ≤ amount

omit [DecidableEq Pubkey] in
/-- The body of `if enforce_on_chain`, on a wallet whose windows are reset. -/
def enforcePolicy (now : Int64) (wallet : AgentWallet Pubkey) (policy : SpendPolicy Pubkey)
    (params : SettlePaymentParams Pubkey) : Except ProgramError (SpendPolicy Pubkey) := do
  require (policy.withinPerCallLimit params.amountUsdc = true) (.maxim .perCallLimitExceeded)
  require (policy.withinDailyBudget wallet.dailySpend params.amountUsdc = true)
    (.maxim .dailyBudgetExceeded)
  require (policy.withinWeeklyBudget wallet.weeklySpend params.amountUsdc = true)
    (.maxim .weeklyBudgetExceeded)
  require (policy.withinMonthlyBudget wallet.monthlySpend params.amountUsdc = true)
    (.maxim .monthlyBudgetExceeded)
  let policy ← policy.resetRateWindowIfElapsed now
  require (policy.withinRateLimit = true) (.maxim .rateLimitExceeded)
  -- an empty list restricts nothing
  requireIf (policy.blockedDomainHashes ≠ []) (params.domainHash ∉ policy.blockedDomainHashes)
    (.maxim .domainBlocked)
  requireIf (policy.allowedDomainHashes ≠ []) (params.domainHash ∈ policy.allowedDomainHashes)
    (.maxim .domainNotAllowed)
  pure { policy with rateLimitCallCount := saturatingAdd32 policy.rateLimitCallCount 1 }

omit [DecidableEq Pubkey] in
/-- All checks of the handler, up to the token transfer: the wallet with its
windows reset and the policy with its rate counter advanced. -/
def settlePaymentChecks (now : Int64) (config : ProtocolConfig Pubkey)
    (wallet : AgentWallet Pubkey) (policy : SpendPolicy Pubkey) (sequence : UInt64)
    (params : SettlePaymentParams Pubkey) :
    Except ProgramError (AgentWallet Pubkey × SpendPolicy Pubkey) := do
  require (0 < params.amountUsdc) (.maxim .zeroPaymentAmount)
  require ((PaymentProtocol.fromDiscriminant params.protocol).isSome = true)
    (.maxim .invalidProtocol)
  require (sequence = wallet.paymentSequence) (.maxim .sequenceMismatch)
  requireIf (0 < config.maxSinglePaymentUsdc) (params.amountUsdc ≤ config.maxSinglePaymentUsdc)
    (.maxim .globalPaymentCapExceeded)
  require (wallet.isActive = true) (.maxim .agentNotActive)
  require (wallet.isFrozen = false) (.maxim .agentFrozen)
  -- the windows move whether or not the policy is enforced
  let wallet ← wallet.resetDailyWindowIfElapsed now
  let wallet ← wallet.resetWeeklyWindowIfElapsed now
  let wallet ← wallet.resetMonthlyWindowIfElapsed now
  if policy.enforceOnChain params.amountUsdc then do
    let policy ← enforcePolicy now wallet policy params
    pure (wallet, policy)
  else
    pure (wallet, policy)

/-- The transfer out of a wallet's token account. The program signs with the seeds
it rebuilds from the wallet's id and bump, so they must derive the authority. -/
def cpiTransferFromWallet (rt : Runtime Pubkey) (source destination authority : Pubkey)
    (agentId : Bytes) (bump : UInt8) (amount : UInt64) (tokens : Tokens Pubkey) :
    Except ProgramError (Tokens Pubkey) := do
  require (rt.createProgramAddress (.agentWallet agentId) bump = some authority)
    .privilegeEscalation
  tokenTransfer source destination authority amount tokens

/-- The counters both ledger instructions advance. -/
def AgentWallet.advance (w : AgentWallet Pubkey) : AgentWallet Pubkey :=
  { w with
    paymentSequence := saturatingAdd w.paymentSequence 1
    totalPayments := saturatingAdd w.totalPayments 1 }

/-- "Update wallet accounting state." -/
def AgentWallet.accountPayment (w : AgentWallet Pubkey) (now : Int64) (amount : UInt64) :
    AgentWallet Pubkey :=
  AgentWallet.advance
    { w with
      dailySpend := saturatingAdd w.dailySpend amount
      weeklySpend := saturatingAdd w.weeklySpend amount
      monthlySpend := saturatingAdd w.monthlySpend amount
      totalVolume := saturatingAdd w.totalVolume amount
      lastPaymentAt := now }

/-- The record of a settlement. `record.memo = params.memo` has no field to go to. -/
def PaymentRecord.settlement (agentWallet payee : Pubkey) (sequence : UInt64)
    (params : SettlePaymentParams Pubkey) (protocol : PaymentProtocol) (now : Int64)
    (bump : UInt8) : PaymentRecord Pubkey where
  agentWallet := agentWallet
  sequence := sequence
  endpointHash := params.endpointHash
  payee := payee
  amountUsdc := params.amountUsdc
  protocol := protocol
  settledAt := now
  policyPassed := true
  parentPayment := params.parentPayment
  bump := bump

def settlePayment (rt : Runtime Pubkey) (now : Int64) (accs : SettlePayment Pubkey)
    (sequence : UInt64) (params : SettlePaymentParams Pubkey) (s : World Pubkey) :
    Except ProgramError (Outcome Pubkey) := do
  let ctx ← accs.tryAccounts rt sequence params.agentId s
  let (wallet, policy) ←
    settlePaymentChecks now ctx.config ctx.wallet ctx.policy sequence params
  -- the transfer comes first, and the payee's account may be the source itself
  let tokens ← cpiTransferFromWallet rt accs.usdcTokenAccount accs.payeeTokenAccount
    accs.agentWallet wallet.agentId wallet.bump params.amountUsdc s.tokens
  let protocol ← orFail (.maxim .invalidProtocol)
    (PaymentProtocol.fromDiscriminant params.protocol)
  let record := PaymentRecord.settlement accs.agentWallet ctx.payee.owner sequence params
    protocol now ctx.recordBump
  let s := s.write accs.agentWallet
    (some (.agentWallet (wallet.accountPayment now params.amountUsdc)))
  let s := s.write accs.spendPolicy (some (.spendPolicy policy))
  let s := s.write accs.paymentRecord (some (.paymentRecord record))
  pure ({ s with tokens := tokens },
    some (.paymentSettled accs.agentWallet sequence params.endpointHash ctx.payee.owner
      params.amountUsdc params.protocol now params.parentPayment params.memo))

/-! ## 7. Violations -/

structure RecordPolicyViolation (Pubkey : Type) where
  paymentRecord : Pubkey
  agentWallet : Pubkey
  owner : Pubkey

def RecordPolicyViolation.tryAccounts (rt : Runtime Pubkey)
    (accs : RecordPolicyViolation Pubkey) (sequence : UInt64) (agentId : Bytes)
    (s : World Pubkey) : Except ProgramError (AgentWallet Pubkey × UInt8) := do
  let wallet ← s.load accs.agentWallet ProgramAccount.wallet?
  let bump ← initAccount rt (.paymentRecord accs.agentWallet sequence) accs.paymentRecord s
  checkSeeds rt (.agentWallet agentId) wallet.bump accs.agentWallet
  require (wallet.owner = accs.owner) (.maxim .unauthorized)
  pure (wallet, bump)

/-- The record of a violation, with no payee and no parent. -/
def PaymentRecord.violation [Inhabited Pubkey] (agentWallet : Pubkey) (sequence : UInt64)
    (params : SettlePaymentParams Pubkey) (protocol : PaymentProtocol) (now : Int64)
    (bump : UInt8) : PaymentRecord Pubkey where
  agentWallet := agentWallet
  sequence := sequence
  endpointHash := params.endpointHash
  payee := default
  amountUsdc := params.amountUsdc
  protocol := protocol
  settledAt := now
  policyPassed := false
  parentPayment := none
  bump := bump

def recordPolicyViolation [Inhabited Pubkey] (rt : Runtime Pubkey) (now : Int64)
    (accs : RecordPolicyViolation Pubkey) (sequence : UInt64)
    (params : SettlePaymentParams Pubkey) (violationReason : UInt8) (s : World Pubkey) :
    Except ProgramError (Outcome Pubkey) := do
  -- neither flag is looked at, the amount may be zero, and no window moves
  let (wallet, bump) ← accs.tryAccounts rt sequence params.agentId s
  let protocol ← orFail (.maxim .invalidProtocol)
    (PaymentProtocol.fromDiscriminant params.protocol)
  require (sequence = wallet.paymentSequence) (.maxim .sequenceMismatch)
  let record := PaymentRecord.violation accs.agentWallet sequence params protocol now bump
  let s := s.write accs.agentWallet (some (.agentWallet wallet.advance))
  let s := s.write accs.paymentRecord (some (.paymentRecord record))
  pure (s, some (.policyViolationRecorded accs.agentWallet sequence params.endpointHash
    params.amountUsdc violationReason))

/-! ## 8. Status, freeze, ownership -/

structure ManageAgentStatus (Pubkey : Type) where
  agentWallet : Pubkey
  owner : Pubkey

/-- The common body of `deactivate_agent` and `reactivate_agent`. -/
def setActive (now : Int64) (accs : ManageAgentStatus Pubkey) (isActive : Bool)
    (s : World Pubkey) : Except ProgramError (Outcome Pubkey) := do
  let wallet ← loadWalletOfOwner accs.agentWallet accs.owner s
  pure (s.write accs.agentWallet (some (.agentWallet { wallet with isActive := isActive })),
    some (.agentStatusChanged accs.agentWallet wallet.agentId isActive now))

def deactivateAgent (now : Int64) (accs : ManageAgentStatus Pubkey) (s : World Pubkey) :
    Except ProgramError (Outcome Pubkey) :=
  setActive now accs false s

def reactivateAgent (now : Int64) (accs : ManageAgentStatus Pubkey) (s : World Pubkey) :
    Except ProgramError (Outcome Pubkey) :=
  setActive now accs true s

structure ProtocolManageAgent (Pubkey : Type) where
  agentWallet : Pubkey
  protocolConfig : Pubkey
  admin : Pubkey

/-- The common body of `freeze_agent` and `unfreeze_agent`: any wallet account. -/
def setFrozen (rt : Runtime Pubkey) (now : Int64) (accs : ProtocolManageAgent Pubkey)
    (isFrozen : Bool) (s : World Pubkey) : Except ProgramError (Outcome Pubkey) := do
  -- the wallet has neither seeds nor `has_one`: the admin may name any
  let wallet ← s.load accs.agentWallet ProgramAccount.wallet?
  let _ ← loadConfigOfAdmin rt accs.protocolConfig accs.admin s
  pure (s.write accs.agentWallet (some (.agentWallet { wallet with isFrozen := isFrozen })),
    some (.agentFreezeChanged accs.agentWallet wallet.agentId isFrozen now))

def freezeAgent (rt : Runtime Pubkey) (now : Int64) (accs : ProtocolManageAgent Pubkey)
    (s : World Pubkey) : Except ProgramError (Outcome Pubkey) := setFrozen rt now accs true s

def unfreezeAgent (rt : Runtime Pubkey) (now : Int64) (accs : ProtocolManageAgent Pubkey)
    (s : World Pubkey) : Except ProgramError (Outcome Pubkey) := setFrozen rt now accs false s

structure TransferOwnership (Pubkey : Type) where
  agentWallet : Pubkey
  owner : Pubkey

def transferOwnership [Inhabited Pubkey] (now : Int64) (accs : TransferOwnership Pubkey)
    (newOwner : Pubkey) (s : World Pubkey) : Except ProgramError (Outcome Pubkey) := do
  let wallet ← loadWalletOfOwner accs.agentWallet accs.owner s
  require (newOwner ≠ default) (.maxim .invalidOwner)
  require (newOwner ≠ wallet.owner) (.maxim .ownerUnchanged)
  pure (s.write accs.agentWallet (some (.agentWallet { wallet with owner := newOwner })),
    some (.ownershipTransferred accs.agentWallet wallet.owner newOwner now))

/-! ## 9. Withdrawal and closing -/

structure WithdrawFunds (Pubkey : Type) where
  agentWallet : Pubkey
  usdcTokenAccount : Pubkey
  ownerTokenAccount : Pubkey
  usdcMint : Pubkey
  owner : Pubkey

/-- The accounts of a withdrawal whose context validates. -/
structure WithdrawFunds.Loaded (Pubkey : Type) where
  wallet : AgentWallet Pubkey
  source : TokenAccount Pubkey
  destination : TokenAccount Pubkey

def WithdrawFunds.tryAccounts (rt : Runtime Pubkey) (accs : WithdrawFunds Pubkey)
    (s : World Pubkey) : Except ProgramError (WithdrawFunds.Loaded Pubkey) := do
  let wallet ← s.load accs.agentWallet ProgramAccount.wallet?
  let source ← loadToken accs.usdcTokenAccount s
  let destination ← loadToken accs.ownerTokenAccount s
  loadMint accs.usdcMint s
  require (wallet.owner = accs.owner) (.maxim .unauthorized)
  checkAssociated rt accs.usdcTokenAccount source accs.agentWallet accs.usdcMint
  checkAssociated rt accs.ownerTokenAccount destination accs.owner accs.usdcMint
  pure { wallet, source, destination }

/-- The common end of both withdrawals: the transfer and the event. -/
def withdrawAmount (rt : Runtime Pubkey) (now : Int64) (accs : WithdrawFunds Pubkey)
    (ctx : WithdrawFunds.Loaded Pubkey) (amount : UInt64) (s : World Pubkey) :
    Except ProgramError (Outcome Pubkey) := do
  let tokens ← cpiTransferFromWallet rt accs.usdcTokenAccount accs.ownerTokenAccount
    accs.agentWallet ctx.wallet.agentId ctx.wallet.bump amount s.tokens
  pure ({ s with tokens := tokens },
    some (.fundsWithdrawn accs.agentWallet ctx.destination.owner amount now))

def withdrawFunds (rt : Runtime Pubkey) (now : Int64) (accs : WithdrawFunds Pubkey)
    (amount : UInt64) (s : World Pubkey) : Except ProgramError (Outcome Pubkey) := do
  let ctx ← accs.tryAccounts rt s
  require (0 < amount) (.maxim .zeroPaymentAmount)
  require (amount ≤ ctx.source.amount) (.maxim .insufficientFunds)
  withdrawAmount rt now accs ctx amount s

def withdrawAll (rt : Runtime Pubkey) (now : Int64) (accs : WithdrawFunds Pubkey)
    (s : World Pubkey) : Except ProgramError (Outcome Pubkey) := do
  let ctx ← accs.tryAccounts rt s
  require (0 < ctx.source.amount) (.maxim .zeroPaymentAmount)
  withdrawAmount rt now accs ctx ctx.source.amount s

structure CloseAgent (Pubkey : Type) where
  agentWallet : Pubkey
  spendPolicy : Pubkey
  usdcTokenAccount : Pubkey
  usdcMint : Pubkey
  owner : Pubkey

/-- The whole instruction: the handler's body is empty. The token account that
must be empty is the wallet's associated account of the mint the caller passes. -/
def closeAgent (rt : Runtime Pubkey) (accs : CloseAgent Pubkey) (s : World Pubkey) :
    Except ProgramError (Outcome Pubkey) := do
  let wallet ← s.load accs.agentWallet ProgramAccount.wallet?
  let policy ← s.load accs.spendPolicy ProgramAccount.policy?
  let token ← loadToken accs.usdcTokenAccount s
  loadMint accs.usdcMint s
  require (wallet.owner = accs.owner) (.maxim .unauthorized)
  -- `is_frozen` is not looked at
  require (wallet.isActive = false) (.maxim .agentStillActive)
  checkSeeds rt (.spendPolicy accs.agentWallet) policy.bump accs.spendPolicy
  checkAssociated rt accs.usdcTokenAccount token accs.agentWallet accs.usdcMint
  require (token.amount = 0) (.maxim .tokenAccountNotEmpty)
  -- the records of the wallet stay
  pure ((s.write accs.agentWallet none).write accs.spendPolicy none, none)

/-! ## 10. The instruction set -/

inductive Instruction (Pubkey : Type) where
  | initProtocol (accs : InitProtocol Pubkey) (admin : Pubkey)
  | rotateProtocolAdmin (accs : RotateProtocolAdmin Pubkey) (newAdmin : Pubkey)
  | updateProtocolConfig (accs : UpdateProtocolConfig Pubkey) (maxSinglePaymentUsdc : UInt64)
  | registerAgent (accs : RegisterAgent Pubkey) (agentId : Bytes)
  | setSpendPolicy (accs : SetSpendPolicy Pubkey) (params : SetSpendPolicyParams)
  | settlePayment (accs : SettlePayment Pubkey) (sequence : UInt64)
      (params : SettlePaymentParams Pubkey)
  | recordPolicyViolation (accs : RecordPolicyViolation Pubkey) (sequence : UInt64)
      (params : SettlePaymentParams Pubkey) (violationReason : UInt8)
  | deactivateAgent (accs : ManageAgentStatus Pubkey)
  | reactivateAgent (accs : ManageAgentStatus Pubkey)
  | freezeAgent (accs : ProtocolManageAgent Pubkey)
  | unfreezeAgent (accs : ProtocolManageAgent Pubkey)
  | withdrawFunds (accs : WithdrawFunds Pubkey) (amount : UInt64)
  | withdrawAll (accs : WithdrawFunds Pubkey)
  | transferOwnership (accs : TransferOwnership Pubkey) (newOwner : Pubkey)
  | closeAgent (accs : CloseAgent Pubkey)

/-- The key whose signature the context of the instruction asks for. -/
def Instruction.signer : Instruction Pubkey → Pubkey
  | .initProtocol accs _ => accs.payer
  | .rotateProtocolAdmin accs _ => accs.admin
  | .updateProtocolConfig accs _ => accs.admin
  | .registerAgent accs _ => accs.owner
  | .setSpendPolicy accs _ => accs.owner
  | .settlePayment accs _ _ => accs.owner
  | .recordPolicyViolation accs _ _ _ => accs.owner
  | .deactivateAgent accs => accs.owner
  | .reactivateAgent accs => accs.owner
  | .freezeAgent accs => accs.admin
  | .unfreezeAgent accs => accs.admin
  | .withdrawFunds accs _ => accs.owner
  | .withdrawAll accs => accs.owner
  | .transferOwnership accs _ => accs.owner
  | .closeAgent accs => accs.owner

/-- The handler of an instruction, with the clock reading it sees. -/
def handle [Inhabited Pubkey] (rt : Runtime Pubkey) (now : Int64) (i : Instruction Pubkey)
    (s : World Pubkey) : Except ProgramError (Outcome Pubkey) :=
  match i with
  | .initProtocol accs admin => initProtocol rt accs admin s
  | .rotateProtocolAdmin accs newAdmin => rotateProtocolAdmin rt accs newAdmin s
  | .updateProtocolConfig accs cap => updateProtocolConfig rt accs cap s
  | .registerAgent accs agentId => registerAgent rt now accs agentId s
  | .setSpendPolicy accs params => setSpendPolicy rt now accs params s
  | .settlePayment accs sequence params => settlePayment rt now accs sequence params s
  | .recordPolicyViolation accs sequence params reason =>
      recordPolicyViolation rt now accs sequence params reason s
  | .deactivateAgent accs => deactivateAgent now accs s
  | .reactivateAgent accs => reactivateAgent now accs s
  | .freezeAgent accs => freezeAgent rt now accs s
  | .unfreezeAgent accs => unfreezeAgent rt now accs s
  | .withdrawFunds accs amount => withdrawFunds rt now accs amount s
  | .withdrawAll accs => withdrawAll rt now accs s
  | .transferOwnership accs newOwner => transferOwnership now accs newOwner s
  | .closeAgent accs => closeAgent rt accs s

/-- A submitted instruction: its signer must have signed. The context looks at the
signature while it deserialises; here a missing one is reported before any other fault. -/
def execute [Inhabited Pubkey] (rt : Runtime Pubkey) (now : Int64) (i : Instruction Pubkey)
    (s : World Pubkey) : Except ProgramError (Outcome Pubkey) := do
  require (rt.canSign i.signer = true) .accountNotSigner
  handle rt now i s

end MaximProtocol
