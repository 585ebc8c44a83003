import MaximProtocol.Recovery
import MaximProtocol.Library.Failures

/-!
# What an instruction fails with

1. What each instruction names: accounts, derived addresses, owners.
2. `Fault`: what can be wrong with an instruction in a state, and the error for it. One case
   for each check of the source that can fail in a state the program comes to.
3. What each part of a handler fails with.
4. `execute_faults`: an instruction fails with one of its faults.
-/

namespace MaximProtocol

open MachineInt World Transitions Tumbling

variable {Pubkey : Type}

/-! ## 1. What an instruction names -/

/-- An account that a context loads, and the kind it must be of. -/
inductive Named (Pubkey : Type) where
  | config (k : Pubkey)
  | wallet (k : Pubkey)
  | policy (k : Pubkey)
  | token (k : Pubkey)
  | mint (k : Pubkey)

def Named.Missing (s : World Pubkey) : Named Pubkey → Prop
  | .config k => s.Free k
  | .wallet k => s.Free k
  | .policy k => s.Free k
  | .token k => s.tokens k = none
  | .mint k => s.mints k = false

/-- The account exists and is of another kind. -/
def Named.Foreign (s : World Pubkey) : Named Pubkey → Prop
  | .config k => ¬ s.Free k ∧ s.config k = none
  | .wallet k => ¬ s.Free k ∧ s.wallet k = none
  | .policy k => ¬ s.Free k ∧ s.policy k = none
  | .token _ => False
  | .mint _ => False

def Instruction.loads : Instruction Pubkey → List (Named Pubkey)
  | .initProtocol _ _ => []
  | .rotateProtocolAdmin accs _ => [.config accs.protocolConfig]
  | .updateProtocolConfig accs _ => [.config accs.protocolConfig]
  | .registerAgent accs _ => [.mint accs.usdcMint]
  | .setSpendPolicy accs _ => [.wallet accs.agentWallet]
  | .settlePayment accs _ _ =>
      [.wallet accs.agentWallet, .policy accs.spendPolicy, .token accs.usdcTokenAccount,
        .token accs.payeeTokenAccount, .mint accs.usdcMint, .config accs.protocolConfig]
  | .recordPolicyViolation accs _ _ _ => [.wallet accs.agentWallet]
  | .deactivateAgent accs => [.wallet accs.agentWallet]
  | .reactivateAgent accs => [.wallet accs.agentWallet]
  | .freezeAgent accs => [.wallet accs.agentWallet, .config accs.protocolConfig]
  | .unfreezeAgent accs => [.wallet accs.agentWallet, .config accs.protocolConfig]
  | .withdrawFunds accs _ =>
      [.wallet accs.agentWallet, .token accs.usdcTokenAccount, .token accs.ownerTokenAccount,
        .mint accs.usdcMint]
  | .withdrawAll accs =>
      [.wallet accs.agentWallet, .token accs.usdcTokenAccount, .token accs.ownerTokenAccount,
        .mint accs.usdcMint]
  | .transferOwnership accs _ => [.wallet accs.agentWallet]
  | .closeAgent accs =>
      [.wallet accs.agentWallet, .policy accs.spendPolicy, .token accs.usdcTokenAccount,
        .mint accs.usdcMint]

/-- The addresses at which the instruction creates an account of the program. -/
def Instruction.inits : Instruction Pubkey → List Pubkey
  | .initProtocol accs _ => [accs.protocolConfig]
  | .registerAgent accs _ => [accs.agentWallet]
  | .settlePayment accs _ _ => [accs.paymentRecord]
  | .recordPolicyViolation accs _ _ _ => [accs.paymentRecord]
  | _ => []

/-- The addresses that a context derives, each with its seeds. -/
def Instruction.derived : Instruction Pubkey → List (Seeds Pubkey × Pubkey)
  | .initProtocol accs _ => [(.protocolConfig, accs.protocolConfig)]
  | .rotateProtocolAdmin accs _ => [(.protocolConfig, accs.protocolConfig)]
  | .updateProtocolConfig accs _ => [(.protocolConfig, accs.protocolConfig)]
  | .registerAgent accs agentId =>
      -- an id of more than 32 bytes derives no address
      if agentId.length ≤ 32 then [(.agentWallet agentId, accs.agentWallet)] else []
  | .setSpendPolicy accs _ => [(.spendPolicy accs.agentWallet, accs.spendPolicy)]
  | .settlePayment accs n params =>
      [(.paymentRecord accs.agentWallet n, accs.paymentRecord),
        (.agentWallet params.agentId, accs.agentWallet),
        (.spendPolicy accs.agentWallet, accs.spendPolicy),
        (.protocolConfig, accs.protocolConfig)]
  | .recordPolicyViolation accs n params _ =>
      [(.paymentRecord accs.agentWallet n, accs.paymentRecord),
        (.agentWallet params.agentId, accs.agentWallet)]
  | .freezeAgent accs => [(.protocolConfig, accs.protocolConfig)]
  | .unfreezeAgent accs => [(.protocolConfig, accs.protocolConfig)]
  | .closeAgent accs => [(.spendPolicy accs.agentWallet, accs.spendPolicy)]
  | _ => []

/-- The associated token accounts the context loads: address, authority and mint. -/
def Instruction.associated : Instruction Pubkey → List (Pubkey × Pubkey × Pubkey)
  | .settlePayment accs _ _ => [(accs.usdcTokenAccount, accs.agentWallet, accs.usdcMint)]
  | .withdrawFunds accs _ =>
      [(accs.usdcTokenAccount, accs.agentWallet, accs.usdcMint),
        (accs.ownerTokenAccount, accs.owner, accs.usdcMint)]
  | .withdrawAll accs =>
      [(accs.usdcTokenAccount, accs.agentWallet, accs.usdcMint),
        (accs.ownerTokenAccount, accs.owner, accs.usdcMint)]
  | .closeAgent accs => [(accs.usdcTokenAccount, accs.agentWallet, accs.usdcMint)]
  | _ => []

/-- The token accounts between which the instruction moves tokens. -/
def Instruction.transfers : Instruction Pubkey → List Pubkey
  | .settlePayment accs _ _ => [accs.usdcTokenAccount, accs.payeeTokenAccount]
  | .withdrawFunds accs _ => [accs.usdcTokenAccount, accs.ownerTokenAccount]
  | .withdrawAll accs => [accs.usdcTokenAccount, accs.ownerTokenAccount]
  | _ => []

/-- The wallet whose owner must sign. -/
def Instruction.ownedWallet : Instruction Pubkey → Option Pubkey
  | .setSpendPolicy accs _ => some accs.agentWallet
  | .settlePayment accs _ _ => some accs.agentWallet
  | .recordPolicyViolation accs _ _ _ => some accs.agentWallet
  | .deactivateAgent accs => some accs.agentWallet
  | .reactivateAgent accs => some accs.agentWallet
  | .withdrawFunds accs _ => some accs.agentWallet
  | .withdrawAll accs => some accs.agentWallet
  | .transferOwnership accs _ => some accs.agentWallet
  | .closeAgent accs => some accs.agentWallet
  | _ => none

/-- The configuration whose admin must sign. -/
def Instruction.adminConfig : Instruction Pubkey → Option Pubkey
  | .rotateProtocolAdmin accs _ => some accs.protocolConfig
  | .updateProtocolConfig accs _ => some accs.protocolConfig
  | .freezeAgent accs => some accs.protocolConfig
  | .unfreezeAgent accs => some accs.protocolConfig
  | _ => none

/-- The new admin or owner. -/
def Instruction.appointee : Instruction Pubkey → Option Pubkey
  | .initProtocol _ admin => some admin
  | .rotateProtocolAdmin _ newAdmin => some newAdmin
  | .transferOwnership _ newOwner => some newOwner
  | _ => none

/-- The wallet, the slot and the parameters of a ledger instruction. -/
def Instruction.entry :
    Instruction Pubkey → Option (Pubkey × UInt64 × SettlePaymentParams Pubkey)
  | .settlePayment accs n params => some (accs.agentWallet, n, params)
  | .recordPolicyViolation accs n params _ => some (accs.agentWallet, n, params)
  | _ => none

/-- The amount that must not be zero. -/
def Instruction.moved (s : World Pubkey) : Instruction Pubkey → Option UInt64
  | .settlePayment _ _ params => some params.amountUsdc
  | .withdrawFunds _ amount => some amount
  | .withdrawAll accs => (s.tokens accs.usdcTokenAccount).map TokenAccount.amount
  | _ => none

/-! ## 2. Faults -/

def Horizon.exceeded : Horizon → MaximError
  | .daily => .dailyBudgetExceeded
  | .weekly => .weeklyBudgetExceeded
  | .monthly => .monthlyBudgetExceeded

/-- The reset of a window that started at `start` overflows. -/
def Overflows (period start now : Int) : Prop :=
  2 ^ 63 ≤ start + period ∨ (start + period ≤ now ∧ 2 ^ 63 ≤ now - start)

/-- Why the policy stops a payment that it is enforced for. -/
inductive PolicyFault (now : Int64) (w : AgentWallet Pubkey) (p : SpendPolicy Pubkey)
    (params : SettlePaymentParams Pubkey) : ProgramError → Prop
  | perCallLimit : p.perCallLimit ≠ 0 → p.perCallLimit < params.amountUsdc →
      PolicyFault now w p params (.maxim .perCallLimitExceeded)
  | budget (h : Horizon) : (h.budget p).toNat ≠ 0 →
      (h.budget p).toNat < min u64Max
        ((roll h.seconds now.toInt (w.window h)).spent + params.amountUsdc.toNat) →
      PolicyFault now w p params (.maxim h.exceeded)
  | overflow : 0 < p.rateLimitWindowSecs →
      2 ^ 63 ≤ p.rateLimitWindowStart.toInt + p.rateLimitWindowSecs.toNat →
      PolicyFault now w p params .arithmeticOverflow
  | rateLimit : p.rateLimitCalls ≠ 0 → p.rateLimitCalls.toNat ≤ p.rateCount now →
      PolicyFault now w p params (.maxim .rateLimitExceeded)
  | blocked : params.domainHash ∈ p.blockedDomainHashes →
      PolicyFault now w p params (.maxim .domainBlocked)
  | notAllowed : p.allowedDomainHashes ≠ [] → params.domainHash ∉ p.allowedDomainHashes →
      PolicyFault now w p params (.maxim .domainNotAllowed)

/-- Why a settlement between accounts that are as they should be is stopped. -/
inductive PaymentFault (now : Int64) (s : World Pubkey) (accs : SettlePayment Pubkey)
    (params : SettlePaymentParams Pubkey) : ProgramError → Prop
  | cap {c : ProtocolConfig Pubkey} : s.config accs.protocolConfig = some c →
      0 < c.maxSinglePaymentUsdc → c.maxSinglePaymentUsdc < params.amountUsdc →
      PaymentFault now s accs params (.maxim .globalPaymentCapExceeded)
  | notActive {w : AgentWallet Pubkey} : s.wallet accs.agentWallet = some w →
      w.isActive = false → PaymentFault now s accs params (.maxim .agentNotActive)
  | frozen {w : AgentWallet Pubkey} : s.wallet accs.agentWallet = some w →
      w.isFrozen = true → PaymentFault now s accs params (.maxim .agentFrozen)
  | overflow {w : AgentWallet Pubkey} (h : Horizon) : s.wallet accs.agentWallet = some w →
      Overflows h.seconds (h.windowStart w).toInt now.toInt →
      PaymentFault now s accs params .arithmeticOverflow
  | policy {w : AgentWallet Pubkey} {p : SpendPolicy Pubkey} {e : ProgramError} :
      s.wallet accs.agentWallet = some w → s.policy accs.spendPolicy = some p →
      p.enforceOnChain params.amountUsdc = true → PolicyFault now w p params e →
      PaymentFault now s accs params e
  | insufficientFunds {t : TokenAccount Pubkey} : s.tokens accs.usdcTokenAccount = some t →
      t.amount < params.amountUsdc → PaymentFault now s accs params .tokenInsufficientFunds
  | mint {t : TokenAccount Pubkey} : s.tokens accs.payeeTokenAccount = some t →
      t.mint ≠ accs.usdcMint → PaymentFault now s accs params .tokenMintMismatch

variable [DecidableEq Pubkey] [Inhabited Pubkey]

/-- What is wrong with the instruction, and the error for it. -/
inductive Fault (rt : Runtime Pubkey) (now : Int64) (s : World Pubkey) (i : Instruction Pubkey) :
    ProgramError → Prop
  | notSigned : rt.canSign i.signer = false → Fault rt now s i .accountNotSigner
  | missing {a : Named Pubkey} : a ∈ i.loads → a.Missing s →
      Fault rt now s i .accountNotInitialized
  | foreign {a : Named Pubkey} : a ∈ i.loads → a.Foreign s →
      Fault rt now s i .accountDiscriminatorMismatch
  /-- `init_if_needed` takes a free address or a policy. -/
  | occupied {accs : SetSpendPolicy Pubkey} {params : SetSpendPolicyParams} :
      i = .setSpendPolicy accs params → (Named.policy accs.spendPolicy).Foreign s →
      Fault rt now s i .accountDiscriminatorMismatch
  | inUse {k : Pubkey} : k ∈ i.inits → ¬ s.Free k → Fault rt now s i .accountAlreadyInUse
  | tokenInUse {accs : RegisterAgent Pubkey} {agentId : Bytes} :
      i = .registerAgent accs agentId → s.tokens accs.usdcTokenAccount ≠ none →
      Fault rt now s i .illegalOwner
  | tokenAddress {accs : RegisterAgent Pubkey} {agentId : Bytes} :
      i = .registerAgent accs agentId →
      accs.usdcTokenAccount ≠ rt.associatedTokenAddress accs.agentWallet accs.usdcMint →
      Fault rt now s i .invalidSeeds
  | longSeed {accs : RegisterAgent Pubkey} {agentId : Bytes} :
      i = .registerAgent accs agentId → 32 < agentId.length → Fault rt now s i .seedPanic
  | seeds {seeds : Seeds Pubkey} {k : Pubkey} : (seeds, k) ∈ i.derived →
      (∀ bump, rt.findProgramAddress seeds ≠ some (k, bump)) → Fault rt now s i .constraintSeeds
  | tokenOwner {k authority mint : Pubkey} {t : TokenAccount Pubkey} :
      (k, authority, mint) ∈ i.associated → s.tokens k = some t → t.owner ≠ authority →
      Fault rt now s i .constraintTokenOwner
  | associated {k authority mint : Pubkey} : (k, authority, mint) ∈ i.associated →
      k ≠ rt.associatedTokenAddress authority mint → Fault rt now s i .constraintAssociated
  /-- The freeze authority of the mint holds one of the token accounts. -/
  | tokenFrozen {k : Pubkey} : k ∈ i.transfers → ¬ s.tokens.Thawed k →
      Fault rt now s i .tokenAccountFrozen
  | notOwner {k : Pubkey} {w : AgentWallet Pubkey} : i.ownedWallet = some k →
      s.wallet k = some w → w.owner ≠ i.signer → Fault rt now s i (.maxim .unauthorized)
  | notAdmin {k : Pubkey} {c : ProtocolConfig Pubkey} : i.adminConfig = some k →
      s.config k = some c → c.admin ≠ i.signer → Fault rt now s i (.maxim .unauthorized)
  | invalidOwner : i.appointee = some default → Fault rt now s i (.maxim .invalidOwner)
  | ownerUnchanged {accs : TransferOwnership Pubkey} {newOwner : Pubkey}
      {w : AgentWallet Pubkey} : i = .transferOwnership accs newOwner →
      s.wallet accs.agentWallet = some w → newOwner = w.owner →
      Fault rt now s i (.maxim .ownerUnchanged)
  | idLength {accs : RegisterAgent Pubkey} {agentId : Bytes} : i = .registerAgent accs agentId →
      (agentId = [] ∨ MAX_AGENT_ID_LEN < agentId.length) →
      Fault rt now s i (.maxim .agentIdTooLong)
  | idBytes {accs : RegisterAgent Pubkey} {agentId : Bytes} {b : UInt8} :
      i = .registerAgent accs agentId → b ∈ agentId → isAgentIdByte b = false →
      Fault rt now s i (.maxim .invalidAgentId)
  | domainList {accs : SetSpendPolicy Pubkey} {params : SetSpendPolicyParams} :
      i = .setSpendPolicy accs params →
      (MAX_DOMAIN_ENTRIES < params.allowedDomainHashes.length ∨
        MAX_DOMAIN_ENTRIES < params.blockedDomainHashes.length) →
      Fault rt now s i (.maxim .domainListFull)
  | zeroAmount : i.moved s = some 0 → Fault rt now s i (.maxim .zeroPaymentAmount)
  | protocol {k : Pubkey} {n : UInt64} {params : SettlePaymentParams Pubkey} :
      i.entry = some (k, n, params) → params.protocol ≠ 0 → params.protocol ≠ 1 →
      Fault rt now s i (.maxim .invalidProtocol)
  | sequence {k : Pubkey} {n : UInt64} {params : SettlePaymentParams Pubkey}
      {w : AgentWallet Pubkey} : i.entry = some (k, n, params) → s.wallet k = some w →
      n ≠ w.paymentSequence → Fault rt now s i (.maxim .sequenceMismatch)
  | payment {accs : SettlePayment Pubkey} {n : UInt64} {params : SettlePaymentParams Pubkey}
      {e : ProgramError} : i = .settlePayment accs n params →
      PaymentFault now s accs params e → Fault rt now s i e
  | insufficientFunds {accs : WithdrawFunds Pubkey} {amount : UInt64} {t : TokenAccount Pubkey} :
      i = .withdrawFunds accs amount → s.tokens accs.usdcTokenAccount = some t →
      t.amount < amount → Fault rt now s i (.maxim .insufficientFunds)
  | stillActive {accs : CloseAgent Pubkey} {w : AgentWallet Pubkey} : i = .closeAgent accs →
      s.wallet accs.agentWallet = some w → w.isActive = true →
      Fault rt now s i (.maxim .agentStillActive)
  | notEmpty {accs : CloseAgent Pubkey} {t : TokenAccount Pubkey} : i = .closeAgent accs →
      s.tokens accs.usdcTokenAccount = some t → t.amount ≠ 0 →
      Fault rt now s i (.maxim .tokenAccountNotEmpty)

/-! ## 3. What the parts of a handler fail with -/

section Parts

omit [Inhabited Pubkey]

variable {rt : Runtime Pubkey} {s : World Pubkey} {now : Int64} {P : ProgramError → Prop}
variable {k authority mint source destination : Pubkey} {amount : UInt64}

omit [DecidableEq Pubkey] in
theorem failsIn_load {α : Type} {kind? : ProgramAccount Pubkey → Option α}
    (hmissing : s.Free k → P .accountNotInitialized)
    (hforeign : ¬ s.Free k ∧ (s.accounts k).bind kind? = none → P .accountDiscriminatorMismatch) :
    FailsIn P (s.load k kind?) := by
  refine failsIn_bind (failsIn_orFail hmissing) fun a ha => failsIn_orFail fun hkind => ?_
  have hsome := orFail_eq_ok.mp ha
  refine hforeign ⟨fun hfree => ?_, ?_⟩
  · rw [World.Free, hsome] at hfree
    cases hfree
  · rw [hsome]
    exact hkind

/-- The address that a context derives is the one that is found from the seeds, if they
are not too long. -/
theorem failsIn_canonical {seeds : Seeds Pubkey} (hlong : seeds.fits = false → P .seedPanic)
    (h : seeds.fits = true → (∀ bump, rt.findProgramAddress seeds ≠ some (k, bump)) →
      P .constraintSeeds) :
    FailsIn P (checkCanonical rt seeds k) := by
  refine failsIn_bind (failsIn_orFail fun hnone => hlong ?_) fun x hx => ?_
  · rw [← rt.find_isSome seeds, hnone]
    rfl
  · have hx := orFail_eq_ok.mp hx
    have hfits : seeds.fits = true := by
      rw [← rt.find_isSome seeds, hx]
      rfl
    refine failsIn_bind (failsIn_require fun hne => h hfits fun bump hfind => hne ?_)
      fun _ _ => failsIn_pure
    rw [hfind] at hx
    cases hx
    rfl

theorem failsIn_init {seeds : Seeds Pubkey} (hlong : seeds.fits = false → P .seedPanic)
    (hseeds : seeds.fits = true → (∀ bump, rt.findProgramAddress seeds ≠ some (k, bump)) →
      P .constraintSeeds)
    (hinUse : ¬ s.Free k → P .accountAlreadyInUse) : FailsIn P (initAccount rt seeds k s) :=
  failsIn_bind (failsIn_canonical hlong hseeds) fun _ _ =>
    failsIn_bind (failsIn_require hinUse) fun _ _ => failsIn_pure

omit [DecidableEq Pubkey] in
/-- Seeds that derive `k` with any bump are those that `k` was found from. -/
theorem find_of_create {seeds seeds' : Seeds Pubkey} {bump bump' : UInt8}
    (hfound : rt.findProgramAddress seeds' = some (k, bump'))
    (h : rt.createProgramAddress seeds bump = some k) :
    rt.findProgramAddress seeds = some (k, bump') := by
  obtain ⟨rfl, _⟩ := rt.create_inj h (rt.find_create hfound)
  exact hfound

/-- A stored bump that was found once fails only with other seeds. -/
theorem failsIn_seeds {seeds seeds' : Seeds Pubkey} {bump : UInt8}
    (hfound : rt.findProgramAddress seeds' = some (k, bump))
    (h : (∀ bump, rt.findProgramAddress seeds ≠ some (k, bump)) → P .constraintSeeds) :
    FailsIn P (checkSeeds rt seeds bump k) := by
  refine failsIn_require fun hne => h fun bump' hfind => hne ?_
  obtain ⟨rfl, rfl⟩ := rt.create_inj (rt.find_create hfind) (rt.find_create hfound)
  exact rt.find_create hfind

theorem failsIn_associated {t : TokenAccount Pubkey}
    (howner : t.owner ≠ authority → P .constraintTokenOwner)
    (haddress : k ≠ rt.associatedTokenAddress authority mint → P .constraintAssociated) :
    FailsIn P (checkAssociated rt k t authority mint) :=
  failsIn_bind (failsIn_require howner) fun _ _ => failsIn_require haddress

omit [DecidableEq Pubkey] in
theorem failsIn_mint (h : s.mints k = false → P .accountNotInitialized) :
    FailsIn P (loadMint k s) :=
  failsIn_require fun hne => h (Bool.eq_false_iff.mpr hne)

/-- Between lawful token accounts there is no overflow. -/
theorem failsIn_transfer {mints : Pubkey → Bool} {tokens : Tokens Pubkey}
    {src dst : TokenAccount Pubkey} (hl : LawfulTokens rt mints tokens)
    (hs : tokens source = some src) (hd : tokens destination = some dst)
    (ho : src.owner = authority)
    (hfrozen : ∀ k ∈ [source, destination], ¬ tokens.Thawed k → P .tokenAccountFrozen)
    (hfunds : src.amount < amount → P .tokenInsufficientFunds)
    (hmint : src.mint ≠ dst.mint → P .tokenMintMismatch) :
    FailsIn P (tokenTransfer source destination authority amount tokens) := by
  have hsrc : ∀ t, orFail ProgramError.accountNotInitialized (tokens source) = .ok t → t = src :=
    fun t ht => Option.some.inj ((orFail_eq_ok.mp ht).symm.trans hs)
  have hdst : ∀ t, orFail ProgramError.accountNotInitialized (tokens destination) = .ok t →
      t = dst := fun t ht => Option.some.inj ((orFail_eq_ok.mp ht).symm.trans hd)
  refine failsIn_bind (failsIn_orFail fun hnone => by rw [hs] at hnone; cases hnone)
    fun t ht => ?_
  obtain rfl := hsrc t ht
  refine failsIn_bind (failsIn_orFail fun hnone => by rw [hd] at hnone; cases hnone)
    fun t' ht' => ?_
  obtain rfl := hdst t' ht'
  refine failsIn_bind (failsIn_require fun hheld => ?_) fun _ _ => ?_
  · by_cases hz : t.isFrozen = false
    · exact hfrozen destination (by simp) fun hthawed => hheld ⟨hz, hthawed t' hd⟩
    · exact hfrozen source (by simp) fun hthawed => hz (hthawed t hs)
  refine failsIn_bind (failsIn_require fun hlt => hfunds (UInt64.not_le.mp hlt)) fun _ hle => ?_
  refine failsIn_bind (failsIn_require hmint) fun _ hm => ?_
  refine failsIn_bind (failsIn_require fun hne => absurd ho hne) fun _ _ => ?_
  refine failsIn_ite (fun _ => failsIn_pure) fun hne => ?_
  refine failsIn_bind (failsIn_require fun hover => ?_) fun _ _ => failsIn_pure
  -- both accounts together hold no more than the supply of their mint
  have hpair := pair_supply hl hs hd hne (require_eq_ok.mp hm)
  have hle := UInt64.le_iff_toNat_le.mp (require_eq_ok.mp hle)
  omega

theorem failsIn_walletTransfer {w : AgentWallet Pubkey} {src dst : TokenAccount Pubkey}
    {agentId : Bytes} {bump : UInt8} (hwf : WellFormed rt s) (hw : s.wallet k = some w)
    (hid : agentId = w.agentId) (hbump : bump = w.bump)
    (hs : s.tokens source = some src) (hd : s.tokens destination = some dst)
    (ho : src.owner = k)
    (hfrozen : ∀ a ∈ [source, destination], ¬ s.tokens.Thawed a → P .tokenAccountFrozen)
    (hfunds : src.amount < amount → P .tokenInsufficientFunds)
    (hmint : src.mint ≠ dst.mint → P .tokenMintMismatch) :
    FailsIn P (cpiTransferFromWallet rt source destination k agentId bump amount s.tokens) := by
  subst hid hbump
  refine failsIn_bind (failsIn_require fun hne => ?_) fun _ _ =>
    failsIn_transfer hwf.lawful hs hd ho hfrozen hfunds hmint
  exact absurd (rt.find_create (hwf.wallet hw)) hne

omit [DecidableEq Pubkey] in
theorem failsIn_window {period start : Int64} {spend : UInt64} (hp : 0 < period.toInt)
    (h : Overflows period.toInt start.toInt now.toInt → P .arithmeticOverflow) :
    FailsIn P (resetWindowIfElapsed period spend start now) := by
  have hlo := start.le_toInt
  refine failsIn_bind (failsIn_checkedI64 fun hr => h (.inl (by omega))) fun e he => ?_
  have he := checkedI64_eq_ok.mp he
  refine failsIn_ite (fun hle => ?_) fun _ => failsIn_pure
  rw [Int64.le_iff_toInt_le, he] at hle
  refine failsIn_bind (failsIn_checkedI64 fun hr => h (.inr ⟨hle, by omega⟩)) fun el hel => ?_
  have hel := checkedI64_eq_ok.mp hel
  have hlt := now.toInt_lt
  have hellt := el.toInt_lt
  -- the whole periods that have elapsed last no longer than what has
  have hq := Int.ediv_mul_le el.toInt (ne_of_gt hp)
  have hq0 : 0 ≤ el.toInt / period.toInt := Int.ediv_nonneg (by omega) (by omega)
  have hq1 : el.toInt / period.toInt ≤ el.toInt := Int.ediv_le_self _ (by omega)
  have hq2 : 0 ≤ el.toInt / period.toInt * period.toInt := Int.mul_nonneg hq0 (by omega)
  have hdiv : el.toInt.tdiv period.toInt = el.toInt / period.toInt :=
    Int.tdiv_eq_ediv_of_nonneg (by omega)
  refine failsIn_bind (failsIn_checkedI64 fun hr => absurd (by omega) hr) fun q hqq => ?_
  have hqq := checkedI64_eq_ok.mp hqq
  rw [hdiv] at hqq
  rw [← hqq] at hq hq2
  refine failsIn_bind (failsIn_checkedI64 fun hr => absurd (by omega) hr) fun sh hsh => ?_
  have hsh := checkedI64_eq_ok.mp hsh
  exact failsIn_bind (failsIn_checkedI64 fun hr => absurd (by omega) hr) fun _ _ => failsIn_pure

omit [DecidableEq Pubkey] in
theorem window_fits {period start : Int64} {spend : UInt64} {r : UInt64 × Int64}
    (h : resetWindowIfElapsed period spend start now = .ok r) :
    ¬ Overflows period.toInt start.toInt now.toInt := by
  obtain ⟨e, he, h⟩ := bind_eq_ok.mp h
  have he := checkedI64_eq_ok.mp he
  have hlt := e.toInt_lt
  rintro (hover | ⟨hle, hover⟩)
  · omega
  · rw [if_pos (by rw [Int64.le_iff_toInt_le, he]; exact hle)] at h
    obtain ⟨el, hel, _⟩ := bind_eq_ok.mp h
    have hel := checkedI64_eq_ok.mp hel
    have hellt := el.toInt_lt
    omega

variable {w w₁ : AgentWallet Pubkey} {p p₁ : SpendPolicy Pubkey}
variable {params : SettlePaymentParams Pubkey}

omit [DecidableEq Pubkey] in
theorem failsIn_rate (h : 0 < p.rateLimitWindowSecs →
      2 ^ 63 ≤ p.rateLimitWindowStart.toInt + p.rateLimitWindowSecs.toNat →
      P .arithmeticOverflow) : FailsIn P (p.resetRateWindowIfElapsed now) := by
  refine failsIn_ite (fun hsecs => ?_) fun _ => failsIn_pure
  refine failsIn_bind (failsIn_checkedI64 fun hr => h hsecs ?_) fun _ _ =>
    failsIn_ite (fun _ => failsIn_pure) fun _ => failsIn_pure
  have hlo := p.rateLimitWindowStart.le_toInt
  rw [toInt_ofNat_u32] at hr
  omega

omit [DecidableEq Pubkey] in
theorem rate_fits (h : p.resetRateWindowIfElapsed now = .ok p₁)
    (hsecs : 0 < p.rateLimitWindowSecs) :
    p.rateLimitWindowStart.toInt + p.rateLimitWindowSecs.toNat < 2 ^ 63 := by
  unfold SpendPolicy.resetRateWindowIfElapsed at h
  rw [if_pos hsecs] at h
  obtain ⟨e, he, _⟩ := bind_eq_ok.mp h
  have he := checkedI64_eq_ok.mp he
  rw [toInt_ofNat_u32] at he
  have hlt := e.toInt_lt
  omega

omit [DecidableEq Pubkey] in
theorem spend_of_resets (hr : Resets now w w₁) (h : Horizon) :
    (h.spend w₁).toNat = (roll h.seconds now.toInt (w.window h)).spent :=
  congrArg Window.spent (hr.window h)

omit [DecidableEq Pubkey] in
/-- The body of `if enforce_on_chain`, on a wallet whose windows are reset. -/
theorem failsIn_enforce (hr : Resets now w w₁) :
    FailsIn (PolicyFault now w p params) (enforcePolicy now w₁ p params) := by
  have hbudget : ∀ h : Horizon, ¬ SpendPolicy.withinBudget (h.budget p) (h.spend w₁)
      params.amountUsdc = true → PolicyFault now w p params (.maxim h.exceeded) := by
    intro h hover
    rw [withinBudget_iff, spend_of_resets hr h, Classical.not_imp, not_le] at hover
    exact .budget h hover.1 hover.2
  refine failsIn_bind (failsIn_require fun hover => ?_) fun _ _ => ?_
  · rw [withinPerCallLimit_iff, Classical.not_imp, UInt64.not_le] at hover
    exact .perCallLimit hover.1 hover.2
  refine failsIn_bind (failsIn_require (hbudget .daily)) fun _ _ => ?_
  refine failsIn_bind (failsIn_require (hbudget .weekly)) fun _ _ => ?_
  refine failsIn_bind (failsIn_require (hbudget .monthly)) fun _ _ => ?_
  refine failsIn_bind (failsIn_rate .overflow) fun p₁ hp₁ => ?_
  obtain ⟨hblocked, hallowed⟩ := resetRate_lists hp₁
  refine failsIn_bind (failsIn_require fun hover => ?_) fun _ _ => ?_
  · rw [withinRateLimit_iff hp₁, Classical.not_imp, not_lt] at hover
    exact .rateLimit hover.1 hover.2
  refine failsIn_bind (failsIn_requireIf fun _ hin => ?_) fun _ _ => ?_
  · rw [hblocked, not_not] at hin
    exact .blocked hin
  refine failsIn_bind (failsIn_requireIf fun hne hnot => ?_) fun _ _ => failsIn_pure
  rw [hallowed] at hne hnot
  exact .notAllowed hne hnot

omit [DecidableEq Pubkey] in
/-- What is enforced has no fault. -/
theorem not_policyFault {e : ProgramError} (hr : Resets now w w₁)
    (h : Enforced now w₁ p params p₁) :
    ¬ PolicyFault now w p params e := by
  obtain ⟨p₂, hp₂, hrate, _⟩ := h.rate
  intro hf
  cases hf with
  | perCallLimit hne hlt =>
    exact absurd (withinPerCallLimit_iff.mp h.per_call hne) (UInt64.not_le.mpr hlt)
  | budget b hne hlt =>
    have hle := h.budget b hne
    rw [spend_of_resets hr b] at hle
    omega
  | overflow hsecs hover =>
    have := rate_fits hp₂ hsecs
    omega
  | rateLimit hne hle =>
    have := (withinRateLimit_iff hp₂).mp hrate hne
    omega
  | blocked hin => exact h.not_blocked hin
  | notAllowed hne hnot => exact h.allowed.elim hne hnot

end Parts

/-! ## 4. Failures are faults -/

section Fails

variable {rt : Runtime Pubkey} {s : World Pubkey} {now : Int64} {i : Instruction Pubkey}
variable {k owner admin : Pubkey} {n : UInt64} {params : SettlePaymentParams Pubkey}

omit [DecidableEq Pubkey] in
theorem failsIn_wallet (hload : .wallet k ∈ i.loads) :
    FailsIn (Fault rt now s i) (s.load k ProgramAccount.wallet?) :=
  failsIn_load (.missing hload) (.foreign hload)

omit [DecidableEq Pubkey] in
theorem failsIn_policy (hload : .policy k ∈ i.loads) :
    FailsIn (Fault rt now s i) (s.load k ProgramAccount.policy?) :=
  failsIn_load (.missing hload) (.foreign hload)

omit [DecidableEq Pubkey] in
theorem failsIn_config (hload : .config k ∈ i.loads) :
    FailsIn (Fault rt now s i) (s.load k ProgramAccount.config?) :=
  failsIn_load (.missing hload) (.foreign hload)

omit [DecidableEq Pubkey] in
theorem failsIn_token (hload : .token k ∈ i.loads) : FailsIn (Fault rt now s i) (loadToken k s) :=
  failsIn_orFail (.missing hload)

theorem failsIn_ownedWallet (hload : .wallet k ∈ i.loads) (hk : i.ownedWallet = some k)
    (hsigner : i.signer = owner) :
    FailsIn (Fault rt now s i) (loadWalletOfOwner k owner s) := by
  subst hsigner
  refine failsIn_bind (failsIn_wallet hload) fun w hw => ?_
  exact failsIn_bind (failsIn_require (.notOwner hk (load_wallet.mp hw))) fun _ _ => failsIn_pure

theorem failsIn_adminConfig (hwf : WellFormed rt s) (hload : .config k ∈ i.loads)
    (hderived : (.protocolConfig, k) ∈ i.derived) (hk : i.adminConfig = some k)
    (hsigner : i.signer = admin) :
    FailsIn (Fault rt now s i) (loadConfigOfAdmin rt k admin s) := by
  subst hsigner
  refine failsIn_bind (failsIn_config hload) fun c hc => ?_
  have hc := load_config.mp hc
  refine failsIn_bind (failsIn_seeds (hwf.config hc) (.seeds hderived)) fun _ _ => ?_
  exact failsIn_bind (failsIn_require (.notAdmin hk hc)) fun _ _ => failsIn_pure

omit [DecidableEq Pubkey] in
theorem failsIn_protocol (hentry : i.entry = some (k, n, params))
    (h : ¬ (PaymentProtocol.fromDiscriminant params.protocol).isSome = true) :
    Fault rt now s i (.maxim .invalidProtocol) := by
  rw [fromDiscriminant_isSome, not_or] at h
  exact .protocol hentry h.1 h.2

omit [DecidableEq Pubkey] in
theorem failsIn_checks {accs : SettlePayment Pubkey} {w : AgentWallet Pubkey}
    {p : SpendPolicy Pubkey} {c : ProtocolConfig Pubkey}
    (hw : s.wallet accs.agentWallet = some w) (hp : s.policy accs.spendPolicy = some p)
    (hc : s.config accs.protocolConfig = some c) :
    FailsIn (Fault rt now s (.settlePayment accs n params))
      (settlePaymentChecks now c w p n params) := by
  have hreset : ∀ h : Horizon, Overflows h.period.toInt (h.windowStart w).toInt now.toInt →
      Fault rt now s (.settlePayment accs n params) .arithmeticOverflow :=
    fun h hover => .payment rfl (.overflow h hw hover)
  refine failsIn_bind (failsIn_require fun hzero => .zeroAmount ?_) fun _ _ => ?_
  · rw [UInt64.pos_iff_ne_zero, not_not] at hzero
    rw [Instruction.moved, hzero]
  refine failsIn_bind (failsIn_require (failsIn_protocol rfl)) fun _ _ => ?_
  refine failsIn_bind (failsIn_require (.sequence rfl hw)) fun _ _ => ?_
  refine failsIn_bind (failsIn_requireIf fun hpos hover =>
    .payment rfl (.cap hc hpos (UInt64.not_le.mp hover))) fun _ _ => ?_
  refine failsIn_bind (failsIn_require fun hne =>
    .payment rfl (.notActive hw (Bool.eq_false_iff.mpr hne))) fun _ _ => ?_
  refine failsIn_bind (failsIn_require fun hne =>
    .payment rfl (.frozen hw (Bool.eq_true_of_not_eq_false hne))) fun _ _ => ?_
  refine failsIn_bind (failsIn_bind (failsIn_window (by decide) (hreset .daily))
    fun _ _ => failsIn_pure) fun a ha => ?_
  have hweekly : a.weeklyWindowStart = Horizon.weekly.windowStart w ∧
      a.monthlyWindowStart = Horizon.monthly.windowStart w := by
    obtain ⟨_, _, hpure⟩ := bind_eq_ok.mp ha
    cases hpure
    exact ⟨rfl, rfl⟩
  refine failsIn_bind (failsIn_bind (failsIn_window (by decide) fun hover =>
    hreset .weekly (hweekly.1 ▸ hover)) fun _ _ => failsIn_pure) fun b hb => ?_
  have hmonthly : b.monthlyWindowStart = Horizon.monthly.windowStart w := by
    obtain ⟨_, _, hpure⟩ := bind_eq_ok.mp hb
    cases hpure
    exact hweekly.2
  refine failsIn_bind (failsIn_bind (failsIn_window (by decide) fun hover =>
    hreset .monthly (hmonthly ▸ hover)) fun _ _ => failsIn_pure) fun w₁ hw₁ => ?_
  refine failsIn_ite (fun henforce => failsIn_bind ?_ fun _ _ => failsIn_pure)
    fun _ => failsIn_pure
  exact failsIn_mono (failsIn_enforce (resets_of_ok ha hb hw₁)) fun e hf =>
    .payment rfl (.policy hw hp henforce hf)

theorem settlePayment_faults {accs : SettlePayment Pubkey} (hwf : WellFormed rt s) :
    FailsIn (Fault rt now s (.settlePayment accs n params))
      (settlePayment rt now accs n params s) := by
  have hassociated : (accs.usdcTokenAccount, accs.agentWallet, accs.usdcMint) ∈
      (Instruction.settlePayment accs n params).associated := List.mem_cons_self
  have haccounts : FailsIn (Fault rt now s (.settlePayment accs n params))
      (accs.tryAccounts rt n params.agentId s) := by
    refine failsIn_bind (failsIn_wallet (by simp [Instruction.loads])) fun w hw => ?_
    refine failsIn_bind (failsIn_policy (by simp [Instruction.loads])) fun p hp => ?_
    refine failsIn_bind (failsIn_token (by simp [Instruction.loads])) fun t ht => ?_
    refine failsIn_bind (failsIn_token (by simp [Instruction.loads])) fun _ _ => ?_
    refine failsIn_bind (failsIn_mint (.missing (a := .mint _) (by simp [Instruction.loads])))
      fun _ _ => ?_
    refine failsIn_bind (failsIn_config (by simp [Instruction.loads])) fun c hc => ?_
    have hp := load_policy.mp hp
    refine failsIn_bind (failsIn_init nofun (fun _ => .seeds (by simp [Instruction.derived]))
      (.inUse (by simp [Instruction.inits]))) fun _ _ => ?_
    refine failsIn_bind (failsIn_seeds (hwf.wallet (load_wallet.mp hw))
      (.seeds (by simp [Instruction.derived]))) fun _ _ => ?_
    refine failsIn_bind (failsIn_require fun hne => .notOwner rfl (load_wallet.mp hw) hne)
      fun _ _ => ?_
    refine failsIn_bind (failsIn_seeds (hwf.policy hp) (.seeds (by simp [Instruction.derived])))
      fun _ hseeds => ?_
    refine failsIn_bind (failsIn_require fun hne => ?_) fun _ _ => ?_
    · -- the policy's address is derived from the wallet it names
      have hcreate := checkSeeds_eq_ok.mp hseeds
      obtain ⟨he, _⟩ := rt.create_inj hcreate (rt.find_create (hwf.policy hp))
      exact absurd (Seeds.spendPolicy.inj he).symm hne
    refine failsIn_bind (failsIn_associated (.tokenOwner hassociated (loadToken_eq_ok.mp ht))
      (.associated hassociated)) fun _ _ => ?_
    exact failsIn_bind (failsIn_seeds (hwf.config (load_config.mp hc))
      (.seeds (by simp [Instruction.derived]))) fun _ _ => failsIn_pure
  refine failsIn_bind haccounts fun ctx hctx => ?_
  have hv := settle_tryAccounts_eq_ok.mp hctx
  refine failsIn_bind (failsIn_checks hv.wallet hv.policy hv.config) fun x hx => ?_
  obtain ⟨w₁, p₁⟩ := x
  have hpassed := settlePaymentChecks_eq_ok.mp hx
  obtain ⟨_, _, _, _, _, _, hframe⟩ := (passed_resets hpassed).frame
  obtain ⟨src, hsrc, ho⟩ := hv.source
  have hmint := associated_source hwf.lawful hv.associated hsrc
  refine failsIn_bind (failsIn_walletTransfer hwf hv.wallet (by rw [hframe]) (by rw [hframe])
    hsrc hv.payee ho (fun _ ha => .tokenFrozen ha)
    (fun hlt => .payment rfl (.insufficientFunds hsrc hlt))
    fun hne => .payment rfl (.mint hv.payee fun he => hne (hmint.trans he.symm))) fun _ _ => ?_
  refine failsIn_bind (failsIn_orFail fun hnone => failsIn_protocol rfl ?_) fun _ _ => failsIn_pure
  rw [hnone]
  decide

theorem recordPolicyViolation_faults {accs : RecordPolicyViolation Pubkey} {reason : UInt8}
    (hwf : WellFormed rt s) :
    FailsIn (Fault rt now s (.recordPolicyViolation accs n params reason))
      (recordPolicyViolation rt now accs n params reason s) := by
  have haccounts : FailsIn (Fault rt now s (.recordPolicyViolation accs n params reason))
      (accs.tryAccounts rt n params.agentId s) := by
    refine failsIn_bind (failsIn_wallet (by simp [Instruction.loads])) fun w hw => ?_
    refine failsIn_bind (failsIn_init nofun (fun _ => .seeds (by simp [Instruction.derived]))
      (.inUse (by simp [Instruction.inits]))) fun _ _ => ?_
    refine failsIn_bind (failsIn_seeds (hwf.wallet (load_wallet.mp hw))
      (.seeds (by simp [Instruction.derived]))) fun _ _ => ?_
    exact failsIn_bind (failsIn_require fun hne => .notOwner rfl (load_wallet.mp hw) hne)
      fun _ _ => failsIn_pure
  refine failsIn_bind haccounts fun x hx => ?_
  obtain ⟨w, bump⟩ := x
  have hv := violation_tryAccounts_eq_ok.mp hx
  refine failsIn_bind (failsIn_orFail fun hnone => failsIn_protocol rfl ?_) fun _ _ => ?_
  · rw [hnone]
    decide
  exact failsIn_bind (failsIn_require (.sequence rfl hv.wallet)) fun _ _ => failsIn_pure

theorem registerAgent_faults {accs : RegisterAgent Pubkey} {agentId : Bytes} :
    FailsIn (Fault rt now s (.registerAgent accs agentId))
      (registerAgent rt now accs agentId s) := by
  have haccounts : FailsIn (Fault rt now s (.registerAgent accs agentId))
      (accs.tryAccounts rt agentId s) := by
    refine failsIn_bind (failsIn_mint (.missing (a := .mint _) (by simp [Instruction.loads])))
      fun _ _ => ?_
    refine failsIn_bind (failsIn_init
      (fun hlong => .longSeed rfl (not_le.mp (of_decide_eq_false hlong)))
      (fun hfits => .seeds (by simp [Instruction.derived, of_decide_eq_true hfits]))
      (.inUse (by simp [Instruction.inits]))) fun _ _ => ?_
    refine failsIn_bind (failsIn_require (.tokenAddress rfl)) fun _ _ => ?_
    refine failsIn_bind (failsIn_require fun hsome => .tokenInUse rfl fun hnone => ?_)
      fun _ _ => failsIn_pure
    rw [hnone] at hsome
    exact hsome rfl
  refine failsIn_bind haccounts fun _ _ => ?_
  refine failsIn_bind (failsIn_require fun hlength => .idLength rfl ?_) fun _ _ => ?_
  · rw [not_and_or, not_not, not_le] at hlength
    exact hlength
  refine failsIn_bind (failsIn_require fun hbytes => ?_) fun _ _ => failsIn_pure
  rw [List.all_eq_true, not_forall] at hbytes
  obtain ⟨b, hb⟩ := hbytes
  rw [Classical.not_imp, Bool.not_eq_true] at hb
  exact .idBytes rfl hb.1 hb.2

theorem setSpendPolicy_faults {accs : SetSpendPolicy Pubkey} {params : SetSpendPolicyParams} :
    FailsIn (Fault rt now s (.setSpendPolicy accs params))
      (setSpendPolicy rt now accs params s) := by
  have haccounts : FailsIn (Fault rt now s (.setSpendPolicy accs params))
      (accs.tryAccounts rt s) := by
    refine failsIn_bind (failsIn_wallet (by simp [Instruction.loads])) fun w hw => ?_
    refine failsIn_bind (failsIn_canonical nofun fun _ =>
      .seeds (by simp [Instruction.derived])) fun _ _ => ?_
    refine failsIn_bind (failsIn_require fun hother => .occupied rfl ?_) fun _ _ => ?_
    · rw [not_or, Option.isSome_iff_ne_none, not_not] at hother
      exact hother
    exact failsIn_bind (failsIn_require fun hne => .notOwner rfl (load_wallet.mp hw) hne)
      fun _ _ => failsIn_pure
  refine failsIn_bind haccounts fun _ _ => ?_
  refine failsIn_bind (failsIn_require fun hfull => .domainList rfl (.inl (not_le.mp hfull)))
    fun _ _ => ?_
  exact failsIn_bind (failsIn_require fun hfull => .domainList rfl (.inr (not_le.mp hfull)))
    fun _ _ => failsIn_pure

/-- The accounts and the transfer of both withdrawals. -/
theorem withdraw_faults {accs : WithdrawFunds Pubkey} (hsigner : i.signer = accs.owner)
    (howned : i.ownedWallet = some accs.agentWallet)
    (hloads : i.loads = (Instruction.withdrawAll accs).loads)
    (hassociated : i.associated = (Instruction.withdrawAll accs).associated) :
    FailsIn (Fault rt now s i) (accs.tryAccounts rt s) := by
  have hload : ∀ a ∈ (Instruction.withdrawAll accs).loads, a ∈ i.loads := fun a ha => hloads ▸ ha
  have hassoc : ∀ x ∈ (Instruction.withdrawAll accs).associated, x ∈ i.associated :=
    fun x hx => hassociated ▸ hx
  refine failsIn_bind (failsIn_wallet (hload _ (by simp [Instruction.loads]))) fun w hw => ?_
  refine failsIn_bind (failsIn_token (hload _ (by simp [Instruction.loads]))) fun t ht => ?_
  refine failsIn_bind (failsIn_token (hload _ (by simp [Instruction.loads]))) fun t' ht' => ?_
  refine failsIn_bind (failsIn_mint (.missing (a := .mint _)
    (hload _ (by simp [Instruction.loads])))) fun _ _ => ?_
  refine failsIn_bind (failsIn_require fun hne =>
    .notOwner howned (load_wallet.mp hw) (hsigner ▸ hne)) fun _ _ => ?_
  have hsource := hassoc (accs.usdcTokenAccount, accs.agentWallet, accs.usdcMint)
    (by simp [Instruction.associated])
  have hdestination := hassoc (accs.ownerTokenAccount, accs.owner, accs.usdcMint)
    (by simp [Instruction.associated])
  refine failsIn_bind (failsIn_associated (.tokenOwner hsource (loadToken_eq_ok.mp ht))
    (.associated hsource)) fun _ _ => ?_
  exact failsIn_bind (failsIn_associated (.tokenOwner hdestination (loadToken_eq_ok.mp ht'))
    (.associated hdestination)) fun _ _ => failsIn_pure

omit [Inhabited Pubkey] in
/-- Between two associated accounts of one mint a covered amount can be moved, unless
one of them is frozen. -/
theorem withdrawAmount_faults {accs : WithdrawFunds Pubkey} {ctx : WithdrawFunds.Loaded Pubkey}
    {amount : UInt64} {P : ProgramError → Prop} (hwf : WellFormed rt s)
    (hv : accs.Validates rt s ctx) (hle : amount ≤ ctx.source.amount)
    (hfrozen : ∀ k ∈ [accs.usdcTokenAccount, accs.ownerTokenAccount], ¬ s.tokens.Thawed k →
      P .tokenAccountFrozen) :
    FailsIn P (withdrawAmount rt now accs ctx amount s) := by
  have hsrc := associated_source hwf.lawful hv.source_associated hv.source
  have hdst := associated_source hwf.lawful hv.destination_associated hv.destination
  exact failsIn_bind (failsIn_walletTransfer hwf hv.wallet rfl rfl hv.source hv.destination
    hv.source_owner hfrozen (fun hlt => absurd hle (UInt64.not_le.mpr hlt))
    fun hne => absurd (hsrc.trans hdst.symm) hne) fun _ _ => failsIn_pure

theorem closeAgent_faults {accs : CloseAgent Pubkey} (hwf : WellFormed rt s) :
    FailsIn (Fault rt now s (.closeAgent accs)) (closeAgent rt accs s) := by
  refine failsIn_bind (failsIn_wallet (by simp [Instruction.loads])) fun w hw => ?_
  refine failsIn_bind (failsIn_policy (by simp [Instruction.loads])) fun p hp => ?_
  refine failsIn_bind (failsIn_token (by simp [Instruction.loads])) fun t ht => ?_
  refine failsIn_bind (failsIn_mint (.missing (a := .mint _) (by simp [Instruction.loads])))
    fun _ _ => ?_
  have hw := load_wallet.mp hw
  have ht := loadToken_eq_ok.mp ht
  have hassociated : (accs.usdcTokenAccount, accs.agentWallet, accs.usdcMint) ∈
      (Instruction.closeAgent accs).associated := List.mem_cons_self
  refine failsIn_bind (failsIn_require fun hne => .notOwner rfl hw hne) fun _ _ => ?_
  refine failsIn_bind (failsIn_require fun hne =>
    .stillActive rfl hw (Bool.eq_true_of_not_eq_false hne)) fun _ _ => ?_
  refine failsIn_bind (failsIn_seeds (hwf.policy (load_policy.mp hp))
    (.seeds (by simp [Instruction.derived]))) fun _ _ => ?_
  refine failsIn_bind (failsIn_associated (.tokenOwner hassociated ht) (.associated hassociated))
    fun _ _ => ?_
  exact failsIn_bind (failsIn_require (.notEmpty rfl ht)) fun _ _ => failsIn_pure

theorem setActive_faults {accs : ManageAgentStatus Pubkey} {isActive : Bool}
    (hload : .wallet accs.agentWallet ∈ i.loads) (howned : i.ownedWallet = some accs.agentWallet)
    (hsigner : i.signer = accs.owner) :
    FailsIn (Fault rt now s i) (setActive now accs isActive s) :=
  failsIn_bind (failsIn_ownedWallet hload howned hsigner) fun _ _ => failsIn_pure

theorem setFrozen_faults {accs : ProtocolManageAgent Pubkey} {isFrozen : Bool}
    (hwf : WellFormed rt s) (hwallet : .wallet accs.agentWallet ∈ i.loads)
    (hconfig : .config accs.protocolConfig ∈ i.loads)
    (hderived : (.protocolConfig, accs.protocolConfig) ∈ i.derived)
    (hadmin : i.adminConfig = some accs.protocolConfig) (hsigner : i.signer = accs.admin) :
    FailsIn (Fault rt now s i) (setFrozen rt now accs isFrozen s) :=
  failsIn_bind (failsIn_wallet hwallet) fun _ _ =>
    failsIn_bind (failsIn_adminConfig hwf hconfig hderived hadmin hsigner) fun _ _ => failsIn_pure

theorem execute_faults (hwf : WellFormed rt s) :
    FailsIn (Fault rt now s i) (execute rt now i s) := by
  refine failsIn_bind (failsIn_require fun hne => .notSigned (Bool.eq_false_iff.mpr hne))
    fun _ _ => ?_
  cases i with
  | initProtocol accs admin =>
    refine failsIn_bind (failsIn_init nofun (fun _ => .seeds (by simp [Instruction.derived]))
      (.inUse (by simp [Instruction.inits]))) fun _ _ => ?_
    refine failsIn_bind (failsIn_require fun he => .invalidOwner ?_) fun _ _ => failsIn_pure
    rw [not_not.mp he]
    rfl
  | rotateProtocolAdmin accs newAdmin =>
    refine failsIn_bind (failsIn_adminConfig hwf (by simp [Instruction.loads])
      (by simp [Instruction.derived]) rfl rfl) fun _ _ => ?_
    refine failsIn_bind (failsIn_require fun he => .invalidOwner ?_) fun _ _ => failsIn_pure
    rw [not_not.mp he]
    rfl
  | updateProtocolConfig accs cap =>
    exact failsIn_bind (failsIn_adminConfig hwf (by simp [Instruction.loads])
      (by simp [Instruction.derived]) rfl rfl) fun _ _ => failsIn_pure
  | registerAgent accs agentId => exact registerAgent_faults
  | setSpendPolicy accs params => exact setSpendPolicy_faults
  | settlePayment accs n params => exact settlePayment_faults hwf
  | recordPolicyViolation accs n params reason => exact recordPolicyViolation_faults hwf
  | deactivateAgent accs => exact setActive_faults (by simp [Instruction.loads]) rfl rfl
  | reactivateAgent accs => exact setActive_faults (by simp [Instruction.loads]) rfl rfl
  | freezeAgent accs =>
    exact setFrozen_faults hwf (by simp [Instruction.loads]) (by simp [Instruction.loads])
      (by simp [Instruction.derived]) rfl rfl
  | unfreezeAgent accs =>
    exact setFrozen_faults hwf (by simp [Instruction.loads]) (by simp [Instruction.loads])
      (by simp [Instruction.derived]) rfl rfl
  | withdrawFunds accs amount =>
    refine failsIn_bind (withdraw_faults rfl rfl rfl rfl) fun ctx hctx => ?_
    have hv := withdraw_tryAccounts_eq_ok.mp hctx
    refine failsIn_bind (failsIn_require fun hzero => .zeroAmount ?_) fun _ _ => ?_
    · rw [UInt64.pos_iff_ne_zero, not_not] at hzero
      rw [hzero]
      rfl
    refine failsIn_bind (failsIn_require fun hlt =>
      .insufficientFunds rfl hv.source (UInt64.not_le.mp hlt)) fun _ hle => ?_
    exact withdrawAmount_faults hwf hv (require_eq_ok.mp hle) fun _ hk => .tokenFrozen hk
  | withdrawAll accs =>
    refine failsIn_bind (withdraw_faults rfl rfl rfl rfl) fun ctx hctx => ?_
    have hv := withdraw_tryAccounts_eq_ok.mp hctx
    refine failsIn_bind (failsIn_require fun hzero => .zeroAmount ?_) fun _ _ => ?_
    · rw [UInt64.pos_iff_ne_zero, not_not] at hzero
      rw [Instruction.moved, hv.source, Option.map_some, hzero]
    exact withdrawAmount_faults hwf hv (UInt64.le_refl _) fun _ hk => .tokenFrozen hk
  | transferOwnership accs newOwner =>
    refine failsIn_bind (failsIn_ownedWallet (by simp [Instruction.loads]) rfl rfl) fun w hw => ?_
    obtain ⟨hw, _⟩ := loadWalletOfOwner_eq_ok.mp hw
    refine failsIn_bind (failsIn_require fun he => .invalidOwner ?_) fun _ _ => ?_
    · rw [not_not.mp he]
      rfl
    exact failsIn_bind (failsIn_require fun he => .ownerUnchanged rfl hw (not_not.mp he))
      fun _ _ => failsIn_pure
  | closeAgent accs => exact closeAgent_faults hwf

end Fails

end MaximProtocol
