import MaximProtocol.Solana

/-!
# The program's accounts

`state/*.rs`: the four account structs and their methods. The `i64` additions,
subtractions and multiplications of the window resets stop on overflow, as the
release profile's `overflow-checks = true` makes them.

The three window resets and the three budget checks are each one definition at
the values of a `Horizon`.
-/

namespace MaximProtocol

open MachineInt

variable {Pubkey : Type}

/-! ## 1. Agent wallets -/

def MAX_AGENT_ID_LEN : Nat := 64
def SECONDS_PER_DAY : Int64 := 86400
def SECONDS_PER_WEEK : Int64 := 604800
def SECONDS_PER_MONTH : Int64 := 2592000

structure AgentWallet (Pubkey : Type) where
  agentId : Bytes
  owner : Pubkey
  usdcTokenAccount : Pubkey
  dailySpend : UInt64
  dailyWindowStart : Int64
  weeklySpend : UInt64
  weeklyWindowStart : Int64
  monthlySpend : UInt64
  monthlyWindowStart : Int64
  paymentSequence : UInt64
  totalPayments : UInt64
  totalVolume : UInt64
  lastPaymentAt : Int64
  isActive : Bool
  isFrozen : Bool
  bump : UInt8

/-- The common body of the three resets: a spend counter and its window start,
moved on by the whole periods that have elapsed. -/
def resetWindowIfElapsed (period : Int64) (spend : UInt64) (windowStart now : Int64) :
    Except ProgramError (UInt64 × Int64) := do
  let windowEnd ← checkedAdd .arithmeticOverflow windowStart period
  if windowEnd ≤ now then do
    let elapsed ← checkedSub .arithmeticOverflow now windowStart
    let periods ← checkedDiv .arithmeticOverflow elapsed period
    let shift ← checkedMul .arithmeticOverflow periods period
    let start ← checkedAdd .arithmeticOverflow windowStart shift
    pure (0, start)
  else
    pure (spend, windowStart)

def AgentWallet.resetDailyWindowIfElapsed (w : AgentWallet Pubkey) (now : Int64) :
    Except ProgramError (AgentWallet Pubkey) := do
  let (spend, start) ← resetWindowIfElapsed SECONDS_PER_DAY w.dailySpend w.dailyWindowStart now
  pure { w with dailySpend := spend, dailyWindowStart := start }

def AgentWallet.resetWeeklyWindowIfElapsed (w : AgentWallet Pubkey) (now : Int64) :
    Except ProgramError (AgentWallet Pubkey) := do
  let (spend, start) ← resetWindowIfElapsed SECONDS_PER_WEEK w.weeklySpend w.weeklyWindowStart now
  pure { w with weeklySpend := spend, weeklyWindowStart := start }

def AgentWallet.resetMonthlyWindowIfElapsed (w : AgentWallet Pubkey) (now : Int64) :
    Except ProgramError (AgentWallet Pubkey) := do
  let (spend, start) ←
    resetWindowIfElapsed SECONDS_PER_MONTH w.monthlySpend w.monthlyWindowStart now
  pure { w with monthlySpend := spend, monthlyWindowStart := start }

/-! ## 2. Spend policies -/

def MAX_DOMAIN_ENTRIES : Nat := 32

structure SpendPolicy (Pubkey : Type) where
  agentWallet : Pubkey
  dailyBudget : UInt64
  weeklyBudget : UInt64
  monthlyBudget : UInt64
  perCallLimit : UInt64
  rateLimitCalls : UInt32
  rateLimitWindowSecs : UInt32
  rateLimitCallCount : UInt32
  rateLimitWindowStart : Int64
  highValueThreshold : UInt64
  allowedDomainHashes : List Hash
  blockedDomainHashes : List Hash
  bump : UInt8

namespace SpendPolicy

def withinPerCallLimit (p : SpendPolicy Pubkey) (amount : UInt64) : Bool :=
  p.perCallLimit == 0 || amount ≤ p.perCallLimit

/-- The common body of the three budget checks. -/
def withinBudget (budget currentSpend amount : UInt64) : Bool :=
  budget == 0 || saturatingAdd currentSpend amount ≤ budget

def withinDailyBudget (p : SpendPolicy Pubkey) (currentSpend amount : UInt64) : Bool :=
  withinBudget p.dailyBudget currentSpend amount

def withinWeeklyBudget (p : SpendPolicy Pubkey) (currentSpend amount : UInt64) : Bool :=
  withinBudget p.weeklyBudget currentSpend amount

def withinMonthlyBudget (p : SpendPolicy Pubkey) (currentSpend amount : UInt64) : Bool :=
  withinBudget p.monthlyBudget currentSpend amount

def withinRateLimit (p : SpendPolicy Pubkey) : Bool :=
  p.rateLimitCalls == 0 || p.rateLimitCallCount < p.rateLimitCalls

/-- `rate_limit_window_secs as i64` widens, so it never fails; the addition can. -/
def resetRateWindowIfElapsed (p : SpendPolicy Pubkey) (now : Int64) :
    Except ProgramError (SpendPolicy Pubkey) :=
  if 0 < p.rateLimitWindowSecs then do
    let windowEnd ← checkedAdd .arithmeticOverflow p.rateLimitWindowStart
      (Int64.ofNat p.rateLimitWindowSecs.toNat)
    if windowEnd ≤ now then
      pure { p with rateLimitCallCount := 0, rateLimitWindowStart := now }
    else
      pure p
  else
    pure p

end SpendPolicy

/-! ## 3. Payment records -/

inductive PaymentProtocol where
  | x402
  | mpp
  deriving DecidableEq

def PaymentProtocol.fromDiscriminant (v : UInt8) : Option PaymentProtocol :=
  if v = 0 then some .x402 else if v = 1 then some .mpp else none

/-- The struct as declared: it has no `memo` field, although both handlers that
write a record assign `record.memo`. -/
structure PaymentRecord (Pubkey : Type) where
  agentWallet : Pubkey
  sequence : UInt64
  endpointHash : Hash
  payee : Pubkey
  amountUsdc : UInt64
  protocol : PaymentProtocol
  settledAt : Int64
  policyPassed : Bool
  parentPayment : Option Pubkey
  bump : UInt8

/-! ## 4. The protocol configuration -/

def PROGRAM_VERSION : UInt8 := 2

structure ProtocolConfig (Pubkey : Type) where
  admin : Pubkey
  version : UInt8
  maxSinglePaymentUsdc : UInt64
  bump : UInt8

/-! ## 5. The three accounting horizons -/

/-- The accounting windows of a wallet, shortest first. -/
inductive Horizon where
  | daily
  | weekly
  | monthly
  deriving DecidableEq

namespace Horizon

def period : Horizon → Int64
  | .daily => SECONDS_PER_DAY
  | .weekly => SECONDS_PER_WEEK
  | .monthly => SECONDS_PER_MONTH

/-- The length of the period in seconds. -/
def seconds (h : Horizon) : Int := h.period.toInt

def spend (h : Horizon) (w : AgentWallet Pubkey) : UInt64 :=
  match h with
  | .daily => w.dailySpend
  | .weekly => w.weeklySpend
  | .monthly => w.monthlySpend

def windowStart (h : Horizon) (w : AgentWallet Pubkey) : Int64 :=
  match h with
  | .daily => w.dailyWindowStart
  | .weekly => w.weeklyWindowStart
  | .monthly => w.monthlyWindowStart

def budget (h : Horizon) (p : SpendPolicy Pubkey) : UInt64 :=
  match h with
  | .daily => p.dailyBudget
  | .weekly => p.weeklyBudget
  | .monthly => p.monthlyBudget

theorem seconds_pos (h : Horizon) : 0 < h.seconds := by
  cases h <;> decide

theorem seconds_le (h : Horizon) : h.seconds ≤ 2592000 := by
  cases h <;> decide

end Horizon

end MaximProtocol
