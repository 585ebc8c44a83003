import MaximProtocol.Accounts
import Mathlib.Logic.Function.Basic

/-!
# The state of the chain

`World` holds the accounts this program owns, the token accounts and the mints.
One address holds at most one account of the program; the four views `config`,
`wallet`, `policy` and `record` read an address as one kind of account, as
`Account<'info, T>` does by the discriminator.

Overwriting an account with one of the same kind, or creating one at a free
address, changes one view at one address. Section 2 has those facts.
-/

namespace MaximProtocol

open MachineInt

/-- An account owned by the program: its discriminator and its data. -/
inductive ProgramAccount (Pubkey : Type) where
  | protocolConfig (c : ProtocolConfig Pubkey)
  | agentWallet (w : AgentWallet Pubkey)
  | spendPolicy (p : SpendPolicy Pubkey)
  | paymentRecord (r : PaymentRecord Pubkey)

namespace ProgramAccount

variable {Pubkey : Type}

def config? : ProgramAccount Pubkey → Option (ProtocolConfig Pubkey)
  | .protocolConfig c => some c
  | _ => none

def wallet? : ProgramAccount Pubkey → Option (AgentWallet Pubkey)
  | .agentWallet w => some w
  | _ => none

def policy? : ProgramAccount Pubkey → Option (SpendPolicy Pubkey)
  | .spendPolicy p => some p
  | _ => none

def record? : ProgramAccount Pubkey → Option (PaymentRecord Pubkey)
  | .paymentRecord r => some r
  | _ => none

end ProgramAccount

structure World (Pubkey : Type) where
  accounts : Pubkey → Option (ProgramAccount Pubkey)
  tokens : Tokens Pubkey
  /-- The addresses of the mint accounts. -/
  mints : Pubkey → Bool

namespace World

variable {Pubkey : Type} (s : World Pubkey) (k : Pubkey)

/-! ## 1. Views -/

def config : Option (ProtocolConfig Pubkey) := (s.accounts k).bind ProgramAccount.config?
def wallet : Option (AgentWallet Pubkey) := (s.accounts k).bind ProgramAccount.wallet?
def policy : Option (SpendPolicy Pubkey) := (s.accounts k).bind ProgramAccount.policy?
def record : Option (PaymentRecord Pubkey) := (s.accounts k).bind ProgramAccount.record?

/-- Nothing of the program is at `k`, so `init` can create an account there. -/
def Free : Prop := s.accounts k = none

/-- `Account<'info, T>`: the account exists and has the discriminator of `T`. -/
def load {α : Type} (kind? : ProgramAccount Pubkey → Option α) : Except ProgramError α := do
  let account ← orFail .accountNotInitialized (s.accounts k)
  orFail .accountDiscriminatorMismatch (kind? account)

variable [DecidableEq Pubkey]

def write (account : Option (ProgramAccount Pubkey)) : World Pubkey :=
  { s with accounts := Function.update s.accounts k account }

end World

open World

variable {Pubkey : Type} {s : World Pubkey} {k k' : Pubkey}

@[simp] theorem load_eq_ok {α : Type} {kind? : ProgramAccount Pubkey → Option α} {a : α} :
    s.load k kind? = .ok a ↔ (s.accounts k).bind kind? = some a := by
  cases h : s.accounts k <;> simp [load, h]

theorem load_config {c : ProtocolConfig Pubkey} :
    s.load k ProgramAccount.config? = .ok c ↔ s.config k = some c := load_eq_ok

theorem load_wallet {w : AgentWallet Pubkey} :
    s.load k ProgramAccount.wallet? = .ok w ↔ s.wallet k = some w := load_eq_ok

theorem load_policy {p : SpendPolicy Pubkey} :
    s.load k ProgramAccount.policy? = .ok p ↔ s.policy k = some p := load_eq_ok

theorem wallet_eq_some {w : AgentWallet Pubkey} :
    s.wallet k = some w ↔ s.accounts k = some (.agentWallet w) := by
  unfold wallet
  cases h : s.accounts k with
  | none => simp
  | some a => cases a <;> simp [ProgramAccount.wallet?]

theorem policy_eq_some {p : SpendPolicy Pubkey} :
    s.policy k = some p ↔ s.accounts k = some (.spendPolicy p) := by
  unfold policy
  cases h : s.accounts k with
  | none => simp
  | some a => cases a <;> simp [ProgramAccount.policy?]

theorem config_eq_some {c : ProtocolConfig Pubkey} :
    s.config k = some c ↔ s.accounts k = some (.protocolConfig c) := by
  unfold config
  cases h : s.accounts k with
  | none => simp
  | some a => cases a <;> simp [ProgramAccount.config?]

theorem free_iff :
    s.Free k ↔ s.config k = none ∧ s.wallet k = none ∧ s.policy k = none ∧ s.record k = none := by
  unfold Free config wallet policy record
  cases s.accounts k with
  | none => simp
  | some a => cases a <;> simp [ProgramAccount.config?, ProgramAccount.wallet?,
      ProgramAccount.policy?, ProgramAccount.record?]

/-- An address with a wallet has nothing else. -/
theorem wallet_only {w : AgentWallet Pubkey} (h : s.wallet k = some w) :
    s.config k = none ∧ s.policy k = none ∧ s.record k = none := by
  rw [wallet_eq_some] at h
  simp [config, policy, record, h, ProgramAccount.config?, ProgramAccount.policy?,
    ProgramAccount.record?]

theorem policy_only {p : SpendPolicy Pubkey} (h : s.policy k = some p) :
    s.config k = none ∧ s.wallet k = none ∧ s.record k = none := by
  rw [policy_eq_some] at h
  simp [config, wallet, record, h, ProgramAccount.config?, ProgramAccount.wallet?,
    ProgramAccount.record?]

theorem config_only {c : ProtocolConfig Pubkey} (h : s.config k = some c) :
    s.wallet k = none ∧ s.policy k = none ∧ s.record k = none := by
  rw [config_eq_some] at h
  simp [wallet, policy, record, h, ProgramAccount.wallet?, ProgramAccount.policy?,
    ProgramAccount.record?]

/-! ## 2. Writing an account -/

/-- The views after a step, each given as a function of the address. -/
structure Views (s : World Pubkey)
    (config : Pubkey → Option (ProtocolConfig Pubkey))
    (wallet : Pubkey → Option (AgentWallet Pubkey))
    (policy : Pubkey → Option (SpendPolicy Pubkey))
    (record : Pubkey → Option (PaymentRecord Pubkey))
    (tokens : Tokens Pubkey) (mints : Pubkey → Bool) : Prop where
  config : s.config = config
  wallet : s.wallet = wallet
  policy : s.policy = policy
  record : s.record = record
  tokens : s.tokens = tokens
  mints : s.mints = mints

theorem views_self (s : World Pubkey) :
    Views s s.config s.wallet s.policy s.record s.tokens s.mints :=
  ⟨rfl, rfl, rfl, rfl, rfl, rfl⟩

variable [DecidableEq Pubkey]

theorem bind_update {α : Type} (f : ProgramAccount Pubkey → Option α)
    (g : Pubkey → Option (ProgramAccount Pubkey)) (a : Option (ProgramAccount Pubkey)) :
    (fun x => (Function.update g k a x).bind f) =
      Function.update (fun x => (g x).bind f) k (a.bind f) := by
  funext x
  rcases eq_or_ne x k with rfl | hx
  · simp
  · simp [Function.update_of_ne hx]

/-- A write changes every view at the written address only. -/
theorem views_write (s : World Pubkey) (k : Pubkey) (a : Option (ProgramAccount Pubkey)) :
    Views (s.write k a)
      (Function.update s.config k (a.bind ProgramAccount.config?))
      (Function.update s.wallet k (a.bind ProgramAccount.wallet?))
      (Function.update s.policy k (a.bind ProgramAccount.policy?))
      (Function.update s.record k (a.bind ProgramAccount.record?)) s.tokens s.mints :=
  ⟨bind_update _ _ _, bind_update _ _ _, bind_update _ _ _, bind_update _ _ _, rfl, rfl⟩

theorem update_none {α : Type} {f : Pubkey → Option α} (h : f k = none) :
    Function.update f k none = f := by
  rw [← h, Function.update_eq_self]

/-- Creating or overwriting a wallet. -/
theorem views_write_wallet (h : s.Free k ∨ ∃ w₀, s.wallet k = some w₀)
    (w : AgentWallet Pubkey) :
    Views (s.write k (some (.agentWallet w))) s.config (Function.update s.wallet k (some w))
      s.policy s.record s.tokens s.mints := by
  have hv := views_write s k (some (.agentWallet w))
  have hnone : s.config k = none ∧ s.policy k = none ∧ s.record k = none := by
    rcases h with h | ⟨w₀, h⟩
    · exact ⟨(free_iff.mp h).1, (free_iff.mp h).2.2⟩
    · exact wallet_only h
  simp only [Option.bind_some, ProgramAccount.config?, ProgramAccount.wallet?,
    ProgramAccount.policy?, ProgramAccount.record?, update_none hnone.1, update_none hnone.2.1,
    update_none hnone.2.2] at hv
  exact hv

/-- Creating or overwriting a policy. -/
theorem views_write_policy (h : s.Free k ∨ ∃ p₀, s.policy k = some p₀)
    (p : SpendPolicy Pubkey) :
    Views (s.write k (some (.spendPolicy p))) s.config s.wallet
      (Function.update s.policy k (some p)) s.record s.tokens s.mints := by
  have hv := views_write s k (some (.spendPolicy p))
  have hnone : s.config k = none ∧ s.wallet k = none ∧ s.record k = none := by
    rcases h with h | ⟨p₀, h⟩
    · exact ⟨(free_iff.mp h).1, (free_iff.mp h).2.1, (free_iff.mp h).2.2.2⟩
    · exact policy_only h
  simp only [Option.bind_some, ProgramAccount.config?, ProgramAccount.wallet?,
    ProgramAccount.policy?, ProgramAccount.record?, update_none hnone.1, update_none hnone.2.1,
    update_none hnone.2.2] at hv
  exact hv

/-- Creating or overwriting the configuration. -/
theorem views_write_config (h : s.Free k ∨ ∃ c₀, s.config k = some c₀)
    (c : ProtocolConfig Pubkey) :
    Views (s.write k (some (.protocolConfig c))) (Function.update s.config k (some c)) s.wallet
      s.policy s.record s.tokens s.mints := by
  have hv := views_write s k (some (.protocolConfig c))
  have hnone : s.wallet k = none ∧ s.policy k = none ∧ s.record k = none := by
    rcases h with h | ⟨c₀, h⟩
    · exact (free_iff.mp h).2
    · exact config_only h
  simp only [Option.bind_some, ProgramAccount.config?, ProgramAccount.wallet?,
    ProgramAccount.policy?, ProgramAccount.record?, update_none hnone.1, update_none hnone.2.1,
    update_none hnone.2.2] at hv
  exact hv

/-- Creating a record. -/
theorem views_write_record (h : s.Free k) (r : PaymentRecord Pubkey) :
    Views (s.write k (some (.paymentRecord r))) s.config s.wallet s.policy
      (Function.update s.record k (some r)) s.tokens s.mints := by
  have hv := views_write s k (some (.paymentRecord r))
  obtain ⟨hc, hw, hp, _⟩ := free_iff.mp h
  simp only [Option.bind_some, ProgramAccount.config?, ProgramAccount.wallet?,
    ProgramAccount.policy?, ProgramAccount.record?, update_none hc, update_none hw,
    update_none hp] at hv
  exact hv

/-- Closing a wallet. -/
theorem views_close_wallet {w : AgentWallet Pubkey} (h : s.wallet k = some w) :
    Views (s.write k none) s.config (Function.update s.wallet k none) s.policy s.record
      s.tokens s.mints := by
  have hv := views_write s k none
  obtain ⟨hc, hp, hr⟩ := wallet_only h
  simp only [Option.bind_none, update_none hc, update_none hp, update_none hr] at hv
  exact hv

/-- Closing a policy. -/
theorem views_close_policy {p : SpendPolicy Pubkey} (h : s.policy k = some p) :
    Views (s.write k none) s.config s.wallet (Function.update s.policy k none) s.record
      s.tokens s.mints := by
  have hv := views_write s k none
  obtain ⟨hc, hw, hr⟩ := policy_only h
  simp only [Option.bind_none, update_none hc, update_none hw, update_none hr] at hv
  exact hv

theorem free_write_of_ne {a : Option (ProgramAccount Pubkey)} (h : k ≠ k') :
    (s.write k' a).Free k ↔ s.Free k := by
  unfold Free write
  simp [Function.update_of_ne h]

end MaximProtocol
