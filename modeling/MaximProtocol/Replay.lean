import MaximProtocol.Runs
import Mathlib.Algebra.BigOperators.Group.Finset.Piecewise

/-!
# Executable runs

`replay` submits a list of instructions, each with its clock reading, and keeps
the history. A submission that fails leaves the state as it was, so every list of
submissions is a run (`replay_reaches`).

`Key` is a concrete type of public keys whose derived addresses are the seeds
themselves, and `Key.runtime` a runtime over it. The laws that `Runtime` and
`LawfulTokens` ask for therefore hold together somewhere, and runs over `Key` can
be evaluated.
-/

namespace MaximProtocol

open MachineInt World Transitions

/-! ## 1. Submitting a list of instructions -/

section Replay

variable {Pubkey : Type} [DecidableEq Pubkey] [Inhabited Pubkey]

/-- An instruction and the clock reading it sees. -/
abbrev Submission (Pubkey : Type) := Int64 × Instruction Pubkey

def submit (rt : Runtime Pubkey) (s : World Pubkey) (x : Submission Pubkey) : World Pubkey :=
  match execute rt x.1 x.2 s with
  | .ok (s', _) => s'
  | .error _ => s

def succeeds (rt : Runtime Pubkey) (s : World Pubkey) (x : Submission Pubkey) : Bool :=
  match execute rt x.1 x.2 s with
  | .ok _ => true
  | .error _ => false

/-- The transition a submission makes. -/
def transition (rt : Runtime Pubkey) (s : World Pubkey) (x : Submission Pubkey) :
    Transition (World Pubkey) (Action Pubkey) where
  pre := s
  label := if succeeds rt s x then .accepted x.1 x.2 else .rejected x.1 x.2
  post := submit rt s x

def replay (rt : Runtime Pubkey) (s : World Pubkey) : List (Submission Pubkey) → Trace Pubkey
  | [] => []
  | x :: l => transition rt s x :: replay rt (submit rt s x) l

def submitAll (rt : Runtime Pubkey) (s : World Pubkey) (l : List (Submission Pubkey)) :
    World Pubkey :=
  l.foldl (submit rt) s

variable {rt : Runtime Pubkey} {s : World Pubkey} {x : Submission Pubkey}

theorem submit_step (rt : Runtime Pubkey) (s : World Pubkey) (x : Submission Pubkey) :
    Step rt s (transition rt s x).label (submit rt s x) := by
  unfold transition submit succeeds
  cases h : execute rt x.1 x.2 s with
  | ok r => exact .accepted h
  | error e => exact .rejected h

/-- Every list of submissions is a run. -/
theorem replay_reaches (rt : Runtime Pubkey) (s : World Pubkey) (l : List (Submission Pubkey)) :
    Reaches rt s (replay rt s l) (submitAll rt s l) := by
  induction l generalizing s with
  | nil => exact .nil s
  | cons x l ih => exact run_append (run_single (submit_step rt s x)) (ih (submit rt s x))

theorem transition_label (h : succeeds rt s x = true) :
    (transition rt s x).label = .accepted x.1 x.2 := by
  simp [transition, h]

theorem transition_accepts (h : succeeds rt s x = true) : Accepts (transition rt s x) x.2 :=
  ⟨x.1, transition_label h⟩

/-- A submission that succeeds is an accepted step. -/
theorem submit_accepted (h : succeeds rt s x = true) :
    Step rt s (.accepted x.1 x.2) (submit rt s x) := by
  have hs := submit_step rt s x
  rw [transition_label h] at hs
  exact hs

theorem replay_append (s : World Pubkey) (l m : List (Submission Pubkey)) :
    replay rt s (l ++ m) = replay rt s l ++ replay rt (submitAll rt s l) m := by
  induction l generalizing s with
  | nil => rfl
  | cons x l ih =>
    simp only [List.cons_append, replay, ih]
    rfl

/-- A submission that succeeds where it stands is an accepted step of the replay. -/
theorem accepted_mem_replay {l m : List (Submission Pubkey)}
    (h : succeeds rt (submitAll rt s l) x = true) :
    ⟨submitAll rt s l, .accepted x.1 x.2, submit rt (submitAll rt s l) x⟩ ∈
      replay rt s (l ++ x :: m) := by
  rw [replay_append, replay, List.mem_append]
  refine .inr (List.mem_cons.mpr (.inl ?_))
  simp [transition, h]

/-- What a replay accepts was submitted. -/
theorem accepts_mem {l : List (Submission Pubkey)} {y : Transition (World Pubkey) (Action Pubkey)}
    {i : Instruction Pubkey} (hy : y ∈ replay rt s l) (hi : Accepts y i) :
    ∃ now, (now, i) ∈ l := by
  induction l generalizing s with
  | nil => cases hy
  | cons x l ih =>
    rcases List.mem_cons.mp hy with rfl | hy
    · obtain ⟨now, hl⟩ := hi
      unfold transition at hl
      simp only at hl
      split at hl
      · cases hl
        exact ⟨x.1, List.mem_cons_self⟩
      · cases hl
    · obtain ⟨now, hmem⟩ := ih hy
      exact ⟨now, List.mem_cons_of_mem _ hmem⟩

/-- The clock readings of a replay are those of its submissions. -/
theorem clocks_replay (rt : Runtime Pubkey) (s : World Pubkey) (l : List (Submission Pubkey)) :
    clocks (replay rt s l) = l.map fun x => x.1.toInt := by
  induction l generalizing s with
  | nil => rfl
  | cons x l ih =>
    have hx : (transition rt s x).label.clock? = some x.1 := by
      unfold transition
      split <;> rfl
    have htail := ih (submit rt s x)
    unfold clocks at htail ⊢
    simp [replay, hx, htail]

end Replay

/-! ## 2. Concrete keys -/

/-- Public keys: keypairs, the derived addresses of the program and associated
token accounts. `user 0` stands for `Pubkey::default()`. -/
inductive Key where
  | user (n : Nat)
  | protocolConfig
  | agentWallet (agentId : Bytes)
  | spendPolicy (agentWallet : Key)
  | paymentRecord (agentWallet : Key) (sequence : UInt64)
  | associated (authority mint : Key)
  deriving DecidableEq

namespace Key

instance : Inhabited Key := ⟨.user 0⟩

def ofSeeds : Seeds Key → Key
  | .protocolConfig => .protocolConfig
  | .agentWallet agentId => .agentWallet agentId
  | .spendPolicy w => .spendPolicy w
  | .paymentRecord w n => .paymentRecord w n

theorem ofSeeds_inj {a b : Seeds Key} (h : ofSeeds a = ofSeeds b) : a = b := by
  cases a <;> cases b <;> simp_all [ofSeeds]

theorem ofSeeds_not_user {a : Seeds Key} {n : Nat} : ofSeeds a ≠ .user n := by
  cases a <;> simp [ofSeeds]

/-- Derivation succeeds at the first bump, 255, on every list of seeds that fits. -/
def runtime : Runtime Key where
  createProgramAddress seeds bump :=
    if seeds.fits = true ∧ bump = 255 then some (ofSeeds seeds) else none
  findProgramAddress seeds := if seeds.fits = true then some (ofSeeds seeds, 255) else none
  associatedTokenAddress := .associated
  canSign
    | .user n => n ≠ 0
    | _ => false
  find_create {seeds k bump} h := by
    split at h
    · next hf =>
      cases h
      simp [hf]
    · cases h
  find_isSome seeds := by
    cases h : seeds.fits <;> simp
  create_fits {seeds bump k} h := by
    split at h
    · next hf => exact hf.1
    · cases h
  create_inj {seeds seeds' bump bump' k} h h' := by
    split at h
    · next hf =>
      split at h'
      · next hf' =>
        simp only [Option.some.injEq] at h h'
        exact ⟨ofSeeds_inj (h.trans h'.symm), hf.2.trans hf'.2.symm⟩
      · cases h'
    · cases h
  associated_inj h := by
    cases h
    exact ⟨rfl, rfl⟩
  create_not_canSign {seeds bump k} h := by
    split at h
    · next hf =>
      simp only [Option.some.injEq] at h
      cases k with
      | user n => exact absurd h ofSeeds_not_user
      | _ => rfl
    · cases h

end Key

/-! ## 3. States before the program is used -/

/-- The token accounts of a list, the first entry of a key first. -/
def tokensOf : List (Key × TokenAccount Key) → Tokens Key
  | [] => fun _ => none
  | (k, t) :: l => Function.update (tokensOf l) k (some t)

theorem mem_of_tokensOf {l : List (Key × TokenAccount Key)} {k : Key} {t : TokenAccount Key}
    (h : tokensOf l k = some t) : (k, t) ∈ l := by
  induction l with
  | nil => cases h
  | cons x l ih =>
    rcases update_some h with ⟨rfl, rfl⟩ | ⟨_, h⟩
    · exact List.mem_cons_self
    · exact List.mem_cons_of_mem _ (ih h)

/-- No set of accounts holds more of a mint than the amounts of the list. -/
theorem supply_tokensOf (l : List (Key × TokenAccount Key)) (m : Key) (S : Finset Key) :
    ∑ k ∈ S, (tokensOf l).holding m k ≤ (l.map fun x => x.2.amount.toNat).sum := by
  induction l with
  | nil => simp [tokensOf, Tokens.holding]
  | cons x l ih =>
    obtain ⟨a, t⟩ := x
    have hle : ∀ k ∈ S, (tokensOf ((a, t) :: l)).holding m k ≤
        (tokensOf l).holding m k + if k = a then t.amount.toNat else 0 := by
      intro k _
      rcases eq_or_ne k a with rfl | hk
      · simp only [Tokens.holding, tokensOf, Function.update_self, if_true]
        split <;> omega
      · simp only [Tokens.holding, tokensOf, Function.update_of_ne hk, hk, if_false]
        omega
    have hone : ∑ k ∈ S, (if k = a then t.amount.toNat else 0) ≤ t.amount.toNat := by
      rw [Finset.sum_ite_eq' S a fun _ => t.amount.toNat]
      split <;> omega
    calc ∑ k ∈ S, (tokensOf ((a, t) :: l)).holding m k
        ≤ ∑ k ∈ S, ((tokensOf l).holding m k + if k = a then t.amount.toNat else 0) :=
          Finset.sum_le_sum hle
      _ ≤ (((a, t) :: l).map fun x => x.2.amount.toNat).sum := by
          rw [Finset.sum_add_distrib, List.map_cons, List.sum_cons]
          simp only
          omega

/-- An entry sits at its owner's associated account, and its mint is a mint account. -/
def Entitled (mints : Key → Bool) (x : Key × TokenAccount Key) : Prop :=
  x.1 = .associated x.2.owner x.2.mint ∧ mints x.2.mint = true

instance (mints : Key → Bool) (x : Key × TokenAccount Key) : Decidable (Entitled mints x) :=
  inferInstanceAs (Decidable (_ ∧ _))

/-- The state with the token accounts of `l` and no account of the program. -/
def chainWith (mints : Key → Bool) (l : List (Key × TokenAccount Key)) : World Key where
  accounts _ := none
  tokens := tokensOf l
  mints := mints

theorem genesis_chainWith {mints : Key → Bool} {l : List (Key × TokenAccount Key)}
    (hl : ∀ x ∈ l, Entitled mints x)
    (hsum : (l.map fun x => x.2.amount.toNat).sum ≤ u64Max) :
    Genesis Key.runtime (chainWith mints l) where
  accounts _ := rfl
  lawful := by
    refine ⟨?_, ?_, ?_, ?_⟩
    · intro a m t ht
      obtain ⟨he, _⟩ := hl _ (mem_of_tokensOf ht)
      exact (Key.runtime.associated_inj he).2.symm
    · intro a m t _ ht
      obtain ⟨he, _⟩ := hl _ (mem_of_tokensOf ht)
      exact (Key.runtime.associated_inj he).1.symm
    · intro k t ht
      exact (hl _ (mem_of_tokensOf ht)).2
    · intro m S
      exact (supply_tokensOf l m S).trans hsum

/-! ## 4. A small chain

Keys, token accounts and submissions that concrete runs are built from. -/

namespace Demo

def admin : Key := .user 1
def owner : Key := .user 2
def stranger : Key := .user 3
def payee : Key := .user 4
def mint (n : Nat) : Key := .user (10 + n)
def alice : Bytes := [97]
def bob : Bytes := [98]
def wallet (agentId : Bytes) : Key := .agentWallet agentId

/-- Before registration both wallet addresses already have token accounts: anyone
can create and fund them. -/
def chain : World Key :=
  chainWith (fun k => k = mint 0 || k = mint 1 || k = mint 2 || k = mint 3)
    [(.associated (wallet alice) (mint 1), ⟨mint 1, wallet alice, 1000, false⟩),
     (.associated (wallet alice) (mint 2), ⟨mint 2, wallet alice, 0, false⟩),
     (.associated (wallet bob) (mint 0), ⟨mint 0, wallet bob, 1000, false⟩),
     (.associated payee (mint 1), ⟨mint 1, payee, 0, false⟩),
     (.associated stranger (mint 0), ⟨mint 0, stranger, 0, false⟩)]

theorem genesis_chain : Genesis Key.runtime chain :=
  genesis_chainWith (by decide) (by decide)

theorem reachable_chain (l : List (Submission Key)) :
    Reachable Key.runtime (submitAll Key.runtime chain l) :=
  ⟨chain, _, genesis_chain, replay_reaches Key.runtime chain l⟩

def initProtocol : Submission Key := (0, .initProtocol ⟨.protocolConfig, admin⟩ admin)

def register (agentId : Bytes) (signer usdcMint : Key) (now : Int64) : Submission Key :=
  (now, .registerAgent ⟨wallet agentId, .associated (wallet agentId) usdcMint, usdcMint, signer⟩
    agentId)

/-- A policy with a daily budget, enforced from `highValueThreshold` on. -/
def setPolicy (agentId : Bytes) (signer : Key) (dailyBudget highValueThreshold : UInt64)
    (now : Int64) : Submission Key :=
  (now, .setSpendPolicy ⟨.spendPolicy (wallet agentId), wallet agentId, signer⟩
    { dailyBudget, weeklyBudget := 0, perCallLimit := 0, rateLimitCalls := 0
      rateLimitWindowSecs := 0, highValueThreshold, monthlyBudget := 0
      allowedDomainHashes := [], blockedDomainHashes := [] })

def params (agentId : Bytes) (amount : UInt64) : SettlePaymentParams Key where
  agentId := agentId
  endpointHash := Vector.replicate 32 0
  domainHash := Vector.replicate 32 0
  amountUsdc := amount
  protocol := 0
  parentPayment := none
  memo := none

def settleAccounts (agentId : Bytes) (signer : Key) (n : UInt64) (usdcMint payeeAccount : Key) :
    SettlePayment Key where
  paymentRecord := .paymentRecord (wallet agentId) n
  agentWallet := wallet agentId
  spendPolicy := .spendPolicy (wallet agentId)
  usdcTokenAccount := .associated (wallet agentId) usdcMint
  payeeTokenAccount := payeeAccount
  usdcMint := usdcMint
  owner := signer
  protocolConfig := .protocolConfig

def settle (agentId : Bytes) (signer : Key) (n : UInt64) (usdcMint payeeAccount : Key)
    (amount : UInt64) (now : Int64) : Submission Key :=
  (now, .settlePayment (settleAccounts agentId signer n usdcMint payeeAccount) n
    (params agentId amount))

def violate (agentId : Bytes) (signer : Key) (n : UInt64) (now : Int64) : Submission Key :=
  (now, .recordPolicyViolation ⟨.paymentRecord (wallet agentId) n, wallet agentId, signer⟩ n
    (params agentId 1) 0)

def deactivate (agentId : Bytes) (signer : Key) (now : Int64) : Submission Key :=
  (now, .deactivateAgent ⟨wallet agentId, signer⟩)

def freeze (agentId : Bytes) (now : Int64) : Submission Key :=
  (now, .freezeAgent ⟨wallet agentId, .protocolConfig, admin⟩)

def unfreeze (agentId : Bytes) (now : Int64) : Submission Key :=
  (now, .unfreezeAgent ⟨wallet agentId, .protocolConfig, admin⟩)

def withdrawAll (agentId : Bytes) (signer usdcMint : Key) (now : Int64) : Submission Key :=
  (now, .withdrawAll ⟨wallet agentId, .associated (wallet agentId) usdcMint,
    .associated signer usdcMint, usdcMint, signer⟩)

def transfer (agentId : Bytes) (signer newOwner : Key) (now : Int64) : Submission Key :=
  (now, .transferOwnership ⟨wallet agentId, signer⟩ newOwner)

def close (agentId : Bytes) (signer usdcMint : Key) (now : Int64) : Submission Key :=
  (now, .closeAgent ⟨wallet agentId, .spendPolicy (wallet agentId),
    .associated (wallet agentId) usdcMint, usdcMint, signer⟩)

/-- A policy, a settlement and a violation. -/
def spending : List (Submission Key) :=
  [setPolicy alice owner 500 10 100,
    settle alice owner 0 (mint 1) (.associated payee (mint 1)) 70 200, violate alice owner 1 300]

/-- The first agent registered, with two entries in its ledger. -/
def opening : List (Submission Key) :=
  initProtocol :: register alice owner (mint 0) 100 :: spending

/-- The wallet that the opening run leaves. -/
def opened : AgentWallet Key :=
  { AgentWallet.registered alice owner (.associated (wallet alice) (mint 0)) 100 255 with
    dailySpend := 70, weeklySpend := 70, monthlySpend := 70, paymentSequence := 2
    totalPayments := 2, totalVolume := 70, lastPaymentAt := 200 }

example : (submitAll Key.runtime chain opening).wallet (wallet alice) = some opened := by
  rfl

def beforeRegister : World Key := submitAll Key.runtime chain [initProtocol]

def afterRegister : World Key :=
  submit Key.runtime beforeRegister (register alice owner (mint 0) 100)

theorem reachable_beforeRegister : Reachable Key.runtime beforeRegister :=
  reachable_chain [initProtocol]

theorem register_step : Step Key.runtime beforeRegister
    (.accepted 100 (register alice owner (mint 0) 100).2) afterRegister := by
  have hok : succeeds Key.runtime beforeRegister (register alice owner (mint 0) 100) = true := by
    decide +kernel
  exact submit_accepted hok

theorem spending_run :
    Reaches Key.runtime afterRegister (replay Key.runtime afterRegister spending)
      (submitAll Key.runtime chain opening) :=
  replay_reaches Key.runtime afterRegister spending

end Demo

end MaximProtocol
