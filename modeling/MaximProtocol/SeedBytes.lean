import MaximProtocol.Replay
import MaximProtocol.Library.Borsh

/-!
# The bytes of the seeds

An address is a hash of the concatenated seeds and the bump. Nothing separates the seeds
of one list, and an agent id can be of any length.

1. `seedBytes_inj`: the bytes determine the seed list and the bump, all the same.
2. `SignsAsItself`: the seeds a wallet signs a transfer with derive its own address, and
   nothing else does.
-/

namespace MaximProtocol

open MachineInt World Transitions
open Borsh hiding Bytes

/-! ## 1. Seed lists as bytes -/

/-- The 32 bytes of a public key. -/
abbrev KeyBytes := Vector UInt8 32

/-- A byte string literal `b".."`. -/
def ascii (literal : String) : Bytes := literal.toList.map fun c => UInt8.ofNat c.toNat

/-- The seed lists, as the account contexts have them. -/
def Seeds.slices : Seeds KeyBytes → List Bytes
  | .protocolConfig => [ascii "protocol_config"]
  | .agentWallet agentId => [ascii "agent_wallet", agentId]
  | .spendPolicy key => [ascii "spend_policy", key.toList]
  | .paymentRecord key sequence => [ascii "payment_record", key.toList, encU64 sequence]

/-- What is hashed of the seeds: their bytes, with the bump as a last seed. -/
def seedBytes (seeds : Seeds KeyBytes) (bump : UInt8) : Bytes := (seeds.slices ++ [[bump]]).flatten

/-- The first two bytes tell the four literals apart. -/
def Seeds.opening : Seeds KeyBytes → Bytes
  | .protocolConfig => ascii "pr"
  | .agentWallet _ => ascii "ag"
  | .spendPolicy _ => ascii "sp"
  | .paymentRecord _ _ => ascii "pa"

theorem seedBytes_opening (seeds : Seeds KeyBytes) (bump : UInt8) :
    (seedBytes seeds bump).take 2 = seeds.opening := by
  cases seeds <;> rfl

theorem keyBytes_inj {a b : KeyBytes} (h : a.toList = b.toList) : a = b :=
  reads_inj (reads_array a) (h ▸ reads_array b)

/-- Bytes after one literal, and before one bump. -/
theorem middle_inj {literal body body' : Bytes} {bump bump' : UInt8}
    (h : literal ++ body ++ [bump] = literal ++ body' ++ [bump']) :
    body = body' ∧ bump = bump' := by
  obtain ⟨hbody, hbump⟩ := List.append_inj' h rfl
  exact ⟨List.append_cancel_left hbody, List.singleton_inj.mp hbump⟩

/-- The bytes of a seed list and a bump determine both. -/
theorem seedBytes_inj {seeds seeds' : Seeds KeyBytes} {bump bump' : UInt8}
    (h : seedBytes seeds bump = seedBytes seeds' bump') : seeds = seeds' ∧ bump = bump' := by
  have hopening : seeds.opening = seeds'.opening := by
    rw [← seedBytes_opening seeds bump, h, seedBytes_opening]
  simp only [seedBytes, List.flatten_append, List.flatten_singleton] at h
  -- lists of two families differ in the opening
  cases seeds with
  | protocolConfig =>
    cases seeds' with
    | protocolConfig =>
      obtain ⟨_, hbump⟩ := List.append_inj' h rfl
      exact ⟨rfl, List.singleton_inj.mp hbump⟩
    | _ => exact absurd hopening (by simp only [Seeds.opening]; decide)
  | agentWallet agentId =>
    cases seeds' with
    | agentWallet agentId' =>
      simp only [Seeds.slices, List.flatten_cons, List.flatten_nil, List.append_nil] at h
      obtain ⟨rfl, rfl⟩ := middle_inj h
      exact ⟨rfl, rfl⟩
    | _ => exact absurd hopening (by simp only [Seeds.opening]; decide)
  | spendPolicy k =>
    cases seeds' with
    | spendPolicy k' =>
      simp only [Seeds.slices, List.flatten_cons, List.flatten_nil, List.append_nil] at h
      obtain ⟨hkey, rfl⟩ := middle_inj h
      obtain rfl := keyBytes_inj hkey
      exact ⟨rfl, rfl⟩
    | _ => exact absurd hopening (by simp only [Seeds.opening]; decide)
  | paymentRecord k n =>
    cases seeds' with
    | paymentRecord k' n' =>
      simp only [Seeds.slices, List.flatten_cons, List.flatten_nil, List.append_nil] at h
      obtain ⟨hbody, rfl⟩ := middle_inj h
      obtain ⟨hkey, hsequence⟩ := List.append_inj hbody (by simp)
      obtain rfl := keyBytes_inj hkey
      obtain rfl := encU64_inj hsequence
      exact ⟨rfl, rfl⟩
    | _ => exact absurd hopening (by simp only [Seeds.opening]; decide)

/-! ## 2. Signing with the seeds of a wallet -/

/-- `signer_seeds`, in `settle_payment` and in `cpi_transfer_from_wallet`. -/
def signerSeeds (agentId : Bytes) (bump : UInt8) : List Bytes :=
  [ascii "agent_wallet", agentId, [bump]]

variable {Pubkey : Type} [DecidableEq Pubkey]

/-- The wallet `w` at `k` signs transfers with the seeds of its own account. -/
structure SignsAsItself (rt : Runtime Pubkey) (k : Pubkey) (w : AgentWallet Pubkey) : Prop where
  seeds : signerSeeds w.agentId w.bump = (Seeds.agentWallet w.agentId).slices ++ [[w.bump]]
  canonical : rt.findProgramAddress (.agentWallet w.agentId) = some (k, w.bump)
  only : ∀ seeds bump, rt.createProgramAddress seeds bump = some k ↔
    seeds = .agentWallet w.agentId ∧ bump = w.bump
  /-- A settlement signs with what its checks return. -/
  settled : ∀ {now config p n params w' p'},
    settlePaymentChecks now config w p n params = .ok (w', p') →
      signerSeeds w'.agentId w'.bump = signerSeeds w.agentId w.bump
  transfer : ∀ source destination authority amount tokens,
    cpiTransferFromWallet rt source destination authority w.agentId w.bump amount tokens =
      if authority = k then tokenTransfer source destination authority amount tokens
      else .error .privilegeEscalation

theorem cpiTransfer_eq {rt : Runtime Pubkey} {agentId : Bytes} {bump : UInt8} {k : Pubkey}
    (h : rt.createProgramAddress (.agentWallet agentId) bump = some k)
    (source destination authority : Pubkey) (amount : UInt64) (tokens : Tokens Pubkey) :
    cpiTransferFromWallet rt source destination authority agentId bump amount tokens =
      if authority = k then tokenTransfer source destination authority amount tokens
      else .error .privilegeEscalation := by
  unfold cpiTransferFromWallet require
  rw [h]
  by_cases hk : authority = k
  · subst hk
    rw [if_pos rfl, if_pos rfl]
    rfl
  · have hne : ¬ some k = some authority := fun he => hk (Option.some.inj he).symm
    rw [if_neg hne, if_neg hk]
    rfl

theorem signsAsItself [Inhabited Pubkey] {rt : Runtime Pubkey} {s : World Pubkey} {k : Pubkey}
    {w : AgentWallet Pubkey} (h : Reachable rt s) (hw : s.wallet k = some w) :
    SignsAsItself rt k w := by
  have hfind := (reachable_wellFormed h).wallet hw
  have hcreate := rt.find_create hfind
  refine ⟨rfl, hfind, fun seeds bump => ?_, fun hchecks => ?_, cpiTransfer_eq hcreate⟩
  · constructor
    · exact fun hseeds => rt.create_inj hseeds hcreate
    · rintro ⟨rfl, rfl⟩
      exact hcreate
  · obtain ⟨_, _, _, _, _, _, rfl⟩ :=
      (passed_resets (settlePaymentChecks_eq_ok.mp hchecks)).frame
    rfl

/-- **Seeds do not collide**, for all agent ids, keys, sequences and bumps, although their
bytes are only concatenated; and every wallet signs with the seeds of its own account. -/
theorem seeds_separate :
    (∀ (seeds seeds' : Seeds KeyBytes) (bump bump' : UInt8),
      seedBytes seeds bump = seedBytes seeds' bump' → seeds = seeds' ∧ bump = bump') ∧
    ∀ {Pubkey : Type} [DecidableEq Pubkey] [Inhabited Pubkey] {rt : Runtime Pubkey}
      {s : World Pubkey} {k : Pubkey} {w : AgentWallet Pubkey},
      Reachable rt s → s.wallet k = some w → SignsAsItself rt k w :=
  ⟨fun _ _ _ _ h => seedBytes_inj h, fun h hw => signsAsItself h hw⟩

theorem seeds_separate_opening :
    ((.agentWallet Demo.alice : Seeds KeyBytes) = .agentWallet [97] ∧ (255 : UInt8) = 255) ∧
      SignsAsItself Key.runtime (Demo.wallet Demo.alice) Demo.opened :=
  ⟨seeds_separate.1 _ _ _ _ rfl,
    seeds_separate.2 (Demo.reachable_chain Demo.opening) rfl⟩

end MaximProtocol
