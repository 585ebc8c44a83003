import MaximProtocol.Recovery

/-!
# Registering an agent id

`register_agent` creates two accounts: the wallet, which `close_agent` removes, and
its associated token account, which nothing removes and anybody can create. Both are
`init`, so the second decides whether a free id can be registered (`registrable_iff`).
-/

namespace MaximProtocol

open MachineInt World Transitions

variable {Pubkey : Type} [DecidableEq Pubkey] [Inhabited Pubkey]
variable {rt : Runtime Pubkey} {s s₁ s' : World Pubkey} {now now' : Int64}
variable {k mint owner : Pubkey} {agentId : Bytes} {bump : UInt8} {tr : Trace Pubkey}

/-! ## 1. The accounts of a registration -/

/-- What `register_agent` asks of an id, and the seed limit asks of its length. -/
structure ValidId (agentId : Bytes) : Prop where
  nonempty : agentId ≠ []
  length : agentId.length ≤ 32
  bytes : agentId.all isAgentIdByte = true

/-- The accounts of a registration, with the wallet's address given. -/
def RegisterAgent.at (rt : Runtime Pubkey) (k mint owner : Pubkey) : RegisterAgent Pubkey where
  agentWallet := k
  usdcTokenAccount := rt.associatedTokenAddress k mint
  usdcMint := mint
  owner := owner

omit [Inhabited Pubkey] in
/-- Only a wallet can be at the address of an agent id. -/
theorem wallet_slot_free (hwf : WellFormed rt s)
    (ha : rt.findProgramAddress (.agentWallet agentId) = some (k, bump))
    (hnone : s.wallet k = none) : s.Free k := by
  rw [free_iff]
  refine ⟨?_, hnone, ?_, ?_⟩ <;> by_contra hne <;>
    obtain ⟨x, hx⟩ := Option.ne_none_iff_exists'.mp hne
  · have hseeds := find_inj rt ha (hwf.config hx)
    cases hseeds
  · have hseeds := find_inj rt ha (hwf.policy hx)
    cases hseeds
  · have hseeds := find_inj rt ha (hwf.record hx)
    cases hseeds

/-- At free addresses, registration succeeds with every id it accepts. -/
theorem execute_register (now : Int64) (hwf : WellFormed rt s)
    (hlen : agentId ≠ [] ∧ agentId.length ≤ MAX_AGENT_ID_LEN)
    (hbytes : agentId.all isAgentIdByte = true)
    (ha : rt.findProgramAddress (.agentWallet agentId) = some (k, bump))
    (hnone : s.wallet k = none) (htoken : s.tokens (rt.associatedTokenAddress k mint) = none)
    (hmint : s.mints mint = true) (hsign : rt.canSign owner = true) :
    ∃ s' ev, execute rt now (.registerAgent (RegisterAgent.at rt k mint owner) agentId) s =
      .ok (s', ev) := by
  have hfree := wallet_slot_free hwf ha hnone
  simp only [execute, handle, registerAgent, RegisterAgent.tryAccounts, RegisterAgent.at,
    Instruction.signer, bind_eq_ok, require_eq_ok, loadMint_eq_ok, initAccount_eq_ok,
    pure_eq_ok, Option.isNone_iff_eq_none, exists_const, Prod.mk.injEq]
  exact ⟨_, _, (), require_eq_ok.mpr hsign, bump,
    ⟨hmint, bump, ⟨ha, hfree⟩, trivial, htoken, rfl⟩, hlen, hbytes, rfl, rfl⟩

/-- **A free id is registrable** exactly when its wallet's token account does not
exist yet. -/
theorem registrable_iff (h : Reachable rt s) (hid : ValidId agentId)
    (ha : rt.findProgramAddress (.agentWallet agentId) = some (k, bump))
    (hnone : s.wallet k = none) (hmint : s.mints mint = true)
    (hsign : rt.canSign owner = true) :
    (∃ s' ev, execute rt now (.registerAgent (RegisterAgent.at rt k mint owner) agentId) s =
      .ok (s', ev)) ↔ s.tokens (rt.associatedTokenAddress k mint) = none := by
  have hlen : agentId.length ≤ MAX_AGENT_ID_LEN := hid.length.trans (by decide)
  constructor
  · rintro ⟨s', ev, hok⟩
    cases (execute_effect hok).2 with
    | registerAgent hreg => exact hreg.token_free
  · intro htoken
    exact execute_register now (reachable_wellFormed h) ⟨hid.nonempty, hlen⟩ hid.bytes ha hnone
      htoken hmint hsign

/-- A fresh id, and a mint that its wallet has no token account of. -/
theorem registrable_fresh :
    (∃ s' ev, execute Key.runtime 100 (.registerAgent (RegisterAgent.at Key.runtime
        (Demo.wallet Demo.alice) (Demo.mint 0) Demo.owner) Demo.alice) Demo.beforeRegister =
      .ok (s', ev)) ↔
      Demo.beforeRegister.tokens
        (Key.runtime.associatedTokenAddress (Demo.wallet Demo.alice) (Demo.mint 0)) = none :=
  registrable_iff Demo.reachable_beforeRegister ⟨by decide, by decide, by decide⟩
    (show Key.runtime.findProgramAddress (.agentWallet Demo.alice) =
      some (Demo.wallet Demo.alice, 255) from rfl) rfl rfl rfl

/-- The same id with a mint of which somebody created the wallet's token account. -/
theorem squatted : ¬ ∀ (s : World Key) (agentId : Bytes) (k mint owner : Key) (bump : UInt8)
    (now : Int64), Reachable Key.runtime s → ValidId agentId →
    Key.runtime.findProgramAddress (.agentWallet agentId) = some (k, bump) →
    s.wallet k = none → s.mints mint = true → Key.runtime.canSign owner = true →
    ∃ s' ev, execute Key.runtime now
      (.registerAgent (RegisterAgent.at Key.runtime k mint owner) agentId) s = .ok (s', ev) := by
  intro h
  obtain ⟨s', ev, hok⟩ := h Demo.beforeRegister Demo.alice (Demo.wallet Demo.alice) (Demo.mint 1)
    Demo.owner 255 100 Demo.reachable_beforeRegister ⟨by decide, by decide, by decide⟩ rfl rfl
    rfl rfl
  cases (execute_effect hok).2 with
  | registerAgent hreg =>
    have htaken : (Demo.beforeRegister.tokens
        (.associated (Demo.wallet Demo.alice) (Demo.mint 1))).isSome = true := by
      decide +kernel
    have hfree := hreg.token_free
    simp only [RegisterAgent.at, Key.runtime] at hfree
    rw [hfree] at htaken
    cases htaken

/-! ## 2. One registration for each id and mint -/

/-- The associated token accounts of derived addresses stay. -/
theorem associated_kept (hd : rt.IsDerived k) (h : Reaches rt s tr s')
    (ht : s.tokens (rt.associatedTokenAddress k mint) ≠ none) :
    s'.tokens (rt.associatedTokenAddress k mint) ≠ none := by
  refine run_preserves (I := fun v => v.tokens (rt.associatedTokenAddress k mint) ≠ none) h ht ?_
  rintro ⟨u, act, v⟩ _ hs hu
  simp only at hs hu ⊢
  cases hs with
  | rejected _ => exact hu
  | outside ho => exact ho.associated k mint hd hu
  | accepted he =>
    obtain ⟨t, ht⟩ := Option.ne_none_iff_exists'.mp hu
    obtain ⟨b, hb⟩ := token_persists (execute_effect he).2 ht
    rw [hb]
    exact Option.some_ne_none _

/-- An id is registered at most once with each mint, even if the wallet is closed in
between: the token account of the first registration stays. -/
theorem registered_once {accs accs' : RegisterAgent Pubkey} {agentId' : Bytes}
    {s₂ : World Pubkey} (h : Step rt s (.accepted now (.registerAgent accs agentId)) s₁)
    (hr : Reaches rt s₁ tr s₂)
    (h' : Step rt s₂ (.accepted now' (.registerAgent accs' agentId')) s')
    (hk : accs'.agentWallet = accs.agentWallet) : accs'.usdcMint ≠ accs.usdcMint := by
  intro hm
  cases (step_effect h).2 with
  | registerAgent hreg =>
    cases (step_effect h').2 with
    | registerAgent hreg' =>
      have hcreated : s₁.tokens (rt.associatedTokenAddress accs.agentWallet accs.usdcMint) ≠
          none := by
        rw [hreg.views.tokens, ← hreg.associated, Function.update_self]
        exact Option.some_ne_none _
      have hfree := hreg'.token_free
      rw [hreg'.associated, hk, hm] at hfree
      exact associated_kept (find_derived rt hreg.addr) hr hcreated hfree

end MaximProtocol
