import MaximProtocol.Registration
import MaximProtocol.Store

/-!
# Agent ids

`register_agent` accepts ids of up to `MAX_AGENT_ID_LEN` bytes, and a wallet's account has
room for them. The id is also a seed of the wallet's address, and derivation refuses seeds
of more than 32 bytes.

`served_iff`: an id is dealt with as it should be exactly if it is no longer than a seed
or is not permitted in the first place.
-/

namespace MaximProtocol

open MachineInt World Transitions

variable {Pubkey : Type} [DecidableEq Pubkey] [Inhabited Pubkey]

/-! ## 1. What is expected of an id -/

/-- Neither the wallet of the agent nor its associated token account of `mint` exists. -/
def Unregistered (rt : Runtime Pubkey) (s : World Pubkey) (agentId : Bytes) (mint : Pubkey) :
    Prop :=
  ∀ k bump, rt.findProgramAddress (.agentWallet agentId) = some (k, bump) →
    s.wallet k = none ∧ s.tokens (rt.associatedTokenAddress k mint) = none

/-- The constraint of `settle_payment` on its wallet accepts `k` for the agent `agentId`. -/
def Addressed (rt : Runtime Pubkey) (s : World Pubkey) (k : Pubkey) (agentId : Bytes) : Prop :=
  ∃ w, s.wallet k = some w ∧ checkSeeds rt (.agentWallet agentId) w.bump k = .ok ()

/-- A permitted id can be registered where it is not yet, and its wallet is addressed by
the id until it is closed. Any other id is rejected. -/
structure Served (rt : Runtime Pubkey) (s : World Pubkey) (agentId : Bytes)
    (mint owner : Pubkey) : Prop where
  registered : PermittedId agentId → Unregistered rt s agentId mint →
    ∃ accs, accs.usdcMint = mint ∧ accs.owner = owner ∧ ∀ now, ∃ s' ev,
      execute rt now (.registerAgent accs agentId) s = .ok (s', ev) ∧
      (∃ w, s'.wallet accs.agentWallet = some w ∧ w.agentId = agentId ∧ w.owner = owner) ∧
      ∀ tr t, Reaches rt s' tr t → StaysOpen accs.agentWallet tr →
        Addressed rt t accs.agentWallet agentId
  rejected : ¬ PermittedId agentId → ∀ now accs,
    (∃ e, execute rt now (.registerAgent accs agentId) s = .error e) ∧
      submit rt s (now, .registerAgent accs agentId) = s

variable {rt : Runtime Pubkey} {s s' : World Pubkey} {now : Int64} {k mint owner : Pubkey}
variable {agentId : Bytes} {tr : Trace Pubkey} {ev : Option (Event Pubkey)}
variable {accs : RegisterAgent Pubkey}

/-! ## 2. Ids that fit a seed -/

theorem registers_of_ok (h : execute rt now (.registerAgent accs agentId) s = .ok (s', ev)) :
    ∃ bump, Registers rt now accs agentId s s' bump := by
  cases (execute_effect h).2 with
  | registerAgent hreg => exact ⟨_, hreg⟩

omit [DecidableEq Pubkey] [Inhabited Pubkey] in
theorem permitted_fits {bump : UInt8}
    (h : rt.findProgramAddress (.agentWallet agentId) = some (k, bump)) : agentId.length ≤ 32 := by
  have hfits := rt.create_fits (rt.find_create h)
  simp only [Seeds.fits, decide_eq_true_eq] at hfits
  exact hfits

/-- While it stays open, a wallet keeps its id. -/
theorem agentId_run {w : AgentWallet Pubkey} (hr : Reaches rt s tr s') (hopen : StaysOpen k tr)
    (hw : s.wallet k = some w) : ∃ w', s'.wallet k = some w' ∧ w'.agentId = w.agentId := by
  refine run_preserves (I := fun v => ∃ w', v.wallet k = some w' ∧ w'.agentId = w.agentId) hr
    ⟨w, hw, rfl⟩ ?_
  rintro x hx hs ⟨w₀, hw₀, hid⟩
  obtain ⟨w', hw'⟩ := Option.ne_none_iff_exists'.mp
    (wallet_stays hs (hopen x hx) (by simp [hw₀]))
  rcases wallet_before hs hw' with ⟨_, accs, _, _, _, rfl, hreg⟩ | ⟨w₁, hw₁, hsame⟩
  · have hfree := (free_iff.mp hreg.free).2.1
    rw [hw₀] at hfree
    cases hfree
  · rw [hw₀] at hw₁
    cases hw₁
    exact ⟨w', hw', hsame.agentId.trans hid⟩

theorem addressed_run {w : AgentWallet Pubkey} (h : Reachable rt s) (hr : Reaches rt s tr s')
    (hopen : StaysOpen k tr) (hw : s.wallet k = some w) : Addressed rt s' k w.agentId := by
  obtain ⟨w', hw', hid⟩ := agentId_run hr hopen hw
  have haddr := (reachable_wellFormed (reachable_run h hr)).wallet hw'
  rw [hid] at haddr
  exact ⟨w', hw', checkSeeds_eq_ok.mpr (rt.find_create haddr)⟩

/-- An id is served in every reachable state, for every mint and every owner that signs,
exactly if it fits a seed or is not permitted. -/
theorem served_iff (h : Reachable rt s) (hmint : s.mints mint = true)
    (hsign : rt.canSign owner = true) :
    Served rt s agentId mint owner ↔ (PermittedId agentId → agentId.length ≤ 32) := by
  constructor
  · intro hserved hid
    by_contra hlong
    -- no address can be derived, so none is taken
    have hnone : Unregistered rt s agentId mint := by
      intro k bump hfind
      exact absurd (permitted_fits hfind) hlong
    obtain ⟨accs, _, _, hok⟩ := hserved.registered hid hnone
    obtain ⟨s', ev, hok, _⟩ := hok 0
    obtain ⟨bump, hreg⟩ := registers_of_ok hok
    exact hlong (permitted_fits hreg.addr)
  · intro hshort
    refine ⟨fun hid hnone => ?_, fun hid now accs => ?_⟩
    · have hfits : (Seeds.agentWallet agentId : Seeds Pubkey).fits = true := by
        simp only [Seeds.fits, decide_eq_true_eq]
        exact hshort hid
      obtain ⟨k, bump, hfind⟩ := exists_find rt hfits
      obtain ⟨hwallet, htoken⟩ := hnone k bump hfind
      refine ⟨RegisterAgent.at rt k mint owner, rfl, rfl, fun now => ?_⟩
      obtain ⟨s', ev, hok⟩ := execute_register now (reachable_wellFormed h)
        ⟨hid.nonempty, hid.length⟩ hid.bytes hfind hwallet htoken hmint hsign
      obtain ⟨b, hreg⟩ := registers_of_ok hok
      have hnew : s'.wallet k = some (AgentWallet.registered agentId owner
          (rt.associatedTokenAddress k mint) now b) := by
        rw [hreg.views.wallet]
        exact Function.update_self _ _ _
      refine ⟨s', ev, hok, ⟨_, hnew, rfl, rfl⟩, fun tr t hr hopen => ?_⟩
      exact addressed_run (reachable_step h (.accepted hok)) hr hopen hnew
    · unfold submit
      cases hres : execute rt now (.registerAgent accs agentId) s with
      | error e => exact ⟨⟨e, rfl⟩, rfl⟩
      | ok r =>
        obtain ⟨_, hreg⟩ := registers_of_ok hres
        exact absurd ⟨hreg.id_length.1, hreg.id_length.2, hreg.id_bytes⟩ hid

/-- The id of the first agent, one byte long. -/
theorem served_alice :
    Served Key.runtime Demo.beforeRegister Demo.alice (Demo.mint 0) Demo.owner ↔
      (PermittedId Demo.alice → Demo.alice.length ≤ 32) :=
  served_iff Demo.reachable_beforeRegister rfl rfl

/-- An id of 33 letters is permitted and cannot be registered. -/
theorem long_id_unserved : ¬ ∀ s agentId mint owner, Reachable Key.runtime s →
    s.mints mint = true → Key.runtime.canSign owner = true →
    Served Key.runtime s agentId mint owner := by
  intro h
  have hserved := h Demo.beforeRegister (List.replicate 33 97) (Demo.mint 0) Demo.owner
    Demo.reachable_beforeRegister rfl rfl
  have hnone : Unregistered Key.runtime Demo.beforeRegister (List.replicate 33 97)
      (Demo.mint 0) := by
    intro k bump hfind
    exact absurd (permitted_fits hfind) (by decide)
  obtain ⟨accs, _, _, hok⟩ :=
    hserved.registered ⟨by decide, by decide, by decide⟩ hnone
  obtain ⟨s', ev, hok, _⟩ := hok 100
  obtain ⟨bump, hreg⟩ := registers_of_ok hok
  exact absurd (permitted_fits hreg.addr) (by decide)

end MaximProtocol
