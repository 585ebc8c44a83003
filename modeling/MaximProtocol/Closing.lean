import MaximProtocol.Plans
import MaximProtocol.Store

/-!
# Closing a wallet

`close_agent` asks for an empty token account: the wallet's associated account of the mint
the caller passes. The account that the wallet recorded at its registration is not looked
at, so a close with another mint leaves behind what the recorded account holds.

`close_drained_iff`: this is the only way to close a wallet with funds in its recorded
account. `at_risk_iff`: which wallets can be closed so.
-/

namespace MaximProtocol

open MachineInt World Transitions

variable {Pubkey : Type}

/-! ## 1. Closes that pass with another account -/

/-- The close of the wallet `w` meets every check, with an empty token account that is
not the one `w` recorded, and the recorded one holds funds. -/
structure Diverted (rt : Runtime Pubkey) (s : World Pubkey) (accs : CloseAgent Pubkey)
    (w : AgentWallet Pubkey) : Prop where
  signed : rt.canSign accs.owner = true
  owner : w.owner = accs.owner
  inactive : w.isActive = false
  policy : ∃ p, s.policy accs.spendPolicy = some p ∧ p.agentWallet = accs.agentWallet
  associated : accs.usdcTokenAccount = rt.associatedTokenAddress accs.agentWallet accs.usdcMint
  empty : ∃ t, s.tokens accs.usdcTokenAccount = some t ∧ t.amount = 0
  other : accs.usdcTokenAccount ≠ w.usdcTokenAccount
  funded : 0 < s.tokens.balance w.usdcTokenAccount

/-- If the transition closes a wallet, its recorded token account was empty. -/
def ClosesDrained (x : Transition (World Pubkey) (Action Pubkey)) : Prop :=
  ∀ accs w, Accepts x (.closeAgent accs) → x.pre.wallet accs.agentWallet = some w →
    x.pre.tokens.balance w.usdcTokenAccount = 0

/-- The transition submits a close that is diverted. -/
def SubmitsDiverted (rt : Runtime Pubkey) (x : Transition (World Pubkey) (Action Pubkey)) :
    Prop :=
  ∃ accs w, Submits x (.closeAgent accs) ∧ x.pre.wallet accs.agentWallet = some w ∧
    Diverted rt x.pre accs w

variable [DecidableEq Pubkey] [Inhabited Pubkey] {rt : Runtime Pubkey} {s s' : World Pubkey}
variable {accs : CloseAgent Pubkey} {w : AgentWallet Pubkey} {k : Pubkey} {now : Int64}
variable {tr : Trace Pubkey} {ev : Option (Event Pubkey)}

theorem diverted_closes (h : Reachable rt s) (hw : s.wallet accs.agentWallet = some w)
    (hd : Diverted rt s accs w) (now : Int64) :
    ∃ s' ev, execute rt now (.closeAgent accs) s = .ok (s', ev) := by
  have hwf := reachable_wellFormed h
  obtain ⟨p, hp, hpk⟩ := hd.policy
  obtain ⟨t, ht, hempty⟩ := hd.empty
  have hseeds := rt.find_create (hwf.policy hp)
  rw [hpk] at hseeds
  -- the mint and the owner of the passed account are those it is associated with
  have hassoc := ht
  rw [hd.associated] at hassoc
  have howner := hwf.lawful.associated_owner (find_derived rt (hwf.wallet hw)) hassoc
  have hmint := hwf.lawful.mint_exists hassoc
  rw [hwf.lawful.associated_mint hassoc] at hmint
  exact ⟨_, execute_iff_plans.mpr ⟨hd.signed, _, .closeAgent hw hp ht hmint hd.owner hd.inactive
    (checkSeeds_eq_ok.mpr hseeds) (checkAssociated_eq_ok.mpr ⟨howner, hd.associated⟩) hempty, rfl⟩⟩

theorem diverted_of_close (hwf : WellFormed rt s) (hw : s.wallet accs.agentWallet = some w)
    (hok : execute rt now (.closeAgent accs) s = .ok (s', ev))
    (hfunds : s.tokens.balance w.usdcTokenAccount ≠ 0) : Diverted rt s accs w := by
  obtain ⟨hsign, heffect⟩ := execute_effect hok
  cases heffect with
  | @closeAgent _ w₀ p t h =>
    have hsame := h.wallet
    rw [hw] at hsame
    cases hsame
    refine ⟨hsign, h.owner, h.inactive, ⟨p, h.policy, ?_⟩, h.associated, ⟨t, h.token, h.empty⟩,
      fun hsame => ?_, by omega⟩
    · exact (policy_seeds_inj h.policy_seeds (hwf.policy h.policy)).symm
    · refine hfunds ?_
      rw [← hsame, Tokens.balance, h.token]
      simp [h.empty]

/-- A successful close finds the recorded account empty exactly if it is not diverted. -/
theorem closes_iff (h : Reachable rt s) (hw : s.wallet accs.agentWallet = some w) :
    (∀ now s' ev, execute rt now (.closeAgent accs) s = .ok (s', ev) →
      s.tokens.balance w.usdcTokenAccount = 0) ↔ ¬ Diverted rt s accs w := by
  constructor
  · intro hdrained hd
    obtain ⟨s', ev, hok⟩ := diverted_closes h hw hd 0
    have hzero := hdrained 0 s' ev hok
    have hfunded := hd.funded
    omega
  · intro hd now s' ev hok
    by_contra hfunds
    exact hd (diverted_of_close (reachable_wellFormed h) hw hok hfunds)

/-! ## 2. Over a run -/

/-- A submission that succeeds at every clock reading was accepted. -/
theorem submits_accepted {i : Instruction Pubkey} {x : Transition (World Pubkey) (Action Pubkey)}
    (hs : Step rt x.pre x.label x.post) (hi : Submits x i)
    (hok : ∀ now, ∃ t ev, execute rt now i x.pre = .ok (t, ev)) : Accepts x i := by
  obtain ⟨u, act, v⟩ := x
  obtain ⟨now, rfl | rfl⟩ := hi
  · exact ⟨now, rfl⟩
  · cases hs with
    | rejected herr =>
      obtain ⟨t, ev, hok⟩ := hok now
      rw [hok] at herr
      cases herr

/-- In every state of the program, a close with given accounts leaves no funds in the
recorded token account, if it succeeds, exactly when it is not diverted; so every close
of a run is of a drained wallet exactly when none that is submitted is diverted. -/
theorem close_drained_iff (h0 : Genesis rt s) (hr : Reaches rt s tr s') :
    (∀ accs w, s'.wallet accs.agentWallet = some w →
      ((∀ now t ev, execute rt now (.closeAgent accs) s' = .ok (t, ev) →
        s'.tokens.balance w.usdcTokenAccount = 0) ↔ ¬ Diverted rt s' accs w)) ∧
    ((∀ x ∈ tr, ClosesDrained x) ↔ ∀ x ∈ tr, ¬ SubmitsDiverted rt x) := by
  refine ⟨fun accs w hw => closes_iff ⟨s, tr, h0, hr⟩ hw, ?_, ?_⟩
  · rintro hdrained x hx ⟨accs, w, hsub, hw, hd⟩
    have hreach := (reachable_mem (reachable_init h0) hr hx).1
    have hacc := submits_accepted (run_step hr hx) hsub fun now => diverted_closes hreach hw hd now
    have hzero := hdrained x hx accs w hacc hw
    have hfunded := hd.funded
    omega
  · rintro hnone x hx accs w ⟨now, hl⟩ hw
    have hwf := reachable_wellFormed (reachable_mem (reachable_init h0) hr hx).1
    have hs := run_step hr hx
    rw [hl] at hs
    cases hs with
    | accepted hok =>
      by_contra hfunds
      exact hnone x hx ⟨accs, w, ⟨now, .inl hl⟩, hw, diverted_of_close hwf hw hok hfunds⟩

namespace Demo

/-- The funded wallet is deactivated, under a policy. -/
def idle : World Key := submitAll Key.runtime funded (usurping.take 2)

def idleWallet : AgentWallet Key := { fundedWallet with isActive := false }

theorem reachable_idle : Reachable Key.runtime idle :=
  reachable_run reachable_funded (replay_reaches Key.runtime funded (usurping.take 2))

theorem idle_wallet : idle.wallet (wallet alice) = some idleWallet := rfl

/-- The accounts of a close of the first wallet, with its associated account of `m`. -/
def closing (m : Key) : CloseAgent Key :=
  ⟨wallet alice, .spendPolicy (wallet alice), .associated (wallet alice) m, m, owner⟩

end Demo

/-- With the mint the wallet was registered with, the close fails as it should. -/
theorem close_drained_funding :
    (∀ now t ev, execute Key.runtime now (.closeAgent (Demo.closing (Demo.mint 0)))
        Demo.funded = .ok (t, ev) →
      Demo.funded.tokens.balance Demo.fundedWallet.usdcTokenAccount = 0) ↔
      ¬ Diverted Key.runtime Demo.funded (Demo.closing (Demo.mint 0)) Demo.fundedWallet :=
  (close_drained_iff Demo.genesis_chain
    (replay_reaches Key.runtime Demo.chain Demo.funding)).1 _ _ Demo.funded_wallet

/-- With another mint, of which the wallet has an empty token account, the close succeeds
and 70 tokens stay in the recorded one. -/
theorem close_abandons : ¬ ∀ s accs w, Reachable Key.runtime s →
    s.wallet accs.agentWallet = some w → ∀ now s' ev,
    execute Key.runtime now (.closeAgent accs) s = .ok (s', ev) →
    s.tokens.balance w.usdcTokenAccount = 0 := by
  intro h
  have hd : Diverted Key.runtime Demo.idle (Demo.closing (Demo.mint 2)) Demo.idleWallet := by
    refine ⟨rfl, rfl, rfl, ⟨_, rfl, rfl⟩, rfl,
      ⟨⟨Demo.mint 2, Demo.wallet Demo.alice, 0, false⟩, rfl, rfl⟩, by decide, ?_⟩
    decide +kernel
  obtain ⟨s', ev, hok⟩ := diverted_closes Demo.reachable_idle Demo.idle_wallet hd 300
  have hzero := h Demo.idle (Demo.closing (Demo.mint 2)) Demo.idleWallet Demo.reachable_idle
    Demo.idle_wallet 300 s' ev hok
  have hfunded := hd.funded
  omega

/-! ## 3. Wallets at risk -/

/-- A wallet that some close would empty of its address, but not of its funds: it is
deactivated under a policy, and an empty token account of another mint is there for it. -/
structure AtRisk (rt : Runtime Pubkey) (s : World Pubkey) (k : Pubkey)
    (w : AgentWallet Pubkey) : Prop where
  signed : rt.canSign w.owner = true
  inactive : w.isActive = false
  policy : ∃ q p, s.policy q = some p ∧ p.agentWallet = k
  empty : ∃ m t, s.tokens (rt.associatedTokenAddress k m) = some t ∧ t.amount = 0 ∧
    rt.associatedTokenAddress k m ≠ w.usdcTokenAccount
  funded : 0 < s.tokens.balance w.usdcTokenAccount

/-- Some close abandons the funds of a wallet exactly if it is at risk. -/
theorem at_risk_iff (h : Reachable rt s) (hw : s.wallet k = some w) :
    AtRisk rt s k w ↔ ∃ accs now s' ev, accs.agentWallet = k ∧
      execute rt now (.closeAgent accs) s = .ok (s', ev) ∧
      0 < s.tokens.balance w.usdcTokenAccount := by
  constructor
  · intro hr
    obtain ⟨q, p, hp, hpk⟩ := hr.policy
    obtain ⟨m, t, ht, hzero, hne⟩ := hr.empty
    have hd : Diverted rt s ⟨k, q, rt.associatedTokenAddress k m, m, w.owner⟩ w :=
      ⟨hr.signed, rfl, hr.inactive, ⟨p, hp, hpk⟩, rfl, ⟨t, ht, hzero⟩, hne, hr.funded⟩
    obtain ⟨s', ev, hok⟩ := diverted_closes h hw hd 0
    exact ⟨_, 0, s', ev, rfl, hok, hr.funded⟩
  · rintro ⟨accs, now, s', ev, rfl, hok, hfunded⟩
    have hd := diverted_of_close (reachable_wellFormed h) hw hok (by omega)
    obtain ⟨p, hp, hpk⟩ := hd.policy
    obtain ⟨t, ht, hzero⟩ := hd.empty
    have hassoc := hd.associated
    refine ⟨hd.owner ▸ hd.signed, hd.inactive, ⟨_, p, hp, hpk⟩,
      ⟨accs.usdcMint, t, hassoc ▸ ht, hzero, hassoc ▸ hd.other⟩, hd.funded⟩

end MaximProtocol
