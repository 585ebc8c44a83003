import MaximProtocol.Custody

/-!
# Recovering the funds of a wallet

In every reachable state the owner of a wallet can empty its token accounts: a
withdrawal looks at no flag, cap, counter or policy (`owner_recovers`). Taken from SPL
Token is that a signed and covered transfer succeeds: the mint's freeze authority holds
neither account (`Tokens.Thawed`).

Two facts carry this. The stored id and bump still derive the wallet's address
(`WellFormed.wallet`), so the program can sign. And the supply of a mint fits a
`u64`, so the recipient cannot overflow (`transfer_lawful`).
-/

namespace MaximProtocol

open MachineInt World Transitions

variable {Pubkey : Type} [DecidableEq Pubkey]
variable {rt : Runtime Pubkey} {s s' : World Pubkey} {now : Int64}

/-! ## 1. Transfers between lawful token accounts -/

/-- `amount` moved between two token accounts and nothing else changed. -/
structure Moves (source destination : Pubkey) (amount : UInt64) (s s' : World Pubkey) : Prop where
  accounts : s'.accounts = s.accounts
  mints : s'.mints = s.mints
  debited : ∃ t a, s.tokens source = some t ∧ s'.tokens source = some { t with amount := a } ∧
    a.toNat + amount.toNat = t.amount.toNat
  credited : ∃ t a, s.tokens destination = some t ∧
    s'.tokens destination = some { t with amount := a } ∧
    a.toNat = t.amount.toNat + amount.toNat
  others : ∀ k, k ≠ source → k ≠ destination → s'.tokens k = s.tokens k

section Transfer

variable {mints : Pubkey → Bool} {tokens tokens' : Tokens Pubkey}
variable {source destination authority : Pubkey} {amount : UInt64}
variable {src dst : TokenAccount Pubkey}

/-- Two token accounts of one mint together hold no more than its supply. -/
theorem pair_supply (hl : LawfulTokens rt mints tokens) (hs : tokens source = some src)
    (hd : tokens destination = some dst) (hne : source ≠ destination)
    (hm : src.mint = dst.mint) : src.amount.toNat + dst.amount.toNat ≤ u64Max := by
  have hsum := hl.supply src.mint {source, destination}
  rw [Finset.sum_pair hne] at hsum
  simp only [Tokens.holding, hs, hd, hm, if_true] at hsum
  exact hsum

/-- A covered transfer between thawed accounts of one mint succeeds. -/
theorem transfer_lawful (hl : LawfulTokens rt mints tokens) (hs : tokens source = some src)
    (hd : tokens destination = some dst) (hz : src.isFrozen = false ∧ dst.isFrozen = false)
    (hm : src.mint = dst.mint) (ho : src.owner = authority) (ha : amount ≤ src.amount) :
    ∃ tokens', tokenTransfer source destination authority amount tokens = .ok tokens' := by
  by_cases hne : source = destination
  · exact ⟨tokens, tokenTransfer_eq_ok.mpr
      ⟨src, dst, hs, hd, hz, ha, hm, ho, .inl ⟨hne, rfl⟩⟩⟩
  · have hpair := pair_supply hl hs hd hne hm
    have hle := UInt64.le_iff_toNat_le.mp ha
    exact ⟨_, tokenTransfer_eq_ok.mpr
      ⟨src, dst, hs, hd, hz, ha, hm, ho, .inr ⟨hne, by omega, rfl⟩⟩⟩

theorem moves_of_transfer (hne : source ≠ destination)
    (h : tokenTransfer source destination authority amount s.tokens = .ok tokens') :
    Moves source destination amount s { s with tokens := tokens' } := by
  obtain ⟨src, dst, hs, hd, _⟩ := tokenTransfer_eq_ok.mp h
  obtain ⟨hfrom, hto⟩ := transfer_moves h hne
  obtain ⟨a, ha⟩ := transfer_keeps h hs
  obtain ⟨b, hb⟩ := transfer_keeps h hd
  simp only [Tokens.balance, hs, hd, ha, hb] at hfrom hto
  exact ⟨rfl, rfl, ⟨src, a, hs, ha, hfrom⟩, ⟨dst, b, hd, hb, hto⟩,
    fun k hks hkd => transfer_of_ne h hks hkd⟩

end Transfer

/-! ## 2. Withdrawals -/

section Withdrawal

variable [Inhabited Pubkey] {accs : WithdrawFunds Pubkey} {ctx : WithdrawFunds.Loaded Pubkey}
variable {amount : UInt64} {ev : Option (Event Pubkey)}

theorem execute_withdrawFunds (now : Int64) (amount : UInt64) (hsign : rt.canSign accs.owner = true)
    (hv : accs.Validates rt s ctx) (r : Outcome Pubkey) :
    execute rt now (.withdrawFunds accs amount) s = .ok r ↔
      0 < amount ∧ amount ≤ ctx.source.amount ∧
        withdrawAmount rt now accs ctx amount s = .ok r := by
  have hload := withdraw_tryAccounts_eq_ok.mpr hv
  simp [execute, handle, withdrawFunds, Instruction.signer, hsign, hload]

/-- Both withdrawals are one instruction at the whole balance: the same result, the
same error and the same event. -/
theorem withdrawAll_eq (hv : accs.Validates rt s ctx) :
    execute rt now (.withdrawAll accs) s =
      execute rt now (.withdrawFunds accs ctx.source.amount) s := by
  have hload := withdraw_tryAccounts_eq_ok.mpr hv
  have hcovered : require (ctx.source.amount ≤ ctx.source.amount)
      (ProgramError.maxim .insufficientFunds) = .ok () := by
    rw [require_eq_ok]
    exact UInt64.le_refl _
  have hsame : withdrawAll rt now accs s = withdrawFunds rt now accs ctx.source.amount s := by
    unfold withdrawAll withdrawFunds
    rw [hload]
    show (require _ _ >>= fun _ => _) = (require _ _ >>= fun _ => (require _ _ >>= fun _ => _))
    rw [hcovered]
    rfl
  simp only [execute, handle, hsame]
  rfl

omit [Inhabited Pubkey] in
/-- Of a wallet at the address its fields derive, every covered amount can be
withdrawn, and it moves to the owner. -/
theorem withdrawAmount_moves (now : Int64) (amount : UInt64) (hwf : WellFormed rt s)
    (hv : accs.Validates rt s ctx) (hsign : rt.canSign accs.owner = true)
    (hfrom : s.tokens.Thawed accs.usdcTokenAccount) (hto : s.tokens.Thawed accs.ownerTokenAccount)
    (hle : amount ≤ ctx.source.amount) :
    ∃ s' ev, withdrawAmount rt now accs ctx amount s = .ok (s', ev) ∧
      Moves accs.usdcTokenAccount accs.ownerTokenAccount amount s s' := by
  have hseeds := rt.find_create (hwf.wallet hv.wallet)
  -- the owner signs and the wallet is a derived address, so the two accounts differ
  have hne : accs.usdcTokenAccount ≠ accs.ownerTokenAccount := by
    intro he
    rw [hv.source_associated, hv.destination_associated] at he
    have hnot := rt.create_not_canSign hseeds
    rw [(rt.associated_inj he).1, hsign] at hnot
    cases hnot
  have hsource := hv.source
  have hdestination := hv.destination
  have hmint : ctx.source.mint = ctx.destination.mint := by
    rw [hv.source_associated] at hsource
    rw [hv.destination_associated] at hdestination
    rw [hwf.lawful.associated_mint hsource, hwf.lawful.associated_mint hdestination]
  obtain ⟨tokens', ht⟩ := transfer_lawful hwf.lawful hv.source hv.destination
    ⟨hfrom _ hv.source, hto _ hv.destination⟩ hmint hv.source_owner hle
  refine ⟨{ s with tokens := tokens' }, some (.fundsWithdrawn accs.agentWallet
    ctx.destination.owner amount now), ?_, moves_of_transfer hne ht⟩
  simp only [withdrawAmount, cpiTransferFromWallet, bind_eq_ok, require_eq_ok, pure_eq_ok,
    exists_const]
  exact ⟨tokens', ⟨hseeds, ht⟩, rfl⟩

omit [Inhabited Pubkey] in
/-- The account checks of a withdrawal by the owner, from the associated account of the
wallet to the owner's. -/
theorem withdraw_validates {w : AgentWallet Pubkey} {b : TokenAccount Pubkey}
    {d : TokenAccount Pubkey} (hwf : WellFormed rt s) (hw : s.wallet accs.agentWallet = some w)
    (howner : w.owner = accs.owner)
    (hsource : accs.usdcTokenAccount = rt.associatedTokenAddress accs.agentWallet accs.usdcMint)
    (hdestination :
      accs.ownerTokenAccount = rt.associatedTokenAddress accs.owner accs.usdcMint)
    (hb : s.tokens accs.usdcTokenAccount = some b)
    (hd : s.tokens accs.ownerTokenAccount = some d) (hdo : d.owner = accs.owner) :
    accs.Validates rt s ⟨w, b, d⟩ := by
  have hb' := hb
  rw [hsource] at hb'
  refine ⟨hw, howner, hb, hd, ?_, ?_, hsource, hdo, hdestination⟩
  · rw [← hwf.lawful.associated_mint hb']
    exact hwf.lawful.mint_exists hb'
  · exact hwf.lawful.associated_owner (find_derived rt (hwf.wallet hw)) hb'

/-- **The owner can always recover the funds.** Whatever the flags, the cap, the
counters and the policy are; only the freeze authority of the mint, which SPL Token obeys,
must not hold one of the two token accounts. -/
theorem owner_recovers {w : AgentWallet Pubkey} {b d : TokenAccount Pubkey}
    (h : Reachable rt s) (hw : s.wallet accs.agentWallet = some w)
    (howner : w.owner = accs.owner) (hsign : rt.canSign accs.owner = true)
    (hsource : accs.usdcTokenAccount = rt.associatedTokenAddress accs.agentWallet accs.usdcMint)
    (hdestination :
      accs.ownerTokenAccount = rt.associatedTokenAddress accs.owner accs.usdcMint)
    (hb : s.tokens accs.usdcTokenAccount = some b) (hpos : 0 < b.amount)
    (hd : s.tokens accs.ownerTokenAccount = some d) (hdo : d.owner = accs.owner)
    (hfrom : s.tokens.Thawed accs.usdcTokenAccount)
    (hto : s.tokens.Thawed accs.ownerTokenAccount) :
    (∃ s' ev, execute rt now (.withdrawAll accs) s = .ok (s', ev) ∧
      Moves accs.usdcTokenAccount accs.ownerTokenAccount b.amount s s' ∧
      s'.tokens accs.usdcTokenAccount = some { b with amount := 0 }) ∧
    (∀ x, (∃ s' ev, execute rt now (.withdrawFunds accs x) s = .ok (s', ev)) ↔
      0 < x ∧ x ≤ b.amount) ∧
    (∀ x s' ev, execute rt now (.withdrawFunds accs x) s = .ok (s', ev) →
      Moves accs.usdcTokenAccount accs.ownerTokenAccount x s s') ∧
    execute rt now (.withdrawAll accs) s = execute rt now (.withdrawFunds accs b.amount) s := by
  have hwf := reachable_wellFormed h
  have hv := withdraw_validates hwf hw howner hsource hdestination hb hd hdo
  have hfunds := fun x => execute_withdrawFunds now x hsign hv
  have hmoves := fun x hle => withdrawAmount_moves now x hwf hv hsign hfrom hto hle
  refine ⟨?_, fun x => ⟨?_, ?_⟩, ?_, withdrawAll_eq hv⟩
  · obtain ⟨s', ev, hok, hmove⟩ := hmoves b.amount (UInt64.le_refl _)
    refine ⟨s', ev, ?_, hmove, ?_⟩
    · rw [withdrawAll_eq hv]
      exact (hfunds b.amount _).mpr ⟨hpos, UInt64.le_refl _, hok⟩
    · obtain ⟨t, a, ht, ha, hsum⟩ := hmove.debited
      rw [hb] at ht
      cases ht
      have hzero : a = 0 := UInt64.toNat_inj.mp (by simpa using hsum)
      rw [ha, hzero]
  · rintro ⟨s', ev, hok⟩
    obtain ⟨hx, hle, _⟩ := (hfunds x _).mp hok
    exact ⟨hx, hle⟩
  · rintro ⟨hx, hle⟩
    obtain ⟨s', ev, hok, _⟩ := hmoves x hle
    exact ⟨s', ev, (hfunds x _).mpr ⟨hx, hle, hok⟩⟩
  · intro x s' ev hok
    obtain ⟨_, hle, hok⟩ := (hfunds x _).mp hok
    obtain ⟨s'', ev', hok', hmove⟩ := hmoves x hle
    rw [hok'] at hok
    cases hok
    exact hmove

end Withdrawal

/-! ## 3. A frozen and deactivated wallet without a policy -/

namespace Demo

/-- A wallet that holds 1000 of a mint it was not registered with. -/
def disabling : List (Submission Key) :=
  [initProtocol, register bob stranger (mint 2) 100, freeze bob 200, deactivate bob stranger 300]

def disabled : World Key := submitAll Key.runtime chain disabling

def disabledWallet : AgentWallet Key :=
  { AgentWallet.registered bob stranger (.associated (wallet bob) (mint 2)) 100 255 with
    isActive := false, isFrozen := true }

def recovery : WithdrawFunds Key :=
  ⟨wallet bob, .associated (wallet bob) (mint 0), .associated stranger (mint 0), mint 0, stranger⟩

theorem reachable_disabled : Reachable Key.runtime disabled :=
  reachable_chain disabling

end Demo

theorem owner_recovers_disabled :
    (∃ s' ev, execute Key.runtime 400 (.withdrawAll Demo.recovery) Demo.disabled = .ok (s', ev) ∧
      Moves Demo.recovery.usdcTokenAccount Demo.recovery.ownerTokenAccount 1000 Demo.disabled s' ∧
      s'.tokens Demo.recovery.usdcTokenAccount =
        some ⟨Demo.mint 0, Demo.wallet Demo.bob, 0, false⟩) ∧
    (∀ x, (∃ s' ev, execute Key.runtime 400 (.withdrawFunds Demo.recovery x) Demo.disabled =
        .ok (s', ev)) ↔ 0 < x ∧ x ≤ 1000) ∧
    (∀ x s' ev, execute Key.runtime 400 (.withdrawFunds Demo.recovery x) Demo.disabled =
        .ok (s', ev) →
      Moves Demo.recovery.usdcTokenAccount Demo.recovery.ownerTokenAccount x Demo.disabled s') ∧
    execute Key.runtime 400 (.withdrawAll Demo.recovery) Demo.disabled =
      execute Key.runtime 400 (.withdrawFunds Demo.recovery 1000) Demo.disabled :=
  owner_recovers (w := Demo.disabledWallet) (b := ⟨Demo.mint 0, Demo.wallet Demo.bob, 1000, false⟩)
    (d := ⟨Demo.mint 0, Demo.stranger, 0, false⟩) Demo.reachable_disabled rfl rfl (by decide)
    rfl rfl rfl (by decide) rfl rfl (by decide) (by decide)

end MaximProtocol
