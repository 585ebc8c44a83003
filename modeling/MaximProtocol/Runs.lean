import MaximProtocol.Effects
import MaximProtocol.Library.Transition
import Mathlib.Algebra.Order.BigOperators.Group.Finset

/-!
# Runs of the program

A run interleaves submitted instructions, accepted or rejected, with what others
do to token accounts outside this program (deposits, transfers between accounts of
ordinary keys, creation of token accounts). A rejected instruction leaves the
state as it was.

`WellFormed` is the invariant of every reachable state: each account sits at the
address derived from its own fields, and the token accounts are lawful.
-/

namespace MaximProtocol

open MachineInt World Transitions

variable {Pubkey : Type} [DecidableEq Pubkey]

/-! ## 1. Steps -/

/-- What can happen outside the program. Nobody else signs for a derived address,
so a token account of one keeps its mint, its owner and at least its balance while
it holds anything, and an associated token account of one is never closed. -/
structure Outside (rt : Runtime Pubkey) (s s' : World Pubkey) : Prop where
  accounts : s'.accounts = s.accounts
  mints : ∀ m, s.mints m = true → s'.mints m = true
  derived : ∀ k t, s.tokens k = some t → rt.IsDerived t.owner → 0 < t.amount →
    ∃ t', s'.tokens k = some t' ∧ t'.mint = t.mint ∧ t'.owner = t.owner ∧ t.amount ≤ t'.amount
  associated : ∀ a m, rt.IsDerived a → s.tokens (rt.associatedTokenAddress a m) ≠ none →
    s'.tokens (rt.associatedTokenAddress a m) ≠ none
  lawful : LawfulTokens rt s'.mints s'.tokens

inductive Action (Pubkey : Type) where
  | accepted (now : Int64) (i : Instruction Pubkey)
  | rejected (now : Int64) (i : Instruction Pubkey)
  | outside

/-- The clock reading of a submission. -/
def Action.clock? : Action Pubkey → Option Int64
  | .accepted now _ => some now
  | .rejected now _ => some now
  | .outside => none

inductive Step [Inhabited Pubkey] (rt : Runtime Pubkey) :
    World Pubkey → Action Pubkey → World Pubkey → Prop
  | accepted {s s' : World Pubkey} {now : Int64} {i : Instruction Pubkey}
      {ev : Option (Event Pubkey)} :
      execute rt now i s = .ok (s', ev) → Step rt s (.accepted now i) s'
  | rejected {s : World Pubkey} {now : Int64} {i : Instruction Pubkey} {e : ProgramError} :
      execute rt now i s = .error e → Step rt s (.rejected now i) s
  | outside {s s' : World Pubkey} : Outside rt s s' → Step rt s .outside s'

/-- Before the program is used: it owns no account. -/
structure Genesis (rt : Runtime Pubkey) (s : World Pubkey) : Prop where
  accounts : ∀ k, s.accounts k = none
  lawful : LawfulTokens rt s.mints s.tokens

abbrev Trace (Pubkey : Type) := List (Transition (World Pubkey) (Action Pubkey))

variable [Inhabited Pubkey]

abbrev Reaches (rt : Runtime Pubkey) := Run (Step rt)

abbrev Reachable (rt : Runtime Pubkey) := Transitions.Reachable (Step rt) (Genesis rt)

/-- The clock readings of a trace, in order. -/
def clocks (tr : Trace Pubkey) : List Int := tr.filterMap fun x => x.label.clock?.map Int64.toInt

/-- The clock never goes back over the trace. -/
def ClockOrdered (tr : Trace Pubkey) : Prop := (clocks tr).Pairwise (· ≤ ·)

/-- The transition is the accepted instruction `i`, with any clock reading. -/
def Accepts (x : Transition (World Pubkey) (Action Pubkey)) (i : Instruction Pubkey) : Prop :=
  ∃ now, x.label = .accepted now i

/-- `k` was closed as a wallet in this transition. -/
def ClosesWallet (k : Pubkey) (x : Transition (World Pubkey) (Action Pubkey)) : Prop :=
  ∃ accs, Accepts x (.closeAgent accs) ∧ accs.agentWallet = k

variable {rt : Runtime Pubkey} {s s' : World Pubkey} {now : Int64} {i : Instruction Pubkey}

omit [DecidableEq Pubkey] [Inhabited Pubkey] in
theorem clocks_append (tr tr' : Trace Pubkey) : clocks (tr ++ tr') = clocks tr ++ clocks tr' := by
  simp [clocks]

section Genesis

omit [Inhabited Pubkey]

theorem genesis_wallet (h : Genesis rt s) (k : Pubkey) : s.wallet k = none :=
  (free_iff.mp (h.accounts k)).2.1

theorem genesis_policy (h : Genesis rt s) (q : Pubkey) : s.policy q = none :=
  (free_iff.mp (h.accounts q)).2.2.1

theorem genesis_record (h : Genesis rt s) (a : Pubkey) : s.record a = none :=
  (free_iff.mp (h.accounts a)).2.2.2

end Genesis

theorem step_effect (h : Step rt s (.accepted now i) s') :
    rt.canSign i.signer = true ∧ Effect rt now s s' i := by
  cases h with
  | accepted h => exact execute_effect h

theorem step_rejected (h : Step rt s (.rejected now i) s') : s' = s := by
  cases h
  rfl

omit [Inhabited Pubkey] in
theorem outside_views (h : Outside rt s s') :
    Views s' s.config s.wallet s.policy s.record s'.tokens s'.mints := by
  refine ⟨?_, ?_, ?_, ?_, rfl, rfl⟩ <;> funext k
  · simp only [config, h.accounts]
  · simp only [wallet, h.accounts]
  · simp only [policy, h.accounts]
  · simp only [record, h.accounts]

/-! ## 2. Reading an updated view -/

section Update

variable {α : Type} {f : Pubkey → Option α} {k k' : Pubkey} {a b : α}

omit [Inhabited Pubkey] in
theorem update_some (h : Function.update f k (some a) k' = some b) :
    (k' = k ∧ b = a) ∨ (k' ≠ k ∧ f k' = some b) := by
  by_cases hk : k' = k
  · subst hk
    rw [Function.update_self] at h
    cases h
    exact .inl ⟨rfl, rfl⟩
  · rw [Function.update_of_ne hk] at h
    exact .inr ⟨hk, h⟩

omit [Inhabited Pubkey] in
theorem update_none_some (h : Function.update f k none k' = some b) :
    k' ≠ k ∧ f k' = some b := by
  by_cases hk : k' = k
  · subst hk
    rw [Function.update_self] at h
    cases h
  · rw [Function.update_of_ne hk] at h
    exact ⟨hk, h⟩

variable {P : Pubkey → α → Prop}

omit [Inhabited Pubkey] in
/-- What holds of every entry of a view, and of the one written, holds after the write. -/
theorem forall_update (hf : ∀ {k b}, f k = some b → P k b) (ha : P k a)
    (h : Function.update f k (some a) k' = some b) : P k' b := by
  rcases update_some h with ⟨rfl, rfl⟩ | ⟨_, h⟩
  · exact ha
  · exact hf h

omit [Inhabited Pubkey] in
theorem forall_update_none (hf : ∀ {k b}, f k = some b → P k b)
    (h : Function.update f k none k' = some b) : P k' b :=
  hf (update_none_some h).2

end Update

/-! ## 3. Token accounts stay lawful -/

section Tokens

variable {tokens tokens' : Tokens Pubkey} {mints : Pubkey → Bool}
variable {source destination authority : Pubkey} {amount : UInt64}

omit [Inhabited Pubkey] in
theorem holding_of_ne (h : tokenTransfer source destination authority amount tokens = .ok tokens')
    {m k : Pubkey} (hs : k ≠ source) (hd : k ≠ destination) :
    tokens'.holding m k = tokens.holding m k := by
  unfold Tokens.holding
  rw [transfer_of_ne h hs hd]

omit [Inhabited Pubkey] in
/-- A transfer keeps what its two accounts hold together, of every mint. -/
theorem holding_pair (h : tokenTransfer source destination authority amount tokens = .ok tokens')
    (hne : source ≠ destination) (m : Pubkey) :
    tokens'.holding m source + tokens'.holding m destination =
      tokens.holding m source + tokens.holding m destination := by
  have hmoves := transfer_moves h hne
  obtain ⟨src, dst, hs, hd, _, _, hm, _⟩ := tokenTransfer_eq_ok.mp h
  obtain ⟨a, ha⟩ := transfer_keeps h hs
  obtain ⟨b, hb⟩ := transfer_keeps h hd
  simp only [Tokens.balance, hs, hd, ha, hb] at hmoves
  simp only [Tokens.holding, hs, hd, ha, hb, hm]
  split <;> omega

omit [Inhabited Pubkey] in
theorem supply_transfer
    (h : tokenTransfer source destination authority amount tokens = .ok tokens') {m : Pubkey}
    (hsup : ∀ S : Finset Pubkey, ∑ k ∈ S, tokens.holding m k ≤ u64Max) (S : Finset Pubkey) :
    ∑ k ∈ S, tokens'.holding m k ≤ u64Max := by
  rcases eq_or_ne source destination with rfl | hne
  · rw [transfer_self h]
    exact hsup S
  · -- enlarge the set to hold both ends of the transfer, where the sums agree
    have hd : destination ∉ (S.erase source).erase destination := Finset.notMem_erase _ _
    have hs : source ∉ insert destination ((S.erase source).erase destination) := by
      simp [hne]
    have hsub : S ⊆ insert source (insert destination ((S.erase source).erase destination)) := by
      intro k hk
      simp only [Finset.mem_insert, Finset.mem_erase]
      by_cases hks : k = source
      · exact .inl hks
      · by_cases hkd : k = destination
        · exact .inr (.inl hkd)
        · exact .inr (.inr ⟨hkd, hks, hk⟩)
    have hrest : ∑ k ∈ (S.erase source).erase destination, tokens'.holding m k =
        ∑ k ∈ (S.erase source).erase destination, tokens.holding m k := by
      apply Finset.sum_congr rfl
      intro k hk
      simp only [Finset.mem_erase] at hk
      exact holding_of_ne h hk.2.1 hk.1
    have hpair := holding_pair h hne m
    have hbound := hsup (insert source (insert destination ((S.erase source).erase destination)))
    calc ∑ k ∈ S, tokens'.holding m k
        ≤ ∑ k ∈ insert source (insert destination ((S.erase source).erase destination)),
            tokens'.holding m k := Finset.sum_le_sum_of_subset hsub
      _ = ∑ k ∈ insert source (insert destination ((S.erase source).erase destination)),
            tokens.holding m k := by
          rw [Finset.sum_insert hs, Finset.sum_insert hd, Finset.sum_insert hs,
            Finset.sum_insert hd, hrest]
          omega
      _ ≤ u64Max := hbound

omit [Inhabited Pubkey] in
theorem lawful_transfer (hl : LawfulTokens rt mints tokens)
    (h : tokenTransfer source destination authority amount tokens = .ok tokens') :
    LawfulTokens rt mints tokens' where
  associated_mint ht := by
    obtain ⟨t, ht, hm, _⟩ := transfer_from h ht
    rw [← hm]
    exact hl.associated_mint ht
  associated_owner ha ht := by
    obtain ⟨t, ht, _, ho⟩ := transfer_from h ht
    rw [← ho]
    exact hl.associated_owner ha ht
  mint_exists ht := by
    obtain ⟨t, ht, hm, _⟩ := transfer_from h ht
    rw [← hm]
    exact hl.mint_exists ht
  supply m := supply_transfer h (hl.supply m)

omit [Inhabited Pubkey] in
theorem lawful_register {accs : RegisterAgent Pubkey} {agentId : Bytes} {bump : UInt8}
    (hl : LawfulTokens rt s.mints s.tokens) (h : Registers rt now accs agentId s s' bump) :
    LawfulTokens rt s'.mints s'.tokens := by
  rw [h.views.tokens, h.views.mints]
  refine ⟨?_, ?_, ?_, ?_⟩
  · intro a m t ht
    rcases update_some ht with ⟨hk, rfl⟩ | ⟨_, ht⟩
    · rw [h.associated] at hk
      exact (rt.associated_inj hk).2.symm
    · exact hl.associated_mint ht
  · intro a m t ha ht
    rcases update_some ht with ⟨hk, rfl⟩ | ⟨_, ht⟩
    · rw [h.associated] at hk
      exact (rt.associated_inj hk).1.symm
    · exact hl.associated_owner ha ht
  · intro k t ht
    rcases update_some ht with ⟨_, rfl⟩ | ⟨_, ht⟩
    · exact h.mint
    · exact hl.mint_exists ht
  · intro m S
    refine le_trans (le_of_eq ?_) (hl.supply m S)
    apply Finset.sum_congr rfl
    intro k _
    unfold Tokens.holding
    by_cases hk : k = accs.usdcTokenAccount
    · subst hk
      simp [h.token_free]
    · rw [Function.update_of_ne hk]

end Tokens

/-! ## 4. Well-formed states -/

/-- Every account sits at the address its own fields derive, with the stored bump;
a wallet's recorded token account is its associated account of some mint. -/
structure WellFormed (rt : Runtime Pubkey) (s : World Pubkey) : Prop where
  config : ∀ {k c}, s.config k = some c →
    rt.findProgramAddress .protocolConfig = some (k, c.bump)
  wallet : ∀ {k w}, s.wallet k = some w →
    rt.findProgramAddress (.agentWallet w.agentId) = some (k, w.bump)
  policy : ∀ {k p}, s.policy k = some p →
    rt.findProgramAddress (.spendPolicy p.agentWallet) = some (k, p.bump)
  record : ∀ {k r}, s.record k = some r →
    rt.findProgramAddress (.paymentRecord r.agentWallet r.sequence) = some (k, r.bump)
  token : ∀ {k w}, s.wallet k = some w →
    ∃ m, w.usdcTokenAccount = rt.associatedTokenAddress k m ∧
      s.tokens w.usdcTokenAccount ≠ none
  lawful : LawfulTokens rt s.mints s.tokens

omit [Inhabited Pubkey] in
theorem wellFormed_genesis (h : Genesis rt s) : WellFormed rt s := by
  refine ⟨?_, ?_, ?_, ?_, ?_, h.lawful⟩ <;> intro k a ha
  · simp [(free_iff.mp (h.accounts k)).1] at ha
  · simp [genesis_wallet h] at ha
  · simp [genesis_policy h] at ha
  · simp [genesis_record h] at ha
  · simp [genesis_wallet h] at ha

omit [Inhabited Pubkey] in
/-- The invariant of a state, read off its views. -/
theorem wellFormed_views {config wallet policy record tokens mints}
    (hv : Views s' config wallet policy record tokens mints)
    (hconfig : ∀ {k c}, config k = some c →
      rt.findProgramAddress .protocolConfig = some (k, c.bump))
    (hwallet : ∀ {k w}, wallet k = some w →
      rt.findProgramAddress (.agentWallet w.agentId) = some (k, w.bump))
    (hpolicy : ∀ {k p}, policy k = some p →
      rt.findProgramAddress (.spendPolicy p.agentWallet) = some (k, p.bump))
    (hrecord : ∀ {k r}, record k = some r →
      rt.findProgramAddress (.paymentRecord r.agentWallet r.sequence) = some (k, r.bump))
    (htoken : ∀ {k w}, wallet k = some w →
      ∃ m, w.usdcTokenAccount = rt.associatedTokenAddress k m ∧ tokens w.usdcTokenAccount ≠ none)
    (hlawful : LawfulTokens rt mints tokens) : WellFormed rt s' := by
  obtain ⟨rfl, rfl, rfl, rfl, rfl, rfl⟩ := hv
  exact ⟨hconfig, hwallet, hpolicy, hrecord, htoken, hlawful⟩

omit [Inhabited Pubkey] in
/-- The recorded token accounts stay there when no token account goes. -/
theorem token_kept {tokens' : Tokens Pubkey} {k : Pubkey} {w : AgentWallet Pubkey}
    (hwf : WellFormed rt s) (hkeep : ∀ {a}, s.tokens a ≠ none → tokens' a ≠ none)
    (hw : s.wallet k = some w) :
    ∃ m, w.usdcTokenAccount = rt.associatedTokenAddress k m ∧
      tokens' w.usdcTokenAccount ≠ none := by
  obtain ⟨m, hm, ht⟩ := hwf.token hw
  exact ⟨m, hm, hkeep ht⟩

omit [Inhabited Pubkey] in
theorem transfer_ne_none {source destination authority k : Pubkey} {amount : UInt64}
    {tokens tokens' : Tokens Pubkey}
    (h : tokenTransfer source destination authority amount tokens = .ok tokens')
    (hk : tokens k ≠ none) : tokens' k ≠ none := by
  obtain ⟨t, ht⟩ := Option.ne_none_iff_exists'.mp hk
  obtain ⟨a, ha⟩ := transfer_keeps h ht
  rw [ha]
  exact Option.some_ne_none _

omit [Inhabited Pubkey] in
/-- An edit that keeps the wallet's id, bump and token account keeps the invariant. -/
theorem wellFormed_edit {k : Pubkey} {w w' : AgentWallet Pubkey} (hwf : WellFormed rt s)
    (h : Edits k s s' w w') (hid : w'.agentId = w.agentId) (hbump : w'.bump = w.bump)
    (htoken : w'.usdcTokenAccount = w.usdcTokenAccount) : WellFormed rt s' := by
  have hwallet := hwf.wallet h.wallet
  have htok := hwf.token h.wallet
  rw [← hid, ← hbump] at hwallet
  rw [← htoken] at htok
  exact wellFormed_views h.views hwf.config (forall_update hwf.wallet hwallet) hwf.policy
    hwf.record (forall_update hwf.token htok) hwf.lawful

omit [Inhabited Pubkey] in
theorem wellFormed_configure {k admin : Pubkey} {c c' : ProtocolConfig Pubkey}
    (hwf : WellFormed rt s) (h : Configures rt k admin s s' c c') (hbump : c'.bump = c.bump) :
    WellFormed rt s' := by
  have hconfig := hwf.config h.config
  rw [← hbump] at hconfig
  exact wellFormed_views h.views (forall_update hwf.config hconfig) hwf.wallet hwf.policy
    hwf.record hwf.token hwf.lawful

omit [Inhabited Pubkey] in
theorem wellFormed_withdraw {accs : WithdrawFunds Pubkey} {amount : UInt64}
    {ctx : WithdrawFunds.Loaded Pubkey} (hwf : WellFormed rt s)
    (h : Withdraws rt accs amount s s' ctx) : WellFormed rt s' :=
  wellFormed_views h.views hwf.config hwf.wallet hwf.policy hwf.record
    (token_kept hwf (transfer_ne_none h.transfer)) (lawful_transfer hwf.lawful h.transfer)

omit [Inhabited Pubkey] in
theorem wellFormed_settle {accs : SettlePayment Pubkey} {sequence : UInt64}
    {params : SettlePaymentParams Pubkey} {ctx : SettlePayment.Loaded Pubkey}
    {w : AgentWallet Pubkey} {p : SpendPolicy Pubkey} (hwf : WellFormed rt s)
    (h : Settles rt now accs sequence params s s' ctx w p) : WellFormed rt s' := by
  obtain ⟨protocol, hv⟩ := h.views
  -- the checks move the windows and the rate counter; ids, bumps and the token account stay
  obtain ⟨_, _, _, _, _, _, rfl⟩ := (passed_resets h.passed).frame
  obtain ⟨_, _, rfl, _⟩ := passed_policy h.passed
  have hwallet := hwf.wallet h.validates.wallet
  have hpolicy := hwf.policy h.validates.policy
  have hkept := token_kept hwf (transfer_ne_none h.transfer) h.validates.wallet
  exact wellFormed_views hv hwf.config (forall_update hwf.wallet hwallet)
    (forall_update hwf.policy hpolicy) (forall_update hwf.record h.validates.record_addr)
    (forall_update (token_kept hwf (transfer_ne_none h.transfer)) hkept)
    (lawful_transfer hwf.lawful h.transfer)

theorem wellFormed_violation {accs : RecordPolicyViolation Pubkey} {sequence : UInt64}
    {params : SettlePaymentParams Pubkey} {w : AgentWallet Pubkey} {bump : UInt8}
    (hwf : WellFormed rt s) (h : Violates rt now accs sequence params s s' w bump) :
    WellFormed rt s' := by
  obtain ⟨protocol, _, hv⟩ := h.views
  have hwallet := hwf.wallet h.validates.wallet
  have htoken := hwf.token h.validates.wallet
  exact wellFormed_views hv hwf.config (forall_update hwf.wallet hwallet) hwf.policy
    (forall_update hwf.record h.validates.record_addr) (forall_update hwf.token htoken) hwf.lawful

omit [Inhabited Pubkey] in
theorem wellFormed_register {accs : RegisterAgent Pubkey} {agentId : Bytes} {bump : UInt8}
    (hwf : WellFormed rt s) (h : Registers rt now accs agentId s s' bump) : WellFormed rt s' := by
  have hkeep : ∀ {a}, s.tokens a ≠ none → s'.tokens a ≠ none := by
    intro a ha
    rw [h.views.tokens]
    by_cases he : a = accs.usdcTokenAccount
    · simp [he]
    · rw [Function.update_of_ne he]
      exact ha
  rw [h.views.tokens] at hkeep
  have hnew := lawful_register hwf.lawful h
  rw [h.views.tokens, h.views.mints] at hnew
  refine wellFormed_views h.views hwf.config (forall_update hwf.wallet h.addr) hwf.policy
    hwf.record (forall_update (token_kept hwf hkeep) ⟨accs.usdcMint, h.associated, ?_⟩) hnew
  simp [AgentWallet.registered]

omit [Inhabited Pubkey] in
theorem wellFormed_setPolicy {accs : SetSpendPolicy Pubkey} {params : SetSpendPolicyParams}
    {w : AgentWallet Pubkey} {bump : UInt8} (hwf : WellFormed rt s)
    (h : SetsPolicy rt now accs params s s' w bump) : WellFormed rt s' :=
  wellFormed_views h.views hwf.config hwf.wallet (forall_update hwf.policy h.addr) hwf.record
    hwf.token hwf.lawful

omit [Inhabited Pubkey] in
theorem wellFormed_close {accs : CloseAgent Pubkey} {w : AgentWallet Pubkey}
    {p : SpendPolicy Pubkey} {t : TokenAccount Pubkey} (hwf : WellFormed rt s)
    (h : Closes rt accs s s' w p t) : WellFormed rt s' :=
  wellFormed_views h.views hwf.config (forall_update_none hwf.wallet)
    (forall_update_none hwf.policy) hwf.record (forall_update_none hwf.token) hwf.lawful

omit [Inhabited Pubkey] in
theorem wellFormed_outside (hwf : WellFormed rt s) (h : Outside rt s s') : WellFormed rt s' := by
  refine wellFormed_views (outside_views h) hwf.config hwf.wallet hwf.policy hwf.record ?_ h.lawful
  intro k w hw
  obtain ⟨m, hm, ht⟩ := hwf.token hw
  refine ⟨m, hm, ?_⟩
  rw [hm] at ht ⊢
  exact h.associated k m (find_derived rt (hwf.wallet hw)) ht

theorem wellFormed_effect (hwf : WellFormed rt s) (h : Effect rt now s s' i) :
    WellFormed rt s' := by
  cases h with
  | initProtocol addr _ _ hv =>
    exact wellFormed_views hv (forall_update hwf.config addr) hwf.wallet hwf.policy hwf.record
      hwf.token hwf.lawful
  | rotateProtocolAdmin _ h => exact wellFormed_configure hwf h rfl
  | updateProtocolConfig h => exact wellFormed_configure hwf h rfl
  | registerAgent h => exact wellFormed_register hwf h
  | setSpendPolicy h => exact wellFormed_setPolicy hwf h
  | settlePayment h => exact wellFormed_settle hwf h
  | recordPolicyViolation h => exact wellFormed_violation hwf h
  | deactivateAgent _ h => exact wellFormed_edit hwf h rfl rfl rfl
  | reactivateAgent _ h => exact wellFormed_edit hwf h rfl rfl rfl
  | freezeAgent _ _ _ h => exact wellFormed_edit hwf h rfl rfl rfl
  | unfreezeAgent _ _ _ h => exact wellFormed_edit hwf h rfl rfl rfl
  | withdrawFunds h => exact wellFormed_withdraw hwf h
  | withdrawAll h => exact wellFormed_withdraw hwf h
  | transferOwnership _ _ _ h => exact wellFormed_edit hwf h rfl rfl rfl
  | closeAgent h => exact wellFormed_close hwf h

theorem wellFormed_step {a : Action Pubkey} (hwf : WellFormed rt s) (h : Step rt s a s') :
    WellFormed rt s' := by
  cases h with
  | accepted h => exact wellFormed_effect hwf (execute_effect h).2
  | rejected _ => exact hwf
  | outside h => exact wellFormed_outside hwf h

/-- Every reachable state is well formed. -/
theorem reachable_wellFormed (h : Reachable rt s) : WellFormed rt s :=
  reachable_invariant h (fun _ => wellFormed_genesis) fun _ _ _ _ hs hwf =>
    wellFormed_step hwf hs

end MaximProtocol
