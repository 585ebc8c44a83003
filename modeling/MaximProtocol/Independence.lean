import MaximProtocol.Plans
import MaximProtocol.Library.Interleaving

/-!
# Wallets are independent

Two wallets share payees, owners and the protocol configuration, and nothing that either
writes is read by the other.

* `Owned`: the wallet account, its policy and its records. What an instruction on a wallet
  writes is owned by it (`plans_writes`).
* `AlikeFor`: two states that differ only in what another wallet's instructions change.
  An instruction has the same plan in both (`plans_alike`).
* `wallets_independent`: every interleaving of instructions on two wallets gives them the
  same outcomes and the same state.

A payee that both wallets pay can only receive: that it has room for both amounts is the
supply bound of its mint (`LawfulTokens.supply`).
-/

namespace MaximProtocol

open MachineInt World Transitions Interleaving

variable {Pubkey : Type}

/-! ## 1. What an instruction acts on -/

/-- The wallet an instruction acts on, for the ten instructions that keep the set of
wallets and the configuration as they are. -/
def Instruction.actsOn : Instruction Pubkey → Option Pubkey
  | .setSpendPolicy accs _ => some accs.agentWallet
  | .settlePayment accs _ _ => some accs.agentWallet
  | .recordPolicyViolation accs _ _ _ => some accs.agentWallet
  | .deactivateAgent accs => some accs.agentWallet
  | .reactivateAgent accs => some accs.agentWallet
  | .freezeAgent accs => some accs.agentWallet
  | .unfreezeAgent accs => some accs.agentWallet
  | .withdrawFunds accs _ => some accs.agentWallet
  | .withdrawAll accs => some accs.agentWallet
  | .transferOwnership accs _ => some accs.agentWallet
  | _ => none

/-- The token account an instruction pays or credits. -/
def Instruction.credits : Instruction Pubkey → Option Pubkey
  | .settlePayment accs _ _ => some accs.payeeTokenAccount
  | .withdrawFunds accs _ => some accs.ownerTokenAccount
  | .withdrawAll accs => some accs.ownerTokenAccount
  | _ => none

/-- The wallet from whose address the seeds derive another. -/
def Seeds.base : Seeds Pubkey → Option Pubkey
  | .spendPolicy k => some k
  | .paymentRecord k _ => some k
  | _ => none

/-- `k` is the wallet account at `A`, its policy or one of its records. -/
def Owned (rt : Runtime Pubkey) (A k : Pubkey) : Prop :=
  k = A ∨ ∃ seeds bump, rt.createProgramAddress seeds bump = some k ∧ seeds.base = some A

/-- `A` is the address of some agent id. -/
def WalletAddress (rt : Runtime Pubkey) (A : Pubkey) : Prop :=
  ∃ agentId bump, rt.createProgramAddress (.agentWallet agentId) bump = some A

variable {rt : Runtime Pubkey} {A B k : Pubkey}

/-- What a derived address that is not based on `B` holds is not `B`'s. -/
theorem not_owned {seeds : Seeds Pubkey} {bump : UInt8}
    (h : rt.createProgramAddress seeds bump = some k) (hne : k ≠ B) (hbase : seeds.base ≠ some B) :
    ¬ Owned rt B k := by
  rintro (rfl | ⟨seeds', bump', h', hbase'⟩)
  · exact hne rfl
  · rw [(rt.create_inj h h').1] at hbase
    exact hbase hbase'

/-- An address derived from another wallet's seeds is not a wallet address. -/
theorem derived_ne_wallet (hB : WalletAddress rt B) {seeds : Seeds Pubkey} {bump : UInt8}
    (h : rt.createProgramAddress seeds bump = some k) (hA : seeds.base = some A) : k ≠ B := by
  rintro rfl
  obtain ⟨b, bump', hb⟩ := hB
  rw [(rt.create_inj h hb).1] at hA
  cases hA

theorem owned_apart (hA : WalletAddress rt A) (hB : WalletAddress rt B) (hne : A ≠ B)
    (h : Owned rt A k) : ¬ Owned rt B k := by
  rcases h with rfl | ⟨seeds, bump, h, hbase⟩
  · obtain ⟨a, bump, ha⟩ := hA
    exact not_owned ha hne (by simp [Seeds.base])
  · refine not_owned h (derived_ne_wallet hB h hbase) ?_
    rw [hbase, Ne, Option.some.injEq]
    exact hne

theorem config_not_owned (hB : WalletAddress rt B) {bump : UInt8}
    (h : rt.createProgramAddress .protocolConfig bump = some k) : ¬ Owned rt B k := by
  refine not_owned h ?_ (by simp [Seeds.base])
  rintro rfl
  obtain ⟨b, bump', hb⟩ := hB
  cases (rt.create_inj h hb).1

/-! ## 2. What a plan touches -/

section Plans

variable [DecidableEq Pubkey] [Inhabited Pubkey] {s t : World Pubkey} {now : Int64}
variable {i : Instruction Pubkey} {d e : Delta Pubkey}

theorem plans_writes (h : Plans rt now s i d) (hi : i.actsOn = some A) :
    ∀ x ∈ d.writes, Owned rt A x.1 := by
  have hself : ∀ account : ProgramAccount Pubkey, ∀ x ∈ (Delta.single A account).writes,
      Owned rt A x.1 := by
    intro account x hx
    rw [List.mem_singleton.mp hx]
    exact .inl rfl
  cases h with
  | initProtocol => cases hi
  | rotateProtocolAdmin => cases hi
  | updateProtocolConfig => cases hi
  | registerAgent => cases hi
  | closeAgent => cases hi
  | setSpendPolicy accounts =>
    cases hi
    have hf := (policy_tryAccounts_eq_ok.mp accounts).policy_addr
    intro x hx
    rw [List.mem_singleton.mp hx]
    exact .inr ⟨_, _, rt.find_create hf, rfl⟩
  | settlePayment validates =>
    cases hi
    intro x hx
    simp only [List.mem_cons, List.not_mem_nil, or_false] at hx
    rcases hx with rfl | rfl | rfl
    · exact .inl rfl
    · exact .inr ⟨_, _, validates.policy_seeds, rfl⟩
    · exact .inr ⟨_, _, rt.find_create validates.record_addr, rfl⟩
  | recordPolicyViolation validates =>
    cases hi
    intro x hx
    simp only [List.mem_cons, List.not_mem_nil, or_false] at hx
    rcases hx with rfl | rfl
    · exact .inl rfl
    · exact .inr ⟨_, _, rt.find_create validates.record_addr, rfl⟩
  | deactivateAgent => cases hi; exact hself _
  | reactivateAgent => cases hi; exact hself _
  | freezeAgent => cases hi; exact hself _
  | unfreezeAgent => cases hi; exact hself _
  | transferOwnership => cases hi; exact hself _
  | withdrawFunds =>
    intro x hx
    cases hx
  | withdrawAll =>
    intro x hx
    cases hx

/-- A plan moves nothing, or an amount from a token account of the wallet to the account
the instruction credits. -/
theorem plans_change (h : Plans rt now s i d) (hi : i.actsOn = some A) :
    d.tokens = .unchanged ∨ ∃ source destination amount τ,
      d.tokens = .moved source destination amount ∧ s.tokens source = some τ ∧ τ.owner = A ∧
        i.credits = some destination := by
  cases h with
  | initProtocol => exact .inl rfl
  | rotateProtocolAdmin => exact .inl rfl
  | updateProtocolConfig => exact .inl rfl
  | registerAgent => cases hi
  | closeAgent => exact .inl rfl
  | setSpendPolicy => exact .inl rfl
  | settlePayment validates =>
    cases hi
    obtain ⟨τ, hτ, howner⟩ := validates.source
    exact .inr ⟨_, _, _, τ, rfl, hτ, howner, rfl⟩
  | recordPolicyViolation => exact .inl rfl
  | deactivateAgent => exact .inl rfl
  | reactivateAgent => exact .inl rfl
  | freezeAgent => exact .inl rfl
  | unfreezeAgent => exact .inl rfl
  | transferOwnership => exact .inl rfl
  | withdrawFunds validates =>
    cases hi
    exact .inr ⟨_, _, _, _, rfl, validates.source, validates.source_owner, rfl⟩
  | withdrawAll validates =>
    cases hi
    exact .inr ⟨_, _, _, _, rfl, validates.source, validates.source_owner, rfl⟩

end Plans

/-! ## 3. States that another wallet's instructions tell apart -/

/-- The token account at `k` without its balance. -/
def Tokens.kind (tokens : Tokens Pubkey) (k : Pubkey) : Option (Pubkey × Pubkey × Bool) :=
  (tokens k).map fun τ => (τ.mint, τ.owner, τ.isFrozen)

/-- The two states differ only in what `B` owns and in balances that `A` cannot spend. -/
structure AlikeFor (rt : Runtime Pubkey) (A B : Pubkey) (s t : World Pubkey) : Prop where
  accounts : ∀ k, ¬ Owned rt B k → t.accounts k = s.accounts k
  mints : t.mints = s.mints
  kind : ∀ k, t.tokens.kind k = s.tokens.kind k
  own : ∀ {k τ}, s.tokens k = some τ → τ.owner = A → t.tokens k = some τ

section Alike

variable {s t : World Pubkey} {now : Int64} {i : Instruction Pubkey} {τ : TokenAccount Pubkey}

theorem kind_some {tokens tokens' : Tokens Pubkey} (h : tokens'.kind k = tokens.kind k)
    (hτ : tokens k = some τ) :
    ∃ τ', tokens' k = some τ' ∧ τ'.mint = τ.mint ∧ τ'.owner = τ.owner ∧
      τ'.isFrozen = τ.isFrozen := by
  unfold Tokens.kind at h
  rw [hτ, Option.map_some, Option.map_eq_some_iff] at h
  obtain ⟨τ', hτ', he⟩ := h
  simp only [Prod.mk.injEq] at he
  exact ⟨τ', hτ', he⟩

theorem alikeFor_refl (s : World Pubkey) : AlikeFor rt A B s s :=
  ⟨fun _ _ => rfl, rfl, fun _ => rfl, fun h _ => h⟩

theorem alikeFor_symm (h : AlikeFor rt A B s t) : AlikeFor rt A B t s where
  accounts k hk := (h.accounts k hk).symm
  mints := h.mints.symm
  kind k := (h.kind k).symm
  own := by
    intro k τ hτ howner
    obtain ⟨τ', hτ', _, ho, _⟩ := kind_some (h.kind k).symm hτ
    have hsame := h.own hτ' (ho.trans howner)
    rw [hτ] at hsame
    rw [hτ', ← hsame]

theorem same_wallet (h : t.accounts k = s.accounts k) : t.wallet k = s.wallet k := by
  rw [World.wallet, World.wallet, h]

theorem same_policy (h : t.accounts k = s.accounts k) : t.policy k = s.policy k := by
  rw [World.policy, World.policy, h]

theorem same_config (h : t.accounts k = s.accounts k) : t.config k = s.config k := by
  rw [World.config, World.config, h]

theorem same_free (h : t.accounts k = s.accounts k) : t.Free k ↔ s.Free k := by
  rw [Free, Free, h]

/-- The account checks of a settlement read what the other wallet leaves alone, the
payee's balance apart. -/
theorem alikeFor_settle {accs : SettlePayment Pubkey} {n : UInt64} {agentId : Bytes}
    {ctx : SettlePayment.Loaded Pubkey} (h : AlikeFor rt accs.agentWallet B s t)
    (hA : WalletAddress rt accs.agentWallet) (hB : WalletAddress rt B) (hne : accs.agentWallet ≠ B)
    (hv : accs.Validates rt n agentId s ctx) :
    ∃ payee, payee.owner = ctx.payee.owner ∧
      accs.Validates rt n agentId t { ctx with payee := payee } := by
  have hapart : ∀ {k}, Owned rt accs.agentWallet k → t.accounts k = s.accounts k :=
    fun hk => h.accounts _ (owned_apart hA hB hne hk)
  obtain ⟨payee, hpayee, _, howner, _⟩ := kind_some (h.kind accs.payeeTokenAccount) hv.payee
  obtain ⟨τ, hτ, hτo⟩ := hv.source
  have hrecord := hapart (.inr ⟨_, _, rt.find_create hv.record_addr, rfl⟩)
  exact ⟨payee, howner,
    { hv with
      wallet := (same_wallet (hapart (.inl rfl))).trans hv.wallet
      policy := (same_policy (hapart (.inr ⟨_, _, hv.policy_seeds, rfl⟩))).trans hv.policy
      config := (same_config (h.accounts _ (config_not_owned hB hv.config_seeds))).trans hv.config
      source := ⟨τ, h.own hτ hτo, hτo⟩
      payee := hpayee
      mint := by
        rw [h.mints]
        exact hv.mint
      record_free := (same_free hrecord).mpr hv.record_free }⟩

theorem alikeFor_violate {accs : RecordPolicyViolation Pubkey} {n : UInt64} {agentId : Bytes}
    {w : AgentWallet Pubkey} {bump : UInt8} (h : AlikeFor rt accs.agentWallet B s t)
    (hA : WalletAddress rt accs.agentWallet) (hB : WalletAddress rt B) (hne : accs.agentWallet ≠ B)
    (hv : accs.Validates rt n agentId s w bump) : accs.Validates rt n agentId t w bump := by
  have hapart : ∀ {k}, Owned rt accs.agentWallet k → t.accounts k = s.accounts k :=
    fun hk => h.accounts _ (owned_apart hA hB hne hk)
  have hrecord := hapart (.inr ⟨_, _, rt.find_create hv.record_addr, rfl⟩)
  exact { hv with
    wallet := (same_wallet (hapart (.inl rfl))).trans hv.wallet
    record_free := (same_free hrecord).mpr hv.record_free }

theorem alikeFor_withdraw {accs : WithdrawFunds Pubkey} {ctx : WithdrawFunds.Loaded Pubkey}
    (h : AlikeFor rt accs.agentWallet B s t) (hA : ¬ Owned rt B accs.agentWallet)
    (hv : accs.Validates rt s ctx) :
    ∃ destination, accs.Validates rt t { ctx with destination := destination } := by
  obtain ⟨τ, hτ, _, howner, _⟩ := kind_some (h.kind accs.ownerTokenAccount) hv.destination
  exact ⟨τ,
    { hv with
      wallet := (same_wallet (h.accounts _ hA)).trans hv.wallet
      source := h.own hv.source hv.source_owner
      destination := hτ
      mint := by
        rw [h.mints]
        exact hv.mint
      destination_owner := howner.trans hv.destination_owner }⟩

variable [DecidableEq Pubkey]

theorem alikeFor_config {admin : Pubkey} {c : ProtocolConfig Pubkey} (h : AlikeFor rt A B s t)
    (hB : WalletAddress rt B) (hc : loadConfigOfAdmin rt k admin s = .ok c) :
    loadConfigOfAdmin rt k admin t = .ok c := by
  rw [loadConfigOfAdmin_eq_ok] at hc ⊢
  obtain ⟨hc, hseeds, hadmin⟩ := hc
  rw [same_config (h.accounts k (config_not_owned hB hseeds))]
  exact ⟨hc, hseeds, hadmin⟩

theorem alikeFor_owner {owner : Pubkey} {w : AgentWallet Pubkey} (h : AlikeFor rt A B s t)
    (hA : ¬ Owned rt B A) (hw : loadWalletOfOwner A owner s = .ok w) :
    loadWalletOfOwner A owner t = .ok w := by
  rw [loadWalletOfOwner_eq_ok] at hw ⊢
  rw [same_wallet (h.accounts A hA)]
  exact hw

/-- What the wallet pays in one state it can pay in the other, to any payee. -/
theorem alikeFor_transfer {source destination : Pubkey} {agentId : Bytes} {bump : UInt8}
    {amount : UInt64} {tokens' : Tokens Pubkey} (h : AlikeFor rt A B s t)
    (hl : LawfulTokens rt t.mints t.tokens)
    (ht : cpiTransferFromWallet rt source destination A agentId bump amount s.tokens =
      .ok tokens') :
    ∃ tokens'', cpiTransferFromWallet rt source destination A agentId bump amount t.tokens =
      .ok tokens'' := by
  simp only [cpiTransferFromWallet, bind_eq_ok, require_eq_ok, exists_const] at ht ⊢
  obtain ⟨hseed, ht⟩ := ht
  obtain ⟨src, dst, hs, hd, hz, ha, hm, ho, _⟩ := tokenTransfer_eq_ok.mp ht
  obtain ⟨dst', hd', hm', _, hz'⟩ := kind_some (h.kind destination) hd
  obtain ⟨tokens'', ht''⟩ := transfer_lawful hl (h.own hs ho) hd' ⟨hz.1, hz'.trans hz.2⟩
    (hm.trans hm'.symm) ho ha
  exact ⟨tokens'', hseed, ht''⟩

/-- **An instruction on `A` has the same plan in both states.** -/
theorem plans_alike [Inhabited Pubkey] {d : Delta Pubkey} (hi : i.actsOn = some A)
    (hA : WalletAddress rt A) (hB : WalletAddress rt B) (hne : A ≠ B)
    (h : AlikeFor rt A B s t) (hl : LawfulTokens rt t.mints t.tokens)
    (hd : Plans rt now s i d) : Plans rt now t i d := by
  have hself : ¬ Owned rt B A := owned_apart hA hB hne (.inl rfl)
  cases hd with
  | initProtocol => cases hi
  | rotateProtocolAdmin => cases hi
  | updateProtocolConfig => cases hi
  | registerAgent => cases hi
  | closeAgent => cases hi
  | @setSpendPolicy accs params bump accounts allowed_len blocked_len =>
    cases hi
    refine .setSpendPolicy ?_ allowed_len blocked_len
    have hv := policy_tryAccounts_eq_ok.mp accounts
    have hfree := hv.policy
    have hpolicy := h.accounts _
      (owned_apart hA hB hne (.inr ⟨_, _, rt.find_create hv.policy_addr, rfl⟩))
    rw [← same_free hpolicy, ← same_policy hpolicy] at hfree
    refine policy_tryAccounts_eq_ok.mpr ⟨?_, hv.policy_addr, hfree⟩
    rw [same_wallet (h.accounts _ hself)]
    exact hv.wallet
  | settlePayment validates passed transfer discriminant =>
    cases hi
    obtain ⟨payee, howner, hv⟩ := alikeFor_settle h hA hB hne validates
    obtain ⟨_, ht⟩ := alikeFor_transfer h hl transfer
    rw [← howner]
    exact .settlePayment hv passed ht discriminant
  | recordPolicyViolation validates sequence_eq discriminant =>
    cases hi
    exact .recordPolicyViolation (alikeFor_violate h hA hB hne validates) sequence_eq discriminant
  | deactivateAgent wallet =>
    cases hi
    exact .deactivateAgent (alikeFor_owner h hself wallet)
  | reactivateAgent wallet =>
    cases hi
    exact .reactivateAgent (alikeFor_owner h hself wallet)
  | freezeAgent wallet config =>
    cases hi
    exact .freezeAgent ((same_wallet (h.accounts _ hself)).trans wallet)
      (alikeFor_config h hB config)
  | unfreezeAgent wallet config =>
    cases hi
    exact .unfreezeAgent ((same_wallet (h.accounts _ hself)).trans wallet)
      (alikeFor_config h hB config)
  | withdrawFunds validates positive covered transfer =>
    cases hi
    obtain ⟨_, hv⟩ := alikeFor_withdraw h hself validates
    obtain ⟨_, ht⟩ := alikeFor_transfer h hl transfer
    exact .withdrawFunds hv positive covered ht
  | withdrawAll validates positive transfer =>
    cases hi
    obtain ⟨_, hv⟩ := alikeFor_withdraw h hself validates
    obtain ⟨_, ht⟩ := alikeFor_transfer h hl transfer
    have hplan : Plans rt now t (.withdrawAll _) _ := .withdrawAll hv positive ht
    exact hplan
  | transferOwnership wallet valid changed =>
    cases hi
    exact .transferOwnership (alikeFor_owner h hself wallet) valid changed

end Alike

/-! ## 4. Two plans -/

section Commute

variable [DecidableEq Pubkey] {f : Pubkey → Option (ProgramAccount Pubkey)}
variable {v w : List (Pubkey × Option (ProgramAccount Pubkey))} {tokens : Tokens Pubkey}

theorem writeAll_of_ne (h : ∀ x ∈ v, x.1 ≠ k) : writeAll f v k = f k := by
  induction v generalizing f with
  | nil => rfl
  | cons x v ih =>
    obtain ⟨hx, hv⟩ := List.forall_mem_cons.mp h
    show writeAll (Function.update f x.1 x.2) v k = f k
    rw [ih hv, Function.update_of_ne (Ne.symm hx)]

theorem writeAll_update {a : Option (ProgramAccount Pubkey)} (h : ∀ x ∈ v, x.1 ≠ k) :
    writeAll (Function.update f k a) v = Function.update (writeAll f v) k a := by
  induction v generalizing f with
  | nil => rfl
  | cons x v ih =>
    obtain ⟨hx, hv⟩ := List.forall_mem_cons.mp h
    show writeAll (Function.update (Function.update f k a) x.1 x.2) v = _
    rw [Function.update_comm (Ne.symm hx), ih hv]
    rfl

/-- Writes at different addresses commute. -/
theorem writeAll_comm (h : ∀ x ∈ v, ∀ y ∈ w, y.1 ≠ x.1) :
    writeAll (writeAll f v) w = writeAll (writeAll f w) v := by
  induction v generalizing f with
  | nil => rfl
  | cons x v ih =>
    obtain ⟨hx, hv⟩ := List.forall_mem_cons.mp h
    show writeAll (writeAll (Function.update f x.1 x.2) v) w =
      writeAll (Function.update (writeAll f w) x.1 x.2) v
    rw [ih hv, writeAll_update hx]

@[simp] theorem add_kind (tokens : Tokens Pubkey) (T : Pubkey) (x : UInt64) :
    (tokens.add T x).kind k = tokens.kind k := by
  unfold Tokens.kind
  rcases eq_or_ne k T with rfl | hk
  · cases h : tokens k <;> simp [h]
  · simp [hk]

theorem moved_kind (source destination : Pubkey) (amount : UInt64) :
    ((TokenChange.moved source destination amount).apply tokens).kind k = tokens.kind k := by
  simp [TokenChange.apply]

/-- Two transfers commute: amounts are only added. -/
theorem moved_comm (a b a' b' : Pubkey) (x y : UInt64) :
    (TokenChange.moved a b x).apply ((TokenChange.moved a' b' y).apply tokens) =
      (TokenChange.moved a' b' y).apply ((TokenChange.moved a b x).apply tokens) := by
  simp only [TokenChange.apply]
  rw [add_comm (tokens.add a' (-y)) b' a, add_comm tokens a' a, add_comm _ b' b,
    add_comm _ a' b]

variable [Inhabited Pubkey] {s : World Pubkey} {now now' : Int64} {i j : Instruction Pubkey}
variable {d e : Delta Pubkey}

/-- The plans of instructions on two wallets commute. -/
theorem apply_comm (hA : WalletAddress rt A) (hB : WalletAddress rt B) (hne : A ≠ B)
    {s₁ s₂ : World Pubkey} (hd : Plans rt now s₁ i d) (he : Plans rt now' s₂ j e)
    (hi : i.actsOn = some A) (hj : j.actsOn = some B) :
    e.apply (d.apply s) = d.apply (e.apply s) := by
  have haccounts : writeAll (writeAll s.accounts d.writes) e.writes =
      writeAll (writeAll s.accounts e.writes) d.writes := by
    refine writeAll_comm fun x hx y hy hsame => ?_
    have hx := plans_writes hd hi x hx
    rw [← hsame] at hx
    exact owned_apart hA hB hne hx (plans_writes he hj y hy)
  have htokens : e.tokens.apply (d.tokens.apply s.tokens) =
      d.tokens.apply (e.tokens.apply s.tokens) := by
    rcases plans_change hd hi with hd | ⟨_, _, _, _, hd, _⟩
    · rw [hd]
      rfl
    · rcases plans_change he hj with he | ⟨_, _, _, _, he, _⟩
      · rw [he]
        rfl
      · rw [hd, he, moved_comm]
  simp only [Delta.apply, haccounts, htokens]

/-- What an instruction on `B` leaves is alike for `A`, unless it credits `A`. -/
theorem plans_leaves (hne : A ≠ B) (he : Plans rt now s j e)
    (hj : j.actsOn = some B)
    (hcredit : ∀ T τ, j.credits = some T → s.tokens T = some τ → τ.owner ≠ A) :
    AlikeFor rt A B s (e.apply s) := by
  have hwrites : ∀ k, ¬ Owned rt B k → (e.apply s).accounts k = s.accounts k := by
    intro k hk
    refine writeAll_of_ne fun x hx hsame => hk ?_
    rw [← hsame]
    exact plans_writes he hj x hx
  rcases plans_change he hj with hc | ⟨source, destination, amount, σ, hc, hσ, howner, hto⟩
  · have htokens : (e.apply s).tokens = s.tokens := by
      rw [apply_tokens, hc]
      rfl
    refine ⟨hwrites, rfl, fun k => by rw [htokens], fun hτ _ => ?_⟩
    rw [htokens]
    exact hτ
  · refine ⟨hwrites, rfl, fun k => ?_, fun {k τ} hτ ho => ?_⟩
    · rw [apply_tokens, hc, moved_kind]
    · have hsource : k ≠ source := by
        rintro rfl
        rw [hτ, Option.some.injEq] at hσ
        rw [← hσ, ho] at howner
        exact hne howner
      have hdestination : k ≠ destination := by
        rintro rfl
        exact hcredit k τ hto hτ ho
      rw [apply_tokens, hc]
      simp [TokenChange.apply, hsource, hdestination, hτ]

end Commute

/-! ## 5. Interleaved submissions -/

section Submissions

variable [DecidableEq Pubkey] [Inhabited Pubkey] {s₀ s t : World Pubkey}
variable {x y : Submission Pubkey}

/-- The chain as a machine: a submission leaves a state and succeeds or not. -/
def chainMachine (rt : Runtime Pubkey) : Machine (World Pubkey) (Submission Pubkey) Bool where
  next := submit rt
  outcome := succeeds rt

omit [DecidableEq Pubkey] [Inhabited Pubkey] in
/-- The submission is one of the ten instructions on the wallet `A` and credits no token
account whose authority is `B`. -/
structure Confined (A B : Pubkey) (s₀ : World Pubkey) (x : Submission Pubkey) : Prop where
  acts : x.2.actsOn = some A
  credit : ∀ T τ, x.2.credits = some T → s₀.tokens T = some τ → τ.owner ≠ B

/-- A well-formed state with the token accounts of `s₀`, their balances apart. -/
structure Sharing (rt : Runtime Pubkey) (s₀ s : World Pubkey) : Prop where
  wellFormed : WellFormed rt s
  kind : ∀ k, s.tokens.kind k = s₀.tokens.kind k

omit [Inhabited Pubkey] in
theorem confined_credit (hs : Sharing rt s₀ s) (hx : Confined A B s₀ x) :
    ∀ T τ, x.2.credits = some T → s.tokens T = some τ → τ.owner ≠ B := by
  intro T τ hT hτ
  obtain ⟨τ₀, hτ₀, _, ho, _⟩ := kind_some (hs.kind T).symm hτ
  rw [← ho]
  exact hx.credit T τ₀ hT hτ₀

theorem sharing_submit (hs : Sharing rt s₀ s) (hx : Confined A B s₀ x) :
    Sharing rt s₀ (submit rt s x) := by
  refine ⟨wellFormed_step hs.wellFormed (submit_step rt s x), fun k => ?_⟩
  cases hok : succeeds rt s x with
  | false => rw [submit_of_fails hok, hs.kind k]
  | true =>
    obtain ⟨hsign, d, hd⟩ := succeeds_iff.mp hok
    rw [submit_of_plans hsign hd, apply_tokens, ← hs.kind k]
    rcases plans_change hd hx.acts with hc | ⟨_, _, _, _, hc, _⟩
    · rw [hc]
      rfl
    · rw [hc, moved_kind]

theorem confined_leaves (hne : A ≠ B) (hs : Sharing rt s₀ s) (hy : Confined B A s₀ y) :
    AlikeFor rt A B s (submit rt s y) := by
  cases hok : succeeds rt s y with
  | false =>
    rw [submit_of_fails hok]
    exact alikeFor_refl s
  | true =>
    obtain ⟨hsign, e, he⟩ := succeeds_iff.mp hok
    rw [submit_of_plans hsign he]
    exact plans_leaves hne he hy.acts (confined_credit hs hy)

theorem succeeds_alike (hA : WalletAddress rt A) (hB : WalletAddress rt B) (hne : A ≠ B)
    (hx : x.2.actsOn = some A) (h : AlikeFor rt A B s t) (hs : WellFormed rt s)
    (ht : WellFormed rt t) : succeeds rt t x = succeeds rt s x := by
  rw [Bool.eq_iff_iff, succeeds_iff, succeeds_iff]
  constructor
  · rintro ⟨hsign, d, hd⟩
    exact ⟨hsign, d, plans_alike hx hA hB hne (alikeFor_symm h) hs.lawful hd⟩
  · rintro ⟨hsign, d, hd⟩
    exact ⟨hsign, d, plans_alike hx hA hB hne h ht.lawful hd⟩

/-- A submission on one wallet does not change the outcome of one on another. -/
theorem outcome_kept (hA : WalletAddress rt A) (hB : WalletAddress rt B) (hne : A ≠ B)
    (hs : Sharing rt s₀ s) (hx : Confined A B s₀ x) (hy : Confined B A s₀ y) :
    succeeds rt (submit rt s y) x = succeeds rt s x :=
  succeeds_alike hA hB hne hx.acts (confined_leaves hne hs hy) hs.wellFormed
    (sharing_submit hs hy).wellFormed

theorem submit_comm (hA : WalletAddress rt A) (hB : WalletAddress rt B) (hne : A ≠ B)
    (hs : Sharing rt s₀ s) (hx : Confined A B s₀ x) (hy : Confined B A s₀ y) :
    submit rt (submit rt s x) y = submit rt (submit rt s y) x := by
  have hkept := outcome_kept hA hB hne hs hx hy
  have hkept' := outcome_kept hB hA hne.symm hs hy hx
  cases hx₀ : succeeds rt s x with
  | false =>
    rw [submit_of_fails hx₀, submit_of_fails (hkept.trans hx₀)]
  | true =>
    cases hy₀ : succeeds rt s y with
    | false => rw [submit_of_fails hy₀, submit_of_fails (hkept'.trans hy₀)]
    | true =>
      obtain ⟨hsign, d, hd⟩ := succeeds_iff.mp hx₀
      obtain ⟨hsign', e, he⟩ := succeeds_iff.mp hy₀
      -- each keeps its plan in the state the other leaves
      have hd' := plans_alike hx.acts hA hB hne (confined_leaves hne hs hy)
        (sharing_submit hs hy).wellFormed.lawful hd
      have he' := plans_alike hy.acts hB hA hne.symm (confined_leaves hne.symm hs hx)
        (sharing_submit hs hx).wellFormed.lawful he
      rw [submit_of_plans hsign' he', submit_of_plans hsign hd', submit_of_plans hsign hd,
        submit_of_plans hsign' he]
      exact apply_comm hA hB hne hd he hx.acts hy.acts

theorem confined_independent (s₀ : World Pubkey) (hA : WalletAddress rt A)
    (hB : WalletAddress rt B) (hne : A ≠ B) :
    Independent (chainMachine rt) (Sharing rt s₀) (Confined A B s₀) (Confined B A s₀) where
  keep_left := sharing_submit
  keep_right := sharing_submit
  commute := submit_comm hA hB hne
  outcome_left := outcome_kept hA hB hne
  outcome_right := fun hs hx hy => outcome_kept hB hA hne.symm hs hy hx

/-- **Wallets are independent.** Take submissions `xs` on one wallet and `ys` on another,
of which none credits a token account of the other wallet. In every interleaving each has
the outcome it has without the other list, and the final state is always the same. -/
theorem wallets_independent {wA wB : AgentWallet Pubkey} {xs ys : List (Submission Pubkey)}
    (h : Reachable rt s) (hA : s.wallet A = some wA) (hB : s.wallet B = some wB) (hne : A ≠ B)
    (hxs : ∀ x ∈ xs, Confined A B s x) (hys : ∀ y ∈ ys, Confined B A s y) :
    ∀ l, lefts l = xs → rights l = ys →
      lefts ((chainMachine rt).outcomesMixed s l) = (chainMachine rt).outcomes s xs ∧
      rights ((chainMachine rt).outcomesMixed s l) = (chainMachine rt).outcomes s ys ∧
      (chainMachine rt).runMixed s l = submitAll rt (submitAll rt s xs) ys := by
  rintro l rfl rfl
  have hwf := reachable_wellFormed h
  have haddr : ∀ {k w}, s.wallet k = some w → WalletAddress rt k :=
    fun hw => ⟨_, _, rt.find_create (hwf.wallet hw)⟩
  exact interleaving_unique (confined_independent s (haddr hA) (haddr hB) hne)
    ⟨hwf, fun _ => rfl⟩ hxs hys

end Submissions

namespace Demo

/-- Two wallets funded in one mint, and a payee of both. -/
def sharedChain : World Key :=
  chainWith (fun k => k = mint 0 || k = mint 1)
    [(.associated (wallet alice) (mint 1), ⟨mint 1, wallet alice, 1000, false⟩),
     (.associated (wallet bob) (mint 1), ⟨mint 1, wallet bob, 500, false⟩),
     (.associated stranger (mint 1), ⟨mint 1, stranger, 0, false⟩),
     (.associated payee (mint 1), ⟨mint 1, payee, 0, false⟩)]

def neighbours : World Key :=
  submitAll Key.runtime sharedChain [initProtocol, register alice owner (mint 0) 100,
    register bob stranger (mint 0) 110]

theorem reachable_neighbours : Reachable Key.runtime neighbours :=
  ⟨sharedChain, _, genesis_chainWith (by decide) (by decide),
    replay_reaches Key.runtime sharedChain _⟩

/-- The last payment of the first wallet comes after its deactivation and fails. -/
def ofAlice : List (Submission Key) :=
  [setPolicy alice owner 0 0 200, settle alice owner 0 (mint 1) (.associated payee (mint 1)) 70 230,
    deactivate alice owner 240, settle alice owner 1 (mint 1) (.associated payee (mint 1)) 5 260]

def ofBob : List (Submission Key) :=
  [setPolicy bob stranger 0 0 210,
    settle bob stranger 0 (mint 1) (.associated payee (mint 1)) 40 220,
    withdrawAll bob stranger (mint 1) 250]

theorem confined_ofAlice : ∀ x ∈ ofAlice, Confined (wallet alice) (wallet bob) neighbours x := by
  intro x hx
  simp only [ofAlice, List.mem_cons, List.not_mem_nil, or_false] at hx
  rcases hx with rfl | rfl | rfl | rfl <;> refine ⟨rfl, fun T τ hT hτ => ?_⟩ <;> cases hT <;>
    cases hτ <;> decide

theorem confined_ofBob : ∀ x ∈ ofBob, Confined (wallet bob) (wallet alice) neighbours x := by
  intro x hx
  simp only [ofBob, List.mem_cons, List.not_mem_nil, or_false] at hx
  rcases hx with rfl | rfl | rfl <;> refine ⟨rfl, fun T τ hT hτ => ?_⟩ <;> cases hT <;>
    cases hτ <;> decide

/-- An interleaving of the two. -/
def woven : List (Submission Key ⊕ Submission Key) :=
  [.inl (setPolicy alice owner 0 0 200), .inr (setPolicy bob stranger 0 0 210),
    .inr (settle bob stranger 0 (mint 1) (.associated payee (mint 1)) 40 220),
    .inl (settle alice owner 0 (mint 1) (.associated payee (mint 1)) 70 230),
    .inl (deactivate alice owner 240), .inr (withdrawAll bob stranger (mint 1) 250),
    .inl (settle alice owner 1 (mint 1) (.associated payee (mint 1)) 5 260)]

end Demo

theorem wallets_independent_shared :
    lefts ((chainMachine Key.runtime).outcomesMixed Demo.neighbours Demo.woven) =
        (chainMachine Key.runtime).outcomes Demo.neighbours Demo.ofAlice ∧
      rights ((chainMachine Key.runtime).outcomesMixed Demo.neighbours Demo.woven) =
        (chainMachine Key.runtime).outcomes Demo.neighbours Demo.ofBob ∧
      (chainMachine Key.runtime).runMixed Demo.neighbours Demo.woven =
        submitAll Key.runtime (submitAll Key.runtime Demo.neighbours Demo.ofAlice) Demo.ofBob :=
  wallets_independent (A := Demo.wallet Demo.alice) (B := Demo.wallet Demo.bob)
    Demo.reachable_neighbours rfl rfl (by decide) Demo.confined_ofAlice Demo.confined_ofBob
    Demo.woven rfl rfl

example : (chainMachine Key.runtime).outcomes Demo.neighbours Demo.ofAlice =
    [true, true, true, false] := by
  decide +kernel

end MaximProtocol
