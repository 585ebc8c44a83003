import MaximProtocol.Authority

/-!
# Custody

What a freeze and a balance are worth once a wallet can be closed and its agent
registered again. The new wallet is at the old address, is not frozen, starts at
sequence 0, and belongs to whoever registered it.

1. `freeze_holds`: a freeze holds until the admin lifts it, as long as the agent is not
   registered again at an address with an empty ledger. A used slot 0 blocks every
   settlement of the new wallet.
2. `custody_kept`: the recorded token account of a wallet is spent from by its owner or by
   a key the ownership was passed on to, as long as nobody else registers the agent again.
-/

namespace MaximProtocol

open MachineInt World Transitions

variable {Pubkey : Type}

/-! ## 1. Freezing -/

/-- The transition is a successful freeze of the wallet at `k`. -/
def Freezes (k : Pubkey) (x : Transition (World Pubkey) (Action Pubkey)) : Prop :=
  ∃ accs, Accepts x (.freezeAgent accs) ∧ accs.agentWallet = k

/-- The transition is a successful unfreeze of the wallet at `k`, signed by the admin of
the configuration before it. -/
def Unfreezes (k : Pubkey) (x : Transition (World Pubkey) (Action Pubkey)) : Prop :=
  ∃ accs c, Accepts x (.unfreezeAgent accs) ∧ accs.agentWallet = k ∧
    x.pre.config accs.protocolConfig = some c ∧ c.admin = accs.admin

/-- The transition is a successful settlement for the agent. -/
def SettlesFor (agentId : Bytes) (x : Transition (World Pubkey) (Action Pubkey)) : Prop :=
  ∃ accs n params, Accepts x (.settlePayment accs n params) ∧ params.agentId = agentId

/-- The transition registers a wallet at `k`, where there is no record at sequence 0. -/
def StartsLedger (rt : Runtime Pubkey) (k : Pubkey)
    (x : Transition (World Pubkey) (Action Pubkey)) : Prop :=
  ∃ accs agentId, Accepts x (.registerAgent accs agentId) ∧ accs.agentWallet = k ∧
    recordAt rt x.pre k 0 = none

/-- Between a freeze of the wallet at `k` and a later settlement for the agent there is
an unfreeze. -/
def FreezeHolds (k : Pubkey) (agentId : Bytes) (tr : Trace Pubkey) : Prop :=
  ∀ l x m y r, tr = l ++ x :: (m ++ y :: r) → Freezes k x → SettlesFor agentId y →
    ∃ z ∈ m, Unfreezes k z

/-- After a freeze of the wallet at `k` that nothing lifted, `k` is registered again with
an empty ledger. -/
def ForgetsFreeze (rt : Runtime Pubkey) (k : Pubkey) (tr : Trace Pubkey) : Prop :=
  ∃ l x m z r, tr = l ++ x :: (m ++ z :: r) ∧ Freezes k x ∧ (∀ u ∈ m, ¬ Unfreezes k u) ∧
    StartsLedger rt k z

/-- A wallet at `k`, if any, cannot settle: it is frozen, or its next slot is 0, which
is used. -/
def Held (rt : Runtime Pubkey) (s : World Pubkey) (k : Pubkey) : Prop :=
  ∀ w, s.wallet k = some w →
    w.isFrozen = true ∨ (w.paymentSequence = 0 ∧ recordAt rt s k 0 ≠ none)

variable [DecidableEq Pubkey] [Inhabited Pubkey] {rt : Runtime Pubkey} {s s' : World Pubkey}
variable {k T : Pubkey} {now : Int64} {tr : Trace Pubkey} {w : AgentWallet Pubkey}
variable {x y : Transition (World Pubkey) (Action Pubkey)} {agentId : Bytes}

omit [Inhabited Pubkey] in
/-- A held wallet does not settle. -/
theorem held_blocks {accs : SettlePayment Pubkey} {n : UInt64}
    {params : SettlePaymentParams Pubkey} {ctx : SettlePayment.Loaded Pubkey}
    {p : SpendPolicy Pubkey} (hheld : Held rt s accs.agentWallet) :
    ¬ Settles rt now accs n params s s' ctx w p := by
  intro h
  rcases hheld _ h.validates.wallet with hfrozen | ⟨hseq, hused⟩
  · rw [h.passed.not_frozen] at hfrozen
    cases hfrozen
  · obtain ⟨_, ha⟩ := settled_appends h
    have hfree := ha.free
    rw [hseq] at hfree
    exact hused hfree

/-- A held wallet stays held: only the admin unfreezes it, closing it leaves no wallet,
and a wallet registered there meets the record at sequence 0. -/
theorem held_step (hs : Step rt x.pre x.label x.post) (hlift : ¬ Unfreezes k x)
    (hstart : ¬ StartsLedger rt k x) (hheld : Held rt x.pre k) : Held rt x.post k := by
  obtain ⟨s, act, s'⟩ := x
  simp only at hs hheld ⊢
  cases walletStep hs k with
  | settled hk h =>
    subst hk
    exact absurd h (held_blocks hheld)
  | @violated _ _ accs _ _ _ w _ hk h =>
    subst hk
    obtain ⟨_, ha⟩ := violated_appends h
    intro v hv
    rw [ha.after] at hv
    cases hv
    rcases hheld w ha.before with hfrozen | ⟨hseq, hused⟩
    · -- a violation can be recorded on a frozen wallet, and leaves it frozen
      exact .inl hfrozen
    · have hfree := ha.free
      rw [hseq] at hfree
      exact absurd hfree hused
  | registered hk h =>
    subst hk
    intro v hv
    rw [h.views.wallet, Function.update_self] at hv
    cases hv
    -- the new wallet is not frozen, but its slot 0 is used
    refine .inr ⟨rfl, ?_⟩
    rw [recordAt_congr h.views.record]
    exact fun hnone => hstart ⟨_, _, ⟨_, rfl⟩, rfl, hnone⟩
  | closed hk h =>
    intro v hv
    rw [← hk, h.views.wallet, Function.update_self] at hv
    cases hv
  | edited he h =>
    intro v hv
    rw [h.views.wallet, Function.update_self] at hv
    cases hv
    rw [recordAt_congr h.views.record]
    have hbefore := hheld _ h.wallet
    cases he with
    | deactivate => exact hbefore
    | reactivate => exact hbefore
    | freeze => exact .inl rfl
    | unfreeze hk hc ha => exact absurd ⟨_, _, ⟨_, rfl⟩, hk, hc, ha⟩ hlift
    | owner => exact hbefore
  | untouched hsame hr =>
    intro v hv
    rw [hsame] at hv
    rw [hr]
    exact hheld v hv

theorem freezes_held (hs : Step rt x.pre x.label x.post) (h : Freezes k x) :
    Held rt x.post k := by
  obtain ⟨accs, ⟨now, hl⟩, rfl⟩ := h
  rw [hl] at hs
  cases (step_effect hs).2 with
  | freezeAgent _ _ _ h =>
    intro v hv
    rw [h.views.wallet, Function.update_self] at hv
    cases hv
    exact .inl rfl

/-- A settlement for an agent is one from the wallet address of the agent. -/
theorem settlesFor_address {bump : UInt8} (hs : Step rt x.pre x.label x.post)
    (hwf : WellFormed rt x.pre) (hk : rt.findProgramAddress (.agentWallet agentId) = some (k, bump))
    (h : SettlesFor agentId x) :
    ∃ now accs n params ctx w p, accs.agentWallet = k ∧
      Settles rt now accs n params x.pre x.post ctx w p := by
  obtain ⟨accs, n, params, ⟨now, hl⟩, rfl⟩ := h
  rw [hl] at hs
  cases (step_effect hs).2 with
  | settlePayment h =>
    have haddr := hwf.wallet h.validates.wallet
    have hseeds := (rt.create_inj (rt.find_create haddr) h.validates.wallet_seeds).1
    simp only [Seeds.agentWallet.injEq] at hseeds
    rw [hseeds, hk] at haddr
    cases haddr
    exact ⟨_, _, _, _, _, _, _, rfl, h⟩

/-- A freeze of an agent's wallet holds until the admin lifts it, in every run where the
agent is not registered again meanwhile with an empty ledger. -/
theorem freeze_holds {bump : UInt8} (h : Reachable rt s) (hr : Reaches rt s tr s')
    (hk : rt.findProgramAddress (.agentWallet agentId) = some (k, bump))
    (hforget : ¬ ForgetsFreeze rt k tr) : FreezeHolds k agentId tr := by
  rintro l x m y r rfl hx hy
  by_contra hlift
  have hlift : ∀ z ∈ m, ¬ Unfreezes k z := fun z hz hu => hlift ⟨z, hz, hu⟩
  obtain ⟨hl, hxs, hm, hys⟩ := run_between hr
  -- from the freeze to the settlement nothing lets go of the wallet
  have hheld : Held rt y.pre k := by
    refine run_preserves (I := fun v => Held rt v k) hm (freezes_held hxs hx) ?_
    intro z hz hs
    refine held_step hs (hlift z hz) fun hstart => ?_
    obtain ⟨m₁, m₂, rfl⟩ := List.append_of_mem hz
    refine hforget ⟨l, x, m₁, z, m₂ ++ y :: r, by simp, hx, fun u hu => ?_, hstart⟩
    exact hlift u (List.mem_append_left _ hu)
  have hreach : Reachable rt y.pre := reachable_run (reachable_step (reachable_run h hl) hxs) hm
  obtain ⟨_, _, _, _, _, _, _, rfl, hset⟩ :=
    settlesFor_address hys (reachable_wellFormed hreach) hk hy
  exact held_blocks hheld hset

namespace Demo

/-- After the opening run: a freeze, the unfreeze and another settlement. -/
def thawing : List (Submission Key) :=
  [freeze alice 400, unfreeze alice 500,
    settle alice owner 2 (mint 1) (.associated payee (mint 1)) 5 600]

/-- A frozen wallet without payments is closed by its owner, registered again with
another mint, and pays. -/
def laundering : List (Submission Key) :=
  [initProtocol, register alice owner (mint 0) 100, freeze alice 200,
    setPolicy alice owner 0 0 300, deactivate alice owner 300, close alice owner (mint 2) 300,
    register alice owner (mint 3) 400, setPolicy alice owner 0 0 400,
    settle alice owner 0 (mint 1) (.associated payee (mint 1)) 70 500]

end Demo

theorem freeze_holds_thawing :
    ∃ z ∈ replay Key.runtime (submit Key.runtime (submitAll Key.runtime Demo.chain Demo.opening)
      (Demo.freeze Demo.alice 400)) [Demo.unfreeze Demo.alice 500],
      Unfreezes (Demo.wallet Demo.alice) z := by
  have hreach : Reachable Key.runtime (submitAll Key.runtime Demo.chain Demo.opening) :=
    Demo.reachable_chain Demo.opening
  have hfreeze : succeeds Key.runtime (submitAll Key.runtime Demo.chain Demo.opening)
      (Demo.freeze Demo.alice 400) = true := by decide +kernel
  have hsettle : succeeds Key.runtime (submitAll Key.runtime Demo.chain
      (Demo.opening ++ [Demo.freeze Demo.alice 400, Demo.unfreeze Demo.alice 500]))
      (Demo.settle Demo.alice Demo.owner 2 (Demo.mint 1)
        (.associated Demo.payee (Demo.mint 1)) 5 600) = true := by decide +kernel
  have haddr : Key.runtime.findProgramAddress (.agentWallet Demo.alice) =
      some (Demo.wallet Demo.alice, 255) := rfl
  refine freeze_holds hreach (replay_reaches Key.runtime _ Demo.thawing) haddr ?_ [] _ _ _ [] rfl
    ⟨_, transition_accepts hfreeze, rfl⟩ ⟨_, _, _, transition_accepts hsettle, rfl⟩
  rintro ⟨l, x, m, z, r, heq, _, _, accs, agentId, hreg, _⟩
  have hz : z ∈ replay Key.runtime (submitAll Key.runtime Demo.chain Demo.opening)
      Demo.thawing := by
    rw [heq]
    simp
  obtain ⟨now, hmem⟩ := accepts_mem hz hreg
  simp [Demo.thawing, Demo.freeze, Demo.unfreeze, Demo.settle] at hmem

/-- A freeze does not hold over every run. -/
theorem freeze_forgotten : ¬ ∀ s tr s' agentId k bump, Reachable Key.runtime s →
    Reaches Key.runtime s tr s' →
    Key.runtime.findProgramAddress (.agentWallet agentId) = some (k, bump) →
    FreezeHolds k agentId tr := by
  intro h
  have hrun := replay_reaches Key.runtime Demo.chain Demo.laundering
  have hfreeze : succeeds Key.runtime (submitAll Key.runtime Demo.chain
      (Demo.laundering.take 2)) (Demo.freeze Demo.alice 200) = true := by decide +kernel
  have hsettle : succeeds Key.runtime (submitAll Key.runtime Demo.chain
      (Demo.laundering.take 8)) (Demo.settle Demo.alice Demo.owner 0 (Demo.mint 1)
        (.associated Demo.payee (Demo.mint 1)) 70 500) = true := by decide +kernel
  obtain ⟨z, hz, accs, c, hl, _⟩ := h _ _ _ Demo.alice (Demo.wallet Demo.alice) 255
    (reachable_init Demo.genesis_chain) hrun rfl
    (replay Key.runtime Demo.chain (Demo.laundering.take 2)) _
    (replay Key.runtime (submitAll Key.runtime Demo.chain (Demo.laundering.take 3))
      ((Demo.laundering.drop 3).take 5)) _ [] rfl
    ⟨_, transition_accepts hfreeze, rfl⟩ ⟨_, _, _, transition_accepts hsettle, rfl⟩
  obtain ⟨now, hmem⟩ := accepts_mem hz hl
  simp [Demo.laundering, Demo.setPolicy, Demo.deactivate, Demo.close, Demo.register] at hmem

/-! ## 2. Custody -/

/-- Over the trace `K` is reached from `O` by transfers of the ownership of the wallet at
`k`, each signed by the owner at that point. -/
inductive Inherits (k O : Pubkey) : Trace Pubkey → Pubkey → Prop
  | refl : Inherits k O [] O
  | keep {tr : Trace Pubkey} {K : Pubkey} {x : Transition (World Pubkey) (Action Pubkey)} :
      Inherits k O tr K → Inherits k O (tr ++ [x]) K
  | transfer {tr : Trace Pubkey} {x : Transition (World Pubkey) (Action Pubkey)}
      {accs : TransferOwnership Pubkey} {newOwner : Pubkey} :
      Inherits k O tr accs.owner → Accepts x (.transferOwnership accs newOwner) →
      accs.agentWallet = k → Inherits k O (tr ++ [x]) newOwner

/-- The first instruction of the trace that lowers the balance at `T` is signed by `O` or
by a key reached from it. -/
def InCustody (k O T : Pubkey) (tr : Trace Pubkey) : Prop :=
  ∀ m y r, tr = m ++ y :: r → (∀ x ∈ m, ¬ Lowers T x) → Lowers T y →
    ∃ K, Inherits k O m K ∧ SignedBy K y

/-- Before any instruction lowers the balance at `T`, and while there is one, a key that is
not reached from `O` registers a wallet at `k`. -/
def Usurped (k O T : Pubkey) (tr : Trace Pubkey) : Prop :=
  ∃ l x r accs agentId, tr = l ++ x :: r ∧ (∀ z ∈ l, ¬ Lowers T z) ∧
    Accepts x (.registerAgent accs agentId) ∧ accs.agentWallet = k ∧
    0 < x.pre.tokens.balance T ∧ ¬ Inherits k O l accs.owner

/-- After the trace `T` is a funded account of `k`, and the wallet at `k`, if any, belongs
to a key reached from `O`. -/
structure Kept (k O T : Pubkey) (tr : Trace Pubkey) (s : World Pubkey) : Prop where
  funds : ∃ t, s.tokens T = some t ∧ t.owner = k ∧ 0 < t.amount
  owner : ∀ w, s.wallet k = some w → Inherits k O tr w.owner

omit [DecidableEq Pubkey] [Inhabited Pubkey] in
theorem kept_balance {O : Pubkey} (h : Kept k O T tr s) : 0 < s.tokens.balance T := by
  obtain ⟨t, ht, _, hpos⟩ := h.funds
  simp only [Tokens.balance, ht]
  exact UInt64.lt_iff_toNat_lt.mp hpos

omit [DecidableEq Pubkey] [Inhabited Pubkey] in
/-- Without a transfer only `O` itself is reached. -/
theorem inherits_eq {O K : Pubkey} (h : Inherits k O tr K)
    (hnone : ∀ x ∈ tr, ∀ accs newOwner, ¬ Accepts x (.transferOwnership accs newOwner)) :
    K = O := by
  induction h with
  | refl => rfl
  | keep _ ih => exact ih fun x hx => hnone x (List.mem_append_left _ hx)
  | transfer _ hx _ _ => exact absurd hx (hnone _ (by simp) _ _)

/-- The owner of the wallet at `k` after one more step. -/
theorem owner_step {O : Pubkey} (hs : Step rt x.pre x.label x.post)
    (hreg : ∀ accs agentId, Accepts x (.registerAgent accs agentId) → accs.agentWallet = k →
      Inherits k O tr accs.owner)
    (howner : ∀ w, x.pre.wallet k = some w → Inherits k O tr w.owner) :
    ∀ w, x.post.wallet k = some w → Inherits k O (tr ++ [x]) w.owner := by
  obtain ⟨s, act, s'⟩ := x
  simp only at hs howner ⊢
  intro v hv
  cases walletStep hs k with
  | settled hk h =>
    obtain ⟨u, u', hu, hu', hkept, _⟩ := settled_kept h
    rw [hk, hv] at hu'
    cases hu'
    rw [hk] at hu
    rw [hkept]
    exact .keep (howner u hu)
  | violated hk h =>
    obtain ⟨u, u', hu, hu', hkept, _⟩ := violated_kept h
    rw [hk, hv] at hu'
    cases hu'
    rw [hk] at hu
    rw [hkept]
    exact .keep (howner u hu)
  | registered hk h =>
    rw [← hk, h.views.wallet, Function.update_self] at hv
    cases hv
    exact .keep (hreg _ _ ⟨_, rfl⟩ hk)
  | closed hk h =>
    rw [← hk, h.views.wallet, Function.update_self] at hv
    cases hv
  | edited he h =>
    rw [h.views.wallet, Function.update_self] at hv
    cases hv
    have hbefore := howner _ h.wallet
    cases he with
    | deactivate => exact .keep hbefore
    | reactivate => exact .keep hbefore
    | freeze => exact .keep hbefore
    | unfreeze => exact .keep hbefore
    | owner hk ho _ =>
      rw [ho] at hbefore
      exact .transfer hbefore ⟨_, rfl⟩ hk
  | untouched hsame _ =>
    rw [hsame] at hv
    exact .keep (howner v hv)

omit [Inhabited Pubkey] in
theorem kept_start (hwf : WellFormed rt s) (hw : s.wallet k = some w)
    (hfunds : 0 < s.tokens.balance w.usdcTokenAccount) :
    Kept k w.owner w.usdcTokenAccount [] s := by
  refine ⟨?_, fun v hv => ?_⟩
  · obtain ⟨mint, htoken, hsome⟩ := hwf.token hw
    obtain ⟨t, ht⟩ := Option.ne_none_iff_exists'.mp hsome
    simp only [Tokens.balance, ht] at hfunds
    refine ⟨t, ht, ?_, UInt64.lt_iff_toNat_lt.mpr hfunds⟩
    rw [htoken] at ht
    exact hwf.lawful.associated_owner (find_derived rt (hwf.wallet hw)) ht
  · rw [hw] at hv
    cases hv
    exact .refl

/-- Custody is kept until the program spends from `T`. -/
theorem kept_step {O : Pubkey} (hderived : rt.IsDerived k) (hs : Step rt x.pre x.label x.post)
    (hlow : ¬ Lowers T x) (hkept : Kept k O T tr x.pre)
    (hreg : ∀ accs agentId, Accepts x (.registerAgent accs agentId) → accs.agentWallet = k →
      Inherits k O tr accs.owner) : Kept k O T (tr ++ [x]) x.post := by
  obtain ⟨t, ht, rfl, hpos⟩ := hkept.funds
  obtain ⟨t', ht', ho, hle⟩ := funds_step hs ht hderived hpos hlow
  exact ⟨⟨t', ht', ho, UInt64.lt_of_lt_of_le hpos hle⟩, owner_step hs hreg hkept.owner⟩

/-- From every state with a funded wallet on, the first instruction that spends from its
recorded token account is signed by its owner or a key the ownership was passed on to, in
every run where no other key registers a wallet at the address while the account is untouched. -/
theorem custody_kept (h : Reachable rt s) (hw : s.wallet k = some w)
    (hfunds : 0 < s.tokens.balance w.usdcTokenAccount) (hr : Reaches rt s tr s')
    (husurped : ¬ Usurped k w.owner w.usdcTokenAccount tr) :
    InCustody k w.owner w.usdcTokenAccount tr := by
  rintro m y r rfl hm hy
  have hwf := reachable_wellFormed h
  have hderived : rt.IsDerived k := find_derived rt (hwf.wallet hw)
  obtain ⟨hrm, hys, _⟩ := run_middle hr
  -- up to the first step that spends from the account, custody is kept
  have hkept : Kept k w.owner w.usdcTokenAccount m y.pre := by
    refine run_history (I := fun l v => Kept k w.owner w.usdcTokenAccount l v) hrm
      (kept_start hwf hw hfunds) ?_
    intro l x hl _ hs hI
    have hx : x ∈ m := hl.subset (by simp)
    refine kept_step hderived hs (hm x hx) hI fun accs agentId hreg hk => ?_
    by_contra hnot
    obtain ⟨m', rfl⟩ := hl
    exact husurped ⟨l, x, m' ++ y :: r, accs, agentId, by simp, fun z hz => hm z (by simp [hz]),
      hreg, hk, kept_balance hI, hnot⟩
  obtain ⟨t, v, now, i, ht, hv, hl, hsigner⟩ := lowers_signed hys hy
  obtain ⟨t', ht', ho, _⟩ := hkept.funds
  rw [ht] at ht'
  cases ht'
  rw [ho] at hv
  exact ⟨v.owner, hkept.owner v hv, now, i, hl, hsigner⟩

/-- A submission that succeeds and lowers the balance. -/
theorem transition_lowers {z : Submission Pubkey} (h : succeeds rt s z = true)
    (hlow : (submit rt s z).tokens.balance T < s.tokens.balance T) :
    Lowers T (transition rt s z) :=
  ⟨⟨z.1, z.2, transition_label h⟩, hlow⟩

namespace Demo

/-- The recorded token account of the first agent is paid into by the second. -/
def funding : List (Submission Key) :=
  [initProtocol, register bob payee (mint 1) 100, setPolicy bob payee 0 0 100,
    register alice owner (mint 0) 100,
    settle bob payee 0 (mint 0) (.associated (wallet alice) (mint 0)) 70 200]

def funded : World Key := submitAll Key.runtime chain funding

def fundedWallet : AgentWallet Key :=
  AgentWallet.registered alice owner (.associated (wallet alice) (mint 0)) 100 255

theorem reachable_funded : Reachable Key.runtime funded :=
  reachable_chain funding

theorem funded_wallet : funded.wallet (wallet alice) = some fundedWallet := rfl

theorem funded_balance : 0 < funded.tokens.balance fundedWallet.usdcTokenAccount := by
  decide +kernel

/-- The owner closes the wallet, a stranger registers the agent again with another mint,
and empties the first token account. -/
def usurping : List (Submission Key) :=
  [setPolicy alice owner 0 0 300, deactivate alice owner 300, close alice owner (mint 2) 300,
    register alice stranger (mint 3) 400, withdrawAll alice stranger (mint 0) 500]

end Demo

/-- The owner transfers the funded wallet to a stranger, who empties it. -/
theorem custody_kept_transfer :
    ∃ K, Inherits (Demo.wallet Demo.alice) Demo.owner (replay Key.runtime Demo.funded
        [Demo.transfer Demo.alice Demo.owner Demo.stranger 300]) K ∧
      SignedBy K (transition Key.runtime (submit Key.runtime Demo.funded
        (Demo.transfer Demo.alice Demo.owner Demo.stranger 300))
        (Demo.withdrawAll Demo.alice Demo.stranger (Demo.mint 0) 400)) := by
  have hquiet : ∀ x ∈ replay Key.runtime Demo.funded
      [Demo.transfer Demo.alice Demo.owner Demo.stranger 300],
      ¬ x.post.tokens.balance Demo.fundedWallet.usdcTokenAccount <
        x.pre.tokens.balance Demo.fundedWallet.usdcTokenAccount := by decide +kernel
  have hspends : Lowers Demo.fundedWallet.usdcTokenAccount (transition Key.runtime
      (submit Key.runtime Demo.funded (Demo.transfer Demo.alice Demo.owner Demo.stranger 300))
      (Demo.withdrawAll Demo.alice Demo.stranger (Demo.mint 0) 400)) :=
    transition_lowers (by decide +kernel) (by decide +kernel)
  refine custody_kept Demo.reachable_funded Demo.funded_wallet Demo.funded_balance
    (replay_reaches Key.runtime Demo.funded
      [Demo.transfer Demo.alice Demo.owner Demo.stranger 300,
        Demo.withdrawAll Demo.alice Demo.stranger (Demo.mint 0) 400]) ?_ _ _ [] rfl
    (fun x hx hlow => hquiet x hx hlow.2) hspends
  rintro ⟨l, x, r, accs, agentId, heq, _, hreg, _⟩
  have hx : x ∈ replay Key.runtime Demo.funded
      [Demo.transfer Demo.alice Demo.owner Demo.stranger 300,
        Demo.withdrawAll Demo.alice Demo.stranger (Demo.mint 0) 400] := by
    rw [heq]
    simp
  obtain ⟨now, hmem⟩ := accepts_mem hx hreg
  simp [Demo.transfer, Demo.withdrawAll] at hmem

/-- Custody is not kept over every run. -/
theorem custody_usurped : ¬ ∀ s tr s' k w, Reachable Key.runtime s → s.wallet k = some w →
    0 < s.tokens.balance w.usdcTokenAccount → Reaches Key.runtime s tr s' →
    InCustody k w.owner w.usdcTokenAccount tr := by
  intro h
  have hquiet : ∀ x ∈ replay Key.runtime Demo.funded (Demo.usurping.take 4),
      ¬ x.post.tokens.balance Demo.fundedWallet.usdcTokenAccount <
        x.pre.tokens.balance Demo.fundedWallet.usdcTokenAccount := by decide +kernel
  have hok : succeeds Key.runtime (submitAll Key.runtime Demo.funded (Demo.usurping.take 4))
      (Demo.withdrawAll Demo.alice Demo.stranger (Demo.mint 0) 500) = true := by decide +kernel
  have hspends : Lowers Demo.fundedWallet.usdcTokenAccount (transition Key.runtime
      (submitAll Key.runtime Demo.funded (Demo.usurping.take 4))
      (Demo.withdrawAll Demo.alice Demo.stranger (Demo.mint 0) 500)) :=
    transition_lowers hok (by decide +kernel)
  obtain ⟨K, hK, now, i, hl, hsigner⟩ := h _ _ _ _ _ Demo.reachable_funded Demo.funded_wallet
    Demo.funded_balance (replay_reaches Key.runtime Demo.funded Demo.usurping)
    (replay Key.runtime Demo.funded (Demo.usurping.take 4)) _ [] rfl
    (fun x hx hlow => hquiet x hx hlow.2) hspends
  have howner : K = Demo.owner := by
    refine inherits_eq hK fun x hx accs newOwner hacc => ?_
    obtain ⟨t, hmem⟩ := accepts_mem hx hacc
    simp [Demo.usurping, Demo.setPolicy, Demo.deactivate, Demo.close, Demo.register] at hmem
  have hlabel := (transition_label hok).symm.trans hl
  cases hlabel
  rw [howner] at hsigner
  cases hsigner

end MaximProtocol
