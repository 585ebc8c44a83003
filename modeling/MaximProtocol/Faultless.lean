import MaximProtocol.Faults

/-!
# When an instruction succeeds

1. What a successful instruction says of the accounts, addresses and owners it names.
2. `faults_exact`: an instruction fails with one of its faults, and succeeds when it has none.
-/

namespace MaximProtocol

open MachineInt World Transitions Tumbling

variable {Pubkey : Type} [DecidableEq Pubkey] [Inhabited Pubkey]

/-! ## 1. What succeeds has no fault -/

section Succeeds

variable {rt : Runtime Pubkey} {s s' : World Pubkey} {now : Int64} {i : Instruction Pubkey}

/-- The account is there, and of its kind. -/
def Named.Present (s : World Pubkey) : Named Pubkey → Prop
  | .config k => ∃ c, s.config k = some c
  | .wallet k => ∃ w, s.wallet k = some w
  | .policy k => ∃ p, s.policy k = some p
  | .token k => ∃ t, s.tokens k = some t
  | .mint k => s.mints k = true

omit [DecidableEq Pubkey] [Inhabited Pubkey] in
theorem present_sound {a : Named Pubkey} (h : a.Present s) : ¬ a.Missing s ∧ ¬ a.Foreign s := by
  cases a with
  | config k =>
    obtain ⟨c, hc⟩ := h
    refine ⟨fun hfree => ?_, fun hf => ?_⟩
    · rw [(free_iff.mp hfree).1] at hc
      cases hc
    · rw [hf.2] at hc
      cases hc
  | wallet k =>
    obtain ⟨w, hw⟩ := h
    refine ⟨fun hfree => ?_, fun hf => ?_⟩
    · rw [(free_iff.mp hfree).2.1] at hw
      cases hw
    · rw [hf.2] at hw
      cases hw
  | policy k =>
    obtain ⟨p, hp⟩ := h
    refine ⟨fun hfree => ?_, fun hf => ?_⟩
    · rw [(free_iff.mp hfree).2.2.1] at hp
      cases hp
    · rw [hf.2] at hp
      cases hp
  | token k =>
    obtain ⟨t, ht⟩ := h
    refine ⟨fun hnone => ?_, fun hf => hf⟩
    rw [show s.tokens k = none from hnone] at ht
    cases ht
  | mint k =>
    refine ⟨fun hfalse => ?_, fun hf => hf⟩
    exact Bool.false_ne_true (hfalse.symm.trans h)

theorem effect_loads (h : Effect rt now s s' i) : ∀ a ∈ i.loads, a.Present s := by
  intro a ha
  cases h <;> simp only [Instruction.loads, List.mem_cons, List.not_mem_nil, or_false] at ha
  case rotateProtocolAdmin hc => exact ha ▸ ⟨_, hc.config⟩
  case updateProtocolConfig hc => exact ha ▸ ⟨_, hc.config⟩
  case registerAgent hr => exact ha ▸ hr.mint
  case setSpendPolicy hp => exact ha ▸ ⟨_, hp.wallet⟩
  case settlePayment hs =>
    have hv := hs.validates
    obtain ⟨t, ht, _⟩ := hv.source
    rcases ha with rfl | rfl | rfl | rfl | rfl | rfl
    · exact ⟨_, hv.wallet⟩
    · exact ⟨_, hv.policy⟩
    · exact ⟨t, ht⟩
    · exact ⟨_, hv.payee⟩
    · exact hv.mint
    · exact ⟨_, hv.config⟩
  case recordPolicyViolation hs => exact ha ▸ ⟨_, hs.validates.wallet⟩
  case deactivateAgent he => exact ha ▸ ⟨_, he.wallet⟩
  case reactivateAgent he => exact ha ▸ ⟨_, he.wallet⟩
  case freezeAgent hc _ _ he =>
    rcases ha with rfl | rfl
    · exact ⟨_, he.wallet⟩
    · exact ⟨_, hc⟩
  case unfreezeAgent hc _ _ he =>
    rcases ha with rfl | rfl
    · exact ⟨_, he.wallet⟩
    · exact ⟨_, hc⟩
  case withdrawFunds hd =>
    have hv := hd.validates
    rcases ha with rfl | rfl | rfl | rfl
    · exact ⟨_, hv.wallet⟩
    · exact ⟨_, hv.source⟩
    · exact ⟨_, hv.destination⟩
    · exact hv.mint
  case withdrawAll hd =>
    have hv := hd.validates
    rcases ha with rfl | rfl | rfl | rfl
    · exact ⟨_, hv.wallet⟩
    · exact ⟨_, hv.source⟩
    · exact ⟨_, hv.destination⟩
    · exact hv.mint
  case transferOwnership he => exact ha ▸ ⟨_, he.wallet⟩
  case closeAgent hc =>
    rcases ha with rfl | rfl | rfl | rfl
    · exact ⟨_, hc.wallet⟩
    · exact ⟨_, hc.policy⟩
    · exact ⟨_, hc.token⟩
    · exact hc.mint

theorem effect_inits (h : Effect rt now s s' i) : ∀ k ∈ i.inits, s.Free k := by
  intro k hk
  cases h <;> simp only [Instruction.inits, List.mem_cons, List.not_mem_nil, or_false] at hk
  case initProtocol hfree _ _ => exact hk ▸ hfree
  case registerAgent hr => exact hk ▸ hr.free
  case settlePayment hs => exact hk ▸ hs.validates.record_free
  case recordPolicyViolation hs => exact hk ▸ hs.validates.record_free

theorem effect_derived (hwf : WellFormed rt s) (h : Effect rt now s s' i) {seeds : Seeds Pubkey}
    {k : Pubkey} (hx : (seeds, k) ∈ i.derived) :
    ∃ bump, rt.findProgramAddress seeds = some (k, bump) := by
  have hconfig : ∀ {k c}, s.config k = some c →
      ∃ bump, rt.findProgramAddress .protocolConfig = some (k, bump) :=
    fun hc => ⟨_, hwf.config hc⟩
  cases h <;> simp only [Instruction.derived, List.mem_cons, List.not_mem_nil, or_false,
    Prod.mk.injEq] at hx
  case initProtocol addr _ _ _ =>
    obtain ⟨rfl, rfl⟩ := hx
    exact ⟨_, addr⟩
  case rotateProtocolAdmin hc =>
    obtain ⟨rfl, rfl⟩ := hx
    exact hconfig hc.config
  case updateProtocolConfig hc =>
    obtain ⟨rfl, rfl⟩ := hx
    exact hconfig hc.config
  case registerAgent agentId _ hr =>
    split at hx
    · obtain ⟨rfl, rfl⟩ := Prod.mk.inj (List.mem_singleton.mp hx)
      exact ⟨_, hr.addr⟩
    · cases hx
  case setSpendPolicy hp =>
    obtain ⟨rfl, rfl⟩ := hx
    exact ⟨_, hp.addr⟩
  case settlePayment hs =>
    have hv := hs.validates
    rcases hx with ⟨rfl, rfl⟩ | ⟨rfl, rfl⟩ | ⟨rfl, rfl⟩ | ⟨rfl, rfl⟩
    · exact ⟨_, hv.record_addr⟩
    · exact ⟨_, find_of_create (hwf.wallet hv.wallet) hv.wallet_seeds⟩
    · exact ⟨_, find_of_create (hwf.policy hv.policy) hv.policy_seeds⟩
    · exact hconfig hv.config
  case recordPolicyViolation hs =>
    have hv := hs.validates
    rcases hx with ⟨rfl, rfl⟩ | ⟨rfl, rfl⟩
    · exact ⟨_, hv.record_addr⟩
    · exact ⟨_, find_of_create (hwf.wallet hv.wallet) hv.wallet_seeds⟩
  case freezeAgent hc _ _ _ =>
    obtain ⟨rfl, rfl⟩ := hx
    exact hconfig hc
  case unfreezeAgent hc _ _ _ =>
    obtain ⟨rfl, rfl⟩ := hx
    exact hconfig hc
  case closeAgent hc =>
    obtain ⟨rfl, rfl⟩ := hx
    exact ⟨_, find_of_create (hwf.policy hc.policy) hc.policy_seeds⟩

theorem effect_associated (h : Effect rt now s s' i) {k authority mint : Pubkey}
    (hx : (k, authority, mint) ∈ i.associated) :
    k = rt.associatedTokenAddress authority mint ∧
      ∀ t, s.tokens k = some t → t.owner = authority := by
  have howner : ∀ {t₀ : TokenAccount Pubkey} {k a}, s.tokens k = some t₀ → t₀.owner = a →
      ∀ t, s.tokens k = some t → t.owner = a := by
    intro t₀ k a h₀ ho t ht
    rw [h₀] at ht
    cases ht
    exact ho
  have hwithdraw : ∀ {accs : WithdrawFunds Pubkey} {ctx}, accs.Validates rt s ctx →
      (k = accs.usdcTokenAccount ∧ authority = accs.agentWallet ∧ mint = accs.usdcMint) ∨
        (k = accs.ownerTokenAccount ∧ authority = accs.owner ∧ mint = accs.usdcMint) →
      k = rt.associatedTokenAddress authority mint ∧
        ∀ t, s.tokens k = some t → t.owner = authority := by
    rintro accs ctx hv (⟨rfl, rfl, rfl⟩ | ⟨rfl, rfl, rfl⟩)
    · exact ⟨hv.source_associated, howner hv.source hv.source_owner⟩
    · exact ⟨hv.destination_associated, howner hv.destination hv.destination_owner⟩
  cases h <;> simp only [Instruction.associated, List.mem_cons, List.not_mem_nil, or_false,
    Prod.mk.injEq] at hx
  case settlePayment hs =>
    obtain ⟨rfl, rfl, rfl⟩ := hx
    obtain ⟨t, ht, ho⟩ := hs.validates.source
    exact ⟨hs.validates.associated, howner ht ho⟩
  case withdrawFunds hd => exact hwithdraw hd.validates hx
  case withdrawAll hd => exact hwithdraw hd.validates hx
  case closeAgent hc =>
    obtain ⟨rfl, rfl, rfl⟩ := hx
    exact ⟨hc.associated, howner hc.token hc.token_owner⟩

theorem effect_owned (h : Effect rt now s s' i) {k : Pubkey} {w : AgentWallet Pubkey}
    (hk : i.ownedWallet = some k) (hw : s.wallet k = some w) : w.owner = i.signer := by
  have hsame : ∀ {k' v o}, s.wallet k' = some v → v.owner = o → some k' = some k → w.owner = o := by
    intro k' v o hv ho hk
    cases hk
    rw [hv] at hw
    cases hw
    exact ho
  cases h <;> simp only [Instruction.ownedWallet, reduceCtorEq] at hk
  case setSpendPolicy hp => exact hsame hp.wallet hp.owner hk
  case settlePayment hs => exact hsame hs.validates.wallet hs.validates.owner hk
  case recordPolicyViolation hs => exact hsame hs.validates.wallet hs.validates.owner hk
  case deactivateAgent ho he => exact hsame he.wallet ho hk
  case reactivateAgent ho he => exact hsame he.wallet ho hk
  case withdrawFunds hd => exact hsame hd.validates.wallet hd.validates.owner hk
  case withdrawAll hd => exact hsame hd.validates.wallet hd.validates.owner hk
  case transferOwnership ho _ _ he => exact hsame he.wallet ho hk
  case closeAgent hc => exact hsame hc.wallet hc.owner hk

theorem effect_admin (h : Effect rt now s s' i) {k : Pubkey} {c : ProtocolConfig Pubkey}
    (hk : i.adminConfig = some k) (hc : s.config k = some c) : c.admin = i.signer := by
  have hsame : ∀ {k' c' a}, s.config k' = some c' → c'.admin = a → some k' = some k →
      c.admin = a := by
    intro k' c' a hc' ha hk
    cases hk
    rw [hc'] at hc
    cases hc
    exact ha
  cases h <;> simp only [Instruction.adminConfig, reduceCtorEq] at hk
  case rotateProtocolAdmin _ hr => exact hsame hr.config hr.admin hk
  case updateProtocolConfig hr => exact hsame hr.config hr.admin hk
  case freezeAgent hc _ ha _ => exact hsame hc ha hk
  case unfreezeAgent hc _ ha _ => exact hsame hc ha hk

theorem effect_appointee (h : Effect rt now s s' i) : i.appointee ≠ some default := by
  intro hk
  cases h <;> simp only [Instruction.appointee, reduceCtorEq, Option.some.injEq] at hk
  case initProtocol hne _ => exact hne hk
  case rotateProtocolAdmin hne _ => exact hne hk
  case transferOwnership hne _ _ => exact hne hk

theorem effect_moved (h : Effect rt now s s' i) : i.moved s ≠ some 0 := by
  intro hk
  cases h <;> simp only [Instruction.moved, reduceCtorEq, Option.some.injEq] at hk
  case settlePayment hs => exact UInt64.pos_iff_ne_zero.mp hs.passed.amount hk
  case withdrawFunds hd => exact UInt64.pos_iff_ne_zero.mp hd.positive hk
  case withdrawAll hd =>
    rw [hd.validates.source, Option.map_some, Option.some.injEq] at hk
    exact UInt64.pos_iff_ne_zero.mp hd.positive hk

theorem effect_entry (h : Effect rt now s s' i) {k : Pubkey} {n : UInt64}
    {params : SettlePaymentParams Pubkey} (hk : i.entry = some (k, n, params)) :
    (params.protocol = 0 ∨ params.protocol = 1) ∧
      ∀ w, s.wallet k = some w → n = w.paymentSequence := by
  cases h <;> simp only [Instruction.entry, reduceCtorEq, Option.some.injEq, Prod.mk.injEq] at hk
  case settlePayment hs =>
    obtain ⟨rfl, rfl, rfl⟩ := hk
    refine ⟨fromDiscriminant_isSome.mp hs.passed.protocol, fun w hw => ?_⟩
    rw [hs.validates.wallet] at hw
    cases hw
    exact hs.passed.sequence
  case recordPolicyViolation hs =>
    obtain ⟨rfl, rfl, rfl⟩ := hk
    obtain ⟨protocol, hprotocol, _⟩ := hs.views
    refine ⟨fromDiscriminant_isSome.mp (by rw [hprotocol]; rfl), fun w hw => ?_⟩
    rw [hs.validates.wallet] at hw
    cases hw
    exact hs.sequence_eq

/-- The accounts between which tokens moved are thawed. -/
theorem effect_transfers (h : Effect rt now s s' i) {k : Pubkey} (hk : k ∈ i.transfers) :
    s.tokens.Thawed k := by
  have hmoved : ∀ {source destination authority amount tokens'},
      tokenTransfer source destination authority amount s.tokens = .ok tokens' →
      k = source ∨ k = destination → s.tokens.Thawed k := by
    intro source destination authority amount tokens' ht hk t hkt
    obtain ⟨src, dst, hsrc, hdst, ⟨hz, hz'⟩, _⟩ := tokenTransfer_eq_ok.mp ht
    rcases hk with rfl | rfl
    · obtain rfl := Option.some.inj (hkt.symm.trans hsrc)
      exact hz
    · obtain rfl := Option.some.inj (hkt.symm.trans hdst)
      exact hz'
  cases h <;> simp only [Instruction.transfers, List.mem_cons, List.not_mem_nil, or_false] at hk
  case settlePayment hs => exact hmoved hs.transfer hk
  case withdrawFunds hd => exact hmoved hd.transfer hk
  case withdrawAll hd => exact hmoved hd.transfer hk

omit [Inhabited Pubkey] in
theorem settled_paymentless {accs : SettlePayment Pubkey} {n : UInt64}
    {params : SettlePaymentParams Pubkey} {ctx : SettlePayment.Loaded Pubkey}
    {w : AgentWallet Pubkey} {p : SpendPolicy Pubkey} {e : ProgramError} (hwf : WellFormed rt s)
    (h : Settles rt now accs n params s s' ctx w p) : ¬ PaymentFault now s accs params e := by
  have hv := h.validates
  have hpassed := h.passed
  have hwallet : ∀ {v}, s.wallet accs.agentWallet = some v → v = ctx.wallet :=
    fun hw => Option.some.inj (hw.symm.trans hv.wallet)
  intro hf
  cases hf with
  | cap hc hpos hlt =>
    obtain rfl := Option.some.inj (hc.symm.trans hv.config)
    exact UInt64.not_le.mpr hlt (hpassed.cap hpos)
  | notActive hw hinactive =>
    obtain rfl := hwallet hw
    exact Bool.false_ne_true (hinactive.symm.trans hpassed.active)
  | frozen hw hfrozen =>
    obtain rfl := hwallet hw
    exact Bool.false_ne_true (hpassed.not_frozen.symm.trans hfrozen)
  | overflow horizon hw hover =>
    obtain rfl := hwallet hw
    obtain ⟨a, b, hd, hwk, hm⟩ := hpassed.reset
    obtain ⟨_, hda, ha⟩ := bind_eq_ok.mp hd
    obtain ⟨_, hwb, hb⟩ := bind_eq_ok.mp hwk
    obtain ⟨_, hmc, _⟩ := bind_eq_ok.mp hm
    cases ha
    cases hb
    cases horizon with
    | daily => exact window_fits hda hover
    | weekly => exact window_fits hwb hover
    | monthly => exact window_fits hmc hover
  | policy hw hp henforce hfault =>
    obtain rfl := hwallet hw
    obtain rfl := Option.some.inj (hp.symm.trans hv.policy)
    exact not_policyFault (passed_resets hpassed) (hpassed.enforced henforce) hfault
  | insufficientFunds ht hlt =>
    obtain ⟨src, _, hsrc, _, _, hle, _⟩ := tokenTransfer_eq_ok.mp h.transfer
    obtain rfl := Option.some.inj (ht.symm.trans hsrc)
    exact UInt64.not_le.mpr hlt hle
  | mint ht hne =>
    obtain ⟨src, dst, hsrc, hdst, _, _, hsame, _⟩ := tokenTransfer_eq_ok.mp h.transfer
    obtain rfl := Option.some.inj (ht.symm.trans hdst)
    exact hne (hsame.symm.trans (associated_source hwf.lawful hv.associated hsrc))

/-- A successful instruction has no fault. -/
theorem effect_faultless {e : ProgramError} (hwf : WellFormed rt s)
    (hsign : rt.canSign i.signer = true) (h : Effect rt now s s' i) : ¬ Fault rt now s i e := by
  intro hf
  cases hf with
  | notSigned hno => exact Bool.false_ne_true (hno.symm.trans hsign)
  | missing ha hmissing => exact (present_sound (effect_loads h _ ha)).1 hmissing
  | foreign ha hforeign => exact (present_sound (effect_loads h _ ha)).2 hforeign
  | occupied hi hforeign =>
    subst hi
    cases h with
    | setSpendPolicy hp =>
      rcases hp.free_or_policy with hfree | ⟨p, hp⟩
      · exact hforeign.1 hfree
      · exact Option.some_ne_none p (hp.symm.trans hforeign.2)
  | inUse hk hused => exact hused (effect_inits h _ hk)
  | tokenInUse hi hused =>
    subst hi
    cases h with
    | registerAgent hr => exact hused hr.token_free
  | tokenAddress hi hne =>
    subst hi
    cases h with
    | registerAgent hr => exact hne hr.associated
  | longSeed hi hlong =>
    subst hi
    cases h with
    | registerAgent hr =>
      have hfits := of_decide_eq_true (rt.create_fits (rt.find_create hr.addr))
      omega
  | tokenFrozen hk hheld => exact hheld (effect_transfers h hk)
  | seeds hx hnone =>
    obtain ⟨bump, hfind⟩ := effect_derived hwf h hx
    exact hnone bump hfind
  | tokenOwner hx ht hne => exact hne ((effect_associated h hx).2 _ ht)
  | associated hx hne => exact hne (effect_associated h hx).1
  | notOwner hk hw hne => exact hne (effect_owned h hk hw)
  | notAdmin hk hc hne => exact hne (effect_admin h hk hc)
  | invalidOwner hk => exact effect_appointee h hk
  | ownerUnchanged hi hw he =>
    subst hi
    cases h with
    | transferOwnership _ _ hne hedit =>
      obtain rfl := Option.some.inj (hw.symm.trans hedit.wallet)
      exact hne he
  | idLength hi hlength =>
    subst hi
    cases h with
    | registerAgent hr =>
      rcases hlength with hnil | hlong
      · exact hr.id_length.1 hnil
      · exact absurd hr.id_length.2 (not_le.mpr hlong)
  | idBytes hi hb hbyte =>
    subst hi
    cases h with
    | registerAgent hr =>
      exact Bool.false_ne_true (hbyte.symm.trans (List.all_eq_true.mp hr.id_bytes _ hb))
  | domainList hi hfull =>
    subst hi
    cases h with
    | setSpendPolicy hp =>
      rcases hfull with hlong | hlong
      · exact absurd hp.allowed_len (not_le.mpr hlong)
      · exact absurd hp.blocked_len (not_le.mpr hlong)
  | zeroAmount hzero => exact effect_moved h hzero
  | protocol hk h0 h1 => exact (effect_entry h hk).1.elim h0 h1
  | sequence hk hw hne => exact hne ((effect_entry h hk).2 _ hw)
  | payment hi hfault =>
    subst hi
    cases h with
    | settlePayment hs => exact settled_paymentless hwf hs hfault
  | insufficientFunds hi ht hlt =>
    subst hi
    cases h with
    | withdrawFunds hd =>
      obtain ⟨src, _, hsrc, _, _, hle, _⟩ := tokenTransfer_eq_ok.mp hd.transfer
      obtain rfl := Option.some.inj (ht.symm.trans hsrc)
      exact UInt64.not_le.mpr hlt hle
  | stillActive hi hw hactive =>
    subst hi
    cases h with
    | closeAgent hc =>
      obtain rfl := Option.some.inj (hw.symm.trans hc.wallet)
      exact Bool.false_ne_true (hc.inactive.symm.trans hactive)
  | notEmpty hi ht hne =>
    subst hi
    cases h with
    | closeAgent hc =>
      obtain rfl := Option.some.inj (ht.symm.trans hc.token)
      exact hne hc.empty

end Succeeds

/-! ## 2. Errors are exactly the faults -/

/-- The errors that no state the program comes to raises. The last two are its own. -/
def unraised : List ProgramError :=
  [.accountDidNotDeserialize, .privilegeEscalation, .constraintRaw, .tokenOwnerMismatch,
    .tokenOverflow, .maxim .parentAgentMismatch, .maxim .protocolAlreadyInitialised]

omit [DecidableEq Pubkey] in
theorem fault_raised {rt : Runtime Pubkey} {s : World Pubkey} {now : Int64}
    {i : Instruction Pubkey} {e : ProgramError} (h : Fault rt now s i e) : e ∉ unraised := by
  unfold unraised
  cases h with
  | payment _ hf =>
    cases hf with
    | policy _ _ _ hf =>
      cases hf with
      | budget horizon => cases horizon <;> simp [Horizon.exceeded]
      | _ => simp
    | _ => simp
  | _ => simp

/-- **Errors are faults, and faults are errors.** In every reachable state an instruction that
fails fails with one of its faults, and it succeeds exactly when it has none. -/
theorem faults_exact {rt : Runtime Pubkey} {s : World Pubkey} (h : Reachable rt s) (now : Int64)
    (i : Instruction Pubkey) :
    (∀ e, execute rt now i s = .error e → Fault rt now s i e ∧ e ∉ unraised) ∧
      ((∃ r, execute rt now i s = .ok r) ↔ ∀ e, ¬ Fault rt now s i e) := by
  have hwf := reachable_wellFormed h
  refine ⟨fun e he => ?_, ?_, fun hnone => ?_⟩
  · have hfault := execute_faults hwf e he
    exact ⟨hfault, fault_raised hfault⟩
  · rintro ⟨⟨s', ev⟩, hok⟩ e
    obtain ⟨hsign, heffect⟩ := execute_effect hok
    exact effect_faultless hwf hsign heffect
  · cases hresult : execute rt now i s with
    | ok r => exact ⟨r, rfl⟩
    | error e => exact absurd (execute_faults hwf e hresult) (hnone e)

/-- A settlement under a sequence that is taken. -/
theorem faults_exact_opening :
    Fault Key.runtime 400 (submitAll Key.runtime Demo.chain Demo.opening)
      (Demo.settle Demo.alice Demo.owner 3 (Demo.mint 1) (.associated Demo.payee (Demo.mint 1)) 5
        400).2 (.maxim .sequenceMismatch) :=
  ((faults_exact (Demo.reachable_chain Demo.opening) 400 _).1 _ rfl).1

end MaximProtocol
