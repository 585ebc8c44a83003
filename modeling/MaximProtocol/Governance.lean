import MaximProtocol.Authority
import MaximProtocol.Library.Projection

/-!
# The protocol configuration over a run

The configuration is a singleton that three instructions write.

`config_history`: it is created at most once; at every moment it is what the accepted admin
instructions made it, in their order; these were signed by the admin of the moment; and every
settlement kept to the cap that was set last.
-/

namespace MaximProtocol

open MachineInt World Transitions

variable {Pubkey : Type}

/-! ## 1. Changes of the configuration -/

inductive ConfigChange (Pubkey : Type) where
  | initialised (admin : Pubkey)
  | rotated (newAdmin : Pubkey)
  | capped (maxSinglePaymentUsdc : UInt64)

/-- The change that a transition makes to the configuration. -/
def configChange (x : Transition (World Pubkey) (Action Pubkey)) : Option (ConfigChange Pubkey) :=
  match x.label with
  | .accepted _ (.initProtocol _ admin) => some (.initialised admin)
  | .accepted _ (.rotateProtocolAdmin _ newAdmin) => some (.rotated newAdmin)
  | .accepted _ (.updateProtocolConfig _ cap) => some (.capped cap)
  | _ => none

/-- The configuration after a change. -/
def amend (bump : UInt8) (c : Option (ProtocolConfig Pubkey)) :
    ConfigChange Pubkey → Option (ProtocolConfig Pubkey)
  | .initialised admin =>
      some { admin := admin, version := PROGRAM_VERSION, maxSinglePaymentUsdc := 0, bump := bump }
  | .rotated newAdmin => c.map fun c => { c with admin := newAdmin }
  | .capped cap => c.map fun c => { c with maxSinglePaymentUsdc := cap }

/-- The transition initialises the protocol. -/
def Initialises (x : Transition (World Pubkey) (Action Pubkey)) : Prop :=
  ∃ accs admin, Accepts x (.initProtocol accs admin)

/-! ## 2. One step -/

variable [DecidableEq Pubkey] [Inhabited Pubkey] {rt : Runtime Pubkey} {s s' : World Pubkey}
variable {x : Transition (World Pubkey) (Action Pubkey)} {tr : Trace Pubkey} {now : Int64}
variable {i : Instruction Pubkey} {a k : Pubkey} {bump : UInt8}

/-- What one step can do to the configurations. -/
inductive ConfigStep (rt : Runtime Pubkey) (s : World Pubkey) :
    Action Pubkey → World Pubkey → Prop
  | initialised {s' : World Pubkey} {now : Int64} {accs : InitProtocol Pubkey} {admin : Pubkey}
      {bump : UInt8} : rt.findProgramAddress .protocolConfig = some (accs.protocolConfig, bump) →
      s.Free accs.protocolConfig → admin ≠ default →
      s'.config = Function.update s.config accs.protocolConfig
        (some { admin := admin, version := PROGRAM_VERSION, maxSinglePaymentUsdc := 0
                bump := bump }) →
      ConfigStep rt s (.accepted now (.initProtocol accs admin)) s'
  | rotated {s' : World Pubkey} {now : Int64} {accs : RotateProtocolAdmin Pubkey}
      {newAdmin : Pubkey} {c : ProtocolConfig Pubkey} : newAdmin ≠ default →
      Configures rt accs.protocolConfig accs.admin s s' c { c with admin := newAdmin } →
      ConfigStep rt s (.accepted now (.rotateProtocolAdmin accs newAdmin)) s'
  | capped {s' : World Pubkey} {now : Int64} {accs : UpdateProtocolConfig Pubkey} {cap : UInt64}
      {c : ProtocolConfig Pubkey} :
      Configures rt accs.protocolConfig accs.admin s s' c { c with maxSinglePaymentUsdc := cap } →
      ConfigStep rt s (.accepted now (.updateProtocolConfig accs cap)) s'
  | untouched {act : Action Pubkey} {s' : World Pubkey} : configChange ⟨s, act, s'⟩ = none →
      s'.config = s.config → ConfigStep rt s act s'

theorem configStep {act : Action Pubkey} (h : Step rt s act s') : ConfigStep rt s act s' := by
  cases h with
  | rejected _ => exact .untouched rfl rfl
  | outside h => exact .untouched rfl (outside_views h).config
  | accepted h =>
    cases (execute_effect h).2 with
    | initProtocol addr free valid hv => exact .initialised addr free valid hv.config
    | rotateProtocolAdmin valid hc => exact .rotated valid hc
    | updateProtocolConfig hc => exact .capped hc
    | registerAgent hr => exact .untouched rfl hr.views.config
    | setSpendPolicy hp => exact .untouched rfl hp.views.config
    | settlePayment hs =>
      obtain ⟨_, hv⟩ := hs.views
      exact .untouched rfl hv.config
    | recordPolicyViolation hs =>
      obtain ⟨_, _, hv⟩ := hs.views
      exact .untouched rfl hv.config
    | deactivateAgent _ he => exact .untouched rfl he.views.config
    | reactivateAgent _ he => exact .untouched rfl he.views.config
    | freezeAgent _ _ _ he => exact .untouched rfl he.views.config
    | unfreezeAgent _ _ _ he => exact .untouched rfl he.views.config
    | withdrawFunds hd => exact .untouched rfl hd.views.config
    | withdrawAll hd => exact .untouched rfl hd.views.config
    | transferOwnership _ _ _ he => exact .untouched rfl he.views.config
    | closeAgent hc => exact .untouched rfl hc.views.config

/-- An account that is read as the configuration is at its address. -/
theorem config_address {c : ProtocolConfig Pubkey} (hreach : Reachable rt s)
    (ha : rt.findProgramAddress .protocolConfig = some (a, bump)) (hc : s.config k = some c) :
    k = a := by
  have hfind := (reachable_wellFormed hreach).config hc
  rw [ha] at hfind
  cases hfind
  rfl

/-- The configuration is changed as the transition says. -/
theorem config_step (hreach : Reachable rt x.pre) (hs : Step rt x.pre x.label x.post)
    (ha : rt.findProgramAddress .protocolConfig = some (a, bump)) :
    x.post.config a = project configChange (amend bump) (x.pre.config a) [x] := by
  rw [project_single]
  obtain ⟨s, act, s'⟩ := x
  cases configStep hs with
  | initialised addr _ _ hv =>
    rw [ha] at addr
    cases addr
    show s'.config _ = _
    rw [hv, Function.update_self]
    rfl
  | rotated _ hc =>
    obtain rfl := config_address hreach ha hc.config
    show s'.config _ = _
    rw [hc.views.config, Function.update_self, hc.config]
    rfl
  | capped hc =>
    obtain rfl := config_address hreach ha hc.config
    show s'.config _ = _
    rw [hc.views.config, Function.update_self, hc.config]
    rfl
  | untouched hnone hsame =>
    rw [hnone, Option.map_none, Option.getD_none]
    exact congrFun hsame a

/-- Every configuration is as `init_protocol` made it, up to its admin and its cap. -/
structure SoundConfig (rt : Runtime Pubkey) (a : Pubkey) (c : ProtocolConfig Pubkey) : Prop where
  address : rt.findProgramAddress .protocolConfig = some (a, c.bump)
  version : c.version = PROGRAM_VERSION
  admin : c.admin ≠ default

theorem soundConfig_step {act : Action Pubkey} {c : ProtocolConfig Pubkey}
    (hs : Step rt s act s') (hI : ∀ {k c}, s.config k = some c → SoundConfig rt k c)
    (hc : s'.config k = some c) : SoundConfig rt k c := by
  cases configStep hs with
  | initialised addr _ valid hv =>
    rw [hv] at hc
    exact forall_update hI ⟨addr, rfl, valid⟩ hc
  | @rotated _ _ _ newAdmin c₀ valid hr =>
    have hold := hI hr.config
    have hnew : SoundConfig rt _ { c₀ with admin := newAdmin } :=
      ⟨hold.address, hold.version, valid⟩
    rw [hr.views.config] at hc
    exact forall_update hI hnew hc
  | @capped _ _ _ cap c₀ hr =>
    have hold := hI hr.config
    have hnew : SoundConfig rt _ { c₀ with maxSinglePaymentUsdc := cap } :=
      ⟨hold.address, hold.version, hold.admin⟩
    rw [hr.views.config] at hc
    exact forall_update hI hnew hc
  | untouched _ hsame =>
    rw [hsame] at hc
    exact hI hc

theorem reachable_soundConfig {c : ProtocolConfig Pubkey} (h : Reachable rt s)
    (hc : s.config k = some c) : SoundConfig rt k c := by
  refine reachable_invariant (I := fun s => ∀ k c, s.config k = some c → SoundConfig rt k c) h
    (fun s h0 k c hc => ?_) (fun s _ s' _ hs hI k c hc => ?_) k c hc
  · rw [(free_iff.mp (h0.accounts k)).1] at hc
    cases hc
  · exact soundConfig_step hs (fun {k c} => hI k c) hc

/-- The configuration is never removed. -/
theorem config_stays (hr : Reaches rt s tr s') (hc : s.config a ≠ none) : s'.config a ≠ none := by
  refine run_preserves (I := fun s => s.config a ≠ none) hr hc fun x _ hs hI => ?_
  obtain ⟨c, hc⟩ := Option.ne_none_iff_exists'.mp hI
  rcases config_by_admin hs hc with hsame | ⟨_, hsome⟩
  · rw [hsame]
    exact Option.some_ne_none c
  · exact hsome

/-! ## 3. The whole history -/

/-- The configuration that the changes in a run from the beginning give. -/
def configAfter (bump : UInt8) (tr : Trace Pubkey) : Option (ProtocolConfig Pubkey) :=
  project configChange (amend bump) none tr

structure ConfigHistory (rt : Runtime Pubkey) (a : Pubkey) (bump : UInt8) (tr : Trace Pubkey)
    (s' : World Pubkey) : Prop where
  /-- At every moment the configuration is what its changes made it. -/
  current : s'.config a = configAfter bump tr
  only : ∀ {k c}, s'.config k = some c → k = a ∧ SoundConfig rt a c
  once : tr.Pairwise fun x y => ¬ (Initialises x ∧ Initialises y)
  /-- The first change creates it, the others are signed by the admin of the moment. -/
  authorised : ∀ {l x m ch}, tr = l ++ x :: m → configChange x = some ch →
    ((∃ admin, ch = .initialised admin) ∧ configAfter bump l = none) ∨
      ∃ c, configAfter bump l = some c ∧ SignedBy c.admin x
  /-- Wallets are frozen and unfrozen by the admin of the moment. -/
  froze : ∀ {l x m accs}, tr = l ++ x :: m →
    Accepts x (.freezeAgent accs) ∨ Accepts x (.unfreezeAgent accs) →
    ∃ c, configAfter bump l = some c ∧ c.admin = accs.admin
  /-- A settlement keeps to the cap that was set last. -/
  capped : ∀ {l x m accs n params}, tr = l ++ x :: m →
    Accepts x (.settlePayment accs n params) →
    ∃ c, configAfter bump l = some c ∧
      (0 < c.maxSinglePaymentUsdc → params.amountUsdc ≤ c.maxSinglePaymentUsdc)

/-- The configuration in the final state of a run from the beginning. -/
theorem config_current (h0 : Genesis rt s) (hr : Reaches rt s tr s')
    (ha : rt.findProgramAddress .protocolConfig = some (a, bump)) :
    s'.config a = configAfter bump tr := by
  obtain ⟨_, hproject⟩ := run_projects (fun s => s.config a) (I := Reachable rt) hr
    (reachable_init h0) fun x _ hs hI => ⟨reachable_step hI hs, config_step hI hs ha⟩
  rw [(free_iff.mp (h0.accounts a)).1] at hproject
  exact hproject

/-- Whatever account is read as the configuration is the one the changes gave. -/
theorem config_loaded {c : ProtocolConfig Pubkey} (h0 : Genesis rt s) (hr : Reaches rt s tr s')
    (ha : rt.findProgramAddress .protocolConfig = some (a, bump)) (hc : s'.config k = some c) :
    configAfter bump tr = some c := by
  obtain rfl := config_address (reachable_run (reachable_init h0) hr) ha hc
  exact (config_current h0 hr ha).symm.trans hc

/-- **The configuration over a run.** -/
theorem config_history (h0 : Genesis rt s) (hr : Reaches rt s tr s')
    (ha : rt.findProgramAddress .protocolConfig = some (a, bump)) :
    ConfigHistory rt a bump tr s' where
  current := config_current h0 hr ha
  only {k c} hc := by
    have hreach := reachable_run (reachable_init h0) hr
    obtain rfl := config_address hreach ha hc
    exact ⟨rfl, reachable_soundConfig hreach hc⟩
  once := by
    refine run_pairwise hr ?_
    rintro x m y hx hm hy ⟨⟨accs, admin, now, hlx⟩, accs', admin', now', hly⟩
    rw [hlx] at hx
    rw [hly] at hy
    cases (step_effect hx).2 with
    | initProtocol addr _ _ hv =>
      cases (step_effect hy).2 with
      | initProtocol addr' free _ _ =>
        have hsame : accs.protocolConfig = accs'.protocolConfig := by
          rw [addr] at addr'
          exact (Prod.mk.inj (Option.some.inj addr')).1
        refine config_stays hm ?_ (free_iff.mp free).1
        rw [hv.config, hsame, Function.update_self]
        exact Option.some_ne_none _
  authorised := by
    rintro l x m ch rfl hch
    obtain ⟨hl, hs, _⟩ := run_middle hr
    obtain ⟨v, act, v'⟩ := x
    cases configStep hs with
    | initialised addr free _ _ =>
      rw [ha] at addr
      cases addr
      cases hch
      have hcurrent := config_current h0 hl ha
      rw [(free_iff.mp free).1] at hcurrent
      exact .inl ⟨⟨_, rfl⟩, hcurrent.symm⟩
    | rotated _ hc =>
      exact .inr ⟨_, config_loaded h0 hl ha hc.config, _, _, rfl, hc.admin.symm⟩
    | capped hc =>
      exact .inr ⟨_, config_loaded h0 hl ha hc.config, _, _, rfl, hc.admin.symm⟩
    | untouched hnone _ =>
      rw [hnone] at hch
      cases hch
  froze := by
    rintro l x m accs rfl hx
    obtain ⟨hl, hs, _⟩ := run_middle hr
    rcases hx with ⟨now, hx⟩ | ⟨now, hx⟩
    · rw [hx] at hs
      cases (step_effect hs).2 with
      | freezeAgent hc _ hadmin _ => exact ⟨_, config_loaded h0 hl ha hc, hadmin⟩
    · rw [hx] at hs
      cases (step_effect hs).2 with
      | unfreezeAgent hc _ hadmin _ => exact ⟨_, config_loaded h0 hl ha hc, hadmin⟩
  capped := by
    rintro l x m accs n params rfl ⟨now, hx⟩
    obtain ⟨hl, hs, _⟩ := run_middle hr
    rw [hx] at hs
    cases (step_effect hs).2 with
    | settlePayment h =>
      exact ⟨_, config_loaded h0 hl ha h.validates.config, h.passed.cap⟩

theorem config_history_opening :
    ConfigHistory Key.runtime .protocolConfig 255 (replay Key.runtime Demo.chain Demo.opening)
      (submitAll Key.runtime Demo.chain Demo.opening) :=
  config_history Demo.genesis_chain (replay_reaches Key.runtime Demo.chain Demo.opening) rfl

end MaximProtocol
