import MaximProtocol.Entrypoint

/-!
# Account lists

A raw instruction lists the accounts it uses and marks those it may write. The contexts of
the program keep the handlers to that list.

1. `accounts_declared`: a raw instruction reads what it lists, and writes what it marks;
2. `schedules_agree`: the order of raw instructions matters only where one may write what
   another lists.
-/

namespace MaximProtocol

open MachineInt World Transitions Interleaving Codecs

variable {τ Pubkey : Type}

/-! ## 1. Raw instructions -/

/-- The accounts that a raw instruction lists. -/
def RawInstruction.listed (raw : RawInstruction τ Pubkey) : List Pubkey :=
  raw.accounts.map AccountMeta.pubkey

/-- The accounts that it marks as writable. -/
def RawInstruction.writable (raw : RawInstruction τ Pubkey) : List Pubkey :=
  (raw.accounts.filter AccountMeta.isWritable).map AccountMeta.pubkey

section Lists

variable [DecidableEq Pubkey] {roles : List (Role Pubkey)} {metas : List (AccountMeta Pubkey)}
variable {keys : List Pubkey}

theorem takeAccounts_listed (h : takeAccounts roles metas = some keys) :
    keys ⊆ metas.map AccountMeta.pubkey := by
  induction roles generalizing metas keys with
  | nil =>
    cases h
    exact List.nil_subset _
  | cons r roles ih =>
    obtain ⟨m, rest, keys', rfl, _, hrest, rfl⟩ := takeAccounts_cons h
    refine List.append_subset.mpr ⟨fun k hk => ?_, fun k hk => ?_⟩
    · cases r <;> simp [Role.key?] at hk <;> simp [hk]
    · exact List.mem_cons_of_mem _ (ih hrest hk)

/-- The key in a writable field is marked as writable. -/
theorem writable_marked (h : takeAccounts roles metas = some keys) :
    writableKeys roles keys ⊆ (metas.filter AccountMeta.isWritable).map AccountMeta.pubkey := by
  induction roles generalizing metas keys with
  | nil => cases keys <;> exact List.nil_subset _
  | cons r roles ih =>
    obtain ⟨m, rest, keys', rfl, hm, hrest, rfl⟩ := takeAccounts_cons h
    have hlater : writableKeys roles keys' ⊆
        ((m :: rest).filter AccountMeta.isWritable).map AccountMeta.pubkey :=
      List.Subset.trans (ih hrest)
        (((List.sublist_cons_self m rest).filter _).map AccountMeta.pubkey).subset
    have hhere : m.isWritable = true →
        m.pubkey ∈ ((m :: rest).filter AccountMeta.isWritable).map AccountMeta.pubkey :=
      fun hw => List.mem_map_of_mem (List.mem_filter.mpr ⟨List.mem_cons_self, hw⟩)
    cases r with
    | fixed k => exact hlater
    | account writable =>
      cases writable with
      | false => exact hlater
      | true => exact List.cons_subset.mpr ⟨hhere hm, hlater⟩
    | signer writable =>
      cases writable with
      | false => exact hlater
      | true => exact List.cons_subset.mpr ⟨hhere (Bool.and_eq_true_iff.mp hm).2, hlater⟩

end Lists

section Process

variable [DecidableEq Pubkey] [Inhabited Pubkey] [Alphabet τ] {key : Codec τ Pubkey}
variable {ms : MethodDiscriminators} {ps : Programs Pubkey} {rt : Runtime Pubkey}
variable {s s' t : World Pubkey} {now : Int64} {raw : RawInstruction τ Pubkey}

theorem process_local (h : ∀ k ∈ raw.listed, s.held k = t.held k) :
    Paired (SameOutcome s t) (process key ms ps rt now raw s) (process key ms ps rt now raw t) := by
  unfold process
  refine paired_after _ fun _ => paired_after _ fun _ => paired_after _ fun call =>
    paired_after_ok fun keys hkeys => paired_after_ok fun i hi => ?_
  obtain ⟨_, rfl⟩ := instruction_eq_some.mp (orFail_eq_ok.mp hi)
  have hlocal : Paired (SameOutcome s t) (handle rt now i s) (handle rt now i t) :=
    handle_local fun k hk => h k (takeAccounts_listed (orFail_eq_ok.mp hkeys) hk)
  cases hs : handle rt now i s <;> cases ht : handle rt now i t <;> rw [hs, ht] at hlocal
  · exact congrArg EntryError.program hlocal
  · cases hlocal
  · cases hlocal
  · exact hlocal

theorem process_frame {ev : Option (Event Pubkey)} {k : Pubkey}
    (h : process key ms ps rt now raw s = .ok (s', ev)) (hk : k ∉ raw.writable) :
    s'.held k = s.held k := by
  obtain ⟨_, i, hencodes, h⟩ := process_eq_ok.mp h
  exact handle_frame ps (execute_eq_ok.mp h).2 fun hmem =>
    hk (writable_marked hencodes.accounts hmem)

end Process

/-! ## 2. Schedules -/

section Schedules

variable [DecidableEq Pubkey] [Inhabited Pubkey] [Alphabet τ]

/-- The chain as a machine whose labels are raw instructions with their clock readings. An
instruction that fails, or is for the IDL, leaves the state as it is. -/
def entryMachine (key : Codec τ Pubkey) (ms : MethodDiscriminators) (ps : Programs Pubkey)
    (rt : Runtime Pubkey) : Machine (World Pubkey) (Int64 × RawInstruction τ Pubkey)
      (Except EntryError (Option (Event Pubkey))) where
  next s x :=
    match process key ms ps rt x.1 x.2 s with
    | .ok r => r.1
    | .error _ => s
  outcome s x := (process key ms ps rt x.1 x.2 s).map Prod.snd

variable {key : Codec τ Pubkey} {ms : MethodDiscriminators} {ps : Programs Pubkey}
variable {rt : Runtime Pubkey} {l l' : List (Int64 × RawInstruction τ Pubkey)}

/-- A submission, as a client sends it. -/
def rawOf (key : Codec τ Pubkey) (ms : MethodDiscriminators) (ps : Programs Pubkey)
    (x : Submission Pubkey) : Int64 × RawInstruction τ Pubkey :=
  (x.1, x.2.build key ms ps)

/-- Neither may write an account that the other lists. -/
def Separate : Int64 × RawInstruction τ Pubkey → Int64 × RawInstruction τ Pubkey → Prop :=
  Apart (fun x => x.2.listed) (fun x => x.2.writable)

theorem entry_cases (s : World Pubkey) (x : Int64 × RawInstruction τ Pubkey) :
    (∃ r, process key ms ps rt x.1 x.2 s = .ok r ∧ (entryMachine key ms ps rt).next s x = r.1) ∨
      ∃ e, process key ms ps rt x.1 x.2 s = .error e ∧
        (entryMachine key ms ps rt).next s x = s := by
  unfold entryMachine
  dsimp only
  cases process key ms ps rt x.1 x.2 s with
  | ok r => exact .inl ⟨r, rfl, rfl⟩
  | error e => exact .inr ⟨e, rfl, rfl⟩

theorem entry_accepted {s s' : World Pubkey} {x : Int64 × RawInstruction τ Pubkey}
    {ev : Option (Event Pubkey)} (h : process key ms ps rt x.1 x.2 s = .ok (s', ev)) :
    (entryMachine key ms ps rt).next s x = s' ∧
      (entryMachine key ms ps rt).outcome s x = .ok ev := by
  unfold entryMachine
  dsimp only
  rw [h]
  exact ⟨rfl, rfl⟩

theorem entry_next {s t : World Pubkey} {x : Int64 × RawInstruction τ Pubkey} {k : Pubkey}
    (h : ∀ k ∈ x.2.listed, s.held k = t.held k) (hk : s.held k = t.held k) :
    ((entryMachine key ms ps rt).next s x).held k =
      ((entryMachine key ms ps rt).next t x).held k := by
  have hlocal : Paired (SameOutcome s t) (process key ms ps rt x.1 x.2 s)
      (process key ms ps rt x.1 x.2 t) := process_local h
  rcases entry_cases s x with ⟨r, hs, hnext⟩ | ⟨e, hs, hnext⟩ <;>
    rcases entry_cases t x with ⟨r', ht, hnext'⟩ | ⟨e', ht, hnext'⟩ <;>
    rw [hs, ht] at hlocal <;> rw [hnext, hnext']
  · exact hlocal.held k hk
  · cases hlocal
  · cases hlocal
  · exact hk

/-- **What is listed is what matters.** At one reading of the clock, what a raw instruction does
to the accounts it lists, and the event or error it ends with, depend on these accounts alone;
and it changes no account that it does not mark as writable. -/
theorem accounts_declared :
    Footprint (entryMachine key ms ps rt) World.held (fun x => x.2.listed)
      (fun x => x.2.writable) where
  ext := held_injective
  subset x k hk := by
    obtain ⟨m, hm, rfl⟩ := List.mem_map.mp hk
    exact List.mem_map_of_mem (List.mem_filter.mp hm).1
  frame s x k hk := by
    rcases entry_cases s x with ⟨r, h, hnext⟩ | ⟨e, h, hnext⟩ <;> rw [hnext]
    exact process_frame h hk
  next h k hk := entry_next h (h k hk)
  outcome h := paired_map (process_local h) fun _ _ hr => hr.event

/-- Every list of raw instructions is a run of the entrypoint. -/
theorem entry_runs (l : List (Int64 × RawInstruction τ Pubkey)) (s : World Pubkey) :
    ∃ tr, Run (EntryStep key ms ps rt) s tr ((entryMachine key ms ps rt).run s l) := by
  induction l generalizing s with
  | nil => exact ⟨[], .nil s⟩
  | cons x l ih =>
    obtain ⟨tr, htr⟩ := ih ((entryMachine key ms ps rt).next s x)
    have hstep : ∃ a, EntryStep key ms ps rt s a ((entryMachine key ms ps rt).next s x) := by
      rcases entry_cases s x with ⟨r, h, hnext⟩ | ⟨e, h, hnext⟩ <;> rw [hnext]
      · exact ⟨_, .accepted h⟩
      · by_cases he : e = .idl
        · subst he
          exact ⟨_, .idl h⟩
        · exact ⟨_, .rejected h he⟩
    obtain ⟨a, ha⟩ := hstep
    exact ⟨_, run_append (run_single ha) htr⟩

/-- **Only conflicts are ordered.** If two orders of the same raw instructions agree on any
two of which one may write what the other lists, they lead to the same state, and every
instruction ends with the same event or error. -/
theorem schedules_agree (h : SameOrder Separate l l') (s : World Pubkey) :
    (entryMachine key ms ps rt).run s l = (entryMachine key ms ps rt).run s l' ∧
      ((entryMachine key ms ps rt).log s l).Perm ((entryMachine key ms ps rt).log s l') :=
  schedule_unique accounts_declared h s

namespace Demo

def raw (x : Submission Key) : Int64 × RawInstruction (Spelling Key 32) Key :=
  rawOf keys methods programs x

def aliceLeaves : List (Int64 × RawInstruction (Spelling Key 32) Key) :=
  [raw (violate alice owner 0 200), raw (deactivate alice owner 210)]

def bobLimits : Int64 × RawInstruction (Spelling Key 32) Key := raw (setPolicy bob stranger 0 0 205)

theorem bobLimits_separate : ∀ y ∈ aliceLeaves, Separate bobLimits y :=
  List.forall_mem_cons.mpr ⟨⟨by decide, by decide⟩,
    List.forall_mem_cons.mpr ⟨⟨by decide, by decide⟩, fun _ h => nomatch h⟩⟩

end Demo

theorem schedules_agree_neighbours :
    (entryMachine Demo.keys Demo.methods Demo.programs Key.runtime).run Demo.neighbours
        (Demo.bobLimits :: Demo.aliceLeaves) =
      (entryMachine Demo.keys Demo.methods Demo.programs Key.runtime).run Demo.neighbours
        (Demo.aliceLeaves ++ [Demo.bobLimits]) ∧
    ((entryMachine Demo.keys Demo.methods Demo.programs Key.runtime).log Demo.neighbours
        (Demo.bobLimits :: Demo.aliceLeaves)).Perm
      ((entryMachine Demo.keys Demo.methods Demo.programs Key.runtime).log Demo.neighbours
        (Demo.aliceLeaves ++ [Demo.bobLimits])) :=
  schedules_agree (sameOrder_of_reordered (fun _ _ => apart_symm)
    (reordered_front Demo.bobLimits_separate)) Demo.neighbours

/-- **A batch without conflicts.** Each of its raw instructions ends as it would alone, and
leaves the accounts it may write as it would alone; the others stay as they were. -/
theorem batch_alone (h : l.Pairwise Separate) (s : World Pubkey) :
    (entryMachine key ms ps rt).outcomes s l = l.map ((entryMachine key ms ps rt).outcome s) ∧
      (∀ x ∈ l, ∀ k ∈ x.2.writable, ((entryMachine key ms ps rt).run s l).held k =
        ((entryMachine key ms ps rt).next s x).held k) ∧
      ∀ k, (∀ x ∈ l, k ∉ x.2.writable) →
        ((entryMachine key ms ps rt).run s l).held k = s.held k :=
  ⟨outcomes_apart accounts_declared h, fun _ hx _ hk => run_apart accounts_declared h hx hk,
    fun _ hk => run_frame accounts_declared hk⟩

/-- Both neighbours may pay. -/
def Demo.readyNeighbours : World Key :=
  submitAll Key.runtime neighbours [setPolicy alice owner 0 0 200, setPolicy bob stranger 0 0 210]

/-- The two payments share the mint and the configuration, which neither may write. -/
def Demo.twoPayments : List (Int64 × RawInstruction (Spelling Key 32) Key) :=
  [raw (settle alice owner 0 (mint 1) (.associated payee (mint 1)) 70 220),
    raw (settle bob stranger 0 (mint 1) (.associated stranger (mint 1)) 40 230)]

theorem batch_alone_payments :
    (entryMachine Demo.keys Demo.methods Demo.programs Key.runtime).outcomes Demo.readyNeighbours
        Demo.twoPayments =
      Demo.twoPayments.map ((entryMachine Demo.keys Demo.methods Demo.programs
        Key.runtime).outcome Demo.readyNeighbours) ∧
    (∀ x ∈ Demo.twoPayments, ∀ k ∈ x.2.writable,
      ((entryMachine Demo.keys Demo.methods Demo.programs Key.runtime).run Demo.readyNeighbours
        Demo.twoPayments).held k =
      ((entryMachine Demo.keys Demo.methods Demo.programs Key.runtime).next Demo.readyNeighbours
        x).held k) ∧
    ∀ k, (∀ x ∈ Demo.twoPayments, k ∉ x.2.writable) →
      ((entryMachine Demo.keys Demo.methods Demo.programs Key.runtime).run Demo.readyNeighbours
        Demo.twoPayments).held k = Demo.readyNeighbours.held k := by
  refine batch_alone (List.pairwise_cons.mpr ⟨?_, List.pairwise_singleton _ _⟩) Demo.readyNeighbours
  exact List.forall_mem_cons.mpr ⟨⟨by decide, by decide⟩, fun _ h => nomatch h⟩

end Schedules

end MaximProtocol
