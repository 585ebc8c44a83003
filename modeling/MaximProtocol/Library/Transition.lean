import Mathlib.Data.List.Induction

/-!
# Runs of a labelled transition system

A run keeps its whole history: the list of its transitions, each with the state
before it, its label and the state after it. A property of a run is then a
property of a list, and a hypothesis about every step of a run is a hypothesis
about every member of that list.

* `run_history`: the induction rule, for a property of the history and the state.
* `run_preserves`: the same for a property of the state alone.
* `run_split`: every member of the history cuts the run in two.
-/

namespace Transitions

variable {σ α : Type}

/-- One step that was taken. -/
structure Transition (σ α : Type) where
  pre : σ
  label : α
  post : σ

/-- `Run step s tr t`: the transitions `tr`, taken in order, lead from `s` to `t`. -/
inductive Run (step : σ → α → σ → Prop) : σ → List (Transition σ α) → σ → Prop
  | nil (s : σ) : Run step s [] s
  | snoc {s t u : σ} {tr : List (Transition σ α)} {a : α} :
      Run step s tr t → step t a u → Run step s (tr ++ [⟨t, a, u⟩]) u

/-- The states that some run from an initial state leads to. -/
def Reachable (step : σ → α → σ → Prop) (init : σ → Prop) (s : σ) : Prop :=
  ∃ s₀ tr, init s₀ ∧ Run step s₀ tr s

/-- The states a run goes through: its start and the state after every step. -/
def visited (s : σ) (tr : List (Transition σ α)) : List σ := s :: tr.map Transition.post

variable {step : σ → α → σ → Prop} {init : σ → Prop} {s t u : σ}
variable {tr tr' : List (Transition σ α)} {x : Transition σ α}

/-! ## 1. Composing and cutting runs -/

theorem run_single {a : α} (h : step s a t) : Run step s [⟨s, a, t⟩] t :=
  (Run.nil s).snoc h

theorem run_append (h : Run step s tr t) (h' : Run step t tr' u) :
    Run step s (tr ++ tr') u := by
  induction h' with
  | nil => simpa using h
  | snoc _ hs ih =>
    rw [← List.append_assoc]
    exact ih.snoc hs

theorem run_snoc_inv (h : Run step s (tr ++ [x]) u) :
    Run step s tr x.pre ∧ step x.pre x.label x.post ∧ x.post = u := by
  generalize hl : tr ++ [x] = l at h
  cases h with
  | nil => simp at hl
  | snoc hr hs =>
    obtain ⟨rfl, hx⟩ := List.append_inj' hl rfl
    simp only [List.cons.injEq, and_true] at hx
    subst hx
    exact ⟨hr, hs, rfl⟩

theorem run_append_inv (h : Run step s (tr ++ tr') u) :
    ∃ t, Run step s tr t ∧ Run step t tr' u := by
  induction tr' using List.reverseRecOn generalizing u with
  | nil => exact ⟨u, by simpa using h, Run.nil u⟩
  | append_singleton l x ih =>
    rw [← List.append_assoc] at h
    obtain ⟨hl, hs, rfl⟩ := run_snoc_inv h
    obtain ⟨t, h₁, h₂⟩ := ih hl
    exact ⟨t, h₁, h₂.snoc hs⟩

/-- A transition in the middle of a run is a step between two runs. -/
theorem run_middle {l m : List (Transition σ α)} (h : Run step s (l ++ x :: m) u) :
    Run step s l x.pre ∧ step x.pre x.label x.post ∧ Run step x.post m u := by
  rw [← List.singleton_append, ← List.append_assoc] at h
  obtain ⟨t, h₁, h₂⟩ := run_append_inv h
  obtain ⟨hl, hs, rfl⟩ := run_snoc_inv h₁
  exact ⟨hl, hs, h₂⟩

/-- Every transition of a run is a step, taken after a first part of the run
and before a second. -/
theorem run_split (h : Run step s tr u) (hx : x ∈ tr) :
    ∃ l m, tr = l ++ x :: m ∧ Run step s l x.pre ∧ step x.pre x.label x.post ∧
      Run step x.post m u := by
  obtain ⟨l, m, rfl⟩ := List.append_of_mem hx
  exact ⟨l, m, rfl, run_middle h⟩

theorem run_step (h : Run step s tr u) (hx : x ∈ tr) : step x.pre x.label x.post := by
  obtain ⟨_, _, _, _, hs, _⟩ := run_split h hx
  exact hs

/-- A state the run visits is the end of an initial part of it. -/
theorem run_visited (h : Run step s tr u) (ht : t ∈ visited s tr) :
    ∃ l, l <+: tr ∧ Run step s l t := by
  simp only [visited, List.mem_cons, List.mem_map] at ht
  rcases ht with rfl | ⟨x, hx, rfl⟩
  · exact ⟨[], List.nil_prefix, Run.nil t⟩
  · obtain ⟨l, m, rfl, hl, hs, _⟩ := run_split h hx
    exact ⟨l ++ [x], ⟨m, by simp⟩, hl.snoc hs⟩

/-! ## 2. Induction over a run -/

/-- Induction over a run, for a property of the history so far and the state it
led to. The step may use that the extended history is an initial part of `tr`. -/
theorem run_history {I : List (Transition σ α) → σ → Prop} (h : Run step s tr u)
    (h0 : I [] s)
    (hstep : ∀ l x, l ++ [x] <+: tr → Run step s l x.pre → step x.pre x.label x.post →
      I l x.pre → I (l ++ [x]) x.post) :
    I tr u := by
  induction h with
  | nil => exact h0
  | @snoc t u tr a hr hs ih =>
    -- an initial part of the shorter history is one of the longer
    have hpre : ∀ l x, l ++ [x] <+: tr → l ++ [x] <+: tr ++ [⟨t, a, u⟩] :=
      fun l x hl => hl.trans (List.prefix_append _ _)
    have ht : I tr t := ih fun l x hl => hstep l x (hpre l x hl)
    exact hstep tr ⟨t, a, u⟩ List.prefix_rfl hr hs ht

/-- A property of the state that every transition of the run keeps holds at the end. -/
theorem run_preserves {I : σ → Prop} (h : Run step s tr u) (h0 : I s)
    (hstep : ∀ x ∈ tr, step x.pre x.label x.post → I x.pre → I x.post) : I u := by
  refine run_history (I := fun _ v => I v) h h0 ?_
  intro l x hl _ hs hI
  exact hstep x (hl.subset (by simp)) hs hI

/-- A property of the state that every transition of the run keeps holds before
and after each of them. -/
theorem run_preserves_mem {I : σ → Prop} (h : Run step s tr u) (h0 : I s)
    (hstep : ∀ x ∈ tr, step x.pre x.label x.post → I x.pre → I x.post) (hx : x ∈ tr) :
    I x.pre ∧ I x.post := by
  obtain ⟨l, m, rfl, hl, hs, _⟩ := run_split h hx
  have hpre : I x.pre := run_preserves hl h0 fun y hy => hstep y (by simp [hy])
  exact ⟨hpre, hstep x (by simp) hs hpre⟩

/-- A relation between every two steps of a run, earlier and later, from the run
between them. -/
theorem run_pairwise {R : Transition σ α → Transition σ α → Prop} (h : Run step s tr u)
    (hR : ∀ x m y, step x.pre x.label x.post → Run step x.post m y.pre →
      step y.pre y.label y.post → R x y) : tr.Pairwise R := by
  induction h with
  | nil => exact List.Pairwise.nil
  | @snoc t u tr a hr hs ih =>
    rw [List.pairwise_append]
    refine ⟨ih, List.pairwise_singleton _ _, ?_⟩
    intro x hx y hy
    rw [List.mem_singleton] at hy
    subst hy
    obtain ⟨_, m, _, _, hxs, hm⟩ := run_split hr hx
    exact hR x m _ hxs hm hs

/-- Two steps of a run, with the run between them. -/
theorem run_between {l m r : List (Transition σ α)} {y : Transition σ α}
    (h : Run step s (l ++ x :: (m ++ y :: r)) u) :
    Run step s l x.pre ∧ step x.pre x.label x.post ∧ Run step x.post m y.pre ∧
      step y.pre y.label y.post := by
  obtain ⟨hl, hxs, hrest⟩ := run_middle h
  obtain ⟨hm, hys, _⟩ := run_middle hrest
  exact ⟨hl, hxs, hm, hys⟩

/-! ## 3. Reachable states -/

theorem reachable_init (h : init s) : Reachable step init s := ⟨s, [], h, Run.nil s⟩

theorem reachable_run (h : Reachable step init s) (hr : Run step s tr t) :
    Reachable step init t := by
  obtain ⟨s₀, l, h0, hl⟩ := h
  exact ⟨s₀, l ++ tr, h0, run_append hl hr⟩

theorem reachable_step {a : α} (h : Reachable step init s) (hs : step s a t) :
    Reachable step init t :=
  reachable_run h (run_single hs)

/-- An invariant: it holds initially and every step from a reachable state keeps it. -/
theorem reachable_invariant {I : σ → Prop} (h : Reachable step init s)
    (h0 : ∀ s, init s → I s)
    (hstep : ∀ s a t, Reachable step init s → step s a t → I s → I t) : I s := by
  obtain ⟨s₀, tr, hi, hr⟩ := h
  refine (run_preserves (I := fun v => Reachable step init v ∧ I v) hr
    ⟨reachable_init hi, h0 s₀ hi⟩ ?_).2
  rintro x _ hs ⟨hx, hI⟩
  exact ⟨reachable_step hx hs, hstep _ _ _ hx hs hI⟩

/-- Both ends of every transition of a run from a reachable state are reachable. -/
theorem reachable_mem (h : Reachable step init s) (hr : Run step s tr u) (hx : x ∈ tr) :
    Reachable step init x.pre ∧ Reachable step init x.post :=
  run_preserves_mem hr h (fun _ _ hs hI => reachable_step hI hs) hx

end Transitions
