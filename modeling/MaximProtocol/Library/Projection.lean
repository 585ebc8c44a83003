import MaximProtocol.Library.Transition

/-!
# Projections of a run

A view of the state that can be kept up to date from what the steps of a run emit: it is
the fold of what was emitted over the view of the first state.

* `run_projects`: the rule, from one step to a run.
-/

namespace Transitions

variable {σ α ε V : Type} {step : σ → α → σ → Prop} {s s' : σ} {tr tr' : List (Transition σ α)}
variable {out : Transition σ α → Option ε} {apply : V → ε → V} {v : V}

/-- What an observer makes of what a run emits. -/
def project (out : Transition σ α → Option ε) (apply : V → ε → V) (v : V)
    (tr : List (Transition σ α)) : V := (tr.filterMap out).foldl apply v

theorem project_append :
    project out apply v (tr ++ tr') = project out apply (project out apply v tr) tr' := by
  unfold project
  rw [List.filterMap_append, List.foldl_append]

theorem project_single (x : Transition σ α) :
    project out apply v [x] = ((out x).map (apply v)).getD v := by
  unfold project
  cases h : out x <;> simp [h]

/-- Every step of the run changes the view by what it emits, as long as `I` holds. -/
theorem run_projects (view : σ → V) {I : σ → Prop} (h : Run step s tr s') (h0 : I s)
    (hstep : ∀ x ∈ tr, step x.pre x.label x.post → I x.pre →
      I x.post ∧ view x.post = project out apply (view x.pre) [x]) :
    I s' ∧ view s' = project out apply (view s) tr := by
  refine run_history (I := fun l t => I t ∧ view t = project out apply (view s) l) h
    ⟨h0, rfl⟩ ?_
  rintro l x hl _ hs ⟨hI, hv⟩
  obtain ⟨hI', hv'⟩ := hstep x (hl.subset (by simp)) hs hI
  rw [project_append, ← hv]
  exact ⟨hI', hv'⟩

end Transitions
