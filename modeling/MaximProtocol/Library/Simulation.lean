import MaximProtocol.Library.Transition

/-!
# Simulations between runs

`Matched M tr tr'`: the history `tr'` is `tr` with every transition replaced by a list of
transitions that `M` allows for it, possibly an empty one.

`run_simulates`: a relation between the states of two systems that every step of a run keeps,
against some matching run of the other system, carries the whole run over.

`run_image`, `run_lift`: where the relation is a function `f`, the runs of the first system
are, step by step, the runs of the second seen through it.
-/

namespace Transitions

variable {σ α τ β : Type}

inductive Matched (M : Transition σ α → List (Transition τ β) → Prop) :
    List (Transition σ α) → List (Transition τ β) → Prop
  | nil : Matched M [] []
  | snoc {tr : List (Transition σ α)} {tr' l : List (Transition τ β)} {x : Transition σ α} :
      Matched M tr tr' → M x l → Matched M (tr ++ [x]) (tr' ++ l)

variable {step : σ → α → σ → Prop} {step' : τ → β → τ → Prop} {s s' : σ} {t : τ}
variable {M : Transition σ α → List (Transition τ β) → Prop} {R : σ → τ → Prop}
variable {tr : List (Transition σ α)}

/-- **Stuttering simulation.** -/
theorem run_simulates (h : Run step s tr s') (h0 : R s t)
    (hstep : ∀ x ∈ tr, step x.pre x.label x.post → ∀ v, R x.pre v →
      ∃ l v', Run step' v l v' ∧ M x l ∧ R x.post v') :
    ∃ tr' t', Run step' t tr' t' ∧ Matched M tr tr' ∧ R s' t' := by
  induction h with
  | nil => exact ⟨[], t, .nil t, .nil, h0⟩
  | @snoc u u' tr a hr hs ih =>
    obtain ⟨tr', v, hrun, hmatch, hR⟩ := ih fun x hx => hstep x (by simp [hx])
    obtain ⟨l, v', hl, hM, hR'⟩ := hstep ⟨u, a, u'⟩ (by simp) hs v hR
    exact ⟨tr' ++ l, v', run_append hrun hl, hmatch.snoc hM, hR'⟩

/-! ## Runs seen through a function -/

section Image

variable {step' : τ → α → τ → Prop} {I : σ → Prop} {f : σ → τ} {u : τ} {tr' : List (Transition τ α)}

def Transition.image (f : σ → τ) (x : Transition σ α) : Transition τ α :=
  ⟨f x.pre, x.label, f x.post⟩

theorem run_image (h : Run step s tr s') (h0 : I s)
    (hstep : ∀ s a t, I s → step s a t → I t ∧ step' (f s) a (f t)) :
    I s' ∧ Run step' (f s) (tr.map (Transition.image f)) (f s') := by
  induction h with
  | nil => exact ⟨h0, .nil _⟩
  | @snoc v v' tr a hr hs ih =>
    obtain ⟨hI, hrun⟩ := ih
    obtain ⟨hI', hs'⟩ := hstep v a v' hI hs
    rw [List.map_append]
    exact ⟨hI', hrun.snoc hs'⟩

theorem run_lift (h : Run step' t tr' u) (ht : f s = t) (h0 : I s)
    (hstep : ∀ s a t, I s → step' (f s) a t → ∃ s', step s a s' ∧ f s' = t ∧ I s') :
    ∃ tr s', Run step s tr s' ∧ tr.map (Transition.image f) = tr' ∧ f s' = u ∧ I s' := by
  induction h with
  | nil => exact ⟨[], s, .nil s, rfl, ht, h0⟩
  | @snoc v v' tr' a hr hs ih =>
    obtain ⟨tr, s₁, hrun, rfl, rfl, hI⟩ := ih
    obtain ⟨s₂, hs₂, rfl, hI₂⟩ := hstep s₁ a v' hI hs
    exact ⟨tr ++ [⟨s₁, a, s₂⟩], s₂, hrun.snoc hs₂, by simp [Transition.image], rfl, hI₂⟩

end Image

end Transitions
