import MaximProtocol.Library.Projection

/-!
# Since

The past-time operator over a list of changes, and what it says about a value that the
changes are folded into.

* `since_snoc`: one change more.
* `fold_since`: a fact about the value that some changes bring about and others keep holds
  of the value exactly when it was brought about and has been kept since.
* `since_steps`: the step of a run that brought it about.
-/

namespace Transitions

variable {α V σ β : Type} {keep start : α → Prop} {l : List α} {c : α}

/-- Some change of `l` meets `start`, and all changes after it meet `keep`. -/
def Since (keep start : α → Prop) (l : List α) : Prop :=
  ∃ a c b, l = a ++ c :: b ∧ start c ∧ ∀ d ∈ b, keep d

theorem not_since_nil : ¬ Since keep start [] := by
  rintro ⟨a, c, b, h, -⟩
  exact List.append_ne_nil_of_right_ne_nil a (List.cons_ne_nil c b) h.symm

theorem since_snoc : Since keep start (l ++ [c]) ↔ start c ∨ keep c ∧ Since keep start l := by
  constructor
  · rintro ⟨a, d, b, h, hstart, hkeep⟩
    rcases List.eq_nil_or_concat b with rfl | ⟨b', e, rfl⟩
    · obtain ⟨-, hc⟩ := List.append_inj' h rfl
      cases hc
      exact .inl hstart
    · rw [List.concat_eq_append, ← List.cons_append, ← List.append_assoc] at h
      obtain ⟨rfl, hc⟩ := List.append_inj' h rfl
      cases hc
      exact .inr ⟨hkeep c (by simp), a, d, b', rfl, hstart, fun e he => hkeep e (by simp [he])⟩
  · rintro (hstart | ⟨hkeep, a, d, b, rfl, hstart, hb⟩)
    · exact ⟨l, c, [], rfl, hstart, fun _ h => absurd h List.not_mem_nil⟩
    · refine ⟨a, d, b ++ [c], by simp, hstart, fun e he => ?_⟩
      rcases List.mem_append.mp he with he | he
      · exact hb e he
      · rw [List.mem_singleton.mp he]
        exact hkeep

/-- A fact that holds after each change exactly if the change starts it, or keeps it and it
held before. -/
theorem fold_since {apply : V → α → V} {φ : V → Prop} {v : V} (h0 : ¬ φ v)
    (hstep : ∀ a c, a ++ [c] <+: l →
      (φ (apply (a.foldl apply v) c) ↔ start c ∨ keep c ∧ φ (a.foldl apply v))) :
    φ (l.foldl apply v) ↔ Since keep start l := by
  induction l using List.reverseRecOn with
  | nil => exact ⟨fun h => absurd h h0, fun h => absurd h not_since_nil⟩
  | append_singleton l c ih =>
    have hl := ih fun a d hd => hstep a d (hd.trans (List.prefix_append _ _))
    rw [List.foldl_append, since_snoc, ← hl]
    exact hstep l c List.prefix_rfl

variable {out : Transition σ β → Option α} {tr : List (Transition σ β)}

/-- The step that emitted a change, what was emitted before it and what after. -/
theorem emitted_split {a b : List α} (h : tr.filterMap out = a ++ c :: b) :
    ∃ l x m, tr = l ++ x :: m ∧ l.filterMap out = a ∧ out x = some c ∧ m.filterMap out = b := by
  obtain ⟨l, r, rfl, hl, hr⟩ := List.filterMap_eq_append_iff.mp h
  obtain ⟨l', x, m, rfl, hnone, hx, hm⟩ := List.filterMap_eq_cons_iff.mp hr
  refine ⟨l ++ l', x, m, (List.append_assoc ..).symm, ?_, hx, hm⟩
  rw [List.filterMap_append, hl, List.filterMap_eq_nil_iff.mpr hnone, List.append_nil]

/-- What has held since a change has held since the step that emitted it. -/
theorem since_steps (h : Since keep start (tr.filterMap out)) :
    ∃ l x m c, tr = l ++ x :: m ∧ out x = some c ∧ start c ∧ ∀ d ∈ m.filterMap out, keep d := by
  obtain ⟨a, c, b, hsplit, hstart, hkeep⟩ := h
  obtain ⟨l, x, m, htr, -, hx, rfl⟩ := emitted_split hsplit
  exact ⟨l, x, m, c, htr, hx, hstart, hkeep⟩

end Transitions
