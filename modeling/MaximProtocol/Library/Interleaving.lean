import Mathlib.Data.List.Basic

/-!
# Interleavings of two lists of labels

A deterministic machine gives every label a next state and an outcome. An interleaving
of two lists is a list of tagged labels: `lefts` and `rights` are the two lists it mixes.

`interleaving_unique`: when each left label commutes with each right label, in every
state of an invariant, and neither changes the other's outcome, all interleavings give
the same outcomes and the same final state, and each list has the outcomes it has alone.
-/

namespace Interleaving

variable {σ α β ω : Type}

structure Machine (σ α ω : Type) where
  next : σ → α → σ
  outcome : σ → α → ω

/-! ## 1. Running lists and interleavings -/

def lefts (t : List (α ⊕ β)) : List α := t.filterMap Sum.getLeft?
def rights (t : List (α ⊕ β)) : List β := t.filterMap Sum.getRight?

@[simp] theorem lefts_inl (x : α) (t : List (α ⊕ β)) : lefts (.inl x :: t) = x :: lefts t := rfl
@[simp] theorem lefts_inr (y : β) (t : List (α ⊕ β)) : lefts (.inr y :: t) = lefts t := rfl
@[simp] theorem rights_inl (x : α) (t : List (α ⊕ β)) : rights (.inl x :: t) = rights t := rfl
@[simp] theorem rights_inr (y : β) (t : List (α ⊕ β)) : rights (.inr y :: t) = y :: rights t := rfl

namespace Machine

variable (M : Machine σ α ω)

/-- The state a list of labels leads to. -/
def run (s : σ) (l : List α) : σ := l.foldl M.next s

/-- The outcome of every label, in order. -/
def outcomes (s : σ) : List α → List ω
  | [] => []
  | x :: l => M.outcome s x :: outcomes (M.next s x) l

/-- The state an interleaving leads to. -/
def runMixed (s : σ) (t : List (α ⊕ α)) : σ := M.run s (t.map (Sum.elim id id))

/-- The outcome of every label of an interleaving, with its tag. -/
def outcomesMixed (s : σ) : List (α ⊕ α) → List (ω ⊕ ω)
  | [] => []
  | .inl x :: t => .inl (M.outcome s x) :: outcomesMixed (M.next s x) t
  | .inr y :: t => .inr (M.outcome s y) :: outcomesMixed (M.next s y) t

end Machine

/-! ## 2. Independent labels -/

/-- In every state of the invariant `I`, the labels of `L` and those of `R` commute and
do not change each other's outcome. -/
structure Independent (M : Machine σ α ω) (I : σ → Prop) (L R : α → Prop) : Prop where
  keep_left : ∀ {s x}, I s → L x → I (M.next s x)
  keep_right : ∀ {s y}, I s → R y → I (M.next s y)
  commute : ∀ {s x y}, I s → L x → R y → M.next (M.next s x) y = M.next (M.next s y) x
  outcome_left : ∀ {s x y}, I s → L x → R y → M.outcome (M.next s y) x = M.outcome s x
  outcome_right : ∀ {s x y}, I s → L x → R y → M.outcome (M.next s x) y = M.outcome s y

variable {M : Machine σ α ω} {I : σ → Prop} {L R : α → Prop} {s : σ}

theorem independent_symm (h : Independent M I L R) : Independent M I R L where
  keep_left := h.keep_right
  keep_right := h.keep_left
  commute := fun hI hy hx => (h.commute hI hx hy).symm
  outcome_left := fun hI hy hx => h.outcome_right hI hx hy
  outcome_right := fun hI hy hx => h.outcome_left hI hx hy

/-- A left label in front of a list of right labels changes none of their outcomes, and
may as well come last. -/
theorem left_first (h : Independent M I L R) (hI : I s) {x : α} (hx : L x) {r : List α}
    (hr : ∀ y ∈ r, R y) :
    M.outcomes (M.next s x) r = M.outcomes s r ∧
      M.run (M.next s x) r = M.next (M.run s r) x := by
  induction r generalizing s with
  | nil => exact ⟨rfl, rfl⟩
  | cons y r ih =>
    obtain ⟨hy, hr⟩ := List.forall_mem_cons.mp hr
    obtain ⟨hout, hrun⟩ := ih (h.keep_right hI hy) hr
    constructor
    · show M.outcome _ _ :: M.outcomes _ _ = M.outcome _ _ :: M.outcomes _ _
      rw [h.outcome_right hI hx hy, h.commute hI hx hy, hout]
    · show M.run (M.next (M.next s x) y) r = M.next (M.run (M.next s y) r) x
      rw [h.commute hI hx hy, hrun]

/-- **All interleavings agree**: both lists have the outcomes they have alone, and the
state is the one the left list followed by the right one leads to. -/
theorem interleaving_unique (h : Independent M I L R) (hI : I s) {t : List (α ⊕ α)}
    (hl : ∀ x ∈ lefts t, L x) (hr : ∀ y ∈ rights t, R y) :
    lefts (M.outcomesMixed s t) = M.outcomes s (lefts t) ∧
      rights (M.outcomesMixed s t) = M.outcomes s (rights t) ∧
      M.runMixed s t = M.run (M.run s (lefts t)) (rights t) := by
  induction t generalizing s with
  | nil => exact ⟨rfl, rfl, rfl⟩
  | cons z t ih =>
    cases z with
    | inl x =>
      rw [lefts_inl] at hl ⊢
      rw [rights_inl] at hr ⊢
      obtain ⟨hx, hl⟩ := List.forall_mem_cons.mp hl
      obtain ⟨hout, hout', hrun⟩ := ih (h.keep_left hI hx) hl hr
      refine ⟨congrArg (M.outcome s x :: ·) hout, ?_, hrun⟩
      exact hout'.trans (left_first h hI hx hr).1
    | inr y =>
      rw [lefts_inr] at hl ⊢
      rw [rights_inr] at hr ⊢
      obtain ⟨hy, hr⟩ := List.forall_mem_cons.mp hr
      obtain ⟨hout, hout', hrun⟩ := ih (h.keep_right hI hy) hl hr
      -- the left list runs as if the right label came after it
      obtain ⟨hsame, hlast⟩ := left_first (independent_symm h) hI hy hl
      refine ⟨hout.trans hsame, congrArg (M.outcome s y :: ·) hout', ?_⟩
      rw [hlast] at hrun
      exact hrun

end Interleaving
