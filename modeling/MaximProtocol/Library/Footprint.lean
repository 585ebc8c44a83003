import MaximProtocol.Library.Interleaving
import MaximProtocol.Library.MachineInt

/-!
# Footprints and schedules

A state is seen place by place. A machine has footprints when every label names the places
it may read and those it may write, and what it does is a matter of these places alone.

* `Paired`: two computations fail alike or return related values.
* `Footprint`, `Apart`: labels that are apart commute and keep each other's outcome.
* `reordered_of_sameOrder`: two lists that have the labels which are not apart in the same
  order differ by exchanges of neighbours which are.
* `schedule_unique`: such lists lead to the same state, with the same outcomes.
* `run_apart`: of labels that are all apart, each does what it would do alone.
-/

/-! ## 1. Two computations side by side -/

namespace MachineInt

variable {ε α β γ δ : Type} {R : α → β → Prop} {Q : γ → δ → Prop}

def Paired (R : α → β → Prop) : Except ε α → Except ε β → Prop
  | .ok a, .ok b => R a b
  | .error e, .error e' => e = e'
  | _, _ => False

theorem paired_pure {a : α} {b : β} (h : R a b) :
    Paired R (pure a : Except ε α) (pure b) := h

theorem paired_bind {x : Except ε α} {y : Except ε β} {f : α → Except ε γ} {g : β → Except ε δ}
    (hxy : Paired R x y) (hfg : ∀ a b, R a b → Paired Q (f a) (g b)) :
    Paired Q (x >>= f) (y >>= g) := by
  cases x with
  | error e =>
    cases y with
    | error e' => exact hxy
    | ok b => cases hxy
  | ok a =>
    cases y with
    | error e' => cases hxy
    | ok b => exact hfg a b hxy

/-- The first part is the same in both. -/
theorem paired_after_ok {x : Except ε α} {f : α → Except ε γ} {g : α → Except ε δ}
    (hfg : ∀ a, x = .ok a → Paired Q (f a) (g a)) : Paired Q (x >>= f) (x >>= g) := by
  cases x with
  | error e => exact rfl
  | ok a => exact hfg a rfl

theorem paired_after (x : Except ε α) {f : α → Except ε γ} {g : α → Except ε δ}
    (hfg : ∀ a, Paired Q (f a) (g a)) : Paired Q (x >>= f) (x >>= g) :=
  paired_after_ok fun a _ => hfg a

theorem paired_map {x : Except ε α} {y : Except ε β} {f : α → γ} {g : β → γ}
    (hxy : Paired R x y) (hfg : ∀ a b, R a b → f a = g b) : x.map f = y.map g := by
  cases x with
  | error e =>
    cases y with
    | error e' =>
      obtain rfl : e = e' := hxy
      rfl
    | ok b => cases hxy
  | ok a =>
    cases y with
    | error e' => cases hxy
    | ok b => exact congrArg Except.ok (hfg a b hxy)

end MachineInt

namespace Interleaving

variable {σ κ ν α ω : Type}

/-! ## 2. Footprints -/

/-- What `x` does to the places of `reads x`, and its outcome, depend on these places only,
and it changes no place but those of `writes x`. -/
structure Footprint (M : Machine σ α ω) (view : σ → κ → ν) (reads writes : α → List κ) :
    Prop where
  ext : Function.Injective view
  subset : ∀ x, writes x ⊆ reads x
  frame : ∀ s x k, k ∉ writes x → view (M.next s x) k = view s k
  next : ∀ {s t x}, (∀ k ∈ reads x, view s k = view t k) →
    ∀ k ∈ reads x, view (M.next s x) k = view (M.next t x) k
  outcome : ∀ {s t x}, (∀ k ∈ reads x, view s k = view t k) → M.outcome s x = M.outcome t x

/-- Neither label may write what the other may read. -/
structure Apart (reads writes : α → List κ) (x y : α) : Prop where
  left : ∀ k ∈ writes x, k ∉ reads y
  right : ∀ k ∈ writes y, k ∉ reads x

theorem apart_symm {reads writes : α → List κ} {x y : α} (h : Apart reads writes x y) :
    Apart reads writes y x := ⟨h.right, h.left⟩

section Footprint

variable {M : Machine σ α ω} {view : σ → κ → ν} {reads writes : α → List κ} {s : σ} {x y : α}

/-- Nothing that `x` reads is changed by `y`. -/
theorem apart_view (hM : Footprint M view reads writes) (h : Apart reads writes x y) :
    ∀ k ∈ reads x, view (M.next s y) k = view s k :=
  fun k hk => hM.frame s y k fun hw => h.right k hw hk

theorem apart_outcome (hM : Footprint M view reads writes) (h : Apart reads writes x y) :
    M.outcome (M.next s y) x = M.outcome s x :=
  hM.outcome (apart_view hM h)

/-- What the second label writes is left as if it had come alone. -/
theorem apart_next (hM : Footprint M view reads writes) (h : Apart reads writes x y) {k : κ}
    (hk : k ∈ reads x) : view (M.next (M.next s y) x) k = view (M.next s x) k :=
  hM.next (apart_view hM h) k hk

theorem apart_comm (hM : Footprint M view reads writes) (h : Apart reads writes x y) :
    M.next (M.next s x) y = M.next (M.next s y) x := by
  refine hM.ext (funext fun k => ?_)
  by_cases hx : k ∈ writes x
  · have hy : k ∉ writes y := fun hy => h.left k hx (hM.subset y hy)
    rw [hM.frame _ y k hy, apart_next hM h (hM.subset x hx)]
  · rw [hM.frame _ x k hx]
    by_cases hy : k ∈ writes y
    · exact apart_next hM (apart_symm h) (hM.subset y hy)
    · rw [hM.frame _ y k hy, hM.frame _ x k hx, hM.frame _ y k hy]

end Footprint

/-! ## 3. Orders that agree on what is not independent -/

/-- `List.Perm` by exchanges of neighbours that `R` relates. -/
inductive Reordered (R : α → α → Prop) : List α → List α → Prop
  | nil : Reordered R [] []
  | cons (x : α) {l l' : List α} : Reordered R l l' → Reordered R (x :: l) (x :: l')
  | swap {x y : α} (l : List α) : R x y → Reordered R (x :: y :: l) (y :: x :: l)
  | trans {l l' l'' : List α} : Reordered R l l' → Reordered R l' l'' → Reordered R l l''

open Classical in
/-- The lists have the same elements, and the same order of any two that `R` does not
relate. -/
structure SameOrder (R : α → α → Prop) (l l' : List α) : Prop where
  perm : l.Perm l'
  order : ∀ a b, ¬ R a b →
    l.filter (fun x => x = a ∨ x = b) = l'.filter (fun x => x = a ∨ x = b)

section Orders

variable {R : α → α → Prop} {l l' p q : List α} {x : α}

theorem reordered_refl (l : List α) : Reordered R l l := by
  induction l with
  | nil => exact .nil
  | cons x l ih => exact ih.cons x

/-- An element moves to the front over elements that it is related to. -/
theorem reordered_front (h : ∀ y ∈ p, R x y) : Reordered R (x :: (p ++ q)) (p ++ x :: q) := by
  induction p with
  | nil => exact reordered_refl _
  | cons y p ih =>
    obtain ⟨hy, hp⟩ := List.forall_mem_cons.mp h
    exact (Reordered.swap _ hy).trans ((ih hp).cons y)

/-- In front of an element that comes first elsewhere stand only elements related to it. -/
theorem sameOrder_front (h : SameOrder R (x :: l) (p ++ x :: q)) (hx : x ∉ p) :
    ∀ y ∈ p, R x y := by
  classical
  intro y hy
  by_contra hR
  have heq := h.order x y hR
  rw [List.filter_cons_of_pos (by simp), List.filter_append] at heq
  cases hf : p.filter (fun z => z = x ∨ z = y) with
  | nil =>
    have hmem : y ∈ p.filter (fun z => z = x ∨ z = y) := List.mem_filter.mpr ⟨hy, by simp⟩
    rw [hf] at hmem
    cases hmem
  | cons z f =>
    rw [hf, List.cons_append, List.cons.injEq] at heq
    have hz : z ∈ p.filter (fun z => z = x ∨ z = y) := by
      rw [hf]
      exact List.mem_cons_self
    rw [← heq.1] at hz
    exact hx (List.mem_filter.mp hz).1

theorem sameOrder_rest (hsymm : ∀ a b, R a b → R b a) (h : SameOrder R (x :: l) (p ++ x :: q))
    (hx : x ∉ p) : SameOrder R l (p ++ q) := by
  classical
  have hfront := sameOrder_front h hx
  refine ⟨(h.perm.trans List.perm_middle).cons_inv, fun a b hR => ?_⟩
  have heq := h.order a b hR
  rw [List.filter_append] at heq ⊢
  by_cases hab : x = a ∨ x = b
  · -- then no element of `p` is `a` or `b`
    have hnone : p.filter (fun z => z = a ∨ z = b) = [] := by
      refine List.filter_eq_nil_iff.mpr fun y hy hyab => ?_
      rcases hab with rfl | rfl <;> rcases decide_eq_true_eq.mp hyab with rfl | rfl
      · exact hx hy
      · exact hR (hfront _ hy)
      · exact hR (hsymm _ _ (hfront _ hy))
      · exact hx hy
    rw [hnone, List.nil_append] at heq ⊢
    simp only [List.filter_cons, decide_eq_true_eq, if_pos hab] at heq
    exact (List.cons.inj heq).2
  · simp only [List.filter_cons, decide_eq_true_eq, if_neg hab] at heq
    exact heq

/-- **Lists with the same order of unrelated elements are reordered.** -/
theorem reordered_of_sameOrder (hsymm : ∀ a b, R a b → R b a) (h : SameOrder R l l') :
    Reordered R l l' := by
  induction l generalizing l' with
  | nil =>
    obtain rfl := h.perm.nil_eq
    exact .nil
  | cons x l ih =>
    obtain ⟨p, q, rfl, hx⟩ :=
      List.eq_append_cons_of_mem (h.perm.mem_iff.mp List.mem_cons_self)
    exact ((ih (sameOrder_rest hsymm h hx)).cons x).trans
      (reordered_front (sameOrder_front h hx))

/-- And reordered lists have the same order of unrelated elements. -/
theorem sameOrder_of_reordered (hsymm : ∀ a b, R a b → R b a) (h : Reordered R l l') :
    SameOrder R l l' := by
  classical
  induction h with
  | nil => exact ⟨.nil, fun _ _ _ => rfl⟩
  | cons x _ ih =>
    refine ⟨ih.perm.cons x, fun a b hR => ?_⟩
    rw [List.filter_cons, List.filter_cons, ih.order a b hR]
  | @swap x y l h =>
    refine ⟨.swap _ _ _, fun a b hR => ?_⟩
    simp only [List.filter_cons, decide_eq_true_eq]
    by_cases hx : x = a ∨ x = b <;> by_cases hy : y = a ∨ y = b <;>
      simp only [hx, hy, if_true, if_false]
    -- both stay only if they are the same element
    rcases hx with rfl | rfl <;> rcases hy with rfl | rfl
    · rfl
    · exact absurd h hR
    · exact absurd (hsymm _ _ h) hR
    · rfl
  | trans _ _ ih ih' =>
    exact ⟨ih.perm.trans ih'.perm, fun a b hR => (ih.order a b hR).trans (ih'.order a b hR)⟩

end Orders

/-! ## 4. Schedules -/

/-- Each label with its outcome. -/
def Machine.log (M : Machine σ α ω) (s : σ) (l : List α) : List (α × ω) :=
  l.zip (M.outcomes s l)

section Schedules

variable {M : Machine σ α ω} {view : σ → κ → ν} {reads writes : α → List κ} {l l' : List α}

theorem run_reordered (hM : Footprint M view reads writes)
    (h : Reordered (Apart reads writes) l l') (s : σ) :
    M.run s l = M.run s l' ∧ (M.log s l).Perm (M.log s l') := by
  induction h generalizing s with
  | nil => exact ⟨rfl, .nil⟩
  | cons x _ ih =>
    obtain ⟨hrun, hlog⟩ := ih (M.next s x)
    exact ⟨hrun, hlog.cons _⟩
  | @swap x y l h =>
    constructor
    · show M.run (M.next (M.next s x) y) l = M.run (M.next (M.next s y) x) l
      rw [apart_comm hM h]
    · show List.Perm ((x, M.outcome s x) :: (y, M.outcome (M.next s x) y) ::
          M.log (M.next (M.next s x) y) l)
        ((y, M.outcome s y) :: (x, M.outcome (M.next s y) x) ::
          M.log (M.next (M.next s y) x) l)
      rw [apart_outcome hM h, apart_outcome hM (apart_symm h), apart_comm hM h]
      exact .swap _ _ _
  | trans _ _ ih ih' =>
    exact ⟨(ih s).1.trans (ih' s).1, (ih s).2.trans (ih' s).2⟩

/-- **One schedule.** Lists that have the labels which are not apart in the same order lead to
the same state, and every label has the same outcome in both. -/
theorem schedule_unique (hM : Footprint M view reads writes)
    (h : SameOrder (Apart reads writes) l l') (s : σ) :
    M.run s l = M.run s l' ∧ (M.log s l).Perm (M.log s l') :=
  run_reordered hM (reordered_of_sameOrder (fun _ _ => apart_symm) h) s

theorem run_frame (hM : Footprint M view reads writes) {s : σ} {k : κ}
    (h : ∀ x ∈ l, k ∉ writes x) : view (M.run s l) k = view s k := by
  induction l generalizing s with
  | nil => rfl
  | cons x l ih =>
    obtain ⟨hx, hl⟩ := List.forall_mem_cons.mp h
    exact (ih hl).trans (hM.frame s x k hx)

/-- Of labels that are apart each leaves the places it may write as it would alone. -/
theorem run_apart (hM : Footprint M view reads writes) {s : σ} {x : α} {k : κ}
    (h : l.Pairwise (Apart reads writes)) (hx : x ∈ l) (hk : k ∈ writes x) :
    view (M.run s l) k = view (M.next s x) k := by
  induction l generalizing s with
  | nil => cases hx
  | cons y l ih =>
    obtain ⟨hy, hl⟩ := List.pairwise_cons.mp h
    rcases List.mem_cons.mp hx with rfl | hx
    · exact run_frame hM fun z hz hw => (hy z hz).left k hk (hM.subset z hw)
    · exact (ih hl hx).trans (apart_next hM (apart_symm (hy x hx)) (hM.subset x hk))

/-- And has the outcome it would have alone. -/
theorem outcomes_apart (hM : Footprint M view reads writes) {s : σ}
    (h : l.Pairwise (Apart reads writes)) : M.outcomes s l = l.map (M.outcome s) := by
  induction l generalizing s with
  | nil => rfl
  | cons x l ih =>
    obtain ⟨hx, hl⟩ := List.pairwise_cons.mp h
    show M.outcome s x :: M.outcomes (M.next s x) l = M.outcome s x :: l.map (M.outcome s)
    rw [ih hl]
    congr 1
    exact List.map_congr_left fun y hy => apart_outcome hM (apart_symm (hx y hy))

end Schedules

end Interleaving
