import Mathlib.Data.List.Basic
import Mathlib.Logic.Function.Basic

/-!
# Nodes with links to parents

A store of nodes, each either a root or linked to one other key. `Chain link a l` says
that following the links from `a` goes through the nodes `l` and ends at a root.

* `chain_nodup`: links are a function, so a chain never comes back to a node.
* `chain_agree`: a chain stays when nodes are added.
* `rooted_insert`: a store where every node has a chain keeps that when a node is added
  whose parent, if it has one, is already there.
-/

namespace Links

variable {κ : Type}

/-- `none`: no node. `some none`: a root. `some (some p)`: a node linked to `p`. -/
abbrev Store (κ : Type) := κ → Option (Option κ)

/-- The links from `a` lead through `l`, `a` first, to a root. -/
inductive Chain (link : Store κ) : κ → List κ → Prop
  | root {a : κ} : link a = some none → Chain link a [a]
  | link {a p : κ} {l : List κ} : link a = some (some p) → Chain link p l → Chain link a (a :: l)

/-- From every node the links lead to a root. -/
def Rooted (link : Store κ) : Prop := ∀ a, link a ≠ none → ∃ l, Chain link a l

variable {link link' : Store κ} {a p : κ} {l m : List κ}

theorem chain_unique (h : Chain link a l) (h' : Chain link a m) : l = m := by
  induction h generalizing m with
  | root ha =>
    cases h' with
    | root _ => rfl
    | link hb _ =>
      rw [ha] at hb
      cases hb
  | link ha _ ih =>
    cases h' with
    | root hb =>
      rw [ha] at hb
      cases hb
    | link hb ht =>
      rw [ha] at hb
      cases hb
      rw [ih ht]

/-- Every node of a chain starts a chain of its own, no longer than the whole. -/
theorem chain_mem (h : Chain link a l) (hp : p ∈ l) :
    ∃ m, Chain link p m ∧ m.length ≤ l.length := by
  induction h with
  | root ha =>
    rw [List.mem_singleton.mp hp]
    exact ⟨_, .root ha, Nat.le_refl _⟩
  | @link a q l ha ht ih =>
    rcases List.mem_cons.mp hp with rfl | hp
    · exact ⟨_, .link ha ht, Nat.le_refl _⟩
    · obtain ⟨m, hm, hlen⟩ := ih hp
      exact ⟨m, hm, Nat.le_succ_of_le hlen⟩

/-- Following links never comes back to a node. -/
theorem chain_nodup (h : Chain link a l) : l.Nodup := by
  induction h with
  | root _ => simp
  | @link a q l ha ht ih =>
    refine List.nodup_cons.mpr ⟨fun hmem => ?_, ih⟩
    -- the chain of `a` would be shorter than itself
    obtain ⟨m, hm, hlen⟩ := chain_mem ht hmem
    rw [chain_unique hm (.link ha ht), List.length_cons] at hlen
    exact absurd hlen (Nat.not_succ_le_self _)

theorem chain_agree (h : Chain link a l) (hsub : ∀ b, link b ≠ none → link' b = link b) :
    Chain link' a l := by
  have hkeep : ∀ {b v}, link b = some v → link' b = some v := by
    intro b v hb
    rw [hsub b (by rw [hb]; exact Option.some_ne_none v), hb]
  induction h with
  | root ha => exact .root (hkeep ha)
  | link ha _ ih => exact .link (hkeep ha) ih

/-- The parent of a node with a chain is a node other than itself. -/
theorem chain_parent (h : Chain link a l) (ha : link a = some (some p)) :
    p ≠ a ∧ link p ≠ none := by
  cases h with
  | root hb =>
    rw [ha] at hb
    cases hb
  | @link _ q m hb ht =>
    rw [ha] at hb
    cases hb
    refine ⟨?_, ?_⟩
    · rintro rfl
      have hlen := congrArg List.length (chain_unique ht (.link ha ht))
      exact absurd hlen (by simp)
    · cases ht with
      | root hp =>
        rw [hp]
        exact Option.some_ne_none _
      | link hp _ =>
        rw [hp]
        exact Option.some_ne_none _

section Insert

variable [DecidableEq κ] {v : Option κ}

theorem rooted_insert (h : Rooted link) (hnew : link a = none)
    (hv : ∀ p, v = some p → link p ≠ none) : Rooted (Function.update link a (some v)) := by
  have hsub : ∀ b, link b ≠ none → Function.update link a (some v) b = link b := by
    intro b hb
    refine Function.update_of_ne ?_ _ _
    rintro rfl
    exact hb hnew
  intro b hb
  rcases eq_or_ne b a with rfl | hba
  · cases v with
    | none => exact ⟨[b], .root (Function.update_self _ _ _)⟩
    | some p =>
      obtain ⟨l, hl⟩ := h p (hv p rfl)
      exact ⟨b :: l, .link (Function.update_self _ _ _) (chain_agree hl hsub)⟩
  · rw [Function.update_of_ne hba] at hb
    obtain ⟨l, hl⟩ := h b hb
    exact ⟨l, chain_agree hl hsub⟩

end Insert

end Links
