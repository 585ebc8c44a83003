import MaximProtocol.Library.Transition
import Mathlib.Algebra.BigOperators.Group.Finset.Piecewise
import Mathlib.Tactic.Abel

/-!
# Double-entry bookkeeping

A posting moves an amount of one asset from an account to another. Balances are integers, so
that a posting is always defined.

* `net`: what a list of postings changes in the balance of one account.
* `sum_net`: the accounts of a set that all the postings stay in have as much as before,
  taken together.
* `run_posted`: a balance that every step of a run changes by what it posts, and by what comes
  from elsewhere, is the first one and the sum of both.
-/

namespace Bookkeeping

open Transitions

structure Posting (Account Asset : Type) where
  source : Account
  destination : Account
  asset : Asset
  amount : Nat

variable {Account Asset : Type} [DecidableEq Account] [DecidableEq Asset]

/-- What the posting changes in what `k` holds of `m`. -/
def Posting.net (p : Posting Account Asset) (m : Asset) (k : Account) : Int :=
  if p.asset = m then
    (if k = p.destination then (p.amount : Int) else 0) -
      (if k = p.source then (p.amount : Int) else 0)
  else 0

def net (l : List (Posting Account Asset)) (m : Asset) (k : Account) : Int :=
  (l.map fun p => p.net m k).sum

variable {l l' : List (Posting Account Asset)} {m : Asset} {k : Account}

@[simp] theorem net_nil : net ([] : List (Posting Account Asset)) m k = 0 := rfl

@[simp] theorem net_singleton (p : Posting Account Asset) : net [p] m k = p.net m k := by
  simp [net]

@[simp] theorem net_append : net (l ++ l') m k = net l m k + net l' m k := by
  simp [net]

/-- The postings stay among the accounts of `S`. -/
def Within (S : Finset Account) (l : List (Posting Account Asset)) : Prop :=
  ∀ p ∈ l, p.source ∈ S ∧ p.destination ∈ S

theorem sum_posting {S : Finset Account} {p : Posting Account Asset} (hs : p.source ∈ S)
    (hd : p.destination ∈ S) : ∑ k ∈ S, p.net m k = 0 := by
  by_cases hm : p.asset = m
  · simp only [Posting.net, if_pos hm]
    rw [Finset.sum_sub_distrib, Finset.sum_ite_eq', Finset.sum_ite_eq', if_pos hd, if_pos hs,
      sub_self]
  · simp only [Posting.net, if_neg hm, Finset.sum_const_zero]

/-- **Postings create and destroy nothing.** -/
theorem sum_net {S : Finset Account} (h : Within S l) : ∑ k ∈ S, net l m k = 0 := by
  induction l with
  | nil => simp
  | cons p l ih =>
    have hp := h p List.mem_cons_self
    have hrest := ih fun q hq => h q (List.mem_cons_of_mem _ hq)
    have hnet : ∀ k, net (p :: l) m k = p.net m k + net l m k := fun k => by simp [net]
    simp only [hnet]
    rw [Finset.sum_add_distrib, sum_posting hp.1 hp.2, hrest, add_zero]

/-- The accounts of some postings. -/
def accounts (l : List (Posting Account Asset)) : Finset Account :=
  (l.map Posting.source ++ l.map Posting.destination).toFinset

omit [DecidableEq Asset] in
theorem within_of_accounts {S : Finset Account} (h : accounts l ⊆ S) : Within S l := by
  intro p hp
  constructor
  · exact h (List.mem_toFinset.mpr (List.mem_append_left _ (List.mem_map_of_mem hp)))
  · exact h (List.mem_toFinset.mpr (List.mem_append_right _ (List.mem_map_of_mem hp)))

/-! ## Over a run -/

variable {σ α : Type} {step : σ → α → σ → Prop} {s s' : σ} {tr : List (Transition σ α)}

theorem run_posted {I : σ → Prop} (balance : σ → Int)
    {posting : Transition σ α → Option (Posting Account Asset)} {external : Transition σ α → Int}
    (h : Run step s tr s') (h0 : I s)
    (hstep : ∀ x ∈ tr, step x.pre x.label x.post → I x.pre → I x.post ∧
      balance x.post = balance x.pre + external x + net (posting x).toList m k) :
    I s' ∧ balance s' =
      balance s + (tr.map external).sum + net (tr.filterMap posting) m k := by
  refine run_history (I := fun l v => I v ∧ balance v =
    balance s + (l.map external).sum + net (l.filterMap posting) m k) h ⟨h0, by simp⟩ ?_
  rintro l x hl _ hs ⟨hI, hb⟩
  obtain ⟨hI', hx⟩ := hstep x (hl.subset (by simp)) hs hI
  refine ⟨hI', ?_⟩
  have hone : [x].filterMap posting = (posting x).toList := by
    cases hp : posting x <;> simp [hp]
  rw [hx, hb, List.map_append, List.sum_append, List.filterMap_append, net_append, hone,
    List.map_singleton, List.sum_singleton]
  abel

end Bookkeeping
