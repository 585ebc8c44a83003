import MaximProtocol.Library.MachineInt

/-!
# What a computation can fail with

`FailsIn P x`: whatever `x` fails with is in `P`. One rule for each way to build a
computation; a later part may use what the earlier ones returned.
-/

namespace MachineInt

variable {ε α β : Type} {P : ε → Prop} {e : ε} {x y : Except ε α}

def FailsIn (P : ε → Prop) (x : Except ε α) : Prop := ∀ e, x = .error e → P e

theorem failsIn_pure {a : α} : FailsIn P (pure a : Except ε α) := by
  intro e h
  cases h

theorem failsIn_bind {f : α → Except ε β} (hx : FailsIn P x)
    (hf : ∀ a, x = .ok a → FailsIn P (f a)) : FailsIn P (x >>= f) := by
  cases x with
  | error e' =>
    intro e h
    cases h
    exact hx e' rfl
  | ok a => exact hf a rfl

theorem failsIn_require {p : Prop} [Decidable p] (h : ¬ p → P e) : FailsIn P (require p e) := by
  intro e' he
  unfold require at he
  split at he
  · cases he
  · next hp =>
    cases he
    exact h hp

theorem failsIn_requireIf {c p : Prop} [Decidable c] [Decidable p] (h : c → ¬ p → P e) :
    FailsIn P (requireIf c p e) := by
  unfold requireIf
  split
  · next hc => exact failsIn_require (h hc)
  · intro e' he
    cases he

theorem failsIn_orFail {o : Option α} (h : o = none → P e) : FailsIn P (orFail e o) := by
  intro e' he
  cases o with
  | none =>
    cases he
    exact h rfl
  | some a => cases he

theorem failsIn_ite {c : Prop} [Decidable c] (hx : c → FailsIn P x) (hy : ¬ c → FailsIn P y) :
    FailsIn P (if c then x else y) := by
  split
  · next hc => exact hx hc
  · next hc => exact hy hc

theorem failsIn_checkedI64 {n : Int} (h : ¬ (-2 ^ 63 ≤ n ∧ n < 2 ^ 63) → P e) :
    FailsIn P (checkedI64 e n) := by
  unfold checkedI64
  refine failsIn_ite (fun _ => failsIn_pure) fun hn e' he => ?_
  cases he
  exact h hn

theorem failsIn_mono {Q : ε → Prop} (hx : FailsIn P x) (h : ∀ e, P e → Q e) : FailsIn Q x :=
  fun e he => h e (hx e he)

end MachineInt
