import Mathlib.Data.Int.Basic
import Mathlib.Tactic.Linarith

/-!
# Fallible computations over machine integers

What a checked language does with machine integers, over `Except`:

* `require` and `requireIf`, guards that stop with an error;
* `checkedI64` and the checked operations on `i64`, which stop on overflow;
* `saturatingAdd` on `u64` and `u32`, which stop growing at the maximum.

Every operation has one lemma that says what it computes over `Nat` or `Int`,
and one that says when it succeeds.
-/

namespace MachineInt

variable {ε α β : Type}

/-! ## 1. Guards -/

/-- Stop with `e` unless `p` holds. -/
def require (p : Prop) [Decidable p] (e : ε) : Except ε Unit :=
  if p then .ok () else .error e

/-- Stop with `e` if `c` holds and `p` does not. -/
def requireIf (c p : Prop) [Decidable c] [Decidable p] (e : ε) : Except ε Unit :=
  if c then require p e else .ok ()

/-- Stop with `e` on `none`. -/
def orFail (e : ε) : Option α → Except ε α
  | some a => .ok a
  | none => .error e

@[simp] theorem require_eq_ok {p : Prop} [Decidable p] {e : ε} {u : Unit} :
    require p e = .ok u ↔ p := by
  unfold require
  split <;> simp [*]

@[simp] theorem requireIf_eq_ok {c p : Prop} [Decidable c] [Decidable p] {e : ε} {u : Unit} :
    requireIf c p e = .ok u ↔ (c → p) := by
  unfold requireIf
  split <;> simp [*]

@[simp] theorem orFail_eq_ok {e : ε} {o : Option α} {a : α} :
    orFail e o = .ok a ↔ o = some a := by
  cases o <;> simp [orFail]

@[simp] theorem bind_eq_ok {x : Except ε α} {f : α → Except ε β} {b : β} :
    (x >>= f) = .ok b ↔ ∃ a, x = .ok a ∧ f a = .ok b := by
  cases x with
  | error e => simp [bind, Except.bind]
  | ok a => simp [bind, Except.bind]

@[simp] theorem pure_eq_ok {a b : α} : (pure a : Except ε α) = .ok b ↔ a = b := by
  simp [pure, Except.pure]

@[simp] theorem mapError_eq_ok {ε' : Type} {f : ε → ε'} {x : Except ε α} {a : α} :
    x.mapError f = .ok a ↔ x = .ok a := by
  cases x <;> simp [Except.mapError]

/-- The computation does not fail with `e`. -/
def Avoids (e : ε) (x : Except ε α) : Prop := x ≠ .error e

section Avoids

variable {e e' : ε} {x y : Except ε α}

/-- The second computation may use what the first returned. -/
theorem avoids_bind_ok {f : α → Except ε β} (hx : Avoids e x)
    (hf : ∀ a, x = .ok a → Avoids e (f a)) : Avoids e (x >>= f) := by
  cases x with
  | error e' =>
    simp only [Avoids, ne_eq, Except.error.injEq, bind, Except.bind] at hx ⊢
    exact hx
  | ok a => exact hf a rfl

theorem avoids_bind {f : α → Except ε β} (hx : Avoids e x) (hf : ∀ a, Avoids e (f a)) :
    Avoids e (x >>= f) :=
  avoids_bind_ok hx fun a _ => hf a

theorem avoids_of_ok {a : α} (h : x = .ok a) : Avoids e x := by
  rw [h]
  intro hne
  cases hne

theorem avoids_pure {a : α} : Avoids e (pure a) := by
  intro h
  cases h

theorem avoids_require {p : Prop} [Decidable p] (h : e' ≠ e) : Avoids e (require p e') := by
  unfold require Avoids
  split <;> simp [h]

theorem avoids_requireIf {c p : Prop} [Decidable c] [Decidable p] (h : e' ≠ e) :
    Avoids e (requireIf c p e') := by
  unfold requireIf
  split
  · exact avoids_require h
  · exact avoids_pure

theorem avoids_orFail {o : Option α} (h : e' ≠ e) : Avoids e (orFail e' o) := by
  cases o <;> simp [orFail, Avoids, h]

theorem avoids_ite {c : Prop} [Decidable c] (hx : Avoids e x) (hy : Avoids e y) :
    Avoids e (if c then x else y) := by
  split
  · exact hx
  · exact hy

end Avoids

/-! ## 2. Checked `i64` arithmetic -/

/-- The `i64` that represents `x`, when there is one. -/
def checkedI64 (e : ε) (x : Int) : Except ε Int64 :=
  if -2 ^ 63 ≤ x ∧ x < 2 ^ 63 then .ok (Int64.ofInt x) else .error e

def checkedAdd (e : ε) (a b : Int64) : Except ε Int64 := checkedI64 e (a.toInt + b.toInt)
def checkedSub (e : ε) (a b : Int64) : Except ε Int64 := checkedI64 e (a.toInt - b.toInt)
def checkedMul (e : ε) (a b : Int64) : Except ε Int64 := checkedI64 e (a.toInt * b.toInt)
/-- Division rounds towards zero. -/
def checkedDiv (e : ε) (a b : Int64) : Except ε Int64 := checkedI64 e (a.toInt.tdiv b.toInt)

theorem checkedI64_eq_ok {e : ε} {x : Int} {y : Int64} :
    checkedI64 e x = .ok y ↔ y.toInt = x := by
  unfold checkedI64
  split
  · next h =>
    have hx : (Int64.ofInt x).toInt = x := Int64.toInt_ofInt_of_le h.1 h.2
    rw [Except.ok.injEq, ← Int64.toInt_inj, hx, eq_comm]
  · next h =>
    have hlo := y.le_toInt
    have hhi := y.toInt_lt
    constructor
    · intro hy
      cases hy
    · rintro rfl
      exact absurd ⟨hlo, hhi⟩ h

theorem avoids_checkedI64 {e e' : ε} {x : Int} (h : e' ≠ e) : Avoids e (checkedI64 e' x) := by
  unfold checkedI64 Avoids
  split <;> simp [h]

theorem checkedI64_ok_of_range (e : ε) {x : Int} (hlo : -2 ^ 63 ≤ x) (hhi : x < 2 ^ 63) :
    ∃ y : Int64, checkedI64 e x = .ok y ∧ y.toInt = x := by
  refine ⟨Int64.ofInt x, ?_, Int64.toInt_ofInt_of_le hlo hhi⟩
  rw [checkedI64_eq_ok]
  exact Int64.toInt_ofInt_of_le hlo hhi

@[simp] theorem checkedAdd_eq_ok {e : ε} {a b c : Int64} :
    checkedAdd e a b = .ok c ↔ c.toInt = a.toInt + b.toInt := checkedI64_eq_ok

@[simp] theorem checkedSub_eq_ok {e : ε} {a b c : Int64} :
    checkedSub e a b = .ok c ↔ c.toInt = a.toInt - b.toInt := checkedI64_eq_ok

@[simp] theorem checkedMul_eq_ok {e : ε} {a b c : Int64} :
    checkedMul e a b = .ok c ↔ c.toInt = a.toInt * b.toInt := checkedI64_eq_ok

@[simp] theorem checkedDiv_eq_ok {e : ε} {a b c : Int64} :
    checkedDiv e a b = .ok c ↔ c.toInt = a.toInt.tdiv b.toInt := checkedI64_eq_ok

/-! ## 3. Saturating addition -/

/-- The largest `u64`, as a natural number. -/
def u64Max : Nat := 2 ^ 64 - 1

theorem toNat_le_u64Max (a : UInt64) : a.toNat ≤ u64Max := by
  have := a.toNat_lt
  unfold u64Max
  omega

/-- `u64` addition that stops at the maximum. -/
def saturatingAdd (a b : UInt64) : UInt64 :=
  if a.toNat + b.toNat ≤ u64Max then a + b else 18446744073709551615

/-- `u32` addition that stops at the maximum. -/
def saturatingAdd32 (a b : UInt32) : UInt32 :=
  if a.toNat + b.toNat ≤ 4294967295 then a + b else 4294967295

@[simp] theorem toNat_saturatingAdd (a b : UInt64) :
    (saturatingAdd a b).toNat = min u64Max (a.toNat + b.toNat) := by
  unfold saturatingAdd
  split
  · next h =>
    have hlt : a.toNat + b.toNat < 2 ^ 64 := by
      unfold u64Max at h
      omega
    rw [UInt64.toNat_add, Nat.mod_eq_of_lt hlt, Nat.min_eq_right h]
  · next h =>
    rw [Nat.min_eq_left (by omega)]
    rfl

end MachineInt
