import Mathlib.Data.List.Basic
import Mathlib.Tactic.Ring
import Mathlib.Tactic.Linarith

/-!
# Borsh

The part of the Borsh format that instruction data uses: little-endian integers, byte
arrays, an option as a tag byte and a value, a vector as a `u32` length and the elements,
and a string as a vector of bytes. A decoder reads a first part of its input and returns
the rest.

* `Reads d e a`: on input that starts with `e`, the decoder `d` reads exactly `e` and
  returns `a`. Rules `reads_*`, one for each decoder, and `reads_bind`.
* `bind_eq_some` and the rules `sized_*` for the converse: how much a successful
  decoder has read.
-/

namespace Borsh

abbrev Bytes := List UInt8

/-! ## 1. Little-endian integers -/

/-- The `n` low bytes of `x`, the lowest first. -/
def leBytes : Nat → Nat → Bytes
  | 0, _ => []
  | n + 1, x => UInt8.ofNat x :: leBytes n (x / 256)

def ofLeBytes : Bytes → Nat
  | [] => 0
  | b :: l => b.toNat + 256 * ofLeBytes l

@[simp] theorem length_leBytes (n x : Nat) : (leBytes n x).length = n := by
  induction n generalizing x with
  | zero => rfl
  | succ n ih => simp [leBytes, ih]

theorem ofLeBytes_leBytes {n x : Nat} (h : x < 256 ^ n) : ofLeBytes (leBytes n x) = x := by
  induction n generalizing x with
  | zero =>
    show 0 = x
    simp at h
    omega
  | succ n ih =>
    have hdiv : x / 256 < 256 ^ n := by
      rw [Nat.div_lt_iff_lt_mul (by omega), ← Nat.pow_succ]
      exact h
    show (UInt8.ofNat x).toNat + 256 * ofLeBytes (leBytes n (x / 256)) = x
    rw [ih hdiv, UInt8.toNat_ofNat']
    omega

def encU32 (x : UInt32) : Bytes := leBytes 4 x.toNat
def encU64 (x : UInt64) : Bytes := leBytes 8 x.toNat

@[simp] theorem length_encU32 (x : UInt32) : (encU32 x).length = 4 := length_leBytes 4 _

@[simp] theorem length_encU64 (x : UInt64) : (encU64 x).length = 8 := length_leBytes 8 _

/-! ## 2. Decoders -/

/-- Reads a value from the front of the input and leaves the rest. -/
abbrev Decoder (α : Type) := StateT Bytes Option α

/-- The next `n` bytes. -/
def take (n : Nat) : Decoder Bytes := fun bs =>
  if n ≤ bs.length then some (bs.take n, bs.drop n) else none

def u8 : Decoder UInt8
  | [] => none
  | b :: bs => some (b, bs)

def u32 : Decoder UInt32 := do
  let bs ← take 4
  pure (UInt32.ofNat (ofLeBytes bs))

def u64 : Decoder UInt64 := do
  let bs ← take 8
  pure (UInt64.ofNat (ofLeBytes bs))

/-- `[u8; n]`. -/
def array (n : Nat) : Decoder (Vector UInt8 n) := fun bs =>
  if h : n ≤ bs.length then some (⟨(bs.take n).toArray, by simp [h]⟩, bs.drop n) else none

/-- `Option<T>`: any tag other than 0 and 1 is an error. -/
def option {α : Type} (d : Decoder α) : Decoder (Option α) := do
  let tag ← u8
  if tag = 0 then pure none
  else if tag = 1 then do
    let a ← d
    pure (some a)
  else fun _ => none

def many {α : Type} (d : Decoder α) : Nat → Decoder (List α)
  | 0 => pure []
  | n + 1 => do
    let a ← d
    let l ← many d n
    pure (a :: l)

/-- `Vec<T>`. -/
def vec {α : Type} (d : Decoder α) : Decoder (List α) := do
  let n ← u32
  many d n.toNat

/-- `String`: the bytes must be valid, in the sense the caller gives. -/
def string (valid : Bytes → Bool) : Decoder Bytes := do
  let n ← u32
  let bs ← take n.toNat
  if valid bs then pure bs else fun _ => none

variable {α β : Type} {d : Decoder α} {f : α → Decoder β} {a a' : α} {b : β} {e e' bs rest : Bytes}

theorem bind_apply : (d >>= f) bs = (d bs).bind fun x => f x.1 x.2 := rfl

theorem bind_eq_some :
    (d >>= f) bs = some (b, rest) ↔ ∃ a mid, d bs = some (a, mid) ∧ f a mid = some (b, rest) := by
  rw [bind_apply, Option.bind_eq_some_iff]
  simp only [Prod.exists]

/-! ## 3. What a decoder reads -/

/-- On input that starts with `e`, the decoder reads exactly `e` and returns `a`. -/
def Reads (d : Decoder α) (e : Bytes) (a : α) : Prop := ∀ rest, d (e ++ rest) = some (a, rest)

theorem reads_pure (a : α) : Reads (pure a) [] a := fun _ => rfl

theorem reads_bind (h : Reads d e a) (h' : Reads (f a) e' b) : Reads (d >>= f) (e ++ e') b := by
  intro rest
  rw [List.append_assoc, bind_apply, h (e' ++ rest)]
  exact h' rest

/-- What follows a part that was read is up to the next decoder. -/
theorem reads_then (h : Reads d e a) (rest : Bytes) : (d >>= f) (e ++ rest) = f a rest := by
  rw [bind_apply, h rest]
  rfl

/-- A last step that reads nothing. -/
theorem reads_map {g : α → β} (h : Reads d e a) : Reads (d >>= fun x => pure (g x)) e (g a) := by
  intro rest
  rw [reads_then h]
  rfl

/-- Distinct values that one decoder reads are encoded differently. -/
theorem reads_inj (h : Reads d e a) (h' : Reads d e a') : a = a' := by
  have hsame := (h []).symm.trans (h' [])
  cases hsame
  rfl

theorem reads_take : Reads (take e.length) e e := by
  intro rest
  simp [take]

theorem reads_u8 (b : UInt8) : Reads u8 [b] b := fun _ => rfl

theorem reads_u32 (x : UInt32) : Reads u32 (encU32 x) x := by
  have htake : Reads (take 4) (encU32 x) (encU32 x) := by
    have h := reads_take (e := encU32 x)
    rw [encU32, length_leBytes] at h
    exact h
  have hx : UInt32.ofNat (ofLeBytes (encU32 x)) = x := by
    rw [encU32, ofLeBytes_leBytes x.toNat_lt, UInt32.ofNat_toNat]
  have h := reads_map (g := fun bs => UInt32.ofNat (ofLeBytes bs)) htake
  rw [hx] at h
  exact h

theorem reads_u64 (x : UInt64) : Reads u64 (encU64 x) x := by
  have htake : Reads (take 8) (encU64 x) (encU64 x) := by
    have h := reads_take (e := encU64 x)
    rw [encU64, length_leBytes] at h
    exact h
  have hx : UInt64.ofNat (ofLeBytes (encU64 x)) = x := by
    rw [encU64, ofLeBytes_leBytes x.toNat_lt, UInt64.ofNat_toNat]
  have h := reads_map (g := fun bs => UInt64.ofNat (ofLeBytes bs)) htake
  rw [hx] at h
  exact h

theorem encU64_inj {x y : UInt64} (h : encU64 x = encU64 y) : x = y :=
  reads_inj (reads_u64 x) (h ▸ reads_u64 y)

theorem reads_array {n : Nat} (v : Vector UInt8 n) : Reads (array n) v.toList v := by
  intro rest
  have hlen : n ≤ (v.toList ++ rest).length := by simp
  rw [array, dif_pos hlen]
  have htake : (v.toList ++ rest).take n = v.toList := by simp
  have hdrop : (v.toList ++ rest).drop n = rest := by simp
  simp only [htake, hdrop, Option.some.injEq, Prod.mk.injEq, and_true]
  exact Vector.toArray_inj.mp Array.toArray_toList

theorem reads_none : Reads (option d) [0] none := fun _ => rfl

theorem reads_some (h : Reads d e a) : Reads (option d) (1 :: e) (some a) := by
  intro rest
  show (d >>= fun a => pure (some a)) (e ++ rest) = _
  exact reads_map h rest

theorem reads_many {enc : α → Bytes} (l : List α) (h : ∀ a ∈ l, Reads d (enc a) a) :
    Reads (many d l.length) (l.flatMap enc) l := by
  induction l with
  | nil => exact reads_pure []
  | cons a l ih =>
    have htail := ih fun b hb => h b (List.mem_cons_of_mem _ hb)
    exact reads_bind (h a List.mem_cons_self) (reads_map htail)

theorem reads_vec {enc : α → Bytes} {l : List α} (hlen : l.length < 2 ^ 32)
    (h : ∀ a ∈ l, Reads d (enc a) a) :
    Reads (vec d) (encU32 (UInt32.ofNat l.length) ++ l.flatMap enc) l := by
  refine reads_bind (reads_u32 _) ?_
  rw [UInt32.toNat_ofNat', Nat.mod_eq_of_lt hlen]
  exact reads_many l h

theorem reads_string {valid : Bytes → Bool} (hlen : e.length < 2 ^ 32) (hvalid : valid e = true) :
    Reads (string valid) (encU32 (UInt32.ofNat e.length) ++ e) e := by
  refine reads_bind (reads_u32 _) ?_
  rw [UInt32.toNat_ofNat', Nat.mod_eq_of_lt hlen]
  intro rest
  rw [reads_then reads_take, if_pos hvalid]
  rfl

/-! ## 4. How much a decoder has read -/

theorem sized_take {n : Nat} (h : take n bs = some (e, rest)) : bs.length = n + rest.length := by
  unfold take at h
  split at h
  · cases h
    simp only [List.length_drop]
    omega
  · cases h

theorem sized_u32 {x : UInt32} (h : u32 bs = some (x, rest)) : bs.length = 4 + rest.length := by
  obtain ⟨e, mid, htake, hpure⟩ := bind_eq_some.mp h
  cases hpure
  exact sized_take htake

theorem sized_u64 {x : UInt64} (h : u64 bs = some (x, rest)) : bs.length = 8 + rest.length := by
  obtain ⟨e, mid, htake, hpure⟩ := bind_eq_some.mp h
  cases hpure
  exact sized_take htake

theorem sized_array {n : Nat} {v : Vector UInt8 n} (h : array n bs = some (v, rest)) :
    bs.length = n + rest.length := by
  unfold array at h
  split at h
  · cases h
    simp only [List.length_drop]
    omega
  · cases h

theorem sized_many {w n : Nat} {l : List α}
    (hd : ∀ {bs a rest}, d bs = some (a, rest) → bs.length = w + rest.length)
    (h : many d n bs = some (l, rest)) : bs.length = w * l.length + rest.length := by
  induction n generalizing bs l with
  | zero =>
    cases h
    simp
  | succ n ih =>
    obtain ⟨a, mid, ha, h⟩ := bind_eq_some.mp h
    obtain ⟨l', mid', hl, hpure⟩ := bind_eq_some.mp h
    cases hpure
    have hhead := hd ha
    have htail := ih hl
    rw [List.length_cons, Nat.mul_succ]
    omega

theorem sized_vec {w : Nat} {l : List α}
    (hd : ∀ {bs a rest}, d bs = some (a, rest) → bs.length = w + rest.length)
    (h : vec d bs = some (l, rest)) : bs.length = 4 + w * l.length + rest.length := by
  obtain ⟨n, mid, hn, hl⟩ := bind_eq_some.mp h
  have hhead := sized_u32 hn
  have htail := sized_many hd hl
  omega

end Borsh
