import MaximProtocol.Library.Borsh

/-!
# Codecs

A codec writes values as lists of tokens and reads them back from the front of a longer
list. Its two laws are fields: it reads what it has written, whatever follows, and it
accepts nothing else. The rules that build one codec from others carry the laws along.

* `decode_eq_some`: the two laws as one equivalence.
* `keyed`: a first part is read, and selects how the rest is read.
* `u8` .. `option`: the Borsh formats, over any alphabet that contains the bytes, with
  what they can write (`*_valid`), what they write (`*_encode`), and, over bytes, their
  agreement with the decoders of `Borsh` (`*_decode`).
* `Spelling`: an alphabet with `n` tokens for each value of a type that bytes cannot tell
  apart.
-/

namespace Codecs

open Borsh (leBytes ofLeBytes length_leBytes ofLeBytes_leBytes)

/-- An alphabet that contains the bytes. -/
class Alphabet (τ : Type) where
  ofByte : UInt8 → τ
  byte? : τ → Option UInt8
  byte?_eq_some : ∀ {t b}, byte? t = some b ↔ t = ofByte b

instance : Alphabet UInt8 := ⟨id, some, by simp⟩

structure Codec (τ α : Type) where
  encode : α → List τ
  decode : List τ → Option (α × List τ)
  /-- The values that can be written. -/
  Valid : α → Prop
  reads : ∀ {a}, Valid a → ∀ rest, decode (encode a ++ rest) = some (a, rest)
  writes : ∀ {l a rest}, decode l = some (a, rest) → Valid a ∧ l = encode a ++ rest

namespace Codec

variable {τ α β : Type} {c : Codec τ α} {d : Codec τ β} {a : α} {l rest : List τ}

/-- What a codec accepts is exactly an encoding, followed by what it leaves. -/
theorem decode_eq_some :
    c.decode l = some (a, rest) ↔ c.Valid a ∧ l = c.encode a ++ rest := by
  constructor
  · exact c.writes
  · rintro ⟨ha, rfl⟩
    exact c.reads ha rest

/-! ## 1. Building codecs -/

/-- One token. -/
def atom (inj : α → τ) (prj : τ → Option α) (h : ∀ {t a}, prj t = some a ↔ t = inj a) :
    Codec τ α where
  encode a := [inj a]
  decode
    | [] => none
    | t :: l => (prj t).map fun a => (a, l)
  Valid _ := True
  reads {a} _ rest := by
    show (prj (inj a)).map _ = _
    rw [h.mpr rfl]
    rfl
  writes {l a rest} hl := by
    cases l with
    | nil => cases hl
    | cons t l =>
      obtain ⟨b, hb, he⟩ := Option.map_eq_some_iff.mp hl
      cases he
      rw [h.mp hb]
      exact ⟨trivial, rfl⟩

/-- No token, for one value. -/
def const (b : β) : Codec τ β where
  encode _ := []
  decode l := some (b, l)
  Valid b' := b' = b
  reads h _ := by rw [h]; rfl
  writes h := by
    cases h
    exact ⟨rfl, rfl⟩

/-- Accepts nothing. -/
def fail : Codec τ α where
  encode _ := []
  decode _ := none
  Valid _ := False
  reads h := h.elim
  writes h := by cases h

def prod (c : Codec τ α) (d : Codec τ β) : Codec τ (α × β) where
  encode x := c.encode x.1 ++ d.encode x.2
  decode l := (c.decode l).bind fun x => (d.decode x.2).map fun y => ((x.1, y.1), y.2)
  Valid x := c.Valid x.1 ∧ d.Valid x.2
  reads {x} h rest := by
    rw [List.append_assoc, c.reads h.1, Option.bind_some, d.reads h.2]
    rfl
  writes {l x rest} h := by
    obtain ⟨⟨a, mid⟩, ha, h⟩ := Option.bind_eq_some_iff.mp h
    obtain ⟨⟨b, rest'⟩, hb, he⟩ := Option.map_eq_some_iff.mp h
    cases he
    obtain ⟨hva, rfl⟩ := c.writes ha
    obtain ⟨hvb, rfl⟩ := d.writes hb
    exact ⟨⟨hva, hvb⟩, (List.append_assoc _ _ _).symm⟩

theorem prod_reads {c : Codec τ α} {d : Codec τ β} (h : c.Valid a) (rest : List τ) :
    (c.prod d).decode (c.encode a ++ rest) =
      (d.decode rest).map fun y => ((a, y.1), y.2) := by
  show Option.bind _ _ = _
  rw [c.reads h]
  rfl

/-- Another type of values: those that `g` turns into valid ones and `f` back. -/
def via (c : Codec τ α) (f : α → β) (g : β → α) (gf : ∀ {a}, c.Valid a → g (f a) = a) :
    Codec τ β where
  encode b := c.encode (g b)
  decode l := (c.decode l).map fun x => (f x.1, x.2)
  Valid b := c.Valid (g b) ∧ f (g b) = b
  reads {b} h rest := by
    rw [c.reads h.1, Option.map_some, h.2]
  writes {l b rest} h := by
    obtain ⟨⟨a, rest'⟩, ha, he⟩ := Option.map_eq_some_iff.mp h
    cases he
    obtain ⟨hva, rfl⟩ := c.writes ha
    show (c.Valid (g (f a)) ∧ f (g (f a)) = f a) ∧ _ = c.encode (g (f a)) ++ _
    rw [gf hva]
    exact ⟨⟨hva, rfl⟩, rfl⟩

/-- One case of a sum: the values `f a`, which `g` recognises. -/
def case (c : Codec τ α) (f : α → β) (g : β → Option α)
    (h : ∀ {a b}, g b = some a ↔ b = f a) : Codec τ β where
  encode b := ((g b).map c.encode).getD []
  decode l := (c.decode l).map fun x => (f x.1, x.2)
  Valid b := ∃ a, b = f a ∧ c.Valid a
  reads {b} hb rest := by
    obtain ⟨a, rfl, ha⟩ := hb
    rw [h.mpr rfl, Option.map_some, Option.getD_some, c.reads ha]
    rfl
  writes {l b rest} hl := by
    obtain ⟨⟨a, rest'⟩, ha, he⟩ := Option.map_eq_some_iff.mp hl
    cases he
    obtain ⟨hva, rfl⟩ := c.writes ha
    refine ⟨⟨a, rfl, hva⟩, ?_⟩
    rw [h.mpr rfl]
    rfl

/-- Values that also pass a test. -/
def refine (c : Codec τ α) (test : α → Bool) : Codec τ α where
  encode := c.encode
  decode l := (c.decode l).bind fun x => if test x.1 then some x else none
  Valid a := c.Valid a ∧ test a = true
  reads {a} h rest := by
    rw [c.reads h.1, Option.bind_some, if_pos h.2]
  writes {l a rest} h := by
    obtain ⟨x, hx, h⟩ := Option.bind_eq_some_iff.mp h
    by_cases ht : test x.1 = true
    · rw [if_pos ht] at h
      cases h
      exact ⟨⟨(c.writes hx).1, ht⟩, (c.writes hx).2⟩
    · rw [if_neg ht] at h
      cases h

/-- The key of a value is read first, and selects the codec of the value. -/
def keyed (c : Codec τ α) (key : β → α) (d : α → Codec τ β)
    (hkey : ∀ {a b}, (d a).Valid b → key b = a) : Codec τ β where
  encode b := c.encode (key b) ++ (d (key b)).encode b
  decode l := (c.decode l).bind fun x => (d x.1).decode x.2
  Valid b := c.Valid (key b) ∧ (d (key b)).Valid b
  reads {b} h rest := by
    rw [List.append_assoc, c.reads h.1]
    exact (d (key b)).reads h.2 rest
  writes {l b rest} h := by
    obtain ⟨⟨a, mid⟩, ha, hb⟩ := Option.bind_eq_some_iff.mp h
    obtain ⟨hva, rfl⟩ := c.writes ha
    obtain ⟨hvb, rfl⟩ := (d a).writes hb
    obtain rfl := hkey hvb
    exact ⟨⟨hva, hvb⟩, (List.append_assoc _ _ _).symm⟩

/-- Exactly `n` values. -/
def many (c : Codec τ α) : Nat → Codec τ (List α)
  | 0 => const []
  | n + 1 => (c.prod (many c n)).case (fun x => x.1 :: x.2)
      (fun | [] => none | a :: l => some (a, l))
      (fun {x l} => by cases l <;> simp [Prod.ext_iff, eq_comm])

theorem many_valid {n : Nat} {xs : List α} :
    (many c n).Valid xs ↔ xs.length = n ∧ ∀ a ∈ xs, c.Valid a := by
  induction n generalizing xs with
  | zero =>
    show xs = [] ↔ _
    rw [← List.length_eq_zero_iff]
    constructor
    · intro h
      rw [List.length_eq_zero_iff] at h
      subst h
      exact ⟨rfl, fun a ha => absurd ha List.not_mem_nil⟩
    · exact And.left
  | succ n ih =>
    show (∃ x : α × List α, xs = x.1 :: x.2 ∧ c.Valid x.1 ∧ (many c n).Valid x.2) ↔ _
    constructor
    · rintro ⟨⟨a, l⟩, rfl, ha, hl⟩
      obtain ⟨hlen, hall⟩ := ih.mp hl
      refine ⟨congrArg Nat.succ hlen, fun b hb => ?_⟩
      rcases List.mem_cons.mp hb with rfl | hb
      · exact ha
      · exact hall b hb
    · rintro ⟨hlen, hall⟩
      cases xs with
      | nil => cases hlen
      | cons a l =>
        exact ⟨(a, l), rfl, hall a List.mem_cons_self,
          ih.mpr ⟨Nat.succ.inj hlen, fun b hb => hall b (List.mem_cons_of_mem _ hb)⟩⟩

theorem many_encode (c : Codec τ α) (xs : List α) :
    (many c xs.length).encode xs = xs.flatMap c.encode := by
  induction xs with
  | nil => rfl
  | cons a xs ih =>
    show c.encode a ++ (many c xs.length).encode xs = _
    rw [ih, List.flatMap_cons]

end Codec

/-! ## 2. Borsh -/

/-- The digits of a number give the number, and the number its digits. -/
theorem leBytes_ofLeBytes (l : List UInt8) : leBytes l.length (ofLeBytes l) = l := by
  induction l with
  | nil => rfl
  | cons b l ih =>
    have hdiv : (b.toNat + 256 * ofLeBytes l) / 256 = ofLeBytes l := by
      rw [Nat.add_mul_div_left _ _ (by decide), Nat.div_eq_of_lt b.toNat_lt, Nat.zero_add]
    have hmod : UInt8.ofNat (b.toNat + 256 * ofLeBytes l) = b := by
      rw [← UInt8.toNat_inj, UInt8.toNat_ofNat', Nat.add_mul_mod_self_left]
      exact Nat.mod_eq_of_lt b.toNat_lt
    show UInt8.ofNat (b.toNat + 256 * ofLeBytes l) ::
      leBytes l.length ((b.toNat + 256 * ofLeBytes l) / 256) = b :: l
    rw [hdiv, hmod, ih]

theorem ofLeBytes_lt (l : List UInt8) : ofLeBytes l < 256 ^ l.length := by
  induction l with
  | nil => exact Nat.one_pos
  | cons b l ih =>
    show b.toNat + 256 * ofLeBytes l < 256 ^ (l.length + 1)
    have hb : b.toNat < 256 := b.toNat_lt
    rw [Nat.pow_succ]
    omega

open Codec

variable {τ : Type} [Alphabet τ] {α : Type}

def u8 : Codec τ UInt8 := atom Alphabet.ofByte Alphabet.byte? Alphabet.byte?_eq_some

def u32 : Codec τ UInt32 :=
  (many u8 4).via (fun l => UInt32.ofNat (ofLeBytes l)) (fun x => leBytes 4 x.toNat) <| by
    intro l hl
    obtain ⟨hlen, _⟩ := many_valid.mp hl
    have hlt := ofLeBytes_lt l
    rw [hlen] at hlt
    show leBytes 4 (UInt32.ofNat (ofLeBytes l)).toNat = l
    rw [UInt32.toNat_ofNat_of_lt' hlt, ← hlen]
    exact leBytes_ofLeBytes l

def u64 : Codec τ UInt64 :=
  (many u8 8).via (fun l => UInt64.ofNat (ofLeBytes l)) (fun x => leBytes 8 x.toNat) <| by
    intro l hl
    obtain ⟨hlen, _⟩ := many_valid.mp hl
    have hlt := ofLeBytes_lt l
    rw [hlen] at hlt
    show leBytes 8 (UInt64.ofNat (ofLeBytes l)).toNat = l
    rw [UInt64.toNat_ofNat_of_lt' hlt, ← hlen]
    exact leBytes_ofLeBytes l

/-- An `i64` is written as the `u64` with the same bits. -/
def i64 : Codec τ Int64 := u64.via Int64.ofUInt64 Int64.toUInt64 fun _ => rfl

/-- `[u8; n]`. -/
def array (n : Nat) : Codec τ (Vector UInt8 n) :=
  (many u8 n).via
    (fun l => if h : l.length = n then ⟨l.toArray, by rw [List.size_toArray, h]⟩
      else Vector.replicate n 0) Vector.toList <| by
    intro l hl
    obtain ⟨hlen, _⟩ := many_valid.mp hl
    rw [dif_pos hlen]
    rfl

/-- `Vec<T>`: the length, and the elements. -/
def vec (c : Codec τ α) : Codec τ (List α) :=
  u32.keyed (fun l => UInt32.ofNat l.length) (fun n => many c n.toNat) <| by
    intro n l hl
    rw [(many_valid.mp hl).1, UInt32.ofNat_toNat]

/-- `String`: a vector of bytes that are valid, in the sense the caller gives. -/
def string (valid : List UInt8 → Bool) : Codec τ (List UInt8) := (vec u8).refine valid

/-- `bool`: any byte other than 0 and 1 is an error. -/
def bool : Codec τ Bool :=
  u8.keyed (fun b => if b then 1 else 0)
    (fun tag => if tag = 0 then const false else if tag = 1 then const true else fail) <| by
    intro tag b hb
    split at hb
    · next h => rw [show b = false from hb, h]; rfl
    · split at hb
      · next h => rw [show b = true from hb, h]; rfl
      · exact hb.elim

/-- `Option<T>`: any tag other than 0 and 1 is an error. -/
def option (c : Codec τ α) : Codec τ (Option α) :=
  u8.keyed (fun o => if o.isSome then 1 else 0)
    (fun tag => if tag = 0 then const none
      else if tag = 1 then c.case some id (by simp) else fail) <| by
    intro tag o ho
    split at ho
    · next h => rw [show o = none from ho, h]; rfl
    · split at ho
      · next h =>
        obtain ⟨a, rfl, _⟩ := ho
        exact h.symm
      · exact ho.elim

/-! ## 3. What can be written -/

@[simp] theorem u8_valid (b : UInt8) : (u8 : Codec τ UInt8).Valid b := trivial

theorem bytes_valid (n x : Nat) : (many (u8 : Codec τ UInt8) n).Valid (leBytes n x) :=
  many_valid.mpr ⟨length_leBytes n x, fun b _ => u8_valid b⟩

@[simp] theorem u32_valid (x : UInt32) : (u32 : Codec τ UInt32).Valid x := by
  refine ⟨bytes_valid 4 _, ?_⟩
  show UInt32.ofNat (ofLeBytes (leBytes 4 x.toNat)) = x
  rw [ofLeBytes_leBytes x.toNat_lt, UInt32.ofNat_toNat]

@[simp] theorem u64_valid (x : UInt64) : (u64 : Codec τ UInt64).Valid x := by
  refine ⟨bytes_valid 8 _, ?_⟩
  show UInt64.ofNat (ofLeBytes (leBytes 8 x.toNat)) = x
  rw [ofLeBytes_leBytes x.toNat_lt, UInt64.ofNat_toNat]

@[simp] theorem i64_valid (x : Int64) : (i64 : Codec τ Int64).Valid x :=
  ⟨u64_valid _, rfl⟩

@[simp] theorem array_valid {n : Nat} (v : Vector UInt8 n) :
    (array n : Codec τ (Vector UInt8 n)).Valid v := by
  refine ⟨many_valid.mpr ⟨v.length_toList, fun b _ => u8_valid b⟩, ?_⟩
  show (if h : v.toList.length = n then _ else _) = v
  rw [dif_pos v.length_toList]
  exact Vector.toArray_inj.mp Array.toArray_toList

theorem vec_valid {c : Codec τ α} {l : List α} :
    (vec c).Valid l ↔ l.length < 2 ^ 32 ∧ ∀ a ∈ l, c.Valid a := by
  show u32.Valid _ ∧ (many c (UInt32.ofNat l.length).toNat).Valid l ↔ _
  rw [many_valid, UInt32.toNat_ofNat']
  constructor
  · rintro ⟨_, hlen, hall⟩
    exact ⟨hlen ▸ Nat.mod_lt _ (by decide), hall⟩
  · rintro ⟨hlen, hall⟩
    exact ⟨u32_valid _, (Nat.mod_eq_of_lt hlen).symm, hall⟩

theorem string_valid {valid : List UInt8 → Bool} {l : List UInt8} :
    (string valid : Codec τ (List UInt8)).Valid l ↔ l.length < 2 ^ 32 ∧ valid l = true := by
  show (vec u8).Valid l ∧ _ ↔ _
  rw [vec_valid]
  constructor
  · rintro ⟨⟨hlen, _⟩, hl⟩
    exact ⟨hlen, hl⟩
  · rintro ⟨hlen, hl⟩
    exact ⟨⟨hlen, fun b _ => u8_valid b⟩, hl⟩

@[simp] theorem bool_valid (b : Bool) : (bool : Codec τ Bool).Valid b := by
  cases b <;> exact ⟨trivial, rfl⟩

theorem option_valid {c : Codec τ α} {o : Option α} :
    (option c).Valid o ↔ ∀ a, o = some a → c.Valid a := by
  cases o with
  | none =>
    constructor
    · intro _ a ha
      cases ha
    · intro _
      exact ⟨trivial, rfl⟩
  | some a =>
    constructor
    · rintro ⟨_, b, hb, hv⟩ a' ha'
      cases ha'
      cases hb
      exact hv
    · intro h
      exact ⟨trivial, a, rfl, h a rfl⟩

/-! ## 4. What is written -/

/-- Bytes, as tokens. -/
def ofBytes (l : List UInt8) : List τ := l.map Alphabet.ofByte

theorem ofBytes_append (l m : List UInt8) :
    (ofBytes (l ++ m) : List τ) = ofBytes l ++ ofBytes m := List.map_append

theorem ofByte_injective : Function.Injective (Alphabet.ofByte : UInt8 → τ) := fun _ _ h =>
  Option.some.inj ((Alphabet.byte?_eq_some.mpr rfl).symm.trans (Alphabet.byte?_eq_some.mpr h))

/-- What follows bytes among bytes is bytes. -/
theorem ofBytes_eq_append {l m : List UInt8} {tail : List τ}
    (h : (ofBytes l : List τ) = ofBytes m ++ tail) :
    ∃ rest, l = m ++ rest ∧ tail = ofBytes rest := by
  obtain ⟨m', rest, rfl, hm, rfl⟩ := List.map_eq_append_iff.mp h
  obtain rfl := List.map_injective_iff.mpr ofByte_injective hm
  exact ⟨rest, rfl, rfl⟩

theorem bytes_encode (l : List UInt8) :
    (many (u8 : Codec τ UInt8) l.length).encode l = ofBytes l := by
  rw [many_encode]
  exact List.map_eq_flatMap.symm

theorem u32_encode (x : UInt32) : (u32 : Codec τ UInt32).encode x = ofBytes (Borsh.encU32 x) := by
  have h := bytes_encode (τ := τ) (leBytes 4 x.toNat)
  rw [length_leBytes] at h
  exact h

theorem u64_encode (x : UInt64) : (u64 : Codec τ UInt64).encode x = ofBytes (Borsh.encU64 x) := by
  have h := bytes_encode (τ := τ) (leBytes 8 x.toNat)
  rw [length_leBytes] at h
  exact h

theorem array_encode {n : Nat} (v : Vector UInt8 n) :
    (array n : Codec τ (Vector UInt8 n)).encode v = ofBytes v.toList := by
  have h := bytes_encode (τ := τ) v.toList
  rw [v.length_toList] at h
  exact h

theorem vec_encode {c : Codec τ α} {l : List α} (h : l.length < 2 ^ 32) :
    (vec c).encode l = ofBytes (Borsh.encU32 (UInt32.ofNat l.length)) ++ l.flatMap c.encode := by
  show u32.encode _ ++ (many c (UInt32.ofNat l.length).toNat).encode l = _
  rw [u32_encode, UInt32.toNat_ofNat_of_lt' h, many_encode]

theorem string_encode {valid : List UInt8 → Bool} {l : List UInt8} (h : l.length < 2 ^ 32) :
    (string valid : Codec τ (List UInt8)).encode l =
      ofBytes (Borsh.encU32 (UInt32.ofNat l.length)) ++ ofBytes l := by
  show (vec u8).encode l = _
  rw [vec_encode h]
  exact congrArg _ List.map_eq_flatMap.symm

theorem option_encode {c : Codec τ α} (o : Option α) :
    (option c).encode o = match o with
      | none => ofBytes [0]
      | some a => ofBytes [1] ++ c.encode a := by
  cases o with
  | none => rfl
  | some a => rfl

section Parts

variable {β : Type} {c : Codec τ α} {d : Codec τ β}

omit [Alphabet τ] in
@[simp] theorem prod_encode (x : α × β) :
    (c.prod d).encode x = c.encode x.1 ++ d.encode x.2 := rfl

omit [Alphabet τ] in
@[simp] theorem prod_valid (x : α × β) :
    (c.prod d).Valid x ↔ c.Valid x.1 ∧ d.Valid x.2 := Iff.rfl

omit [Alphabet τ] in
@[simp] theorem via_encode {f : α → β} {g : β → α} {gf} (b : β) :
    (c.via f g gf).encode b = c.encode (g b) := rfl

omit [Alphabet τ] in
@[simp] theorem via_valid {f : α → β} {g : β → α} {gf} (b : β) :
    (c.via f g gf).Valid b ↔ c.Valid (g b) ∧ f (g b) = b := Iff.rfl

end Parts

/-! ## 5. Values that no bytes stand for -/

/-- The bytes, and `n` tokens for each value of a type that may be infinite. -/
inductive Spelling (α : Type) (n : Nat) where
  | byte (b : UInt8)
  | part (a : α) (i : Fin n)
  deriving DecidableEq

namespace Spelling

variable {n : Nat}

instance : Alphabet (Spelling α n) where
  ofByte := .byte
  byte?
    | .byte b => some b
    | .part _ _ => none
  byte?_eq_some {t b} := by cases t <;> simp

/-- The parts of a value, in order. -/
def spell (a : α) : List (Spelling α n) := List.ofFn (part a)

/-- The value that the first token is a part of. -/
def named? : List (Spelling α n) → Option α
  | part a _ :: _ => some a
  | _ => none

theorem length_spell (a : α) : (spell a : List (Spelling α n)).length = n := List.length_ofFn

theorem named_spell (a : α) (rest : List (Spelling α (n + 1))) :
    named? (spell a ++ rest) = some a := by
  rw [spell, List.ofFn_succ, List.cons_append]
  rfl

/-- A value is written as its parts. -/
def codec [DecidableEq α] : Codec (Spelling α (n + 1)) α where
  encode := spell
  decode l := (named? l).bind fun a =>
    if l.take (n + 1) = spell a then some (a, l.drop (n + 1)) else none
  Valid _ := True
  reads {a} _ rest := by
    rw [named_spell, Option.bind_some, if_pos (List.take_left' (length_spell a)),
      List.drop_left' (length_spell a)]
  writes {l a rest} h := by
    obtain ⟨a', _, h⟩ := Option.bind_eq_some_iff.mp h
    split at h
    · next htake =>
      cases h
      exact ⟨trivial, by rw [← htake, List.take_append_drop]⟩
    · cases h

end Spelling

/-! ## 6. The decoders of Borsh -/

section Borsh

variable {c : Codec UInt8 α} {d : Borsh.Decoder α}

theorem bytes_decode (n : Nat) (bs : List UInt8) :
    (many (u8 : Codec UInt8 UInt8) n).decode bs = Borsh.take n bs := by
  induction n generalizing bs with
  | zero => rfl
  | succ n ih =>
    cases bs with
    | nil => rfl
    | cons b bs =>
      show (((many u8 n).decode bs).map fun y => ((b, y.1), y.2)).map
        (fun x => (x.1.1 :: x.1.2, x.2)) = _
      rw [ih]
      unfold Borsh.take
      rw [List.length_cons]
      by_cases h : n ≤ bs.length
      · rw [if_pos h, if_pos (Nat.succ_le_succ h)]
        rfl
      · rw [if_neg h, if_neg fun h' => h (Nat.le_of_succ_le_succ h')]
        rfl

theorem u8_decode : (u8 : Codec UInt8 UInt8).decode = Borsh.u8 := by
  funext bs
  cases bs <;> rfl

theorem u32_decode : (u32 : Codec UInt8 UInt32).decode = Borsh.u32 := by
  funext bs
  show ((many u8 4).decode bs).map _ = (Borsh.take 4 bs).bind _
  rw [bytes_decode]
  cases Borsh.take 4 bs <;> rfl

theorem u64_decode : (u64 : Codec UInt8 UInt64).decode = Borsh.u64 := by
  funext bs
  show ((many u8 8).decode bs).map _ = (Borsh.take 8 bs).bind _
  rw [bytes_decode]
  cases Borsh.take 8 bs <;> rfl

theorem array_decode (n : Nat) :
    (array n : Codec UInt8 (Vector UInt8 n)).decode = Borsh.array n := by
  funext bs
  show ((many u8 n).decode bs).map _ = _
  rw [bytes_decode]
  unfold Borsh.take Borsh.array
  by_cases h : n ≤ bs.length
  · have hlen : (bs.take n).length = n := List.length_take_of_le h
    rw [if_pos h, dif_pos h, Option.map_some]
    simp only [hlen, dite_true]
  · rw [if_neg h, dif_neg h]
    rfl

theorem many_decode (h : c.decode = d) (n : Nat) : (many c n).decode = Borsh.many d n := by
  induction n with
  | zero => rfl
  | succ n ih =>
    funext bs
    show (((c.decode bs).bind fun x => ((many c n).decode x.2).map fun y =>
      ((x.1, y.1), y.2)).map fun x => (x.1.1 :: x.1.2, x.2)) = _
    rw [ih, h]
    show _ = (d bs).bind fun x => (Borsh.many d n x.2).bind fun y => some (x.1 :: y.1, y.2)
    cases d bs with
    | none => rfl
    | some x => cases h : Borsh.many d n x.2 <;> simp [h]

theorem vec_decode (h : c.decode = d) : (vec c).decode = Borsh.vec d := by
  funext bs
  show (u32.decode bs).bind (fun x => (many c x.1.toNat).decode x.2) = _
  rw [u32_decode]
  unfold Borsh.vec
  rw [Borsh.bind_apply]
  simp only [many_decode h]

theorem string_decode (valid : List UInt8 → Bool) :
    (string valid : Codec UInt8 (List UInt8)).decode = Borsh.string valid := by
  funext bs
  show ((u32.decode bs).bind fun x => (many u8 x.1.toNat).decode x.2).bind _ = _
  rw [u32_decode]
  simp only [bytes_decode]
  unfold Borsh.string
  rw [Borsh.bind_apply, Option.bind_assoc]
  refine congrArg _ (funext fun x => ?_)
  rw [Borsh.bind_apply]
  refine congrArg _ (funext fun y => ?_)
  split <;> rfl

theorem option_decode (h : c.decode = d) : (option c).decode = Borsh.option d := by
  funext bs
  cases bs with
  | nil => rfl
  | cons tag bs =>
    show (if tag = 0 then const none
      else if tag = 1 then c.case some id (by simp) else fail : Codec UInt8 (Option α)).decode bs =
      (if tag = 0 then pure none else if tag = 1 then _ else _ : Borsh.Decoder (Option α)) bs
    by_cases h0 : tag = 0
    · rw [if_pos h0, if_pos h0]
      rfl
    · rw [if_neg h0, if_neg h0]
      by_cases h1 : tag = 1
      · rw [if_pos h1, if_pos h1, Borsh.bind_apply]
        show (c.decode bs).map _ = _
        rw [h]
        cases d bs <;> rfl
      · rw [if_neg h1, if_neg h1]
        rfl

/-- A record whose fields are read one after the other: the first, and the others. -/
theorem prod_decode {β γ : Type} {e : Codec UInt8 β} (h : c.decode = d)
    (k : (α × β) × List UInt8 → γ × List UInt8) :
    (fun bs => ((c.prod e).decode bs).map k) =
      (d >>= fun a bs => (e.decode bs).map fun y => k ((a, y.1), y.2) : Borsh.Decoder γ) := by
  funext bs
  rw [Borsh.bind_apply, ← h]
  show Option.map k (Option.bind _ _) = _
  rw [Option.map_bind]
  refine congrArg _ (funext fun x => ?_)
  exact Option.map_map _ _ _

/-- The last field of a record. -/
theorem last_decode {γ : Type} (h : c.decode = d) (f : α → γ) :
    (fun bs => (c.decode bs).map fun x => (f x.1, x.2)) =
      (d >>= fun a => pure (f a) : Borsh.Decoder γ) := by
  funext bs
  rw [Borsh.bind_apply, ← h]
  cases c.decode bs <;> rfl

end Borsh

end Codecs
