import Mathlib.Data.List.Induction
import Mathlib.Data.Int.Basic
import Mathlib.Tactic.Ring
import Mathlib.Tactic.Linarith

/-!
# Windows that restart

A quota counts hits in a window of length `W`. The window has no grid: the first hit
after its end restarts it, at the time of that hit. Windows therefore start at least
`W` apart, and there can be any gap between two of them.

`hits_le`: if the count is at most `N` after every hit, any interval of length `W`
contains at most `2 * N` hits.
`uses_le`: the bound for an interval of `n` windows, where the quota may be set anew.
-/

namespace Restarting

/-- The start of the current window and the hits counted in it. -/
@[ext]
structure Quota where
  start : Int
  count : Nat

variable (W : Int)

/-- Start a new window at `now` if the current one has ended. -/
def restart (now : Int) (q : Quota) : Quota := if q.start + W ≤ now then ⟨now, 0⟩ else q

def hit (q : Quota) (now : Int) : Quota :=
  { restart W now q with count := (restart W now q).count + 1 }

def hitAll (q : Quota) (l : List Int) : Quota := l.foldl (hit W) q

/-- The number of hits in `[t, t + W)`. -/
def inside (t : Int) (l : List Int) : Nat := l.countP fun c => t ≤ c && c < t + W

variable {W} {N : Nat} {t c now : Int} {q : Quota} {l : List Int}

theorem restart_of_le (h : q.start + W ≤ now) : restart W now q = ⟨now, 0⟩ := if_pos h

theorem restart_of_lt (h : now < q.start + W) : restart W now q = q := if_neg (by omega)

@[simp] theorem hitAll_snoc : hitAll W q (l ++ [c]) = hit W (hitAll W q l) c := by
  simp [hitAll]

theorem inside_snoc :
    inside W t (l ++ [c]) = inside W t l + if t ≤ c ∧ c < t + W then 1 else 0 := by
  unfold inside
  rw [List.countP_append, List.countP_singleton]
  by_cases h : t ≤ c ∧ c < t + W
  · simp [h]
  · have hf : (decide (t ≤ c) && decide (c < t + W)) = false := by
      simpa [Bool.and_eq_false_iff] using h
    rw [hf, if_neg h]
    rfl

/-- The hits so far all came before the end of the current window. -/
def Recent (W : Int) (l : List Int) (q : Quota) : Prop := ∀ c ∈ l, c < q.start + W

/-- What is known of the hits in `[t, t + W)`: they fall in the current window, or in it
and the one before, or the interval is over. -/
inductive Slides (W t : Int) (N : Nat) (l : List Int) (q : Quota) : Prop
  | one : q.start ≤ t → inside W t l ≤ q.count → Slides W t N l q
  | two : t < q.start → inside W t l ≤ N + q.count → Slides W t N l q
  | past : t + W ≤ q.start → inside W t l ≤ 2 * N → Slides W t N l q

theorem slides_le (h : Slides W t N l q) (hq : q.count ≤ N) : inside W t l ≤ 2 * N := by
  cases h with
  | one _ h => omega
  | two _ h => omega
  | past _ h => exact h

/-- A hit in the current window. -/
theorem slides_same (h : Slides W t N l q) (hc : q.start ≤ c) :
    Slides W t N (l ++ [c]) ⟨q.start, q.count + 1⟩ := by
  have hsum := inside_snoc (W := W) (t := t) (l := l) (c := c)
  have hone : (if t ≤ c ∧ c < t + W then 1 else 0) ≤ 1 := by split <;> omega
  cases h with
  | one hs hle => exact .one hs (by show inside W t (l ++ [c]) ≤ q.count + 1; omega)
  | two hs hle => exact .two hs (by show inside W t (l ++ [c]) ≤ N + (q.count + 1); omega)
  | past hs hle =>
    rw [if_neg (by omega)] at hsum
    exact .past hs (by omega)

/-- A hit that starts a new window. -/
theorem slides_restart (hW : 0 < W) (h : Slides W t N l q) (hrecent : Recent W l q)
    (hq : q.count ≤ N) (hc : q.start + W ≤ c) : Slides W t N (l ++ [c]) ⟨c, 1⟩ := by
  have hsum := inside_snoc (W := W) (t := t) (l := l) (c := c)
  have hone : (if t ≤ c ∧ c < t + W then 1 else 0) ≤ 1 := by split <;> omega
  cases h with
  | one hs hle =>
    rcases lt_or_ge t c with htc | htc
    · exact .two htc (by show inside W t (l ++ [c]) ≤ N + 1; omega)
    · -- every earlier hit came before the interval
      have hnone : inside W t l = 0 := by
        rw [inside, List.countP_eq_zero]
        intro d hd
        have := hrecent d hd
        simp only [Bool.and_eq_true, decide_eq_true_eq]
        omega
      exact .one htc (by show inside W t (l ++ [c]) ≤ 1; omega)
  | two hs hle =>
    rw [if_neg (by omega)] at hsum
    exact .past (by show t + W ≤ c; omega) (by omega)
  | past hs hle =>
    rw [if_neg (by omega)] at hsum
    exact .past (by show t + W ≤ c; omega) (by omega)

/-- One hit keeps what is known, if the count before it was at most `N`. -/
theorem slides_hit (hW : 0 < W) (h : Slides W t N l q) (hrecent : Recent W l q)
    (hq : q.count ≤ N) (hc : q.start ≤ c) :
    Slides W t N (l ++ [c]) (hit W q c) ∧ Recent W (l ++ [c]) (hit W q c) ∧
      (hit W q c).start ≤ c := by
  unfold hit Recent
  rcases lt_or_ge c (q.start + W) with hin | hout
  · rw [restart_of_lt hin]
    refine ⟨slides_same h hc, ?_, hc⟩
    intro d hd
    rcases List.mem_append.mp hd with hd | hd
    · exact hrecent d hd
    · rw [List.mem_singleton.mp hd]
      exact hin
  · rw [restart_of_le hout]
    refine ⟨slides_restart hW h hrecent hq hout, ?_, Int.le_refl c⟩
    intro d hd
    show d < c + W
    rcases List.mem_append.mp hd with hd | hd
    · have := hrecent d hd
      omega
    · rw [List.mem_singleton.mp hd]
      omega

/-- If the count is at most `N` after every hit, no interval of length `W` contains more
than `2 * N` hits. -/
theorem hits_le (hW : 0 < W) (hl : (q.start :: l).Pairwise (· ≤ ·))
    (hN : ∀ l₁ l₂, l = l₁ ++ l₂ → (hitAll W q l₁).count ≤ N) : inside W t l ≤ 2 * N := by
  suffices h : Slides W t N l (hitAll W q l) ∧ Recent W l (hitAll W q l) ∧
      ∀ c, (∀ d ∈ q.start :: l, d ≤ c) → (hitAll W q l).start ≤ c from
    slides_le h.1 (hN l [] (by simp))
  -- the induction is on the hits, last one last
  induction l using List.reverseRecOn with
  | nil =>
    refine ⟨?_, fun c hc => (by cases hc), fun c hc => hc q.start (by simp)⟩
    rcases lt_or_ge t q.start with h | h
    · exact .two h (Nat.zero_le _)
    · exact .one h (Nat.zero_le _)
  | append_singleton l c ih =>
    rw [← List.cons_append, List.pairwise_append] at hl
    obtain ⟨hslides, hrecent, hstart⟩ := ih hl.1 fun l₁ l₂ h => hN l₁ (l₂ ++ [c]) (by simp [h])
    have hc : (hitAll W q l).start ≤ c := hstart c fun d hd => hl.2.2 d hd c (by simp)
    obtain ⟨hslides, hrecent, hlast⟩ := slides_hit hW hslides hrecent (hN l [c] rfl) hc
    rw [hitAll_snoc]
    exact ⟨hslides, hrecent, fun d hd => hlast.trans (hd c (by simp))⟩

/-! ## Quotas that are set anew

A quota may be replaced while it counts, by one with another window length. -/

/-- A hit while the window had the length `width`, or the quota set anew. -/
inductive Use
  | hit (width time : Int)
  | reset (time : Int)

def Use.time : Use → Int
  | .hit _ time => time
  | .reset time => time

def use (q : Quota) : Use → Quota
  | .hit width time => Restarting.hit width q time
  | .reset time => ⟨time, 0⟩

def useAll (q : Quota) (l : List Use) : Quota := l.foldl use q

/-- The hits in `[t, t + L)`. -/
def hitsWithin (t L : Int) (l : List Use) : Nat :=
  l.countP fun
    | .hit _ time => t ≤ time && time < t + L
    | .reset _ => false

/-- How often the quota was set anew in `[t, t + L)`. -/
def resetsWithin (t L : Int) (l : List Use) : Nat :=
  l.countP fun
    | .hit _ _ => false
    | .reset time => t ≤ time && time < t + L

section Uses

variable {L width : Int} {u : Use} {uses : List Use} {n : Nat}

@[simp] theorem useAll_snoc : useAll q (uses ++ [u]) = use (useAll q uses) u := by
  simp [useAll]

theorem hitsWithin_hit : hitsWithin t L (uses ++ [.hit width c]) =
    hitsWithin t L uses + if t ≤ c ∧ c < t + L then 1 else 0 := by
  rw [hitsWithin, List.countP_append, List.countP_singleton]
  simp only [Bool.and_eq_true, decide_eq_true_eq]
  rfl

@[simp] theorem hitsWithin_reset :
    hitsWithin t L (uses ++ [.reset c]) = hitsWithin t L uses := by
  simp [hitsWithin]

@[simp] theorem resetsWithin_hit :
    resetsWithin t L (uses ++ [.hit width c]) = resetsWithin t L uses := by
  simp [resetsWithin]

theorem resetsWithin_reset : resetsWithin t L (uses ++ [.reset c]) =
    resetsWithin t L uses + if t ≤ c ∧ c < t + L then 1 else 0 := by
  rw [resetsWithin, List.countP_append, List.countP_singleton]
  simp only [Bool.and_eq_true, decide_eq_true_eq]
  rfl

theorem hitsWithin_eq_zero (h : ∀ v ∈ uses, v.time < t) : hitsWithin t L uses = 0 := by
  rw [hitsWithin, List.countP_eq_zero]
  rintro (⟨width, c⟩ | c) hv
  · have hlt : c < t := h _ hv
    simp only [Bool.and_eq_true, decide_eq_true_eq]
    omega
  · exact Bool.false_ne_true

/-- What is known of the hits in `[t, t + n * W)`, where every window is at least `W` long:
`r` windows ended in it, or the interval is over. -/
inductive Spans (W t : Int) (N n : Nat) (l : List Use) (q : Quota) : Prop
  | within (r : Nat) : r ≤ n → (r = 0 ∨ t + (r - 1) * W ≤ q.start) →
      hitsWithin t (n * W) l ≤ (resetsWithin t (n * W) l + r) * N + q.count → Spans W t N n l q
  | past : (∃ v ∈ l, t + n * W ≤ v.time) →
      hitsWithin t (n * W) l ≤ (resetsWithin t (n * W) l + n + 1) * N → Spans W t N n l q

theorem spans_le (h : Spans W t N n uses q) (hq : q.count ≤ N) :
    hitsWithin t (n * W) uses ≤ (resetsWithin t (n * W) uses + n + 1) * N := by
  cases h with
  | within r hr _ hle =>
    calc hitsWithin t (n * W) uses
        ≤ (resetsWithin t (n * W) uses + r) * N + N := by omega
      _ = (resetsWithin t (n * W) uses + r + 1) * N := by rw [Nat.add_mul _ 1, Nat.one_mul]
      _ ≤ (resetsWithin t (n * W) uses + n + 1) * N := Nat.mul_le_mul_right N (by omega)
  | past _ hle => exact hle

/-- Nothing has been counted before the interval. -/
theorem spans_before (h : ∀ v ∈ uses, v.time < t) : Spans W t N n uses q :=
  .within 0 (Nat.zero_le n) (.inl rfl) (by rw [hitsWithin_eq_zero h]; exact Nat.zero_le _)

/-- Once the interval is over, the hits in it are the ones there were. -/
theorem spans_after {q' : Quota} (hle : hitsWithin t (n * W) uses ≤
      (resetsWithin t (n * W) uses + n + 1) * N) (hu : t + n * W ≤ u.time) :
    Spans W t N n (uses ++ [u]) q' := by
  refine .past ⟨u, by simp, hu⟩ ?_
  cases u with
  | hit width c =>
    have hout : ¬ (t ≤ c ∧ c < t + n * W) := fun hin => absurd hu (not_le.mpr hin.2)
    rw [hitsWithin_hit, if_neg hout, resetsWithin_hit]
    exact hle
  | reset c =>
    have hout : ¬ (t ≤ c ∧ c < t + n * W) := fun hin => absurd hu (not_le.mpr hin.2)
    rw [resetsWithin_reset, if_neg hout, hitsWithin_reset]
    exact hle

/-- A hit in the current window, or the first of a new one. -/
theorem spans_hit (hwidth : W ≤ width) (h : Spans W t N n uses q) (hq : q.count ≤ N)
    (hbefore : ∀ v ∈ uses, v.time ≤ c) :
    Spans W t N n (uses ++ [.hit width c]) (hit width q c) := by
  have hone : (if t ≤ c ∧ c < t + n * W then 1 else 0) ≤ 1 := by split <;> omega
  cases h with
  | past hlate hle =>
    obtain ⟨v, hv, hlate⟩ := hlate
    exact spans_after hle (hlate.trans (hbefore v hv))
  | within r hr hstart hle =>
    rw [hit]
    rcases lt_or_ge c (q.start + width) with hin | hout
    · rw [restart_of_lt hin]
      refine .within r hr hstart ?_
      rw [hitsWithin_hit, resetsWithin_hit, ← Nat.add_assoc]
      exact Nat.add_le_add hle hone
    · rw [restart_of_le hout]
      rcases lt_or_ge c t with hct | htc
      · refine .within 0 (Nat.zero_le n) (.inl rfl) ?_
        have hzero : hitsWithin t (n * W) uses = 0 :=
          hitsWithin_eq_zero fun v hv => (hbefore v hv).trans_lt hct
        rw [hitsWithin_hit, hzero, Nat.zero_add]
        exact hone.trans (Nat.le_add_left _ _)
      · -- the window that ended lies in the interval, from its `r`-th multiple of `W` on
        have hnext : t + r * W ≤ c := by
          rcases hstart with rfl | hstart
          · simpa using htc
          · have hmul : t + r * W = t + (r - 1) * W + W := by ring
            omega
        have hspent : hitsWithin t (n * W) uses ≤
            (resetsWithin t (n * W) uses + (r + 1)) * N := by
          rw [← Nat.add_assoc, Nat.add_mul _ 1, Nat.one_mul]
          omega
        rcases Nat.lt_or_ge r n with hlt | hge
        · refine .within (r + 1) hlt (.inr ?_) ?_
          · show t + ((r + 1 : Nat) - 1) * W ≤ c
            rw [Nat.cast_succ, add_sub_cancel_right]
            exact hnext
          · rw [hitsWithin_hit, resetsWithin_hit]
            exact Nat.add_le_add hspent hone
        · obtain rfl : r = n := Nat.le_antisymm hr hge
          exact spans_after hspent hnext

/-- The quota is set anew. -/
theorem spans_reset (h : Spans W t N n uses q) (hq : q.count ≤ N)
    (hbefore : ∀ v ∈ uses, v.time ≤ c) (hstart : q.start ≤ c) :
    Spans W t N n (uses ++ [.reset c]) ⟨c, 0⟩ := by
  cases h with
  | past hlate hle =>
    obtain ⟨v, hv, hlate⟩ := hlate
    exact spans_after hle (hlate.trans (hbefore v hv))
  | within r hr hr0 hle =>
    rcases lt_or_ge c t with hct | htc
    · refine .within 0 (Nat.zero_le n) (.inl rfl) ?_
      rw [hitsWithin_reset, hitsWithin_eq_zero fun v hv => (hbefore v hv).trans_lt hct]
      exact Nat.zero_le _
    · rcases lt_or_ge c (t + n * W) with hin | hout
      · refine .within r hr (hr0.imp_right fun h => h.trans hstart) ?_
        rw [resetsWithin_reset, if_pos ⟨htc, hin⟩, hitsWithin_reset, Nat.add_right_comm,
          Nat.add_mul _ 1, Nat.one_mul]
        exact hle.trans (Nat.add_le_add_left hq _)
      · exact spans_after (spans_le (.within r hr hr0 hle) hq) hout

/-- If every window is at least `W` long and the count is at most `N` after every use, the
hits in any interval of length `n * W` are at most `N` for each time the quota was set anew
in it, and `(n + 1) * N` more. -/
theorem uses_le (hl : (q.start :: uses.map Use.time).Pairwise (· ≤ ·))
    (hwidth : ∀ width c, Use.hit width c ∈ uses → W ≤ width)
    (hN : ∀ l₁ l₂, uses = l₁ ++ l₂ → (useAll q l₁).count ≤ N) :
    hitsWithin t (n * W) uses ≤ (resetsWithin t (n * W) uses + n + 1) * N := by
  suffices h : Spans W t N n uses (useAll q uses) ∧
      ∀ c, (∀ d ∈ q.start :: uses.map Use.time, d ≤ c) → (useAll q uses).start ≤ c from
    spans_le h.1 (hN uses [] (by simp))
  -- the induction is on the uses, last one last
  induction uses using List.reverseRecOn with
  | nil =>
    exact ⟨spans_before fun v hv => absurd hv List.not_mem_nil, fun c hc => hc q.start (by simp)⟩
  | append_singleton l u ih =>
    rw [List.map_append, ← List.cons_append, List.pairwise_append] at hl
    obtain ⟨hspans, hstart⟩ := ih hl.1 (fun _ _ h => hwidth _ _ (List.mem_append_left _ h))
      fun l₁ l₂ h => hN l₁ (l₂ ++ [u]) (by simp [h])
    have hcount := hN l [u] rfl
    have hlast : ∀ d ∈ q.start :: l.map Use.time, d ≤ u.time :=
      fun d hd => hl.2.2 d hd u.time (by simp)
    have hbefore : ∀ v ∈ l, v.time ≤ u.time :=
      fun v hv => hlast _ (List.mem_cons_of_mem _ (List.mem_map_of_mem hv))
    rw [useAll_snoc]
    cases u with
    | hit width c =>
      refine ⟨spans_hit (hwidth width c (by simp)) hspans hcount hbefore, fun d hd => ?_⟩
      have hc : c ≤ d := hd c (by simp [Use.time])
      rw [use, hit]
      rcases lt_or_ge c ((useAll q l).start + width) with hin | hout
      · rw [restart_of_lt hin]
        exact (hstart c hlast).trans hc
      · rw [restart_of_le hout]
        exact hc
    | reset c =>
      exact ⟨spans_reset hspans hcount hbefore (hstart c hlast),
        fun d hd => hd c (by simp [Use.time])⟩

end Uses

end Restarting
