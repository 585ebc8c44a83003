import Mathlib.Data.List.Induction
import Mathlib.Data.Int.Basic
import Mathlib.Tactic.Ring
import Mathlib.Tactic.Linarith

/-!
# Tumbling windows

A tumbling window accumulates charges in periods of length `D` laid out on a
grid. It is rolled lazily: the window moves only when a charge arrives, over as
many whole periods as have passed, and the accumulator is cleared when it moves.
The accumulator saturates at `cap`.

Results, for charges whose times never decrease:
1. `roll_chargeAll`: after any number of charges, rolling the window to a time
   `now` puts it at the period of the grid that contains `now`, and the
   accumulator holds the charges of that period.
2. `gated_sum_le`: when every gated charge of an interval of length `D` left the
   accumulator at or below `B`, the gated charges of that interval sum to at most
   `2 * B`. No alignment of the interval with the grid is needed, and the window
   may start anywhere.
3. `gated_span_le`: the bound for an interval of `n` periods.
-/

namespace Tumbling

/-- One amount charged at one time. A gated charge was checked against a limit. -/
structure Charge where
  time : Int
  amount : Nat
  gated : Bool

/-- The start of the current period and what was charged in it. -/
@[ext]
structure Window where
  start : Int
  spent : Nat

variable (cap : Nat) (D : Int)

/-- Move the window to the period that contains `now`, if that is a later one. -/
def roll (now : Int) (w : Window) : Window :=
  if w.start + D ≤ now then ⟨w.start + (now - w.start) / D * D, 0⟩ else w

def charge (w : Window) (c : Charge) : Window :=
  { roll D c.time w with spent := min cap ((roll D c.time w).spent + c.amount) }

def chargeAll (w : Window) (l : List Charge) : Window := l.foldl (charge cap D) w

/-- The start of the period that contains `now`, on the grid through `r`. -/
def periodStart (r now : Int) : Int := r + (now - r) / D * D

def total (l : List Charge) : Nat := (l.map Charge.amount).sum

/-- The charges at or after `lo`. -/
def spentSince (lo : Int) (l : List Charge) : Nat := total (l.filter fun c => lo ≤ c.time)

/-- The gated charges in `[t, t + D)`. -/
def gatedSum (t : Int) (l : List Charge) : Nat :=
  total (l.filter fun c => c.gated && t ≤ c.time && c.time < t + D)

variable {cap D} {r now t lo : Int} {w : Window} {l m : List Charge} {c : Charge}

@[simp] theorem total_nil : total [] = 0 := rfl

@[simp] theorem total_append : total (l ++ m) = total l + total m := by
  simp [total]

@[simp] theorem total_singleton : total [c] = c.amount := by
  simp [total]

@[simp] theorem chargeAll_snoc :
    chargeAll cap D w (l ++ [c]) = charge cap D (chargeAll cap D w l) c := by
  simp [chargeAll]

theorem spentSince_snoc :
    spentSince lo (l ++ [c]) = spentSince lo l + if lo ≤ c.time then c.amount else 0 := by
  unfold spentSince
  rw [List.filter_append, total_append]
  by_cases h : lo ≤ c.time <;> simp [h]

theorem gatedSum_snoc : gatedSum D t (l ++ [c]) =
    gatedSum D t l + if c.gated ∧ t ≤ c.time ∧ c.time < t + D then c.amount else 0 := by
  unfold gatedSum
  rw [List.filter_append, total_append]
  by_cases h : c.gated ∧ t ≤ c.time ∧ c.time < t + D
  · simp [h]
  · have hf : (c.gated && decide (t ≤ c.time) && decide (c.time < t + D)) = false := by
      by_contra hne
      simp only [Bool.not_eq_false, Bool.and_eq_true, decide_eq_true_eq] at hne
      exact h ⟨hne.1.1, hne.1.2, hne.2⟩
    simp [h, hf]

theorem spentSince_eq_zero (h : ∀ c ∈ l, c.time < lo) : spentSince lo l = 0 := by
  have hnil : l.filter (fun c => lo ≤ c.time) = [] := by
    rw [List.filter_eq_nil_iff]
    intro c hc
    have := h c hc
    simp only [decide_eq_true_eq]
    omega
  rw [spentSince, hnil, total_nil]

/-! ## 1. The grid -/

theorem periodStart_le (hD : 0 < D) : periodStart D r now ≤ now := by
  have := Int.ediv_mul_le (now - r) (ne_of_gt hD)
  unfold periodStart
  omega

theorem lt_periodStart_add (hD : 0 < D) : now < periodStart D r now + D := by
  have := Int.lt_ediv_add_one_mul_self (now - r) hD
  rw [Int.add_mul] at this
  unfold periodStart
  omega

/-- Moving the anchor by whole periods keeps the grid. -/
theorem periodStart_shift (hD : 0 < D) (k : Int) :
    periodStart D (r + k * D) now = periodStart D r now := by
  unfold periodStart
  have h : now - (r + k * D) = (now - r) + (-k) * D := by ring
  rw [h, Int.add_mul_ediv_right _ _ (ne_of_gt hD)]
  ring

theorem le_periodStart (hD : 0 < D) (h : r ≤ now) : r ≤ periodStart D r now := by
  have := Int.ediv_nonneg (Int.sub_nonneg_of_le h) (le_of_lt hD)
  have := Int.mul_nonneg this (le_of_lt hD)
  unfold periodStart
  omega

theorem add_le_periodStart (hD : 0 < D) (h : r + D ≤ now) : r + D ≤ periodStart D r now := by
  have hle : r + 1 * D ≤ periodStart D (r + 1 * D) now := le_periodStart hD (by omega)
  rw [periodStart_shift hD] at hle
  omega

theorem periodStart_of_lt (hr : r ≤ now) (h : now < r + D) :
    periodStart D r now = r := by
  unfold periodStart
  rw [Int.ediv_eq_zero_of_lt (by omega) (by omega)]
  ring

/-! ## 2. What rolling does -/

theorem roll_of_le (h : w.start + D ≤ now) : roll D now w = ⟨periodStart D w.start now, 0⟩ := by
  unfold roll periodStart
  rw [if_pos h]

theorem roll_of_lt (h : now < w.start + D) : roll D now w = w := by
  unfold roll
  rw [if_neg (by omega)]

theorem lt_roll_start_add (hD : 0 < D) : now < (roll D now w).start + D := by
  by_cases h : w.start + D ≤ now
  · rw [roll_of_le h]
    exact lt_periodStart_add hD
  · rw [roll_of_lt (by omega)]
    omega

theorem le_roll_start (hD : 0 < D) : w.start ≤ (roll D now w).start := by
  by_cases hw : w.start + D ≤ now
  · rw [roll_of_le hw]
    have := add_le_periodStart hD hw
    simp only
    omega
  · rw [roll_of_lt (by omega)]

theorem roll_start_le {hi : Int} (hD : 0 < D) (hw : w.start ≤ hi) (hnow : now ≤ hi) :
    (roll D now w).start ≤ hi := by
  rcases lt_or_ge now (w.start + D) with h | h
  · rw [roll_of_lt h]
    exact hw
  · rw [roll_of_le h]
    exact (periodStart_le hD).trans hnow

@[simp] theorem charge_start : (charge cap D w c).start = (roll D c.time w).start := rfl

@[simp] theorem charge_spent :
    (charge cap D w c).spent = min cap ((roll D c.time w).spent + c.amount) := rfl

/-- Charging never moves a window back. -/
theorem le_chargeAll_start (hD : 0 < D) : w.start ≤ (chargeAll cap D w l).start := by
  induction l using List.reverseRecOn with
  | nil => exact Int.le_refl _
  | append_singleton l c ih =>
    rw [chargeAll_snoc, charge_start]
    exact ih.trans (le_roll_start hD)

theorem chargeAll_start_le {hi : Int} (hD : 0 < D) (hw : w.start ≤ hi)
    (hl : ∀ c ∈ l, c.time ≤ hi) : (chargeAll cap D w l).start ≤ hi := by
  induction l using List.reverseRecOn with
  | nil => exact hw
  | append_singleton l c ih =>
    rw [chargeAll_snoc, charge_start]
    exact roll_start_le hD (ih fun d hd => hl d (by simp [hd])) (hl c (by simp))

/-! ## 3. The accumulator holds the current period -/

/-- The window `w` accounts for the charges `l` on the grid through `r`. -/
structure Tracks (cap : Nat) (D r : Int) (l : List Charge) (w : Window) : Prop where
  aligned : ∃ k : Int, w.start = r + k * D
  start_le : ∀ now, r ≤ now → (∀ c ∈ l, c.time ≤ now) → w.start ≤ now
  before_end : ∀ c ∈ l, c.time < w.start + D
  spent : w.spent = min cap (spentSince w.start l)

theorem tracks_nil : Tracks cap D r [] ⟨r, 0⟩ where
  aligned := ⟨0, by ring⟩
  start_le _ h _ := h
  before_end _ h := absurd h List.not_mem_nil
  spent := by simp [spentSince]

theorem roll_tracks (hD : 0 < D) (h : Tracks cap D r l w) (hr : r ≤ now)
    (hl : ∀ c ∈ l, c.time ≤ now) :
    roll D now w = ⟨periodStart D r now, min cap (spentSince (periodStart D r now) l)⟩ := by
  obtain ⟨k, hk⟩ := h.aligned
  have hgrid : periodStart D w.start now = periodStart D r now := by
    rw [hk]
    exact periodStart_shift hD k
  have hle : w.start ≤ now := h.start_le now hr hl
  by_cases hw : w.start + D ≤ now
  · -- all charges are before the end of the old period, so none is in the new one
    have hzero : spentSince (periodStart D r now) l = 0 := by
      apply spentSince_eq_zero
      intro c hc
      have := h.before_end c hc
      have := add_le_periodStart hD hw
      omega
    rw [roll_of_le hw, hgrid, hzero, Nat.min_eq_right (Nat.zero_le _)]
  · have hstart : periodStart D r now = w.start := by
      rw [← hgrid]
      exact periodStart_of_lt hle (by omega)
    rw [roll_of_lt (by omega), hstart, ← h.spent]

theorem tracks_snoc (hD : 0 < D) (h : Tracks cap D r l w) (hr : r ≤ c.time)
    (hl : ∀ d ∈ l, d.time ≤ c.time) : Tracks cap D r (l ++ [c]) (charge cap D w c) := by
  have hroll := roll_tracks hD h hr hl
  have hend : c.time < periodStart D r c.time + D := lt_periodStart_add hD
  refine ⟨⟨(c.time - r) / D, ?_⟩, ?_, ?_, ?_⟩
  · rw [charge_start, hroll]
    rfl
  · intro now _ hnow
    rw [charge_start, hroll]
    have : c.time ≤ now := hnow c (by simp)
    have : periodStart D r c.time ≤ c.time := periodStart_le hD
    simp only
    omega
  · intro d hd
    rw [charge_start, hroll]
    simp only [List.mem_append, List.mem_singleton] at hd
    rcases hd with hd | rfl
    · have := hl d hd
      simp only
      omega
    · exact hend
  · have hstart : periodStart D r c.time ≤ c.time := periodStart_le hD
    rw [charge_spent, charge_start, hroll, spentSince_snoc, if_pos hstart]
    simp only
    omega

theorem chargeAll_tracks (hD : 0 < D) (hr : ∀ c ∈ l, r ≤ c.time)
    (hl : l.Pairwise fun c d => c.time ≤ d.time) :
    Tracks cap D r l (chargeAll cap D ⟨r, 0⟩ l) := by
  induction l using List.reverseRecOn with
  | nil => exact tracks_nil
  | append_singleton l c ih =>
    rw [List.pairwise_append] at hl
    rw [chargeAll_snoc]
    have hprev := ih (fun d hd => hr d (by simp [hd])) hl.1
    exact tracks_snoc hD hprev (hr c (by simp)) fun d hd => hl.2.2 d hd c (by simp)

/-- Rolled to `now`, the window sits at the period of the grid that contains
`now` and holds the charges of that period. -/
theorem roll_chargeAll (hD : 0 < D) (hr : ∀ c ∈ l, r ≤ c.time)
    (hl : l.Pairwise fun c d => c.time ≤ d.time) (hnow : r ≤ now)
    (hlast : ∀ c ∈ l, c.time ≤ now) :
    roll D now (chargeAll cap D ⟨r, 0⟩ l) =
      ⟨periodStart D r now, min cap (spentSince (periodStart D r now) l)⟩ :=
  roll_tracks hD (chargeAll_tracks hD hr hl) hnow hlast

/-! ## 4. Any interval of one period length -/

/-- What is known of the gated charges of `[t, t + D)` after the charges `l`:
they all fall in the current period of the window, or in it and an earlier one
that ended inside the interval, or the interval is over. -/
inductive Slides (cap : Nat) (D t : Int) (B : Nat) (l : List Charge) (w : Window) : Prop
  | one : gatedSum D t l ≤ B → min cap (gatedSum D t l) ≤ w.spent →
      (gatedSum D t l = 0 ∨ t < w.start + D) → Slides cap D t B l w
  | two (old new : Nat) : gatedSum D t l = old + new → old ≤ B → new ≤ B →
      min cap new ≤ w.spent → t < w.start → Slides cap D t B l w
  | past : gatedSum D t l ≤ 2 * B → (∃ c ∈ l, t + D ≤ c.time) → Slides cap D t B l w

theorem slides_le {B : Nat} (h : Slides cap D t B l w) : gatedSum D t l ≤ 2 * B := by
  cases h with
  | one h _ _ => omega
  | two old new h ho hn _ _ => omega
  | past h _ => exact h

/-- Once a charge came after the interval, later ones do not count. -/
theorem past_snoc {B : Nat} {w' : Window} (hl : ∀ d ∈ l, d.time ≤ c.time)
    (hsum : gatedSum D t l ≤ 2 * B) (hlate : ∃ d ∈ l, t + D ≤ d.time) :
    Slides cap D t B (l ++ [c]) w' := by
  obtain ⟨d, hd, hlate⟩ := hlate
  have hle := hl d hd
  have hout : ¬ (c.gated = true ∧ t ≤ c.time ∧ c.time < t + D) := fun hin => by omega
  refine .past ?_ ⟨d, by simp [hd], hlate⟩
  rw [gatedSum_snoc, if_neg hout]
  exact hsum

/-- One charge keeps `Slides`, if it left the accumulator at or below `B` in case
it is gated and in the interval. -/
theorem slides_snoc {B : Nat} (hD : 0 < D) (hB : B < cap) (h : Slides cap D t B l w)
    (hl : ∀ d ∈ l, d.time ≤ c.time)
    (hc : c.gated → t ≤ c.time → c.time < t + D → (charge cap D w c).spent ≤ B) :
    Slides cap D t B (l ++ [c]) (charge cap D w c) := by
  rw [charge_spent] at hc
  have hsum := gatedSum_snoc (D := D) (t := t) (l := l) (c := c)
  have hend : c.time < (roll D c.time w).start + D := lt_roll_start_add hD
  by_cases hw : w.start + D ≤ c.time
  · -- the window moves: everything counted so far is in a period that has ended
    have hstart : w.start + D ≤ (roll D c.time w).start := by
      rw [roll_of_le hw]
      exact add_le_periodStart hD hw
    have hclear : (roll D c.time w).spent = 0 := by rw [roll_of_le hw]
    rw [hclear] at hc
    cases h with
    | one hsumB hspent hzero =>
      rcases hzero with hzero | ht
      · refine .one ?_ ?_ ?_
        · split at hsum
          · next hin => have := hc hin.1 hin.2.1 hin.2.2; omega
          · omega
        · rw [charge_spent, hclear]
          split at hsum <;> omega
        · rw [charge_start]
          split at hsum
          · next hin => exact .inr (by omega)
          · exact .inl (by omega)
      · refine .two (gatedSum D t l) _ hsum hsumB ?_ ?_ ?_
        · split
          · next hin => have := hc hin.1 hin.2.1 hin.2.2; omega
          · exact Nat.zero_le _
        · rw [charge_spent, hclear]
          split <;> omega
        · rw [charge_start]
          omega
    | two old new hon ho hn hspent ht =>
      -- two periods began inside the interval, so a third begins after its end
      have hout : ¬ (c.gated = true ∧ t ≤ c.time ∧ c.time < t + D) := fun hin => by omega
      rw [if_neg hout] at hsum
      exact .past (by omega) ⟨c, by simp, by omega⟩
    | past hsumB hlate => exact past_snoc hl hsumB hlate
  · -- the window stays: the charge joins the current period
    have hstay : roll D c.time w = w := roll_of_lt (by omega)
    rw [hstay] at hc
    cases h with
    | one hsumB hspent hzero =>
      refine .one ?_ ?_ ?_
      · split at hsum
        · next hin => have := hc hin.1 hin.2.1 hin.2.2; omega
        · omega
      · rw [charge_spent, hstay]
        split at hsum <;> omega
      · rw [charge_start, hstay]
        split at hsum
        · next hin => exact .inr (by omega)
        · rcases hzero with hzero | ht
          · exact .inl (by omega)
          · exact .inr ht
    | two old new hon ho hn hspent ht =>
      rw [hon, Nat.add_assoc] at hsum
      refine .two old _ hsum ho ?_ ?_ ?_
      · split
        · next hin => have := hc hin.1 hin.2.1 hin.2.2; omega
        · omega
      · rw [charge_spent, hstay]
        split <;> omega
      · rw [charge_start, hstay]
        exact ht
    | past hsumB hlate => exact past_snoc hl hsumB hlate

/-- When every gated charge of `[t, t + D)` left the accumulator at or below `B`,
the gated charges of that interval sum to at most `2 * B`. -/
theorem gated_sum_le {B : Nat} (hD : 0 < D) (hB : B < cap)
    (hl : l.Pairwise fun c d => c.time ≤ d.time)
    (hc : ∀ l₁ c l₂, l = l₁ ++ c :: l₂ → c.gated → t ≤ c.time → c.time < t + D →
      (charge cap D (chargeAll cap D w l₁) c).spent ≤ B) :
    gatedSum D t l ≤ 2 * B := by
  -- the induction is on the charges, last one last, and `Slides` is what it carries
  suffices h : Slides cap D t B l (chargeAll cap D w l) from slides_le h
  induction l using List.reverseRecOn with
  | nil => exact .one (by simp [gatedSum]) (by simp [gatedSum]) (.inl (by simp [gatedSum]))
  | append_singleton l c ih =>
    rw [List.pairwise_append] at hl
    rw [chargeAll_snoc]
    have hprev := ih hl.1 fun l₁ d l₂ hd => hc l₁ d (l₂ ++ [c]) (by simp [hd])
    exact slides_snoc hD hB hprev (fun d hd => hl.2.2 d hd c (by simp)) (hc l c [] rfl)

/-! ## 5. Any number of periods -/

section Spans

variable {n B : Nat}

/-- What is known of the gated charges in `[t, t + n * D)`: `r` periods ended in it, or the
interval is over. The charges of ended periods make up `old`, those of the current one
`new`. -/
inductive Spans (cap : Nat) (D t : Int) (B n : Nat) (l : List Charge) (w : Window) : Prop
  | within (r old new : Nat) : r ≤ n → gatedSum (n * D) t l = old + new → old ≤ r * B → new ≤ B →
      min cap new ≤ w.spent → (gatedSum (n * D) t l = 0 ∨ t + (r - 1) * D < w.start) →
      Spans cap D t B n l w
  | past : (∃ c ∈ l, t + n * D ≤ c.time) → gatedSum (n * D) t l ≤ (n + 1) * B →
      Spans cap D t B n l w

theorem spans_le (h : Spans cap D t B n l w) : gatedSum (n * D) t l ≤ (n + 1) * B := by
  cases h with
  | within r old new hr hsum hold hnew _ _ =>
    calc gatedSum (n * D) t l ≤ (r + 1) * B := by rw [Nat.add_mul, Nat.one_mul]; omega
      _ ≤ (n + 1) * B := Nat.mul_le_mul_right B (by omega)
  | past _ hle => exact hle

theorem spans_after {w' : Window} (hle : gatedSum (n * D) t l ≤ (n + 1) * B)
    (hc : t + n * D ≤ c.time) : Spans cap D t B n (l ++ [c]) w' := by
  have hout : ¬ (c.gated = true ∧ t ≤ c.time ∧ c.time < t + n * D) :=
    fun hin => absurd hc (not_le.mpr hin.2.2)
  refine .past ⟨c, by simp, hc⟩ ?_
  rw [gatedSum_snoc, if_neg hout]
  exact hle

/-- What is counted of a charge was within the limit, if anything is. -/
theorem counted_le {L : Int} {spent : Nat} (hB : B < cap)
    (hc : c.gated → t ≤ c.time → c.time < t + L → min cap (spent + c.amount) ≤ B) :
    (if c.gated ∧ t ≤ c.time ∧ c.time < t + L then c.amount else 0) = 0 ∨
      (t ≤ c.time ∧ spent + c.amount ≤ B) := by
  by_cases hin : c.gated = true ∧ t ≤ c.time ∧ c.time < t + L
  · have := hc hin.1 hin.2.1 hin.2.2
    exact .inr ⟨hin.2.1, by omega⟩
  · exact .inl (if_neg hin)

/-- One charge keeps `Spans`, if it left the accumulator at or below `B` in case it is
gated and in the interval. -/
theorem spans_snoc (hD : 0 < D) (hB : B < cap) (h : Spans cap D t B n l w)
    (hl : ∀ d ∈ l, d.time ≤ c.time)
    (hc : c.gated → t ≤ c.time → c.time < t + n * D → (charge cap D w c).spent ≤ B) :
    Spans cap D t B n (l ++ [c]) (charge cap D w c) := by
  rw [charge_spent] at hc
  have hsum : gatedSum (n * D) t (l ++ [c]) = gatedSum (n * D) t l +
      if c.gated ∧ t ≤ c.time ∧ c.time < t + n * D then c.amount else 0 := gatedSum_snoc
  have hle : (if c.gated ∧ t ≤ c.time ∧ c.time < t + n * D then c.amount else 0) ≤ c.amount := by
    split <;> omega
  have hend : c.time < (roll D c.time w).start + D := lt_roll_start_add hD
  have hcounted := counted_le hB hc
  generalize (if c.gated ∧ t ≤ c.time ∧ c.time < t + n * D then c.amount else 0) = m at *
  cases h with
  | past hlate hpast =>
    obtain ⟨d, hd, hlate⟩ := hlate
    exact spans_after hpast (hlate.trans (hl d hd))
  | within r old new hr hsplit hold hnew hspent hstart =>
    rcases hstart with hzero | hstart
    · -- nothing was counted yet, so the charge is the first
      refine .within 0 0 m (Nat.zero_le n) (by omega) (Nat.zero_le _) (by omega) ?_ ?_
      · rw [charge_spent]
        omega
      · rw [charge_start]
        rcases hcounted with h0 | ⟨ht, _⟩
        · exact .inl (by omega)
        · exact .inr (by push_cast; linarith)
    · rcases lt_or_ge c.time (w.start + D) with hin | hout
      · -- the window stays: the charge joins the current period
        rw [roll_of_lt hin] at hcounted
        refine .within r old (new + m) hr (by omega) hold (by omega) ?_ (.inr ?_)
        · rw [charge_spent, roll_of_lt hin]
          omega
        · rw [charge_start, roll_of_lt hin]
          exact hstart
      · -- the window moves: everything counted so far is in a period that has ended
        have hnext : t + r * D < (roll D c.time w).start := by
          have hmul : t + r * D = t + (r - 1) * D + D := by ring
          have := add_le_periodStart hD hout
          rw [roll_of_le hout]
          show t + r * D < periodStart D w.start c.time
          omega
        have hended : gatedSum (n * D) t l ≤ (r + 1) * B := by
          rw [Nat.add_mul, Nat.one_mul]
          omega
        rcases Nat.lt_or_ge r n with hlt | hge
        · refine .within (r + 1) _ m hlt hsum hended (by omega) ?_ (.inr ?_)
          · rw [charge_spent]
            omega
          · rw [charge_start, Nat.cast_succ, add_sub_cancel_right]
            exact hnext
        · obtain rfl : r = n := Nat.le_antisymm hr hge
          refine spans_after hended (le_of_lt (hnext.trans_le ?_))
          rw [roll_of_le hout]
          exact periodStart_le hD

/-- When every gated charge of an interval of `n` periods left the accumulator at or below
`B`, the gated charges of the interval sum to at most `(n + 1) * B`. -/
theorem gated_span_le (hD : 0 < D) (hB : B < cap)
    (hl : l.Pairwise fun c d => c.time ≤ d.time)
    (hc : ∀ l₁ c l₂, l = l₁ ++ c :: l₂ → c.gated → t ≤ c.time → c.time < t + n * D →
      (charge cap D (chargeAll cap D w l₁) c).spent ≤ B) :
    gatedSum (n * D) t l ≤ (n + 1) * B := by
  suffices h : Spans cap D t B n l (chargeAll cap D w l) from spans_le h
  induction l using List.reverseRecOn with
  | nil =>
    exact .within 0 0 0 (Nat.zero_le n) rfl (Nat.zero_le _) (Nat.zero_le B) (by simp) (.inl rfl)
  | append_singleton l c ih =>
    rw [List.pairwise_append] at hl
    rw [chargeAll_snoc]
    have hprev := ih hl.1 fun l₁ d l₂ hd => hc l₁ d (l₂ ++ [c]) (by simp [hd])
    exact spans_snoc hD hB hprev (fun d hd => hl.2.2 d hd c (by simp)) (hc l c [] rfl)

end Spans

end Tumbling
