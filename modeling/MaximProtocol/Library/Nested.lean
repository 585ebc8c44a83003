import MaximProtocol.Library.Tumbling
import Mathlib.Algebra.Ring.Divisibility.Basic

/-!
# Nested tumbling windows

Two tumbling windows charged together, the period `d` of the finer one dividing the period
`D` of the coarser. If they start on one grid they stay nested for any times of the charges,
also for times that go back: the finer window lies within the coarser, and holds no more.

* `roll_forces`: when the coarser window has to move, so has the finer.
* `roll_nested`, `charge_nested`, `chargeAll_nested`: rolling and charging keep them nested.
* `charge_forces`: a charge that moves the coarser window moves and clears the finer.
-/

namespace Tumbling

/-! ## 1. One charge -/

/-- The window `v` of period `d` lies on the grid of the window `w` of period `D`, within
it, and holds no more. -/
structure Nested (d D : Int) (v w : Window) : Prop where
  start_le : w.start ≤ v.start
  before_end : v.start < w.start + D
  aligned : d ∣ v.start - w.start
  spent_le : v.spent ≤ w.spent

variable {cap : Nat} {d D now : Int} {v w : Window} {c : Charge}

/-- The next point of a grid is a period away. -/
theorem next_le {a b : Int} (h : d ∣ b - a) (hlt : a < b) : a + d ≤ b := by
  have hle := Int.le_of_dvd (by omega) h
  omega

theorem nested_refl (hD : 0 < D) (w : Window) : Nested d D w w where
  start_le := le_rfl
  before_end := by omega
  aligned := by simp
  spent_le := le_rfl

/-- Rolling moves a window by whole periods. -/
theorem roll_aligned (D now : Int) (w : Window) : D ∣ (roll D now w).start - w.start := by
  unfold roll
  split
  · rw [add_sub_cancel_left]
    exact Dvd.intro_left _ rfl
  · simp

/-- Rolling never adds to what a window holds. -/
theorem roll_spent_le (D now : Int) (w : Window) : (roll D now w).spent ≤ w.spent := by
  unfold roll
  split
  · exact Nat.zero_le _
  · exact le_rfl

/-- **The coarser window moves only if the finer one does.** -/
theorem roll_forces (hdvd : d ∣ D) (h : Nested d D v w) (hnow : w.start + D ≤ now) :
    v.start + d ≤ now := by
  have haligned : d ∣ (w.start + D) - v.start := by
    have hsub := dvd_sub hdvd h.aligned
    rwa [sub_sub_eq_add_sub, add_comm D] at hsub
  exact (next_le haligned h.before_end).trans hnow

theorem roll_nested (hd : 0 < d) (hD : 0 < D) (hdvd : d ∣ D) (h : Nested d D v w) :
    Nested d D (roll d now v) (roll D now w) := by
  have haligned : d ∣ (roll d now v).start - (roll D now w).start := by
    have hv := roll_aligned d now v
    have hw := hdvd.trans (roll_aligned D now w)
    have hsum := dvd_sub (dvd_add hv h.aligned) hw
    have heq : (roll d now v).start - v.start + (v.start - w.start) -
        ((roll D now w).start - w.start) = (roll d now v).start - (roll D now w).start := by ring
    rwa [heq] at hsum
  have hend : now < (roll d now v).start + d := lt_roll_start_add hd
  by_cases hw : w.start + D ≤ now
  · -- both windows move, to the periods of the two grids that contain `now`
    have hv := roll_forces hdvd h hw
    have hfine : (roll d now v).start ≤ now := by
      rw [roll_of_le hv]
      exact periodStart_le hd
    have hcoarse : (roll D now w).start ≤ now := by
      rw [roll_of_le hw]
      exact periodStart_le hD
    have hcoarse' : now < (roll D now w).start + D := lt_roll_start_add hD
    refine ⟨?_, by omega, haligned, ?_⟩
    · by_contra hlt
      rw [dvd_sub_comm] at haligned
      have := next_le haligned (not_le.mp hlt)
      omega
    · rw [roll_of_le hv]
      exact Nat.zero_le _
  · -- only the finer window may move, and it stays within the coarser
    have hstart : v.start ≤ (roll d now v).start := le_roll_start hd
    have hle : (roll d now v).start ≤ max v.start now :=
      roll_start_le hd (le_max_left _ _) (le_max_right _ _)
    have hbefore := h.before_end
    rw [roll_of_lt (not_le.mp hw)] at haligned ⊢
    exact ⟨h.start_le.trans hstart, by omega, haligned, (roll_spent_le d now v).trans h.spent_le⟩

theorem charge_nested (hd : 0 < d) (hD : 0 < D) (hdvd : d ∣ D) (h : Nested d D v w) :
    Nested d D (charge cap d v c) (charge cap D w c) := by
  have hroll : Nested d D (roll d c.time v) (roll D c.time w) := roll_nested hd hD hdvd h
  refine ⟨hroll.start_le, hroll.before_end, hroll.aligned, ?_⟩
  have hspent := hroll.spent_le
  rw [charge_spent, charge_spent]
  omega

/-! ## 2. After any charges -/

variable {l : List Charge}

theorem chargeAll_nested (hd : 0 < d) (hD : 0 < D) (hdvd : d ∣ D) (h : Nested d D v w) :
    Nested d D (chargeAll cap d v l) (chargeAll cap D w l) := by
  induction l using List.reverseRecOn with
  | nil => exact h
  | append_singleton l c ih =>
    rw [chargeAll_snoc, chargeAll_snoc]
    exact charge_nested hd hD hdvd ih

/-- A window never leaves its grid. -/
theorem chargeAll_aligned : D ∣ (chargeAll cap D w l).start - w.start := by
  induction l using List.reverseRecOn with
  | nil => simp [chargeAll]
  | append_singleton l c ih =>
    have hroll := roll_aligned D c.time (chargeAll cap D w l)
    have hsum := dvd_add hroll ih
    rwa [sub_add_sub_cancel, ← charge_start, ← chargeAll_snoc] at hsum

/-- A window never holds more than all the charges. -/
theorem chargeAll_spent_le (hw : w.spent ≤ cap) :
    (chargeAll cap D w l).spent ≤ min cap (w.spent + total l) := by
  induction l using List.reverseRecOn with
  | nil =>
    rw [total_nil]
    exact le_min hw le_rfl
  | append_singleton l c ih =>
    have hroll := roll_spent_le D c.time (chargeAll cap D w l)
    rw [chargeAll_snoc, charge_spent, total_append, total_singleton]
    omega

/-! ## 3. When a charge moves a window -/

/-- A charge to a window whose period is over moves it and clears it first. -/
theorem charge_elapsed (hD : 0 < D) (h : w.start + D ≤ c.time) :
    w.start < (charge cap D w c).start ∧ (charge cap D w c).spent = min cap c.amount := by
  have hstart := add_le_periodStart hD h
  rw [charge_start, charge_spent, roll_of_le h]
  simp only [Nat.zero_add, and_true]
  omega

/-- A charge moves a window only if its period is over. -/
theorem elapsed_of_charge (h : (charge cap D w c).start ≠ w.start) : w.start + D ≤ c.time := by
  by_contra hlt
  rw [charge_start, roll_of_lt (not_le.mp hlt)] at h
  exact h rfl

/-- A charge that moves the coarser window finds the finer one over, too. -/
theorem charge_forces (hd : 0 < d) (hdvd : d ∣ D) (h : Nested d D v w)
    (hmove : (charge cap D w c).start ≠ w.start) :
    v.start < (charge cap d v c).start ∧ (charge cap d v c).spent = min cap c.amount :=
  charge_elapsed hd (roll_forces hdvd h (elapsed_of_charge hmove))

end Tumbling
