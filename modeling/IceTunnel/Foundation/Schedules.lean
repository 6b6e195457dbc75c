import Mathlib.Algebra.BigOperators.Group.Finset.Basic
import Mathlib.Algebra.Order.Field.Rat
import Mathlib.Tactic.Linarith
import Mathlib.Tactic.Ring

/-!
Things that happen by a schedule: the first not before a start, each further one not before
an interval later.  A time to wait for may be rounded up or down by chance, the more often up
the larger the remainder is.
-/

namespace IceTunnel.Schedules

/-- The newest comes first: `n` things have a time of `n` intervals ahead of the next one. -/
def Late (startUs intervalUs : Int) : List Nat → Prop
  | [] => True
  | timeUs :: earlier =>
      startUs + earlier.length * intervalUs ≤ timeUs ∧ Late startUs intervalUs earlier

variable {startUs intervalUs : Int} {times : List Nat}

/-- Up to any time no more has happened than the schedule has room for. -/
theorem Late.length_filter_le (h : Late startUs intervalUs times) (hinterval : 0 < intervalUs) {timeUs : Nat}
    (htime : startUs ≤ timeUs) : ((times.filter (· ≤ timeUs)).length - 1 : Int) * intervalUs ≤
      timeUs - startUs := by
  induction times with
  | nil =>
      simp only [List.filter_nil, List.length_nil]
      omega
  | cons newest earlier ih =>
      obtain ⟨hnewest, hearlier⟩ := h
      rw [List.filter_cons]
      split
      · rename_i hle
        have hnow : newest ≤ timeUs := of_decide_eq_true hle
        have hfewer : ((earlier.filter (· ≤ timeUs)).length : Int) ≤ earlier.length := by
          exact_mod_cast List.length_filter_le _ _
        have hroom : ((earlier.filter (· ≤ timeUs)).length : Int) * intervalUs ≤
            earlier.length * intervalUs :=
          mul_le_mul_of_nonneg_right hfewer hinterval.le
        rw [List.length_cons]
        push_cast
        have hcast : (newest : Int) ≤ timeUs := by exact_mod_cast hnow
        linarith
      · exact ih hearlier

theorem Late.length_filter_le_rate (h : Late startUs intervalUs times) (hinterval : 0 < intervalUs)
    {timeUs : Nat} (htime : startUs ≤ timeUs) : ((times.filter (· ≤ timeUs)).length : Rat) ≤
      1 + ((timeUs : Rat) - startUs) / intervalUs := by
  have hbound := h.length_filter_le hinterval htime
  have hpos : (0 : Rat) < intervalUs := by exact_mod_cast hinterval
  have hcast : (((times.filter (· ≤ timeUs)).length : Rat) - 1) * intervalUs ≤
      (timeUs : Rat) - startUs := by exact_mod_cast hbound
  have hdiv := (le_div_iff₀ hpos).mpr hcast
  linarith

section Dithering

open Finset

/-- `a / n`, rounded by the chance `r`. -/
def dither (n a r : Nat) : Nat :=
  (a + r % n) / n

variable {n : Nat} (a r : Nat)

theorem mul_dither_lt (hn : 0 < n) : n * dither n a r < a + n :=
  calc
    n * dither n a r ≤ a + r % n := Nat.mul_div_le _ _
    _ < a + n := Nat.add_lt_add_left (Nat.mod_lt r hn) a

theorem sum_dither (hn : 0 < n) : ∑ r ∈ range n, dither n a r = a := by
  have hsame : ∀ b, ∑ r ∈ range n, dither n b r = ∑ r ∈ range n, (b + r) / n := by
    intro b
    refine sum_congr rfl fun r hr => ?_
    rw [dither, Nat.mod_eq_of_lt (mem_range.mp hr)]
  rw [hsame]
  induction a with
  | zero => exact sum_eq_zero fun r hr => by rw [Nat.zero_add, Nat.div_eq_of_lt (mem_range.mp hr)]
  | succ a ih =>
      -- one more moves the first summand to the end, where it counts one more
      obtain ⟨m, rfl⟩ := Nat.exists_eq_succ_of_ne_zero hn.ne'
      rw [sum_range_succ'] at ih
      rw [sum_range_succ]
      have hlast : (a + 1 + m) / (m + 1) = (a + 0) / (m + 1) + 1 := by
        rw [Nat.add_zero, Nat.add_assoc, Nat.add_comm 1 m]
        exact Nat.add_div_right _ hn
      have hrest : ∑ r ∈ range m, (a + 1 + r) / (m + 1) = ∑ r ∈ range m, (a + (r + 1)) / (m + 1) :=
        sum_congr rfl fun r _ => by rw [Nat.add_assoc, Nat.add_comm 1 r]
      rw [hlast, hrest, ← Nat.add_assoc, ih]

end Dithering

end IceTunnel.Schedules
