import Mathlib.Data.Int.Basic
import Mathlib.Tactic.Ring

/-!
Clock readings and durations of the Go runtime, as integers. Both count
nanoseconds; durations are 64-bit signed integers, so their sums and products
wrap, while the difference of two clock readings saturates. A timestamp column
keeps whole microseconds only.
-/

namespace Grex.GoTime

/-- The zero value of a clock reading: the first instant of the year 1. -/
def zeroTime : ℤ := -62135596800000000000

def maxDuration : ℤ := 9223372036854775807

def minDuration : ℤ := -9223372036854775808

/-- The value a wrapped 64-bit signed result has. -/
def int64 (x : ℤ) : ℤ := Int.bmod x (2 ^ 64)

/-- The difference of two clock readings, kept inside the duration range. -/
def sub (t u : ℤ) : ℤ := max minDuration (min maxDuration (t - u))

/-- What a timestamp column stores. -/
def micros (t : ℤ) : ℤ := t / 1000

/-- The fraction of a number of units of `10 ^ prec`, without trailing zeros. -/
def fracString (u prec : ℕ) : String :=
  let digits := (Nat.toDigits 10 (10 ^ prec + u % 10 ^ prec)).drop 1
  match (digits.reverse.dropWhile (· = '0')).reverse with
  | [] => ""
  | shown => String.ofList ('.' :: shown)

/-- A duration as it is printed, such as 1h0m1.5s. -/
def durationString (d : ℤ) : String :=
  let u := d.natAbs
  let digits := fun n : ℕ => String.ofList (Nat.toDigits 10 n)
  let unsigned :=
    if u = 0 then "0s"
    else if u < 10 ^ 3 then digits u ++ "ns"
    else if u < 10 ^ 6 then digits (u / 10 ^ 3) ++ fracString u 3 ++ "µs"
    else if u < 10 ^ 9 then digits (u / 10 ^ 6) ++ fracString u 6 ++ "ms"
    else
      let seconds := u / 10 ^ 9
      let hours := if seconds < 3600 then "" else digits (seconds / 3600) ++ "h"
      let minutes := if seconds < 60 then "" else digits (seconds / 60 % 60) ++ "m"
      hours ++ minutes ++ digits (seconds % 60) ++ fracString u 9 ++ "s"
  if d < 0 then "-" ++ unsigned else unsigned

example : durationString (-3601500000000) = "-1h0m1.5s" := by decide

theorem int64_bounds (x : ℤ) : minDuration ≤ int64 x ∧ int64 x ≤ maxDuration := by
  unfold int64 minDuration maxDuration
  rw [Int.bmod_def]
  split <;> omega

theorem int64_le_self {x : ℤ} (h : 0 ≤ x) : int64 x ≤ x := by
  unfold int64
  rw [Int.bmod_def]
  split <;> omega

theorem sub_le_max (t u : ℤ) : sub t u ≤ maxDuration := by
  unfold sub minDuration maxDuration
  omega

theorem int64_eq_self {x : ℤ} (hmin : minDuration ≤ x) (hmax : x ≤ maxDuration) :
    int64 x = x := by
  unfold minDuration at hmin
  unfold maxDuration at hmax
  unfold int64
  rw [Int.bmod_def]
  split <;> omega

/-- A threshold below the end of the range is compared as if nothing wrapped. -/
theorem sub_gt_int64_iff {threshold : ℤ} (hmin : minDuration ≤ threshold)
    (hmax : threshold < maxDuration) (t u : ℤ) :
    sub t u > int64 threshold ↔ t - u > threshold := by
  rw [int64_eq_self hmin hmax.le]
  unfold sub
  unfold minDuration at hmin ⊢
  unfold maxDuration at hmax ⊢
  omega

/-- At and past the end of the range some age is compared wrongly. -/
theorem lt_maxDuration_of_compare {threshold : ℤ}
    (h : ∀ t, sub t 0 > int64 threshold ↔ t > threshold) : threshold < maxDuration := by
  by_contra hlarge
  have hwrapped := (int64_bounds threshold).2
  have hlongest : sub maxDuration 0 = maxDuration := by decide
  have hend := h maxDuration
  have hpast := h (threshold + 1)
  have hsaturated := sub_le_max (threshold + 1) 0
  rw [hlongest] at hend
  have hfull : int64 threshold = maxDuration := by
    by_contra hne
    have hold := hend.mp (lt_of_le_of_ne hwrapped hne)
    omega
  have hlate := hpast.mpr (by omega)
  omega

theorem micros_mono {t u : ℤ} (h : t ≤ u) : micros t ≤ micros u := by
  unfold micros
  omega

/-- A stored timestamp lies less than a microsecond before the reading. -/
theorem micros_bounds (t : ℤ) : 1000 * micros t ≤ t ∧ t ≤ 1000 * micros t + 999 := by
  unfold micros
  omega

end Grex.GoTime
