import Mathlib.Algebra.BigOperators.Group.Finset.Basic
import Mathlib.Data.Int.Order.Basic
import Mathlib.Tactic.IntervalCases

/-!
# The civil calendar

Days are counted from the first of January 1970, by the lengths of the years and
months before them. `timegm` finds their number without a loop, from a table
and the leap years so far, and takes fields that are out of range as well.
-/

namespace Calendar

def leap (year : Int) : Bool := year % 4 = 0 ∧ (year % 100 ≠ 0 ∨ year % 400 = 0)

def yearLength (year : Int) : Int := if leap year then 366 else 365

/-- Months are numbered from 0. -/
def monthLength (year : Int) : Nat → Int
  | 1 => if leap year then 29 else 28
  | 3 | 5 | 8 | 10 => 30
  | _ => 31

def newYear (year : Nat) : Int := ∑ i ∈ Finset.range (year - 1970), yearLength (1970 + i)

def monthStart (year : Nat) (month : Nat) : Int := ∑ i ∈ Finset.range month, monthLength year i

-- ---------------------------------------------------------------------------
-- Broken-down time
-- ---------------------------------------------------------------------------

structure Tm where
  sec : Int
  min : Int
  hour : Int
  mday : Int
  mon : Int
  year : Int
  deriving DecidableEq, Repr

def daysBeforeYear (year : Int) : Int :=
  365 * (year - 1970) + ((year - 1) / 4 - (year - 1) / 100 + (year - 1) / 400) - 477

def daysBeforeMonth (year : Int) (month : Nat) : Int :=
  [0, 31, 59, 90, 120, 151, 181, 212, 243, 273, 304, 334].getD month 0 +
    if 2 ≤ month ∧ leap year then 1 else 0

def timegm (tm : Tm) : Int :=
  let year := tm.year + 1900 + tm.mon / 12
  let month := (tm.mon % 12).toNat
  let days := daysBeforeYear year + daysBeforeMonth year month + (tm.mday - 1)
  ((days * 24 + tm.hour) * 60 + tm.min) * 60 + tm.sec

-- ---------------------------------------------------------------------------
-- Counting days
-- ---------------------------------------------------------------------------

theorem daysBeforeYear_succ (year : Int) :
    daysBeforeYear (year + 1) = daysBeforeYear year + yearLength year := by
  unfold daysBeforeYear yearLength leap
  split
  · rename_i h
    simp only [decide_eq_true_eq] at h
    omega
  · rename_i h
    simp only [decide_eq_true_eq, not_and, not_or] at h
    omega

theorem daysBeforeYear_add (n : Nat) :
    daysBeforeYear (1970 + n) = ∑ i ∈ Finset.range n, yearLength (1970 + i) := by
  induction n with
  | zero => rfl
  | succ n ih =>
    rw [Finset.sum_range_succ, ← ih, ← daysBeforeYear_succ]
    congr 1

theorem daysBeforeYear_eq {year : Nat} (h : 1970 ≤ year) : daysBeforeYear year = newYear year := by
  obtain ⟨n, rfl⟩ := Nat.exists_eq_add_of_le h
  rw [newYear, Nat.add_sub_cancel_left, ← daysBeforeYear_add]
  rfl

theorem daysBeforeMonth_eq (year : Nat) {month : Nat} (h : month < 12) :
    daysBeforeMonth year month = monthStart year month := by
  unfold monthStart daysBeforeMonth
  cases hleap : leap year <;> interval_cases month <;>
    simp [Finset.sum_range_succ, monthLength, hleap]

theorem timegm_date {year month : Nat} (hyear : 1970 ≤ year) (hmonth : month < 12)
    (mday hour min sec : Int) :
    timegm ⟨sec, min, hour, mday, month, year - 1900⟩ =
      86400 * (newYear year + monthStart year month + (mday - 1)) + 3600 * hour + 60 * min + sec := by
  have hyears : (year : Int) - 1900 + 1900 + (month : Int) / 12 = year := by omega
  have hmonths : ((month : Int) % 12).toNat = month := by omega
  rw [timegm]
  simp only [hyears, hmonths]
  rw [daysBeforeYear_eq hyear, daysBeforeMonth_eq year hmonth]
  omega

end Calendar
