/-
# The proleptic Gregorian calendar

Dates, the day after and the day before a date, and the date of a day counted from
an epoch by going from one date to the next.  A date has a number, computed from its
year, month and day alone, which is the count that leads to it.
-/
import Mathlib.Logic.Function.Iterate
import Mathlib.Algebra.GroupWithZero.Nat
import Mathlib.Data.Int.Basic
import Mathlib.Data.List.FinRange
import Mathlib.Tactic.SplitIfs

/-- A leap year. -/
def isLeap (y : ℤ) : Bool := y % 4 = 0 && (y % 100 ≠ 0 || y % 400 = 0)

/-- The days of a month; months are counted from `0`. -/
def daysInMonth (y : ℤ) (m : Fin 12) : ℕ :=
  match m with
  | 1 => if isLeap y then 29 else 28
  | 3 | 5 | 8 | 10 => 30
  | _ => 31

/-- A date, whose day is one of its month. -/
@[ext]
structure Date where
  year : ℤ
  month : Fin 12
  day : ℕ
  one_le_day : 1 ≤ day
  day_le : day ≤ daysInMonth year month
  deriving DecidableEq

theorem one_le_daysInMonth (y : ℤ) (m : Fin 12) : 1 ≤ daysInMonth y m := by
  unfold daysInMonth
  split
  · split_ifs <;> omega
  all_goals omega

theorem daysInMonth_le (y : ℤ) (m : Fin 12) : daysInMonth y m ≤ 31 := by
  unfold daysInMonth
  split
  · split_ifs <;> omega
  all_goals omega

namespace Date

/-! ## From one date to the next -/

/-- Months are written as numerals. -/
local instance months_ne_zero : NeZero 12 := ⟨by decide⟩

/-- The first of a month is one of its days. -/
theorem one_le_first : 1 ≤ 1 := Nat.le_refl 1

/-- The day after. -/
def next (d : Date) : Date :=
  if h : d.day < daysInMonth d.year d.month then
    ⟨d.year, d.month, d.day + 1, by omega, by omega⟩
  else if d.month = 11 then
    ⟨d.year + 1, 0, 1, one_le_first, one_le_daysInMonth _ _⟩
  else
    ⟨d.year, d.month + 1, 1, one_le_first, one_le_daysInMonth _ _⟩

/-- The day before. -/
def prev (d : Date) : Date :=
  if h : 1 < d.day then
    ⟨d.year, d.month, d.day - 1, by omega, by have := d.day_le; omega⟩
  else if d.month = 0 then
    ⟨d.year - 1, 11, daysInMonth (d.year - 1) 11, one_le_daysInMonth _ _, Nat.le_refl _⟩
  else
    ⟨d.year, d.month - 1, daysInMonth d.year (d.month - 1), one_le_daysInMonth _ _, Nat.le_refl _⟩

/-- The first of January 1970. -/
def epoch : Date := ⟨1970, 0, 1, one_le_first, by decide⟩

/-- The date a number of days after the epoch, or before it. -/
def ofDay : ℤ → Date
  | .ofNat n => next^[n] epoch
  | .negSucc n => prev^[n + 1] epoch

/-! ## Numbering the dates -/

/-- The days of the years before a year, up to a constant. -/
def daysBeforeYear (y : ℤ) : ℤ := 365 * y + (y - 1) / 4 - (y - 1) / 100 + (y - 1) / 400

/-- The days of the months before a month. -/
def daysBeforeMonth (y : ℤ) (m : Fin 12) : ℤ :=
  (((List.finRange 12).take m).map (daysInMonth y)).sum

/-- The number of a date. -/
def number (d : Date) : ℤ :=
  daysBeforeYear d.year - daysBeforeYear 1970 + daysBeforeMonth d.year d.month + d.day - 1

theorem isLeap_iff (y : ℤ) : isLeap y = true ↔ y % 4 = 0 ∧ (y % 100 ≠ 0 ∨ y % 400 = 0) := by
  simp [isLeap]

theorem daysBeforeYear_succ (y : ℤ) :
    daysBeforeYear (y + 1) = daysBeforeYear y + if isLeap y then 366 else 365 := by
  have hleap := isLeap_iff y
  unfold daysBeforeYear
  split_ifs with h
  · have := hleap.mp h
    omega
  · have := mt hleap.mpr h
    omega

theorem daysBeforeMonth_succ (y : ℤ) {m : Fin 12} (hm : m ≠ 11) :
    daysBeforeMonth y (m + 1) = daysBeforeMonth y m + daysInMonth y m := by
  have hval : (m + 1).val = m.val + 1 := Fin.val_add_one_of_lt (Fin.lt_last_iff_ne_last.mpr hm)
  have hlen : m.val < (List.finRange 12).length := by
    rw [List.length_finRange]
    exact m.isLt
  unfold daysBeforeMonth
  rw [hval, List.take_succ_eq_append_getElem hlen, List.map_append, List.sum_append,
    List.getElem_finRange]
  simp

/-- A year ends with its last month. -/
theorem daysBeforeMonth_eleven (y : ℤ) :
    daysBeforeMonth y 11 + 31 = if isLeap y then 366 else 365 := by
  cases hleap : isLeap y <;> simp [daysBeforeMonth, List.finRange, daysInMonth, hleap]

/-- **The step forward.** -/
theorem number_next (d : Date) : d.next.number = d.number + 1 := by
  have hle := d.day_le
  unfold next
  split_ifs with hday hmonth
  · simp only [number]
    omega
  · have hlast : daysInMonth d.year d.month = 31 := by rw [hmonth]; rfl
    have heleven := daysBeforeMonth_eleven d.year
    have hyear := daysBeforeYear_succ d.year
    have hzero : daysBeforeMonth (d.year + 1) 0 = 0 := rfl
    simp only [number, hmonth, hzero, hyear]
    omega
  · have hsucc := daysBeforeMonth_succ d.year hmonth
    simp only [number, hsucc]
    omega

/-- The day after the day before. -/
theorem next_prev (d : Date) : d.prev.next = d := by
  obtain ⟨year, month, day, hone, hle⟩ := d
  unfold prev
  split_ifs with hday hmonth
  · have hlt : day - 1 < daysInMonth year month := by
      simp only at hday hle
      omega
    simp only [next, dif_pos hlt, Date.mk.injEq, true_and]
    simp only at hday
    omega
  · simp only at hday hmonth hone
    simp only [next, lt_irrefl, dite_false, if_true, Date.mk.injEq]
    exact ⟨by omega, hmonth.symm, by omega⟩
  · have hne : month - 1 ≠ 11 := by
      simp only at hmonth
      omega
    simp only at hday hone
    simp only [next, lt_irrefl, dite_false, if_neg hne, Date.mk.injEq, true_and]
    exact ⟨by omega, by omega⟩

/-- **The step back.** -/
theorem number_prev (d : Date) : d.prev.number = d.number - 1 := by
  have h := number_next d.prev
  rw [next_prev] at h
  omega

theorem number_epoch : epoch.number = 0 := by decide

/-- **Counting days and numbering dates agree.** -/
theorem number_ofDay (n : ℤ) : (ofDay n).number = n := by
  cases n with
  | ofNat n =>
    show (next^[n] epoch).number = n
    induction n with
    | zero => exact number_epoch
    | succ n ih =>
      rw [Function.iterate_succ_apply', number_next, ih]
      push_cast
      rfl
  | negSucc n =>
    show (prev^[n + 1] epoch).number = Int.negSucc n
    induction n with
    | zero => decide
    | succ n ih =>
      rw [Function.iterate_succ_apply', number_prev, ih]
      omega

end Date
