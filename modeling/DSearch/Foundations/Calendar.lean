import Mathlib

/-! # The Gregorian calendar

A date has a next one, with the leap rule of 4, 100 and 400 years. Counting the days from a first date
is applying `next`, and every later date is reached. -/

namespace DSearch.Calendar
set_option autoImplicit false

structure Date where
  year : ℕ
  month : ℕ
  day : ℕ
  deriving DecidableEq, Repr

def IsLeap (year : ℕ) : Prop := year % 4 = 0 ∧ (year % 100 ≠ 0 ∨ year % 400 = 0)

instance (year : ℕ) : Decidable (IsLeap year) := inferInstanceAs (Decidable (_ ∧ _))

def daysInMonth (year month : ℕ) : ℕ :=
  if month = 2 then if IsLeap year then 29 else 28
  else if month = 4 ∨ month = 6 ∨ month = 9 ∨ month = 11 then 30 else 31

theorem one_le_daysInMonth (year month : ℕ) : 1 ≤ daysInMonth year month := by
  unfold daysInMonth
  split_ifs <;> omega

theorem daysInMonth_le (year month : ℕ) : daysInMonth year month ≤ 31 := by
  unfold daysInMonth
  split_ifs <;> omega

namespace Date

structure Valid (date : Date) : Prop where
  month_pos : 1 ≤ date.month
  month_le : date.month ≤ 12
  day_pos : 1 ≤ date.day
  day_le : date.day ≤ daysInMonth date.year date.month

def next (date : Date) : Date :=
  if date.day < daysInMonth date.year date.month then { date with day := date.day + 1 }
  else if date.month < 12 then ⟨date.year, date.month + 1, 1⟩
  else ⟨date.year + 1, 1, 1⟩

theorem Valid.next {date : Date} (h : date.Valid) : date.next.Valid := by
  obtain ⟨hm, hm', hd, hd'⟩ := h
  unfold Date.next
  split
  · exact ⟨hm, hm', Nat.le_add_left 1 _, by dsimp only; omega⟩
  · split
    · exact ⟨Nat.le_add_left 1 _, by dsimp only; omega, le_refl 1, one_le_daysInMonth _ _⟩
    · exact ⟨le_refl 1, by dsimp only; omega, le_refl 1, one_le_daysInMonth _ _⟩

/-- The later date is some number of days after the earlier one. -/
def Reaches (date later : Date) : Prop := ∃ n, next^[n] date = later

theorem Reaches.next {date later : Date} (h : date.Reaches later) : date.Reaches later.next := by
  obtain ⟨n, rfl⟩ := h
  exact ⟨n + 1, Function.iterate_succ_apply' Date.next n date⟩

section
variable {date : Date}

theorem Reaches.day {year month : ℕ} (h : date.Reaches ⟨year, month, 1⟩) {day : ℕ} (hday : 1 ≤ day)
    (hle : day ≤ daysInMonth year month) : date.Reaches ⟨year, month, day⟩ := by
  induction day, hday using Nat.le_induction with
  | base => exact h
  | succ day _ ih =>
    have hstep := (ih (by omega)).next
    rwa [Date.next, if_pos (by dsimp only; omega)] at hstep

theorem Reaches.month {year : ℕ} (h : date.Reaches ⟨year, 1, 1⟩) {month : ℕ} (hmonth : 1 ≤ month)
    (hle : month ≤ 12) : date.Reaches ⟨year, month, 1⟩ := by
  induction month, hmonth using Nat.le_induction with
  | base => exact h
  | succ month _ ih =>
    have hstep := ((ih (by omega)).day (one_le_daysInMonth year month) le_rfl).next
    rwa [Date.next, if_neg (lt_irrefl _), if_pos (by dsimp only; omega)] at hstep

theorem Reaches.year {year : ℕ} (h : date.Reaches ⟨year, 1, 1⟩) {later : ℕ} (hle : year ≤ later) :
    date.Reaches ⟨later, 1, 1⟩ := by
  induction later, hle using Nat.le_induction with
  | base => exact h
  | succ later _ ih =>
    have hstep := ((ih.month (by decide : 1 ≤ 12) le_rfl).day (one_le_daysInMonth later 12) le_rfl).next
    rwa [Date.next, if_neg (lt_irrefl _), if_neg (lt_irrefl _)] at hstep

end

/-- From the first day of a year every later date is reached. -/
theorem reaches_of_year_le {year : ℕ} {date : Date} (h : date.Valid) (hyear : year ≤ date.year) :
    (⟨year, 1, 1⟩ : Date).Reaches date := by
  have hstart : (⟨year, 1, 1⟩ : Date).Reaches ⟨year, 1, 1⟩ := ⟨0, rfl⟩
  exact ((hstart.year hyear).month h.month_pos h.month_le).day h.day_pos h.day_le

/-- A number that grows by one from each valid date to the next counts the days. -/
theorem count_iterate {count : Date → ℤ} (hnext : ∀ date, date.Valid → count date.next = count date + 1)
    {date : Date} (h : date.Valid) (n : ℕ) :
    (next^[n] date).Valid ∧ count (next^[n] date) = count date + n := by
  induction n with
  | zero => exact ⟨h, by simp⟩
  | succ n ih =>
    rw [Function.iterate_succ_apply']
    refine ⟨ih.1.next, ?_⟩
    rw [hnext _ ih.1, ih.2]
    push_cast
    ring

end Date

end DSearch.Calendar
