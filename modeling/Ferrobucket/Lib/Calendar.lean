import Mathlib.Algebra.Order.Group.Nat
/-! The proleptic Gregorian calendar: dates, the day after a date, and the number of days since
the first of January of year 0. Dates in the order of the calendar have ascending numbers. -/
namespace Calendar

structure Date where
  year : Nat
  month : Nat
  day : Nat
  deriving DecidableEq

def isLeap (year : Nat) : Bool := year % 4 = 0 && (year % 100 ≠ 0 || year % 400 = 0)

def monthLength (year : Nat) : Nat → Nat
  | 2 => if isLeap year then 29 else 28
  | 4 | 6 | 9 | 11 => 30
  | _ => 31

def yearLength (year : Nat) : Nat := if isLeap year then 366 else 365

namespace Date

structure Valid (date : Date) : Prop where
  month : 1 ≤ date.month ∧ date.month ≤ 12
  day : 1 ≤ date.day ∧ date.day ≤ monthLength date.year date.month

theorem valid_iff (date : Date) : date.Valid ↔
    (1 ≤ date.month ∧ date.month ≤ 12) ∧ 1 ≤ date.day ∧ date.day ≤ monthLength date.year date.month :=
  ⟨fun valid => ⟨valid.month, valid.day⟩, fun parts => ⟨parts.1, parts.2⟩⟩

instance (date : Date) : Decidable date.Valid := decidable_of_iff _ (valid_iff date).symm

/-- The day after. -/
def next (date : Date) : Date :=
  if date.day < monthLength date.year date.month then { date with day := date.day + 1 }
  else if date.month < 12 then ⟨date.year, date.month + 1, 1⟩
  else ⟨date.year + 1, 1, 1⟩

/-- The order of the calendar. -/
def Before (first second : Date) : Prop :=
  first.year < second.year ∨ first.year = second.year ∧
    (first.month < second.month ∨ first.month = second.month ∧ first.day < second.day)

end Date

/-! ### Counting days -/

def daysBeforeYear : Nat → Nat
  | 0 => 0
  | year + 1 => daysBeforeYear year + yearLength year

/-- The days of a year before its month. -/
def daysBeforeMonth (year : Nat) : Nat → Nat
  | 0 | 1 => 0
  | month + 2 => daysBeforeMonth year (month + 1) + monthLength year (month + 1)

def Date.number (date : Date) : Nat :=
  daysBeforeYear date.year + daysBeforeMonth date.year date.month + (date.day - 1)

section Counting
variable (year : Nat) {month : Nat}

/-- The leap rule in closed form. -/
theorem daysBeforeYear_succ :
    daysBeforeYear (year + 1) + year / 100 = 365 * (year + 1) + year / 4 + year / 400 + 1 := by
  induction year with
  | zero => rfl
  | succ year ih =>
      rw [daysBeforeYear, yearLength]
      cases leap : isLeap (year + 1) with
      | true =>
          simp only [isLeap, Bool.and_eq_true, Bool.or_eq_true, decide_eq_true_eq] at leap
          simp only [if_true]
          omega
      | false =>
          simp only [isLeap, Bool.and_eq_false_iff, Bool.or_eq_false_iff, decide_eq_false_iff_not] at leap
          simp only [Bool.false_eq_true, if_false]
          omega

theorem daysBeforeYear_mono {first second : Nat} (earlier : first ≤ second) :
    daysBeforeYear first ≤ daysBeforeYear second := by
  induction earlier with
  | refl => exact le_rfl
  | step _ ih => exact ih.trans (Nat.le_add_right _ _)

theorem monthLength_pos (month : Nat) : 1 ≤ monthLength year month := by
  unfold monthLength
  split
  · split <;> decide
  all_goals decide

theorem daysBeforeMonth_succ (positive : 1 ≤ month) :
    daysBeforeMonth year (month + 1) = daysBeforeMonth year month + monthLength year month := by
  cases month with
  | zero => cases positive
  | succ month => rfl

theorem daysBeforeMonth_mono {first second : Nat} (positive : 1 ≤ first) (earlier : first ≤ second) :
    daysBeforeMonth year first ≤ daysBeforeMonth year second := by
  induction earlier with
  | refl => exact le_rfl
  | step later ih =>
      rw [daysBeforeMonth_succ year (positive.trans later)]
      exact ih.trans (Nat.le_add_right _ _)

/-- The twelve months make up the year. -/
theorem months_year : daysBeforeMonth year 12 + monthLength year 12 = yearLength year := by
  simp only [daysBeforeMonth, monthLength, yearLength]
  cases isLeap year <;> rfl

end Counting
/-! ### Numbers follow the calendar -/

namespace Date
variable {date first second : Date}

theorem next_valid (valid : date.Valid) : date.next.Valid := by
  obtain ⟨⟨low, high⟩, positive, inside⟩ := valid
  unfold next
  split
  · next more => exact ⟨⟨low, high⟩, by simp, more⟩
  · split
    · next more => exact ⟨⟨by simp, more⟩, by simp, monthLength_pos _ _⟩
    · exact ⟨by simp, by simp, monthLength_pos _ _⟩

theorem next_number (valid : date.Valid) : date.next.number = date.number + 1 := by
  obtain ⟨⟨low, high⟩, positive, inside⟩ := valid
  unfold next
  split
  · simp only [number]
    omega
  · next last =>
      split
      · simp only [number, daysBeforeMonth_succ date.year low]
        omega
      · next december =>
          have twelve : date.month = 12 := by omega
          have whole := months_year date.year
          rw [← twelve] at whole
          simp only [number, daysBeforeYear, daysBeforeMonth]
          omega

/-- A date lies within its month, and the month within its year. -/
theorem number_bounds (valid : date.Valid) :
    date.number < daysBeforeYear date.year + daysBeforeMonth date.year date.month +
        monthLength date.year date.month ∧
      daysBeforeMonth date.year date.month + monthLength date.year date.month ≤ yearLength date.year := by
  obtain ⟨⟨low, high⟩, positive, inside⟩ := valid
  constructor
  · unfold number
    omega
  · rcases high.lt_or_eq with earlier | twelve
    · have below := daysBeforeMonth_mono date.year (Nat.le_add_left 1 date.month) earlier
      rw [daysBeforeMonth_succ date.year low] at below
      have whole := months_year date.year
      omega
    · rw [twelve]
      exact (months_year date.year).le

theorem number_before (valid : first.Valid) (before : first.Before second) :
    first.number < second.number := by
  obtain ⟨within, whole⟩ := number_bounds valid
  rcases before with earlier | ⟨year, earlier | ⟨month, earlier⟩⟩
  · have years := daysBeforeYear_mono earlier
    rw [Nat.succ_eq_add_one, daysBeforeYear] at years
    unfold number at *
    omega
  · have months := daysBeforeMonth_mono first.year (Nat.le_add_left 1 first.month) earlier
    rw [daysBeforeMonth_succ first.year valid.month.1] at months
    simp only [number, ← year] at within ⊢
    omega
  · unfold number
    have positive := valid.day.1
    rw [year, month]
    omega

theorem before_or (first second : Date) : first.Before second ∨ first = second ∨ second.Before first := by
  obtain ⟨year, month, day⟩ := first
  obtain ⟨year', month', day'⟩ := second
  simp only [Before, Date.mk.injEq]
  omega

theorem number_lt_iff (valid : first.Valid) (also : second.Valid) :
    first.number < second.number ↔ first.Before second := by
  constructor
  · intro less
    rcases before_or first second with before | rfl | after
    · exact before
    · exact absurd less (lt_irrefl _)
    · exact absurd (number_before also after) less.asymm
  · exact number_before valid

theorem number_injective (valid : first.Valid) (also : second.Valid) (same : first.number = second.number) :
    first = second := by
  rcases before_or first second with before | equal | after
  · exact absurd same (number_before valid before).ne
  · exact equal
  · exact absurd same (number_before also after).ne'

end Date
end Calendar
