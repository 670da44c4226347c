import Mathlib.Tactic.IntervalCases
import Ferrobucket.Lib.Calendar
import Ferrobucket.Presign
/-! The clock of the presigned URLs. Days are turned into a date by the divisions of a calendar
that begins in March, and the date and the time of day into the text that is signed. -/
namespace Ferrobucket
open Text Calendar

/-! ### In 64 bits -/

/-- `u64` arithmetic, where a result out of range is an overflow. -/
def addU64 (a b : Nat) : Option Nat := if a + b < 2 ^ 64 then some (a + b) else none

def mulU64 (a b : Nat) : Option Nat := if a * b < 2 ^ 64 then some (a * b) else none

def subU64 (a b : Nat) : Option Nat := if b ≤ a then some (a - b) else none

/-- `days_to_ymd` with every operation checked. -/
def daysToYmdU64 (days : Nat) : Option (Nat × Nat × Nat) := do
  let z ← addU64 days 719468
  let era := z / 146097
  let doe := z % 146097
  let yoe ← subU64 (← addU64 (← subU64 doe (doe / 1460)) (doe / 36524)) (doe / 146096)
  let yoe := yoe / 365
  let y ← addU64 yoe (← mulU64 era 400)
  let doy ← subU64 doe (← subU64 (← addU64 (← mulU64 365 yoe) (yoe / 4)) (yoe / 100))
  let mp := (← addU64 (← mulU64 5 doy) 2) / 153
  let d ← addU64 (← subU64 doy ((← addU64 (← mulU64 153 mp) 2) / 5)) 1
  let m ← if mp < 10 then addU64 mp 3 else subU64 mp 9
  let y ← if m ≤ 2 then addU64 y 1 else pure y
  pure (y, m, d)

/-! ### An era of 400 years -/

/-- A day of an era by its century, the four years in that, the year in those and the day in
that year. A year has a day 365 when it is the last of four and these are not the last of a
century, unless that is the last of the era. -/
structure EraDay (doe c q r day : Nat) : Prop where
  century : c ≤ 3
  four : q ≤ 24
  year : r ≤ 3
  short : day ≤ 365
  leap : day = 365 → r = 3 ∧ (q < 24 ∨ c = 3)
  whole : doe = 36524 * c + 1461 * q + 365 * r + day

theorem era_day {doe : Nat} (inside : doe < 146097) : ∃ c q r day, EraDay doe c q r day := by
  have centuries : ∃ c left, c ≤ 3 ∧ doe = 36524 * c + left ∧ (left < 36524 ∨ c = 3 ∧ left = 36524) := by
    by_cases last : doe = 146096
    · exact ⟨3, 36524, by omega, by omega, by omega⟩
    · exact ⟨doe / 36524, doe % 36524, by omega, by omega, by omega⟩
  obtain ⟨c, left, century, rfl, bound⟩ := centuries
  have years : ∃ r day, r ≤ 3 ∧ left % 1461 = 365 * r + day ∧ (day < 365 ∨ r = 3 ∧ day = 365) := by
    by_cases last : left % 1461 = 1460
    · exact ⟨3, 365, by omega, by omega, by omega⟩
    · exact ⟨left % 1461 / 365, left % 1461 % 365, by omega, by omega, by omega⟩
  obtain ⟨r, day, year, split, leap⟩ := years
  exact ⟨c, left / 1461, r, day, century, by omega, year, by omega, by omega, by omega⟩

section Era
variable {doe c q r day : Nat}

/-- The year of the era comes out of the corrected division. -/
theorem year_of_era (parts : EraDay doe c q r day) :
    (doe - doe / 1460 + doe / 36524 - doe / 146096) / 365 = 100 * c + 4 * q + r := by
  obtain ⟨century, four, year, bound, leap, whole⟩ := parts
  have centuries : doe / 36524 = c ∧ doe / 146096 = 0 ∨ doe = 146096 := by omega
  have fours : doe / 1460 = 25 * c + q + (24 * c + q + 365 * r + day) / 1460 := by omega
  have carry : (24 * c + q + 365 * r + day) / 1460 = 0 ∨ (24 * c + q + 365 * r + day) / 1460 = 1 := by omega
  rcases centuries with ⟨own, none⟩ | last
  · rw [own, none, fours]
    rcases carry with zero | one
    · rw [zero]
      omega
    · rw [one]
      omega
  · subst last
    omega

theorem day_of_year (parts : EraDay doe c q r day) (yoe : Nat) (year : yoe = 100 * c + 4 * q + r) :
    doe - (365 * yoe + yoe / 4 - yoe / 100) = day := by
  obtain ⟨century, four, small, bound, leap, whole⟩ := parts
  have fours : yoe / 4 = 25 * c + q := by omega
  have hundreds : yoe / 100 = c := by omega
  rw [fours, hundreds]
  omega

end Era
/-! ### The date of a day -/

/-- The month of a day of the year that begins in March, and the day of that month. -/
theorem month_of_day {day : Nat} (short : day ≤ 365) :
    let mp := (5 * day + 2) / 153
    mp ≤ 11 ∧ (153 * mp + 2) / 5 ≤ day := by
  constructor <;> omega

def dateOf (days : Nat) : Date := ⟨(daysToYmd days).1, (daysToYmd days).2.1, (daysToYmd days).2.2⟩

/-- A date by its era and its day of that era. -/
theorem date_parts {days era doe c q r day : Nat} (split : days + 719468 = 146097 * era + doe)
    (inside : doe < 146097) (parts : EraDay doe c q r day) :
    let year := 100 * c + 4 * q + r + era * 400
    let mp := (5 * day + 2) / 153
    let month := if mp < 10 then mp + 3 else mp - 9
    dateOf days = ⟨if month ≤ 2 then year + 1 else year, month, day - (153 * mp + 2) / 5 + 1⟩ := by
  have first : (days + 719468) / 146097 = era := by omega
  have second : (days + 719468) % 146097 = doe := by omega
  simp only [dateOf, daysToYmd, first, second, year_of_era parts, day_of_year parts _ rfl]

/-- The days of a year before its months from March on, counted from the first of March. -/
theorem march_months (year : Nat) {mp : Nat} (bound : mp ≤ 11) :
    let month := if mp < 10 then mp + 3 else mp - 9
    (if month ≤ 2 then daysBeforeYear (year + 1) + daysBeforeMonth (year + 1) month
      else daysBeforeYear year + daysBeforeMonth year month) + 306 =
        daysBeforeYear (year + 1) + (153 * mp + 2) / 5 := by
  interval_cases mp
  -- The ten months that lie in the year in which March does, and the two that follow.
  all_goals simp only [Nat.reduceLT, Nat.reduceAdd, Nat.reduceSub, Nat.reduceLeDiff, Nat.reduceMul,
    Nat.reduceDiv, if_true, if_false, daysBeforeYear, daysBeforeMonth, yearLength, monthLength]
  all_goals cases isLeap year <;> simp only [if_true, if_false, Bool.false_eq_true]

theorem march_length (year : Nat) {mp : Nat} (bound : mp ≤ 10) :
    let month := if mp < 10 then mp + 3 else mp - 9
    (153 * mp + 2) / 5 + monthLength year month = (153 * (mp + 1) + 2) / 5 := by
  interval_cases mp <;> rfl

/-- In the year that the day is in, the date is one of the calendar: the last day of February is
there in leap years only. -/
theorem date_valid {days era doe c q r day : Nat} (split : days + 719468 = 146097 * era + doe)
    (inside : doe < 146097) (parts : EraDay doe c q r day) : (dateOf days).Valid := by
  have own := date_parts split inside parts
  obtain ⟨century, four, year, short, leap, whole⟩ := parts
  obtain ⟨bound, begun⟩ := month_of_day short
  simp only [] at own bound begun
  rw [own]
  have later : 5 * day + 2 < 153 * ((5 * day + 2) / 153) + 153 := by omega
  generalize (5 * day + 2) / 153 = mp at *
  constructor
  · dsimp only
    split <;> omega
  · refine ⟨Nat.le_add_left 1 _, ?_⟩
    dsimp only
    by_cases last : mp = 11
    · subst last
      simp only [Nat.reduceLT, Nat.reduceSub, Nat.reduceLeDiff, Nat.reduceMul, Nat.reduceAdd, Nat.reduceDiv,
        if_true, if_false, monthLength]
      by_cases full : day = 365
      · obtain ⟨lastOfFour, regular⟩ := leap full
        have leapYear : isLeap (100 * c + 4 * q + r + era * 400 + 1) = true := by
          simp only [isLeap, Bool.and_eq_true, Bool.or_eq_true, decide_eq_true_eq]
          omega
        rw [if_pos leapYear]
        omega
      · split <;> omega
    · have months := march_length (if (if mp < 10 then mp + 3 else mp - 9) ≤ 2 then
          100 * c + 4 * q + r + era * 400 + 1 else 100 * c + 4 * q + r + era * 400)
        (show mp ≤ 10 by omega)
      simp only [] at months
      omega

theorem date_number {days era doe c q r day : Nat} (split : days + 719468 = 146097 * era + doe)
    (inside : doe < 146097) (parts : EraDay doe c q r day) : (dateOf days).number = days + 719528 := by
  have own := date_parts split inside parts
  obtain ⟨century, four, year, short, leap, whole⟩ := parts
  obtain ⟨bound, begun⟩ := month_of_day short
  have months := march_months (100 * c + 4 * q + r + era * 400) bound
  have years := daysBeforeYear_succ (100 * c + 4 * q + r + era * 400)
  simp only [] at own bound begun months
  rw [own]
  unfold Date.number
  generalize (5 * day + 2) / 153 = mp at *
  dsimp only
  have fours : (100 * c + 4 * q + r + era * 400) / 4 = 25 * c + q + 100 * era := by omega
  have hundreds : (100 * c + 4 * q + r + era * 400) / 100 = c + 4 * era := by omega
  have eras : (100 * c + 4 * q + r + era * 400) / 400 = era := by omega
  rw [fours, hundreds, eras] at years
  generalize (if mp < 10 then mp + 3 else mp - 9) = month at *
  by_cases early : month ≤ 2
  · simp only [early, if_true] at months ⊢
    omega
  · simp only [early, if_false] at months ⊢
    omega

/-! ### Nothing overflows -/

theorem addU64_ok {a b : Nat} (fits : a + b < 2 ^ 64) : addU64 a b = some (a + b) := if_pos fits

theorem mulU64_ok {a b : Nat} (fits : a * b < 2 ^ 64) : mulU64 a b = some (a * b) := if_pos fits

theorem subU64_ok {a b : Nat} (fits : b ≤ a) : subU64 a b = some (a - b) := if_pos fits

theorem bind_ok {α β : Type} {x : Option α} {a : α} {f : α → Option β} {result : Option β} (first : x = some a)
    (rest : f a = result) : (x >>= f) = result := by
  rw [first]
  exact rest

/-- In range no operation of `days_to_ymd` overflows and no subtraction goes below zero. -/
theorem days_checked {days : Nat} (fits : days + 719468 < 2 ^ 64) :
    daysToYmdU64 days = some (daysToYmd days) := by
  obtain ⟨c, q, r, day, parts⟩ := era_day (Nat.mod_lt (days + 719468) (by decide : 0 < 146097))
  have yoe := year_of_era parts
  have doy := day_of_year parts _ rfl
  obtain ⟨century, four, year, short, leap, whole⟩ := parts
  obtain ⟨bound, begun⟩ := month_of_day short
  have era := Nat.div_add_mod (days + 719468) 146097
  have fours : (100 * c + 4 * q + r) / 4 = 25 * c + q := by omega
  have hundreds : (100 * c + 4 * q + r) / 100 = c := by omega
  unfold daysToYmdU64 daysToYmd
  refine bind_ok (addU64_ok fits) ?_
  dsimp only
  generalize (days + 719468) % 146097 = doe at *
  generalize (days + 719468) / 146097 = eras at *
  refine bind_ok (subU64_ok (by omega)) ?_
  refine bind_ok (addU64_ok (by omega)) ?_
  refine bind_ok (subU64_ok (by omega)) ?_
  rw [yoe, doy]
  refine bind_ok (mulU64_ok (by omega)) ?_
  refine bind_ok (addU64_ok (by omega)) ?_
  refine bind_ok (mulU64_ok (by omega)) ?_
  refine bind_ok (addU64_ok (by omega)) ?_
  refine bind_ok (subU64_ok (by omega)) ?_
  refine bind_ok (subU64_ok (by omega)) ?_
  rw [doy]
  refine bind_ok (mulU64_ok (by omega)) ?_
  refine bind_ok (addU64_ok (by omega)) ?_
  generalize (5 * day + 2) / 153 = mp at *
  refine bind_ok (mulU64_ok (by omega)) ?_
  refine bind_ok (addU64_ok (by omega)) ?_
  refine bind_ok (subU64_ok begun) ?_
  refine bind_ok (addU64_ok (by omega)) ?_
  by_cases early : mp < 10
  · simp only [early, if_true]
    refine bind_ok (addU64_ok (by omega)) ?_
    split
    · exact bind_ok (addU64_ok (by omega)) rfl
    · rfl
  · simp only [early, if_false]
    refine bind_ok (subU64_ok (by omega)) ?_
    split
    · exact bind_ok (addU64_ok (by omega)) rfl
    · rfl

/-! ### The calendar -/

def epoch : Date := ⟨1970, 1, 1⟩

theorem epoch_number : epoch.number = 719528 := by
  have years : daysBeforeYear 1970 + 1969 / 100 = _ := daysBeforeYear_succ 1969
  have months : daysBeforeMonth 1970 1 = 0 := rfl
  simp only [epoch, Date.number, months]
  omega

theorem date_of (days : Nat) : (dateOf days).Valid ∧ (dateOf days).number = days + epoch.number := by
  obtain ⟨c, q, r, day, parts⟩ := era_day (Nat.mod_lt (days + 719468) (by decide : 0 < 146097))
  have split := (Nat.div_add_mod (days + 719468) 146097).symm
  have inside := Nat.mod_lt (days + 719468) (by decide : 0 < 146097)
  rw [epoch_number]
  exact ⟨date_valid split inside parts, date_number split inside parts⟩

theorem date_next (days : Nat) : dateOf (days + 1) = (dateOf days).next := by
  obtain ⟨valid, number⟩ := date_of days
  obtain ⟨later, follows⟩ := date_of (days + 1)
  apply Date.number_injective later (Date.next_valid valid)
  rw [Date.next_number valid, number, follows]
  omega

theorem date_before_iff (first second : Nat) : (dateOf first).Before (dateOf second) ↔ first < second := by
  obtain ⟨valid, number⟩ := date_of first
  obtain ⟨also, number'⟩ := date_of second
  rw [← Date.number_lt_iff valid also, number, number']
  omega

/-! ### Numbers of fixed width -/

theorem padded_eq (width n : Nat) :
    padded width n = List.replicate (width - (Nat.toDigits 10 n).length) '0' ++ Nat.toDigits 10 n := by
  unfold padded
  rw [Nat.toString_eq_ofList_toDigits, String.toList_ofList]

section Padded
variable {width n m : Nat}

theorem padded_length (positive : 0 < width) (small : n < 10 ^ width) : (padded width n).length = width := by
  have fits := (Nat.length_toDigits_le_iff (by decide : 1 < 10) positive).mpr small
  rw [padded_eq, List.length_append, List.length_replicate]
  omega

theorem padded_value (width n : Nat) : Nat.ofDigitChars 10 (padded width n) 0 = n := by
  rw [padded_eq, Nat.ofDigitChars_append, Nat.ofDigitChars_replicate_zero, Nat.mul_zero,
    Nat.ofDigitChars_ten_toDigits]

theorem padded_digits (width n : Nat) : ∀ c ∈ padded width n, c.isDigit = true := by
  intro c member
  rw [padded_eq] at member
  rcases List.mem_append.mp member with zero | digit
  · rw [List.eq_of_mem_replicate zero]
    rfl
  · exact Nat.isDigit_of_mem_toDigits (by decide) le_rfl digit

end Padded

/-! ### The order of texts -/

theorem digit_value {c : Char} (digit : c.isDigit = true) : c.toNat - '0'.toNat < 10 ∧ '0'.toNat ≤ c.toNat := by
  simp only [Char.isDigit, Bool.and_eq_true, decide_eq_true_eq] at digit
  obtain ⟨low, high⟩ := digit
  have low' : 48 ≤ c.toNat := low
  have high' : c.toNat ≤ 57 := high
  constructor
  · change c.toNat - 48 < 10
    omega
  · exact low'

theorem cons_value (c : Char) (rest : Str) : Nat.ofDigitChars 10 (c :: rest) 0 =
    10 ^ rest.length * (c.toNat - '0'.toNat) + Nat.ofDigitChars 10 rest 0 := by
  rw [Nat.ofDigitChars_cons, Nat.ofDigitChars_eq_ofDigitChars_zero, Nat.mul_zero, Nat.zero_add]

theorem digits_bound {text : Str} (digits : ∀ c ∈ text, c.isDigit = true) :
    Nat.ofDigitChars 10 text 0 < 10 ^ text.length := by
  induction text with
  | nil => exact Nat.one_pos
  | cons c rest ih =>
      obtain ⟨digit, others⟩ := List.forall_mem_cons.mp digits
      have tail := ih others
      have head := Nat.mul_le_mul_left (10 ^ rest.length) (Nat.le_of_lt_succ (digit_value digit).1)
      rw [cons_value, List.length_cons, Nat.pow_succ]
      omega

/-- Digits of one length are ordered as the numbers that they spell. -/
theorem digits_lt {left right : Str} (same : left.length = right.length)
    (digits : ∀ c ∈ left, c.isDigit = true) (also : ∀ c ∈ right, c.isDigit = true)
    (less : Nat.ofDigitChars 10 left 0 < Nat.ofDigitChars 10 right 0) : left < right := by
  induction left generalizing right with
  | nil =>
      obtain rfl := List.length_eq_zero_iff.mp same.symm
      exact absurd less (lt_irrefl _)
  | cons c left ih =>
      cases right with
      | nil => cases same
      | cons d right =>
          have tails : left.length = right.length := Nat.succ.inj same
          obtain ⟨digit, others⟩ := List.forall_mem_cons.mp digits
          obtain ⟨digit', others'⟩ := List.forall_mem_cons.mp also
          rw [cons_value, cons_value, tails] at less
          rw [List.cons_lt_cons_iff]
          rcases lt_trichotomy c.toNat d.toNat with before | equal | after
          · exact Or.inl before
          · rw [equal] at less
            exact Or.inr ⟨Char.toNat_inj.mp equal, ih tails others others' (Nat.lt_of_add_lt_add_left less)⟩
          -- A greater first digit outweighs all that follow.
          · have bound := digits_bound others'
            have low := (digit_value digit').2
            have more := Nat.mul_le_mul_left (10 ^ right.length)
              (show d.toNat - '0'.toNat + 1 ≤ c.toNat - '0'.toNat by omega)
            rw [Nat.mul_add] at more
            omega

theorem append_lt {left right : Str} (same : left.length = right.length) (less : left < right)
    (front back : Str) : left ++ front < right ++ back := by
  induction left generalizing right with
  | nil =>
      obtain rfl := List.length_eq_zero_iff.mp same.symm
      exact absurd less (List.not_lt_nil _)
  | cons c left ih =>
      cases right with
      | nil => cases same
      | cons d right =>
          rw [List.cons_append, List.cons_append, List.cons_lt_cons_iff]
          rcases List.cons_lt_cons_iff.mp less with before | ⟨equal, later⟩
          · exact Or.inl before
          · exact Or.inr ⟨equal, ih (Nat.succ.inj same) later⟩

theorem padded_lt {width first second : Nat} (positive : 0 < width) (less : first < second)
    (small : second < 10 ^ width) (front back : Str) :
    padded width first ++ front < padded width second ++ back := by
  have lengths := (padded_length positive (less.trans small)).trans (padded_length positive small).symm
  apply append_lt lengths
  apply digits_lt lengths (padded_digits _ _) (padded_digits _ _)
  rwa [padded_value, padded_value]

/-! ### Reading a timestamp back -/

/-- Some digits in front of a text, and what follows them. -/
def readField (width : Nat) (text : Str) : Option (Nat × Str) :=
  let front := text.take width
  if front.length = width ∧ front.all Char.isDigit then
    some (Nat.ofDigitChars 10 front 0, text.drop width)
  else none

def readMark (mark : Char) : Str → Option Str
  | [] => none
  | c :: rest => if c = mark then some rest else none

/-- The seconds since the epoch at a time given as `YYYYMMDDTHHMMSSZ`. -/
def readUtcDatetime (text : Str) : Option Nat := do
  let (year, text) ← readField 4 text
  let (month, text) ← readField 2 text
  let (day, text) ← readField 2 text
  let text ← readMark 'T' text
  let (hour, text) ← readField 2 text
  let (minute, text) ← readField 2 text
  let (second, text) ← readField 2 text
  let text ← readMark 'Z' text
  let date : Date := ⟨year, month, day⟩
  if text = [] ∧ date.Valid ∧ epoch.number ≤ date.number ∧ hour < 24 ∧ minute < 60 ∧ second < 60 then
    some ((date.number - epoch.number) * 86400 + hour * 3600 + minute * 60 + second)
  else none

theorem read_padded {width n : Nat} (positive : 0 < width) (small : n < 10 ^ width) (rest : Str) :
    readField width (padded width n ++ rest) = some (n, rest) := by
  have length := padded_length positive small
  have front : (padded width n ++ rest).take width = padded width n := by
    rw [List.take_append_of_le_length length.ge, List.take_of_length_le length.le]
  have back : (padded width n ++ rest).drop width = rest := by
    rw [List.drop_append_of_le_length length.ge, List.drop_of_length_le length.le, List.nil_append]
  have digits : (padded width n).all Char.isDigit = true := List.all_eq_true.mpr (padded_digits width n)
  simp only [readField, front, back]
  rw [if_pos ⟨length, digits⟩, padded_value]

theorem read_mark (mark : Char) (rest : Str) : readMark mark (mark :: rest) = some rest := if_pos rfl

section Timestamps
variable {unixSecs later : Nat}

/-- The text of a timestamp, field by field. -/
theorem format_fields (unixSecs : Nat) : formatUtcDatetime unixSecs =
    padded 4 (dateOf (unixSecs / 86400)).year ++ (padded 2 (dateOf (unixSecs / 86400)).month ++
      (padded 2 (dateOf (unixSecs / 86400)).day ++ ('T' :: (padded 2 (unixSecs % 86400 / 3600) ++
        (padded 2 (unixSecs % 86400 % 3600 / 60) ++ (padded 2 (unixSecs % 86400 % 60) ++ ['Z'])))))) := by
  simp only [formatUtcDatetime, dateOf, List.append_assoc, List.cons_append, List.nil_append]

/-- Month and day take two digits. -/
theorem fields_small (days : Nat) : (dateOf days).month < 10 ^ 2 ∧ (dateOf days).day < 10 ^ 2 := by
  obtain ⟨⟨⟨_, month⟩, _, day⟩, _⟩ := date_of days
  have length : monthLength (dateOf days).year (dateOf days).month ≤ 31 := by
    unfold monthLength
    split
    · split <;> decide
    all_goals decide
  omega

theorem format_length (early : (dateOf (unixSecs / 86400)).year < 10000) :
    (formatUtcDatetime unixSecs).length = 16 := by
  obtain ⟨month, day⟩ := fields_small (unixSecs / 86400)
  rw [format_fields]
  simp only [List.length_append, List.length_cons, List.length_nil]
  rw [padded_length (by decide) early, padded_length (by decide) month, padded_length (by decide) day,
    padded_length (by decide) (show unixSecs % 86400 / 3600 < 10 ^ 2 by omega),
    padded_length (by decide) (show unixSecs % 86400 % 3600 / 60 < 10 ^ 2 by omega),
    padded_length (by decide) (show unixSecs % 86400 % 60 < 10 ^ 2 by omega)]

theorem read_format (early : (dateOf (unixSecs / 86400)).year < 10000) :
    readUtcDatetime (formatUtcDatetime unixSecs) = some unixSecs := by
  obtain ⟨month, day⟩ := fields_small (unixSecs / 86400)
  obtain ⟨valid, number⟩ := date_of (unixSecs / 86400)
  have hour : unixSecs % 86400 / 3600 < 24 := by omega
  have minute : unixSecs % 86400 % 3600 / 60 < 60 := by omega
  have second : unixSecs % 86400 % 60 < 60 := by omega
  rw [format_fields]
  unfold readUtcDatetime
  refine bind_ok (read_padded (by decide) early _) ?_
  refine bind_ok (read_padded (by decide) month _) ?_
  refine bind_ok (read_padded (by decide) day _) ?_
  refine bind_ok (read_mark _ _) ?_
  refine bind_ok (read_padded (by decide) (by omega) _) ?_
  refine bind_ok (read_padded (by decide) (by omega) _) ?_
  refine bind_ok (read_padded (by decide) (by omega) _) ?_
  refine bind_ok (read_mark _ _) ?_
  change (if _ ∧ Date.Valid (dateOf (unixSecs / 86400)) ∧ _ then
    some (((dateOf (unixSecs / 86400)).number - epoch.number) * 86400 + _ + _ + _) else none) = _
  rw [if_pos ⟨rfl, valid, Nat.le.intro (Nat.add_comm _ _ ▸ number.symm), hour, minute, second⟩, number]
  congr 1
  omega

/-- Dates are ordered by their texts, and times of one day by theirs. -/
theorem format_lt (less : unixSecs < later) (early : (dateOf (later / 86400)).year < 10000) :
    formatUtcDatetime unixSecs < formatUtcDatetime later := by
  have positive : 0 < 2 := by decide
  obtain ⟨month, day⟩ := fields_small (later / 86400)
  rw [format_fields, format_fields]
  rcases (Nat.div_le_div_right less.le : unixSecs / 86400 ≤ later / 86400).lt_or_eq with before | same
  · rcases (date_before_iff _ _).mpr before with year | ⟨year, isMonth | ⟨sameMonth, isDay⟩⟩
    · exact padded_lt (by decide) year early _ _
    · rw [year]
      exact List.append_left_lt (padded_lt positive isMonth month _ _)
    · rw [year, sameMonth]
      exact List.append_left_lt (List.append_left_lt (padded_lt positive isDay day _ _))
  · rw [same]
    apply List.append_left_lt
    apply List.append_left_lt
    apply List.append_left_lt
    apply List.cons_lt_cons_iff.mpr
    refine Or.inr ⟨rfl, ?_⟩
    by_cases hours : unixSecs % 86400 / 3600 < later % 86400 / 3600
    · exact padded_lt positive hours (by omega) _ _
    · have hour : unixSecs % 86400 / 3600 = later % 86400 / 3600 := by omega
      rw [hour]
      apply List.append_left_lt
      by_cases minutes : unixSecs % 86400 % 3600 / 60 < later % 86400 % 3600 / 60
      · exact padded_lt positive minutes (by omega) _ _
      · have minute : unixSecs % 86400 % 3600 / 60 = later % 86400 % 3600 / 60 := by omega
        rw [minute]
        exact List.append_left_lt (padded_lt positive (by omega) (by omega) _ _)

theorem stamp_of (unixSecs : Nat) : (amzTimestamps unixSecs).2 = (formatUtcDatetime unixSecs).take 8 := by
  rw [amzTimestamps]

/-- The date alone begins the scope of the credential. -/
theorem scope_stamp (input : PresignInput) (early : (dateOf (unixSecs / 86400)).year < 10000) :
    (input.credentialScope unixSecs).take 8 = (formatUtcDatetime unixSecs).take 8 := by
  have length : (amzTimestamps unixSecs).2.length = 8 := by
    rw [stamp_of, List.length_take, format_length early]
    decide
  simp only [PresignInput.credentialScope, List.append_assoc]
  rw [List.take_append_of_le_length length.ge, List.take_of_length_le length.le, stamp_of]

end Timestamps

/-! ### The clock -/

/-- The dates are those of the proleptic Gregorian calendar, in order from the epoch, and the
timestamps of four-digit years name their seconds, in order. -/
structure GregorianClock : Prop where
  checked : ∀ days, days + 719468 < 2 ^ 64 → daysToYmdU64 days = some (daysToYmd days)
  valid : ∀ days, (dateOf days).Valid
  start : daysToYmd 0 = (1970, 1, 1)
  next : ∀ days, dateOf (days + 1) = (dateOf days).next
  length : ∀ unixSecs, (dateOf (unixSecs / 86400)).year < 10000 → (formatUtcDatetime unixSecs).length = 16
  decodes : ∀ unixSecs, (dateOf (unixSecs / 86400)).year < 10000 →
    readUtcDatetime (formatUtcDatetime unixSecs) = some unixSecs
  ascending : ∀ unixSecs later, (dateOf (later / 86400)).year < 10000 → unixSecs < later →
    formatUtcDatetime unixSecs < formatUtcDatetime later
  stamp : ∀ unixSecs, (dateOf (unixSecs / 86400)).year < 10000 → ∀ input : PresignInput,
    (amzTimestamps unixSecs).2 = (formatUtcDatetime unixSecs).take 8 ∧
      (input.credentialScope unixSecs).take 8 = (formatUtcDatetime unixSecs).take 8

/-- The clock of the signatures is that of the calendar: of a day of any era the divisions give
the date, whether or not a century or an era ends with it. -/
theorem gregorian_clock : GregorianClock where
  checked _ fits := days_checked fits
  valid days := (date_of days).1
  start := rfl
  next := date_next
  length _ early := format_length early
  decodes _ early := read_format early
  ascending _ _ early less := format_lt less early
  stamp unixSecs early input := ⟨stamp_of unixSecs, scope_stamp input early⟩

/-- The last day of an era, its first of March and the first one of a century without a leap day. -/
example : dateOf 11016 = ⟨2000, 2, 29⟩ ∧ dateOf 11017 = ⟨2000, 3, 1⟩ ∧ dateOf 47541 = ⟨2100, 3, 1⟩ := by
  decide

end Ferrobucket
