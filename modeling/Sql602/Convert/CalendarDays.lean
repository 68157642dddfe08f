import Mathlib.Data.List.Range
import Sql602.Convert.TimestampEncoding

namespace Sql602.Convert

/-! Stepping back by days, and the day of the week. -/

def cYear (year : Int) : Int :=
  if year % 4 ≠ 0 then 365
  else if year % 100 ≠ 0 then 366
  else if year % 400 ≠ 0 then 365
  else 366

def cMonth (month year : Int) : Int :=
  if month = 4 ∨ month = 6 ∨ month = 9 ∨ month = 11 then 30
  else if month ≠ 2 then 31
  else cYear year - 337

/-- The day, one month after its own, and the year. Every round takes at least one day
from `diff`, which bounds the rounds. -/
def dtMinusLoop : Nat → Int → Int → Int → Option (Int × Int × Int)
  | 0, _, _, _ => none
  | rounds + 1, diff, month, year =>
      let left := if month = 1 then 31 else cMonth (month - 1) year
      if diff ≤ left then some (left - diff + 1, month, year)
      else if month = 1 then
        if year = 1 then none else dtMinusLoop rounds (diff - left) 12 (year - 1)
      else dtMinusLoop rounds (diff - left) (month - 1) year

def dtMinus (dt diff : Nat) : Nat :=
  let day := dayOf dt
  let month := monthOf dt
  let year := yearOf dt
  if diff < day then makeDate (day - diff) month year
  else
    match dtMinusLoop diff (diff - (day - 1)) month year with
    | none => NONEDATE
    | some (day, month, year) =>
        if month = 1 then makeDate day 12 (year - 1) else makeDate day (month - 1) year

def daysBeforeYear (year : Nat) : Nat :=
  365 * year + (year + 3) / 4 + (year + 399) / 400 - (year + 99) / 100

def daysBeforeMonth (year month : Nat) : Nat :=
  ((List.range (month - 1)).map fun i => monthLength year (i + 1)).sum

/-- The days since the start of the year 0. -/
def dayNumber (year month day : Nat) : Nat :=
  daysBeforeYear year + daysBeforeMonth year month + (day - 1)

/-- Sunday is 0; the year 0 began on a Saturday. -/
def weekday (day : Nat) : Nat := (day + 6) % 7

/-- The library has no time for the days that it does not represent. -/
def dayOfWeek (represented : Nat → Bool) (date : Nat) : Nat :=
  let day := dayNumber (yearOf date).toNat (monthOf date).toNat (dayOf date).toNat
  if date = NONEDATE ∨ represented day = false then 7 else weekday day

/-! Numbers of days. -/

theorem cMonth_eq {year month : Nat} : cMonth month year = monthLength year month := by
  have hyear : cYear year - 337 = if isLeap year then 29 else 28 := by
    unfold cYear isLeap
    simp only [decide_eq_true_eq]
    repeat' split
    all_goals omega
  unfold cMonth monthLength
  rw [hyear]
  by_cases hmonth : month = 2
  · subst hmonth
    cases isLeap year <;> rfl
  · rw [if_neg hmonth, if_pos (show (month : Int) ≠ 2 by omega)]
    by_cases hthirty : month = 4 ∨ month = 6 ∨ month = 9 ∨ month = 11
    · rw [if_pos hthirty, if_pos (by omega)]
      rfl
    · rw [if_neg hthirty, if_neg (by omega)]
      rfl

theorem daysBeforeMonth_succ {year month : Nat} (hmonth : 1 ≤ month) :
    daysBeforeMonth year (month + 1) = daysBeforeMonth year month + monthLength year month := by
  obtain ⟨month, rfl⟩ := Nat.exists_eq_add_of_le' hmonth
  simp only [daysBeforeMonth, Nat.add_sub_cancel, List.range_succ, List.map_append,
    List.map_cons, List.map_nil, List.sum_append, List.sum_cons, List.sum_nil, Nat.add_zero]

/-- One more year of a cycle of `n + 1` years. -/
theorem cycle_succ (year n : Nat) :
    (year + 1 + n) / (n + 1) = (year + n) / (n + 1) + if year % (n + 1) = 0 then 1 else 0 := by
  rw [Nat.add_right_comm, Nat.succ_div]
  refine congrArg _ (if_congr ?_ rfl rfl)
  rw [Nat.add_assoc, Nat.dvd_add_self_right, Nat.dvd_iff_mod_eq_zero]

theorem daysBeforeYear_succ (year : Nat) :
    daysBeforeYear (year + 1) = daysBeforeYear year + if isLeap year then 366 else 365 := by
  have h400 : year % 400 = 0 → year % 100 = 0 := by omega
  have h100 : year % 100 = 0 → year % 4 = 0 := by omega
  have hless : (year + 99) / 100 ≤ (year + 3) / 4 := by omega
  unfold daysBeforeYear isLeap
  rw [cycle_succ year 3, cycle_succ year 399, cycle_succ year 99]
  simp only [decide_eq_true_eq]
  -- only whether the cycles start matters
  generalize (year + 3) / (3 + 1) = fours at hless ⊢
  generalize (year + 99) / (99 + 1) = hundreds at hless ⊢
  generalize (year + 399) / (399 + 1) = fourHundreds
  by_cases hfour : year % 4 = 0
  · by_cases hhundred : year % 100 = 0
    · by_cases hfourHundred : year % 400 = 0
      · rw [if_pos hfour, if_pos hfourHundred, if_pos hhundred, if_pos ⟨hfour, fun _ => hfourHundred⟩]
        omega
      · rw [if_pos hfour, if_neg hfourHundred, if_pos hhundred,
          if_neg fun h => hfourHundred (h.2 hhundred)]
        omega
    · rw [if_pos hfour, if_neg fun h => hhundred (h400 h), if_neg hhundred,
        if_pos ⟨hfour, fun h => absurd h hhundred⟩]
      omega
  · rw [if_neg hfour, if_neg fun h => hfour (h100 (h400 h)), if_neg fun h => hfour (h100 h),
      if_neg fun h => hfour h.1]
    omega

theorem daysBeforeMonth_year (year : Nat) :
    daysBeforeMonth year 13 = if isLeap year then 366 else 365 := by
  unfold daysBeforeMonth monthLength
  generalize isLeap year = leap
  cases leap <;> rfl

theorem daysBeforeMonth_mono {year month later : Nat} (hle : month ≤ later) :
    daysBeforeMonth year month ≤ daysBeforeMonth year later := by
  induction hle with
  | refl => exact Nat.le_refl _
  | @step later hle ih =>
      cases Nat.eq_zero_or_pos later with
      | inl hzero =>
          subst hzero
          exact ih
      | inr hpos =>
          rw [Nat.succ_eq_add_one, daysBeforeMonth_succ hpos]
          exact Nat.le_trans ih (Nat.le_add_right _ _)

theorem daysBeforeYear_mono {year later : Nat} (hle : year ≤ later) :
    daysBeforeYear year ≤ daysBeforeYear later := by
  induction hle with
  | refl => exact Nat.le_refl _
  | step hle ih =>
      rw [Nat.succ_eq_add_one, daysBeforeYear_succ]
      exact Nat.le_trans ih (Nat.le_add_right _ _)

namespace CalendarDate

def number (date : CalendarDate) : Nat := dayNumber date.year date.month date.day

variable (date : CalendarDate)

theorem number_lt_month :
    date.number < daysBeforeYear date.year + daysBeforeMonth date.year (date.month + 1) := by
  have hday := date.day_le
  have hpos := date.day_pos
  rw [number, dayNumber, daysBeforeMonth_succ date.month_pos]
  omega

theorem number_lt_year : date.number < daysBeforeYear (date.year + 1) := by
  have hmonth : daysBeforeMonth date.year (date.month + 1) ≤ daysBeforeMonth date.year 13 :=
    daysBeforeMonth_mono (Nat.succ_le_succ date.month_le)
  have hlt := date.number_lt_month
  rw [daysBeforeYear_succ, ← daysBeforeMonth_year]
  exact Nat.lt_of_lt_of_le hlt (Nat.add_le_add_left hmonth _)

theorem code_lt_iff {date later : CalendarDate} :
    date.code < later.code ↔ date.year < later.year ∨ date.year = later.year ∧
      (date.month < later.month ∨ date.month = later.month ∧ date.day < later.day) := by
  have hmonth := date.month_le
  have hmonth' := later.month_le
  have hpos := date.month_pos
  have hpos' := later.month_pos
  have hday := date.day_le_31
  have hday' := later.day_le_31
  have hfirst := date.day_pos
  have hfirst' := later.day_pos
  rw [code_eq, code_eq]
  omega

theorem number_lt_of_code_lt {date later : CalendarDate} (hlt : date.code < later.code) :
    date.number < later.number := by
  rw [code_lt_iff] at hlt
  obtain hyear | ⟨hyear, hmonth | ⟨hmonth, hday⟩⟩ := hlt
  · have hnumber := date.number_lt_year
    have hmono : daysBeforeYear (date.year + 1) ≤ daysBeforeYear later.year :=
      daysBeforeYear_mono hyear
    change date.number < daysBeforeYear later.year + _ + _
    omega
  · have hnumber := date.number_lt_month
    have hmono : daysBeforeMonth date.year (date.month + 1) ≤
        daysBeforeMonth date.year later.month := daysBeforeMonth_mono hmonth
    change date.number < daysBeforeYear later.year + daysBeforeMonth later.year later.month + _
    rw [← hyear]
    omega
  · have hpos := date.day_pos
    simp only [number, dayNumber, hyear, hmonth]
    omega

theorem code_inj {date later : CalendarDate} (heq : date.code = later.code) : date = later := by
  have hlt : ¬ date.code < later.code := Nat.not_lt_of_ge heq.ge
  have hgt : ¬ later.code < date.code := Nat.not_lt_of_ge heq.le
  rw [code_lt_iff] at hlt hgt
  cases date
  cases later
  simp only [mk.injEq]
  dsimp only at hlt hgt
  omega

theorem number_lt_iff {date later : CalendarDate} :
    date.number < later.number ↔ date.code < later.code := by
  constructor
  · intro hlt
    obtain hcode | hcode | hcode := Nat.lt_trichotomy date.code later.code
    · exact hcode
    · rw [code_inj hcode] at hlt
      exact absurd hlt (Nat.lt_irrefl _)
    · exact absurd hlt (Nat.lt_asymm (number_lt_of_code_lt hcode))
  · exact number_lt_of_code_lt

/-- Stepping back by one day. -/
theorem dtMinus_one (hyear : 1 ≤ date.year) :
    ∃ previous : CalendarDate, dtMinus date.code 1 = previous.code ∧
      previous.number + 1 = date.number := by
  have hpos := date.day_pos
  have hday := date.day_le
  have hmonth := date.month_pos
  have hmonth' := date.month_le
  have hyear' := date.year_le
  simp only [dtMinus, dayOf_code, monthOf_code, yearOf_code]
  cases Nat.lt_or_ge 1 date.day with
  | inl hlater =>
      let previous : CalendarDate :=
        ⟨date.year, date.month, date.day - 1, hyear', hmonth, hmonth', by omega, by omega⟩
      refine ⟨previous, ?_, ?_⟩
      · rw [if_pos (by omega), ← makeDate_code previous]
        congr 1
        change ((date.day : Int) - 1 = ((date.day - 1 : Nat) : Int))
        omega
      · simp only [number, dayNumber, previous]
        omega
  | inr hfirst =>
      have hone : date.day = 1 := by omega
      rw [if_neg (by omega), hone]
      simp only [dtMinusLoop, Nat.cast_one, sub_self, sub_zero]
      cases Nat.lt_or_ge 1 date.month with
      | inl hlater =>
          obtain ⟨month, hsucc⟩ := Nat.exists_eq_add_of_lt hlater
          have hlast : 28 ≤ monthLength date.year (month + 1) := by
            unfold monthLength
            repeat' split
            all_goals omega
          have hcast : ((date.month : Int) - 1) = ((month + 1 : Nat) : Int) := by omega
          let previous : CalendarDate :=
            ⟨date.year, month + 1, monthLength date.year (month + 1), hyear', by omega, by omega,
              by omega, Nat.le_refl _⟩
          refine ⟨previous, ?_, ?_⟩
          · have hnot : ¬ (date.month : Int) = 1 := by omega
            rw [if_neg hnot, hcast, cMonth_eq, if_pos (by omega)]
            dsimp only
            rw [if_neg hnot, hcast, ← makeDate_code previous]
            congr 1
            change _ = ((monthLength date.year (month + 1) : Nat) : Int)
            omega
          · have hstep : date.month = month + 1 + 1 := by omega
            have hbefore : daysBeforeMonth date.year (month + 1 + 1) =
                daysBeforeMonth date.year (month + 1) + monthLength date.year (month + 1) :=
              daysBeforeMonth_succ (Nat.succ_pos month)
            simp only [number, dayNumber, previous, hstep, hone]
            omega
      | inr hjanuary =>
          have hone' : date.month = 1 := by omega
          obtain ⟨year, hsucc⟩ := Nat.exists_eq_add_of_le' hyear
          let previous : CalendarDate :=
            ⟨year, 12, 31, by omega, by omega, by omega, by omega, Nat.le_refl 31⟩
          refine ⟨previous, ?_, ?_⟩
          · rw [hone', Nat.cast_one, if_pos rfl, if_pos (by decide)]
            dsimp only
            rw [if_pos rfl, ← makeDate_code previous]
            congr 1
            change (date.year : Int) - 1 = ((year : Nat) : Int)
            omega
          · have hlength : daysBeforeMonth year 13 =
                daysBeforeMonth year 12 + monthLength year 12 := daysBeforeMonth_succ (by decide)
            have htwelfth : monthLength year 12 = 31 := rfl
            have hnone : daysBeforeMonth (year + 1) 1 = 0 := rfl
            simp only [number, dayNumber, previous, hone, hone', hsucc]
            rw [daysBeforeYear_succ, ← daysBeforeMonth_year, hlength, htwelfth, hnone]
            omega

theorem dayOfWeek_code (represented : Nat → Bool) :
    dayOfWeek represented date.code =
      if represented date.number = false then 7 else weekday date.number := by
  simp only [dayOfWeek, dayOf_code, monthOf_code, yearOf_code, Int.toNat_natCast,
    date.code_ne_none, false_or]
  rfl

end CalendarDate

end Sql602.Convert
