import Sql602.Convert.IntegerConversion
import Sql602.Convert.Timestamps
import Sql602.Library.Digits

namespace Sql602.Convert

/-! The calendar. -/

def isLeap (year : Nat) : Bool := year % 4 = 0 ∧ (year % 100 = 0 → year % 400 = 0)

def monthLength (year month : Nat) : Nat :=
  if month = 2 then if isLeap year then 29 else 28
  else if month = 4 ∨ month = 6 ∨ month = 9 ∨ month = 11 then 30 else 31

structure CalendarDate where
  year : Nat
  month : Nat
  day : Nat
  year_le : year ≤ 9999
  month_pos : 1 ≤ month
  month_le : month ≤ 12
  day_pos : 1 ≤ day
  day_le : day ≤ monthLength year month

theorem monthLength_le (year month : Nat) : monthLength year month ≤ 31 := by
  unfold monthLength
  split
  · split <;> decide
  · split <;> decide

namespace CalendarDate

variable (date : CalendarDate)

theorem day_le_31 : date.day ≤ 31 := date.day_le.trans (monthLength_le _ _)

def code : Nat := MixedRadix.value date.year [12, 31] [date.month - 1, date.day - 1]

theorem code_eq : date.code = date.day - 1 + 31 * (date.month - 1 + 12 * date.year) := by
  simp only [code, MixedRadix.value]
  ring

theorem code_lt : date.code < 3720000 := by
  have hyear := date.year_le
  have hmonth := date.month_le
  have hday := date.day_le_31
  rw [code_eq]
  omega

theorem code_ne_none : date.code ≠ NONEDATE := by
  have hlt := date.code_lt
  unfold NONEDATE
  omega

end CalendarDate

theorem monthLength_fits {year month day : Nat} (hmonth : 1 ≤ month) (hmonth' : month ≤ 12) :
    day ≤ monthLength year month ↔
      ¬ (31 < day ∨ day = 31 ∧ (month = 4 ∨ month = 6 ∨ month = 9 ∨ month = 11)) ∧
      ¬ (month = 2 ∧ 28 < day ∧
        (29 < day ∨ year % 4 ≠ 0 ∨ year % 100 = 0 ∧ year % 400 ≠ 0)) := by
  unfold monthLength isLeap
  simp only [decide_eq_true_eq]
  split
  case isTrue =>
    split <;> omega
  case isFalse =>
    split <;> omega

theorem makeDate_code (date : CalendarDate) :
    makeDate date.day date.month date.year = date.code := by
  have hfits := (monthLength_fits date.month_pos date.month_le).mp date.day_le
  have hyear := date.year_le
  have hmonth := date.month_pos
  have hmonth' := date.month_le
  have hday := date.day_pos
  have hlt := date.code_lt
  rw [date.code_eq] at hlt ⊢
  unfold makeDate
  rw [if_neg (by omega), if_neg (by omega)]
  unfold uns32
  omega

/-- Only calendar dates are accepted. -/
theorem date_of_makeDate {day month year : Int} (hdate : makeDate day month year ≠ NONEDATE) :
    ∃ date : CalendarDate, day = date.day ∧ month = date.month ∧ year = date.year := by
  unfold makeDate at hdate
  split at hdate
  case isTrue => exact absurd rfl hdate
  case isFalse hranges =>
    split at hdate
    case isTrue => exact absurd rfl hdate
    case isFalse hleap =>
      obtain ⟨day, rfl⟩ := Int.eq_ofNat_of_zero_le (show 0 ≤ day by omega)
      obtain ⟨month, rfl⟩ := Int.eq_ofNat_of_zero_le (show 0 ≤ month by omega)
      obtain ⟨year, rfl⟩ := Int.eq_ofNat_of_zero_le (show 0 ≤ year by omega)
      have hmonth : 1 ≤ month := by omega
      have hmonth' : month ≤ 12 := by omega
      refine ⟨⟨year, month, day, by omega, hmonth, hmonth', by omega, ?_⟩, rfl, rfl, rfl⟩
      rw [monthLength_fits hmonth hmonth']
      omega

/-! Points of time. -/

/-- A calendar date and a time of day, to the second. -/
structure Moment extends CalendarDate where
  hour : Nat
  minute : Nat
  second : Nat
  hour_lt : hour < 24
  minute_lt : minute < 60
  second_lt : second < 60

namespace Moment

variable (moment : Moment)

def struct : TimestampStruct where
  year := Int16.ofNat moment.year
  month := UInt16.ofNat moment.month
  day := UInt16.ofNat moment.day
  hour := UInt16.ofNat moment.hour
  minute := UInt16.ofNat moment.minute
  second := UInt16.ofNat moment.second
  fraction := 0

/-- From the year to the second. -/
def components : List Nat :=
  [moment.year, moment.month, moment.day, moment.hour, moment.minute, moment.second]

def Before (earlier later : Moment) : Prop := earlier.components < later.components

def time (sec1000 : Nat) : Nat := makeTime moment.hour moment.minute moment.second sec1000

def radices : List Nat := [12, 31, 24, 60, 60]

def digits : List Nat :=
  [moment.month - 1, moment.day - 1, moment.hour, moment.minute, moment.second]

/-- The seconds since the year 1900, in months of 31 days. -/
def seconds : Nat := MixedRadix.value (moment.year - 1900) radices moment.digits

/-- The year is not before 1900, the seconds fit in 32 bits and are not the code of no value. -/
structure Representable : Prop where
  year_ge : 1900 ≤ moment.year
  seconds_lt : moment.seconds < 2 ^ 32
  seconds_ne : moment.seconds ≠ NONETIMESTAMP

theorem digits_below : MixedRadix.Below moment.digits radices := by
  have hmonth := moment.month_pos
  have hmonth' := moment.month_le
  have hday := moment.day_pos
  have hday' := moment.day_le_31
  refine .cons ?_ (.cons ?_ (.cons moment.hour_lt (.cons moment.minute_lt
    (.cons moment.second_lt .nil))))
  · omega
  · omega

theorem seconds_eq : moment.seconds =
    moment.second + 60 * (moment.minute + 60 * moment.hour) +
      86400 * (moment.day - 1 + 31 * (moment.month - 1 + 12 * (moment.year - 1900))) := by
  simp only [seconds, radices, digits, MixedRadix.value]
  ring

theorem seconds_lt_iff {earlier later : Moment} (hearlier : 1900 ≤ earlier.year)
    (hlater : 1900 ≤ later.year) : earlier.seconds < later.seconds ↔ earlier.Before later := by
  have hmonth := earlier.month_pos
  have hmonth' := later.month_pos
  have hday := earlier.day_pos
  have hday' := later.day_pos
  unfold seconds
  rw [MixedRadix.value_lt_iff earlier.digits_below later.digits_below]
  simp only [Before, components, digits, List.cons_lt_cons_iff, List.lt_irrefl, and_false, or_false]
  omega

end Moment

/-! The fields of the structure. -/

theorem toNat_uns16 {n : Nat} (hn : n < 2 ^ 16) : (UInt16.ofNat n).toNat = n := by
  rw [UInt16.toNat_ofNat', Nat.mod_eq_of_lt hn]

theorem uns16_natCast (n : Nat) : UInt16.ofInt n = UInt16.ofNat n := by
  have hmod : ((n : Int) % 2 ^ 16).toNat = n % 2 ^ 16 := by omega
  rw [UInt16.ofInt, hmod, UInt16.ofNat_mod_size]

section Struct

variable (moment : Moment)

@[simp] theorem Moment.struct_year : moment.struct.year.toInt = moment.year := by
  have hyear := moment.year_le
  exact Int16.toInt_ofNat_of_lt (by omega)

@[simp] theorem Moment.struct_month : moment.struct.month.toNat = moment.month := by
  have hmonth := moment.month_le
  exact toNat_uns16 (by omega)

@[simp] theorem Moment.struct_day : moment.struct.day.toNat = moment.day := by
  have hday := moment.day_le_31
  exact toNat_uns16 (by omega)

@[simp] theorem Moment.struct_hour : moment.struct.hour.toNat = moment.hour := by
  have hhour := moment.hour_lt
  exact toNat_uns16 (by omega)

@[simp] theorem Moment.struct_minute : moment.struct.minute.toNat = moment.minute := by
  have hminute := moment.minute_lt
  exact toNat_uns16 (by omega)

@[simp] theorem Moment.struct_second : moment.struct.second.toNat = moment.second := by
  have hsecond := moment.second_lt
  exact toNat_uns16 (by omega)

end Struct

/-! Encoding and decoding. -/

section Encoding

variable {moment : Moment}

theorem TIMESTAMP2datim_struct (moment : Moment) :
    TIMESTAMP2datim moment.struct = moment.seconds % 2 ^ 32 := by
  have hmonth := moment.month_pos
  have hday := moment.day_pos
  have hday' := moment.day_le_31
  unfold TIMESTAMP2datim uns32
  rw [moment.seconds_eq]
  simp only [Moment.struct_year, Moment.struct_month, Moment.struct_day, Moment.struct_hour,
    Moment.struct_minute, Moment.struct_second]
  rw [if_neg (by omega)]
  split <;> omega

theorem encoded (hfits : moment.Representable) :
    TIMESTAMP2datim moment.struct = moment.seconds := by
  rw [TIMESTAMP2datim_struct, Nat.mod_eq_of_lt hfits.seconds_lt]

theorem datim2TIMESTAMP_seconds (hfits : moment.Representable) (ts : TimestampStruct) :
    datim2TIMESTAMP moment.seconds ts = moment.struct := by
  have hyear := hfits.year_ge
  have hmonth := moment.month_pos
  have hmonth' := moment.month_le
  have hday := moment.day_pos
  have hday' := moment.day_le_31
  have hhour := moment.hour_lt
  have hminute := moment.minute_lt
  have hsecond := moment.second_lt
  unfold datim2TIMESTAMP
  rw [if_neg hfits.seconds_ne, moment.seconds_eq]
  simp only [Moment.struct, TimestampStruct.mk.injEq, and_true]
  refine ⟨congrArg _ ?_, congrArg _ ?_, congrArg _ ?_, congrArg _ ?_, congrArg _ ?_,
    congrArg _ ?_⟩ <;> omega

theorem decoded (hfits : moment.Representable) (ts : TimestampStruct) :
    datim2TIMESTAMP (TIMESTAMP2datim moment.struct) ts = moment.struct := by
  rw [encoded hfits, datim2TIMESTAMP_seconds hfits]

theorem Moment.time_eq (moment : Moment) {sec1000 : Nat} (hsec1000 : sec1000 < 1000) :
    moment.time sec1000 =
      sec1000 + 1000 * (moment.second + 60 * (moment.minute + 60 * moment.hour)) := by
  have hhour := moment.hour_lt
  have hminute := moment.minute_lt
  have hsecond := moment.second_lt
  unfold time makeTime
  rw [if_neg (by omega)]
  unfold uns32
  omega

theorem Moment.time_lt (moment : Moment) {sec1000 : Nat} (hsec1000 : sec1000 < 1000) :
    moment.time sec1000 < 86400000 := by
  have hhour := moment.hour_lt
  have hminute := moment.minute_lt
  have hsecond := moment.second_lt
  rw [moment.time_eq hsec1000]
  omega

theorem Moment.time_ne_none (moment : Moment) {sec1000 : Nat} (hsec1000 : sec1000 < 1000) :
    moment.time sec1000 ≠ NONETIME := by
  have hlt := moment.time_lt hsec1000
  unfold NONETIME
  omega

section Parts

variable (date : CalendarDate)

theorem dayOf_code : dayOf date.code = date.day := by
  have hday := date.day_pos
  have hday' := date.day_le_31
  rw [dayOf, if_neg date.code_ne_none, date.code_eq]
  omega

theorem monthOf_code : monthOf date.code = date.month := by
  have hday := date.day_le_31
  have hmonth := date.month_pos
  have hmonth' := date.month_le
  rw [monthOf, if_neg date.code_ne_none, date.code_eq]
  omega

theorem yearOf_code : yearOf date.code = date.year := by
  have hday := date.day_le_31
  have hmonth := date.month_le
  rw [yearOf, if_neg date.code_ne_none, date.code_eq]
  omega

variable (moment : Moment) {sec1000 : Nat} (hsec1000 : sec1000 < 1000)
include hsec1000

theorem hoursOf_time : hoursOf (moment.time sec1000) = moment.hour := by
  have hminute := moment.minute_lt
  have hsecond := moment.second_lt
  rw [hoursOf, if_neg (moment.time_ne_none hsec1000), moment.time_eq hsec1000]
  omega

theorem minutesOf_time : minutesOf (moment.time sec1000) = moment.minute := by
  have hminute := moment.minute_lt
  have hsecond := moment.second_lt
  rw [minutesOf, if_neg (moment.time_ne_none hsec1000), moment.time_eq hsec1000]
  omega

theorem secondsOf_time : secondsOf (moment.time sec1000) = moment.second := by
  have hsecond := moment.second_lt
  rw [secondsOf, if_neg (moment.time_ne_none hsec1000), moment.time_eq hsec1000]
  omega

end Parts

/-- The thousandths of a second are left out. -/
theorem datetime2timestamp_code (moment : Moment) {sec1000 : Nat} (hsec1000 : sec1000 < 1000) :
    datetime2timestamp moment.code (moment.time sec1000) = TIMESTAMP2datim moment.struct := by
  unfold datetime2timestamp
  simp only [if_neg moment.code_ne_none, if_neg (moment.time_ne_none hsec1000)]
  rw [dayOf_code, monthOf_code, yearOf_code, hoursOf_time moment hsec1000,
    minutesOf_time moment hsec1000, secondsOf_time moment hsec1000]
  unfold TIMESTAMP2datim
  simp only [Int16.ofInt_eq_ofNat, uns16_natCast]
  rfl

theorem timestamp2date_encoded (hfits : moment.Representable) :
    timestamp2date (TIMESTAMP2datim moment.struct) = moment.code := by
  have hday := moment.day_le_31
  unfold timestamp2date
  rw [decoded hfits]
  simp only [Moment.struct_day, Moment.struct_month, Moment.struct_year]
  rw [if_neg (by omega), makeDate_code]

theorem timestamp2time_encoded (hfits : moment.Representable) :
    timestamp2time (TIMESTAMP2datim moment.struct) = moment.time 0 := by
  have hday := moment.day_le_31
  unfold timestamp2time
  rw [decoded hfits]
  simp only [Moment.struct_day, Moment.struct_hour, Moment.struct_minute, Moment.struct_second]
  rw [if_neg (by omega)]
  rfl

end Encoding

end Sql602.Convert
