import Sql602.Convert.TimestampEncoding

namespace Sql602.Convert

/-! The texts of timestamps. -/

/-- Decimal digits of a number, possibly after zeros. -/
structure Spells (digits : List UInt8) (n : Nat) : Prop where
  all_digits : AllDigits digits
  ne_nil : digits ≠ []
  number : numberFrom 0 digits = n

section Reading

variable {digits rest : List UInt8} {n : Nat}

theorem Spells.charAt (hspells : Spells digits n) (rest : List UInt8) :
    isDigit (charAt (digits ++ rest)) = true :=
  charAt_digit hspells.all_digits hspells.ne_nil rest

theorem charAt_ne_zero {txt : List UInt8} (hdigit : isDigit (charAt txt) = true) :
    charAt txt ≠ 0 := by
  intro hzero
  rw [hzero] at hdigit
  cases hdigit

theorem skipSpaces_head {txt : List UInt8} (hne : charAt txt ≠ 32) : skipSpaces txt = txt := by
  cases txt with
  | nil => rfl
  | cons c txt =>
      have hc : ¬ decide (c = 32) = true := fun heq => hne (of_decide_eq_true heq)
      rw [skipSpaces, List.dropWhile_cons, if_neg hc]

theorem digit_ne_space {c : UInt8} (hdigit : isDigit c = true) : c ≠ 32 := by
  rintro rfl
  cases hdigit

theorem Spells.str2uns (hspells : Spells digits n) (hn : n < 2 ^ 32)
    (hstop : isDigit (Convert.charAt rest) = false) :
    str2uns (digits ++ rest) = some (n, skipBlanks rest) := by
  have hdigit := hspells.charAt rest
  unfold Convert.str2uns str2unsScaled unsScaled
  rw [skipBlanks_head (digit_not_blank hdigit)]
  simp only [Bool.and_false, Bool.false_eq_true, if_false, hdigit, if_true]
  rw [digitLoop_digits hspells.all_digits hstop (Or.inr (Or.inl rfl)),
    accumulateAll32 hspells.all_digits, hspells.number, if_pos (Or.inr hn)]
  rfl

theorem Spells.readPart (hspells : Spells digits n) (hn : n < 2 ^ 32) (rest : List UInt8) :
    readPart (digits ++ 46 :: rest) = some (n, rest) := by
  have hread : Convert.str2uns (digits ++ 46 :: rest) = some (n, 46 :: rest) :=
    hspells.str2uns hn rfl
  have hseparator : isDateSeparator (Convert.charAt (46 :: rest)) = true := rfl
  simp only [Convert.readPart, hread, hseparator, if_true, List.tail_cons]

theorem Spells.readYear (hspells : Spells digits n) (hn : n < 2 ^ 32) (currentYear : Int)
    (hstop : isDigit (Convert.charAt rest) = false) :
    readYear currentYear (digits ++ rest) = some (Int16.ofNat n, skipBlanks rest) := by
  have hdigit := hspells.charAt rest
  unfold Convert.readYear
  simp only [skipSpaces_head (digit_ne_space hdigit)]
  rw [if_pos (charAt_ne_zero hdigit), hspells.str2uns hn hstop]

theorem Spells.readSexagesimal (hspells : Spells digits n) (hn : n < 2 ^ 32)
    (hstop : isDigit (Convert.charAt rest) = false) :
    readSexagesimal (58 :: (digits ++ rest)) = some (UInt16.ofNat n, skipBlanks rest) := by
  have hcolon : Convert.charAt (58 :: (digits ++ rest)) = 58 := rfl
  unfold Convert.readSexagesimal
  rw [if_pos hcolon, List.tail_cons, hspells.str2uns hn hstop]

end Reading

/-- The texts of the parts in the order of printing. -/
def timestampText (day month year hour minute second : List UInt8) : List UInt8 :=
  day ++ 46 :: (month ++ 46 :: (year ++ 32 :: 32 :: (hour ++ 58 :: (minute ++ 58 :: second))))

section Text

variable {dayText monthText yearText hourText minuteText secondText : List UInt8}
  {day month year hour minute second : Nat}

theorem readClock_spelled (hhour : Spells hourText hour) (hour_lt : hour < 2 ^ 32)
    (hminute : Spells minuteText minute) (minute_lt : minute < 2 ^ 32)
    (hsecond : Spells secondText second) (second_lt : second < 2 ^ 32) :
    readClock (hourText ++ 58 :: (minuteText ++ 58 :: secondText)) =
      some (UInt16.ofNat hour, UInt16.ofNat minute, UInt16.ofNat second, []) := by
  have hdigit := hhour.charAt (58 :: (minuteText ++ 58 :: secondText))
  have hhourRead : str2uns (hourText ++ 58 :: (minuteText ++ 58 :: secondText)) =
      some (hour, 58 :: (minuteText ++ 58 :: secondText)) := hhour.str2uns hour_lt rfl
  have hminuteRead : readSexagesimal (58 :: (minuteText ++ 58 :: secondText)) =
      some (UInt16.ofNat minute, 58 :: secondText) := hminute.readSexagesimal minute_lt rfl
  have hsecondRead : readSexagesimal (58 :: secondText) = some (UInt16.ofNat second, []) := by
    rw [← List.append_nil secondText]
    exact hsecond.readSexagesimal second_lt rfl
  have hcolon : skipSpaces (58 :: (minuteText ++ 58 :: secondText)) =
      58 :: (minuteText ++ 58 :: secondText) := skipSpaces_head (show (58 : UInt8) ≠ 32 by decide)
  unfold readClock
  simp only [skipSpaces_head (digit_ne_space hdigit)]
  rw [if_pos (charAt_ne_zero hdigit), hhourRead]
  simp only [hcolon, hminuteRead, hsecondRead]

/-- What is read from any numbers. Each is cut to 16 bits before the check. -/
theorem str2odbcTimestampOpen_spelled (hday : Spells dayText day) (day_lt : day < 2 ^ 32)
    (hmonth : Spells monthText month) (month_lt : month < 2 ^ 32)
    (hyear : Spells yearText year) (year_lt : year < 2 ^ 32)
    (hhour : Spells hourText hour) (hour_lt : hour < 2 ^ 32)
    (hminute : Spells minuteText minute) (minute_lt : minute < 2 ^ 32)
    (hsecond : Spells secondText second) (second_lt : second < 2 ^ 32)
    (currentYear : Int) (ts : TimestampStruct) :
    str2odbcTimestampOpen currentYear
        (timestampText dayText monthText yearText hourText minuteText secondText) ts =
      let ts : TimestampStruct := ⟨Int16.ofNat year, UInt16.ofNat month, UInt16.ofNat day,
        UInt16.ofNat hour, UInt16.ofNat minute, UInt16.ofNat second, 0⟩
      if ts.isValid then some (ts, []) else none := by
  have hclock := readClock_spelled hhour hour_lt hminute minute_lt hsecond second_lt
  unfold timestampText
  generalize hclockText : hourText ++ 58 :: (minuteText ++ 58 :: secondText) = clockText at *
  have hclockDigit : isDigit (charAt clockText) = true := by
    rw [← hclockText]
    exact hhour.charAt _
  have hyearRead : readYear currentYear (yearText ++ 32 :: 32 :: clockText) =
      some (Int16.ofNat year, clockText) := by
    rw [hyear.readYear year_lt currentYear rfl]
    have hskip : skipBlanks (32 :: 32 :: clockText) = skipBlanks clockText := rfl
    rw [hskip, skipBlanks_head (digit_not_blank hclockDigit)]
  have hmonthRead := hmonth.readPart month_lt (yearText ++ 32 :: 32 :: clockText)
  generalize yearText ++ 32 :: 32 :: clockText = afterMonth at *
  generalize monthText ++ 46 :: afterMonth = afterDay at *
  have hdayRead := hday.readPart day_lt afterDay
  have hdayDigit := hday.charAt (46 :: afterDay)
  have hdayNumber := hday.str2uns day_lt (show isDigit (charAt (46 :: afterDay)) = false from rfl)
  unfold str2odbcTimestampOpen
  simp only [skipBlanks_head (digit_not_blank hdayDigit)]
  rw [if_neg (charAt_ne_zero hdayDigit), hdayNumber, if_neg (fun hnone => by cases hnone.1),
    hdayRead]
  simp only [hmonthRead, hyearRead, hclock]

end Text

/-! What is accepted. -/

section Accepted

theorem struct_isValid (moment : Moment) : moment.struct.isValid = true := by
  have hhour := moment.hour_lt
  have hminute := moment.minute_lt
  have hsecond := moment.second_lt
  unfold TimestampStruct.isValid
  rw [decide_eq_true_eq]
  constructor
  · simp only [Moment.struct_day, Moment.struct_month, Moment.struct_year]
    rw [makeDate_code]
    exact moment.code_ne_none
  · simp only [UInt16.lt_iff_toNat_lt, Moment.struct_hour, Moment.struct_minute,
      Moment.struct_second, UInt16.toNat_ofNat, not_or, Nat.not_lt]
    omega

theorem uns16_of_toNat {c : UInt16} {n : Nat} (heq : (c.toNat : Int) = n) : c = UInt16.ofNat n := by
  rw [← Int.ofNat.inj heq, UInt16.ofNat_toNat]

theorem moment_of_isValid {ts : TimestampStruct} (hvalid : ts.isValid = true)
    (hfraction : ts.fraction = 0) : ∃ moment : Moment, ts = moment.struct := by
  unfold TimestampStruct.isValid at hvalid
  rw [decide_eq_true_eq] at hvalid
  obtain ⟨hdate, hclock⟩ := hvalid
  obtain ⟨date, hday, hmonth, hyear⟩ := date_of_makeDate hdate
  simp only [UInt16.lt_iff_toNat_lt, UInt16.toNat_ofNat, not_or, Nat.not_lt] at hclock
  obtain ⟨hhour, hminute, hsecond⟩ := hclock
  refine ⟨⟨date, ts.hour.toNat, ts.minute.toNat, ts.second.toNat, by omega, by omega, by omega⟩, ?_⟩
  obtain ⟨year, month, day, hour, minute, second, fraction⟩ := ts
  have hyear' : year = Int16.ofNat date.year := by
    have hle := date.year_le
    apply Int16.toInt.inj
    rw [Int16.toInt_ofNat_of_lt (by omega)]
    exact hyear
  simp only [Moment.struct, TimestampStruct.mk.injEq, UInt16.ofNat_toNat, true_and]
  exact ⟨hyear', uns16_of_toNat hmonth, uns16_of_toNat hday, hfraction⟩

/-- What is accepted is no value or a point of time. -/
theorem accepted {currentYear : Int} {txt rest : List UInt8} {ts result : TimestampStruct}
    (hread : str2odbcTimestampOpen currentYear txt ts = some (result, rest)) :
    result = { ts with day := 32 } ∨ ∃ moment : Moment, result = moment.struct := by
  unfold str2odbcTimestampOpen at hread
  dsimp only at hread
  split at hread
  case isTrue =>
    cases hread
    exact Or.inl rfl
  case isFalse =>
    split at hread
    case isTrue =>
      cases hread
      exact Or.inl rfl
    case isFalse =>
      split at hread
      case h_1 => cases hread
      case h_2 =>
        split at hread
        case h_1 => cases hread
        case h_2 =>
          split at hread
          case h_1 => cases hread
          case h_2 =>
            split at hread
            case h_1 => cases hread
            case h_2 =>
              split at hread
              case isTrue hvalid =>
                cases hread
                exact Or.inr (moment_of_isValid hvalid rfl)
              case isFalse => cases hread

end Accepted

/-! Printing. -/

section Printing

theorem spells_put2dig {val : Nat} (hval : val < 100) (zero : Bool) :
    Spells (put2dig val zero) val := by
  obtain ⟨hlow, hlow'⟩ := digitChar_digit (val % 10) (Nat.mod_lt val (by decide))
  have hnumber : ∀ high, numberFrom high [digitChar (val % 10)] = 10 * high + val % 10 := by
    intro high
    rw [numberFrom_cons, hlow']
    rfl
  unfold put2dig
  split
  case isTrue hten =>
    obtain ⟨hhigh, hhigh'⟩ := digitChar_digit (val / 10) (by omega)
    refine ⟨?_, List.cons_ne_nil _ _, ?_⟩
    · intro c hmem
      simp only [List.cons_append, List.nil_append, List.mem_cons, List.not_mem_nil, or_false]
        at hmem
      obtain rfl | rfl := hmem
      · exact hhigh
      · exact hlow
    · rw [List.cons_append, List.nil_append, numberFrom_cons, hhigh', hnumber]
      omega
  case isFalse hone =>
    cases zero with
    | true =>
        refine ⟨?_, List.cons_ne_nil _ _, ?_⟩
        · intro c hmem
          simp only [if_true, List.cons_append, List.nil_append, List.mem_cons, List.not_mem_nil,
            or_false] at hmem
          obtain rfl | rfl := hmem
          · rfl
          · exact hlow
        · have hzero : 10 * 0 + digitOf 48 = 0 := rfl
          rw [if_pos rfl, List.cons_append, List.nil_append, numberFrom_cons, hzero, hnumber]
          omega
    | false =>
        refine ⟨?_, List.cons_ne_nil _ _, ?_⟩
        · intro c hmem
          rw [if_neg Bool.false_ne_true, List.nil_append, List.mem_singleton] at hmem
          rw [hmem]
          exact hlow
        · rw [if_neg Bool.false_ne_true, List.nil_append, hnumber]
          omega

theorem spells_int2str (n : Nat) : Spells (intspec2str n 0) n := by
  have hsome : ¬ (n : Int) = NONEINTEGER := by
    unfold NONEINTEGER
    omega
  have htext : intspec2str n 0 = (revertedDigits n).reverse := by
    unfold intspec2str printSpec
    rw [if_neg hsome, if_neg (by omega)]
    rfl
  rw [htext]
  refine ⟨(revertedDigits_digits n).reverse, ?_, number_revertedDigits n⟩
  exact fun hnil => revertedDigits_ne_nil n (List.reverse_eq_nil_iff.mp hnil)

variable (moment : Moment)

theorem odbcTimestamp2str_struct (locale : Locale) :
    odbcTimestamp2str locale moment.struct SQL_LITERAL_PREZ =
      timestampText (put2dig moment.day false) (put2dig moment.month false)
        (intspec2str moment.year 0) (put2dig moment.hour true) (put2dig moment.minute true)
        (put2dig moment.second true) := by
  have hday := moment.day_le_31
  have hsec1000 : 0 < 1000 := by decide
  have hday31 : ¬ 31 < moment.struct.day := by
    have h31 : (31 : UInt16).toNat = 31 := rfl
    rw [UInt16.lt_iff_toNat_lt, Moment.struct_day, h31]
    exact Nat.not_lt.mpr hday
  have hmake : makeTime moment.hour moment.minute moment.second 0 = moment.time 0 := rfl
  unfold odbcTimestamp2str
  rw [if_neg hday31]
  simp only [Moment.struct_day, Moment.struct_month, Moment.struct_year, Moment.struct_hour,
    Moment.struct_minute, Moment.struct_second]
  rw [makeDate_code, hmake]
  unfold date2str time2str
  rw [if_neg moment.code_ne_none, if_neg (moment.time_ne_none hsec1000), dayOf_code, monthOf_code,
    yearOf_code, hoursOf_time moment hsec1000, minutesOf_time moment hsec1000,
    secondsOf_time moment hsec1000]
  simp [SQL_LITERAL_PREZ, EXT_DATE_FORMATS, timestampText]

theorem str2odbcTimestampOpen_printed (locale : Locale) (currentYear : Int) (ts : TimestampStruct) :
    str2odbcTimestampOpen currentYear
        (odbcTimestamp2str locale moment.struct SQL_LITERAL_PREZ) ts =
      some (moment.struct, []) := by
  have hyear := moment.year_le
  have hmonth := moment.month_le
  have hday := moment.day_le_31
  have hhour := moment.hour_lt
  have hminute := moment.minute_lt
  have hsecond := moment.second_lt
  rw [odbcTimestamp2str_struct]
  rw [str2odbcTimestampOpen_spelled (spells_put2dig (show moment.day < 100 by omega) false) (by omega)
    (spells_put2dig (show moment.month < 100 by omega) false) (by omega)
    (spells_int2str moment.year) (by omega)
    (spells_put2dig (show moment.hour < 100 by omega) true) (by omega)
    (spells_put2dig (show moment.minute < 100 by omega) true) (by omega)
    (spells_put2dig (show moment.second < 100 by omega) true) (by omega)]
  exact if_pos (struct_isValid moment)

end Printing

/-- Numbers of at most 15 bits that are no date or no time of day are not accepted. -/
theorem rejected {dayText monthText yearText hourText minuteText secondText : List UInt8}
    {day month year hour minute second : Nat}
    (hday : Spells dayText day) (day_lt : day < 2 ^ 15)
    (hmonth : Spells monthText month) (month_lt : month < 2 ^ 15)
    (hyear : Spells yearText year) (year_lt : year < 2 ^ 15)
    (hhour : Spells hourText hour) (hour_lt : hour < 2 ^ 15)
    (hminute : Spells minuteText minute) (minute_lt : minute < 2 ^ 15)
    (hsecond : Spells secondText second) (second_lt : second < 2 ^ 15)
    (hnone : makeDate day month year = NONEDATE ∨ makeTime hour minute second 0 = NONETIME)
    (currentYear : Int) (ts : TimestampStruct) :
    str2odbcTimestampOpen currentYear
      (timestampText dayText monthText yearText hourText minuteText secondText) ts = none := by
  rw [str2odbcTimestampOpen_spelled hday (by omega) hmonth (by omega) hyear (by omega) hhour
    (by omega) hminute (by omega) hsecond (by omega)]
  apply if_neg
  simp only [TimestampStruct.isValid, decide_eq_true_eq, UInt16.lt_iff_toNat_lt,
    UInt16.toNat_ofNat]
  rw [toNat_uns16 (show day < 2 ^ 16 by omega), toNat_uns16 (show month < 2 ^ 16 by omega),
    toNat_uns16 (show hour < 2 ^ 16 by omega), toNat_uns16 (show minute < 2 ^ 16 by omega),
    toNat_uns16 (show second < 2 ^ 16 by omega), Int16.toInt_ofNat_of_lt year_lt]
  rintro ⟨hdate, hclock⟩
  cases hnone with
  | inl hnone => exact hdate hnone
  | inr hnone =>
      unfold makeTime at hnone
      rw [if_neg (by omega)] at hnone
      have htotal : (0 : Int) + 1000 * (second + 60 * (minute + 60 * hour)) < 86400000 := by omega
      rw [uns32, Int.emod_eq_of_lt (by omega) (by omega)] at hnone
      unfold NONETIME at hnone
      omega

/-- What the encoding, the parser and the printing promise. -/
structure TimestampsKept : Prop where
  decoded : ∀ (moment : Moment) (ts : TimestampStruct), moment.Representable →
    datim2TIMESTAMP (TIMESTAMP2datim moment.struct) ts = moment.struct
  date_kept : ∀ (moment : Moment) (sec1000 : Nat), moment.Representable → sec1000 < 1000 →
    timestamp2date (datetime2timestamp (makeDate moment.day moment.month moment.year)
      (makeTime moment.hour moment.minute moment.second sec1000)) =
      makeDate moment.day moment.month moment.year
  time_kept : ∀ (moment : Moment) (sec1000 : Nat), moment.Representable → sec1000 < 1000 →
    timestamp2time (datetime2timestamp (makeDate moment.day moment.month moment.year)
      (makeTime moment.hour moment.minute moment.second sec1000)) =
      makeTime moment.hour moment.minute moment.second 0
  midnight : ∀ date : Nat, datetime2timestamp date NONETIME = datetime2timestamp date 0
  monotone : ∀ earlier later : Moment, earlier.Representable → later.Representable →
    (TIMESTAMP2datim earlier.struct < TIMESTAMP2datim later.struct ↔ earlier.Before later)
  clamped : ∀ moment : Moment, moment.year < 1900 →
    TIMESTAMP2datim moment.struct = TIMESTAMP2datim { moment.struct with year := 1900 }
  accepted : ∀ (currentYear : Int) (txt rest : List UInt8) (ts result : TimestampStruct),
    str2odbcTimestampOpen currentYear txt ts = some (result, rest) →
      result = { ts with day := 32 } ∨ ∃ moment : Moment, result = moment.struct
  rejected : ∀ (dayText monthText yearText hourText minuteText secondText : List UInt8)
    (day month year hour minute second : Nat), Spells dayText day → day < 2 ^ 15 →
    Spells monthText month → month < 2 ^ 15 → Spells yearText year → year < 2 ^ 15 →
    Spells hourText hour → hour < 2 ^ 15 → Spells minuteText minute → minute < 2 ^ 15 →
    Spells secondText second → second < 2 ^ 15 →
    makeDate day month year = NONEDATE ∨ makeTime hour minute second 0 = NONETIME →
    ∀ (currentYear : Int) (ts : TimestampStruct), str2odbcTimestampOpen currentYear
      (timestampText dayText monthText yearText hourText minuteText secondText) ts = none
  printed : ∀ (moment : Moment) (locale : Locale) (currentYear : Int) (ts : TimestampStruct),
    str2odbcTimestampOpen currentYear
      (odbcTimestamp2str locale moment.struct SQL_LITERAL_PREZ) ts = some (moment.struct, [])
  stored_printed : ∀ (moment : Moment) (locale : Locale) (currentYear : Int)
    (ts : TimestampStruct), moment.Representable →
    str2odbcTimestampOpen currentYear
      (datim2str locale (TIMESTAMP2datim moment.struct) SQL_LITERAL_PREZ) ts =
        some (moment.struct, [])
  none_kept : ∀ (locale : Locale) (currentYear : Int) (ts : TimestampStruct),
    datim2str locale NONETIMESTAMP SQL_LITERAL_PREZ = [] ∧
    str2odbcTimestampOpen currentYear [] ts = some ({ ts with day := 32 }, []) ∧
    TIMESTAMP2datim { ts with day := 32 } = NONETIMESTAMP

/-- The first moment of the year 2000. -/
def year2000 : Moment :=
  ⟨⟨2000, 1, 1, by decide, by decide, by decide, by decide, by decide⟩, 0, 0, 0, by decide,
    by decide, by decide⟩

end Sql602.Convert
