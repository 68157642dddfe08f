import Sql602.Convert.Integers

namespace Sql602.Convert

/-! Timestamps: the seconds since the year 1900, in months of 31 days. -/

def NONEDATE : Nat := 0x80000000

def NONETIME : Nat := 0x80000000

def NONETIMESTAMP : Nat := 0x80000000

def uns32 (n : Int) : Nat := (n % 2 ^ 32).toNat

/-- The structure of ODBC. -/
structure TimestampStruct where
  year : Int16
  month : UInt16
  day : UInt16
  hour : UInt16
  minute : UInt16
  second : UInt16
  fraction : UInt32
  deriving DecidableEq, Inhabited

/-! Dates and times of day. -/

def makeDate (day month year : Int) : Nat :=
  if day < 1 ∨ 31 < day ∨ month < 1 ∨ 12 < month ∨ year < 0 ∨ 9999 < year ∨
      day = 31 ∧ (month = 4 ∨ month = 6 ∨ month = 9 ∨ month = 11) then NONEDATE
  else if month = 2 ∧ 28 < day ∧
      (29 < day ∨ year % 4 ≠ 0 ∨ year % 100 = 0 ∧ year % 400 ≠ 0) then NONEDATE
  else uns32 (day - 1 + 31 * (month - 1 + 12 * year))

def dayOf (date : Nat) : Int := if date = NONEDATE then NONEINTEGER else date % 31 + 1

def monthOf (date : Nat) : Int := if date = NONEDATE then NONEINTEGER else date / 31 % 12 + 1

def yearOf (date : Nat) : Int := if date = NONEDATE then NONEINTEGER else date / (12 * 31)

def makeTime (hour minute second sec1000 : Int) : Nat :=
  if hour < 0 ∨ 23 < hour ∨ minute < 0 ∨ 59 < minute ∨ second < 0 ∨ 59 < second ∨
      sec1000 < 0 ∨ 999 < sec1000 then NONETIME
  else uns32 (sec1000 + 1000 * (second + 60 * (minute + 60 * hour)))

def hoursOf (time : Nat) : Int := if time = NONETIME then NONEINTEGER else time / 3600000

def minutesOf (time : Nat) : Int := if time = NONETIME then NONEINTEGER else time / 60000 % 60

def secondsOf (time : Nat) : Int := if time = NONETIME then NONEINTEGER else time / 1000 % 60

def sec1000Of (time : Nat) : Int := if time = NONETIME then NONEINTEGER else time % 1000

/-! The encoding. -/

/-- Of the structure `ts` only the day is written when there is no value. -/
def datim2TIMESTAMP (dtm : Nat) (ts : TimestampStruct) : TimestampStruct :=
  if dtm = NONETIMESTAMP then { ts with day := 32 }
  else
    let clock := dtm % 86400
    let dtm := dtm / 86400
    { day := UInt16.ofNat (dtm % 31 + 1)
      month := UInt16.ofNat (dtm / 31 % 12 + 1)
      year := Int16.ofNat (dtm / 31 / 12 + 1900)
      hour := UInt16.ofNat (clock / 3600)
      minute := UInt16.ofNat (clock % 3600 / 60)
      second := UInt16.ofNat (clock % 60)
      fraction := 0 }

def TIMESTAMP2datim (ts : TimestampStruct) : Nat :=
  let year : Int := if ts.year.toInt < 1900 then 0 else ts.year.toInt - 1900
  if 31 < ts.day.toNat then NONETIMESTAMP
  else
    uns32 (ts.second.toNat + 60 * (ts.minute.toNat + 60 * ts.hour.toNat) +
      86400 * ((ts.day.toNat - 1) + 31 * ((ts.month.toNat - 1) + 12 * year)))

def timestamp2date (dtm : Nat) : Nat :=
  let ts := datim2TIMESTAMP dtm default
  if 31 < ts.day.toNat then NONEDATE
  else makeDate ts.day.toNat ts.month.toNat ts.year.toInt

def timestamp2time (dtm : Nat) : Nat :=
  let ts := datim2TIMESTAMP dtm default
  if 31 < ts.day.toNat then NONETIME
  else makeTime ts.hour.toNat ts.minute.toNat ts.second.toNat ts.fraction.toNat

def datetime2timestamp (dt tm : Nat) : Nat :=
  if dt = NONEDATE then NONETIME
  else
    let tm := if tm = NONETIME then 0 else tm
    TIMESTAMP2datim
      { day := UInt16.ofInt (dayOf dt)
        month := UInt16.ofInt (monthOf dt)
        year := Int16.ofInt (yearOf dt)
        hour := UInt16.ofInt (hoursOf tm)
        minute := UInt16.ofInt (minutesOf tm)
        second := UInt16.ofInt (secondsOf tm)
        fraction := UInt32.ofInt (sec1000Of tm) }

/-! Parsing. -/

def str2uns (txt : List UInt8) : Option (Nat × List UInt8) :=
  (str2unsScaled false txt).map fun (v, _, txt) => (v, txt)

def isDateSeparator (c : UInt8) : Bool := c = 46 ∨ c = 44

def isBlankDate (c : UInt8) : Bool := c = 32 ∨ c = 58 ∨ c = 46 ∨ c = 44

def skipSpaces (txt : List UInt8) : List UInt8 := txt.dropWhile (· = 32)

/-- A number with the separator after it. -/
def readPart (txt : List UInt8) : Option (Nat × List UInt8) :=
  match str2uns txt with
  | none => none
  | some (aux, txt) => if isDateSeparator (charAt txt) then some (aux, txt.tail) else none

def readYear (currentYear : Int) (txt : List UInt8) : Option (Int16 × List UInt8) :=
  let txt := skipSpaces txt
  if charAt txt ≠ 0 then
    match str2uns txt with
    | none => none
    | some (aux, txt) => some (Int16.ofNat aux, txt)
  else some (Int16.ofInt currentYear, txt)

/-- A colon and a number, or zero. -/
def readSexagesimal (txt : List UInt8) : Option (UInt16 × List UInt8) :=
  if charAt txt = 58 then
    match str2uns txt.tail with
    | none => none
    | some (aux, txt) => some (UInt16.ofNat aux, txt)
  else some (0, txt)

/-- The hour may be missing, and so may the minute and the second after it. -/
def readClock (txt : List UInt8) : Option (UInt16 × UInt16 × UInt16 × List UInt8) :=
  let txt := skipSpaces txt
  if charAt txt ≠ 0 then
    match str2uns txt with
    | none => none
    | some (hour, txt) =>
        match readSexagesimal (skipSpaces txt) with
        | none => none
        | some (minute, txt) =>
            match readSexagesimal txt with
            | none => none
            | some (second, txt) => some (UInt16.ofNat hour, minute, second, txt)
  else some (0, 0, 0, txt)

def TimestampStruct.isValid (ts : TimestampStruct) : Bool :=
  makeDate ts.day.toNat ts.month.toNat ts.year.toInt ≠ NONEDATE ∧
    ¬ (23 < ts.hour ∨ 59 < ts.minute ∨ 59 < ts.second)

/-- Without an end check. Day 32 stands for no value. -/
def str2odbcTimestampOpen (currentYear : Int) (txt : List UInt8) (ts : TimestampStruct) :
    Option (TimestampStruct × List UInt8) :=
  let txt := skipBlanks txt
  if charAt txt = 0 then some ({ ts with day := 32 }, txt)
  else if str2uns txt = none ∧ charAt (txt.dropWhile isBlankDate) = 0 then
    some ({ ts with day := 32 }, txt)
  else
    match readPart txt with
    | none => none
    | some (day, txt) =>
        match readPart txt with
        | none => none
        | some (month, txt) =>
            match readYear currentYear txt with
            | none => none
            | some (year, txt) =>
                match readClock txt with
                | none => none
                | some (hour, minute, second, txt) =>
                    let ts : TimestampStruct :=
                      ⟨year, UInt16.ofNat month, UInt16.ofNat day, hour, minute, second, 0⟩
                    if ts.isValid then some (ts, txt) else none

/-! Printing. -/

/-- What printing takes from the system. -/
structure Locale where
  monthName : Int → List UInt8
  date : Int → Int → Int → Int → List UInt8
  time : Int → Int → Int → List UInt8

def SQL_LITERAL_PREZ : Int := 99

def EXT_DATE_FORMATS : Int := 6

def put2dig (val : Nat) (zero : Bool) : List UInt8 :=
  (if 10 ≤ val then [digitChar (val / 10)] else if zero then [48] else []) ++
    [digitChar (val % 10)]

def date2str (locale : Locale) (dt : Nat) (param : Int) : List UInt8 :=
  if dt = NONEDATE then []
  else
    let param := if param = SQL_LITERAL_PREZ then 1 else param
    let day := dayOf dt
    let month := monthOf dt
    let year := yearOf dt
    let addYear := if param % 2 = 1 then intspec2str year 0 else []
    if param = 2 ∨ param = 3 then
      put2dig day.toNat false ++ [46] ++ locale.monthName (month - 1) ++
        (if param % 2 = 1 then [32] else []) ++ addYear
    else if param = 4 ∨ param = 5 then locale.date param day month year
    else if param = 6 then
      -- The end of the text is written over the day.
      put2dig (year.toNat / 100) true ++ put2dig (year.toNat % 100) true ++ [45] ++
        put2dig month.toNat true ++ [45]
    else put2dig day.toNat false ++ [46] ++ put2dig month.toNat false ++ [46] ++ addYear

def time2str (locale : Locale) (tm : Nat) (param : Int) : List UInt8 :=
  if tm = NONETIME then []
  else
    let param := if param = SQL_LITERAL_PREZ then 2 else param
    let hours := hoursOf tm
    let minutes := minutesOf tm
    let seconds := secondsOf tm
    let sec1000 := sec1000Of tm
    if param = 3 then locale.time hours minutes seconds
    else
      put2dig hours.toNat true ++ [58] ++ put2dig minutes.toNat true ++
        if param = 0 then []
        else [58] ++ put2dig seconds.toNat true ++
          if param = 1 then []
          else [46, digitChar (sec1000.toNat / 100)] ++ put2dig (sec1000.toNat % 100) true

def odbcTimestamp2str (locale : Locale) (ts : TimestampStruct) (param : Int) : List UInt8 :=
  if 31 < ts.day then []
  else
    let param := if param = SQL_LITERAL_PREZ then 5 else param
    let dtprez := param.tmod EXT_DATE_FORMATS
    let dtprez := if dtprez < 4 then dtprez + 2 else dtprez - 4
    date2str locale (makeDate ts.day.toNat ts.month.toNat ts.year.toInt) dtprez ++
      if param < EXT_DATE_FORMATS ∨ 2 * EXT_DATE_FORMATS ≤ param then
        [32, 32] ++ time2str locale
          (makeTime ts.hour.toNat ts.minute.toNat ts.second.toNat 0)
          (if param < EXT_DATE_FORMATS then 1 else 0)
      else []

def datim2str (locale : Locale) (dtm : Nat) (param : Int) : List UInt8 :=
  odbcTimestamp2str locale (datim2TIMESTAMP dtm default) param

end Sql602.Convert
