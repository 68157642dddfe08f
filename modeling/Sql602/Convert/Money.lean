import Sql602.Convert.Integers

namespace Sql602.Convert

/-! Money: hundredths in 48 bits, a low half of 16 bits and a high one of 32. -/

structure Monstr where
  moneyLo2 : BitVec 16
  moneyHi4 : BitVec 32
  deriving DecidableEq

namespace Monstr

/-- The code of the missing value. -/
def null : Monstr := ⟨0, 0x80000000⟩

def isNull (m : Monstr) : Bool := m.moneyHi4 = 0x80000000 ∧ m.moneyLo2 = 0

def bits (m : Monstr) : BitVec 48 := m.moneyHi4 ++ m.moneyLo2

def value (m : Monstr) : Int := m.bits.toInt

end Monstr

def moneyNeg (m : Monstr) : Monstr :=
  if m.moneyLo2 = 0 then { m with moneyHi4 := ~~~m.moneyHi4 + 1 }
  else ⟨~~~m.moneyLo2 + 1, ~~~m.moneyHi4⟩

/-- Neither for the missing value nor for negative ones, as the next one. -/
def moneyMod10 (m : Monstr) : Nat :=
  (((m.moneyHi4.srem 10) * 0x10000 + m.moneyLo2.setWidth 32) % 10).toNat

def moneyDiv10 (m : Monstr) : Monstr :=
  ⟨((m.moneyLo2.setWidth 32 + (m.moneyHi4.srem 10) * 0x10000) / 10).setWidth 16,
    m.moneyHi4.sdiv 10⟩

def money2int (m : Monstr) : BitVec 32 :=
  if m.isNull then 0x80000000
  else
    let neg : Bool := m.moneyHi4.slt 0
    let m := moneyDiv10 (moneyDiv10 (if neg then moneyNeg m else m))
    let i := (m.moneyHi4 &&& 0xffff) <<< 16 + m.moneyLo2.setWidth 32
    if neg then -i else i

/-- Below 0, 0 or above 0 as in C. -/
def cmpmoney (m1 m2 : Monstr) : Int :=
  if m1.moneyHi4 = m2.moneyHi4 then
    if m1.moneyLo2 = m2.moneyLo2 then 0
    else if m1.moneyLo2.ult m2.moneyLo2 then -1 else 1
  else if m1.moneyHi4.slt m2.moneyHi4 then -1 else 1

def moneyadd (m1 m2 : Monstr) : Monstr :=
  if m1.isNull then m2
  else if m2.isNull then m1
  else
    let pom := m1.moneyLo2.setWidth 32 + m2.moneyLo2.setWidth 32
    let hi := m1.moneyHi4 + m2.moneyHi4
    ⟨pom.setWidth 16, if pom >>> 16 = 0 then hi else hi + 1⟩

def moneysub (m1 m2 : Monstr) : Monstr :=
  if m1.isNull then moneyNeg m2
  else if m2.isNull then m1
  else
    let pom := m1.moneyLo2.setWidth 32 - m2.moneyLo2.setWidth 32
    let hi := m1.moneyHi4 - m2.moneyHi4
    ⟨pom.setWidth 16, if pom >>> 16 = 0 then hi else hi - 1⟩

/-- The magnitude of a product, for factors that are not negative. -/
def multMagnitude (m : Monstr) (val : BitVec 32) : Monstr :=
  let pom := m.moneyLo2.setWidth 32 * (val.setWidth 16).setWidth 32
  ⟨pom.setWidth 16,
    pom >>> 16 + m.moneyLo2.setWidth 32 * val.sshiftRight 16 + m.moneyHi4 * val⟩

def moneymult (m1 : Monstr) (val : BitVec 32) : Monstr :=
  if val = 0x80000000 then .null
  else if m1.isNull then m1
  else
    let neg1 : Bool := m1.moneyHi4.slt 0
    let neg2 : Bool := val.slt 0
    let m := multMagnitude (if neg1 then moneyNeg m1 else m1) (if neg2 then -val else val)
    if neg1 != neg2 then moneyNeg m else m

def int2money (i : BitVec 32) : Monstr :=
  if i = 0x80000000 then .null
  else moneymult ⟨i.setWidth 16, ((i.sshiftRight 16).setWidth 16).signExtend 32⟩ 100

/-! Texts. The separators come from the operating system; where there is no
thousands separator or none is defined by a property, it is 0. -/

/-- A character that can separate: no digit, no blank and no minus. -/
def Separates (c : UInt8) : Prop :=
  c ≠ 0 ∧ isDigit c = false ∧ isBlank c = false ∧ c ≠ 45

structure Separators where
  decim : UInt8
  ths : UInt8
  explic : UInt8
  sysapi : UInt8
  decim_separates : Separates decim
  ths_plain : isDigit ths = false
  explic_separates : explic ≠ 0 → Separates explic
  /-- What `strtod` was found to take. -/
  sysapi_found : sysapi ∈ [44, 59, 58, 46]

namespace Separators

variable (seps : Separators)

def separ : UInt8 := if seps.explic ≠ 0 then seps.explic else seps.decim

/-- The separator that `money2str` writes before the hundredths. -/
def written (param : Int) : UInt8 :=
  if param = 99 then 46 else if param = 0 then 44 else if param = 1 then 46 else seps.separ

/-- A character that `convert` takes for the decimal separator. -/
def isDecim (c : UInt8) : Bool :=
  c = seps.decim ∨ c = 46 ∨ (seps.explic ≠ 0 ∧ c = seps.explic)

/-- A character that `str2money` takes for the decimal separator. -/
def isPoint (c : UInt8) : Bool := c = 46 ∨ c = 44 ∨ c = seps.sysapi

end Separators

/-- The digits into `pom`, which has room for 20. -/
def pomDigits : Nat → Nat → Monstr → Option (List UInt8)
  | room, digs, locm =>
      if digs < 3 ∨ locm.moneyHi4 ≠ 0 ∨ locm.moneyLo2 ≠ 0 then
        match room with
        | 0 => none
        | room + 1 =>
            (pomDigits room (digs + 1) (moneyDiv10 locm)).map fun pom =>
              digitChar (moneyMod10 locm) :: pom
      else some []

/-- From the last digit of `pom` to the first one; `grouped` puts the thousands
separators. -/
def moneyDigits (separ ths : UInt8) (grouped : Bool) : List UInt8 → List UInt8
  | [] => []
  | c :: pom =>
      if pom.length = 2 then c :: separ :: moneyDigits separ ths grouped pom
      else if grouped ∧ 2 < pom.length ∧ (pom.length - 2) % 3 = 0 then
        c :: ths :: moneyDigits separ ths grouped pom
      else c :: moneyDigits separ ths grouped pom

/-- Instead of ",00" the text has ",- ". -/
def dashed : List UInt8 → List UInt8
  | 48 :: 48 :: pom => 32 :: 45 :: pom
  | pom => pom

def money2str (seps : Separators) (val : Monstr) (param : Int) : Option (List UInt8) :=
  let param := if param = 99 then 1 else param
  if val.isNull then some []
  else
    let neg : Bool := val.moneyHi4.slt 0
    (pomDigits 20 0 (if neg then moneyNeg val else val)).map fun pom =>
      (if neg then [45] else []) ++
        moneyDigits (seps.written param) seps.ths
          (param ≠ 0 ∧ param ≠ 1 ∧ seps.ths ≠ 0)
          (if param = 0 then dashed pom else pom).reverse

/-- The last separator is replaced. -/
def replaceLast (isDecim : UInt8 → Bool) (sysapi : UInt8) : List UInt8 → List UInt8
  | [] => []
  | c :: txt =>
      if txt.any isDecim then c :: replaceLast isDecim sysapi txt
      else if isDecim c then sysapi :: txt
      else c :: txt

/-- `size` is that of the buffer. -/
def convert (seps : Separators) (txt : List UInt8) (size : Nat) : List UInt8 :=
  replaceLast seps.isDecim seps.sysapi ((txt.filter (· ≠ seps.ths)).take (size - 1))

def ofDigit (c : UInt8) : Monstr := ⟨BitVec.ofNat 16 (digitOf c), 0⟩

def wholeLoop : Monstr → List UInt8 → Monstr × List UInt8
  | val, [] => (val, [])
  | val, c :: txt =>
      if isDigit c then wholeLoop (moneyadd (moneymult val 10) (ofDigit c)) txt
      else (val, c :: txt)

/-- A digit behind the separator, if there is one. -/
def oneDigit (val : Monstr) (txt : List UInt8) : Monstr × List UInt8 :=
  if isDigit (charAt txt) then (moneyadd val (ofDigit (charAt txt)), txt.tail) else (val, txt)

/-- The hundredths; the value comes with tenths. -/
def readFraction (seps : Separators) (val : Monstr) (txt : List UInt8) : Monstr × List UInt8 :=
  if seps.isPoint (charAt txt) ∨ charAt txt = 36 then
    let tenths := oneDigit val txt.tail
    oneDigit (moneymult tenths.1 10) tenths.2
  else (moneymult val 10, txt)

def readMoney (seps : Separators) (neg : Bool) (txt : List UInt8) : Bool × Monstr :=
  if seps.isPoint (charAt txt) = false ∧ isDigit (charAt txt) = false then (false, ⟨0, 0⟩)
  else
    let whole :=
      if seps.isPoint (charAt txt) then (⟨0, 0⟩, txt)
      else
        let read := wholeLoop ⟨0, 0⟩ txt
        (moneymult read.1 10, read.2)
    let read := readFraction seps whole.1 whole.2
    let rest := if charAt read.2 = 45 then read.2.tail else read.2
    (skipBlanks rest = [], if neg then moneyNeg read.1 else read.1)

/-- The answer and the value. -/
def str2money (seps : Separators) (txt : List UInt8) : Bool × Monstr :=
  let txt := skipBlanks txt
  if txt = [] then (true, .null)
  else
    let txt := skipBlanks (if charAt txt = 36 then txt.tail else txt)
    let rest := skipBlanks (if isSign (charAt txt) then txt.tail else txt)
    readMoney seps (charAt txt = 45) (convert seps rest 50)

end Sql602.Convert
