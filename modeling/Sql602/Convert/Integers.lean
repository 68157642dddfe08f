import Mathlib.Algebra.Group.Nat.Defs
import Mathlib.Algebra.Group.Int.Defs
import Mathlib.Data.Int.DivMod
import Mathlib.Data.List.Basic

namespace Sql602.Convert

/-! Texts of integers and of scaled integers. A text ends before its first zero
character. The 32-bit and the 64-bit functions differ in the test for an overflow. -/

def charAt (txt : List UInt8) : UInt8 := txt.headD 0

def isBlank (c : UInt8) : Bool := c ≠ 0 ∧ c ≤ 32

def isDigit (c : UInt8) : Bool := 48 ≤ c ∧ c ≤ 57

def isSeparator (c : UInt8) : Bool := c = 46 ∨ c = 44

def isSign (c : UInt8) : Bool := c = 45 ∨ c = 43

def digitOf (c : UInt8) : Nat := c.toNat - 48

def digitChar (d : Nat) : UInt8 := UInt8.ofNat (48 + d)

def skipBlanks (txt : List UInt8) : List UInt8 := txt.dropWhile isBlank

def sig8 (n : Int) : Int := Int.bmod n (2 ^ 8)

def sig32 (n : Int) : Int := Int.bmod n (2 ^ 32)

def sig64 (n : Int) : Int := Int.bmod n (2 ^ 64)

def NONEINTEGER : Int := -2 ^ 31

def NONEBIGINT : Int := -2 ^ 63

def MAXBIGINT : Int := 2 ^ 63 - 1

/-! Printing. -/

/-- The reverted decimal representation. -/
def revertedDigits (val : Nat) : List UInt8 :=
  digitChar (val % 10) :: if val / 10 = 0 then [] else revertedDigits (val / 10)
termination_by val
decreasing_by omega

/-- A decimal separator is added into the reverted representation. -/
def addSeparator (scale : Int) (t : List UInt8) : List UInt8 :=
  if 0 < scale ∧ scale ≤ 50 then
    let t := if t.length ≤ scale.toNat then
        t ++ List.replicate (scale.toNat - t.length + 1) 48
      else t
    t.take scale.toNat ++ 46 :: t.drop scale.toNat
  else t

def printSpec (none val scale : Int) : List UInt8 :=
  if val = none then []
  else (if val < 0 then [45] else []) ++ (addSeparator scale (revertedDigits val.natAbs)).reverse

def intspec2str (val scale : Int) : List UInt8 := printSpec NONEINTEGER val scale

def int64spec2str (val scale : Int) : List UInt8 := printSpec NONEBIGINT val scale

/-! Scaling. -/

def enlarge (wrap : Int → Int) (limit : Int) : Nat → Int → Option Int
  | 0, val => some val
  | scaleDisp + 1, val =>
      if limit < val ∨ val < -limit then none
      else enlarge wrap limit scaleDisp (wrap (val * 10))

def diminish (wrap : Int → Int) : Nat → Int → Int
  | 0, val => val
  | scaleDisp + 1, val =>
      diminish wrap scaleDisp
        ((if scaleDisp = 0 then wrap (if val < 0 then val - 5 else val + 5) else val).tdiv 10)

def scaleWith (wrap : Int → Int) (limit val scaleDisp : Int) : Option Int :=
  (enlarge wrap limit scaleDisp.toNat val).map (diminish wrap (-scaleDisp).toNat)

/-- The result is empty on an overflow. -/
def scaleInteger (intval scaleDisp : Int) : Option Int :=
  scaleWith sig32 214748364 intval scaleDisp

def scaleInt64 (intval scaleDisp : Int) : Option Int :=
  scaleWith sig64 (MAXBIGINT.tdiv 10) intval (sig8 scaleDisp)

/-! Parsing. -/

/-- The loop over the digits. It goes on after one separator when the number may be scaled. -/
def digitLoop (accumulate : Nat → Nat → Option Nat) (scaled : Bool) :
    Bool → Nat → Nat → List UInt8 → Option (Nat × Nat × List UInt8)
  | _, v, scale, [] => some (v, scale, [])
  | hasDecimSepar, v, scale, c :: txt =>
      if isDigit c then
        match accumulate v (digitOf c) with
        | none => none
        | some v =>
            let scale := if hasDecimSepar then scale + 1 else scale
            match txt with
            | [] => some (v, scale, [])
            | c :: rest =>
                if isSeparator c ∧ scaled ∧ ¬ hasDecimSepar then
                  digitLoop accumulate scaled true v scale rest
                else digitLoop accumulate scaled hasDecimSepar v scale (c :: rest)
      else some (v, scale, c :: txt)

/-- Without an end check. -/
def unsScaled (accumulate : Nat → Nat → Option Nat) (scaled : Bool) (txt : List UInt8) :
    Option (Nat × Nat × List UInt8) :=
  let txt := skipBlanks txt
  let hasDecimSepar := isSeparator (charAt txt) && scaled
  let txt := if hasDecimSepar then txt.tail else txt
  if isDigit (charAt txt) then
    match digitLoop accumulate scaled hasDecimSepar 0 0 txt with
    | none => none
    | some (v, scale, txt) => some (v, scale, skipBlanks txt)
  else none

def accumulate32 (v digit : Nat) : Option Nat :=
  if v = 429496729 ∧ 5 < digit ∨ 429496729 < v then none else some ((10 * v + digit) % 2 ^ 32)

def accumulate64 (v digit : Nat) : Option Nat :=
  let v := (10 * v + digit) % 2 ^ 64
  if 2 ^ 63 ≤ v then none else some v

def str2unsScaled : Bool → List UInt8 → Option (Nat × Nat × List UInt8) := unsScaled accumulate32

def str2uns64Scaled : Bool → List UInt8 → Option (Nat × Nat × List UInt8) :=
  unsScaled accumulate64

inductive Parsed
  | null
  | number (val : Int) (scale : Nat)
  deriving DecidableEq

/-- The blanks, the sign, the digits and the end check. -/
def parseSigned (uns : List UInt8 → Option (Nat × Nat × List UInt8)) (outside : Nat → Bool)
    (txt : List UInt8) : Option Parsed :=
  let txt := skipBlanks txt
  if charAt txt = 0 then some .null
  else
    let neg := charAt txt = 45
    match uns (if isSign (charAt txt) then txt.tail else txt) with
    | none => none
    | some (v, scale, txt) =>
        if outside v ∨ charAt txt ≠ 0 then none
        else some (.number (if neg then -(v : Int) else v) scale)

/-- Outside the range of a signed type of 32 bits. -/
def outside32 (v : Nat) : Bool := 2147483647 < v

def str2int (txt : List UInt8) : Option Int :=
  match parseSigned (str2unsScaled false) outside32 txt with
  | none => none
  | some .null => some NONEINTEGER
  | some (.number val _) => some val

def str2intspec (txt : List UInt8) (scale : Int) : Option Int :=
  if scale = 0 then str2int txt
  else
    match parseSigned (str2unsScaled true) outside32 txt with
    | none => none
    | some .null => some NONEINTEGER
    | some (.number val decimals) => scaleInteger val (scale - decimals)

def str2int64 (txt : List UInt8) : Option Int :=
  match parseSigned (str2uns64Scaled false) (fun _ => false) txt with
  | none => none
  | some .null => some NONEBIGINT
  | some (.number val _) => some val

def str2int64spec (txt : List UInt8) (scale : Int) : Option Int :=
  if scale = 0 then str2int64 txt
  else
    match parseSigned (str2uns64Scaled true) (fun _ => false) txt with
    | none => none
    | some .null => some NONEBIGINT
    | some (.number val decimals) => scaleInt64 val (scale - decimals)

end Sql602.Convert
