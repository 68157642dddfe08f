import Sql602.Sequences.Symbols

namespace Sql602.Sequences

open Sql602.Convert

/-! Definitions of sequences: the analysis of CREATE and ALTER and the text that
the server stores. -/

structure Sequence where
  modifying : Bool
  recursive : Bool
  schema : List UInt8
  name : List UInt8
  currval : Int
  startval : Int
  step : Int
  maxval : Int
  minval : Int
  restartval : Int
  cache : Int
  hasmax : Bool
  hasmin : Bool
  cycles : Bool
  hascache : Bool
  ordered : Bool
  startSpecified : Bool
  restartSpecified : Bool
  anythingSpecified : Bool

/-! The analysis. A list of symbols starts with the current one; behind the last
symbol of the source there is the end. -/

/-- The symbol that has to be the next one. -/
def nextAndTest (sym : Symbol) : List Symbol → Option (List Symbol)
  | [] => none
  | next :: rest => if next = sym then some rest else none

/-- A number or a sign comes next. -/
def signedNumVal : List Symbol → Option (Int × List Symbol)
  | .minus :: .integer n :: rest => some (-n, rest)
  | .plus :: .integer n :: rest => some (n, rest)
  | .integer n :: rest => some (n, rest)
  | _ => none

/-- The options that start with a plain identifier. Without further symbols the
identifier is no option. -/
def namedOption (seq : Sequence) (name : List UInt8) (rest : List Symbol) :
    Option (Sequence × Option (List Symbol)) :=
  let seq := { seq with anythingSpecified := true }
  if name = ascii "INCREMENT" then
    ((nextAndTest (.keyword (ascii "BY")) rest).bind signedNumVal).bind fun (v, rest) =>
      if v = 0 then none else some ({ seq with step := v }, some rest)
  else if name = ascii "MAXVALUE" then
    (signedNumVal rest).map fun (v, rest) => ({ seq with maxval := v, hasmax := true }, some rest)
  else if name = ascii "MINVALUE" then
    (signedNumVal rest).map fun (v, rest) => ({ seq with minval := v, hasmin := true }, some rest)
  else if name = ascii "CACHE" then
    match rest with
    | .integer n :: rest =>
        if n < 2 ∨ 1000 < n then none
        else some ({ seq with cache := n, hascache := true }, some rest)
    | _ => none
  else if name = ascii "NOMAXVALUE" then some ({ seq with hasmax := false }, some rest)
  else if name = ascii "NOMINVALUE" then some ({ seq with hasmin := false }, some rest)
  else if name = ascii "NOCACHE" then some ({ seq with hascache := false }, some rest)
  else if name = ascii "CYCLE" then some ({ seq with cycles := true }, some rest)
  else if name = ascii "NOCYCLE" then some ({ seq with cycles := false }, some rest)
  else if name = ascii "NORORDER" then some ({ seq with ordered := false }, some rest)
  else if name = ascii "RESTART" ∧ seq.modifying then
    ((nextAndTest (.keyword (ascii "WITH")) rest).bind signedNumVal).map fun (v, rest) =>
      ({ seq with restartval := v, restartSpecified := true }, some rest)
  else some (seq, none)

section Analysis

-- tells whether the type is an integer one
variable (analyseType : List Symbol → Option (Bool × List Symbol))

/-- One turn of the loop over the options; it ends the loop where no symbols come back. -/
def oneOption (seq : Sequence) : List Symbol → Option (Sequence × Option (List Symbol))
  | [] => some (seq, none)
  | .bad :: _ => none
  | .ident name :: rest => namedOption seq name rest
  | .keyword name :: rest =>
      if name = ascii "START" then
        ((nextAndTest (.keyword (ascii "WITH")) rest).bind signedNumVal).map fun (v, rest) =>
          ({ seq with startval := v, startSpecified := true, anythingSpecified := true },
            some rest)
      else if name = ascii "ORDER" then
        some ({ seq with ordered := true, anythingSpecified := true }, some rest)
      else if name = ascii "AS" ∧ seq.modifying = false then
        (analyseType rest).bind fun (isInteger, rest) =>
          if isInteger then some (seq, some rest) else none
      else some (seq, none)
  | _ :: _ => some (seq, none)

/-- Every option has a symbol, so that their number is enough for the fuel. -/
def options : Nat → Sequence → List Symbol → Option Sequence
  | 0, seq, symbols => (oneOption analyseType seq symbols).bind fun (seq, rest) =>
      if rest.isNone then some seq else none
  | fuel + 1, seq, symbols => (oneOption analyseType seq symbols).bind fun (seq, rest) =>
      rest.elim (some seq) (options fuel seq)

end Analysis

def createDefaults (seq : Sequence) : Sequence :=
  { seq with
    step := 1, cache := 20, hasmax := false, hasmin := false, cycles := false,
    hascache := true, ordered := true, startSpecified := false }

/-- Version 8: a start value that is altered is the restart value, too. -/
def startRestarts (seq : Sequence) : Sequence :=
  if seq.modifying ∧ seq.recursive = false ∧ seq.startSpecified ∧ seq.restartSpecified = false then
    { seq with restartval := seq.startval, restartSpecified := true }
  else seq

def badParams (seq : Sequence) : Bool :=
  (seq.hasmin ∧ seq.hasmax ∧ seq.maxval ≤ seq.minval) ∨
  (seq.startSpecified ∧ seq.hasmax ∧ seq.maxval < seq.startval) ∨
  (seq.startSpecified ∧ seq.hasmin ∧ seq.startval < seq.minval) ∨
  (seq.restartSpecified ∧ seq.hasmax ∧ seq.maxval < seq.restartval) ∨
  (seq.restartSpecified ∧ seq.hasmin ∧ seq.restartval < seq.minval)

def derivedMin (seq : Sequence) : Int :=
  let minval := if 0 < seq.step then 1 else -MAXBIGINT
  if seq.startSpecified ∧ seq.startval < minval then seq.startval else minval

def derivedMax (seq : Sequence) : Int :=
  let maxval := if 0 < seq.step then MAXBIGINT else -1
  if seq.startSpecified ∧ maxval < seq.startval then seq.startval else maxval

def derivedDefaults (seq : Sequence) : Sequence :=
  let seq := if seq.hasmin then seq else { seq with minval := derivedMin seq }
  let seq := if seq.hasmax then seq else { seq with maxval := derivedMax seq }
  let seq :=
    if seq.startSpecified then seq
    else { seq with startval := if 0 < seq.step then seq.minval else seq.maxval }
  if seq.hascache then seq else { seq with cache := 1 }

/-- The current symbol is SEQUENCE. -/
def sequenceName (seq : Sequence) : List Symbol → Option (Sequence × List Symbol)
  | _ :: .ident name :: .dot :: .ident name' :: rest =>
      some ({ seq with
        schema := if seq.recursive then seq.schema else name, name := name' }, rest)
  | _ :: .ident _ :: .dot :: _ => none
  | _ :: .ident name :: rest => some ({ seq with name := name }, rest)
  | _ => none

def verb (seq : Sequence) : List Symbol → Sequence × List Symbol
  | .keyword name :: rest =>
      if name = ascii "CREATE" then (seq, rest)
      else if name = ascii "ALTER" then ({ seq with modifying := true }, rest)
      else (seq, .keyword name :: rest)
  | symbols => (seq, symbols)

section Definitions

variable (analyseType : List Symbol → Option (Bool × List Symbol))

def sequenceOptions (seq : Sequence) (symbols : List Symbol) : Option Sequence :=
  let seq := { seq with anythingSpecified := false, restartSpecified := false }
  (options analyseType symbols.length seq symbols).bind fun seq =>
    let seq := startRestarts seq
    if badParams seq then none else some (derivedDefaults seq)

/-- The analysis of a definition that is not to be loaded first. -/
def defineSequence (seq : Sequence) (symbols : List Symbol) : Option Sequence :=
  let start := verb seq symbols
  (sequenceName start.1 start.2).bind fun (seq, rest) =>
    sequenceOptions analyseType (createDefaults seq) rest

/-- `load` finds the stored definition, its current value and its symbols. -/
def sequenceAnal (load : List UInt8 → List UInt8 → Option (Int × List Symbol))
    (seq : Sequence) (symbols : List Symbol) : Option Sequence :=
  let start := verb seq symbols
  (sequenceName start.1 start.2).bind fun (seq, rest) =>
    if seq.modifying ∧ seq.recursive = false then
      (load seq.name seq.schema).bind fun (currval, stored) =>
        (defineSequence analyseType { seq with recursive := true, currval } stored).bind fun seq =>
          sequenceOptions analyseType { seq with recursive := false } rest
    else sequenceOptions analyseType (createDefaults seq) rest

/-- The current value stands in the comment before the definition. -/
def storedCurrval : List UInt8 → Int
  | 123 :: defin =>
      let p := defin.dropWhile (· = 32)
      let minus : Bool := charAt p = 45
      let digits := (if minus then p.tail else p).takeWhile isDigit
      let val := digits.foldl (fun (val : Int) c => sig64 (10 * val + digitOf c)) 0
      if minus then sig64 (-val) else val
  | _ => 0

def compileSequence (cs : Charset) (defin : List UInt8) (seq : Sequence) : Option Sequence :=
  sequenceAnal analyseType (fun _ _ => none) { seq with currval := storedCurrval defin }
    (symbols cs defin)

end Definitions

/-! The text. -/

def newLine : List UInt8 := [13, 10]

/-- `putint64`, with the blank that it puts before the number. -/
def putInt64 (val : Int) : List UInt8 := 32 :: int64spec2str val 0

def putInt (val : Int) : List UInt8 := 32 :: intspec2str val 0

def valueComment (currval : Int) : List UInt8 :=
  let buf := int64spec2str currval 0
  123 :: (buf ++ List.replicate (30 - buf.length) 32) ++ 125 :: newLine

def optionTexts (seq : Sequence) : List (List UInt8) := [
  ascii "START WITH " ++ putInt64 seq.startval,
  ascii "INCREMENT BY " ++ putInt64 seq.step,
  if seq.hasmax then ascii "MAXVALUE " ++ putInt64 seq.maxval else ascii "NOMAXVALUE",
  if seq.hasmin then ascii "MINVALUE " ++ putInt64 seq.minval else ascii "NOMINVALUE",
  if seq.hascache then ascii "CACHE " ++ putInt seq.cache else ascii "NOCACHE",
  if seq.cycles then ascii "CYCLE" else ascii "NOCYCLE",
  if seq.ordered then ascii "ORDER" else ascii "NOORDER"]

def optionLines (seq : Sequence) : List UInt8 :=
  (optionTexts seq).flatMap (· ++ newLine)

def sequenceToSource (seq : Sequence) (altering : Bool) : List UInt8 :=
  valueComment seq.currval ++ ((if altering then ascii "ALTER" else ascii "CREATE") ++
    (ascii " SEQUENCE " ++ 96 :: (seq.name ++ 96 :: (newLine ++ optionLines seq))))

end Sql602.Sequences
