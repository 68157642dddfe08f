import Mathlib.Data.List.Basic

namespace Sql602.Fulltext

/-! The analyser of full-text queries. It builds a tree in which the negations are
pushed down to the words. -/

/-- The end of the list of symbols is `FTS_END`. -/
inductive Symbol where
  | word (text : List Char)
  | and
  | or
  | not
  | lpar
  | rpar
  | near
  | phrase
  | equal

/-- The treatment of words: the basic form with the flags of its case, the words that
are not indexed, and the dictionary, which has no number for a word that never
occurred. -/
structure Language where
  prepare : List Char → List Char × Nat
  simpleWord : List Char → Bool
  findWord : List Char → Option Nat

structure Word where
  wordid : Option Nat
  flags : Option Nat
  distance : Nat
  deriving DecidableEq

/-- `DEFAULT_NEAR_DISTANCE`. -/
def defaultNearDistance : Nat := 5

/-- A word stands for the phrase that it begins. -/
inductive Node where
  | word (negated : Bool) (first : Word) (next : List Word)
  | andor (isAnd : Bool) (left right : Node)
  deriving DecidableEq

section Anal

variable (language : Language)

def analWord (inphrase caseequal : Bool) (skipped : Nat) (text : List Char) : Option Word :=
  let (lword, flags) := language.prepare text
  if language.simpleWord lword then none
  else some
    { wordid := language.findWord lword
      flags := if caseequal then some flags else none
      distance := if inphrase then skipped + 1 else defaultNearDistance }

def skip (skipped : Nat) : Option Word → Nat
  | none => skipped + 1
  | some _ => 0

/-- The cycle on the words of a phrase. -/
def analWords (inphrase caseequal : Bool) : Nat → List Symbol → List Word × List Symbol
  | skipped, .word text :: .phrase :: rest =>
      let word := analWord language inphrase caseequal skipped text
      (word.toList, if inphrase then rest else .phrase :: rest)
  | skipped, .word text :: .near :: rest =>
      let word := analWord language inphrase caseequal skipped text
      let (words, rest) := analWords inphrase caseequal (skip skipped word) rest
      (word.toList ++ words, rest)
  | skipped, .word text :: rest =>
      let word := analWord language inphrase caseequal skipped text
      let (words, rest) := analWords inphrase caseequal (skip skipped word) rest
      (word.toList ++ words, rest)
  | _, symbols => ([], symbols)

def dropPhrase : List Symbol → Bool × List Symbol
  | .phrase :: rest => (true, rest)
  | symbols => (false, symbols)

def dropEqual : List Symbol → Bool × List Symbol
  | .equal :: rest => (true, rest)
  | symbols => (false, symbols)

/-- No error if it is forgotten. -/
def dropRpar : List Symbol → List Symbol
  | .rpar :: rest => rest
  | symbols => symbols

def analPhrase (symbols : List Symbol) : List Word × List Symbol :=
  let (inphrase, symbols) := dropPhrase symbols
  let (caseequal, symbols) := dropEqual symbols
  analWords language inphrase caseequal 0 symbols

def wordNode (negate : Bool) : List Word → Option Node
  | [] => none
  | first :: next => some (.word negate first next)

/-- An operand without words is left out. -/
def joinNodes (isAnd : Bool) : Option Node → Option Node → Option Node
  | first, none => first
  | none, some second => some second
  | some first, some second => some (.andor isAnd first second)

/-! There is no result when the fuel does not suffice. -/

mutual

def ftAnalTerm : Nat → Bool → List Symbol → Option (Option Node × List Symbol)
  | 0, _, _ => none
  | fuel + 1, negate, .not :: rest => ftAnalTerm fuel (!negate) rest
  | fuel + 1, negate, .lpar :: rest =>
      (ftAnalOr fuel negate rest).map fun (node, rest) => (node, dropRpar rest)
  | _ + 1, negate, symbols =>
      let (words, rest) := analPhrase language symbols
      some (wordNode negate words, rest)

def ftAnalAnd : Nat → Bool → List Symbol → Option (Option Node × List Symbol)
  | 0, _, _ => none
  | fuel + 1, negate, symbols =>
      (ftAnalTerm fuel negate symbols).bind fun (node, rest) => andLoop fuel negate node rest

def andLoop : Nat → Bool → Option Node → List Symbol → Option (Option Node × List Symbol)
  | 0, _, _, _ => none
  | fuel + 1, negate, node, .and :: rest =>
      (ftAnalTerm fuel negate rest).bind fun (second, rest) =>
        andLoop fuel negate (joinNodes (!negate) node second) rest
  | _ + 1, _, node, rest => some (node, rest)

def ftAnalOr : Nat → Bool → List Symbol → Option (Option Node × List Symbol)
  | 0, _, _ => none
  | fuel + 1, negate, symbols =>
      (ftAnalAnd fuel negate symbols).bind fun (node, rest) => orLoop fuel negate node rest

def orLoop : Nat → Bool → Option Node → List Symbol → Option (Option Node × List Symbol)
  | 0, _, _, _ => none
  | fuel + 1, negate, node, .or :: rest =>
      (ftAnalAnd fuel negate rest).bind fun (second, rest) =>
        orLoop fuel negate (joinNodes negate node second) rest
  | _ + 1, _, node, rest => some (node, rest)

end

/-- What follows the query is ignored. -/
def analyseFulltextExpression (symbols : List Symbol) : Option Node :=
  match ftAnalOr language (3 * symbols.length + 3) false symbols with
  | none => none
  | some (node, _) => node

end Anal

/-! What a query says. -/

inductive Query where
  | words (first : Word) (next : List Word)
  | not (query : Query)
  | and (left right : Query)
  | or (left right : Query)

namespace Query

def joinAnd : Option Query → Option Query → Option Query
  | first, none => first
  | none, some second => some second
  | some first, some second => some (.and first second)

def joinOr : Option Query → Option Query → Option Query
  | first, none => first
  | none, some second => some second
  | some first, some second => some (.or first second)

def ofWords : List Word → Option Query
  | [] => none
  | first :: next => some (.words first next)

section Read

variable (language : Language)

mutual

def readTerm : Nat → List Symbol → Option (Option Query × List Symbol)
  | 0, _ => none
  | fuel + 1, .not :: rest =>
      (readTerm fuel rest).map fun (query, rest) => (query.map .not, rest)
  | fuel + 1, .lpar :: rest =>
      (readOr fuel rest).map fun (query, rest) => (query, dropRpar rest)
  | _ + 1, symbols =>
      let (phrase, rest) := analPhrase language symbols
      some (ofWords phrase, rest)

def readAnd : Nat → List Symbol → Option (Option Query × List Symbol)
  | 0, _ => none
  | fuel + 1, symbols =>
      (readTerm fuel symbols).bind fun (query, rest) => readAnds fuel query rest

def readAnds : Nat → Option Query → List Symbol → Option (Option Query × List Symbol)
  | 0, _, _ => none
  | fuel + 1, query, .and :: rest =>
      (readTerm fuel rest).bind fun (second, rest) => readAnds fuel (joinAnd query second) rest
  | _ + 1, query, rest => some (query, rest)

def readOr : Nat → List Symbol → Option (Option Query × List Symbol)
  | 0, _ => none
  | fuel + 1, symbols =>
      (readAnd fuel symbols).bind fun (query, rest) => readOrs fuel query rest

def readOrs : Nat → Option Query → List Symbol → Option (Option Query × List Symbol)
  | 0, _, _ => none
  | fuel + 1, query, .or :: rest =>
      (readAnd fuel rest).bind fun (second, rest) => readOrs fuel (joinOr query second) rest
  | _ + 1, query, rest => some (query, rest)

end

def read (symbols : List Symbol) : Option Query :=
  match readOr language (3 * symbols.length + 3) symbols with
  | none => none
  | some (query, _) => query

end Read

/-- The tree of a query, or of its negation. -/
def push : Bool → Query → Node
  | negate, .words first next => .word negate first next
  | negate, .not query => query.push (!negate)
  | negate, .and left right => .andor (!negate) (left.push negate) (right.push negate)
  | negate, .or left right => .andor negate (left.push negate) (right.push negate)

end Query

end Sql602.Fulltext
