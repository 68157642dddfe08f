import Mathlib.Algebra.Group.Nat.Defs
import Mathlib.Algebra.GroupWithZero.Nat
import Mathlib.Data.List.Basic
import Sql602.Fulltext.Analyser

namespace Sql602.Fulltext

/-! The passing of the documents for a query. -/

/-- `NO_DOC_ID`. The numbers of documents are unsigned and less than it. -/
def noDocId : Nat := 2 ^ 64 - 1

/-- An occurrence of a word in the table of references. -/
structure Occurrence where
  docid : Nat
  position : Nat
  storedFlags : Nat

def Occurrence.Before (first second : Occurrence) : Prop :=
  first.docid < second.docid ∨ (first.docid = second.docid ∧ first.position ≤ second.position)

/-- The occurrences of every word come in the order of their index. -/
structure Kontext where
  weighted : Bool
  occurrences : Nat → List Occurrence
  ordered : ∀ wordid, (occurrences wordid).Pairwise Occurrence.Before
  docids : ∀ wordid, ∀ occ ∈ occurrences wordid, occ.docid < noDocId

/-- The weight is 0 when the demanded flags of the case are not stored. -/
def calcWeight (weighted : Bool) (flags : Option Nat) (storedFlags : Nat) : Nat :=
  let current := if weighted then
    1 + (if storedFlags / 4 % 2 = 1 then 10 else 0) + (if storedFlags / 8 % 2 = 1 then 100 else 0)
  else 1
  match flags with
  | none => current
  | some flags => if storedFlags % 4 = flags then current else 0

/-- A word with the occurrences that were not passed. The first of them is in
`curr_key`, and there is none when the documents are exhausted. -/
structure Cursor where
  weighted : Bool
  word : Word
  rest : List Occurrence

namespace Cursor

def weigh (cursor : Cursor) (occ : Occurrence) : Nat :=
  calcWeight cursor.weighted cursor.word.flags occ.storedFlags

def position (cursor : Cursor) : Nat :=
  match cursor.rest with
  | [] => 0
  | occ :: _ => occ.position

/-- The weight of the occurrence that the word stands on. -/
def currentWeight (cursor : Cursor) : Nat :=
  match cursor.rest with
  | [] => 0
  | occ :: _ => cursor.weigh occ

def docStep (docid : Nat) (cursor : Cursor) : Cursor × Nat :=
  let rest := cursor.rest.dropWhile fun occ => occ.docid < docid || cursor.weigh occ == 0
  ({ cursor with rest := rest }, match rest with
    | [] => noDocId
    | occ :: _ => occ.docid)

/-- The result is whether there is another occurrence in the same document. -/
def nextPos (cursor : Cursor) : Cursor × Bool :=
  match cursor.rest with
  | [] => (cursor, false)
  | occ :: rest =>
      let rest := rest.dropWhile fun next => next.docid == occ.docid && cursor.weigh next == 0
      ({ cursor with rest := rest }, match rest with
        | [] => false
        | next :: _ => next.docid == occ.docid)

end Cursor

def inphrase (pos1 pos2 distance : Nat) : Bool :=
  if distance = 0 then pos2 = pos1 + 1
  else if distance ≠ defaultNearDistance then
    if pos1 < pos2 then pos2 = pos1 + distance else pos1 = pos2 + distance
  else if pos1 < pos2 then pos2 ≤ pos1 + distance else pos1 ≤ pos2 + distance

/-! A word in the tree, with its current document. -/

structure Leaf where
  negated : Bool
  first : Cursor
  next : List Cursor
  currentDocid : Nat
  currentPosition : Nat
  currentWeight : Nat

/-- The weights of the occurrences in one document. -/
def sumWeights (weigh : Occurrence → Nat) (docid : Nat) : Nat → List Occurrence →
    Nat × List Occurrence
  | total, [] => (total, [])
  | total, occ :: rest =>
      if occ.docid = docid then sumWeights weigh docid (total + weigh occ) rest
      else (total, occ :: rest)

/-- The next document with the word: a single word adds the weights of its occurrences. -/
def Leaf.nextWord (leaf : Leaf) : Nat → List Occurrence → Leaf
  | 0, _ => leaf
  | _ + 1, [] => { leaf with currentDocid := noDocId, first := { leaf.first with rest := [] } }
  | fuel + 1, occ :: rest =>
      let (total, rest) := sumWeights leaf.first.weigh occ.docid (leaf.first.weigh occ) rest
      if total = 0 then leaf.nextWord fuel rest
      else
        { leaf with
          first := { leaf.first with rest := rest }
          currentDocid := occ.docid
          currentPosition := occ.position
          currentWeight := total }

section Phrase

def stepAll : Nat → List Cursor → List Cursor × Nat
  | docid, [] => ([], docid)
  | docid, cursor :: cursors =>
      let (cursor, docid) := cursor.docStep docid
      let (cursors, docid) := stepAll docid cursors
      (cursor :: cursors, docid)

/-- The common document of the words from a document on. -/
def commonDoc : Nat → Nat → Cursor → List Cursor → (Cursor × List Cursor) × Nat
  | 0, docid, first, next => ((first, next), docid)
  | fuel + 1, docid, first, next =>
      let (first, start) := first.docStep docid
      if start = noDocId then ((first, next), noDocId)
      else
        let (next, common) := stepAll start next
        if common = noDocId then ((first, next), noDocId)
        else if start = common then ((first, next), common)
        else commonDoc fuel common first next

/-- The first two words that are not in the phrase: the one that is behind moves. -/
def mend : List Cursor → Option (List Cursor × Bool)
  | word :: next :: rest =>
      if inphrase word.position next.position next.word.distance then
        (mend (next :: rest)).map fun (cursors, contin) => (word :: cursors, contin)
      else if word.position < next.position then
        let (word, contin) := word.nextPos
        some (word :: next :: rest, contin)
      else
        let (next, contin) := next.nextPos
        some (word :: next :: rest, contin)
  | _ => none

def moveAll : List Cursor → List Cursor × Bool
  | [] => ([], true)
  | cursor :: cursors =>
      let (cursor, contin) := cursor.nextPos
      if contin then
        let (cursors, contin) := moveAll cursors
        (cursor :: cursors, contin)
      else (cursor :: cursors, false)

/-- The cycle on the positions in the common document: the words, the weight of the
phrases that were found, and the position of the last one. -/
def scan : Nat → List Cursor → Nat → Nat → List Cursor × Nat × Nat
  | 0, cursors, total, position => (cursors, total, position)
  | fuel + 1, cursors, total, position =>
      match mend cursors with
      | some (cursors, contin) =>
          if contin then scan fuel cursors total position else (cursors, total, position)
      | none =>
          let total := total + (cursors.head?.map Cursor.currentWeight).getD 0
          let position := (cursors.head?.map Cursor.position).getD position
          let (cursors, contin) := moveAll cursors
          if contin then scan fuel cursors total position else (cursors, total, position)

def remaining (cursors : List Cursor) : Nat := (cursors.map fun cursor => cursor.rest.length).sum

def Leaf.placed (leaf : Leaf) : List Cursor → Leaf
  | [] => leaf
  | first :: next => { leaf with first := first, next := next }

/-- The next document with the phrase. -/
def Leaf.nextPhrase : Nat → Leaf → Leaf
  | 0, leaf => leaf
  | fuel + 1, leaf =>
      let ((first, next), common) :=
        commonDoc (remaining (leaf.first :: leaf.next) + 1) 0 leaf.first leaf.next
      if common = noDocId then { leaf with first := first, next := next, currentDocid := noDocId }
      else
        let (cursors, total, position) :=
          scan (remaining (first :: next) + 1) (first :: next) 0 leaf.currentPosition
        let leaf := { leaf.placed cursors with currentPosition := position }
        if total = 0 then leaf.nextPhrase fuel
        else { leaf with currentDocid := common, currentWeight := total }

end Phrase

namespace Leaf

/-- It works only from the current document or in the initial call. -/
def nextDoc (minDocid : Nat) (leaf : Leaf) : Leaf :=
  if minDocid ≠ leaf.currentDocid ∧ minDocid ≠ noDocId then leaf
  else if leaf.currentDocid = noDocId then leaf
  else if leaf.next.isEmpty then leaf.nextWord (leaf.first.rest.length + 1) leaf.first.rest
  else leaf.nextPhrase (remaining (leaf.first :: leaf.next) + 1)

/-- The document, the position and the weight. -/
def satisfied (leaf : Leaf) : Nat × Nat × Nat :=
  (leaf.currentDocid, leaf.currentPosition,
    if leaf.currentDocid = noDocId then if leaf.negated then 1 else 0
    else if leaf.negated then 0 else leaf.currentWeight)

end Leaf

/-- The tree when its documents are passed. -/
inductive Passing where
  | word (leaf : Leaf)
  | andor (isAnd : Bool) (left right : Passing)

namespace Passing

def isNegword : Passing → Bool
  | word leaf => leaf.negated
  | andor _ _ _ => false

def satisfied : Passing → Nat × Nat × Nat
  | word leaf => leaf.satisfied
  | andor true left right =>
      let (docid1, pos1, sat1) := left.satisfied
      let (docid2, pos2, sat2) := right.satisfied
      if docid1 = docid2 then (docid1, min pos1 pos2, min sat1 sat2)
      else if left.isNegword ∧ docid2 < docid1 then (min docid1 docid2, pos2, sat2)
      else if right.isNegword ∧ docid1 < docid2 then (min docid1 docid2, pos1, sat1)
      else (min docid1 docid2, 0, 0)
  | andor false left right =>
      let (docid1, pos1, sat1) := left.satisfied
      let (docid2, pos2, sat2) := right.satisfied
      if docid1 = docid2 then (docid1, pos1, max sat1 sat2)
      else if docid1 < docid2 then (docid1, pos1, sat1)
      else (docid2, pos2, sat2)

def nextDoc (minDocid : Nat) : Passing → Passing
  | word leaf => word (leaf.nextDoc minDocid)
  | andor isAnd left right => andor isAnd (left.nextDoc minDocid) (right.nextDoc minDocid)

/-- The documents that are reported, when the passing ends. -/
def docs : Nat → Passing → Option (List Nat)
  | 0, _ => none
  | fuel + 1, passing =>
      let (minDocid, _, found) := passing.satisfied
      if minDocid = noDocId then some []
      else
        (docs fuel (passing.nextDoc minDocid)).map fun rest =>
          if 0 < found then minDocid :: rest else rest

end Passing

section Open

variable (kontext : Kontext)

def openCursor (word : Word) : Cursor where
  weighted := kontext.weighted
  word := word
  rest := match word.wordid with
    | none => []
    | some wordid => kontext.occurrences wordid

def Node.openIndex : Node → Passing
  | word negated first next =>
      .word
        { negated := negated
          first := openCursor kontext first
          next := next.map (openCursor kontext)
          currentDocid := 0
          currentPosition := 0
          currentWeight := 0 }
  | andor isAnd left right => .andor isAnd left.openIndex right.openIndex

/-- The passing that is started by `next_doc(NO_DOC_ID)` ends with these documents. -/
def Reports (node : Node) (found : List Nat) : Prop :=
  ∃ fuel, ((node.openIndex kontext).nextDoc noDocId).docs fuel = some found

end Open

end Sql602.Fulltext
