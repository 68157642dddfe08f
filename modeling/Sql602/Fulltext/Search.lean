import Mathlib.Order.MinMax
import Sql602.Fulltext.Documents
import Sql602.Fulltext.Queries

namespace Sql602.Fulltext

/-! The documents that are reported for a query. -/

section Meaning

variable (kontext : Kontext)

/-- There are occurrences of the words whose consecutive positions are in the phrase. -/
def Occurs (words : List Word) (doc : Nat) : Prop := Matched doc (words.map (openCursor kontext))

def Query.Holds (query : Query) (doc : Nat) : Prop :=
  query.Eval fun words => Occurs kontext words doc

namespace Node

def Holds (node : Node) (doc : Nat) : Prop := node.Eval fun words => Occurs kontext words doc

def isNegword : Node → Bool
  | word negated _ _ => negated
  | andor _ _ _ => false

/-- Some of the words and phrases occur, negated or not. -/
def Present (doc : Nat) : Node → Prop
  | word _ first next => Occurs kontext (first :: next) doc
  | andor _ left right => left.Present doc ∨ right.Present doc

/-- A document in which an expression is true is lost when an operand of an AND is true
although none of its words occurs, except for a single negated word or phrase, and when
an OR is true only through operands of which no word occurs. -/
def Lost (doc : Nat) : Node → Prop
  | word _ _ _ => False
  | andor true left right =>
      left.Holds kontext doc ∧ right.Holds kontext doc ∧
        ((left.Present kontext doc ∧ left.Lost doc) ∨
          (right.Present kontext doc ∧ right.Lost doc) ∨
          (¬ left.Present kontext doc ∧ left.isNegword = false) ∨
          (¬ right.Present kontext doc ∧ right.isNegword = false))
  | andor false left right =>
      (left.Holds kontext doc ∨ right.Holds kontext doc) ∧
        (left.Holds kontext doc → left.Present kontext doc → left.Lost doc) ∧
        (right.Holds kontext doc → right.Present kontext doc → right.Lost doc)

/-- The phrases are found by moving always the word that is behind. -/
def Clean : Node → Prop
  | word _ first next => AlwaysClean ((first :: next).map (openCursor kontext))
  | andor _ left right => left.Clean ∧ right.Clean

end Node

end Meaning

variable {kontext : Kontext} {doc low : Nat} {node : Node}

theorem openCursor_valid (word : Word) : (openCursor kontext word).Valid := by
  cases hword : word.wordid with
  | none =>
      refine ⟨?_, ?_⟩
      · simp only [openCursor, hword]
        exact .nil
      · simp only [openCursor, hword]
        exact fun occ hmem => absurd hmem List.not_mem_nil
  | some wordid =>
      refine ⟨?_, ?_⟩
      · simp only [openCursor, hword]
        exact kontext.ordered wordid
      · simp only [openCursor, hword]
        exact kontext.docids wordid

theorem opened_valid (words : List Word) :
    ∀ cursor ∈ words.map (openCursor kontext), cursor.Valid := by
  intro cursor hmem
  obtain ⟨word, _, rfl⟩ := List.mem_map.mp hmem
  exact openCursor_valid word

/-! Every leaf stands on its first document from some document on. -/

structure Follows.Leaf (kontext : Kontext) (low : Nat) (leaf : Fulltext.Leaf) (negated : Bool)
    (words : List Word) : Prop where
  negated : leaf.negated = negated
  le : leaf.currentDocid ≤ noDocId
  skips : ∀ doc, low ≤ doc → doc < leaf.currentDocid → ¬ Occurs kontext words doc
  here : leaf.currentDocid ≠ noDocId →
    low ≤ leaf.currentDocid ∧ Occurs kontext words leaf.currentDocid ∧ 0 < leaf.currentWeight
  rest : leaf.currentDocid ≠ noDocId →
    AllAdvance (leaf.currentDocid + 1) (words.map (openCursor kontext)) leaf.chain ∧
      ∀ before ≤ leaf.currentDocid, ¬ Full before leaf.chain

inductive Follows (kontext : Kontext) (low : Nat) : Passing → Node → Prop
  | word {leaf : Leaf} {negated : Bool} {first : Word} {next : List Word}
      (hleaf : Follows.Leaf kontext low leaf negated (first :: next)) :
      Follows kontext low (.word leaf) (.word negated first next)
  | andor {isAnd : Bool} {left right : Passing} {left' right' : Node}
      (hleft : Follows kontext low left left') (hright : Follows kontext low right right') :
      Follows kontext low (.andor isAnd left right) (.andor isAnd left' right')

theorem nextDoc_step {leaf : Leaf} {minDocid : Nat}
    (hcall : minDocid = leaf.currentDocid ∨ minDocid = noDocId)
    (hsome : leaf.currentDocid ≠ noDocId) (hvalid : ∀ cursor ∈ leaf.chain, cursor.Valid)
    (hclean : AlwaysClean leaf.chain) : leaf.Step (leaf.nextDoc minDocid) := by
  rw [Leaf.nextDoc, if_neg (by omega), if_neg hsome]
  split
  case isTrue hsingle =>
    exact Leaf.nextWord_step (Nat.lt_succ_self _) (List.isEmpty_iff.mp hsingle)
      (hvalid leaf.first List.mem_cons_self)
  case isFalse => exact Leaf.nextPhrase_step (Nat.lt_succ_self _) hvalid hclean

theorem Follows.Leaf.next {leaf : Fulltext.Leaf} {negated : Bool} {words : List Word} {minDocid : Nat}
    (hleaf : Follows.Leaf kontext low leaf negated words)
    (hclean : AlwaysClean (words.map (openCursor kontext))) (hlow : low ≤ minDocid)
    (hmin : minDocid ≤ leaf.currentDocid) (hsome : minDocid ≠ noDocId) :
    Follows.Leaf kontext (minDocid + 1) (leaf.nextDoc minDocid) negated words := by
  by_cases hcall : minDocid = leaf.currentDocid
  · subst hcall
    obtain ⟨hadv, hspent⟩ := hleaf.rest hsome
    have hstep := nextDoc_step (Or.inl rfl) hsome (hadv.valid (opened_valid words))
      (hclean.advance hadv fun before hlt => hspent before (Nat.le_of_lt_succ hlt))
    have hlater : (leaf.nextDoc leaf.currentDocid).currentDocid ≠ noDocId →
        leaf.currentDocid < (leaf.nextDoc leaf.currentDocid).currentDocid := by
      intro hmore
      by_contra hnot
      exact hspent _ (Nat.le_of_not_lt hnot) (hstep.here hmore).1.full
    refine ⟨hstep.negated.trans hleaf.negated, hstep.le, ?_, ?_, ?_⟩
    · intro doc hfrom hlt hoccurs
      exact hstep.skips doc hlt ((hadv.matched_doc hfrom).mpr hoccurs)
    · intro hmore
      obtain ⟨hmatched, hweight⟩ := hstep.here hmore
      exact ⟨hlater hmore, (hadv.matched_doc (hlater hmore)).mp hmatched, hweight⟩
    · intro hmore
      have hle := Nat.succ_le_succ (Nat.le_of_lt (hlater hmore))
      exact ⟨AllAdvance.trans (hadv.mono hle) hstep.advance, hstep.spent hmore⟩
  · have hsame : leaf.nextDoc minDocid = leaf := if_pos ⟨hcall, hsome⟩
    rw [hsame]
    refine ⟨hleaf.negated, hleaf.le, fun doc hfrom => hleaf.skips doc (by omega), ?_, hleaf.rest⟩
    intro hmore
    obtain ⟨_, hoccurs, hweight⟩ := hleaf.here hmore
    exact ⟨by omega, hoccurs, hweight⟩

theorem Follows.isNegword {passing : Passing} (hfollows : Follows kontext low passing node) :
    passing.isNegword = node.isNegword := by
  cases hfollows with
  | word hleaf => exact hleaf.negated
  | andor => rfl

theorem holds_absent_negword (hneg : node.isNegword = true) (habsent : ¬ node.Present kontext doc) :
    node.Holds kontext doc := by
  cases node with
  | word negated first next =>
      cases hneg
      exact habsent
  | andor => cases hneg

/-- What `satisfied` says of the smallest document of the leaves. -/
structure Satisfied (kontext : Kontext) (low : Nat) (node : Node) (docid sat : Nat) : Prop where
  le : docid ≤ noDocId
  skips : ∀ doc, low ≤ doc → doc < docid → ¬ node.Present kontext doc
  here : docid ≠ noDocId → low ≤ docid ∧ node.Present kontext docid ∧
    (0 < sat ↔ node.Holds kontext docid ∧ ¬ node.Lost kontext docid)

section Connectives

variable {left right : Node} {docid docid1 docid2 sat sat1 sat2 : Nat} {isAnd : Bool}

theorem Satisfied.both (hleft : Satisfied kontext low left docid sat1)
    (hright : Satisfied kontext low right docid sat2)
    (hsat : docid ≠ noDocId → (0 < sat ↔ (Node.andor isAnd left right).Holds kontext docid ∧
      ¬ (Node.andor isAnd left right).Lost kontext docid)) :
    Satisfied kontext low (.andor isAnd left right) docid sat where
  le := hleft.le
  skips := fun doc hfrom hlt hpresent =>
    hpresent.elim (hleft.skips doc hfrom hlt) (hright.skips doc hfrom hlt)
  here := fun hsome => ⟨(hleft.here hsome).1, Or.inl (hleft.here hsome).2.1, hsat hsome⟩

theorem Satisfied.onlyLeft (hleft : Satisfied kontext low left docid1 sat1)
    (hright : Satisfied kontext low right docid2 sat2) (hlt : docid1 < docid2)
    (hsat : ¬ right.Present kontext docid1 →
      (0 < sat ↔ (Node.andor isAnd left right).Holds kontext docid1 ∧
        ¬ (Node.andor isAnd left right).Lost kontext docid1)) :
    Satisfied kontext low (.andor isAnd left right) docid1 sat := by
  have hsome : docid1 ≠ noDocId := Nat.ne_of_lt (Nat.lt_of_lt_of_le hlt hright.le)
  obtain ⟨hlow, hpresent, _⟩ := hleft.here hsome
  refine ⟨hleft.le, fun doc hfrom hdoc hthis => ?_, fun _ => ?_⟩
  · exact hthis.elim (hleft.skips doc hfrom hdoc)
      (hright.skips doc hfrom (Nat.lt_trans hdoc hlt))
  · exact ⟨hlow, Or.inl hpresent, hsat (hright.skips docid1 hlow hlt)⟩

theorem Satisfied.onlyRight (hleft : Satisfied kontext low left docid1 sat1)
    (hright : Satisfied kontext low right docid2 sat2) (hlt : docid2 < docid1)
    (hsat : ¬ left.Present kontext docid2 →
      (0 < sat ↔ (Node.andor isAnd left right).Holds kontext docid2 ∧
        ¬ (Node.andor isAnd left right).Lost kontext docid2)) :
    Satisfied kontext low (.andor isAnd left right) docid2 sat := by
  have hsome : docid2 ≠ noDocId := Nat.ne_of_lt (Nat.lt_of_lt_of_le hlt hleft.le)
  obtain ⟨hlow, hpresent, _⟩ := hright.here hsome
  refine ⟨hright.le, fun doc hfrom hdoc hthis => ?_, fun _ => ?_⟩
  · exact hthis.elim (hleft.skips doc hfrom (Nat.lt_trans hdoc hlt))
      (hright.skips doc hfrom hdoc)
  · exact ⟨hlow, Or.inr hpresent, hsat (hleft.skips docid2 hlow hlt)⟩

variable {leftNegword rightNegword : Bool}

theorem Satisfied.and (hleft : Satisfied kontext low left docid1 sat1)
    (hright : Satisfied kontext low right docid2 sat2) (hnegl : leftNegword = left.isNegword)
    (hnegr : rightNegword = right.isNegword) (pos1 pos2 : Nat) :
    ∀ result : Nat × Nat × Nat, result =
      (if docid1 = docid2 then (docid1, min pos1 pos2, min sat1 sat2)
      else if leftNegword ∧ docid2 < docid1 then (min docid1 docid2, pos2, sat2)
      else if rightNegword ∧ docid1 < docid2 then (min docid1 docid2, pos1, sat1)
      else (min docid1 docid2, 0, 0)) →
    Satisfied kontext low (.andor true left right) result.1 result.2.2 := by
  rintro result rfl
  split
  case isTrue hsame =>
    subst hsame
    refine hleft.both hright fun hsome => ?_
    obtain ⟨_, hpresent, hsat⟩ := hleft.here hsome
    obtain ⟨_, hpresent', hsat'⟩ := hright.here hsome
    simp only [Nat.lt_min, hsat, hsat', Node.Lost, hpresent, hpresent', Node.Holds, Node.Eval]
    grind
  case isFalse hdiff =>
    split
    case isTrue hneg =>
      obtain ⟨hneg, hlt⟩ := hneg
      rw [Nat.min_eq_right (Nat.le_of_lt hlt)]
      refine hleft.onlyRight hright hlt fun habsent => ?_
      dsimp only at habsent
      have hsome : docid2 ≠ noDocId := Nat.ne_of_lt (Nat.lt_of_lt_of_le hlt hleft.le)
      obtain ⟨_, hpresent, hsat⟩ := hright.here hsome
      rw [hnegl] at hneg
      have hholds := holds_absent_negword hneg habsent
      rw [Node.Holds] at hholds
      simp only [hsat, Node.Lost, hpresent, habsent, hneg, hholds, Node.Holds, Node.Eval]
      grind
    case isFalse hnotl =>
      split
      case isTrue hneg =>
        obtain ⟨hneg, hlt⟩ := hneg
        rw [Nat.min_eq_left (Nat.le_of_lt hlt)]
        refine hleft.onlyLeft hright hlt fun habsent => ?_
        have hsome : docid1 ≠ noDocId := Nat.ne_of_lt (Nat.lt_of_lt_of_le hlt hright.le)
        obtain ⟨_, hpresent, hsat⟩ := hleft.here hsome
        rw [hnegr] at hneg
        have hholds := holds_absent_negword hneg habsent
        rw [Node.Holds] at hholds
        simp only [hsat, Node.Lost, hpresent, habsent, hneg, hholds, Node.Holds, Node.Eval]
        grind
      case isFalse hnotr =>
        rcases Nat.lt_or_gt_of_ne hdiff with hlt | hlt
        · rw [Nat.min_eq_left (Nat.le_of_lt hlt)]
          refine hleft.onlyLeft hright hlt fun habsent => ?_
          have hneg : right.isNegword = false := by
            rw [← hnegr]
            exact Bool.eq_false_iff.mpr fun hneg => hnotr ⟨hneg, hlt⟩
          simp only [Node.Lost, habsent, hneg, Node.Holds, Node.Eval]
          simp
        · rw [Nat.min_eq_right (Nat.le_of_lt hlt)]
          refine hleft.onlyRight hright hlt fun habsent => ?_
          dsimp only at habsent
          have hneg : left.isNegword = false := by
            rw [← hnegl]
            exact Bool.eq_false_iff.mpr fun hneg => hnotl ⟨hneg, hlt⟩
          simp only [Node.Lost, habsent, hneg, Node.Holds, Node.Eval]
          simp

theorem Satisfied.or (hleft : Satisfied kontext low left docid1 sat1)
    (hright : Satisfied kontext low right docid2 sat2) (pos1 pos2 : Nat) :
    ∀ result : Nat × Nat × Nat, result =
      (if docid1 = docid2 then (docid1, pos1, max sat1 sat2)
      else if docid1 < docid2 then (docid1, pos1, sat1)
      else (docid2, pos2, sat2)) →
    Satisfied kontext low (.andor false left right) result.1 result.2.2 := by
  rintro result rfl
  split
  case isTrue hsame =>
    subst hsame
    refine hleft.both hright fun hsome => ?_
    obtain ⟨_, hpresent, hsat⟩ := hleft.here hsome
    obtain ⟨_, hpresent', hsat'⟩ := hright.here hsome
    simp only [lt_max_iff, hsat, hsat', Node.Lost, hpresent, hpresent', Node.Holds, Node.Eval]
    grind
  case isFalse hdiff =>
    split
    case isTrue hlt =>
      refine hleft.onlyLeft hright hlt fun habsent => ?_
      have hsome : docid1 ≠ noDocId := Nat.ne_of_lt (Nat.lt_of_lt_of_le hlt hright.le)
      obtain ⟨_, hpresent, hsat⟩ := hleft.here hsome
      simp only [hsat, Node.Lost, hpresent, habsent, Node.Holds, Node.Eval]
      grind
    case isFalse hnot =>
      have hlt : docid2 < docid1 := by omega
      refine hleft.onlyRight hright hlt fun habsent => ?_
      dsimp only at habsent
      have hsome : docid2 ≠ noDocId := Nat.ne_of_lt (Nat.lt_of_lt_of_le hlt hleft.le)
      obtain ⟨_, hpresent, hsat⟩ := hright.here hsome
      simp only [hsat, Node.Lost, hpresent, habsent, Node.Holds, Node.Eval]
      grind

end Connectives

theorem Follows.satisfied {passing : Passing} (hfollows : Follows kontext low passing node) :
    Satisfied kontext low node passing.satisfied.1 passing.satisfied.2.2 := by
  induction hfollows with
  | @word leaf negated first next hleaf =>
      refine ⟨hleaf.le, hleaf.skips, fun hsome => ?_⟩
      obtain ⟨hlow, hoccurs, hweight⟩ := hleaf.here hsome
      refine ⟨hlow, hoccurs, ?_⟩
      have hsome : leaf.currentDocid ≠ noDocId := hsome
      simp only [Passing.satisfied, Leaf.satisfied, if_neg hsome, hleaf.negated]
      cases negated with
      | false => simpa [Node.Holds, Node.Eval, Node.Lost, hweight] using hoccurs
      | true => simpa [Node.Holds, Node.Eval, Node.Lost] using hoccurs
  | @andor isAnd left right left' right' hleft hright ihl ihr =>
      have hnegl := hleft.isNegword
      have hnegr := hright.isNegword
      cases isAnd with
      | true => exact ihl.and ihr hnegl hnegr _ _ _ rfl
      | false => exact ihl.or ihr _ _ _ rfl

theorem Follows.next {passing : Passing} {minDocid : Nat} (hfollows : Follows kontext low passing node)
    (hclean : node.Clean kontext) (hlow : low ≤ minDocid)
    (hmin : ∀ doc, low ≤ doc → doc < minDocid → ¬ node.Present kontext doc)
    (hsome : minDocid < noDocId) :
    Follows kontext (minDocid + 1) (passing.nextDoc minDocid) node := by
  induction hfollows with
  | @word leaf negated first next hleaf =>
      refine .word (hleaf.next hclean hlow ?_ (Nat.ne_of_lt hsome))
      by_contra hnot
      have hlt := Nat.lt_of_not_le hnot
      obtain ⟨hfrom, hoccurs, _⟩ := hleaf.here (Nat.ne_of_lt (Nat.lt_trans hlt hsome))
      exact hmin _ hfrom hlt hoccurs
  | andor hleft hright ihl ihr =>
      exact .andor
        (ihl hclean.1 fun doc hfrom hlt hpresent => hmin doc hfrom hlt (Or.inl hpresent))
        (ihr hclean.2 fun doc hfrom hlt hpresent => hmin doc hfrom hlt (Or.inr hpresent))

theorem follows_open (node : Node) (hclean : node.Clean kontext) :
    Follows kontext 0 ((node.openIndex kontext).nextDoc noDocId) node := by
  induction node with
  | word negated first next =>
      have hstep := @nextDoc_step
        ⟨negated, openCursor kontext first, next.map (openCursor kontext), 0, 0, 0⟩ noDocId
        (Or.inr rfl) (show 0 ≠ noDocId by decide) (opened_valid (first :: next)) hclean
      refine .word ⟨hstep.negated, hstep.le, fun doc _ hlt => hstep.skips doc hlt, ?_, ?_⟩
      · exact fun hsome => ⟨Nat.zero_le _, hstep.here hsome⟩
      · exact fun hsome => ⟨hstep.advance, hstep.spent hsome⟩
  | andor isAnd left right ihl ihr => exact .andor (ihl hclean.1) (ihr hclean.2)

/-! The whole passing. -/

/-- The documents from some document on that are found. -/
structure Found (kontext : Kontext) (node : Node) (low : Nat) (found : List Nat) : Prop where
  ascending : found.Pairwise (· < ·)
  from_low : ∀ doc ∈ found, low ≤ doc
  mem : ∀ doc, low ≤ doc → doc < noDocId → (doc ∈ found ↔
    node.Present kontext doc ∧ node.Holds kontext doc ∧ ¬ node.Lost kontext doc)
  lt : ∀ doc ∈ found, doc < noDocId

theorem Found.step {docid sat : Nat} {found : List Nat} (hfound : Found kontext node (docid + 1) found)
    (hlow : low ≤ docid) (hlt : docid < noDocId) (hpresent : node.Present kontext docid)
    (hskips : ∀ doc, low ≤ doc → doc < docid → ¬ node.Present kontext doc)
    (hsat : 0 < sat ↔ node.Holds kontext docid ∧ ¬ node.Lost kontext docid) :
    Found kontext node low (if 0 < sat then docid :: found else found) := by
  have hlater : ∀ doc ∈ found, docid < doc := hfound.from_low
  have hmem : ∀ doc, low ≤ doc → doc < noDocId → doc ≠ docid → (doc ∈ found ↔
      node.Present kontext doc ∧ node.Holds kontext doc ∧ ¬ node.Lost kontext doc) := by
    intro doc hfrom hdoc hne
    rcases Nat.lt_or_gt_of_ne hne with hbefore | hbehind
    · have habsent := hskips doc hfrom hbefore
      refine ⟨fun hin => ?_, fun hthis => absurd hthis.1 habsent⟩
      exact absurd (hlater doc hin) (Nat.lt_asymm hbefore)
    · exact hfound.mem doc hbehind hdoc
  split
  case isTrue hpos =>
    refine ⟨List.pairwise_cons.mpr ⟨hlater, hfound.ascending⟩, ?_, ?_, ?_⟩
    · exact List.forall_mem_cons.mpr ⟨hlow, fun doc hin => Nat.le_of_lt
        (Nat.lt_of_le_of_lt hlow (hlater doc hin))⟩
    · intro doc hfrom hdoc
      by_cases hsame : doc = docid
      · subst hsame
        exact ⟨fun _ => ⟨hpresent, hsat.mp hpos⟩, fun _ => List.mem_cons_self⟩
      · rw [List.mem_cons, ← hmem doc hfrom hdoc hsame]
        simp [hsame]
    · exact List.forall_mem_cons.mpr ⟨hlt, hfound.lt⟩
  case isFalse hzero =>
    refine ⟨hfound.ascending, fun doc hin => Nat.le_of_lt
      (Nat.lt_of_le_of_lt hlow (hlater doc hin)), ?_, hfound.lt⟩
    intro doc hfrom hdoc
    by_cases hsame : doc = docid
    · subst hsame
      refine ⟨fun hin => absurd (hlater doc hin) (Nat.lt_irrefl _), fun hthis => ?_⟩
      exact absurd (hsat.mpr hthis.2) hzero
    · exact hmem doc hfrom hdoc hsame

theorem docs_found (hclean : node.Clean kontext) (count : Nat) :
    ∀ {low : Nat} {passing : Passing}, noDocId - low ≤ count → Follows kontext low passing node →
      ∃ fuel found, passing.docs fuel = some found ∧ Found kontext node low found := by
  induction count with
  | zero =>
      intro low passing hcount hfollows
      have hsatisfied := hfollows.satisfied
      have hend : passing.satisfied.1 = noDocId := by
        by_contra hsome
        have hlow := (hsatisfied.here hsome).1
        have hle := hsatisfied.le
        omega
      refine ⟨1, [], ?_, .nil, by simp, fun doc hfrom hlt => by omega, by simp⟩
      simp only [Passing.docs, hend, if_true]
  | succ count ih =>
      intro low passing hcount hfollows
      have hsatisfied := hfollows.satisfied
      by_cases hend : passing.satisfied.1 = noDocId
      · refine ⟨1, [], ?_, .nil, by simp, fun doc hfrom hlt => ?_, by simp⟩
        · simp only [Passing.docs, hend, if_true]
        · have habsent := hsatisfied.skips doc hfrom (by rw [hend]; exact hlt)
          simp [habsent]
      · obtain ⟨hlow, hpresent, hsat⟩ := hsatisfied.here hend
        have hlt : passing.satisfied.1 < noDocId := Nat.lt_of_le_of_ne hsatisfied.le hend
        obtain ⟨fuel, found, hdocs, hfound⟩ := @ih (passing.satisfied.1 + 1)
          (passing.nextDoc passing.satisfied.1) (by omega)
          (hfollows.next hclean hlow hsatisfied.skips hlt)
        refine ⟨fuel + 1, if 0 < passing.satisfied.2.2 then passing.satisfied.1 :: found else found,
          ?_, ?_⟩
        · simp only [Passing.docs, if_neg hend, hdocs, Option.map_some]
        · exact hfound.step hlow hlt hpresent hsatisfied.skips hsat

theorem docs_succ {fuel : Nat} {passing : Passing} {found : List Nat}
    (hdocs : passing.docs fuel = some found) : passing.docs (fuel + 1) = some found := by
  induction fuel generalizing passing found with
  | zero => cases hdocs
  | succ fuel ih =>
      rw [Passing.docs] at hdocs ⊢
      dsimp only at hdocs ⊢
      split at hdocs
      case isTrue hend => rw [if_pos hend, hdocs]
      case isFalse hmore =>
        obtain ⟨rest, hrest, heq⟩ := Option.map_eq_some_iff.mp hdocs
        rw [if_neg hmore, ih hrest, Option.map_some, heq]

theorem docs_le {fuel fuel' : Nat} {passing : Passing} {found : List Nat} (hle : fuel ≤ fuel')
    (hdocs : passing.docs fuel = some found) : passing.docs fuel' = some found := by
  induction hle with
  | refl => exact hdocs
  | step _ ih => exact docs_succ ih

theorem reports_unique {found found' : List Nat} (hfound : Reports kontext node found)
    (hfound' : Reports kontext node found') : found = found' := by
  obtain ⟨fuel, hdocs⟩ := hfound
  obtain ⟨fuel', hdocs'⟩ := hfound'
  have hmax := docs_le (Nat.le_max_left fuel fuel') hdocs
  rw [docs_le (Nat.le_max_right fuel fuel') hdocs'] at hmax
  exact (Option.some.inj hmax).symm

theorem Occurs.lt {words : List Word} (hoccurs : Occurs kontext words doc) (hne : words ≠ []) :
    doc < noDocId := by
  cases words with
  | nil => exact absurd rfl hne
  | cons word words =>
      obtain ⟨p, occ, hmem, rfl, _⟩ := hoccurs.full (openCursor kontext word) List.mem_cons_self
      exact (openCursor_valid word).docids occ hmem

theorem Node.Present.lt (hpresent : node.Present kontext doc) : doc < noDocId := by
  induction node with
  | word negated first next => exact Occurs.lt hpresent (List.cons_ne_nil first next)
  | andor isAnd left right ihl ihr => exact hpresent.elim ihl ihr

/-- Without any of its words a tree has the value that it has in an empty document. -/
theorem holds_absent (habsent : ¬ node.Present kontext doc) :
    node.Holds kontext doc ↔ node.Eval fun _ => False := by
  induction node with
  | word negated first next =>
      cases negated with
      | true => exact not_congr (iff_false_intro habsent)
      | false => exact iff_false_intro habsent
  | andor isAnd left right ihl ihr =>
      rw [Node.Present, not_or] at habsent
      cases isAnd with
      | true => exact and_congr (ihl habsent.1) (ihr habsent.2)
      | false => exact or_congr (ihl habsent.1) (ihr habsent.2)

theorem Node.Lost.holds (hlost : node.Lost kontext doc) : node.Holds kontext doc := by
  cases node with
  | word => exact hlost.elim
  | andor isAnd left right =>
      cases isAnd with
      | true => exact ⟨hlost.1, hlost.2.1⟩
      | false => exact hlost.1

/-- The reported documents are in ascending order, and the query is true in these only. -/
structure Right (kontext : Kontext) (query : Query) (found : List Nat) : Prop where
  ascending : found.Pairwise (· < ·)
  mem : ∀ doc, doc ∈ found ↔ query.Holds kontext doc

theorem inphrase_near {pos1 pos2 : Nat} : inphrase pos1 pos2 defaultNearDistance = true ↔
    pos2 ≤ pos1 + defaultNearDistance ∧ pos1 ≤ pos2 + defaultNearDistance := by
  have hdistance : defaultNearDistance = 5 := rfl
  rw [inphrase, if_neg (by decide), if_neg (fun hne => hne rfl), hdistance]
  split
  · rw [decide_eq_true_eq]
    omega
  · rw [decide_eq_true_eq]
    omega

theorem clean_near {cursors : List Cursor} {positions : List Nat}
    (hnear : ∀ cursor ∈ cursors, cursor.word.distance = defaultNearDistance)
    (hlinked : Linked cursors positions) : Clean doc cursors positions := by
  induction cursors generalizing positions with
  | nil => trivial
  | cons word cursors ih =>
      cases cursors with
      | nil => cases positions <;> trivial
      | cons next rest =>
          rcases positions with _ | ⟨p, _ | ⟨q, positions⟩⟩
          · trivial
          · trivial
          · have hrest := (List.forall_mem_cons.mp hnear).2
            have hdistance := (List.forall_mem_cons.mp hrest).1
            have hfirst := hlinked.1
            rw [hdistance, inphrase_near] at hfirst
            refine ⟨fun y _ hlt hgt => ?_, fun x _ hle hlt => ?_, ih hrest hlinked.2⟩
            · rw [hdistance, inphrase_near]
              omega
            · rw [hdistance, inphrase_near]
              omega

theorem alwaysClean_near {words : List Word}
    (hnear : ∀ word ∈ words, word.distance = defaultNearDistance) :
    AlwaysClean (words.map (openCursor kontext)) := by
  rintro doc ⟨positions, hmatch⟩
  refine ⟨positions, hmatch, clean_near (fun cursor hmem => ?_) hmatch.linked⟩
  obtain ⟨word, hword, rfl⟩ := List.mem_map.mp hmem
  exact hnear word hword

/-! Small queries. -/

/-- The words are numbered by their first letter. -/
def letters : Language where
  prepare := fun text => (text, 0)
  simpleWord := fun _ => false
  findWord := fun text => text.head?.map Char.toNat

/-- The document 1 has one word only. -/
def oneWord (char : Char) : Kontext where
  weighted := false
  occurrences := fun wordid => if wordid = char.toNat then [⟨1, 0, 0⟩] else []
  ordered := fun wordid => by
    split
    · exact List.pairwise_singleton ..
    · exact .nil
  docids := fun wordid occ hmem => by
    split at hmem
    · rw [List.mem_singleton] at hmem
      rw [hmem]
      decide
    · cases hmem

def letter (char : Char) : Word := ⟨some char.toNat, none, defaultNearDistance⟩

theorem occurs_letter {char char' : Char} :
    Occurs (oneWord char) [letter char'] doc ↔ char'.toNat = char.toNat ∧ doc = 1 := by
  rw [Occurs, List.map_singleton, Leaf.matched_single]
  constructor
  · rintro ⟨p, occ, hmem, hdoc, _⟩
    simp only [openCursor, letter, oneWord] at hmem
    split at hmem
    case isTrue hsame =>
      rw [List.mem_singleton] at hmem
      rw [hmem] at hdoc
      exact ⟨hsame, hdoc.symm⟩
    case isFalse => cases hmem
  · rintro ⟨hsame, rfl⟩
    refine ⟨0, ⟨1, 0, 0⟩, ?_, rfl, rfl, ?_⟩
    · simp only [openCursor, letter, oneWord, if_pos hsame]
      exact List.mem_singleton.mpr rfl
    · exact Nat.one_ne_zero

theorem alwaysClean_letter (char : Char) :
    AlwaysClean ([letter char].map (openCursor kontext)) :=
  alwaysClean_near fun word hmem => by
    rw [List.mem_singleton.mp hmem]
    rfl

end Sql602.Fulltext
