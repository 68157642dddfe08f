import Mathlib.Algebra.Group.Nat.Defs
import Mathlib.Data.List.Basic
import Sql602.Library.Firsts

namespace Sql602.Texts

open Firsts

/-! The search for a pattern in a text that is in several blocks of memory. -/

/-- The characters from `size` on are what the memory has behind the block. -/
structure Block (γ : Type) where
  size : Nat
  memory : Nat → γ

def Block.text {γ : Type} (block : Block γ) : List γ := (List.range block.size).map block.memory

def textOf {γ : Type} (blocks : List (Block γ)) : List γ := blocks.flatMap Block.text

/-- The flags and the functions of the character set. The pattern is in upper case unless the
search is case sensitive. -/
structure Search (γ : Type) where
  upcase : γ → γ
  alphanum : γ → Bool
  caseSensitive : Bool
  wholeWords : Bool
  noCont : Bool
  patt : List γ
  patt_filled : patt ≠ []

namespace Search

variable {γ : Type} [DecidableEq γ] (search : Search γ)

def fold (c : γ) : γ := if search.caseSensitive then c else search.upcase c

/-- A character of the block or of the next one. -/
def charAt (block : Block γ) (next : Option (Block γ)) (pos : Nat) : Option γ :=
  if pos < block.size then some (block.memory pos)
  else next.map fun other => other.memory (pos - block.size)

def matches' (block : Block γ) (next : Option (Block γ)) : List γ → Nat → Bool
  | [], _ => true
  | p :: patt, pos =>
      match charAt block next pos with
      | none => false
      | some c => decide (search.fold c = p) && matches' block next patt (pos + 1)

def fits (block : Block γ) (next : Option (Block γ)) (pos : Nat) : Bool :=
  search.matches' block next search.patt pos

/-- Both branches `else` belong to the inner conditions, and the difference of the positions
has 32 bits. -/
def neighboursPass (block : Block γ) (next : Option (Block γ)) (pos : Nat) : Bool :=
  let behind := pos + search.patt.length
  if search.wholeWords then
    !(if 0 < pos then
        if search.alphanum (block.memory (pos - 1)) then true else search.noCont
      else false) &&
    !(if behind < block.size then
        if search.alphanum (block.memory behind) then true
        else next.isSome && search.alphanum (block.memory (behind + 2 ^ 32 - block.size))
      else false)
  else true

def searchForward (block : Block γ) (next : Option (Block γ)) : Option Nat :=
  searchUp (fun pos => search.fits block next pos && search.neighboursPass block next pos)
    block.size 0

def neighboursPassBackwards (block : Block γ) (pos : Nat) : Bool :=
  let behind := pos + search.patt.length
  if search.wholeWords then
    !(if 0 < pos then search.alphanum (block.memory (pos - 1)) else false) &&
    !(if behind < block.size then search.alphanum (block.memory behind) else false)
  else true

def searchBackwards (block : Block γ) : Option Nat :=
  if block.size < search.patt.length then none
  else searchDown
    (fun pos => search.fits block none pos && search.neighboursPassBackwards block pos)
    (block.size - search.patt.length)

/-- The search in the blocks of a large object. -/
def searchBlocks : List (Block γ) → Option Nat
  | [] => none
  | block :: rest =>
      match search.searchForward block rest.head? with
      | some respos => some respos
      | none => (searchBlocks rest).map (block.size + ·)

/-- The place is in the text, and its neighbours are those of a word if whole words are
searched. -/
structure Place (text : List γ) (pos : Nat) : Prop where
  inside : pos + search.patt.length ≤ text.length
  notPreceded : search.wholeWords = true → 0 < pos →
    ∀ c ∈ text[pos - 1]?, search.alphanum c = false
  notFollowed : search.wholeWords = true →
    ∀ c ∈ text[pos + search.patt.length]?, search.alphanum c = false

/-- The characters of the text from the position on are those of the pattern. -/
def SameChars (text : List γ) (pos : Nat) : Prop :=
  ∀ i < search.patt.length, (text[pos + i]?).map search.fold = search.patt[i]?

def Occurs (text : List γ) (pos : Nat) : Prop := search.Place text pos ∧ search.SameChars text pos

/-- Every following block but the last is at least as long as the pattern. -/
def Cut : List (Block γ) → Prop
  | [] => True
  | [_] => True
  | _ :: next :: rest =>
      (rest ≠ [] → search.patt.length ≤ next.size) ∧ Cut (next :: rest)

/-- The pattern fits the memory from the position on. -/
def FitsAt : List (Block γ) → Nat → Prop
  | [], _ => False
  | block :: rest, pos =>
      if pos < block.size then search.fits block rest.head? pos = true
      else FitsAt rest (pos - block.size)

def PassesAt : List (Block γ) → Nat → Prop
  | [], _ => False
  | block :: rest, pos =>
      if pos < block.size then search.neighboursPass block rest.head? pos = true
      else PassesAt rest (pos - block.size)

/-- The pattern fits, but the characters that are tested are not its neighbours in the text:
the start or the end of the text or of a block is at or in the place, or the flag
SEARCH_NOCONT is set. -/
def Misread (blocks : List (Block γ)) (pos : Nat) : Prop :=
  search.FitsAt blocks pos ∧ ¬ (search.PassesAt blocks pos ↔ search.Place (textOf blocks) pos)

/-- The search finds the first occurrence in the text, and the search backwards in a block the
last one in it. -/
def Right (blocks : List (Block γ)) : Prop :=
  IsFirst (search.Occurs (textOf blocks)) (search.searchBlocks blocks) ∧
    ∀ block : Block γ, IsLast (search.Occurs block.text) (search.searchBackwards block)

section Fitting

variable {search : Search γ} {block : Block γ} {next : Option (Block γ)}
  {rest blocks : List (Block γ)} {pos : Nat}

omit [DecidableEq γ] in
theorem patt_pos (search : Search γ) : 0 < search.patt.length :=
  List.length_pos_iff.mpr search.patt_filled

theorem matches'_iff (patt : List γ) : search.matches' block next patt pos = true ↔
    ∀ i < patt.length, (charAt block next (pos + i)).map search.fold = patt[i]? := by
  induction patt generalizing pos with
  | nil => exact iff_of_true rfl fun i hi => absurd hi (Nat.not_lt_zero i)
  | cons p patt ih =>
      rw [matches']
      constructor
      · intro hmatches i hi
        cases hchar : charAt block next pos with
        | none =>
            rw [hchar] at hmatches
            cases hmatches
        | some c =>
            rw [hchar] at hmatches
            dsimp only at hmatches
            rw [Bool.and_eq_true, decide_eq_true_eq] at hmatches
            obtain ⟨hfirst, hmatches⟩ := hmatches
            cases i with
            | zero => rw [Nat.add_zero, hchar, Option.map_some, hfirst, List.getElem?_cons_zero]
            | succ i =>
                rw [List.getElem?_cons_succ, ← Nat.add_assoc, Nat.add_right_comm]
                exact ih.mp hmatches i (Nat.lt_of_succ_lt_succ hi)
      · intro hall
        have hfirst := hall 0 (Nat.zero_lt_succ _)
        rw [Nat.add_zero, List.getElem?_cons_zero] at hfirst
        cases hchar : charAt block next pos with
        | none =>
            rw [hchar] at hfirst
            cases hfirst
        | some c =>
            rw [hchar] at hfirst
            dsimp only
            rw [Bool.and_eq_true, decide_eq_true_eq]
            refine ⟨Option.some.inj hfirst, ih.mpr fun i hi => ?_⟩
            have hnext := hall (i + 1) (Nat.succ_lt_succ hi)
            rwa [List.getElem?_cons_succ, ← Nat.add_assoc, Nat.add_right_comm] at hnext

theorem fits_iff : search.fits block next pos = true ↔
    ∀ i < search.patt.length, (charAt block next (pos + i)).map search.fold = search.patt[i]? :=
  matches'_iff search.patt

omit [DecidableEq γ] in
theorem length_text (block : Block γ) : block.text.length = block.size := by
  rw [Block.text, List.length_map, List.length_range]

omit [DecidableEq γ] in
theorem textOf_cons : textOf (block :: rest) = block.text ++ textOf rest := List.flatMap_cons

omit [DecidableEq γ] in
theorem length_textOf_cons : (textOf (block :: rest)).length = block.size + (textOf rest).length := by
  rw [textOf_cons, List.length_append, length_text]

omit [DecidableEq γ] in
theorem textOf_before (hpos : pos < block.size) :
    (textOf (block :: rest))[pos]? = some (block.memory pos) := by
  rw [textOf_cons, List.getElem?_append_left (by rwa [length_text]), Block.text,
    List.getElem?_map, List.getElem?_range hpos, Option.map_some]

omit [DecidableEq γ] in
theorem textOf_behind (hpos : block.size ≤ pos) :
    (textOf (block :: rest))[pos]? = (textOf rest)[pos - block.size]? := by
  rw [textOf_cons, List.getElem?_append_right (by rwa [length_text]), length_text]

omit [DecidableEq γ] in
theorem Cut.tail (hcut : search.Cut (block :: rest)) : search.Cut rest := by
  cases rest with
  | nil => trivial
  | cons next rest => exact hcut.2

/-- Before the end of the text, the characters of the next block are those of the text. -/
theorem charAt_text {i : Nat} (hcut : search.Cut (block :: rest)) (hpos : pos < block.size)
    (hi : i < search.patt.length)
    (hinside : pos + search.patt.length ≤ (textOf (block :: rest)).length) :
    charAt block rest.head? (pos + i) = (textOf (block :: rest))[pos + i]? := by
  rw [charAt]
  split
  · next hin => rw [textOf_before hin]
  · next hout =>
      have hbehind := Nat.le_of_not_lt hout
      rw [textOf_behind hbehind]
      rw [length_textOf_cons] at hinside
      cases rest with
      | nil =>
          rw [show (textOf ([] : List (Block γ))).length = 0 from rfl] at hinside
          omega
      | cons next rest =>
          have hnext : pos + i - block.size < next.size := by
            by_cases hlast : rest = []
            · rw [hlast, length_textOf_cons,
                show (textOf ([] : List (Block γ))).length = 0 from rfl] at hinside
              omega
            · have hlong := hcut.1 hlast
              omega
          rw [textOf_before hnext]
          rfl

theorem fitsAt_iff (hcut : search.Cut blocks)
    (hinside : pos + search.patt.length ≤ (textOf blocks).length) :
    search.FitsAt blocks pos ↔ search.SameChars (textOf blocks) pos := by
  have hpatt := search.patt_pos
  induction blocks generalizing pos with
  | nil =>
      rw [show (textOf ([] : List (Block γ))).length = 0 from rfl] at hinside
      omega
  | cons block rest ih =>
      rw [FitsAt]
      split
      · next hpos =>
          rw [fits_iff]
          constructor
          · intro hsame i hi
            rw [← charAt_text hcut hpos hi hinside]
            exact hsame i hi
          · intro hsame i hi
            rw [charAt_text hcut hpos hi hinside]
            exact hsame i hi
      · next hpos =>
          have hbehind := Nat.le_of_not_lt hpos
          rw [length_textOf_cons] at hinside
          have hrest : search.FitsAt rest (pos - block.size) ↔
              search.SameChars (textOf rest) (pos - block.size) := ih hcut.tail (by omega)
          rw [hrest]
          have hshift : ∀ i, (textOf (block :: rest))[pos + i]? =
              (textOf rest)[pos - block.size + i]? := by
            intro i
            rw [textOf_behind (Nat.le_add_right_of_le hbehind),
              Nat.sub_add_comm hbehind]
          constructor
          · intro hsame i hi
            rw [hshift]
            exact hsame i hi
          · intro hsame i hi
            rw [← hshift]
            exact hsame i hi

theorem occurs_iff (hcut : search.Cut blocks) : search.Occurs (textOf blocks) pos ↔
    search.FitsAt blocks pos ∧ search.Place (textOf blocks) pos := by
  constructor
  · rintro ⟨hplace, hsame⟩
    exact ⟨(fitsAt_iff hcut hplace.inside).mpr hsame, hplace⟩
  · rintro ⟨hfits, hplace⟩
    exact ⟨hplace, (fitsAt_iff hcut hplace.inside).mp hfits⟩

end Fitting

section Searching

variable {search : Search γ} {block : Block γ} {rest blocks : List (Block γ)} {pos : Nat}

theorem searchForward_first (next : Option (Block γ)) :
    IsFirst (fun pos => pos < block.size ∧ search.fits block next pos = true ∧
      search.neighboursPass block next pos = true) (search.searchForward block next) := by
  refine (searchUp_first block.size 0).congr fun pos => ?_
  rw [Bool.and_eq_true, Nat.zero_add]
  exact and_iff_right (Nat.zero_le pos)

/-- The first place in all the blocks that the search accepts. -/
theorem searchBlocks_first (blocks : List (Block γ)) :
    IsFirst (fun pos => search.FitsAt blocks pos ∧ search.PassesAt blocks pos)
      (search.searchBlocks blocks) := by
  induction blocks with
  | nil => exact fun pos hpos => hpos.1
  | cons block rest ih =>
      have hblock := @searchForward_first γ _ search block rest.head?
      have hin : ∀ pos < block.size, (search.FitsAt (block :: rest) pos ∧
          search.PassesAt (block :: rest) pos ↔ search.fits block rest.head? pos = true ∧
            search.neighboursPass block rest.head? pos = true) := by
        intro pos hpos
        rw [FitsAt, PassesAt, if_pos hpos, if_pos hpos]
      have hout : ∀ pos, ¬ pos < block.size → (search.FitsAt (block :: rest) pos ∧
          search.PassesAt (block :: rest) pos ↔ search.FitsAt rest (pos - block.size) ∧
            search.PassesAt rest (pos - block.size)) := by
        intro pos hpos
        rw [FitsAt, PassesAt, if_neg hpos, if_neg hpos]
      rw [searchBlocks]
      cases hforward : search.searchForward block rest.head? with
      | some respos =>
          rw [hforward] at hblock
          obtain ⟨⟨hpos, hgood⟩, hbefore⟩ := hblock
          refine ⟨(hin respos hpos).mpr hgood, fun q hq hfound => ?_⟩
          have hqin := Nat.lt_trans hq hpos
          exact hbefore q hq ⟨hqin, (hin q hqin).mp hfound⟩
      | none =>
          rw [hforward] at hblock
          have hnone : ∀ pos < block.size, ¬ (search.FitsAt (block :: rest) pos ∧
              search.PassesAt (block :: rest) pos) :=
            fun pos hpos hfound => hblock pos ⟨hpos, (hin pos hpos).mp hfound⟩
          dsimp only
          cases hrest : search.searchBlocks rest with
          | none =>
              rw [hrest] at ih
              intro pos hfound
              by_cases hpos : pos < block.size
              · exact hnone pos hpos hfound
              · exact ih _ ((hout pos hpos).mp hfound)
          | some respos =>
              rw [hrest] at ih
              rw [Option.map_some]
              refine ⟨(hout _ (by omega)).mpr ?_, fun q hq hfound => ?_⟩
              · rw [Nat.add_sub_cancel_left]
                exact ih.1
              · by_cases hpos : q < block.size
                · exact hnone q hpos hfound
                · exact ih.2 (q - block.size) (by omega) ((hout q hpos).mp hfound)

omit [DecidableEq γ] in
theorem textOf_single : textOf [block] = block.text := List.append_nil _

omit [DecidableEq γ] in
/-- In one block, the neighbours that are tested are those in the text. -/
theorem neighboursPassBackwards_iff (hinside : pos + search.patt.length ≤ block.size) :
    search.neighboursPassBackwards block pos = true ↔ search.Place block.text pos := by
  have hpatt := search.patt_pos
  have hbefore : ∀ p, p < block.size → block.text[p]? = some (block.memory p) := by
    intro p hp
    rw [← textOf_single]
    exact textOf_before hp
  have hlength := length_text block
  rw [neighboursPassBackwards]
  constructor
  · intro hpass
    refine ⟨by rwa [hlength], fun hwords hpos c hc => ?_, fun hwords c hc => ?_⟩
    · rw [if_pos hwords, Bool.and_eq_true, if_pos hpos] at hpass
      rw [hbefore (pos - 1) (by omega)] at hc
      obtain rfl := Option.mem_some_iff.mp hc
      simpa using hpass.1
    · rw [if_pos hwords, Bool.and_eq_true] at hpass
      by_cases hin : pos + search.patt.length < block.size
      · rw [if_pos hin] at hpass
        rw [hbefore _ hin] at hc
        obtain rfl := Option.mem_some_iff.mp hc
        simpa using hpass.2
      · rw [List.getElem?_eq_none (by omega)] at hc
        cases hc
  · intro hplace
    split
    · next hwords =>
        rw [Bool.and_eq_true]
        constructor
        · split
          · next hpos =>
              rw [hplace.notPreceded hwords hpos _ (hbefore (pos - 1) (by omega))]
              rfl
          · rfl
        · split
          · next hin =>
              rw [hplace.notFollowed hwords _ (hbefore _ hin)]
              rfl
          · rfl
    · rfl

theorem searchBackwards_last (block : Block γ) :
    IsLast (search.Occurs block.text) (search.searchBackwards block) := by
  have hlength := length_text block
  have hcut : search.Cut [block] := trivial
  have hpatt := search.patt_pos
  rw [searchBackwards]
  split
  · next hshort =>
      intro pos hoccurs
      have hinside := hoccurs.1.inside
      omega
  · next hlong =>
      refine (searchDown_last (block.size - search.patt.length)).congr fun pos => ?_
      have hoccurs := @occurs_iff γ _ search [block] pos hcut
      rw [textOf_single, FitsAt] at hoccurs
      rw [hoccurs, Bool.and_eq_true]
      constructor
      · rintro ⟨hpos, hfits, hpass⟩
        rw [if_pos (by omega)]
        exact ⟨hfits, (neighboursPassBackwards_iff (by omega)).mp hpass⟩
      · rintro ⟨hfits, hplace⟩
        have hinside := hplace.inside
        rw [if_pos (by omega)] at hfits
        exact ⟨by omega, hfits, (neighboursPassBackwards_iff (by omega)).mpr hplace⟩

end Searching

/-- The search for the word "b". -/
def wordB : Search Nat where
  upcase := id
  alphanum c := decide (97 ≤ c ∧ c ≤ 122)
  caseSensitive := true
  wholeWords := true
  noCont := false
  patt := [98]
  patt_filled := List.cons_ne_nil _ _

/-- The text "ab" in two blocks. -/
def blocksAB : List (Block Nat) := [⟨1, fun _ => 97⟩, ⟨1, fun _ => 98⟩]

end Search

end Sql602.Texts
