import Sql602.Fulltext.Queries

namespace Sql602.Fulltext

/-! The scanner of full-text queries over the characters of the text, and the counting of the
words of a query. -/

def MAX_FT_WORD_LEN : Nat := 40

/-- The characters that start words and those that continue them. -/
structure Letters where
  wordStarter : Char → Bool
  wordContin : Char → Bool

/-- A symbol with what was stored to `curr_word` by its position, and the rest of the text.
There is no symbol for `FTS_END`. -/
structure Scan where
  symbol : Option Symbol
  stores : List (Nat × Char)
  rest : List Char

/-- Compares the word with the keywords. -/
def wordSymbol (word : List Char) : Symbol :=
  let upper := word.map Char.toUpper
  if upper = ['A', 'N', 'D'] then .and
  else if upper = ['O', 'R'] then .or
  else if upper = ['N', 'O', 'T'] then .not
  else if upper = ['N', 'E', 'A', 'R'] then .near
  else .word word

/-- The symbols of one character. -/
def charSymbol (c : Char) : Option Symbol :=
  if c = '(' then some .lpar
  else if c = ')' then some .rpar
  else if c = '"' then some .phrase
  else if c = '=' then some .equal
  else none

section Scanning

variable (letters : Letters)

/-- The cycle on the characters of a word: what is stored, the position behind it and the rest
of the text. -/
def wordLoop : Nat → List Char → List (Nat × Char) × Nat × List Char
  | i, [] => ([], i, [])
  | i, c :: rest =>
      if letters.wordContin c then
        if i < MAX_FT_WORD_LEN then
          let loop := wordLoop (i + 1) rest
          ((i, c) :: loop.1, loop.2)
        else wordLoop i rest
      else ([], i, c :: rest)

def readWord (c : Char) (rest : List Char) : Scan :=
  let loop := wordLoop letters 1 rest
  { symbol := some (wordSymbol (c :: loop.1.map Prod.snd))
    stores := (0, c) :: loop.1 ++ [(loop.2.1, '\x00')]
    rest := loop.2.2 }

def nextSym : List Char → Scan
  | [] => ⟨none, [], []⟩
  | c :: rest =>
      match charSymbol c with
      | some symbol => ⟨some symbol, [], rest⟩
      | none => if letters.wordStarter c then readWord letters c rest else nextSym rest

/-- The symbols up to the end of the text. -/
def symbolsFrom : Nat → List Char → List Symbol
  | 0, _ => []
  | fuel + 1, text =>
      match (nextSym letters text).symbol with
      | none => []
      | some symbol => symbol :: symbolsFrom fuel (nextSym letters text).rest

def symbols (text : List Char) : List Symbol := symbolsFrom letters (text.length + 1) text

/-- The cycle of `count_words` on the current symbol, with the counts of all words and of those
that are not simple. -/
def countLoop (language : Language) :
    Nat → Nat × Nat → Option Symbol → List Char → Option (Nat × Nat)
  | 0, _, _, _ => none
  | _ + 1, counts, none, _ => some counts
  | fuel + 1, counts, some (.word word), text =>
      let valid := if language.simpleWord (language.prepare word).1 then counts.2 else counts.2 + 1
      countLoop language fuel (counts.1 + 1, valid) (nextSym letters text).symbol
        (nextSym letters text).rest
  -- nothing is read
  | fuel + 1, counts, symbol, text => countLoop language fuel counts symbol text

def countWords (language : Language) (fuel : Nat) (text : List Char) : Option (Nat × Nat) :=
  countLoop letters language fuel (0, 0) (nextSym letters text).symbol (nextSym letters text).rest

end Scanning

def Symbol.text? : Symbol → Option (List Char)
  | .word text => some text
  | _ => none

section Progress

variable {letters : Letters} {text : List Char} {i : Nat}

theorem wordLoop_rest : (wordLoop letters i text).2.2.length ≤ text.length := by
  induction text generalizing i with
  | nil => exact Nat.le_refl _
  | cons c rest ih =>
      rw [wordLoop]
      split
      · split
        · exact Nat.le_succ_of_le ih
        · exact Nat.le_succ_of_le ih
      · exact Nat.le_refl _

theorem wordLoop_inside (hi : i ≤ MAX_FT_WORD_LEN) :
    (∀ store ∈ (wordLoop letters i text).1, store.1 < MAX_FT_WORD_LEN) ∧
      (wordLoop letters i text).2.1 ≤ MAX_FT_WORD_LEN := by
  induction text generalizing i with
  | nil => exact ⟨nofun, hi⟩
  | cons c rest ih =>
      rw [wordLoop]
      split
      · split
        · next hlt =>
            obtain ⟨hstores, hend⟩ := ih (Nat.succ_le_of_lt hlt)
            exact ⟨List.forall_mem_cons.mpr ⟨hlt, hstores⟩, hend⟩
        · exact ih hi
      · exact ⟨nofun, hi⟩

/-- Every symbol but the end consumes a character. -/
theorem nextSym_progress (hsymbol : (nextSym letters text).symbol ≠ none) :
    (nextSym letters text).rest.length < text.length := by
  induction text with
  | nil => exact absurd rfl hsymbol
  | cons c rest ih =>
      rw [nextSym] at hsymbol ⊢
      cases hchar : charSymbol c with
      | some symbol => exact Nat.lt_succ_self _
      | none =>
          simp only [hchar] at hsymbol ⊢
          by_cases hstarter : letters.wordStarter c = true
          · rw [if_pos hstarter]
            exact Nat.lt_succ_of_le wordLoop_rest
          · rw [if_neg hstarter] at hsymbol ⊢
            exact Nat.lt_succ_of_lt (ih hsymbol)

/-- Nothing is stored behind `curr_word`, which has a place for the terminating zero. -/
theorem nextSym_inside :
    ∀ store ∈ (nextSym letters text).stores, store.1 < MAX_FT_WORD_LEN + 1 := by
  induction text with
  | nil => exact nofun
  | cons c rest ih =>
      rw [nextSym]
      cases hchar : charSymbol c with
      | some symbol => exact nofun
      | none =>
          simp only
          by_cases hstarter : letters.wordStarter c = true
          · obtain ⟨hstores, hend⟩ :=
              @wordLoop_inside letters rest 1 (show 1 ≤ MAX_FT_WORD_LEN by decide)
            rw [if_pos hstarter]
            intro store hstore
            obtain hfirst | hlast := List.mem_append.mp hstore
            · obtain rfl | hfirst := List.mem_cons.mp hfirst
              · exact Nat.succ_pos _
              · exact Nat.lt_succ_of_lt (hstores store hfirst)
            · obtain rfl := List.mem_singleton.mp hlast
              exact Nat.lt_succ_of_le hend
          · rw [if_neg hstarter]
            exact ih

/-- The symbols do not depend on more fuel. -/
theorem symbolsFrom_enough {fuel : Nat} (hfuel : text.length < fuel) :
    symbolsFrom letters fuel text = symbols letters text := by
  induction fuel using Nat.strongRecOn generalizing text with
  | ind fuel ih =>
      obtain ⟨fuel, rfl⟩ := Nat.exists_eq_succ_of_ne_zero (Nat.ne_of_gt (Nat.zero_lt_of_lt hfuel))
      rw [symbols, symbolsFrom, symbolsFrom]
      cases hsymbol : (nextSym letters text).symbol with
      | none => rfl
      | some symbol =>
          have hless := nextSym_progress (fun hnone => absurd (hsymbol.symm.trans hnone) (by simp))
          simp only [List.cons.injEq, true_and]
          rw [ih fuel (Nat.lt_succ_self _) (Nat.lt_of_lt_of_le hless (Nat.le_of_lt_succ hfuel))]
          obtain hmore | hsame := Nat.lt_or_eq_of_le (Nat.le_of_lt_succ hfuel)
          · exact (ih text.length (Nat.lt_succ_of_lt hmore) hless).symm
          · rw [hsame]
            exact (ih fuel (Nat.lt_succ_self _) (hsame ▸ hless)).symm

/-- The current symbol and the symbols of the rest of the text. -/
def pending (letters : Letters) (symbol : Option Symbol) (text : List Char) : List Symbol :=
  match symbol with
  | none => []
  | some symbol => symbol :: symbols letters text

theorem pending_nextSym :
    pending letters (nextSym letters text).symbol (nextSym letters text).rest =
      symbols letters text := by
  rw [symbols, symbolsFrom]
  cases hsymbol : (nextSym letters text).symbol with
  | none => rfl
  | some symbol =>
      have hless := nextSym_progress (fun hnone => absurd (hsymbol.symm.trans hnone) (by simp))
      simp only [pending, List.cons.injEq, true_and]
      exact (symbolsFrom_enough hless).symm

end Progress

end Sql602.Fulltext

namespace Sql602.Fulltext

/-! The analysis of a query always ends. The counting of its words ends only when the query
consists of words. -/

section Counting

variable {letters : Letters} {language : Language} {text : List Char}

def words (symbols : List Symbol) : List (List Char) := symbols.filterMap Symbol.text?

/-- The counts of the words and of those that are not simple. -/
def wordCounts (language : Language) (symbols : List Symbol) : Nat × Nat :=
  ((words symbols).length,
    (words symbols).countP fun word => !language.simpleWord (language.prepare word).1)

theorem wordCounts_word {word : List Char} {rest : List Symbol} :
    wordCounts language (.word word :: rest) =
      ((wordCounts language rest).1 + 1,
        if language.simpleWord (language.prepare word).1 then (wordCounts language rest).2
        else (wordCounts language rest).2 + 1) := by
  cases hsimple : language.simpleWord (language.prepare word).1 with
  | true => simp [wordCounts, words, Symbol.text?, hsimple]
  | false => simp [wordCounts, words, Symbol.text?, hsimple]

/-- The cycle over words only ends with their counts. -/
theorem countLoop_words {counts : Nat × Nat} {symbol : Option Symbol} {fuel : Nat}
    (hwords : ∀ other ∈ pending letters symbol text, other.text? ≠ none)
    (hfuel : (pending letters symbol text).length < fuel) :
    countLoop letters language fuel counts symbol text =
      some (counts.1 + (wordCounts language (pending letters symbol text)).1,
        counts.2 + (wordCounts language (pending letters symbol text)).2) := by
  induction fuel generalizing counts symbol text with
  | zero => exact absurd hfuel (Nat.not_lt_zero _)
  | succ fuel ih =>
      cases symbol with
      | none => rfl
      | some symbol =>
          obtain ⟨hfirst, hrest⟩ := List.forall_mem_cons.mp hwords
          cases symbol with
          | word word =>
              rw [countLoop, ih (by rw [pending_nextSym]; exact hrest)
                (by rw [pending_nextSym]; exact Nat.lt_of_succ_lt_succ hfuel), pending_nextSym,
                pending, wordCounts_word]
              cases language.simpleWord (language.prepare word).1 with
              | true => simp [Nat.add_assoc, Nat.add_comm 1]
              | false => simp [Nat.add_assoc, Nat.add_comm 1]
          | _ => exact absurd rfl hfirst

/-- The cycle stays at the first symbol that is not a word. -/
theorem countLoop_stuck {counts : Nat × Nat} {symbol : Option Symbol}
    (hother : ∃ other ∈ pending letters symbol text, other.text? = none) (fuel : Nat) :
    countLoop letters language fuel counts symbol text = none := by
  induction fuel generalizing counts symbol text with
  | zero => rfl
  | succ fuel ih =>
      cases symbol with
      | none =>
          obtain ⟨other, hmem, -⟩ := hother
          exact absurd hmem List.not_mem_nil
      | some symbol =>
          cases symbol with
          | word word =>
              rw [countLoop]
              refine ih ?_
              rw [pending_nextSym]
              obtain ⟨other, hmem, hnone⟩ := hother
              obtain rfl | hmem := List.mem_cons.mp hmem
              · exact absurd hnone (by simp [Symbol.text?])
              · exact ⟨other, hmem, hnone⟩
          | _ => exact ih hother

theorem ftAnalOr_total (negate : Bool) (list : List Symbol) :
    ∃ fuel result, ftAnalOr language fuel negate list = some result := by
  obtain ⟨query, rest, hread⟩ := @read_total language list
  refine ⟨3 * list.length + 3, pushed negate (query, rest), ?_⟩
  rw [(pushes language _).or, hread]
  rfl

end Counting

/-- The scanning of a query is right. -/
structure ScanRight (letters : Letters) (language : Language) (text : List Char) : Prop where
  analysed : ∃ fuel result, ftAnalOr language fuel false (symbols letters text) = some result
  progress : ∀ later, (nextSym letters later).symbol ≠ none →
    (nextSym letters later).rest.length < later.length
  inside : ∀ later, ∀ store ∈ (nextSym letters later).stores, store.1 < MAX_FT_WORD_LEN + 1
  counted : ∃ fuel, countWords letters language fuel text =
    some (wordCounts language (symbols letters text))

section Verdict

variable {letters : Letters} {language : Language} {text : List Char}

theorem words_of_counted {fuel : Nat} {counts : Nat × Nat}
    (hcounted : countWords letters language fuel text = some counts) :
    ∀ symbol ∈ symbols letters text, symbol.text? ≠ none := by
  intro symbol hmem hnone
  rw [countWords, countLoop_stuck ⟨symbol, by rw [pending_nextSym]; exact hmem, hnone⟩] at hcounted
  exact absurd hcounted (by simp)

theorem scan_right_iff : ScanRight letters language text ↔
    ∀ symbol ∈ symbols letters text, symbol.text? ≠ none := by
  constructor
  · rintro ⟨-, -, -, fuel, hcounted⟩
    exact words_of_counted hcounted
  · intro hwords
    refine ⟨ftAnalOr_total false _, fun _ => nextSym_progress, fun _ => nextSym_inside,
      (symbols letters text).length + 1, ?_⟩
    rw [countWords, countLoop_words (by rw [pending_nextSym]; exact hwords)
      (by rw [pending_nextSym]; exact Nat.lt_succ_self _), pending_nextSym, Nat.zero_add,
      Nat.zero_add]

end Verdict

/-- Letters and a language in which every word is counted. -/
def plainLetters : Letters := ⟨Char.isAlpha, Char.isAlpha⟩

def plainLanguage : Language := ⟨fun word => (word, 0), fun _ => false, fun _ => none⟩

/-- The cycle does not end for two words joined by AND. -/
theorem not_forall_scan_right : ¬ ∀ letters language text, ScanRight letters language text := by
  intro hall
  obtain ⟨-, -, -, fuel, hcounted⟩ :=
    hall plainLetters plainLanguage ['a', ' ', 'a', 'n', 'd', ' ', 'b']
  have hand : (symbols plainLetters ['a', ' ', 'a', 'n', 'd', ' ', 'b'])[1]? = some .and := rfl
  exact words_of_counted hcounted .and (List.mem_of_getElem? hand) rfl

end Sql602.Fulltext
