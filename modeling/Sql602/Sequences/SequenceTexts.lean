import Sql602.Sequences.Sequence

namespace Sql602.Sequences

open Sql602.Convert

/-! The symbols of a printed definition. -/

/-- The largest number that the compiler reads. -/
def largest : Nat := 9223372036854775799

def intSymbols (val : Int) : List Symbol :=
  (if val < 0 then [.minus] else []) ++ [.integer val.natAbs]

theorem revertedDigits_length (n k : Nat) (hn : n < 10 ^ (k + 1)) :
    (revertedDigits n).length ≤ k + 1 := by
  induction k generalizing n with
  | zero =>
      have hzero : n / 10 = 0 := Nat.div_eq_of_lt hn
      rw [revertedDigits, if_pos hzero]
      exact Nat.le_refl _
  | succ k ih =>
      rw [revertedDigits, List.length_cons]
      split
      · exact Nat.succ_le_succ (Nat.zero_le _)
      · refine Nat.succ_le_succ (ih (n / 10) ?_)
        rw [Nat.div_lt_iff_lt_mul (by decide)]
        exact hn

theorem printSpec_plain {none val : Int} (hval : val ≠ none) :
    printSpec none val 0 =
      (if val < 0 then [45] else []) ++ (revertedDigits val.natAbs).reverse := by
  have hnone : ¬ (0 < (0 : Int) ∧ (0 : Int) ≤ 50) := by decide
  rw [printSpec, if_neg hval, addSeparator, if_neg hnone]

section Reading

variable {cs : Charset} {rest : List UInt8}

theorem symbols_digits {n : Nat} (hn : n ≤ largest)
    (hrest : ∀ c ∈ rest.head?, isDigit c = false) :
    symbols cs ((revertedDigits n).reverse ++ rest) = .integer n :: symbols cs rest := by
  have hdigits : AllDigits (revertedDigits n).reverse :=
    fun c hc => revertedDigits_digits n c (List.mem_reverse.mp hc)
  have hne : (revertedDigits n).reverse ≠ [] := by
    rw [Ne, List.reverse_eq_nil_iff]
    exact revertedDigits_ne_nil n
  have hlength : (revertedDigits n).reverse.length < 30 := by
    rw [List.length_reverse]
    exact Nat.lt_of_le_of_lt (revertedDigits_length n 18 (Nat.lt_of_le_of_lt hn (by decide)))
      (by decide)
  have hnumber := number_revertedDigits n
  have hsymbol := numberSymbol_eq hlength (hnumber.le.trans hn)
  rw [symbols_number hdigits hne hrest, hsymbol, hnumber]

theorem symbols_printSpec {none val : Int} (hval : val ≠ none) (hlarge : val.natAbs ≤ largest)
    (hrest : ∀ c ∈ rest.head?, isDigit c = false) :
    symbols cs (printSpec none val 0 ++ rest) = intSymbols val ++ symbols cs rest := by
  have hdigits : symbols cs ((revertedDigits val.natAbs).reverse ++ rest) =
      .integer val.natAbs :: symbols cs rest := symbols_digits hlarge hrest
  rw [printSpec_plain hval, intSymbols]
  split
  case isTrue hneg =>
    have hhead : charAt ((revertedDigits val.natAbs).reverse ++ rest) ≠ 45 := by
      have hall : AllDigits (revertedDigits val.natAbs).reverse :=
        fun c hc => revertedDigits_digits _ c (List.mem_reverse.mp hc)
      have hne : (revertedDigits val.natAbs).reverse ≠ [] := by
        rw [Ne, List.reverse_eq_nil_iff]
        exact revertedDigits_ne_nil _
      have hdigit := charAt_digit hall hne rest
      intro hminus
      rw [hminus] at hdigit
      cases hdigit
    rw [List.append_assoc, List.singleton_append, symbols_minus hhead, hdigits]
    rfl
  case isFalse hpos =>
    rw [List.nil_append, hdigits]
    rfl

theorem symbols_putInt64 {val : Int} (hlarge : val.natAbs ≤ largest)
    (hrest : ∀ c ∈ rest.head?, isDigit c = false) :
    symbols cs (putInt64 val ++ rest) = intSymbols val ++ symbols cs rest := by
  have hval : val ≠ NONEBIGINT := by
    rintro rfl
    exact absurd hlarge (by decide)
  rw [putInt64, List.cons_append, symbols_space rfl]
  exact symbols_printSpec hval hlarge hrest

theorem symbols_putInt {val : Int} (hlow : 0 ≤ val) (hlarge : val.natAbs ≤ largest)
    (hrest : ∀ c ∈ rest.head?, isDigit c = false) :
    symbols cs (putInt val ++ rest) = intSymbols val ++ symbols cs rest := by
  have hval : val ≠ NONEINTEGER := by
    rintro rfl
    exact absurd hlow (by decide)
  rw [putInt, List.cons_append, symbols_space rfl]
  exact symbols_printSpec hval hlarge hrest

theorem blank_behind {c : UInt8} (hc : isSpace c = true) :
    ∀ d ∈ (c :: rest).head?, isWordChar cs d = false := by
  intro d hd
  cases hd
  have hspace : c ∈ [32, 13, 10, 9] := by
    have hcases := of_decide_eq_true hc
    simpa only [List.mem_cons, List.not_mem_nil, or_false] using hcases
  have hsmall : ∀ c ∈ [32, 13, 10, 9], c < 128 ∧ isDigit c = false ∧ c ≠ 95 ∧
      ¬ (65 ≤ c ∧ c ≤ 90 ∨ 97 ≤ c ∧ c ≤ (122 : UInt8)) := by
    decide +kernel
  obtain ⟨hlt, hdigit, hunder, hletter⟩ := hsmall c hspace
  rw [isWordChar, cs.alpha_ascii c hlt, hdigit, decide_eq_false hletter, decide_eq_false hunder]
  rfl

/-- A word of capitals with a blank behind it. -/
theorem symbols_word_blank {word : List UInt8} {c : UInt8} (hc : isSpace c = true)
    (hword : ∀ c ∈ word, IsCapital c) (hne : word ≠ []) (hlength : word.length ≤ 31) :
    symbols cs (word ++ c :: rest) = wordSymbol word :: symbols cs rest := by
  rw [symbols_word hword hne hlength (blank_behind hc), symbols_space hc]

end Reading

/-! The lines. -/

def Spells (cs : Charset) (line : List UInt8) (read : List Symbol) : Prop :=
  ∀ rest, symbols cs (line ++ (newLine ++ rest)) = read ++ symbols cs rest

abbrev PlainWord (word : List UInt8) : Prop :=
  (∀ c ∈ word, IsCapital c) ∧ word ≠ [] ∧ word.length ≤ 31

section Lines

variable {cs : Charset} {word line : List UInt8} {read : List Symbol}

theorem symbols_newLine (rest : List UInt8) :
    symbols cs (newLine ++ rest) = symbols cs rest := by
  rw [newLine, List.cons_append, symbols_space rfl, List.singleton_append, symbols_space rfl]

theorem spells_word (hword : PlainWord word) : Spells cs word [wordSymbol word] := by
  intro rest
  obtain ⟨hcapital, hne, hlength⟩ := hword
  have hnext : symbols cs (10 :: rest) = symbols cs rest := symbols_space rfl
  rw [newLine, List.cons_append, symbols_word_blank rfl hcapital hne hlength,
    List.singleton_append, hnext]
  rfl

theorem spells_cons (hword : PlainWord word) (hline : Spells cs line read) :
    Spells cs (word ++ 32 :: line) (wordSymbol word :: read) := by
  intro rest
  obtain ⟨hcapital, hne, hlength⟩ := hword
  rw [List.append_assoc, List.cons_append, symbols_word_blank rfl hcapital hne hlength,
    hline rest]
  rfl

theorem spells_putInt64 {val : Int} (hlarge : val.natAbs ≤ largest) :
    Spells cs (putInt64 val) (intSymbols val) := by
  intro rest
  have hstop : ∀ c ∈ (newLine ++ rest).head?, isDigit c = false := by
    rintro c ⟨⟩
    rfl
  rw [symbols_putInt64 hlarge hstop, symbols_newLine]

theorem spells_putInt {val : Int} (hlow : 0 ≤ val) (hlarge : val.natAbs ≤ largest) :
    Spells cs (putInt val) (intSymbols val) := by
  intro rest
  have hstop : ∀ c ∈ (newLine ++ rest).head?, isDigit c = false := by
    rintro c ⟨⟩
    rfl
  rw [symbols_putInt hlow hlarge hstop, symbols_newLine]

theorem symbols_lines {texts : List (List UInt8)} {reads : List (List Symbol)}
    (hreads : List.Forall₂ (Spells cs) texts reads) :
    symbols cs (texts.flatMap (· ++ newLine)) = reads.flatten := by
  induction hreads with
  | nil => rw [List.flatMap_nil, symbols, List.flatten_nil]
  | cons hline hlines ih =>
      rw [List.flatMap_cons, List.append_assoc, hline, ih, List.flatten_cons]

end Lines

def keyword (name : String) : Symbol := .keyword (ascii name)

def option (name : String) : Symbol := .ident (ascii name)

def optionSymbols (seq : Sequence) : List (List Symbol) := [
  keyword "START" :: keyword "WITH" :: intSymbols seq.startval,
  option "INCREMENT" :: keyword "BY" :: intSymbols seq.step,
  if seq.hasmax then option "MAXVALUE" :: intSymbols seq.maxval else [option "NOMAXVALUE"],
  if seq.hasmin then option "MINVALUE" :: intSymbols seq.minval else [option "NOMINVALUE"],
  if seq.hascache then option "CACHE" :: intSymbols seq.cache else [option "NOCACHE"],
  if seq.cycles then [option "CYCLE"] else [option "NOCYCLE"],
  if seq.ordered then [keyword "ORDER"] else [option "NOORDER"]]

theorem wordSymbol_keyword : ∀ name ∈ ["START", "WITH", "BY", "ORDER", "CREATE", "SEQUENCE"],
    PlainWord (ascii name) ∧ wordSymbol (ascii name) = keyword name := by
  decide +kernel

theorem wordSymbol_option : ∀ name ∈ ["INCREMENT", "MAXVALUE", "NOMAXVALUE", "MINVALUE",
    "NOMINVALUE", "CACHE", "NOCACHE", "CYCLE", "NOCYCLE", "NOORDER"],
    PlainWord (ascii name) ∧ wordSymbol (ascii name) = option name := by
  decide +kernel

theorem ascii_blank :
    ascii "START WITH " = ascii "START" ++ 32 :: (ascii "WITH" ++ [32]) ∧
    ascii "INCREMENT BY " = ascii "INCREMENT" ++ 32 :: (ascii "BY" ++ [32]) ∧
    ascii "MAXVALUE " = ascii "MAXVALUE" ++ [32] ∧ ascii "MINVALUE " = ascii "MINVALUE" ++ [32] ∧
    ascii "CACHE " = ascii "CACHE" ++ [32] ∧
    ascii " SEQUENCE " = 32 :: (ascii "SEQUENCE" ++ [32]) := by
  decide +kernel

/-- The numbers of the printed options are read without an overflow. -/
structure Printable (seq : Sequence) : Prop where
  startval : seq.startval.natAbs ≤ largest
  step : seq.step.natAbs ≤ largest
  maxval : seq.hasmax = true → seq.maxval.natAbs ≤ largest
  minval : seq.hasmin = true → seq.minval.natAbs ≤ largest
  cache : seq.hascache = true → 2 ≤ seq.cache ∧ seq.cache ≤ 1000

section Texts

variable {cs : Charset} {seq : Sequence} {line : List UInt8} {read : List Symbol}

theorem spells_keyword {name : String}
    (hname : name ∈ ["START", "WITH", "BY", "ORDER", "CREATE", "SEQUENCE"]) :
    Spells cs (ascii name) [keyword name] := by
  obtain ⟨hplain, hsymbol⟩ := wordSymbol_keyword name hname
  rw [← hsymbol]
  exact spells_word hplain

theorem spells_option {name : String}
    (hname : name ∈ ["INCREMENT", "MAXVALUE", "NOMAXVALUE", "MINVALUE",
      "NOMINVALUE", "CACHE", "NOCACHE", "CYCLE", "NOCYCLE", "NOORDER"]) :
    Spells cs (ascii name) [option name] := by
  obtain ⟨hplain, hsymbol⟩ := wordSymbol_option name hname
  rw [← hsymbol]
  exact spells_word hplain

theorem spells_keyword_cons {name : String}
    (hname : name ∈ ["START", "WITH", "BY", "ORDER", "CREATE", "SEQUENCE"])
    (hline : Spells cs line read) :
    Spells cs (ascii name ++ 32 :: line) (keyword name :: read) := by
  obtain ⟨hplain, hsymbol⟩ := wordSymbol_keyword name hname
  rw [← hsymbol]
  exact spells_cons hplain hline

theorem spells_option_cons {name : String}
    (hname : name ∈ ["INCREMENT", "MAXVALUE", "NOMAXVALUE", "MINVALUE",
      "NOMINVALUE", "CACHE", "NOCACHE", "CYCLE", "NOCYCLE", "NOORDER"])
    (hline : Spells cs line read) :
    Spells cs (ascii name ++ 32 :: line) (option name :: read) := by
  obtain ⟨hplain, hsymbol⟩ := wordSymbol_option name hname
  rw [← hsymbol]
  exact spells_cons hplain hline

theorem optionTexts_spelled (hseq : Printable seq) :
    List.Forall₂ (Spells cs) (optionTexts seq) (optionSymbols seq) := by
  obtain ⟨hstart, hincrement, hmaxvalue, hminvalue, hcache, -⟩ := ascii_blank
  refine .cons ?_ (.cons ?_ (.cons ?_ (.cons ?_ (.cons ?_ (.cons ?_ (.cons ?_ .nil))))))
  · rw [hstart, List.append_assoc, List.cons_append, List.append_assoc, List.singleton_append]
    exact spells_keyword_cons (by decide)
      (spells_keyword_cons (by decide) (spells_putInt64 hseq.startval))
  · rw [hincrement, List.append_assoc, List.cons_append, List.append_assoc,
      List.singleton_append]
    exact spells_option_cons (by decide)
      (spells_keyword_cons (by decide) (spells_putInt64 hseq.step))
  · split
    case isTrue hmax =>
      rw [hmaxvalue, List.append_assoc, List.singleton_append]
      exact spells_option_cons (by decide) (spells_putInt64 (hseq.maxval hmax))
    case isFalse hmax => exact spells_option (by decide)
  · split
    case isTrue hmin =>
      rw [hminvalue, List.append_assoc, List.singleton_append]
      exact spells_option_cons (by decide) (spells_putInt64 (hseq.minval hmin))
    case isFalse hmin => exact spells_option (by decide)
  · split
    case isTrue hcached =>
      obtain ⟨hlow, hhigh⟩ := hseq.cache hcached
      have hlarge : largest = 9223372036854775799 := rfl
      rw [hcache, List.append_assoc, List.singleton_append]
      exact spells_option_cons (by decide) (spells_putInt (by omega) (by omega))
    case isFalse hcached => exact spells_option (by decide)
  · split
    · exact spells_option (by decide)
    · exact spells_option (by decide)
  · split
    · exact spells_keyword (by decide)
    · exact spells_option (by decide)

theorem printed_char {none val : Int} {c : UInt8} (hc : c ∈ printSpec none val 0) :
    isDigit c = true ∨ c = 45 := by
  by_cases hnone : val = none
  · rw [printSpec, if_pos hnone] at hc
    cases hc
  · rw [printSpec_plain hnone, List.mem_append, List.mem_reverse] at hc
    obtain hsign | hdigit := hc
    · split at hsign
      · exact .inr (List.mem_singleton.mp hsign)
      · cases hsign
    · exact .inl (revertedDigits_digits _ _ hdigit)

theorem brace_not_printed (val : Int) : 125 ∉ int64spec2str val 0 :=
  fun hmem => (printed_char hmem).elim (fun h => absurd h (by decide))
    fun h => absurd h (by decide)

theorem symbols_valueComment (val : Int) (rest : List UInt8) :
    symbols cs (valueComment val ++ rest) = symbols cs rest := by
  have hbody : 125 ∉ int64spec2str val 0 ++
      List.replicate (30 - (int64spec2str val 0).length) 32 := by
    rw [List.mem_append, List.mem_replicate]
    exact fun hmem => hmem.elim (brace_not_printed val) fun hblank => absurd hblank.2 (by decide)
  rw [valueComment, List.append_assoc, List.cons_append, List.cons_append, symbols_comment hbody,
    symbols_newLine]

/-- The printed definition. -/
theorem symbols_sequenceToSource (hseq : Printable seq) (hgrave : 96 ∉ seq.name)
    (hline : 10 ∉ seq.name) (hne : seq.name ≠ []) :
    symbols cs (sequenceToSource seq false) =
      keyword "CREATE" :: keyword "SEQUENCE" :: .ident (nameOf cs seq.name) ::
        (optionSymbols seq).flatten := by
  obtain ⟨-, -, -, -, -, hsequence⟩ := ascii_blank
  obtain ⟨⟨hcapital, hword, hlength⟩, hsymbol⟩ := wordSymbol_keyword "CREATE" (by decide)
  obtain ⟨⟨hcapital', hword', hlength'⟩, hsymbol'⟩ := wordSymbol_keyword "SEQUENCE" (by decide)
  rw [sequenceToSource, symbols_valueComment, if_neg Bool.false_ne_true, hsequence,
    List.cons_append, symbols_word_blank rfl hcapital hword hlength, List.append_assoc,
    List.singleton_append, symbols_word_blank rfl hcapital' hword' hlength',
    symbols_quoted hgrave hline hne, symbols_newLine, optionLines,
    symbols_lines (optionTexts_spelled hseq), hsymbol, hsymbol']

end Texts

end Sql602.Sequences
