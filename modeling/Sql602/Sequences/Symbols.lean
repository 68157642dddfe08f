import Sql602.Convert.IntegerConversion

namespace Sql602.Sequences

open Sql602.Convert

/-! The symbols of the compiler, as far as definitions of sequences are written
with them. -/

def ascii (word : String) : List UInt8 := word.toList.map fun c => UInt8.ofNat c.toNat

def sqlKeynames : List (List UInt8) := [
  "ADD", "AFTER", "ALL", "ALTER", "AND", "ANY", "AS", "ASC", "AUTHOR", "AUTOR", "AVG",
  "BEFORE", "BEGIN", "BETWEEN", "BIGINT", "BINARY", "BIPTR", "BIT", "BLOB", "BOOLEAN", "BY",
  "CALL", "CASCADE", "CASE", "CAST", "CHAR", "CHARACTER", "CHECK", "CLOB", "CLOSE",
  "COALESCE", "COLLATE", "COMMIT", "CONCAT", "CONDITION", "CONSTANT", "CONSTRAINT",
  "CONTINUE", "CORRESPONDING", "COUNT", "CREATE", "CROSS", "CURRENT", "CURSOR", "DATE",
  "DATIM", "DEC", "DECIMAL", "DECLARE", "DEFAULT", "DELETE", "DESC", "DISTINCT", "DIV", "DO",
  "DOMAIN", "DOUBLE", "DROP", "ELSE", "ELSEIF", "END", "ESCAPE", "EXCEPT", "EXISTS", "EXIT",
  "EXTERNAL", "FETCH", "FLOAT", "FOR", "FOREIGN", "FROM", "FULL", "FUNCTION", "GRANT",
  "GROUP", "HANDLER", "HAVING", "HISTORY", "IF", "IN", "INDEX", "INNER", "INOUT", "INSERT",
  "INT", "INTEGER", "INTERSECT", "INTO", "IS", "JOIN", "KEY", "LARGE", "LEAVE", "LEFT",
  "LIKE", "LONG", "LOOP", "MAX", "MIN", "MOD", "NATIONAL", "NATURAL", "NCHAR", "NCLOB",
  "NOT", "NULL", "NULLIF", "NUMERIC", "OBJECT", "OF", "ON", "OPEN", "OR", "ORDER", "OTHERS",
  "OUT", "OUTER", "POINTER", "PRECISION", "PRIMARY", "PROCEDURE", "PUBLIC", "REAL", "REDO",
  "REFERENCES", "REFERENCING", "RELEASE", "REPEAT", "RESIGNAL", "RESTRICT", "RETURN",
  "RETURNS", "REVOKE", "RIGHT", "ROLLBACK", "SAVEPOINT", "SCHEMA", "SELECT", "SEQUENCE",
  "SET", "SIGNAL", "SIGNATURE", "SMALLINT", "SOME", "SQLEXCEPTION", "SQLSTATE",
  "SQLWARNING", "START", "SUM", "TABLE", "THEN", "TIME", "TIMESTAMP", "TINYINT", "TO",
  "TRIGGER", "TUPLE", "UNDO", "UNION", "UNIQUE", "UNTIL", "UPDATABLE", "UPDATE", "USER",
  "USING", "VALUES", "VARBINARY", "VARCHAR", "VARYING", "VIEW", "WHEN", "WHERE", "WHILE",
  "WITH"].map ascii

/-- `bad` stands where the compiler reports an error in the text. -/
inductive Symbol where
  | keyword (name : List UInt8)
  | ident (name : List UInt8)
  | integer (n : Nat)
  | minus
  | plus
  | dot
  | other (c : UInt8)
  | bad
  deriving DecidableEq

/-- The character set of the source. Under `quotedIdent` a text between double
quotes is a string, otherwise it is an identifier. -/
structure Charset where
  isAlpha : UInt8 → Bool
  upcase : UInt8 → UInt8
  quotedIdent : Bool
  alpha_ascii : ∀ c : UInt8, c < 128 → isAlpha c = decide (65 ≤ c ∧ c ≤ 90 ∨ 97 ≤ c ∧ c ≤ 122)
  upcase_capital : ∀ c : UInt8, 65 ≤ c → c ≤ 90 → upcase c = c
  upcase_ascii : ∀ c, upcase c < 128 → upcase c = c ∨ (65 ≤ upcase c ∧ upcase c ≤ 90)

section Lexer

variable (cs : Charset)

def isSpace (c : UInt8) : Bool := c = 32 ∨ c = 13 ∨ c = 10 ∨ c = 9

def isWordChar (c : UInt8) : Bool := cs.isAlpha c || isDigit c || c = 95

/-- The name that is left of an identifier. -/
def nameOf (word : List UInt8) : List UInt8 := (word.take 31).map cs.upcase

def wordSymbol (name : List UInt8) : Symbol :=
  if name ∈ sqlKeynames then .keyword name else .ident name

/-- The character code is compared, so that no digit may follow a tenth of the
largest number. -/
def scanNumber : Nat → List UInt8 → Option Nat
  | currInt, [] => some currInt
  | currInt, c :: num =>
      if (MAXBIGINT / 10 ≤ (currInt : Int)) ∧
          (MAXBIGINT / 10 < (currInt : Int) ∨ MAXBIGINT % 10 < (c.toNat : Int)) then none
      else scanNumber (10 * currInt + digitOf c) num

def numberSymbol (num : List UInt8) : Symbol :=
  if 30 ≤ num.length then .bad else (scanNumber 0 num).elim .bad .integer

/-- `txt` starts behind the opening quote. -/
def quotedSymbol (quote : UInt8) (txt : List UInt8) : Symbol :=
  let name := txt.takeWhile (· ≠ quote)
  if name = [] ∨ 10 ∈ name ∨ name.length = txt.length then .bad else .ident (nameOf cs name)

theorem dropWhile_lt (p : UInt8 → Bool) (txt : List UInt8) :
    (txt.dropWhile p).length < txt.length + 1 :=
  Nat.lt_succ_of_le (List.length_dropWhile_le p txt)

theorem drop_lt (p : UInt8 → Bool) (txt : List UInt8) :
    ((txt.dropWhile p).drop 1).length < txt.length + 1 := by
  rw [List.length_drop]
  have hlt := dropWhile_lt p txt
  omega

/-- Literals with a prefix, times, reals and the forms of ODBC are not among the
symbols of a sequence. -/
def symbols (txt : List UInt8) : List Symbol :=
  match txt with
  | [] => []
  | c :: txt =>
      if isSpace c then symbols txt
      else if c = 123 then
        if 125 ∈ txt then symbols ((txt.dropWhile (· ≠ 125)).drop 1) else [.bad]
      else if c = 45 ∧ charAt txt = 45 then
        symbols (txt.dropWhile fun c => c ≠ 13 ∧ c ≠ 10)
      else if c = 45 then .minus :: symbols txt
      else if c = 43 then .plus :: symbols txt
      else if c = 46 then .dot :: symbols txt
      else if c = 96 ∨ (c = 34 ∧ cs.quotedIdent = false) then
        quotedSymbol cs c txt :: symbols ((txt.dropWhile (· ≠ c)).drop 1)
      else if cs.isAlpha c ∨ c = 95 then
        wordSymbol (nameOf cs (c :: txt.takeWhile (isWordChar cs))) ::
          symbols (txt.dropWhile (isWordChar cs))
      else if isDigit c then
        numberSymbol (c :: txt.takeWhile isDigit) :: symbols (txt.dropWhile isDigit)
      else .other c :: symbols txt
termination_by txt.length
decreasing_by
  all_goals first
    | exact Nat.lt_succ_self _
    | exact dropWhile_lt ..
    | exact drop_lt ..

end Lexer

/-! The symbols that a text starts with. -/

abbrev IsCapital (c : UInt8) : Prop := 65 ≤ c ∧ c ≤ 90

section Reading

variable {cs : Charset} {rest : List UInt8}

theorem capital_ne {c d : UInt8} (hc : IsCapital c) (hd : ¬ IsCapital d) : c ≠ d :=
  fun heq => hd (heq ▸ hc)

theorem capital_alpha {c : UInt8} (hc : IsCapital c) : cs.isAlpha c = true := by
  rw [cs.alpha_ascii c (UInt8.lt_of_le_of_lt hc.2 (by decide)), decide_eq_true_eq]
  exact .inl hc

theorem symbols_space {c : UInt8} (hc : isSpace c = true) :
    symbols cs (c :: rest) = symbols cs rest := by
  rw [symbols, if_pos hc]

theorem symbols_minus (hrest : charAt rest ≠ 45) :
    symbols cs (45 :: rest) = .minus :: symbols cs rest := by
  rw [symbols, if_neg (by decide), if_neg (by decide), if_neg (fun h => hrest h.2), if_pos rfl]

theorem takeWhile_stop {p : UInt8 → Bool} {word : List UInt8} (hword : ∀ c ∈ word, p c = true)
    (hrest : ∀ c ∈ rest.head?, p c = false) : (word ++ rest).takeWhile p = word := by
  rw [List.takeWhile_append_of_pos hword]
  cases rest with
  | nil => rw [List.takeWhile_nil, List.append_nil]
  | cons c rest =>
      rw [List.takeWhile_cons, hrest c rfl, if_neg Bool.false_ne_true, List.append_nil]

theorem dropWhile_stop {p : UInt8 → Bool} {word : List UInt8} (hword : ∀ c ∈ word, p c = true)
    (hrest : ∀ c ∈ rest.head?, p c = false) : (word ++ rest).dropWhile p = rest := by
  rw [List.dropWhile_append_of_pos hword]
  cases rest with
  | nil => rfl
  | cons c rest => rw [List.dropWhile_cons, hrest c rfl, if_neg Bool.false_ne_true]

theorem symbols_comment {body : List UInt8} (hbody : 125 ∉ body) :
    symbols cs (123 :: (body ++ 125 :: rest)) = symbols cs rest := by
  have hmem : 125 ∈ body ++ 125 :: rest := List.mem_append_right _ List.mem_cons_self
  have hdrop : (body ++ 125 :: rest).dropWhile (· ≠ 125) = 125 :: rest := by
    refine dropWhile_stop (fun c hc => ?_) (fun c hc => ?_)
    · rw [decide_eq_true_eq]
      exact fun heq => hbody (heq ▸ hc)
    · cases hc
      rfl
  rw [symbols, if_neg (by decide), if_pos rfl, if_pos hmem, hdrop]
  rfl

theorem symbols_word {word : List UInt8} (hword : ∀ c ∈ word, IsCapital c) (hne : word ≠ [])
    (hlength : word.length ≤ 31) (hrest : ∀ c ∈ rest.head?, isWordChar cs c = false) :
    symbols cs (word ++ rest) = wordSymbol word :: symbols cs rest := by
  cases word with
  | nil => exact absurd rfl hne
  | cons c word =>
      have hc := hword c List.mem_cons_self
      have hchars : ∀ d ∈ word, isWordChar cs d = true := by
        intro d hd
        rw [isWordChar, capital_alpha (hword d (List.mem_cons_of_mem _ hd)), Bool.true_or,
          Bool.true_or]
      have hname : nameOf cs (c :: word) = c :: word := by
        rw [nameOf, List.take_of_length_le hlength]
        refine (List.map_congr_left fun d hd => ?_).trans (List.map_id _)
        exact cs.upcase_capital d (hword d hd).1 (hword d hd).2
      have hnot : ∀ d ∈ [32, 13, 10, 9, 123, 45, 43, 46, 96, 34], c ≠ d := by
        intro d hd
        refine capital_ne hc ?_
        unfold IsCapital
        revert d
        decide +kernel
      simp only [List.mem_cons, List.not_mem_nil, or_false, forall_eq_or_imp, forall_eq] at hnot
      obtain ⟨h32, h13, h10, h9, h123, h45, h43, h46, h96, h34⟩ := hnot
      have hspace : isSpace c = false := by
        simp only [isSpace, h32, h13, h10, h9, or_self, decide_false]
      rw [List.cons_append, symbols, hspace, if_neg Bool.false_ne_true, if_neg h123,
        if_neg (fun h => h45 h.1), if_neg h45, if_neg h43, if_neg h46,
        if_neg (fun h => h.elim h96 fun h => h34 h.1), if_pos (.inl (capital_alpha hc)),
        takeWhile_stop hchars hrest, dropWhile_stop hchars hrest, hname]

theorem digit_symbol {c : UInt8} (hc : isDigit c = true) :
    isSpace c = false ∧ c ∉ [123, 45, 43, 46, 96, 34, 95] ∧ cs.isAlpha c = false := by
  obtain ⟨hlow, hhigh⟩ := of_decide_eq_true hc
  have hnot : ∀ d : UInt8, ¬ (48 ≤ d ∧ d ≤ 57) → c ≠ d := fun d hd heq => hd (heq ▸ ⟨hlow, hhigh⟩)
  refine ⟨?_, ?_, ?_⟩
  · simp only [isSpace, hnot 32 (by decide), hnot 13 (by decide), hnot 10 (by decide),
      hnot 9 (by decide), or_self, decide_false]
  · intro hmem
    have hplain : ∀ d ∈ [123, 45, 43, 46, 96, 34, 95], ¬ ((48 : UInt8) ≤ d ∧ d ≤ 57) := by
      decide +kernel
    exact hplain c hmem ⟨hlow, hhigh⟩
  · rw [cs.alpha_ascii c (UInt8.lt_of_le_of_lt hhigh (by decide)), decide_eq_false_iff_not]
    rintro (⟨hletter, -⟩ | ⟨hletter, -⟩)
    · exact absurd (UInt8.le_trans hletter hhigh) (by decide)
    · exact absurd (UInt8.le_trans hletter hhigh) (by decide)

theorem symbols_number {num : List UInt8} (hnum : AllDigits num) (hne : num ≠ [])
    (hrest : ∀ c ∈ rest.head?, isDigit c = false) :
    symbols cs (num ++ rest) = numberSymbol num :: symbols cs rest := by
  cases num with
  | nil => exact absurd rfl hne
  | cons c num =>
      have hc := hnum c List.mem_cons_self
      obtain ⟨hspace, hmem, halpha⟩ :
          isSpace c = false ∧ c ∉ [123, 45, 43, 46, 96, 34, 95] ∧ cs.isAlpha c = false :=
        digit_symbol hc
      simp only [List.mem_cons, List.not_mem_nil, or_false, not_or] at hmem
      obtain ⟨h123, h45, h43, h46, h96, h34, h95⟩ := hmem
      have hdigits : ∀ d ∈ num, isDigit d = true := fun d hd => hnum d (List.mem_cons_of_mem _ hd)
      have hword : ¬ (cs.isAlpha c = true ∨ c = 95) := by
        rw [halpha]
        exact fun h => h.elim Bool.false_ne_true h95
      rw [List.cons_append, symbols, hspace, if_neg Bool.false_ne_true, if_neg h123,
        if_neg (fun h => h45 h.1), if_neg h45, if_neg h43, if_neg h46,
        if_neg (fun h => h.elim h96 fun h => h34 h.1), if_neg hword, if_pos hc,
        takeWhile_stop hdigits hrest, dropWhile_stop hdigits hrest]

theorem symbols_quoted {name : List UInt8} (hquote : 96 ∉ name) (hline : 10 ∉ name)
    (hne : name ≠ []) :
    symbols cs (96 :: (name ++ 96 :: rest)) = .ident (nameOf cs name) :: symbols cs rest := by
  have hchars : ∀ c ∈ name, decide (c ≠ 96) = true := by
    intro c hc
    rw [decide_eq_true_eq]
    exact fun heq => hquote (heq ▸ hc)
  have hstop : ∀ c ∈ (96 :: rest).head?, decide (c ≠ 96) = false := by
    intro c hc
    cases hc
    rfl
  have hlength : name.length ≠ (name ++ 96 :: rest).length := by
    rw [List.length_append, List.length_cons]
    omega
  rw [symbols, if_neg (by decide), if_neg (by decide), if_neg (fun h => absurd h.1 (by decide)),
    if_neg (by decide), if_neg (by decide), if_neg (by decide), if_pos (.inl rfl),
    quotedSymbol, takeWhile_stop hchars hstop, dropWhile_stop hchars hstop,
    if_neg (fun h => h.elim hne fun h => h.elim hline hlength)]
  rfl

theorem mem_of_nameOf {c : UInt8} {word : List UInt8} (hascii : c < 128) (hplain : ¬ IsCapital c)
    (hc : c ∈ nameOf cs word) : c ∈ word := by
  obtain ⟨d, hd, rfl⟩ := List.mem_map.mp hc
  obtain heq | hcapital := cs.upcase_ascii d hascii
  · rw [heq]
    exact List.mem_of_mem_take hd
  · exact absurd hcapital hplain

theorem grave_of_nameOf {word : List UInt8} (hgrave : 96 ∈ nameOf cs word) : 96 ∈ word :=
  mem_of_nameOf (by decide) (by decide) hgrave

theorem nameOf_length (word : List UInt8) : (nameOf cs word).length ≤ word.length := by
  rw [nameOf, List.length_map]
  exact List.length_take_le' ..

theorem grave_plain : isWordChar cs 96 = false := by
  rw [isWordChar, cs.alpha_ascii 96 (by decide)]
  decide

/-- Between double quotes, as far as the closing one. -/
theorem quotedSymbol_ident {quote : UInt8} {txt name : List UInt8}
    (hident : quotedSymbol cs quote txt = .ident name) :
    ∃ quoted behind, txt = quoted ++ quote :: behind ∧ quote ∉ quoted ∧
      nameOf cs quoted = name := by
  rw [quotedSymbol] at hident
  split at hident
  case isTrue hbad => cases hident
  case isFalse hplain =>
    rw [Symbol.ident.injEq] at hident
    have hsplit := List.takeWhile_append_dropWhile (p := (· ≠ quote)) (l := txt)
    cases hdrop : txt.dropWhile (· ≠ quote) with
    | nil =>
        rw [hdrop, List.append_nil] at hsplit
        exact absurd (.inr (.inr (congrArg List.length hsplit))) hplain
    | cons c behind =>
        have hc := List.head?_dropWhile_not (· ≠ quote) txt
        rw [hdrop] at hc hsplit
        have heq : c = quote := by
          simpa only [List.head?_cons, decide_not, Bool.not_eq_false', decide_eq_true_eq] using hc
        subst heq
        refine ⟨_, behind, hsplit.symm, fun hmem => ?_, hident⟩
        have hne := List.mem_takeWhile_imp hmem
        simp at hne

/-- A name with a grave accent has been read between double quotes. -/
theorem symbols_ident {txt name : List UInt8} (hident : Symbol.ident name ∈ symbols cs txt)
    (hgrave : 96 ∈ name) :
    ∃ front quoted behind, txt = front ++ 34 :: (quoted ++ 34 :: behind) ∧
      name.length ≤ quoted.length := by
  have hsuffix : ∀ {c : UInt8} {txt rest : List UInt8}, rest <:+ txt →
      (∃ front quoted behind, rest = front ++ 34 :: (quoted ++ 34 :: behind) ∧
        name.length ≤ quoted.length) →
      ∃ front quoted behind, c :: txt = front ++ 34 :: (quoted ++ 34 :: behind) ∧
        name.length ≤ quoted.length := by
    rintro c txt rest ⟨skipped, rfl⟩ ⟨front, quoted, behind, rfl, hlength⟩
    refine ⟨c :: skipped ++ front, quoted, behind, ?_, hlength⟩
    simp only [List.cons_append, List.append_assoc]
  induction txt using symbols.induct cs with
  | case1 =>
      rw [symbols] at hident
      cases hident
  | case2 c txt hspace ih =>
      rw [symbols, if_pos hspace] at hident
      exact hsuffix (List.suffix_refl _) (ih hident)
  | case3 txt hmem hspace ih =>
      rw [symbols, if_neg hspace, if_pos rfl, if_pos hmem] at hident
      exact hsuffix ((List.drop_suffix ..).trans (List.dropWhile_suffix _)) (ih hident)
  | case4 txt hmem hspace =>
      rw [symbols, if_neg hspace, if_pos rfl, if_neg hmem] at hident
      cases hident with
      | tail _ hrest => cases hrest
  | case5 c txt hspace h123 hline ih =>
      rw [symbols, if_neg hspace, if_neg h123, if_pos hline] at hident
      exact hsuffix (List.dropWhile_suffix _) (ih hident)
  | case6 txt hspace h123 hline ih =>
      rw [symbols, if_neg hspace, if_neg h123, if_neg hline, if_pos rfl] at hident
      cases hident with
      | tail _ hrest => exact hsuffix (List.suffix_refl _) (ih hrest)
  | case7 txt hspace h123 hline h45 ih =>
      rw [symbols, if_neg hspace, if_neg h123, if_neg hline, if_neg h45, if_pos rfl] at hident
      cases hident with
      | tail _ hrest => exact hsuffix (List.suffix_refl _) (ih hrest)
  | case8 txt hspace h123 hline h45 h43 ih =>
      rw [symbols, if_neg hspace, if_neg h123, if_neg hline, if_neg h45, if_neg h43,
        if_pos rfl] at hident
      cases hident with
      | tail _ hrest => exact hsuffix (List.suffix_refl _) (ih hrest)
  | case9 c txt hspace h123 hline h45 h43 h46 hquote ih =>
      rw [symbols, if_neg hspace, if_neg h123, if_neg hline, if_neg h45, if_neg h43,
        if_neg h46, if_pos hquote, List.mem_cons] at hident
      obtain hhead | hrest := hident
      · obtain ⟨quoted, behind, rfl, hnot, rfl⟩ := quotedSymbol_ident hhead.symm
        obtain rfl | ⟨rfl, -⟩ := hquote
        · exact absurd (grave_of_nameOf hgrave) hnot
        · exact ⟨[], quoted, behind, rfl, nameOf_length quoted⟩
      · exact hsuffix ((List.drop_suffix ..).trans (List.dropWhile_suffix _)) (ih hrest)
  | case10 c txt hspace h123 hline h45 h43 h46 hquote hword ih =>
      rw [symbols, if_neg hspace, if_neg h123, if_neg hline, if_neg h45, if_neg h43,
        if_neg h46, if_neg hquote, if_pos hword, List.mem_cons] at hident
      obtain hhead | hrest := hident
      · rw [wordSymbol] at hhead
        split at hhead
        · cases hhead
        · rw [Symbol.ident.injEq] at hhead
          rw [hhead] at hgrave
          have hplain : isWordChar cs 96 = false := grave_plain
          obtain heq | htail := List.mem_cons.mp (grave_of_nameOf hgrave)
          · exact absurd (.inl heq.symm) hquote
          · rw [List.mem_takeWhile_imp htail] at hplain
            cases hplain
      · exact hsuffix (List.dropWhile_suffix _) (ih hrest)
  | case11 c txt hspace h123 hline h45 h43 h46 hquote hword hdigit ih =>
      rw [symbols, if_neg hspace, if_neg h123, if_neg hline, if_neg h45, if_neg h43,
        if_neg h46, if_neg hquote, if_neg hword, if_pos hdigit, List.mem_cons] at hident
      obtain hhead | hrest := hident
      · rw [numberSymbol] at hhead
        split at hhead
        · cases hhead
        · cases hscan : scanNumber 0 (c :: txt.takeWhile isDigit) <;> rw [hscan] at hhead <;>
            cases hhead
      · exact hsuffix (List.dropWhile_suffix _) (ih hrest)
  | case12 c txt hspace h123 hline h45 h43 h46 hquote hword hdigit ih =>
      rw [symbols, if_neg hspace, if_neg h123, if_neg hline, if_neg h45, if_neg h43,
        if_neg h46, if_neg hquote, if_neg hword, if_neg hdigit] at hident
      cases hident with
      | tail _ hrest => exact hsuffix (List.suffix_refl _) (ih hrest)

theorem scanNumber_eq {v : Nat} {num : List UInt8}
    (hfits : numberFrom v num ≤ 9223372036854775799) :
    scanNumber v num = some (numberFrom v num) := by
  induction num generalizing v with
  | nil => rfl
  | cons c num ih =>
      rw [numberFrom_cons] at hfits ⊢
      have hle := le_numberFrom (10 * v + digitOf c) num
      have htenth : MAXBIGINT / 10 = 922337203685477580 := by decide
      rw [scanNumber, if_neg (fun h => by rw [htenth] at h; omega)]
      exact ih hfits

theorem numberSymbol_eq {num : List UInt8} (hlength : num.length < 30)
    (hfits : numberFrom 0 num ≤ 9223372036854775799) :
    numberSymbol num = .integer (numberFrom 0 num) := by
  rw [numberSymbol, if_neg (Nat.not_le.mpr hlength), scanNumber_eq hfits]
  rfl

/-- What the compiler can make of a text: a number that fits, a name of an object. -/
def Lexed : Symbol → Prop
  | .integer n => n ≤ 9223372036854775799
  | .ident name => name ≠ [] ∧ name.length ≤ 31 ∧ 10 ∉ name
  | _ => True

theorem nameOf_lexed {word : List UInt8} (hne : word ≠ []) (hline : 10 ∉ word) :
    Lexed (.ident (nameOf cs word)) := by
  refine ⟨fun heq => ?_, ?_, fun hmem => hline (mem_of_nameOf (by decide) (by decide) hmem)⟩
  · rw [nameOf, List.map_eq_nil_iff, List.take_eq_nil_iff] at heq
    exact heq.elim (by decide) hne
  · rw [nameOf, List.length_map]
    exact List.length_take_le ..

theorem scanNumber_le {v n : Nat} {num : List UInt8} (hnum : ∀ c ∈ num, isDigit c = true)
    (hv : v ≤ 9223372036854775799) (hscan : scanNumber v num = some n) :
    n ≤ 9223372036854775799 := by
  induction num generalizing v with
  | nil =>
      cases hscan
      exact hv
  | cons c num ih =>
      have hc := of_decide_eq_true (hnum c List.mem_cons_self)
      have hdigit := digitOf_lt (hnum c List.mem_cons_self)
      have hcode : 48 ≤ c.toNat := UInt8.le_iff_toNat_le.mp hc.1
      have htenth : MAXBIGINT / 10 = 922337203685477580 := by decide
      have hlast : MAXBIGINT % 10 = 7 := by decide
      rw [scanNumber] at hscan
      split at hscan
      case isTrue hlarge => cases hscan
      case isFalse hsmall =>
        refine ih (fun d hd => hnum d (List.mem_cons_of_mem _ hd)) ?_ hscan
        rw [htenth, hlast] at hsmall
        omega

theorem quotedSymbol_lexed (quote : UInt8) (txt : List UInt8) :
    Lexed (quotedSymbol cs quote txt) := by
  rw [quotedSymbol]
  split
  case isTrue hbad => trivial
  case isFalse hplain =>
    exact nameOf_lexed (fun hne => hplain (.inl hne)) (fun hline => hplain (.inr (.inl hline)))

theorem wordSymbol_lexed {word : List UInt8} (hne : word ≠ [])
    (hword : ∀ c ∈ word, isWordChar cs c = true) : Lexed (wordSymbol (nameOf cs word)) := by
  have hline : isWordChar cs 10 = false := by
    rw [isWordChar, cs.alpha_ascii 10 (by decide)]
    decide
  rw [wordSymbol]
  split
  · trivial
  · refine nameOf_lexed hne fun hmem => ?_
    rw [hword 10 hmem] at hline
    cases hline

theorem numberSymbol_lexed {num : List UInt8} (hnum : ∀ c ∈ num, isDigit c = true) :
    Lexed (numberSymbol num) := by
  rw [numberSymbol]
  split
  · trivial
  · cases hscan : scanNumber 0 num with
    | none => trivial
    | some n => exact scanNumber_le hnum (Nat.zero_le _) hscan

theorem takeWhile_all {p : UInt8 → Bool} {c : UInt8} (txt : List UInt8) (hc : p c = true) :
    ∀ d ∈ c :: txt.takeWhile p, p d = true := by
  rintro d (- | ⟨-, hd⟩)
  · exact hc
  · exact List.mem_takeWhile_imp hd

theorem symbols_lexed {txt : List UInt8} {sym : Symbol} (hsym : sym ∈ symbols cs txt) :
    Lexed sym := by
  induction txt using symbols.induct cs with
  | case1 =>
      rw [symbols] at hsym
      cases hsym
  | case2 c txt hspace ih =>
      rw [symbols, if_pos hspace] at hsym
      exact ih hsym
  | case3 txt hmem hspace ih =>
      rw [symbols, if_neg hspace, if_pos rfl, if_pos hmem] at hsym
      exact ih hsym
  | case4 txt hmem hspace =>
      rw [symbols, if_neg hspace, if_pos rfl, if_neg hmem, List.mem_singleton] at hsym
      rw [hsym]
      trivial
  | case5 c txt hspace h123 hline ih =>
      rw [symbols, if_neg hspace, if_neg h123, if_pos hline] at hsym
      exact ih hsym
  | case6 txt hspace h123 hline ih =>
      rw [symbols, if_neg hspace, if_neg h123, if_neg hline, if_pos rfl] at hsym
      exact (List.mem_cons.mp hsym).elim (fun heq => heq ▸ trivial) ih
  | case7 txt hspace h123 hline h45 ih =>
      rw [symbols, if_neg hspace, if_neg h123, if_neg hline, if_neg h45, if_pos rfl] at hsym
      exact (List.mem_cons.mp hsym).elim (fun heq => heq ▸ trivial) ih
  | case8 txt hspace h123 hline h45 h43 ih =>
      rw [symbols, if_neg hspace, if_neg h123, if_neg hline, if_neg h45, if_neg h43,
        if_pos rfl] at hsym
      exact (List.mem_cons.mp hsym).elim (fun heq => heq ▸ trivial) ih
  | case9 c txt hspace h123 hline h45 h43 h46 hquote ih =>
      rw [symbols, if_neg hspace, if_neg h123, if_neg hline, if_neg h45, if_neg h43,
        if_neg h46, if_pos hquote] at hsym
      exact (List.mem_cons.mp hsym).elim (fun heq => heq ▸ quotedSymbol_lexed c txt) ih
  | case10 c txt hspace h123 hline h45 h43 h46 hquote hword ih =>
      have hc : isWordChar cs c = true := by
        rw [isWordChar]
        obtain halpha | rfl := hword
        · rw [halpha]
          rfl
        · rw [decide_eq_true rfl, Bool.or_true]
      rw [symbols, if_neg hspace, if_neg h123, if_neg hline, if_neg h45, if_neg h43,
        if_neg h46, if_neg hquote, if_pos hword] at hsym
      exact (List.mem_cons.mp hsym).elim
        (fun heq => heq ▸ wordSymbol_lexed (List.cons_ne_nil _ _) (takeWhile_all txt hc)) ih
  | case11 c txt hspace h123 hline h45 h43 h46 hquote hword hdigit ih =>
      rw [symbols, if_neg hspace, if_neg h123, if_neg hline, if_neg h45, if_neg h43,
        if_neg h46, if_neg hquote, if_neg hword, if_pos hdigit] at hsym
      exact (List.mem_cons.mp hsym).elim
        (fun heq => heq ▸ numberSymbol_lexed (takeWhile_all txt hdigit)) ih
  | case12 c txt hspace h123 hline h45 h43 h46 hquote hword hdigit ih =>
      rw [symbols, if_neg hspace, if_neg h123, if_neg hline, if_neg h45, if_neg h43,
        if_neg h46, if_neg hquote, if_neg hword, if_neg hdigit] at hsym
      exact (List.mem_cons.mp hsym).elim (fun heq => heq ▸ trivial) ih

end Reading

end Sql602.Sequences
