import Mathlib.Data.List.Basic
import Sql602.Collation.Weights
import Sql602.Library.Wildcards

namespace Sql602.Texts

open Wildcards Collation

/-! The LIKE operator. Strings and patterns have the terminator 0, and what is behind it cannot
be read: such a reading gives no result. -/

def PERCENT : Nat := 37

def UNDERSCORE : Nat := 95

section Matching

variable (fold : Nat → Nat) (esc : Nat)

/-- The character of the pattern may be its terminator. -/
def compareChar (next : List Nat → Option Bool) (pattchar : Nat) : List Nat → Option Bool
  | [] => none
  | c :: str =>
      if fold pattchar ≠ fold c then some false
      else if pattchar = 0 then some true else next str

/-- The rest of the pattern is matched with the string and all its suffixes. -/
def matchSuffixes (rest : List Nat → Option Bool) : List Nat → Option Bool
  | [] => (rest []).bind fun found => if found then some true else none
  | c :: str => (rest (c :: str)).bind fun found =>
      if found then some true else if c = 0 then some false else matchSuffixes rest str

/-- Any character but the terminator. -/
def skipChar (next : List Nat → Option Bool) : List Nat → Option Bool
  | [] => none
  | c :: str => if c = 0 then some false else next str

def likeChars : List Nat → List Nat → Option Bool
  | [], _ => none
  | c :: patt, str =>
      if esc ≠ 0 ∧ c = esc then
        match patt with
        | [] => none
        | pattchar :: patt => compareChar fold (likeChars patt) pattchar str
      else if c = PERCENT then matchSuffixes (likeChars patt) str
      else if c = UNDERSCORE then skipChar (likeChars patt) str
      else compareChar fold (likeChars patt) c str

end Matching

section CharacterSets

/-- The codes of ISO character sets have the highest bit. -/
structure Charset where
  code : Nat
  supported : code < 6 ∨ 128 ≤ code ∧ code < 134

def Charset.isWb8 (charset : Charset) : Bool := 1 < charset.code

def cUPCASE (c : Nat) : Nat := csconv[c]?.getD 0

def upcaseCharA (charset : Charset) (c : Nat) : Nat := (caseTable charset.code)[c]?.getD 0

/-- The characters of a code page as wide ones; those of ASCII do not change. -/
structure CodePage where
  toWide : Nat → Nat
  ascii : ∀ c < 128, toWide c = c
  injective : ∀ c < 256, ∀ d < 256, toWide c = toWide d → c = d

/-- The upper case of wide characters is that of the system. -/
structure WideCase where
  upcaseCharW : Nat → Nat
  terminator : ∀ c, upcaseCharW c = 0 ↔ c = 0

def Charset.fold (charset : Charset) (ignore : Bool) : Nat → Nat :=
  if ignore then if charset.isWb8 then upcaseCharA charset else cUPCASE else id

def WideCase.fold (wide : WideCase) (ignore : Bool) : Nat → Nat :=
  if ignore then wide.upcaseCharW else id

def likeEsc (str patt : List Nat) (esc : Nat) (ignore : Bool) (charset : Charset) :
    Option Bool :=
  likeChars (charset.fold ignore) esc patt str

def wlikeEsc (str patt : List Nat) (esc : Nat) (ignore : Bool) (wide : WideCase) :
    Option Bool :=
  likeChars (wide.fold ignore) esc patt str

end CharacterSets

/-! The language of a pattern. -/

/-- An escape character on the end of a pattern has no part. -/
def pattParts (esc : Nat) : List Nat → List (Wildcards.Part Nat)
  | [] => []
  | c :: patt =>
      if esc ≠ 0 ∧ c = esc then
        match patt with
        | [] => []
        | pattchar :: patt => .same pattchar :: pattParts esc patt
      else if c = PERCENT then .any :: pattParts esc patt
      else if c = UNDERSCORE then .one :: pattParts esc patt
      else .same c :: pattParts esc patt

def terminated (str : List Nat) : List Nat := str ++ [0]

@[simp] theorem terminated_nil : terminated [] = [0] := rfl

@[simp] theorem terminated_cons (c : Nat) (str : List Nat) :
    terminated (c :: str) = c :: terminated str := rfl

def IsChar (c : Nat) : Prop := c ≠ 0 ∧ c < 256

instance (c : Nat) : Decidable (IsChar c) := inferInstanceAs (Decidable (c ≠ 0 ∧ c < 256))

/-- The result is found without reading behind the terminators, and it is the membership in the
language. -/
def Decides (result : Option Bool) (p : Prop) : Prop := ∃ found, result = some found ∧ (found ↔ p)

/-- Both functions decide the language of the pattern, that of the narrow characters. -/
def LikeRight (charset : Charset) (page : CodePage) (wide : WideCase) : Prop :=
  ∀ (str patt : List Nat) (esc : Nat) (ignore : Bool), (∀ c ∈ str, IsChar c) →
    (∀ c ∈ patt, IsChar c) → esc < 256 →
      Decides (likeEsc (terminated str) (terminated patt) esc ignore charset)
          (str ∈ language (charset.fold ignore) (pattParts esc patt)) ∧
        wlikeEsc ((terminated str).map page.toWide) ((terminated patt).map page.toWide)
            (page.toWide esc) ignore wide =
          likeEsc (terminated str) (terminated patt) esc ignore charset

/-- The narrow and the wide upper case make the same characters equal. -/
def FoldsAlike (charset : Charset) (page : CodePage) (wide : WideCase) : Prop :=
  ∀ c d, IsChar c → IsChar d → (charset.fold true c = charset.fold true d ↔
    wide.fold true (page.toWide c) = wide.fold true (page.toWide d))

section Language

variable {fold : Nat → Nat} {esc : Nat} {str patt : List Nat} {p : Prop}

theorem Decides.congr {q : Prop} {result : Option Bool} (hdecides : Decides result p)
    (hpq : p ↔ q) : Decides result q := by
  obtain ⟨found, hresult, hfound⟩ := hdecides
  exact ⟨found, hresult, hfound.trans hpq⟩

theorem decides_true (hp : p) : Decides (some true) p := ⟨true, rfl, iff_of_true rfl hp⟩

theorem decides_false (hp : ¬ p) : Decides (some false) p :=
  ⟨false, rfl, iff_of_false Bool.false_ne_true hp⟩

/-- Only the terminator is equal to the terminator. -/
def OnlyTerminator (fold : Nat → Nat) (str : List Nat) : Prop :=
  ∀ c ∈ str, c ≠ 0 ∧ fold c ≠ fold 0

theorem OnlyTerminator.tail {c : Nat} (honly : OnlyTerminator fold (c :: str)) :
    OnlyTerminator fold str :=
  fun d hd => honly d (List.mem_cons_of_mem c hd)

theorem compareChar_decides {next : List Nat → Option Bool} {parts : List (Wildcards.Part Nat)} {c : Nat}
    (hc : c ≠ 0) (hfold : fold c ≠ fold 0)
    (hnext : ∀ str, OnlyTerminator fold str → Decides (next (terminated str)) (str ∈ language fold parts))
    (hstr : OnlyTerminator fold str) :
    Decides (compareChar fold next c (terminated str)) (str ∈ language fold (.same c :: parts)) := by
  cases str with
  | nil =>
      rw [terminated_nil, compareChar, if_pos hfold]
      exact decides_false (by simp)
  | cons d str =>
      rw [terminated_cons, compareChar, if_neg hc]
      split
      · next hne => exact decides_false fun hin => hne (cons_mem_same.mp hin).1.symm
      · next heq =>
          have hsame := not_not.mp heq
          exact (hnext str hstr.tail).congr (by rw [cons_mem_same, hsame, eq_self, true_and])

/-- The end of the pattern fits the end of the string. -/
theorem compareChar_end {next : List Nat → Option Bool} (hstr : OnlyTerminator fold str) :
    Decides (compareChar fold next 0 (terminated str)) (str ∈ language fold []) := by
  rw [mem_language_nil]
  cases str with
  | nil =>
      rw [terminated_nil, compareChar, if_neg (not_not.mpr rfl), if_pos rfl]
      exact decides_true rfl
  | cons d str =>
      rw [terminated_cons, compareChar, if_pos (hstr d List.mem_cons_self).2.symm]
      exact decides_false (List.cons_ne_nil d str)

theorem matchSuffixes_decides {rest : List Nat → Option Bool} {parts : List (Wildcards.Part Nat)}
    (hrest : ∀ str, OnlyTerminator fold str → Decides (rest (terminated str)) (str ∈ language fold parts))
    (hstr : OnlyTerminator fold str) :
    Decides (matchSuffixes rest (terminated str)) (str ∈ language fold (.any :: parts)) := by
  induction str with
  | nil =>
      obtain ⟨found, hresult, hfound⟩ := hrest [] hstr
      rw [terminated_nil] at hresult ⊢
      rw [matchSuffixes, hresult, Option.bind_some, if_pos (rfl : (0 : Nat) = 0), nil_mem_any]
      exact ⟨found, by cases found <;> rfl, hfound⟩
  | cons c str ih =>
      obtain ⟨found, hresult, hfound⟩ := hrest (c :: str) hstr
      rw [terminated_cons] at hresult ⊢
      rw [matchSuffixes, hresult, Option.bind_some, if_neg (hstr c List.mem_cons_self).1,
        cons_mem_any]
      cases found with
      | true =>
          rw [if_pos rfl]
          exact decides_true (Or.inl (hfound.mp rfl))
      | false =>
          rw [if_neg Bool.false_ne_true]
          refine (ih hstr.tail).congr (or_iff_right fun hin => ?_).symm
          exact Bool.false_ne_true (hfound.mpr hin)

theorem skipChar_decides {next : List Nat → Option Bool} {parts : List (Wildcards.Part Nat)}
    (hnext : ∀ str, OnlyTerminator fold str → Decides (next (terminated str)) (str ∈ language fold parts))
    (hstr : OnlyTerminator fold str) :
    Decides (skipChar next (terminated str)) (str ∈ language fold (.one :: parts)) := by
  cases str with
  | nil =>
      rw [terminated_nil, skipChar, if_pos rfl]
      exact decides_false (by simp)
  | cons d str =>
      rw [terminated_cons, skipChar, if_neg (hstr d List.mem_cons_self).1]
      exact (hnext str hstr.tail).congr cons_mem_one.symm

theorem likeChars_end : likeChars fold esc [0] str = compareChar fold (likeChars fold esc []) 0 str := by
  rw [likeChars.eq_def]
  dsimp only
  rw [if_neg fun hand => hand.1 hand.2.symm, if_neg (by decide), if_neg (by decide)]

theorem likeChars_escaped {c pattchar : Nat} (hesc : esc ≠ 0 ∧ c = esc) :
    likeChars fold esc (c :: pattchar :: patt) str =
      compareChar fold (likeChars fold esc patt) pattchar str := by
  rw [likeChars.eq_def]
  exact if_pos hesc

theorem likeChars_plain {c : Nat} (hesc : ¬ (esc ≠ 0 ∧ c = esc)) :
    likeChars fold esc (c :: patt) str =
      if c = PERCENT then matchSuffixes (likeChars fold esc patt) str
      else if c = UNDERSCORE then skipChar (likeChars fold esc patt) str
      else compareChar fold (likeChars fold esc patt) c str := by
  rw [likeChars.eq_def]
  exact if_neg hesc

theorem pattParts_escaped {c pattchar : Nat} (hesc : esc ≠ 0 ∧ c = esc) :
    pattParts esc (c :: pattchar :: patt) = .same pattchar :: pattParts esc patt := by
  rw [pattParts.eq_def]
  exact if_pos hesc

theorem pattParts_plain {c : Nat} (hesc : ¬ (esc ≠ 0 ∧ c = esc)) :
    pattParts esc (c :: patt) =
      if c = PERCENT then .any :: pattParts esc patt
      else if c = UNDERSCORE then .one :: pattParts esc patt
      else .same c :: pattParts esc patt := by
  rw [pattParts.eq_def]
  exact if_neg hesc

/-- The pattern is consumed as its parts are. -/
theorem likeChars_decides (hpatt : OnlyTerminator fold patt) (hstr : OnlyTerminator fold str) :
    Decides (likeChars fold esc (terminated patt) (terminated str))
      (str ∈ language fold (pattParts esc patt)) := by
  induction patt using pattParts.induct esc generalizing str with
  | case1 =>
      rw [terminated_nil, pattParts, likeChars_end]
      exact compareChar_end hstr
  | case2 c hesc =>
      rw [terminated_cons, terminated_nil, likeChars_escaped hesc, pattParts, if_pos hesc]
      exact compareChar_end hstr
  | case3 c hesc pattchar patt ih =>
      have hchar := hpatt pattchar (List.mem_cons_of_mem c List.mem_cons_self)
      rw [terminated_cons, terminated_cons, likeChars_escaped hesc, pattParts_escaped hesc]
      exact compareChar_decides hchar.1 hchar.2 (fun str hstr => ih hpatt.tail.tail hstr) hstr
  | case4 patt hnot ih =>
      rw [terminated_cons, likeChars_plain hnot, if_pos rfl, pattParts_plain hnot, if_pos rfl]
      exact matchSuffixes_decides (fun str hstr => ih hpatt.tail hstr) hstr
  | case5 patt hnot hpercent ih =>
      rw [terminated_cons, likeChars_plain hnot, if_neg hpercent, if_pos rfl,
        pattParts_plain hnot, if_neg hpercent, if_pos rfl]
      exact skipChar_decides (fun str hstr => ih hpatt.tail hstr) hstr
  | case6 c patt hnot hpercent hunderscore ih =>
      have hchar := hpatt c List.mem_cons_self
      rw [terminated_cons, likeChars_plain hnot, if_neg hpercent, if_neg hunderscore,
        pattParts_plain hnot, if_neg hpercent, if_neg hunderscore]
      exact compareChar_decides hchar.1 hchar.2 (fun str hstr => ih hpatt.tail hstr) hstr

end Language

section Conversion

variable {charset : Charset} {page : CodePage} {wide : WideCase} {str patt : List Nat}
  {esc c : Nat} {ignore : Bool}

theorem CodePage.zero (page : CodePage) : page.toWide 0 = 0 := page.ascii 0 (by decide)

theorem CodePage.eq_ascii {d : Nat} (hc : c < 256) (hd : d < 128) :
    page.toWide c = d ↔ c = d := by
  constructor
  · intro heq
    refine page.injective c hc d (by omega) ?_
    rw [heq, page.ascii d hd]
  · rintro rfl
    exact page.ascii c hd

theorem CodePage.terminated_map (page : CodePage) (str : List Nat) :
    (terminated str).map page.toWide = terminated (str.map page.toWide) := by
  rw [terminated, List.map_append, List.map_singleton, page.zero]
  rfl

/-- The conversion does not change the meaning of a pattern. -/
theorem pattParts_map (hpatt : ∀ c ∈ patt, IsChar c) (hesc : esc < 256) :
    pattParts (page.toWide esc) (patt.map page.toWide) =
      (pattParts esc patt).map (Wildcards.Part.map page.toWide) := by
  have hnone : page.toWide esc = 0 ↔ esc = 0 := page.eq_ascii hesc (by decide)
  have hsame : ∀ c, IsChar c → (page.toWide esc ≠ 0 ∧ page.toWide c = page.toWide esc ↔
      esc ≠ 0 ∧ c = esc) := by
    intro c hc
    refine and_congr (not_congr hnone) ⟨page.injective c hc.2 esc hesc, ?_⟩
    rintro rfl
    rfl
  have htail : ∀ {c : Nat} {patt : List Nat}, (∀ d ∈ c :: patt, IsChar d) →
      ∀ d ∈ patt, IsChar d := fun hall d hd => hall d (List.mem_cons_of_mem _ hd)
  have hpercent : ∀ c, IsChar c → (page.toWide c = PERCENT ↔ c = PERCENT) :=
    fun c hc => page.eq_ascii hc.2 (by decide)
  have hunderscore : ∀ c, IsChar c → (page.toWide c = UNDERSCORE ↔ c = UNDERSCORE) :=
    fun c hc => page.eq_ascii hc.2 (by decide)
  induction patt using pattParts.induct esc with
  | case1 => rfl
  | case2 c hescaped =>
      have hwide := (hsame c (hpatt c List.mem_cons_self)).mpr hescaped
      rw [List.map_cons, List.map_nil, pattParts, if_pos hwide, pattParts, if_pos hescaped]
      rfl
  | case3 c hescaped pattchar patt ih =>
      have hwide := (hsame c (hpatt c List.mem_cons_self)).mpr hescaped
      rw [List.map_cons, List.map_cons, pattParts_escaped hwide, pattParts_escaped hescaped,
        ih (htail (htail hpatt))]
      rfl
  | case4 patt hnot ih =>
      have hchar := hpatt PERCENT List.mem_cons_self
      rw [List.map_cons, pattParts_plain (mt (hsame _ hchar).mp hnot),
        if_pos ((hpercent _ hchar).mpr rfl), pattParts_plain hnot, if_pos rfl, ih (htail hpatt)]
      rfl
  | case5 patt hnot hne ih =>
      have hchar := hpatt UNDERSCORE List.mem_cons_self
      rw [List.map_cons, pattParts_plain (mt (hsame _ hchar).mp hnot),
        if_neg (mt (hpercent _ hchar).mp hne), if_pos ((hunderscore _ hchar).mpr rfl),
        pattParts_plain hnot, if_neg hne, if_pos rfl, ih (htail hpatt)]
      rfl
  | case6 c patt hnot hne hne' ih =>
      have hchar := hpatt c List.mem_cons_self
      rw [List.map_cons, pattParts_plain (mt (hsame _ hchar).mp hnot),
        if_neg (mt (hpercent _ hchar).mp hne), if_neg (mt (hunderscore _ hchar).mp hne'),
        pattParts_plain hnot, if_neg hne, if_neg hne', ih (htail hpatt)]
      rfl

/-- An escaped character is one of the pattern. -/
theorem mem_of_same_mem {p : Nat} (hpart : Wildcards.Part.same p ∈ pattParts esc patt) : p ∈ patt := by
  induction patt using pattParts.induct esc with
  | case1 => cases hpart
  | case2 c hesc =>
      rw [pattParts, if_pos hesc] at hpart
      cases hpart
  | case3 c hesc pattchar patt ih =>
      rw [pattParts_escaped hesc] at hpart
      rcases List.mem_cons.mp hpart with hfirst | hrest
      · cases hfirst
        exact List.mem_cons_of_mem c List.mem_cons_self
      · exact List.mem_cons_of_mem c (List.mem_cons_of_mem pattchar (ih hrest))
  | case4 patt hnot ih =>
      rw [pattParts_plain hnot, if_pos rfl] at hpart
      rcases List.mem_cons.mp hpart with hfirst | hrest
      · cases hfirst
      · exact List.mem_cons_of_mem _ (ih hrest)
  | case5 patt hnot hne ih =>
      rw [pattParts_plain hnot, if_neg hne, if_pos rfl] at hpart
      rcases List.mem_cons.mp hpart with hfirst | hrest
      · cases hfirst
      · exact List.mem_cons_of_mem _ (ih hrest)
  | case6 c patt hnot hne hne' ih =>
      rw [pattParts_plain hnot, if_neg hne, if_neg hne'] at hpart
      rcases List.mem_cons.mp hpart with hfirst | hrest
      · cases hfirst
        exact List.mem_cons_self
      · exact List.mem_cons_of_mem c (ih hrest)

end Conversion

section Folding

variable {charset : Charset} {page : CodePage} {wide : WideCase} {str patt : List Nat}
  {esc c d : Nat} {ignore : Bool}

def caseTablesAll : List (List Nat) := [ansiconv, csconv, conv1252, conv8859_2, conv8859_1]

theorem caseTable_mem (charset : Charset) : caseTable charset.code ∈ caseTablesAll := by
  have hmem : ∀ (tables : List (List Nat)) (i : Nat), tables ⊆ caseTablesAll → i < tables.length →
      tables[i]?.getD [] ∈ caseTablesAll := by
    intro tables i hsubset hi
    rw [List.getElem?_eq_getElem hi]
    exact hsubset (List.getElem_mem hi)
  have hwin : caseTablesWin ⊆ caseTablesAll := by simp [caseTablesWin, caseTablesAll]
  have hiso : caseTablesIso ⊆ caseTablesAll := by simp [caseTablesIso, caseTablesAll]
  rw [caseTable]
  have hcode := charset.supported
  have hwinLength : caseTablesWin.length = 6 := rfl
  have hisoLength : caseTablesIso.length = 6 := rfl
  split
  · exact hmem caseTablesIso _ hiso (by omega)
  · exact hmem caseTablesWin _ hwin (by omega)

theorem caseTables_tail : ∀ table ∈ caseTablesAll, table.length = 256 ∧
    table[0]?.getD 0 ∉ table.tail := by
  decide +kernel

/-- No table makes a character equal to the terminator. -/
theorem caseTables_terminator : ∀ table ∈ caseTablesAll, ∀ c < 256, c ≠ 0 →
    table[c]?.getD 0 ≠ table[0]?.getD 0 := by
  intro table htable c hlt hne heq
  obtain ⟨hlength, hfirst⟩ := caseTables_tail table htable
  obtain ⟨c, rfl⟩ := Nat.exists_eq_add_one_of_ne_zero hne
  have hc : c < table.tail.length := by
    rw [List.length_tail, hlength]
    omega
  rw [← List.getElem?_tail, List.getElem?_eq_getElem hc, Option.getD_some] at heq
  exact hfirst (heq ▸ List.getElem_mem hc)

theorem Charset.fold_terminator (hc : IsChar c) : charset.fold ignore c ≠ charset.fold ignore 0 := by
  cases ignore with
  | false => exact hc.1
  | true =>
      rw [Charset.fold, if_pos rfl]
      split
      · exact caseTables_terminator _ (caseTable_mem charset) c hc.2 hc.1
      · exact caseTables_terminator csconv (by simp [caseTablesAll]) c hc.2 hc.1

theorem onlyTerminator_narrow (hstr : ∀ c ∈ str, IsChar c) :
    OnlyTerminator (charset.fold ignore) str :=
  fun c hc => ⟨(hstr c hc).1, Charset.fold_terminator (hstr c hc)⟩

theorem onlyTerminator_wide (hstr : ∀ c ∈ str, IsChar c) :
    OnlyTerminator (wide.fold ignore) (str.map page.toWide) := by
  intro w hw
  obtain ⟨c, hc, rfl⟩ := List.mem_map.mp hw
  have hne : page.toWide c ≠ 0 :=
    fun hzero => (hstr c hc).1 ((page.eq_ascii (hstr c hc).2 (by decide)).mp hzero)
  refine ⟨hne, ?_⟩
  cases ignore with
  | false => exact hne
  | true =>
      rw [WideCase.fold, if_pos rfl, (wide.terminator 0).mpr rfl]
      exact fun hzero => hne ((wide.terminator _).mp hzero)

theorem likeEsc_decides (hstr : ∀ c ∈ str, IsChar c) (hpatt : ∀ c ∈ patt, IsChar c) :
    Decides (likeEsc (terminated str) (terminated patt) esc ignore charset)
      (str ∈ language (charset.fold ignore) (pattParts esc patt)) :=
  likeChars_decides (onlyTerminator_narrow hpatt) (onlyTerminator_narrow hstr)

/-- The wide function decides the language of the converted pattern. -/
theorem wlikeEsc_decides (hstr : ∀ c ∈ str, IsChar c) (hpatt : ∀ c ∈ patt, IsChar c)
    (hesc : esc < 256) :
    Decides (wlikeEsc ((terminated str).map page.toWide) ((terminated patt).map page.toWide)
        (page.toWide esc) ignore wide)
      (str.map page.toWide ∈ language (wide.fold ignore)
        ((pattParts esc patt).map (Wildcards.Part.map page.toWide))) := by
  rw [page.terminated_map, page.terminated_map, ← pattParts_map hpatt hesc]
  exact likeChars_decides (onlyTerminator_wide hpatt) (onlyTerminator_wide hstr)

theorem Decides.eq {result result' : Option Bool} {p : Prop} (hresult : Decides result p)
    (hresult' : Decides result' p) : result = result' := by
  obtain ⟨found, rfl, hfound⟩ := hresult
  obtain ⟨found', rfl, hfound'⟩ := hresult'
  rw [Bool.eq_iff_iff.mpr (hfound.trans hfound'.symm)]

theorem FoldsAlike.of_chars (halike : FoldsAlike charset page wide) (hc : IsChar c)
    (hd : IsChar d) : wide.fold ignore (page.toWide c) = wide.fold ignore (page.toWide d) ↔
      charset.fold ignore c = charset.fold ignore d := by
  cases ignore with
  | true => exact (halike c d hc hd).symm
  | false => exact ⟨page.injective c hc.2 d hd.2, congrArg page.toWide⟩

/-- The functions are right for a character set exactly when the upper case of its characters
and that of the wide ones make the same characters equal. -/
theorem like_right_iff (charset : Charset) (page : CodePage) (wide : WideCase) :
    LikeRight charset page wide ↔ FoldsAlike charset page wide := by
  constructor
  · intro hright c d hc hd
    have hstr : ∀ e ∈ [c], IsChar e := by simpa using hc
    have hpatt : ∀ e ∈ [92, d], IsChar e := by
      intro e he
      rcases List.mem_cons.mp he with rfl | hlast
      · exact ⟨by decide, by decide⟩
      · rwa [List.mem_singleton.mp hlast]
    obtain ⟨hnarrow, hsame⟩ := hright [c] [92, d] 92 true hstr hpatt (by decide)
    have hwide := @wlikeEsc_decides page wide [c] [92, d] 92 true hstr hpatt (by decide)
    rw [hsame] at hwide
    obtain ⟨found, hfound, hlanguage⟩ := hnarrow
    obtain ⟨found', hfound', hlanguage'⟩ := hwide
    have hresult : found = found' := Option.some.inj (hfound.symm.trans hfound')
    have hparts : pattParts 92 [92, d] = [.same d] := rfl
    rw [hparts, cons_mem_same, mem_language_nil] at hlanguage
    rw [hparts, List.map_singleton, List.map_singleton, Wildcards.Part.map, cons_mem_same,
      mem_language_nil] at hlanguage'
    rw [hresult] at hlanguage
    simpa using hlanguage.symm.trans hlanguage'
  · intro halike str patt esc ignore hstr hpatt hesc
    have hnarrow := @likeEsc_decides charset str patt esc ignore hstr hpatt
    refine ⟨hnarrow, (wlikeEsc_decides hstr hpatt hesc).eq (hnarrow.congr ?_)⟩
    refine (map_mem_language _ str fun p hp c hc => ?_).symm
    exact halike.of_chars (hstr c hc) (hpatt p (mem_of_same_mem hp))

/-- Two characters of the code page 1252 as the system converts them. -/
def page1252 : CodePage where
  toWide c := if c = 0x9F then 0x178 else c
  ascii c hc := if_neg (by omega)
  injective c hc d hd heq := by
    split at heq
    · split at heq
      · omega
      · omega
    · split at heq
      · omega
      · exact heq

def unicodeCase : WideCase where
  upcaseCharW c := if c = 0xFF then 0x178 else if 0x61 ≤ c ∧ c ≤ 0x7A then c - 32 else c
  terminator c := by
    split
    · omega
    · split
      · omega
      · exact Iff.rfl

/-- The last character of the code page 1252 is the letter Y with a diaeresis, and the table
has a place of another letter for its upper case. -/
theorem not_forall_likeRight : ¬ ∀ charset page wide, LikeRight charset page wide := by
  intro hall
  have hsame := (hall ⟨3, by decide⟩ page1252 unicodeCase [0x9F] [0xFF] 0 true (by decide)
    (by decide) (by decide)).2
  revert hsame
  decide +kernel

end Folding

end Sql602.Texts
