import Sql602.Sequences.SequenceOptions

namespace Sql602.Sequences

open Sql602.Convert

/-! Printed definitions are read back. -/

/-- The current value is no part of the description. -/
structure SameDescription (d d' : Sequence) : Prop where
  name : d'.name = d.name
  startval : d'.startval = d.startval
  step : d'.step = d.step
  maxval : d'.maxval = d.maxval
  minval : d'.minval = d.minval
  cache : d'.cache = d.cache
  hasmax : d'.hasmax = d.hasmax
  hasmin : d'.hasmin = d.hasmin
  cycles : d'.cycles = d.cycles
  hascache : d'.hascache = d.hascache
  ordered : d'.ordered = d.ordered

/-- `init` is what the caller has of the sequence; a definition that is altered is loaded into
it with `recursive`. -/
def Right (types : TypeAnalysis) (cs : Charset) (d : Sequence) : Prop :=
  ∀ init : Sequence, (init.modifying = true → init.recursive = true) →
    ∃ d', compileSequence types.analyseType cs (sequenceToSource d false) init = some d' ∧
      SameDescription d d'

/-- An accepted text of CREATE or of ALTER, with the definitions that are stored. -/
def Obtained (types : TypeAnalysis) (cs : Charset) (d : Sequence) : Prop :=
  ∃ (stored : List UInt8 → List UInt8 → Option (List UInt8)) (seq : Sequence) (txt : List UInt8),
    seq.recursive = false ∧
    sequenceAnal types.analyseType
      (fun name schema => (stored name schema).map fun defin =>
        (storedCurrval defin, symbols cs defin)) seq (symbols cs txt) = some d

def StartInside (d : Sequence) : Prop :=
  (d.hasmax = true → d.startval ≤ d.maxval) ∧ (d.hasmin = true → d.minval ≤ d.startval)

instance (d : Sequence) : Decidable (StartInside d) :=
  inferInstanceAs (Decidable ((d.hasmax = true → d.startval ≤ d.maxval) ∧
    (d.hasmin = true → d.minval ≤ d.startval)))

section Derived

variable {isName : List UInt8 → Prop} {p start : Sequence}

theorem derivedMin_unspecified (hstart : p.startSpecified = false) :
    derivedMin p = if 0 < p.step then 1 else -MAXBIGINT := by
  rw [derivedMin, hstart]
  exact if_neg fun h => Bool.false_ne_true h.1

theorem derivedMax_unspecified (hstart : p.startSpecified = false) :
    derivedMax p = if 0 < p.step then MAXBIGINT else -1 := by
  rw [derivedMax, hstart]
  exact if_neg fun h => Bool.false_ne_true h.1

theorem startval_unspecified (hstart : p.startSpecified = false) :
    (derivedDefaults p).startval =
      if 0 < p.step then (if p.hasmin then p.minval else 1)
      else if p.hasmax then p.maxval else -1 := by
  rw [derivedDefaults_eq]
  dsimp only
  rw [derivedMin_unspecified hstart, derivedMax_unspecified hstart, hstart,
    if_neg Bool.false_ne_true]
  by_cases hstep : 0 < p.step
  · rw [if_pos hstep, if_pos hstep, if_pos hstep]
  · rw [if_neg hstep, if_neg hstep, if_neg hstep]

/-- A start value that is derived is within the bounds of all numbers. -/
theorem derived_start (hp : Parsed isName p) (hstart : p.startSpecified = false) :
    (derivedDefaults p).startval.natAbs ≤ largest := by
  rw [startval_unspecified hstart]
  split
  · split
    case isTrue hmin => exact hp.minval hmin
    case isFalse => decide
  · split
    case isTrue hmax => exact hp.maxval hmax
    case isFalse => decide

theorem largest_lt : (largest : Int) < MAXBIGINT := by decide

theorem derivedMin_again (hp : Parsed isName p) (hmin : p.hasmin = false) :
    derivedMin (readBack (derivedDefaults p) start) = (derivedDefaults p).minval := by
  have hminval : (derivedDefaults p).minval = derivedMin p := by
    rw [derivedDefaults_eq]
    exact if_neg (by rw [hmin]; exact Bool.false_ne_true)
  have hstep : (derivedDefaults p).step = p.step := by rw [derivedDefaults_eq]
  have hagain : derivedMin (readBack (derivedDefaults p) start) =
      if (derivedDefaults p).startval < (if 0 < p.step then 1 else -MAXBIGINT) then
        (derivedDefaults p).startval
      else if 0 < p.step then 1 else -MAXBIGINT := by
    rw [← hstep, derivedMin, readBack]
    simp only [true_and]
  rw [hagain, hminval]
  cases hstart : p.startSpecified with
  | true =>
      have hstartval : (derivedDefaults p).startval = p.startval := by
        rw [derivedDefaults_eq]
        exact if_pos hstart
      rw [derivedMin, hstart, hstartval]
      simp only [true_and]
  | false =>
      have hle := derived_start hp hstart
      have hlarge := largest_lt
      rw [derivedMin_unspecified hstart, if_neg]
      have hval := startval_unspecified hstart
      rw [hmin, if_neg Bool.false_ne_true] at hval
      split
      case isTrue hpos =>
        rw [hval, if_pos hpos]
        exact Int.lt_irrefl 1
      case isFalse => omega

theorem derivedMax_again (hp : Parsed isName p) (hmax : p.hasmax = false) :
    derivedMax (readBack (derivedDefaults p) start) = (derivedDefaults p).maxval := by
  have hmaxval : (derivedDefaults p).maxval = derivedMax p := by
    rw [derivedDefaults_eq]
    exact if_neg (by rw [hmax]; exact Bool.false_ne_true)
  have hstep : (derivedDefaults p).step = p.step := by rw [derivedDefaults_eq]
  have hagain : derivedMax (readBack (derivedDefaults p) start) =
      if (if 0 < p.step then MAXBIGINT else -1) < (derivedDefaults p).startval then
        (derivedDefaults p).startval
      else if 0 < p.step then MAXBIGINT else -1 := by
    rw [← hstep, derivedMax, readBack]
    simp only [true_and]
  rw [hagain, hmaxval]
  cases hstart : p.startSpecified with
  | true =>
      have hstartval : (derivedDefaults p).startval = p.startval := by
        rw [derivedDefaults_eq]
        exact if_pos hstart
      rw [derivedMax, hstart, hstartval]
      simp only [true_and]
  | false =>
      have hle := derived_start hp hstart
      have hlarge := largest_lt
      rw [derivedMax_unspecified hstart, if_neg]
      have hval := startval_unspecified hstart
      rw [hmax, if_neg Bool.false_ne_true] at hval
      split
      case isTrue => omega
      case isFalse hneg =>
        rw [hval, if_neg hneg]
        exact Int.lt_irrefl (-1)

theorem printable_of_parsed (hp : Parsed isName p) : Printable (derivedDefaults p) := by
  have hderived := derivedDefaults_parsed hp
  refine ⟨?_, hderived.step, hderived.maxval, hderived.minval, hderived.cache⟩
  cases hstart : p.startSpecified with
  | true => exact hderived.startval (by rw [derivedDefaults_eq]; exact hstart)
  | false => exact derived_start hp hstart

theorem derived_bounds (p : Sequence) :
    (derivedDefaults p).hasmin = p.hasmin ∧ (derivedDefaults p).hasmax = p.hasmax ∧
    (p.hasmin = true → (derivedDefaults p).minval = p.minval) ∧
    (p.hasmax = true → (derivedDefaults p).maxval = p.maxval) := by
  rw [derivedDefaults_eq]
  exact ⟨rfl, rfl, fun hmin => if_pos hmin, fun hmax => if_pos hmax⟩

/-- The printed text is refused when the start value is not within the given bounds. -/
theorem badParams_readBack (hgood : badParams p = false)
    (hrestart : start.restartSpecified = false) :
    badParams (readBack (derivedDefaults p) start) = false ↔ StartInside (derivedDefaults p) := by
  obtain ⟨hmin, hmax, hminval, hmaxval⟩ := derived_bounds p
  have hbounds : ¬ (p.hasmin = true ∧ p.hasmax = true ∧ p.maxval ≤ p.minval) :=
    fun hbad => of_decide_eq_false hgood (.inl hbad)
  rw [badParams, decide_eq_false_iff_not, readBack, hrestart, StartInside, hmin, hmax]
  constructor
  · intro hgood
    refine ⟨fun h => Int.not_lt.mp fun hlt => ?_, fun h => Int.not_lt.mp fun hlt => ?_⟩
    · exact hgood (.inr (.inl ⟨rfl, h, by rw [if_pos h]; exact hlt⟩))
    · exact hgood (.inr (.inr (.inl ⟨rfl, h, by rw [if_pos h]; exact hlt⟩)))
  · rintro ⟨habove, hbelow⟩ (⟨hmin', hmax', hle⟩ | ⟨-, h, hlt⟩ | ⟨-, h, hlt⟩ | ⟨h, -⟩ | ⟨h, -⟩)
    · rw [if_pos hmin', if_pos hmax', hminval hmin', hmaxval hmax'] at hle
      exact hbounds ⟨hmin', hmax', hle⟩
    · rw [if_pos h] at hlt
      exact Int.not_lt.mpr (habove h) hlt
    · rw [if_pos h] at hlt
      exact Int.not_lt.mpr (hbelow h) hlt
    · exact Bool.false_ne_true h
    · exact Bool.false_ne_true h

theorem sameDescription_iff (hp : Parsed isName p) (hordered : start.ordered = true) :
    SameDescription (derivedDefaults p) (derivedDefaults (readBack (derivedDefaults p) start)) ↔
      (derivedDefaults p).ordered = true ∧ start.name = (derivedDefaults p).name := by
  obtain ⟨hmin, hmax, -, -⟩ := derived_bounds p
  have hcache : p.hascache = false → (derivedDefaults p).cache = 1 := by
    intro hnone
    rw [derivedDefaults_eq]
    exact if_neg (by rw [hnone]; exact Bool.false_ne_true)
  have hhascache : (derivedDefaults p).hascache = p.hascache := by rw [derivedDefaults_eq]
  rw [derivedDefaults_eq (readBack (derivedDefaults p) start)]
  constructor
  · intro hsame
    exact ⟨hsame.ordered.symm.trans hordered, hsame.name⟩
  · rintro ⟨hord, hname⟩
    refine ⟨hname, rfl, rfl, ?_, ?_, ?_, rfl, rfl, rfl, rfl, hordered.trans hord.symm⟩
    · dsimp only
      split
      case isTrue h => exact if_pos h
      case isFalse h =>
        exact derivedMax_again hp (Bool.eq_false_of_not_eq_true (by rw [← hmax]; exact h))
    · dsimp only
      split
      case isTrue h => exact if_pos h
      case isFalse h =>
        exact derivedMin_again hp (Bool.eq_false_of_not_eq_true (by rw [← hmin]; exact h))
    · dsimp only
      split
      case isTrue h => exact if_pos h
      case isFalse h =>
        exact (hcache (Bool.eq_false_of_not_eq_true (by rw [← hhascache]; exact h))).symm

end Derived

/-! Between two characters that only the name has. -/

theorem inside_name {c : UInt8} {front name behind : List UInt8} {i : Nat} (hfront : c ∉ front)
    (hbehind : c ∉ behind) (hi : (front ++ (name ++ behind))[i]? = some c) :
    front.length ≤ i ∧ i < front.length + name.length := by
  have hlow : front.length ≤ i := by
    refine Nat.not_lt.mp fun hlt => hfront ?_
    rw [List.getElem?_append_left hlt] at hi
    exact List.mem_of_getElem? hi
  refine ⟨hlow, Nat.not_le.mp fun hle => hbehind ?_⟩
  rw [List.getElem?_append_right hlow, List.getElem?_append_right (by omega)] at hi
  exact List.mem_of_getElem? hi

theorem quoted_shorter {front name behind before quoted after : List UInt8} (hfront : 34 ∉ front)
    (hbehind : 34 ∉ behind)
    (heq : front ++ (name ++ behind) = before ++ 34 :: (quoted ++ 34 :: after)) :
    quoted.length < name.length := by
  have hopen : (front ++ (name ++ behind))[before.length]? = some 34 := by
    rw [heq, List.getElem?_append_right (Nat.le_refl _), Nat.sub_self]
    rfl
  have hclose : (front ++ (name ++ behind))[before.length + (quoted.length + 1)]? = some 34 := by
    rw [heq, List.getElem?_append_right (Nat.le_add_right _ _), Nat.add_sub_cancel_left,
      List.getElem?_cons_succ, List.getElem?_append_right (Nat.le_refl _), Nat.sub_self]
    rfl
  have hlow := (inside_name hfront hbehind hopen).1
  have hhigh := (inside_name hfront hbehind hclose).2
  omega

theorem quote_not_printed (none val : Int) : 34 ∉ printSpec none val 0 :=
  fun hmem => (printed_char hmem).elim (fun h => absurd h (by decide))
    fun h => absurd h (by decide)

theorem quote_not_comment (val : Int) : 34 ∉ valueComment val := by
  have hprinted := quote_not_printed NONEBIGINT val
  simp [valueComment, newLine, int64spec2str, hprinted, List.mem_replicate]

theorem quote_not_word : ∀ word ∈ ["START WITH ", "INCREMENT BY ", "MAXVALUE ", "NOMAXVALUE",
    "MINVALUE ", "NOMINVALUE", "CACHE ", "NOCACHE", "CYCLE", "NOCYCLE", "ORDER", "NOORDER",
    "CREATE", " SEQUENCE "], 34 ∉ ascii word := by
  decide +kernel

theorem quote_not_value {text : List UInt8} (hword : 34 ∉ text) (none val : Int) :
    34 ∉ text ++ 32 :: printSpec none val 0 := by
  rw [List.mem_append, List.mem_cons, not_or, not_or]
  exact ⟨hword, by decide, quote_not_printed none val⟩

theorem quote_not_option (d : Sequence) : ∀ text ∈ optionTexts d, 34 ∉ text := by
  have hword := quote_not_word
  have hite : ∀ {c : Prop} [Decidable c] {yes no : List UInt8}, 34 ∉ yes → 34 ∉ no →
      34 ∉ (if c then yes else no) := by
    intro c _ yes no hyes hno
    split
    · exact hyes
    · exact hno
  unfold optionTexts
  simp only [List.mem_cons, List.not_mem_nil, or_false, forall_eq_or_imp, forall_eq]
    at hword ⊢
  obtain ⟨hstart, hincrement, hmax, hnomax, hmin, hnomin, hcache, hnocache, hcycle, hnocycle,
    horder, hnoorder, -⟩ := hword
  exact ⟨quote_not_value hstart _ _, quote_not_value hincrement _ _,
    hite (quote_not_value hmax _ _) hnomax, hite (quote_not_value hmin _ _) hnomin,
    hite (quote_not_value hcache _ _) hnocache, hite hcycle hnocycle, hite horder hnoorder⟩

theorem quote_not_options (d : Sequence) : 34 ∉ optionLines d := by
  rw [optionLines, List.mem_flatMap]
  rintro ⟨text, htext, hmem⟩
  rw [List.mem_append] at hmem
  exact hmem.elim (quote_not_option d text htext) fun h => absurd h (by decide)

section Texts

variable {types : TypeAnalysis} {cs : Charset} {d : Sequence}

theorem all_lexed (txt : List UInt8) : AllLexed (symbols cs txt) :=
  fun _ hsym => symbols_lexed hsym

theorem obtained_parsed (hd : Obtained types cs d) :
    ∃ p, Parsed (fun name => Lexed (.ident name)) p ∧ badParams p = false ∧
      d = derivedDefaults p := by
  obtain ⟨stored, seq, txt, -, hanal⟩ := hd
  refine sequenceAnal_parsed types (fun name schema currval read hload => ?_) (all_lexed txt)
    (fun name hmem => all_lexed txt _ hmem) hanal
  rw [Option.map_eq_some_iff] at hload
  obtain ⟨defin, -, heq⟩ := hload
  cases heq
  exact ⟨all_lexed defin, fun name hmem => all_lexed defin _ hmem⟩

/-- The name that is read back stands in the text. -/
theorem compiled_name {defin : List UInt8} {init : Sequence}
    (hcompile : compileSequence types.analyseType cs defin init = some d) :
    Symbol.ident d.name ∈ symbols cs defin := by
  have hparsed : ∃ p, Parsed (fun name => Symbol.ident name ∈ symbols cs defin) p ∧
      badParams p = false ∧ d = derivedDefaults p :=
    sequenceAnal_parsed types (fun _ _ _ _ hload => by cases hload) (all_lexed defin)
      (fun _ hmem => hmem) hcompile
  obtain ⟨p, hp, -, rfl⟩ := hparsed
  rw [derivedDefaults_eq]
  exact hp.name

/-- A grave accent of the name ends the name that is read back. -/
theorem grave_not_read {d' init : Sequence} (hgrave : 96 ∈ d.name)
    (hcompile : compileSequence types.analyseType cs (sequenceToSource d false) init = some d') :
    d'.name ≠ d.name := by
  intro hname
  have hident := compiled_name hcompile
  rw [hname] at hident
  obtain ⟨before, quoted, after, htext, hlength⟩ := symbols_ident hident hgrave
  have hword := quote_not_word
  have hfront : 34 ∉ valueComment d.currval ++
      (ascii "CREATE" ++ (ascii " SEQUENCE " ++ [96])) := by
    simp only [List.mem_append, not_or]
    exact ⟨quote_not_comment _, hword _ (by decide), hword _ (by decide), by decide⟩
  have hbehind : 34 ∉ 96 :: (newLine ++ optionLines d) := by
    simp only [List.mem_cons, List.mem_append, not_or]
    exact ⟨by decide, by decide, quote_not_options d⟩
  have hsplit : valueComment d.currval ++ (ascii "CREATE" ++ (ascii " SEQUENCE " ++ [96])) ++
      (d.name ++ 96 :: (newLine ++ optionLines d)) =
        before ++ 34 :: (quoted ++ 34 :: after) := by
    rw [← htext, sequenceToSource]
    simp only [Bool.false_eq_true, if_false, List.append_assoc, List.singleton_append]
  exact Nat.not_le.mpr (quoted_shorter hfront hbehind hsplit) hlength

theorem right_iff {p : Sequence} (hp : Parsed (fun name => Lexed (.ident name)) p)
    (hgood : badParams p = false) :
    Right types cs (derivedDefaults p) ↔
      (derivedDefaults p).ordered = true ∧ StartInside (derivedDefaults p) ∧
      96 ∉ (derivedDefaults p).name ∧
      (derivedDefaults p).name.map cs.upcase = (derivedDefaults p).name := by
  have hderived := derivedDefaults_parsed hp
  have hseq := printable_of_parsed hp
  obtain ⟨hne, hlength, hline⟩ := hderived.name
  have hnameOf : nameOf cs (derivedDefaults p).name = (derivedDefaults p).name.map cs.upcase := by
    rw [nameOf, List.take_of_length_le hlength]
  constructor
  · intro hright
    have hgrave : 96 ∉ (derivedDefaults p).name := by
      intro hgrave
      obtain ⟨d', hcompile, hsame⟩ := hright { derivedDefaults p with recursive := true }
        fun _ => rfl
      exact grave_not_read hgrave hcompile hsame.name
    obtain ⟨start, hname, hrestart, hordered, hcompile⟩ := compile_printed types cs
      { derivedDefaults p with recursive := true } hseq hderived.step_ne hgrave hline hne
      fun _ => rfl
    obtain ⟨d', hd', hsame⟩ := hright { derivedDefaults p with recursive := true } fun _ => rfl
    rw [hcompile] at hd'
    split at hd'
    case isTrue hbad => cases hd'
    case isFalse hinside =>
      cases hd'
      obtain ⟨hord, hsamename⟩ := (sameDescription_iff hp hordered).mp hsame
      refine ⟨hord, (badParams_readBack hgood hrestart).mp (Bool.eq_false_of_not_eq_true hinside),
        hgrave, ?_⟩
      rw [← hnameOf, ← hname, hsamename]
  · rintro ⟨hord, hinside, hgrave, hupcase⟩ init hinit
    obtain ⟨start, hname, hrestart, hordered, hcompile⟩ := compile_printed types cs init
      hseq hderived.step_ne hgrave hline hne hinit
    have hfine := (badParams_readBack hgood hrestart).mpr hinside
    rw [hfine, if_neg Bool.false_ne_true] at hcompile
    refine ⟨_, hcompile, (sameDescription_iff hp hordered).mpr ⟨hord, ?_⟩⟩
    rw [hname, hnameOf, hupcase]

end Texts

section Runs

def asciiCharset : Charset where
  isAlpha c := decide (65 ≤ c ∧ c ≤ 90 ∨ 97 ≤ c ∧ c ≤ 122)
  upcase c := if 97 ≤ c ∧ c ≤ 122 then c - 32 else c
  quotedIdent := false
  alpha_ascii _ _ := rfl
  upcase_capital c _ hhigh :=
    if_neg fun h => absurd (UInt8.le_trans h.1 hhigh) (by decide)
  upcase_ascii c _ := by
    split
    case isTrue h =>
      obtain ⟨hlow, hhigh⟩ := h
      have hlarge : 32 ≤ c := UInt8.le_trans (by decide) hlow
      rw [UInt8.le_iff_toNat_le] at hlow hhigh
      rw [UInt8.le_iff_toNat_le, UInt8.le_iff_toNat_le, UInt8.toNat_sub_of_le c 32 hlarge]
      exact .inr ⟨Nat.le_sub_of_add_le hlow, Nat.sub_le_of_le_add hhigh⟩
    case isFalse h => exact .inl rfl

def noTypes : TypeAnalysis where
  analyseType _ := none
  suffix h := by cases h

def newSequence : Sequence where
  modifying := false
  recursive := false
  schema := []
  name := []
  currval := 0
  startval := 0
  step := 0
  maxval := 0
  minval := 0
  restartval := 0
  cache := 0
  hasmax := false
  hasmin := false
  cycles := false
  hascache := false
  ordered := false
  startSpecified := false
  restartSpecified := false
  anythingSpecified := false

theorem obtained_of_symbols {txt : List UInt8} {read : List Symbol} {d : Sequence}
    (hsymbols : symbols asciiCharset txt = read)
    (hanal : sequenceAnal (fun _ => none) (fun _ _ => none) newSequence read = some d) :
    Obtained noTypes asciiCharset d := by
  refine ⟨fun _ _ => none, newSequence, txt, rfl, ?_⟩
  rw [hsymbols]
  exact hanal

/-- A definition of the sequence A with one option. -/
theorem created_symbols (name : String) (hplain : PlainWord (ascii name))
    (hread : wordSymbol (ascii name) = option name) :
    symbols asciiCharset ((ascii "CREATE" ++ 32 :: (ascii "SEQUENCE" ++ 32 :: (ascii "A" ++
      32 :: ascii name))) ++ (newLine ++ [])) =
        [keyword "CREATE", keyword "SEQUENCE", option "A", option name] := by
  have hname : Spells asciiCharset (ascii name) [option name] := hread ▸ spells_word hplain
  have hA : wordSymbol (ascii "A") = option "A" := by decide +kernel
  have hplainA : PlainWord (ascii "A") := by decide +kernel
  have hline := spells_cons hplainA hname
  rw [hA] at hline
  rw [spells_keyword_cons (by decide) (spells_keyword_cons (by decide) hline), symbols]
  rfl

def cycledSequence : Sequence :=
  derivedDefaults { createDefaults newSequence with
    name := ascii "A", cycles := true, anythingSpecified := true }

def unorderedSequence : Sequence :=
  derivedDefaults { createDefaults newSequence with
    name := ascii "A", ordered := false, anythingSpecified := true }

end Runs

end Sql602.Sequences
