import Sql602.Sequences.SequenceTexts

namespace Sql602.Sequences

open Sql602.Convert

/-! The options of analysed and of printed definitions. -/

/-- The analysis of a type leaves the symbols behind it. -/
structure TypeAnalysis where
  analyseType : List Symbol → Option (Bool × List Symbol)
  suffix : ∀ {read : List Symbol} {isInteger rest},
    analyseType read = some (isInteger, rest) → rest <:+ read

/-! What the options of an analysed definition are like. -/

structure Parsed (isName : List UInt8 → Prop) (seq : Sequence) : Prop where
  name : isName seq.name
  step_ne : seq.step ≠ 0
  step : seq.step.natAbs ≤ largest
  startval : seq.startSpecified = true → seq.startval.natAbs ≤ largest
  maxval : seq.hasmax = true → seq.maxval.natAbs ≤ largest
  minval : seq.hasmin = true → seq.minval.natAbs ≤ largest
  cache : seq.hascache = true → 2 ≤ seq.cache ∧ seq.cache ≤ 1000

def AllLexed (read : List Symbol) : Prop := ∀ sym ∈ read, Lexed sym

section Invariant

variable {isName : List UInt8 → Prop} {seq seq' : Sequence} {read rest : List Symbol} {v : Int}

theorem AllLexed.suffix (hread : AllLexed read) (hsuffix : rest <:+ read) : AllLexed rest :=
  fun sym hsym => hread sym (hsuffix.mem hsym)

theorem nextAndTest_suffix {sym : Symbol} (hnext : nextAndTest sym read = some rest) :
    rest <:+ read := by
  cases read with
  | nil => cases hnext
  | cons next behind =>
      rw [nextAndTest, Option.ite_none_right_eq_some] at hnext
      obtain ⟨-, heq⟩ := hnext
      cases heq
      exact List.suffix_cons _ _

theorem signedNumVal_lexed (hread : AllLexed read) (hval : signedNumVal read = some (v, rest)) :
    v.natAbs ≤ largest ∧ AllLexed rest := by
  rw [signedNumVal.eq_def] at hval
  split at hval
  case h_1 n behind =>
    cases hval
    have hn := hread (.integer n) (List.mem_cons_of_mem _ List.mem_cons_self)
    rw [Int.natAbs_neg, Int.natAbs_natCast]
    exact ⟨hn, hread.suffix ((List.suffix_cons _ _).trans (List.suffix_cons _ _))⟩
  case h_2 n behind =>
    cases hval
    have hn := hread (.integer n) (List.mem_cons_of_mem _ List.mem_cons_self)
    rw [Int.natAbs_natCast]
    exact ⟨hn, hread.suffix ((List.suffix_cons _ _).trans (List.suffix_cons _ _))⟩
  case h_3 n behind =>
    cases hval
    have hn := hread (.integer n) List.mem_cons_self
    rw [Int.natAbs_natCast]
    exact ⟨hn, hread.suffix (List.suffix_cons _ _)⟩
  case h_4 => cases hval

theorem nextSignedNum_lexed {sym : Symbol} (hread : AllLexed read)
    (hval : (nextAndTest sym read).bind signedNumVal = some (v, rest)) :
    v.natAbs ≤ largest ∧ AllLexed rest := by
  rw [Option.bind_eq_some_iff] at hval
  obtain ⟨behind, hnext, hval⟩ := hval
  exact signedNumVal_lexed (hread.suffix (nextAndTest_suffix hnext)) hval

theorem createDefaults_parsed (hname : isName seq.name) : Parsed isName (createDefaults seq) where
  name := hname
  step_ne := Int.one_ne_zero
  step := (by decide : (1 : Int).natAbs ≤ largest)
  startval := fun hstart => absurd hstart Bool.false_ne_true
  maxval := fun hmax => absurd hmax Bool.false_ne_true
  minval := fun hmin => absurd hmin Bool.false_ne_true
  cache := fun _ => (by decide : 2 ≤ (20 : Int) ∧ (20 : Int) ≤ 1000)

/-- What an option leaves. -/
def Kept (isName : List UInt8 → Prop) (result : Option (Sequence × Option (List Symbol))) :
    Prop :=
  ∀ seq left, result = some (seq, left) → Parsed isName seq ∧ ∀ rest ∈ left, AllLexed rest

theorem kept_some (hseq : Parsed isName seq) (hrest : AllLexed rest) :
    Kept isName (some (seq, some rest)) := by
  rintro _ _ ⟨⟩
  exact ⟨hseq, fun _ hmem => by cases hmem; exact hrest⟩

theorem kept_end (hseq : Parsed isName seq) : Kept isName (some (seq, none)) := by
  rintro _ _ ⟨⟩
  exact ⟨hseq, fun _ hmem => by cases hmem⟩

theorem kept_none : Kept isName none := by
  rintro _ _ ⟨⟩

theorem kept_ite {c : Prop} [Decidable c] {yes no : Option (Sequence × Option (List Symbol))}
    (hyes : c → Kept isName yes) (hno : ¬ c → Kept isName no) :
    Kept isName (if c then yes else no) := by
  split
  case isTrue h => exact hyes h
  case isFalse h => exact hno h

/-- A number that an option sets. -/
theorem kept_bind {number : Option (Int × List Symbol)}
    {set : Int × List Symbol → Option (Sequence × Option (List Symbol))}
    (hnumber : ∀ v rest, number = some (v, rest) → v.natAbs ≤ largest ∧ AllLexed rest)
    (hset : ∀ v rest, v.natAbs ≤ largest → AllLexed rest → Kept isName (set (v, rest))) :
    Kept isName (number.bind set) := by
  cases hval : number with
  | none => exact kept_none
  | some found =>
      obtain ⟨hlarge, hrest⟩ := hnumber _ _ hval
      exact hset _ _ hlarge hrest

theorem kept_map {number : Option (Int × List Symbol)}
    {set : Int × List Symbol → Sequence × Option (List Symbol)}
    (hnumber : ∀ v rest, number = some (v, rest) → v.natAbs ≤ largest ∧ AllLexed rest)
    (hset : ∀ v rest, v.natAbs ≤ largest → AllLexed rest → Kept isName (some (set (v, rest)))) :
    Kept isName (number.map set) := by
  rw [Option.map_eq_bind]
  exact kept_bind hnumber hset

/-- One option of the definition. -/
theorem namedOption_kept {name : List UInt8} (hseq : Parsed isName seq) (hread : AllLexed read) :
    Kept isName (namedOption seq name read) := by
  refine kept_ite (fun _ => ?increment) fun _ => kept_ite (fun _ => ?maxvalue) fun _ =>
    kept_ite (fun _ => ?minvalue) fun _ => kept_ite (fun _ => ?cache) fun _ =>
    kept_ite (fun _ => ?nomaxvalue) fun _ => kept_ite (fun _ => ?nominvalue) fun _ =>
    kept_ite (fun _ => ?nocache) fun _ => kept_ite (fun _ => ?cycle) fun _ =>
    kept_ite (fun _ => ?nocycle) fun _ => kept_ite (fun _ => ?nororder) fun _ =>
    kept_ite (fun _ => ?restart) fun _ => kept_end { hseq with }
  case increment =>
    refine kept_bind (fun _ _ => nextSignedNum_lexed hread) fun v rest hlarge hrest => ?_
    refine kept_ite (fun _ => kept_none) fun hne => kept_some ?_ hrest
    exact { hseq with step_ne := hne, step := hlarge }
  case maxvalue =>
    refine kept_map (fun _ _ => signedNumVal_lexed hread) fun v rest hlarge hrest =>
      kept_some ?_ hrest
    exact { hseq with maxval := fun _ => hlarge }
  case minvalue =>
    refine kept_map (fun _ _ => signedNumVal_lexed hread) fun v rest hlarge hrest =>
      kept_some ?_ hrest
    exact { hseq with minval := fun _ => hlarge }
  case cache =>
    split
    case h_1 n rest =>
      refine kept_ite (fun _ => kept_none) fun hcache =>
        kept_some { hseq with cache := fun _ => ?_ } (hread.suffix (List.suffix_cons _ _))
      rw [not_or, Nat.not_lt, Nat.not_lt] at hcache
      exact ⟨Int.ofNat_le.mpr hcache.1, Int.ofNat_le.mpr hcache.2⟩
    case h_2 => exact kept_none
  case nomaxvalue =>
    exact kept_some { hseq with maxval := fun hmax => absurd hmax Bool.false_ne_true } hread
  case nominvalue =>
    exact kept_some { hseq with minval := fun hmin => absurd hmin Bool.false_ne_true } hread
  case nocache =>
    exact kept_some { hseq with cache := fun hcache => absurd hcache Bool.false_ne_true } hread
  case cycle => exact kept_some { hseq with } hread
  case nocycle => exact kept_some { hseq with } hread
  case nororder => exact kept_some { hseq with } hread
  case restart =>
    refine kept_map (fun _ _ => nextSignedNum_lexed hread) fun v rest hlarge hrest =>
      kept_some ?_ hrest
    exact { hseq with }

theorem oneOption_kept (types : TypeAnalysis) (hseq : Parsed isName seq) (hread : AllLexed read) :
    Kept isName (oneOption types.analyseType seq read) := by
  rw [oneOption.eq_def]
  split
  case h_1 => exact kept_end hseq
  case h_2 => exact kept_none
  case h_3 name rest => exact namedOption_kept hseq (hread.suffix (List.suffix_cons _ _))
  case h_4 name rest =>
    have hrest := hread.suffix (List.suffix_cons (.keyword name) rest)
    refine kept_ite (fun _ => ?start) fun _ => kept_ite (fun _ => ?order) fun _ =>
      kept_ite (fun _ => ?type) fun _ => kept_end hseq
    case start =>
      refine kept_map (fun _ _ => nextSignedNum_lexed hrest) fun v rest hlarge hrest =>
      kept_some ?_ hrest
      exact { hseq with startval := fun _ => hlarge }
    case order => exact kept_some { hseq with } hrest
    case type =>
      cases htype : types.analyseType rest with
      | none => exact kept_none
      | some found =>
          exact kept_ite (fun _ => kept_some hseq (hrest.suffix (types.suffix htype)))
            fun _ => kept_none
  case h_5 => exact kept_end hseq

/-- The whole loop. -/
theorem options_parsed (types : TypeAnalysis) {fuel : Nat} (hseq : Parsed isName seq)
    (hread : AllLexed read) (hoptions : options types.analyseType fuel seq read = some seq') :
    Parsed isName seq' := by
  induction fuel generalizing seq read with
  | zero =>
      rw [options, Option.bind_eq_some_iff] at hoptions
      obtain ⟨⟨next, left⟩, hone, hnext⟩ := hoptions
      rw [Option.ite_none_right_eq_some] at hnext
      obtain ⟨-, heq⟩ := hnext
      cases heq
      exact (oneOption_kept types hseq hread _ _ hone).1
  | succ fuel ih =>
      rw [options, Option.bind_eq_some_iff] at hoptions
      obtain ⟨⟨next, left⟩, hone, hnext⟩ := hoptions
      obtain ⟨hparsed, hleft⟩ := oneOption_kept types hseq hread _ _ hone
      cases left with
      | none =>
          cases hnext
          exact hparsed
      | some rest => exact ih hparsed (hleft rest rfl) hnext

theorem startRestarts_parsed (hseq : Parsed isName seq) : Parsed isName (startRestarts seq) := by
  rw [startRestarts]
  split
  · exact { hseq with }
  · exact hseq

theorem derivedDefaults_eq (seq : Sequence) :
    derivedDefaults seq =
      { seq with
        minval := if seq.hasmin then seq.minval else derivedMin seq
        maxval := if seq.hasmax then seq.maxval else derivedMax seq
        startval :=
          if seq.startSpecified then seq.startval
          else if 0 < seq.step then (if seq.hasmin then seq.minval else derivedMin seq)
          else (if seq.hasmax then seq.maxval else derivedMax seq)
        cache := if seq.hascache then seq.cache else 1 } := by
  obtain ⟨_, _, _, _, _, _, _, _, _, _, _, hasmax, hasmin, _, hascache, _, startSpecified, _, _⟩ :=
    seq
  cases hasmin <;> cases hasmax <;> cases startSpecified <;> cases hascache <;> rfl

theorem derivedDefaults_parsed (hseq : Parsed isName seq) :
    Parsed isName (derivedDefaults seq) := by
  rw [derivedDefaults_eq]
  exact { hseq with
    startval := fun hstart => by
      rw [if_pos hstart]
      exact hseq.startval hstart
    maxval := fun hmax => by
      rw [if_pos hmax]
      exact hseq.maxval hmax
    minval := fun hmin => by
      rw [if_pos hmin]
      exact hseq.minval hmin
    cache := fun hcache => by
      rw [if_pos hcache]
      exact hseq.cache hcache }

theorem verb_suffix (seq : Sequence) (read : List Symbol) : (verb seq read).2 <:+ read := by
  rw [verb.eq_def]
  split
  case h_1 name rest =>
    split
    · exact List.suffix_cons _ _
    split
    · exact List.suffix_cons _ _
    · exact List.suffix_refl _
  case h_2 => exact List.suffix_refl _

theorem sequenceName_mem (hname : sequenceName seq read = some (seq', rest)) :
    Symbol.ident seq'.name ∈ read ∧ rest <:+ read := by
  rw [sequenceName.eq_def] at hname
  split at hname
  case h_1 _ sym name name' behind =>
    cases hname
    have hmem : Symbol.ident name' ∈ sym :: .ident name :: .dot :: .ident name' :: rest := by
      simp
    exact ⟨hmem, [sym, .ident name, .dot, .ident name'], rfl⟩
  case h_2 => cases hname
  case h_3 sym name behind _ _ =>
    cases hname
    have hmem : Symbol.ident name ∈ sym :: .ident name :: rest :=
      List.mem_cons_of_mem _ List.mem_cons_self
    exact ⟨hmem, [sym, .ident name], rfl⟩
  case h_4 => cases hname

theorem sequenceOptions_parsed (types : TypeAnalysis) (hseq : Parsed isName seq)
    (hread : AllLexed read)
    (hoptions : sequenceOptions types.analyseType seq read = some seq') :
    ∃ p, Parsed isName p ∧ badParams p = false ∧ seq' = derivedDefaults p := by
  rw [sequenceOptions, Option.bind_eq_some_iff] at hoptions
  obtain ⟨p, hp, hgood⟩ := hoptions
  dsimp only at hgood
  have hstart : Parsed isName { seq with anythingSpecified := false, restartSpecified := false } :=
    { hseq with }
  have hparsed := startRestarts_parsed (options_parsed types hstart hread hp)
  split at hgood
  case isTrue hbad => cases hgood
  case isFalse hbad =>
    cases hgood
    exact ⟨_, hparsed, Bool.eq_false_of_not_eq_true hbad, rfl⟩

/-- The name that the definition starts with, and the options behind it. -/
theorem started_parsed (hread : AllLexed read)
    (hident : ∀ name, Symbol.ident name ∈ read → isName name) {named : Sequence}
    (hname : sequenceName (verb seq read).1 (verb seq read).2 = some (named, rest)) :
    isName named.name ∧ AllLexed rest := by
  have hverb := verb_suffix seq read
  obtain ⟨hmem, hrest⟩ := sequenceName_mem hname
  exact ⟨hident _ (hverb.mem hmem), hread.suffix (hrest.trans hverb)⟩

theorem defineSequence_parsed (types : TypeAnalysis) (hread : AllLexed read)
    (hident : ∀ name, Symbol.ident name ∈ read → isName name)
    (hdefine : defineSequence types.analyseType seq read = some seq') :
    ∃ p, Parsed isName p ∧ badParams p = false ∧ seq' = derivedDefaults p := by
  rw [defineSequence, Option.bind_eq_some_iff] at hdefine
  obtain ⟨⟨named, rest⟩, hname, hoptions⟩ := hdefine
  obtain ⟨hnamed, hrest⟩ := started_parsed hread hident hname
  exact sequenceOptions_parsed types (createDefaults_parsed hnamed) hrest hoptions

theorem sequenceAnal_parsed (types : TypeAnalysis)
    {load : List UInt8 → List UInt8 → Option (Int × List Symbol)}
    (hload : ∀ name schema currval stored, load name schema = some (currval, stored) →
      AllLexed stored ∧ ∀ name, Symbol.ident name ∈ stored → isName name)
    (hread : AllLexed read) (hident : ∀ name, Symbol.ident name ∈ read → isName name)
    (hanal : sequenceAnal types.analyseType load seq read = some seq') :
    ∃ p, Parsed isName p ∧ badParams p = false ∧ seq' = derivedDefaults p := by
  rw [sequenceAnal, Option.bind_eq_some_iff] at hanal
  obtain ⟨⟨named, rest⟩, hname, hanal⟩ := hanal
  obtain ⟨hnamed, hrest⟩ := started_parsed hread hident hname
  dsimp only at hanal
  split at hanal
  case isTrue hmodifying =>
    rw [Option.bind_eq_some_iff] at hanal
    obtain ⟨⟨currval, stored⟩, hstored, hanal⟩ := hanal
    rw [Option.bind_eq_some_iff] at hanal
    obtain ⟨old, hold, hoptions⟩ := hanal
    obtain ⟨hlexed, hidents⟩ := hload _ _ _ _ hstored
    obtain ⟨p, hp, -, rfl⟩ := defineSequence_parsed types hlexed hidents hold
    have hseq := derivedDefaults_parsed hp
    have hstart : Parsed isName { derivedDefaults p with recursive := false } := { hseq with }
    exact sequenceOptions_parsed types hstart hrest hoptions
  case isFalse hcreating =>
    exact sequenceOptions_parsed types (createDefaults_parsed hnamed) hrest hanal

end Invariant

/-! The printed options are read. -/

/-- What the printed options leave in the analysed definition. -/
def readBack (d seq : Sequence) : Sequence :=
  { seq with
    startval := d.startval, startSpecified := true, step := d.step
    maxval := if d.hasmax then d.maxval else seq.maxval, hasmax := d.hasmax
    minval := if d.hasmin then d.minval else seq.minval, hasmin := d.hasmin
    cache := if d.hascache then d.cache else seq.cache, hascache := d.hascache
    cycles := d.cycles, anythingSpecified := true }

/-- The settings of the lines before the last one. -/
def optionSettings (d : Sequence) : List (Sequence → Sequence) := [
  fun seq => { seq with
    startval := d.startval, startSpecified := true, anythingSpecified := true },
  fun seq => { seq with step := d.step, anythingSpecified := true },
  fun seq =>
    if d.hasmax then { seq with maxval := d.maxval, hasmax := true, anythingSpecified := true }
    else { seq with hasmax := false, anythingSpecified := true },
  fun seq =>
    if d.hasmin then { seq with minval := d.minval, hasmin := true, anythingSpecified := true }
    else { seq with hasmin := false, anythingSpecified := true },
  fun seq =>
    if d.hascache then { seq with cache := d.cache, hascache := true, anythingSpecified := true }
    else { seq with hascache := false, anythingSpecified := true },
  fun seq => { seq with cycles := d.cycles, anythingSpecified := true }]

theorem optionSettings_readBack (d seq : Sequence) :
    (optionSettings d).foldl (fun seq set => set seq) seq = readBack d seq := by
  obtain ⟨_, _, _, _, _, _, _, _, _, _, _, hasmax, hasmin, _, hascache, _, _, _, _⟩ := d
  cases hasmax <;> cases hasmin <;> cases hascache <;> rfl

section Reading

variable (types : TypeAnalysis) {d seq : Sequence}

def Reads (line : List Symbol) (set : Sequence → Sequence) : Prop :=
  ∀ seq rest, oneOption types.analyseType seq (line ++ rest) = some (set seq, some rest)

theorem options_lines {lines : List (List Symbol)} {settings : List (Sequence → Sequence)}
    (hlines : List.Forall₂ (Reads types) lines settings) {fuel : Nat}
    (hfuel : lines.length ≤ fuel) (rest : List Symbol) :
    options types.analyseType fuel seq (lines.flatten ++ rest) =
      options types.analyseType (fuel - lines.length)
        (settings.foldl (fun seq set => set seq) seq) rest := by
  induction hlines generalizing fuel seq with
  | nil => rfl
  | cons hline hlines ih =>
      cases fuel with
      | zero => cases hfuel
      | succ fuel =>
          rw [List.flatten_cons, List.append_assoc, options, hline, Option.bind_some,
            List.length_cons, Nat.add_sub_add_right]
          exact ih (Nat.le_of_succ_le_succ hfuel)

theorem signedNumVal_intSymbols (val : Int) (rest : List Symbol) :
    signedNumVal (intSymbols val ++ rest) = some (val, rest) := by
  rw [intSymbols]
  split
  case isTrue hneg =>
    have hval : -(val.natAbs : Int) = val := by omega
    calc signedNumVal ([.minus] ++ [.integer val.natAbs] ++ rest)
        = some (-(val.natAbs : Int), rest) := rfl
      _ = some (val, rest) := by rw [hval]
  case isFalse hpos =>
    have hval : (val.natAbs : Int) = val := by omega
    calc signedNumVal ([] ++ [.integer val.natAbs] ++ rest)
        = some ((val.natAbs : Int), rest) := rfl
      _ = some (val, rest) := by rw [hval]

theorem nextAndTest_self (sym : Symbol) (rest : List Symbol) :
    nextAndTest sym (sym :: rest) = some rest :=
  if_pos rfl

theorem nextSignedNum_intSymbols (sym : Symbol) (val : Int) (rest : List Symbol) :
    (nextAndTest sym (sym :: (intSymbols val ++ rest))).bind signedNumVal = some (val, rest) := by
  rw [nextAndTest_self, Option.bind_some, signedNumVal_intSymbols]

theorem reads_start (val : Int) :
    Reads types (keyword "START" :: keyword "WITH" :: intSymbols val) fun seq => { seq with
      startval := val, startSpecified := true, anythingSpecified := true } := by
  intro seq rest
  rw [List.cons_append, List.cons_append, keyword, keyword, oneOption, if_pos rfl,
    nextSignedNum_intSymbols]
  rfl

/-- The names in the order in which they are tested, and the printed one that is not tested. -/
def optionNames : List (List UInt8) := [
  ascii "INCREMENT", ascii "MAXVALUE", ascii "MINVALUE", ascii "CACHE", ascii "NOMAXVALUE",
  ascii "NOMINVALUE", ascii "NOCACHE", ascii "CYCLE", ascii "NOCYCLE", ascii "NORORDER",
  ascii "RESTART", ascii "NOORDER"]

theorem optionNames_nodup : optionNames.Nodup := by decide +kernel

theorem ne_of_before (front : List (List UInt8)) {name : List UInt8} {behind : List (List UInt8)}
    (hnames : optionNames = front ++ name :: behind) : ∀ other ∈ front, ¬ name = other := by
  have hnodup := optionNames_nodup
  rw [hnames, List.nodup_append] at hnodup
  exact fun other hother heq => hnodup.2.2 other hother name List.mem_cons_self heq.symm

theorem reads_increment {val : Int} (hval : val ≠ 0) :
    Reads types (option "INCREMENT" :: keyword "BY" :: intSymbols val) fun seq => { seq with
      step := val, anythingSpecified := true } := by
  intro seq rest
  rw [List.cons_append, List.cons_append, option, keyword, oneOption, namedOption.eq_def,
    if_pos rfl, nextSignedNum_intSymbols, Option.bind_some]
  exact if_neg hval

theorem reads_maxvalue (val : Int) :
    Reads types (option "MAXVALUE" :: intSymbols val) fun seq => { seq with
      maxval := val, hasmax := true, anythingSpecified := true } := by
  intro seq rest
  have hbefore := ne_of_before [ascii "INCREMENT"] rfl
  simp only [List.forall_mem_cons] at hbefore
  obtain ⟨h₁, -⟩ := hbefore
  rw [List.cons_append, option, oneOption, namedOption.eq_def, if_neg h₁, if_pos rfl,
    signedNumVal_intSymbols]
  rfl

theorem reads_minvalue (val : Int) :
    Reads types (option "MINVALUE" :: intSymbols val) fun seq => { seq with
      minval := val, hasmin := true, anythingSpecified := true } := by
  intro seq rest
  have hbefore := ne_of_before [ascii "INCREMENT", ascii "MAXVALUE"] rfl
  simp only [List.forall_mem_cons] at hbefore
  obtain ⟨h₁, h₂, -⟩ := hbefore
  rw [List.cons_append, option, oneOption, namedOption.eq_def, if_neg h₁, if_neg h₂, if_pos rfl,
    signedNumVal_intSymbols]
  rfl

theorem reads_cache {val : Int} (hlow : 2 ≤ val) (hhigh : val ≤ 1000) :
    Reads types (option "CACHE" :: intSymbols val) fun seq => { seq with
      cache := val, hascache := true, anythingSpecified := true } := by
  intro seq rest
  obtain ⟨n, rfl⟩ := Int.eq_ofNat_of_zero_le (Int.le_trans (by decide) hlow)
  have hpos : ¬ (n : Int) < 0 := Int.not_lt.mpr (Int.natCast_nonneg n)
  have hbounds : ¬ (n < 2 ∨ 1000 < n) := by omega
  have hbefore := ne_of_before [ascii "INCREMENT", ascii "MAXVALUE", ascii "MINVALUE"] rfl
  simp only [List.forall_mem_cons] at hbefore
  obtain ⟨h₁, h₂, h₃, -⟩ := hbefore
  rw [List.cons_append, intSymbols, if_neg hpos, Int.natAbs_natCast, option, oneOption,
    namedOption.eq_def, if_neg h₁, if_neg h₂,
    if_neg h₃, if_pos rfl]
  exact if_neg hbounds

theorem reads_nomaxvalue :
    Reads types [option "NOMAXVALUE"] fun seq => { seq with
      hasmax := false, anythingSpecified := true } := by
  intro seq rest
  have hbefore := ne_of_before [ascii "INCREMENT", ascii "MAXVALUE", ascii "MINVALUE",
    ascii "CACHE"] rfl
  simp only [List.forall_mem_cons] at hbefore
  obtain ⟨h₁, h₂, h₃, h₄, -⟩ := hbefore
  rw [List.singleton_append, option, oneOption, namedOption.eq_def, if_neg h₁, if_neg h₂,
    if_neg h₃, if_neg h₄, if_pos rfl]

theorem reads_nominvalue :
    Reads types [option "NOMINVALUE"] fun seq => { seq with
      hasmin := false, anythingSpecified := true } := by
  intro seq rest
  have hbefore := ne_of_before [ascii "INCREMENT", ascii "MAXVALUE", ascii "MINVALUE",
    ascii "CACHE", ascii "NOMAXVALUE"] rfl
  simp only [List.forall_mem_cons] at hbefore
  obtain ⟨h₁, h₂, h₃, h₄, h₅, -⟩ := hbefore
  rw [List.singleton_append, option, oneOption, namedOption.eq_def, if_neg h₁, if_neg h₂,
    if_neg h₃, if_neg h₄, if_neg h₅, if_pos rfl]

theorem reads_nocache :
    Reads types [option "NOCACHE"] fun seq => { seq with
      hascache := false, anythingSpecified := true } := by
  intro seq rest
  have hbefore := ne_of_before [ascii "INCREMENT", ascii "MAXVALUE", ascii "MINVALUE",
    ascii "CACHE", ascii "NOMAXVALUE", ascii "NOMINVALUE"] rfl
  simp only [List.forall_mem_cons] at hbefore
  obtain ⟨h₁, h₂, h₃, h₄, h₅, h₆, -⟩ := hbefore
  rw [List.singleton_append, option, oneOption, namedOption.eq_def, if_neg h₁, if_neg h₂,
    if_neg h₃, if_neg h₄, if_neg h₅, if_neg h₆, if_pos rfl]

theorem reads_cycle :
    Reads types [option "CYCLE"] fun seq => { seq with
      cycles := true, anythingSpecified := true } := by
  intro seq rest
  have hbefore := ne_of_before [ascii "INCREMENT", ascii "MAXVALUE", ascii "MINVALUE",
    ascii "CACHE", ascii "NOMAXVALUE", ascii "NOMINVALUE", ascii "NOCACHE"] rfl
  simp only [List.forall_mem_cons] at hbefore
  obtain ⟨h₁, h₂, h₃, h₄, h₅, h₆, h₇, -⟩ := hbefore
  rw [List.singleton_append, option, oneOption, namedOption.eq_def, if_neg h₁, if_neg h₂,
    if_neg h₃, if_neg h₄, if_neg h₅, if_neg h₆, if_neg h₇, if_pos rfl]

theorem reads_nocycle :
    Reads types [option "NOCYCLE"] fun seq => { seq with
      cycles := false, anythingSpecified := true } := by
  intro seq rest
  have hbefore := ne_of_before [ascii "INCREMENT", ascii "MAXVALUE", ascii "MINVALUE",
    ascii "CACHE", ascii "NOMAXVALUE", ascii "NOMINVALUE", ascii "NOCACHE", ascii "CYCLE"] rfl
  simp only [List.forall_mem_cons] at hbefore
  obtain ⟨h₁, h₂, h₃, h₄, h₅, h₆, h₇, h₈, -⟩ := hbefore
  rw [List.singleton_append, option, oneOption, namedOption.eq_def, if_neg h₁, if_neg h₂,
    if_neg h₃, if_neg h₄, if_neg h₅, if_neg h₆, if_neg h₇, if_neg h₈, if_pos rfl]

theorem reads_order :
    Reads types [keyword "ORDER"] fun seq => { seq with
      ordered := true, anythingSpecified := true } := by
  intro seq rest
  rw [List.singleton_append, keyword, oneOption, if_neg (by decide +kernel), if_pos rfl]

/-- The loop ends at the printed word, which no option has. -/
theorem oneOption_noorder (seq : Sequence) :
    oneOption types.analyseType seq [option "NOORDER"] =
      some ({ seq with anythingSpecified := true }, none) := by
  have hbefore := ne_of_before [ascii "INCREMENT", ascii "MAXVALUE", ascii "MINVALUE",
    ascii "CACHE", ascii "NOMAXVALUE", ascii "NOMINVALUE", ascii "NOCACHE", ascii "CYCLE",
    ascii "NOCYCLE", ascii "NORORDER", ascii "RESTART"] rfl
  simp only [List.forall_mem_cons] at hbefore
  obtain ⟨h₁, h₂, h₃, h₄, h₅, h₆, h₇, h₈, h₉, h₁₀, h₁₁, -⟩ := hbefore
  have hrestart : ¬ (ascii "NOORDER" = ascii "RESTART" ∧ seq.modifying = true) :=
    fun h => h₁₁ h.1
  rw [option, oneOption, namedOption.eq_def, if_neg h₁, if_neg h₂, if_neg h₃, if_neg h₄,
    if_neg h₅, if_neg h₆, if_neg h₇, if_neg h₈, if_neg h₉, if_neg h₁₀, if_neg hrestart]

theorem printed_lines (hseq : Printable d) (hstep : d.step ≠ 0) :
    List.Forall₂ (Reads types) ((optionSymbols d).take 6) (optionSettings d) := by
  refine .cons (reads_start types _) (.cons (reads_increment types hstep)
    (.cons ?_ (.cons ?_ (.cons ?_ (.cons ?_ .nil)))))
  · split
    · exact reads_maxvalue types _
    · exact reads_nomaxvalue types
  · split
    · exact reads_minvalue types _
    · exact reads_nominvalue types
  · split
    case isTrue hcache => exact reads_cache types (hseq.cache hcache).1 (hseq.cache hcache).2
    case isFalse hcache => exact reads_nocache types
  · cases d.cycles
    · exact reads_nocycle types
    · exact reads_cycle types

/-- All the printed options; a definition that is not ordered keeps what it starts with. -/
theorem options_printed (hseq : Printable d) (hstep : d.step ≠ 0) (hordered : seq.ordered = true)
    {fuel : Nat} (hfuel : 7 ≤ fuel) :
    options types.analyseType fuel seq (optionSymbols d).flatten = some (readBack d seq) := by
  have hsplit : (optionSymbols d).flatten =
      ((optionSymbols d).take 6).flatten ++
        (if d.ordered then [keyword "ORDER"] else [option "NOORDER"]) := by
    rw [← List.append_nil (if d.ordered then _ else _)]
    simp only [optionSymbols, List.take_succ_cons, List.take_zero, List.flatten_cons,
      List.flatten_nil, List.append_assoc, List.nil_append]
  have hread : readBack d seq = { readBack d seq with
      ordered := true, anythingSpecified := true } := by
    calc readBack d seq = { readBack d seq with
          ordered := seq.ordered, anythingSpecified := true } := rfl
      _ = { readBack d seq with ordered := true, anythingSpecified := true } := by rw [hordered]
  obtain ⟨fuel, rfl⟩ := Nat.exists_eq_add_of_le' hfuel
  have hlength : ((optionSymbols d).take 6).length = 6 := rfl
  have hleft : fuel + 7 - 6 = fuel + 1 := rfl
  rw [hsplit, options_lines types (printed_lines types hseq hstep) (by omega),
    optionSettings_readBack, hlength, hleft, options]
  split
  · have hend : options types.analyseType fuel
        { readBack d seq with ordered := true, anythingSpecified := true } [] =
          some (readBack d seq) := by
      rw [← hread]
      cases fuel <;> rfl
    rw [← List.append_nil [keyword "ORDER"], reads_order, Option.bind_some]
    exact hend
  · rw [oneOption_noorder, Option.bind_some]
    rfl

theorem length_le_flatten {lines : List (List Symbol)} (hlines : ∀ line ∈ lines, line ≠ []) :
    lines.length ≤ lines.flatten.length := by
  induction lines with
  | nil => exact Nat.le_refl _
  | cons line lines ih =>
      have hline := List.length_pos_of_ne_nil (hlines line List.mem_cons_self)
      have hrest := ih fun line hmem => hlines line (List.mem_cons_of_mem _ hmem)
      rw [List.flatten_cons, List.length_cons, List.length_append]
      omega

theorem optionSymbols_ne_nil (d : Sequence) : ∀ line ∈ optionSymbols d, line ≠ [] := by
  unfold optionSymbols
  cases d.hasmax <;> cases d.hasmin <;> cases d.hascache <;> cases d.cycles <;>
    cases d.ordered <;> simp

/-- The whole text, read into a definition that needs no other one. -/
theorem compile_printed (cs : Charset) (init : Sequence) (hseq : Printable d)
    (hstep : d.step ≠ 0) (hgrave : 96 ∉ d.name) (hline : 10 ∉ d.name) (hne : d.name ≠ [])
    (hinit : init.modifying = true → init.recursive = true) :
    ∃ start : Sequence, start.name = nameOf cs d.name ∧ start.restartSpecified = false ∧
      start.ordered = true ∧
      compileSequence types.analyseType cs (sequenceToSource d false) init =
        if badParams (readBack d start) then none
        else some (derivedDefaults (readBack d start)) := by
  obtain ⟨name, hname⟩ : ∃ name, name = nameOf cs d.name := ⟨_, rfl⟩
  obtain ⟨named, hnamed⟩ : ∃ named : Sequence, named = { init with
    currval := storedCurrval (sequenceToSource d false), name := name } := ⟨_, rfl⟩
  refine ⟨{ createDefaults named with anythingSpecified := false, restartSpecified := false },
    ?_, rfl, rfl, ?_⟩
  · rw [hnamed]
    exact hname
  · have hnot : ¬ (named.modifying = true ∧ named.recursive = false) := by
      rw [hnamed]
      intro h
      rw [hinit h.1] at h
      exact absurd h.2 (by decide)
    have hanal : compileSequence types.analyseType cs (sequenceToSource d false) init =
        sequenceOptions types.analyseType (createDefaults named) (optionSymbols d).flatten := by
      have hverb : ∀ seq rest, verb seq (keyword "CREATE" :: rest) = (seq, rest) := by
        intro seq rest
        rw [keyword, verb, if_pos rfl]
      have hsequence : ∀ seq, sequenceName seq
          (keyword "SEQUENCE" :: .ident name :: (optionSymbols d).flatten) =
            some ({ seq with name := name }, (optionSymbols d).flatten) := fun seq => rfl
      rw [compileSequence, symbols_sequenceToSource hseq hgrave hline hne, ← hname, sequenceAnal,
        hverb, hsequence, Option.bind_some, ← hnamed]
      exact if_neg hnot
    have hfuel : 7 ≤ (optionSymbols d).flatten.length :=
      length_le_flatten (optionSymbols_ne_nil d)
    have hrestart : ∀ seq : Sequence, seq.modifying = named.modifying →
        seq.recursive = named.recursive → startRestarts seq = seq := by
      intro seq hmodifying hrecursive
      rw [startRestarts, if_neg]
      rw [hmodifying, hrecursive]
      exact fun h => hnot ⟨h.1, h.2.1⟩
    rw [hanal, sequenceOptions, options_printed types hseq hstep rfl hfuel, Option.bind_some,
      hrestart (readBack d { createDefaults named with
        anythingSpecified := false, restartSpecified := false }) rfl rfl]

end Reading

end Sql602.Sequences
