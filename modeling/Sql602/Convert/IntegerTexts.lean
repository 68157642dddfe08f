import Mathlib.Data.List.TakeWhile
import Sql602.Convert.Scaling

namespace Sql602.Convert

open Rounding

/-! The texts of integers and what the parsers read from them. -/

/-- A text without zero characters. -/
abbrev Text := { txt : List UInt8 // 0 ∉ txt }

def AllBlank (txt : List UInt8) : Prop := ∀ c ∈ txt, isBlank c = true

def AllDigits (txt : List UInt8) : Prop := ∀ c ∈ txt, isDigit c = true

/-- Digits with at most one separator, which may be the first or the last character. -/
structure Numeral where
  whole : List UInt8
  separator : Option UInt8
  fraction : List UInt8
  whole_digits : AllDigits whole
  fraction_digits : AllDigits fraction
  separates : ∀ c ∈ separator, isSeparator c = true
  unseparated : separator = none → fraction = []
  some_digit : whole ++ fraction ≠ []

def numberFrom (v : Nat) (digits : List UInt8) : Nat :=
  digits.foldl (fun v c => 10 * v + digitOf c) v

namespace Numeral

def digits (numeral : Numeral) : List UInt8 := numeral.whole ++ numeral.fraction

def text (numeral : Numeral) : List UInt8 :=
  numeral.whole ++ numeral.separator.toList ++ numeral.fraction

/-- The number that the digits have without the separator. -/
def number (numeral : Numeral) : Nat := numberFrom 0 numeral.digits

def decimals (numeral : Numeral) : Nat := numeral.fraction.length

end Numeral

/-- Without a sign all blanks before the number are in `before`. -/
structure SignedText where
  before : List UInt8
  sign : Option Bool
  inner : List UInt8
  numeral : Numeral
  after : List UInt8
  before_blank : AllBlank before
  inner_blank : AllBlank inner
  after_blank : AllBlank after
  unsigned : sign = none → inner = []

def signText : Option Bool → List UInt8
  | none => []
  | some true => [45]
  | some false => [43]

namespace SignedText

def text (signed : SignedText) : List UInt8 :=
  signed.before ++ (signText signed.sign ++ (signed.inner ++ (signed.numeral.text ++ signed.after)))

def withSign (sign : Option Bool) (v : Nat) : Int := if sign = some true then -(v : Int) else v

/-- The value of the digits, with the sign and without the separator. -/
def unscaled (signed : SignedText) : Int := withSign signed.sign signed.numeral.number

end SignedText

section Characters

variable {c : UInt8}

theorem digit_not_blank (hc : isDigit c = true) : isBlank c = false := by
  simp only [isDigit, isBlank, decide_eq_true_eq, decide_eq_false_iff_not, not_and] at hc ⊢
  intro _ hle
  have hlow := UInt8.le_iff_toNat_le.mp hc.1
  have hhigh := UInt8.le_iff_toNat_le.mp hle
  have h48 : (48 : UInt8).toNat = 48 := rfl
  have h32 : (32 : UInt8).toNat = 32 := rfl
  omega

theorem separator_cases (hc : isSeparator c = true) : c = 46 ∨ c = 44 := of_decide_eq_true hc

theorem separator_not_digit (hc : isSeparator c = true) : isDigit c = false := by
  obtain rfl | rfl := separator_cases hc <;> decide

theorem separator_not_blank (hc : isSeparator c = true) : isBlank c = false := by
  obtain rfl | rfl := separator_cases hc <;> decide

theorem blank_not_digit (hc : isBlank c = true) : isDigit c = false := by
  cases hdigit : isDigit c with
  | false => rfl
  | true =>
      rw [digit_not_blank hdigit] at hc
      cases hc

theorem blank_not_separator (hc : isBlank c = true) : isSeparator c = false := by
  cases hseparator : isSeparator c with
  | false => rfl
  | true =>
      rw [separator_not_blank hseparator] at hc
      cases hc

theorem digit_not_sign (hc : isDigit c = true) : isSign c = false := by
  cases hsign : isSign c with
  | false => rfl
  | true =>
      obtain rfl | rfl : c = 45 ∨ c = 43 := of_decide_eq_true hsign
      · cases hc
      · cases hc

theorem separator_not_sign (hc : isSeparator c = true) : isSign c = false := by
  obtain rfl | rfl := separator_cases hc <;> decide

theorem digitOf_lt (hc : isDigit c = true) : digitOf c < 10 := by
  simp only [isDigit, decide_eq_true_eq] at hc
  have hhigh := UInt8.le_iff_toNat_le.mp hc.2
  have h57 : (57 : UInt8).toNat = 57 := rfl
  unfold digitOf
  omega

end Characters

theorem skipBlanks_append {blanks rest : List UInt8} (hblanks : AllBlank blanks) :
    skipBlanks (blanks ++ rest) = skipBlanks rest :=
  List.dropWhile_append_of_pos hblanks

theorem skipBlanks_all {blanks : List UInt8} (hblanks : AllBlank blanks) :
    skipBlanks blanks = [] := by
  rw [← List.append_nil blanks, skipBlanks_append hblanks]
  rfl

/-! The loop over the digits. -/

section Loop

variable {accumulate : Nat → Nat → Option Nat} {scaled hasDecimSepar : Bool} {v scale : Nat}
  {c : UInt8} {digits txt : List UInt8}

def accumulateAll (accumulate : Nat → Nat → Option Nat) (v : Nat) (digits : List UInt8) :
    Option Nat :=
  digits.foldlM (fun v c => accumulate v (digitOf c)) v

@[simp] theorem accumulateAll_nil : accumulateAll accumulate v [] = some v := rfl

theorem accumulateAll_cons : accumulateAll accumulate v (c :: digits) =
    (accumulate v (digitOf c)).bind (accumulateAll accumulate · digits) := rfl

theorem accumulateAll_append (first rest : List UInt8) :
    accumulateAll accumulate v (first ++ rest) =
      (accumulateAll accumulate v first).bind (accumulateAll accumulate · rest) :=
  List.foldlM_append ..

theorem digitLoop_stop (hc : isDigit (charAt txt) = false) :
    digitLoop accumulate scaled hasDecimSepar v scale txt = some (v, scale, txt) := by
  cases txt with
  | nil => rfl
  | cons c rest =>
      have hc : isDigit c = false := hc
      rw [digitLoop, hc, if_neg Bool.false_ne_true]

theorem digitLoop_digit (hc : isDigit c = true)
    (hnext : isSeparator (charAt txt) = false ∨ scaled = false ∨ hasDecimSepar = true) :
    digitLoop accumulate scaled hasDecimSepar v scale (c :: txt) =
      (accumulate v (digitOf c)).bind fun v =>
        digitLoop accumulate scaled hasDecimSepar v
          (if hasDecimSepar then scale + 1 else scale) txt := by
  rw [digitLoop, hc, if_pos rfl]
  cases accumulate v (digitOf c) with
  | none => rfl
  | some v =>
      cases txt with
      | nil => rfl
      | cons next rest =>
          have hnot : ¬ (isSeparator next = true ∧ scaled = true ∧ ¬ hasDecimSepar = true) := by
            rintro ⟨hseparator, hscaled, hfirst⟩
            obtain hother | hother | hother := hnext
            · exact Bool.false_ne_true (hother.symm.trans hseparator)
            · exact Bool.false_ne_true (hother.symm.trans hscaled)
            · exact hfirst hother
          dsimp only [Option.bind_some]
          rw [if_neg hnot]

theorem digitLoop_separator (hc : isDigit c = true) {next : UInt8}
    (hnext : isSeparator next = true) :
    digitLoop accumulate true false v scale (c :: next :: txt) =
      (accumulate v (digitOf c)).bind fun v => digitLoop accumulate true true v scale txt := by
  rw [digitLoop, hc, if_pos rfl]
  cases accumulate v (digitOf c) with
  | none => rfl
  | some v =>
      dsimp only [Option.bind_some]
      rw [if_pos ⟨hnext, rfl, Bool.false_ne_true⟩, if_neg Bool.false_ne_true]

theorem charAt_digits {rest : List UInt8} (hdigits : AllDigits digits)
    (hrest : isSeparator (charAt rest) = false ∨ scaled = false ∨ hasDecimSepar = true) :
    isSeparator (charAt (digits ++ rest)) = false ∨ scaled = false ∨ hasDecimSepar = true := by
  cases digits with
  | nil => exact hrest
  | cons c digits =>
      refine Or.inl ?_
      have hc := hdigits c List.mem_cons_self
      cases hseparator : isSeparator c with
      | false => exact hseparator
      | true =>
          rw [separator_not_digit hseparator] at hc
          cases hc

theorem digitLoop_digits {rest : List UInt8} (hdigits : AllDigits digits)
    (hstop : isDigit (charAt rest) = false)
    (hrest : isSeparator (charAt rest) = false ∨ scaled = false ∨ hasDecimSepar = true) :
    digitLoop accumulate scaled hasDecimSepar v scale (digits ++ rest) =
      (accumulateAll accumulate v digits).map fun v =>
        (v, if hasDecimSepar then scale + digits.length else scale, rest) := by
  induction digits generalizing v scale with
  | nil =>
      rw [List.nil_append, digitLoop_stop hstop, accumulateAll_nil, Option.map_some]
      cases hasDecimSepar <;> rfl
  | cons c digits ih =>
      have hc := hdigits c List.mem_cons_self
      have htail : AllDigits digits := fun c hmem => hdigits c (List.mem_cons_of_mem _ hmem)
      rw [List.cons_append, digitLoop_digit hc (charAt_digits htail hrest), accumulateAll_cons]
      cases accumulate v (digitOf c) with
      | none => rfl
      | some v =>
          rw [Option.bind_some, Option.bind_some, ih htail]
          congr 1
          funext v
          cases hasDecimSepar with
          | false => rfl
          | true =>
              simp only [if_true, List.length_cons]
              rw [Nat.add_assoc, Nat.add_comm 1]

theorem digitLoop_through {next : UInt8} {rest : List UInt8} (hdigits : AllDigits digits)
    (hne : digits ≠ []) (hnext : isSeparator next = true) :
    digitLoop accumulate true false v scale (digits ++ next :: rest) =
      (accumulateAll accumulate v digits).bind fun v =>
        digitLoop accumulate true true v scale rest := by
  induction digits generalizing v with
  | nil => exact absurd rfl hne
  | cons c digits ih =>
      have hc := hdigits c List.mem_cons_self
      have htail : AllDigits digits := fun c hmem => hdigits c (List.mem_cons_of_mem _ hmem)
      cases digits with
      | nil =>
          rw [List.singleton_append, digitLoop_separator hc hnext, accumulateAll_cons]
          cases accumulate v (digitOf c) <;> rfl
      | cons second digits =>
          have hsecond : isSeparator (charAt ((second :: digits) ++ next :: rest)) = false := by
            have hdigit := htail second List.mem_cons_self
            cases hseparator : isSeparator second with
            | false => exact hseparator
            | true =>
                rw [separator_not_digit hseparator] at hdigit
                cases hdigit
          rw [List.cons_append, digitLoop_digit hc (Or.inl hsecond), accumulateAll_cons]
          cases accumulate v (digitOf c) with
          | none => rfl
          | some v =>
              rw [Option.bind_some, Option.bind_some, if_neg Bool.false_ne_true]
              exact ih htail (List.cons_ne_nil _ _)

theorem charAt_blank {blanks : List UInt8} (hblanks : AllBlank blanks) :
    isDigit (charAt blanks) = false ∧ isSeparator (charAt blanks) = false := by
  cases blanks with
  | nil => decide
  | cons c blanks =>
      have hc := hblanks c List.mem_cons_self
      exact ⟨blank_not_digit hc, blank_not_separator hc⟩

theorem skipBlanks_head (hc : isBlank (charAt txt) = false) : skipBlanks txt = txt := by
  cases txt with
  | nil => rfl
  | cons c rest =>
      have hc : isBlank c = false := hc
      rw [skipBlanks, List.dropWhile_cons, hc, if_neg Bool.false_ne_true]

theorem charAt_digit (hdigits : AllDigits digits) (hne : digits ≠ []) (rest : List UInt8) :
    isDigit (charAt (digits ++ rest)) = true := by
  cases digits with
  | nil => exact absurd rfl hne
  | cons c digits => exact hdigits c List.mem_cons_self

theorem digit_not_separator {c : UInt8} (hc : isDigit c = true) : isSeparator c = false := by
  cases hseparator : isSeparator c with
  | false => rfl
  | true =>
      rw [separator_not_digit hseparator] at hc
      cases hc

theorem skipBlanks_after {after : List UInt8} (hafter : AllBlank after) (decimals : Nat)
    (result : Option Nat) :
    (match result.map fun v => (v, decimals, after) with
      | none => none
      | some (v, scale, txt) => some (v, scale, skipBlanks txt)) =
        result.map fun v => (v, decimals, ([] : List UInt8)) := by
  cases result with
  | none => rfl
  | some v => simp only [Option.map_some, skipBlanks_all hafter]

/-- What is read from a number that blanks surround. -/
theorem unsScaled_text (numeral : Numeral) {blanks after : List UInt8} (hblanks : AllBlank blanks)
    (hafter : AllBlank after) (hscaled : numeral.separator = none ∨ scaled = true) :
    unsScaled accumulate scaled (blanks ++ (numeral.text ++ after)) =
      (accumulateAll accumulate 0 numeral.digits).map fun v => (v, numeral.decimals, []) := by
  obtain ⟨whole, separator, fraction, hwhole, hfraction, hseparates, hunseparated, hsome⟩ :=
    numeral
  obtain ⟨hstop, hnoseparator⟩ := charAt_blank hafter
  have hend := skipBlanks_after hafter fraction.length
  simp only [Numeral.text, Numeral.digits, Numeral.decimals]
  unfold unsScaled
  rw [skipBlanks_append hblanks]
  cases separator with
  | none =>
      obtain rfl : fraction = [] := hunseparated rfl
      have hne : whole ≠ [] := fun heq => hsome (by rw [heq, List.append_nil])
      have hdigit := charAt_digit hwhole hne after
      have hhead := skipBlanks_head (digit_not_blank hdigit)
      simp only [Option.toList_none, List.append_nil]
      rw [hhead]
      simp only [digit_not_separator hdigit, Bool.false_and, Bool.false_eq_true, if_false, hdigit,
        if_true]
      rw [digitLoop_digits hwhole hstop (Or.inl hnoseparator)]
      exact hend _
  | some next =>
      have hnext : isSeparator next = true := hseparates next rfl
      have hscaled : scaled = true := by
        obtain hnone | hscaled := hscaled
        · cases hnone
        · exact hscaled
      subst hscaled
      simp only [Option.toList_some, List.append_assoc, List.cons_append, List.nil_append]
      cases whole with
      | nil =>
          have hne : fraction ≠ [] := hsome
          have hdigit := charAt_digit hfraction hne after
          have hcharAt : charAt (next :: (fraction ++ after)) = next := rfl
          have hhead : isBlank (charAt (next :: (fraction ++ after))) = false :=
            separator_not_blank hnext
          rw [List.nil_append, skipBlanks_head hhead]
          simp only [hcharAt, hnext, Bool.true_and, if_true, List.tail_cons, hdigit,
            List.nil_append]
          rw [digitLoop_digits hfraction hstop (Or.inr (Or.inr rfl))]
          simp only [if_true, Nat.zero_add]
          exact hend _
      | cons first whole =>
          have hne : first :: whole ≠ [] := List.cons_ne_nil _ _
          have hdigit := charAt_digit hwhole hne (next :: (fraction ++ after))
          rw [skipBlanks_head (digit_not_blank hdigit)]
          simp only [digit_not_separator hdigit, Bool.false_and, Bool.false_eq_true, if_false,
            hdigit, if_true]
          rw [digitLoop_through hwhole hne hnext, accumulateAll_append]
          cases accumulateAll accumulate 0 (first :: whole) with
          | none => rfl
          | some v =>
              rw [Option.bind_some, Option.bind_some,
                digitLoop_digits hfraction hstop (Or.inr (Or.inr rfl))]
              simp only [if_true, Nat.zero_add]
              exact hend _

theorem split_blanks (txt : List UInt8) :
    ∃ blanks, AllBlank blanks ∧ txt = blanks ++ skipBlanks txt :=
  ⟨txt.takeWhile isBlank, fun _ hmem => List.mem_takeWhile_imp hmem,
    List.takeWhile_append_dropWhile.symm⟩

theorem split_digits (txt : List UInt8) :
    ∃ digits rest, AllDigits digits ∧ isDigit (charAt rest) = false ∧ txt = digits ++ rest := by
  refine ⟨txt.takeWhile isDigit, txt.dropWhile isDigit, fun _ hmem => List.mem_takeWhile_imp hmem,
    ?_, List.takeWhile_append_dropWhile.symm⟩
  induction txt with
  | nil => decide
  | cons c txt ih =>
      rw [List.dropWhile_cons]
      split
      case isTrue => exact ih
      case isFalse hc => exact Bool.eq_false_iff.mpr hc

theorem split_digit (hdigit : isDigit (charAt txt) = true) :
    ∃ digits rest, AllDigits digits ∧ digits ≠ [] ∧ isDigit (charAt rest) = false ∧
      txt = digits ++ rest := by
  obtain ⟨digits, rest, hdigits, hstop, rfl⟩ := split_digits txt
  refine ⟨digits, rest, hdigits, ?_, hstop, rfl⟩
  rintro rfl
  rw [List.nil_append, hstop] at hdigit
  cases hdigit

theorem head_of_separator (hseparator : isSeparator (charAt txt) = true) :
    ∃ next rest, txt = next :: rest ∧ isSeparator next = true := by
  cases txt with
  | nil => cases hseparator
  | cons next rest => exact ⟨next, rest, rfl, hseparator⟩

/-- What is read is a number between blanks. -/
structure ReadsNumeral (accumulate : Nat → Nat → Option Nat) (scaled : Bool) (txt : List UInt8)
    (v scale : Nat) (rest : List UInt8) (numeral : Numeral) : Prop where
  text : ∃ blanks after, AllBlank blanks ∧ AllBlank after ∧
    txt = blanks ++ (numeral.text ++ (after ++ rest))
  scaled : numeral.separator = none ∨ scaled = true
  value : accumulateAll accumulate 0 numeral.digits = some v
  decimals : scale = numeral.decimals

theorem unsScaled_shape {rest : List UInt8}
    (hread : unsScaled accumulate scaled txt = some (v, scale, rest)) :
    ∃ numeral, ReadsNumeral accumulate scaled txt v scale rest numeral := by
  obtain ⟨blanks, hblanks, htxt⟩ := split_blanks txt
  unfold unsScaled at hread
  generalize skipBlanks txt = text at htxt hread
  cases hfirst : isSeparator (charAt text) && scaled with
  | true =>
      obtain ⟨hseparator, rfl⟩ := Bool.and_eq_true_iff.mp hfirst
      obtain ⟨next, tail, rfl, hnext⟩ := head_of_separator hseparator
      simp only [hfirst, if_true, List.tail_cons] at hread
      split at hread
      case isFalse => cases hread
      case isTrue hdigit =>
        obtain ⟨digits, left, hdigits, hne, hstop, rfl⟩ := split_digit hdigit
        obtain ⟨after, hafter, hleft⟩ := split_blanks left
        rw [digitLoop_digits hdigits hstop (Or.inr (Or.inr rfl)), if_pos rfl, Nat.zero_add]
          at hread
        cases hvalue : accumulateAll accumulate 0 digits with
        | none =>
            rw [hvalue] at hread
            cases hread
        | some value =>
            rw [hvalue] at hread
            cases hread
            refine ⟨⟨[], some next, digits, fun _ hmem => (by cases hmem), hdigits, ?_, ?_, hne⟩,
              ⟨blanks, after, hblanks, hafter, ?_⟩, Or.inr rfl, hvalue, rfl⟩
            · rintro c ⟨⟩
              exact hnext
            · intro hnone
              cases hnone
            · rw [← hleft]
              exact htxt
  | false =>
      simp only [hfirst, Bool.false_eq_true, if_false] at hread
      split at hread
      case isFalse => cases hread
      case isTrue hdigit =>
        obtain ⟨digits, left, hdigits, hne, hstop, rfl⟩ := split_digit hdigit
        cases hsecond : isSeparator (charAt left) && scaled with
        | true =>
            obtain ⟨hseparator, rfl⟩ := Bool.and_eq_true_iff.mp hsecond
            obtain ⟨next, tail, rfl, hnext⟩ := head_of_separator hseparator
            obtain ⟨fraction, left, hfraction, hend, rfl⟩ := split_digits tail
            obtain ⟨after, hafter, hleft⟩ := split_blanks left
            rw [digitLoop_through hdigits hne hnext] at hread
            cases hwhole : accumulateAll accumulate 0 digits with
            | none =>
                rw [hwhole] at hread
                cases hread
            | some whole =>
                rw [hwhole, Option.bind_some,
                  digitLoop_digits hfraction hend (Or.inr (Or.inr rfl)), if_pos rfl,
                  Nat.zero_add] at hread
                cases hvalue : accumulateAll accumulate whole fraction with
                | none =>
                    rw [hvalue] at hread
                    cases hread
                | some value =>
                    rw [hvalue] at hread
                    cases hread
                    refine ⟨⟨digits, some next, fraction, hdigits, hfraction, ?_, ?_, ?_⟩,
                      ⟨blanks, after, hblanks, hafter, ?_⟩, Or.inr rfl, ?_, rfl⟩
                    · rintro c ⟨⟩
                      exact hnext
                    · intro hnone
                      cases hnone
                    · exact fun heq => hne (List.append_eq_nil_iff.mp heq).1
                    · rw [← hleft, htxt]
                      simp only [Numeral.text, Option.toList_some, List.append_assoc,
                        List.cons_append, List.nil_append]
                    · rw [Numeral.digits, accumulateAll_append, hwhole]
                      exact hvalue
        | false =>
            have hrest : isSeparator (charAt left) = false ∨ scaled = false ∨ false = true := by
              cases Bool.and_eq_false_iff.mp hsecond with
              | inl hother => exact Or.inl hother
              | inr hother => exact Or.inr (Or.inl hother)
            obtain ⟨after, hafter, hleft⟩ := split_blanks left
            rw [digitLoop_digits hdigits hstop hrest, if_neg Bool.false_ne_true] at hread
            cases hvalue : accumulateAll accumulate 0 digits with
            | none =>
                rw [hvalue] at hread
                cases hread
            | some value =>
                rw [hvalue] at hread
                cases hread
                refine ⟨⟨digits, none, [], hdigits, fun _ hmem => (by cases hmem), ?_, ?_, ?_⟩,
                  ⟨blanks, after, hblanks, hafter, ?_⟩, Or.inl rfl, ?_, rfl⟩
                · rintro c ⟨⟩
                · exact fun _ => rfl
                · rw [List.append_nil]
                  exact hne
                · rw [← hleft, htxt]
                  simp only [Numeral.text, Option.toList_none, List.append_nil]
                · rw [Numeral.digits, List.append_nil]
                  exact hvalue

end Loop

/-! The sign and the end check. -/

section Signed

variable {accumulate : Nat → Nat → Option Nat} {scaled : Bool} {outside : Nat → Bool}

theorem charAt_numeral (numeral : Numeral) (rest : List UInt8) :
    isDigit (charAt (numeral.text ++ rest)) = true ∨
      isSeparator (charAt (numeral.text ++ rest)) = true := by
  obtain ⟨whole, separator, fraction, hwhole, hfraction, hseparates, hunseparated, hsome⟩ :=
    numeral
  simp only [Numeral.text]
  cases whole with
  | cons first whole => exact Or.inl (hwhole first List.mem_cons_self)
  | nil =>
      cases separator with
      | none =>
          obtain rfl : fraction = [] := hunseparated rfl
          exact absurd rfl hsome
      | some next => exact Or.inr (hseparates next rfl)

theorem charAt_numeral_plain (numeral : Numeral) (rest : List UInt8) :
    isBlank (charAt (numeral.text ++ rest)) = false ∧
      isSign (charAt (numeral.text ++ rest)) = false ∧ charAt (numeral.text ++ rest) ≠ 0 := by
  obtain hdigit | hseparator := charAt_numeral numeral rest
  · refine ⟨digit_not_blank hdigit, digit_not_sign hdigit, fun hzero => ?_⟩
    rw [hzero] at hdigit
    cases hdigit
  · refine ⟨separator_not_blank hseparator, separator_not_sign hseparator, fun hzero => ?_⟩
    rw [hzero] at hseparator
    cases hseparator

theorem parseSigned_text (signed : SignedText)
    (hscaled : signed.numeral.separator = none ∨ scaled = true) :
    parseSigned (unsScaled accumulate scaled) outside signed.text =
      match accumulateAll accumulate 0 signed.numeral.digits with
      | none => none
      | some v =>
          if outside v then none
          else some (.number (SignedText.withSign signed.sign v) signed.numeral.decimals) := by
  obtain ⟨before, sign, inner, numeral, after, hbefore, hinner, hafter, hunsigned⟩ := signed
  have hread := @unsScaled_text accumulate scaled numeral inner after hinner hafter hscaled
  obtain ⟨hblank, hsign, hzero⟩ := charAt_numeral_plain numeral after
  have hparse : ∀ text : List UInt8, isBlank (charAt text) = false → charAt text ≠ 0 →
      (if isSign (charAt text) then text.tail else text) = inner ++ (numeral.text ++ after) →
      (charAt text = 45 ↔ sign = some true) →
      parseSigned (unsScaled accumulate scaled) outside (before ++ text) =
        match accumulateAll accumulate 0 numeral.digits with
        | none => none
        | some v =>
            if outside v then none
            else some (.number (SignedText.withSign sign v) numeral.decimals) := by
    intro text hblank hzero htail hneg
    have hskip : skipBlanks (before ++ text) = text := by
      rw [skipBlanks_append hbefore, skipBlanks_head hblank]
    simp only [parseSigned, hskip, hzero, if_false, htail, hread, hneg]
    cases accumulateAll accumulate 0 numeral.digits with
    | none => rfl
    | some v =>
        have hend : charAt [] = 0 := rfl
        simp only [Option.map_some, hend, ne_eq, not_true_eq_false, or_false]
        rfl
  obtain ⟨hblank, hsign, hzero⟩ := charAt_numeral_plain numeral after
  cases sign with
  | none =>
      obtain rfl : inner = [] := hunsigned rfl
      refine hparse (numeral.text ++ after) hblank hzero ?_ ?_
      · rw [hsign, if_neg Bool.false_ne_true, List.nil_append]
      · constructor
        · intro hminus
          rw [hminus] at hsign
          cases hsign
        · intro hnone
          cases hnone
  | some neg =>
      have hminus : (45 : UInt8) ≠ 0 := by decide
      have hplus : (43 : UInt8) ≠ 0 := by decide
      have hother : (43 : UInt8) ≠ 45 := by decide
      cases neg with
      | true =>
          exact hparse (45 :: (inner ++ (numeral.text ++ after))) rfl hminus rfl
            ⟨fun _ => rfl, fun _ => rfl⟩
      | false =>
          refine hparse (43 :: (inner ++ (numeral.text ++ after))) rfl hplus rfl ?_
          exact ⟨fun hfalse => absurd hfalse hother, fun hfalse => by cases hfalse⟩

/-- What is parsed is a number with its sign, or the text is blank. -/
structure ParsesNumber (accumulate : Nat → Nat → Option Nat) (scaled : Bool) (outside : Nat → Bool)
    (txt : List UInt8) (val : Int) (scale : Nat) (signed : SignedText) : Prop where
  text : signed.text = txt
  scaled : signed.numeral.separator = none ∨ scaled = true
  value : ∃ v, accumulateAll accumulate 0 signed.numeral.digits = some v ∧ outside v = false ∧
    val = SignedText.withSign signed.sign v
  decimals : scale = signed.numeral.decimals

theorem nil_of_charAt {txt rest : List UInt8} (hzero : 0 ∉ txt) (hsub : ∀ c ∈ rest, c ∈ txt)
    (hend : charAt rest = 0) : rest = [] := by
  cases rest with
  | nil => rfl
  | cons c rest =>
      have hc : c = 0 := hend
      exact absurd (hc ▸ hsub c List.mem_cons_self) hzero

theorem parseSigned_shape (txt : Text) {val : Int} {scale : Nat}
    (hparse : parseSigned (unsScaled accumulate scaled) outside txt.val =
      some (.number val scale)) :
    ∃ signed, ParsesNumber accumulate scaled outside txt.val val scale signed := by
  obtain ⟨txt, hzero⟩ := txt
  obtain ⟨before, hbefore, htxt⟩ := split_blanks txt
  dsimp only at hparse ⊢
  unfold parseSigned at hparse
  generalize skipBlanks txt = text at htxt hparse
  dsimp only at hparse
  split at hparse
  case isTrue => cases hparse
  case isFalse =>
    split at hparse
    case h_1 => cases hparse
    case h_2 v decimals rest hread =>
      split at hparse
      case isTrue => cases hparse
      case isFalse hend =>
        obtain ⟨houtside, hnul⟩ := not_or.mp hend
        have houtside := Bool.eq_false_iff.mpr houtside
        obtain ⟨numeral, ⟨blanks, after, hblanks, hafter, htext⟩, hscaled, hvalue, hdecimals⟩ :=
          unsScaled_shape hread
        cases hparse
        cases hsign : isSign (charAt text) with
        | true =>
            obtain ⟨c, tail, rfl⟩ : ∃ c tail, text = c :: tail := by
              cases text with
              | nil => cases hsign
              | cons c tail => exact ⟨c, tail, rfl⟩
            rw [if_pos hsign, List.tail_cons] at htext
            have hrest : rest = [] := by
              refine nil_of_charAt hzero (fun c' hmem => ?_) (of_not_not hnul)
              rw [htxt, htext]
              simp only [List.mem_append, List.mem_cons, hmem, or_true]
            obtain rfl | rfl : c = 45 ∨ c = 43 := of_decide_eq_true hsign
            · refine ⟨⟨before, some true, blanks, numeral, after, hbefore, hblanks, hafter,
                fun hnone => by cases hnone⟩, ?_, hscaled, ⟨v, hvalue, houtside, rfl⟩, hdecimals⟩
              rw [htxt, htext, hrest, List.append_nil]
              rfl
            · refine ⟨⟨before, some false, blanks, numeral, after, hbefore, hblanks, hafter,
                fun hnone => by cases hnone⟩, ?_, hscaled, ⟨v, hvalue, houtside, rfl⟩, hdecimals⟩
              rw [htxt, htext, hrest, List.append_nil]
              rfl
        | false =>
            rw [hsign, if_neg Bool.false_ne_true] at htext
            have hrest : rest = [] := by
              refine nil_of_charAt hzero (fun c' hmem => ?_) (of_not_not hnul)
              rw [htxt, htext]
              simp only [List.mem_append, hmem, or_true]
            have hneg : ¬ charAt text = 45 := by
              intro hminus
              rw [hminus] at hsign
              cases hsign
            have hboth : AllBlank (before ++ blanks) := by
              intro c hmem
              cases List.mem_append.mp hmem with
              | inl hmem => exact hbefore c hmem
              | inr hmem => exact hblanks c hmem
            refine ⟨⟨before ++ blanks, none, [], numeral, after, hboth,
              fun _ hmem => (by cases hmem), hafter, fun _ => rfl⟩, ?_, hscaled,
              ⟨v, hvalue, houtside, if_neg hneg⟩, hdecimals⟩
            rw [htxt, htext, hrest, List.append_nil]
            simp only [SignedText.text, signText, List.nil_append, List.append_assoc]

theorem parseSigned_null (txt : Text) :
    parseSigned (unsScaled accumulate scaled) outside txt.val = some .null ↔ AllBlank txt.val := by
  obtain ⟨txt, hzero⟩ := txt
  dsimp only
  constructor
  · intro hparse
    obtain ⟨before, hbefore, htxt⟩ := split_blanks txt
    unfold parseSigned at hparse
    generalize skipBlanks txt = text at htxt hparse
    dsimp only at hparse
    split at hparse
    case isTrue hend =>
      have htext : text = [] := by
        refine nil_of_charAt hzero (fun c hmem => ?_) hend
        rw [htxt]
        exact List.mem_append_right _ hmem
      rw [htxt, htext, List.append_nil]
      exact hbefore
    case isFalse =>
      split at hparse
      case h_1 => cases hparse
      case h_2 =>
        split at hparse
        case isTrue => cases hparse
        case isFalse => cases hparse
  · intro hblank
    unfold parseSigned
    rw [skipBlanks_all hblank]
    rfl

end Signed

end Sql602.Convert
