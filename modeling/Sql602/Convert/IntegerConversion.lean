import Sql602.Convert.IntegerTexts

namespace Sql602.Convert

open Rounding

/-! The conversion of integers to texts and back. -/

section Numbers

variable {v : Nat} {digits : List UInt8}

theorem numberFrom_cons (v : Nat) (c : UInt8) (digits : List UInt8) :
    numberFrom v (c :: digits) = numberFrom (10 * v + digitOf c) digits := by
  rw [numberFrom, List.foldl_cons]
  rfl

theorem le_numberFrom (v : Nat) (digits : List UInt8) : v ≤ numberFrom v digits := by
  induction digits generalizing v with
  | nil => exact Nat.le_refl v
  | cons c digits ih =>
      have hle := ih (10 * v + digitOf c)
      rw [numberFrom_cons]
      omega

theorem accumulate32_eq (v : Nat) {digit : Nat} (hdigit : digit < 10) :
    accumulate32 v digit = if 10 * v + digit < 2 ^ 32 then some (10 * v + digit) else none := by
  unfold accumulate32
  split
  case isTrue hover => rw [if_neg (by omega)]
  case isFalse hfits =>
    have hlt : 10 * v + digit < 2 ^ 32 := by omega
    rw [if_pos hlt, Nat.mod_eq_of_lt hlt]

theorem accumulateAll32 (hdigits : AllDigits digits) :
    accumulateAll accumulate32 v digits =
      if digits = [] ∨ numberFrom v digits < 2 ^ 32 then some (numberFrom v digits) else none := by
  induction digits generalizing v with
  | nil => rw [accumulateAll_nil, if_pos (Or.inl rfl)]; rfl
  | cons c digits ih =>
      have hc := digitOf_lt (hdigits c List.mem_cons_self)
      have htail : AllDigits digits := fun c hmem => hdigits c (List.mem_cons_of_mem _ hmem)
      have hle := le_numberFrom (10 * v + digitOf c) digits
      rw [accumulateAll_cons, accumulate32_eq v hc, numberFrom_cons]
      split
      case isTrue hlt =>
        rw [Option.bind_some, ih htail]
        cases digits with
        | nil =>
            rw [if_pos (Or.inl rfl)]
            exact (if_pos (Or.inr hlt)).symm
        | cons next digits => simp only [reduceCtorEq, false_or]
      case isFalse hover =>
        rw [Option.bind_none, if_neg]
        rintro (hnil | hlt)
        · cases hnil
        · omega

theorem accumulateAll64 (hdigits : AllDigits digits) (hfits : numberFrom v digits < 2 ^ 63) :
    accumulateAll accumulate64 v digits = some (numberFrom v digits) := by
  induction digits generalizing v with
  | nil => rfl
  | cons c digits ih =>
      have htail : AllDigits digits := fun c hmem => hdigits c (List.mem_cons_of_mem _ hmem)
      have hle := le_numberFrom (10 * v + digitOf c) digits
      rw [numberFrom_cons] at hfits ⊢
      have hlt : 10 * v + digitOf c < 2 ^ 63 := by omega
      have hmod : (10 * v + digitOf c) % 2 ^ 64 = 10 * v + digitOf c :=
        Nat.mod_eq_of_lt (by omega)
      rw [accumulateAll_cons, accumulate64, hmod, if_neg (by omega), Option.bind_some]
      exact ih htail hfits

theorem Numeral.all_digits (numeral : Numeral) : AllDigits numeral.digits := by
  intro c hmem
  cases List.mem_append.mp hmem with
  | inl hmem => exact numeral.whole_digits c hmem
  | inr hmem => exact numeral.fraction_digits c hmem

end Numbers

/-- The integer that a text stands for: NULL, or the number scaled and rounded half away from
zero. Neither the number without its separator nor the result is outside the range. -/
def Denotes (max none scale : Int) (txt : List UInt8) (val : Int) : Prop :=
  AllBlank txt ∧ val = none ∨
    ∃ signed : SignedText, signed.text = txt ∧
      (scale = 0 → signed.numeral.separator = Option.none) ∧
      (signed.numeral.number : Int) ≤ max ∧
      |roundAway (shifted signed.unscaled (scale - signed.numeral.decimals))| ≤ max ∧
      val = roundAway (shifted signed.unscaled (scale - signed.numeral.decimals))

theorem abs_withSign (sign : Option Bool) (v : Nat) : |SignedText.withSign sign v| = v := by
  unfold SignedText.withSign
  split
  · rw [abs_neg, abs_of_nonneg (Int.natCast_nonneg v)]
  · exact abs_of_nonneg (Int.natCast_nonneg v)

/-- What is common to the parsers of scaled integers. -/
def parseSpec (accumulate : Nat → Nat → Option Nat) (outside : Nat → Bool) (none : Int)
    (rescale : Int → Int → Option Int) (txt : List UInt8) (scale : Int) : Option Int :=
  match parseSigned (unsScaled accumulate (decide (scale ≠ 0))) outside txt with
  | Option.none => Option.none
  | some .null => some none
  | some (.number val decimals) => if scale = 0 then some val else rescale val (scale - decimals)

theorem str2intspec_eq (txt : List UInt8) (scale : Int) :
    str2intspec txt scale = parseSpec accumulate32 outside32 NONEINTEGER scaleInteger txt scale := by
  unfold str2intspec parseSpec
  obtain rfl | hscale := eq_or_ne scale 0
  · rfl
  · simp only [hscale, if_false, ne_eq, not_false_eq_true, decide_true]
    rfl

theorem str2int64spec_eq (txt : List UInt8) (scale : Int) :
    str2int64spec txt scale =
      parseSpec accumulate64 (fun _ => false) NONEBIGINT scaleInt64 txt scale := by
  unfold str2int64spec parseSpec
  obtain rfl | hscale := eq_or_ne scale 0
  · rfl
  · simp only [hscale, if_false, ne_eq, not_false_eq_true, decide_true]
    rfl

/-- The reading of the digits is right for a number, and so is the scaling of its value. -/
structure Reads (accumulate : Nat → Nat → Option Nat) (outside : Nat → Bool) (max : Int)
    (rescale : Int → Int → Option Int) (scale : Int) (signed : SignedText) : Prop where
  fits : (signed.numeral.number : Int) ≤ max →
    accumulateAll accumulate 0 signed.numeral.digits = some signed.numeral.number ∧
      outside signed.numeral.number = false
  beyond : max < (signed.numeral.number : Int) → ∀ v,
    accumulateAll accumulate 0 signed.numeral.digits = some v → outside v = true
  scales : (signed.numeral.number : Int) ≤ max →
    rescale signed.unscaled (scale - signed.numeral.decimals) =
      if |roundAway (shifted signed.unscaled (scale - signed.numeral.decimals))| ≤ max then
        some (roundAway (shifted signed.unscaled (scale - signed.numeral.decimals)))
      else none

section Parse

variable {accumulate : Nat → Nat → Option Nat} {outside : Nat → Bool} {max none scale val : Int}
  {rescale : Int → Int → Option Int}

theorem shifted_zero (val : Int) : roundAway (shifted val 0) = val := by
  have hnone : shifted val 0 = (val : ℚ) := by rw [shifted, zpow_zero, mul_one]
  rw [hnone, roundAway_intCast]

theorem parseSpec_text (signed : SignedText)
    (hreads : Reads accumulate outside max rescale scale signed)
    (hseparator : scale = 0 → signed.numeral.separator = Option.none)
    (hfits : (signed.numeral.number : Int) ≤ max) :
    parseSpec accumulate outside none rescale signed.text scale =
      if |roundAway (shifted signed.unscaled (scale - signed.numeral.decimals))| ≤ max then
        some (roundAway (shifted signed.unscaled (scale - signed.numeral.decimals)))
      else Option.none := by
  have hscaled : signed.numeral.separator = Option.none ∨ decide (scale ≠ 0) = true := by
    obtain hzero | hscale := eq_or_ne scale 0
    · exact Or.inl (hseparator hzero)
    · exact Or.inr (decide_eq_true hscale)
  obtain ⟨hvalue, houtside⟩ := hreads.fits hfits
  unfold parseSpec
  rw [parseSigned_text signed hscaled, hvalue]
  simp only [houtside, Bool.false_eq_true, if_false]
  split
  case isTrue hzero =>
    have hdecimals : signed.numeral.decimals = 0 := by
      rw [Numeral.decimals, signed.numeral.unseparated (hseparator hzero)]
      rfl
    rw [hzero, hdecimals, Int.natCast_zero, Int.sub_zero, shifted_zero, if_pos]
    · rfl
    · rw [SignedText.unscaled, abs_withSign]
      exact hfits
  case isFalse => exact hreads.scales hfits

theorem parseSpec_iff (txt : Text)
    (hreads : ∀ signed : SignedText, signed.text = txt.val →
      Reads accumulate outside max rescale scale signed) :
    parseSpec accumulate outside none rescale txt.val scale = some val ↔
      Denotes max none scale txt.val val := by
  constructor
  · intro hparse
    cases hresult : parseSigned (unsScaled accumulate (decide (scale ≠ 0))) outside txt.val with
    | none =>
        rw [parseSpec, hresult] at hparse
        cases hparse
    | some parsed =>
        cases parsed with
        | null =>
            rw [parseSpec, hresult] at hparse
            exact Or.inl ⟨(parseSigned_null txt).mp hresult, (Option.some.inj hparse).symm⟩
        | number value decimals =>
            obtain ⟨signed, htext, hscaled, ⟨v, hv, houtside, -⟩, -⟩ :=
              parseSigned_shape txt hresult
            have hreads := hreads signed htext
            have hfits : (signed.numeral.number : Int) ≤ max := by
              by_contra hover
              have hout := hreads.beyond (Int.not_le.mp hover) v hv
              rw [houtside] at hout
              cases hout
            have hseparator : scale = 0 → signed.numeral.separator = Option.none := by
              intro hzero
              obtain hnone | hscale := hscaled
              · exact hnone
              · exact absurd hzero (of_decide_eq_true hscale)
            have htext' := @parseSpec_text accumulate outside max none scale rescale signed hreads
              hseparator hfits
            rw [htext, hparse] at htext'
            split at htext'
            case isTrue hround =>
              exact Or.inr ⟨signed, htext, hseparator, hfits, hround, Option.some.inj htext'⟩
            case isFalse => cases htext'
  · rintro (⟨hblank, rfl⟩ | ⟨signed, htext, hseparator, hfits, hround, rfl⟩)
    · rw [parseSpec, (parseSigned_null txt).mpr hblank]
    · rw [← htext, parseSpec_text signed (hreads signed htext) hseparator hfits, if_pos hround]

end Parse

/-! Printing. -/

section Print

variable {scale : Int} {t : List UInt8}

theorem digitChar_digit : ∀ d < 10, isDigit (digitChar d) = true ∧ digitOf (digitChar d) = d := by
  decide

theorem numberFrom_append (v : Nat) (first rest : List UInt8) :
    numberFrom v (first ++ rest) = numberFrom (numberFrom v first) rest := by
  rw [numberFrom, List.foldl_append]
  rfl

theorem revertedDigits_digits (n : Nat) : AllDigits (revertedDigits n) := by
  induction n using Nat.strongRecOn with
  | ind n ih =>
      intro c hmem
      rw [revertedDigits] at hmem
      cases List.mem_cons.mp hmem with
      | inl heq =>
          rw [heq]
          exact (digitChar_digit (n % 10) (Nat.mod_lt n (by decide))).1
      | inr hmem =>
          split at hmem
          case isTrue => cases hmem
          case isFalse hmore => exact ih (n / 10) (by omega) c hmem

theorem revertedDigits_ne_nil (n : Nat) : revertedDigits n ≠ [] := by
  rw [revertedDigits]
  exact List.cons_ne_nil _ _

theorem number_revertedDigits (n : Nat) : numberFrom 0 (revertedDigits n).reverse = n := by
  induction n using Nat.strongRecOn with
  | ind n ih =>
      have hdigit := (digitChar_digit (n % 10) (Nat.mod_lt n (by decide))).2
      have hstep : ∀ v, numberFrom v [digitChar (n % 10)] = 10 * v + n % 10 := by
        intro v
        rw [numberFrom_cons, hdigit]
        rfl
      rw [revertedDigits, List.reverse_cons, numberFrom_append, hstep]
      split
      case isTrue hlast =>
        have hnil : numberFrom 0 (List.reverse []) = 0 := rfl
        rw [hnil]
        omega
      case isFalse hmore =>
        rw [ih (n / 10) (by omega)]
        omega

theorem numberFrom_zeros (k : Nat) : numberFrom 0 (List.replicate k 48) = 0 := by
  induction k with
  | zero => rfl
  | succ k ih =>
      rw [List.replicate_succ, numberFrom_cons]
      exact ih

/-- The digits before the separator is put among them. -/
def padded (scale : Int) (t : List UInt8) : List UInt8 :=
  if t.length ≤ scale.toNat then t ++ List.replicate (scale.toNat - t.length + 1) 48 else t

theorem padded_digits (ht : AllDigits t) : AllDigits (padded scale t) := by
  intro c hmem
  unfold padded at hmem
  split at hmem
  case isTrue =>
    cases List.mem_append.mp hmem with
    | inl hmem => exact ht c hmem
    | inr hmem =>
        rw [List.eq_of_mem_replicate hmem]
        rfl
  case isFalse => exact ht c hmem

theorem lt_length_padded : scale.toNat < (padded scale t).length := by
  unfold padded
  split
  case isTrue hshort =>
    rw [List.length_append, List.length_replicate]
    omega
  case isFalse hlong => omega

theorem number_padded : numberFrom 0 (padded scale t).reverse = numberFrom 0 t.reverse := by
  unfold padded
  split
  case isTrue =>
    rw [List.reverse_append, List.reverse_replicate, numberFrom_append, numberFrom_zeros]
  case isFalse => rfl

theorem AllDigits.reverse (ht : AllDigits t) : AllDigits t.reverse :=
  fun c hmem => ht c (List.mem_reverse.mp hmem)

/-- The number that is printed with a decimal separator. -/
def separated (scale : Int) (t : List UInt8) (ht : AllDigits t) : Numeral where
  whole := ((padded scale t).drop scale.toNat).reverse
  separator := some 46
  fraction := ((padded scale t).take scale.toNat).reverse
  whole_digits := AllDigits.reverse fun c hmem => padded_digits ht c (List.mem_of_mem_drop hmem)
  fraction_digits := AllDigits.reverse fun c hmem => padded_digits ht c (List.mem_of_mem_take hmem)
  separates := by
    rintro c ⟨⟩
    rfl
  unseparated hnone := by cases hnone
  some_digit := by
    rw [← List.reverse_append, List.take_append_drop]
    intro hnil
    have hlt := @lt_length_padded scale t
    rw [List.reverse_eq_nil_iff.mp hnil] at hlt
    exact Nat.not_lt_zero _ hlt

def plain (t : List UInt8) (ht : AllDigits t) (hne : t ≠ []) : Numeral where
  whole := t.reverse
  separator := none
  fraction := []
  whole_digits := ht.reverse
  fraction_digits _ hmem := by cases hmem
  separates := by rintro c ⟨⟩
  unseparated _ := rfl
  some_digit := by
    rw [List.append_nil]
    exact fun hnil => hne (List.reverse_eq_nil_iff.mp hnil)

/-- What is printed is a number with as many decimals as the scale says. -/
theorem addSeparator_numeral (n : Nat) (hscale : 0 ≤ scale) (hmost : scale ≤ 50) :
    ∃ numeral : Numeral, numeral.text = (addSeparator scale (revertedDigits n)).reverse ∧
      numeral.number = n ∧ (numeral.decimals : Int) = scale ∧
      (scale = 0 → numeral.separator = none) := by
  have hdigits := revertedDigits_digits n
  unfold addSeparator
  split
  case isTrue hsome =>
    refine ⟨separated scale (revertedDigits n) hdigits, ?_, ?_, ?_, ?_⟩
    · change _ = ((padded scale (revertedDigits n)).take scale.toNat ++
        46 :: (padded scale (revertedDigits n)).drop scale.toNat).reverse
      rw [List.reverse_append, List.reverse_cons, List.append_assoc]
      simp only [Numeral.text, separated, Option.toList_some, List.append_assoc]
    · rw [Numeral.number, Numeral.digits, separated, ← List.reverse_append,
        List.take_append_drop, number_padded, number_revertedDigits]
    · have hlt := @lt_length_padded scale (revertedDigits n)
      rw [Numeral.decimals, separated, List.length_reverse, List.length_take]
      omega
    · intro hzero
      omega
  case isFalse hnone =>
    refine ⟨plain (revertedDigits n) hdigits (revertedDigits_ne_nil n), ?_, ?_, ?_, fun _ => rfl⟩
    · simp only [Numeral.text, plain, Option.toList_none, List.append_nil]
    · rw [Numeral.number, Numeral.digits, plain, List.append_nil, number_revertedDigits]
    · rw [Numeral.decimals, plain, List.length_nil]
      omega

theorem printSpec_signed {none val : Int} (hval : val ≠ none) (hscale : 0 ≤ scale)
    (hmost : scale ≤ 50) :
    ∃ signed : SignedText, signed.text = printSpec none val scale ∧ signed.unscaled = val ∧
      signed.numeral.number = val.natAbs ∧ (signed.numeral.decimals : Int) = scale ∧
      (scale = 0 → signed.numeral.separator = Option.none) := by
  obtain ⟨numeral, htext, hnumber, hdecimals, hseparator⟩ :=
    addSeparator_numeral val.natAbs hscale hmost
  have hblank : AllBlank [] := fun _ hmem => by cases hmem
  refine ⟨⟨[], if val < 0 then some true else Option.none, [], numeral, [], hblank, hblank, hblank,
    fun _ => rfl⟩, ?_, ?_, hnumber, hdecimals, hseparator⟩
  · rw [printSpec, if_neg hval, ← htext]
    simp only [SignedText.text, List.nil_append, List.append_nil]
    congr 1
    split <;> rfl
  · rw [SignedText.unscaled, hnumber, SignedText.withSign]
    split
    case isTrue hneg =>
      rw [if_pos rfl]
      omega
    case isFalse hpos =>
      rw [if_neg (fun hnone => by cases hnone)]
      omega

end Print

/-! The two types. -/

/-- What only happens by a slip near the limits: adding 5 before the last digit is cut off
overflows. -/
def RoundsOver (max scaleDisp val : Int) : Prop := scaleDisp = -1 ∧ max - 5 < |val|

instance (max scaleDisp val : Int) : Decidable (RoundsOver max scaleDisp val) :=
  inferInstanceAs (Decidable (_ ∧ _))

/-- The shift of the decimal point fits into a signed byte. -/
def FitsByte (scaleDisp : Int) : Prop := -128 ≤ scaleDisp ∧ scaleDisp ≤ 127

instance (scaleDisp : Int) : Decidable (FitsByte scaleDisp) :=
  inferInstanceAs (Decidable (_ ∧ _))

/-- The text of a 64-bit number whose digits do not overflow the accumulator. -/
structure Clean64 (scale : Int) (signed : SignedText) : Prop where
  accumulates : signed.numeral.number < 2 ^ 63
  rounds : ¬ RoundsOver MAXBIGINT (scale - signed.numeral.decimals) signed.unscaled
  shifts : FitsByte (scale - signed.numeral.decimals)

theorem scaleInteger_eq {val scaleDisp : Int} (hval : |val| ≤ 2147483647)
    (hround : ¬ RoundsOver 2147483647 scaleDisp val) :
    scaleInteger val scaleDisp =
      if |roundAway (shifted val scaleDisp)| ≤ 2147483647 then
        some (roundAway (shifted val scaleDisp))
      else none := by
  have hroom : scaleDisp = -1 → |val| ≤ width32.max - 5 := by
    intro hlast
    exact Int.not_lt.mp (not_and.mp hround hlast)
  exact @Width.scaleWith_eq width32 val scaleDisp hval hroom

theorem scaleInt64_eq {val scaleDisp : Int} (hval : |val| ≤ MAXBIGINT)
    (hround : ¬ RoundsOver MAXBIGINT scaleDisp val) (hbyte : FitsByte scaleDisp) :
    scaleInt64 val scaleDisp =
      if |roundAway (shifted val scaleDisp)| ≤ MAXBIGINT then
        some (roundAway (shifted val scaleDisp))
      else none := by
  have hroom : scaleDisp = -1 → |val| ≤ width64.max - 5 := by
    intro hlast
    exact Int.not_lt.mp (not_and.mp hround hlast)
  obtain ⟨hlow, hhigh⟩ := hbyte
  have hsig8 : sig8 scaleDisp = scaleDisp := Int.bmod_eq_of_le (by omega) (by omega)
  rw [scaleInt64, hsig8]
  exact @Width.scaleWith_eq width64 val scaleDisp hval hroom

theorem abs_unscaled (signed : SignedText) : |signed.unscaled| = signed.numeral.number :=
  abs_withSign _ _

theorem reads32 {scale : Int} {signed : SignedText}
    (hround : ¬ RoundsOver 2147483647 (scale - signed.numeral.decimals) signed.unscaled) :
    Reads accumulate32 outside32 2147483647 scaleInteger scale signed where
  fits hfits := by
    have hlt : signed.numeral.number < 2 ^ 32 := by omega
    rw [accumulateAll32 signed.numeral.all_digits]
    exact ⟨if_pos (Or.inr hlt), decide_eq_false (by omega)⟩
  beyond hover v hv := by
    rw [accumulateAll32 signed.numeral.all_digits] at hv
    split at hv
    case isTrue =>
      have hnumber : signed.numeral.number = v := Option.some.inj hv
      exact decide_eq_true (by omega)
    case isFalse => cases hv
  scales hfits := scaleInteger_eq (by rw [abs_unscaled]; exact hfits) hround

theorem reads64 {scale : Int} {signed : SignedText} (hclean : Clean64 scale signed) :
    Reads accumulate64 (fun _ => false) MAXBIGINT scaleInt64 scale signed where
  fits _ := ⟨accumulateAll64 signed.numeral.all_digits hclean.accumulates, rfl⟩
  beyond hover := by
    have hnumber := hclean.accumulates
    unfold MAXBIGINT at hover
    omega
  scales hfits :=
    scaleInt64_eq (by rw [abs_unscaled]; exact hfits) hclean.rounds hclean.shifts

theorem printed32 {val scale : Int} (hval : |val| ≤ 2147483647 ∨ val = NONEINTEGER)
    (hscale : 0 ≤ scale) (hmost : scale ≤ 50) :
    str2intspec (intspec2str val scale) scale = some val := by
  rw [str2intspec_eq]
  obtain rfl | hne := eq_or_ne val NONEINTEGER
  · rfl
  · obtain ⟨signed, htext, hunscaled, hnumber, hdecimals, hseparator⟩ :=
      printSpec_signed hne hscale hmost
    have hval := hval.resolve_right hne
    have hfits : (signed.numeral.number : Int) ≤ 2147483647 := by
      rw [hnumber, Int.natCast_natAbs]
      exact hval
    have hround : ¬ RoundsOver 2147483647 (scale - signed.numeral.decimals) signed.unscaled := by
      rintro ⟨hlast, -⟩
      omega
    rw [intspec2str, ← htext, parseSpec_text signed (reads32 hround) hseparator hfits, hunscaled,
      hdecimals, Int.sub_self, shifted_zero, if_pos hval]

theorem printed64 {val scale : Int} (hval : |val| ≤ MAXBIGINT ∨ val = NONEBIGINT)
    (hscale : 0 ≤ scale) (hmost : scale ≤ 50) :
    str2int64spec (int64spec2str val scale) scale = some val := by
  rw [str2int64spec_eq]
  obtain rfl | hne := eq_or_ne val NONEBIGINT
  · rfl
  · obtain ⟨signed, htext, hunscaled, hnumber, hdecimals, hseparator⟩ :=
      printSpec_signed hne hscale hmost
    have hval := hval.resolve_right hne
    have hfits : (signed.numeral.number : Int) ≤ MAXBIGINT := by
      rw [hnumber, Int.natCast_natAbs]
      exact hval
    have hclean : Clean64 scale signed := by
      refine ⟨?_, ?_, by omega, by omega⟩
      · unfold MAXBIGINT at hfits
        omega
      · rintro ⟨hlast, -⟩
        omega
    rw [int64spec2str, ← htext, parseSpec_text signed (reads64 hclean) hseparator hfits, hunscaled,
      hdecimals, Int.sub_self, shifted_zero, if_pos hval]

/-- The conversions of 32-bit integers, but for the slips near the limits. -/
structure Conversion32 : Prop where
  parses : ∀ (txt : Text) (scale : Int8) (val : Int),
    (∀ signed : SignedText, signed.text = txt.val →
      ¬ RoundsOver 2147483647 (scale.toInt - signed.numeral.decimals) signed.unscaled) →
    (str2intspec txt.val scale.toInt = some val ↔
      Denotes 2147483647 NONEINTEGER scale.toInt txt.val val)
  prints : ∀ (val : Int32) (scale : Int8), 0 ≤ scale.toInt → scale.toInt ≤ 50 →
    str2intspec (intspec2str val.toInt scale.toInt) scale.toInt = some val.toInt
  scales : ∀ val scaleDisp : Int, |val| ≤ 2147483647 → ¬ RoundsOver 2147483647 scaleDisp val →
    scaleInteger val scaleDisp =
      if |roundAway (shifted val scaleDisp)| ≤ 2147483647 then
        some (roundAway (shifted val scaleDisp))
      else none

structure Conversion64 : Prop where
  parses : ∀ (txt : Text) (scale : Int8) (val : Int),
    (∀ signed : SignedText, signed.text = txt.val → Clean64 scale.toInt signed) →
    (str2int64spec txt.val scale.toInt = some val ↔
      Denotes MAXBIGINT NONEBIGINT scale.toInt txt.val val)
  prints : ∀ (val : Int64) (scale : Int8), 0 ≤ scale.toInt → scale.toInt ≤ 50 →
    str2int64spec (int64spec2str val.toInt scale.toInt) scale.toInt = some val.toInt
  scales : ∀ val scaleDisp : Int, |val| ≤ MAXBIGINT → ¬ RoundsOver MAXBIGINT scaleDisp val →
    FitsByte scaleDisp →
    scaleInt64 val scaleDisp =
      if |roundAway (shifted val scaleDisp)| ≤ MAXBIGINT then
        some (roundAway (shifted val scaleDisp))
      else none

theorem numberFrom_lt {v : Nat} {digits : List UInt8} (hdigits : AllDigits digits) :
    numberFrom v digits < (v + 1) * 10 ^ digits.length := by
  induction digits generalizing v with
  | nil =>
      rw [List.length_nil, Nat.pow_zero, Nat.mul_one]
      exact Nat.lt_succ_self v
  | cons c digits ih =>
      have hc := digitOf_lt (hdigits c List.mem_cons_self)
      have hlt : numberFrom (10 * v + digitOf c) digits <
          (10 * v + digitOf c + 1) * 10 ^ digits.length :=
        ih fun c hmem => hdigits c (List.mem_cons_of_mem _ hmem)
      have hle : (10 * v + digitOf c + 1) * 10 ^ digits.length ≤
          (v + 1) * 10 * 10 ^ digits.length := Nat.mul_le_mul_right _ (by omega)
      rw [numberFrom_cons, List.length_cons, Nat.pow_succ', ← Nat.mul_assoc]
      omega

theorem SignedText.number_lt (signed : SignedText) :
    signed.numeral.number < 10 ^ signed.text.length := by
  have hlt := @numberFrom_lt 0 _ signed.numeral.all_digits
  have hlength : signed.numeral.digits.length ≤ signed.text.length := by
    simp only [text, Numeral.text, Numeral.digits, List.length_append]
    omega
  have hpow := Nat.pow_le_pow_right (by decide : 0 < 10) hlength
  rw [Nat.zero_add, Nat.one_mul] at hlt
  exact Nat.lt_of_lt_of_le hlt hpow

/-- " -12.5" -/
def sampleText : Text := ⟨[32, 45, 49, 50, 46, 53], by decide⟩

/-- The claimed reading: every decimal text whose rounded value is in the range. -/
def StandsFor (max none scale : Int) (txt : List UInt8) (val : Int) : Prop :=
  AllBlank txt ∧ val = none ∨
    ∃ signed : SignedText, signed.text = txt ∧
      |roundAway (shifted signed.unscaled (scale - signed.numeral.decimals))| ≤ max ∧
      val = roundAway (shifted signed.unscaled (scale - signed.numeral.decimals))

/-- "1.5" -/
def fractionText : Text := ⟨[49, 46, 53], by decide⟩

end Sql602.Convert
