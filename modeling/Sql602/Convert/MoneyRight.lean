import Sql602.Convert.MoneyAmounts

namespace Sql602.Convert

/-! Printing. -/

theorem pomDigits_done {digs : Nat} {m : Monstr} :
    (¬ (digs < 3 ∨ m.moneyHi4 ≠ 0 ∨ m.moneyLo2 ≠ 0)) ↔ 3 ≤ digs ∧ m.bits.toNat = 0 := by
  have hlo := m.moneyLo2.isLt
  rw [Monstr.bits_toNat]
  constructor
  · intro hdone
    simp only [not_or, not_not] at hdone
    obtain ⟨hdigs, hhi, hlo⟩ := hdone
    rw [hhi, hlo]
    exact ⟨Nat.not_lt.mp hdigs, rfl⟩
  · intro ⟨hdigs, hbits⟩
    have hhi : m.moneyHi4 = 0 := BitVec.eq_of_toNat_eq (by change _ = 0; omega)
    have hlo : m.moneyLo2 = 0 := BitVec.eq_of_toNat_eq (by change _ = 0; omega)
    simp only [hhi, hlo, ne_eq, not_true_eq_false, or_self, or_false]
    omega

/-- There are at least three digits, and they fit. -/
theorem pomDigits_spec {room digs : Nat} {m : Monstr} (hm : m.bits.toNat < 2 ^ 47)
    (hroom : m.bits.toNat < 10 ^ room) (hthree : 3 ≤ digs + room) :
    ∃ pom, pomDigits room digs m = some pom ∧ AllDigits pom ∧
      numberFrom 0 pom.reverse = m.bits.toNat ∧ 3 ≤ digs + pom.length ∧ pom.length ≤ room := by
  induction room generalizing digs m with
  | zero =>
      have hzero : m.bits.toNat = 0 := by omega
      refine ⟨[], ?_, nofun, hzero.symm, hthree, Nat.le_refl _⟩
      have hdone : ¬ (digs < 3 ∨ m.moneyHi4 ≠ 0 ∨ m.moneyLo2 ≠ 0) :=
        pomDigits_done.mpr ⟨hthree, hzero⟩
      rw [pomDigits, if_neg hdone]
  | succ room ih =>
      rw [pomDigits]
      split
      case isTrue hmore =>
        have hdiv := moneyDiv10_toNat hm
        have hmod := moneyMod10_eq hm
        obtain ⟨hdigit, hvalue⟩ :=
          digitChar_digit (m.bits.toNat % 10) (Nat.mod_lt _ (by decide))
        have hquot : (moneyDiv10 m).bits.toNat < 10 ^ room := by
          rw [hdiv, Nat.div_lt_iff_lt_mul (by decide)]
          exact hroom
        obtain ⟨pom, hpom, hdigits, hnumber, hlength, hle⟩ :=
          @ih (digs + 1) (moneyDiv10 m) (by omega) hquot (by omega)
        refine ⟨digitChar (m.bits.toNat % 10) :: pom, ?_,
          List.forall_mem_cons.mpr ⟨hdigit, hdigits⟩, ?_, ?_, Nat.succ_le_succ hle⟩
        · rw [hpom, Option.map_some, hmod]
        · have hlast : numberFrom (m.bits.toNat / 10) [digitChar (m.bits.toNat % 10)] =
              10 * (m.bits.toNat / 10) + m.bits.toNat % 10 := by
            rw [numberFrom_cons, hvalue]
            rfl
          rw [List.reverse_cons, numberFrom_append, hnumber, hdiv, hlast]
          omega
        · rw [List.length_cons]
          omega
      case isFalse hdone =>
        obtain ⟨hdigs, hzero⟩ := pomDigits_done.mp hdone
        exact ⟨[], rfl, nofun, hzero.symm, hdigs, Nat.zero_le _⟩

theorem filter_digits {ths : UInt8} (hths : isDigit ths = false) {digits : List UInt8}
    (hdigits : AllDigits digits) : digits.filter (· ≠ ths) = digits := by
  rw [List.filter_eq_self]
  intro c hc
  rw [decide_eq_true_eq]
  intro heq
  rw [heq] at hc
  rw [hdigits ths hc] at hths
  cases hths

theorem filter_kept {c ths : UInt8} (hc : c ≠ ths) (txt : List UInt8) :
    (c :: txt).filter (· ≠ ths) = c :: txt.filter (· ≠ ths) :=
  List.filter_cons_of_pos (p := (· ≠ ths)) (decide_eq_true hc)

theorem filter_removed (ths : UInt8) (txt : List UInt8) :
    (ths :: txt).filter (· ≠ ths) = txt.filter (· ≠ ths) :=
  List.filter_cons_of_neg (p := (· ≠ ths)) (by simp)

/-- The thousands separators can be taken out again. -/
theorem moneyDigits_filter {separ ths : UInt8} {grouped : Bool} {whole fraction : List UInt8}
    (hwhole : AllDigits whole) (hne : whole ≠ []) (htwo : fraction.length = 2)
    (hths : isDigit ths = false) (hsepar : separ ≠ ths) :
    (moneyDigits separ ths grouped (whole ++ fraction)).filter (· ≠ ths) =
      whole ++ separ :: fraction.filter (· ≠ ths) := by
  induction whole with
  | nil => exact absurd rfl hne
  | cons c whole ih =>
      have hc : c ≠ ths := by
        intro heq
        rw [← heq, hwhole c List.mem_cons_self] at hths
        cases hths
      have htail : AllDigits whole := fun d hd => hwhole d (List.mem_cons_of_mem _ hd)
      rw [List.cons_append, moneyDigits, List.length_append, htwo]
      cases whole with
      | nil =>
          have hfraction : moneyDigits separ ths grouped fraction = fraction := by
            match fraction, htwo with
            | [tenth, hundredth], _ =>
                cases grouped <;> rfl
          rw [List.length_nil, Nat.zero_add, if_pos rfl, List.nil_append, hfraction,
            filter_kept hc, filter_kept hsepar]
          rfl
      | cons d whole =>
          have hrest := ih htail (List.cons_ne_nil _ _)
          rw [if_neg (by rw [List.length_cons]; omega)]
          split
          · rw [filter_kept hc, filter_removed, hrest]
            rfl
          · rw [filter_kept hc, hrest]
            rfl

theorem charAt_moneyDigits (separ ths : UInt8) (grouped : Bool) (c : UInt8)
    (pom : List UInt8) : charAt (moneyDigits separ ths grouped (c :: pom)) = c := by
  rw [moneyDigits]
  split
  · rfl
  · split <;> rfl

theorem Separators.written_mark (seps : Separators) (param : Int) :
    seps.isMark (seps.written param) = true := by
  have hpoint : seps.isMark 46 = true := by
    rw [isMark, Bool.or_eq_true]
    exact .inl (decide_eq_true (.inr (.inl rfl)))
  have hcomma : seps.isMark 44 = true := by
    rw [isMark, Bool.or_eq_true]
    exact .inr (decide_eq_true (.inr (.inl rfl)))
  have hsepar : seps.isMark seps.separ = true := by
    rw [isMark, Bool.or_eq_true, separ]
    split
    case isTrue hexplic => exact .inl (decide_eq_true (.inr (.inr ⟨hexplic, rfl⟩)))
    case isFalse hnone => exact .inl (decide_eq_true (.inl rfl))
  simp only [written]
  split
  · exact hpoint
  · split
    · exact hcomma
    · split
      · exact hpoint
      · exact hsepar

theorem digit_plain {c : UInt8} (hc : isDigit c = true) :
    isBlank c = false ∧ isSign c = false ∧ c ≠ 36 ∧ c ≠ 0 := by
  refine ⟨digit_not_blank hc, digit_not_sign hc, ?_, ?_⟩
  · intro heq
    rw [heq] at hc
    cases hc
  · intro heq
    rw [heq] at hc
    cases hc

/-- The text of an amount with a sign only. -/
def printedText {seps : Separators} (neg : Bool) (grouped : List UInt8)
    (amount : Amount seps.isMark) (hfilter : grouped.filter (· ≠ seps.ths) = amount.text)
    (hdigit : isDigit (charAt grouped) = true) : MoneyText seps where
  before := []
  dollar := false
  between := []
  sign := if neg then some true else none
  inner := []
  grouped := grouped
  amount := amount
  before_blank := nofun
  between_blank := nofun
  inner_blank := nofun
  undollared _ := rfl
  unsigned _ := rfl
  grouped_filter := hfilter
  grouped_plain := digit_plain hdigit

theorem printedText_text {seps : Separators} (neg : Bool) (grouped : List UInt8)
    (amount : Amount seps.isMark) (hfilter : grouped.filter (· ≠ seps.ths) = amount.text)
    (hdigit : isDigit (charAt grouped) = true) :
    (printedText neg grouped amount hfilter hdigit).text =
      (if neg then [45] else []) ++ grouped := by
  cases neg <;> rfl

/-- The amount that is printed in full. -/
def fullAmount {isMark : UInt8 → Bool} (whole fraction : List UInt8) (mark : UInt8)
    (hwhole : AllDigits whole) (hne : whole ≠ []) (hfraction : AllDigits fraction)
    (htwo : fraction.length = 2) (hmark : isMark mark = true) : Amount isMark where
  whole := whole
  mark := some mark
  fraction := fraction
  dash := []
  after := []
  whole_digits := hwhole
  fraction_digits := hfraction
  fraction_le := Nat.le_of_eq htwo
  dash_minus := nofun
  dash_le := Nat.zero_le _
  after_blank := nofun
  marks c hc := by
    cases hc
    exact .inl hmark
  starts hnil := absurd hnil hne
  unmarked := nofun

theorem allDigits_nil : AllDigits [] := fun _ hc => absurd hc List.not_mem_nil

theorem unmarked_nil : (none : Option UInt8) = none → ([] : List UInt8) = [] := fun _ => rfl

/-- The amount that is printed with a dash. -/
def dashedAmount (seps : Separators) (whole : List UInt8) (hwhole : AllDigits whole)
    (hne : whole ≠ []) : Amount seps.isMark where
  whole := whole
  mark := some 44
  fraction := []
  dash := [45].filter (· ≠ seps.ths)
  after := [32].filter (· ≠ seps.ths)
  whole_digits := hwhole
  fraction_digits := allDigits_nil
  fraction_le := Nat.zero_le _
  dash_minus c hc := List.mem_singleton.mp (List.mem_of_mem_filter hc)
  dash_le := List.length_filter_le ..
  after_blank c hc := by
    rw [List.mem_singleton.mp (List.mem_of_mem_filter hc)]
    rfl
  marks c hc := by
    cases hc
    exact .inl (seps.written_mark 0)
  starts hnil := absurd hnil hne
  unmarked := nofun

theorem printedText_value {seps : Separators} (neg : Bool) (grouped : List UInt8)
    (amount : Amount seps.isMark) (hfilter : grouped.filter (· ≠ seps.ths) = amount.text)
    (hdigit : isDigit (charAt grouped) = true) :
    (printedText neg grouped amount hfilter hdigit).value =
      if neg then -(amount.hundredths : Int) else amount.hundredths := by
  cases neg <;> rfl

theorem charAt_printed (separ ths : UInt8) (grouped : Bool) {whole : List UInt8}
    (hwhole : AllDigits whole) (hne : whole ≠ []) (fraction : List UInt8) :
    isDigit (charAt (moneyDigits separ ths grouped (whole ++ fraction))) = true := by
  cases whole with
  | nil => exact absurd rfl hne
  | cons c whole =>
      rw [List.cons_append, charAt_moneyDigits]
      exact hwhole c List.mem_cons_self

/-- What is printed with the separator and read again. -/
theorem money2str_text {seps : Separators} {m : Monstr} {param : Int} (hm : m.isNull = false)
    (hwritten : seps.written param ≠ seps.ths) :
    ∃ t : MoneyText seps, money2str seps m param = some t.text ∧ t.value = m.value ∧
      t.amount.text.length ≤ 49 ∧ t.amount.hundredths < 2 ^ 47 := by
  obtain ⟨hlt, htoNat⟩ := magnitude_toNat hm
  have hsign := m.moneyHi4_neg_iff
  have hparam : seps.written (if param = 99 then 1 else param) = seps.written param := by
    by_cases hliteral : param = 99
    · rw [hliteral]
      rfl
    · rw [if_neg hliteral]
  have hcomma : (if param = 99 then 1 else param) = 0 →
      seps.written (if param = 99 then 1 else param) = 44 := by
    intro hzero
    rw [hzero]
    rfl
  rw [hparam] at hcomma
  rw [money2str, if_neg (Bool.eq_false_iff.mp hm)]
  dsimp only
  rw [hparam]
  generalize (if m.moneyHi4.slt 0 then moneyNeg m else m) = magnitude at *
  generalize m.moneyHi4.slt 0 = neg at *
  generalize (if param = 99 then 1 else param) = prez at *
  generalize decide (prez ≠ 0 ∧ prez ≠ 1 ∧ seps.ths ≠ 0) = grouped
  obtain ⟨pom, hpom, hdigits, hnumber, hthree, hle⟩ :=
    @pomDigits_spec 20 0 _ hlt (by omega) (by decide)
  rw [hpom, Option.map_some]
  have hvalue : (if neg then -(m.value.natAbs : Int) else m.value.natAbs) = m.value := by
    split
    case isTrue hneg =>
      have hlow := hsign.mp hneg
      omega
    case isFalse hpos =>
      have hhigh := mt hsign.mpr hpos
      omega
  have hthree : 3 ≤ pom.length := by omega
  match pom, hdigits, hnumber, hthree, hle with
  | hundredth :: tenth :: unit :: rest, hdigits, hnumber, hthree, hle =>
      have hwhole : AllDigits (unit :: rest).reverse := fun c hc =>
        hdigits c (List.mem_cons_of_mem _ (List.mem_cons_of_mem _ (List.mem_reverse.mp hc)))
      have hne : (unit :: rest).reverse ≠ [] := by
        rw [Ne, List.reverse_eq_nil_iff]
        exact List.cons_ne_nil _ _
      have hlength : (unit :: rest).reverse.length ≤ 18 := by
        simp only [List.length_cons, List.length_reverse] at hle ⊢
        omega
      have hreverse : ∀ first second : UInt8, (first :: second :: unit :: rest).reverse =
          (unit :: rest).reverse ++ [second, first] := by
        intro first second
        rw [List.reverse_cons, List.reverse_cons, List.append_assoc]
        rfl
      rw [hreverse] at hnumber
      generalize hrest : (unit :: rest).reverse = whole at *
      by_cases hdash : prez = 0 ∧ hundredth = 48 ∧ tenth = 48
      · obtain ⟨hprez, rfl, rfl⟩ := hdash
        have hdashed : (if prez = 0 then dashed (48 :: 48 :: unit :: rest)
            else 48 :: 48 :: unit :: rest).reverse = whole ++ [45, 32] := by
          rw [if_pos hprez, dashed, hreverse]
        rw [hdashed]
        have hfilter : (moneyDigits (seps.written param) seps.ths grouped
            (whole ++ [45, 32])).filter (· ≠ seps.ths) =
              (dashedAmount seps whole hwhole hne).text := by
          rw [moneyDigits_filter hwhole hne rfl seps.ths_plain hwritten, hcomma hprez]
          have hsplit : ([45, 32] : List UInt8) = [45] ++ [32] := rfl
          rw [hsplit, List.filter_append]
          rfl
        have hhundredths : (dashedAmount seps whole hwhole hne).hundredths = m.value.natAbs := by
          rw [← htoNat, ← hnumber, numberFrom_append, Amount.hundredths]
          change numberFrom 0 (whole ++ []) * 100 = 10 * (10 * numberFrom 0 whole + 0) + 0
          rw [List.append_nil]
          omega
        have hdigit := charAt_printed (seps.written param) seps.ths grouped hwhole hne [45, 32]
        refine ⟨printedText neg _ _ hfilter hdigit, congrArg some ?_, ?_, ?_, ?_⟩
        · exact (printedText_text neg _ _ hfilter hdigit).symm
        · rw [printedText_value, hhundredths, hvalue]
        · change (whole ++ 44 :: ([45].filter (· ≠ seps.ths) ++
            [32].filter (· ≠ seps.ths))).length ≤ 49
          have hminus := List.length_filter_le (· ≠ seps.ths) [45]
          have hblank := List.length_filter_le (· ≠ seps.ths) [32]
          rw [List.length_singleton] at hminus hblank
          rw [List.length_append, List.length_cons, List.length_append]
          omega
        · change (dashedAmount seps whole hwhole hne).hundredths < 2 ^ 47
          omega
      · have hfull : (if prez = 0 then dashed (hundredth :: tenth :: unit :: rest)
            else hundredth :: tenth :: unit :: rest).reverse = whole ++ [tenth, hundredth] := by
          split
          case isTrue hprez =>
            rw [dashed, hreverse]
            intro pom hpom
            cases hpom
            exact hdash ⟨hprez, rfl, rfl⟩
          case isFalse hother => exact hreverse ..
        rw [hfull]
        have hfraction : AllDigits [tenth, hundredth] := by
          intro c hc
          refine hdigits c ?_
          simp only [List.mem_cons, List.not_mem_nil, or_false] at hc ⊢
          tauto
        have hmark := seps.written_mark param
        have hfilter : (moneyDigits (seps.written param) seps.ths grouped
            (whole ++ [tenth, hundredth])).filter (· ≠ seps.ths) =
              (fullAmount whole [tenth, hundredth] (seps.written param) hwhole hne hfraction rfl
                hmark).text := by
          rw [moneyDigits_filter hwhole hne rfl seps.ths_plain hwritten,
            filter_digits seps.ths_plain hfraction]
          rfl
        have hhundredths : (fullAmount whole [tenth, hundredth] (seps.written param) hwhole hne
            hfraction rfl hmark).hundredths = m.value.natAbs := by
          rw [← htoNat, ← hnumber]
          exact Nat.mul_one _
        have hdigit := charAt_printed (seps.written param) seps.ths grouped hwhole hne
          [tenth, hundredth]
        refine ⟨printedText neg _ _ hfilter hdigit, congrArg some ?_, ?_, ?_, ?_⟩
        · exact (printedText_text neg _ _ hfilter hdigit).symm
        · rw [printedText_value, hhundredths, hvalue]
        · change (whole ++ seps.written param :: [tenth, hundredth]).length ≤ 49
          rw [List.length_append, List.length_cons, List.length_cons, List.length_singleton]
          omega
        · change (fullAmount whole [tenth, hundredth] (seps.written param) hwhole hne
            hfraction rfl hmark).hundredths < 2 ^ 47
          omega

/-! Money as a whole. -/

/-- The operations are exact where the operands are not missing and the result is
in the range. -/
structure ArithmeticRight (m1 m2 : Monstr) (val : BitVec 32) : Prop where
  neg : m1.isNull = false → (moneyNeg m1).value = -m1.value
  add : m1.isNull = false → m2.isNull = false → InRange (m1.value + m2.value) →
    (moneyadd m1 m2).value = m1.value + m2.value
  sub : m1.isNull = false → m2.isNull = false → InRange (m1.value - m2.value) →
    (moneysub m1 m2).value = m1.value - m2.value
  cmp : cmpmoney m1 m2 =
    if m1.value = m2.value then 0 else if m1.value < m2.value then -1 else 1
  mult : m1.isNull = false → val ≠ BitVec.intMin 32 → InRange (m1.value * val.toInt) →
    (moneymult m1 val).value = m1.value * val.toInt
  toInt : m1.isNull = false → -2 ^ 31 < m1.value.tdiv 100 ∧ m1.value.tdiv 100 < 2 ^ 31 →
    (money2int m1).toInt = m1.value.tdiv 100
  ofInt : val ≠ BitVec.intMin 32 → (int2money val).value = val.toInt * 100

theorem arithmeticRight (m1 m2 : Monstr) (val : BitVec 32) : ArithmeticRight m1 m2 val where
  neg := moneyNeg_value
  add := moneyadd_value
  sub := moneysub_value
  cmp := cmpmoney_value m1 m2
  mult := moneymult_value
  toInt := money2int_value
  ofInt := int2money_value

/-- What is printed is read as the same value. -/
def RoundTrips (seps : Separators) (param : Int) : Prop :=
  ∀ m, ∃ txt, money2str seps m param = some txt ∧ str2money seps txt = (true, m)

theorem roundTrips {seps : Separators} {param : Int}
    (hwritten : seps.written param ≠ seps.ths) : RoundTrips seps param := by
  intro m
  cases hm : m.isNull with
  | true =>
      obtain ⟨hhi, hlo⟩ := of_decide_eq_true hm
      refine ⟨[], ?_, ?_⟩
      · rw [money2str, if_pos hm]
      · have hnull : m = Monstr.null := by
          cases m
          exact congrArg₂ Monstr.mk hlo hhi
        rw [hnull]
        rfl
  | false =>
      obtain ⟨t, htext, hvalue, hlength, hfits⟩ := money2str_text hm hwritten
      refine ⟨t.text, htext, Prod.ext t.str2money_accepts ?_⟩
      have hread := t.str2money_value hlength hfits
      rw [hvalue] at hread
      exact Monstr.eq_of_bits (BitVec.eq_of_toInt_eq hread)

/-- An amount without hundredths. -/
def bareAmount {isMark : UInt8 → Bool} (whole : List UInt8) (hwhole : AllDigits whole)
    (hne : whole ≠ []) : Amount isMark where
  whole := whole
  mark := none
  fraction := []
  dash := []
  after := []
  whole_digits := hwhole
  fraction_digits := allDigits_nil
  fraction_le := Nat.zero_le _
  dash_minus := nofun
  dash_le := Nat.zero_le _
  after_blank := nofun
  marks := nofun
  starts hnil := absurd hnil hne
  unmarked := unmarked_nil

theorem bareAmount_text {isMark : UInt8 → Bool} (whole : List UInt8) (hwhole : AllDigits whole)
    (hne : whole ≠ []) : (bareAmount whole hwhole hne : Amount isMark).text = whole :=
  List.append_nil _

theorem bareAmount_hundredths {isMark : UInt8 → Bool} (whole : List UInt8)
    (hwhole : AllDigits whole) (hne : whole ≠ []) :
    (bareAmount whole hwhole hne : Amount isMark).hundredths = numberFrom 0 whole * 100 := by
  change numberFrom 0 (whole ++ []) * 100 = _
  rw [List.append_nil]

theorem money2str_five (seps : Separators) (param : Int) :
    money2str seps ⟨5, 0⟩ param = some [48, seps.written param, 48, 53] := by
  have hpom : pomDigits 20 0 ⟨5, 0⟩ = some [53, 48, 48] := by decide
  have hdashed : ∀ prez : Int, (if prez = 0 then dashed [53, 48, 48] else [53, 48, 48]) =
      [53, 48, 48] := fun prez => ite_self _
  have hgrouped : ∀ (separ ths : UInt8) (grouped : Bool),
      moneyDigits separ ths grouped [48, 48, 53] = [48, separ, 48, 53] := by
    intro separ ths grouped
    cases grouped <;> rfl
  have hparam : seps.written (if param = 99 then 1 else param) = seps.written param := by
    by_cases hliteral : param = 99
    · rw [hliteral]
      rfl
    · rw [if_neg hliteral]
  have hneg : (0 : BitVec 32).slt 0 = false := rfl
  rw [money2str, if_neg (by decide)]
  dsimp only
  rw [hneg, if_neg Bool.false_ne_true, if_neg Bool.false_ne_true, hpom, Option.map_some,
    hdashed, hparam]
  exact congrArg some (hgrouped ..)

/-- Five hundredths come back as five, with the separator taken for one of thousands. -/
theorem written_of_roundTrips {seps : Separators} {param : Int}
    (hround : RoundTrips seps param) : seps.written param ≠ seps.ths := by
  intro heq
  obtain ⟨txt, htext, hread⟩ := hround ⟨5, 0⟩
  rw [money2str_five, Option.some.injEq] at htext
  subst htext
  have hwhole : AllDigits [48, 48, 53] := by
    unfold AllDigits
    decide +kernel
  have hne : ([48, 48, 53] : List UInt8) ≠ [] := List.cons_ne_nil _ _
  have hfilter : [48, seps.written param, 48, 53].filter (· ≠ seps.ths) =
      (bareAmount [48, 48, 53] hwhole hne : Amount seps.isMark).text := by
    have hplain : ∀ c : UInt8, isDigit c = true → c ≠ seps.ths := by
      intro c hc hths
      rw [hths, seps.ths_plain] at hc
      cases hc
    rw [bareAmount_text, heq, filter_kept (hplain 48 rfl), filter_removed,
      filter_kept (hplain 48 rfl), filter_kept (hplain 53 rfl)]
    rfl
  have hdigit : isDigit (charAt [48, seps.written param, 48, 53]) = true := rfl
  have hlength : (bareAmount [48, 48, 53] hwhole hne : Amount seps.isMark).text.length ≤ 49 := by
    rw [bareAmount_text]
    decide
  have hhundredths :
      (bareAmount [48, 48, 53] hwhole hne : Amount seps.isMark).hundredths = 500 :=
    bareAmount_hundredths ..
  have hvalue := (printedText false _ _ hfilter hdigit).str2money_value hlength
    (hhundredths.trans_lt (by decide))
  rw [printedText_text, printedText_value, hhundredths] at hvalue
  change (str2money seps [48, seps.written param, 48, 53]).2.value = 500 at hvalue
  rw [hread] at hvalue
  exact absurd hvalue (by decide)

/-- A text whose value is outside the range is not accepted. -/
def RangeKept (seps : Separators) (txt : List UInt8) : Prop :=
  ∀ t : MoneyText seps, t.text = txt → (str2money seps txt).1 = true → InRange t.value

def MoneyRight (seps : Separators) (param : Int) (m1 m2 : Monstr) (val : BitVec 32)
    (txt : List UInt8) : Prop :=
  ArithmeticRight m1 m2 val ∧ RoundTrips seps param ∧ RangeKept seps txt

theorem money_right_iff (seps : Separators) (param : Int) (m1 m2 : Monstr) (val : BitVec 32)
    (txt : List UInt8) :
    MoneyRight seps param m1 m2 val txt ↔
      seps.written param ≠ seps.ths ∧
        ∀ t : MoneyText seps, t.text = txt → InRange t.value := by
  constructor
  · rintro ⟨-, hround, hrange⟩
    refine ⟨written_of_roundTrips hround, fun t ht => hrange t ht ?_⟩
    rw [← ht]
    exact t.str2money_accepts
  · rintro ⟨hwritten, hrange⟩
    exact ⟨arithmeticRight m1 m2 val, roundTrips hwritten, fun t ht _ => hrange t ht⟩

/-- A point before the hundredths, a comma between thousands. -/
def pointSeparators : Separators where
  decim := 46
  ths := 44
  explic := 0
  sysapi := 46
  decim_separates := by
    unfold Separates
    decide
  ths_plain := rfl
  explic_separates := fun hne => absurd rfl hne
  sysapi_found := by decide

/-- A one with fifteen zeros is read, and its hundredths do not fit. -/
theorem not_forall_money_right :
    ¬ ∀ seps param m1 m2 val txt, MoneyRight seps param m1 m2 val txt := by
  intro hright
  have hwhole : AllDigits (49 :: List.replicate 15 48) := by
    unfold AllDigits
    decide +kernel
  have hfilter : (49 :: List.replicate 15 48).filter (· ≠ pointSeparators.ths) =
      (bareAmount (49 :: List.replicate 15 48) hwhole (List.cons_ne_nil _ _) :
        Amount pointSeparators.isMark).text := by
    rw [bareAmount_text]
    decide
  have hdigit : isDigit (charAt (49 :: List.replicate 15 48)) = true := rfl
  have hrange := (hright pointSeparators 1 ⟨0, 0⟩ ⟨0, 0⟩ 0 (49 :: List.replicate 15 48)).2.2
    (printedText false _ _ hfilter hdigit) (printedText_text ..) (by decide)
  have hnumber : numberFrom 0 (49 :: List.replicate 15 48) = 1000000000000000 := by decide
  rw [printedText_value, bareAmount_hundredths, hnumber] at hrange
  exact absurd hrange.2 (by decide)

end Sql602.Convert
