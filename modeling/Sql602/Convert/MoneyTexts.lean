import Sql602.Convert.IntegerConversion
import Sql602.Convert.MoneyArithmetic

namespace Sql602.Convert

/-! Reading and printing amounts. -/

theorem isNull_of_lt {m : Monstr} (hm : m.bits.toNat < 2 ^ 47) : m.isNull = false := by
  rw [← Bool.not_eq_true, Monstr.isNull_iff]
  intro hbits
  rw [hbits] at hm
  exact absurd hm (by decide)

/-- One more digit. -/
theorem mult_toNat {m : Monstr} (hm : 10 * m.bits.toNat < 2 ^ 47) :
    (moneymult m 10).bits.toNat = 10 * m.bits.toNat := by
  have hten : ((10 : BitVec 32).signExtend 48).toNat = 10 := rfl
  rw [moneymult_bits (isNull_of_lt (by omega)) (by decide), BitVec.toNat_mul, hten]
  omega

theorem add_digit_toNat {m : Monstr} {c : UInt8} (hc : isDigit c = true)
    (hm : m.bits.toNat + digitOf c < 2 ^ 47) :
    (moneyadd m (ofDigit c)).bits.toNat = m.bits.toNat + digitOf c := by
  have hlt := digitOf_lt hc
  have hdigit : (ofDigit c).bits.toNat = digitOf c := by
    have hhigh : (ofDigit c).moneyHi4.toNat = 0 := rfl
    have hlow : (ofDigit c).moneyLo2.toNat = digitOf c := by
      rw [ofDigit, BitVec.toNat_ofNat, Nat.mod_eq_of_lt (by omega)]
    rw [Monstr.bits_toNat, hhigh, hlow, Nat.zero_mul, Nat.zero_add]
  rw [moneyadd_bits (isNull_of_lt (by omega)) (isNull_of_lt (by omega)), BitVec.toNat_add,
    hdigit]
  omega

section Reading

variable {val : Monstr} {rest : List UInt8}

theorem wholeLoop_rest {digits : List UInt8} (hdigits : AllDigits digits)
    (hrest : isDigit (charAt rest) = false) (val : Monstr) :
    (wholeLoop val (digits ++ rest)).2 = rest := by
  induction digits generalizing val with
  | nil =>
      cases rest with
      | nil => rfl
      | cons c rest =>
          have hc : isDigit c = false := hrest
          rw [List.nil_append, wholeLoop, hc, if_neg Bool.false_ne_true]
  | cons c digits ih =>
      rw [List.cons_append, wholeLoop, if_pos (hdigits c List.mem_cons_self)]
      exact ih (fun d hd => hdigits d (List.mem_cons_of_mem _ hd)) _

theorem wholeLoop_value {digits : List UInt8} (hdigits : AllDigits digits)
    (hrest : isDigit (charAt rest) = false)
    (hfits : numberFrom val.bits.toNat digits < 2 ^ 47) :
    (wholeLoop val (digits ++ rest)).1.bits.toNat = numberFrom val.bits.toNat digits := by
  induction digits generalizing val with
  | nil =>
      cases rest with
      | nil => rfl
      | cons c rest =>
          have hc : isDigit c = false := hrest
          rw [List.nil_append, wholeLoop, hc, if_neg Bool.false_ne_true]
          rfl
  | cons c digits ih =>
      have hc := hdigits c List.mem_cons_self
      rw [numberFrom_cons] at hfits ⊢
      have hle := le_numberFrom (10 * val.bits.toNat + digitOf c) digits
      have hmult := mult_toNat (m := val) (by omega)
      have hadd := add_digit_toNat hc (m := moneymult val 10) (by omega)
      rw [hmult] at hadd
      rw [List.cons_append, wholeLoop, if_pos hc, ← hadd]
      rw [← hadd] at hfits
      exact ih (fun d hd => hdigits d (List.mem_cons_of_mem _ hd)) hfits

end Reading

/-! An amount as it stands in a text: the whole part, the mark before the
hundredths, the hundredths, a dash and blanks. -/

structure Amount (isMark : UInt8 → Bool) where
  whole : List UInt8
  mark : Option UInt8
  fraction : List UInt8
  dash : List UInt8
  after : List UInt8
  whole_digits : AllDigits whole
  fraction_digits : AllDigits fraction
  fraction_le : fraction.length ≤ 2
  dash_minus : ∀ c ∈ dash, c = 45
  dash_le : dash.length ≤ 1
  after_blank : AllBlank after
  marks : ∀ c ∈ mark, isMark c = true ∨ c = 36
  starts : whole = [] → ∃ c ∈ mark, isMark c = true
  unmarked : mark = none → fraction = []

namespace Amount

variable {isMark : UInt8 → Bool}

def ending (amount : Amount isMark) : List UInt8 := amount.dash ++ amount.after

def text (amount : Amount isMark) : List UInt8 :=
  amount.whole ++ (amount.mark.toList ++ (amount.fraction ++ amount.ending))

/-- The hundredths in full. -/
def hundredths (amount : Amount isMark) : Nat :=
  numberFrom 0 (amount.whole ++ amount.fraction) * 10 ^ (2 - amount.fraction.length)

theorem ending_plain (amount : Amount isMark) : isDigit (charAt amount.ending) = false := by
  rw [ending]
  cases hdash : amount.dash with
  | nil => exact (charAt_blank amount.after_blank).1
  | cons c dash =>
      have hc := amount.dash_minus c (hdash ▸ List.mem_cons_self)
      subst hc
      rfl

/-- The dash is passed, and nothing but blanks is left. -/
theorem ending_read (amount : Amount isMark) :
    skipBlanks (if charAt amount.ending = 45 then amount.ending.tail else amount.ending) =
      [] := by
  have hle := amount.dash_le
  have hafter := amount.after_blank
  rw [ending]
  cases hdash : amount.dash with
  | nil =>
      rw [List.nil_append, if_neg]
      · exact skipBlanks_all hafter
      · cases hblanks : amount.after with
        | nil => decide
        | cons c after =>
            intro hc
            have hblank := hafter c (hblanks ▸ List.mem_cons_self)
            rw [show c = 45 from hc] at hblank
            cases hblank
  | cons c dash =>
      have hc := amount.dash_minus c (hdash ▸ List.mem_cons_self)
      have hnil : dash = [] := by
        rw [hdash, List.length_cons] at hle
        exact List.length_eq_zero_iff.mp (by omega)
      subst hc hnil
      exact skipBlanks_all hafter

end Amount

theorem oneDigit_digit {c : UInt8} (hc : isDigit c = true) (val : Monstr) (txt : List UInt8) :
    oneDigit val (c :: txt) = (moneyadd val (ofDigit c), txt) :=
  if_pos hc

theorem oneDigit_plain {txt : List UInt8} (htxt : isDigit (charAt txt) = false)
    (val : Monstr) : oneDigit val txt = (val, txt) :=
  if_neg (Bool.eq_false_iff.mp htxt)

theorem Separators.point_cases {seps : Separators} {c : UInt8} (hc : seps.isPoint c = true) :
    c ∈ [44, 59, 58, 46] := by
  obtain rfl | rfl | rfl := of_decide_eq_true hc
  · decide
  · decide
  · exact seps.sysapi_found

theorem Separators.digit_not_point {seps : Separators} {c : UInt8} (hc : isDigit c = true) :
    seps.isPoint c = false := by
  have hplain : ∀ c ∈ [44, 59, 58, 46], isDigit c = false := by decide +kernel
  rw [← Bool.not_eq_true]
  intro hpoint
  rw [hplain c (point_cases hpoint)] at hc
  cases hc

/-- What is read of the hundredths. -/
structure ReadsHundredths (read : Monstr × List UInt8) (ending : List UInt8)
    (hundredths : Nat) : Prop where
  rest : read.2 = ending
  value : hundredths < 2 ^ 47 → read.1.bits.toNat = hundredths

namespace Amount

variable {seps : Separators}

theorem ending_unmarked {isMark : UInt8 → Bool} (amount : Amount isMark) :
    seps.isPoint (charAt amount.ending) = false ∧ charAt amount.ending ≠ 36 := by
  have hpoint : ∀ c ∈ [44, 59, 58, 46], ¬ (c = 45 ∨ isBlank c = true ∨ c = 0) := by
    decide +kernel
  have hends : charAt amount.ending = 45 ∨ isBlank (charAt amount.ending) = true ∨
      charAt amount.ending = 0 := by
    rw [ending]
    cases hdash : amount.dash with
    | nil =>
        cases hafter : amount.after with
        | nil => exact .inr (.inr rfl)
        | cons c after =>
            exact .inr (.inl (amount.after_blank c (hafter ▸ List.mem_cons_self)))
    | cons c dash => exact .inl (amount.dash_minus c (hdash ▸ List.mem_cons_self))
  constructor
  · rw [← Bool.not_eq_true]
    exact fun hc => hpoint _ (Separators.point_cases hc) hends
  · intro hc
    rw [hc] at hends
    exact absurd hends (by decide)

/-- `val` has the whole part with a place for the tenths. -/
theorem readFraction_reads (amount : Amount seps.isPoint) {val : Monstr}
    (hval : 10 * numberFrom 0 amount.whole < 2 ^ 47 →
      val.bits.toNat = 10 * numberFrom 0 amount.whole) :
    ReadsHundredths
      (readFraction seps val (amount.mark.toList ++ (amount.fraction ++ amount.ending)))
      amount.ending amount.hundredths := by
  have hending := amount.ending_plain
  have hle := amount.fraction_le
  have hdigits := amount.fraction_digits
  have hunmarked := amount.unmarked
  rw [hundredths, numberFrom_append]
  generalize amount.fraction = fraction at *
  generalize numberFrom 0 amount.whole = number at *
  cases hmark : amount.mark with
  | none =>
      have hnil := hunmarked hmark
      subst hnil
      obtain ⟨hpoint, hdollar⟩ :
          seps.isPoint (charAt amount.ending) = false ∧ charAt amount.ending ≠ 36 :=
        amount.ending_unmarked
      have hplain : readFraction seps val amount.ending = (moneymult val 10, amount.ending) := by
        rw [readFraction, if_neg]
        simp only [hpoint, hdollar, Bool.false_eq_true, or_self, not_false_eq_true]
      refine ⟨congrArg Prod.snd hplain, fun hfits => ?_⟩
      have hfits : number * 100 < 2 ^ 47 := hfits
      have hmult := mult_toNat (m := val) (by rw [hval (by omega)]; omega)
      rw [hval (by omega)] at hmult
      rw [Option.toList_none, List.nil_append, List.nil_append, hplain, hmult]
      change 10 * (10 * number) = number * 100
      omega
  | some c =>
      have hmarked : readFraction seps val (c :: (fraction ++ amount.ending)) =
          oneDigit (moneymult (oneDigit val (fraction ++ amount.ending)).1 10)
            (oneDigit val (fraction ++ amount.ending)).2 := by
        rw [readFraction]
        exact if_pos (amount.marks c hmark)
      change ReadsHundredths (readFraction seps val (c :: (fraction ++ amount.ending))) _ _
      rw [hmarked]
      match fraction, hle, hdigits with
      | [], _, _ =>
          rw [List.nil_append, oneDigit_plain hending, oneDigit_plain hending]
          refine ⟨rfl, fun hfits => ?_⟩
          have hfits : number * 100 < 2 ^ 47 := hfits
          have hmult := mult_toNat (m := val) (by rw [hval (by omega)]; omega)
          rw [hval (by omega)] at hmult
          rw [hmult]
          change 10 * (10 * number) = number * 100
          omega
      | [tenth], _, hdigits =>
          have htenth := hdigits tenth List.mem_cons_self
          rw [List.cons_append, List.nil_append, oneDigit_digit htenth, oneDigit_plain hending]
          refine ⟨rfl, fun hfits => ?_⟩
          have hfits : (10 * number + digitOf tenth) * 10 < 2 ^ 47 := hfits
          have hadd := add_digit_toNat htenth (m := val) (by rw [hval (by omega)]; omega)
          rw [hval (by omega)] at hadd
          rw [mult_toNat (by rw [hadd]; omega), hadd]
          change 10 * (10 * number + digitOf tenth) = (10 * number + digitOf tenth) * 10
          omega
      | [tenth, hundredth], _, hdigits =>
          have htenth := hdigits tenth List.mem_cons_self
          have hhundredth := hdigits hundredth (List.mem_cons_of_mem _ List.mem_cons_self)
          rw [List.cons_append, List.cons_append, List.nil_append, oneDigit_digit htenth,
            oneDigit_digit hhundredth]
          refine ⟨rfl, fun hfits => ?_⟩
          have hfits : (10 * (10 * number + digitOf tenth) + digitOf hundredth) * 1 < 2 ^ 47 :=
            hfits
          have hadd := add_digit_toNat htenth (m := val) (by rw [hval (by omega)]; omega)
          rw [hval (by omega)] at hadd
          have hmult := mult_toNat (m := moneyadd val (ofDigit tenth)) (by rw [hadd]; omega)
          rw [hadd] at hmult
          rw [add_digit_toNat hhundredth (by rw [hmult]; omega), hmult]
          exact (Nat.mul_one _).symm
      | _ :: _ :: _ :: _, hle, _ =>
          simp only [List.length_cons] at hle
          omega

/-- What stands behind the whole part. -/
def marked (amount : Amount seps.isPoint) : List UInt8 :=
  amount.mark.toList ++ (amount.fraction ++ amount.ending)

theorem marked_plain (amount : Amount seps.isPoint) :
    isDigit (charAt amount.marked) = false := by
  rw [marked]
  cases hmark : amount.mark with
  | none =>
      rw [amount.unmarked hmark]
      exact amount.ending_plain
  | some c =>
      change isDigit c = false
      obtain hpoint | rfl := amount.marks c hmark
      · rw [← Bool.not_eq_true]
        intro hc
        rw [Separators.digit_not_point hc] at hpoint
        cases hpoint
      · rfl

theorem value_of_toNat {m : Monstr} {n : Nat} (hm : m.bits.toNat = n) (hn : n < 2 ^ 47) :
    m.value = n := by
  rw [Monstr.value, BitVec.toInt_eq_toNat_cond, hm, if_pos (by omega)]

/-- The whole part with a place for the tenths. -/
theorem readWhole_reads (amount : Amount seps.isPoint) :
    ∃ val : Monstr, (10 * numberFrom 0 amount.whole < 2 ^ 47 →
        val.bits.toNat = 10 * numberFrom 0 amount.whole) ∧
      ∀ neg, readMoney seps neg amount.text =
        let read := readFraction seps val amount.marked
        let rest := if charAt read.2 = 45 then read.2.tail else read.2
        (decide (skipBlanks rest = []), if neg then moneyNeg read.1 else read.1) := by
  have htext : amount.text = amount.whole ++ amount.marked := rfl
  have hdigits := amount.whole_digits
  cases hwhole : amount.whole with
  | nil =>
      obtain ⟨c, hmark, hc⟩ := amount.starts hwhole
      have hpoint : seps.isPoint (charAt amount.marked) = true := by
        rw [marked, show amount.mark = some c from hmark]
        exact hc
      refine ⟨⟨0, 0⟩, fun _ => rfl, fun neg => ?_⟩
      rw [htext, hwhole, List.nil_append, readMoney, hpoint, if_neg (by simp), if_pos rfl]
  | cons c whole =>
      have hc : isDigit c = true := hdigits c (hwhole ▸ List.mem_cons_self)
      have hpoint : seps.isPoint (charAt amount.text) = false := by
        rw [htext, hwhole]
        exact Separators.digit_not_point hc
      have hdigit : isDigit (charAt amount.text) = true := by
        rw [htext, hwhole]
        exact hc
      rw [← hwhole]
      refine ⟨moneymult (wholeLoop ⟨0, 0⟩ amount.text).1 10, fun hfits => ?_, fun neg => ?_⟩
      · have hzero : (⟨0, 0⟩ : Monstr).bits.toNat = 0 := rfl
        have hread := @wholeLoop_value ⟨0, 0⟩ _ _ hdigits amount.marked_plain
          (by rw [hzero]; omega)
        rw [hzero, ← htext] at hread
        rw [mult_toNat (by rw [hread]; omega), hread]
      · have hrest := wholeLoop_rest hdigits amount.marked_plain ⟨0, 0⟩
        rw [← htext] at hrest
        rw [readMoney, hpoint, hdigit, if_neg (by simp), if_neg Bool.false_ne_true]
        dsimp only
        rw [hrest]

theorem readMoney_amount (amount : Amount seps.isPoint) (neg : Bool) :
    (readMoney seps neg amount.text).1 = true ∧
      (amount.hundredths < 2 ^ 47 → (readMoney seps neg amount.text).2.value =
        if neg then -(amount.hundredths : Int) else amount.hundredths) := by
  obtain ⟨val, hval, hread⟩ := amount.readWhole_reads
  obtain ⟨hrest, hvalue⟩ := amount.readFraction_reads hval
  rw [← marked] at hrest hvalue
  rw [hread neg]
  dsimp only
  constructor
  · rw [hrest, amount.ending_read]
    rfl
  · intro hfits
    have hfound := value_of_toNat (hvalue hfits) hfits
    split
    case isTrue hneg =>
      rw [moneyNeg_value (isNull_of_lt ((hvalue hfits).trans_lt hfits)), hfound]
    case isFalse hpos => exact hfound

end Amount

end Sql602.Convert
