import Sql602.Convert.MoneyTexts

namespace Sql602.Convert

/-! What `convert` leaves of an amount. -/

namespace Amount

variable {isMark : UInt8 → Bool}

/-- The buffer cuts an amount, and what is left is an amount. -/
def cut (amount : Amount isMark) (n : Nat) (hn : 0 < n) : Amount isMark where
  whole := amount.whole.take n
  mark := if amount.whole.length < n then amount.mark else none
  fraction := amount.fraction.take (n - amount.whole.length - amount.mark.toList.length)
  dash := amount.dash.take
    (n - amount.whole.length - amount.mark.toList.length - amount.fraction.length)
  after := amount.after.take (n - amount.whole.length - amount.mark.toList.length -
    amount.fraction.length - amount.dash.length)
  whole_digits c hc := amount.whole_digits c (List.mem_of_mem_take hc)
  fraction_digits c hc := amount.fraction_digits c (List.mem_of_mem_take hc)
  fraction_le := Nat.le_trans (List.length_take_le' ..) amount.fraction_le
  dash_minus c hc := amount.dash_minus c (List.mem_of_mem_take hc)
  dash_le := Nat.le_trans (List.length_take_le' ..) amount.dash_le
  after_blank c hc := amount.after_blank c (List.mem_of_mem_take hc)
  marks c hc := by
    split at hc
    · exact amount.marks c hc
    · cases hc
  starts hwhole := by
    have hnil : amount.whole = [] := by
      rw [List.take_eq_nil_iff] at hwhole
      exact hwhole.resolve_left (by omega)
    have hlength : amount.whole.length < n := by
      rw [hnil]
      exact hn
    rw [if_pos hlength]
    exact amount.starts hnil
  unmarked hmark := by
    split at hmark
    · rw [amount.unmarked hmark, List.take_nil]
    · have hzero : n - amount.whole.length = 0 := Nat.sub_eq_zero_of_le (Nat.not_lt.mp ‹_›)
      rw [hzero, Nat.zero_sub, List.take_zero]

/-- The same amount with another mark. -/
def remark {isPoint : UInt8 → Bool} (amount : Amount isMark) (mark : Option UInt8)
    (marks : ∀ c ∈ mark, isPoint c = true ∨ c = 36)
    (starts : amount.whole = [] → ∃ c ∈ mark, isPoint c = true)
    (unmarked : mark = none → amount.fraction = []) : Amount isPoint :=
  { amount with mark, marks, starts, unmarked }

theorem cut_text (amount : Amount isMark) (n : Nat) (hn : 0 < n) :
    (amount.cut n hn).text = amount.text.take n := by
  have hmark : (amount.cut n hn).mark.toList =
      amount.mark.toList.take (n - amount.whole.length) := by
    simp only [cut]
    split
    · rw [List.take_of_length_le]
      cases amount.mark with
      | none => exact Nat.zero_le _
      | some c =>
          rw [Option.toList_some, List.length_singleton]
          omega
    · rw [Nat.sub_eq_zero_of_le (Nat.not_lt.mp ‹_›)]
      rfl
  rw [text, text, hmark, ending, ending, List.take_append, List.take_append, List.take_append,
    List.take_append]
  rfl

theorem cut_hundredths (amount : Amount isMark) (n : Nat) (hn : 0 < n)
    (hfits : amount.text.length ≤ n) : (amount.cut n hn).hundredths = amount.hundredths := by
  rw [text, ending, List.length_append, List.length_append, List.length_append] at hfits
  rw [hundredths, hundredths]
  simp only [cut]
  rw [List.take_of_length_le (by omega), List.take_of_length_le (by omega)]

end Amount

theorem replaceLast_none {isDecim : UInt8 → Bool} {txt : List UInt8}
    (hnone : ∀ c ∈ txt, isDecim c = false) (sysapi : UInt8) :
    replaceLast isDecim sysapi txt = txt := by
  cases txt with
  | nil => rfl
  | cons c txt =>
      have hany : txt.any isDecim = false := by
        rw [List.any_eq_false]
        intro d hd
        rw [hnone d (List.mem_cons_of_mem _ hd)]
        exact Bool.false_ne_true
      rw [replaceLast, hany, if_neg Bool.false_ne_true, hnone c List.mem_cons_self,
        if_neg Bool.false_ne_true]

theorem replaceLast_single {isDecim : UInt8 → Bool} {front rest : List UInt8} {c : UInt8}
    (hc : isDecim c = true) (hrest : ∀ d ∈ rest, isDecim d = false) (sysapi : UInt8) :
    replaceLast isDecim sysapi (front ++ c :: rest) = front ++ sysapi :: rest := by
  induction front with
  | nil =>
      have hany : rest.any isDecim = false := by
        rw [List.any_eq_false]
        intro d hd
        rw [hrest d hd]
        exact Bool.false_ne_true
      rw [List.nil_append, replaceLast, hany, if_neg Bool.false_ne_true, if_pos hc]
      rfl
  | cons d front ih =>
      have hany : (front ++ c :: rest).any isDecim = true :=
        List.any_eq_true.mpr ⟨c, List.mem_append_right _ List.mem_cons_self, hc⟩
      rw [List.cons_append, replaceLast, if_pos hany, ih]
      rfl

namespace Separators

variable (seps : Separators)

/-- A character that stands for the decimal separator in a text. -/
def isMark (c : UInt8) : Bool := seps.isDecim c || seps.isPoint c

theorem sysapi_point : seps.isPoint seps.sysapi = true := by
  rw [isPoint, decide_eq_true_eq]
  exact .inr (.inr rfl)

variable {seps} {c : UInt8}

theorem separates_of_decim (hc : seps.isDecim c = true) : Separates c := by
  obtain rfl | rfl | ⟨hexplic, rfl⟩ := of_decide_eq_true hc
  · exact seps.decim_separates
  · unfold Separates
    decide
  · exact seps.explic_separates hexplic

end Separators

namespace Amount

variable {seps : Separators}

theorem plain_decim {isMark : UInt8 → Bool} (amount : Amount isMark) {c : UInt8}
    (hc : c ∈ amount.fraction ++ amount.ending) : seps.isDecim c = false := by
  rw [← Bool.not_eq_true]
  intro hdecim
  obtain ⟨hzero, hdigit, hblank, hminus⟩ := Separators.separates_of_decim hdecim
  rw [ending, List.mem_append, List.mem_append] at hc
  obtain hfraction | hdash | hafter := hc
  · rw [amount.fraction_digits c hfraction] at hdigit
    cases hdigit
  · exact hminus (amount.dash_minus c hdash)
  · rw [amount.after_blank c hafter] at hblank
    cases hblank

theorem whole_decim {isMark : UInt8 → Bool} (amount : Amount isMark) {c : UInt8}
    (hc : c ∈ amount.whole) : seps.isDecim c = false := by
  rw [← Bool.not_eq_true]
  intro hdecim
  obtain ⟨hzero, hdigit, hblank, hminus⟩ := Separators.separates_of_decim hdecim
  rw [amount.whole_digits c hc] at hdigit
  cases hdigit

/-- The mark becomes the separator that `str2money` knows. -/
theorem replaceLast_text (amount : Amount seps.isMark) :
    ∃ replaced : Amount seps.isPoint,
      replaceLast seps.isDecim seps.sysapi amount.text = replaced.text ∧
        replaced.hundredths = amount.hundredths := by
  cases hmark : amount.mark with
  | none =>
      have hstarts : amount.whole = [] → ∃ c ∈ (none : Option UInt8), seps.isPoint c = true := by
        intro hwhole
        obtain ⟨c, hc, -⟩ := amount.starts hwhole
        rw [hmark] at hc
        cases hc
      refine ⟨amount.remark none nofun hstarts fun _ => amount.unmarked hmark, ?_, rfl⟩
      have htext : amount.text = amount.whole ++ (amount.fraction ++ amount.ending) := by
        rw [text, hmark]
        rfl
      rw [htext, replaceLast_none]
      · rfl
      · exact fun c hc => (List.mem_append.mp hc).elim amount.whole_decim amount.plain_decim
  | some c =>
      have htext : amount.text = amount.whole ++ c :: (amount.fraction ++ amount.ending) := by
        rw [text, hmark]
        rfl
      cases hdecim : seps.isDecim c with
      | true =>
          refine ⟨amount.remark (some seps.sysapi) ?_ ?_ nofun, ?_, rfl⟩
          · intro d hd
            cases hd
            exact .inl seps.sysapi_point
          · exact fun _ => ⟨_, rfl, seps.sysapi_point⟩
          · rw [htext, replaceLast_single hdecim fun d hd => amount.plain_decim hd]
            rfl
      | false =>
          have hpoint : seps.isMark c = true → seps.isPoint c = true := by
            intro hc
            rwa [Separators.isMark, hdecim, Bool.false_or] at hc
          refine ⟨amount.remark (some c) ?_ ?_ nofun, ?_, rfl⟩
          · intro d hd
            cases hd
            exact (amount.marks c hmark).imp_left hpoint
          · intro hwhole
            obtain ⟨d, hd, hmarked⟩ := amount.starts hwhole
            rw [hmark] at hd
            cases hd
            exact ⟨c, rfl, hpoint hmarked⟩
          · rw [htext, replaceLast_none]
            · rfl
            · intro d hd
              rw [List.mem_append, List.mem_cons] at hd
              obtain hwhole | rfl | hrest := hd
              · exact amount.whole_decim hwhole
              · exact hdecim
              · exact amount.plain_decim hrest

end Amount

/-! Texts of amounts. -/

/-- `grouped` is the amount with thousands separators. Without a dollar sign all
blanks before the sign are in `before`, without a sign those before the amount. -/
structure MoneyText (seps : Separators) where
  before : List UInt8
  dollar : Bool
  between : List UInt8
  sign : Option Bool
  inner : List UInt8
  grouped : List UInt8
  amount : Amount seps.isMark
  before_blank : AllBlank before
  between_blank : AllBlank between
  inner_blank : AllBlank inner
  undollared : dollar = false → between = []
  unsigned : sign = none → inner = []
  grouped_filter : grouped.filter (· ≠ seps.ths) = amount.text
  grouped_plain : isBlank (charAt grouped) = false ∧ isSign (charAt grouped) = false ∧
    charAt grouped ≠ 36 ∧ charAt grouped ≠ 0

namespace MoneyText

variable {seps : Separators}

def signed (t : MoneyText seps) : List UInt8 := signText t.sign ++ (t.inner ++ t.grouped)

def text (t : MoneyText seps) : List UInt8 :=
  t.before ++ ((if t.dollar then [36] else []) ++ (t.between ++ t.signed))

/-- The exact value. -/
def value (t : MoneyText seps) : Int := SignedText.withSign t.sign t.amount.hundredths

theorem charAt_signed (t : MoneyText seps) :
    isBlank (charAt t.signed) = false ∧ charAt t.signed ≠ 36 ∧ charAt t.signed ≠ 0 := by
  obtain ⟨hblank, hsign, hdollar, hzero⟩ := t.grouped_plain
  rw [signed]
  match h : t.sign with
  | none =>
      rw [t.unsigned h]
      exact ⟨hblank, hdollar, hzero⟩
  | some true => exact ⟨rfl, (by decide : (45 : UInt8) ≠ 36), (by decide : (45 : UInt8) ≠ 0)⟩
  | some false => exact ⟨rfl, (by decide : (43 : UInt8) ≠ 36), (by decide : (43 : UInt8) ≠ 0)⟩

theorem signed_read (t : MoneyText seps) :
    skipBlanks (if isSign (charAt t.signed) then t.signed.tail else t.signed) = t.grouped ∧
      (charAt t.signed = 45 ↔ t.sign = some true) := by
  obtain ⟨hblank, hsign, hdollar, hzero⟩ := t.grouped_plain
  have hinner : skipBlanks (t.inner ++ t.grouped) = t.grouped := by
    rw [skipBlanks_append t.inner_blank, skipBlanks_head hblank]
  rw [signed]
  match h : t.sign with
  | none =>
      rw [t.unsigned h]
      change skipBlanks (if isSign (charAt t.grouped) then t.grouped.tail else t.grouped) =
        t.grouped ∧ (charAt t.grouped = 45 ↔ none = some true)
      rw [hsign, if_neg Bool.false_ne_true, skipBlanks_head hblank]
      refine ⟨rfl, fun hc => ?_, nofun⟩
      rw [hc] at hsign
      cases hsign
  | some true => exact ⟨hinner, fun _ => rfl, fun _ => rfl⟩
  | some false => exact ⟨hinner, fun hc => absurd hc (by decide : (43 : UInt8) ≠ 45), nofun⟩

/-- The leading parts are passed. -/
theorem str2money_text (t : MoneyText seps) :
    str2money seps t.text =
      readMoney seps (t.sign = some true) (convert seps t.grouped 50) := by
  obtain ⟨hblank, hdollar, hzero⟩ := t.charAt_signed
  obtain ⟨hgrouped, hminus⟩ := t.signed_read
  -- what is left behind the blanks, and behind the dollar sign
  obtain ⟨rest, hrest, hne, hsigned⟩ : ∃ rest, skipBlanks t.text = rest ∧ rest ≠ [] ∧
      skipBlanks (if charAt rest = 36 then rest.tail else rest) = t.signed := by
    rw [text, skipBlanks_append t.before_blank]
    cases hdollar' : t.dollar with
    | true =>
        refine ⟨36 :: (t.between ++ t.signed), skipBlanks_head rfl, List.cons_ne_nil _ _, ?_⟩
        change skipBlanks (t.between ++ t.signed) = t.signed
        rw [skipBlanks_append t.between_blank, skipBlanks_head hblank]
    | false =>
        rw [t.undollared hdollar', if_neg Bool.false_ne_true, List.nil_append, List.nil_append]
        refine ⟨t.signed, skipBlanks_head hblank, fun hnil => ?_, ?_⟩
        · rw [hnil] at hzero
          exact hzero rfl
        · rw [if_neg hdollar, skipBlanks_head hblank]
  rw [str2money, hrest]
  dsimp only
  rw [if_neg hne, hsigned, hgrouped]
  congr 1
  exact decide_eq_decide.mpr hminus

theorem convert_grouped (t : MoneyText seps) :
    ∃ amount : Amount seps.isPoint, convert seps t.grouped 50 = amount.text ∧
      (t.amount.text.length ≤ 49 → amount.hundredths = t.amount.hundredths) := by
  obtain ⟨replaced, htext, hhundredths⟩ :=
    (t.amount.cut 49 (by decide)).replaceLast_text
  refine ⟨replaced, ?_, fun hfits => ?_⟩
  · rw [convert, t.grouped_filter, ← htext, Amount.cut_text]
  · rw [hhundredths, Amount.cut_hundredths _ _ _ hfits]

/-- Every amount is accepted. -/
theorem str2money_accepts (t : MoneyText seps) : (str2money seps t.text).1 = true := by
  obtain ⟨amount, htext, -⟩ := t.convert_grouped
  rw [t.str2money_text, htext]
  exact (amount.readMoney_amount _).1

theorem str2money_value (t : MoneyText seps) (hlength : t.amount.text.length ≤ 49)
    (hfits : t.amount.hundredths < 2 ^ 47) : (str2money seps t.text).2.value = t.value := by
  obtain ⟨amount, htext, hsame⟩ := t.convert_grouped
  have hhundredths := hsame hlength
  rw [t.str2money_text, htext, (amount.readMoney_amount _).2 (by omega), hhundredths, value,
    SignedText.withSign]
  simp only [decide_eq_true_eq]

end MoneyText

end Sql602.Convert
