import Mathlib.Data.Nat.Basic
import Mathlib.Tactic.WLOG

namespace Pages

/-! Ranges of bytes in pages of one size. -/

structure Range where
  page : Nat
  offset : Nat
  length : Nat
  deriving DecidableEq

namespace Range

def Inside (size : Nat) (range : Range) : Prop := range.offset + range.length ≤ size

def Apart (range other : Range) : Prop :=
  range.page ≠ other.page ∨ range.offset + range.length ≤ other.offset ∨
    other.offset + other.length ≤ range.offset

/-- The address when the pages lie one behind the other. -/
def start (size : Nat) (range : Range) : Nat := size * range.page + range.offset

def stop (size : Nat) (range : Range) : Nat := range.start size + range.length

variable {size count : Nat} {range other : Range}

theorem Apart.symm (hapart : range.Apart other) : other.Apart range := by
  obtain hpage | hbefore | hbehind := hapart
  · exact Or.inl (Ne.symm hpage)
  · exact Or.inr (Or.inr hbefore)
  · exact Or.inr (Or.inl hbehind)

theorem apart_of_stop_le (hle : range.stop size ≤ other.start size) : range.Apart other := by
  rw [stop, start, start] at hle
  by_cases hpage : range.page = other.page
  · rw [hpage] at hle
    exact Or.inr (Or.inl (by omega))
  · exact Or.inl hpage

theorem page_lt (hlength : 0 < range.length) (hstop : range.stop size ≤ size * count) :
    range.page < count := by
  rw [stop, start] at hstop
  exact Nat.lt_of_mul_lt_mul_left (show size * range.page < size * count by omega)

end Range

section Values

/-- The place of a value in a row of them that starts in a page at the offset. -/
def nth (size width page offset index : Nat) : Range :=
  let first := (size - offset) / width
  if index < first then ⟨page, offset + width * index, width⟩
  else ⟨page + 1 + (index - first) / (size / width),
    width * ((index - first) % (size / width)), width⟩

variable {size width page offset index other : Nat}

theorem nth_inside (hwidth : 0 < width) (hfits : width ≤ size) (hoffset : offset ≤ size) :
    (nth size width page offset index).Inside size := by
  rw [nth]
  split
  · next hfirst =>
      have hle := Nat.div_mul_le_self (size - offset) width
      have hmul := Nat.mul_le_mul_left width (Nat.succ_le_of_lt hfirst)
      rw [Nat.mul_comm] at hle
      rw [Nat.mul_succ] at hmul
      rw [Range.Inside]
      dsimp only
      omega
  · next hbehind =>
      have hper : 0 < size / width := Nat.div_pos hfits hwidth
      have hle := Nat.div_mul_le_self size width
      have hmul := Nat.mul_le_mul_left width
        (Nat.succ_le_of_lt (Nat.mod_lt (index - (size - offset) / width) hper))
      rw [Nat.mul_comm] at hle
      rw [Nat.mul_succ] at hmul
      exact Nat.le_trans hmul hle

theorem nth_length : (nth size width page offset index).length = width := by
  rw [nth]
  split
  · rfl
  · rfl

theorem nth_first (hfirst : index < (size - offset) / width) :
    nth size width page offset index = ⟨page, offset + width * index, width⟩ := if_pos hfirst

/-- The values behind the first page lie as if they started in the next page. -/
theorem nth_behind (hper : 0 < size / width) (hbehind : (size - offset) / width ≤ index) :
    nth size width page offset index =
      nth size width (page + 1) 0 (index - (size - offset) / width) := by
  rw [nth, if_neg (Nat.not_lt.mpr hbehind), nth, Nat.sub_zero]
  generalize index - (size - offset) / width = behind
  split
  · next hlt => rw [Nat.div_eq_of_lt hlt, Nat.mod_eq_of_lt hlt, Nat.add_zero, Nat.zero_add]
  · next hle =>
      have hle := Nat.le_of_not_lt hle
      have hdiv : behind / (size / width) = (behind - size / width) / (size / width) + 1 :=
        Nat.div_eq_sub_div hper hle
      rw [hdiv, Nat.mod_eq_sub_mod hle, Nat.add_assoc (page + 1), Nat.add_comm 1,
        ← Nat.add_assoc]

theorem page_le_nth : page ≤ (nth size width page offset index).page := by
  rw [nth]
  split
  · exact Nat.le_refl page
  · exact Nat.le_trans (Nat.le_add_right page 1) (Nat.le_add_right _ _)

theorem nth_page_le : (nth size width page offset index).page ≤ page + 1 + index := by
  rw [nth]
  split
  · exact Nat.le_trans (Nat.le_add_right page 1) (Nat.le_add_right _ _)
  · exact Nat.add_le_add_left (Nat.le_trans (Nat.div_le_self _ _) (Nat.sub_le _ _)) _

theorem start_le_nth (hoffset : offset ≤ size) :
    size * page + offset ≤ (nth size width page offset index).start size := by
  rw [nth]
  split
  · rw [Range.start]
    dsimp only
    omega
  · have hmul := Nat.mul_le_mul_left size (Nat.le_add_right (page + 1)
      ((index - (size - offset) / width) / (size / width)))
    rw [Nat.mul_succ] at hmul
    rw [Range.start]
    dsimp only
    omega

/-- Numbers with one quotient are ordered as their remainders. -/
theorem nth_apart (hwidth : 0 < width) (hfits : width ≤ size) (hne : index ≠ other) :
    (nth size width page offset index).Apart (nth size width page offset other) := by
  wlog hlt : index < other
  · exact (this hwidth hfits hne.symm
      (Nat.lt_of_le_of_ne (Nat.le_of_not_lt hlt) hne.symm)).symm
  have hper : 0 < size / width := Nat.div_pos hfits hwidth
  rw [nth, nth]
  split
  · split
    · have hmul := Nat.mul_le_mul_left width (Nat.succ_le_of_lt hlt)
      rw [Nat.mul_succ] at hmul
      refine Or.inr (Or.inl ?_)
      dsimp only
      omega
    · exact Or.inl (Nat.ne_of_lt (Nat.lt_of_lt_of_le (Nat.lt_succ_self page)
        (Nat.le_add_right (page + 1) _)))
  · next hindex =>
      rw [if_neg (by omega)]
      generalize hquotient : (index - (size - offset) / width) / (size / width) = q
      generalize hother : (other - (size - offset) / width) / (size / width) = q'
      by_cases hsame : q = q'
      · have hdiv := Nat.div_add_mod (index - (size - offset) / width) (size / width)
        have hdiv' := Nat.div_add_mod (other - (size - offset) / width) (size / width)
        rw [hquotient] at hdiv
        rw [hother, ← hsame] at hdiv'
        have hmul := Nat.mul_le_mul_left width (Nat.succ_le_of_lt
          (show (index - (size - offset) / width) % (size / width) <
            (other - (size - offset) / width) % (size / width) by omega))
        rw [Nat.mul_succ] at hmul
        exact Or.inr (Or.inl hmul)
      · refine Or.inl ?_
        dsimp only
        omega

end Values

section Records

variable {size width pages perPage count record other : Nat} {range range' : Range}

/-- A record of several pages. -/
def inPages (pages record : Nat) (range : Range) : Range :=
  ⟨record * pages + range.page, range.offset, range.length⟩

/-- Several records of one width in a page. -/
def inPage (width perPage record : Nat) (range : Range) : Range :=
  ⟨record / perPage, width * (record % perPage) + range.offset, range.length⟩

theorem inPages_lt (hpage : range.page < pages) (hrecord : record < count) :
    (inPages pages record range).page < pages * count := by
  have hmul := Nat.mul_le_mul_right pages (Nat.succ_le_of_lt hrecord)
  rw [Nat.succ_mul] at hmul
  rw [Nat.mul_comm pages]
  exact Nat.lt_of_lt_of_le (Nat.add_lt_add_left hpage _) hmul

theorem inPages_apart (hpage : range.page < pages) (hpage' : range'.page < pages)
    (hdiffer : record ≠ other ∨ range.Apart range') :
    (inPages pages record range).Apart (inPages pages other range') := by
  by_cases hsame : record * pages + range.page = other * pages + range'.page
  · have hpages : 0 < pages := Nat.lt_of_le_of_lt (Nat.zero_le _) hpage
    have hrecord : record = other := by
      have hdiv : (record * pages + range.page) / pages =
          (other * pages + range'.page) / pages := by rw [hsame]
      rwa [Nat.mul_comm, Nat.mul_comm other, Nat.mul_add_div hpages, Nat.mul_add_div hpages,
        Nat.div_eq_of_lt hpage, Nat.div_eq_of_lt hpage'] at hdiv
    obtain hne | hapart := hdiffer
    · exact absurd hrecord hne
    · obtain hne | hbytes := hapart
      · rw [hrecord] at hsame
        exact absurd (Nat.add_left_cancel hsame) hne
      · exact Or.inr hbytes
  · exact Or.inl hsame

theorem inPage_inside (hperPage : 0 < perPage) (hwidth : width * perPage ≤ size)
    (hin : range.offset + range.length ≤ width) :
    (inPage width perPage record range).Inside size := by
  have hmul := Nat.mul_le_mul_left width (Nat.succ_le_of_lt (Nat.mod_lt record hperPage))
  rw [Nat.mul_succ] at hmul
  rw [Range.Inside, inPage]
  dsimp only
  omega

theorem inPage_apart (hin : range.offset + range.length ≤ width)
    (hin' : range'.offset + range'.length ≤ width)
    (hdiffer : record ≠ other ∨ range.offset + range.length ≤ range'.offset ∨
      range'.offset + range'.length ≤ range.offset) :
    (inPage width perPage record range).Apart (inPage width perPage other range') := by
  by_cases hdiv : record / perPage = other / perPage
  · refine Or.inr ?_
    have hrecord := Nat.div_add_mod record perPage
    have hother := Nat.div_add_mod other perPage
    rw [hdiv] at hrecord
    rw [inPage, inPage]
    dsimp only
    obtain hlt | heq | hlt := Nat.lt_trichotomy (record % perPage) (other % perPage)
    · have hmul := Nat.mul_le_mul_left width (Nat.succ_le_of_lt hlt)
      rw [Nat.mul_succ] at hmul
      omega
    · have hrecords : record = other := by omega
      obtain hne | hbytes := hdiffer
      · exact absurd hrecords hne
      · rw [heq]
        omega
    · have hmul := Nat.mul_le_mul_left width (Nat.succ_le_of_lt hlt)
      rw [Nat.mul_succ] at hmul
      omega
  · exact Or.inl hdiv

end Records

end Pages
