import Sql602.Collation.Weights
import Sql602.Library.Levels

namespace Sql602.Collation

/-! The comparison of strings. A string ends before its first zero character. The
functions for narrow and for wide characters differ in what they read of a character. -/

/-- `raw` is the number of the character itself, `unic` the Unicode number to be weighed. -/
structure Reading (α : Type) where
  nul : α
  raw : α → Nat
  unic : α → Nat

variable {α : Type}

structure Letter (α : Type) where
  ord : Nat
  maxlen : Nat
  text : List α

def Reading.head (reading : Reading α) (s : List α) : Nat := reading.raw (s.headD reading.nul)

/-- The order of the first letter of a string. Ch is one letter in the charset 1. -/
def Reading.firstLetter (reading : Reading α) (charset : Nat) (ignoreCase : Bool) (maxlen : Nat)
    (s : List α) : Letter α :=
  if charset % 128 = 1 ∧ (reading.head s = 99 ∨ reading.head s = 67) ∧ maxlen ≠ 0 ∧
      (reading.head s.tail = 104 ∨ reading.head s.tail = 72) then
    { ord := if reading.head s = 67 ∨ ignoreCase then orBig ORCh 0 else orSml ORCh 0
      maxlen := maxlen - 1
      text := s.tail }
  else
    { ord := orderOf (reading.unic (s.headD reading.nul))
      maxlen := maxlen
      text := s }

theorem Reading.firstLetter_maxlen_le (reading : Reading α) (charset : Nat) (ignoreCase : Bool)
    (maxlen : Nat) (s : List α) :
    (reading.firstLetter charset ignoreCase maxlen s).maxlen ≤ maxlen := by
  unfold firstLetter
  split
  · exact Nat.sub_le maxlen 1
  · exact Nat.le_refl maxlen

/-- The order without the accent. -/
def strong (ord : Nat) : Nat := ord / 16

/-- `smallChange` is the first small change. -/
def Reading.compLoop (reading : Reading α) (charset : Nat) (ignoreCase : Bool) :
    Nat → Nat → List α → List α → Int → Int
  | 0, _, _, _, smallChange => smallChange
  | _ + 1, 0, _, _, smallChange => smallChange
  | maxlen1 + 1, maxlen2 + 1, s1, s2, smallChange =>
      let first := reading.firstLetter charset ignoreCase maxlen1 s1
      let second := reading.firstLetter charset ignoreCase maxlen2 s2
      if strong first.ord < strong second.ord then -1
      else if strong second.ord < strong first.ord then 1
      else
        let smallChange :=
          if smallChange = 0 then
            if first.ord < second.ord then -1 else if second.ord < first.ord then 1 else smallChange
          else smallChange
        if reading.head first.text = 0 then smallChange
        else
          reading.compLoop charset ignoreCase first.maxlen second.maxlen first.text.tail
            second.text.tail smallChange
termination_by maxlen1 => maxlen1
decreasing_by exact Nat.lt_succ_of_le (reading.firstLetter_maxlen_le charset ignoreCase maxlen1 s1)

/-- The upper-case and the Unicode table of the character set are used. -/
def readingA (charset : Nat) (ignoreCase : Bool) : Reading UInt8 where
  nul := 0
  raw := UInt8.toNat
  unic c :=
    (unicTable charset).getD
      (if ignoreCase then (caseTable charset).getD c.toNat 0 else c.toNat) 0

/-- `upcase` is the conversion of the system. -/
def readingW (upcase : Nat → Nat) (ignoreCase : Bool) : Reading UInt16 where
  nul := 0
  raw := UInt16.toNat
  unic c := if ignoreCase then upcase c.toNat else c.toNat

def generalCompStrA (charset : Nat) (ignoreCase : Bool) (maxlen : Nat) (s1 s2 : List UInt8) :
    Int :=
  (readingA charset ignoreCase).compLoop charset ignoreCase maxlen maxlen s1 s2 0

def generalCompStrW (upcase : Nat → Nat) (charset : Nat) (ignoreCase : Bool) (maxlen : Nat)
    (s1 s2 : List UInt16) : Int :=
  (readingW upcase ignoreCase).compLoop charset ignoreCase maxlen maxlen s1 s2 0

end Sql602.Collation

namespace Sql602.Collation

open Levels

/-! The comparison of strings is the comparison of their letters by two levels. -/

variable {α β : Type}

def sign : Ordering → Int
  | .lt => -1
  | .eq => 0
  | .gt => 1

@[simp] theorem sign_swap (order : Ordering) : sign order.swap = -sign order := by
  cases order <;> rfl

theorem sign_le_zero (order : Ordering) : sign order ≤ 0 ↔ order.isLE = true := by
  cases order <;> decide

theorem unicodeOrder_strong :
    ∀ ord ∈ unicodeOrder, strong ord ≠ 0 ∧ strong ord ≠ ORCh ∧ strong ord ≠ ORCh + 256 := by
  decide +kernel

theorem orderOf_strong (u : Nat) :
    (strong (orderOf u) = 0 ↔ u = 0) ∧ strong (orderOf u) ≠ ORCh ∧
      strong (orderOf u) ≠ ORCh + 256 := by
  unfold orderOf
  split
  case isTrue hlow =>
    simp only [strong, ORCh]
    omega
  case isFalse hhigh =>
    cases hentry : unicodeOrder[u - 65]? with
    | none =>
        have hterm : strong TERMCH = 712 := by decide
        rw [Option.getD_none, hterm, ORCh]
        omega
    | some ord =>
        obtain ⟨hzero, hlarge, hsmall⟩ := unicodeOrder_strong ord (List.mem_of_getElem? hentry)
        refine ⟨?_, hlarge, hsmall⟩
        rw [Option.getD_some]
        omega

namespace Reading

variable {reading : Reading α} {charset maxlen : Nat} {ignoreCase : Bool} {s t : List α}

/-- Only the zero character ends a string, and only it is weighed as the end. -/
structure Sound (reading : Reading α) : Prop where
  nul_raw : reading.raw reading.nul = 0
  unic_zero : ∀ c, reading.unic c = 0 ↔ reading.raw c = 0

def IsCh (reading : Reading α) (charset maxlen : Nat) (s : List α) : Prop :=
  charset % 128 = 1 ∧ (reading.head s = 99 ∨ reading.head s = 67) ∧ maxlen ≠ 0 ∧
    (reading.head s.tail = 104 ∨ reading.head s.tail = 72)

theorem firstLetter_ch (hch : reading.IsCh charset maxlen s) :
    reading.firstLetter charset ignoreCase maxlen s =
      { ord := if reading.head s = 67 ∨ ignoreCase then orBig ORCh 0 else orSml ORCh 0
        maxlen := maxlen - 1
        text := s.tail } :=
  if_pos hch

theorem firstLetter_plain (hplain : ¬ reading.IsCh charset maxlen s) :
    reading.firstLetter charset ignoreCase maxlen s =
      ⟨orderOf (reading.unic (s.headD reading.nul)), maxlen, s⟩ :=
  if_neg hplain

theorem strong_ch (hch : reading.IsCh charset maxlen s) :
    strong (reading.firstLetter charset ignoreCase maxlen s).ord = ORCh ∨
      strong (reading.firstLetter charset ignoreCase maxlen s).ord = ORCh + 256 := by
  rw [firstLetter_ch hch]
  dsimp only
  split
  · exact Or.inl (by decide)
  · exact Or.inr (by decide)

/-- Strings whose first letters differ only weakly are as long up to the next letter. -/
theorem firstLetter_maxlen_eq
    (hstrong : strong (reading.firstLetter charset ignoreCase maxlen s).ord =
      strong (reading.firstLetter charset ignoreCase maxlen t).ord) :
    (reading.firstLetter charset ignoreCase maxlen s).maxlen =
      (reading.firstLetter charset ignoreCase maxlen t).maxlen := by
  by_cases hs : reading.IsCh charset maxlen s
  · by_cases ht : reading.IsCh charset maxlen t
    · rw [firstLetter_ch hs, firstLetter_ch ht]
    · have hch := @strong_ch α reading charset maxlen ignoreCase s hs
      obtain ⟨_, hlarge, hsmall⟩ := orderOf_strong (reading.unic (t.headD reading.nul))
      rw [hstrong, firstLetter_plain ht] at hch
      exact (hch.elim hlarge hsmall).elim
  · by_cases ht : reading.IsCh charset maxlen t
    · have hch := @strong_ch α reading charset maxlen ignoreCase t ht
      obtain ⟨_, hlarge, hsmall⟩ := orderOf_strong (reading.unic (s.headD reading.nul))
      rw [← hstrong, firstLetter_plain hs] at hch
      exact (hch.elim hlarge hsmall).elim
    · rw [firstLetter_plain hs, firstLetter_plain ht]

/-- The end of the string is weighed as zero. -/
theorem firstLetter_end (hsound : reading.Sound) :
    reading.head (reading.firstLetter charset ignoreCase maxlen s).text = 0 ↔
      strong (reading.firstLetter charset ignoreCase maxlen s).ord = 0 := by
  by_cases hch : reading.IsCh charset maxlen s
  · have hstrong := @strong_ch α reading charset maxlen ignoreCase s hch
    have hnext := hch.2.2.2
    rw [firstLetter_ch hch] at hstrong ⊢
    simp only [ORCh] at hstrong ⊢
    omega
  · rw [firstLetter_plain hch]
    obtain ⟨hzero, _⟩ := orderOf_strong (reading.unic (s.headD reading.nul))
    rw [hzero, hsound.unic_zero]
    rfl

/-- The orders of the letters that are compared. -/
def letters (reading : Reading α) (charset : Nat) (ignoreCase : Bool) :
    Nat → List α → List Nat
  | 0, _ => []
  | maxlen + 1, s =>
      let first := reading.firstLetter charset ignoreCase maxlen s
      if reading.head first.text = 0 then [first.ord]
      else first.ord :: reading.letters charset ignoreCase first.maxlen first.text.tail
termination_by maxlen => maxlen
decreasing_by exact Nat.lt_succ_of_le (reading.firstLetter_maxlen_le charset ignoreCase maxlen s)

theorem smallChange_then (weaker : Ordering) (ord1 ord2 : Nat) :
    (if sign weaker = 0 then
        if ord1 < ord2 then -1 else if ord2 < ord1 then 1 else sign weaker
      else sign weaker) = sign (weaker.then (compare ord1 ord2)) := by
  cases weaker with
  | lt => rfl
  | gt => rfl
  | eq =>
      have hzero : sign .eq = 0 := rfl
      obtain hlt | rfl | hgt := Nat.lt_trichotomy ord1 ord2
      · have hcompare : compare ord1 ord2 = .lt := Nat.compare_eq_lt.mpr hlt
        rw [hcompare, if_pos hzero, if_pos hlt]
        rfl
      · have hcompare : compare ord1 ord1 = .eq := Nat.compare_eq_eq.mpr rfl
        rw [hcompare, if_pos hzero, if_neg (Nat.lt_irrefl ord1), if_neg (Nat.lt_irrefl ord1)]
        rfl
      · have hcompare : compare ord1 ord2 = .gt := Nat.compare_eq_gt.mpr hgt
        rw [hcompare, if_pos hzero, if_neg (Nat.lt_asymm hgt), if_pos hgt]
        rfl

theorem compLoop_eq_scan (hsound : reading.Sound) (maxlen : Nat) (s t : List α)
    (weaker : Ordering) :
    reading.compLoop charset ignoreCase maxlen maxlen s t (sign weaker) =
      sign (scan strong weaker (reading.letters charset ignoreCase maxlen s)
        (reading.letters charset ignoreCase maxlen t)) := by
  induction maxlen using Nat.strongRecOn generalizing s t weaker with
  | ind maxlen ih =>
      cases maxlen with
      | zero =>
          rw [compLoop, letters, letters]
          rfl
      | succ maxlen =>
          rw [compLoop, letters, letters]
          have hle := reading.firstLetter_maxlen_le charset ignoreCase maxlen s
          have hends := @firstLetter_end α reading charset maxlen ignoreCase s hsound
          have hendt := @firstLetter_end α reading charset maxlen ignoreCase t hsound
          have hequal := @firstLetter_maxlen_eq α reading charset maxlen ignoreCase s t
          generalize reading.firstLetter charset ignoreCase maxlen s = first at *
          generalize reading.firstLetter charset ignoreCase maxlen t = second at *
          dsimp only
          rw [smallChange_then]
          obtain hlt | heq | hgt := Nat.lt_trichotomy (strong first.ord) (strong second.ord)
          · have hcompare : compare (strong first.ord) (strong second.ord) = .lt :=
              Nat.compare_eq_lt.mpr hlt
            rw [if_pos hlt]
            split <;> split <;> simp only [scan, hcompare, Ordering.lt_then] <;> rfl
          · have hcompare : compare (strong first.ord) (strong second.ord) = .eq :=
              Nat.compare_eq_eq.mpr heq
            rw [if_neg (Nat.not_lt.mpr (Nat.le_of_eq heq.symm)),
              if_neg (Nat.not_lt.mpr (Nat.le_of_eq heq))]
            have hboth : reading.head first.text = 0 ↔ reading.head second.text = 0 := by
              rw [hends, hendt, heq]
            by_cases hend : reading.head first.text = 0
            · rw [if_pos hend, if_pos hend, if_pos (hboth.mp hend)]
              simp only [scan, hcompare, Ordering.eq_then]
            · rw [if_neg hend, if_neg hend, if_neg (fun hend' => hend (hboth.mpr hend'))]
              simp only [scan, hcompare, Ordering.eq_then]
              rw [← hequal heq]
              exact ih first.maxlen (Nat.lt_succ_of_le hle) first.text.tail second.text.tail _
          · have hcompare : compare (strong first.ord) (strong second.ord) = .gt :=
              Nat.compare_eq_gt.mpr hgt
            rw [if_neg (Nat.lt_asymm hgt), if_pos hgt]
            split <;> split <;> simp only [scan, hcompare, Ordering.gt_then] <;> rfl

theorem compLoop_eq (hsound : reading.Sound) (maxlen : Nat) (s t : List α) :
    reading.compLoop charset ignoreCase maxlen maxlen s t 0 =
      sign (compareLevels strong (reading.letters charset ignoreCase maxlen s)
        (reading.letters charset ignoreCase maxlen t)) := by
  have hscan := @compLoop_eq_scan α reading charset ignoreCase hsound maxlen s t .eq
  rw [scan_eq, Ordering.eq_then] at hscan
  exact hscan

end Reading

/-- A total preorder, given by the sign of a comparison. -/
structure IsCollation (comp : List α → List α → Int) : Prop where
  refl : ∀ s, comp s s = 0
  antisymm : ∀ s t, comp t s = -comp s t
  trans : ∀ s t u, comp s t ≤ 0 → comp t u ≤ 0 → comp s u ≤ 0
  total : ∀ s t, comp s t ≤ 0 ∨ comp t s ≤ 0

theorem isCollation_of_key {comp : List α → List α → Int} (key : List α → List Nat)
    (hcomp : ∀ s t, comp s t = sign (compareLevels strong (key s) (key t))) :
    IsCollation comp where
  refl s := by
    have hself : compareLevels strong (key s) (key s) = .eq := Std.ReflCmp.compare_self
    rw [hcomp, hself]
    rfl
  antisymm s t := by
    have hswap : compareLevels strong (key t) (key s) =
        (compareLevels strong (key s) (key t)).swap := Std.OrientedCmp.eq_swap
    rw [hcomp, hcomp, hswap, sign_swap]
  trans s t u hst htu := by
    rw [hcomp, sign_le_zero] at *
    exact Std.TransCmp.isLE_trans hst htu
  total s t := by
    have hswap : compareLevels strong (key t) (key s) =
        (compareLevels strong (key s) (key t)).swap := Std.OrientedCmp.eq_swap
    rw [hcomp, hcomp, sign_le_zero, sign_le_zero, hswap]
    cases compareLevels strong (key s) (key t) with
    | lt => exact Or.inl rfl
    | eq => exact Or.inl rfl
    | gt => exact Or.inr rfl

theorem Reading.Sound.isCollation {reading : Reading α} (hsound : reading.Sound) (charset : Nat)
    (ignoreCase : Bool) (maxlen : Nat) :
    IsCollation fun s t => reading.compLoop charset ignoreCase maxlen maxlen s t 0 :=
  isCollation_of_key (reading.letters charset ignoreCase maxlen) (Reading.compLoop_eq hsound maxlen)

end Sql602.Collation
