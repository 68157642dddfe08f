import Mathlib.Data.List.Basic

/-! A thing read portion after portion: `read pos left` is what a request at `pos`
gives when `left` is still to be read. The reader decides how long a portion is. -/

namespace Portions

variable {α : Type*} (read : Nat → Nat → List α)

/-- The requests of a reader that asks until nothing is left. -/
inductive Reached (start size : Nat) : Nat → Nat → Prop
  | start : Reached start size start size
  | next {pos left : Nat} : Reached start size pos left → left ≠ 0 →
      Reached start size (pos + (read pos left).length) (left - (read pos left).length)

/-- No request gives an empty portion. -/
def Delivers (start size : Nat) : Prop :=
  ∀ pos left, Reached read start size pos left → left ≠ 0 → read pos left ≠ []

/-- What the portions are together. -/
inductive Reads : Nat → Nat → List α → Prop
  | done (pos : Nat) : Reads pos 0 []
  | portion {pos left : Nat} {rest : List α} : left ≠ 0 →
      Reads (pos + (read pos left).length) (left - (read pos left).length) rest →
      Reads pos left (read pos left ++ rest)

variable {read} {start size pos left : Nat}

theorem Reached.of_next (hleft : size ≠ 0)
    (hreached : Reached read (start + (read start size).length)
      (size - (read start size).length) pos left) :
    Reached read start size pos left := by
  induction hreached with
  | start => exact .next .start hleft
  | next _ hsome ih => exact .next ih hsome

theorem Reached.start_or_next (hreached : Reached read start size pos left) :
    (pos = start ∧ left = size) ∨
      size ≠ 0 ∧ Reached read (start + (read start size).length)
        (size - (read start size).length) pos left := by
  induction hreached with
  | start => exact .inl ⟨rfl, rfl⟩
  | next _ hsome ih =>
      obtain ⟨rfl, rfl⟩ | ⟨hsize, hnext⟩ := ih
      · exact .inr ⟨hsome, .start⟩
      · exact .inr ⟨hsize, hnext.next hsome⟩

theorem delivers_zero : Delivers read start 0 := by
  intro pos left hreached hleft
  obtain ⟨-, rfl⟩ | ⟨hzero, -⟩ := hreached.start_or_next
  · exact absurd rfl hleft
  · exact absurd rfl hzero

theorem Delivers.first (hdelivers : Delivers read start size) (hsize : size ≠ 0) :
    read start size ≠ [] :=
  hdelivers start size .start hsize

theorem Delivers.next (hdelivers : Delivers read start size) (hsize : size ≠ 0) :
    Delivers read (start + (read start size).length) (size - (read start size).length) :=
  fun pos left hreached => hdelivers pos left (hreached.of_next hsize)

/-- An empty portion is asked for again and again. -/
theorem Delivers.of_next
    (hnext : Delivers read (start + (read start size).length)
      (size - (read start size).length)) :
    Delivers read start size := by
  by_cases hempty : read start size = []
  · rw [hempty] at hnext
    exact hnext
  · intro pos left hreached
    obtain ⟨rfl, rfl⟩ | ⟨-, hlater⟩ := hreached.start_or_next
    · exact fun _ => hempty
    · exact hnext pos left hlater

theorem Reads.zero {data : List α} (hreads : Reads read pos 0 data) : data = [] := by
  cases hreads with
  | done => rfl
  | portion hsome => exact absurd rfl hsome

theorem Reads.length (hlength : ∀ pos left, (read pos left).length ≤ left) {data : List α}
    (hreads : Reads read pos left data) : data.length = left := by
  induction hreads with
  | done => rfl
  | @portion pos left rest hsome hrest ih =>
      have hle := hlength pos left
      rw [List.length_append, ih]
      omega

/-- Induction over the portions that are read. -/
@[elab_as_elim] theorem Delivers.induction {motive : Nat → Nat → Prop}
    (hdelivers : Delivers read start size) (done : ∀ pos, motive pos 0)
    (portion : ∀ pos left, left ≠ 0 → read pos left ≠ [] →
      motive (pos + (read pos left).length) (left - (read pos left).length) → motive pos left) :
    motive start size := by
  induction size using Nat.strongRecOn generalizing start with
  | ind size ih =>
      by_cases hsize : size = 0
      · subst hsize
        exact done start
      · have hfirst := hdelivers.first hsize
        have hpos := List.length_pos_iff.mpr hfirst
        exact portion start size hsize hfirst
          (ih _ (by omega) (hdelivers.next hsize))

end Portions
