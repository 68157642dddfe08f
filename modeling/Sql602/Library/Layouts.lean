import Mathlib.Algebra.GroupWithZero.Nat
import Mathlib.Data.List.Basic
import Mathlib.Algebra.BigOperators.Group.List.Basic

namespace Layout

variable {κ β : Type*}

/-! Cells that lie one behind the other. Each cell is told a mark by the one before it,
and `holds` says that the memory has a cell with this mark at an address. -/

def Laid (len : κ → ℕ) (out : κ → β) (holds : ℕ → β → κ → Prop) :
    ℕ → β → List κ → ℕ → β → Prop
  | start, mark, [], stop, last => start = stop ∧ mark = last
  | start, mark, cell :: cells, stop, last =>
      holds start mark cell ∧
        Laid len out holds (start + len cell) (out cell) cells stop last

/-- The cell lies at the address. -/
def At (len : κ → ℕ) : ℕ → List κ → ℕ → κ → Prop
  | _, [], _, _ => False
  | start, cell :: cells, a, c => start = a ∧ cell = c ∨ At len (start + len cell) cells a c

def total (len : κ → ℕ) (cells : List κ) : ℕ := (cells.map len).sum

def starts (len : κ → ℕ) : ℕ → List κ → List ℕ
  | _, [] => []
  | start, cell :: cells => start :: starts len (start + len cell) cells

/-- The blocks with the given widths cover an interval exactly. -/
def Tiles (width : ℕ → ℕ) : ℕ → List ℕ → ℕ → Prop
  | start, [], stop => start = stop
  | start, a :: rest, stop => a = start ∧ 0 < width a ∧ Tiles width (start + width a) rest stop

section Addresses

variable {len : κ → ℕ} {start a b : ℕ} {cells first rest : List κ} {c d : κ}

@[simp] theorem total_nil : total len [] = 0 := rfl

@[simp] theorem total_cons : total len (c :: cells) = len c + total len cells := by
  simp [total]

@[simp] theorem total_append :
    total len (first ++ rest) = total len first + total len rest := by
  simp [total]

theorem at_append : At len start (first ++ rest) a c ↔
    At len start first a c ∨ At len (start + total len first) rest a c := by
  induction first generalizing start with
  | nil => simp [At]
  | cons cell cells ih =>
      rw [List.cons_append, At, At, ih, total_cons, ← Nat.add_assoc, or_assoc]

@[simp] theorem at_single : At len start [c] a d ↔ start = a ∧ c = d := by
  simp [At]

theorem At.range (hat : At len start cells a c) :
    start ≤ a ∧ a + len c ≤ start + total len cells := by
  induction cells generalizing start with
  | nil => cases hat
  | cons cell cells ih =>
      rw [total_cons]
      obtain ⟨rfl, rfl⟩ | hat := hat
      · omega
      · have := ih hat
        omega

/-- Two cells are the same or lie apart. -/
theorem At.apart (hat : At len start cells a c) (hother : At len start cells b d) :
    (a = b ∧ c = d) ∨ a + len c ≤ b ∨ b + len d ≤ a := by
  induction cells generalizing start with
  | nil => cases hat
  | cons cell cells ih =>
      obtain ⟨rfl, rfl⟩ | hat := hat
      · obtain ⟨rfl, rfl⟩ | hother := hother
        · exact Or.inl ⟨rfl, rfl⟩
        · exact Or.inr (Or.inl hother.range.1)
      · obtain ⟨rfl, rfl⟩ | hother := hother
        · exact Or.inr (Or.inr hat.range.1)
        · exact ih hat hother

theorem At.split (hat : At len start cells a c) :
    ∃ before after, cells = before ++ c :: after ∧ a = start + total len before := by
  induction cells generalizing start with
  | nil => cases hat
  | cons cell cells ih =>
      obtain ⟨rfl, rfl⟩ | hat := hat
      · exact ⟨[], cells, rfl, rfl⟩
      · obtain ⟨before, after, rfl, rfl⟩ := ih hat
        exact ⟨cell :: before, after, rfl, by rw [total_cons, Nat.add_assoc]⟩

theorem mem_starts : a ∈ starts len start cells ↔ ∃ c, At len start cells a c := by
  induction cells generalizing start with
  | nil => simp [starts, At]
  | cons cell cells ih =>
      rw [starts, List.mem_cons, ih]
      constructor
      · rintro (rfl | ⟨c, hat⟩)
        · exact ⟨cell, Or.inl ⟨rfl, rfl⟩⟩
        · exact ⟨c, Or.inr hat⟩
      · rintro ⟨c, ⟨rfl, -⟩ | hat⟩
        · exact Or.inl rfl
        · exact Or.inr ⟨c, hat⟩

end Addresses

section Tilings

variable {width : ℕ → ℕ} {start stop : ℕ} {blocks others : List ℕ}

theorem Tiles.le (htiles : Tiles width start blocks stop) : start ≤ stop := by
  induction blocks generalizing start with
  | nil => exact Nat.le_of_eq htiles
  | cons a rest ih =>
      obtain ⟨-, hwidth, hrest⟩ := htiles
      have := ih hrest
      omega

/-- The widths of the blocks leave one tiling only. -/
theorem Tiles.unique (htiles : Tiles width start blocks stop)
    (hothers : Tiles width start others stop) : blocks = others := by
  induction blocks generalizing start others with
  | nil =>
      cases others with
      | nil => rfl
      | cons a rest =>
          obtain ⟨-, hwidth, hrest⟩ := hothers
          have hstart : start = stop := htiles
          have := hrest.le
          omega
  | cons a rest ih =>
      obtain ⟨rfl, hwidth, hrest⟩ := htiles
      cases others with
      | nil =>
          have hstart : a = stop := hothers
          have := hrest.le
          omega
      | cons b rest' =>
          obtain ⟨rfl, -, hrest'⟩ := hothers
          rw [ih hrest hrest']

end Tilings

section Marks

variable {len : κ → ℕ} {out : κ → β} {holds holds' : ℕ → β → κ → Prop}
  {start stop a : ℕ} {mark last : β} {cells first rest : List κ} {c : κ}

theorem Laid.stop_eq (hlaid : Laid len out holds start mark cells stop last) :
    stop = start + total len cells := by
  induction cells generalizing start mark with
  | nil => exact hlaid.1.symm
  | cons cell cells ih => rw [ih hlaid.2, total_cons, Nat.add_assoc]

theorem laid_append : Laid len out holds start mark (first ++ rest) stop last ↔
    ∃ middle, Laid len out holds start mark first (start + total len first) middle ∧
      Laid len out holds (start + total len first) middle rest stop last := by
  induction first generalizing start mark with
  | nil =>
      constructor
      · exact fun hlaid => ⟨mark, ⟨rfl, rfl⟩, hlaid⟩
      · rintro ⟨middle, ⟨-, rfl⟩, hlaid⟩
        exact hlaid
  | cons cell cells ih =>
      rw [List.cons_append, Laid, ih, total_cons, ← Nat.add_assoc]
      constructor
      · rintro ⟨hholds, middle, hcells, hrest⟩
        exact ⟨middle, ⟨hholds, hcells⟩, hrest⟩
      · rintro ⟨middle, ⟨hholds, hcells⟩, hrest⟩
        exact ⟨hholds, middle, hcells, hrest⟩

theorem Laid.congr (hlaid : Laid len out holds start mark cells stop last)
    (hsame : ∀ x s cell, start ≤ x → x + len cell ≤ start + total len cells →
      holds x s cell → holds' x s cell) :
    Laid len out holds' start mark cells stop last := by
  induction cells generalizing start mark with
  | nil => exact hlaid
  | cons cell cells ih =>
      rw [total_cons] at hsame
      refine ⟨hsame start mark cell (by omega) (by omega) hlaid.1, ih hlaid.2 ?_⟩
      intro x s other hstart hstop
      exact hsame x s other (by omega) (by omega)

theorem Laid.holds_at (hlaid : Laid len out holds start mark cells stop last)
    (hat : At len start cells a c) : ∃ s, holds a s c := by
  induction cells generalizing start mark with
  | nil => cases hat
  | cons cell cells ih =>
      obtain ⟨rfl, rfl⟩ | hat := hat
      · exact ⟨mark, hlaid.1⟩
      · exact ih hlaid.2 hat

/-- What lies behind a cell has its mark. -/
theorem Laid.next (hlaid : Laid len out holds start mark cells stop last)
    (hat : At len start cells a c) :
    (a + len c = stop ∧ out c = last) ∨
      ∃ d, At len start cells (a + len c) d ∧ holds (a + len c) (out c) d := by
  induction cells generalizing start mark with
  | nil => cases hat
  | cons cell cells ih =>
      obtain ⟨rfl, rfl⟩ | hat := hat
      · cases cells with
        | nil => exact Or.inl hlaid.2
        | cons d rest => exact Or.inr ⟨d, Or.inr (Or.inl ⟨rfl, rfl⟩), hlaid.2.1⟩
      · obtain hend | ⟨d, hnext, hholds⟩ := ih hlaid.2 hat
        · exact Or.inl hend
        · exact Or.inr ⟨d, Or.inr hnext, hholds⟩

theorem Laid.tiles {width : ℕ → ℕ} (hlaid : Laid len out holds start mark cells stop last)
    (hwidth : ∀ x s cell, holds x s cell → 0 < len cell ∧ width x = len cell) :
    Tiles width start (starts len start cells) stop := by
  induction cells generalizing start mark with
  | nil => exact hlaid.1
  | cons cell cells ih =>
      obtain ⟨hpos, heq⟩ := hwidth start mark cell hlaid.1
      refine ⟨rfl, heq ▸ hpos, ?_⟩
      rw [heq]
      exact ih hlaid.2

end Marks

end Layout
