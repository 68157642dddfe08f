import Sql602.Library.Cells
import Mathlib.Data.List.TakeWhile
import Mathlib.Data.List.Range

namespace Probing

open scoped List

/-! Open addressing. A search starts in the home cell of a key, goes on to the
next cell, round the end of the table, and stops in an empty cell. Removed
entries leave cells that are neither entries nor empty. -/

structure Scheme (γ : Type*) where
  isEmpty : γ → Bool
  isEntry : γ → Bool
  home : Nat → γ → Nat
  nonempty_of_entry : ∀ cell, isEntry cell = true → isEmpty cell = false

def order (size start : Nat) : List Nat := (List.range size).map fun d => (start + d) % size

variable {γ : Type*} {scheme : Scheme γ} {cells : List γ} {cell : γ} {i start : Nat}

/-- The loop of a search, which goes round the table no more than once. -/
def walk {β : Type*} (size : Nat) (stop : Nat → Option β) : Nat → Nat → Option β
  | 0, _ => none
  | fuel + 1, ind => (stop ind).or (walk size stop fuel (if size ≤ ind + 1 then 0 else ind + 1))

namespace Scheme

def passes (scheme : Scheme γ) (cells : List γ) (i : Nat) : Bool :=
  (cells[i]?).any fun cell => !scheme.isEmpty cell

def vacant (scheme : Scheme γ) (cells : List γ) (i : Nat) : Bool :=
  (cells[i]?).any fun cell => !scheme.isEntry cell

/-- The indices that a search passes before it meets an empty cell. -/
def chain (scheme : Scheme γ) (cells : List γ) (start : Nat) : List Nat :=
  (order cells.length start).takeWhile (scheme.passes cells)

def visited (scheme : Scheme γ) (cells : List γ) (start : Nat) : List γ :=
  (scheme.chain cells start).filterMap fun i => cells[i]?

/-- The first index that a new entry may be written to. -/
def slot (scheme : Scheme γ) (cells : List γ) (start : Nat) : Option Nat :=
  (order cells.length start).find? (scheme.vacant cells)

def entries (scheme : Scheme γ) (cells : List γ) : List γ := cells.filter scheme.isEntry

/-- Every entry lies on the chain from its home cell. -/
def Placed (scheme : Scheme γ) (cells : List γ) : Prop :=
  ∀ i cell, cells[i]? = some cell → scheme.isEntry cell = true →
    i ∈ scheme.chain cells (scheme.home cells.length cell)

end Scheme

theorem mem_order {size : Nat} : i ∈ order size start ↔ i < size := by
  simp only [order, List.mem_map, List.mem_range]
  constructor
  · rintro ⟨d, hd, rfl⟩
    exact Nat.mod_lt _ (by omega)
  · intro hi
    have hstart := Nat.mod_lt start (show 0 < size by omega)
    rcases Nat.lt_or_ge i (start % size) with hlt | hge
    · refine ⟨i + size - start % size, by omega, ?_⟩
      rw [Nat.add_mod, Nat.mod_eq_of_lt (show i + size - start % size < size by omega),
        show start % size + (i + size - start % size) = i + size by omega,
        Nat.add_mod_right, Nat.mod_eq_of_lt hi]
    · refine ⟨i - start % size, by omega, ?_⟩
      rw [Nat.add_mod, Nat.mod_eq_of_lt (show i - start % size < size by omega),
        show start % size + (i - start % size) = i by omega, Nat.mod_eq_of_lt hi]

/-- The index behind the one at a distance from the start. -/
theorem step_order {size : Nat} (hsize : 0 < size) (start d : Nat) :
    (if size ≤ (start + d) % size + 1 then 0 else (start + d) % size + 1) =
      (start + (d + 1)) % size := by
  have hlt := Nat.mod_lt (start + d) hsize
  have hnext : (start + (d + 1)) % size = ((start + d) % size + 1) % size := by
    rw [Nat.mod_add_mod, Nat.add_assoc]
  rw [hnext]
  split
  case isTrue hend =>
    have hwrap : (start + d) % size + 1 = size := Nat.le_antisymm hlt hend
    rw [hwrap, Nat.mod_self]
  case isFalse hinside => rw [Nat.mod_eq_of_lt (Nat.not_le.mp hinside)]

theorem walk_eq {β : Type*} {size : Nat} {stop : Nat → Option β} (hstart : start < size) :
    walk size stop size start = (order size start).findSome? stop := by
  have hsize := Nat.zero_lt_of_lt hstart
  have hwalk : ∀ fuel d, walk size stop fuel ((start + d) % size) =
      ((List.range fuel).map fun e => (start + (d + e)) % size).findSome? stop := by
    intro fuel
    induction fuel with
    | zero => exact fun d => rfl
    | succ fuel ih =>
        intro d
        have hrest : ((fun e => (start + (d + e)) % size) ∘ Nat.succ) =
            fun e => (start + (d + 1 + e)) % size := by
          funext e
          rw [Function.comp_apply, Nat.succ_eq_add_one, Nat.add_assoc, Nat.add_comm 1 e]
        rw [walk, step_order hsize, ih, List.range_succ_eq_map, List.map_cons, List.map_map,
          hrest, List.findSome?_cons, Nat.add_zero]
        cases stop ((start + d) % size) <;> rfl
  have hfirst := hwalk size 0
  simp only [Nat.add_zero, Nat.zero_add, Nat.mod_eq_of_lt hstart] at hfirst
  exact hfirst

private theorem mem_takeWhile_range {f : Nat → Nat} {p : Nat → Bool} {n : Nat} :
    i ∈ ((List.range n).map f).takeWhile p ↔
      ∃ d < n, i = f d ∧ ∀ e ≤ d, p (f e) = true := by
  induction n generalizing f with
  | zero => simp
  | succ n ih =>
      rw [List.range_succ_eq_map, List.map_cons, List.map_map]
      by_cases hfirst : p (f 0) = true
      · rw [List.takeWhile_cons_of_pos hfirst, List.mem_cons, ih]
        constructor
        · rintro (rfl | ⟨d, hd, rfl, hpassed⟩)
          · refine ⟨0, Nat.succ_pos n, rfl, fun e he => ?_⟩
            rwa [Nat.le_zero.mp he]
          · refine ⟨d + 1, Nat.succ_lt_succ hd, rfl, fun e he => ?_⟩
            cases e with
            | zero => exact hfirst
            | succ e => exact hpassed e (Nat.le_of_succ_le_succ he)
        · rintro ⟨d, hd, rfl, hpassed⟩
          cases d with
          | zero => exact Or.inl rfl
          | succ d =>
              exact Or.inr ⟨d, Nat.lt_of_succ_lt_succ hd, rfl,
                fun e he => hpassed (e + 1) (Nat.succ_le_succ he)⟩
      · rw [List.takeWhile_cons_of_neg hfirst]
        refine iff_of_false List.not_mem_nil ?_
        rintro ⟨d, -, -, hpassed⟩
        exact hfirst (hpassed 0 (Nat.zero_le d))

/-- The chain is what a search passes step by step. -/
theorem mem_chain_iff : i ∈ scheme.chain cells start ↔
    ∃ d < cells.length, i = (start + d) % cells.length ∧
      ∀ e ≤ d, scheme.passes cells ((start + e) % cells.length) = true :=
  mem_takeWhile_range

theorem Scheme.Placed.mem_visited (hplaced : scheme.Placed cells) (hmem : cell ∈ cells)
    (hentry : scheme.isEntry cell = true) :
    cell ∈ scheme.visited cells (scheme.home cells.length cell) := by
  obtain ⟨i, hi, rfl⟩ := List.getElem_of_mem hmem
  have hcell := List.getElem?_eq_getElem hi
  exact List.mem_filterMap.mpr ⟨i, hplaced i _ hcell hentry, hcell⟩

private theorem mem_takeWhile_mono {p q : Nat → Bool} {l : List Nat}
    (hmono : ∀ i ∈ l, p i = true → q i = true) (hmem : i ∈ l.takeWhile p) :
    i ∈ l.takeWhile q := by
  induction l with
  | nil => simp at hmem
  | cons first l ih =>
      by_cases hp : p first = true
      · rw [List.takeWhile_cons_of_pos hp] at hmem
        rw [List.takeWhile_cons_of_pos (hmono first List.mem_cons_self hp)]
        rcases List.mem_cons.mp hmem with rfl | hmem
        · exact List.mem_cons_self
        · exact List.mem_cons_of_mem _
            (ih (fun i hi => hmono i (List.mem_cons_of_mem _ hi)) hmem)
      · rw [List.takeWhile_cons_of_neg hp] at hmem
        simp at hmem

/-- A cell that is not empty may be replaced by another one that is not empty:
no chain becomes shorter. -/
theorem mem_chain_set {j : Nat} {new : γ} (hnew : scheme.isEmpty new = false)
    (hmem : i ∈ scheme.chain cells start) : i ∈ scheme.chain (cells.set j new) start := by
  rw [Scheme.chain, List.length_set]
  refine mem_takeWhile_mono (fun k _ hk => ?_) hmem
  obtain ⟨cell, hcell, hnonempty⟩ := (Option.any_eq_true _ _).mp hk
  by_cases hkj : j = k
  · subst hkj
    obtain ⟨hj, _⟩ := List.getElem?_eq_some_iff.mp hcell
    rw [Scheme.passes, List.getElem?_set_self hj]
    simp [hnew]
  · rwa [Scheme.passes, List.getElem?_set_ne hkj]

theorem slot_cases (hslot : scheme.slot cells start = some i) :
    ∃ old, cells[i]? = some old ∧ scheme.isEntry old = false := by
  have hvacant : scheme.vacant cells i = true := List.find?_some hslot
  obtain ⟨old, hold, hdead⟩ := (Option.any_eq_true _ _).mp hvacant
  exact ⟨old, hold, by simpa using hdead⟩

theorem exists_slot (start : Nat) {old : γ} (hold : old ∈ cells) (hdead : scheme.isEntry old = false) :
    ∃ i, scheme.slot cells start = some i := by
  obtain ⟨i, hi, rfl⟩ := List.getElem_of_mem hold
  refine Option.isSome_iff_exists.mp (List.find?_isSome.mpr ⟨i, mem_order.mpr hi, ?_⟩)
  rw [Scheme.vacant, List.getElem?_eq_getElem hi]
  simpa using hdead

/-- The cell that a new entry is written to is reached over entries only. -/
theorem mem_chain_slot {new : γ} (hslot : scheme.slot cells start = some i)
    (hnew : scheme.isEntry new = true) : i ∈ scheme.chain (cells.set i new) start := by
  obtain ⟨_, passed, rest, horder, hpassed⟩ := List.find?_eq_some_iff_append.mp hslot
  obtain ⟨old, hold, _⟩ := slot_cases hslot
  obtain ⟨hi, _⟩ := List.getElem?_eq_some_iff.mp hold
  have hhere : scheme.passes (cells.set i new) i = true := by
    rw [Scheme.passes, List.getElem?_set_self hi]
    simp [scheme.nonempty_of_entry new hnew]
  have hbefore : ∀ k ∈ passed, scheme.passes (cells.set i new) k = true := by
    intro k hk
    have hlt : k < cells.length := by
      rw [← mem_order, horder]
      exact List.mem_append_left _ hk
    by_cases hik : i = k
    · rwa [← hik]
    · have hlive := hpassed k hk
      rw [Scheme.vacant, List.getElem?_eq_getElem hlt] at hlive
      rw [Scheme.passes, List.getElem?_set_ne hik, List.getElem?_eq_getElem hlt]
      have hentry : scheme.isEntry cells[k] = true := by simpa using hlive
      simp [scheme.nonempty_of_entry _ hentry]
  rw [Scheme.chain, List.length_set, horder, List.takeWhile_append_of_pos hbefore,
    List.takeWhile_cons_of_pos hhere]
  exact List.mem_append_right _ List.mem_cons_self

/-- The first empty cell ends the chain, an entry written to it is the last one on it. -/
theorem mem_chain_end {new : γ} (hnew : scheme.isEmpty new = false)
    (hend : (order cells.length start).find? (fun k => (cells[k]?).any scheme.isEmpty) = some i) :
    i ∈ scheme.chain (cells.set i new) start := by
  obtain ⟨hempty, passed, rest, horder, hpassed⟩ := List.find?_eq_some_iff_append.mp hend
  obtain ⟨old, hold, _⟩ := (Option.any_eq_true _ _).mp hempty
  obtain ⟨hi, _⟩ := List.getElem?_eq_some_iff.mp hold
  have hhere : scheme.passes (cells.set i new) i = true := by
    rw [Scheme.passes, List.getElem?_set_self hi]
    simp [hnew]
  have hbefore : ∀ k ∈ passed, scheme.passes (cells.set i new) k = true := by
    intro k hk
    have hlt : k < cells.length := by
      rw [← mem_order, horder]
      exact List.mem_append_left _ hk
    by_cases hik : i = k
    · rwa [← hik]
    · have hused := hpassed k hk
      rw [List.getElem?_eq_getElem hlt] at hused
      rw [Scheme.passes, List.getElem?_set_ne hik, List.getElem?_eq_getElem hlt]
      simpa using hused
  rw [Scheme.chain, List.length_set, horder, List.takeWhile_append_of_pos hbefore,
    List.takeWhile_cons_of_pos hhere]
  exact List.mem_append_right _ List.mem_cons_self

namespace Scheme.Placed

/-- Writing a new entry to a cell that its chain then reaches. -/
theorem write {new : γ} (hplaced : scheme.Placed cells) (hentry : scheme.isEntry new = true)
    (hreached : i ∈ scheme.chain (cells.set i new) (scheme.home cells.length new)) :
    scheme.Placed (cells.set i new) := by
  have hnonempty := scheme.nonempty_of_entry new hentry
  intro k cell hcell hlive
  rw [List.length_set]
  by_cases hik : i = k
  · subst hik
    obtain ⟨hi, hsame⟩ := List.getElem?_eq_some_iff.mp hcell
    rw [List.getElem_set_self] at hsame
    rwa [← hsame]
  · rw [List.getElem?_set_ne hik] at hcell
    exact mem_chain_set hnonempty (hplaced k cell hcell hlive)

/-- Writing a new entry to the first free cell of its order. -/
theorem insert {new : γ} (hplaced : scheme.Placed cells)
    (hentry : scheme.isEntry new = true)
    (hslot : scheme.slot cells (scheme.home cells.length new) = some i) :
    scheme.Placed (cells.set i new) :=
  hplaced.write hentry (mem_chain_slot hslot hentry)

/-- Removing an entry leaves a cell that is not empty. -/
theorem remove {dead : γ} (hplaced : scheme.Placed cells)
    (hdead : scheme.isEntry dead = false) (hnonempty : scheme.isEmpty dead = false) :
    scheme.Placed (cells.set i dead) := by
  intro k cell hcell hlive
  rw [List.length_set]
  by_cases hik : i = k
  · subst hik
    obtain ⟨hi, hsame⟩ := List.getElem?_eq_some_iff.mp hcell
    rw [List.getElem_set_self] at hsame
    rw [← hsame, hdead] at hlive
    cases hlive
  · rw [List.getElem?_set_ne hik] at hcell
    exact mem_chain_set hnonempty (hplaced k cell hcell hlive)

/-- An entry may be replaced by another entry with the same home cell. -/
theorem update {old new : γ} (hplaced : scheme.Placed cells) (hold : cells[i]? = some old)
    (hentry : scheme.isEntry old = true)
    (hhome : scheme.home cells.length new = scheme.home cells.length old)
    (hnonempty : scheme.isEmpty new = false) : scheme.Placed (cells.set i new) := by
  intro k cell hcell hlive
  rw [List.length_set]
  by_cases hik : i = k
  · subst hik
    obtain ⟨hi, hsame⟩ := List.getElem?_eq_some_iff.mp hcell
    rw [List.getElem_set_self] at hsame
    rw [← hsame, hhome]
    exact mem_chain_set hnonempty (hplaced i old hold hentry)
  · rw [List.getElem?_set_ne hik] at hcell
    exact mem_chain_set hnonempty (hplaced k cell hcell hlive)

/-- Removing several entries at once. -/
theorem map {remove : γ → γ} (hplaced : scheme.Placed cells)
    (hsame : ∀ cell, scheme.isEmpty (remove cell) = scheme.isEmpty cell)
    (hentry : ∀ cell, scheme.isEntry (remove cell) = true → remove cell = cell) :
    scheme.Placed (cells.map remove) := by
  intro k cell hcell hlive
  rw [List.getElem?_map, Option.map_eq_some_iff] at hcell
  obtain ⟨old, hold, rfl⟩ := hcell
  have hkept := hentry old hlive
  rw [hkept] at hlive ⊢
  have hchain : scheme.passes (cells.map remove) = scheme.passes cells := by
    funext i
    simp only [Scheme.passes, List.getElem?_map]
    cases cells[i]? with
    | none => rfl
    | some cell => simp [hsame]
  rw [Scheme.chain, List.length_map, hchain]
  exact hplaced k old hold hlive

theorem of_no_entries (hnone : ∀ cell ∈ cells, scheme.isEntry cell = false) :
    scheme.Placed cells := by
  intro i cell hcell hentry
  rw [hnone cell (List.mem_of_getElem? hcell)] at hentry
  cases hentry

end Scheme.Placed

end Probing
