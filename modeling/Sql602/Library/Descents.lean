import Mathlib.Data.Finset.Card
import Mathlib.Data.Finset.Image
import Mathlib.Data.Finset.Range
import Mathlib.Data.Finite.Prod
import Mathlib.Data.Set.Finite.Basic
import Mathlib.Data.List.Basic
import Mathlib.Data.List.Nodup

namespace Descents

/-! The visit of everything below an element. Every way to an element visits it again. -/

variable {α : Type} (children : α → List α)

/-- A result for each element, unless one has none. -/
def collect {β : Type} (visit : α → Option β) : List α → Option (List β)
  | [] => some []
  | a :: rest =>
      match visit a with
      | none => none
      | some b => (collect visit rest).map (b :: ·)

def walk : Nat → α → Option (List α)
  | 0, _ => none
  | fuel + 1, a => (collect (walk fuel) (children a)).map fun below => a :: below.flatten

/-- The element at the end of a path, a list of the numbers of children. -/
def follow : α → List Nat → Option α
  | a, [] => some a
  | a, i :: path => (children a)[i]?.bind fun child => follow child path

def IsPath (a : α) (path : List Nat) : Prop := (follow children a path).isSome = true

/-- There are at most so many paths. -/
def Few (a : α) (count : Nat) : Prop :=
  ∃ paths : Finset (List Nat), (∀ path, IsPath children a path → path ∈ paths) ∧
    paths.card ≤ count

variable {children} {a child : α} {fuel count : Nat} {path : List Nat} {list visited : List α}

theorem isPath_nil : IsPath children a [] := rfl

theorem isPath_cons {i : Nat} : IsPath children a (i :: path) ↔
    ∃ child, (children a)[i]? = some child ∧ IsPath children child path := by
  rw [IsPath, follow, Option.isSome_bind]
  cases (children a)[i]? with
  | none =>
      constructor
      · intro hpath
        cases hpath
      · rintro ⟨child, hchild, -⟩
        cases hchild
  | some child =>
      constructor
      · exact fun hpath => ⟨child, rfl, hpath⟩
      · rintro ⟨child', hchild, hpath⟩
        obtain rfl := Option.some.inj hchild
        exact hpath

theorem isPath_take (hpath : IsPath children a path) (n : Nat) :
    IsPath children a (path.take n) := by
  induction path generalizing a n with
  | nil =>
      rw [List.take_nil]
      exact hpath
  | cons i path ih =>
      cases n with
      | zero => exact isPath_nil
      | succ n =>
          obtain ⟨child, hchild, hpath⟩ := isPath_cons.mp hpath
          rw [List.take_succ_cons]
          exact isPath_cons.mpr ⟨child, hchild, ih hpath n⟩

/-- The starts of a path are paths, so few paths are short. -/
theorem length_lt_of_few (hfew : Few children a count) (hpath : IsPath children a path) :
    path.length < count := by
  obtain ⟨paths, hall, hcard⟩ := hfew
  have hinj : Set.InjOn (fun n => path.take n) (Finset.range (path.length + 1)) := by
    intro n hn m hm heq
    have hn := Finset.mem_range.mp (Finset.mem_coe.mp hn)
    have hm := Finset.mem_range.mp (Finset.mem_coe.mp hm)
    have hlength := congrArg List.length heq
    dsimp only at hlength
    rw [List.length_take, List.length_take] at hlength
    omega
  have hsub : (Finset.range (path.length + 1)).image (fun n => path.take n) ⊆ paths := by
    intro start hstart
    obtain ⟨n, -, rfl⟩ := Finset.mem_image.mp hstart
    exact hall _ (isPath_take hpath n)
  have hle := Finset.card_le_card hsub
  rw [Finset.card_image_of_injOn hinj, Finset.card_range] at hle
  exact Nat.lt_of_lt_of_le (Nat.lt_of_succ_le hle) hcard

theorem collect_isSome {β : Type} {visit : α → Option β}
    (hall : ∀ child ∈ list, (visit child).isSome = true) : (collect visit list).isSome = true := by
  induction list with
  | nil => rfl
  | cons a rest ih =>
      obtain ⟨b, hb⟩ := Option.isSome_iff_exists.mp (hall a List.mem_cons_self)
      rw [collect, hb]
      dsimp only
      rw [Option.isSome_map]
      exact ih fun child hchild => hall child (List.mem_cons_of_mem _ hchild)

theorem walk_isSome (hshort : ∀ path, IsPath children a path → path.length < fuel) :
    (walk children fuel a).isSome = true := by
  induction fuel generalizing a with
  | zero => exact absurd (hshort [] isPath_nil) (Nat.not_lt_zero _)
  | succ fuel ih =>
      rw [walk, Option.isSome_map]
      refine collect_isSome fun child hchild => ih fun path hpath => ?_
      obtain ⟨i, hi⟩ := List.getElem?_of_mem hchild
      exact Nat.lt_of_succ_lt_succ (hshort (i :: path) (isPath_cons.mpr ⟨child, hi, hpath⟩))

/-- The paths that start with a child of a list, the first of them with the number `first`. -/
theorem collect_paths {below : List (List α)} {first : Nat}
    (hwalk : ∀ child visited, walk children fuel child = some visited →
      ∃ paths : List (List Nat), paths.Nodup ∧ paths.length = visited.length ∧
        ∀ path, path ∈ paths ↔ IsPath children child path)
    (hcollect : collect (walk children fuel) list = some below) :
    ∃ paths : List (List Nat), paths.Nodup ∧ paths.length = below.flatten.length ∧
      ∀ path, path ∈ paths ↔ ∃ i rest child, path = (first + i) :: rest ∧
        list[i]? = some child ∧ IsPath children child rest := by
  induction list generalizing first below with
  | nil =>
      obtain rfl := Option.some.inj hcollect
      refine ⟨[], List.nodup_nil, rfl, fun path => ?_⟩
      constructor
      · intro hpath
        cases hpath
      · rintro ⟨i, rest, child, -, hchild, -⟩
        cases hchild
  | cons a list ih =>
      rw [collect] at hcollect
      cases ha : walk children fuel a with
      | none =>
          rw [ha] at hcollect
          cases hcollect
      | some visited =>
          rw [ha] at hcollect
          obtain ⟨below, hbelow, rfl⟩ := Option.map_eq_some_iff.mp hcollect
          obtain ⟨own, hownNodup, hownLength, hown⟩ := hwalk a visited ha
          obtain ⟨others, hothersNodup, hothersLength, hothers⟩ := @ih below (first + 1) hbelow
          refine ⟨own.map (first :: ·) ++ others, ?_, ?_, fun path => ?_⟩
          · refine List.Nodup.append ?_ hothersNodup fun path hleft hright => ?_
            · exact hownNodup.map fun p q heq => (List.cons.inj heq).2
            · obtain ⟨rest, -, rfl⟩ := List.mem_map.mp hleft
              obtain ⟨i, rest', child, heq, -⟩ := (hothers _).mp hright
              have hfirst := (List.cons.inj heq).1
              omega
          · rw [List.length_append, List.length_map, hownLength, hothersLength, List.flatten_cons,
              List.length_append]
          · rw [List.mem_append, List.mem_map, hothers]
            constructor
            · rintro (⟨rest, hrest, rfl⟩ | ⟨i, rest, child, rfl, hchild, hrest⟩)
              · exact ⟨0, rest, a, rfl, rfl, (hown rest).mp hrest⟩
              · refine ⟨i + 1, rest, child, ?_, hchild, hrest⟩
                rw [Nat.add_assoc, Nat.add_comm 1]
            · rintro ⟨i, rest, child, rfl, hchild, hrest⟩
              cases i with
              | zero =>
                  obtain rfl := Option.some.inj hchild
                  exact Or.inl ⟨rest, (hown rest).mpr hrest, rfl⟩
              | succ i =>
                  refine Or.inr ⟨i, rest, child, ?_, hchild, hrest⟩
                  rw [Nat.add_assoc, Nat.add_comm 1]

/-- A walk visits as many elements as there are paths. -/
theorem walk_paths (hwalk : walk children fuel a = some visited) :
    ∃ paths : List (List Nat), paths.Nodup ∧ paths.length = visited.length ∧
      ∀ path, path ∈ paths ↔ IsPath children a path := by
  induction fuel generalizing a visited with
  | zero => cases hwalk
  | succ fuel ih =>
      obtain ⟨below, hbelow, rfl⟩ := Option.map_eq_some_iff.mp hwalk
      obtain ⟨paths, hnodup, hlength, hpaths⟩ :=
        @collect_paths α children fuel _ below 0 (fun child visited => ih) hbelow
      refine ⟨[] :: paths, List.nodup_cons.mpr ⟨fun hnil => ?_, hnodup⟩, ?_, fun path => ?_⟩
      · obtain ⟨i, rest, child, heq, -⟩ := (hpaths []).mp hnil
        cases heq
      · rw [List.length_cons, List.length_cons, hlength]
      · rw [List.mem_cons, hpaths]
        constructor
        · rintro (rfl | ⟨i, rest, child, rfl, hchild, hrest⟩)
          · exact isPath_nil
          · rw [Nat.zero_add]
            exact isPath_cons.mpr ⟨child, hchild, hrest⟩
        · intro hpath
          cases path with
          | nil => exact Or.inl rfl
          | cons i rest =>
              obtain ⟨child, hchild, hrest⟩ := isPath_cons.mp hpath
              exact Or.inr ⟨i, rest, child, by rw [Nat.zero_add], hchild, hrest⟩

/-- A walk ends after few visits exactly when there are few paths. -/
theorem walk_iff_few : (∃ fuel visited, walk children fuel a = some visited ∧
    visited.length ≤ count) ↔ Few children a count := by
  constructor
  · rintro ⟨fuel, visited, hwalk, hlength⟩
    obtain ⟨paths, hnodup, hpathsLength, hpaths⟩ := walk_paths hwalk
    refine ⟨paths.toFinset, fun path hpath => List.mem_toFinset.mpr ((hpaths path).mpr hpath), ?_⟩
    rw [List.toFinset_card_of_nodup hnodup, hpathsLength]
    exact hlength
  · intro hfew
    obtain ⟨visited, hwalk⟩ := Option.isSome_iff_exists.mp
      (walk_isSome fun path hpath => length_lt_of_few hfew hpath)
    obtain ⟨paths, hnodup, hpathsLength, hpaths⟩ := walk_paths hwalk
    obtain ⟨all, hall, hcard⟩ := hfew
    refine ⟨count, visited, hwalk, ?_⟩
    have hsub : paths.toFinset ⊆ all :=
      fun path hpath => hall path ((hpaths path).mp (List.mem_toFinset.mp hpath))
    have hle := Finset.card_le_card hsub
    rw [List.toFinset_card_of_nodup hnodup, hpathsLength] at hle
    exact Nat.le_trans hle hcard

end Descents
