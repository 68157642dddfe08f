import Mathlib.Data.List.Basic

namespace Sql602.Schemas

/-! The cache of the names and identifiers of schemas. Its items are hints only. -/

def OBJ_NAME_LEN : Nat := 31

def UUID_SIZE : Nat := 12

def NOOBJECT : Nat := 0xffffffff

abbrev Name := List UInt8

abbrev Uuid := List UInt8

/-- An item is empty when its name is. -/
structure SchemaCacheItem where
  schemaName : Name
  schemaUuid : Uuid
  objnum : Nat
  deriving DecidableEq

/-- A new item of the array. -/
def nullItem : SchemaCacheItem := ⟨[], List.replicate UUID_SIZE 0, 0⟩

def SchemaCacheItem.conflicts (schemaUuid : Uuid) (schemaName : Name) (item : SchemaCacheItem) :
    Bool :=
  item.schemaName == [] || schemaUuid == item.schemaUuid || schemaName == item.schemaName

/-- The loop of the insertion, from an index on. An access behind the end extends the array. -/
def putFrom (schemaUuid : Uuid) (schemaName : Name) (objnum : Nat) :
    Nat → Nat → List SchemaCacheItem → Bool → Option (List SchemaCacheItem)
  | 0, _, _, _ => none
  | fuel + 1, i, items, done =>
      if i < items.length ∨ done = false ∧ objnum ≠ NOOBJECT ∧ i = items.length then
        let items := if i < items.length then items else items ++ [nullItem]
        let item := items.getD i nullItem
        if item.conflicts schemaUuid schemaName then
          if done ∨ objnum = NOOBJECT then
            putFrom schemaUuid schemaName objnum fuel (i + 1)
              (items.set i { item with schemaName := [] }) done
          else
            putFrom schemaUuid schemaName objnum fuel (i + 1)
              (items.set i ⟨schemaName, schemaUuid, objnum⟩) true
        else putFrom schemaUuid schemaName objnum fuel (i + 1) items done
      else some items

def putValuesToCache (schemaUuid : Uuid) (schemaName : Name) (objnum : Nat)
    (items : List SchemaCacheItem) : Option (List SchemaCacheItem) :=
  putFrom schemaUuid schemaName objnum (items.length + 2) 0 items false

/-- The array after the insertion. -/
def putItems (schemaUuid : Uuid) (schemaName : Name) (objnum : Nat) :
    Bool → List SchemaCacheItem → List SchemaCacheItem
  | done, [] =>
      if done ∨ objnum = NOOBJECT then [] else [⟨schemaName, schemaUuid, objnum⟩]
  | done, item :: items =>
      if item.conflicts schemaUuid schemaName then
        if done ∨ objnum = NOOBJECT then
          { item with schemaName := [] } :: putItems schemaUuid schemaName objnum done items
        else
          ⟨schemaName, schemaUuid, objnum⟩ :: putItems schemaUuid schemaName objnum true items
      else item :: putItems schemaUuid schemaName objnum done items

/-- Two items that are not empty have different names and different identifiers. -/
def Apart (first second : SchemaCacheItem) : Prop :=
  first.schemaName ≠ [] → second.schemaName ≠ [] →
    first.schemaName ≠ second.schemaName ∧ first.schemaUuid ≠ second.schemaUuid

/-- No name and no identifier has two items. -/
def OneEach (items : List SchemaCacheItem) : Prop := items.Pairwise Apart

section Putting

variable {schemaUuid : Uuid} {schemaName : Name} {objnum fuel : Nat} {done : Bool}
  {before items : List SchemaCacheItem} {item : SchemaCacheItem}

theorem getD_middle : (before ++ item :: items).getD before.length nullItem = item := by
  rw [List.getD_eq_getElem?_getD, List.getElem?_append_right (Nat.le_refl _), Nat.sub_self]
  rfl

theorem set_middle {other : SchemaCacheItem} :
    (before ++ item :: items).set before.length other = before ++ [other] ++ items := by
  rw [List.set_append_right _ _ (Nat.le_refl _), Nat.sub_self, List.set_cons_zero,
    List.append_assoc, List.singleton_append]

/-- The loop ends, and makes the array. -/
theorem putFrom_eq (hfuel : items.length + 2 ≤ fuel) :
    putFrom schemaUuid schemaName objnum fuel before.length (before ++ items) done =
      some (before ++ putItems schemaUuid schemaName objnum done items) := by
  induction items generalizing fuel before done with
  | nil =>
      obtain ⟨fuel, rfl⟩ := Nat.exists_eq_add_of_le' (Nat.le_of_succ_le hfuel)
      have hlast : ¬ before.length < (before ++ ([] : List SchemaCacheItem)).length := by
        rw [List.append_nil]
        exact Nat.lt_irrefl _
      rw [List.length_nil, Nat.zero_add, putFrom, putItems]
      by_cases hstops : done = true ∨ objnum = NOOBJECT
      · rw [if_pos hstops, if_neg]
        rintro (hlt | ⟨hdone, hsome, -⟩)
        · exact hlast hlt
        · obtain hdone' | hnone := hstops
          · rw [hdone] at hdone'
            cases hdone'
          · exact hsome hnone
      · -- The array is extended by an item, which is empty, and which gets the values.
        obtain ⟨hdone, hsome⟩ := not_or.mp hstops
        have hnull : nullItem.conflicts schemaUuid schemaName = true := rfl
        have hlength : before.length = (before ++ ([] : List SchemaCacheItem)).length := by
          rw [List.append_nil]
        rw [if_neg hstops, if_pos (Or.inr ⟨eq_false_of_ne_true hdone, hsome, hlength⟩)]
        dsimp only
        rw [if_neg hlast, List.append_nil, getD_middle, if_pos hnull, if_neg hstops, set_middle]
        obtain ⟨fuel, rfl⟩ := Nat.exists_eq_add_of_le' (show 1 ≤ fuel by
          rw [List.length_nil] at hfuel
          omega)
        rw [putFrom, if_neg, List.append_nil]
        rw [List.append_nil, List.length_append, List.length_singleton]
        rintro (hlt | ⟨hfalse, -⟩)
        · exact Nat.lt_irrefl _ hlt
        · cases hfalse
  | cons item items ih =>
      obtain ⟨fuel, rfl⟩ := Nat.exists_eq_add_of_le' (show 1 ≤ fuel by omega)
      have hin : before.length < (before ++ item :: items).length := by
        rw [List.length_append, List.length_cons]
        omega
      have hrest : items.length + 2 ≤ fuel := by
        rw [List.length_cons] at hfuel
        omega
      have hnext : ∀ (other : SchemaCacheItem) (done : Bool),
          putFrom schemaUuid schemaName objnum fuel (before.length + 1)
              (before ++ [other] ++ items) done =
            some (before ++ other :: putItems schemaUuid schemaName objnum done items) := by
        intro other done
        have hother := @ih fuel done (before ++ [other]) hrest
        rw [List.length_append, List.length_singleton] at hother
        rw [hother, List.append_assoc, List.singleton_append]
      rw [putFrom, if_pos (Or.inl hin), if_pos hin, putItems]
      dsimp only
      rw [getD_middle]
      split
      · rw [set_middle, set_middle, hnext, hnext]
        split <;> rfl
      · have hsame : before ++ item :: items = before ++ [item] ++ items := by
          rw [List.append_assoc, List.singleton_append]
        rw [hsame, hnext]

theorem putValuesToCache_eq :
    putValuesToCache schemaUuid schemaName objnum items =
      some (putItems schemaUuid schemaName objnum false items) :=
  @putFrom_eq schemaUuid schemaName objnum (items.length + 2) false [] items (Nat.le_refl _)

/-- What the array has after the insertion. -/
theorem mem_putItems {found : SchemaCacheItem}
    (hfound : found ∈ putItems schemaUuid schemaName objnum done items) :
    found ∈ items ∧ found.conflicts schemaUuid schemaName = false ∨ found.schemaName = [] ∨
      found = ⟨schemaName, schemaUuid, objnum⟩ ∧ done = false ∧ objnum ≠ NOOBJECT := by
  induction items generalizing done with
  | nil =>
      rw [putItems] at hfound
      split at hfound
      · cases hfound
      · next hgoes =>
          obtain ⟨hdone, hsome⟩ := not_or.mp hgoes
          exact Or.inr (Or.inr ⟨List.mem_singleton.mp hfound, eq_false_of_ne_true hdone, hsome⟩)
  | cons item items ih =>
      rw [putItems] at hfound
      split at hfound
      case isTrue hconflict =>
        split at hfound
        case isTrue hstops =>
          obtain rfl | hrest := List.mem_cons.mp hfound
          · exact Or.inr (Or.inl rfl)
          · exact (ih hrest).imp (fun h => ⟨List.mem_cons_of_mem _ h.1, h.2⟩) id
        case isFalse hgoes =>
          obtain ⟨hdone, hsome⟩ := not_or.mp hgoes
          obtain rfl | hrest := List.mem_cons.mp hfound
          · exact Or.inr (Or.inr ⟨rfl, eq_false_of_ne_true hdone, hsome⟩)
          · obtain hold | hempty | ⟨-, hfalse, -⟩ := ih hrest
            · exact Or.inl ⟨List.mem_cons_of_mem _ hold.1, hold.2⟩
            · exact Or.inr (Or.inl hempty)
            · cases hfalse
      case isFalse hkeeps =>
        obtain rfl | hrest := List.mem_cons.mp hfound
        · exact Or.inl ⟨List.mem_cons_self, eq_false_of_ne_true hkeeps⟩
        · exact (ih hrest).imp (fun h => ⟨List.mem_cons_of_mem _ h.1, h.2⟩) id

theorem apart_of_conflicts (hkeeps : item.conflicts schemaUuid schemaName = false) :
    item.schemaName ≠ [] ∧ schemaUuid ≠ item.schemaUuid ∧ schemaName ≠ item.schemaName := by
  simp only [SchemaCacheItem.conflicts, Bool.or_eq_false_iff, beq_eq_false_iff_ne] at hkeeps
  exact ⟨hkeeps.1.1, hkeeps.1.2, hkeeps.2⟩

theorem putItems_oneEach (hone : OneEach items) :
    OneEach (putItems schemaUuid schemaName objnum done items) := by
  induction items generalizing done with
  | nil =>
      rw [putItems]
      split
      · exact List.Pairwise.nil
      · exact List.pairwise_singleton _ _
  | cons item items ih =>
      obtain ⟨hitem, hrest⟩ := List.pairwise_cons.mp hone
      rw [putItems]
      split
      case isTrue =>
        split
        case isTrue =>
          refine List.pairwise_cons.mpr ⟨?_, ih hrest⟩
          intro other _ hempty
          exact absurd rfl hempty
        case isFalse =>
          refine List.pairwise_cons.mpr ⟨?_, ih hrest⟩
          intro other hother _ hsome
          obtain ⟨-, hkeeps⟩ | hempty | ⟨-, hfalse, -⟩ := mem_putItems hother
          · obtain ⟨-, huuid, hname⟩ := apart_of_conflicts hkeeps
            exact ⟨hname, huuid⟩
          · exact absurd hempty hsome
          · cases hfalse
      case isFalse hkeeps =>
        refine List.pairwise_cons.mpr ⟨?_, ih hrest⟩
        intro other hother hfirst hsome
        obtain ⟨hmem, -⟩ | hempty | ⟨rfl, -⟩ := mem_putItems hother
        · exact hitem other hmem hfirst hsome
        · exact absurd hempty hsome
        · obtain ⟨-, huuid, hname⟩ :=
            apart_of_conflicts (eq_false_of_ne_true hkeeps)
          exact ⟨hname.symm, huuid.symm⟩

end Putting

end Sql602.Schemas
