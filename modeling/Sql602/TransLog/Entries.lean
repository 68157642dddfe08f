import Sql602.TransLog.LogOps

namespace Sql602.TransLog

open Probing
open scoped List

/-! All the entries of the log. Every entry lies on the chain from its home cell, so
that a search finds it. -/

namespace LogItem

@[simp] theorem isEntry_invalidate (item : LogItem) : item.invalidate.isEntry = false := rfl

theorem isEntry_of_tag {item : LogItem} (hempty : item.tag ≠ .empty) (hinval : item.tag ≠ .inval) :
    item.isEntry = true := by
  cases htag : item.tag <;> simp_all [isEntry, isEmpty, invalid]

end LogItem

namespace Log

def entries (log : Log) : List LogItem := log.htable.filter LogItem.isEntry

structure Proper (log : Log) : Prop where
  sound : log.Sound
  placed : logScheme.Placed log.htable

/-- An operation removes some entries and adds others. -/
structure Yields (log next : Log) (removed added : List LogItem) : Prop where
  proper : next.Proper
  entries : removed ++ next.entries ~ added ++ log.entries

variable {log next : Log} {removed added : List LogItem}

theorem proper_initial : initial.Proper where
  sound := sound_initial
  placed := Scheme.Placed.of_no_entries fun cell hcell => by
    rw [List.eq_of_mem_replicate hcell]
    rfl

theorem Proper.yields (hproper : log.Proper) : log.Yields log [] [] :=
  ⟨hproper, List.Perm.refl _⟩

theorem Yields.trans {mid : Log} (hfirst : log.Yields mid [] [])
    (hsecond : mid.Yields next removed added) : log.Yields next removed added :=
  ⟨hsecond.proper, hsecond.entries.trans (hfirst.entries.append_left _)⟩

/-- What is read off the entries follows them. -/
theorem Yields.view {α : Type} (hyields : log.Yields next removed added)
    (f : LogItem → Option α) :
    removed.filterMap f ++ next.entries.filterMap f ~
      added.filterMap f ++ log.entries.filterMap f := by
  rw [← List.filterMap_append, ← List.filterMap_append]
  exact hyields.entries.filterMap f

theorem mem_entries {item : LogItem} :
    item ∈ log.entries ↔ item ∈ log.htable ∧ item.isEntry = true := List.mem_filter

theorem Proper.write {ind : Nat} {old item : LogItem} (hproper : log.Proper)
    (hcell : log.htable[ind]? = some old) (hold : old.isEntry = false)
    (hroom : old.isEmpty = true → log.contains < log.limitsize) (hitem : item.isEntry = true)
    (hreached : ind ∈ logScheme.chain (log.htable.set ind item) (log.home item)) :
    log.Yields (log.write ind item) [] [item] where
  proper := {
    sound := (hproper.sound.write hcell hold hroom (LogItem.isEmpty_of_isEntry hitem)).sound
    placed := hproper.placed.write hitem hreached }
  entries := Cells.filter_set_fill hcell hold hitem

/-- A change of an entry that keeps its home. -/
theorem Proper.modifyItem {ind : Nat} {old : LogItem} {change : LogItem → LogItem}
    (hproper : log.Proper) (hcell : log.htable[ind]? = some old) (hold : old.isEntry = true)
    (hnew : (change old).isEntry = true) (hkey : (change old).hashKey = old.hashKey) :
    log.Yields (log.modifyItem ind change) [old] [change old] where
  proper := {
    sound := (hproper.sound.modifyItem change hcell (LogItem.isEmpty_of_isEntry hold)
      (LogItem.isEmpty_of_isEntry hnew)).sound
    placed := by
      simp only [Log.modifyItem, List.modify_eq_set_getElem?, hcell]
      refine hproper.placed.update hcell hold ?_ (LogItem.isEmpty_of_isEntry hnew)
      change LogItem.hashf _ _ = LogItem.hashf _ _
      rw [LogItem.hashf, LogItem.hashf, hkey] }
  entries := by
    simp only [Log.entries, Log.modifyItem, List.modify_eq_set_getElem?, hcell]
    exact Cells.filter_set_update hcell hold hnew

theorem Proper.invalidate {ind : Nat} {old : LogItem} (hproper : log.Proper)
    (hcell : log.htable[ind]? = some old) (hold : old.isEntry = true) :
    log.Yields (log.modifyItem ind LogItem.invalidate) [old] [] where
  proper := {
    sound := (hproper.sound.modifyItem _ hcell (LogItem.isEmpty_of_isEntry hold)
      old.isEmpty_invalidate).sound
    placed := by
      simp only [Log.modifyItem, List.modify_eq_set_getElem?, hcell]
      exact hproper.placed.remove old.isEntry_invalidate old.isEmpty_invalidate }
  entries := by
    simp only [Log.entries, Log.modifyItem, List.modify_eq_set_getElem?, hcell]
    exact (Cells.filter_set_clear hcell hold old.isEntry_invalidate).symm

/-! Growing. -/

private theorem moveItem_entries {htable : List LogItem} {item : LogItem}
    (hplaced : logScheme.Placed htable) (hentry : item.isEntry = true)
    (hroom : ∃ cell ∈ htable, cell.isEntry = false) :
    (moveItem htable item).length = htable.length ∧ logScheme.Placed (moveItem htable item) ∧
      (moveItem htable item).filter LogItem.isEntry ~ item :: htable.filter LogItem.isEntry := by
  obtain ⟨dead, hmem, hdead⟩ := hroom
  obtain ⟨ind, hslot⟩ := exists_slot (item.hashf htable.length) hmem
    (show logScheme.isEntry dead = false from hdead)
  obtain ⟨old, hold, holdDead⟩ := slot_cases hslot
  have hmoved : moveItem htable item = htable.set ind item := by
    simp only [moveItem, hentry, ↓reduceIte, hslot]
  rw [hmoved]
  exact ⟨List.length_set, hplaced.insert hentry hslot, Cells.filter_set_fill hold holdDead hentry⟩

private theorem moveItems_entries (items htable : List LogItem)
    (hplaced : logScheme.Placed htable)
    (hroom : (htable.filter LogItem.isEntry).length + items.length < htable.length) :
    logScheme.Placed (items.foldl moveItem htable) ∧
      (items.foldl moveItem htable).filter LogItem.isEntry ~
        items.filter LogItem.isEntry ++ htable.filter LogItem.isEntry := by
  induction items generalizing htable with
  | nil => exact ⟨hplaced, List.Perm.refl _⟩
  | cons item items ih =>
      rw [List.length_cons] at hroom
      rw [List.foldl_cons]
      cases hentry : item.isEntry with
      | false =>
          have hskip : moveItem htable item = htable := by simp [moveItem, hentry]
          rw [hskip, List.filter_cons_of_neg (by simp [hentry])]
          exact ih htable hplaced (by omega)
      | true =>
          have hfree : ∃ cell ∈ htable, cell.isEntry = false := by
            obtain ⟨cell, hmem, hcell⟩ :=
              (@List.length_filter_lt_length_iff_exists _ LogItem.isEntry htable).mp (by omega)
            exact ⟨cell, hmem, by simpa using hcell⟩
          obtain ⟨hlength, hnext, hmoved⟩ := moveItem_entries hplaced hentry hfree
          have hcount := hmoved.length_eq
          rw [List.length_cons] at hcount
          obtain ⟨hall, hitems⟩ := ih _ hnext (by omega)
          refine ⟨hall, hitems.trans ?_⟩
          rw [List.filter_cons_of_pos hentry]
          exact (hmoved.append_left _).trans List.perm_middle

theorem Proper.growTable (hproper : log.Proper) :
    log.Yields log.growTable [] [] ∧ log.growTable.contains < log.growTable.limitsize := by
  obtain ⟨hturns, hless⟩ := hproper.sound.growTable
  have hnone : (List.replicate (3 * log.tablesize) LogItem.empty).filter LogItem.isEntry = [] := by
    refine List.filter_eq_nil_iff.mpr fun item hmem => ?_
    rw [List.eq_of_mem_replicate hmem]
    decide
  have hroom := hproper.sound.room
  obtain ⟨hplaced, hitems⟩ := moveItems_entries log.htable
    (List.replicate (3 * log.tablesize) LogItem.empty)
    (Scheme.Placed.of_no_entries fun item hmem => by
      rw [List.eq_of_mem_replicate hmem]
      rfl)
    (by rw [hnone, List.length_replicate, List.length_nil]; unfold tablesize at hroom ⊢; omega)
  rw [hnone, List.append_nil] at hitems
  exact ⟨⟨⟨hturns.sound, hplaced⟩, hitems⟩, hless⟩

/-! Searches. -/

/-- A search that fails has passed all the entries with the key of the searched item. -/
theorem Proper.find_none {item : LogItem} {wanted : LogItem → Bool} (hproper : log.Proper)
    (hfind : log.find item wanted = none) :
    ∀ entry ∈ log.entries, entry.hashKey = item.hashKey → wanted entry = false := by
  intro entry hentry hkey
  obtain ⟨hmem, hlive⟩ := mem_entries.mp hentry
  obtain ⟨i, hi, rfl⟩ := List.getElem_of_mem hmem
  have hcell := List.getElem?_eq_getElem hi
  have hchain : i ∈ log.chain item := by
    have hplaced := hproper.placed i _ hcell hlive
    have hhome : log.home item = logScheme.home log.htable.length log.htable[i] := by
      change LogItem.hashf _ _ = LogItem.hashf _ _
      rw [LogItem.hashf, LogItem.hashf, hkey]
      rfl
    rwa [Log.chain, hhome]
  have hnone := List.find?_eq_none.mp hfind i hchain
  rw [hcell, Option.any_some] at hnone
  exact Bool.eq_false_iff.mpr hnone

theorem find_some {item : LogItem} {wanted : LogItem → Bool} {ind : Nat}
    (hentry : ∀ entry, wanted entry = true → entry.isEntry = true)
    (hfind : log.find item wanted = some ind) :
    ∃ old ∈ log.entries, log.htable[ind]? = some old ∧ wanted old = true := by
  obtain ⟨old, hcell, hwanted⟩ := find_cell hfind
  exact ⟨old, mem_entries.mpr ⟨List.mem_of_getElem? hcell, hentry old hwanted⟩, hcell, hwanted⟩

/-- A cell that may be written to, and is then reached from the home of the item. -/
structure Reachable (log : Log) (slot : Option Nat) (item : LogItem) : Prop where
  vacant : log.Vacant slot
  reached : ∀ ind, slot = some ind →
    ind ∈ logScheme.chain (log.htable.set ind item) (log.home item)

theorem Proper.firstSlot {item : LogItem} (hproper : log.Proper) (hitem : item.isEntry = true) :
    log.Reachable (log.firstSlot item) item where
  vacant := hproper.sound.firstSlot item
  reached := fun _ hslot => mem_chain_slot hslot hitem

theorem Proper.lastSlot {item : LogItem} (hproper : log.Proper) (hitem : item.isEntry = true) :
    log.Reachable (log.lastSlot item) item where
  vacant := hproper.sound.lastSlot item
  reached := by
    intro ind hslot
    have hnonempty := LogItem.isEmpty_of_isEntry hitem
    simp only [Log.lastSlot] at hslot
    split at hslot
    · rename_i inv hlast
      obtain rfl := Option.some.inj hslot
      have hmem := List.mem_filter.mp (List.mem_of_getLast? hlast)
      exact mem_chain_set hnonempty hmem.1
    · exact mem_chain_end hnonempty hslot

theorem Proper.writeUnlessFull {slot : Option Nat} {item : LogItem} (hproper : log.Proper)
    (hslot : log.Reachable slot item) (hitem : item.isEntry = true)
    (hwrite : log.writeUnlessFull slot item = some next) : log.Yields next [] [item] := by
  obtain ⟨ind, old, rfl, hold, hdead⟩ := hslot.vacant
  simp only [Log.writeUnlessFull, Option.bind_some, hold, Option.any_some] at hwrite
  split at hwrite
  · cases hwrite
  · rename_i hroom
    obtain rfl := Option.some.inj hwrite
    refine hproper.write hold hdead (fun hempty => ?_) hitem (hslot.reached ind rfl)
    simpa [hempty] using hroom

/-- An attempt that ends in a write. -/
theorem Proper.attempt {α : Type} {answer : α} {slot : Option Nat} {item : LogItem}
    {result : α × Log} (hproper : log.Proper) (hslot : log.Reachable slot item)
    (hitem : item.isEntry = true)
    (hattempt : (log.writeUnlessFull slot item).map (fun log => (answer, log)) = some result) :
    log.Yields result.2 [] [item] := by
  obtain ⟨next, hwrite, rfl⟩ := Option.map_eq_some_iff.mp hattempt
  exact hproper.writeUnlessFull hslot hitem hwrite

/-- An attempt that needs room is made in a table that has it. -/
theorem Proper.redo {α : Type} (attempt : Log → Option (α × Log)) (failed : α)
    (good : List LogItem → List LogItem → List LogItem → Prop) (hproper : log.Proper)
    (hgood : ∀ before after removed added, before ~ after → good before removed added →
      good after removed added)
    (hattempt : ∀ log result, Log.Proper log → attempt log = some result →
      ∃ removed added, log.Yields result.2 removed added ∧ good log.entries removed added)
    (hroom : ∀ log, Log.Proper log → log.contains < log.limitsize →
      ∃ result, attempt log = some result) :
    ∃ removed added, log.Yields (log.redo attempt failed).2 removed added ∧
      good log.entries removed added := by
  simp only [Log.redo]
  cases hfirst : attempt log with
  | some result => exact hattempt log result hproper hfirst
  | none =>
      obtain ⟨hgrown, hless⟩ := hproper.growTable
      obtain ⟨result, hsecond⟩ := hroom log.growTable hgrown.proper hless
      obtain ⟨removed, added, hyields, hgrownGood⟩ :=
        hattempt log.growTable result hgrown.proper hsecond
      simp only [hsecond, Option.getD_some]
      exact ⟨removed, added, hgrown.trans hyields,
        hgood _ _ removed added hgrown.entries hgrownGood⟩

end Log

end Sql602.TransLog
