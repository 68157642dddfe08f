import Sql602.TransLog.Log

namespace Sql602.TransLog

open Probing
open scoped List

/-! What the operations of the log do to the items of allocated and freed units.
The items are seen through functions that say nothing about all other items. -/

def Quiet (f : LogItem → Option Unit) : Prop :=
  ∀ item, item.isAlloc = false → f item = none

def freedUnit : LogItem → Option Unit := LogItem.unit .freePage .freePiece

def allocatedUnit : LogItem → Option Unit := LogItem.unit .allocPage .allocPiece

theorem quiet_freedUnit : Quiet freedUnit := by
  intro item halloc
  simp only [LogItem.isAlloc, Bool.or_eq_false_iff, beq_eq_false_iff_ne] at halloc
  simp [freedUnit, LogItem.unit, halloc]

theorem quiet_allocatedUnit : Quiet allocatedUnit := by
  intro item halloc
  simp only [LogItem.isAlloc, Bool.or_eq_false_iff, beq_eq_false_iff_ne] at halloc
  simp [allocatedUnit, LogItem.unit, halloc]

namespace LogItem

theorem isAlloc_of_not_entry {item : LogItem} (hentry : item.isEntry = false) :
    item.isAlloc = false := by
  cases htag : item.tag <;> simp_all [isEntry, isEmpty, invalid, isAlloc]

@[simp] theorem isEmpty_invalidate (item : LogItem) : item.invalidate.isEmpty = false := rfl

@[simp] theorem isAlloc_invalidate (item : LogItem) : item.invalidate.isAlloc = false := rfl

@[simp] theorem isEmpty_empty : LogItem.empty.isEmpty = true := rfl

@[simp] theorem isEntry_empty : LogItem.empty.isEntry = false := rfl

theorem isEmpty_of_isEntry {item : LogItem} (hentry : item.isEntry = true) :
    item.isEmpty = false := logScheme.nonempty_of_entry item hentry

theorem isEmpty_of_not_invalid {item : LogItem} (hentry : item.isEntry = false)
    (hinvalid : item.invalid = false) : item.isEmpty = true := by
  simpa [isEntry, hinvalid] using hentry

end LogItem

namespace Log

/-- The table always has an empty cell, so that a search ends. -/
structure Sound (log : Log) : Prop where
  contains : log.contains = log.htable.countP fun item => !item.isEmpty
  limit : log.contains ≤ log.limitsize
  room : log.limitsize < log.tablesize

theorem sound_initial : initial.Sound where
  contains := by decide
  limit := by decide
  room := by decide

structure Turns (log next : Log) (removed added : List LogItem) : Prop where
  sound : next.Sound
  sapos : next.anySapos = log.anySapos
  items : ∀ f, Quiet f → removed.filterMap f ++ next.htable.filterMap f ~
    added.filterMap f ++ log.htable.filterMap f

variable {log next : Log} {removed added : List LogItem}

theorem Sound.turns (hsound : log.Sound) : log.Turns log [] [] :=
  ⟨hsound, rfl, fun _ _ => List.Perm.refl _⟩

theorem Turns.trans {mid : Log} (hfirst : log.Turns mid [] [])
    (hsecond : mid.Turns next removed added) : log.Turns next removed added where
  sound := hsecond.sound
  sapos := hsecond.sapos.trans hfirst.sapos
  items := fun f hquiet =>
    (hsecond.items f hquiet).trans ((hfirst.items f hquiet).append_left _)

/-- Items without a unit may be left out of the account. -/
theorem Turns.forget (hturns : log.Turns next removed added)
    (hremoved : ∀ item ∈ removed, item.isAlloc = false)
    (hadded : ∀ item ∈ added, item.isAlloc = false) : log.Turns next [] [] where
  sound := hturns.sound
  sapos := hturns.sapos
  items := by
    intro f hquiet
    have hitems := hturns.items f hquiet
    rw [List.filterMap_eq_nil_iff.mpr fun item hmem => hquiet item (hremoved item hmem),
      List.filterMap_eq_nil_iff.mpr fun item hmem => hquiet item (hadded item hmem)] at hitems
    simpa using hitems

theorem Sound.exists_empty (hsound : log.Sound) :
    ∃ item ∈ log.htable, item.isEmpty = true := by
  have hlength : (log.htable.filter fun item => !item.isEmpty).length < log.htable.length := by
    rw [← List.countP_eq_length_filter, ← hsound.contains]
    exact lt_of_le_of_lt hsound.limit hsound.room
  obtain ⟨item, hmem, hempty⟩ := List.length_filter_lt_length_iff_exists.mp hlength
  exact ⟨item, hmem, by simpa using hempty⟩

theorem Sound.write {ind : Nat} {old item : LogItem} (hsound : log.Sound)
    (hcell : log.htable[ind]? = some old) (hold : old.isEntry = false)
    (hroom : old.isEmpty = true → log.contains < log.limitsize)
    (hitem : item.isEmpty = false) : log.Turns (log.write ind item) [] [item] where
  sound := by
    have hcontains := hsound.contains
    have hlimit := hsound.limit
    cases hempty : old.isEmpty with
    | true =>
        have hcount : (log.htable.set ind item).countP (fun item => !item.isEmpty) =
            log.htable.countP (fun item => !item.isEmpty) + 1 :=
          Cells.countP_set_fill hcell (by simpa using hempty) (by simpa using hitem)
        have hless := hroom hempty
        refine ⟨?_, ?_, by simpa [Log.write, tablesize] using hsound.room⟩
        · simp [Log.write, hcell, hempty, hcount, hcontains]
        · simp only [Log.write, hcell, Option.any_some, hempty, if_true]
          omega
    | false =>
        have hcount : (log.htable.set ind item).countP (fun item => !item.isEmpty) =
            log.htable.countP (fun item => !item.isEmpty) :=
          Cells.countP_set_update hcell (by simpa using hempty) (by simpa using hitem)
        refine ⟨?_, ?_, by simpa [Log.write, tablesize] using hsound.room⟩
        · simp [Log.write, hcell, hempty, hcount, hcontains]
        · simpa [Log.write, hcell, hempty] using hlimit
  sapos := rfl
  items := by
    intro f hquiet
    have hset := Cells.filterMap_set_perm f item hcell
    rw [hquiet old (LogItem.isAlloc_of_not_entry hold)] at hset
    cases hf : f item <;> simpa [Log.write, hf] using hset

/-- A change of one item that leaves its cell in use. -/
theorem Sound.modifyItem {ind : Nat} {old : LogItem} (change : LogItem → LogItem)
    (hsound : log.Sound) (hcell : log.htable[ind]? = some old)
    (hold : old.isEmpty = false) (hnew : (change old).isEmpty = false) :
    log.Turns (log.modifyItem ind change) [old] [change old] where
  sound := by
    have hcount : (log.htable.set ind (change old)).countP (fun item => !item.isEmpty) =
        log.htable.countP (fun item => !item.isEmpty) :=
      Cells.countP_set_update hcell (by simpa using hold) (by simpa using hnew)
    refine ⟨?_, hsound.limit, by simpa [Log.modifyItem, tablesize] using hsound.room⟩
    simp [Log.modifyItem, List.modify_eq_set_getElem?, hcell, hcount, hsound.contains]
  sapos := rfl
  items := by
    intro f _
    have hset := Cells.filterMap_set_perm f (change old) hcell
    simp only [Log.modifyItem, List.modify_eq_set_getElem?, hcell]
    cases hf : f old <;> cases hfNew : f (change old) <;> simpa [hf, hfNew] using hset

/-! Growing. -/

private theorem moveItem_turns {htable : List LogItem} {item : LogItem}
    (hvalid : ∀ item ∈ htable, item.invalid = false)
    (hroom : htable.countP (fun item => !item.isEmpty) < htable.length)
    (hentry : item.isEntry = true) :
    ∃ ind old, htable[ind]? = some old ∧ old.isEmpty = true ∧
      moveItem htable item = htable.set ind item := by
  rw [List.countP_eq_length_filter] at hroom
  obtain ⟨empty, hmem, hempty⟩ := List.length_filter_lt_length_iff_exists.mp hroom
  have hdead : logScheme.isEntry empty = false := by
    cases hcase : logScheme.isEntry empty with
    | false => rfl
    | true => simp [LogItem.isEmpty_of_isEntry hcase] at hempty
  obtain ⟨ind, hslot⟩ := exists_slot (item.hashf htable.length) hmem hdead
  obtain ⟨old, hold, holdDead⟩ := slot_cases hslot
  refine ⟨ind, old, hold, ?_, by simp [moveItem, hentry, hslot]⟩
  exact LogItem.isEmpty_of_not_invalid holdDead (hvalid old (List.mem_of_getElem? hold))

private theorem moveItems (items htable : List LogItem)
    (hvalid : ∀ item ∈ htable, item.invalid = false)
    (hroom : htable.countP (fun item => !item.isEmpty) + items.countP LogItem.isEntry <
      htable.length) :
    (items.foldl moveItem htable).length = htable.length ∧
      (items.foldl moveItem htable).countP (fun item => !item.isEmpty) =
        htable.countP (fun item => !item.isEmpty) + items.countP LogItem.isEntry ∧
      ∀ f, Quiet f → (items.foldl moveItem htable).filterMap f ~
        items.filterMap f ++ htable.filterMap f := by
  induction items generalizing htable with
  | nil => exact ⟨rfl, rfl, fun _ _ => List.Perm.refl _⟩
  | cons item items ih =>
      rw [List.foldl_cons]
      cases hentry : item.isEntry with
      | false =>
          have hskip : moveItem htable item = htable := by simp [moveItem, hentry]
          rw [List.countP_cons_of_neg (by simp [hentry])] at hroom ⊢
          rw [hskip]
          obtain ⟨hlength, hcount, hitems⟩ := ih htable hvalid hroom
          refine ⟨hlength, hcount, fun f hquiet => ?_⟩
          rw [List.filterMap_cons_none (hquiet item (LogItem.isAlloc_of_not_entry hentry))]
          exact hitems f hquiet
      | true =>
          rw [List.countP_cons_of_pos hentry] at hroom ⊢
          obtain ⟨ind, old, hold, hempty, hmoved⟩ := moveItem_turns hvalid (by omega) hentry
          have hnonempty := LogItem.isEmpty_of_isEntry hentry
          have hnext : (htable.set ind item).countP (fun item => !item.isEmpty) =
              htable.countP (fun item => !item.isEmpty) + 1 :=
            Cells.countP_set_fill hold (by simpa using hempty) (by simpa using hnonempty)
          have hvalidNext : ∀ other ∈ htable.set ind item, other.invalid = false := by
            intro other hmem
            rcases List.mem_or_eq_of_mem_set hmem with hmem | rfl
            · exact hvalid other hmem
            · simpa [LogItem.isEntry, hnonempty] using hentry
          rw [hmoved]
          obtain ⟨hlength, hcount, hitems⟩ := ih _ hvalidNext (by
            rw [List.length_set]
            omega)
          refine ⟨by rw [hlength, List.length_set], by omega, fun f hquiet => ?_⟩
          have hset := Cells.filterMap_set_perm f item hold
          have hnone : f old = none := by
            refine hquiet old (LogItem.isAlloc_of_not_entry ?_)
            simp [LogItem.isEntry, hempty]
          rw [hnone, Option.toList_none, List.nil_append] at hset
          have hmiddle := (hitems f hquiet).trans (hset.append_left _)
          cases hf : f item with
          | none => simpa [hf] using hmiddle
          | some unit =>
              rw [hf] at hmiddle
              rw [List.filterMap_cons_some hf]
              exact hmiddle.trans List.perm_middle

theorem Sound.growTable (hsound : log.Sound) :
    log.Turns log.growTable [] [] ∧ log.growTable.contains < log.growTable.limitsize := by
  have hcountEmpty : (List.replicate (3 * log.tablesize) LogItem.empty).countP
      (fun item => !item.isEmpty) = 0 := by
    refine List.countP_eq_zero.mpr fun item hmem => ?_
    simp [List.eq_of_mem_replicate hmem]
  have hentries : log.htable.countP LogItem.isEntry ≤ log.contains := by
    rw [hsound.contains]
    refine List.countP_mono_left fun item _ hentry => ?_
    simpa using LogItem.isEmpty_of_isEntry hentry
  have hlimit := hsound.limit
  have hroom := hsound.room
  obtain ⟨hlength, hcount, hitems⟩ := moveItems log.htable
    (List.replicate (3 * log.tablesize) LogItem.empty)
    (fun item hmem => by rw [List.eq_of_mem_replicate hmem]; rfl)
    (by rw [hcountEmpty, List.length_replicate]; omega)
  rw [List.length_replicate] at hlength
  have hless : log.growTable.contains < log.growTable.limitsize := by
    simp only [Log.growTable]
    omega
  refine ⟨⟨⟨?_, hless.le, ?_⟩, rfl, fun f hquiet => ?_⟩, hless⟩
  · simp only [Log.growTable, hcount, hcountEmpty, Nat.zero_add]
  · simp only [Log.growTable, tablesize] at hlength hroom ⊢
    rw [hlength]
    omega
  · have hempty : (List.replicate (3 * log.tablesize) LogItem.empty).filterMap f = [] := by
      refine List.filterMap_eq_nil_iff.mpr fun item hmem => hquiet item ?_
      rw [List.eq_of_mem_replicate hmem]
      rfl
    have hperm := hitems f hquiet
    rw [hempty, List.append_nil] at hperm
    exact hperm

/-! Attempts and searches. -/

/-- An attempt that needs room is made in a table that has it. -/
theorem redo_turns {α : Type} (attempt : Log → Option (α × Log)) (failed : α)
    (good : α → List LogItem → List LogItem → Prop) (hsound : log.Sound)
    (hattempt : ∀ log result, Log.Sound log → attempt log = some result →
      ∃ removed added, log.Turns result.2 removed added ∧ good result.1 removed added)
    (hroom : ∀ log, Log.Sound log → log.contains < log.limitsize →
      ∃ result, attempt log = some result) :
    ∃ removed added, log.Turns (log.redo attempt failed).2 removed added ∧
      good (log.redo attempt failed).1 removed added := by
  simp only [redo]
  cases hfirst : attempt log with
  | some result => exact hattempt log result hsound hfirst
  | none =>
      obtain ⟨hgrown, hless⟩ := hsound.growTable
      obtain ⟨result, hsecond⟩ := hroom log.growTable hgrown.sound hless
      obtain ⟨removed, added, hturns, hgood⟩ :=
        hattempt log.growTable result hgrown.sound hsecond
      simp only [hsecond, Option.getD_some]
      exact ⟨removed, added, hgrown.trans hturns, hgood⟩

theorem find_cell {item : LogItem} {wanted : LogItem → Bool} {ind : Nat}
    (hfind : log.find item wanted = some ind) :
    ∃ old, log.htable[ind]? = some old ∧ wanted old = true := by
  have hany := List.find?_some hfind
  exact (Option.any_eq_true _ _).mp hany

/-- A slot is a cell that may be written to. -/
def Vacant (log : Log) (slot : Option Nat) : Prop :=
  ∃ ind old, slot = some ind ∧ log.htable[ind]? = some old ∧ old.isEntry = false

theorem Sound.firstSlot (hsound : log.Sound) (item : LogItem) :
    log.Vacant (log.firstSlot item) := by
  obtain ⟨empty, hmem, hempty⟩ := hsound.exists_empty
  obtain ⟨ind, hslot⟩ := exists_slot (log.home item) hmem
    (show logScheme.isEntry empty = false by simp [logScheme, LogItem.isEntry, hempty])
  obtain ⟨old, hold, hdead⟩ := slot_cases hslot
  exact ⟨ind, old, hslot, hold, hdead⟩

theorem Sound.lastSlot (hsound : log.Sound) (item : LogItem) :
    log.Vacant (log.lastSlot item) := by
  simp only [Log.lastSlot]
  split
  case h_1 inv hlast =>
    have hmem := List.mem_filter.mp (List.mem_of_getLast? hlast)
    obtain ⟨old, hold, hinvalid⟩ := (Option.any_eq_true _ _).mp hmem.2
    exact ⟨inv, old, rfl, hold, by simp [LogItem.isEntry, hinvalid]⟩
  case h_2 =>
    obtain ⟨empty, hmem, hempty⟩ := hsound.exists_empty
    obtain ⟨i, hi, rfl⟩ := List.getElem_of_mem hmem
    cases hslot : (order log.tablesize (log.home item)).find? fun ind =>
        (log.htable[ind]?).any LogItem.isEmpty with
    | none =>
        have hnone := List.find?_eq_none.mp hslot i (mem_order.mpr hi)
        simp [List.getElem?_eq_getElem hi, hempty] at hnone
    | some ind =>
        have hany := List.find?_some hslot
        obtain ⟨old, hold, holdEmpty⟩ := (Option.any_eq_true _ _).mp hany
        exact ⟨ind, old, rfl, hold, by simp [LogItem.isEntry, holdEmpty]⟩

theorem Sound.writeUnlessFull {slot : Option Nat} {item : LogItem} (hsound : log.Sound)
    (hvacant : log.Vacant slot) (hitem : item.isEmpty = false)
    (hwrite : log.writeUnlessFull slot item = some next) : log.Turns next [] [item] := by
  obtain ⟨ind, old, rfl, hold, hdead⟩ := hvacant
  simp only [Log.writeUnlessFull, Option.bind_some, hold, Option.any_some] at hwrite
  split at hwrite
  case isTrue => cases hwrite
  case isFalse hroom =>
    obtain rfl := Option.some.inj hwrite
    refine hsound.write hold hdead (fun hempty => ?_) hitem
    simpa [hempty] using hroom

theorem writeUnlessFull_room {slot : Option Nat} (item : LogItem)
    (hvacant : log.Vacant slot) (hroom : log.contains < log.limitsize) :
    ∃ next, log.writeUnlessFull slot item = some next := by
  obtain ⟨ind, old, rfl, hold, _⟩ := hvacant
  simp only [Log.writeUnlessFull, Option.bind_some, hold, Option.any_some]
  rw [if_neg (by simp; intro; omega)]
  exact ⟨_, rfl⟩

/-- An attempt that ends in a write. -/
theorem Sound.attempt {α : Type} {answer : α} {slot : Option Nat} {item : LogItem}
    {result : α × Log} (hsound : log.Sound) (hvacant : log.Vacant slot)
    (hitem : item.isEmpty = false)
    (hattempt : (log.writeUnlessFull slot item).map (fun log => (answer, log)) =
      some result) :
    result.1 = answer ∧ log.Turns result.2 [] [item] := by
  obtain ⟨next, hwrite, rfl⟩ := Option.map_eq_some_iff.mp hattempt
  exact ⟨rfl, hsound.writeUnlessFull hvacant hitem hwrite⟩

theorem attempt_room {α : Type} {slot : Option Nat} (answer : α) (item : LogItem)
    (hvacant : log.Vacant slot) (hroom : log.contains < log.limitsize) :
    ∃ result, (log.writeUnlessFull slot item).map (fun log => (answer, log)) =
      some result := by
  obtain ⟨next, hwrite⟩ := writeUnlessFull_room item hvacant hroom
  exact ⟨(answer, next), by rw [hwrite, Option.map_some]⟩

theorem Sound.invalidateItem {ind : Nat} {old : LogItem} (hsound : log.Sound)
    (hcell : log.htable[ind]? = some old) (hold : old.isEmpty = false) :
    log.Turns (log.modifyItem ind LogItem.invalidate) [old] [] := by
  have hturns := hsound.modifyItem LogItem.invalidate hcell hold
    old.isEmpty_invalidate
  refine ⟨hturns.sound, hturns.sapos, fun f hquiet => ?_⟩
  have hitems := hturns.items f hquiet
  rwa [List.filterMap_cons_none (hquiet _ old.isAlloc_invalidate)] at hitems

theorem isItem_cases {tag : Tag} {block : Nat} {item : LogItem}
    (hitem : isItem tag block item = true) : item.tag = tag ∧ item.block = block := by
  simpa [isItem] using hitem

theorem isEmpty_of_tag {tag : Tag} {item : LogItem} (htag : item.tag = tag)
    (hused : tag ≠ .empty) : item.isEmpty = false := by
  simpa [LogItem.isEmpty, htag] using hused

end Log

end Sql602.TransLog
