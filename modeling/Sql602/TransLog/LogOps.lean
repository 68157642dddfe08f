import Sql602.TransLog.LogItems

namespace Sql602.TransLog

open scoped List

/-! The operations of the log, one lemma each: which items of units they remove
and add. -/

namespace Log

variable {log next : Log}

theorem modifyItem_none {ind : Nat} (change : LogItem → LogItem)
    (hcell : log.htable[ind]? = none) : log.modifyItem ind change = log := by
  simp [Log.modifyItem, List.modify_eq_set_getElem?, hcell]

theorem modifyItem_same {ind : Nat} {item : LogItem} {change : LogItem → LogItem}
    (hcell : log.htable[ind]? = some item) (hsame : change item = item) :
    log.modifyItem ind change = log := by
  obtain ⟨hind, rfl⟩ := List.getElem?_eq_some_iff.mp hcell
  simp [Log.modifyItem, List.modify_eq_set_getElem?, hcell, hsame]

theorem Sound.invalidateWhere {wanted : LogItem → Bool} (inds : List Nat)
    (hsound : log.Sound)
    (hwanted : ∀ item, wanted item = true → item.isAlloc = false ∧ item.isEmpty = false) :
    log.Turns (log.invalidateWhere inds wanted) [] [] := by
  induction inds generalizing log with
  | nil => exact hsound.turns
  | cons ind inds ih =>
      have hstep : log.Turns (log.modifyItem ind fun item =>
          if wanted item then item.invalidate else item) [] [] := by
        cases hcell : log.htable[ind]? with
        | none =>
            rw [modifyItem_none _ hcell]
            exact hsound.turns
        | some old =>
            cases hold : wanted old with
            | false =>
                rw [modifyItem_same hcell (by simp [hold])]
                exact hsound.turns
            | true =>
                obtain ⟨halloc, hempty⟩ := hwanted old hold
                have hturns := hsound.modifyItem
                  (fun item => if wanted item then item.invalidate else item) hcell hempty
                  (by simp [hold])
                exact hturns.forget (by simpa using halloc) (by simp [hold])
      exact hstep.trans (ih hstep.sound)

theorem isItem_used {tag : Tag} {block : Nat} {item : LogItem} (hused : tag ≠ .empty)
    (hitem : isItem tag block item = true) : item.isEmpty = false :=
  isEmpty_of_tag (isItem_cases hitem).1 hused

theorem isAlloc_of_tag {tag : Tag} {item : LogItem} (htag : item.tag = tag)
    (hother : tag ∉ [Tag.allocPage, .freePage, .allocPiece, .freePiece]) :
    item.isAlloc = false := by
  simp only [List.mem_cons, List.not_mem_nil, or_false, not_or] at hother
  simpa [LogItem.isAlloc, htag, and_assoc] using hother

theorem Sound.dropPageChanges (hsound : log.Sound) (dadr : Nat) :
    log.Turns (log.dropPageChanges dadr) [] [] := by
  refine hsound.invalidateWhere _ fun item hitem => ?_
  obtain ⟨htag, _⟩ := isItem_cases hitem
  exact ⟨isAlloc_of_tag htag (by decide), isEmpty_of_tag htag (by decide)⟩

theorem Sound.tableDeleted (hsound : log.Sound) (tabnum : Nat) :
    log.Turns (log.tableDeleted tabnum) [] [] := by
  simp only [Log.tableDeleted]
  split
  case isFalse => exact hsound.turns
  case isTrue =>
    refine hsound.invalidateWhere _ fun item hitem => ?_
    simp only [isOfTable, Bool.and_eq_true, Bool.or_eq_true, beq_iff_eq] at hitem
    rcases hitem.2 with (htag | htag) | htag
    all_goals exact ⟨isAlloc_of_tag htag (by decide), isEmpty_of_tag htag (by decide)⟩

/-- An attempt that concerns no unit, whether it changes an item or writes one. -/
theorem redo_quiet {α : Type} (attempt : Log → Option (α × Log)) (failed : α)
    (hsound : log.Sound)
    (hattempt : ∀ log result, Log.Sound log → attempt log = some result →
      log.Turns result.2 [] [])
    (hroom : ∀ log, Log.Sound log → log.contains < log.limitsize →
      ∃ result, attempt log = some result) :
    log.Turns (log.redo attempt failed).2 [] [] := by
  obtain ⟨removed, added, hturns, rfl, rfl⟩ := redo_turns attempt failed
    (fun _ removed added => removed = [] ∧ added = []) hsound
    (fun log result hsound hresult => ⟨[], [], hattempt log result hsound hresult, rfl, rfl⟩)
    hroom
  exact hturns

theorem Sound.registerObject (hsound : log.Sound) (objnum : Nat) :
    log.Turns (log.registerObject objnum .lock) [] [] := by
  refine redo_quiet _ () hsound ?_ ?_
  · intro log result hsound hattempt
    split at hattempt
    · obtain rfl := Option.some.inj hattempt
      exact hsound.turns
    · obtain ⟨-, hturns⟩ := hsound.attempt (hsound.lastSlot _) rfl hattempt
      exact hturns.forget (by simp) (by simp [LogItem.isAlloc])
  · intro log hsound hroom
    split
    · exact ⟨_, rfl⟩
    · exact attempt_room () _ (hsound.lastSlot _) hroom

theorem Sound.invalidateOther {ind : Nat} {old : LogItem} {tag : Tag} (hsound : log.Sound)
    (hcell : log.htable[ind]? = some old) (htag : old.tag = tag)
    (hother : tag ∉ [Tag.empty, .allocPage, .freePage, .allocPiece, .freePiece]) :
    log.Turns (log.modifyItem ind LogItem.invalidate) [] [] := by
  obtain ⟨hused, hother⟩ := List.ne_and_not_mem_of_not_mem_cons hother
  have hturns := hsound.invalidateItem hcell (isEmpty_of_tag htag hused)
  exact hturns.forget (by simpa using isAlloc_of_tag htag hother) (by simp)

theorem Sound.unregisterObject (hsound : log.Sound) (objnum : Nat) :
    log.Turns (log.unregisterObject objnum .lock) [] [] := by
  simp only [Log.unregisterObject]
  split
  case h_1 ind hfind =>
    obtain ⟨old, hcell, hitem⟩ := find_cell hfind
    exact hsound.invalidateOther hcell (isItem_cases hitem).1 (by decide)
  case h_2 => exact hsound.turns

@[simp] theorem tag_mapItem (change : ChangeMap → ChangeMap) (item : LogItem) :
    (mapItem change item).tag = item.tag := by
  simp only [mapItem]
  split <;> rfl

theorem Sound.registerChange (hsound : log.Sound) (dadr : Nat)
    (change : ChangeMap → ChangeMap) (start : ChangeMap) :
    log.Turns (log.registerChange dadr change start) [] [] := by
  refine redo_quiet _ () hsound ?_ ?_
  · intro log result hsound hattempt
    split at hattempt
    case h_1 ind hfind =>
      obtain rfl := Option.some.inj hattempt
      obtain ⟨old, hcell, hitem⟩ := find_cell hfind
      obtain ⟨htag, -⟩ := isItem_cases hitem
      have hnew : (mapItem change old).tag = .change := (tag_mapItem change old).trans htag
      have hturns := hsound.modifyItem (mapItem change) hcell
        (isEmpty_of_tag htag (by decide)) (isEmpty_of_tag hnew (by decide))
      exact hturns.forget (by simpa using isAlloc_of_tag htag (by decide))
        (by simpa using isAlloc_of_tag hnew (by decide))
    case h_2 =>
      obtain ⟨-, hturns⟩ := hsound.attempt (hsound.lastSlot _) rfl hattempt
      exact hturns.forget (by simp) (by simp [LogItem.isAlloc])
  · intro log hsound hroom
    split
    · exact ⟨_, rfl⟩
    · exact attempt_room () _ (hsound.lastSlot _) hroom

theorem Sound.pieceChanged (hsound : log.Sound) (dadr offs32 len32 : Nat) :
    log.Turns (log.pieceChanged dadr offs32 len32) [] [] := by
  simp only [Log.pieceChanged]
  induction List.range len32 generalizing log with
  | nil => exact hsound.turns
  | cons i rest ih =>
      have hstep := hsound.registerChange dadr (ChangeMap.add k32 (offs32 + i))
        (ChangeMap.start k32 (offs32 + i))
      exact hstep.trans (ih hstep.sound)

theorem Sound.addRecord {tag : Tag} (hsound : log.Sound) (tabnum rec : Nat)
    (hother : tag ∉ [Tag.empty, .allocPage, .freePage, .allocPiece, .freePiece]) :
    log.Turns (log.addRecord tag tabnum rec) [] [] := by
  have hgrown : ∃ grown, grown = (if log.contains ≥ log.limitsize then log.growTable else log) ∧
      log.Turns grown [] [] ∧ grown.contains < grown.limitsize := by
    split
    case isTrue => exact ⟨_, rfl, hsound.growTable⟩
    case isFalse hroom => exact ⟨_, rfl, hsound.turns, by omega⟩
  obtain ⟨grown, hdef, hturns, hless⟩ := hgrown
  simp only [Log.addRecord, ← hdef]
  obtain ⟨ind, old, hslot, hcell, hold⟩ := hturns.sound.firstSlot ⟨tag, tabnum, .recnum rec⟩
  obtain ⟨hused, hother⟩ := List.ne_and_not_mem_of_not_mem_cons hother
  rw [hslot]
  have hwrite := hturns.sound.write hcell hold (fun _ => hless)
    (show LogItem.isEmpty ⟨tag, tabnum, .recnum rec⟩ = false from isEmpty_of_tag rfl hused)
  exact hturns.trans (hwrite.forget (by simp) (by simpa using isAlloc_of_tag rfl hother))

theorem isRecord_tag {tag : Tag} {tabnum rec : Nat} {item : LogItem}
    (hitem : isRecord tag tabnum rec item = true) : item.tag = tag := by
  simp only [isRecord, Bool.and_eq_true, beq_iff_eq] at hitem
  exact hitem.1.1

theorem Sound.recordInserted (hsound : log.Sound) (tabnum rec : Nat) :
    log.Turns (log.recordInserted tabnum rec) [] [] := by
  simp only [Log.recordInserted]
  split
  case h_1 ind hfind =>
    obtain ⟨old, hcell, hitem⟩ := find_cell hfind
    exact hsound.invalidateOther hcell (isRecord_tag hitem) (by decide)
  case h_2 => exact hsound.addRecord tabnum rec (by decide)

theorem Sound.dropRecordInsInfo (hsound : log.Sound) (tabnum rec : Nat) :
    log.Turns (log.dropRecordInsInfo tabnum rec) [] [] := by
  simp only [Log.dropRecordInsInfo]
  split
  case h_1 ind hfind =>
    obtain ⟨old, hcell, hitem⟩ := find_cell hfind
    exact hsound.invalidateOther hcell (isRecord_tag hitem) (by decide)
  case h_2 => exact hsound.turns

/-! The operations on units. -/

/-- The registration of an allocation, unless the table is full. -/
def allocationAttempt (log : Log) (dadr : Nat) : Option (PUnit.{1} × Log) :=
  match (if log.anySapos then none
    else log.find ⟨.freePage, dadr, .recnum 0⟩ (isItem .freePage dadr)) with
  | some ind => some ((), log.modifyItem ind LogItem.invalidate)
  | none =>
      (log.writeUnlessFull (log.firstSlot ⟨.allocPage, dadr, .recnum 0⟩)
        ⟨.allocPage, dadr, .recnum 0⟩).map fun log => ((), log)

def deallocationAttempt (log : Log) (dadr : Nat) : Option (Bool × Log) :=
  match (if log.anySapos then none
    else log.find ⟨.allocPage, dadr, .recnum 0⟩ (isItem .allocPage dadr)) with
  | some ind => some (true, log.modifyItem ind LogItem.invalidate)
  | none =>
      (log.writeUnlessFull (log.firstSlot ⟨.freePage, dadr, .recnum 0⟩)
        ⟨.freePage, dadr, .recnum 0⟩).map fun log => (false, log)

theorem Sound.pageAllocated (hsound : log.Sound) (dadr : Nat) :
    log.Turns (log.pageAllocated dadr) [] [⟨.allocPage, dadr, .recnum 0⟩] ∨
      ∃ old, isItem .freePage dadr old = true ∧
        log.Turns (log.pageAllocated dadr) [old] [] := by
  obtain ⟨removed, added, hturns, hgood⟩ := redo_turns
    (fun log => allocationAttempt log dadr)
    () (fun _ removed added => (removed = [] ∧ added = [⟨.allocPage, dadr, .recnum 0⟩]) ∨
      ∃ old, isItem .freePage dadr old = true ∧ removed = [old] ∧ added = []) hsound
    (by
      intro log result hsound hattempt
      unfold allocationAttempt at hattempt
      split at hattempt
      case h_1 ind hfind =>
        obtain rfl := Option.some.inj hattempt
        split at hfind
        case isTrue => cases hfind
        case isFalse =>
          obtain ⟨old, hcell, hitem⟩ := find_cell hfind
          exact ⟨[old], [], hsound.invalidateItem hcell (isItem_used (by decide) hitem),
            .inr ⟨old, hitem, rfl, rfl⟩⟩
      case h_2 =>
        obtain ⟨-, hturns⟩ := hsound.attempt (hsound.firstSlot _) rfl hattempt
        exact ⟨[], _, hturns, .inl ⟨rfl, rfl⟩⟩)
    (by
      intro log hsound hroom
      unfold allocationAttempt
      split
      · exact ⟨_, rfl⟩
      · exact attempt_room () _ (hsound.firstSlot _) hroom)
  rcases hgood with ⟨rfl, rfl⟩ | ⟨old, hitem, rfl, rfl⟩
  · exact .inl hturns
  · exact .inr ⟨old, hitem, hturns⟩

theorem Sound.pageDeallocated (hsound : log.Sound) (dadr : Nat) :
    ((log.pageDeallocated dadr).1 = false ∧
        log.Turns (log.pageDeallocated dadr).2 [] [⟨.freePage, dadr, .recnum 0⟩]) ∨
      ((log.pageDeallocated dadr).1 = true ∧ ∃ old, isItem .allocPage dadr old = true ∧
        log.Turns (log.pageDeallocated dadr).2 [old] []) := by
  obtain ⟨removed, added, hturns, hgood⟩ := redo_turns
    (fun log => deallocationAttempt log dadr)
    false (fun answer removed added =>
      (answer = false ∧ removed = [] ∧ added = [⟨.freePage, dadr, .recnum 0⟩]) ∨
      (answer = true ∧ ∃ old, isItem .allocPage dadr old = true ∧
        removed = [old] ∧ added = [])) hsound
    (by
      intro log result hsound hattempt
      unfold deallocationAttempt at hattempt
      split at hattempt
      case h_1 ind hfind =>
        obtain rfl := Option.some.inj hattempt
        split at hfind
        case isTrue => cases hfind
        case isFalse =>
          obtain ⟨old, hcell, hitem⟩ := find_cell hfind
          exact ⟨[old], [], hsound.invalidateItem hcell (isItem_used (by decide) hitem),
            .inr ⟨rfl, old, hitem, rfl, rfl⟩⟩
      case h_2 =>
        obtain ⟨hanswer, hturns⟩ := hsound.attempt (hsound.firstSlot _) rfl hattempt
        exact ⟨[], _, hturns, .inl ⟨hanswer, rfl, rfl⟩⟩)
    (by
      intro log hsound hroom
      unfold deallocationAttempt
      split
      · exact ⟨_, rfl⟩
      · exact attempt_room false _ (hsound.firstSlot _) hroom)
  rcases hgood with ⟨hanswer, rfl, rfl⟩ | ⟨hanswer, old, hitem, rfl, rfl⟩
  · exact .inl ⟨hanswer, hturns⟩
  · exact .inr ⟨hanswer, old, hitem, hturns⟩

theorem Sound.registerPiece (tag : Tag) (dadr len32 offs32 : Nat) (hsound : log.Sound)
    (hused : tag ≠ .empty) :
    log.Turns (log.registerPiece tag dadr len32 offs32) []
      [⟨tag, dadr, .act offs32 len32⟩] := by
  obtain ⟨removed, added, hturns, rfl, rfl⟩ := redo_turns
    (fun log => (log.writeUnlessFull (log.firstSlot ⟨tag, dadr, .act offs32 len32⟩)
      ⟨tag, dadr, .act offs32 len32⟩).map fun log => ((), log))
    () (fun _ removed added => removed = [] ∧ added = [⟨tag, dadr, .act offs32 len32⟩])
    hsound
    (by
      intro log result hsound hattempt
      obtain ⟨-, hturns⟩ := hsound.attempt (hsound.firstSlot _)
        (isEmpty_of_tag rfl hused) hattempt
      exact ⟨[], _, hturns, rfl, rfl⟩)
    (fun log hsound hroom => attempt_room () _ (hsound.firstSlot _) hroom)
  exact hturns

end Log

end Sql602.TransLog
