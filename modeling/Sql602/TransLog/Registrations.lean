import Sql602.TransLog.Entries

namespace Sql602.TransLog

open scoped List

/-! Which entries the registrations remove and add. -/

inductive LogOp where
  | registerObject (objnum : Nat)
  | unregisterObject (objnum : Nat)
  | recChanged (dadr recsize recpos : Nat)
  | pageChanged (dadr : Nat)
  | indexPageChanged (dadr : Nat)
  | pagePrivate (dadr : Nat)
  | pieceChanged (dadr offs32 len32 : Nat)
  | dropPageChanges (dadr : Nat)
  | pageAllocated (dadr : Nat)
  | pageDeallocated (dadr : Nat)
  | pieceAllocated (dadr len32 offs32 : Nat)
  | pieceDeallocated (dadr len32 offs32 : Nat)
  | setSapos (any : Bool)
  | recordInserted (tabnum rec : Nat)
  | recordReleased (tabnum rec : Nat)

def logStep (log : Log) : LogOp → Log
  | .registerObject objnum => log.registerObject objnum .lock
  | .unregisterObject objnum => log.unregisterObject objnum .lock
  | .recChanged dadr recsize recpos => log.recChanged dadr recsize recpos
  | .pageChanged dadr => log.pageChanged2 dadr .full
  | .indexPageChanged dadr => log.pageChanged2 dadr .index
  | .pagePrivate dadr => log.pagePrivate dadr
  | .pieceChanged dadr offs32 len32 => log.pieceChanged dadr offs32 len32
  | .dropPageChanges dadr => log.dropPageChanges dadr
  | .pageAllocated dadr => log.pageAllocated dadr
  | .pageDeallocated dadr => (log.pageDeallocated dadr).2
  | .pieceAllocated dadr len32 offs32 => log.pieceAllocated dadr len32 offs32
  | .pieceDeallocated dadr len32 offs32 => (log.pieceDeallocated dadr len32 offs32).2
  | .setSapos any => { log with anySapos := any }
  | .recordInserted tabnum rec => log.recordInserted tabnum rec
  | .recordReleased tabnum rec => log.recordReleased tabnum rec

/-- The tags of the entries that an operation is about. -/
def LogOp.tags : LogOp → List Tag
  | registerObject _ => [.lock]
  | unregisterObject _ => [.lock]
  | recChanged _ _ _ => [.change]
  | pageChanged _ => [.change]
  | indexPageChanged _ => [.change]
  | pagePrivate _ => [.change]
  | pieceChanged _ _ _ => [.change]
  | dropPageChanges _ => [.change]
  | pageAllocated _ => [.allocPage, .freePage]
  | pageDeallocated _ => [.allocPage, .freePage]
  | pieceAllocated _ _ _ => [.allocPiece]
  | pieceDeallocated _ _ _ => [.freePiece]
  | setSapos _ => []
  | recordInserted _ _ => [.insrec, .delrec]
  | recordReleased _ _ => [.delrec]

namespace Log

variable {log next : Log} {removed added : List LogItem}

def Touches (log next : Log) (tags : List Tag) : Prop :=
  ∃ removed added, log.Yields next removed added ∧
    (∀ item ∈ removed, item.tag ∈ tags) ∧ ∀ item ∈ added, item.tag ∈ tags

theorem Yields.append {mid : Log} {more others : List LogItem}
    (hfirst : log.Yields mid removed added) (hsecond : mid.Yields next more others) :
    log.Yields next (removed ++ more) (added ++ others) where
  proper := hsecond.proper
  entries := by
    calc removed ++ more ++ next.entries
        ~ removed ++ (others ++ mid.entries) := by
          rw [List.append_assoc]
          exact hsecond.entries.append_left _
      _ ~ others ++ (removed ++ mid.entries) := List.perm_append_comm_assoc _ _ _
      _ ~ others ++ (added ++ log.entries) := hfirst.entries.append_left _
      _ ~ added ++ others ++ log.entries := by
          rw [List.append_assoc]
          exact List.perm_append_comm_assoc _ _ _

theorem Yields.touches {tags : List Tag} (hyields : log.Yields next removed added)
    (hremoved : ∀ item ∈ removed, item.tag ∈ tags) (hadded : ∀ item ∈ added, item.tag ∈ tags) :
    log.Touches next tags := ⟨removed, added, hyields, hremoved, hadded⟩

theorem Touches.trans {tags : List Tag} {mid : Log} (hfirst : log.Touches mid tags)
    (hsecond : mid.Touches next tags) : log.Touches next tags := by
  obtain ⟨removed, added, hyields, hremoved, hadded⟩ := hfirst
  obtain ⟨more, others, hmore, hmoreRemoved, hmoreAdded⟩ := hsecond
  refine ⟨removed ++ more, added ++ others, hyields.append hmore, ?_, ?_⟩
  · exact List.forall_mem_append.mpr ⟨hremoved, hmoreRemoved⟩
  · exact List.forall_mem_append.mpr ⟨hadded, hmoreAdded⟩

/-- Entries with other tags are left alone. -/
theorem Touches.view {α : Type} {tags : List Tag} {f : LogItem → Option α}
    (htouches : log.Touches next tags) (hf : ∀ item, item.tag ∈ tags → f item = none) :
    next.entries.filterMap f ~ log.entries.filterMap f := by
  obtain ⟨removed, added, hyields, hremoved, hadded⟩ := htouches
  have hview := hyields.view f
  rwa [List.filterMap_eq_nil_iff.mpr fun item hmem => hf item (hremoved item hmem),
    List.filterMap_eq_nil_iff.mpr fun item hmem => hf item (hadded item hmem),
    List.nil_append, List.nil_append] at hview

theorem isItem_entry {tag : Tag} {block : Nat} {item : LogItem}
    (hused : tag ≠ .empty ∧ tag ≠ .inval) (hitem : isItem tag block item = true) :
    item.isEntry = true := by
  obtain ⟨rfl, -⟩ := isItem_cases hitem
  exact LogItem.isEntry_of_tag hused.1 hused.2

theorem isRecord_cases {tag : Tag} {tabnum rec : Nat} {item : LogItem}
    (hitem : isRecord tag tabnum rec item = true) : item = ⟨tag, tabnum, .recnum rec⟩ := by
  obtain ⟨itemTag, block, info⟩ := item
  simp only [isRecord, Bool.and_eq_true, beq_iff_eq] at hitem
  obtain ⟨⟨rfl, rfl⟩, rfl⟩ := hitem
  rfl

/-! The records. -/

theorem Proper.addRecord {tag : Tag} (hproper : log.Proper) (tabnum rec : Nat)
    (hused : tag ≠ .empty ∧ tag ≠ .inval) :
    log.Yields (log.addRecord tag tabnum rec) [] [⟨tag, tabnum, .recnum rec⟩] := by
  have hitem : LogItem.isEntry ⟨tag, tabnum, .recnum rec⟩ = true :=
    LogItem.isEntry_of_tag hused.1 hused.2
  have hgrown : ∃ grown, grown = (if log.contains ≥ log.limitsize then log.growTable else log) ∧
      log.Yields grown [] [] ∧ grown.contains < grown.limitsize := by
    split
    · exact ⟨_, rfl, hproper.growTable⟩
    · exact ⟨_, rfl, hproper.yields, by omega⟩
  obtain ⟨grown, hdef, hyields, hless⟩ := hgrown
  simp only [Log.addRecord, ← hdef]
  obtain ⟨⟨ind, old, hslot, hcell, hold⟩, hreached⟩ := hyields.proper.firstSlot hitem
  rw [hslot]
  exact hyields.trans (hyields.proper.write hcell hold (fun _ => hless) hitem (hreached ind hslot))

theorem Proper.recordReleased (hproper : log.Proper) (tabnum rec : Nat) :
    log.Yields (log.recordReleased tabnum rec) [] [⟨.delrec, tabnum, .recnum rec⟩] :=
  hproper.addRecord tabnum rec (by decide)

/-- The insertion of a record that was released in the transaction cancels its release. -/
theorem Proper.recordInserted (hproper : log.Proper) (tabnum rec : Nat) :
    (⟨.delrec, tabnum, .recnum rec⟩ ∈ log.entries ∧
        log.Yields (log.recordInserted tabnum rec) [⟨.delrec, tabnum, .recnum rec⟩] []) ∨
      (⟨.delrec, tabnum, .recnum rec⟩ ∉ log.entries ∧
        log.Yields (log.recordInserted tabnum rec) [] [⟨.insrec, tabnum, .recnum rec⟩]) := by
  simp only [Log.recordInserted]
  split
  · rename_i ind hfind
    obtain ⟨old, hmem, hcell, hold⟩ := find_some
      (fun entry hentry => by rw [isRecord_cases hentry]; rfl) hfind
    rw [isRecord_cases hold] at hmem hcell
    exact .inl ⟨hmem, hproper.invalidate hcell rfl⟩
  · rename_i hfind
    refine .inr ⟨fun hmem => ?_, hproper.addRecord tabnum rec (by decide)⟩
    have hnone := hproper.find_none hfind _ hmem rfl
    simp [isRecord] at hnone

/-! The objects and the units. -/

/-- The registration of a lock, unless the table is full. -/
def lockAttempt (log : Log) (objnum : Nat) : Option (PUnit.{1} × Log) :=
  match log.find ⟨.lock, objnum, .recnum 0⟩ (isItem .lock objnum) with
  | some _ => some ((), log)
  | none => (log.writeUnlessFull (log.lastSlot ⟨.lock, objnum, .recnum 0⟩)
      ⟨.lock, objnum, .recnum 0⟩).map fun log => ((), log)

theorem Proper.registerObject (hproper : log.Proper) (objnum : Nat) :
    log.Touches (log.registerObject objnum .lock) [.lock] := by
  obtain ⟨removed, added, hyields, hremoved, hadded⟩ := hproper.redo
    (fun log => lockAttempt log objnum) ()
    (fun _ removed added => (∀ item ∈ removed, item.tag ∈ [Tag.lock]) ∧
      ∀ item ∈ added, item.tag ∈ [Tag.lock])
    (fun _ _ _ _ _ hgood => hgood)
    (by
      intro log result hproper hattempt
      unfold lockAttempt at hattempt
      split at hattempt
      · obtain rfl := Option.some.inj hattempt
        exact ⟨[], [], hproper.yields, by simp, by simp⟩
      · exact ⟨[], _, hproper.attempt (hproper.lastSlot rfl) rfl hattempt, by simp, by simp⟩)
    (by
      intro log hproper hroom
      unfold lockAttempt
      split
      · exact ⟨_, rfl⟩
      · exact attempt_room () _ (hproper.sound.lastSlot _) hroom)
  exact ⟨removed, added, hyields, hremoved, hadded⟩

theorem Proper.unregisterObject (hproper : log.Proper) (objnum : Nat) :
    log.Touches (log.unregisterObject objnum .lock) [.lock] := by
  simp only [Log.unregisterObject]
  split
  · rename_i ind hfind
    obtain ⟨old, -, hcell, hold⟩ := find_some (fun entry => isItem_entry (by decide)) hfind
    have hyields := hproper.invalidate hcell (isItem_entry (by decide) hold)
    refine hyields.touches ?_ (by simp)
    simp [(isItem_cases hold).1]
  · exact hproper.yields.touches (by simp) (by simp)

/-- The registration of a unit of one tag first looks for an item of the other tag. -/
theorem Proper.registerUnit {α : Type} {dadr : Nat} {found written : α} {other tag : Tag}
    (searched : Log → Bool) (hproper : log.Proper)
    (hother : other ≠ .empty ∧ other ≠ .inval) (htag : tag ≠ .empty ∧ tag ≠ .inval)
    (failed : α) :
    log.Touches (log.redo (fun log =>
      match (if searched log then none
        else log.find ⟨other, dadr, .recnum 0⟩ (isItem other dadr)) with
      | some ind => some (found, log.modifyItem ind LogItem.invalidate)
      | none => (log.writeUnlessFull (log.firstSlot ⟨tag, dadr, .recnum 0⟩)
          ⟨tag, dadr, .recnum 0⟩).map fun log => (written, log)) failed).2 [tag, other] := by
  have hitem : LogItem.isEntry ⟨tag, dadr, .recnum 0⟩ = true :=
    LogItem.isEntry_of_tag htag.1 htag.2
  obtain ⟨removed, added, hyields, hremoved, hadded⟩ := hproper.redo
    (fun log =>
      match (if searched log then none
        else log.find ⟨other, dadr, .recnum 0⟩ (isItem other dadr)) with
      | some ind => some (found, log.modifyItem ind LogItem.invalidate)
      | none => (log.writeUnlessFull (log.firstSlot ⟨tag, dadr, .recnum 0⟩)
          ⟨tag, dadr, .recnum 0⟩).map fun log => (written, log)) failed
    (fun _ removed added => (∀ item ∈ removed, item.tag ∈ [tag, other]) ∧
      ∀ item ∈ added, item.tag ∈ [tag, other])
    (fun _ _ _ _ _ hgood => hgood)
    (by
      intro log result hproper hattempt
      split at hattempt
      · rename_i ind hfind
        obtain rfl := Option.some.inj hattempt
        split at hfind
        · cases hfind
        · obtain ⟨old, -, hcell, hold⟩ := find_some (fun entry => isItem_entry hother) hfind
          refine ⟨[old], [], hproper.invalidate hcell (isItem_entry hother hold), ?_, by simp⟩
          simp [(isItem_cases hold).1]
      · exact ⟨[], _, hproper.attempt (hproper.firstSlot hitem) hitem hattempt, by simp, by simp⟩)
    (by
      intro log hproper hroom
      split
      · exact ⟨_, rfl⟩
      · exact attempt_room written _ (hproper.sound.firstSlot _) hroom)
  exact ⟨removed, added, hyields, hremoved, hadded⟩

theorem Proper.pageAllocated (hproper : log.Proper) (dadr : Nat) :
    log.Touches (log.pageAllocated dadr) [.allocPage, .freePage] :=
  hproper.registerUnit Log.anySapos (by decide) (by decide) ()

theorem Proper.pageDeallocated (hproper : log.Proper) (dadr : Nat) :
    log.Touches (log.pageDeallocated dadr).2 [.freePage, .allocPage] :=
  hproper.registerUnit Log.anySapos (by decide) (by decide) false

theorem Proper.registerPiece {tag : Tag} (hproper : log.Proper) (dadr len32 offs32 : Nat)
    (htag : tag ≠ .empty ∧ tag ≠ .inval) :
    log.Touches (log.registerPiece tag dadr len32 offs32) [tag] := by
  have hitem : LogItem.isEntry ⟨tag, dadr, .act offs32 len32⟩ = true :=
    LogItem.isEntry_of_tag htag.1 htag.2
  obtain ⟨removed, added, hyields, hremoved, hadded⟩ := hproper.redo
    (fun log => (log.writeUnlessFull (log.firstSlot ⟨tag, dadr, .act offs32 len32⟩)
      ⟨tag, dadr, .act offs32 len32⟩).map fun log => ((), log)) ()
    (fun _ removed added => (∀ item ∈ removed, item.tag ∈ [tag]) ∧
      ∀ item ∈ added, item.tag ∈ [tag])
    (fun _ _ _ _ _ hgood => hgood)
    (fun log result hproper hattempt =>
      ⟨[], _, hproper.attempt (hproper.firstSlot hitem) hitem hattempt, by simp, by simp⟩)
    (fun log hproper hroom => attempt_room () _ (hproper.sound.firstSlot _) hroom)
  exact ⟨removed, added, hyields, hremoved, hadded⟩

/-! The changes of pages. -/

theorem hashKey_change {item : LogItem} (htag : item.tag = .change) :
    item.hashKey = Tag.change.value ^^^ item.block := by
  unfold LogItem.hashKey
  rw [htag]

@[simp] theorem block_mapItem (change : ChangeMap → ChangeMap) (item : LogItem) :
    (mapItem change item).block = item.block := by
  simp only [mapItem]
  split <;> rfl

/-- A registration changes the item of the page or adds one. -/
theorem Proper.registerChange (hproper : log.Proper) (dadr : Nat)
    (change : ChangeMap → ChangeMap) (start : ChangeMap) :
    (∃ old ∈ log.entries, isItem .change dadr old = true ∧
        log.Yields (log.registerChange dadr change start) [old] [mapItem change old]) ∨
      ((∀ item ∈ log.entries, isItem .change dadr item = false) ∧
        log.Yields (log.registerChange dadr change start) []
          [⟨.change, dadr, .chngmap start⟩]) := by
  obtain ⟨removed, added, hyields, hgood⟩ := hproper.redo
    (fun log =>
      match log.find ⟨.change, dadr, .chngmap start⟩ (isItem .change dadr) with
      | some ind => some ((), log.modifyItem ind (mapItem change))
      | none => (log.writeUnlessFull (log.lastSlot ⟨.change, dadr, .chngmap start⟩)
          ⟨.change, dadr, .chngmap start⟩).map fun log => ((), log)) ()
    (fun entries removed added =>
      (∃ old ∈ entries, isItem .change dadr old = true ∧ removed = [old] ∧
        added = [mapItem change old]) ∨
      ((∀ item ∈ entries, isItem .change dadr item = false) ∧ removed = [] ∧
        added = [⟨.change, dadr, .chngmap start⟩]))
    (by
      rintro before after removed added hperm (⟨old, hmem, hrest⟩ | ⟨hnone, hrest⟩)
      · exact .inl ⟨old, hperm.subset hmem, hrest⟩
      · exact .inr ⟨fun item hmem => hnone item (hperm.symm.subset hmem), hrest⟩)
    (by
      intro log result hproper hattempt
      split at hattempt
      · rename_i ind hfind
        obtain rfl := Option.some.inj hattempt
        obtain ⟨old, hmem, hcell, hold⟩ := find_some (fun entry => isItem_entry (by decide)) hfind
        have htag := (isItem_cases hold).1
        have hnew : (mapItem change old).tag = .change := (tag_mapItem change old).trans htag
        have hyields := hproper.modifyItem hcell (isItem_entry (by decide) hold)
          (LogItem.isEntry_of_tag (by rw [hnew]; decide) (by rw [hnew]; decide))
          (by rw [hashKey_change hnew, hashKey_change htag, block_mapItem])
        exact ⟨_, _, hyields, .inl ⟨old, hmem, hold, rfl, rfl⟩⟩
      · rename_i hfind
        refine ⟨_, _, hproper.attempt (hproper.lastSlot rfl) rfl hattempt, .inr ⟨?_, rfl, rfl⟩⟩
        intro item hmem
        by_contra hitem
        rw [Bool.not_eq_false] at hitem
        obtain ⟨htag, hblock⟩ := isItem_cases hitem
        have hkey : item.hashKey = LogItem.hashKey ⟨.change, dadr, .chngmap start⟩ := by
          rw [hashKey_change htag, hblock]
          rfl
        rw [hproper.find_none hfind item hmem hkey] at hitem
        cases hitem)
    (by
      intro log hproper hroom
      split
      · exact ⟨_, rfl⟩
      · exact attempt_room () _ (hproper.sound.lastSlot _) hroom)
  rcases hgood with ⟨old, hmem, hold, rfl, rfl⟩ | ⟨hnone, rfl, rfl⟩
  · exact .inl ⟨old, hmem, hold, hyields⟩
  · exact .inr ⟨hnone, hyields⟩

theorem Proper.registerChange_touches (hproper : log.Proper) (dadr : Nat)
    (change : ChangeMap → ChangeMap) (start : ChangeMap) :
    log.Touches (log.registerChange dadr change start) [.change] := by
  rcases hproper.registerChange dadr change start with ⟨old, -, hold, hyields⟩ | ⟨-, hyields⟩
  · have htag := (isItem_cases hold).1
    exact hyields.touches (by simp [htag]) (by simp [htag])
  · exact hyields.touches (by simp) (by simp)

theorem Proper.pieceChanged_touches (hproper : log.Proper) (dadr offs32 len32 : Nat) :
    log.Touches (log.pieceChanged dadr offs32 len32) [.change] := by
  simp only [Log.pieceChanged]
  induction List.range len32 generalizing log with
  | nil => exact hproper.yields.touches (by simp) (by simp)
  | cons i rest ih =>
      have hstep := hproper.registerChange_touches dadr (ChangeMap.add k32 (offs32 + i))
        (ChangeMap.start k32 (offs32 + i))
      have hnext : (log.recChanged dadr k32 (offs32 + i)).Proper := by
        obtain ⟨_, _, hyields, -⟩ := hstep
        exact hyields.proper
      exact hstep.trans (ih hnext)

/-! The removal of the items of a page. -/

theorem chain_congr {item : LogItem} (hlength : next.htable.length = log.htable.length)
    (hempty : ∀ i : Nat, (next.htable[i]?).any (fun cell => !cell.isEmpty) =
      (log.htable[i]?).any (fun cell => !cell.isEmpty)) : next.chain item = log.chain item := by
  have hpasses : logScheme.passes next.htable = logScheme.passes log.htable := funext hempty
  simp only [Log.chain, Log.home, Log.tablesize, Probing.Scheme.chain, hlength, hpasses]

/-- A cell that is wanted is invalidated, all others stay. -/
theorem Proper.invalidateAt {wanted : LogItem → Bool} (ind : Nat) (hproper : log.Proper)
    (hwanted : ∀ item, wanted item = true → item.isEntry = true) :
    ∃ removed, log.Yields (log.modifyItem ind fun item =>
        if wanted item then item.invalidate else item) removed [] ∧
      ∀ item ∈ removed, wanted item = true := by
  cases hcell : log.htable[ind]? with
  | none =>
      rw [modifyItem_none _ hcell]
      exact ⟨[], hproper.yields, by simp⟩
  | some old =>
      cases hold : wanted old with
      | false =>
          rw [modifyItem_same hcell (by simp [hold])]
          exact ⟨[], hproper.yields, by simp⟩
      | true =>
          have hsame : (log.modifyItem ind fun item =>
              if wanted item then item.invalidate else item) =
              log.modifyItem ind LogItem.invalidate := by
            simp [Log.modifyItem, List.modify_eq_set_getElem?, hcell, hold]
          rw [hsame]
          exact ⟨[old], hproper.invalidate hcell (hwanted old hold), by simpa using hold⟩

theorem modifyItem_cell {ind i : Nat} {change : LogItem → LogItem} :
    (log.modifyItem ind change).htable[i]? =
      if ind = i then (log.htable[i]?).map change else log.htable[i]? := by
  rw [Log.modifyItem, List.getElem?_modify]
  split
  · rfl
  · cases log.htable[i]? <;> rfl

/-- The loop over cells leaves no wanted item in them and takes nothing else. -/
structure Cleared (log next : Log) (inds : List Nat) (wanted : LogItem → Bool) : Prop where
  length : next.htable.length = log.htable.length
  used : ∀ i : Nat, (next.htable[i]?).any (fun cell => !cell.isEmpty) =
    (log.htable[i]?).any (fun cell => !cell.isEmpty)
  kept : ∀ (i : Nat) item, next.htable[i]? = some item → wanted item = true →
    log.htable[i]? = some item
  cleared : ∀ i ∈ inds, ∀ item, next.htable[i]? = some item → wanted item = false

theorem Proper.invalidateWhere {wanted : LogItem → Bool} (inds : List Nat)
    (hproper : log.Proper) (hwanted : ∀ item, wanted item = true → item.isEntry = true) :
    ∃ removed, log.Yields (log.invalidateWhere inds wanted) removed [] ∧
      (∀ item ∈ removed, wanted item = true) ∧
      log.Cleared (log.invalidateWhere inds wanted) inds wanted := by
  induction inds generalizing log with
  | nil =>
      exact ⟨[], hproper.yields, by simp, rfl, fun _ => rfl, fun _ _ hcell _ => hcell, by simp⟩
  | cons ind inds ih =>
      let change (item : LogItem) : LogItem := if wanted item then item.invalidate else item
      have hdead : ∀ item, wanted (change item) = true → change item = item := by
        intro item hitem
        cases hcase : wanted item with
        | false => simp [change, hcase]
        | true =>
            have hentry := hwanted _ hitem
            simp only [change, hcase, ↓reduceIte, LogItem.isEntry_invalidate,
              Bool.false_eq_true] at hentry
      have hempty : ∀ item, (change item).isEmpty = item.isEmpty := by
        intro item
        cases hcase : wanted item with
        | false => simp [change, hcase]
        | true => simp [change, hcase, LogItem.isEmpty_of_isEntry (hwanted item hcase)]
      obtain ⟨removed, hyields, hremoved⟩ := hproper.invalidateAt ind hwanted
      obtain ⟨more, hmore, hmoreRemoved, hrest⟩ := ih hyields.proper
      refine ⟨removed ++ more, hyields.append hmore,
        List.forall_mem_append.mpr ⟨hremoved, hmoreRemoved⟩, ?_, ?_, ?_, ?_⟩
      · exact hrest.length.trans (by simp [Log.modifyItem])
      · intro i
        refine (hrest.used i).trans ?_
        rw [modifyItem_cell]
        split
        · cases log.htable[i]? with
          | none => rfl
          | some item => simp only [Option.map_some, Option.any_some, change, hempty]
        · rfl
      · intro i item hcell hitem
        have hmid := hrest.kept i item hcell hitem
        rw [modifyItem_cell] at hmid
        split at hmid
        · obtain ⟨old, hold, rfl⟩ := Option.map_eq_some_iff.mp hmid
          rw [hold]
          exact congrArg some (hdead old hitem).symm
        · exact hmid
      · intro i hi item hcell
        rcases List.mem_cons.mp hi with rfl | hi
        · by_contra hitem
          rw [Bool.not_eq_false] at hitem
          have hmid := hrest.kept i item hcell hitem
          rw [modifyItem_cell, if_pos rfl] at hmid
          obtain ⟨old, _, rfl⟩ := Option.map_eq_some_iff.mp hmid
          have hsame := hdead old hitem
          have hold : wanted old = true := hsame ▸ hitem
          have hinvalid : change old = old.invalidate := by simp only [change, hold, ↓reduceIte]
          have hentry := hwanted old hold
          rw [← hsame, hinvalid] at hentry
          cases hentry
        · exact hrest.cleared i hi item hcell

/-- No item of the page is left. -/
theorem Proper.dropPageChanges (hproper : log.Proper) (dadr : Nat) :
    ∃ removed, log.Yields (log.dropPageChanges dadr) removed [] ∧
      (∀ item ∈ removed, isItem .change dadr item = true) ∧
      ∀ item ∈ (log.dropPageChanges dadr).entries, isItem .change dadr item = false := by
  obtain ⟨removed, hyields, hremoved, hcleared⟩ :=
    @Proper.invalidateWhere log (isItem .change dadr) (log.chain ⟨.change, dadr, .recnum 0⟩)
      hproper (fun item => isItem_entry (by decide))
  refine ⟨removed, hyields, hremoved, ?_⟩
  intro item hmem
  by_contra hitem
  rw [Bool.not_eq_false] at hitem
  obtain ⟨htag, hblock⟩ := isItem_cases hitem
  obtain ⟨hmem, hentry⟩ := mem_entries.mp hmem
  obtain ⟨i, hi, rfl⟩ := List.getElem_of_mem hmem
  have hcell := List.getElem?_eq_getElem hi
  have hplaced := hyields.proper.placed i _ hcell hentry
  have hhome : logScheme.home (log.dropPageChanges dadr).htable.length
      (log.dropPageChanges dadr).htable[i] =
      (log.dropPageChanges dadr).home ⟨.change, dadr, .recnum 0⟩ := by
    change LogItem.hashf _ _ = LogItem.hashf _ _
    rw [LogItem.hashf, LogItem.hashf, hashKey_change htag, hblock]
    rfl
  have hchain : i ∈ log.chain ⟨.change, dadr, .recnum 0⟩ := by
    rw [← chain_congr hcleared.length hcleared.used]
    change i ∈ logScheme.chain _ ((log.dropPageChanges dadr).home _)
    rw [← hhome]
    exact hplaced
  rw [hcleared.cleared i hchain _ hcell] at hitem
  cases hitem

theorem Proper.dropPageChanges_touches (hproper : log.Proper) (dadr : Nat) :
    log.Touches (log.dropPageChanges dadr) [.change] := by
  obtain ⟨removed, hyields, hremoved, -⟩ := hproper.dropPageChanges dadr
  exact hyields.touches (fun item hmem => by simp [(isItem_cases (hremoved item hmem)).1])
    (by simp)

theorem Proper.recordInserted_touches (hproper : log.Proper) (tabnum rec : Nat) :
    log.Touches (log.recordInserted tabnum rec) [.insrec, .delrec] := by
  rcases hproper.recordInserted tabnum rec with ⟨-, hyields⟩ | ⟨-, hyields⟩
  · exact hyields.touches (by simp) (by simp)
  · exact hyields.touches (by simp) (by simp)

/-- Every operation concerns entries with its own tags only. -/
theorem Proper.step (hproper : log.Proper) (op : LogOp) :
    log.Touches (logStep log op) op.tags := by
  cases op with
  | registerObject objnum => exact hproper.registerObject objnum
  | unregisterObject objnum => exact hproper.unregisterObject objnum
  | recChanged dadr recsize recpos => exact hproper.registerChange_touches dadr _ _
  | pageChanged dadr => exact hproper.registerChange_touches dadr _ _
  | indexPageChanged dadr => exact hproper.registerChange_touches dadr _ _
  | pagePrivate dadr => exact hproper.registerChange_touches dadr _ _
  | pieceChanged dadr offs32 len32 => exact hproper.pieceChanged_touches dadr offs32 len32
  | dropPageChanges dadr => exact hproper.dropPageChanges_touches dadr
  | pageAllocated dadr => exact hproper.pageAllocated dadr
  | pageDeallocated dadr =>
      obtain ⟨removed, added, hyields, hremoved, hadded⟩ := hproper.pageDeallocated dadr
      have hswap : ∀ tag ∈ [Tag.freePage, .allocPage], tag ∈ [Tag.allocPage, .freePage] := by
        decide
      exact hyields.touches (fun item hmem => hswap _ (hremoved item hmem))
        (fun item hmem => hswap _ (hadded item hmem))
  | pieceAllocated dadr len32 offs32 => exact hproper.registerPiece dadr len32 offs32 (by decide)
  | pieceDeallocated dadr len32 offs32 =>
      exact hproper.registerPiece dadr len32 offs32 (by decide)
  | setSapos any =>
      have hnext : Log.Proper { log with anySapos := any } :=
        ⟨⟨hproper.sound.contains, hproper.sound.limit, hproper.sound.room⟩, hproper.placed⟩
      exact (⟨hnext, List.Perm.refl _⟩ : log.Yields { log with anySapos := any } [] []).touches
        (by simp) (by simp)
  | recordInserted tabnum rec => exact hproper.recordInserted_touches tabnum rec
  | recordReleased tabnum rec =>
      exact (hproper.recordReleased tabnum rec).touches (by simp [LogOp.tags]) (by simp [LogOp.tags])

end Log

end Sql602.TransLog
