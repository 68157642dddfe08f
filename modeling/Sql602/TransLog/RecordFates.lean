import Mathlib.Data.List.Nodup
import Sql602.TransLog.Conservation
import Sql602.TransLog.Registrations
import Sql602.Table.FreeRecords

namespace Sql602.TransLog

open Table
open scoped List

/-! The numbers of the records that a transaction inserts and releases. A savepoint
keeps the pages and the allocations; the lists besides are the records that exist
and the ones released and not inserted again. -/

structure Savepoint where
  pairs : List LogItem
  present : List (Nat × Nat)
  released : List (Nat × Nat)
  deriving DecidableEq

namespace Savepoint

/-- The savepoint has an item for the item of the log. -/
def covers (sapo : Savepoint) (item : LogItem) : Bool :=
  sapo.pairs.any fun pair => pair.block == item.block &&
    if pair.isChange then item.isChange else pair.info == item.info && pair.tag == item.tag

end Savepoint

namespace Log

def savepointItems (log : Log) : List LogItem :=
  log.htable.filter fun item => item.isChange || item.isAlloc

def rollbackSavepoint (log : Log) (sapo : Savepoint) : Log :=
  log.invalidateWhere (List.range log.tablesize) fun item =>
    (item.isChange || item.isAlloc) && !sapo.covers item

end Log

/-- The first savepoint is the oldest one. A record has the numbers of its table and
of itself. -/
structure RecordTrans where
  log : Log
  savepoints : List Savepoint
  old : List (Nat × Nat)
  present : List (Nat × Nat)
  released : List (Nat × Nat)
  inserted : List (Nat × Nat)
  deriving DecidableEq

inductive RecordOp where
  | insertRecord (tabnum rec : Nat)
  | releaseRecord (tabnum rec : Nat)
  | createSavepoint
  | rollbackSavepoint (ind : Nat)
  | destroySavepoint (ind : Nat) (all : Bool)
  | other (op : LogOp)

namespace RecordTrans

def start (log : Log) (old : List (Nat × Nat)) : RecordTrans := ⟨log, [], old, old, [], []⟩

def insertRecord (trans : RecordTrans) (tabnum rec : Nat) : RecordTrans :=
  { trans with
    log := trans.log.recordInserted tabnum rec
    present := (tabnum, rec) :: trans.present
    released := trans.released.erase (tabnum, rec)
    inserted :=
      if (tabnum, rec) ∈ trans.old ∨ (tabnum, rec) ∈ trans.inserted then trans.inserted
      else (tabnum, rec) :: trans.inserted }

def releaseRecord (trans : RecordTrans) (tabnum rec : Nat) : RecordTrans :=
  { trans with
    log := trans.log.recordReleased tabnum rec
    present := trans.present.filter (· ≠ (tabnum, rec))
    released := (tabnum, rec) :: trans.released }

def createSavepoint (trans : RecordTrans) : RecordTrans :=
  if trans.savepoints.length ≥ 1000 then trans
  else
    { trans with
      log := { trans.log with anySapos := true }
      savepoints :=
        trans.savepoints ++ [⟨trans.log.savepointItems, trans.present, trans.released⟩] }

/-- The pages get back the records that they had at the savepoint, which stays. -/
def rollbackSavepoint (trans : RecordTrans) (ind : Nat) : RecordTrans :=
  match trans.savepoints[ind]? with
  | none => trans
  | some sapo =>
      { trans with
        log := trans.log.rollbackSavepoint sapo
        present := sapo.present
        released := sapo.released }

def destroySavepoint (trans : RecordTrans) (ind : Nat) (all : Bool) : RecordTrans :=
  let savepoints := if all then trans.savepoints.take ind else trans.savepoints.eraseIdx ind
  { trans with
    log := { trans.log with anySapos := !savepoints.isEmpty }
    savepoints := savepoints }

end RecordTrans

def recordStep (trans : RecordTrans) : RecordOp → RecordTrans
  | .insertRecord tabnum rec => trans.insertRecord tabnum rec
  | .releaseRecord tabnum rec => trans.releaseRecord tabnum rec
  | .createSavepoint => trans.createSavepoint
  | .rollbackSavepoint ind => trans.rollbackSavepoint ind
  | .destroySavepoint ind all => trans.destroySavepoint ind all
  | .other op => { trans with log := logStep trans.log op }

/-- A number is free when a record is inserted, which the transaction has not taken
before unless it released it, and only an existing record is released. -/
def RecordOk (trans : RecordTrans) : RecordOp → Prop
  | .insertRecord tabnum rec => (tabnum, rec) ∉ trans.present ∧
      ((tabnum, rec) ∈ trans.inserted → (tabnum, rec) ∈ trans.released)
  | .releaseRecord tabnum rec => (tabnum, rec) ∈ trans.present
  | .other op => Tag.insrec ∉ op.tags ∧ Tag.delrec ∉ op.tags
  | _ => True

/-- A rollback to a savepoint finds the records released that were released when the
savepoint was made. -/
def KeepsReleased (trans : RecordTrans) : RecordOp → Prop
  | .rollbackSavepoint ind => ∀ sapo ∈ trans.savepoints[ind]?, sapo.released ~ trans.released
  | _ => True

instance RecordOk.decide : ∀ trans op, Decidable (RecordOk trans op)
  | state, .insertRecord tabnum rec =>
      inferInstanceAs (Decidable ((tabnum, rec) ∉ state.present ∧
        ((tabnum, rec) ∈ state.inserted → (tabnum, rec) ∈ state.released)))
  | state, .releaseRecord tabnum rec =>
      inferInstanceAs (Decidable ((tabnum, rec) ∈ state.present))
  | _, .other op => inferInstanceAs (Decidable (Tag.insrec ∉ op.tags ∧ Tag.delrec ∉ op.tags))
  | _, .createSavepoint | _, .rollbackSavepoint _ | _, .destroySavepoint _ _ => isTrue trivial

instance KeepsReleased.decide : ∀ trans op, Decidable (KeepsReleased trans op)
  | state, .rollbackSavepoint ind =>
      inferInstanceAs (Decidable (∀ sapo ∈ state.savepoints[ind]?, sapo.released ~ state.released))
  | _, .insertRecord _ _ | _, .releaseRecord _ _ | _, .createSavepoint
  | _, .destroySavepoint _ _ | _, .other _ => isTrue trivial

/-- The end of a transaction puts the numbers that are due into the caches of their
tables, each once, and no number of an existing record. -/
structure Returns (tables : TableCaches) (ended : Ended) (due existing : List (Nat × Nat)) : Prop where
  once : ∀ record ∈ due, (tables.returnRecords ended.records).1.count record = 1
  stored : ∀ record ∈ due, (tables.returnRecords ended.records).2.holds record
  free : ∀ record ∈ (tables.returnRecords ended.records).1, record ∉ existing

def RecordTrans.CommitReturns (trans : RecordTrans) (tables : TableCaches) : Prop :=
  Returns tables trans.log.commitAllocs.1 trans.released trans.present

def RecordTrans.RollbackReturns (trans : RecordTrans) (tables : TableCaches) : Prop :=
  Returns tables trans.log.rollbackAllocs.1 trans.inserted trans.old

theorem Returns.iff_owns {ended : Ended} {due existing : List (Nat × Nat)} (tables : TableCaches)
    (hrecords : ended.records ~ due) (hnodup : due.Nodup)
    (hfree : ∀ record ∈ due, record ∉ existing) :
    Returns tables ended due existing ↔ ∀ record ∈ due, tables.owns record.1 = true := by
  obtain ⟨hputs, -, hheld⟩ := tables.returnRecords_puts ended.records
  have hmem : ∀ record, record ∈ (tables.returnRecords ended.records).1 ↔
      record ∈ due ∧ tables.owns record.1 = true := by
    intro record
    rw [hputs, List.mem_filter, hrecords.mem_iff]
  have hputsNodup : (tables.returnRecords ended.records).1.Nodup := by
    rw [hputs]
    exact (hrecords.nodup_iff.mpr hnodup).filter _
  constructor
  · intro hreturns record hdue
    have hcount := hreturns.once record hdue
    exact ((hmem record).mp (List.count_pos_iff.mp (by omega))).2
  · intro howns
    have hput : ∀ record ∈ due, record ∈ (tables.returnRecords ended.records).1 :=
      fun record hdue => (hmem record).mpr ⟨hdue, howns record hdue⟩
    exact {
      once := fun record hdue => List.count_eq_one_of_mem hputsNodup (hput record hdue)
      stored := fun record hdue => hheld record (hput record hdue)
      free := fun record hrecord => hfree record ((hmem record).mp hrecord).1 }

/-! The record items of the log. -/

namespace Log

variable {log next : Log}

def records (log : Log) (tag : Tag) : List (Nat × Nat) :=
  log.entries.filterMap (LogItem.record tag)

theorem record_eq_some {tag : Tag} {item : LogItem} {tabnum rec : Nat} :
    LogItem.record tag item = some (tabnum, rec) ↔ item = ⟨tag, tabnum, .recnum rec⟩ := by
  obtain ⟨itemTag, block, info⟩ := item
  constructor
  · intro hrecord
    simp only [LogItem.record] at hrecord
    split at hrecord
    · rename_i htag
      split at hrecord
      · obtain ⟨rfl, rfl⟩ := Prod.mk.inj (Option.some.inj hrecord)
        simp_all
      · cases hrecord
    · cases hrecord
  · rintro hitem
    rw [hitem, LogItem.record, if_pos rfl]

theorem record_eq_none {tag : Tag} {item : LogItem} (htag : item.tag ≠ tag) :
    LogItem.record tag item = none := if_neg htag

theorem mem_records {tag : Tag} {tabnum rec : Nat} :
    (tabnum, rec) ∈ log.records tag ↔ ⟨tag, tabnum, .recnum rec⟩ ∈ log.entries := by
  rw [records, List.mem_filterMap]
  constructor
  · rintro ⟨item, hmem, hitem⟩
    rwa [← record_eq_some.mp hitem]
  · intro hmem
    exact ⟨_, hmem, record_eq_some.mpr rfl⟩

theorem htable_records {tag : Tag} (hused : tag ≠ .empty ∧ tag ≠ .inval) :
    log.htable.filterMap (LogItem.record tag) = log.records tag := by
  rw [records, entries, List.filterMap_filter]
  refine List.filterMap_congr fun item _ => ?_
  cases hentry : item.isEntry with
  | true => rfl
  | false =>
      refine record_eq_none fun htag => ?_
      rw [LogItem.isEntry_of_tag (htag ▸ hused.1) (htag ▸ hused.2)] at hentry
      cases hentry

theorem Sound.no_entries (hsound : log.Sound) (hcontains : log.contains = 0) :
    log.entries = [] := by
  refine List.filter_eq_nil_iff.mpr fun item hmem => ?_
  simp [LogItem.isEntry, hsound.nothing hcontains item hmem]

theorem Sound.proper_of_nothing (hsound : log.Sound) (hcontains : log.contains = 0) :
    log.Proper where
  sound := hsound
  placed := Probing.Scheme.Placed.of_no_entries fun item hmem => by
    simp [logScheme, LogItem.isEntry, hsound.nothing hcontains item hmem]

theorem Sound.endAllocs_records {tag : Tag} (hsound : log.Sound) (page piece : Tag)
    (hused : tag ≠ .empty ∧ tag ≠ .inval) :
    (log.endAllocs page piece tag).1.records = log.records tag := by
  simp only [Log.endAllocs]
  split
  · exact htable_records hused
  · rename_i hcontains
    rw [records, hsound.no_entries (not_not.mp hcontains)]
    rfl

theorem Proper.rollbackSavepoint (hproper : log.Proper) (sapo : Savepoint) :
    log.Touches (log.rollbackSavepoint sapo)
      [.change, .allocPage, .freePage, .allocPiece, .freePiece] := by
  have htags : ∀ item : LogItem, ((item.isChange || item.isAlloc) && !sapo.covers item) = true →
      item.tag ∈ [Tag.change, .allocPage, .freePage, .allocPiece, .freePiece] := by
    intro item hitem
    have hkind := (Bool.and_eq_true_iff.mp hitem).1
    simpa [LogItem.isChange, LogItem.isAlloc, or_assoc] using hkind
  have hentry : ∀ item : LogItem,
      ((item.isChange || item.isAlloc) && !sapo.covers item) = true → item.isEntry = true := by
    intro item hitem
    have htag := htags item hitem
    refine LogItem.isEntry_of_tag (fun heq => ?_) (fun heq => ?_)
    · rw [heq] at htag
      exact absurd htag (by decide)
    · rw [heq] at htag
      exact absurd htag (by decide)
  obtain ⟨removed, hyields, hremoved, -⟩ :=
    @Proper.invalidateWhere log _ (List.range log.tablesize) hproper hentry
  exact hyields.touches (fun item hmem => htags item (hremoved item hmem)) (by simp)

theorem Touches.records {tags : List Tag} {tag : Tag} (htouches : log.Touches next tags)
    (htag : tag ∉ tags) : next.records tag ~ log.records tag :=
  htouches.view fun _ hitem => record_eq_none fun heq => htag (heq ▸ hitem)

theorem Touches.proper {tags : List Tag} (htouches : log.Touches next tags) : next.Proper := by
  obtain ⟨_, _, hyields, -⟩ := htouches
  exact hyields.proper

end Log

/-! The lists against each other and against the log. -/

/-- Every number that the transaction knows is in use or released. -/
structure Consistent (old inserted present released : List (Nat × Nat)) : Prop where
  nodup : released.Nodup
  apart : ∀ record ∈ released, record ∉ present
  kept : ∀ record ∈ old, record ∈ present ∨ record ∈ released
  known : ∀ record, record ∈ present ∨ record ∈ released → record ∈ old ∨ record ∈ inserted

namespace Consistent

variable {old inserted present released : List (Nat × Nat)} {record : Nat × Nat}

theorem mono {more : List (Nat × Nat)} (hconsistent : Consistent old inserted present released)
    (hmore : inserted ⊆ more) : Consistent old more present released where
  nodup := hconsistent.nodup
  apart := hconsistent.apart
  kept := hconsistent.kept
  known := fun other hother => (hconsistent.known other hother).imp_right fun hmem => hmore hmem

theorem insert (hconsistent : Consistent old inserted present released)
    (hknown : record ∈ old ∨ record ∈ inserted) :
    Consistent old inserted (record :: present) (released.erase record) where
  nodup := hconsistent.nodup.erase record
  apart := by
    intro other hother
    obtain ⟨hne, hmem⟩ := hconsistent.nodup.mem_erase_iff.mp hother
    exact List.not_mem_cons_of_ne_of_not_mem hne (hconsistent.apart other hmem)
  kept := by
    intro other hother
    by_cases heq : other = record
    · exact .inl (heq ▸ List.mem_cons_self)
    · rcases hconsistent.kept other hother with hmem | hmem
      · exact .inl (List.mem_cons_of_mem _ hmem)
      · exact .inr ((List.mem_erase_of_ne heq).mpr hmem)
  known := by
    rintro other (hother | hother)
    · rcases List.mem_cons.mp hother with rfl | hmem
      · exact hknown
      · exact hconsistent.known other (.inl hmem)
    · exact hconsistent.known other (.inr (List.mem_of_mem_erase hother))

theorem release (hconsistent : Consistent old inserted present released)
    (hpresent : record ∈ present) :
    Consistent old inserted (present.filter (· ≠ record)) (record :: released) where
  nodup := List.nodup_cons.mpr
    ⟨fun hmem => hconsistent.apart record hmem hpresent, hconsistent.nodup⟩
  apart := by
    intro other hother hmem
    obtain ⟨hpresent, hne⟩ := List.mem_filter.mp hmem
    rcases List.mem_cons.mp hother with rfl | hreleased
    · simp at hne
    · exact hconsistent.apart other hreleased hpresent
  kept := by
    intro other hother
    by_cases heq : other = record
    · exact .inr (heq ▸ List.mem_cons_self)
    · rcases hconsistent.kept other hother with hmem | hmem
      · exact .inl (List.mem_filter.mpr ⟨hmem, by simpa using heq⟩)
      · exact .inr (List.mem_cons_of_mem _ hmem)
  known := by
    rintro other (hother | hother)
    · exact hconsistent.known other (.inl (List.mem_of_mem_filter hother))
    · rcases List.mem_cons.mp hother with rfl | hmem
      · exact hconsistent.known other (.inl hpresent)
      · exact hconsistent.known other (.inr hmem)

end Consistent

namespace RecordTrans

/-- The items of the log are the numbers released and inserted. -/
structure Registered (trans : RecordTrans) : Prop where
  proper : trans.log.Proper
  released : trans.log.records .delrec ~ trans.released
  inserted : trans.log.records .insrec ~ trans.inserted
  nodup : trans.inserted.Nodup
  fresh : ∀ record ∈ trans.inserted, record ∉ trans.old
  now : Consistent trans.old trans.inserted trans.present trans.released
  savepoints : ∀ sapo ∈ trans.savepoints,
    Consistent trans.old trans.inserted sapo.present sapo.released

variable {trans : RecordTrans}

theorem registered_start {log : Log} (hsound : log.Sound) (hcontains : log.contains = 0)
    (old : List (Nat × Nat)) : (start log old).Registered where
  proper := hsound.proper_of_nothing hcontains
  released := by
    rw [Log.records, start, hsound.no_entries hcontains]
    exact List.Perm.refl _
  inserted := by
    rw [Log.records, start, hsound.no_entries hcontains]
    exact List.Perm.refl _
  nodup := List.nodup_nil
  fresh := by simp [start]
  now := ⟨List.nodup_nil, by simp [start], fun _ hmem => .inl hmem, by simp [start]⟩
  savepoints := by simp [start]

/-- The log may change in items of other tags. -/
theorem Registered.withLog {log : Log} {tags : List Tag} (hregistered : trans.Registered)
    (htouches : trans.log.Touches log tags) (hinsrec : Tag.insrec ∉ tags)
    (hdelrec : Tag.delrec ∉ tags) : { trans with log := log }.Registered where
  proper := htouches.proper
  released := (htouches.records hdelrec).trans hregistered.released
  inserted := (htouches.records hinsrec).trans hregistered.inserted
  nodup := hregistered.nodup
  fresh := hregistered.fresh
  now := hregistered.now
  savepoints := hregistered.savepoints

theorem Registered.insertRecord {tabnum rec : Nat} (hregistered : trans.Registered)
    (hok : RecordOk trans (.insertRecord tabnum rec)) :
    (trans.insertRecord tabnum rec).Registered := by
  obtain ⟨habsent, htaken⟩ := hok
  rcases hregistered.proper.recordInserted tabnum rec with ⟨hdelrec, hyields⟩ | ⟨hdelrec, hyields⟩
  · -- the release of the record is cancelled
    have hreleased : (tabnum, rec) ∈ trans.released :=
      hregistered.released.subset (Log.mem_records.mpr hdelrec)
    have hknown := hregistered.now.known _ (.inr hreleased)
    have hview := hyields.view (LogItem.record .delrec)
    have hother := hyields.view (LogItem.record .insrec)
    simp only [LogItem.record, List.filterMap_cons, List.filterMap_nil, reduceCtorEq, ↓reduceIte,
      List.nil_append] at hview hother
    refine {
      proper := hyields.proper
      released := ?_
      inserted := ?_
      nodup := ?_
      fresh := ?_
      now := ?_
      savepoints := ?_ }
    all_goals simp only [RecordTrans.insertRecord, if_pos hknown]
    · refine (List.perm_cons (tabnum, rec)).mp ?_
      exact (hview.trans hregistered.released).trans (List.perm_cons_erase hreleased)
    · exact hother.trans hregistered.inserted
    · exact hregistered.nodup
    · exact hregistered.fresh
    · exact hregistered.now.insert hknown
    · exact hregistered.savepoints
  · have hreleased : (tabnum, rec) ∉ trans.released := fun hmem =>
      hdelrec (Log.mem_records.mp (hregistered.released.symm.subset hmem))
    have hold : (tabnum, rec) ∉ trans.old := by
      intro hmem
      rcases hregistered.now.kept _ hmem with hpresent | hmem
      · exact habsent hpresent
      · exact hreleased hmem
    have hnew : (tabnum, rec) ∉ trans.inserted := fun hmem => hreleased (htaken hmem)
    have hview := hyields.view (LogItem.record .delrec)
    have hother := hyields.view (LogItem.record .insrec)
    simp only [LogItem.record, List.filterMap_cons, List.filterMap_nil, reduceCtorEq, ↓reduceIte,
      List.nil_append] at hview hother
    have hmore : trans.inserted ⊆ (tabnum, rec) :: trans.inserted := List.subset_cons_self _ _
    refine {
      proper := hyields.proper
      released := ?_
      inserted := ?_
      nodup := ?_
      fresh := ?_
      now := ?_
      savepoints := ?_ }
    all_goals simp only [RecordTrans.insertRecord, if_neg (not_or.mpr ⟨hold, hnew⟩)]
    · rw [List.erase_of_not_mem hreleased]
      exact hview.trans hregistered.released
    · exact hother.trans (hregistered.inserted.cons _)
    · exact List.nodup_cons.mpr ⟨hnew, hregistered.nodup⟩
    · exact List.forall_mem_cons.mpr ⟨hold, hregistered.fresh⟩
    · exact (hregistered.now.mono hmore).insert (.inr List.mem_cons_self)
    · exact fun sapo hsapo => (hregistered.savepoints sapo hsapo).mono hmore

theorem Registered.releaseRecord {tabnum rec : Nat} (hregistered : trans.Registered)
    (hok : RecordOk trans (.releaseRecord tabnum rec)) :
    (trans.releaseRecord tabnum rec).Registered := by
  have hyields := hregistered.proper.recordReleased tabnum rec
  have hview := hyields.view (LogItem.record .delrec)
  have hother := hyields.view (LogItem.record .insrec)
  simp only [LogItem.record, List.filterMap_cons, List.filterMap_nil, reduceCtorEq, ↓reduceIte,
    List.nil_append] at hview hother
  exact {
    proper := hyields.proper
    released := hview.trans (hregistered.released.cons _)
    inserted := hother.trans hregistered.inserted
    nodup := hregistered.nodup
    fresh := hregistered.fresh
    now := hregistered.now.release hok
    savepoints := hregistered.savepoints }

theorem Registered.setSapos (hregistered : trans.Registered) (any : Bool)
    {savepoints : List Savepoint} (hsavepoints : ∀ sapo ∈ savepoints,
      Consistent trans.old trans.inserted sapo.present sapo.released) :
    { trans with
      log := { trans.log with anySapos := any }
      savepoints := savepoints }.Registered := by
  have hlog := hregistered.withLog (hregistered.proper.step (.setSapos any))
    (List.not_mem_nil) (List.not_mem_nil)
  exact ⟨hlog.proper, hlog.released, hlog.inserted, hlog.nodup, hlog.fresh, hlog.now, hsavepoints⟩

theorem Registered.createSavepoint (hregistered : trans.Registered) :
    trans.createSavepoint.Registered := by
  simp only [RecordTrans.createSavepoint]
  split
  · exact hregistered
  · refine hregistered.setSapos true (List.forall_mem_append.mpr ⟨hregistered.savepoints, ?_⟩)
    exact List.forall_mem_singleton.mpr hregistered.now

theorem Registered.destroySavepoint (hregistered : trans.Registered) (ind : Nat) (all : Bool) :
    (trans.destroySavepoint ind all).Registered := by
  refine hregistered.setSapos _ fun sapo hmem => hregistered.savepoints sapo ?_
  cases all with
  | true => exact List.mem_of_mem_take hmem
  | false => exact List.mem_of_mem_eraseIdx hmem

/-- The items of records stay in the log, so that they fit the lists of the savepoint
only if these are the present ones. -/
theorem Registered.rollbackSavepoint {ind : Nat} (hregistered : trans.Registered)
    (hkeeps : KeepsReleased trans (.rollbackSavepoint ind)) :
    (trans.rollbackSavepoint ind).Registered := by
  simp only [RecordTrans.rollbackSavepoint]
  split
  · exact hregistered
  · rename_i sapo hsapo
    have hlog := hregistered.withLog (hregistered.proper.rollbackSavepoint sapo)
      (by decide) (by decide)
    exact {
      proper := hlog.proper
      released := hlog.released.trans (hkeeps sapo hsapo).symm
      inserted := hlog.inserted
      nodup := hlog.nodup
      fresh := hlog.fresh
      now := hlog.savepoints sapo (List.mem_of_getElem? hsapo)
      savepoints := hlog.savepoints }

theorem Registered.step {op : RecordOp} (hregistered : trans.Registered)
    (hok : RecordOk trans op) (hkeeps : KeepsReleased trans op) :
    (recordStep trans op).Registered := by
  cases op with
  | insertRecord tabnum rec => exact hregistered.insertRecord hok
  | releaseRecord tabnum rec => exact hregistered.releaseRecord hok
  | createSavepoint => exact hregistered.createSavepoint
  | rollbackSavepoint ind => exact hregistered.rollbackSavepoint hkeeps
  | destroySavepoint ind all => exact hregistered.destroySavepoint ind all
  | other op => exact hregistered.withLog (hregistered.proper.step op) hok.1 hok.2

theorem Registered.commit_iff (hregistered : trans.Registered) (tables : TableCaches) :
    trans.CommitReturns tables ↔ ∀ record ∈ trans.released, tables.owns record.1 = true := by
  refine Returns.iff_owns tables ?_ hregistered.now.nodup hregistered.now.apart
  rw [Log.commitAllocs, hregistered.proper.sound.endAllocs_records _ _ (by decide)]
  exact hregistered.released

theorem Registered.rollback_iff (hregistered : trans.Registered) (tables : TableCaches) :
    trans.RollbackReturns tables ↔ ∀ record ∈ trans.inserted, tables.owns record.1 = true := by
  refine Returns.iff_owns tables ?_ hregistered.nodup hregistered.fresh
  rw [Log.rollbackAllocs, hregistered.proper.sound.endAllocs_records _ _ (by decide)]
  exact hregistered.inserted

end RecordTrans

end Sql602.TransLog
