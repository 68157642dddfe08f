import Sql602.TransLog.LogOps

namespace Sql602.TransLog

open scoped List

/-! One transaction. The lists besides the log are the units that the disk space
has given away and the ones that the owner may free, and the history: the units
allocated, freed and released by now. -/

structure Trans where
  log : Log
  owned : List Unit
  live : List Unit
  allocated : List Unit
  freed : List Unit
  released : List Unit
  deriving DecidableEq

inductive TransOp where
  | allocBlock (dadr : Nat)
  | freeBlock (dadr : Nat)
  | getPiece (dadr len32 offs32 : Nat) (privatized fixed : Bool)
  | freePiece (dadr len32 offs32 : Nat)
  | setSapos (any : Bool)
  | lockTable (tabnum : Nat)
  | unlockTable (tabnum : Nat)
  | registerChange (dadr : Nat) (change : ChangeMap → ChangeMap) (start : ChangeMap)
  | pieceChanged (dadr offs32 len32 : Nat)
  | recordInserted (tabnum rec : Nat)
  | dropRecordInsInfo (tabnum rec : Nat)
  | recordReleased (tabnum rec : Nat)
  | tableDeleted (tabnum : Nat)

namespace Trans

def start (log : Log) (old : List Unit) : Trans := ⟨log, old, old, [], [], []⟩

/-- The disk space gives a unit away. -/
def take (trans : Trans) (unit : Unit) : Trans :=
  { trans with owned := unit :: trans.owned, allocated := unit :: trans.allocated }

def handOver (trans : Trans) (unit : Unit) : Trans :=
  { trans with live := unit :: trans.live }

def giveUp (trans : Trans) (unit : Unit) : Trans :=
  { trans with live := trans.live.erase unit, freed := unit :: trans.freed }

/-- The disk space gets a unit back. -/
def release (trans : Trans) (unit : Unit) : Trans :=
  { trans with owned := trans.owned.erase unit, released := unit :: trans.released }

def allocBlock (trans : Trans) (dadr : Nat) : Trans :=
  if dadr ≠ 0 then
    { (trans.take (.page dadr)).handOver (.page dadr) with
      log := trans.log.pageAllocated dadr }
  else trans

def freeBlock (trans : Trans) (dadr : Nat) : Trans :=
  let (allocated, log) := (trans.log.dropPageChanges dadr).pageDeallocated dadr
  let trans := { trans.giveUp (.page dadr) with log := log }
  if allocated then trans.release (.page dadr) else trans

/-- `privatized` says that a private copy of the page of the piece was made,
`fixed` that its contents are there. -/
def getPiece (trans : Trans) (dadr len32 offs32 : Nat) (privatized fixed : Bool) : Trans :=
  let trans := trans.take (.piece dadr len32 offs32)
  let log := if privatized then trans.log.pagePrivate dadr else trans.log
  if fixed then
    { trans.handOver (.piece dadr len32 offs32) with
      log := (log.pieceChanged dadr offs32 len32).pieceAllocated dadr len32 offs32 }
  else { trans with log := log }

def freePiece (trans : Trans) (dadr len32 offs32 : Nat) : Trans :=
  let (allocated, log) := trans.log.pieceDeallocated dadr len32 offs32
  let trans := { trans.giveUp (.piece dadr len32 offs32) with log := log }
  if allocated then trans.release (.piece dadr len32 offs32) else trans

end Trans

def transStep (trans : Trans) : TransOp → Trans
  | .allocBlock dadr => trans.allocBlock dadr
  | .freeBlock dadr => trans.freeBlock dadr
  | .getPiece dadr len32 offs32 privatized fixed =>
      trans.getPiece dadr len32 offs32 privatized fixed
  | .freePiece dadr len32 offs32 => trans.freePiece dadr len32 offs32
  | .setSapos any => { trans with log := { trans.log with anySapos := any } }
  | .lockTable tabnum => { trans with log := trans.log.registerObject tabnum .lock }
  | .unlockTable tabnum => { trans with log := trans.log.unregisterObject tabnum .lock }
  | .registerChange dadr change start =>
      { trans with log := trans.log.registerChange dadr change start }
  | .pieceChanged dadr offs32 len32 =>
      { trans with log := trans.log.pieceChanged dadr offs32 len32 }
  | .recordInserted tabnum rec => { trans with log := trans.log.recordInserted tabnum rec }
  | .dropRecordInsInfo tabnum rec =>
      { trans with log := trans.log.dropRecordInsInfo tabnum rec }
  | .recordReleased tabnum rec => { trans with log := trans.log.recordReleased tabnum rec }
  | .tableDeleted tabnum => { trans with log := trans.log.tableDeleted tabnum }

/-- The disk space never gives a unit away twice, and a unit is freed by its
owner only. A piece has to be fixed after it was taken. -/
def TransOk (trans : Trans) : TransOp → Prop
  | .allocBlock dadr => Unit.page dadr ∉ trans.owned
  | .freeBlock dadr => Unit.page dadr ∈ trans.live
  | .getPiece dadr len32 offs32 _ fixed =>
      Unit.piece dadr len32 offs32 ∉ trans.owned ∧ fixed = true
  | .freePiece dadr len32 offs32 => Unit.piece dadr len32 offs32 ∈ trans.live
  | _ => True

instance TransOk.decide : ∀ trans op, Decidable (TransOk trans op)
  | state, .allocBlock dadr => inferInstanceAs (Decidable (Unit.page dadr ∉ state.owned))
  | state, .freeBlock dadr => inferInstanceAs (Decidable (Unit.page dadr ∈ state.live))
  | state, .getPiece dadr len32 offs32 _ fixed =>
      inferInstanceAs (Decidable
        (Unit.piece dadr len32 offs32 ∉ state.owned ∧ fixed = true))
  | state, .freePiece dadr len32 offs32 =>
      inferInstanceAs (Decidable (Unit.piece dadr len32 offs32 ∈ state.live))
  | _, .setSapos _ | _, .lockTable _ | _, .unlockTable _ | _, .registerChange _ _ _
  | _, .pieceChanged _ _ _ | _, .recordInserted _ _ | _, .dropRecordInsInfo _ _
  | _, .recordReleased _ _ | _, .tableDeleted _ => isTrue trivial

/-- What an end of the transaction releases was not released before, and it
leaves the given units. -/
structure EndsWith (trans : Trans) (ended : Ended) (due left : List Unit) : Prop where
  nodup : ended.units.Nodup
  owned : ended.units ⊆ trans.owned
  due : ended.units ++ trans.released ~ due
  left : trans.owned.diff ended.units ~ left

def Trans.Conserves (old : List Unit) (trans : Trans) : Prop :=
  EndsWith trans trans.log.commitAllocs.1 trans.freed
      ((old ++ trans.allocated).diff trans.freed) ∧
    EndsWith trans trans.log.rollbackAllocs.1 trans.allocated old

/-! The items of the log against the history. -/

namespace Log

def freedUnits (log : Log) : List Unit := log.htable.filterMap freedUnit

def allocatedUnits (log : Log) : List Unit := log.htable.filterMap allocatedUnit

variable {log next : Log} {item : LogItem}

theorem Turns.freedUnits {removed added : List LogItem}
    (hturns : log.Turns next removed added) :
    removed.filterMap freedUnit ++ next.freedUnits ~
      added.filterMap freedUnit ++ log.freedUnits :=
  hturns.items freedUnit quiet_freedUnit

theorem Turns.allocatedUnits {removed added : List LogItem}
    (hturns : log.Turns next removed added) :
    removed.filterMap allocatedUnit ++ next.allocatedUnits ~
      added.filterMap allocatedUnit ++ log.allocatedUnits :=
  hturns.items allocatedUnit quiet_allocatedUnit

theorem freedUnit_of_isItem {dadr : Nat} (hitem : isItem .freePage dadr item = true) :
    freedUnit item = some (.page dadr) := by
  obtain ⟨htag, rfl⟩ := isItem_cases hitem
  simp [freedUnit, LogItem.unit, htag]

theorem units_of_isItem {dadr : Nat} (hitem : isItem .allocPage dadr item = true) :
    allocatedUnit item = some (.page dadr) ∧ freedUnit item = none := by
  obtain ⟨htag, rfl⟩ := isItem_cases hitem
  simp [allocatedUnit, freedUnit, LogItem.unit, htag]

theorem Sound.nothing (hsound : log.Sound) (hcontains : log.contains = 0) :
    ∀ item ∈ log.htable, item.isEmpty = true := by
  have hcount := hsound.contains
  rw [hcontains, eq_comm, List.countP_eq_zero] at hcount
  intro item hmem
  simpa using hcount item hmem

theorem Sound.filterMap_nothing (hsound : log.Sound) (hcontains : log.contains = 0)
    {f : LogItem → Option Unit} (hquiet : Quiet f) : log.htable.filterMap f = [] := by
  refine List.filterMap_eq_nil_iff.mpr fun item hmem => hquiet item ?_
  refine LogItem.isAlloc_of_not_entry ?_
  simp [LogItem.isEntry, hsound.nothing hcontains item hmem]

theorem Sound.commitAllocs_units (hsound : log.Sound) :
    log.commitAllocs.1.units = log.freedUnits := by
  simp only [commitAllocs, endAllocs, Log.freedUnits]
  split
  case isTrue => rfl
  case isFalse hcontains =>
    exact (hsound.filterMap_nothing (not_not.mp hcontains) quiet_freedUnit).symm

theorem Sound.rollbackAllocs_units (hsound : log.Sound) :
    log.rollbackAllocs.1.units = log.allocatedUnits := by
  simp only [rollbackAllocs, endAllocs, Log.allocatedUnits]
  split
  case isTrue => rfl
  case isFalse hcontains =>
    exact (hsound.filterMap_nothing (not_not.mp hcontains) quiet_allocatedUnit).symm

theorem sound_of_empty (hempty : ∀ item ∈ log.htable, item.isEmpty = true)
    (hcontains : log.contains = 0) (hroom : log.limitsize < log.tablesize) : log.Sound where
  contains := by
    rw [hcontains, eq_comm, List.countP_eq_zero]
    intro item hmem
    simp [hempty item hmem]
  limit := by
    rw [hcontains]
    exact Nat.zero_le _
  room := hroom

/-- An ended transaction leaves the log as the next one needs it. -/
theorem Sound.endAllocs (hsound : log.Sound) (page piece rec : Tag) :
    (log.endAllocs page piece rec).2.Sound ∧ (log.endAllocs page piece rec).2.contains = 0 := by
  have hcleared : ∃ cleared : Log, cleared.contains = 0 ∧
      cleared = (if log.contains ≠ 0 then
        { log with
          htable := log.htable.map fun item =>
            if item.isEmpty then item else { item with tag := .empty }
          contains := 0 }
        else log) ∧
      (∀ item ∈ cleared.htable, item.isEmpty = true) ∧
      cleared.limitsize < cleared.tablesize := by
    split
    case isTrue =>
      refine ⟨_, rfl, rfl, ?_, by simpa [tablesize] using hsound.room⟩
      intro item hmem
      obtain ⟨old, -, rfl⟩ := List.mem_map.mp hmem
      split
      case isTrue hempty => exact hempty
      case isFalse => rfl
    case isFalse hcontains =>
      have hzero := not_not.mp hcontains
      exact ⟨log, hzero, rfl, hsound.nothing hzero, hsound.room⟩
  obtain ⟨cleared, hzero, hdef, hempty, hroom⟩ := hcleared
  simp only [Log.endAllocs, ← hdef]
  split
  case isTrue =>
    refine ⟨sound_of_empty ?_ hzero (by simp [minimize, tablesize, MINIMAL_HTABLE_SIZE]), hzero⟩
    intro item hmem
    rw [List.eq_of_mem_replicate hmem]
    rfl
  case isFalse => exact ⟨sound_of_empty hempty hzero hroom, hzero⟩

end Log

namespace Trans

/-- Every unit that the disk space has given away is either with its owner or
on the way back, and the log knows which ones are on the way. -/
structure Accounted (old : List Unit) (trans : Trans) : Prop where
  sound : trans.log.Sound
  nodup : trans.owned.Nodup
  owned : trans.owned ++ trans.released ~ old ++ trans.allocated
  live : trans.live ++ trans.freed ~ old ++ trans.allocated
  freed : trans.log.freedUnits ++ trans.released ~ trans.freed
  allocated : trans.log.allocatedUnits ++ trans.released ~ trans.allocated

variable {old : List Unit} {trans : Trans}

theorem Accounted.owned_live (haccounted : trans.Accounted old) :
    trans.owned ~ trans.log.freedUnits ++ trans.live := by
  refine (List.perm_append_right_iff trans.released).mp ?_
  calc trans.owned ++ trans.released
      ~ trans.live ++ trans.freed := haccounted.owned.trans haccounted.live.symm
    _ ~ trans.live ++ (trans.log.freedUnits ++ trans.released) :=
        haccounted.freed.symm.append_left _
    _ ~ trans.log.freedUnits ++ trans.live ++ trans.released := by
        rw [← List.append_assoc]
        exact List.perm_append_comm.append_right _

theorem Accounted.owned_old (haccounted : trans.Accounted old) :
    trans.owned ~ trans.log.allocatedUnits ++ old := by
  refine (List.perm_append_right_iff trans.released).mp ?_
  calc trans.owned ++ trans.released
      ~ old ++ trans.allocated := haccounted.owned
    _ ~ old ++ (trans.log.allocatedUnits ++ trans.released) :=
        haccounted.allocated.symm.append_left _
    _ ~ trans.log.allocatedUnits ++ old ++ trans.released := by
        rw [← List.append_assoc]
        exact List.perm_append_comm.append_right _

theorem diff_of_perm {units left owned : List Unit} (hperm : owned ~ units ++ left) :
    owned.diff units ~ left := by
  refine (hperm.diff_right units).trans ?_
  induction units generalizing owned with
  | nil => simp
  | cons unit units ih => simpa using ih (List.Perm.refl (units ++ left))

theorem endsWith_of_perm {ended : Ended} {due left : List Unit} (hnodup : trans.owned.Nodup)
    (howned : trans.owned ~ ended.units ++ left)
    (hdue : ended.units ++ trans.released ~ due) : EndsWith trans ended due left where
  nodup := (List.nodup_append.mp (howned.nodup_iff.mp hnodup)).1
  owned := fun _ hmem => howned.mem_iff.mpr (List.mem_append_left _ hmem)
  due := hdue
  left := diff_of_perm howned

theorem Accounted.live_eq (haccounted : trans.Accounted old) :
    trans.live ~ (old ++ trans.allocated).diff trans.freed :=
  (diff_of_perm (haccounted.live.symm.trans List.perm_append_comm)).symm

theorem Accounted.conserves (haccounted : trans.Accounted old) : trans.Conserves old := by
  constructor
  · apply endsWith_of_perm haccounted.nodup
    · rw [haccounted.sound.commitAllocs_units]
      exact haccounted.owned_live.trans (haccounted.live_eq.append_left _)
    · rw [haccounted.sound.commitAllocs_units]
      exact haccounted.freed
  · apply endsWith_of_perm haccounted.nodup
    · rw [haccounted.sound.rollbackAllocs_units]
      exact haccounted.owned_old
    · rw [haccounted.sound.rollbackAllocs_units]
      exact haccounted.allocated

/-! Steps. -/

theorem Accounted.withLog {log : Log} (haccounted : trans.Accounted old)
    (hturns : trans.log.Turns log [] []) : { trans with log := log }.Accounted old where
  sound := hturns.sound
  nodup := haccounted.nodup
  owned := haccounted.owned
  live := haccounted.live
  freed := (hturns.freedUnits.append_right _).trans haccounted.freed
  allocated := (hturns.allocatedUnits.append_right _).trans haccounted.allocated

/-- A new unit is accounted for by one item that stands for its allocation. -/
theorem Accounted.obtain {log : Log} {unit : Unit} {item : LogItem}
    (haccounted : trans.Accounted old) (hnew : unit ∉ trans.owned)
    (hturns : trans.log.Turns log [] [item])
    (halloc : allocatedUnit item = some unit) (hfree : freedUnit item = none) :
    { (trans.take unit).handOver unit with log := log }.Accounted old where
  sound := hturns.sound
  nodup := List.nodup_cons.mpr ⟨hnew, haccounted.nodup⟩
  owned := (haccounted.owned.cons unit).trans List.perm_middle.symm
  live := (haccounted.live.cons unit).trans List.perm_middle.symm
  freed := by
    have hitems := hturns.freedUnits
    rw [List.filterMap_cons_none hfree] at hitems
    exact (hitems.append_right _).trans haccounted.freed
  allocated := by
    have hitems := hturns.allocatedUnits
    rw [List.filterMap_cons_some halloc] at hitems
    exact (hitems.append_right _).trans (haccounted.allocated.cons unit)

theorem perm_giveUp {unit : Unit} (hlive : unit ∈ trans.live) :
    (trans.giveUp unit).live ++ (trans.giveUp unit).freed ~ trans.live ++ trans.freed :=
  calc trans.live.erase unit ++ unit :: trans.freed
      ~ unit :: trans.live.erase unit ++ trans.freed := List.perm_middle
    _ ~ trans.live ++ trans.freed := (List.perm_cons_erase hlive).symm.append_right _

/-- A unit on the way back is accounted for by one item as well. -/
theorem Accounted.giveUp {log : Log} {unit : Unit} {item : LogItem}
    (haccounted : trans.Accounted old) (hlive : unit ∈ trans.live)
    (hturns : trans.log.Turns log [] [item])
    (halloc : allocatedUnit item = none) (hfree : freedUnit item = some unit) :
    { trans.giveUp unit with log := log }.Accounted old where
  sound := hturns.sound
  nodup := haccounted.nodup
  owned := haccounted.owned
  live := (perm_giveUp hlive).trans haccounted.live
  freed := by
    have hitems := hturns.freedUnits
    rw [List.filterMap_cons_some hfree] at hitems
    exact (hitems.append_right _).trans (haccounted.freed.cons unit)
  allocated := by
    have hitems := hturns.allocatedUnits
    rw [List.filterMap_cons_none halloc] at hitems
    exact (hitems.append_right _).trans haccounted.allocated

/-- A unit of the same transaction goes back at once, with the item of its
allocation. -/
theorem Accounted.releaseOwn {log : Log} {unit : Unit} {item : LogItem}
    (haccounted : trans.Accounted old) (hlive : unit ∈ trans.live)
    (hturns : trans.log.Turns log [item] [])
    (halloc : allocatedUnit item = some unit) (hfree : freedUnit item = none) :
    ({ trans.giveUp unit with log := log }.release unit).Accounted old where
  sound := hturns.sound
  nodup := haccounted.nodup.erase unit
  owned := by
    have howned : unit ∈ trans.owned :=
      haccounted.owned_live.mem_iff.mpr (List.mem_append_right _ hlive)
    calc trans.owned.erase unit ++ unit :: trans.released
        ~ unit :: trans.owned.erase unit ++ trans.released := List.perm_middle
      _ ~ trans.owned ++ trans.released := (List.perm_cons_erase howned).symm.append_right _
      _ ~ old ++ trans.allocated := haccounted.owned
  live := (perm_giveUp hlive).trans haccounted.live
  freed := by
    have hitems := hturns.freedUnits
    rw [List.filterMap_cons_none hfree] at hitems
    calc log.freedUnits ++ unit :: trans.released
        ~ unit :: (log.freedUnits ++ trans.released) := List.perm_middle
      _ ~ unit :: (trans.log.freedUnits ++ trans.released) :=
          (hitems.append_right _).cons unit
      _ ~ unit :: trans.freed := haccounted.freed.cons unit
  allocated := by
    have hitems := hturns.allocatedUnits
    rw [List.filterMap_cons_some halloc] at hitems
    calc log.allocatedUnits ++ unit :: trans.released
        ~ unit :: log.allocatedUnits ++ trans.released := List.perm_middle
      _ ~ trans.log.allocatedUnits ++ trans.released := hitems.append_right _
      _ ~ trans.allocated := haccounted.allocated

theorem Accounted.allocBlock {dadr : Nat} (haccounted : trans.Accounted old)
    (hnew : Unit.page dadr ∉ trans.owned) : (trans.allocBlock dadr).Accounted old := by
  simp only [Trans.allocBlock]
  split
  case isFalse => exact haccounted
  case isTrue =>
    rcases haccounted.sound.pageAllocated dadr with hturns | ⟨item, hitem, hturns⟩
    · exact haccounted.obtain hnew hturns rfl rfl
    · -- the page would be on the way back
      have hitems := hturns.freedUnits
      rw [List.filterMap_cons_some (Log.freedUnit_of_isItem hitem)] at hitems
      have hway : Unit.page dadr ∈ trans.log.freedUnits := hitems.mem_iff.mp (by simp)
      exact absurd (haccounted.owned_live.mem_iff.mpr (List.mem_append_left _ hway)) hnew

theorem Accounted.freeBlock {dadr : Nat} (haccounted : trans.Accounted old)
    (hlive : Unit.page dadr ∈ trans.live) : (trans.freeBlock dadr).Accounted old := by
  have hdropped := haccounted.sound.dropPageChanges dadr
  rcases hdropped.sound.pageDeallocated dadr with
    ⟨hanswer, hturns⟩ | ⟨hanswer, item, hitem, hturns⟩
  · simp only [Trans.freeBlock, hanswer, Bool.false_eq_true, if_false]
    exact haccounted.giveUp hlive (hdropped.trans hturns) rfl rfl
  · obtain ⟨halloc, hfree⟩ := Log.units_of_isItem hitem
    simp only [Trans.freeBlock, hanswer, if_true]
    exact haccounted.releaseOwn hlive (hdropped.trans hturns) halloc hfree

theorem Accounted.getPiece {dadr len32 offs32 : Nat} {privatized : Bool}
    (haccounted : trans.Accounted old) (hnew : Unit.piece dadr len32 offs32 ∉ trans.owned) :
    (trans.getPiece dadr len32 offs32 privatized true).Accounted old := by
  have hprivate : trans.log.Turns
      (if privatized then trans.log.pagePrivate dadr else trans.log) [] [] := by
    split
    · exact haccounted.sound.registerChange dadr id .none
    · exact haccounted.sound.turns
  have hchanged := hprivate.trans (hprivate.sound.pieceChanged dadr offs32 len32)
  have hturns := hchanged.trans
    (hchanged.sound.registerPiece .allocPiece dadr len32 offs32 (by decide))
  exact haccounted.obtain hnew hturns rfl rfl

theorem Accounted.freePiece {dadr len32 offs32 : Nat} (haccounted : trans.Accounted old)
    (hlive : Unit.piece dadr len32 offs32 ∈ trans.live) :
    (trans.freePiece dadr len32 offs32).Accounted old :=
  haccounted.giveUp hlive
    (haccounted.sound.registerPiece .freePiece dadr len32 offs32 (by decide)) rfl rfl

theorem Accounted.setSapos (haccounted : trans.Accounted old) (any : Bool) :
    { trans with log := { trans.log with anySapos := any } }.Accounted old where
  sound := ⟨haccounted.sound.contains, haccounted.sound.limit, haccounted.sound.room⟩
  nodup := haccounted.nodup
  owned := haccounted.owned
  live := haccounted.live
  freed := haccounted.freed
  allocated := haccounted.allocated

theorem Accounted.step {op : TransOp} (haccounted : trans.Accounted old)
    (hok : TransOk trans op) : (transStep trans op).Accounted old := by
  have hsound := haccounted.sound
  cases op with
  | allocBlock dadr => exact haccounted.allocBlock hok
  | freeBlock dadr => exact haccounted.freeBlock hok
  | getPiece dadr len32 offs32 privatized fixed =>
      obtain ⟨hnew, rfl⟩ := hok
      exact haccounted.getPiece hnew
  | freePiece dadr len32 offs32 => exact haccounted.freePiece hok
  | setSapos any => exact haccounted.setSapos any
  | lockTable tabnum => exact haccounted.withLog (hsound.registerObject tabnum)
  | unlockTable tabnum => exact haccounted.withLog (hsound.unregisterObject tabnum)
  | registerChange dadr change start =>
      exact haccounted.withLog (hsound.registerChange dadr change start)
  | pieceChanged dadr offs32 len32 =>
      exact haccounted.withLog (hsound.pieceChanged dadr offs32 len32)
  | recordInserted tabnum rec => exact haccounted.withLog (hsound.recordInserted tabnum rec)
  | dropRecordInsInfo tabnum rec =>
      exact haccounted.withLog (hsound.dropRecordInsInfo tabnum rec)
  | recordReleased tabnum rec =>
      exact haccounted.withLog (hsound.addRecord tabnum rec (by decide))
  | tableDeleted tabnum => exact haccounted.withLog (hsound.tableDeleted tabnum)

theorem accounted_start {log : Log} (hsound : log.Sound) (hcontains : log.contains = 0)
    (hold : old.Nodup) : (Trans.start log old).Accounted old where
  sound := hsound
  nodup := hold
  owned := List.Perm.refl _
  live := List.Perm.refl _
  freed := by
    simp [start, Log.freedUnits, hsound.filterMap_nothing hcontains quiet_freedUnit]
  allocated := by
    simp [start, Log.allocatedUnits, hsound.filterMap_nothing hcontains quiet_allocatedUnit]

end Trans

/-- A transaction starts with a log without items. -/
theorem allocs_conserved {log : Log} {old : List Unit} {ops : List TransOp}
    (hsound : log.Sound) (hcontains : log.contains = 0) (hold : old.Nodup)
    (hmeets : Run.Meets transStep TransOk (.start log old) ops) :
    Run.Always transStep (Trans.Conserves old) (.start log old) ops :=
  Run.always_of_invariant (Trans.Accounted old) (fun _ haccounted => haccounted.conserves)
    (fun _ _ haccounted hok => haccounted.step hok)
    (Trans.accounted_start hsound hcontains hold) hmeets

theorem allocs_conserved_initial :
    Run.Always transStep (Trans.Conserves [.page 5, .piece 9 4 8]) (.start .initial
        [.page 5, .piece 9 4 8])
      [.allocBlock 6, .getPiece 7 2 4 true true, .freePiece 9 4 8, .freeBlock 5,
        .setSapos true, .freeBlock 6, .setSapos false, .allocBlock 8, .freeBlock 8,
        .allocBlock 8, .lockTable 3, .recordInserted 3 1, .recordReleased 3 1,
        .tableDeleted 3, .freePiece 7 2 4] :=
  allocs_conserved Log.sound_initial rfl (by decide) (by decide)

/-- A piece whose page cannot be fixed is neither registered nor released. -/
theorem getPiece_leaks :
    ¬ Run.Always transStep (Trans.Conserves []) (.start .initial [])
      [.getPiece 7 2 4 false false] := by
  intro halways
  have hleft := halways.2.2.left
  exact absurd hleft.length_eq (by decide)

end Sql602.TransLog
