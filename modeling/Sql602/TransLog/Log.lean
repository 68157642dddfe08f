import Mathlib.Algebra.Group.Nat.Defs
import Sql602.Library.Run
import Sql602.Library.Probing

namespace Sql602.TransLog

/-! The hash table of a transaction log. Removed items are replaced by items
that are marked as invalid; the tag says how the other members are read. -/

inductive Tag where
  | empty
  | lock
  | insrec
  | delrec
  | inval
  | change
  | allocPage
  | freePage
  | allocPiece
  | freePiece
  deriving DecidableEq

def Tag.value : Tag → Nat
  | empty => 0xffffffff
  | lock => 0xfffffffd
  | insrec => 0xfffffffb
  | delrec => 0xfffffffa
  | inval => 0xfffffff9
  | change => 0xfffffff7
  | allocPage => 0xfffffff6
  | freePage => 0xfffffff5
  | allocPiece => 0xfffffff4
  | freePiece => 0xfffffff3

/-- The map of changed records of a page; `none` is a private page without
changes. -/
inductive ChangeMap where
  | none
  | full
  | index
  | records (recsize : Nat) (changed : List Nat)
  deriving DecidableEq

inductive ItemInfo where
  | recnum (recnum : Nat)
  | act (offs32 len32 : Nat)
  | chngmap (map : ChangeMap)
  deriving DecidableEq

structure LogItem where
  tag : Tag
  block : Nat
  info : ItemInfo
  deriving DecidableEq

namespace LogItem

def invalid (item : LogItem) : Bool := item.tag == .inval

def isEmpty (item : LogItem) : Bool := item.tag == .empty

def isChange (item : LogItem) : Bool := item.tag == .change

def isAlloc (item : LogItem) : Bool :=
  item.tag == .allocPage || item.tag == .freePage || item.tag == .allocPiece ||
    item.tag == .freePiece

def invalidate (item : LogItem) : LogItem := { item with tag := .inval }

def isEntry (item : LogItem) : Bool := !item.isEmpty && !item.invalid

def empty : LogItem := ⟨.empty, 2 ^ 32 - 1, .recnum (2 ^ 32 - 1)⟩

def hashKey (item : LogItem) : Nat :=
  let x := item.tag.value ^^^ item.block
  match item.tag, item.info with
  | .insrec, .recnum recnum => x ^^^ recnum
  | .delrec, .recnum recnum => x ^^^ recnum
  | _, _ => x

def hashf (tablesize : Nat) (item : LogItem) : Nat :=
  117 * item.hashKey % 2 ^ 32 % tablesize

end LogItem

def logScheme : Probing.Scheme LogItem where
  isEmpty := LogItem.isEmpty
  isEntry := LogItem.isEntry
  home := LogItem.hashf
  nonempty_of_entry := by
    intro item hentry
    simp only [LogItem.isEntry, Bool.and_eq_true] at hentry
    simpa using hentry.1

def MINIMAL_HTABLE_SIZE : Nat := 7
def HTABLE_PRESERVE_LIMIT : Nat := 7
def BLOCKSIZE : Nat := 4096
def k32 : Nat := 128

structure Log where
  htable : List LogItem
  contains : Nat
  limitsize : Nat
  anySapos : Bool
  hasPageTempLock : Bool
  deriving DecidableEq

namespace Log

def initial : Log where
  htable := List.replicate MINIMAL_HTABLE_SIZE LogItem.empty
  contains := 0
  limitsize := MINIMAL_HTABLE_SIZE - 1
  anySapos := false
  hasPageTempLock := false

def tablesize (log : Log) : Nat := log.htable.length

def home (log : Log) (item : LogItem) : Nat := item.hashf log.tablesize

/-- Writes an item to a cell that is invalid or empty. -/
def write (log : Log) (ind : Nat) (item : LogItem) : Log :=
  { log with
    htable := log.htable.set ind item
    contains :=
      if (log.htable[ind]?).any LogItem.isEmpty then log.contains + 1 else log.contains }

def moveItem (htable : List LogItem) (item : LogItem) : List LogItem :=
  if item.isEntry then
    match logScheme.slot htable (item.hashf htable.length) with
    | none => htable
    | some nind => htable.set nind item
  else htable

def growTable (log : Log) : Log :=
  let newTablesize := 3 * log.tablesize
  { log with
    htable := log.htable.foldl moveItem (List.replicate newTablesize LogItem.empty)
    contains := log.htable.countP LogItem.isEntry
    limitsize := newTablesize * 4 / 5 }

def minimize (log : Log) : Log :=
  { log with
    htable := List.replicate MINIMAL_HTABLE_SIZE LogItem.empty
    limitsize := MINIMAL_HTABLE_SIZE - 1 }

def chain (log : Log) (item : LogItem) : List Nat := logScheme.chain log.htable (log.home item)

def find (log : Log) (item : LogItem) (wanted : LogItem → Bool) : Option Nat :=
  (log.chain item).find? fun ind => (log.htable[ind]?).any wanted

def modifyItem (log : Log) (ind : Nat) (change : LogItem → LogItem) : Log :=
  { log with htable := log.htable.modify ind change }

/-- The first cell on the way that may be written to. -/
def firstSlot (log : Log) (item : LogItem) : Option Nat :=
  logScheme.slot log.htable (log.home item)

/-- The last invalid cell on the way or else the empty cell at its end. -/
def lastSlot (log : Log) (item : LogItem) : Option Nat :=
  let passed := (log.chain item).filter fun ind => (log.htable[ind]?).any LogItem.invalid
  match passed.getLast? with
  | some inv => some inv
  | none =>
      (Probing.order log.tablesize (log.home item)).find? fun ind =>
        (log.htable[ind]?).any LogItem.isEmpty

/-- Writes to the cell unless it is empty and the table has to grow first. -/
def writeUnlessFull (log : Log) (slot : Option Nat) (item : LogItem) : Option Log :=
  slot.bind fun ind =>
    if (log.htable[ind]?).any LogItem.isEmpty && decide (log.contains ≥ log.limitsize) then none
    else some (log.write ind item)

/-- An attempt that fails because the table is full is made again in a bigger
table. -/
def redo {α : Type} (log : Log) (attempt : Log → Option (α × Log)) (failed : α) : α × Log :=
  match attempt log with
  | some result => result
  | none => (attempt log.growTable).getD (failed, log.growTable)

def isItem (tag : Tag) (block : Nat) (item : LogItem) : Bool :=
  item.tag == tag && item.block == block

def isRecord (tag : Tag) (tabnum rec : Nat) (item : LogItem) : Bool :=
  item.tag == tag && item.block == tabnum && item.info == .recnum rec

def registerObject (log : Log) (objnum : Nat) (tag : Tag) : Log :=
  let itm : LogItem := ⟨tag, objnum, .recnum 0⟩
  (log.redo (fun log =>
    match log.find itm (isItem tag objnum) with
    | some _ => some ((), log)
    | none => (log.writeUnlessFull (log.lastSlot itm) itm).map fun log => ((), log)) ()).2

def unregisterObject (log : Log) (objnum : Nat) (tag : Tag) : Log :=
  match log.find ⟨tag, objnum, .recnum 0⟩ (isItem tag objnum) with
  | some ind => log.modifyItem ind LogItem.invalidate
  | none => log

def ChangeMap.start (recsize recpos : Nat) : ChangeMap :=
  if recsize ≥ BLOCKSIZE then .full else .records recsize [recpos]

def ChangeMap.add (recsize recpos : Nat) : ChangeMap → ChangeMap
  | .none => ChangeMap.start recsize recpos
  | .full => .full
  | .index => .index
  | .records size changed =>
      if size = recsize then .records size (changed.insert recpos)
      else ChangeMap.start recsize recpos

def mapItem (change : ChangeMap → ChangeMap) (item : LogItem) : LogItem :=
  match item.info with
  | .chngmap map => { item with info := .chngmap (change map) }
  | _ => item

/-- The three functions that register a change of a page find its item or add
one, and differ in the map that they leave in it. -/
def registerChange (log : Log) (dadr : Nat) (change : ChangeMap → ChangeMap)
    (start : ChangeMap) : Log :=
  let itm : LogItem := ⟨.change, dadr, .chngmap start⟩
  (log.redo (fun log =>
    match log.find itm (isItem .change dadr) with
    | some ind => some ((), log.modifyItem ind (mapItem change))
    | none => (log.writeUnlessFull (log.lastSlot itm) itm).map fun log => ((), log)) ()).2

def recChanged (log : Log) (dadr recsize recpos : Nat) : Log :=
  log.registerChange dadr (ChangeMap.add recsize recpos) (ChangeMap.start recsize recpos)

def pageChanged2 (log : Log) (dadr : Nat) (map : ChangeMap) : Log :=
  log.registerChange dadr (fun _ => map) map

def pagePrivate (log : Log) (dadr : Nat) : Log :=
  log.registerChange dadr id .none

def pieceChanged (log : Log) (dadr offs32 len32 : Nat) : Log :=
  (List.range len32).foldl (fun log i => log.recChanged dadr k32 (offs32 + i)) log

def invalidateWhere (log : Log) (inds : List Nat) (wanted : LogItem → Bool) : Log :=
  inds.foldl (fun log ind =>
    log.modifyItem ind fun item => if wanted item then item.invalidate else item) log

def dropPageChanges (log : Log) (dadr : Nat) : Log :=
  log.invalidateWhere (log.chain ⟨.change, dadr, .recnum 0⟩) (isItem .change dadr)

def pageAllocated (log : Log) (dadr : Nat) : Log :=
  (log.redo (fun log =>
    let freed := if log.anySapos then none
      else log.find ⟨.freePage, dadr, .recnum 0⟩ (isItem .freePage dadr)
    match freed with
    | some ind => some ((), log.modifyItem ind LogItem.invalidate)
    | none =>
        let itm : LogItem := ⟨.allocPage, dadr, .recnum 0⟩
        (log.writeUnlessFull (log.firstSlot itm) itm).map fun log => ((), log)) ()).2

/-- True when the page was allocated in the same transaction. -/
def pageDeallocated (log : Log) (dadr : Nat) : Bool × Log :=
  log.redo (fun log =>
    let allocated := if log.anySapos then none
      else log.find ⟨.allocPage, dadr, .recnum 0⟩ (isItem .allocPage dadr)
    match allocated with
    | some ind => some (true, log.modifyItem ind LogItem.invalidate)
    | none =>
        let itm : LogItem := ⟨.freePage, dadr, .recnum 0⟩
        (log.writeUnlessFull (log.firstSlot itm) itm).map fun log => (false, log)) false

def registerPiece (log : Log) (tag : Tag) (dadr len32 offs32 : Nat) : Log :=
  let itm : LogItem := ⟨tag, dadr, .act offs32 len32⟩
  (log.redo (fun log =>
    (log.writeUnlessFull (log.firstSlot itm) itm).map fun log => ((), log)) ()).2

def pieceAllocated (log : Log) (dadr len32 offs32 : Nat) : Log :=
  log.registerPiece .allocPiece dadr len32 offs32

/-- The source answers that the piece was not allocated in the transaction. -/
def pieceDeallocated (log : Log) (dadr len32 offs32 : Nat) : Bool × Log :=
  (false, log.registerPiece .freePiece dadr len32 offs32)

def addRecord (log : Log) (tag : Tag) (tabnum rec : Nat) : Log :=
  let itm : LogItem := ⟨tag, tabnum, .recnum rec⟩
  let log := if log.contains ≥ log.limitsize then log.growTable else log
  match log.firstSlot itm with
  | none => log
  | some ind => log.write ind itm

def recordInserted (log : Log) (tabnum rec : Nat) : Log :=
  match log.find ⟨.delrec, tabnum, .recnum rec⟩ (isRecord .delrec tabnum rec) with
  | some ind => log.modifyItem ind LogItem.invalidate
  | none => log.addRecord .insrec tabnum rec

def dropRecordInsInfo (log : Log) (tabnum rec : Nat) : Log :=
  match log.find ⟨.insrec, tabnum, .recnum rec⟩ (isRecord .insrec tabnum rec) with
  | some ind => log.modifyItem ind LogItem.invalidate
  | none => log

def recordReleased (log : Log) (tabnum rec : Nat) : Log :=
  log.addRecord .delrec tabnum rec

def isOfTable (tabnum : Nat) (item : LogItem) : Bool :=
  item.block == tabnum && (item.tag == .delrec || item.tag == .insrec || item.tag == .lock)

def tableDeleted (log : Log) (tabnum : Nat) : Log :=
  if log.contains ≠ 0 then log.invalidateWhere (List.range log.tablesize) (isOfTable tabnum)
  else log

end Log

/-! Units of disk space: a page, or a piece of a block. -/

inductive Unit where
  | page (dadr : Nat)
  | piece (dadr len32 offs32 : Nat)
  deriving DecidableEq

/-- What the end of a transaction releases: units of disk space, the temporary
locks of tables and of pages, and the record numbers that become free. -/
structure Ended where
  units : List Unit
  tables : List Nat
  records : List (Nat × Nat)
  pageLocks : Bool
  deriving DecidableEq

def LogItem.unit (page piece : Tag) (item : LogItem) : Option Unit :=
  if item.tag = piece then
    match item.info with
    | .act offs32 len32 => some (.piece item.block len32 offs32)
    | _ => none
  else if item.tag = page then some (.page item.block)
  else none

def LogItem.record (tag : Tag) (item : LogItem) : Option (Nat × Nat) :=
  if item.tag = tag then
    match item.info with
    | .recnum recnum => some (item.block, recnum)
    | _ => none
  else none

namespace Log

/-- The loop that ends a transaction, for the tags that it releases. -/
def endAllocs (log : Log) (page piece rec : Tag) : Ended × Log :=
  let ended : Ended :=
    if log.contains ≠ 0 then
      { units := log.htable.filterMap (LogItem.unit page piece)
        tables := log.htable.filterMap fun item =>
          if item.tag = .lock then some item.block else none
        records := log.htable.filterMap (LogItem.record rec)
        pageLocks := log.hasPageTempLock }
    else ⟨[], [], [], log.hasPageTempLock⟩
  let log :=
    if log.contains ≠ 0 then
      { log with
        htable := log.htable.map fun item =>
          if item.isEmpty then item else { item with tag := .empty }
        contains := 0 }
    else log
  let log := if log.tablesize > HTABLE_PRESERVE_LIMIT then log.minimize else log
  (ended, { log with hasPageTempLock := false })

def commitAllocs (log : Log) : Ended × Log :=
  log.endAllocs .freePage .freePiece .delrec

def rollbackAllocs (log : Log) : Ended × Log :=
  log.endAllocs .allocPage .allocPiece .insrec

end Log

end Sql602.TransLog
