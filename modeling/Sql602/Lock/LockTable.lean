import Mathlib.Algebra.Group.Nat.Defs
import Sql602.Library.Run
import Sql602.Library.Probing

namespace Sql602.Lock

/-! The hash table of locks of one table, or of the pages. An object is the
number of a record or page; `FULLTABLE` stands for all records. Two more numbers
are reserved and mark the cells that hold no lock. -/

inductive LockType where
  | rlock
  | wlock
  | tmpwlock
  | tmprlock
  deriving DecidableEq

namespace LockType

/-- The test against the mask `RLOCK | TMPRLOCK`. -/
def isRead : LockType → Bool
  | rlock | tmprlock => true
  | wlock | tmpwlock => false

def isTemporary : LockType → Bool
  | tmpwlock | tmprlock => true
  | rlock | wlock => false

/-- A lock of one's own that makes a new temporary lock superfluous. -/
def contains : LockType → LockType → Bool
  | wlock, tmpwlock | tmpwlock, tmpwlock | tmprlock, tmprlock => true
  | _, _ => false

end LockType

def FULLTABLE : Nat := 2 ^ 32 - 1
def EMPTY_CELL : Nat := 2 ^ 32 - 2
def INVALID_CELL : Nat := 2 ^ 32 - 3

structure LockCell where
  owner : Nat
  locktype : LockType
  object : Nat
  deriving DecidableEq

namespace LockCell

def isValid (cell : LockCell) : Bool :=
  cell.object != INVALID_CELL && cell.object != EMPTY_CELL

def invalidate (cell : LockCell) : LockCell := { cell with object := INVALID_CELL }

def isEmpty (cell : LockCell) : Bool := cell.object == EMPTY_CELL

def empty : LockCell := ⟨0, .rlock, EMPTY_CELL⟩

@[simp] theorem isValid_invalidate (cell : LockCell) : cell.invalidate.isValid = false := by
  simp [isValid, invalidate]

@[simp] theorem isEmpty_invalidate (cell : LockCell) : cell.invalidate.isEmpty = false := by
  simp [isEmpty, invalidate, INVALID_CELL, EMPTY_CELL]

theorem isEmpty_of_isValid {cell : LockCell} (hvalid : cell.isValid = true) :
    cell.isEmpty = false := by
  simp only [isValid, Bool.and_eq_true, bne_iff_ne] at hvalid
  simpa [isEmpty] using hvalid.2

end LockCell

structure LockTable where
  locks : List LockCell
  validCells : Nat
  usedCells : Nat
  deriving DecidableEq

def INITIAL_SIZE : Nat := 6

def hash (tableSize object : Nat) : Nat := 17 * object % 2 ^ 32 % tableSize

def lockScheme : Probing.Scheme LockCell where
  isEmpty := LockCell.isEmpty
  isEntry := LockCell.isValid
  home := fun tableSize cell => hash tableSize cell.object
  nonempty_of_entry := fun _ hvalid => LockCell.isEmpty_of_isValid hvalid

namespace LockTable

def tableSize (table : LockTable) : Nat := table.locks.length

def noSpaceForNewLock (table : LockTable) : Bool :=
  decide (table.validCells ≥ table.tableSize / 4 * 3) ||
    decide (table.usedCells ≥ table.tableSize / 5 * 4)

def biggerTableSize (table : LockTable) : Nat :=
  if table.tableSize ≠ 0 then 2 * table.tableSize else INITIAL_SIZE

def isAlmostEmpty (table : LockTable) : Bool :=
  decide (table.validCells ≤ 3) && decide (table.tableSize > INITIAL_SIZE)

def anyLock (table : LockTable) : Bool := decide (table.validCells > 0)

/-- The cells that `find_first_cell` and `find_next_cell` pass for an object. -/
def passed (table : LockTable) (object : Nat) : List LockCell :=
  lockScheme.visited table.locks (hash table.tableSize object)

/-- A table without a free cell would keep the search of the source going. -/
def insert (table : LockTable) (object owner : Nat) (locktype : LockType) : LockTable :=
  match lockScheme.slot table.locks (hash table.tableSize object) with
  | none => table
  | some ind =>
      { locks := table.locks.set ind ⟨owner, locktype, object⟩
        validCells := table.validCells + 1
        usedCells :=
          if (table.locks[ind]?).any LockCell.isEmpty then table.usedCells + 1
          else table.usedCells }

/-- `memory` tells whether the new table can be allocated. -/
def resize (table : LockTable) (tableSizeIn : Nat) (memory : Bool) : Option LockTable :=
  if !memory then none
  else
    let fresh : LockTable := ⟨List.replicate tableSizeIn LockCell.empty, 0, 0⟩
    if table.validCells > 0 then
      some <| table.locks.foldl (fun new cell =>
        if cell.isValid then new.insert cell.object cell.owner cell.locktype else new) fresh
    else some fresh

inductive Verdict where
  | contained
  | blocked (owner : Nat)
  deriving DecidableEq

def scanFulltable (owner : Nat) (locktype : LockType) : List LockCell → Option Verdict
  | [] => none
  | cell :: cells =>
      if cell.object = FULLTABLE then
        if cell.owner ≠ owner then
          if !cell.locktype.isRead || !locktype.isRead then some (.blocked cell.owner)
          else scanFulltable owner locktype cells
        else if cell.locktype.contains locktype then some .contained
        else scanFulltable owner locktype cells
      else scanFulltable owner locktype cells

def scanAll (owner : Nat) (locktype : LockType) : List LockCell → Option Verdict
  | [] => none
  | cell :: cells =>
      if cell.isValid ∧ cell.object ≠ FULLTABLE ∧ cell.owner ≠ owner ∧
          (!cell.locktype.isRead || !locktype.isRead) then some (.blocked cell.owner)
      else scanAll owner locktype cells

/-- In the tables of tables and of objects a client may not have both a read
lock and a write lock on one record. -/
def scanRecord (owner : Nat) (tabOrObj : Bool) (record : Nat) (locktype : LockType) :
    List LockCell → Option Verdict
  | [] => none
  | cell :: cells =>
      if cell.object = record then
        if cell.owner ≠ owner then
          if !cell.locktype.isRead || !locktype.isRead then some (.blocked cell.owner)
          else scanRecord owner tabOrObj record locktype cells
        else if tabOrObj ∧ (locktype = .wlock ∧ cell.locktype = .rlock ∨
            locktype = .rlock ∧ cell.locktype = .wlock) then some (.blocked cell.owner)
        else if cell.locktype.contains locktype then some .contained
        else scanRecord owner tabOrObj record locktype cells
      else scanRecord owner tabOrObj record locktype cells

/-- `none` says that the lock can and must be added. -/
def tryLocking (table : LockTable) (owner : Nat) (tabOrObj : Bool) (record : Nat)
    (locktype : LockType) : Option Verdict :=
  if table.anyLock then
    match scanFulltable owner locktype (table.passed FULLTABLE) with
    | some verdict => some verdict
    | none =>
        if record = FULLTABLE then scanAll owner locktype table.locks
        else scanRecord owner tabOrObj record locktype (table.passed record)
  else none

inductive LockResult where
  | locked
  | noMemory
  | blocked (owner : Nat)
  deriving DecidableEq

def addLock (table : LockTable) (owner : Nat) (tabOrObj : Bool) (record : Nat)
    (locktype : LockType) (memory : Bool) : LockResult × LockTable :=
  match table.tryLocking owner tabOrObj record locktype with
  | some .contained => (.locked, table)
  | some (.blocked other) => (.blocked other, table)
  | none =>
      if !table.noSpaceForNewLock then (.locked, table.insert record owner locktype)
      else
        match table.resize table.biggerTableSize memory with
        | none => (.noMemory, table)
        | some table => (.locked, table.insert record owner locktype)

/-- The type to be removed; `none` is `ANY_LOCK`. -/
def removable (owner record : Nat) (locktype : Option LockType) (cell : LockCell) : Bool :=
  cell.object == record && cell.owner == owner &&
    (locktype.all fun locktype => cell.locktype == locktype)

def findLock (table : LockTable) (owner record : Nat) (locktype : Option LockType) :
    Option Nat :=
  if table.anyLock then
    (lockScheme.chain table.locks (hash table.tableSize record)).find? fun ind =>
      (table.locks[ind]?).any (removable owner record locktype)
  else none

/-- An explicitly removed write lock becomes a temporary one. -/
def removeLock (table : LockTable) (owner record : Nat) (locktype : Option LockType) :
    LockTable :=
  match table.findLock owner record locktype with
  | none => table
  | some ind =>
      if locktype ≠ some .wlock then
        { table with
          locks := table.locks.modify ind LockCell.invalidate
          validCells := table.validCells - 1 }
      else
        { table with
          locks := table.locks.modify ind fun cell => { cell with locktype := .tmpwlock } }

def invalidateAll (table : LockTable) (selected : LockCell → Bool) : LockTable :=
  { table with
    locks := table.locks.map fun cell =>
      if cell.isValid && selected cell then cell.invalidate else cell
    validCells := table.validCells -
      table.locks.countP fun cell => cell.isValid && selected cell }

def removeMyTmplocks (table : LockTable) (owner : Nat) (memory : Bool) : LockTable :=
  if table.anyLock then
    let table := table.invalidateAll fun cell =>
      cell.owner == owner && cell.locktype.isTemporary
    if table.isAlmostEmpty then (table.resize INITIAL_SIZE memory).getD table else table
  else table

def unlockUserTab (table : LockTable) (owner : Nat) : LockTable :=
  if table.anyLock then table.invalidateAll fun cell => cell.owner == owner else table

end LockTable

/-! The locks that the clients have been granted and have not given back, beside
the table that has to know them. -/

structure LockState where
  table : LockTable
  held : List LockCell
  deriving DecidableEq

inductive LockOp where
  | recordLock (owner : Nat) (tabOrObj : Bool) (record : Nat) (locktype : LockType)
      (memory : Bool)
  | recordUnlock (owner record : Nat) (locktype : Option LockType)
  | removeMyTmplocks (owner : Nat) (memory : Bool)
  | unlockUserTab (owner : Nat)
  deriving DecidableEq

def lockStep (state : LockState) : LockOp → LockState
  | .recordLock owner tabOrObj record locktype memory =>
      let (result, table) := state.table.addLock owner tabOrObj record locktype memory
      let added := result = .locked ∧
        state.table.tryLocking owner tabOrObj record locktype = none
      ⟨table, if added then ⟨owner, locktype, record⟩ :: state.held else state.held⟩
  | .recordUnlock owner record locktype =>
      let found := (state.table.findLock owner record locktype).bind
        fun ind => state.table.locks[ind]?
      ⟨state.table.removeLock owner record locktype,
        match found with
        | none => state.held
        | some lock =>
            if locktype ≠ some .wlock then state.held.erase lock
            else { lock with locktype := .tmpwlock } :: state.held.erase lock⟩
  | .removeMyTmplocks owner memory =>
      ⟨state.table.removeMyTmplocks owner memory,
        state.held.filter fun lock => !(lock.owner == owner && lock.locktype.isTemporary)⟩
  | .unlockUserTab owner =>
      ⟨state.table.unlockUserTab owner, state.held.filter fun lock => !(lock.owner == owner)⟩

end Sql602.Lock
