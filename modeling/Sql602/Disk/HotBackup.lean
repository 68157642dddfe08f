import Mathlib.Logic.Function.Basic
import Sql602.Library.Files

namespace Sql602.Disk

open Files

/-! The hot backup. While the database file is copied, written blocks go to the
auxiliary file; a record of it is the number of a block and its contents. What a
file operation achieves is an argument: `written` is the count of bytes that reach
the file, and a read may fail. -/

structure DbFile where
  size : Nat
  blocks : Nat → List UInt8

/-- `list` has the block numbers of the records of the auxiliary file `hnd`. -/
structure BackupSupport where
  hnd : File
  list : List Nat
  start : Nat
  phase2 : Bool
  newDbFileSize : Nat

structure Ffa where
  db : DbFile
  backupSupport : Option BackupSupport

def writeFile (file : File) (pos : Nat) (data : List UInt8) (written : Nat) : Bool × File :=
  (decide (data.length ≤ written), file.write pos (data.take written))

/-- The block number of a record that is not valid any more. -/
def invalidBlock : Nat := 2 ^ 32 - 1

def blockHead (blocknum : Nat) : List UInt8 := (List.range 4).map (Bytes.byteOf blocknum)

def place (blockSize pos : Nat) : Nat := pos * (4 + blockSize)

namespace BackupSupport

variable (blockSize : Nat) (support : BackupSupport)

/-- The search starts behind the records that are copied to the database file. -/
def find (blocknum : Nat) : Nat :=
  support.start + (support.list.drop support.start).findIdx (· == blocknum)

/-- `added` tells whether there is memory for a new member of the list. The result
is false on error. -/
def writeBlock (blocknum : Nat) (ptr : List UInt8) (added : Bool) (head data : Nat) :
    Bool × BackupSupport :=
  let pos := support.find blocknum
  if pos = support.list.length ∧ added = false then (false, support)
  else
    let list := if pos = support.list.length then support.list ++ [blocknum] else support.list
    let headed := writeFile support.hnd (place blockSize pos) (blockHead blocknum) head
    if ¬ headed.1 then (false, { support with list, hnd := headed.2 })
    else
      let written := writeFile headed.2 (place blockSize pos + 4) ptr data
      (written.1, { support with list, hnd := written.2 })

def invalidateBlock (blocknum head : Nat) : BackupSupport :=
  let pos := support.find blocknum
  if pos = support.list.length then support
  else
    { support with
      list := support.list.set pos invalidBlock
      hnd := (writeFile support.hnd (place blockSize pos) (blockHead invalidBlock) head).2 }

def rd (pos : Nat) (readable : Bool) : Option (List UInt8) :=
  if readable then support.hnd.read (place blockSize pos + 4) blockSize else none

/-- Without a result the block must be read from the database file. -/
def readBlock (blocknum : Nat) (readable : Bool) : Option (List UInt8) :=
  if support.find blocknum = support.list.length then none
  else support.rd blockSize (support.find blocknum) readable

/-- After `count` records the next read fails. -/
def restoreList (hnd : File) : Nat → Nat → List Nat
  | 0, _ => []
  | count + 1, start =>
      match hnd.read (place blockSize start) 4 with
      | none => []
      | some head => Digits.value head :: restoreList hnd count (start + 1)

def prepare (restoring : Option (File × Nat)) (fileBlockCount : Nat) : BackupSupport where
  hnd := match restoring with
    | none => File.empty
    | some (hnd, _) => hnd
  list := match restoring with
    | none => []
    | some (hnd, count) => restoreList blockSize hnd count 0
  start := 0
  phase2 := false
  newDbFileSize := fileBlockCount

end BackupSupport

def DbFile.encWriteBlock (db : DbFile) (blocknum : Nat) (adr : List UInt8) (written : Bool) :
    Bool × DbFile :=
  if written then
    (false,
      { size := max db.size (blocknum + 1), blocks := Function.update db.blocks blocknum adr })
  else (true, db)

/-- `unwritten` stands for a block of the part that the database file gets only
after the backup. -/
inductive ReadResult where
  | error
  | unwritten
  | contents (block : List UInt8)
  deriving DecidableEq

namespace Ffa

variable (blockSize : Nat) (ffa : Ffa)

def dbRead (blocknum : Nat) (readable : Bool) : ReadResult :=
  if blocknum < ffa.db.size ∧ readable = true then .contents (ffa.db.blocks blocknum) else .error

def rawReadBlock (blocknum : Nat) (auxReadable readable : Bool) : ReadResult :=
  match ffa.backupSupport with
  | none => ffa.dbRead blocknum readable
  | some support =>
      match support.readBlock blockSize blocknum auxReadable with
      | some block => .contents block
      | none =>
          if ffa.db.size ≤ blocknum ∧ blocknum < support.newDbFileSize then .unwritten
          else ffa.dbRead blocknum readable

/-- The result starts with the error flag. -/
def rawWriteBlock (blocknum : Nat) (adr : List UInt8) (added : Bool) (head data : Nat)
    (written : Bool) : Bool × Ffa :=
  match ffa.backupSupport with
  | none =>
      let wr := ffa.db.encWriteBlock blocknum adr written
      (wr.1, { ffa with db := wr.2 })
  | some support =>
      if ¬ support.phase2 then
        let wr := support.writeBlock blockSize blocknum adr added head data
        (!wr.1, { ffa with backupSupport := some wr.2 })
      else
        let wr := ffa.db.encWriteBlock blocknum adr written
        (wr.1,
          { db := wr.2, backupSupport := some (support.invalidateBlock blockSize blocknum head) })

/-- Outside a backup the file grows at once. -/
def extendDatabaseIfOutside (maxPhysBlock : Nat) (grown : Bool) : Ffa :=
  match ffa.backupSupport with
  | some support =>
      if support.newDbFileSize ≤ maxPhysBlock then
        { ffa with backupSupport := some { support with newDbFileSize := maxPhysBlock + 1 } }
      else ffa
  | none =>
      if ffa.db.size ≤ maxPhysBlock ∧ grown = true then
        { ffa with db := { ffa.db with size := maxPhysBlock + 1 } }
      else ffa

/-- The beginning of `synchronize`, in one critical section. -/
def startPhase2 (support : BackupSupport) (expanded : Bool) : Ffa where
  db :=
    if ffa.db.size < support.newDbFileSize ∧ expanded = true then
      { ffa.db with size := support.newDbFileSize }
    else ffa.db
  backupSupport := some { support with phase2 := true, start := 0 }

/-- The database file after the first part of one turn of the loop. -/
def copyBlock (support : BackupSupport) (readable written : Bool) : DbFile :=
  match support.list[support.start]? with
  | none => ffa.db
  | some blk =>
      if blk = invalidBlock then ffa.db
      else
        match support.rd blockSize support.start readable with
        | none => ffa.db
        | some buf => (ffa.db.encWriteBlock blk buf written).2

end Ffa

/-- The second part: the record is removed from the file and from the list. -/
def BackupSupport.removeRecord (blockSize : Nat) (support : BackupSupport) (head : Nat) :
    BackupSupport :=
  if support.list[support.start]? = some invalidBlock then
    { support with start := support.start + 1 }
  else
    { support with
      list := support.list.set support.start invalidBlock
      hnd := (writeFile support.hnd (place blockSize support.start) (blockHead invalidBlock) head).2
      start := support.start + 1 }

end Sql602.Disk
