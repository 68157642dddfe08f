import Mathlib.Algebra.Group.Nat.Defs
import Mathlib.Data.Finset.Erase
import Mathlib.Data.Finset.Insert
import Mathlib.Logic.Function.Basic
import Sql602.Library.Run

namespace Sql602.Table

open Function

/-! The blocks of a table. Its basic block lists the data blocks, or, when there are
too many of them, secondary blocks that list them. -/

/-- A table as far as its blocks depend on it. A permanent table has no transaction log
of its own; the pages of a temporary one are private. -/
structure TableShape where
  BLOCKSIZE : Nat
  multpage : Bool
  rectopage : Nat
  recordsize : Nat
  tbnum : Int
  large : 116 ≤ BLOCKSIZE
  filled : 0 < rectopage

namespace TableShape

variable (table : TableShape)

/-- The basic block has a header of 116 bytes, the first block number included. -/
def MAX_BAS_ADDRS : Nat := (table.BLOCKSIZE - 116 + 4) / 4

def DADRS_PER_BLOCK : Nat := table.BLOCKSIZE / 4

def MAX_BLOCK_COUNT_PER_TABLE : Nat := table.MAX_BAS_ADDRS * (table.BLOCKSIZE / 4)

def recordCount2blockCount (recordCount : Nat) : Nat :=
  if recordCount = 0 then 0
  else if table.multpage then table.rectopage * recordCount % 2 ^ 32
  else (recordCount - 1) / table.rectopage + 1

end TableShape

structure BasTblBlock where
  diraddr : Bool
  nbnums : Nat
  recnum : Nat
  databl : Nat → Nat

/-- The pages and the memory copy of a table, with the blocks taken from the disk space, the
calls of `free_alpha_block`, the last one first, and how many times the client is inside
the critical section of the allocation. -/
structure TableBlocks where
  basblock : BasTblBlock
  copy : BasTblBlock
  secondary : Nat → Nat → Nat
  taken : Finset Nat
  freed : List Nat
  entered : Int

/-- The number of a data block in the list of the basic block. -/
def dataBlock (table : TableShape) (basbl : BasTblBlock) (secondary : Nat → Nat → Nat)
    (blnum : Nat) : Nat :=
  if basbl.diraddr then basbl.databl blnum
  else secondary (basbl.databl (blnum / table.DADRS_PER_BLOCK)) (blnum % table.DADRS_PER_BLOCK)

def blockNumber (table : TableShape) (recnum colPage : Nat) : Nat :=
  if table.multpage then (recnum * table.rectopage + colPage) % 2 ^ 32
  else recnum / table.rectopage

/-- `ACCESS_COL_VAL`, when the pages can be fixed: the data block, the offset of the record
in it and its number there. -/
def accessColVal (table : TableShape) (state : TableBlocks) (recnum colPage : Nat) :
    Option (Nat × Nat × Nat) :=
  let blnum := blockNumber table recnum colPage
  let pgrec := if table.multpage then 0 else recnum % table.rectopage
  let section' := if state.copy.diraddr then blnum else blnum / table.DADRS_PER_BLOCK
  let datadadr := dataBlock table state.copy state.secondary blnum
  if state.copy.nbnums ≤ section' ∨ datadadr = 0 then none
  else some (datadadr, if table.multpage then 0 else table.recordsize * pgrec, pgrec)

/-- What the disk space and the frames answer when a block is asked for. -/
inductive Supply
  | exhausted
  | noFrame (dadr : Nat)
  | block (dadr : Nat)
  deriving DecidableEq

def Supply.dadr? : Supply → Option Nat
  | exhausted => none
  | noFrame dadr => some dadr
  | block dadr => some dadr

/-- A secondary block that is open for changes. -/
structure Opened where
  blocknumsNum : Nat
  dadr : Nat
  blocknums : Nat → Nat

/-- `expand_table_blocks` between its statements. The changes of the open secondary block
are written when it is closed. -/
structure Expansion where
  basbl : BasTblBlock
  secondary : Nat → Nat → Nat
  opened : Option Opened
  taken : Finset Nat
  supplies : List Supply

inductive Exit
  | err1
  | err2
  deriving DecidableEq

namespace Expansion

def allocAlphaBlock (work : Expansion) : Option Nat × Expansion :=
  match work.supplies with
  | [] => (none, work)
  | .exhausted :: rest => (none, { work with supplies := rest })
  | .noFrame dadr :: rest =>
      (some dadr, { work with taken := insert dadr work.taken, supplies := rest })
  | .block dadr :: rest =>
      (some dadr, { work with taken := insert dadr work.taken, supplies := rest })

/-- A block whose page cannot be fixed remains taken. -/
def accessNewBlock (work : Expansion) : Option Nat × Expansion :=
  match work.supplies with
  | .noFrame dadr :: rest =>
      (none, { work with taken := insert dadr work.taken, supplies := rest })
  | _ => work.allocAlphaBlock

def allocAndFormatDataBlock (table : TableShape) (blocknum : Nat) (work : Expansion) :
    Option Nat × Expansion :=
  if table.multpage ∧ blocknum % table.rectopage ≠ 0 then work.allocAlphaBlock
  else work.accessNewBlock

def close (work : Expansion) : Expansion :=
  match work.opened with
  | none => work
  | some b2 =>
      { work with secondary := update work.secondary b2.dadr b2.blocknums, opened := none }

/-- The list of data blocks is moved to the first secondary block. -/
def reorganize (work : Expansion) : Except (Exit × Expansion) Expansion :=
  match work.accessNewBlock with
  | (none, work) => .error (.err1, work)
  | (some dadr, work) =>
      .ok { work with
        opened := some ⟨0, dadr, fun i => if i < work.basbl.nbnums then work.basbl.databl i else 0⟩
        basbl := { work.basbl with
          databl := update
            (fun i => if i < work.basbl.nbnums then 0 else work.basbl.databl i) 0 dadr
          nbnums := 1
          diraddr := false } }

/-- Makes the proper secondary block accessible. -/
def openBlocknums (readable : Nat → Bool) (num : Nat) (work : Expansion) :
    Except (Exit × Expansion) (Opened × Expansion) :=
  match work.opened.filter (·.blocknumsNum = num) with
  | some b2 => .ok (b2, work)
  | none =>
      let work := work.close
      if num < work.basbl.nbnums then
        let dadr := work.basbl.databl num
        if readable num then .ok (⟨num, dadr, work.secondary dadr⟩, work)
        else .error (.err1, work)
      else
        match work.accessNewBlock with
        | (none, work) => .error (.err1, work)
        | (some dadr, work) =>
            .ok (⟨num, dadr, fun _ => 0⟩,
              { work with basbl := { work.basbl with
                  databl := update work.basbl.databl num dadr
                  nbnums := work.basbl.nbnums + 1 } })

def store (table : TableShape) (readable : Nat → Bool) (blocknum dadr : Nat) (work : Expansion) :
    Except (Exit × Expansion) Expansion :=
  if work.basbl.diraddr then
    .ok { work with basbl := { work.basbl with
      databl := update work.basbl.databl work.basbl.nbnums dadr
      nbnums := work.basbl.nbnums + 1 } }
  else
    match work.openBlocknums readable (blocknum / table.DADRS_PER_BLOCK) with
    | .error failure => .error failure
    | .ok (b2, work) =>
        .ok { work with opened := some { b2 with
          blocknums := update b2.blocknums (blocknum % table.DADRS_PER_BLOCK) dadr } }

def allocate (table : TableShape) (readable : Nat → Bool) :
    Nat → Nat → Expansion → Except (Exit × Expansion) Expansion
  | 0, _, work => .ok work
  | count + 1, blocknum, work =>
      match work.allocAndFormatDataBlock table blocknum with
      | (none, work) => .error (.err2, work)
      | (some dadr, work) =>
          match work.store table readable blocknum dadr with
          | .error failure => .error failure
          | .ok work => allocate table readable count (blocknum + 1) work

end Expansion

/-- What the rest of the server answers to a call: whether the basic block can be fixed,
enough blocks locked, a secondary block fixed, the array of tables enlarged and the memory
for the copy of the basic block obtained. A private page that has been dropped is read as
it is in the file. -/
structure Service where
  basblock : Bool
  locked : Bool
  supplies : List Supply
  readable : Nat → Bool
  tables : Bool
  copied : Bool
  basblockInFile : BasTblBlock
  numbersInFile : Nat → Nat

namespace TableBlocks

/-- The table after `create_table_data` and `prepare`. -/
def start : TableBlocks :=
  { basblock := ⟨true, 0, 0, fun _ => 0⟩
    copy := ⟨true, 0, 0, fun _ => 0⟩
    secondary := fun _ _ => 0
    taken := ∅
    freed := []
    entered := 0 }

def unlockAllocation (state : TableBlocks) : TableBlocks :=
  { state with entered := state.entered - 1 }

/-- The labels `err2` and `err1`. -/
def leaveDamaged (state : TableBlocks) (table : TableShape) (service : Service) :
    Exit × Expansion → TableBlocks
  | (exit, work) =>
      let state := { state with secondary := work.secondary, taken := work.taken }
      let state := match exit, work.opened with
        | .err2, some b2 =>
            if 0 ≤ table.tbnum then state.unlockAllocation
            else { state.unlockAllocation with
              secondary := update state.secondary b2.dadr service.numbersInFile }
        | .err2, none => state.unlockAllocation
        | .err1, _ => state
      if 0 ≤ table.tbnum then state else { state with basblock := service.basblockInFile }

def expandWork (state : TableBlocks) (table : TableShape) (service : Service)
    (newBlockCount : Nat) : Except (Exit × Expansion) Expansion := do
  let oldBlockCount := table.recordCount2blockCount state.basblock.recnum
  let work : Expansion :=
    ⟨state.basblock, state.secondary, none, state.taken, service.supplies⟩
  let work ←
    if table.MAX_BAS_ADDRS < newBlockCount ∧ work.basbl.diraddr then work.reorganize else .ok work
  work.allocate table service.readable (newBlockCount - oldBlockCount) oldBlockCount

/-- The result is TRUE on an error. -/
def expandTableBlocks (state : TableBlocks) (table : TableShape) (newRecordSpace : Nat)
    (service : Service) : Bool × TableBlocks :=
  let newBlockCount := table.recordCount2blockCount newRecordSpace
  if table.MAX_BLOCK_COUNT_PER_TABLE < newBlockCount ∨ ¬ service.basblock then (true, state)
  else if 0 ≤ table.tbnum ∧ ¬ service.locked then (true, state)
  else
    let state := if 0 ≤ table.tbnum then { state with entered := state.entered + 1 } else state
    match state.expandWork table service newBlockCount with
    | .error failure => (true, state.leaveDamaged table service failure)
    | .ok work =>
        let work := work.close
        let basbl := { work.basbl with recnum := newRecordSpace }
        if table.tbnum = 0 ∧ ¬ service.tables ∨ ¬ service.copied then
          (true, state.leaveDamaged table service (.err1, work))
        else
          let state := { state with
            basblock := basbl
            copy := basbl
            secondary := work.secondary
            taken := work.taken }
          (false, if 0 ≤ table.tbnum then state.unlockAllocation else state)

def freeAlphaBlock (state : TableBlocks) (dadr : Nat) : TableBlocks :=
  { state with taken := state.taken.erase dadr, freed := dadr :: state.freed }

def setDatabl (state : TableBlocks) (i dadr : Nat) : TableBlocks :=
  { state with basblock := { state.basblock with
    databl := update state.basblock.databl i dadr } }

/-- The loop over direct data blocks. -/
def dropDirect : Nat → Nat → TableBlocks → TableBlocks
  | 0, _, state => state
  | count + 1, ind, state =>
      dropDirect count (ind + 1) ((state.freeAlphaBlock (state.basblock.databl ind)).setDatabl ind 0)

/-- The loop over the numbers in a secondary block. The counter is an unsigned integer
that is decremented after the test. -/
def dropNumbers : Nat → Nat → Nat → (Nat → Nat) → TableBlocks → (Nat × (Nat → Nat)) × TableBlocks
  | 0, _, toBeDeleted, blocknums, state => ((toBeDeleted, blocknums), state)
  | count + 1, j, toBeDeleted, blocknums, state =>
      if toBeDeleted = 0 then ((2 ^ 32 - 1, blocknums), state)
      else dropNumbers count (j + 1) (toBeDeleted - 1) (update blocknums j 0)
        (state.freeAlphaBlock (blocknums j))

/-- The loop over the secondary blocks. -/
def dropSecondary (table : TableShape) (readable : Nat → Bool) :
    Nat → Nat → Nat → Nat → TableBlocks → TableBlocks
  | 0, _, _, _, state => state
  | count + 1, ind, start, toBeDeleted, state =>
      let dadr := state.basblock.databl ind
      if ¬ readable ind then state
      else
        let ((toBeDeleted, blocknums), state) := dropNumbers (table.DADRS_PER_BLOCK - start) start
          toBeDeleted (state.secondary dadr) state
        let state :=
          if start = 0 then (state.freeAlphaBlock dadr).setDatabl ind 0
          else { state with secondary := update state.secondary dadr blocknums }
        dropSecondary table readable count (ind + 1) 0 toBeDeleted state

def dropBlocks (state : TableBlocks) (table : TableShape) (readable : Nat → Bool)
    (newBlockCount oldBlockCount : Nat) : TableBlocks :=
  if state.basblock.diraddr then
    let state := state.dropDirect (oldBlockCount - newBlockCount) newBlockCount
    { state with basblock := { state.basblock with nbnums := newBlockCount } }
  else
    let ind := newBlockCount / table.DADRS_PER_BLOCK
    let state := dropSecondary table readable (state.basblock.nbnums - ind) ind
      (newBlockCount % table.DADRS_PER_BLOCK) (oldBlockCount - newBlockCount) state
    { state with basblock :=
        if newBlockCount = 0 then { state.basblock with nbnums := 0, diraddr := true }
        else { state.basblock with nbnums := (newBlockCount - 1) / table.DADRS_PER_BLOCK + 1 } }

/-- Without the lists of free records. -/
def dropBasicTableAllocation (state : TableBlocks) (table : TableShape) (newRecordSpace : Nat)
    (service : Service) : Bool × TableBlocks :=
  let newBlockCount := table.recordCount2blockCount newRecordSpace
  let oldBlockCount := table.recordCount2blockCount state.basblock.recnum
  if ¬ service.basblock then (true, state)
  else if newBlockCount < oldBlockCount then
    let state := state.dropBlocks table service.readable newBlockCount oldBlockCount
    (false, { state with basblock := { state.basblock with
        recnum := if table.multpage then newBlockCount / table.rectopage
          else newBlockCount * table.rectopage } })
  else (false, state)

/-- `reduce_table_blocks` does not notice that the basic block cannot be fixed. -/
def reduceTableBlocks (state : TableBlocks) (table : TableShape) (newRecordSpace : Nat)
    (service : Service) : Bool × TableBlocks :=
  let (error, state) := state.dropBasicTableAllocation table newRecordSpace service
  if service.basblock ∧ service.copied then (error, { state with copy := state.basblock })
  else (true, state)

end TableBlocks

inductive BlocksOp
  | expand (newRecordSpace : Nat) (service : Service)
  | reduce (newRecordSpace : Nat) (service : Service)

def blocksStep (table : TableShape) (state : TableBlocks) : BlocksOp → TableBlocks
  | .expand newRecordSpace service => (state.expandTableBlocks table newRecordSpace service).2
  | .reduce newRecordSpace service => (state.reduceTableBlocks table newRecordSpace service).2

/-! What every call does right. -/

/-- Where the number of a block is written: in the basic block, for a secondary block, or
in the list of the data blocks. -/
inductive Slot
  | secondary (ind : Nat)
  | data (blnum : Nat)
  deriving DecidableEq

/-- The blocks that the lists of a table refer to when it has a number of data blocks. -/
def referenced (table : TableShape) (basbl : BasTblBlock) (secondary : Nat → Nat → Nat)
    (count : Nat) : Slot → Option Nat
  | .secondary ind =>
      if basbl.diraddr = false ∧ ind < basbl.nbnums then some (basbl.databl ind) else none
  | .data blnum => if blnum < count then some (dataBlock table basbl secondary blnum) else none

def TableBlocks.refers (state : TableBlocks) (table : TableShape) : Slot → Option Nat :=
  referenced table state.basblock state.secondary
    (table.recordCount2blockCount state.basblock.recnum)

end Sql602.Table
