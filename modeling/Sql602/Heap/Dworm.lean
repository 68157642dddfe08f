import Sql602.Library.Bytes
import Sql602.Heap.Pieces

namespace Sql602.Heap

open Bytes

/-! Large objects. An object is a piece that starts with the counts and the
numbers of its data blocks; the bytes behind the numbers are the direct data,
the end of the contents. A block has 4096 bytes, a unit of a piece 128. A big
block is a run of 1024 blocks. The union behind the two 16-bit fields of the
piece is `blidx`: in the old layout it starts with the numbers, in the new one
with the count of the big blocks. -/

inductive DwormMark where
  | dworm
  | dworm2
  deriving DecidableEq

structure DwormBeg where
  state : DwormMark
  smallBlockcnt : Nat
  blidx : Memory

/-- `len32` is 0 as long as the object has no piece. -/
structure Dworm where
  len32 : Nat
  bg : DwormBeg
  page : Nat → Memory

/-- What the transaction log answers to the requests for blocks, in order; a
request that finds its list empty has failed. The numbers that are given back
are noted. -/
structure BlockGrants where
  blocks : List Nat
  bigBlocks : List Nat
  freed : List Nat := []
  freedBig : List Nat := []

/-- `bigBlocks` and `smallBlocks` are the positions of the numbers in `blidx`. -/
structure DwormAccess where
  len32 : Nat
  bg : DwormBeg
  page : Nat → Memory
  elemlen : Nat
  isNull : Bool
  isError : Bool
  bigBlockcnt : Nat
  smallBlockcnt : Nat
  bigBlocks : Nat
  smallBlocks : Nat
  translog : BlockGrants

namespace DwormAccess

variable (dwa : DwormAccess)

def perblock : Nat := 4096 / dwa.elemlen

def pieceSize : Nat := 128 * dwa.len32

def bigBlock (i : Nat) : Nat := word dwa.bg.blidx (dwa.bigBlocks + 4 * i)

def smallBlock (i : Nat) : Nat := word dwa.bg.blidx (dwa.smallBlocks + 4 * i)

def dirdataPos : Nat := dwa.smallBlocks + 4 * dwa.smallBlockcnt

def dirdataMaxsize : Nat :=
  dwa.pieceSize -
    if dwa.bigBlockcnt = 0 then 4 + 4 * dwa.smallBlockcnt
    else 8 + 4 * (dwa.smallBlockcnt + dwa.bigBlockcnt)

def setBlidx (blidx : Memory) : DwormAccess := { dwa with bg := { dwa.bg with blidx } }

def setPage (dadr : Nat) (contents : Memory) : DwormAccess :=
  { dwa with page := Function.update dwa.page dadr contents }

/-- The counts and positions as the piece has them. -/
def initMembers : DwormAccess :=
  match dwa.bg.state with
  | .dworm2 =>
      { dwa with
        smallBlockcnt := dwa.bg.smallBlockcnt
        bigBlockcnt := word dwa.bg.blidx 0
        bigBlocks := 4
        smallBlocks := 4 + 4 * word dwa.bg.blidx 0 }
  | .dworm =>
      { dwa with
        smallBlockcnt := dwa.bg.smallBlockcnt
        bigBlockcnt := 0
        smallBlocks := 0 }

def headerFits : Bool :=
  match dwa.bg.state with
  | .dworm2 => 8 + (dwa.smallBlockcnt + dwa.bigBlockcnt) * 4 ≤ 4096
  | .dworm => 4 + dwa.smallBlockcnt * 4 ≤ dwa.pieceSize

end DwormAccess

def Dworm.access (dw : Dworm) (elemlen : Nat) (translog : BlockGrants) : DwormAccess :=
  let closed : DwormAccess :=
    ⟨dw.len32, dw.bg, dw.page, elemlen, false, false, 0, 0, 0, 0, translog⟩
  if dw.len32 = 0 then { closed with isNull := true }
  else
    let dwa := closed.initMembers
    if dwa.headerFits then dwa else { closed with isError := true }

def DwormAccess.close (dwa : DwormAccess) : Dworm := ⟨dwa.len32, dwa.bg, dwa.page⟩

/-! Reading and writing. -/

inductive Place where
  | page (dadr pos : Nat)
  | direct (pos : Nat)

namespace DwormAccess

/-- The place of an element and the number of elements that are there at most.
Reading and writing use the same place. -/
def pointer (dwa : DwormAccess) (start : Nat) : Place × Nat :=
  let blockIndex := start / dwa.perblock
  let bloffs := start % dwa.perblock
  if blockIndex < dwa.bigBlockcnt * 1024 then
    (.page (dwa.bigBlock (blockIndex / 1024) + blockIndex % 1024) (bloffs * dwa.elemlen),
      dwa.perblock - bloffs)
  else if blockIndex - dwa.bigBlockcnt * 1024 < dwa.smallBlockcnt then
    (.page (dwa.smallBlock (blockIndex - dwa.bigBlockcnt * 1024)) (bloffs * dwa.elemlen),
      dwa.perblock - bloffs)
  else
    (.direct (dwa.dirdataPos + bloffs * dwa.elemlen), dwa.dirdataMaxsize / dwa.elemlen)

def load (dwa : DwormAccess) : Place → Nat → List UInt8
  | .page dadr pos, len => slice (dwa.page dadr) pos len
  | .direct pos, len => slice dwa.bg.blidx pos len

def store (dwa : DwormAccess) (data : Memory) (from' len : Nat) : Place → DwormAccess
  | .page dadr pos => dwa.setPage dadr (copy (dwa.page dadr) pos data from' len)
  | .direct pos => dwa.setBlidx (copy dwa.bg.blidx pos data from' len)

/-- Without fuel the loop of the source does not end: it makes no progress where
the direct data has no room for an element. -/
def readLoop (dwa : DwormAccess) : Nat → Nat → Nat → Option (List UInt8)
  | _, _, 0 => some []
  | 0, _, _ + 1 => none
  | fuel + 1, firstel, elemcnt + 1 =>
      let place := dwa.pointer firstel
      let loc := min place.2 (elemcnt + 1)
      (dwa.readLoop fuel (firstel + loc) (elemcnt + 1 - loc)).map fun rest =>
        dwa.load place.1 (loc * dwa.elemlen) ++ rest

def read (dwa : DwormAccess) (firstel elemcnt : Nat) : Option (List UInt8) :=
  if elemcnt = 0 then some []
  else if dwa.isError then some (List.replicate (elemcnt * dwa.elemlen) 0)
  else if dwa.isNull then none
  else dwa.readLoop elemcnt firstel elemcnt

def writeLoop (data : Memory) : Nat → DwormAccess → Nat → Nat → Nat → Option DwormAccess
  | _, dwa, _, 0, _ => some dwa
  | 0, _, _, _ + 1, _ => none
  | fuel + 1, dwa, firstel, elemcnt + 1, from' =>
      let place := dwa.pointer firstel
      let loc := min place.2 (elemcnt + 1)
      writeLoop data fuel (dwa.store data from' (loc * dwa.elemlen) place.1)
        (firstel + loc) (elemcnt + 1 - loc) (from' + loc * dwa.elemlen)

def write (dwa : DwormAccess) (firstel elemcnt : Nat) (data : Memory) : Option DwormAccess :=
  if elemcnt = 0 then some dwa
  else if dwa.isNull then none
  else writeLoop data elemcnt dwa firstel elemcnt 0

/-! The new layout that `expand` chooses. -/

structure Counts where
  big : Nat
  small : Nat
  locBytes : Nat

def wantedBlocks (dwa : DwormAccess) (elemcnt : Nat) : Nat × Nat :=
  let total := (elemcnt - 1) / dwa.perblock
  let big := total / 1024
  let small := total % 1024
  if big < dwa.bigBlockcnt then (dwa.bigBlockcnt, 0)
  else if big = dwa.bigBlockcnt ∧ small < dwa.smallBlockcnt then (big, dwa.smallBlockcnt)
  else (big, small)

/-- The test against `MAX_GENERAL_BLOCKS` at the head of the loop. -/
def generalBlocks (blocks : Nat × Nat) : Nat × Nat :=
  if blocks.1 + blocks.2 > 1022 then (blocks.1 + 1, 0) else blocks

def rest (dwa : DwormAccess) (elemcnt : Nat) (blocks : Nat × Nat) : Nat :=
  dwa.elemlen * (elemcnt - dwa.perblock * (1024 * blocks.1 + blocks.2))

def countLoop (dwa : DwormAccess) (elemcnt : Nat) : Nat → Nat × Nat → Option Counts
  | 0, _ => none
  | fuel + 1, wanted =>
      let blocks := generalBlocks wanted
      let locBytes := 8 + 4 * (blocks.1 + blocks.2) + dwa.rest elemcnt blocks
      if locBytes ≤ 4096 then some ⟨blocks.1, blocks.2, locBytes⟩
      else if dwa.rest elemcnt blocks ≠ 0 then
        dwa.countLoop elemcnt fuel (blocks.1, blocks.2 + 1)
      else none

def newCounts (dwa : DwormAccess) (elemcnt : Nat) : Option Counts :=
  dwa.countLoop elemcnt (elemcnt + 3) (dwa.wantedBlocks elemcnt)

/-! The steps of `expand`, in the order of the source. -/

def needsPiece (dwa : DwormAccess) (locBytes : Nat) : Bool :=
  locBytes > dwa.pieceSize || dwa.isError

/-- The bytes behind the old contents are zero in the new piece. -/
def growPiece (dwa : DwormAccess) (locBytes : Nat) : DwormAccess :=
  if dwa.needsPiece locBytes then
    let bg : DwormBeg :=
      if dwa.isNull || dwa.isError then ⟨.dworm, 0, fun _ => 0⟩
      else { dwa.bg with blidx := copy (fun _ => 0) 0 dwa.bg.blidx 0 (dwa.pieceSize - 4) }
    { dwa with
      len32 := 2 ^ lencat ((locBytes - 1) / 128 + 1)
      bg, isNull := false, isError := false }.initMembers
  else dwa

def allocBlock (dwa : DwormAccess) : Option (Nat × DwormAccess) :=
  match dwa.translog.blocks with
  | [] => none
  | dadr :: blocks => some (dadr, { dwa with translog := { dwa.translog with blocks } })

def allocBigBlock (dwa : DwormAccess) : Option (Nat × DwormAccess) :=
  match dwa.translog.bigBlocks with
  | [] => none
  | dadr :: bigBlocks => some (dadr, { dwa with translog := { dwa.translog with bigBlocks } })

def pushSmall (dwa : DwormAccess) (dadr : Nat) : DwormAccess :=
  { dwa.setBlidx (putWord dwa.bg.blidx (dwa.smallBlocks + 4 * dwa.smallBlockcnt) dadr) with
    smallBlockcnt := dwa.smallBlockcnt + 1 }

def pushBig (dwa : DwormAccess) (dadr : Nat) : DwormAccess :=
  { dwa.setBlidx (putWord dwa.bg.blidx (dwa.bigBlocks + 4 * dwa.bigBlockcnt) dadr) with
    bigBlockcnt := dwa.bigBlockcnt + 1 }

def moveDirect (dwa : DwormAccess) (big small : Nat) : Option (DwormAccess × Bool) :=
  if dwa.bigBlockcnt = big ∧ dwa.smallBlockcnt < small then
    dwa.allocBlock.map fun granted =>
      let contents := copy (fun _ => 0) 0 dwa.bg.blidx dwa.dirdataPos dwa.dirdataMaxsize
      ((granted.2.setPage granted.1 contents).pushSmall granted.1, true)
  else some (dwa, false)

def reorganize (dwa : DwormAccess) (big : Nat) : DwormAccess :=
  if big ≠ 0 ∧ dwa.bg.state = .dworm then
    let moved := copy dwa.bg.blidx 4 dwa.bg.blidx 0 (dwa.pieceSize - 8)
    { dwa with
      bg := { dwa.bg with state := .dworm2, blidx := putWord moved 0 0 }
      bigBlockcnt := 0
      bigBlocks := 4
      smallBlocks := 4 }
  else dwa

def copySmallBlocks (dwa : DwormAccess) (dadr : Nat) : DwormAccess :=
  (List.range dwa.smallBlockcnt).foldl
    (fun dwa i => dwa.setPage (dadr + i) (dwa.page (dwa.smallBlock i))) dwa

/-- The first new big block, 0 when there is none. After the reorganization the
direct data is taken for 4 bytes longer than it is: the header is not. -/
def fillBigBlock (dwa : DwormAccess) (big : Nat) (directMoved : Bool) :
    Option (DwormAccess × Nat) :=
  if dwa.bigBlockcnt < big then
    dwa.allocBigBlock.map fun granted =>
      let dadr := granted.1
      let copied := granted.2.copySmallBlocks dadr
      let last := dadr + dwa.smallBlockcnt
      (if directMoved then copied
        else copied.setPage last
          (copy (copied.page last) 0 copied.bg.blidx copied.dirdataPos copied.dirdataMaxsize),
        dadr)
  else some (dwa, 0)

def releaseSmall (dwa : DwormAccess) (small : Nat) : DwormAccess :=
  let released := ((List.range dwa.smallBlockcnt).drop small).reverse.map dwa.smallBlock
  { dwa with
    smallBlockcnt := min dwa.smallBlockcnt small
    translog := { dwa.translog with freed := dwa.translog.freed ++ released } }

def releaseBig (dwa : DwormAccess) (big : Nat) : DwormAccess :=
  let released := ((List.range dwa.bigBlockcnt).drop big).reverse.map dwa.bigBlock
  { dwa with
    bigBlockcnt := min dwa.bigBlockcnt big
    translog := { dwa.translog with freedBig := dwa.translog.freedBig ++ released } }

def moveNumbers (dwa : DwormAccess) (big : Nat) : DwormAccess :=
  let shift := 4 * (big - dwa.bigBlockcnt)
  let moveSize := dwa.pieceSize - (4 + dwa.smallBlocks) - shift
  { dwa.setBlidx
      (copy dwa.bg.blidx (dwa.smallBlocks + shift) dwa.bg.blidx dwa.smallBlocks moveSize) with
    smallBlocks := dwa.smallBlocks + shift }

def allocSmall : Nat → DwormAccess → Option DwormAccess
  | 0, dwa => some dwa
  | count + 1, dwa =>
      dwa.allocBlock.bind fun granted =>
        allocSmall count ((granted.2.pushSmall granted.1).setPage granted.1 fun _ => 0)

/-- `dadr` is the big block to be stored next. -/
def allocBig : Nat → DwormAccess → Nat → Option DwormAccess
  | 0, dwa, _ => some dwa
  | 1, dwa, dadr => some (dwa.pushBig dadr)
  | count + 2, dwa, dadr =>
      (dwa.pushBig dadr).allocBigBlock.bind fun granted =>
        allocBig (count + 1) granted.2 granted.1

def putCounts (dwa : DwormAccess) : DwormAccess :=
  let blidx := if dwa.bigBlockcnt = 0 then dwa.bg.blidx else putWord dwa.bg.blidx 0 dwa.bigBlockcnt
  { dwa with bg := { dwa.bg with smallBlockcnt := dwa.smallBlockcnt, blidx } }

def layBlocks (dwa : DwormAccess) (big small : Nat) : Option DwormAccess := do
  let moved ← dwa.moveDirect big small
  let filled ← (moved.1.reorganize big).fillBigBlock big moved.2
  let placed := (filled.1.releaseSmall small).moveNumbers big
  let laid ← placed.allocSmall (small - placed.smallBlockcnt)
  laid.allocBig (big - laid.bigBlockcnt) filled.2

/-- A size that is out of range is refused before anything changes. -/
def expand (dwa : DwormAccess) (elemcnt : Nat) : Option DwormAccess :=
  if elemcnt = 0 then some dwa
  else do
    let counts ← dwa.newCounts elemcnt
    let changed := dwa.needsPiece counts.locBytes ||
      dwa.bigBlockcnt != counts.big || dwa.smallBlockcnt != counts.small
    let laid ← (dwa.growPiece counts.locBytes).layBlocks counts.big counts.small
    return if changed then laid.putCounts else laid

/-! The counts after `shrink` are rounded up, those of `expand` down. -/

def keptBlocks (dwa : DwormAccess) (elemcnt : Nat) : Option (Nat × Nat) :=
  let newblk := if elemcnt = 0 then 0 else (elemcnt - 1) / dwa.perblock + 1
  let big := newblk / 1024
  let small := newblk % 1024
  if big > dwa.bigBlockcnt then none
  else if big < dwa.bigBlockcnt ∧ small ≠ 0 then some (big + 1, 0)
  else some (big, small)

def release (dwa : DwormAccess) (kept : Nat × Nat) : DwormAccess :=
  let dwa := (dwa.releaseBig kept.1).releaseSmall kept.2
  { dwa with
    bg :=
      { dwa.bg with
        smallBlockcnt := dwa.smallBlockcnt
        blidx := if dwa.bg.state = .dworm2 then putWord dwa.bg.blidx 0 dwa.bigBlockcnt
          else dwa.bg.blidx } }

def shrink (dwa : DwormAccess) (elemcnt : Nat) : DwormAccess :=
  if dwa.isError then { dwa with len32 := 0 }
  else if dwa.isNull then dwa
  else
    match dwa.keptBlocks elemcnt with
    | none => dwa
    | some kept =>
        let dwa :=
          if kept.1 = dwa.bigBlockcnt ∧ dwa.smallBlockcnt ≤ kept.2 then dwa
          else dwa.release kept
        if elemcnt = 0 then { dwa with len32 := 0 } else dwa

end DwormAccess

/-! The entry points. A sum of element numbers is 32 bits wide. -/

def hpRead (dw : Dworm) (elemlen firstel elemcnt : Nat) : Option (List UInt8) :=
  (dw.access elemlen ⟨[], [], [], []⟩).read firstel elemcnt

def hpWrite (dw : Dworm) (elemlen firstel elemcnt : Nat) (data : Memory)
    (grants : BlockGrants) : Option DwormAccess :=
  ((dw.access elemlen grants).expand ((firstel + elemcnt) % 2 ^ 32)).bind fun dwa =>
    dwa.write firstel elemcnt data

def hpShrinkLen (dw : Dworm) (elemlen elemcnt : Nat) : DwormAccess :=
  (dw.access elemlen ⟨[], [], [], []⟩).shrink elemcnt

end Sql602.Heap
