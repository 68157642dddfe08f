import Mathlib.Algebra.Group.Nat.Defs
import Mathlib.Data.List.Basic
import Mathlib.Data.List.Count

namespace Sql602.Integrity

/-! The marking of the blocks of a database file in the check of its integrity. -/

def BLOCKSIZE : Nat := 4096

def IHDRSIZE : Nat := 4

def INDEX_ID : Nat := 0xd93a

/-- The size of the smallest piece, and the number of them in a block. -/
def k32 : Nat := 128

def SMALL_BLOCKS_PER_BIG_BLOCK : Nat := 1024

/-- The number of bytes in the node has the mark of a leaf in its top bit. -/
structure Node where
  filled : Nat
  indexId : Nat
  ptr : Nat → Nat

namespace Node

variable (node : Node)

def leaf : Bool := decide (2 ^ 15 ≤ node.filled)

def damaged : Bool :=
  decide (BLOCKSIZE - IHDRSIZE < node.filled % 2 ^ 15 ∨ node.indexId ≠ INDEX_ID)

/-- The pointers at the positions `posit * bigstep` below the filled size. -/
def pointers (bigstep : Nat) : List Nat :=
  (List.range ((node.filled + bigstep - 1) / bigstep)).map node.ptr

end Node

structure Piece where
  dadr : Nat
  offs32 : Nat
  len32 : Nat

/-- The block lists of a large object. -/
structure Dworm where
  null : Bool
  smallBlocks : List Nat
  bigBlocks : List Nat

/-- The basic block of a table, with the number of data blocks of its records. -/
structure BasTblBlock where
  diraddr : Bool
  nbnums : Nat
  blockCount : Nat
  databl : Nat → Nat

/-- What the check reads from the file, with nothing for a block that cannot be read. The blocks
have numbers below the limit, and the map covers a window of them. -/
structure Image where
  dadrlimit : Nat
  bpoolFirst : Nat
  mplStart : Nat
  mplSize : Nat
  node : Nat → Option Node
  /-- The next block of a list of free records. -/
  container : Nat → Option Nat
  /-- A large object that can be opened without an error. -/
  dworm : Piece → Option Dworm
  /-- The numbers in a secondary block of a table. -/
  secondary : Nat → Option (Nat → Nat)

/-- The map of the free parts of blocks, and the number of bits that were marked again, if it is
requested. -/
structure Marks where
  mpl : Nat → BitVec 32
  mplOver : Bool
  crossLink : Option Nat

structure CheckState where
  marks : Marks
  nonexBlocks : Option Nat
  indexSize : Nat

/-- The sum has 32 bits. -/
def Image.isValidBlock (image : Image) (block : Nat) : Bool :=
  decide ((block + image.bpoolFirst) % 2 ^ 32 < image.dadrlimit + image.bpoolFirst)

def Marks.mark (image : Image) (marks : Marks) (dadr : Nat) (pcs : BitVec 32) : Marks × Bool :=
  if dadr < image.mplStart then (marks, false)
  else
    let dadr := dadr - image.mplStart
    if image.mplSize ≤ dadr then ({ marks with mplOver := true }, false)
    else
      let diff := ~~~ marks.mpl dadr &&& pcs
      let mpl := fun block => if block = dadr then marks.mpl dadr &&& ~~~ pcs else marks.mpl block
      match marks.crossLink with
      | none => ({ marks with mpl := mpl }, false)
      | some count =>
          ({ marks with
              mpl := mpl
              crossLink := some (count + (List.range 32).countP diff.getLsbD) },
            decide (diff ≠ 0))

namespace CheckState

def markSpace (image : Image) (st : CheckState) (dadr : Nat) (pcs : BitVec 32) :
    CheckState × Bool :=
  let (marks, res) := st.marks.mark image dadr pcs
  ({ st with marks := marks }, res)

def markBlock (image : Image) (st : CheckState) (dadr : Nat) : CheckState × Bool :=
  st.markSpace image dadr (BitVec.allOnes 32)

def xmarkPiece (image : Image) (st : CheckState) (pc : Piece) : CheckState × Bool :=
  st.markSpace image pc.dadr
    (if 16 < pc.len32 then BitVec.allOnes 32
    else BitVec.ofNat 32 (2 ^ pc.len32 - 1) <<< pc.offs32)

def countNonex (st : CheckState) : CheckState :=
  { st with nonexBlocks := st.nonexBlocks.map (· + 1) }

end CheckState

section Index

variable (image : Image) (bigstep : Nat)

/-- The pointers of a node one after another. -/
def markSubtrees (markSubtree : Nat → CheckState → Option (CheckState × Bool)) :
    List Nat → CheckState → Bool → Option (CheckState × Bool)
  | [], st, res => some (st, res)
  | dadr :: rest, st, res =>
      if image.dadrlimit ≤ dadr then markSubtrees markSubtree rest st.countNonex true
      else
        match markSubtree dadr st with
        | none => none
        | some (st, below) => markSubtrees markSubtree rest st (res || below)

/-- The result of marking the block does not stop the descent. -/
def markIndexSubtree : Nat → Nat → CheckState → Option (CheckState × Bool)
  | 0, _, _ => none
  | fuel + 1, root, st =>
      let (st, res) := st.markBlock image root
      let st := { st with indexSize := st.indexSize + 1 }
      match image.node root with
      | none => some (st, false)
      | some node =>
          if node.damaged then some (st.countNonex, true)
          else if node.leaf then some (st, res)
          else markSubtrees image (markIndexSubtree fuel) (node.pointers bigstep) st res

/-- The subtrees of a node that are dropped one after another. -/
def dropSubtrees (dropSubtree : Nat → List Nat → Option (List Nat)) :
    List Nat → List Nat → Option (List Nat)
  | [], freed => some freed
  | subroot :: rest, freed =>
      match dropSubtree subroot freed with
      | none => none
      | some freed => dropSubtrees dropSubtree rest freed

/-- The blocks that are freed, the last one first. -/
def dropIndex : Nat → Nat → List Nat → Option (List Nat)
  | 0, root, freed => if root ≠ 0 ∧ image.isValidBlock root = true then none else some freed
  | fuel + 1, root, freed =>
      if root ≠ 0 ∧ image.isValidBlock root = true then
        let below :=
          match image.node root with
          | none => some freed
          | some node =>
              if node.damaged || node.leaf then some freed
              else dropSubtrees (dropIndex fuel) (node.pointers bigstep) freed
        below.map (root :: ·)
      else some freed

end Index

/-- The marked blocks of a list of free records, with the number of errors. -/
def markFreeRecList (image : Image) : Nat → Nat → CheckState → Option (CheckState × Nat)
  | 0, listHead, st =>
      if listHead = 0 then some (st, 0)
      else if image.dadrlimit ≤ listHead then some (st, 1)
      else none
  | fuel + 1, listHead, st =>
      if listHead = 0 then some (st, 0)
      else if image.dadrlimit ≤ listHead then some (st, 1)
      else
        let st := (st.markBlock image listHead).1
        match image.container listHead with
        | none => some (st, 0)
        | some next => markFreeRecList image fuel next st

section LargeObjects

variable (image : Image)

def markSmallBlocks : List Nat → CheckState → Bool → CheckState × Bool
  | [], st, res => (st, res)
  | dadr :: rest, st, res =>
      if image.dadrlimit ≤ dadr then markSmallBlocks rest st.countNonex true
      else
        let (st, marked) := st.markBlock image dadr
        markSmallBlocks rest st (res || marked)

/-- The blocks of a big block. -/
def markParts : Nat → Nat → CheckState → Bool → CheckState × Bool
  | _, 0, st, res => (st, res)
  | dadr, count + 1, st, res =>
      let (st, marked) := st.markBlock image (dadr % 2 ^ 32)
      markParts (dadr + 1) count st (res || marked)

/-- A list of big blocks ends before the number 0. The sum with the size of a big block has
32 bits. -/
def markBigBlocks : List Nat → CheckState → Bool → CheckState × Bool
  | [], st, res => (st, res)
  | dadr :: rest, st, res =>
      if dadr = 0 then (st, res)
      else if image.dadrlimit ≤ (dadr + SMALL_BLOCKS_PER_BIG_BLOCK - 1) % 2 ^ 32 then
        markBigBlocks rest st.countNonex true
      else
        let (st, marked) := markParts image dadr SMALL_BLOCKS_PER_BIG_BLOCK st res
        markBigBlocks rest st marked

/-- The same for big blocks of any size, so that the size is not computed with below. -/
def markLargeBlocks (size : Nat) : List Nat → CheckState → Bool → CheckState × Bool
  | [], st, res => (st, res)
  | dadr :: rest, st, res =>
      if dadr = 0 then (st, res)
      else if image.dadrlimit ≤ (dadr + size - 1) % 2 ^ 32 then
        markLargeBlocks size rest st.countNonex true
      else
        let (st, marked) := markParts image dadr size st res
        markLargeBlocks size rest st marked

theorem markBigBlocks_eq :
    markBigBlocks image = markLargeBlocks image SMALL_BLOCKS_PER_BIG_BLOCK := by
  delta markBigBlocks markLargeBlocks
  rfl

/-- A piece behind the end of the file is reported to the caller only. -/
def markHp (pc : Piece) (st : CheckState) : CheckState × Bool :=
  if pc.dadr = 0 then (st, false)
  else if image.dadrlimit ≤ pc.dadr ∨ BLOCKSIZE / k32 ≤ pc.offs32 ∨ BLOCKSIZE / k32 < pc.len32 then
    (st, true)
  else
    let (st, res) := st.xmarkPiece image pc
    match image.dworm pc with
    | none => (st.countNonex, true)
    | some dworm =>
        if dworm.null then (st, res)
        else
          let (st, res) := markSmallBlocks image dworm.smallBlocks st res
          markBigBlocks image dworm.bigBlocks st res

end LargeObjects

/-- The basic block has a header of 116 bytes, the first block number included. -/
def MAX_BAS_ADDRS : Nat := (BLOCKSIZE - 116 + 4) / 4

def DADRS_PER_BLOCK : Nat := BLOCKSIZE / 4

section Tables

variable (image : Image) (allocBlock allocSecondary : Nat → Nat)

/-- In a repair a missing block is replaced by a new one; otherwise, or if there is none, the
number stays 0. -/
def markDataBlock (blocknum dadr : Nat) (st : CheckState) : CheckState :=
  let st := if dadr = 0 then st.countNonex else st
  let dadr := if dadr = 0 then allocBlock blocknum else dadr
  if dadr = 0 then st else (st.markBlock image dadr).1

/-- The entries of the basic block from one on. -/
def markDirect (databl : Nat → Nat) : Nat → Nat → CheckState → CheckState
  | _, 0, st => st
  | i, count + 1, st =>
      markDirect databl (i + 1) count (markDataBlock image allocBlock i (databl i) st)

/-- The entries of a secondary block up to the number of data blocks. -/
def markSecondary (blockCount : Nat) (dtd : Nat → Nat) :
    Nat → Nat → Nat → CheckState → Nat × CheckState
  | _, 0, blocknum, st => (blocknum, st)
  | j, count + 1, blocknum, st =>
      if blocknum < blockCount then
        markSecondary blockCount dtd (j + 1) count (blocknum + 1)
          (markDataBlock image allocBlock blocknum (dtd j) st)
      else (blocknum, st)

def markIndirect (basbl : BasTblBlock) : Nat → Nat → Nat → CheckState → CheckState
  | _, 0, _, st => st
  | i, count + 1, blocknum, st =>
      let dadr := basbl.databl i
      let st := if dadr = 0 then st.countNonex else st
      let dadr := if dadr = 0 then allocSecondary i else dadr
      if dadr = 0 then markIndirect basbl (i + 1) count blocknum st
      else
        let st := (st.markBlock image dadr).1
        match image.secondary dadr with
        | none => markIndirect basbl (i + 1) count blocknum st
        | some dtd =>
            let (blocknum, st) :=
              markSecondary image allocBlock basbl.blockCount dtd 0 DADRS_PER_BLOCK blocknum st
            markIndirect basbl (i + 1) count blocknum st

def markBasrecs (basbl : BasTblBlock) (st : CheckState) : CheckState :=
  let nbnums := min basbl.nbnums MAX_BAS_ADDRS
  if basbl.diraddr then markDirect image allocBlock basbl.databl 0 nbnums st
  else markIndirect image allocBlock allocSecondary basbl 0 nbnums 0 st

end Tables

end Sql602.Integrity
