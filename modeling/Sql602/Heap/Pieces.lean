import Sql602.Library.Run
import Sql602.Library.Buddy
import Mathlib.Tactic.IntervalCases

namespace Sql602.Heap

open Buddy

/-! Pieces of blocks. A block has 32 units; free pieces are kept in five lists,
one for each length below the whole block. A cell of a list whose block number
is 0 is empty and may be used again. -/

structure Piece where
  dadr : Nat
  offs32 : Nat
  len32 : Nat
  deriving DecidableEq

def lencats : List Nat := [1, 2, 4, 8, 16]

def lencat (size : Nat) : Nat := lencats.findIdx fun len => size ≤ len

/-- `blocks` are the blocks that were taken from the disk space for pieces and
not yet given back. -/
structure PieceStore where
  pcstore : Nat → List Piece
  blocks : List Nat

def PieceStore.setCells (store : PieceStore) (cat : Nat) (cells : List Piece) :
    PieceStore :=
  { store with pcstore := Function.update store.pcstore cat cells }

inductive Found where
  | twin (j : Nat)
  | duplicate
  | space (spacepos : Option Nat)
  deriving DecidableEq

def lookForTwin (pc : Piece) (twinOffs : Nat) :
    Nat → Option Nat → List Piece → Found
  | _, spacepos, [] => .space spacepos
  | j, spacepos, pc1 :: cells =>
      if pc1.dadr = pc.dadr then
        if pc1.offs32 = twinOffs then .twin j
        else if pc1.offs32 = pc.offs32 then .duplicate
        else lookForTwin pc twinOffs (j + 1) spacepos cells
      else if pc1.dadr = 0 then lookForTwin pc twinOffs (j + 1) (some j) cells
      else lookForTwin pc twinOffs (j + 1) spacepos cells

def Piece.twinOffs (pc : Piece) : Nat :=
  if pc.offs32 / pc.len32 % 2 = 1 then pc.offs32 - pc.len32 else pc.offs32 + pc.len32

def Piece.withTwin (pc : Piece) : Piece :=
  ⟨pc.dadr, if pc.offs32 > pc.twinOffs then pc.twinOffs else pc.offs32, 2 * pc.len32⟩

def clearCell (cells : List Piece) (j : Nat) : List Piece :=
  cells.modify j fun pc1 => { pc1 with dadr := 0 }

/-- The source divides by `len32`; a piece of length 0 does not exist. -/
def lockedReleasePiece (store : PieceStore) (pc : Piece) : PieceStore :=
  if pc.len32 > 16 then { store with blocks := store.blocks.erase pc.dadr }
  else if pc.len32 = 0 then store
  else
    let cat := lencat pc.len32
    let cells := store.pcstore cat
    match lookForTwin pc pc.twinOffs 0 none cells with
    | .twin j => lockedReleasePiece (store.setCells cat (clearCell cells j)) pc.withTwin
    | .duplicate => store
    | .space none => store.setCells cat (cells ++ [pc])
    | .space (some spacepos) => store.setCells cat (cells.set spacepos pc)
  termination_by 17 - pc.len32
  decreasing_by
    simp only [Piece.withTwin]
    omega

/-- `block` is what the disk space answers when it is asked for a block, 0 when
it has none. The source does not stop for the size 0, which nobody asks for. -/
def lockedGetPiece (store : PieceStore) (size block : Nat) :
    Option (Piece × PieceStore) :=
  if size > 16 then
    if block = 0 then none
    else some (⟨block, 0, 2 ^ lencats.length⟩, { store with blocks := block :: store.blocks })
  else if size = 0 then none
  else
    let cat := lencat size
    let cells := store.pcstore cat
    match cells.findIdx? fun pc1 => pc1.dadr ≠ 0 with
    | some j =>
        (cells[j]?).map fun pc => (pc, store.setCells cat (clearCell cells j))
    | none =>
        match lockedGetPiece store (2 * size) block with
        | none => none
        | some (pc, store) =>
            let pc := { pc with len32 := pc.len32 / 2 }
            let store := lockedReleasePiece store pc
            some ({ pc with offs32 := pc.offs32 + pc.len32 }, store)
  termination_by 17 - size

structure PieceState where
  store : PieceStore
  allocated : List Piece
  granted : List (Nat × Piece)

inductive PieceOp where
  | get (size block : Nat)
  | release (pc : Piece)

def pieceStep (state : PieceState) : PieceOp → PieceState
  | .get size block =>
      match lockedGetPiece state.store size block with
      | none => state
      | some (pc, store) =>
          ⟨store, pc :: state.allocated, (size, pc) :: state.granted⟩
  | .release pc =>
      { state with
        store := lockedReleasePiece state.store pc
        allocated := state.allocated.erase pc }

end Sql602.Heap
