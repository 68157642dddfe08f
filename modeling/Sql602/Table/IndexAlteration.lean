import Mathlib.Data.List.Nodup
import Sql602.Library.Holding

namespace Sql602.IndexAlteration

open Takings

/-! The indexes of a table under ALTER TABLE: the old roots that the new indexes take over, the
trees that are built and the old trees that are dropped. -/

/-- The size of a block number. -/
def tblocknumSize : Nat := 4

def INDEX_UNIQUE : Nat := 2

/-- The expression of a part with its type and the value of its specification: a column, or
any other expression by its code, which is one for all expressions that `same_expr` accepts. -/
inductive PartExpr where
  | attr (elemnum type opqval : Nat)
  | other (code : String) (type opqval : Nat)
  deriving DecidableEq

namespace PartExpr

def type : PartExpr → Nat
  | attr _ type _ => type
  | other _ type _ => type

def opqval : PartExpr → Nat
  | attr _ _ opqval => opqval
  | other _ _ opqval => opqval

end PartExpr

structure PartDesc where
  expr : PartExpr
  desc : Bool
  deriving DecidableEq

def PartDesc.order (part : PartDesc) : Nat × Nat × Bool :=
  (part.expr.type, part.expr.opqval, part.desc)

structure DdIndex where
  ccateg : Nat
  has_nulls : Bool
  disabled : Bool
  keysize : Nat
  parts : List PartDesc
  root : Nat
  deriving DecidableEq

namespace DdIndex

variable (indx : DdIndex)

/-- PRIMARY or UNIQUE. -/
def DISTINCT : Bool := decide (indx.ccateg ≤ INDEX_UNIQUE)

/-- The size of an item of the tree without the key of the index. -/
def bigstep : Nat := indx.keysize + tblocknumSize

end DdIndex

/-- The state of a definition in ALTER TABLE: a new index, a deleted one, or the number of the
original index. -/
inductive IndexState where
  | new
  | del
  | old (number : Nat)
  deriving DecidableEq

/-- A definition of an index with the descriptor compiled from its text. -/
structure IndDescr where
  state : IndexState
  indx : DdIndex
  deriving DecidableEq

structure AtrAll where
  name : String
  alt_value : Option String
  deriving DecidableEq

structure TableAll where
  attrs : List AtrAll
  indxs : List IndDescr

namespace TableAll

variable (ta : TableAll)

def acc0 (elemnum : Nat) : AtrAll := ta.attrs.getD elemnum ⟨"", none⟩

/-- The definitions the loops over the indexes do not skip. -/
def kept : List IndDescr := ta.indxs.filter fun nind => decide (nind.state ≠ .del)

end TableAll

/-- An installed table. The stored roots of its indexes are different blocks, and the other
roots of the basic block are 0. -/
structure TableDescr where
  basblockn : Nat
  indxs : List DdIndex
  indroot : Nat → Nat
  unused : ∀ j, indxs.length ≤ j → indroot j = 0
  distinct : ∀ j k, indroot j ≠ 0 → indroot j = indroot k → j = k

/-- What the server does around the changes: compiling, building trees in free blocks,
accessing the basic blocks and committing. -/
structure Environment where
  compile_index : IndDescr → Bool
  create_btree : List Nat → DdIndex → Option Nat
  access_block : Nat → Bool
  commit : Bool
  fresh : ∀ {blocks indx root}, create_btree blocks indx = some root → root ≠ 0 ∧ root ∉ blocks

/-- The value of the new column is the value of the old one: either the column of the same
name, or a text that is its name, plain or quoted. -/
def sameSource (oatt natt : AtrAll) : Bool :=
  match natt.alt_value with
  | none => decide (oatt.name = natt.name)
  | some alt_value => decide (oatt.name = alt_value) || decide ("`" ++ oatt.name ++ "`" = alt_value)

def samePart (ta_old ta_new : TableAll) : PartExpr → PartExpr → Bool
  | .attr oelemnum otype oopqval, .attr nelemnum ntype nopqval =>
      decide (otype = ntype) && decide (oopqval = nopqval) &&
        sameSource (ta_old.acc0 oelemnum) (ta_new.acc0 nelemnum)
  -- expressions are considered to be different
  | _, _ => false

def sameParts (ta_old ta_new : TableAll) : List PartDesc → List PartDesc → Bool
  | [], [] => true
  | opart :: oparts, npart :: nparts =>
      samePart ta_old ta_new opart.expr npart.expr && sameParts ta_old ta_new oparts nparts
  | _, _ => false

/-- Compares 2 indexes in the original and updated table. -/
def same_index (ta_old ta_new : TableAll) (oindx nindx : DdIndex) : Bool :=
  decide (oindx.parts.length = nindx.parts.length) && decide (oindx.keysize = nindx.keysize) &&
    sameParts ta_old ta_new oindx.parts nindx.parts

/-- The loop that makes the new roots: an index takes the old root it names, or a tree is built
for it when it names none or one that has been used before. -/
def makeRoots (names : IndDescr → Option Nat) (create : List Nat → IndDescr → Option Nat) :
    (Nat → Nat) → List Nat → List IndDescr → Option (List Nat × (Nat → Nat))
  | old_roots, _, [] => some ([], old_roots)
  | old_roots, blocks, nind :: rest =>
      match (names nind).filter fun j => decide (old_roots j ≠ 0) with
      | some j =>
          (makeRoots names create (Function.update old_roots j 0) blocks rest).map
            fun made => (old_roots j :: made.1, made.2)
      | none =>
          match create blocks nind with
          | none => none
          | some root =>
              (makeRoots names create old_roots (root :: blocks) rest).map
                fun made => (root :: made.1, made.2)

/-- The old trees that are dropped: the roots no index has taken, with the sizes of items. -/
def dropUnused (old_roots : Nat → Nat) : List DdIndex → Nat → List (Nat × Nat)
  | [], _ => []
  | oindx :: rest, i =>
      if old_roots i ≠ 0 then (old_roots i, oindx.bigstep) :: dropUnused old_roots rest (i + 1)
      else dropUnused old_roots rest (i + 1)

/-- The array of roots in a basic block. -/
def rootArray (roots : List Nat) : Nat → Nat := fun i => roots.getD i 0

/-- What is left in the memory, the basic blocks and the transaction. -/
structure Altered where
  done : Bool
  committed : Bool
  drops : List (Nat × Nat)
  newRoots : List Nat
  indroot_old : Nat → Nat
  indroot_new : Nat → Nat

/-- The number of the original index. -/
def stateNumber (nind : IndDescr) : Option Nat :=
  match nind.state with
  | .old number => some number
  | _ => none

structure SameDefinition (oindx nindx : DdIndex) : Prop where
  parts : nindx.parts = oindx.parts
  keysize : nindx.keysize = oindx.keysize
  ccateg : nindx.ccateg = oindx.ccateg
  has_nulls : nindx.has_nulls = oindx.has_nulls

/-- A table whose definitions are changed and whose data stay. A state that is a number is the
number of the original index. -/
structure Change where
  ta : TableAll
  tbdf : TableDescr
  blocks : List Nat
  used : ∀ j, tbdf.indroot j ≠ 0 → tbdf.indroot j ∈ blocks
  original : ∀ nind ∈ ta.kept, ∀ number, stateNumber nind = some number →
    ∀ oindx, tbdf.indxs[number]? = some oindx → SameDefinition oindx nind.indx

section Changing

variable (env : Environment) (change : Change)

def compileAndCreate (blocks : List Nat) (nind : IndDescr) : Option Nat :=
  if env.compile_index nind then env.create_btree blocks nind.indx else none

/-- The drops of a transaction that is not committed are undone. -/
def change_indicies : Altered :=
  let indroot := change.tbdf.indroot
  if env.access_block 0 then
    match makeRoots stateNumber (compileAndCreate env) indroot change.blocks change.ta.kept with
    | none => ⟨false, false, [], [], indroot, indroot⟩
    | some made =>
        if env.commit then
          ⟨true, true, dropUnused made.2 change.tbdf.indxs 0, made.1, rootArray made.1,
            rootArray made.1⟩
        else ⟨false, false, [], [], indroot, indroot⟩
  else ⟨false, false, [], [], indroot, indroot⟩

end Changing

/-- A table and the new table with its data. The trees the new table was created with are not
used by the old one. -/
structure Transformation where
  ta_old : TableAll
  ta_new : TableAll
  tbdf_old : TableDescr
  tbdf_new : TableDescr
  blocks : List Nat
  used : ∀ j, tbdf_old.indroot j ≠ 0 → tbdf_old.indroot j ∈ blocks
  apart : ∀ nind ∈ ta_new.kept, ∀ j, tbdf_old.indroot j ≠ 0 → nind.indx.root ≠ tbdf_old.indroot j

/-- The trees of the new table that are not used, with the sizes of their items. -/
def dropOriginals : List IndDescr → List (Nat × Nat)
  | [] => []
  | nind :: rest =>
      if nind.indx.root ≠ 0 then (nind.indx.root, nind.indx.bigstep) :: dropOriginals rest
      else dropOriginals rest

section Transforming

variable (env : Environment) (tables : Transformation)

/-- The first old index with the same definition. -/
def same_old_index (nind : IndDescr) : Option Nat :=
  tables.tbdf_old.indxs.findIdx? fun oindx =>
    same_index tables.ta_old tables.ta_new oindx nind.indx

def createTree (blocks : List Nat) (nind : IndDescr) : Option Nat :=
  env.create_btree blocks nind.indx

def transform_indexes : Altered :=
  let indroot_old := tables.tbdf_old.indroot
  let indroot_new := tables.tbdf_new.indroot
  if env.access_block 0 then
    match makeRoots (same_old_index tables) (createTree env) indroot_old tables.blocks
        tables.ta_new.kept with
    | none => ⟨false, false, [], [], indroot_old, indroot_new⟩
    | some made =>
        if env.commit then
          -- turning point, no rollback possible
          let drops := dropOriginals tables.ta_new.kept ++
            dropUnused made.2 tables.tbdf_old.indxs 0
          let sameBlock := decide (tables.tbdf_new.basblockn = tables.tbdf_old.basblockn)
          if env.access_block 1 && (sameBlock || env.access_block 2) then
            ⟨true, true, drops, made.1,
              if sameBlock then rootArray made.1 else fun _ => 0, rootArray made.1⟩
          else ⟨false, true, drops, made.1, indroot_old, indroot_new⟩
        else ⟨false, false, [], [], indroot_old, indroot_new⟩
  else ⟨false, false, [], [], indroot_old, indroot_new⟩

end Transforming

end Sql602.IndexAlteration
