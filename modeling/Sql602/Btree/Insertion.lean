import Mathlib.Logic.Function.Basic
import Sql602.Btree.Nodes

namespace Sql602.Btree

/-! The insertion of a key into an index tree: the path to the leaf, and the divisions of
nodes upwards along it. -/

structure StkCell where
  nn : Nat
  posit : Nat

/-- What the calls that may fail return: the fixing of pages by the depth or the level of the
node, where level 0 is that of the leaf, and the allocation of pages for the division of a
node or for the old root. Page 0 says that none has been allocated. -/
structure Circumstances where
  fixesAny : Nat → Bool
  fixesPriv : Nat → Bool
  allocated : Nat → Nat
  fixesNew : Nat → Bool
  rootAllocated : Nat → Nat
  rootFixesNew : Nat → Bool

variable {α β : Type} [LinearOrder β]

/-- The path for the key, with the leaf first, and the comparison in the leaf. -/
def buildStack (index : IndexDescr α) (circumstances : Circumstances) (key : Key α β)
    (pages : Pages α β) : Nat → Nat → Nat → List StkCell →
      Option ((Bool × Ordering) × List StkCell)
  | 0, _, _, _ => none
  | room + 1, depth, nodeNum, stack =>
      if circumstances.fixesAny depth = false then none
      else
        match pages nodeNum with
        | none => none
        | some (.leaf keys) =>
            let (res, posit) := nodeSeek index key (.leaf keys)
            some (res, ⟨nodeNum, posit⟩ :: stack)
        | some (.inner first entries) =>
            let posit := (nodeSeek index key (.inner first entries)).2
            buildStack index circumstances key pages room (depth + 1)
              ((Node.inner first entries).children.getD posit 0) (⟨nodeNum, posit⟩ :: stack)

/-- For a distinct index no step to another leaf is made. -/
def getKeyRec (index : IndexDescr α) (key : Key α β) (pages : Pages α β) :
    List StkCell → Bool
  | [] => false
  | cell :: _ =>
      match pages cell.nn with
      | some (.leaf keys) => (cmpAt index key keys cell.posit).1
      | _ => false

/-- The number of keys to be left in the original node. -/
def isleave (cnt posit : Nat) : Nat :=
  if cnt % 2 = 1 ∧ cnt / 2 ≤ posit then cnt / 2 + 1 else cnt / 2

def divide {γ : Type} (items : List γ) (posit : Nat) (item : γ) : List γ × List γ :=
  let left := isleave items.length posit
  if left ≤ posit then (items.take left, (items.drop left).insertIdx (posit - left) item)
  else ((items.take left).insertIdx posit item, items.drop left)

namespace Node

/-- The node, the new node behind it and the key between them. In an inner node the last
entry of the first part is taken apart. -/
def divided (node : Node α β) (posit : Nat) (item : Key α β × Nat) :
    Node α β × Node α β × Key α β :=
  match node with
  | leaf keys =>
      let parts := divide keys posit item.1
      (leaf parts.1, leaf parts.2, parts.1.getLastD item.1)
  | inner first entries =>
      let parts := divide entries posit item
      let last := parts.1.getLastD item
      (inner first parts.1.dropLast, inner last.2 parts.2, last.1)

def placed (node : Node α β) (posit : Nat) (item : Key α β × Nat) : Node α β :=
  match node with
  | leaf keys => leaf (keys.insertIdx posit item.1)
  | inner first entries => inner first (entries.insertIdx posit item)

/-- Must divide the node. -/
def full (keysize : Nat) (node : Node α β) : Bool :=
  decide (IBLOCKSIZE - IHDRSIZE < node.dtsize keysize + node.step keysize)

end Node

/-- In overflows, returns true and the new item. -/
def insertItem (index : IndexDescr α) (circumstances : Circumstances) (level nn posit : Nat)
    (item : Key α β × Nat) (pages : Pages α β) : Bool × (Key α β × Nat) × Pages α β :=
  match pages nn with
  | none => (false, item, pages)
  | some node =>
      if node.full index.keysize = true then
        let dadr1 := circumstances.allocated level
        if dadr1 = 0 ∨ circumstances.fixesNew level = false then (false, item, pages)
        else
          let (left, right, up) := node.divided posit item
          (true, (up, dadr1),
            Function.update (Function.update pages dadr1 (some right)) nn (some left))
      else (false, item, Function.update pages nn (some (node.placed posit item)))

/-- The result is true on error. It is missing when there is no end. -/
def insertLoop (index : IndexDescr α) (circumstances : Circumstances) :
    Nat → Nat → StkCell → List StkCell → Key α β × Nat → Pages α β →
      Option (Bool × Pages α β)
  | 0, _, _, _, _, _ => none
  | fuel + 1, level, cell, above, item, pages =>
      match insertItem index circumstances level cell.nn cell.posit item pages with
      | (false, _, pages) => some (false, pages)
      | (true, item, pages) =>
          match above with
          | father :: above =>
              if circumstances.fixesPriv (level + 1) = false then some (true, pages)
              else insertLoop index circumstances fuel (level + 1) father above item pages
          | [] =>
              -- tree grows, must copy the current root
              let nodeNum := circumstances.rootAllocated level
              if nodeNum = 0 ∨ circumstances.rootFixesNew level = false then some (true, pages)
              else
                insertLoop index circumstances fuel (level + 1) ⟨cell.nn, 0⟩ [] item
                  (Function.update (Function.update pages nodeNum (pages cell.nn)) cell.nn
                    (some (.inner nodeNum [])))

/-- A new item has no page behind its key. The flag `masks` masks errors of duplicity. -/
def btInsert (index : IndexDescr α) (circumstances : Circumstances) (masks : Bool)
    (root : Nat) (key : Key α β) (pages : Pages α β) : Option (Bool × Pages α β) :=
  if root = 0 then some (true, pages)
  else if index.isNullKey key.value = true ∧ index.hasNulls = false then some (false, pages)
  else
    match buildStack index circumstances key pages BSTACK_LEN 0 root [] with
    | none => some (true, pages)
    | some (res, stack) =>
        if index.distinct = true ∧ getKeyRec index key pages stack = true then
          some (!masks, pages)
        else if res = (true, .eq) then some (false, pages)
        else
          match stack with
          | [] => some (true, pages)
          | cell :: above =>
              if circumstances.fixesPriv 0 = false then some (true, pages)
              else
                insertLoop index circumstances (stack.length + 1) 0 cell above (key, 0) pages

end Sql602.Btree
