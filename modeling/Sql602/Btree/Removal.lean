import Sql602.Btree.Insertion

namespace Sql602.Btree

/-! The removal of a key from an index tree: the item in the leaf, and the joining of nodes
upwards along the path. -/

/-- What the calls that may fail return. The level is that of the node whose father or brother
is fixed, and the flag says if this is the left brother. -/
structure RemoveCircumstances where
  fixesLeaf : Bool
  fixesFather : Nat → Bool
  fixesBrother : Nat → Bool → Bool
  fixesRoot : Bool
  fixesSole : Bool

variable {α β : Type}

/-- The pointer of an entry goes, with the key of the next one. -/
def withoutPointer : List (Key α β × Nat) → Nat → List (Key α β × Nat)
  | entry :: next :: rest, 0 => (entry.1, next.2) :: rest
  | entry :: rest, i + 1 => entry :: withoutPointer rest i
  | entries, _ => entries

namespace Node

/-- A leaf without the key, or an inner node without the branch and the key before it or behind
it. It is missing when an inner node has no other branch. -/
def removed (toLeft : Bool) (posit : Nat) : Node α β → Option (Node α β)
  | leaf keys => some (leaf (if 1 < keys.length then keys.eraseIdx posit else []))
  | inner _ [] => none
  | inner first (entry :: entries) =>
      if toLeft = true ∨ entries.length < posit then
        some (inner first ((entry :: entries).eraseIdx (posit - 1)))
      else
        match posit with
        | 0 => some (inner entry.2 entries)
        | i + 1 => some (inner first (withoutPointer (entry :: entries) i))

/-- The size of the rest of a node. -/
def restSize (keysize : Nat) : Option (Node α β) → Nat
  | some node => node.dtsize keysize
  | none => 0

end Node

/-- Two brothers of one kind, with the key between inner nodes. They are not joined when the
page might be too small. -/
def joinedNode (keysize : Nat) :
    Option (Node α β) → Option (Node α β) → Option (Key α β × Nat) → Option (Node α β)
  | some left, some right, some sep =>
      if left.dtsize keysize + right.dtsize keysize + 2 * keysize + 4 ≤ IBLOCKSIZE - IHDRSIZE then
        match left, right with
        | .leaf keys, .leaf others => some (.leaf (keys ++ others))
        | .inner first entries, .inner other others =>
            some (.inner first (entries ++ (sep.1, other) :: others))
        | _, _ => none
      else none
  | _, _, _ => none

section

variable (index : IndexDescr α) (circumstances : RemoveCircumstances)

/-- Check the right brother. -/
def joinRight (level nn first : Nat) (entries : List (Key α β × Nat)) (posit : Nat)
    (rest : Option (Node α β)) (pages : Pages α β) : Option Bool × Pages α β :=
  if posit < entries.length then
    let brother := (Node.inner first entries).children.getD (posit + 1) 0
    if circumstances.fixesBrother level false = false then (none, pages)
    else
      match joinedNode index.keysize rest (pages brother) entries[posit]? with
      | some node =>
          (some false, Function.update (Function.update pages brother (some node)) nn none)
      | none => (none, pages)
  else (none, pages)

/-- Check joining of nodes. The result is the direction that the removing continues in, and the
page of the node is released then. -/
def checkJoining (level nn first : Nat) (entries : List (Key α β × Nat)) (posit : Nat)
    (rest : Option (Node α β)) (pages : Pages α β) : Option Bool × Pages α β :=
  if Node.restSize index.keysize rest = 0 then (some false, Function.update pages nn none)
  else if posit = 0 then joinRight index circumstances level nn first entries posit rest pages
  else
    let brother := (Node.inner first entries).children.getD (posit - 1) 0
    if circumstances.fixesBrother level true = false then (none, pages)
    else
      match joinedNode index.keysize (pages brother) rest entries[posit - 1]? with
      | some node =>
          (some true, Function.update (Function.update pages brother (some node)) nn none)
      | none => joinRight index circumstances level nn first entries posit rest pages

/-- What is done with the rest of a node below its father. -/
def leaveRest (level nn : Nat) (father : StkCell) (rest : Option (Node α β))
    (pages : Pages α β) : Option Bool × Pages α β :=
  let pages := Function.update pages nn rest
  if Node.restSize index.keysize rest < (IBLOCKSIZE - IHDRSIZE) / 2 then
    if circumstances.fixesFather level = false then (none, pages)
    else
      match pages father.nn with
      | some (.inner first entries) =>
          checkJoining index circumstances level nn first entries father.posit rest pages
      | _ => (none, pages)
  else (none, pages)

/-- The loop of `remove_item`. The result says if it ends in the root, and has the pages that are
released. There is none when the root would be left without branches. -/
def removeLoop (above : List StkCell) (level : Nat) (toLeft : Bool) (cell : StkCell)
    (pages : Pages α β) (freed : List Nat) : Option (Bool × Pages α β × List Nat) :=
  match pages cell.nn with
  | none => none
  | some node =>
      let rest := node.removed toLeft cell.posit
      match above with
      | [] => rest.map fun rest => (true, Function.update pages cell.nn (some rest), freed)
      | father :: above =>
          match leaveRest index circumstances level cell.nn father rest pages with
          | (none, pages) => some (false, pages, freed)
          | (some toLeft, pages) =>
              removeLoop above (level + 1) toLeft father pages (cell.nn :: freed)

/-- Something removed from the root: its only branch is copied to it. -/
def shrinkRoot (root : Nat) (pages : Pages α β) (freed : List Nat) :
    Bool × Pages α β × List Nat :=
  if circumstances.fixesRoot = false then (false, pages, freed)
  else
    match pages root with
    | some (.inner sdadr []) =>
        if circumstances.fixesSole = false then (false, pages, freed)
        else
          (true, Function.update (Function.update pages root (pages sdadr)) sdadr none,
            sdadr :: freed)
    | _ => (true, pages, freed)

/-- Removes the positioned item. -/
def btRemove2 (root : Nat) (stack : List StkCell) (pages : Pages α β) :
    Option (Bool × Pages α β × List Nat) :=
  match stack with
  | [] => none
  | cell :: above =>
      if circumstances.fixesLeaf = false then some (false, pages, [])
      else
        match removeLoop index circumstances above 0 false cell pages [] with
        | none => none
        | some (true, pages, freed) => some (shrinkRoot circumstances root pages freed)
        | some (false, pages, freed) => some (true, pages, freed)

/-! The release of a whole index. -/

/-- The children that are read from a node: none from a page without a sound node. -/
def droppedChildren (keysize : Nat) : Option (Node α β) → List Nat
  | some node => if node.dtsize keysize ≤ IBLOCKSIZE - IHDRSIZE then node.children else []
  | none => []

/-- The pages in the order in which they are released. They are missing when there is no end. -/
def dropIndex (valid : Nat → Bool) (pages : Pages α β) : Nat → Nat → Option (List Nat)
  | 0, _ => none
  | fuel + 1, root =>
      if root ≠ 0 ∧ valid root = true then
        ((droppedChildren index.keysize (pages root)).mapM (dropIndex valid pages fuel)).map
          fun freed => freed.flatten ++ [root]
      else some []

/-- The root is left as an empty leaf. -/
def truncateIndex (valid : Nat → Bool) (pages : Pages α β) (fuel root : Nat) :
    Option (Pages α β × List Nat) :=
  if root = 0 then some (pages, [])
  else
    ((droppedChildren index.keysize (pages root)).mapM (dropIndex index valid pages fuel)).map
      fun freed => (Function.update pages root (some (.leaf [])), freed.flatten)

variable [LinearOrder β]

/-- The result is true iff the key has been found, and has the pages that are released. -/
def btRemove (searching : Circumstances) (root : Nat) (key : Key α β) (pages : Pages α β) :
    Option (Bool × Pages α β × List Nat) :=
  if root = 0 then some (false, pages, [])
  else if index.hasNulls = false ∧ index.isNullKey key.value = true then some (true, pages, [])
  else
    match buildStack index searching key pages BSTACK_LEN 0 root [] with
    | none => some (false, pages, [])
    | some (res, stack) =>
        if res = (true, .eq) then btRemove2 index circumstances root stack pages
        else some (false, pages, [])

end

end Sql602.Btree
