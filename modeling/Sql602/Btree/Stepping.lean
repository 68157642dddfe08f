import Sql602.Btree.Division

namespace Sql602.Btree

/-! Passing the keys of an index tree from a position in a leaf. -/

/-- The path is empty after the last key has been passed. -/
structure BtreeAcc where
  stack : List StkCell
  skipCurrent : Bool

/-- The number of positions: keys of a leaf, pointers of an inner node. -/
def Node.cnt {α β : Type} : Node α β → Nat
  | .leaf keys => keys.length
  | .inner first entries => (Node.inner first entries).children.length

variable {α β : Type}

/-- Going upwards while the position is behind the node. -/
def stepUp (pages : Pages α β) : StkCell → List StkCell → Option (StkCell × List StkCell)
  | cell, [] =>
      match pages cell.nn with
      | some node => if cell.posit < node.cnt then some (cell, []) else none
      | none => none
  | cell, father :: above =>
      match pages cell.nn with
      | some node =>
          if cell.posit < node.cnt then some (cell, father :: above)
          else stepUp pages ⟨father.nn, father.posit + 1⟩ above
      | none => none

/-- Going down to a leaf by the first pointers. -/
def stepDown (pages : Pages α β) : Nat → StkCell → List StkCell →
    Option (Key α β × List StkCell)
  | 0, _, _ => none
  | room + 1, cell, above =>
      match pages cell.nn with
      | none => none
      | some (.leaf keys) => (keys[cell.posit]?).map fun key => (key, cell :: above)
      | some (.inner first entries) =>
          stepDown pages room
            ⟨(Node.inner first entries).children.getD cell.posit 0, 0⟩ (cell :: above)

def btreeStep (pages : Pages α β) (bac : BtreeAcc) : Option (Key α β) × BtreeAcc :=
  match bac.stack with
  | [] => (none, bac)
  | cell :: above =>
      let posit := if bac.skipCurrent then cell.posit + 1 else cell.posit
      match stepUp pages ⟨cell.nn, posit⟩ above with
      | none => (none, ⟨[], true⟩)
      | some (cell, above) =>
          match stepDown pages (BSTACK_LEN - above.length) cell above with
          | none => (none, ⟨[], true⟩)
          | some (key, stack) => (some key, ⟨stack, true⟩)

/-- What a call returns after some calls before it. -/
def nthStep (pages : Pages α β) : Nat → BtreeAcc → Option (Key α β)
  | 0, bac => (btreeStep pages bac).1
  | i + 1, bac => nthStep pages i (btreeStep pages bac).2

/-! The keys of a tree of some height, and those behind a position in it. -/

def leafKeys (pages : Pages α β) : Nat → Nat → List (Key α β)
  | 0, n =>
      match pages n with
      | some (.leaf keys) => keys
      | _ => []
  | h + 1, n =>
      match pages n with
      | some node => node.children.flatMap (leafKeys pages h)
      | none => []

/-- The keys from a position in a node on. -/
def keysFrom (pages : Pages α β) : Nat → StkCell → List (Key α β)
  | 0, cell => (leafKeys pages 0 cell.nn).drop cell.posit
  | h + 1, cell =>
      match pages cell.nn with
      | some node => (node.children.drop cell.posit).flatMap (leafKeys pages h)
      | none => []

/-- The keys behind the positions of a path. -/
def keysBehind (pages : Pages α β) : Nat → List StkCell → List (Key α β)
  | _, [] => []
  | h, cell :: above =>
      keysFrom pages h ⟨cell.nn, cell.posit + 1⟩ ++ keysBehind pages (h + 1) above

def keysAhead (pages : Pages α β) (bac : BtreeAcc) : List (Key α β) :=
  match bac.stack with
  | [] => []
  | cell :: above =>
      if bac.skipCurrent then keysBehind pages 0 (cell :: above)
      else keysFrom pages 0 cell ++ keysBehind pages 1 above

/-- Only the root can be an empty leaf. -/
def Filled (pages : Pages α β) (root : Nat) : Prop :=
  ∀ n, Linked pages root n → n ≠ root → pages n ≠ some (.leaf [])

variable {pages : Pages α β} {n h root posit : Nat} {cell : StkCell} {above : List StkCell}
  {keys : List (Key α β)} {node : Node α β}

theorem leafKeys_leaf (page : pages n = some (.leaf keys)) : leafKeys pages 0 n = keys := by
  rw [leafKeys, page]

theorem leafKeys_node (page : pages n = some node) :
    leafKeys pages (h + 1) n = node.children.flatMap (leafKeys pages h) := by
  rw [leafKeys, page]

theorem keysFrom_node (page : pages cell.nn = some node) :
    keysFrom pages (h + 1) cell =
      (node.children.drop cell.posit).flatMap (leafKeys pages h) := by
  rw [keysFrom, page]

theorem keysFrom_start : keysFrom pages h ⟨n, 0⟩ = leafKeys pages h n := by
  cases h with
  | zero => rfl
  | succ h =>
      rw [keysFrom, leafKeys]
      cases pages n <;> rfl

section Path

variable [LinearOrder β] {index : IndexDescr α}

theorem SubTree.page {low high : Option (Key α β)} (htree : SubTree index pages h n low high) :
    ∃ node, pages n = some node := by
  cases htree with
  | leaf page => exact ⟨_, page⟩
  | inner page => exact ⟨_, page⟩

/-- The position in the first node of a path is free. -/
theorem IsPath.move (hpath : IsPath index pages root h (cell :: above)) (posit : Nat) :
    IsPath index pages root h (⟨cell.nn, posit⟩ :: above) := by
  cases hpath with
  | root tree => exact IsPath.root tree
  | child path tree branch => exact IsPath.child path tree branch

theorem IsPath.tree (hpath : IsPath index pages root h (cell :: above)) :
    ∃ low high, SubTree index pages h cell.nn low high := by
  cases hpath with
  | root tree => exact ⟨none, none, tree⟩
  | child path tree branch => exact ⟨_, _, tree⟩

theorem keysFrom_eq_nil (hpath : IsPath index pages root h (cell :: above))
    (page : pages cell.nn = some node) (hposit : node.cnt ≤ cell.posit) :
    keysFrom pages h cell = [] := by
  obtain ⟨low, high, htree⟩ := hpath.tree
  cases htree with
  | leaf leaf =>
      cases leaf.symm.trans page
      rw [keysFrom, leafKeys_leaf page]
      exact List.drop_eq_nil_of_le hposit
  | inner inner =>
      cases inner.symm.trans page
      rw [keysFrom_node page, List.drop_eq_nil_of_le hposit, List.flatMap_nil]

theorem IsPath.root_mem {path : List StkCell} (hpath : IsPath index pages root h path) :
    root ∈ path.map StkCell.nn := by
  induction hpath with
  | root tree => exact List.mem_cons_self
  | child path tree branch ih => exact List.mem_cons_of_mem _ ih

/-- A node below another one has at least one position. -/
theorem IsPath.cnt_pos {father : StkCell} (hfilled : Filled pages root)
    (hpath : IsPath index pages root h (cell :: father :: above))
    (page : pages cell.nn = some node) : 0 < node.cnt := by
  have hnot : cell.nn ≠ root := by
    intro heq
    have hnodup := hpath.nodup
    rw [List.map_cons, List.nodup_cons, heq] at hnodup
    cases hpath with
    | child path tree branch => exact hnodup.1 path.root_mem
  cases node with
  | inner first entries => exact Nat.zero_lt_succ _
  | leaf keys =>
      apply List.length_pos_iff.mpr
      rintro rfl
      exact hfilled _ (hpath.linked cell List.mem_cons_self) hnot page

/-- Where going upwards ends. -/
def StepsUpTo (index : IndexDescr α) (pages : Pages α β) (root : Nat) (rest : List (Key α β)) :
    Option (StkCell × List StkCell) → Prop
  | none => rest = []
  | some (cell, above) =>
      ∃ h node, IsPath index pages root h (cell :: above) ∧ pages cell.nn = some node ∧
        cell.posit < node.cnt ∧ rest = keysFrom pages h cell ++ keysBehind pages (h + 1) above

theorem stepUp_spec (hpath : IsPath index pages root h (cell :: above)) :
    StepsUpTo index pages root (keysFrom pages h cell ++ keysBehind pages (h + 1) above)
      (stepUp pages cell above) := by
  induction above generalizing h cell with
  | nil =>
      obtain ⟨low, high, htree⟩ := hpath.tree
      obtain ⟨node, page⟩ := htree.page
      rw [stepUp, page]
      dsimp only
      split
      · next hposit => exact ⟨h, node, hpath, page, hposit, rfl⟩
      · next hposit =>
          rw [keysFrom_eq_nil hpath page (Nat.le_of_not_lt hposit)]
          rfl
  | cons father above ih =>
      obtain ⟨low, high, htree⟩ := hpath.tree
      obtain ⟨node, page⟩ := htree.page
      rw [stepUp, page]
      dsimp only
      split
      · next hposit => exact ⟨h, node, hpath, page, hposit, rfl⟩
      · next hposit =>
          rw [keysFrom_eq_nil hpath page (Nat.le_of_not_lt hposit), List.nil_append]
          cases hpath with
          | child path tree branch => exact ih (path.move (father.posit + 1))

/-- What going down to a leaf returns. -/
def StepsDownTo (index : IndexDescr α) (pages : Pages α β) (root : Nat)
    (rest : List (Key α β)) : Option (Key α β × List StkCell) → Prop
  | none => False
  | some (key, stack) => IsPath index pages root 0 stack ∧ rest = key :: keysBehind pages 0 stack

theorem stepDown_spec {room : Nat} (hfilled : Filled pages root)
    (hpath : IsPath index pages root h (cell :: above)) (page : pages cell.nn = some node)
    (hposit : cell.posit < node.cnt) (hroom : h < room) :
    StepsDownTo index pages root (keysFrom pages h cell ++ keysBehind pages (h + 1) above)
      (stepDown pages room cell above) := by
  induction h generalizing room cell above node with
  | zero =>
      obtain ⟨room, rfl⟩ := Nat.exists_eq_add_of_lt hroom
      rw [Nat.zero_add]
      obtain ⟨low, high, htree⟩ := hpath.tree
      cases htree with
      | @leaf _ _ _ keys leaf =>
          cases leaf.symm.trans page
          have hkey : keys[cell.posit]? = some keys[cell.posit] := List.getElem?_eq_getElem hposit
          rw [stepDown, page]
          dsimp only
          rw [hkey]
          refine ⟨hpath, ?_⟩
          rw [keysBehind, keysFrom, keysFrom, leafKeys_leaf page, List.drop_eq_getElem_cons hposit]
          rfl
  | succ h ih =>
      obtain ⟨room, rfl⟩ := Nat.exists_eq_add_of_lt hroom
      obtain ⟨low, high, htree⟩ := hpath.tree
      cases htree with
      | @inner _ _ _ _ first entries inner sorted inside branch =>
          cases inner.symm.trans page
          generalize hchildren : (Node.inner first entries).children = children at *
          have hin : cell.posit < children.length := hchildren ▸ hposit
          have hchild : children[cell.posit]? = some children[cell.posit] :=
            List.getElem?_eq_getElem hin
          have hget : children.getD cell.posit 0 = children[cell.posit] := by
            rw [List.getD_eq_getElem?_getD, hchild]
            rfl
          have hdown : IsPath index pages root h
              (⟨children[cell.posit], 0⟩ :: cell :: above) := by
            refine IsPath.child hpath (branch _ _ hchild) ⟨_, page, ?_⟩
            rw [hchildren]
            exact hchild
          obtain ⟨below, hbelow⟩ := (branch _ _ hchild).page
          have hcnt : 0 < below.cnt := hdown.cnt_pos hfilled hbelow
          rw [stepDown, page]
          dsimp only
          rw [hchildren, hget]
          have hspec := ih hdown hbelow hcnt (show h < h + 1 + room by omega)
          rw [keysFrom_start] at hspec
          rw [keysFrom_node page, hchildren, List.drop_eq_getElem_cons hin, List.flatMap_cons,
            List.append_assoc]
          have hbehind : keysFrom pages (h + 1) ⟨cell.nn, cell.posit + 1⟩ =
              (children.drop (cell.posit + 1)).flatMap (leafKeys pages h) := by
            rw [keysFrom, page, ← hchildren]
          rw [keysBehind, hbehind] at hspec
          exact hspec

/-- The path leads to the root, or the passing has ended. -/
def Positioned (index : IndexDescr α) (pages : Pages α β) (root : Nat) (bac : BtreeAcc) : Prop :=
  bac.stack = [] ∨ IsPath index pages root 0 bac.stack

theorem IsPath.height_lt {path : List StkCell} {room : Nat} (hpath : IsPath index pages root h path)
    (hroot : ∀ H, SubTree index pages H root none none → H < room) :
    h + path.length ≤ room := by
  induction hpath with
  | root tree => exact hroot _ tree
  | child path tree branch ih =>
      rw [List.length_cons]
      omega

/-- A step returns the first of the keys ahead, and leaves the others ahead. -/
theorem btreeStep_spec {bac : BtreeAcc} (hfilled : Filled pages root)
    (hroot : ∀ H, SubTree index pages H root none none → H < BSTACK_LEN)
    (hpos : Positioned index pages root bac) :
    (btreeStep pages bac).1 = (keysAhead pages bac).head? ∧
      keysAhead pages (btreeStep pages bac).2 = (keysAhead pages bac).tail ∧
      Positioned index pages root (btreeStep pages bac).2 := by
  obtain ⟨stack, skipCurrent⟩ := bac
  cases stack with
  | nil => exact ⟨rfl, rfl, Or.inl rfl⟩
  | cons cell above =>
      have hpath : IsPath index pages root 0 (cell :: above) :=
        hpos.resolve_left (List.cons_ne_nil _ _)
      generalize hposit : (if skipCurrent then cell.posit + 1 else cell.posit) = posit
      have hahead : keysAhead pages ⟨cell :: above, skipCurrent⟩ =
          keysFrom pages 0 ⟨cell.nn, posit⟩ ++ keysBehind pages 1 above := by
        subst hposit
        cases skipCurrent <;> rfl
      have hup := stepUp_spec (hpath.move posit)
      rw [btreeStep]
      dsimp only
      rw [hposit, hahead]
      generalize keysFrom pages 0 ⟨cell.nn, posit⟩ ++ keysBehind pages 1 above = rest at *
      cases hupwards : stepUp pages ⟨cell.nn, posit⟩ above with
      | none =>
          rw [hupwards] at hup
          cases hup
          exact ⟨rfl, rfl, Or.inl rfl⟩
      | some result =>
          obtain ⟨top, above⟩ := result
          rw [hupwards] at hup
          obtain ⟨h, node, htop, page, hin, rfl⟩ := hup
          have hheight := htop.height_lt hroot
          rw [List.length_cons] at hheight
          have hdown := stepDown_spec hfilled htop page hin
            (show h < BSTACK_LEN - above.length by omega)
          dsimp only
          cases hdownwards : stepDown pages (BSTACK_LEN - above.length) top above with
          | none =>
              rw [hdownwards] at hdown
              exact hdown.elim
          | some found =>
              obtain ⟨key, path⟩ := found
              rw [hdownwards] at hdown
              obtain ⟨hleaf, hkeys⟩ := hdown
              rw [hkeys]
              refine ⟨rfl, ?_, Or.inr hleaf⟩
              cases path with
              | nil => rfl
              | cons => rfl

theorem nthStep_spec {bac : BtreeAcc} {i : Nat} (hfilled : Filled pages root)
    (hroot : ∀ H, SubTree index pages H root none none → H < BSTACK_LEN)
    (hpos : Positioned index pages root bac) :
    nthStep pages i bac = (keysAhead pages bac)[i]? := by
  induction i generalizing bac with
  | zero =>
      rw [nthStep, (btreeStep_spec hfilled hroot hpos).1, List.head?_eq_getElem?]
  | succ i ih =>
      obtain ⟨-, hahead, hnext⟩ := btreeStep_spec hfilled hroot hpos
      rw [nthStep, ih hnext, hahead, List.getElem?_tail]

end Path

end Sql602.Btree
