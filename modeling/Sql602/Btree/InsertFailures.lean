import Mathlib.Data.List.Nodup
import Sql602.Btree.Division

namespace Sql602.Btree

/-! An insertion that gets no page for the division of a node. -/

variable {α β : Type} [LinearOrder β]
  {index : IndexDescr α} {circumstances : Circumstances} {key : Key α β}
  {pages next after : Pages α β} {root level : Nat} {path : List StkCell}
  {item : Key α β × Nat} {cell : StkCell} {node : Node α β}

/-- The pages that are allocated are not used in the tree, and each one is allocated once. -/
structure Circumstances.Fresh (circumstances : Circumstances) (pages : Pages α β)
    (root : Nat) : Prop where
  item : ∀ i, circumstances.allocated i ≠ 0 → ¬ Linked pages root (circumstances.allocated i)
  grown : ∀ i, circumstances.rootAllocated i ≠ 0 →
    ¬ Linked pages root (circumstances.rootAllocated i)
  items : ∀ i j, circumstances.allocated i ≠ 0 →
    circumstances.allocated i = circumstances.allocated j → i = j
  apart : ∀ i j, circumstances.allocated i ≠ 0 →
    circumstances.allocated i ≠ circumstances.rootAllocated j

/-! The path by the levels of its nodes. -/

structure InsertPath (pages : Pages α β) (root : Nat) (path : List StkCell) : Prop where
  nonempty : path ≠ []
  linked : ∀ (i : Nat) (cell : StkCell), path[i]? = some cell → Linked pages root cell.nn
  apart : ∀ (i j : Nat) (cell other : StkCell), path[i]? = some cell → path[j]? = some other →
    cell.nn = other.nn → i = j
  branch : ∀ (i : Nat) (cell father : StkCell), path[i]? = some cell → path[i + 1]? = some father →
    BranchAt pages father.nn father.posit cell.nn
  top : ∀ (i : Nat) (cell : StkCell), path[i]? = some cell → path[i + 1]? = none → cell.nn = root
  leaf : ∀ cell : StkCell, path[0]? = some cell →
    ∃ keys, pages cell.nn = some (.leaf keys) ∧ cell.posit ≤ keys.length

theorem IsPath.branch_at {h : Nat} (hpath : IsPath index pages root h path) :
    ∀ (i : Nat) (cell father : StkCell), path[i]? = some cell → path[i + 1]? = some father →
      BranchAt pages father.nn father.posit cell.nn := by
  induction hpath with
  | root tree =>
      intro i cell father _ hfather
      cases hfather
  | child path tree branch ih =>
      intro i cell father hcell hfather
      cases i with
      | zero =>
          cases hcell
          cases hfather
          exact branch
      | succ i => exact ih i cell father hcell hfather

theorem IsPath.top_at {h : Nat} (hpath : IsPath index pages root h path) :
    ∀ (i : Nat) (cell : StkCell), path[i]? = some cell → path[i + 1]? = none → cell.nn = root := by
  induction hpath with
  | root tree =>
      intro i cell hcell _
      cases i with
      | zero =>
          cases hcell
          rfl
      | succ i => cases hcell
  | child path tree branch ih =>
      intro i cell hcell hnone
      cases i with
      | zero => cases hnone
      | succ i => exact ih i cell hcell hnone

theorem LeafPath.insertPath {res : Bool × Ordering}
    (hpath : LeafPath index pages root key res path)
    (hsorted : ∀ n keys, Linked pages root n → pages n = some (.leaf keys) →
      Sorted index keys) :
    InsertPath pages root path where
  nonempty := by
    obtain ⟨cell, above, keys, rfl, -, -⟩ := hpath.leaf
    exact List.cons_ne_nil _ _
  linked i cell hcell := hpath.isPath.linked cell (List.mem_of_getElem? hcell)
  apart i j cell other hcell hother heq := by
    have hnodup := hpath.isPath.nodup
    obtain ⟨hi, hget⟩ := List.getElem?_eq_some_iff.mp hcell
    obtain ⟨hj, hget'⟩ := List.getElem?_eq_some_iff.mp hother
    have hi' : i < (path.map StkCell.nn).length := by
      rw [List.length_map]
      exact hi
    have hj' : j < (path.map StkCell.nn).length := by
      rw [List.length_map]
      exact hj
    apply (@List.Nodup.getElem_inj_iff _ _ hnodup i hi' j hj').mp
    rw [List.getElem_map, List.getElem_map, hget, hget', heq]
  branch := hpath.isPath.branch_at
  top := hpath.isPath.top_at
  leaf cell hcell := by
    obtain ⟨first, above, keys, rfl, hleaf, hseek⟩ := hpath.leaf
    cases hcell
    refine ⟨keys, hleaf, ?_⟩
    have hlinked := hpath.isPath.linked cell List.mem_cons_self
    have hsought := @nodeSeek_spec _ _ _ index key (.leaf keys) (hsorted _ keys hlinked hleaf)
    rw [hseek] at hsought
    exact hsought.bound

/-! What the insertion has done when it comes to some level. -/

/-- The pages that the insertion may still write to. -/
def Later (circumstances : Circumstances) (path : List StkCell) (level n : Nat) : Prop :=
  (∃ (j : Nat) (cell : StkCell), level ≤ j ∧ path[j]? = some cell ∧ n = cell.nn) ∨
    (∃ j, level ≤ j ∧ circumstances.allocated j ≠ 0 ∧ n = circumstances.allocated j) ∨
      ∃ j, circumstances.rootAllocated j ≠ 0 ∧ n = circumstances.rootAllocated j

def Settled (circumstances : Circumstances) (path : List StkCell) (level n : Nat) : Prop :=
  ¬ Later circumstances path level n

theorem Settled.succ {n : Nat} (hsettled : Settled circumstances path level n) :
    Settled circumstances path (level + 1) n := by
  rintro (⟨j, cell, hj, hcell, heq⟩ | ⟨j, hj, hne, heq⟩ | hgrown)
  · exact hsettled (Or.inl ⟨j, cell, Nat.le_of_succ_le hj, hcell, heq⟩)
  · exact hsettled (Or.inr (Or.inl ⟨j, Nat.le_of_succ_le hj, hne, heq⟩))
  · exact hsettled (Or.inr (Or.inr hgrown))

/-- The node keeps its place in the division, and the item is left in it. -/
def LowerHalf (pages : Pages α β) (cell : StkCell) : Prop :=
  ∃ node, pages cell.nn = some node ∧ cell.posit < isleave node.keys.length cell.posit

def NodeFull (index : IndexDescr α) (pages : Pages α β) (cell : StkCell) : Prop :=
  ∃ node, pages cell.nn = some node ∧ node.full index.keysize = true

/-- The nodes below the level have been divided. -/
structure Climb (index : IndexDescr α) (circumstances : Circumstances) (key : Key α β)
    (pages : Pages α β) (path : List StkCell) (level : Nat) (item : Key α β × Nat)
    (next : Pages α β) : Prop where
  kept : ∀ n, (∀ (j : Nat) (cell : StkCell), j < level → path[j]? = some cell → n ≠ cell.nn) →
    (∀ j, j < level → circumstances.allocated j ≠ 0 → n ≠ circumstances.allocated j) →
      next n = pages n
  pending : ∀ (cell : StkCell) node, path[level]? = some cell → pages cell.nn = some node →
    Pending index next (Settled circumstances path level) key node cell.posit item
  lower : ∀ (j : Nat) (cell : StkCell), level = j + 1 → path[j]? = some cell → LowerHalf pages cell →
    Held index next (Settled circumstances path level) key cell.nn
  divided : ∀ (j : Nat) (cell : StkCell) node, level = j + 1 → path[j]? = some cell →
    pages cell.nn = some node → ∃ other, next cell.nn = some (node.divided cell.posit other).1

theorem cmpKeys_self (index : IndexDescr α) (key : Key α β) :
    cmpKeys index key key = (true, .eq) := by
  have htrans := index.transCmp
  have hvalue : index.cmpValues key.value key.value = .eq := Std.ReflCmp.compare_self
  have hrec : compare key.recnum key.recnum = .eq := Std.ReflCmp.compare_self
  simp only [cmpKeys, hvalue, hrec]

theorem Climb.start (hpath : InsertPath pages root path) (block : Nat) :
    Climb index circumstances key pages path 0 (key, block) pages where
  kept _ _ _ := rfl
  pending cell node hcell hnode := by
    obtain ⟨keys, hleaf, hposit⟩ := hpath.leaf cell hcell
    cases hnode.symm.trans hleaf
    exact ⟨hposit, cmpKeys_self index key⟩
  lower _ _ h := by cases h
  divided _ _ _ h := by cases h

section Step

variable (hpath : InsertPath pages root path) (hfresh : circumstances.Fresh pages root)

include hpath hfresh

theorem Climb.kept_path (hclimb : Climb index circumstances key pages path level item next)
    {i : Nat} (hi : level ≤ i) (hcell : path[i]? = some cell) : next cell.nn = pages cell.nn := by
  apply hclimb.kept
  · intro j other hj hother heq
    have hsame := hpath.apart i j cell other hcell hother heq
    omega
  · intro j _ hne heq
    exact hfresh.item j hne (heq ▸ hpath.linked i cell hcell)

omit [LinearOrder β] in
/-- The pages of a division: two are written, and both are settled then. -/
theorem settled_of_divided (hcell : path[level]? = some cell)
    (hallocated : circumstances.allocated level ≠ 0) :
    Settled circumstances path (level + 1) cell.nn ∧
      Settled circumstances path (level + 1) (circumstances.allocated level) ∧
        circumstances.allocated level ≠ cell.nn := by
  have hlinked := hpath.linked level cell hcell
  refine ⟨?_, ?_, ?_⟩
  · rintro (⟨j, other, hj, hother, heq⟩ | ⟨j, hj, hne, heq⟩ | ⟨j, hne, heq⟩)
    · have hsame := hpath.apart level j cell other hcell hother heq
      omega
    · exact hfresh.item j hne (heq ▸ hlinked)
    · exact hfresh.grown j hne (heq ▸ hlinked)
  · rintro (⟨j, other, hj, hother, heq⟩ | ⟨j, hj, hne, heq⟩ | ⟨j, hne, heq⟩)
    · exact hfresh.item level hallocated (heq ▸ hpath.linked j other hother)
    · have hsame := hfresh.items level j hallocated heq
      omega
    · exact hfresh.apart level j hallocated heq
  · intro heq
    exact hfresh.item level hallocated (heq ▸ hlinked)

omit hpath hfresh in
/-- Settled pages stay as they are. -/
theorem settled_ne (hcell : path[level]? = some cell) {n : Nat}
    (hsettled : Settled circumstances path level n) :
    n ≠ cell.nn ∧ (circumstances.allocated level ≠ 0 → n ≠ circumstances.allocated level) := by
  constructor
  · rintro rfl
    exact hsettled (Or.inl ⟨level, cell, Nat.le_refl _, hcell, rfl⟩)
  · rintro hne rfl
    exact hsettled (Or.inr (Or.inl ⟨level, Nat.le_refl _, hne, rfl⟩))

theorem Climb.step (hclimb : Climb index circumstances key pages path level item next)
    (hcell : path[level]? = some cell) (hnode : pages cell.nn = some node)
    (hfull : node.full index.keysize = true)
    (hallocated : circumstances.allocated level ≠ 0) :
    Climb index circumstances key pages path (level + 1)
      ((node.divided cell.posit item).2.2, circumstances.allocated level)
      (Function.update (Function.update next (circumstances.allocated level)
        (some (node.divided cell.posit item).2.1)) cell.nn
          (some (node.divided cell.posit item).1)) := by
  have hcount := two_le_of_full hfull
  have hpending := hclimb.pending cell node hcell hnode
  obtain ⟨hown, hnew, hne⟩ := settled_of_divided hpath hfresh hcell hallocated
  generalize hafter : Function.update (Function.update next (circumstances.allocated level)
    (some (node.divided cell.posit item).2.1)) cell.nn
      (some (node.divided cell.posit item).1) = after
  have hleft : after cell.nn = some (node.divided cell.posit item).1 := by
    rw [← hafter, Function.update_self]
  have hright : after (circumstances.allocated level) =
      some (node.divided cell.posit item).2.1 := by
    rw [← hafter, Function.update_of_ne hne, Function.update_self]
  have hrest : ∀ n, n ≠ cell.nn → n ≠ circumstances.allocated level → after n = next n := by
    intro n hcellNe hnewNe
    rw [← hafter, Function.update_of_ne hcellNe, Function.update_of_ne hnewNe]
  have hsettled : ∀ n, Settled circumstances path level n → after n = next n := by
    intro n hn
    obtain ⟨hcellNe, hnewNe⟩ := settled_ne hcell hn
    exact hrest n hcellNe (hnewNe hallocated)
  have hmore : ∀ n, Settled circumstances path level n →
      Settled circumstances path (level + 1) n := fun n hn => hn.succ
  have hlower : LowerHalf pages cell →
      Held index after (Settled circumstances path (level + 1)) key cell.nn := by
    rintro ⟨other, hother, hlt⟩
    cases hnode.symm.trans hother
    exact (hpending.lower_holds hcount hlt).held hown hmore hsettled hleft
  have hheld : Held index after (Settled circumstances path (level + 1)) key cell.nn ∨
      Held index after (Settled circumstances path (level + 1)) key
        (circumstances.allocated level) := by
    cases Nat.lt_or_ge cell.posit (isleave node.keys.length cell.posit) with
    | inl hlt => exact Or.inl (hlower ⟨node, hnode, hlt⟩)
    | inr hge =>
        exact Or.inr ((hpending.upper_holds hcount hge).held hnew hmore hsettled hright)
  exact {
    kept := fun n hcells hblocks => by
      rw [hrest n (hcells level cell (Nat.lt_succ_self level) hcell)
        (hblocks level (Nat.lt_succ_self level) hallocated)]
      exact hclimb.kept n (fun j other hj => hcells j other (Nat.lt_succ_of_lt hj))
        (fun j hj => hblocks j (Nat.lt_succ_of_lt hj))
    pending := fun father fatherNode hfather hpage => by
      obtain ⟨found, hfound, hbranch⟩ := hpath.branch level cell father hcell hfather
      cases hpage.symm.trans hfound
      cases fatherNode with
      | leaf keys => cases hbranch
      | inner first entries => exact ⟨cell.nn, hbranch, hheld⟩
    lower := fun j other hj hother hhalf => by
      cases hj
      cases hcell.symm.trans hother
      exact hlower hhalf
    divided := fun j other otherNode hj hother hpage => by
      cases hj
      cases hcell.symm.trans hother
      cases hnode.symm.trans hpage
      exact ⟨item, hleft⟩ }

omit [LinearOrder β] hfresh in
/-- Pages of the path that are kept lead from the root down to the last of them. -/
theorem linked_up (hkept : ∀ (i : Nat) (cell : StkCell), level ≤ i → path[i]? = some cell →
      after cell.nn = pages cell.nn)
    {i : Nat} (hi : level ≤ i + 1) (hcell : path[i]? = some cell) :
    Linked after root cell.nn := by
  generalize hdist : path.length - i = distance
  induction distance generalizing i cell with
  | zero =>
      have hlt := (List.getElem?_eq_some_iff.mp hcell).1
      omega
  | succ distance ih =>
      cases hfather : path[i + 1]? with
      | none =>
          rw [hpath.top i cell hcell hfather]
          exact Relation.ReflTransGen.refl
      | some father =>
          have hup := ih (show level ≤ i + 1 + 1 by omega) hfather (by omega)
          obtain ⟨node, hnode, hchild⟩ := hpath.branch i cell father hcell hfather
          refine hup.tail ⟨father.posit, node, ?_, hchild⟩
          rw [hkept (i + 1) father hi hfather]
          exact hnode

/-- The item has a place in the node. -/
theorem Climb.placed (hclimb : Climb index circumstances key pages path level item next)
    (hcell : path[level]? = some cell) (hnode : pages cell.nn = some node) :
    InTree index (Function.update next cell.nn (some (node.placed cell.posit item))) root key := by
  have hholds := (hclimb.pending cell node hcell hnode).placed_holds
  have hheld : Held index (Function.update next cell.nn (some (node.placed cell.posit item)))
      (fun _ => True) key cell.nn := by
    refine hholds.held trivial (fun _ _ => trivial) ?_ (Function.update_self ..)
    intro n hn
    exact Function.update_of_ne (settled_ne hcell hn).1 ..
  apply hheld.inTree
  refine linked_up hpath (fun i other (hi : level + 1 ≤ i) hother => ?_) (Nat.le_refl _) hcell
  have hne : other.nn ≠ cell.nn := by
    intro heq
    have hsame := hpath.apart i level other cell hother hcell heq
    omega
  rw [Function.update_of_ne hne]
  exact hclimb.kept_path hpath hfresh (Nat.le_of_succ_le hi) hother

omit hfresh in
/-- The halves of the root are the branches of a new one. -/
theorem Climb.grown (hclimb : Climb index circumstances key pages path level item next)
    (hcell : path[level]? = some cell) (htop : path[level + 1]? = none)
    (hnode : pages cell.nn = some node) (hfull : node.full index.keysize = true)
    (hallocated : circumstances.allocated level ≠ 0)
    (hgrown : circumstances.rootAllocated level ≠ 0)
    (hleft : after (circumstances.rootAllocated level) = some (node.divided cell.posit item).1)
    (hright : after (circumstances.allocated level) = some (node.divided cell.posit item).2.1)
    (hroot : after cell.nn = some (.inner (circumstances.rootAllocated level)
      [((node.divided cell.posit item).2.2, circumstances.allocated level)]))
    (hrest : ∀ n, n ≠ cell.nn → n ≠ circumstances.allocated level →
      n ≠ circumstances.rootAllocated level → after n = next n) :
    InTree index after root key := by
  have hcount := two_le_of_full hfull
  have hpending := hclimb.pending cell node hcell hnode
  have hsettled : ∀ n, Settled circumstances path level n → after n = next n := by
    intro n hn
    obtain ⟨hcellNe, hnewNe⟩ := settled_ne hcell hn
    apply hrest n hcellNe (hnewNe hallocated)
    rintro rfl
    exact hn (Or.inr (Or.inr ⟨level, hgrown, rfl⟩))
  have hcellRoot := hpath.top level cell hcell htop
  have hheld : Held index after (fun _ => True) key cell.nn := by
    cases Nat.lt_or_ge cell.posit (isleave node.keys.length cell.posit) with
    | inl hlt =>
        have hhalf := (hpending.lower_holds hcount hlt).held trivial (fun _ _ => trivial)
          hsettled hleft
        exact Held.inner (i := 0) trivial ⟨_, hroot, rfl⟩ hhalf
    | inr hge =>
        have hhalf := (hpending.upper_holds hcount hge).held trivial (fun _ _ => trivial)
          hsettled hright
        exact Held.inner (i := 1) trivial ⟨_, hroot, rfl⟩ hhalf
  apply hheld.inTree
  rw [hcellRoot]
  exact Relation.ReflTransGen.refl

end Step

section Items

variable {nn posit : Nat} (hnode : next nn = some node)

include hnode

omit [LinearOrder β] in
theorem insertItem_placed (hroom : node.full index.keysize = false) :
    insertItem index circumstances level nn posit item next =
      (false, item, Function.update next nn (some (node.placed posit item))) := by
  simp only [insertItem, hnode, hroom, Bool.false_eq_true, if_false]

omit [LinearOrder β] in
theorem insertItem_failed (hfull : node.full index.keysize = true)
    (hfails : circumstances.allocated level = 0 ∨ circumstances.fixesNew level = false) :
    insertItem index circumstances level nn posit item next = (false, item, next) := by
  simp only [insertItem, hnode, hfull, if_true, if_pos hfails]

omit [LinearOrder β] in
theorem insertItem_divided (hfull : node.full index.keysize = true)
    (hallocated : circumstances.allocated level ≠ 0)
    (hfixed : circumstances.fixesNew level = true) :
    insertItem index circumstances level nn posit item next =
      (true, ((node.divided posit item).2.2, circumstances.allocated level),
        Function.update (Function.update next (circumstances.allocated level)
          (some (node.divided posit item).2.1)) nn (some (node.divided posit item).1)) := by
  have hgot : ¬ (circumstances.allocated level = 0 ∨ circumstances.fixesNew level = false) := by
    rw [hfixed]
    simp only [hallocated, Bool.true_eq_false, or_self, not_false_eq_true]
  simp only [insertItem, hnode, hfull, if_true, if_neg hgot]

end Items

/-- The nodes below the level are divided. -/
structure Reached (index : IndexDescr α) (circumstances : Circumstances) (pages : Pages α β)
    (path : List StkCell) (level : Nat) : Prop where
  fixed : ∀ j ≤ level, circumstances.fixesPriv j = true
  full : ∀ j < level, ∀ cell, path[j]? = some cell → NodeFull index pages cell
  allocated : ∀ j < level, circumstances.allocated j ≠ 0 ∧ circumstances.fixesNew j = true

/-- The division of the node at the level gets no page. -/
structure FailsAt (index : IndexDescr α) (circumstances : Circumstances) (pages : Pages α β)
    (path : List StkCell) (level : Nat) : Prop
    extends Reached index circumstances pages path level where
  fails : ∃ cell, path[level]? = some cell ∧ NodeFull index pages cell ∧
    (circumstances.allocated level = 0 ∨ circumstances.fixesNew level = false)

omit [LinearOrder β] in
theorem Reached.succ (hreached : Reached index circumstances pages path level)
    (hcell : path[level]? = some cell) (hnode : pages cell.nn = some node)
    (hfull : node.full index.keysize = true) (hallocated : circumstances.allocated level ≠ 0)
    (hfixed : circumstances.fixesNew level = true)
    (hfather : circumstances.fixesPriv (level + 1) = true) :
    Reached index circumstances pages path (level + 1) where
  fixed j hj := by
    cases Nat.lt_or_eq_of_le hj with
    | inl hlt => exact hreached.fixed j (Nat.le_of_lt_succ hlt)
    | inr heq => exact heq ▸ hfather
  full j hj other hother := by
    cases Nat.lt_or_eq_of_le (Nat.le_of_lt_succ hj) with
    | inl hlt => exact hreached.full j hlt other hother
    | inr heq =>
        subst heq
        cases hcell.symm.trans hother
        exact ⟨node, hnode, hfull⟩
  allocated j hj := by
    cases Nat.lt_or_eq_of_le (Nat.le_of_lt_succ hj) with
    | inl hlt => exact hreached.allocated j hlt
    | inr heq => exact heq ▸ ⟨hallocated, hfixed⟩

omit [LinearOrder β] in
/-- A root without keys takes the item. -/
theorem empty_root_room (index : IndexDescr α) (first : Nat) :
    (Node.inner first [] : Node α β).full index.keysize = false := by
  have hle := index.keysize_le
  simp only [MAX_KEY_LEN] at hle
  apply decide_eq_false
  simp only [Node.dtsize, Node.step, IBLOCKSIZE, IHDRSIZE, List.length_nil, Nat.mul_zero]
  omega

/-- How an insertion that has come to the level may end. -/
def EndsWell (index : IndexDescr α) (circumstances : Circumstances) (key : Key α β)
    (pages : Pages α β) (root : Nat) (path : List StkCell)
    (result : Option (Bool × Pages α β)) : Prop :=
  ∃ err after, result = some (err, after) ∧
    (err = true ∨ InTree index after root key ∨
      ∃ level item, FailsAt index circumstances pages path level ∧
        Climb index circumstances key pages path level item after)

section Loop

variable (hpath : InsertPath pages root path) (hfresh : circumstances.Fresh pages root)

include hpath

omit [LinearOrder β] in
theorem InsertPath.page (hcell : path[level]? = some cell) :
    ∃ node, pages cell.nn = some node := by
  cases level with
  | zero =>
      obtain ⟨keys, hleaf, -⟩ := hpath.leaf cell hcell
      exact ⟨_, hleaf⟩
  | succ level =>
      have hlt := (List.getElem?_eq_some_iff.mp hcell).1
      have hbelow : path[level]? = some path[level] := List.getElem?_eq_getElem (by omega)
      obtain ⟨node, hnode, -⟩ := hpath.branch level _ cell hbelow hcell
      exact ⟨node, hnode⟩

include hfresh

/-- The loop ends here: the item has been placed, or no page has been allocated for it. -/
theorem endsWell_of_stop {above : List StkCell} {fuel : Nat}
    (hclimb : Climb index circumstances key pages path level item next)
    (hreached : Reached index circumstances pages path level)
    (hcell : path[level]? = some cell) (hnode : pages cell.nn = some node)
    (hstop : node.full index.keysize = false ∨
      node.full index.keysize = true ∧
        (circumstances.allocated level = 0 ∨ circumstances.fixesNew level = false)) :
    EndsWell index circumstances key pages root path
      (insertLoop index circumstances (fuel + 1) level cell above item next) := by
  have hnext : next cell.nn = some node :=
    (hclimb.kept_path hpath hfresh (Nat.le_refl _) hcell).trans hnode
  rw [insertLoop]
  cases hstop with
  | inl hroom =>
      rw [insertItem_placed hnext hroom]
      exact ⟨false, _, rfl, Or.inr (Or.inl (hclimb.placed hpath hfresh hcell hnode))⟩
  | inr hfailed =>
      obtain ⟨hfull, hfails⟩ := hfailed
      rw [insertItem_failed hnext hfull hfails]
      exact ⟨false, next, rfl, Or.inr (Or.inr ⟨level, item,
        ⟨hreached, cell, hcell, ⟨node, hnode, hfull⟩, hfails⟩, hclimb⟩)⟩

/-- The old root is copied, and the new one takes the item. -/
theorem endsWell_of_top {fuel : Nat}
    (hclimb : Climb index circumstances key pages path level item next)
    (hcell : path[level]? = some cell) (htop : path[level + 1]? = none)
    (hnode : pages cell.nn = some node) (hfull : node.full index.keysize = true)
    (hallocated : circumstances.allocated level ≠ 0)
    (hfixed : circumstances.fixesNew level = true) :
    EndsWell index circumstances key pages root path
      (insertLoop index circumstances (fuel + 2) level cell [] item next) := by
  have hnext : next cell.nn = some node :=
    (hclimb.kept_path hpath hfresh (Nat.le_refl _) hcell).trans hnode
  rw [insertLoop, insertItem_divided hnext hfull hallocated hfixed]
  simp only []
  split
  case isTrue => exact ⟨true, _, rfl, Or.inl rfl⟩
  case isFalse hgot =>
    have hgrown : circumstances.rootAllocated level ≠ 0 := fun h => hgot (Or.inl h)
    have hlinked := hpath.linked level cell hcell
    have hgrownNe : circumstances.rootAllocated level ≠ cell.nn :=
      fun heq => hfresh.grown level hgrown (heq ▸ hlinked)
    have hnewNe : circumstances.allocated level ≠ cell.nn :=
      fun heq => hfresh.item level hallocated (heq ▸ hlinked)
    have hapart := hfresh.apart level level hallocated
    rw [insertLoop, insertItem_placed (Function.update_self ..) (empty_root_room index _)]
    refine ⟨false, _, rfl, Or.inr (Or.inl ?_)⟩
    apply hclimb.grown hpath hcell htop hnode hfull hallocated hgrown
    · rw [Function.update_of_ne hgrownNe, Function.update_of_ne hgrownNe, Function.update_self,
        Function.update_self]
    · rw [Function.update_of_ne hnewNe, Function.update_of_ne hnewNe,
        Function.update_of_ne hapart, Function.update_of_ne hnewNe, Function.update_self]
    · rw [Function.update_self]
      rfl
    · intro n hcellNe hblockNe hrootNe
      rw [Function.update_of_ne hcellNe, Function.update_of_ne hcellNe,
        Function.update_of_ne hrootNe, Function.update_of_ne hcellNe,
        Function.update_of_ne hblockNe]

omit hpath hfresh in
theorem father_of_drop {father : StkCell} {above : List StkCell}
    (habove : path.drop (level + 1) = father :: above) :
    path[level + 1]? = some father ∧ path.drop (level + 2) = above := by
  constructor
  · have hget := congrArg (fun rest => rest[0]?) habove
    simp only [List.getElem?_drop, List.getElem?_cons_zero] at hget
    exact hget
  · have htail := congrArg (fun rest => rest.drop 1) habove
    simp only [List.drop_drop, List.drop_succ_cons, List.drop_zero] at htail
    exact htail

theorem insertLoop_endsWell {above : List StkCell} {fuel : Nat}
    (hclimb : Climb index circumstances key pages path level item next)
    (hreached : Reached index circumstances pages path level)
    (hcell : path[level]? = some cell) (habove : path.drop (level + 1) = above)
    (hfuel : above.length + 2 ≤ fuel) :
    EndsWell index circumstances key pages root path
      (insertLoop index circumstances fuel level cell above item next) := by
  induction above generalizing level cell item next fuel with
  | nil =>
      obtain ⟨fuel, rfl⟩ := Nat.exists_eq_add_of_le' hfuel
      obtain ⟨node, hnode⟩ := hpath.page hcell
      have htop : path[level + 1]? = none :=
        List.getElem?_eq_none (List.drop_eq_nil_iff.mp habove)
      cases hfull : node.full index.keysize with
      | false => exact endsWell_of_stop hpath hfresh hclimb hreached hcell hnode (Or.inl hfull)
      | true =>
          by_cases hfails : circumstances.allocated level = 0 ∨
              circumstances.fixesNew level = false
          · exact endsWell_of_stop hpath hfresh hclimb hreached hcell hnode
              (Or.inr ⟨hfull, hfails⟩)
          · rw [not_or, Bool.not_eq_false] at hfails
            exact endsWell_of_top hpath hfresh hclimb hcell htop hnode hfull hfails.1 hfails.2
  | cons father above ih =>
      rw [List.length_cons] at hfuel
      obtain ⟨fuel, rfl⟩ := Nat.exists_eq_add_of_le' (show 1 ≤ fuel by omega)
      obtain ⟨node, hnode⟩ := hpath.page hcell
      obtain ⟨hfather, hrest⟩ := father_of_drop habove
      cases hfull : node.full index.keysize with
      | false => exact endsWell_of_stop hpath hfresh hclimb hreached hcell hnode (Or.inl hfull)
      | true =>
          by_cases hfails : circumstances.allocated level = 0 ∨
              circumstances.fixesNew level = false
          · exact endsWell_of_stop hpath hfresh hclimb hreached hcell hnode
              (Or.inr ⟨hfull, hfails⟩)
          · rw [not_or, Bool.not_eq_false] at hfails
            have hnext : next cell.nn = some node :=
              (hclimb.kept_path hpath hfresh (Nat.le_refl _) hcell).trans hnode
            rw [insertLoop,
              insertItem_divided hnext hfull hfails.1 hfails.2]
            cases hpriv : circumstances.fixesPriv (level + 1) with
            | false =>
                simp only [if_true]
                exact ⟨true, _, rfl, Or.inl rfl⟩
            | true =>
                simp only [Bool.true_eq_false, if_false]
                exact ih (hclimb.step hpath hfresh hcell hnode hfull hfails.1)
                  (hreached.succ hcell hnode hfull hfails.1 hfails.2 hpriv) hfather hrest
                  (by omega)

/-- The failure is met, and reported as a completed insertion. -/
theorem insertLoop_fails {i : Nat} {above : List StkCell} {fuel : Nat}
    (hfails : FailsAt index circumstances pages path i) (hi : level ≤ i)
    (hclimb : Climb index circumstances key pages path level item next)
    (hcell : path[level]? = some cell) (habove : path.drop (level + 1) = above)
    (hfuel : above.length + 2 ≤ fuel) :
    ∃ other after, insertLoop index circumstances fuel level cell above item next =
        some (false, after) ∧ Climb index circumstances key pages path i other after := by
  induction above generalizing level cell item next fuel with
  | nil =>
      obtain ⟨fuel, rfl⟩ := Nat.exists_eq_add_of_le' (show 1 ≤ fuel by omega)
      obtain ⟨last, hlast, ⟨node, hnode, hfull⟩, hcause⟩ := hfails.fails
      have heq : level = i := by
        have hlt := (List.getElem?_eq_some_iff.mp hlast).1
        have hend := List.drop_eq_nil_iff.mp habove
        omega
      subst heq
      cases hcell.symm.trans hlast
      have hnext : next cell.nn = some node :=
        (hclimb.kept_path hpath hfresh (Nat.le_refl _) hcell).trans hnode
      rw [insertLoop, insertItem_failed hnext hfull hcause]
      exact ⟨item, next, rfl, hclimb⟩
  | cons father above ih =>
      rw [List.length_cons] at hfuel
      obtain ⟨fuel, rfl⟩ := Nat.exists_eq_add_of_le' (show 1 ≤ fuel by omega)
      obtain ⟨hfather, hrest⟩ := father_of_drop habove
      cases Nat.eq_or_lt_of_le hi with
      | inl heq =>
          subst heq
          obtain ⟨last, hlast, ⟨node, hnode, hfull⟩, hcause⟩ := hfails.fails
          cases hcell.symm.trans hlast
          have hnext : next cell.nn = some node :=
            (hclimb.kept_path hpath hfresh (Nat.le_refl _) hcell).trans hnode
          rw [insertLoop,
            insertItem_failed hnext hfull hcause]
          exact ⟨item, next, rfl, hclimb⟩
      | inr hlt =>
          obtain ⟨node, hnode, hfull⟩ := hfails.full level hlt cell hcell
          obtain ⟨hallocated, hfixed⟩ := hfails.allocated level hlt
          have hpriv := hfails.fixed (level + 1) hlt
          have hnext : next cell.nn = some node :=
            (hclimb.kept_path hpath hfresh (Nat.le_refl _) hcell).trans hnode
          rw [insertLoop,
            insertItem_divided hnext hfull hallocated hfixed]
          simp only [hpriv, Bool.true_eq_false, if_false]
          exact ih hlt (hclimb.step hpath hfresh hcell hnode hfull hallocated) hfather hrest
            (by omega)

end Loop

end Sql602.Btree
