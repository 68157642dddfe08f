import Sql602.Btree.Inserted
import Sql602.Btree.Shrinking

namespace Sql602.Btree

open Fences

/-! The removal of a key from a whole tree. -/

variable {α β : Type} [LinearOrder β]
  {index : IndexDescr α} {searching : Circumstances} {circumstances : RemoveCircumstances}
  {key : Key α β} {pages mid after : Pages α β} {h n root : Nat} {low high : Option (Key α β)}
  {owned freed : List Nat} {held remaining : List (Key α β)}

/-- The item that is removed is the exact key. -/
def exactRec (index : IndexDescr α) (key other : Key α β) : Bool :=
  cmpKeys index key other == (true, .eq)

/-- The keys that an index keeps. -/
def unindexed (index : IndexDescr α) (held : List (Key α β)) (key : Key α β) :
    List (Key α β) :=
  held.filter fun other => !exactRec index key other

theorem exact_order {other : Key α β} (hexact : exactRec index key other = true) :
    keyOrder index key other = .eq :=
  keyOrder_of_same (beq_iff_eq.mp hexact)

/-- No other key of a sorted list is the same. -/
theorem others_differ {front back : List (Key α β)} {other : Key α β}
    (hsorted : Sorted index (front ++ other :: back)) (horder : keyOrder index key other = .eq) :
    ∀ next ∈ front ++ back, keyOrder index key next ≠ .eq := by
  obtain ⟨-, hback, hfront⟩ := List.pairwise_append.mp hsorted
  intro next hnext hsame
  have heq := Std.TransCmp.eq_trans (Std.OrientedCmp.eq_symm hsame) horder
  cases List.mem_append.mp hnext with
  | inl hin =>
      have hlt := hfront next hin other List.mem_cons_self
      rw [heq] at hlt
      cases hlt
  | inr hin =>
      have hlt := (List.pairwise_cons.mp hback).1 next hin
      rw [Std.OrientedCmp.eq_symm heq] at hlt
      cases hlt

theorem unindexed_split {front back : List (Key α β)} {other : Key α β}
    (hsorted : Sorted index (front ++ other :: back)) (hexact : exactRec index key other = true) :
    unindexed index (front ++ other :: back) key = front ++ back := by
  rw [unindexed, List.filter_append, List.filter_cons, hexact, Bool.not_true,
    if_neg Bool.false_ne_true, ← List.filter_append]
  refine List.filter_eq_self.mpr fun next hnext => ?_
  rw [Bool.not_eq_true']
  refine Bool.eq_false_iff.mpr fun hsame => ?_
  exact others_differ hsorted (exact_order hexact) next hnext (exact_order hsame)

def removeAlong (index : IndexDescr α) (circumstances : RemoveCircumstances)
    (path : List StkCell) (pages : Pages α β) : Option (Bool × Pages α β × List Nat) :=
  match path with
  | [] => none
  | cell :: above => removeLoop index circumstances above 0 false cell pages []

theorem exists_posit {posit : Nat} {res : Bool × Ordering} (hsorted : Sorted index held)
    (hseek : nodeSeek index key (.leaf held) = (res, posit)) (hsame : res.1 = true) :
    ∃ front other back, held = front ++ other :: back ∧ cmpKeys index key other = res ∧
      front.length = posit := by
  have hsought := @nodeSeek_spec _ _ _ index key (.leaf held) hsorted
  rw [hseek] at hsought
  have hlt : posit < held.length := by
    refine Nat.lt_of_le_of_ne hsought.bound fun heq => ?_
    obtain rfl : res = (false, .gt) := hsought.outside heq
    cases hsame
  have hres := (hsought.stopped hlt).1
  change res = cmpAt index key held posit at hres
  rw [cmpAt, List.getElem?_eq_getElem hlt] at hres
  refine ⟨held.take posit, held[posit], held.drop (posit + 1), ?_, hres.symm,
    List.length_take_of_le (Nat.le_of_lt hlt)⟩
  rw [← List.drop_eq_getElem_cons hlt, List.take_append_drop]

theorem leaf_outcome {above : List StkCell} {front back : List (Key α β)} {other : Key α β}
    (hleaf : StoredLeaf index pages n low high owned (front ++ other :: back)) :
    RemoveOutcome index circumstances pages 0 n low high owned (front ++ back) above
      (removeAlong index circumstances (⟨n, front.length⟩ :: above) pages) := by
  have herase : (front ++ other :: back).eraseIdx front.length = front ++ back := by
    rw [List.eraseIdx_append_of_length_le (Nat.le_refl _), Nat.sub_self]
    rfl
  have hrest : (Node.leaf (front ++ other :: back)).removed false front.length =
      some (.leaf (front ++ back)) := by
    rw [Node.removed, herase]
    split
    case isTrue => rfl
    case isFalse hlength =>
      rw [List.length_append, List.length_cons] at hlength
      have hfront : front = [] := List.length_eq_zero_iff.mp (by omega)
      have hback : back = [] := List.length_eq_zero_iff.mp (by omega)
      rw [hfront, hback]
      rfl
  have hsub : (front ++ back).Sublist (front ++ other :: back) :=
    (List.sublist_cons_self other back).append_left front
  have hloop := @removeLoop_eq _ _ index circumstances pages [] _ above 0 false ⟨n, front.length⟩
    hleaf.page
  rw [removeAlong, hloop, hrest]
  refine .continues ?_
  by_cases hnone : front ++ back = []
  · rw [hnone]
    exact .empty (fun m _ => rfl) (hleaf.owns ▸ List.Perm.refl _) rfl
  · refine .tree (fun m _ => rfl) ⟨⟨Function.update_self .., hleaf.owns, ?_, ?_, ?_⟩, hnone⟩ ?_
    · exact Nat.le_trans (Nat.mul_le_mul_left _ hsub.length_le) hleaf.fits
    · exact hleaf.sorted.sublist hsub
    · exact fun key hkey => hleaf.within key (hsub.subset hkey)
    · rw [List.append_nil]

/-- From the leaf on the path up to the root of the tree. -/
theorem remove_spec {room depth : Nat} {stack path : List StkCell} {res : Bool × Ordering}
    (hsucceeds : circumstances.Succeeds)
    (hstored : Stored index pages h n low high owned held) (hnodup : owned.Nodup)
    (hwithin : Within (keyOrder index) low high key)
    (hbuild : buildStack index searching key pages room depth n stack = some (res, path))
    (hsame : res.1 = true) :
    ∃ front other back, held = front ++ other :: back ∧ cmpKeys index key other = res ∧
      RemoveOutcome index circumstances pages h n low high owned (front ++ back) stack
        (removeAlong index circumstances path pages) := by
  induction h generalizing n low high owned held room depth stack with
  | zero =>
      have hleaf : StoredLeaf index pages n low high owned held := hstored
      obtain ⟨posit, hseek, rfl⟩ := buildStack_leaf hleaf.page hbuild
      obtain ⟨front, other, back, rfl, hres, rfl⟩ := exists_posit hleaf.sorted hseek hsame
      exact ⟨front, other, back, rfl, hres, leaf_outcome hleaf⟩
  | succ h ih =>
      obtain ⟨first, entries, below, hpage, rfl, hfits, hfenced⟩ := hstored
      obtain ⟨room, focus, hinside, hbuild⟩ :=
        exists_focus_of_build hpage hfits hfenced hnodup hwithin hbuild
      obtain ⟨front, other, back, hkeys, hres, houtcome⟩ :=
        ih focus.stored.1 focus.part_nodup hinside hbuild
      refine ⟨focus.held1 ++ front, other, back ++ focus.held2, ?_, hres, ?_⟩
      · have hholds := focus.holds
        rw [hkeys] at hholds
        simp only [hholds, List.append_assoc, List.cons_append]
      · have hwhole := focus.outcome hsucceeds houtcome
        simp only [List.append_assoc] at hwhole ⊢
        exact hwhole

/-! The root. -/

/-- The pages of the tree have been kept or released. -/
structure Released (index : IndexDescr α) (pages : Pages α β) (root : Nat) (owned : List Nat)
    (remaining : List (Key α β)) (after : Pages α β) (freed : List Nat) : Prop where
  tree : ∃ owned', IndexTree index after root owned' remaining ∧ owned.Perm (owned' ++ freed)
  frame : ∀ m, m ∉ owned → after m = pages m

theorem released_of_stored {owned' : List Nat} (hnodup : owned.Nodup)
    (hstored : Stored index after h root none none owned' remaining)
    (hperm : owned.Perm (owned' ++ freed)) (hframe : ∀ m, m ∉ owned → after m = pages m) :
    Released index pages root owned remaining after freed :=
  ⟨⟨owned', ⟨⟨h, hstored⟩, (List.nodup_append.mp (hperm.nodup_iff.mp hnodup)).1⟩, hperm⟩, hframe⟩

/-- The root is left as it is, or takes the contents of its only branch. -/
theorem shrinkRoot_spec {owned' : List Nat} (hsucceeds : circumstances.Succeeds)
    (hnodup : owned.Nodup) (hstored : Stored index mid h root none none owned' remaining)
    (hperm : owned.Perm (owned' ++ freed)) (hframe : ∀ m, m ∉ owned → mid m = pages m) :
    ∃ after freed', shrinkRoot circumstances root mid freed = (true, after, freed') ∧
      Released index pages root owned remaining after freed' := by
  have hstays := released_of_stored hnodup hstored hperm hframe
  rw [shrinkRoot, hsucceeds.root, hsucceeds.sole]
  simp only [Bool.true_eq_false, if_false]
  cases h with
  | zero =>
      rw [StoredLeaf.page hstored]
      exact ⟨mid, freed, rfl, hstays⟩
  | succ h =>
      obtain ⟨first, entries, below, hpage, rfl, -, hfenced⟩ := hstored
      rw [hpage]
      cases entries with
      | cons entry entries => exact ⟨mid, freed, rfl, hstays⟩
      | nil =>
          refine ⟨_, _, rfl, ?_⟩
          cases hfenced with
          | last hchild =>
              obtain ⟨hchild, hne⟩ := hchild
              obtain ⟨tail, rfl⟩ := hchild.owns_root
              have hall := (List.nodup_append.mp (hperm.nodup_iff.mp hnodup)).1
              rw [List.nodup_cons, List.nodup_cons, List.mem_cons, not_or] at hall
              obtain ⟨⟨hroot, hrootTail⟩, hfirst, htail⟩ := hall
              have hmoved : Stored index (Function.update (Function.update mid root (mid first))
                  first none) h root none none (root :: tail) remaining := by
                refine hchild.moved ?_ fun m hm => ?_
                · rw [Function.update_of_ne hroot, Function.update_self]
                · rw [Function.update_of_ne (ne_of_mem_of_not_mem hm hfirst),
                    Function.update_of_ne (ne_of_mem_of_not_mem hm hrootTail)]
              refine released_of_stored hnodup hmoved (List.perm_iff_count.mpr fun m => ?_)
                fun m hm => ?_
              · have hcount := hperm.count_eq m
                simp only [List.count_append, List.count_cons] at hcount ⊢
                omega
              · have hin : ∀ page ∈ [root, first], page ∈ owned := by
                  intro page hpage
                  refine hperm.mem_iff.mpr (List.mem_append_left _ ?_)
                  rw [List.mem_cons, List.mem_singleton] at hpage
                  rcases hpage with rfl | rfl
                  · exact List.mem_cons_self
                  · exact List.mem_cons_of_mem _ List.mem_cons_self
                rw [Function.update_of_ne (ne_of_mem_of_not_mem (hin first
                    (List.mem_cons_of_mem _ List.mem_cons_self)) hm).symm,
                  Function.update_of_ne (ne_of_mem_of_not_mem (hin root
                    List.mem_cons_self) hm).symm, hframe m hm]

/-- The key has been found and removed, unless it is the last one below an inner root. Such a
root would be left without branches. -/
inductive RootOutcome (index : IndexDescr α) (pages : Pages α β) (h root : Nat)
    (owned : List Nat) (remaining : List (Key α β)) :
    Option (Bool × Pages α β × List Nat) → Prop
  | emptied (hinner : h ≠ 0) (hnone : remaining = []) :
      RootOutcome index pages h root owned remaining none
  | released {after : Pages α β} {freed : List Nat} (hmore : h = 0 ∨ remaining ≠ [])
      (released : Released index pages root owned remaining after freed) :
      RootOutcome index pages h root owned remaining (some (true, after, freed))

theorem btRemove2_spec {cell : StkCell} {above : List StkCell}
    (hsucceeds : circumstances.Succeeds) (hnodup : owned.Nodup)
    (houtcome : RemoveOutcome index circumstances pages h root none none owned remaining []
      (removeAlong index circumstances (cell :: above) pages)) :
    RootOutcome index pages h root owned remaining
      (btRemove2 index circumstances root (cell :: above) pages) := by
  rw [btRemove2, hsucceeds.leaf]
  simp only [Bool.true_eq_false, if_false]
  rw [removeAlong] at houtcome
  generalize removeLoop index circumstances above 0 false cell pages [] = result at houtcome
  cases houtcome with
  | stopped tree =>
      exact .released (Or.inr tree.stored.2)
        (released_of_stored hnodup tree.stored.1 tree.owned_perm tree.frame)
  | @continues mid _ freed shrunk =>
      cases shrunk with
      | empty hframe hperm hnone =>
          cases h with
          | succ h => exact .emptied (Nat.succ_ne_zero h) hnone
          | zero =>
              have hroot : root ∈ owned := hperm.mem_iff.mpr List.mem_cons_self
              have hleaf : Stored index (Function.update mid root (some (.leaf []))) 0 root
                  none none [root] remaining :=
                ⟨hnone ▸ Function.update_self .., rfl, hnone ▸ Nat.zero_le _,
                  hnone ▸ List.Pairwise.nil,
                  fun key hkey => absurd (hnone ▸ hkey) List.not_mem_nil⟩
              obtain ⟨after, freed', hshrink, hreleased⟩ := shrinkRoot_spec hsucceeds hnodup hleaf
                hperm fun m hm =>
                  (Function.update_of_ne (ne_of_mem_of_not_mem hroot hm).symm ..).trans
                    (hframe m hm)
              simp only [continued, if_true, Option.map_some]
              rw [hshrink]
              exact .released (Or.inl rfl) hreleased
      | @tree node owned' _ hframe hstored hperm =>
          obtain ⟨tail, howns⟩ := hstored.1.owns_root
          have hroot : root ∈ owned := by
            rw [hperm.mem_iff, howns]
            exact List.mem_cons_self
          obtain ⟨after, freed', hshrink, hreleased⟩ := shrinkRoot_spec hsucceeds hnodup hstored.1
            hperm fun m hm => (Function.update_of_ne (ne_of_mem_of_not_mem hroot hm).symm ..).trans
              (hframe m hm)
          simp only [continued, Option.map_some]
          rw [hshrink]
          exact .released (Or.inr hstored.2) hreleased

theorem within_none : Within (keyOrder index) none none key :=
  ⟨fun _ hlow => absurd hlow (Option.not_mem_none _),
    fun _ hhigh => absurd hhigh (Option.not_mem_none _)⟩

/-- The key of the position is removed. -/
theorem rootOutcome_of_found {path : List StkCell} {res : Bool × Ordering}
    (hsucceeds : circumstances.Succeeds)
    (hstored : Stored index pages h root none none owned held) (hnodup : owned.Nodup)
    (hbuild : buildStack index searching key pages BSTACK_LEN 0 root [] = some (res, path))
    (hsame : res.1 = true) :
    ∃ front other back, held = front ++ other :: back ∧ cmpKeys index key other = res ∧
      RootOutcome index pages h root owned (front ++ back)
        (btRemove2 index circumstances root path pages) := by
  obtain ⟨front, other, back, hheld, hres, houtcome⟩ :=
    remove_spec hsucceeds hstored hnodup within_none hbuild hsame
  obtain ⟨cell, above, keys, rfl, -, -⟩ := ((hstored.wellFormed hnodup).leafPath hbuild).leaf
  exact ⟨front, other, back, hheld, hres, btRemove2_spec hsucceeds hnodup houtcome⟩

theorem rootOutcome_of_exact {path : List StkCell} (hsucceeds : circumstances.Succeeds)
    (hstored : Stored index pages h root none none owned held) (hnodup : owned.Nodup)
    (hbuild : buildStack index searching key pages BSTACK_LEN 0 root [] =
      some ((true, .eq), path)) :
    held.any (exactRec index key) = true ∧
      RootOutcome index pages h root owned (unindexed index held key)
        (btRemove2 index circumstances root path pages) := by
  obtain ⟨front, other, back, rfl, hres, houtcome⟩ :=
    rootOutcome_of_found hsucceeds hstored hnodup hbuild rfl
  have hexact : exactRec index key other = true := beq_iff_eq.mpr hres
  rw [unindexed_split hstored.ordered.1 hexact]
  exact ⟨List.any_eq_true.mpr ⟨other, List.mem_append_right _ List.mem_cons_self, hexact⟩,
    houtcome⟩

/-- The key is removed if it is there. -/
theorem btRemove_right (hstored : Stored index pages h root none none owned held)
    (hnodup : owned.Nodup) (hsucceeds : circumstances.Succeeds)
    (hfixes : ∀ depth, searching.fixesAny depth = true) (hroom : h < BSTACK_LEN)
    (hroot : root ≠ 0) (hnull : ¬ (index.hasNulls = false ∧ index.isNullKey key.value = true)) :
    (held.any (exactRec index key) = false ∧
        btRemove index circumstances searching root key pages = some (false, pages, [])) ∨
      (held.any (exactRec index key) = true ∧
        RootOutcome index pages h root owned (unindexed index held key)
          (btRemove index circumstances searching root key pages)) := by
  obtain ⟨res, path, hbuild, -⟩ := @buildStack_ahead _ _ _ index pages root h none none key
    searching BSTACK_LEN 0 [] hfixes hstored.subTree hroom
  rw [btRemove, if_neg hroot, if_neg hnull, hbuild]
  simp only []
  by_cases hres : res = (true, .eq)
  · subst hres
    rw [if_pos rfl]
    exact Or.inr (rootOutcome_of_exact hsucceeds hstored hnodup hbuild)
  · rw [if_neg hres]
    refine Or.inl ⟨?_, rfl⟩
    by_contra hany
    obtain ⟨other, hother, hexact⟩ := List.any_eq_true.mp (Bool.not_eq_false _ ▸ hany)
    obtain ⟨m, keys, hlinked, hleaf, hmem⟩ := hstored.mem_held.mp hother
    obtain ⟨hfound, -⟩ := buildStack_found hstored.subTree hlinked hleaf hmem
      (exact_order hexact) hbuild
    exact hres (hfound.trans (beq_iff_eq.mp hexact))

theorem IndexTree.remove (htree : IndexTree index pages root owned held)
    (hsucceeds : circumstances.Succeeds)
    (hnull : ¬ (index.hasNulls = false ∧ index.isNullKey key.value = true))
    (hremove : btRemove index circumstances searching root key pages = some (true, after, freed)) :
    Released index pages root owned (unindexed index held key) after freed := by
  obtain ⟨h, hstored⟩ := htree.stored
  rw [btRemove] at hremove
  split at hremove
  case isTrue => cases hremove
  cases hbuild : buildStack index searching key pages BSTACK_LEN 0 root [] with
  | none =>
      rw [hbuild] at hremove
      cases hremove
  | some found =>
      obtain ⟨res, path⟩ := found
      rw [hbuild] at hremove
      simp only [] at hremove
      split at hremove
      case isFalse => cases hremove
      case isTrue hres =>
        subst hres
        obtain ⟨-, houtcome⟩ := @rootOutcome_of_exact _ _ _ _ searching circumstances _ _ _ _ _ _ _
          hsucceeds hstored htree.nodup hbuild
        rw [hremove] at houtcome
        cases houtcome with
        | released _ hreleased => exact hreleased

/-! Runs of insertions and removals. -/

inductive Change (α β : Type) where
  | insert (key : Key α β)
  | remove (key : Key α β)

/-- The keys of an index after a change of the table. -/
def changed (index : IndexDescr α) (held : List (Key α β)) : Change α β → List (Key α β)
  | .insert key => indexed index held key
  | .remove key =>
      if !index.hasNulls && index.isNullKey key.value then held else unindexed index held key

/-- Changes that are made one after another, and reported as made. -/
inductive Runs (index : IndexDescr α) (root : Nat) :
    Pages α β → List (Change α β) → Pages α β → Prop
  | nil (pages : Pages α β) : Runs index root pages [] pages
  | insert {pages next after : Pages α β} {changes : List (Change α β)} {key : Key α β}
      (circumstances : Circumstances) (masks : Bool)
      (supplies : circumstances.Supplies pages root)
      (inserts : btInsert index circumstances masks root key pages = some (false, next))
      (others : Runs index root next changes after) :
      Runs index root pages (.insert key :: changes) after
  | remove {pages next after : Pages α β} {changes : List (Change α β)} {key : Key α β}
      {freed : List Nat} (searching : Circumstances) (circumstances : RemoveCircumstances)
      (succeeds : circumstances.Succeeds)
      (removes : btRemove index circumstances searching root key pages = some (true, next, freed))
      (others : Runs index root next changes after) :
      Runs index root pages (.remove key :: changes) after

theorem changed_perm {held' : List (Key α β)} (hperm : held'.Perm held) (change : Change α β) :
    (changed index held' change).Perm (changed index held change) := by
  cases change with
  | insert key =>
      simp only [changed, indexed, hperm.any_eq]
      split
      case isTrue => exact hperm
      case isFalse => exact hperm.cons key
  | remove key =>
      simp only [changed, unindexed]
      split
      case isTrue => exact hperm
      case isFalse => exact hperm.filter _

theorem changes_perm {held' : List (Key α β)} {changes : List (Change α β)}
    (hperm : held'.Perm held) :
    (changes.foldl (changed index) held').Perm (changes.foldl (changed index) held) := by
  induction changes generalizing held held' with
  | nil => exact hperm
  | cons change changes ih => exact ih (changed_perm hperm change)

/-- A run keeps a tree, and its keys are those that the changes leave. -/
theorem Runs.tree {changes : List (Change α β)} (hruns : Runs index root pages changes after)
    (htree : IndexTree index pages root owned held) :
    ∃ owned' held', IndexTree index after root owned' held' ∧
      held'.Perm (changes.foldl (changed index) held) := by
  induction hruns generalizing owned held with
  | nil pages => exact ⟨owned, held, htree, List.Perm.refl _⟩
  | insert circumstances masks supplies inserts others ih =>
      obtain ⟨owned', held', hadded⟩ := htree.insert supplies inserts
      obtain ⟨owned'', held'', hlast, hperm⟩ := ih hadded.tree
      exact ⟨owned'', held'', hlast, hperm.trans (changes_perm hadded.held_perm)⟩
  | @remove pages next after changes key freed searching circumstances succeeds removes others ih =>
      by_cases hnull : index.hasNulls = false ∧ index.isNullKey key.value = true
      · have hsame : changed index held (.remove key) = held := by
          rw [changed, hnull.1, hnull.2]
          rfl
        rw [List.foldl_cons, hsame]
        rw [btRemove, if_pos hnull] at removes
        split at removes
        case isTrue => cases removes
        case isFalse =>
          cases removes
          exact ih htree
      · have hgone : changed index held (.remove key) = unindexed index held key := by
          rw [changed, if_neg]
          rw [Bool.and_eq_true, Bool.not_eq_true']
          exact hnull
        rw [List.foldl_cons, hgone]
        obtain ⟨⟨owned', hnext, -⟩, -⟩ := htree.remove succeeds hnull removes
        exact ih hnext

/-- The leaves have the keys in their order. -/
theorem IndexTree.whole {expected : List (Key α β)}
    (htree : IndexTree index pages root owned held) (hperm : held.Perm expected) :
    WellFormed index pages root ∧ Filled pages root ∧
      (∀ m node, Linked pages root m → pages m = some node →
        node.dtsize index.keysize ≤ IBLOCKSIZE - IHDRSIZE) ∧
      ∃ h, SubTree index pages h root none none ∧ Sorted index (leafKeys pages h root) ∧
        (leafKeys pages h root).Perm expected := by
  obtain ⟨⟨h, hstored⟩, hnodup⟩ := htree
  refine ⟨hstored.wellFormed hnodup, hstored.treeFilled,
    fun m node hlinked hnode => hstored.node_fits (hstored.linked_owned hlinked) hnode, h,
    hstored.subTree, ?_, ?_⟩
  · rw [hstored.leafKeys_eq]
    exact hstored.ordered.1
  · rw [hstored.leafKeys_eq]
    exact hperm

/-- From an empty index on, the leaves have the keys of the table in their order. -/
theorem runs_right {changes : List (Change α β)} (hempty : pages root = some (.leaf []))
    (hruns : Runs index root pages changes after) :
    WellFormed index after root ∧ Filled after root ∧
      (∀ m node, Linked after root m → after m = some node →
        node.dtsize index.keysize ≤ IBLOCKSIZE - IHDRSIZE) ∧
      ∃ h, SubTree index after h root none none ∧ Sorted index (leafKeys after h root) ∧
        (leafKeys after h root).Perm (changes.foldl (changed index) []) := by
  have hstored : Stored index pages 0 root none none [root] [] :=
    ⟨hempty, rfl, Nat.zero_le _, List.Pairwise.nil, fun _ hkey => absurd hkey List.not_mem_nil⟩
  obtain ⟨owned, held, htree, hperm⟩ := hruns.tree ⟨⟨0, hstored⟩, List.nodup_singleton root⟩
  exact htree.whole hperm

/-! The release of the pages of a tree. -/

section Dropping

variable {valid : Nat → Bool}

omit [LinearOrder β] in
theorem droppedChildren_eq {first : Nat} {entries : List (Key α β × Nat)}
    (hfits : (Node.inner first entries : Node α β).dtsize index.keysize ≤ IBLOCKSIZE - IHDRSIZE) :
    droppedChildren index.keysize (some (.inner first entries : Node α β)) =
      first :: entries.map Prod.snd :=
  if_pos hfits

/-- What is released below the children of a node. -/
theorem drop_children {first : Nat} {entries : List (Key α β × Nat)} {below : List Nat}
    {drop : Nat → Option (List Nat)}
    (hfenced : Fenced (Holding (Stored index pages h)) first entries low high below held)
    (hdrop : ∀ child low high part keys, (∀ m ∈ part, m ∈ below) →
      Stored index pages h child low high part keys → ∃ freed, drop child = some freed ∧
        freed.Perm part) :
    ∃ freed, (first :: entries.map Prod.snd).mapM drop = some freed ∧
      freed.flatten.Perm below := by
  induction hfenced with
  | @last child low high owned held isContent =>
      obtain ⟨freed, hfreed, hperm⟩ := hdrop _ _ _ _ _ (fun _ hm => hm) isContent.1
      refine ⟨[freed], ?_, ?_⟩
      · simp [hfreed]
      · simpa using hperm
  | @cons child next fence rest low high owned owned' held held' isContent others ih =>
      obtain ⟨freed, hfreed, hperm⟩ := hdrop _ _ _ _ _
        (fun _ hm => List.mem_append_left _ hm) isContent.1
      obtain ⟨released, hreleased, hrest⟩ := ih fun child low high part keys hpart hchild =>
        hdrop child low high part keys (fun m hm => List.mem_append_right _ (hpart m hm)) hchild
      refine ⟨freed :: released, ?_, ?_⟩
      · rw [List.map_cons, List.mapM_cons, hreleased, hfreed]
        rfl
      · rw [List.flatten_cons]
        exact hperm.append hrest

theorem Stored.dropped (hstored : Stored index pages h n low high owned held)
    (hvalid : ∀ m ∈ owned, m ≠ 0 ∧ valid m = true) {fuel : Nat} (hfuel : h < fuel) :
    ∃ freed, dropIndex index valid pages fuel n = some freed ∧ freed.Perm owned := by
  induction h generalizing n low high owned held fuel with
  | zero =>
      obtain ⟨fuel, rfl⟩ := Nat.exists_eq_add_of_le' hfuel
      obtain ⟨hpage, rfl, hfits, -, -⟩ := hstored
      refine ⟨[n], ?_, List.Perm.refl _⟩
      rw [dropIndex, if_pos (hvalid n List.mem_cons_self), hpage, droppedChildren, if_pos hfits]
      rfl
  | succ h ih =>
      obtain ⟨fuel, rfl⟩ := Nat.exists_eq_add_of_le' (Nat.one_le_of_lt hfuel)
      obtain ⟨first, entries, below, hpage, rfl, hfits, hfenced⟩ := hstored
      obtain ⟨freed, hfreed, hperm⟩ := drop_children hfenced fun child low high part keys hpart
        hchild => ih hchild (fun m hm => hvalid m (List.mem_cons_of_mem _ (hpart m hm)))
          (Nat.lt_of_succ_lt_succ hfuel)
      refine ⟨freed.flatten ++ [n], ?_, ?_⟩
      · rw [dropIndex, if_pos (hvalid n List.mem_cons_self), hpage, droppedChildren_eq hfits,
          hfreed]
        rfl
      · exact (hperm.append_right [n]).trans (List.perm_append_singleton n below)

/-- Each page of the tree is released once, or the root is left as an empty leaf. -/
theorem dropIndex_right (htree : IndexTree index pages root owned held)
    (hvalid : ∀ m ∈ owned, m ≠ 0 ∧ valid m = true) :
    ∃ h, ∀ fuel, h < fuel →
      (∃ freed, dropIndex index valid pages fuel root = some freed ∧ freed.Perm owned) ∧
        ∃ after freed, truncateIndex index valid pages fuel root = some (after, freed) ∧
          IndexTree index after root [root] [] ∧ owned.Perm (root :: freed) ∧
            ∀ m, m ≠ root → after m = pages m := by
  obtain ⟨h, hstored⟩ := htree.stored
  refine ⟨h, fun fuel hfuel => ⟨hstored.dropped hvalid hfuel, ?_⟩⟩
  have hempty : IndexTree index (Function.update pages root (some (.leaf []))) root [root] [] :=
    ⟨⟨0, Function.update_self .., rfl, Nat.zero_le _, List.Pairwise.nil,
      fun _ hkey => absurd hkey List.not_mem_nil⟩, List.nodup_singleton root⟩
  have hframe : ∀ m, m ≠ root → Function.update pages root (some (.leaf [])) m = pages m :=
    fun m hm => Function.update_of_ne hm ..
  cases h with
  | zero =>
      obtain ⟨hpage, rfl, hfits, -, -⟩ := hstored
      refine ⟨_, [], ?_, hempty, List.Perm.refl _, hframe⟩
      rw [truncateIndex, if_neg (hvalid root List.mem_cons_self).1, hpage, droppedChildren,
        if_pos hfits]
      rfl
  | succ h =>
      obtain ⟨first, entries, below, hpage, rfl, hfits, hfenced⟩ := hstored
      obtain ⟨freed, hfreed, hperm⟩ := drop_children hfenced fun child low high part keys hpart
        hchild => hchild.dropped (fun m hm => hvalid m (List.mem_cons_of_mem _ (hpart m hm)))
          (Nat.lt_of_succ_lt hfuel)
      refine ⟨_, freed.flatten, ?_, hempty, hperm.symm.cons root, hframe⟩
      rw [truncateIndex, if_neg (hvalid root List.mem_cons_self).1, hpage,
        droppedChildren_eq hfits, hfreed]
      rfl

end Dropping

/-! Two leaves below a root, and an empty index. -/

def twoLeaves : Pages Nat Nat := fun n =>
  if n = 1 then some (.inner 2 [(⟨2, 2⟩, 3)])
  else if n = 2 then some (.leaf [⟨1, 1⟩, ⟨2, 2⟩])
  else if n = 3 then some (.leaf [⟨3, 3⟩])
  else none

theorem twoLeaves_stored :
    Stored wideIndex twoLeaves 1 1 none none [1, 2, 3] [⟨1, 1⟩, ⟨2, 2⟩, ⟨3, 3⟩] := by
  refine ⟨2, [(⟨2, 2⟩, 3)], [2, 3], rfl, rfl, by decide, ?_⟩
  refine @Fenced.cons (Key Nat Nat) Nat Nat _ 2 3 ⟨2, 2⟩ [] none none [2] [3]
    [⟨1, 1⟩, ⟨2, 2⟩] [⟨3, 3⟩] ?_
    (.last ?_)
  · refine ⟨⟨rfl, rfl, by decide, ?_, ?_⟩, List.cons_ne_nil _ _⟩
    · rw [Sorted]
      decide
    · intro key hkey
      refine ⟨fun _ hlow => absurd hlow (Option.not_mem_none _), fun bound hhigh => ?_⟩
      cases hhigh
      revert key
      decide
  · refine ⟨⟨rfl, rfl, by decide, ?_, ?_⟩, List.cons_ne_nil _ _⟩
    · rw [Sorted]
      decide
    · intro key hkey
      refine ⟨fun bound hlow => ?_, fun _ hhigh => absurd hhigh (Option.not_mem_none _)⟩
      cases hlow
      revert key
      decide

theorem twoLeaves_tree :
    IndexTree wideIndex twoLeaves 1 [1, 2, 3] [⟨1, 1⟩, ⟨2, 2⟩, ⟨3, 3⟩] :=
  ⟨⟨1, twoLeaves_stored⟩, by decide⟩

theorem dropIndex_right_twoLeaves : ∃ h, ∀ fuel, h < fuel →
    (∃ freed, dropIndex wideIndex (fun _ => true) twoLeaves fuel 1 = some freed ∧
      freed.Perm [1, 2, 3]) ∧
      ∃ after freed, truncateIndex wideIndex (fun _ => true) twoLeaves fuel 1 =
          some (after, freed) ∧
        IndexTree wideIndex after 1 [1] [] ∧ [1, 2, 3].Perm (1 :: freed) ∧
          ∀ m, m ≠ 1 → after m = twoLeaves m :=
  dropIndex_right twoLeaves_tree (by decide)

def allFixed : RemoveCircumstances := ⟨true, fun _ => true, fun _ _ => true, true, true⟩

theorem allFixed_succeeds : allFixed.Succeeds := ⟨rfl, fun _ => rfl, fun _ _ => rfl, rfl, rfl⟩

theorem btRemove_right_twoLeaves :
    ([⟨1, 1⟩, ⟨2, 2⟩, ⟨3, 3⟩] : List (Key Nat Nat)).any (exactRec wideIndex ⟨3, 3⟩) = true ∧
      RootOutcome wideIndex twoLeaves 1 1 [1, 2, 3]
        (unindexed wideIndex [⟨1, 1⟩, ⟨2, 2⟩, ⟨3, 3⟩] ⟨3, 3⟩)
        (btRemove wideIndex allFixed noSpace 1 ⟨3, 3⟩ twoLeaves) := by
  have hspec := @btRemove_right Nat Nat _ wideIndex noSpace allFixed ⟨3, 3⟩ twoLeaves 1 1 [1, 2, 3]
    [⟨1, 1⟩, ⟨2, 2⟩, ⟨3, 3⟩] twoLeaves_stored (by decide) allFixed_succeeds (fun _ => rfl)
    (by decide) (by decide) (by decide)
  refine hspec.resolve_left ?_
  rintro ⟨hany, -⟩
  revert hany
  decide

/-- All pages can be fixed and allocated. -/
def supplied : Circumstances :=
  ⟨fun _ => true, fun _ => true, fun i => 2 * i + 2, fun _ => true, fun i => 2 * i + 3,
    fun _ => true⟩

omit [LinearOrder β] in
theorem supplied_supplies {keys : List (Key α β)}
    (hleaf : pages 1 = some (.leaf keys)) : supplied.Supplies pages 1 := by
  have hlinked : ∀ m, m ≠ 1 → ¬ Linked pages 1 m := by
    intro m hm hlinked
    obtain rfl | ⟨child, ⟨i, node, hnode, hchild⟩, -⟩ := linked_cases hlinked
    · exact hm rfl
    · cases hleaf.symm.trans hnode
      cases hchild
  refine ⟨⟨fun i _ => hlinked _ ?_, fun i _ => hlinked _ ?_, fun i j _ heq => ?_,
    fun i j _ heq => ?_⟩, fun i => ⟨?_, rfl⟩⟩ <;> simp only [supplied] at * <;> omega

def emptyIndex : Pages Nat Nat := fun n => if n = 1 then some (.leaf []) else none

theorem runs_right_emptyIndex : ∃ after,
    Runs wideIndex 1 emptyIndex [.insert ⟨3, 3⟩, .insert ⟨1, 1⟩, .remove ⟨3, 3⟩] after ∧
      WellFormed wideIndex after 1 ∧ Filled after 1 ∧
      (∀ m node, Linked after 1 m → after m = some node →
        node.dtsize wideIndex.keysize ≤ IBLOCKSIZE - IHDRSIZE) ∧
      ∃ h, SubTree wideIndex after h 1 none none ∧ Sorted wideIndex (leafKeys after h 1) ∧
        (leafKeys after h 1).Perm
          (([.insert ⟨3, 3⟩, .insert ⟨1, 1⟩, .remove ⟨3, 3⟩] : List (Change Nat Nat)).foldl
            (changed wideIndex) []) := by
  have hruns : ∃ after,
      Runs wideIndex 1 emptyIndex [.insert ⟨3, 3⟩, .insert ⟨1, 1⟩, .remove ⟨3, 3⟩] after :=
    ⟨_, .insert supplied false (supplied_supplies rfl) rfl
      (.insert supplied false (supplied_supplies rfl) rfl
        (.remove supplied allFixed allFixed_succeeds rfl (.nil _)))⟩
  obtain ⟨after, hruns⟩ := hruns
  exact ⟨after, hruns, runs_right rfl hruns⟩

end Sql602.Btree
