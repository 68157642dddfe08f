import Sql602.Btree.Growing
import Sql602.Btree.InsertReports

namespace Sql602.Btree

open Fences

/-! The insertion of a key into a whole tree. -/

variable {α β : Type} [LinearOrder β]
  {index : IndexDescr α} {circumstances : Circumstances} {key : Key α β}
  {pages : Pages α β} {h n : Nat} {low high : Option (Key α β)} {owned : List Nat}
  {held : List (Key α β)}

/-- What the loop does after a division. -/
def overflowed (index : IndexDescr α) (circumstances : Circumstances) (fuel level nn : Nat)
    (above : List StkCell) (item : Key α β × Nat) (pages : Pages α β) :
    Option (Bool × Pages α β) :=
  match above with
  | father :: above =>
      if circumstances.fixesPriv (level + 1) = false then some (true, pages)
      else insertLoop index circumstances fuel (level + 1) father above item pages
  | [] =>
      let nodeNum := circumstances.rootAllocated level
      if nodeNum = 0 ∨ circumstances.rootFixesNew level = false then some (true, pages)
      else
        insertLoop index circumstances fuel (level + 1) ⟨nn, 0⟩ [] item
          (Function.update (Function.update pages nodeNum (pages nn)) nn
            (some (.inner nodeNum [])))

def insertAlong (index : IndexDescr α) (circumstances : Circumstances) (fuel : Nat)
    (path : List StkCell) (item : Key α β × Nat) (pages : Pages α β) :
    Option (Bool × Pages α β) :=
  match path with
  | [] => none
  | cell :: above => insertLoop index circumstances fuel 0 cell above item pages

section Level

variable {fuel level posit : Nat} {above : List StkCell} {item : Key α β × Nat}
  {node : Node α β}

omit [LinearOrder β] in
theorem insertLoop_placed (hpage : pages n = some node)
    (hroom : node.full index.keysize = false) :
    insertLoop index circumstances (fuel + 1) level ⟨n, posit⟩ above item pages =
      some (false, Function.update pages n (some (node.placed posit item))) := by
  rw [insertLoop, insertItem_placed hpage hroom]

omit [LinearOrder β] in
theorem insertLoop_divided (hpage : pages n = some node)
    (hfull : node.full index.keysize = true) (hgrants : circumstances.Grants owned) :
    insertLoop index circumstances (fuel + 1) level ⟨n, posit⟩ above item pages =
      overflowed index circumstances fuel level n above
        ((node.divided posit item).2.2, circumstances.allocated level)
        (Function.update (Function.update pages (circumstances.allocated level)
          (some (node.divided posit item).2.1)) n (some (node.divided posit item).1)) := by
  rw [insertLoop, insertItem_divided hpage hfull (hgrants.allocated level).1
    (hgrants.allocated level).2]
  rfl

end Level

/-- How the insertion into a tree comes out of its root. -/
inductive InsertOutcome (index : IndexDescr α) (circumstances : Circumstances) (pages : Pages α β)
    (key : Key α β) (h n : Nat) (low high : Option (Key α β)) (owned : List Nat)
    (held : List (Key α β)) (stack : List StkCell) (fuel : Nat) :
    Option (Bool × Pages α β) → Prop
  | failed (after : Pages α β) :
      InsertOutcome index circumstances pages key h n low high owned held stack fuel
        (some (true, after))
  | kept {after : Pages α β}
      (tree : Kept index circumstances pages key h n low high owned held after) :
      InsertOutcome index circumstances pages key h n low high owned held stack fuel
        (some (false, after))
  | divides {after : Pages α β} {sep : Key α β}
      (trees : Divides index circumstances pages key h n low high owned held sep after) :
      InsertOutcome index circumstances pages key h n low high owned held stack fuel
        (overflowed index circumstances fuel h n stack (sep, circumstances.allocated h) after)

/-- The bounds of the branch that is chosen for a key. -/
theorem within_branch {first posit : Nat} {entries : List (Key α β × Nat)}
    {res : Bool × Ordering} (hsorted : Sorted index (entries.map Prod.fst))
    (hwithin : Within (keyOrder index) low high key)
    (hseek : nodeSeek index key (.inner first entries) = (res, posit)) :
    posit ≤ entries.length ∧ Within (keyOrder index) (lowerBound low entries posit)
      (upperBound high entries posit) key := by
  have hsought := @nodeSeek_spec _ _ _ index key (.inner first entries) hsorted
  rw [hseek] at hsought
  have hlength : (entries.map Prod.fst).length = entries.length := List.length_map _
  have hbound : posit ≤ entries.length := hlength ▸ hsought.bound
  refine ⟨hbound, ?_, ?_⟩
  · intro bound hlower
    cases posit with
    | zero => exact hwithin.above bound hlower
    | succ i =>
        have hi : i < (entries.map Prod.fst).length := by omega
        have hpassed := hsought.passed i (Nat.lt_succ_self i)
        rw [Node.keys, cmpAt_getElem hi, List.getElem_map] at hpassed
        rw [lowerBound, List.getElem?_eq_getElem (hlength ▸ hi)] at hlower
        cases hlower
        exact Std.OrientedCmp.lt_of_gt hpassed
  · intro bound hupper
    rw [upperBound] at hupper
    cases Nat.lt_or_ge posit entries.length with
    | inr hlast =>
        rw [List.getElem?_eq_none hlast] at hupper
        exact hwithin.below bound hupper
    | inl hlt =>
        have hi : posit < (entries.map Prod.fst).length := by omega
        obtain ⟨-, hstop⟩ := hsought.stopped hi
        change seekOrder index.distinct (cmpAt index key (entries.map Prod.fst) posit) ≠ .gt
          at hstop
        rw [cmpAt_getElem hi, List.getElem_map] at hstop
        rw [List.getElem?_eq_getElem hlt] at hupper
        cases hupper
        exact Ordering.isLE_iff_ne_gt.mpr hstop

/-- The branch of a node that the search goes to. -/
theorem exists_focus {first : Nat} {entries : List (Key α β × Nat)} {below : List Nat}
    {res : Bool × Ordering} {posit : Nat} (hpage : pages n = some (.inner first entries))
    (hfits : (Node.inner first entries : Node α β).dtsize index.keysize ≤ IBLOCKSIZE - IHDRSIZE)
    (hfenced : Fenced (Holding (Stored index pages h)) first entries low high below held)
    (hnodup : (n :: below).Nodup) (hwithin : Within (keyOrder index) low high key)
    (hseek : nodeSeek index key (.inner first entries) = (res, posit)) :
    ∃ focus : Focus index pages h n low high (n :: below) held,
      (first, entries) = plug focus.front focus.child focus.rest ∧
        focus.front.position = posit ∧ Within (keyOrder index) focus.lower focus.upper key := by
  obtain ⟨hsorted, -⟩ := hfenced.fences fun _ _ _ _ _ hchild => Stored.room hchild
  obtain ⟨hposit, hinside⟩ := within_branch hsorted hwithin hseek
  obtain ⟨front, child, rest, lower, owned1, owned2, held1, held2, hplug, rfl, hbefore, hsecond,
    rfl, rfl⟩ := hfenced.unplug hposit
  obtain ⟨upper, part, keys, owned', held', hstored, hbehind, rfl, rfl⟩ := hsecond.behind
  obtain rfl : first = (plug front child rest).1 := congrArg Prod.fst hplug
  obtain rfl : entries = (plug front child rest).2 := congrArg Prod.snd hplug
  rw [← hbefore.lower_eq, ← hbehind.upper_eq] at hinside
  exact ⟨⟨front, child, rest, lower, upper, owned1, part, owned', held1, keys, held', hpage,
    rfl, rfl, hfits, hbefore, hstored, hbehind, hnodup⟩, rfl, rfl, hinside⟩

theorem Focus.branch_eq (focus : Focus index pages h n low high owned held) {first : Nat}
    {entries : List (Key α β × Nat)}
    (hplug : (first, entries) = plug focus.front focus.child focus.rest) :
    (Node.inner first entries).children.getD focus.front.position 0 = focus.child := by
  obtain rfl : first = (plug focus.front focus.child focus.rest).1 := congrArg Prod.fst hplug
  obtain rfl : entries = (plug focus.front focus.child focus.rest).2 := congrArg Prod.snd hplug
  rw [List.getD_eq_getElem?_getD, Node.children, plug_child]
  rfl

theorem exists_focus_of_build {first : Nat} {entries : List (Key α β × Nat)} {below : List Nat}
    {room depth : Nat} {stack : List StkCell} {found : (Bool × Ordering) × List StkCell}
    (hpage : pages n = some (.inner first entries))
    (hfits : (Node.inner first entries : Node α β).dtsize index.keysize ≤ IBLOCKSIZE - IHDRSIZE)
    (hfenced : Fenced (Holding (Stored index pages h)) first entries low high below held)
    (hnodup : (n :: below).Nodup) (hwithin : Within (keyOrder index) low high key)
    (hbuild : buildStack index circumstances key pages room depth n stack = some found) :
    ∃ (room : Nat) (focus : Focus index pages h n low high (n :: below) held),
      Within (keyOrder index) focus.lower focus.upper key ∧
        buildStack index circumstances key pages room (depth + 1) focus.child
          (⟨n, focus.front.position⟩ :: stack) = some found := by
  obtain ⟨room, other, posit, hseek, hbuild⟩ := buildStack_inner hpage hbuild
  obtain ⟨focus, hplug, rfl, hinside⟩ :=
    exists_focus hpage hfits hfenced hnodup hwithin hseek
  rw [focus.branch_eq hplug] at hbuild
  exact ⟨room, focus, hinside, hbuild⟩

theorem Circumstances.Grants.part (hgrants : circumstances.Grants owned) {part : List Nat}
    (hpart : ∀ m ∈ part, m ∈ owned) : circumstances.Grants part where
  allocated := hgrants.allocated
  fresh i hin := hgrants.fresh i (hpart _ hin)
  grown i hne hin := hgrants.grown i hne (hpart _ hin)
  items := hgrants.items
  apart := hgrants.apart

theorem leaf_inserts {posit fuel : Nat} {res : Bool × Ordering} {stack : List StkCell}
    (hleaf : StoredLeaf index pages n low high owned held)
    (hgrants : circumstances.Grants owned) (hwithin : Within (keyOrder index) low high key)
    (hseek : nodeSeek index key (.leaf held) = (res, posit)) (hnew : res ≠ (true, .eq))
    (hdistinct : index.distinct = true → (cmpAt index key held posit).1 = false) :
    InsertOutcome index circumstances pages key 0 n low high owned held stack fuel
      (insertLoop index circumstances (fuel + 1) 0 ⟨n, posit⟩ stack (key, 0) pages) := by
  obtain ⟨hposit, hbefore, hafter⟩ := nodeSeek_apart hleaf.sorted hseek hnew hdistinct
  have hsorted := sorted_insertIdx hleaf.sorted hposit hbefore hafter
  cases hfull : (Node.leaf held : Node α β).full index.keysize with
  | false =>
      rw [insertLoop_placed hleaf.page hfull]
      exact .kept (leaf_placed hleaf hfull hwithin hposit hsorted)
  | true =>
      rw [insertLoop_divided hleaf.page hfull hgrants]
      exact .divides (leaf_divided hleaf hgrants hwithin hposit (two_le_of_full hfull) hsorted)

/-- The branch has come out, and now the node does. -/
theorem inner_inserts (focus : Focus index pages h n low high owned held) {fuel : Nat}
    {result : Option (Bool × Pages α β)} {stack : List StkCell}
    (hgrants : circumstances.Grants owned)
    (hchild : InsertOutcome index circumstances pages key h focus.child focus.lower focus.upper
      focus.part focus.keys (⟨n, focus.front.position⟩ :: stack) (fuel + 1) result) :
    InsertOutcome index circumstances pages key (h + 1) n low high owned held stack fuel
      result := by
  cases hchild with
  | failed after => exact .failed after
  | kept tree => exact .kept (focus.kept hgrants tree)
  | @divides after sep trees =>
      obtain ⟨below, keys, htaking⟩ := focus.taking hgrants trees
      rw [overflowed]
      split
      case isTrue => exact .failed after
      case isFalse =>
        have hn : n ∉ below := (List.nodup_cons.mp (htaking.owned_perm.nodup_iff.mpr
          (hgrants.nodup focus.nodup (h + 1)))).1
        generalize hplug : plug focus.front focus.child focus.rest = parts at htaking
        have hpage : after n = some (.inner parts.1 parts.2) := by
          rw [htaking.frame n hn, focus.page, hplug]
        have hposit := focus.position_le
        have hfits := focus.fits
        rw [hplug] at hposit hfits
        cases hfull : (Node.inner parts.1 parts.2 : Node α β).full index.keysize with
        | false =>
            rw [insertLoop_placed hpage hfull]
            exact .kept (htaking.placed hgrants focus.nodup hposit hfull)
        | true =>
            rw [insertLoop_divided hpage hfull hgrants]
            have hcount : 2 ≤ parts.2.length := by
              have hkeys := two_le_of_full hfull
              rw [Node.keys, List.length_map] at hkeys
              exact hkeys
            exact .divides (htaking.divided hgrants focus.nodup hposit hcount hfits)

/-- From the leaf on the path up to the root of the tree. The induction is on its height. -/
theorem insert_spec {room depth : Nat} {stack path : List StkCell} {res : Bool × Ordering}
    (hstored : Stored index pages h n low high owned held) (hnodup : owned.Nodup)
    (hgrants : circumstances.Grants owned) (hwithin : Within (keyOrder index) low high key)
    (hbuild : buildStack index circumstances key pages room depth n stack = some (res, path))
    (hnew : res ≠ (true, .eq))
    (hdistinct : index.distinct = true → getKeyRec index key pages path = false) :
    path.length = h + 1 + stack.length ∧ ∀ fuel,
      InsertOutcome index circumstances pages key h n low high owned held stack fuel
        (insertAlong index circumstances (fuel + (h + 1)) path (key, 0) pages) := by
  induction h generalizing n low high owned held room depth stack with
  | zero =>
      have hleaf : StoredLeaf index pages n low high owned held := hstored
      obtain ⟨posit, hseek, rfl⟩ := buildStack_leaf hleaf.page hbuild
      rw [getKeyRec, hleaf.page] at hdistinct
      refine ⟨Nat.add_comm _ _, fun fuel => ?_⟩
      exact leaf_inserts hleaf hgrants hwithin hseek hnew hdistinct
  | succ h ih =>
      obtain ⟨first, entries, below, hpage, rfl, hfits, hfenced⟩ := hstored
      obtain ⟨room, focus, hinside, hbuild⟩ :=
        exists_focus_of_build hpage hfits hfenced hnodup hwithin hbuild
      obtain ⟨hlength, hinserts⟩ := ih focus.stored.1 focus.part_nodup
        (hgrants.part fun m hm => focus.part_subset hm) hinside hbuild
      refine ⟨?_, fun fuel => ?_⟩
      · rw [hlength, List.length_cons]
        omega
      · have hchild := hinserts (fuel + 1)
        rw [show fuel + 1 + (h + 1) = fuel + (h + 1 + 1) by omega] at hchild
        exact inner_inserts focus hgrants hchild

/-! A tree by its root. -/

structure IndexTree (index : IndexDescr α) (pages : Pages α β) (root : Nat) (owned : List Nat)
    (held : List (Key α β)) : Prop where
  stored : ∃ h, Stored index pages h root none none owned held
  nodup : owned.Nodup

/-- The tree has its old pages and some that have been allocated. -/
structure Added (index : IndexDescr α) (circumstances : Circumstances) (pages : Pages α β)
    (root : Nat) (owned : List Nat) (expected : List (Key α β)) (after : Pages α β)
    (owned' : List Nat) (held' : List (Key α β)) : Prop where
  tree : IndexTree index after root owned' held'
  held_perm : held'.Perm expected
  owned_subset : ∀ m ∈ owned, m ∈ owned'
  owned_new : ∀ m ∈ owned', m ∈ owned ∨ ∃ i, m = circumstances.allocated i ∨
    m = circumstances.rootAllocated i
  frame : ∀ m, m ∉ owned' → after m = pages m

theorem Circumstances.taken_cases {owned' : List Nat} {level m : Nat}
    (hperm : owned'.Perm (circumstances.taken level ++ owned)) (hm : m ∈ owned') :
    m ∈ owned ∨ ∃ i, m = circumstances.allocated i ∨ m = circumstances.rootAllocated i := by
  cases List.mem_append.mp (hperm.mem_iff.mp hm) with
  | inl htaken =>
      obtain ⟨i, -, rfl⟩ := mem_taken.mp htaken
      exact Or.inr ⟨i, Or.inl rfl⟩
  | inr hold => exact Or.inl hold

section Root

variable {root : Nat} {after : Pages α β}

theorem Kept.added (hkept : Kept index circumstances pages key h root none none owned held after)
    (hnodup : owned.Nodup) (hgrants : circumstances.Grants owned) :
    ∃ owned' held',
      Added index circumstances pages root owned (key :: held) after owned' held' := by
  obtain ⟨level, owned', held', -, hstored, hperm, hheld, hframe⟩ := hkept
  refine ⟨owned', held', ⟨⟨h, hstored⟩, ?_⟩, hheld, fun m hm => ?_, fun m hm => ?_, hframe⟩
  · exact hperm.nodup_iff.mpr (hgrants.nodup hnodup level)
  · exact hperm.mem_iff.mpr (List.mem_append_right _ hm)
  · exact Circumstances.taken_cases hperm hm

/-- The old root is moved, and the new one has two branches. -/
theorem Divides.grown {sep : Key α β}
    (hdivides : Divides index circumstances pages key h root none none owned held sep after)
    (hnodup : owned.Nodup) (hgrants : circumstances.Grants owned)
    (hgrown : circumstances.rootAllocated h ≠ 0) :
    ∃ owned' held', Added index circumstances pages root owned (key :: held)
      (Function.update (Function.update (Function.update after (circumstances.rootAllocated h)
        (after root)) root (some (.inner (circumstances.rootAllocated h) []))) root
        (some (.inner (circumstances.rootAllocated h) [(sep, circumstances.allocated h)])))
      owned' held' := by
  obtain ⟨ownedL, ownedR, heldL, heldR, ⟨hleft, hneL⟩, ⟨hright, hneR⟩, hperm, hheld, hframe⟩ :=
    hdivides
  obtain ⟨below, rfl⟩ := hleft.owns_root
  have hall : (root :: (below ++ ownedR)).Nodup :=
    hperm.nodup_iff.mpr (hgrants.nodup hnodup (h + 1))
  obtain ⟨hroot, hrest⟩ := List.nodup_cons.mp hall
  have hfresh : circumstances.rootAllocated h ∉ root :: (below ++ ownedR) := by
    intro hin
    cases List.mem_append.mp (hperm.mem_iff.mp hin) with
    | inl htaken =>
        obtain ⟨i, -, heq⟩ := Circumstances.mem_taken.mp htaken
        exact hgrants.apart i h heq
    | inr hold => exact hgrants.grown h hgrown hold
  rw [List.mem_cons, not_or] at hfresh
  rw [Function.update_idem]
  generalize hfinal : Function.update (Function.update after (circumstances.rootAllocated h)
    (after root)) root (some (.inner (circumstances.rootAllocated h)
      [(sep, circumstances.allocated h)])) = final
  have hmoved : final (circumstances.rootAllocated h) = after root := by
    rw [← hfinal, Function.update_of_ne hfresh.1, Function.update_self]
  have hkeep : ∀ m ∈ below ++ ownedR, final m = after m := by
    intro m hm
    rw [← hfinal, Function.update_of_ne, Function.update_of_ne]
    · exact ne_of_mem_of_not_mem hm hfresh.2
    · exact ne_of_mem_of_not_mem hm hroot
  have hfirst := hleft.moved hmoved fun m hm => hkeep m (List.mem_append_left _ hm)
  have hsecond := hright.frame fun m hm => hkeep m (List.mem_append_right _ hm)
  refine ⟨root :: (circumstances.rootAllocated h :: below ++ ownedR), heldL ++ heldR,
    ⟨⟨h + 1, circumstances.rootAllocated h, [(sep, circumstances.allocated h)], _, ?_, rfl, ?_,
      .cons ⟨hfirst, hneL⟩ (.last ⟨hsecond, hneR⟩)⟩, ?_⟩, hheld, ?_, ?_, ?_⟩
  · rw [← hfinal, Function.update_self]
  · have hkeysize := index.keysize_le
    simp only [Node.dtsize, List.length_singleton, IBLOCKSIZE, IHDRSIZE, MAX_KEY_LEN] at hkeysize ⊢
    omega
  · rw [List.cons_append, List.nodup_cons, List.nodup_cons, List.mem_cons, not_or]
    exact ⟨⟨fun heq => hfresh.1 heq.symm, hroot⟩, hfresh.2, hrest⟩
  · intro m hm
    have hin := hperm.mem_iff.mpr (List.mem_append_right _ hm)
    rw [List.cons_append, List.mem_cons] at hin
    rw [List.cons_append, List.mem_cons, List.mem_cons]
    exact hin.imp_right Or.inr
  · intro m hm
    rw [List.cons_append, List.mem_cons, List.mem_cons] at hm
    rcases hm with rfl | rfl | hrest
    · exact Circumstances.taken_cases hperm List.mem_cons_self
    · exact Or.inr ⟨h, Or.inr rfl⟩
    · exact Circumstances.taken_cases hperm (List.mem_cons_of_mem _ hrest)
  · intro m hm
    rw [List.cons_append, List.mem_cons, List.mem_cons, not_or, not_or] at hm
    rw [← hfinal, Function.update_of_ne hm.1, Function.update_of_ne hm.2.1]
    refine hframe m ?_
    rw [List.cons_append, List.mem_cons, not_or]
    exact ⟨hm.1, hm.2.2⟩

theorem InsertOutcome.added {result : Option (Bool × Pages α β)} {fuel : Nat}
    (hinserts : InsertOutcome index circumstances pages key h root none none owned held []
      (fuel + 1) result) (hnodup : owned.Nodup) (hgrants : circumstances.Grants owned)
    (hresult : result = some (false, after)) :
    ∃ owned' held',
      Added index circumstances pages root owned (key :: held) after owned' held' := by
  cases hinserts with
  | failed after => cases hresult
  | kept tree =>
      cases hresult
      exact tree.added hnodup hgrants
  | @divides after sep trees =>
      rw [overflowed] at hresult
      split at hresult
      case isTrue => cases hresult
      case isFalse hgot =>
        have hgrown : circumstances.rootAllocated h ≠ 0 := fun hzero => hgot (Or.inl hzero)
        rw [insertLoop_placed (Function.update_self ..) (empty_root_room index _)] at hresult
        cases hresult
        exact trees.grown hnodup hgrants hgrown

end Root

/-! The insertion of the source. -/

/-- The keys that an index keeps after one more has come: the first of those that it does not
tell apart. -/
def indexed (index : IndexDescr α) (held : List (Key α β)) (key : Key α β) : List (Key α β) :=
  if (index.isNullKey key.value && !index.hasNulls) ||
    held.any (fun other => keyOrder index key other == .eq) then held
  else key :: held

/-- Every allocation succeeds, and gives a page that is not in use. -/
structure Circumstances.Supplies (circumstances : Circumstances) (pages : Pages α β)
    (root : Nat) : Prop extends circumstances.Fresh pages root where
  allocated : ∀ i, circumstances.allocated i ≠ 0 ∧ circumstances.fixesNew i = true

namespace IndexTree

variable {root : Nat} {after : Pages α β} (htree : IndexTree index pages root owned held)

include htree

theorem grants (hsupplies : circumstances.Supplies pages root) : circumstances.Grants owned := by
  obtain ⟨h, hstored⟩ := htree.stored
  exact {
    allocated := hsupplies.allocated
    fresh := fun i hin => hsupplies.item i (hsupplies.allocated i).1 (hstored.owned_linked hin)
    grown := fun i hne hin => hsupplies.grown i hne (hstored.owned_linked hin)
    items := fun i j heq => hsupplies.items i j (hsupplies.allocated i).1 heq
    apart := fun i j => hsupplies.apart i j (hsupplies.allocated i).1 }

theorem wellFormed : WellFormed index pages root := by
  obtain ⟨h, hstored⟩ := htree.stored
  exact hstored.wellFormed htree.nodup

theorem sorted : Sorted index held := by
  obtain ⟨h, hstored⟩ := htree.stored
  exact hstored.ordered.1

/-- A key that has been found is held. -/
theorem exists_held {res : Bool × Ordering} {path : List StkCell}
    (hbuild : buildStack index circumstances key pages BSTACK_LEN 0 root [] = some (res, path))
    (hfound : index.distinct = true ∧ getKeyRec index key pages path = true ∨ res = (true, .eq)) :
    ∃ other ∈ held, keyOrder index key other = .eq := by
  obtain ⟨h, hstored⟩ := htree.stored
  have hpath := htree.wellFormed.leafPath hbuild
  cases hfound with
  | inl hdistinct =>
      obtain ⟨n, keys, hlinked, hleaf, other, hother, hsame⟩ := hpath.hasValue hdistinct.2
      refine ⟨other, hstored.mem_held.mpr ⟨n, keys, hlinked, hleaf, hother⟩, ?_⟩
      rw [keyOrder, seekOrder, hsame, hdistinct.1]
      rfl
  | inr hexact =>
      subst hexact
      obtain ⟨n, keys, hlinked, hleaf, other, hother, hsame⟩ := hpath.inTree
        fun n keys hlinked hleaf => hstored.subTree.sorted_of_linked hlinked hleaf
      exact ⟨other, hstored.mem_held.mpr ⟨n, keys, hlinked, hleaf, hother⟩,
        keyOrder_of_same hsame⟩

theorem same {expected : List (Key α β)} (hexpected : expected = held) :
    ∃ owned' held', Added index circumstances pages root owned expected pages owned' held' := by
  subst hexpected
  exact ⟨owned, expected, htree, List.Perm.refl _, fun _ hm => hm, fun _ hm => Or.inl hm,
    fun _ _ => rfl⟩

theorem indexed_eq_held {other : Key α β} (hother : other ∈ held)
    (horder : keyOrder index key other = .eq) : indexed index held key = held := by
  have hany : held.any (fun other => keyOrder index key other == .eq) = true :=
    List.any_eq_true.mpr ⟨other, hother, beq_iff_eq.mpr horder⟩
  rw [indexed, hany, Bool.or_true, if_pos rfl]

omit htree in
/-- A key that has been put among the others differs from each of them. -/
theorem indexed_eq_cons {held' : List (Key α β)} (hsorted : Sorted index held')
    (hperm : held'.Perm (key :: held))
    (hnull : ¬ (index.isNullKey key.value = true ∧ index.hasNulls = false)) :
    indexed index held key = key :: held := by
  have hpair : (key :: held).Pairwise fun key1 key2 => keyOrder index key1 key2 ≠ .eq := by
    refine (hperm.pairwise_iff fun hne heq => ?_).mp (hsorted.imp fun hlt heq => ?_)
    · exact hne (Std.OrientedCmp.eq_symm heq)
    · rw [hlt] at heq
      cases heq
  have hnew : held.any (fun other => keyOrder index key other == .eq) = false :=
    List.any_eq_false.mpr fun other hother horder =>
      (List.pairwise_cons.mp hpair).1 other hother (beq_iff_eq.mp horder)
  have hstays : (index.isNullKey key.value && !index.hasNulls) = false := by
    rw [Bool.and_eq_false_iff, Bool.not_eq_false']
    rw [not_and_or, Bool.not_eq_true, Bool.not_eq_false] at hnull
    exact hnull
  rw [indexed, hnew, hstays]
  rfl

/-- An insertion that reports no error keeps the tree, with the key in it. -/
theorem insert {masks : Bool} (hsupplies : circumstances.Supplies pages root)
    (hinsert : btInsert index circumstances masks root key pages = some (false, after)) :
    ∃ owned' held', Added index circumstances pages root owned (indexed index held key) after
      owned' held' := by
  obtain ⟨h, hstored⟩ := htree.stored
  have hgrants := htree.grants hsupplies
  rw [btInsert] at hinsert
  split at hinsert
  case isTrue => cases hinsert
  split at hinsert
  case isTrue hnull =>
    cases hinsert
    apply htree.same
    rw [indexed, hnull.1, hnull.2]
    rfl
  case isFalse hnull =>
    cases hbuild : buildStack index circumstances key pages BSTACK_LEN 0 root [] with
    | none =>
        rw [hbuild] at hinsert
        cases hinsert
    | some found =>
        obtain ⟨res, path⟩ := found
        rw [hbuild] at hinsert
        simp only [] at hinsert
        by_cases hfound : index.distinct = true ∧ getKeyRec index key pages path = true ∨
            res = (true, .eq)
        · obtain ⟨other, hother, horder⟩ := htree.exists_held hbuild hfound
          have heq : after = pages := by
            split at hinsert
            case isTrue => exact (Prod.mk.inj (Option.some.inj hinsert)).2.symm
            case isFalse hdistinct =>
              rw [if_pos (hfound.resolve_left hdistinct)] at hinsert
              cases hinsert
              rfl
          rw [heq]
          exact htree.same (htree.indexed_eq_held hother horder)
        · rw [not_or] at hfound
          rw [if_neg hfound.1, if_neg hfound.2] at hinsert
          obtain ⟨hlength, hinserts⟩ := insert_spec hstored htree.nodup hgrants
            ⟨fun _ hlow => absurd hlow (Option.not_mem_none _),
              fun _ hhigh => absurd hhigh (Option.not_mem_none _)⟩ hbuild hfound.2
            fun hdistinct => Bool.eq_false_iff.mpr fun hrec => hfound.1 ⟨hdistinct, hrec⟩
          cases path with
          | nil => cases hinsert
          | cons cell above =>
              simp only [] at hinsert
              split at hinsert
              case isTrue => cases hinsert
              case isFalse =>
                have houtcome := hinserts 1
                rw [hlength, List.length_nil] at hinsert
                rw [insertAlong, show 1 + (h + 1) = h + 1 + 0 + 1 by omega, hinsert] at houtcome
                obtain ⟨owned', held', hadded⟩ := houtcome.added htree.nodup hgrants rfl
                rw [indexed_eq_cons hadded.tree.sorted hadded.held_perm hnull]
                exact ⟨owned', held', hadded⟩

end IndexTree

end Sql602.Btree
