import Mathlib.Data.Nat.Basic
import Sql602.Btree.InsertFailures

namespace Sql602.Btree

/-! When an insertion that reports no error has put the key into the tree. -/

variable {α β : Type} [LinearOrder β]
  {index : IndexDescr α} {circumstances : Circumstances} {masks : Bool} {key : Key α β}
  {pages after : Pages α β} {root level : Nat} {path : List StkCell} {item : Key α β × Nat}

/-- No error is reported only if the key is in the tree afterwards, unless it is a null key
that is never inserted or a masked duplicate. -/
def Reported (index : IndexDescr α) (circumstances : Circumstances) (masks : Bool)
    (root : Nat) (key : Key α β) (pages : Pages α β) : Prop :=
  ∀ after, btInsert index circumstances masks root key pages = some (false, after) →
    (index.isNullKey key.value = true ∧ index.hasNulls = false) ∨
      InTree index after root key ∨
        (masks = true ∧ index.distinct = true ∧ HasValue index pages root key)

/-- The insertion starts in the leaf at the end of the path. -/
structure Inserts (index : IndexDescr α) (circumstances : Circumstances) (root : Nat)
    (key : Key α β) (pages : Pages α β) (path : List StkCell) : Prop where
  hasRoot : root ≠ 0
  stored : ¬ (index.isNullKey key.value = true ∧ index.hasNulls = false)
  found : ∃ res, buildStack index circumstances key pages BSTACK_LEN 0 root [] =
      some (res, path) ∧
    ¬ (index.distinct = true ∧ getKeyRec index key pages path = true) ∧ res ≠ (true, .eq)

theorem SubTree.sorted_of_linked {h n m : Nat} {low high : Option (Key α β)}
    {keys : List (Key α β)} (htree : SubTree index pages h n low high)
    (hlinked : Linked pages n m) (hleaf : pages m = some (.leaf keys)) : Sorted index keys := by
  induction htree with
  | leaf page sorted inside =>
      cases linked_cases hlinked with
      | inl heq =>
          subst heq
          cases page.symm.trans hleaf
          exact sorted
      | inr hchild =>
          obtain ⟨child, ⟨i, node, hnode, hget⟩, -⟩ := hchild
          cases page.symm.trans hnode
          cases hget
  | inner page sorted inside branch ih =>
      cases linked_cases hlinked with
      | inl heq =>
          subst heq
          cases page.symm.trans hleaf
      | inr hchild =>
          obtain ⟨child, ⟨i, node, hnode, hget⟩, hrest⟩ := hchild
          cases page.symm.trans hnode
          exact ih i child hget hrest

namespace WellFormed

variable (hwf : WellFormed index pages root)

include hwf

theorem leafPath {res : Bool × Ordering}
    (hbuild : buildStack index circumstances key pages BSTACK_LEN 0 root [] = some (res, path)) :
    LeafPath index pages root key res path := by
  obtain ⟨h, htree⟩ := hwf.tree
  exact buildStack_spec htree (fun _ => IsPath.root htree) hbuild

theorem insertPath (hinserts : Inserts index circumstances root key pages path) :
    InsertPath pages root path := by
  obtain ⟨res, hbuild, -⟩ := hinserts.found
  obtain ⟨h, htree⟩ := hwf.tree
  exact (hwf.leafPath hbuild).insertPath fun n keys hlinked hleaf =>
    htree.sorted_of_linked hlinked hleaf

/-- A key that is inserted has not been there. -/
theorem not_inTree (hinserts : Inserts index circumstances root key pages path) :
    ¬ InTree index pages root key := by
  rintro ⟨n, keys, hlinked, hleaf, other, hother, hsame⟩
  obtain ⟨res, hbuild, -, hres⟩ := hinserts.found
  obtain ⟨h, htree⟩ := hwf.tree
  have hfound := buildStack_found htree hlinked hleaf hother (keyOrder_of_same hsame) hbuild
  exact hres (hfound.1.trans hsame)

theorem not_hasValue (hinserts : Inserts index circumstances root key pages path)
    (hdistinct : index.distinct = true) : ¬ HasValue index pages root key := by
  rintro ⟨n, keys, hlinked, hleaf, other, hother, hvalue⟩
  obtain ⟨res, hbuild, hrec, -⟩ := hinserts.found
  obtain ⟨h, htree⟩ := hwf.tree
  have horder : keyOrder index key other = .eq := by
    rw [keyOrder, seekOrder, hvalue, hdistinct]
    rfl
  have hfound := buildStack_found htree hlinked hleaf hother horder hbuild
  exact hrec ⟨hdistinct, hfound.2.trans hvalue⟩

end WellFormed

section Lost

variable (hwf : WellFormed index pages root) (hpath : InsertPath pages root path)
  (hfresh : circumstances.Fresh pages root)

include hwf hpath hfresh

/-- The upper half of the last node that has been divided is not linked. -/
theorem Climb.linked_before {j : Nat} {cell : StkCell} {node : Node α β}
    (hclimb : Climb index circumstances key pages path (j + 1) item after)
    (hcell : path[j]? = some cell) (hnode : pages cell.nn = some node)
    (hfull : node.full index.keysize = true)
    (hupper : isleave node.keys.length cell.posit ≤ cell.posit)
    {n : Nat} (hlinked : Linked after root n) :
    Linked pages root n ∧
      (∀ (m : Nat) (other : StkCell), m < j → path[m]? = some other → n ≠ other.nn) ∧
        (n ≠ cell.nn → after n = pages n) := by
  have hkept : ∀ n, Linked pages root n →
      (∀ (m : Nat) (other : StkCell), m < j → path[m]? = some other → n ≠ other.nn) →
        n ≠ cell.nn → after n = pages n := by
    intro n hold hothers hne
    apply hclimb.kept
    · intro m other hm hother
      cases Nat.lt_or_eq_of_le (Nat.le_of_lt_succ hm) with
      | inl hlt => exact hothers m other hlt hother
      | inr heq =>
          subst heq
          cases hcell.symm.trans hother
          exact hne
    · rintro m - hblock rfl
      exact hfresh.item m hblock hold
  have hfather : ∀ (m : Nat) (other : StkCell), m < j → path[m]? = some other →
      ∃ father, path[m + 1]? = some father ∧ BranchAt pages father.nn father.posit other.nn := by
    intro m other hm hother
    have hlt := (List.getElem?_eq_some_iff.mp hcell).1
    have hnext : path[m + 1]? = some path[m + 1] := List.getElem?_eq_getElem (by omega)
    exact ⟨_, hnext, hpath.branch m other _ hother hnext⟩
  induction hlinked with
  | refl =>
      have hothers : ∀ (m : Nat) (other : StkCell), m < j → path[m]? = some other →
          root ≠ other.nn := by
        rintro m other hm hother heq
        obtain ⟨father, hget, hbranch⟩ := hfather m other hm hother
        rw [← heq] at hbranch
        exact hwf.rootless father.nn (hpath.linked _ father hget) ⟨_, hbranch⟩
      exact ⟨Relation.ReflTransGen.refl, hothers,
        hkept root Relation.ReflTransGen.refl hothers⟩
  | tail hbelow hchild ih =>
      rename_i n child
      obtain ⟨hold, hothers, hsame⟩ := ih
      obtain ⟨i, page, hpage, hget⟩ := hchild
      -- the branch has been there, and it does not lead to a node below on the path
      have hbranch : BranchAt pages n i child ∧ (n = cell.nn → i < cell.posit) := by
        cases decEq n cell.nn with
        | isFalse hne =>
            rw [hsame hne] at hpage
            exact ⟨⟨page, hpage, hget⟩, fun heq => absurd heq hne⟩
        | isTrue heq =>
            subst heq
            obtain ⟨other, hleft⟩ := hclimb.divided j cell node rfl hcell hnode
            cases hpage.symm.trans hleft
            obtain ⟨hlt, hwas⟩ := upper_branch (two_le_of_full hfull) hupper hget
            exact ⟨⟨node, hnode, hwas⟩, fun _ => hlt⟩
      have hnew := hold.tail ⟨i, hbranch.1⟩
      have hnone : ∀ (m : Nat) (other : StkCell), m < j → path[m]? = some other →
          child ≠ other.nn := by
        rintro m other hm hother rfl
        obtain ⟨father, hfatherGet, hfatherBranch⟩ := hfather m other hm hother
        obtain ⟨heq, hposit⟩ := hwf.unshared n father.nn i father.posit other.nn hold
          (hpath.linked _ father hfatherGet) hbranch.1 hfatherBranch
        cases Nat.lt_or_eq_of_le (Nat.succ_le_of_lt hm) with
        | inl hlt => exact hothers (m + 1) father hlt hfatherGet heq
        | inr hlast =>
            subst hlast
            cases hcell.symm.trans hfatherGet
            have hlt := hbranch.2 heq
            omega
      exact ⟨hnew, hnone, hkept child hnew hnone⟩

theorem Climb.not_inTree (hclimb : Climb index circumstances key pages path level item after)
    (hreached : Reached index circumstances pages path level)
    (hlevel : ∃ cell, path[level]? = some cell)
    (hupper : ¬ ∃ (j : Nat) (cell : StkCell), level = j + 1 ∧ path[j]? = some cell ∧
      LowerHalf pages cell)
    (hnone : ¬ InTree index pages root key) : ¬ InTree index after root key := by
  cases level with
  | zero =>
      have hsame : after = pages := by
        funext n
        apply hclimb.kept
        · intro j cell hj
          cases hj
        · intro j hj
          cases hj
      rw [hsame]
      exact hnone
  | succ j =>
      obtain ⟨top, htop⟩ := hlevel
      have hlt := (List.getElem?_eq_some_iff.mp htop).1
      have hcell : path[j]? = some path[j] := List.getElem?_eq_getElem (by omega)
      generalize path[j] = cell at hcell
      obtain ⟨node, hnode, hfull⟩ := hreached.full j (Nat.lt_succ_self j) cell hcell
      have hge : isleave node.keys.length cell.posit ≤ cell.posit := by
        apply Nat.le_of_not_lt
        intro hlower
        exact hupper ⟨j, cell, rfl, hcell, node, hnode, hlower⟩
      rintro ⟨n, keys, hlinked, hleaf, other, hother, hsame⟩
      obtain ⟨hold, -, hkept⟩ :=
        hclimb.linked_before hwf hpath hfresh hcell hnode hfull hge hlinked
      apply hnone
      cases decEq n cell.nn with
      | isFalse hne =>
          rw [hkept hne] at hleaf
          exact ⟨n, keys, hold, hleaf, other, hother, hsame⟩
      | isTrue heq =>
          subst heq
          obtain ⟨placed, hleft⟩ := hclimb.divided j cell node rfl hcell hnode
          have hpage := Option.some.inj (hleft.symm.trans hleaf)
          cases node with
          | inner first entries => cases hpage
          | leaf oldKeys =>
              exact ⟨cell.nn, oldKeys, hold, hnode, other,
                upper_keys hge hpage other hother, hsame⟩

end Lost

/-! The reports. -/

theorem btInsert_inserts (hinserts : Inserts index circumstances root key pages path)
    {cell : StkCell} {above : List StkCell} (hsplit : path = cell :: above)
    (hpriv : circumstances.fixesPriv 0 = true) :
    btInsert index circumstances masks root key pages =
      insertLoop index circumstances (path.length + 1) 0 cell above (key, 0) pages := by
  obtain ⟨res, hbuild, hrec, hres⟩ := hinserts.found
  subst hsplit
  simp only [btInsert, if_neg hinserts.hasRoot, if_neg hinserts.stored, hbuild, if_neg hrec,
    if_neg hres, hpriv, Bool.true_eq_false, if_false]

omit [LinearOrder β] in
theorem InsertPath.reached_zero (hpath : InsertPath pages root path) (index : IndexDescr α)
    (hpriv : circumstances.fixesPriv 0 = true) :
    ∃ cell above, path = cell :: above ∧ path[0]? = some cell ∧ path.drop 1 = above ∧
      Reached index circumstances pages path 0 := by
  obtain ⟨cell, above, rfl⟩ := List.exists_cons_of_ne_nil hpath.nonempty
  refine ⟨cell, above, rfl, rfl, rfl, ?_, ?_, ?_⟩
  · intro j hj
    rw [Nat.le_zero.mp hj]
    exact hpriv
  · intro j hj
    cases hj
  · intro j hj
    cases hj

/-- A division that gets no page is not reported, though the key is not in the tree. -/
theorem not_reported (hwf : WellFormed index pages root)
    (hfresh : circumstances.Fresh pages root)
    (hinserts : Inserts index circumstances root key pages path)
    (hfails : FailsAt index circumstances pages path level)
    (hupper : ¬ ∃ (j : Nat) (cell : StkCell), level = j + 1 ∧ path[j]? = some cell ∧
      LowerHalf pages cell) :
    ¬ Reported index circumstances masks root key pages := by
  intro hreported
  have hpath := hwf.insertPath hinserts
  have hpriv := hfails.fixed 0 (Nat.zero_le level)
  obtain ⟨cell, above, hsplit, hcell, habove, -⟩ := hpath.reached_zero index hpriv
  have hfuel : above.length + 2 ≤ path.length + 1 := by
    rw [hsplit]
    exact Nat.le_refl _
  obtain ⟨other, after, hresult, hclimb⟩ := insertLoop_fails hpath hfresh hfails
    (Nat.zero_le level) (Climb.start hpath 0) hcell habove hfuel
  have hnone := hwf.not_inTree hinserts
  have hlast : ∃ cell, path[level]? = some cell := by
    obtain ⟨last, hlast, -⟩ := hfails.fails
    exact ⟨last, hlast⟩
  cases hreported after ((btInsert_inserts hinserts hsplit hpriv).trans hresult) with
  | inl hnull => exact hinserts.stored hnull
  | inr hrest =>
      cases hrest with
      | inl hin =>
          exact hclimb.not_inTree hwf hpath hfresh hfails.toReached hlast hupper hnone hin
      | inr hmasked => exact hwf.not_hasValue hinserts hmasked.2.1 hmasked.2.2

/-- The value that has been found is in the leaf at the end of the path. -/
theorem LeafPath.hasValue {res : Bool × Ordering}
    (hpath : LeafPath index pages root key res path)
    (hrec : getKeyRec index key pages path = true) : HasValue index pages root key := by
  obtain ⟨cell, above, keys, rfl, hleaf, -⟩ := hpath.leaf
  have hlinked := hpath.isPath.linked cell List.mem_cons_self
  simp only [getKeyRec, hleaf, cmpAt] at hrec
  split at hrec
  · rename_i other hother
    exact ⟨cell.nn, keys, hlinked, hleaf, other, List.mem_of_getElem? hother, hrec⟩
  · cases hrec

/-- An exact match has been found in the leaf at the end of the path. -/
theorem LeafPath.inTree (hpath : LeafPath index pages root key (true, .eq) path)
    (hsorted : ∀ n keys, Linked pages root n → pages n = some (.leaf keys) →
      Sorted index keys) : InTree index pages root key := by
  obtain ⟨cell, above, keys, rfl, hleaf, hseek⟩ := hpath.leaf
  have hlinked := hpath.isPath.linked cell List.mem_cons_self
  have hsought := @nodeSeek_spec _ _ _ index key (.leaf keys) (hsorted _ keys hlinked hleaf)
  rw [hseek] at hsought
  cases Nat.lt_or_eq_of_le hsought.bound with
  | inr heq => cases hsought.outside heq
  | inl hlt =>
      have hlt : cell.posit < keys.length := hlt
      have hres := (hsought.stopped hlt).1
      change (true, Ordering.eq) = cmpAt index key keys cell.posit at hres
      rw [cmpAt, List.getElem?_eq_getElem hlt] at hres
      exact ⟨cell.nn, keys, hlinked, hleaf, _, List.getElem_mem hlt, hres.symm⟩

/-- An insertion that reports no error has inserted the key, if and only if every division
that gets no page is above a node that the new item stays in the lower half of. -/
theorem reported_iff (hwf : WellFormed index pages root)
    (hfresh : circumstances.Fresh pages root) :
    Reported index circumstances masks root key pages ↔
      ∀ path level, Inserts index circumstances root key pages path →
        FailsAt index circumstances pages path level →
          ∃ (j : Nat) (cell : StkCell), level = j + 1 ∧ path[j]? = some cell ∧
            LowerHalf pages cell := by
  constructor
  · intro hreported path level hinserts hfails
    by_contra hupper
    exact not_reported hwf hfresh hinserts hfails hupper hreported
  · intro hlower after hresult
    obtain ⟨h, htree⟩ := hwf.tree
    by_cases hroot : root = 0
    · rw [btInsert, if_pos hroot] at hresult
      cases hresult
    by_cases hnull : index.isNullKey key.value = true ∧ index.hasNulls = false
    · exact Or.inl hnull
    refine Or.inr ?_
    simp only [btInsert, if_neg hroot, if_neg hnull] at hresult
    cases hbuild : buildStack index circumstances key pages BSTACK_LEN 0 root [] with
    | none =>
        rw [hbuild] at hresult
        cases hresult
    | some found =>
        obtain ⟨res, path⟩ := found
        have hleafPath := hwf.leafPath hbuild
        simp only [hbuild] at hresult
        by_cases hrec : index.distinct = true ∧ getKeyRec index key pages path = true
        · rw [if_pos hrec] at hresult
          cases masks with
          | false => cases hresult
          | true => exact Or.inr ⟨rfl, hrec.1, hleafPath.hasValue hrec.2⟩
        rw [if_neg hrec] at hresult
        by_cases hres : res = (true, .eq)
        · rw [if_pos hres] at hresult
          cases hresult
          subst hres
          exact Or.inl (hleafPath.inTree fun n keys hlinked hleaf =>
            htree.sorted_of_linked hlinked hleaf)
        have hinserts : Inserts index circumstances root key pages path :=
          ⟨hroot, hnull, res, hbuild, hrec, hres⟩
        have hpath := hwf.insertPath hinserts
        rw [if_neg hres] at hresult
        cases hpriv : circumstances.fixesPriv 0 with
        | false =>
            obtain ⟨cell, above, rfl⟩ := List.exists_cons_of_ne_nil hpath.nonempty
            simp only [hpriv, if_true] at hresult
            cases hresult
        | true =>
            obtain ⟨cell, above, hsplit, hcell, habove, hreached⟩ :=
              hpath.reached_zero index hpriv
            simp only [hsplit, hpriv, Bool.true_eq_false, if_false] at hresult
            obtain ⟨err, last, hlast, hend⟩ := insertLoop_endsWell hpath hfresh
              (Climb.start hpath 0) hreached hcell habove
              (show above.length + 2 ≤ (cell :: above).length + 1 from Nat.le_refl _)
            cases hlast.symm.trans hresult
            rcases hend with herr | hin | ⟨level, item, hfails, hclimb⟩
            · cases herr
            · exact Or.inl hin
            · left
              obtain ⟨j, below, rfl, hbelow, hhalf⟩ := hlower path level hinserts hfails
              apply (hclimb.lower j below rfl hbelow hhalf).inTree
              refine linked_up hpath (fun i other hi hother => ?_) (Nat.le_refl (j + 1)) hbelow
              exact hclimb.kept_path hpath hfresh hi hother

/-- Four keys of the greatest size fill a node. -/
def wideIndex : IndexDescr Nat where
  keysize := 1000
  distinct := false
  hasNulls := true
  isNullKey _ := false
  cmpValues := compare
  keysize_pos := by decide
  keysize_le := Nat.le_refl 1000
  transCmp := inferInstance

def fullLeaf : Pages Nat Nat := fun n =>
  if n = 1 then some (.leaf [⟨1, 1⟩, ⟨2, 2⟩, ⟨3, 3⟩, ⟨4, 4⟩]) else none

/-- All pages can be fixed, but none can be allocated. -/
def noSpace : Circumstances :=
  ⟨fun _ => true, fun _ => true, fun _ => 0, fun _ => true, fun _ => 0, fun _ => true⟩

omit [LinearOrder β] in
theorem noSpace_fresh (pages : Pages α β) (root : Nat) : noSpace.Fresh pages root where
  item _ h := absurd rfl h
  grown _ h := absurd rfl h
  items _ _ h := absurd rfl h
  apart _ _ h := absurd rfl h

theorem fullLeaf_page : fullLeaf 1 = some (.leaf [⟨1, 1⟩, ⟨2, 2⟩, ⟨3, 3⟩, ⟨4, 4⟩]) := rfl

theorem fullLeaf_branch {n i child : Nat} : ¬ BranchAt fullLeaf n i child := by
  rintro ⟨node, hnode, hchild⟩
  simp only [fullLeaf] at hnode
  split at hnode
  · cases hnode
    cases hchild
  · cases hnode

theorem fullLeaf_wellFormed : WellFormed wideIndex fullLeaf 1 where
  tree := by
    refine ⟨0, SubTree.leaf fullLeaf_page ?_ ?_⟩
    · rw [Sorted]
      decide
    · intro key _
      exact ⟨fun _ h => (by cases h), fun _ h => (by cases h)⟩
  unshared _ _ _ _ _ _ _ h := absurd h fullLeaf_branch
  rootless := by
    rintro n - ⟨i, hbranch⟩
    exact fullLeaf_branch hbranch

theorem fullLeaf_inserts : Inserts wideIndex noSpace 1 ⟨5, 5⟩ fullLeaf [⟨1, 4⟩] where
  hasRoot := by decide
  stored := by
    rintro ⟨h, -⟩
    cases h
  found := by
    refine ⟨(false, .gt), rfl, ?_, ?_⟩
    · rintro ⟨h, -⟩
      cases h
    · intro h
      cases h

theorem fullLeaf_failsAt : FailsAt wideIndex noSpace fullLeaf [⟨1, 4⟩] 0 where
  fixed _ _ := rfl
  full _ h := by cases h
  allocated _ h := by cases h
  fails := ⟨⟨1, 4⟩, rfl, ⟨_, fullLeaf_page, by decide⟩, Or.inl rfl⟩

/-- The key is not inserted, and no error is reported. -/
theorem not_forall_reported :
    ¬ ∀ (index : IndexDescr Nat) (circumstances : Circumstances) (masks : Bool) (root : Nat)
      (key : Key Nat Nat) (pages : Pages Nat Nat), WellFormed index pages root →
        circumstances.Fresh pages root → Reported index circumstances masks root key pages := by
  intro hall
  refine not_reported fullLeaf_wellFormed (noSpace_fresh fullLeaf 1) fullLeaf_inserts
    fullLeaf_failsAt ?_ (hall wideIndex noSpace false 1 ⟨5, 5⟩ fullLeaf fullLeaf_wellFormed
      (noSpace_fresh fullLeaf 1))
  rintro ⟨j, cell, h, -⟩
  cases h

theorem reported_iff_fullLeaf :
    WellFormed wideIndex fullLeaf 1 ∧
      (Reported wideIndex noSpace false 1 ⟨5, 5⟩ fullLeaf ↔
        ∀ path level, Inserts wideIndex noSpace 1 ⟨5, 5⟩ fullLeaf path →
          FailsAt wideIndex noSpace fullLeaf path level →
            ∃ (j : Nat) (cell : StkCell), level = j + 1 ∧ path[j]? = some cell ∧
              LowerHalf fullLeaf cell) :=
  ⟨fullLeaf_wellFormed, reported_iff fullLeaf_wellFormed (noSpace_fresh fullLeaf 1)⟩

end Sql602.Btree
