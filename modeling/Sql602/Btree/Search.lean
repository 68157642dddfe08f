import Mathlib.Logic.Relation
import Sql602.Btree.Insertion

namespace Sql602.Btree

/-! Well-formed trees, and what the path to a key says about them. -/

variable {α β : Type} [LinearOrder β]

/-! The order of keys: of their values only in a distinct index. -/

def valueOrder (index : IndexDescr α) (key1 key2 : Key α β) : Ordering :=
  index.cmpValues key1.value key2.value

def keyOrder (index : IndexDescr α) (key1 key2 : Key α β) : Ordering :=
  seekOrder index.distinct (cmpKeys index key1 key2)

theorem keyOrder_eq (index : IndexDescr α) :
    (keyOrder index : Key α β → Key α β → Ordering) =
      if index.distinct then valueOrder index
      else compareLex (valueOrder index) (compareOn Key.recnum) := by
  funext key1 key2
  simp only [keyOrder, cmpKeys, seekOrder]
  cases hdistinct : index.distinct with
  | true =>
      simp only [if_true, valueOrder, Bool.and_true]
      cases index.cmpValues key1.value key2.value <;> rfl
  | false =>
      simp only [Bool.false_eq_true, if_false, Bool.and_false, compareLex, compareOn, valueOrder]
      cases index.cmpValues key1.value key2.value <;> rfl

instance valueOrder_transCmp (index : IndexDescr α) :
    Std.TransCmp (valueOrder index : Key α β → Key α β → Ordering) :=
  have htrans := index.transCmp
  { eq_swap := htrans.eq_swap
    isLE_trans := htrans.isLE_trans }

instance keyOrder_transCmp (index : IndexDescr α) :
    Std.TransCmp (keyOrder index : Key α β → Key α β → Ordering) := by
  rw [keyOrder_eq]
  split
  · exact valueOrder_transCmp index
  · infer_instance

variable {index : IndexDescr α} {key other : Key α β} {keys : List (Key α β)}

theorem keyOrder_of_same (hsame : cmpKeys index key other = (true, .eq)) :
    keyOrder index key other = .eq := by
  rw [keyOrder, hsame, seekOrder]
  split <;> rfl

def Sorted (index : IndexDescr α) (keys : List (Key α β)) : Prop :=
  keys.Pairwise fun key1 key2 => keyOrder index key1 key2 = .lt

theorem cmpAt_getElem {i : Nat} (hi : i < keys.length) :
    seekOrder index.distinct (cmpAt index key keys i) = keyOrder index key keys[i] := by
  rw [cmpAt, List.getElem?_eq_getElem hi]
  rfl

theorem Sorted.lt {i j : Nat} (hsorted : Sorted index keys) (hij : i < j)
    (hj : j < keys.length) :
    keyOrder index keys[i] keys[j] = .lt :=
  List.pairwise_iff_getElem.mp hsorted i j (Nat.lt_trans hij hj) hj hij

theorem Sorted.ascending (hsorted : Sorted index keys) :
    Ascending (cmpAt index key keys) index.distinct keys.length := by
  intro i j hij hj horder
  have hi : i < keys.length := Nat.lt_trans hij hj
  rw [cmpAt_getElem hj] at horder
  rw [cmpAt_getElem hi]
  have hge : (keyOrder index key keys[j]).isGE := by
    cases hcase : keyOrder index key keys[j] with
    | lt => exact absurd hcase horder
    | eq => rfl
    | gt => rfl
  exact Std.TransCmp.gt_of_isGE_of_gt hge (Std.OrientedCmp.gt_of_lt (hsorted.lt hij hj))

theorem nodeSeek_spec {node : Node α β} (hsorted : Sorted index node.keys) :
    Sought (cmpAt index key node.keys) index.distinct node.keys.length
      (nodeSeek index key node) :=
  seek_spec hsorted.ascending

/-- A search stops at a key that is not told apart. -/
theorem nodeSeek_found {node : Node α β} (hsorted : Sorted index node.keys)
    (hother : other ∈ node.keys) (horder : keyOrder index key other = .eq) :
    (nodeSeek index key node).1 = cmpKeys index key other ∧
      cmpAt index key node.keys (nodeSeek index key node).2 = cmpKeys index key other := by
  have hsought := @nodeSeek_spec _ _ _ index key node hsorted
  generalize nodeSeek index key node = result at hsought
  obtain ⟨res, posit⟩ := result
  obtain ⟨j, hj, rfl⟩ := List.mem_iff_getElem.mp hother
  have hle : posit ≤ j := by
    by_contra hlt
    have hpassed := hsought.passed j (Nat.lt_of_not_le hlt)
    rw [cmpAt_getElem hj, horder] at hpassed
    cases hpassed
  have hbound : posit < node.keys.length := Nat.lt_of_le_of_lt hle hj
  obtain ⟨hres, hstop⟩ := hsought.stopped hbound
  have heq : posit = j := by
    by_contra hne
    have hlt : posit < j := Nat.lt_of_le_of_ne hle hne
    apply hstop
    change seekOrder index.distinct (cmpAt index key node.keys posit) = .gt
    rw [cmpAt_getElem hbound]
    exact Std.TransCmp.gt_of_eq_of_gt horder (Std.OrientedCmp.gt_of_lt (hsorted.lt hlt hj))
  subst heq
  have hcmp : cmpAt index key node.keys posit = cmpKeys index key node.keys[posit] := by
    rw [cmpAt, List.getElem?_eq_getElem hj]
  exact ⟨hres.trans hcmp, hcmp⟩

/-! Trees of pages. -/

variable {pages : Pages α β}

def BranchAt (pages : Pages α β) (father i child : Nat) : Prop :=
  ∃ node, pages father = some node ∧ node.children[i]? = some child

def IsChild (pages : Pages α β) (father child : Nat) : Prop :=
  ∃ i, BranchAt pages father i child

def Linked (pages : Pages α β) : Nat → Nat → Prop := Relation.ReflTransGen (IsChild pages)

/-- The key is in a leaf that is reached from the page. -/
def InTree (index : IndexDescr α) (pages : Pages α β) (root : Nat) (key : Key α β) : Prop :=
  ∃ n keys, Linked pages root n ∧ pages n = some (.leaf keys) ∧
    ∃ other ∈ keys, cmpKeys index key other = (true, .eq)

/-- The value of the key is in a leaf that is reached from the page. -/
def HasValue (index : IndexDescr α) (pages : Pages α β) (root : Nat) (key : Key α β) : Prop :=
  ∃ n keys, Linked pages root n ∧ pages n = some (.leaf keys) ∧
    ∃ other ∈ keys, (cmpKeys index key other).1 = true

structure Inside (index : IndexDescr α) (low high : Option (Key α β)) (key : Key α β) :
    Prop where
  above : ∀ bound ∈ low, keyOrder index key bound = .gt
  below : ∀ bound ∈ high, keyOrder index key bound ≠ .gt

def lower (low : Option (Key α β)) (entries : List (Key α β × Nat)) : Nat → Option (Key α β)
  | 0 => low
  | i + 1 => (entries[i]?).map Prod.fst

def upper (high : Option (Key α β)) (entries : List (Key α β × Nat)) (i : Nat) :
    Option (Key α β) :=
  match entries[i]? with
  | some entry => some entry.1
  | none => high

/-- A tree of some height, with bounds for its keys. -/
inductive SubTree (index : IndexDescr α) (pages : Pages α β) :
    Nat → Nat → Option (Key α β) → Option (Key α β) → Prop
  | leaf {n : Nat} {low high : Option (Key α β)} {keys : List (Key α β)}
      (page : pages n = some (.leaf keys)) (sorted : Sorted index keys)
      (inside : ∀ key ∈ keys, Inside index low high key) :
      SubTree index pages 0 n low high
  | inner {h n : Nat} {low high : Option (Key α β)} {first : Nat}
      {entries : List (Key α β × Nat)}
      (page : pages n = some (.inner first entries))
      (sorted : Sorted index (entries.map Prod.fst))
      (inside : ∀ entry ∈ entries, Inside index low high entry.1)
      (branch : ∀ i child, (Node.inner first entries).children[i]? = some child →
        SubTree index pages h child (lower low entries i) (upper high entries i)) :
      SubTree index pages (h + 1) n low high

/-- No page is referenced twice. -/
structure WellFormed (index : IndexDescr α) (pages : Pages α β) (root : Nat) : Prop where
  tree : ∃ h, SubTree index pages h root none none
  unshared : ∀ n m i j child, Linked pages root n → Linked pages root m →
    BranchAt pages n i child → BranchAt pages m j child → n = m ∧ i = j
  rootless : ∀ n, Linked pages root n → ¬ IsChild pages n root

theorem Inside.of_child {low high : Option (Key α β)} {first : Nat}
    {entries : List (Key α β × Nat)} {i child : Nat}
    (hentries : ∀ entry ∈ entries, Inside index low high entry.1)
    (hchild : (Node.inner first entries).children[i]? = some child)
    (hinside : Inside index (lower low entries i) (upper high entries i) key) :
    Inside index low high key := by
  have hi : i < entries.length + 1 := by
    have hlength := (List.getElem?_eq_some_iff.mp hchild).1
    rw [Node.children, List.length_cons, List.length_map] at hlength
    exact hlength
  constructor
  case above =>
    intro bound hbound
    cases i with
    | zero => exact hinside.above bound hbound
    | succ i =>
        have hentry : i < entries.length := Nat.lt_of_succ_lt_succ hi
        have hlower : lower low entries (i + 1) = some entries[i].1 := by
          rw [lower, List.getElem?_eq_getElem hentry]
          rfl
        have hsep := (hentries _ (List.getElem_mem hentry)).above bound hbound
        exact Std.TransCmp.gt_trans (hinside.above _ hlower) hsep
  case below =>
    intro bound hbound
    cases Nat.lt_or_ge i entries.length with
    | inr hlast =>
        apply hinside.below
        rw [upper, List.getElem?_eq_none hlast]
        exact hbound
    | inl hentry =>
        have hupper : upper high entries i = some entries[i].1 := by
          rw [upper, List.getElem?_eq_getElem hentry]
        have hkey := hinside.below _ hupper
        have hsep := (hentries _ (List.getElem_mem hentry)).below bound hbound
        exact Ordering.isLE_iff_ne_gt.mp (Std.TransCmp.isLE_trans
          (Ordering.isLE_iff_ne_gt.mpr hkey) (Ordering.isLE_iff_ne_gt.mpr hsep))

omit [LinearOrder β] in
theorem linked_cases {n m : Nat} (hlinked : Linked pages n m) :
    n = m ∨ ∃ child, IsChild pages n child ∧ Linked pages child m :=
  Relation.ReflTransGen.cases_head hlinked

/-- The keys of a tree are inside its bounds. -/
theorem SubTree.inside_of_linked {h n m : Nat} {low high : Option (Key α β)}
    (htree : SubTree index pages h n low high) (hlinked : Linked pages n m)
    (hleaf : pages m = some (.leaf keys)) (hkey : key ∈ keys) :
    Inside index low high key := by
  induction htree with
  | leaf page sorted inside =>
      cases linked_cases hlinked with
      | inl heq =>
          subst heq
          cases page.symm.trans hleaf
          exact inside key hkey
      | inr hchild =>
          obtain ⟨child, ⟨i, node, hnode, hget⟩, -⟩ := hchild
          cases page.symm.trans hnode
          cases hget
  | inner page sorted inside branch ih =>
      cases linked_cases hlinked with
      | inl heq =>
          subst heq
          cases page.symm.trans hleaf
      | inr hchild =>
          obtain ⟨child, ⟨i, node, hnode, hget⟩, hrest⟩ := hchild
          cases page.symm.trans hnode
          exact Inside.of_child inside hget (ih i child hget hrest)

theorem SubTree.height_unique {h h' n : Nat} {low high low' high' : Option (Key α β)}
    (htree : SubTree index pages h n low high) (hother : SubTree index pages h' n low' high') :
    h = h' := by
  induction htree generalizing h' low' high' with
  | leaf page _ _ =>
      cases hother with
      | leaf => rfl
      | inner other =>
          cases page.symm.trans other
  | inner page _ _ branch ih =>
      cases hother with
      | leaf other =>
          cases page.symm.trans other
      | inner other _ _ branch' =>
          cases page.symm.trans other
          exact congrArg Nat.succ (ih 0 _ rfl (branch' 0 _ rfl))

/-! The path of a search. -/

/-- The path from a page up to the root. -/
inductive IsPath (index : IndexDescr α) (pages : Pages α β) (root : Nat) :
    Nat → List StkCell → Prop
  | root {h posit : Nat} (tree : SubTree index pages h root none none) :
      IsPath index pages root h [⟨root, posit⟩]
  | child {h : Nat} {low high : Option (Key α β)} {cell father : StkCell}
      {above : List StkCell}
      (path : IsPath index pages root (h + 1) (father :: above))
      (tree : SubTree index pages h cell.nn low high)
      (branch : BranchAt pages father.nn father.posit cell.nn) :
      IsPath index pages root h (cell :: father :: above)

theorem IsPath.heights {root h : Nat} {path : List StkCell}
    (hpath : IsPath index pages root h path) :
    ∀ cell ∈ path, ∃ h' low high, h ≤ h' ∧ SubTree index pages h' cell.nn low high := by
  induction hpath with
  | root tree =>
      intro cell hcell
      rw [List.mem_singleton] at hcell
      subst hcell
      exact ⟨_, none, none, Nat.le_refl _, tree⟩
  | child path tree branch ih =>
      intro cell hcell
      cases List.mem_cons.mp hcell with
      | inl heq =>
          subst heq
          exact ⟨_, _, _, Nat.le_refl _, tree⟩
      | inr habove =>
          obtain ⟨h', low, high, hle, htree⟩ := ih cell habove
          exact ⟨h', low, high, Nat.le_of_succ_le hle, htree⟩

theorem IsPath.nodup {root h : Nat} {path : List StkCell}
    (hpath : IsPath index pages root h path) : (path.map StkCell.nn).Nodup := by
  induction hpath with
  | root tree => exact List.nodup_cons.mpr ⟨List.not_mem_nil, List.nodup_nil⟩
  | child path tree branch ih =>
      rw [List.map_cons, List.nodup_cons]
      refine ⟨?_, ih⟩
      intro hmem
      obtain ⟨cell, hcell, heq⟩ := List.mem_map.mp hmem
      obtain ⟨h', low, high, hle, htree⟩ := path.heights cell hcell
      rw [heq] at htree
      have hsame := tree.height_unique htree
      omega

theorem IsPath.linked {root h : Nat} {path : List StkCell}
    (hpath : IsPath index pages root h path) :
    ∀ cell ∈ path, Linked pages root cell.nn := by
  induction hpath with
  | root tree =>
      intro cell hcell
      rw [List.mem_singleton] at hcell
      subst hcell
      exact Relation.ReflTransGen.refl
  | child path tree branch ih =>
      intro cell hcell
      cases List.mem_cons.mp hcell with
      | inl heq =>
          subst heq
          exact (ih _ List.mem_cons_self).tail ⟨_, branch⟩
      | inr habove => exact ih cell habove

/-- A path to a leaf, and the comparison of the key there. -/
structure LeafPath (index : IndexDescr α) (pages : Pages α β) (root : Nat) (key : Key α β)
    (res : Bool × Ordering) (path : List StkCell) : Prop where
  isPath : IsPath index pages root 0 path
  leaf : ∃ cell above keys, path = cell :: above ∧ pages cell.nn = some (.leaf keys) ∧
    nodeSeek index key (.leaf keys) = (res, cell.posit)

theorem exists_branch {first : Nat} {entries : List (Key α β × Nat)}
    (hsorted : Sorted index (entries.map Prod.fst)) :
    ∃ child, (Node.inner first entries).children[(nodeSeek index key
        (.inner first entries)).2]? = some child ∧
      (Node.inner first entries).children.getD (nodeSeek index key
        (.inner first entries)).2 0 = child := by
  have hbound := (@nodeSeek_spec _ _ _ index key (.inner first entries) hsorted).bound
  have hin : (nodeSeek index key (.inner first entries)).2 <
      (Node.inner first entries).children.length := by
    simp only [Node.keys, List.length_map] at hbound
    rw [Node.children, List.length_cons, List.length_map]
    exact Nat.lt_succ_of_le hbound
  refine ⟨_, List.getElem?_eq_getElem hin, ?_⟩
  rw [List.getD_eq_getElem?_getD, List.getElem?_eq_getElem hin]
  rfl

theorem buildStack_leaf {circumstances : Circumstances} {n room depth : Nat}
    {stack path : List StkCell} {res : Bool × Ordering} (hpage : pages n = some (.leaf keys))
    (hbuild : buildStack index circumstances key pages room depth n stack = some (res, path)) :
    ∃ posit, nodeSeek index key (.leaf keys) = (res, posit) ∧ path = ⟨n, posit⟩ :: stack := by
  cases room with
  | zero => cases hbuild
  | succ room =>
      rw [buildStack] at hbuild
      split at hbuild
      case isTrue => cases hbuild
      case isFalse =>
        simp only [hpage, Option.some.injEq, Prod.mk.injEq] at hbuild
        obtain ⟨hres, rfl⟩ := hbuild
        exact ⟨_, Prod.ext hres rfl, rfl⟩

theorem buildStack_inner {circumstances : Circumstances} {n room depth first : Nat}
    {entries : List (Key α β × Nat)} {stack : List StkCell}
    {found : (Bool × Ordering) × List StkCell} (hpage : pages n = some (.inner first entries))
    (hbuild : buildStack index circumstances key pages room depth n stack = some found) :
    ∃ room res posit, nodeSeek index key (.inner first entries) = (res, posit) ∧
      buildStack index circumstances key pages room (depth + 1)
        ((Node.inner first entries).children.getD posit 0) (⟨n, posit⟩ :: stack) =
          some found := by
  cases room with
  | zero => cases hbuild
  | succ room =>
      rw [buildStack] at hbuild
      split at hbuild
      case isTrue => cases hbuild
      case isFalse =>
        simp only [hpage] at hbuild
        exact ⟨room, _, _, rfl, hbuild⟩

theorem buildStack_spec {circumstances : Circumstances} {root h n room depth : Nat}
    {low high : Option (Key α β)} {stack path : List StkCell} {res : Bool × Ordering}
    (htree : SubTree index pages h n low high)
    (hpath : ∀ posit, IsPath index pages root h (⟨n, posit⟩ :: stack))
    (hbuild : buildStack index circumstances key pages room depth n stack = some (res, path)) :
    LeafPath index pages root key res path := by
  induction htree generalizing room depth stack with
  | leaf page sorted inside =>
      obtain ⟨posit, hseek, rfl⟩ := buildStack_leaf page hbuild
      exact ⟨hpath _, _, _, _, rfl, page, hseek⟩
  | inner page sorted inside branch ih =>
      obtain ⟨room, other, posit, hseek, hbuild⟩ := buildStack_inner page hbuild
      obtain ⟨child, hchild, hget⟩ := @exists_branch _ _ _ index key _ _ sorted
      rw [hseek] at hchild hget
      rw [hget] at hbuild
      apply ih _ child hchild _ hbuild
      intro posit
      exact IsPath.child (hpath _) (branch _ child hchild) ⟨_, page, hchild⟩

/-- The search goes to the branch whose bounds the key is inside of. -/
theorem posit_of_inside {first i child : Nat} {entries : List (Key α β × Nat)}
    {low high : Option (Key α β)} (hsorted : Sorted index (entries.map Prod.fst))
    (hchild : (Node.inner first entries).children[i]? = some child)
    (horder : keyOrder index key other = .eq)
    (hinside : Inside index (lower low entries i) (upper high entries i) other) :
    (nodeSeek index key (.inner first entries)).2 = i := by
  have hsought := @nodeSeek_spec _ _ _ index key (.inner first entries) hsorted
  generalize nodeSeek index key (.inner first entries) = result at hsought
  obtain ⟨res, posit⟩ := result
  have hlength : (entries.map Prod.fst).length = entries.length := List.length_map _
  have hi : i ≤ entries.length := by
    have hlen := (List.getElem?_eq_some_iff.mp hchild).1
    rw [Node.children, List.length_cons, List.length_map] at hlen
    exact Nat.le_of_lt_succ hlen
  have hbound : posit ≤ entries.length := hlength ▸ hsought.bound
  change posit = i
  apply Nat.le_antisymm
  · -- the separator at `i` is not below the key, so it is not passed
    by_contra hlt
    have hentry : i < entries.length := by omega
    have hkeys : i < (entries.map Prod.fst).length := by omega
    have hpassed := hsought.passed i (Nat.lt_of_not_le hlt)
    rw [Node.keys, cmpAt_getElem hkeys, List.getElem_map] at hpassed
    have hupper : upper high entries i = some entries[i].1 := by
      rw [upper, List.getElem?_eq_getElem hentry]
    apply hinside.below _ hupper
    exact Std.TransCmp.gt_of_eq_of_gt (Std.OrientedCmp.eq_symm horder) hpassed
  · -- the separator before `i` is below the key, so the search does not stop at one before
    by_contra hlt
    cases i with
    | zero => exact hlt (Nat.zero_le posit)
    | succ i =>
        have hentry : i < entries.length := by omega
        have hkeys : i < (entries.map Prod.fst).length := by omega
        have hstopLt : posit < (entries.map Prod.fst).length := by omega
        obtain ⟨-, hstop⟩ := hsought.stopped hstopLt
        apply hstop
        change seekOrder index.distinct (cmpAt index key (entries.map Prod.fst) posit) = .gt
        rw [cmpAt_getElem hstopLt]
        have hlower : lower low entries (i + 1) = some entries[i].1 := by
          rw [lower, List.getElem?_eq_getElem hentry]
          rfl
        have habove := hinside.above _ hlower
        have hkey : keyOrder index key (entries.map Prod.fst)[i] = .gt := by
          rw [List.getElem_map]
          exact Std.TransCmp.gt_of_eq_of_gt horder habove
        cases Nat.lt_or_ge posit i with
        | inl hbefore =>
            exact Std.TransCmp.gt_trans hkey
              (Std.OrientedCmp.gt_of_lt (Sorted.lt hsorted hbefore hkeys))
        | inr hnot =>
            have heq : posit = i := by omega
            subst heq
            exact hkey

/-- A key in the tree is found, and in a distinct index its value. -/
theorem buildStack_found {circumstances : Circumstances} {h n m room depth : Nat}
    {low high : Option (Key α β)} {stack path : List StkCell} {res : Bool × Ordering}
    (htree : SubTree index pages h n low high) (hlinked : Linked pages n m)
    (hleaf : pages m = some (.leaf keys)) (hother : other ∈ keys)
    (horder : keyOrder index key other = .eq)
    (hbuild : buildStack index circumstances key pages room depth n stack = some (res, path)) :
    res = cmpKeys index key other ∧
      getKeyRec index key pages path = (cmpKeys index key other).1 := by
  induction htree generalizing room depth stack with
  | leaf page sorted inside =>
      cases linked_cases hlinked with
      | inr hchild =>
          obtain ⟨child, ⟨i, node, hnode, hget⟩, -⟩ := hchild
          cases page.symm.trans hnode
          cases hget
      | inl heq =>
          subst heq
          cases page.symm.trans hleaf
          obtain ⟨posit, hseek, rfl⟩ := buildStack_leaf page hbuild
          obtain ⟨hfound, hcmp⟩ :=
            @nodeSeek_found _ _ _ index key other (.leaf keys) sorted hother horder
          rw [hseek] at hfound hcmp
          refine ⟨hfound, ?_⟩
          simp only [getKeyRec, page]
          exact congrArg Prod.fst hcmp
  | inner page sorted inside branch ih =>
      cases linked_cases hlinked with
      | inl heq =>
          subst heq
          cases page.symm.trans hleaf
      | inr hchild =>
          obtain ⟨child, ⟨i, node, hnode, hget⟩, hrest⟩ := hchild
          cases page.symm.trans hnode
          have hinside := (branch i child hget).inside_of_linked hrest hleaf hother
          have hposit := posit_of_inside sorted hget horder hinside
          obtain ⟨room, cmp, posit, hseek, hbuild⟩ := buildStack_inner page hbuild
          obtain rfl : i = posit := hposit.symm.trans (congrArg Prod.snd hseek)
          rw [List.getD_eq_getElem?_getD, hget] at hbuild
          exact ih i child hget hrest hbuild

end Sql602.Btree
