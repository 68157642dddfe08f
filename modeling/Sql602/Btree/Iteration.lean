import Sql602.Btree.Stepping
import Mathlib.Order.BoundedOrder.Basic

namespace Sql602.Btree

/-! Passing all keys of an index tree from a start key on. -/

theorem filter_eq_drop {γ : Type} {p : γ → Bool} {list : List γ} {n : Nat} (hn : n ≤ list.length)
    (hbefore : ∀ x ∈ list.take n, p x = false) (hafter : ∀ x ∈ list.drop n, p x = true) :
    list.filter p = list.drop n := by
  have hsplit : list.filter p = (list.take n).filter p ++ (list.drop n).filter p := by
    rw [← List.filter_append, List.take_append_drop]
  have hnone : (list.take n).filter p = [] := by
    rw [List.filter_eq_nil_iff]
    intro x hx
    rw [hbefore x hx]
    exact Bool.false_ne_true
  rw [hsplit, hnone, List.filter_eq_self.mpr hafter, List.nil_append]

variable {α β : Type} [LinearOrder β] {index : IndexDescr α} {pages : Pages α β}
  {n h root first : Nat} {low high : Option (Key α β)} {entries : List (Key α β × Nat)}
  {key other : Key α β}

theorem leafKeys_inside (htree : SubTree index pages h n low high) :
    ∀ key ∈ leafKeys pages h n, Inside index low high key := by
  induction htree with
  | leaf page sorted inside =>
      rw [leafKeys_leaf page]
      exact inside
  | inner page sorted inside branch ih =>
      intro key hkey
      rw [leafKeys_node page, List.mem_flatMap] at hkey
      obtain ⟨child, hchild, hkey⟩ := hkey
      obtain ⟨i, hget⟩ := List.mem_iff_getElem?.mp hchild
      exact Inside.of_child inside hget (ih i child hget key hkey)

/-! The keys of the children on both sides of a separator. -/

section Separators

variable {i e child : Nat}

theorem sep_le (hsorted : Sorted index (entries.map Prod.fst)) (hi : i < entries.length)
    (he : e < entries.length) (hle : i ≤ e) :
    (keyOrder index entries[i].1 entries[e].1).isLE = true := by
  cases Nat.eq_or_lt_of_le hle with
  | inl heq =>
      subst heq
      exact Ordering.isLE_of_eq_eq Std.ReflCmp.compare_self
  | inr hlt =>
      have hbound : e < (entries.map Prod.fst).length := by rwa [List.length_map]
      have horder := Sorted.lt hsorted hlt hbound
      rw [List.getElem_map, List.getElem_map] at horder
      exact Ordering.isLE_of_eq_lt horder

theorem child_below (hsorted : Sorted index (entries.map Prod.fst)) (hle : i ≤ e)
    (he : e < entries.length)
    (hinside : Inside index (lower low entries i) (upper high entries i) key) :
    (keyOrder index key entries[e].1).isLE = true := by
  have hi : i < entries.length := Nat.lt_of_le_of_lt hle he
  have hupper : upper high entries i = some entries[i].1 := by
    rw [upper, List.getElem?_eq_getElem hi]
  have hkey := Ordering.isLE_iff_ne_gt.mpr (hinside.below _ hupper)
  exact Std.TransCmp.isLE_trans hkey (sep_le hsorted hi he hle)

theorem child_above (hsorted : Sorted index (entries.map Prod.fst)) (hlt : e < i)
    (hi : i ≤ entries.length)
    (hinside : Inside index (lower low entries i) (upper high entries i) key) :
    ∀ he : e < entries.length, keyOrder index key entries[e].1 = .gt := by
  intro he
  obtain ⟨i, rfl⟩ := Nat.exists_eq_succ_of_ne_zero (Nat.ne_zero_of_lt hlt)
  have hi : i < entries.length := hi
  have hlower : lower low entries (i + 1) = some entries[i].1 := by
    rw [lower, List.getElem?_eq_getElem hi]
    rfl
  have hkey := hinside.above _ hlower
  have hsep := sep_le hsorted he hi (Nat.le_of_lt_succ hlt)
  exact Std.TransCmp.gt_of_gt_of_isGE hkey (Std.OrientedCmp.isGE_of_isLE hsep)

end Separators

theorem leafKeys_sorted (htree : SubTree index pages h n low high) :
    Sorted index (leafKeys pages h n) := by
  induction htree with
  | leaf page sorted inside =>
      rw [leafKeys_leaf page]
      exact sorted
  | @inner h n low high first entries page sorted inside branch ih =>
      rw [leafKeys_node page, Sorted, List.pairwise_flatMap]
      constructor
      · intro child hchild
        obtain ⟨i, hget⟩ := List.mem_iff_getElem?.mp hchild
        exact ih i child hget
      · rw [List.pairwise_iff_getElem]
        intro i j hi hj hij key1 hkey1 key2 hkey2
        have hbound : j ≤ entries.length := by
          rw [Node.children, List.length_cons, List.length_map] at hj
          exact Nat.le_of_lt_succ hj
        have hsep : i < entries.length := Nat.lt_of_lt_of_le hij hbound
        have hinside1 := leafKeys_inside (branch i _ (List.getElem?_eq_getElem hi)) key1 hkey1
        have hinside2 := leafKeys_inside (branch j _ (List.getElem?_eq_getElem hj)) key2 hkey2
        have hle := child_below sorted (Nat.le_refl i) hsep hinside1
        have hgt := child_above sorted hij hbound hinside2 hsep
        exact Std.TransCmp.lt_of_isLE_of_lt hle (Std.OrientedCmp.lt_of_gt hgt)

/-- The keys of the tree are those of its leaves. -/
theorem mem_leafKeys (htree : SubTree index pages h n low high) :
    key ∈ leafKeys pages h n ↔
      ∃ m keys, Linked pages n m ∧ pages m = some (.leaf keys) ∧ key ∈ keys := by
  induction htree with
  | @leaf n low high keys page sorted inside =>
      rw [leafKeys_leaf page]
      constructor
      · intro hkey
        exact ⟨n, keys, Relation.ReflTransGen.refl, page, hkey⟩
      · rintro ⟨m, others, hlinked, hleaf, hkey⟩
        obtain rfl | ⟨child, ⟨i, node, hnode, hget⟩, -⟩ := linked_cases hlinked
        · cases page.symm.trans hleaf
          exact hkey
        · cases page.symm.trans hnode
          cases hget
  | @inner h n low high first entries page sorted inside branch ih =>
      rw [leafKeys_node page, List.mem_flatMap]
      constructor
      · rintro ⟨child, hchild, hkey⟩
        obtain ⟨i, hget⟩ := List.mem_iff_getElem?.mp hchild
        obtain ⟨m, keys, hlinked, hleaf, hmem⟩ := (ih i child hget).mp hkey
        exact ⟨m, keys, Relation.ReflTransGen.head ⟨i, _, page, hget⟩ hlinked, hleaf, hmem⟩
      · rintro ⟨m, keys, hlinked, hleaf, hkey⟩
        obtain rfl | ⟨child, ⟨i, node, hnode, hget⟩, hrest⟩ := linked_cases hlinked
        · cases page.symm.trans hleaf
        · cases page.symm.trans hnode
          exact ⟨child, List.mem_of_getElem? hget,
            (ih i child hget).mpr ⟨m, keys, hrest, hleaf, hkey⟩⟩

/-! The start position. -/

/-- The key is not less than the start key; in a distinct index record numbers do not matter. -/
def notLess (index : IndexDescr α) (start key : Key α β) : Bool :=
  keyOrder index start key != .gt

theorem notLess_of_isLE (h : (keyOrder index key other).isLE = true) :
    notLess index key other = true :=
  bne_iff_ne.mpr (Ordering.isLE_iff_ne_gt.mp h)

theorem notLess_of_gt (h : keyOrder index key other = .gt) : notLess index key other = false :=
  bne_eq_false_iff_eq.mpr h

theorem leaf_notLess {keys : List (Key α β)} (hsorted : Sorted index keys) :
    keys.filter (notLess index key) = keys.drop (nodeSeek index key (.leaf keys)).2 := by
  obtain ⟨hbound, hpassed, hstopped, -⟩ :=
    @nodeSeek_spec _ _ _ index key (.leaf keys) hsorted
  generalize nodeSeek index key (.leaf keys) = result at *
  obtain ⟨res, posit⟩ := result
  have hbound : posit ≤ keys.length := hbound
  apply filter_eq_drop hbound
  · intro other hother
    obtain ⟨i, hi, rfl⟩ := List.mem_take_iff_getElem.mp hother
    have hkey := hpassed i (Nat.lt_of_lt_of_le hi (Nat.min_le_left _ _))
    have hin : i < keys.length := Nat.lt_of_lt_of_le hi (Nat.min_le_right _ _)
    change seekOrder index.distinct (cmpAt index key keys i) = .gt at hkey
    rw [cmpAt_getElem hin] at hkey
    exact notLess_of_gt hkey
  · intro other hother
    obtain ⟨i, hi, rfl⟩ := List.mem_drop_iff_getElem.mp hother
    have hfirst : posit < keys.length := by omega
    have hkey := (hstopped hfirst).2
    change seekOrder index.distinct (cmpAt index key keys posit) ≠ .gt at hkey
    rw [cmpAt_getElem hfirst] at hkey
    replace hkey := Ordering.isLE_iff_ne_gt.mpr hkey
    apply notLess_of_isLE
    cases i with
    | zero => exact hkey
    | succ i =>
        have hlt := Sorted.lt hsorted (show posit < posit + (i + 1) by omega) (by omega)
        exact Std.TransCmp.isLE_trans hkey (Ordering.isLE_of_eq_lt hlt)

/-- The keys of the children before the branch are less than the start key, and those of
the children behind it are not. -/
theorem children_notLess (hsorted : Sorted index (entries.map Prod.fst))
    (branch : ∀ i child, (Node.inner first entries).children[i]? = some child →
      SubTree index pages h child (lower low entries i) (upper high entries i))
    {child : Nat} (hchild : (Node.inner first entries).children[(nodeSeek index key
      (.inner first entries)).2]? = some child) :
    ((Node.inner first entries).children.flatMap (leafKeys pages h)).filter (notLess index key) =
      (leafKeys pages h child).filter (notLess index key) ++
        ((Node.inner first entries).children.drop ((nodeSeek index key
          (.inner first entries)).2 + 1)).flatMap (leafKeys pages h) := by
  obtain ⟨hbound, hpassed, hstopped, -⟩ :=
    @nodeSeek_spec _ _ _ index key (.inner first entries) hsorted
  generalize nodeSeek index key (.inner first entries) = result at *
  obtain ⟨res, posit⟩ := result
  have hlength : (entries.map Prod.fst).length = entries.length := List.length_map _
  have hcount : (Node.inner first entries).children.length = entries.length + 1 := by
    rw [Node.children, List.length_cons, List.length_map]
  replace hbound : posit ≤ entries.length := hlength ▸ hbound
  generalize hchildren : (Node.inner first entries).children = children at *
  have hin : posit < children.length := by omega
  obtain rfl : children[posit] = child := by
    rw [← Option.some_inj, ← hchild, List.getElem?_eq_getElem hin]
  have hsplit : children =
      children.take posit ++ children[posit] :: children.drop (posit + 1) := by
    rw [← List.drop_eq_getElem_cons hin, List.take_append_drop]
  have hbefore : ((children.take posit).flatMap (leafKeys pages h)).filter
      (notLess index key) = [] := by
    rw [List.filter_eq_nil_iff]
    intro other hother
    obtain ⟨c, hc, hother⟩ := List.mem_flatMap.mp hother
    obtain ⟨i, hi, rfl⟩ := List.mem_take_iff_getElem.mp hc
    have hpos : i < posit := Nat.lt_of_lt_of_le hi (Nat.min_le_left _ _)
    have hi : i < children.length := Nat.lt_trans hpos hin
    have hinside := leafKeys_inside (branch i _ (List.getElem?_eq_getElem hi)) other hother
    have hbelow := child_below hsorted (Nat.le_refl i) (by omega) hinside
    have hsep := hpassed i hpos
    change seekOrder index.distinct (cmpAt index key (entries.map Prod.fst) i) = .gt at hsep
    rw [cmpAt_getElem (by omega), List.getElem_map] at hsep
    rw [notLess_of_gt (Std.TransCmp.gt_of_gt_of_isGE hsep
      (Std.OrientedCmp.isGE_of_isLE hbelow))]
    exact Bool.false_ne_true
  have hbehind : ((children.drop (posit + 1)).flatMap (leafKeys pages h)).filter
      (notLess index key) = (children.drop (posit + 1)).flatMap (leafKeys pages h) := by
    rw [List.filter_eq_self]
    intro other hother
    obtain ⟨c, hc, hother⟩ := List.mem_flatMap.mp hother
    obtain ⟨i, hi, rfl⟩ := List.mem_drop_iff_getElem.mp hc
    have hi : posit + 1 + i < children.length := by omega
    have hinside := leafKeys_inside (branch (posit + 1 + i) _ (List.getElem?_eq_getElem hi))
      other hother
    have hsep : posit < entries.length := by omega
    have habove := child_above hsorted (show posit < posit + 1 + i by omega) (by omega) hinside
      hsep
    have hstop := (hstopped (by rwa [Node.keys, hlength])).2
    change seekOrder index.distinct (cmpAt index key (entries.map Prod.fst) posit) ≠ .gt at hstop
    rw [cmpAt_getElem (by omega), List.getElem_map] at hstop
    apply notLess_of_isLE
    exact Std.TransCmp.isLE_trans (Ordering.isLE_iff_ne_gt.mpr hstop)
      (Ordering.isLE_of_eq_lt (Std.OrientedCmp.lt_of_gt habove))
  change (children.flatMap (leafKeys pages h)).filter (notLess index key) =
    (leafKeys pages h children[posit]).filter (notLess index key) ++
      (children.drop (posit + 1)).flatMap (leafKeys pages h)
  conv => lhs; rw [hsplit]
  rw [List.flatMap_append, List.flatMap_cons, List.filter_append, List.filter_append, hbefore,
    hbehind, List.nil_append]

/-- Building the stack passes the keys that are less than the start key. -/
theorem buildStack_ahead {circumstances : Circumstances} {room depth : Nat}
    {stack : List StkCell} (hfixes : ∀ depth, circumstances.fixesAny depth = true)
    (htree : SubTree index pages h n low high) (hroom : h < room) :
    ∃ res path, buildStack index circumstances key pages room depth n stack = some (res, path) ∧
      keysAhead pages ⟨path, false⟩ =
        (leafKeys pages h n).filter (notLess index key) ++ keysBehind pages (h + 1) stack := by
  induction htree generalizing room depth stack with
  | @leaf n low high keys page sorted inside =>
      obtain ⟨room, rfl⟩ := Nat.exists_eq_add_of_lt hroom
      rw [Nat.zero_add, buildStack, hfixes, if_neg Bool.true_eq_false.mp, page]
      refine ⟨_, _, rfl, ?_⟩
      change keysFrom pages 0 ⟨n, (nodeSeek index key (.leaf keys)).2⟩ ++
        keysBehind pages 1 stack = _
      rw [keysFrom, leafKeys_leaf page, leaf_notLess sorted]
  | @inner h n low high first entries page sorted inside branch ih =>
      obtain ⟨room, rfl⟩ := Nat.exists_eq_add_of_lt hroom
      obtain ⟨child, hchild, hget⟩ := @exists_branch _ _ _ index key first entries sorted
      rw [buildStack, hfixes, if_neg Bool.true_eq_false.mp, page]
      dsimp only
      rw [hget]
      obtain ⟨res, path, hbuild, hahead⟩ := @ih _ child hchild (h + 1 + room) (depth + 1)
        (⟨n, (nodeSeek index key (.inner first entries)).2⟩ :: stack) (by omega)
      refine ⟨res, path, hbuild, ?_⟩
      have hfrom : keysFrom pages (h + 1)
          ⟨n, (nodeSeek index key (.inner first entries)).2 + 1⟩ =
          ((Node.inner first entries).children.drop ((nodeSeek index key
            (.inner first entries)).2 + 1)).flatMap (leafKeys pages h) := by
        rw [keysFrom, page]
      rw [hahead, leafKeys_node page, children_notLess sorted branch hchild, keysBehind, hfrom,
        List.append_assoc]

end Sql602.Btree
