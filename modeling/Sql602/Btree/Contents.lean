import Mathlib.Data.List.Nodup
import Sql602.Btree.Iteration
import Sql602.Library.Fences

namespace Sql602.Btree

open Fences

/-! The pages that a tree owns and the keys that it holds. -/

variable {α β : Type} [LinearOrder β]

structure StoredLeaf (index : IndexDescr α) (pages : Pages α β) (n : Nat)
    (low high : Option (Key α β)) (owned : List Nat) (held : List (Key α β)) : Prop where
  page : pages n = some (.leaf held)
  owns : owned = [n]
  fits : (Node.leaf held).dtsize index.keysize ≤ IBLOCKSIZE - IHDRSIZE
  sorted : Sorted index held
  within : ∀ key ∈ held, Within (keyOrder index) low high key

/-- A tree of some height with its bounds, its pages and the keys of its leaves in their order.
Each branch holds some keys. -/
def Stored (index : IndexDescr α) (pages : Pages α β) : Nat → Content (Key α β) Nat Nat
  | 0, n, low, high, owned, held => StoredLeaf index pages n low high owned held
  | h + 1, n, low, high, owned, held => ∃ first entries below,
      pages n = some (.inner first entries) ∧ owned = n :: below ∧
        (Node.inner first entries : Node α β).dtsize index.keysize ≤ IBLOCKSIZE - IHDRSIZE ∧
        Fenced (Holding (Stored index pages h)) first entries low high below held

variable {index : IndexDescr α} {pages next : Pages α β} {h n : Nat}
  {low high : Option (Key α β)} {owned : List Nat} {held : List (Key α β)}

theorem Stored.frame (hstored : Stored index pages h n low high owned held)
    (hsame : ∀ m ∈ owned, next m = pages m) : Stored index next h n low high owned held := by
  induction h generalizing n low high owned held with
  | zero =>
      refine { hstored with page := ?_ }
      rw [hsame n (hstored.owns ▸ List.mem_singleton.mpr rfl), hstored.page]
  | succ h ih =>
      obtain ⟨first, entries, below, hpage, rfl, hfits, hfenced⟩ := hstored
      refine ⟨first, entries, below, ?_, rfl, hfits, hfenced.mono ?_⟩
      · rw [hsame n List.mem_cons_self, hpage]
      · rintro child low high part held hpart ⟨hchild, hne⟩
        exact ⟨ih hchild fun m hm => hsame m (List.mem_cons_of_mem n (hpart m hm)), hne⟩

theorem Stored.ordered (hstored : Stored index pages h n low high owned held) :
    Sorted index held ∧ ∀ key ∈ held, Within (keyOrder index) low high key := by
  induction h generalizing n low high owned held with
  | zero => exact ⟨StoredLeaf.sorted hstored, StoredLeaf.within hstored⟩
  | succ h ih =>
      obtain ⟨first, entries, below, -, -, -, hfenced⟩ := hstored
      refine hfenced.sorted ?_ fun _ _ _ _ _ hchild => ih hchild.1
      rintro child low high part keys ⟨hchild, hne⟩
      obtain ⟨key, hkey⟩ := List.exists_mem_of_ne_nil keys hne
      exact ((ih hchild).2 key hkey).room

theorem Stored.room {child : Nat}
    (hstored : Holding (Stored index pages h) child low high owned held) :
    Below (keyOrder index) low high := by
  obtain ⟨key, hkey⟩ := List.exists_mem_of_ne_nil held hstored.2
  exact (hstored.1.ordered.2 key hkey).room

theorem Stored.widen {low' high' : Option (Key α β)}
    (hstored : Stored index pages h n low high owned held)
    (hlow : ∀ key, Above (keyOrder index) low key → Above (keyOrder index) low' key)
    (hhigh : ∀ key, Under (keyOrder index) high key → Under (keyOrder index) high' key) :
    Stored index pages h n low' high' owned held := by
  induction h generalizing n low high low' high' owned held with
  | zero =>
      exact { hstored with
        within := fun key hkey => (hstored.within key hkey).widen hlow hhigh }
  | succ h ih =>
      obtain ⟨first, entries, below, hpage, rfl, hfits, hfenced⟩ := hstored
      refine ⟨first, entries, below, hpage, rfl, hfits, hfenced.widen ?_ hlow hhigh⟩
      rintro child low low' high high' part keys hlow hhigh ⟨hchild, hne⟩
      exact ⟨ih hchild hlow hhigh, hne⟩

theorem Stored.leafKeys_eq (hstored : Stored index pages h n low high owned held) :
    leafKeys pages h n = held := by
  induction h generalizing n low high owned held with
  | zero => exact leafKeys_leaf (StoredLeaf.page hstored)
  | succ h ih =>
      obtain ⟨first, entries, below, hpage, -, -, hfenced⟩ := hstored
      rw [leafKeys_node hpage]
      exact (hfenced.held_eq fun _ _ _ _ _ hchild => ih hchild.1).symm

theorem Stored.owns_root (hstored : Stored index pages h n low high owned held) :
    ∃ below, owned = n :: below := by
  cases h with
  | zero => exact ⟨[], StoredLeaf.owns hstored⟩
  | succ h =>
      obtain ⟨first, entries, below, -, rfl, -⟩ := hstored
      exact ⟨below, rfl⟩

/-- A copy of the root takes its place. -/
theorem Stored.moved {m : Nat} {below : List Nat}
    (hstored : Stored index pages h n low high (n :: below) held) (hpage : next m = pages n)
    (hsame : ∀ page ∈ below, next page = pages page) :
    Stored index next h m low high (m :: below) held := by
  cases h with
  | zero =>
      obtain ⟨page, owns, fits, sorted, within⟩ := hstored
      obtain rfl := (List.cons.inj owns).2
      exact ⟨hpage.trans page, rfl, fits, sorted, within⟩
  | succ h =>
      obtain ⟨first, entries, other, page, owns, fits, hfenced⟩ := hstored
      obtain rfl := (List.cons.inj owns).2
      refine ⟨first, entries, below, hpage.trans page, rfl, fits, hfenced.mono ?_⟩
      rintro child low high part keys hpart ⟨hchild, hne⟩
      exact ⟨hchild.frame fun page hmem => hsame page (hpart page hmem), hne⟩

theorem inside_of_within {key : Key α β} (hwithin : Within (keyOrder index) low high key) :
    Inside index low high key where
  above bound hbound := Std.OrientedCmp.gt_of_lt (hwithin.above bound hbound)
  below bound hbound := Ordering.isLE_iff_ne_gt.mp (hwithin.below bound hbound)

omit [LinearOrder β] in
theorem lowerBound_eq (low : Option (Key α β)) (entries : List (Key α β × Nat)) (i : Nat) :
    lowerBound low entries i = lower low entries i := by
  cases i <;> rfl

omit [LinearOrder β] in
theorem upperBound_eq (high : Option (Key α β)) (entries : List (Key α β × Nat)) (i : Nat) :
    upperBound high entries i = upper high entries i := by
  rw [upperBound, upper]
  cases entries[i]? <;> rfl

theorem Stored.subTree (hstored : Stored index pages h n low high owned held) :
    SubTree index pages h n low high := by
  induction h generalizing n low high owned held with
  | zero =>
      exact .leaf (StoredLeaf.page hstored) (StoredLeaf.sorted hstored) fun key hkey =>
        inside_of_within (StoredLeaf.within hstored key hkey)
  | succ h ih =>
      obtain ⟨first, entries, below, hpage, rfl, -, hfenced⟩ := hstored
      obtain ⟨hsorted, hfences⟩ := hfenced.fences fun _ _ _ _ _ hchild => Stored.room hchild
      refine .inner hpage hsorted (fun entry hentry => ?_) fun i child hchild => ?_
      · exact inside_of_within ((hfences entry hentry).1.within (hfences entry hentry).2)
      · obtain ⟨front, inner, rest, lower, owned1, owned2, held1, held2, hplug, rfl, hbefore,
          hsecond, rfl, rfl⟩ := hfenced.unplug (posit_le hchild)
        obtain ⟨upper, part, keys, owned', held', hcontent, hbehind, rfl, rfl⟩ := hsecond.behind
        obtain rfl : first = (plug front inner rest).1 := congrArg Prod.fst hplug
        obtain rfl : entries = (plug front inner rest).2 := congrArg Prod.snd hplug
        obtain rfl := Option.some.inj (hchild.symm.trans (plug_child front inner rest))
        have htree := ih hcontent.1
        rw [hbefore.lower_eq child rest, hbehind.upper_eq child front, lowerBound_eq,
          upperBound_eq] at htree
        exact htree

theorem Stored.parts {first : Nat} {entries : List (Key α β × Nat)} {below : List Nat}
    (hfenced : Fenced (Holding (Stored index pages h)) first entries low high below held) :
    ∃ parts : List (List Nat), below = parts.flatten ∧
      List.Forall₂ (fun child part => ∃ rest, part = child :: rest)
        (Node.inner first entries).children parts ∧
      ∀ part ∈ parts, ∃ child low' high' keys, child ∈ (Node.inner first entries).children ∧
        Holding (Stored index pages h) child low' high' part keys := by
  obtain ⟨parts, rfl, hparts⟩ := hfenced.parts
  refine ⟨parts, rfl, hparts.imp ?_, ?_⟩
  · rintro child part ⟨low', high', keys, hchild, -⟩
    exact hchild.owns_root
  · intro part hpart
    obtain ⟨child, hmem, low', high', keys, hchild⟩ := (part_of_child hparts).2 part hpart
    exact ⟨child, low', high', keys, hmem, hchild⟩

theorem StoredLeaf.no_branch (hleaf : StoredLeaf index pages n low high owned held)
    {m i child : Nat} (hm : m ∈ owned) : ¬ BranchAt pages m i child := by
  rintro ⟨node, hnode, hchild⟩
  rw [hleaf.owns, List.mem_singleton] at hm
  cases (hm ▸ hnode).symm.trans hleaf.page
  cases hchild

theorem Stored.child_owned (hstored : Stored index pages h n low high owned held) {m i child : Nat}
    (hm : m ∈ owned) (hbranch : BranchAt pages m i child) :
    ∃ below, owned = n :: below ∧ child ∈ below := by
  induction h generalizing n low high owned held with
  | zero => exact absurd hbranch (StoredLeaf.no_branch hstored hm)
  | succ h ih =>
      obtain ⟨first, entries, below, hpage, rfl, -, hfenced⟩ := hstored
      obtain ⟨parts, rfl, hroots, hparts⟩ := Stored.parts hfenced
      refine ⟨parts.flatten, rfl, ?_⟩
      cases List.mem_cons.mp hm with
      | inl heq =>
          subst heq
          obtain ⟨node, hnode, hchild⟩ := hbranch
          cases hnode.symm.trans hpage
          obtain ⟨part, hpart, rest, rfl⟩ :=
            (part_of_child hroots).1 child (List.mem_of_getElem? hchild)
          exact List.mem_flatten.mpr ⟨_, hpart, List.mem_cons_self⟩
      | inr hbelow =>
          obtain ⟨part, hpart, hin⟩ := List.mem_flatten.mp hbelow
          obtain ⟨root, low', high', keys, -, hroot, -⟩ := hparts part hpart
          obtain ⟨rest, rfl, hchild⟩ := ih hroot hin
          exact List.mem_flatten.mpr ⟨_, hpart, List.mem_cons_of_mem _ hchild⟩

theorem Stored.unshared (hstored : Stored index pages h n low high owned held)
    (hnodup : owned.Nodup) {m m' i j child : Nat} (hm : m ∈ owned) (hm' : m' ∈ owned)
    (hbranch : BranchAt pages m i child) (hbranch' : BranchAt pages m' j child) :
    m = m' ∧ i = j := by
  induction h generalizing n low high owned held with
  | zero => exact absurd hbranch (StoredLeaf.no_branch hstored hm)
  | succ h ih =>
      obtain ⟨first, entries, below, hpage, rfl, -, hfenced⟩ := hstored
      obtain ⟨parts, rfl, hroots, hparts⟩ := Stored.parts hfenced
      obtain ⟨hroot, hnodup⟩ := List.nodup_cons.mp hnodup
      -- a child of the node is not below another child
      have hdeep : ∀ {m i : Nat}, m ∈ parts.flatten → BranchAt pages m i child →
          ∃ part ∈ parts, m ∈ part ∧ child ∈ part ∧
            ∀ root ∈ (Node.inner first entries).children, root ≠ child := by
        intro m i hm hbranch
        obtain ⟨part, hpart, hin⟩ := List.mem_flatten.mp hm
        obtain ⟨root, low', high', keys, hmem, hchildren, -⟩ := hparts part hpart
        obtain ⟨rest, rfl, hchild⟩ := hchildren.child_owned hin hbranch
        refine ⟨_, hpart, hin, List.mem_cons_of_mem _ hchild, ?_⟩
        rintro other hother rfl
        obtain ⟨found, hfound, below, rfl⟩ := (part_of_child hroots).1 other hother
        have heq := part_unique hnodup hfound hpart List.mem_cons_self
          (List.mem_cons_of_mem _ hchild)
        have hpartNodup := (List.nodup_flatten.mp hnodup).1 _ hpart
        rw [(List.cons.inj heq).1] at hchild
        exact (List.nodup_cons.mp hpartNodup).1 hchild
      have hdirect : ∀ {i : Nat}, BranchAt pages n i child →
          (Node.inner first entries).children[i]? = some child := by
        rintro i ⟨node, hnode, hchild⟩
        cases hnode.symm.trans hpage
        exact hchild
      have hchildren : (Node.inner first entries).children.Nodup := by
        refine nodup_children (hroots.imp ?_) hnodup
        rintro root part ⟨rest, rfl⟩
        exact List.mem_cons_self
      rcases List.mem_cons.mp hm with rfl | hbelow <;>
        rcases List.mem_cons.mp hm' with heq | hbelow'
      · subst heq
        refine ⟨rfl, ?_⟩
        have hi := hdirect hbranch
        have hlt := (List.getElem?_eq_some_iff.mp hi).1
        exact (List.getElem?_inj hlt hchildren).mp (hi.trans (hdirect hbranch').symm)
      · obtain ⟨part, hpart, -, -, hother⟩ := hdeep hbelow' hbranch'
        exact absurd rfl (hother child (List.mem_of_getElem? (hdirect hbranch)))
      · subst heq
        obtain ⟨part, hpart, -, -, hother⟩ := hdeep hbelow hbranch
        exact absurd rfl (hother child (List.mem_of_getElem? (hdirect hbranch')))
      · obtain ⟨part, hpart, hin, hchild, -⟩ := hdeep hbelow hbranch
        obtain ⟨found, hfound, hin', hchild', -⟩ := hdeep hbelow' hbranch'
        obtain rfl := part_unique hnodup hpart hfound hchild hchild'
        obtain ⟨root, low', high', keys, -, hroot, -⟩ := hparts part hpart
        exact ih hroot ((List.nodup_flatten.mp hnodup).1 part hpart) hin hin'

/-! The pages that a tree owns are those that are linked to its root. -/

theorem Stored.linked_owned (hstored : Stored index pages h n low high owned held) {m : Nat}
    (hlinked : Linked pages n m) : m ∈ owned := by
  obtain ⟨below, rfl⟩ := hstored.owns_root
  induction hlinked with
  | refl => exact List.mem_cons_self
  | tail _ hchild ih =>
      obtain ⟨i, hbranch⟩ := hchild
      obtain ⟨rest, heq, hmem⟩ := hstored.child_owned ih hbranch
      rw [heq]
      exact List.mem_cons_of_mem _ hmem

theorem Stored.owned_linked (hstored : Stored index pages h n low high owned held) {m : Nat}
    (hm : m ∈ owned) : Linked pages n m := by
  induction h generalizing n low high owned held with
  | zero =>
      rw [StoredLeaf.owns hstored, List.mem_singleton] at hm
      exact hm ▸ Relation.ReflTransGen.refl
  | succ h ih =>
      obtain ⟨first, entries, below, hpage, rfl, -, hfenced⟩ := hstored
      cases List.mem_cons.mp hm with
      | inl heq => exact heq ▸ Relation.ReflTransGen.refl
      | inr hbelow =>
          obtain ⟨parts, rfl, -, hparts⟩ := Stored.parts hfenced
          obtain ⟨part, hpart, hin⟩ := List.mem_flatten.mp hbelow
          obtain ⟨child, low', high', keys, hchild, hcontent, -⟩ := hparts part hpart
          obtain ⟨i, hget⟩ := List.mem_iff_getElem?.mp hchild
          exact Relation.ReflTransGen.head ⟨i, _, hpage, hget⟩ (ih hcontent hin)

theorem Stored.mem_held (hstored : Stored index pages h n low high owned held) {key : Key α β} :
    key ∈ held ↔ ∃ m keys, Linked pages n m ∧ pages m = some (.leaf keys) ∧ key ∈ keys := by
  rw [← hstored.leafKeys_eq]
  exact mem_leafKeys hstored.subTree

theorem Stored.wellFormed (hstored : Stored index pages h n none none owned held)
    (hnodup : owned.Nodup) : WellFormed index pages n where
  tree := ⟨h, hstored.subTree⟩
  unshared _ _ _ _ _ hlinked hlinked' hbranch hbranch' :=
    hstored.unshared hnodup (hstored.linked_owned hlinked) (hstored.linked_owned hlinked')
      hbranch hbranch'
  rootless m hlinked := by
    rintro ⟨i, hbranch⟩
    obtain ⟨below, rfl, hroot⟩ := hstored.child_owned (hstored.linked_owned hlinked) hbranch
    exact (List.nodup_cons.mp hnodup).1 hroot

theorem Stored.empty_leaf (hstored : Stored index pages h n low high owned held) {m : Nat}
    (hm : m ∈ owned) (hempty : pages m = some (.leaf [])) : m = n ∧ held = [] := by
  induction h generalizing n low high owned held with
  | zero =>
      rw [StoredLeaf.owns hstored, List.mem_singleton] at hm
      subst hm
      cases hempty.symm.trans (StoredLeaf.page hstored)
      exact ⟨rfl, rfl⟩
  | succ h ih =>
      exfalso
      obtain ⟨first, entries, below, hpage, rfl, -, hfenced⟩ := hstored
      cases List.mem_cons.mp hm with
      | inl heq =>
          subst heq
          cases hpage.symm.trans hempty
      | inr hbelow =>
          obtain ⟨parts, rfl, -, hparts⟩ := Stored.parts hfenced
          obtain ⟨part, hpart, hin⟩ := List.mem_flatten.mp hbelow
          obtain ⟨child, low', high', keys, -, hchild, hne⟩ := hparts part hpart
          exact hne (ih hchild hin).2

theorem Stored.treeFilled (hstored : Stored index pages h n low high owned held) :
    Filled pages n := fun _ hlinked hne hempty =>
  hne (hstored.empty_leaf (hstored.linked_owned hlinked) hempty).1

/-- No node is larger than its page. -/
theorem Stored.node_fits (hstored : Stored index pages h n low high owned held) {m : Nat}
    {node : Node α β} (hm : m ∈ owned) (hnode : pages m = some node) :
    node.dtsize index.keysize ≤ IBLOCKSIZE - IHDRSIZE := by
  induction h generalizing n low high owned held with
  | zero =>
      rw [StoredLeaf.owns hstored, List.mem_singleton] at hm
      cases (hm ▸ hnode).symm.trans (StoredLeaf.page hstored)
      exact StoredLeaf.fits hstored
  | succ h ih =>
      obtain ⟨first, entries, below, hpage, rfl, hfits, hfenced⟩ := hstored
      cases List.mem_cons.mp hm with
      | inl heq =>
          cases (heq ▸ hnode).symm.trans hpage
          exact hfits
      | inr hbelow =>
          obtain ⟨parts, rfl, -, hparts⟩ := Stored.parts hfenced
          obtain ⟨part, hpart, hin⟩ := List.mem_flatten.mp hbelow
          obtain ⟨child, low', high', keys, -, hchild, -⟩ := hparts part hpart
          exact ih hchild hin

end Sql602.Btree
