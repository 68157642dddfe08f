import Sql602.Btree.Search

namespace Sql602.Btree

/-! What becomes of the keys and the branches of a node that takes an item. -/

section Lists

variable {γ : Type} {items : List γ} {new : γ} {posit : Nat}

theorem divide_upper (h : isleave items.length posit ≤ posit) :
    divide items posit new =
      (items.take (isleave items.length posit),
        (items.drop (isleave items.length posit)).insertIdx
          (posit - isleave items.length posit) new) :=
  if_pos h

theorem divide_lower (h : posit < isleave items.length posit) :
    divide items posit new =
      ((items.take (isleave items.length posit)).insertIdx posit new,
        items.drop (isleave items.length posit)) :=
  if_neg (Nat.not_le.mpr h)

theorem isleave_le {cnt : Nat} (hcount : 2 ≤ cnt) : isleave cnt posit ≤ cnt := by
  unfold isleave
  split <;> omega

theorem isleave_pos {cnt : Nat} (hcount : 2 ≤ cnt) : 0 < isleave cnt posit := by
  unfold isleave
  split <;> omega

end Lists

section Branches

variable {α β : Type} {entries : List (Key α β × Nat)} {entry : Key α β × Nat}

theorem branch_succ (first i : Nat) (entries : List (Key α β × Nat)) :
    (Node.inner first entries).children[i + 1]? = (entries[i]?).map Prod.snd := by
  rw [Node.children, List.getElem?_cons_succ, List.getElem?_map]

theorem mem_children {first : Nat} (hentry : entry ∈ entries) :
    entry.2 ∈ (Node.inner first entries).children :=
  List.mem_cons_of_mem first (List.mem_map_of_mem hentry)

theorem branch_cases {first posit child : Nat}
    (hchild : (Node.inner first entries).children[posit]? = some child) :
    posit = 0 ∧ child = first ∨
      ∃ i entry, posit = i + 1 ∧ entries[i]? = some entry ∧ entry.2 = child := by
  cases posit with
  | zero => exact Or.inl ⟨rfl, (Option.some.inj hchild).symm⟩
  | succ i =>
      rw [branch_succ, Option.map_eq_some_iff] at hchild
      obtain ⟨entry, hentry, heq⟩ := hchild
      exact Or.inr ⟨i, entry, rfl, hentry, heq⟩

theorem posit_le {first posit child : Nat}
    (hchild : (Node.inner first entries).children[posit]? = some child) :
    posit ≤ entries.length := by
  have hlength := (List.getElem?_eq_some_iff.mp hchild).1
  rw [Node.children, List.length_cons, List.length_map] at hlength
  exact Nat.le_of_lt_succ hlength

end Branches

variable {α β : Type} [LinearOrder β]
  {index : IndexDescr α} {pages next : Pages α β} {key : Key α β}
  {settled more : Nat → Prop} {n posit : Nat} {item : Key α β × Nat} {node : Node α β}

/-- The key is in a leaf that is reached by settled pages. -/
inductive Held (index : IndexDescr α) (pages : Pages α β) (settled : Nat → Prop)
    (key : Key α β) : Nat → Prop
  | leaf {n : Nat} {keys : List (Key α β)} {other : Key α β} (isSettled : settled n)
      (page : pages n = some (.leaf keys)) (mem : other ∈ keys)
      (same : cmpKeys index key other = (true, .eq)) : Held index pages settled key n
  | inner {n i child : Nat} (isSettled : settled n) (branch : BranchAt pages n i child)
      (held : Held index pages settled key child) : Held index pages settled key n

theorem Held.mono (hheld : Held index pages settled key n)
    (hsettled : ∀ m, settled m → more m) (hpages : ∀ m, settled m → next m = pages m) :
    Held index next more key n := by
  induction hheld with
  | leaf isSettled page mem same =>
      exact Held.leaf (hsettled _ isSettled) ((hpages _ isSettled).trans page) mem same
  | inner isSettled branch held ih =>
      obtain ⟨node, hnode, hchild⟩ := branch
      exact Held.inner (hsettled _ isSettled) ⟨node, (hpages _ isSettled).trans hnode, hchild⟩ ih

theorem Held.inTree {root : Nat} (hheld : Held index pages settled key n)
    (hlinked : Linked pages root n) : InTree index pages root key := by
  induction hheld with
  | leaf isSettled page mem same => exact ⟨_, _, hlinked, page, _, mem, same⟩
  | inner isSettled branch held ih => exact ih (hlinked.tail ⟨_, branch⟩)

/-- The key is in the node, or under one of its branches. -/
def NodeHolds (index : IndexDescr α) (pages : Pages α β) (settled : Nat → Prop)
    (key : Key α β) : Node α β → Prop
  | .leaf keys => ∃ other ∈ keys, cmpKeys index key other = (true, .eq)
  | .inner first entries =>
      ∃ child ∈ (Node.inner first entries).children, Held index pages settled key child

theorem NodeHolds.held (hholds : NodeHolds index pages settled key node) (hn : more n)
    (hsettled : ∀ m, settled m → more m) (hpages : ∀ m, settled m → next m = pages m)
    (hpage : next n = some node) : Held index next more key n := by
  cases node with
  | leaf keys =>
      obtain ⟨other, hmem, hsame⟩ := hholds
      exact Held.leaf hn hpage hmem hsame
  | inner first entries =>
      obtain ⟨child, hmem, hheld⟩ := hholds
      obtain ⟨i, hi⟩ := List.mem_iff_getElem?.mp hmem
      exact Held.inner hn ⟨_, hpage, hi⟩ (hheld.mono hsettled hpages)

/-- The item is the key for a leaf; for an inner node, the key is under the new page or under
the branch that has been divided. -/
def Pending (index : IndexDescr α) (pages : Pages α β) (settled : Nat → Prop) (key : Key α β)
    (node : Node α β) (posit : Nat) (item : Key α β × Nat) : Prop :=
  match node with
  | .leaf keys => posit ≤ keys.length ∧ cmpKeys index key item.1 = (true, .eq)
  | .inner first entries => ∃ child, (Node.inner first entries).children[posit]? = some child ∧
      (Held index pages settled key child ∨ Held index pages settled key item.2)

theorem Pending.placed_holds (hpending : Pending index pages settled key node posit item) :
    NodeHolds index pages settled key (node.placed posit item) := by
  cases node with
  | leaf keys =>
      obtain ⟨hposit, hsame⟩ := hpending
      exact ⟨item.1, (List.mem_insertIdx hposit).mpr (Or.inl rfl), hsame⟩
  | inner first entries =>
      obtain ⟨child, hchild, hheld⟩ := hpending
      have hposit := posit_le hchild
      cases hheld with
      | inr hnew =>
          exact ⟨item.2, mem_children ((List.mem_insertIdx hposit).mpr (Or.inl rfl)), hnew⟩
      | inl hold =>
          refine ⟨child, ?_, hold⟩
          obtain ⟨-, rfl⟩ | ⟨i, entry, -, hentry, rfl⟩ := branch_cases hchild
          · exact List.mem_cons_self
          · exact mem_children ((List.mem_insertIdx hposit).mpr
              (Or.inr (List.mem_of_getElem? hentry)))

/-- In the lower half the node keeps the item and the divided branch. -/
theorem Pending.lower_holds (hpending : Pending index pages settled key node posit item)
    (hcount : 2 ≤ node.keys.length) (hlower : posit < isleave node.keys.length posit) :
    NodeHolds index pages settled key (node.divided posit item).1 := by
  have hle := @isleave_le posit _ hcount
  cases node with
  | leaf keys =>
      obtain ⟨hposit, hsame⟩ := hpending
      simp only [Node.keys] at hlower hle
      simp only [Node.divided, divide_lower hlower]
      refine ⟨item.1, (List.mem_insertIdx ?_).mpr (Or.inl rfl), hsame⟩
      rw [List.length_take]
      omega
  | inner first entries =>
      obtain ⟨child, hchild, hheld⟩ := hpending
      simp only [Node.keys, List.length_map] at hlower hle
      simp only [Node.divided, divide_lower hlower]
      generalize isleave entries.length posit = left at hlower hle
      have htake : (entries.take left).length = left := by
        rw [List.length_take]
        omega
      have hlength : ((entries.take left).insertIdx posit item).length = left + 1 := by
        rw [List.length_insertIdx_of_le_length (by omega), htake]
      -- the last entry, which goes up, is behind both
      have hkept : ∀ i entry, i < left → ((entries.take left).insertIdx posit item)[i]? =
          some entry → entry ∈ ((entries.take left).insertIdx posit item).dropLast := by
        intro i entry hi hentry
        apply List.mem_of_getElem? (i := i)
        rw [List.getElem?_dropLast, if_pos (by omega)]
        exact hentry
      cases hheld with
      | inr hnew =>
          refine ⟨item.2, mem_children (hkept posit item hlower ?_), hnew⟩
          rw [List.getElem?_insertIdx_self, if_pos (by omega)]
      | inl hold =>
          refine ⟨child, ?_, hold⟩
          obtain ⟨-, rfl⟩ | ⟨i, entry, rfl, hentry, rfl⟩ := branch_cases hchild
          · exact List.mem_cons_self
          · apply mem_children
            apply hkept i entry (by omega)
            rw [List.getElem?_insertIdx_of_lt (Nat.lt_succ_self i), List.getElem?_take,
              if_pos (by omega)]
            exact hentry

/-- In the upper half both go to the new node. -/
theorem Pending.upper_holds (hpending : Pending index pages settled key node posit item)
    (hcount : 2 ≤ node.keys.length) (hupper : isleave node.keys.length posit ≤ posit) :
    NodeHolds index pages settled key (node.divided posit item).2.1 := by
  have hle := @isleave_le posit _ hcount
  have hpos := @isleave_pos posit _ hcount
  cases node with
  | leaf keys =>
      obtain ⟨hposit, hsame⟩ := hpending
      simp only [Node.keys] at hupper
      simp only [Node.divided, divide_upper hupper]
      refine ⟨item.1, (List.mem_insertIdx ?_).mpr (Or.inl rfl), hsame⟩
      rw [List.length_drop]
      exact Nat.sub_le_sub_right hposit _
  | inner first entries =>
      obtain ⟨child, hchild, hheld⟩ := hpending
      have hposit := posit_le hchild
      simp only [Node.keys, List.length_map] at hupper hle hpos
      simp only [Node.divided, divide_upper hupper]
      generalize isleave entries.length posit = left at hupper hle hpos
      have hroom : posit - left ≤ (entries.drop left).length := by
        rw [List.length_drop]
        omega
      cases hheld with
      | inr hnew =>
          exact ⟨item.2, mem_children ((List.mem_insertIdx hroom).mpr (Or.inl rfl)), hnew⟩
      | inl hold =>
          refine ⟨child, ?_, hold⟩
          obtain ⟨rfl, -⟩ | ⟨i, entry, rfl, hentry, rfl⟩ := branch_cases hchild
          · omega
          · cases Nat.eq_or_lt_of_le hupper with
            | inl heq =>
                -- the branch follows the separator that goes up
                subst heq
                have hlast : (entries.take (i + 1)).getLastD item = entry := by
                  rw [List.getLastD_eq_getLast?, List.getLast?_take, if_neg (by omega),
                    Nat.add_sub_cancel, hentry]
                  rfl
                rw [hlast]
                exact List.mem_cons_self
            | inr hlt =>
                apply mem_children
                apply (List.mem_insertIdx hroom).mpr
                right
                apply List.mem_of_getElem? (i := i - left)
                rw [List.getElem?_drop, Nat.add_sub_cancel' (by omega)]
                exact hentry

omit [LinearOrder β] in
/-- In the upper half the node loses the divided branch. -/
theorem upper_branch {i child : Nat} (hcount : 2 ≤ node.keys.length)
    (hupper : isleave node.keys.length posit ≤ posit)
    (hchild : (node.divided posit item).1.children[i]? = some child) :
    i < posit ∧ node.children[i]? = some child := by
  have hpos := @isleave_pos posit _ hcount
  cases node with
  | leaf keys => cases hchild
  | inner first entries =>
      simp only [Node.keys, List.length_map] at hupper hpos
      simp only [Node.divided, divide_upper hupper] at hchild
      generalize isleave entries.length posit = left at hupper hpos hchild
      obtain ⟨rfl, rfl⟩ | ⟨j, entry, rfl, hentry, rfl⟩ := branch_cases hchild
      · exact ⟨by omega, rfl⟩
      · rw [List.getElem?_dropLast] at hentry
        split at hentry
        case isFalse => cases hentry
        case isTrue hj =>
          rw [List.length_take] at hj
          rw [List.getElem?_take] at hentry
          split at hentry
          case isFalse => cases hentry
          case isTrue hlt =>
            refine ⟨by omega, ?_⟩
            rw [branch_succ, hentry]
            rfl

omit [LinearOrder β] in
theorem upper_keys {keys : List (Key α β)} (hupper : isleave keys.length posit ≤ posit)
    {left : List (Key α β)} (hleft : ((Node.leaf keys).divided posit item).1 = .leaf left) :
    ∀ other ∈ left, other ∈ keys := by
  simp only [Node.divided, divide_upper hupper, Node.leaf.injEq] at hleft
  intro other hother
  rw [← hleft] at hother
  exact List.mem_of_mem_take hother

omit [LinearOrder β] in
/-- A full node has more than a few keys. -/
theorem two_le_of_full (hfull : node.full index.keysize = true) : 2 ≤ node.keys.length := by
  have hle := index.keysize_le
  simp only [MAX_KEY_LEN] at hle
  have hsize := of_decide_eq_true hfull
  simp only [IBLOCKSIZE, IHDRSIZE] at hsize
  by_contra hfew
  cases node with
  | leaf keys =>
      simp only [Node.dtsize, Node.step, Node.keys] at hsize hfew
      have hmul : index.keysize * keys.length ≤ index.keysize * 1 :=
        Nat.mul_le_mul_left _ (by omega)
      omega
  | inner first entries =>
      simp only [Node.dtsize, Node.step, Node.keys, List.length_map] at hsize hfew
      have hmul : (index.keysize + 4) * entries.length ≤ (index.keysize + 4) * 1 :=
        Nat.mul_le_mul_left _ (by omega)
      omega

end Sql602.Btree
