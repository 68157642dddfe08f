import Sql602.Btree.InsertFailures
import Sql602.Btree.Contents

namespace Sql602.Btree

open Fences

/-! What an insertion makes of the pages and the keys of a tree. -/

section Lists

variable {γ : Type} {items : List γ} {new : γ} {posit : Nat}

theorem insertIdx_eq (hposit : posit ≤ items.length) :
    items.insertIdx posit new = items.take posit ++ new :: items.drop posit := by
  induction items generalizing posit with
  | nil =>
      obtain rfl : posit = 0 := Nat.le_zero.mp hposit
      rfl
  | cons first rest ih =>
      cases posit with
      | zero => rfl
      | succ posit =>
          rw [List.insertIdx_succ_cons, ih (Nat.le_of_succ_le_succ hposit)]
          rfl

/-- The two parts of a divided node are the node with the item. -/
theorem divide_append (hcount : 2 ≤ items.length) (hposit : posit ≤ items.length) :
    ∃ left right, divide items posit new = (left, right) ∧ left ≠ [] ∧ right ≠ [] ∧
      left ++ right = items.insertIdx posit new := by
  have hpos := @isleave_pos posit _ hcount
  have hlt : isleave items.length posit < items.length := by
    unfold isleave
    split <;> omega
  have htake : (items.take (isleave items.length posit)).length =
      isleave items.length posit := by
    rw [List.length_take]
    omega
  have hdrop : (items.drop (isleave items.length posit)).length =
      items.length - isleave items.length posit := List.length_drop
  cases Nat.lt_or_ge posit (isleave items.length posit) with
  | inl hlower =>
      refine ⟨_, _, divide_lower hlower, ?_, ?_, ?_⟩
      · rw [insertIdx_eq (by omega)]
        simp only [ne_eq, List.append_eq_nil_iff, reduceCtorEq, and_false, not_false_eq_true]
      · rw [← List.length_pos_iff]
        omega
      · rw [insertIdx_eq (by omega), insertIdx_eq hposit, List.take_take, List.append_assoc,
          List.cons_append, Nat.min_eq_left (Nat.le_of_lt hlower)]
        congr 2
        conv => rhs; rw [← List.take_append_drop (isleave items.length posit) items]
        rw [List.drop_append_of_le_length (by omega)]
  | inr hupper =>
      refine ⟨_, _, divide_upper hupper, ?_, ?_, ?_⟩
      · rw [← List.length_pos_iff]
        omega
      · rw [insertIdx_eq (by omega)]
        simp only [ne_eq, List.append_eq_nil_iff, reduceCtorEq, and_false, not_false_eq_true]
      · have hparts : items.take posit = items.take (isleave items.length posit) ++
            (items.drop (isleave items.length posit)).take
              (posit - isleave items.length posit) := by
          rw [← List.take_add, Nat.add_sub_cancel' hupper]
        rw [insertIdx_eq (by omega), insertIdx_eq hposit, List.drop_drop,
          Nat.add_sub_cancel' hupper, hparts, List.append_assoc]

end Lists

variable {α β : Type} [LinearOrder β]
  {index : IndexDescr α} {circumstances : Circumstances} {key : Key α β}
  {pages next : Pages α β} {h n : Nat} {low high : Option (Key α β)} {owned : List Nat}
  {held : List (Key α β)}

/-! The place of a key among others. -/

theorem sorted_insertIdx {keys : List (Key α β)} {posit : Nat} (hsorted : Sorted index keys)
    (hposit : posit ≤ keys.length)
    (hbefore : ∀ other ∈ keys.take posit, keyOrder index other key = .lt)
    (hafter : ∀ other ∈ keys.drop posit, keyOrder index key other = .lt) :
    Sorted index (keys.insertIdx posit key) := by
  rw [insertIdx_eq hposit]
  refine List.pairwise_append.mpr ⟨hsorted.take, List.pairwise_cons.mpr ⟨hafter, hsorted.drop⟩, ?_⟩
  intro key1 hkey1 key2 hkey2
  cases List.mem_cons.mp hkey2 with
  | inl heq => exact heq ▸ hbefore key1 hkey1
  | inr hrest =>
      exact Std.TransCmp.lt_trans (hbefore key1 hkey1) (hafter key2 hrest)

/-- A key that is not found stands apart from its neighbours. -/
theorem nodeSeek_apart {keys : List (Key α β)} {posit : Nat} {res : Bool × Ordering}
    (hsorted : Sorted index keys) (hseek : nodeSeek index key (.leaf keys) = (res, posit))
    (hnew : res ≠ (true, .eq))
    (hdistinct : index.distinct = true → (cmpAt index key keys posit).1 = false) :
    posit ≤ keys.length ∧ (∀ other ∈ keys.take posit, keyOrder index other key = .lt) ∧
      ∀ other ∈ keys.drop posit, keyOrder index key other = .lt := by
  have hsought := @nodeSeek_spec _ _ _ index key (.leaf keys) hsorted
  rw [hseek] at hsought
  have hbound : posit ≤ keys.length := hsought.bound
  refine ⟨hbound, ?_, ?_⟩
  · intro other hother
    obtain ⟨i, hi, rfl⟩ := List.mem_iff_getElem.mp hother
    rw [List.length_take] at hi
    have hpassed := hsought.passed i (show i < posit by omega)
    rw [Node.keys, cmpAt_getElem (show i < keys.length by omega)] at hpassed
    rw [List.getElem_take]
    exact Std.OrientedCmp.lt_of_gt hpassed
  · intro other hother
    obtain ⟨i, hi, rfl⟩ := List.mem_iff_getElem.mp hother
    rw [List.length_drop] at hi
    have hlt : posit < keys.length := by omega
    obtain ⟨hres, hstop⟩ := hsought.stopped hlt
    change res = cmpAt index key keys posit at hres
    change seekOrder index.distinct (cmpAt index key keys posit) ≠ .gt at hstop
    -- the key at the position is behind the new one
    have hfirst : keyOrder index key keys[posit] = .lt := by
      rw [cmpAt_getElem hlt] at hstop
      cases horder : keyOrder index key keys[posit] with
      | lt => rfl
      | gt => exact absurd horder hstop
      | eq =>
          exfalso
          rw [← cmpAt_getElem hlt, seekOrder] at horder
          split at horder
          case isTrue hboth =>
            rw [Bool.and_eq_true] at hboth
            rw [hdistinct hboth.2] at hboth
            exact Bool.false_ne_true hboth.1
          case isFalse hnot =>
            rw [← hres] at horder hnot hdistinct
            obtain ⟨same, order⟩ := res
            change order = .eq at horder
            subst horder
            cases same with
            | true => exact hnew rfl
            | false =>
                rw [cmpAt, List.getElem?_eq_getElem hlt] at hres
                simp only [cmpKeys] at hres
                cases hvalues : index.cmpValues key.value keys[posit].value <;>
                  simp only [hvalues, Prod.mk.injEq, reduceCtorEq, and_false, false_and] at hres
    rw [List.getElem_drop]
    cases i with
    | zero => exact hfirst
    | succ i =>
        have hlater := hsorted.lt (show posit < posit + (i + 1) by omega) (by omega)
        exact Std.TransCmp.lt_trans hfirst hlater

/-! A step of the insertion. -/

/-- Every allocation succeeds, and gives pages that are not in the tree. -/
structure Circumstances.Grants (circumstances : Circumstances) (owned : List Nat) : Prop where
  allocated : ∀ i, circumstances.allocated i ≠ 0 ∧ circumstances.fixesNew i = true
  fresh : ∀ i, circumstances.allocated i ∉ owned
  grown : ∀ i, circumstances.rootAllocated i ≠ 0 → circumstances.rootAllocated i ∉ owned
  items : ∀ i j, circumstances.allocated i = circumstances.allocated j → i = j
  apart : ∀ i j, circumstances.allocated i ≠ circumstances.rootAllocated j

/-- The pages for the divisions below a level. -/
def Circumstances.taken (circumstances : Circumstances) (level : Nat) : List Nat :=
  (List.range level).map circumstances.allocated

theorem Circumstances.mem_taken {level m : Nat} :
    m ∈ circumstances.taken level ↔ ∃ i < level, circumstances.allocated i = m := by
  simp only [taken, List.mem_map, List.mem_range]

theorem Circumstances.Grants.nodup (hgrants : circumstances.Grants owned) (hnodup : owned.Nodup)
    (level : Nat) : (circumstances.taken level ++ owned).Nodup := by
  refine List.nodup_append.mpr ⟨?_, hnodup, ?_⟩
  · exact List.Nodup.map_on (fun i _ j _ heq => hgrants.items i j heq) List.nodup_range
  · rintro m hm other hother rfl
    obtain ⟨i, -, rfl⟩ := mem_taken.mp hm
    exact hgrants.fresh i hother

/-- The tree has taken the key. -/
def Kept (index : IndexDescr α) (circumstances : Circumstances) (pages : Pages α β)
    (key : Key α β) (h n : Nat) (low high : Option (Key α β)) (owned : List Nat)
    (held : List (Key α β)) (after : Pages α β) : Prop :=
  ∃ level owned' held', level ≤ h ∧ Stored index after h n low high owned' held' ∧
    owned'.Perm (circumstances.taken level ++ owned) ∧ held'.Perm (key :: held) ∧
    ∀ m, m ∉ owned' → after m = pages m

/-- The tree has been divided into two, with a separator between them. -/
def Divides (index : IndexDescr α) (circumstances : Circumstances) (pages : Pages α β)
    (key : Key α β) (h n : Nat) (low high : Option (Key α β)) (owned : List Nat)
    (held : List (Key α β)) (sep : Key α β) (after : Pages α β) : Prop :=
  ∃ ownedL ownedR heldL heldR,
    Holding (Stored index after h) n low (some sep) ownedL heldL ∧
    Holding (Stored index after h) (circumstances.allocated h) (some sep) high ownedR heldR ∧
    (ownedL ++ ownedR).Perm (circumstances.taken (h + 1) ++ owned) ∧
    (heldL ++ heldR).Perm (key :: held) ∧ ∀ m, m ∉ ownedL ++ ownedR → after m = pages m

theorem Node.room_of_not_full {keysize : Nat} {node : Node α β}
    (hroom : node.full keysize = false) :
    node.dtsize keysize + node.step keysize ≤ IBLOCKSIZE - IHDRSIZE :=
  Nat.le_of_not_lt (of_decide_eq_false hroom)

/-- A leaf with room, or divided. -/
theorem leaf_placed (hleaf : StoredLeaf index pages n low high owned held) {posit : Nat}
    (hroom : (Node.leaf held : Node α β).full index.keysize = false)
    (hwithin : Within (keyOrder index) low high key) (hposit : posit ≤ held.length)
    (hsorted : Sorted index (held.insertIdx posit key)) :
    Kept index circumstances pages key 0 n low high owned held
      (Function.update pages n (some ((Node.leaf held).placed posit (key, 0)))) := by
  refine ⟨0, owned, held.insertIdx posit key, Nat.le_refl 0, ?_, List.Perm.refl _, ?_, ?_⟩
  · refine ⟨Function.update_self .., hleaf.owns, ?_, hsorted, ?_⟩
    · have hsize := Node.room_of_not_full hroom
      rw [Node.dtsize, List.length_insertIdx_of_le_length hposit, Nat.mul_succ]
      exact hsize
    · intro other hother
      cases (List.mem_insertIdx hposit).mp hother with
      | inl heq => exact heq ▸ hwithin
      | inr hold => exact hleaf.within other hold
  · exact List.perm_insertIdx key held hposit
  · intro m hm
    rw [hleaf.owns, List.mem_singleton] at hm
    exact Function.update_of_ne hm ..

theorem exists_last {γ : Type} {items : List γ} (hne : items ≠ []) (default : γ) :
    ∃ init, items = init ++ [items.getLastD default] := by
  refine ⟨items.dropLast, ?_⟩
  rw [List.getLastD_eq_getLast?, List.getLast?_eq_some_getLast hne, Option.getD_some]
  exact (List.dropLast_append_getLast hne).symm

theorem leaf_divided (hleaf : StoredLeaf index pages n low high owned held) {posit : Nat}
    (hgrants : circumstances.Grants owned) (hwithin : Within (keyOrder index) low high key)
    (hposit : posit ≤ held.length) (hcount : 2 ≤ held.length)
    (hsorted : Sorted index (held.insertIdx posit key)) :
    Divides index circumstances pages key 0 n low high owned held
      ((Node.leaf held).divided posit (key, 0)).2.2
      (Function.update (Function.update pages (circumstances.allocated 0)
        (some ((Node.leaf held).divided posit (key, 0)).2.1)) n
        (some ((Node.leaf held).divided posit (key, 0)).1)) := by
  obtain ⟨left, right, hdivide, hleft, hright, hparts⟩ :=
    @divide_append _ held key posit hcount hposit
  have hdivided : (Node.leaf held).divided posit (key, 0) =
      (.leaf left, .leaf right, left.getLastD key) := by
    simp only [Node.divided, hdivide]
  obtain ⟨init, hinit⟩ := exists_last hleft key
  rw [hdivided]
  generalize left.getLastD key = sep at hinit ⊢
  subst hinit
  rw [← hparts] at hsorted
  obtain ⟨hsortedL, hsortedR, hacross⟩ := List.pairwise_append.mp hsorted
  obtain ⟨-, -, hlast⟩ := List.pairwise_append.mp hsortedL
  have hall : ∀ other ∈ init ++ [sep] ++ right, Within (keyOrder index) low high other := by
    intro other hother
    rw [hparts] at hother
    cases (List.mem_insertIdx hposit).mp hother with
    | inl heq => exact heq ▸ hwithin
    | inr hold => exact hleaf.within other hold
  have hsep : sep ∈ init ++ [sep] := List.mem_append_right _ List.mem_cons_self
  have hnew : circumstances.allocated 0 ≠ n := by
    have hfresh := hgrants.fresh 0
    rw [hleaf.owns, List.mem_singleton] at hfresh
    exact hfresh
  have hlength : (init ++ [sep]).length + right.length = held.length + 1 := by
    rw [← List.length_append, hparts, List.length_insertIdx_of_le_length hposit]
  have hlengthL := List.length_pos_of_ne_nil hleft
  have hlengthR := List.length_pos_of_ne_nil hright
  refine ⟨[n], [circumstances.allocated 0], init ++ [sep], right, ⟨?_, hleft⟩, ⟨?_, hright⟩,
    ?_, ?_, ?_⟩
  · refine ⟨Function.update_self .., rfl, ?_, hsortedL, ?_⟩
    · exact Nat.le_trans (Nat.mul_le_mul_left _ (by omega)) hleaf.fits
    · intro other hother
      refine ⟨(hall other (List.mem_append_left _ hother)).above, fun upper hupper => ?_⟩
      cases hupper
      cases List.mem_append.mp hother with
      | inl hbefore => exact Ordering.isLE_of_eq_lt (hlast other hbefore sep List.mem_cons_self)
      | inr hsame =>
          rw [List.mem_singleton.mp hsame]
          exact Std.ReflCmp.isLE_rfl
  · refine ⟨?_, rfl, ?_, hsortedR, ?_⟩
    · rw [Function.update_of_ne hnew, Function.update_self]
    · exact Nat.le_trans (Nat.mul_le_mul_left _ (by omega)) hleaf.fits
    · intro other hother
      refine ⟨fun lower hlower => ?_, (hall other (List.mem_append_right _ hother)).below⟩
      cases hlower
      exact hacross sep hsep other hother
  · rw [hleaf.owns]
    exact List.perm_append_comm
  · rw [hparts]
    exact List.perm_insertIdx key held hposit
  · intro m hm
    simp only [List.mem_append, List.mem_singleton, not_or] at hm
    rw [Function.update_of_ne hm.1, Function.update_of_ne hm.2]

/-! The steps in an inner node. -/

theorem perm_around {γ : Type} (front back : List γ) {part part' added : List γ}
    (hperm : part'.Perm (added ++ part)) :
    (front ++ (part' ++ back)).Perm (added ++ (front ++ (part ++ back))) := by
  refine ((hperm.append_right back).append_left front).trans ?_
  rw [List.append_assoc]
  exact List.perm_append_comm_assoc front added (part ++ back)

/-- An inner node seen from one of its branches. -/
structure Focus (index : IndexDescr α) (pages : Pages α β) (h n : Nat)
    (low high : Option (Key α β)) (owned : List Nat) (held : List (Key α β)) where
  front : Front (Key α β) Nat
  child : Nat
  rest : List (Key α β × Nat)
  lower : Option (Key α β)
  upper : Option (Key α β)
  owned1 : List Nat
  part : List Nat
  owned2 : List Nat
  held1 : List (Key α β)
  keys : List (Key α β)
  held2 : List (Key α β)
  page : pages n = some (.inner (plug front child rest).1 (plug front child rest).2)
  owns : owned = n :: (owned1 ++ (part ++ owned2))
  holds : held = held1 ++ (keys ++ held2)
  fits : (Node.inner (plug front child rest).1 (plug front child rest).2 : Node α β).dtsize
    index.keysize ≤ IBLOCKSIZE - IHDRSIZE
  before : Before (Holding (Stored index pages h)) low front lower owned1 held1
  stored : Holding (Stored index pages h) child lower upper part keys
  behind : Behind (Holding (Stored index pages h)) high rest upper owned2 held2
  nodup : owned.Nodup

/-- The branch of an inner node has been divided. -/
structure Taking (index : IndexDescr α) (circumstances : Circumstances) (pages : Pages α β)
    (key : Key α β) (h n : Nat) (low high : Option (Key α β)) (owned : List Nat)
    (held : List (Key α β)) (first : Nat) (entries : List (Key α β × Nat)) (after : Pages α β)
    (below : List Nat) (keys : List (Key α β)) : Prop where
  fenced : Fenced (Holding (Stored index after h)) first entries low high below keys
  owned_perm : (n :: below).Perm (circumstances.taken (h + 1) ++ owned)
  held_perm : keys.Perm (key :: held)
  frame : ∀ m, m ∉ below → after m = pages m

namespace Focus

variable (focus : Focus index pages h n low high owned held) {after : Pages α β}

theorem position_le :
    focus.front.position ≤ (plug focus.front focus.child focus.rest).2.length := by
  rw [plug_length]
  exact Nat.le_add_right _ _

theorem part_subset {m : Nat} (hm : m ∈ focus.part) : m ∈ owned := by
  rw [focus.owns]
  exact List.mem_cons_of_mem _ (List.mem_append_right _ (List.mem_append_left _ hm))

theorem part_nodup : focus.part.Nodup := by
  have hnodup := focus.nodup
  rw [focus.owns] at hnodup
  exact (List.nodup_append.mp (List.nodup_append.mp (List.nodup_cons.mp hnodup).2).2.1).1

theorem mem_others {m : Nat} (hm : m = n ∨ m ∈ focus.owned1 ∨ m ∈ focus.owned2) :
    m ∈ owned ∧ m ∉ focus.part := by
  have howned : ∀ m, m ∈ owned ↔ m = n ∨ m ∈ focus.owned1 ∨ m ∈ focus.part ∨ m ∈ focus.owned2 := by
    intro m
    have howns := focus.owns
    generalize focus.owned1 = owned1, focus.part = part, focus.owned2 = owned2 at howns ⊢
    rw [howns, List.mem_cons, List.mem_append, List.mem_append]
  have hnodup := focus.nodup
  rw [focus.owns, List.nodup_cons, List.nodup_append, List.nodup_append] at hnodup
  obtain ⟨hn, -, ⟨-, -, hback⟩, hfirst⟩ := hnodup
  rcases hm with rfl | hfront | hlast
  · refine ⟨(howned m).mpr (Or.inl rfl), fun hpart => hn ?_⟩
    exact List.mem_append_right _ (List.mem_append_left _ hpart)
  · refine ⟨(howned m).mpr (Or.inr (Or.inl hfront)), fun hpart => ?_⟩
    exact hfirst m hfront m (List.mem_append_left _ hpart) rfl
  · refine ⟨(howned m).mpr (Or.inr (Or.inr (Or.inr hlast))), fun hpart => ?_⟩
    exact hback m hpart m hlast rfl

theorem outside {part' : List Nat} {level m : Nat} (hgrants : circumstances.Grants owned)
    (hperm : part'.Perm (circumstances.taken level ++ focus.part))
    (hm : m = n ∨ m ∈ focus.owned1 ∨ m ∈ focus.owned2) : m ∉ part' := by
  intro hin
  obtain ⟨howned, hpart⟩ := focus.mem_others hm
  cases List.mem_append.mp (hperm.mem_iff.mp hin) with
  | inl htaken =>
      obtain ⟨i, -, rfl⟩ := Circumstances.mem_taken.mp htaken
      exact hgrants.fresh i howned
  | inr hin => exact hpart hin

/-- The other branches stay. -/
theorem before_after (hframe : ∀ m ∈ focus.owned1, after m = pages m) :
    Before (Holding (Stored index after h)) low focus.front focus.lower focus.owned1 focus.held1 :=
  focus.before.mono fun _ _ _ _ _ hpart hchild =>
    ⟨hchild.1.frame fun m hm => hframe m (hpart m hm), hchild.2⟩

theorem behind_after (hframe : ∀ m ∈ focus.owned2, after m = pages m) :
    Behind (Holding (Stored index after h)) high focus.rest focus.upper focus.owned2 focus.held2 :=
  focus.behind.mono fun _ _ _ _ _ hpart hchild =>
    ⟨hchild.1.frame fun m hm => hframe m (hpart m hm), hchild.2⟩

theorem kept (hgrants : circumstances.Grants owned)
    (hkept : Kept index circumstances pages key h focus.child focus.lower focus.upper focus.part
      focus.keys after) :
    Kept index circumstances pages key (h + 1) n low high owned held after := by
  obtain ⟨level, part', keys', hlevel, hstored, hperm, hheld, hframe⟩ := hkept
  have hothers : ∀ m, m = n ∨ m ∈ focus.owned1 ∨ m ∈ focus.owned2 → after m = pages m :=
    fun m hm => hframe m (focus.outside hgrants hperm hm)
  have hne : keys' ≠ [] :=
    fun hnil => List.not_mem_nil (hnil ▸ hheld.mem_iff.mpr List.mem_cons_self)
  refine ⟨level, n :: (focus.owned1 ++ (part' ++ focus.owned2)),
    focus.held1 ++ (keys' ++ focus.held2), Nat.le_succ_of_le hlevel, ?_, ?_, ?_, ?_⟩
  · refine ⟨_, _, _, (hothers n (Or.inl rfl)).trans focus.page, rfl, focus.fits, ?_⟩
    have hbehind := focus.behind_after fun m hm => hothers m (Or.inr (Or.inr hm))
    exact (hbehind.fenced ⟨hstored, hne⟩).plug
      (focus.before_after fun m hm => hothers m (Or.inr (Or.inl hm)))
  · have hwhole := perm_around (n :: focus.owned1) focus.owned2 hperm
    rw [List.cons_append, List.cons_append, ← focus.owns] at hwhole
    exact hwhole
  · have hadded : keys'.Perm ([key] ++ focus.keys) := hheld
    have hwhole := perm_around focus.held1 focus.held2 hadded
    rw [← focus.holds] at hwhole
    exact hwhole
  · intro m hm
    refine hframe m fun hpart => hm ?_
    exact List.mem_cons_of_mem n (List.mem_append_right _ (List.mem_append_left _ hpart))

theorem taking (hgrants : circumstances.Grants owned) {sep : Key α β}
    (hdivides : Divides index circumstances pages key h focus.child focus.lower focus.upper
      focus.part focus.keys sep after) :
    ∃ below keys, Taking index circumstances pages key h n low high owned held
      (plug focus.front focus.child focus.rest).1
      ((plug focus.front focus.child focus.rest).2.insertIdx focus.front.position
        (sep, circumstances.allocated h)) after below keys := by
  obtain ⟨ownedL, ownedR, heldL, heldR, hleft, hright, hperm, hheld, hframe⟩ := hdivides
  have hothers : ∀ m, m = n ∨ m ∈ focus.owned1 ∨ m ∈ focus.owned2 → after m = pages m :=
    fun m hm => hframe m (focus.outside hgrants hperm hm)
  refine ⟨focus.owned1 ++ (ownedL ++ ownedR ++ focus.owned2),
    focus.held1 ++ (heldL ++ heldR ++ focus.held2), ?_, ?_, ?_, ?_⟩
  · rw [plug_insertIdx, plug_fst focus.front focus.child focus.rest
      ((sep, circumstances.allocated h) :: focus.rest), List.append_assoc, List.append_assoc]
    have hbehind := focus.behind_after fun m hm => hothers m (Or.inr (Or.inr hm))
    exact (Fenced.cons hleft (hbehind.fenced hright)).plug
      (focus.before_after fun m hm => hothers m (Or.inr (Or.inl hm)))
  · have hwhole := perm_around (n :: focus.owned1) focus.owned2 hperm
    rw [List.cons_append, List.cons_append, ← focus.owns] at hwhole
    exact hwhole
  · have hadded : (heldL ++ heldR).Perm ([key] ++ focus.keys) := hheld
    have hwhole := perm_around focus.held1 focus.held2 hadded
    rw [← focus.holds] at hwhole
    exact hwhole
  · intro m hm
    refine hframe m fun hpart => hm ?_
    exact List.mem_append_right _ (List.mem_append_left _ hpart)

end Focus

namespace Taking

variable {first posit : Nat} {entries : List (Key α β × Nat)} {item : Key α β × Nat}
  {after : Pages α β} {below : List Nat} {keys : List (Key α β)}

/-- There is room for the separator. -/
theorem placed (htaking : Taking index circumstances pages key h n low high owned held first
      (entries.insertIdx posit item) after below keys)
    (hgrants : circumstances.Grants owned) (hnodup : owned.Nodup)
    (hposit : posit ≤ entries.length)
    (hroom : (Node.inner first entries : Node α β).full index.keysize = false) :
    Kept index circumstances pages key (h + 1) n low high owned held
      (Function.update after n (some ((Node.inner first entries).placed posit item))) := by
  have hn := (List.nodup_cons.mp (htaking.owned_perm.nodup_iff.mpr
    (hgrants.nodup hnodup (h + 1)))).1
  refine ⟨h + 1, n :: below, keys, Nat.le_refl _, ?_, htaking.owned_perm, htaking.held_perm, ?_⟩
  · refine ⟨first, entries.insertIdx posit item, below, Function.update_self .., rfl,
      ?_, htaking.fenced.mono ?_⟩
    · have hsize := Node.room_of_not_full hroom
      rw [Node.dtsize, List.length_insertIdx_of_le_length hposit, Nat.mul_succ, ← Nat.add_assoc]
      exact hsize
    · rintro child low high part held hpart ⟨hchild, hne⟩
      refine ⟨hchild.frame fun m hm => Function.update_of_ne ?_ .., hne⟩
      rintro rfl
      exact hn (hpart m hm)
  · intro m hm
    rw [List.mem_cons, not_or] at hm
    rw [Function.update_of_ne hm.1, htaking.frame m hm.2]

/-- The node is divided. The last entry of its first part goes up. -/
theorem divided (htaking : Taking index circumstances pages key h n low high owned held first
      (entries.insertIdx posit item) after below keys)
    (hgrants : circumstances.Grants owned) (hnodup : owned.Nodup)
    (hposit : posit ≤ entries.length) (hcount : 2 ≤ entries.length)
    (hfits : (Node.inner first entries : Node α β).dtsize index.keysize ≤ IBLOCKSIZE - IHDRSIZE) :
    Divides index circumstances pages key (h + 1) n low high owned held
      ((Node.inner first entries).divided posit item).2.2
      (Function.update (Function.update after (circumstances.allocated (h + 1))
        (some ((Node.inner first entries).divided posit item).2.1)) n
        (some ((Node.inner first entries).divided posit item).1)) := by
  obtain ⟨left, right, hdivide, hleft, hright, hparts⟩ :=
    @divide_append _ entries item posit hcount hposit
  have hdivided : (Node.inner first entries).divided posit item =
      (.inner first left.dropLast, .inner (left.getLastD item).2 right,
        (left.getLastD item).1) := by
    simp only [Node.divided, hdivide]
  obtain ⟨init, hinit⟩ := exists_last hleft item
  rw [hdivided]
  generalize left.getLastD item = last at hinit ⊢
  obtain ⟨sep, next⟩ := last
  subst hinit
  have hfenced := htaking.fenced
  rw [← hparts, List.append_assoc, List.singleton_append] at hfenced
  obtain ⟨ownedL, ownedR, heldL, heldR, rfl, rfl, hfirst, hsecond⟩ := hfenced.split
  have hall := hgrants.nodup hnodup (h + 1 + 1)
  have htaken : (circumstances.taken (h + 1 + 1) ++ owned).Perm
      (circumstances.allocated (h + 1) :: n :: (ownedL ++ ownedR)) := by
    rw [Circumstances.taken, List.range_succ, List.map_append, List.map_singleton,
      List.append_assoc]
    refine List.Perm.trans List.perm_middle (List.Perm.cons _ ?_)
    exact htaking.owned_perm.symm
  obtain ⟨hnew, hrest⟩ := List.nodup_cons.mp (htaken.nodup_iff.mp hall)
  obtain ⟨hn, -⟩ := List.nodup_cons.mp hrest
  rw [List.mem_cons, not_or] at hnew
  rw [List.dropLast_concat]
  have hkeep : ∀ m ∈ ownedL ++ ownedR, (Function.update (Function.update after
      (circumstances.allocated (h + 1)) (some (.inner next right))) n
      (some (.inner first init))) m = after m := by
    intro m hm
    rw [Function.update_of_ne, Function.update_of_ne]
    · rintro rfl
      exact hnew.2 hm
    · rintro rfl
      exact hn hm
  have hlength : init.length + 1 + right.length = entries.length + 1 := by
    have hboth := congrArg List.length hparts
    rw [List.length_append, List.length_append, List.length_singleton,
      List.length_insertIdx_of_le_length hposit] at hboth
    exact hboth
  have hlengthR := List.length_pos_of_ne_nil hright
  refine ⟨n :: ownedL, circumstances.allocated (h + 1) :: ownedR, heldL, heldR,
    ⟨?_, hfirst.holds⟩, ⟨?_, hsecond.holds⟩, ?_, htaking.held_perm, ?_⟩
  · refine ⟨first, init, ownedL, Function.update_self .., rfl, ?_, hfirst.mono ?_⟩
    · exact Nat.le_trans (Nat.add_le_add_left (Nat.mul_le_mul_left _ (by omega)) _) hfits
    · rintro child low high part held hpart ⟨hchild, hne⟩
      exact ⟨hchild.frame fun m hm => hkeep m (List.mem_append_left _ (hpart m hm)), hne⟩
  · refine ⟨next, right, ownedR, ?_, rfl, ?_, hsecond.mono ?_⟩
    · rw [Function.update_of_ne hnew.1, Function.update_self]
    · exact Nat.le_trans (Nat.add_le_add_left (Nat.mul_le_mul_left _ (by omega)) _) hfits
    · rintro child low high part held hpart ⟨hchild, hne⟩
      exact ⟨hchild.frame fun m hm => hkeep m (List.mem_append_right _ (hpart m hm)), hne⟩
  · refine List.Perm.trans ?_ htaken.symm
    exact @List.perm_middle _ _ (n :: ownedL) ownedR
  · intro m hm
    rw [List.cons_append, List.mem_cons, List.mem_append, List.mem_cons] at hm
    push Not at hm
    rw [Function.update_of_ne hm.1, Function.update_of_ne hm.2.2.1]
    refine htaking.frame m fun hin => ?_
    exact (List.mem_append.mp hin).elim hm.2.1 hm.2.2.2

end Taking

end Sql602.Btree
