import Sql602.Btree.Growing
import Sql602.Btree.Removal

namespace Sql602.Btree

open Fences

/-! What a removal makes of the pages and the keys of a tree. -/

variable {α β : Type} [LinearOrder β]
  {index : IndexDescr α} {circumstances : RemoveCircumstances}
  {pages mid after : Pages α β} {h n : Nat} {low high : Option (Key α β)} {owned freed : List Nat}
  {held remaining : List (Key α β)} {node : Node α β} {rest : Option (Node α β)}

/-! The joining of brothers. -/

section Join

variable {l r k child : Nat} {lower upper : Option (Key α β)} {fence : Key α β}
  {tailL tailR : List Nat} {keysL keysR : List (Key α β)}

omit [LinearOrder β] in
theorem joinedNode_cases {keysize : Nat} {left right : Node α β} {sep : Key α β × Nat}
    (hjoin : joinedNode keysize (some left) (some right) (some sep) = some node) :
    left.dtsize keysize + right.dtsize keysize + 2 * keysize + 4 ≤ IBLOCKSIZE - IHDRSIZE ∧
      ((∃ keys others, left = .leaf keys ∧ right = .leaf others ∧ node = .leaf (keys ++ others)) ∨
        ∃ first entries other others, left = .inner first entries ∧ right = .inner other others ∧
          node = .inner first (entries ++ (sep.1, other) :: others)) := by
  cases left with
  | leaf keys =>
      cases right with
      | leaf others =>
          simp only [joinedNode, Option.ite_none_right_eq_some] at hjoin
          obtain ⟨hfits, hjoin⟩ := hjoin
          cases hjoin
          exact ⟨hfits, Or.inl ⟨keys, others, rfl, rfl, rfl⟩⟩
      | inner other others =>
          simp only [joinedNode, ite_self, reduceCtorEq] at hjoin
  | inner first entries =>
      cases right with
      | leaf others =>
          simp only [joinedNode, ite_self, reduceCtorEq] at hjoin
      | inner other others =>
          simp only [joinedNode, Option.ite_none_right_eq_some] at hjoin
          obtain ⟨hfits, hjoin⟩ := hjoin
          cases hjoin
          exact ⟨hfits, Or.inr ⟨first, entries, other, others, rfl, rfl, rfl⟩⟩

theorem sorted_append (hleft : Sorted index keysL) (hright : Sorted index keysR)
    (hwithinL : ∀ key ∈ keysL, Within (keyOrder index) lower (some fence) key)
    (hwithinR : ∀ key ∈ keysR, Within (keyOrder index) (some fence) upper key) :
    Sorted index (keysL ++ keysR) :=
  List.pairwise_append.mpr ⟨hleft, hright, fun key1 hkey1 key2 hkey2 =>
    Std.TransCmp.lt_of_isLE_of_lt (hwithinL key1 hkey1).ahead (hwithinR key2 hkey2).behind⟩

/-- One of the pages gets the keys of both brothers. -/
theorem Stored.join (hleft : Stored index pages h l lower (some fence) (l :: tailL) keysL)
    (hright : Stored index pages h r (some fence) upper (r :: tailR) keysR)
    (hjoin : joinedNode index.keysize (pages l) (pages r) (some (fence, child)) = some node)
    (hpage : after k = some node) (hsame : ∀ m ∈ tailL ++ tailR, after m = pages m)
    (hlow : Below (keyOrder index) lower (some fence))
    (hhigh : Below (keyOrder index) (some fence) upper) :
    Stored index after h k lower upper (k :: (tailL ++ tailR)) (keysL ++ keysR) := by
  cases h with
  | zero =>
      obtain ⟨pageL, ownsL, -, sortedL, withinL⟩ := hleft
      obtain ⟨pageR, ownsR, -, sortedR, withinR⟩ := hright
      obtain rfl := (List.cons.inj ownsL).2
      obtain rfl := (List.cons.inj ownsR).2
      rw [pageL, pageR] at hjoin
      obtain ⟨hfits, ⟨keys, others, hkeys, hothers, rfl⟩ | ⟨_, _, _, _, hinner, -⟩⟩ :=
        joinedNode_cases hjoin
      · cases hkeys
        cases hothers
        refine ⟨hpage, rfl, ?_, sorted_append sortedL sortedR withinL withinR, ?_⟩
        · simp only [Node.dtsize, List.length_append, Nat.mul_add] at hfits ⊢
          omega
        · intro key hkey
          cases List.mem_append.mp hkey with
          | inl hmem => exact (withinL key hmem).widen (fun _ habove => habove) (Under.widen hhigh)
          | inr hmem => exact (withinR key hmem).widen (Above.widen hlow) (fun _ hunder => hunder)
      · cases hinner
  | succ h =>
      obtain ⟨first, entries, below, pageL, ownsL, -, fencedL⟩ := hleft
      obtain ⟨first', entries', below', pageR, ownsR, -, fencedR⟩ := hright
      obtain rfl := (List.cons.inj ownsL).2
      obtain rfl := (List.cons.inj ownsR).2
      rw [pageL, pageR] at hjoin
      obtain ⟨hfits, ⟨_, _, hleaf, -⟩ | ⟨_, _, _, _, hinner, hinner', rfl⟩⟩ :=
        joinedNode_cases hjoin
      · cases hleaf
      · cases hinner
        cases hinner'
        refine ⟨_, _, _, hpage, rfl, ?_, (fencedL.append fencedR).mono ?_⟩
        · simp only [Node.dtsize, List.length_append, List.length_cons, Nat.mul_add,
            Nat.mul_one] at hfits ⊢
          omega
        · rintro child low high part keys hpart ⟨hchild, hne⟩
          exact ⟨hchild.frame fun m hm => hsame m (hpart m hm), hne⟩

end Join

/-! The item of a branch in the node above it. -/

section Branch

variable {keysize : Nat} (front : Front (Key α β) Nat) (child : Nat)
  (others : List (Key α β × Nat))

omit [LinearOrder β] in
theorem withoutPointer_after (before rest : List (Key α β × Nat)) (fence sep : Key α β)
    (child next : Nat) :
    withoutPointer (before ++ (fence, child) :: (sep, next) :: rest) before.length =
      before ++ (fence, next) :: rest := by
  induction before with
  | nil => rfl
  | cons entry before ih =>
      rw [List.cons_append, List.length_cons]
      cases before with
      | nil => exact congrArg (entry :: ·) ih
      | cons next before => exact congrArg (entry :: ·) ih

omit [LinearOrder β] in
/-- The branch goes with the key behind it. -/
theorem removed_behind (sep : Key α β) (next : Nat) :
    (Node.inner (plug front child ((sep, next) :: others)).1
        (plug front child ((sep, next) :: others)).2 : Node α β).removed false front.position =
      some (.inner (plug front next others).1 (plug front next others).2) := by
  cases front with
  | none => rfl
  | some parts =>
      obtain ⟨first, before, fence⟩ := parts
      have hwithout := withoutPointer_after before others fence sep child next
      have hlength : (before ++ (fence, child) :: (sep, next) :: others).length =
          before.length + 2 + others.length := by
        rw [List.length_append, List.length_cons, List.length_cons]
        omega
      simp only [plug, Front.position]
      generalize before ++ (fence, child) :: (sep, next) :: others = entries at hwithout hlength
      cases entries with
      | nil =>
          rw [List.length_nil] at hlength
          omega
      | cons entry entries =>
          rw [List.length_cons] at hlength
          rw [Node.removed, if_neg (by simp; omega)]
          simp only [hwithout]

omit [LinearOrder β] in
/-- The branch goes with the key before it. -/
theorem removed_before (toLeft : Bool) (first : Nat) (before : List (Key α β × Nat))
    (fence : Key α β) (hleft : toLeft = true ∨ others = []) :
    (Node.inner first (before ++ (fence, child) :: others) : Node α β).removed toLeft
        (before.length + 1) =
      some (.inner first (before ++ others)) := by
  have herase : (before ++ (fence, child) :: others).eraseIdx before.length = before ++ others := by
    rw [List.eraseIdx_append_of_length_le (Nat.le_refl _), Nat.sub_self]
    rfl
  have hlength : (before ++ (fence, child) :: others).length =
      before.length + 1 + others.length := by
    rw [List.length_append, List.length_cons]
    omega
  generalize before ++ (fence, child) :: others = entries at herase hlength
  cases entries with
  | nil =>
      rw [List.length_nil] at hlength
      omega
  | cons entry entries =>
      rw [List.length_cons] at hlength
      rw [Node.removed, if_pos, Nat.succ_sub_one, herase]
      refine hleft.imp_right ?_
      rintro rfl
      rw [List.length_nil] at hlength
      omega

end Branch

/-! A node that an item has been removed from. -/

/-- The rest of a node that is not yet in its page. -/
inductive Shrunk (index : IndexDescr α) (pages : Pages α β) (h n : Nat)
    (low high : Option (Key α β)) (owned : List Nat) (remaining : List (Key α β)) :
    Pages α β → Option (Node α β) → List Nat → Prop
  | empty {mid : Pages α β} {freed : List Nat} (frame : ∀ m, m ∉ owned → mid m = pages m)
      (owned_perm : owned.Perm (n :: freed)) (none_left : remaining = []) :
      Shrunk index pages h n low high owned remaining mid
        (if h = 0 then some (.leaf []) else none) freed
  | tree {mid : Pages α β} {node : Node α β} {owned' freed : List Nat}
      (frame : ∀ m, m ∉ owned → mid m = pages m)
      (stored : Holding (Stored index (Function.update mid n (some node)) h) n low high owned'
        remaining)
      (owned_perm : owned.Perm (owned' ++ freed)) :
      Shrunk index pages h n low high owned remaining mid (some node) freed

theorem Stored.restSize_pos (hstored : Holding (Stored index pages h) n low high owned held)
    (hpage : pages n = some node) : Node.restSize index.keysize (some node) ≠ 0 := by
  obtain ⟨hstored, hne⟩ := hstored
  cases h with
  | zero =>
      cases hpage.symm.trans (StoredLeaf.page hstored)
      exact Nat.ne_of_gt (Nat.mul_pos index.keysize_pos (List.length_pos_of_ne_nil hne))
  | succ h =>
      obtain ⟨first, entries, below, page, -⟩ := hstored
      cases hpage.symm.trans page
      simp only [Node.restSize, Node.dtsize]
      omega

namespace Focus

variable (focus : Focus index pages h n low high owned held) {front' : Front (Key α β) Nat}
  {kept : Nat} {rest' : List (Key α β × Nat)} {lower' upper' : Option (Key α β)}
  {owned1 part owned2 : List Nat} {held1 keys held2 : List (Key α β)}

omit [LinearOrder β] in
theorem inner_fits {keysize first first' : Nat} {entries entries' : List (Key α β × Nat)}
    (hlength : entries.length ≤ entries'.length)
    (hfits : (Node.inner first' entries' : Node α β).dtsize keysize ≤ IBLOCKSIZE - IHDRSIZE) :
    (Node.inner first entries : Node α β).dtsize keysize ≤ IBLOCKSIZE - IHDRSIZE :=
  Nat.le_trans (Nat.add_le_add_left (Nat.mul_le_mul_left _ hlength) _) hfits

/-- The node after one of its branches has gone. -/
theorem shrunk
    (hbefore : Before (Holding (Stored index after h)) low front' lower' owned1 held1)
    (hkept : Holding (Stored index after h) kept lower' upper' part keys)
    (hbehind : Behind (Holding (Stored index after h)) high rest' upper' owned2 held2)
    (hlength : (plug front' kept rest').2.length ≤
      (plug focus.front focus.child focus.rest).2.length)
    (hperm : owned.Perm (n :: (owned1 ++ (part ++ owned2)) ++ freed))
    (hframe : ∀ m, m ∉ owned → after m = pages m) :
    Shrunk index pages (h + 1) n low high owned (held1 ++ (keys ++ held2)) after
      (some (.inner (plug front' kept rest').1 (plug front' kept rest').2)) freed := by
  have hnodup := (List.nodup_append.mp (hperm.nodup_iff.mp focus.nodup)).1
  have hn := (List.nodup_cons.mp hnodup).1
  have hfenced := (hbehind.fenced hkept).plug hbefore
  refine .tree hframe ⟨⟨_, _, _, Function.update_self .., rfl, inner_fits hlength focus.fits,
    hfenced.mono ?_⟩, hfenced.holds⟩ hperm
  rintro child low high part held hpart ⟨hchild, hne⟩
  refine ⟨hchild.frame fun m hm => Function.update_of_ne ?_ .., hne⟩
  rintro rfl
  exact hn (hpart m hm)

/-- The branch has no keys any more. -/
theorem emptied (hothers : ∀ m, m = n ∨ m ∈ focus.owned1 ∨ m ∈ focus.owned2 → after m = pages m)
    (hframe : ∀ m, m ∉ owned → after m = pages m)
    (hperm : focus.part.Perm (focus.child :: freed)) :
    Shrunk index pages (h + 1) n low high owned (focus.held1 ++ focus.held2) after
      ((Node.inner (plug focus.front focus.child focus.rest).1
        (plug focus.front focus.child focus.rest).2 : Node α β).removed false
          focus.front.position) (focus.child :: freed) := by
  have hbefore := focus.before_after fun m hm => hothers m (Or.inr (Or.inl hm))
  have hbehind := focus.behind_after fun m hm => hothers m (Or.inr (Or.inr hm))
  have hroom := Stored.room focus.stored
  have howned : ∀ m, owned.count m = (n :: (focus.owned1 ++ focus.owned2) ++
      focus.child :: freed).count m := by
    intro m
    have hcount := hperm.count_eq m
    have howns := congrArg (List.count m) focus.owns
    simp only [List.count_append, List.count_cons] at hcount howns ⊢
    omega
  cases hrest : focus.rest with
  | cons entry others =>
      -- the next branch gets the room of the one that goes
      obtain ⟨sep, next⟩ := entry
      rw [hrest] at hbehind
      obtain ⟨hupper, hfenced⟩ := hbehind
      obtain ⟨upper, part, keys, owned', held', hnext, hbehind, hparts, hkeys⟩ := hfenced.behind
      rw [hupper] at hroom
      rw [removed_behind, hkeys]
      refine focus.shrunk hbefore ⟨hnext.1.widen (Above.widen hroom) (fun _ h => h), hnext.2⟩
        hbehind ?_ (List.perm_iff_count.mpr ?_) hframe
      · rw [plug_length, plug_length, hrest, List.length_cons]
        omega
      · rw [← hparts]
        exact howned
  | nil =>
      rw [hrest] at hbehind
      obtain ⟨hupper, hnone2, hnil2⟩ := hbehind
      cases hfront : focus.front with
      | none =>
          rw [hfront] at hbefore
          obtain ⟨-, hnone1, hnil1⟩ := hbefore
          refine .empty hframe (List.perm_iff_count.mpr fun m => ?_) ?_
          · rw [howned, hnone1, hnone2]
            rfl
          · rw [hnil1, hnil2]
            rfl
      | some parts =>
          -- the last branch before gets the room
          obtain ⟨first, before, fence⟩ := parts
          rw [hfront] at hbefore
          have hlower : focus.lower = some fence := hbefore.1
          obtain ⟨front, last, lower, owned1, part, held1, keys, hplug, hinit, hlast, hparts,
            hkeys⟩ := hbefore.back
          rw [hlower, hupper] at hroom
          rw [hlower] at hlast
          simp only [plug, Front.position]
          rw [removed_before focus.child [] false first before fence (Or.inr rfl), hkeys, hnil2,
            List.append_nil, List.append_nil]
          obtain rfl : first = (plug front last []).1 := congrArg Prod.fst hplug
          obtain rfl : before = (plug front last []).2 := congrArg Prod.snd hplug
          have hlastBehind : Behind (Holding (Stored index after h)) high [] high [] [] :=
            ⟨rfl, rfl, rfl⟩
          have hfreed : owned.Perm (n :: (owned1 ++ (part ++ [])) ++ focus.child :: freed) := by
            refine List.perm_iff_count.mpr fun m => ?_
            rw [howned, hnone2, hparts, List.append_nil, List.append_nil]
          have hlength : (plug front last []).2.length ≤
              (plug focus.front focus.child focus.rest).2.length := by
            rw [hfront, hrest]
            simp only [plug, List.length_append]
            omega
          have hresult := focus.shrunk hinit
            ⟨hlast.1.widen (fun _ h => h) (Under.widen hroom), hlast.2⟩ hlastBehind hlength hfreed
            hframe
          rw [List.append_nil] at hresult
          exact hresult

/-- A brother has got the keys of the branch, and the page of the branch is released. -/
theorem joined {brother : Nat} {joined : Node α β} {tailB tail : List Nat}
    (hbefore : Before (Holding (Stored index pages h)) low front' lower' owned1 held1)
    (hbehind : Behind (Holding (Stored index pages h)) high rest' upper' owned2 held2)
    (howned : ∀ m, owned.count m = [n].count m + owned1.count m + (brother :: tailB).count m +
      focus.part.count m + owned2.count m)
    (hperm : focus.part.Perm (focus.child :: tail ++ freed))
    (hframe : ∀ m, m ∉ focus.part → mid m = pages m)
    (hlength : (plug front' brother rest').2.length ≤
      (plug focus.front focus.child focus.rest).2.length)
    (hpart : part.Perm (brother :: (tailB ++ tail)))
    (hkept : ∀ after : Pages α β, after brother = some joined →
      (∀ m ∈ tailB ++ tail, after m = Function.update mid focus.child (some node) m) →
      Holding (Stored index after h) brother lower' upper' part keys) :
    Shrunk index pages (h + 1) n low high owned (held1 ++ (keys ++ held2))
      (Function.update (Function.update (Function.update mid focus.child (some node)) brother
        (some joined)) focus.child none)
      (some (.inner (plug front' brother rest').1 (plug front' brother rest').2))
      (focus.child :: freed) ∧
    Function.update (Function.update (Function.update mid focus.child (some node)) brother
      (some joined)) focus.child none n = pages n := by
  have hall : ∀ m, [n].count m + owned1.count m + (brother :: tailB).count m +
      (focus.child :: tail).count m + freed.count m + owned2.count m ≤ 1 := by
    intro m
    have hcount := List.nodup_iff_count_le_one.mp focus.nodup m
    have hparts := hperm.count_eq m
    have hwhole := howned m
    rw [List.count_append] at hparts
    omega
  have hbrother : ∀ m, 0 < [n].count m + owned1.count m + tailB.count m +
      (focus.child :: tail).count m + owned2.count m → m ≠ brother := by
    rintro m hm rfl
    have hm' := hall m
    rw [List.count_cons_self] at hm'
    omega
  have hchild : ∀ m, 0 < [n].count m + owned1.count m + (brother :: tailB).count m +
      tail.count m + owned2.count m → m ≠ focus.child := by
    rintro m hm rfl
    have hm' := hall focus.child
    rw [List.count_cons_self] at hm'
    omega
  generalize hafter : Function.update (Function.update (Function.update mid focus.child
    (some node)) brother (some joined)) focus.child none = after
  have hrest : ∀ m, m ≠ brother → m ≠ focus.child → after m = mid m := by
    intro m hm hm'
    rw [← hafter, Function.update_of_ne hm', Function.update_of_ne hm, Function.update_of_ne hm']
  have hothers : ∀ m, 0 < [n].count m + owned1.count m + owned2.count m → after m = pages m := by
    intro m hm
    rw [hrest m (hbrother m (by omega)) (hchild m (by omega))]
    refine hframe m fun hin => ?_
    have hparts := hperm.count_eq m
    have hm' := hall m
    have hpos := List.count_pos_iff.mpr hin
    rw [List.count_append] at hparts
    omega
  have hmono : ∀ (others : List Nat), (∀ m ∈ others, after m = pages m) →
      ∀ child low high part held, (∀ page ∈ part, page ∈ others) →
        Holding (Stored index pages h) child low high part held →
          Holding (Stored index after h) child low high part held :=
    fun others hsame child low high part held hin hcontent =>
      ⟨hcontent.1.frame fun m hm => hsame m (hin m hm), hcontent.2⟩
  refine ⟨focus.shrunk (hbefore.mono (hmono owned1 fun m hm => hothers m ?_))
    (hkept after ?_ fun m hm => ?_) (hbehind.mono (hmono owned2 fun m hm => hothers m ?_))
    hlength (List.perm_iff_count.mpr fun m => ?_) fun m hm => ?_,
    hothers n (by rw [List.count_cons_self]; omega)⟩
  · have hpos := List.count_pos_iff.mpr hm
    omega
  · have hne := hchild brother (by rw [List.count_cons_self]; omega)
    rw [← hafter, Function.update_of_ne hne, Function.update_self]
  · have hpos := List.count_pos_iff.mpr hm
    rw [List.count_append] at hpos
    have hne : m ≠ focus.child := hchild m (by simp only [List.count_cons]; omega)
    rw [hrest m (hbrother m (by simp only [List.count_cons]; omega)) hne, Function.update_of_ne hne]
  · have hpos := List.count_pos_iff.mpr hm
    omega
  · have hwhole := howned m
    have hparts := hperm.count_eq m
    have hkeptPart := hpart.count_eq m
    simp only [List.count_append, List.count_cons, List.count_nil] at hwhole hparts hkeptPart ⊢
    omega
  · have hwhole := howned m
    have hparts := hperm.count_eq m
    have hzero := List.count_eq_zero.mpr hm
    have hne : m ≠ brother := by
      rintro rfl
      rw [List.count_cons_self] at hwhole
      omega
    have hne' : m ≠ focus.child := by
      rintro rfl
      rw [List.cons_append, List.count_cons_self] at hparts
      omega
    rw [hrest m hne hne']
    refine hframe m fun hin => ?_
    have hpos := List.count_pos_iff.mpr hin
    omega

/-- The keys of the branch are with those of the branch before it. -/
theorem joinedLeft {first last : Nat} {before : List (Key α β × Nat)} {fence : Key α β}
    {joined : Node α β}
    (hfront : focus.front = some (first, before, fence))
    (hlast : ((first :: before.map Prod.snd)[before.length]? = some last))
    (hframe : ∀ m, m ∉ focus.part → mid m = pages m)
    (hstored : Holding (Stored index (Function.update mid focus.child (some node)) h) focus.child
      focus.lower focus.upper part remaining)
    (hperm : focus.part.Perm (part ++ freed))
    (hjoin : joinedNode index.keysize (Function.update mid focus.child (some node) last)
      (some node) (some (fence, focus.child)) = some joined) :
    Shrunk index pages (h + 1) n low high owned (focus.held1 ++ (remaining ++ focus.held2))
      (Function.update (Function.update (Function.update mid focus.child (some node)) last
        (some joined)) focus.child none)
      ((Node.inner (plug focus.front focus.child focus.rest).1
        (plug focus.front focus.child focus.rest).2 : Node α β).removed true
          focus.front.position) (focus.child :: freed) ∧
    Function.update (Function.update (Function.update mid focus.child (some node)) last
      (some joined)) focus.child none n = pages n := by
  have hbefore := focus.before
  rw [hfront] at hbefore
  have hlower : focus.lower = some fence := hbefore.1
  obtain ⟨front, inner, lower, owned1, partL, held1, keysL, hplug, hinit, hinner, hparts, hkeys⟩ :=
    hbefore.back
  have hposition : front.position = before.length := by
    have hlength := congrArg (fun parts => parts.2.length) hplug
    rw [plug_length, List.length_nil, Nat.add_zero] at hlength
    exact hlength.symm
  obtain rfl : inner = last := by
    have hchild := plug_child front inner []
    rw [← hplug, hposition, hlast] at hchild
    exact (Option.some.inj hchild).symm
  obtain ⟨tailL, rfl⟩ := hinner.1.owns_root
  obtain ⟨tail, rfl⟩ := hstored.1.owns_root
  have hroom := Stored.room hinner
  have hroom' := Stored.room hstored
  rw [hlower] at hinner hstored hroom hroom'
  have howned : ∀ m, owned.count m = [n].count m + owned1.count m + (inner :: tailL).count m +
      focus.part.count m + focus.owned2.count m := by
    intro m
    have howns := congrArg (List.count m) focus.owns
    rw [hparts] at howns
    simp only [List.count_append, List.count_cons, List.count_nil] at howns ⊢
    omega
  have hleft : Stored index (Function.update mid focus.child (some node)) h inner lower
      (some fence) (inner :: tailL) keysL := by
    refine hinner.1.frame fun m hm => ?_
    have hnot : m ∉ focus.part := by
      refine (focus.mem_others (Or.inr (Or.inl ?_))).2
      rw [hparts]
      exact List.mem_append_right _ hm
    rw [Function.update_of_ne, hframe m hnot]
    rintro rfl
    exact hnot (hperm.mem_iff.mpr List.mem_cons_self)
  have hlength : (plug front inner focus.rest).2.length ≤
      (plug focus.front focus.child focus.rest).2.length := by
    rw [plug_length, plug_length, hfront, hposition]
    exact Nat.add_le_add_right (Nat.le_succ _) _
  have hkept : ∀ after : Pages α β, after inner = some joined →
      (∀ m ∈ tailL ++ tail, after m = Function.update mid focus.child (some node) m) →
      Holding (Stored index after h) inner lower focus.upper (inner :: (tailL ++ tail))
        (keysL ++ remaining) := by
    intro after hpage hsame
    have hjoined : joinedNode index.keysize (Function.update mid focus.child (some node) inner)
        (Function.update mid focus.child (some node) focus.child) (some (fence, focus.child)) =
        some joined := by
      rw [Function.update_self]
      exact hjoin
    exact ⟨Stored.join hleft hstored.1 hjoined hpage hsame hroom hroom',
      List.append_ne_nil_of_left_ne_nil hinner.2 _⟩
  have hshrunk := focus.joined hinit focus.behind howned hperm hframe hlength (List.Perm.refl _)
    hkept
  rw [plug_rest, ← hplug] at hshrunk
  rw [hfront, hkeys, List.append_assoc]
  simp only [plug, Front.position]
  rw [removed_before focus.child focus.rest true first before fence (Or.inl rfl)]
  rw [List.append_assoc] at hshrunk
  exact hshrunk

/-- The keys of the branch are with those of the branch behind it. -/
theorem joinedRight {next : Nat} {others : List (Key α β × Nat)} {sep : Key α β}
    {joined : Node α β} (hrest : focus.rest = (sep, next) :: others)
    (hframe : ∀ m, m ∉ focus.part → mid m = pages m)
    (hstored : Holding (Stored index (Function.update mid focus.child (some node)) h) focus.child
      focus.lower focus.upper part remaining)
    (hperm : focus.part.Perm (part ++ freed))
    (hjoin : joinedNode index.keysize (some node)
      (Function.update mid focus.child (some node) next) (some (sep, next)) = some joined) :
    Shrunk index pages (h + 1) n low high owned (focus.held1 ++ (remaining ++ focus.held2))
      (Function.update (Function.update (Function.update mid focus.child (some node)) next
        (some joined)) focus.child none)
      ((Node.inner (plug focus.front focus.child focus.rest).1
        (plug focus.front focus.child focus.rest).2 : Node α β).removed false
          focus.front.position) (focus.child :: freed) ∧
    Function.update (Function.update (Function.update mid focus.child (some node)) next
      (some joined)) focus.child none n = pages n := by
  have hbehind := focus.behind
  rw [hrest] at hbehind
  obtain ⟨hupper, hfenced⟩ := hbehind
  obtain ⟨upper, partR, keysR, owned2, held2, hnext, hbehind, hparts, hkeys⟩ := hfenced.behind
  obtain ⟨tailR, rfl⟩ := hnext.1.owns_root
  obtain ⟨tail, rfl⟩ := hstored.1.owns_root
  have hroom := Stored.room hnext
  have hroom' := Stored.room hstored
  rw [hupper] at hstored hroom'
  have howned : ∀ m, owned.count m = [n].count m + focus.owned1.count m +
      (next :: tailR).count m + focus.part.count m + owned2.count m := by
    intro m
    have howns := congrArg (List.count m) focus.owns
    rw [hparts] at howns
    simp only [List.count_append, List.count_cons, List.count_nil] at howns ⊢
    omega
  have hright : Stored index (Function.update mid focus.child (some node)) h next (some sep) upper
      (next :: tailR) keysR := by
    refine hnext.1.frame fun m hm => ?_
    have hnot : m ∉ focus.part := by
      refine (focus.mem_others (Or.inr (Or.inr ?_))).2
      rw [hparts]
      exact List.mem_append_left _ hm
    rw [Function.update_of_ne, hframe m hnot]
    rintro rfl
    exact hnot (hperm.mem_iff.mpr List.mem_cons_self)
  have hlength : (plug focus.front next others).2.length ≤
      (plug focus.front focus.child focus.rest).2.length := by
    rw [plug_length, plug_length, hrest]
    exact Nat.add_le_add_left (Nat.le_succ _) _
  have hkept : ∀ after : Pages α β, after next = some joined →
      (∀ m ∈ tailR ++ tail, after m = Function.update mid focus.child (some node) m) →
      Holding (Stored index after h) next focus.lower upper (next :: (tail ++ tailR))
        (remaining ++ keysR) := by
    intro after hpage hsame
    have hjoined : joinedNode index.keysize
        (Function.update mid focus.child (some node) focus.child)
        (Function.update mid focus.child (some node) next) (some (sep, next)) = some joined := by
      rw [Function.update_self]
      exact hjoin
    refine ⟨Stored.join hstored.1 hright hjoined hpage (fun m hm => hsame m ?_) hroom' hroom,
      List.append_ne_nil_of_left_ne_nil hstored.2 _⟩
    exact List.mem_append.mpr (List.mem_append.mp hm).symm
  have hshrunk := focus.joined focus.before hbehind howned hperm hframe hlength
    (List.Perm.cons next List.perm_append_comm) hkept
  rw [hrest, removed_behind, hkeys]
  rw [List.append_assoc] at hshrunk
  exact hshrunk

end Focus

/-! The climbing from a node to its father. -/

/-- No page fails to be fixed. -/
structure RemoveCircumstances.Succeeds (circumstances : RemoveCircumstances) : Prop where
  leaf : circumstances.fixesLeaf = true
  father : ∀ level, circumstances.fixesFather level = true
  brother : ∀ level toLeft, circumstances.fixesBrother level toLeft = true
  root : circumstances.fixesRoot = true
  sole : circumstances.fixesSole = true

/-- A tree after the removal of a key from it. -/
structure Removed (index : IndexDescr α) (pages : Pages α β) (h n : Nat)
    (low high : Option (Key α β)) (owned : List Nat) (remaining : List (Key α β))
    (after : Pages α β) (owned' freed : List Nat) : Prop where
  stored : Holding (Stored index after h) n low high owned' remaining
  owned_perm : owned.Perm (owned' ++ freed)
  frame : ∀ m, m ∉ owned → after m = pages m

/-- What becomes of a node that an item has been removed from: it stays below its father, or the
removing continues in the father. -/
def Leaves (focus : Focus index pages h n low high owned held) (remaining : List (Key α β))
    (freed : List Nat) (result : Option Bool × Pages α β) : Prop :=
  match result with
  | (none, after) => ∃ part, Removed index pages h focus.child focus.lower focus.upper focus.part
      remaining after part freed
  | (some toLeft, after) =>
      Shrunk index pages (h + 1) n low high owned (focus.held1 ++ (remaining ++ focus.held2)) after
        ((Node.inner (plug focus.front focus.child focus.rest).1
          (plug focus.front focus.child focus.rest).2 : Node α β).removed toLeft
            focus.front.position) (focus.child :: freed) ∧ after n = pages n

namespace Focus

variable (focus : Focus index pages h n low high owned held) {part : List Nat}

theorem child_mem : focus.child ∈ focus.part := by
  obtain ⟨tail, howns⟩ := focus.stored.1.owns_root
  rw [howns]
  exact List.mem_cons_self

theorem leaves_joinRight (hsucceeds : circumstances.Succeeds) (level : Nat)
    (hframe : ∀ m, m ∉ focus.part → mid m = pages m)
    (hstored : Holding (Stored index (Function.update mid focus.child (some node)) h) focus.child
      focus.lower focus.upper part remaining)
    (hperm : focus.part.Perm (part ++ freed)) :
    Leaves focus remaining freed (joinRight index circumstances level focus.child
      (plug focus.front focus.child focus.rest).1 (plug focus.front focus.child focus.rest).2
      focus.front.position (some node) (Function.update mid focus.child (some node))) := by
  have hstays : ∃ part, Removed index pages h focus.child focus.lower focus.upper focus.part
      remaining (Function.update mid focus.child (some node)) part freed := by
    refine ⟨part, hstored, hperm, fun m hm => ?_⟩
    rw [Function.update_of_ne (ne_of_mem_of_not_mem focus.child_mem hm).symm, hframe m hm]
  rw [joinRight]
  split
  case isFalse => exact hstays
  case isTrue hposit =>
    cases hrest : focus.rest with
    | nil =>
        rw [plug_length, hrest, List.length_nil] at hposit
        omega
    | cons entry others =>
        obtain ⟨sep, next⟩ := entry
        have hentry : (plug focus.front focus.child focus.rest).2[focus.front.position]? =
            some (sep, next) := by
          rw [plug_next, hrest]
          rfl
        have hchild : (Node.inner (plug focus.front focus.child focus.rest).1
            (plug focus.front focus.child focus.rest).2 : Node α β).children.getD
              (focus.front.position + 1) 0 = next := by
          rw [List.getD_eq_getElem?_getD, Node.children, List.getElem?_cons_succ,
            List.getElem?_map, hentry]
          rfl
        rw [← hrest, hchild, hsucceeds.brother, hentry]
        simp only [Bool.true_eq_false, if_false]
        split
        case h_1 joined hjoin => exact focus.joinedRight hrest hframe hstored hperm hjoin
        case h_2 => exact hstays

theorem leaves_checkJoining (hsucceeds : circumstances.Succeeds) (level : Nat)
    (hframe : ∀ m, m ∉ focus.part → mid m = pages m)
    (hstored : Holding (Stored index (Function.update mid focus.child (some node)) h) focus.child
      focus.lower focus.upper part remaining)
    (hperm : focus.part.Perm (part ++ freed)) :
    Leaves focus remaining freed (checkJoining index circumstances level focus.child
      (plug focus.front focus.child focus.rest).1 (plug focus.front focus.child focus.rest).2
      focus.front.position (some node) (Function.update mid focus.child (some node))) := by
  have hsize := Stored.restSize_pos hstored (Function.update_self ..)
  rw [checkJoining, if_neg hsize]
  cases hfront : focus.front with
  | none =>
      have hzero : Front.position (none : Front (Key α β) Nat) = 0 := rfl
      rw [if_pos hzero, ← hfront]
      exact focus.leaves_joinRight hsucceeds level hframe hstored hperm
  | some parts =>
      obtain ⟨first, before, fence⟩ := parts
      have hpos : Front.position (some (first, before, fence)) ≠ 0 := Nat.succ_ne_zero _
      rw [if_neg hpos]
      have hentry : (plug (some (first, before, fence)) focus.child focus.rest).2[before.length]? =
          some (fence, focus.child) := by
        simp only [plug]
        rw [List.getElem?_append_right (Nat.le_refl _), Nat.sub_self]
        rfl
      obtain ⟨last, hlast⟩ :
          ∃ last, (first :: before.map Prod.snd)[before.length]? = some last := by
        refine ⟨_, List.getElem?_eq_getElem ?_⟩
        rw [List.length_cons, List.length_map]
        exact Nat.lt_succ_self _
      have hchild : (Node.inner (plug (some (first, before, fence)) focus.child focus.rest).1
          (plug (some (first, before, fence)) focus.child focus.rest).2 : Node α β).children.getD
            before.length 0 = last := by
        rw [List.getD_eq_getElem?_getD, Node.children, plug, List.map_append, ← List.cons_append,
          List.getElem?_append_left, hlast]
        · rfl
        · rw [List.length_cons, List.length_map]
          exact Nat.lt_succ_self _
      simp only [Front.position, Nat.add_sub_cancel]
      rw [hchild, hsucceeds.brother, hentry]
      simp only [Bool.true_eq_false, if_false]
      split
      case h_1 joined hjoin =>
        have hleft := focus.joinedLeft hfront hlast hframe hstored hperm hjoin
        exact hleft
      case h_2 =>
        have hright := focus.leaves_joinRight hsucceeds level hframe hstored hperm
        rw [hfront] at hright
        exact hright

theorem leaves_leaveRest (hsucceeds : circumstances.Succeeds) (level : Nat)
    (hshrunk : Shrunk index pages h focus.child focus.lower focus.upper focus.part remaining mid
      rest freed) :
    Leaves focus remaining freed (leaveRest index circumstances level focus.child
      ⟨n, focus.front.position⟩ rest mid) := by
  have hn : n ≠ focus.child := by
    have hnot := (focus.mem_others (Or.inl rfl)).2
    exact (ne_of_mem_of_not_mem focus.child_mem hnot).symm
  cases hshrunk with
  | empty hframe hperm hnone =>
      generalize hrest : (if h = 0 then some (Node.leaf []) else none : Option (Node α β)) = rest
      have hsize : Node.restSize index.keysize rest = 0 := by
        subst hrest
        cases h <;> rfl
      have hpage : Function.update mid focus.child rest n = some (.inner
          (plug focus.front focus.child focus.rest).1
          (plug focus.front focus.child focus.rest).2) := by
        rw [Function.update_of_ne hn, hframe n (focus.mem_others (Or.inl rfl)).2, focus.page]
      rw [leaveRest]
      simp only [hsize, hsucceeds.father, hpage]
      rw [if_pos (by decide), if_neg Bool.true_eq_false.mp, checkJoining, if_pos hsize,
        Function.update_idem]
      have hothers : ∀ m, m = n ∨ m ∈ focus.owned1 ∨ m ∈ focus.owned2 →
          Function.update mid focus.child none m = pages m := by
        intro m hm
        have hnot := (focus.mem_others hm).2
        rw [Function.update_of_ne (ne_of_mem_of_not_mem focus.child_mem hnot).symm, hframe m hnot]
      subst hnone
      refine ⟨focus.emptied hothers (fun m hm => ?_) hperm, hothers n (Or.inl rfl)⟩
      have hnot : m ∉ focus.part := fun hin => hm (focus.part_subset hin)
      rw [Function.update_of_ne (ne_of_mem_of_not_mem focus.child_mem hnot).symm, hframe m hnot]
  | @tree node part _ hframe hstored hperm =>
      have hpage : Function.update mid focus.child (some node) n = some (.inner
          (plug focus.front focus.child focus.rest).1
          (plug focus.front focus.child focus.rest).2) := by
        rw [Function.update_of_ne hn, hframe n (focus.mem_others (Or.inl rfl)).2, focus.page]
      rw [leaveRest]
      simp only [hsucceeds.father, hpage, Bool.true_eq_false, if_false]
      split
      case isTrue => exact focus.leaves_checkJoining hsucceeds level hframe hstored hperm
      case isFalse =>
        refine ⟨part, hstored, hperm, fun m hm => ?_⟩
        rw [Function.update_of_ne (ne_of_mem_of_not_mem focus.child_mem hm).symm, hframe m hm]

end Focus

/-- What the loop does with the rest of a node. -/
def continued (index : IndexDescr α) (circumstances : RemoveCircumstances) (above : List StkCell)
    (level : Nat) (rest : Option (Node α β)) (nn : Nat) (pages : Pages α β) (freed : List Nat) :
    Option (Bool × Pages α β × List Nat) :=
  match above with
  | [] => rest.map fun rest => (true, Function.update pages nn (some rest), freed)
  | father :: above =>
      match leaveRest index circumstances level nn father rest pages with
      | (none, pages) => some (false, pages, freed)
      | (some toLeft, pages) =>
          removeLoop index circumstances above (level + 1) toLeft father pages (nn :: freed)

omit [LinearOrder β] in
theorem removeLoop_eq {above : List StkCell} {level : Nat} {toLeft : Bool} {cell : StkCell}
    (hpage : pages cell.nn = some node) :
    removeLoop index circumstances above level toLeft cell pages freed =
      continued index circumstances above level (node.removed toLeft cell.posit) cell.nn pages
        freed := by
  rw [removeLoop.eq_def, hpage]
  cases above <;> rfl

/-- How the removal from a tree comes out of its root. -/
inductive RemoveOutcome (index : IndexDescr α) (circumstances : RemoveCircumstances)
    (pages : Pages α β) (h n : Nat) (low high : Option (Key α β)) (owned : List Nat)
    (remaining : List (Key α β)) (above : List StkCell) :
    Option (Bool × Pages α β × List Nat) → Prop
  | stopped {after : Pages α β} {owned' freed : List Nat}
      (tree : Removed index pages h n low high owned remaining after owned' freed) :
      RemoveOutcome index circumstances pages h n low high owned remaining above
        (some (false, after, freed))
  | continues {mid : Pages α β} {rest : Option (Node α β)} {freed : List Nat}
      (shrunk : Shrunk index pages h n low high owned remaining mid rest freed) :
      RemoveOutcome index circumstances pages h n low high owned remaining above
        (continued index circumstances above h rest n mid freed)

namespace Focus

variable (focus : Focus index pages h n low high owned held) {part : List Nat}

/-- The tree below the branch has been changed, and the others stay. -/
theorem removed (hremoved : Removed index pages h focus.child focus.lower focus.upper focus.part
      remaining after part freed) :
    Removed index pages (h + 1) n low high owned (focus.held1 ++ (remaining ++ focus.held2)) after
      (n :: (focus.owned1 ++ (part ++ focus.owned2))) freed := by
  obtain ⟨hstored, hperm, hframe⟩ := hremoved
  have hothers : ∀ m, m = n ∨ m ∈ focus.owned1 ∨ m ∈ focus.owned2 → after m = pages m :=
    fun m hm => hframe m (focus.mem_others hm).2
  have hbehind := focus.behind_after fun m hm => hothers m (Or.inr (Or.inr hm))
  have hfenced := (hbehind.fenced hstored).plug
    (focus.before_after fun m hm => hothers m (Or.inr (Or.inl hm)))
  refine ⟨⟨⟨_, _, _, (hothers n (Or.inl rfl)).trans focus.page, rfl, focus.fits, hfenced⟩,
    hfenced.holds⟩, List.perm_iff_count.mpr fun m => ?_, fun m hm => ?_⟩
  · have hcount := hperm.count_eq m
    have howns := congrArg (List.count m) focus.owns
    simp only [List.count_append, List.count_cons] at hcount howns ⊢
    omega
  · exact hframe m fun hin => hm (focus.part_subset hin)

theorem outcome (hsucceeds : circumstances.Succeeds) {above : List StkCell}
    {result : Option (Bool × Pages α β × List Nat)}
    (hchild : RemoveOutcome index circumstances pages h focus.child focus.lower focus.upper
      focus.part remaining (⟨n, focus.front.position⟩ :: above) result) :
    RemoveOutcome index circumstances pages (h + 1) n low high owned
      (focus.held1 ++ (remaining ++ focus.held2)) above result := by
  cases hchild with
  | stopped tree => exact .stopped (focus.removed tree)
  | @continues mid rest freed shrunk =>
      have hleaves := focus.leaves_leaveRest hsucceeds h shrunk
      rw [continued]
      revert hleaves
      generalize leaveRest index circumstances h focus.child _ _ _ = result
      obtain ⟨toLeft, after⟩ := result
      intro hleaves
      cases toLeft with
      | none =>
          obtain ⟨part, hremoved⟩ := hleaves
          exact .stopped (focus.removed hremoved)
      | some toLeft =>
          obtain ⟨hshrunk, hpage⟩ := hleaves
          have hloop := @removeLoop_eq _ _ index circumstances after (focus.child :: freed) _ above
            (h + 1) toLeft ⟨n, focus.front.position⟩ (hpage.trans focus.page)
          simp only []
          rw [hloop]
          exact .continues hshrunk

end Focus

end Sql602.Btree
