import Sql602.Btree.Iteration
import Mathlib.Order.Fin.Basic

namespace Sql602.Btree

/-! Passing the keys of an index tree whose values are in an interval. -/

theorem takeWhile_eq_filter {γ : Type} {p : γ → Bool} {list : List γ}
    (hsorted : list.Pairwise fun x y => p y = true → p x = true) :
    list.takeWhile p = list.filter p := by
  induction list with
  | nil => rfl
  | cons x list ih =>
      obtain ⟨hx, hlist⟩ := List.pairwise_cons.mp hsorted
      cases hfirst : p x with
      | true =>
          rw [List.takeWhile_cons_of_pos hfirst, List.filter_cons_of_pos hfirst, ih hlist]
      | false =>
          have hnone : list.filter p = [] := by
            rw [List.filter_eq_nil_iff]
            intro y hy hp
            rw [hx y hy hp] at hfirst
            cases hfirst
          rw [List.takeWhile_cons_of_neg (Bool.eq_false_iff.mp hfirst),
            List.filter_cons_of_neg (Bool.eq_false_iff.mp hfirst), hnone]

variable {α β : Type} [LinearOrder β] [BoundedOrder β]

/-- There is no last position at the end of the interval. -/
structure IndexIntervalItertor (α β : Type) where
  bac : BtreeAcc
  stopkey : Key α β
  lastPosition : Option β

/-- Checking the end of the interval for the key of a step. -/
def checkStop (index : IndexDescr α) (stopkey : Key α β)
    (step : Option (Key α β) × BtreeAcc) : IndexIntervalItertor α β where
  bac := step.2
  stopkey := stopkey
  lastPosition := step.1.bind fun key =>
    let res := cmpKeys index key stopkey
    if res.1 = false ∧ res.2 = .gt then none else some key.recnum

/-- The record numbers of the bounds are the least and the greatest one. -/
def openItertor (index : IndexDescr α) (circumstances : Circumstances) (pages : Pages α β)
    (root : Nat) (startkey stopkey : α) : IndexIntervalItertor α β :=
  match buildStack index circumstances ⟨startkey, ⊥⟩ pages BSTACK_LEN 0 root [] with
  | none => ⟨⟨[], false⟩, ⟨stopkey, ⊤⟩, none⟩
  | some (_, path) => checkStop index ⟨stopkey, ⊤⟩ (btreeStep pages ⟨path, false⟩)

def next (index : IndexDescr α) (pages : Pages α β) (itertor : IndexIntervalItertor α β) :
    Option β × IndexIntervalItertor α β :=
  match itertor.lastPosition with
  | none => (none, itertor)
  | some pos => (some pos, checkStop index itertor.stopkey (btreeStep pages itertor.bac))

/-- What a call of `next` returns after some calls before it. -/
def nthNext (index : IndexDescr α) (pages : Pages α β) : Nat → IndexIntervalItertor α β → Option β
  | 0, itertor => (next index pages itertor).1
  | i + 1, itertor => nthNext index pages i (next index pages itertor).2

variable {index : IndexDescr α} {pages : Pages α β} {root : Nat} {startkey stopkey : α}
  {key other : Key α β} {keys : List (Key α β)}

/-- The value is not behind the end of the interval. -/
def notBehind (index : IndexDescr α) (stopkey : α) (key : Key α β) : Bool :=
  index.cmpValues key.value stopkey != .gt

def between (index : IndexDescr α) (startkey stopkey : α) (key : Key α β) : Bool :=
  index.cmpValues startkey key.value != .gt && notBehind index stopkey key

theorem stopped_iff : ((cmpKeys index key ⟨stopkey, ⊤⟩).1 = false ∧
    (cmpKeys index key ⟨stopkey, ⊤⟩).2 = .gt) ↔ notBehind index stopkey key = false := by
  rw [cmpKeys, notBehind]
  cases index.cmpValues key.value stopkey with
  | lt => exact iff_of_false (fun h => (by cases h.2)) (by decide)
  | eq => exact iff_of_false (fun h => (by cases h.1)) (by decide)
  | gt => exact iff_of_true ⟨rfl, rfl⟩ rfl

theorem notLess_bot : notLess index ⟨startkey, ⊥⟩ key =
    (index.cmpValues startkey key.value != .gt) := by
  rw [notLess, keyOrder, cmpKeys]
  cases index.cmpValues startkey key.value with
  | lt => rfl
  | gt => rfl
  | eq =>
      have hle : compare ⊥ key.recnum ≠ .gt := compare_le_iff_le.mpr bot_le
      rw [seekOrder]
      cases index.distinct with
      | true => rfl
      | false => exact bne_iff_ne.mpr hle

omit [BoundedOrder β] in
theorem valueOrder_isLE_of_lt (h : keyOrder index key other = .lt) :
    (valueOrder index key other).isLE = true := by
  rw [keyOrder_eq] at h
  split at h
  · exact Ordering.isLE_of_eq_lt h
  · cases hvalue : valueOrder index key other with
    | lt => rfl
    | eq => rfl
    | gt =>
        rw [compareLex, hvalue] at h
        cases h

omit [BoundedOrder β] in
theorem notBehind_pairwise (hsorted : Sorted index keys) : keys.Pairwise fun key1 key2 =>
    notBehind index stopkey key2 = true → notBehind index stopkey key1 = true := by
  have htrans := index.transCmp
  apply List.Pairwise.imp _ hsorted
  intro key1 key2 hlt hkey2
  have hbehind := Ordering.isLE_iff_ne_gt.mpr (bne_iff_ne.mp hkey2)
  exact bne_iff_ne.mpr (Ordering.isLE_iff_ne_gt.mp
    (htrans.isLE_trans (valueOrder_isLE_of_lt hlt) hbehind))

/-- The record numbers that the iterator has still to return. -/
def positionsAhead (index : IndexDescr α) (pages : Pages α β) (stopkey : α)
    (itertor : IndexIntervalItertor α β) : List β :=
  match itertor.lastPosition with
  | none => []
  | some pos =>
      pos :: ((keysAhead pages itertor.bac).takeWhile (notBehind index stopkey)).map Key.recnum

section Passing

variable (hfilled : Filled pages root)
  (hroot : ∀ h, SubTree index pages h root none none → h < BSTACK_LEN)

include hfilled hroot

theorem checkStop_spec {bac : BtreeAcc} (hpos : Positioned index pages root bac) :
    positionsAhead index pages stopkey
        (checkStop index ⟨stopkey, ⊤⟩ (btreeStep pages bac)) =
      ((keysAhead pages bac).takeWhile (notBehind index stopkey)).map Key.recnum := by
  obtain ⟨hfirst, hahead, -⟩ := btreeStep_spec hfilled hroot hpos
  generalize keysAhead pages bac = ahead at *
  generalize btreeStep pages bac = step at *
  obtain ⟨result, bac⟩ := step
  cases ahead with
  | nil =>
      obtain rfl : result = none := hfirst
      rfl
  | cons key ahead =>
      obtain rfl : result = some key := hfirst
      replace hahead : keysAhead pages bac = ahead := hahead
      rw [checkStop, Option.bind_some]
      dsimp only
      cases hstop : notBehind index stopkey key with
      | false =>
          rw [if_pos (stopped_iff.mpr hstop),
            List.takeWhile_cons_of_neg (Bool.eq_false_iff.mp hstop)]
          rfl
      | true =>
          have hgoes : ¬ ((cmpKeys index key ⟨stopkey, ⊤⟩).1 = false ∧
              (cmpKeys index key ⟨stopkey, ⊤⟩).2 = .gt) := by
            rw [stopped_iff, hstop]
            decide
          rw [if_neg hgoes, List.takeWhile_cons_of_pos hstop, positionsAhead, hahead]
          rfl

theorem nthNext_spec {itertor : IndexIntervalItertor α β} {i : Nat}
    (hstop : itertor.stopkey = ⟨stopkey, ⊤⟩)
    (hpos : Positioned index pages root itertor.bac) :
    nthNext index pages i itertor = (positionsAhead index pages stopkey itertor)[i]? := by
  induction i generalizing itertor with
  | zero =>
      rw [nthNext, next, positionsAhead]
      cases itertor.lastPosition <;> rfl
  | succ i ih =>
      obtain ⟨-, -, hnext⟩ := btreeStep_spec hfilled hroot hpos
      rw [nthNext, next]
      cases hlast : itertor.lastPosition with
      | none =>
          dsimp only
          rw [ih hstop hpos, positionsAhead, hlast]
          rfl
      | some pos =>
          dsimp only
          rw [hstop, ih rfl hnext, checkStop_spec hfilled hroot hpos, positionsAhead, hlast]
          rfl

end Passing

/-- The keys of the leaves in ascending order. -/
structure InOrder (index : IndexDescr α) (pages : Pages α β) (root : Nat)
    (keys : List (Key α β)) : Prop where
  ascending : keys.Pairwise fun key1 key2 => (cmpKeys index key1 key2).2 = .lt
  leaves : ∀ key, key ∈ keys ↔
    ∃ n others, Linked pages root n ∧ pages n = some (.leaf others) ∧ key ∈ others

/-- The steps after building the stack return the keys from the start key on, each once. -/
def PassesFrom (index : IndexDescr α) (circumstances : Circumstances) (pages : Pages α β)
    (root : Nat) (ahead : List (Key α β)) (start : Key α β) : Prop :=
  ∃ res path, buildStack index circumstances start pages BSTACK_LEN 0 root [] = some (res, path) ∧
    ∀ i, nthStep pages i ⟨path, false⟩ = ahead[i]?

omit [BoundedOrder β] in
theorem Sorted.ascending_cmpKeys (hsorted : Sorted index keys) :
    keys.Pairwise fun key1 key2 => (cmpKeys index key1 key2).2 = .lt := by
  apply List.Pairwise.imp _ hsorted
  intro key1 key2 hlt
  rw [keyOrder, seekOrder] at hlt
  split at hlt
  · cases hlt
  · exact hlt

/-- The keys in the order of the leaves are passed from the start key on, and the iterator
returns the records whose values are in the interval. -/
theorem passing_right {circumstances : Circumstances} (hwf : WellFormed index pages root)
    (hfilled : Filled pages root)
    (hroot : ∀ h, SubTree index pages h root none none → h < BSTACK_LEN)
    (hfixes : ∀ depth, circumstances.fixesAny depth = true) :
    ∃ keys, InOrder index pages root keys ∧
      (∀ start, PassesFrom index circumstances pages root
        (keys.filter (notLess index start)) start) ∧
      ∀ startkey stopkey i,
        nthNext index pages i (openItertor index circumstances pages root startkey stopkey) =
          ((keys.filter (between index startkey stopkey)).map Key.recnum)[i]? := by
  obtain ⟨h, htree⟩ := hwf.tree
  have hsorted := leafKeys_sorted htree
  have hstart : ∀ start, ∃ res path,
      buildStack index circumstances start pages BSTACK_LEN 0 root [] = some (res, path) ∧
      keysAhead pages ⟨path, false⟩ = (leafKeys pages h root).filter (notLess index start) ∧
      Positioned index pages root ⟨path, false⟩ := by
    intro start
    obtain ⟨res, path, hbuild, hahead⟩ :=
      @buildStack_ahead _ _ _ index pages root h none none start circumstances BSTACK_LEN 0 []
        hfixes htree (hroot h htree)
    rw [keysBehind, List.append_nil] at hahead
    exact ⟨res, path, hbuild, hahead, Or.inr
      (buildStack_spec htree (fun posit => IsPath.root htree) hbuild).isPath⟩
  refine ⟨leafKeys pages h root, ⟨hsorted.ascending_cmpKeys, fun key => mem_leafKeys htree⟩,
    ?_, ?_⟩
  · intro start
    obtain ⟨res, path, hbuild, hahead, hpos⟩ := hstart start
    refine ⟨res, path, hbuild, fun i => ?_⟩
    rw [nthStep_spec hfilled hroot hpos, hahead]
  · intro startkey stopkey i
    obtain ⟨res, path, hbuild, hahead, hpos⟩ := hstart ⟨startkey, ⊥⟩
    obtain ⟨-, -, hnext⟩ := btreeStep_spec hfilled hroot hpos
    have hinterval : (leafKeys pages h root).filter (between index startkey stopkey) =
        ((leafKeys pages h root).filter (notLess index ⟨startkey, ⊥⟩)).filter
          (notBehind index stopkey) := by
      rw [List.filter_filter]
      congr 1
      funext key
      rw [notLess_bot, between, Bool.and_comm]
    have hfiltered : Sorted index ((leafKeys pages h root).filter
        (notLess index ⟨startkey, ⊥⟩)) := List.Pairwise.filter _ hsorted
    rw [openItertor, hbuild]
    dsimp only
    rw [nthNext_spec hfilled hroot rfl hnext, checkStop_spec hfilled hroot hpos, hahead,
      takeWhile_eq_filter (notBehind_pairwise hfiltered), hinterval]

/-! A distinct index, with one pointer in the root. -/

def uniqueIndex : IndexDescr Nat where
  keysize := 8
  distinct := true
  hasNulls := true
  isNullKey _ := false
  cmpValues := compare
  keysize_pos := by decide
  keysize_le := by decide
  transCmp := transCmp_compare

def singleBranch : Pages Nat (Fin 10) := fun n =>
  if n = 1 then some (.inner 2 [])
  else if n = 2 then some (.leaf [⟨1, 5⟩, ⟨2, 3⟩, ⟨4, 6⟩])
  else none

theorem singleBranch_leaf : singleBranch 2 = some (.leaf [⟨1, 5⟩, ⟨2, 3⟩, ⟨4, 6⟩]) := rfl

theorem singleBranch_root : singleBranch 1 = some (.inner 2 []) := rfl

theorem singleBranch_branch {n i child : Nat} (hbranch : BranchAt singleBranch n i child) :
    n = 1 ∧ i = 0 ∧ child = 2 := by
  obtain ⟨node, hnode, hchild⟩ := hbranch
  simp only [singleBranch] at hnode
  split at hnode
  · next hn =>
      cases hnode
      obtain ⟨rfl, rfl⟩ | ⟨j, entry, -, hentry, -⟩ := branch_cases hchild
      · exact ⟨hn, rfl, rfl⟩
      · cases hentry
  · split at hnode
    · cases hnode
      cases hchild
    · cases hnode

theorem singleBranch_tree : SubTree uniqueIndex singleBranch 1 1 none none := by
  refine SubTree.inner singleBranch_root List.Pairwise.nil (fun _ h => (by cases h)) ?_
  intro i child hchild
  obtain ⟨rfl, rfl⟩ | ⟨j, entry, -, hentry, -⟩ := branch_cases hchild
  · refine SubTree.leaf singleBranch_leaf ?_ ?_
    · rw [Sorted]
      decide
    · intro key _
      exact ⟨fun _ h => (by cases h), fun _ h => (by cases h)⟩
  · cases hentry

theorem singleBranch_wellFormed : WellFormed uniqueIndex singleBranch 1 where
  tree := ⟨1, singleBranch_tree⟩
  unshared n m i j child _ _ hn hm := by
    obtain ⟨rfl, rfl, -⟩ := singleBranch_branch hn
    obtain ⟨rfl, rfl, -⟩ := singleBranch_branch hm
    exact ⟨rfl, rfl⟩
  rootless n _ h := by
    obtain ⟨i, hbranch⟩ := h
    cases (singleBranch_branch hbranch).2.2

theorem singleBranch_filled : Filled singleBranch 1 := by
  intro n _ _ hempty
  simp only [singleBranch] at hempty
  split at hempty
  · cases hempty
  · split at hempty <;> cases hempty

theorem singleBranch_fits (h : Nat) (htree : SubTree uniqueIndex singleBranch h 1 none none) :
    h < BSTACK_LEN := by
  rw [htree.height_unique singleBranch_tree]
  decide

def readable : Circumstances :=
  ⟨fun _ => true, fun _ => true, fun _ => 0, fun _ => true, fun _ => 0, fun _ => true⟩

theorem passing_right_singleBranch : ∃ keys, InOrder uniqueIndex singleBranch 1 keys ∧
    (∀ start, PassesFrom uniqueIndex readable singleBranch 1
      (keys.filter (notLess uniqueIndex start)) start) ∧
    ∀ startkey stopkey i, nthNext uniqueIndex singleBranch i
        (openItertor uniqueIndex readable singleBranch 1 startkey stopkey) =
      ((keys.filter (between uniqueIndex startkey stopkey)).map Key.recnum)[i]? :=
  passing_right singleBranch_wellFormed singleBranch_filled singleBranch_fits fun _ => rfl

/-- In a distinct index a key is passed that is less than the start key by its record number. -/
theorem not_forall_passing : ¬ ∀ (index : IndexDescr Nat) (circumstances : Circumstances)
    (pages : Pages Nat (Fin 10)) (root : Nat), WellFormed index pages root → Filled pages root →
    (∀ depth, circumstances.fixesAny depth = true) →
    ∃ keys, InOrder index pages root keys ∧ ∀ start, PassesFrom index circumstances pages root
      (keys.filter fun key => (cmpKeys index start key).2 != .gt) start := by
  intro hall
  obtain ⟨keys, hkeys, hpasses⟩ := hall uniqueIndex readable singleBranch 1
    singleBranch_wellFormed singleBranch_filled fun _ => rfl
  obtain ⟨res, path, hbuild, hsteps⟩ := hpasses ⟨1, 7⟩
  cases hbuild
  have hfirst : (⟨1, 5⟩ : Key Nat (Fin 10)) ∈ keys.filter
      fun key => (cmpKeys uniqueIndex ⟨1, 7⟩ key).2 != .gt :=
    List.mem_of_getElem? (hsteps 0).symm
  obtain ⟨-, hnot⟩ := List.mem_filter.mp hfirst
  revert hnot
  decide

end Sql602.Btree
