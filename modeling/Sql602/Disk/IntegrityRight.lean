import Mathlib.Algebra.GroupWithZero.Nat
import Mathlib.Tactic.Common
import Sql602.Disk.IntegrityCheck
import Sql602.Library.Descents

namespace Sql602.Integrity

open Descents

section Marking

variable {image : Image} {marks : Marks} {dadr : Nat} {pcs : BitVec 32}
  {events : List (Nat × BitVec 32)}

/-- The map covers the block. -/
def Image.Covers (image : Image) (dadr : Nat) : Prop :=
  image.mplStart ≤ dadr ∧ dadr - image.mplStart < image.mplSize

def Marks.markAll (image : Image) (marks : Marks) (events : List (Nat × BitVec 32)) : Marks :=
  events.foldl (fun marks event => (marks.mark image event.1 event.2).1) marks

/-- A bit of the part of a block has been marked. -/
def Marks.Taken (image : Image) (marks : Marks) (dadr : Nat) (pcs : BitVec 32) : Prop :=
  ∃ bit < 32, pcs.getLsbD bit = true ∧
    (marks.mpl (dadr - image.mplStart)).getLsbD bit = false

/-- Some space in the map is marked again, or was marked before. -/
def Collides (image : Image) (marks : Marks) (events : List (Nat × BitVec 32)) : Prop :=
  ∃ before dadr pcs after, events = before ++ (dadr, pcs) :: after ∧ image.Covers dadr ∧
    (marks.Taken image dadr pcs ∨
      ∃ pcs' bit, (dadr, pcs') ∈ before ∧ bit < 32 ∧ pcs.getLsbD bit = true ∧
        pcs'.getLsbD bit = true)

theorem markAll_nil : marks.markAll image [] = marks := rfl

theorem markAll_cons : marks.markAll image ((dadr, pcs) :: events) =
    (marks.mark image dadr pcs).1.markAll image events := rfl

theorem markAll_append {first rest : List (Nat × BitVec 32)} :
    marks.markAll image (first ++ rest) = (marks.markAll image first).markAll image rest :=
  List.foldl_append

theorem mark_mpl_le {block bit : Nat}
    (hbit : (marks.mpl block).getLsbD bit = false) :
    ((marks.mark image dadr pcs).1.mpl block).getLsbD bit = false := by
  rw [Marks.mark]
  split
  · exact hbit
  · dsimp only
    split
    · exact hbit
    · have hless : (if block = dadr - image.mplStart then
          marks.mpl (dadr - image.mplStart) &&& ~~~ pcs else marks.mpl block).getLsbD bit =
            false := by
        split
        · next hblock =>
            rw [BitVec.getLsbD_and, ← hblock, hbit, Bool.false_and]
        · exact hbit
      cases marks.crossLink with
      | none => exact hless
      | some count => exact hless

theorem mark_mpl {bit : Nat} (hcovers : image.Covers dadr) (hbit : bit < 32)
    (hpcs : pcs.getLsbD bit = true) :
    ((marks.mark image dadr pcs).1.mpl (dadr - image.mplStart)).getLsbD bit = false := by
  rw [Marks.mark, if_neg (Nat.not_lt.mpr hcovers.1)]
  dsimp only
  rw [if_neg (Nat.not_le.mpr hcovers.2)]
  have hless : (if dadr - image.mplStart = dadr - image.mplStart then
      marks.mpl (dadr - image.mplStart) &&& ~~~ pcs else
        marks.mpl (dadr - image.mplStart)).getLsbD bit = false := by
    rw [if_pos rfl, BitVec.getLsbD_and, BitVec.getLsbD_not, hpcs, decide_eq_true hbit]
    exact Bool.and_false _
  cases marks.crossLink with
  | none => exact hless
  | some count => exact hless

/-- The counter grows when taken space is marked, and never decreases. -/
theorem mark_crossLink {count : Nat} (hcount : marks.crossLink = some count) :
    ∃ count', (marks.mark image dadr pcs).1.crossLink = some count' ∧ count ≤ count' ∧
      (image.Covers dadr → marks.Taken image dadr pcs → count < count') := by
  rw [Marks.mark]
  split
  · next hstart =>
      exact ⟨count, hcount, Nat.le_refl _, fun hcovers => absurd hstart (Nat.not_lt.mpr hcovers.1)⟩
  · dsimp only
    split
    · next hsize =>
        exact ⟨count, hcount, Nat.le_refl _, fun hcovers => absurd hsize (Nat.not_le.mpr hcovers.2)⟩
    · rw [hcount]
      refine ⟨_, rfl, Nat.le_add_right _ _, fun _ htaken => ?_⟩
      obtain ⟨bit, hbit, hpcs, hmpl⟩ := htaken
      refine Nat.lt_add_of_pos_right (List.countP_pos_iff.mpr ⟨bit, List.mem_range.mpr hbit, ?_⟩)
      rw [BitVec.getLsbD_and, BitVec.getLsbD_not, hpcs, hmpl, decide_eq_true hbit]
      rfl

theorem markAll_mpl_le {block bit : Nat} (hbit : (marks.mpl block).getLsbD bit = false) :
    ((marks.markAll image events).mpl block).getLsbD bit = false := by
  induction events generalizing marks with
  | nil => exact hbit
  | cons event events ih => exact ih (mark_mpl_le hbit)

theorem markAll_mpl {bit : Nat} (hcovers : image.Covers dadr) (hbit : bit < 32)
    (hpcs : pcs.getLsbD bit = true) (hevent : (dadr, pcs) ∈ events) :
    ((marks.markAll image events).mpl (dadr - image.mplStart)).getLsbD bit = false := by
  obtain ⟨before, after, rfl⟩ := List.append_of_mem hevent
  rw [markAll_append, markAll_cons]
  exact markAll_mpl_le (mark_mpl hcovers hbit hpcs)

theorem markAll_crossLink_le {count : Nat} (hcount : marks.crossLink = some count) :
    ∃ count', (marks.markAll image events).crossLink = some count' ∧ count ≤ count' := by
  induction events generalizing marks count with
  | nil => exact ⟨count, hcount, Nat.le_refl _⟩
  | cons event events ih =>
      obtain ⟨first, hfirst, hle, -⟩ := @mark_crossLink image marks event.1 event.2 count hcount
      obtain ⟨last, hlast, hle'⟩ := ih hfirst
      exact ⟨last, hlast, Nat.le_trans hle hle'⟩

/-- Space that is marked again is counted. -/
theorem markAll_collides {count : Nat} (hcount : marks.crossLink = some count)
    (hcollides : Collides image marks events) :
    ∃ count', (marks.markAll image events).crossLink = some count' ∧ count < count' := by
  obtain ⟨before, dadr, pcs, after, rfl, hcovers, hspace⟩ := hcollides
  rw [markAll_append, markAll_cons]
  obtain ⟨first, hfirst, hle⟩ := @markAll_crossLink_le image marks before count hcount
  have htaken : (marks.markAll image before).Taken image dadr pcs := by
    obtain ⟨bit, hbit, hpcs, hmpl⟩ | ⟨pcs', bit, hbefore, hbit, hpcs, hpcs'⟩ := hspace
    · exact ⟨bit, hbit, hpcs, markAll_mpl_le hmpl⟩
    · exact ⟨bit, hbit, hpcs, markAll_mpl hcovers hbit hpcs' hbefore⟩
  obtain ⟨second, hsecond, -, hlt⟩ := @mark_crossLink image _ dadr pcs first hfirst
  obtain ⟨last, hlast, hle'⟩ := @markAll_crossLink_le image _ after second hsecond
  exact ⟨last, hlast, Nat.lt_of_le_of_lt hle (Nat.lt_of_lt_of_le (hlt hcovers htaken) hle')⟩

end Marking

/-- The state when the events were marked and the faults were counted. -/
def CheckState.after (image : Image) (st : CheckState) (faults : Nat)
    (events : List (Nat × BitVec 32)) (visits : Nat) : CheckState :=
  ⟨st.marks.markAll image events, st.nonexBlocks.map (· + faults), st.indexSize + visits⟩

def blockEvent (dadr : Nat) : Nat × BitVec 32 := (dadr, BitVec.allOnes 32)

section After

variable {image : Image} {st : CheckState} {dadr faults faults' visits visits' : Nat}
  {events events' : List (Nat × BitVec 32)}

theorem after_after : (st.after image faults events visits).after image faults' events' visits' =
    st.after image (faults + faults') (events ++ events') (visits + visits') := by
  rw [CheckState.after, CheckState.after, CheckState.after, markAll_append, Option.map_map,
    Nat.add_assoc]
  congr 2
  funext count
  exact Nat.add_assoc count faults faults'

theorem after_zero : st.after image 0 [] 0 = st := by
  obtain ⟨marks, nonexBlocks, indexSize⟩ := st
  cases nonexBlocks with
  | none => rfl
  | some count => rfl

theorem markSpace_after (pcs : BitVec 32) :
    (st.markSpace image dadr pcs).1 = st.after image 0 [(dadr, pcs)] 0 := by
  obtain ⟨marks, nonexBlocks, indexSize⟩ := st
  cases nonexBlocks with
  | none => rfl
  | some count => rfl

theorem markBlock_after : (st.markBlock image dadr).1 = st.after image 0 [blockEvent dadr] 0 :=
  markSpace_after _

theorem countNonex_after : st.countNonex = st.after image 1 [] 0 := rfl

end After

section Index

variable {image : Image} {bigstep fuel root : Nat} {st : CheckState}

def Image.behind (image : Image) (dadr : Nat) : Bool := decide (image.dadrlimit ≤ dadr)

/-- The nodes that are visited from a node. -/
def subtrees (image : Image) (bigstep root : Nat) : List Nat :=
  match image.node root with
  | none => []
  | some node =>
      if node.damaged || node.leaf then []
      else (node.pointers bigstep).filter fun dadr => !image.behind dadr

/-- A damaged node, or the pointers in a node behind the end of the file. -/
def nodeFaults (image : Image) (bigstep root : Nat) : Nat :=
  match image.node root with
  | none => 0
  | some node =>
      if node.damaged then 1
      else if node.leaf then 0
      else (node.pointers bigstep).countP image.behind

def faultsBelow (image : Image) (bigstep : Nat) (visited : List Nat) : Nat :=
  (visited.map (nodeFaults image bigstep)).sum

theorem faultsBelow_append {first rest : List Nat} : faultsBelow image bigstep (first ++ rest) =
    faultsBelow image bigstep first + faultsBelow image bigstep rest := by
  rw [faultsBelow, List.map_append, List.sum_append]
  rfl

theorem markSubtrees_after {markSubtree : Nat → CheckState → Option (CheckState × Bool)}
    {walkSubtree : Nat → Option (List Nat)}
    (hsubtree : ∀ dadr st, (markSubtree dadr st).map Prod.fst = (walkSubtree dadr).map
      fun visited => st.after image (faultsBelow image bigstep visited)
        (visited.map blockEvent) visited.length)
    (pointers : List Nat) (st : CheckState) (res : Bool) :
    (markSubtrees image markSubtree pointers st res).map Prod.fst =
      (collect walkSubtree (pointers.filter fun dadr => !image.behind dadr)).map
        fun below => st.after image
          (pointers.countP image.behind +
            faultsBelow image bigstep below.flatten)
          (below.flatten.map blockEvent) below.flatten.length := by
  induction pointers generalizing st res with
  | nil => exact congrArg some after_zero.symm
  | cons dadr pointers ih =>
      rw [markSubtrees]
      split
      · next hout =>
          have hbehind : image.behind dadr = true := decide_eq_true hout
          have hfilter : (dadr :: pointers).filter (fun dadr => !image.behind dadr) =
              pointers.filter fun dadr => !image.behind dadr :=
            List.filter_cons_of_neg (by rw [hbehind]; exact Bool.false_ne_true)
          rw [ih, hfilter, List.countP_cons_of_pos hbehind]
          congr 1
          funext below
          rw [@countNonex_after image, after_after, List.nil_append, Nat.zero_add]
          congr 1
          omega
      · next hin =>
          have hbehind : image.behind dadr = false := decide_eq_false hin
          have hfilter : (dadr :: pointers).filter (fun dadr => !image.behind dadr) =
              dadr :: pointers.filter fun dadr => !image.behind dadr :=
            List.filter_cons_of_pos (by rw [hbehind]; rfl)
          rw [hfilter, List.countP_cons_of_neg (by rw [hbehind]; exact Bool.false_ne_true),
            collect]
          have hfirst := hsubtree dadr st
          cases hmark : markSubtree dadr st with
          | none =>
              rw [hmark] at hfirst
              cases hwalk : walkSubtree dadr with
              | none => rfl
              | some visited =>
                  rw [hwalk] at hfirst
                  cases hfirst
          | some marked =>
              obtain ⟨st', below⟩ := marked
              rw [hmark] at hfirst
              cases hwalk : walkSubtree dadr with
              | none =>
                  rw [hwalk] at hfirst
                  cases hfirst
              | some visited =>
                  rw [hwalk] at hfirst
                  obtain rfl := Option.some.inj hfirst
                  dsimp only
                  rw [ih, Option.map_map]
                  congr 1
                  funext rest
                  dsimp only [Function.comp]
                  rw [after_after, List.flatten_cons, List.map_append, List.length_append,
                    faultsBelow_append]
                  congr 1
                  omega

/-- The descent marks everything below the root, as often as there are ways to it. -/
theorem markIndexSubtree_after (fuel root : Nat) (st : CheckState) :
    (markIndexSubtree image bigstep fuel root st).map Prod.fst =
      (walk (subtrees image bigstep) fuel root).map fun visited =>
        st.after image (faultsBelow image bigstep visited) (visited.map blockEvent)
          visited.length := by
  induction fuel generalizing root st with
  | zero => rfl
  | succ fuel ih =>
      have hstart : ({ (st.markBlock image root).1 with
          indexSize := (st.markBlock image root).1.indexSize + 1 } : CheckState) =
            st.after image 0 [blockEvent root] 1 := by
        rw [markBlock_after]
        rfl
      rw [markIndexSubtree, walk]
      dsimp only
      rw [hstart, subtrees]
      have hnone : ∀ {faults : Nat}, nodeFaults image bigstep root = faults →
          some ((st.after image 0 [blockEvent root] 1).after image faults [] 0) =
            Option.map (fun visited => st.after image (faultsBelow image bigstep visited)
              (visited.map blockEvent) visited.length)
              ((collect (walk (subtrees image bigstep) fuel) []).map
                fun below => root :: below.flatten) := by
        rintro faults rfl
        rw [after_after, Nat.zero_add]
        rfl
      cases hnode : image.node root with
      | none =>
          have hfaults : nodeFaults image bigstep root = 0 := by rw [nodeFaults, hnode]
          exact (congrArg some after_zero.symm).trans (hnone hfaults)
      | some node =>
          dsimp only
          cases hdamaged : node.damaged with
          | true =>
              have hfaults : nodeFaults image bigstep root = 1 := by
                rw [nodeFaults, hnode]
                exact if_pos hdamaged
              exact hnone hfaults
          | false =>
              cases hleaf : node.leaf with
              | true =>
                  have hfaults : nodeFaults image bigstep root = 0 := by
                    rw [nodeFaults, hnode]
                    dsimp only
                    rw [hdamaged, hleaf]
                    rfl
                  exact (congrArg some after_zero.symm).trans (hnone hfaults)
              | false =>
                  have hfaults : nodeFaults image bigstep root =
                      (node.pointers bigstep).countP image.behind := by
                    rw [nodeFaults, hnode]
                    dsimp only
                    rw [hdamaged, hleaf]
                    rfl
                  rw [if_neg Bool.false_ne_true, if_neg Bool.false_ne_true, Bool.or_self,
                    if_neg Bool.false_ne_true, markSubtrees_after ih, Option.map_map]
                  congr 1
                  funext below
                  dsimp only [Function.comp]
                  rw [after_after, List.map_cons, List.length_cons, faultsBelow, faultsBelow,
                    List.map_cons, List.sum_cons, hfaults, Nat.zero_add, Nat.add_comm 1]
                  rfl

/-- The number of a block that is dropped. -/
def Image.dropped (image : Image) (root : Nat) : Bool :=
  decide (root ≠ 0 ∧ image.isValidBlock root = true)

/-- The nodes that are dropped with a node. -/
def dropTrees (image : Image) (bigstep root : Nat) : List Nat :=
  match image.node root with
  | none => []
  | some node =>
      if node.damaged || node.leaf then [] else (node.pointers bigstep).filter image.dropped

theorem dropIndex_other {freed : List Nat} (hother : image.dropped root = false) :
    dropIndex image bigstep fuel root freed = some freed := by
  cases fuel with
  | zero => exact if_neg (of_decide_eq_false hother)
  | succ fuel => exact if_neg (of_decide_eq_false hother)

theorem dropSubtrees_length {dropSubtree : Nat → List Nat → Option (List Nat)}
    {walkSubtree : Nat → Option (List Nat)}
    (hother : ∀ dadr freed, image.dropped dadr = false → dropSubtree dadr freed = some freed)
    (hsubtree : ∀ dadr freed, image.dropped dadr = true →
      (dropSubtree dadr freed).map List.length =
        (walkSubtree dadr).map fun visited => freed.length + visited.length)
    (pointers : List Nat) (freed : List Nat) :
    (dropSubtrees dropSubtree pointers freed).map List.length =
      (collect walkSubtree (pointers.filter image.dropped)).map
        fun below => freed.length + below.flatten.length := by
  induction pointers generalizing freed with
  | nil => rfl
  | cons dadr pointers ih =>
      rw [dropSubtrees]
      cases hdropped : image.dropped dadr with
      | false =>
          rw [hother dadr freed hdropped, List.filter_cons_of_neg (by rw [hdropped]; simp)]
          exact ih freed
      | true =>
          rw [List.filter_cons_of_pos hdropped, collect]
          have hfirst := hsubtree dadr freed hdropped
          cases hdrop : dropSubtree dadr freed with
          | none =>
              rw [hdrop] at hfirst
              cases hwalk : walkSubtree dadr with
              | none => rfl
              | some visited =>
                  rw [hwalk] at hfirst
                  cases hfirst
          | some next =>
              rw [hdrop] at hfirst
              cases hwalk : walkSubtree dadr with
              | none =>
                  rw [hwalk] at hfirst
                  cases hfirst
              | some visited =>
                  rw [hwalk] at hfirst
                  have hnext : next.length = freed.length + visited.length :=
                    Option.some.inj hfirst
                  dsimp only
                  rw [ih, Option.map_map]
                  congr 1
                  funext below
                  dsimp only [Function.comp]
                  rw [hnext, List.flatten_cons, List.length_append, Nat.add_assoc]

/-- The blocks are freed as often as there are ways to them. -/
theorem dropIndex_length (fuel root : Nat) (freed : List Nat)
    (hdropped : image.dropped root = true) :
    (dropIndex image bigstep fuel root freed).map List.length =
      (walk (dropTrees image bigstep) fuel root).map
        fun visited => freed.length + visited.length := by
  induction fuel generalizing root freed with
  | zero =>
      rw [dropIndex, if_pos (of_decide_eq_true hdropped)]
      rfl
  | succ fuel ih =>
      rw [dropIndex, if_pos (of_decide_eq_true hdropped), walk, dropTrees]
      cases hnode : image.node root with
      | none => rfl
      | some node =>
          dsimp only
          cases hstop : node.damaged || node.leaf with
          | true => rfl
          | false =>
              have hbelow := dropSubtrees_length
                (fun dadr freed hother => @dropIndex_other image bigstep fuel dadr freed hother) ih
                (node.pointers bigstep) freed
              rw [if_neg Bool.false_ne_true, if_neg Bool.false_ne_true, Option.map_map,
                Option.map_map]
              have hcons : (List.length ∘ fun below => root :: below) =
                  (fun count => count + 1) ∘ (List.length : List Nat → Nat) := rfl
              rw [hcons, ← Option.map_map, hbelow, Option.map_map]
              congr 1

end Index

section FreeRecords

variable {image : Image} {listHead : Nat}

/-- The block behind a block of a list of free records. -/
def nexts (image : Image) (dadr : Nat) : List Nat :=
  match image.container dadr with
  | none => []
  | some next => if next ≠ 0 ∧ image.behind next = false then [next] else []

def nextFaults (image : Image) (dadr : Nat) : Nat :=
  match image.container dadr with
  | none => 0
  | some next => if next ≠ 0 ∧ image.behind next = true then 1 else 0

theorem markFreeRecList_end (fuel : Nat) (st : CheckState)
    (hend : listHead = 0 ∨ image.behind listHead = true) :
    markFreeRecList image fuel listHead st =
      some (st, if listHead ≠ 0 ∧ image.behind listHead = true then 1 else 0) := by
  obtain rfl | hne := Nat.eq_zero_or_pos listHead
  · cases fuel with
    | zero => rfl
    | succ fuel => rfl
  · have hne := Nat.ne_of_gt hne
    have hbehind := hend.resolve_left hne
    rw [if_pos ⟨hne, hbehind⟩]
    cases fuel with
    | zero => rw [markFreeRecList, if_neg hne, if_pos (of_decide_eq_true hbehind)]
    | succ fuel => rw [markFreeRecList, if_neg hne, if_pos (of_decide_eq_true hbehind)]

/-- The marking follows the list to its end. -/
theorem markFreeRecList_after (fuel listHead : Nat) (st : CheckState) (hne : listHead ≠ 0)
    (hin : image.behind listHead = false) :
    markFreeRecList image fuel listHead st = (walk (nexts image) fuel listHead).map
      fun visited => (st.after image 0 (visited.map blockEvent) 0,
        (visited.map (nextFaults image)).sum) := by
  induction fuel generalizing listHead st with
  | zero => rw [markFreeRecList, if_neg hne, if_neg (of_decide_eq_false hin), walk, Option.map_none]
  | succ fuel ih =>
      rw [markFreeRecList, if_neg hne, if_neg (of_decide_eq_false hin), markBlock_after, walk, nexts]
      dsimp only
      cases hnext : image.container listHead with
      | none =>
          have hfaults : nextFaults image listHead = 0 := by rw [nextFaults, hnext]
          dsimp only
          rw [collect, Option.map_some, Option.map_some, List.map_cons, List.map_cons,
            List.sum_cons, hfaults]
          rfl
      | some next =>
          dsimp only
          by_cases hgo : next ≠ 0 ∧ image.behind next = false
          · have hfaults : nextFaults image listHead = 0 := by
              rw [nextFaults, hnext]
              exact if_neg fun hbad => Bool.false_ne_true (hgo.2.symm.trans hbad.2)
            rw [if_pos hgo, ih next _ hgo.1 hgo.2, collect]
            cases walk (nexts image) fuel next with
            | none => rfl
            | some visited =>
                dsimp only [collect, Option.map_some]
                rw [after_after, List.flatten_cons, List.flatten_nil, List.append_nil,
                  List.map_cons, List.map_cons, List.sum_cons, hfaults, Nat.zero_add,
                  Nat.zero_add]
                rfl
          · have hend : next = 0 ∨ image.behind next = true := by
              by_cases hzero : next = 0
              · exact Or.inl hzero
              · exact Or.inr (Bool.not_eq_false _ ▸ fun hin => hgo ⟨hzero, hin⟩)
            rw [if_neg hgo, markFreeRecList_end fuel _ hend, collect, Option.map_some,
              Option.map_some, List.map_cons, List.map_cons, List.sum_cons, nextFaults, hnext]
            rfl

end FreeRecords

section LargeObjects

variable {image : Image} {pc : Piece}

/-- The test of the last block of a big block, with 32 bits. -/
def Image.bigBehind (image : Image) (dadr : Nat) : Bool :=
  decide (image.dadrlimit ≤ (dadr + SMALL_BLOCKS_PER_BIG_BLOCK - 1) % 2 ^ 32)

def bigEvents (dadr : Nat) : List (Nat × BitVec 32) :=
  (List.range' dadr SMALL_BLOCKS_PER_BIG_BLOCK).map fun block => blockEvent (block % 2 ^ 32)

theorem markSmallBlocks_after (blocks : List Nat) (st : CheckState) (res : Bool) :
    (markSmallBlocks image blocks st res).1 = st.after image (blocks.countP image.behind)
      ((blocks.filter fun dadr => !image.behind dadr).map blockEvent) 0 := by
  induction blocks generalizing st res with
  | nil => exact after_zero.symm
  | cons dadr blocks ih =>
      rw [markSmallBlocks]
      split
      · next hout =>
          have hbehind : image.behind dadr = true := decide_eq_true hout
          rw [ih, @countNonex_after image, after_after, List.countP_cons_of_pos hbehind,
            List.filter_cons_of_neg (by rw [hbehind]; exact Bool.false_ne_true), Nat.add_comm 1]
          rfl
      · next hin =>
          have hbehind : image.behind dadr = false := decide_eq_false hin
          have hmark : (st.markBlock image dadr).1 = st.after image 0 [blockEvent dadr] 0 :=
            markBlock_after
          dsimp only
          rw [ih, hmark, after_after,
            List.countP_cons_of_neg (by rw [hbehind]; exact Bool.false_ne_true),
            List.filter_cons_of_pos (by rw [hbehind]; rfl), Nat.zero_add]
          rfl

theorem markParts_after (dadr count : Nat) (st : CheckState) (res : Bool) :
    (markParts image dadr count st res).1 = st.after image 0
      ((List.range' dadr count).map fun block => blockEvent (block % 2 ^ 32)) 0 := by
  induction count generalizing dadr st res with
  | zero => exact after_zero.symm
  | succ count ih =>
      have hmark : (st.markBlock image (dadr % 2 ^ 32)).1 =
          st.after image 0 [blockEvent (dadr % 2 ^ 32)] 0 := markBlock_after
      rw [markParts]
      dsimp only
      rw [ih, hmark, after_after, List.range'_succ]
      rfl

theorem markBigBlocks_after (blocks : List Nat) (st : CheckState) (res : Bool) :
    (markBigBlocks image blocks st res).1 = st.after image
      ((blocks.takeWhile fun dadr => decide (dadr ≠ 0)).countP image.bigBehind)
      (((blocks.takeWhile fun dadr => decide (dadr ≠ 0)).filter
        fun dadr => !image.bigBehind dadr).flatMap bigEvents) 0 := by
  induction blocks generalizing st res with
  | nil => exact after_zero.symm
  | cons dadr blocks ih =>
      rw [markBigBlocks_eq, markLargeBlocks, ← markBigBlocks_eq]
      split
      · next hzero =>
          rw [List.takeWhile_cons_of_neg (by rw [hzero]; decide)]
          exact after_zero.symm
      · next hnonzero =>
          have htake : (dadr :: blocks).takeWhile (fun dadr => decide (dadr ≠ 0)) =
              dadr :: blocks.takeWhile fun dadr => decide (dadr ≠ 0) :=
            List.takeWhile_cons_of_pos (decide_eq_true hnonzero)
          rw [htake]
          split
          · next hout =>
              have hbehind : image.bigBehind dadr = true := decide_eq_true hout
              rw [ih, @countNonex_after image, after_after,
                List.countP_cons_of_pos hbehind,
                List.filter_cons_of_neg (by rw [hbehind]; exact Bool.false_ne_true),
                Nat.add_comm 1]
              rfl
          · next hin =>
              have hbehind : image.bigBehind dadr = false := decide_eq_false hin
              have hmark : (markParts image dadr SMALL_BLOCKS_PER_BIG_BLOCK st res).1 =
                  st.after image 0 (bigEvents dadr) 0 := markParts_after _ _ _ _
              -- the blocks of one big block are not marked one by one
              generalize markParts image dadr SMALL_BLOCKS_PER_BIG_BLOCK st res = parts at hmark ⊢
              obtain ⟨marked, found⟩ := parts
              dsimp only at hmark ⊢
              rw [ih, hmark, after_after,
                List.countP_cons_of_neg (by rw [hbehind]; exact Bool.false_ne_true),
                List.filter_cons_of_pos (by rw [hbehind]; rfl), Nat.zero_add, List.flatMap_cons]

/-- The piece is in the file and has the form of a piece. -/
def Image.HasPiece (image : Image) (pc : Piece) : Prop :=
  ¬ (image.dadrlimit ≤ pc.dadr ∨ BLOCKSIZE / k32 ≤ pc.offs32 ∨ BLOCKSIZE / k32 < pc.len32)

def pieceMap (pc : Piece) : BitVec 32 :=
  if 16 < pc.len32 then BitVec.allOnes 32 else BitVec.ofNat 32 (2 ^ pc.len32 - 1) <<< pc.offs32

/-- The big blocks before the end of their list. -/
def Dworm.listed (dworm : Dworm) : List Nat :=
  dworm.bigBlocks.takeWhile fun dadr => decide (dadr ≠ 0)

/-- What is marked of a large object. -/
def hpEvents (image : Image) (pc : Piece) : List (Nat × BitVec 32) :=
  (pc.dadr, pieceMap pc) ::
    match image.dworm pc with
    | none => []
    | some dworm =>
        if dworm.null then []
        else (dworm.smallBlocks.filter fun dadr => !image.behind dadr).map blockEvent ++
          (dworm.listed.filter fun dadr => !image.bigBehind dadr).flatMap bigEvents

/-- An object that cannot be opened, or the numbers of blocks behind the end of the file by a
test of the big blocks. -/
def hpFaults (image : Image) (bigBehind : Nat → Bool) (pc : Piece) : Nat :=
  match image.dworm pc with
  | none => 1
  | some dworm =>
      if dworm.null then 0
      else dworm.smallBlocks.countP image.behind + dworm.listed.countP bigBehind

theorem markHp_after {st : CheckState} (hne : pc.dadr ≠ 0) (hpiece : image.HasPiece pc) :
    (markHp image pc st).1 =
      st.after image (hpFaults image image.bigBehind pc) (hpEvents image pc) 0 := by
  have hmark : (st.xmarkPiece image pc).1 = st.after image 0 [(pc.dadr, pieceMap pc)] 0 :=
    markSpace_after _
  rw [markHp, if_neg hne, if_neg hpiece, hpFaults, hpEvents]
  dsimp only
  cases hdworm : image.dworm pc with
  | none =>
      dsimp only
      rw [hmark, @countNonex_after image, after_after]
      rfl
  | some dworm =>
      dsimp only
      cases hnull : dworm.null with
      | true => exact hmark
      | false =>
          rw [if_neg Bool.false_ne_true, if_neg Bool.false_ne_true, if_neg Bool.false_ne_true,
            markBigBlocks_after, markSmallBlocks_after, hmark, after_after, after_after,
            Nat.zero_add]
          rfl

end LargeObjects

section Tables

variable {image : Image} {allocBlock allocSecondary : Nat → Nat} {basbl : BasTblBlock}

/-- A number in a table as it is read, and as it is marked. -/
structure Entry where
  found : Nat
  marked : Nat

def dataEntry (allocBlock : Nat → Nat) (blocknum dadr : Nat) : Entry :=
  ⟨dadr, if dadr = 0 then allocBlock blocknum else dadr⟩

def directEntries (allocBlock databl : Nat → Nat) (i count : Nat) : List Entry :=
  (List.range' i count).map fun i => dataEntry allocBlock i (databl i)

/-- The entries of a secondary block for the data blocks of the records. -/
def secondaryEntries (allocBlock : Nat → Nat) (blockCount : Nat) (dtd : Nat → Nat)
    (j count blocknum : Nat) : List Entry :=
  (List.range (min count (blockCount - blocknum))).map fun k =>
    dataEntry allocBlock (blocknum + k) (dtd (j + k))

def indirectEntries (image : Image) (allocBlock allocSecondary : Nat → Nat)
    (basbl : BasTblBlock) : Nat → Nat → Nat → List Entry
  | _, 0, _ => []
  | i, count + 1, blocknum =>
      let entry := dataEntry allocSecondary i (basbl.databl i)
      entry ::
        match if entry.marked = 0 then none else image.secondary entry.marked with
        | none => indirectEntries image allocBlock allocSecondary basbl (i + 1) count blocknum
        | some dtd =>
            secondaryEntries allocBlock basbl.blockCount dtd 0 DADRS_PER_BLOCK blocknum ++
              indirectEntries image allocBlock allocSecondary basbl (i + 1) count
                (blocknum + min DADRS_PER_BLOCK (basbl.blockCount - blocknum))

/-- All numbers of a table. -/
def basrecsEntries (image : Image) (allocBlock allocSecondary : Nat → Nat) (basbl : BasTblBlock) :
    List Entry :=
  if basbl.diraddr then directEntries allocBlock basbl.databl 0 (min basbl.nbnums MAX_BAS_ADDRS)
  else indirectEntries image allocBlock allocSecondary basbl 0 (min basbl.nbnums MAX_BAS_ADDRS) 0

def Entry.missing (entry : Entry) : Bool := decide (entry.found = 0)

def entryEvents (entries : List Entry) : List (Nat × BitVec 32) :=
  (entries.filter fun entry => decide (entry.marked ≠ 0)).map fun entry => blockEvent entry.marked

def CheckState.afterEntries (image : Image) (st : CheckState) (entries : List Entry) :
    CheckState :=
  st.after image (entries.countP Entry.missing) (entryEvents entries) 0

theorem afterEntries_append {st : CheckState} {first rest : List Entry} :
    (st.afterEntries image first).afterEntries image rest =
      st.afterEntries image (first ++ rest) := by
  rw [CheckState.afterEntries, CheckState.afterEntries, after_after, ← List.countP_append,
    entryEvents, entryEvents, ← List.map_append, ← List.filter_append]
  rfl

/-- One number of a table. -/
theorem afterEntry {st : CheckState} {i dadr : Nat} (alloc : Nat → Nat) :
    (let st := if dadr = 0 then st.countNonex else st
      let dadr := if dadr = 0 then alloc i else dadr
      if dadr = 0 then st else (st.markBlock image dadr).1) =
      st.afterEntries image [dataEntry alloc i dadr] := by
  have hmissing : (if dadr = 0 then st.countNonex else st) =
      st.after image ([dataEntry alloc i dadr].countP Entry.missing) [] 0 := by
    rw [List.countP_singleton]
    by_cases hzero : dadr = 0
    · have hfound : (dataEntry alloc i dadr).missing = true := decide_eq_true hzero
      rw [if_pos hzero, if_pos hfound]
      rfl
    · have hfound : (dataEntry alloc i dadr).missing = false := decide_eq_false hzero
      rw [if_neg hzero, hfound]
      exact after_zero.symm
  dsimp only
  rw [hmissing, CheckState.afterEntries, entryEvents]
  by_cases hmarked : (dataEntry alloc i dadr).marked = 0
  · have hnone : [dataEntry alloc i dadr].filter (fun entry => decide (entry.marked ≠ 0)) = [] :=
      List.filter_cons_of_neg (by rw [hmarked]; decide)
    rw [hnone]
    exact if_pos hmarked
  · have hone : [dataEntry alloc i dadr].filter (fun entry => decide (entry.marked ≠ 0)) =
        [dataEntry alloc i dadr] :=
      List.filter_cons_of_pos (decide_eq_true hmarked)
    rw [hone]
    refine (if_neg hmarked).trans ?_
    rw [markBlock_after, after_after]
    rfl

theorem markDataBlock_after {st : CheckState} {blocknum dadr : Nat} :
    markDataBlock image allocBlock blocknum dadr st =
      st.afterEntries image [dataEntry allocBlock blocknum dadr] := afterEntry allocBlock

theorem markDirect_after (databl : Nat → Nat) (i count : Nat) (st : CheckState) :
    markDirect image allocBlock databl i count st =
      st.afterEntries image (directEntries allocBlock databl i count) := by
  induction count generalizing i st with
  | zero => exact after_zero.symm
  | succ count ih =>
      rw [markDirect, ih, markDataBlock_after, afterEntries_append, directEntries, directEntries,
        List.range'_succ]
      rfl

theorem markSecondary_after (blockCount : Nat) (dtd : Nat → Nat) (j count blocknum : Nat)
    (st : CheckState) : markSecondary image allocBlock blockCount dtd j count blocknum st =
      (blocknum + min count (blockCount - blocknum),
        st.afterEntries image
          (secondaryEntries allocBlock blockCount dtd j count blocknum)) := by
  induction count generalizing j blocknum st with
  | zero =>
      rw [secondaryEntries, Nat.zero_min]
      exact Prod.ext rfl after_zero.symm
  | succ count ih =>
      rw [markSecondary]
      split
      · next hmore =>
          have hmin : min (count + 1) (blockCount - blocknum) =
              min count (blockCount - (blocknum + 1)) + 1 := by omega
          have hlist : [dataEntry allocBlock blocknum (dtd j)] ++
              secondaryEntries allocBlock blockCount dtd (j + 1) count (blocknum + 1) =
                secondaryEntries allocBlock blockCount dtd j (count + 1) blocknum := by
            rw [secondaryEntries, secondaryEntries, hmin, List.range_succ_eq_map, List.map_cons,
              List.map_map, List.singleton_append]
            refine congrArg₂ List.cons rfl (List.map_congr_left fun k _ => ?_)
            dsimp only [Function.comp]
            rw [Nat.succ_eq_add_one, Nat.add_assoc, Nat.add_assoc, Nat.add_comm 1]
          rw [ih, markDataBlock_after, afterEntries_append, hlist, hmin]
          exact Prod.ext (by dsimp only; omega) rfl
      · next hend =>
          have hmin : min (count + 1) (blockCount - blocknum) = 0 := by omega
          rw [secondaryEntries, hmin]
          exact Prod.ext rfl after_zero.symm

theorem markIndirect_after (i count blocknum : Nat) (st : CheckState) :
    markIndirect image allocBlock allocSecondary basbl i count blocknum st =
      st.afterEntries image
        (indirectEntries image allocBlock allocSecondary basbl i count blocknum) := by
  induction count generalizing i blocknum st with
  | zero => exact after_zero.symm
  | succ count ih =>
      have hentry := @afterEntry image st i (basbl.databl i) allocSecondary
      dsimp only at hentry
      rw [markIndirect, indirectEntries]
      by_cases hmarked : (dataEntry allocSecondary i (basbl.databl i)).marked = 0
      · have hzero : (if basbl.databl i = 0 then allocSecondary i else basbl.databl i) = 0 :=
          hmarked
        rw [if_pos hzero] at hentry
        dsimp only
        rw [if_pos hzero, if_pos hmarked, hentry, ih, afterEntries_append]
        rfl
      · have hzero : ¬ (if basbl.databl i = 0 then allocSecondary i else basbl.databl i) = 0 :=
          hmarked
        rw [if_neg hzero] at hentry
        dsimp only
        rw [if_neg hzero, if_neg hmarked, hentry]
        have hsame : image.secondary (dataEntry allocSecondary i (basbl.databl i)).marked =
          image.secondary (if basbl.databl i = 0 then allocSecondary i else basbl.databl i) := rfl
        rw [hsame]
        cases image.secondary
            (if basbl.databl i = 0 then allocSecondary i else basbl.databl i) with
        | none =>
            dsimp only
            rw [ih, afterEntries_append]
            rfl
        | some dtd =>
            dsimp only
            rw [markSecondary_after]
            dsimp only
            rw [ih, afterEntries_append, afterEntries_append]
            rfl

end Tables

end Sql602.Integrity
