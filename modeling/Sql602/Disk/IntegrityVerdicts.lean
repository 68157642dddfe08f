import Sql602.Disk.IntegrityRight

namespace Sql602.Integrity

open Descents

/-! What the check does on a damaged file: it ends after as many visits as the file has blocks,
and reports the damage. -/

section Properties

variable (image : Image) (bigstep root listHead : Nat) (pc : Piece) (basbl : BasTblBlock)
  (allocBlock allocSecondary : Nat → Nat)

/-- Every fault is counted, and space that is marked again makes the other counter grow. -/
structure Reported (st next : CheckState) (faults : Nat) (events : List (Nat × BitVec 32)) :
    Prop where
  nonexBlocks : ∀ count, st.nonexBlocks = some count → next.nonexBlocks = some (count + faults)
  crossLink : ∀ count, st.marks.crossLink = some count → Collides image st.marks events →
    ∃ count', next.marks.crossLink = some count' ∧ count < count'

def outside (dadr : Nat) : Nat := if image.behind dadr then 1 else 0

def IndexRight : Prop := ∀ st, ∃ fuel visited next res,
  markIndexSubtree image bigstep fuel root st = some (next, res) ∧
  walk (subtrees image bigstep) fuel root = some visited ∧
  next.indexSize = st.indexSize + visited.length ∧ visited.length ≤ image.dadrlimit ∧
  Reported image st next (outside image root + faultsBelow image bigstep visited)
    (visited.map blockEvent)

def DropRight : Prop := ∃ fuel freed,
  dropIndex image bigstep fuel root [] = some freed ∧ freed.length ≤ image.dadrlimit

/-- The blocks of a list, and the numbers in it behind the end of the file. -/
def listBlocks (fuel : Nat) : Option (List Nat) :=
  if listHead = 0 ∨ image.behind listHead = true then some [] else walk (nexts image) fuel listHead

def listFaults (visited : List Nat) : Nat :=
  (if listHead ≠ 0 ∧ image.behind listHead = true then 1 else 0) +
    (visited.map (nextFaults image)).sum

/-- The errors are added to the counter by the caller. -/
def FreeRecordsRight : Prop := ∀ st, ∃ fuel visited next errs,
  markFreeRecList image fuel listHead st = some (next, errs) ∧
  listBlocks image listHead fuel = some visited ∧ visited.length ≤ image.dadrlimit ∧
  errs = listFaults image listHead visited ∧
  Reported image st next 0 (visited.map blockEvent)

/-- A big block that is not in the file as a whole. -/
def bigOutside (dadr : Nat) : Bool :=
  decide (image.dadrlimit ≤ dadr + SMALL_BLOCKS_PER_BIG_BLOCK - 1)

open Classical in
def LargeObjectRight : Prop := ∀ st,
  Reported image st (markHp image pc st).1
    (if pc.dadr = 0 then 0
      else if image.HasPiece pc then hpFaults image (bigOutside image) pc
      else outside image pc.dadr)
    (if pc.dadr ≠ 0 ∧ image.HasPiece pc then hpEvents image pc else [])

/-- The blocks with numbers of blocks that are read. -/
def basrecsReads : Nat :=
  1 + if basbl.diraddr then 0
    else (List.range (min basbl.nbnums MAX_BAS_ADDRS)).countP fun i =>
      decide ((dataEntry allocSecondary i (basbl.databl i)).marked ≠ 0)

def Entry.outside (entry : Entry) : Bool :=
  decide (entry.marked ≠ 0) && image.behind entry.marked

def TableRight : Prop :=
  let entries := basrecsEntries image allocBlock allocSecondary basbl
  basrecsReads basbl allocSecondary ≤ image.dadrlimit ∧
  ∀ st, Reported image st (markBasrecs image allocBlock allocSecondary basbl st)
    (entries.countP Entry.missing + entries.countP (Entry.outside image)) (entryEvents entries)

/-- The check of an index, of the dropping of it, of a list of free records, of a large object
and of a table. -/
structure CheckRight : Prop where
  index : IndexRight image bigstep root
  drop : DropRight image bigstep root
  freeRecords : FreeRecordsRight image listHead
  largeObject : LargeObjectRight image pc
  table : TableRight image basbl allocBlock allocSecondary

/-- No more ways lead to the nodes of the index than the file has blocks, the free records have a
list without a cycle, and the roots, pieces and tables have numbers of blocks of the file. -/
structure Orderly : Prop where
  rootInside : image.behind root = false
  fewSubtrees : Few (subtrees image bigstep) root image.dadrlimit
  fewDropped : image.dropped root = true → Few (dropTrees image bigstep) root image.dadrlimit
  freeRecords : listHead ≠ 0 → image.behind listHead = false →
    Few (nexts image) listHead image.dadrlimit
  piece : pc.dadr ≠ 0 → image.behind pc.dadr = false
  bigBlocks : pc.dadr ≠ 0 → image.HasPiece pc → ∀ dworm, image.dworm pc = some dworm →
    dworm.null = false → ∀ dadr ∈ dworm.listed, bigOutside image dadr = true →
      image.bigBehind dadr = true
  reads : basrecsReads basbl allocSecondary ≤ image.dadrlimit
  entries : ∀ entry ∈ basrecsEntries image allocBlock allocSecondary basbl,
    entry.outside image = false

end Properties

section Reports

variable {image : Image} {st next : CheckState} {faults faults' visits : Nat}
  {events : List (Nat × BitVec 32)}

theorem reported_after : Reported image st (st.after image faults events visits) faults events where
  nonexBlocks count hcount := by
    rw [CheckState.after, hcount]
    rfl
  crossLink _ hcount hcollides := markAll_collides hcount hcollides

/-- A state with both counters requested and nothing marked. -/
def freshState : CheckState := ⟨⟨fun _ => BitVec.allOnes 32, false, some 0⟩, some 0, 0⟩

theorem Reported.faults_eq
    (hreported : Reported image freshState (freshState.after image faults events visits) faults'
      events) : faults = faults' := by
  have hcount : 0 + faults = 0 + faults' := Option.some.inj (hreported.nonexBlocks 0 rfl)
  exact Nat.add_left_cancel hcount

/-- The counter has exactly the faults if and only if they are the ones that are counted. -/
theorem forall_reported_iff (run : CheckState → CheckState)
    (hrun : ∀ st, run st = st.after image faults events visits) :
    (∀ st, Reported image st (run st) faults' events) ↔ faults = faults' := by
  constructor
  · intro hreported
    have hfresh := hreported freshState
    rw [hrun] at hfresh
    exact hfresh.faults_eq
  · rintro rfl st
    rw [hrun]
    exact reported_after

end Reports

section Verdicts

variable {image : Image} {bigstep root listHead : Nat} {pc : Piece} {basbl : BasTblBlock}
  {allocBlock allocSecondary : Nat → Nat}

theorem markIndexSubtree_walk {fuel : Nat} {visited : List Nat} (st : CheckState)
    (hwalk : walk (subtrees image bigstep) fuel root = some visited) :
    ∃ res, markIndexSubtree image bigstep fuel root st = some (st.after image
      (faultsBelow image bigstep visited) (visited.map blockEvent) visited.length, res) := by
  have hmark := @markIndexSubtree_after image bigstep fuel root st
  rw [hwalk, Option.map_some] at hmark
  obtain ⟨⟨next, res⟩, hnext, rfl⟩ := Option.map_eq_some_iff.mp hmark
  exact ⟨res, hnext⟩

theorem treeIndexRight_iff : IndexRight image bigstep root ↔
    image.behind root = false ∧ Few (subtrees image bigstep) root image.dadrlimit := by
  constructor
  · intro hright
    obtain ⟨fuel, visited, next, res, hmark, hwalk, -, hvisits, hreported⟩ := hright freshState
    refine ⟨?_, walk_iff_few.mp ⟨fuel, visited, hwalk, hvisits⟩⟩
    obtain ⟨res', hmark'⟩ := markIndexSubtree_walk freshState hwalk
    obtain ⟨rfl, -⟩ := Prod.mk.inj (Option.some.inj (hmark.symm.trans hmark'))
    have hfaults := hreported.faults_eq
    cases hbehind : image.behind root with
    | false => rfl
    | true =>
        rw [outside, hbehind, if_pos rfl] at hfaults
        omega
  · rintro ⟨hroot, hfew⟩ st
    obtain ⟨fuel, visited, hwalk, hvisits⟩ := walk_iff_few.mpr hfew
    obtain ⟨res, hmark⟩ := markIndexSubtree_walk st hwalk
    refine ⟨fuel, visited, _, res, hmark, hwalk, rfl, hvisits, ?_⟩
    rw [outside, hroot, if_neg Bool.false_ne_true, Nat.zero_add]
    exact reported_after

theorem dropRight_iff : DropRight image bigstep root ↔
    (image.dropped root = true → Few (dropTrees image bigstep) root image.dadrlimit) := by
  constructor
  · rintro ⟨fuel, freed, hdrop, hlength⟩ hdropped
    have hwalk := @dropIndex_length image bigstep fuel root [] hdropped
    rw [hdrop, Option.map_some] at hwalk
    obtain ⟨visited, hvisited, hcount⟩ := Option.map_eq_some_iff.mp hwalk.symm
    rw [List.length_nil, Nat.zero_add] at hcount
    exact walk_iff_few.mp ⟨fuel, visited, hvisited, by rw [hcount]; exact hlength⟩
  · intro hfew
    cases hdropped : image.dropped root with
    | false => exact ⟨0, [], dropIndex_other hdropped, Nat.zero_le _⟩
    | true =>
        obtain ⟨fuel, visited, hwalk, hvisits⟩ := walk_iff_few.mpr (hfew hdropped)
        have hdrop := @dropIndex_length image bigstep fuel root [] hdropped
        rw [hwalk, Option.map_some] at hdrop
        obtain ⟨freed, hfreed, hcount⟩ := Option.map_eq_some_iff.mp hdrop
        rw [List.length_nil, Nat.zero_add] at hcount
        exact ⟨fuel, freed, hfreed, by rw [hcount]; exact hvisits⟩

theorem freeRecordsRight_iff : FreeRecordsRight image listHead ↔
    (listHead ≠ 0 → image.behind listHead = false →
      Few (nexts image) listHead image.dadrlimit) := by
  constructor
  · intro hright hne hin
    obtain ⟨fuel, visited, next, errs, -, hblocks, hvisits, -⟩ := hright freshState
    rw [listBlocks, if_neg (by rw [hin]; exact fun h => h.elim hne Bool.false_ne_true)] at hblocks
    exact walk_iff_few.mp ⟨fuel, visited, hblocks, hvisits⟩
  · intro hfew st
    by_cases hend : listHead = 0 ∨ image.behind listHead = true
    · refine ⟨0, [], st, _, markFreeRecList_end 0 st hend, if_pos hend, Nat.zero_le _, rfl, ?_⟩
      have hreported := @reported_after image st 0 0 []
      rwa [after_zero] at hreported
    · have hne : listHead ≠ 0 := fun hzero => hend (Or.inl hzero)
      have hin : image.behind listHead = false :=
        Bool.eq_false_iff.mpr fun hbehind => hend (Or.inr hbehind)
      obtain ⟨fuel, visited, hwalk, hvisits⟩ := walk_iff_few.mpr (hfew hne hin)
      have hmark := @markFreeRecList_after image fuel listHead st hne hin
      rw [hwalk, Option.map_some] at hmark
      refine ⟨fuel, visited, _, _, hmark, (if_neg hend).trans hwalk, hvisits, ?_, reported_after⟩
      rw [listFaults, hin, if_neg fun hbad => Bool.false_ne_true hbad.2, Nat.zero_add]

theorem bigOutside_of_behind (dadr : Nat) (hbehind : image.bigBehind dadr = true) :
    bigOutside image dadr = true := by
  rw [Image.bigBehind, decide_eq_true_eq] at hbehind
  rw [bigOutside, decide_eq_true_eq]
  exact Nat.le_trans hbehind (Nat.mod_le _ _)

/-- Two tests count the same when the weaker one holds of no other element. -/
theorem countP_eq_iff {α : Type} {p q : α → Bool} {list : List α}
    (himp : ∀ a, p a = true → q a = true) :
    list.countP p = list.countP q ↔ ∀ a ∈ list, q a = true → p a = true := by
  induction list with
  | nil => exact iff_of_true rfl fun a ha => absurd ha List.not_mem_nil
  | cons a list ih =>
      have hle : list.countP p ≤ list.countP q := List.countP_mono_left fun b _ => himp b
      rw [List.forall_mem_cons, ← ih]
      cases hq : q a with
      | false =>
          have hp : p a = false := by
            cases hp : p a with
            | false => rfl
            | true => exact absurd (hq.symm.trans (himp a hp)) Bool.false_ne_true
          rw [List.countP_cons_of_neg (by rw [hp]; exact Bool.false_ne_true),
            List.countP_cons_of_neg (by rw [hq]; exact Bool.false_ne_true)]
          exact (and_iff_right fun h => absurd h Bool.false_ne_true).symm
      | true =>
          rw [List.countP_cons_of_pos hq]
          cases hp : p a with
          | false =>
              rw [List.countP_cons_of_neg (by rw [hp]; exact Bool.false_ne_true)]
              exact iff_of_false (by omega) fun h => Bool.false_ne_true (h.1 rfl)
          | true =>
              rw [List.countP_cons_of_pos hp]
              constructor
              · exact fun heq => ⟨fun _ => rfl, Nat.succ.inj heq⟩
              · exact fun h => congrArg Nat.succ h.2

theorem hpFaults_eq_iff : hpFaults image image.bigBehind pc = hpFaults image (bigOutside image) pc ↔
    ∀ dworm, image.dworm pc = some dworm → dworm.null = false → ∀ dadr ∈ dworm.listed,
      bigOutside image dadr = true → image.bigBehind dadr = true := by
  rw [hpFaults, hpFaults]
  cases image.dworm pc with
  | none =>
      refine iff_of_true rfl fun dworm hdworm => ?_
      cases hdworm
  | some dworm =>
      dsimp only
      cases hnull : dworm.null with
      | true =>
          rw [if_pos rfl, if_pos rfl]
          refine iff_of_true rfl fun other hother hfull => ?_
          obtain rfl := Option.some.inj hother
          exact absurd (hnull.symm.trans hfull) Bool.true_eq_false.mp
      | false =>
          rw [if_neg Bool.false_ne_true, if_neg Bool.false_ne_true, Nat.add_left_cancel_iff,
            countP_eq_iff bigOutside_of_behind]
          constructor
          · intro hall other hother _
            obtain rfl := Option.some.inj hother
            exact hall
          · exact fun hall => hall dworm rfl hnull

theorem largeObjectRight_iff : LargeObjectRight image pc ↔
    (pc.dadr ≠ 0 → image.behind pc.dadr = false) ∧
      (pc.dadr ≠ 0 → image.HasPiece pc → ∀ dworm, image.dworm pc = some dworm →
        dworm.null = false → ∀ dadr ∈ dworm.listed, bigOutside image dadr = true →
          image.bigBehind dadr = true) := by
  rw [LargeObjectRight]
  by_cases hzero : pc.dadr = 0
  · refine iff_of_true (fun st => ?_) ⟨fun hne => absurd hzero hne, fun hne => absurd hzero hne⟩
    rw [if_pos hzero, if_neg fun hboth => hboth.1 hzero, markHp, if_pos hzero]
    have hreported := @reported_after image st 0 0 []
    rwa [after_zero] at hreported
  · rw [if_neg hzero]
    by_cases hpiece : image.HasPiece pc
    · have hin : image.behind pc.dadr = false :=
        decide_eq_false fun hbehind => hpiece (Or.inl hbehind)
      rw [if_pos hpiece, if_pos ⟨hzero, hpiece⟩,
        forall_reported_iff (fun st => (markHp image pc st).1) fun st => markHp_after hzero hpiece,
        hpFaults_eq_iff]
      exact ⟨fun hall => ⟨fun _ => hin, fun _ _ => hall⟩, fun hall => hall.2 hzero hpiece⟩
    · have hrun : ∀ st, (markHp image pc st).1 = st.after image 0 [] 0 := by
        intro st
        rw [after_zero, markHp, if_neg hzero, if_pos (not_not.mp hpiece)]
      rw [if_neg hpiece, if_neg fun hboth => hpiece hboth.2,
        forall_reported_iff (fun st => (markHp image pc st).1) hrun, outside]
      constructor
      · intro hfaults
        refine ⟨fun _ => ?_, fun _ hhas => absurd hhas hpiece⟩
        cases hbehind : image.behind pc.dadr with
        | false => rfl
        | true =>
            rw [hbehind] at hfaults
            cases hfaults
      · rintro ⟨hin, -⟩
        rw [hin hzero]
        rfl

theorem markBasrecs_after (st : CheckState) :
    markBasrecs image allocBlock allocSecondary basbl st =
      st.afterEntries image (basrecsEntries image allocBlock allocSecondary basbl) := by
  rw [markBasrecs, basrecsEntries]
  cases basbl.diraddr with
  | true => exact markDirect_after _ _ _ _
  | false => exact markIndirect_after _ _ _ _

theorem tableRight_iff : TableRight image basbl allocBlock allocSecondary ↔
    basrecsReads basbl allocSecondary ≤ image.dadrlimit ∧
      ∀ entry ∈ basrecsEntries image allocBlock allocSecondary basbl,
        entry.outside image = false := by
  rw [TableRight, forall_reported_iff _ markBasrecs_after]
  refine and_congr_right fun _ => ?_
  constructor
  · intro hfaults entry hentry
    have hnone : (basrecsEntries image allocBlock allocSecondary basbl).countP
        (Entry.outside image) = 0 := by omega
    exact Bool.eq_false_iff.mpr fun hout => List.countP_eq_zero.mp hnone entry hentry hout
  · intro hall
    have hnone : (basrecsEntries image allocBlock allocSecondary basbl).countP
        (Entry.outside image) = 0 :=
      List.countP_eq_zero.mpr fun entry hentry hout =>
        Bool.false_ne_true ((hall entry hentry).symm.trans hout)
    rw [hnone, Nat.add_zero]

end Verdicts

/-- A file of ten blocks with an index node that has a pointer to itself. -/
def cyclicImage : Image where
  dadrlimit := 10
  bpoolFirst := 1
  mplStart := 1
  mplSize := 9
  node dadr := if dadr = 7 then some ⟨4, INDEX_ID, fun _ => 7⟩ else none
  container _ := none
  dworm _ := none
  secondary _ := none

end Sql602.Integrity
