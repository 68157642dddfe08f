import Sql602.Btree.Search
import Sql602.Library.Neighbours

namespace Sql602.Sorter

/-! Storing the numbers of sorted records: skipping, limiting and leaving out duplicates. -/

open Btree (Key IndexDescr cmpKeys valueOrder)

def NORECNUM : Nat := 0xffffffff

/-- The previous key is in `keyspace` when a record has been put. -/
structure Output (α β : Type) where
  outPmat : List β
  keyspace : Key α β

structure PmatSorter (α β : Type) where
  limitOffset : Nat
  limitCount : Nat
  distinct : Bool
  output : Output α β

variable {α β : Type} [LinearOrder β]

/-- Putting the record of a node, unless its key is the same as the previous one. -/
def putNode (index : IndexDescr α) (distinct : Bool) (output : Output α β) (node : Key α β) :
    Output α β where
  outPmat :=
    if distinct && !output.outPmat.isEmpty && (cmpKeys index output.keyspace node).1
      then output.outPmat
      else output.outPmat ++ [node.recnum]
  keyspace := if distinct then node else output.keyspace

def putNodes (index : IndexDescr α) (distinct : Bool) (output : Output α β)
    (nodes : List (Key α β)) : Output α β :=
  nodes.foldl (putNode index distinct) output

def writeResult (index : IndexDescr α) (sorter : PmatSorter α β) (resultBlock : List (Key α β)) :
    PmatSorter α β :=
  if resultBlock.length ≤ sorter.limitOffset then
    { sorter with limitOffset := sorter.limitOffset - resultBlock.length }
  else
    let count := resultBlock.length - sorter.limitOffset
    let nodes := resultBlock.drop sorter.limitOffset
    if sorter.limitCount < count then
      { sorter with
        limitOffset := 0
        limitCount := 0
        output := putNodes index sorter.distinct sorter.output (nodes.take sorter.limitCount) }
    else
      { sorter with
        limitOffset := 0
        limitCount :=
          if sorter.limitCount = NORECNUM then NORECNUM else sorter.limitCount - count
        output := putNodes index sorter.distinct sorter.output nodes }

/-- The final merge writes its result block by block. -/
def writeResults (index : IndexDescr α) (sorter : PmatSorter α β)
    (blocks : List (List (Key α β))) : PmatSorter α β :=
  blocks.foldl (writeResult index) sorter

/-- The `limitCount` is not a limit when it is `NORECNUM`. -/
def limited {γ : Type} (limitCount : Nat) (list : List γ) : List γ :=
  if limitCount = NORECNUM then list else list.take limitCount

def sameKey (index : IndexDescr α) (key1 key2 : Key α β) : Bool :=
  (cmpKeys index key1 key2).1

/-- The records to be stored: positions are counted without the later records of a key. -/
def sortedRecords (index : IndexDescr α) (limitOffset limitCount : Nat) (distinct : Bool)
    (nodes : List (Key α β)) : List β :=
  let counted := if distinct then Neighbours.firsts (sameKey index) [] nodes else nodes
  (limited limitCount (counted.drop limitOffset)).map Key.recnum

/-- Every record is once in the sorted sequence. -/
structure SortedNodes (index : IndexDescr α) (nodes : List (Key α β)) : Prop where
  ascending : nodes.Pairwise fun key1 key2 => valueOrder index key1 key2 ≠ .gt
  nodup : (nodes.map Key.recnum).Nodup

section Limits

variable {γ : Type} {list first rest : List γ} {limitCount : Nat}

/-- The limit for what follows `count` records. -/
def remaining (limitCount count : Nat) : Nat :=
  if limitCount = NORECNUM then NORECNUM else limitCount - count

theorem remaining_le (hlimit : limitCount ≤ NORECNUM) {count : Nat} :
    remaining limitCount count ≤ NORECNUM := by
  rw [remaining]
  split <;> omega

theorem limited_append (hlimit : limitCount ≤ NORECNUM) : limited limitCount (first ++ rest) =
    limited limitCount first ++ limited (remaining limitCount first.length) rest := by
  by_cases hnone : limitCount = NORECNUM
  · rw [limited, limited, limited, remaining, if_pos hnone, if_pos hnone, if_pos hnone,
      if_pos rfl]
  · have hremaining : limitCount - first.length ≠ NORECNUM := by omega
    rw [limited, limited, limited, remaining, if_neg hnone, if_neg hnone, if_neg hnone,
      if_neg hremaining, List.take_append]

theorem limited_of_length_le (hlength : list.length ≤ limitCount) :
    limited limitCount list = list := by
  rw [limited, List.take_of_length_le hlength, ite_self]

end Limits

section Writing

variable {index : IndexDescr α} {sorter : PmatSorter α β} {resultBlock nodes : List (Key α β)}
  {blocks : List (List (Key α β))} {distinct : Bool} {output : Output α β}

theorem writeResult_eq (hlimit : sorter.limitCount ≤ NORECNUM)
    (hblock : resultBlock.length ≤ NORECNUM) :
    writeResult index sorter resultBlock =
      { sorter with
        limitOffset := sorter.limitOffset - resultBlock.length
        limitCount := remaining sorter.limitCount (resultBlock.length - sorter.limitOffset)
        output := putNodes index sorter.distinct sorter.output
          (limited sorter.limitCount (resultBlock.drop sorter.limitOffset)) } := by
  rw [writeResult]
  split
  · next hskipped =>
      have hsame : remaining sorter.limitCount 0 = sorter.limitCount := by
        rw [remaining, Nat.sub_zero]
        split
        · next hnone => exact hnone.symm
        · rfl
      rw [Nat.sub_eq_zero_of_le hskipped, hsame, List.drop_eq_nil_of_le hskipped,
        limited_of_length_le (Nat.zero_le _)]
      rfl
  · next hskipped =>
      have hoffset : sorter.limitOffset - resultBlock.length = 0 := by omega
      rw [hoffset]
      dsimp only
      split
      · next hshort =>
          have hlimited : sorter.limitCount ≠ NORECNUM := by omega
          rw [remaining, if_neg hlimited, limited, if_neg hlimited,
            Nat.sub_eq_zero_of_le (Nat.le_of_lt hshort)]
      · next hlong =>
          have hall : (resultBlock.drop sorter.limitOffset).length ≤ sorter.limitCount := by
            rw [List.length_drop]
            omega
          rw [limited_of_length_le hall]
          rfl

/-- The division of the result into blocks does not matter. -/
theorem writeResults_output (hlimit : sorter.limitCount ≤ NORECNUM)
    (hblocks : ∀ block ∈ blocks, block.length ≤ NORECNUM) :
    (writeResults index sorter blocks).output =
      putNodes index sorter.distinct sorter.output
        (limited sorter.limitCount (blocks.flatten.drop sorter.limitOffset)) := by
  induction blocks generalizing sorter with
  | nil =>
      rw [List.flatten_nil, List.drop_nil, limited_of_length_le (Nat.zero_le _)]
      rfl
  | cons block blocks ih =>
      have hblock := hblocks block List.mem_cons_self
      have hrest : ∀ block ∈ blocks, block.length ≤ NORECNUM :=
        fun block hmem => hblocks block (List.mem_cons_of_mem _ hmem)
      rw [writeResults, List.foldl_cons, writeResult_eq hlimit hblock, ← writeResults,
        ih (remaining_le hlimit) hrest, List.flatten_cons, List.drop_append,
        limited_append hlimit, List.length_drop]
      exact List.foldl_append.symm

/-- The key that the next node is compared with. -/
def previous (output : Output α β) : Option (Key α β) :=
  if output.outPmat.isEmpty then none else some output.keyspace

theorem putNodes_all :
    (putNodes index false output nodes).outPmat = output.outPmat ++ nodes.map Key.recnum := by
  induction nodes generalizing output with
  | nil => exact (List.append_nil _).symm
  | cons node nodes ih =>
      rw [putNodes, List.foldl_cons, ← putNodes, ih, List.map_cons, List.append_cons]
      rfl

theorem putNodes_distinct :
    (putNodes index true output nodes).outPmat = output.outPmat ++
      (Neighbours.fresh (sameKey index) (previous output) nodes).map Key.recnum := by
  induction nodes generalizing output with
  | nil => exact (List.append_nil _).symm
  | cons node nodes ih =>
      have hfirst : (true && !output.outPmat.isEmpty && (cmpKeys index output.keyspace node).1) =
          (previous output).any (sameKey index · node) := by
        rw [previous]
        cases output.outPmat.isEmpty <;> rfl
      have hnext : previous (putNode index true output node) = some node := by
        have hput : (putNode index true output node).outPmat ≠ [] := by
          rw [putNode]
          dsimp only
          split
          · next hrepeats =>
              intro hempty
              rw [hempty] at hrepeats
              cases hrepeats
          · exact List.append_ne_nil_of_right_ne_nil _ (List.cons_ne_nil _ _)
        rw [previous, if_neg (by rwa [List.isEmpty_iff])]
        rfl
      rw [putNodes, List.foldl_cons, ← putNodes, ih, hnext, Neighbours.fresh, putNode, hfirst]
      dsimp only
      split
      · rfl
      · rw [List.map_cons]
        exact (List.append_cons _ _ _).symm

theorem sameKey_eq : sameKey index = fun key1 key2 : Key α β => valueOrder index key1 key2 == .eq := by
  funext key1 key2
  rw [sameKey, cmpKeys, valueOrder]
  cases index.cmpValues key1.value key2.value <;> rfl

theorem SortedNodes.firsts (hsorted : SortedNodes index nodes) :
    Neighbours.firsts (sameKey index) [] nodes = Neighbours.fresh (sameKey index) none nodes := by
  rw [sameKey_eq]
  exact Neighbours.firsts_eq_fresh hsorted.ascending

theorem SortedNodes.eq_of_recnums {nodes1 nodes2 : List (Key α β)}
    (hsorted : SortedNodes index nodes) (hnodes1 : nodes1 ⊆ nodes) (hnodes2 : nodes2 ⊆ nodes)
    (hrecnums : nodes1.map Key.recnum = nodes2.map Key.recnum) : nodes1 = nodes2 := by
  induction nodes1 generalizing nodes2 with
  | nil => exact (List.map_eq_nil_iff.mp hrecnums.symm).symm
  | cons node nodes1 ih =>
      cases nodes2 with
      | nil => exact absurd hrecnums (List.cons_ne_nil _ _)
      | cons other nodes2 =>
          obtain ⟨hnode, hnodes1⟩ := List.cons_subset.mp hnodes1
          obtain ⟨hother, hnodes2⟩ := List.cons_subset.mp hnodes2
          obtain ⟨hhead, htail⟩ := List.cons.inj hrecnums
          rw [List.inj_on_of_nodup_map hsorted.nodup hnode hother hhead,
            ih hnodes1 hnodes2 htail]

/-- The number of records after the skipped ones that may be stored. -/
def storedLimit (limitCount : Nat) (nodes : List (Key α β)) : Nat :=
  if limitCount = NORECNUM then nodes.length else limitCount

theorem limited_of_sublist {limitCount : Nat} {list : List (Key α β)}
    (hlist : list.Sublist nodes) :
    limited limitCount list = list.take (storedLimit limitCount nodes) := by
  rw [limited, storedLimit]
  split
  · exact (List.take_of_length_le hlist.length_le).symm
  · rfl

/-- The limits are applied before the duplicates are left out: the result is right when
no duplicates are skipped, and none are among the stored records or only they follow. -/
theorem writeResults_right (hlimit : sorter.limitCount ≤ NORECNUM)
    (hblocks : ∀ block ∈ blocks, block.length ≤ NORECNUM)
    (hsorted : SortedNodes index blocks.flatten) (hempty : sorter.output.outPmat = []) :
    (writeResults index sorter blocks).output.outPmat =
        sortedRecords index sorter.limitOffset sorter.limitCount sorter.distinct blocks.flatten ↔
      sorter.distinct = false ∨
        Neighbours.Agrees (sameKey index) blocks.flatten sorter.limitOffset
          (storedLimit sorter.limitCount blocks.flatten) := by
  rw [writeResults_output hlimit hblocks, sortedRecords]
  cases sorter.distinct with
  | false =>
      apply iff_of_true _ (Or.inl rfl)
      rw [putNodes_all, hempty]
      rfl
  | true =>
      have hfresh := @Neighbours.fresh_sublist _ (sameKey index) none blocks.flatten
      have hprevious : previous sorter.output = none := by
        rw [previous, hempty]
        rfl
      rw [putNodes_distinct, hempty, List.nil_append, hprevious, if_pos rfl, hsorted.firsts,
        limited_of_sublist (List.drop_sublist _ _),
        limited_of_sublist ((List.drop_sublist _ _).trans hfresh)]
      constructor
      · intro hsame
        apply Or.inr
        apply Neighbours.agrees_of_window (List.Nodup.of_map _ hsorted.nodup)
        apply hsorted.eq_of_recnums _ _ hsame
        · exact (Neighbours.fresh_sublist.trans
            ((List.take_sublist _ _).trans (List.drop_sublist _ _))).subset
        · exact (((List.take_sublist _ _).trans (List.drop_sublist _ _)).trans hfresh).subset
      · rintro (hdistinct | hagrees)
        · cases hdistinct
        · rw [Neighbours.fresh_window hagrees]

end Writing

/-- One key part of one byte. -/
def byteIndex : IndexDescr Nat where
  keysize := 5
  distinct := false
  hasNulls := true
  isNullKey := fun _ => false
  cmpValues := compare
  keysize_pos := by decide
  keysize_le := by decide
  transCmp := Btree.transCmp_compare

theorem writeResults_right_distinct :
    (writeResults byteIndex ⟨1, 2, true, [], ⟨7, 0⟩⟩
        [[⟨1, 10⟩, ⟨2, 11⟩], [⟨3, 12⟩, ⟨3, 13⟩]]).output.outPmat =
      sortedRecords byteIndex 1 2 true [⟨1, 10⟩, ⟨2, 11⟩, ⟨3, 12⟩, ⟨3, 13⟩] :=
  (@writeResults_right _ _ _ byteIndex ⟨1, 2, true, [], ⟨7, 0⟩⟩
    [[⟨1, 10⟩, ⟨2, 11⟩], [⟨3, 12⟩, ⟨3, 13⟩]] (by decide) (by decide) ⟨by decide, by decide⟩ rfl).mpr (Or.inr (by decide))

/-- The second record is a duplicate that the limit is spent on. -/
theorem not_forall_writeResults_right : ¬ ∀ (index : IndexDescr Nat) (sorter : PmatSorter Nat Nat)
    (blocks : List (List (Key Nat Nat))), sorter.limitCount ≤ NORECNUM →
    (∀ block ∈ blocks, block.length ≤ NORECNUM) → SortedNodes index blocks.flatten →
    sorter.output.outPmat = [] →
    (writeResults index sorter blocks).output.outPmat =
      sortedRecords index sorter.limitOffset sorter.limitCount sorter.distinct blocks.flatten := by
  intro hright
  have hstored := hright byteIndex ⟨0, 2, true, [], ⟨7, 0⟩⟩ [[⟨1, 10⟩, ⟨1, 11⟩, ⟨2, 12⟩]]
    (by decide) (by decide) ⟨by decide, by decide⟩ rfl
  revert hstored
  decide

end Sql602.Sorter
