import Sql602.Sorter.PmatSorter

namespace Sql602.Sorter

/-! Creating an index of a table with records: the sorted keys are added to a tree. -/

open Btree (Key IndexDescr cmpKeys valueOrder)

def BLOCKSIZE : Nat := 4096

/-- The key is missing when it cannot be computed. -/
structure TableRecord (α : Type) where
  deleted : Bool
  key : Option α

/-- What is on the end of each block of a chain. -/
def chainLinkSize : Nat := 8

def nodesPerBlock {α : Type} (index : IndexDescr α) : Nat :=
  (BLOCKSIZE - chainLinkSize) / index.keysize

/-- `added` are the keys of the tree in their order. An error names the record of the key and
that of the previous one. -/
structure BtreeSorter (α : Type) where
  added : List (Key α Nat)
  keyDuplicity : List (Nat × Nat)

section Filling

variable {α : Type} (index : IndexDescr α)

def sortingNode (recnum : Nat) (record : TableRecord α) : Option (Key α Nat) :=
  if record.deleted then none
  else record.key.bind fun value =>
    if index.hasNulls || !index.isNullKey value then some ⟨value, recnum⟩ else none

/-- The nodes, the number of the next record and the records from it on. -/
def fillBigblock : Nat → Nat → List (TableRecord α) →
    List (Key α Nat) × Nat × List (TableRecord α)
  | _, recnum, [] => ([], recnum, [])
  | 0, recnum, record :: records => ([], recnum, record :: records)
  | count + 1, recnum, record :: records =>
      match sortingNode index recnum record with
      | some node =>
          let (nodes, rest) := fillBigblock count (recnum + 1) records
          (node :: nodes, rest)
      | none => fillBigblock (count + 1) (recnum + 1) records

def fillBigblocks (bbrecmax : Nat) : Nat → Nat → List (TableRecord α) → List (List (Key α Nat))
  | 0, _, _ => []
  | fuel + 1, recnum, records =>
      let (nodes, next, rest) := fillBigblock index bbrecmax recnum records
      if nodes.isEmpty then [] else nodes :: fillBigblocks bbrecmax fuel next rest

/-- Every bigblock but the last is full. -/
def bigblocks (bbrecmax : Nat) (records : List (TableRecord α)) : List (List (Key α Nat)) :=
  fillBigblocks index bbrecmax (records.length + 1) 0 records

end Filling

section Writing

variable {α : Type} (index : IndexDescr α)

/-- The output of the final merging. -/
def outputBlocks {γ : Type} (count : Nat) : List γ → List γ → List (List γ)
  | resultBlock, [] => [resultBlock]
  | resultBlock, node :: nodes =>
      if resultBlock.length = count then resultBlock :: outputBlocks count [node] nodes
      else outputBlocks count (resultBlock ++ [node]) nodes

/-- A single bigblock that is not full is the output itself. -/
def resultBlocks (bbrecmax : Nat) (filled : List (List (Key α Nat)))
    (sorted : List (Key α Nat)) : List (List (Key α Nat)) :=
  match filled with
  | [first] =>
      if first.length < bbrecmax then [sorted] else outputBlocks (nodesPerBlock index) [] sorted
  | _ => outputBlocks (nodesPerBlock index) [] sorted

/-- The last key on the output is that of the same call only. -/
def addNode (state : BtreeSorter α × Option (Key α Nat)) (node : Key α Nat) :
    BtreeSorter α × Option (Key α Nat) :=
  match state.2 with
  | none => ({ state.1 with added := state.1.added ++ [node] }, some node)
  | some last =>
      if !index.distinct || !(cmpKeys index last node).1 then
        ({ state.1 with added := state.1.added ++ [node] }, some node)
      else
        ({ state.1 with
          keyDuplicity := state.1.keyDuplicity ++ [(node.recnum, last.recnum)] }, some node)

def addResult (sorter : BtreeSorter α) (resultBlock : List (Key α Nat)) : BtreeSorter α :=
  (resultBlock.foldl (addNode index) (sorter, none)).1

/-- The nodes of all the bigblocks come out of the sorting in the order `sorted`. -/
def createBtree (bbrecmax : Nat) (records : List (TableRecord α)) (sorted : List (Key α Nat)) :
    BtreeSorter α :=
  (resultBlocks index bbrecmax (bigblocks index bbrecmax records) sorted).foldl
    (addResult index) ⟨[], []⟩

end Writing

/-- The tree has one key for each record that is to be found by the index, and not two keys of
the same value, unless the duplicity is reported. -/
structure UniqueTree {α : Type} (index : IndexDescr α) (records : List (TableRecord α))
    (added : List (Key α Nat)) : Prop where
  unique : added.Pairwise fun key1 key2 => valueOrder index key1 key2 ≠ .eq
  complete : ∀ recnum value, records[recnum]? = some ⟨false, some value⟩ →
    index.isNullKey value = false →
      added.filter (fun key => key.recnum = recnum) = [⟨value, recnum⟩]

def UniqueOrReported {α : Type} (index : IndexDescr α) (records : List (TableRecord α))
    (sorter : BtreeSorter α) : Prop :=
  sorter.keyDuplicity ≠ [] ∨ UniqueTree index records sorter.added

/-- The nodes of the bigblocks in ascending order. -/
structure SortedOutput {α : Type} (index : IndexDescr α) (filled : List (List (Key α Nat)))
    (sorted : List (Key α Nat)) : Prop where
  perm : sorted.Perm filled.flatten
  ascending : sorted.Pairwise fun key1 key2 => valueOrder index key1 key2 ≠ .gt

variable {α : Type} {index : IndexDescr α}

section Filling

variable {records : List (TableRecord α)} {recnum count bbrecmax : Nat}

def nodesFrom (index : IndexDescr α) : Nat → List (TableRecord α) → List (Key α Nat)
  | _, [] => []
  | recnum, record :: records =>
      (sortingNode index recnum record).toList ++ nodesFrom index (recnum + 1) records

theorem fillBigblock_nodes : nodesFrom index recnum records =
    (fillBigblock index count recnum records).1 ++
      nodesFrom index (fillBigblock index count recnum records).2.1
        (fillBigblock index count recnum records).2.2 := by
  induction records generalizing recnum count with
  | nil => rw [fillBigblock]; rfl
  | cons record records ih =>
      cases count with
      | zero => rfl
      | succ count =>
          rw [fillBigblock, nodesFrom]
          cases sortingNode index recnum record with
          | none => exact ih
          | some node =>
              have hrest := @ih (recnum + 1) count
              exact congrArg (node :: ·) hrest

theorem fillBigblock_length : (fillBigblock index count recnum records).1.length +
    (fillBigblock index count recnum records).2.2.length ≤ records.length := by
  induction records generalizing recnum count with
  | nil => rw [fillBigblock]; rfl
  | cons record records ih =>
      cases count with
      | zero => exact Nat.le_of_eq (Nat.zero_add _)
      | succ count =>
          rw [fillBigblock]
          cases sortingNode index recnum record with
          | none => exact Nat.le_succ_of_le ih
          | some node =>
              have hrest := @ih (recnum + 1) count
              simp only [List.length_cons]
              omega

/-- A bigblock without nodes is behind the last record. -/
theorem fillBigblock_empty (hempty : (fillBigblock index (count + 1) recnum records).1 = []) :
    (fillBigblock index (count + 1) recnum records).2.2 = [] := by
  induction records generalizing recnum with
  | nil => rw [fillBigblock]
  | cons record records ih =>
      rw [fillBigblock] at hempty ⊢
      cases hnode : sortingNode index recnum record with
      | none =>
          rw [hnode] at hempty
          exact ih hempty
      | some node =>
          rw [hnode] at hempty
          cases hempty

theorem fillBigblocks_nodes (hcount : 0 < bbrecmax) {fuel : Nat} (hfuel : records.length < fuel) :
    (fillBigblocks index bbrecmax fuel recnum records).flatten = nodesFrom index recnum records := by
  induction fuel generalizing recnum records with
  | zero => cases hfuel
  | succ fuel ih =>
      obtain ⟨count, rfl⟩ := Nat.exists_eq_add_of_le' hcount
      have hnodes := @fillBigblock_nodes _ index records recnum (count + 1)
      have hlength := @fillBigblock_length _ index records recnum (count + 1)
      have hrest := @fillBigblock_empty _ index records recnum count
      rw [fillBigblocks, hnodes]
      generalize fillBigblock index (count + 1) recnum records = filled at *
      obtain ⟨nodes, next, rest⟩ := filled
      dsimp only at hlength hrest ⊢
      cases nodes with
      | nil =>
          rw [hrest rfl]
          rfl
      | cons node nodes =>
          rw [List.length_cons] at hlength
          rw [List.isEmpty_cons, if_neg Bool.false_ne_true, List.flatten_cons, ih (by omega)]

theorem bigblocks_nodes (hcount : 0 < bbrecmax) :
    (bigblocks index bbrecmax records).flatten = nodesFrom index 0 records :=
  fillBigblocks_nodes hcount (Nat.lt_succ_self _)

theorem sortingNode_recnum {record : TableRecord α} {node : Key α Nat}
    (hnode : sortingNode index recnum record = some node) : node.recnum = recnum := by
  rw [sortingNode] at hnode
  split at hnode
  · cases hnode
  · obtain ⟨value, -, hvalue⟩ := Option.bind_eq_some_iff.mp hnode
    split at hvalue
    · cases hvalue
      rfl
    · cases hvalue

theorem recnum_le_of_mem {key : Key α Nat} (hkey : key ∈ nodesFrom index recnum records) :
    recnum ≤ key.recnum := by
  induction records generalizing recnum with
  | nil => cases hkey
  | cons record records ih =>
      obtain hfirst | hrest := List.mem_append.mp hkey
      · exact Nat.le_of_eq (sortingNode_recnum (Option.mem_toList.mp hfirst)).symm
      · exact Nat.le_of_succ_le (ih hrest)

/-- There is one node for each record with a key. -/
theorem nodesFrom_filter {i : Nat} {value : α} (hrecord : records[i]? = some ⟨false, some value⟩)
    (hnull : index.isNullKey value = false) :
    (nodesFrom index recnum records).filter (fun key => key.recnum = recnum + i) =
      [⟨value, recnum + i⟩] := by
  induction records generalizing recnum i with
  | nil => cases hrecord
  | cons record records ih =>
      rw [nodesFrom, List.filter_append]
      cases i with
      | zero =>
          obtain rfl : record = ⟨false, some value⟩ := Option.some.inj hrecord
          have hnode : sortingNode index recnum ⟨false, some value⟩ = some ⟨value, recnum⟩ := by
            simp [sortingNode, hnull]
          have hrest : (nodesFrom index (recnum + 1) records).filter
              (fun key => key.recnum = recnum + 0) = [] := by
            apply List.filter_eq_nil_iff.mpr
            intro key hkey heq
            have hle := recnum_le_of_mem hkey
            have hsame := of_decide_eq_true heq
            omega
          rw [hnode, hrest]
          simp
      | succ i =>
          have hfirst : (sortingNode index recnum record).toList.filter
              (fun key => key.recnum = recnum + (i + 1)) = [] := by
            apply List.filter_eq_nil_iff.mpr
            intro key hkey heq
            have hrecnum := sortingNode_recnum (Option.mem_toList.mp hkey)
            have hsame := of_decide_eq_true heq
            omega
          have hnext : recnum + (i + 1) = recnum + 1 + i := by omega
          rw [hfirst, hnext, List.nil_append]
          exact ih hrecord

end Filling

section Writing

open Neighbours

variable {sorter : BtreeSorter α} {last : Option (Key α Nat)} {block sorted : List (Key α Nat)}
  {blocks : List (List (Key α Nat))}

theorem outputBlocks_flatten {count : Nat} :
    (outputBlocks count block sorted).flatten = block ++ sorted := by
  induction sorted generalizing block with
  | nil => rw [outputBlocks, List.flatten_singleton, List.append_nil]
  | cons node nodes ih =>
      rw [outputBlocks]
      split
      · rw [List.flatten_cons, ih, List.singleton_append]
      · rw [ih, List.append_assoc, List.singleton_append]

theorem resultBlocks_flatten {bbrecmax : Nat} {filled : List (List (Key α Nat))} :
    (resultBlocks index bbrecmax filled sorted).flatten = sorted := by
  rcases filled with _ | ⟨first, _ | ⟨second, filled⟩⟩
  · exact outputBlocks_flatten
  · rw [resultBlocks]
    split
    · exact List.flatten_singleton
    · exact outputBlocks_flatten
  · exact outputBlocks_flatten

theorem addNode_distinct (hdistinct : index.distinct = true) (node : Key α Nat) :
    addNode index (sorter, last) node =
      (if last.any (sameKey index · node) then
        { sorter with keyDuplicity := sorter.keyDuplicity ++
            (last.map fun last => (node.recnum, last.recnum)).toList }
      else { sorter with added := sorter.added ++ [node] }, some node) := by
  rw [addNode]
  cases last with
  | none => rfl
  | some last =>
      dsimp only
      rw [hdistinct, Option.any_some, sameKey]
      cases (cmpKeys index last node).1 <;> rfl

theorem addNodes_added (hdistinct : index.distinct = true) :
    (block.foldl (addNode index) (sorter, last)).1.added =
      sorter.added ++ fresh (sameKey index) last block := by
  induction block generalizing sorter last with
  | nil => exact (List.append_nil _).symm
  | cons node block ih =>
      rw [List.foldl_cons, addNode_distinct hdistinct, ih, fresh]
      split
      · rfl
      · rw [List.append_assoc]
        rfl

/-- Every node is added or reported. -/
theorem addNodes_length (hdistinct : index.distinct = true) :
    (block.foldl (addNode index) (sorter, last)).1.keyDuplicity.length +
        (fresh (sameKey index) last block).length =
      sorter.keyDuplicity.length + block.length := by
  induction block generalizing sorter last with
  | nil => rfl
  | cons node block ih =>
      rw [List.foldl_cons, addNode_distinct hdistinct, fresh, List.length_cons]
      split
      · next hrepeats =>
          cases last with
          | none => cases hrepeats
          | some last =>
              rw [ih, List.length_append]
              simp only [Option.map_some, Option.toList_some, List.length_singleton]
              omega
      · rw [List.length_cons, ← Nat.add_assoc, ih, Nat.add_assoc]

theorem addResult_added (hdistinct : index.distinct = true) :
    (addResult index sorter block).added =
      sorter.added ++ fresh (sameKey index) none block := addNodes_added hdistinct

theorem addResult_keyDuplicity (hdistinct : index.distinct = true) :
    (addResult index sorter block).keyDuplicity = [] ↔
      sorter.keyDuplicity = [] ∧ Apart (sameKey index) block := by
  have hlength := @addNodes_length _ index sorter none block hdistinct
  have hfresh := @fresh_sublist _ (sameKey index) none block
  rw [← List.length_eq_zero_iff, addResult]
  constructor
  · intro hempty
    rw [hempty] at hlength
    have hle := hfresh.length_le
    refine ⟨List.length_eq_zero_iff.mp (by omega), ?_⟩
    exact (@apart_of_fresh _ _ none _ (hfresh.eq_of_length (by omega))).1
  · rintro ⟨hempty, hapart⟩
    rw [fresh_of_apart hapart fun p y h => (by cases h), hempty, List.length_nil] at hlength
    omega

theorem addResults_keyDuplicity (hdistinct : index.distinct = true) :
    (blocks.foldl (addResult index) sorter).keyDuplicity = [] ↔
      sorter.keyDuplicity = [] ∧ ∀ block ∈ blocks, Apart (sameKey index) block := by
  induction blocks generalizing sorter with
  | nil => exact (and_iff_left fun block h => absurd h List.not_mem_nil).symm
  | cons block blocks ih =>
      rw [List.foldl_cons, ih, addResult_keyDuplicity hdistinct, List.forall_mem_cons, and_assoc]

/-- Without duplicities inside the blocks all their nodes are added. -/
theorem addResults_added (hdistinct : index.distinct = true)
    (hapart : ∀ block ∈ blocks, Apart (sameKey index) block) :
    (blocks.foldl (addResult index) sorter).added = sorter.added ++ blocks.flatten := by
  induction blocks generalizing sorter with
  | nil => exact (List.append_nil _).symm
  | cons block blocks ih =>
      obtain ⟨hblock, hblocks⟩ := List.forall_mem_cons.mp hapart
      rw [List.foldl_cons, ih hblocks, addResult_added hdistinct,
        fresh_of_apart hblock fun p y h => (by cases h), List.flatten_cons, List.append_assoc]

theorem apart_of_pairwise (hunique : sorted.Pairwise fun key1 key2 =>
    valueOrder index key1 key2 ≠ .eq) : Apart (sameKey index) sorted := by
  apply hunique.isChain.imp
  intro key1 key2 hne
  rw [sameKey_eq]
  exact beq_eq_false_iff_ne.mpr hne

theorem pairwise_of_apart (hascending : sorted.Pairwise fun key1 key2 =>
    valueOrder index key1 key2 ≠ .gt) (hapart : Apart (sameKey index) sorted) :
    sorted.Pairwise fun key1 key2 => valueOrder index key1 key2 ≠ .eq := by
  rw [sameKey_eq] at hapart
  apply (pairwise_lt_of_apart hascending hapart).imp
  intro key1 key2 hlt heq
  rw [hlt] at heq
  cases heq

end Writing

theorem thousand_pos : 0 < 1000 := by decide

/-- A text of which four keys fit in a block. -/
def textIndex : IndexDescr Nat where
  keysize := 1000
  distinct := true
  hasNulls := false
  isNullKey := fun value => value == 0
  cmpValues := compare
  keysize_pos := thousand_pos
  keysize_le := by decide
  transCmp := Btree.transCmp_compare

/-- More records than a bigblock of four blocks has room for. The key 4 is the last one of the
first result block and the first one of the second. -/
def crossingRecords : List (TableRecord Nat) :=
  [1, 2, 3, 4, 4, 5, 6, 7, 8, 9, 10, 11, 12, 13, 14, 15, 16].map fun value => ⟨false, some value⟩

def crossingKeys : List (Key Nat Nat) :=
  (List.range 17).map fun recnum => ⟨if recnum < 4 then recnum + 1 else recnum, recnum⟩

end Sql602.Sorter
