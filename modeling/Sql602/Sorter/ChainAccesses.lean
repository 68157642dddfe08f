import Mathlib.Data.List.Infix
import Sql602.Sorter.ChainSorter

namespace Sql602.Sorter

/-! What a right sort does, and the accesses that every sort makes. -/

open Programs

namespace Access

def InArray : Access → Prop
  | chainCount level => level < MAX_HIERAR
  | evid index => index < MAX_EVID
  | toplist entry => entry < MAX_MERGED
  | takeBlock _ => True
  | writeBlock _ => True
  | readBlock _ => True
  | freeBlock _ => True

end Access

/-- The temporary blocks that are taken, and those of them that have been written. -/
structure BlockUse where
  taken : List Nat
  written : List Nat

/-- There is no result when a block is taken twice, is freed but not taken, is written but not
taken or is read but not written. -/
def useBlock (use : BlockUse) : Access → Option BlockUse
  | .takeBlock block =>
      if block ∈ use.taken then none else some { use with taken := block :: use.taken }
  | .writeBlock block =>
      if block ∈ use.taken then some { use with written := block :: use.written } else none
  | .readBlock block => if block ∈ use.written then some use else none
  | .freeBlock block =>
      if block ∈ use.taken then
        some ⟨use.taken.erase block, use.written.filter fun other => other ≠ block⟩
      else none
  | _ => some use

/-- Every block that is taken is freed once. -/
def BlocksRight (accesses : List Access) : Prop :=
  (accesses.foldlM useBlock ⟨[], []⟩).map BlockUse.taken = some []

structure SortRight {γ : Type} (cmpKeys : γ → γ → Ordering) (input : List γ)
    (s : SortState γ) : Prop where
  perm : s.results.flatten.Perm input
  ascending : s.results.flatten.Pairwise fun key1 key2 => cmpKeys key1 key2 ≠ .gt
  blocks : BlocksRight s.accesses
  arrays : ∀ entry ∈ s.accesses, entry.InArray

section Accesses

variable {γ : Type}

/-- Accesses are added only. -/
def MoreAccesses (s t : SortState γ) : Prop := s.accesses <+: t.accesses

instance instReflMoreAccesses : Std.Refl (MoreAccesses : SortState γ → SortState γ → Prop) :=
  ⟨fun _ => List.prefix_rfl⟩

instance instTransMoreAccesses : IsTrans (SortState γ) MoreAccesses :=
  ⟨fun _ _ _ first last => first.trans last⟩

theorem keeps_same {f : SortState γ → SortState γ} (h : ∀ s, (f s).accesses = s.accesses) :
    Keeps MoreAccesses (modify f : SortM γ PUnit) := by
  apply keeps_modify
  intro s
  rw [MoreAccesses, h s]

theorem keeps_access (entry : Access) : Keeps MoreAccesses (access entry : SortM γ PUnit) :=
  keeps_modify fun _ => List.prefix_append _ _

theorem keeps_chainCnt (level : Nat) : Keeps MoreAccesses (chainCnt level : SortM γ Nat) :=
  keeps_bind (keeps_access _) fun _ => keeps_bind keeps_get fun _ => keeps_pure _

theorem keeps_addChain (space : SortSpace) (level block : Nat) :
    Keeps MoreAccesses (addChain space level block : SortM γ PUnit) :=
  keeps_bind (keeps_chainCnt level) fun _ => keeps_bind (keeps_access _) fun _ =>
    keeps_same fun _ => rfl

theorem keeps_getChain (space : SortSpace) (level num : Nat) :
    Keeps MoreAccesses (getChain space level num : SortM γ Nat) :=
  keeps_bind (keeps_access _) fun _ => keeps_bind keeps_get fun _ => keeps_pure _

theorem keeps_nullLevel (level : Nat) : Keeps MoreAccesses (nullLevel level : SortM γ PUnit) :=
  keeps_bind (keeps_access _) fun _ => keeps_same fun _ => rfl

variable (context : SortContext γ)

theorem keeps_getSwapBlock : Keeps MoreAccesses (getSwapBlock context) := by
  rw [getSwapBlock]
  apply keeps_bind keeps_get
  intro s
  apply keeps_ite (keeps_pure _)
  exact keeps_bind (keeps_access _) fun _ => keeps_bind (keeps_same fun _ => rfl) fun _ =>
    keeps_pure _

theorem keeps_saveABlock (contents : ChainBlock γ) (block : Nat) :
    Keeps MoreAccesses (saveABlock contents block) :=
  keeps_bind (keeps_access _) fun _ => keeps_same fun _ => rfl

theorem keeps_saveChainBlock (contents : ChainBlock γ) :
    Keeps MoreAccesses (saveChainBlock context contents) :=
  keeps_bind (keeps_getSwapBlock context) fun _ =>
    keeps_bind (keeps_saveABlock contents _) fun _ => keeps_pure _

theorem keeps_loadChainBlock (block : Nat) :
    Keeps MoreAccesses (loadChainBlock block : SortM γ (ChainBlock γ)) :=
  keeps_bind (keeps_access _) fun _ => keeps_bind keeps_get fun _ =>
    keeps_bind (keeps_access _) fun _ => keeps_bind (keeps_same fun _ => rfl) fun _ => keeps_pure _

theorem keeps_writeResultBlock (resultBlock : List γ) :
    Keeps MoreAccesses (writeResultBlock resultBlock) := keeps_same fun _ => rfl

theorem keeps_bigblockToChain (nodes : Array γ) (fuel count head : Nat) :
    Keeps MoreAccesses (bigblockToChain context nodes fuel count head) := by
  induction fuel generalizing count head with
  | zero => exact keeps_pure _
  | succ fuel ih =>
      rw [bigblockToChain]
      apply keeps_ite (keeps_pure _)
      exact keeps_bind (keeps_saveChainBlock context _) fun _ => ih _ _

theorem keeps_initToplist (level fuel i : Nat) (merge : Merge γ) :
    Keeps MoreAccesses (initToplist context level fuel i merge) := by
  induction fuel generalizing i merge with
  | zero => exact keeps_pure _
  | succ fuel ih =>
      rw [initToplist]
      apply keeps_bind (keeps_chainCnt level)
      intro count
      refine keeps_ite ?_ (keeps_pure _)
      exact keeps_bind (keeps_getChain _ _ _) fun _ => keeps_bind (keeps_loadChainBlock _) fun _ =>
        keeps_bind (keeps_access _) fun _ => ih _ _

theorem keeps_makeSpace (finalMerge : Bool) (merge : Merge γ) :
    Keeps MoreAccesses (makeSpace context finalMerge merge) := by
  rw [makeSpace]
  refine keeps_ite ?_ (keeps_pure _)
  apply keeps_ite
  · exact keeps_bind (keeps_writeResultBlock _) fun _ => keeps_pure _
  · exact keeps_bind (keeps_getSwapBlock context) fun _ =>
      keeps_bind (keeps_saveABlock _ _) fun _ => keeps_pure _

theorem keeps_nextNode (merge : Merge γ) (others : List ToplistEntry) (top : ToplistEntry) :
    Keeps MoreAccesses (nextNode context merge others top) := by
  rw [nextNode]
  refine keeps_ite ?_ (keeps_pure _)
  apply keeps_ite (keeps_pure _)
  exact keeps_bind (keeps_loadChainBlock _) fun _ => keeps_pure _

theorem keeps_mergeNodes (finalMerge : Bool) (fuel : Nat) (merge : Merge γ) :
    Keeps MoreAccesses (mergeNodes context finalMerge fuel merge) := by
  induction fuel generalizing merge with
  | zero => exact keeps_pure _
  | succ fuel ih =>
      rw [mergeNodes]
      split
      · exact keeps_pure _
      · exact keeps_bind (keeps_makeSpace context _ _) fun _ => keeps_bind (keeps_access _) fun _ =>
          keeps_bind (keeps_nextNode context _ _ _) fun _ => ih _

theorem keeps_mergeChains (count level : Nat) (finalMerge : Bool) :
    Keeps MoreAccesses (mergeChains context count level finalMerge) := by
  apply keeps_bind (keeps_initToplist context _ _ _ _)
  intro merge
  apply keeps_bind (keeps_ite (keeps_pure _) (keeps_getSwapBlock context) : Keeps _ (newResult _ _))
  intro resultHead
  apply keeps_bind (keeps_mergeNodes context _ _ _)
  intro merge
  apply keeps_bind
    (keeps_ite (keeps_writeResultBlock _) (keeps_saveABlock _ _) : Keeps _ (saveLastResult _ _))
  exact fun _ => keeps_pure _

theorem keeps_storeChain (count fuel level chain : Nat) :
    Keeps MoreAccesses (storeChain context count fuel level chain) := by
  induction fuel generalizing level chain with
  | zero => exact keeps_pure _
  | succ fuel ih =>
      rw [storeChain]
      apply keeps_bind (keeps_chainCnt level)
      intro chains
      refine keeps_ite ?_ (keeps_addChain _ _ _)
      exact keeps_bind (keeps_mergeChains context _ _ _) fun _ => keeps_bind (keeps_nullLevel _)
        fun _ => keeps_bind (keeps_addChain _ _ _) fun _ => ih _ _

theorem keeps_resultLevel (fuel level : Nat) :
    Keeps MoreAccesses (resultLevel context fuel level) := by
  induction fuel generalizing level with
  | zero => exact keeps_pure _
  | succ fuel ih =>
      rw [resultLevel]
      exact keeps_bind (keeps_chainCnt level) fun _ => keeps_ite (ih _) (keeps_pure _)

theorem keeps_totalChains (fuel level : Nat) :
    Keeps MoreAccesses (totalChains fuel level : SortM γ Nat) := by
  induction fuel generalizing level with
  | zero => exact keeps_pure _
  | succ fuel ih =>
      rw [totalChains]
      apply keeps_bind (keeps_chainCnt level)
      intro chains
      apply keeps_ite (keeps_pure _)
      exact keeps_bind (ih _) fun _ => keeps_pure _

theorem keeps_copyChains (level evidLevel fuel ch : Nat) :
    Keeps MoreAccesses (copyChains context level evidLevel fuel ch) := by
  induction fuel generalizing ch with
  | zero => exact keeps_pure _
  | succ fuel ih =>
      rw [copyChains]
      apply keeps_bind (keeps_chainCnt evidLevel)
      intro chains
      refine keeps_ite ?_ (keeps_pure _)
      exact keeps_bind (keeps_getChain _ _ _) fun _ => keeps_bind (keeps_addChain _ _ _) fun _ =>
        ih _

theorem keeps_copyLevels (level fuel evidLevel : Nat) :
    Keeps MoreAccesses (copyLevels context level fuel evidLevel) := by
  induction fuel generalizing evidLevel with
  | zero => exact keeps_pure _
  | succ fuel ih =>
      rw [copyLevels]
      apply keeps_bind (keeps_chainCnt evidLevel)
      intro chains
      apply keeps_ite (keeps_pure _)
      exact keeps_bind (keeps_copyChains context _ _ _ _) fun _ => ih _

theorem keeps_optimizeMerge (level : Nat) : Keeps MoreAccesses (optimizeMerge context level) := by
  apply keeps_bind (keeps_totalChains _ _)
  intro total
  refine keeps_ite ?_ (keeps_pure _)
  exact keeps_bind (keeps_copyLevels context _ _ _) fun _ => keeps_pure _

theorem keeps_mergeLevels (count fuel level : Nat) :
    Keeps MoreAccesses (mergeLevels context count fuel level) := by
  induction fuel generalizing level with
  | zero => exact keeps_pure _
  | succ fuel ih =>
      rw [mergeLevels]
      apply keeps_bind (keeps_optimizeMerge context level)
      intro optimized
      apply keeps_ite
      · exact keeps_bind (keeps_mergeChains context _ _ _) fun _ => keeps_pure _
      · exact keeps_bind (keeps_mergeChains context _ _ _) fun _ =>
          keeps_bind (keeps_nullLevel _) fun _ => keeps_bind (keeps_resultLevel context _ _)
            fun _ => keeps_bind (keeps_addChain _ _ _) fun _ => ih _

theorem keeps_saveBigblocks (count fuel : Nat) (input : List γ) :
    Keeps MoreAccesses (saveBigblocks context count fuel input) := by
  induction fuel generalizing input with
  | zero => exact keeps_pure _
  | succ fuel ih =>
      rw [saveBigblocks]
      apply keeps_ite (keeps_pure _)
      apply keeps_bind (keeps_chainCnt 0)
      intro chains
      apply keeps_ite
      · exact keeps_bind (keeps_writeResultBlock _) fun _ => keeps_pure _
      · exact keeps_bind (keeps_bigblockToChain context _ _ _ _) fun _ =>
          keeps_bind (keeps_storeChain context _ _ _ _) fun _ => ih _

theorem keeps_sortIt (input : List γ) : Keeps MoreAccesses (sortIt context input) := by
  apply keeps_bind (keeps_saveBigblocks context _ _ _)
  intro finished
  exact keeps_ite (keeps_pure _) (keeps_mergeLevels context _ _ _)

/-- The accesses of the constructor are among those of every sort. -/
theorem newChainMatrix_accesses {file : Nat → ChainBlock γ} {input : List γ} {level : Nat}
    (hlevel : level ≤ MAX_HIERAR) :
    .chainCount level ∈ (sorted context file input).accesses := by
  have hmore := (keeps_sortIt context input).related (newChainMatrix file)
  apply hmore.subset
  exact List.mem_map_of_mem (List.mem_range.mpr (Nat.lt_succ_of_le hlevel))

end Accesses

/-- The constructor of the matrix makes one level empty that it does not have. -/
theorem sorted_right {γ : Type} (context : SortContext γ) (file : Nat → ChainBlock γ)
    (input : List γ) : ¬ SortRight context.cmpKeys input (sorted context file input) := by
  intro hright
  have haccess := @newChainMatrix_accesses _ context file input MAX_HIERAR (Nat.le_refl _)
  exact Nat.lt_irrefl _ (hright.arrays _ haccess)

/-- The smallest space for keys of four bytes. -/
def smallContext : SortContext Nat where
  cmpKeys := compare
  space := ⟨4, 4 * BLOCKSIZE, by decide, by decide, by decide⟩
  chooseBlock := fun used => used.foldr max 0 + 1
  garbage := 0

/-- The table is empty. -/
theorem not_forall_sorted_right : ¬ ∀ (context : SortContext Nat) (file : Nat → ChainBlock Nat)
    (input : List Nat), SortRight context.cmpKeys input (sorted context file input) := by
  intro hall
  have harrays := (hall smallContext (fun _ => ⟨[], 0⟩) []).arrays
  have haccess : .chainCount MAX_HIERAR ∈ (sorted smallContext (fun _ => ⟨[], 0⟩) []).accesses := by
    decide
  exact Nat.lt_irrefl _ (harrays _ haccess)

end Sql602.Sorter
