import Mathlib.Algebra.Group.Nat.Defs
import Mathlib.Logic.Function.Basic
import Mathlib.Data.Int.Notation
import Sql602.Library.Run
import Sql602.Sorter.BtreeSorter

namespace Sql602.Sorter

/-! The sort: bigblocks are sorted and saved as chains of blocks, and the chains are merged. -/

def MAX_EVID : Nat := 1000

def MAX_HIERAR : Nat := 20

def MAX_MERGED : Nat := 300

/-- The smallest space for sorting has four blocks. -/
structure SortSpace where
  keysize : Nat
  bbsize : Nat
  keysize_pos : 0 < keysize
  keysize_le : keysize ≤ BLOCKSIZE - chainLinkSize
  bbsize_ge : 4 * BLOCKSIZE ≤ bbsize

namespace SortSpace

def nodesPerBlock (space : SortSpace) : Nat := (BLOCKSIZE - chainLinkSize) / space.keysize

def bbrecmax (space : SortSpace) : Nat := space.bbsize / space.keysize

/-- The number of frames in the bigblock without that for the result. -/
def bbframes (space : SortSpace) : Nat :=
  min (min (space.bbsize / BLOCKSIZE - 1) (MAX_EVID / 2 - 3)) MAX_MERGED

end SortSpace

/-- What is done with the arrays and with the temporary blocks. -/
inductive Access where
  | chainCount (level : Nat)
  | evid (index : Nat)
  | toplist (entry : Nat)
  | takeBlock (block : Nat)
  | writeBlock (block : Nat)
  | readBlock (block : Nat)
  | freeBlock (block : Nat)
  deriving DecidableEq

/-- The nodes of a block of a chain and the number of the next block, or 0. -/
structure ChainBlock (γ : Type) where
  nodes : List γ
  nextBlock : Nat

/-- `file` are the contents of the swap file by their positions. -/
structure SortState (γ : Type) where
  accesses : List Access
  chainCount : Nat → Nat
  evid : Nat → Nat
  used : List Nat
  file : Nat → ChainBlock γ
  results : List (List γ)

/-- What the sort is made with. `chooseBlock` is the free block that is found when some blocks
are used, and 0 when there is none. -/
structure SortContext (γ : Type) where
  cmpKeys : γ → γ → Ordering
  space : SortSpace
  chooseBlock : List Nat → Nat
  garbage : γ

abbrev SortM (γ : Type) := StateM (SortState γ)

variable {γ : Type}

section Matrix

def access (entry : Access) : SortM γ PUnit :=
  modify fun s => { s with accesses := s.accesses ++ [entry] }

/-- All levels are made empty, and one more. -/
def newChainMatrix (file : Nat → ChainBlock γ) : SortState γ where
  accesses := (List.range (MAX_HIERAR + 1)).map .chainCount
  chainCount := fun _ => 0
  evid := fun _ => 0
  used := []
  file := file
  results := []

def chainCnt (level : Nat) : SortM γ Nat := do
  access (.chainCount level)
  let s ← get
  return s.chainCount level

def addChain (space : SortSpace) (level block : Nat) : SortM γ PUnit := do
  let count ← chainCnt level
  access (.evid (level * space.bbframes + count))
  modify fun s => { s with
    evid := Function.update s.evid (level * space.bbframes + count) block
    chainCount := Function.update s.chainCount level (count + 1) }

def getChain (space : SortSpace) (level num : Nat) : SortM γ Nat := do
  access (.evid (level * space.bbframes + num))
  let s ← get
  return s.evid (level * space.bbframes + num)

def nullLevel (level : Nat) : SortM γ PUnit := do
  access (.chainCount level)
  modify fun s => { s with chainCount := Function.update s.chainCount level 0 }

end Matrix

section Blocks

/-- The position in the file has 32 bits. -/
def filePos (block : Nat) : Nat := block * BLOCKSIZE % 2 ^ 32

/-- The sort does not check that a block was found. -/
def getSwapBlock (context : SortContext γ) : SortM γ Nat := do
  let s ← get
  let block := context.chooseBlock s.used
  if block = 0 then return 0
  access (.takeBlock block)
  modify fun s => { s with used := block :: s.used }
  return block

def saveABlock (contents : ChainBlock γ) (block : Nat) : SortM γ PUnit := do
  access (.writeBlock block)
  modify fun s => { s with file := Function.update s.file (filePos block) contents }

def saveChainBlock (context : SortContext γ) (contents : ChainBlock γ) : SortM γ Nat := do
  let block ← getSwapBlock context
  saveABlock contents block
  return block

/-- Every block is released just after being read. -/
def loadChainBlock (block : Nat) : SortM γ (ChainBlock γ) := do
  access (.readBlock block)
  let s ← get
  access (.freeBlock block)
  modify fun s => { s with used := s.used.erase block }
  return s.file (filePos block)

def writeResultBlock (resultBlock : List γ) : SortM γ PUnit :=
  modify fun s => { s with results := s.results ++ [resultBlock] }

end Blocks

section QuickSort

variable (cmpKeys : γ → γ → Ordering) (garbage : γ)

/-- A node of the bigblock. -/
def nodeAt (nodes : Array γ) (i : Int) : γ := nodes.getD i.toNat garbage

def findMedian (nodes : Array γ) (start stop : Int) : Int :=
  let node := nodeAt garbage nodes
  let median := (start + stop) / 2
  if start + 7 < stop then
    let ma := start + (stop - start + 1) / 4
    let mb := start + (stop - start + 1) / 4 * 3
    let ram := cmpKeys (node ma) (node median)
    let rmb := cmpKeys (node median) (node mb)
    let rab := cmpKeys (node ma) (node mb)
    if ram = .lt then
      if rmb = .gt then if rab = .lt then mb else ma else median
    else
      if rmb = .lt then if rab = .lt then ma else mb else median
  else median

def passLess (nodes : Array γ) (medval : γ) (stop : Int) : Nat → Int → Int
  | 0, i => i
  | fuel + 1, i =>
      if i ≤ stop ∧ cmpKeys (nodeAt garbage nodes i) medval = .lt then
        passLess nodes medval stop fuel (i + 1)
      else i

def passGreater (nodes : Array γ) (medval : γ) (start : Int) : Nat → Int → Int
  | 0, j => j
  | fuel + 1, j =>
      if start ≤ j ∧ cmpKeys medval (nodeAt garbage nodes j) = .lt then
        passGreater nodes medval start fuel (j - 1)
      else j

/-- Nodes before `i` are not greater than the median, and those behind `j` are not less. -/
def divide (medval : γ) (start stop : Int) : Nat → Array γ → Int → Int → Array γ × Int × Int
  | 0, nodes, i, j => (nodes, i, j)
  | fuel + 1, nodes, i, j =>
      let i := passLess cmpKeys garbage nodes medval stop (fuel + 1) i
      let j := passGreater cmpKeys garbage nodes medval start (fuel + 1) j
      if i ≤ j then
        let nodes := if i < j then nodes.swapIfInBounds i.toNat j.toNat else nodes
        if i + 1 ≤ j - 1 then divide medval start stop fuel nodes (i + 1) (j - 1)
        else (nodes, i + 1, j - 1)
      else (nodes, i, j)

def quickSortBigblock : Nat → Int → Int → Array γ → Array γ
  | 0, _, _, nodes => nodes
  | fuel + 1, start, stop, nodes =>
      let medval := nodeAt garbage nodes (findMedian cmpKeys garbage nodes start stop)
      let (nodes, i, j) :=
        divide cmpKeys garbage medval start stop ((stop - start).toNat + 2) nodes start stop
      let nodes := if start < j then quickSortBigblock fuel start j nodes else nodes
      if i < stop then quickSortBigblock fuel i stop nodes else nodes

end QuickSort

section Merging

variable (context : SortContext γ)

/-- The last nodes are saved first, because a block contains the number of the next one. -/
def bigblockToChain (nodes : Array γ) : Nat → Nat → Nat → SortM γ Nat
  | 0, _, currentHead => return currentHead
  | fuel + 1, nodesInBigblock, currentHead =>
      if nodesInBigblock = 0 then return currentHead
      else do
        let rest := nodesInBigblock % context.space.nodesPerBlock
        let currentNodes := if rest = 0 then context.space.nodesPerBlock else rest
        let head ← saveChainBlock context
          ⟨(nodes.extract (nodesInBigblock - currentNodes) nodesInBigblock).toList, currentHead⟩
        bigblockToChain nodes fuel (nodesInBigblock - currentNodes) head

structure ToplistEntry where
  blocknum : Nat
  posInBlock : Nat

/-- The toplist has the references to the top nodes of the merged chains, from MAX to MIN. -/
structure Merge (γ : Type) where
  toplist : List ToplistEntry
  mergedBlocks : Nat → ChainBlock γ
  resultBlock : List γ
  currentResultBlocknum : Nat

def topNode (mergedBlocks : Nat → ChainBlock γ) (entry : ToplistEntry) : γ :=
  (mergedBlocks entry.blocknum).nodes.getD entry.posInBlock context.garbage

/-- The entry goes before the first one whose node is less. -/
def insertEntry (mergedBlocks : Nat → ChainBlock γ) (entry : ToplistEntry)
    (toplist : List ToplistEntry) : List ToplistEntry :=
  let notLess := fun other => context.cmpKeys (topNode context mergedBlocks other)
    (topNode context mergedBlocks entry) ≠ .lt
  toplist.takeWhile notLess ++ entry :: toplist.dropWhile notLess

def initToplist (level : Nat) : Nat → Nat → Merge γ → SortM γ (Merge γ)
  | 0, _, merge => return merge
  | fuel + 1, i, merge => do
      let count ← chainCnt level
      if i < count then
        let head ← getChain context.space level i
        let block ← loadChainBlock head
        let mergedBlocks := Function.update merge.mergedBlocks i block
        access (.toplist merge.toplist.length)
        initToplist level fuel (i + 1) { merge with
          mergedBlocks := mergedBlocks
          toplist := insertEntry context mergedBlocks ⟨i, 0⟩ merge.toplist }
      else return merge

/-- A full result block is written or saved with the number of the block after it. -/
def makeSpace (finalMerge : Bool) (merge : Merge γ) : SortM γ (Merge γ) := do
  if merge.resultBlock.length = context.space.nodesPerBlock then
    if finalMerge then
      writeResultBlock merge.resultBlock
      return { merge with resultBlock := [] }
    else
      let next ← getSwapBlock context
      saveABlock ⟨merge.resultBlock, next⟩ merge.currentResultBlocknum
      return { merge with resultBlock := [], currentResultBlocknum := next }
  else return merge

/-- The next node of the chain of the last entry, whose node has been copied. -/
def nextNode (merge : Merge γ) (others : List ToplistEntry) (top : ToplistEntry) :
    SortM γ (Merge γ) := do
  let block := merge.mergedBlocks top.blocknum
  if block.nodes.length ≤ top.posInBlock + 1 then
    if block.nextBlock = 0 then return { merge with toplist := others }
    else
      let next ← loadChainBlock block.nextBlock
      let mergedBlocks := Function.update merge.mergedBlocks top.blocknum next
      return { merge with
        mergedBlocks := mergedBlocks
        toplist := insertEntry context mergedBlocks { top with posInBlock := 0 } others }
  else
    return { merge with
      toplist := insertEntry context merge.mergedBlocks
        { top with posInBlock := top.posInBlock + 1 } others }

def mergeNodes (finalMerge : Bool) : Nat → Merge γ → SortM γ (Merge γ)
  | 0, merge => return merge
  | fuel + 1, merge =>
      match merge.toplist.getLast? with
      | none => return merge
      | some top => do
          let merge ← makeSpace context finalMerge merge
          access (.toplist (merge.toplist.length - 1))
          let merge := { merge with
            resultBlock := merge.resultBlock ++ [topNode context merge.mergedBlocks top] }
          let merge ← nextNode context merge merge.toplist.dropLast top
          mergeNodes finalMerge fuel merge

/-- The final merge makes no chain. -/
def newResult (finalMerge : Bool) : SortM γ Nat :=
  if finalMerge then return 0 else getSwapBlock context

def saveLastResult (finalMerge : Bool) (merge : Merge γ) : SortM γ PUnit :=
  if finalMerge then writeResultBlock merge.resultBlock
  else saveABlock ⟨merge.resultBlock, 0⟩ merge.currentResultBlocknum

/-- Merges all the chains on a level, `count` being the number of all nodes. -/
def mergeChains (count level : Nat) (finalMerge : Bool) : SortM γ Nat := do
  let merge ← initToplist context level (MAX_MERGED + 1) 0 ⟨[], fun _ => ⟨[], 0⟩, [], 0⟩
  let resultHead ← newResult context finalMerge
  let merge ← mergeNodes context finalMerge (count + 1)
    { merge with currentResultBlocknum := resultHead }
  saveLastResult finalMerge merge
  return resultHead

end Merging

section Sorting

variable (context : SortContext γ)

/-- Stores a chain on a level. A full level is merged, and the result goes to the next one. -/
def storeChain (count : Nat) : Nat → Nat → Nat → SortM γ PUnit
  | 0, _, _ => return
  | fuel + 1, level, chain => do
      let chains ← chainCnt level
      if chains = context.space.bbframes then
        let next ← mergeChains context count level false
        nullLevel level
        addChain context.space level chain
        storeChain count fuel (level + 1) next
      else addChain context.space level chain

/-- The first level from the given one on with room for a chain. -/
def resultLevel : Nat → Nat → SortM γ Nat
  | 0, level => return level
  | fuel + 1, level => do
      let chains ← chainCnt level
      if chains = context.space.bbframes then resultLevel fuel (level + 1) else return level

def totalChains : Nat → Nat → SortM γ Nat
  | 0, _ => return 0
  | fuel + 1, level => do
      let chains ← chainCnt level
      if chains = 0 then return 0
      else
        let above ← totalChains fuel (level + 1)
        return chains + above

def copyChains (level evidLevel : Nat) : Nat → Nat → SortM γ PUnit
  | 0, _ => return
  | fuel + 1, ch => do
      let chains ← chainCnt evidLevel
      if ch < chains then
        let chain ← getChain context.space evidLevel ch
        addChain context.space level chain
        copyChains level evidLevel fuel (ch + 1)

def copyLevels (level : Nat) : Nat → Nat → SortM γ PUnit
  | 0, _ => return
  | fuel + 1, evidLevel => do
      let chains ← chainCnt evidLevel
      if chains = 0 then return
      else
        copyChains context level evidLevel (MAX_MERGED + 1) 0
        copyLevels level fuel (evidLevel + 1)

/-- Puts the chains of all levels on one when they can be merged at once. -/
def optimizeMerge (level : Nat) : SortM γ Bool := do
  let total ← totalChains (MAX_HIERAR + 1) level
  if total ≤ context.space.bbframes then
    copyLevels context level (MAX_HIERAR + 1) (level + 1)
    return true
  else return false

def mergeLevels (count : Nat) : Nat → Nat → SortM γ PUnit
  | 0, _ => return
  | fuel + 1, level => do
      let optimized ← optimizeMerge context level
      if optimized then
        let _ ← mergeChains context count level true
        return
      else
        let next ← mergeChains context count level false
        nullLevel level
        let result ← resultLevel context (MAX_HIERAR + 1) (level + 1)
        addChain context.space result next
        mergeLevels count fuel (level + 1)

/-- Fills, sorts and saves the bigblocks. The sort is finished when it returns TRUE. -/
def saveBigblocks (count : Nat) : Nat → List γ → SortM γ Bool
  | 0, _ => return false
  | fuel + 1, input =>
      let bigblock := input.take context.space.bbrecmax
      if bigblock.isEmpty then return false
      else do
        let nodes := quickSortBigblock context.cmpKeys context.garbage (bigblock.length + 1) 0
          (bigblock.length - 1) bigblock.toArray
        let chains ← chainCnt 0
        if chains = 0 ∧ bigblock.length < context.space.bbrecmax then
          writeResultBlock nodes.toList
          return true
        else
          let chain ← bigblockToChain context nodes (bigblock.length + 1) bigblock.length 0
          storeChain context count (MAX_HIERAR + 1) 0 chain
          saveBigblocks count fuel (input.drop context.space.bbrecmax)

def sortIt (input : List γ) : SortM γ PUnit := do
  let finished ← saveBigblocks context input.length (input.length + 1) input
  if finished then return
  else mergeLevels context input.length (MAX_HIERAR + 1) 0

/-- The sorter is made and used once. -/
def sorted (file : Nat → ChainBlock γ) (input : List γ) : SortState γ :=
  (sortIt context input (newChainMatrix file)).2

end Sorting

end Sql602.Sorter
