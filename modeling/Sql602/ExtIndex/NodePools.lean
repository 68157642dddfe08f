import Mathlib.Logic.Function.Basic
import Sql602.Library.Run

namespace Sql602.ExtIndex

/-! The nodes of an external index file. A pool block has one bit for each of the blocks
from itself on; the bit of a free node is set. The file has a header before the block
with number 0. -/

def cbClusterSize : Nat := 4096
def poolNodes : Nat := 8 * cbClusterSize
def poolWords : Nat := cbClusterSize / 4
def CB_NODE_CACHE_SIZE : Nat := 40
def COUNTER_NODE_NUM : Nat := 4

abbrev Pool := Nat → Bool

/-- Pools that have not been written are zeros; a read behind the end of the file fails. -/
structure PoolFile where
  blocks : Nat
  pools : Nat → Pool

def PoolFile.containsPool (file : PoolFile) (poolNumber : Nat) : Bool :=
  poolNumber * poolNodes + 2 ≤ file.blocks

/-- The node cache has its last node first. -/
structure IndexFile where
  file : PoolFile
  blockCount : Nat
  pool : Pool
  loadedPool : Option Nat
  searchPosition : Nat
  nodeCache : List Nat

/-- The roots and the counter are preallocated in the first pool, block 0 in every pool. -/
def freshPool (poolNumber : Nat) : Pool :=
  fun bit => if poolNumber = 0 then decide (COUNTER_NODE_NUM < bit) else decide (0 < bit)

structure Filling where
  pool : Pool
  nodeCache : List Nat
  maxAlloc : Nat
  anyAllocation : Bool

def takeBit (base bit : Nat) (filling : Filling) : Filling :=
  if filling.pool bit then
    { pool := Function.update filling.pool bit false
      nodeCache := (base + bit) :: filling.nodeCache
      maxAlloc := if base + bit > filling.maxAlloc then base + bit else filling.maxAlloc
      anyAllocation := true }
  else filling

def fillWord (base word : Nat) : Nat → Nat → Filling → Filling
  | 0, _, filling => filling
  | fuel + 1, subpos, filling =>
      if filling.nodeCache.length < CB_NODE_CACHE_SIZE - 5 then
        fillWord base word fuel (subpos + 1) (takeBit base (32 * word + subpos) filling)
      else filling

def wordFree (pool : Pool) (word : Nat) : Bool :=
  (List.range 32).any fun subpos => pool (32 * word + subpos)

def nextWord (word : Nat) : Nat := if word + 1 ≥ poolWords then 0 else word + 1

/-- The cycle in the pool: it ends with a full cache or at the word where it started. -/
def fillPool (base start : Nat) : Nat → Nat → Filling → Nat × Filling
  | 0, word, filling => (word, filling)
  | fuel + 1, word, filling =>
      let filled := if wordFree filling.pool word then fillWord base word 32 0 filling else filling
      if wordFree filling.pool word && decide (CB_NODE_CACHE_SIZE - 5 ≤ filled.nodeCache.length)
      then (word, filled)
      else if nextWord word = start then (nextWord word, filled)
      else fillPool base start fuel (nextWord word) filled

namespace IndexFile

def readPool (index : IndexFile) (poolNumber : Nat) : IndexFile :=
  { index with pool := index.file.pools poolNumber, loadedPool := some poolNumber }

def writePool (index : IndexFile) : IndexFile :=
  match index.loadedPool with
  | none => index
  | some poolNumber =>
      { index with
        file :=
          { blocks := max index.file.blocks (poolNumber * poolNodes + 2)
            pools := Function.update index.file.pools poolNumber index.pool } }

def nextPool (index : IndexFile) : Nat :=
  match index.loadedPool with
  | none => 0
  | some poolNumber => poolNumber + 1

/-- A pool that cannot be read is taken for a new one. -/
def loadNextPool (fails : Nat → Bool) (index : IndexFile) : IndexFile :=
  let poolNumber := index.nextPool
  let loaded :=
    if index.file.containsPool poolNumber && !fails poolNumber then index.readPool poolNumber
    else writePool { index with pool := freshPool poolNumber, loadedPool := some poolNumber }
  { loaded with searchPosition := 0 }

def fillFromPool (index : IndexFile) (maxAlloc : Nat) : IndexFile × Nat :=
  let base := index.loadedPool.getD 0 * poolNodes
  let (word, filling) :=
    fillPool base index.searchPosition poolWords index.searchPosition
      ⟨index.pool, index.nodeCache, maxAlloc, false⟩
  let filled :=
    { index with pool := filling.pool, nodeCache := filling.nodeCache, searchPosition := word }
  (if filling.anyAllocation then filled.writePool else filled, filling.maxAlloc)

/-- The cycle on pools, which starts with the loaded one. -/
def refill (fails : Nat → Bool) : Nat → Bool → IndexFile → Nat → IndexFile × Nat
  | 0, _, index, maxAlloc => (index, maxAlloc)
  | fuel + 1, goToNextPool, index, maxAlloc =>
      let loaded :=
        if index.loadedPool.isNone || goToNextPool then index.loadNextPool fails
        else if index.searchPosition ≥ poolWords then { index with searchPosition := 0 }
        else index
      let (filled, maxAlloc) := loaded.fillFromPool maxAlloc
      if filled.nodeCache.isEmpty then refill fails fuel true filled maxAlloc
      else (filled, maxAlloc)

def containBlock (index : IndexFile) (number : Nat) : IndexFile :=
  if number + 1 ≥ index.blockCount then
    let blockCount := 20 * ((number + 2) / 20 + 1)
    { index with blockCount, file := { index.file with blocks := blockCount } }
  else index

/-- `fails` says of which pools the read in this call fails. -/
def allocCbnode (index : IndexFile) (fails : Nat → Bool) : Option Nat × IndexFile :=
  let index :=
    if index.nodeCache.isEmpty then
      let (filled, maxAlloc) := index.refill fails (index.file.blocks + 2) false 0
      filled.containBlock maxAlloc
    else index
  match index.nodeCache with
  | [] => (none, index)
  | number :: rest => (some number, { index with nodeCache := rest })

/-- The freed nodes move down the search position, which limits the growth of the file. -/
def saveToCurrentPool (index : IndexFile) : IndexFile :=
  let mine := index.nodeCache.filter fun number => index.loadedPool == some (number / poolNodes)
  writePool
    { index with
      pool := mine.foldr (fun number pool => Function.update pool (number % poolNodes) true)
        index.pool
      searchPosition := mine.foldr
        (fun number position =>
          if number % poolNodes / 32 < position then number % poolNodes / 32 else position)
        index.searchPosition
      nodeCache := index.nodeCache.filter fun number =>
        index.loadedPool != some (number / poolNodes) }

/-- The pool of the first node in the cache. -/
def firstPool (index : IndexFile) : Nat := index.nodeCache.getLastD 0 / poolNodes

def push (index : IndexFile) (number : Nat) : IndexFile :=
  { index with nodeCache := number :: index.nodeCache }

/-- A failed read of a pool leaves other contents in the memory of the pool, and the node
is lost. -/
def freeCbnode (index : IndexFile) (number : Nat) (failed : Option Pool) : IndexFile :=
  if number + 1 ≥ index.blockCount then index
  else if index.nodeCache.length = CB_NODE_CACHE_SIZE then
    let saved := if index.loadedPool.isSome then index.saveToCurrentPool else index
    if saved.nodeCache.length = CB_NODE_CACHE_SIZE then
      if failed.isNone && saved.file.containsPool saved.firstPool then
        (saved.readPool saved.firstPool).saveToCurrentPool.push number
      else { saved with pool := failed.getD saved.pool }
    else saved.push number
  else index.push number

/-- A read that fails is repeated, and the contents that it leaves are overwritten. -/
def emptyCache : Nat → IndexFile → IndexFile
  | 0, index => index
  | fuel + 1, index =>
      if index.nodeCache.isEmpty then index
      else if index.file.containsPool index.firstPool then
        emptyCache fuel (index.readPool index.firstPool).saveToCurrentPool
      else index

/-- The file is closed and opened again. -/
def reopen (index : IndexFile) : IndexFile :=
  let closed := index.emptyCache index.nodeCache.length
  { closed with loadedPool := none, nodeCache := [], blockCount := closed.file.blocks }

/-- The first pool is written before the roots and the counter. -/
def initExtFtIndex (index : IndexFile) : IndexFile :=
  match index.allocCbnode fun _ => false with
  | (none, index) => index
  | (some number, index) =>
      let index := index.freeCbnode number none
      { index with
        file := { index.file with blocks := max index.file.blocks (COUNTER_NODE_NUM + 2) } }

/-- A new file; the block count has any value before the file is opened. -/
@[irreducible] def create (blockCount : Nat) : IndexFile :=
  (initExtFtIndex ⟨⟨0, fun _ _ => false⟩, blockCount, fun _ => false, none, 0, []⟩).reopen

end IndexFile

/-- The nodes that are in use, those that have been freed and not returned again, and those
that were not returned before the file was extended by a new pool. -/
structure NodeState where
  index : IndexFile
  inUse : List Nat
  freed : List Nat
  passed : List Nat

def NodeState.start (blockCount : Nat) : NodeState := ⟨IndexFile.create blockCount, [], [], []⟩

inductive NodeOp where
  | alloc (fails : Nat → Bool)
  | free (number : Nat) (failed : Option Pool)
  | reopen

def extendedBy (index next : IndexFile) : Bool :=
  next.loadedPool.any fun poolNumber => !index.file.containsPool poolNumber

def nodeStep (state : NodeState) : NodeOp → NodeState
  | .alloc fails =>
      match state.index.allocCbnode fails with
      | (none, index) => { state with index }
      | (some number, index) =>
          { index
            inUse := number :: state.inUse
            freed := state.freed.filter (· != number)
            passed := if extendedBy state.index index then state.freed ++ state.passed
              else state.passed }
  | .free number failed =>
      if number ∈ state.inUse then
        { state with
          index := state.index.freeCbnode number failed
          inUse := state.inUse.erase number
          freed := number :: state.freed }
      else state
  | .reopen => { state with index := state.index.reopen }

end Sql602.ExtIndex
