import Mathlib.Algebra.Group.Nat.Defs
import Mathlib.Logic.Function.Basic

namespace Sql602.Core

/-! The core memory heap: blocks with tags in parts that are allocated from the system.
Memory that is not a tag or a pointer of the heap is in `bytes`. -/

inductive Mark where
  | dc
  | big
  deriving DecidableEq

/-- The owner 0 is that of free blocks; sizes are in 16-byte units. -/
structure Memblock where
  prevfree : Bool
  dcmark : Mark
  owner : Nat
  size : Nat

structure Platform where
  wordSize : Nat
  known : wordSize = 4 ∨ wordSize = 8

namespace Platform

/-- The size of the system part of the memory block. -/
def MEM_PREFIX_SIZE (platform : Platform) : Nat := platform.wordSize

/-- The number of values of `size_t`. -/
def sizes (platform : Platform) : Nat := 2 ^ (8 * platform.wordSize)

end Platform

def MAX_HEAP_PARTS : Nat := 500

def STD_CORE_ALLOC : Nat := 6

def INTERNAL_ALLOCATION_LIMIT : Nat := 150000

def EXTENSION_SIZE_64 : Nat := 15

/-- Blocks are known by their addresses, and the pointer at the end of a free block by the
address behind it. The parts are those of `origlist` and `heap_limit`, the list of free
blocks is without its head, and `big` has the sizes of the blocks allocated directly from
the system. -/
structure Heap where
  block : Nat → Memblock
  endPtr : Nat → Nat
  freelist : List Nat
  parts : List (Nat × Nat)
  totalAllocatedSize : Nat
  memoryAllocationEnabled : Bool
  big : Nat → Option Nat
  bytes : Nat → UInt8

namespace Heap

def width (heap : Heap) (bl : Nat) : Nat := 16 * (heap.block bl).size

def blockEnd (heap : Heap) (bl : Nat) : Nat := bl + heap.width bl

def setBlock (heap : Heap) (bl : Nat) (memblock : Memblock) : Heap :=
  { heap with block := Function.update heap.block bl memblock }

def setPrevfree (heap : Heap) (bl : Nat) (prevfree : Bool) : Heap :=
  heap.setBlock bl { heap.block bl with prevfree }

/-- The field has 16 bits. -/
def setSize (heap : Heap) (bl size : Nat) : Heap :=
  heap.setBlock bl { heap.block bl with size := size % 2 ^ 16 }

def setOwner (heap : Heap) (bl owner : Nat) : Heap :=
  heap.setBlock bl { heap.block bl with owner }

def setEndPtr (heap : Heap) (stop bl : Nat) : Heap :=
  { heap with endPtr := Function.update heap.endPtr stop bl }

def unchain (heap : Heap) (bl : Nat) : Heap :=
  { heap with freelist := heap.freelist.erase bl }

def chain (heap : Heap) (bl : Nat) : Heap :=
  { heap with freelist := bl :: heap.freelist }

def fatalMemoryError (heap : Heap) : Heap := { heap with memoryAllocationEnabled := false }

/-- The padding behind the new block is never joined. -/
def initNewBlock (heap : Heap) (bl size : Nat) : Heap :=
  let units := size / 16
  let heap := heap.setBlock bl ⟨false, .dc, 0, (units + 2 ^ 16 - 1) % 2 ^ 16⟩
  let padd := heap.blockEnd bl
  let heap := heap.setBlock padd ⟨true, .dc, 0xff, 1⟩
  ({ heap with
      parts := heap.parts ++ [(bl, padd)]
      totalAllocatedSize := heap.totalAllocatedSize + size }.setEndPtr padd bl).chain bl

def partSize (size : Nat) : Nat := if 0xfffe0 < size then 0xfffe0 else size

/-- The loop of `core_init`, with the answers of the system. -/
def initParts (heap : Heap) : Nat → List (Option Nat) → Bool × Heap
  | size, some bl :: answers =>
      if 1000 < size ∧ heap.parts.length < MAX_HEAP_PARTS then
        (true, ((heap.initNewBlock bl (partSize size)).initParts (size - partSize size)
          answers).2)
      else (false, heap)
  | _, _ => (false, heap)

/-- A number that is not positive asks for an extension or for the initial amount. -/
def initSize (num : Int) : Nat :=
  if num = 0 then STD_CORE_ALLOC * 0x10000 else num.natAbs * 0x10000

def coreInit (heap : Heap) (num : Int) (answers : List (Option Nat)) : Bool × Heap :=
  let size := initSize num
  if 0 ≤ num ∧ size ≤ heap.totalAllocatedSize then (false, heap)
  else
    let (memoryExtended, heap) := heap.initParts size answers
    (memoryExtended, { heap with memoryAllocationEnabled := true })

/-- Joins the block with the free one behind it, or tells that one. -/
def joinNext (heap : Heap) (fr : Nat) : Heap :=
  let next := heap.blockEnd fr
  if (heap.block next).owner = 0 then
    (heap.setSize fr ((heap.block fr).size + (heap.block next).size)).unchain next
  else heap.setPrevfree next true

/-- Joins the block with a free one before it. -/
def joinPrevious (heap : Heap) (fr : Nat) : Heap × Nat :=
  if (heap.block fr).prevfree then
    let prev := heap.endPtr fr
    ((heap.setSize prev ((heap.block prev).size + (heap.block fr).size)).unchain prev, prev)
  else (heap, fr)

def makeFree (heap : Heap) (fr : Nat) : Heap :=
  let heap := (heap.joinNext fr).chain fr
  (heap.setOwner fr 0).setEndPtr (heap.blockEnd fr) fr

def corefree (heap : Heap) : Option Nat → Heap
  | none => heap
  | some fr =>
      if (heap.block fr).dcmark = .big then { heap with big := Function.update heap.big fr none }
      else if heap.memoryAllocationEnabled = false then heap
      else if (heap.block fr).owner = 0 ∨ (heap.block fr).size = 0 then heap.fatalMemoryError
      else
        let (heap, fr) := heap.joinPrevious fr
        heap.makeFree fr

end Heap

namespace Platform

/-- The size with the system part, and with the space that a free block needs. -/
def requestSize (platform : Platform) (size : Nat) : Nat :=
  let size := if size < 2 * platform.wordSize then 3 * platform.wordSize else size
  (size + platform.MEM_PREFIX_SIZE) % platform.sizes

/-- The size of a block that is allocated directly from the system. -/
def bigSize (platform : Platform) (size : Nat) : Nat :=
  (((size + platform.sizes - 1) % platform.sizes &&& 0xffffc000) + 0x4000) % platform.sizes

/-- A block is not divided if the rest would be too small. -/
def takesWhole (platform : Platform) (blockSize size : Nat) : Bool :=
  if 4 < platform.wordSize then decide (blockSize ≤ 2 + size) else decide (blockSize = size)

end Platform

/-- Allocation granularity. -/
def units (size : Nat) : Nat :=
  let size := if size % 16 ≠ 0 then size / 16 + 1 else size / 16
  if size = 1 then 2 else size

inductive Fit where
  | found (bl : Nat)
  | missing
  | fatal

namespace Heap

/-- The 1st block big enough. -/
def firstFit (heap : Heap) (size : Nat) : List Nat → Fit
  | [] => .missing
  | bl :: rest =>
      if (heap.block bl).dcmark ≠ .dc ∨ (heap.block bl).size = 0 then .fatal
      else if size ≤ (heap.block bl).size then .found bl
      else heap.firstFit size rest

def take (platform : Platform) (heap : Heap) (bl size owner : Nat) : Heap :=
  let heap := heap.unchain bl
  if platform.takesWhole (heap.block bl).size size then
    (heap.setPrevfree (heap.blockEnd bl) false).setOwner bl owner
  else
    let nbl := bl + 16 * size
    let heap := heap.setBlock nbl ⟨false, .dc, 0, ((heap.block bl).size - size) % 2 ^ 16⟩
    let heap := (heap.setSize bl size).chain nbl
    (heap.setEndPtr (heap.blockEnd nbl) nbl).setOwner bl owner

/-- The system is asked for a block of some size. -/
def corealloc (platform : Platform) (heap : Heap) (size owner : Nat)
    (system : Nat → Option Nat) : Option Nat × Heap :=
  if size = 0 then (none, heap)
  else
    let size := platform.requestSize size
    if INTERNAL_ALLOCATION_LIMIT < size ∨ heap.memoryAllocationEnabled = false then
      let size := platform.bigSize size
      match system size with
      | none => (none, heap)
      | some bl =>
          (some bl,
            { heap.setBlock bl { heap.block bl with
                dcmark := .big, owner, size := size / 2 ^ 14 % 2 ^ 16 } with
              big := Function.update heap.big bl (some size) })
    else
      match heap.firstFit (units size) heap.freelist with
      | .found bl => (some bl, heap.take platform bl (units size) owner)
      | .fatal => (none, heap.fatalMemoryError)
      | .missing =>
          let (memoryExtended, heap) := heap.coreInit (-EXTENSION_SIZE_64)
            [system (EXTENSION_SIZE_64 * 0x10000)]
          if memoryExtended then
            match heap.firstFit (units size) heap.freelist with
            | .found bl => (some bl, heap.take platform bl (units size) owner)
            | .fatal => (none, heap.fatalMemoryError)
            | .missing => (none, heap)
          else (none, heap)

/-- The size of a block in `unsigned`, as `corerealloc` knows it. -/
def origsize (platform : Platform) (heap : Heap) (fr : Nat) : Nat :=
  let size := if (heap.block fr).dcmark = .big then (heap.block fr).size * 2 ^ 14
    else 16 * (heap.block fr).size
  (size + 2 ^ 32 - platform.MEM_PREFIX_SIZE) % 2 ^ 32

def memcpy (heap : Heap) (destin source count : Nat) : Heap :=
  { heap with bytes := fun i =>
      if destin ≤ i ∧ i < destin + count then heap.bytes (source + (i - destin))
      else heap.bytes i }

def corerealloc (platform : Platform) (heap : Heap) (x : Option Nat) (y : Nat)
    (system : Nat → Option Nat) : Option Nat × Heap :=
  match x with
  | none => heap.corealloc platform y 1 system
  | some fr =>
      let (p, heap) := heap.corealloc platform y (heap.block fr).owner system
      let origsize := heap.origsize platform fr
      match p with
      | none => (if y ≤ origsize then some fr else none, heap)
      | some bl =>
          let heap := if (heap.block fr).size ≠ 0 then
              heap.memcpy (bl + platform.MEM_PREFIX_SIZE) (fr + platform.MEM_PREFIX_SIZE)
                (if y < origsize then y else origsize)
            else heap
          (some bl, heap.corefree (some fr))

end Heap

end Sql602.Core
