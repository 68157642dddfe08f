import Sql602.Swap.Transactor

namespace Sql602.Swap

/-! The frames of the page cache and the control blocks of swapped pages. A call runs
without other clients in between. The byte behind a frame is never overwritten here. -/

def ANY_PAGE : Nat := 0x7fff

def FCB_HASH_SIZE : Nat := 503

def FCBS_ALLOC_STEP : Nat := 100

def hashFnc (dadr : Nat) : Nat := dadr % FCB_HASH_SIZE

/-- `fc` is the time of the last use of a frame, but the block of a swapped page. -/
structure Fcb where
  blockdadr : Nat
  owner : Nat
  dirty : Bool
  fixnum : Nat
  fc : Nat
  deriving DecidableEq

def Fcb.isSharedPage (fcb : Fcb) : Bool := fcb.owner == ANY_PAGE

/-- The control blocks from `frameCount` on are those of swapped pages. The chains are
those of the hash table, each from its first element. -/
structure PageCache where
  fcbs : Nat → Fcb
  frameCount : Nat
  fcbsCount : Nat
  chains : Nat → List Nat
  freeSwapCbs : List Nat
  frames : Nat → Page
  fcbTime : Nat
  locked : Nat → Bool
  transactor : Transactor

/-- What a call meets outside the cache: memory for control blocks and for the map of the
transaction file, the results of writes and what is read from the database. -/
structure Circumstances where
  reallocates : Bool
  mapGrows : Bool
  failed : Option (List UInt8)
  invalFailed : Option (List UInt8)
  readBlock : Option Page

namespace PageCache

def setFcb (cache : PageCache) (n : Nat) (fcb : Fcb) : PageCache :=
  { cache with fcbs := Function.update cache.fcbs n fcb }

def insertFcb (cache : PageCache) (n : Nat) : PageCache :=
  let h := hashFnc (cache.fcbs n).blockdadr
  { cache with chains := Function.update cache.chains h (n :: cache.chains h) }

def removeFcb (cache : PageCache) (n : Nat) : PageCache :=
  let h := hashFnc (cache.fcbs n).blockdadr
  { cache with chains := Function.update cache.chains h ((cache.chains h).erase n) }

def setLock (cache : PageCache) (dadr : Nat) (value : Bool) : PageCache :=
  { cache with locked := Function.update cache.locked dadr value }

def isLocked (cache : PageCache) (dadr : Nat) : Bool := dadr != 0 && cache.locked dadr

/-- Does not affect existing control blocks. -/
def reallocScbs (cache : PageCache) (circumstances : Circumstances) : Option PageCache :=
  if circumstances.reallocates then
    some { cache with
      freeSwapCbs := List.range' cache.fcbsCount FCBS_ALLOC_STEP
      fcbsCount := cache.fcbsCount + FCBS_ALLOC_STEP }
  else none

/-- Takes a free swap control block. -/
def takeScb (cache : PageCache) (circumstances : Circumstances) : Option (Nat × PageCache) :=
  match cache.freeSwapCbs with
  | scbn :: rest => some (scbn, { cache with freeSwapCbs := rest })
  | [] =>
      match cache.reallocScbs circumstances with
      | none => none
      | some cache =>
          match cache.freeSwapCbs with
          | scbn :: rest => some (scbn, { cache with freeSwapCbs := rest })
          | [] => none

/-- The block is 0 if the page cannot be saved. -/
def saveFrame (cache : PageCache) (circumstances : Circumstances) (n : Nat) :
    Nat × PageCache :=
  let (block, transactor) :=
    cache.transactor.getSwapBlock (cache.transactor.srchStart / 32) circumstances.mapGrows
  if block = 0 then (0, { cache with transactor })
  else
    let (block, transactor) := transactor.saveBlock block (cache.frames n).val
      circumstances.failed circumstances.invalFailed
    (block, { cache with transactor })

def swapBlock (cache : PageCache) (circumstances : Circumstances) (n : Nat) :
    Nat × PageCache :=
  match cache.takeScb circumstances with
  | none => (0, cache)
  | some (scbn, cache) =>
      let cache := (cache.setFcb scbn { cache.fcbs n with fc := 0 }).insertFcb scbn
      let (swapblock, cache) := cache.saveFrame circumstances n
      if swapblock ≠ 0 then
        (swapblock, cache.setFcb scbn { cache.fcbs scbn with fc := swapblock })
      else
        let cache := cache.removeFcb scbn
        (0, { cache with freeSwapCbs := scbn :: cache.freeSwapCbs })

/-- The least recently used frame that is neither fixed nor locked. -/
def leastUsed (cache : PageCache) : Option Nat :=
  ((List.range cache.frameCount).foldl (fun best n =>
    let fcb := cache.fcbs n
    if fcb.fixnum = 0 ∧ fcb.fc < best.1 ∧ cache.isLocked fcb.blockdadr = false then (fcb.fc, some n)
    else best) (0xffffffff, none)).2

/-- A changed private page is saved before its frame is used again. -/
def needsSwap (fcb : Fcb) : Bool := !fcb.isSharedPage && fcb.dirty

def hasSwap (cache : PageCache) (n : Nat) : Bool :=
  (cache.chains (hashFnc (cache.fcbs n).blockdadr)).any fun other =>
    (cache.fcbs other).blockdadr == (cache.fcbs n).blockdadr &&
      (cache.fcbs other).owner == (cache.fcbs n).owner && decide (cache.frameCount ≤ other)

/-- An empty frame out of the chains. Nothing is found after waiting either, or the
waiting is broken. -/
def getFrame (cache : PageCache) (circumstances : Circumstances) : Option Nat × PageCache :=
  match cache.leastUsed with
  | none => (none, cache)
  | some n =>
      if n ∈ cache.chains (hashFnc (cache.fcbs n).blockdadr) then
        let cache := cache.removeFcb n
        let cache := cache.setFcb n { cache.fcbs n with fixnum := 1 }
        if needsSwap (cache.fcbs n) ∧ ¬ cache.hasSwap n then
          match cache.swapBlock circumstances n with
          | (0, cache) =>
              let cache := cache.setFcb n { cache.fcbs n with fixnum := 0 }
              (none, cache.insertFcb n)
          | (_ + 1, cache) => (some n, cache.setFcb n { cache.fcbs n with blockdadr := 0 })
        else (some n, cache.setFcb n { cache.fcbs n with blockdadr := 0 })
      else (none, cache)

/-- The returned frame gets the contents of the swap block; errors are not detected. -/
def unswapBlock (cache : PageCache) (circumstances : Circumstances) (scbn : Nat) :
    Option Nat × PageCache :=
  let cache := cache.removeFcb scbn
  match cache.getFrame circumstances with
  | (none, cache) => (none, cache)
  | (some n, cache) =>
      let swapdadr := (cache.fcbs scbn).fc
      let page : Page :=
        match readFileAt cache.transactor.tFile swapdadr with
        | none => cache.frames n
        | some bytes => if h : bytes.length = BLOCKSIZE then ⟨bytes, h⟩ else cache.frames n
      let cache := { cache with frames := Function.update cache.frames n page }
      let cache := (cache.setFcb n { cache.fcbs scbn with fixnum := 1 }).insertFcb n
      (some n, { cache with
        transactor := cache.transactor.freeSwapBlock swapdadr
        freeSwapCbs := scbn :: cache.freeSwapCbs })

def nullFcbTime (cache : PageCache) : PageCache :=
  { cache with
    fcbs := fun n => if n < cache.frameCount then { cache.fcbs n with fc := 0 } else cache.fcbs n
    fcbTime := 0 }

/-- The actions for the frame that has been found. -/
def touch (cache : PageCache) (n : Nat) : PageCache :=
  let cache := if 0xfffffffe ≤ cache.fcbTime then cache.nullFcbTime else cache
  let cache := { cache with fcbTime := cache.fcbTime + 1 }
  cache.setFcb n { cache.fcbs n with fc := cache.fcbTime }

def addFix (cache : PageCache) (n : Nat) : PageCache :=
  cache.setFcb n { cache.fcbs n with fixnum := (cache.fcbs n).fixnum + 1 }

def owned (cache : PageCache) (client dadr : Nat) : Option Nat :=
  (cache.chains (hashFnc dadr)).find? fun n =>
    (cache.fcbs n).blockdadr == dadr && (cache.fcbs n).owner == client

def shared (cache : PageCache) (good : Fcb → Bool) (dadr : Nat) : Option Nat :=
  ((cache.chains (hashFnc dadr)).filter fun n =>
    (cache.fcbs n).blockdadr == dadr && (cache.fcbs n).isSharedPage && good (cache.fcbs n)).getLast?

/-- Reads the page from the database into a frame. -/
def loadPage (cache : PageCache) (circumstances : Circumstances) (dadr owner : Nat) :
    Option Nat × PageCache :=
  let cache := cache.setLock dadr true
  match cache.getFrame circumstances with
  | (none, cache) => (none, cache.setLock dadr false)
  | (some n, cache) =>
      let cache := cache.setFcb n { cache.fcbs n with blockdadr := dadr, dirty := false }
      match circumstances.readBlock with
      | none =>
          let fcb := cache.fcbs n
          let cache := cache.setFcb n
            { fcb with fixnum := fcb.fixnum - 1, blockdadr := 0, owner := ANY_PAGE }
          (none, (cache.insertFcb n).setLock dadr false)
      | some page =>
          let cache := { cache with frames := Function.update cache.frames n page }
          let cache := (cache.setFcb n { cache.fcbs n with owner }).insertFcb n
          (some n, (cache.setLock dadr false).touch n)

def unswapPage (cache : PageCache) (circumstances : Circumstances) (dadr scbn : Nat) :
    Option Nat × PageCache :=
  match (cache.setLock dadr true).unswapBlock circumstances scbn with
  | (none, cache) => (none, cache.setLock dadr false)
  | (some n, cache) => (some n, (cache.setLock dadr false).touch n)

def fixAnyPage (cache : PageCache) (circumstances : Circumstances) (client dadr : Nat) :
    Option Nat × PageCache :=
  match cache.owned client dadr with
  | some n =>
      if n < cache.frameCount then (some n, (cache.addFix n).touch n)
      else cache.unswapPage circumstances dadr n
  | none =>
      match cache.shared (fun _ => true) dadr with
      | some n => (some n, (cache.addFix n).touch n)
      | none => cache.loadPage circumstances dadr ANY_PAGE

/-- A shared page that is not fixed becomes private. -/
def fixPrivPage (cache : PageCache) (circumstances : Circumstances) (client dadr : Nat) :
    Option Nat × PageCache :=
  match cache.owned client dadr with
  | some n =>
      if n < cache.frameCount then (some n, (cache.addFix n).touch n)
      else cache.unswapPage circumstances dadr n
  | none =>
      match cache.shared (fun fcb => fcb.fixnum = 0) dadr with
      | some n =>
          (some n, (cache.setFcb n
            { cache.fcbs n with fixnum := 1, dirty := false, owner := client }).touch n)
      | none => cache.loadPage circumstances dadr client

end PageCache

end Sql602.Swap
