import Sql602.Library.Run
import Sql602.Library.Bitmap

namespace Sql602.Disk

/-! The allocation of blocks in the database file. -/

def BLOCKSIZE : Nat := 4096
def SMALL_BLOCKS_PER_BIG_BLOCK : Nat := 1024
def FREE_LIMIT_UP : Nat := 800
def FREE_LIMIT_DOWN : Nat := 150
def BLOCK_FILL_LIMIT : Nat := 400

def poolFromDadr (dadr : Nat) : Nat := dadr / (8 * BLOCKSIZE)

def dadrCount2BpoolCount (dadrCount : Nat) : Nat := (dadrCount - 1) / (8 * BLOCKSIZE) + 1

def fullBpool : Nat := Bitmap.toggle (2 ^ (8 * BLOCKSIZE) - 1) 0

def emptyBpool : Nat := 0

/-- The writes that report an error while the file is being extended: of bpools,
and of blocks of the file. -/
structure Extension where
  bpoolFails : List Nat
  rawFails : List Nat
  deriving DecidableEq

/-- What a call meets: the time, and the writes that report an error. A write of
a bpool is known by its place in the source and by the number of the bpool; the
file is extended at most twice. -/
structure Env where
  now : Nat
  allocFails : List Nat
  newPoolFails : List Nat
  bigBlockFails : List Nat
  saveFails : List Nat
  extension : Extension
  again : Extension
  deriving DecidableEq

/-- `bpools` is what the disc holds, and `handed` lists the blocks that were
handed out and not released. -/
structure Space where
  bpoolFirst : Nat
  bpoolCount : Nat
  bpools : Nat → Option Nat
  nextPool : Nat
  freeBlocks : List Nat
  preFreeBlocks : List Nat
  takenFromPool : Bool
  flushRequested : Bool
  maxPhysBlock : Nat
  lockedBy : Option Nat
  dbFileSize : Nat
  partEnds : List Nat
  newDbFileSize : Option Nat
  remap : List (Nat × Nat)
  flushPeriod : Nat
  lastFilFlush : Nat
  stopFlushing : Bool
  handed : List Nat

namespace Space

def translateBlocknum (space : Space) (logblocknum : Nat) : Nat :=
  match space.remap.find? fun entry => entry.1 == logblocknum with
  | some entry => entry.2
  | none => logblocknum

/-- True when the write failed. -/
def writeBpool (space : Space) (fails : Bool) (bpool poolnum : Nat) : Bool × Space :=
  if fails then (true, space)
  else (false, { space with bpools := Function.update space.bpools poolnum (some bpool) })

/-! Releasing and saving. -/

def releaseBlockDirect (space : Space) (dadr : Nat) : Space :=
  { space with
    freeBlocks := space.freeBlocks ++ [dadr]
    handed := space.handed.erase dadr }

def releaseBlockSafe (space : Space) (dadr : Nat) : Space :=
  if space.flushPeriod = 0 then space.releaseBlockDirect dadr
  else
    { space with
      preFreeBlocks := space.preFreeBlocks ++ [dadr]
      handed := space.handed.erase dadr }

/-- Released blocks move from the last one on. -/
def deallocationMove (space : Space) : Space :=
  { space with
    freeBlocks := space.freeBlocks ++ space.preFreeBlocks.reverse
    preFreeBlocks := [] }

/-- The last block takes the place of a removed one. -/
def moveLast (rest : List Nat) : List Nat :=
  match rest.getLast? with
  | none => []
  | some last => last :: rest.dropLast

theorem length_moveLast (rest : List Nat) : (moveLast rest).length = rest.length := by
  cases hlast : rest.getLast? with
  | none => simp [moveLast, hlast, List.getLast?_eq_none_iff.mp hlast]
  | some last =>
      have hne : rest ≠ [] := by
        rintro rfl
        cases hlast
      have hpos := List.length_pos_of_ne_nil hne
      simp only [moveLast, hlast, List.length_cons, List.length_dropLast]
      omega

def saveBlocks (poolnum margin : Nat) (kept rest : List Nat) (corepool : Nat) :
    List Nat × Nat :=
  match rest with
  | [] => (kept, corepool)
  | dadr :: rest =>
      if poolFromDadr dadr = poolnum then
        let corepool := Bitmap.add corepool (dadr % (8 * BLOCKSIZE))
        if kept.length + rest.length ≤ margin then (kept ++ moveLast rest, corepool)
        else saveBlocks poolnum margin kept (moveLast rest) corepool
      else saveBlocks poolnum margin (kept ++ [dadr]) rest corepool
  termination_by rest.length
  decreasing_by
    all_goals simp [length_moveLast]

def saveToPool (space : Space) (env : Env) (poolnum margin : Nat) : Space :=
  let corepool := (space.bpools poolnum).getD emptyBpool
  let (freeBlocks, corepool) := saveBlocks poolnum margin [] space.freeBlocks corepool
  let (_, space) := { space with freeBlocks := freeBlocks }.writeBpool
    (env.saveFails.contains poolnum) corepool poolnum
  if poolnum < space.nextPool then { space with nextPool := poolnum } else space

def inPoolCount (freeBlocks : List Nat) : List Nat :=
  (List.range ((freeBlocks.map poolFromDadr).foldl max 0 + 1)).map fun poolnum =>
    freeBlocks.countP fun dadr => poolFromDadr dadr == poolnum

def bestPool (counts : List Nat) : Option Nat :=
  (counts.zipIdx.foldl
    (fun best entry => if entry.1 > best.2 then (some entry.2, entry.1) else best)
    (none, 0)).1

def reduceLoop (env : Env) : Nat → List Nat → Space → Space
  | 0, _, space => space
  | fuel + 1, counts, space =>
      if space.freeBlocks.length > FREE_LIMIT_UP then
        match bestPool counts with
        | none => space
        | some bestPos =>
            reduceLoop env fuel (counts.set bestPos 0)
              (space.saveToPool env bestPos FREE_LIMIT_DOWN)
      else space

def reduceFreeBlocks (space : Space) (env : Env) : Space :=
  if space.freeBlocks.length ≤ FREE_LIMIT_UP then space
  else
    let counts := inPoolCount space.freeBlocks
    reduceLoop env counts.length counts space

def extflush (space : Space) (env : Env) (unconditional : Bool) : Space :=
  if space.stopFlushing then space
  else if !unconditional && (space.flushPeriod = 0 ||
      env.now < space.lastFilFlush + space.flushPeriod && env.now ≥ space.lastFilFlush) then
    space
  else ({ space with lastFilFlush := env.now }.reduceFreeBlocks env).deallocationMove

def flushAndTime (space : Space) (env : Env) : Space :=
  let space := space.reduceFreeBlocks env
  let space :=
    if !space.stopFlushing && space.flushPeriod ≠ 0 then { space with lastFilFlush := env.now }
    else space
  space.deallocationMove

def closeLoop (env : Env) : Nat → Space → Space
  | 0, space => space
  | fuel + 1, space =>
      match space.freeBlocks with
      | [] => space
      | dadr :: _ => closeLoop env fuel (space.saveToPool env (poolFromDadr dadr) 0)

def closeBlockCache (space : Space) (env : Env) : Space :=
  let space := space.deallocationMove
  closeLoop env space.freeBlocks.length space

/-! The bpools and the size of the file. -/

/-- False when the write failed. -/
def addNewPool (space : Space) (env : Env) : Bool × Space :=
  let (failed, space) := space.writeBpool (env.newPoolFails.contains space.bpoolCount) fullBpool
    space.bpoolCount
  if failed then (false, space)
  else
    (true, { space with nextPool := space.bpoolCount, bpoolCount := space.bpoolCount + 1 })

def addBpools (extension : Extension) : List Nat → Space → Bool × Space
  | [], space => (false, space)
  | poolnum :: rest, space =>
      let (failed, space) := space.writeBpool (extension.bpoolFails.contains poolnum) fullBpool
        poolnum
      if failed then (true, space) else addBpools extension rest space

/-- Writes the contents of a new bpool to a block of the file. -/
def overwrite (space : Space) (block : Nat) : Space :=
  if space.bpoolFirst ≤ block ∧ (block - space.bpoolFirst) % (8 * BLOCKSIZE) = 0 then
    { space with
      bpools := Function.update space.bpools
        ((block - space.bpoolFirst) / (8 * BLOCKSIZE)) (some fullBpool) }
  else space

def rawWrites (extension : Extension) : List Nat → Space → Bool × Space
  | [], space => (false, space)
  | block :: rest, space =>
      if extension.rawFails.contains block then (true, space)
      else rawWrites extension rest (space.overwrite block)

/-- The last blocks of the parts of the file that grow. -/
def lastBlocks (space : Space) (newblocks : Nat) : List Nat :=
  let filled := space.partEnds.takeWhile (· ≤ newblocks)
  let expanded := (filled.filter (space.dbFileSize < ·)).map (· - 1)
  if newblocks > filled.getLast?.getD 0 then expanded ++ [newblocks - 1] else expanded

/-- True when the file could not be extended. -/
def setFilSize (space : Space) (extension : Extension) (newblocks : Nat) : Bool × Space :=
  if newblocks > 0xff000000 then (true, space)
  else if space.dbFileSize ≥ newblocks then (false, space)
  else
    let newBpoolCount := dadrCount2BpoolCount (newblocks - space.bpoolFirst)
    let (failed, space) := addBpools extension
      (List.range' space.bpoolCount (newBpoolCount - space.bpoolCount)) space
    if failed then (true, space)
    else
      let space := { space with bpoolCount := newBpoolCount }
      let (failed, space) := rawWrites extension (space.lastBlocks newblocks) space
      if failed then (true, space) else (false, { space with dbFileSize := newblocks })

/-- False when the file could not be extended. While the file is frozen for a
backup, only its new size is noted. -/
def extendDatabaseIfOutside (space : Space) (env : Env) (maxPhysBlock : Nat) : Bool × Space :=
  match space.newDbFileSize with
  | some size =>
      (true,
        if size ≤ maxPhysBlock then { space with newDbFileSize := some (maxPhysBlock + 1) }
        else space)
  | none =>
      if maxPhysBlock ≥ space.dbFileSize then
        let step := maxPhysBlock + 1 - space.dbFileSize
        let minstep := if space.dbFileSize < 25600 then 256 else 2560
        let step := if step < minstep then minstep else step
        let (failed, space) := space.setFilSize env.extension (space.dbFileSize + step)
        if failed then
          let (failed, space) := space.setFilSize env.again (maxPhysBlock + 1)
          (!failed, space)
        else (true, space)
      else (true, space)

/-! Taking blocks from the bpools. -/

structure Scan where
  corepool : Nat
  freeBlocks : List Nat
  maxPhysBlock : Nat
  change : Bool

/-- After the cache has got enough blocks, the scan is left. -/
def scanBit (space : Space) (count : Nat) (scan : Scan) (k : Nat) : Scan :=
  if scan.freeBlocks.length < count ∧ scan.corepool.testBit k = true then
    let dadr := space.nextPool * (8 * BLOCKSIZE) + k
    let physBlock := space.translateBlocknum (space.bpoolFirst + dadr)
    { corepool := Bitmap.toggle scan.corepool k
      freeBlocks := scan.freeBlocks ++ [dadr]
      maxPhysBlock := max scan.maxPhysBlock physBlock
      change := true }
  else scan

/-- The bits of an empty byte are not checked. -/
def scanByte (space : Space) (count : Nat) (scan : Scan) (i : Nat) : Scan :=
  if Bitmap.byte scan.corepool i = 0 then scan
  else (List.range 8).foldl (fun scan j => space.scanBit count scan (8 * i + j)) scan

def scanPool (space : Space) (count : Nat) : Scan :=
  (List.range BLOCKSIZE).foldl (space.scanByte count)
    { corepool := (space.bpools space.nextPool).getD fullBpool
      freeBlocks := space.freeBlocks
      maxPhysBlock := space.maxPhysBlock
      change := false }

/-- True when the write of the scanned bpool failed. -/
def takeScan (space : Space) (env : Env) (scan : Scan) : Bool × Space :=
  let space := { space with
    freeBlocks := scan.freeBlocks
    maxPhysBlock := scan.maxPhysBlock }
  if scan.change then
    space.writeBpool (env.allocFails.contains space.nextPool) scan.corepool space.nextPool
  else (false, space)

def takeFromPool (space : Space) (env : Env) (count : Nat) : Bool × Space :=
  space.takeScan env (space.scanPool count)

def toNextPool (space : Space) : Space :=
  { space with
    nextPool := if space.nextPool + 1 = space.bpoolCount then 0 else space.nextPool + 1 }

/-- When all bpools were checked, a new one is added; false when that failed. -/
def checkedPool (space : Space) (env : Env) (cyc : Nat) : Bool × Space :=
  if cyc > space.bpoolCount then
    let (added, space) := space.addNewPool env
    if added then (true, { space with nextPool := space.bpoolCount - 1 }) else (false, space)
  else (true, space)

/-- The loop over the bpools while the cache has less than `count` blocks. -/
def fillCache (env : Env) (count : Nat) : Nat → Nat → Space → Bool × Space
  | 0, _, space => (false, space)
  | fuel + 1, cyc, space =>
      let taken := space.takeFromPool env count
      if taken.1 then (false, taken.2)
      else if taken.2.freeBlocks.length ≥ count then (true, taken.2)
      else
        let checked := taken.2.toNextPool.checkedPool env (cyc + 1)
        if checked.1 then fillCache env count fuel (cyc + 1) checked.2 else (false, checked.2)

def lockAndAlloc (space : Space) (env : Env) (client count : Nat) : Bool × Space :=
  if space.freeBlocks.length < count then
    let count := if count < BLOCK_FILL_LIMIT then BLOCK_FILL_LIMIT else count
    match fillCache env count (space.bpoolCount + 1 + count) 0
        { space with takenFromPool := true, maxPhysBlock := 0 } with
    | (false, space) => (false, space)
    | (true, space) => (true, { space with lockedBy := some client, flushRequested := false })
  else
    (true, { space with
      takenFromPool := false
      lockedBy := some client
      flushRequested := false })

def takeBlockFromCache (space : Space) : Nat × Space :=
  match space.freeBlocks.getLast? with
  | none => (0, space)
  | some dadr =>
      (dadr, { space with
        freeBlocks := space.freeBlocks.dropLast
        handed := dadr :: space.handed })

def unlockAllocation (space : Space) (env : Env) : Space :=
  let space :=
    if space.takenFromPool || space.flushRequested then space.flushAndTime env else space
  let space := { space with lockedBy := none }
  if space.takenFromPool then (space.extendDatabaseIfOutside env space.maxPhysBlock).2
  else space

def getBlock (space : Space) (env : Env) (client : Nat) : Nat × Space :=
  if space.lockedBy = some client then space.takeBlockFromCache
  else
    match space.lockAndAlloc env client 1 with
    | (false, space) => (0, space)
    | (true, space) =>
        let (theblock, space) := space.takeBlockFromCache
        (theblock, space.unlockAllocation env)

def flushRequest (space : Space) : Space := { space with flushRequested := true }

/-! Big blocks. -/

def ffBytes (corepool start : Nat) : Nat :=
  ((List.range (SMALL_BLOCKS_PER_BIG_BLOCK / 8)).takeWhile fun i =>
    Bitmap.byte corepool (start + i) == 2 ^ 8 - 1).length

def findBigBlock (corepool start : Nat) : Option Nat :=
  if start ≤ BLOCKSIZE - SMALL_BLOCKS_PER_BIG_BLOCK / 8 then
    let size := ffBytes corepool start
    if size = SMALL_BLOCKS_PER_BIG_BLOCK / 8 then some start
    else findBigBlock corepool (start + (size + 1))
  else none
  termination_by BLOCKSIZE + 1 - start
  decreasing_by omega

def searchBigBlock (env : Env) : Nat → Nat → Space → Option Nat × Space
  | 0, _, space => (none, space)
  | fuel + 1, cyc, space =>
      let corepool := (space.bpools space.nextPool).getD fullBpool
      match findBigBlock corepool 0 with
      | some start =>
          let dadr := (space.nextPool * BLOCKSIZE + start) * 8
          let written := space.writeBpool (env.bigBlockFails.contains space.nextPool)
            (Bitmap.clear corepool (8 * start) SMALL_BLOCKS_PER_BIG_BLOCK) space.nextPool
          if written.1 then (none, written.2) else (some dadr, written.2)
      | none =>
          let checked := space.toNextPool.checkedPool env (cyc + 1)
          if checked.1 then searchBigBlock env fuel (cyc + 1) checked.2 else (none, checked.2)

def bigBlock (dadr : Nat) : List Nat := List.range' dadr SMALL_BLOCKS_PER_BIG_BLOCK

def getBigBlock (space : Space) (env : Env) : Nat × Space :=
  match searchBigBlock env (space.bpoolCount + 2) 0 space with
  | (none, space) => (0, space)
  | (some dadr, space) =>
      match (space.flushAndTime env).extendDatabaseIfOutside env
          (space.bpoolFirst + dadr + SMALL_BLOCKS_PER_BIG_BLOCK - 1) with
      | (false, space) => (0, space)
      | (true, space) => (dadr, { space with handed := bigBlock dadr ++ space.handed })

end Space

inductive SpaceOp where
  | getBlock (client : Nat)
  | getBigBlock
  | lockAndAlloc (client count : Nat)
  | flushRequest
  | unlockAllocation
  | releaseBlockDirect (dadr : Nat)
  | releaseBlockSafe (dadr : Nat)
  | reduceFreeBlocks
  | extflush (unconditional : Bool)
  | flushAndTime
  | closeBlockCache

def spaceStep (space : Space) (call : Env × SpaceOp) : Space :=
  match call.2 with
  | .getBlock client => (space.getBlock call.1 client).2
  | .getBigBlock => (space.getBigBlock call.1).2
  | .lockAndAlloc client count => (space.lockAndAlloc call.1 client count).2
  | .flushRequest => space.flushRequest
  | .unlockAllocation => space.unlockAllocation call.1
  | .releaseBlockDirect dadr => space.releaseBlockDirect dadr
  | .releaseBlockSafe dadr => space.releaseBlockSafe dadr
  | .reduceFreeBlocks => space.reduceFreeBlocks call.1
  | .extflush unconditional => space.extflush call.1 unconditional
  | .flushAndTime => space.flushAndTime call.1
  | .closeBlockCache => space.closeBlockCache call.1

end Sql602.Disk
