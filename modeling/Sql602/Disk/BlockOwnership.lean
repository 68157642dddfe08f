import Mathlib.Data.List.TakeWhile
import Sql602.Disk.Taking

namespace Sql602.Disk

namespace Space

variable {space next : Space} {env : Env}

/-! Handing out single blocks. -/

theorem Owned.takeBlockFromCache (howned : space.Owned) : space.takeBlockFromCache.2.Owned := by
  simp only [Space.takeBlockFromCache]
  split
  case h_1 => exact howned
  case h_2 dadr hlast =>
    have hfree : space.freeBlocks.dropLast ++ [dadr] = space.freeBlocks :=
      List.dropLast_append_getLast? dadr hlast
    refine ⟨fun other => ?_, howned.inRange, howned.readable⟩
    have hplace := howned.place other
    rw [kept, ← hfree, List.count_append, List.count_singleton] at hplace
    change (dadr :: space.handed).count other + (space.freeBlocks.dropLast.count other +
      space.preFreeBlocks.count other + (space.marked other).toNat) =
      (space.isBlock other).toNat
    rw [List.count_cons]
    omega

theorem Fits.setLock (hfits : space.Fits) (takenFromPool flushRequested : Bool)
    (lockedBy : Option Nat) (maxPhysBlock : Nat) :
    space.Keeps { space with
      takenFromPool := takenFromPool
      flushRequested := flushRequested
      lockedBy := lockedBy
      maxPhysBlock := maxPhysBlock } :=
  ⟨rfl, fun _ => rfl, hfits.inRange, hfits.readable⟩

/-- What has to hold before the file is extended, unless a backup freezes it. -/
def Extendable (space : Space) (maxPhysBlock : Nat) : Prop :=
  space.newDbFileSize.isSome = true ∨ (space.InFile maxPhysBlock ∧ space.PartsFit)

instance (space : Space) (maxPhysBlock : Nat) : Decidable (space.Extendable maxPhysBlock) :=
  inferInstanceAs (Decidable (_ ∨ _))

theorem Fits.lockAndAlloc {count : Nat} (client : Nat) (hfits : space.Fits)
    (hwrites : space.freeBlocks.length < count → env.allocFails = []) :
    space.Keeps (space.lockAndAlloc env client count).2 := by
  simp only [Space.lockAndAlloc]
  split
  case isFalse => exact hfits.setLock false false (some client) space.maxPhysBlock
  case isTrue hless =>
    have hstart := hfits.setLock true space.flushRequested space.lockedBy 0
    generalize (if count < BLOCK_FILL_LIMIT then BLOCK_FILL_LIMIT else count) = wanted
    obtain ⟨hfilled, -⟩ := (hfits.keeps hstart).fillCache (hwrites hless) wanted
      (space.bpoolCount + 1 + wanted) 0
    have hsofar := hstart.trans hfilled
    split
    case h_1 stopped hstop =>
      rw [hstop] at hsofar
      exact hsofar
    case h_2 filled hok =>
      rw [hok] at hsofar
      exact hsofar.trans ((hfits.keeps hsofar).setLock _ false (some client) _)

/-- Blocks are taken from bpools in the file only. -/
theorem lockAndAlloc_inFile {count : Nat} (client : Nat) (hwrites : env.allocFails = [])
    (hless : space.freeBlocks.length < count) (hin : space.InFile 0)
    (hremap : space.RemapFit) (hok : (space.lockAndAlloc env client count).1 = true) :
    (space.lockAndAlloc env client count).2.InFile
      (space.lockAndAlloc env client count).2.maxPhysBlock := by
  have hwanted : space.freeBlocks.length <
      if count < BLOCK_FILL_LIMIT then BLOCK_FILL_LIMIT else count := by
    split <;> omega
  simp only [Space.lockAndAlloc, if_pos hless] at hok ⊢
  generalize (if count < BLOCK_FILL_LIMIT then BLOCK_FILL_LIMIT else count) = wanted
    at hwanted hok ⊢
  have hroom : ({ space with takenFromPool := true, maxPhysBlock := 0 } : Space).freeBlocks.length <
    wanted := hwanted
  have hfilled := fillCache_inFile hwrites (space.bpoolCount + 1 + wanted) 0 hroom (.inl hin)
    hremap
  split at hok
  case h_1 => cases hok
  case h_2 filled hfill =>
    rw [hfill] at hfilled
    exact hfilled rfl

theorem lockAndAlloc_frame {count : Nat} (client : Nat) (hfits : space.Fits)
    (hwrites : space.freeBlocks.length < count → env.allocFails = []) :
    (space.lockAndAlloc env client count).2.newDbFileSize = space.newDbFileSize ∧
      (space.PartsFit → (space.lockAndAlloc env client count).2.PartsFit) := by
  simp only [Space.lockAndAlloc]
  split
  case isFalse => exact ⟨rfl, id⟩
  case isTrue hless =>
    have hstart := hfits.setLock true space.flushRequested space.lockedBy 0
    generalize (if count < BLOCK_FILL_LIMIT then BLOCK_FILL_LIMIT else count) = wanted
    obtain ⟨-, hframe⟩ := (hfits.keeps hstart).fillCache (hwrites hless) wanted
      (space.bpoolCount + 1 + wanted) 0
    split
    all_goals
      next filled hfill =>
        rw [hfill] at hframe
        obtain ⟨_, _, _, _, _, rfl⟩ := hframe
        exact ⟨rfl, id⟩

theorem Fits.unlockAllocation (hfits : space.Fits)
    (hsaves : (space.takenFromPool || space.flushRequested) = true → env.saveFails = [])
    (hextends : space.takenFromPool = true → space.Extendable space.maxPhysBlock) :
    space.Keeps (space.unlockAllocation env) := by
  have hflushed : ∃ flushed, flushed = (if space.takenFromPool || space.flushRequested then
      space.flushAndTime env else space) ∧ space.Keeps flushed ∧ space.SavedTo flushed := by
    split
    case isTrue hflush => exact ⟨_, rfl, hfits.flushAndTime (hsaves hflush)⟩
    case isFalse => exact ⟨space, rfl, hfits.refl, .refl space⟩
  obtain ⟨flushed, hdef, hkeeps, hframe⟩ := hflushed
  have hfree := hkeeps.trans ((hfits.keeps hkeeps).setLock flushed.takenFromPool
    flushed.flushRequested none flushed.maxPhysBlock)
  simp only [Space.unlockAllocation, ← hdef]
  split
  case isFalse => exact hfree
  case isTrue htaken =>
    refine hfree.trans ((hfits.keeps hfree).grown (extendDatabaseIfOutside_grown env ?_))
    obtain ⟨_, _, _, _, _, rfl⟩ := hframe
    exact hextends htaken

/-- What a call that may take blocks from the bpools needs. -/
structure TakesSafely (space : Space) (env : Env) : Prop where
  allocs : env.allocFails = []
  saves : env.saveFails = []
  grows : space.Extendable 0
  remap : space.RemapFit

instance (space : Space) (env : Env) : Decidable (space.TakesSafely env) :=
  decidable_of_iff (env.allocFails = [] ∧ env.saveFails = [] ∧ space.Extendable 0 ∧
    space.RemapFit)
    ⟨fun ⟨hallocs, hsaves, hgrows, hremap⟩ => ⟨hallocs, hsaves, hgrows, hremap⟩,
      fun ⟨hallocs, hsaves, hgrows, hremap⟩ => ⟨hallocs, hsaves, hgrows, hremap⟩⟩

theorem takeBlockFromCache_frame (space : Space) : ∃ freeBlocks handed,
    space.takeBlockFromCache.2 = { space with freeBlocks := freeBlocks, handed := handed } := by
  simp only [Space.takeBlockFromCache]
  split
  · exact ⟨space.freeBlocks, space.handed, rfl⟩
  · exact ⟨_, _, rfl⟩

theorem lockAndAlloc_cached {client count : Nat} (hle : count ≤ space.freeBlocks.length) :
    space.lockAndAlloc env client count = (true, { space with
      takenFromPool := false
      lockedBy := some client
      flushRequested := false }) := by
  simp only [Space.lockAndAlloc, if_neg (Nat.not_lt.mpr hle)]

theorem Owned.getBlock {client : Nat} (howned : space.Owned)
    (hsafe : space.lockedBy ≠ some client → space.freeBlocks = [] → space.TakesSafely env) :
    (space.getBlock env client).2.Owned := by
  simp only [Space.getBlock]
  split
  case isTrue => exact howned.takeBlockFromCache
  case isFalse hother =>
    have hempty : space.freeBlocks.length < 1 → space.TakesSafely env := fun hless =>
      hsafe hother (List.length_eq_zero_iff.mp (Nat.lt_one_iff.mp hless))
    have hwrites := fun hless => (hempty hless).allocs
    have hkeeps := howned.fits.lockAndAlloc client hwrites
    split
    case h_1 stopped hstop =>
      rw [hstop] at hkeeps
      exact howned.keeps hkeeps
    case h_2 locked hlock =>
      rw [hlock] at hkeeps
      have htaken := (howned.keeps hkeeps).takeBlockFromCache
      refine htaken.keeps (htaken.fits.unlockAllocation ?_ ?_)
      all_goals
        obtain ⟨freeBlocks, handed, hframe⟩ := takeBlockFromCache_frame locked
        rw [hframe]
      · intro hflush
        by_cases hless : space.freeBlocks.length < 1
        · exact (hempty hless).saves
        · rw [lockAndAlloc_cached (Nat.not_lt.mp hless)] at hlock
          cases hlock
          cases hflush
      · intro htook
        by_cases hless : space.freeBlocks.length < 1
        · have hsame := lockAndAlloc_frame client howned.fits hwrites
          rw [hlock] at hsame
          obtain ⟨hbackup, hparts⟩ := hsame
          rcases (hempty hless).grows with hfrozen | ⟨hin, hfit⟩
          · exact .inl (hbackup ▸ hfrozen)
          · have hreach := lockAndAlloc_inFile client (hempty hless).allocs hless
              hin (hempty hless).remap (by rw [hlock])
            rw [hlock] at hreach
            exact .inr ⟨hreach, hparts hfit⟩
        · rw [lockAndAlloc_cached (Nat.not_lt.mp hless)] at hlock
          cases hlock
          cases htook

/-! Big blocks. -/

theorem byte_of_ffBytes {corepool start i : Nat}
    (hsize : ffBytes corepool start = SMALL_BLOCKS_PER_BIG_BLOCK / 8)
    (hi : i < SMALL_BLOCKS_PER_BIG_BLOCK / 8) :
    Bitmap.byte corepool (start + i) = 2 ^ 8 - 1 := by
  have hstarts := List.takeWhile_prefix (l := List.range (SMALL_BLOCKS_PER_BIG_BLOCK / 8))
    fun i => Bitmap.byte corepool (start + i) == 2 ^ 8 - 1
  have hwhole := hstarts.eq_of_length (by rw [List.length_range]; exact hsize)
  have hmem := List.mem_range.mpr hi
  rw [← hwhole] at hmem
  have hbyte := List.mem_takeWhile_imp hmem
  exact beq_iff_eq.mp hbyte

/-- A big block lies in its bpool and all its blocks are free. -/
theorem findBigBlock_spec {corepool start found : Nat}
    (hfound : findBigBlock corepool start = some found) :
    8 * found + SMALL_BLOCKS_PER_BIG_BLOCK ≤ 8 * BLOCKSIZE ∧
      ∀ k, 8 * found ≤ k → k < 8 * found + SMALL_BLOCKS_PER_BIG_BLOCK →
        corepool.testBit k = true := by
  fun_induction findBigBlock corepool start with
  | case1 start hle size hsize =>
      obtain rfl := Option.some.inj hfound
      refine ⟨by simp only [BLOCKSIZE, SMALL_BLOCKS_PER_BIG_BLOCK] at hle ⊢; omega,
        fun k hlow hhigh => ?_⟩
      have hbyte := byte_of_ffBytes (i := k / 8 - start) hsize (by
        simp only [SMALL_BLOCKS_PER_BIG_BLOCK] at hhigh ⊢
        omega)
      have hbit := Bitmap.testBit_of_full_byte hbyte (Nat.mod_lt k (by decide))
      have hk : 8 * (start + (k / 8 - start)) + k % 8 = k := by omega
      rwa [hk] at hbit
  | case2 start hle size hsize ih => exact ih hfound
  | case3 start hle => cases hfound

theorem findBigBlock_full : findBigBlock fullBpool 0 = some 1 := by
  decide +kernel

theorem mem_bigBlock {dadr other : Nat} :
    other ∈ bigBlock dadr ↔ dadr ≤ other ∧ other < dadr + SMALL_BLOCKS_PER_BIG_BLOCK :=
  List.mem_range'_1

theorem nodup_bigBlock (dadr : Nat) : (bigBlock dadr).Nodup := List.nodup_range' ..

/-- The disk space gives away the blocks that it does not keep any more. -/
structure Gives (space next : Space) (taken : List Nat) : Prop where
  handed : next.handed = space.handed
  kept : ∀ dadr, next.kept dadr + taken.count dadr + (space.isBlock dadr).toNat =
    space.kept dadr + (next.isBlock dadr).toNat
  inRange : next.nextPool < next.bpoolCount
  readable : ∀ poolnum < next.bpoolCount, (next.bpools poolnum).isSome

theorem Gives.after {mid : Space} {taken : List Nat} (hkeeps : space.Keeps mid)
    (hgives : mid.Gives next taken) : space.Gives next taken where
  handed := hgives.handed.trans hkeeps.handed
  kept := by
    intro dadr
    have hkept := hkeeps.kept dadr
    have hgiven := hgives.kept dadr
    omega
  inRange := hgives.inRange
  readable := hgives.readable

theorem Gives.fits {taken : List Nat} (hfits : space.Fits) (hgives : space.Gives next taken) :
    next.Fits where
  kept_le := by
    intro dadr
    have hle := hfits.kept_le dadr
    have hgiven := hgives.kept dadr
    omega
  inRange := hgives.inRange
  readable := hgives.readable

theorem Owned.gives {mid : Space} {taken : List Nat} (howned : space.Owned)
    (hgives : space.Gives mid taken) (hkeeps : mid.Keeps next) :
    ({ next with handed := taken ++ next.handed } : Space).Owned where
  place := by
    intro dadr
    have hplace := howned.place dadr
    have hgiven := hgives.kept dadr
    have hkept := hkeeps.kept dadr
    change (taken ++ next.handed).count dadr + next.kept dadr = (next.isBlock dadr).toNat
    rw [List.count_append, hkeeps.handed, hgives.handed]
    omega
  inRange := hkeeps.inRange
  readable := hkeeps.readable

theorem mem_bigBlock_of_pool {start : Nat} (poolnum dadr : Nat)
    (hfit : 8 * start + SMALL_BLOCKS_PER_BIG_BLOCK ≤ 8 * BLOCKSIZE) :
    dadr ∈ bigBlock ((poolnum * BLOCKSIZE + start) * 8) ↔
      poolFromDadr dadr = poolnum ∧ 8 * start ≤ dadr % (8 * BLOCKSIZE) ∧
        dadr % (8 * BLOCKSIZE) < 8 * start + SMALL_BLOCKS_PER_BIG_BLOCK := by
  rw [mem_bigBlock]
  simp only [poolFromDadr, BLOCKSIZE, SMALL_BLOCKS_PER_BIG_BLOCK] at hfit ⊢
  omega

theorem Fits.giveBigBlock {start : Nat} (hfits : space.Fits)
    (hfound : findBigBlock ((space.bpools space.nextPool).getD fullBpool) 0 = some start) :
    space.Gives { space with
        bpools := Function.update space.bpools space.nextPool
          (some (Bitmap.clear ((space.bpools space.nextPool).getD fullBpool) (8 * start)
            SMALL_BLOCKS_PER_BIG_BLOCK)) }
      (bigBlock ((space.nextPool * BLOCKSIZE + start) * 8)) := by
  obtain ⟨hfit, hbits⟩ := findBigBlock_spec hfound
  refine ⟨rfl, fun dadr => ?_, hfits.inRange, fun poolnum hlt => ?_⟩
  · have hmem := mem_bigBlock_of_pool space.nextPool dadr hfit
    set corepool := (space.bpools space.nextPool).getD fullBpool with hcorepool
    have hmark : (markedIn space.bpoolCount (Function.update space.bpools space.nextPool
        (some (Bitmap.clear corepool (8 * start) SMALL_BLOCKS_PER_BIG_BLOCK))) dadr).toNat +
        (bigBlock ((space.nextPool * BLOCKSIZE + start) * 8)).count dadr =
        (markedIn space.bpoolCount space.bpools dadr).toNat := by
      rw [markedIn_update hfits.inRange]
      by_cases htaken : dadr ∈ bigBlock ((space.nextPool * BLOCKSIZE + start) * 8)
      · obtain ⟨hpool, hlow, hhigh⟩ := hmem.mp htaken
        rw [List.count_eq_one_of_mem (nodup_bigBlock _) htaken, if_pos hpool,
          markedIn_pool hfits hpool, ← hcorepool]
        simp [bitOf, hpool, hlow, hhigh, hbits]
      · rw [List.count_eq_zero.mpr htaken, Nat.add_zero]
        split
        case isFalse => rfl
        case isTrue hpool =>
          rw [markedIn_pool hfits hpool, ← hcorepool]
          have hout : ¬ (8 * start ≤ dadr % (8 * BLOCKSIZE) ∧
              dadr % (8 * BLOCKSIZE) < 8 * start + SMALL_BLOCKS_PER_BIG_BLOCK) :=
            fun hin => htaken (hmem.mpr ⟨hpool, hin⟩)
          simp [bitOf, hpool, hout]
    change space.freeBlocks.count dadr + space.preFreeBlocks.count dadr + (markedIn _ _ _).toNat +
      _ + (space.isBlock dadr).toNat = _ + (space.isBlock dadr).toNat
    simp only [kept, marked]
    omega
  · by_cases hsame : poolnum = space.nextPool
    · simp [hsame]
    · simpa [hsame] using hfits.readable poolnum hlt

theorem Fits.searchBigBlock (env : Env) (fuel cyc : Nat) (hfits : space.Fits) :
    space.TakenTo (searchBigBlock env fuel cyc space).2 ∧
      (∀ dadr, (searchBigBlock env fuel cyc space).1 = some dadr →
        space.Gives (searchBigBlock env fuel cyc space).2 (bigBlock dadr)) ∧
      ((searchBigBlock env fuel cyc space).1 = none →
        space.Keeps (searchBigBlock env fuel cyc space).2) := by
  induction fuel generalizing cyc space with
  | zero => exact ⟨.refl space, by simp [Space.searchBigBlock], fun _ => hfits.refl⟩
  | succ fuel ih =>
      simp only [Space.searchBigBlock]
      split
      case h_1 start hfound =>
        cases hfails : env.bigBlockFails.contains space.nextPool with
        | true =>
            simp only [writeBpool, if_true]
            exact ⟨.refl space, by simp, fun _ => hfits.refl⟩
        | false =>
            simp only [writeBpool, Bool.false_eq_true, if_false]
            refine ⟨⟨_, _, _, _, _, rfl⟩, fun dadr hdadr => ?_, by simp⟩
            cases hdadr
            exact hfits.giveBigBlock hfound
      case h_2 =>
        have hnext := hfits.toNextPool
        have hnextTo : space.TakenTo space.toNextPool := ⟨_, _, _, _, _, rfl⟩
        obtain ⟨hchecked, hcheckedTo⟩ := (hfits.keeps hnext).checkedPool env (cyc + 1)
        have hsofar := hnext.trans hchecked
        have hsofarTo := hnextTo.trans hcheckedTo
        split
        case isFalse => exact ⟨hsofarTo, by simp, fun _ => hsofar⟩
        case isTrue =>
          obtain ⟨hrestTo, hgives, hkeeps⟩ := ih (cyc + 1) (hfits.keeps hsofar)
          exact ⟨hsofarTo.trans hrestTo, fun dadr hdadr => (hgives dadr hdadr).after hsofar,
            fun hnone => hsofar.trans (hkeeps hnone)⟩

theorem bigBlock_inFile {base start : Nat} (hrange : space.nextPool < space.bpoolCount)
    (hreach : (space.InFile 0 ∧ space.bpoolCount = base) ∨
      (space.Fresh ∧ space.bpoolCount = base + 1))
    (hfit : 8 * start + SMALL_BLOCKS_PER_BIG_BLOCK ≤ 8 * BLOCKSIZE) :
    space.InFile (space.bpoolFirst + (space.nextPool * BLOCKSIZE + start) * 8 +
        SMALL_BLOCKS_PER_BIG_BLOCK - 1) ∧
      (space.nextPool * BLOCKSIZE + start) * 8 + SMALL_BLOCKS_PER_BIG_BLOCK ≤
        (base + 1) * (8 * BLOCKSIZE) := by
  simp only [InFile, SMALL_BLOCKS_PER_BIG_BLOCK, BLOCKSIZE] at hreach hfit ⊢
  rcases hreach with ⟨hin, hcount⟩ | ⟨hfresh, hcount⟩
  · omega
  · have hlast := hfresh.last
    omega

/-- A big block lies in the file, or in the one new bpool. -/
theorem searchBigBlock_inFile {base dadr : Nat} (fuel cyc : Nat)
    (hrange : space.nextPool < space.bpoolCount)
    (hreach : (space.InFile 0 ∧ space.bpoolCount = base) ∨
      (space.Fresh ∧ space.bpoolCount = base + 1))
    (hfound : (searchBigBlock env fuel cyc space).1 = some dadr) :
    (searchBigBlock env fuel cyc space).2.InFile
        (space.bpoolFirst + dadr + SMALL_BLOCKS_PER_BIG_BLOCK - 1) ∧
      dadr + SMALL_BLOCKS_PER_BIG_BLOCK ≤ (base + 1) * (8 * BLOCKSIZE) := by
  induction fuel generalizing cyc space with
  | zero => cases hfound
  | succ fuel ih =>
      simp only [Space.searchBigBlock] at hfound ⊢
      cases hstart : findBigBlock ((space.bpools space.nextPool).getD fullBpool) 0 with
      | some start =>
          obtain ⟨hfit, -⟩ := findBigBlock_spec hstart
          simp only [hstart] at hfound ⊢
          cases hfails : env.bigBlockFails.contains space.nextPool with
          | true =>
              simp only [writeBpool, hfails, if_true] at hfound
              cases hfound
          | false =>
              simp only [writeBpool, hfails, Bool.false_eq_true, if_false,
                Option.some.injEq] at hfound ⊢
              subst hfound
              have hin := bigBlock_inFile hrange hreach hfit
              exact hin
      | none =>
          simp only [hstart] at hfound ⊢
          have hold : space.InFile 0 ∧ space.bpoolCount = base := by
            refine hreach.resolve_right ?_
            rintro ⟨hfresh, -⟩
            rw [hfresh.full, Option.getD_some, findBigBlock_full] at hstart
            cases hstart
          split at hfound
          case isFalse => cases hfound
          case isTrue hadded =>
            rw [if_pos hadded]
            rcases checkedPool_cases space.toNextPool env (cyc + 1) with hsame | hnew
            · rw [hsame] at hfound ⊢
              exact ih (cyc + 1) (toNextPool_lt hrange) (.inl hold) hfound
            · rw [hnew] at hfound ⊢
              exact ih (cyc + 1) (Nat.lt_succ_self _)
                (.inr ⟨fresh_withNewPool _, congrArg (· + 1) hold.2⟩) hfound

theorem addBpools_ok (todo : List Nat) (space : Space) :
    (addBpools ⟨[], []⟩ todo space).1 = false := by
  induction todo generalizing space with
  | nil => rfl
  | cons poolnum todo ih =>
      simp only [addBpools, writeBpool, List.contains_nil, Bool.false_eq_true, if_false]
      exact ih _

theorem rawWrites_ok (blocks : List Nat) (space : Space) :
    (rawWrites ⟨[], []⟩ blocks space).1 = false := by
  induction blocks generalizing space with
  | nil => rfl
  | cons block blocks ih =>
      simp only [rawWrites, List.contains_nil, Bool.false_eq_true, if_false]
      exact ih _

theorem setFilSize_ok {newblocks : Nat} (hsize : newblocks ≤ 0xff000000) :
    (space.setFilSize ⟨[], []⟩ newblocks).1 = false := by
  simp only [setFilSize, if_neg (Nat.not_lt.mpr hsize)]
  split
  · rfl
  · simp only [addBpools_ok, rawWrites_ok, Bool.false_eq_true, if_false]

theorem extendDatabaseIfOutside_ok (space : Space) (env : Env) (maxPhysBlock : Nat)
    (hagain : space.newDbFileSize.isSome = true ∨
      (env.again = ⟨[], []⟩ ∧ maxPhysBlock + 1 ≤ 0xff000000)) :
    (space.extendDatabaseIfOutside env maxPhysBlock).1 = true := by
  simp only [extendDatabaseIfOutside]
  split
  case h_1 => rfl
  case h_2 hbackup =>
    rw [hbackup] at hagain
    obtain ⟨hagain, hsize⟩ := hagain.resolve_left (by simp)
    generalize (if space.dbFileSize < 25600 then 256 else 2560) = minstep
    split
    case isFalse => rfl
    case isTrue =>
      generalize (if maxPhysBlock + 1 - space.dbFileSize < minstep then minstep
        else maxPhysBlock + 1 - space.dbFileSize) = step
      split
      case isTrue => simp only [hagain, setFilSize_ok hsize, Bool.not_false]
      case isFalse => rfl

/-- What a call that takes a big block needs. -/
structure TakesBigSafely (space : Space) (env : Env) : Prop where
  saves : env.saveFails = []
  grows : space.newDbFileSize.isSome = true ∨
    (space.InFile 0 ∧ space.PartsFit ∧ env.again = ⟨[], []⟩ ∧
      space.bpoolFirst + (space.bpoolCount + 1) * (8 * BLOCKSIZE) ≤ 0xff000000)

instance (space : Space) (env : Env) : Decidable (space.TakesBigSafely env) :=
  decidable_of_iff (env.saveFails = [] ∧ (space.newDbFileSize.isSome = true ∨
    (space.InFile 0 ∧ space.PartsFit ∧ env.again = ⟨[], []⟩ ∧
      space.bpoolFirst + (space.bpoolCount + 1) * (8 * BLOCKSIZE) ≤ 0xff000000)))
    ⟨fun ⟨hsaves, hgrows⟩ => ⟨hsaves, hgrows⟩, fun ⟨hsaves, hgrows⟩ => ⟨hsaves, hgrows⟩⟩

theorem TakenTo.same (htaken : space.TakenTo next) :
    next.newDbFileSize = space.newDbFileSize ∧ next.bpoolFirst = space.bpoolFirst ∧
      (space.PartsFit → next.PartsFit) := by
  obtain ⟨_, _, _, _, _, rfl⟩ := htaken
  exact ⟨rfl, rfl, id⟩

theorem SavedTo.same (hsaved : space.SavedTo next) :
    next.newDbFileSize = space.newDbFileSize ∧ next.bpoolFirst = space.bpoolFirst ∧
      (space.PartsFit → next.PartsFit) ∧
      ∀ maxPhysBlock, space.InFile maxPhysBlock → next.InFile maxPhysBlock := by
  obtain ⟨_, _, _, _, _, rfl⟩ := hsaved
  exact ⟨rfl, rfl, id, fun _ => id⟩

theorem Owned.getBigBlock (howned : space.Owned) (hsafe : space.TakesBigSafely env) :
    (space.getBigBlock env).2.Owned := by
  obtain ⟨hframe, hgives, hkeeps⟩ := howned.fits.searchBigBlock env
    (space.bpoolCount + 2) 0
  simp only [Space.getBigBlock]
  split
  case h_1 stopped hstop =>
    rw [hstop] at hkeeps
    exact howned.keeps (hkeeps rfl)
  case h_2 dadr found hfound =>
    rw [hfound] at hgives hframe
    dsimp only at hgives hframe
    have hgiven := hgives dadr rfl
    have hfits := hgiven.fits howned.fits
    obtain ⟨hflushed, hflushedTo⟩ := hfits.flushAndTime hsafe.saves
    generalize found.flushAndTime env = flushed at hflushed hflushedTo ⊢
    have hreach : space.InFile 0 → found.InFile
          (space.bpoolFirst + dadr + SMALL_BLOCKS_PER_BIG_BLOCK - 1) ∧
        dadr + SMALL_BLOCKS_PER_BIG_BLOCK ≤ (space.bpoolCount + 1) * (8 * BLOCKSIZE) := by
      intro hin
      have hwithin := searchBigBlock_inFile (space.bpoolCount + 2) 0 howned.inRange
        (.inl ⟨hin, rfl⟩) (by rw [hfound])
      rwa [hfound] at hwithin
    obtain ⟨hbackup, hfirst, hparts⟩ := hframe.same
    obtain ⟨hbackup', -, hparts', hinFile⟩ := hflushedTo.same
    rw [hfirst]
    have hextended := extendDatabaseIfOutside_ok flushed env
      (space.bpoolFirst + dadr + SMALL_BLOCKS_PER_BIG_BLOCK - 1)
      (by
        rw [hbackup'.trans hbackup]
        refine hsafe.grows.imp_right fun ⟨hin, _, hagain, hlimit⟩ => ⟨hagain, ?_⟩
        have hdadr := (hreach hin).2
        simp only [SMALL_BLOCKS_PER_BIG_BLOCK, BLOCKSIZE] at hdadr hlimit ⊢
        omega)
    have hgrown := (hfits.keeps hflushed).grown (extendDatabaseIfOutside_grown env
      (by
        rw [hbackup'.trans hbackup]
        exact hsafe.grows.imp_right fun ⟨hin, hfit, _⟩ =>
          ⟨hinFile _ (hreach hin).1, hparts' (hparts hfit)⟩))
    have hall := hflushed.trans hgrown
    split
    case h_1 refused hrefused =>
      rw [hrefused] at hextended
      cases hextended
    case h_2 extended hlong =>
      rw [hlong] at hall
      exact howned.gives hgiven hall

/-! Releasing. -/

theorem Owned.releaseBlockDirect {dadr : Nat} (howned : space.Owned)
    (hmem : dadr ∈ space.handed) : (space.releaseBlockDirect dadr).Owned where
  place := by
    intro other
    have hplace := howned.place other
    have hcount := (List.perm_cons_erase hmem).count_eq other
    change (space.handed.erase dadr).count other + ((space.freeBlocks ++ [dadr]).count other +
      space.preFreeBlocks.count other + (space.marked other).toNat) =
      (space.isBlock other).toNat
    rw [List.count_cons] at hcount
    rw [List.count_append, List.count_singleton]
    simp only [kept] at hplace
    omega
  inRange := howned.inRange
  readable := howned.readable

theorem Owned.releaseBlockSafe {dadr : Nat} (howned : space.Owned)
    (hmem : dadr ∈ space.handed) : (space.releaseBlockSafe dadr).Owned := by
  simp only [Space.releaseBlockSafe]
  split
  case isTrue => exact howned.releaseBlockDirect hmem
  case isFalse =>
    refine ⟨fun other => ?_, howned.inRange, howned.readable⟩
    have hplace := howned.place other
    have hcount := (List.perm_cons_erase hmem).count_eq other
    change (space.handed.erase dadr).count other + (space.freeBlocks.count other +
      (space.preFreeBlocks ++ [dadr]).count other + (space.marked other).toNat) =
      (space.isBlock other).toNat
    rw [List.count_cons] at hcount
    rw [List.count_append, List.count_singleton]
    simp only [kept] at hplace
    omega

end Space

/-- A bpool is written after blocks were put into the cache or taken from it, and
the file is extended after a big block was taken: then nothing may fail. -/
def SpaceOk (space : Space) (call : Env × SpaceOp) : Prop :=
  match call.2 with
  | .getBlock client =>
      space.lockedBy ≠ some client → space.freeBlocks = [] → space.TakesSafely call.1
  | .getBigBlock => space.TakesBigSafely call.1
  | .lockAndAlloc _ count => space.freeBlocks.length < count → call.1.allocFails = []
  | .flushRequest => True
  | .unlockAllocation =>
      ((space.takenFromPool || space.flushRequested) = true → call.1.saveFails = []) ∧
        (space.takenFromPool = true → space.Extendable space.maxPhysBlock)
  | .releaseBlockDirect dadr | .releaseBlockSafe dadr => dadr ∈ space.handed
  | .reduceFreeBlocks | .extflush _ | .flushAndTime | .closeBlockCache =>
      call.1.saveFails = []

namespace Space

variable {space : Space}

theorem Owned.step {call : Env × SpaceOp} (howned : space.Owned) (hok : SpaceOk space call) :
    (spaceStep space call).Owned := by
  obtain ⟨env, op⟩ := call
  cases op with
  | getBlock client => exact howned.getBlock hok
  | getBigBlock => exact howned.getBigBlock hok
  | lockAndAlloc client count => exact howned.keeps (howned.fits.lockAndAlloc client hok)
  | flushRequest => exact ⟨howned.place, howned.inRange, howned.readable⟩
  | unlockAllocation => exact howned.keeps (howned.fits.unlockAllocation hok.1 hok.2)
  | releaseBlockDirect dadr => exact howned.releaseBlockDirect hok
  | releaseBlockSafe dadr => exact howned.releaseBlockSafe hok
  | reduceFreeBlocks => exact howned.keeps (howned.fits.reduceFreeBlocks hok).1
  | extflush unconditional => exact howned.keeps (howned.fits.extflush hok unconditional)
  | flushAndTime => exact howned.keeps (howned.fits.flushAndTime hok).1
  | closeBlockCache => exact howned.keeps (howned.fits.closeBlockCache hok)

/-- The blocks that are handed out differ from each other, from block 0 and from
the bpools, and every block of the bpools is in exactly one place. -/
structure OnePlace (space : Space) : Prop where
  place : ∀ dadr, space.handed.count dadr + space.freeBlocks.count dadr +
    space.preFreeBlocks.count dadr + (space.marked dadr).toNat = (space.isBlock dadr).toNat
  nodup : space.handed.Nodup
  proper : ∀ dadr ∈ space.handed, dadr % (8 * BLOCKSIZE) ≠ 0

theorem Owned.onePlace (howned : space.Owned) : space.OnePlace where
  place := by
    intro dadr
    have hplace := howned.place dadr
    simp only [kept] at hplace
    omega
  nodup := howned.handed_nodup
  proper := by
    intro dadr hmem
    have hblock := howned.isBlock_of_handed hmem
    simp only [isBlock, Bool.and_eq_true, decide_eq_true_eq] at hblock
    exact hblock.2

end Space

theorem blocks_onePlace {space : Space} {calls : List (Env × SpaceOp)} (howned : space.Owned)
    (hmeets : Run.Meets spaceStep SpaceOk space calls) :
    Run.Always spaceStep Space.OnePlace space calls :=
  Run.always_of_invariant Space.Owned (fun _ howned => howned.onePlace)
    (fun _ _ howned hok => howned.step hok) howned hmeets

instance SpaceOk.decide : ∀ space call, Decidable (SpaceOk space call)
  | space, (env, .getBlock client) =>
      inferInstanceAs (Decidable
        (space.lockedBy ≠ some client → space.freeBlocks = [] → space.TakesSafely env))
  | space, (env, .getBigBlock) => inferInstanceAs (Decidable (space.TakesBigSafely env))
  | space, (env, .lockAndAlloc _ count) =>
      inferInstanceAs (Decidable (space.freeBlocks.length < count → env.allocFails = []))
  | _, (_, .flushRequest) => isTrue trivial
  | space, (env, .unlockAllocation) =>
      inferInstanceAs (Decidable
        (((space.takenFromPool || space.flushRequested) = true → env.saveFails = []) ∧
          (space.takenFromPool = true → space.Extendable space.maxPhysBlock)))
  | space, (_, .releaseBlockDirect dadr) | space, (_, .releaseBlockSafe dadr) =>
      inferInstanceAs (Decidable (dadr ∈ space.handed))
  | _, (env, .reduceFreeBlocks) | _, (env, .extflush _) | _, (env, .flushAndTime)
  | _, (env, .closeBlockCache) => inferInstanceAs (Decidable (env.saveFails = []))

/-- A new database: eight blocks are in use. -/
def createdSpace : Space where
  bpoolFirst := 100
  bpoolCount := 1
  bpools := fun poolnum => if poolnum = 0 then some (Bitmap.clear fullBpool 1 8) else none
  nextPool := 0
  freeBlocks := []
  preFreeBlocks := []
  takenFromPool := false
  flushRequested := false
  maxPhysBlock := 0
  lockedBy := none
  dbFileSize := 400
  partEnds := []
  newDbFileSize := none
  remap := []
  flushPeriod := 10
  lastFilFlush := 0
  stopFlushing := false
  handed := List.range' 1 8

theorem owned_createdSpace : createdSpace.Owned where
  place := by
    intro dadr
    have hmem : (List.range' 1 8).count dadr = (decide (1 ≤ dadr ∧ dadr < 9)).toNat := by
      by_cases hin : 1 ≤ dadr ∧ dadr < 9
      · rw [List.count_eq_one_of_mem (List.nodup_range' ..) (List.mem_range'_1.mpr hin),
          decide_eq_true hin, Bool.toNat_true]
      · rw [List.count_eq_zero.mpr (mt List.mem_range'_1.mp hin), decide_eq_false hin,
          Bool.toNat_false]
    simp only [createdSpace, Space.kept, Space.marked, Space.markedIn, Space.isBlock, hmem,
      List.count_nil, Nat.zero_add]
    by_cases hpool : poolFromDadr dadr < 1
    · have hlt : dadr < 8 * BLOCKSIZE := (Nat.div_lt_one_iff (by decide)).mp hpool
      have hzero : poolFromDadr dadr = 0 := Nat.lt_one_iff.mp hpool
      simp only [hzero, if_true, Option.getD_some, Bitmap.testBit_clear,
        Nat.mod_eq_of_lt hlt, testBit_fullBpool hlt]
      by_cases hin : 1 ≤ dadr ∧ dadr < 9
      · simp [hin, Nat.ne_of_gt (show 0 < dadr from hin.1)]
      · simp [hin]
    · have hlarge : ¬ (1 ≤ dadr ∧ dadr < 9) := by
        simp only [poolFromDadr, BLOCKSIZE] at hpool
        omega
      simp [hpool, hlarge]
  inRange := by decide
  readable := by decide

def quietEnv : Env := ⟨100, [], [], [], [], ⟨[], []⟩, ⟨[], []⟩⟩

theorem blocks_onePlace_createdSpace :
    Run.Always spaceStep Space.OnePlace createdSpace
      [(quietEnv, .releaseBlockDirect 5), (quietEnv, .releaseBlockSafe 6),
        (quietEnv, .extflush true), (quietEnv, .getBlock 1), (quietEnv, .closeBlockCache),
        (quietEnv, .getBigBlock), (quietEnv, .getBlock 1)] :=
  blocks_onePlace owned_createdSpace (by decide +kernel)

namespace Space

variable {space : Space} {env : Env}

/-- When the write of a bpool fails after a scan, the blocks found in it stay both
in the cache and in the bpool. -/
theorem takeScan_fails {scan : Scan} (hfits : space.Fits)
    (hscanned : space.Scanned ⟨(space.bpools space.nextPool).getD fullBpool, space.freeBlocks,
      space.maxPhysBlock, false⟩ scan) (hchange : scan.change = true)
    (hfails : env.allocFails.contains space.nextPool = true) :
    (space.takeScan env scan).1 = true ∧ ∃ dadr ∈ (space.takeScan env scan).2.freeBlocks,
      (space.takeScan env scan).2.marked dadr = true := by
  obtain ⟨-, k, hk, hbit, hmem, -⟩ := (hscanned.taken hchange).resolve_left (by simp)
  simp only [takeScan, hchange, if_true, writeBpool, hfails]
  refine ⟨trivial, _, hmem, ?_⟩
  have hpool : poolFromDadr (space.nextPool * (8 * BLOCKSIZE) + k) = space.nextPool :=
    poolFromDadr_block hk
  have hmark := markedIn_pool hfits hpool
  dsimp only at hbit
  rw [bitOf, hpool, mod_block hk, hbit, decide_eq_true rfl] at hmark
  exact hmark

theorem not_onePlace {dadr : Nat} (hmem : dadr ∈ space.freeBlocks)
    (hmark : space.marked dadr = true) : ¬ space.OnePlace := by
  intro hone
  have hplace := hone.place dadr
  have hcount := List.count_pos_iff.mpr hmem
  have hle := Bool.toNat_le (space.isBlock dadr)
  rw [hmark, Bool.toNat_true] at hplace
  omega

theorem fillCache_failed {count : Nat} (fuel cyc : Nat)
    (hfailed : (space.takeFromPool env count).1 = true) :
    fillCache env count (fuel + 1) cyc space = (false, (space.takeFromPool env count).2) := by
  rw [fillCache, if_pos hfailed]

theorem getBlock_failed {client : Nat} {filled : Space} (hother : space.lockedBy ≠ some client)
    (hempty : space.freeBlocks = [])
    (hfilled : fillCache env BLOCK_FILL_LIMIT (space.bpoolCount + 1 + BLOCK_FILL_LIMIT) 0
      { space with takenFromPool := true, maxPhysBlock := 0 } = (false, filled)) :
    (space.getBlock env client).2 = filled := by
  have hless : space.freeBlocks.length < 1 := by
    rw [hempty]
    exact Nat.zero_lt_one
  have hlock : space.lockAndAlloc env client 1 = (false, filled) := by
    simp only [lockAndAlloc, if_pos hless, if_pos (show 1 < BLOCK_FILL_LIMIT by decide), hfilled]
  simp only [getBlock, if_neg hother, hlock]

/-- A failed write in get_block leaves a block in two places, in whichever state
the cache is empty and the next bpool is not. -/
theorem getBlock_fails {client k : Nat} (hfits : space.Fits)
    (hother : space.lockedBy ≠ some client) (hempty : space.freeBlocks = [])
    (hfails : env.allocFails.contains space.nextPool = true) (hk : k < 8 * BLOCKSIZE)
    (hbit : ((space.bpools space.nextPool).getD fullBpool).testBit k = true) :
    ¬ (space.getBlock env client).2.OnePlace := by
  obtain ⟨start, hstart⟩ : ∃ start : Space,
      start = { space with takenFromPool := true, maxPhysBlock := 0 } := ⟨_, rfl⟩
  have hfitsStart : start.Fits := by
    rw [hstart]
    exact hfits.keeps (hfits.setLock true space.flushRequested space.lockedBy 0)
  have hchange : (start.scanPool BLOCK_FILL_LIMIT).change = true := by
    refine scanPool_change hk ?_ ?_
    · rw [hstart]
      exact hbit
    · rw [hstart]
      simp [hempty, BLOCK_FILL_LIMIT]
  have hfailsStart : env.allocFails.contains start.nextPool = true := by
    rw [hstart]
    exact hfails
  have hscanned := takeScan_fails hfitsStart (scanPool_scanned start BLOCK_FILL_LIMIT) hchange
    hfailsStart
  rw [← takeFromPool] at hscanned
  obtain ⟨hfailed, dadr, hmem, hmark⟩ := hscanned
  have hfilled := fillCache_failed (space.bpoolCount + BLOCK_FILL_LIMIT) 0 hfailed
  rw [hstart, Nat.add_right_comm] at hfilled
  rw [getBlock_failed hother hempty hfilled, ← hstart]
  exact not_onePlace hmem hmark

theorem not_always_getBlock {client : Nat}
    (hfails : ¬ (space.getBlock env client).2.OnePlace) :
    ¬ Run.Always spaceStep OnePlace space [(env, .getBlock client)] :=
  fun halways => hfails halways.2

end Space

theorem getBlock_doubles : createdSpace.Owned ∧
    ¬ Run.Always spaceStep Space.OnePlace createdSpace
      [({ quietEnv with allocFails := [0] }, .getBlock 1)] := by
  have hbit : ((createdSpace.bpools createdSpace.nextPool).getD fullBpool).testBit 9 = true := by
    simp [createdSpace, testBit_fullBpool (show 9 < 8 * BLOCKSIZE by decide)]
  refine ⟨owned_createdSpace, Space.not_always_getBlock ?_⟩
  exact Space.getBlock_fails owned_createdSpace.fits (by decide) rfl (by decide) (by decide) hbit

end Sql602.Disk
