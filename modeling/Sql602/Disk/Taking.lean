import Mathlib.Order.MinMax
import Sql602.Disk.Growth

namespace Sql602.Disk

namespace Space

variable {space next : Space} {env : Env} {count : Nat}

/-! The scan of one bpool. -/

def bitOf (poolnum corepool dadr : Nat) : Bool :=
  decide (poolFromDadr dadr = poolnum) && corepool.testBit (dadr % (8 * BLOCKSIZE))

theorem poolFromDadr_block {poolnum k : Nat} (hk : k < 8 * BLOCKSIZE) :
    poolFromDadr (poolnum * (8 * BLOCKSIZE) + k) = poolnum := by
  rw [poolFromDadr, Nat.mul_comm, Nat.mul_add_div (by decide), Nat.div_eq_of_lt hk,
    Nat.add_zero]

theorem mod_block {poolnum k : Nat} (hk : k < 8 * BLOCKSIZE) :
    (poolnum * (8 * BLOCKSIZE) + k) % (8 * BLOCKSIZE) = k := by
  rw [Nat.mul_add_mod_self_right, Nat.mod_eq_of_lt hk]

/-- What a scan leads to: every bit that it clears is a block of the cache. -/
structure Scanned (space : Space) (scan result : Scan) : Prop where
  kept : ∀ dadr, result.freeBlocks.count dadr +
      (bitOf space.nextPool result.corepool dadr).toNat =
    scan.freeBlocks.count dadr + (bitOf space.nextPool scan.corepool dadr).toNat
  same : result.change = false → result = scan
  phys : scan.maxPhysBlock ≤ result.maxPhysBlock
  mem : scan.freeBlocks ⊆ result.freeBlocks
  length : scan.freeBlocks.length ≤ result.freeBlocks.length
  taken : result.change = true → scan.change = true ∨
    (scan.freeBlocks.length < result.freeBlocks.length ∧ ∃ k < 8 * BLOCKSIZE,
      scan.corepool.testBit k = true ∧
      space.nextPool * (8 * BLOCKSIZE) + k ∈ result.freeBlocks ∧
      space.translateBlocknum (space.bpoolFirst + (space.nextPool * (8 * BLOCKSIZE) + k)) ≤
        result.maxPhysBlock)

theorem Scanned.refl (space : Space) (scan : Scan) : space.Scanned scan scan where
  kept := fun _ => rfl
  same := fun _ => rfl
  phys := le_rfl
  mem := List.Subset.refl _
  length := le_rfl
  taken := .inl

theorem Scanned.trans {scan mid result : Scan} (hfirst : space.Scanned scan mid)
    (hsecond : space.Scanned mid result) : space.Scanned scan result where
  kept := fun dadr => (hsecond.kept dadr).trans (hfirst.kept dadr)
  same := by
    intro hresult
    have hmid := hsecond.same hresult
    exact hmid.trans (hfirst.same (hmid ▸ hresult))
  phys := hfirst.phys.trans hsecond.phys
  mem := List.Subset.trans hfirst.mem hsecond.mem
  length := hfirst.length.trans hsecond.length
  taken := by
    intro hresult
    cases hmid : mid.change with
    | true =>
        refine (hfirst.taken hmid).imp_right fun ⟨hlength, k, hk, hbit, hmem, hphys⟩ => ?_
        exact ⟨hlength.trans_le hsecond.length, k, hk, hbit, hsecond.mem hmem,
          hphys.trans hsecond.phys⟩
    | false =>
        obtain rfl := hfirst.same hmid
        exact hsecond.taken hresult

theorem scanBit_scanned (scan : Scan) {k : Nat} (hk : k < 8 * BLOCKSIZE) :
    space.Scanned scan (space.scanBit count scan k) := by
  simp only [scanBit]
  split
  case isFalse => exact .refl space scan
  case isTrue hbit =>
    refine ⟨fun dadr => ?_, by simp, le_max_left _ _, by simp, by simp, fun _ => ?_⟩
    · simp only [bitOf, List.count_append, Bitmap.testBit_toggle]
      by_cases hsame : dadr = space.nextPool * (8 * BLOCKSIZE) + k
      · subst hsame
        simp [poolFromDadr_block hk, mod_block hk, hbit.2]
      · have hcount : List.count dadr [space.nextPool * (8 * BLOCKSIZE) + k] = 0 := by
          simp [Ne.symm hsame]
        rw [hcount, Nat.add_zero]
        congr 2
        by_cases hpool : poolFromDadr dadr = space.nextPool
        · have hmod : k ≠ dadr % (8 * BLOCKSIZE) := by
            rintro rfl
            refine hsame (poolFromDadr_inj ?_ ?_)
            · rw [poolFromDadr_block hk, hpool]
            · rw [mod_block hk]
          simp [hmod]
        · simp [hpool]
    · exact .inr ⟨by simp, k, hk, hbit.2, by simp, le_max_right _ _⟩

theorem foldl_scanned {α : Type} (scanOne : Scan → α → Scan) (todo : List α)
    (hone : ∀ scan, ∀ x ∈ todo, space.Scanned scan (scanOne scan x)) (scan : Scan) :
    space.Scanned scan (todo.foldl scanOne scan) := by
  induction todo generalizing scan with
  | nil => exact .refl space scan
  | cons x todo ih =>
      rw [List.foldl_cons]
      exact (hone scan x (by simp)).trans
        (ih (fun scan x hmem => hone scan x (List.mem_cons_of_mem _ hmem)) _)

/-- A fold that takes no block meets the same bitmap in every step. -/
theorem foldl_unchanged (space : Space) {α : Type} (scanOne : Scan → α → Scan) (todo : List α)
    (hone : ∀ scan, ∀ x ∈ todo, space.Scanned scan (scanOne scan x)) (scan : Scan)
    (hnone : (todo.foldl scanOne scan).change = false) :
    ∀ x ∈ todo, (scanOne scan x).change = false := by
  induction todo generalizing scan with
  | nil => simp
  | cons x todo ih =>
      rw [List.foldl_cons] at hnone
      have hrest : ∀ scan, ∀ x ∈ todo, space.Scanned scan (scanOne scan x) :=
        fun scan x hmem => hone scan x (List.mem_cons_of_mem _ hmem)
      have hsame := (foldl_scanned scanOne todo hrest (scanOne scan x)).same hnone
      have hfirst : (scanOne scan x).change = false := hsame ▸ hnone
      have hscan := (hone scan x (by simp)).same hfirst
      refine List.forall_mem_cons.mpr ⟨hfirst, ?_⟩
      rw [hscan] at hnone
      exact ih hrest scan hnone

theorem scanByte_scanned (scan : Scan) {i : Nat} (hi : i < BLOCKSIZE) :
    space.Scanned scan (space.scanByte count scan i) := by
  simp only [scanByte]
  split
  · exact .refl space scan
  · refine foldl_scanned _ _ (fun scan j hj => scanBit_scanned scan ?_) scan
    have hlt := List.mem_range.mp hj
    omega

theorem scanPool_scanned (space : Space) (count : Nat) :
    space.Scanned ⟨(space.bpools space.nextPool).getD fullBpool, space.freeBlocks,
      space.maxPhysBlock, false⟩ (space.scanPool count) :=
  foldl_scanned _ _ (fun scan _ hi => scanByte_scanned scan (List.mem_range.mp hi)) _

/-- A free block of the bpool is not overlooked while the cache has room. -/
theorem scanPool_change {k : Nat} (hk : k < 8 * BLOCKSIZE)
    (hbit : ((space.bpools space.nextPool).getD fullBpool).testBit k = true)
    (hroom : space.freeBlocks.length < count) : (space.scanPool count).change = true := by
  by_contra hnone
  rw [Bool.not_eq_true] at hnone
  simp only [scanPool] at hnone
  generalize (space.bpools space.nextPool).getD fullBpool = corepool at hbit hnone
  have hsplit : 8 * (k / 8) + k % 8 = k := Nat.div_add_mod k 8
  have hbyte : Bitmap.byte corepool (k / 8) ≠ 0 := by
    intro hzero
    have htest := Bitmap.testBit_byte corepool (k / 8) (k % 8)
    rw [hzero, hsplit, hbit] at htest
    simp [Nat.mod_lt] at htest
  have hfirst := foldl_unchanged space _ _
    (fun scan _ hi => scanByte_scanned scan (List.mem_range.mp hi)) _ hnone (k / 8)
    (List.mem_range.mpr (by omega))
  simp only [scanByte, hbyte, if_false] at hfirst
  have hsecond := foldl_unchanged space _ _
    (fun scan j hj => scanBit_scanned scan (by
      have hlt := List.mem_range.mp hj
      omega)) _ hfirst (k % 8) (List.mem_range.mpr (Nat.mod_lt _ (by decide)))
  simp [hsplit, scanBit, hroom, hbit] at hsecond

/-- Something is found in a new bpool. -/
theorem scanPool_full (hfull : space.bpools space.nextPool = some fullBpool)
    (hroom : space.freeBlocks.length < count) : (space.scanPool count).change = true := by
  refine scanPool_change (k := 1) (by decide) ?_ hroom
  rw [hfull, Option.getD_some, testBit_fullBpool (by decide)]
  decide

/-! One bpool after the other. -/

/-- The parts of the disk space that change while the cache is filled. -/
def TakenTo (space next : Space) : Prop :=
  ∃ freeBlocks bpools bpoolCount nextPool maxPhysBlock,
    next = { space with
      freeBlocks := freeBlocks
      bpools := bpools
      bpoolCount := bpoolCount
      nextPool := nextPool
      maxPhysBlock := maxPhysBlock }

theorem TakenTo.refl (space : Space) : space.TakenTo space :=
  ⟨space.freeBlocks, space.bpools, space.bpoolCount, space.nextPool, space.maxPhysBlock, rfl⟩

theorem TakenTo.trans {mid : Space} (hfirst : space.TakenTo mid) (hsecond : mid.TakenTo next) :
    space.TakenTo next := by
  obtain ⟨_, _, _, _, _, rfl⟩ := hfirst
  obtain ⟨freeBlocks, bpools, bpoolCount, nextPool, maxPhysBlock, rfl⟩ := hsecond
  exact ⟨freeBlocks, bpools, bpoolCount, nextPool, maxPhysBlock, rfl⟩

/-- The state after a scan whose bpool was written. -/
def withScan (space : Space) (scan : Scan) : Space :=
  { space with
    freeBlocks := scan.freeBlocks
    maxPhysBlock := scan.maxPhysBlock
    bpools :=
      if scan.change then Function.update space.bpools space.nextPool (some scan.corepool)
      else space.bpools }

theorem isBlock_withScan (scan : Scan) (dadr : Nat) :
    (space.withScan scan).isBlock dadr = space.isBlock dadr := rfl

theorem takenTo_withScan (space : Space) (scan : Scan) : space.TakenTo (space.withScan scan) :=
  ⟨_, _, _, _, _, rfl⟩

theorem takeScan_written (hwrites : env.allocFails = []) (scan : Scan) :
    space.takeScan env scan = (false, space.withScan scan) := by
  cases hchange : scan.change with
  | true => simp [takeScan, withScan, writeBpool, hwrites, hchange]
  | false => simp [takeScan, withScan, hchange]

theorem markedIn_update {bpoolCount poolnum corepool dadr : Nat}
    {bpools : Nat → Option Nat} (hlt : poolnum < bpoolCount) :
    markedIn bpoolCount (Function.update bpools poolnum (some corepool)) dadr =
      if poolFromDadr dadr = poolnum then bitOf poolnum corepool dadr
      else markedIn bpoolCount bpools dadr := by
  simp only [markedIn, bitOf]
  split
  case isTrue hpool => simp [hpool, hlt]
  case isFalse hpool => rw [Function.update_of_ne hpool]

theorem markedIn_pool {dadr : Nat} (hfits : space.Fits)
    (hpool : poolFromDadr dadr = space.nextPool) :
    markedIn space.bpoolCount space.bpools dadr =
      bitOf space.nextPool ((space.bpools space.nextPool).getD fullBpool) dadr := by
  obtain ⟨bpool, hbpool⟩ := Option.isSome_iff_exists.mp
    (hfits.readable space.nextPool hfits.inRange)
  simp [markedIn, bitOf, hpool, hfits.inRange, hbpool]

theorem Fits.withScan {scan : Scan} (hfits : space.Fits)
    (hscan : space.Scanned ⟨(space.bpools space.nextPool).getD fullBpool, space.freeBlocks,
      space.maxPhysBlock, false⟩ scan) :
    space.Keeps (space.withScan scan) := by
  refine ⟨rfl, fun dadr => ?_, hfits.inRange, fun poolnum hlt => ?_⟩
  · have hkept := hscan.kept dadr
    dsimp only at hkept
    rw [isBlock_withScan]
    simp only [Space.withScan, kept, marked]
    split
    case isTrue hchange =>
      rw [markedIn_update hfits.inRange]
      split
      case isTrue hpool =>
        rw [markedIn_pool hfits hpool]
        omega
      case isFalse hpool =>
        simp only [bitOf, decide_eq_false hpool, Bool.false_and, Bool.toNat_false] at hkept
        omega
    case isFalse hchange =>
      have hsame := hscan.same (by simpa using hchange)
      rw [hsame]
  · simp only [Space.withScan]
    split
    · by_cases hsame : poolnum = space.nextPool
      · simp [hsame]
      · simpa [hsame] using hfits.readable poolnum hlt
    · exact hfits.readable poolnum hlt

/-- The state after a new bpool was added. -/
def withNewPool (space : Space) : Space :=
  { space with
    bpools := Function.update space.bpools space.bpoolCount (some fullBpool)
    bpoolCount := space.bpoolCount + 1
    nextPool := space.bpoolCount }

theorem addNewPool_cases (space : Space) (env : Env) :
    space.addNewPool env = (false, space) ∨
      space.addNewPool env = (true, space.withNewPool) := by
  cases hfails : env.newPoolFails.contains space.bpoolCount with
  | true =>
      left
      simp only [addNewPool, writeBpool, hfails, if_true]
  | false =>
      right
      simp only [addNewPool, writeBpool, hfails, Bool.false_eq_true, if_false, withNewPool]

theorem checkedPool_cases (space : Space) (env : Env) (cyc : Nat) :
    (space.checkedPool env cyc).2 = space ∨
      space.checkedPool env cyc = (true, space.withNewPool) := by
  simp only [checkedPool]
  split
  case isFalse => exact .inl rfl
  case isTrue =>
    rcases addNewPool_cases space env with hfailed | hadded
    · left
      simp only [hfailed, Bool.false_eq_true, if_false]
    · right
      simp only [hadded, if_true]
      rfl

theorem Fits.withNewPool (hfits : space.Fits) : space.Keeps space.withNewPool := by
  have hgrown : space.Grown { space with
      bpools := Function.update space.bpools space.bpoolCount (some fullBpool)
      bpoolCount := space.bpoolCount + 1 } := by
    refine ⟨⟨_, _, _, _, rfl⟩, Nat.le_succ _, fun poolnum hlt => ?_, fun poolnum hle hlt => ?_⟩
    · exact Function.update_of_ne hlt.ne _ _
    · obtain rfl : poolnum = space.bpoolCount := le_antisymm (Nat.lt_succ_iff.mp hlt) hle
      exact Function.update_self _ _ _
  have hkeeps := hfits.grown hgrown
  exact ⟨hkeeps.handed, hkeeps.kept, Nat.lt_succ_self _, hkeeps.readable⟩

theorem toNextPool_lt (hrange : space.nextPool < space.bpoolCount) :
    space.toNextPool.nextPool < space.toNextPool.bpoolCount := by
  simp only [Space.toNextPool]
  split <;> omega

theorem Fits.toNextPool (hfits : space.Fits) : space.Keeps space.toNextPool :=
  ⟨rfl, fun _ => rfl, toNextPool_lt hfits.inRange, hfits.readable⟩

theorem Fits.checkedPool (env : Env) (cyc : Nat) (hfits : space.Fits) :
    space.Keeps (space.checkedPool env cyc).2 ∧ space.TakenTo (space.checkedPool env cyc).2 := by
  rcases checkedPool_cases space env cyc with hsame | hnew
  · rw [hsame]
    exact ⟨hfits.refl, .refl space⟩
  · rw [hnew]
    exact ⟨hfits.withNewPool, _, _, _, _, _, rfl⟩

theorem Fits.fillCache (hwrites : env.allocFails = []) (count fuel cyc : Nat)
    (hfits : space.Fits) :
    space.Keeps (fillCache env count fuel cyc space).2 ∧
      space.TakenTo (fillCache env count fuel cyc space).2 := by
  induction fuel generalizing cyc space with
  | zero => exact ⟨hfits.refl, .refl space⟩
  | succ fuel ih =>
      simp only [Space.fillCache, takeFromPool, takeScan_written hwrites, Bool.false_eq_true,
        if_false]
      have hscanned := scanPool_scanned space count
      generalize space.scanPool count = scan at hscanned ⊢
      have hscan := hfits.withScan hscanned
      have hscanTo := takenTo_withScan space scan
      set scanned := space.withScan scan
      split
      · exact ⟨hscan, hscanTo⟩
      have hnext := hscan.trans (hfits.keeps hscan).toNextPool
      have hnextTo : space.TakenTo scanned.toNextPool := hscanTo.trans ⟨_, _, _, _, _, rfl⟩
      obtain ⟨hchecked, hcheckedTo⟩ := (hfits.keeps hnext).checkedPool env (cyc + 1)
      have hsofar := hnext.trans hchecked
      have hsofarTo := hnextTo.trans hcheckedTo
      split
      case isTrue =>
        obtain ⟨hrest, hrestTo⟩ := ih (cyc + 1) (hfits.keeps hsofar)
        exact ⟨hsofar.trans hrest, hsofarTo.trans hrestTo⟩
      case isFalse => exact ⟨hsofar, hsofarTo⟩

/-! The file contains the bpools that blocks were taken from. -/

/-- No block beyond the bpools is redirected. -/
def RemapFit (space : Space) : Prop :=
  ∀ entry ∈ space.remap, entry.1 < space.bpoolFirst + space.bpoolCount * (8 * BLOCKSIZE)

instance (space : Space) : Decidable space.RemapFit :=
  inferInstanceAs (Decidable (∀ entry ∈ space.remap, _ < _))

/-- The next bpool is a new one. -/
structure Fresh (space : Space) : Prop where
  last : space.nextPool + 1 = space.bpoolCount
  full : space.bpools space.nextPool = some fullBpool

theorem translateBlocknum_of_lt {block : Nat}
    (hclean : ∀ entry ∈ space.remap, entry.1 < block) :
    space.translateBlocknum block = block := by
  have hnone : space.remap.find? (fun entry => entry.1 == block) = none := by
    refine List.find?_eq_none.mpr fun entry hmem => ?_
    simpa using (hclean entry hmem).ne
  rw [translateBlocknum, hnone]

theorem fresh_withNewPool (space : Space) : space.withNewPool.Fresh where
  last := rfl
  full := Function.update_self _ _ _

/-- No block of the next bpool is redirected. -/
def Clean (space : Space) : Prop :=
  ∀ entry ∈ space.remap, entry.1 < space.bpoolFirst + space.nextPool * (8 * BLOCKSIZE)

theorem inFile_withScan {scan : Scan} (hroom : space.freeBlocks.length < count)
    (hdef : space.scanPool count = scan)
    (hreach : space.InFile space.maxPhysBlock ∨ (space.Fresh ∧ space.Clean)) :
    (space.withScan scan).InFile scan.maxPhysBlock := by
  have hscanned := scanPool_scanned space count
  rw [hdef] at hscanned
  rcases hreach with hin | ⟨hfresh, hclean⟩
  · exact hin.trans_le (max_le_max le_rfl hscanned.phys)
  · have hchange := scanPool_full hfresh.full hroom
    rw [hdef] at hchange
    obtain ⟨-, k, hk, hbit, -, hphys⟩ := (hscanned.taken hchange).resolve_left (by simp)
    dsimp only at hbit hphys
    rw [hfresh.full, Option.getD_some, testBit_fullBpool hk, decide_eq_true_eq] at hbit
    rw [translateBlocknum_of_lt fun entry hmem => (hclean entry hmem).trans (by omega)]
      at hphys
    have hlast : space.bpoolCount - 1 = space.nextPool := by
      rw [← hfresh.last, Nat.add_sub_cancel]
    have hless : space.bpoolFirst + (space.bpoolCount - 1) * (8 * BLOCKSIZE) <
        scan.maxPhysBlock := by
      rw [hlast]
      omega
    exact hless.trans_le (le_max_right _ _)

theorem fillCache_inFile (hwrites : env.allocFails = []) (fuel cyc : Nat)
    (hroom : space.freeBlocks.length < count)
    (hreach : space.InFile space.maxPhysBlock ∨ (space.Fresh ∧ space.Clean))
    (hremap : space.RemapFit)
    (hok : (fillCache env count fuel cyc space).1 = true) :
    (fillCache env count fuel cyc space).2.InFile
      (fillCache env count fuel cyc space).2.maxPhysBlock := by
  induction fuel generalizing cyc space with
  | zero => cases hok
  | succ fuel ih =>
      obtain ⟨scan, hdef⟩ : ∃ scan, space.scanPool count = scan := ⟨_, rfl⟩
      have hin := inFile_withScan hroom hdef hreach
      simp only [Space.fillCache, takeFromPool, takeScan_written hwrites, hdef,
        Bool.false_eq_true, if_false] at hok ⊢
      split at hok
      case isTrue hfull =>
        rw [if_pos hfull]
        exact hin
      case isFalse hless =>
        rw [if_neg hless] at ⊢
        split at hok
        case isFalse => cases hok
        case isTrue hadded =>
          rw [if_pos hadded]
          rcases checkedPool_cases (space.withScan scan).toNextPool env (cyc + 1) with
            hsame | hnew
          · rw [hsame] at hok ⊢
            exact ih (cyc + 1) (Nat.not_le.mp hless) (.inl hin) hremap hok
          · rw [hnew] at hok ⊢
            refine ih (cyc + 1) (Nat.not_le.mp hless) (.inr ⟨fresh_withNewPool _, hremap⟩) ?_ hok
            intro entry hmem
            refine (hremap entry hmem).trans_le ?_
            exact Nat.add_le_add_left (Nat.mul_le_mul_right _ (Nat.le_succ _)) _

end Space

end Sql602.Disk
