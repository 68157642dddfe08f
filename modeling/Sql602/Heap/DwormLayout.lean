import Sql602.Heap.Dworm

namespace Sql602.Heap

open Bytes

/-! What an opened object holds: the numbers of its blocks as lists, and its
contents as one row of bytes, first the blocks and then the direct data. -/

structure Extent where
  start : Nat
  len : Nat

def Extent.Apart (extent other : Extent) : Prop :=
  extent.start + extent.len ≤ other.start ∨ other.start + other.len ≤ extent.start

instance (extent other : Extent) : Decidable (extent.Apart other) :=
  inferInstanceAs (Decidable (_ ∨ _))

def Extent.Covers (extent : Extent) (dadr : Nat) : Prop :=
  extent.start ≤ dadr ∧ dadr < extent.start + extent.len

theorem Extent.Apart.ne {extent other : Extent} {dadr dadr' : Nat} (hapart : extent.Apart other)
    (hcovers : extent.Covers dadr) (hother : other.Covers dadr') : dadr ≠ dadr' := by
  simp only [Extent.Apart, Extent.Covers] at *
  omega

def ofBig (dadr : Nat) : Extent := ⟨dadr, 1024⟩

def ofSmall (dadr : Nat) : Extent := ⟨dadr, 1⟩

def BlockGrants.extents (grants : BlockGrants) : List Extent :=
  grants.bigBlocks.map ofBig ++ grants.blocks.map ofSmall

namespace DwormAccess

variable (dwa : DwormAccess)

def bigs : List Nat := (List.range dwa.bigBlockcnt).map dwa.bigBlock

def smalls : List Nat := (List.range dwa.smallBlockcnt).map dwa.smallBlock

def extents : List Extent := dwa.bigs.map ofBig ++ dwa.smalls.map ofSmall

def blockcnt : Nat := 1024 * dwa.bigBlockcnt + dwa.smallBlockcnt

def block (k : Nat) : Nat :=
  if k < 1024 * dwa.bigBlockcnt then dwa.bigBlock (k / 1024) + k % 1024
  else dwa.smallBlock (k - 1024 * dwa.bigBlockcnt)

def byteAt (p : Nat) : UInt8 :=
  if p / 4096 < dwa.blockcnt then dwa.page (dwa.block (p / 4096)) (p % 4096)
  else dwa.bg.blidx (dwa.dirdataPos + (p - 4096 * dwa.blockcnt))

/-- The direct data that `expand` counts on; the piece may have room for more. -/
def directSize : Nat := dwa.pieceSize - (8 + 4 * (dwa.bigBlockcnt + dwa.smallBlockcnt))

def limit : Nat := 4096 * dwa.blockcnt + dwa.directSize

structure Placed : Prop where
  opened : dwa.isNull = false
  valid : dwa.isError = false
  old : dwa.bg.state = .dworm →
    dwa.bigBlockcnt = 0 ∧ dwa.bigBlocks = 0 ∧ dwa.smallBlocks = 0
  new : dwa.bg.state = .dworm2 →
    dwa.bigBlocks = 4 ∧ dwa.smallBlocks = 4 + 4 * dwa.bigBlockcnt
  fits : 8 + 4 * (dwa.bigBlockcnt + dwa.smallBlockcnt) ≤ dwa.pieceSize
  whole : dwa.pieceSize ≤ 4096

structure Headed : Prop where
  small : dwa.bg.smallBlockcnt = dwa.smallBlockcnt
  big : dwa.bg.state = .dworm2 → word dwa.bg.blidx 0 = dwa.bigBlockcnt

structure Null : Prop where
  null : dwa.isNull = true
  valid : dwa.isError = false
  empty : dwa.len32 = 0
  big : dwa.bigBlockcnt = 0 ∧ dwa.bigBlocks = 0
  small : dwa.smallBlockcnt = 0

variable {dwa : DwormAccess}

theorem Placed.ordered (hplaced : dwa.Placed) :
    dwa.bigBlocks + 4 * dwa.bigBlockcnt ≤ dwa.smallBlocks := by
  cases hstate : dwa.bg.state with
  | dworm =>
      obtain ⟨hbig, hpos, hsmall⟩ := hplaced.old hstate
      omega
  | dworm2 =>
      obtain ⟨hpos, hsmall⟩ := hplaced.new hstate
      omega

/-- The numbers end where the direct data starts, within the piece. -/
theorem Placed.dirdataPos_le (hplaced : dwa.Placed) :
    dwa.dirdataPos ≤ 4 + 4 * (dwa.bigBlockcnt + dwa.smallBlockcnt) := by
  simp only [dirdataPos]
  cases hstate : dwa.bg.state with
  | dworm =>
      obtain ⟨hbig, hpos, hsmall⟩ := hplaced.old hstate
      omega
  | dworm2 =>
      obtain ⟨hpos, hsmall⟩ := hplaced.new hstate
      omega

theorem Placed.directSize_le (hplaced : dwa.Placed) : dwa.directSize ≤ dwa.dirdataMaxsize := by
  simp only [directSize, dirdataMaxsize]
  split <;> omega

theorem Placed.directSize_lt (hplaced : dwa.Placed) : dwa.directSize ≤ 4088 := by
  have hwhole := hplaced.whole
  simp only [directSize]
  omega

/-! The lists of numbers. -/

@[simp] theorem length_bigs : dwa.bigs.length = dwa.bigBlockcnt := by simp [bigs]

@[simp] theorem length_smalls : dwa.smalls.length = dwa.smallBlockcnt := by simp [smalls]

theorem getElem?_bigs {i : Nat} (hi : i < dwa.bigBlockcnt) :
    dwa.bigs[i]? = some (dwa.bigBlock i) := by
  simp [bigs, hi]

theorem getElem?_smalls {i : Nat} (hi : i < dwa.smallBlockcnt) :
    dwa.smalls[i]? = some (dwa.smallBlock i) := by
  simp [smalls, hi]

theorem bigs_congr {next : DwormAccess} (hcnt : next.bigBlockcnt = dwa.bigBlockcnt)
    (hword : ∀ i < dwa.bigBlockcnt, next.bigBlock i = dwa.bigBlock i) :
    next.bigs = dwa.bigs := by
  simp only [bigs, hcnt]
  exact List.map_congr_left fun i hi => hword i (List.mem_range.mp hi)

theorem smalls_congr {next : DwormAccess} (hcnt : next.smallBlockcnt = dwa.smallBlockcnt)
    (hword : ∀ i < dwa.smallBlockcnt, next.smallBlock i = dwa.smallBlock i) :
    next.smalls = dwa.smalls := by
  simp only [smalls, hcnt]
  exact List.map_congr_left fun i hi => hword i (List.mem_range.mp hi)

theorem bigBlock_of_append {next : DwormAccess} {more : List Nat} {i : Nat}
    (hbigs : next.bigs = dwa.bigs ++ more) (hi : i < dwa.bigBlockcnt) :
    next.bigBlock i = dwa.bigBlock i := by
  have hcnt : next.bigBlockcnt = dwa.bigBlockcnt + more.length := by
    simpa using congrArg List.length hbigs
  have hget := congrArg (·[i]?) hbigs
  simp only [List.getElem?_append_left (length_bigs ▸ hi : i < dwa.bigs.length)] at hget
  rw [getElem?_bigs (by omega), getElem?_bigs hi] at hget
  exact Option.some.inj hget

theorem smallBlock_of_append {next : DwormAccess} {more : List Nat} {i : Nat}
    (hsmalls : next.smalls = dwa.smalls ++ more) (hi : i < dwa.smallBlockcnt) :
    next.smallBlock i = dwa.smallBlock i := by
  have hcnt : next.smallBlockcnt = dwa.smallBlockcnt + more.length := by
    simpa using congrArg List.length hsmalls
  have hget := congrArg (·[i]?) hsmalls
  simp only [List.getElem?_append_left (length_smalls ▸ hi : i < dwa.smalls.length)] at hget
  rw [getElem?_smalls (by omega), getElem?_smalls hi] at hget
  exact Option.some.inj hget

/-! Where the blocks are. -/

theorem length_extents : dwa.extents.length = dwa.bigBlockcnt + dwa.smallBlockcnt := by
  simp [extents]

/-- The extent that a block of the contents is in. -/
def extentOf (dwa : DwormAccess) (k : Nat) : Nat :=
  if k < 1024 * dwa.bigBlockcnt then k / 1024
  else dwa.bigBlockcnt + (k - 1024 * dwa.bigBlockcnt)

theorem extentOf_lt {k : Nat} (hk : k < dwa.blockcnt) : dwa.extentOf k < dwa.extents.length := by
  simp only [length_extents, extentOf, blockcnt] at *
  split <;> omega

theorem covers_block {k : Nat} (hk : k < dwa.blockcnt) :
    (dwa.extents.get ⟨dwa.extentOf k, extentOf_lt hk⟩).Covers (dwa.block k) := by
  simp only [blockcnt] at hk
  rw [List.get_eq_getElem]
  by_cases hbig : k < 1024 * dwa.bigBlockcnt
  · simp only [extents, extentOf, block, bigs, if_pos hbig]
    rw [List.getElem_append_left (by simp; omega)]
    simp only [List.getElem_map, List.getElem_range, ofBig, Extent.Covers]
    omega
  · simp only [extents, extentOf, block, bigs, smalls, if_neg hbig]
    rw [List.getElem_append_right (by simp)]
    simp [ofSmall, Extent.Covers]

theorem block_inj {k k' : Nat} (hapart : dwa.extents.Pairwise Extent.Apart)
    (hk : k < dwa.blockcnt) (hk' : k' < dwa.blockcnt) (hne : k ≠ k') :
    dwa.block k ≠ dwa.block k' := by
  have hpair := List.pairwise_iff_getElem.mp hapart
  rcases Nat.lt_trichotomy (dwa.extentOf k) (dwa.extentOf k') with hlt | heq | hgt
  · exact (hpair _ _ _ _ hlt).ne (covers_block hk) (covers_block hk')
  · simp only [extentOf, blockcnt] at heq hk hk'
    simp only [block]
    split at heq <;> split at heq
    · rename_i hbig hbig'
      rw [if_pos hbig, if_pos hbig', heq]
      omega
    all_goals omega
  · exact ((hpair _ _ _ _ hgt).ne (covers_block hk') (covers_block hk)).symm

theorem block_ne_granted {k dadr : Nat} {grant : Extent} {granted : List Extent}
    (hapart : (dwa.extents ++ granted).Pairwise Extent.Apart) (hk : k < dwa.blockcnt)
    (hgrant : grant ∈ granted) (hcovers : grant.Covers dadr) : dwa.block k ≠ dadr :=
  ((List.pairwise_append.mp hapart).2.2 _ (List.getElem_mem (extentOf_lt hk)) grant hgrant).ne
    (covers_block hk) hcovers

end DwormAccess

end Sql602.Heap
