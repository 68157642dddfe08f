import Sql602.Heap.DwormExpand

namespace Sql602.Heap

open Bytes

namespace DwormAccess

variable {dwa next : DwormAccess}

/-! A place holds a part of the contents. -/

def Points (dwa : DwormAccess) (p len : Nat) : Place → Prop
  | .page dadr pos =>
      p / 4096 < dwa.blockcnt ∧ dadr = dwa.block (p / 4096) ∧ pos = p % 4096 ∧ pos + len ≤ 4096
  | .direct pos =>
      dwa.blockcnt ≤ p / 4096 ∧ pos = dwa.dirdataPos + (p - 4096 * dwa.blockcnt) ∧
        p + len ≤ dwa.limit

theorem perblock_mul (hdvd : dwa.elemlen ∣ 4096) : dwa.perblock * dwa.elemlen = 4096 :=
  Nat.div_mul_cancel hdvd

theorem elemlen_pos (hdvd : dwa.elemlen ∣ 4096) : 0 < dwa.elemlen :=
  Nat.pos_of_dvd_of_pos hdvd (by decide)

theorem perblock_pos (hdvd : dwa.elemlen ∣ 4096) : 0 < dwa.perblock := by
  have hper := perblock_mul hdvd
  refine Nat.pos_of_ne_zero fun hzero => ?_
  rw [hzero, Nat.zero_mul] at hper
  exact absurd hper (by decide)

theorem pointer_points (hplaced : dwa.Placed) (hdvd : dwa.elemlen ∣ 4096)
    {firstel elemcnt : Nat} (hsome : 0 < elemcnt)
    (hroom : (firstel + elemcnt) * dwa.elemlen ≤ dwa.limit) :
    0 < min (dwa.pointer firstel).2 elemcnt ∧
      dwa.Points (firstel * dwa.elemlen) (min (dwa.pointer firstel).2 elemcnt * dwa.elemlen)
        (dwa.pointer firstel).1 := by
  have hper := perblock_mul hdvd
  have hpos := elemlen_pos hdvd
  have hperPos := perblock_pos hdvd
  have hquot : firstel * dwa.elemlen / 4096 = firstel / dwa.perblock := by
    rw [← hper, Nat.mul_div_mul_right _ _ hpos]
  have hrem : firstel * dwa.elemlen % 4096 = firstel % dwa.perblock * dwa.elemlen := by
    rw [← hper, Nat.mul_mod_mul_right]
  have hoffs : firstel % dwa.perblock < dwa.perblock := Nat.mod_lt _ hperPos
  have hsub : ∀ count, min (dwa.perblock - firstel % dwa.perblock) count * dwa.elemlen ≤
      4096 - firstel % dwa.perblock * dwa.elemlen := by
    intro count
    calc min (dwa.perblock - firstel % dwa.perblock) count * dwa.elemlen
        ≤ (dwa.perblock - firstel % dwa.perblock) * dwa.elemlen :=
          Nat.mul_le_mul_right _ (Nat.min_le_left ..)
      _ = 4096 - firstel % dwa.perblock * dwa.elemlen := by rw [Nat.sub_mul, hper]
  have hbytes : firstel % dwa.perblock * dwa.elemlen < 4096 := by
    rw [← hrem]
    exact Nat.mod_lt _ (by decide)
  simp only [pointer]
  split
  case isTrue hbig =>
    dsimp only
    have hle := hsub elemcnt
    refine ⟨by omega, ?_, ?_, hrem.symm, by omega⟩
    · rw [hquot, blockcnt]
      omega
    · rw [hquot, block, if_pos (by omega)]
  case isFalse hbig =>
    split
    case isTrue hsmall =>
      dsimp only
      have hle := hsub elemcnt
      refine ⟨by omega, ?_, ?_, hrem.symm, by omega⟩
      · rw [hquot, blockcnt]
        omega
      · rw [hquot, block, if_neg (by omega), Nat.mul_comm 1024]
    case isFalse hsmall =>
      dsimp only
      have hmax := hplaced.directSize_le
      have hlt := hplaced.directSize_lt
      rw [Nat.add_mul] at hroom
      have hone : dwa.elemlen ≤ elemcnt * dwa.elemlen := Nat.le_mul_of_pos_left _ hsome
      have hblocks : dwa.blockcnt ≤ firstel * dwa.elemlen / 4096 := by
        rw [hquot, blockcnt]
        omega
      have hlast : 4096 * dwa.blockcnt + firstel * dwa.elemlen % 4096 =
          firstel * dwa.elemlen := by
        simp only [limit] at hroom
        omega
      have hloc : 0 < dwa.dirdataMaxsize / dwa.elemlen := by
        refine Nat.div_pos ?_ hpos
        simp only [limit] at hroom
        omega
      have hle : min (dwa.dirdataMaxsize / dwa.elemlen) elemcnt * dwa.elemlen ≤
          elemcnt * dwa.elemlen := Nat.mul_le_mul_right _ (Nat.min_le_right ..)
      refine ⟨by omega, hblocks, ?_, by omega⟩
      omega

theorem byteAt_page (dwa : DwormAccess) {p i : Nat} (hblock : p / 4096 < dwa.blockcnt) (hi : p % 4096 + i < 4096) :
    dwa.byteAt (p + i) = dwa.page (dwa.block (p / 4096)) (p % 4096 + i) := by
  have hquot : (p + i) / 4096 = p / 4096 := by omega
  have hrem : (p + i) % 4096 = p % 4096 + i := by omega
  simp only [byteAt, hquot, hrem, if_pos hblock]

theorem byteAt_direct (dwa : DwormAccess) {p : Nat} (hblock : dwa.blockcnt ≤ p / 4096) :
    dwa.byteAt p = dwa.bg.blidx (dwa.dirdataPos + (p - 4096 * dwa.blockcnt)) := by
  simp only [byteAt, if_neg (Nat.not_lt.mpr hblock)]

theorem load_points {place : Place} {p len : Nat} (hpoints : dwa.Points p len place) :
    dwa.load place len = slice dwa.byteAt p len := by
  cases place with
  | page dadr pos =>
      obtain ⟨hblock, rfl, rfl, hlen⟩ := hpoints
      exact slice_congr fun i hi => (dwa.byteAt_page hblock (by omega)).symm
  | direct pos =>
      obtain ⟨hblock, rfl, hlen⟩ := hpoints
      refine slice_congr fun i hi => ?_
      rw [dwa.byteAt_direct (by omega)]
      congr 1
      omega

theorem readLoop_slice (hplaced : dwa.Placed) (hdvd : dwa.elemlen ∣ 4096)
    {fuel firstel elemcnt : Nat} (hfuel : elemcnt ≤ fuel)
    (hroom : (firstel + elemcnt) * dwa.elemlen ≤ dwa.limit) :
    dwa.readLoop fuel firstel elemcnt =
      some (slice dwa.byteAt (firstel * dwa.elemlen) (elemcnt * dwa.elemlen)) := by
  induction fuel generalizing firstel elemcnt with
  | zero =>
      obtain rfl : elemcnt = 0 := by omega
      rw [readLoop, Nat.zero_mul, slice_zero]
  | succ fuel ih =>
      cases elemcnt with
      | zero => rw [readLoop, Nat.zero_mul, slice_zero]
      | succ elemcnt =>
          obtain ⟨hprogress, hpoints⟩ :=
            pointer_points hplaced hdvd (Nat.succ_pos elemcnt) hroom
          simp only [readLoop]
          generalize hloc : min (dwa.pointer firstel).2 (elemcnt + 1) = loc at hprogress hpoints
          have hle : loc ≤ elemcnt + 1 := hloc ▸ Nat.min_le_right ..
          have hsum : firstel + loc + (elemcnt + 1 - loc) = firstel + (elemcnt + 1) := by omega
          rw [ih (by omega) (hsum ▸ hroom), Option.map_some, load_points hpoints, Nat.add_mul,
            slice_append, ← Nat.add_mul]
          congr 3
          omega

/-! Writing. -/

structure Written (dwa next : DwormAccess) (data : Memory) (from' start len : Nat) : Prop where
  frame : dwa.Frame next
  smallBlocks : next.smallBlocks = dwa.smallBlocks
  header : next.bg.smallBlockcnt = dwa.bg.smallBlockcnt
  word : dwa.bg.state = .dworm2 → word next.bg.blidx 0 = word dwa.bg.blidx 0
  bigs : next.bigs = dwa.bigs
  smalls : next.smalls = dwa.smalls
  inside : ∀ i < len, next.byteAt (start + i) = data (from' + i)
  outside : ∀ p < dwa.limit, p < start ∨ start + len ≤ p → next.byteAt p = dwa.byteAt p

theorem Written.limit {data : Memory} {from' start len : Nat}
    (hwritten : dwa.Written next data from' start len) : next.limit = dwa.limit := by
  have hbig : next.bigBlockcnt = dwa.bigBlockcnt := by
    simpa using congrArg List.length hwritten.bigs
  have hsmall : next.smallBlockcnt = dwa.smallBlockcnt := by
    simpa using congrArg List.length hwritten.smalls
  simp only [DwormAccess.limit, blockcnt, directSize, hbig, hsmall, hwritten.frame.pieceSize]

theorem Written.placed {data : Memory} {from' start len : Nat}
    (hwritten : dwa.Written next data from' start len) (hplaced : dwa.Placed) : next.Placed := by
  have hbig : next.bigBlockcnt = dwa.bigBlockcnt := by
    simpa using congrArg List.length hwritten.bigs
  have hsmall : next.smallBlockcnt = dwa.smallBlockcnt := by
    simpa using congrArg List.length hwritten.smalls
  refine Laid.frame_placed hwritten.frame hplaced ?_ hbig hsmall (Nat.le_refl _)
    (fun h => absurd h (Nat.lt_irrefl _)) hplaced.fits
  rw [hbig, Nat.sub_self]
  exact hwritten.smallBlocks

theorem Written.extents {data : Memory} {from' start len : Nat}
    (hwritten : dwa.Written next data from' start len) : next.extents = dwa.extents := by
  simp only [DwormAccess.extents, hwritten.bigs, hwritten.smalls]

theorem Written.refl (dwa : DwormAccess) (data : Memory) (from' start : Nat) :
    dwa.Written dwa data from' start 0 :=
  ⟨.refl dwa, rfl, rfl, fun _ => rfl, rfl, rfl, fun i hi => absurd hi (Nat.not_lt_zero i),
    fun _ _ _ => rfl⟩

theorem Written.append {last : DwormAccess} {data : Memory} {from' start len more : Nat}
    (hfirst : dwa.Written next data from' start len)
    (hrest : next.Written last data (from' + len) (start + len) more)
    (hroom : start + len + more ≤ dwa.limit) :
    dwa.Written last data from' start (len + more) where
  frame := hfirst.frame.trans hrest.frame
  smallBlocks := hrest.smallBlocks.trans hfirst.smallBlocks
  header := hrest.header.trans hfirst.header
  word := fun hstate => (hrest.word (hfirst.frame.state.trans hstate)).trans (hfirst.word hstate)
  bigs := hrest.bigs.trans hfirst.bigs
  smalls := hrest.smalls.trans hfirst.smalls
  inside := by
    intro i hi
    rcases Nat.lt_or_ge i len with hlt | hge
    · have hp : start + i < next.limit := by
        rw [hfirst.limit]
        omega
      rw [hrest.outside _ hp (by omega), hfirst.inside i hlt]
    · obtain ⟨j, rfl⟩ := Nat.exists_eq_add_of_le hge
      have hj := hrest.inside j (by omega)
      rw [Nat.add_assoc, Nat.add_assoc] at hj
      exact hj
  outside := by
    intro p hp hout
    rw [hrest.outside p (hfirst.limit ▸ hp) (by omega), hfirst.outside p hp (by omega)]

theorem byteAt_block (dwa : DwormAccess) {p : Nat} (hblock : p / 4096 < dwa.blockcnt) :
    dwa.byteAt p = dwa.page (dwa.block (p / 4096)) (p % 4096) :=
  if_pos hblock

theorem written_page {data : Memory} {from' p len : Nat}
    (hapart : dwa.extents.Pairwise Extent.Apart) (hblock : p / 4096 < dwa.blockcnt)
    (hlen : p % 4096 + len ≤ 4096) :
    dwa.Written (dwa.setPage (dwa.block (p / 4096))
      (copy (dwa.page (dwa.block (p / 4096))) (p % 4096) data from' len)) data from' p len := by
  let stored := dwa.setPage (dwa.block (p / 4096))
    (copy (dwa.page (dwa.block (p / 4096))) (p % 4096) data from' len)
  have hpage : stored.page (dwa.block (p / 4096)) =
      copy (dwa.page (dwa.block (p / 4096))) (p % 4096) data from' len :=
    Function.update_self ..
  refine ⟨⟨rfl, rfl, rfl, rfl, rfl, rfl⟩, rfl, rfl, fun _ => rfl, rfl, rfl, ?_, ?_⟩
  · intro i hi
    refine (stored.byteAt_page hblock (by omega)).trans ?_
    refine (congrFun hpage _).trans ?_
    rw [copy_inside (by omega) (by omega)]
    congr 1
    omega
  · intro q hq hout
    rcases Nat.lt_or_ge (q / 4096) dwa.blockcnt with hin | hdirect
    · rw [dwa.byteAt_block hin]
      refine (stored.byteAt_block hin).trans ?_
      by_cases hsame : q / 4096 = p / 4096
      · have hblocks : stored.block (q / 4096) = dwa.block (p / 4096) := by
          rw [hsame]
          rfl
        rw [hblocks, hpage, hsame]
        exact copy_outside (by omega)
      · exact congrFun (Function.update_of_ne (block_inj hapart hin hblock hsame) ..) _
    · rw [dwa.byteAt_direct hdirect]
      exact stored.byteAt_direct hdirect

theorem written_direct {data : Memory} {from' p len : Nat} (hplaced : dwa.Placed)
    (hblock : dwa.blockcnt ≤ p / 4096) :
    dwa.Written (dwa.setBlidx (copy dwa.bg.blidx (dwa.dirdataPos + (p - 4096 * dwa.blockcnt))
      data from' len)) data from' p len := by
  let stored := dwa.setBlidx (copy dwa.bg.blidx (dwa.dirdataPos + (p - 4096 * dwa.blockcnt))
    data from' len)
  have hordered := hplaced.ordered
  have hword : ∀ i, i + 4 ≤ dwa.dirdataPos → word stored.bg.blidx i = word dwa.bg.blidx i :=
    fun i hi => word_copy_outside (by omega)
  have hbigs : stored.bigs = dwa.bigs := by
    refine bigs_congr rfl fun i hi => ?_
    have hbefore : dwa.bigBlocks + 4 * i + 4 ≤ dwa.dirdataPos := by
      simp only [dirdataPos]
      omega
    exact hword _ hbefore
  have hsmalls : stored.smalls = dwa.smalls := by
    refine smalls_congr rfl fun i hi => ?_
    have hbefore : dwa.smallBlocks + 4 * i + 4 ≤ dwa.dirdataPos := by
      simp only [dirdataPos]
      omega
    exact hword _ hbefore
  have hdirect : ∀ q, dwa.blockcnt ≤ q / 4096 → stored.byteAt q =
      copy dwa.bg.blidx (dwa.dirdataPos + (p - 4096 * dwa.blockcnt)) data from' len
        (dwa.dirdataPos + (q - 4096 * dwa.blockcnt)) :=
    fun q hq => stored.byteAt_direct hq
  refine ⟨⟨rfl, rfl, rfl, rfl, rfl, rfl⟩, rfl, rfl, ?_, hbigs, hsmalls, ?_, ?_⟩
  · intro hstate
    obtain ⟨hbig, hsmall⟩ := hplaced.new hstate
    exact hword 0 (by simp only [dirdataPos]; omega)
  · intro i hi
    refine (hdirect (p + i) (by omega)).trans ?_
    rw [copy_inside (by omega) (by omega)]
    congr 1
    omega
  · intro q hq hout
    rcases Nat.lt_or_ge (q / 4096) dwa.blockcnt with hin | hbehind
    · rw [dwa.byteAt_block hin]
      refine (stored.byteAt_block hin).trans ?_
      rw [block_congr hbigs hsmalls hin]
      rfl
    · rw [dwa.byteAt_direct hbehind]
      refine (hdirect q hbehind).trans ?_
      exact copy_outside (by omega)

theorem store_points {place : Place} {data : Memory} {from' p len : Nat} (hplaced : dwa.Placed)
    (hapart : dwa.extents.Pairwise Extent.Apart) (hpoints : dwa.Points p len place) :
    dwa.Written (dwa.store data from' len place) data from' p len := by
  cases place with
  | page dadr pos =>
      obtain ⟨hblock, rfl, rfl, hlen⟩ := hpoints
      exact written_page hapart hblock hlen
  | direct pos =>
      obtain ⟨hblock, rfl, hlen⟩ := hpoints
      exact written_direct hplaced hblock

theorem writeLoop_written {data : Memory} {fuel firstel elemcnt from' : Nat}
    (hplaced : dwa.Placed) (hdvd : dwa.elemlen ∣ 4096)
    (hapart : dwa.extents.Pairwise Extent.Apart) (hfuel : elemcnt ≤ fuel)
    (hroom : (firstel + elemcnt) * dwa.elemlen ≤ dwa.limit) :
    ∃ next, writeLoop data fuel dwa firstel elemcnt from' = some next ∧
      dwa.Written next data from' (firstel * dwa.elemlen) (elemcnt * dwa.elemlen) := by
  induction fuel generalizing dwa firstel elemcnt from' with
  | zero =>
      obtain rfl : elemcnt = 0 := by omega
      exact ⟨dwa, rfl, by rw [Nat.zero_mul]; exact .refl dwa data from' _⟩
  | succ fuel ih =>
      cases elemcnt with
      | zero => exact ⟨dwa, rfl, by rw [Nat.zero_mul]; exact .refl dwa data from' _⟩
      | succ elemcnt =>
          obtain ⟨hprogress, hpoints⟩ :=
            pointer_points hplaced hdvd (Nat.succ_pos elemcnt) hroom
          simp only [writeLoop]
          generalize hloc : min (dwa.pointer firstel).2 (elemcnt + 1) = loc at hprogress hpoints
          have hle : loc ≤ elemcnt + 1 := hloc ▸ Nat.min_le_right ..
          have hsum : firstel + loc + (elemcnt + 1 - loc) = firstel + (elemcnt + 1) := by omega
          have hstored : dwa.Written
              (dwa.store data from' (loc * dwa.elemlen) (dwa.pointer firstel).1) data from'
              (firstel * dwa.elemlen) (loc * dwa.elemlen) :=
            store_points hplaced hapart hpoints
          generalize dwa.store data from' (loc * dwa.elemlen) (dwa.pointer firstel).1 = stored
            at hstored
          have hlen := hstored.frame.elemlen
          have hrest : (firstel + loc + (elemcnt + 1 - loc)) * stored.elemlen ≤ stored.limit := by
            rw [hsum, hlen, hstored.limit]
            exact hroom
          obtain ⟨next, hnext, hwritten⟩ := @ih stored (firstel + loc) (elemcnt + 1 - loc)
            (from' + loc * dwa.elemlen) (hstored.placed hplaced) (hlen ▸ hdvd) (hstored.extents ▸ hapart) (by omega) hrest
          have hbytes : (elemcnt + 1) * dwa.elemlen =
              loc * dwa.elemlen + (elemcnt + 1 - loc) * dwa.elemlen := by
            rw [← Nat.add_mul]
            congr 1
            omega
          refine ⟨next, hnext, ?_⟩
          rw [hlen, Nat.add_mul] at hwritten
          rw [hbytes]
          refine hstored.append hwritten ?_
          rw [Nat.add_assoc, ← hbytes, ← Nat.add_mul]
          exact hroom

end DwormAccess

end Sql602.Heap
