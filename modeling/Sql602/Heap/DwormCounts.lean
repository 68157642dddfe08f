import Sql602.Heap.DwormRead
import Sql602.Library.Run

namespace Sql602.Heap

open Bytes

namespace DwormAccess

variable {dwa next : DwormAccess}

/-! The counts that `expand` chooses for a size within its capacity. -/

/-- The size ends below the big blocks that the object has, but there are small
blocks behind them. -/
def Drops (dwa : DwormAccess) (elemcnt : Nat) : Prop :=
  (elemcnt - 1) / dwa.perblock / 1024 < dwa.bigBlockcnt ∧ 0 < dwa.smallBlockcnt

structure Chosen (dwa : DwormAccess) (elemcnt : Nat) (counts : Counts) : Prop where
  low : 8 + 4 * (counts.big + counts.small) ≤ counts.locBytes
  high : counts.locBytes ≤ 4096
  room : elemcnt * dwa.elemlen ≤ 4096 * (1024 * counts.big + counts.small) +
    (counts.locBytes - (8 + 4 * (counts.big + counts.small)))
  bigger : dwa.bigBlockcnt ≤ counts.big
  kept : counts.big = dwa.bigBlockcnt → counts.small < dwa.smallBlockcnt →
    dwa.Drops elemcnt

theorem rest_eq (hdvd : dwa.elemlen ∣ 4096) (elemcnt : Nat) (blocks : Nat × Nat) :
    dwa.rest elemcnt blocks =
      elemcnt * dwa.elemlen - 4096 * (1024 * blocks.1 + blocks.2) := by
  have hper := perblock_mul hdvd
  calc dwa.rest elemcnt blocks
      = dwa.elemlen * elemcnt - dwa.perblock * dwa.elemlen * (1024 * blocks.1 + blocks.2) := by
        rw [rest, Nat.mul_sub, ← Nat.mul_assoc, Nat.mul_comm dwa.elemlen dwa.perblock]
    _ = _ := by rw [hper, Nat.mul_comm]

theorem countLoop_done {elemcnt fuel : Nat} {wanted blocks : Nat × Nat}
    (hgeneral : generalBlocks wanted = blocks)
    (hfits : 8 + 4 * (blocks.1 + blocks.2) + dwa.rest elemcnt blocks ≤ 4096) :
    dwa.countLoop elemcnt (fuel + 1) wanted =
      some ⟨blocks.1, blocks.2, 8 + 4 * (blocks.1 + blocks.2) + dwa.rest elemcnt blocks⟩ := by
  rw [countLoop, hgeneral]
  exact if_pos hfits

theorem countLoop_more {elemcnt fuel : Nat} {wanted blocks : Nat × Nat}
    (hgeneral : generalBlocks wanted = blocks)
    (hlarge : ¬ 8 + 4 * (blocks.1 + blocks.2) + dwa.rest elemcnt blocks ≤ 4096)
    (hrest : dwa.rest elemcnt blocks ≠ 0) :
    dwa.countLoop elemcnt (fuel + 1) wanted =
      dwa.countLoop elemcnt fuel (blocks.1, blocks.2 + 1) := by
  rw [countLoop, hgeneral]
  exact (if_neg hlarge).trans (if_pos hrest)

theorem generalBlocks_few {blocks : Nat × Nat} (hfew : blocks.1 + blocks.2 ≤ 1022) :
    generalBlocks blocks = blocks :=
  if_neg (Nat.not_lt.mpr hfew)

theorem generalBlocks_many {blocks : Nat × Nat} (hmany : 1022 < blocks.1 + blocks.2) :
    generalBlocks blocks = (blocks.1 + 1, 0) :=
  if_pos hmany

theorem chosen_of_done {elemcnt : Nat} {blocks : Nat × Nat} (hdvd : dwa.elemlen ∣ 4096)
    (hfits : 8 + 4 * (blocks.1 + blocks.2) + dwa.rest elemcnt blocks ≤ 4096)
    (hbig : dwa.bigBlockcnt ≤ blocks.1)
    (hkept : blocks.1 = dwa.bigBlockcnt → blocks.2 < dwa.smallBlockcnt → dwa.Drops elemcnt) :
    dwa.Chosen elemcnt ⟨blocks.1, blocks.2,
      8 + 4 * (blocks.1 + blocks.2) + dwa.rest elemcnt blocks⟩ where
  low := Nat.le_add_right _ _
  high := hfits
  room := by
    dsimp only
    rw [Nat.add_sub_cancel_left, rest_eq hdvd]
    omega
  bigger := hbig
  kept := hkept

/-- At most two more passes are needed after the first: the size is rounded up
to whole blocks, and small blocks give way to one more big block. -/
theorem newCounts_chosen (hplaced : 8 + 4 * (dwa.bigBlockcnt + dwa.smallBlockcnt) ≤ 4096)
    (hdvd : dwa.elemlen ∣ 4096) {elemcnt : Nat} (hsome : 0 < elemcnt)
    (hcapacity : elemcnt ≤ dwa.perblock * 1024 * 1022) :
    ∃ counts, dwa.newCounts elemcnt = some counts ∧ dwa.Chosen elemcnt counts := by
  have hper := perblock_mul hdvd
  have hpos := elemlen_pos hdvd
  have hperPos := perblock_pos hdvd
  obtain ⟨total, htotal⟩ : ∃ total, total = (elemcnt - 1) / dwa.perblock := ⟨_, rfl⟩
  have hover : elemcnt * dwa.elemlen ≤ 4096 * (total + 1) := by
    have hlt : elemcnt - 1 < dwa.perblock * (total + 1) := by
      rw [htotal]
      exact Nat.lt_mul_div_succ _ hperPos
    calc elemcnt * dwa.elemlen ≤ dwa.perblock * (total + 1) * dwa.elemlen :=
          Nat.mul_le_mul_right _ (by omega)
      _ = 4096 * (total + 1) := by rw [Nat.mul_right_comm, hper]
  have hmax : total < 1024 * 1022 := by
    rw [htotal, Nat.div_lt_iff_lt_mul hperPos]
    calc elemcnt - 1 < elemcnt := by omega
      _ ≤ dwa.perblock * 1024 * 1022 := hcapacity
      _ = 1024 * 1022 * dwa.perblock := by rw [Nat.mul_assoc, Nat.mul_comm]
  have hrest := rest_eq hdvd elemcnt
  simp only [newCounts, wantedBlocks, ← htotal]
  split
  case isTrue hless =>
    have hfew : generalBlocks (dwa.bigBlockcnt, 0) = (dwa.bigBlockcnt, 0) :=
      generalBlocks_few (by simp only; omega)
    have hfits : 8 + 4 * (dwa.bigBlockcnt + 0) + dwa.rest elemcnt (dwa.bigBlockcnt, 0) ≤ 4096 := by
      rw [hrest]
      omega
    refine ⟨_, countLoop_done hfew hfits, ?_⟩
    refine chosen_of_done hdvd hfits (Nat.le_refl _) fun _ hsmall => ⟨?_, by omega⟩
    rw [← htotal]
    exact hless
  case isFalse hbig =>
    split
    case isTrue hsame =>
      have hfew : generalBlocks (total / 1024, dwa.smallBlockcnt) =
          (total / 1024, dwa.smallBlockcnt) := generalBlocks_few (by simp only; omega)
      have hfits : 8 + 4 * (total / 1024 + dwa.smallBlockcnt) +
          dwa.rest elemcnt (total / 1024, dwa.smallBlockcnt) ≤ 4096 := by
        rw [hrest]
        omega
      refine ⟨_, countLoop_done hfew hfits, ?_⟩
      exact chosen_of_done hdvd hfits (by simp only; omega) fun _ h => absurd h (Nat.lt_irrefl _)
    case isFalse hmore =>
      have hwhole : ∀ blocks : Nat × Nat, total + 1 ≤ 1024 * blocks.1 + blocks.2 →
          dwa.rest elemcnt blocks = 0 := by
        intro blocks hblocks
        rw [hrest]
        omega
      have hlast : ∀ wanted : Nat × Nat, wanted.1 = total / 1024 →
          1022 < wanted.1 + wanted.2 → ∀ fuel, ∃ counts,
            dwa.countLoop elemcnt (fuel + 1) wanted = some counts ∧ dwa.Chosen elemcnt counts := by
        intro wanted heq hmany fuel
        have hgeneral := generalBlocks_many hmany
        have hfits : 8 + 4 * (wanted.1 + 1 + 0) + dwa.rest elemcnt (wanted.1 + 1, 0) ≤ 4096 := by
          rw [hwhole _ (by simp only; omega)]
          omega
        refine ⟨_, countLoop_done hgeneral hfits, ?_⟩
        exact chosen_of_done hdvd hfits (by simp only; omega) fun h => by simp only at h; omega
      rcases Nat.lt_or_ge 1022 (total / 1024 + total % 1024) with hmany | hfew
      · exact hlast (total / 1024, total % 1024) rfl hmany _
      · have hgeneral : generalBlocks (total / 1024, total % 1024) =
            (total / 1024, total % 1024) := generalBlocks_few hfew
        by_cases hfits : 8 + 4 * (total / 1024 + total % 1024) +
            dwa.rest elemcnt (total / 1024, total % 1024) ≤ 4096
        · refine ⟨_, countLoop_done hgeneral hfits, ?_⟩
          exact chosen_of_done hdvd hfits (by simp only; omega) fun h hlt => by
            simp only at h hlt
            omega
        · rw [countLoop_more hgeneral hfits (by omega)]
          rcases Nat.lt_or_ge 1022 (total / 1024 + (total % 1024 + 1)) with hmany | hless
          · exact hlast (total / 1024, total % 1024 + 1) rfl hmany _
          · have hgeneral : generalBlocks (total / 1024, total % 1024 + 1) =
                (total / 1024, total % 1024 + 1) := generalBlocks_few hless
            have hfits : 8 + 4 * (total / 1024 + (total % 1024 + 1)) +
                dwa.rest elemcnt (total / 1024, total % 1024 + 1) ≤ 4096 := by
              rw [hwhole _ (by simp only; omega)]
              omega
            refine ⟨_, countLoop_done hgeneral hfits, ?_⟩
            exact chosen_of_done hdvd hfits (by simp only; omega) fun h hlt => by
              simp only at h hlt
              omega

end DwormAccess

end Sql602.Heap

namespace Sql602.Heap

open Bytes

namespace DwormAccess

variable {dwa next : DwormAccess}

/-! Storing the counts. -/

theorem putCounts_spec (hplaced : dwa.Placed)
    (hheader : dwa.bg.state = .dworm2 → dwa.bigBlockcnt = 0 → word dwa.bg.blidx 0 = 0) :
    dwa.putCounts.Placed ∧ dwa.putCounts.Headed ∧ dwa.SameContents dwa.putCounts := by
  have hfits := hplaced.fits
  have hwhole := hplaced.whole
  by_cases hnone : dwa.bigBlockcnt = 0
  · have hsame : dwa.putCounts =
        { dwa with bg := { dwa.bg with smallBlockcnt := dwa.smallBlockcnt } } := by
      simp only [putCounts, if_pos hnone]
    rw [hsame]
    refine ⟨⟨hplaced.opened, hplaced.valid, hplaced.old, hplaced.new, hplaced.fits,
      hplaced.whole⟩, ⟨rfl, fun hstate => ?_⟩, ⟨rfl, rfl, rfl, rfl, rfl, Nat.le_refl _,
        fun _ _ => rfl⟩⟩
    rw [hheader hstate hnone, hnone]
  · have hstate : dwa.bg.state = .dworm2 := by
      cases hstate : dwa.bg.state with
      | dworm => exact absurd (hplaced.old hstate).1 hnone
      | dworm2 => rfl
    obtain ⟨hpos, hsmall⟩ := hplaced.new hstate
    have hput : dwa.putCounts =
        { dwa with
          bg :=
            { dwa.bg with
              smallBlockcnt := dwa.smallBlockcnt
              blidx := putWord dwa.bg.blidx 0 dwa.bigBlockcnt } } := by
      simp only [putCounts, if_neg hnone]
    rw [hput]
    refine ⟨⟨hplaced.opened, hplaced.valid, hplaced.old, hplaced.new, hplaced.fits,
      hplaced.whole⟩, ⟨rfl, fun _ => word_putWord (by omega)⟩, ⟨rfl, rfl, rfl, ?_, ?_,
        Nat.le_refl _, ?_⟩⟩
    · refine bigs_congr rfl fun i hi => ?_
      have hbehind : 4 ≤ dwa.bigBlocks + 4 * i := by omega
      exact word_putWord_outside (Or.inr hbehind)
    · refine smalls_congr rfl fun i hi => ?_
      have hbehind : 4 ≤ dwa.smallBlocks + 4 * i := by omega
      exact word_putWord_outside (Or.inr hbehind)
    · intro i hi
      have hbehind : 4 ≤ dwa.dirdataPos + i := by
        simp only [dirdataPos]
        omega
      exact putWord_outside (Or.inr hbehind)

theorem SameContents.trans {last : DwormAccess} (hfirst : dwa.SameContents next)
    (hrest : next.SameContents last) : dwa.SameContents last where
  elemlen := hrest.elemlen.trans hfirst.elemlen
  translog := hrest.translog.trans hfirst.translog
  page := hrest.page.trans hfirst.page
  bigs := hrest.bigs.trans hfirst.bigs
  smalls := hrest.smalls.trans hfirst.smalls
  size := Nat.le_trans hfirst.size hrest.size
  direct := by
    intro i hi
    obtain ⟨hbig, hsmall⟩ := hfirst.counts
    have hsize := hfirst.size
    rw [hrest.direct i ?_, hfirst.direct i hi]
    simp only [directSize, hbig, hsmall] at hi ⊢
    omega

theorem extent_apart_symm {extent other : Extent} (hapart : extent.Apart other) :
    other.Apart extent := Or.symm hapart

theorem Laid.extents {big small : Nat} (hlaid : dwa.Laid next big small)
    (hapart : (dwa.extents ++ dwa.translog.extents).Pairwise Extent.Apart) :
    next.extents.Pairwise Extent.Apart := by
  have hsub : next.extents.Sublist
      ((dwa.bigs ++ dwa.translog.bigBlocks).map ofBig ++
        (dwa.smalls ++ dwa.translog.blocks).map ofSmall) := by
    rw [DwormAccess.extents, hlaid.bigs, hlaid.smalls]
    exact ((List.Sublist.append_left (List.take_sublist ..) _).map _).append
      (((List.take_sublist ..).append (List.take_sublist ..)).map _)
  refine List.Pairwise.sublist hsub ?_
  refine hapart.perm ?_ extent_apart_symm
  simp only [DwormAccess.extents, BlockGrants.extents, List.map_append, List.append_assoc]
  refine List.Perm.append_left _ ?_
  rw [← List.append_assoc, ← List.append_assoc]
  exact List.Perm.append_right _ List.perm_append_comm

structure Served (dwa : DwormAccess) (counts : Counts) : Prop where
  small : counts.small - dwa.smallBlockcnt ≤ dwa.translog.blocks.length
  big : counts.big - dwa.bigBlockcnt ≤ dwa.translog.bigBlocks.length

structure Fresh (dwa : DwormAccess) : Prop where
  words : ∀ dadr ∈ dwa.translog.blocks, dadr < 2 ^ 32
  wordsBig : ∀ dadr ∈ dwa.translog.bigBlocks, dadr < 2 ^ 32
  apart : (dwa.extents ++ dwa.translog.extents).Pairwise Extent.Apart

theorem SameContents.fresh (hsame : dwa.SameContents next) (hfresh : dwa.Fresh) : next.Fresh where
  words := by rw [hsame.translog]; exact hfresh.words
  wordsBig := by rw [hsame.translog]; exact hfresh.wordsBig
  apart := by rw [hsame.translog, hsame.extents]; exact hfresh.apart

theorem SameContents.served {counts : Counts} (hsame : dwa.SameContents next)
    (hserved : dwa.Served counts) : next.Served counts where
  small := by rw [hsame.translog, hsame.counts.2]; exact hserved.small
  big := by rw [hsame.translog, hsame.counts.1]; exact hserved.big

theorem layBlocks_laid {counts : Counts} (hplaced : dwa.Placed) (hheaded : dwa.Headed)
    (hbigger : dwa.bigBlockcnt ≤ counts.big)
    (hfits : 8 + 4 * (counts.big + counts.small) ≤ dwa.pieceSize)
    (hserved : dwa.Served counts) (hfresh : dwa.Fresh) :
    ∃ turned next, dwa.layBlocks counts.big counts.small = some next ∧
      turned.Placed ∧ dwa.SameContents turned ∧ turned.Laid next counts.big counts.small ∧
      (next.bg.state = .dworm2 → next.bigBlockcnt = 0 → word next.bg.blidx 0 = 0) := by
  rcases Nat.lt_or_eq_of_le hbigger with hmore | hsameBig
  · obtain ⟨hturned, hsame, hstate⟩ := reorganize_same hplaced counts.big
    have hsize := hsame.size
    obtain ⟨hbig, hsmall⟩ := hsame.counts
    have hturnedFresh := hsame.fresh hfresh
    have hturnedServed := hsame.served hserved
    obtain ⟨next, hnext, hlaid⟩ := laid_big hturned (hstate (by omega)) (hbig ▸ hmore)
      (Nat.le_trans hfits hsize) hturnedServed.small hturnedServed.big hturnedFresh.words
      hturnedFresh.wordsBig hturnedFresh.apart
    refine ⟨_, next, (layBlocks_reorganize hplaced hmore).trans hnext, hturned, hsame,
      hlaid, ?_⟩
    intro _ hnone
    have hlen := bigBlockcnt_eq hlaid.bigs
    have hroom := hturnedServed.big
    simp only [List.length_take] at hlen
    omega
  · have hheader : ∀ next, dwa.Laid next counts.big counts.small →
        next.bg.state = .dworm2 → next.bigBlockcnt = 0 → word next.bg.blidx 0 = 0 := by
      intro next hlaid hstate hnone
      obtain ⟨hold, hword⟩ := hlaid.header hstate hnone
      have hlen := bigBlockcnt_eq hlaid.bigs
      rw [hword, hheaded.big hold]
      omega
    rcases Nat.lt_or_ge dwa.smallBlockcnt counts.small with hmore | hless
    · obtain ⟨next, hnext, hlaid⟩ := laid_small hplaced hmore (hsameBig ▸ hfits) hserved.small
        hfresh.words hfresh.apart
      rw [hsameBig] at hnext hlaid
      exact ⟨dwa, next, hnext, hplaced, .refl dwa, hlaid, hheader next hlaid⟩
    · have hlaid := laid_less hplaced hless
      have hnext := layBlocks_less hplaced hless
      rw [hsameBig] at hnext hlaid
      exact ⟨dwa, _, hnext, hplaced, .refl dwa, hlaid, hheader _ hlaid⟩

/-! What `expand` does to the contents. -/

structure Expanded (dwa next : DwormAccess) (elemcnt : Nat) : Prop where
  placed : next.Placed
  headed : next.Headed
  elemlen : next.elemlen = dwa.elemlen
  apart : next.extents.Pairwise Extent.Apart
  room : elemcnt * dwa.elemlen ≤ next.limit
  contents : ∀ p < dwa.limit, (dwa.Drops elemcnt → p < 4096 * (1024 * dwa.bigBlockcnt)) →
    p < next.limit ∧ next.byteAt p = dwa.byteAt p

theorem Laid.counts {counts : Counts} (hlaid : dwa.Laid next counts.big counts.small)
    (hbigger : dwa.bigBlockcnt ≤ counts.big) (hserved : dwa.Served counts) :
    next.bigBlockcnt = counts.big ∧ next.smallBlockcnt = counts.small := by
  have hbig := bigBlockcnt_eq hlaid.bigs
  have hsmall := congrArg List.length hlaid.smalls
  have hroomSmall := hserved.small
  have hroomBig := hserved.big
  simp only [length_smalls, List.length_append, List.length_take] at hbig hsmall
  omega

theorem Laid.expanded {turned last : DwormAccess} {counts : Counts} {elemcnt : Nat}
    (hchosen : dwa.Chosen elemcnt counts) (hserved : dwa.Served counts) (hfresh : dwa.Fresh)
    (hplaced : turned.Placed) (hroom : counts.locBytes ≤ turned.pieceSize)
    (hbefore : dwa.SameContents turned) (hlaid : turned.Laid next counts.big counts.small)
    (hafter : next.SameContents last) (hlast : last.Placed) (hheaded : last.Headed) :
    dwa.Expanded last elemcnt := by
  obtain ⟨hbig, hsmall⟩ := hbefore.counts
  obtain ⟨hnextBig, hnextSmall⟩ :=
    hlaid.counts (hbig ▸ hchosen.bigger) (hbefore.served hserved)
  have hsize := hlaid.size
  have hlimit := hafter.limit_le
  have hlow := hchosen.low
  have hbigger := hchosen.bigger
  have hturnedFits := hplaced.fits
  have hturnedWhole := hplaced.whole
  have hdirect := hplaced.directSize_lt
  have hnext : next.limit = 4096 * (1024 * counts.big + counts.small) +
      (turned.pieceSize - (8 + 4 * (counts.big + counts.small))) := by
    simp only [limit, blockcnt, directSize, hnextBig, hnextSmall, hsize]
  refine ⟨hlast, hheaded, ?_, ?_, ?_, ?_⟩
  · rw [hafter.elemlen, hlaid.elemlen, hbefore.elemlen]
  · rw [hafter.extents]
    exact hlaid.extents (hbefore.fresh hfresh).apart
  · have hneed := hchosen.room
    omega
  · intro p hp hdrops
    have hturned : p < turned.limit := Nat.lt_of_lt_of_le hp hbefore.limit_le
    have hkept : counts.big = dwa.bigBlockcnt → counts.small < dwa.smallBlockcnt →
        p < 4096 * (1024 * dwa.bigBlockcnt) :=
      fun hsame hless => hdrops (hchosen.kept hsame hless)
    have hinside : p < next.limit := by
      rw [hnext]
      simp only [limit, blockcnt, hbig, hsmall] at hturned
      simp only [directSize, hbig, hsmall] at hturned hdirect
      omega
    refine ⟨Nat.lt_of_lt_of_le hinside hlimit, ?_⟩
    rw [hafter.byteAt hinside, hlaid.contents p hturned ?_, hbefore.byteAt hp]
    rw [hbig, hsmall]
    exact hkept

theorem expand_expanded {elemcnt : Nat} (hopen : dwa.Null ∨ dwa.Placed ∧ dwa.Headed)
    (hdvd : dwa.elemlen ∣ 4096) (hsome : 0 < elemcnt)
    (hcapacity : elemcnt ≤ dwa.perblock * 1024 * 1022)
    (hserved : ∀ counts, dwa.newCounts elemcnt = some counts → dwa.Served counts)
    (hfresh : dwa.Fresh) :
    ∃ next, dwa.expand elemcnt = some next ∧ dwa.Expanded next elemcnt := by
  have hfew : 8 + 4 * (dwa.bigBlockcnt + dwa.smallBlockcnt) ≤ 4096 := by
    rcases hopen with hnull | ⟨hplaced, _⟩
    · rw [hnull.big.1, hnull.small]
      decide
    · exact Nat.le_trans hplaced.fits hplaced.whole
  obtain ⟨counts, hcounts, hchosen⟩ := newCounts_chosen hfew hdvd hsome hcapacity
  replace hserved := hserved counts hcounts
  rw [expand, if_neg (by omega), hcounts]
  simp only [Option.bind_eq_bind, Option.bind_some]
  have hlow := hchosen.low
  have hbigger := hchosen.bigger
  by_cases hsame : counts.big = dwa.bigBlockcnt ∧ counts.small = dwa.smallBlockcnt ∧
      dwa.needsPiece counts.locBytes = false
  · obtain ⟨hbig, hsmall, hneeds⟩ := hsame
    have hroom : ¬ dwa.pieceSize < counts.locBytes ∧ dwa.isError = false := by
      simpa [needsPiece] using hneeds
    have hgrown : dwa.growPiece counts.locBytes = dwa := by simp [growPiece, hneeds]
    rcases hopen with hnull | ⟨hplaced, hheaded⟩
    · have hempty : dwa.pieceSize = 0 := by simp [pieceSize, hnull.empty]
      omega
    · have hlay : dwa.layBlocks counts.big counts.small = some dwa := by
        rw [hbig, layBlocks_less hplaced (Nat.le_of_eq hsmall),
          releaseSmall_same (Nat.le_of_eq hsmall.symm)]
      have hunchanged : (dwa.needsPiece counts.locBytes || dwa.bigBlockcnt != counts.big ||
          dwa.smallBlockcnt != counts.small) = false := by simp [hneeds, hbig, hsmall]
      refine ⟨dwa, ?_, ?_⟩
      · rw [hgrown, hlay, Option.bind_some, hunchanged]
        rfl
      · have hlaid : dwa.Laid dwa counts.big counts.small := by
          have hless := laid_less hplaced (Nat.le_of_eq hsmall)
          rw [releaseSmall_same (Nat.le_of_eq hsmall.symm)] at hless
          rw [hbig]
          exact hless
        exact hlaid.expanded hchosen hserved hfresh hplaced (Nat.not_lt.mp hroom.1) (.refl dwa)
          (.refl dwa) hplaced hheaded
  · obtain ⟨hplaced, hgrown, hroom⟩ := growPiece_same hopen (by omega) hchosen.high
    have hheaded := growPiece_headed hopen (by omega : 8 ≤ counts.locBytes)
    generalize dwa.growPiece counts.locBytes = grown at hplaced hgrown hroom hheaded
    obtain ⟨turned, next, hnext, hturnedPlaced, hturned, hlaid, hheader⟩ :=
      layBlocks_laid hplaced hheaded (hgrown.counts.1 ▸ hbigger) (Nat.le_trans hlow hroom)
        (hgrown.served hserved) (hgrown.fresh hfresh)
    obtain ⟨hlast, hlastHeaded, hafter⟩ := putCounts_spec hlaid.placed hheader
    have hchanged : (dwa.needsPiece counts.locBytes || dwa.bigBlockcnt != counts.big ||
        dwa.smallBlockcnt != counts.small) = true := by
      by_contra hnot
      simp only [Bool.or_eq_true, bne_iff_ne, not_or, ne_eq, not_not,
        Bool.not_eq_true] at hnot
      exact hsame ⟨hnot.1.2.symm, hnot.2.symm, hnot.1.1⟩
    refine ⟨next.putCounts, ?_, ?_⟩
    · rw [hnext, Option.bind_some, hchanged]
      rfl
    · exact hlaid.expanded hchosen hserved hfresh hturnedPlaced
        (Nat.le_trans hroom hturned.size) (hgrown.trans hturned) hafter hlast hlastHeaded

end DwormAccess

/-! Objects between two calls. -/

theorem Dworm.close_access (dw : Dworm) (elemlen : Nat) (translog : BlockGrants) :
    (dw.access elemlen translog).close = dw := by
  simp only [Dworm.access]
  split
  · rfl
  · split
    · cases hstate : dw.bg.state with
      | dworm => simp only [DwormAccess.initMembers, DwormAccess.close, hstate]
      | dworm2 => simp only [DwormAccess.initMembers, DwormAccess.close, hstate]
    · rfl

theorem DwormAccess.access_close {dwa : DwormAccess} (hplaced : dwa.Placed)
    (hheaded : dwa.Headed) (translog : BlockGrants) :
    dwa.close.access dwa.elemlen translog = { dwa with translog } := by
  have hfits := hplaced.fits
  have hwhole := hplaced.whole
  have hpiece : dwa.len32 ≠ 0 := by
    simp only [pieceSize] at hfits
    omega
  cases hstate : dwa.bg.state with
  | dworm =>
      obtain ⟨hbig, hpos, hsmall⟩ := hplaced.old hstate
      simp only [Dworm.access, close, if_neg hpiece, initMembers, headerFits, hstate,
        hheaded.small]
      rw [if_pos]
      · simp only [hplaced.opened, hplaced.valid, hbig, hpos, hsmall]
      · refine decide_eq_true ?_
        simp only [pieceSize] at hfits ⊢
        omega
  | dworm2 =>
      obtain ⟨hpos, hsmall⟩ := hplaced.new hstate
      simp only [Dworm.access, close, if_neg hpiece, initMembers, headerFits, hstate,
        hheaded.small, hheaded.big hstate]
      rw [if_pos]
      · simp only [hplaced.opened, hplaced.valid, hpos, hsmall]
      · exact decide_eq_true (by omega)

/-- An object of which every call finds the counts and numbers in place. -/
structure Dworm.Sound (dw : Dworm) (elemlen : Nat) : Prop where
  opened : ∀ translog, (dw.access elemlen translog).Null ∨
    (dw.access elemlen translog).Placed ∧ (dw.access elemlen translog).Headed
  apart : ∀ translog, (dw.access elemlen translog).extents.Pairwise Extent.Apart

def Dworm.byteAt (dw : Dworm) (p : Nat) : UInt8 := (dw.access 1 ⟨[], [], [], []⟩).byteAt p

def Dworm.limit (dw : Dworm) : Nat := (dw.access 1 ⟨[], [], [], []⟩).limit

theorem Dworm.access_eq (dw : Dworm) (elemlen elemlen' : Nat) (translog translog' : BlockGrants) :
    dw.access elemlen translog =
      { dw.access elemlen' translog' with elemlen, translog } := by
  simp only [Dworm.access]
  split
  · rfl
  · cases hstate : dw.bg.state with
    | dworm =>
        simp only [DwormAccess.initMembers, DwormAccess.headerFits, hstate,
          DwormAccess.pieceSize]
        split <;> rfl
    | dworm2 =>
        simp only [DwormAccess.initMembers, DwormAccess.headerFits, hstate]
        split <;> rfl

theorem Dworm.byteAt_access (dw : Dworm) (elemlen : Nat) (translog : BlockGrants) (p : Nat) :
    (dw.access elemlen translog).byteAt p = dw.byteAt p := by
  rw [dw.access_eq elemlen 1 translog ⟨[], [], [], []⟩]
  rfl

theorem Dworm.limit_access (dw : Dworm) (elemlen : Nat) (translog : BlockGrants) :
    (dw.access elemlen translog).limit = dw.limit := by
  rw [dw.access_eq elemlen 1 translog ⟨[], [], [], []⟩]
  rfl

theorem Dworm.elemlen_access (dw : Dworm) (elemlen : Nat) (translog : BlockGrants) :
    (dw.access elemlen translog).elemlen = elemlen := by
  rw [dw.access_eq elemlen 1 translog ⟨[], [], [], []⟩]

theorem Dworm.sound_close {dwa : DwormAccess} (hplaced : dwa.Placed) (hheaded : dwa.Headed)
    (hapart : dwa.extents.Pairwise Extent.Apart) :
    dwa.close.Sound dwa.elemlen ∧ dwa.close.limit = dwa.limit ∧
      ∀ p, dwa.close.byteAt p = dwa.byteAt p := by
  have haccess := DwormAccess.access_close hplaced hheaded
  refine ⟨⟨fun translog => ?_, fun translog => ?_⟩, ?_, fun p => ?_⟩
  · rw [haccess]
    exact Or.inr ⟨⟨hplaced.opened, hplaced.valid, hplaced.old, hplaced.new, hplaced.fits,
      hplaced.whole⟩, ⟨hheaded.small, hheaded.big⟩⟩
  · rw [haccess]
    exact hapart
  · rw [← dwa.close.limit_access dwa.elemlen dwa.translog, haccess]
  · rw [← dwa.close.byteAt_access dwa.elemlen dwa.translog, haccess]

/-! Giving blocks at the end back. -/

namespace DwormAccess

variable {dwa next : DwormAccess}

structure Cut (dwa next : DwormAccess) (kept : Nat × Nat) : Prop where
  placed : next.Placed
  headed : next.Headed
  page : next.page = dwa.page
  bigs : next.bigs = dwa.bigs.take kept.1
  smalls : next.smalls = dwa.smalls.take kept.2

theorem bigs_releaseBig {big : Nat} : (dwa.releaseBig big).bigs = dwa.bigs.take big := by
  have hsame : (dwa.releaseBig big).bigBlock = dwa.bigBlock := rfl
  simp only [bigs, hsame, ← List.map_take, List.take_range]
  congr 2
  exact Nat.min_comm _ _

theorem access_release {kept : Nat × Nat} (translog : BlockGrants) (hplaced : dwa.Placed)
    (hheaded : dwa.Headed) (hkept : kept.1 < dwa.bigBlockcnt → kept.2 = 0) :
    dwa.Cut ((dwa.release kept).close.access dwa.elemlen translog) kept := by
  have hfits := hplaced.fits
  have hwhole := hplaced.whole
  have hpiece : dwa.len32 ≠ 0 := by
    simp only [pieceSize] at hfits
    omega
  cases hstate : dwa.bg.state with
  | dworm =>
      obtain ⟨hbig, hpos, hsmall⟩ := hplaced.old hstate
      have hopened : (dwa.release kept).close.access dwa.elemlen translog =
          { dwa with
            bg := { dwa.bg with smallBlockcnt := min dwa.smallBlockcnt kept.2 }
            smallBlockcnt := min dwa.smallBlockcnt kept.2
            translog } := by
        simp only [Dworm.access, close, release, releaseSmall, releaseBig, if_neg hpiece,
          initMembers, headerFits, hstate]
        rw [if_pos]
        · simp [hplaced.opened, hplaced.valid, hbig, hpos, hsmall]
        · refine decide_eq_true ?_
          simp only [pieceSize] at hfits ⊢
          omega
      rw [hopened]
      refine ⟨⟨hplaced.opened, hplaced.valid, hplaced.old, hplaced.new, ?_, hplaced.whole⟩,
        ⟨rfl, fun h => by simp [hstate] at h⟩, rfl, ?_, ?_⟩
      · simp only [pieceSize] at hfits ⊢
        omega
      · simp [bigs, hbig]
      · exact (smalls_releaseSmall : (dwa.releaseSmall kept.2).smalls = _)
  | dworm2 =>
      obtain ⟨hpos, hsmall⟩ := hplaced.new hstate
      have hword : word (putWord dwa.bg.blidx 0 (min dwa.bigBlockcnt kept.1)) 0 =
          min dwa.bigBlockcnt kept.1 := word_putWord (by omega)
      have hopened : (dwa.release kept).close.access dwa.elemlen translog =
          { dwa with
            bg :=
              { dwa.bg with
                smallBlockcnt := min dwa.smallBlockcnt kept.2
                blidx := putWord dwa.bg.blidx 0 (min dwa.bigBlockcnt kept.1) }
            bigBlockcnt := min dwa.bigBlockcnt kept.1
            smallBlockcnt := min dwa.smallBlockcnt kept.2
            smallBlocks := 4 + 4 * min dwa.bigBlockcnt kept.1
            translog } := by
        simp only [Dworm.access, close, release, releaseSmall, releaseBig, if_neg hpiece,
          initMembers, headerFits, hstate, if_true, hword]
        rw [if_pos]
        · simp only [hplaced.opened, hplaced.valid, hpos]
        · exact decide_eq_true (by omega)
      rw [hopened]
      refine ⟨⟨hplaced.opened, hplaced.valid, fun h => by simp [hstate] at h, fun _ => ⟨hpos, rfl⟩,
        ?_, hplaced.whole⟩, ⟨rfl, fun _ => hword⟩, rfl, ?_, ?_⟩
      · simp only [pieceSize] at hfits ⊢
        omega
      · refine Eq.trans ?_ bigs_releaseBig
        refine bigs_congr rfl fun i hi => ?_
        have hbehind : 4 ≤ dwa.bigBlocks + 4 * i := by omega
        exact word_putWord_outside (Or.inr hbehind)
      · refine Eq.trans ?_ smalls_releaseSmall
        refine smalls_congr rfl fun i hi => ?_
        have hsome : kept.2 ≠ 0 := by
          intro hzero
          simp only [releaseSmall, hzero, Nat.min_zero, Nat.not_lt_zero] at hi
        have hall : min dwa.bigBlockcnt kept.1 = dwa.bigBlockcnt :=
          Nat.min_eq_left (Nat.not_lt.mp fun hlt => hsome (hkept hlt))
        have hstart : 4 + 4 * min dwa.bigBlockcnt kept.1 = dwa.smallBlocks := by omega
        have hbehind : 4 ≤ dwa.smallBlocks + 4 * i := by omega
        refine (congrArg (fun pos => word _ (pos + 4 * i)) hstart).trans ?_
        exact word_putWord_outside (Or.inr hbehind)

theorem Cut.byteAt {kept : Nat × Nat} (hcut : dwa.Cut next kept)
    (hkept : kept.1 < dwa.bigBlockcnt → kept.2 = 0) {p : Nat}
    (hp : p / 4096 < 1024 * min dwa.bigBlockcnt kept.1 + min dwa.smallBlockcnt kept.2) :
    p < next.limit ∧ next.byteAt p = dwa.byteAt p := by
  have hbig : next.bigBlockcnt = min dwa.bigBlockcnt kept.1 := by
    have hlen := congrArg List.length hcut.bigs
    simp only [length_bigs, List.length_take] at hlen
    omega
  have hsmall : next.smallBlockcnt = min dwa.smallBlockcnt kept.2 := by
    have hlen := congrArg List.length hcut.smalls
    simp only [length_smalls, List.length_take] at hlen
    omega
  have hbigs : dwa.bigs = next.bigs ++ dwa.bigs.drop kept.1 := by
    rw [hcut.bigs, List.take_append_drop]
  have hsmalls : dwa.smalls = next.smalls ++ dwa.smalls.drop kept.2 := by
    rw [hcut.smalls, List.take_append_drop]
  have hnext : p / 4096 < next.blockcnt := by
    simp only [blockcnt, hbig, hsmall]
    exact hp
  have hold : p / 4096 < dwa.blockcnt := by
    simp only [blockcnt]
    omega
  refine ⟨?_, ?_⟩
  · simp only [limit]
    omega
  · rw [next.byteAt_block hnext, dwa.byteAt_block hold, hcut.page]
    congr 1
    simp only [block, hbig]
    by_cases hin : p / 4096 < 1024 * min dwa.bigBlockcnt kept.1
    · rw [if_pos hin, if_pos (by omega), bigBlock_of_append hbigs (by omega)]
    · have hall : min dwa.bigBlockcnt kept.1 = dwa.bigBlockcnt := by
        refine Nat.min_eq_left (Nat.not_lt.mp fun hlt => ?_)
        have hzero := hkept hlt
        omega
      rw [if_neg hin, if_neg (by omega), hall, smallBlock_of_append hsmalls (by omega)]

theorem Cut.extents {kept : Nat × Nat} (hcut : dwa.Cut next kept)
    (hapart : dwa.extents.Pairwise Extent.Apart) : next.extents.Pairwise Extent.Apart := by
  refine hapart.sublist ?_
  rw [DwormAccess.extents, DwormAccess.extents, hcut.bigs, hcut.smalls]
  exact ((List.take_sublist ..).map _).append ((List.take_sublist ..).map _)

/-- The kept blocks hold every element below the new size. -/
theorem keptBlocks_spec {elemcnt : Nat} {kept : Nat × Nat} (hdvd : dwa.elemlen ∣ 4096)
    (hkept : dwa.keptBlocks elemcnt = some kept) :
    kept.1 ≤ dwa.bigBlockcnt ∧ (kept.1 < dwa.bigBlockcnt → kept.2 = 0) ∧
      ∀ p < elemcnt * dwa.elemlen, p / 4096 < 1024 * kept.1 + kept.2 := by
  have hper := perblock_mul hdvd
  have hpos := elemlen_pos hdvd
  have hperPos : 0 < dwa.perblock := perblock_pos hdvd
  have hcover : ∀ newblk, newblk = (if elemcnt = 0 then 0 else (elemcnt - 1) / dwa.perblock + 1) →
      ∀ p < elemcnt * dwa.elemlen, p / 4096 < newblk := by
    rintro newblk rfl p hp
    rw [if_neg (by rintro rfl; simp at hp)]
    have hlt : elemcnt - 1 < dwa.perblock * ((elemcnt - 1) / dwa.perblock + 1) :=
      Nat.lt_mul_div_succ _ hperPos
    have hover : elemcnt * dwa.elemlen ≤ 4096 * ((elemcnt - 1) / dwa.perblock + 1) := by
      calc elemcnt * dwa.elemlen
          ≤ dwa.perblock * ((elemcnt - 1) / dwa.perblock + 1) * dwa.elemlen :=
            Nat.mul_le_mul_right _ (by omega)
        _ = 4096 * ((elemcnt - 1) / dwa.perblock + 1) := by rw [Nat.mul_right_comm, hper]
    omega
  simp only [keptBlocks] at hkept
  generalize hnew : (if elemcnt = 0 then 0 else (elemcnt - 1) / dwa.perblock + 1) = newblk at hkept
  have hbelow := hcover newblk hnew.symm
  split at hkept
  · cases hkept
  · split at hkept
    · obtain rfl := Option.some.inj hkept
      refine ⟨by simp only; omega, fun _ => rfl, fun p hp => ?_⟩
      have := hbelow p hp
      simp only
      omega
    · obtain rfl := Option.some.inj hkept
      refine ⟨by simp only; omega, fun _ => by simp only at *; omega, fun p hp => ?_⟩
      have := hbelow p hp
      simp only
      omega

end DwormAccess

/-! The calls. -/

namespace Dworm

variable {dw : Dworm} {elemlen : Nat}

theorem capacity_lt (elemlen : Nat) : 4096 / elemlen * 1024 * 1022 < 2 ^ 32 := by
  have hle := Nat.div_le_self 4096 elemlen
  omega

structure Contains (dw next : Dworm) (data : Memory) (start len : Nat) (kept : Nat → Prop) :
    Prop where
  written : ∀ i < len, start + i < next.limit ∧ next.byteAt (start + i) = data i
  others : ∀ p < dw.limit, kept p → p < next.limit ∧
    (p < start ∨ start + len ≤ p → next.byteAt p = dw.byteAt p)

theorem hpWrite_contains {firstel elemcnt : Nat} (data : Memory) {grants : BlockGrants}
    (hsound : dw.Sound elemlen) (hdvd : elemlen ∣ 4096)
    (hcapacity : firstel + elemcnt ≤ 4096 / elemlen * 1024 * 1022)
    (hserved : ∀ counts, (dw.access elemlen grants).newCounts (firstel + elemcnt) = some counts →
      (dw.access elemlen grants).Served counts)
    (hfresh : (dw.access elemlen grants).Fresh) :
    ∃ dwa, hpWrite dw elemlen firstel elemcnt data grants = some dwa ∧
      dwa.close.Sound elemlen ∧
      dw.Contains dwa.close data (firstel * elemlen) (elemcnt * elemlen) fun p =>
        (dw.access elemlen grants).Drops (firstel + elemcnt) →
          p < 4096 * (1024 * (dw.access elemlen grants).bigBlockcnt) := by
  have hopen := hsound.opened grants
  have hlen := dw.elemlen_access elemlen grants
  have hlimit := dw.limit_access elemlen grants
  have hbytes := dw.byteAt_access elemlen grants
  have hmod : (firstel + elemcnt) % 2 ^ 32 = firstel + elemcnt :=
    Nat.mod_eq_of_lt (Nat.lt_of_le_of_lt hcapacity (capacity_lt elemlen))
  rcases Nat.eq_zero_or_pos (firstel + elemcnt) with hnone | hsome
  · obtain ⟨rfl, rfl⟩ : firstel = 0 ∧ elemcnt = 0 := by omega
    refine ⟨dw.access elemlen grants, rfl, ?_, ⟨fun i hi => ?_, fun p hp _ => ?_⟩⟩
    · rw [close_access]
      exact hsound
    · exact absurd hi (by simp)
    · rw [close_access]
      exact ⟨hp, fun _ => rfl⟩
  · obtain ⟨next, hnext, hexpanded⟩ := DwormAccess.expand_expanded hopen
      (by rw [hlen]; exact hdvd) hsome (by rw [DwormAccess.perblock, hlen]; exact hcapacity) hserved hfresh
    have hnextLen : next.elemlen = elemlen := hexpanded.elemlen.trans hlen
    have hroom : (firstel + elemcnt) * next.elemlen ≤ next.limit := by
      have h := hexpanded.room
      rw [hlen] at h
      rw [hnextLen]
      exact h
    obtain ⟨last, hlast, hwritten⟩ : ∃ last, next.write firstel elemcnt data = some last ∧
        next.Written last data 0 (firstel * next.elemlen) (elemcnt * next.elemlen) := by
      rcases Nat.eq_zero_or_pos elemcnt with rfl | hcnt
      · exact ⟨next, rfl, by rw [Nat.zero_mul]; exact .refl next data 0 _⟩
      · obtain ⟨last, hlast, hwritten⟩ := DwormAccess.writeLoop_written hexpanded.placed
          (by rw [hnextLen]; exact hdvd) hexpanded.apart (Nat.le_refl elemcnt) hroom
        refine ⟨last, ?_, hwritten⟩
        rw [DwormAccess.write, if_neg (by omega), hexpanded.placed.opened]
        exact hlast
    have hheaded : last.Headed := by
      have hcnt : last.smallBlockcnt = next.smallBlockcnt := by
        simpa using congrArg List.length hwritten.smalls
      have hbig : last.bigBlockcnt = next.bigBlockcnt := by
        simpa using congrArg List.length hwritten.bigs
      refine ⟨by rw [hwritten.header, hcnt, hexpanded.headed.small], fun hstate => ?_⟩
      rw [hwritten.frame.state] at hstate
      rw [hwritten.word hstate, hbig, hexpanded.headed.big hstate]
    have hlastLen : last.elemlen = elemlen := hwritten.frame.elemlen.trans hnextLen
    obtain ⟨hclosed, hclosedLimit, hclosedBytes⟩ := Dworm.sound_close
      (hwritten.placed hexpanded.placed) hheaded (hwritten.extents ▸ hexpanded.apart)
    rw [hnextLen] at hwritten hroom
    refine ⟨last, ?_, hlastLen ▸ hclosed, ⟨fun i hi => ?_, fun p hp hkept => ?_⟩⟩
    · rw [hpWrite, hmod, hnext, Option.bind_some, hlast]
    · rw [Nat.add_mul] at hroom
      rw [hclosedLimit, hwritten.limit, hclosedBytes, hwritten.inside i hi, Nat.zero_add]
      exact ⟨by omega, rfl⟩
    · obtain ⟨hinside, hsame⟩ := hexpanded.contents p (hlimit ▸ hp) hkept
      rw [hclosedLimit, hwritten.limit, hclosedBytes]
      refine ⟨hinside, fun hout => ?_⟩
      rw [hwritten.outside p hinside hout, hsame, hbytes]

theorem sound_null {page : Nat → Memory} {bg : DwormBeg} :
    (⟨0, bg, page⟩ : Dworm).Sound elemlen :=
  ⟨fun _ => Or.inl ⟨rfl, rfl, rfl, ⟨rfl, rfl⟩, rfl⟩, fun _ => List.Pairwise.nil⟩

theorem hpShrinkLen_keeps (elemcnt : Nat) (hsound : dw.Sound elemlen) (hdvd : elemlen ∣ 4096) :
    (hpShrinkLen dw elemlen elemcnt).close.Sound elemlen ∧
      ∀ p < dw.limit, p < elemcnt * elemlen →
        p < (hpShrinkLen dw elemlen elemcnt).close.limit ∧
          (hpShrinkLen dw elemlen elemcnt).close.byteAt p = dw.byteAt p := by
  have hopen := hsound.opened ⟨[], [], [], []⟩
  have hapart := hsound.apart ⟨[], [], [], []⟩
  have hlen := dw.elemlen_access elemlen ⟨[], [], [], []⟩
  have hbytes := dw.byteAt_access elemlen ⟨[], [], [], []⟩
  have hclose := dw.close_access elemlen ⟨[], [], [], []⟩
  simp only [hpShrinkLen]
  generalize dw.access elemlen ⟨[], [], [], []⟩ = opened at hopen hapart hlen hbytes hclose
  have hstays : opened.close.Sound elemlen ∧ ∀ p < dw.limit, p < elemcnt * elemlen →
      p < opened.close.limit ∧ opened.close.byteAt p = dw.byteAt p := by
    rw [hclose]
    exact ⟨hsound, fun p hp _ => ⟨hp, rfl⟩⟩
  rcases hopen with hnull | ⟨hplaced, hheaded⟩
  · have hsame : opened.shrink elemcnt = opened := by
      simp [DwormAccess.shrink, hnull.null, hnull.valid]
    rw [hsame]
    exact hstays
  · simp only [DwormAccess.shrink, hplaced.valid, hplaced.opened, Bool.false_eq_true, if_false]
    cases hkept : opened.keptBlocks elemcnt with
    | none => exact hstays
    | some kept =>
        simp only
        obtain ⟨hle, hbig, hcover⟩ := DwormAccess.keptBlocks_spec (hlen ▸ hdvd) hkept
        rcases Nat.eq_zero_or_pos elemcnt with rfl | hpos
        · rw [if_pos rfl]
          exact ⟨sound_null, fun p _ hp => absurd hp (by simp)⟩
        · rw [if_neg (by omega)]
          by_cases hskip : kept.1 = opened.bigBlockcnt ∧ opened.smallBlockcnt ≤ kept.2
          · rw [if_pos hskip]
            exact hstays
          · rw [if_neg hskip]
            have hcut := fun translog =>
              DwormAccess.access_release translog hplaced hheaded hbig
            rw [hlen] at hcut
            refine ⟨⟨fun translog => Or.inr ⟨(hcut translog).placed, (hcut translog).headed⟩,
              fun translog => (hcut translog).extents hapart⟩, fun p hp hin => ?_⟩
            have hblock := hcover p (hlen ▸ hin)
            have hcovered : p / 4096 < 1024 * min opened.bigBlockcnt kept.1 +
                min opened.smallBlockcnt kept.2 := by omega
            have hinside := (hcut ⟨[], [], [], []⟩).byteAt hbig hcovered
            rw [limit_access, byteAt_access, hbytes] at hinside
            exact hinside

end Dworm

/-! Runs of one object. `written` is the byte that was written last at a position
and has not been cut off since. -/

structure DwormRun where
  dworm : Dworm
  written : Nat → Option UInt8

inductive DwormOp where
  | write (firstel elemcnt : Nat) (data : Memory) (grants : BlockGrants)
  | shrink (elemcnt : Nat)

def dwormStep (elemlen : Nat) (state : DwormRun) : DwormOp → DwormRun
  | .write firstel elemcnt data grants =>
      { dworm :=
          match hpWrite state.dworm elemlen firstel elemcnt data grants with
          | none => state.dworm
          | some dwa => dwa.close
        written := fun p =>
          if firstel * elemlen ≤ p ∧ p < (firstel + elemcnt) * elemlen then
            some (data (p - firstel * elemlen))
          else state.written p }
  | .shrink elemcnt =>
      { dworm := (hpShrinkLen state.dworm elemlen elemcnt).close
        written := fun p => if p < elemcnt * elemlen then state.written p else none }

def newDworm : DwormRun := ⟨⟨0, ⟨.dworm, 0, fun _ => 0⟩, fun _ _ => 0⟩, fun _ => none⟩

/-- The size is within the capacity of the counts in the piece, and the disk
space grants as many new blocks as are asked for. -/
structure DwormOp.Granted (dwa : DwormAccess) (elemcnt : Nat) : Prop where
  capacity : elemcnt ≤ dwa.perblock * 1024 * 1022
  served : ∀ counts ∈ dwa.newCounts elemcnt, dwa.Served counts
  fresh : dwa.Fresh

def DwormOp.Legal (elemlen : Nat) (state : DwormRun) : DwormOp → Prop
  | .write firstel elemcnt _ grants =>
      DwormOp.Granted (state.dworm.access elemlen grants) (firstel + elemcnt)
  | .shrink _ => True

/-- A write that ends below the big blocks of an object with small blocks finds
nothing written behind the big blocks. -/
def DwormOp.Ok (elemlen : Nat) (state : DwormRun) (op : DwormOp) : Prop :=
  op.Legal elemlen state ∧
    match op with
    | .write firstel elemcnt _ grants =>
        (state.dworm.access elemlen grants).Drops (firstel + elemcnt) →
          ∀ p, (state.written p).isSome →
            p < 4096 * (1024 * (state.dworm.access elemlen grants).bigBlockcnt)
    | .shrink _ => True

/-- Elements that were written and not cut off are read back. -/
def DwormRun.ReadsBack (elemlen : Nat) (state : DwormRun) : Prop :=
  ∀ firstel elemcnt values,
    (∀ i < elemcnt * elemlen, state.written (firstel * elemlen + i) = some (values i)) →
      hpRead state.dworm elemlen firstel elemcnt = some (slice values 0 (elemcnt * elemlen))

structure DwormRun.Sound (state : DwormRun) (elemlen : Nat) : Prop where
  dworm : state.dworm.Sound elemlen
  contents : ∀ p value, state.written p = some value →
    p < state.dworm.limit ∧ state.dworm.byteAt p = value

namespace DwormRun.Sound

variable {state : DwormRun} {elemlen : Nat}

theorem step {op : DwormOp} (hdvd : elemlen ∣ 4096) (hsound : state.Sound elemlen)
    (hok : op.Ok elemlen state) : (dwormStep elemlen state op).Sound elemlen := by
  cases op with
  | write firstel elemcnt data grants =>
      obtain ⟨hlegal, hkept⟩ := hok
      have hlen := state.dworm.elemlen_access elemlen grants
      have hcapacity := hlegal.capacity
      rw [DwormAccess.perblock, hlen] at hcapacity
      obtain ⟨dwa, hwrite, hclosed, hcontains⟩ :=
        Dworm.hpWrite_contains data hsound.dworm hdvd hcapacity hlegal.served hlegal.fresh
      simp only [dwormStep, hwrite]
      refine ⟨hclosed, fun p value hvalue => ?_⟩
      simp only [Nat.add_mul] at hvalue
      split at hvalue
      case isTrue hin =>
        obtain ⟨i, rfl⟩ := Nat.exists_eq_add_of_le hin.1
        obtain ⟨hinside, hbyte⟩ := hcontains.written i (by omega)
        rw [Nat.add_sub_cancel_left] at hvalue
        exact ⟨hinside, hbyte.trans (Option.some.inj hvalue)⟩
      case isFalse hout =>
        obtain ⟨hp, hbyte⟩ := hsound.contents p value hvalue
        obtain ⟨hinside, hsame⟩ := hcontains.others p hp
          fun hdrops => hkept hdrops p (by rw [hvalue]; rfl)
        exact ⟨hinside, (hsame (by omega)).trans hbyte⟩
  | shrink elemcnt =>
      obtain ⟨hclosed, hkeeps⟩ := Dworm.hpShrinkLen_keeps elemcnt hsound.dworm hdvd
      refine ⟨hclosed, fun p value hvalue => ?_⟩
      simp only [dwormStep] at hvalue ⊢
      split at hvalue
      case isTrue hin =>
        obtain ⟨hp, hbyte⟩ := hsound.contents p value hvalue
        obtain ⟨hinside, hsame⟩ := hkeeps p hp hin
        exact ⟨hinside, hsame.trans hbyte⟩
      case isFalse => cases hvalue

theorem readsBack (hdvd : elemlen ∣ 4096) (hsound : state.Sound elemlen) :
    state.ReadsBack elemlen := by
  intro firstel elemcnt values hwritten
  have hlen := state.dworm.elemlen_access elemlen ⟨[], [], [], []⟩
  have hlimit := state.dworm.limit_access elemlen ⟨[], [], [], []⟩
  have hbytes := state.dworm.byteAt_access elemlen ⟨[], [], [], []⟩
  have hpos := Nat.pos_of_dvd_of_pos hdvd (by decide)
  rcases Nat.eq_zero_or_pos elemcnt with rfl | hcnt
  · rw [Nat.zero_mul, slice_zero]
    rfl
  · have hbelow : (firstel + elemcnt) * elemlen ≤ state.dworm.limit := by
      have hsome : 0 < elemcnt * elemlen := Nat.mul_pos hcnt hpos
      obtain ⟨hlast, _⟩ := hsound.contents _ _ (hwritten (elemcnt * elemlen - 1) (by omega))
      rw [Nat.add_mul]
      omega
    rcases hsound.dworm.opened ⟨[], [], [], []⟩ with hnull | ⟨hplaced, _⟩
    · have hempty : state.dworm.limit = 0 := by
        rw [← hlimit]
        simp [DwormAccess.limit, DwormAccess.blockcnt, DwormAccess.directSize,
          DwormAccess.pieceSize, hnull.big.1, hnull.small, hnull.empty]
      have hsome : 0 < (firstel + elemcnt) * elemlen := Nat.mul_pos (by omega) hpos
      omega
    · rw [hpRead, DwormAccess.read, if_neg (by omega), hplaced.valid, hplaced.opened]
      simp only [Bool.false_eq_true, if_false]
      rw [DwormAccess.readLoop_slice hplaced (by rw [hlen]; exact hdvd) (Nat.le_refl _)
        (by rw [hlen, hlimit]; exact hbelow), hlen]
      refine congrArg some (slice_congr fun i hi => ?_)
      rw [hbytes, (hsound.contents _ _ (hwritten i hi)).2, Nat.zero_add]

end DwormRun.Sound

theorem sound_newDworm (elemlen : Nat) : newDworm.Sound elemlen :=
  ⟨Dworm.sound_null, fun p value h => by cases h⟩

theorem dworm_readsBack {elemlen : Nat} {ops : List DwormOp} (hdvd : elemlen ∣ 4096)
    (hmeets : Run.Meets (dwormStep elemlen) (DwormOp.Ok elemlen · ·) newDworm ops) :
    Run.Always (dwormStep elemlen) (DwormRun.ReadsBack elemlen) newDworm ops :=
  Run.always_of_invariant (DwormRun.Sound · elemlen) (fun _ hsound => hsound.readsBack hdvd)
    (fun _ _ hsound hok => hsound.step hdvd hok) (sound_newDworm elemlen) hmeets

instance (dwa : DwormAccess) (counts : DwormAccess.Counts) : Decidable (dwa.Served counts) :=
  decidable_of_iff (_ ∧ _) ⟨fun h => ⟨h.1, h.2⟩, fun h => ⟨h.small, h.big⟩⟩

instance (dwa : DwormAccess) : Decidable dwa.Fresh :=
  decidable_of_iff (_ ∧ _ ∧ _)
    ⟨fun h => ⟨h.1, h.2.1, h.2.2⟩, fun h => ⟨h.words, h.wordsBig, h.apart⟩⟩

instance (dwa : DwormAccess) (elemcnt : Nat) : Decidable (DwormOp.Granted dwa elemcnt) :=
  decidable_of_iff (_ ∧ _ ∧ _)
    ⟨fun h => ⟨h.1, h.2.1, h.2.2⟩, fun h => ⟨h.capacity, h.served, h.fresh⟩⟩

instance (elemlen : Nat) (state : DwormRun) : (op : DwormOp) → Decidable (op.Legal elemlen state)
  | .write _ _ _ _ => inferInstanceAs (Decidable (DwormOp.Granted _ _))
  | .shrink _ => isTrue trivial

/-- The direct data moves into a small block, which a later shrink keeps. -/
def growingWrites : List DwormOp :=
  [.write 0 3 (fun i => UInt8.ofNat (i + 1)) ⟨[], [], [], []⟩,
    .write 2048 3 (fun i => UInt8.ofNat (i + 7)) ⟨[100], [], [], []⟩,
    .shrink 2048]

theorem dworm_readsBack_growing :
    Run.Always (dwormStep 2) (DwormRun.ReadsBack 2) newDworm growingWrites := by
  have hlegal : Run.Meets (dwormStep 2) (DwormOp.Legal 2 · ·) newDworm growingWrites := by
    decide +kernel
  obtain ⟨hfirst, hsecond, hthird, _⟩ := hlegal
  refine dworm_readsBack (by decide) ⟨⟨hfirst, ?_⟩, ⟨hsecond, ?_⟩, ⟨hthird, trivial⟩, trivial⟩
  · exact fun hdrops => absurd hdrops.1 (by decide +kernel)
  · exact fun hdrops => absurd hdrops.1 (by decide +kernel)

/-- The fourth write ends below the big block and releases the small block behind
it, although that holds what the third one wrote. -/
def droppingWrites : List DwormOp :=
  [.write 0 4 (fun i => UInt8.ofNat (i + 1)) ⟨[], [], [], []⟩,
    .write (4096 * 1024) 4 (fun i => UInt8.ofNat (i + 5)) ⟨[], [8192], [], []⟩,
    .write (4096 * 1025) 4 (fun i => UInt8.ofNat (i + 9)) ⟨[100], [], [], []⟩,
    .write 0 4 (fun i => UInt8.ofNat (i + 1)) ⟨[], [], [], []⟩]

theorem dworm_loses :
    Run.Meets (dwormStep 1) (DwormOp.Legal 1 · ·) newDworm droppingWrites ∧
      ¬ Run.Always (dwormStep 1) (DwormRun.ReadsBack 1) newDworm droppingWrites := by
  refine ⟨by decide +kernel, fun halways => ?_⟩
  have hread := halways.last (4096 * 1025) 4 (fun i => UInt8.ofNat (i + 9)) (by decide +kernel)
  exact absurd hread (by decide +kernel)

end Sql602.Heap
