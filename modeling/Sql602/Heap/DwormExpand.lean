import Sql602.Heap.DwormLayout
import Sql602.Heap.PieceTiling

namespace Sql602.Heap

open Bytes

namespace DwormAccess

variable {dwa next : DwormAccess}

structure Frame (dwa next : DwormAccess) : Prop where
  len32 : next.len32 = dwa.len32
  elemlen : next.elemlen = dwa.elemlen
  isNull : next.isNull = dwa.isNull
  isError : next.isError = dwa.isError
  state : next.bg.state = dwa.bg.state
  bigBlocks : next.bigBlocks = dwa.bigBlocks

theorem Frame.refl (dwa : DwormAccess) : dwa.Frame dwa := ⟨rfl, rfl, rfl, rfl, rfl, rfl⟩

theorem Frame.trans {last : DwormAccess} (hfirst : dwa.Frame next) (hrest : next.Frame last) :
    dwa.Frame last where
  len32 := hrest.len32.trans hfirst.len32
  elemlen := hrest.elemlen.trans hfirst.elemlen
  isNull := hrest.isNull.trans hfirst.isNull
  isError := hrest.isError.trans hfirst.isError
  state := hrest.state.trans hfirst.state
  bigBlocks := hrest.bigBlocks.trans hfirst.bigBlocks

theorem Frame.pieceSize (hframe : dwa.Frame next) : next.pieceSize = dwa.pieceSize := by
  simp only [DwormAccess.pieceSize, hframe.len32]

/-! Adding numbers. -/

theorem smalls_pushSmall (dwa : DwormAccess) {dadr : Nat} (hword : dadr < 2 ^ 32) :
    (dwa.pushSmall dadr).smalls = dwa.smalls ++ [dadr] := by
  have hnew : (dwa.pushSmall dadr).smallBlock dwa.smallBlockcnt = dadr := word_putWord hword
  have hold : ∀ i < dwa.smallBlockcnt,
      (dwa.pushSmall dadr).smallBlock i = dwa.smallBlock i := by
    intro i hi
    exact word_putWord_outside (by simp only [pushSmall, setBlidx]; omega)
  calc (dwa.pushSmall dadr).smalls
      = (List.range (dwa.smallBlockcnt + 1)).map (dwa.pushSmall dadr).smallBlock := rfl
    _ = dwa.smalls ++ [dadr] := by
        rw [List.range_succ, List.map_append, List.map_singleton, hnew]
        congr 1
        exact List.map_congr_left fun i hi => hold i (List.mem_range.mp hi)

theorem bigs_pushSmall (dwa : DwormAccess) {dadr : Nat}
    (hordered : dwa.bigBlocks + 4 * dwa.bigBlockcnt ≤ dwa.smallBlocks) :
    (dwa.pushSmall dadr).bigs = dwa.bigs := by
  refine bigs_congr rfl fun i hi => ?_
  exact word_putWord_outside (by simp only [pushSmall, setBlidx]; omega)

theorem bigs_pushBig (dwa : DwormAccess) {dadr : Nat} (hword : dadr < 2 ^ 32) :
    (dwa.pushBig dadr).bigs = dwa.bigs ++ [dadr] := by
  have hnew : (dwa.pushBig dadr).bigBlock dwa.bigBlockcnt = dadr := word_putWord hword
  have hold : ∀ i < dwa.bigBlockcnt, (dwa.pushBig dadr).bigBlock i = dwa.bigBlock i := by
    intro i hi
    exact word_putWord_outside (by simp only [pushBig, setBlidx]; omega)
  calc (dwa.pushBig dadr).bigs
      = (List.range (dwa.bigBlockcnt + 1)).map (dwa.pushBig dadr).bigBlock := rfl
    _ = dwa.bigs ++ [dadr] := by
        rw [List.range_succ, List.map_append, List.map_singleton, hnew]
        congr 1
        exact List.map_congr_left fun i hi => hold i (List.mem_range.mp hi)

theorem smalls_pushBig (dwa : DwormAccess) {dadr : Nat}
    (hordered : dwa.bigBlocks + 4 * (dwa.bigBlockcnt + 1) ≤ dwa.smallBlocks) :
    (dwa.pushBig dadr).smalls = dwa.smalls := by
  refine smalls_congr rfl fun i hi => ?_
  exact word_putWord_outside (by simp only [pushBig, setBlidx]; omega)

/-- What a step adds to the small blocks: the granted numbers in their order. -/
structure AddedSmall (dwa next : DwormAccess) (added : List Nat) : Prop where
  frame : dwa.Frame next
  smallBlocks : next.smallBlocks = dwa.smallBlocks
  bigs : next.bigs = dwa.bigs
  smalls : next.smalls = dwa.smalls ++ added
  page : ∀ dadr ∉ added, next.page dadr = dwa.page dadr
  bigGrants : next.translog.bigBlocks = dwa.translog.bigBlocks
  header : 4 ≤ dwa.smallBlocks → word next.bg.blidx 0 = word dwa.bg.blidx 0

theorem allocSmall_added (dwa : DwormAccess) {count : Nat} (hcount : count ≤ dwa.translog.blocks.length)
    (hwords : ∀ dadr ∈ dwa.translog.blocks, dadr < 2 ^ 32)
    (hordered : dwa.bigBlocks + 4 * dwa.bigBlockcnt ≤ dwa.smallBlocks) :
    ∃ next, dwa.allocSmall count = some next ∧
      dwa.AddedSmall next (dwa.translog.blocks.take count) := by
  induction count generalizing dwa with
  | zero =>
      refine ⟨dwa, rfl, .refl dwa, rfl, rfl, by simp, fun _ _ => rfl, rfl, fun _ => rfl⟩
  | succ count ih =>
      cases hgrants : dwa.translog.blocks with
      | nil => simp [hgrants] at hcount
      | cons dadr blocks =>
          simp only [hgrants, List.length_cons, Nat.add_le_add_iff_right, List.mem_cons,
            forall_eq_or_imp] at hcount hwords
          let granted : DwormAccess := { dwa with translog := { dwa.translog with blocks } }
          let start := (granted.pushSmall dadr).setPage dadr fun _ => 0
          obtain ⟨next, hnext, hadded⟩ := @ih start hcount hwords.2 hordered
          refine ⟨next, ?_, ?_⟩
          · simp only [allocSmall, allocBlock, hgrants, Option.bind_some]
            exact hnext
          · refine ⟨(⟨rfl, rfl, rfl, rfl, rfl, rfl⟩ : dwa.Frame start).trans hadded.frame,
              hadded.smallBlocks, ?_, ?_, ?_, hadded.bigGrants, ?_⟩
            · exact hadded.bigs.trans (granted.bigs_pushSmall hordered)
            · have hpush : start.smalls = dwa.smalls ++ [dadr] :=
                granted.smalls_pushSmall hwords.1
              rw [hadded.smalls, hpush, List.append_assoc]
              rfl
            · intro other hother
              simp only [List.take_succ_cons, List.mem_cons, not_or] at hother
              rw [hadded.page other hother.2]
              exact Function.update_of_ne hother.1 ..
            · intro hbehind
              rw [hadded.header hbehind]
              exact word_putWord_outside (by simp only [granted]; omega)

structure AddedBig (dwa next : DwormAccess) (added : List Nat) : Prop where
  frame : dwa.Frame next
  smallBlocks : next.smallBlocks = dwa.smallBlocks
  bigs : next.bigs = dwa.bigs ++ added
  smalls : next.smalls = dwa.smalls
  page : next.page = dwa.page

theorem allocBig_added (dwa : DwormAccess) {count dadr : Nat} (hcount : count ≤ dwa.translog.bigBlocks.length)
    (hword : dadr < 2 ^ 32) (hwords : ∀ dadr ∈ dwa.translog.bigBlocks, dadr < 2 ^ 32)
    (hordered : dwa.bigBlocks + 4 * (dwa.bigBlockcnt + (count + 1)) ≤ dwa.smallBlocks) :
    ∃ next, dwa.allocBig (count + 1) dadr = some next ∧
      dwa.AddedBig next (dadr :: dwa.translog.bigBlocks.take count) := by
  induction count generalizing dwa dadr with
  | zero =>
      refine ⟨dwa.pushBig dadr, rfl, ⟨rfl, rfl, rfl, rfl, rfl, rfl⟩, rfl, ?_, ?_, rfl⟩
      · exact dwa.bigs_pushBig hword
      · exact dwa.smalls_pushBig hordered
  | succ count ih =>
      cases hgrants : dwa.translog.bigBlocks with
      | nil => simp [hgrants] at hcount
      | cons following bigBlocks =>
          simp only [hgrants, List.length_cons, Nat.add_le_add_iff_right, List.mem_cons,
            forall_eq_or_imp] at hcount hwords
          let start : DwormAccess :=
            { dwa.pushBig dadr with translog := { dwa.translog with bigBlocks } }
          have hroom : start.bigBlocks + 4 * (start.bigBlockcnt + (count + 1)) ≤
              start.smallBlocks := by
            simp only [start, pushBig, setBlidx]
            omega
          obtain ⟨next, hnext, hadded⟩ := @ih start following hcount hwords.1 hwords.2 hroom
          have hpush : start.bigs = dwa.bigs ++ [dadr] := dwa.bigs_pushBig hword
          have hkept : start.smalls = dwa.smalls := dwa.smalls_pushBig (by omega)
          refine ⟨next, ?_, ?_⟩
          · have hgranted : (dwa.pushBig dadr).translog.bigBlocks = following :: bigBlocks :=
              hgrants
            simp only [allocBig, allocBigBlock, hgranted, Option.bind_some]
            exact hnext
          · refine ⟨(⟨rfl, rfl, rfl, rfl, rfl, rfl⟩ : dwa.Frame start).trans hadded.frame,
              hadded.smallBlocks, ?_, hadded.smalls.trans hkept, hadded.page⟩
            rw [hadded.bigs, hpush, List.append_assoc]
            rfl

/-! Giving small blocks back and making room for the numbers of big blocks. -/

theorem smalls_releaseSmall {small : Nat} :
    (dwa.releaseSmall small).smalls = dwa.smalls.take small := by
  have hsame : (dwa.releaseSmall small).smallBlock = dwa.smallBlock := rfl
  simp only [smalls, hsame, ← List.map_take, List.take_range]
  congr 2
  exact Nat.min_comm _ _

theorem releaseSmall_same {small : Nat} (hless : dwa.smallBlockcnt ≤ small) :
    dwa.releaseSmall small = dwa := by
  have hnone : (List.range dwa.smallBlockcnt).drop small = [] :=
    List.drop_eq_nil_of_le (by simpa using hless)
  simp [releaseSmall, hnone, Nat.min_eq_left hless]

theorem moveNumbers_same (dwa : DwormAccess) : dwa.moveNumbers dwa.bigBlockcnt = dwa := by
  simp [moveNumbers, copy_self, setBlidx]

theorem smalls_moveNumbers {big : Nat}
    (hroom : 4 + dwa.smallBlocks + 4 * (big - dwa.bigBlockcnt) + 4 * dwa.smallBlockcnt ≤
      dwa.pieceSize) :
    (dwa.moveNumbers big).smalls = dwa.smalls := by
  refine smalls_congr rfl fun i hi => ?_
  simp only [smallBlock, moveNumbers, setBlidx]
  rw [word_copy (by omega) (by omega)]
  congr 1
  omega

theorem bigs_moveNumbers {big : Nat}
    (hordered : dwa.bigBlocks + 4 * dwa.bigBlockcnt ≤ dwa.smallBlocks) :
    (dwa.moveNumbers big).bigs = dwa.bigs := by
  refine bigs_congr rfl fun i hi => ?_
  exact word_copy_outside (by simp only [moveNumbers, setBlidx]; omega)

/-! Steps that keep the contents and only change where they stand. -/

structure SameContents (dwa next : DwormAccess) : Prop where
  elemlen : next.elemlen = dwa.elemlen
  translog : next.translog = dwa.translog
  page : next.page = dwa.page
  bigs : next.bigs = dwa.bigs
  smalls : next.smalls = dwa.smalls
  size : dwa.pieceSize ≤ next.pieceSize
  direct : ∀ i < dwa.directSize,
    next.bg.blidx (next.dirdataPos + i) = dwa.bg.blidx (dwa.dirdataPos + i)

theorem SameContents.refl (dwa : DwormAccess) : dwa.SameContents dwa :=
  ⟨rfl, rfl, rfl, rfl, rfl, Nat.le_refl _, fun _ _ => rfl⟩

theorem bigBlockcnt_eq {more : List Nat} (hbigs : next.bigs = dwa.bigs ++ more) :
    next.bigBlockcnt = dwa.bigBlockcnt + more.length := by
  simpa using congrArg List.length hbigs

theorem smallBlockcnt_eq {more : List Nat} (hsmalls : next.smalls = dwa.smalls ++ more) :
    next.smallBlockcnt = dwa.smallBlockcnt + more.length := by
  simpa using congrArg List.length hsmalls

theorem SameContents.counts (hsame : dwa.SameContents next) :
    next.bigBlockcnt = dwa.bigBlockcnt ∧ next.smallBlockcnt = dwa.smallBlockcnt := by
  constructor
  · simpa using congrArg List.length hsame.bigs
  · simpa using congrArg List.length hsame.smalls

/-- The block numbers and the direct data move 4 bytes up, so that the count of
the big blocks gets its place. The last 4 bytes of the piece hold no contents. -/
theorem reorganize_same (hplaced : dwa.Placed) (big : Nat) :
    (dwa.reorganize big).Placed ∧ dwa.SameContents (dwa.reorganize big) ∧
      (big ≠ 0 → (dwa.reorganize big).bg.state = .dworm2) := by
  simp only [reorganize]
  split
  case isTrue hold =>
    obtain ⟨hbig, hstate⟩ := hold
    obtain ⟨hnone, hpos, hsmall⟩ := hplaced.old hstate
    have hfits := hplaced.fits
    refine ⟨?_, ?_, fun _ => rfl⟩
    · refine ⟨hplaced.opened, hplaced.valid, fun h => by simp at h, fun _ => ⟨rfl, rfl⟩,
        ?_, hplaced.whole⟩
      simp only [pieceSize] at hfits ⊢
      omega
    · refine ⟨rfl, rfl, rfl, ?_, ?_, Nat.le_refl _, ?_⟩
      · simp [bigs, hnone]
      · refine smalls_congr rfl fun i hi => ?_
        simp only [smallBlock, hsmall]
        rw [word_putWord_outside (by omega), word_copy (by omega) (by omega)]
        congr 1
        omega
      · intro i hi
        simp only [directSize] at hi
        simp only [dirdataPos, hsmall]
        rw [putWord_outside (by omega), copy_inside (by omega) (by omega)]
        congr 1
        omega
  case isFalse hnew =>
    refine ⟨hplaced, .refl dwa, fun hbig => ?_⟩
    cases hstate : dwa.bg.state with
    | dworm => exact absurd ⟨hbig, hstate⟩ hnew
    | dworm2 => rfl

/-! A new piece. -/

theorem lencat_le (size : Nat) : lencat size ≤ lencats.length := List.findIdx_le_length

theorem pieceLen_le (size : Nat) : 2 ^ lencat size ≤ 32 :=
  Nat.pow_le_pow_right (by decide) (lencat_le size)

theorem le_pieceLen {locBytes : Nat} (hlow : 0 < locBytes) (hhigh : locBytes ≤ 4096) :
    locBytes ≤ 128 * 2 ^ lencat ((locBytes - 1) / 128 + 1) := by
  have hle : min ((locBytes - 1) / 128 + 1) 32 ≤ 2 ^ lencat ((locBytes - 1) / 128 + 1) :=
    le_pow_lencat
  omega

theorem word_kept (dwa : DwormAccess) (pos : Nat) (hpos : pos + 8 ≤ dwa.pieceSize) :
    word (copy (fun _ => 0) 0 dwa.bg.blidx 0 (dwa.pieceSize - 4)) pos =
      word dwa.bg.blidx pos := by
  rw [word_copy (Nat.zero_le pos) (by omega)]
  simp

theorem growPiece_placed {locBytes : Nat} (hplaced : dwa.Placed) (hheaded : dwa.Headed)
    (hneeds : dwa.needsPiece locBytes = true) :
    dwa.growPiece locBytes =
      { dwa with
        len32 := 2 ^ lencat ((locBytes - 1) / 128 + 1)
        bg := { dwa.bg with
          blidx := copy (fun _ => 0) 0 dwa.bg.blidx 0 (dwa.pieceSize - 4) } } := by
  have hfits := hplaced.fits
  have hword := dwa.word_kept 0 (by omega)
  simp only [growPiece, hneeds, if_true, hplaced.opened, hplaced.valid, Bool.or_self,
    Bool.false_eq_true, if_false]
  cases hstate : dwa.bg.state with
  | dworm =>
      obtain ⟨hbig, hpos, hsmall⟩ := hplaced.old hstate
      simp only [initMembers, hstate, hheaded.small, hbig, hsmall, hplaced.opened, hplaced.valid]
  | dworm2 =>
      obtain ⟨hpos, hsmall⟩ := hplaced.new hstate
      simp only [initMembers, hstate, hheaded.small, hword, hheaded.big hstate, hpos, hsmall,
        hplaced.opened, hplaced.valid]

theorem growPiece_same {locBytes : Nat} (hopen : dwa.Null ∨ dwa.Placed ∧ dwa.Headed)
    (hlow : 8 ≤ locBytes) (hhigh : locBytes ≤ 4096) :
    (dwa.growPiece locBytes).Placed ∧ dwa.SameContents (dwa.growPiece locBytes) ∧
      locBytes ≤ (dwa.growPiece locBytes).pieceSize := by
  have hroom := le_pieceLen (by omega) hhigh
  have hpiece := pieceLen_le ((locBytes - 1) / 128 + 1)
  rcases hopen with hnull | ⟨hplaced, hheaded⟩
  · have hsize : dwa.pieceSize = 0 := by simp [pieceSize, hnull.empty]
    have hneeds : dwa.needsPiece locBytes = true := by
      simp only [needsPiece, hsize, hnull.valid, Bool.or_false, decide_eq_true_eq]
      omega
    simp only [growPiece, hneeds, if_true, hnull.null, Bool.true_or, initMembers]
    refine ⟨⟨rfl, rfl, fun _ => ⟨rfl, hnull.big.2, rfl⟩, fun h => by simp at h, ?_, ?_⟩,
      ⟨rfl, rfl, rfl, ?_, ?_, ?_, ?_⟩, hroom⟩
    · simp only [pieceSize]
      omega
    · simp only [pieceSize]
      omega
    · simp [bigs, hnull.big.1]
    · simp [smalls, hnull.small]
    · omega
    · intro i hi
      simp only [directSize] at hi
      omega
  · have hfits := hplaced.fits
    have hpos := hplaced.dirdataPos_le
    cases hneeds : dwa.needsPiece locBytes with
    | false =>
        simp only [needsPiece, hplaced.valid, Bool.or_false, decide_eq_false_iff_not] at hneeds
        have hsame : dwa.growPiece locBytes = dwa := by
          simp [growPiece, needsPiece, hplaced.valid, hneeds]
        rw [hsame]
        exact ⟨hplaced, .refl dwa, by omega⟩
    | true =>
        simp only [growPiece_placed hplaced hheaded hneeds]
        simp only [needsPiece, hplaced.valid, Bool.or_false, decide_eq_true_eq] at hneeds
        have hordered := hplaced.ordered
        simp only [dirdataPos] at hpos
        refine ⟨⟨hplaced.opened, hplaced.valid, hplaced.old, hplaced.new, ?_, ?_⟩,
          ⟨rfl, rfl, rfl, ?_, ?_, ?_, ?_⟩, hroom⟩
        · simp only [pieceSize]
          omega
        · simp only [pieceSize]
          omega
        · refine bigs_congr rfl fun i hi => ?_
          have hinside : dwa.bigBlocks + 4 * i + 8 ≤ dwa.pieceSize := by omega
          exact dwa.word_kept _ hinside
        · refine smalls_congr rfl fun i hi => ?_
          have hinside : dwa.smallBlocks + 4 * i + 8 ≤ dwa.pieceSize := by omega
          exact dwa.word_kept _ hinside
        · simp only [pieceSize] at hneeds ⊢
          omega
        · intro i hi
          simp only [directSize] at hi
          simp only [dirdataPos]
          rw [copy_inside (Nat.zero_le _) (by omega)]
          simp

theorem growPiece_headed {locBytes : Nat} (hopen : dwa.Null ∨ dwa.Placed ∧ dwa.Headed)
    (hlow : 8 ≤ locBytes) : (dwa.growPiece locBytes).Headed := by
  rcases hopen with hnull | ⟨hplaced, hheaded⟩
  · have hneeds : dwa.needsPiece locBytes = true := by
      simp only [needsPiece, pieceSize, hnull.empty, hnull.valid, Bool.or_false,
        decide_eq_true_eq]
      omega
    simp only [growPiece, hneeds, if_true, hnull.null, Bool.true_or, initMembers]
    exact ⟨rfl, fun h => by simp at h⟩
  · have hfits := hplaced.fits
    cases hneeds : dwa.needsPiece locBytes with
    | false =>
        have hsame : dwa.growPiece locBytes = dwa := by simp [growPiece, hneeds]
        rw [hsame]
        exact hheaded
    | true =>
        rw [growPiece_placed hplaced hheaded hneeds]
        exact ⟨hheaded.small, fun hstate => (dwa.word_kept 0 (by omega)).trans (hheaded.big hstate)⟩

/-! The first new big block takes what the small blocks and the piece hold. -/

theorem copySmallBlocks_spec (dwa : DwormAccess) {dadr count : Nat} (hcount : count ≤ dwa.smallBlockcnt)
    (hapart : ∀ i < dwa.smallBlockcnt,
      dwa.smallBlock i < dadr ∨ dadr + dwa.smallBlockcnt ≤ dwa.smallBlock i) :
    ∃ page, (List.range count).foldl
        (fun dwa i => dwa.setPage (dadr + i) (dwa.page (dwa.smallBlock i))) dwa =
          { dwa with page } ∧
      (∀ i < count, page (dadr + i) = dwa.page (dwa.smallBlock i)) ∧
      ∀ other, other < dadr ∨ dadr + count ≤ other → page other = dwa.page other := by
  induction count with
  | zero => exact ⟨dwa.page, rfl, by simp, fun _ _ => rfl⟩
  | succ count ih =>
      obtain ⟨page, hfold, hcopied, hkept⟩ := ih (by omega)
      refine ⟨Function.update page (dadr + count) (page (dwa.smallBlock count)), ?_, ?_, ?_⟩
      · rw [List.range_succ, List.foldl_append, hfold]
        rfl
      · intro i hi
        rcases Nat.lt_succ_iff_lt_or_eq.mp hi with hlt | rfl
        · rw [Function.update_of_ne (by omega)]
          exact hcopied i hlt
        · rw [Function.update_self]
          exact hkept _ (by have := hapart i (by omega); omega)
      · intro other hother
        rw [Function.update_of_ne (by omega)]
        exact hkept other (by omega)

theorem fillBigBlock_spec {big dadr : Nat} {bigBlocks : List Nat} (hplaced : dwa.Placed)
    (hbig : dwa.bigBlockcnt < big) (hgrants : dwa.translog.bigBlocks = dadr :: bigBlocks)
    (hapart : ∀ i < dwa.smallBlockcnt,
      dwa.smallBlock i < dadr ∨ dadr + dwa.smallBlockcnt ≤ dwa.smallBlock i) :
    ∃ page, dwa.fillBigBlock big false =
        some ({ dwa with page, translog := { dwa.translog with bigBlocks } }, dadr) ∧
      (∀ i < dwa.smallBlockcnt, page (dadr + i) = dwa.page (dwa.smallBlock i)) ∧
      (∀ i < dwa.directSize,
        page (dadr + dwa.smallBlockcnt) i = dwa.bg.blidx (dwa.dirdataPos + i)) ∧
      ∀ other, other < dadr ∨ dadr + dwa.smallBlockcnt < other →
        page other = dwa.page other := by
  let granted : DwormAccess := { dwa with translog := { dwa.translog with bigBlocks } }
  obtain ⟨page, hfold, hcopied, hkept⟩ :=
    granted.copySmallBlocks_spec (Nat.le_refl _) hapart
  let last := dadr + dwa.smallBlockcnt
  refine ⟨Function.update page last
    (copy (page last) 0 dwa.bg.blidx dwa.dirdataPos dwa.dirdataMaxsize), ?_, ?_, ?_, ?_⟩
  · simp only [fillBigBlock, if_pos hbig, allocBigBlock, hgrants, Option.map_some,
      copySmallBlocks]
    rw [hfold]
    rfl
  · intro i hi
    rw [Function.update_of_ne (by omega)]
    exact hcopied i hi
  · intro i hi
    have hmax := hplaced.directSize_le
    rw [Function.update_self, copy_inside (Nat.zero_le _) (by omega)]
    simp
  · intro other hother
    rw [Function.update_of_ne (by omega)]
    exact hkept other (by simp only [granted]; omega)

/-! Laying the blocks out. There are three cases: no new block is needed, small
blocks are added behind the old ones, or big blocks are. -/

theorem block_congr {k : Nat} (hbigs : next.bigs = dwa.bigs) (hsmalls : next.smalls = dwa.smalls)
    (hk : k < dwa.blockcnt) : next.block k = dwa.block k := by
  have hbigcnt := congrArg List.length hbigs
  have hsmallcnt := congrArg List.length hsmalls
  simp only [length_bigs, length_smalls] at hbigcnt hsmallcnt
  simp only [blockcnt] at hk
  simp only [block, hbigcnt]
  split
  case isTrue hbig =>
    have hnone : next.bigs = dwa.bigs ++ [] := by rw [hbigs, List.append_nil]
    rw [bigBlock_of_append hnone (by omega)]
  case isFalse hbig =>
    have hnone : next.smalls = dwa.smalls ++ [] := by rw [hsmalls, List.append_nil]
    exact smallBlock_of_append hnone (by omega)

theorem SameContents.byteAt (hsame : dwa.SameContents next) {p : Nat} (hp : p < dwa.limit) :
    next.byteAt p = dwa.byteAt p := by
  obtain ⟨hbig, hsmall⟩ := hsame.counts
  have hblockcnt : next.blockcnt = dwa.blockcnt := by simp only [blockcnt, hbig, hsmall]
  simp only [DwormAccess.byteAt, hblockcnt]
  split
  case isTrue hblock => rw [hsame.page, block_congr hsame.bigs hsame.smalls hblock]
  case isFalse hdirect =>
    simp only [limit] at hp
    exact hsame.direct _ (by omega)

theorem SameContents.limit_le (hsame : dwa.SameContents next) : dwa.limit ≤ next.limit := by
  obtain ⟨hbig, hsmall⟩ := hsame.counts
  have hsize := hsame.size
  simp only [limit, blockcnt, directSize, hbig, hsmall]
  omega

theorem SameContents.extents (hsame : dwa.SameContents next) : next.extents = dwa.extents := by
  simp only [DwormAccess.extents, hsame.bigs, hsame.smalls]

theorem extentOf_granted {dadr : Nat} {grants : BlockGrants} (hmem : dadr ∈ grants.blocks) :
    ofSmall dadr ∈ grants.extents :=
  List.mem_append_right _ (List.mem_map_of_mem hmem)

theorem covers_small (dadr : Nat) : (ofSmall dadr).Covers dadr := by
  simp [ofSmall, Extent.Covers]

structure Laid (dwa next : DwormAccess) (big small : Nat) : Prop where
  placed : next.Placed
  elemlen : next.elemlen = dwa.elemlen
  size : next.pieceSize = dwa.pieceSize
  bigs : next.bigs = dwa.bigs ++ dwa.translog.bigBlocks.take (big - dwa.bigBlockcnt)
  smalls : next.smalls =
    dwa.smalls.take small ++ dwa.translog.blocks.take (small - dwa.smallBlockcnt)
  header : next.bg.state = .dworm2 → next.bigBlockcnt = 0 →
    dwa.bg.state = .dworm2 ∧ word next.bg.blidx 0 = word dwa.bg.blidx 0
  contents : ∀ p < dwa.limit,
    (big = dwa.bigBlockcnt → small < dwa.smallBlockcnt → p < 4096 * (1024 * dwa.bigBlockcnt)) →
      next.byteAt p = dwa.byteAt p

theorem reorganize_placed (hplaced : dwa.Placed) :
    dwa.reorganize dwa.bigBlockcnt = dwa := by
  simp only [reorganize]
  refine if_neg fun hold => hold.1 (hplaced.old hold.2).1

theorem layBlocks_less {small : Nat} (hplaced : dwa.Placed) (hless : small ≤ dwa.smallBlockcnt) :
    dwa.layBlocks dwa.bigBlockcnt small = some (dwa.releaseSmall small) := by
  have hcnt : small - (dwa.releaseSmall small).smallBlockcnt = 0 := by
    simp only [releaseSmall]
    omega
  have hmove : (dwa.releaseSmall small).moveNumbers dwa.bigBlockcnt = dwa.releaseSmall small :=
    (dwa.releaseSmall small).moveNumbers_same
  simp only [layBlocks, moveDirect, Nat.not_lt.mpr hless, and_false, if_false,
    Option.bind_eq_bind, Option.bind_some, reorganize_placed hplaced, fillBigBlock, Nat.lt_irrefl,
    hmove, hcnt, allocSmall]
  simp [releaseSmall, allocBig]

theorem laid_less {small : Nat} (hplaced : dwa.Placed) (hless : small ≤ dwa.smallBlockcnt) :
    dwa.Laid (dwa.releaseSmall small) dwa.bigBlockcnt small where
  placed :=
    { opened := hplaced.opened
      valid := hplaced.valid
      old := hplaced.old
      new := hplaced.new
      fits := by
        have hfits := hplaced.fits
        simp only [releaseSmall, pieceSize] at hfits ⊢
        omega
      whole := hplaced.whole }
  elemlen := rfl
  size := rfl
  bigs := by
    rw [Nat.sub_self, List.take_zero, List.append_nil]
    rfl
  smalls := by
    rw [Nat.sub_eq_zero_of_le hless, List.take_zero, List.append_nil]
    exact smalls_releaseSmall
  header := fun hstate _ => ⟨hstate, rfl⟩
  contents := by
    intro p hp hbig
    rcases Nat.lt_or_eq_of_le hless with hlt | rfl
    · have hblock : p / 4096 < 1024 * dwa.bigBlockcnt := by
        have := hbig rfl hlt
        omega
      have hold : p / 4096 < dwa.blockcnt := Nat.lt_add_right _ hblock
      have hnew : p / 4096 < (dwa.releaseSmall small).blockcnt := Nat.lt_add_right _ hblock
      have hbigBlock : (dwa.releaseSmall small).bigBlock = dwa.bigBlock := rfl
      have hcnt : (dwa.releaseSmall small).bigBlockcnt = dwa.bigBlockcnt := rfl
      have hpage : (dwa.releaseSmall small).page = dwa.page := rfl
      simp only [byteAt, if_pos hold, if_pos hnew, block, hcnt, if_pos hblock, hbigBlock, hpage]
    · rw [releaseSmall_same hless]

theorem Laid.frame_placed {big small : Nat} (hframe : dwa.Frame next) (hplaced : dwa.Placed)
    (hsmallBlocks : next.smallBlocks = dwa.smallBlocks + 4 * (next.bigBlockcnt - dwa.bigBlockcnt))
    (hbig : next.bigBlockcnt = big) (hsmall : next.smallBlockcnt = small)
    (hle : dwa.bigBlockcnt ≤ big) (hnew : dwa.bigBlockcnt < big → dwa.bg.state = .dworm2)
    (hfits : 8 + 4 * (big + small) ≤ dwa.pieceSize) : next.Placed where
  opened := hframe.isNull.trans hplaced.opened
  valid := hframe.isError.trans hplaced.valid
  old := by
    intro hstate
    rw [hframe.state] at hstate
    obtain ⟨hnone, hpos, hsmallPos⟩ := hplaced.old hstate
    have hsame : ¬ dwa.bigBlockcnt < big := by
      intro hlt
      rw [hnew hlt] at hstate
      cases hstate
    refine ⟨by omega, hframe.bigBlocks.trans hpos, by omega⟩
  new := by
    intro hstate
    rw [hframe.state] at hstate
    obtain ⟨hpos, hsmallPos⟩ := hplaced.new hstate
    exact ⟨hframe.bigBlocks.trans hpos, by omega⟩
  fits := by
    rw [hframe.pieceSize]
    omega
  whole := by
    rw [hframe.pieceSize]
    exact hplaced.whole

theorem nodup_blocks {grants : BlockGrants} (hapart : grants.extents.Pairwise Extent.Apart) :
    grants.blocks.Nodup := by
  have hsmall := (List.pairwise_append.mp hapart).2.1
  refine (List.pairwise_map.mp hsmall).imp fun {dadr other} hne heq => ?_
  exact hne.ne (covers_small dadr) (covers_small other) heq

theorem block_not_granted {k : Nat}
    (hapart : (dwa.extents ++ dwa.translog.extents).Pairwise Extent.Apart)
    (hk : k < dwa.blockcnt) : dwa.block k ∉ dwa.translog.blocks := by
  intro hmem
  exact block_ne_granted hapart hk (extentOf_granted hmem) (covers_small _) rfl

theorem laid_small {small : Nat} (hplaced : dwa.Placed) (hmore : dwa.smallBlockcnt < small)
    (hfits : 8 + 4 * (dwa.bigBlockcnt + small) ≤ dwa.pieceSize)
    (hserved : small - dwa.smallBlockcnt ≤ dwa.translog.blocks.length)
    (hwords : ∀ dadr ∈ dwa.translog.blocks, dadr < 2 ^ 32)
    (hapart : (dwa.extents ++ dwa.translog.extents).Pairwise Extent.Apart) :
    ∃ next, dwa.layBlocks dwa.bigBlockcnt small = some next ∧
      dwa.Laid next dwa.bigBlockcnt small := by
  have hfresh : ∀ k < dwa.blockcnt, dwa.block k ∉ dwa.translog.blocks :=
    fun k hk => block_not_granted hapart hk
  have hnodup := nodup_blocks (List.pairwise_append.mp hapart).2.1
  cases hgrants : dwa.translog.blocks with
  | nil =>
      rw [hgrants] at hserved
      exact absurd hserved (by simp; omega)
  | cons dadr blocks =>
      rw [hgrants] at hfresh hnodup
      simp only [hgrants, List.length_cons, List.mem_cons, forall_eq_or_imp] at hserved hwords
      let granted : DwormAccess := { dwa with translog := { dwa.translog with blocks } }
      let contents := copy (fun _ => 0) 0 dwa.bg.blidx dwa.dirdataPos dwa.dirdataMaxsize
      let pushed := (granted.setPage dadr contents).pushSmall dadr
      have hcount : small - (dwa.smallBlockcnt + 1) ≤ pushed.translog.blocks.length :=
        show small - (dwa.smallBlockcnt + 1) ≤ blocks.length by omega
      obtain ⟨next, hnext, hadded⟩ :=
        pushed.allocSmall_added hcount hwords.2 hplaced.ordered
      have hbigs : next.bigs = dwa.bigs :=
        hadded.bigs.trans (granted.bigs_pushSmall hplaced.ordered)
      have hpushed : pushed.smalls = dwa.smalls ++ [dadr] :=
        granted.smalls_pushSmall hwords.1
      have hsmalls : next.smalls =
          dwa.smalls ++ dadr :: blocks.take (small - (dwa.smallBlockcnt + 1)) := by
        rw [hadded.smalls, hpushed, List.append_assoc]
        rfl
      have hbig : next.bigBlockcnt = dwa.bigBlockcnt := by
        simpa using congrArg List.length hbigs
      have hsmall : next.smallBlockcnt = small := by
        have hlen := smallBlockcnt_eq hsmalls
        simp only [List.length_cons, List.length_take] at hlen
        omega
      refine ⟨next, ?_, ?_, hadded.frame.elemlen, hadded.frame.pieceSize, ?_, ?_, ?_, ?_⟩
      · have hstays : pushed.reorganize dwa.bigBlockcnt = pushed :=
          if_neg fun hold => hold.1 (hplaced.old hold.2).1
        have hkept : pushed.releaseSmall small = pushed := releaseSmall_same hmore
        have hmoved : pushed.moveNumbers dwa.bigBlockcnt = pushed := pushed.moveNumbers_same
        have hfill : pushed.fillBigBlock dwa.bigBlockcnt true = some (pushed, 0) :=
          if_neg (Nat.lt_irrefl _)
        have hdirect : dwa.moveDirect dwa.bigBlockcnt small = some (pushed, true) := by
          rw [moveDirect, if_pos ⟨rfl, hmore⟩]
          simp only [allocBlock, hgrants, Option.map_some]
          rfl
        simp only [layBlocks, hdirect, Option.bind_eq_bind, Option.bind_some, hstays, hfill,
          hkept, hmoved]
        have hcnt : pushed.smallBlockcnt = dwa.smallBlockcnt + 1 := rfl
        rw [hcnt, hnext, Option.bind_some, hbig, Nat.sub_self]
        rfl
      · have hpos : next.smallBlocks =
            dwa.smallBlocks + 4 * (next.bigBlockcnt - dwa.bigBlockcnt) := by
          rw [hbig, Nat.sub_self]
          exact hadded.smallBlocks
        have hframe : dwa.Frame pushed := ⟨rfl, rfl, rfl, rfl, rfl, rfl⟩
        exact Laid.frame_placed (hframe.trans hadded.frame) hplaced hpos hbig hsmall
          (Nat.le_refl _) (fun h => absurd h (Nat.lt_irrefl _)) hfits
      · rw [Nat.sub_self, List.take_zero, List.append_nil]
        exact hbigs
      · have hone : small - dwa.smallBlockcnt = small - (dwa.smallBlockcnt + 1) + 1 := by omega
        have hall : dwa.smalls.take small = dwa.smalls :=
          List.take_of_length_le (by rw [length_smalls]; omega)
        rw [hsmalls, hgrants, hone, List.take_succ_cons, hall]
      · intro hstate _
        have hold : dwa.bg.state = .dworm2 := hadded.frame.state.symm.trans hstate
        have hpos := (hplaced.new hold).2
        refine ⟨hold, ?_⟩
        rw [hadded.header (show 4 ≤ dwa.smallBlocks by omega)]
        exact word_putWord_outside (by simp only [granted, setPage]; omega)
      · intro p hp _
        have hnew : dwa.blockcnt < next.blockcnt := by
          simp only [blockcnt, hbig, hsmall]
          omega
        have hmax := hplaced.directSize_le
        have hlt := hplaced.directSize_lt
        simp only [limit] at hp
        have hpage : ∀ other ∉ dadr :: blocks, next.page other = dwa.page other := by
          intro other hother
          simp only [List.mem_cons, not_or] at hother
          rw [hadded.page other fun h => hother.2 (List.mem_of_mem_take h)]
          exact Function.update_of_ne hother.1 ..
        rcases Nat.lt_or_ge (p / 4096) dwa.blockcnt with hblock | hdirect
        · have hsame : next.block (p / 4096) = dwa.block (p / 4096) := by
            simp only [blockcnt] at hblock
            simp only [block, hbig]
            split
            case isTrue h =>
              have hnone : next.bigs = dwa.bigs ++ [] := by rw [hbigs, List.append_nil]
              rw [bigBlock_of_append hnone (by omega)]
            case isFalse h => exact smallBlock_of_append hsmalls (by omega)
          simp only [byteAt, if_pos hblock, if_pos (Nat.lt_trans hblock hnew), hsame]
          rw [hpage _ (hfresh _ hblock)]
        · have hlast : p / 4096 = dwa.blockcnt := by omega
          have hblock : next.block dwa.blockcnt = dadr := by
            have hget : next.smalls[dwa.smallBlockcnt]? = some dadr := by
              rw [hsmalls, List.getElem?_append_right (by simp)]
              simp
            rw [getElem?_smalls (by omega)] at hget
            simp only [block, blockcnt, hbig, if_neg (Nat.not_lt.mpr (Nat.le_add_right _ _)),
              Nat.add_sub_cancel_left]
            exact Option.some.inj hget
          have hcontents : next.page dadr = contents := by
            have hnot : dadr ∉ blocks := (List.nodup_cons.mp hnodup).1
            rw [hadded.page dadr fun h => hnot (List.mem_of_mem_take h)]
            exact Function.update_self ..
          simp only [byteAt, hlast, if_pos hnew, if_neg (Nat.lt_irrefl _), hblock, hcontents]
          have hmod : p % 4096 = p - 4096 * dwa.blockcnt := by omega
          rw [hmod]
          refine (copy_inside (Nat.zero_le _) (by omega)).trans ?_
          simp

theorem smallBlock_apart {i dadr : Nat}
    (hapart : (dwa.extents ++ dwa.translog.extents).Pairwise Extent.Apart)
    (hmem : dadr ∈ dwa.translog.bigBlocks) (hi : i < dwa.smallBlockcnt) :
    (ofSmall (dwa.smallBlock i)).Apart (ofBig dadr) := by
  refine (List.pairwise_append.mp hapart).2.2 _ ?_ _ ?_
  · refine List.mem_append_right _ (List.mem_map_of_mem ?_)
    exact List.mem_of_getElem? (getElem?_smalls hi)
  · exact List.mem_append_left _ (List.mem_map_of_mem hmem)

theorem layBlocks_reorganize {big small : Nat} (hplaced : dwa.Placed)
    (hmore : dwa.bigBlockcnt < big) :
    dwa.layBlocks big small = (dwa.reorganize big).layBlocks big small := by
  obtain ⟨hturned, hsame, hstate⟩ := reorganize_same hplaced big
  have hcnt := hsame.counts.1
  have hdirect : ∀ opened : DwormAccess, opened.bigBlockcnt < big →
      opened.moveDirect big small = some (opened, false) :=
    fun opened hlt => if_neg fun h => absurd h.1 (Nat.ne_of_lt hlt)
  have hagain : (dwa.reorganize big).reorganize big = dwa.reorganize big := by
    have hnew := hstate (by omega)
    generalize dwa.reorganize big = turned at hnew ⊢
    exact if_neg fun h => by simp [hnew] at h
  simp only [layBlocks, hdirect dwa hmore, hdirect _ (hcnt ▸ hmore), Option.bind_eq_bind,
    Option.bind_some, hagain]

theorem smalls_makeRoom {big small : Nat} (hplaced : dwa.Placed)
    (hstate : dwa.bg.state = .dworm2) (hmore : dwa.bigBlockcnt < big)
    (hfits : 8 + 4 * (big + small) ≤ dwa.pieceSize) :
    ((dwa.releaseSmall small).moveNumbers big).smalls = dwa.smalls.take small := by
  obtain ⟨hpos, hsmallPos⟩ := hplaced.new hstate
  have hroom : 4 + (dwa.releaseSmall small).smallBlocks +
      4 * (big - (dwa.releaseSmall small).bigBlockcnt) +
        4 * (dwa.releaseSmall small).smallBlockcnt ≤ (dwa.releaseSmall small).pieceSize := by
    simp only [releaseSmall, pieceSize] at hfits ⊢
    omega
  exact (smalls_moveNumbers hroom).trans smalls_releaseSmall

theorem bigs_makeRoom {big small : Nat} (hplaced : dwa.Placed) :
    ((dwa.releaseSmall small).moveNumbers big).bigs = dwa.bigs := by
  have hkept : (dwa.releaseSmall small).bigs = dwa.bigs := rfl
  have hordered : (dwa.releaseSmall small).bigBlocks + 4 * (dwa.releaseSmall small).bigBlockcnt ≤
      (dwa.releaseSmall small).smallBlocks := hplaced.ordered
  exact (bigs_moveNumbers hordered).trans hkept

structure FilledBig (dwa next : DwormAccess) (dadr : Nat) : Prop where
  small : ∀ i < dwa.smallBlockcnt, next.page (dadr + i) = dwa.page (dwa.smallBlock i)
  direct : ∀ i < dwa.directSize,
    next.page (dadr + dwa.smallBlockcnt) i = dwa.bg.blidx (dwa.dirdataPos + i)
  old : ∀ k < 1024 * dwa.bigBlockcnt, next.page (dwa.block k) = dwa.page (dwa.block k)

theorem FilledBig.byteAt {dadr : Nat} {rest : List Nat} (hfilled : dwa.FilledBig next dadr)
    (hplaced : dwa.Placed) (hbigs : next.bigs = dwa.bigs ++ dadr :: rest) {p : Nat}
    (hp : p < dwa.limit) : next.byteAt p = dwa.byteAt p := by
  have hfits := hplaced.fits
  have hwhole := hplaced.whole
  have hmax := hplaced.directSize_lt
  have hcnt : next.bigBlockcnt = dwa.bigBlockcnt + (rest.length + 1) := bigBlockcnt_eq hbigs
  have hnew : next.bigBlock dwa.bigBlockcnt = dadr := by
    have hget : next.bigs[dwa.bigBlockcnt]? = some dadr := by
      rw [hbigs, List.getElem?_append_right (by simp)]
      simp
    rw [getElem?_bigs (by omega)] at hget
    exact Option.some.inj hget
  have hblock : ∀ i < 1024, next.block (1024 * dwa.bigBlockcnt + i) = dadr + i := by
    intro i hi
    have hquot : (1024 * dwa.bigBlockcnt + i) / 1024 = dwa.bigBlockcnt := by omega
    have hrem : (1024 * dwa.bigBlockcnt + i) % 1024 = i := by omega
    rw [block, if_pos (by omega), hquot, hrem, hnew]
  simp only [limit, blockcnt] at hp
  have hin : p / 4096 < next.blockcnt := by
    simp only [blockcnt]
    omega
  simp only [DwormAccess.byteAt, if_pos hin]
  rcases Nat.lt_or_ge (p / 4096) (1024 * dwa.bigBlockcnt) with hbig | hsmall
  · have hold : p / 4096 < dwa.blockcnt := Nat.lt_add_right _ hbig
    have hsame : next.block (p / 4096) = dwa.block (p / 4096) := by
      simp only [block, if_pos hbig]
      rw [if_pos (by omega), bigBlock_of_append hbigs (by omega)]
    rw [if_pos hold, hsame, hfilled.old _ hbig]
  · obtain ⟨i, hi⟩ := Nat.exists_eq_add_of_le hsmall
    rw [hi, hblock i (by omega)]
    rcases Nat.lt_or_ge i dwa.smallBlockcnt with hlt | hdirect
    · rw [if_pos (by simp only [blockcnt]; omega), hfilled.small i hlt, block,
        if_neg (by omega), Nat.add_sub_cancel_left]
    · have hlast : i = dwa.smallBlockcnt := by omega
      have hmod : p % 4096 = p - 4096 * dwa.blockcnt := by
        simp only [blockcnt]
        omega
      rw [if_neg (by simp only [blockcnt]; omega), hlast, hmod]
      exact hfilled.direct _ (by simp only [blockcnt]; omega)

theorem bigBlock_apart {i dadr : Nat}
    (hapart : (dwa.extents ++ dwa.translog.extents).Pairwise Extent.Apart)
    (hmem : dadr ∈ dwa.translog.bigBlocks) (hi : i < dwa.bigBlockcnt) :
    (ofBig (dwa.bigBlock i)).Apart (ofBig dadr) := by
  refine (List.pairwise_append.mp hapart).2.2 _ ?_ _ ?_
  · refine List.mem_append_left _ (List.mem_map_of_mem ?_)
    exact List.mem_of_getElem? (getElem?_bigs hi)
  · exact List.mem_append_left _ (List.mem_map_of_mem hmem)

theorem laid_big {big small : Nat} (hplaced : dwa.Placed) (hstate : dwa.bg.state = .dworm2)
    (hmore : dwa.bigBlockcnt < big) (hfits : 8 + 4 * (big + small) ≤ dwa.pieceSize)
    (hserved : small - dwa.smallBlockcnt ≤ dwa.translog.blocks.length)
    (hservedBig : big - dwa.bigBlockcnt ≤ dwa.translog.bigBlocks.length)
    (hwords : ∀ dadr ∈ dwa.translog.blocks, dadr < 2 ^ 32)
    (hwordsBig : ∀ dadr ∈ dwa.translog.bigBlocks, dadr < 2 ^ 32)
    (hapart : (dwa.extents ++ dwa.translog.extents).Pairwise Extent.Apart) :
    ∃ next, dwa.layBlocks big small = some next ∧ dwa.Laid next big small := by
  have hfitsOld := hplaced.fits
  have hwhole := hplaced.whole
  obtain ⟨hpos, hsmallPos⟩ := hplaced.new hstate
  cases hgrants : dwa.translog.bigBlocks with
  | nil =>
      rw [hgrants] at hservedBig
      exact absurd hservedBig (by simp; omega)
  | cons dadr bigBlocks =>
      have hmem : dadr ∈ dwa.translog.bigBlocks := by simp [hgrants]
      have hcross : ∀ other ∈ dwa.translog.blocks, (ofBig dadr).Apart (ofSmall other) := by
        intro other hother
        exact (List.pairwise_append.mp (List.pairwise_append.mp hapart).2.1).2.2 _
          (List.mem_map_of_mem hmem) _ (List.mem_map_of_mem hother)
      have hsmallApart : ∀ i < dwa.smallBlockcnt, dwa.smallBlock i < dadr ∨
          dadr + 1024 ≤ dwa.smallBlock i := by
        intro i hi
        have hblocks := smallBlock_apart hapart hmem hi
        simp only [Extent.Apart, ofSmall, ofBig] at hblocks
        omega
      obtain ⟨page, hfill, hcopied, hmoved, hkept⟩ :=
        fillBigBlock_spec hplaced hmore hgrants fun i hi => by
          have := hsmallApart i hi
          omega
      let filled : DwormAccess := { dwa with page, translog := { dwa.translog with bigBlocks } }
      have hfilledPlaced : filled.Placed :=
        ⟨hplaced.opened, hplaced.valid, hplaced.old, hplaced.new, hplaced.fits, hplaced.whole⟩
      let room := (filled.releaseSmall small).moveNumbers big
      have hroomSmalls : room.smalls = dwa.smalls.take small :=
        smalls_makeRoom hfilledPlaced hstate hmore hfits
      have hroomBigs : room.bigs = dwa.bigs := bigs_makeRoom hfilledPlaced
      have hroomSmall : room.smallBlockcnt = min dwa.smallBlockcnt small := rfl
      have hroomPos : room.smallBlocks = 4 + 4 * big := by
        simp only [room, moveNumbers, releaseSmall, setBlidx, filled]
        omega
      have hroomOrdered : room.bigBlocks + 4 * room.bigBlockcnt ≤ room.smallBlocks := by
        have hroomBig : room.bigBlocks = 4 := hpos
        have hroomCnt : room.bigBlockcnt = dwa.bigBlockcnt := rfl
        omega
      have hcount : small - room.smallBlockcnt ≤ room.translog.blocks.length := by
        have hsame : room.translog.blocks = dwa.translog.blocks := rfl
        rw [hsame]
        omega
      obtain ⟨laid, hlaid, hsmallAdded⟩ := room.allocSmall_added hcount hwords hroomOrdered
      have hlaidBigs : laid.bigs = dwa.bigs := hsmallAdded.bigs.trans hroomBigs
      have hlaidBig : laid.bigBlockcnt = dwa.bigBlockcnt := by
        simpa using congrArg List.length hlaidBigs
      have hlaidGrants : laid.translog.bigBlocks = bigBlocks := hsmallAdded.bigGrants
      obtain ⟨count, hcnt⟩ : ∃ count, big - dwa.bigBlockcnt = count + 1 :=
        ⟨big - dwa.bigBlockcnt - 1, by omega⟩
      rw [hgrants, List.length_cons] at hservedBig
      simp only [hgrants, List.mem_cons, forall_eq_or_imp] at hwordsBig
      have hlaidOrdered : laid.bigBlocks + 4 * (laid.bigBlockcnt + (count + 1)) ≤
          laid.smallBlocks := by
        have hlaidPos : laid.bigBlocks = 4 := hsmallAdded.frame.bigBlocks.trans hpos
        have hlaidSmall := hsmallAdded.smallBlocks
        omega
      have hcountBig : count ≤ laid.translog.bigBlocks.length := by
        rw [hlaidGrants]
        omega
      obtain ⟨next, hnext, hbigAdded⟩ := laid.allocBig_added hcountBig hwordsBig.1
        (hlaidGrants ▸ hwordsBig.2) hlaidOrdered
      rw [hlaidGrants] at hbigAdded
      have hbigs : next.bigs = dwa.bigs ++ dadr :: bigBlocks.take count := by
        rw [hbigAdded.bigs, hlaidBigs]
      have hsmalls : next.smalls =
          dwa.smalls.take small ++ dwa.translog.blocks.take (small - dwa.smallBlockcnt) := by
        have hmin : small - room.smallBlockcnt = small - dwa.smallBlockcnt := by omega
        rw [hbigAdded.smalls, hsmallAdded.smalls, hroomSmalls, hmin]
        rfl
      have hframe : dwa.Frame next :=
        ((⟨rfl, rfl, rfl, rfl, rfl, rfl⟩ : dwa.Frame room).trans hsmallAdded.frame).trans
          hbigAdded.frame
      have hpage : ∀ other ∉ dwa.translog.blocks, next.page other = page other := by
        intro other hother
        rw [hbigAdded.page]
        exact hsmallAdded.page other fun h => hother (List.mem_of_mem_take h)
      have hfilled : dwa.FilledBig next dadr := by
        have hnew : ∀ i < 1024, next.page (dadr + i) = page (dadr + i) := by
          intro i hi
          refine hpage _ fun hgranted => ?_
          have happart := hcross _ hgranted
          simp only [Extent.Apart, ofSmall, ofBig] at happart
          omega
        refine ⟨fun i hi => ?_, fun i hi => ?_, fun k hk => ?_⟩
        · rw [hnew i (by omega), hcopied i hi]
        · rw [hnew _ (by omega), hmoved i hi]
        · have hin : k < dwa.blockcnt := Nat.lt_add_right _ hk
          have happart := bigBlock_apart hapart hmem (by omega : k / 1024 < dwa.bigBlockcnt)
          rw [hpage _ (block_not_granted hapart hin), hkept]
          simp only [Extent.Apart, ofBig] at happart
          rw [block, if_pos hk]
          omega
      refine ⟨next, ?_, ?_, hframe.elemlen, hframe.pieceSize, ?_, hsmalls, ?_, ?_⟩
      · have hdirect : dwa.moveDirect big small = some (dwa, false) :=
          if_neg fun h => absurd h.1 (Nat.ne_of_lt hmore)
        have hstays : dwa.reorganize big = dwa := if_neg fun h => by simp [hstate] at h
        simp only [layBlocks, hdirect, Option.bind_eq_bind, Option.bind_some, hstays, hfill]
        have hstored : laid.allocBig (big - laid.bigBlockcnt) dadr = some next := by
          rw [hlaidBig, hcnt, hnext]
        calc (room.allocSmall (small - room.smallBlockcnt)).bind
              (fun laid => laid.allocBig (big - laid.bigBlockcnt) dadr)
            = laid.allocBig (big - laid.bigBlockcnt) dadr := by rw [hlaid, Option.bind_some]
          _ = some next := hstored
      · have hbig : next.bigBlockcnt = big := by
          have hlen := bigBlockcnt_eq hbigs
          simp only [List.length_cons, List.length_take] at hlen
          omega
        have hsmall : next.smallBlockcnt = small := by
          have hlen := congrArg List.length hsmalls
          simp only [length_smalls, List.length_append, List.length_take] at hlen
          omega
        have hnextPos : next.smallBlocks =
            dwa.smallBlocks + 4 * (next.bigBlockcnt - dwa.bigBlockcnt) := by
          rw [hbigAdded.smallBlocks, hsmallAdded.smallBlocks, hroomPos]
          omega
        exact Laid.frame_placed hframe hplaced hnextPos hbig hsmall (Nat.le_of_lt hmore)
          (fun _ => hstate) hfits
      · rw [hbigs, hgrants, hcnt, List.take_succ_cons]
      · intro _ hnone
        have hlen := bigBlockcnt_eq hbigs
        simp only [List.length_cons] at hlen
        omega
      · intro p hp _
        exact hfilled.byteAt hplaced hbigs hp

end DwormAccess

end Sql602.Heap
