import Sql602.Disk.Ownership

namespace Sql602.Disk

/-! New bpools and a longer file. -/

theorem testBit_fullBpool {k : Nat} (hk : k < 8 * BLOCKSIZE) :
    fullBpool.testBit k = decide (k ≠ 0) := by
  rw [fullBpool, Bitmap.testBit_toggle, Nat.testBit_two_pow_sub_one, decide_eq_true hk,
    Bool.true_xor, ← decide_not]
  exact decide_eq_decide.mpr ⟨fun h => Ne.symm h, fun h => Ne.symm h⟩

namespace Space

variable {start space next : Space}

/-- The bpools of the start are kept, and the bpools above them are new. -/
structure Grown (start space : Space) : Prop where
  frame : ∃ bpools bpoolCount dbFileSize newDbFileSize, space = { start with
    bpools := bpools
    bpoolCount := bpoolCount
    dbFileSize := dbFileSize
    newDbFileSize := newDbFileSize }
  count : start.bpoolCount ≤ space.bpoolCount
  lower : ∀ poolnum < start.bpoolCount, space.bpools poolnum = start.bpools poolnum
  upper : ∀ poolnum, start.bpoolCount ≤ poolnum → poolnum < space.bpoolCount →
    space.bpools poolnum = some fullBpool

theorem Grown.refl (start : Space) : start.Grown start where
  frame := ⟨_, _, _, _, rfl⟩
  count := le_rfl
  lower := fun _ _ => rfl
  upper := fun _ hle hlt => absurd hlt (Nat.not_lt.mpr hle)

theorem Grown.kept (hgrown : start.Grown space) (dadr : Nat) :
    space.kept dadr + (start.isBlock dadr).toNat =
      start.kept dadr + (space.isBlock dadr).toNat := by
  obtain ⟨bpools, bpoolCount, dbFileSize, newDbFileSize, rfl⟩ := hgrown.frame
  have hcount : start.bpoolCount ≤ bpoolCount := hgrown.count
  have hmod : dadr % (8 * BLOCKSIZE) < 8 * BLOCKSIZE := Nat.mod_lt _ (by decide)
  simp only [Space.kept, marked, markedIn, isBlock]
  by_cases hlow : poolFromDadr dadr < start.bpoolCount
  · have hlower : bpools (poolFromDadr dadr) = start.bpools (poolFromDadr dadr) :=
      hgrown.lower _ hlow
    simp only [hlower, decide_eq_true hlow, decide_eq_true (hlow.trans_le hcount)]
  · by_cases hhigh : poolFromDadr dadr < bpoolCount
    · have hupper : bpools (poolFromDadr dadr) = some fullBpool :=
        hgrown.upper _ (Nat.not_lt.mp hlow) hhigh
      simp only [hupper, decide_eq_false hlow, decide_eq_true hhigh, Bool.true_and,
        Bool.false_and, Bool.toNat_false, Option.getD_some, testBit_fullBpool hmod]
      omega
    · simp only [decide_eq_false hlow, decide_eq_false hhigh, Bool.false_and]

theorem Fits.grown (hfits : start.Fits) (hgrown : start.Grown space) : start.Keeps space := by
  obtain ⟨bpools, bpoolCount, dbFileSize, newDbFileSize, rfl⟩ := hgrown.frame
  refine ⟨rfl, hgrown.kept, hfits.inRange.trans_le hgrown.count, fun poolnum hlt => ?_⟩
  by_cases hlow : poolnum < start.bpoolCount
  · rw [hgrown.lower poolnum hlow]
    exact hfits.readable poolnum hlow
  · rw [hgrown.upper poolnum (Nat.not_lt.mp hlow) hlt]
    rfl

theorem Grown.withBpools {bpools : Nat → Option Nat} (hgrown : start.Grown space)
    (hbpools : ∀ poolnum, bpools poolnum = space.bpools poolnum ∨
      (start.bpoolCount ≤ poolnum ∧ bpools poolnum = some fullBpool)) :
    start.Grown { space with bpools := bpools } where
  frame := by
    obtain ⟨_, _, _, _, rfl⟩ := hgrown.frame
    exact ⟨_, _, _, _, rfl⟩
  count := hgrown.count
  lower := by
    intro poolnum hlow
    rcases hbpools poolnum with hsame | ⟨hle, -⟩
    · exact hsame.trans (hgrown.lower poolnum hlow)
    · exact absurd hlow (Nat.not_lt.mpr hle)
  upper := by
    intro poolnum hle hlt
    rcases hbpools poolnum with hsame | ⟨-, hfull⟩
    · exact hsame.trans (hgrown.upper poolnum hle hlt)
    · exact hfull

theorem Grown.withSize (hgrown : start.Grown space) (dbFileSize : Nat) :
    start.Grown { space with dbFileSize := dbFileSize } where
  frame := by
    obtain ⟨_, _, _, _, rfl⟩ := hgrown.frame
    exact ⟨_, _, _, _, rfl⟩
  count := hgrown.count
  lower := hgrown.lower
  upper := hgrown.upper

theorem Grown.withCount {bpoolCount : Nat} (hgrown : start.Grown space)
    (hcount : start.bpoolCount ≤ bpoolCount)
    (hfull : ∀ poolnum, space.bpoolCount ≤ poolnum → poolnum < bpoolCount →
      space.bpools poolnum = some fullBpool) :
    start.Grown { space with bpoolCount := bpoolCount } where
  frame := by
    obtain ⟨_, _, _, _, rfl⟩ := hgrown.frame
    exact ⟨_, _, _, _, rfl⟩
  count := hcount
  lower := hgrown.lower
  upper := by
    intro poolnum hle hlt
    by_cases hold : poolnum < space.bpoolCount
    · exact hgrown.upper poolnum hle hold
    · exact hfull poolnum (Nat.not_lt.mp hold) hlt

theorem addBpools_spec (extension : Extension) (todo : List Nat) (space : Space) :
    ∃ bpools, (addBpools extension todo space).2 = { space with bpools := bpools } ∧
      (∀ poolnum, bpools poolnum = space.bpools poolnum ∨
        (poolnum ∈ todo ∧ bpools poolnum = some fullBpool)) ∧
      ((addBpools extension todo space).1 = false →
        ∀ poolnum ∈ todo, bpools poolnum = some fullBpool) := by
  induction todo generalizing space with
  | nil => exact ⟨space.bpools, rfl, fun _ => .inl rfl, by simp⟩
  | cons first todo ih =>
      cases hfails : extension.bpoolFails.contains first with
      | true =>
          simp only [addBpools, writeBpool, hfails, if_true]
          exact ⟨space.bpools, rfl, fun _ => .inl rfl, by simp⟩
      | false =>
          simp only [addBpools, writeBpool, hfails, Bool.false_eq_true, if_false]
          obtain ⟨bpools, hdef, hsame, hall⟩ := ih
            { space with bpools := Function.update space.bpools first (some fullBpool) }
          refine ⟨bpools, hdef, fun poolnum => ?_, fun hok poolnum hmem => ?_⟩
          · rcases hsame poolnum with hsame | ⟨hmem, hfull⟩
            · by_cases hfirst : poolnum = first
              · exact .inr ⟨by simp [hfirst], hsame.trans (by simp [hfirst])⟩
              · exact .inl (hsame.trans (Function.update_of_ne hfirst _ _))
            · exact .inr ⟨List.mem_cons_of_mem _ hmem, hfull⟩
          · rcases hsame poolnum with hkept | ⟨-, hfull⟩
            · rcases List.mem_cons.mp hmem with rfl | hmem
              · exact hkept.trans (by simp)
              · exact hall hok poolnum hmem
            · exact hfull

theorem rawWrites_spec (extension : Extension) (blocks : List Nat) (space : Space) :
    ∃ bpools, (rawWrites extension blocks space).2 = { space with bpools := bpools } ∧
      ∀ poolnum, bpools poolnum = space.bpools poolnum ∨
        (space.bpoolFirst + poolnum * (8 * BLOCKSIZE) ∈ blocks ∧
          bpools poolnum = some fullBpool) := by
  induction blocks generalizing space with
  | nil => exact ⟨space.bpools, rfl, fun _ => .inl rfl⟩
  | cons block blocks ih =>
      simp only [rawWrites]
      split
      · exact ⟨space.bpools, rfl, fun _ => .inl rfl⟩
      simp only [overwrite]
      split
      case isFalse =>
        obtain ⟨bpools, hdef, hsame⟩ := ih space
        refine ⟨bpools, hdef, fun poolnum => (hsame poolnum).imp_right fun hfull => ?_⟩
        exact ⟨List.mem_cons_of_mem _ hfull.1, hfull.2⟩
      case isTrue hbpool =>
        obtain ⟨hle, hmod⟩ := hbpool
        obtain ⟨bpools, hdef, hsame⟩ := ih { space with
          bpools := Function.update space.bpools
            ((block - space.bpoolFirst) / (8 * BLOCKSIZE)) (some fullBpool) }
        refine ⟨bpools, hdef, fun poolnum => ?_⟩
        rcases hsame poolnum with hsame | hfull
        · by_cases hfirst : poolnum = (block - space.bpoolFirst) / (8 * BLOCKSIZE)
          · refine .inr ⟨List.mem_cons.mpr (.inl ?_), hsame.trans (by simp [hfirst])⟩
            rw [hfirst, Nat.div_mul_cancel (Nat.dvd_of_mod_eq_zero hmod)]
            omega
          · exact .inl (hsame.trans (Function.update_of_ne hfirst _ _))
        · exact .inr ⟨List.mem_cons_of_mem _ hfull.1, hfull.2⟩

/-- The last bpool lies in the file, or before the highest block that was taken. -/
def InFile (space : Space) (maxPhysBlock : Nat) : Prop :=
  space.bpoolFirst + (space.bpoolCount - 1) * (8 * BLOCKSIZE) <
    max space.dbFileSize maxPhysBlock

instance (space : Space) (maxPhysBlock : Nat) : Decidable (space.InFile maxPhysBlock) :=
  inferInstanceAs (Decidable (_ < _))

/-- No part of the file ends with a bpool. -/
def PartsFit (space : Space) : Prop :=
  ∀ last ∈ space.partEnds, last ≤ space.bpoolFirst ∨
    (last - 1 - space.bpoolFirst) % (8 * BLOCKSIZE) ≠ 0

instance (space : Space) : Decidable space.PartsFit :=
  inferInstanceAs (Decidable (∀ last ∈ space.partEnds, _ ∨ _))

theorem mem_lastBlocks {newblocks block : Nat} (hmem : block ∈ space.lastBlocks newblocks) :
    block = newblocks - 1 ∨ ∃ last ∈ space.partEnds, space.dbFileSize < last ∧
      block = last - 1 := by
  have hexpanded : ∀ {block}, block ∈ ((space.partEnds.takeWhile (· ≤ newblocks)).filter
      (space.dbFileSize < ·)).map (· - 1) →
      ∃ last ∈ space.partEnds, space.dbFileSize < last ∧ block = last - 1 := by
    intro block hmem
    obtain ⟨last, hlast, rfl⟩ := List.mem_map.mp hmem
    obtain ⟨hfilled, hless⟩ := List.mem_filter.mp hlast
    exact ⟨last, (List.takeWhile_sublist _).subset hfilled, by simpa using hless, rfl⟩
  simp only [lastBlocks] at hmem
  split at hmem
  · rcases List.mem_append.mp hmem with hmem | hmem
    · exact .inr (hexpanded hmem)
    · exact .inl (List.mem_singleton.mp hmem)
  · exact .inr (hexpanded hmem)

/-- Extending the file writes to no bpool that was there before. -/
theorem not_mem_lastBlocks {maxPhysBlock newblocks poolnum : Nat}
    (hin : space.InFile maxPhysBlock) (hparts : space.PartsFit)
    (hless : maxPhysBlock < newblocks) (hsize : space.dbFileSize < newblocks)
    (hlow : poolnum < space.bpoolCount) :
    space.bpoolFirst + poolnum * (8 * BLOCKSIZE) ∉ space.lastBlocks newblocks := by
  intro hmem
  have hmul : poolnum * (8 * BLOCKSIZE) ≤ (space.bpoolCount - 1) * (8 * BLOCKSIZE) :=
    Nat.mul_le_mul_right _ (Nat.le_sub_one_of_lt hlow)
  simp only [InFile] at hin
  rcases mem_lastBlocks hmem with hlast | ⟨last, hlast, hgrows, heq⟩
  · omega
  · rcases hparts last hlast with hbefore | hother
    · omega
    · refine hother ?_
      rw [← heq, Nat.add_sub_cancel_left, Nat.mul_mod_left]

theorem le_dadrCount2BpoolCount {maxPhysBlock newblocks : Nat}
    (hin : space.InFile maxPhysBlock) (hless : maxPhysBlock < newblocks)
    (hsize : space.dbFileSize < newblocks) :
    space.bpoolCount ≤ dadrCount2BpoolCount (newblocks - space.bpoolFirst) := by
  have hdiv : space.bpoolCount - 1 ≤ (newblocks - space.bpoolFirst - 1) / (8 * BLOCKSIZE) := by
    rw [Nat.le_div_iff_mul_le (by decide)]
    simp only [InFile] at hin
    omega
  simp only [dadrCount2BpoolCount]
  omega

/-- A refused extension leaves the size of the file as it was. -/
theorem Grown.setFilSize {maxPhysBlock newblocks : Nat} (extension : Extension)
    (hgrown : start.Grown space) (hsame : space.dbFileSize = start.dbFileSize)
    (hin : start.InFile maxPhysBlock) (hparts : start.PartsFit)
    (hless : maxPhysBlock < newblocks) :
    start.Grown (space.setFilSize extension newblocks).2 ∧
      ((space.setFilSize extension newblocks).1 = true →
        (space.setFilSize extension newblocks).2.dbFileSize = start.dbFileSize) := by
  have hframe := hgrown.frame
  simp only [Space.setFilSize]
  split
  · exact ⟨hgrown, fun _ => hsame⟩
  split
  · exact ⟨hgrown, by simp⟩
  case isFalse hgrows =>
    rw [hsame, Nat.not_le] at hgrows
    have hfirst : space.bpoolFirst = start.bpoolFirst := by
      obtain ⟨_, _, _, _, rfl⟩ := hframe
      rfl
    rw [hfirst]
    have hcount := le_dadrCount2BpoolCount hin hless hgrows
    set newBpoolCount := dadrCount2BpoolCount (newblocks - start.bpoolFirst)
    obtain ⟨bpools, hadded, hbpools, hall⟩ := addBpools_spec extension
      (List.range' space.bpoolCount (newBpoolCount - space.bpoolCount)) space
    have hwritten : start.Grown { space with bpools := bpools } := by
      refine hgrown.withBpools fun poolnum => (hbpools poolnum).imp_right fun hfull => ?_
      exact ⟨hgrown.count.trans (List.mem_range'_1.mp hfull.1).1, hfull.2⟩
    rw [hadded]
    split
    · exact ⟨hwritten, fun _ => hsame⟩
    case isFalse hok =>
      have hfull := hall (by simpa using hok)
      have hmore : start.Grown { space with bpools := bpools, bpoolCount := newBpoolCount } := by
        refine hwritten.withCount hcount fun poolnum hle hlt => hfull poolnum ?_
        rw [List.mem_range'_1]
        exact ⟨hle, by omega⟩
      have hlast : lastBlocks { space with bpools := bpools, bpoolCount := newBpoolCount }
          newblocks = start.lastBlocks newblocks := by
        obtain ⟨_, _, _, _, rfl⟩ := hframe
        subst hsame
        rfl
      rw [hlast]
      obtain ⟨bpools', hraw, hbpools'⟩ := rawWrites_spec extension
        (start.lastBlocks newblocks)
        { space with bpools := bpools, bpoolCount := newBpoolCount }
      have hlong : start.Grown
          { space with bpools := bpools', bpoolCount := newBpoolCount } := by
        refine hmore.withBpools fun poolnum => (hbpools' poolnum).imp_right fun hhit => ?_
        refine ⟨Nat.not_lt.mp fun hlow => ?_, hhit.2⟩
        exact not_mem_lastBlocks hin hparts hless hgrows hlow (hfirst ▸ hhit.1)
      rw [hraw]
      split
      · exact ⟨hlong, fun _ => hsame⟩
      · exact ⟨hlong.withSize newblocks, by simp⟩

theorem Grown.noted (newDbFileSize : Option Nat) (hgrown : start.Grown space) :
    start.Grown { space with newDbFileSize := newDbFileSize } where
  frame := by
    obtain ⟨_, _, _, _, rfl⟩ := hgrown.frame
    exact ⟨_, _, _, _, rfl⟩
  count := hgrown.count
  lower := hgrown.lower
  upper := hgrown.upper

/-- While a backup freezes the file, no bpool is concerned. -/
theorem extendDatabaseIfOutside_grown {maxPhysBlock : Nat} (env : Env)
    (hin : space.newDbFileSize.isSome = true ∨
      (space.InFile maxPhysBlock ∧ space.PartsFit)) :
    space.Grown (space.extendDatabaseIfOutside env maxPhysBlock).2 := by
  have hrefl := Grown.refl space
  simp only [extendDatabaseIfOutside]
  split
  case h_1 size hbackup =>
    split
    · exact hrefl.noted _
    · exact hrefl
  case h_2 hbackup =>
    rw [hbackup] at hin
    obtain ⟨hin, hparts⟩ := hin.resolve_left (by simp)
    split
    case isFalse => exact hrefl
    case isTrue hout =>
      set minstep := if space.dbFileSize < 25600 then 256 else 2560
      set step := if maxPhysBlock + 1 - space.dbFileSize < minstep then minstep
        else maxPhysBlock + 1 - space.dbFileSize with hstep
      have hless : maxPhysBlock < space.dbFileSize + step := by
        rw [hstep]
        split <;> omega
      obtain ⟨hgrown, hrefused⟩ := hrefl.setFilSize env.extension rfl hin hparts hless
      split
      case isTrue hfailed =>
        exact (hgrown.setFilSize env.again (hrefused hfailed) hin hparts (Nat.lt_succ_self _)).1
      case isFalse => exact hgrown

end Space

end Sql602.Disk
