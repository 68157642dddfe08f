import Mathlib.Data.List.Nodup
import Sql602.Disk.Space

namespace Sql602.Disk

open scoped List

/-! Where a block number is. -/

namespace Space

def isBlock (space : Space) (dadr : Nat) : Bool :=
  decide (poolFromDadr dadr < space.bpoolCount) && decide (dadr % (8 * BLOCKSIZE) ≠ 0)

def markedIn (bpoolCount : Nat) (bpools : Nat → Option Nat) (dadr : Nat) : Bool :=
  decide (poolFromDadr dadr < bpoolCount) &&
    ((bpools (poolFromDadr dadr)).getD emptyBpool).testBit (dadr % (8 * BLOCKSIZE))

def marked (space : Space) (dadr : Nat) : Bool :=
  markedIn space.bpoolCount space.bpools dadr

/-- The number of places in which the disk space keeps a block. -/
def kept (space : Space) (dadr : Nat) : Nat :=
  space.freeBlocks.count dadr + space.preFreeBlocks.count dadr + (space.marked dadr).toNat

/-- Every block of the bpools is in exactly one place, other numbers are in none. -/
structure Owned (space : Space) : Prop where
  place : ∀ dadr, space.handed.count dadr + space.kept dadr = (space.isBlock dadr).toNat
  inRange : space.nextPool < space.bpoolCount
  readable : ∀ poolnum < space.bpoolCount, (space.bpools poolnum).isSome

/-- No block is kept in two places. Other blocks may be missing. -/
structure Fits (space : Space) : Prop where
  kept_le : ∀ dadr, space.kept dadr ≤ (space.isBlock dadr).toNat
  inRange : space.nextPool < space.bpoolCount
  readable : ∀ poolnum < space.bpoolCount, (space.bpools poolnum).isSome

/-- A change of the disk space that neither loses nor doubles a block. The bpools
may become more or fewer. -/
structure Keeps (space next : Space) : Prop where
  handed : next.handed = space.handed
  kept : ∀ dadr, next.kept dadr + (space.isBlock dadr).toNat =
    space.kept dadr + (next.isBlock dadr).toNat
  inRange : next.nextPool < next.bpoolCount
  readable : ∀ poolnum < next.bpoolCount, (next.bpools poolnum).isSome

variable {space mid next : Space}

theorem Owned.fits (howned : space.Owned) : space.Fits where
  kept_le := by
    intro dadr
    have hplace := howned.place dadr
    omega
  inRange := howned.inRange
  readable := howned.readable

theorem Owned.handed_nodup (howned : space.Owned) : space.handed.Nodup := by
  rw [List.nodup_iff_count_le_one]
  intro dadr
  have hplace := howned.place dadr
  have hle := Bool.toNat_le (space.isBlock dadr)
  omega

theorem Owned.isBlock_of_handed (howned : space.Owned) {dadr : Nat}
    (hmem : dadr ∈ space.handed) : space.isBlock dadr = true := by
  have hplace := howned.place dadr
  have hpos := List.count_pos_iff.mpr hmem
  cases hblock : space.isBlock dadr with
  | true => rfl
  | false =>
      rw [hblock, Bool.toNat_false] at hplace
      omega

theorem Fits.keeps (hfits : space.Fits) (hkeeps : space.Keeps next) : next.Fits where
  kept_le := by
    intro dadr
    have hle := hfits.kept_le dadr
    have hkept := hkeeps.kept dadr
    omega
  inRange := hkeeps.inRange
  readable := hkeeps.readable

theorem Owned.keeps (howned : space.Owned) (hkeeps : space.Keeps next) : next.Owned where
  place := by
    intro dadr
    have hplace := howned.place dadr
    have hkept := hkeeps.kept dadr
    rw [hkeeps.handed]
    omega
  inRange := hkeeps.inRange
  readable := hkeeps.readable

theorem Keeps.trans (hfirst : space.Keeps mid) (hsecond : mid.Keeps next) :
    space.Keeps next where
  handed := hsecond.handed.trans hfirst.handed
  kept := by
    intro dadr
    have hkeptFirst := hfirst.kept dadr
    have hkeptSecond := hsecond.kept dadr
    omega
  inRange := hsecond.inRange
  readable := hsecond.readable

theorem Keeps.withTime (hkeeps : space.Keeps next) (time : Nat) :
    space.Keeps { next with lastFilFlush := time } :=
  ⟨hkeeps.handed, hkeeps.kept, hkeeps.inRange, hkeeps.readable⟩

theorem Fits.refl (hfits : space.Fits) : space.Keeps space :=
  ⟨rfl, fun _ => rfl, hfits.inRange, hfits.readable⟩

/-- The parts of the disk space that saving and flushing change. -/
def SavedTo (space next : Space) : Prop :=
  ∃ freeBlocks preFreeBlocks bpools nextPool lastFilFlush,
    next = { space with
      freeBlocks := freeBlocks
      preFreeBlocks := preFreeBlocks
      bpools := bpools
      nextPool := nextPool
      lastFilFlush := lastFilFlush }

theorem SavedTo.refl (space : Space) : space.SavedTo space :=
  ⟨space.freeBlocks, space.preFreeBlocks, space.bpools, space.nextPool, space.lastFilFlush,
    rfl⟩

theorem SavedTo.trans (hfirst : space.SavedTo mid) (hsecond : mid.SavedTo next) :
    space.SavedTo next := by
  obtain ⟨_, _, _, _, _, rfl⟩ := hfirst
  obtain ⟨freeBlocks, preFreeBlocks, bpools, nextPool, lastFilFlush, rfl⟩ := hsecond
  exact ⟨freeBlocks, preFreeBlocks, bpools, nextPool, lastFilFlush, rfl⟩

/-! Saving. -/

theorem perm_moveLast (rest : List Nat) : moveLast rest ~ rest := by
  cases hlast : rest.getLast? with
  | none => simp [moveLast, List.getLast?_eq_none_iff.mp hlast]
  | some last =>
      have happend : rest.dropLast ++ [last] = rest := List.dropLast_append_getLast? last hlast
      simp only [moveLast, hlast]
      calc last :: rest.dropLast
          ~ rest.dropLast ++ [last] := (List.perm_append_singleton last _).symm
        _ = rest := happend

/-- The blocks that leave the cache belong to the pool and are marked in it. -/
theorem saveBlocks_spec (poolnum margin : Nat) (kept rest : List Nat) (corepool : Nat) :
    ∃ saved, kept ++ rest ~ (saveBlocks poolnum margin kept rest corepool).1 ++ saved ∧
      (∀ dadr ∈ saved, poolFromDadr dadr = poolnum) ∧
      ∀ k, (saveBlocks poolnum margin kept rest corepool).2.testBit k = true ↔
        corepool.testBit k = true ∨ ∃ dadr ∈ saved, dadr % (8 * BLOCKSIZE) = k := by
  fun_induction saveBlocks poolnum margin kept rest corepool with
  | case1 => exact ⟨[], by simp, by simp, by simp⟩
  | case2 kept corepool dadr rest hpool added hmargin =>
      refine ⟨[dadr], ?_, by simpa using hpool, ?_⟩
      · calc kept ++ dadr :: rest
            ~ kept ++ rest ++ [dadr] := by
              rw [List.append_assoc]
              exact (List.perm_append_singleton dadr rest).symm.append_left kept
          _ ~ kept ++ moveLast rest ++ [dadr] :=
              ((perm_moveLast rest).symm.append_left kept).append_right _
      · intro k
        simp [added]
  | case3 kept corepool dadr rest hpool added hmargin ih =>
      obtain ⟨saved, hperm, hsaved, hbits⟩ := ih
      refine ⟨dadr :: saved, ?_, ?_, ?_⟩
      · calc kept ++ dadr :: rest
            ~ dadr :: (kept ++ rest) := List.perm_middle
          _ ~ dadr :: (kept ++ moveLast rest) :=
              ((perm_moveLast rest).symm.append_left kept).cons dadr
          _ ~ dadr :: ((saveBlocks poolnum margin kept (moveLast rest) added).1 ++ saved) :=
              hperm.cons dadr
          _ ~ (saveBlocks poolnum margin kept (moveLast rest) added).1 ++ dadr :: saved :=
              List.perm_middle.symm
      · exact List.forall_mem_cons.mpr ⟨hpool, hsaved⟩
      · intro k
        rw [hbits k]
        simp [added, or_assoc]
  | case4 kept corepool dadr rest hpool ih =>
      obtain ⟨saved, hperm, hsaved, hbits⟩ := ih
      exact ⟨saved, by simpa using hperm, hsaved, hbits⟩

theorem poolFromDadr_inj {dadr other : Nat} (hpool : poolFromDadr dadr = poolFromDadr other)
    (hmod : dadr % (8 * BLOCKSIZE) = other % (8 * BLOCKSIZE)) : dadr = other := by
  have hdadr := Nat.div_add_mod dadr (8 * BLOCKSIZE)
  have hother := Nat.div_add_mod other (8 * BLOCKSIZE)
  rw [poolFromDadr, poolFromDadr] at hpool
  rw [← hdadr, ← hother, hpool, hmod]

theorem count_of_isBlock {dadr : Nat} (hle : space.kept dadr ≤ (space.isBlock dadr).toNat)
    (hpos : 0 < space.kept dadr) : space.isBlock dadr = true := by
  cases hblock : space.isBlock dadr with
  | true => rfl
  | false =>
      rw [hblock, Bool.toNat_false] at hle
      omega

/-- A saved block is marked, and no other mark changes. -/
theorem saveToPool_marked {poolnum : Nat} {freeBlocks saved : List Nat} {corepool : Nat}
    (dadr : Nat) (hfits : space.Fits) (hperm : space.freeBlocks ~ freeBlocks ++ saved)
    (hsaved : ∀ dadr ∈ saved, poolFromDadr dadr = poolnum)
    (hbits : ∀ k, corepool.testBit k = true ↔
      ((space.bpools poolnum).getD emptyBpool).testBit k = true ∨
        ∃ dadr ∈ saved, dadr % (8 * BLOCKSIZE) = k) :
    (markedIn space.bpoolCount (Function.update space.bpools poolnum (some corepool))
        dadr).toNat =
      (space.marked dadr).toNat + saved.count dadr := by
  have hle := hfits.kept_le dadr
  have hcount : space.freeBlocks.count dadr = freeBlocks.count dadr + saved.count dadr := by
    rw [hperm.count_eq, List.count_append]
  by_cases hmem : dadr ∈ saved
  · have hpos := List.count_pos_iff.mpr hmem
    have hblock : space.isBlock dadr = true :=
      count_of_isBlock hle (by simp only [kept]; omega)
    rw [hblock, Bool.toNat_true, kept] at hle
    have hnew : markedIn space.bpoolCount
        (Function.update space.bpools poolnum (some corepool)) dadr = true := by
      simp only [isBlock, Bool.and_eq_true, hsaved dadr hmem] at hblock
      simp only [markedIn, hsaved dadr hmem, hblock.1, Bool.true_and, Function.update_self,
        Option.getD_some]
      exact (hbits _).mpr (.inr ⟨dadr, hmem, rfl⟩)
    rw [hnew, Bool.toNat_true]
    omega
  · rw [List.count_eq_zero.mpr hmem, Nat.add_zero]
    congr 1
    by_cases hpool : poolFromDadr dadr = poolnum
    · simp only [marked, markedIn, hpool, Function.update_self, Option.getD_some]
      congr 1
      rw [Bool.eq_iff_iff, hbits]
      refine or_iff_left ?_
      rintro ⟨other, hother, hmod⟩
      have hsame := poolFromDadr_inj ((hsaved other hother).trans hpool.symm) hmod
      exact hmem (hsame ▸ hother)
    · simp only [marked, markedIn, Function.update_of_ne hpool]

theorem Fits.saveToPool {env : Env} (poolnum margin : Nat) (hfits : space.Fits)
    (hsaves : env.saveFails = []) :
    space.Keeps (space.saveToPool env poolnum margin) ∧
      space.SavedTo (space.saveToPool env poolnum margin) := by
  obtain ⟨saved, hperm, hsaved, hbits⟩ := saveBlocks_spec poolnum margin [] space.freeBlocks
    ((space.bpools poolnum).getD emptyBpool)
  rw [List.nil_append] at hperm
  set result := saveBlocks poolnum margin [] space.freeBlocks
    ((space.bpools poolnum).getD emptyBpool) with hresult
  have hdef : space.saveToPool env poolnum margin =
      { space with
        freeBlocks := result.1
        bpools := Function.update space.bpools poolnum (some result.2)
        nextPool := if poolnum < space.nextPool then poolnum else space.nextPool } := by
    simp only [Space.saveToPool, ← hresult, writeBpool, hsaves, List.contains_nil,
      Bool.false_eq_true, if_false]
    split <;> rfl
  have hrange := hfits.inRange
  rw [hdef]
  refine ⟨⟨rfl, fun dadr => ?_, ?_, ?_⟩, _, _, _, _, _, rfl⟩
  · have hcount : space.freeBlocks.count dadr = result.1.count dadr + saved.count dadr := by
      rw [hperm.count_eq, List.count_append]
    have hle := hfits.kept_le dadr
    have hmark := saveToPool_marked dadr hfits hperm hsaved hbits
    simp only [kept, marked] at hle hmark ⊢
    change _ + (space.isBlock dadr).toNat = _ + (space.isBlock dadr).toNat
    omega
  · dsimp only
    split <;> omega
  · intro other hother
    by_cases hsame : other = poolnum
    · simp [hsame]
    · simpa [hsame] using hfits.readable other hother

theorem Fits.deallocationMove (hfits : space.Fits) :
    space.Keeps space.deallocationMove ∧ space.SavedTo space.deallocationMove := by
  refine ⟨⟨rfl, fun dadr => ?_, hfits.inRange, hfits.readable⟩, _, _, _, _, _, rfl⟩
  have hblock : space.deallocationMove.isBlock dadr = space.isBlock dadr := rfl
  rw [hblock]
  simp only [Space.deallocationMove, kept, marked, List.count_append, List.count_reverse,
    List.count_nil]
  omega

section Saving

variable {env : Env} (hsaves : env.saveFails = [])
include hsaves

theorem Fits.reduceLoop (fuel : Nat) (counts : List Nat) (hfits : space.Fits) :
    space.Keeps (reduceLoop env fuel counts space) ∧
      space.SavedTo (reduceLoop env fuel counts space) := by
  induction fuel generalizing counts space with
  | zero => exact ⟨hfits.refl, .refl space⟩
  | succ fuel ih =>
      simp only [Space.reduceLoop]
      split
      case isFalse => exact ⟨hfits.refl, .refl space⟩
      case isTrue =>
        split
        · exact ⟨hfits.refl, .refl space⟩
        case h_2 bestPos hbest =>
          obtain ⟨hkeeps, hframe⟩ := hfits.saveToPool bestPos FREE_LIMIT_DOWN hsaves
          obtain ⟨hrest, hrestFrame⟩ := ih (counts.set bestPos 0) (hfits.keeps hkeeps)
          exact ⟨hkeeps.trans hrest, hframe.trans hrestFrame⟩

theorem Fits.reduceFreeBlocks (hfits : space.Fits) :
    space.Keeps (space.reduceFreeBlocks env) ∧
      space.SavedTo (space.reduceFreeBlocks env) := by
  simp only [Space.reduceFreeBlocks]
  split
  · exact ⟨hfits.refl, .refl space⟩
  · exact hfits.reduceLoop hsaves _ _

theorem Fits.flushAndTime (hfits : space.Fits) :
    space.Keeps (space.flushAndTime env) ∧ space.SavedTo (space.flushAndTime env) := by
  obtain ⟨hreduced, hframe⟩ := hfits.reduceFreeBlocks hsaves
  have hmoved := (hfits.keeps hreduced).deallocationMove
  simp only [Space.flushAndTime]
  split
  · exact ⟨(hreduced.trans hmoved.1).withTime env.now,
      hframe.trans ⟨_, _, _, _, _, rfl⟩⟩
  · exact ⟨hreduced.trans hmoved.1, hframe.trans hmoved.2⟩

theorem Fits.extflush (unconditional : Bool) (hfits : space.Fits) :
    space.Keeps (space.extflush env unconditional) := by
  simp only [Space.extflush]
  split
  · exact hfits.refl
  split
  · exact hfits.refl
  have hnoted : ({ space with lastFilFlush := env.now } : Space).Fits :=
    ⟨hfits.kept_le, hfits.inRange, hfits.readable⟩
  have hreduced := (hnoted.reduceFreeBlocks hsaves).1
  exact (hfits.refl.withTime env.now).trans
    (hreduced.trans (hnoted.keeps hreduced).deallocationMove.1)

theorem Fits.closeLoop (fuel : Nat) (hfits : space.Fits) :
    space.Keeps (closeLoop env fuel space) := by
  induction fuel generalizing space with
  | zero => exact hfits.refl
  | succ fuel ih =>
      simp only [Space.closeLoop]
      split
      · exact hfits.refl
      case h_2 dadr rest hfree =>
        have hkeeps := (hfits.saveToPool (poolFromDadr dadr) 0 hsaves).1
        exact hkeeps.trans (ih (hfits.keeps hkeeps))

theorem Fits.closeBlockCache (hfits : space.Fits) :
    space.Keeps (space.closeBlockCache env) := by
  have hmoved := hfits.deallocationMove.1
  exact hmoved.trans ((hfits.keeps hmoved).closeLoop hsaves _)

end Saving

end Space

end Sql602.Disk
