import Sql602.Core.BlockTags
import Mathlib.Data.List.Nodup

namespace Sql602.Core

open Layout

/-! The heap between two calls, and inside of a call, when one block is neither in use nor
in the list of free blocks. -/

def FreeAt (start : Nat) (cells : List Cell) (a : Nat) : Prop :=
  ∃ units, At Cell.len start cells a ⟨0, units⟩

structure Kept (platform : Platform) (heap : Heap) (cells : Nat → List Cell) : Prop where
  laid : ∀ p ∈ heap.parts, TagsOfPart platform heap p (cells p.1)
  listed : ∀ a, a ∈ heap.freelist ↔ ∃ p ∈ heap.parts, FreeAt p.1 (cells p.1) a
  nodup : heap.freelist.Nodup
  spaces : Spaces heap

/-- The mark tells the block behind the loose one that a free block precedes it. -/
structure Loose (platform : Platform) (heap : Heap) (cells : Nat → List Cell)
    (part : Nat × Nat) (before : List Cell) (fr units : Nat) (mark : Bool)
    (after : List Cell) : Prop where
  home : part ∈ heap.parts
  others : ∀ p ∈ heap.parts, p ≠ part → TagsOfPart platform heap p (cells p.1)
  front : Tags platform heap part.1 false before fr false
  tag : ∃ owner, heap.block fr = ⟨false, .dc, owner, units⟩
  room : platform.least ≤ units
  back : TagsToPadding platform heap (fr + 16 * units) mark after part.2
  listed : ∀ a, a ∈ heap.freelist ↔
    (FreeAt part.1 before a ∨ FreeAt (fr + 16 * units) after a) ∨
      ∃ p ∈ heap.parts, p ≠ part ∧ FreeAt p.1 (cells p.1) a
  nodup : heap.freelist.Nodup
  spaces : Spaces heap

variable {platform : Platform} {heap heap' : Heap} {cells : Nat → List Cell}
  {part other : Nat × Nat} {start a fr units size owner : Nat} {mark : Bool}
  {before after first rest new : List Cell} {cell : Cell}

@[simp] theorem freeAt_nil : ¬ FreeAt start [] a := fun hfree => hfree.elim fun _ hat => hat

theorem freeAt_append : FreeAt start (first ++ rest) a ↔
    FreeAt start first a ∨ FreeAt (start + total Cell.len first) rest a := by
  simp only [FreeAt, at_append, exists_or]

theorem freeAt_cons : FreeAt start (cell :: rest) a ↔
    (a = start ∧ cell.owner = 0) ∨ FreeAt (start + cell.len) rest a := by
  simp only [FreeAt, At, exists_or]
  refine or_congr_left ⟨?_, ?_⟩
  · rintro ⟨units, rfl, rfl⟩
    exact ⟨rfl, rfl⟩
  · rintro ⟨rfl, hfree⟩
    exact ⟨cell.units, rfl, by rw [← hfree]⟩

theorem FreeAt.range (hfree : FreeAt start first a) :
    start ≤ a ∧ a ≤ start + total Cell.len first := by
  obtain ⟨units, hat⟩ := hfree
  have := hat.range
  omega

/-- A free block is not at the end of its cells. -/
theorem FreeAt.lt {last : Bool} (htags : Tags platform heap start mark first fr last)
    (hfree : FreeAt start first a) : a < fr := by
  obtain ⟨units, hat⟩ := hfree
  obtain ⟨prevfree, htagged⟩ := Laid.holds_at htags hat
  have hrange := hat.range
  have hstop := Laid.stop_eq htags
  have hpos : 0 < units := Nat.lt_of_lt_of_le platform.least_pos htagged.room
  have hlen : Cell.len ⟨0, units⟩ = 16 * units := rfl
  omega

theorem Kept.part_le (hkept : Kept platform heap cells) (hpart : part ∈ heap.parts) :
    part.1 + total Cell.len (cells part.1) = part.2 :=
  TagsToPadding.le (hkept.laid part hpart)

theorem Kept.mem_freelist (hkept : Kept platform heap cells) (hpart : part ∈ heap.parts) :
    a ∈ heap.freelist ↔ FreeAt part.1 (cells part.1) a ∨
      ∃ p ∈ heap.parts, p ≠ part ∧ FreeAt p.1 (cells p.1) a := by
  rw [hkept.listed]
  constructor
  · rintro ⟨p, hp, hfree⟩
    cases decEq p part with
    | isTrue heq =>
        rw [heq] at hfree
        exact Or.inl hfree
    | isFalse hne => exact Or.inr ⟨p, hp, hne, hfree⟩
  · rintro (hfree | ⟨p, hp, -, hfree⟩)
    · exact ⟨part, hpart, hfree⟩
    · exact ⟨p, hp, hfree⟩

/-- The tags before a cell, of the cell, and behind it. -/
theorem Kept.tags_at (hkept : Kept platform heap cells) (hpart : part ∈ heap.parts)
    (hcells : cells part.1 = before ++ cell :: after)
    (hfr : fr = part.1 + total Cell.len before) :
    ∃ prevfree, Tags platform heap part.1 false before fr prevfree ∧
      Tagged platform heap fr prevfree cell ∧
      TagsToPadding platform heap (fr + cell.len) cell.isFree after part.2 := by
  have hlaid := hkept.laid part hpart
  rw [hcells] at hlaid
  obtain ⟨prevfree, hbefore, final, ⟨htagged, hafter⟩, hpadding⟩ := hlaid.split
  subst hfr
  exact ⟨prevfree, hbefore, htagged, final, hafter, hpadding⟩

/-- A block in a part is not in the other parts. -/
theorem Kept.not_free_other (hkept : Kept platform heap cells) (hpart : part ∈ heap.parts)
    (hother : other ∈ heap.parts) (hne : other ≠ part) (hlow : part.1 ≤ a)
    (hhigh : a ≤ part.2) : ¬ FreeAt other.1 (cells other.1) a := by
  intro hfree
  have hrange := hfree.range
  have hle := hkept.part_le hother
  have := hkept.spaces.apart other hother part hpart hne
  omega

/-- A block in use becomes loose where a used block precedes it. -/
theorem Kept.loosen (hkept : Kept platform heap cells) (hpart : part ∈ heap.parts)
    (hcells : cells part.1 = before ++ cell :: after)
    (hfr : fr = part.1 + total Cell.len before) (hused : cell.owner ≠ 0)
    (hprev : (heap.block fr).prevfree = false) :
    Loose platform heap cells part before fr cell.units false after := by
  obtain ⟨prevfree, hbefore, htagged, hafter⟩ := hkept.tags_at hpart hcells hfr
  obtain rfl : prevfree = false := by
    rw [htagged.block] at hprev
    exact hprev
  rw [Cell.isFree, decide_eq_false hused] at hafter
  refine ⟨hpart, fun p hp _ => hkept.laid p hp, hbefore, ⟨cell.owner, htagged.block⟩,
    htagged.room, hafter, fun a => ?_, hkept.nodup, hkept.spaces⟩
  rw [hkept.mem_freelist hpart, hcells, freeAt_append, freeAt_cons, ← hfr]
  have hnot : ¬ (a = fr ∧ cell.owner = 0) := fun hboth => hused hboth.2
  rw [or_iff_right hnot]
  exact Iff.rfl

/-- A free block becomes loose when it leaves the list. -/
theorem Kept.unchain (hkept : Kept platform heap cells) (hpart : part ∈ heap.parts)
    (hcells : cells part.1 = before ++ ⟨0, units⟩ :: after)
    (hfr : fr = part.1 + total Cell.len before) :
    Loose platform (heap.unchain fr) cells part before fr units true after := by
  obtain ⟨prevfree, hbefore, htagged, hafter⟩ := hkept.tags_at hpart hcells hfr
  obtain ⟨rfl, hend⟩ := htagged.single rfl
  have hpos : 0 < units := Nat.lt_of_lt_of_le platform.least_pos htagged.room
  have hlen : Cell.len ⟨0, units⟩ = 16 * units := rfl
  have hsame : heap.Within (heap.unchain fr) part :=
    ⟨rfl, rfl, fun _ _ => rfl, fun _ _ => rfl⟩
  refine ⟨hpart, fun p hp _ => TagsToPadding.frame (hkept.laid p hp) (fun _ _ _ => rfl)
      fun _ _ _ => rfl,
    hbefore.frame (fun _ _ _ => rfl) fun _ _ _ => rfl, ⟨0, htagged.block⟩, htagged.room,
    hafter.frame (fun _ _ _ => rfl) fun _ _ _ => rfl, fun a => ?_, hkept.nodup.erase fr,
    hkept.spaces.within hpart hsame⟩
  rw [Heap.unchain_freelist, hkept.nodup.mem_erase_iff, hkept.mem_freelist hpart, hcells,
    freeAt_append, freeAt_cons, ← hfr, hlen]
  constructor
  · rintro ⟨hne, (hfree | ⟨rfl, -⟩ | hfree) | hother⟩
    · exact Or.inl (Or.inl hfree)
    · exact absurd rfl hne
    · exact Or.inl (Or.inr hfree)
    · exact Or.inr hother
  · rintro ((hfree | hfree) | ⟨p, hp, hne, hfree⟩)
    · exact ⟨Nat.ne_of_lt (hfree.lt hbefore), Or.inl (Or.inl hfree)⟩
    · have hrange := hfree.range
      exact ⟨by omega, Or.inl (Or.inr (Or.inr hfree))⟩
    · refine ⟨?_, Or.inr ⟨p, hp, hne, hfree⟩⟩
      rintro rfl
      have hle := hafter.le
      exact hkept.not_free_other hpart hp hne (by omega) (by omega) hfree

/-- Where a free block precedes the loose one, it is at the end of the cells before. -/
theorem free_before (htags : Tags platform heap start false before fr true) :
    ∃ first units, before = first ++ [⟨0, units⟩] ∧
      Tags platform heap start false first (heap.endPtr fr) false ∧
      heap.block (heap.endPtr fr) = ⟨false, .dc, 0, units⟩ ∧
      heap.endPtr fr + 16 * units = fr := by
  obtain rfl | ⟨first, cell, rfl⟩ := List.eq_nil_or_concat' before
  · exact absurd htags.2 Bool.false_ne_true
  · obtain ⟨middle, hfirst, htagged, hend, hfree⟩ := laid_append.mp htags
    have hzero : cell.owner = 0 := of_decide_eq_true hfree
    obtain ⟨hmiddle, hptr⟩ := htagged.single hzero
    rw [hend] at hptr
    subst hmiddle
    rw [hptr]
    refine ⟨first, cell.units, ?_, hfirst, ?_, hend⟩
    · rw [← hzero]
    · rw [htagged.block, hzero]

namespace Loose

variable (hloose : Loose platform heap cells part before fr units mark after)

include hloose

theorem front_eq : part.1 + total Cell.len before = fr :=
  (Laid.stop_eq hloose.front).symm

theorem back_eq : fr + 16 * units + total Cell.len after = part.2 := hloose.back.le

theorem units_pos : 0 < units := Nat.lt_of_lt_of_le platform.least_pos hloose.room

theorem units_lt : units < 2 ^ 16 := by
  have hfront := hloose.front_eq
  have hback := hloose.back_eq
  have hshort := hloose.spaces.short part hloose.home
  omega

theorem block_size : (heap.block fr).size = units := by
  obtain ⟨owner, htag⟩ := hloose.tag
  rw [htag]

theorem blockEnd_eq : heap.blockEnd fr = fr + 16 * units := by
  rw [Heap.blockEnd, Heap.width, hloose.block_size]

/-- The loose block has become a part of new cells. -/
theorem close (hwithin : heap.Within heap' part)
    (hlaid : TagsOfPart platform heap' part new)
    (hlisted : ∀ a, a ∈ heap'.freelist ↔ FreeAt part.1 new a ∨
      ∃ p ∈ heap.parts, p ≠ part ∧ FreeAt p.1 (cells p.1) a)
    (hnodup : heap'.freelist.Nodup) :
    Kept platform heap' (Function.update cells part.1 new) := by
  have hfront := hloose.front_eq
  have hback := hloose.back_eq
  -- The parts are known by their first blocks.
  have hkey : ∀ p ∈ heap.parts, p ≠ part → p.1 ≠ part.1 := by
    intro p hp hne heq
    have hle := (hloose.others p hp hne).le
    have := hloose.spaces.apart p hp part hloose.home hne
    omega
  have hold : ∀ p ∈ heap.parts, p ≠ part → Function.update cells part.1 new p.1 = cells p.1 :=
    fun p hp hne => Function.update_of_ne (hkey p hp hne) new cells
  constructor
  · intro p hp
    rw [hwithin.parts] at hp
    cases decEq p part with
    | isTrue heq =>
        rw [heq, Function.update_self]
        exact hlaid
    | isFalse hne =>
        rw [hold p hp hne]
        refine (hloose.others p hp hne).within hwithin (by omega) ?_
        exact hloose.spaces.apart part hloose.home p hp (Ne.symm hne)
  · intro a
    rw [hlisted, hwithin.parts]
    constructor
    · rintro (hfree | ⟨p, hp, hne, hfree⟩)
      · refine ⟨part, hloose.home, ?_⟩
        rw [Function.update_self]
        exact hfree
      · refine ⟨p, hp, ?_⟩
        rw [hold p hp hne]
        exact hfree
    · rintro ⟨p, hp, hfree⟩
      cases decEq p part with
      | isTrue heq =>
          rw [heq, Function.update_self] at hfree
          exact Or.inl hfree
      | isFalse hne =>
          rw [hold p hp hne] at hfree
          exact Or.inr ⟨p, hp, hne, hfree⟩
  · exact hnodup
  · exact hloose.spaces.within hloose.home hwithin

end Loose

end Sql602.Core
