import Sql602.Core.CoreHeap
import Sql602.Library.Layouts

namespace Sql602.Core

open Layout

/-! The blocks of the heap parts as lists of cells, which the tags in the memory agree
with. -/

structure Cell where
  owner : Nat
  units : Nat

namespace Cell

def len (cell : Cell) : Nat := 16 * cell.units

def isFree (cell : Cell) : Bool := decide (cell.owner = 0)

end Cell

/-- The smallest block. -/
def Platform.least (platform : Platform) : Nat := if 4 < platform.wordSize then 2 else 1

/-- The smallest block has room for its head, for the pointers to the next and to the
previous free block, and for the pointer at its end. -/
theorem Platform.least_room (platform : Platform) :
    platform.MEM_PREFIX_SIZE + 3 * platform.wordSize ≤ 16 * platform.least := by
  obtain hsize | hsize := platform.known <;>
    simp [MEM_PREFIX_SIZE, least, hsize]

theorem Platform.least_pos (platform : Platform) : 0 < platform.least := by
  rw [least]
  split <;> decide

theorem Platform.least_le (platform : Platform) : platform.least ≤ 2 := by
  rw [least]
  split <;> decide

namespace Heap

variable {heap heap' : Heap} {bl x size owner : Nat} {prevfree : Bool} {memblock : Memblock}

@[simp] theorem setBlock_block : (heap.setBlock bl memblock).block x =
    if x = bl then memblock else heap.block x :=
  Function.update_apply heap.block bl memblock x

@[simp] theorem setBlock_endPtr : (heap.setBlock bl memblock).endPtr = heap.endPtr := rfl

@[simp] theorem setBlock_freelist : (heap.setBlock bl memblock).freelist = heap.freelist := rfl

@[simp] theorem setBlock_parts : (heap.setBlock bl memblock).parts = heap.parts := rfl

@[simp] theorem setBlock_big : (heap.setBlock bl memblock).big = heap.big := rfl

@[simp] theorem setBlock_bytes : (heap.setBlock bl memblock).bytes = heap.bytes := rfl

@[simp] theorem setEndPtr_endPtr : (heap.setEndPtr bl size).endPtr x =
    if x = bl then size else heap.endPtr x :=
  Function.update_apply heap.endPtr bl size x

@[simp] theorem setEndPtr_block : (heap.setEndPtr bl size).block = heap.block := rfl

@[simp] theorem setEndPtr_freelist : (heap.setEndPtr bl size).freelist = heap.freelist := rfl

@[simp] theorem setEndPtr_parts : (heap.setEndPtr bl size).parts = heap.parts := rfl

@[simp] theorem setEndPtr_big : (heap.setEndPtr bl size).big = heap.big := rfl

@[simp] theorem setEndPtr_bytes : (heap.setEndPtr bl size).bytes = heap.bytes := rfl

@[simp] theorem chain_block : (heap.chain bl).block = heap.block := rfl

@[simp] theorem chain_endPtr : (heap.chain bl).endPtr = heap.endPtr := rfl

@[simp] theorem chain_freelist : (heap.chain bl).freelist = bl :: heap.freelist := rfl

@[simp] theorem chain_parts : (heap.chain bl).parts = heap.parts := rfl

@[simp] theorem chain_big : (heap.chain bl).big = heap.big := rfl

@[simp] theorem chain_bytes : (heap.chain bl).bytes = heap.bytes := rfl

@[simp] theorem unchain_block : (heap.unchain bl).block = heap.block := rfl

@[simp] theorem unchain_endPtr : (heap.unchain bl).endPtr = heap.endPtr := rfl

@[simp] theorem unchain_freelist : (heap.unchain bl).freelist = heap.freelist.erase bl := rfl

@[simp] theorem unchain_parts : (heap.unchain bl).parts = heap.parts := rfl

@[simp] theorem unchain_big : (heap.unchain bl).big = heap.big := rfl

@[simp] theorem unchain_bytes : (heap.unchain bl).bytes = heap.bytes := rfl

/-- Only the tags of one part differ. -/
structure Within (heap heap' : Heap) (part : Nat × Nat) : Prop where
  parts : heap'.parts = heap.parts
  big : heap'.big = heap.big
  block : ∀ x, x < part.1 ∨ part.2 < x → heap'.block x = heap.block x
  endPtr : ∀ x, x ≤ part.1 ∨ part.2 < x → heap'.endPtr x = heap.endPtr x

end Heap

variable {platform : Platform} {heap heap' : Heap} {start stop fr units : Nat}
  {mark last : Bool} {cells before after new : List Cell} {part other : Nat × Nat}

/-- The tag of a block in use or of a free one; no block behind a free one is free. -/
structure Tagged (platform : Platform) (heap : Heap) (a : Nat) (prevfree : Bool)
    (cell : Cell) : Prop where
  block : heap.block a = ⟨prevfree, .dc, cell.owner, cell.units⟩
  room : platform.least ≤ cell.units
  single : cell.owner = 0 → prevfree = false ∧ heap.endPtr (a + cell.len) = a

def Tags (platform : Platform) (heap : Heap) (start : Nat) (mark : Bool) (cells : List Cell)
    (stop : Nat) (last : Bool) : Prop :=
  Laid Cell.len Cell.isFree (Tagged platform heap) start mark cells stop last

/-- The cells up to the padding at the end of the part. -/
def TagsToPadding (platform : Platform) (heap : Heap) (start : Nat) (mark : Bool)
    (cells : List Cell) (stop : Nat) : Prop :=
  ∃ last, Tags platform heap start mark cells stop last ∧
    heap.block stop = ⟨last, .dc, 0xff, 1⟩

def TagsOfPart (platform : Platform) (heap : Heap) (part : Nat × Nat) (cells : List Cell) :
    Prop :=
  TagsToPadding platform heap part.1 false cells part.2

theorem Tags.frame (htags : Tags platform heap start mark cells stop last)
    (hblock : ∀ x, start ≤ x → x < stop → heap'.block x = heap.block x)
    (hend : ∀ x, start < x → x ≤ stop → heap'.endPtr x = heap.endPtr x) :
    Tags platform heap' start mark cells stop last := by
  have hstop := Laid.stop_eq htags
  refine Laid.congr htags fun x s cell hstart hcell htagged => ?_
  have hpos : 0 < cell.units := Nat.lt_of_lt_of_le platform.least_pos htagged.room
  have hlen : cell.len = 16 * cell.units := rfl
  refine ⟨?_, htagged.room, fun hfree => ⟨(htagged.single hfree).1, ?_⟩⟩
  · rw [hblock x hstart (by omega)]
    exact htagged.block
  · rw [hend _ (by omega) (by omega)]
    exact (htagged.single hfree).2

theorem TagsToPadding.frame (htags : TagsToPadding platform heap start mark cells stop)
    (hblock : ∀ x, start ≤ x → x ≤ stop → heap'.block x = heap.block x)
    (hend : ∀ x, start < x → x ≤ stop → heap'.endPtr x = heap.endPtr x) :
    TagsToPadding platform heap' start mark cells stop := by
  obtain ⟨last, htags, hpadding⟩ := htags
  have hstop := Laid.stop_eq htags
  refine ⟨last, htags.frame (fun x hx hx' => hblock x hx (by omega)) hend, ?_⟩
  rw [hblock stop (by omega) (by omega)]
  exact hpadding

theorem TagsToPadding.le (htags : TagsToPadding platform heap start mark cells stop) :
    start + total Cell.len cells = stop := by
  obtain ⟨last, htags, -⟩ := htags
  exact (Laid.stop_eq htags).symm

/-- The block at the beginning is told whether the one before it is free. -/
theorem TagsToPadding.retag (htags : TagsToPadding platform heap start mark cells stop)
    (hblock : heap'.block start = { heap.block start with prevfree := last })
    (hrest : ∀ x, start < x → x ≤ stop → heap'.block x = heap.block x)
    (hend : ∀ x, start < x → x ≤ stop → heap'.endPtr x = heap.endPtr x)
    (hused : last = true → (heap.block start).owner ≠ 0) :
    TagsToPadding platform heap' start last cells stop := by
  obtain ⟨final, htags, hpadding⟩ := htags
  cases cells with
  | nil =>
      obtain ⟨rfl, rfl⟩ := htags
      refine ⟨last, ⟨rfl, rfl⟩, ?_⟩
      rw [hblock, hpadding]
  | cons cell cells =>
      obtain ⟨htagged, htags⟩ := htags
      have hpos : 0 < cell.units := Nat.lt_of_lt_of_le platform.least_pos htagged.room
      have hlen : cell.len = 16 * cell.units := rfl
      have hstop := Laid.stop_eq htags
      have hcells : Tags platform heap' (start + cell.len) cell.isFree cells stop final :=
        Tags.frame htags (fun x hx hx' => hrest x (by omega) (by omega))
          fun x hx hx' => hend x (by omega) hx'
      refine ⟨final, ⟨⟨?_, htagged.room, fun hfree => ⟨?_, ?_⟩⟩, hcells⟩, ?_⟩
      · rw [hblock, htagged.block]
      · rw [htagged.block] at hused
        exact Bool.eq_false_iff.mpr fun hlast => hused hlast hfree
      · rw [hend _ (by omega) (by omega)]
        exact (htagged.single hfree).2
      · rw [hrest stop (by omega) (Nat.le_refl stop)]
        exact hpadding

theorem tagsToPadding_append (hbefore : Tags platform heap start mark before fr last)
    (hafter : TagsToPadding platform heap fr last after stop) :
    TagsToPadding platform heap start mark (before ++ after) stop := by
  obtain ⟨final, htags, hpadding⟩ := hafter
  obtain rfl := Laid.stop_eq hbefore
  exact ⟨final, laid_append.mpr ⟨last, hbefore, htags⟩, hpadding⟩

theorem tagsToPadding_cons {cell : Cell} (htagged : Tagged platform heap start mark cell)
    (hcells : TagsToPadding platform heap (start + cell.len) cell.isFree cells stop) :
    TagsToPadding platform heap start mark (cell :: cells) stop := by
  obtain ⟨final, htags, hpadding⟩ := hcells
  exact ⟨final, ⟨htagged, htags⟩, hpadding⟩

theorem TagsToPadding.split
    (htags : TagsToPadding platform heap start mark (before ++ after) stop) :
    ∃ last, Tags platform heap start mark before (start + total Cell.len before) last ∧
      TagsToPadding platform heap (start + total Cell.len before) last after stop := by
  obtain ⟨final, htags, hpadding⟩ := htags
  obtain ⟨last, hbefore, hafter⟩ := laid_append.mp htags
  exact ⟨last, hbefore, final, hafter, hpadding⟩

/-! The memory that the heap has from the system. -/

structure Spaces (heap : Heap) : Prop where
  apart : ∀ p ∈ heap.parts, ∀ q ∈ heap.parts, p ≠ q → p.2 + 16 ≤ q.1 ∨ q.2 + 16 ≤ p.1
  short : ∀ p ∈ heap.parts, p.2 ≤ p.1 + 16 * 0xfffd
  bigOutside : ∀ b n, heap.big b = some n → ∀ p ∈ heap.parts, b + n ≤ p.1 ∨ p.2 + 16 ≤ b
  bigApart : ∀ b n, heap.big b = some n → ∀ c m, heap.big c = some m → b ≠ c →
    b + n ≤ c ∨ c + m ≤ b
  bigPos : ∀ b n, heap.big b = some n → 0 < n
  bigTag : ∀ b n, heap.big b = some n →
    (heap.block b).dcmark = .big ∧ (heap.block b).owner ≠ 0 ∧
      (heap.block b).size = n / 2 ^ 14 % 2 ^ 16
  bigUnits : ∀ b n, heap.big b = some n → n % 2 ^ 14 = 0

theorem Spaces.within (hspaces : Spaces heap) (hpart : part ∈ heap.parts)
    (hwithin : heap.Within heap' part) : Spaces heap' := by
  constructor
  · rw [hwithin.parts]
    exact hspaces.apart
  · rw [hwithin.parts]
    exact hspaces.short
  · rw [hwithin.parts, hwithin.big]
    exact hspaces.bigOutside
  · rw [hwithin.big]
    exact hspaces.bigApart
  · rw [hwithin.big]
    exact hspaces.bigPos
  · rw [hwithin.big]
    intro b n hbig
    have hpos := hspaces.bigPos b n hbig
    have houtside := hspaces.bigOutside b n hbig part hpart
    rw [hwithin.block b (by omega)]
    exact hspaces.bigTag b n hbig
  · rw [hwithin.big]
    exact hspaces.bigUnits

theorem TagsOfPart.within (htags : TagsOfPart platform heap other cells)
    (hwithin : heap.Within heap' part) (hlaid : part.1 ≤ part.2)
    (happart : part.2 + 16 ≤ other.1 ∨ other.2 + 16 ≤ part.1) :
    TagsOfPart platform heap' other cells := by
  refine TagsToPadding.frame htags (fun x hx hx' => hwithin.block x ?_)
    fun x hx hx' => hwithin.endPtr x ?_
  · omega
  · omega

end Sql602.Core
