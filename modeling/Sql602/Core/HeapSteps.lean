import Sql602.Core.HeapStages
import Mathlib.Tactic.Tauto

namespace Sql602.Core

open Layout

variable {platform : Platform} {heap heap' : Heap} {cells : Nat → List Cell}
  {part : Nat × Nat} {fr bl units size owner : Nat} {mark : Bool} {before after : List Cell}
  {cell : Cell}

/-! What the steps of an allocation or of a release do to the loose block. -/

namespace Loose

/-- A change behind the first tag of the loose block leaves the blocks before it. -/
theorem front_frame (hloose : Loose platform heap cells part before fr units mark after)
    (hblock : ∀ x, x < fr → heap'.block x = heap.block x)
    (hend : ∀ x, x ≤ fr → heap'.endPtr x = heap.endPtr x) :
    Tags platform heap' part.1 false before fr false :=
  hloose.front.frame (fun x _ hx => hblock x hx) fun x _ hx => hend x hx

theorem others_frame (hloose : Loose platform heap cells part before fr units mark after)
    (hwithin : heap.Within heap' part) :
    ∀ p ∈ heap'.parts, p ≠ part → TagsOfPart platform heap' p (cells p.1) := by
  intro p hp hne
  rw [hwithin.parts] at hp
  have hfront := hloose.front_eq
  have hback := hloose.back_eq
  refine (hloose.others p hp hne).within hwithin (by omega) ?_
  exact hloose.spaces.apart part hloose.home p hp (Ne.symm hne)

/-- Nothing inside of the loose block is in the list. -/
theorem not_listed {a : Nat}
    (hloose : Loose platform heap cells part before fr units mark after) (hlow : fr ≤ a)
    (hhigh : a < fr + 16 * units) : a ∉ heap.freelist := by
  rw [hloose.listed]
  rintro ((hfree | hfree) | ⟨p, hp, hne, hfree⟩)
  · have := hfree.lt hloose.front
    omega
  · have hrange := hfree.range
    omega
  · have hrange := hfree.range
    have hfront := hloose.front_eq
    have hback := hloose.back_eq
    have hle := (hloose.others p hp hne).le
    have := hloose.spaces.apart p hp part hloose.home hne
    omega

/-- The block behind the loose one is told what the mark says. -/
theorem setMark (hloose : Loose platform heap cells part before fr units mark after)
    (hused : mark = false → (heap.block (fr + 16 * units)).owner ≠ 0) :
    Loose platform (heap.setPrevfree (fr + 16 * units) !mark) cells part before fr units
      (!mark) after := by
  have hfront := hloose.front_eq
  have hback := hloose.back_eq
  have hpos := hloose.units_pos
  obtain ⟨owner, htag⟩ := hloose.tag
  have hblock : ∀ x, x ≠ fr + 16 * units →
      (heap.setPrevfree (fr + 16 * units) !mark).block x = heap.block x := by
    intro x hx
    rw [Heap.setPrevfree, Heap.setBlock_block, if_neg hx]
  have hwithin : heap.Within (heap.setPrevfree (fr + 16 * units) !mark) part :=
    ⟨rfl, rfl, fun x hx => hblock x (by omega), fun _ _ => rfl⟩
  refine ⟨hloose.home, hloose.others_frame hwithin,
    hloose.front_frame (fun x hx => hblock x (by omega)) fun _ _ => rfl, ⟨owner, ?_⟩,
    hloose.room, ?_, hloose.listed, hloose.nodup, hloose.spaces.within hloose.home hwithin⟩
  · rw [hblock fr (by omega)]
    exact htag
  · refine hloose.back.retag ?_ (fun x hx _ => hblock x (by omega)) (fun _ _ _ => rfl) ?_
    · rw [Heap.setPrevfree, Heap.setBlock_block, if_pos rfl]
    · intro hmark
      exact hused (Bool.not_eq_true' mark ▸ hmark)

/-- The block behind the loose one is joined to it, and is in the list no more. -/
theorem joinCell {list : List Nat} {rest : List Cell}
    (hloose : Loose platform heap cells part before fr units mark (cell :: rest))
    (hlist : ∀ a, a ∈ list ↔ a ≠ fr + 16 * units ∧ a ∈ heap.freelist) (hnodup : list.Nodup) :
    Loose platform { heap.setSize fr (units + cell.units) with freelist := list } cells part
      before fr (units + cell.units) cell.isFree rest := by
  have hfront := hloose.front_eq
  have hback := hloose.back_eq
  have hpos := hloose.units_pos
  have hshort := hloose.spaces.short part hloose.home
  obtain ⟨owner, htag⟩ := hloose.tag
  obtain ⟨final, ⟨htagged, htags⟩, hpadding⟩ := hloose.back
  have hlen : cell.len = 16 * cell.units := rfl
  have hmore : 0 < cell.units := Nat.lt_of_lt_of_le platform.least_pos htagged.room
  rw [total_cons, hlen] at hback
  have hmod : (units + cell.units) % 2 ^ 16 = units + cell.units := Nat.mod_eq_of_lt (by omega)
  have hblock : ∀ x, x ≠ fr →
      (heap.setSize fr (units + cell.units)).block x = heap.block x := by
    intro x hx
    rw [Heap.setSize, Heap.setBlock_block, if_neg hx]
  have hwithin : heap.Within { heap.setSize fr (units + cell.units) with freelist := list }
      part := ⟨rfl, rfl, fun x hx => hblock x (by omega), fun _ _ => rfl⟩
  have hsum : fr + 16 * (units + cell.units) = fr + 16 * units + 16 * cell.units := by omega
  have hrest : TagsToPadding platform heap (fr + 16 * units + 16 * cell.units) cell.isFree rest
      part.2 := ⟨final, htags, hpadding⟩
  refine ⟨hloose.home, hloose.others_frame hwithin,
    hloose.front_frame (fun x hx => hblock x (by omega)) fun _ _ => rfl, ⟨owner, ?_⟩,
    Nat.le_trans hloose.room (Nat.le_add_right units cell.units), ?_, fun a => ?_, hnodup,
    hloose.spaces.within hloose.home hwithin⟩
  · show (heap.setSize fr (units + cell.units)).block fr = _
    rw [Heap.setSize, Heap.setBlock_block, if_pos rfl, htag, hmod]
  · rw [hsum]
    exact hrest.frame (fun x hx _ => hblock x (by omega)) fun _ _ _ => rfl
  · show a ∈ list ↔ _
    rw [hlist, hloose.listed, freeAt_cons, hsum, hlen]
    constructor
    · rintro ⟨hne, (hfree | ⟨rfl, -⟩ | hfree) | hother⟩
      · exact Or.inl (Or.inl hfree)
      · exact absurd rfl hne
      · exact Or.inl (Or.inr hfree)
      · exact Or.inr hother
    · rintro ((hfree | hfree) | ⟨p, hp, hne, hfree⟩)
      · have hlt := hfree.lt hloose.front
        exact ⟨by omega, Or.inl (Or.inl hfree)⟩
      · have hrange := hfree.range
        exact ⟨by omega, Or.inl (Or.inr (Or.inr hfree))⟩
      · refine ⟨?_, Or.inr ⟨p, hp, hne, hfree⟩⟩
        have hrange := hfree.range
        have hle := (hloose.others p hp hne).le
        have := hloose.spaces.apart p hp part hloose.home hne
        omega

/-- A free block behind the loose one is joined to it. -/
theorem join {more : Nat} {rest : List Cell}
    (hloose : Loose platform heap cells part before fr units mark (⟨0, more⟩ :: rest)) :
    Loose platform ((heap.setSize fr (units + more)).unchain (fr + 16 * units)) cells part before
      fr (units + more) true rest :=
  hloose.joinCell (fun _ => hloose.nodup.mem_erase_iff) (hloose.nodup.erase _)

/-- A block in use behind the loose one is joined to it. -/
theorem joinUsed {rest : List Cell}
    (hloose : Loose platform heap cells part before fr units mark (cell :: rest))
    (hused : cell.owner ≠ 0) :
    Loose platform (heap.setSize fr (units + cell.units)) cells part before fr
      (units + cell.units) false rest := by
  have hfront := hloose.front_eq
  have hback := hloose.back_eq
  have hpos := hloose.units_pos
  obtain ⟨final, ⟨htagged, htags⟩, hpadding⟩ := hloose.back
  have hlen : cell.len = 16 * cell.units := rfl
  have hmore : 0 < cell.units := Nat.lt_of_lt_of_le platform.least_pos htagged.room
  have hnot : fr + 16 * units ∉ heap.freelist := by
    rw [hloose.listed, freeAt_cons]
    rintro ((hfree | ⟨-, hfree⟩ | hfree) | ⟨p, hp, hne, hfree⟩)
    · have hlt := hfree.lt hloose.front
      omega
    · exact hused hfree
    · have hrange := hfree.range
      omega
    · have hrange := hfree.range
      have hle := (hloose.others p hp hne).le
      have := hloose.spaces.apart p hp part hloose.home hne
      omega
  have hmark : cell.isFree = false := decide_eq_false hused
  rw [← hmark]
  refine hloose.joinCell (fun a => ⟨fun hmem => ⟨?_, hmem⟩, And.right⟩) hloose.nodup
  rintro rfl
  exact hnot hmem

/-- The loose block is joined with the free one behind it, or that one is told. -/
theorem joinNext (hloose : Loose platform heap cells part before fr units false after) :
    ∃ joined rest, Loose platform (heap.joinNext fr) cells part before fr joined true rest ∧
      (after = rest ∧ units = joined ∨
        ∃ more, after = ⟨0, more⟩ :: rest ∧ joined = units + more) := by
  rw [Heap.joinNext, hloose.blockEnd_eq, hloose.block_size]
  split
  · next hfree =>
      obtain ⟨final, htags, hpadding⟩ := hloose.back
      cases after with
      | nil =>
          rw [htags.1, hpadding] at hfree
          cases hfree
      | cons cell rest =>
          obtain ⟨owner, more⟩ := cell
          have htag := htags.1.block
          rw [htag] at hfree ⊢
          obtain rfl : owner = 0 := hfree
          exact ⟨units + more, rest, hloose.join, Or.inr ⟨more, rfl, rfl⟩⟩
  · next hused =>
      exact ⟨units, after, hloose.setMark fun _ => hused, Or.inl ⟨rfl, rfl⟩⟩

/-- The loose block goes to the list of free blocks. -/
theorem release (hloose : Loose platform heap cells part before fr units true after) :
    Kept platform (((heap.chain fr).setOwner fr 0).setEndPtr (fr + 16 * units) fr)
      (Function.update cells part.1 (before ++ ⟨0, units⟩ :: after)) := by
  have hfront := hloose.front_eq
  have hback := hloose.back_eq
  have hpos := hloose.units_pos
  obtain ⟨owner, htag⟩ := hloose.tag
  have hblock : ∀ x, x ≠ fr → (((heap.chain fr).setOwner fr 0).setEndPtr (fr + 16 * units)
      fr).block x = heap.block x := by
    intro x hx
    rw [Heap.setEndPtr_block, Heap.setOwner, Heap.setBlock_block, if_neg hx, Heap.chain_block]
  have hend : ∀ x, x ≠ fr + 16 * units → (((heap.chain fr).setOwner fr 0).setEndPtr
      (fr + 16 * units) fr).endPtr x = heap.endPtr x := by
    intro x hx
    rw [Heap.setEndPtr_endPtr, if_neg hx]
    rfl
  have hlen : Cell.len ⟨0, units⟩ = 16 * units := rfl
  refine hloose.close ⟨rfl, rfl, fun x hx => hblock x (by omega), fun x hx => hend x (by omega)⟩
    ?_ (fun a => ?_) ?_
  · refine tagsToPadding_append (hloose.front_frame (fun x hx => hblock x (by omega))
      fun x hx => hend x (by omega)) (tagsToPadding_cons ⟨?_, hloose.room, fun _ => ⟨rfl, ?_⟩⟩ ?_)
    · rw [Heap.setEndPtr_block, Heap.setOwner, Heap.setBlock_block, if_pos rfl,
        Heap.chain_block, htag]
    · rw [hlen, Heap.setEndPtr_endPtr, if_pos rfl]
    · exact hloose.back.frame (fun x hx _ => hblock x (by omega)) fun x hx _ => hend x (by omega)
  · show a ∈ fr :: heap.freelist ↔ _
    rw [List.mem_cons, hloose.listed, freeAt_append, freeAt_cons, hfront, hlen]
    grind
  · show (fr :: heap.freelist).Nodup
    exact List.nodup_cons.mpr ⟨hloose.not_listed (Nat.le_refl fr) (by omega), hloose.nodup⟩

/-- The loose block goes into use as a whole. -/
theorem use (hloose : Loose platform heap cells part before fr units false after)
    (howner : owner ≠ 0) :
    Kept platform (heap.setOwner fr owner)
      (Function.update cells part.1 (before ++ ⟨owner, units⟩ :: after)) := by
  have hfront := hloose.front_eq
  have hback := hloose.back_eq
  have hpos := hloose.units_pos
  obtain ⟨old, htag⟩ := hloose.tag
  have hblock : ∀ x, x ≠ fr → (heap.setOwner fr owner).block x = heap.block x := by
    intro x hx
    rw [Heap.setOwner, Heap.setBlock_block, if_neg hx]
  have hlen : Cell.len ⟨owner, units⟩ = 16 * units := rfl
  have hmark : Cell.isFree ⟨owner, units⟩ = false := decide_eq_false howner
  refine hloose.close ⟨rfl, rfl, fun x hx => hblock x (by omega), fun _ _ => rfl⟩
    ?_ (fun a => ?_) hloose.nodup
  · refine tagsToPadding_append (hloose.front_frame (fun x hx => hblock x (by omega))
      fun _ _ => rfl)
      (tagsToPadding_cons ⟨?_, hloose.room, fun hfree => absurd hfree howner⟩ ?_)
    · rw [Heap.setOwner, Heap.setBlock_block, if_pos rfl, htag]
    · rw [hmark]
      exact hloose.back.frame (fun x hx _ => hblock x (by omega)) fun _ _ _ => rfl
  · show a ∈ heap.freelist ↔ _
    rw [hloose.listed, freeAt_append, freeAt_cons, hfront, hlen]
    have hnot : ¬ (a = fr ∧ owner = 0) := fun hboth => howner hboth.2
    rw [or_iff_right hnot]

/-- The front of the loose block goes into use, the rest to the list of free blocks. -/
theorem divide (hloose : Loose platform heap cells part before fr units true after)
    (howner : owner ≠ 0) (hsize : platform.least ≤ size)
    (hrest : size + platform.least ≤ units) :
    Kept platform
      (((((heap.setBlock (fr + 16 * size) ⟨false, .dc, 0, (units - size) % 2 ^ 16⟩).setSize fr
        size).chain (fr + 16 * size)).setEndPtr (fr + 16 * units)
          (fr + 16 * size)).setOwner fr owner)
      (Function.update cells part.1 (before ++ ⟨owner, size⟩ :: ⟨0, units - size⟩ :: after)) := by
  have hfront := hloose.front_eq
  have hback := hloose.back_eq
  have hlt := hloose.units_lt
  have hleast := platform.least_pos
  obtain ⟨old, htag⟩ := hloose.tag
  have hmod : (units - size) % 2 ^ 16 = units - size := Nat.mod_eq_of_lt (by omega)
  have hmod' : size % 2 ^ 16 = size := Nat.mod_eq_of_lt (by omega)
  have hne : fr + 16 * size ≠ fr := by omega
  have hsum : fr + 16 * size + 16 * (units - size) = fr + 16 * units := by omega
  have hlen : Cell.len ⟨owner, size⟩ = 16 * size := rfl
  have hlen' : Cell.len ⟨0, units - size⟩ = 16 * (units - size) := rfl
  have hmark : Cell.isFree ⟨owner, size⟩ = false := decide_eq_false howner
  generalize hheap : ((((heap.setBlock (fr + 16 * size)
    ⟨false, .dc, 0, (units - size) % 2 ^ 16⟩).setSize fr size).chain
      (fr + 16 * size)).setEndPtr (fr + 16 * units) (fr + 16 * size)).setOwner fr owner = divided
  have htagFront : divided.block fr = ⟨false, .dc, owner, size⟩ := by
    simp only [← hheap, Heap.setOwner, Heap.setSize, Heap.setBlock_block, Heap.setEndPtr_block,
      Heap.chain_block, if_neg (Ne.symm hne), if_true, htag, hmod']
  have htagRest : divided.block (fr + 16 * size) = ⟨false, .dc, 0, units - size⟩ := by
    simp only [← hheap, Heap.setOwner, Heap.setSize, Heap.setBlock_block, Heap.setEndPtr_block,
      Heap.chain_block, if_neg hne, if_true, hmod]
  have hblock : ∀ x, x ≠ fr → x ≠ fr + 16 * size → divided.block x = heap.block x := by
    intro x hx hx'
    simp only [← hheap, Heap.setOwner, Heap.setSize, Heap.setBlock_block, Heap.setEndPtr_block,
      Heap.chain_block, if_neg hx, if_neg hx']
  have hend : ∀ x, divided.endPtr x = if x = fr + 16 * units then fr + 16 * size
      else heap.endPtr x := by
    intro x
    rw [← hheap, Heap.setOwner, Heap.setBlock_endPtr, Heap.setEndPtr_endPtr]
    rfl
  have hendOther : ∀ x, x ≠ fr + 16 * units → divided.endPtr x = heap.endPtr x := by
    intro x hx
    rw [hend, if_neg hx]
  have hlist : divided.freelist = (fr + 16 * size) :: heap.freelist := by
    rw [← hheap]
    rfl
  refine hloose.close ⟨by rw [← hheap]; rfl, by rw [← hheap]; rfl,
    fun x hx => hblock x (by omega) (by omega), fun x hx => hendOther x (by omega)⟩
    ?_ (fun a => ?_) ?_
  · refine tagsToPadding_append (hloose.front_frame
      (fun x hx => hblock x (by omega) (by omega)) fun x hx => hendOther x (by omega))
      (tagsToPadding_cons ⟨htagFront, hsize, fun hfree => absurd hfree howner⟩ ?_)
    rw [hmark, hlen]
    refine tagsToPadding_cons ⟨htagRest, Nat.le_sub_of_add_le' hrest, fun _ => ⟨rfl, ?_⟩⟩ ?_
    · rw [hlen', hend, if_pos hsum]
    · rw [hlen', hsum]
      exact hloose.back.frame (fun x hx _ => hblock x (by omega) (by omega))
        fun x hx _ => hendOther x (by omega)
  · rw [hlist, List.mem_cons, hloose.listed, freeAt_append, freeAt_cons, freeAt_cons, hfront,
      hlen, hlen', hsum]
    have hnot : ¬ (a = fr ∧ owner = 0) := fun hboth => howner hboth.2
    rw [or_iff_right hnot]
    grind
  · rw [hlist]
    exact List.nodup_cons.mpr ⟨hloose.not_listed (by omega) (by omega), hloose.nodup⟩

end Loose

end Sql602.Core
