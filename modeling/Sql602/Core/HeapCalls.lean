import Sql602.Core.HeapSteps

namespace Sql602.Core

open Layout

/-! What the calls keep: the tags, and the blocks in use. -/

def UsedAt (heap : Heap) (cells : Nat → List Cell) (a : Nat) (cell : Cell) : Prop :=
  ∃ p ∈ heap.parts, At Cell.len p.1 (cells p.1) a cell ∧ cell.owner ≠ 0

/-- The memory from an address on is free of what the heap has. -/
def Heap.Fresh (heap : Heap) (a n : Nat) : Prop :=
  (∀ p ∈ heap.parts, a + n ≤ p.1 ∨ p.2 + 16 ≤ a) ∧
    ∀ b m, heap.big b = some m → a + n ≤ b ∨ b + m ≤ a

/-- No block gets lost. -/
structure Grows (heap : Heap) (cells : Nat → List Cell) (heap' : Heap)
    (cells' : Nat → List Cell) : Prop where
  used : ∀ a cell, UsedAt heap cells a cell → UsedAt heap' cells' a cell
  big : ∀ a n, heap.big a = some n → heap'.big a = some n
  bytes : heap'.bytes = heap.bytes

variable {platform : Platform} {heap heap' heap'' : Heap}
  {cells cells' cells'' : Nat → List Cell} {part : Nat × Nat}
  {a b bl fr n units size owner : Nat} {before after new : List Cell} {cell other : Cell}

theorem Grows.refl (heap : Heap) (cells : Nat → List Cell) : Grows heap cells heap cells :=
  ⟨fun _ _ hused => hused, fun _ _ hbig => hbig, rfl⟩

theorem Grows.trans (hfirst : Grows heap cells heap' cells')
    (hsecond : Grows heap' cells' heap'' cells'') : Grows heap cells heap'' cells'' :=
  ⟨fun a cell hused => hsecond.used a cell (hfirst.used a cell hused),
    fun a n hbig => hsecond.big a n (hfirst.big a n hbig),
    hsecond.bytes.trans hfirst.bytes⟩

/-- The blocks in use of the other parts stay, and those of the part as its new cells say. -/
theorem usedAt_update (hparts : heap'.parts = heap.parts)
    (hnew : ∀ a cell, At Cell.len part.1 (cells part.1) a cell → cell.owner ≠ 0 → a ≠ fr →
      At Cell.len part.1 new a cell) (hused : UsedAt heap cells a cell) (hne : a ≠ fr) :
    UsedAt heap' (Function.update cells part.1 new) a cell := by
  obtain ⟨p, hp, hat, howner⟩ := hused
  refine ⟨p, hparts ▸ hp, ?_, howner⟩
  cases decEq p.1 part.1 with
  | isTrue heq =>
      rw [heq] at hat ⊢
      rw [Function.update_self]
      exact hnew a cell hat howner hne
  | isFalse hother =>
      rw [Function.update_of_ne hother]
      exact hat

namespace Kept

variable (hkept : Kept platform heap cells)

include hkept

/-- A block in use is tagged so. -/
theorem used_tag (hused : UsedAt heap cells a cell) :
    ∃ prevfree, heap.block a = ⟨prevfree, .dc, cell.owner, cell.units⟩ := by
  obtain ⟨p, hp, hat, -⟩ := hused
  obtain ⟨last, htags, -⟩ := hkept.laid p hp
  obtain ⟨prevfree, htagged⟩ := Laid.holds_at htags hat
  exact ⟨prevfree, htagged.block⟩

theorem used_units (hused : UsedAt heap cells a cell) : 0 < cell.units := by
  obtain ⟨p, hp, hat, -⟩ := hused
  obtain ⟨last, htags, -⟩ := hkept.laid p hp
  obtain ⟨prevfree, htagged⟩ := Laid.holds_at htags hat
  exact Nat.lt_of_lt_of_le platform.least_pos htagged.room

theorem used_range (hp : part ∈ heap.parts) (hat : At Cell.len part.1 (cells part.1) a cell) :
    part.1 ≤ a ∧ a + cell.len ≤ part.2 := by
  have hrange := hat.range
  have hle := hkept.part_le hp
  omega

/-- Two blocks of the parts are the same or lie apart. -/
theorem blocks_apart {p q : Nat × Nat} (hp : p ∈ heap.parts) (hq : q ∈ heap.parts)
    (hat : At Cell.len p.1 (cells p.1) a cell) (hother : At Cell.len q.1 (cells q.1) b other) :
    (a = b ∧ cell = other) ∨ a + cell.len ≤ b ∨ b + other.len ≤ a := by
  cases decEq p q with
  | isTrue heq =>
      subst heq
      exact hat.apart hother
  | isFalse hne =>
      have hrange := hkept.used_range hp hat
      have hrange' := hkept.used_range hq hother
      have := hkept.spaces.apart p hp q hq hne
      omega

theorem used_apart (hused : UsedAt heap cells a cell) (hother : UsedAt heap cells b other)
    (hne : a ≠ b) : a + cell.len ≤ b ∨ b + other.len ≤ a := by
  obtain ⟨p, hp, hat, -⟩ := hused
  obtain ⟨q, hq, hat', -⟩ := hother
  obtain ⟨heq, -⟩ | hapart := hkept.blocks_apart hp hq hat hat'
  · exact absurd heq hne
  · exact hapart

theorem used_big (hused : UsedAt heap cells a cell) (hbig : heap.big b = some n) :
    a + cell.len ≤ b ∨ b + n ≤ a := by
  obtain ⟨p, hp, hat, -⟩ := hused
  have hrange := hkept.used_range hp hat
  have := hkept.spaces.bigOutside b n hbig p hp
  omega

theorem used_not_big (hused : UsedAt heap cells a cell) : heap.big a = none := by
  cases hbig : heap.big a with
  | none => rfl
  | some n =>
      have := hkept.used_big hused hbig
      have hpos := hkept.used_units hused
      have hbigPos := hkept.spaces.bigPos a n hbig
      have hlen : cell.len = 16 * cell.units := rfl
      omega

/-- A listed block is a free cell. -/
theorem free_cell (hmem : fr ∈ heap.freelist) :
    ∃ p ∈ heap.parts, ∃ before units after, cells p.1 = before ++ ⟨0, units⟩ :: after ∧
      fr = p.1 + total Cell.len before ∧ (heap.block fr).size = units := by
  obtain ⟨p, hp, units, hat⟩ := (hkept.listed fr).mp hmem
  obtain ⟨last, htags, -⟩ := hkept.laid p hp
  obtain ⟨prevfree, htagged⟩ := Laid.holds_at htags hat
  obtain ⟨before, after, hcells, hfr⟩ := hat.split
  refine ⟨p, hp, before, units, after, hcells, hfr, ?_⟩
  rw [htagged.block]

/-- A listed block is not in use. -/
theorem free_not_used (hmem : fr ∈ heap.freelist) : ¬ UsedAt heap cells fr cell := by
  rintro ⟨q, hq, hused, howner⟩
  obtain ⟨p, hp, units, hat⟩ := (hkept.listed fr).mp hmem
  obtain ⟨last, htags, -⟩ := hkept.laid p hp
  obtain ⟨prevfree, htagged⟩ := Laid.holds_at htags hat
  obtain ⟨last', htags', -⟩ := hkept.laid q hq
  obtain ⟨prevfree', htagged'⟩ := Laid.holds_at htags' hused
  have hsame := htagged.block.symm.trans htagged'.block
  exact howner (congrArg Memblock.owner hsame).symm

theorem free_not_big (hmem : fr ∈ heap.freelist) : heap.big fr = none := by
  obtain ⟨p, hp, units, hat⟩ := (hkept.listed fr).mp hmem
  obtain ⟨last, htags, -⟩ := hkept.laid p hp
  obtain ⟨prevfree, htagged⟩ := Laid.holds_at htags hat
  have hrange := hkept.used_range hp hat
  have hpos : 0 < units := Nat.lt_of_lt_of_le platform.least_pos htagged.room
  have hlen : Cell.len ⟨0, units⟩ = 16 * units := rfl
  cases hbig : heap.big fr with
  | none => rfl
  | some n =>
      have := hkept.spaces.bigOutside fr n hbig p hp
      have hbigPos := hkept.spaces.bigPos fr n hbig
      omega

end Kept

/-! Releasing a block. -/

/-- The end of a release, from the loose block on. -/
theorem Loose.finish (hloose : Loose platform heap cells part before fr units false after) :
    ∃ joined rest,
      Kept platform (heap.makeFree fr)
        (Function.update cells part.1 (before ++ ⟨0, joined⟩ :: rest)) ∧
      ∀ a cell, At Cell.len (fr + 16 * units) after a cell → cell.owner ≠ 0 →
        At Cell.len (fr + 16 * joined) rest a cell := by
  obtain ⟨joined, rest, hjoined, hrest⟩ := hloose.joinNext
  have hend : ((heap.joinNext fr).chain fr).blockEnd fr = fr + 16 * joined := hjoined.blockEnd_eq
  refine ⟨joined, rest, ?_, ?_⟩
  · rw [Heap.makeFree, hend]
    exact hjoined.release
  · intro a cell hat howner
    obtain ⟨rfl, rfl⟩ | ⟨more, rfl, rfl⟩ := hrest
    · exact hat
    · obtain ⟨-, rfl⟩ | hat := hat
      · exact absurd rfl howner
      · rw [show fr + 16 * (units + more) = fr + 16 * units + 16 * more by omega]
        exact hat

theorem Heap.joinNext_parts : (heap.joinNext fr).parts = heap.parts := by
  rw [Heap.joinNext]
  split <;> rfl

theorem Heap.joinNext_big : (heap.joinNext fr).big = heap.big := by
  rw [Heap.joinNext]
  split <;> rfl

theorem Heap.joinNext_bytes : (heap.joinNext fr).bytes = heap.bytes := by
  rw [Heap.joinNext]
  split <;> rfl

theorem Kept.corefree (hkept : Kept platform heap cells) (hused : UsedAt heap cells fr cell) :
    ∃ cells', Kept platform (heap.corefree (some fr)) cells' ∧
      (heap.corefree (some fr)).big = heap.big ∧
      (heap.corefree (some fr)).bytes = heap.bytes ∧
      ∀ a other, UsedAt heap cells a other → a ≠ fr →
        UsedAt (heap.corefree (some fr)) cells' a other := by
  obtain ⟨prevfree, htag⟩ := hkept.used_tag hused
  have hunits := hkept.used_units hused
  obtain ⟨p, hp, hat, howner⟩ := hused
  have hdc : (heap.block fr).dcmark ≠ .big := by
    rw [htag]
    exact fun h => (by cases h)
  have hgood : ¬ ((heap.block fr).owner = 0 ∨ (heap.block fr).size = 0) := by
    rw [htag]
    rintro (hzero | hzero)
    · exact howner hzero
    · exact absurd hzero (Nat.ne_of_gt hunits)
  obtain ⟨before, after, hcells, hfr⟩ := hat.split
  cases henabled : heap.memoryAllocationEnabled with
  | false =>
      rw [Heap.corefree, if_neg hdc, if_pos henabled]
      exact ⟨cells, hkept, rfl, rfl, fun a other hother _ => hother⟩
  | true =>
      have hon : ¬ heap.memoryAllocationEnabled = false := by
        rw [henabled]
        exact fun h => (by cases h)
      rw [Heap.corefree, if_neg hdc, if_neg hon, if_neg hgood]
      cases hprev : (heap.block fr).prevfree with
      | false =>
          have hjoin : heap.joinPrevious fr = (heap, fr) := by
            rw [Heap.joinPrevious, hprev]
            rfl
          rw [hjoin]
          have hloose := hkept.loosen hp hcells hfr howner hprev
          obtain ⟨joined, rest, hfinal, hrest⟩ := hloose.finish
          refine ⟨_, hfinal, Heap.joinNext_big, Heap.joinNext_bytes, fun a other hother hne => ?_⟩
          refine usedAt_update Heap.joinNext_parts ?_ hother hne
          intro a other hat howner' hne
          rw [hcells, at_append, At, ← hfr] at hat
          rw [at_append, At, ← hfr]
          obtain hat | ⟨rfl, -⟩ | hat := hat
          · exact Or.inl hat
          · exact absurd rfl hne
          · exact Or.inr (Or.inr (hrest a other hat howner'))
      | true =>
          obtain ⟨mark, hbefore, htagged, hafter⟩ := hkept.tags_at hp hcells hfr
          obtain rfl : mark = true := by
            rw [htagged.block] at hprev
            exact hprev
          obtain ⟨first, more, rfl, hfirst, hfree, hend⟩ := free_before hbefore
          rw [List.append_assoc, List.singleton_append] at hcells
          have hprevAt := Laid.stop_eq hfirst
          have hloose := (hkept.unchain hp hcells hprevAt).joinUsed howner
          have hsizes : (heap.block (heap.endPtr fr)).size + (heap.block fr).size =
              more + cell.units := by
            rw [hfree, htagged.block]
          have hjoin : heap.joinPrevious fr = ((heap.unchain (heap.endPtr fr)).setSize
              (heap.endPtr fr) (more + cell.units), heap.endPtr fr) := by
            rw [Heap.joinPrevious, if_pos hprev]
            dsimp only
            rw [hsizes]
            rfl
          rw [hjoin]
          obtain ⟨joined, rest, hfinal, hrest⟩ := hloose.finish
          refine ⟨_, hfinal, Heap.joinNext_big, Heap.joinNext_bytes, fun a other hother hne => ?_⟩
          refine usedAt_update Heap.joinNext_parts ?_ hother hne
          intro a other hat howner' hne
          rw [hcells, at_append, At, At, ← hprevAt] at hat
          rw [at_append, At, ← hprevAt]
          obtain hat | ⟨-, rfl⟩ | ⟨rfl, -⟩ | hat := hat
          · exact Or.inl hat
          · exact absurd rfl howner'
          · exact absurd hend hne
          · refine Or.inr (Or.inr (hrest a other ?_ howner'))
            rw [show heap.endPtr fr + 16 * (more + cell.units) =
              heap.endPtr fr + 16 * more + 16 * cell.units by omega]
            exact hat

/-! Allocating a block. -/

theorem Heap.firstFit_found {list : List Nat} (hfound : heap.firstFit size list = .found bl) :
    bl ∈ list ∧ size ≤ (heap.block bl).size := by
  induction list with
  | nil => cases hfound
  | cons first rest ih =>
      rw [Heap.firstFit] at hfound
      split at hfound
      · cases hfound
      · split at hfound
        · next hfits =>
            cases hfound
            exact ⟨List.mem_cons_self, hfits⟩
        · obtain ⟨hmem, hfits⟩ := ih hfound
          exact ⟨List.mem_cons_of_mem first hmem, hfits⟩

theorem Platform.whole_or_divided (hsize : size ≤ units) :
    platform.takesWhole units size = true ∨
      (platform.takesWhole units size = false ∧ size + platform.least ≤ units) := by
  rw [Platform.takesWhole, Platform.least]
  split
  · rw [decide_eq_true_iff, decide_eq_false_iff_not]
    omega
  · rw [decide_eq_true_iff, decide_eq_false_iff_not]
    omega

theorem Heap.take_parts : (heap.take platform fr size owner).parts = heap.parts := by
  rw [Heap.take]
  split <;> rfl

theorem Heap.take_big : (heap.take platform fr size owner).big = heap.big := by
  rw [Heap.take]
  split <;> rfl

theorem Heap.take_bytes : (heap.take platform fr size owner).bytes = heap.bytes := by
  rw [Heap.take]
  split <;> rfl

theorem Kept.take (hkept : Kept platform heap cells) (hmem : fr ∈ heap.freelist)
    (hfits : size ≤ (heap.block fr).size) (hsize : platform.least ≤ size) (howner : owner ≠ 0) :
    ∃ cells', Kept platform (heap.take platform fr size owner) cells' ∧
      Grows heap cells (heap.take platform fr size owner) cells' ∧
      ∃ units, size ≤ units ∧
        UsedAt (heap.take platform fr size owner) cells' fr ⟨owner, units⟩ := by
  obtain ⟨p, hp, before, units, after, hcells, hfr, hunits⟩ := hkept.free_cell hmem
  rw [hunits] at hfits
  have hloose := hkept.unchain hp hcells hfr
  have hend : (heap.unchain fr).blockEnd fr = fr + 16 * units := hloose.blockEnd_eq
  have hblock : ((heap.unchain fr).block fr).size = units := hunits
  have hparts : (heap.take platform fr size owner).parts = heap.parts := Heap.take_parts
  -- The cells of the part other than the taken one are as they were.
  have hgrows : ∀ middle, total Cell.len middle = 16 * units →
      Grows heap cells (heap.take platform fr size owner)
        (Function.update cells p.1 (before ++ (middle ++ after))) := by
    intro middle hmiddle
    refine ⟨fun a cell hused => ?_, fun a n hbig => by rw [Heap.take_big]; exact hbig,
      Heap.take_bytes⟩
    refine usedAt_update hparts ?_ hused (fun heq => hkept.free_not_used hmem (heq ▸ hused))
    intro a cell hat howner' hne
    rw [hcells, at_append, At, ← hfr] at hat
    rw [at_append, at_append, ← hfr, hmiddle]
    obtain hat | ⟨rfl, -⟩ | hat := hat
    · exact Or.inl hat
    · exact absurd rfl hne
    · exact Or.inr (Or.inr hat)
  have hused : ∀ taken rest, UsedAt (heap.take platform fr size owner)
      (Function.update cells p.1 (before ++ (⟨owner, taken⟩ :: rest))) fr ⟨owner, taken⟩ := by
    intro taken rest
    refine ⟨p, hparts ▸ hp, ?_, howner⟩
    rw [Function.update_self, at_append, ← hfr]
    exact Or.inr (Or.inl ⟨rfl, rfl⟩)
  obtain hwhole | ⟨hdivided, hrest⟩ := @Platform.whole_or_divided platform _ _ hfits
  · refine ⟨_, ?_, hgrows [⟨owner, units⟩] (by simp [Cell.len]), units, hfits, hused units after⟩
    rw [Heap.take, hblock, hend, if_pos hwhole]
    exact (hloose.setMark fun h => (by cases h)).use howner
  · refine ⟨_, ?_, hgrows [⟨owner, size⟩, ⟨0, units - size⟩] ?_, size, Nat.le_refl size,
      hused size (⟨0, units - size⟩ :: after)⟩
    · have hlt := hloose.units_lt
      have hpos := platform.least_pos
      have hnbl : ((((heap.unchain fr).setBlock (fr + 16 * size)
          ⟨false, .dc, 0, (units - size) % 2 ^ 16⟩).setSize fr size).chain
            (fr + 16 * size)).blockEnd (fr + 16 * size) = fr + 16 * units := by
        have hne : fr + 16 * size ≠ fr := by omega
        rw [Heap.blockEnd, Heap.width, Heap.chain_block, Heap.setSize, Heap.setBlock_block,
          if_neg hne, Heap.setBlock_block, if_pos rfl]
        dsimp only
        rw [Nat.mod_eq_of_lt (by omega)]
        omega
      rw [Heap.take, hblock, hdivided]
      dsimp only
      rw [if_neg Bool.false_ne_true, hnbl]
      exact hloose.divide howner hsize hrest
    · simp only [total_cons, total_nil, Cell.len]
      omega

end Sql602.Core
