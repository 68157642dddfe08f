import Sql602.Core.HeapAllocation
import Sql602.Library.Run

namespace Sql602.Core

open Layout

/-! Runs of the core heap. A state has the blocks that are handed out, with the sizes that
were asked for. -/

structure State where
  heap : Heap
  handed : List (Nat × Nat)

/-- Every call is told what the system answers. Between the calls the contents of the
memory may change. -/
inductive Op where
  | init (num : Int) (answers : List (Option Nat))
  | alloc (size owner : Nat) (system : Nat → Option Nat)
  | free (x : Option Nat)
  | realloc (x : Option Nat) (y : Nat) (system : Nat → Option Nat)
  | write (bytes : Nat → UInt8)

def released (x : Option Nat) (handed : List (Nat × Nat)) : List (Nat × Nat) :=
  match x with
  | none => handed
  | some fr => handed.filter fun block => block.1 ≠ fr

def handedOut (p : Option Nat) (size : Nat) (handed : List (Nat × Nat)) : List (Nat × Nat) :=
  match p with
  | none => handed
  | some bl => (bl, size) :: handed

/-- A block that cannot be given another size stays handed out. -/
def step (platform : Platform) (state : State) : Op → State
  | .init num answers => { state with heap := (state.heap.coreInit num answers).2 }
  | .alloc size owner system =>
      let (p, heap) := state.heap.corealloc platform size owner system
      ⟨heap, handedOut p size state.handed⟩
  | .free x => ⟨state.heap.corefree x, released x state.handed⟩
  | .realloc x y system =>
      match state.heap.corerealloc platform x y system with
      | (none, heap) => ⟨heap, state.handed⟩
      | (some bl, heap) => ⟨heap, (bl, y) :: released x state.handed⟩
  | .write bytes => { state with heap := { state.heap with bytes } }

/-- Before the first call. -/
def start (block : Nat → Memblock) (endPtr : Nat → Nat) (bytes : Nat → UInt8) : State :=
  ⟨⟨block, endPtr, [], [], 0, false, fun _ => none, bytes⟩, []⟩

/-- The pointer is one that was handed out, if it is not null. -/
def Handed (state : State) (x : Option Nat) : Prop :=
  ∀ fr, x = some fr → ∃ size, (fr, size) ∈ state.handed

/-- What the callers and the system promise. -/
def Valid (platform : Platform) (state : State) : Op → Prop
  | .init num answers => state.heap.FreshAnswers (Heap.initSize num) answers
  | .alloc size owner system =>
      size < platform.sizes ∧ owner ≠ 0 ∧ state.heap.Provides system
  | .free x => Handed state x
  | .realloc x y system => Handed state x ∧ y < 2 ^ 32 ∧ state.heap.Provides system
  | .write _ => True

/-- No size overflows, neither in the request nor in the tag of a big block. -/
def SizesFit (platform : Platform) (state : State) : Op → Prop
  | .alloc size _ _ => platform.Fits size
  | .realloc x y _ =>
      platform.Fits y ∧ ∀ fr n, x = some fr → state.heap.big fr = some n → n < 2 ^ 30
  | _ => True

/-- The address is the one of a block, on the way through a part. -/
def Heap.IsBlock (heap : Heap) (a : Nat) : Prop :=
  ∃ p ∈ heap.parts, ∃ blocks, Tiles heap.width p.1 blocks p.2 ∧ a ∈ blocks

/-- The parts are tiled by blocks whose tags agree, and the blocks that are handed out lie
apart and are large enough. -/
structure Right (platform : Platform) (state : State) : Prop where
  tiled : ∀ p ∈ state.heap.parts, ∃ blocks, Tiles state.heap.width p.1 blocks p.2
  first : ∀ p ∈ state.heap.parts, (state.heap.block p.1).prevfree = false
  marks : ∀ a, state.heap.IsBlock a →
    ((state.heap.block (state.heap.blockEnd a)).prevfree = true ↔
      (state.heap.block a).owner = 0)
  back : ∀ a, state.heap.IsBlock a → (state.heap.block a).owner = 0 →
    state.heap.endPtr (state.heap.blockEnd a) = a
  single : ∀ a, state.heap.IsBlock a → state.heap.IsBlock (state.heap.blockEnd a) →
    (state.heap.block a).owner = 0 → (state.heap.block (state.heap.blockEnd a)).owner ≠ 0
  listed : ∀ a, a ∈ state.heap.freelist ↔
    state.heap.IsBlock a ∧ (state.heap.block a).owner = 0
  once : state.heap.freelist.Nodup
  large : ∀ a size, (a, size) ∈ state.handed →
    (state.heap.IsBlock a ∧ (state.heap.block a).owner ≠ 0 ∧
      size + platform.MEM_PREFIX_SIZE ≤ state.heap.width a) ∨
    ∃ n, state.heap.big a = some n ∧ size + platform.MEM_PREFIX_SIZE ≤ n
  apart : state.handed.Pairwise fun x y =>
    x.1 + platform.MEM_PREFIX_SIZE + x.2 ≤ y.1 ∨ y.1 + platform.MEM_PREFIX_SIZE + y.2 ≤ x.1

/-- A reallocated block has the contents of the old one, as far as both go. -/
def KeepsContents (platform : Platform) (state : State) : Op → Prop
  | .realloc (some fr) y system =>
      ∀ size, (fr, size) ∈ state.handed →
        ∀ bl, (state.heap.corerealloc platform (some fr) y system).1 = some bl →
          ∀ i < min size y,
            (state.heap.corerealloc platform (some fr) y system).2.bytes
              (bl + platform.MEM_PREFIX_SIZE + i) =
            state.heap.bytes (fr + platform.MEM_PREFIX_SIZE + i)
  | _ => True

/-! The invariant. -/

def Inv (platform : Platform) (state : State) : Prop :=
  ∃ cells, Kept platform state.heap cells ∧
    (∀ a size, (a, size) ∈ state.handed → Owned platform state.heap cells a size) ∧
    (state.handed.map Prod.fst).Nodup

variable {platform : Platform} {state : State} {heap heap' : Heap} {cells cells' : Nat → List Cell}
  {a b fr bl n m size y : Nat} {cell : Cell} {system : Nat → Option Nat} {x : Option Nat}
  {handed : List (Nat × Nat)}

theorem inv_start (block : Nat → Memblock) (endPtr : Nat → Nat) (bytes : Nat → UInt8) :
    Inv platform (start block endPtr bytes) := by
  refine ⟨fun _ => [], ⟨fun p hp => (by cases hp), fun a => ⟨fun h => (by cases h), ?_⟩,
    List.nodup_nil, ?_⟩, fun a size h => (by cases h), List.nodup_nil⟩
  · rintro ⟨p, hp, -⟩
    cases hp
  · exact ⟨fun p hp => (by cases hp), fun p hp => (by cases hp), fun b n h => (by cases h),
      fun b n h => (by cases h), fun b n h => (by cases h), fun b n h => (by cases h),
      fun b n h => (by cases h)⟩

/-! What the invariant says. -/

theorem Kept.tiles (hkept : Kept platform heap cells) {p : Nat × Nat} (hp : p ∈ heap.parts) :
    Tiles heap.width p.1 (starts Cell.len p.1 (cells p.1)) p.2 := by
  obtain ⟨last, htags, -⟩ := hkept.laid p hp
  refine Laid.tiles htags fun a prevfree cell htagged => ⟨?_, ?_⟩
  · exact Nat.mul_pos (by decide) (Nat.lt_of_lt_of_le platform.least_pos htagged.room)
  · rw [Heap.width, htagged.block]
    rfl

theorem Kept.isBlock_iff (hkept : Kept platform heap cells) :
    heap.IsBlock a ↔ ∃ p ∈ heap.parts, ∃ cell, At Cell.len p.1 (cells p.1) a cell := by
  constructor
  · rintro ⟨p, hp, blocks, htiles, hmem⟩
    rw [htiles.unique (hkept.tiles hp)] at hmem
    exact ⟨p, hp, mem_starts.mp hmem⟩
  · rintro ⟨p, hp, hat⟩
    exact ⟨p, hp, _, hkept.tiles hp, mem_starts.mpr hat⟩

/-- The tag of a block, and of what lies behind it. -/
theorem Kept.block_tags (hkept : Kept platform heap cells) {p : Nat × Nat}
    (hp : p ∈ heap.parts) (hat : At Cell.len p.1 (cells p.1) a cell) :
    (∃ prevfree, Tagged platform heap a prevfree cell) ∧ heap.blockEnd a = a + cell.len ∧
      (heap.block (a + cell.len)).prevfree = cell.isFree := by
  obtain ⟨last, htags, hpadding⟩ := hkept.laid p hp
  obtain ⟨prevfree, htagged⟩ := Laid.holds_at htags hat
  refine ⟨⟨prevfree, htagged⟩, ?_, ?_⟩
  · rw [Heap.blockEnd, Heap.width, htagged.block]
    rfl
  · obtain ⟨hend, hmark⟩ | ⟨next, -, hnext⟩ := Laid.next htags hat
    · rw [hend, hpadding, hmark]
    · rw [hnext.block]

/-- Two blocks that are handed out lie apart. -/
theorem Kept.owned_apart (hkept : Kept platform heap cells) (hfirst : Owned platform heap cells a n)
    (hsecond : Owned platform heap cells b m) (hne : a ≠ b) :
    a + platform.MEM_PREFIX_SIZE + n ≤ b ∨ b + platform.MEM_PREFIX_SIZE + m ≤ a := by
  obtain ⟨cell, hused, hroom⟩ | ⟨k, hbig, hroom⟩ := hfirst
  · obtain ⟨other, hother, hroom'⟩ | ⟨k', hbig', hroom'⟩ := hsecond
    · have := hkept.used_apart hused hother hne
      omega
    · have := hkept.used_big hused hbig'
      omega
  · obtain ⟨other, hother, hroom'⟩ | ⟨k', hbig', hroom'⟩ := hsecond
    · have := hkept.used_big hother hbig
      omega
    · have := hkept.spaces.bigApart a k hbig b k' hbig' hne
      omega

theorem Inv.right (hinv : Inv platform state) : Right platform state := by
  obtain ⟨cells, hkept, howned, hnodup⟩ := hinv
  refine ⟨fun p hp => ⟨_, hkept.tiles hp⟩, ?_, ?_, ?_, ?_, ?_, hkept.nodup, ?_, ?_⟩
  · intro p hp
    obtain ⟨last, htags, hpadding⟩ := hkept.laid p hp
    cases hcells : cells p.1 with
    | nil =>
        rw [hcells] at htags
        rw [htags.1, hpadding, ← htags.2]
    | cons cell rest =>
        rw [hcells] at htags
        rw [htags.1.block]
  · intro a hblock
    obtain ⟨p, hp, cell, hat⟩ := hkept.isBlock_iff.mp hblock
    obtain ⟨⟨prevfree, htagged⟩, hend, hmark⟩ := hkept.block_tags hp hat
    rw [hend, hmark, htagged.block]
    exact decide_eq_true_iff
  · intro a hblock hfree
    obtain ⟨p, hp, cell, hat⟩ := hkept.isBlock_iff.mp hblock
    obtain ⟨⟨prevfree, htagged⟩, hend, hmark⟩ := hkept.block_tags hp hat
    rw [htagged.block] at hfree
    rw [hend]
    exact (htagged.single hfree).2
  · intro a hblock hnext hfree
    obtain ⟨p, hp, cell, hat⟩ := hkept.isBlock_iff.mp hblock
    obtain ⟨⟨prevfree, htagged⟩, hend, hmark⟩ := hkept.block_tags hp hat
    obtain ⟨q, hq, next, hat'⟩ := hkept.isBlock_iff.mp hnext
    obtain ⟨⟨prevfree', htagged'⟩, -, -⟩ := hkept.block_tags hq hat'
    rw [htagged'.block]
    intro hfree'
    have hprev := (htagged'.single hfree').1
    rw [htagged.block] at hfree
    rw [← hend, htagged'.block] at hmark
    have hmark' : cell.isFree = false := hmark.symm.trans hprev
    exact absurd hfree (of_decide_eq_false hmark')
  · intro a
    rw [hkept.listed, hkept.isBlock_iff]
    constructor
    · rintro ⟨p, hp, units, hat⟩
      obtain ⟨⟨prevfree, htagged⟩, -, -⟩ := hkept.block_tags hp hat
      exact ⟨⟨p, hp, _, hat⟩, by rw [htagged.block]⟩
    · rintro ⟨⟨p, hp, cell, hat⟩, hfree⟩
      obtain ⟨⟨prevfree, htagged⟩, -, -⟩ := hkept.block_tags hp hat
      rw [htagged.block] at hfree
      refine ⟨p, hp, cell.units, ?_⟩
      rw [← hfree]
      exact hat
  · intro a size hmem
    obtain ⟨cell, ⟨p, hp, hat, howner⟩, hroom⟩ | hbig := howned a size hmem
    · obtain ⟨⟨prevfree, htagged⟩, -, -⟩ := hkept.block_tags hp hat
      refine Or.inl ⟨hkept.isBlock_iff.mpr ⟨p, hp, cell, hat⟩, ?_, ?_⟩
      · rw [htagged.block]
        exact howner
      · rw [Heap.width, htagged.block]
        exact hroom
    · exact Or.inr hbig
  · refine (List.pairwise_map.mp hnodup).imp_of_mem fun {x y} hx hy hne => ?_
    exact hkept.owned_apart (howned x.1 x.2 hx) (howned y.1 y.2 hy) hne

/-! What the calls keep. -/

theorem Grows.owned (hgrows : Grows heap cells heap' cells')
    (howned : Owned platform heap cells a n) : Owned platform heap' cells' a n := by
  obtain ⟨cell, hused, hroom⟩ | ⟨k, hbig, hroom⟩ := howned
  · exact Or.inl ⟨cell, hgrows.used a cell hused, hroom⟩
  · exact Or.inr ⟨k, hgrows.big a k hbig, hroom⟩

theorem Unused.not_owned (hunused : Unused heap cells a) : ¬ Owned platform heap cells a n := by
  rintro (⟨cell, hused, -⟩ | ⟨k, hbig, -⟩)
  · exact hunused.1 cell hused
  · rw [hunused.2] at hbig
    cases hbig

theorem Kept.freeBig (hkept : Kept platform heap cells) :
    Kept platform { heap with big := Function.update heap.big fr none } cells := by
  have hspaces := hkept.spaces
  have hold : ∀ b m, Function.update heap.big fr none b = some m → heap.big b = some m :=
    fun b m hm => (Holding.holder_of_clear hm).2
  exact ⟨fun p hp => TagsToPadding.frame (hkept.laid p hp) (fun _ _ _ => rfl) fun _ _ _ => rfl,
    hkept.listed, hkept.nodup, hspaces.apart, hspaces.short,
    fun b m hm => hspaces.bigOutside b m (hold b m hm),
    fun b m hm c k hk => hspaces.bigApart b m (hold b m hm) c k (hold c k hk),
    fun b m hm => hspaces.bigPos b m (hold b m hm),
    fun b m hm => hspaces.bigTag b m (hold b m hm),
    fun b m hm => hspaces.bigUnits b m (hold b m hm)⟩

theorem Kept.free_owned (hkept : Kept platform heap cells)
    (howned : Owned platform heap cells fr n) :
    ∃ cells', Kept platform (heap.corefree (some fr)) cells' ∧
      (heap.corefree (some fr)).bytes = heap.bytes ∧
      ∀ a m, Owned platform heap cells a m → a ≠ fr →
        Owned platform (heap.corefree (some fr)) cells' a m := by
  obtain ⟨cell, hused, -⟩ | ⟨k, hbig, -⟩ := howned
  · obtain ⟨cells', hkept', hbig, hbytes, hothers⟩ := hkept.corefree hused
    refine ⟨cells', hkept', hbytes, ?_⟩
    rintro a m (⟨other, hother, hroom⟩ | hbig') hne
    · exact Or.inl ⟨other, hothers a other hother hne, hroom⟩
    · rw [← hbig] at hbig'
      exact Or.inr hbig'
  · rw [Heap.corefree, if_pos (hkept.spaces.bigTag fr k hbig).1]
    refine ⟨cells, hkept.freeBig, rfl, ?_⟩
    rintro a m (hother | ⟨k', hbig', hroom⟩) hne
    · exact Or.inl hother
    · exact Or.inr ⟨k', (Function.update_of_ne hne none heap.big).trans hbig', hroom⟩

/-- What `corerealloc` knows about the old block. -/
theorem Kept.origsize_spec (hkept : Kept platform heap cells)
    (howned : Owned platform heap cells fr n)
    (hfits : ∀ k, heap.big fr = some k → k < 2 ^ 30) :
    (heap.block fr).owner ≠ 0 ∧ (heap.block fr).size ≠ 0 ∧ n ≤ heap.origsize platform fr ∧
      ∀ y ≤ heap.origsize platform fr, Owned platform heap cells fr y := by
  have hword := platform.known
  have hprefix : platform.MEM_PREFIX_SIZE = platform.wordSize := rfl
  obtain ⟨cell, hused, hroom⟩ | ⟨k, hbig, hroom⟩ := howned
  · obtain ⟨prevfree, htag⟩ := hkept.used_tag hused
    have hunits := hkept.used_units hused
    have hlen : cell.len = 16 * cell.units := rfl
    have hsmall : cell.units < 2 ^ 16 := by
      obtain ⟨p, hp, hat, -⟩ := hused
      have hrange := hkept.used_range hp hat
      have hshort := hkept.spaces.short p hp
      omega
    have hsize : heap.origsize platform fr = cell.len - platform.MEM_PREFIX_SIZE := by
      have hdc : ¬ Mark.dc = Mark.big := fun h => (by cases h)
      rw [Heap.origsize, htag]
      simp only [if_neg hdc]
      omega
    refine ⟨?_, ?_, by omega, fun y hy => Or.inl ⟨cell, hused, by omega⟩⟩
    · obtain ⟨p, hp, hat, howner⟩ := hused
      rw [htag]
      exact howner
    · rw [htag]
      exact Nat.ne_of_gt hunits
  · obtain ⟨hmark, howner, htag⟩ := hkept.spaces.bigTag fr k hbig
    have hpos := hkept.spaces.bigPos fr k hbig
    have hunits := hkept.spaces.bigUnits fr k hbig
    have hlimit := hfits k hbig
    have hsize : heap.origsize platform fr = k - platform.MEM_PREFIX_SIZE := by
      rw [Heap.origsize, if_pos hmark, htag]
      omega
    refine ⟨howner, ?_, by omega, fun y hy => Or.inr ⟨k, hbig, by omega⟩⟩
    rw [htag]
    omega

/-- What a call of `corerealloc` does with a block that is handed out. -/
structure Reallocated (platform : Platform) (heap : Heap) (cells : Nat → List Cell)
    (fr size y : Nat) (result : Option Nat × Heap) (cells' : Nat → List Cell) : Prop where
  kept : Kept platform result.2 cells'
  failed : result.1 = none → ∀ a n, Owned platform heap cells a n →
    Owned platform result.2 cells' a n
  others : ∀ a n, Owned platform heap cells a n → a ≠ fr → Owned platform result.2 cells' a n
  owned : ∀ bl, result.1 = some bl → Owned platform result.2 cells' bl y ∧
    (bl = fr ∨ Unused heap cells bl)
  contents : ∀ bl, result.1 = some bl → ∀ i < min size y,
    result.2.bytes (bl + platform.MEM_PREFIX_SIZE + i) =
      heap.bytes (fr + platform.MEM_PREFIX_SIZE + i)

theorem Kept.corerealloc (hkept : Kept platform heap cells)
    (howned : Owned platform heap cells fr size) (hy : platform.Fits y)
    (hfits : ∀ k, heap.big fr = some k → k < 2 ^ 30) (hsystem : heap.Provides system) :
    ∃ cells', Reallocated platform heap cells fr size y
      (heap.corerealloc platform (some fr) y system) cells' := by
  obtain ⟨howner, -, -, -⟩ := hkept.origsize_spec howned hfits
  obtain ⟨middle, hmiddle, hgrows, hresult⟩ := hkept.corealloc hy howner hsystem
  rw [Heap.corerealloc]
  generalize heap.corealloc platform y (heap.block fr).owner system = result at *
  obtain ⟨p, heap'⟩ := result
  replace hmiddle : Kept platform heap' middle := hmiddle
  have howned' := hgrows.owned howned
  have hfits' : ∀ k, heap'.big fr = some k → k < 2 ^ 30 := by
    intro k hk
    obtain ⟨cell, hused, -⟩ | ⟨k', hbig, -⟩ := howned
    · have hnone := hmiddle.used_not_big (hgrows.used fr cell hused)
      rw [hnone] at hk
      cases hk
    · have hsame := hgrows.big fr k' hbig
      rw [hsame] at hk
      cases hk
      exact hfits k hbig
  obtain ⟨-, hsize, horig, hlarge⟩ := hmiddle.origsize_spec howned' hfits'
  dsimp only
  cases p with
  | none =>
      have hfailed : ∀ a n, Owned platform heap cells a n → Owned platform heap' middle a n :=
        fun a n hown => hgrows.owned hown
      dsimp only
      split
      · next hle =>
          refine ⟨middle, hmiddle, fun _ => hfailed, fun a n hown _ => hfailed a n hown,
            fun bl hbl => ?_, fun bl hbl i _ => ?_⟩
          · cases hbl
            exact ⟨hlarge y hle, Or.inl rfl⟩
          · cases hbl
            exact congrFun hgrows.bytes _
      · exact ⟨middle, hmiddle, fun _ => hfailed, fun a n hown _ => hfailed a n hown,
          fun bl hbl => (by cases hbl), fun bl hbl => (by cases hbl)⟩
  | some bl =>
      obtain ⟨hnew, hunused⟩ := hresult bl rfl
      have hne : bl ≠ fr := by
        rintro rfl
        exact hunused.not_owned howned
      dsimp only
      rw [if_pos hsize]
      generalize hcount : (if y < heap'.origsize platform fr then y
        else heap'.origsize platform fr) = count
      have hmin : min size y ≤ count := by
        rw [← hcount]
        split <;> omega
      generalize hcopied : heap'.memcpy (bl + platform.MEM_PREFIX_SIZE)
        (fr + platform.MEM_PREFIX_SIZE) count = copied
      have hkept' : Kept platform copied middle := by
        rw [← hcopied]
        exact hmiddle.congr rfl rfl rfl rfl rfl
      have hsame : ∀ a n, Owned platform heap' middle a n → Owned platform copied middle a n := by
        rw [← hcopied]
        exact fun _ _ hown => hown
      obtain ⟨cells', hfinal, hbytes, hothers⟩ := hkept'.free_owned (hsame fr size howned')
      refine ⟨cells', hfinal, fun h => (by cases h), fun a n hown hother =>
        hothers a n (hsame a n (hgrows.owned hown)) hother, fun bl' hbl => ?_,
        fun bl' hbl i hi => ?_⟩
      · cases hbl
        exact ⟨hothers bl y (hsame bl y hnew) hne, Or.inr hunused⟩
      · cases hbl
        rw [hbytes, ← hcopied, Heap.memcpy]
        dsimp only
        have hi' : i < count := by omega
        rw [if_pos ⟨by omega, by omega⟩, hgrows.bytes]
        congr 1
        omega

/-! The steps. -/

theorem mem_released {fr : Nat} :
    (a, n) ∈ released (some fr) handed ↔ (a, n) ∈ handed ∧ a ≠ fr := by
  rw [released, List.mem_filter]
  simp

theorem released_nodup (hnodup : (handed.map Prod.fst).Nodup) :
    ((released x handed).map Prod.fst).Nodup := by
  cases x with
  | none => exact hnodup
  | some fr => exact hnodup.sublist (List.filter_sublist.map Prod.fst)

/-- A block that was not in use joins those that are handed out. -/
theorem handedOut_inv {p : Option Nat} (hkept : Kept platform heap' cells')
    (hold : ∀ a n, (a, n) ∈ handed → Owned platform heap' cells' a n)
    (hnew : ∀ bl, p = some bl → Owned platform heap' cells' bl size ∧ bl ∉ handed.map Prod.fst)
    (hnodup : (handed.map Prod.fst).Nodup) :
    Inv platform ⟨heap', handedOut p size handed⟩ := by
  cases p with
  | none => exact ⟨cells', hkept, hold, hnodup⟩
  | some bl =>
      obtain ⟨howned, hnot⟩ := hnew bl rfl
      refine ⟨cells', hkept, fun a n hmem => ?_, List.nodup_cons.mpr ⟨hnot, hnodup⟩⟩
      obtain hmem | hmem := List.mem_cons.mp hmem
      · cases hmem
        exact howned
      · exact hold a n hmem

/-- A block that was in no use is not handed out. -/
theorem Unused.not_handed (hunused : Unused heap cells bl)
    (howned : ∀ a n, (a, n) ∈ handed → Owned platform heap cells a n) :
    bl ∉ handed.map Prod.fst := by
  intro hmem
  obtain ⟨⟨a, n⟩, hpair, rfl⟩ := List.mem_map.mp hmem
  exact hunused.not_owned (howned a n hpair)

theorem not_mem_released {fr : Nat} : fr ∉ (released (some fr) handed).map Prod.fst := by
  intro hmem
  obtain ⟨⟨a, n⟩, hpair, rfl⟩ := List.mem_map.mp hmem
  exact (mem_released.mp hpair).2 rfl

theorem Allocated.inv {result : Option Nat × Heap}
    (hresult : Allocated platform heap cells size result cells')
    (howned : ∀ a n, (a, n) ∈ handed → Owned platform heap cells a n)
    (hnodup : (handed.map Prod.fst).Nodup) :
    Inv platform ⟨result.2, handedOut result.1 size handed⟩ := by
  obtain ⟨hkept', hgrows, hnew⟩ := hresult
  refine handedOut_inv hkept' (fun a n hmem => hgrows.owned (howned a n hmem)) ?_ hnodup
  intro bl hbl
  obtain ⟨hown, hunused⟩ := hnew bl hbl
  exact ⟨hown, hunused.not_handed howned⟩

theorem step_realloc_failed
    (hresult : state.heap.corerealloc platform x y system = (none, heap')) :
    step platform state (.realloc x y system) = ⟨heap', state.handed⟩ := by
  rw [step, hresult]

theorem step_realloc_done
    (hresult : state.heap.corerealloc platform x y system = (some bl, heap')) :
    step platform state (.realloc x y system) =
      ⟨heap', (bl, y) :: released x state.handed⟩ := by
  rw [step, hresult]

theorem Inv.step (hinv : Inv platform state) (op : Op) (hvalid : Valid platform state op)
    (hfits : SizesFit platform state op) : Inv platform (step platform state op) := by
  obtain ⟨cells, hkept, howned, hnodup⟩ := hinv
  cases op with
  | init num answers =>
      obtain ⟨cells', hkept', hgrows⟩ := hkept.coreInit hvalid
      exact ⟨cells', hkept', fun a size hmem => hgrows.owned (howned a size hmem), hnodup⟩
  | alloc size owner system =>
      obtain ⟨-, howner, hsystem⟩ := hvalid
      obtain ⟨cells', hresult⟩ := hkept.corealloc hfits howner hsystem
      exact hresult.inv howned hnodup
  | free x =>
      cases x with
      | none => exact ⟨cells, hkept, howned, hnodup⟩
      | some fr =>
          obtain ⟨size, hmem⟩ := hvalid fr rfl
          obtain ⟨cells', hkept', -, hothers⟩ := hkept.free_owned (howned fr size hmem)
          have hrest : ((released (some fr) state.handed).map Prod.fst).Nodup :=
            released_nodup hnodup
          refine ⟨cells', hkept', fun a n hrest => ?_, hrest⟩
          obtain ⟨hold, hne⟩ := mem_released.mp hrest
          exact hothers a n (howned a n hold) hne
  | realloc x y system =>
      obtain ⟨hhanded, -, hsystem⟩ := hvalid
      cases x with
      | none =>
          obtain ⟨cells', hresult⟩ :=
            hkept.corealloc hfits.1 (show (1 : Nat) ≠ 0 by decide) hsystem
          have hinv := hresult.inv howned hnodup
          cases hrun : state.heap.corealloc platform y 1 system with
          | mk p heap' =>
              rw [hrun] at hinv
              have hnone : state.heap.corerealloc platform none y system = (p, heap') := hrun
              cases p with
              | none =>
                  rw [step_realloc_failed hnone]
                  exact hinv
              | some bl =>
                  rw [step_realloc_done hnone]
                  exact hinv
      | some fr =>
          obtain ⟨size, hmem⟩ := hhanded fr rfl
          obtain ⟨cells', hkept', hfailed, hothers, hnew, -⟩ := hkept.corerealloc
            (howned fr size hmem) hfits.1 (fun k hk => hfits.2 fr k rfl hk) hsystem
          cases hrun : state.heap.corerealloc platform (some fr) y system with
          | mk p heap' =>
              rw [hrun] at hkept' hfailed hothers hnew
              cases p with
              | none =>
                  rw [step_realloc_failed hrun]
                  exact ⟨cells', hkept', fun a n hold => hfailed rfl a n (howned a n hold),
                    hnodup⟩
              | some bl =>
                  rw [step_realloc_done hrun]
                  obtain ⟨hown, hunused⟩ := hnew bl rfl
                  refine @handedOut_inv _ _ _ y _ (some bl) hkept' (fun a n hrest => ?_)
                    (fun bl' heq => ?_) (released_nodup hnodup)
                  · obtain ⟨hold, hne⟩ := mem_released.mp hrest
                    exact hothers a n (howned a n hold) hne
                  · cases heq
                    refine ⟨hown, ?_⟩
                    obtain rfl | hunused := hunused
                    · exact not_mem_released
                    · refine fun hrest => hunused.not_handed howned ?_
                      exact (List.filter_sublist.map Prod.fst).subset hrest
  | write bytes =>
      exact ⟨cells, hkept.congr rfl rfl rfl rfl rfl, howned, hnodup⟩

theorem Inv.keepsContents (hinv : Inv platform state) (op : Op)
    (hvalid : Valid platform state op) (hfits : SizesFit platform state op) :
    KeepsContents platform state op := by
  obtain ⟨cells, hkept, howned, hnodup⟩ := hinv
  cases op with
  | realloc x y system =>
      cases x with
      | none => exact trivial
      | some fr =>
          intro size hmem
          obtain ⟨cells', hresult⟩ := hkept.corerealloc (howned fr size hmem) hfits.1
            (fun k hk => hfits.2 fr k rfl hk) hvalid.2.2
          exact hresult.contents
  | init num answers => exact trivial
  | alloc size owner system => exact trivial
  | free x => exact trivial
  | write bytes => exact trivial

/-- In every run of the core heap whose sizes fit, the heap is always in order, and the
blocks that are given another size keep their contents. -/
theorem heap_right (platform : Platform) (block : Nat → Memblock) (endPtr : Nat → Nat)
    (bytes : Nat → UInt8) (ops : List Op)
    (hmeets : Run.Meets (step platform)
      (fun state op => Valid platform state op ∧ SizesFit platform state op)
      (start block endPtr bytes) ops) :
    Run.Always (step platform) (Right platform) (start block endPtr bytes) ops ∧
      Run.Meets (step platform) (KeepsContents platform) (start block endPtr bytes) ops := by
  have hinv : Inv platform (start block endPtr bytes) := inv_start block endPtr bytes
  have hstep : ∀ state op, Inv platform state →
      Valid platform state op ∧ SizesFit platform state op →
        Inv platform (step platform state op) :=
    fun state op hinv hok => hinv.step op hok.1 hok.2
  constructor
  · exact Run.always_of_invariant (Inv platform) (fun _ => Inv.right) hstep hinv hmeets
  · exact Run.Meets.of_invariant (Inv platform)
      (fun state op hinv hok => hinv.keepsContents op hok.1 hok.2) hstep hinv hmeets

theorem provides_nothing : heap.Provides fun _ => none :=
  fun _ _ _ h => (by cases h)

/-- A part, a block in it that grows, and its release. -/
theorem heap_right_growing :
    let ops := [Op.init 1 [some 0x1000], .alloc 100 1 fun _ => none,
      .realloc (some 0x1000) 200 fun _ => none, .free (some 0x1070)]
    let first := start (fun _ => ⟨false, .dc, 0, 0⟩) (fun _ => 0) fun _ => 0
    Run.Always (step ⟨8, Or.inr rfl⟩) (Right ⟨8, Or.inr rfl⟩) first ops ∧
      Run.Meets (step ⟨8, Or.inr rfl⟩) (KeepsContents ⟨8, Or.inr rfl⟩) first ops := by
  refine heap_right _ _ _ _ _ ⟨⟨?_, trivial⟩, ⟨⟨by decide, by decide, provides_nothing⟩, ?_⟩,
    ⟨⟨?_, by decide, provides_nothing⟩, ?_, ?_⟩, ⟨?_, trivial⟩, trivial⟩
  · exact fun _ => ⟨⟨fun p hp => (by cases hp), fun b m hm => (by cases hm)⟩, trivial⟩
  · show _ ≤ _
    decide
  · rintro fr ⟨⟩
    exact ⟨100, by decide⟩
  · show _ ≤ _
    decide
  · intro fr n _ hbig
    cases hbig
  · rintro fr ⟨⟩
    exact ⟨200, by decide⟩

/-- The tag of a block of 2^30 bytes has the size 0. -/
theorem not_forall_heap_right :
    ¬ ∀ (platform : Platform) (block : Nat → Memblock) (endPtr : Nat → Nat)
      (bytes : Nat → UInt8) (ops : List Op),
      Run.Meets (step platform) (Valid platform) (start block endPtr bytes) ops →
        Run.Always (step platform) (Right platform) (start block endPtr bytes) ops ∧
          Run.Meets (step platform) (KeepsContents platform) (start block endPtr bytes)
            ops := by
  intro hall
  have hrun := hall ⟨8, Or.inr rfl⟩ (fun _ => ⟨false, .dc, 0, 0⟩) (fun _ => 0)
    (fun i => if i = 0x1008 then 1 else 0)
    [.alloc (2 ^ 30 - 8) 1 fun _ => some 0x1000,
      .realloc (some 0x1000) 10 fun _ => some (2 ^ 31)]
    ⟨⟨by decide, by decide, fun n a _ _ => ⟨fun p hp => (by cases hp), fun b m hm => (by cases hm)⟩⟩,
      ⟨?_, by decide, ?_⟩, trivial⟩
  · have hkeeps := hrun.2.2.1 (2 ^ 30 - 8) (by decide) (2 ^ 31) (by decide) 0 (by decide)
    exact absurd hkeeps (by decide)
  · rintro fr ⟨⟩
    exact ⟨2 ^ 30 - 8, by decide⟩
  · intro n a _ ha
    cases ha
    refine ⟨fun p hp => (by cases hp), fun b m hm => Or.inr ?_⟩
    have hbig : Function.update (fun _ => none) 0x1000 (some (2 ^ 30)) b = some m := hm
    obtain ⟨rfl, hm⟩ | ⟨-, hm⟩ := Holding.holder_of_update hbig
    · cases hm
      decide
    · cases hm

end Sql602.Core
