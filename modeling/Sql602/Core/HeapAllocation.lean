import Sql602.Core.HeapCalls
import Sql602.Library.Holding
import Mathlib.Data.Nat.Bitwise

namespace Sql602.Core

open Layout

variable {platform : Platform} {heap heap' : Heap} {cells : Nat → List Cell}
  {a bl fr n size owner : Nat} {system : Nat → Option Nat}

/-! New parts. -/

theorem Kept.congr (hkept : Kept platform heap cells) (hblock : heap'.block = heap.block)
    (hend : heap'.endPtr = heap.endPtr) (hfree : heap'.freelist = heap.freelist)
    (hparts : heap'.parts = heap.parts) (hbig : heap'.big = heap.big) :
    Kept platform heap' cells := by
  refine ⟨fun p hp => ?_, fun a => ?_, ?_, ?_⟩
  · exact TagsToPadding.frame (hkept.laid p (hparts ▸ hp)) (fun x _ _ => congrFun hblock x)
      fun x _ _ => congrFun hend x
  · rw [hfree, hparts]
    exact hkept.listed a
  · rw [hfree]
    exact hkept.nodup
  · have hspaces := hkept.spaces
    constructor
    · rw [hparts]
      exact hspaces.apart
    · rw [hparts]
      exact hspaces.short
    · rw [hparts, hbig]
      exact hspaces.bigOutside
    · rw [hbig]
      exact hspaces.bigApart
    · rw [hbig]
      exact hspaces.bigPos
    · rw [hbig, hblock]
      exact hspaces.bigTag
    · rw [hbig]
      exact hspaces.bigUnits

/-- What is written in fresh memory leaves the parts as they are. -/
theorem Kept.fresh_frame (hkept : Kept platform heap cells) (hfresh : heap.Fresh bl n)
    (hblock : ∀ x, x < bl ∨ bl + n ≤ x → heap'.block x = heap.block x)
    (hend : ∀ x, x < bl ∨ bl + n ≤ x → heap'.endPtr x = heap.endPtr x) :
    ∀ p ∈ heap.parts, TagsOfPart platform heap' p (cells p.1) := by
  intro p hp
  have houtside := hfresh.1 p hp
  refine TagsToPadding.frame (hkept.laid p hp) (fun x hx hx' => hblock x ?_)
    fun x hx hx' => hend x ?_
  · omega
  · omega

theorem Kept.initNewBlock (hkept : Kept platform heap cells) (hfresh : heap.Fresh bl size)
    (hlow : 1000 < size) (hhigh : size ≤ 0xfffe0) :
    ∃ cells', Kept platform (heap.initNewBlock bl size) cells' ∧
      Grows heap cells (heap.initNewBlock bl size) cells' := by
  have hmod : (size / 16 + 2 ^ 16 - 1) % 2 ^ 16 = size / 16 - 1 := by omega
  have hleast := platform.least_le
  have hpadd : (heap.setBlock bl ⟨false, .dc, 0, (size / 16 + 2 ^ 16 - 1) % 2 ^ 16⟩).blockEnd
      bl = bl + 16 * (size / 16 - 1) := by
    rw [Heap.blockEnd, Heap.width, Heap.setBlock_block, if_pos rfl, hmod]
  obtain ⟨padd, hpaddEq⟩ : ∃ padd, padd = bl + 16 * (size / 16 - 1) := ⟨_, rfl⟩
  rw [← hpaddEq] at hpadd
  generalize hheap : heap.initNewBlock bl size = extended
  rw [Heap.initNewBlock, hpadd, hmod] at hheap
  have hparts : extended.parts = heap.parts ++ [(bl, padd)] := by
    rw [← hheap]
    rfl
  have hbig : extended.big = heap.big := by
    rw [← hheap]
    rfl
  have hlist : extended.freelist = bl :: heap.freelist := by
    rw [← hheap]
    rfl
  have hblock : ∀ x, extended.block x = if x = padd then ⟨true, .dc, 0xff, 1⟩
      else if x = bl then ⟨false, .dc, 0, size / 16 - 1⟩ else heap.block x := by
    intro x
    rw [← hheap, Heap.chain_block, Heap.setEndPtr_block]
    show ((heap.setBlock bl _).setBlock padd _).block x = _
    rw [Heap.setBlock_block, Heap.setBlock_block]
  have hend : ∀ x, extended.endPtr x = if x = padd then bl else heap.endPtr x := by
    intro x
    rw [← hheap, Heap.chain_endPtr, Heap.setEndPtr_endPtr]
    rfl
  have hframe : ∀ x, x < bl ∨ bl + size ≤ x → extended.block x = heap.block x := by
    intro x hx
    rw [hblock, if_neg (by omega), if_neg (by omega)]
  have hold : ∀ p ∈ heap.parts, p.1 ≠ bl := by
    intro p hp
    have hle := hkept.part_le hp
    have := hfresh.1 p hp
    omega
  refine ⟨Function.update cells bl [⟨0, size / 16 - 1⟩], ⟨fun p hp => ?_, fun a => ?_, ?_, ?_⟩,
    ⟨fun a cell hused => ?_, fun a n hn => by rw [hbig]; exact hn, by rw [← hheap]; rfl⟩⟩
  · rw [hparts, List.mem_append, List.mem_singleton] at hp
    obtain hp | rfl := hp
    · rw [Function.update_of_ne (hold p hp)]
      refine hkept.fresh_frame hfresh hframe (fun x hx => ?_) p hp
      rw [hend, if_neg (by omega)]
    · rw [Function.update_self]
      refine tagsToPadding_cons ⟨?_, ?_, fun _ => ⟨rfl, ?_⟩⟩ ⟨true, ⟨?_, rfl⟩, ?_⟩
      · rw [hblock, if_neg (by omega), if_pos rfl]
      · dsimp only
        omega
      · exact (hend _).trans (if_pos hpaddEq.symm)
      · exact hpaddEq.symm
      · rw [hblock, if_pos rfl]
  · rw [hlist, hparts, List.mem_cons, hkept.listed]
    constructor
    · rintro (rfl | ⟨p, hp, hfree⟩)
      · refine ⟨(a, padd), List.mem_append_right _ (List.mem_singleton_self _), ?_⟩
        rw [Function.update_self]
        exact ⟨_, Or.inl ⟨rfl, rfl⟩⟩
      · refine ⟨p, List.mem_append_left _ hp, ?_⟩
        rw [Function.update_of_ne (hold p hp)]
        exact hfree
    · rintro ⟨p, hp, hfree⟩
      rw [List.mem_append, List.mem_singleton] at hp
      obtain hp | rfl := hp
      · rw [Function.update_of_ne (hold p hp)] at hfree
        exact Or.inr ⟨p, hp, hfree⟩
      · rw [Function.update_self, freeAt_cons] at hfree
        obtain ⟨rfl, -⟩ | hfree := hfree
        · exact Or.inl rfl
        · exact absurd hfree freeAt_nil
  · rw [hlist]
    refine List.nodup_cons.mpr ⟨fun hmem => ?_, hkept.nodup⟩
    obtain ⟨p, hp, hfree⟩ := (hkept.listed bl).mp hmem
    have hrange := hfree.range
    have hle := hkept.part_le hp
    have := hfresh.1 p hp
    omega
  · have hspaces := hkept.spaces
    constructor
    · rw [hparts]
      intro p hp q hq hne
      rw [List.mem_append, List.mem_singleton] at hp hq
      obtain hp | rfl := hp
      · obtain hq | rfl := hq
        · exact hspaces.apart p hp q hq hne
        · have := hfresh.1 p hp
          dsimp only
          omega
      · obtain hq | rfl := hq
        · have := hfresh.1 q hq
          dsimp only
          omega
        · exact absurd rfl hne
    · rw [hparts]
      intro p hp
      rw [List.mem_append, List.mem_singleton] at hp
      obtain hp | rfl := hp
      · exact hspaces.short p hp
      · dsimp only
        omega
    · rw [hparts, hbig]
      intro b n hn p hp
      rw [List.mem_append, List.mem_singleton] at hp
      obtain hp | rfl := hp
      · exact hspaces.bigOutside b n hn p hp
      · have := hfresh.2 b n hn
        dsimp only
        omega
    · rw [hbig]
      exact hspaces.bigApart
    · rw [hbig]
      exact hspaces.bigPos
    · rw [hbig]
      intro b n hn
      have hpos := hspaces.bigPos b n hn
      have := hfresh.2 b n hn
      rw [hframe b (by omega)]
      exact hspaces.bigTag b n hn
    · rw [hbig]
      exact hspaces.bigUnits
  · obtain ⟨p, hp, hat, howner⟩ := hused
    refine ⟨p, hparts ▸ List.mem_append_left _ hp, ?_, howner⟩
    rw [Function.update_of_ne (hold p hp)]
    exact hat

/-- Each answer of the system to `core_init` is fresh memory. -/
def Heap.FreshAnswers (heap : Heap) : Nat → List (Option Nat) → Prop
  | size, some bl :: answers =>
      1000 < size → heap.Fresh bl (partSize size) ∧
        (heap.initNewBlock bl (partSize size)).FreshAnswers (size - partSize size) answers
  | _, _ => True

theorem Heap.partSize_spec (hsize : 1000 < size) :
    1000 < partSize size ∧ partSize size ≤ 0xfffe0 := by
  rw [partSize]
  split <;> omega

theorem Kept.initParts {answers : List (Option Nat)} (hkept : Kept platform heap cells)
    (hfresh : heap.FreshAnswers size answers) :
    ∃ cells', Kept platform (heap.initParts size answers).2 cells' ∧
      Grows heap cells (heap.initParts size answers).2 cells' := by
  induction answers generalizing heap cells size with
  | nil => exact ⟨cells, hkept, Grows.refl heap cells⟩
  | cons answer answers ih =>
      cases answer with
      | none => exact ⟨cells, hkept, Grows.refl heap cells⟩
      | some bl =>
          rw [Heap.initParts]
          split
          · next hsize =>
              obtain ⟨hbl, hanswers⟩ := hfresh hsize.1
              obtain ⟨hlow, hhigh⟩ := Heap.partSize_spec hsize.1
              obtain ⟨middle, hmiddle, hfirst⟩ := hkept.initNewBlock hbl hlow hhigh
              obtain ⟨cells', hcells', hrest⟩ := ih hmiddle hanswers
              exact ⟨cells', hcells', hfirst.trans hrest⟩
          · exact ⟨cells, hkept, Grows.refl heap cells⟩

theorem Kept.coreInit {num : Int} {answers : List (Option Nat)}
    (hkept : Kept platform heap cells) (hfresh : heap.FreshAnswers (Heap.initSize num) answers) :
    ∃ cells', Kept platform (heap.coreInit num answers).2 cells' ∧
      Grows heap cells (heap.coreInit num answers).2 cells' := by
  rw [Heap.coreInit]
  dsimp only
  split
  · exact ⟨cells, hkept, Grows.refl heap cells⟩
  · obtain ⟨cells', hkept', hgrows⟩ := hkept.initParts hfresh
    exact ⟨cells', hkept'.congr rfl rfl rfl rfl rfl, hgrows.used, hgrows.big, hgrows.bytes⟩

/-! The sizes of the requests. -/

/-- The sizes for which the arithmetic of `corealloc` does not overflow. -/
def Platform.Fits (platform : Platform) (size : Nat) : Prop :=
  size + platform.MEM_PREFIX_SIZE + (if platform.wordSize = 4 then 0x4000 else 0) ≤ 2 ^ 32

theorem Platform.requestSize_spec (hfits : platform.Fits size) :
    size + platform.MEM_PREFIX_SIZE ≤ platform.requestSize size ∧
      0 < platform.requestSize size ∧
      platform.requestSize size + (if platform.wordSize = 4 then 0x4000 else 0) ≤ 2 ^ 32 := by
  obtain hword | hword := platform.known
  · simp only [Fits, MEM_PREFIX_SIZE, hword, requestSize, sizes, ↓reduceIte] at hfits ⊢
    split <;> omega
  · have hne : ¬ (8 : Nat) = 4 := by decide
    simp only [Fits, MEM_PREFIX_SIZE, hword, requestSize, sizes, if_neg hne] at hfits ⊢
    split <;> omega

theorem and_mask {m : Nat} (hm : m < 2 ^ 32) : m &&& 0xffffc000 = m / 2 ^ 14 * 2 ^ 14 := by
  have hmask : 0xffffc000 = (2 ^ 18 - 1) * 2 ^ 14 := by decide
  apply Nat.eq_of_testBit_eq
  intro i
  rw [hmask, Nat.testBit_and, Nat.testBit_mul_two_pow, Nat.testBit_mul_two_pow,
    Nat.testBit_two_pow_sub_one, Nat.testBit_div_two_pow]
  cases Nat.lt_or_ge i 14 with
  | inl hlow => rw [decide_eq_false (Nat.not_le_of_lt hlow), Bool.false_and, Bool.and_false,
      Bool.false_and]
  | inr hhigh =>
      rw [Nat.sub_add_cancel hhigh, decide_eq_true hhigh, Bool.true_and, Bool.true_and]
      cases Nat.lt_or_ge i 32 with
      | inl hbit => rw [decide_eq_true (by omega), Bool.and_true]
      | inr hbit =>
          have hzero : m.testBit i = false :=
            Nat.testBit_lt_two_pow (Nat.lt_of_lt_of_le hm (Nat.pow_le_pow_right (by decide) hbit))
          rw [hzero, Bool.false_and]

theorem Platform.bigSize_spec (hpos : 0 < n)
    (hfits : n + (if platform.wordSize = 4 then 0x4000 else 0) ≤ 2 ^ 32) :
    n ≤ platform.bigSize n ∧ platform.bigSize n % 2 ^ 14 = 0 := by
  obtain hword | hword := platform.known
  · simp only [hword, ↓reduceIte] at hfits
    have hprev : (n + 2 ^ 32 - 1) % 2 ^ 32 = n - 1 := by omega
    simp only [bigSize, sizes, hword, Nat.reduceMul]
    rw [hprev, and_mask (by omega)]
    omega
  · have hne : ¬ (8 : Nat) = 4 := by decide
    simp only [hword, if_neg hne] at hfits
    have hprev : (n + 2 ^ 64 - 1) % 2 ^ 64 = n - 1 := by omega
    simp only [bigSize, sizes, hword, Nat.reduceMul]
    rw [hprev, and_mask (by omega)]
    omega

theorem units_spec (hpos : 0 < n) : n ≤ 16 * units n ∧ 2 ≤ units n := by
  rw [units]
  split <;> split <;> omega

/-! Allocations. -/

/-- The block is there for a request of some size. -/
def Owned (platform : Platform) (heap : Heap) (cells : Nat → List Cell) (a size : Nat) : Prop :=
  (∃ cell, UsedAt heap cells a cell ∧ size + platform.MEM_PREFIX_SIZE ≤ cell.len) ∨
    ∃ n, heap.big a = some n ∧ size + platform.MEM_PREFIX_SIZE ≤ n

def Unused (heap : Heap) (cells : Nat → List Cell) (a : Nat) : Prop :=
  (∀ cell, ¬ UsedAt heap cells a cell) ∧ heap.big a = none

/-- What a call of `corealloc` gives. -/
structure Allocated (platform : Platform) (heap : Heap) (cells : Nat → List Cell)
    (size : Nat) (result : Option Nat × Heap) (cells' : Nat → List Cell) : Prop where
  kept : Kept platform result.2 cells'
  grows : Grows heap cells result.2 cells'
  owned : ∀ bl, result.1 = some bl →
    Owned platform result.2 cells' bl size ∧ Unused heap cells bl

theorem Kept.takeFirst (hkept : Kept platform heap cells) (hfits : platform.Fits size)
    (howner : owner ≠ 0)
    (hfound : heap.firstFit (units (platform.requestSize size)) heap.freelist = .found bl) :
    ∃ cells', Allocated platform heap cells size
      (some bl, heap.take platform bl (units (platform.requestSize size)) owner) cells' := by
  obtain ⟨hrequest, hpos, -⟩ := platform.requestSize_spec hfits
  obtain ⟨hunits, htwo⟩ := units_spec hpos
  obtain ⟨hmem, hroom⟩ := Heap.firstFit_found hfound
  obtain ⟨cells', hkept', hgrows, taken, htaken, hused⟩ :=
    hkept.take hmem hroom (Nat.le_trans platform.least_le htwo) howner
  refine ⟨cells', hkept', hgrows, fun bl' heq => ?_⟩
  cases heq
  refine ⟨Or.inl ⟨_, hused, ?_⟩, fun cell => hkept.free_not_used hmem, hkept.free_not_big hmem⟩
  show size + platform.MEM_PREFIX_SIZE ≤ 16 * taken
  omega

theorem Kept.allocateBig {stored : Memblock} (hkept : Kept platform heap cells)
    (hfits : platform.Fits size) (howner : owner ≠ 0)
    (hfresh : heap.Fresh bl (platform.bigSize (platform.requestSize size)))
    (hstored : stored = { heap.block bl with
      dcmark := .big, owner,
      size := platform.bigSize (platform.requestSize size) / 2 ^ 14 % 2 ^ 16 }) :
    Allocated platform heap cells size
      (some bl, { heap.setBlock bl stored with
        big := Function.update heap.big bl
          (some (platform.bigSize (platform.requestSize size))) }) cells := by
  obtain ⟨hrequest, hpos, hlimit⟩ := platform.requestSize_spec hfits
  obtain ⟨hbig, hunits⟩ := platform.bigSize_spec hpos hlimit
  generalize platform.bigSize (platform.requestSize size) = n at *
  have hspaces := hkept.spaces
  have hnone : heap.big bl = none := by
    cases hold : heap.big bl with
    | none => rfl
    | some m =>
        have := hfresh.2 bl m hold
        have hm := hspaces.bigPos bl m hold
        omega
  have hblock : ∀ x, x ≠ bl → (heap.setBlock bl stored).block x = heap.block x := by
    intro x hx
    rw [Heap.setBlock_block, if_neg hx]
  have hold : ∀ b m, Function.update heap.big bl (some n) b = some m →
      b = bl ∧ m = n ∨ b ≠ bl ∧ heap.big b = some m := by
    intro b m hm
    obtain ⟨heq, hm⟩ | hother := @Holding.holder_of_update _ _ heap.big _ _ _ _ _ hm
    · exact Or.inl ⟨heq, (Option.some.inj hm).symm⟩
    · exact Or.inr hother
  refine ⟨⟨?_, hkept.listed, hkept.nodup, ⟨hspaces.apart, hspaces.short, ?_, ?_, ?_, ?_,
      ?_⟩⟩,
    ⟨fun a cell hused => hused, fun a m hm => ?_, rfl⟩, fun bl' heq => ?_⟩
  · refine hkept.fresh_frame hfresh (fun x hx => hblock x ?_) fun x _ => rfl
    omega
  · intro b m hm p hp
    obtain ⟨rfl, rfl⟩ | ⟨-, hm⟩ := hold b m hm
    · exact hfresh.1 p hp
    · exact hspaces.bigOutside b m hm p hp
  · intro b m hm c k hk hne
    obtain ⟨rfl, rfl⟩ | ⟨-, hfirst⟩ := hold b m hm
    · obtain ⟨rfl, -⟩ | ⟨-, hsecond⟩ := hold c k hk
      · exact absurd rfl hne
      · exact hfresh.2 c k hsecond
    · obtain ⟨rfl, rfl⟩ | ⟨-, hsecond⟩ := hold c k hk
      · exact (hfresh.2 b m hfirst).symm
      · exact hspaces.bigApart b m hfirst c k hsecond hne
  · intro b m hm
    obtain ⟨-, rfl⟩ | ⟨-, hm⟩ := hold b m hm
    · omega
    · exact hspaces.bigPos b m hm
  · intro b m hm
    obtain ⟨rfl, rfl⟩ | ⟨hne, hm⟩ := hold b m hm
    · show ((heap.setBlock b stored).block b).dcmark = _ ∧ _
      rw [Heap.setBlock_block, if_pos rfl, hstored]
      exact ⟨rfl, howner, rfl⟩
    · show ((heap.setBlock bl stored).block b).dcmark = _ ∧ _
      rw [hblock b hne]
      exact hspaces.bigTag b m hm
  · intro b m hm
    obtain ⟨-, rfl⟩ | ⟨-, hother⟩ := hold b m hm
    · exact hunits
    · exact hspaces.bigUnits b m hother
  · show Function.update heap.big bl _ a = _
    rw [Function.update_of_ne]
    · exact hm
    · rintro rfl
      rw [hnone] at hm
      cases hm
  · cases heq
    refine ⟨Or.inr ⟨n, Function.update_self bl _ heap.big, by omega⟩, fun cell hused => ?_, hnone⟩
    obtain ⟨p, hp, hat, -⟩ := hused
    have hrange := hkept.used_range hp hat
    have := hfresh.1 p hp
    omega

/-- The memory that the system gives is fresh. -/
def Heap.Provides (heap : Heap) (system : Nat → Option Nat) : Prop :=
  ∀ n a, 0 < n → system n = some a → heap.Fresh a n

theorem Heap.Provides.extension (hsystem : heap.Provides system) :
    heap.FreshAnswers (Heap.initSize (-EXTENSION_SIZE_64))
      [system (EXTENSION_SIZE_64 * 0x10000)] := by
  cases hanswer : system (EXTENSION_SIZE_64 * 0x10000) with
  | none => exact trivial
  | some bl => exact fun _ => ⟨hsystem _ bl (by decide) hanswer, trivial⟩

theorem Kept.corealloc (hkept : Kept platform heap cells) (hfits : platform.Fits size)
    (howner : owner ≠ 0) (hsystem : heap.Provides system) :
    ∃ cells', Allocated platform heap cells size
      (heap.corealloc platform size owner system) cells' := by
  have hsame : ∀ heap' : Heap, heap'.block = heap.block → heap'.endPtr = heap.endPtr →
      heap'.freelist = heap.freelist → heap'.parts = heap.parts → heap'.big = heap.big →
      heap'.bytes = heap.bytes → Allocated platform heap cells size (none, heap') cells := by
    intro heap' hblock hend hfree hparts hbig hbytes
    refine ⟨hkept.congr hblock hend hfree hparts hbig, ⟨?_, ?_, hbytes⟩, fun bl h => (by cases h)⟩
    · rintro a cell ⟨p, hp, hused⟩
      exact ⟨p, hparts ▸ hp, hused⟩
    · intro a n hn
      rw [hbig]
      exact hn
  rw [Heap.corealloc]
  split
  · exact ⟨cells, hsame heap rfl rfl rfl rfl rfl rfl⟩
  · dsimp only
    split
    · split
      · exact ⟨cells, hsame heap rfl rfl rfl rfl rfl rfl⟩
      · next bl hbl =>
          obtain ⟨hrequest, hpos, hlimit⟩ := platform.requestSize_spec hfits
          obtain ⟨hbig, -⟩ := platform.bigSize_spec hpos hlimit
          exact ⟨cells, hkept.allocateBig hfits howner (hsystem _ bl (by omega) hbl) rfl⟩
    · split
      · next bl hfound => exact hkept.takeFirst hfits howner hfound
      · exact ⟨cells, hsame heap.fatalMemoryError rfl rfl rfl rfl rfl rfl⟩
      · obtain ⟨middle, hmiddle, hgrows⟩ := hkept.coreInit hsystem.extension
        generalize heap.coreInit (-EXTENSION_SIZE_64)
          [system (EXTENSION_SIZE_64 * 0x10000)] = extended at *
        obtain ⟨memoryExtended, heap'⟩ := extended
        have hfailed : Allocated platform heap cells size (none, heap') middle :=
          ⟨hmiddle, hgrows, fun bl h => (by cases h)⟩
        dsimp only
        split
        · split
          · next bl hfound =>
              obtain ⟨cells', hkept', hgrows', howned⟩ := hmiddle.takeFirst hfits howner hfound
              refine ⟨cells', hkept', hgrows.trans hgrows', fun bl' heq => ?_⟩
              obtain ⟨hown, hunused, hnone⟩ := howned bl' heq
              refine ⟨hown, fun cell hused => hunused cell (hgrows.used bl' cell hused), ?_⟩
              cases hbig : heap.big bl' with
              | none => rfl
              | some n =>
                  have hstill := hgrows.big bl' n hbig
                  exact absurd (hstill.symm.trans hnone) (Option.some_ne_none n)
          · exact ⟨middle, hmiddle.congr rfl rfl rfl rfl rfl,
              ⟨hgrows.used, hgrows.big, hgrows.bytes⟩, fun bl h => (by cases h)⟩
          · exact ⟨middle, hfailed⟩
        · exact ⟨middle, hfailed⟩

end Sql602.Core
