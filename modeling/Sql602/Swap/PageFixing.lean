import Sql602.Swap.PageSaving

namespace Sql602.Swap

/-! The fixing of a page keeps the private pages, unless it has to unswap one and gets no
frame for it. -/

namespace PageCache

variable {cache : PageCache} {circumstances : Circumstances}
  {client n m h owner dadr : Nat} {bytes : List UInt8} {fcb : Fcb}

theorem foldl_least {keys : List Nat} {good : Nat → Nat × Option Nat → Prop}
    [∀ n best, Decidable (good n best)] {value : Nat → Nat} {first : Nat × Option Nat}
    (hfound : (keys.foldl (fun best n => if good n best then (value n, some n) else best)
      first).2 = some n) :
    first.2 = some n ∨ n ∈ keys ∧ ∃ best, good n best := by
  induction keys generalizing first with
  | nil => exact Or.inl hfound
  | cons key keys ih =>
      rw [List.foldl_cons] at hfound
      cases ih hfound with
      | inr hlater =>
          obtain ⟨hmem, hgood⟩ := hlater
          exact Or.inr ⟨List.mem_cons_of_mem key hmem, hgood⟩
      | inl hnow =>
          split at hnow
          case isFalse => exact Or.inl hnow
          case isTrue hgood =>
            cases hnow
            exact Or.inr ⟨List.mem_cons_self, _, hgood⟩

theorem leastUsed_spec (hfound : cache.leastUsed = some n) :
    n < cache.frameCount ∧ (cache.fcbs n).fixnum = 0 := by
  cases foldl_least hfound with
  | inl hnone => cases hnone
  | inr hlater =>
      obtain ⟨hmem, best, hgood⟩ := hlater
      exact ⟨List.mem_range.mp hmem, hgood.1⟩

def HasSwapped (cache : PageCache) (n : Nat) : Prop :=
  ∃ m, cache.Chained m ∧ cache.frameCount ≤ m ∧ SamePage (cache.fcbs m) (cache.fcbs n)

/-- A frame can be used for another page: its own page needs no swap block, has one, or gets
one. -/
def FrameAvailable (cache : PageCache) (circumstances : Circumstances) : Prop :=
  ∃ n, cache.leastUsed = some n ∧
    (needsSwap (cache.fcbs n) = true → cache.HasSwapped n ∨ cache.CanSwap circumstances)

theorem needsSwap_iff :
    needsSwap fcb = true ↔ fcb.owner ≠ ANY_PAGE ∧ fcb.dirty = true := by
  simp only [needsSwap, Fcb.isSharedPage, Bool.and_eq_true, Bool.not_eq_true',
    beq_eq_false_iff_ne]

theorem Consistent.hasSwap_iff (hcache : cache.Consistent) :
    cache.hasSwap n = true ↔ cache.HasSwapped n := by
  simp only [hasSwap, HasSwapped, SamePage, List.any_eq_true, Bool.and_eq_true, beq_iff_eq,
    decide_eq_true_eq]
  constructor
  · rintro ⟨m, hm, ⟨hdadr, howner⟩, hhigh⟩
    exact ⟨m, ⟨_, hm⟩, hhigh, hdadr, howner⟩
  · rintro ⟨m, hm, hhigh, hdadr, howner⟩
    rw [hcache.chained_iff, hdadr] at hm
    exact ⟨m, hm, ⟨hdadr, howner⟩, hhigh⟩

/-- The frame is out of the chains and fixed. -/
def takeOut (cache : PageCache) (n : Nat) : PageCache :=
  (cache.removeFcb n).setFcb n { cache.fcbs n with fixnum := 1 }

namespace CacheInv

variable (hcache : cache.CacheInv) (hcore : n < cache.frameCount)

include hcache

theorem out_removeFcb (n : Nat) : ¬ (cache.removeFcb n).Chained n :=
  fun hin => (hcache.chained_removeFcb.mp hin).2 rfl

theorem takeOut_consistent (n : Nat) : (cache.takeOut n).Consistent :=
  (hcache.removeFcb n).setFcb (hcache.out_removeFcb n) _

theorem privatePage_takeOut (hn : cache.Chained n) :
    cache.PrivatePage owner dadr bytes ↔
      cache.Stores n owner dadr bytes ∨ (cache.takeOut n).PrivatePage owner dadr bytes := by
  rw [hcache.privatePage_removeFcb hn, takeOut, privatePage_setFcb (hcache.out_removeFcb n)]

theorem chained_takeOut : (cache.takeOut n).Chained m ↔ cache.Chained m ∧ m ≠ n :=
  hcache.chained_removeFcb

end CacheInv

theorem takeOut_self : (cache.takeOut n).fcbs n = { cache.fcbs n with fixnum := 1 } :=
  fcbs_setFcb_self

theorem takeOut_ne (hne : m ≠ n) : (cache.takeOut n).fcbs m = cache.fcbs m :=
  fcbs_setFcb_ne hne

theorem hasSwapped_takeOut (hcache : cache.CacheInv) (hcore : n < cache.frameCount) :
    (cache.takeOut n).HasSwapped n ↔ cache.HasSwapped n := by
  have hne : ∀ m, cache.frameCount ≤ m → m ≠ n := by
    rintro m hm rfl
    exact Nat.not_lt.mpr hm hcore
  constructor
  · rintro ⟨m, hm, hhigh, hsame⟩
    rw [takeOut_self, takeOut_ne (hne m hhigh)] at hsame
    exact ⟨m, (hcache.chained_takeOut.mp hm).1, hhigh, hsame⟩
  · rintro ⟨m, hm, hhigh, hsame⟩
    refine ⟨m, hcache.chained_takeOut.mpr ⟨hm, hne m hhigh⟩, hhigh, ?_⟩
    rw [takeOut_self, takeOut_ne (hne m hhigh)]
    exact hsame

theorem CacheInv.alone (hcache : cache.CacheInv) (hcore : n < cache.frameCount)
    (hn : cache.Chained n) (hneeds : needsSwap (cache.fcbs n) = true)
    (hnone : ¬ cache.HasSwapped n) : (cache.takeOut n).Alone n := by
  obtain ⟨hprivate, hdirty⟩ := needsSwap_iff.mp hneeds
  refine ⟨hcore, hcache.out_removeFcb n, ?_, ?_, ?_⟩
  · rw [takeOut_self]
    exact hdirty
  · rw [takeOut_self]
    exact hprivate
  · intro m hm hsame
    obtain ⟨hchained, hne⟩ := hcache.chained_takeOut.mp hm
    rw [takeOut_self, takeOut_ne hne] at hsame
    cases hcache.single n m hn hchained hprivate ⟨hsame.1.symm, hsame.2.symm⟩ with
    | inl heq => exact hne heq.symm
    | inr htwins =>
        cases htwins with
        | inl htwins => exact hnone ⟨m, hchained, htwins.swapped, hsame⟩
        | inr htwins => exact absurd htwins.swapped (Nat.not_le.mpr hcore)

/-- The page of the frame is not needed or is in a swap block as well. -/
theorem CacheInv.privatePage_drop (hcache : cache.CacheInv) (hcore : n < cache.frameCount)
    (hn : cache.Chained n) (hkept : needsSwap (cache.fcbs n) = true → cache.HasSwapped n) :
    (cache.takeOut n).PrivatePage owner dadr bytes ↔ cache.PrivatePage owner dadr bytes := by
  rw [hcache.privatePage_takeOut hn]
  refine (or_iff_right_of_imp ?_).symm
  intro hstores
  obtain ⟨hprivate, howner, hdadr, hdirty, hbytes⟩ := (stores_core hcore).mp hstores
  have hneeds := needsSwap_iff.mpr ⟨by rw [howner]; exact hprivate, hdirty⟩
  obtain ⟨m, hm, hhigh, hsame⟩ := hkept hneeds
  have hne : m ≠ n := by
    rintro rfl
    exact Nat.not_lt.mpr hhigh hcore
  have htwins : cache.Twins n m := by
    have hown : (cache.fcbs n).owner ≠ ANY_PAGE := (needsSwap_iff.mp hneeds).1
    cases hcache.single n m hn hm hown ⟨hsame.1.symm, hsame.2.symm⟩ with
    | inl heq => exact absurd heq.symm hne
    | inr htwins =>
        cases htwins with
        | inl htwins => exact htwins
        | inr htwins => exact absurd htwins.swapped (Nat.not_le.mpr hcore)
  refine ⟨m, hcache.chained_takeOut.mpr ⟨hm, hne⟩, hprivate, ?_, ?_, Or.inr ⟨hhigh, ?_⟩⟩
  · rw [takeOut_ne hne, hsame.2, howner]
  · rw [takeOut_ne hne, hsame.1, hdadr]
  · rw [takeOut_ne hne, ← hbytes]
    exact htwins.same

/-- The frame goes back into its chain. -/
theorem CacheInv.putBack {next : PageCache} (hcache : cache.CacheInv)
    (hcore : n < cache.frameCount) (hn : cache.Chained n) (hfixnum : (cache.fcbs n).fixnum = 0)
    (halone : (cache.takeOut n).Alone n) (hunsaved : (cache.takeOut n).Unsaved next) :
    ((next.setFcb n { next.fcbs n with fixnum := 0 }).insertFcb n).CacheInv ∧
      ∀ owner dadr bytes,
        ((next.setFcb n { next.fcbs n with fixnum := 0 }).insertFcb n).PrivatePage
          owner dadr bytes ↔ cache.PrivatePage owner dadr bytes := by
  have hself : (next.setFcb n { next.fcbs n with fixnum := 0 }).fcbs n = cache.fcbs n := by
    rw [fcbs_setFcb_self, hunsaved.core n hcore, takeOut_self, ← hfixnum]
  have hchained : ∀ m, next.Chained m ↔ (cache.takeOut n).Chained m := by
    intro m
    rw [Chained, hunsaved.chains]
    exact Iff.rfl
  have hout : ¬ next.Chained n := by
    rw [hchained]
    exact halone.out
  have hframes : next.frameCount = cache.frameCount := hunsaved.frameCount
  have hset := hunsaved.consistent.setFcb hout { next.fcbs n with fixnum := 0 }
  have hkept : ∀ m, m ≠ n → cache.Chained m →
      (next.setFcb n { next.fcbs n with fixnum := 0 }).fcbs m = cache.fcbs m := by
    intro m hne hm
    rw [fcbs_setFcb_ne hne, hunsaved.chained m (hcache.chained_takeOut.mpr ⟨hm, hne⟩),
      takeOut_ne hne]
  have henters : (next.setFcb n { next.fcbs n with fixnum := 0 }).Enters n := {
    out := hout
    bound := Nat.lt_of_lt_of_le (hcache.bound n hn) hunsaved.counts
    taken := fun hfree => by
      have hhigh := (hunsaved.consistent.free n hfree).1
      omega
    swapped := fun hhigh => by
      change next.frameCount ≤ n at hhigh
      omega
    apart := fun hhigh => by
      change next.frameCount ≤ n at hhigh
      omega
    single := fun _ m hm hsame => by
      obtain ⟨hold, hne⟩ := hcache.chained_takeOut.mp ((hchained m).mp hm)
      apply halone.single m ((hchained m).mp hm)
      rw [hself, hkept m hne hold] at hsame
      rw [takeOut_self, takeOut_ne hne]
      exact hsame }
  have hstores : ∀ owner dadr bytes,
      (next.setFcb n { next.fcbs n with fixnum := 0 }).Stores n owner dadr bytes ↔
        cache.Stores n owner dadr bytes := by
    intro owner dadr bytes
    have hnext : n < (next.setFcb n { next.fcbs n with fixnum := 0 }).frameCount :=
      Nat.lt_of_lt_of_eq hcore hframes.symm
    rw [stores_core hcore, stores_core hnext, hself]
    change _ ∧ _ ∧ _ ∧ _ ∧ (next.frames n).val = bytes ↔ _
    rw [hunsaved.frames]
    exact Iff.rfl
  refine ⟨⟨hset.insertFcb henters, ?_⟩, ?_⟩
  · intro m hm hzero
    cases decEq m n with
    | isTrue heq => exact chained_insertFcb.mpr (Or.inl heq)
    | isFalse hne =>
        have hcorem : m < cache.frameCount := hframes ▸ hm
        change ((next.setFcb n _).fcbs m).fixnum = 0 at hzero
        rw [fcbs_setFcb_ne hne, hunsaved.core m hcorem, takeOut_ne hne] at hzero
        have hold := hcache.unfixed m hcorem hzero
        exact chained_insertFcb.mpr
          (Or.inr ((hchained m).mpr (hcache.chained_takeOut.mpr ⟨hold, hne⟩)))
  · intro owner dadr bytes
    rw [privatePage_insertFcb, hstores, privatePage_setFcb hout, hunsaved.privatePage,
      ← hcache.privatePage_takeOut hn]

/-- What a frame for another page costs: nothing. -/
structure FrameTaken (cache next : PageCache) (n : Nat) : Prop where
  inv : next.CacheInv
  core : n < next.frameCount
  out : ¬ next.Chained n
  privatePage : ∀ owner dadr bytes,
    next.PrivatePage owner dadr bytes ↔ cache.PrivatePage owner dadr bytes

structure NotTaken (cache next : PageCache) : Prop where
  inv : next.CacheInv
  privatePage : ∀ owner dadr bytes,
    next.PrivatePage owner dadr bytes ↔ cache.PrivatePage owner dadr bytes

/-- The frame is empty: its page is dropped or has been saved. -/
theorem CacheInv.emptied {next : PageCache} (hcache : cache.CacheInv)
    (hcore : n < cache.frameCount) (hcons : next.Consistent)
    (hframes : next.frameCount = cache.frameCount) (hout : ¬ next.Chained n)
    (hfcbs : ∀ m < cache.frameCount, next.fcbs m = (cache.takeOut n).fcbs m)
    (hchained : ∀ m, (cache.takeOut n).Chained m → next.Chained m)
    (hpages : ∀ owner dadr bytes,
      next.PrivatePage owner dadr bytes ↔ cache.PrivatePage owner dadr bytes) :
    cache.FrameTaken (next.setFcb n { next.fcbs n with blockdadr := 0 }) n where
  inv := by
    refine ⟨hcons.setFcb hout _, ?_⟩
    intro m hm hzero
    have hcorem : m < cache.frameCount := Nat.lt_of_lt_of_eq hm hframes
    cases decEq m n with
    | isTrue heq =>
        subst heq
        rw [fcbs_setFcb_self, hfcbs m hcorem, takeOut_self] at hzero
        cases hzero
    | isFalse hne =>
        rw [fcbs_setFcb_ne hne, hfcbs m hcorem, takeOut_ne hne] at hzero
        exact hchained m (hcache.chained_takeOut.mpr ⟨hcache.unfixed m hcorem hzero, hne⟩)
  core := Nat.lt_of_lt_of_eq hcore hframes.symm
  out := hout
  privatePage owner dadr bytes := by
    rw [privatePage_setFcb hout, hpages]

theorem getFrame_takeOut (cache : PageCache) (circumstances : Circumstances) {n : Nat}
    (hleast : cache.leastUsed = some n) (hchain : n ∈ cache.chains (hashFnc (cache.fcbs n).blockdadr)) :
    cache.getFrame circumstances =
      if needsSwap ((cache.takeOut n).fcbs n) = true ∧
          ¬ (cache.takeOut n).hasSwap n = true then
        match (cache.takeOut n).swapBlock circumstances n with
        | (0, next) => (none, (next.setFcb n { next.fcbs n with fixnum := 0 }).insertFcb n)
        | (_ + 1, next) => (some n, next.setFcb n { next.fcbs n with blockdadr := 0 })
      else
        (some n, (cache.takeOut n).setFcb n
          { (cache.takeOut n).fcbs n with blockdadr := 0 }) := by
  simp only [getFrame, hleast, if_pos hchain]
  rfl

theorem CacheInv.getFrame_cases (hcache : cache.CacheInv) (circumstances : Circumstances) :
    ∃ found next, cache.getFrame circumstances = (found, next) ∧
      (found = none ∧ ¬ cache.FrameAvailable circumstances ∧ cache.NotTaken next ∨
        ∃ n, found = some n ∧ cache.FrameAvailable circumstances ∧ cache.FrameTaken next n) := by
  cases hleast : cache.leastUsed with
  | none =>
      refine ⟨none, cache, ?_, Or.inl ⟨rfl, ?_, hcache, fun _ _ _ => Iff.rfl⟩⟩
      · simp only [getFrame, hleast]
      · rintro ⟨n, hfound, -⟩
        rw [hleast] at hfound
        cases hfound
  | some n =>
      obtain ⟨hcore, hfixnum⟩ := leastUsed_spec hleast
      have hn := hcache.unfixed n hcore hfixnum
      have hchain := hcache.chained_iff.mp hn
      have havailable : cache.FrameAvailable circumstances ↔
          (needsSwap (cache.fcbs n) = true →
            cache.HasSwapped n ∨ cache.CanSwap circumstances) := by
        constructor
        · rintro ⟨m, hfound, hswap⟩
          rw [hleast] at hfound
          cases hfound
          exact hswap
        · exact fun hswap => ⟨n, hleast, hswap⟩
      have hget := cache.getFrame_takeOut circumstances hleast hchain
      have hneeds : needsSwap ((cache.takeOut n).fcbs n) = needsSwap (cache.fcbs n) := by
        rw [takeOut_self]
        rfl
      have hhas : (cache.takeOut n).hasSwap n = true ↔ cache.HasSwapped n := by
        rw [(hcache.takeOut_consistent n).hasSwap_iff, hasSwapped_takeOut hcache hcore]
      rw [hget, hneeds, havailable]
      split
      case isFalse hkeep =>
        have hkept : needsSwap (cache.fcbs n) = true → cache.HasSwapped n := by
          intro hneeds
          by_contra hnone
          exact hkeep ⟨hneeds, fun hswap => hnone (hhas.mp hswap)⟩
        exact ⟨some n, _, rfl, Or.inr ⟨n, rfl, fun hneeds => Or.inl (hkept hneeds),
          hcache.emptied hcore (hcache.takeOut_consistent n) rfl (hcache.out_removeFcb n)
            (fun _ _ => rfl) (fun _ hm => hm)
            fun _ _ _ => hcache.privatePage_drop hcore hn hkept⟩⟩
      case isTrue hswap =>
        obtain ⟨hneeds, hnone⟩ := hswap
        rw [hhas] at hnone
        have halone := hcache.alone hcore hn hneeds hnone
        obtain ⟨block, next, hresult, hcases⟩ :=
          (hcache.takeOut_consistent n).swapBlock_cases halone circumstances
        rw [hresult]
        cases hcases with
        | inl hfailed =>
            obtain ⟨rfl, hcannot, hunsaved⟩ := hfailed
            obtain ⟨hinv, hpages⟩ := hcache.putBack hcore hn hfixnum halone hunsaved
            refine ⟨none, _, rfl, Or.inl ⟨rfl, ?_, hinv, hpages⟩⟩
            intro hcan
            exact (hcan hneeds).elim hnone hcannot
        | inr hdone =>
            obtain ⟨hblock, hcan, hsaved⟩ := hdone
            cases block with
            | zero => exact absurd rfl hblock
            | succ block =>
                refine ⟨some n, _, rfl, Or.inr ⟨n, rfl, fun _ => Or.inr hcan, ?_⟩⟩
                apply hcache.emptied hcore hsaved.consistent hsaved.frameCount hsaved.out
                  hsaved.core hsaved.chained
                intro owner dadr bytes
                rw [hsaved.privatePage, hcache.privatePage_takeOut hn,
                  stores_core hcore, stores_core (show n < (cache.takeOut n).frameCount from hcore),
                  takeOut_self]
                exact Iff.rfl

end PageCache

end Sql602.Swap
