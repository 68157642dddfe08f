import Sql602.Swap.PageCopies

namespace Sql602.Swap

/-! A frame is taken for another page: its own page moves to the transaction file. -/

namespace Transactor

/-- The swap blocks in use stay in use and keep their bytes. -/
structure Keeps (transactor next : Transactor) : Prop where
  mapOk : next.MapOk
  used : ∀ block, IsSwapBlock block → transactor.used block = true → next.used block = true
  read : ∀ block bytes, IsSwapBlock block → transactor.used block = true →
    readFileAt transactor.tFile block = some bytes → readFileAt next.tFile block = some bytes

theorem Keeps.refl {transactor : Transactor} (hmap : transactor.MapOk) :
    transactor.Keeps transactor :=
  ⟨hmap, fun _ _ hused => hused, fun _ _ _ _ hread => hread⟩

theorem saveBlock_fst (transactor : Transactor) (block : Nat) (page : List UInt8)
    (failed invalFailed : Option (List UInt8)) :
    (transactor.saveBlock block page failed invalFailed).1 =
      if failed = none then block else 0 := by
  cases failed with
  | none =>
      simp only [saveBlock, writeFileAt, if_true]
      split <;> rfl
  | some other =>
      simp only [saveBlock, writeFileAt, Bool.false_eq_true, if_false, reduceCtorEq]
      split <;> rfl

end Transactor

namespace PageCache

open Transactor

variable {cache : PageCache} {circumstances : Circumstances}
  {n m h owner dadr : Nat} {bytes : List UInt8} {fcb : Fcb}

/-- The transaction file takes one more page. -/
def HasSwapBlock (cache : PageCache) (circumstances : Circumstances) : Prop :=
  cache.transactor.HasBlock (cache.transactor.srchStart / 32) circumstances.mapGrows ∧
    circumstances.failed = none

def HasSwapCb (cache : PageCache) (circumstances : Circumstances) : Prop :=
  cache.freeSwapCbs ≠ [] ∨ circumstances.reallocates = true

/-- What a saved page has got: a block that was free, with the bytes of the frame. -/
structure SavedIn (cache : PageCache) (next : Transactor) (n block : Nat) : Prop where
  isSwapBlock : IsSwapBlock block
  wasFree : cache.transactor.used block = false
  used : next.used block = true
  read : readFileAt next.tFile block = some (cache.frames n).val

theorem saveFrame_cases (hmap : cache.transactor.MapOk) (circumstances : Circumstances)
    (n : Nat) :
    ∃ block next, cache.saveFrame circumstances n = (block, { cache with transactor := next }) ∧
      cache.transactor.Keeps next ∧
      (block = 0 ∧ ¬ cache.HasSwapBlock circumstances ∨
        block ≠ 0 ∧ cache.HasSwapBlock circumstances ∧ cache.SavedIn next n block) := by
  cases getSwapBlock_cases hmap (cache.transactor.srchStart / 32) circumstances.mapGrows with
  | inl hnone =>
      obtain ⟨hresult, hmissing⟩ := hnone
      refine ⟨0, cache.transactor, ?_, Keeps.refl hmap, Or.inl ⟨rfl, fun h => hmissing h.1⟩⟩
      simp only [saveFrame, hresult, if_true]
  | inr hfound =>
      obtain ⟨block, hfound, hhas, hresult⟩ := hfound
      obtain ⟨hswap, hfree⟩ := hfound.free
      have hne : block ≠ 0 := by
        rintro rfl
        exact hswap rfl
      have hapart : ∀ other, IsSwapBlock other → cache.transactor.used other = true →
          other ≠ block := by
        rintro other - hused rfl
        rw [hfree] at hused
        cases hused
      obtain ⟨file, limit, -, hkept, hcases⟩ := saveBlock_cases hswap (cache.frames n).property
        { cache.transactor.setBit block with srchStart := block + 1 }
        circumstances.failed circumstances.invalFailed
      have hread : ∀ other bytes, IsSwapBlock other → cache.transactor.used other = true →
          readFileAt cache.transactor.tFile other = some bytes →
            readFileAt file other = some bytes := by
        intro other bytes hother hused hread
        refine hkept other bytes ?_ hread
        rintro (heq | hbase)
        · exact hapart other hother hused heq
        · exact hother hbase.1
      have hfst := saveBlock_fst { cache.transactor.setBit block with srchStart := block + 1 }
        block (cache.frames n).val circumstances.failed circumstances.invalFailed
      cases hcases with
      | inl hsaved =>
          obtain ⟨hsave, hown⟩ := hsaved
          refine ⟨block,
            { cache.transactor.setBit block with
              srchStart := block + 1, tFile := file, tjcInitLimit := limit },
            ?_, ⟨?_, ?_, hread⟩, Or.inr ⟨hne, ⟨hhas, ?_⟩, hswap, hfree, ?_, hown⟩⟩
          · simp only [saveFrame, hresult, if_neg hne, hsave]
          · have hset := hmap.setBit block
            exact ⟨hset.bound, hset.fresh⟩
          · intro other hother hused
            have hset := used_setBit cache.transactor block other
            rw [hused, Bool.true_or] at hset
            exact hset
          · by_contra hfailed
            rw [hsave, if_neg hfailed] at hfst
            exact hne hfst
          · have hset := used_setBit cache.transactor block block
            rw [decide_eq_true rfl, Bool.or_true] at hset
            exact hset
      | inr hfailed =>
          refine ⟨0,
            { freeSwapBlock { cache.transactor.setBit block with srchStart := block + 1 } block with
              tFile := file, tjcInitLimit := limit },
            ?_, ⟨?_, ?_, hread⟩, Or.inl ⟨rfl, ?_⟩⟩
          · simp only [saveFrame, hresult, if_neg hne, hfailed]
          · have hclear := (hmap.setBit block).clearBit block
            exact ⟨hclear.bound, hclear.fresh⟩
          · intro other hother hused
            have hclear := used_clearBit (cache.transactor.setBit block) block other
            rw [used_setBit, hused, decide_eq_false (hapart other hother hused).symm] at hclear
            exact hclear
          · rintro ⟨-, hnone⟩
            rw [hfailed, if_pos hnone] at hfst
            exact hne hfst.symm

theorem Swapped.keeps {next : Transactor} (hswapped : cache.Swapped n)
    (hkeeps : cache.transactor.Keeps next) : Swapped { cache with transactor := next } n where
  isPrivate := hswapped.isPrivate
  block := hswapped.block
  used := hkeeps.used _ hswapped.block hswapped.used
  readable :=
    have ⟨bytes, hread⟩ := hswapped.readable
    ⟨bytes, hkeeps.read _ bytes hswapped.block hswapped.used hread⟩

theorem Consistent.setTransactor {next : Transactor} (hcache : cache.Consistent)
    (hkeeps : cache.transactor.Keeps next) : Consistent { cache with transactor := next } := by
  have htwins : ∀ n m, cache.Chained m → cache.Twins n m →
      Twins { cache with transactor := next } n m := by
    intro n m hm htwins
    have hswapped := hcache.swapped m hm htwins.swapped
    exact ⟨htwins.core, htwins.swapped, htwins.dirty,
      hkeeps.read _ _ hswapped.block hswapped.used htwins.same⟩
  exact {
    counts := hcache.counts
    hashed := hcache.hashed
    nodup := hcache.nodup
    bound := hcache.bound
    freeNodup := hcache.freeNodup
    free := hcache.free
    mapOk := hkeeps.mapOk
    swapped := fun n hn hhigh => (hcache.swapped n hn hhigh).keeps hkeeps
    apart := hcache.apart
    single := fun n m hn hm hprivate hsame =>
      (hcache.single n m hn hm hprivate hsame).imp id
        (Or.imp (htwins n m hm) (htwins m n hn)) }

theorem Consistent.stores_setTransactor {next : Transactor} (hcache : cache.Consistent)
    (hkeeps : cache.transactor.Keeps next) (hn : cache.Chained n) :
    Stores { cache with transactor := next } n owner dadr bytes ↔
      cache.Stores n owner dadr bytes := by
  have hholds : Holds { cache with transactor := next } n bytes ↔ cache.Holds n bytes := by
    apply or_congr Iff.rfl
    apply and_congr_right
    intro hhigh
    obtain ⟨-, hblock, hused, old, hold⟩ := hcache.swapped n hn hhigh
    have hnext := hkeeps.read _ old hblock hused hold
    change readFileAt next.tFile _ = some bytes ↔ readFileAt cache.transactor.tFile _ = some bytes
    rw [hold, hnext]
  exact ⟨fun h => ⟨h.1, h.2, h.3, hholds.mp h.4⟩, fun h => ⟨h.1, h.2, h.3, hholds.mpr h.4⟩⟩

theorem Consistent.privatePage_setTransactor {next : Transactor} (hcache : cache.Consistent)
    (hkeeps : cache.transactor.Keeps next) :
    PrivatePage { cache with transactor := next } owner dadr bytes ↔
      cache.PrivatePage owner dadr bytes :=
  exists_congr fun _ => and_congr_right fun hn => hcache.stores_setTransactor hkeeps hn

/-! Free swap control blocks. -/

def withScbs (cache : PageCache) (free : List Nat) (count : Nat) : PageCache :=
  { cache with freeSwapCbs := free, fcbsCount := count }

/-- Swap control blocks for use, free before or new. -/
structure Supply (cache : PageCache) (free : List Nat) (count : Nat) : Prop where
  counts : cache.fcbsCount ≤ count
  nodup : free.Nodup
  unchained : ∀ n ∈ free, cache.frameCount ≤ n ∧ n < count ∧ ¬ cache.Chained n
  source : ∀ n ∈ free, n ∈ cache.freeSwapCbs ∨ cache.fcbsCount ≤ n

theorem Supply.tail {free : List Nat} {count : Nat} (hsupply : cache.Supply (n :: free) count) :
    cache.Supply free count where
  counts := hsupply.counts
  nodup := (List.nodup_cons.mp hsupply.nodup).2
  unchained m hm := hsupply.unchained m (List.mem_cons_of_mem n hm)
  source m hm := hsupply.source m (List.mem_cons_of_mem n hm)

theorem Consistent.withScbs {free : List Nat} {count : Nat} (hcache : cache.Consistent)
    (hsupply : cache.Supply free count) : (cache.withScbs free count).Consistent :=
  hcache.refit cache.locked hsupply.counts hsupply.nodup hsupply.unchained

theorem stores_withScbs {free : List Nat} {count : Nat} :
    (cache.withScbs free count).Stores n owner dadr bytes ↔ cache.Stores n owner dadr bytes :=
  ⟨fun h => ⟨h.1, h.2, h.3, h.4⟩, fun h => ⟨h.1, h.2, h.3, h.4⟩⟩

theorem privatePage_withScbs {free : List Nat} {count : Nat} :
    (cache.withScbs free count).PrivatePage owner dadr bytes ↔
      cache.PrivatePage owner dadr bytes :=
  exists_congr fun _ => and_congr Iff.rfl stores_withScbs

theorem Consistent.supply (hcache : cache.Consistent) :
    cache.Supply cache.freeSwapCbs cache.fcbsCount :=
  ⟨Nat.le_refl _, hcache.freeNodup, hcache.free, fun _ hn => Or.inl hn⟩

theorem Consistent.supply_new (hcache : cache.Consistent) (count : Nat) :
    cache.Supply (List.range' cache.fcbsCount count) (cache.fcbsCount + count) where
  counts := Nat.le_add_right ..
  nodup := List.nodup_range'
  unchained n hn := by
    rw [List.mem_range'_1] at hn
    refine ⟨Nat.le_trans hcache.counts hn.1, hn.2, ?_⟩
    intro hchained
    exact Nat.not_lt.mpr hn.1 (hcache.bound n hchained)
  source n hn := Or.inr (List.mem_range'_1.mp hn).1

theorem Consistent.takeScb_cases (hcache : cache.Consistent) (circumstances : Circumstances) :
    cache.takeScb circumstances = none ∧ ¬ cache.HasSwapCb circumstances ∨
      ∃ scbn free count,
        cache.takeScb circumstances = some (scbn, cache.withScbs free count) ∧
          cache.HasSwapCb circumstances ∧ cache.Supply (scbn :: free) count := by
  unfold takeScb
  cases hfree : cache.freeSwapCbs with
  | cons scbn rest =>
      refine Or.inr ⟨scbn, rest, cache.fcbsCount, rfl, Or.inl ?_, ?_⟩
      · rw [hfree]
        exact List.cons_ne_nil _ _
      · rw [← hfree]
        exact hcache.supply
  | nil =>
      cases hmemory : circumstances.reallocates with
      | false =>
          refine Or.inl ⟨?_, ?_⟩
          · simp only [reallocScbs, hmemory, Bool.false_eq_true, if_false]
          · rintro (hsome | htrue)
            · exact hsome hfree
            · rw [hmemory] at htrue
              cases htrue
      | true =>
          refine Or.inr ⟨cache.fcbsCount, List.range' (cache.fcbsCount + 1) 99,
            cache.fcbsCount + FCBS_ALLOC_STEP, ?_, Or.inr hmemory,
            hcache.supply_new FCBS_ALLOC_STEP⟩
          simp only [reallocScbs, hmemory, if_true]
          rfl

/-! The saving of a page that has left the chains. -/

/-- The order in which the control block is chained and the page is written does not matter
without other clients. -/
theorem swapBlock_eq (cache : PageCache) (circumstances : Circumstances) (n : Nat)
    {scbn block : Nat} {free : List Nat} {count : Nat} {next : Transactor}
    (htake : cache.takeScb circumstances = some (scbn, cache.withScbs free count))
    (hsave : cache.saveFrame circumstances n = (block, { cache with transactor := next })) :
    cache.swapBlock circumstances n =
      if block = 0 then
        (0, { (cache.withScbs (scbn :: free) count).setFcb scbn
                { cache.fcbs n with fc := 0 } with transactor := next })
      else
        (block, (({ cache.withScbs free count with transactor := next }).setFcb scbn
            { cache.fcbs n with fc := block }).insertFcb scbn) := by
  have hsame : ∀ chains fcbs,
      saveFrame { cache with freeSwapCbs := free, fcbsCount := count, chains, fcbs }
        circumstances n =
        (block, { cache with
          freeSwapCbs := free, fcbsCount := count, chains, fcbs, transactor := next }) := by
    intro chains fcbs
    simp only [saveFrame] at hsave ⊢
    split
    case isTrue hnone =>
      rw [if_pos hnone] at hsave
      cases hsave
      rfl
    case isFalse hsome =>
      rw [if_neg hsome] at hsave
      cases hsave
      rfl
  simp only [swapBlock, htake, insertFcb, setFcb, withScbs, hsame]
  cases decEq block 0 with
  | isTrue hblock =>
      rw [if_pos hblock, if_neg (not_not_intro hblock)]
      simp only [removeFcb, Function.update_self, Function.update_idem, List.erase_cons_head,
        Function.update_eq_self]
  | isFalse hblock =>
      rw [if_neg hblock, if_pos hblock]
      simp only [Function.update_self, Function.update_idem]

/-- The changed page of a frame out of the chains, with no other copy. -/
structure Alone (cache : PageCache) (n : Nat) : Prop where
  core : n < cache.frameCount
  out : ¬ cache.Chained n
  dirty : (cache.fcbs n).dirty = true
  isPrivate : (cache.fcbs n).owner ≠ ANY_PAGE
  single : ∀ m, cache.Chained m → ¬ SamePage (cache.fcbs m) (cache.fcbs n)

theorem stores_core (hcore : n < cache.frameCount) :
    cache.Stores n owner dadr bytes ↔
      owner ≠ ANY_PAGE ∧ (cache.fcbs n).owner = owner ∧ (cache.fcbs n).blockdadr = dadr ∧
        (cache.fcbs n).dirty = true ∧ (cache.frames n).val = bytes := by
  constructor
  · rintro ⟨hprivate, howner, hdadr, ⟨-, hdirty, hbytes⟩ | ⟨hswap, -⟩⟩
    · exact ⟨hprivate, howner, hdadr, hdirty, hbytes⟩
    · exact absurd hcore (Nat.not_lt.mpr hswap)
  · rintro ⟨hprivate, howner, hdadr, hdirty, hbytes⟩
    exact ⟨hprivate, howner, hdadr, Or.inl ⟨hcore, hdirty, hbytes⟩⟩

/-- Nothing but the supply of control blocks and the transaction file has changed. -/
structure Unsaved (cache next : PageCache) : Prop where
  consistent : next.Consistent
  frameCount : next.frameCount = cache.frameCount
  counts : cache.fcbsCount ≤ next.fcbsCount
  frames : next.frames = cache.frames
  chains : next.chains = cache.chains
  core : ∀ m < cache.frameCount, next.fcbs m = cache.fcbs m
  chained : ∀ m, cache.Chained m → next.fcbs m = cache.fcbs m
  privatePage : ∀ owner dadr bytes,
    next.PrivatePage owner dadr bytes ↔ cache.PrivatePage owner dadr bytes

/-- The page has moved from the frame to a swap block. -/
structure Saved (cache next : PageCache) (n : Nat) : Prop where
  consistent : next.Consistent
  frameCount : next.frameCount = cache.frameCount
  out : ¬ next.Chained n
  core : ∀ m < cache.frameCount, next.fcbs m = cache.fcbs m
  chained : ∀ m, cache.Chained m → next.Chained m
  privatePage : ∀ owner dadr bytes,
    next.PrivatePage owner dadr bytes ↔
      cache.Stores n owner dadr bytes ∨ cache.PrivatePage owner dadr bytes

def CanSwap (cache : PageCache) (circumstances : Circumstances) : Prop :=
  cache.HasSwapCb circumstances ∧ cache.HasSwapBlock circumstances

theorem Consistent.unsaved_refl (hcache : cache.Consistent) : cache.Unsaved cache where
  consistent := hcache
  frameCount := rfl
  counts := Nat.le_refl _
  frames := rfl
  chains := rfl
  core _ _ := rfl
  chained _ _ := rfl
  privatePage _ _ _ := Iff.rfl

/-- A control block for the page of a frame, with the block that the page is saved in, but
still out of the chains. -/
structure Prepared (cache next : PageCache) (n scbn block : Nat) : Prop where
  consistent : next.Consistent
  chained : ∀ m, next.Chained m ↔ cache.Chained m
  frameCount : next.frameCount = cache.frameCount
  self : next.fcbs scbn = { cache.fcbs n with fc := block }
  fcbs : ∀ m, m ≠ scbn → next.fcbs m = cache.fcbs m
  savedIn : cache.SavedIn next.transactor n block
  swap : cache.frameCount ≤ scbn
  bound : scbn < next.fcbsCount
  out : ¬ cache.Chained scbn
  taken : scbn ∉ next.freeSwapCbs
  privatePage : ∀ owner dadr bytes,
    next.PrivatePage owner dadr bytes ↔ cache.PrivatePage owner dadr bytes

theorem Prepared.fcbs_chained {next : PageCache} {scbn block : Nat}
    (hprepared : cache.Prepared next n scbn block) (hm : cache.Chained m) :
    next.fcbs m = cache.fcbs m := by
  apply hprepared.fcbs
  rintro rfl
  exact hprepared.out hm

theorem Prepared.enters {next : PageCache} {scbn block : Nat} (hcache : cache.Consistent)
    (halone : cache.Alone n) (hprepared : cache.Prepared next n scbn block) :
    next.Enters scbn where
  out hin := hprepared.out ((hprepared.chained scbn).mp hin)
  bound := hprepared.bound
  taken := hprepared.taken
  swapped _ := by
    refine ⟨?_, ?_, ?_, (cache.frames n).val, ?_⟩
    · rw [hprepared.self]
      exact halone.isPrivate
    · rw [hprepared.self]
      exact hprepared.savedIn.isSwapBlock
    · rw [hprepared.self]
      exact hprepared.savedIn.used
    · rw [hprepared.self]
      exact hprepared.savedIn.read
  apart _ m hm hhigh hfc := by
    -- the block was free, but the blocks of swapped pages are in use
    rw [hprepared.chained] at hm
    rw [hprepared.frameCount] at hhigh
    rw [hprepared.self, hprepared.fcbs_chained hm] at hfc
    have hused := (hcache.swapped m hm hhigh).used
    rw [hfc, hprepared.savedIn.wasFree] at hused
    cases hused
  single _ m hm hsame := by
    rw [hprepared.chained] at hm
    rw [hprepared.self, hprepared.fcbs_chained hm] at hsame
    exact halone.single m hm hsame

theorem Prepared.stores {next : PageCache} {scbn block : Nat} (halone : cache.Alone n)
    (hprepared : cache.Prepared next n scbn block) :
    next.Stores scbn owner dadr bytes ↔ cache.Stores n owner dadr bytes := by
  have hself := hprepared.self
  have hframes := hprepared.frameCount
  have hswap := hprepared.swap
  rw [stores_core halone.core]
  constructor
  · rintro ⟨hprivate, howner, hdadr, ⟨hcore, -⟩ | ⟨-, hread⟩⟩
    · omega
    · rw [hself] at howner hdadr hread
      have hbytes := hprepared.savedIn.read.symm.trans hread
      exact ⟨hprivate, howner, hdadr, halone.dirty, Option.some.inj hbytes⟩
  · rintro ⟨hprivate, howner, hdadr, -, rfl⟩
    refine ⟨hprivate, ?_, ?_, Or.inr ⟨by omega, ?_⟩⟩
    · rw [hself]
      exact howner
    · rw [hself]
      exact hdadr
    · rw [hself]
      exact hprepared.savedIn.read

theorem Prepared.saved {next : PageCache} {scbn block : Nat} (hcache : cache.Consistent)
    (halone : cache.Alone n) (hprepared : cache.Prepared next n scbn block) :
    cache.Saved (next.insertFcb scbn) n where
  consistent := hprepared.consistent.insertFcb (hprepared.enters hcache halone)
  frameCount := hprepared.frameCount
  out hin := by
    cases chained_insertFcb.mp hin with
    | inl heq =>
        have hcore := halone.core
        have hswap := hprepared.swap
        omega
    | inr hold => exact halone.out ((hprepared.chained n).mp hold)
  core m hm := by
    apply hprepared.fcbs
    rintro rfl
    exact Nat.not_lt.mpr hprepared.swap hm
  chained m hm := chained_insertFcb.mpr (Or.inr ((hprepared.chained m).mpr hm))
  privatePage owner dadr bytes := by
    rw [privatePage_insertFcb, hprepared.stores halone, hprepared.privatePage]

theorem Consistent.swapBlock_cases (hcache : cache.Consistent) (halone : cache.Alone n)
    (circumstances : Circumstances) :
    ∃ block next, cache.swapBlock circumstances n = (block, next) ∧
      (block = 0 ∧ ¬ cache.CanSwap circumstances ∧ cache.Unsaved next ∨
        block ≠ 0 ∧ cache.CanSwap circumstances ∧ cache.Saved next n) := by
  cases hcache.takeScb_cases circumstances with
  | inl hnone =>
      obtain ⟨htake, hmissing⟩ := hnone
      refine ⟨0, cache, ?_, Or.inl ⟨rfl, fun h => hmissing h.1, hcache.unsaved_refl⟩⟩
      simp only [swapBlock, htake]
  | inr htaken =>
      obtain ⟨scbn, free, count, htake, hhas, hsupply⟩ := htaken
      obtain ⟨hswap, hbound, hscbn⟩ := hsupply.unchained scbn List.mem_cons_self
      obtain ⟨block, file, hsave, hkeeps, hcases⟩ :=
        saveFrame_cases hcache.mapOk circumstances n
      have hne : ∀ m, cache.Chained m ∨ m < cache.frameCount → m ≠ scbn := by
        rintro m (hm | hm) rfl
        · exact hscbn hm
        · omega
      rw [swapBlock_eq cache circumstances n htake hsave]
      cases hcases with
      | inl hfailed =>
          obtain ⟨rfl, hmissing⟩ := hfailed
          refine ⟨0, _, if_pos rfl, Or.inl ⟨rfl, fun h => hmissing h.2, ?_⟩⟩
          have hback : (cache.withScbs (scbn :: free) count).Consistent :=
            hcache.withScbs hsupply
          have hout : ¬ (cache.withScbs (scbn :: free) count).Chained scbn := hscbn
          have hset := hback.setFcb hout { cache.fcbs n with fc := 0 }
          exact {
            consistent := hset.setTransactor hkeeps
            frameCount := rfl
            counts := hsupply.counts
            frames := rfl
            chains := rfl
            core := fun m hm => fcbs_setFcb_ne (hne m (Or.inr hm))
            chained := fun m hm => fcbs_setFcb_ne (hne m (Or.inl hm))
            privatePage := fun owner dadr bytes => by
              rw [hset.privatePage_setTransactor hkeeps, privatePage_setFcb hout,
                privatePage_withScbs] }
      | inr hsaved =>
          obtain ⟨hblock, hhasBlock, hsavedIn⟩ := hsaved
          refine ⟨block, _, if_neg hblock, Or.inr ⟨hblock, ⟨hhas, hhasBlock⟩, ?_⟩⟩
          have htook : (cache.withScbs free count).Consistent :=
            hcache.withScbs hsupply.tail
          have hkept := htook.setTransactor hkeeps
          apply Prepared.saved hcache halone
          exact {
            consistent := hkept.setFcb hscbn _
            chained := fun _ => Iff.rfl
            frameCount := rfl
            self := fcbs_setFcb_self
            fcbs := fun m hm => fcbs_setFcb_ne hm
            savedIn := hsavedIn
            swap := hswap
            bound := hbound
            out := hscbn
            taken := (List.nodup_cons.mp hsupply.nodup).1
            privatePage := fun owner dadr bytes =>
              Iff.trans (privatePage_setFcb hscbn)
                ((htook.privatePage_setTransactor hkeeps).trans privatePage_withScbs) }

end PageCache

end Sql602.Swap
