import Sql602.Swap.PageCache

namespace Sql602.Swap

/-! The private pages that the cache and the transaction file hold, and how the chains of
control blocks keep them. -/

namespace PageCache

open Transactor

def Chained (cache : PageCache) (n : Nat) : Prop := ∃ h, n ∈ cache.chains h

/-- The changes of a page are in its frame, or in its swap block. -/
def Holds (cache : PageCache) (n : Nat) (bytes : List UInt8) : Prop :=
  n < cache.frameCount ∧ (cache.fcbs n).dirty = true ∧ (cache.frames n).val = bytes ∨
    cache.frameCount ≤ n ∧
      readFileAt cache.transactor.tFile (cache.fcbs n).fc = some bytes

structure Stores (cache : PageCache) (n owner dadr : Nat) (bytes : List UInt8) : Prop where
  isPrivate : owner ≠ ANY_PAGE
  owner : (cache.fcbs n).owner = owner
  blockdadr : (cache.fcbs n).blockdadr = dadr
  holds : cache.Holds n bytes

/-- A page with changes of a client, in core or swapped. A private page without changes is
no more than the page in the database. -/
def PrivatePage (cache : PageCache) (owner dadr : Nat) (bytes : List UInt8) : Prop :=
  ∃ n, cache.Chained n ∧ cache.Stores n owner dadr bytes

structure Swapped (cache : PageCache) (n : Nat) : Prop where
  isPrivate : (cache.fcbs n).owner ≠ ANY_PAGE
  block : IsSwapBlock (cache.fcbs n).fc
  used : cache.transactor.used (cache.fcbs n).fc = true
  readable : ∃ bytes, readFileAt cache.transactor.tFile (cache.fcbs n).fc = some bytes

/-- A commit may keep a changed page both in core and swapped. -/
structure Twins (cache : PageCache) (n m : Nat) : Prop where
  core : n < cache.frameCount
  swapped : cache.frameCount ≤ m
  dirty : (cache.fcbs n).dirty = true
  same : readFileAt cache.transactor.tFile (cache.fcbs m).fc = some (cache.frames n).val

def SamePage (fcb other : Fcb) : Prop :=
  fcb.blockdadr = other.blockdadr ∧ fcb.owner = other.owner

structure Consistent (cache : PageCache) : Prop where
  counts : cache.frameCount ≤ cache.fcbsCount
  hashed : ∀ h, ∀ n ∈ cache.chains h, hashFnc (cache.fcbs n).blockdadr = h
  nodup : ∀ h, (cache.chains h).Nodup
  bound : ∀ n, cache.Chained n → n < cache.fcbsCount
  freeNodup : cache.freeSwapCbs.Nodup
  free : ∀ n ∈ cache.freeSwapCbs,
    cache.frameCount ≤ n ∧ n < cache.fcbsCount ∧ ¬ cache.Chained n
  mapOk : cache.transactor.MapOk
  swapped : ∀ n, cache.Chained n → cache.frameCount ≤ n → cache.Swapped n
  apart : ∀ n m, cache.Chained n → cache.Chained m → cache.frameCount ≤ n →
    cache.frameCount ≤ m → (cache.fcbs n).fc = (cache.fcbs m).fc → n = m
  single : ∀ n m, cache.Chained n → cache.Chained m → (cache.fcbs n).owner ≠ ANY_PAGE →
    SamePage (cache.fcbs n) (cache.fcbs m) → n = m ∨ cache.Twins n m ∨ cache.Twins m n

/-- Only a fixed frame may be out of the chains. -/
structure CacheInv (cache : PageCache) : Prop extends Consistent cache where
  unfixed : ∀ n < cache.frameCount, (cache.fcbs n).fixnum = 0 → cache.Chained n

variable {cache : PageCache} {n m h owner dadr : Nat} {bytes : List UInt8} {fcb : Fcb}

theorem Consistent.chained_iff (hcache : cache.Consistent) :
    cache.Chained n ↔ n ∈ cache.chains (hashFnc (cache.fcbs n).blockdadr) := by
  constructor
  · rintro ⟨h, hn⟩
    rw [hcache.hashed h n hn]
    exact hn
  · exact fun hn => ⟨_, hn⟩

@[simp] theorem chained_setFcb : (cache.setFcb n fcb).Chained m ↔ cache.Chained m := Iff.rfl

@[simp] theorem chained_setLock (value : Bool) :
    (cache.setLock dadr value).Chained n ↔ cache.Chained n := Iff.rfl

@[simp] theorem fcbs_setFcb_self : (cache.setFcb n fcb).fcbs n = fcb := Function.update_self ..

theorem fcbs_setFcb_ne (hne : m ≠ n) : (cache.setFcb n fcb).fcbs m = cache.fcbs m :=
  Function.update_of_ne hne ..

theorem mem_chains_insertFcb :
    m ∈ (cache.insertFcb n).chains h ↔
      m = n ∧ hashFnc (cache.fcbs n).blockdadr = h ∨ m ∈ cache.chains h := by
  simp only [insertFcb]
  cases decEq (hashFnc (cache.fcbs n).blockdadr) h with
  | isTrue hhash =>
      subst h
      rw [Function.update_self, List.mem_cons]
      simp only [and_true]
  | isFalse hhash =>
      rw [Function.update_of_ne (Ne.symm hhash)]
      simp only [hhash, and_false, false_or]

@[simp] theorem chained_insertFcb :
    (cache.insertFcb n).Chained m ↔ m = n ∨ cache.Chained m := by
  simp only [Chained, mem_chains_insertFcb]
  constructor
  · rintro ⟨h, hm⟩
    exact hm.imp And.left fun hm => ⟨h, hm⟩
  · rintro (rfl | ⟨h, hm⟩)
    · exact ⟨_, Or.inl ⟨rfl, rfl⟩⟩
    · exact ⟨h, Or.inr hm⟩

theorem Consistent.mem_chains_removeFcb (hcache : cache.Consistent) :
    m ∈ (cache.removeFcb n).chains h ↔ m ∈ cache.chains h ∧ m ≠ n := by
  simp only [removeFcb]
  cases decEq (hashFnc (cache.fcbs n).blockdadr) h with
  | isTrue hhash =>
      subst h
      rw [Function.update_self, (hcache.nodup _).mem_erase_iff, and_comm]
  | isFalse hhash =>
      rw [Function.update_of_ne (Ne.symm hhash)]
      refine (and_iff_left_of_imp ?_).symm
      rintro hm rfl
      exact hhash (hcache.hashed h m hm)

theorem Consistent.chained_removeFcb (hcache : cache.Consistent) :
    (cache.removeFcb n).Chained m ↔ cache.Chained m ∧ m ≠ n := by
  simp only [Chained, hcache.mem_chains_removeFcb, exists_and_right]

/-! What is stored does not depend on the chains. -/

theorem stores_insertFcb :
    (cache.insertFcb n).Stores m owner dadr bytes ↔ cache.Stores m owner dadr bytes :=
  ⟨fun h => ⟨h.1, h.2, h.3, h.4⟩, fun h => ⟨h.1, h.2, h.3, h.4⟩⟩

theorem stores_removeFcb :
    (cache.removeFcb n).Stores m owner dadr bytes ↔ cache.Stores m owner dadr bytes :=
  ⟨fun h => ⟨h.1, h.2, h.3, h.4⟩, fun h => ⟨h.1, h.2, h.3, h.4⟩⟩

theorem stores_setLock (value : Bool) :
    (cache.setLock h value).Stores m owner dadr bytes ↔ cache.Stores m owner dadr bytes :=
  ⟨fun h => ⟨h.1, h.2, h.3, h.4⟩, fun h => ⟨h.1, h.2, h.3, h.4⟩⟩

theorem stores_setFcb_ne (hne : m ≠ n) :
    (cache.setFcb n fcb).Stores m owner dadr bytes ↔ cache.Stores m owner dadr bytes := by
  have hfcb := @fcbs_setFcb_ne cache n m fcb hne
  constructor
  · rintro ⟨hprivate, howner, hdadr, hholds⟩
    rw [hfcb] at howner hdadr
    simp only [Holds, hfcb] at hholds
    exact ⟨hprivate, howner, hdadr, hholds⟩
  · rintro ⟨hprivate, howner, hdadr, hholds⟩
    refine ⟨hprivate, by rw [hfcb, howner], by rw [hfcb, hdadr], ?_⟩
    simp only [Holds, hfcb]
    exact hholds

theorem privatePage_setLock (value : Bool) :
    (cache.setLock h value).PrivatePage owner dadr bytes ↔
      cache.PrivatePage owner dadr bytes := by
  simp only [PrivatePage, chained_setLock, stores_setLock]

theorem privatePage_setFcb (hout : ¬ cache.Chained n) :
    (cache.setFcb n fcb).PrivatePage owner dadr bytes ↔
      cache.PrivatePage owner dadr bytes := by
  have hne : ∀ m, cache.Chained m → m ≠ n := by
    rintro m hm rfl
    exact hout hm
  constructor
  · rintro ⟨m, hm, hstores⟩
    exact ⟨m, hm, (stores_setFcb_ne (hne m hm)).mp hstores⟩
  · rintro ⟨m, hm, hstores⟩
    exact ⟨m, hm, (stores_setFcb_ne (hne m hm)).mpr hstores⟩

theorem privatePage_insertFcb :
    (cache.insertFcb n).PrivatePage owner dadr bytes ↔
      cache.Stores n owner dadr bytes ∨ cache.PrivatePage owner dadr bytes := by
  simp only [PrivatePage, chained_insertFcb, stores_insertFcb]
  constructor
  · rintro ⟨m, rfl | hm, hstores⟩
    · exact Or.inl hstores
    · exact Or.inr ⟨m, hm, hstores⟩
  · rintro (hstores | ⟨m, hm, hstores⟩)
    · exact ⟨n, Or.inl rfl, hstores⟩
    · exact ⟨m, Or.inr hm, hstores⟩

theorem Consistent.privatePage_removeFcb (hcache : cache.Consistent) (hn : cache.Chained n) :
    cache.PrivatePage owner dadr bytes ↔
      cache.Stores n owner dadr bytes ∨
        (cache.removeFcb n).PrivatePage owner dadr bytes := by
  simp only [PrivatePage, hcache.chained_removeFcb, stores_removeFcb]
  constructor
  · rintro ⟨m, hm, hstores⟩
    cases decEq m n with
    | isTrue heq => exact Or.inl (heq ▸ hstores)
    | isFalse hne => exact Or.inr ⟨m, ⟨hm, hne⟩, hstores⟩
  · rintro (hstores | ⟨m, hm, hstores⟩)
    · exact ⟨n, hn, hstores⟩
    · exact ⟨m, hm.1, hstores⟩

/-! The invariant under the elementary changes. -/

/-- Neither the locks nor the supply of swap control blocks matter for the chains. -/
theorem Consistent.refit {free : List Nat} {count : Nat} (hcache : cache.Consistent)
    (locked : Nat → Bool) (hcount : cache.fcbsCount ≤ count) (hnodup : free.Nodup)
    (hfree : ∀ n ∈ free, cache.frameCount ≤ n ∧ n < count ∧ ¬ cache.Chained n) :
    Consistent { cache with locked, freeSwapCbs := free, fcbsCount := count } where
  counts := Nat.le_trans hcache.counts hcount
  hashed := hcache.hashed
  nodup := hcache.nodup
  bound n hn := Nat.lt_of_lt_of_le (hcache.bound n hn) hcount
  freeNodup := hnodup
  free := hfree
  mapOk := hcache.mapOk
  swapped n hn hhigh :=
    have hswapped := hcache.swapped n hn hhigh
    ⟨hswapped.isPrivate, hswapped.block, hswapped.used, hswapped.readable⟩
  apart := hcache.apart
  single n m hn hm hprivate hsame :=
    (hcache.single n m hn hm hprivate hsame).imp id
      (Or.imp (fun h => ⟨h.1, h.2, h.3, h.4⟩) (fun h => ⟨h.1, h.2, h.3, h.4⟩))

theorem Consistent.setLock (hcache : cache.Consistent) (dadr : Nat) (value : Bool) :
    (cache.setLock dadr value).Consistent :=
  hcache.refit _ (Nat.le_refl _) hcache.freeNodup hcache.free

theorem CacheInv.setLock (hcache : cache.CacheInv) (dadr : Nat) (value : Bool) :
    (cache.setLock dadr value).CacheInv :=
  ⟨hcache.toConsistent.setLock dadr value, hcache.unfixed⟩

theorem Consistent.removeFcb (hcache : cache.Consistent) (n : Nat) :
    (cache.removeFcb n).Consistent where
  counts := hcache.counts
  hashed h m hm := hcache.hashed h m (hcache.mem_chains_removeFcb.mp hm).1
  nodup h := by
    simp only [PageCache.removeFcb, Function.update_apply]
    split
    case isTrue => exact (hcache.nodup _).erase _
    case isFalse => exact hcache.nodup h
  bound m hm := hcache.bound m (hcache.chained_removeFcb.mp hm).1
  freeNodup := hcache.freeNodup
  free m hm := by
    obtain ⟨hhigh, hcount, hout⟩ := hcache.free m hm
    exact ⟨hhigh, hcount, fun hchained => hout (hcache.chained_removeFcb.mp hchained).1⟩
  mapOk := hcache.mapOk
  swapped m hm hhigh :=
    have hswapped := hcache.swapped m (hcache.chained_removeFcb.mp hm).1 hhigh
    ⟨hswapped.isPrivate, hswapped.block, hswapped.used, hswapped.readable⟩
  apart m k hm hk :=
    hcache.apart m k (hcache.chained_removeFcb.mp hm).1 (hcache.chained_removeFcb.mp hk).1
  single m k hm hk hprivate hsame :=
    (hcache.single m k (hcache.chained_removeFcb.mp hm).1 (hcache.chained_removeFcb.mp hk).1
      hprivate hsame).imp id
      (Or.imp (fun h => ⟨h.1, h.2, h.3, h.4⟩) (fun h => ⟨h.1, h.2, h.3, h.4⟩))

/-- A control block out of the chains may be written. -/
theorem Consistent.setFcb (hcache : cache.Consistent) (hout : ¬ cache.Chained n) (fcb : Fcb) :
    (cache.setFcb n fcb).Consistent := by
  have hsame : ∀ m, cache.Chained m → (cache.setFcb n fcb).fcbs m = cache.fcbs m := by
    intro m hm
    apply fcbs_setFcb_ne
    rintro rfl
    exact hout hm
  have htwins : ∀ m k, cache.Chained m → cache.Chained k → cache.Twins m k →
      (cache.setFcb n fcb).Twins m k := by
    intro m k hm hk htwins
    refine ⟨htwins.core, htwins.swapped, ?_, ?_⟩
    · rw [hsame m hm]
      exact htwins.dirty
    · rw [hsame k hk]
      exact htwins.same
  exact {
    counts := hcache.counts
    hashed := fun h m hm => by
      rw [hsame m ⟨h, hm⟩]
      exact hcache.hashed h m hm
    nodup := hcache.nodup
    bound := hcache.bound
    freeNodup := hcache.freeNodup
    free := hcache.free
    mapOk := hcache.mapOk
    swapped := fun m hm hhigh => by
      obtain ⟨hprivate, hblock, hused, hreadable⟩ := hcache.swapped m hm hhigh
      rw [← hsame m hm] at hprivate hblock hused hreadable
      exact ⟨hprivate, hblock, hused, hreadable⟩
    apart := fun m k hm hk hmhigh hkhigh hfc => by
      rw [hsame m hm, hsame k hk] at hfc
      exact hcache.apart m k hm hk hmhigh hkhigh hfc
    single := fun m k hm hk hprivate hpage => by
      rw [hsame m hm] at hprivate hpage
      rw [hsame k hk] at hpage
      exact (hcache.single m k hm hk hprivate hpage).imp id
        (Or.imp (htwins m k hm hk) (htwins k m hk hm)) }

/-- What is needed of a control block that enters the chains. -/
structure Enters (cache : PageCache) (n : Nat) : Prop where
  out : ¬ cache.Chained n
  bound : n < cache.fcbsCount
  taken : n ∉ cache.freeSwapCbs
  swapped : cache.frameCount ≤ n → cache.Swapped n
  apart : cache.frameCount ≤ n → ∀ m, cache.Chained m → cache.frameCount ≤ m →
    (cache.fcbs m).fc ≠ (cache.fcbs n).fc
  single : (cache.fcbs n).owner ≠ ANY_PAGE → ∀ m, cache.Chained m →
    ¬ SamePage (cache.fcbs m) (cache.fcbs n)

theorem Consistent.insertFcb (hcache : cache.Consistent) (henters : cache.Enters n) :
    (cache.insertFcb n).Consistent where
  counts := hcache.counts
  hashed h m hm := by
    cases mem_chains_insertFcb.mp hm with
    | inl hnew =>
        obtain ⟨rfl, hhash⟩ := hnew
        exact hhash
    | inr hold => exact hcache.hashed h m hold
  nodup h := by
    simp only [PageCache.insertFcb, Function.update_apply]
    split
    case isTrue =>
      exact List.nodup_cons.mpr ⟨fun hn => henters.out ⟨_, hn⟩, hcache.nodup _⟩
    case isFalse => exact hcache.nodup h
  bound m hm := by
    cases chained_insertFcb.mp hm with
    | inl hnew => exact hnew ▸ henters.bound
    | inr hold => exact hcache.bound m hold
  freeNodup := hcache.freeNodup
  free m hm := by
    obtain ⟨hhigh, hcount, hout⟩ := hcache.free m hm
    refine ⟨hhigh, hcount, ?_⟩
    intro hchained
    cases chained_insertFcb.mp hchained with
    | inl hnew => exact henters.taken (hnew ▸ hm)
    | inr hold => exact hout hold
  mapOk := hcache.mapOk
  swapped m hm hhigh := by
    have hswapped : cache.Swapped m := by
      cases chained_insertFcb.mp hm with
      | inl hnew =>
          subst hnew
          exact henters.swapped hhigh
      | inr hold => exact hcache.swapped m hold hhigh
    exact ⟨hswapped.isPrivate, hswapped.block, hswapped.used, hswapped.readable⟩
  apart m k hm hk hmhigh hkhigh hfc := by
    cases chained_insertFcb.mp hm with
    | inl hmnew =>
        cases chained_insertFcb.mp hk with
        | inl hknew => rw [hmnew, hknew]
        | inr hkold =>
            subst hmnew
            exact absurd hfc.symm (henters.apart hmhigh k hkold hkhigh)
    | inr hmold =>
        cases chained_insertFcb.mp hk with
        | inl hknew =>
            subst hknew
            exact absurd hfc (henters.apart hkhigh m hmold hmhigh)
        | inr hkold => exact hcache.apart m k hmold hkold hmhigh hkhigh hfc
  single m k hm hk hprivate hsame := by
    cases chained_insertFcb.mp hm with
    | inl hmnew =>
        cases chained_insertFcb.mp hk with
        | inl hknew => exact Or.inl (hmnew.trans hknew.symm)
        | inr hkold =>
            subst hmnew
            exact absurd ⟨hsame.1.symm, hsame.2.symm⟩ (henters.single hprivate k hkold)
    | inr hmold =>
        cases chained_insertFcb.mp hk with
        | inl hknew =>
            subst hknew
            have hother : (cache.fcbs k).owner ≠ ANY_PAGE :=
              fun hshared => hprivate (hsame.2.trans hshared)
            exact absurd hsame (henters.single hother m hmold)
        | inr hkold =>
            exact (hcache.single m k hmold hkold hprivate hsame).imp id
              (Or.imp (fun h => ⟨h.1, h.2, h.3, h.4⟩) (fun h => ⟨h.1, h.2, h.3, h.4⟩))

end PageCache

end Sql602.Swap
