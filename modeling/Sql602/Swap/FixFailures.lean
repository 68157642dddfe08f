import Sql602.Swap.PageFixing

namespace Sql602.Swap

/-! A page that cannot be fixed: a swapped page of the client is lost if no frame has been
found for it. -/

namespace PageCache

variable {cache : PageCache} {circumstances : Circumstances}
  {client n m h owner dadr scbn : Nat} {bytes : List UInt8} {fcb : Fcb}

/-- A fix that fails changes no private pages. -/
def FailureKeeps (cache : PageCache) (result : Option Nat × PageCache) : Prop :=
  result.1 = none → ∀ owner dadr bytes,
    result.2.PrivatePage owner dadr bytes ↔ cache.PrivatePage owner dadr bytes

structure IsCopy (cache : PageCache) (owner dadr n : Nat) : Prop where
  chained : cache.Chained n
  blockdadr : (cache.fcbs n).blockdadr = dadr
  owner : (cache.fcbs n).owner = owner

/-- The client has the page in the transaction file only. -/
def SwappedOut (cache : PageCache) (client dadr : Nat) : Prop :=
  (∃ n, cache.IsCopy client dadr n) ∧ ∀ n, cache.IsCopy client dadr n → cache.frameCount ≤ n

theorem failureKeeps_some (n : Nat) (next : PageCache) :
    cache.FailureKeeps (some n, next) := by
  intro hnone
  cases hnone

theorem isCopy_of_owned (howned : cache.owned client dadr = some n) :
    cache.IsCopy client dadr n := by
  have hgood := List.find?_some howned
  simp only [Bool.and_eq_true, beq_iff_eq] at hgood
  exact ⟨⟨_, List.mem_of_find?_eq_some howned⟩, hgood.1, hgood.2⟩

theorem Consistent.not_isCopy (hcache : cache.Consistent)
    (howned : cache.owned client dadr = none) : ¬ cache.IsCopy client dadr n := by
  intro hcopy
  have hchain := hcache.chained_iff.mp hcopy.chained
  rw [hcopy.blockdadr] at hchain
  have hbad := List.find?_eq_none.mp howned n hchain
  simp only [hcopy.blockdadr, hcopy.owner, beq_self_eq_true, Bool.and_self,
    not_true_eq_false] at hbad

theorem CacheInv.loadPage_keeps (hcache : cache.CacheInv) :
    cache.FailureKeeps (cache.loadPage circumstances dadr owner) := by
  have hlock := hcache.setLock dadr true
  obtain ⟨found, next, hget, hcases⟩ := hlock.getFrame_cases circumstances
  simp only [loadPage, hget]
  cases hcases with
  | inl hfailed =>
      obtain ⟨rfl, -, hnot⟩ := hfailed
      intro _ other page bytes
      rw [privatePage_setLock, hnot.privatePage, privatePage_setLock]
  | inr hdone =>
      obtain ⟨n, rfl, -, htaken⟩ := hdone
      cases hread : circumstances.readBlock with
      | some page =>
          exact failureKeeps_some _ _
      | none =>
          intro _ other page bytes
          -- the empty frame is chained as a shared one
          have hshared : ∀ fcb : Fcb, ∀ c : PageCache, fcb.owner = ANY_PAGE →
              ¬ (c.setFcb n fcb).Stores n other page bytes := by
            intro fcb c hany hstores
            have howner := hstores.owner
            rw [fcbs_setFcb_self, hany] at howner
            exact hstores.isPrivate howner.symm
          simp only [privatePage_setLock, privatePage_insertFcb]
          rw [or_iff_right (hshared _ _ rfl)]
          have hout := htaken.out
          rw [privatePage_setFcb (by exact hout), privatePage_setFcb hout, htaken.privatePage,
            privatePage_setLock]

/-- The unchaining of a swap control block. -/
theorem CacheInv.removeScb (hcache : cache.CacheInv) (hswap : cache.frameCount ≤ scbn) :
    (cache.removeFcb scbn).CacheInv := by
  refine ⟨hcache.removeFcb scbn, ?_⟩
  intro m hm hzero
  apply hcache.chained_removeFcb.mpr
  refine ⟨hcache.unfixed m hm hzero, ?_⟩
  rintro rfl
  exact Nat.not_lt.mpr hswap hm

/-- The frame that is looked for belongs to another page. -/
theorem CacheInv.frameAvailable_removeScb (hcache : cache.CacheInv)
    (hcopy : cache.IsCopy client dadr scbn)
    (hout : ∀ n, cache.IsCopy client dadr n → cache.frameCount ≤ n) :
    (cache.removeFcb scbn).FrameAvailable circumstances ↔ cache.FrameAvailable circumstances := by
  apply exists_congr
  intro n
  have hleast : (cache.removeFcb scbn).leastUsed = cache.leastUsed := rfl
  rw [hleast]
  apply and_congr_right
  intro hfound
  obtain ⟨hcore, hfixnum⟩ := leastUsed_spec hfound
  have hother : (cache.removeFcb scbn).HasSwapped n ↔ cache.HasSwapped n := by
    constructor
    · rintro ⟨m, hm, hhigh, hsame⟩
      exact ⟨m, (hcache.chained_removeFcb.mp hm).1, hhigh, hsame⟩
    · rintro ⟨m, hm, hhigh, hsame⟩
      refine ⟨m, hcache.chained_removeFcb.mpr ⟨hm, ?_⟩, hhigh, hsame⟩
      rintro rfl
      have hhigh := hout n ⟨hcache.unfixed n hcore hfixnum, hsame.1.symm.trans hcopy.blockdadr,
        hsame.2.symm.trans hcopy.owner⟩
      omega
  rw [hother]
  exact Iff.rfl

theorem CacheInv.privatePage_of_twin (hcache : cache.CacheInv) (hcopy : cache.IsCopy client dadr m)
    (hswap : cache.frameCount ≤ m) (hcore : n < cache.frameCount)
    (hother : cache.IsCopy client dadr n) (hstores : cache.Stores m owner h bytes) :
    (cache.removeFcb m).PrivatePage owner h bytes := by
  have hne : n ≠ m := by omega
  have hprivate := (hcache.swapped m hcopy.chained hswap).isPrivate
  have hsame : SamePage (cache.fcbs m) (cache.fcbs n) :=
    ⟨hcopy.blockdadr.trans hother.blockdadr.symm, hcopy.owner.trans hother.owner.symm⟩
  have htwins : cache.Twins n m := by
    cases hcache.single m n hcopy.chained hother.chained hprivate hsame with
    | inl heq => exact absurd heq.symm hne
    | inr htwins =>
        cases htwins with
        | inl htwins => exact absurd htwins.core (Nat.not_lt.mpr hswap)
        | inr htwins => exact htwins
  refine ⟨n, hcache.chained_removeFcb.mpr ⟨hother.chained, hne⟩, ?_⟩
  rw [stores_removeFcb, stores_core hcore]
  obtain ⟨hnotAny, howner, hdadr, ⟨hlow, -⟩ | ⟨-, hread⟩⟩ := hstores
  · omega
  · exact ⟨hnotAny, hsame.2.symm.trans howner, hsame.1.symm.trans hdadr, htwins.dirty,
      Option.some.inj (htwins.same.symm.trans hread)⟩

theorem CacheInv.lost (hcache : cache.CacheInv) (hcopy : cache.IsCopy client dadr scbn)
    (hout : ∀ n, cache.IsCopy client dadr n → cache.frameCount ≤ n) :
    (∃ bytes, cache.PrivatePage client dadr bytes) ∧
      ∀ bytes, ¬ (cache.removeFcb scbn).PrivatePage client dadr bytes := by
  have hswap := hout scbn hcopy
  obtain ⟨hprivate, -, -, bytes, hread⟩ := hcache.swapped scbn hcopy.chained hswap
  refine ⟨⟨bytes, scbn, hcopy.chained, ?_, hcopy.owner, hcopy.blockdadr,
    Or.inr ⟨hswap, hread⟩⟩, ?_⟩
  · rw [← hcopy.owner]
    exact hprivate
  · rintro bytes ⟨m, hm, hstores⟩
    obtain ⟨hchained, hne⟩ := hcache.chained_removeFcb.mp hm
    have hother : cache.IsCopy client dadr m := ⟨hchained, hstores.blockdadr, hstores.owner⟩
    have hsame : SamePage (cache.fcbs scbn) (cache.fcbs m) :=
      ⟨hcopy.blockdadr.trans hother.blockdadr.symm, hcopy.owner.trans hother.owner.symm⟩
    cases hcache.single scbn m hcopy.chained hchained hprivate hsame with
    | inl heq => exact hne heq.symm
    | inr htwins =>
        have hhigh := hout m hother
        cases htwins with
        | inl htwins => exact absurd htwins.core (Nat.not_lt.mpr hswap)
        | inr htwins => exact absurd htwins.core (Nat.not_lt.mpr hhigh)

theorem CacheInv.unswapPage_keeps_iff (hcache : cache.CacheInv)
    (hcopy : cache.IsCopy client dadr scbn) (hswap : cache.frameCount ≤ scbn) :
    cache.FailureKeeps (cache.unswapPage circumstances dadr scbn) ↔
      (cache.SwappedOut client dadr →
        (cache.setLock dadr true).FrameAvailable circumstances) := by
  have hlock := hcache.setLock dadr true
  have hlockCopy : (cache.setLock dadr true).IsCopy client dadr scbn :=
    ⟨hcopy.chained, hcopy.blockdadr, hcopy.owner⟩
  have hremoved := hlock.removeScb hswap
  obtain ⟨found, next, hget, hcases⟩ := hremoved.getFrame_cases circumstances
  cases hcases with
  | inr hdone =>
      obtain ⟨n, rfl, havailable, htaken⟩ := hdone
      simp only [unswapPage, unswapBlock, hget]
      refine iff_of_true (failureKeeps_some _ _) ?_
      rintro ⟨-, hout⟩
      exact (hlock.frameAvailable_removeScb hlockCopy
        fun n hn => hout n ⟨hn.1, hn.2, hn.3⟩).mp havailable
  | inl hfailed =>
      obtain ⟨rfl, hnone, hnot⟩ := hfailed
      simp only [unswapPage, unswapBlock, hget]
      constructor
      · -- the page of the removed control block is in no chain any more
        rintro hkeeps ⟨-, hout⟩
        obtain ⟨⟨bytes, hpage⟩, hgone⟩ := hlock.lost hlockCopy
          fun n hn => hout n ⟨hn.1, hn.2, hn.3⟩
        rw [privatePage_setLock] at hpage
        have hstill := (hkeeps rfl client dadr bytes).mpr hpage
        rw [privatePage_setLock, hnot.privatePage] at hstill
        exact absurd hstill (hgone bytes)
      · intro hcondition _ owner page bytes
        rw [privatePage_setLock, hnot.privatePage, ← @privatePage_setLock cache dadr _ _ _ true,
          hlock.privatePage_removeFcb hcopy.chained]
        refine (or_iff_right_of_imp ?_).symm
        intro hstores
        have hcore : ∃ n, cache.IsCopy client dadr n ∧ n < cache.frameCount := by
          by_contra hall
          have hout : ∀ n, cache.IsCopy client dadr n → cache.frameCount ≤ n := by
            intro n hn
            exact Nat.le_of_not_lt fun hlow => hall ⟨n, hn, hlow⟩
          apply hnone
          exact (hlock.frameAvailable_removeScb hlockCopy
            fun n hn => hout n ⟨hn.1, hn.2, hn.3⟩).mpr (hcondition ⟨⟨scbn, hcopy⟩, hout⟩)
        obtain ⟨n, hn, hlow⟩ := hcore
        exact hlock.privatePage_of_twin hlockCopy hswap hlow ⟨hn.1, hn.2, hn.3⟩ hstores

/-- A failure keeps the private pages if and only if the client has the page not only in the
transaction file, or a frame is available. -/
theorem fix_failureKeeps_iff (hcache : cache.CacheInv) (circumstances : Circumstances)
    (client dadr : Nat) :
    (cache.FailureKeeps (cache.fixAnyPage circumstances client dadr) ↔
      (cache.SwappedOut client dadr →
        (cache.setLock dadr true).FrameAvailable circumstances)) ∧
    (cache.FailureKeeps (cache.fixPrivPage circumstances client dadr) ↔
      (cache.SwappedOut client dadr →
        (cache.setLock dadr true).FrameAvailable circumstances)) := by
  simp only [fixAnyPage, fixPrivPage]
  cases howned : cache.owned client dadr with
  | none =>
      have hno : cache.SwappedOut client dadr →
          (cache.setLock dadr true).FrameAvailable circumstances := by
        rintro ⟨⟨n, hn⟩, -⟩
        exact absurd hn (hcache.not_isCopy howned)
      refine ⟨iff_of_true ?_ hno, iff_of_true ?_ hno⟩
      · cases cache.shared (fun _ => true) dadr with
        | none => exact hcache.loadPage_keeps
        | some n => exact failureKeeps_some _ _
      · simp only []
        cases cache.shared (fun fcb => decide (fcb.fixnum = 0)) dadr with
        | none => exact hcache.loadPage_keeps
        | some n => exact failureKeeps_some _ _
  | some n =>
      have hcopy := isCopy_of_owned howned
      by_cases hcore : n < cache.frameCount
      · simp only [if_pos hcore]
        have hno : cache.SwappedOut client dadr →
            (cache.setLock dadr true).FrameAvailable circumstances := by
          rintro ⟨-, hout⟩
          exact absurd (hout n hcopy) (Nat.not_le.mpr hcore)
        exact ⟨iff_of_true (failureKeeps_some _ _) hno,
          iff_of_true (failureKeeps_some _ _) hno⟩
      · simp only [if_neg hcore]
        have hkeeps := @CacheInv.unswapPage_keeps_iff cache circumstances client dadr n hcache
          hcopy (Nat.le_of_not_lt hcore)
        exact ⟨hkeeps, hkeeps⟩

/-- All frames are empty, all swap control blocks free. -/
def frameManagementReset (frameCount scbs : Nat) (frames : Nat → Page)
    (transactor : Transactor) : PageCache :=
  (List.range frameCount).foldl insertFcb
    { fcbs := fun _ => ⟨0, ANY_PAGE, false, 0, 0⟩
      frameCount
      fcbsCount := frameCount + scbs
      chains := fun _ => []
      freeSwapCbs := List.range' frameCount scbs
      frames
      fcbTime := 0
      locked := fun _ => false
      transactor }

/-- The frames that have been chained by the initialisation. -/
structure Filled (cache : PageCache) (count : Nat) : Prop where
  consistent : cache.Consistent
  shared : ∀ n, (cache.fcbs n).owner = ANY_PAGE
  chained : ∀ n, cache.Chained n ↔ n < count

theorem Filled.insertFcb (hfilled : cache.Filled n) (hcore : n < cache.frameCount) :
    (cache.insertFcb n).Filled (n + 1) where
  consistent := by
    apply hfilled.consistent.insertFcb
    exact {
      out := fun hin => Nat.lt_irrefl n ((hfilled.chained n).mp hin)
      bound := Nat.lt_of_lt_of_le hcore hfilled.consistent.counts
      taken := fun hfree =>
        absurd (hfilled.consistent.free n hfree).1 (Nat.not_le.mpr hcore)
      swapped := fun hhigh => absurd hcore (Nat.not_lt.mpr hhigh)
      apart := fun hhigh => absurd hcore (Nat.not_lt.mpr hhigh)
      single := fun hprivate => absurd (hfilled.shared n) hprivate }
  shared := hfilled.shared
  chained m := by
    rw [chained_insertFcb, hfilled.chained]
    omega

theorem Filled.foldl (hfilled : cache.Filled 0) {count : Nat} (hcore : count ≤ cache.frameCount) :
    ((List.range count).foldl PageCache.insertFcb cache).Filled count ∧
      ((List.range count).foldl PageCache.insertFcb cache).frameCount = cache.frameCount := by
  induction count with
  | zero => exact ⟨hfilled, rfl⟩
  | succ count ih =>
      obtain ⟨hfilled, hsame⟩ := ih (Nat.le_of_succ_le hcore)
      rw [List.range_succ, List.foldl_append]
      refine ⟨?_, hsame⟩
      apply hfilled.insertFcb
      rw [hsame]
      exact hcore

theorem CacheInv.reset (frameCount scbs : Nat) (frames : Nat → Page) {transactor : Transactor}
    (hmap : transactor.MapOk) :
    (frameManagementReset frameCount scbs frames transactor).CacheInv := by
  have hnone : ∀ n h : Nat, n ∉ (fun _ : Nat => ([] : List Nat)) h := by
    intro n h hn
    cases hn
  have hstart : Filled
      { fcbs := fun _ => ⟨0, ANY_PAGE, false, 0, 0⟩, frameCount, fcbsCount := frameCount + scbs,
        chains := fun _ => [], freeSwapCbs := List.range' frameCount scbs, frames, fcbTime := 0,
        locked := fun _ => false, transactor } 0 := {
    consistent := {
      counts := Nat.le_add_right ..
      hashed := fun h n hn => absurd hn (hnone n h)
      nodup := fun h => List.nodup_nil
      bound := fun n ⟨h, hn⟩ => absurd hn (hnone n h)
      freeNodup := List.nodup_range'
      free := fun n hn =>
        ⟨(List.mem_range'_1.mp hn).1, (List.mem_range'_1.mp hn).2, fun ⟨h, hm⟩ => hnone n h hm⟩
      mapOk := hmap
      swapped := fun n ⟨h, hn⟩ => absurd hn (hnone n h)
      apart := fun n m ⟨h, hn⟩ => absurd hn (hnone n h)
      single := fun n m ⟨h, hn⟩ => absurd hn (hnone n h) }
    shared := fun _ => rfl
    chained := fun n => iff_of_false (fun ⟨h, hn⟩ => hnone n h hn) (Nat.not_lt_zero n) }
  obtain ⟨hfilled, hsame⟩ := hstart.foldl (Nat.le_refl frameCount)
  refine ⟨hfilled.consistent, ?_⟩
  intro n hn _
  rw [frameManagementReset, hsame] at hn
  exact (hfilled.chained n).mpr hn

def zeroPage : Page := ⟨List.replicate BLOCKSIZE 0, List.length_replicate⟩

/-- Nothing outside the cache goes wrong. -/
def plentiful : Circumstances := ⟨true, true, none, none, some zeroPage⟩

/-- All frames are fixed, and page 100 of client 1 is swapped to block 1. -/
def exhausted : PageCache where
  fcbs n := if n < 35 then ⟨n + 1, ANY_PAGE, false, 1, n + 1⟩ else ⟨100, 1, true, 0, 1⟩
  frameCount := 35
  fcbsCount := 135
  chains h := if 1 ≤ h ∧ h ≤ 35 then [h - 1] else if h = 100 then [35] else []
  freeSwapCbs := List.range' 36 99
  frames _ := zeroPage
  fcbTime := 35
  locked _ := false
  transactor :=
    { (Transactor.construct (Files.File.empty.write (1 * BLOCKSIZE) zeroPage.val)).setBit 1 with
      srchStart := 2 }

theorem exhausted_mem_chains :
    n ∈ exhausted.chains h ↔ n < 35 ∧ h = n + 1 ∨ n = 35 ∧ h = 100 := by
  simp only [exhausted]
  split
  case isTrue hlow =>
    rw [List.mem_singleton]
    omega
  case isFalse hlow =>
    split
    case isTrue hhundred =>
      rw [List.mem_singleton]
      omega
    case isFalse hhundred =>
      refine iff_of_false List.not_mem_nil ?_
      omega

theorem exhausted_chained : exhausted.Chained n ↔ n ≤ 35 := by
  simp only [Chained, exhausted_mem_chains]
  constructor
  · rintro ⟨h, hn⟩
    omega
  · intro hn
    cases Nat.lt_or_eq_of_le hn with
    | inl hlow => exact ⟨n + 1, Or.inl ⟨hlow, rfl⟩⟩
    | inr heq => exact ⟨100, Or.inr ⟨heq, rfl⟩⟩

theorem exhausted_core (hn : n < 35) :
    exhausted.fcbs n = ⟨n + 1, ANY_PAGE, false, 1, n + 1⟩ :=
  if_pos hn

theorem exhausted_swapped : exhausted.Swapped 35 where
  isPrivate := by decide
  block := by
    simp only [Transactor.IsSwapBlock]
    decide
  used := by decide
  readable := by
    refine ⟨zeroPage.val, ?_⟩
    have hread : readFileAt (Files.File.empty.write (1 * BLOCKSIZE) zeroPage.val) 1 =
        some zeroPage.val := Transactor.readFileAt_write_same zeroPage.property
    exact hread

theorem exhausted_inv : exhausted.CacheInv := by
  have hshared : ∀ n, exhausted.Chained n → (exhausted.fcbs n).owner ≠ ANY_PAGE → n = 35 := by
    intro n hn hprivate
    cases Nat.lt_or_eq_of_le (exhausted_chained.mp hn) with
    | inr heq => exact heq
    | inl hlow =>
        rw [exhausted_core hlow] at hprivate
        exact absurd rfl hprivate
  have hlast : ∀ n, exhausted.Chained n → 35 ≤ n → n = 35 := by
    intro n hn hhigh
    exact Nat.le_antisymm (exhausted_chained.mp hn) hhigh
  refine ⟨?_, ?_⟩
  · exact {
      counts := by decide
      hashed := fun h n hn => by
        obtain ⟨hlow, rfl⟩ | ⟨rfl, rfl⟩ := exhausted_mem_chains.mp hn
        · rw [exhausted_core hlow]
          exact Nat.mod_eq_of_lt (show n + 1 < 503 by omega)
        · decide
      nodup := fun h => by
        simp only [exhausted]
        split
        · exact List.nodup_singleton _
        · split
          · exact List.nodup_singleton _
          · exact List.nodup_nil
      bound := fun n hn => by
        have hle := exhausted_chained.mp hn
        change n < 135
        omega
      freeNodup := List.nodup_range'
      free := fun n hn => by
        have hrange := List.mem_range'_1.mp hn
        refine ⟨?_, ?_, ?_⟩
        · change 35 ≤ n
          omega
        · change n < 135
          omega
        · rw [exhausted_chained]
          omega
      mapOk :=
        have hset := (Transactor.construct_mapOk
          (Files.File.empty.write (1 * BLOCKSIZE) zeroPage.val)).setBit 1
        ⟨hset.bound, hset.fresh⟩
      swapped := fun n hn hhigh => by
        rw [hlast n hn hhigh]
        exact exhausted_swapped
      apart := fun n m hn hm hnhigh hmhigh _ => (hlast n hn hnhigh).trans (hlast m hm hmhigh).symm
      single := fun n m hn hm hprivate hsame =>
        Or.inl ((hshared n hn hprivate).trans
          (hshared m hm (by rw [← hsame.2]; exact hprivate)).symm) }
  · intro n hn hzero
    rw [exhausted_core hn] at hzero
    cases hzero

/-- The unswapping finds no frame, and the swapped page is in no chain any more. -/
theorem not_forall_failureKeeps :
    ¬ ∀ cache : PageCache, cache.CacheInv → ∀ circumstances client dadr,
      cache.FailureKeeps (cache.fixAnyPage circumstances client dadr) := by
  intro hall
  have hkeeps := hall exhausted exhausted_inv plentiful 1 100
  have hfix : exhausted.fixAnyPage plentiful 1 100 = exhausted.unswapPage plentiful 100 35 := rfl
  have hcopy : exhausted.IsCopy 1 100 35 :=
    ⟨exhausted_chained.mpr (Nat.le_refl 35), rfl, rfl⟩
  rw [hfix, exhausted_inv.unswapPage_keeps_iff hcopy (Nat.le_refl 35)] at hkeeps
  have hout : exhausted.SwappedOut 1 100 := by
    refine ⟨⟨35, hcopy⟩, ?_⟩
    intro n hn
    by_contra hlow
    have howner := hn.owner
    rw [exhausted_core (Nat.lt_of_not_le hlow)] at howner
    cases howner
  obtain ⟨n, hleast, -⟩ := hkeeps hout
  obtain ⟨hcore, hzero⟩ := leastUsed_spec hleast
  change n < 35 at hcore
  change (exhausted.fcbs n).fixnum = 0 at hzero
  rw [exhausted_core hcore] at hzero
  cases hzero

theorem fix_failureKeeps_iff_exhausted :
    exhausted.CacheInv ∧
      (exhausted.FailureKeeps (exhausted.fixPrivPage plentiful 1 100) ↔
        (exhausted.SwappedOut 1 100 →
          (exhausted.setLock 100 true).FrameAvailable plentiful)) :=
  ⟨exhausted_inv, (fix_failureKeeps_iff exhausted_inv plentiful 1 100).2⟩

end PageCache

end Sql602.Swap
