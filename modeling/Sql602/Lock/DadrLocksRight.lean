import Sql602.Library.Chains
import Sql602.Lock.DadrLocks

namespace Sql602.Lock

open Links

/-! No block number is locked twice, and whoever waits for one is in the list until it is
unlocked. -/

variable {Cdp : Type*} [DecidableEq Cdp]

namespace DadrLocks

variable {l : DadrLocks Cdp} {cdp t : Cdp} {dadr : Nat}

theorem setDws_self (l : DadrLocks Cdp) (cdp : Cdp) (dws : Dws Cdp) :
    (l.setDws cdp dws).dws cdp = dws :=
  Function.update_self ..

theorem setDws_of_ne (l : DadrLocks Cdp) (dws : Dws Cdp) (ht : t ≠ cdp) :
    (l.setDws cdp dws).dws t = l.dws t :=
  Function.update_of_ne ht ..

/-- A thread's own fields after a change of one of them. -/
theorem setDws_same {β : Type*} (field : Dws Cdp → β) (dws : Dws Cdp)
    (hsame : field dws = field (l.dws cdp)) (t : Cdp) :
    field ((l.setDws cdp dws).dws t) = field (l.dws t) := by
  by_cases ht : t = cdp
  · rw [ht, setDws_self, hsame]
  · rw [setDws_of_ne l dws ht]

theorem post_next (l : DadrLocks Cdp) (cdp t : Cdp) :
    ((l.post cdp).dws t).next = (l.dws t).next := by
  apply setDws_same Dws.next
  rfl

theorem post_lockingDadr (l : DadrLocks Cdp) (cdp t : Cdp) :
    ((l.post cdp).dws t).lockingDadr = (l.dws t).lockingDadr := by
  apply setDws_same Dws.lockingDadr
  rfl

theorem post_hSemaphore (l : DadrLocks Cdp) (cdp t : Cdp) :
    ((l.post cdp).dws t).hSemaphore = (l.dws t).hSemaphore + if t = cdp then 1 else 0 := by
  rw [post]
  by_cases ht : t = cdp
  · rw [ht, setDws_self, if_pos rfl]
  · rw [setDws_of_ne l _ ht, if_neg ht, Nat.add_zero]

theorem assign_lockingDadr (l : DadrLocks Cdp) (value pcdp : Option Cdp) (t : Cdp) :
    ((l.assign value pcdp).dws t).lockingDadr = (l.dws t).lockingDadr := by
  cases pcdp with
  | none => rfl
  | some cdp =>
      apply setDws_same Dws.lockingDadr
      rfl

theorem assign_hSemaphore (l : DadrLocks Cdp) (value pcdp : Option Cdp) (t : Cdp) :
    ((l.assign value pcdp).dws t).hSemaphore = (l.dws t).hSemaphore := by
  cases pcdp with
  | none => rfl
  | some cdp =>
      apply setDws_same Dws.hSemaphore
      rfl

theorem assign_cells (l : DadrLocks Cdp) (value pcdp : Option Cdp) :
    (l.assign value pcdp).dadrs = l.dadrs ∧ (l.assign value pcdp).lastUsed = l.lastUsed := by
  cases pcdp with
  | none => exact ⟨rfl, rfl⟩
  | some cdp => exact ⟨rfl, rfl⟩

theorem deref_assign (l : DadrLocks Cdp) (value pcdp : Option Cdp) :
    (l.assign value pcdp).deref pcdp = value := by
  cases pcdp with
  | none => rfl
  | some cdp => rw [assign, deref, setDws_self]

theorem deref_post (l : DadrLocks Cdp) (cdp : Cdp) (pcdp : Option Cdp) :
    (l.post cdp).deref pcdp = l.deref pcdp := by
  cases pcdp with
  | none => rfl
  | some t => exact post_next l cdp t

/-- The threads in the list. -/
def Waits (l : DadrLocks Cdp) (list : List Cdp) : Prop :=
  Linked (fun t => (l.dws t).next) l.waitingForDadr list

theorem Waits.assign {kept rest : List Cdp} {a : Cdp} (hwaits : l.Waits (kept ++ a :: rest))
    (hnodup : (kept ++ a :: rest).Nodup) :
    (l.assign (l.dws a).next kept.getLast?).Waits (kept ++ rest) := by
  obtain rfl | ⟨front, b, rfl⟩ := List.eq_nil_or_concat' kept
  · exact hwaits.2
  · rw [List.append_assoc, List.singleton_append] at hwaits hnodup
    rw [List.append_assoc, List.singleton_append, List.getLast?_concat]
    rw [List.nodup_append, List.nodup_cons, List.mem_cons, not_or] at hnodup
    obtain ⟨-, ⟨⟨-, hrest⟩, -⟩, hfront⟩ := hnodup
    have hlinked := Linked.unlink hwaits (fun hb => hfront b hb b List.mem_cons_self rfl) hrest
    refine Linked.congr hlinked fun t _ => ?_
    rw [DadrLocks.assign]
    by_cases ht : t = b
    · rw [ht, Function.update_self, setDws_self]
    · rw [Function.update_of_ne ht, setDws_of_ne l _ ht]

theorem Waits.post {list : List Cdp} (hwaits : l.Waits list) (cdp : Cdp) :
    (l.post cdp).Waits list :=
  Linked.congr hwaits fun t _ => (post_next l cdp t).symm

/-- Just the threads that wait for the block number leave the list. -/
theorem release_spec (dadr : Nat) {fuel : Nat} {kept rest : List Cdp} (hwaits : l.Waits (kept ++ rest))
    (hnodup : (kept ++ rest).Nodup) (hfuel : rest.length ≤ fuel) :
    ∃ l', release dadr fuel l kept.getLast? rest.head? = some l' ∧
      l'.Waits (kept ++ rest.filter fun t => (l.dws t).lockingDadr ≠ dadr) ∧
      l'.dadrs = l.dadrs ∧ l'.lastUsed = l.lastUsed ∧
      ∀ t, (l'.dws t).lockingDadr = (l.dws t).lockingDadr ∧
        (l'.dws t).hSemaphore = (l.dws t).hSemaphore +
          if t ∈ rest ∧ (l.dws t).lockingDadr = dadr then 1 else 0 := by
  induction rest generalizing l kept fuel with
  | nil =>
      refine ⟨l, ?_, hwaits, rfl, rfl, fun t => ⟨rfl, ?_⟩⟩
      · cases fuel <;> rfl
      · rw [if_neg fun ht => List.not_mem_nil ht.1]
        rfl
  | cons a rest ih =>
      obtain ⟨fuel, rfl⟩ := Nat.exists_eq_add_of_le' hfuel
      have hnext : (l.dws a).next = rest.head? := Linked.next_eq hwaits
      rw [List.length_cons, ← Nat.add_assoc, List.head?_cons, release]
      by_cases ha : (l.dws a).lockingDadr = dadr
      · have hafter := (hwaits.assign hnodup).post a
        have hnodup' : (kept ++ rest).Nodup :=
          hnodup.sublist ((List.sublist_cons_self a rest).append_left kept)
        obtain ⟨l', hrelease, hwaits', hdadrs, hlast, hdws⟩ :=
          ih hafter hnodup' (Nat.le_add_left rest.length fuel)
        rw [if_pos ha]
        dsimp only
        rw [deref_post, deref_assign]
        rw [← hnext] at hrelease
        obtain ⟨hsame, hsamelast⟩ := assign_cells l (l.dws a).next kept.getLast?
        have hlocking : ∀ t, (((l.assign (l.dws a).next kept.getLast?).post a).dws t).lockingDadr =
            (l.dws t).lockingDadr := fun t =>
          (post_lockingDadr ..).trans (assign_lockingDadr ..)
        refine ⟨l', hrelease, ?_, hdadrs.trans hsame, hlast.trans hsamelast, fun t => ?_⟩
        · rw [List.filter_cons, if_neg fun hne => (of_decide_eq_true hne : ¬ _ = dadr) ha]
          simp only [hlocking] at hwaits'
          exact hwaits'
        · obtain ⟨hdadr, hsemaphore⟩ := hdws t
          refine ⟨hdadr.trans (hlocking t), ?_⟩
          rw [hsemaphore, post_hSemaphore, assign_hSemaphore, hlocking, Nat.add_assoc]
          rw [List.nodup_append, List.nodup_cons] at hnodup
          by_cases ht : t = a
          · rw [ht, if_pos rfl, if_neg fun hmem => hnodup.2.1.1 hmem.1,
              if_pos ⟨List.mem_cons_self, ha⟩]
          · rw [if_neg ht, Nat.zero_add]
            refine congrArg _ (if_congr (and_congr_left fun _ => ?_) rfl rfl)
            rw [List.mem_cons, or_iff_right ht]
      · rw [if_neg ha, hnext]
        have happend : kept ++ a :: rest = (kept ++ [a]) ++ rest := by
          rw [List.append_assoc, List.singleton_append]
        rw [happend] at hwaits hnodup
        obtain ⟨l', hrelease, hwaits', hdadrs, hlast, hdws⟩ :=
          ih hwaits hnodup (Nat.le_add_left rest.length fuel)
        rw [List.getLast?_concat] at hrelease
        refine ⟨l', hrelease, ?_, hdadrs, hlast, fun t => ?_⟩
        · rw [List.filter_cons, if_pos (decide_eq_true ha)]
          rwa [List.append_assoc] at hwaits'
        · obtain ⟨hdadr, hsemaphore⟩ := hdws t
          refine ⟨hdadr, ?_⟩
          rw [hsemaphore]
          refine congrArg _ (if_congr (and_congr_left fun hlocking => ?_) rfl rfl)
          rw [List.mem_cons, or_iff_right]
          rintro rfl
          exact ha hlocking

theorem search_spec (dadrs : Int → Nat) (dadr turns : Nat) (i fr : Int) :
    (search dadrs dadr turns i fr = none ∧ ∃ j, i ≤ j ∧ j < i + turns ∧ dadrs j = dadr) ∨
    ∃ fr', search dadrs dadr turns i fr = some fr' ∧
      (∀ j, i ≤ j → j < i + turns → dadrs j ≠ dadr) ∧
      ((fr' = fr ∧ ∀ j, i ≤ j → j < i + turns → dadrs j ≠ 0) ∨
        (i ≤ fr' ∧ fr' < i + turns ∧ dadrs fr' = 0)) := by
  induction turns generalizing i fr with
  | zero =>
      have hnone : ∀ j, i ≤ j → ¬ j < i + (0 : Nat) := fun j hi hj => by
        omega
      exact .inr ⟨fr, rfl, fun j hi hj => absurd hj (hnone j hi),
        .inl ⟨rfl, fun j hi hj => absurd hj (hnone j hi)⟩⟩
  | succ turns ih =>
      rw [search]
      by_cases hfound : dadrs i = dadr
      · refine .inl ⟨if_pos hfound, i, Int.le_refl i, ?_, hfound⟩
        omega
      · rw [if_neg hfound]
        obtain ⟨hnone, j, hi, hj, heq⟩ | ⟨fr', hsome, hother, hfree⟩ :=
          ih (i + 1) (if dadrs i = 0 then i else fr)
        · refine .inl ⟨hnone, j, ?_, ?_, heq⟩
          · omega
          · omega
        · refine .inr ⟨fr', hsome, fun j hi hj => ?_, ?_⟩
          · by_cases heq : j = i
            · rw [heq]
              exact hfound
            · exact hother j (by omega) (by omega)
          · obtain ⟨hfr, hused⟩ | ⟨hlow, hhigh, hzero⟩ := hfree
            · by_cases hzero : dadrs i = 0
              · rw [if_pos hzero] at hfr
                rw [hfr]
                refine .inr ⟨Int.le_refl i, ?_, hzero⟩
                omega
              · rw [if_neg hzero] at hfr
                refine .inl ⟨hfr, fun j hi hj => ?_⟩
                by_cases heq : j = i
                · rw [heq]
                  exact hzero
                · exact hused j (by omega) (by omega)
            · exact .inr ⟨by omega, by omega, hzero⟩

end DadrLocks

namespace Threads

variable {s : Threads Cdp} {list : List Cdp} {cdp t : Cdp} {dadr : Nat}

/-- What `wait_lock` does from `lock_retry` on. -/
theorem lockRetry_cases (s : Threads Cdp) (cdp : Cdp) (dadr : Nat)
    (hlow : -1 ≤ s.locks.lastUsed) :
    ((∃ i, 0 ≤ i ∧ i ≤ s.locks.lastUsed ∧ s.locks.dadrs i = dadr) ∧
      s.lockRetry cdp dadr = s.enqueue cdp dadr) ∨
    ((MAX_DADR_LOCKS - 1 ≤ s.locks.lastUsed ∧
        ∀ i, 0 ≤ i → i ≤ s.locks.lastUsed → s.locks.dadrs i ≠ 0) ∧
      s.lockRetry cdp dadr = s.sleep cdp dadr) ∨
    ∃ fr lastUsed, (∀ i, 0 ≤ i → i ≤ s.locks.lastUsed → s.locks.dadrs i ≠ dadr) ∧
      ((0 ≤ fr ∧ fr ≤ s.locks.lastUsed ∧ s.locks.dadrs fr = 0 ∧ lastUsed = s.locks.lastUsed) ∨
        (fr = s.locks.lastUsed + 1 ∧ lastUsed = fr ∧ fr < MAX_DADR_LOCKS)) ∧
      s.lockRetry cdp dadr = s.lock cdp dadr fr lastUsed := by
  have hturns : ∀ j, j < 0 + ((s.locks.lastUsed + 1).toNat : Int) ↔ j ≤ s.locks.lastUsed := by
    intro j
    omega
  rw [lockRetry]
  obtain ⟨hnone, i, hi, hlast, hfound⟩ | ⟨fr, hsome, hother, hfree⟩ :=
    DadrLocks.search_spec s.locks.dadrs dadr (s.locks.lastUsed + 1).toNat 0 (-1)
  · rw [hnone]
    exact .inl ⟨⟨i, hi, (hturns i).mp hlast, hfound⟩, rfl⟩
  · rw [hsome]
    simp only [hturns] at hother hfree
    dsimp only
    obtain ⟨rfl, hused⟩ | ⟨hlow', hhigh, hzero⟩ := hfree
    · rw [if_pos rfl]
      by_cases hfull : s.locks.lastUsed ≥ MAX_DADR_LOCKS - 1
      · rw [if_pos hfull]
        exact .inr (.inl ⟨⟨hfull, hused⟩, rfl⟩)
      · rw [if_neg hfull]
        refine .inr (.inr ⟨_, _, hother, .inr ⟨rfl, rfl, ?_⟩, rfl⟩)
        omega
    · rw [if_neg (by omega)]
      exact .inr (.inr ⟨fr, _, hother, .inl ⟨hlow', hhigh, hzero, rfl⟩, rfl⟩)

/-- The cells are the indices that threads have got. -/
structure Owned (s : Threads Cdp) : Prop where
  low : -1 ≤ s.locks.lastUsed
  high : s.locks.lastUsed < MAX_DADR_LOCKS
  got : ∀ got ∈ s.got, 0 ≤ got.ind ∧ got.ind ≤ s.locks.lastUsed ∧
    s.locks.dadrs got.ind = got.dadr ∧ got.dadr ≠ 0
  single : (s.got.map Got.ind).Nodup
  owner : ∀ i, 0 ≤ i → i ≤ s.locks.lastUsed → s.locks.dadrs i ≠ 0 → ∃ got ∈ s.got, got.ind = i
  cells : ∀ i j, 0 ≤ i → i ≤ s.locks.lastUsed → 0 ≤ j → j ≤ s.locks.lastUsed →
    s.locks.dadrs i ≠ 0 → s.locks.dadrs i = s.locks.dadrs j → i = j

/-- A waiting thread is in the list and its semaphore is down, or it has been taken out of it
and its semaphore has been posted. -/
structure Listed (s : Threads Cdp) (list : List Cdp) : Prop where
  waits : s.locks.Waits list
  nodup : list.Nodup
  inside : ∀ t ∈ list, s.status t = .waiting (s.locks.dws t).lockingDadr ∧
    (s.locks.dws t).hSemaphore = 0 ∧ ∃ got ∈ s.got, got.dadr = (s.locks.dws t).lockingDadr
  posted : ∀ t ∉ list, ∀ dadr, s.status t = .waiting dadr → (s.locks.dws t).hSemaphore = 1
  quiet : ∀ t, (∀ dadr, s.status t ≠ .waiting dadr) → (s.locks.dws t).hSemaphore = 0

omit [DecidableEq Cdp] in
theorem Listed.congr {s' : Threads Cdp} (hlisted : s.Listed list)
    (hdws : s'.locks.dws = s.locks.dws)
    (hhead : s'.locks.waitingForDadr = s.locks.waitingForDadr)
    (hstatus : ∀ t dadr, s'.status t = .waiting dadr ↔ s.status t = .waiting dadr)
    (hgot : s.got ⊆ s'.got) : s'.Listed list := by
  refine ⟨?_, hlisted.nodup, fun t ht => ?_, fun t ht dadr hwaiting => ?_, fun t hquiet => ?_⟩
  · rw [DadrLocks.Waits, hdws, hhead]
    exact hlisted.waits
  · obtain ⟨hwaiting, hsemaphore, got, hmem, hdadr⟩ := hlisted.inside t ht
    rw [hdws]
    exact ⟨(hstatus t _).mpr hwaiting, hsemaphore, got, hgot hmem, hdadr⟩
  · rw [hdws]
    exact hlisted.posted t ht dadr ((hstatus t dadr).mp hwaiting)
  · rw [hdws]
    exact hlisted.quiet t fun dadr hwaiting => hquiet dadr ((hstatus t dadr).mpr hwaiting)

omit [DecidableEq Cdp] in
theorem Listed.not_mem (hlisted : s.Listed list) (hout : ∀ dadr, s.status t ≠ .waiting dadr) :
    t ∉ list := fun ht => hout _ (hlisted.inside t ht).1

theorem waiting_update {status : Cdp → Status} {new : Status}
    (hout : ∀ dadr, status cdp ≠ .waiting dadr) (hnew : ∀ dadr, new ≠ .waiting dadr) (t : Cdp)
    (dadr : Nat) :
    Function.update status cdp new t = .waiting dadr ↔ status t = .waiting dadr := by
  by_cases ht : t = cdp
  · rw [ht, Function.update_self]
    exact iff_of_false (hnew dadr) (hout dadr)
  · rw [Function.update_of_ne ht]

theorem Listed.enqueue (hlisted : s.Listed list) (hout : ∀ dadr, s.status cdp ≠ .waiting dadr)
    (hlocked : ∃ got ∈ s.got, got.dadr = dadr) : (s.enqueue cdp dadr).Listed (cdp :: list) := by
  have hcdp := hlisted.not_mem hout
  have hself : (s.enqueue cdp dadr).locks.dws cdp =
      { s.locks.dws cdp with lockingDadr := dadr, next := s.locks.waitingForDadr } :=
    Function.update_self ..
  have hother : ∀ t, t ≠ cdp → (s.enqueue cdp dadr).locks.dws t = s.locks.dws t := fun t ht =>
    Function.update_of_ne ht ..
  have hstatus : ∀ t, t ≠ cdp → (s.enqueue cdp dadr).status t = s.status t := fun t ht =>
    Function.update_of_ne ht ..
  have hwaiting : (s.enqueue cdp dadr).status cdp = .waiting dadr := Function.update_self ..
  refine ⟨?_, List.nodup_cons.mpr ⟨hcdp, hlisted.nodup⟩, fun t ht => ?_, fun t ht d hd => ?_,
    fun t hquiet => ?_⟩
  · refine Linked.congr (Linked.push hlisted.waits hcdp) fun t _ => ?_
    by_cases ht : t = cdp
    · rw [ht, Function.update_self, hself]
    · rw [Function.update_of_ne ht, hother t ht]
  · by_cases heq : t = cdp
    · rw [heq, hself, hwaiting]
      exact ⟨rfl, hlisted.quiet cdp hout, hlocked⟩
    · rw [hother t heq, hstatus t heq]
      exact hlisted.inside t (List.mem_of_ne_of_mem heq ht)
  · rw [List.mem_cons, not_or] at ht
    rw [hstatus t ht.1] at hd
    rw [hother t ht.1]
    exact hlisted.posted t ht.2 d hd
  · have ht : t ≠ cdp := fun heq => hquiet dadr (heq ▸ hwaiting)
    rw [hother t ht]
    refine hlisted.quiet t fun d hd => hquiet d ?_
    rw [hstatus t ht]
    exact hd

theorem Listed.pass (hlisted : s.Listed list) (hwaiting : s.status cdp = .waiting dadr)
    (hposted : (s.locks.dws cdp).hSemaphore ≠ 0) :
    Listed { s with
      locks := s.locks.pass cdp
      status := Function.update s.status cdp (.woken dadr) } list := by
  have hcdp : cdp ∉ list := fun hmem => hposted (hlisted.inside cdp hmem).2.1
  have hone := hlisted.posted cdp hcdp dadr hwaiting
  have hother : ∀ t, t ≠ cdp → (s.locks.pass cdp).dws t = s.locks.dws t := fun t ht =>
    Function.update_of_ne ht ..
  refine ⟨?_, hlisted.nodup, fun t ht => ?_, fun t ht d hd => ?_, fun t hquiet => ?_⟩
  · refine Linked.congr hlisted.waits fun t ht => ?_
    dsimp only
    rw [hother t fun heq => hcdp (heq ▸ ht)]
  · have hne : t ≠ cdp := fun heq => hcdp (heq ▸ ht)
    dsimp only
    rw [hother t hne, Function.update_of_ne hne]
    exact hlisted.inside t ht
  · have hne : t ≠ cdp := fun heq => by
      dsimp only at hd
      rw [heq, Function.update_self] at hd
      cases hd
    dsimp only at hd ⊢
    rw [Function.update_of_ne hne] at hd
    rw [hother t hne]
    exact hlisted.posted t ht d hd
  · dsimp only at hquiet ⊢
    by_cases ht : t = cdp
    · rw [ht, DadrLocks.pass, DadrLocks.setDws_self]
      dsimp only
      rw [hone]
    · rw [Function.update_of_ne ht] at hquiet
      rw [hother t ht]
      exact hlisted.quiet t hquiet

theorem Owned.lock (howned : s.Owned) {fr lastUsed : Int} (hdadr : dadr ≠ 0)
    (hother : ∀ i, 0 ≤ i → i ≤ s.locks.lastUsed → s.locks.dadrs i ≠ dadr)
    (hcell : (0 ≤ fr ∧ fr ≤ s.locks.lastUsed ∧ s.locks.dadrs fr = 0 ∧
        lastUsed = s.locks.lastUsed) ∨
      (fr = s.locks.lastUsed + 1 ∧ lastUsed = fr ∧ fr < MAX_DADR_LOCKS)) :
    (s.lock cdp dadr fr lastUsed).Owned := by
  have hlow := howned.low
  have hhigh := howned.high
  have hself : (s.lock cdp dadr fr lastUsed).locks.dadrs fr = dadr := Function.update_self ..
  have hsame : ∀ i, i ≠ fr → (s.lock cdp dadr fr lastUsed).locks.dadrs i = s.locks.dadrs i :=
    fun i hi => Function.update_of_ne hi ..
  have hlast : (s.lock cdp dadr fr lastUsed).locks.lastUsed = lastUsed := rfl
  -- the cell is new or was free, so that no thread has its index
  have hfresh : ∀ got ∈ s.got, got.ind ≠ fr := fun got hgot heq => by
    obtain ⟨hpos, hle, hdadrs, hnonzero⟩ := howned.got got hgot
    obtain ⟨-, -, hzero, -⟩ | ⟨hnew, -, -⟩ := hcell
    · exact hnonzero (hdadrs ▸ heq ▸ hzero)
    · omega
  have hinside : ∀ i, i ≠ fr → i ≤ lastUsed → i ≤ s.locks.lastUsed := fun i hne hi => by
    omega
  refine ⟨?_, ?_, ?_, ?_, ?_, ?_⟩
  · rw [hlast]
    omega
  · rw [hlast]
    omega
  · intro got hgot
    rw [hlast]
    obtain rfl | hgot := List.mem_cons.mp hgot
    · exact ⟨by dsimp only; omega, by dsimp only; omega, hself, hdadr⟩
    · obtain ⟨hpos, hle, hdadrs, hnonzero⟩ := howned.got got hgot
      rw [hsame got.ind (hfresh got hgot)]
      exact ⟨hpos, by omega, hdadrs, hnonzero⟩
  · refine List.nodup_cons.mpr ⟨fun hmem => ?_, howned.single⟩
    obtain ⟨got, hgot, heq⟩ := List.mem_map.mp hmem
    exact hfresh got hgot heq
  · intro i hpos hle hused
    by_cases hi : i = fr
    · exact ⟨_, List.mem_cons_self, hi.symm⟩
    · rw [hsame i hi] at hused
      obtain ⟨got, hgot, heq⟩ := howned.owner i hpos (hinside i hi hle) hused
      exact ⟨got, List.mem_cons_of_mem _ hgot, heq⟩
  · intro i j hi hilast hj hjlast hused heq
    by_cases hifr : i = fr
    · by_cases hjfr : j = fr
      · exact hifr.trans hjfr.symm
      · rw [hifr, hself, hsame j hjfr] at heq
        exact absurd heq.symm (hother j hj (hinside j hjfr hjlast))
    · rw [hsame i hifr] at hused heq
      by_cases hjfr : j = fr
      · rw [hjfr, hself] at heq
        exact absurd heq (hother i hi (hinside i hifr hilast))
      · rw [hsame j hjfr] at heq
        exact howned.cells i j hi (hinside i hifr hilast) hj (hinside j hjfr hjlast) hused heq

omit [DecidableEq Cdp] in
/-- The cell of a thread is unlocked, and `locks` is what the release of the list has made. -/
theorem Owned.unlock (howned : s.Owned) {got : Got Cdp} (hgot : got ∈ s.got)
    {locks : DadrLocks Cdp} (hdadrs : locks.dadrs = Function.update s.locks.dadrs got.ind 0)
    (hlast : locks.lastUsed = if got.ind = s.locks.lastUsed then s.locks.lastUsed - 1
      else s.locks.lastUsed) :
    Owned { s with locks, got := s.got.filter fun other => other.ind ≠ got.ind } := by
  have hlow := howned.low
  have hhigh := howned.high
  obtain ⟨hpos, hle, -, -⟩ := howned.got got hgot
  have hself : locks.dadrs got.ind = 0 := by
    rw [hdadrs, Function.update_self]
  have hsame : ∀ i, i ≠ got.ind → locks.dadrs i = s.locks.dadrs i := fun i hi => by
    rw [hdadrs, Function.update_of_ne hi]
  have hinside : ∀ i, i ≤ locks.lastUsed → i ≤ s.locks.lastUsed := fun i hi => by
    split at hlast
    · omega
    · omega
  refine ⟨?_, ?_, ?_, ?_, ?_, ?_⟩
  · dsimp only
    split at hlast
    · omega
    · omega
  · dsimp only
    split at hlast
    · omega
    · omega
  · intro other hother
    dsimp only at hother ⊢
    rw [List.mem_filter, decide_eq_true_iff] at hother
    obtain ⟨hother, hne⟩ := hother
    obtain ⟨hposition, hbound, hcell, hnonzero⟩ := howned.got other hother
    rw [hsame other.ind hne]
    refine ⟨hposition, ?_, hcell, hnonzero⟩
    split at hlast
    · omega
    · omega
  · exact howned.single.sublist (List.filter_sublist.map _)
  · intro i hi hbound hused
    dsimp only at hbound hused ⊢
    have hne : i ≠ got.ind := fun heq => hused (heq ▸ hself)
    rw [hsame i hne] at hused
    obtain ⟨other, hother, heq⟩ := howned.owner i hi (hinside i hbound) hused
    refine ⟨other, List.mem_filter.mpr ⟨hother, decide_eq_true ?_⟩, heq⟩
    rw [heq]
    exact hne
  · intro i j hi hilast hj hjlast hused heq
    dsimp only at hilast hjlast hused heq
    have hne : i ≠ got.ind := fun heq => hused (heq ▸ hself)
    have hnej : j ≠ got.ind := fun hj => hused (by rw [heq, hj, hself])
    rw [hsame i hne] at hused heq
    rw [hsame j hnej] at heq
    exact howned.cells i j hi (hinside i hilast) hj (hinside j hjlast) hused heq

theorem Listed.unlock (hlisted : s.Listed list) (howned : s.Owned) {got : Got Cdp}
    (hgot : got ∈ s.got) {locks : DadrLocks Cdp}
    (hwaits : locks.Waits (list.filter fun t => (s.locks.dws t).lockingDadr ≠ got.dadr))
    (hdws : ∀ t, (locks.dws t).lockingDadr = (s.locks.dws t).lockingDadr ∧
      (locks.dws t).hSemaphore = (s.locks.dws t).hSemaphore +
        if t ∈ list ∧ (s.locks.dws t).lockingDadr = got.dadr then 1 else 0) :
    Listed { s with locks, got := s.got.filter fun other => other.ind ≠ got.ind }
      (list.filter fun t => (s.locks.dws t).lockingDadr ≠ got.dadr) := by
  refine ⟨hwaits, hlisted.nodup.filter _, fun t ht => ?_, fun t ht dadr hwaiting => ?_,
    fun t hquiet => ?_⟩
  · rw [List.mem_filter, decide_eq_true_iff] at ht
    obtain ⟨hstatus, hsemaphore, other, hother, hdadr⟩ := hlisted.inside t ht.1
    obtain ⟨hsame, hcount⟩ := hdws t
    dsimp only
    rw [hsame, hcount, if_neg fun h => ht.2 h.2]
    refine ⟨hstatus, hsemaphore, other, ?_, hdadr⟩
    refine List.mem_filter.mpr ⟨hother, decide_eq_true fun heq => ht.2 ?_⟩
    rw [← hdadr, ← (howned.got other hother).2.2.1, heq, (howned.got got hgot).2.2.1]
  · dsimp only at hwaiting ⊢
    obtain ⟨-, hcount⟩ := hdws t
    rw [hcount]
    by_cases hmem : t ∈ list
    · have hdadr : (s.locks.dws t).lockingDadr = got.dadr := by
        by_contra hne
        exact ht (List.mem_filter.mpr ⟨hmem, decide_eq_true hne⟩)
      rw [if_pos ⟨hmem, hdadr⟩, (hlisted.inside t hmem).2.1]
    · rw [if_neg fun h => hmem h.1]
      exact hlisted.posted t hmem dadr hwaiting
  · dsimp only at hquiet ⊢
    rw [(hdws t).2, if_neg fun h => hlisted.not_mem hquiet h.1]
    exact hlisted.quiet t hquiet

end Threads

end Sql602.Lock
