import Sql602.Lock.DadrLocksRight

namespace Sql602.Lock

open Links

/-! Runs of any threads. -/

variable {Cdp : Type*} [DecidableEq Cdp]

/-- The block number for which a thread is in `wait_lock`. -/
def Status.asked : Status → Option Nat
  | .outside => none
  | .waiting dadr | .woken dadr | .sleeping dadr => some dadr

namespace Threads

variable {s s' : Threads Cdp} {list list' : List Cdp} {cdp t : Cdp} {dadr : Nat}
  {a : Action Cdp}

structure Inv (s : Threads Cdp) (list : List Cdp) : Prop where
  owned : s.Owned
  listed : s.Listed list
  fuel : list.length ≤ s.enqueued
  asked : ∀ t dadr, (s.status t).asked = some dadr → dadr ≠ 0

/-- What an action means for the threads in the list and for the indices that threads have. -/
structure StepRight (s : Threads Cdp) (list : List Cdp) (a : Action Cdp) (s' : Threads Cdp)
    (list' : List Cdp) : Prop where
  kept : ∀ got ∈ s.got, got ∈ s'.got ∨ a = .unlock got.cdp got.ind
  stays : ∀ t ∈ list, (∀ cdp ind, a = .unlock cdp ind →
      s.locks.dadrs ind ≠ (s.locks.dws t).lockingDadr) →
    t ∈ list' ∧ (s'.locks.dws t).hSemaphore = (s.locks.dws t).hSemaphore
  released : ∀ t ∈ list, ∀ cdp ind, a = .unlock cdp ind →
    s.locks.dadrs ind = (s.locks.dws t).lockingDadr →
    t ∉ list' ∧ (s'.locks.dws t).hSemaphore = (s.locks.dws t).hSemaphore + 1
  unposted : ∀ t ∉ list, (s'.locks.dws t).hSemaphore ≤ (s.locks.dws t).hSemaphore

omit [DecidableEq Cdp] in
/-- An action that is no `unlock` takes nobody out of the list and posts no semaphore. -/
theorem StepRight.of_subset (ha : ∀ cdp ind, a ≠ .unlock cdp ind) (hgot : s.got ⊆ s'.got)
    (hlist : list ⊆ list')
    (hsame : ∀ t ∈ list, (s'.locks.dws t).hSemaphore = (s.locks.dws t).hSemaphore)
    (hless : ∀ t ∉ list, (s'.locks.dws t).hSemaphore ≤ (s.locks.dws t).hSemaphore) :
    StepRight s list a s' list' where
  kept := fun _ hmem => .inl (hgot hmem)
  stays := fun t ht _ => ⟨hlist ht, hsame t ht⟩
  released := fun _ _ cdp ind hunlock => absurd hunlock (ha cdp ind)
  unposted := hless

theorem asked_update {status : Cdp → Status} {new : Status}
    (hasked : ∀ t dadr, (status t).asked = some dadr → dadr ≠ 0)
    (hnew : ∀ dadr, new.asked = some dadr → dadr ≠ 0) (t : Cdp) (dadr : Nat)
    (ht : (Function.update status cdp new t).asked = some dadr) : dadr ≠ 0 := by
  by_cases heq : t = cdp
  · rw [heq, Function.update_self] at ht
    exact hnew dadr ht
  · rw [Function.update_of_ne heq] at ht
    exact hasked t dadr ht

theorem Inv.lockRetry (hinv : s.Inv list) (hout : ∀ dadr, s.status cdp ≠ .waiting dadr)
    (hdadr : dadr ≠ 0) :
    ∃ list', (s.lockRetry cdp dadr).Inv list' ∧ list ⊆ list' ∧ s.got ⊆ (s.lockRetry cdp dadr).got ∧
      ∀ t, ((s.lockRetry cdp dadr).locks.dws t).hSemaphore = (s.locks.dws t).hSemaphore := by
  obtain ⟨howned, hlisted, hfuel, hasked⟩ := hinv
  obtain ⟨⟨i, hpos, hle, hlocked⟩, henqueue⟩ | ⟨-, hsleep⟩ | ⟨fr, lastUsed, hother, hcell, hlock⟩ :=
    lockRetry_cases s cdp dadr howned.low
  · rw [henqueue]
    obtain ⟨got, hgot, heq⟩ := howned.owner i hpos hle (hlocked ▸ hdadr)
    have hgotdadr : got.dadr = dadr := by
      rw [← hlocked, ← heq]
      exact (howned.got got hgot).2.2.1.symm
    refine ⟨cdp :: list, ⟨?_, hlisted.enqueue hout ⟨got, hgot, hgotdadr⟩, Nat.succ_le_succ hfuel,
      asked_update hasked ?_⟩, List.subset_cons_self _ _, fun _ hmem => hmem, fun t => ?_⟩
    · exact ⟨howned.low, howned.high, howned.got, howned.single, howned.owner, howned.cells⟩
    · intro d hd
      exact Option.some.inj hd ▸ hdadr
    · apply DadrLocks.setDws_same Dws.hSemaphore
      rfl
  · rw [hsleep]
    refine ⟨list, ⟨?_, ?_, hfuel, asked_update hasked ?_⟩, fun _ hmem => hmem, fun _ hmem => hmem,
      fun _ => rfl⟩
    · exact ⟨howned.low, howned.high, howned.got, howned.single, howned.owner, howned.cells⟩
    · exact hlisted.congr rfl rfl (waiting_update hout nofun) fun _ hmem => hmem
    · intro d hd
      exact Option.some.inj hd ▸ hdadr
  · rw [hlock]
    have hgot : s.got ⊆ (s.lock cdp dadr fr lastUsed).got := List.subset_cons_self _ _
    refine ⟨list, ⟨howned.lock hdadr hother hcell, ?_, hfuel, asked_update hasked nofun⟩,
      fun _ hmem => hmem, hgot, fun _ => rfl⟩
    exact hlisted.congr rfl rfl (waiting_update hout nofun) hgot

theorem Inv.waited (hinv : s.Inv list) (waited : Cdp → Bool) : Inv { s with waited } list := by
  obtain ⟨howned, hlisted, hfuel, hasked⟩ := hinv
  refine ⟨?_, ?_, hfuel, hasked⟩
  · exact ⟨howned.low, howned.high, howned.got, howned.single, howned.owner, howned.cells⟩
  · exact hlisted.congr rfl rfl (fun _ _ => Iff.rfl) fun _ hmem => hmem

/-- A step that ends with a search. -/
theorem Inv.search (hinv : s.Inv list) (hout : ∀ dadr, s.status cdp ≠ .waiting dadr)
    (hdadr : dadr ≠ 0) (ha : ∀ cdp ind, a ≠ .unlock cdp ind) (waited : Cdp → Bool) :
    ∃ list', (Threads.lockRetry { s with waited } cdp dadr).Inv list' ∧
      StepRight s list a (Threads.lockRetry { s with waited } cdp dadr) list' := by
  obtain ⟨list', hinv', hlist, hgot, hsemaphore⟩ := (hinv.waited waited).lockRetry hout hdadr
  exact ⟨list', hinv', .of_subset ha hgot hlist (fun t _ => hsemaphore t)
    fun t _ => (hsemaphore t).le⟩

theorem Inv.pass (hinv : s.Inv list) (hwaiting : s.status cdp = .waiting dadr)
    (hposted : (s.locks.dws cdp).hSemaphore ≠ 0) (ha : ∀ cdp ind, a ≠ .unlock cdp ind) :
    Inv { s with
        locks := s.locks.pass cdp
        status := Function.update s.status cdp (.woken dadr) } list ∧
      StepRight s list a { s with
        locks := s.locks.pass cdp
        status := Function.update s.status cdp (.woken dadr) } list := by
  obtain ⟨howned, hlisted, hfuel, hasked⟩ := hinv
  have hother : ∀ t, t ≠ cdp → (s.locks.pass cdp).dws t = s.locks.dws t := fun t ht =>
    Function.update_of_ne ht ..
  refine ⟨⟨?_, hlisted.pass hwaiting hposted, hfuel, asked_update hasked ?_⟩, ?_⟩
  · exact ⟨howned.low, howned.high, howned.got, howned.single, howned.owner, howned.cells⟩
  · intro d hd
    refine hasked cdp d ?_
    rw [hwaiting]
    exact hd
  · refine .of_subset ha (fun _ hmem => hmem) (fun _ hmem => hmem) (fun t ht => ?_) fun t _ => ?_
    · have hne : t ≠ cdp := fun heq => hposted (heq ▸ (hlisted.inside t ht).2.1)
      dsimp only
      rw [hother t hne]
    · dsimp only
      by_cases ht : t = cdp
      · rw [ht, DadrLocks.pass, DadrLocks.setDws_self]
        exact Nat.sub_le _ _
      · rw [hother t ht]

/-- The walk over the list ends, whoever unlocks. -/
theorem Inv.unlock (hinv : s.Inv list) {got : Got Cdp} (hgot : got ∈ s.got) :
    ∃ locks list', s.locks.unlock s.enqueued got.ind = some locks ∧
      Inv { s with locks, got := s.got.filter fun other => other.ind ≠ got.ind } list' ∧
      StepRight s list (.unlock got.cdp got.ind)
        { s with locks, got := s.got.filter fun other => other.ind ≠ got.ind } list' := by
  obtain ⟨howned, hlisted, hfuel, hasked⟩ := hinv
  have hdadr := (howned.got got hgot).2.2.1
  have hhead : s.locks.waitingForDadr = list.head? := Linked.head_eq hlisted.waits
  have hfirst : DadrLocks.Waits { s.locks with
      dadrs := Function.update s.locks.dadrs got.ind 0
      lastUsed := if got.ind = s.locks.lastUsed then s.locks.lastUsed - 1
        else s.locks.lastUsed } ([] ++ list) := hlisted.waits
  obtain ⟨locks, hrelease, hwaits, hdadrs, hlast, hdws⟩ :=
    DadrLocks.release_spec (s.locks.dadrs got.ind) hfirst hlisted.nodup hfuel
  rw [hdadr] at hrelease hwaits hdws
  rw [← hhead] at hrelease
  have hdws : ∀ t, (locks.dws t).lockingDadr = (s.locks.dws t).lockingDadr ∧
      (locks.dws t).hSemaphore = (s.locks.dws t).hSemaphore +
        if t ∈ list ∧ (s.locks.dws t).lockingDadr = got.dadr then 1 else 0 := hdws
  refine ⟨locks, list.filter fun t => (s.locks.dws t).lockingDadr ≠ got.dadr, ?_, ⟨?_, ?_, ?_, ?_⟩,
    ⟨fun other hother => ?_, fun t ht hother => ?_, fun t ht cdp ind hunlock hsame => ?_,
      fun t ht => ?_⟩⟩
  · rw [DadrLocks.unlock, hdadr]
    exact hrelease
  · exact howned.unlock hgot hdadrs hlast
  · exact hlisted.unlock howned hgot hwaits hdws
  · exact (List.length_filter_le _ _).trans hfuel
  · exact hasked
  · by_cases heq : other.ind = got.ind
    · right
      have hone : got = other :=
        List.inj_on_of_nodup_map howned.single hgot hother heq.symm
      rw [hone]
    · exact .inl (List.mem_filter.mpr ⟨hother, decide_eq_true heq⟩)
  · have hne := hother got.cdp got.ind rfl
    rw [hdadr] at hne
    refine ⟨List.mem_filter.mpr ⟨ht, decide_eq_true hne.symm⟩, ?_⟩
    dsimp only
    rw [(hdws t).2, if_neg fun h => hne h.2.symm, Nat.add_zero]
  · obtain ⟨-, rfl⟩ := Action.unlock.inj hunlock
    rw [hdadr] at hsame
    refine ⟨fun hmem => of_decide_eq_true (List.mem_filter.mp hmem).2 hsame.symm, ?_⟩
    dsimp only
    rw [(hdws t).2, if_pos ⟨ht, hsame.symm⟩]
  · dsimp only
    rw [(hdws t).2, if_neg fun h => ht h.1]
    exact Nat.le_refl _

theorem Inv.step (hinv : s.Inv list) (hnonzero : ∀ cdp dadr, a = .waitLock cdp dadr → dadr ≠ 0)
    (hstep : s.step a = some s') : ∃ list', s'.Inv list' ∧ StepRight s list a s' list' := by
  cases a with
  | waitLock cdp dadr =>
      rw [Threads.step] at hstep
      cases hstatus : s.status cdp with
      | outside =>
          rw [hstatus] at hstep
          obtain rfl := Option.some.inj hstep
          have hno : ∀ t ind, Action.waitLock cdp dadr ≠ .unlock t ind := fun _ _ => nofun
          refine hinv.search (fun d hd => ?_) (hnonzero cdp dadr rfl) hno _
          cases hstatus.symm.trans hd
      | waiting d | woken d | sleeping d =>
          rw [hstatus] at hstep
          cases hstep
  | wake cdp =>
      rw [Threads.step] at hstep
      cases hstatus : s.status cdp with
      | waiting dadr =>
          rw [hstatus] at hstep
          dsimp only at hstep
          by_cases hposted : (s.locks.dws cdp).hSemaphore = 0
          · rw [if_pos hposted] at hstep
            cases hstep
          · rw [if_neg hposted] at hstep
            obtain rfl := Option.some.inj hstep
            exact ⟨list, hinv.pass hstatus hposted nofun⟩
      | outside | woken d | sleeping d =>
          rw [hstatus] at hstep
          cases hstep
  | retry cdp =>
      rw [Threads.step] at hstep
      cases hstatus : s.status cdp with
      | woken dadr | sleeping dadr =>
          rw [hstatus] at hstep
          obtain rfl := Option.some.inj hstep
          have hdadr : dadr ≠ 0 := hinv.asked cdp dadr (by rw [hstatus]; rfl)
          have hno : ∀ t ind, Action.retry cdp ≠ .unlock t ind := fun _ _ => nofun
          refine hinv.search (fun d hd => ?_) hdadr hno _
          cases hstatus.symm.trans hd
      | outside | waiting d =>
          rw [hstatus] at hstep
          cases hstep
  | unlock cdp ind =>
      rw [Threads.step] at hstep
      by_cases hholds : s.status cdp = .outside ∧ ∃ got ∈ s.got, got.cdp = cdp ∧ got.ind = ind
      · rw [if_pos hholds] at hstep
        obtain ⟨-, got, hgot, rfl, rfl⟩ := hholds
        obtain ⟨locks, list', hunlock, hright⟩ := hinv.unlock hgot
        rw [hunlock] at hstep
        obtain rfl := Option.some.inj hstep
        exact ⟨list', hright⟩
      · rw [if_neg hholds] at hstep
        cases hstep

omit [DecidableEq Cdp] in
theorem Inv.init (dadrs : Int → Nat) (dws : Cdp → Dws Cdp) : (init dadrs dws).Inv [] := by
  have hno : ∀ i : Int, 0 ≤ i → ¬ i ≤ -1 := fun i hi hle => by
    omega
  refine ⟨⟨Int.le_refl _, (by decide : (-1 : Int) < MAX_DADR_LOCKS), fun _ hmem => absurd hmem List.not_mem_nil, List.nodup_nil,
    fun i hi hle => absurd hle (hno i hi), fun i _ hi hle => absurd hle (hno i hi)⟩,
    ⟨rfl, List.nodup_nil, fun _ hmem => absurd hmem List.not_mem_nil, fun _ _ _ => nofun,
      fun _ _ => rfl⟩, Nat.le_refl _, fun _ _ => nofun⟩

theorem Inv.run {actions : List (Action Cdp)} (hinv : s.Inv list)
    (hnonzero : ∀ cdp dadr, .waitLock cdp dadr ∈ actions → dadr ≠ 0)
    (hrun : s.run actions = some s') : ∃ list', s'.Inv list' := by
  induction actions generalizing s list with
  | nil =>
      obtain rfl := Option.some.inj hrun
      exact ⟨list, hinv⟩
  | cons a actions ih =>
      rw [Threads.run, List.foldlM_cons] at hrun
      obtain ⟨s₁, hstep, hrest⟩ := Option.bind_eq_some_iff.mp hrun
      obtain ⟨list₁, hinv₁, -⟩ := hinv.step (fun cdp dadr heq =>
        hnonzero cdp dadr (heq ▸ List.mem_cons_self)) hstep
      exact ih hinv₁ (fun cdp dadr hmem => hnonzero cdp dadr (List.mem_cons_of_mem _ hmem)) hrest

/-- In every state that the threads can reach, the cells are the indices that threads have got,
each of them once and with its own block number, and the list, which the pointers determine, has
each waiting thread once until the `unlock` of its block number. -/
theorem dadr_locks_right {dadrs : Int → Nat} {dws : Cdp → Dws Cdp} {actions : List (Action Cdp)}
    (hnonzero : ∀ cdp dadr, .waitLock cdp dadr ∈ actions → dadr ≠ 0)
    (hrun : (Threads.init dadrs dws).run actions = some s) :
    s.Owned ∧ ∃ list, s.Listed list ∧ (∀ other, s.locks.Waits other → other = list) ∧
      (∀ a s', (∀ cdp dadr, a = .waitLock cdp dadr → dadr ≠ 0) → s.step a = some s' →
        ∃ list', s'.Listed list' ∧ StepRight s list a s' list') ∧
      ∀ got ∈ s.got, s.status got.cdp = .outside →
        ∃ s', s.step (.unlock got.cdp got.ind) = some s' := by
  obtain ⟨list, hinv⟩ := (Inv.init dadrs dws).run hnonzero hrun
  refine ⟨hinv.owned, list, hinv.listed, fun other hother => ?_, fun a s' ha hstep => ?_,
    fun got hgot hout => ?_⟩
  · exact Linked.unique hother hinv.listed.waits
  · obtain ⟨list', hinv', hright⟩ := hinv.step ha hstep
    exact ⟨list', hinv'.listed, hright⟩
  · obtain ⟨locks, -, hunlock, -⟩ := hinv.unlock hgot
    have hstep : s.step (.unlock got.cdp got.ind) =
        (s.locks.unlock s.enqueued got.ind).map fun locks =>
          { s with locks, got := s.got.filter fun other => other.ind ≠ got.ind } :=
      if_pos ⟨hout, got, hgot, rfl, rfl⟩
    rw [hunlock] at hstep
    exact ⟨_, hstep⟩

theorem dadr_locks_right_passed :
    ∃ s : Threads Nat, (Threads.init (fun _ => 0) fun _ => ⟨0, none, 0⟩).run
        [.waitLock 0 5, .waitLock 1 5, .waitLock 2 5, .unlock 0 0, .wake 1, .retry 1] = some s ∧
      s.Owned ∧ ∃ list, s.Listed list := by
  have hsome : ((Threads.init (fun _ => 0) fun _ : Nat => ⟨0, none, 0⟩).run
      [.waitLock 0 5, .waitLock 1 5, .waitLock 2 5, .unlock 0 0, .wake 1, .retry 1]).isSome =
        true := by decide
  obtain ⟨s, hrun⟩ := Option.isSome_iff_exists.mp hsome
  have hnonzero : ∀ cdp dadr, .waitLock cdp dadr ∈ ([.waitLock 0 5, .waitLock 1 5, .waitLock 2 5,
      .unlock 0 0, .wake 1, .retry 1] : List (Action Nat)) → dadr ≠ 0 := by
    intro cdp dadr hmem hzero
    subst hzero
    simp at hmem
  obtain ⟨howned, list, hlisted, -⟩ := dadr_locks_right hnonzero hrun
  exact ⟨s, hrun, howned, list, hlisted⟩

/-- With the block number 0 two threads get one index, and a thread for which all the cells are
used is not in the list. -/
theorem dadr_locks_zero_and_full :
    ((Threads.init (fun _ => 0) fun _ : Nat => ⟨0, none, 0⟩).run
        [.waitLock 0 0, .waitLock 1 5]).map (fun s => s.got.map fun got => (got.cdp, got.ind)) =
      some [(1, 0), (0, 0)] ∧
    ((Threads.init (fun _ => 0) fun _ : Nat => ⟨0, none, 0⟩).run
        ((List.range 61).map fun cdp => .waitLock cdp (cdp + 1))).map
          (fun s => (s.status 60, s.locks.waitingForDadr)) =
      some (.sleeping 61, none) := by
  refine ⟨?_, ?_⟩
  · decide
  · decide +kernel

end Threads

end Sql602.Lock
