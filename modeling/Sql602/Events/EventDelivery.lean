import Mathlib.Algebra.GroupWithZero.Nat
import Sql602.Events.EventManagement

namespace Sql602.Events

/-! No committed invocation is lost, and no event is left without a token. -/

namespace RegEv

/-- A place in the array that is in use. -/
def live (rev : RegEv) : Bool := rev.handle != 0

def pending (rev : RegEv) : Nat :=
  if rev.exact then rev.count else (rev.occ.map EventOccurrence.count).sum

/-- The number of parameters with a pending event. -/
def entries (rev : RegEv) : Nat :=
  if rev.live then
    if rev.exact then (if rev.count = 0 then 0 else 1) else rev.occ.length
  else 0

structure Sound (rev : RegEv) : Prop where
  named : rev.live = !rev.name.isEmpty
  total : rev.count = rev.pending
  positive : ∀ occ ∈ rev.occ, 0 < occ.count
  distinct : (rev.occ.map EventOccurrence.param).Nodup
  balance : rev.live = true → rev.delivered + rev.pending = rev.matched

variable {rev : RegEv} {sameAppl : Bool} {ev : InvokedEv}

theorem sound_fresh {name : Name} (paramStr : Name) (exact : Bool) {handle : Nat}
    (hname : name ≠ []) (hhandle : 0 < handle) : (fresh name paramStr exact handle).Sound where
  named := by
    have hlive : (handle != 0) = true := bne_iff_ne.mpr (Nat.pos_iff_ne_zero.mp hhandle)
    have hnamed : name.isEmpty = false := List.isEmpty_eq_false_iff.mpr hname
    simp only [live, fresh, hlive, hnamed, Bool.not_false]
  total := by cases exact <;> rfl
  positive := by simp [fresh]
  distinct := List.nodup_nil
  balance := by cases exact <;> exact fun _ => rfl

theorem entries_fresh (name paramStr : Name) (exact : Bool) (handle : Nat) :
    (fresh name paramStr exact handle).entries = 0 := by
  simp [entries, fresh]

theorem sound_clear (rev : RegEv) : rev.clear.Sound where
  named := rfl
  total := by
    simp only [clear, pending, List.map_nil, List.sum_nil, ite_self]
  positive := by simp [clear]
  distinct := List.nodup_nil
  balance := by
    intro hlive
    cases hlive

theorem entries_clear (rev : RegEv) : rev.clear.entries = 0 := rfl

/-! The occurrences. -/

/-- The invocation is counted in one occurrence, and its parameter is the only new one. -/
structure Counted (ev : InvokedEv) (occ next : List EventOccurrence) : Prop where
  total : (next.map EventOccurrence.count).sum = (occ.map EventOccurrence.count).sum + ev.count
  length : next.length ≤ occ.length + 1
  positive : 0 < ev.count → (∀ old ∈ occ, 0 < old.count) → ∀ new ∈ next, 0 < new.count
  distinct : (occ.map EventOccurrence.param).Nodup → (next.map EventOccurrence.param).Nodup
  params : next.map EventOccurrence.param ⊆ ev.paramStr :: occ.map EventOccurrence.param

theorem countOccurrence_params {occ next : List EventOccurrence}
    (hcount : countOccurrence ev occ = some next) :
    next.map EventOccurrence.param = occ.map EventOccurrence.param := by
  induction occ generalizing next with
  | nil => cases hcount
  | cons old rest ih =>
      simp only [countOccurrence] at hcount
      split at hcount
      · obtain rfl := Option.some.inj hcount
        rfl
      · obtain ⟨tail, htail, rfl⟩ := Option.map_eq_some_iff.mp hcount
        simp only [List.map_cons, ih htail]

theorem countOccurrence_counted {occ next : List EventOccurrence}
    (hcount : countOccurrence ev occ = some next) : Counted ev occ next where
  total := by
    induction occ generalizing next with
    | nil => cases hcount
    | cons old rest ih =>
        simp only [countOccurrence] at hcount
        split at hcount
        · obtain rfl := Option.some.inj hcount
          simp only [List.map_cons, List.sum_cons]
          omega
        · obtain ⟨tail, htail, rfl⟩ := Option.map_eq_some_iff.mp hcount
          simp only [List.map_cons, List.sum_cons, ih htail]
          omega
  length := by
    have hlength := congrArg List.length (countOccurrence_params hcount)
    rw [List.length_map, List.length_map] at hlength
    omega
  positive := by
    intro _ hpositive
    induction occ generalizing next with
    | nil => cases hcount
    | cons old rest ih =>
        obtain ⟨hold, hrest⟩ := List.forall_mem_cons.mp hpositive
        simp only [countOccurrence] at hcount
        split at hcount
        · obtain rfl := Option.some.inj hcount
          exact List.forall_mem_cons.mpr ⟨Nat.add_pos_left hold _, hrest⟩
        · obtain ⟨tail, htail, rfl⟩ := Option.map_eq_some_iff.mp hcount
          exact List.forall_mem_cons.mpr ⟨hold, ih htail hrest⟩
  distinct := by
    rw [countOccurrence_params hcount]
    exact id
  params := by
    rw [countOccurrence_params hcount]
    exact List.subset_cons_self _ _

theorem countOccurrence_none {occ : List EventOccurrence} (hcount : countOccurrence ev occ = none) :
    ev.paramStr ∉ occ.map EventOccurrence.param := by
  induction occ with
  | nil => exact List.not_mem_nil
  | cons old rest ih =>
      simp only [countOccurrence] at hcount
      split at hcount
      · cases hcount
      · rename_i hother
        rw [List.map_cons]
        exact List.not_mem_cons_of_ne_of_not_mem (Ne.symm hother)
          (ih (Option.map_eq_none_iff.mp hcount))

theorem addOccurrence_counted {occ next : List EventOccurrence}
    (hadd : addOccurrence ev occ = some next) : Counted ev occ next := by
  simp only [addOccurrence] at hadd
  split at hadd
  · rename_i counted hcount
    obtain rfl := Option.some.inj hadd
    exact countOccurrence_counted hcount
  · rename_i hcount
    split at hadd
    · cases hadd
    · obtain rfl := Option.some.inj hadd
      exact {
        total := by
          simp only [List.map_cons, List.sum_cons]
          exact Nat.add_comm _ _
        length := Nat.le_refl _
        positive := fun hev hpositive => List.forall_mem_cons.mpr ⟨hev, hpositive⟩
        distinct := fun hdistinct =>
          List.nodup_cons.mpr ⟨countOccurrence_none hcount, hdistinct⟩
        params := fun _ hmem => hmem }

/-- Below the limit, every invocation that fits is counted. -/
theorem addOccurrence_of_limit {occ : List EventOccurrence}
    (hlimit : occ.length ≤ paramValuesPerEventLimit) : ∃ next, addOccurrence ev occ = some next := by
  simp only [addOccurrence]
  split
  · exact ⟨_, rfl⟩
  · rw [if_neg (Nat.not_lt_of_le hlimit)]
    exact ⟨_, rfl⟩

/-! Commits. -/

/-- What a commit of one invocation does with a registration that it fits. -/
theorem commit_of_fits (hfits : rev.fits sameAppl ev = true)
    (hlimit : rev.exact = false → rev.occ.length ≤ paramValuesPerEventLimit) :
    (rev.signal sameAppl ev).isSome = true ∧ ∃ occ, (rev.exact = true → occ = rev.occ) ∧
      (rev.exact = false → Counted ev rev.occ occ) ∧
      rev.commit sameAppl ev =
        { rev with count := rev.count + ev.count, occ := occ, matched := rev.matched + ev.count } := by
  have hnote : ∀ (count : Nat) (occ : List EventOccurrence),
      note { rev with count := count, occ := occ } sameAppl ev =
        { rev with count := count, occ := occ, matched := rev.matched + ev.count } :=
    fun _ _ => if_pos hfits
  cases hexact : rev.exact with
  | true =>
      have hsignal : rev.signal sameAppl ev = some { rev with count := rev.count + ev.count } := by
        simp only [signal, hfits, hexact, ↓reduceIte]
      refine ⟨by rw [hsignal]; rfl, rev.occ, fun _ => rfl, (fun hfalse => by cases hfalse), ?_⟩
      rw [commit, hsignal]
      exact (hnote _ rev.occ).trans (by rw [hexact])
  | false =>
      obtain ⟨occ, hocc⟩ := @addOccurrence_of_limit ev _ (hlimit hexact)
      have hsignal : rev.signal sameAppl ev =
          some { rev with count := rev.count + ev.count, occ := occ } := by
        simp only [signal, hfits, hexact, Bool.false_eq_true, ↓reduceIte, hocc, Option.map_some]
      refine ⟨by rw [hsignal]; rfl, occ, (fun htrue => by cases htrue),
        fun _ => addOccurrence_counted hocc, ?_⟩
      rw [commit, hsignal]
      exact (hnote _ occ).trans (by rw [hexact])

theorem commit_of_not_fits (hfits : rev.fits sameAppl ev = false) :
    rev.commit sameAppl ev = rev ∧ (rev.signal sameAppl ev).isSome = false := by
  have hsignal : rev.signal sameAppl ev = none := by
    simp only [signal, hfits, Bool.false_eq_true, ↓reduceIte]
  refine ⟨?_, by rw [hsignal]; rfl⟩
  simp only [commit, hsignal, Option.getD_none, note, hfits, Bool.false_eq_true, ↓reduceIte]

/-- The parameters that the registration may have to keep apart. -/
def values (rev : RegEv) (sameAppl : Bool) (invoked : List InvokedEv) : List Name :=
  rev.occ.map EventOccurrence.param ++
    (invoked.filter (rev.fits sameAppl)).map InvokedEv.paramStr

def WithinLimit (rev : RegEv) (sameAppl : Bool) (invoked : List InvokedEv) : Prop :=
  rev.exact = false → (rev.values sameAppl invoked).dedup.length ≤ paramValuesPerEventLimit

theorem Sound.within (hsound : rev.Sound) {invoked : List InvokedEv}
    (hlimit : rev.WithinLimit sameAppl invoked) (hexact : rev.exact = false) :
    rev.occ.length ≤ paramValuesPerEventLimit := by
  refine Nat.le_trans ?_ (hlimit hexact)
  rw [← @List.length_map _ _ rev.occ EventOccurrence.param]
  refine (List.subperm_of_subset hsound.distinct fun param hparam => ?_).length_le
  exact List.mem_dedup.mpr (List.mem_append_left _ hparam)

/-- A commit of one invocation keeps the accounts and needs one token at most. -/
structure Commits (rev : RegEv) (sameAppl : Bool) (ev : InvokedEv) : Prop where
  sound : (rev.commit sameAppl ev).Sound
  entries : (rev.commit sameAppl ev).entries ≤
    rev.entries + if (rev.signal sameAppl ev).isSome then 1 else 0
  within : ∀ invoked, rev.WithinLimit sameAppl (ev :: invoked) →
    (rev.commit sameAppl ev).WithinLimit sameAppl invoked

theorem Sound.commits (hsound : rev.Sound) (hev : 0 < ev.count)
    (hlimit : rev.exact = false → rev.fits sameAppl ev = true →
      rev.occ.length ≤ paramValuesPerEventLimit) : rev.Commits sameAppl ev := by
  cases hfits : rev.fits sameAppl ev with
  | false =>
      obtain ⟨hcommit, hsignal⟩ := commit_of_not_fits hfits
      refine ⟨by rwa [hcommit], by rw [hcommit]; exact Nat.le_add_right _ _, ?_⟩
      intro invoked hwithin
      rw [hcommit]
      intro hexact
      have hvalues := hwithin hexact
      rwa [values, List.filter_cons, if_neg (by rw [hfits]; exact Bool.false_ne_true)] at hvalues
  | true =>
      obtain ⟨hsignal, occ, hsame, hcounted, hcommit⟩ :=
        commit_of_fits hfits fun hexact => hlimit hexact hfits
      have hpending : (rev.commit sameAppl ev).pending = rev.pending + ev.count := by
        rw [hcommit]
        cases hexact : rev.exact with
        | true =>
            simp only [pending, hexact, ↓reduceIte]
        | false =>
            simp only [pending, hexact, Bool.false_eq_true, ↓reduceIte, (hcounted hexact).total]
      refine ⟨⟨?_, ?_, ?_, ?_, ?_⟩, ?_, ?_⟩
      · rw [hcommit]
        exact hsound.named
      · rw [hpending, ← hsound.total, hcommit]
      · rw [hcommit]
        cases hexact : rev.exact with
        | true =>
            rw [hsame hexact]
            exact hsound.positive
        | false => exact (hcounted hexact).positive hev hsound.positive
      · rw [hcommit]
        cases hexact : rev.exact with
        | true =>
            rw [hsame hexact]
            exact hsound.distinct
        | false => exact (hcounted hexact).distinct hsound.distinct
      · intro hlive
        have hbalance := hsound.balance (by rw [hcommit] at hlive; exact hlive)
        rw [hpending, ← Nat.add_assoc, hcommit]
        exact congrArg (· + ev.count) hbalance
      · rw [hsignal, if_pos rfl, hcommit]
        cases hlive : rev.live with
        | false => simp [entries, live] at hlive ⊢; simp [hlive]
        | true =>
            cases hexact : rev.exact with
            | true =>
                simp only [entries, live] at hlive ⊢
                simp only [hlive, hexact, ↓reduceIte]
                split <;> omega
            | false =>
                have hlength := (hcounted hexact).length
                simp only [entries, live] at hlive ⊢
                simpa only [hlive, hexact, ↓reduceIte, Bool.false_eq_true] using hlength
      · intro invoked hwithin hexact
        have hexactOld : rev.exact = false := by rwa [hcommit] at hexact
        have hfitsSame : (rev.commit sameAppl ev).fits sameAppl = rev.fits sameAppl := by
          rw [hcommit]
          rfl
        refine Nat.le_trans ?_ (hwithin hexactOld)
        refine (List.subperm_of_subset (List.nodup_dedup _) fun param hparam => ?_).length_le
        rw [List.mem_dedup] at hparam ⊢
        rw [values, hfitsSame, hcommit] at hparam
        rw [values, List.filter_cons, if_pos hfits]
        rcases List.mem_append.mp hparam with hmem | hmem
        · rcases List.mem_cons.mp ((hcounted hexactOld).params hmem) with rfl | hold
          · exact List.mem_append_right _ List.mem_cons_self
          · exact List.mem_append_left _ hold
        · exact List.mem_append_right _ (List.mem_cons_of_mem _ hmem)

/-! What a wait returns. -/

theorem signalled_of_entries (hsound : rev.Sound) (hentries : rev.entries ≠ 0) :
    rev.signalled = true := by
  have hlive : rev.live = true := by
    by_contra hlive
    simp [entries, hlive] at hentries
  have hname : rev.name.isEmpty = false := by
    have hnamed := hsound.named
    rw [hlive] at hnamed
    simpa using hnamed.symm
  have hcount : rev.count ≠ 0 := by
    intro hcount
    have htotal := hsound.total
    cases hexact : rev.exact with
    | true => simp [entries, hexact, hcount] at hentries
    | false =>
        rw [hcount, pending, hexact, if_neg Bool.false_ne_true] at htotal
        cases hocc : rev.occ with
        | nil => simp [entries, hexact, hocc] at hentries
        | cons occ rest =>
            have hpositive := hsound.positive occ (by rw [hocc]; exact List.mem_cons_self)
            rw [hocc, List.map_cons, List.sum_cons] at htotal
            omega
  simp [signalled, hname, hcount]

/-- A signalled event has an entry, which is taken with its count. -/
theorem Sound.take (hsound : rev.Sound) (hsignalled : rev.signalled = true) :
    rev.take.Sound ∧ rev.take.entries + 1 = rev.entries := by
  simp only [signalled, Bool.and_eq_true, bne_iff_ne, Bool.not_eq_true'] at hsignalled
  obtain ⟨hcount, hname⟩ := hsignalled
  have hlive : rev.live = true := by
    rw [hsound.named, hname]
    rfl
  have htotal := hsound.total
  have hbalance := hsound.balance hlive
  cases hexact : rev.exact with
  | true =>
      have hpending : rev.pending = rev.count := by rw [pending, if_pos hexact]
      have htake : rev.take = { rev with count := 0, delivered := rev.delivered + rev.count } := by
        simp only [RegEv.take, eventCount, hexact, ↓reduceIte]
      rw [htake]
      refine ⟨⟨hsound.named, ?_, hsound.positive, hsound.distinct, ?_⟩, ?_⟩
      · simp only [pending, hexact, ↓reduceIte]
      · intro _
        rw [hpending] at hbalance
        simp only [pending, hexact, ↓reduceIte]
        exact hbalance
      · simp only [live] at hlive
        simp only [entries, live, hlive, hexact, hcount, ↓reduceIte]
  | false =>
      have hpending : rev.pending = (rev.occ.map EventOccurrence.count).sum := by
        rw [pending, hexact, if_neg Bool.false_ne_true]
      cases hocc : rev.occ with
      | nil =>
          rw [hpending, hocc] at htotal
          exact absurd htotal hcount
      | cons occ rest =>
          have htake : rev.take = { rev with
              count := rev.count - occ.count
              occ := rest
              delivered := rev.delivered + occ.count } := by
            simp only [RegEv.take, eventCount, hexact, Bool.false_eq_true, ↓reduceIte, hocc,
              List.head?_cons, Option.map_some, Option.getD_some, List.tail_cons]
          rw [hpending, hocc, List.map_cons, List.sum_cons] at htotal hbalance
          have hpositive := hsound.positive
          have hdistinct := hsound.distinct
          rw [hocc] at hpositive hdistinct
          rw [htake]
          refine ⟨⟨hsound.named, ?_, (List.forall_mem_cons.mp hpositive).2,
            (List.nodup_cons.mp hdistinct).2, ?_⟩, ?_⟩
          · simp only [pending, hexact, Bool.false_eq_true, ↓reduceIte]
            omega
          · intro _
            simp only [pending, hexact, Bool.false_eq_true, ↓reduceIte]
            omega
          · simp only [live] at hlive
            simp only [entries, live, hlive, hexact, hocc, Bool.false_eq_true, ↓reduceIte,
              List.length_cons]

end RegEv

/-! The registrations of a client. -/

def entries (regEv : List RegEv) : Nat := (regEv.map RegEv.entries).sum

theorem entries_modify_le {change : RegEv → RegEv} (hchange : ∀ rev, (change rev).entries ≤ rev.entries)
    (regEv : List RegEv) (i : Nat) : entries (regEv.modify i change) ≤ entries regEv := by
  induction regEv generalizing i with
  | nil =>
      exact Nat.le_of_eq (congrArg entries (List.modify_nil change i))
  | cons rev rest ih =>
      cases i with
      | zero => exact Nat.add_le_add_right (hchange rev) _
      | succ i => exact Nat.add_le_add_left (ih i) _

theorem entries_set {regEv : List RegEv} {i : Nat} {old rev : RegEv}
    (hplace : regEv[i]? = some old) (hrev : rev.entries ≤ old.entries) :
    entries (regEv.set i rev) ≤ entries regEv := by
  induction regEv generalizing i with
  | nil => cases hplace
  | cons first rest ih =>
      cases i with
      | zero =>
          obtain rfl := Option.some.inj hplace
          exact Nat.add_le_add_right hrev _
      | succ i => exact Nat.add_le_add_left (ih hplace) _

/-- A registration goes to a free place or to the end. -/
theorem putRegEv_cases (rev : RegEv) (regEv : List RegEv) :
    Client.putRegEv rev regEv = regEv ++ [rev] ∨ ∃ i old, regEv[i]? = some old ∧
      old.name.isEmpty = true ∧ Client.putRegEv rev regEv = regEv.set i rev := by
  simp only [Client.putRegEv]
  split
  · exact .inl rfl
  · rename_i i hfind
    obtain ⟨hi, hname, -⟩ := List.findIdx?_eq_some_iff_getElem.mp hfind
    rw [List.length_reverse] at hi
    refine .inr ⟨regEv.length - 1 - i, regEv.reverse[i], ?_, hname, rfl⟩
    rw [List.getElem_reverse, List.getElem?_eq_getElem]

/-- The ends of a search: nothing is signalled, or the first signalled event does not
fit the buffer, or it is taken. -/
theorem search_cases (paramSize : Int) (regEv : List RegEv) :
    (search paramSize regEv = (none, regEv) ∧ ∀ rev ∈ regEv, rev.signalled = false) ∨
      ∃ before rev after, regEv = before ++ rev :: after ∧ rev.signalled = true ∧
        regEv.find? RegEv.signalled = some rev ∧
        if rev.tooLong paramSize then search paramSize regEv = (some .bufferSize, regEv)
        else search paramSize regEv =
          (some (.ok rev.handle rev.eventCount rev.param), before ++ rev.take :: after) := by
  induction regEv with
  | nil => exact .inl ⟨rfl, by simp⟩
  | cons first rest ih =>
      cases hsignalled : first.signalled with
      | true =>
          refine .inr ⟨[], first, rest, rfl, hsignalled, List.find?_cons_of_pos hsignalled, ?_⟩
          simp only [search, hsignalled, ↓reduceIte]
          split
          · rfl
          · rfl
      | false =>
          have hnext : search paramSize (first :: rest) =
              ((search paramSize rest).1, first :: (search paramSize rest).2) := by
            simp only [search, hsignalled, Bool.false_eq_true, ↓reduceIte]
          rw [hnext]
          rcases ih with ⟨hsearch, hnone⟩ | ⟨before, rev, after, hsplit, hrev, hfind, hsearch⟩
          · refine .inl ⟨by rw [hsearch], List.forall_mem_cons.mpr ⟨hsignalled, hnone⟩⟩
          · refine .inr ⟨first :: before, rev, after, by rw [hsplit]; rfl, hrev, ?_, ?_⟩
            · rw [List.find?_cons_of_neg (by rw [hsignalled]; exact Bool.false_ne_true)]
              exact hfind
            · cases hlong : rev.tooLong paramSize with
              | true =>
                  rw [hlong, if_pos rfl] at hsearch
                  rw [if_pos rfl, hsearch]
              | false =>
                  rw [hlong, if_neg Bool.false_ne_true] at hsearch
                  rw [if_neg Bool.false_ne_true, hsearch]
                  rfl

namespace Client

def requested (client : Client) : Nat := if client.cancelRequested.isSome then 1 else 0

/-- The token that a running wait has taken. -/
def carried (client : Client) : Nat :=
  match client.phase with
  | .checking true | .searching true => 1
  | _ => 0

/-- A wait that has not looked for a cancel request yet. -/
def unchecked (client : Client) : Nat :=
  match client.phase with
  | .checking true => 1
  | _ => 0

structure Sound (client : Client) : Prop where
  regs : ∀ rev ∈ client.regEv, rev.Sound
  invoked : ∀ ev ∈ client.invokedEv, 0 < ev.count
  uninit : client.isInit = false → client.regEv = []
  tokens : entries client.regEv + client.requested ≤ client.semaphore + client.carried
  request : client.requested ≤ client.semaphore + client.unchecked

variable {client : Client}

theorem sound_initial (appl : Nat) : (initial appl).Sound where
  regs := by simp [initial]
  invoked := by simp [initial]
  uninit := fun _ => rfl
  tokens := Nat.le_refl _
  request := Nat.le_refl _

/-- Another list of registrations with no more entries. -/
theorem Sound.withRegs {regEv : List RegEv} (hsound : client.Sound)
    (hinit : client.isInit = true) (hregs : ∀ rev ∈ regEv, rev.Sound)
    (hentries : entries regEv ≤ entries client.regEv) : { client with regEv := regEv }.Sound where
  regs := hregs
  invoked := hsound.invoked
  uninit := by
    intro huninit
    rw [hinit] at huninit
    cases huninit
  tokens := Nat.le_trans (Nat.add_le_add_right hentries _) hsound.tokens
  request := hsound.request

theorem entries_append (first rest : List RegEv) :
    entries (first ++ rest) = entries first + entries rest := by
  rw [entries, List.map_append, List.sum_append]
  rfl

theorem Sound.registerEvent {rev : RegEv} (hsound : client.Sound) (hrev : rev.Sound)
    (hentries : rev.entries = 0) : (client.registerEvent rev).Sound := by
  have hready : ∃ ready : Client, ready.isInit = true ∧ ready.Sound ∧
      client.registerEvent rev = { ready with regEv := putRegEv rev ready.regEv } := by
    cases hinit : client.isInit with
    | true => exact ⟨client, hinit, hsound, by simp only [Client.registerEvent, hinit, ↓reduceIte]⟩
    | false =>
        refine ⟨{ client with isInit := true, semaphore := 1, cancelRequested := none }, rfl, ?_,
          by simp only [Client.registerEvent, hinit, Bool.false_eq_true, ↓reduceIte]⟩
        have hnone := hsound.uninit hinit
        exact {
          regs := hsound.regs
          invoked := hsound.invoked
          uninit := fun huninit => by cases huninit
          tokens := by
            rw [hnone]
            exact Nat.zero_le _
          request := Nat.zero_le _ }
  obtain ⟨ready, hinit, hreadySound, hregister⟩ := hready
  rw [hregister]
  rcases putRegEv_cases rev ready.regEv with hput | ⟨i, old, hplace, hname, hput⟩
  · rw [hput]
    refine hreadySound.withRegs hinit
      (List.forall_mem_append.mpr ⟨hreadySound.regs, List.forall_mem_singleton.mpr hrev⟩) ?_
    rw [entries_append]
    simp [entries, hentries]
  · rw [hput]
    refine hreadySound.withRegs hinit (fun other hother => ?_)
      (entries_set hplace (by rw [hentries]; exact Nat.zero_le _))
    rcases List.mem_or_eq_of_mem_set hother with hmem | rfl
    · exact hreadySound.regs other hmem
    · exact hrev

theorem Sound.unregisterEvent (hsound : client.Sound) (handle : Nat) :
    (client.unregisterEvent handle).Sound := by
  simp only [Client.unregisterEvent]
  split
  · rename_i hinit
    split
    · exact hsound
    · rename_i i hfind
      refine hsound.withRegs hinit (fun rev hrev => ?_)
        (entries_modify_le (fun rev => by rw [rev.entries_clear]; exact Nat.zero_le _) _ i)
      obtain ⟨j, hj⟩ := List.mem_iff_getElem?.mp hrev
      rw [List.getElem?_modify] at hj
      split at hj
      · obtain ⟨old, -, rfl⟩ := Option.map_eq_some_iff.mp hj
        exact old.sound_clear
      · obtain ⟨old, hold, rfl⟩ := Option.map_eq_some_iff.mp hj
        exact hsound.regs _ (List.mem_of_getElem? hold)
  · exact hsound

/-! Invocations and commits. -/

theorem addInvoked_pos {invoked : List InvokedEv} (name paramStr : Name)
    (hinvoked : ∀ ev ∈ invoked, 0 < ev.count) :
    ∀ ev ∈ addInvoked name paramStr invoked, 0 < ev.count := by
  induction invoked with
  | nil => exact List.forall_mem_singleton.mpr Nat.one_pos
  | cons ev rest ih =>
      obtain ⟨hev, hrest⟩ := List.forall_mem_cons.mp hinvoked
      simp only [addInvoked]
      split
      · exact List.forall_mem_cons.mpr ⟨Nat.succ_pos _, hrest⟩
      · exact List.forall_mem_cons.mpr ⟨hev, ih hrest⟩

theorem Sound.withInvoked {invokedEv : List InvokedEv} (hsound : client.Sound)
    (hinvoked : ∀ ev ∈ invokedEv, 0 < ev.count) : { client with invokedEv := invokedEv }.Sound :=
  ⟨hsound.regs, hinvoked, hsound.uninit, hsound.tokens, hsound.request⟩

/-- The registrations have room for the parameters of the invocations. -/
def WithinLimit (client : Client) (appl : Nat) (invoked : List InvokedEv) : Prop :=
  ∀ rev ∈ client.regEv, rev.WithinLimit (appl == client.appl) invoked

theorem entries_commit {regEv : List RegEv} {sameAppl : Bool} {ev : InvokedEv}
    (hregs : ∀ rev ∈ regEv, rev.Commits sameAppl ev) :
    entries (regEv.map fun rev => rev.commit sameAppl ev) ≤
      entries regEv + regEv.countP fun rev => (rev.signal sameAppl ev).isSome := by
  induction regEv with
  | nil => exact Nat.le_refl _
  | cons rev rest ih =>
      obtain ⟨hrev, hrest⟩ := List.forall_mem_cons.mp hregs
      have hfirst := hrev.entries
      have htail := ih hrest
      rw [List.countP_cons]
      simp only [entries, List.map_cons, List.sum_cons] at htail ⊢
      omega

theorem Sound.commitEvent {sameAppl : Bool} {ev : InvokedEv} (hsound : client.Sound)
    (hinit : client.isInit = true) (hregs : ∀ rev ∈ client.regEv, rev.Commits sameAppl ev) :
    (client.commitEvent sameAppl ev).Sound where
  regs := by
    intro rev hrev
    obtain ⟨old, hold, rfl⟩ := List.mem_map.mp hrev
    exact (hregs old hold).sound
  invoked := hsound.invoked
  uninit := by
    intro huninit
    rw [Client.commitEvent, hinit] at huninit
    cases huninit
  tokens := by
    have hentries := entries_commit hregs
    have htokens := hsound.tokens
    change entries (client.regEv.map fun rev => rev.commit sameAppl ev) + client.requested ≤
      client.semaphore + client.regEv.countP _ + client.carried
    omega
  request := by
    have hrequest := hsound.request
    change client.requested ≤ client.semaphore + client.regEv.countP _ + client.unchecked
    omega

theorem Sound.commitAll {appl : Nat} {invoked : List InvokedEv} (hsound : client.Sound)
    (hinvoked : ∀ ev ∈ invoked, 0 < ev.count) (hlimit : client.WithinLimit appl invoked) :
    (client.commitAll appl invoked).Sound := by
  simp only [Client.commitAll]
  split
  · rename_i hinit
    obtain ⟨sameAppl, hsame⟩ : ∃ sameAppl, (appl == client.appl) = sameAppl := ⟨_, rfl⟩
    have hwithin : ∀ rev ∈ client.regEv, rev.WithinLimit sameAppl invoked := hsame ▸ hlimit
    rw [hsame]
    clear hlimit hsame
    induction invoked generalizing client with
    | nil => exact hsound
    | cons ev rest ih =>
        obtain ⟨hev, hrest⟩ := List.forall_mem_cons.mp hinvoked
        have hregs : ∀ rev ∈ client.regEv, rev.Commits sameAppl ev := fun rev hrev =>
          (hsound.regs rev hrev).commits hev fun hexact _ =>
            (hsound.regs rev hrev).within (hwithin rev hrev) hexact
        refine ih (hsound.commitEvent hinit hregs) hrest hinit fun rev hrev => ?_
        obtain ⟨old, hold, rfl⟩ := List.mem_map.mp hrev
        exact (hregs old hold).within rest (hwithin old hold)
  · exact hsound

/-! Cancellations and waits. -/

theorem Sound.cancel (hsound : client.Sound) (reason : CancelReason) :
    (client.cancel reason).Sound where
  regs := hsound.regs
  invoked := hsound.invoked
  uninit := hsound.uninit
  tokens := by
    have htokens := hsound.tokens
    simp only [Client.cancel, requested, carried, Option.isSome_some, ↓reduceIte] at htokens ⊢
    omega
  request := by
    simp only [Client.cancel, requested, Option.isSome_some, ↓reduceIte]
    omega

/-- A wait goes on to another phase with the token that it has. -/
theorem Sound.moveTo {phase : Phase} (hsound : client.Sound)
    (htoken : client.carried = { client with phase := phase }.carried)
    (hrequest : client.requested ≤ client.semaphore) : { client with phase := phase }.Sound where
  regs := hsound.regs
  invoked := hsound.invoked
  uninit := hsound.uninit
  tokens := by
    rw [← htoken]
    exact hsound.tokens
  request := Nat.le_add_right_of_le hrequest

theorem Sound.waitEnter (hsound : client.Sound) (timeout : Bool) :
    (client.waitEnter timeout).Sound := by
  simp only [Client.waitEnter]
  split
  · rename_i hphase
    have hrequest := hsound.request
    rw [unchecked, hphase] at hrequest
    refine hsound.moveTo ?_ hrequest
    cases timeout <;> simp [carried, hphase]
  · exact hsound

theorem Sound.waitToken (hsound : client.Sound) : client.waitToken.Sound := by
  simp only [Client.waitToken]
  split
  · rename_i hready
    obtain ⟨hphase, hsemaphore⟩ := hready
    have htokens := hsound.tokens
    have hrequest := hsound.request
    refine ⟨hsound.regs, hsound.invoked, hsound.uninit, ?_, ?_⟩
    · simp only [requested, carried, hphase] at htokens ⊢
      omega
    · simp only [requested, unchecked, hphase] at hrequest ⊢
      omega
  · exact hsound

theorem Sound.waitTimeout (hsound : client.Sound) : client.waitTimeout.Sound := by
  simp only [Client.waitTimeout]
  split
  · rename_i hphase
    have hrequest := hsound.request
    rw [unchecked, hphase] at hrequest
    exact hsound.moveTo (by simp [carried, hphase]) hrequest
  · exact hsound

/-- A cancelled wait gives up a token; the cancellation has released one. -/
theorem Sound.waitCheck (hsound : client.Sound) : client.waitCheck.Sound := by
  have htokens := hsound.tokens
  have hrequest := hsound.request
  simp only [Client.waitCheck]
  split
  · rename_i token hphase
    split
    · rename_i hcancel
      refine ⟨hsound.regs, hsound.invoked, hsound.uninit, ?_, Nat.zero_le _⟩
      have hcarried : client.carried ≤ 1 := by
        simp only [carried]
        split <;> omega
      have hone : client.requested = 1 := if_pos hcancel
      change entries client.regEv + 0 ≤ client.semaphore + 0
      omega
    · rename_i hcancel
      refine hsound.moveTo ?_ ?_
      · cases token <;> simp [carried, hphase]
      · rw [requested, if_neg hcancel]
        exact Nat.zero_le _
  · exact hsound

/-- A wait that holds a token has room for the parameter of the first signalled event. -/
def BufferFits (client : Client) (paramSize : Int) : Prop :=
  client.phase = .searching true →
    ∀ rev ∈ client.regEv.find? RegEv.signalled, rev.tooLong paramSize = false

/-- The entry that is returned takes the token with it. -/
theorem Sound.waitSearch {paramSize : Int} (hsound : client.Sound)
    (hbuffer : client.BufferFits paramSize) : (client.waitSearch paramSize).Sound := by
  have htokens := hsound.tokens
  have hrequest := hsound.request
  simp only [Client.waitSearch]
  split
  · rename_i token hphase
    have hunchecked : client.unchecked = 0 := by
      rw [unchecked, hphase]
    have hcarried : client.carried = if token then 1 else 0 := by
      rw [carried, hphase]
      cases token <;> rfl
    rcases search_cases paramSize client.regEv with
      ⟨hsearch, hnone⟩ | ⟨before, rev, after, hsplit, hsignalled, hfind, hsearch⟩
    · -- no entry is pending, so that the wait may give up its token
      have hentries : entries client.regEv = 0 := by
        refine List.sum_eq_zero fun n hn => ?_
        obtain ⟨rev, hrev, rfl⟩ := List.mem_map.mp hn
        by_contra hpositive
        have hsignalled := RegEv.signalled_of_entries (hsound.regs rev hrev) hpositive
        rw [hnone rev hrev] at hsignalled
        cases hsignalled
      refine ⟨?_, hsound.invoked, ?_, ?_, ?_⟩
      · simpa only [hsearch] using hsound.regs
      · simpa only [hsearch] using hsound.uninit
      · simp only [hsearch]
        refine Nat.le_add_right_of_le ?_
        rw [hentries, Nat.zero_add]
        exact Nat.le_trans hrequest (by rw [hunchecked]; exact Nat.le_refl _)
      · simp only [hsearch]
        exact Nat.le_add_right_of_le (Nat.le_trans hrequest (by rw [hunchecked]; exact Nat.le_refl _))
    · cases hlong : rev.tooLong paramSize with
      | true =>
          rw [hlong, if_pos rfl] at hsearch
          have htoken : token = false := by
            cases token with
            | false => rfl
            | true =>
                rw [hbuffer hphase rev hfind] at hlong
                cases hlong
          subst htoken
          simp only [hsearch, reduceCtorEq, false_and, ↓reduceIte]
          refine hsound.moveTo ?_ ?_
          · simp [carried, hphase]
          · rwa [hunchecked] at hrequest
      | false =>
          rw [hlong, if_neg Bool.false_ne_true] at hsearch
          obtain ⟨htaken, hentries⟩ := (hsound.regs rev (by rw [hsplit]; simp)).take hsignalled
          simp only [hsearch, reduceCtorEq, false_and, ↓reduceIte]
          have hbalance : entries (before ++ rev.take :: after) + 1 = entries client.regEv := by
            rw [hsplit, entries_append, entries_append]
            simp only [entries, List.map_cons, List.sum_cons]
            omega
          refine ⟨?_, hsound.invoked, ?_, ?_, ?_⟩
          · have hregs := hsound.regs
            rw [hsplit] at hregs
            obtain ⟨hbefore, hrest⟩ := List.forall_mem_append.mp hregs
            exact List.forall_mem_append.mpr
              ⟨hbefore, List.forall_mem_cons.mpr ⟨htaken, (List.forall_mem_cons.mp hrest).2⟩⟩
          · intro huninit
            have hempty := hsound.uninit huninit
            rw [hsplit] at hempty
            simp at hempty
          · change entries (before ++ rev.take :: after) + client.requested ≤ client.semaphore + 0
            have hone : client.carried ≤ 1 := by
              rw [hcarried]
              cases token <;> decide
            omega
          · change client.requested ≤ client.semaphore + 0
            omega
  · exact hsound

end Client

/-! The server. -/

structure Server.Sound (server : Server) : Prop where
  clients : ∀ client ∈ server.clients, client.Sound
  counter : 0 < server.handleCounter

instance RegEv.WithinLimit.decide (rev : RegEv) (sameAppl : Bool) (invoked : List InvokedEv) :
    Decidable (rev.WithinLimit sameAppl invoked) :=
  inferInstanceAs (Decidable (rev.exact = false →
    (rev.values sameAppl invoked).dedup.length ≤ paramValuesPerEventLimit))

instance Client.WithinLimit.decide (client : Client) (appl : Nat) (invoked : List InvokedEv) :
    Decidable (client.WithinLimit appl invoked) :=
  inferInstanceAs (Decidable
    (∀ rev ∈ client.regEv, rev.WithinLimit (appl == client.appl) invoked))

instance Client.BufferFits.decide (client : Client) (paramSize : Int) :
    Decidable (client.BufferFits paramSize) :=
  inferInstanceAs (Decidable (client.phase = .searching true →
    ∀ rev ∈ client.regEv.find? RegEv.signalled, rev.tooLong paramSize = false))

/-- The limit of the values of a parameter. -/
def EventOk (server : Server) : EventOp → Prop
  | .commit c => ∀ client ∈ server.clients[c]?, ∀ other ∈ server.clients,
      other.WithinLimit client.appl client.invokedEv
  | _ => True

/-- Events have names, and a wait with a time-out has room for the parameter of the
event that it finds. -/
def EventKept (sysUpcase : Name → Name) (server : Server) : EventOp → Prop
  | .register _ name _ _ => eventName sysUpcase name ≠ []
  | .waitSearch c paramSize => ∀ client ∈ server.clients[c]?, client.BufferFits paramSize
  | _ => True

instance EventOk.decide : ∀ server op, Decidable (EventOk server op)
  | server, .commit c =>
      inferInstanceAs (Decidable (∀ client ∈ server.clients[c]?, ∀ other ∈ server.clients,
        other.WithinLimit client.appl client.invokedEv))
  | _, .register _ _ _ _ | _, .unregister _ _ | _, .invoke _ _ _ | _, .cancelEvents _
  | _, .cancelWait _ | _, .cancelIfWaits _ | _, .shutdown _ | _, .selectAppl _ _
  | _, .waitEnter _ _ | _, .waitToken _ | _, .waitTimeout _ | _, .waitCheck _
  | _, .waitSearch _ _ => isTrue trivial

instance EventKept.decide (sysUpcase : Name → Name) :
    ∀ server op, Decidable (EventKept sysUpcase server op)
  | _, .register _ name _ _ => inferInstanceAs (Decidable (eventName sysUpcase name ≠ []))
  | server, .waitSearch c paramSize =>
      inferInstanceAs (Decidable (∀ client ∈ server.clients[c]?, client.BufferFits paramSize))
  | _, .unregister _ _ | _, .invoke _ _ _ | _, .commit _ | _, .cancelEvents _
  | _, .cancelWait _ | _, .cancelIfWaits _ | _, .shutdown _ | _, .selectAppl _ _
  | _, .waitEnter _ _ | _, .waitToken _ | _, .waitTimeout _ | _, .waitCheck _ => isTrue trivial

/-- Returned and pending counts make up the committed invocations, and the entries have
tokens, the one of a running wait included. -/
def Server.Delivers (server : Server) : Prop :=
  ∀ client ∈ server.clients,
    (∀ rev ∈ client.regEv, rev.live = true → rev.delivered + rev.pending = rev.matched) ∧
      entries client.regEv ≤ client.semaphore + client.carried

namespace Server

variable {sysUpcase : Name → Name} {server : Server} {op : EventOp}

theorem Sound.delivers (hsound : server.Sound) : server.Delivers := by
  intro client hclient
  have hclientSound := hsound.clients client hclient
  have htokens := hclientSound.tokens
  exact ⟨fun rev hrev => (hclientSound.regs rev hrev).balance, by omega⟩

theorem sound_start (appls : List Nat) : (start appls).Sound where
  clients := by
    intro client hclient
    obtain ⟨appl, -, rfl⟩ := List.mem_map.mp hclient
    exact Client.sound_initial appl
  counter := Nat.one_pos

theorem Sound.modify {change : Client → Client} {c : Nat} (hsound : server.Sound)
    (hchange : ∀ client ∈ server.clients[c]?, client.Sound → (change client).Sound) :
    (server.modify c change).Sound where
  clients := by
    intro client hclient
    obtain ⟨i, hi⟩ := List.mem_iff_getElem?.mp hclient
    rw [Server.modify, List.getElem?_modify] at hi
    split at hi
    · rename_i heq
      obtain ⟨old, hold, rfl⟩ := Option.map_eq_some_iff.mp hi
      exact hchange old (heq ▸ hold) (hsound.clients old (List.mem_of_getElem? hold))
    · obtain ⟨old, hold, rfl⟩ := Option.map_eq_some_iff.mp hi
      exact hsound.clients _ (List.mem_of_getElem? hold)
  counter := hsound.counter

theorem Sound.register {c : Nat} {name paramStr : Name} {exact : Bool} (hsound : server.Sound)
    (hname : eventName sysUpcase name ≠ []) :
    (server.register sysUpcase c name paramStr exact).Sound := by
  have hrev := RegEv.sound_fresh paramStr exact hname hsound.counter
  have hmodified := @Sound.modify server (·.registerEvent
      (.fresh (eventName sysUpcase name) paramStr exact server.handleCounter)) c hsound
    fun _ _ hclient => hclient.registerEvent hrev (RegEv.entries_fresh _ _ _ _)
  exact ⟨hmodified.clients, Nat.succ_pos _⟩

theorem Sound.commit {c : Nat} (hsound : server.Sound) (hok : EventOk server (.commit c)) :
    (server.commit c).Sound := by
  simp only [Server.commit]
  split
  · exact hsound
  · rename_i client hclient
    have hinvoked := (hsound.clients client (List.mem_of_getElem? hclient)).invoked
    have hcommitted : Sound ⟨server.clients.map fun other =>
        other.commitAll client.appl client.invokedEv, server.handleCounter⟩ := by
      refine ⟨fun other hother => ?_, hsound.counter⟩
      obtain ⟨old, hold, rfl⟩ := List.mem_map.mp hother
      exact (hsound.clients old hold).commitAll hinvoked (hok client hclient old hold)
    exact hcommitted.modify fun _ _ hother => hother.withInvoked (by simp)

theorem Sound.cancelWait (hsound : server.Sound) (handle : Nat) :
    (server.cancelWait handle).Sound := by
  simp only [Server.cancelWait]
  split
  · exact hsound
  · exact hsound.modify fun _ _ hclient => hclient.cancel .cancelled

theorem Sound.step (hsound : server.Sound) (hok : EventOk server op)
    (hkept : EventKept sysUpcase server op) : (eventStep sysUpcase server op).Sound := by
  cases op with
  | register c name paramStr exact => exact hsound.register hkept
  | unregister c handle => exact hsound.modify fun _ _ hclient => hclient.unregisterEvent handle
  | invoke c name paramStr =>
      exact hsound.modify fun _ _ hclient =>
        hclient.withInvoked (Client.addInvoked_pos _ _ hclient.invoked)
  | commit c => exact hsound.commit hok
  | cancelEvents c => exact hsound.modify fun _ _ hclient => hclient.withInvoked (by simp)
  | cancelWait handle => exact hsound.cancelWait handle
  | cancelIfWaits c =>
      refine hsound.modify fun _ _ hclient => ?_
      split
      · exact hclient.cancel .cancelled
      · exact hclient
  | shutdown c =>
      refine hsound.modify fun _ _ hclient => ?_
      split
      · exact hclient.cancel .shutdown
      · exact hclient
  | selectAppl c appl =>
      exact hsound.modify fun _ _ hclient =>
        ⟨hclient.regs, hclient.invoked, hclient.uninit, hclient.tokens, hclient.request⟩
  | waitEnter c timeout => exact hsound.modify fun _ _ hclient => hclient.waitEnter timeout
  | waitToken c => exact hsound.modify fun _ _ hclient => hclient.waitToken
  | waitTimeout c => exact hsound.modify fun _ _ hclient => hclient.waitTimeout
  | waitCheck c => exact hsound.modify fun _ _ hclient => hclient.waitCheck
  | waitSearch c paramSize =>
      exact hsound.modify fun client hmem hclient => hclient.waitSearch (hkept client hmem)

end Server

/-- In a run whose events have names and whose waits have room for the parameters,
no committed invocation is lost and every pending entry has a token. -/
theorem events_delivered {sysUpcase : Name → Name} {appls : List Nat} {ops : List EventOp}
    (hmeets : Run.Meets (eventStep sysUpcase)
      (fun server op => EventOk server op ∧ EventKept sysUpcase server op) (.start appls) ops) :
    Run.Always (eventStep sysUpcase) Server.Delivers (.start appls) ops :=
  Run.always_of_invariant Server.Sound (fun _ hsound => hsound.delivers)
    (fun _ _ hsound hok => hsound.step hok.1 hok.2) (Server.sound_start appls) hmeets

theorem events_delivered_two :
    Run.Always (eventStep id) Server.Delivers (.start [1, 2])
      [.register 0 [65] [] false, .register 1 [65] [66] true, .invoke 1 [65] [66],
        .invoke 1 [65] [66], .invoke 1 [65] [67], .commit 1, .waitEnter 0 true, .waitToken 0,
        .cancelWait 1, .waitCheck 0, .waitEnter 0 true, .waitToken 0, .waitCheck 0,
        .waitSearch 0 10, .waitEnter 1 false, .waitCheck 1, .waitSearch 1 1, .unregister 0 1] :=
  events_delivered (by decide)

/-- A buffer that is too small costs the token of an event that stays. -/
theorem token_lost :
    Run.Meets (eventStep id) EventOk (.start [1])
        [.register 0 [65] [66, 66] true, .waitEnter 0 true, .waitToken 0, .waitCheck 0,
          .waitSearch 0 10, .waitTimeout 0, .invoke 0 [65] [66, 66], .commit 0,
          .waitEnter 0 true, .waitToken 0, .waitCheck 0, .waitSearch 0 2] ∧
      ¬ Run.Always (eventStep id) Server.Delivers (.start [1])
        [.register 0 [65] [66, 66] true, .waitEnter 0 true, .waitToken 0, .waitCheck 0,
          .waitSearch 0 10, .waitTimeout 0, .invoke 0 [65] [66, 66], .commit 0,
          .waitEnter 0 true, .waitToken 0, .waitCheck 0, .waitSearch 0 2] := by
  refine ⟨by decide, fun halways => ?_⟩
  have hlast := (halways.last _ List.mem_cons_self).2
  exact absurd hlast (by decide)

end Sql602.Events
