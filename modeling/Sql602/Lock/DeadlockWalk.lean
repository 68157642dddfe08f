import Sql602.Lock.LockTable
import Mathlib.Dynamics.PeriodicPts.Defs

namespace Sql602.Lock

/-! The clients that wait for a lock and the walk over them. -/

def TAB_TABLENUM : Int := 0

def OBJ_TABLENUM : Int := 1

structure Client where
  waitsFor : Nat
  lockTbdf : Option Int
  recordOrPage : Nat
  lockType : LockType
  breakRequest : Bool
  slaveShutdown : Bool
  timeLimit : Nat
  deriving DecidableEq

/-- The clients by their numbers and the lock tables. `memory` tells whether a lock table
can grow. -/
structure Clients where
  cds : List (Option Client)
  pgLockbase : LockTable
  lockbase : Int → LockTable
  memory : Bool

namespace Clients

def client (clients : Clients) (n : Nat) : Option Client := (clients.cds[n]?).join

/-- Without a table the lock is for a page. -/
def recordLock (clients : Clients) (applnum : Nat) (tbdf : Option Int) (record : Nat)
    (lockType : LockType) : LockTable.LockResult × Clients :=
  match tbdf with
  | none =>
      let (result, lb) := clients.pgLockbase.addLock applnum false record lockType clients.memory
      (result, { clients with pgLockbase := lb })
  | some tbnum =>
      -- A private temporary table is not locked.
      if tbnum < 0 then (.locked, clients)
      else
        let (result, lb) := (clients.lockbase tbnum).addLock applnum
          (decide (tbnum = TAB_TABLENUM ∨ tbnum = OBJ_TABLENUM)) record lockType clients.memory
        (result, { clients with lockbase := Function.update clients.lockbase tbnum lb })

def setWaitsFor (clients : Clients) (n value : Nat) : Clients :=
  { clients with
    cds := clients.cds.modify n (Option.map fun client => { client with waitsFor := value }) }

inductive WalkEnd where
  | noAction
  | canContinue (applnum waitsFor : Nat)
  | deadlock (applnum : Nat)
  deriving DecidableEq

/-- At most `steps` clients are passed. The walk ends in the same way when it has come back
to the client `cdp` and when it has made all steps. -/
def walk (cdp currTime : Nat) : Nat → Nat → Clients → WalkEnd × Clients
  | 0, applnum, clients => (.deadlock applnum, clients)
  | steps + 1, applnum, clients =>
      match clients.client applnum with
      | none => (.noAction, clients)
      | some acdp =>
          if acdp.waitsFor ≠ 1 then (.noAction, clients)
          else
            match clients.recordLock applnum acdp.lockTbdf acdp.recordOrPage acdp.lockType with
            | (.locked, clients) => (.canContinue applnum 2, clients)
            | (.noMemory, clients) => (.canContinue applnum 3, clients)
            | (.blocked owner, clients) =>
                if acdp.breakRequest ∨ acdp.slaveShutdown then (.canContinue applnum 4, clients)
                else if acdp.timeLimit ≠ 0 ∧ acdp.timeLimit < currTime then
                  (.canContinue applnum 5, clients)
                else if (clients.client owner).isNone then (.noAction, clients)
                else if owner = cdp then (.deadlock owner, clients)
                else walk cdp currTime steps owner clients

def isDeadlock (clients : Clients) (cdp currTime : Nat) : Bool × Clients :=
  match walk cdp currTime 10 cdp clients with
  | (.noAction, clients) => (false, clients)
  | (.canContinue applnum waitsFor, clients) => (false, clients.setWaitsFor applnum waitsFor)
  | (.deadlock applnum, clients) => (true, clients.setWaitsFor applnum 6)

/-- The client that `record_lock` reports as blocking a waiting client. -/
def blocker (clients : Clients) (n : Nat) : Option Nat :=
  match clients.client n with
  | none => none
  | some client =>
      if client.waitsFor = 1 then
        match (clients.recordLock n client.lockTbdf client.recordOrPage client.lockType).1 with
        | .blocked owner => if (clients.client owner).isSome then some owner else none
        | _ => none
      else none

/-- Neither cancelled nor timed out. -/
def isStuck (clients : Clients) (currTime n : Nat) : Bool :=
  (clients.blocker n).isSome &&
    (clients.client n).any fun client =>
      decide (¬ (client.breakRequest = true ∨ client.slaveShutdown = true) ∧
        ¬ (client.timeLimit ≠ 0 ∧ client.timeLimit < currTime))

end Clients

end Sql602.Lock

namespace Sql602.Lock

/-! The chain of clients that wait for each other and what the walk says about it. -/

namespace Clients

variable {clients : Clients} {cdp currTime n owner : Nat}

def waitsOn (clients : Clients) : Option Nat → Option Nat := (·.bind clients.blocker)

/-- The client after `k` steps along the blocking clients. -/
def chain (clients : Clients) (n k : Nat) : Option Nat := clients.waitsOn^[k] (some n)

/-- A cycle of waiting clients. -/
def OnCycle (clients : Clients) (n : Nat) : Prop := some n ∈ Function.periodicPts clients.waitsOn

def IsWaiting (clients : Clients) (n : Nat) : Prop :=
  ∃ client, clients.client n = some client ∧ client.waitsFor = 1

@[simp] theorem waitsOn_none : clients.waitsOn none = none := rfl

@[simp] theorem waitsOn_some : clients.waitsOn (some n) = clients.blocker n := rfl

@[simp] theorem chain_zero : clients.chain n 0 = some n := rfl

theorem chain_succ (k : Nat) : clients.chain n (k + 1) = (clients.chain n k).bind clients.blocker :=
  Function.iterate_succ_apply' clients.waitsOn k (some n)

theorem chain_step (hblocker : clients.blocker n = some owner) (k : Nat) :
    clients.chain n (k + 1) = clients.chain owner k := by
  rw [chain, Function.iterate_succ_apply, waitsOn_some, hblocker]
  rfl

theorem iterate_none (k : Nat) : clients.waitsOn^[k] none = none :=
  Function.iterate_fixed waitsOn_none k

theorem chain_none_of_le {j k : Nat} (hle : j ≤ k) (hnone : clients.chain n j = none) :
    clients.chain n k = none := by
  obtain ⟨d, rfl⟩ := Nat.exists_eq_add_of_le' hle
  rw [chain, Function.iterate_add_apply]
  change clients.waitsOn^[d] (clients.chain n j) = none
  rw [hnone, iterate_none]

theorem isWaiting_of_blocker (hblocker : clients.blocker n = some owner) :
    clients.IsWaiting n := by
  unfold blocker at hblocker
  split at hblocker
  case h_1 => cases hblocker
  case h_2 client hclient =>
    split at hblocker
    case isTrue hwaits => exact ⟨client, hclient, hwaits⟩
    case isFalse => cases hblocker

theorem OnCycle.chain_ne_none (hcycle : clients.OnCycle n) (k : Nat) :
    clients.chain n k ≠ none := by
  intro hnone
  obtain ⟨period, hpos, hperiodic⟩ := hcycle
  have hback : clients.chain n (period * k) = some n := (hperiodic.mul_const k).eq
  have hlater := chain_none_of_le (Nat.le_mul_of_pos_left k hpos) hnone
  rw [hback] at hlater
  cases hlater

theorem OnCycle.isWaiting (hcycle : clients.OnCycle n) : clients.IsWaiting n := by
  cases hblocker : clients.blocker n with
  | none => exact absurd (show clients.chain n 1 = none from hblocker) (hcycle.chain_ne_none 1)
  | some owner => exact isWaiting_of_blocker hblocker

/-- A chain that repeats a client stays on a cycle from there on. -/
theorem onCycle_of_repeat {i j k v : Nat} (hlt : i < j) (hrepeat : clients.chain n i = clients.chain n j)
    (hle : i ≤ k) (hv : clients.chain n k = some v) : clients.OnCycle v := by
  have hperiodic : Function.IsPeriodicPt clients.waitsOn (j - i) (clients.chain n i) := by
    change clients.waitsOn^[j - i] (clients.waitsOn^[i] (some n)) = clients.chain n i
    rw [← Function.iterate_add_apply, Nat.sub_add_cancel hlt.le, hrepeat]
    rfl
  have hlater := hperiodic.apply_iterate (k - i)
  have hsplit : clients.waitsOn^[k - i] (clients.chain n i) = clients.chain n k := by
    change clients.waitsOn^[k - i] (clients.waitsOn^[i] (some n)) = clients.chain n k
    rw [← Function.iterate_add_apply, Nat.sub_add_cancel hle]
    rfl
  rw [hsplit, hv] at hlater
  exact ⟨j - i, Nat.sub_pos_of_lt hlt, hlater⟩

/-! One step of the walk. -/

theorem addLock_blocked {table after : LockTable} {record : Nat} {tabOrObj memory : Bool}
    {locktype : LockType}
    (hblocked : table.addLock n tabOrObj record locktype memory = (.blocked owner, after)) :
    after = table := by
  unfold LockTable.addLock at hblocked
  split at hblocked
  · cases hblocked
  · cases hblocked
    rfl
  · split at hblocked
    · cases hblocked
    · split at hblocked
      · cases hblocked
      · cases hblocked

/-- A lock that is not granted changes nothing. -/
theorem recordLock_blocked {after : Clients} {tbdf : Option Int} {record : Nat}
    {lockType : LockType}
    (hblocked : clients.recordLock n tbdf record lockType = (.blocked owner, after)) :
    after = clients := by
  unfold recordLock at hblocked
  split at hblocked
  case h_1 =>
    cases hadd : clients.pgLockbase.addLock n false record lockType clients.memory with
    | mk result lb =>
        rw [hadd] at hblocked
        cases hblocked
        rw [addLock_blocked hadd]
  case h_2 tbnum =>
    split at hblocked
    case isTrue => cases hblocked
    case isFalse =>
      cases hadd : (clients.lockbase tbnum).addLock n
          (decide (tbnum = TAB_TABLENUM ∨ tbnum = OBJ_TABLENUM)) record lockType
          clients.memory with
      | mk result lb =>
          rw [hadd] at hblocked
          cases hblocked
          rw [addLock_blocked hadd, Function.update_eq_self]

theorem walk_of_stuck (hstuck : clients.isStuck currTime n = true) (steps : Nat) :
    ∃ owner, clients.blocker n = some owner ∧
      walk cdp currTime (steps + 1) n clients =
        if owner = cdp then (.deadlock owner, clients)
        else walk cdp currTime steps owner clients := by
  obtain ⟨hsome, hflags⟩ := Bool.and_eq_true_iff.mp hstuck
  obtain ⟨owner, howner⟩ := Option.isSome_iff_exists.mp hsome
  refine ⟨owner, howner, ?_⟩
  cases hclient : clients.client n with
  | none =>
      rw [hclient] at hflags
      cases hflags
  | some client =>
      rw [hclient] at hflags
      unfold blocker at howner
      rw [hclient] at howner
      dsimp only at howner
      split at howner
      case isFalse => cases howner
      case isTrue hwaits =>
        split at howner
        case h_2 => cases howner
        case h_1 other hresult =>
          split at howner
          case isFalse => cases howner
          case isTrue hexists =>
            cases howner
            obtain ⟨hrunning, hintime⟩ := of_decide_eq_true hflags
            cases hlock : clients.recordLock n client.lockTbdf client.recordOrPage
                client.lockType with
            | mk result after =>
                rw [hlock] at hresult
                dsimp only at hresult
                subst hresult
                obtain rfl := recordLock_blocked hlock
                have hfound : ¬ (after.client owner).isNone = true := by
                  rw [Option.isNone_iff_eq_none]
                  exact Option.isSome_iff_ne_none.mp hexists
                rw [walk, hclient]
                simp only [hwaits, ne_eq, not_true_eq_false, if_false, hlock, if_neg hrunning,
                  if_neg hintime, if_neg hfound]

theorem walk_of_not_stuck (hstuck : clients.isStuck currTime n = false) (steps v : Nat) :
    (walk cdp currTime (steps + 1) n clients).1 ≠ .deadlock v := by
  intro hverdict
  rw [walk] at hverdict
  cases hclient : clients.client n with
  | none =>
      rw [hclient] at hverdict
      cases hverdict
  | some client =>
      rw [hclient] at hverdict
      dsimp only at hverdict
      split at hverdict
      case isTrue => cases hverdict
      case isFalse hwaits =>
        split at hverdict
        case h_1 => cases hverdict
        case h_2 => cases hverdict
        case h_3 owner after hlock =>
          obtain rfl := recordLock_blocked hlock
          split at hverdict
          case isTrue => cases hverdict
          case isFalse hcancelled =>
            split at hverdict
            case isTrue => cases hverdict
            case isFalse htimeout =>
              split at hverdict
              case isTrue => cases hverdict
              case isFalse hexists =>
                have howner : after.blocker n = some owner := by
                  unfold blocker
                  rw [hclient]
                  dsimp only
                  rw [if_pos (not_not.mp hwaits), hlock]
                  apply if_pos
                  rw [Option.isSome_iff_ne_none]
                  exact fun hnone => hexists (Option.isNone_iff_eq_none.mpr hnone)
                have hfree : after.isStuck currTime n = true := by
                  unfold isStuck
                  rw [howner, hclient]
                  exact decide_eq_true ⟨hcancelled, htimeout⟩
                rw [hfree] at hstuck
                cases hstuck

/-! The whole walk. -/

/-- A verdict is on the client that the walk came back to or on the last one of the steps. -/
theorem walk_deadlock {steps v : Nat} (hverdict : (walk cdp currTime steps n clients).1 = .deadlock v) :
    (v = cdp ∧ ∃ k, 0 < k ∧ clients.chain n k = some cdp) ∨
      clients.chain n steps = some v ∧
        ∀ k < steps, ∃ c, clients.chain n k = some c ∧ clients.isStuck currTime c = true := by
  induction steps generalizing n with
  | zero =>
      cases hverdict
      exact Or.inr ⟨rfl, fun k hk => absurd hk (Nat.not_lt_zero k)⟩
  | succ steps ih =>
      cases hstuck : clients.isStuck currTime n with
      | false => exact absurd hverdict (walk_of_not_stuck hstuck steps v)
      | true =>
          obtain ⟨owner, howner, hwalk⟩ := @walk_of_stuck clients cdp currTime n hstuck steps
          rw [hwalk] at hverdict
          split at hverdict
          case isTrue hback =>
            subst hback
            cases hverdict
            exact Or.inl ⟨rfl, 1, Nat.one_pos, howner⟩
          case isFalse =>
            cases ih hverdict with
            | inl hback =>
                obtain ⟨hv, k, hpos, hk⟩ := hback
                exact Or.inl ⟨hv, k + 1, Nat.succ_pos k, (chain_step howner k).trans hk⟩
            | inr hlast =>
                obtain ⟨hv, hall⟩ := hlast
                refine Or.inr ⟨(chain_step howner steps).trans hv, ?_⟩
                intro k hk
                cases k with
                | zero => exact ⟨n, rfl, hstuck⟩
                | succ k =>
                    obtain ⟨c, hc, hcstuck⟩ := hall k (Nat.lt_of_succ_lt_succ hk)
                    exact ⟨c, (chain_step howner k).trans hc, hcstuck⟩

/-- A chain that is still open after all steps ends in a verdict on its last client. -/
theorem walk_open {steps : Nat}
    (hstuck : ∀ k < steps, ∀ c, clients.chain n k = some c → clients.isStuck currTime c = true)
    (hopen : ∀ k, 0 < k → k ≤ steps → clients.chain n k ≠ some cdp) :
    ∃ v, clients.chain n steps = some v ∧
      (walk cdp currTime steps n clients).1 = .deadlock v := by
  induction steps generalizing n with
  | zero => exact ⟨n, rfl, rfl⟩
  | succ steps ih =>
      obtain ⟨owner, howner, hwalk⟩ := @walk_of_stuck clients cdp currTime n
        (hstuck 0 (Nat.succ_pos steps) n rfl) steps
      have hother : owner ≠ cdp := by
        rintro rfl
        exact hopen 1 Nat.one_pos (Nat.le_add_left 1 steps) howner
      obtain ⟨v, hv, hverdict⟩ := @ih owner
        (fun k hk c hc => hstuck (k + 1) (Nat.succ_lt_succ hk) c ((chain_step howner k).trans hc))
        (fun k hpos hk hc =>
          hopen (k + 1) (Nat.succ_pos k) (Nat.succ_le_succ hk) ((chain_step howner k).trans hc))
      refine ⟨v, (chain_step howner steps).trans hv, ?_⟩
      rw [hwalk, if_neg hother]
      exact hverdict

/-- `is_deadlock`, called for `cdp`, marks the client `v`. -/
def Marks (clients : Clients) (cdp currTime v : Nat) : Prop :=
  (walk cdp currTime 10 cdp clients).1 = .deadlock v

theorem isDeadlock_eq_true (hreport : (clients.isDeadlock cdp currTime).1 = true) :
    ∃ v, clients.Marks cdp currTime v := by
  unfold isDeadlock at hreport
  unfold Marks
  cases hwalk : walk cdp currTime 10 cdp clients with
  | mk verdict after =>
      rw [hwalk] at hreport
      cases verdict with
      | noAction => cases hreport
      | canContinue => cases hreport
      | deadlock v => exact ⟨v, rfl⟩

structure VerdictSound (clients : Clients) (cdp currTime : Nat) : Prop where
  marked : ∀ v, clients.Marks cdp currTime v → clients.IsWaiting v ∧ clients.OnCycle v
  running : ∀ k c, clients.chain cdp k = some c → ¬ clients.IsWaiting c →
    (clients.isDeadlock cdp currTime).1 = false

/-- Among the first ten clients of the chain one can go on, or the chain enters a cycle of
waiting clients within ten steps. -/
def ChainDecided (clients : Clients) (cdp currTime : Nat) : Prop :=
  (∃ k < 10, ∃ c, clients.chain cdp k = some c ∧ clients.isStuck currTime c = false) ∨
    ∃ i ≤ 10, ∃ j, i < j ∧ clients.chain cdp i = clients.chain cdp j ∧
      clients.chain cdp i ≠ none

theorem marked_onCycle (hdecided : clients.ChainDecided cdp currTime) {v : Nat}
    (hmarks : clients.Marks cdp currTime v) : clients.OnCycle v := by
  cases walk_deadlock hmarks with
  | inl hback =>
      obtain ⟨rfl, k, hpos, hk⟩ := hback
      exact ⟨k, hpos, hk⟩
  | inr hlast =>
      obtain ⟨hv, hall⟩ := hlast
      cases hdecided with
      | inl hstops =>
          obtain ⟨k, hk, c, hc, hfree⟩ := hstops
          obtain ⟨c', hc', hstuck⟩ := hall k hk
          rw [hc] at hc'
          cases hc'
          rw [hfree] at hstuck
          cases hstuck
      | inr henters =>
          obtain ⟨i, hi, j, hlt, hrepeat, _⟩ := henters
          exact onCycle_of_repeat hlt hrepeat hi hv

/-- A chain from which a client on a cycle can be reached has no running client. -/
theorem OnCycle.all_waiting {v m k c : Nat} (hv : clients.chain n m = some v)
    (hcycle : clients.OnCycle v) (hc : clients.chain n k = some c) : clients.IsWaiting c := by
  cases hblocker : clients.blocker c with
  | some owner => exact isWaiting_of_blocker hblocker
  | none =>
      have hnext : clients.chain n (k + 1) = none := by
        rw [chain_succ, hc]
        exact hblocker
      have hlater : clients.chain n (m + (k + 1)) = none :=
        chain_none_of_le (Nat.le_add_left _ _) hnext
      have hsplit : clients.chain n (m + (k + 1)) = clients.chain v (k + 1) := by
        rw [chain, Nat.add_comm, Function.iterate_add_apply]
        change clients.waitsOn^[k + 1] (clients.chain n m) = _
        rw [hv]
        rfl
      rw [hsplit] at hlater
      exact absurd hlater (hcycle.chain_ne_none (k + 1))

end Clients

open Clients

theorem verdictSound_iff (clients : Clients) (cdp currTime : Nat) :
    clients.VerdictSound cdp currTime ↔ clients.ChainDecided cdp currTime := by
  constructor
  · intro hsound
    by_contra hdecided
    obtain ⟨hstops, henters⟩ := not_or.mp hdecided
    have hstuck : ∀ k < 10, ∀ c, clients.chain cdp k = some c →
        clients.isStuck currTime c = true := by
      intro k hk c hc
      cases hfree : clients.isStuck currTime c with
      | true => rfl
      | false => exact absurd ⟨k, hk, c, hc, hfree⟩ hstops
    have hopen : ∀ k, 0 < k → k ≤ 10 → clients.chain cdp k ≠ some cdp := by
      intro k hpos _ hback
      exact henters ⟨0, Nat.zero_le 10, k, hpos, hback.symm, Option.some_ne_none cdp⟩
    obtain ⟨v, hv, hmarks⟩ := walk_open hstuck hopen
    obtain ⟨period, hpos, hperiodic⟩ := (hsound.marked v hmarks).2
    refine henters ⟨10, Nat.le_refl 10, period + 10, Nat.lt_add_of_pos_left hpos, ?_, ?_⟩
    · rw [hv, chain, Function.iterate_add_apply]
      change _ = clients.waitsOn^[period] (clients.chain cdp 10)
      rw [hv]
      exact hperiodic.eq.symm
    · rw [hv]
      exact Option.some_ne_none v
  · intro hdecided
    refine ⟨fun v hmarks => ?_, fun k c hc hrunning => ?_⟩
    · have hcycle := marked_onCycle hdecided hmarks
      exact ⟨hcycle.isWaiting, hcycle⟩
    · cases hreport : (clients.isDeadlock cdp currTime).1 with
      | false => rfl
      | true =>
          obtain ⟨v, hmarks⟩ := isDeadlock_eq_true hreport
          have hcycle := marked_onCycle hdecided hmarks
          cases walk_deadlock hmarks with
          | inl hback =>
              obtain ⟨rfl, m, _, hm⟩ := hback
              exact absurd (hcycle.all_waiting hm hc) hrunning
          | inr hlast => exact absurd (hcycle.all_waiting hlast.1 hc) hrunning

def chainTable : LockTable :=
  (List.range 11).foldl (fun table record => table.insert record (record + 1) .wlock)
    ⟨List.replicate 24 .empty, 0, 0⟩

def waitingClient (record : Nat) : Client := ⟨1, some 20, record, .wlock, false, false, 0⟩

/-- Each of eleven clients waits for a record that the next client has locked. The last
client does not wait. -/
def clientChain : Clients where
  cds := (List.range 11).map (fun record => some (waitingClient record)) ++
    [some ⟨0, none, 0, .wlock, false, false, 0⟩]
  pgLockbase := ⟨[], 0, 0⟩
  lockbase := fun _ => chainTable
  memory := true

theorem not_forall_verdictSound :
    ¬ ∀ (clients : Clients) (cdp currTime : Nat), clients.VerdictSound cdp currTime := by
  intro hsound
  have hend : clientChain.chain 0 11 = some 11 := by decide
  have hrunning : ¬ clientChain.IsWaiting 11 := by
    rintro ⟨client, hclient, hwaits⟩
    cases hclient
    cases hwaits
  have hnone := (hsound clientChain 0 0).running 11 11 hend hrunning
  exact absurd hnone (by decide)

end Sql602.Lock
