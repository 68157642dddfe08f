import Mathlib.Logic.Function.Basic
import Mathlib.Data.List.Basic

namespace Sql602.Lock

/-! The locks on block numbers: the numbers in the cells of an array, and the list of the
threads that wait for them. -/

def MAX_DADR_LOCKS : Int := 60

/-- What every thread has for its waiting. -/
structure Dws (Cdp : Type*) where
  lockingDadr : Nat
  next : Option Cdp
  hSemaphore : Nat

/-- A free cell is 0. What is behind `lastUsed` is not looked at. -/
structure DadrLocks (Cdp : Type*) where
  dadrs : Int → Nat
  lastUsed : Int
  waitingForDadr : Option Cdp
  dws : Cdp → Dws Cdp

variable {Cdp : Type*} [DecidableEq Cdp]

namespace DadrLocks

/-- The search of `dadr` in `turns` cells from `i` on. `none` says that it is locked, otherwise
the last free cell or -1 is the result. -/
def search (dadrs : Int → Nat) (dadr : Nat) : Nat → Int → Int → Option Int
  | 0, _, fr => some fr
  | turns + 1, i, fr =>
      if dadrs i = dadr then none
      else search dadrs dadr turns (i + 1) (if dadrs i = 0 then i else fr)

def setDws (l : DadrLocks Cdp) (cdp : Cdp) (dws : Dws Cdp) : DadrLocks Cdp :=
  { l with dws := Function.update l.dws cdp dws }

/-- The thread puts itself into the list. -/
def enqueue (l : DadrLocks Cdp) (cdp : Cdp) (dadr : Nat) : DadrLocks Cdp :=
  { l.setDws cdp { l.dws cdp with lockingDadr := dadr, next := l.waitingForDadr } with
    waitingForDadr := some cdp }

/-! `pcdp` is the pointer of a thread to the next one, or for `none` the head of the list. -/

def deref (l : DadrLocks Cdp) : Option Cdp → Option Cdp
  | none => l.waitingForDadr
  | some cdp => (l.dws cdp).next

def assign (l : DadrLocks Cdp) (value : Option Cdp) : Option Cdp → DadrLocks Cdp
  | none => { l with waitingForDadr := value }
  | some cdp => l.setDws cdp { l.dws cdp with next := value }

def post (l : DadrLocks Cdp) (cdp : Cdp) : DadrLocks Cdp :=
  l.setDws cdp { l.dws cdp with hSemaphore := (l.dws cdp).hSemaphore + 1 }

def pass (l : DadrLocks Cdp) (cdp : Cdp) : DadrLocks Cdp :=
  l.setDws cdp { l.dws cdp with hSemaphore := (l.dws cdp).hSemaphore - 1 }

/-- The threads that wait for `dadr` are released. -/
def release (dadr : Nat) : Nat → DadrLocks Cdp → Option Cdp → Option Cdp → Option (DadrLocks Cdp)
  | _, l, _, none => some l
  | 0, _, _, some _ => none
  | fuel + 1, l, pcdp, some acdp =>
      if (l.dws acdp).lockingDadr = dadr then
        let l := (l.assign (l.dws acdp).next pcdp).post acdp
        release dadr fuel l pcdp (l.deref pcdp)
      else release dadr fuel l (some acdp) (l.dws acdp).next

def unlock (fuel : Nat) (l : DadrLocks Cdp) (ind : Int) : Option (DadrLocks Cdp) :=
  let dadr := l.dadrs ind
  let l := { l with
    dadrs := Function.update l.dadrs ind 0
    lastUsed := if ind = l.lastUsed then l.lastUsed - 1 else l.lastUsed }
  release dadr fuel l none l.waitingForDadr

end DadrLocks

/-! The threads. What a thread does without leaving the critical section is one step. -/

/-- A thread in `wait_lock` waits for its semaphore, or the semaphore has let it through and it
has to enter the critical section again, or it sleeps because all the cells are used. -/
inductive Status where
  | outside
  | waiting (dadr : Nat)
  | woken (dadr : Nat)
  | sleeping (dadr : Nat)
  deriving DecidableEq

/-- An index that a thread has got from `wait_lock` and that it has not unlocked yet. -/
structure Got (Cdp : Type*) where
  cdp : Cdp
  dadr : Nat
  ind : Int
  deriving DecidableEq

/-- `enqueued` counts how often a thread has put itself into the list. -/
structure Threads (Cdp : Type*) where
  locks : DadrLocks Cdp
  status : Cdp → Status
  waited : Cdp → Bool
  got : List (Got Cdp)
  enqueued : Nat

inductive Action (Cdp : Type*) where
  | waitLock (cdp : Cdp) (dadr : Nat)
  | wake (cdp : Cdp)
  | retry (cdp : Cdp)
  | unlock (cdp : Cdp) (ind : Int)

namespace Threads

def enqueue (s : Threads Cdp) (cdp : Cdp) (dadr : Nat) : Threads Cdp :=
  { s with
    locks := s.locks.enqueue cdp dadr
    status := Function.update s.status cdp (.waiting dadr)
    enqueued := s.enqueued + 1 }

def sleep (s : Threads Cdp) (cdp : Cdp) (dadr : Nat) : Threads Cdp :=
  { s with status := Function.update s.status cdp (.sleeping dadr) }

def lock (s : Threads Cdp) (cdp : Cdp) (dadr : Nat) (fr lastUsed : Int) : Threads Cdp :=
  { s with
    locks := { s.locks with dadrs := Function.update s.locks.dadrs fr dadr, lastUsed }
    status := Function.update s.status cdp .outside
    got := ⟨cdp, dadr, fr⟩ :: s.got }

/-- `wait_lock` from `lock_retry` to the end or to where the critical section is left. -/
def lockRetry (s : Threads Cdp) (cdp : Cdp) (dadr : Nat) : Threads Cdp :=
  match DadrLocks.search s.locks.dadrs dadr (s.locks.lastUsed + 1).toNat 0 (-1) with
  | none => s.enqueue cdp dadr
  | some fr =>
      if fr = -1 then
        if s.locks.lastUsed ≥ MAX_DADR_LOCKS - 1 then s.sleep cdp dadr
        else s.lock cdp dadr (s.locks.lastUsed + 1) (s.locks.lastUsed + 1)
      else s.lock cdp dadr fr s.locks.lastUsed

/-- The critical section is entered again. -/
def again (s : Threads Cdp) (cdp : Cdp) (dadr : Nat) : Threads Cdp :=
  { s with waited := Function.update s.waited cdp true }.lockRetry cdp dadr

/-- `none` says that the thread cannot do it now, or that an `unlock` has gone round a list that
is longer than it can be. -/
def step (s : Threads Cdp) : Action Cdp → Option (Threads Cdp)
  | .waitLock cdp dadr =>
      match s.status cdp with
      | .outside =>
          some ({ s with waited := Function.update s.waited cdp false }.lockRetry cdp dadr)
      | _ => none
  | .wake cdp =>
      match s.status cdp with
      | .waiting dadr =>
          if (s.locks.dws cdp).hSemaphore = 0 then none
          else
            some { s with
              locks := s.locks.pass cdp
              status := Function.update s.status cdp (.woken dadr) }
      | _ => none
  | .retry cdp =>
      match s.status cdp with
      | .woken dadr => some (s.again cdp dadr)
      | .sleeping dadr => some (s.again cdp dadr)
      | _ => none
  | .unlock cdp ind =>
      if s.status cdp = .outside ∧ ∃ got ∈ s.got, got.cdp = cdp ∧ got.ind = ind then
        (s.locks.unlock s.enqueued ind).map fun locks =>
          { s with locks, got := s.got.filter fun got => got.ind ≠ ind }
      else none

/-- The cells and what the threads have for their waiting may contain anything at first, but the
semaphores are new. -/
def init (dadrs : Int → Nat) (dws : Cdp → Dws Cdp) : Threads Cdp where
  locks := ⟨dadrs, -1, none, fun cdp => { dws cdp with hSemaphore := 0 }⟩
  status := fun _ => .outside
  waited := fun _ => false
  got := []
  enqueued := 0

def run (s : Threads Cdp) (actions : List (Action Cdp)) : Option (Threads Cdp) :=
  actions.foldlM step s

end Threads

end Sql602.Lock
