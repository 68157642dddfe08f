import Mathlib.Data.List.Basic
import Mathlib.Data.List.Dedup
import Mathlib.Algebra.BigOperators.Group.List.Basic
import Sql602.Library.Run

namespace Sql602.Events

/-! The events that clients register, invoke and wait for. A string is the list of
its bytes; an empty parameter stands for the absent one, as in the source. -/

abbrev Name : Type := List UInt8

def paramValuesPerEventLimit : Nat := 5000
def objNameLen : Nat := 31

/-- The names of events are truncated and then converted by the upper case. -/
def eventName (sysUpcase : Name → Name) (name : Name) : Name := sysUpcase (name.take objNameLen)

def isLocalEvent (name : Name) : Bool := name.head? == some 64

structure EventOccurrence where
  param : Name
  count : Nat
  deriving DecidableEq

/-- A registered event. The last two fields are its history: how many committed
invocations matched it, and how many of them a wait returned. -/
structure RegEv where
  name : Name
  paramStr : Name
  exact : Bool
  handle : Nat
  count : Nat
  occ : List EventOccurrence
  matched : Nat
  delivered : Nat
  deriving DecidableEq

structure InvokedEv where
  name : Name
  paramStr : Name
  count : Nat
  deriving DecidableEq

/-- What a wait waits for next: the semaphore, the cancel request or the critical
section. A wait with a zero time-out takes no token. -/
inductive Phase where
  | outside
  | waiting
  | checking (token : Bool)
  | searching (token : Bool)
  deriving DecidableEq

inductive CancelReason where
  | cancelled
  | shutdown
  deriving DecidableEq

structure Client where
  isInit : Bool
  semaphore : Nat
  cancelRequested : Option CancelReason
  regEv : List RegEv
  invokedEv : List InvokedEv
  appl : Nat
  phase : Phase
  deriving DecidableEq

inductive WaitResult where
  | ok (handle count : Nat) (param : Name)
  | bufferSize
  deriving DecidableEq

namespace RegEv

def fresh (name paramStr : Name) (exact : Bool) (handle : Nat) : RegEv :=
  ⟨name, paramStr, exact, handle, 0, [], 0, 0⟩

def clear (rev : RegEv) : RegEv :=
  { rev with name := [], paramStr := [], handle := 0, count := 0, occ := [] }

/-- The name and the parameter of the invocation are those of the registration; a
local event stays in its application. -/
def fits (rev : RegEv) (sameAppl : Bool) (ev : InvokedEv) : Bool :=
  (!isLocalEvent ev.name || sameAppl) && ev.name == rev.name &&
    if rev.exact then rev.paramStr == ev.paramStr else rev.paramStr.isPrefixOf ev.paramStr

/-- Counts the invocation in the occurrence that has its parameter. -/
def countOccurrence (ev : InvokedEv) : List EventOccurrence → Option (List EventOccurrence)
  | [] => none
  | occ :: rest =>
      if occ.param = ev.paramStr then some ({ occ with count := occ.count + ev.count } :: rest)
      else (countOccurrence ev rest).map (occ :: ·)

/-- The occurrences after an invocation, unless they have too many values. -/
def addOccurrence (ev : InvokedEv) (occ : List EventOccurrence) :
    Option (List EventOccurrence) :=
  match countOccurrence ev occ with
  | some occ => some occ
  | none =>
      if occ.length > paramValuesPerEventLimit then none else some (⟨ev.paramStr, ev.count⟩ :: occ)

/-- The registration after a commit of the invocation, when the commit signals it. -/
def signal (rev : RegEv) (sameAppl : Bool) (ev : InvokedEv) : Option RegEv :=
  if rev.fits sameAppl ev then
    if rev.exact then some { rev with count := rev.count + ev.count }
    else
      (addOccurrence ev rev.occ).map fun occ =>
        { rev with count := rev.count + ev.count, occ := occ }
  else none

def note (rev : RegEv) (sameAppl : Bool) (ev : InvokedEv) : RegEv :=
  if rev.fits sameAppl ev then { rev with matched := rev.matched + ev.count } else rev

def commit (rev : RegEv) (sameAppl : Bool) (ev : InvokedEv) : RegEv :=
  ((rev.signal sameAppl ev).getD rev).note sameAppl ev

/-- The registration is one that a wait stops at. -/
def signalled (rev : RegEv) : Bool := rev.count != 0 && !rev.name.isEmpty

/-- The first parameter to return; the list of occurrences is not empty. -/
def param (rev : RegEv) : Name :=
  if rev.exact then rev.paramStr else (rev.occ.head?.map EventOccurrence.param).getD []

/-- An absent parameter needs one byte; the length of another one is compared with the
size as an unsigned number. -/
def tooLong (rev : RegEv) (paramSize : Int) : Bool :=
  if rev.exact && rev.paramStr.isEmpty then paramSize ≤ 0
  else 0 ≤ paramSize && paramSize ≤ rev.param.length

def eventCount (rev : RegEv) : Nat :=
  if rev.exact then rev.count else (rev.occ.head?.map EventOccurrence.count).getD 0

def take (rev : RegEv) : RegEv :=
  if rev.exact then { rev with count := 0, delivered := rev.delivered + rev.eventCount }
  else
    { rev with
      count := rev.count - rev.eventCount
      occ := rev.occ.tail
      delivered := rev.delivered + rev.eventCount }

end RegEv

/-- The search for a signalled event; it takes what it returns. -/
def search (paramSize : Int) : List RegEv → Option WaitResult × List RegEv
  | [] => (none, [])
  | rev :: rest =>
      if rev.signalled then
        if rev.tooLong paramSize then (some .bufferSize, rev :: rest)
        else (some (.ok rev.handle rev.eventCount rev.param), rev.take :: rest)
      else
        let (result, rest) := search paramSize rest
        (result, rev :: rest)

namespace Client

def initial (appl : Nat) : Client := ⟨false, 0, none, [], [], appl, .outside⟩

/-- The last free place is used. -/
def putRegEv (rev : RegEv) (regEv : List RegEv) : List RegEv :=
  match regEv.reverse.findIdx? (·.name.isEmpty) with
  | none => regEv ++ [rev]
  | some i => regEv.set (regEv.length - 1 - i) rev

def registerEvent (client : Client) (rev : RegEv) : Client :=
  let ready :=
    if client.isInit then client
    else { client with isInit := true, semaphore := 1, cancelRequested := none }
  { ready with regEv := putRegEv rev ready.regEv }

def unregisterEvent (client : Client) (handle : Nat) : Client :=
  if client.isInit then
    match client.regEv.findIdx? (·.handle == handle) with
    | none => client
    | some i => { client with regEv := client.regEv.modify i RegEv.clear }
  else client

def addInvoked (name paramStr : Name) : List InvokedEv → List InvokedEv
  | [] => [⟨name, paramStr, 1⟩]
  | ev :: rest =>
      if ev.name = name ∧ ev.paramStr = paramStr then { ev with count := ev.count + 1 } :: rest
      else ev :: addInvoked name paramStr rest

def invokeEvent (client : Client) (name paramStr : Name) : Client :=
  { client with invokedEv := addInvoked name paramStr client.invokedEv }

def cancelEvents (client : Client) : Client := { client with invokedEv := [] }

def commitEvent (client : Client) (sameAppl : Bool) (ev : InvokedEv) : Client :=
  { client with
    regEv := client.regEv.map fun rev => rev.commit sameAppl ev
    semaphore :=
      client.semaphore + client.regEv.countP fun rev => (rev.signal sameAppl ev).isSome }

/-- The invocations of a transaction are committed for one client. -/
def commitAll (client : Client) (appl : Nat) (invoked : List InvokedEv) : Client :=
  if client.isInit then
    invoked.foldl (fun state ev => state.commitEvent (appl == client.appl) ev) client
  else client

def cancel (client : Client) (reason : CancelReason) : Client :=
  { client with cancelRequested := some reason, semaphore := client.semaphore + 1 }

/-- A client waits once at a time. -/
def waitEnter (client : Client) (timeout : Bool) : Client :=
  if client.phase = .outside then
    { client with phase := if timeout then .waiting else .checking false }
  else client

def waitToken (client : Client) : Client :=
  if client.phase = .waiting ∧ 0 < client.semaphore then
    { client with phase := .checking true, semaphore := client.semaphore - 1 }
  else client

def waitTimeout (client : Client) : Client :=
  if client.phase = .waiting then { client with phase := .outside } else client

def waitCheck (client : Client) : Client :=
  match client.phase with
  | .checking token =>
      if client.cancelRequested.isSome then
        { client with cancelRequested := none, phase := .outside }
      else { client with phase := .searching token }
  | _ => client

/-- A wait with a time-out starts again when it found nothing. -/
def waitSearch (client : Client) (paramSize : Int) : Client :=
  match client.phase with
  | .searching token =>
      let (result, regEv) := search paramSize client.regEv
      { client with
        regEv := regEv
        phase := if result = none ∧ token then .waiting else .outside }
  | _ => client

end Client

structure Server where
  clients : List Client
  handleCounter : Nat
  deriving DecidableEq

inductive EventOp where
  | register (c : Nat) (name paramStr : Name) (exact : Bool)
  | unregister (c handle : Nat)
  | invoke (c : Nat) (name paramStr : Name)
  | commit (c : Nat)
  | cancelEvents (c : Nat)
  | cancelWait (handle : Nat)
  | cancelIfWaits (c : Nat)
  | shutdown (c : Nat)
  | selectAppl (c appl : Nat)
  | waitEnter (c : Nat) (timeout : Bool)
  | waitToken (c : Nat)
  | waitTimeout (c : Nat)
  | waitCheck (c : Nat)
  | waitSearch (c : Nat) (paramSize : Int)

namespace Server

def start (appls : List Nat) : Server := ⟨appls.map Client.initial, 1⟩

def modify (server : Server) (c : Nat) (change : Client → Client) : Server :=
  { server with clients := server.clients.modify c change }

def register (sysUpcase : Name → Name) (server : Server) (c : Nat) (name paramStr : Name)
    (exact : Bool) : Server :=
  { server.modify c (·.registerEvent
      (.fresh (eventName sysUpcase name) paramStr exact server.handleCounter)) with
    handleCounter := server.handleCounter + 1 }

def commit (server : Server) (c : Nat) : Server :=
  match server.clients[c]? with
  | none => server
  | some client =>
      { server with
        clients := (server.clients.map fun other =>
          other.commitAll client.appl client.invokedEv).modify c Client.cancelEvents }

/-- The first client that has the handle is cancelled. -/
def cancelWait (server : Server) (handle : Nat) : Server :=
  match server.clients.findIdx? fun client =>
      client.isInit && client.regEv.any (·.handle == handle) with
  | none => server
  | some c => server.modify c (·.cancel .cancelled)

end Server

def eventStep (sysUpcase : Name → Name) (server : Server) : EventOp → Server
  | .register c name paramStr exact => server.register sysUpcase c name paramStr exact
  | .unregister c handle => server.modify c (·.unregisterEvent handle)
  | .invoke c name paramStr => server.modify c (·.invokeEvent (eventName sysUpcase name) paramStr)
  | .commit c => server.commit c
  | .cancelEvents c => server.modify c Client.cancelEvents
  | .cancelWait handle => server.cancelWait handle
  | .cancelIfWaits c =>
      server.modify c fun client =>
        if client.phase = .waiting then client.cancel .cancelled else client
  | .shutdown c =>
      server.modify c fun client => if client.isInit then client.cancel .shutdown else client
  | .selectAppl c appl => server.modify c fun client => { client with appl := appl }
  | .waitEnter c timeout => server.modify c (·.waitEnter timeout)
  | .waitToken c => server.modify c Client.waitToken
  | .waitTimeout c => server.modify c Client.waitTimeout
  | .waitCheck c => server.modify c Client.waitCheck
  | .waitSearch c paramSize => server.modify c (·.waitSearch paramSize)

end Sql602.Events
