import Sql602.Library.Run
import Sql602.Library.Chains

namespace Sql602.Rights

open Bytes Chains

/-! The cyclic buffer of effective privileges. A number of a table or record is the
word that the entry holds; the numbers of temporary tables are negative. -/

def PRIVIL_CACHE_SIZE : Nat := 800
def UUID_SIZE : Nat := 12
def NORECNUM : UInt32 := 0xffffffff
def OUTER_JOIN_NULL_POSITION : UInt32 := 0xfffffffe

def privilDescrSize (attrcnt : Nat) : Nat := 1 + (attrcnt - 2) / 4 + 1

/-- What the privileges are computed from; a definition that cannot be loaded is
absent. -/
structure PrivilDefs where
  attrcnt : UInt32 → Nat
  recPrivils : UInt32 → Bool
  globalDef : UInt32 → Option (List UInt8)
  recordDef : UInt32 → UInt32 → Option (List UInt8)

def PrivilDefs.descrSize (defs : PrivilDefs) (tb : UInt32) : Nat :=
  privilDescrSize (defs.attrcnt tb)

def isTemporary (tb : UInt32) : Bool := 0x80000000 ≤ tb

/-- Adds the privileges of the subjects that the user is a member of. -/
def addPrivils (inGroupdef : List UInt8 → Bool) (descrSize : Nat) :
    Nat → List UInt8 → List UInt8 → List UInt8
  | 0, _, privVal => privVal
  | fuel + 1, privDef, privVal =>
      if privDef.length < UUID_SIZE + descrSize then privVal
      else
        addPrivils inGroupdef descrSize fuel (privDef.drop (UUID_SIZE + descrSize))
          (if inGroupdef (privDef.take UUID_SIZE) then
            List.zipWith (· ||| ·) privVal (privDef.drop UUID_SIZE)
          else privVal)

/-- The first byte of a definition is not used any more. -/
def sumarizePrivils (inGroupdef : List UInt8 → Bool) (descrSize : Nat) (privDef : List UInt8) :
    List UInt8 :=
  addPrivils inGroupdef descrSize privDef.length (privDef.drop 1) (List.replicate descrSize 0)

def setAllRw : List UInt8 → List UInt8
  | [] => []
  | first :: rest => first :: rest.map fun _ => 0xff

def temporaryPrivils (map : List UInt8) : List UInt8 :=
  match setAllRw map with
  | [] => []
  | _ :: rest => 0x0f :: rest

def adminPrivils (map : List UInt8) : List UInt8 :=
  match setAllRw map with
  | [] => []
  | first :: rest => (first ||| 0x8f) :: rest

def hasRecordPrivils (defs : PrivilDefs) (tb rec : UInt32) : Bool :=
  defs.recPrivils tb && rec != NORECNUM && rec != OUTER_JOIN_NULL_POSITION

/-- The user of the cache and the buffer, which is followed by other members. -/
structure Privils where
  inGroupdef : List UInt8 → Bool
  isDataAdmin : Bool
  cacheStart : Nat
  cacheStop : Nat
  pCache : Memory
  cacheInvalid : Bool

structure PrivilEntry where
  tb : UInt32
  record : UInt32
  privVal : List UInt8
  deriving DecidableEq

/-- The size of the members before the privileges. -/
def entryHeader : Nat := 10

def sizeAt (memory : Memory) (pos : Nat) : Nat := Digits.value [memory pos, memory (pos + 1)]

def putSize (memory : Memory) (pos size : Nat) : Memory := copy memory pos (byteOf size) 0 2

def putEntry (memory : Memory) (pos : Nat) (entry : PrivilEntry) : Memory :=
  let memory := putSize memory pos (entryHeader + entry.privVal.length)
  let memory := putWord memory (pos + 6) entry.record.toNat
  let memory := putWord memory (pos + 2) entry.tb.toNat
  copy memory (pos + entryHeader) (fun i => entry.privVal.getD i 0) 0 entry.privVal.length

def hasKey (memory : Memory) (pos : Nat) (tb record : UInt32) : Bool :=
  word memory (pos + 2) == tb.toNat && word memory (pos + 6) == record.toNat

def cacheNext (memory : Memory) (pos : Nat) : Nat :=
  if sizeAt memory pos = 0 then 0 else pos + sizeAt memory pos

/-- The positions that a search looks at and the one that it finds; it is absent when
the search does not end. -/
def searchFrom (memory : Memory) (stop : Nat) (tb record : UInt32) :
    Nat → Nat → Option (List Nat × Option Nat)
  | 0, _ => none
  | fuel + 1, cpos =>
      if cpos = stop then some ([], none)
      else if hasKey memory cpos tb record then some ([cpos], some cpos)
      else
        (searchFrom memory stop tb record fuel (cacheNext memory cpos)).map fun result =>
          (cpos :: result.1, result.2)

/-- Frees the oldest entries; the end mark is followed by the start of the buffer. -/
def makeSpace (memory : Memory) (stop size : Nat) : Nat → Nat → Nat
  | 0, start => start
  | fuel + 1, start =>
      if stop < start ∧ stop + size ≥ start then
        let next := start + sizeAt memory start
        if sizeAt memory next = 0 then 0 else makeSpace memory stop size fuel next
      else start

namespace Privils

def resetCache (privils : Privils) : Privils := { privils with cacheStart := 0, cacheStop := 0 }

def search (privils : Privils) (tb record : UInt32) : Option (List Nat × Option Nat) :=
  searchFrom privils.pCache privils.cacheStop tb record (PRIVIL_CACHE_SIZE + 1) privils.cacheStart

def cacheInsert (privils : Privils) (entry : PrivilEntry) : Privils :=
  let entrySize := entryHeader + entry.privVal.length
  let insert (privils : Privils) : Privils :=
    let start :=
      makeSpace privils.pCache privils.cacheStop entrySize PRIVIL_CACHE_SIZE privils.cacheStart
    { privils with
      cacheStart := start
      cacheStop := privils.cacheStop + entrySize
      pCache := putEntry privils.pCache privils.cacheStop entry }
  if privils.cacheStop + entrySize > PRIVIL_CACHE_SIZE then
    if entrySize > PRIVIL_CACHE_SIZE then privils
    else
      insert { privils with
        cacheStart := if privils.cacheStart ≥ privils.cacheStop then 0 else privils.cacheStart
        cacheStop := 0
        pCache := putSize privils.pCache privils.cacheStop 0 }
  else insert privils

def privValAt (privils : Privils) (pos len : Nat) : List UInt8 :=
  slice privils.pCache (pos + entryHeader) len

/-- The global privileges; the map that was allocated for them has any contents. -/
def globalPrivils (privils : Privils) (defs : PrivilDefs) (tb : UInt32) (map : List UInt8) :
    Option Nat → List UInt8 × Privils
  | some pos => (privils.privValAt pos (defs.descrSize tb), privils)
  | none =>
      if isTemporary tb then (temporaryPrivils map, privils)
      else
        match defs.globalDef tb with
        | none => (map, privils)
        | some privDef =>
            let privVal := sumarizePrivils privils.inGroupdef (defs.descrSize tb) privDef
            (privVal, privils.cacheInsert ⟨tb, NORECNUM, privVal⟩)

def recordPrivils (privils : Privils) (defs : PrivilDefs) (tb rec : UInt32) :
    Option Nat → Option (List UInt8) × Privils
  | some pos => (some (privils.privValAt pos (defs.descrSize tb)), privils)
  | none =>
      match defs.recordDef tb rec with
      | none => (none, privils)
      | some privDef =>
          let privVal := sumarizePrivils privils.inGroupdef (defs.descrSize tb) privDef
          (some privVal, privils.cacheInsert ⟨tb, rec, privVal⟩)

end Privils

/-- The searches of a call are kept with the cache that each of them went through. -/
structure Outcome where
  answer : List UInt8
  privils : Privils
  searches : List (Privils × List Nat)

namespace Privils

/-- The call does not end when one of its searches does not. -/
def getEffectivePrivils (privils : Privils) (defs : PrivilDefs) (tb rec : UInt32)
    (map : List UInt8) : Option Outcome :=
  let privils := if privils.cacheInvalid then
    { privils.resetCache with cacheInvalid := false } else privils
  (privils.search tb NORECNUM).bind fun global =>
    let (privVal, next) := privils.globalPrivils defs tb map global.2
    if next.isDataAdmin then some ⟨adminPrivils privVal, next, [(privils, global.1)]⟩
    else if hasRecordPrivils defs tb rec then
      (next.search tb rec).map fun own =>
        let (recVal, last) := next.recordPrivils defs tb rec own.2
        ⟨match recVal with
          | none => privVal
          | some recVal => List.zipWith (· ||| ·) privVal recVal,
          last, [(privils, global.1), (next, own.1)]⟩
    else some ⟨privVal, next, [(privils, global.1)]⟩

/-- The privileges computed from the definitions alone. -/
def directPrivils (privils : Privils) (defs : PrivilDefs) (tb rec : UInt32) (map : List UInt8) :
    List UInt8 :=
  let privVal :=
    if isTemporary tb then temporaryPrivils map
    else (defs.globalDef tb).elim map (sumarizePrivils privils.inGroupdef (defs.descrSize tb))
  if privils.isDataAdmin then adminPrivils privVal
  else if hasRecordPrivils defs tb rec then
    (defs.recordDef tb rec).elim privVal fun privDef =>
      List.zipWith (· ||| ·) privVal
        (sumarizePrivils privils.inGroupdef (defs.descrSize tb) privDef)
  else privVal

end Privils

structure PrivilState where
  privils : Privils
  defs : PrivilDefs

/-- Definitions change with the invalidation of the caches, and another user starts
with an empty cache. -/
inductive PrivilOp where
  | getEffectivePrivils (tb rec : UInt32) (map : List UInt8)
  | redefine (defs : PrivilDefs)
  | setUser (inGroupdef : List UInt8 → Bool) (isDataAdmin : Bool)

def PrivilState.start (pCache : Memory) (inGroupdef : List UInt8 → Bool) (isDataAdmin : Bool)
    (defs : PrivilDefs) : PrivilState := ⟨⟨inGroupdef, isDataAdmin, 0, 0, pCache, false⟩, defs⟩

def privilStep (state : PrivilState) : PrivilOp → PrivilState
  | .getEffectivePrivils tb rec map =>
      match state.privils.getEffectivePrivils state.defs tb rec map with
      | none => state
      | some outcome => { state with privils := outcome.privils }
  | .redefine defs => ⟨{ state.privils with cacheInvalid := true }, defs⟩
  | .setUser inGroupdef isDataAdmin =>
      { state with
        privils := { state.privils.resetCache with
          inGroupdef := inGroupdef
          isDataAdmin := isDataAdmin } }

end Sql602.Rights
