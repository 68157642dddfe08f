import Mathlib.Algebra.Group.Nat.Defs
import Sql602.Library.Attempts

namespace Sql602.ColumnWrites

/-! Writing columns: the steps of every operation, in the order in which they are tried. -/

open Attempts Attempts.Attempt

inductive ColumnType where
  | heap
  | extLob
  | biptr
  | simple

inductive Modifier where
  | ind (index : Nat)
  | int (start size : Nat)
  | len
  | stop

inductive JournalData where
  | bytes (data : List UInt8)
  | length (len : Nat)

structure JournalEntry where
  tbnum : Nat
  recnum : Nat
  attrib : Nat
  modifiers : List Modifier
  data : JournalData

/-- A replication mark is not `proper` when its place is taken from an undefined pointer. -/
inductive WriteStep where
  | fixRead
  | fixWrite
  | recordLock
  | readIndNum
  | biptrWrite
  | lockRoots
  | inditemRemove
  | inditemAdd
  | storeValue
  | setLen
  | hpWrite
  | hpShrinkLen
  | writeExtLob
  | writingToReplicable (proper : Bool)
  | registerChange (recnum attrib : Nat)
  | journal (entry : JournalEntry)

/-- The arguments of a call, the properties of the table and of the column, and the state
before the call that the operations depend on. -/
structure WriteCall where
  tbnum : Nat
  recnum : Nat
  attrib : Nat
  index : Nat
  start : Nat
  size : Nat
  len : Nat
  data : List UInt8
  attrtype : ColumnType
  onFirstPage : Bool
  isInIndex : Bool
  hasZcr : Bool
  noJourTable : Bool
  noJourFlag : Bool
  writeJournal : Bool
  biStop : Bool
  replaying : Bool
  biTablesFail : Bool
  notDeleted : Bool
  defOfSystem : Bool
  undefinedPointer : Bool
  oldLen : Nat
  oldLen_lt : oldLen < 2 ^ 32

namespace WriteCall

variable (call : WriteCall)

/-- The other column of a bipointer is to be written too. -/
def linked : Bool :=
  match call.attrtype with
  | .biptr => !call.biStop && !call.replaying && !call.biTablesFail
  | _ => false

def indexed : Bool := call.isInIndex && (!call.onFirstPage || call.notDeleted)

def journalled : Bool := call.writeJournal && !call.noJourTable && !call.noJourFlag

/-- The end of the written part is computed in 32 bits. -/
def newLen : Nat := (call.start + call.size) % 2 ^ 32

def grows : Bool := call.oldLen < call.newLen

def shrinks : Bool := call.len < call.oldLen

/-- The pointer to the value is defined for a heap column only. -/
def properMark : Bool :=
  match call.attrtype with
  | .heap => true
  | _ => !(call.onFirstPage && call.undefinedPointer)

def entry (modifiers : List Modifier) (data : JournalData) : JournalEntry where
  tbnum := call.tbnum
  recnum := call.recnum
  attrib := call.attrib
  modifiers := modifiers
  data := data

def journal (modifiers : List Modifier) (data : JournalData) : List (Attempt WriteStep) :=
  if call.journalled then [sure (.journal (call.entry modifiers data))] else []

def need (step : WriteStep) : List (Attempt WriteStep) := [orReturn true step]

def needIf (condition : Bool) (steps : List WriteStep) : List (Attempt WriteStep) :=
  if condition then steps.map (orReturn true) else []

def register : List (Attempt WriteStep) := [sure (.registerChange call.recnum call.attrib)]

/-- A failed write to the other column of a bipointer returns FALSE. -/
def writeBiptr : List (Attempt WriteStep) :=
  if call.linked then [orReturn false .biptrWrite] else []

def tbWriteAtr : List (Attempt WriteStep) :=
  need .fixWrite ++ (call.writeBiptr ++
    (needIf call.indexed [.lockRoots, .inditemRemove] ++ [sure .storeValue] ++
      needIf call.hasZcr [.writingToReplicable true] ++
      needIf call.indexed [.inditemAdd] ++ call.register ++
      call.journal [.stop] (.bytes call.data)))

def tbWriteIndPure : List (Attempt WriteStep) :=
  needIf call.linked [.readIndNum] ++ need .fixWrite ++ (call.writeBiptr ++
    ([sure .storeValue] ++ call.journal [.ind call.index, .stop] (.bytes call.data)))

/-- What follows the pure write of a value of a multiattribute. -/
def registering : List (Attempt WriteStep) :=
  call.register ++ needIf call.hasZcr [.writingToReplicable true]

def tbWriteVar : List (Attempt WriteStep) :=
  (match call.attrtype with
    | .heap =>
        (if call.hasZcr then need .fixWrite else need .fixRead) ++
          (if call.grows then needIf (!call.hasZcr) [.fixWrite] ++ [sure .setLen]
            else need .recordLock) ++
          call.journal [.int call.start call.size, .stop] (.bytes call.data) ++ need .hpWrite
    | .extLob => need .fixWrite ++ need .writeExtLob
    | _ => []) ++
    (needIf (call.hasZcr && !call.defOfSystem) [.writingToReplicable call.properMark] ++
      call.register)

def tbWriteIndVarPure : List (Attempt WriteStep) :=
  need .fixWrite ++
    call.journal [.ind call.index, .int call.start call.size, .stop] (.bytes call.data) ++
    (if call.grows then [sure .setLen] else []) ++ need .hpWrite

def tbWriteIndLen : List (Attempt WriteStep) :=
  need .fixWrite ++
    ((if call.shrinks then [orIgnore .hpShrinkLen, sure .setLen] else []) ++
      (call.register ++
        call.journal [.ind call.index, .len, .stop] (.length call.len) ++
        needIf call.hasZcr [.writingToReplicable true]))

end WriteCall

inductive Operation where
  | tbWriteAtr
  | tbWriteInd
  | tbWriteVar
  | tbWriteIndVar
  | tbWriteIndLen

namespace Operation

variable (call : WriteCall) (outcome : WriteStep → Bool)

/-- The call of the operation, where the steps that can fail end with the given outcome. -/
def perform : Operation → Progress WriteStep
  | tbWriteAtr => run outcome call.tbWriteAtr
  | tbWriteInd => (run outcome call.tbWriteIndPure).orFail (run outcome call.registering)
  | tbWriteVar => run outcome call.tbWriteVar
  | tbWriteIndVar =>
      (run outcome call.tbWriteIndVarPure).orFailInverted (run outcome call.registering)
  | tbWriteIndLen => run outcome call.tbWriteIndLen

/-- All of the value, or its new length, is in the column. -/
def Stored (performed : List WriteStep) : Operation → Prop
  | tbWriteAtr => .storeValue ∈ performed
  | tbWriteInd => .storeValue ∈ performed
  | tbWriteVar => .hpWrite ∈ performed ∧ call.start + call.size < 2 ^ 32 ∨
      .writeExtLob ∈ performed
  | tbWriteIndVar => .hpWrite ∈ performed ∧ call.start + call.size < 2 ^ 32
  | tbWriteIndLen => call.shrinks = true → .hpShrinkLen ∈ performed ∧ .setLen ∈ performed

def entry : Operation → JournalEntry
  | tbWriteAtr => call.entry [.stop] (.bytes call.data)
  | tbWriteInd => call.entry [.ind call.index, .stop] (.bytes call.data)
  | tbWriteVar => call.entry [.int call.start call.size, .stop] (.bytes call.data)
  | tbWriteIndVar =>
      call.entry [.ind call.index, .int call.start call.size, .stop] (.bytes call.data)
  | tbWriteIndLen => call.entry [.ind call.index, .len, .stop] (.length call.len)

/-- The system does not mark the changes of definitions, by which an index would be locked. -/
def marks : Operation → Bool
  | tbWriteVar => call.hasZcr && !call.defOfSystem
  | _ => call.hasZcr

end Operation

def changeOf : WriteStep → Option (Nat × Nat)
  | .registerChange recnum attrib => some (recnum, attrib)
  | _ => none

def markOf : WriteStep → Option Bool
  | .writingToReplicable proper => some proper
  | _ => none

def entryOf : WriteStep → Option JournalEntry
  | .journal entry => some entry
  | _ => none

/-- The change is in the change register, in the record and in the journal, once in each. -/
structure Registered (op : Operation) (call : WriteCall) (performed : List WriteStep) : Prop where
  change : performed.filterMap changeOf = [(call.recnum, call.attrib)]
  mark : performed.filterMap markOf = if op.marks call then [true] else []
  journal : performed.filterMap entryOf = if call.journalled then [op.entry call] else []

/-- The value that the operation returns is right. -/
def ReportsHonestly (op : Operation) (call : WriteCall) (outcome : WriteStep → Bool) : Prop :=
  Honest (op.perform call outcome) (op.Stored call (op.perform call outcome).performed)
    (Registered op call (op.perform call outcome).performed)

end Sql602.ColumnWrites
