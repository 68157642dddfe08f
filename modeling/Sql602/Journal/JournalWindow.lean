import Sql602.Library.Files

namespace Sql602.Journal

open Bytes Files

/-! The buffer through which the journal is replayed. -/

def JBUFSIZE : Nat := 0xfff0

/-- `bufcont` bytes of the journal from `bufpos` on are in the buffer `jb`. The journal is
read where the file pointer of its handle stands. -/
structure Window where
  bufpos : Nat
  bufcont : Nat
  jb : Memory
  filePointer : Nat

namespace Window

def readFile (journal : File) (window : Window) (count : Nat) : Window :=
  let rd := min count (journal.size - window.filePointer)
  { window with
    jb := fun i =>
      if window.bufcont ≤ i ∧ i < window.bufcont + rd then
        journal.bytes (window.filePointer + (i - window.bufcont))
      else window.jb i
    bufcont := window.bufcont + rd
    filePointer := window.filePointer + rd }

/-- Moves the buffer over the journal. Positions have 32 bits, the distance has 16. -/
def slide (window : Window) (pos : Nat) : Window :=
  if window.bufpos ≠ pos then
    if window.bufpos < pos ∧ pos < (window.bufpos + window.bufcont) % 2 ^ 32 then
      let distance := (pos - window.bufpos) % 2 ^ 16
      { window with
        jb := fun i =>
          if i < window.bufcont - distance then window.jb (distance + i) else window.jb i
        bufcont := window.bufcont - distance
        bufpos := pos }
    else { window with bufcont := 0, bufpos := pos }
  else window

/-- `readable` tells whether `ReadFile` succeeds. -/
def setpos (journal : File) (readable : Bool) (window : Window) (pos : Nat) : Bool × Window :=
  let window := window.slide pos
  if window.bufcont < JBUFSIZE then
    if readable then (true, window.readFile journal (JBUFSIZE - window.bufcont))
    else (false, window)
  else (true, window)

/-- What is in the buffer is in the journal, and the journal goes on behind it. -/
structure Shows (journal : File) (window : Window) : Prop where
  bytes : ∀ i < window.bufcont, window.bufpos + i < journal.size ∧
    window.jb i = journal.bytes (window.bufpos + i)
  small : window.bufcont ≤ JBUFSIZE
  next : window.bufcont = 0 ∨ window.bufpos + window.bufcont = window.filePointer

/-- The position is where the buffer or the file pointer can follow. -/
def Reaches (window : Window) (pos : Nat) : Prop :=
  (pos = window.bufpos ∧ window.bufpos + window.bufcont = window.filePointer) ∨
    (window.bufpos < pos ∧ pos < (window.bufpos + window.bufcont) % 2 ^ 32) ∨
    pos = window.filePointer

variable {journal : File} {window : Window} {pos count : Nat} {readable : Bool}

theorem Shows.readFile (hshows : window.Shows journal)
    (hnext : window.bufpos + window.bufcont = window.filePointer)
    (hcount : window.bufcont + count ≤ JBUFSIZE) :
    (window.readFile journal count).Shows journal ∧
      (window.readFile journal count).bufpos + (window.readFile journal count).bufcont =
        (window.readFile journal count).filePointer := by
  have hend : (window.readFile journal count).bufpos + (window.readFile journal count).bufcont =
      (window.readFile journal count).filePointer := by
    simp only [Window.readFile]
    omega
  refine ⟨⟨?_, ?_, Or.inr hend⟩, hend⟩
  · intro i hi
    simp only [Window.readFile] at hi ⊢
    cases Nat.lt_or_ge i window.bufcont with
    | inl hold =>
        rw [if_neg (by omega)]
        exact hshows.bytes i hold
    | inr hnew =>
        rw [if_pos ⟨hnew, hi⟩]
        refine ⟨by omega, congrArg journal.bytes ?_⟩
        omega
  · simp only [Window.readFile]
    omega

/-- The buffer follows to a position that it reaches. -/
theorem Shows.slide (hshows : window.Shows journal) (hreaches : window.Reaches pos) :
    (window.slide pos).Shows journal ∧ (window.slide pos).bufpos = pos ∧
      pos + (window.slide pos).bufcont = (window.slide pos).filePointer := by
  have hsmall := hshows.small
  rw [Window.slide]
  split
  · next hmoves =>
      split
      · next hinside =>
          obtain ⟨hlow, hhigh⟩ := hinside
          have hle : (window.bufpos + window.bufcont) % 2 ^ 32 ≤ window.bufpos + window.bufcont :=
            Nat.mod_le ..
          have hnext : window.bufpos + window.bufcont = window.filePointer := by
            obtain hnone | hnext := hshows.next
            · omega
            · exact hnext
          have hdistance : (pos - window.bufpos) % 2 ^ 16 = pos - window.bufpos := by
            rw [JBUFSIZE] at hsmall
            exact Nat.mod_eq_of_lt (by omega)
          rw [hdistance]
          have hend : pos + (window.bufcont - (pos - window.bufpos)) = window.filePointer := by
            omega
          refine ⟨⟨fun i hi => ?_, ?_, Or.inr hend⟩, rfl, hend⟩
          · dsimp only at hi ⊢
            rw [if_pos hi]
            have hold := hshows.bytes (pos - window.bufpos + i) (by omega)
            have hpos : window.bufpos + (pos - window.bufpos + i) = pos + i := by omega
            rw [hpos] at hold
            exact hold
          · dsimp only
            omega
      · next houtside =>
          obtain ⟨rfl, -⟩ | hinside | rfl := hreaches
          · exact absurd rfl hmoves
          · exact absurd hinside houtside
          · exact ⟨⟨fun i hi => absurd hi (Nat.not_lt_zero i), Nat.zero_le _, Or.inl rfl⟩, rfl, rfl⟩
  · next hstays =>
      have hsame : window.bufpos = pos := not_ne_iff.mp hstays
      obtain ⟨-, hnext⟩ | ⟨hlow, -⟩ | hpointer := hreaches
      · exact ⟨hshows, hsame, hsame ▸ hnext⟩
      · omega
      · refine ⟨hshows, hsame, ?_⟩
        obtain hnone | hnext := hshows.next
        · omega
        · omega

theorem Shows.setpos (hshows : window.Shows journal) (hreaches : window.Reaches pos) :
    (window.setpos journal readable pos).2.Shows journal ∧
      (window.setpos journal readable pos).2.bufpos = pos := by
  obtain ⟨hmoved, hpos, hnext⟩ := hshows.slide hreaches
  rw [Window.setpos]
  split
  · split
    · have hend : (window.slide pos).bufpos + (window.slide pos).bufcont =
          (window.slide pos).filePointer := by
        rw [hpos]
        exact hnext
      refine ⟨(hmoved.readFile hend ?_).1, hpos⟩
      exact Nat.le_of_eq (Nat.add_sub_cancel' hmoved.small)
    · exact ⟨hmoved, hpos⟩
  · exact ⟨hmoved, hpos⟩

end Window

end Sql602.Journal

namespace Sql602.Journal

open Bytes

/-! The operations in the journal, as `kernel_oper` takes them from the buffer. -/

structure Attribdef where
  attrtype : Nat
  attrmult : Nat
  typesize : Nat

structure TableDescr where
  attrcnt : Nat
  attrs : Nat → Attribdef

def ATT_PTR : Nat := 14

def ATT_BIPTR : Nat := 15

def isHeapType (attrtype : Nat) : Bool := decide (18 ≤ attrtype ∧ attrtype ≤ 22)

/-- A step through a pointer fails before its index is read, or after it, or leads to a
record of another table. -/
inductive PtrStep where
  | unread
  | failed
  | to (tbdf : TableDescr)

/-- What the server answers while one operation is made. -/
structure Server where
  installTable : Nat → Option TableDescr
  ptrSteps : List PtrStep
  fails : Bool
  isAnError : Bool

/-- Takes from the buffer at the request pointer. The bytes that are read are known by
their offsets and counts; without a result the request ends with an error. -/
structure Reader (α : Type) where
  run : Memory → Nat → List (Nat × Nat) × Option (α × Nat)

namespace Reader

instance monad : Monad Reader where
  pure value := ⟨fun _ request => ([], some (value, request))⟩
  bind reader next := ⟨fun jb request =>
    match reader.run jb request with
    | (reads, none) => (reads, none)
    | (reads, some (value, request)) =>
        let (more, result) := (next value).run jb request
        (reads ++ more, result)⟩

def requestError : Reader Unit := ⟨fun _ _ => ([], none)⟩

/-- Reads without moving the pointer. -/
def look (count : Nat) : Reader Unit := ⟨fun _ request => ([(request, count)], some ((), request))⟩

def skip (count : Nat) : Reader Unit := ⟨fun _ request => ([], some ((), request + count))⟩

def byte (offset : Nat) : Reader Nat :=
  ⟨fun jb request => ([(request + offset, 1)], some ((jb (request + offset)).toNat, request))⟩

def uns8 : Reader Nat := do
  let value ← byte 0
  skip 1
  return value

def uns16 : Reader Nat := do
  let low ← uns8
  let high ← uns8
  return low + 256 * high

def uns32 : Reader Nat := do
  let low ← uns16
  let high ← uns16
  return low + 65536 * high

/-- The length of the string at the pointer, in an address space of some size. -/
def strlen (limit : Nat) : Reader Nat :=
  ⟨fun jb request =>
    let length := ((List.range limit).takeWhile fun i => jb (request + i) ≠ 0).length
    ([(request, length + 1)], some (length, request))⟩

end Reader

def OP_WRITE : Nat := 2

def OP_APPEND : Nat := 3

def OP_DELETE : Nat := 8

def OP_UNDEL : Nat := 9

def OP_INSERT : Nat := 10

def OP_INSDEL : Nat := 38

def OP_END : Nat := 53

def OP_SUBMIT : Nat := 58

def MODSTOP : Nat := 0

def MODLEN : Nat := 2

def MODIND : Nat := 3

def MODINT : Nat := 4

def MODPTR : Nat := 5

def MODINDPTR : Nat := 6

def opcTypes : List Nat :=
  [0, 3, 3, 1, 1, 1, 1, 1, 2, 2, 1, 0, 0, 0, 1, 1, 0, 3, 0, 0, 0, 0, 2, 0, 1, 0, 0, 0, 0, 0, 0, 1,
    0, 1, 1, 1, 1, 1, 0, 0, 0, 2, 2, 3, 3, 3, 3, 0, 1, 0, 2, 1, 3, 0, 0, 0, 0, 0, 0, 0, 0, 1, 3, 0,
    1, 0, 1, 0, 1]

open Reader

/-- Goes through the pointers. Without a result the request is left where it is. -/
def ptrsteps (tbdf : TableDescr) (attr : Nat) :
    List PtrStep → Reader (Option (TableDescr × Nat))
  | [] => return none
  | ptrStep :: ptrSteps => do
      let modif ← uns8
      let att := tbdf.attrs attr
      if att.attrtype ≠ ATT_PTR ∧ att.attrtype ≠ ATT_BIPTR then requestError
      if modif = MODPTR then
        if att.attrmult ≠ 1 then requestError
      else
        if att.attrmult ≤ 1 then requestError
      match ptrStep with
      | .unread => return none
      | .failed =>
          if modif ≠ MODPTR then
            let _ ← uns16
          return none
      | .to tbdf =>
          if modif ≠ MODPTR then
            let _ ← uns16
          let attr ← uns16
          let modif ← byte 0
          if modif = MODPTR ∨ modif = MODINDPTR then ptrsteps tbdf attr ptrSteps
          else return some (tbdf, attr)

/-- The value that is written, unless the write fails. -/
def value (server : Server) (size : Nat) : Reader Unit := do
  look size
  if server.fails then return
  skip size

def opWrite (server : Server) (tbdf : TableDescr) (attr : Nat) : Reader Unit := do
  let mut target := (tbdf, attr)
  let first ← byte 0
  if first = MODPTR ∨ first = MODINDPTR then
    match ← ptrsteps tbdf attr server.ptrSteps with
    | none => return
    | some other => target := other
  let att := target.1.attrs target.2
  let modif ← byte 0
  if modif = MODSTOP then
    skip 1
    value server att.typesize
  else if modif = MODIND then
    skip 1
    let _ ← uns16
    let second ← byte 0
    if second = MODSTOP then
      skip 1
      value server att.typesize
    else if second = MODINT then
      skip 1
      let _ ← uns32
      let varsize ← uns32
      skip 1
      value server varsize
    else if second = MODLEN then
      skip 2
      let _ ← uns32
      return
    else requestError
  else if modif = MODINT then
    skip 1
    let _ ← uns32
    let varsize ← uns32
    skip 1
    value server varsize
  else if modif = MODLEN then
    skip 2
    if isHeapType att.attrtype then
      let _ ← uns32
      return
    else
      let _ ← uns16
      return
  else requestError

/-- The name and the identification of the application, and the statement. -/
def opSubmit : Reader Unit := do
  look 32
  skip 32
  look 12
  skip 12
  let length ← strlen (2 ^ 32)
  skip (length + 1)

/-- The table of the operation, if it has one. -/
def operTable (server : Server) (opcType : Nat) : Reader (TableDescr × Nat) := do
  if opcType = 0 then return (⟨0, fun _ => ⟨0, 0, 0⟩⟩, 0)
  let tbnum ← uns32
  if tbnum &&& 0xffffc000 = 0xffff8000 ∨ 2 ^ 31 ≤ tbnum then requestError
  match server.installTable tbnum with
  | none =>
      requestError
      return (⟨0, fun _ => ⟨0, 0, 0⟩⟩, 0)
  | some tbdf =>
      if 1 < opcType then
        let _ ← uns32
        if 2 < opcType then
          let attr ← uns8
          if tbdf.attrcnt ≤ attr then requestError
          return (tbdf, attr)
      return (tbdf, 0)

def oper (server : Server) : Reader Unit := do
  let opc ← uns8
  let (tbdf, attr) ← operTable server (opcTypes.getD opc 0)
  if opc = OP_DELETE ∨ opc = OP_UNDEL ∨ opc = OP_APPEND ∨ opc = OP_INSERT ∨ opc = OP_INSDEL then
    pure ()
  else if opc = OP_WRITE then opWrite server tbdf attr
  else if opc = OP_SUBMIT then opSubmit
  else requestError
  if server.isAnError then requestError

/-- What is read from the buffer, and the new request pointer. -/
def kernelOper (server : Server) (jb : Memory) : List (Nat × Nat) × Option Nat :=
  let (reads, result) := (oper server).run jb 0
  (reads, result.map Prod.snd)

end Sql602.Journal
