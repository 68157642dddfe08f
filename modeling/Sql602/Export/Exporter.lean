import Sql602.Library.Portions
import Sql602.Heap.Dworm

namespace Sql602.Export

open Bytes Heap

/-! The exporter of records. Its buffer has 600 bytes and is written in pieces of
467. The answers of `output_it` come from outside: `accepts i` tells whether the
`i`-th output succeeds. A table is exported by a sequence of calls that put plain
values, large objects and external large objects. -/

/-- `buf` is the filled part of the buffer. -/
structure Exporter where
  buf : List UInt8 := []
  file : List UInt8 := []
  outputs : Nat := 0
  requestError : Bool := false
  databaseError : Bool := false

/-! The buffer. A call that gives `true` has failed. -/

section Buffer

variable (accepts : Nat → Bool)

def outputIt (e : Exporter) (loc : Nat) : Bool × Exporter :=
  if accepts e.outputs then
    (false, { e with
      buf := e.buf.drop loc, file := e.file ++ e.buf.take loc, outputs := e.outputs + 1 })
  else (true, { e with outputs := e.outputs + 1, requestError := true })

def fill (e : Exporter) (adr : List UInt8) : Exporter :=
  { e with buf := e.buf ++ adr.take (600 - e.buf.length) }

def flush (e : Exporter) : Bool × Exporter :=
  if 467 ≤ e.buf.length then outputIt accepts e 467 else (false, e)

theorem outputIt_buf {accepts : Nat → Bool} {e : Exporter} {loc : Nat}
    (hsent : (outputIt accepts e loc).1 = false) :
    (outputIt accepts e loc).2.buf = e.buf.drop loc := by
  simp only [outputIt] at hsent ⊢
  split at hsent
  · rw [if_pos ‹_›]
  · cases hsent

theorem flush_buf {accepts : Nat → Bool} {e : Exporter}
    (hsent : (flush accepts e).1 = false) :
    (flush accepts e).2.buf = if 467 ≤ e.buf.length then e.buf.drop 467 else e.buf := by
  simp only [flush] at hsent ⊢
  split at hsent
  · rw [if_pos ‹_›, if_pos ‹_›, outputIt_buf hsent]
  · rw [if_neg ‹_›, if_neg ‹_›]

/-- What does not fit has filled the buffer, so that 467 bytes are written. -/
theorem rest_lt {accepts : Nat → Bool} {e : Exporter} {adr : List UInt8}
    (hsent : (flush accepts (fill e adr)).1 = false)
    (hrest : adr.drop (600 - e.buf.length) ≠ []) :
    (flush accepts (fill e adr)).2.buf.length + (adr.drop (600 - e.buf.length)).length <
      e.buf.length + adr.length := by
  have hmore : 600 - e.buf.length < adr.length := by
    rw [Ne, List.drop_eq_nil_iff] at hrest
    omega
  have hfilled : (fill e adr).buf.length = e.buf.length + (600 - e.buf.length) := by
    rw [fill, List.length_append, List.length_take, Nat.min_eq_left (by omega)]
  rw [flush_buf hsent, if_pos (by omega), List.length_drop, List.length_drop, hfilled]
  omega

def putBuf (e : Exporter) (adr : List UInt8) : Bool × Exporter :=
  let sent := flush accepts (fill e adr)
  let rest := adr.drop (600 - e.buf.length)
  if sent.1 then (true, sent.2)
  else if rest = [] then (false, sent.2)
  else putBuf sent.2 rest
termination_by e.buf.length + adr.length
decreasing_by
  exact rest_lt (Bool.not_eq_true _ ▸ ‹¬sent.1 = true›) ‹¬rest = []›

def emptyBuf (e : Exporter) : Bool × Exporter :=
  let sent := outputIt accepts e (min e.buf.length 467)
  if e.buf = [] then (false, e)
  else if sent.1 then (true, sent.2)
  else emptyBuf sent.2
termination_by e.buf.length
decreasing_by
  rename_i hfilled hsent
  have hpos := List.length_pos_iff.mpr hfilled
  rw [outputIt_buf (Bool.not_eq_true _ ▸ hsent), List.length_drop]
  omega

def putZeros (e : Exporter) (size : Nat) : Bool × Exporter :=
  let put := putBuf accepts e (List.replicate (min 256 size) 0)
  if size = 0 then (false, e)
  else if put.1 then (true, put.2)
  else putZeros put.2 (size - min 256 size)
termination_by size

end Buffer

/-- A length in four bytes. -/
def hpcntr (length : Nat) : List UInt8 := slice (byteOf length) 0 4

/-! External large objects. The file may give less than it is asked for. -/

structure ExtLob where
  opens : Bool
  length : Nat
  readPart : Nat → Nat → List UInt8
  readPart_le : ∀ start part, (readPart start part).length ≤ part

namespace ExtLob

variable (accepts : Nat → Bool) (lob : ExtLob)

def declared : Nat := if lob.opens then lob.length else 0

def read (start left : Nat) : List UInt8 := lob.readPart start (min left 1024)

/-- The results of `put_buf` are not looked at. Without fuel the loop of the source
does not end. -/
def copyLoop : Nat → Nat → Nat → Exporter → Option Exporter
  | _, _, 0, e => some e
  | 0, _, _ + 1, _ => none
  | fuel + 1, start, left + 1, e =>
      let part := lob.read start (left + 1)
      copyLoop fuel (start + part.length) (left + 1 - part.length) (putBuf accepts e part).2

def fileCopy (fuel : Nat) (e : Exporter) : Option (Bool × Exporter) :=
  (lob.copyLoop accepts fuel 0 lob.declared
    (putBuf accepts e (hpcntr lob.declared)).2).map fun e => (false, e)

end ExtLob

/-! Large objects. The record has the length, the piece that it points to has the
numbers of the pages. -/

/-- `fixes` tells which pages can be fixed. -/
structure HpObject where
  size : Nat
  dadr : Nat
  dw : Dworm
  fixes : Nat → Bool

namespace HpObject

variable (accepts : Nat → Bool) (o : HpObject)

def access : DwormAccess := o.dw.access 1 ⟨[], [], [], []⟩

/-- An object with a damaged header counts as open, too. -/
def isOpen : Bool :=
  let opened := o.fixes o.dadr && !o.access.isNull && !o.access.isError
  opened || o.access.isNull || o.fixes o.dadr && o.access.isError

def present : Bool := o.size ≠ 0 ∧ o.dw.len32 ≠ 0 ∧ o.dadr ≠ 0

def declared : Nat := if o.present && o.isOpen then o.size else 0

/-- The copying asks for a page at its start only, where a page that is not fixed
gives a null pointer. -/
def pointerRd (pos : Nat) : Option (Place × Nat) :=
  match (o.access.pointer pos).1 with
  | .page dadr _ => if o.fixes dadr then some (o.access.pointer pos) else none
  | .direct _ => some (o.access.pointer pos)

/-- Behind a page that cannot be fixed the whole rest is written as zeros. -/
def copyLoop : Nat → Nat → Nat → Exporter → Option (Bool × Exporter)
  | _, _, 0, e => some (false, e)
  | 0, _, _ + 1, _ => none
  | fuel + 1, pos, left + 1, e =>
      match o.pointerRd pos with
      | none => some (putZeros accepts { e with databaseError := true } (left + 1))
      | some (place, avail) =>
          let loc := min avail (left + 1)
          let put := putBuf accepts e (o.access.load place loc)
          if put.1 then some (true, put.2)
          else copyLoop fuel (pos + loc) (left + 1 - loc) put.2

def fileCopy (fuel : Nat) (e : Exporter) : Option (Bool × Exporter) :=
  if o.present then
    let opened := if o.isOpen then e else { e with databaseError := true }
    let put := putBuf accepts opened (hpcntr o.declared)
    if put.1 then some (true, put.2) else o.copyLoop accepts fuel 0 o.declared put.2
  else some (putBuf accepts e (hpcntr 0))

/-- What the copying takes at a position. -/
def read (pos left : Nat) : List UInt8 :=
  match o.pointerRd pos with
  | none => List.replicate left 0
  | some (place, avail) => o.access.load place (min avail left)

end HpObject

/-! Whole exports. -/

/-- Some results of `put_buf` are not looked at. -/
inductive Call where
  | put (adr : List UInt8) (heeded : Bool)
  | hpFileCopy (o : HpObject)
  | extclobFileCopy (lob : ExtLob)

section Export

variable (accepts : Nat → Bool) (fuel : Nat)

def Call.perform (e : Exporter) : Call → Option (Bool × Exporter)
  | .put adr heeded =>
      let put := putBuf accepts e adr
      some (put.1 && heeded, put.2)
  | .hpFileCopy o => o.fileCopy accepts fuel e
  | .extclobFileCopy lob => lob.fileCopy accepts fuel e

/-- A failed call ends the export. -/
def exportCalls : List Call → Exporter → Option Exporter
  | [], e => some (emptyBuf accepts e).2
  | call :: calls, e =>
      (call.perform accepts fuel e).bind fun done =>
        if done.1 then some done.2 else exportCalls calls done.2

end Export

end Sql602.Export
