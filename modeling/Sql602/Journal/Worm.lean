import Mathlib.Algebra.Group.Nat.Defs
import Mathlib.Data.List.Basic
import Mathlib.Logic.Function.Basic

namespace Sql602.Journal

/-! The buffer in which a transaction collects its journal: a chain of parts in the memory with
one position for adding, reading and measuring. -/

structure Wormbeg where
  partsize : Nat
  bytesused : Nat
  next : Option Nat
  items : List UInt8

/-- `parts` are the live parts, `frees` has the parts given to `corefree`, once for each call;
the parts from `fresh` on have not been allocated yet. `failed` says that the request has got
an error. -/
structure Worm where
  partsize : Nat
  parts : Nat → Option Wormbeg
  fresh : Nat
  frees : List Nat
  firstpart : Nat
  currCoreptr : Nat
  currpos : Nat
  failed : Bool

def memcpy (items : List UInt8) (pos : Nat) (object : List UInt8) : List UInt8 :=
  items.take pos ++ (object ++ items.drop (pos + object.length))

namespace Worm

/-- `none` stands for an access to a part that does not exist, and for a loop that has taken more
turns than there have ever been parts. -/
def curr (w : Worm) : Option Wormbeg := w.parts w.currCoreptr

def setCurr (w : Worm) (part : Wormbeg) : Worm :=
  { w with parts := Function.update w.parts w.currCoreptr (some part) }

def corefree (w : Worm) (p : Nat) : Worm :=
  { w with parts := Function.update w.parts p none, frees := p :: w.frees }

def reset (w : Worm) : Worm := { w with currpos := 0, currCoreptr := w.firstpart }

section Memory

-- whether the allocations succeed, and what is in the new blocks
variable (memory : Nat → Bool) (garbage : Nat → Nat → UInt8)

def newItems (p partsize : Nat) : List UInt8 := (List.range partsize).map (garbage p)

def init (partsize : Nat) : Worm where
  partsize := partsize
  parts := Function.update (fun _ => none) 0 (some ⟨partsize, 0, none, newItems garbage 0 partsize⟩)
  fresh := 1
  frees := []
  firstpart := 0
  currCoreptr := 0
  currpos := 0
  failed := false

/-- The step to the next part, which is added under `cat`. The result tells about an error. -/
def step (cat : Bool) (w : Worm) : Option (Bool × Worm) :=
  w.curr.map fun part =>
    match part.next with
    | some next => (false, { w with currpos := 0, currCoreptr := next })
    | none =>
        if cat then
          if memory w.fresh then
            let fp : Wormbeg := ⟨w.partsize, 0, none, newItems garbage w.fresh w.partsize⟩
            let linked := w.setCurr { part with next := some w.fresh }
            (false, { linked with
              parts := Function.update linked.parts w.fresh (some fp)
              fresh := w.fresh + 1, currpos := 0, currCoreptr := w.fresh })
          else (true, { w with currpos := 0, failed := true })
        else (false, { w with currpos := part.bytesused })

def addLoop : Nat → Worm → List UInt8 → Option Worm
  | _, w, [] => some w
  | 0, _, _ :: _ => none
  | fuel + 1, w, object =>
      w.curr.bind fun part =>
        let size := min (part.partsize - w.currpos) object.length
        let w := { w.setCurr { part with
          items := memcpy part.items w.currpos (object.take size)
          bytesused := max part.bytesused (w.currpos + size) } with currpos := w.currpos + size }
        let rest := object.drop size
        if rest = [] then some w
        else
          (step memory garbage true w).bind fun (error, w) =>
            if error then some w else addLoop fuel w rest

def wormAdd (w : Worm) (object : List UInt8) : Option Worm :=
  addLoop memory garbage (object.length + 1) w object

/-- `partcadr` is the link of the part before the current one. -/
def freeLoop : Nat → Worm → Option Nat → Option Worm
  | _, w, none => some w
  | 0, _, some _ => none
  | fuel + 1, w, some partcadr =>
      w.curr.bind fun wb1 =>
        (step memory garbage false w).bind fun (error, w) =>
          if error then some w else freeLoop fuel (w.corefree partcadr) wb1.next

def wormFree (w : Worm) : Option Worm :=
  let w := w.reset
  w.curr.bind fun wb0 =>
    (step memory garbage false w).bind fun (error, w) =>
      (if error then some w else freeLoop memory garbage w.fresh w wb0.next).bind fun w =>
        let w := w.reset
        w.curr.map fun first => w.setCurr { first with next := none, bytesused := 0 }

def wormEnd (w : Worm) : Option Bool :=
  w.curr.map fun part => decide (part.bytesused ≤ w.currpos) && part.next.isNone

/-- The length has 32 bits. -/
def lenLoop : Nat → Worm → Nat → Option (Nat × Worm)
  | 0, _, _ => none
  | fuel + 1, w, len =>
      w.wormEnd.bind fun ended =>
        if ended then some (len, w)
        else
          w.curr.bind fun part =>
            let len := (len + part.bytesused) % 2 ^ 32
            (step memory garbage false w).bind fun (error, w) =>
              if error then some (len, w) else lenLoop fuel w len

def wormLen (w : Worm) : Option (Nat × Worm) :=
  lenLoop memory garbage (w.fresh + 1) w.reset 0

def copyLoop : Nat → Worm → Nat → List UInt8 → Option (List UInt8 × Worm)
  | 0, _, _, _ => none
  | fuel + 1, w, size, copied =>
      w.curr.bind fun part =>
        if part.bytesused ≤ w.currpos ∧ part.next = none then some (copied, w)
        else
          let local' := min (part.bytesused - w.currpos) size
          let copied := copied ++ (part.items.drop w.currpos).take local'
          let w := { w with currpos := w.currpos + local' }
          if size - local' = 0 then some (copied, w)
          else
            (step memory garbage false w).bind fun (error, w) =>
              if error then some (copied, w) else copyLoop fuel w (size - local') copied

/-- What is copied to `where`. -/
def wormCopy (w : Worm) (size : Nat) : Option (List UInt8 × Worm) :=
  copyLoop memory garbage (w.fresh + 1) w size []

/-! Calls one after another. -/

def copies : Worm → List Nat → Option (List (List UInt8) × Worm)
  | w, [] => some ([], w)
  | w, size :: sizes =>
      (wormCopy memory garbage w size).bind fun (copied, w) =>
        (copies w sizes).map fun (rest, w) => (copied :: rest, w)

/-- The journal of a transaction is measured before it is written, and freed behind it. -/
inductive Op where
  | add (object : List UInt8)
  | len
  | free
  deriving DecidableEq

def apply (w : Worm) : Op → Option Worm
  | .add object => wormAdd memory garbage w object
  | .len => (wormLen memory garbage w).map Prod.snd
  | .free => wormFree memory garbage w

def run (partsize : Nat) (ops : List Op) : Option Worm :=
  ops.foldlM (apply memory garbage) (init garbage partsize)

end Memory

/-- What has been added since the last `free`. -/
def addedBy (added : List UInt8) : Op → List UInt8
  | .add object => added ++ object
  | .len => added
  | .free => []

def added (ops : List Op) : List UInt8 := ops.foldl addedBy []

/-- What a sequence of readings should read. -/
def slices : List Nat → List UInt8 → List (List UInt8)
  | [], _ => []
  | size :: sizes, contents => contents.take size :: slices sizes (contents.drop size)

end Worm

end Sql602.Journal
