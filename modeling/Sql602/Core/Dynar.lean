import Mathlib.Data.List.Basic
import Mathlib.Logic.Function.Basic

namespace Sql602.Dynar

/-! The base class of dynamic arrays over the blocks of the memory. -/

section Memory

variable {α : Type*}

/-- The contents of the live blocks, and the blocks given to `corefree`, once for each call.
The blocks from `fresh` on have not been allocated yet. -/
structure Memory (α : Type*) where
  block : Nat → Option (List α)
  fresh : Nat
  frees : List Nat

namespace Memory

variable (memory : Memory α)

def noBlocks : Memory α := ⟨fun _ => none, 0, []⟩

/-- Memory is available, but a request for no bytes returns NULL. The contents of a new block
are not defined. -/
def corealloc (garbage : Nat → Nat → α) (count : Nat) : Option Nat × Memory α :=
  if count = 0 then (none, memory)
  else
    (some memory.fresh,
      { memory with
        block := Function.update memory.block memory.fresh
          (some ((List.range count).map (garbage memory.fresh)))
        fresh := memory.fresh + 1 })

def corefree (ptr : Option Nat) : Memory α :=
  match ptr with
  | none => memory
  | some x =>
      { memory with
        block := Function.update memory.block x none
        frees := x :: memory.frees }

/-- Changes the size of the memory block. Preserves as much as possible from the contents. -/
def corerealloc (garbage : Nat → Nat → α) (ptr : Option Nat) (count : Nat) :
    Option Nat × Memory α :=
  match ptr with
  | none => memory.corealloc garbage count
  | some x =>
      let origin := (memory.block x).getD []
      match memory.corealloc garbage count with
      | (none, same) => (if count ≤ origin.length then some x else none, same)
      | (some p, next) =>
          let copied := origin.take count ++ ((next.block p).getD []).drop origin.length
          (some p, { next with block := Function.update next.block p (some copied) }.corefree x)

end Memory

end Memory

/-- The array with the memory it is in. -/
structure State (α : Type*) where
  memory : Memory α
  elcnt : Nat
  arrsize : Nat
  elems : Option Nat

section Array

variable {α : Type*} (zero : α) (garbage : Nat → Nat → α) (step : Nat)

def State.contents (st : State α) : List α :=
  (st.elems.bind st.memory.block).getD []

/-- Writes over the elements of the block. -/
def State.write (st : State α) (contents : List α) : State α :=
  match st.elems with
  | none => st
  | some x =>
      { st with memory := { st.memory with
          block := Function.update st.memory.block x
            ((st.memory.block x).map fun _ => contents) } }

def init_elem (contents : List α) (i : Nat) : List α := contents.set i zero

/-- The loop over `init_elem`. -/
def initElems (contents : List α) (i : Nat) : Nat → List α
  | 0 => contents
  | count + 1 => initElems (init_elem zero contents i) (i + 1) count

/-- Moves elements by one position up. -/
def moveUp (contents : List α) (index count : Nat) : List α :=
  contents.take (index + 1) ++ (contents.drop index).take count ++
    contents.drop (index + 1 + count)

/-- Moves elements by one position down. -/
def moveDown (contents : List α) (index count : Nat) : List α :=
  contents.take index ++ (contents.drop (index + 1)).take count ++
    contents.drop (index + count)

def init (arrsize : Nat) : State α :=
  match Memory.noBlocks.corealloc garbage arrsize with
  | (none, memory) => ⟨memory, 0, 0, none⟩
  | (some elems, memory) =>
      let st : State α := ⟨memory, 0, arrsize, some elems⟩
      st.write (initElems zero st.contents 0 arrsize)

namespace State

variable (st : State α)

/-- The position of the element, and none when NULL is returned. -/
def acc2 (index : Nat) : State α × Option Nat :=
  if st.arrsize ≤ index then
    let newarrsize := (index / step + 1) * step
    match st.memory.corerealloc garbage st.elems newarrsize with
    | (none, memory) => ({ st with memory := memory }, none)
    | (some newels, memory) =>
        let moved : State α := { st with memory := memory, elems := some newels }
        let nulled := moved.write
          (initElems zero moved.contents st.arrsize (newarrsize - st.arrsize))
        ({ nulled with arrsize := newarrsize, elcnt := max st.elcnt (index + 1) }, some index)
  else ({ st with elcnt := max st.elcnt (index + 1) }, some index)

def acc (index : Nat) : State α × Option Nat :=
  if index < st.elcnt then (st, some index) else st.acc2 zero garbage step index

def next : State α × Option Nat := st.acc zero garbage step st.elcnt

def minimize : State α :=
  if st.elcnt < st.arrsize then
    match st.memory.corerealloc garbage st.elems st.elcnt with
    -- no change if cannot minimize
    | (none, memory) => { st with memory := memory }
    | (some newels, memory) =>
        { st with memory := memory.corefree st.elems, elems := some newels, arrsize := st.elcnt }
  else st

def find [DecidableEq α] (pattern : α) : Option Nat :=
  (st.contents.take st.elcnt).findIdx? fun element => decide (pattern = element)

def delet (index : Nat) : State α × Bool :=
  if st.elcnt ≤ index then (st, false)
  else
    let moved := moveDown st.contents index (st.elcnt - index - 1)
    let nulled := st.write (init_elem zero moved (st.elcnt - 1))
    ({ nulled with elcnt := st.elcnt - 1 }, true)

/-- Makes place for the inserted element in front of another one. -/
def makePlace (index : Nat) : Option (State α) :=
  let grown := if st.elcnt = st.arrsize then st.acc zero garbage step st.elcnt
    else ({ st with elcnt := st.elcnt + 1 }, some st.elcnt)
  grown.2.map fun _ =>
    grown.1.write (init_elem zero
      (moveUp grown.1.contents index (grown.1.elcnt - 1 - index)) index)

def insert (index : Nat) : State α × Option Nat :=
  if index < st.elcnt then
    match st.makePlace zero garbage step index with
    | none => (st, none)
    | some placed => placed.acc zero garbage step index
  else st.acc zero garbage step index

def destruct : State α :=
  if st.arrsize = 0 then st
  else ⟨st.memory.corefree st.elems, 0, 0, none⟩

end State

/-- An operation on the array. An accessed element can be stored to. -/
inductive Op (α : Type*) where
  | acc (index : Nat)
  | next
  | store (index : Nat) (value : α)
  | insert (index : Nat)
  | delet (index : Nat)
  | minimize
  | find (pattern : α)
  | destruct

def perform [DecidableEq α] (st : State α) : Op α → State α × Option Nat
  | .acc index => st.acc zero garbage step index
  | .next => st.next zero garbage step
  | .store index value =>
      (if index < st.elcnt then st.write (st.contents.set index value) else st, none)
  | .insert index => st.insert zero garbage step index
  | .delet index => ((st.delet zero index).1, if (st.delet zero index).2 then some index else none)
  | .minimize => (st.minimize garbage, none)
  | .find pattern => (st, st.find pattern)
  | .destruct => (st.destruct, none)

def performAll [DecidableEq α] : List (Op α) → State α → State α
  | [], st => st
  | op :: rest, st => performAll rest (perform zero garbage step st op).1

end Array

end Sql602.Dynar
