import Sql602.Join.Distribution
import Sql602.Library.OuterRows
import Sql602.Library.Run
import Mathlib.Logic.Function.Basic

namespace Sql602.Join

variable {ρ κ : Type}

/-! `t_optim_join_outer` -/

inductive JoinType
  | left
  | right
  | full
  deriving DecidableEq

/-- The rows that an operand passes after its reset. The rows of an operand that is not
materialized have positions of their own, of a materialized one the values are compared. -/
structure Operand (ρ κ : Type) where
  rows : List ρ
  materialized : Bool
  rowkey : ρ → κ
  positions : materialized = false → rows.Nodup

structure OuterJoin (ρ κ : Type) where
  joinType : JoinType
  op1 : Operand ρ κ
  op2 : Operand ρ κ
  joinCond : Option (Express ρ)
  inheritedConds : List (Express ρ)
  refs : ∀ ex ∈ joinCond.toList ++ inheritedConds, ex.refs ⊆ {0, 1}

/-- The rows of the two operands, and nothing of what is outside of the join. -/
def rowsAt (row : Option ρ × Option ρ) : Position ρ
  | 0 => row.1
  | 1 => row.2
  | _ => none

/-- The first row that meets the pushed conditions, and the rows behind it. -/
def nextRow (accepts : ρ → Bool) : List ρ → Option (ρ × List ρ)
  | [] => none
  | row :: rows => if accepts row then some (row, rows) else nextRow accepts rows

def Step.accepts (step : Step ρ) (position : Position ρ) (row : ρ) : Bool :=
  step.conds.all (Express.isTrue (Function.update position step.leave (some row)))

namespace OuterJoin

variable (oj : OuterJoin ρ κ)

def leave (tabnum : Nat) : Operand ρ κ := if tabnum = 0 then oj.op1 else oj.op2

/-- The leaves whose rows may be extended. -/
def disablingMap : Finset Nat :=
  match oj.joinType with
  | .left => {1}
  | .right => {0}
  | .full => {0, 1}

def disabled (ex : Express ρ) : Bool :=
  !decide (Disjoint (classify false ex).maps oj.disablingMap)

/-- The numbers of the bits of `conds_outer`. A shift takes its count modulo 32. -/
def condsOuter : List Nat :=
  (oj.inheritedConds.zipIdx.filter fun cond => oj.disabled cond.1).map fun cond => cond.2 % 32

/-- The conditions of the variant: the parts of the local condition and the inherited
conditions that are not disabled. -/
def conds : List (Express ρ) :=
  oj.joinCond.toList.flatMap Express.parts ++
    oj.inheritedConds.filter fun ex => !oj.disabled ex

/-- The inherited conditions that are evaluated on the joined row. -/
def satisfied (position : Position ρ) : Bool :=
  oj.inheritedConds.zipIdx.all fun cond =>
    !decide (cond.2 % 32 ∈ oj.condsOuter) || cond.1.isTrue position

/-- What `optimize` decides for the order of the leaves. -/
structure Plan (ρ : Type) where
  step1 : Step ρ
  step2 : Step ρ
  leftOuter : Bool
  rightOuter : Bool

def optimize (first second : Nat) : Plan ρ :=
  let steps := distribute false [first, second] ∅ oj.conds
  let reversed := first != 0
  let leftOuter := oj.joinType == .full || !reversed == (oj.joinType == .left)
  { step1 := steps.getD 0 ⟨first, []⟩
    step2 := steps.getD 1 ⟨second, []⟩
    leftOuter := leftOuter
    rightOuter := oj.joinType == .full || !leftOuter }

structure State (ρ κ : Type) where
  gnrPos : Nat
  position : Position ρ
  rest1 : List ρ
  rest2 : List ρ
  pairGenerated : Bool
  rightStorage : List ρ
  rojRowdist : List κ
  rightPostPhase : Bool
  restRight : List ρ

variable (plan : Plan ρ)

def reset (position : Position ρ) : State ρ κ where
  gnrPos := 0
  position := position
  rest1 := (oj.leave plan.step1.leave).rows
  rest2 := []
  pairGenerated := false
  rightStorage := []
  rojRowdist := []
  rightPostPhase := false
  restRight := []

/-- The row that the join is on is passed when it meets the outer conditions. -/
def deliver (st : State ρ κ) : Stepping.Advance (State ρ κ) (Option ρ × Option ρ) :=
  if oj.satisfied st.position then .pass (st.position 0, st.position 1) st else .go st

/-- The position or the values of the row of the second operand are stored. -/
def store (row : ρ) (st : State ρ κ) : State ρ κ :=
  if plan.rightOuter then
    if (oj.leave plan.step2.leave).materialized then
      { st with
        rojRowdist := (oj.leave plan.step2.leave).rowkey row :: st.rojRowdist }
    else { st with rightStorage := row :: st.rightStorage }
  else st

def advanceFirst (st : State ρ κ) : Stepping.Advance (State ρ κ) (Option ρ × Option ρ) :=
  match nextRow (plan.step1.accepts st.position) st.rest1 with
  | some (row, rest) =>
      .go { st with
        gnrPos := 1
        position := Function.update st.position plan.step1.leave (some row)
        rest1 := rest
        rest2 := (oj.leave plan.step2.leave).rows
        pairGenerated := false }
  | none =>
      if plan.rightOuter then
        .go { st with
          rightPostPhase := true
          position := Function.update st.position plan.step1.leave none
          restRight := (oj.leave plan.step2.leave).rows }
      else .stop

def advanceSecond (st : State ρ κ) : Stepping.Advance (State ρ κ) (Option ρ × Option ρ) :=
  match nextRow (plan.step2.accepts st.position) st.rest2 with
  | some (row, rest) =>
      oj.deliver (oj.store plan row { st with
        position := Function.update st.position plan.step2.leave (some row)
        rest2 := rest
        pairGenerated := true })
  | none =>
      if plan.leftOuter && !st.pairGenerated then
        oj.deliver { st with
          gnrPos := 0
          position := Function.update st.position plan.step2.leave none
          rest2 := [] }
      else .go { st with gnrPos := 0, rest2 := [] }

section Advance

variable [DecidableEq ρ] [DecidableEq κ]

/-- `rightopt` passes the rows that meet the inherited conditions, without the first operand. -/
def advanceRight (st : State ρ κ) : Stepping.Advance (State ρ κ) (Option ρ × Option ρ) :=
  let accepts := Step.accepts ⟨plan.step2.leave, oj.inheritedConds⟩ st.position
  match nextRow accepts st.restRight with
  | none => .stop
  | some (row, rest) =>
      let position := Function.update st.position plan.step2.leave (some row)
      let st := { st with position := position, restRight := rest }
      if (oj.leave plan.step2.leave).materialized then
        let key := (oj.leave plan.step2.leave).rowkey row
        if key ∈ st.rojRowdist then .go st
        else .pass (position 0, position 1) { st with rojRowdist := key :: st.rojRowdist }
      else if row ∈ st.rightStorage then .go st
      else .pass (position 0, position 1) st

/-- One turn of the loops of `get_next_record`. -/
def advance (st : State ρ κ) : Stepping.Advance (State ρ κ) (Option ρ × Option ρ) :=
  if st.rightPostPhase then oj.advanceRight plan st
  else if st.gnrPos = 0 then oj.advanceFirst plan st
  else oj.advanceSecond plan st

end Advance

/-! The meaning of the outer join. -/

def onTrue (row1 row2 : ρ) : Bool :=
  oj.joinCond.all (Express.isTrue (rowsAt (some row1, some row2)))

def inheritedTrue (row : Option ρ × Option ρ) : Bool :=
  oj.inheritedConds.all (Express.isTrue (rowsAt row))

def preserves (tabnum : Nat) : Bool :=
  match oj.joinType with
  | .left => tabnum == 0
  | .right => tabnum == 1
  | .full => true

def sqlRows : Multiset (Option ρ × Option ρ) :=
  (OuterRows.rows oj.onTrue (oj.preserves 0) (oj.preserves 1) oj.op1.rows oj.op2.rows).filter
    fun row => oj.inheritedTrue row = true

/-- The join passes the rows of its meaning. The position is that before the reset. -/
def Right [DecidableEq ρ] [DecidableEq κ] (first second : Nat) (position : Position ρ) : Prop :=
  ∃ rows, Stepping.Passes (oj.advance (oj.optimize first second))
      (oj.reset (oj.optimize first second) position) rows ∧
    (rows : Multiset (Option ρ × Option ρ)) = oj.sqlRows

end OuterJoin

end Sql602.Join
