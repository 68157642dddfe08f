import Mathlib.Algebra.Group.Nat.Defs
import Mathlib.Data.UInt
import Sql602.Library.Run

namespace Sql602.Table

open Run

/-! The cache of the unique counter of a table. A call of `get_next_available_value`
is not protected by the critical section of the table, so that it goes on in the
steps of its statements. -/

def numberOfAllocatedValuesPerChunk : Nat := 100

def noneInteger : UInt32 := 0x80000000

/-- The result of an addition to an unsigned integer of 32 bits. -/
def wrap (n : Nat) : Nat := n % 2 ^ 32

/-- Where a client is in `get_next_available_value`. -/
inductive Phase
  | loading
  | taking
  | bumping
  deriving DecidableEq

inductive ValueEvent
  | returned (value : Nat)
  | registered (value : Nat)
  deriving DecidableEq

def ValueEvent.value : ValueEvent → Nat
  | returned value => value
  | registered value => value

/-- The history has the last event first. -/
structure UniqueValues where
  uniqueCounter : Nat
  nextAvailableValue : Nat
  cachedValues : Nat
  inside : List (Nat × Phase)
  history : List ValueEvent
  deriving DecidableEq

inductive ValueOp
  | enter (client : Nat)
  | load (client : Nat) (accessed : Bool)
  | take (client : Nat)
  | bump (client : Nat)
  | register (value : UInt32) (accessed : Bool)
  | closeCache (accessed : Bool)
  | crash

namespace UniqueValues

def start (counter : Nat) : UniqueValues := ⟨counter, 0, 0, [], []⟩

def moveTo (st : UniqueValues) (client : Nat) (phase : Phase) : UniqueValues :=
  { st with inside := (client, phase) :: st.inside.filter (·.1 ≠ client) }

def leave (st : UniqueValues) (client : Nat) : UniqueValues :=
  { st with inside := st.inside.filter (·.1 ≠ client) }

def loadValuesToCache (st : UniqueValues) : UniqueValues :=
  { st with
    nextAvailableValue := st.uniqueCounter
    cachedValues := numberOfAllocatedValuesPerChunk
    uniqueCounter := wrap (st.uniqueCounter + numberOfAllocatedValuesPerChunk) }

/-- The value is registered when the basic block can be accessed or need not be. -/
def registerUsedValue (st : UniqueValues) (value : Nat) (accessed : Bool) : UniqueValues :=
  let registered := { st with history := .registered value :: st.history }
  if st.cachedValues ≠ 0 ∧ value < st.nextAvailableValue then registered
  else if st.cachedValues ≠ 0 ∧ value < wrap (st.nextAvailableValue + st.cachedValues) then
    { registered with
      cachedValues := st.cachedValues - (value - st.nextAvailableValue + 1)
      nextAvailableValue := value + 1 }
  else if accessed then
    { registered with
      cachedValues := 0
      uniqueCounter :=
        if value ≥ st.uniqueCounter then wrap (value + 1) else st.uniqueCounter }
  else { st with cachedValues := 0 }

def closeCache (st : UniqueValues) (accessed : Bool) : UniqueValues :=
  if st.cachedValues ≠ 0 ∧ accessed then
    { st with cachedValues := 0, uniqueCounter := st.nextAvailableValue }
  else st

end UniqueValues

def valueStep (st : UniqueValues) : ValueOp → UniqueValues
  | .enter client =>
      if st.inside.any (·.1 == client) then st
      else st.moveTo client (if st.cachedValues = 0 then .loading else .taking)
  | .load client accessed =>
      if (client, Phase.loading) ∈ st.inside then
        let st := if accessed then st.loadValuesToCache else st
        if st.cachedValues = 0 then st.leave client else st.moveTo client .taking
      else st
  | .take client =>
      if (client, Phase.taking) ∈ st.inside then
        { st with cachedValues := wrap (st.cachedValues + (2 ^ 32 - 1)) }.moveTo client .bumping
      else st
  | .bump client =>
      if (client, Phase.bumping) ∈ st.inside then
        { st with
          nextAvailableValue := wrap (st.nextAvailableValue + 1)
          history := .returned st.nextAvailableValue :: st.history }.leave client
      else st
  | .register value accessed =>
      if value = noneInteger then st else st.registerUsedValue value.toNat accessed
  | .closeCache accessed => st.closeCache accessed
  | .crash => { st with cachedValues := 0, inside := [] }

/-- No value is returned that was returned or registered before. -/
def NoRepeat : List ValueEvent → Prop
  | [] => True
  | .returned value :: history => value ∉ history.map ValueEvent.value ∧ NoRepeat history
  | .registered _ :: history => NoRepeat history

/-- The calls do not overlap, and neither the counter nor a registered value passes the
end of the 32 bits. -/
def ValueOk (st : UniqueValues) : ValueOp → Prop
  | .enter _ => st.inside = []
  | .load client _ => (∀ entry ∈ st.inside, entry.1 = client) ∧
      st.uniqueCounter + numberOfAllocatedValuesPerChunk < 2 ^ 32
  | .take client => ∀ entry ∈ st.inside, entry.1 = client
  | .bump client => ∀ entry ∈ st.inside, entry.1 = client
  | .register value _ => st.inside = [] ∧ value ≠ 2 ^ 32 - 1
  | .closeCache _ => st.inside = []
  | .crash => True

instance ValueOk.decide : ∀ st op, Decidable (ValueOk st op)
  | st, .enter _ => inferInstanceAs (Decidable (st.inside = []))
  | st, .load client _ => inferInstanceAs (Decidable ((∀ entry ∈ st.inside, entry.1 = client) ∧
      st.uniqueCounter + numberOfAllocatedValuesPerChunk < 2 ^ 32))
  | st, .take client => inferInstanceAs (Decidable (∀ entry ∈ st.inside, entry.1 = client))
  | st, .bump client => inferInstanceAs (Decidable (∀ entry ∈ st.inside, entry.1 = client))
  | st, .register value _ =>
      inferInstanceAs (Decidable (st.inside = [] ∧ value ≠ 2 ^ 32 - 1))
  | st, .closeCache _ => inferInstanceAs (Decidable (st.inside = []))
  | _, .crash => isTrue trivial

/-! The values from a bound on have not been used. -/

namespace UniqueValues

def Below (st : UniqueValues) (bound : Nat) : Prop :=
  ∀ event ∈ st.history, event.value < bound

/-- What is known between two statements, by the place of the client that is inside. -/
inductive Mode (st : UniqueValues) : Prop
  | ready (hinside : st.inside = []) (hcached : st.cachedValues = 0)
      (hbelow : st.Below st.uniqueCounter)
  | cached (hinside : st.inside = []) (hcached : 0 < st.cachedValues)
      (hchunk : st.nextAvailableValue + st.cachedValues = st.uniqueCounter)
      (hbelow : st.Below st.nextAvailableValue)
  | loading (client : Nat) (hinside : st.inside = [(client, .loading)])
      (hcached : st.cachedValues = 0) (hbelow : st.Below st.uniqueCounter)
  | taking (client : Nat) (hinside : st.inside = [(client, .taking)])
      (hcached : 0 < st.cachedValues)
      (hchunk : st.nextAvailableValue + st.cachedValues = st.uniqueCounter)
      (hbelow : st.Below st.nextAvailableValue)
  | bumping (client : Nat) (hinside : st.inside = [(client, .bumping)])
      (hchunk : st.nextAvailableValue + st.cachedValues + 1 = st.uniqueCounter)
      (hbelow : st.Below st.nextAvailableValue)

structure Counted (st : UniqueValues) : Prop where
  counter : st.uniqueCounter < 2 ^ 32
  noRepeat : NoRepeat st.history
  mode : st.Mode

variable {st : UniqueValues} {client : Nat}

theorem Below.mono {low high : Nat} (hbelow : st.Below low) (hle : low ≤ high) :
    st.Below high := fun event hevent => Nat.lt_of_lt_of_le (hbelow event hevent) hle

theorem Below.not_mem {bound : Nat} (hbelow : st.Below bound) :
    bound ∉ st.history.map ValueEvent.value := by
  intro hmem
  obtain ⟨event, hevent, hvalue⟩ := List.mem_map.mp hmem
  exact absurd (hbelow event hevent) (by omega)

theorem wrap_of_lt {n : Nat} (hlt : n < 2 ^ 32) : wrap n = n := Nat.mod_eq_of_lt hlt

theorem wrap_pred {n : Nat} (hpos : 0 < n) (hlt : n < 2 ^ 32) : wrap (n + (2 ^ 32 - 1)) = n - 1 := by
  unfold wrap
  omega

theorem moveTo_own {phase next : Phase} (hinside : st.inside = [(client, phase)]) :
    (st.moveTo client next).inside = [(client, next)] := by
  simp [moveTo, hinside]

theorem leave_own {phase : Phase} (hinside : st.inside = [(client, phase)]) :
    (st.leave client).inside = [] := by
  simp [leave, hinside]

/-- All that a value is compared with when no client is inside. -/
theorem Mode.idle (hmode : st.Mode) (hinside : st.inside = []) :
    st.Below st.uniqueCounter ∧ (st.cachedValues ≠ 0 →
      st.nextAvailableValue + st.cachedValues = st.uniqueCounter ∧
        st.Below st.nextAvailableValue) := by
  cases hmode with
  | ready _ hcached hbelow => exact ⟨hbelow, fun hne => absurd hcached hne⟩
  | cached _ _ hchunk hbelow => exact ⟨hbelow.mono (by omega), fun _ => ⟨hchunk, hbelow⟩⟩
  | loading client hother => rw [hinside] at hother; cases hother
  | taking client hother => rw [hinside] at hother; cases hother
  | bumping client hother => rw [hinside] at hother; cases hother

theorem Mode.below (hmode : st.Mode) : st.Below st.uniqueCounter := by
  cases hmode with
  | ready _ _ hbelow => exact hbelow
  | cached _ _ hchunk hbelow => exact hbelow.mono (by omega)
  | loading _ _ _ hbelow => exact hbelow
  | taking _ _ _ hchunk hbelow => exact hbelow.mono (by omega)
  | bumping _ _ hchunk hbelow => exact hbelow.mono (by omega)

theorem Counted.enter (hcounted : st.Counted) (client : Nat) (hinside : st.inside = []) :
    (valueStep st (.enter client)).Counted := by
  have hnone : st.inside.any (·.1 == client) = false := by rw [hinside]; rfl
  obtain ⟨hbelow, hchunk⟩ := hcounted.mode.idle hinside
  simp only [valueStep, hnone, Bool.false_eq_true, ↓reduceIte]
  refine ⟨hcounted.counter, hcounted.noRepeat, ?_⟩
  by_cases hcached : st.cachedValues = 0
  · rw [if_pos hcached]
    exact .loading client (by simp [moveTo, hinside]) hcached hbelow
  · rw [if_neg hcached]
    obtain ⟨hsum, hnext⟩ := hchunk hcached
    exact .taking client (by simp [moveTo, hinside]) (Nat.pos_of_ne_zero hcached) hsum hnext

theorem Counted.load (hcounted : st.Counted) (accessed : Bool)
    (hroom : st.uniqueCounter + numberOfAllocatedValuesPerChunk < 2 ^ 32)
    (hinside : st.inside = [(client, .loading)]) (hcached : st.cachedValues = 0)
    (hbelow : st.Below st.uniqueCounter) : (valueStep st (.load client accessed)).Counted := by
  have hmem : (client, Phase.loading) ∈ st.inside := by rw [hinside]; exact List.mem_cons_self
  simp only [valueStep, if_pos hmem]
  cases accessed with
  | false =>
      simp only [Bool.false_eq_true, ↓reduceIte, hcached]
      exact ⟨hcounted.counter, hcounted.noRepeat, .ready (leave_own hinside) hcached hbelow⟩
  | true =>
      have hpos : st.loadValuesToCache.cachedValues ≠ 0 :=
        show numberOfAllocatedValuesPerChunk ≠ 0 by decide
      simp only [↓reduceIte, if_neg hpos]
      have hwrap : wrap (st.uniqueCounter + numberOfAllocatedValuesPerChunk) =
          st.uniqueCounter + numberOfAllocatedValuesPerChunk := wrap_of_lt hroom
      refine ⟨?_, hcounted.noRepeat, .taking client ?_ ?_ ?_ ?_⟩
      · change wrap _ < 2 ^ 32
        rwa [hwrap]
      · exact @moveTo_own st.loadValuesToCache _ _ _ hinside
      · exact Nat.pos_of_ne_zero hpos
      · exact hwrap.symm
      · exact hbelow

theorem Counted.take (hcounted : st.Counted) (hinside : st.inside = [(client, .taking)])
    (hcached : 0 < st.cachedValues)
    (hchunk : st.nextAvailableValue + st.cachedValues = st.uniqueCounter)
    (hbelow : st.Below st.nextAvailableValue) : (valueStep st (.take client)).Counted := by
  have hmem : (client, Phase.taking) ∈ st.inside := by rw [hinside]; exact List.mem_cons_self
  have hcounter := hcounted.counter
  have hpred := wrap_pred hcached (by omega)
  simp only [valueStep, if_pos hmem, hpred]
  refine ⟨hcounter, hcounted.noRepeat, .bumping client ?_ ?_ hbelow⟩
  · exact @moveTo_own { st with cachedValues := st.cachedValues - 1 } _ _ _ hinside
  · simp only [moveTo]
    omega

theorem Counted.bump (hcounted : st.Counted) (hinside : st.inside = [(client, .bumping)])
    (hchunk : st.nextAvailableValue + st.cachedValues + 1 = st.uniqueCounter)
    (hbelow : st.Below st.nextAvailableValue) : (valueStep st (.bump client)).Counted := by
  have hmem : (client, Phase.bumping) ∈ st.inside := by rw [hinside]; exact List.mem_cons_self
  have hcounter := hcounted.counter
  have hsucc := @wrap_of_lt (st.nextAvailableValue + 1) (by omega)
  simp only [valueStep, if_pos hmem, hsucc]
  have hnext : ∀ event ∈ ValueEvent.returned st.nextAvailableValue :: st.history,
      event.value < st.nextAvailableValue + 1 := by
    intro event hevent
    rcases List.mem_cons.mp hevent with rfl | hevent
    · exact Nat.lt_succ_self _
    · exact Nat.lt_succ_of_lt (hbelow event hevent)
  refine ⟨hcounter, ⟨hbelow.not_mem, hcounted.noRepeat⟩, ?_⟩
  have hleft : (st.leave client).inside = [] := leave_own hinside
  by_cases hcached : st.cachedValues = 0
  · refine .ready hleft hcached fun event hevent => ?_
    have hvalue := hnext event hevent
    simp only [leave]
    omega
  · refine .cached hleft (Nat.pos_of_ne_zero hcached) ?_ hnext
    simp only [leave]
    omega

theorem Below.registered {bound value : Nat} (hbelow : st.Below bound) (hvalue : value < bound) :
    ∀ event ∈ ValueEvent.registered value :: st.history, event.value < bound := by
  intro event hevent
  rcases List.mem_cons.mp hevent with rfl | hevent
  · exact hvalue
  · exact hbelow event hevent

theorem Counted.register (hcounted : st.Counted) (hinside : st.inside = []) {value : Nat}
    (hvalue : value + 1 < 2 ^ 32) (accessed : Bool) :
    (st.registerUsedValue value accessed).Counted := by
  obtain ⟨hbelow, hcached⟩ := hcounted.mode.idle hinside
  have hcounter := hcounted.counter
  unfold registerUsedValue
  dsimp only
  split
  · rename_i hless
    obtain ⟨hchunk, hnext⟩ := hcached hless.1
    exact ⟨hcounter, hcounted.noRepeat, .cached hinside (Nat.pos_of_ne_zero hless.1) hchunk
      (hnext.registered hless.2)⟩
  · rename_i hge
    split
    · rename_i hinChunk
      obtain ⟨hchunk, hnext⟩ := hcached hinChunk.1
      have hend := @wrap_of_lt (st.nextAvailableValue + st.cachedValues) (by omega)
      have hlt : value < st.uniqueCounter := by
        rw [hend, hchunk] at hinChunk
        exact hinChunk.2
      have hfrom : st.nextAvailableValue ≤ value :=
        Nat.le_of_not_lt fun hless => hge ⟨hinChunk.1, hless⟩
      refine ⟨hcounter, hcounted.noRepeat, ?_⟩
      by_cases hlast : st.cachedValues - (value - st.nextAvailableValue + 1) = 0
      · exact .ready hinside hlast (hbelow.registered hlt)
      · refine .cached hinside (Nat.pos_of_ne_zero hlast) ?_ ?_
        · dsimp only
          omega
        · exact (hnext.mono (Nat.le_succ_of_le hfrom)).registered (Nat.lt_succ_self value)
    · split
      · refine ⟨?_, hcounted.noRepeat, .ready hinside rfl ?_⟩
        · dsimp only
          split
          · rw [wrap_of_lt hvalue]
            exact hvalue
          · exact hcounter
        · dsimp only
          split
          · rename_i hgeCounter
            rw [wrap_of_lt hvalue]
            exact (hbelow.mono (by omega)).registered (Nat.lt_succ_self value)
          · rename_i hltCounter
            exact hbelow.registered (Nat.lt_of_not_le hltCounter)
      · exact ⟨hcounter, hcounted.noRepeat, .ready hinside rfl hbelow⟩

theorem Counted.closeCache (hcounted : st.Counted) (hinside : st.inside = []) (accessed : Bool) :
    (st.closeCache accessed).Counted := by
  obtain ⟨hbelow, hcached⟩ := hcounted.mode.idle hinside
  have hcounter := hcounted.counter
  unfold UniqueValues.closeCache
  split
  · rename_i hclose
    obtain ⟨hchunk, hnext⟩ := hcached hclose.1
    exact ⟨by dsimp only; omega, hcounted.noRepeat, .ready hinside rfl hnext⟩
  · exact hcounted

theorem Counted.crash (hcounted : st.Counted) : (valueStep st .crash).Counted :=
  ⟨hcounted.counter, hcounted.noRepeat, .ready rfl rfl hcounted.mode.below⟩

theorem Counted.step {op : ValueOp} (hcounted : st.Counted) (hok : ValueOk st op) :
    (valueStep st op).Counted := by
  cases op with
  | enter client => exact hcounted.enter client hok
  | load client accessed =>
      by_cases hmem : (client, Phase.loading) ∈ st.inside
      · cases hcounted.mode with
        | ready hinside => rw [hinside] at hmem; cases hmem
        | cached hinside => rw [hinside] at hmem; cases hmem
        | loading other hinside hcached hbelow =>
            rw [hinside] at hmem
            obtain ⟨rfl, -⟩ := Prod.mk.inj (List.mem_singleton.mp hmem)
            exact hcounted.load accessed hok.2 hinside hcached hbelow
        | taking other hinside => rw [hinside] at hmem; simp at hmem
        | bumping other hinside => rw [hinside] at hmem; simp at hmem
      · simpa only [valueStep, if_neg hmem] using hcounted
  | take client =>
      by_cases hmem : (client, Phase.taking) ∈ st.inside
      · cases hcounted.mode with
        | ready hinside => rw [hinside] at hmem; cases hmem
        | cached hinside => rw [hinside] at hmem; cases hmem
        | loading other hinside => rw [hinside] at hmem; simp at hmem
        | taking other hinside hcached hchunk hbelow =>
            rw [hinside] at hmem
            obtain ⟨rfl, -⟩ := Prod.mk.inj (List.mem_singleton.mp hmem)
            exact hcounted.take hinside hcached hchunk hbelow
        | bumping other hinside => rw [hinside] at hmem; simp at hmem
      · simpa only [valueStep, if_neg hmem] using hcounted
  | bump client =>
      by_cases hmem : (client, Phase.bumping) ∈ st.inside
      · cases hcounted.mode with
        | ready hinside => rw [hinside] at hmem; cases hmem
        | cached hinside => rw [hinside] at hmem; cases hmem
        | loading other hinside => rw [hinside] at hmem; simp at hmem
        | taking other hinside => rw [hinside] at hmem; simp at hmem
        | bumping other hinside hchunk hbelow =>
            rw [hinside] at hmem
            obtain ⟨rfl, -⟩ := Prod.mk.inj (List.mem_singleton.mp hmem)
            exact hcounted.bump hinside hchunk hbelow
      · simpa only [valueStep, if_neg hmem] using hcounted
  | register value accessed =>
      rw [valueStep]
      split
      · exact hcounted
      · refine hcounted.register hok.1 ?_ accessed
        have hne : value.toNat ≠ 2 ^ 32 - 1 := by
          intro heq
          exact hok.2 (UInt32.toNat.inj (by rw [heq]; rfl))
        have hlt := value.toNat_lt
        omega
  | closeCache accessed => exact hcounted.closeCache hok accessed
  | crash => exact hcounted.crash

end UniqueValues

/-- In every run of calls that do not overlap and stay within 32 bits, no value is
returned that was used before. -/
theorem uniqueValues_fresh {counter : Nat} {ops : List ValueOp} (hcounter : counter < 2 ^ 32)
    (hmeets : Meets valueStep ValueOk (UniqueValues.start counter) ops) :
    Always valueStep (fun st => NoRepeat st.history) (UniqueValues.start counter) ops := by
  apply always_of_invariant UniqueValues.Counted (fun st hcounted => hcounted.noRepeat)
    (fun st op hcounted hok => hcounted.step hok) _ hmeets
  exact ⟨hcounter, trivial, .ready rfl rfl (fun event hevent => absurd hevent (by simp [UniqueValues.start]))⟩

theorem uniqueValues_fresh_crash :
    Always valueStep (fun st => NoRepeat st.history) (UniqueValues.start 7)
      [.enter 1, .load 1 true, .take 1, .bump 1, .register 50 true, .crash, .enter 2,
        .load 2 true, .take 2, .bump 2] :=
  uniqueValues_fresh (by decide) (by decide)

/-- The value -1 in a column of 32 bits sets the counter to 0. -/
theorem uniqueValues_repeated :
    ¬ Always valueStep (fun st => NoRepeat st.history) (UniqueValues.start 0)
      [.enter 1, .load 1 true, .take 1, .bump 1, .register (2 ^ 32 - 1) true, .enter 1,
        .load 1 true, .take 1, .bump 1] := by
  intro halways
  have hlast := halways.last
  exact absurd hlast.1 (by decide)

end Sql602.Table
