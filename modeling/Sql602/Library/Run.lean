import Mathlib.Data.List.Basic
import Mathlib.Order.Defs.Unbundled

namespace Run

variable {σ α : Type*}

/-! Runs of a total step function. A condition on steps is checked in the state
in which the step starts; a property of states is claimed of every state that a
run goes through, its first and its last state included. -/

def run (step : σ → α → σ) (state : σ) (ops : List α) : σ :=
  ops.foldl step state

def Meets (step : σ → α → σ) (ok : σ → α → Prop) : σ → List α → Prop
  | _, [] => True
  | state, op :: ops => ok state op ∧ Meets step ok (step state op) ops

def Always (step : σ → α → σ) (good : σ → Prop) : σ → List α → Prop
  | state, [] => good state
  | state, op :: ops => good state ∧ Always step good (step state op) ops

instance Meets.decide (step : σ → α → σ) (ok : σ → α → Prop)
    [∀ state op, Decidable (ok state op)] :
    ∀ state ops, Decidable (Meets step ok state ops)
  | _, [] => isTrue trivial
  | state, op :: ops =>
      have := Meets.decide step ok (step state op) ops
      inferInstanceAs (Decidable (ok state op ∧ Meets step ok (step state op) ops))

instance Always.decide (step : σ → α → σ) (good : σ → Prop)
    [∀ state, Decidable (good state)] :
    ∀ state ops, Decidable (Always step good state ops)
  | state, [] => inferInstanceAs (Decidable (good state))
  | state, op :: ops =>
      have := Always.decide step good (step state op) ops
      inferInstanceAs (Decidable (good state ∧ Always step good (step state op) ops))

@[simp] theorem run_nil (step : σ → α → σ) (state : σ) : run step state [] = state := rfl

@[simp] theorem run_cons (step : σ → α → σ) (state : σ) (op : α) (ops : List α) :
    run step state (op :: ops) = run step (step state op) ops := rfl

theorem run_append (step : σ → α → σ) (state : σ) (first rest : List α) :
    run step state (first ++ rest) = run step (run step state first) rest :=
  List.foldl_append

theorem Meets.append {step : σ → α → σ} {ok : σ → α → Prop} {state : σ} {first rest : List α}
    (hfirst : Meets step ok state first) (hrest : Meets step ok (run step state first) rest) :
    Meets step ok state (first ++ rest) := by
  induction first generalizing state with
  | nil => exact hrest
  | cons op ops ih => exact ⟨hfirst.1, ih hfirst.2 hrest⟩

theorem Meets.split {step : σ → α → σ} {ok : σ → α → Prop} {state : σ} {first rest : List α}
    (hmeets : Meets step ok state (first ++ rest)) :
    Meets step ok state first ∧ Meets step ok (run step state first) rest := by
  induction first generalizing state with
  | nil => exact ⟨trivial, hmeets⟩
  | cons op ops ih =>
      obtain ⟨hok, hmeets⟩ := hmeets
      obtain ⟨hfirst, hrest⟩ := ih hmeets
      exact ⟨⟨hok, hfirst⟩, hrest⟩

theorem Always.last {step : σ → α → σ} {good : σ → Prop} {state : σ} {ops : List α}
    (halways : Always step good state ops) : good (run step state ops) := by
  induction ops generalizing state with
  | nil => exact halways
  | cons op ops ih => exact ih halways.2

/-- The invariant rule: what holds at the start and is kept by every step that
meets the condition holds in every state of a run whose steps all meet it. -/
theorem always_of_invariant {step : σ → α → σ} {ok : σ → α → Prop}
    {good : σ → Prop} (inv : σ → Prop)
    (hgood : ∀ state, inv state → good state)
    (hstep : ∀ state op, inv state → ok state op → inv (step state op)) :
    ∀ {state : σ} {ops : List α}, inv state → Meets step ok state ops →
      Always step good state ops := by
  intro state ops hinv hmeets
  induction ops generalizing state with
  | nil => exact hgood state hinv
  | cons op ops ih =>
      obtain ⟨hok, hrest⟩ := hmeets
      exact ⟨hgood state hinv, ih (hstep state op hinv hok) hrest⟩

/-- The invariant rule for steps without a condition. -/
theorem always_of_step {step : σ → α → σ} {good : σ → Prop} (inv : σ → Prop)
    (hgood : ∀ state, inv state → good state)
    (hstep : ∀ state op, inv state → inv (step state op)) :
    ∀ {state : σ} {ops : List α}, inv state → Always step good state ops := by
  intro state ops hinv
  induction ops generalizing state with
  | nil => exact hgood state hinv
  | cons op ops ih => exact ⟨hgood state hinv, ih (hstep state op hinv)⟩

theorem Always.first {step : σ → α → σ} {good : σ → Prop} {state : σ} {ops : List α}
    (halways : Always step good state ops) : good state := by
  cases ops with
  | nil => exact halways
  | cons op ops => exact halways.1

/-- The invariant rule for a condition that no step may fail to meet. -/
theorem always_iff_meets {step : σ → α → σ} {ok : σ → α → Prop} {good : σ → Prop}
    (inv : σ → Prop) (hgood : ∀ state, inv state → good state)
    (hstep : ∀ state op, inv state → ok state op → inv (step state op))
    (hok : ∀ state op, inv state → good (step state op) → ok state op) :
    ∀ {state : σ} {ops : List α}, inv state →
      (Always step good state ops ↔ Meets step ok state ops) := by
  intro state ops hinv
  constructor
  · intro halways
    induction ops generalizing state with
    | nil => trivial
    | cons op ops ih =>
        have hmeets := hok state op hinv halways.2.first
        exact ⟨hmeets, ih (hstep state op hinv hmeets) halways.2⟩
  · exact always_of_invariant inv hgood hstep hinv

/-- A condition on steps may be replaced by a stronger one that an invariant
of the run makes sufficient. -/
theorem Meets.of_invariant {step : σ → α → σ} {ok strong : σ → α → Prop} (inv : σ → Prop)
    (hok : ∀ state op, inv state → strong state op → ok state op)
    (hstep : ∀ state op, inv state → strong state op → inv (step state op)) :
    ∀ {state : σ} {ops : List α}, inv state → Meets step strong state ops →
      Meets step ok state ops := by
  intro state ops hinv hmeets
  induction ops generalizing state with
  | nil => trivial
  | cons op ops ih =>
      obtain ⟨hstrong, hrest⟩ := hmeets
      exact ⟨hok state op hinv hstrong, ih (hstep state op hinv hstrong) hrest⟩

end Run

namespace Stepping

universe u v
variable {σ : Type u} {α : Type v}

/-! Machines that pass rows one by one. An advance of a machine stops it, goes
on without a row, or passes a row. -/

inductive Advance (σ : Type u) (α : Type v)
  | stop
  | go (state : σ)
  | pass (row : α) (state : σ)

def passed (advance : σ → Advance σ α) : Nat → σ → Option (List α)
  | 0, _ => none
  | fuel + 1, state =>
      match advance state with
      | .stop => some []
      | .go next => passed advance fuel next
      | .pass row next => (passed advance fuel next).map (row :: ·)

/-- The machine stops, and these are all the rows that it has passed by then. -/
def Passes (advance : σ → Advance σ α) (state : σ) (rows : List α) : Prop :=
  ∃ fuel, passed advance fuel state = some rows

/-- The machine comes from one state to the other and passes these rows on the way. -/
inductive Emits (advance : σ → Advance σ α) : σ → List α → σ → Prop
  | refl (state : σ) : Emits advance state [] state
  | go {state next last : σ} {rows : List α} (hgo : advance state = .go next)
      (hrest : Emits advance next rows last) : Emits advance state rows last
  | pass {state next last : σ} {row : α} {rows : List α} (hpass : advance state = .pass row next)
      (hrest : Emits advance next rows last) : Emits advance state (row :: rows) last

variable {advance : σ → Advance σ α} {state middle last : σ} {rows more : List α}

theorem Emits.trans (hfirst : Emits advance state rows middle)
    (hsecond : Emits advance middle more last) : Emits advance state (rows ++ more) last := by
  induction hfirst with
  | refl => exact hsecond
  | go hgo _ ih => exact .go hgo (ih hsecond)
  | pass hpass _ ih => exact .pass hpass (ih hsecond)

theorem Passes.stop (hstop : advance state = .stop) : Passes advance state [] :=
  ⟨1, by simp only [passed, hstop]⟩

theorem Passes.go (hgo : advance state = .go middle) (hrest : Passes advance middle rows) :
    Passes advance state rows := by
  obtain ⟨fuel, hfuel⟩ := hrest
  exact ⟨fuel + 1, by simp only [passed, hgo, hfuel]⟩

theorem Passes.pass {row : α} (hpass : advance state = .pass row middle)
    (hrest : Passes advance middle rows) : Passes advance state (row :: rows) := by
  obtain ⟨fuel, hfuel⟩ := hrest
  exact ⟨fuel + 1, by simp only [passed, hpass, hfuel, Option.map_some]⟩

theorem Emits.passes (hemits : Emits advance state rows middle)
    (hrest : Passes advance middle more) : Passes advance state (rows ++ more) := by
  induction hemits with
  | refl => exact hrest
  | go hgo _ ih => exact (ih hrest).go hgo
  | pass hpass _ ih => exact (ih hrest).pass hpass

theorem passed_succ {fuel : Nat} (hpassed : passed advance fuel state = some rows) :
    passed advance (fuel + 1) state = some rows := by
  induction fuel generalizing state rows with
  | zero => exact absurd hpassed (by simp [passed])
  | succ fuel ih =>
      rw [passed] at hpassed ⊢
      cases hadvance : advance state with
      | stop => simpa only [hadvance] using hpassed
      | go next =>
          simp only [hadvance] at hpassed ⊢
          exact ih hpassed
      | pass row next =>
          simp only [hadvance, Option.map_eq_some_iff] at hpassed ⊢
          obtain ⟨rest, hrest, rfl⟩ := hpassed
          exact ⟨rest, ih hrest, rfl⟩

theorem passed_mono {fuel enough : Nat} (hle : fuel ≤ enough)
    (hpassed : passed advance fuel state = some rows) :
    passed advance enough state = some rows := by
  induction hle with
  | refl => exact hpassed
  | step _ ih => exact passed_succ ih

theorem Passes.unique (hfirst : Passes advance state rows)
    (hsecond : Passes advance state more) : rows = more := by
  obtain ⟨fuel, hfuel⟩ := hfirst
  obtain ⟨other, hother⟩ := hsecond
  have hrows := passed_mono (Nat.le_max_left fuel other) hfuel
  have hmore := passed_mono (Nat.le_max_right fuel other) hother
  exact Option.some.inj (hrows.symm.trans hmore)

/-- The rule for a loop over a list: one turn of the loop passes the rows of one element. -/
theorem Emits.loop {ι : Type*} {inv : List ι → σ → Prop} {emitted : ι → List α}
    (hturn : ∀ head tail state, inv (head :: tail) state →
      ∃ next, inv tail next ∧ Emits advance state (emitted head) next) :
    ∀ list state, inv list state →
      ∃ next, inv [] next ∧ Emits advance state (list.flatMap emitted) next := by
  intro list
  induction list with
  | nil => exact fun state hinv => ⟨state, hinv, .refl state⟩
  | cons head tail ih =>
      intro state hinv
      obtain ⟨middle, hmiddle, hhead⟩ := hturn head tail state hinv
      obtain ⟨last, hlast, htail⟩ := ih middle hmiddle
      exact ⟨last, hlast, hhead.trans htail⟩

end Stepping

namespace Programs

/-! Programs that change a state, and relations between the states before and after them. -/

variable {σ α β : Type}

/-- The state after the program is related to that before it. -/
structure Keeps (r : σ → σ → Prop) (program : StateM σ α) : Prop where
  related : ∀ s, r s (program s).2

variable {r : σ → σ → Prop} {program : StateM σ α}

theorem keeps_pure [Std.Refl r] (a : α) : Keeps r (pure a : StateM σ α) :=
  ⟨fun s => refl_of r s⟩

theorem keeps_get [Std.Refl r] : Keeps r (get : StateM σ σ) := ⟨fun s => refl_of r s⟩

theorem keeps_modify {f : σ → σ} (h : ∀ s, r s (f s)) :
    Keeps r (modify f : StateM σ PUnit) := ⟨h⟩

theorem keeps_bind [IsTrans σ r] {next : α → StateM σ β} (hprogram : Keeps r program)
    (hnext : ∀ a, Keeps r (next a)) : Keeps r (program >>= next) :=
  ⟨fun s => trans_of r (hprogram.related s) ((hnext (program s).1).related (program s).2)⟩

theorem keeps_ite {p : Prop} [Decidable p] {other : StateM σ α} (hprogram : Keeps r program)
    (hother : Keeps r other) : Keeps r (if p then program else other) := by
  split
  · exact hprogram
  · exact hother

end Programs
