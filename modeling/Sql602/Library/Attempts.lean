import Mathlib.Data.List.Basic
import Mathlib.Tactic.Tauto

namespace Attempts

/-! Functions made of steps that can fail, which return TRUE or FALSE. -/

/-- A step, and what follows from its failure. -/
inductive Attempt (σ : Type) where
  | sure (step : σ)
  | orReturn (value : Bool) (step : σ)
  | orIgnore (step : σ)

/-- The steps that were tried, with their success, and the value of an early return. -/
structure Progress (σ : Type) where
  log : List (σ × Bool)
  returned : Option Bool

variable {σ : Type}

namespace Attempt

def step : Attempt σ → σ
  | sure step => step
  | orReturn _ step => step
  | orIgnore step => step

def succeeds (outcome : σ → Bool) : Attempt σ → Bool
  | sure _ => true
  | orReturn _ step => outcome step
  | orIgnore step => outcome step

/-- The failure is an error of the function. -/
def strict : Attempt σ → Bool
  | sure _ => true
  | orReturn value _ => value
  | orIgnore _ => false

end Attempt

namespace Progress

/-- A function that does not return early returns FALSE. -/
def result (progress : Progress σ) : Bool := progress.returned.getD false

def clean (progress : Progress σ) : Bool := progress.log.all Prod.snd

def performed (progress : Progress σ) : List σ :=
  (progress.log.filter Prod.snd).map Prod.fst

/-- What is done after the steps of `first`, unless it has returned early. -/
def andThen (first last : Progress σ) : Progress σ :=
  match first.returned with
  | some _ => first
  | none => ⟨first.log ++ last.log, last.returned⟩

/-- Calling a function and returning TRUE when it does. -/
def orFail (inner last : Progress σ) : Progress σ :=
  if inner.result then ⟨inner.log, some true⟩ else ⟨inner.log ++ last.log, last.returned⟩

/-- Calling a function and returning TRUE unless it does. -/
def orFailInverted (inner last : Progress σ) : Progress σ :=
  if inner.result then ⟨inner.log ++ last.log, last.returned⟩ else ⟨inner.log, some true⟩

end Progress

open Progress

def run (outcome : σ → Bool) : List (Attempt σ) → Progress σ
  | [] => ⟨[], none⟩
  | .sure step :: rest => andThen ⟨[(step, true)], none⟩ (run outcome rest)
  | .orReturn value step :: rest =>
      if outcome step then andThen ⟨[(step, true)], none⟩ (run outcome rest)
      else ⟨[(step, false)], some value⟩
  | .orIgnore step :: rest => andThen ⟨[(step, outcome step)], none⟩ (run outcome rest)

def succeed (outcome : σ → Bool) (plan : List (Attempt σ)) : Bool :=
  plan.all (Attempt.succeeds outcome)

variable {outcome : σ → Bool} {plan first last : List (Attempt σ)} {step : σ}

theorem succeed_append : succeed outcome (first ++ last) =
    (succeed outcome first && succeed outcome last) := List.all_append

theorem run_succeed (h : succeed outcome plan = true) :
    run outcome plan = ⟨plan.map fun attempt => (attempt.step, true), none⟩ := by
  induction plan with
  | nil => rfl
  | cons attempt rest ih =>
      rw [succeed, List.all_cons, Bool.and_eq_true] at h
      obtain ⟨hfirst, hrest⟩ := h
      cases attempt with
      | sure step => rw [run, ih hrest]; rfl
      | orReturn value step =>
          have hstep : outcome step = true := hfirst
          rw [run, if_pos hstep, ih hrest]
          rfl
      | orIgnore step =>
          have hstep : outcome step = true := hfirst
          rw [run, hstep, ih hrest]
          rfl

theorem performed_succeed (h : succeed outcome plan = true) :
    (run outcome plan).performed = plan.map Attempt.step := by
  rw [run_succeed h, performed, List.filter_eq_self.mpr]
  · rw [List.map_map]
    rfl
  · intro entry hentry
    obtain ⟨attempt, -, rfl⟩ := List.mem_map.mp hentry
    rfl

/-- A failed step is in the log. -/
theorem clean_run : (run outcome plan).clean = succeed outcome plan := by
  induction plan with
  | nil => rfl
  | cons attempt rest ih =>
      rw [succeed, List.all_cons, ← succeed, ← ih]
      cases attempt with
      | sure step => rfl
      | orIgnore step => rfl
      | orReturn value step =>
          rw [run, Attempt.succeeds]
          cases outcome step <;> rfl

theorem unclean_result (h : (run outcome plan).result = true) :
    (run outcome plan).clean = false := by
  rw [clean_run]
  cases hsucceed : succeed outcome plan with
  | false => rfl
  | true =>
      rw [run_succeed hsucceed] at h
      cases h

theorem run_append : run outcome (first ++ last) =
    (run outcome first).andThen (run outcome last) := by
  induction first with
  | nil => rfl
  | cons attempt rest ih =>
      have hthen : ∀ entry : σ × Bool,
          andThen ⟨[entry], none⟩ ((run outcome rest).andThen (run outcome last)) =
            (andThen ⟨[entry], none⟩ (run outcome rest)).andThen (run outcome last) := by
        intro entry
        obtain ⟨log, returned⟩ := run outcome rest
        cases returned <;> rfl
      cases attempt with
      | sure step => rw [List.cons_append, run, run, ih, hthen]
      | orIgnore step => rw [List.cons_append, run, run, ih, hthen]
      | orReturn value step =>
          rw [List.cons_append, run, run, ih, hthen]
          split <;> rfl

/-- All failures are errors, so that one of them is reported. -/
theorem returned_strict (h : plan.all Attempt.strict = true) :
    (run outcome plan).returned = if succeed outcome plan then none else some true := by
  induction plan with
  | nil => rfl
  | cons attempt rest ih =>
      rw [List.all_cons, Bool.and_eq_true] at h
      obtain ⟨hfirst, hrest⟩ := h
      rw [succeed, List.all_cons, ← succeed]
      cases attempt with
      | sure step => exact ih hrest
      | orIgnore step => cases hfirst
      | orReturn value step =>
          have hvalue : value = true := hfirst
          rw [run, Attempt.succeeds, hvalue]
          cases outcome step with
          | true => exact ih hrest
          | false => rfl

theorem result_strict (h : plan.all Attempt.strict = true) :
    (run outcome plan).result = !succeed outcome plan := by
  rw [result, returned_strict h]
  cases succeed outcome plan <;> rfl

theorem result_append_strict (h : first.all Attempt.strict = true) :
    (run outcome (first ++ last)).result =
      (!succeed outcome first || (run outcome last).result) := by
  rw [run_append, andThen, returned_strict h]
  cases hsucceed : succeed outcome first with
  | true => rfl
  | false =>
      have hresult := @result_strict _ outcome first h
      rw [hsucceed] at hresult
      exact hresult

/-- The failure of one step is not an error. -/
theorem result_slip (h : last.all Attempt.strict = true) :
    (run outcome (.orReturn false step :: last)).result =
      (outcome step && !succeed outcome last) := by
  rw [run]
  cases outcome step with
  | false => rfl
  | true => exact result_strict h

theorem result_ignored (h : last.all Attempt.strict = true) :
    (run outcome (.orIgnore step :: last)).result = !succeed outcome last :=
  result_strict h

/-! Functions whose value says whether they have failed. -/

/-- TRUE says that something was not done, and FALSE that everything was and is `registered`. -/
structure Honest (progress : Progress σ) (stored registered : Prop) : Prop where
  reported : progress.result = true ↔ ¬ (progress.clean = true ∧ stored)
  registered : progress.result = false → registered

variable {progress : Progress σ} {stored registered : Prop}

theorem honest_clean (hclean : progress.clean = true) (hresult : progress.result = false) :
    Honest progress stored registered ↔ stored ∧ registered := by
  constructor
  · rintro ⟨hreported, hregistered⟩
    refine ⟨?_, hregistered hresult⟩
    by_contra hstored
    have h := hreported.mpr fun h => hstored h.2
    rw [hresult] at h
    cases h
  · rintro ⟨hstored, hregistered⟩
    refine ⟨?_, fun _ => hregistered⟩
    rw [hresult]
    exact iff_of_false Bool.false_ne_true (not_not.mpr ⟨hclean, hstored⟩)

theorem honest_unclean (hclean : progress.clean = false) :
    Honest progress stored registered ↔ progress.result = true := by
  have hnot : ¬ (progress.clean = true ∧ stored) := by
    rw [hclean]
    exact fun h => Bool.false_ne_true h.1
  constructor
  · intro h
    exact h.reported.mpr hnot
  · intro h
    refine ⟨iff_of_true h hnot, fun hresult => ?_⟩
    rw [h] at hresult
    cases hresult

section Plans

theorem honest_succeed (hgood : succeed outcome plan = true → stored ∧ registered)
    (h : succeed outcome plan = true) : Honest (run outcome plan) stored registered := by
  rw [honest_clean (clean_run.trans h)]
  · exact hgood h
  · rw [run_succeed h]
    rfl

theorem honest_strict (hstrict : plan.all Attempt.strict = true) :
    Honest (run outcome plan) stored registered ↔
      (succeed outcome plan = true → stored ∧ registered) := by
  cases h : succeed outcome plan with
  | true =>
      rw [honest_clean (clean_run.trans h) (by rw [run_succeed h]; rfl)]
      exact ⟨fun h _ => h, fun h => h rfl⟩
  | false =>
      rw [honest_unclean (clean_run.trans h), result_strict hstrict, h]
      exact iff_of_true rfl fun hsucceed => (by cases hsucceed)

/-- The failure of the step is not reported. -/
theorem honest_slip (hfirst : first.all Attempt.strict = true)
    (hlast : last.all Attempt.strict = true)
    (hgood : succeed outcome (first ++ .orReturn false step :: last) = true →
      stored ∧ registered) :
    Honest (run outcome (first ++ .orReturn false step :: last)) stored registered ↔
      (succeed outcome first = true → outcome step = true) := by
  have hparts : succeed outcome (first ++ .orReturn false step :: last) =
      (succeed outcome first && (outcome step && succeed outcome last)) := succeed_append
  cases h : succeed outcome (first ++ .orReturn false step :: last) with
  | true =>
      apply iff_of_true (honest_succeed hgood h)
      rw [hparts, Bool.and_eq_true, Bool.and_eq_true] at h
      exact fun _ => h.2.1
  | false =>
      rw [honest_unclean (clean_run.trans h), result_append_strict hfirst, result_slip hlast]
      rw [hparts] at h
      revert h
      cases succeed outcome first <;> cases outcome step <;> cases succeed outcome last <;> decide

/-- The failure of the step is ignored. -/
theorem honest_ignored (hfirst : first.all Attempt.strict = true)
    (hlast : last.all Attempt.strict = true)
    (hgood : succeed outcome (first ++ .orIgnore step :: last) = true → stored ∧ registered) :
    Honest (run outcome (first ++ .orIgnore step :: last)) stored registered ↔
      (succeed outcome first = true → succeed outcome last = true → outcome step = true) := by
  have hparts : succeed outcome (first ++ .orIgnore step :: last) =
      (succeed outcome first && (outcome step && succeed outcome last)) := succeed_append
  cases h : succeed outcome (first ++ .orIgnore step :: last) with
  | true =>
      apply iff_of_true (honest_succeed hgood h)
      rw [hparts, Bool.and_eq_true, Bool.and_eq_true] at h
      exact fun _ _ => h.2.1
  | false =>
      rw [honest_unclean (clean_run.trans h), result_append_strict hfirst, result_ignored hlast]
      rw [hparts] at h
      revert h
      cases succeed outcome first <;> cases outcome step <;> cases succeed outcome last <;> decide

end Plans

section Calls

variable {inner : Progress σ}

theorem clean_orFail (hinner : inner.result = false) :
    (inner.orFail progress).clean = (inner.clean && progress.clean) := by
  rw [orFail, hinner, if_neg Bool.false_ne_true]
  exact List.all_append

theorem orFail_succeed (h : succeed outcome first = true) :
    (run outcome first).orFail (run outcome last) = run outcome (first ++ last) := by
  rw [run_append, run_succeed h]
  rfl

/-- Nothing follows a called function that has succeeded. -/
theorem performed_orFailInverted (hinner : inner.result = false) :
    (inner.orFailInverted progress).performed = inner.performed := by
  rw [orFailInverted, hinner, if_neg Bool.false_ne_true]
  rfl

/-- What follows the called function reports its failures, but not those of the called one
that are not reported to it. -/
theorem honest_orFail (hreported : inner.result = true → inner.clean = false)
    (hrest : progress.result = !progress.clean)
    (hgood : inner.clean = true → progress.clean = true → stored ∧ registered) :
    Honest (inner.orFail progress) stored registered ↔
      (inner.result = false → inner.clean = false → progress.clean = false) := by
  cases hinner : inner.result with
  | true =>
      have hclean : (inner.orFail progress).clean = false := by
        rw [orFail, hinner, if_pos rfl]
        exact hreported hinner
      rw [honest_unclean hclean, orFail, hinner, if_pos rfl]
      exact iff_of_true rfl fun h => (by cases h)
  | false =>
      have hclean := @clean_orFail _ progress inner hinner
      have hresult : (inner.orFail progress).result = progress.result := by
        rw [orFail, hinner, if_neg Bool.false_ne_true]
        rfl
      cases hboth : inner.clean && progress.clean with
      | true =>
          rw [Bool.and_eq_true] at hboth
          rw [honest_clean (by rw [hclean, hboth.1, hboth.2]; rfl)
            (by rw [hresult, hrest, hboth.2]; rfl)]
          apply iff_of_true (hgood hboth.1 hboth.2)
          intro _ h
          rw [hboth.1] at h
          cases h
      | false =>
          rw [honest_unclean (hclean.trans hboth), hresult, hrest]
          revert hboth
          cases inner.clean <;> cases progress.clean <;> decide

/-- Where the called function has succeeded the caller says that it has not. -/
theorem honest_orFailInverted (hinner : inner.result = !inner.clean)
    (hrest : progress.result = !progress.clean) :
    Honest (inner.orFailInverted progress) stored registered ↔
      if inner.clean = true then ¬ stored else progress.clean = false := by
  cases hclean : inner.clean with
  | true =>
      have hlog : inner.orFailInverted progress = ⟨inner.log, some true⟩ := by
        rw [orFailInverted, hinner, hclean]
        rfl
      rw [hlog, if_pos rfl]
      constructor
      · intro h hstored
        exact h.reported.mp rfl ⟨hclean, hstored⟩
      · intro h
        exact ⟨iff_of_true rfl fun hdone => h hdone.2, fun hresult => (by cases hresult)⟩
  | false =>
      have hlog : inner.orFailInverted progress =
          ⟨inner.log ++ progress.log, progress.returned⟩ := by
        rw [orFailInverted, hinner, hclean]
        rfl
      have hunclean : (inner.orFailInverted progress).clean = false := by
        have hall : (inner.orFailInverted progress).clean = (inner.clean && progress.clean) := by
          rw [hlog]
          exact List.all_append
        rw [hall, hclean]
        rfl
      rw [honest_unclean hunclean, hlog, if_neg Bool.false_ne_true]
      change progress.result = true ↔ _
      rw [hrest]
      cases progress.clean <;> decide

end Calls

end Attempts
