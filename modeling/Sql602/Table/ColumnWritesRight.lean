import Sql602.Table.ColumnWrites

namespace Sql602.ColumnWrites

open Attempts Attempts.Attempt

namespace WriteCall

variable (call : WriteCall) (condition : Bool) (step : WriteStep) (steps : List WriteStep)

@[simp] theorem steps_need : (need step).map Attempt.step = [step] := rfl

@[simp] theorem steps_needIf :
    (needIf condition steps).map Attempt.step = if condition then steps else [] := by
  cases condition with
  | true =>
      rw [needIf, if_pos rfl, if_pos rfl, List.map_map]
      exact List.map_id steps
  | false => rfl

@[simp] theorem steps_register :
    call.register.map Attempt.step = [.registerChange call.recnum call.attrib] := rfl

@[simp] theorem steps_journal (modifiers : List Modifier) (data : JournalData) :
    (call.journal modifiers data).map Attempt.step =
      if call.journalled then [.journal (call.entry modifiers data)] else [] := by
  rw [journal]
  split <;> rfl

@[simp] theorem steps_writeBiptr :
    call.writeBiptr.map Attempt.step = if call.linked then [.biptrWrite] else [] := by
  rw [writeBiptr]
  split <;> rfl

@[simp] theorem strict_need : (need step).all Attempt.strict = true := rfl

@[simp] theorem strict_needIf : (needIf condition steps).all Attempt.strict = true := by
  rw [needIf]
  split
  · rw [List.all_map]
    exact List.all_eq_true.mpr fun _ _ => rfl
  · rfl

@[simp] theorem strict_register : call.register.all Attempt.strict = true := rfl

@[simp] theorem strict_journal (modifiers : List Modifier) (data : JournalData) :
    (call.journal modifiers data).all Attempt.strict = true := by
  rw [journal]
  split <;> rfl

@[simp] theorem succeed_needIf (outcome : WriteStep → Bool) :
    succeed outcome (needIf condition [step]) = true ↔ (condition = true → outcome step = true) := by
  cases condition with
  | true => simp [needIf, succeed, Attempt.succeeds]
  | false => simp [needIf, succeed]

end WriteCall

variable {call : WriteCall} {outcome : WriteStep → Bool}

section Registering

theorem registered_tbWriteAtr :
    Registered .tbWriteAtr call (call.tbWriteAtr.map Attempt.step) := by
  have hsteps : call.tbWriteAtr.map Attempt.step = .fixWrite ::
      ((if call.linked then [.biptrWrite] else []) ++
        (if call.indexed then [.lockRoots, .inditemRemove] else []) ++ .storeValue ::
        (if call.hasZcr then [.writingToReplicable true] else []) ++
        (if call.indexed then [.inditemAdd] else []) ++
        .registerChange call.recnum call.attrib ::
        if call.journalled then [.journal (Operation.entry call .tbWriteAtr)] else []) := by
    simp [WriteCall.tbWriteAtr, Attempt.step, Operation.entry]
  rw [hsteps]
  constructor
  · cases call.linked <;> cases call.indexed <;> cases call.hasZcr <;> cases call.journalled <;> rfl
  · rw [Operation.marks]
    · cases call.linked <;> cases call.indexed <;> cases call.hasZcr <;> cases call.journalled <;>
        rfl
    · exact fun h => (by cases h)
  · cases call.linked <;> cases call.indexed <;> cases call.hasZcr <;> cases call.journalled <;> rfl

theorem registered_tbWriteInd :
    Registered .tbWriteInd call ((call.tbWriteIndPure ++ call.registering).map Attempt.step) := by
  have hsteps : (call.tbWriteIndPure ++ call.registering).map Attempt.step =
      (if call.linked then [.readIndNum] else []) ++ .fixWrite ::
        ((if call.linked then [.biptrWrite] else []) ++ .storeValue ::
        (if call.journalled then [.journal (Operation.entry call .tbWriteInd)] else []) ++
        .registerChange call.recnum call.attrib ::
        if call.hasZcr then [.writingToReplicable true] else []) := by
    simp [WriteCall.tbWriteIndPure, WriteCall.registering, Attempt.step, Operation.entry]
  rw [hsteps]
  constructor
  · cases call.linked <;> cases call.hasZcr <;> cases call.journalled <;> rfl
  · rw [Operation.marks]
    · cases call.linked <;> cases call.hasZcr <;> cases call.journalled <;> rfl
    · exact fun h => (by cases h)
  · cases call.linked <;> cases call.hasZcr <;> cases call.journalled <;> rfl

theorem registered_tbWriteIndLen :
    Registered .tbWriteIndLen call (call.tbWriteIndLen.map Attempt.step) := by
  have hsteps : call.tbWriteIndLen.map Attempt.step = .fixWrite ::
      ((if call.shrinks then [.hpShrinkLen, .setLen] else []) ++
        .registerChange call.recnum call.attrib ::
        (if call.journalled then [.journal (Operation.entry call .tbWriteIndLen)] else []) ++
        if call.hasZcr then [.writingToReplicable true] else []) := by
    simp only [WriteCall.tbWriteIndLen]
    cases call.shrinks <;> simp [Attempt.step, Operation.entry]
  rw [hsteps]
  constructor
  · cases call.shrinks <;> cases call.hasZcr <;> cases call.journalled <;> rfl
  · rw [Operation.marks]
    · cases call.shrinks <;> cases call.hasZcr <;> cases call.journalled <;> rfl
    · exact fun h => (by cases h)
  · cases call.shrinks <;> cases call.hasZcr <;> cases call.journalled <;> rfl

theorem steps_tbWriteVar_heap (htype : call.attrtype = .heap) :
    call.tbWriteVar.map Attempt.step = (if call.hasZcr then .fixWrite else .fixRead) ::
      ((if call.grows then (if call.hasZcr then [] else [.fixWrite]) ++ [.setLen]
          else [.recordLock]) ++
        (if call.journalled then [.journal (Operation.entry call .tbWriteVar)] else []) ++
        .hpWrite :: (if Operation.marks call .tbWriteVar then [.writingToReplicable true] else []) ++
        [.registerChange call.recnum call.attrib]) := by
  have hmark : call.properMark = true := by rw [WriteCall.properMark, htype]
  cases hzcr : call.hasZcr <;> cases hgrows : call.grows <;> cases hsystem : call.defOfSystem <;>
    simp [WriteCall.tbWriteVar, htype, hmark, hzcr, hgrows, hsystem, Attempt.step,
      Operation.entry, Operation.marks]

theorem steps_tbWriteVar_extLob (htype : call.attrtype = .extLob) :
    call.tbWriteVar.map Attempt.step = .fixWrite :: .writeExtLob ::
      ((if Operation.marks call .tbWriteVar then [.writingToReplicable call.properMark] else []) ++
        [.registerChange call.recnum call.attrib]) := by
  simp [WriteCall.tbWriteVar, htype, Operation.marks]

/-- A write to a heap column is journalled. -/
theorem registered_tbWriteVar_heap (htype : call.attrtype = .heap) :
    Registered .tbWriteVar call (call.tbWriteVar.map Attempt.step) := by
  rw [steps_tbWriteVar_heap htype]
  constructor
  · cases call.hasZcr <;> cases call.grows <;> cases call.journalled <;>
      cases Operation.marks call .tbWriteVar <;> rfl
  · cases call.hasZcr <;> cases call.grows <;> cases call.journalled <;>
      cases Operation.marks call .tbWriteVar <;> rfl
  · cases call.hasZcr <;> cases call.grows <;> cases call.journalled <;>
      cases Operation.marks call .tbWriteVar <;> rfl

/-- A write to an external large object is not. -/
theorem registered_tbWriteVar_extLob (htype : call.attrtype = .extLob) :
    Registered .tbWriteVar call (call.tbWriteVar.map Attempt.step) ↔
      call.journalled = false ∧
        (Operation.marks call .tbWriteVar = true → call.properMark = true) := by
  rw [steps_tbWriteVar_extLob htype]
  constructor
  · rintro ⟨-, hmark, hjournal⟩
    constructor
    · cases hjournalled : call.journalled with
      | false => rfl
      | true =>
          rw [hjournalled, if_pos rfl] at hjournal
          revert hjournal
          cases Operation.marks call .tbWriteVar <;> exact fun h => (List.cons_ne_nil _ _ h.symm).elim
    · intro hmarks
      rw [hmarks, if_pos rfl, if_pos rfl] at hmark
      exact (List.cons.inj hmark).1
  · rintro ⟨hjournalled, hproper⟩
    constructor
    · cases Operation.marks call .tbWriteVar <;> rfl
    · cases hmarks : Operation.marks call .tbWriteVar with
      | true => rw [hproper hmarks]; rfl
      | false => rfl
    · rw [hjournalled]
      cases Operation.marks call .tbWriteVar <;> rfl

end Registering

theorem honest_tbWriteAtr : ReportsHonestly .tbWriteAtr call outcome ↔
    (call.linked = true → outcome .fixWrite = true → outcome .biptrWrite = true) := by
  have hgood : succeed outcome call.tbWriteAtr = true →
      Operation.Stored call (run outcome call.tbWriteAtr).performed .tbWriteAtr ∧
        Registered .tbWriteAtr call (run outcome call.tbWriteAtr).performed := by
    intro h
    rw [performed_succeed h]
    refine ⟨?_, registered_tbWriteAtr⟩
    simp [Operation.Stored, WriteCall.tbWriteAtr, Attempt.step]
  rw [ReportsHonestly, Operation.perform]
  cases hlinked : call.linked with
  | false =>
      apply iff_of_true ((honest_strict ?_).mpr hgood) fun h => (by cases h)
      simp [WriteCall.tbWriteAtr, WriteCall.writeBiptr, hlinked, Attempt.strict]
  | true =>
      obtain ⟨last, hlast, hplan⟩ : ∃ last : List (Attempt WriteStep),
          last.all Attempt.strict = true ∧
            call.tbWriteAtr = WriteCall.need .fixWrite ++ orReturn false .biptrWrite :: last := by
        refine ⟨_, ?_, by rw [WriteCall.tbWriteAtr, WriteCall.writeBiptr, if_pos hlinked]; rfl⟩
        simp [Attempt.strict]
      rw [hplan] at hgood ⊢
      rw [honest_slip rfl hlast hgood]
      simp [WriteCall.need, succeed, Attempt.succeeds]

theorem reported_registering : (run outcome call.registering).result =
    !(run outcome call.registering).clean := by
  rw [clean_run]
  apply result_strict
  simp [WriteCall.registering]

theorem clean_registering : (run outcome call.registering).clean = true ↔
    (call.hasZcr = true → outcome (.writingToReplicable true) = true) := by
  rw [clean_run, WriteCall.registering, succeed_append, Bool.and_eq_true,
    WriteCall.succeed_needIf]
  exact and_iff_right rfl

theorem honest_tbWriteInd : ReportsHonestly .tbWriteInd call outcome ↔
    (call.linked = true → outcome .readIndNum = true → outcome .fixWrite = true →
      (call.hasZcr = true → outcome (.writingToReplicable true) = true) →
        outcome .biptrWrite = true) := by
  have hgood : (run outcome call.tbWriteIndPure).clean = true →
      (run outcome call.registering).clean = true →
        Operation.Stored call (Operation.perform call outcome .tbWriteInd).performed .tbWriteInd ∧
          Registered .tbWriteInd call (Operation.perform call outcome .tbWriteInd).performed := by
    intro hpure hregistering
    rw [clean_run] at hpure hregistering
    rw [Operation.perform, orFail_succeed hpure,
      performed_succeed (succeed_append.trans (by rw [hpure, hregistering]; rfl))]
    refine ⟨?_, registered_tbWriteInd⟩
    simp [Operation.Stored, WriteCall.tbWriteIndPure, Attempt.step]
  rw [ReportsHonestly]
  change Honest ((run outcome call.tbWriteIndPure).orFail (run outcome call.registering)) _ _ ↔ _
  rw [honest_orFail unclean_result reported_registering hgood,
    ← clean_registering]
  cases hlinked : call.linked with
  | false =>
      have hresult : (run outcome call.tbWriteIndPure).result =
          !(run outcome call.tbWriteIndPure).clean := by
        rw [clean_run]
        apply result_strict
        simp [WriteCall.tbWriteIndPure, WriteCall.writeBiptr, hlinked, Attempt.strict]
      rw [hresult]
      cases (run outcome call.tbWriteIndPure).clean <;> simp
  | true =>
      obtain ⟨last, hlast, hall, hplan⟩ : ∃ last : List (Attempt WriteStep),
          last.all Attempt.strict = true ∧ succeed outcome last = true ∧
            call.tbWriteIndPure = (WriteCall.needIf true [.readIndNum] ++
              WriteCall.need .fixWrite) ++ orReturn false .biptrWrite :: last := by
        refine ⟨_, ?_, ?_, by
          rw [WriteCall.tbWriteIndPure, WriteCall.writeBiptr, hlinked, if_pos rfl]; rfl⟩
        · simp [Attempt.strict]
        · rw [WriteCall.journal]
          cases call.journalled <;> rfl
      have hfirst : succeed outcome (WriteCall.needIf true [.readIndNum] ++
          WriteCall.need .fixWrite) = (outcome .readIndNum && outcome .fixWrite) := by
        simp [WriteCall.needIf, WriteCall.need, succeed, Attempt.succeeds]
      have hclean : (run outcome call.tbWriteIndPure).clean =
          (outcome .readIndNum && outcome .fixWrite && outcome .biptrWrite) := by
        rw [clean_run, hplan, succeed_append, hfirst, succeed, List.all_cons, ← succeed, hall,
          Bool.and_true]
        rfl
      have hresult : (run outcome call.tbWriteIndPure).result =
          !(outcome .readIndNum && outcome .fixWrite) := by
        rw [hplan, result_append_strict rfl, hfirst, result_slip hlast, hall]
        simp
      rw [hclean, hresult]
      cases outcome .readIndNum <;> cases outcome .fixWrite <;> cases outcome .biptrWrite <;>
        simp

theorem strict_tbWriteVar : call.tbWriteVar.all Attempt.strict = true := by
  cases htype : call.attrtype <;> cases hzcr : call.hasZcr <;> cases hgrows : call.grows <;>
    simp [WriteCall.tbWriteVar, htype, hzcr, hgrows, Attempt.strict]

theorem stored_heap (htype : call.attrtype = .heap) :
    Operation.Stored call (call.tbWriteVar.map Attempt.step) .tbWriteVar ↔
      call.start + call.size < 2 ^ 32 := by
  rw [Operation.Stored, steps_tbWriteVar_heap htype]
  cases call.hasZcr <;> cases call.grows <;> cases call.journalled <;>
    cases Operation.marks call .tbWriteVar <;> simp

theorem stored_extLob (htype : call.attrtype = .extLob) :
    Operation.Stored call (call.tbWriteVar.map Attempt.step) .tbWriteVar := by
  rw [Operation.Stored, steps_tbWriteVar_extLob htype]
  exact Or.inr (List.mem_cons_of_mem _ List.mem_cons_self)

/-- Nothing is written to a column of any other type. -/
theorem not_stored (hheap : call.attrtype ≠ .heap) (hextLob : call.attrtype ≠ .extLob) :
    ¬ Operation.Stored call (call.tbWriteVar.map Attempt.step) .tbWriteVar := by
  have hsteps : call.tbWriteVar.map Attempt.step =
      (if Operation.marks call .tbWriteVar then [.writingToReplicable call.properMark] else []) ++
        [.registerChange call.recnum call.attrib] := by
    cases htype : call.attrtype with
    | heap => exact absurd htype hheap
    | extLob => exact absurd htype hextLob
    | biptr => simp [WriteCall.tbWriteVar, htype, Operation.marks]
    | simple => simp [WriteCall.tbWriteVar, htype, Operation.marks]
  rw [Operation.Stored, hsteps]
  cases Operation.marks call .tbWriteVar <;> simp

/-- What a write to a column of variable size, none of whose steps has failed, must satisfy. -/
def VarRight (call : WriteCall) : ColumnType → Prop
  | .heap => call.start + call.size < 2 ^ 32
  | .extLob => call.journalled = false ∧
      (Operation.marks call .tbWriteVar = true → call.properMark = true)
  | .biptr => False
  | .simple => False

theorem honest_tbWriteVar : ReportsHonestly .tbWriteVar call outcome ↔
    (succeed outcome call.tbWriteVar = true → VarRight call call.attrtype) := by
  rw [ReportsHonestly, Operation.perform, honest_strict strict_tbWriteVar]
  apply forall_congr'
  intro hsucceed
  rw [performed_succeed hsucceed]
  cases htype : call.attrtype with
  | heap => rw [stored_heap htype, and_iff_left (registered_tbWriteVar_heap htype)]; rfl
  | extLob => rw [and_iff_right (stored_extLob htype), registered_tbWriteVar_extLob htype]; rfl
  | biptr =>
      refine iff_of_false (fun h => not_stored ?_ ?_ h.1) id
      · rw [htype]; exact fun h => (by cases h)
      · rw [htype]; exact fun h => (by cases h)
  | simple =>
      refine iff_of_false (fun h => not_stored ?_ ?_ h.1) id
      · rw [htype]; exact fun h => (by cases h)
      · rw [htype]; exact fun h => (by cases h)

theorem honest_tbWriteIndVar : ReportsHonestly .tbWriteIndVar call outcome ↔
    if succeed outcome call.tbWriteIndVarPure = true then 2 ^ 32 ≤ call.start + call.size
    else call.hasZcr = true ∧ outcome (.writingToReplicable true) = false := by
  have hreported : (run outcome call.tbWriteIndVarPure).result =
      !(run outcome call.tbWriteIndVarPure).clean := by
    rw [clean_run]
    apply result_strict
    cases hgrows : call.grows <;> simp [WriteCall.tbWriteIndVarPure, hgrows, Attempt.strict]
  rw [ReportsHonestly, Operation.perform, honest_orFailInverted hreported reported_registering]
  have hmark := not_congr (@clean_registering call outcome)
  rw [Bool.not_eq_true, Classical.not_imp, Bool.not_eq_true] at hmark
  rw [hmark, clean_run]
  split
  · rename_i hsucceed
    have hresult : (run outcome call.tbWriteIndVarPure).result = false := by
      rw [hreported, clean_run, hsucceed]
      rfl
    have hwritten : .hpWrite ∈ call.tbWriteIndVarPure.map Attempt.step := by
      simp [WriteCall.tbWriteIndVarPure]
    rw [performed_orFailInverted hresult, performed_succeed hsucceed, Operation.Stored,
      and_iff_right hwritten, Nat.not_lt]
  · rfl

theorem honest_tbWriteIndLen : ReportsHonestly .tbWriteIndLen call outcome ↔
    (outcome .fixWrite = true → call.shrinks = true →
      (call.hasZcr = true → outcome (.writingToReplicable true) = true) →
        outcome .hpShrinkLen = true) := by
  have hgood : succeed outcome call.tbWriteIndLen = true →
      Operation.Stored call (run outcome call.tbWriteIndLen).performed .tbWriteIndLen ∧
        Registered .tbWriteIndLen call (run outcome call.tbWriteIndLen).performed := by
    intro h
    rw [performed_succeed h]
    refine ⟨?_, registered_tbWriteIndLen⟩
    intro hshrinks
    simp [WriteCall.tbWriteIndLen, hshrinks, Attempt.step]
  rw [ReportsHonestly, Operation.perform]
  cases hshrinks : call.shrinks with
  | false =>
      apply iff_of_true ((honest_strict ?_).mpr hgood) fun _ h => (by cases h)
      simp [WriteCall.tbWriteIndLen, hshrinks]
  | true =>
      obtain ⟨last, hlast, hmark, hplan⟩ : ∃ last : List (Attempt WriteStep),
          last.all Attempt.strict = true ∧
          (succeed outcome last = true ↔
            (call.hasZcr = true → outcome (.writingToReplicable true) = true)) ∧
          call.tbWriteIndLen = WriteCall.need .fixWrite ++ orIgnore .hpShrinkLen :: last := by
        refine ⟨sure .setLen :: (call.register ++
            call.journal [.ind call.index, .len, .stop] (.length call.len) ++
            WriteCall.needIf call.hasZcr [.writingToReplicable true]), ?_, ?_,
          by rw [WriteCall.tbWriteIndLen, if_pos hshrinks]; rfl⟩
        · simp [Attempt.strict]
        · rw [← WriteCall.succeed_needIf, WriteCall.journal]
          cases call.journalled <;> rfl
      rw [hplan] at hgood ⊢
      rw [honest_ignored rfl hlast hgood, hmark]
      simp [WriteCall.need, succeed, Attempt.succeeds]

/-- No inner step fails whose failure is not reported, and the written part does not wrap. -/
def RightWhen (call : WriteCall) (outcome : WriteStep → Bool) : Operation → Prop
  | .tbWriteAtr =>
      call.linked = true → outcome .fixWrite = true → outcome .biptrWrite = true
  | .tbWriteInd =>
      call.linked = true → outcome .readIndNum = true → outcome .fixWrite = true →
        (call.hasZcr = true → outcome (.writingToReplicable true) = true) →
          outcome .biptrWrite = true
  | .tbWriteVar => succeed outcome call.tbWriteVar = true → VarRight call call.attrtype
  | .tbWriteIndVar =>
      if succeed outcome call.tbWriteIndVarPure = true then 2 ^ 32 ≤ call.start + call.size
      else call.hasZcr = true ∧ outcome (.writingToReplicable true) = false
  | .tbWriteIndLen =>
      outcome .fixWrite = true → call.shrinks = true →
        (call.hasZcr = true → outcome (.writingToReplicable true) = true) →
          outcome .hpShrinkLen = true

theorem reportsHonestly_right (op : Operation) (call : WriteCall) (outcome : WriteStep → Bool) :
    ReportsHonestly op call outcome ↔ RightWhen call outcome op := by
  cases op with
  | tbWriteAtr => exact honest_tbWriteAtr
  | tbWriteInd => exact honest_tbWriteInd
  | tbWriteVar => exact honest_tbWriteVar
  | tbWriteIndVar => exact honest_tbWriteIndVar
  | tbWriteIndLen => exact honest_tbWriteIndLen

/-- Three bytes into an element of a multiattribute. -/
def elementWrite : WriteCall where
  tbnum := 5
  recnum := 7
  attrib := 2
  index := 0
  start := 0
  size := 3
  len := 0
  data := [1, 2, 3]
  attrtype := .heap
  onFirstPage := true
  isInIndex := false
  hasZcr := true
  noJourTable := false
  noJourFlag := false
  writeJournal := true
  biStop := false
  replaying := false
  biTablesFail := false
  notDeleted := true
  defOfSystem := false
  undefinedPointer := false
  oldLen := 0
  oldLen_lt := by decide

/-- All of its steps succeed, and it returns TRUE. -/
theorem not_forall_reportsHonestly : ¬ ∀ op call outcome, ReportsHonestly op call outcome := by
  intro h
  have hright := honest_tbWriteIndVar.mp (h .tbWriteIndVar elementWrite fun _ => true)
  revert hright
  decide

end Sql602.ColumnWrites
