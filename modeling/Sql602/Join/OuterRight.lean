import Sql602.Join.OuterPassing

namespace Sql602.Join

open Stepping

variable {ρ κ : Type}

/-! The passed rows of an outer join against its meaning. -/

namespace OuterJoin

variable {oj : OuterJoin ρ κ} {first second : Nat}

def parts (oj : OuterJoin ρ κ) : List (Express ρ) := oj.joinCond.toList.flatMap Express.parts

/-- The local condition for a row of the leaf `first` and a row of the other leaf. -/
def onOf (oj : OuterJoin ρ κ) (first : Nat) (row other : ρ) : Bool :=
  if first = 0 then oj.onTrue row other else oj.onTrue other row

theorem onOf_iff (htwo : TwoLeaves first second) {row other : ρ} :
    oj.onOf first row other = true ↔
      ∀ ex ∈ oj.parts, ex.isTrue (rowsAt (oriented first (some row) (some other))) = true := by
  have hon : oj.onOf first row other =
      oj.joinCond.all (Express.isTrue (rowsAt (oriented first (some row) (some other)))) := by
    rcases htwo with ⟨rfl, rfl⟩ | ⟨rfl, rfl⟩ <;> rfl
  rw [hon, parts]
  cases oj.joinCond with
  | none => simp
  | some cond =>
      rw [Option.all_some, ← Express.all_parts, List.all_eq_true]
      simp only [Option.toList_some, List.flatMap_singleton]

/-- The parts of the local condition that refer to one leaf only hold for its row. -/
def alone (oj : OuterJoin ρ κ) (first : Nat) (row : ρ) : Bool :=
  (oj.parts.filter fun ex => ex.refs ⊆ {first}).all
    (Express.isTrue (rowsAt (oriented first (some row) none)))

def matched (oj : OuterJoin ρ κ) (first second : Nat) (row : ρ) : Bool :=
  (oj.leave second).rows.any (oj.onOf first row)

theorem onOf_swap (htwo : TwoLeaves first second) (row other : ρ) :
    oj.onOf second other row = oj.onOf first row other := by
  rcases htwo with ⟨rfl, rfl⟩ | ⟨rfl, rfl⟩ <;> rfl

/-! What the steps accept. -/

section Accepts

variable (hcovered : ∀ ex ∈ oj.allConds, ex.Covered false) (htwo : TwoLeaves first second)
  {row other : ρ}

include htwo in
theorem accepts_iff :
    (oj.acceptsFirst first row = true ∧ oj.acceptsSecond first row other = true) ↔
      ∀ ex ∈ oj.conds, ex.isTrue (rowsAt (oriented first (some row) (some other))) = true := by
  simp only [acceptsFirst, acceptsSecond, List.all_eq_true, List.mem_filter, decide_eq_true_eq]
  constructor
  · rintro ⟨hfirst, hsecond⟩ ex hex
    by_cases hrefs : ex.refs ⊆ {first}
    · rw [isTrue_first htwo hrefs _ none]
      exact hfirst ex ⟨hex, hrefs⟩
    · exact hsecond ex ⟨hex, hrefs⟩
  · intro hall
    constructor
    · rintro ex ⟨hex, hrefs⟩
      rw [isTrue_first htwo hrefs _ (some other)]
      exact hall ex hex
    · rintro ex ⟨hex, _⟩
      exact hall ex hex

theorem conds_iff {p : Position ρ} :
    (∀ ex ∈ oj.conds, ex.isTrue p = true) ↔
      (∀ ex ∈ oj.parts, ex.isTrue p = true) ∧
        ∀ ex ∈ oj.inheritedConds, oj.disabled ex = false → ex.isTrue p = true := by
  simp only [mem_conds, parts]
  constructor
  · intro hall
    exact ⟨fun ex hex => hall ex (.inl hex), fun ex hex hdisabled => hall ex (.inr ⟨hex, hdisabled⟩)⟩
  · rintro ⟨hparts, hinherited⟩ ex (hex | ⟨hex, hdisabled⟩)
    · exact hparts ex hex
    · exact hinherited ex hex hdisabled

/-- A pair is passed when it meets the local condition and all the inherited ones. -/
theorem pair_iff (htwo : TwoLeaves first second) :
    (oj.acceptsFirst first row = true ∧ oj.acceptsSecond first row other = true ∧
        oj.passesOuter (oriented first (some row) (some other)) = true) ↔
      oj.onOf first row other = true ∧
        oj.inheritedTrue (oriented first (some row) (some other)) = true := by
  rw [← and_assoc, accepts_iff htwo, conds_iff, onOf_iff htwo]
  constructor
  · rintro ⟨⟨hparts, hinherited⟩, houter⟩
    rw [passesOuter, satisfied_eq hinherited] at houter
    exact ⟨hparts, houter⟩
  · rintro ⟨hparts, hinherited⟩
    have hall := inheritedTrue_iff.mp hinherited
    refine ⟨⟨hparts, fun ex hex _ => hall ex hex⟩, ?_⟩
    rw [passesOuter, satisfied_eq fun ex hex _ => hall ex hex]
    exact hinherited

include hcovered htwo

theorem not_disabled_first (hpreserves : oj.preserves first = true) {ex : Express ρ}
    (hex : ex ∈ oj.inheritedConds) (hdisabled : oj.disabled ex = false) : ex.refs ⊆ {first} := by
  have hmem := second_mem_disablingMap htwo hpreserves
  have hrefs := inherited_refs hex
  rw [htwo.pair_eq] at hrefs
  exact refs_of_not_disabled (hcovered ex (List.mem_append_right _ hex)) hrefs hdisabled hmem

/-- The first step on a preserved leaf: it applies the parts of the local condition too. -/
theorem acceptsFirst_iff (hpreserves : oj.preserves first = true) (b : Option ρ) :
    oj.acceptsFirst first row = true ↔ oj.alone first row = true ∧
      ∀ ex ∈ oj.inheritedConds, oj.disabled ex = false →
        ex.isTrue (rowsAt (oriented first (some row) b)) = true := by
  simp only [acceptsFirst, alone, List.all_eq_true, List.mem_filter, decide_eq_true_eq, mem_conds]
  constructor
  · intro hall
    refine ⟨fun ex hex => hall ex ⟨.inl hex.1, hex.2⟩, fun ex hex hdisabled => ?_⟩
    have hrefs := not_disabled_first hcovered htwo hpreserves hex hdisabled
    rw [isTrue_first htwo hrefs b none]
    exact hall ex ⟨.inr ⟨hex, hdisabled⟩, hrefs⟩
  · rintro ⟨halone, hinherited⟩ ex ⟨hex | ⟨hex, hdisabled⟩, hrefs⟩
    · exact halone ex ⟨hex, hrefs⟩
    · rw [isTrue_first htwo hrefs none b]
      exact hinherited ex hex hdisabled

theorem acceptsSecond_iff (hpreserves : oj.preserves first = true)
    (haccepts : oj.acceptsFirst first row = true) :
    oj.acceptsSecond first row other = true ↔ oj.onOf first row other = true := by
  have hinherited := ((acceptsFirst_iff hcovered htwo hpreserves (some other)).mp haccepts).2
  have hboth := @accepts_iff ρ κ oj first second htwo row other
  rw [conds_iff, ← onOf_iff htwo] at hboth
  constructor
  · intro hsecond
    exact (hboth.mp ⟨haccepts, hsecond⟩).1
  · intro hon
    exact (hboth.mpr ⟨hon, hinherited⟩).2

theorem candidates_nil_iff (hpreserves : oj.preserves first = true)
    (haccepts : oj.acceptsFirst first row = true) :
    oj.candidates first second row = [] ↔ oj.matched first second row = false := by
  rw [candidates, List.filter_eq_nil_iff, matched, List.any_eq_false]
  constructor
  · intro hnone other hother hon
    exact hnone other hother ((acceptsSecond_iff hcovered htwo hpreserves haccepts).mpr hon)
  · intro hnone other hother hsecond
    exact hnone other hother ((acceptsSecond_iff hcovered htwo hpreserves haccepts).mp hsecond)

omit hcovered in
theorem pairs_eq (row : ρ) :
    (if oj.acceptsFirst first row = true then
      ((oj.candidates first second row).map fun other =>
        oriented first (some row) (some other)).filter oj.passesOuter else []) =
      (((oj.leave second).rows.filter (oj.onOf first row)).map fun other =>
        oriented first (some row) (some other)).filter oj.inheritedTrue := by
  rw [List.filter_map, List.filter_map, candidates, List.filter_filter, List.filter_filter]
  split
  · rename_i haccepts
    congr 1
    apply List.filter_congr
    intro other _
    rw [Bool.eq_iff_iff]
    have hpair := @pair_iff ρ κ oj first second row other htwo
    simp only [haccepts, true_and] at hpair
    simp only [Bool.and_eq_true, Function.comp_apply]
    rw [and_comm, hpair, and_comm]
  · rename_i haccepts
    symm
    rw [List.map_eq_nil_iff, List.filter_eq_nil_iff]
    intro other _ hboth
    simp only [Bool.and_eq_true, Function.comp_apply] at hboth
    exact haccepts (pair_iff htwo |>.mpr hboth.symm).1

/-- A row of a preserved leaf that is in the result of the join without a pair. -/
def extended (oj : OuterJoin ρ κ) (first second : Nat) (row : ρ) : Bool :=
  oj.preserves first && !oj.matched first second row &&
    oj.inheritedTrue (oriented first (some row) none)

theorem nulls_eq (row : ρ) :
    (if oj.acceptsFirst first row = true then
      (if oj.preserves first = true ∧ oj.candidates first second row = [] then
        [oriented first (some row) none] else []).filter oj.passesOuter else []) =
      if (oj.alone first row && oj.extended first second row) = true then
        [oriented first (some row) none] else [] := by
  cases hpreserves : oj.preserves first with
  | false => simp [extended, hpreserves]
  | true =>
      have hiff := @acceptsFirst_iff ρ κ oj first second hcovered htwo row hpreserves none
      by_cases haccepts : oj.acceptsFirst first row = true
      · obtain ⟨halone, hinherited⟩ := hiff.mp haccepts
        have houter : oj.passesOuter (oriented first (some row) none) =
            oj.inheritedTrue (oriented first (some row) none) := satisfied_eq hinherited
        have hnil := candidates_nil_iff hcovered htwo hpreserves haccepts
        rw [if_pos haccepts, extended, hpreserves, halone, Bool.true_and, Bool.true_and]
        cases hmatched : oj.matched first second row with
        | true =>
            rw [if_neg (by rw [hnil, hmatched]; simp)]
            simp
        | false =>
            rw [if_pos ⟨rfl, hnil.mpr hmatched⟩]
            cases hrow : oj.inheritedTrue (oriented first (some row) none) with
            | false => simp [houter, hrow]
            | true => simp [houter, hrow]
      · rw [if_neg haccepts, if_neg]
        intro hboth
        simp only [extended, Bool.and_eq_true] at hboth
        obtain ⟨halone, _, hinherited⟩ := hboth
        exact haccepts (hiff.mpr ⟨halone, fun ex hex _ => inheritedTrue_iff.mp hinherited ex hex⟩)

end Accepts

/-! The rows of the meaning for an order of the leaves. -/

theorem flatMap_filter {α β : Type} {keep : α → Bool} {f : α → List β} (list : List α) :
    (list.filter keep).flatMap f = list.flatMap fun a => if keep a = true then f a else [] := by
  induction list with
  | nil => rfl
  | cons a list ih =>
      rw [List.filter_cons, List.flatMap_cons, ← ih]
      split <;> rfl

theorem flatMap_ite_singleton {α β : Type} {keep : α → Bool} {f : α → β} (list : List α) :
    (list.flatMap fun a => if keep a = true then [f a] else []) = (list.filter keep).map f := by
  induction list with
  | nil => rfl
  | cons a list ih =>
      rw [List.flatMap_cons, List.filter_cons, ih]
      split <;> rfl

def meetingPairs (oj : OuterJoin ρ κ) (first second : Nat) : List (Option ρ × Option ρ) :=
  (oj.leave first).rows.flatMap fun row =>
    (((oj.leave second).rows.filter (oj.onOf first row)).map fun other =>
      oriented first (some row) (some other)).filter oj.inheritedTrue

def extendedRows (oj : OuterJoin ρ κ) (first second : Nat) : List ρ :=
  (oj.leave first).rows.filter (oj.extended first second)

def unmatchedRows (oj : OuterJoin ρ κ) (first second : Nat) : List ρ :=
  (oj.lone first second).filter fun row => !oj.matched second first row

/-- The normal processing passes all the pairs, and of the extended rows those for which the
parts of the local condition that refer to the first leaf only are true. -/
theorem normal_rows (hcovered : ∀ ex ∈ oj.allConds, ex.Covered false)
    (htwo : TwoLeaves first second) :
    (((oj.leave first).rows.filter (oj.acceptsFirst first)).flatMap
        (oj.joinedWith first second) : Multiset (Option ρ × Option ρ)) =
      (oj.meetingPairs first second : Multiset (Option ρ × Option ρ)) +
        (((oj.extendedRows first second).filter (oj.alone first)).map fun row =>
          oriented first (some row) none : List (Option ρ × Option ρ)) := by
  have hrow : ∀ row, (if oj.acceptsFirst first row = true then oj.joinedWith first second row
      else []) =
      (((oj.leave second).rows.filter (oj.onOf first row)).map fun other =>
        oriented first (some row) (some other)).filter oj.inheritedTrue ++
      if (oj.alone first row && oj.extended first second row) = true then
        [oriented first (some row) none] else [] := by
    intro row
    rw [← pairs_eq htwo, ← nulls_eq hcovered htwo, joinedWith, List.filter_append]
    split <;> rfl
  rw [flatMap_filter]
  simp only [hrow]
  rw [← Multiset.coe_bind]
  simp only [← Multiset.coe_add]
  rw [Multiset.bind_add, Multiset.coe_bind, Multiset.coe_bind, flatMap_ite_singleton,
    extendedRows, List.filter_filter]
  rfl

def orient (first : Nat) (row : Option ρ × Option ρ) : Option ρ × Option ρ :=
  oriented first row.1 row.2

/-- The meaning does not depend on the order in which the operands are taken. -/
theorem rows_oriented (htwo : TwoLeaves first second) :
    OuterRows.rows oj.onTrue (oj.preserves 0) (oj.preserves 1)
        (oj.op1.rows : Multiset ρ) (oj.op2.rows : Multiset ρ) =
      (OuterRows.rows (oj.onOf first) (oj.preserves first) (oj.preserves second)
        ((oj.leave first).rows : Multiset ρ) ((oj.leave second).rows : Multiset ρ)).map
          (orient first) := by
  rcases htwo with ⟨rfl, rfl⟩ | ⟨rfl, rfl⟩
  · exact (Multiset.map_id _).symm
  · exact (OuterRows.rows_swap _ _).symm

theorem filter_pairs :
    ((OuterRows.pairs (oj.onOf first) ((oj.leave first).rows : Multiset ρ)
        ((oj.leave second).rows : Multiset ρ)).map (orient first)).filter
          (fun row => oj.inheritedTrue row = true) =
      (oj.meetingPairs first second : Multiset (Option ρ × Option ρ)) := by
  rw [OuterRows.pairs_eq_bind, Multiset.map_bind, Multiset.filter_bind, meetingPairs,
    ← Multiset.coe_bind]
  apply Multiset.bind_congr
  intro row _
  rw [Multiset.map_map]
  simp only [Multiset.filter_coe, Multiset.map_coe, Bool.decide_eq_true]
  rfl

theorem unmatched_rows :
    OuterRows.unmatched (oj.onOf first) ((oj.leave first).rows : Multiset ρ)
        ((oj.leave second).rows : Multiset ρ) =
      ((oj.leave first).rows.filter fun row => !oj.matched first second row : List ρ) := by
  rw [OuterRows.unmatched, Multiset.filter_coe]
  congr 1
  apply List.filter_congr
  intro row _
  rw [Bool.eq_iff_iff, decide_eq_true_eq, Bool.not_eq_true', matched, List.any_eq_false]
  simp only [Multiset.mem_coe, Bool.not_eq_true]

theorem filter_lefts :
    ((OuterRows.lefts (oj.onOf first) (oj.preserves first) ((oj.leave first).rows : Multiset ρ)
        ((oj.leave second).rows : Multiset ρ)).map (orient first)).filter
          (fun row => oj.inheritedTrue row = true) =
      ((oj.extendedRows first second).map fun row => oriented first (some row) none :
        List (Option ρ × Option ρ)) := by
  unfold OuterRows.lefts extendedRows extended
  cases oj.preserves first with
  | false => simp
  | true =>
      rw [if_pos rfl, unmatched_rows, Multiset.map_coe, Multiset.map_coe, Multiset.filter_coe,
        List.map_map, List.filter_map, List.filter_filter]
      simp only [Bool.decide_eq_true, Bool.true_and]
      congr 2
      apply List.filter_congr
      intro row _
      exact Bool.and_comm _ _

theorem filter_rights (htwo : TwoLeaves first second) :
    ((OuterRows.rights (oj.onOf first) (oj.preserves second) ((oj.leave first).rows : Multiset ρ)
        ((oj.leave second).rows : Multiset ρ)).map (orient first)).filter
          (fun row => oj.inheritedTrue row = true) =
      (if oj.preserves second = true then (oj.unmatchedRows first second).map fun row =>
        oriented first none (some row) else [] : List (Option ρ × Option ρ)) := by
  have hflip : flip (oj.onOf first) = oj.onOf second := by
    funext row other
    exact (onOf_swap htwo other row).symm
  unfold OuterRows.rights unmatchedRows lone
  cases oj.preserves second with
  | false => simp
  | true =>
      rw [if_pos rfl, if_pos rfl, hflip, unmatched_rows, Multiset.map_coe, Multiset.map_coe,
        Multiset.filter_coe, List.map_map, List.filter_map, List.filter_filter, List.filter_filter]
      simp only [Bool.decide_eq_true]
      congr 2
      apply List.filter_congr
      intro row _
      exact Bool.and_comm _ _

theorem sqlRows_eq (htwo : TwoLeaves first second) :
    oj.sqlRows = (oj.meetingPairs first second : Multiset (Option ρ × Option ρ)) +
      ((oj.extendedRows first second).map fun row => oriented first (some row) none :
        List (Option ρ × Option ρ)) +
      (if oj.preserves second = true then (oj.unmatchedRows first second).map fun row =>
        oriented first none (some row) else [] : List (Option ρ × Option ρ)) := by
  rw [sqlRows, rows_oriented htwo, OuterRows.rows, Multiset.map_add, Multiset.map_add,
    Multiset.filter_add, Multiset.filter_add, filter_pairs, filter_lefts, filter_rights htwo]

/-! The right post phase. -/

/-- A row of the second operand that is stored: one with a pair for which the inherited
conditions that are not disabled hold. -/
def remembered (oj : OuterJoin ρ κ) (first second : Nat) (row : ρ) : Bool :=
  oj.matched second first row &&
    (oj.inheritedConds.filter fun ex => Disjoint ex.refs oj.disablingMap).all
      (Express.isTrue (rowsAt (oriented first none (some row))))

section Post

variable (hcovered : ∀ ex ∈ oj.allConds, ex.Covered false) (htwo : TwoLeaves first second)
include hcovered htwo

theorem mem_generated (hpreserves : oj.preserves second = true) {row : ρ} :
    row ∈ oj.generated first second ↔
      row ∈ (oj.leave second).rows ∧ oj.remembered first second row = true := by
  have hmem := first_mem_disablingMap htwo hpreserves
  have hsecond : ∀ ex ∈ oj.inheritedConds, oj.disabled ex = false → ex.refs ⊆ {second} := by
    intro ex hex hdisabled
    have hrefs := inherited_refs hex
    rw [htwo.pair_eq, Finset.pair_comm] at hrefs
    exact refs_of_not_disabled (hcovered ex (List.mem_append_right _ hex)) hrefs hdisabled hmem
  have hpushed : ∀ other, (∀ ex ∈ oj.inheritedConds, oj.disabled ex = false →
      ex.isTrue (rowsAt (oriented first (some other) (some row))) = true) ↔
      (oj.inheritedConds.filter fun ex => Disjoint ex.refs oj.disablingMap).all
        (Express.isTrue (rowsAt (oriented first none (some row)))) = true := by
    intro other
    simp only [List.all_eq_true, List.mem_filter, decide_eq_true_eq, and_imp]
    refine forall₂_congr fun ex hex => ?_
    rw [← disabled_eq_false (hcovered ex (List.mem_append_right _ hex))]
    refine forall_congr' fun hdisabled => ?_
    rw [isTrue_second htwo (hsecond ex hex hdisabled) (some other) none]
  simp only [generated, List.mem_flatMap, List.mem_filter, candidates, remembered, matched,
    List.any_eq_true, Bool.and_eq_true]
  constructor
  · rintro ⟨other, ⟨hother, hfirst⟩, hrow, haccepts⟩
    obtain ⟨hon, hinherited⟩ := conds_iff.mp ((accepts_iff htwo).mp ⟨hfirst, haccepts⟩)
    rw [← onOf_iff htwo, ← onOf_swap htwo] at hon
    exact ⟨hrow, ⟨other, hother, hon⟩, (hpushed other).mp hinherited⟩
  · rintro ⟨hrow, ⟨other, hother, hon⟩, hinherited⟩
    rw [onOf_swap htwo] at hon
    obtain ⟨hfirst, haccepts⟩ := (accepts_iff htwo).mpr
      (conds_iff.mpr ⟨(onOf_iff htwo).mp hon, (hpushed other).mpr hinherited⟩)
    exact ⟨other, ⟨hother, hfirst⟩, hrow, haccepts⟩

/-- A row that may be passed in the post phase is stored when it has a pair. -/
theorem lone_generated (hpreserves : oj.preserves second = true) {row : ρ}
    (hrow : row ∈ oj.lone first second) :
    row ∈ oj.generated first second ↔ oj.matched second first row = true := by
  obtain ⟨hrow, hinherited⟩ := List.mem_filter.mp hrow
  have hpushed : (oj.inheritedConds.filter fun ex => Disjoint ex.refs oj.disablingMap).all
      (Express.isTrue (rowsAt (oriented first none (some row)))) = true := by
    rw [List.all_eq_true]
    exact fun ex hex => inheritedTrue_iff.mp hinherited ex (List.mem_of_mem_filter hex)
  rw [mem_generated hcovered htwo hpreserves, remembered, hpushed, Bool.and_true]
  exact and_iff_right hrow

theorem notStored_eq [DecidableEq ρ] [DecidableEq κ] (hpreserves : oj.preserves second = true) :
    oj.notStored first second (oj.generated first second).reverse =
      if (oj.leave second).materialized then
        Distinctor.fresh (oj.leave second).rowkey
          ((oj.generated first second).reverse.map (oj.leave second).rowkey)
          (oj.unmatchedRows first second)
      else oj.unmatchedRows first second := by
  unfold notStored unmatchedRows
  split
  · apply Distinctor.fresh_filter
    intro row hrow hmatched
    rw [Bool.not_eq_false'] at hmatched
    have hgenerated := (lone_generated hcovered htwo hpreserves hrow).mpr hmatched
    exact List.mem_map_of_mem (List.mem_reverse.mpr hgenerated)
  · apply List.filter_congr
    intro row hrow
    have hgenerated := lone_generated hcovered htwo hpreserves hrow
    rw [Bool.eq_iff_iff, decide_eq_true_eq, List.mem_reverse, hgenerated, Bool.not_eq_true',
      Bool.not_eq_true]

theorem notStored_sublist [DecidableEq ρ] [DecidableEq κ]
    (hpreserves : oj.preserves second = true) :
    (oj.notStored first second (oj.generated first second).reverse).Sublist
      (oj.unmatchedRows first second) := by
  rw [notStored_eq hcovered htwo hpreserves]
  split
  · exact Distinctor.fresh_sublist
  · exact List.Sublist.refl _

end Post

/-- No row of the first operand that the result has extended fails a part of the local
condition that refers to this operand only. -/
def FirstKept (oj : OuterJoin ρ κ) (first : Nat) : Prop :=
  oj.preserves first = true → ∀ row ∈ (oj.leave first).rows,
    oj.inheritedTrue (oriented first (some row) none) = true → oj.alone first row = true

/-- The values of the rows of a materialized second operand that the result has extended
differ from each other and from those of the stored rows. -/
def SecondApart (oj : OuterJoin ρ κ) (first second : Nat) : Prop :=
  oj.preserves second = true → (oj.leave second).materialized = true →
    ((oj.unmatchedRows first second).map (oj.leave second).rowkey).Nodup ∧
      ∀ row ∈ oj.unmatchedRows first second, ∀ other ∈ (oj.leave second).rows,
        oj.remembered first second other = true →
          (oj.leave second).rowkey other ≠ (oj.leave second).rowkey row

theorem firstKept_iff (htwo : TwoLeaves first second) :
    (oj.extendedRows first second).filter (oj.alone first) = oj.extendedRows first second ↔
      oj.FirstKept first := by
  rw [List.filter_eq_self]
  constructor
  · intro hall hpreserves row hrow hinherited
    by_contra halone
    have hunmatched : oj.matched first second row = false := by
      rw [matched, List.any_eq_false]
      intro other _ hon
      apply halone
      rw [alone, List.all_eq_true]
      intro ex hex
      obtain ⟨hex, hrefs⟩ := List.mem_filter.mp hex
      rw [isTrue_first htwo (of_decide_eq_true hrefs) none (some other)]
      exact (onOf_iff htwo).mp hon ex hex
    apply halone
    apply hall row
    rw [extendedRows, List.mem_filter, extended, hpreserves, hunmatched, hinherited]
    exact ⟨hrow, rfl⟩
  · intro hkept row hrow
    obtain ⟨hrow, hextended⟩ := List.mem_filter.mp hrow
    simp only [extended, Bool.and_eq_true] at hextended
    exact hkept hextended.1.1 row hrow hextended.2

theorem secondApart_iff [DecidableEq ρ] [DecidableEq κ]
    (hcovered : ∀ ex ∈ oj.allConds, ex.Covered false) (htwo : TwoLeaves first second)
    (hpreserves : oj.preserves second = true) :
    oj.notStored first second (oj.generated first second).reverse =
        oj.unmatchedRows first second ↔ oj.SecondApart first second := by
  rw [notStored_eq hcovered htwo hpreserves]
  cases hmat : (oj.leave second).materialized with
  | false =>
      have hapart : oj.SecondApart first second := by
        intro _ htrue
        rw [hmat] at htrue
        exact absurd htrue (by decide)
      exact iff_of_true rfl hapart
  | true =>
      rw [if_pos rfl, Distinctor.fresh_eq_self_iff]
      simp only [SecondApart, hpreserves, hmat, true_imp_iff, List.mem_map, List.mem_reverse,
        mem_generated hcovered htwo hpreserves, not_exists, not_and, ne_eq, and_imp]

theorem JoinOrder.twoLeaves (hcovered : ∀ ex ∈ oj.allConds, ex.Covered false)
    (horder : JoinOrder 2 (oj.conds.map (classify false)) [first, second]) :
    TwoLeaves first second := by
  apply TwoLeaves.of_perm
  apply Join.JoinOrder.perm _ _ horder
  · rintro c hc
    obtain ⟨ex, hex, rfl⟩ := List.mem_map.mp hc
    exact (hcovered ex (conds_subset hex)).sided
  · rintro c hc
    obtain ⟨ex, hex, rfl⟩ := List.mem_map.mp hc
    exact (classify_maps ex).trans (allConds_refs (conds_subset hex))

/-! All the rows that are passed. -/

section All

variable [DecidableEq ρ] [DecidableEq κ]

theorem passes_all (hcovered : ∀ ex ∈ oj.allConds, ex.Covered false)
    (htwo : TwoLeaves first second) (position : Position ρ) :
    Passes (oj.advance (oj.optimize first second))
      (oj.reset (oj.optimize first second) position)
      (((oj.leave first).rows.filter (oj.acceptsFirst first)).flatMap
          (oj.joinedWith first second) ++
        if oj.preserves second = true then
          (oj.notStored first second (oj.generated first second).reverse).map fun row =>
            oriented first none (some row)
        else []) := by
  obtain ⟨last, ⟨hphase, hpos, hrest, stored, hholds, htotal⟩, hemits⟩ :=
    emits_normal hcovered htwo position
  apply hemits.passes
  rw [List.flatMap_nil, List.append_nil] at htotal
  have hstored : stored = (oj.generated first second).reverse := by
    rw [← htotal, List.reverse_reverse]
  have haccepts : (oj.optimize first second).step1.accepts last.position = oj.acceptsFirst first :=
    funext fun row => step1_accepts hcovered htwo last.position row
  have hright := @rightOuter_eq ρ κ oj first second htwo
  by_cases hpreserves : oj.preserves second = true
  · rw [if_pos hpreserves]
    let post : State ρ κ := { last with
      rightPostPhase := true
      position := Function.update last.position first none
      restRight := (oj.leave second).rows }
    have hadvance : oj.advance (oj.optimize first second) last = .go post := by
      rw [advance, if_neg (by rw [hphase]; decide), if_pos hpos, advanceFirst, haccepts,
        nextRow_none hrest]
      dsimp only
      rw [hright, if_pos hpreserves]
      rfl
    have hnull : post.position first = none := Function.update_self _ _ _
    apply Passes.go hadvance
    unfold notStored
    split
    · rename_i hmat
      have hkeys := passes_keys htwo hmat (oj.lone first second) post rfl hnull rfl
      rwa [show post.rojRowdist = _ from hholds.keys hpreserves hmat, hstored] at hkeys
    · rename_i hmat
      rw [← hstored]
      exact passes_positions htwo (Bool.eq_false_iff.mpr hmat) (oj.lone first second) post rfl
        hnull (hholds.positions hpreserves (Bool.eq_false_iff.mpr hmat)) rfl
  · rw [if_neg hpreserves]
    apply Passes.stop
    rw [advance, if_neg (by rw [hphase]; decide), if_pos hpos, advanceFirst, haccepts,
      nextRow_none hrest]
    dsimp only
    rw [hright, if_neg hpreserves]

theorem map_eq_map_iff {α β : Type} {f : α → β} {some all : List α} (hsub : some.Sublist all) :
    (some.map f : Multiset β) = all.map f ↔ some = all := by
  constructor
  · intro heq
    have hlength := (Multiset.coe_eq_coe.mp heq).length_eq
    rw [List.length_map, List.length_map] at hlength
    exact hsub.eq_of_length hlength
  · rintro rfl
    rfl

theorem map_le_map {α β : Type} {f : α → β} {some all : List α} (hsub : some.Sublist all) :
    (some.map f : Multiset β) ≤ all.map f :=
  Multiset.coe_le.mpr (hsub.map f).subperm

end All

/-! `a LEFT JOIN b ON a = 1 AND a = b`, on tables with one column. -/

/-- A comparison of the column of a leaf with a constant. -/
def constantTest (t : Nat) (test : Nat → Bool) : Relation Nat where
  isRelation := true
  useMap1 := {t}
  tabnum1 := t
  indnum1 := -1
  partnum1 := 0
  useMap2 := ∅
  tabnum2 := -1
  indnum2 := -1
  partnum2 := 0
  isTrue p := (p t).any test
  only1 := .inl (by simp [onlytab])
  only2 := .inr rfl
  reads p q hsame := by rw [hsame t (by simp)]

/-- The columns of two leaves are equal. -/
def columnsEqual (t u : Nat) : Relation Nat where
  isRelation := true
  useMap1 := {t}
  tabnum1 := t
  indnum1 := -1
  partnum1 := 0
  useMap2 := {u}
  tabnum2 := u
  indnum2 := -1
  partnum2 := 0
  isTrue p := (p t).any fun a => (p u).any fun b => a == b
  only1 := .inl (by simp [onlytab])
  only2 := .inl (by simp [onlytab])
  reads p q hsame := by rw [hsame t (by simp), hsame u (by simp)]

def rowsOf (rows : List Nat) (hnodup : rows.Nodup) : Operand Nat Nat where
  rows := rows
  materialized := false
  rowkey := id
  positions _ := hnodup

def joinOn (cond : Express Nat) (hrefs : cond.refs ⊆ {0, 1}) : OuterJoin Nat Nat where
  joinType := .left
  op1 := rowsOf [0, 1] (by decide)
  op2 := rowsOf [1, 2] (by decide)
  joinCond := some cond
  inheritedConds := []
  refs ex hex := by
    rw [List.append_nil, Option.toList_some, List.mem_singleton] at hex
    rwa [hex]

end OuterJoin

end Sql602.Join
