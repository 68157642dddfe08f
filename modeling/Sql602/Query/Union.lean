import Sql602.Btree.Intervals
import Sql602.Query.Distinctor

namespace Sql602.Query

open Btree

/-! The passing of a union without duplicates. -/

variable {ρ α : Type}

section Union

/-- Rows of which all values are null are not put into the index. -/
structure RowDistinctor (α : Type) where
  pages : Pages α Nat
  wasNull : Bool

/-- An operand has the rows that it has still to pass, and what the calls return while a row is
added. -/
structure UnionDist (ρ α : Type) where
  op1 : List (ρ × Circumstances)
  op2 : List (ρ × Circumstances)
  positionForNextRecord : Nat
  rowdist : RowDistinctor α

variable (index : IndexDescr α) (masks : Bool) (root : Nat)

/-- Says if the row is distinct. The result is missing after an error. -/
def addToRowdist (ignoreNullRows : Bool) (circumstances : Circumstances) (value : α)
    (rowdist : RowDistinctor α) : Option (Bool × RowDistinctor α) :=
  if index.isNullKey value = true then
    if ignoreNullRows = true then some (true, rowdist)
    else some (!rowdist.wasNull, { rowdist with wasNull := true })
  else
    (distinctorAdd index masks circumstances root ⟨value, 0⟩ rowdist.pages).map fun result =>
      (result.1, { rowdist with pages := result.2 })

/-- The next distinct record of an operand. -/
def nextDistinct (computeKey : ρ → α) :
    List (ρ × Circumstances) → RowDistinctor α →
      Option (Option ρ × List (ρ × Circumstances) × RowDistinctor α)
  | [], rowdist => some (none, [], rowdist)
  | row :: rows, rowdist =>
      match addToRowdist index masks root false row.2 (computeKey row.1) rowdist with
      | none => none
      | some (true, rowdist) => some (some row.1, rows, rowdist)
      | some (false, rowdist) => nextDistinct computeKey rows rowdist

namespace UnionDist

variable (computeKey : Nat → ρ → α)

def getSecond (union : UnionDist ρ α) : Option (Option ρ × UnionDist ρ α) :=
  (nextDistinct index masks root (computeKey 1) union.op2 union.rowdist).map fun result =>
    (result.1, { union with op2 := result.2.1, rowdist := result.2.2 })

/-- The keys of the two operands are computed in different positions. -/
def getNextRecord (union : UnionDist ρ α) : Option (Option ρ × UnionDist ρ α) :=
  if union.positionForNextRecord = 0 then
    match nextDistinct index masks root (computeKey 0) union.op1 union.rowdist with
    | none => none
    | some (some row, op1, rowdist) =>
        some (some row, { union with op1 := op1, rowdist := rowdist })
    | some (none, op1, rowdist) =>
        getSecond index masks root computeKey
          { union with op1 := op1, positionForNextRecord := 1, rowdist := rowdist }
  else getSecond index masks root computeKey union

/-- What a call returns after some calls before it. -/
def nthRecord : Nat → UnionDist ρ α → Option (Option ρ)
  | 0, union => (getNextRecord index masks root computeKey union).map Prod.fst
  | i + 1, union =>
      (getNextRecord index masks root computeKey union).bind fun result => nthRecord i result.2

end UnionDist

end Union

section Union

variable {index : IndexDescr α} {masks : Bool} {root : Nat} {rowdist next : RowDistinctor α}
  {circumstances : Circumstances} {before : List (ρ × α)} {value : α} {added : Bool}

/-- Rows of nulls only are the same, and other rows are so by their values. -/
def sameRow (index : IndexDescr α) (value other : α) : Bool :=
  if index.isNullKey value then index.isNullKey other
  else !index.isNullKey other && index.cmpValues value other == .eq

/-- The distinctor knows the rows that have come before. -/
structure Seen (index : IndexDescr α) (root : Nat) (rowdist : RowDistinctor α)
    (before : List (ρ × α)) : Prop where
  tree : ∃ owned held, IndexTree index rowdist.pages root owned held ∧
    ∀ value, index.isNullKey value = false →
      held.any (sameValue index value) = before.any fun row => sameRow index value row.2
  nulls : rowdist.wasNull = before.any fun row => index.isNullKey row.2

theorem sameRow_of_not_null {other : α} (hvalue : index.isNullKey value = false)
    (hother : index.isNullKey other = false) :
    sameRow index value other = (index.cmpValues value other == .eq) := by
  rw [sameRow, hvalue, hother]
  rfl

theorem sameRow_trans {first second third : α} (hfirst : sameRow index first second = true)
    (hsecond : sameRow index second third = true) : sameRow index first third = true := by
  have htrans := index.transCmp
  rw [sameRow] at hfirst hsecond ⊢
  cases hnull : index.isNullKey first with
  | true =>
      rw [hnull, if_pos rfl] at hfirst
      rw [hfirst, if_pos rfl] at hsecond
      exact hsecond
  | false =>
      rw [hnull, if_neg Bool.false_ne_true, Bool.and_eq_true, Bool.not_eq_true'] at hfirst
      rw [hfirst.1, if_neg Bool.false_ne_true, Bool.and_eq_true] at hsecond
      rw [if_neg Bool.false_ne_true, Bool.and_eq_true]
      exact ⟨hsecond.1, beq_iff_eq.mpr
        (htrans.eq_trans (beq_iff_eq.mp hfirst.2) (beq_iff_eq.mp hsecond.2))⟩

/-- A row that has been seen changes nothing. -/
theorem any_sameRow_old {row : ρ} (hold : before.any (fun row => sameRow index value row.2) = true)
    (other : α) : ((row, value) :: before).any (fun row => sameRow index other row.2) =
      before.any fun row => sameRow index other row.2 := by
  rw [List.any_cons, Bool.or_eq_right_iff_imp]
  intro hsame
  obtain ⟨first, hfirst, hclass⟩ := List.any_eq_true.mp hold
  exact List.any_eq_true.mpr ⟨first, hfirst, sameRow_trans hsame hclass⟩

theorem addToRowdist_spec (row : ρ) (hseen : Seen index root rowdist before)
    (hdistinct : index.distinct = true) (hnulls : index.hasNulls = true)
    (hsupplies : circumstances.Supplies rowdist.pages root)
    (hadd : addToRowdist index masks root false circumstances value rowdist = some (added, next)) :
    added = !before.any (fun row => sameRow index value row.2) ∧
      Seen index root next ((row, value) :: before) := by
  rw [addToRowdist] at hadd
  split at hadd
  case isTrue hnull =>
    rw [if_neg Bool.false_ne_true] at hadd
    cases hadd
    obtain ⟨owned, held, htree, hheld⟩ := hseen.tree
    refine ⟨?_, ⟨owned, held, htree, fun other hother => ?_⟩, ?_⟩
    · simp only [sameRow, hnull, if_true, hseen.nulls]
    · rw [hheld other hother, List.any_cons]
      simp only [sameRow, hother, hnull, Bool.not_true, Bool.false_and, Bool.false_or,
        Bool.false_eq_true, if_false]
    · rw [List.any_cons, hnull, Bool.true_or]
  case isFalse hnull =>
    rw [Bool.not_eq_true] at hnull
    obtain ⟨owned, held, htree, hheld⟩ := hseen.tree
    obtain ⟨⟨first, pages⟩, hresult, heq⟩ := Option.map_eq_some_iff.mp hadd
    cases heq
    obtain ⟨rfl, owned', held', hnext, hperm⟩ :=
      distinctorAdd_spec htree hdistinct hnulls hsupplies hresult
    rw [hheld value hnull] at hperm ⊢
    refine ⟨rfl, ⟨owned', held', hnext, fun other hother => ?_⟩, ?_⟩
    · rw [hperm.any_eq]
      cases hold : before.any (fun row => sameRow index value row.2) with
      | true =>
          rw [if_pos rfl, hheld other hother, any_sameRow_old hold]
      | false =>
          rw [if_neg Bool.false_ne_true, List.any_cons, List.any_cons, hheld other hother,
            sameRow_of_not_null hother hnull]
          rfl
    · rw [List.any_cons, hnull, Bool.false_or]
      exact hseen.nulls

/-- Whatever pages are allocated for the rows, they are not in use. -/
def Supplied (index : IndexDescr α) (masks : Bool) (root : Nat) :
    List (α × Circumstances) → RowDistinctor α → Prop
  | [], _ => True
  | row :: rows, rowdist => row.2.Supplies rowdist.pages root ∧ ∀ added next,
      addToRowdist index masks root false row.2 row.1 rowdist = some (added, next) →
        Supplied index masks root rows next

def sameClass (index : IndexDescr α) (row other : ρ × α) : Bool := sameRow index row.2 other.2

/-- The rows of an operand with their keys. -/
def keyed (computeKey : ρ → α) (rows : List (ρ × Circumstances)) : List (ρ × α) :=
  rows.map fun row => (row.1, computeKey row.1)

def adding (computeKey : ρ → α) (rows : List (ρ × Circumstances)) : List (α × Circumstances) :=
  rows.map fun row => (computeKey row.1, row.2)

variable {computeKey : ρ → α} {rows rest : List (ρ × Circumstances)} {found : Option ρ}
  {more : List (α × Circumstances)}

/-- The next record is the first that has not been seen. -/
theorem nextDistinct_spec (hdistinct : index.distinct = true) (hnulls : index.hasNulls = true)
    (hseen : Seen index root rowdist before)
    (hsupplied : Supplied index masks root (adding computeKey rows ++ more) rowdist)
    (hnext : nextDistinct index masks root computeKey rows rowdist = some (found, rest, next)) :
    ∃ before' passed, Seen index root next before' ∧
      Supplied index masks root (adding computeKey rest ++ more) next ∧
      passed.map Prod.fst = found.toList ∧ (found = none → rest = []) ∧
      ∀ others, unseen (sameClass index) before (keyed computeKey rows ++ others) =
        passed ++ unseen (sameClass index) before' (keyed computeKey rest ++ others) := by
  induction rows generalizing rowdist before with
  | nil =>
      cases hnext
      exact ⟨before, [], hseen, hsupplied, rfl, fun _ => rfl, fun others => rfl⟩
  | cons row rows ih =>
      obtain ⟨hsupplies, hothers⟩ := hsupplied
      rw [nextDistinct] at hnext
      split at hnext
      case h_1 => cases hnext
      case h_2 result hadd =>
        cases hnext
        obtain ⟨hnew, hlater⟩ :=
          addToRowdist_spec row.1 hseen hdistinct hnulls hsupplies hadd
        refine ⟨_, [(row.1, computeKey row.1)], hlater, hothers true _ hadd, rfl,
          fun h => (by cases h), fun others => ?_⟩
        exact unseen_new (Bool.not_eq_true' _ ▸ hnew.symm)
      case h_3 result hadd =>
        obtain ⟨hold, hlater⟩ :=
          addToRowdist_spec row.1 hseen hdistinct hnulls hsupplies hadd
        have hold : before.any (sameClass index (row.1, computeKey row.1)) = true :=
          Bool.not_eq_false' _ ▸ hold.symm
        obtain ⟨before', passed, hlast, hrest, hpassed, hend, hrows⟩ :=
          ih hlater (hothers false _ hadd) hnext
        refine ⟨before', passed, hlast, hrest, hpassed, hend, fun others => ?_⟩
        rw [← hrows, keyed, List.map_cons, List.cons_append, unseen_old hold]
        exact unseen_congr fun other => (any_sameRow_old hold other.2).symm

namespace UnionDist

variable {computeKey : Nat → ρ → α} {union after : UnionDist ρ α}

/-- The rows that are still to be passed. -/
def remaining (computeKey : Nat → ρ → α) (union : UnionDist ρ α) : List (ρ × α) :=
  (if union.positionForNextRecord = 0 then keyed (computeKey 0) union.op1 else []) ++
    keyed (computeKey 1) union.op2

def remainingAdding (computeKey : Nat → ρ → α) (union : UnionDist ρ α) :
    List (α × Circumstances) :=
  (if union.positionForNextRecord = 0 then adding (computeKey 0) union.op1 else []) ++
    adding (computeKey 1) union.op2

/-- The operator after a record, or at the end. -/
structure Passes (index : IndexDescr α) (masks : Bool) (root : Nat) (computeKey : Nat → ρ → α)
    (rows : List (ρ × α)) (before : List (ρ × α)) (found : Option ρ) (after : UnionDist ρ α) :
    Prop where
  passes : ∃ before' passed, Seen index root after.rowdist before' ∧
    passed.map Prod.fst = found.toList ∧
    unseen (sameClass index) before rows =
      passed ++ unseen (sameClass index) before' (after.remaining computeKey)
  supplied : Supplied index masks root (after.remainingAdding computeKey) after.rowdist
  ends : found = none → after.remaining computeKey = []

section Steps

variable (hdistinct : index.distinct = true) (hnulls : index.hasNulls = true)
  (hseen : Seen index root union.rowdist before)

include hdistinct hnulls hseen

theorem getSecond_spec (hposition : union.positionForNextRecord ≠ 0)
    (hsupplied : Supplied index masks root (adding (computeKey 1) union.op2) union.rowdist)
    (hsecond : getSecond index masks root computeKey union = some (found, after)) :
    Passes index masks root computeKey (keyed (computeKey 1) union.op2) before found after := by
  obtain ⟨⟨found, op2, rowdist⟩, hnext, heq⟩ := Option.map_eq_some_iff.mp hsecond
  cases heq
  rw [← List.append_nil (adding _ _)] at hsupplied
  obtain ⟨before', passed, hlast, hrest, hpassed, hend, hrows⟩ :=
    nextDistinct_spec hdistinct hnulls hseen hsupplied hnext
  rw [List.append_nil] at hrest
  have hremaining : remaining computeKey { union with op2 := op2, rowdist := rowdist } =
      keyed (computeKey 1) op2 := by
    simp only [remaining, if_neg hposition, List.nil_append]
  refine ⟨⟨before', passed, hlast, hpassed, ?_⟩, ?_, fun hnone => ?_⟩
  · have hall := hrows []
    rw [List.append_nil, List.append_nil] at hall
    rw [hremaining, hall]
  · rw [remainingAdding, if_neg hposition, List.nil_append]
    exact hrest
  · rw [hremaining, hend hnone]
    rfl

theorem getNextRecord_spec
    (hsupplied : Supplied index masks root (union.remainingAdding computeKey) union.rowdist)
    (hrecord : getNextRecord index masks root computeKey union = some (found, after)) :
    Passes index masks root computeKey (union.remaining computeKey) before found after := by
  rw [getNextRecord] at hrecord
  rw [remaining]
  rw [remainingAdding] at hsupplied
  split at hrecord
  case isFalse hposition =>
    rw [if_neg hposition, List.nil_append] at hsupplied ⊢
    exact getSecond_spec hdistinct hnulls hseen hposition hsupplied hrecord
  case isTrue hposition =>
    rw [if_pos hposition] at hsupplied ⊢
    cases hnext : nextDistinct index masks root (computeKey 0) union.op1 union.rowdist with
    | none =>
        rw [hnext] at hrecord
        cases hrecord
    | some result =>
        obtain ⟨first, op1, rowdist⟩ := result
        obtain ⟨before', passed, hlast, hrest, hpassed, hend, hrows⟩ :=
          nextDistinct_spec hdistinct hnulls hseen hsupplied hnext
        rw [hnext] at hrecord
        cases first with
        | some row =>
            cases hrecord
            have hremaining : remaining computeKey { union with op1 := op1, rowdist := rowdist } =
                keyed (computeKey 0) op1 ++ keyed (computeKey 1) union.op2 := by
              simp only [remaining, if_pos hposition]
            refine ⟨⟨before', passed, hlast, hpassed, ?_⟩, ?_, fun h => (by cases h)⟩
            · rw [hremaining, hrows]
            · rw [remainingAdding, if_pos hposition]
              exact hrest
        | none =>
            obtain rfl := hend rfl
            obtain rfl := List.map_eq_nil_iff.mp hpassed
            have hseen' : Seen index root ({ union with
                op1 := [], positionForNextRecord := 1, rowdist := rowdist } :
                  UnionDist ρ α).rowdist before' := hlast
            obtain ⟨hpasses, hlater, hends⟩ :=
              getSecond_spec hdistinct hnulls hseen' Nat.one_ne_zero hrest hrecord
            refine ⟨?_, hlater, hends⟩
            rw [hrows]
            exact hpasses

end Steps

theorem nthRecord_spec {i : Nat} (hdistinct : index.distinct = true)
    (hnulls : index.hasNulls = true) (hseen : Seen index root union.rowdist before)
    (hsupplied : Supplied index masks root (union.remainingAdding computeKey) union.rowdist)
    (hrecord : nthRecord index masks root computeKey i union = some found) :
    found = ((unseen (sameClass index) before (union.remaining computeKey)).map Prod.fst)[i]? := by
  induction i generalizing union before with
  | zero =>
      obtain ⟨⟨first, after⟩, hnext, rfl⟩ := Option.map_eq_some_iff.mp hrecord
      obtain ⟨⟨before', passed, -, hpassed, hrows⟩, -, hend⟩ :=
        getNextRecord_spec hdistinct hnulls hseen hsupplied hnext
      rw [hrows, List.map_append, hpassed]
      cases first with
      | some row => rfl
      | none =>
          rw [hend rfl]
          rfl
  | succ i ih =>
      obtain ⟨⟨first, after⟩, hnext, hlater⟩ := Option.bind_eq_some_iff.mp hrecord
      obtain ⟨⟨before', passed, hseen', hpassed, hrows⟩, hsupplied', hend⟩ :=
        getNextRecord_spec hdistinct hnulls hseen hsupplied hnext
      rw [ih hseen' hsupplied' hlater, hrows, List.map_append, hpassed]
      cases first with
      | some row => rfl
      | none =>
          rw [hend rfl]
          rfl

/-- The union has each row once, in the order in which the rows come for the first time. -/
theorem union_right {i : Nat} (hdistinct : index.distinct = true)
    (hnulls : index.hasNulls = true) (hposition : union.positionForNextRecord = 0)
    (hempty : union.rowdist.pages root = some (.leaf [])) (hnull : union.rowdist.wasNull = false)
    (hsupplied : Supplied index masks root
      (adding (computeKey 0) union.op1 ++ adding (computeKey 1) union.op2) union.rowdist)
    (hrecord : nthRecord index masks root computeKey i union = some found) :
    found = (((keyed (computeKey 0) union.op1 ++ keyed (computeKey 1) union.op2).eraseDupsBy
      (sameClass index)).map Prod.fst)[i]? := by
  have hseen : Seen index root union.rowdist ([] : List (ρ × α)) :=
    ⟨⟨[root], [], ⟨⟨0, hempty, rfl, Nat.zero_le _, List.Pairwise.nil,
      fun _ hkey => absurd hkey List.not_mem_nil⟩, List.nodup_singleton root⟩, fun _ _ => rfl⟩,
      hnull⟩
  have hrows : Supplied index masks root (union.remainingAdding computeKey) union.rowdist := by
    rw [remainingAdding, if_pos hposition]
    exact hsupplied
  have hall := nthRecord_spec hdistinct hnulls hseen hrows hrecord
  rw [hall, remaining, if_pos hposition, unseen_nil]

end UnionDist

end Union

/-! A union in which a row of nulls and another row come from both operands. -/

def rowIndex : IndexDescr Nat := { uniqueIndex with isNullKey := fun value => value == 0 }

def fiveRows : UnionDist Nat Nat :=
  ⟨[(0, supplied), (5, supplied)], [(0, supplied), (5, supplied), (3, supplied)], 0,
    ⟨emptyIndex, false⟩⟩

theorem fiveRows_supplied : Supplied rowIndex false 1
    (adding id fiveRows.op1 ++ adding id fiveRows.op2) fiveRows.rowdist := by
  refine ⟨supplied_supplies rfl, fun added next hadd => ?_⟩
  cases hadd
  refine ⟨supplied_supplies rfl, fun added next hadd => ?_⟩
  cases hadd
  refine ⟨supplied_supplies rfl, fun added next hadd => ?_⟩
  cases hadd
  refine ⟨supplied_supplies rfl, fun added next hadd => ?_⟩
  cases hadd
  exact ⟨supplied_supplies rfl, fun _ _ _ => trivial⟩

theorem union_right_fiveRows :
    some 3 = (((keyed id fiveRows.op1 ++ keyed id fiveRows.op2).eraseDupsBy
      (sameClass rowIndex)).map Prod.fst)[2]? := by
  have hrecord : UnionDist.nthRecord rowIndex false 1 (fun _ => id) 2 fiveRows =
      some (some 3) := rfl
  exact UnionDist.union_right rfl rfl rfl rfl rfl fiveRows_supplied hrecord

end Sql602.Query
