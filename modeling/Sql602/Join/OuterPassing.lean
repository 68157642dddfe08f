import Sql602.Join.OuterJoin
import Sql602.Library.OuterRows

namespace Sql602.Join

open Stepping

variable {ρ κ : Type}

/-! The rows that the outer join passes for an order of its leaves. -/

theorem all_congr_mem {α : Type} {f g : α → Bool} {list : List α}
    (hsame : ∀ a ∈ list, f a = g a) : list.all f = list.all g := by
  induction list with
  | nil => rfl
  | cons a list ih =>
      rw [List.all_cons, List.all_cons, hsame a List.mem_cons_self,
        ih fun other hmem => hsame other (List.mem_cons_of_mem _ hmem)]

theorem nextRow_none {accepts : ρ → Bool} {rows : List ρ} (hnone : rows.filter accepts = []) :
    nextRow accepts rows = none := by
  induction rows with
  | nil => rfl
  | cons row rows ih =>
      rw [List.filter_cons] at hnone
      split at hnone
      · exact absurd hnone (by simp)
      · rename_i hrow
        rw [nextRow, if_neg hrow, ih hnone]

theorem nextRow_some {accepts : ρ → Bool} {rows tail : List ρ} {row : ρ}
    (hsome : rows.filter accepts = row :: tail) :
    ∃ rest, nextRow accepts rows = some (row, rest) ∧ rest.filter accepts = tail := by
  induction rows with
  | nil => exact absurd hsome (by simp)
  | cons head rows ih =>
      rw [List.filter_cons] at hsome
      split at hsome
      · rename_i hhead
        obtain ⟨rfl, htail⟩ := List.cons.inj hsome
        exact ⟨rows, by rw [nextRow, if_pos hhead], htail⟩
      · rename_i hhead
        obtain ⟨rest, hnext, htail⟩ := ih hsome
        exact ⟨rest, by rw [nextRow, if_neg hhead, hnext], htail⟩

/-- A row of the join, from the rows of the leaf `first` and of the other leaf. -/
def oriented (first : Nat) (row : Option ρ) (other : Option ρ) : Option ρ × Option ρ :=
  if first = 0 then (row, other) else (other, row)

/-- The two orders of the leaves. -/
def TwoLeaves (first second : Nat) : Prop := (first = 0 ∧ second = 1) ∨ (first = 1 ∧ second = 0)

section Positions

variable {first second : Nat} {ex : Express ρ} {p : Position ρ}

theorem isTrue_rowsAt (hrefs : ex.refs ⊆ {0, 1}) :
    ex.isTrue p = ex.isTrue (rowsAt (p 0, p 1)) := by
  apply Express.isTrue_congr
  intro t ht
  have hleave := hrefs ht
  simp only [Finset.mem_insert, Finset.mem_singleton] at hleave
  rcases hleave with rfl | rfl <;> rfl

theorem oriented_position (htwo : TwoLeaves first second) :
    (p 0, p 1) = oriented first (p first) (p second) := by
  rcases htwo with ⟨rfl, rfl⟩ | ⟨rfl, rfl⟩ <;> rfl

theorem isTrue_oriented (htwo : TwoLeaves first second) (hrefs : ex.refs ⊆ {0, 1}) :
    ex.isTrue p = ex.isTrue (rowsAt (oriented first (p first) (p second))) := by
  rw [isTrue_rowsAt hrefs, oriented_position htwo]

/-- What refers to one leaf only does not depend on the row of the other. -/
theorem isTrue_first (htwo : TwoLeaves first second) (hrefs : ex.refs ⊆ {first}) {a : Option ρ}
    (b c : Option ρ) :
    ex.isTrue (rowsAt (oriented first a b)) = ex.isTrue (rowsAt (oriented first a c)) := by
  apply Express.isTrue_congr
  intro t ht
  rw [Finset.mem_singleton.mp (hrefs ht)]
  rcases htwo with ⟨rfl, rfl⟩ | ⟨rfl, rfl⟩ <;> rfl

theorem isTrue_second (htwo : TwoLeaves first second) (hrefs : ex.refs ⊆ {second})
    {b : Option ρ} (a c : Option ρ) :
    ex.isTrue (rowsAt (oriented first a b)) = ex.isTrue (rowsAt (oriented first c b)) := by
  apply Express.isTrue_congr
  intro t ht
  rw [Finset.mem_singleton.mp (hrefs ht)]
  rcases htwo with ⟨rfl, rfl⟩ | ⟨rfl, rfl⟩ <;> rfl

theorem TwoLeaves.of_perm (hperm : [first, second].Perm (List.range 2)) :
    TwoLeaves first second := by
  have hfirst : first ∈ List.range 2 := hperm.subset (by simp)
  have hsecond : second ∈ List.range 2 := hperm.subset (by simp)
  have hne : first ≠ second := by
    have hnodup := hperm.nodup_iff.mpr List.nodup_range
    simpa using hnodup
  simp only [List.mem_range] at hfirst hsecond
  unfold TwoLeaves
  omega

theorem TwoLeaves.pair_eq (htwo : TwoLeaves first second) :
    ({0, 1} : Finset Nat) = {first, second} := by
  rcases htwo with ⟨rfl, rfl⟩ | ⟨rfl, rfl⟩
  · rfl
  · exact Finset.pair_comm 0 1

theorem TwoLeaves.ne (htwo : TwoLeaves first second) : first ≠ second := by
  rcases htwo with ⟨rfl, rfl⟩ | ⟨rfl, rfl⟩ <;> decide

end Positions

namespace OuterJoin

variable {oj : OuterJoin ρ κ} {first second : Nat}

/-- The parts of the local condition and the inherited conditions. -/
def allConds (oj : OuterJoin ρ κ) : List (Express ρ) :=
  oj.joinCond.toList.flatMap Express.parts ++ oj.inheritedConds

theorem allConds_refs {ex : Express ρ} (hex : ex ∈ oj.allConds) : ex.refs ⊆ {0, 1} := by
  rcases List.mem_append.mp hex with hpart | hinherited
  · obtain ⟨cond, hcond, hpart⟩ := List.mem_flatMap.mp hpart
    exact (Express.parts_refs hpart).trans
      (oj.refs cond (List.mem_append_left _ hcond))
  · exact oj.refs ex (List.mem_append_right _ hinherited)

theorem mem_conds {ex : Express ρ} :
    ex ∈ oj.conds ↔ ex ∈ oj.joinCond.toList.flatMap Express.parts ∨
      (ex ∈ oj.inheritedConds ∧ oj.disabled ex = false) := by
  simp only [conds, List.mem_append, List.mem_filter, Bool.not_eq_true']

theorem conds_subset {ex : Express ρ} (hex : ex ∈ oj.conds) : ex ∈ oj.allConds := by
  rcases mem_conds.mp hex with hpart | ⟨hinherited, _⟩
  · exact List.mem_append_left _ hpart
  · exact List.mem_append_right _ hinherited

/-- The conditions pushed to the first leaf are true. -/
def acceptsFirst (oj : OuterJoin ρ κ) (first : Nat) (row : ρ) : Bool :=
  (oj.conds.filter fun ex => ex.refs ⊆ {first}).all
    (Express.isTrue (rowsAt (oriented first (some row) none)))

def acceptsSecond (oj : OuterJoin ρ κ) (first : Nat) (row other : ρ) : Bool :=
  (oj.conds.filter fun ex => ¬ ex.refs ⊆ {first}).all
    (Express.isTrue (rowsAt (oriented first (some row) (some other))))

section Plan

variable (hcovered : ∀ ex ∈ oj.allConds, ex.Covered false) (htwo : TwoLeaves first second)
include hcovered htwo

theorem step1_eq :
    (oj.optimize first second).step1 = ⟨first, oj.conds.filter fun ex => ex.refs ⊆ {first}⟩ := by
  have hfilter : (oj.conds.filter fun ex =>
      (pushKind first ∅ (classify false ex)).isSome) =
      oj.conds.filter fun ex => ex.refs ⊆ {first} := by
    apply List.filter_congr
    intro ex hex
    exact pushed_iff (hcovered ex (conds_subset hex))
  exact congrArg (Step.mk first) hfilter

theorem step2_eq :
    (oj.optimize first second).step2 =
      ⟨second, oj.conds.filter fun ex => ¬ ex.refs ⊆ {first}⟩ := by
  have hfilter : ((oj.conds.filter fun ex =>
      !(pushKind first ∅ (classify false ex)).isSome).filter fun ex =>
        (pushKind second (insert first ∅) (classify false ex)).isSome) =
      oj.conds.filter fun ex => ¬ ex.refs ⊆ {first} := by
    rw [List.filter_filter]
    apply List.filter_congr
    intro ex hex
    have hex := conds_subset hex
    have hrefs : ex.refs ⊆ insert second (insert first ∅) := by
      have hrefs := allConds_refs hex
      rwa [htwo.pair_eq, Finset.pair_comm] at hrefs
    rw [pushed_iff (hcovered ex hex), pushed_iff (hcovered ex hex), decide_eq_true hrefs,
      Bool.true_and, ← decide_not]
    rfl
  exact congrArg (Step.mk second) hfilter

theorem step1_accepts (p : Position ρ) (row : ρ) :
    (oj.optimize first second).step1.accepts p row = oj.acceptsFirst first row := by
  rw [step1_eq hcovered htwo, Step.accepts, acceptsFirst]
  refine all_congr_mem fun ex hex => ?_
  obtain ⟨hex, hfirst⟩ := List.mem_filter.mp hex
  rw [isTrue_oriented htwo (allConds_refs (conds_subset hex)), Function.update_self]
  exact isTrue_first htwo (of_decide_eq_true hfirst) _ _

theorem step2_accepts {p : Position ρ} {row : ρ} (hrow : p first = some row) (other : ρ) :
    (oj.optimize first second).step2.accepts p other = oj.acceptsSecond first row other := by
  rw [step2_eq hcovered htwo, Step.accepts, acceptsSecond]
  refine all_congr_mem fun ex hex => ?_
  obtain ⟨hex, _⟩ := List.mem_filter.mp hex
  rw [isTrue_oriented htwo (allConds_refs (conds_subset hex)), Function.update_self,
    Function.update_of_ne htwo.ne, hrow]

end Plan

theorem leftOuter_eq (htwo : TwoLeaves first second) :
    (oj.optimize first second).leftOuter = oj.preserves first := by
  cases htype : oj.joinType <;> rcases htwo with ⟨rfl, rfl⟩ | ⟨rfl, rfl⟩ <;>
    simp [optimize, preserves, htype]

theorem rightOuter_eq (htwo : TwoLeaves first second) :
    (oj.optimize first second).rightOuter = oj.preserves second := by
  cases htype : oj.joinType <;> rcases htwo with ⟨rfl, rfl⟩ | ⟨rfl, rfl⟩ <;>
    simp [optimize, preserves, htype]

/-- A side is disabled when the other one is preserved. -/
theorem second_mem_disablingMap (htwo : TwoLeaves first second)
    (hpreserves : oj.preserves first = true) : second ∈ oj.disablingMap := by
  cases htype : oj.joinType <;> rcases htwo with ⟨rfl, rfl⟩ | ⟨rfl, rfl⟩ <;>
    simp_all [preserves, disablingMap]

theorem first_mem_disablingMap (htwo : TwoLeaves first second)
    (hpreserves : oj.preserves second = true) : first ∈ oj.disablingMap := by
  cases htype : oj.joinType <;> rcases htwo with ⟨rfl, rfl⟩ | ⟨rfl, rfl⟩ <;>
    simp_all [preserves, disablingMap]

theorem disabled_eq_false {ex : Express ρ} (hcovered : ex.Covered false) :
    oj.disabled ex = false ↔ Disjoint ex.refs oj.disablingMap := by
  rw [disabled, hcovered.maps_eq, Bool.not_eq_false', decide_eq_true_eq]

/-- An inherited condition that is not disabled does not refer to a leaf that may be extended. -/
theorem refs_of_not_disabled {ex : Express ρ} (hcovered : ex.Covered false)
    (hrefs : ex.refs ⊆ {first, second}) (hdisabled : oj.disabled ex = false)
    (hmem : second ∈ oj.disablingMap) : ex.refs ⊆ {first} := by
  intro t ht
  have hleave := hrefs ht
  simp only [Finset.mem_insert, Finset.mem_singleton] at hleave ⊢
  rcases hleave with rfl | rfl
  · rfl
  · exact absurd hmem (Finset.disjoint_left.mp ((disabled_eq_false hcovered).mp hdisabled) ht)

theorem inheritedTrue_iff {row : Option ρ × Option ρ} :
    oj.inheritedTrue row = true ↔ ∀ ex ∈ oj.inheritedConds, ex.isTrue (rowsAt row) = true := by
  rw [inheritedTrue, List.all_eq_true]

theorem inherited_refs {ex : Express ρ} (hex : ex ∈ oj.inheritedConds) : ex.refs ⊆ {0, 1} :=
  oj.refs ex (List.mem_append_right _ hex)

/-- Where the inherited conditions that are not disabled hold, the outer conditions decide
about all of the inherited ones. -/
theorem satisfied_eq {p : Position ρ}
    (hpushed : ∀ ex ∈ oj.inheritedConds, oj.disabled ex = false → ex.isTrue p = true) :
    oj.satisfied p = oj.inheritedTrue (p 0, p 1) := by
  rw [Bool.eq_iff_iff, inheritedTrue_iff, satisfied, List.all_eq_true]
  constructor
  · intro hall ex hex
    rw [← isTrue_rowsAt (inherited_refs hex)]
    cases hdisabled : oj.disabled ex with
    | false => exact hpushed ex hex hdisabled
    | true =>
        obtain ⟨i, hi⟩ := List.mem_iff_getElem?.mp hex
        have hmem : (ex, i) ∈ oj.inheritedConds.zipIdx := by
          rw [List.mem_zipIdx_iff_getElem?]
          exact hi
        have houter : i % 32 ∈ oj.condsOuter :=
          List.mem_map.mpr ⟨(ex, i), List.mem_filter.mpr ⟨hmem, hdisabled⟩, rfl⟩
        simpa [houter] using hall (ex, i) hmem
  · intro hall cond hcond
    have hex : cond.1 ∈ oj.inheritedConds :=
      List.mem_of_getElem? (List.mem_zipIdx_iff_getElem?.mp hcond)
    rw [isTrue_rowsAt (inherited_refs hex), hall cond.1 hex, Bool.or_true]

theorem satisfied_congr {p q : Position ρ} (h0 : p 0 = q 0) (h1 : p 1 = q 1) :
    oj.satisfied p = oj.satisfied q := by
  refine all_congr_mem fun cond hcond => ?_
  have hex : cond.1 ∈ oj.inheritedConds :=
    List.mem_of_getElem? (List.mem_zipIdx_iff_getElem?.mp hcond)
  rw [isTrue_rowsAt (inherited_refs hex), @isTrue_rowsAt ρ cond.1 q (inherited_refs hex), h0, h1]

/-! The normal processing: the pairs of the nested loops, and the rows of the first operand
for which no pair was generated. -/

def candidates (oj : OuterJoin ρ κ) (first second : Nat) (row : ρ) : List ρ :=
  (oj.leave second).rows.filter (oj.acceptsSecond first row)

def passesOuter (oj : OuterJoin ρ κ) (row : Option ρ × Option ρ) : Bool :=
  oj.satisfied (rowsAt row)

def joinedWith (oj : OuterJoin ρ κ) (first second : Nat) (row : ρ) :
    List (Option ρ × Option ρ) :=
  ((oj.candidates first second row).map (fun other => oriented first (some row) (some other)) ++
    if oj.preserves first = true ∧ oj.candidates first second row = [] then
      [oriented first (some row) none] else []).filter oj.passesOuter

/-- The rows of the second operand that are stored, the last one first. -/
structure Holds (oj : OuterJoin ρ κ) (second : Nat) (st : State ρ κ) (stored : List ρ) : Prop where
  positions : oj.preserves second = true → (oj.leave second).materialized = false →
    st.rightStorage = stored
  keys : oj.preserves second = true → (oj.leave second).materialized = true →
    st.rojRowdist = stored.map (oj.leave second).rowkey

structure Outer (oj : OuterJoin ρ κ) (first second : Nat) (total remaining : List ρ)
    (st : State ρ κ) : Prop where
  phase : st.rightPostPhase = false
  pos : st.gnrPos = 0
  rest : st.rest1.filter (oj.acceptsFirst first) = remaining
  stored : ∃ stored, oj.Holds second st stored ∧
    stored.reverse ++ remaining.flatMap (oj.candidates first second) = total

structure Inner (oj : OuterJoin ρ κ) (first second : Nat) (row : ρ) (rows total remaining : List ρ)
    (st : State ρ κ) : Prop where
  phase : st.rightPostPhase = false
  pos : st.gnrPos = 1
  position : st.position first = some row
  outer : st.rest1.filter (oj.acceptsFirst first) = rows
  rest : st.rest2.filter (oj.acceptsSecond first row) = remaining
  pair : ∃ done, done ++ remaining = oj.candidates first second row ∧
    st.pairGenerated = !done.isEmpty
  stored : ∃ stored, oj.Holds second st stored ∧
    stored.reverse ++ remaining ++ rows.flatMap (oj.candidates first second) = total

theorem flatMap_singletons {α β : Type} {f : α → β} {keep : β → Bool} (list : List α) :
    list.flatMap (fun a => [f a].filter keep) = (list.map f).filter keep := by
  induction list with
  | nil => rfl
  | cons a list ih =>
      rw [List.flatMap_cons, ih, List.map_cons, ← List.filter_append]
      rfl

theorem Holds.store {plan : Plan ρ} {st : State ρ κ} {stored : List ρ}
    (hleave : plan.step2.leave = second) (hright : plan.rightOuter = oj.preserves second)
    (hholds : oj.Holds second st stored) (row : ρ) :
    oj.Holds second (oj.store plan row st) (row :: stored) := by
  constructor
  · intro hpreserves hmat
    simp only [OuterJoin.store, hright, hpreserves, ↓reduceIte, hleave, hmat, Bool.false_eq_true,
      hholds.positions hpreserves hmat]
  · intro hpreserves hmat
    simp only [OuterJoin.store, hright, hpreserves, ↓reduceIte, hleave, hmat,
      hholds.keys hpreserves hmat, List.map_cons]

@[simp] theorem store_rest1 (plan : Plan ρ) (row : ρ) (st : State ρ κ) :
    (oj.store plan row st).rest1 = st.rest1 := by
  unfold store
  split_ifs <;> rfl

@[simp] theorem store_rest2 (plan : Plan ρ) (row : ρ) (st : State ρ κ) :
    (oj.store plan row st).rest2 = st.rest2 := by
  unfold store
  split_ifs <;> rfl

@[simp] theorem store_position (plan : Plan ρ) (row : ρ) (st : State ρ κ) :
    (oj.store plan row st).position = st.position := by
  unfold store
  split_ifs <;> rfl

@[simp] theorem store_gnrPos (plan : Plan ρ) (row : ρ) (st : State ρ κ) :
    (oj.store plan row st).gnrPos = st.gnrPos := by
  unfold store
  split_ifs <;> rfl

@[simp] theorem store_pairGenerated (plan : Plan ρ) (row : ρ) (st : State ρ κ) :
    (oj.store plan row st).pairGenerated = st.pairGenerated := by
  unfold store
  split_ifs <;> rfl

@[simp] theorem store_rightPostPhase (plan : Plan ρ) (row : ρ) (st : State ρ κ) :
    (oj.store plan row st).rightPostPhase = st.rightPostPhase := by
  unfold store
  split_ifs <;> rfl

section Normal

variable [DecidableEq ρ] [DecidableEq κ]

theorem emits_deliver {plan : Plan ρ} {st next : State ρ κ}
    (hdeliver : oj.advance plan st = oj.deliver next) :
    Emits (oj.advance plan) st ([(next.position 0, next.position 1)].filter oj.passesOuter)
      next := by
  have hsame : oj.passesOuter (next.position 0, next.position 1) = oj.satisfied next.position :=
    satisfied_congr rfl rfl
  unfold deliver at hdeliver
  split at hdeliver
  · rename_i hpass
    rw [List.filter_cons_of_pos (by rw [hsame, hpass])]
    exact .pass hdeliver (.refl _)
  · rename_i hpass
    rw [List.filter_cons_of_neg (by rw [hsame]; exact hpass)]
    exact .go hdeliver (.refl _)

variable (hcovered : ∀ ex ∈ oj.allConds, ex.Covered false) (htwo : TwoLeaves first second)
  {row : ρ} {rows total : List ρ} {st : State ρ κ}
include hcovered htwo

theorem inner_turn (other : ρ) (tail : List ρ) (st : State ρ κ)
    (hinner : oj.Inner first second row rows total (other :: tail) st) :
    ∃ next, oj.Inner first second row rows total tail next ∧
      Emits (oj.advance (oj.optimize first second)) st
        ([oriented first (some row) (some other)].filter oj.passesOuter) next := by
  obtain ⟨hphase, hpos, hposition, hrows, hrest, ⟨done, hdone, hpair⟩, stored, hholds, htotal⟩ :=
    hinner
  have haccepts : (oj.optimize first second).step2.accepts st.position =
      oj.acceptsSecond first row := funext fun b => step2_accepts hcovered htwo hposition b
  obtain ⟨rest, hnext, htail⟩ := nextRow_some hrest
  have hleave : (oj.optimize first second).step2.leave = second := rfl
  let moved : State ρ κ := { st with
    position := Function.update st.position second (some other)
    rest2 := rest
    pairGenerated := true }
  have hadvance : oj.advance (oj.optimize first second) st =
      oj.deliver (oj.store (oj.optimize first second) other moved) := by
    rw [advance, if_neg (by rw [hphase]; decide), if_neg (by rw [hpos]; decide), advanceSecond,
      haccepts, hnext]
    rfl
  have hrow : oriented first (some row) (some other) = (moved.position 0, moved.position 1) := by
    rw [oriented_position htwo]
    simp only [moved, Function.update_self, Function.update_of_ne htwo.ne, hposition]
  refine ⟨oj.store (oj.optimize first second) other moved, ?_, ?_⟩
  · have hkept : oj.Holds second moved stored := ⟨hholds.positions, hholds.keys⟩
    refine ⟨?_, ?_, ?_, ?_, ?_, ⟨done ++ [other], ?_, ?_⟩, other :: stored,
      hkept.store hleave (rightOuter_eq htwo) other, ?_⟩
    · rw [store_rightPostPhase]
      exact hphase
    · rw [store_gnrPos]
      exact hpos
    · rw [store_position]
      exact (Function.update_of_ne htwo.ne _ _).trans hposition
    · rw [store_rest1]
      exact hrows
    · rw [store_rest2]
      exact htail
    · rw [← hdone, List.append_assoc, List.singleton_append]
    · rw [store_pairGenerated]
      simp [moved]
    · rw [← htotal, List.reverse_cons, List.append_assoc stored.reverse, List.singleton_append]
  · rw [hrow]
    have hemits := emits_deliver hadvance
    rwa [store_position] at hemits

theorem inner_last (hinner : oj.Inner first second row rows total [] st) :
    ∃ next, oj.Outer first second total rows next ∧
      Emits (oj.advance (oj.optimize first second)) st
        ((if oj.preserves first = true ∧ oj.candidates first second row = [] then
          [oriented first (some row) none] else []).filter oj.passesOuter) next := by
  obtain ⟨hphase, hpos, hposition, hrows, hrest, ⟨done, hdone, hpair⟩, stored, hholds, htotal⟩ :=
    hinner
  have haccepts : (oj.optimize first second).step2.accepts st.position =
      oj.acceptsSecond first row := funext fun b => step2_accepts hcovered htwo hposition b
  rw [List.append_nil] at hdone
  rw [hdone] at hpair
  have hadvance : oj.advance (oj.optimize first second) st =
      if (oj.preserves first && !st.pairGenerated) = true then
        oj.deliver { st with
          gnrPos := 0
          position := Function.update st.position second none
          rest2 := [] }
      else .go { st with gnrPos := 0, rest2 := [] } := by
    rw [advance, if_neg (by rw [hphase]; decide), if_neg (by rw [hpos]; decide), advanceSecond,
      haccepts, nextRow_none hrest, leftOuter_eq htwo]
    rfl
  have hafter : stored.reverse ++ rows.flatMap (oj.candidates first second) = total := by
    rw [← htotal, List.append_nil]
  by_cases hextend : oj.preserves first = true ∧ oj.candidates first second row = []
  · rw [if_pos hextend]
    rw [if_pos (by rw [hextend.1, hpair, hextend.2]; rfl)] at hadvance
    have hrow : oriented first (some row) none =
        ((Function.update st.position second none) 0, (Function.update st.position second none) 1) := by
      rw [oriented_position htwo, Function.update_self, Function.update_of_ne htwo.ne, hposition]
    rw [hrow]
    refine ⟨_, ⟨?_, ?_, ?_, stored, ?_, hafter⟩, emits_deliver hadvance⟩
    · exact hphase
    · rfl
    · exact hrows
    · exact ⟨hholds.positions, hholds.keys⟩
  · rw [if_neg hextend]
    rw [if_neg] at hadvance
    · refine ⟨_, ⟨?_, ?_, ?_, stored, ?_, hafter⟩, .go hadvance (.refl _)⟩
      · exact hphase
      · rfl
      · exact hrows
      · exact ⟨hholds.positions, hholds.keys⟩
    · intro hboth
      rw [Bool.and_eq_true, hpair, Bool.not_not, List.isEmpty_iff] at hboth
      exact hextend hboth

theorem outer_turn (row : ρ) (rows : List ρ) (st : State ρ κ)
    (houter : oj.Outer first second total (row :: rows) st) :
    ∃ next, oj.Outer first second total rows next ∧
      Emits (oj.advance (oj.optimize first second)) st (oj.joinedWith first second row) next := by
  obtain ⟨hphase, hpos, hrest, stored, hholds, htotal⟩ := houter
  have haccepts : (oj.optimize first second).step1.accepts st.position = oj.acceptsFirst first :=
    funext fun a => step1_accepts hcovered htwo st.position a
  obtain ⟨rest, hnext, htail⟩ := nextRow_some hrest
  let entered : State ρ κ := { st with
    gnrPos := 1
    position := Function.update st.position first (some row)
    rest1 := rest
    rest2 := (oj.leave second).rows
    pairGenerated := false }
  have hadvance : oj.advance (oj.optimize first second) st = .go entered := by
    rw [advance, if_neg (by rw [hphase]; decide), if_pos hpos, advanceFirst, haccepts, hnext]
    rfl
  have hentered : oj.Inner first second row rows total (oj.candidates first second row) entered := by
    refine ⟨hphase, rfl, Function.update_self _ _ _, htail, rfl, ⟨[], rfl, rfl⟩, stored,
      ⟨hholds.positions, hholds.keys⟩, ?_⟩
    rw [← htotal, List.flatMap_cons, List.append_assoc]
  obtain ⟨last, hlast, hpairs⟩ := Emits.loop (inner_turn hcovered htwo) _ _ hentered
  obtain ⟨next, houter, hnull⟩ := inner_last hcovered htwo hlast
  refine ⟨next, houter, .go hadvance ?_⟩
  rw [flatMap_singletons] at hpairs
  rw [joinedWith, List.filter_append]
  exact hpairs.trans hnull

/-- The rows of the second operand in all the pairs, in the order of their generation. -/
def generated (oj : OuterJoin ρ κ) (first second : Nat) : List ρ :=
  ((oj.leave first).rows.filter (oj.acceptsFirst first)).flatMap (oj.candidates first second)

theorem emits_normal (position : Position ρ) :
    ∃ last, oj.Outer first second (oj.generated first second) [] last ∧
      Emits (oj.advance (oj.optimize first second))
        (oj.reset (oj.optimize first second) position)
        (((oj.leave first).rows.filter (oj.acceptsFirst first)).flatMap
          (oj.joinedWith first second)) last := by
  have hstart : oj.Outer first second (oj.generated first second)
      ((oj.leave first).rows.filter (oj.acceptsFirst first))
      (oj.reset (oj.optimize first second) position) :=
    ⟨rfl, rfl, rfl, [], ⟨fun _ _ => rfl, fun _ _ => rfl⟩, rfl⟩
  exact Emits.loop (outer_turn hcovered htwo) _ _ hstart

end Normal

/-! The right post phase: the rows of the second operand that are not stored. -/

def lone (oj : OuterJoin ρ κ) (first second : Nat) : List ρ :=
  (oj.leave second).rows.filter fun row => oj.inheritedTrue (oriented first none (some row))

section Right

/-- What the post phase passes, given the stored rows. -/
def notStored [DecidableEq ρ] [DecidableEq κ] (oj : OuterJoin ρ κ) (first second : Nat) (stored : List ρ) : List ρ :=
  if (oj.leave second).materialized then
    Distinctor.fresh (oj.leave second).rowkey (stored.map (oj.leave second).rowkey)
      (oj.lone first second)
  else (oj.lone first second).filter fun row => row ∉ stored

variable (htwo : TwoLeaves first second) {st : State ρ κ}
include htwo

theorem right_accepts {p : Position ρ} (hnull : p first = none) (row : ρ) :
    Step.accepts ⟨second, oj.inheritedConds⟩ p row =
      oj.inheritedTrue (oriented first none (some row)) := by
  rw [Step.accepts, inheritedTrue]
  refine all_congr_mem fun ex hex => ?_
  rw [isTrue_oriented htwo (inherited_refs hex), Function.update_self,
    Function.update_of_ne htwo.ne, hnull]

theorem right_row (hnull : st.position first = none) (row : ρ) :
    (Function.update st.position second (some row) 0,
      Function.update st.position second (some row) 1) = oriented first none (some row) := by
  rw [oriented_position htwo, Function.update_self, Function.update_of_ne htwo.ne, hnull]

variable [DecidableEq ρ] [DecidableEq κ]

theorem advanceRight_none (hnull : st.position first = none)
    (hrest : st.restRight.filter (fun row => oj.inheritedTrue (oriented first none (some row))) =
      []) : oj.advanceRight (oj.optimize first second) st = .stop := by
  have haccepts := funext (@right_accepts ρ κ oj first second htwo _ hnull)
  have hleave : (oj.optimize first second).step2.leave = second := rfl
  rw [advanceRight]
  simp only [hleave, haccepts, nextRow_none hrest]

theorem passes_positions (hmat : (oj.leave second).materialized = false) {stored : List ρ} :
    ∀ (remaining : List ρ) (st : State ρ κ), st.rightPostPhase = true →
      st.position first = none → st.rightStorage = stored →
      st.restRight.filter (fun row => oj.inheritedTrue (oriented first none (some row))) =
        remaining →
      Passes (oj.advance (oj.optimize first second)) st
        ((remaining.filter fun row => row ∉ stored).map fun row =>
          oriented first none (some row)) := by
  have hleave : (oj.optimize first second).step2.leave = second := rfl
  intro remaining
  induction remaining with
  | nil =>
      intro st hphase hnull _ hrest
      apply Passes.stop
      rw [advance, if_pos hphase, advanceRight_none htwo hnull hrest]
  | cons row remaining ih =>
      intro st hphase hnull hstored hrest
      have haccepts := funext (@right_accepts ρ κ oj first second htwo _ hnull)
      obtain ⟨rest, hnext, htail⟩ := nextRow_some hrest
      let moved : State ρ κ := { st with
        position := Function.update st.position second (some row)
        restRight := rest }
      have hmoved : moved.position first = none :=
        (Function.update_of_ne htwo.ne _ _).trans hnull
      have htailPasses := ih moved hphase hmoved hstored htail
      by_cases hmem : row ∈ stored
      · rw [List.filter_cons_of_neg (by simpa using hmem)]
        apply Passes.go _ htailPasses
        rw [advance, if_pos hphase, advanceRight]
        simp only [hleave, haccepts, hnext, hmat, Bool.false_eq_true, ↓reduceIte, hstored,
          if_pos hmem, moved]
      · rw [List.filter_cons_of_pos (by simpa using hmem), List.map_cons]
        apply Passes.pass _ htailPasses
        rw [advance, if_pos hphase, advanceRight]
        simp only [hleave, haccepts, hnext, hmat, Bool.false_eq_true, ↓reduceIte, hstored,
          if_neg hmem, right_row htwo hnull, moved]

theorem passes_keys (hmat : (oj.leave second).materialized = true) :
    ∀ (remaining : List ρ) (st : State ρ κ), st.rightPostPhase = true →
      st.position first = none →
      st.restRight.filter (fun row => oj.inheritedTrue (oriented first none (some row))) =
        remaining →
      Passes (oj.advance (oj.optimize first second)) st
        ((Distinctor.fresh (oj.leave second).rowkey st.rojRowdist remaining).map fun row =>
          oriented first none (some row)) := by
  have hleave : (oj.optimize first second).step2.leave = second := rfl
  intro remaining
  induction remaining with
  | nil =>
      intro st hphase hnull hrest
      apply Passes.stop
      rw [advance, if_pos hphase, advanceRight_none htwo hnull hrest]
  | cons row remaining ih =>
      intro st hphase hnull hrest
      have haccepts := funext (@right_accepts ρ κ oj first second htwo _ hnull)
      obtain ⟨rest, hnext, htail⟩ := nextRow_some hrest
      have hmoved : Function.update st.position second (some row) first = none :=
        (Function.update_of_ne htwo.ne _ _).trans hnull
      rw [Distinctor.fresh]
      split
      · rename_i hmem
        let moved : State ρ κ := { st with
          position := Function.update st.position second (some row)
          restRight := rest }
        apply Passes.go _ (ih moved hphase hmoved htail)
        rw [advance, if_pos hphase, advanceRight]
        simp only [hleave, haccepts, hnext, hmat, ↓reduceIte, if_pos hmem, moved]
      · rename_i hmem
        let moved : State ρ κ := { st with
          position := Function.update st.position second (some row)
          restRight := rest
          rojRowdist := (oj.leave second).rowkey row :: st.rojRowdist }
        rw [List.map_cons]
        apply Passes.pass _ (ih moved hphase hmoved htail)
        rw [advance, if_pos hphase, advanceRight]
        simp only [hleave, haccepts, hnext, hmat, ↓reduceIte, if_neg hmem, right_row htwo hnull, moved]

end Right

end OuterJoin

end Sql602.Join
