import Mathlib.Order.Lattice.Nat
import Mathlib.Data.Finset.Lattice.Fold

namespace Sql602.Join

variable {ρ : Type}

/-! The conditions of a join, and the leaves that they refer to. -/

/-- The rows on which the leaves of a join are. A leaf set to the outer NULL has none. -/
abbrev Position (ρ : Type) := Nat → Option ρ

def onlytab (useMap : Finset Nat) : Int :=
  if useMap.card = 1 then (useMap.sup id : Nat) else -1

/-- `t_condition`, without the value types of its sides. -/
structure Condition where
  isRelation : Bool
  useMap1 : Finset Nat
  tabnum1 : Int
  indnum1 : Int
  partnum1 : Int
  useMap2 : Finset Nat
  tabnum2 : Int
  indnum2 : Int
  partnum2 : Int

/-- A condition without AND and OR. It reads no other leaves than those in the maps of its
sides, and the only leaf of a map is looked for on some sides only. -/
structure Relation (ρ : Type) extends Condition where
  isTrue : Position ρ → Bool
  only1 : tabnum1 = onlytab useMap1 ∨ tabnum1 = -1
  only2 : tabnum2 = onlytab useMap2 ∨ tabnum2 = -1
  reads : ∀ p q : Position ρ, (∀ t ∈ useMap1 ∪ useMap2, p t = q t) → isTrue p = isTrue q

/-- The part numbers of an AND or OR that `classify_condition` does not assign are those
that the memory held before. -/
structure Unassigned where
  partnum1 : Int
  partnum2 : Int

inductive Express (ρ : Type)
  | relation (rel : Relation ρ)
  | and (junk : Unassigned) (op1 op2 : Express ρ)
  | or (junk : Unassigned) (op1 op2 : Express ρ)

inductive OptInfo
  | orJoin
  | orDivide
  | orOr
  deriving DecidableEq

namespace Express

def isTrue (p : Position ρ) : Express ρ → Bool
  | relation rel => rel.isTrue p
  | and _ op1 op2 => op1.isTrue p && op2.isTrue p
  | or _ op1 op2 => op1.isTrue p || op2.isTrue p

/-- The leaves to which the expression refers. -/
def refs : Express ρ → Finset Nat
  | relation rel => rel.useMap1 ∪ rel.useMap2
  | and _ op1 op2 => op1.refs ∪ op2.refs
  | or _ op1 op2 => op1.refs ∪ op2.refs

theorem isTrue_congr {p q : Position ρ} {ex : Express ρ} (hsame : ∀ t ∈ ex.refs, p t = q t) :
    ex.isTrue p = ex.isTrue q := by
  induction ex with
  | relation rel => exact rel.reads p q hsame
  | and _ op1 op2 ih1 ih2 =>
      rw [isTrue, isTrue, ih1 fun t ht => hsame t (Finset.mem_union_left _ ht),
        ih2 fun t ht => hsame t (Finset.mem_union_right _ ht)]
  | or _ op1 op2 ih1 ih2 =>
      rw [isTrue, isTrue, ih1 fun t ht => hsame t (Finset.mem_union_left _ ht),
        ih2 fun t ht => hsame t (Finset.mem_union_right _ ht)]

end Express

/-! `classify_condition`. -/

namespace Condition

def fresh (junk : Unassigned) : Condition where
  isRelation := false
  useMap1 := ∅
  tabnum1 := -1
  indnum1 := -1
  partnum1 := junk.partnum1
  useMap2 := ∅
  tabnum2 := -1
  indnum2 := -1
  partnum2 := junk.partnum2

variable (c1 c2 : Condition)

def allMaps : Finset Nat := c1.useMap1 ∪ c1.useMap2 ∪ c2.useMap1 ∪ c2.useMap2

/-- Side 1 of `c1` is the same part of the same index as a side of `c2`. -/
def meets1 : Prop :=
  (c1.tabnum1 = c2.tabnum1 ∧ c1.indnum1 = c2.indnum1 ∧ c1.partnum1 = c2.partnum1) ∨
    (c1.tabnum1 = c2.tabnum2 ∧ c1.indnum1 = c2.indnum2 ∧ c1.partnum1 = c2.partnum2)

def meets2 : Prop :=
  (c1.tabnum2 = c2.tabnum1 ∧ c1.indnum2 = c2.indnum1 ∧ c1.partnum2 = c2.partnum1) ∨
    (c1.tabnum2 = c2.tabnum2 ∧ c1.indnum2 = c2.indnum2 ∧ c1.partnum2 = c2.partnum2)

instance meets1.decidable : Decidable (c1.meets1 c2) :=
  inferInstanceAs (Decidable (_ ∨ _))

instance meets2.decidable : Decidable (c1.meets2 c2) :=
  inferInstanceAs (Decidable (_ ∨ _))

def take1 (cond : Condition) : Condition :=
  { cond with
    tabnum1 := c1.tabnum1
    indnum1 := c1.indnum1
    partnum1 := c1.partnum1
    useMap1 := c1.useMap1
    useMap2 := c1.useMap2 ∪ if c1.tabnum1 = c2.tabnum1 then c2.useMap2 else c2.useMap1
    isRelation := true }

def take2 (cond : Condition) : Condition :=
  { cond with
    tabnum2 := c1.tabnum2
    indnum2 := c1.indnum2
    partnum2 := c1.partnum2
    useMap2 := c1.useMap2
    useMap1 := c1.useMap1 ∪ if c1.tabnum2 = c2.tabnum2 then c2.useMap1 else c2.useMap2
    isRelation := true }

/-- The sides taken over from `c1` when they meet a side of `c2`, one after the other. -/
def exact (meets1 meets2 : Bool) (junk : Unassigned) : Condition :=
  let cond := if meets1 then c1.take1 c2 (fresh junk) else fresh junk
  if meets2 then c1.take2 c2 cond else cond

def joined (tabnum : Int) (junk : Unassigned) : Condition :=
  { fresh junk with
    useMap1 := c1.allMaps c2
    useMap2 := c1.allMaps c2
    tabnum1 := tabnum
    tabnum2 := tabnum }

def classifyAnd (junk : Unassigned) : Condition :=
  if c1.meets1 c2 ∨ c1.meets2 c2 then c1.exact c2 (c1.meets1 c2) (c1.meets2 c2) junk
  else if c1.tabnum1 ≠ -1 ∨ c1.tabnum2 ≠ -1 ∨ c2.tabnum1 ≠ -1 ∨ c2.tabnum2 ≠ -1 then
    c1.joined c2 (-2) junk
  else c1.joined c2 (-1) junk

def orMeets1 : Prop := c1.meets1 c2 ∧ 0 ≤ c1.tabnum1 ∧ 0 ≤ c1.indnum1

def orMeets2 : Prop := c1.meets2 c2 ∧ 0 ≤ c1.tabnum2 ∧ 0 ≤ c1.indnum2

instance orMeets1.decidable : Decidable (c1.orMeets1 c2) :=
  inferInstanceAs (Decidable (_ ∧ _))

instance orMeets2.decidable : Decidable (c1.orMeets2 c2) :=
  inferInstanceAs (Decidable (_ ∧ _))

/-- `opt_info` of an OR. -/
def optInfo (dividable : Bool) : OptInfo :=
  if c1.orMeets1 c2 ∨ c1.orMeets2 c2 then .orJoin
  else if (c1.tabnum1 ≠ -1 ∨ c1.tabnum2 ≠ -1) ∧ (c2.tabnum1 ≠ -1 ∨ c2.tabnum2 ≠ -1) ∧ dividable
    then .orDivide
  else .orOr

def classifyOr (dividable : Bool) (junk : Unassigned) : Condition :=
  match c1.optInfo c2 dividable with
  | .orJoin => c1.exact c2 (c1.orMeets1 c2) (c1.orMeets2 c2) junk
  | .orDivide => c1.joined c2 (-2) junk
  | .orOr => c1.joined c2 (-1) junk

end Condition

def classify (dividable : Bool) : Express ρ → Condition
  | .relation rel => rel.toCondition
  | .and junk op1 op2 => (classify dividable op1).classifyAnd (classify dividable op2) junk
  | .or junk op1 op2 => (classify dividable op1).classifyOr (classify dividable op2) dividable junk

def Condition.maps (c : Condition) : Finset Nat := c.useMap1 ∪ c.useMap2

/-- A side with the number of a leaf refers to this leaf only. -/
structure Condition.Sided (c : Condition) : Prop where
  side1 : 0 ≤ c.tabnum1 → c.useMap1 = {c.tabnum1.toNat}
  side2 : 0 ≤ c.tabnum2 → c.useMap2 = {c.tabnum2.toNat}

/-- The classified maps of a condition name the leaves that it refers to. -/
structure Express.Covered (dividable : Bool) (ex : Express ρ) : Prop where
  refs : ex.refs ⊆ (classify dividable ex).maps
  sided : (classify dividable ex).Sided

theorem onlytab_eq {useMap : Finset Nat} (htab : 0 ≤ onlytab useMap) :
    useMap = {(onlytab useMap).toNat} := by
  unfold onlytab at htab ⊢
  split at htab
  · rename_i hone
    obtain ⟨t, rfl⟩ := Finset.card_eq_one.mp hone
    simp
  · omega

theorem Express.Covered.relation {dividable : Bool} {rel : Relation ρ} :
    (Express.relation rel).Covered dividable where
  refs := Finset.Subset.refl _
  sided := {
    side1 := fun htab => by
      simp only [classify] at htab ⊢
      rcases rel.only1 with honly | hnone
      · rw [honly] at htab ⊢
        exact onlytab_eq htab
      · omega
    side2 := fun htab => by
      simp only [classify] at htab ⊢
      rcases rel.only2 with honly | hnone
      · rw [honly] at htab ⊢
        exact onlytab_eq htab
      · omega }

namespace Condition

variable {c1 c2 : Condition} {dividable : Bool} {junk : Unassigned}

theorem exact_maps (meets1 meets2 : Bool) :
    (c1.exact c2 meets1 meets2 junk).maps ⊆ c1.maps ∪ c2.maps := by
  intro t
  cases meets1 with
  | false =>
      cases meets2 with
      | false => simp [exact, fresh, maps]
      | true =>
          simp only [exact, take2, maps, Finset.mem_union, ↓reduceIte]
          split_ifs <;> tauto
  | true =>
      cases meets2 with
      | false =>
          simp only [exact, take1, maps, Finset.mem_union, ↓reduceIte, Bool.false_eq_true]
          split_ifs <;> tauto
      | true =>
          simp only [exact, take2, maps, Finset.mem_union, ↓reduceIte]
          split_ifs <;> tauto

@[simp] theorem joined_maps (tabnum : Int) :
    (c1.joined c2 tabnum junk).maps = c1.maps ∪ c2.maps := by
  simp only [joined, maps, allMaps, Finset.union_self, Finset.union_assoc]

theorem classifyAnd_maps : (c1.classifyAnd c2 junk).maps ⊆ c1.maps ∪ c2.maps := by
  unfold classifyAnd
  split_ifs
  · exact exact_maps _ _
  · exact (joined_maps _).subset
  · exact (joined_maps _).subset

theorem classifyOr_maps : (c1.classifyOr c2 dividable junk).maps ⊆ c1.maps ∪ c2.maps := by
  unfold classifyOr
  split
  · exact exact_maps _ _
  · exact (joined_maps _).subset
  · exact (joined_maps _).subset

end Condition

/-- A condition is never classified under a leaf that it does not refer to. -/
theorem classify_maps {dividable : Bool} (ex : Express ρ) :
    (classify dividable ex).maps ⊆ ex.refs := by
  induction ex with
  | relation rel => exact Finset.Subset.refl _
  | and junk op1 op2 ih1 ih2 =>
      exact Condition.classifyAnd_maps.trans (Finset.union_subset_union ih1 ih2)
  | or junk op1 op2 ih1 ih2 =>
      exact Condition.classifyOr_maps.trans (Finset.union_subset_union ih1 ih2)

theorem Express.Covered.maps_eq {dividable : Bool} {ex : Express ρ}
    (hcovered : ex.Covered dividable) : (classify dividable ex).maps = ex.refs :=
  (classify_maps ex).antisymm hcovered.refs

/-! The parts of a condition are those joined by the outermost ANDs. -/

/-- `add_condition_ex` -/
def Express.parts : Express ρ → List (Express ρ)
  | .and _ op1 op2 => op1.parts ++ op2.parts
  | .relation rel => [.relation rel]
  | .or junk op1 op2 => [.or junk op1 op2]

theorem Express.all_parts (p : Position ρ) (ex : Express ρ) :
    ex.parts.all (isTrue p) = ex.isTrue p := by
  induction ex with
  | relation rel => simp only [parts, List.all_cons, List.all_nil, Bool.and_true]
  | and junk op1 op2 ih1 ih2 => rw [parts, List.all_append, ih1, ih2, isTrue]
  | or junk op1 op2 _ _ => simp only [parts, List.all_cons, List.all_nil, Bool.and_true]

theorem Express.parts_refs {ex part : Express ρ} (hpart : part ∈ ex.parts) :
    part.refs ⊆ ex.refs := by
  induction ex with
  | relation rel =>
      rw [List.mem_singleton.mp hpart]
  | and junk op1 op2 ih1 ih2 =>
      rcases List.mem_append.mp hpart with hpart | hpart
      · exact (ih1 hpart).trans Finset.subset_union_left
      · exact (ih2 hpart).trans Finset.subset_union_right
  | or junk op1 op2 _ _ => rw [List.mem_singleton.mp hpart]

/-! The order of the leaves. -/

/-- A side can be looked up when the leaves that the other side reads are in the order. -/
def delimits (used : Finset Nat) (c : Condition) : List Nat :=
  (if c.isRelation ∧ 0 ≤ c.tabnum1 ∧ c.useMap2 ⊆ used ∧ ¬ c.useMap1 ⊆ used
    then [c.tabnum1.toNat] else []) ++
  (if c.isRelation ∧ 0 ≤ c.tabnum2 ∧ c.useMap1 ⊆ used ∧ ¬ c.useMap2 ⊆ used
    then [c.tabnum2.toNat] else [])

/-- Well delimited is a leaf by the first part of an index. -/
def wellDelimits (used : Finset Nat) (c : Condition) : List Nat :=
  (if c.isRelation ∧ 0 ≤ c.tabnum1 ∧ c.useMap2 ⊆ used ∧ ¬ c.useMap1 ⊆ used ∧
      c.indnum1 ≠ -1 ∧ c.partnum1 = 0 then [c.tabnum1.toNat] else []) ++
  (if c.isRelation ∧ 0 ≤ c.tabnum2 ∧ c.useMap1 ⊆ used ∧ ¬ c.useMap2 ⊆ used ∧
      c.indnum2 ≠ -1 ∧ c.partnum2 = 0 then [c.tabnum2.toNat] else [])

/-- The leaves by which `enlarge_join_order` extends an order. -/
def enlargeJoinOrder (leaveCount : Nat) (conds : List Condition) (order : List Nat) : List Nat :=
  let used := order.toFinset
  let well := conds.flatMap (wellDelimits used)
  let found := if well = [] ∨ order = [] then well ++ conds.flatMap (delimits used) else well
  if found = [] then (List.range leaveCount).filter (· ∉ used) else found

/-- The orders that the search for the best one goes through. -/
inductive Searched (leaveCount : Nat) (conds : List Condition) : List Nat → Prop
  | start : Searched leaveCount conds []
  | enlarge {order : List Nat} {tabnum : Nat} (horder : Searched leaveCount conds order)
      (hnext : tabnum ∈ enlargeJoinOrder leaveCount conds order) :
      Searched leaveCount conds (order ++ [tabnum])

/-- The orders that `best_join_order` may result in: that of the user, or a complete one. -/
def JoinOrder (leaveCount : Nat) (conds : List Condition) (order : List Nat) : Prop :=
  order = List.range leaveCount ∨ (Searched leaveCount conds order ∧ order.length = leaveCount)

end Sql602.Join
