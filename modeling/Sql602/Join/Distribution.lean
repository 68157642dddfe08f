import Sql602.Join.Conditions
import Mathlib.Data.List.Perm.Subperm

namespace Sql602.Join

variable {ρ : Type} {dividable : Bool} {leaveCount : Nat}

/-! An order of the leaves that is searched for does not contain a leaf twice. -/

section Orders

variable {conds : List Condition} {order : List Nat} {tabnum : Nat} {used : Finset Nat}

theorem mem_delimits {c : Condition} (hsided : c.Sided) (hnext : tabnum ∈ delimits used c) :
    tabnum ∈ c.maps ∧ tabnum ∉ used := by
  simp only [delimits, List.mem_append, List.mem_ite_nil_right, List.mem_singleton] at hnext
  rcases hnext with ⟨⟨_, htab, _, hnew⟩, rfl⟩ | ⟨⟨_, htab, _, hnew⟩, rfl⟩
  · rw [hsided.side1 htab, Finset.singleton_subset_iff] at hnew
    refine ⟨Finset.mem_union_left _ ?_, hnew⟩
    rw [hsided.side1 htab]
    exact Finset.mem_singleton_self _
  · rw [hsided.side2 htab, Finset.singleton_subset_iff] at hnew
    refine ⟨Finset.mem_union_right _ ?_, hnew⟩
    rw [hsided.side2 htab]
    exact Finset.mem_singleton_self _

theorem mem_delimits_of_well {c : Condition} (hnext : tabnum ∈ wellDelimits used c) :
    tabnum ∈ delimits used c := by
  simp only [wellDelimits, delimits, List.mem_append, List.mem_ite_nil_right,
    List.mem_singleton] at hnext ⊢
  rcases hnext with ⟨⟨hrel, htab, hother, hnew, _⟩, heq⟩ | ⟨⟨hrel, htab, hother, hnew, _⟩, heq⟩
  · exact .inl ⟨⟨hrel, htab, hother, hnew⟩, heq⟩
  · exact .inr ⟨⟨hrel, htab, hother, hnew⟩, heq⟩

theorem mem_enlargeJoinOrder (hsided : ∀ c ∈ conds, c.Sided)
    (hmaps : ∀ c ∈ conds, c.maps ⊆ Finset.range leaveCount)
    (hnext : tabnum ∈ enlargeJoinOrder leaveCount conds order) :
    tabnum < leaveCount ∧ tabnum ∉ order := by
  have hdelimited : ∀ c ∈ conds, tabnum ∈ delimits order.toFinset c →
      tabnum < leaveCount ∧ tabnum ∉ order := by
    intro c hc htab
    obtain ⟨hmap, hnew⟩ := mem_delimits (hsided c hc) htab
    exact ⟨Finset.mem_range.mp (hmaps c hc hmap), fun h => hnew (List.mem_toFinset.mpr h)⟩
  have hwell : tabnum ∈ conds.flatMap (wellDelimits order.toFinset) →
      tabnum < leaveCount ∧ tabnum ∉ order := by
    intro hmem
    obtain ⟨c, hc, htab⟩ := List.mem_flatMap.mp hmem
    exact hdelimited c hc (mem_delimits_of_well htab)
  have hfound : tabnum ∈ conds.flatMap (delimits order.toFinset) →
      tabnum < leaveCount ∧ tabnum ∉ order := by
    intro hmem
    obtain ⟨c, hc, htab⟩ := List.mem_flatMap.mp hmem
    exact hdelimited c hc htab
  have hrange : tabnum ∈ (List.range leaveCount).filter (· ∉ order.toFinset) →
      tabnum < leaveCount ∧ tabnum ∉ order := by
    intro hmem
    simpa only [List.mem_filter, List.mem_range, List.mem_toFinset, decide_eq_true_eq] using hmem
  unfold enlargeJoinOrder at hnext
  dsimp only at hnext
  by_cases hboth : conds.flatMap (wellDelimits order.toFinset) = [] ∨ order = []
  · rw [if_pos hboth] at hnext
    split at hnext
    · exact hrange hnext
    · exact (List.mem_append.mp hnext).elim hwell hfound
  · rw [if_neg hboth] at hnext
    split at hnext
    · exact hrange hnext
    · exact hwell hnext

theorem Searched.nodup (hsided : ∀ c ∈ conds, c.Sided)
    (hmaps : ∀ c ∈ conds, c.maps ⊆ Finset.range leaveCount)
    (horder : Searched leaveCount conds order) :
    order.Nodup ∧ ∀ t ∈ order, t < leaveCount := by
  induction horder with
  | start => exact ⟨List.nodup_nil, by simp⟩
  | @enlarge order tabnum _ hnext ih =>
      obtain ⟨hlt, hnew⟩ := mem_enlargeJoinOrder hsided hmaps hnext
      constructor
      · exact List.concat_eq_append ▸ ih.1.concat hnew
      · intro t ht
        rcases List.mem_append.mp ht with ht | ht
        · exact ih.2 t ht
        · rwa [List.mem_singleton.mp ht]

/-- Whatever the costs are, the order found has every leaf once. -/
theorem JoinOrder.perm (hsided : ∀ c ∈ conds, c.Sided)
    (hmaps : ∀ c ∈ conds, c.maps ⊆ Finset.range leaveCount)
    (horder : JoinOrder leaveCount conds order) : order.Perm (List.range leaveCount) := by
  rcases horder with rfl | ⟨hsearched, hlength⟩
  · exact List.Perm.refl _
  · obtain ⟨hnodup, hlt⟩ := hsearched.nodup hsided hmaps
    have hsub : order.Subperm (List.range leaveCount) :=
      hnodup.subperm fun t ht => List.mem_range.mpr (hlt t ht)
    exact hsub.perm_of_length_le (by rw [List.length_range, hlength])

end Orders

/-! `distribute_conditions` -/

inductive PushKind
  | lim1
  | lim2
  | post
  deriving DecidableEq

def pushKind (tabind : Nat) (map : Finset Nat) (c : Condition) : Option PushKind :=
  if c.tabnum1 = tabind ∧ c.indnum1 ≠ -1 ∧ c.isRelation ∧ c.useMap2 ⊆ map ∧ ¬ c.useMap1 ⊆ map
    then some .lim1
  else if c.tabnum2 = tabind ∧ c.indnum2 ≠ -1 ∧ c.isRelation ∧ c.useMap1 ⊆ map ∧
      ¬ c.useMap2 ⊆ map then some .lim2
  else if c.useMap1 ∪ c.useMap2 ⊆ insert tabind map then some .post
  else none

/-- A leaf in the order of the join, with the conditions pushed to it. -/
structure Step (ρ : Type) where
  leave : Nat
  conds : List (Express ρ)

/-- A condition that was pushed is `generated`, it is not pushed again. -/
def distribute (dividable : Bool) : List Nat → Finset Nat → List (Express ρ) → List (Step ρ)
  | [], _, _ => []
  | tabind :: order, map, conds =>
      let pushed (ex : Express ρ) := (pushKind tabind map (classify dividable ex)).isSome
      ⟨tabind, conds.filter pushed⟩ ::
        distribute dividable order (insert tabind map) (conds.filter fun ex => !pushed ex)

theorem pushKind_isSome {tabind : Nat} {map : Finset Nat} {c : Condition} (hsided : c.Sided) :
    (pushKind tabind map c).isSome = decide (c.maps ⊆ insert tabind map) := by
  unfold pushKind
  split
  · rename_i hlim
    obtain ⟨htab, _, _, hother, _⟩ := hlim
    have hside : c.useMap1 = {tabind} := by
      rw [hsided.side1 (by omega), htab, Int.toNat_natCast]
    have hmaps : c.maps ⊆ insert tabind map := by
      rw [Condition.maps, hside]
      exact Finset.union_subset (by simp) (hother.trans (Finset.subset_insert _ _))
    simp only [Option.isSome_some, hmaps, decide_true]
  · split
    · rename_i hlim
      obtain ⟨htab, _, _, hother, _⟩ := hlim
      have hside : c.useMap2 = {tabind} := by
        rw [hsided.side2 (by omega), htab, Int.toNat_natCast]
      have hmaps : c.maps ⊆ insert tabind map := by
        rw [Condition.maps, hside]
        exact Finset.union_subset (hother.trans (Finset.subset_insert _ _)) (by simp)
      simp only [Option.isSome_some, hmaps, decide_true]
    · split
      · rename_i hmaps
        simp only [Option.isSome_some, Condition.maps, hmaps, decide_true]
      · rename_i hmaps
        simp only [Option.isSome_none, Condition.maps, hmaps, decide_false]

/-- A covered condition is pushed to the first leaf after which all that it refers to is
positioned. -/
theorem pushed_iff {tabind : Nat} {map : Finset Nat} {ex : Express ρ}
    (hcovered : ex.Covered dividable) :
    (pushKind tabind map (classify dividable ex)).isSome =
      decide (ex.refs ⊆ insert tabind map) := by
  rw [pushKind_isSome hcovered.sided, hcovered.maps_eq]

end Sql602.Join
