import Mathlib.Data.Nat.Basic
import Sql602.Table.IndexAlteration

namespace Sql602.IndexAlteration

open Takings

/-! Whatever the definitions are, every old root is taken over by one new index or dropped
once. -/

/-- What the loop over the new indexes makes of the roots that were free before it. -/
structure Made (roots : Nat → Nat) (taken : List (Option Nat)) (still : Nat → Bool)
    (create : List Nat → IndDescr → Option Nat) (blocks : List Nat) (kept : List IndDescr)
    (new_roots : List Nat) (old_roots : Nat → Nat) : Prop where
  length : new_roots.length = kept.length
  rest : ∀ j, old_roots j = if still j then roots j else 0
  root : ∀ (i : Nat) nind, kept[i]? = some nind →
    (∃ j, taken[i]? = some (some j) ∧ new_roots[i]? = some (roots j)) ∨
      (taken[i]? = some none ∧
        ∃ more root, create (more ++ blocks) nind = some root ∧ new_roots[i]? = some root)

section Making

variable {names : IndDescr → Option Nat} {create : List Nat → IndDescr → Option Nat}
variable {roots old_roots left : Nat → Nat} {free : Nat → Bool} {blocks new_roots : List Nat}
variable {kept : List IndDescr}

theorem filter_free {named : Option Nat} (hfree : ∀ j, free j = true → roots j ≠ 0)
    (hheld : ∀ j, old_roots j = if free j then roots j else 0) :
    (named.filter fun j => decide (old_roots j ≠ 0)) = named.filter free := by
  refine congrArg (fun test => named.filter test) (funext fun j => ?_)
  rw [hheld j]
  cases hj : free j with
  | true => simpa using hfree j hj
  | false => simp

theorem makeRoots_made (hfree : ∀ j, free j = true → roots j ≠ 0)
    (hheld : ∀ j, old_roots j = if free j then roots j else 0)
    (hmade : makeRoots names create old_roots blocks kept = some (new_roots, left)) :
    Made roots (takings names free kept) (remaining names free kept) create blocks kept new_roots
      left := by
  induction kept generalizing old_roots free blocks new_roots left with
  | nil =>
      rw [makeRoots, Option.some.injEq, Prod.mk.injEq] at hmade
      obtain ⟨rfl, rfl⟩ := hmade
      exact ⟨rfl, hheld, fun i nind hget => by simp at hget⟩
  | cons nind rest ih =>
      rw [makeRoots, filter_free hfree hheld] at hmade
      rw [takings, remaining]
      cases htaken : (names nind).filter free with
      | some j =>
          rw [htaken] at hmade
          obtain ⟨⟨others, final⟩, hothers, heq⟩ := Option.map_eq_some_iff.mp hmade
          obtain ⟨rfl, rfl⟩ := Prod.mk.inj heq
          have hj : free j = true := (Option.filter_eq_some_iff.mp htaken).2
          have hafter : ∀ k, Function.update old_roots j 0 k =
              if leaving free (some j) k then roots k else 0 := by
            intro k
            by_cases hk : k = j
            · subst hk
              simp [leaving]
            · rw [Function.update_of_ne hk, leaving, Function.update_of_ne hk]
              exact hheld k
          obtain ⟨hlength, hrest, hroot⟩ :=
            ih (fun k hk => hfree k (leaving_eq_true.mp hk).1) hafter hothers
          refine ⟨by rw [List.length_cons, List.length_cons, hlength], hrest, fun i other hget => ?_⟩
          cases i with
          | zero =>
              refine Or.inl ⟨j, rfl, ?_⟩
              rw [List.getElem?_cons_zero, hheld j, if_pos hj]
          | succ i => exact hroot i other hget
      | none =>
          rw [htaken] at hmade
          cases hbuilt : create blocks nind with
          | none => simp [hbuilt] at hmade
          | some root =>
              simp only [hbuilt] at hmade
              obtain ⟨⟨others, final⟩, hothers, heq⟩ := Option.map_eq_some_iff.mp hmade
              obtain ⟨rfl, rfl⟩ := Prod.mk.inj heq
              obtain ⟨hlength, hrest, hroot⟩ := ih hfree hheld hothers
              refine ⟨by rw [List.length_cons, List.length_cons, hlength], hrest,
                fun i other hget => ?_⟩
              cases i with
              | zero =>
                  rw [List.getElem?_cons_zero, Option.some.injEq] at hget
                  subst hget
                  exact Or.inr ⟨rfl, [], root, hbuilt, rfl⟩
              | succ i =>
                  obtain htook | ⟨hnone, more, found, hmore, hfound⟩ := hroot i other hget
                  · exact Or.inl htook
                  · refine Or.inr ⟨hnone, more ++ [root], found, ?_, hfound⟩
                    rw [List.append_assoc]
                    exact hmore

theorem exists_makeRoots (hcreate : ∀ blocks nind, ∃ root, create blocks nind = some root) :
    ∃ made, makeRoots names create old_roots blocks kept = some made := by
  induction kept generalizing old_roots blocks with
  | nil => exact ⟨_, rfl⟩
  | cons nind rest ih =>
      rw [makeRoots]
      cases (names nind).filter fun j => decide (old_roots j ≠ 0) with
      | some j =>
          obtain ⟨made, hmade⟩ := @ih (Function.update old_roots j 0) blocks
          exact ⟨(old_roots j :: made.1, made.2), by simp only [hmade, Option.map_some]⟩
      | none =>
          obtain ⟨root, hroot⟩ := hcreate blocks nind
          obtain ⟨made, hmade⟩ := @ih old_roots (root :: blocks)
          exact ⟨(root :: made.1, made.2), by simp only [hroot, hmade, Option.map_some]⟩

end Making

/-- The sizes of items with which the tree of the root is dropped, once for each drop. -/
def dropsOf (drops : List (Nat × Nat)) (root : Nat) : List Nat :=
  (drops.filter fun drop => decide (drop.1 = root)).map Prod.snd

section Drops

variable {old_roots : Nat → Nat} {indxs : List DdIndex} {root i j : Nat} {oindx : DdIndex}

theorem dropsOf_cons (drop : Nat × Nat) (drops : List (Nat × Nat)) :
    dropsOf (drop :: drops) root =
      if drop.1 = root then drop.2 :: dropsOf drops root else dropsOf drops root := by
  by_cases hroot : drop.1 = root
  · simp [dropsOf, hroot]
  · simp [dropsOf, hroot]

theorem dropsOf_append (first second : List (Nat × Nat)) :
    dropsOf (first ++ second) root = dropsOf first root ++ dropsOf second root := by
  rw [dropsOf, dropsOf, dropsOf, List.filter_append, List.map_append]

theorem dropsOf_dropOriginals {kept : List IndDescr}
    (hother : ∀ nind ∈ kept, nind.indx.root ≠ root) : dropsOf (dropOriginals kept) root = [] := by
  induction kept with
  | nil => rfl
  | cons nind rest ih =>
      have hrest := ih fun other hmem => hother other (List.mem_cons_of_mem _ hmem)
      rw [dropOriginals]
      by_cases hzero : nind.indx.root = 0
      · rw [if_neg (not_not_intro hzero)]
        exact hrest
      · rw [if_pos hzero, dropsOf_cons, if_neg (hother nind List.mem_cons_self)]
        exact hrest

theorem dropsOf_dropUnused_other (hother : ∀ k, i ≤ k → old_roots k = root → root = 0) :
    dropsOf (dropUnused old_roots indxs i) root = [] := by
  induction indxs generalizing i with
  | nil => rfl
  | cons oindx rest ih =>
      have hrest := ih fun k hk => hother k (Nat.le_of_succ_le hk)
      rw [dropUnused]
      by_cases hzero : old_roots i = 0
      · rw [if_neg (not_not_intro hzero)]
        exact hrest
      · rw [if_pos hzero, dropsOf_cons, if_neg fun hroot =>
          hzero (hroot.trans (hother i (Nat.le_refl i) hroot))]
        exact hrest

/-- The tree of an index is dropped once if its root is left, and not at all if it is taken. -/
theorem dropsOf_dropUnused (hget : indxs[j]? = some oindx)
    (honly : ∀ k, old_roots k = root → k = i + j)
    (hleft : old_roots (i + j) = root ∨ old_roots (i + j) = 0) :
    dropsOf (dropUnused old_roots indxs i) root =
      if old_roots (i + j) = 0 then [] else [oindx.bigstep] := by
  induction indxs generalizing i j with
  | nil => simp at hget
  | cons first rest ih =>
      rw [dropUnused]
      cases j with
      | zero =>
          rw [List.getElem?_cons_zero, Option.some.injEq] at hget
          subst hget
          simp only [Nat.add_zero] at honly hleft ⊢
          have hrest : dropsOf (dropUnused old_roots rest (i + 1)) root = [] :=
            dropsOf_dropUnused_other fun k hk hroot =>
              absurd (honly k hroot) (Nat.ne_of_gt hk)
          by_cases hzero : old_roots i = 0
          · rw [if_neg (not_not_intro hzero), if_pos hzero]
            exact hrest
          · rw [if_pos hzero, if_neg hzero, dropsOf_cons,
              if_pos (hleft.resolve_right hzero), hrest]
      | succ j =>
          have hmove : i + (j + 1) = i + 1 + j := Nat.add_right_comm i j 1
          rw [hmove] at honly hleft ⊢
          have hrest := ih hget honly hleft
          by_cases hzero : old_roots i = 0
          · rw [if_neg (not_not_intro hzero)]
            exact hrest
          · have hother : old_roots i ≠ root := fun hroot => by
              have := honly i hroot
              omega
            rw [if_pos hzero, dropsOf_cons, if_neg hother]
            exact hrest

end Drops

/-- Every old root is taken over by one new index or dropped once, and every new index has the
root of the same old index or a tree built for it. -/
structure Accounts (same : DdIndex → IndDescr → Prop) (env : Environment) (tbdf : TableDescr)
    (kept : List IndDescr) (drops : List (Nat × Nat)) (new_roots : List Nat) : Prop where
  once : ∀ (j : Nat) oindx, tbdf.indxs[j]? = some oindx → tbdf.indroot j ≠ 0 →
    ((∃! i : Nat, new_roots[i]? = some (tbdf.indroot j)) ∧ dropsOf drops (tbdf.indroot j) = []) ∨
      ((∀ i : Nat, new_roots[i]? ≠ some (tbdf.indroot j)) ∧
        dropsOf drops (tbdf.indroot j) = [oindx.bigstep])
  length : new_roots.length = kept.length
  correct : ∀ (i : Nat) nind root, kept[i]? = some nind → new_roots[i]? = some root →
    (∃ (j : Nat) (oindx : DdIndex), tbdf.indxs[j]? = some oindx ∧ tbdf.indroot j ≠ 0 ∧
        root = tbdf.indroot j ∧ same oindx nind) ∨
      ((∀ j, root ≠ tbdf.indroot j) ∧ ∃ blocks, env.create_btree blocks nind.indx = some root)

/-- The first index that names an old root is the same index as the old one. -/
def TakersSame (same : DdIndex → IndDescr → Prop) (names : IndDescr → Option Nat)
    (tbdf : TableDescr) (kept : List IndDescr) : Prop :=
  ∀ i j nind oindx, IsTaker names kept i j → kept[i]? = some nind →
    tbdf.indxs[j]? = some oindx → tbdf.indroot j ≠ 0 → same oindx nind

section Accounting

variable {same : DdIndex → IndDescr → Prop} {env : Environment} {tbdf : TableDescr}
variable {names : IndDescr → Option Nat} {create : List Nat → IndDescr → Option Nat}
variable {kept : List IndDescr} {blocks new_roots : List Nat} {old_roots : Nat → Nat}
variable {originals : List (Nat × Nat)} {i j : Nat} {oindx : DdIndex}

def TableDescr.free (tbdf : TableDescr) (j : Nat) : Bool := decide (tbdf.indroot j ≠ 0)

theorem TableDescr.getElem?_of_root (hroot : tbdf.indroot j ≠ 0) :
    ∃ oindx, tbdf.indxs[j]? = some oindx := by
  refine ⟨_, List.getElem?_eq_getElem (Nat.lt_of_not_le fun hle => hroot (tbdf.unused j hle))⟩

theorem TableDescr.makeRoots_made
    (hmade : makeRoots names create tbdf.indroot blocks kept = some (new_roots, old_roots)) :
    Made tbdf.indroot (takings names tbdf.free kept) (remaining names tbdf.free kept) create blocks
      kept new_roots old_roots := by
  refine IndexAlteration.makeRoots_made (fun j hj => of_decide_eq_true hj) (fun j => ?_) hmade
  by_cases hroot : tbdf.indroot j = 0
  · simp [free, hroot]
  · simp [free, hroot]

variable (hmade : Made tbdf.indroot (takings names tbdf.free kept) (remaining names tbdf.free kept)
  create blocks kept new_roots old_roots)
variable (hcreate : ∀ blocks nind root, create blocks nind = some root →
  env.create_btree blocks nind.indx = some root)
variable (hused : ∀ j, tbdf.indroot j ≠ 0 → tbdf.indroot j ∈ blocks)

include hmade hcreate hused

/-- The new index with an old root is the one that has taken it. -/
theorem Made.taken_iff (hroot : tbdf.indroot j ≠ 0) :
    new_roots[i]? = some (tbdf.indroot j) ↔
      (takings names tbdf.free kept)[i]? = some (some j) := by
  have hknown : ∀ nind, kept[i]? = some nind → (new_roots[i]? = some (tbdf.indroot j) ↔
      (takings names tbdf.free kept)[i]? = some (some j)) := by
    intro nind hget
    obtain ⟨k, htaken, hnew⟩ | ⟨htaken, more, root, hbuilt, hnew⟩ := hmade.root i nind hget
    · rw [htaken, hnew, Option.some.injEq, Option.some.injEq, Option.some.injEq]
      exact ⟨fun heq => (tbdf.distinct j k hroot heq.symm).symm, fun heq => by rw [heq]⟩
    · have hfresh := (env.fresh (hcreate _ _ _ hbuilt)).2
      rw [htaken, hnew]
      constructor
      · intro heq
        obtain rfl := Option.some.inj heq
        exact absurd (List.mem_append_right more (hused j hroot)) hfresh
      · intro heq
        exact absurd (Option.some.inj heq) (by simp)
  constructor
  · intro hnew
    have hlt : i < kept.length := by
      rw [← hmade.length]
      exact (List.getElem?_eq_some_iff.mp hnew).1
    exact (hknown _ (List.getElem?_eq_getElem hlt)).mp hnew
  · intro htaken
    have hlt : i < kept.length := by
      rw [← @length_takings _ _ _ names tbdf.free kept]
      exact (List.getElem?_eq_some_iff.mp htaken).1
    exact (hknown _ (List.getElem?_eq_getElem hlt)).mpr htaken

theorem Made.once (hget : tbdf.indxs[j]? = some oindx) (hroot : tbdf.indroot j ≠ 0)
    (horiginals : dropsOf originals (tbdf.indroot j) = []) :
    ((∃! i : Nat, new_roots[i]? = some (tbdf.indroot j)) ∧
        dropsOf (originals ++ dropUnused old_roots tbdf.indxs 0) (tbdf.indroot j) = []) ∨
      ((∀ i : Nat, new_roots[i]? ≠ some (tbdf.indroot j)) ∧
        dropsOf (originals ++ dropUnused old_roots tbdf.indxs 0) (tbdf.indroot j) =
          [oindx.bigstep]) := by
  have hdrops : dropsOf (dropUnused old_roots tbdf.indxs 0) (tbdf.indroot j) =
      if old_roots j = 0 then [] else [oindx.bigstep] := by
    have hdropped := @dropsOf_dropUnused old_roots tbdf.indxs (tbdf.indroot j) 0 j oindx hget
    rw [Nat.zero_add] at hdropped
    refine hdropped (fun k hk => ?_) ?_
    · rw [hmade.rest k] at hk
      cases hstill : remaining names tbdf.free kept k with
      | false => exact absurd (by rw [← hk, hstill]; rfl) hroot
      | true =>
          rw [hstill, if_pos rfl] at hk
          exact (tbdf.distinct j k hroot hk.symm).symm
    · rw [hmade.rest j]
      cases remaining names tbdf.free kept j with
      | false => exact Or.inr rfl
      | true => exact Or.inl rfl
  rw [dropsOf_append, horiginals, List.nil_append, hdrops, hmade.rest j]
  have hfree : tbdf.free j = true := decide_eq_true hroot
  obtain ⟨hstill, htaken⟩ | ⟨hstill, htaken⟩ :=
    @taken_or_remaining _ _ _ names tbdf.free kept j hfree
  · refine Or.inl ⟨?_, by rw [hstill]; rfl⟩
    obtain ⟨i, hi, honly⟩ := htaken
    exact ⟨i, (hmade.taken_iff hcreate hused hroot).mpr hi,
      fun k hk => honly k ((hmade.taken_iff hcreate hused hroot).mp hk)⟩
  · refine Or.inr ⟨fun i hi => htaken i ((hmade.taken_iff hcreate hused hroot).mp hi), ?_⟩
    rw [hstill, if_pos rfl, if_neg hroot]

theorem Made.accounts (hsame : TakersSame same names tbdf kept)
    (horiginals : ∀ j, tbdf.indroot j ≠ 0 → dropsOf originals (tbdf.indroot j) = []) :
    Accounts same env tbdf kept (originals ++ dropUnused old_roots tbdf.indxs 0) new_roots where
  once := fun j oindx hget hroot =>
    hmade.once hcreate hused hget hroot (horiginals j hroot)
  length := hmade.length
  correct := by
    intro i nind root hget hnew
    obtain ⟨j, htaken, hold⟩ | ⟨-, more, built, hbuilt, hold⟩ := hmade.root i nind hget
    · left
      obtain ⟨hfree, htaker⟩ := takings_iff.mp htaken
      have hroot : tbdf.indroot j ≠ 0 := of_decide_eq_true hfree
      obtain ⟨oindx, hoindx⟩ := TableDescr.getElem?_of_root hroot
      exact ⟨j, oindx, hoindx, hroot, Option.some.inj (hnew.symm.trans hold),
        hsame i j nind oindx htaker hget hoindx hroot⟩
    · right
      obtain rfl := Option.some.inj (hnew.symm.trans hold)
      have hcreated := hcreate _ _ _ hbuilt
      obtain ⟨hnonzero, hfresh⟩ := env.fresh hcreated
      refine ⟨fun j hj => ?_, _, hcreated⟩
      exact hfresh (List.mem_append_right more (hj ▸ hused j fun hzero =>
        hnonzero (hj.trans hzero)))

theorem Made.takersSame {drops : List (Nat × Nat)}
    (haccounts : Accounts same env tbdf kept drops new_roots) :
    TakersSame same names tbdf kept := by
  intro i j nind oindx htaker hget hoindx hroot
  have hnew := (hmade.taken_iff hcreate hused hroot).mpr
    (takings_iff.mpr ⟨decide_eq_true hroot, htaker⟩)
  obtain ⟨k, other, hother, -, heq, hsame⟩ | ⟨hnone, -⟩ := haccounts.correct i nind _ hget hnew
  · obtain rfl := tbdf.distinct j k hroot heq
    obtain rfl := Option.some.inj (hoindx.symm.trans hother)
    exact hsame
  · exact absurd rfl (hnone j)

end Accounting

end Sql602.IndexAlteration
