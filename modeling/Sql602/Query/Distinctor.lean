import Sql602.Btree.Removed

namespace Sql602.Query

open Btree

/-! The index by which rows are told apart while a union is passed. -/

variable {α β : Type} [LinearOrder β]

section Model

variable (index : IndexDescr α)

/-- The key in the position of the path, if it has the value of the searched one. -/
def keyRec (key : Key α β) (pages : Pages α β) : List StkCell → Option (Key α β)
  | [] => none
  | cell :: _ =>
      match pages cell.nn with
      | some (.leaf keys) => keys[cell.posit]?.filter fun other => (cmpKeys index key other).1
      | _ => none

/-- Says if the key has been added. The result is missing after an error. -/
def distinctorAdd (masks : Bool) (circumstances : Circumstances) (root : Nat) (key : Key α β)
    (pages : Pages α β) : Option (Bool × Pages α β) :=
  match buildStack index circumstances key pages BSTACK_LEN 0 root [] with
  | none => none
  | some (_, path) =>
      if getKeyRec index key pages path = true then some (false, pages)
      else
        match btInsert index circumstances masks root key pages with
        | some (false, pages) => some (true, pages)
        | _ => none

end Model

variable {index : IndexDescr α} {searching circumstances : Circumstances}
  {key : Key α β} {pages after : Pages α β} {root : Nat}
  {owned : List Nat} {held : List (Key α β)} {added : Bool} {path : List StkCell}
  {res : Bool × Ordering}

/-! What has been found. -/

def sameValue (index : IndexDescr α) (value : α) (other : Key α β) : Bool :=
  index.cmpValues value other.value == .eq

theorem keyOrder_distinct (hdistinct : index.distinct = true) {other : Key α β} :
    keyOrder index key other = index.cmpValues key.value other.value := by
  rw [keyOrder_eq, if_pos hdistinct, valueOrder]

theorem sameValue_iff (hdistinct : index.distinct = true) {other : Key α β} :
    sameValue index key.value other = true ↔ keyOrder index key other = .eq := by
  rw [keyOrder_distinct hdistinct, sameValue, beq_iff_eq]

theorem cmpKeys_fst {other : Key α β} :
    (cmpKeys index key other).1 = sameValue index key.value other := by
  rw [cmpKeys, sameValue]
  cases index.cmpValues key.value other.value <;> rfl

theorem getKeyRec_eq_isSome :
    getKeyRec index key pages path = (keyRec index key pages path).isSome := by
  cases path with
  | nil => rfl
  | cons cell above =>
      rw [getKeyRec, keyRec]
      cases pages cell.nn with
      | none => rfl
      | some node =>
          cases node with
          | inner first entries => rfl
          | leaf keys =>
              simp only [cmpAt]
              cases keys[cell.posit]? with
              | none => rfl
              | some other =>
                  rw [Option.filter_some]
                  cases (cmpKeys index key other).1 <;> rfl

/-- Two keys of a sorted list that are the same are one. -/
theorem eq_of_sameValue (hdistinct : index.distinct = true) (hsorted : Sorted index held)
    {first second : Key α β} (hfirst : first ∈ held) (hsecond : second ∈ held)
    (hsame : sameValue index key.value first = true)
    (hsame' : sameValue index key.value second = true) : first = second := by
  rw [sameValue_iff hdistinct] at hsame hsame'
  obtain ⟨front, back, rfl⟩ := List.append_of_mem hfirst
  have hdiffer := others_differ hsorted hsame
  rw [List.mem_append, List.mem_cons] at hsecond
  rcases hsecond with hin | rfl | hin
  · exact absurd hsame' (hdiffer second (List.mem_append_left _ hin))
  · rfl
  · exact absurd hsame' (hdiffer second (List.mem_append_right _ hin))

section Found

variable (htree : IndexTree index pages root owned held)
  (hbuild : buildStack index searching key pages BSTACK_LEN 0 root [] = some (res, path))

include htree hbuild

theorem keyRec_some {other : Key α β} (hother : keyRec index key pages path = some other) :
    other ∈ held ∧ sameValue index key.value other = true ∧ res.1 = true := by
  obtain ⟨h, hstored⟩ := htree.stored
  have hpath := htree.wellFormed.leafPath hbuild
  obtain ⟨cell, above, keys, rfl, hleaf, hseek⟩ := hpath.leaf
  have hlinked := hpath.isPath.linked cell List.mem_cons_self
  rw [keyRec, hleaf] at hother
  obtain ⟨hget, hsame⟩ := Option.filter_eq_some_iff.mp hother
  have hsought := @nodeSeek_spec _ _ _ index key (.leaf keys)
    (hstored.subTree.sorted_of_linked hlinked hleaf)
  rw [hseek] at hsought
  have hstopped := (hsought.stopped (List.getElem?_eq_some_iff.mp hget).1).1
  change res = cmpAt index key keys cell.posit at hstopped
  rw [cmpAt, hget] at hstopped
  rw [hstopped, ← cmpKeys_fst]
  exact ⟨hstored.mem_held.mpr ⟨cell.nn, keys, hlinked, hleaf, List.mem_of_getElem? hget⟩, hsame,
    hsame⟩

/-- The key of the value in the index, if there is any. -/
theorem keyRec_eq_find (hdistinct : index.distinct = true) :
    keyRec index key pages path = held.find? (sameValue index key.value) := by
  obtain ⟨h, hstored⟩ := htree.stored
  have hfinds : ∀ other ∈ held, sameValue index key.value other = true →
      (keyRec index key pages path).isSome = true := by
    intro other hother hsame
    obtain ⟨m, keys, hlinked, hleaf, hin⟩ := hstored.mem_held.mp hother
    rw [← getKeyRec_eq_isSome, (buildStack_found hstored.subTree hlinked hleaf hin
      ((sameValue_iff hdistinct).mp hsame) hbuild).2, cmpKeys_fst, hsame]
  cases hfound : keyRec index key pages path with
  | none =>
      refine (List.find?_eq_none.mpr fun other hother hsame => ?_).symm
      have hsome := hfinds other hother hsame
      rw [hfound] at hsome
      cases hsome
  | some other =>
      obtain ⟨hother, hsame, -⟩ := keyRec_some htree hbuild hfound
      cases hfind : held.find? (sameValue index key.value) with
      | none => exact absurd hsame (List.find?_eq_none.mp hfind other hother)
      | some first =>
          exact congrArg some (eq_of_sameValue hdistinct htree.sorted hother
            (List.mem_of_find?_eq_some hfind) hsame (List.find?_some hfind))

end Found

/-! The operations. -/

theorem insert_new {masks : Bool} (htree : IndexTree index pages root owned held)
    (hdistinct : index.distinct = true) (hnulls : index.hasNulls = true)
    (hsupplies : circumstances.Supplies pages root)
    (hnew : held.any (sameValue index key.value) = false)
    (hinsert : btInsert index circumstances masks root key pages = some (false, after)) :
    ∃ owned' held', IndexTree index after root owned' held' ∧ held'.Perm (key :: held) := by
  obtain ⟨owned', held', hadded⟩ := htree.insert hsupplies hinsert
  have hother : held.any (fun other => keyOrder index key other == .eq) = false := by
    refine List.any_eq_false.mpr fun other hother horder => ?_
    exact List.any_eq_false.mp hnew other hother
      ((sameValue_iff hdistinct).mpr (beq_iff_eq.mp horder))
  have hperm := hadded.held_perm
  rw [indexed, hother, hnulls, Bool.not_true, Bool.and_false] at hperm
  exact ⟨owned', held', hadded.tree, hperm⟩

/-- The key is added unless its value is there. -/
theorem distinctorAdd_spec {masks : Bool} (htree : IndexTree index pages root owned held)
    (hdistinct : index.distinct = true) (hnulls : index.hasNulls = true)
    (hsupplies : circumstances.Supplies pages root)
    (hadd : distinctorAdd index masks circumstances root key pages = some (added, after)) :
    added = !held.any (sameValue index key.value) ∧ ∃ owned' held',
      IndexTree index after root owned' held' ∧
        held'.Perm (if held.any (sameValue index key.value) then held else key :: held) := by
  rw [distinctorAdd] at hadd
  cases hbuild : buildStack index circumstances key pages BSTACK_LEN 0 root [] with
  | none =>
      rw [hbuild] at hadd
      cases hadd
  | some found =>
      obtain ⟨res, path⟩ := found
      simp only [hbuild] at hadd
      rw [getKeyRec_eq_isSome, keyRec_eq_find htree hbuild hdistinct, List.isSome_find?] at hadd
      cases hany : held.any (sameValue index key.value) with
      | true =>
          rw [hany, if_pos rfl] at hadd
          cases hadd
          exact ⟨rfl, owned, held, htree, List.Perm.refl held⟩
      | false =>
          rw [hany, if_neg Bool.false_ne_true] at hadd
          cases hinsert : btInsert index circumstances masks root key pages with
          | none =>
              rw [hinsert] at hadd
              cases hadd
          | some result =>
              obtain ⟨failed, next⟩ := result
              rw [hinsert] at hadd
              cases failed with
              | true => cases hadd
              | false =>
                  cases hadd
                  exact ⟨rfl, insert_new htree hdistinct hnulls hsupplies hany hinsert⟩

/-! What has been seen of a list. -/

section Unseen

variable {γ : Type} {same : γ → γ → Bool} {before rows : List γ} {row : γ}

/-- The first of each class that has not come before. -/
def unseen (same : γ → γ → Bool) (before rows : List γ) : List γ :=
  (rows.filter fun row => !before.any (same row)).eraseDupsBy same

theorem unseen_nil : unseen same [] rows = rows.eraseDupsBy same :=
  congrArg (List.eraseDupsBy same) (List.filter_eq_self.mpr fun _ _ => rfl)

theorem unseen_new (hnew : before.any (same row) = false) :
    unseen same before (row :: rows) = row :: unseen same (row :: before) rows := by
  rw [unseen, List.filter_cons, hnew, Bool.not_false, if_pos rfl, List.eraseDupsBy_cons,
    List.filter_filter, unseen]
  congr 3
  funext other
  rw [List.any_cons]
  cases same other row <;> cases before.any (same other) <;> rfl

theorem unseen_old (hold : before.any (same row) = true) :
    unseen same before (row :: rows) = unseen same before rows := by
  rw [unseen, List.filter_cons, hold, Bool.not_true, if_neg Bool.false_ne_true, unseen]

theorem unseen_congr {others : List γ}
    (hsame : ∀ row, before.any (same row) = others.any (same row)) :
    unseen same before rows = unseen same others rows := by
  rw [unseen, unseen]
  congr 2
  funext row
  rw [hsame]

end Unseen

end Sql602.Query
