import Mathlib.Algebra.BigOperators.Group.List.Basic
import Sql602.Fulltext.Phrases

namespace Sql602.Fulltext

variable {cursors moved : List Cursor} {cursor : Cursor} {doc : Nat} {positions : List Nat}
  {contin : Bool}

/-! The cycle on the positions of the common document. -/

theorem nextPos_shorter (hstanding : cursor.Standing doc) :
    cursor.nextPos.1.rest.length < cursor.rest.length := by
  obtain ⟨occ, rest, hrest, _⟩ := hstanding
  simp only [Cursor.nextPos, hrest, List.length_cons]
  exact Nat.lt_succ_of_le (List.dropWhile_suffix _).length_le

/-- The words after one move in a document. -/
structure Stepped (doc : Nat) (cursors moved : List Cursor) (contin : Bool) : Prop where
  advance : AllAdvance (doc + 1) cursors moved
  shorter : remaining moved < remaining cursors
  standing : contin = true → ∀ cursor ∈ moved, cursor.Standing doc
  spent : contin = false → ∀ before ≤ doc, ¬ Full before moved

theorem Stepped.cons (hstepped : Stepped doc cursors moved contin) (hstanding : cursor.Standing doc) :
    Stepped doc (cursor :: cursors) (cursor :: moved) contin where
  advance := .cons .refl hstepped.advance
  shorter := by
    have hshorter := hstepped.shorter
    simp only [remaining, List.map_cons, List.sum_cons] at hshorter ⊢
    omega
  standing := fun hcontin => List.forall_mem_cons.mpr ⟨hstanding, hstepped.standing hcontin⟩
  spent := fun hcontin before hle hfull =>
    hstepped.spent hcontin before hle (List.forall_mem_cons.mp hfull).2

theorem stepped_first (hstanding : ∀ other ∈ cursor :: cursors, other.Standing doc)
    (hvalid : cursor.Valid) :
    Stepped doc (cursor :: cursors) (cursor.nextPos.1 :: cursors) cursor.nextPos.2 := by
  obtain ⟨hfirst, hrest⟩ := List.forall_mem_cons.mp hstanding
  refine ⟨.cons (Cursor.nextPos_advances hfirst) AllAdvance.refl, ?_, ?_, ?_⟩
  · simp only [remaining, List.map_cons, List.sum_cons]
    exact Nat.add_lt_add_right (nextPos_shorter hfirst) _
  · intro hcontin
    rcases Cursor.nextPos_cases hfirst hvalid with ⟨_, hmoved⟩ | ⟨hnot, _⟩
    · exact List.forall_mem_cons.mpr ⟨hmoved, hrest⟩
    · rw [hnot] at hcontin
      cases hcontin
  · intro hcontin before hle hfull
    obtain ⟨p, hhit⟩ := hfull _ List.mem_cons_self
    rcases Cursor.nextPos_cases hfirst hvalid with ⟨hmore, _⟩ | ⟨_, hnone⟩
    · rw [hmore] at hcontin
      cases hcontin
    · exact hnone before hle p hhit

theorem mend_none (hmend : mend cursors = none) :
    Linked cursors (cursors.map Cursor.position) := by
  induction cursors with
  | nil => trivial
  | cons word cursors ih =>
      cases cursors with
      | nil => trivial
      | cons next rest =>
          rw [mend] at hmend
          split at hmend
          case isTrue hphrase => exact ⟨hphrase, ih (Option.map_eq_none_iff.mp hmend)⟩
          case isFalse =>
            split at hmend
            · cases hmend
            · cases hmend

/-- The word that moves does not stand on a position of a clean phrase. -/
theorem mend_some (hstanding : ∀ cursor ∈ cursors, cursor.Standing doc)
    (hvalid : ∀ cursor ∈ cursors, cursor.Valid) (hmend : mend cursors = some (moved, contin)) :
    Stepped doc cursors moved contin ∧
      ∀ positions, Match doc cursors positions → Clean doc cursors positions →
        Match doc moved positions := by
  induction cursors generalizing moved contin with
  | nil => cases hmend
  | cons word cursors ih =>
      cases cursors with
      | nil => cases hmend
      | cons next rest =>
          have hword := (List.forall_mem_cons.mp hstanding).1
          have hnext := (List.forall_mem_cons.mp (List.forall_mem_cons.mp hstanding).2).1
          have hwordValid := (List.forall_mem_cons.mp hvalid).1
          have hnextValid := (List.forall_mem_cons.mp (List.forall_mem_cons.mp hvalid).2).1
          rw [mend] at hmend
          split at hmend
          case isTrue hphrase =>
            obtain ⟨⟨moved', contin'⟩, hrest, heq⟩ := Option.map_eq_some_iff.mp hmend
            cases heq
            obtain ⟨hstepped, hkept⟩ := ih (List.forall_mem_cons.mp hstanding).2
              (List.forall_mem_cons.mp hvalid).2 hrest
            refine ⟨hstepped.cons hword, fun positions hmatch hclean => ?_⟩
            obtain ⟨hhits, hlinked⟩ := hmatch
            cases hhits with
            | cons hhit hhits =>
                cases hhits with
                | cons hhit' hhits =>
                    have hafter := hkept _ ⟨.cons hhit' hhits, hlinked.2⟩ hclean.2.2
                    refine ⟨.cons hhit hafter.hits, ?_⟩
                    exact (linked_words (.cons .refl hstepped.advance)).mpr hlinked
          case isFalse hphrase =>
            split at hmend
            case isTrue hlt =>
              cases hmend
              have hstepped := stepped_first hstanding hwordValid
              refine ⟨hstepped, fun positions hmatch hclean => ?_⟩
              obtain ⟨hhits, hlinked⟩ := hmatch
              refine ⟨?_, (linked_words hstepped.advance).mpr hlinked⟩
              cases hhits with
              | @cons _ p _ _ hhit hhits =>
                  cases hhits with
                  | @cons _ q _ _ hhit' hhits =>
                      refine .cons (Cursor.nextPos_hit hword hhit ?_) (.cons hhit' hhits)
                      rintro rfl
                      -- the next word is before the position that belongs to this one
                      rcases Nat.lt_or_eq_of_le (hnext.position_le hnextValid hhit') with hbefore | heq
                      · exact hphrase (hclean.1 _ hnext.hit hlt hbefore)
                      · exact hphrase (heq ▸ hlinked.1)
            case isFalse hge =>
              cases hmend
              have hstepped :=
                (stepped_first (List.forall_mem_cons.mp hstanding).2 hnextValid).cons hword
              refine ⟨hstepped, fun positions hmatch hclean => ?_⟩
              obtain ⟨hhits, hlinked⟩ := hmatch
              refine ⟨?_, (linked_words hstepped.advance).mpr hlinked⟩
              cases hhits with
              | @cons _ p _ _ hhit hhits =>
                  cases hhits with
                  | @cons _ q _ _ hhit' hhits =>
                      refine .cons hhit (.cons (Cursor.nextPos_hit hnext hhit' ?_) hhits)
                      rintro rfl
                      rcases Nat.lt_or_eq_of_le (hword.position_le hwordValid hhit) with hbefore | heq
                      · exact hphrase (hclean.2.1 _ hword.hit (Nat.le_of_not_lt hge) hbefore)
                      · exact hphrase (heq ▸ hlinked.1)

theorem moveAll_stepped (hne : cursors ≠ []) (hstanding : ∀ cursor ∈ cursors, cursor.Standing doc)
    (hvalid : ∀ cursor ∈ cursors, cursor.Valid) :
    Stepped doc cursors (moveAll cursors).1 (moveAll cursors).2 := by
  induction cursors with
  | nil => exact absurd rfl hne
  | cons cursor cursors ih =>
      have hfirst := stepped_first hstanding (List.forall_mem_cons.mp hvalid).1
      rcases hnext : cursor.nextPos with ⟨moved, contin⟩
      rw [hnext] at hfirst
      simp only [moveAll, hnext]
      cases contin with
      | false => exact hfirst
      | true =>
          cases cursors with
          | nil => exact hfirst
          | cons next rest =>
              have hrest := ih (by simp) (List.forall_mem_cons.mp hstanding).2
                (List.forall_mem_cons.mp hvalid).2
              have hmoved := (List.forall_mem_cons.mp (hfirst.standing rfl)).1
              have hboth := hrest.cons hmoved
              exact
                { advance := hfirst.advance.trans hboth.advance
                  shorter := Nat.lt_trans hboth.shorter hfirst.shorter
                  standing := hboth.standing
                  spent := hboth.spent }

/-- What the cycle finds in a document. -/
structure Scanned (doc : Nat) (cursors moved : List Cursor) (total found : Nat) : Prop where
  advance : AllAdvance (doc + 1) cursors moved
  shorter : remaining moved < remaining cursors
  spent : ∀ before ≤ doc, ¬ Full before moved
  le : total ≤ found
  finds : (∃ positions, Match doc cursors positions ∧ Clean doc cursors positions) → total < found
  sound : total < found → ∃ positions, Match doc cursors positions

theorem standing_matched (hstanding : ∀ cursor ∈ cursors, cursor.Standing doc)
    (hmend : mend cursors = none) : Match doc cursors (cursors.map Cursor.position) where
  linked := mend_none hmend
  hits := by
    clear hmend
    induction cursors with
    | nil => exact .nil
    | cons cursor cursors ih =>
        rw [List.forall_mem_cons] at hstanding
        exact .cons hstanding.1.hit (ih hstanding.2)

theorem scan_scanned {fuel total position : Nat} (hfuel : remaining cursors < fuel)
    (hne : cursors ≠ []) (hstanding : ∀ cursor ∈ cursors, cursor.Standing doc)
    (hvalid : ∀ cursor ∈ cursors, cursor.Valid) :
    Scanned doc cursors (scan fuel cursors total position).1 total
      (scan fuel cursors total position).2.1 := by
  induction fuel generalizing cursors total position with
  | zero => exact absurd hfuel (Nat.not_lt_zero _)
  | succ fuel ih =>
      rw [scan]
      cases hmend : mend cursors with
      | some result =>
          obtain ⟨moved, contin⟩ := result
          obtain ⟨hstepped, hkept⟩ := mend_some hstanding hvalid hmend
          have hsome : moved ≠ [] := by
            rintro rfl
            cases hstepped.advance
            exact hne rfl
          cases contin with
          | false =>
              refine ⟨hstepped.advance, hstepped.shorter, hstepped.spent rfl, Nat.le_refl _, ?_, ?_⟩
              · rintro ⟨positions, hmatch, hclean⟩
                exact absurd (hkept positions hmatch hclean).full
                  (hstepped.spent rfl doc (Nat.le_refl _))
              · exact fun hlt => absurd hlt (Nat.lt_irrefl _)
          | true =>
              have hshorter := hstepped.shorter
              have hrest := @ih moved total position (by omega) hsome (hstepped.standing rfl)
                (hstepped.advance.valid hvalid)
              refine ⟨hstepped.advance.trans hrest.advance, Nat.lt_trans hrest.shorter hshorter,
                hrest.spent, hrest.le, ?_, ?_⟩
              · rintro ⟨positions, hmatch, hclean⟩
                exact hrest.finds
                  ⟨positions, hkept positions hmatch hclean, hstepped.advance.clean hclean⟩
              · intro hlt
                obtain ⟨positions, hmatch⟩ := hrest.sound hlt
                exact ⟨positions, hstepped.advance.matched hmatch⟩
      | none =>
          have hmatch := standing_matched hstanding hmend
          have hstepped := moveAll_stepped hne hstanding hvalid
          have hweight : 0 < (cursors.head?.map Cursor.currentWeight).getD 0 := by
            cases cursors with
            | nil => exact absurd rfl hne
            | cons cursor cursors => exact (hstanding cursor List.mem_cons_self).weight_pos
          have hsome : (moveAll cursors).1 ≠ [] := by
            intro hnil
            have hadvance := hstepped.advance
            rw [hnil] at hadvance
            cases hadvance
            exact hne rfl
          dsimp only
          split
          case isFalse hcontin =>
            exact ⟨hstepped.advance, hstepped.shorter,
              hstepped.spent (Bool.eq_false_iff.mpr hcontin), Nat.le_add_right ..,
              fun _ => Nat.lt_add_of_pos_right hweight, fun _ => ⟨_, hmatch⟩⟩
          case isTrue hcontin =>
            have hshorter := hstepped.shorter
            have hrest := @ih (moveAll cursors).1
              (total + (cursors.head?.map Cursor.currentWeight).getD 0)
              ((cursors.head?.map Cursor.position).getD position) (by omega) hsome
              (hstepped.standing hcontin) (hstepped.advance.valid hvalid)
            have hle := hrest.le
            exact ⟨hstepped.advance.trans hrest.advance, Nat.lt_trans hrest.shorter hshorter,
              hrest.spent, by omega, fun _ => by omega, fun _ => ⟨_, hmatch⟩⟩

end Sql602.Fulltext
