import Mathlib.Data.List.Infix
import Mathlib.Data.List.Forall2
import Mathlib.Data.List.TakeWhile
import Sql602.Fulltext.Passing

namespace Sql602.Fulltext

/-! What is left of the occurrences while they are passed. -/

namespace Cursor

variable {cursor moved third : Cursor} {doc bound p : Nat}

/-- The word occurs at a position of a document with the demanded flags. -/
def Hit (cursor : Cursor) (doc p : Nat) : Prop :=
  ∃ occ ∈ cursor.rest, occ.docid = doc ∧ occ.position = p ∧ cursor.weigh occ ≠ 0

structure Valid (cursor : Cursor) : Prop where
  ordered : cursor.rest.Pairwise Occurrence.Before
  docids : ∀ occ ∈ cursor.rest, occ.docid < noDocId

/-- The word stands on an occurrence in a document. -/
def Standing (cursor : Cursor) (doc : Nat) : Prop :=
  ∃ occ rest, cursor.rest = occ :: rest ∧ occ.docid = doc ∧ cursor.weigh occ ≠ 0

/-- Only occurrences before a document are passed. -/
structure Advances (bound : Nat) (cursor moved : Cursor) : Prop where
  weighted : moved.weighted = cursor.weighted
  word : moved.word = cursor.word
  suffix : moved.rest <:+ cursor.rest
  kept : ∀ occ ∈ cursor.rest, bound ≤ occ.docid → cursor.weigh occ ≠ 0 → occ ∈ moved.rest

namespace Advances

theorem refl : Advances bound cursor cursor :=
  ⟨rfl, rfl, List.suffix_refl _, fun _ hmem _ _ => hmem⟩

theorem weigh (hadv : Advances bound cursor moved) : moved.weigh = cursor.weigh := by
  funext occ
  rw [Cursor.weigh, Cursor.weigh, hadv.weighted, hadv.word]

theorem trans (hadv : Advances bound cursor moved) (hnext : Advances bound moved third) :
    Advances bound cursor third where
  weighted := hnext.weighted.trans hadv.weighted
  word := hnext.word.trans hadv.word
  suffix := hnext.suffix.trans hadv.suffix
  kept := fun occ hmem hbound hweigh =>
    hnext.kept occ (hadv.kept occ hmem hbound hweigh) hbound (hadv.weigh ▸ hweigh)

theorem mono {bound' : Nat} (hadv : Advances bound cursor moved) (hle : bound ≤ bound') :
    Advances bound' cursor moved :=
  { hadv with kept := fun occ hmem hbound => hadv.kept occ hmem (Nat.le_trans hle hbound) }

theorem valid (hadv : Advances bound cursor moved) (hvalid : cursor.Valid) : moved.Valid where
  ordered := hvalid.ordered.sublist hadv.suffix.sublist
  docids := fun occ hmem => hvalid.docids occ (hadv.suffix.subset hmem)

theorem hit (hadv : Advances bound cursor moved) (hhit : moved.Hit doc p) : cursor.Hit doc p := by
  obtain ⟨occ, hmem, hdoc, hpos, hweigh⟩ := hhit
  exact ⟨occ, hadv.suffix.subset hmem, hdoc, hpos, hadv.weigh ▸ hweigh⟩

theorem hit_iff (hadv : Advances bound cursor moved) (hle : bound ≤ doc) :
    moved.Hit doc p ↔ cursor.Hit doc p := by
  refine ⟨hadv.hit, ?_⟩
  rintro ⟨occ, hmem, rfl, hpos, hweigh⟩
  exact ⟨occ, hadv.kept occ hmem hle hweigh, rfl, hpos, hadv.weigh ▸ hweigh⟩

theorem length (hadv : Advances bound cursor moved) : moved.rest.length ≤ cursor.rest.length :=
  hadv.suffix.length_le

end Advances

theorem advances_dropWhile {skip : Occurrence → Bool}
    (hskip : ∀ occ, skip occ = true → occ.docid < bound ∨ cursor.weigh occ = 0) :
    Advances bound cursor { cursor with rest := cursor.rest.dropWhile skip } where
  weighted := rfl
  word := rfl
  suffix := List.dropWhile_suffix _
  kept := by
    intro occ hmem hbound hweigh
    rw [← List.takeWhile_append_dropWhile (p := skip) (l := cursor.rest), List.mem_append] at hmem
    rcases hmem with hpassed | hkept
    · rcases hskip occ (List.mem_takeWhile_imp hpassed) with hbefore | hzero
      · omega
      · exact absurd hzero hweigh
    · exact hkept

namespace Standing

theorem hit (hstanding : cursor.Standing doc) : cursor.Hit doc cursor.position := by
  obtain ⟨occ, rest, hrest, hdoc, hweigh⟩ := hstanding
  exact ⟨occ, by rw [hrest]; exact List.mem_cons_self, hdoc, by rw [position, hrest], hweigh⟩

theorem weight_pos (hstanding : cursor.Standing doc) : 0 < cursor.currentWeight := by
  obtain ⟨occ, rest, hrest, _, hweigh⟩ := hstanding
  rw [currentWeight, hrest]
  exact Nat.pos_of_ne_zero hweigh

/-- The other occurrences follow. -/
theorem position_le (hstanding : cursor.Standing doc) (hvalid : cursor.Valid)
    (hhit : cursor.Hit doc p) : cursor.position ≤ p := by
  obtain ⟨occ, rest, hrest, hdoc, _⟩ := hstanding
  obtain ⟨other, hmem, hother, rfl, _⟩ := hhit
  have hordered := hvalid.ordered
  rw [hrest] at hmem hordered
  rw [position, hrest]
  rcases List.mem_cons.mp hmem with rfl | hmem
  · exact Nat.le_refl _
  · rcases List.rel_of_pairwise_cons hordered hmem with hlt | ⟨_, hle⟩
    · omega
    · exact hle

theorem not_hit_before (hstanding : cursor.Standing doc) (hvalid : cursor.Valid) {before : Nat}
    (hlt : before < doc) : ¬ cursor.Hit before p := by
  obtain ⟨occ, rest, hrest, hdoc, _⟩ := hstanding
  rintro ⟨other, hmem, hother, _⟩
  have hordered := hvalid.ordered
  rw [hrest] at hmem hordered
  rcases List.mem_cons.mp hmem with rfl | hmem
  · omega
  · rcases List.rel_of_pairwise_cons hordered hmem with hlt' | ⟨hsame, _⟩
    · omega
    · omega

end Standing

theorem dropWhile_head {skip : Occurrence → Bool} {list : List Occurrence} {occ : Occurrence}
    {rest : List Occurrence} (hdrop : list.dropWhile skip = occ :: rest) : skip occ = false := by
  induction list with
  | nil => cases hdrop
  | cons head tail ih =>
      rw [List.dropWhile_cons] at hdrop
      split at hdrop
      case isTrue => exact ih hdrop
      case isFalse hnot =>
        cases hdrop
        exact Bool.eq_false_iff.mpr hnot

/-! The steps of a word. -/

section DocStep

variable {docid : Nat}

theorem docStep_advances : Advances docid cursor (cursor.docStep docid).1 := by
  refine advances_dropWhile fun occ hskip => ?_
  rcases Bool.or_eq_true_iff.mp hskip with hbefore | hzero
  · exact Or.inl (of_decide_eq_true hbefore)
  · exact Or.inr (beq_iff_eq.mp hzero)

theorem docStep_cases :
    ((cursor.docStep docid).1.rest = [] ∧ (cursor.docStep docid).2 = noDocId) ∨
      ((cursor.docStep docid).1.Standing (cursor.docStep docid).2 ∧
        docid ≤ (cursor.docStep docid).2) := by
  cases hdrop : cursor.rest.dropWhile
      (fun occ => occ.docid < docid || cursor.weigh occ == 0) with
  | nil => exact Or.inl ⟨hdrop, by rw [docStep, hdrop]⟩
  | cons occ rest =>
      have hhead := dropWhile_head hdrop
      simp only [Bool.or_eq_false_iff, decide_eq_false_iff_not, beq_eq_false_iff_ne] at hhead
      have hdoc : (cursor.docStep docid).2 = occ.docid := by rw [docStep, hdrop]
      refine Or.inr ⟨⟨occ, rest, hdrop, hdoc.symm, hhead.2⟩, ?_⟩
      rw [hdoc]
      exact Nat.le_of_not_lt hhead.1

theorem docStep_skips (hvalid : cursor.Valid) (hle : docid ≤ doc)
    (hlt : doc < (cursor.docStep docid).2) : ¬ cursor.Hit doc p := by
  rw [← docStep_advances.hit_iff hle]
  rcases @docStep_cases cursor docid with ⟨hnone, _⟩ | ⟨hstanding, _⟩
  · rintro ⟨occ, hmem, _⟩
    rw [hnone] at hmem
    cases hmem
  · exact hstanding.not_hit_before (docStep_advances.valid hvalid) hlt

theorem docStep_le (hvalid : cursor.Valid) (hle : docid ≤ noDocId) :
    docid ≤ (cursor.docStep docid).2 ∧ (cursor.docStep docid).2 ≤ noDocId := by
  rcases @docStep_cases cursor docid with ⟨_, hdoc⟩ | ⟨hstanding, hfrom⟩
  · rw [hdoc]
    exact ⟨hle, Nat.le_refl _⟩
  · refine ⟨hfrom, ?_⟩
    obtain ⟨occ, rest, hrest, hdoc, _⟩ := hstanding
    rw [← hdoc]
    have hmoved : (cursor.docStep docid).1.Valid := docStep_advances.valid hvalid
    refine Nat.le_of_lt (hmoved.docids occ ?_)
    rw [hrest]
    exact List.mem_cons_self

end DocStep

theorem nextPos_advances (hstanding : cursor.Standing doc) :
    Advances (doc + 1) cursor cursor.nextPos.1 := by
  obtain ⟨occ, rest, hrest, hdoc, _⟩ := hstanding
  have htail : Advances (doc + 1) cursor { cursor with rest := rest } :=
    { weighted := rfl
      word := rfl
      suffix := by rw [hrest]; exact List.suffix_cons ..
      kept := fun other hmem hbound _ => by
        rw [hrest] at hmem
        rcases List.mem_cons.mp hmem with rfl | hmem
        · omega
        · exact hmem }
  have hdrop : Advances (doc + 1) { cursor with rest := rest } cursor.nextPos.1 := by
    simp only [nextPos, hrest]
    refine advances_dropWhile fun next hskip => ?_
    rw [Bool.and_eq_true_iff, beq_iff_eq, beq_iff_eq] at hskip
    exact Or.inr hskip.2
  exact htail.trans hdrop

/-- Only the occurrence on which the word stood is passed in the document. -/
theorem nextPos_hit (hstanding : cursor.Standing doc) (hhit : cursor.Hit doc p)
    (hne : p ≠ cursor.position) : cursor.nextPos.1.Hit doc p := by
  obtain ⟨occ, rest, hrest, hdoc, _⟩ := hstanding
  obtain ⟨other, hmem, hother, hpos, hweigh⟩ := hhit
  rw [position, hrest] at hne
  rw [hrest] at hmem
  have hin : other ∈ rest := by
    rcases List.mem_cons.mp hmem with rfl | hmem
    · exact absurd hpos.symm hne
    · exact hmem
  have hdrop : Advances 0 { cursor with rest := rest } cursor.nextPos.1 := by
    simp only [nextPos, hrest]
    refine advances_dropWhile fun next hskip => ?_
    rw [Bool.and_eq_true_iff, beq_iff_eq, beq_iff_eq] at hskip
    exact Or.inr hskip.2
  exact ⟨other, hdrop.kept other hin (Nat.zero_le _) hweigh, hother, hpos, hdrop.weigh ▸ hweigh⟩

theorem nextPos_cases (hstanding : cursor.Standing doc) (hvalid : cursor.Valid) :
    (cursor.nextPos.2 = true ∧ cursor.nextPos.1.Standing doc) ∨
      (cursor.nextPos.2 = false ∧ ∀ before ≤ doc, ∀ p, ¬ cursor.nextPos.1.Hit before p) := by
  have hadv := nextPos_advances hstanding
  have hbefore := fun before (hlt : before < doc) p (hhit : cursor.nextPos.1.Hit before p) =>
    hstanding.not_hit_before hvalid hlt (hadv.hit hhit)
  have hmoved := hadv.valid hvalid
  obtain ⟨occ, rest, hrest, hdoc, hweigh⟩ := hstanding
  cases hdrop : rest.dropWhile
      (fun next => next.docid == occ.docid && cursor.weigh next == 0) with
  | nil =>
      refine Or.inr ⟨by simp only [nextPos, hrest, hdrop], fun before _ p hhit => ?_⟩
      obtain ⟨other, hmem, _⟩ := hhit
      simp only [nextPos, hrest, hdrop] at hmem
      cases hmem
  | cons next rest' =>
      have hthis : cursor.nextPos = ({ cursor with rest := next :: rest' }, next.docid == occ.docid) := by
        simp only [nextPos, hrest, hdrop]
      have hhead := dropWhile_head hdrop
      rw [Bool.and_eq_false_iff] at hhead
      rw [hthis] at hmoved hbefore ⊢
      cases hsame : next.docid == occ.docid with
      | true =>
          have hzero : cursor.weigh next ≠ 0 := by
            rcases hhead with hother | hzero
            · rw [hsame] at hother
              cases hother
            · exact beq_eq_false_iff_ne.mp hzero
          exact Or.inl ⟨rfl, next, rest', rfl, (beq_iff_eq.mp hsame).trans hdoc, hzero⟩
      | false =>
          refine Or.inr ⟨rfl, fun before hle p hhit => ?_⟩
          rcases Nat.lt_or_eq_of_le hle with hlt | rfl
          · exact hbefore before hlt p hhit
          · obtain ⟨other, hmem, hother, _⟩ := hhit
            have hfirst : occ.Before next := by
              have hordered := hvalid.ordered
              rw [hrest] at hordered
              have hsuffix : next :: rest' <:+ rest := by
                rw [← hdrop]
                exact List.dropWhile_suffix _
              exact List.rel_of_pairwise_cons hordered (hsuffix.subset List.mem_cons_self)
            have hlater : occ.docid < next.docid := by
              rcases hfirst with hlt | ⟨heq, _⟩
              · exact hlt
              · exact absurd heq.symm (beq_eq_false_iff_ne.mp hsame)
            rcases List.mem_cons.mp hmem with rfl | hmem
            · omega
            · rcases List.rel_of_pairwise_cons hmoved.ordered hmem with hlt | ⟨heq, _⟩
              · omega
              · omega

end Cursor

/-! Phrases. -/

section Chains

variable {cursors moved third : List Cursor} {doc bound : Nat} {positions : List Nat}

/-- Consecutive words are in the phrase. -/
def Linked : List Cursor → List Nat → Prop
  | _ :: next :: cursors, p :: q :: positions =>
      inphrase p q next.word.distance = true ∧ Linked (next :: cursors) (q :: positions)
  | _, _ => True

structure Match (doc : Nat) (cursors : List Cursor) (positions : List Nat) : Prop where
  hits : List.Forall₂ (fun cursor p => cursor.Hit doc p) cursors positions
  linked : Linked cursors positions

/-- Nothing that is not in the phrase lies between the positions of consecutive words:
no occurrence of the next word behind an earlier one, and none of the word behind the
next one. -/
def Clean (doc : Nat) : List Cursor → List Nat → Prop
  | word :: next :: cursors, p :: q :: positions =>
      (∀ y, next.Hit doc y → p < y → y < q → inphrase p y next.word.distance = true) ∧
        (∀ x, word.Hit doc x → q ≤ x → x < p → inphrase x q next.word.distance = true) ∧
          Clean doc (next :: cursors) (q :: positions)
  | _, _ => True

abbrev AllAdvance (bound : Nat) : List Cursor → List Cursor → Prop :=
  List.Forall₂ (Cursor.Advances bound)

theorem AllAdvance.refl : AllAdvance bound cursors cursors :=
  List.forall₂_same.mpr fun _ _ => Cursor.Advances.refl

theorem AllAdvance.trans (hadv : AllAdvance bound cursors moved)
    (hnext : AllAdvance bound moved third) : AllAdvance bound cursors third := by
  induction hadv generalizing third with
  | nil => exact hnext
  | cons hfirst _ ih =>
      cases hnext with
      | cons hsecond hrest => exact .cons (hfirst.trans hsecond) (ih hrest)

theorem AllAdvance.mono {bound' : Nat} (hadv : AllAdvance bound cursors moved)
    (hle : bound ≤ bound') : AllAdvance bound' cursors moved :=
  hadv.imp fun _ _ hfirst => hfirst.mono hle

theorem AllAdvance.valid (hadv : AllAdvance bound cursors moved)
    (hvalid : ∀ cursor ∈ cursors, cursor.Valid) : ∀ cursor ∈ moved, cursor.Valid := by
  induction hadv with
  | nil => exact hvalid
  | cons hfirst _ ih =>
      rw [List.forall_mem_cons] at hvalid ⊢
      exact ⟨hfirst.valid hvalid.1, ih hvalid.2⟩

theorem AllAdvance.remaining_le (hadv : AllAdvance bound cursors moved) :
    remaining moved ≤ remaining cursors := by
  induction hadv with
  | nil => exact Nat.le_refl _
  | cons hfirst _ ih =>
      simp only [remaining, List.map_cons, List.sum_cons] at ih ⊢
      exact Nat.add_le_add hfirst.length ih

theorem linked_words (hadv : AllAdvance bound cursors moved) :
    Linked moved positions ↔ Linked cursors positions := by
  induction hadv generalizing positions with
  | nil => rfl
  | cons hfirst hrest ih =>
      cases hrest with
      | nil => cases positions <;> rfl
      | cons hsecond hrest =>
          rcases positions with _ | ⟨p, _ | ⟨q, positions⟩⟩
          · rfl
          · rfl
          · simp only [Linked, hsecond.word, ih]

theorem AllAdvance.matched (hadv : AllAdvance bound cursors moved)
    (hmatch : Match doc moved positions) : Match doc cursors positions where
  linked := (linked_words hadv).mp hmatch.linked
  hits := by
    have hhits := hmatch.hits
    clear hmatch
    induction hadv generalizing positions with
    | nil => exact hhits
    | cons hfirst _ ih =>
        cases hhits with
        | cons hhit hrest => exact .cons (hfirst.hit hhit) (ih hrest)

theorem AllAdvance.matched_iff (hadv : AllAdvance bound cursors moved) (hle : bound ≤ doc) :
    Match doc moved positions ↔ Match doc cursors positions := by
  refine ⟨hadv.matched, fun hmatch => ⟨?_, (linked_words hadv).mpr hmatch.linked⟩⟩
  have hhits := hmatch.hits
  clear hmatch
  induction hadv generalizing positions with
  | nil => exact hhits
  | cons hfirst _ ih =>
      cases hhits with
      | cons hhit hrest => exact .cons ((hfirst.hit_iff hle).mpr hhit) (ih hrest)

/-- There are less occurrences to lie between the positions. -/
theorem AllAdvance.clean (hadv : AllAdvance bound cursors moved)
    (hclean : Clean doc cursors positions) : Clean doc moved positions := by
  induction hadv generalizing positions with
  | nil => exact hclean
  | cons hfirst hrest ih =>
      cases hrest with
      | nil => cases positions <;> trivial
      | cons hsecond hrest =>
          rcases positions with _ | ⟨p, _ | ⟨q, positions⟩⟩
          · trivial
          · trivial
          · refine ⟨fun y hhit hlt hgt => ?_, fun x hhit hle hlt => ?_, ih hclean.2.2⟩
            · rw [hsecond.word]
              exact hclean.1 y (hsecond.hit hhit) hlt hgt
            · rw [hsecond.word]
              exact hclean.2.1 x (hfirst.hit hhit) hle hlt

/-- Every word occurs in the document. -/
def Full (doc : Nat) (cursors : List Cursor) : Prop := ∀ cursor ∈ cursors, ∃ p, cursor.Hit doc p

theorem Match.full (hmatch : Match doc cursors positions) : Full doc cursors := by
  have hhits := hmatch.hits
  clear hmatch
  induction hhits with
  | nil => exact fun cursor hmem => absurd hmem List.not_mem_nil
  | cons hhit _ ih => exact List.forall_mem_cons.mpr ⟨⟨_, hhit⟩, ih⟩

end Chains

end Sql602.Fulltext
