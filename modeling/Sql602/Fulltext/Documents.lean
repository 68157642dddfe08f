import Sql602.Fulltext.Scanning

namespace Sql602.Fulltext

variable {cursors moved : List Cursor} {first cursor : Cursor} {next : List Cursor} {doc docid : Nat}

/-! The next document of a word or a phrase. -/

theorem AllAdvance.full_iff {bound : Nat} (hadv : AllAdvance bound cursors moved)
    (hle : bound ≤ doc) : Full doc moved ↔ Full doc cursors := by
  induction hadv with
  | nil => rfl
  | cons hfirst _ ih =>
      simp only [Full, List.forall_mem_cons] at ih ⊢
      rw [ih]
      exact and_congr_left' (exists_congr fun p => hfirst.hit_iff hle)

/-- The words after a search for a common document. -/
structure Searched (docid : Nat) (cursors moved : List Cursor) (common : Nat) : Prop where
  advance : AllAdvance common cursors moved
  low : docid ≤ common
  le : common ≤ noDocId
  skips : ∀ doc, docid ≤ doc → doc < common → ¬ Full doc cursors

theorem stepAll_searched (hvalid : ∀ cursor ∈ cursors, cursor.Valid) (hle : docid ≤ noDocId) :
    Searched docid cursors (stepAll docid cursors).1 (stepAll docid cursors).2 ∧
      ((stepAll docid cursors).2 = docid → docid ≠ noDocId →
        ∀ cursor ∈ (stepAll docid cursors).1, cursor.Standing docid) := by
  induction cursors generalizing docid with
  | nil =>
      exact ⟨⟨.nil, Nat.le_refl _, hle, fun doc hfrom hlt => absurd hlt (Nat.not_lt.mpr hfrom)⟩,
        fun _ _ => fun cursor hmem => absurd hmem List.not_mem_nil⟩
  | cons cursor cursors ih =>
      obtain ⟨hfirst, hothers⟩ := List.forall_mem_cons.mp hvalid
      have hbounds := Cursor.docStep_le hfirst hle
      obtain ⟨hrest, hstanding⟩ := @ih (cursor.docStep docid).2 hothers hbounds.2
      have hfrom := hrest.low
      have hstep : Cursor.Advances docid cursor (cursor.docStep docid).1 := Cursor.docStep_advances
      refine ⟨⟨?_, Nat.le_trans hbounds.1 hfrom, hrest.le, ?_⟩, ?_⟩
      · exact .cons (hstep.mono (Nat.le_trans hbounds.1 hfrom)) hrest.advance
      · intro doc hdoc hlt hfull
        by_cases hbefore : doc < (cursor.docStep docid).2
        · obtain ⟨p, hhit⟩ := hfull cursor List.mem_cons_self
          exact Cursor.docStep_skips hfirst hdoc hbefore hhit
        · exact hrest.skips doc (Nat.le_of_not_lt hbefore) hlt (List.forall_mem_cons.mp hfull).2
      · intro hsame hne
        have hsame : (stepAll (cursor.docStep docid).2 cursors).2 = docid := hsame
        have hdoc : (cursor.docStep docid).2 = docid := by omega
        rw [hdoc] at hstanding hsame
        show ∀ other ∈ (cursor.docStep docid).1 :: (stepAll (cursor.docStep docid).2 cursors).1,
          other.Standing docid
        rw [hdoc]
        refine List.forall_mem_cons.mpr ⟨?_, hstanding hsame hne⟩
        rcases @Cursor.docStep_cases cursor docid with ⟨_, hnone⟩ | ⟨hhere, _⟩
        · omega
        · rwa [hdoc] at hhere

theorem commonDoc_searched {fuel : Nat}
    (hfuel : remaining ((first.docStep docid).1 :: next) + 1 ≤ fuel)
    (hvalid : ∀ cursor ∈ first :: next, cursor.Valid) (hle : docid ≤ noDocId) :
    Searched docid (first :: next)
        ((commonDoc fuel docid first next).1.1 :: (commonDoc fuel docid first next).1.2)
        (commonDoc fuel docid first next).2 ∧
      ((commonDoc fuel docid first next).2 ≠ noDocId →
        ∀ cursor ∈ (commonDoc fuel docid first next).1.1 :: (commonDoc fuel docid first next).1.2,
          cursor.Standing (commonDoc fuel docid first next).2) := by
  induction fuel generalizing docid first next with
  | zero => omega
  | succ fuel ih =>
      obtain ⟨hfirst, hothers⟩ := List.forall_mem_cons.mp hvalid
      have hbounds := Cursor.docStep_le hfirst hle
      have hstep : Cursor.Advances docid first (first.docStep docid).1 := Cursor.docStep_advances
      have hskips := @Cursor.docStep_skips first
      have hcases := @Cursor.docStep_cases first docid
      rw [commonDoc]
      rcases hthis : first.docStep docid with ⟨first', start⟩
      rw [hthis] at hbounds hstep hfuel hcases
      dsimp only at hbounds hstep hfuel hcases ⊢
      have hfirstSkips : ∀ doc, docid ≤ doc → doc < start → ¬ Full doc (first :: next) := by
        intro doc hfrom hlt hfull
        obtain ⟨p, hhit⟩ := hfull first List.mem_cons_self
        exact hskips hfirst hfrom (by rw [hthis]; exact hlt) hhit
      split
      case isTrue hend =>
        subst hend
        exact ⟨⟨.cons (hstep.mono hle) AllAdvance.refl, hle, Nat.le_refl _, hfirstSkips⟩,
          fun hne => absurd rfl hne⟩
      case isFalse hmore =>
        have hstanding : first'.Standing start := by
          rcases hcases with ⟨_, hnone⟩ | ⟨hstanding, _⟩
          · exact absurd hnone hmore
          · exact hstanding
        obtain ⟨hrest, hsame⟩ := @stepAll_searched next start hothers hbounds.2
        rcases hothis : stepAll start next with ⟨next', common⟩
        rw [hothis] at hrest hsame
        dsimp only at hrest hsame ⊢
        have hfrom := hrest.low
        have hadv : AllAdvance common (first :: next) (first' :: next') :=
          .cons (hstep.mono (Nat.le_trans hbounds.1 hfrom)) hrest.advance
        have hboth : Searched docid (first :: next) (first' :: next') common := by
          refine ⟨hadv, Nat.le_trans hbounds.1 hfrom, hrest.le, fun doc hdoc hlt => ?_⟩
          by_cases hbefore : doc < start
          · exact hfirstSkips doc hdoc hbefore
          · exact fun hfull => hrest.skips doc (Nat.le_of_not_lt hbefore) hlt
              (List.forall_mem_cons.mp hfull).2
        split
        case isTrue hend =>
          subst hend
          exact ⟨hboth, fun hne => absurd rfl hne⟩
        case isFalse hsome =>
          split
          case isTrue heq =>
            subst heq
            exact ⟨hboth, fun _ => List.forall_mem_cons.mpr ⟨hstanding, hsame rfl hmore⟩⟩
          case isFalse hdiff =>
            -- the first word has to move, because it stands before the common document
            have hshorter : (first'.docStep common).1.rest.length < first'.rest.length := by
              obtain ⟨occ, rest, hoccs, hocc, _⟩ := hstanding
              have hbefore : occ.docid < common := by omega
              simp only [Cursor.docStep, hoccs, List.dropWhile_cons, hbefore, decide_true,
                Bool.true_or, if_true, List.length_cons]
              exact Nat.lt_succ_of_le (List.dropWhile_suffix _).length_le
            have hless := hrest.advance.remaining_le
            obtain ⟨hfound, hstand⟩ := @ih first' next' common (by
              simp only [remaining, List.map_cons, List.sum_cons] at hfuel hless ⊢
              omega) (hadv.valid hvalid) hrest.le
            have hhigh := hfound.low
            refine ⟨⟨AllAdvance.trans (hadv.mono hhigh) hfound.advance,
              Nat.le_trans hboth.low hhigh, hfound.le, ?_⟩, hstand⟩
            intro doc hdoc hlt
            by_cases hbefore : doc < common
            · exact hboth.skips doc hdoc hbefore
            · rw [← hadv.full_iff (Nat.le_of_not_lt hbefore)]
              exact hfound.skips doc (Nat.le_of_not_lt hbefore) hlt

def Matched (doc : Nat) (cursors : List Cursor) : Prop := ∃ positions, Match doc cursors positions

theorem Matched.full (hmatched : Matched doc cursors) : Full doc cursors := by
  obtain ⟨positions, hmatch⟩ := hmatched
  exact hmatch.full

theorem AllAdvance.matched_doc {bound : Nat} (hadv : AllAdvance bound cursors moved)
    (hle : bound ≤ doc) : Matched doc moved ↔ Matched doc cursors :=
  exists_congr fun _ => hadv.matched_iff hle

/-- Where there is the phrase in a document, there is one with nothing else between its
words. -/
def AlwaysClean (cursors : List Cursor) : Prop :=
  ∀ doc, Matched doc cursors → ∃ positions, Match doc cursors positions ∧ Clean doc cursors positions

theorem AlwaysClean.advance {bound : Nat} (hclean : AlwaysClean cursors)
    (hadv : AllAdvance bound cursors moved) (hspent : ∀ before < bound, ¬ Full before moved) :
    AlwaysClean moved := by
  intro doc hmatched
  have hle : bound ≤ doc := Nat.le_of_not_lt fun hlt => hspent doc hlt hmatched.full
  obtain ⟨positions, hmatch, hthis⟩ := hclean doc ((hadv.matched_doc hle).mp hmatched)
  exact ⟨positions, (hadv.matched_iff hle).mpr hmatch, hadv.clean hthis⟩

namespace Leaf

def chain (leaf : Leaf) : List Cursor := leaf.first :: leaf.next

/-- A leaf after the search for its next document. -/
structure Step (leaf moved : Leaf) : Prop where
  negated : moved.negated = leaf.negated
  advance : AllAdvance (moved.currentDocid + 1) leaf.chain moved.chain
  le : moved.currentDocid ≤ noDocId
  skips : ∀ doc < moved.currentDocid, ¬ Matched doc leaf.chain
  here : moved.currentDocid ≠ noDocId →
    Matched moved.currentDocid leaf.chain ∧ 0 < moved.currentWeight
  spent : moved.currentDocid ≠ noDocId → ∀ before ≤ moved.currentDocid, ¬ Full before moved.chain

theorem placed_chain {leaf : Leaf} (hne : cursors ≠ []) : (leaf.placed cursors).chain = cursors := by
  cases cursors with
  | nil => exact absurd rfl hne
  | cons first next => rfl

theorem placed_negated {leaf : Leaf} : (leaf.placed cursors).negated = leaf.negated := by
  cases cursors <;> rfl

theorem nextPhrase_step {fuel : Nat} {leaf : Leaf} (hfuel : remaining leaf.chain < fuel)
    (hvalid : ∀ cursor ∈ leaf.chain, cursor.Valid) (hclean : AlwaysClean leaf.chain) :
    Step leaf (leaf.nextPhrase fuel) := by
  induction fuel generalizing leaf with
  | zero => exact absurd hfuel (Nat.not_lt_zero _)
  | succ fuel ih =>
      rw [nextPhrase]
      have hsearched := @commonDoc_searched leaf.first leaf.next 0
        (remaining (leaf.first :: leaf.next) + 1) (by
          have hstep : Cursor.Advances 0 leaf.first (leaf.first.docStep 0).1 :=
            Cursor.docStep_advances
          have hless : AllAdvance 0 (leaf.first :: leaf.next)
            ((leaf.first.docStep 0).1 :: leaf.next) := .cons hstep AllAdvance.refl
          exact Nat.succ_le_succ hless.remaining_le) hvalid (Nat.zero_le _)
      rcases hcommonDoc : commonDoc (remaining (leaf.first :: leaf.next) + 1) 0 leaf.first
        leaf.next with ⟨⟨first, next⟩, common⟩
      rw [hcommonDoc] at hsearched
      obtain ⟨hsearched, hstanding⟩ := hsearched
      dsimp only at hsearched hstanding ⊢
      split
      case isTrue hend =>
        subst hend
        exact
          { negated := rfl
            advance := hsearched.advance.mono (Nat.le_succ _)
            le := Nat.le_refl _
            skips := fun doc hlt hmatched => hsearched.skips doc (Nat.zero_le _) hlt hmatched.full
            here := fun hne => absurd rfl hne
            spent := fun hne => absurd rfl hne }
      case isFalse hsome =>
        have hscanned := @scan_scanned (first :: next) common (remaining (first :: next) + 1) 0
          leaf.currentPosition (Nat.lt_succ_self _) (by simp) (hstanding hsome)
          (hsearched.advance.valid hvalid)
        rcases hscan : scan (remaining (first :: next) + 1) (first :: next) 0
          leaf.currentPosition with ⟨moved, total, position⟩
        rw [hscan] at hscanned
        dsimp only at hscanned ⊢
        have hcommon : common < noDocId := Nat.lt_of_le_of_ne hsearched.le hsome
        have hne : moved ≠ [] := by
          rintro rfl
          cases hscanned.advance
        have hadv : AllAdvance (common + 1) leaf.chain moved :=
          AllAdvance.trans (hsearched.advance.mono (Nat.le_succ _)) hscanned.advance
        have hspent : ∀ before < common + 1, ¬ Full before moved :=
          fun before hlt => hscanned.spent before (Nat.le_of_lt_succ hlt)
        have hbelow : ∀ doc < common, ¬ Matched doc leaf.chain := fun doc hlt hmatched =>
          hsearched.skips doc (Nat.zero_le _) hlt hmatched.full
        split
        case isTrue hzero =>
          have hcursors : ({ leaf.placed moved with currentPosition := position } : Leaf).chain =
              moved := placed_chain hne
          have hnone : ¬ Matched common leaf.chain := by
            intro hmatched
            obtain ⟨positions, hmatch, hthis⟩ := hclean common hmatched
            have hfound := hscanned.finds ⟨positions,
              (hsearched.advance.matched_iff (Nat.le_refl _)).mpr hmatch,
              hsearched.advance.clean hthis⟩
            omega
          have hshorter := hscanned.shorter
          have hless := hsearched.advance.remaining_le
          have hrest := @ih { leaf.placed moved with currentPosition := position }
            (by
              rw [hcursors]
              have hbound : remaining (leaf.first :: leaf.next) < fuel + 1 := hfuel
              omega)
            (by rw [hcursors]; exact hadv.valid hvalid)
            (by rw [hcursors]; exact hclean.advance hadv hspent)
          obtain ⟨hnegated, hadvance, hle, hskips, hhere, hspent'⟩ := hrest
          rw [hcursors] at hadvance hskips hhere
          have hafter : common < (nextPhrase fuel
              { leaf.placed moved with currentPosition := position }).currentDocid := by
            by_contra hnot
            have hlow := Nat.le_of_not_lt hnot
            have hdoc := (hhere (Nat.ne_of_lt (Nat.lt_of_le_of_lt hlow hcommon))).1.full
            exact hspent _ (Nat.lt_succ_of_le hlow) hdoc
          refine ⟨hnegated.trans placed_negated,
            AllAdvance.trans (hadv.mono (Nat.succ_le_succ (Nat.le_of_lt hafter))) hadvance, hle,
            ?_, ?_, hspent'⟩
          · intro doc hlt hmatched
            rcases Nat.lt_trichotomy doc common with hbefore | rfl | hbehind
            · exact hbelow doc hbefore hmatched
            · exact hnone hmatched
            · exact hskips doc hlt ((hadv.matched_doc hbehind).mpr hmatched)
          · intro hmore
            obtain ⟨hmatched, hweight⟩ := hhere hmore
            exact ⟨(hadv.matched_doc hafter).mp hmatched, hweight⟩
        case isFalse hfound =>
          have hcursors : ({ leaf.placed moved with
              currentPosition := position, currentDocid := common, currentWeight := total } :
                Leaf).chain = moved := placed_chain hne
          refine ⟨placed_negated, by rw [hcursors]; exact hadv, hsearched.le, hbelow, ?_, ?_⟩
          · intro _
            obtain ⟨positions, hmatch⟩ := hscanned.sound (Nat.pos_of_ne_zero hfound)
            exact ⟨⟨positions, hsearched.advance.matched hmatch⟩, Nat.pos_of_ne_zero hfound⟩
          · intro _ before hle
            rw [hcursors]
            exact hspent before (Nat.lt_succ_of_le hle)

/-! A single word. -/

theorem matched_single : Matched doc [cursor] ↔ ∃ p, cursor.Hit doc p := by
  constructor
  · rintro ⟨positions, hhits, _⟩
    cases hhits with
    | cons hhit _ => exact ⟨_, hhit⟩
  · rintro ⟨p, hhit⟩
    exact ⟨[p], .cons hhit .nil, trivial⟩

theorem sumWeights_spec {weigh : Occurrence → Nat} {total : Nat} {rest : List Occurrence}
    (hfrom : ∀ occ ∈ rest, docid ≤ occ.docid) (hordered : rest.Pairwise Occurrence.Before) :
    (sumWeights weigh docid total rest).2 <:+ rest ∧
      (∀ occ ∈ rest, docid < occ.docid → occ ∈ (sumWeights weigh docid total rest).2) ∧
      (∀ occ ∈ (sumWeights weigh docid total rest).2, docid < occ.docid) ∧
      ((sumWeights weigh docid total rest).1 = 0 ↔
        total = 0 ∧ ∀ occ ∈ rest, occ.docid = docid → weigh occ = 0) := by
  induction rest generalizing total with
  | nil => simp [sumWeights]
  | cons occ rest ih =>
      obtain ⟨hfirst, hothers⟩ := List.forall_mem_cons.mp hfrom
      rw [sumWeights]
      split
      case isTrue hsame =>
        obtain ⟨hsuffix, hkept, hbehind, hzero⟩ :=
          @ih (total + weigh occ) hothers (List.pairwise_cons.mp hordered).2
        refine ⟨hsuffix.trans (List.suffix_cons ..), ?_, hbehind, ?_⟩
        · refine List.forall_mem_cons.mpr ⟨fun hlt => ?_, hkept⟩
          omega
        · rw [hzero, List.forall_mem_cons]
          constructor
          · rintro ⟨hsum, hall⟩
            exact ⟨by omega, fun _ => by omega, hall⟩
          · rintro ⟨htotal, hocc, hall⟩
            have hocc := hocc hsame
            exact ⟨by omega, hall⟩
      case isFalse hdiff =>
        have hbehind : ∀ other ∈ occ :: rest, docid < other.docid := by
          refine List.forall_mem_cons.mpr ⟨by omega, fun other hmem => ?_⟩
          rcases List.rel_of_pairwise_cons hordered hmem with hlt | ⟨heq, _⟩
          · omega
          · omega
        refine ⟨List.suffix_refl _, fun other hmem _ => hmem, hbehind, ?_⟩
        constructor
        · intro hzero
          refine ⟨hzero, fun other hmem hother => ?_⟩
          have hthis := hbehind other hmem
          omega
        · exact fun hzero => hzero.1

theorem nextWord_step {fuel : Nat} {leaf : Leaf} {rest : List Occurrence} (hfuel : rest.length < fuel)
    (hsingle : leaf.next = []) (hvalid : ({ leaf.first with rest := rest } : Cursor).Valid) :
    Step { leaf with first := { leaf.first with rest := rest } } (leaf.nextWord fuel rest) := by
  induction fuel generalizing rest with
  | zero => exact absurd hfuel (Nat.not_lt_zero _)
  | succ fuel ih =>
      have hcursors : ∀ rest, ({ leaf with first := { leaf.first with rest := rest } } :
          Leaf).chain = [{ leaf.first with rest := rest }] := by
        intro rest
        rw [chain, hsingle]
      cases rest with
      | nil =>
          refine ⟨rfl, AllAdvance.refl, Nat.le_refl _, ?_, fun hne => absurd rfl hne,
            fun hne => absurd rfl hne⟩
          intro doc _ hmatched
          rw [hcursors, matched_single] at hmatched
          obtain ⟨p, occ, hmem, _⟩ := hmatched
          cases hmem
      | cons occ rest =>
          have hordered := hvalid.ordered
          have hfrom : ∀ other ∈ rest, occ.docid ≤ other.docid := by
            intro other hmem
            rcases List.rel_of_pairwise_cons hordered hmem with hlt | ⟨heq, _⟩
            · omega
            · omega
          obtain ⟨hsuffix, hkept, hbehind, hzero⟩ := @sumWeights_spec occ.docid leaf.first.weigh
            (leaf.first.weigh occ) rest hfrom (List.pairwise_cons.mp hordered).2
          rw [nextWord]
          rcases hsum : sumWeights leaf.first.weigh occ.docid (leaf.first.weigh occ) rest with
            ⟨total, rest'⟩
          rw [hsum] at hsuffix hkept hbehind hzero
          dsimp only at hsuffix hkept hbehind hzero ⊢
          have hadv : Cursor.Advances (occ.docid + 1) { leaf.first with rest := occ :: rest }
              { leaf.first with rest := rest' } :=
            { weighted := rfl
              word := rfl
              suffix := hsuffix.trans (List.suffix_cons ..)
              kept := fun other hmem hlt _ => by
                rcases List.mem_cons.mp hmem with rfl | hmem
                · omega
                · exact hkept other hmem hlt }
          have hbelow : ∀ doc < occ.docid, ¬ Matched doc
              ({ leaf with first := { leaf.first with rest := occ :: rest } } : Leaf).chain := by
            intro doc hlt hmatched
            rw [hcursors, matched_single] at hmatched
            obtain ⟨p, other, hmem, hother, _⟩ := hmatched
            rcases List.mem_cons.mp hmem with rfl | hmem
            · omega
            · have hle := hfrom other hmem
              omega
          have hspent : ∀ before ≤ occ.docid, ∀ p,
              ¬ ({ leaf.first with rest := rest' } : Cursor).Hit before p := by
            rintro before hle p ⟨other, hmem, hother, _⟩
            have hlt := hbehind other hmem
            omega
          split
          case isTrue htotal =>
            obtain ⟨hnegated, hadvance, hle, hskips, hhere, hspent'⟩ :=
              ih (Nat.lt_of_le_of_lt hsuffix.length_le (Nat.lt_of_succ_lt_succ hfuel))
                (hadv.valid hvalid)
            rw [hcursors] at hadvance hskips hhere
            have hafter : occ.docid < (leaf.nextWord fuel rest').currentDocid := by
              by_contra hnot
              have hdocid := hvalid.docids occ List.mem_cons_self
              have hmatched := (hhere (by omega)).1
              rw [matched_single] at hmatched
              obtain ⟨p, hhit⟩ := hmatched
              exact hspent _ (by omega) p hhit
            have hnone : ¬ Matched occ.docid [{ leaf.first with rest := occ :: rest }] := by
              rw [matched_single]
              rintro ⟨p, other, hmem, hother, _, hweigh⟩
              obtain ⟨hocc, hall⟩ := hzero.mp htotal
              rcases List.mem_cons.mp hmem with rfl | hmem
              · exact hweigh hocc
              · exact hweigh (hall other hmem hother)
            refine ⟨hnegated, ?_, hle, ?_, ?_, hspent'⟩
            · rw [hcursors]
              exact AllAdvance.trans (.cons (hadv.mono (Nat.succ_le_succ (Nat.le_of_lt hafter))) .nil)
                hadvance
            · intro doc hlt hmatched
              rcases Nat.lt_trichotomy doc occ.docid with hbefore | rfl | hlater
              · exact hbelow doc hbefore hmatched
              · rw [hcursors] at hmatched
                exact hnone hmatched
              · rw [hcursors] at hmatched
                refine hskips doc hlt ?_
                exact (AllAdvance.matched_doc (.cons hadv .nil) hlater).mpr hmatched
            · intro hne
              obtain ⟨hmatched, hweight⟩ := hhere hne
              rw [hcursors]
              exact ⟨(AllAdvance.matched_doc (.cons hadv .nil) hafter).mp hmatched, hweight⟩
          case isFalse htotal =>
            refine ⟨rfl, ?_, Nat.le_of_lt (hvalid.docids occ List.mem_cons_self), hbelow, ?_, ?_⟩
            · rw [hcursors, chain, hsingle]
              exact .cons hadv .nil
            · intro _
              refine ⟨?_, Nat.pos_of_ne_zero htotal⟩
              rw [hcursors, matched_single]
              by_contra hnone
              refine htotal (hzero.mpr ⟨?_, fun other hmem hother => ?_⟩)
              · by_contra hweigh
                exact hnone ⟨_, occ, List.mem_cons_self, rfl, rfl, hweigh⟩
              · by_contra hweigh
                exact hnone ⟨_, other, List.mem_cons_of_mem _ hmem, hother, rfl, hweigh⟩
            · intro _ before hle hfull
              obtain ⟨p, hhit⟩ := hfull _ List.mem_cons_self
              exact hspent before hle p hhit

end Leaf

end Sql602.Fulltext
