import Sql602.Library.Run
import Sql602.Table.BipointerWrites

namespace Sql602.Table

variable {tables : Tables} {values deleted linked : Values} {c d : Column} {a x y old new : Nat}

theorem ne_of_lt_recs (hlt : x < recs tables c) : x ≠ noRecnum :=
  Nat.ne_of_lt (Nat.lt_of_lt_of_le hlt (tables c.1).recnum_le)

/-! What a record holds after the links of one write are made. -/

section Deleted

variable (hlinked : biTables tables d = some c) (hrecnum : a ≠ noRecnum)
  (hback : old < recs tables d → a ∈ held tables values d old)
  (hout : deleteAntilink tables d values a old = some deleted)

include hlinked hrecnum hback hout

theorem deleted_other {col : Column} (hne : ¬ (col = d ∧ x = old)) :
    deleted col x = values col x := by
  by_cases hval : old ≠ noRecnum ∧ old < recs tables d
  · obtain ⟨attr, rfl, _⟩ := deleteAntilink_some hlinked hval hrecnum (hback hval.2) hout
    exact Values.update_other hne
  · rw [deleteAntilink_none hval] at hout
    rw [Option.some.inj hout]

theorem mem_deleted (hx : x < recs tables c) (hy : y < recs tables d) :
    x ∈ held tables deleted d y ↔
      (y = old → x = a → 1 < (held tables values d old).count a) ∧ x ∈ held tables values d y := by
  by_cases hval : old ≠ noRecnum ∧ old < recs tables d
  · obtain ⟨attr, rfl, hattr⟩ := deleteAntilink_some hlinked hval hrecnum (hback hval.2) hout
    rw [held_update]
    split
    case isTrue hsame =>
      obtain ⟨_, rfl⟩ := hsame
      rw [hattr x (ne_of_lt_recs hx)]
      constructor
      · rintro (⟨hne, hmem⟩ | ⟨rfl, hcount⟩)
        · exact ⟨fun _ heq => absurd heq hne, hmem⟩
        · exact ⟨fun _ _ => hcount, hback hval.2⟩
      · rintro ⟨hcount, hmem⟩
        by_cases heq : x = a
        · exact Or.inr ⟨heq, hcount rfl heq⟩
        · exact Or.inl ⟨heq, hmem⟩
    case isFalse hne =>
      exact ⟨fun hmem => ⟨fun heq => absurd ⟨rfl, heq⟩ hne, hmem⟩, fun hmem => hmem.2⟩
  · rw [deleteAntilink_none hval] at hout
    rw [← Option.some.inj hout]
    refine ⟨fun hmem => ⟨fun heq => ?_, hmem⟩, fun hmem => hmem.2⟩
    subst heq
    exact absurd ⟨ne_of_lt_recs hy, hy⟩ hval

end Deleted

section Created

variable (hlinked : biTables tables c = some d) (hrecnum : a ≠ noRecnum)
  (hout : createAntilink tables d deleted c a new = some linked)

include hlinked hrecnum hout

theorem mem_created (hapart : c ≠ d ∨ Multi tables d) (hy : y < recs tables d) :
    x ∈ held tables linked d y ↔
      (y = new ∧ x = a) ∨ ((y = new → Multi tables d) ∧ x ∈ held tables deleted d y) := by
  by_cases hval : new ≠ noRecnum ∧ new < recs tables d
  · obtain ⟨freed, attr, rfl, hattr, hfreed⟩ := createAntilink_some hlinked hval hrecnum hout
    have hsame : held tables freed d y = held tables deleted d y := by
      rcases hfreed with ⟨rfl, _⟩ | ⟨recnum3, attr3, htaken, _, rfl⟩
      · rfl
      · rw [held_update, if_neg]
        rintro ⟨rfl, _⟩
        rcases hapart with hne | hmulti
        · exact hne rfl
        · exact htaken.1 hmulti
    rw [held_update, hsame]
    split
    case isTrue heq =>
      obtain ⟨_, rfl⟩ := heq
      rw [hattr]
      constructor
      · rintro (rfl | hold)
        · exact Or.inl ⟨rfl, rfl⟩
        · exact Or.inr ⟨fun _ => hold.1, hold.2⟩
      · rintro (⟨_, rfl⟩ | hold)
        · exact Or.inl rfl
        · exact Or.inr ⟨hold.1 rfl, hold.2⟩
    case isFalse hne =>
      constructor
      · exact fun hmem => Or.inr ⟨fun heq => absurd ⟨rfl, heq⟩ hne, hmem⟩
      · rintro (⟨heq, _⟩ | hmem)
        · exact absurd ⟨rfl, heq⟩ hne
        · exact hmem.2
  · rw [createAntilink_none hval] at hout
    rw [← Option.some.inj hout]
    constructor
    · refine fun hmem => Or.inr ⟨fun heq => ?_, hmem⟩
      subst heq
      exact absurd ⟨ne_of_lt_recs hy, hy⟩ hval
    · rintro (⟨rfl, _⟩ | hmem)
      · exact absurd ⟨ne_of_lt_recs hy, hy⟩ hval
      · exact hmem.2

theorem created_other (hne : ¬ (c = d ∧ x = new))
    (hnot : new < recs tables d → ¬ Taken tables c d deleted new x) :
    linked c x = deleted c x := by
  by_cases hval : new ≠ noRecnum ∧ new < recs tables d
  · obtain ⟨freed, attr, rfl, _, hfreed⟩ := createAntilink_some hlinked hval hrecnum hout
    rw [Values.update_other hne]
    rcases hfreed with ⟨rfl, _⟩ | ⟨recnum3, attr3, htaken, _, rfl⟩
    · rfl
    · refine Values.update_other ?_
      rintro ⟨_, rfl⟩
      exact hnot hval.2 htaken
  · rw [createAntilink_none hval] at hout
    rw [Option.some.inj hout]

theorem created_taken (hne : c ≠ d) (hnew : new < recs tables d)
    (htaken : Taken tables c d deleted new x) : Freed tables c new (deleted c x) (linked c x) := by
  obtain ⟨freed, attr, rfl, _, hfreed⟩ :=
    createAntilink_some hlinked ⟨ne_of_lt_recs hnew, hnew⟩ hrecnum hout
  rw [Values.update_other fun heq => hne heq.1]
  rcases hfreed with ⟨_, hnone⟩ | ⟨recnum3, attr3, htaken3, hfreed, rfl⟩
  · exact absurd htaken (hnone x)
  · have hsame : recnum3 = x := htaken3.2.1.symm.trans htaken.2.1
    subst hsame
    rwa [Values.update_same]

end Created

theorem Freed.mem {attr attr3 : Attr} (hfreed : Freed tables c new attr attr3)
    (hcount : (attr.valid tables c).count new ≤ 1) (hmem : new ∈ attr.valid tables c)
    (hy : y ≠ noRecnum) : y ∈ attr3.valid tables c ↔ y ≠ new ∧ y ∈ attr.valid tables c := by
  cases hfreed with
  | absent hmulti hnot =>
      rw [show attr.valid tables c = _ from if_pos hmulti] at hmem
      exact absurd hmem hnot
  | removed hmulti index hlt hcell =>
      rw [show attr.valid tables c = _ from if_pos hmulti] at hcount hmem ⊢
      have hperm := Attr.removeAt_erase hlt
      rw [hcell] at hperm
      rw [show (attr.removeAt index).valid tables c = _ from if_pos hmulti, hperm.mem_iff,
        mem_erase_count]
      constructor
      · rintro (hother | ⟨_, hmore⟩)
        · exact hother
        · omega
      · exact Or.inl
  | single hsingle =>
      rw [show attr.valid tables c = _ from if_neg hsingle, List.mem_singleton] at hmem ⊢
      rw [show (attr.set 0 noRecnum).valid tables c = _ from if_neg hsingle, List.mem_singleton,
        ← hmem]
      simp only [Attr.set, Function.update_self]
      exact ⟨fun heq => absurd heq hy, fun hne => absurd hne.2 hne.1⟩

/-! Symmetry is kept by a write. -/

def Symmetric (tables : Tables) (c d : Column) (values : Values) : Prop :=
  ∀ a b, a < recs tables c → b < recs tables d →
    (b ∈ held tables values c a ↔ a ∈ held tables values d b)

theorem Symmetric.swap (hsym : Symmetric tables c d values) : Symmetric tables d c values :=
  fun b a hb ha => (hsym a b ha hb).symm

/-- A written attribute holds the new value in the place of the old one. -/
def Replaced (tables : Tables) (c : Column) (before attr : Attr) (old new : Nat) : Prop :=
  ∀ b, b ≠ noRecnum → (b ∈ attr.valid tables c ↔
    b = new ∨ (b ≠ old ∧ b ∈ before.valid tables c) ∨
      (b = old ∧ 1 < (before.valid tables c).count old))

/-- The conditions under which a write keeps the symmetry. A removed value is still
there on both sides or on none, and a value is taken away from a third record as a
whole. -/
structure Clear (tables : Tables) (d : Column) (values : Values) (c : Column)
    (a old new : Nat) : Prop where
  apart : c = d → old ≠ a ∧ new ≠ a
  removed : old < recs tables d → old ≠ new →
    (1 < (held tables values c a).count old ↔ 1 < (held tables values d old).count a)
  taken : new < recs tables d → new ≠ old → ¬ Multi tables d →
    (values d new).cells 0 < recs tables c → (values d new).cells 0 ≠ a →
      (held tables values c ((values d new).cells 0)).count new ≤ 1

section Kept

variable {attr : Attr} (hlinked : biTables tables c = some d)
  (hkind : c ≠ d ∨ Multi tables d) (hsym : Symmetric tables c d values)
  (hclear : Clear tables d values c a old new) (ha : a < recs tables c)
  (hold : old < recs tables d → old ∈ held tables values c a)
  (hreplaced : Replaced tables c (values c a) attr old new)
  (hout : biptrWrite tables d values c a old new = some linked)

include hlinked hkind hsym hclear ha hold hreplaced hout

theorem kept_written (hy : y < recs tables d) (hne : ¬ (c = d ∧ y = a)) :
    y ∈ held tables (linked.update c a attr) c a ↔
      a ∈ held tables (linked.update c a attr) d y := by
  obtain ⟨deleted, hdeleted, hcreated⟩ := Option.bind_eq_some_iff.mp hout
  have hback : old < recs tables d → a ∈ held tables values d old :=
    fun hlt => (hsym a old ha hlt).mp (hold hlt)
  have hnum := ne_of_lt_recs ha
  rw [held_update, if_pos ⟨rfl, rfl⟩, held_update, if_neg fun heq => hne ⟨heq.1.symm, heq.2⟩,
    mem_created hlinked hnum hcreated hkind hy,
    mem_deleted (biTables_symm hlinked) hnum hback hdeleted ha hy, hreplaced y (ne_of_lt_recs hy),
    ← hsym a y ha hy]
  have hheld : held tables values c a = (values c a).valid tables c := rfl
  have hremoved := hclear.removed
  rw [hheld] at hremoved ⊢
  by_cases hnew : y = new
  · subst hnew
    simp
  · by_cases holds : y = old
    · subst holds
      have hremoved := hremoved hy hnew
      have hmem := hold hy
      rw [hheld] at hmem
      simp only [hnew, hmem, hremoved]
      simp
    · simp [hnew, holds]

omit hreplaced in
theorem kept_other (hx : x < recs tables c) (hy : y < recs tables d) (hxa : x ≠ a)
    (hne : ¬ (c = d ∧ y = a)) :
    y ∈ held tables (linked.update c a attr) c x ↔
      x ∈ held tables (linked.update c a attr) d y := by
  obtain ⟨deleted, hdeleted, hcreated⟩ := Option.bind_eq_some_iff.mp hout
  have hback : old < recs tables d → a ∈ held tables values d old :=
    fun hlt => (hsym a old ha hlt).mp (hold hlt)
  have hnum := ne_of_lt_recs ha
  have hlinks := biTables_symm hlinked
  rw [held_update, if_neg fun heq => hxa heq.2, held_update,
    if_neg fun heq => hne ⟨heq.1.symm, heq.2⟩, mem_created hlinked hnum hcreated hkind hy]
  have hdel := mem_deleted hlinks hnum hback hdeleted hx hy
  by_cases hself : c = d
  · subst hself
    have hya : y ≠ a := fun heq => hne ⟨rfl, heq⟩
    rw [mem_created hlinked hnum hcreated hkind hx, hdel,
      mem_deleted hlinks hnum hback hdeleted hy hx, hsym x y hx hy]
    simp [hxa, hya, hkind.resolve_left (not_not_intro rfl)]
  have hsame : deleted c x = values c x :=
    deleted_other hlinks hnum hback hdeleted fun heq => hself heq.1
  have hheld : held tables deleted c x = held tables values c x := by rw [held, hsame, held]
  by_cases htaken : new < recs tables d ∧ Taken tables c d deleted new x
  · obtain ⟨hnew, htaken⟩ := htaken
    have hin : x ∈ held tables values d new := by
      refine ((mem_deleted hlinks hnum hback hdeleted hx hnew).mp ?_).2
      rw [held, Attr.valid, if_neg htaken.1, List.mem_singleton]
      exact htaken.2.1.symm
    have hcell : (values d new).cells 0 = x := by
      rw [held, Attr.valid, if_neg htaken.1, List.mem_singleton] at hin
      exact hin.symm
    have hnewold : new ≠ old := by
      intro heq
      have hthis := hback (heq ▸ hnew)
      rw [← heq, held, Attr.valid, if_neg htaken.1, List.mem_singleton, hcell] at hthis
      exact hxa hthis.symm
    have hcount := hclear.taken hnew hnewold htaken.1 (by rwa [hcell]) (by rwa [hcell])
    rw [hcell] at hcount
    have hfreed := created_taken hlinked hnum hcreated hself hnew htaken
    rw [hsame] at hfreed
    have hthere : y ∈ held tables linked c x ↔ y ≠ new ∧ y ∈ held tables values c x :=
      hfreed.mem hcount ((hsym x new hx hnew).mpr hin) (ne_of_lt_recs hy)
    rw [hthere, hdel, hsym x y hx hy]
    simp [hxa, htaken.1]
  · rw [show held tables linked c x = held tables values c x by
      rw [← hheld, held, created_other hlinked hnum hcreated (fun heq => hself heq.1)
        fun hnew hthis => htaken ⟨hnew, hthis⟩, held]]
    have hfull : y = new → x ∈ held tables values d y → Multi tables d := by
      intro heq hin
      by_contra hsingle
      have hthere := hdel.mpr ⟨fun _ h => absurd h hxa, hin⟩
      rw [held, Attr.valid, if_neg hsingle, List.mem_singleton] at hthere
      exact htaken ⟨heq ▸ hy, hsingle, by rw [hthere, heq], ne_of_lt_recs hx, hx⟩
    rw [hdel, hsym x y hx hy]
    constructor
    · exact fun hin => Or.inr ⟨fun heq => hfull heq hin, fun _ h => absurd h hxa, hin⟩
    · rintro (⟨_, h⟩ | ⟨_, _, hin⟩)
      · exact absurd h hxa
      · exact hin

theorem kept : Symmetric tables c d (linked.update c a attr) := by
  intro x y hx hy
  by_cases hya : c = d ∧ y = a
  · obtain ⟨rfl, rfl⟩ := hya
    by_cases hxy : x = y
    · rw [hxy]
    · exact (kept_written hlinked hkind hsym hclear ha hold hreplaced hout hx
        fun heq => hxy heq.2).symm
  · by_cases hxa : x = a
    · subst hxa
      exact kept_written hlinked hkind hsym hclear ha hold hreplaced hout hy hya
    · exact kept_other hlinked hkind hsym hclear ha hold hout hx hy hxa hya

end Kept

end Sql602.Table
