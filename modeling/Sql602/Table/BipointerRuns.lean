import Sql602.Table.BipointerSymmetry

namespace Sql602.Table

variable {tables : Tables} {values linked out : Values} {c d : Column} {a index val ptr : Nat}

/-! A bipointer attribute without more values that is linked with itself. -/

section Single

variable {f : Nat → Nat} {recnum none new r x y : Nat}

def cut (f : Nat → Nat) (recnum none r : Nat) : Nat → Nat :=
  if r < recnum then Function.update f r none else f

theorem cut_apply : cut f recnum none r y = if y = r ∧ r < recnum then none else f y := by
  unfold cut
  split
  case isTrue hlt => simp [Function.update_apply, hlt]
  case isFalse hnot => simp [hnot]

def relinked (f : Nat → Nat) (recnum none a new : Nat) : Nat → Nat :=
  let deleted := cut f recnum none (f a)
  let created :=
    if new < recnum then Function.update (cut deleted recnum none (deleted new)) new a else deleted
  Function.update created a new

theorem relinked_apply : relinked f recnum none a new y =
    if y = a then new
    else if new < recnum ∧ y = new then a
    else if new < recnum ∧ y = cut f recnum none (f a) new ∧ y < recnum then none
    else cut f recnum none (f a) y := by
  unfold relinked
  by_cases hnew : new < recnum
  · simp only [hnew, if_true, true_and, Function.update_apply, cut_apply]
    grind
  · simp [hnew, Function.update_apply]

theorem relinked_back (hnone : recnum ≤ none)
    (hsym : ∀ x y, x < recnum → y < recnum → (y = f x ↔ x = f y)) (ha : a < recnum)
    (hx : x < recnum) (hy : y < recnum) (hxy : y = relinked f recnum none a new x) :
    x = relinked f recnum none a new y := by
  have hboth := hsym x y hx hy
  have hxa := hsym x a hx ha
  have hya := hsym y a hy ha
  have hxnew := hsym x new hx
  have hynew := hsym y new hy
  have hanew := hsym a new ha
  simp only [relinked_apply, cut_apply] at hxy ⊢
  grind

end Single

def firsts (c : Column) (values : Values) : Nat → Nat := fun recnum => (values c recnum).cells 0

theorem firsts_update {attr : Attr} : firsts c (values.update c a (attr.set 0 val)) =
    Function.update (firsts c values) a val := by
  funext y
  simp only [firsts, Values.update, Function.update_apply, true_and, Attr.set]
  split
  · rfl
  · rfl

theorem symmetric_firsts (hsingle : ¬ Multi tables c) :
    Symmetric tables c c values ↔ ∀ x y, x < recs tables c → y < recs tables c →
      (y = firsts c values x ↔ x = firsts c values y) := by
  simp only [Symmetric, held, Attr.valid, if_neg hsingle, List.mem_singleton, firsts]

theorem lt_recs_iff : val ≠ noRecnum ∧ val < recs tables c ↔ val < recs tables c :=
  ⟨fun hval => hval.2, fun hlt => ⟨ne_of_lt_recs hlt, hlt⟩⟩

theorem firsts_linked (hsingle : ¬ Multi tables c)
    (hout : biptrWrite tables c values c a (firsts c values a) ptr = some linked) :
    Function.update (firsts c linked) a ptr =
      relinked (firsts c values) (recs tables c) noRecnum a ptr := by
  obtain ⟨deleted, hdeleted, hcreated⟩ := Option.bind_eq_some_iff.mp hout
  have hcut : firsts c deleted =
      cut (firsts c values) (recs tables c) noRecnum (firsts c values a) := by
    simp only [deleteAntilink, lt_recs_iff, if_neg hsingle] at hdeleted
    unfold cut
    split at hdeleted
    case isTrue hlt => rw [writeAtr_stop hdeleted, firsts_update, if_pos hlt]
    case isFalse hnot => rw [← Option.some.inj hdeleted, if_neg hnot]
  unfold relinked
  rw [← hcut]
  congr 1
  simp only [createAntilink, lt_recs_iff, if_neg hsingle] at hcreated
  split at hcreated
  case isFalse hnot => rw [← Option.some.inj hcreated, if_neg hnot]
  case isTrue hlt =>
    obtain ⟨freed, hfreed, hcreated⟩ := Option.bind_eq_some_iff.mp hcreated
    rw [writeAtr_stop hcreated, firsts_update, if_pos hlt]
    congr 1
    unfold cut
    split at hfreed
    case isTrue htaken =>
      rw [writeAtr_stop hfreed, firsts_update]
      exact (if_pos htaken).symm
    case isFalse hnot =>
      rw [← Option.some.inj hfreed]
      exact (if_neg hnot).symm

theorem kept_single (hsingle : ¬ Multi tables c) (hsym : Symmetric tables c c values)
    (ha : a < recs tables c)
    (hout : biptrWrite tables c values c a (firsts c values a) ptr = some linked) :
    Symmetric tables c c (linked.update c a ((linked c a).set 0 ptr)) := by
  rw [symmetric_firsts hsingle] at hsym ⊢
  rw [firsts_update, firsts_linked hsingle hout]
  intro x y hx hy
  have hnone : recs tables c ≤ noRecnum := (tables c.1).recnum_le
  exact ⟨relinked_back hnone hsym ha hx hy, relinked_back hnone hsym ha hy hx⟩

/-! The writes of a bipointer attribute. -/

theorem link_eq (hlinked : biTables tables c = some d) : link tables c = biptrWrite tables d := by
  simp only [link, hlinked]

section Written

variable {old new : Nat} (hlinked : biTables tables c = some d)
  (hsym : Symmetric tables c d values) (hclear : Clear tables d values c a old new)
  (ha : a < recs tables c) (hold : old < recs tables d → old ∈ held tables values c a)
  (hout : biptrWrite tables d values c a old new = some linked)

include hlinked hsym hclear ha hold hout

/-- The making of the links does not move the values of the written record, unless the
new value was there before. -/
theorem linked_written
    (hfree : ¬ (new < recs tables d ∧ new ≠ old ∧ Taken tables c d values new a)) :
    linked c a = values c a := by
  obtain ⟨deleted, hdeleted, hcreated⟩ := Option.bind_eq_some_iff.mp hout
  have hnum := ne_of_lt_recs ha
  have hlinks := biTables_symm hlinked
  have hback : old < recs tables d → a ∈ held tables values d old :=
    fun hlt => (hsym a old ha hlt).mp (hold hlt)
  have hsame : deleted c a = values c a :=
    deleted_other hlinks hnum hback hdeleted fun heq => (hclear.apart heq.1).1 heq.2.symm
  rw [← hsame]
  refine created_other hlinked hnum hcreated (fun heq => (hclear.apart heq.1).2 heq.2.symm) ?_
  intro hnew htaken
  have hin : a ∈ held tables deleted d new := by
    rw [held, Attr.valid, if_neg htaken.1, List.mem_singleton]
    exact htaken.2.1.symm
  obtain ⟨hmore, hvalues⟩ := (mem_deleted hlinks hnum hback hdeleted ha hnew).mp hin
  by_cases heq : new = old
  · have hcount := hmore heq rfl
    rw [held, Attr.valid, if_neg htaken.1, List.count_singleton] at hcount
    split at hcount <;> omega
  · refine hfree ⟨hnew, heq, htaken.1, ?_, htaken.2.2⟩
    rw [held, Attr.valid, if_neg htaken.1, List.mem_singleton] at hvalues
    exact hvalues.symm

theorem linked_freed (hne : c ≠ d) (hnew : new < recs tables d) (hdiff : new ≠ old)
    (htaken : Taken tables c d values new a) :
    Freed tables c new (values c a) (linked c a) := by
  obtain ⟨deleted, hdeleted, hcreated⟩ := Option.bind_eq_some_iff.mp hout
  have hnum := ne_of_lt_recs ha
  have hlinks := biTables_symm hlinked
  have hback : old < recs tables d → a ∈ held tables values d old :=
    fun hlt => (hsym a old ha hlt).mp (hold hlt)
  have hsame : deleted c a = values c a :=
    deleted_other hlinks hnum hback hdeleted fun heq => (hclear.apart heq.1).1 heq.2.symm
  have hother : deleted d new = values d new :=
    deleted_other hlinks hnum hback hdeleted fun heq => hdiff heq.2
  have hfreed := @created_taken _ _ _ _ _ _ a _ hlinked hnum hcreated hne hnew
    ⟨htaken.1, hother ▸ htaken.2.1, htaken.2.2⟩
  rwa [hsame] at hfreed

end Written

theorem replaced_set {before : Attr} {old new : Nat} (hmulti : Multi tables c)
    (hlt : index < before.num) (hcell : before.cells index = old) :
    Replaced tables c before (before.set index new) old new := by
  intro b _
  have hget : before.list[index]? = some old := by rw [Attr.list_get hlt, hcell]
  rw [Attr.valid, if_pos hmulti, Attr.valid, if_pos hmulti, Attr.list_set]
  exact mem_set_count hget

theorem replaced_first {before attr : Attr} (hsingle : ¬ Multi tables c) :
    Replaced tables c before (attr.set 0 ptr) (before.cells 0) ptr := by
  intro b _
  rw [Attr.valid, if_neg hsingle, Attr.valid, if_neg hsingle]
  simp only [Attr.set, Function.update_self, List.mem_singleton, List.count_singleton_self]
  omega

theorem replaced_removed {before : Attr} (hmulti : Multi tables c) (hlt : index < before.num) :
    Replaced tables c before (before.removeAt index) (before.cells index) noRecnum := by
  intro b hb
  rw [Attr.valid, if_pos hmulti, Attr.valid, if_pos hmulti, (Attr.removeAt_erase hlt).mem_iff,
    mem_erase_count]
  constructor
  · exact Or.inr
  · rintro (heq | hmem)
    · exact absurd heq hb
    · exact hmem

/-- The new value was at another place before. It is removed there and the last value moved
to that place, which must not be the written value. -/
theorem replaced_freed {before freed : Attr} {old new : Nat} (hmulti : Multi tables c)
    (hlast : index + 1 < before.num) (hcell : before.cells index = old) (hdiff : new ≠ old)
    (hin : new ∈ before.valid tables c) (hfreed : Freed tables c new before freed) :
    Replaced tables c before (freed.set index new) old new := by
  intro b _
  rw [Attr.valid, if_pos hmulti] at hin
  rw [Attr.valid, if_pos hmulti, Attr.valid, if_pos hmulti, Attr.list_set]
  cases hfreed with
  | absent _ hnot => exact absurd hin hnot
  | single hsingle => exact absurd hmulti hsingle
  | removed _ place hlt hplace =>
      have hother : index ≠ place := by
        rintro rfl
        exact hdiff (hplace.symm.trans hcell)
      have hget : (before.removeAt place).list[index]? = some old := by
        rw [Attr.list_get (show index < before.num - 1 by omega), ← hcell]
        exact congrArg some (Function.update_of_ne hother ..)
      have hperm := Attr.removeAt_erase hlt
      rw [hplace] at hperm
      rw [mem_set_count hget, hperm.mem_iff, hperm.count_eq, List.count_erase_of_ne hdiff.symm,
        mem_erase_count]
      constructor
      · rintro (rfl | ⟨hne, ⟨_, hmem⟩ | ⟨rfl, _⟩⟩ | hcount)
        · exact Or.inl rfl
        · exact Or.inr (Or.inl ⟨hne, hmem⟩)
        · exact Or.inl rfl
        · exact Or.inr (Or.inr hcount)
      · rintro (rfl | ⟨hne, hmem⟩ | hcount)
        · exact Or.inl rfl
        · by_cases heq : b = new
          · exact Or.inl heq
          · exact Or.inr (Or.inl ⟨hne, Or.inl ⟨heq, hmem⟩⟩)
        · exact Or.inr (Or.inr hcount)

theorem writeAtr_symmetric (hlinked : biTables tables c = some d)
    (hsym : Symmetric tables c d values)
    (hclear : c ≠ d → Clear tables d values c a (firsts c values a) ptr)
    (hout : tbWriteAtr tables values c a ptr = some out) : Symmetric tables c d out := by
  rw [tbWriteAtr, link_eq hlinked] at hout
  split at hout
  case isTrue => cases hout
  case isFalse hsingle =>
    simp only [writeAtr] at hout
    split at hout
    case isFalse => cases hout
    case isTrue ha =>
      obtain ⟨linked, hthis, rfl⟩ := Option.map_eq_some_iff.mp hout
      by_cases hself : c = d
      · subst hself
        exact kept_single hsingle hsym ha hthis
      · have hheld : firsts c values a ∈ held tables values c a := by
          rw [held, Attr.valid, if_neg hsingle]
          exact List.mem_singleton.mpr rfl
        exact kept hlinked (Or.inl hself) hsym (hclear hself) ha (fun _ => hheld)
          (replaced_first hsingle) hthis

/-- A write behind the last value makes the cells before it valid. -/
def Filled (tables : Tables) (d : Column) (values : Values) (c : Column) (a index : Nat) : Prop :=
  ∀ place < index, (values c a).num ≤ place → (values c a).cells place < recs tables d →
    (values c a).cells place ∈ held tables values c a

/-- A value that the record already refers to is not written to its last place. -/
def Room (tables : Tables) (d : Column) (values : Values) (c : Column) (a index new : Nat) : Prop :=
  new < recs tables d → new ≠ (values c a).cells index → ¬ Multi tables d →
    (values d new).cells 0 = a → index + 1 < (values c a).num

def Grown (values : Values) (c : Column) (a index : Nat) : Values :=
  values.update c a ((values c a).grow index)

theorem mem_grown {attr : Attr} {b : Nat} (hb : b ≠ noRecnum)
    (hfilled : ∀ place < index, attr.num ≤ place → attr.cells place = b → b ∈ attr.list) :
    b ∈ (attr.grow index).list ↔ b ∈ attr.list := by
  unfold Attr.grow
  split
  case isFalse => rfl
  case isTrue hbehind =>
    constructor
    · intro hmem
      obtain ⟨place, hplace, hcell⟩ := List.mem_map.mp hmem
      have hlt := List.mem_range.mp hplace
      have hne : place ≠ index := by
        rintro rfl
        exact hb (hcell.symm.trans (Function.update_self ..))
      have hold : attr.cells place = b := (Function.update_of_ne hne ..).symm.trans hcell
      by_cases hinside : place < attr.num
      · exact List.mem_map.mpr ⟨place, List.mem_range.mpr hinside, hold⟩
      · exact hfilled place (Nat.lt_of_le_of_ne (Nat.le_of_lt_succ hlt) hne)
          (Nat.le_of_not_lt hinside) hold
    · intro hmem
      obtain ⟨place, hplace, rfl⟩ := List.mem_map.mp hmem
      have hlt := List.mem_range.mp hplace
      refine List.mem_map.mpr ⟨place, List.mem_range.mpr (by show place < index + 1; omega), ?_⟩
      exact Function.update_of_ne (by omega) ..

theorem symmetric_grown (hmulti : Multi tables c) (hsym : Symmetric tables c d values)
    (hfilled : Filled tables d values c a index) :
    Symmetric tables c d (Grown values c a index) := by
  have hsame : ∀ x y, y < recs tables d →
      (y ∈ held tables (Grown values c a index) c x ↔ y ∈ held tables values c x) := by
    intro x y hy
    rw [Grown, held_update]
    split
    case isFalse => rfl
    case isTrue heq =>
      have hlist : held tables values c a = (values c a).list := if_pos hmulti
      rw [heq.2, hlist, Attr.valid, if_pos hmulti]
      refine mem_grown (ne_of_lt_recs hy) fun place hlt hbehind hcell => ?_
      have hin := hfilled place hlt hbehind (hcell ▸ hy)
      rwa [hcell, hlist] at hin
  intro x y hx hy
  rw [hsame x y hy, hsym x y hx hy]
  by_cases hself : c = d
  · subst hself
    exact (hsame y x hx).symm
  · rw [Grown, held_update, if_neg fun heq => hself heq.1.symm]

theorem writeInd_kept (hlinked : biTables tables c = some d) (hmulti : Multi tables c)
    (hsym : Symmetric tables c d values) (hlt : index < (values c a).num) (ha : a < recs tables c)
    (hclear : Clear tables d values c a ((values c a).cells index) ptr)
    (hroom : Room tables d values c a index ptr)
    (hout : biptrWrite tables d values c a ((values c a).cells index) ptr = some linked) :
    Symmetric tables c d (linked.update c a ((linked c a).set index ptr)) := by
  have hlist : held tables values c a = (values c a).list := if_pos hmulti
  have hheld : (values c a).cells index ∈ held tables values c a := by
    rw [hlist]
    exact List.mem_map.mpr ⟨index, List.mem_range.mpr hlt, rfl⟩
  have hkind : c ≠ d ∨ Multi tables d := by
    by_cases hself : c = d
    · exact Or.inr (hself ▸ hmulti)
    · exact Or.inl hself
  refine kept hlinked hkind hsym hclear ha (fun _ => hheld) ?_ hout
  by_cases hfree : ptr < recs tables d ∧ ptr ≠ (values c a).cells index ∧
      Taken tables c d values ptr a
  · obtain ⟨hnew, hdiff, htaken⟩ := hfree
    have hself : c ≠ d := fun heq => htaken.1 (heq ▸ hmulti)
    have hin : ptr ∈ held tables values c a := by
      rw [hsym a ptr ha hnew, held, Attr.valid, if_neg htaken.1, List.mem_singleton]
      exact htaken.2.1.symm
    exact replaced_freed hmulti (hroom hnew hdiff htaken.1 htaken.2.1) rfl hdiff hin
      (linked_freed hlinked hsym hclear ha (fun _ => hheld) hout hself hnew hdiff htaken)
  · rw [linked_written hlinked hsym hclear ha (fun _ => hheld) hout hfree]
    exact replaced_set hmulti hlt rfl

theorem Attr.lt_grow {attr : Attr} : index < (attr.grow index).num := by
  unfold Attr.grow
  split
  case isTrue => exact Nat.lt_succ_self index
  case isFalse hinside => exact Nat.lt_of_not_le hinside

theorem writeInd_symmetric (hlinked : biTables tables c = some d)
    (hsym : Symmetric tables c d values) (hfilled : Filled tables d values c a index)
    (hclear : Clear tables d (Grown values c a index) c a
      ((Grown values c a index c a).cells index) ptr)
    (hroom : Room tables d (Grown values c a index) c a index ptr)
    (hout : tbWriteInd tables values c a index ptr = some out) : Symmetric tables c d out := by
  rw [tbWriteInd, link_eq hlinked] at hout
  have hlegal : a < recs tables c ∧ Multi tables c ∧ Fits tables c index := by
    by_contra hnot
    rw [writeInd, if_neg hnot] at hout
    cases hout
  obtain ⟨linked, hthis, rfl⟩ := writeInd_link hout
  have hgrown : (values c a).grow index = Grown values c a index c a := Values.update_same.symm
  refine writeInd_kept hlinked hlegal.2.1 (symmetric_grown hlegal.2.1 hsym hfilled) ?_ hlegal.1
    hclear hroom ?_
  · rw [← hgrown]
    exact Attr.lt_grow
  · rw [← hgrown]
    exact hthis

theorem addValue_symmetric (hlinked : biTables tables c = some d)
    (hsym : Symmetric tables c d values)
    (hclear : val ∉ held tables values c a →
      Clear tables d (Grown values c a (values c a).num) c a noRecnum val)
    (hout : tbAddValue tables values c a val = some out) : Symmetric tables c d out := by
  rw [tbAddValue, link_eq hlinked] at hout
  split at hout
  case isFalse => cases hout
  case isTrue hlegal =>
    have hlist : held tables values c a = (values c a).list := if_pos hlegal.2
    by_cases hval : val = noRecnum
    · simp only [addValue, hlinked, Option.isNone_some, Bool.false_eq_true, if_false, if_pos hval]
        at hout
      exact Option.some.inj hout ▸ hsym
    · rcases addValue_link hlinked hval hout with ⟨_, rfl⟩ | ⟨hnot, hwritten⟩
      · exact hsym
      · have hcell : (Grown values c a (values c a).num c a).cells (values c a).num = noRecnum := by
          rw [Grown, Values.update_same, Attr.grow, if_pos (Nat.le_refl _)]
          exact Function.update_self ..
        have hthis : tbWriteInd tables values c a (values c a).num val = some out := by
          rw [tbWriteInd, link_eq hlinked]
          exact hwritten
        rw [← hlist] at hnot
        refine writeInd_symmetric hlinked hsym ?_ ?_ ?_ hthis
        · exact fun place hlt hle _ => absurd hlt (Nat.not_lt.mpr hle)
        · rw [hcell]
          exact hclear hnot
        · intro hnew _ hsingle hback
          have hself : c ≠ d := fun heq => hsingle (heq ▸ hlegal.2)
          rw [Grown, Values.update_other fun heq => hself heq.1.symm] at hback
          refine absurd ((hsym a val hlegal.1 hnew).mpr ?_) hnot
          rw [held, Attr.valid, if_neg hsingle, List.mem_singleton]
          exact hback.symm

theorem delValue_symmetric (hlinked : biTables tables c = some d)
    (hsym : Symmetric tables c d values)
    (hclear : val ∈ held tables values c a → Clear tables d values c a val noRecnum)
    (hout : tbDelValue tables values c a val = some out) : Symmetric tables c d out := by
  rw [tbDelValue, link_eq hlinked] at hout
  split at hout
  case isFalse => cases hout
  case isTrue hlegal =>
    have hlist : held tables values c a = (values c a).list := if_pos hlegal.2
    by_cases hval : val = noRecnum
    · simp only [delValue, hlinked, Option.isNone_some, Bool.false_eq_true, if_false, if_pos hval]
        at hout
      exact Option.some.inj hout ▸ hsym
    · rcases delValue_link hlinked hval hout with ⟨_, rfl⟩ | ⟨index, hlt, rfl, linked, hthis, heq⟩
      · exact hsym
      · have hheld : (values c a).cells index ∈ held tables values c a := by
          rw [hlist]
          exact List.mem_map.mpr ⟨index, List.mem_range.mpr hlt, rfl⟩
        have hkind : c ≠ d ∨ Multi tables d := by
          by_cases hself : c = d
          · exact Or.inr (hself ▸ hlegal.2)
          · exact Or.inl hself
        have hnone : ¬ noRecnum < recs tables d := Nat.not_lt.mpr (tables d.1).recnum_le
        have hclear := hclear hheld
        have hsame := linked_written hlinked hsym hclear hlegal.1 (fun _ => hheld) hthis
          fun hfree => hnone hfree.1
        rw [heq hsame]
        exact kept hlinked hkind hsym hclear hlegal.1 (fun _ => hheld)
          (replaced_removed hlegal.2 hlt) hthis

/-! Runs of writes on both sides. -/

inductive BiptrOp where
  | writeAtr (recnum ptr : Nat)
  | writeInd (recnum index ptr : Nat)
  | addValue (recnum val : Nat)
  | delValue (recnum val : Nat)

namespace BiptrOp

variable (tables : Tables) (values : Values) (c d : Column)

def apply : BiptrOp → Option Values
  | writeAtr recnum ptr => tbWriteAtr tables values c recnum ptr
  | writeInd recnum index ptr => tbWriteInd tables values c recnum index ptr
  | addValue recnum val => tbAddValue tables values c recnum val
  | delValue recnum val => tbDelValue tables values c recnum val

def Ok : BiptrOp → Prop
  | writeAtr recnum ptr => c ≠ d → Clear tables d values c recnum (firsts c values recnum) ptr
  | writeInd recnum index ptr =>
      Filled tables d values c recnum index ∧
        Clear tables d (Grown values c recnum index) c recnum
          ((Grown values c recnum index c recnum).cells index) ptr ∧
        Room tables d (Grown values c recnum index) c recnum index ptr
  | addValue recnum val =>
      val ∉ held tables values c recnum →
        Clear tables d (Grown values c recnum (values c recnum).num) c recnum noRecnum val
  | delValue recnum val =>
      val ∈ held tables values c recnum → Clear tables d values c recnum val noRecnum

variable {tables values c d}

theorem symmetric_apply {op : BiptrOp} (hlinked : biTables tables c = some d)
    (hsym : Symmetric tables c d values) (hok : op.Ok tables values c d)
    (hout : op.apply tables values c = some out) : Symmetric tables c d out := by
  cases op with
  | writeAtr recnum ptr => exact writeAtr_symmetric hlinked hsym hok hout
  | writeInd recnum index ptr =>
      exact writeInd_symmetric hlinked hsym hok.1 hok.2.1 hok.2.2 hout
  | addValue recnum val => exact addValue_symmetric hlinked hsym hok hout
  | delValue recnum val => exact delValue_symmetric hlinked hsym hok hout

end BiptrOp

/-- The operation is made on the given side of the pair. -/
structure BiptrCall where
  back : Bool
  op : BiptrOp

namespace BiptrCall

variable (tables : Tables) (c d : Column) (values : Values)

def apply (call : BiptrCall) : Option Values :=
  call.op.apply tables values (bif call.back then d else c)

def Successful (call : BiptrCall) : Prop := (call.apply tables c d values).isSome

def Ok (call : BiptrCall) : Prop :=
  bif call.back then call.op.Ok tables values d c else call.op.Ok tables values c d

end BiptrCall

def biptrStep (tables : Tables) (c d : Column) (values : Values) (call : BiptrCall) : Values :=
  (call.apply tables c d values).getD values

theorem symmetric_step {call : BiptrCall} (hlinked : biTables tables c = some d)
    (hsym : Symmetric tables c d values) (hok : call.Ok tables c d values)
    (hsuccess : call.Successful tables c d values) :
    Symmetric tables c d (biptrStep tables c d values call) := by
  obtain ⟨back, op⟩ := call
  obtain ⟨out, hout⟩ := Option.isSome_iff_exists.mp hsuccess
  have hstep : biptrStep tables c d values ⟨back, op⟩ = out := by rw [biptrStep, hout]; rfl
  rw [hstep]
  cases back with
  | false => exact BiptrOp.symmetric_apply hlinked hsym hok hout
  | true => exact (BiptrOp.symmetric_apply (biTables_symm hlinked) hsym.swap hok hout).swap

section Decisions

variable (tables : Tables) (values : Values) (c d : Column)

instance : Decidable (Symmetric tables c d values) :=
  decidable_of_iff (∀ a < recs tables c, ∀ b < recs tables d,
    (b ∈ held tables values c a ↔ a ∈ held tables values d b))
    ⟨fun hall a b ha hb => hall a ha b hb, fun hsym a ha b hb => hsym a b ha hb⟩

instance (a old new : Nat) : Decidable (Clear tables d values c a old new) :=
  have : Decidable (new < recs tables d → new ≠ old → ¬ Multi tables d →
      (values d new).cells 0 < recs tables c → (values d new).cells 0 ≠ a →
        (held tables values c ((values d new).cells 0)).count new ≤ 1) := inferInstance
  decidable_of_iff (_ ∧ _ ∧ _)
    ⟨fun hall => ⟨hall.1, hall.2.1, hall.2.2⟩,
      fun hclear => ⟨hclear.apart, hclear.removed, hclear.taken⟩⟩

instance (a index : Nat) : Decidable (Filled tables d values c a index) :=
  inferInstanceAs (Decidable (∀ place < index, _ → _ → _))

instance (a index new : Nat) : Decidable (Room tables d values c a index new) :=
  inferInstanceAs (Decidable (_ → _ → _ → _ → _))

instance BiptrOp.decideOk : (op : BiptrOp) → Decidable (op.Ok tables values c d)
  | .writeAtr _ _ => inferInstanceAs (Decidable (_ → _))
  | .writeInd _ _ _ => inferInstanceAs (Decidable (_ ∧ _ ∧ _))
  | .addValue _ _ => inferInstanceAs (Decidable (_ → _))
  | .delValue _ _ => inferInstanceAs (Decidable (_ → _))

instance BiptrCall.decideOk : (call : BiptrCall) → Decidable (call.Ok tables c d values)
  | ⟨false, op⟩ => BiptrOp.decideOk tables values c d op
  | ⟨true, op⟩ => BiptrOp.decideOk tables values d c op

instance (call : BiptrCall) : Decidable (call.Successful tables c d values) :=
  inferInstanceAs (Decidable (_ = true))

end Decisions

def multiples : Tables := fun tb =>
  { attrs := [⟨none, 1⟩, ⟨some (1 - tb), 130⟩]
    recnum := 2
    recnum_le := by decide
    system := fun att hatt => by
      cases hatt
      rfl }

def unlinked : Values := fun _ _ => ⟨fun _ => noRecnum, 0⟩

end Sql602.Table
