import Sql602.Table.BipointerLinks

namespace Sql602.Table

variable {tables : Tables} {values out : Values} {c d : Column} {recnum index val : Nat}

/-! Writes that leave the links alone. -/

theorem writeAtr_stop (hout : writeAtr tables stop values c recnum val = some out) :
    out = values.update c recnum ((values c recnum).set 0 val) := by
  simp only [writeAtr] at hout
  split at hout
  · exact (Option.some.inj hout).symm
  · cases hout

theorem writeInd_link {biptr : Link} (hout : writeInd tables biptr values c recnum index val = some out) :
    ∃ linked, biptr (values.update c recnum ((values c recnum).grow index)) c recnum
        (((values c recnum).grow index).cells index) val = some linked ∧
      out = linked.update c recnum ((linked c recnum).set index val) := by
  simp only [writeInd] at hout
  split at hout
  · obtain ⟨linked, hlinked, rfl⟩ := Option.map_eq_some_iff.mp hout
    rw [Values.update_same] at hlinked
    exact ⟨linked, hlinked, rfl⟩
  · cases hout

theorem writeInd_stop (hout : writeInd tables stop values c recnum index val = some out) :
    out = values.update c recnum (((values c recnum).grow index).set index val) := by
  obtain ⟨linked, hlinked, rfl⟩ := writeInd_link hout
  cases hlinked
  rw [Values.update_same, Values.update_update]

theorem unlinkFrom_stop {count : Nat} : unlinkFrom stop c recnum count index values = some values := by
  induction count generalizing index with
  | zero => rfl
  | succ count ih => exact ih

theorem writeIndNum_stop {num : Nat} (hnum : num ≤ (values c recnum).num)
    (hout : writeIndNum tables stop values c recnum num = some out) :
    out = values.update c recnum { values c recnum with num := num } := by
  simp only [writeIndNum] at hout
  split at hout
  · split at hout
    case isTrue hle =>
      have hsame : num = (values c recnum).num := by omega
      rw [← Option.some.inj hout, hsame]
      exact Values.update_self.symm
    case isFalse =>
      rw [unlinkFrom_stop] at hout
      exact (Option.some.inj hout).symm
  · cases hout

/-- The value that is moved into the gap was the last one. -/
theorem shrink_eq {attr : Attr} (hlt : index < attr.num - 1) {value : Nat} :
    ({ ((attr.set index value).grow index).set index
        ((attr.set index value).read (attr.num - 1)) with num := attr.num - 1 } : Attr) =
      attr.removeAt index := by
  have hin : attr.num - 1 < (attr.set index value).num := by
    show attr.num - 1 < attr.num
    omega
  have hread : (attr.set index value).read (attr.num - 1) = attr.cells (attr.num - 1) := by
    rw [Attr.read, if_pos hin]
    exact Function.update_of_ne (by omega) ..
  have hgrow : (attr.set index value).grow index = attr.set index value :=
    Attr.grow_inside (show index < attr.num by omega)
  rw [hread, hgrow]
  simp only [Attr.set, Attr.removeAt, Function.update_idem]

theorem writeIndNum_last {biptr : Link} (hpos : 0 < (values c recnum).num)
    (hout : writeIndNum tables biptr values c recnum ((values c recnum).num - 1) = some out) :
    ∃ linked, biptr values c recnum ((values c recnum).cells ((values c recnum).num - 1)) noRecnum =
        some linked ∧
      out = linked.update c recnum { linked c recnum with num := (values c recnum).num - 1 } := by
  simp only [writeIndNum] at hout
  split at hout
  · rw [if_neg (by omega), show (values c recnum).num - ((values c recnum).num - 1) = 1 by omega]
      at hout
    obtain ⟨linked, hlinked, rfl⟩ := Option.map_eq_some_iff.mp hout
    obtain ⟨first, hfirst, hrest⟩ := Option.bind_eq_some_iff.mp hlinked
    cases hrest
    exact ⟨_, hfirst, rfl⟩
  · cases hout

/-! What is done when the values are to be changed, for columns of all types. -/

section Change

variable (tables : Tables) (biptr : Link) (values : Values) (c : Column) (recnum val : Nat)

def insertValue : Option Values :=
  match (values c recnum).find val with
  | some _ => some values
  | none => writeInd tables biptr values c recnum (values c recnum).num val

def removeValue : Option Values :=
  match (values c recnum).find val with
  | none => some values
  | some index =>
      let num := (values c recnum).num - 1
      if index < num then
        (writeInd tables biptr values c recnum index noRecnum).bind fun cleared =>
          (writeInd tables stop cleared c recnum index ((cleared c recnum).read num)).bind
            fun moved => writeIndNum tables stop moved c recnum num
      else writeIndNum tables biptr values c recnum num

variable {tables biptr values c recnum val}

theorem addValue_linked (hlinked : biTables tables c = some d) (hval : val ≠ noRecnum) :
    addValue tables biptr values c recnum val = insertValue tables biptr values c recnum val := by
  rw [addValue, hlinked, Option.isNone_some, if_neg Bool.false_ne_true, if_neg hval]
  rfl

theorem delValue_linked (hlinked : biTables tables c = some d) (hval : val ≠ noRecnum) :
    delValue tables biptr values c recnum val = removeValue tables biptr values c recnum val := by
  rw [delValue, hlinked, Option.isNone_some, if_neg Bool.false_ne_true, if_neg hval]
  rfl

end Change

/-- The last value takes the place of the removed one. -/
theorem removeValue_link {biptr : Link}
    (hout : removeValue tables biptr values c recnum val = some out) :
    (val ∉ (values c recnum).list ∧ out = values) ∨
      ∃ index < (values c recnum).num, (values c recnum).cells index = val ∧
        ∃ linked, biptr values c recnum val noRecnum = some linked ∧
          (linked c recnum = values c recnum →
            out = linked.update c recnum ((values c recnum).removeAt index)) := by
  simp only [removeValue] at hout
  cases hfind : (values c recnum).find val with
  | none =>
      rw [hfind] at hout
      exact Or.inl ⟨Attr.find_none hfind, (Option.some.inj hout).symm⟩
  | some index =>
      rw [hfind] at hout
      obtain ⟨hlt, hcell⟩ := Attr.find_some hfind
      refine Or.inr ⟨index, hlt, hcell, ?_⟩
      dsimp only at hout
      split at hout
      case isTrue hmiddle =>
        obtain ⟨cleared, hcleared, hout⟩ := Option.bind_eq_some_iff.mp hout
        obtain ⟨moved, hmoved, hout⟩ := Option.bind_eq_some_iff.mp hout
        obtain ⟨linked, hthis, rfl⟩ := writeInd_link hcleared
        rw [Attr.grow_inside hlt, Values.update_self, hcell] at hthis
        refine ⟨linked, hthis, fun hsame => ?_⟩
        have heq := writeInd_stop hmoved
        rw [Values.update_same, Values.update_update, hsame] at heq
        subst heq
        rw [writeIndNum_stop ?_ hout]
        · rw [Values.update_same, Values.update_update, shrink_eq hmiddle]
        · have hgrow : ((values c recnum).set index noRecnum).grow index =
              (values c recnum).set index noRecnum := Attr.grow_inside hlt
          rw [Values.update_same, hgrow]
          exact Nat.sub_le ..
      case isFalse hlast =>
        have hend : index = (values c recnum).num - 1 := by omega
        obtain ⟨linked, hthis, rfl⟩ := writeIndNum_last (by omega) hout
        rw [← hend, hcell] at hthis
        refine ⟨linked, hthis, fun hsame => ?_⟩
        rw [hsame, Attr.removeAt, ← hend, Function.update_eq_self]

theorem delValue_link {biptr : Link} (hlinked : biTables tables c = some d) (hval : val ≠ noRecnum)
    (hout : delValue tables biptr values c recnum val = some out) :
    (val ∉ (values c recnum).list ∧ out = values) ∨
      ∃ index < (values c recnum).num, (values c recnum).cells index = val ∧
        ∃ linked, biptr values c recnum val noRecnum = some linked ∧
          (linked c recnum = values c recnum →
            out = linked.update c recnum ((values c recnum).removeAt index)) :=
  removeValue_link ((delValue_linked hlinked hval).symm.trans hout)

theorem delValue_stop (hlinked : biTables tables c = some d) (hval : val ≠ noRecnum)
    (hout : delValue tables stop values c recnum val = some out) :
    (val ∉ (values c recnum).list ∧ out = values) ∨
      ∃ index < (values c recnum).num, (values c recnum).cells index = val ∧
        out = values.update c recnum ((values c recnum).removeAt index) := by
  rcases delValue_link hlinked hval hout with hnone | ⟨index, hlt, hcell, linked, hthis, heq⟩
  · exact Or.inl hnone
  · cases hthis
    exact Or.inr ⟨index, hlt, hcell, heq rfl⟩

theorem insertValue_link {biptr : Link}
    (hout : insertValue tables biptr values c recnum val = some out) :
    (val ∈ (values c recnum).list ∧ out = values) ∨
      (val ∉ (values c recnum).list ∧
        writeInd tables biptr values c recnum (values c recnum).num val = some out) := by
  simp only [insertValue] at hout
  cases hfind : (values c recnum).find val with
  | some index =>
      rw [hfind] at hout
      obtain ⟨hlt, hcell⟩ := Attr.find_some hfind
      refine Or.inl ⟨?_, (Option.some.inj hout).symm⟩
      exact List.mem_map.mpr ⟨index, List.mem_range.mpr hlt, hcell⟩
  | none =>
      rw [hfind] at hout
      exact Or.inr ⟨Attr.find_none hfind, hout⟩

theorem addValue_link {biptr : Link} (hlinked : biTables tables c = some d) (hval : val ≠ noRecnum)
    (hout : addValue tables biptr values c recnum val = some out) :
    (val ∈ (values c recnum).list ∧ out = values) ∨
      (val ∉ (values c recnum).list ∧
        writeInd tables biptr values c recnum (values c recnum).num val = some out) :=
  insertValue_link ((addValue_linked hlinked hval).symm.trans hout)

/-- A value that is written behind the last one. -/
theorem list_append {attr : Attr} :
    ((attr.grow attr.num).set attr.num val).list = attr.list ++ [val] := by
  have hgrow : attr.grow attr.num =
      ⟨Function.update attr.cells attr.num noRecnum, attr.num + 1⟩ := if_pos (Nat.le_refl _)
  rw [hgrow]
  simp only [Attr.list, Attr.set, Function.update_idem, List.range_succ, List.map_append,
    List.map_cons, List.map_nil, Function.update_self]
  congr 1
  refine List.map_congr_left fun i hi => ?_
  exact Function.update_of_ne (Nat.ne_of_lt (List.mem_range.mp hi)) ..

theorem addValue_stop (hlinked : biTables tables c = some d) (hval : val ≠ noRecnum)
    (hout : addValue tables stop values c recnum val = some out) :
    (val ∈ (values c recnum).list ∧ out = values) ∨
      ∃ attr : Attr, attr.list = (values c recnum).list ++ [val] ∧
        out = values.update c recnum attr := by
  rcases addValue_link hlinked hval hout with hthere | ⟨_, hwritten⟩
  · exact Or.inl hthere
  · exact Or.inr ⟨_, list_append, writeInd_stop hwritten⟩

/-! The two halves of `tb_biptr_write`. -/

theorem deleteAntilink_none (hnone : ¬ (val ≠ noRecnum ∧ val < recs tables d)) :
    deleteAntilink tables d values recnum val = some values := if_neg hnone

/-- The value that referred back is gone, unless it was there twice. -/
theorem deleteAntilink_some (hlinked : biTables tables d = some c)
    (hval : val ≠ noRecnum ∧ val < recs tables d) (hrecnum : recnum ≠ noRecnum)
    (hback : recnum ∈ held tables values d val)
    (hout : deleteAntilink tables d values recnum val = some out) :
    ∃ attr, out = values.update d val attr ∧
      ∀ other, other ≠ noRecnum → (other ∈ attr.valid tables d ↔
        (other ≠ recnum ∧ other ∈ held tables values d val) ∨
          (other = recnum ∧ 1 < (held tables values d val).count recnum)) := by
  rw [deleteAntilink, if_pos hval] at hout
  split at hout
  case isTrue hmulti =>
    have hheld : held tables values d val = (values d val).list := if_pos hmulti
    rw [hheld] at hback ⊢
    rcases delValue_stop hlinked hrecnum hout with ⟨hnot, _⟩ | ⟨index, hlt, hcell, heq⟩
    · exact absurd hback hnot
    · refine ⟨_, heq, fun other _ => ?_⟩
      have hperm := Attr.removeAt_erase hlt
      rw [hcell] at hperm
      rw [show ((values d val).removeAt index).valid tables d = _ from if_pos hmulti,
        hperm.mem_iff, mem_erase_count]
  case isFalse hsingle =>
    refine ⟨_, writeAtr_stop hout, fun other hother => ?_⟩
    have hheld : held tables values d val = [(values d val).cells 0] := if_neg hsingle
    rw [hheld, List.mem_singleton] at hback
    rw [hheld, ← hback, show ((values d val).set 0 noRecnum).valid tables d = _ from
      if_neg hsingle]
    simp only [Attr.set, Function.update_self, List.mem_singleton, List.count_singleton_self]
    omega

theorem createAntilink_none {newval : Nat} (hnone : ¬ (newval ≠ noRecnum ∧ newval < recs tables d)) :
    createAntilink tables d values c recnum newval = some values := if_neg hnone

/-- The single value of the record to be linked refers to another record. -/
def Taken (tables : Tables) (c d : Column) (values : Values) (newval recnum3 : Nat) : Prop :=
  ¬ Multi tables d ∧ (values d newval).cells 0 = recnum3 ∧ recnum3 ≠ noRecnum ∧
    recnum3 < recs tables c

/-- What is left of the attribute from which the value is taken away. -/
inductive Freed (tables : Tables) (c : Column) (newval : Nat) (attr : Attr) : Attr → Prop
  | absent (hmulti : Multi tables c) (hnot : newval ∉ attr.list) : Freed tables c newval attr attr
  | removed (hmulti : Multi tables c) (index : Nat) (hlt : index < attr.num)
      (hcell : attr.cells index = newval) : Freed tables c newval attr (attr.removeAt index)
  | single (hsingle : ¬ Multi tables c) : Freed tables c newval attr (attr.set 0 noRecnum)

theorem createAntilink_some {newval : Nat} (hlinked : biTables tables c = some d)
    (hval : newval ≠ noRecnum ∧ newval < recs tables d) (hrecnum : recnum ≠ noRecnum)
    (hout : createAntilink tables d values c recnum newval = some out) :
    ∃ freed attr, out = Values.update freed d newval attr ∧
      (∀ other, other ∈ attr.valid tables d ↔
        other = recnum ∨ (Multi tables d ∧ other ∈ held tables values d newval)) ∧
      ((freed = values ∧ ∀ recnum3, ¬ Taken tables c d values newval recnum3) ∨
        ∃ recnum3 attr3, Taken tables c d values newval recnum3 ∧
          Freed tables c newval (values c recnum3) attr3 ∧
          freed = values.update c recnum3 attr3) := by
  have hback := biTables_symm hlinked
  rw [createAntilink, if_pos hval] at hout
  split at hout
  case isTrue hmulti =>
    have hheld : held tables values d newval = (values d newval).list := if_pos hmulti
    have hnot : ∀ recnum3, ¬ Taken tables c d values newval recnum3 :=
      fun recnum3 htaken => htaken.1 hmulti
    rcases addValue_stop hback hrecnum hout with ⟨hmem, heq⟩ | ⟨attr, hlist, heq⟩
    · refine ⟨values, values d newval, by rw [heq, Values.update_self], fun other => ?_,
        Or.inl ⟨rfl, hnot⟩⟩
      rw [hheld, show (values d newval).valid tables d = _ from if_pos hmulti]
      constructor
      · exact fun hother => Or.inr ⟨hmulti, hother⟩
      · rintro (rfl | ⟨_, hother⟩)
        · exact hmem
        · exact hother
    · refine ⟨values, attr, heq, fun other => ?_, Or.inl ⟨rfl, hnot⟩⟩
      rw [hheld, show attr.valid tables d = _ from if_pos hmulti, hlist, List.mem_append,
        List.mem_singleton]
      constructor
      · rintro (hother | rfl)
        · exact Or.inr ⟨hmulti, hother⟩
        · exact Or.inl rfl
      · rintro (rfl | ⟨_, hother⟩)
        · exact Or.inr rfl
        · exact Or.inl hother
  case isFalse hsingle =>
    obtain ⟨freed, hfreed, hout⟩ := Option.bind_eq_some_iff.mp hout
    refine ⟨freed, _, writeAtr_stop hout, fun other => ?_, ?_⟩
    · rw [show ((freed d newval).set 0 recnum).valid tables d = _ from if_neg hsingle]
      simp [Attr.set, hsingle]
    · split at hfreed
      case isTrue hrecnum3 =>
        right
        split at hfreed
        case isTrue hmulti =>
          rcases delValue_stop hlinked hval.1 hfreed with ⟨hnot, heq⟩ | ⟨index, hlt, hcell, heq⟩
          · exact ⟨_, _, ⟨hsingle, rfl, hrecnum3⟩, .absent hmulti hnot,
              by rw [heq, Values.update_self]⟩
          · exact ⟨_, _, ⟨hsingle, rfl, hrecnum3⟩, .removed hmulti index hlt hcell, heq⟩
        case isFalse hnmulti =>
          exact ⟨_, _, ⟨hsingle, rfl, hrecnum3⟩, .single hnmulti, writeAtr_stop hfreed⟩
      case isFalse hnot =>
        refine Or.inl ⟨(Option.some.inj hfreed).symm, ?_⟩
        rintro recnum3 ⟨_, rfl, hrecnum3⟩
        exact hnot hrecnum3

end Sql602.Table
