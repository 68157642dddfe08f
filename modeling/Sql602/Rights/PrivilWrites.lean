import Sql602.Rights.PrivilMaps

namespace Sql602.Rights

/-! What a list holds after the own privileges of a subject have been set. -/

/-- The map of the subject among the entries. -/
def mapIn (descrSize : Nat) (uuid : List UInt8) : List (List UInt8) → List UInt8
  | [] => clearMap descrSize
  | slot :: slots => if uuidOf slot = uuid then mapOf slot else mapIn descrSize uuid slots

/-- The entry of the subject with a new map, or a new entry behind the others. -/
def putSlot (uuid map : List UInt8) : List (List UInt8) → List (List UInt8)
  | [] => [uuid ++ map]
  | slot :: slots =>
      if uuidOf slot = uuid then (uuid ++ map) :: slots else slot :: putSlot uuid map slots

section Slots

variable {descrSize : Nat} {uuid other map privDef : List UInt8} {slots before after : List (List UInt8)}
  {slot : List UInt8}

theorem putSlot_absent (habsent : ∀ slot ∈ slots, uuidOf slot ≠ uuid) :
    putSlot uuid map slots = slots ++ [uuid ++ map] := by
  induction slots with
  | nil => rfl
  | cons slot slots ih =>
      rw [putSlot, if_neg (habsent slot List.mem_cons_self),
        ih fun other hother => habsent other (List.mem_cons_of_mem _ hother)]
      rfl

theorem putSlot_present (hbefore : ∀ other ∈ before, uuidOf other ≠ uuid)
    (hslot : uuidOf slot = uuid) :
    putSlot uuid map (before ++ slot :: after) = before ++ (uuid ++ map) :: after := by
  induction before with
  | nil => exact if_pos hslot
  | cons first before ih =>
      rw [List.cons_append, putSlot, if_neg (hbefore first List.mem_cons_self),
        ih fun other hother => hbefore other (List.mem_cons_of_mem _ hother)]
      rfl

theorem putSlot_widths (huuid : uuid.length = UUID_SIZE) (hmap : map.length = descrSize)
    (hwidths : ∀ slot ∈ slots, slot.length = UUID_SIZE + descrSize) :
    ∀ slot ∈ putSlot uuid map slots, slot.length = UUID_SIZE + descrSize := by
  have hentry : (uuid ++ map).length = UUID_SIZE + descrSize := by
    rw [List.length_append, huuid, hmap]
  induction slots with
  | nil => exact List.forall_mem_singleton.mpr hentry
  | cons slot slots ih =>
      obtain ⟨hslot, hslots⟩ := List.forall_mem_cons.mp hwidths
      rw [putSlot]
      split
      · exact List.forall_mem_cons.mpr ⟨hentry, hslots⟩
      · exact List.forall_mem_cons.mpr ⟨hslot, ih hslots⟩

theorem mem_putSlot (huuid : uuid.length = UUID_SIZE) (hslot : slot ∈ putSlot uuid map slots) :
    slot ∈ slots ∨ uuidOf slot = uuid := by
  induction slots with
  | nil =>
      rw [List.mem_singleton.mp hslot]
      exact Or.inr (uuidOf_append huuid)
  | cons first slots ih =>
      rw [putSlot] at hslot
      split at hslot
      · cases List.mem_cons.mp hslot with
        | inl heq =>
            rw [heq]
            exact Or.inr (uuidOf_append huuid)
        | inr hmem => exact Or.inl (List.mem_cons_of_mem _ hmem)
      · cases List.mem_cons.mp hslot with
        | inl heq =>
            rw [heq]
            exact Or.inl List.mem_cons_self
        | inr hmem => exact (ih hmem).imp (List.mem_cons_of_mem _) id

theorem putSlot_oneEach (huuid : uuid.length = UUID_SIZE) (hone : OneEach slots) :
    OneEach (putSlot uuid map slots) := by
  induction slots with
  | nil => exact List.nodup_singleton _
  | cons slot slots ih =>
      rw [OneEach, List.map_cons, List.nodup_cons] at hone
      rw [putSlot]
      split
      case isTrue heq =>
        rw [OneEach, List.map_cons, List.nodup_cons, uuidOf_append huuid, ← heq]
        exact hone
      case isFalse hne =>
        rw [OneEach, List.map_cons, List.nodup_cons]
        refine ⟨fun hmem => ?_, ih hone.2⟩
        obtain ⟨found, hfound, heq⟩ := List.mem_map.mp hmem
        cases mem_putSlot huuid hfound with
        | inl hold => exact hone.1 (heq ▸ List.mem_map_of_mem hold)
        | inr hnew => exact hne (heq.symm.trans hnew)

theorem mapIn_putSlot (huuid : uuid.length = UUID_SIZE) :
    mapIn descrSize uuid (putSlot uuid map slots) = map := by
  induction slots with
  | nil =>
      rw [putSlot, mapIn, if_pos (uuidOf_append huuid)]
      exact mapOf_append huuid
  | cons slot slots ih =>
      rw [putSlot]
      split
      case isTrue =>
        rw [mapIn, if_pos (uuidOf_append huuid)]
        exact mapOf_append huuid
      case isFalse hne =>
        rw [mapIn, if_neg hne]
        exact ih

theorem mapIn_putSlot_other (huuid : uuid.length = UUID_SIZE) (hother : other ≠ uuid) :
    mapIn descrSize other (putSlot uuid map slots) = mapIn descrSize other slots := by
  have hentry : uuidOf (uuid ++ map) ≠ other := by
    rw [uuidOf_append huuid]
    exact hother.symm
  induction slots with
  | nil => exact if_neg hentry
  | cons slot slots ih =>
      rw [putSlot]
      split
      case isTrue heq =>
        rw [mapIn, mapIn, if_neg hentry, if_neg (heq ▸ hother.symm)]
      case isFalse =>
        rw [mapIn, mapIn, ih]

theorem mapIn_absent (habsent : ∀ slot ∈ slots, uuidOf slot ≠ uuid) :
    mapIn descrSize uuid slots = clearMap descrSize := by
  induction slots with
  | nil => rfl
  | cons slot slots ih =>
      obtain ⟨hslot, hslots⟩ := List.forall_mem_cons.mp habsent
      rw [mapIn, if_neg hslot, ih hslots]

theorem mapIn_present (hbefore : ∀ other ∈ before, uuidOf other ≠ uuid)
    (hslot : uuidOf slot = uuid) :
    mapIn descrSize uuid (before ++ slot :: after) = mapOf slot := by
  induction before with
  | nil => exact if_pos hslot
  | cons first before ih =>
      obtain ⟨hfirst, hrest⟩ := List.forall_mem_cons.mp hbefore
      rw [List.cons_append, mapIn, if_neg hfirst, ih hrest]

theorem mapInList_eq (hlist : HoldsEntries descrSize privDef slots) (uuid : List UInt8) :
    mapInList descrSize uuid privDef = mapIn descrSize uuid slots := by
  obtain habsent | ⟨before, slot, after, rfl, hbefore, hslot⟩ :=
    Slots.first_or_none (fun slot => uuidOf slot == uuid) slots
  · have hnone : ∀ slot ∈ slots, uuidOf slot ≠ uuid :=
      fun slot hmem => beq_eq_false_iff_ne.mp (habsent slot hmem)
    rw [mapInList_none hlist hnone, mapIn_absent hnone]
  · have hnone : ∀ other ∈ before, uuidOf other ≠ uuid :=
      fun other hmem => beq_eq_false_iff_ne.mp (hbefore other hmem)
    have heq : uuidOf slot = uuid := beq_iff_eq.mp hslot
    obtain ⟨-, hnil⟩ | ⟨first, rfl⟩ := hlist.bytes
    · exact absurd hnil (List.append_ne_nil_of_right_ne_nil _ (List.cons_ne_nil _ _))
    · rw [mapInList_found rfl hlist.widths hnone heq, mapIn_present hnone heq]

end Slots

section Writes

variable {failures : Failures} {descrSize : Nat} {uuid map privDef : List UInt8}
  {slots : List (List UInt8)}

theorem writeUnless_ok (pos : Nat) (data : List UInt8) :
    writeUnless false failures privDef pos data = Slots.write failures.fill privDef pos data := rfl

theorem writeEntry_append (huuid : failures.uuid = false) (hmap : failures.map = false)
    (hlength : uuid.length = UUID_SIZE) :
    writeEntry failures privDef privDef.length uuid map = (false, privDef ++ (uuid ++ map)) := by
  have hpos : privDef.length + UUID_SIZE = (privDef ++ uuid).length := by
    rw [List.length_append, hlength]
  rw [writeEntry, huuid, hmap, writeUnless_ok, writeUnless_ok, Slots.write_append, hpos,
    Slots.write_append, List.append_assoc]

theorem writeEntry_over {before after slot : List UInt8} (huuid : failures.uuid = false)
    (hmap : failures.map = false) (hlength : uuid.length = UUID_SIZE)
    (hslot : slot.length = (uuid ++ map).length) :
    writeEntry failures (before ++ slot ++ after) before.length uuid map =
      (false, before ++ (uuid ++ map) ++ after) := by
  rw [List.length_append, hlength] at hslot
  have hfirst : (uuidOf slot).length = uuid.length := by
    rw [uuidOf, List.length_take, hlength, hslot]
    omega
  have hsecond : (mapOf slot).length = map.length := by
    rw [mapOf, List.length_drop, hslot, Nat.add_sub_cancel_left]
  have hparts : before ++ slot ++ after =
      before ++ uuidOf slot ++ (mapOf slot ++ after) := by
    rw [List.append_assoc, List.append_assoc, ← List.append_assoc (uuidOf slot), uuidOf, mapOf,
      List.take_append_drop]
  have hpos : before.length + UUID_SIZE = (before ++ uuid).length := by
    rw [List.length_append, hlength]
  rw [writeEntry, huuid, hmap, writeUnless_ok, writeUnless_ok, hparts, Slots.write_over hfirst,
    hpos, ← List.append_assoc (before ++ uuid), Slots.write_over hsecond]
  simp only [List.append_assoc]

/-- The list after writes that do not fail. -/
theorem setInList_spec (hload : failures.load = false) (huuid : failures.uuid = false)
    (hlist : HoldsEntries descrSize privDef slots) (hlength : uuid.length = UUID_SIZE)
    (hmap : map.length = descrSize)
    (hok : (setInList failures descrSize uuid map privDef).1 = false) :
    HoldsEntries descrSize (setInList failures descrSize uuid map privDef).2
      (putSlot uuid map slots) := by
  refine ⟨Or.inr ?_, putSlot_widths hlength hmap hlist.widths⟩
  obtain ⟨rfl, rfl⟩ | ⟨first, rfl⟩ := hlist.bytes
  · simp only [setInList, or_true, if_true] at hok ⊢
    split at hok
    case isTrue => cases hok
    case isFalse hfirst =>
      have hwritten : failures.map = false := hok
      have hstart : Slots.write failures.fill [] 0 [UInt8.ofNat descrSize] =
          [UInt8.ofNat descrSize] := Slots.write_start []
      rw [if_neg hfirst, hstart]
      refine ⟨UInt8.ofNat descrSize, ?_⟩
      have happend := @writeEntry_append failures uuid map [UInt8.ofNat descrSize] huuid hwritten
        hlength
      rw [List.length_singleton] at happend
      rw [happend]
      simp only [putSlot, List.flatten_cons, List.flatten_nil, List.append_nil, List.cons_append,
        List.nil_append]
  · have hload' : ¬ (failures.load = true ∨ first :: slots.flatten = []) := by
      rw [hload]
      rintro (h | h) <;> cases h
    rw [setInList, if_neg hload'] at hok ⊢
    have hwritten : failures.map = false := hok
    obtain habsent | ⟨before, slot, after, rfl, hbefore, hslot⟩ :=
      Slots.first_or_none (fun slot => uuidOf slot == uuid) slots
    · have hnone : ∀ slot ∈ slots, uuidOf slot ≠ uuid :=
        fun slot hmem => beq_eq_false_iff_ne.mp (habsent slot hmem)
      refine ⟨first, ?_⟩
      rw [findUuidPos_none hlist hnone, Option.getD_none,
        writeEntry_append huuid hwritten hlength, putSlot_absent hnone]
      simp only [List.flatten_append, List.flatten_cons, List.flatten_nil, List.append_nil,
        List.cons_append]
    · have hnone : ∀ other ∈ before, uuidOf other ≠ uuid :=
        fun other hmem => beq_eq_false_iff_ne.mp (hbefore other hmem)
      have heq : uuidOf slot = uuid := beq_iff_eq.mp hslot
      have hwidth : slot.length = (uuid ++ map).length := by
        rw [hlist.widths slot (List.mem_append_right _ List.mem_cons_self), List.length_append,
          hlength, hmap]
      have hpos : 1 + before.flatten.length = (first :: before.flatten).length := by
        rw [List.length_cons, Nat.add_comm]
      have hparts : first :: (before ++ slot :: after).flatten =
          (first :: before.flatten) ++ slot ++ after.flatten := by
        simp only [List.flatten_append, List.flatten_cons, List.cons_append, List.append_assoc]
      refine ⟨first, ?_⟩
      rw [findUuidPos_found rfl hlist.widths hnone heq, Option.getD_some, hpos, hparts,
        writeEntry_over huuid hwritten hlength hwidth, putSlot_present hnone heq]
      simp only [List.flatten_append, List.flatten_cons, List.cons_append, List.append_assoc]

end Writes

end Sql602.Rights
