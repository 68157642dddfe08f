import Sql602.Rights.ListConversion
import Sql602.Schemas.SchemaSearch

namespace Sql602.Rights

open Sql602.Schemas (ObjRecord NOT_DELETED CATEG_APPL cString)

/-! The memberships of users and groups in groups and roles. -/

def CATEG_USER : UInt8 := 1

def CATEG_GROUP : UInt8 := 9

def CATEG_ROLE : UInt8 := 10

def RECORD_EMPTY : UInt8 := 2

def ANONYMOUS_USER : Nat := 1

def EVERYBODY_GROUP : Nat := 2

def CONF_ADM_GROUP : Nat := 3

def SPECIAL_USER_COUNT : Nat := 5

abbrev Uuid := List UInt8

/-- `ups` has the identifiers of the groups and roles one after another. -/
structure UserRecord where
  delMark : UInt8
  uuid : Uuid
  ups : List UInt8
  deriving DecidableEq

def members (record : UserRecord) : List Uuid := Slots.slots UUID_SIZE record.ups

def loadUps (users : List UserRecord) (rec : Nat) : Option (List UInt8) :=
  (users[rec]?).bind fun record =>
    if record.delMark = RECORD_EMPTY then none else some record.ups

def setUps (users : List UserRecord) (rec : Nat) (ups : List UInt8) : List UserRecord :=
  users.modify rec fun record => { record with ups := ups }

/-- The size without an incomplete identifier at the end. -/
def alignedSize (ups : List UInt8) : Nat := ups.length / UUID_SIZE * UUID_SIZE

def membershipPos (ups : List UInt8) (uuid : Uuid) : Nat :=
  (Slots.scan UUID_SIZE (fun slot => slot == uuid) (ups.take (alignedSize ups)) ups.length
    0).getD (alignedSize ups)

/-- The list with the membership set or removed. The writes succeed; an error in them ends the
request. -/
def setMembership (ups : List UInt8) (uuid : Uuid) (state : Bool) : List UInt8 :=
  let defSize := alignedSize ups
  let pos := membershipPos ups uuid
  if state = false then
    if pos < defSize then ups.take pos ++ (ups.take defSize).drop (pos + UUID_SIZE) else ups
  else if pos = defSize then Slots.write (fun _ => 0) ups defSize uuid
  else ups

/-- The list without the identifiers that pass the test; it is written when it has changed. -/
def removeUuids (test : Uuid → Bool) (ups : List UInt8) : List UInt8 :=
  let aligned := ups.take (alignedSize ups)
  let kept := Slots.removeWhere UUID_SIZE test aligned.length 0 aligned
  if kept.length < aligned.length then kept else ups

/-- The identifiers of the roles of an application. -/
def rolesOf (objtab : List ObjRecord) (aplUuid : Uuid) : List Uuid :=
  objtab.zipIdx.filterMap fun entry =>
    if entry.1.delMark = NOT_DELETED ∧ entry.1.categ = CATEG_ROLE ∧ entry.1.apluuid = aplUuid then
      some (roleUuid (UInt32.ofNat entry.2))
    else none

inductive Refusal where
  | noRight
  | error
  deriving DecidableEq

def removeAppRoles (objtab : List ObjRecord) (users : List UserRecord) (applobj : Nat) :
    Except Refusal Bool × List UserRecord :=
  match objtab[applobj]? with
  | none => (.error .error, users)
  | some appl =>
      let uuids := rolesOf objtab appl.apluuid
      (.ok false, users.map fun record =>
        if record.delMark = NOT_DELETED then
          { record with
            ups := removeUuids (fun slot => slot.getD 4 0 == 0xff && uuids.contains slot)
              record.ups }
        else record)

/-- Whether the identifier has the pattern of the roles. -/
def rolePattern (uuid : Uuid) : Bool := (uuid.drop 4).all (· == 0xff)

def removeRefsToAllRoles (users : List UserRecord) (userOrGroup : Nat) : List UserRecord :=
  match loadUps users userOrGroup with
  | none => users
  | some ups => setUps users userOrGroup (removeUuids rolePattern ups)

/-- What decides whether the user may administer groups and roles. -/
structure Grantor where
  luser : Nat
  isSecurAdmin : Bool
  isConfAdmin : Bool
  confAdmsOwnGroup : Bool
  confAdmsUserGroups : Bool
  inAdminMode : Bool
  currentSchemaUuid : Uuid
  isApplAdmin : Uuid → Bool
  applLocked : Uuid → Bool

inductive Oper where
  | get
  | set
  | setOnCreate
  deriving DecidableEq

def mayGrantGroup (grantor : Grantor) (group : Nat) : Bool :=
  grantor.isSecurAdmin ||
    if group < SPECIAL_USER_COUNT then
      group == CONF_ADM_GROUP && grantor.isConfAdmin && grantor.confAdmsOwnGroup
    else grantor.isConfAdmin && grantor.confAdmsUserGroups

/-- The name of the author role. -/
def authorName : List UInt8 := [65, 85, 84, 72, 79, 82]

def mayGrantRole (grantor : Grantor) (role : ObjRecord) (state : Bool) : Bool :=
  (grantor.isSecurAdmin || grantor.isApplAdmin role.apluuid ||
      grantor.inAdminMode && role.apluuid == grantor.currentSchemaUuid) &&
    !(state && cString role.name == authorName && grantor.applLocked role.apluuid)

def grantRefusal (grantor : Grantor) (objtab : List ObjRecord) (groupOrRole : Nat)
    (subject2 : UInt8) (state : Bool) : Option Refusal :=
  if subject2 = CATEG_GROUP then
    if mayGrantGroup grantor groupOrRole then none else some .noRight
  else
    match objtab[groupOrRole]? with
    | none => some .error
    | some role => if mayGrantRole grantor role state then none else some .noRight

def subjectUuid (users : List UserRecord) (groupOrRole : Nat) (subject2 : UInt8) : Option Uuid :=
  if subject2 = CATEG_GROUP then
    (users[groupOrRole]?).bind fun record =>
      if record.delMark = RECORD_EMPTY then none else some record.uuid
  else if subject2 = CATEG_ROLE then some (roleUuid (UInt32.ofNat groupOrRole))
  else none

/-- The membership in EVERYBODY is not stored, except for the anonymous user. -/
def isImplicit (user groupOrRole : Nat) (subject2 : UInt8) : Bool :=
  subject2 == CATEG_GROUP && groupOrRole == EVERYBODY_GROUP && user != ANONYMOUS_USER

/-- The state, and the table. The user is the logged one when it is not given. -/
def userAndGroup (grantor : Grantor) (objtab : List ObjRecord) (users : List UserRecord)
    (userOrGroup : Option Nat) (groupOrRole : Nat) (subject2 : UInt8) (oper : Oper)
    (state : Bool) : Except Refusal Bool × List UserRecord :=
  if subject2 = CATEG_APPL then removeAppRoles objtab users groupOrRole
  else
    let user := userOrGroup.getD grantor.luser
    if isImplicit user groupOrRole subject2 then
      if oper = .set ∧ state = false then (.error .noRight, users) else (.ok true, users)
    else
      match loadUps users user, subjectUuid users groupOrRole subject2 with
      | some ups, some uuid =>
          match oper with
          | .get => (.ok (decide (membershipPos ups uuid < alignedSize ups)), users)
          | .setOnCreate => (.ok state, setUps users user (setMembership ups uuid state))
          | .set =>
              match grantRefusal grantor objtab groupOrRole subject2 state with
              | some refusal => (.error refusal, users)
              | none => (.ok state, setUps users user (setMembership ups uuid state))
      | _, _ => (.error .error, users)

/-! Lists of identifiers. -/

section Ups

variable {ups : List UInt8} {uuid : Uuid} {test : Uuid → Bool}

theorem uuid_size_pos : 0 < UUID_SIZE := by decide

theorem take_aligned : ups.take (alignedSize ups) = (Slots.slots UUID_SIZE ups).flatten :=
  (Slots.flatten_slots uuid_size_pos).symm

theorem alignedSize_le : alignedSize ups ≤ ups.length := Nat.div_mul_le_self _ _

theorem alignedSize_eq : alignedSize ups = (Slots.slots UUID_SIZE ups).flatten.length := by
  rw [← take_aligned, List.length_take_of_le alignedSize_le]

theorem widths_slots : ∀ slot ∈ Slots.slots UUID_SIZE ups, slot.length = UUID_SIZE :=
  fun _ hslot => Slots.slots_width uuid_size_pos hslot

theorem slots_length_le : (Slots.slots UUID_SIZE ups).length ≤ ups.length := by
  have hlength := Slots.length_flatten (@widths_slots ups)
  have hcount := Nat.le_mul_of_pos_right (Slots.slots UUID_SIZE ups).length uuid_size_pos
  rw [← hlength, ← alignedSize_eq] at hcount
  exact Nat.le_trans hcount alignedSize_le

theorem membershipPos_absent (habsent : uuid ∉ Slots.slots UUID_SIZE ups) :
    membershipPos ups uuid = alignedSize ups := by
  obtain ⟨fuel, hfuel⟩ := Nat.exists_eq_add_of_le (@slots_length_le ups)
  have hfails : ∀ slot ∈ Slots.slots UUID_SIZE ups, (slot == uuid) = false := by
    intro slot hslot
    rw [beq_eq_false_iff_ne]
    rintro rfl
    exact habsent hslot
  have hscan := @Slots.scan_none _ UUID_SIZE (fun slot => slot == uuid) [] []
    (Slots.slots UUID_SIZE ups) widths_slots hfails uuid_size_pos fuel
  rw [List.nil_append, List.append_nil, ← hfuel] at hscan
  rw [membershipPos, take_aligned]
  exact congrArg (fun found => Option.getD found (alignedSize ups)) hscan

/-- The position of a membership is that of its first identifier. -/
theorem membershipPos_present {before after : List Uuid}
    (hslots : Slots.slots UUID_SIZE ups = before ++ uuid :: after) (hbefore : uuid ∉ before) :
    membershipPos ups uuid = before.flatten.length := by
  have hwidths := @widths_slots ups
  have hlength := @slots_length_le ups
  rw [hslots] at hwidths hlength
  rw [List.length_append, List.length_cons] at hlength
  obtain ⟨fuel, hfuel⟩ := Nat.exists_eq_add_of_le
    (show before.length + 1 ≤ ups.length by omega)
  have hfails : ∀ slot ∈ before, (slot == uuid) = false := by
    intro slot hslot
    rw [beq_eq_false_iff_ne]
    rintro rfl
    exact hbefore hslot
  have hscan := @Slots.scan_found _ UUID_SIZE (fun slot => slot == uuid) [] [] before after uuid
    (fun slot hslot => hwidths slot (List.mem_append_left _ hslot)) hfails
    (hwidths uuid (List.mem_append_right _ List.mem_cons_self)) (beq_self_eq_true uuid) fuel
  rw [List.nil_append, List.append_nil, List.length_nil, Nat.zero_add, ← Nat.add_assoc,
    Nat.add_right_comm, ← hfuel] at hscan
  rw [membershipPos, take_aligned, hslots, hscan, Option.getD_some]

theorem membershipPos_lt_iff :
    membershipPos ups uuid < alignedSize ups ↔ uuid ∈ Slots.slots UUID_SIZE ups := by
  constructor
  · intro hlt
    apply Classical.byContradiction
    intro habsent
    rw [membershipPos_absent habsent] at hlt
    exact Nat.lt_irrefl _ hlt
  · intro hmem
    obtain ⟨before, after, hslots, hbefore⟩ := List.eq_append_cons_of_mem hmem
    have hwidth := widths_slots uuid hmem
    have hpos := uuid_size_pos
    rw [membershipPos_present hslots hbefore, alignedSize_eq, hslots, List.flatten_append,
      List.flatten_cons, List.length_append, List.length_append, hwidth]
    omega

theorem slots_set_on (huuid : uuid.length = UUID_SIZE) :
    Slots.slots UUID_SIZE (setMembership ups uuid true) =
      if uuid ∈ Slots.slots UUID_SIZE ups then Slots.slots UUID_SIZE ups
      else Slots.slots UUID_SIZE ups ++ [uuid] := by
  have hon : ¬ true = false := Bool.noConfusion
  rw [setMembership, if_neg hon]
  split
  case isTrue hlast =>
    have habsent : uuid ∉ Slots.slots UUID_SIZE ups := by
      rw [← membershipPos_lt_iff, hlast]
      exact Nat.lt_irrefl _
    obtain ⟨rest, hups, hwidths, hrest⟩ := Slots.packed_slots ups uuid_size_pos
    have hlong : ups.length ≤ alignedSize ups + uuid.length := by
      have hlength := congrArg List.length hups
      rw [List.length_append, ← alignedSize_eq] at hlength
      omega
    have hwritten : Slots.write (fun _ => 0) ups (alignedSize ups) uuid =
        (Slots.slots UUID_SIZE ups ++ [uuid]).flatten := by
      have hgap : alignedSize ups - ups.length = 0 := Nat.sub_eq_zero_of_le alignedSize_le
      rw [Slots.write, hgap, List.range_zero, List.map_nil, List.append_nil, take_aligned,
        List.drop_of_length_le hlong, List.append_nil, List.flatten_append,
        List.flatten_singleton]
    rw [if_neg habsent, hwritten]
    apply Slots.slots_flatten uuid_size_pos
    intro slot hslot
    cases List.mem_append.mp hslot with
    | inl hold => exact hwidths slot hold
    | inr hnew => exact List.mem_singleton.mp hnew ▸ huuid
  case isFalse hfound =>
    have hpresent : uuid ∈ Slots.slots UUID_SIZE ups := by
      apply Classical.byContradiction
      intro habsent
      exact hfound (membershipPos_absent habsent)
    rw [if_pos hpresent]

theorem slots_set_off :
    Slots.slots UUID_SIZE (setMembership ups uuid false) =
      (Slots.slots UUID_SIZE ups).erase uuid := by
  rw [setMembership, if_pos rfl]
  split
  case isTrue hfound =>
    have hmem := membershipPos_lt_iff.mp hfound
    obtain ⟨before, after, hslots, hbefore⟩ := List.eq_append_cons_of_mem hmem
    have hwidths := @widths_slots ups
    have hpos := membershipPos_present hslots hbefore
    have htake : ups.take (membershipPos ups uuid) = before.flatten := by
      have hle := Nat.le_of_lt hfound
      rw [← Nat.min_eq_left hle, ← List.take_take, take_aligned, hslots, List.flatten_append, hpos,
        List.take_left]
    have hdrop : (ups.take (alignedSize ups)).drop (membershipPos ups uuid + UUID_SIZE) =
        after.flatten := by
      have hwidth := widths_slots uuid hmem
      rw [take_aligned, hslots, List.flatten_append, List.flatten_cons, hpos, ← List.drop_drop,
        List.drop_left, List.drop_left' hwidth]
    rw [hslots] at hwidths
    rw [htake, hdrop, ← List.flatten_append, hslots, List.erase_append_right _ hbefore,
      List.erase_cons_head]
    apply Slots.slots_flatten uuid_size_pos
    intro slot hslot
    apply hwidths
    cases List.mem_append.mp hslot with
    | inl hin => exact List.mem_append_left _ hin
    | inr hin => exact List.mem_append_right _ (List.mem_cons_of_mem _ hin)
  case isFalse hout =>
    rw [List.erase_of_not_mem fun hmem => hout (membershipPos_lt_iff.mpr hmem)]

theorem slots_removeUuids :
    Slots.slots UUID_SIZE (removeUuids test ups) =
      (Slots.slots UUID_SIZE ups).filter fun slot => !test slot := by
  have hkept := @Slots.removeWhere_eq _ UUID_SIZE (Slots.slots UUID_SIZE ups).flatten.length test []
    (Slots.slots UUID_SIZE ups) uuid_size_pos widths_slots (by
      rw [Slots.length_flatten widths_slots]
      exact Nat.le_mul_of_pos_right _ uuid_size_pos)
  rw [List.nil_append, List.nil_append, List.length_nil] at hkept
  have hwidths : ∀ slot ∈ (Slots.slots UUID_SIZE ups).filter fun slot => !test slot,
      slot.length = UUID_SIZE := fun slot hslot => widths_slots slot (List.mem_filter.mp hslot).1
  rw [removeUuids, take_aligned, hkept]
  split
  case isTrue => exact Slots.slots_flatten uuid_size_pos hwidths
  case isFalse hsame =>
    rw [Slots.length_flatten hwidths, Slots.length_flatten widths_slots] at hsame
    have hcount : (Slots.slots UUID_SIZE ups).length ≤
        ((Slots.slots UUID_SIZE ups).filter fun slot => !test slot).length :=
      Nat.le_of_mul_le_mul_right (Nat.le_of_not_lt hsame) uuid_size_pos
    exact (List.filter_sublist.eq_of_length_le hcount).symm

end Ups

end Sql602.Rights
