import Sql602.Library.Run
import Sql602.Rights.Memberships

namespace Sql602.Rights

open Sql602.Schemas (ObjRecord NOT_DELETED CATEG_APPL)

/-! The subjects whose privileges a user has. -/

def DB_ADMIN_GROUP : Nat := 0

def SECUR_ADM_GROUP : Nat := 4

def specialUuid (last : UInt8) : Uuid := List.replicate 11 1 ++ [last]

def dataAdmUuid : Uuid := specialUuid 0

def everybodyUuid : Uuid := specialUuid 2

def confAdmUuid : Uuid := specialUuid 3

def securAdmUuid : Uuid := specialUuid 4

/-- Not the identifier of any subject. -/
def noUuid : Uuid := List.replicate UUID_SIZE 0xfe

structure Hierarchy where
  uuids : List Uuid
  isDataAdmin : Bool
  isConfAdmin : Bool
  isSecurAdmin : Bool

/-- Adds what is in the list of a user or a group. -/
def copyUpUuids (users : List UserRecord) (hierarchy : Hierarchy) (userobj : Nat) : Hierarchy :=
  match loadUps users userobj with
  | none => hierarchy
  | some ups =>
      let slots := Slots.slots UUID_SIZE ups
      { uuids := hierarchy.uuids ++ slots
        isDataAdmin := hierarchy.isDataAdmin || slots.contains dataAdmUuid
        isConfAdmin := hierarchy.isConfAdmin || slots.contains confAdmUuid
        isSecurAdmin := hierarchy.isSecurAdmin || slots.contains securAdmUuid }

/-- The search in the index of the identifiers of users and groups. -/
def findUser (users : List UserRecord) (uuid : Uuid) : Option Nat :=
  users.findIdx? fun record => record.delMark == NOT_DELETED && record.uuid == uuid

/-- The identifier is expanded when it is not one of a role. -/
def expandGroup (users : List UserRecord) (hierarchy : Hierarchy) (i : Nat) : Hierarchy :=
  let uuid := hierarchy.uuids.getD i []
  if rolePattern uuid then hierarchy
  else
    match findUser users uuid with
    | none => hierarchy
    | some recnum => copyUpUuids users hierarchy recnum

def ownUuid (users : List UserRecord) (userobj : Nat) (subjectCateg : UInt8) : Uuid :=
  if subjectCateg = CATEG_ROLE then roleUuid (UInt32.ofNat userobj)
  else if userobj = EVERYBODY_GROUP then everybodyUuid
  else ((users[userobj]?).map UserRecord.uuid).getD []

def setUser (users : List UserRecord) (userobj : Nat) (subjectCateg : UInt8)
    (createHierarchy : Bool) : Hierarchy :=
  let first :=
    if createHierarchy ∧ subjectCateg = CATEG_USER ∧ userobj ≠ ANONYMOUS_USER then everybodyUuid
    else noUuid
  let person := subjectCateg != CATEG_ROLE
  let start : Hierarchy :=
    { uuids := [first, ownUuid users userobj subjectCateg]
      isDataAdmin := person && userobj == DB_ADMIN_GROUP
      isConfAdmin := person && (userobj == DB_ADMIN_GROUP || userobj == CONF_ADM_GROUP)
      isSecurAdmin := person && userobj == SECUR_ADM_GROUP }
  if createHierarchy ∧ subjectCateg ≠ CATEG_ROLE then
    let direct := copyUpUuids users start userobj
    if subjectCateg = CATEG_USER then
      let last := direct.uuids.length
      let withEverybody :=
        if userobj ≠ ANONYMOUS_USER then copyUpUuids users direct EVERYBODY_GROUP else direct
      (List.range' 2 (last - 2)).foldl (expandGroup users) withEverybody
    else direct
  else start

/-- There is no temporary author after the user has been set. -/
def isInGroupdef (hierarchy : Hierarchy) (tempAuthor : Option UInt32) (uuid : Uuid) : Bool :=
  hierarchy.uuids.contains uuid ||
    match tempAuthor with
    | none => false
    | some author => isRoleUuid uuid author

/-! Memberships as a relation. -/

/-- The table is consistent: a membership is in a list once, the identifiers of users and groups
are unique, and they do not look like those of roles. -/
structure ConsistentUsers (users : List UserRecord) : Prop where
  once : ∀ record ∈ users, (members record).Nodup
  unique : ∀ (i j : Nat) (first second : UserRecord), users[i]? = some first →
    users[j]? = some second → first.delMark = NOT_DELETED → second.delMark = NOT_DELETED →
      first.uuid = second.uuid → i = j
  noRoles : ∀ record ∈ users, rolePattern record.uuid = false
  released : ∀ record ∈ users, record.delMark = RECORD_EMPTY → record.ups = []
  whole : ∀ record ∈ users, record.uuid.length = UUID_SIZE

def IsMember (users : List UserRecord) (rec : Nat) (uuid : Uuid) : Prop :=
  ∃ record, users[rec]? = some record ∧ uuid ∈ members record

def IsLive (users : List UserRecord) (rec : Nat) : Prop :=
  ∃ record, users[rec]? = some record ∧ record.delMark = NOT_DELETED

/-- Exactly one membership is made or removed. -/
def MembershipSet (before after : List UserRecord) (user : Nat) (subject : Uuid) (state : Bool) :
    Prop :=
  ∀ rec uuid, IsMember after rec uuid ↔
    if rec = user ∧ uuid = subject then state = true else IsMember before rec uuid

/-- Exactly the memberships of the users concerned in the matching roles are removed. -/
def MembershipsRemoved (before after : List UserRecord) (concerned : Nat → Prop)
    (matching : Uuid → Prop) : Prop :=
  ∀ rec uuid, IsMember after rec uuid ↔
    IsMember before rec uuid ∧ ¬ (concerned rec ∧ matching uuid)

inductive Call where
  | userAndGroup (grantor : Grantor) (userOrGroup : Option Nat) (groupOrRole : Nat)
      (subject2 : UInt8) (oper : Oper) (state : Bool)
  | removeAppRoles (applobj : Nat)
  | removeRefsToAllRoles (userOrGroup : Nat)

section Steps

variable (objtab : List ObjRecord)

def step (users : List UserRecord) : Call → List UserRecord
  | .userAndGroup grantor userOrGroup groupOrRole subject2 oper state =>
      (userAndGroup grantor objtab users userOrGroup groupOrRole subject2 oper state).2
  | .removeAppRoles applobj => (removeAppRoles objtab users applobj).2
  | .removeRefsToAllRoles userOrGroup => removeRefsToAllRoles users userOrGroup

/-- The roles of the application are removed from every user and group that is not deleted. -/
structure AppRolesRemoved (users : List UserRecord) (applobj : Nat)
    (result : Except Refusal Bool × List UserRecord) : Prop where
  found : ∀ appl, objtab[applobj]? = some appl →
    MembershipsRemoved users result.2 (IsLive users) (· ∈ rolesOf objtab appl.apluuid)
  missing : objtab[applobj]? = none → result = (.error .error, users)

/-- What a call with a group or a role does. -/
structure MembershipRight (users : List UserRecord) (user groupOrRole : Nat) (subject2 : UInt8)
    (oper : Oper) (state : Bool) (result : Except Refusal Bool × List UserRecord) : Prop where
  refused : ∀ refusal, result.1 = .error refusal → result.2 = users
  implicit : isImplicit user groupOrRole subject2 = true →
    result.2 = users ∧
      result.1 = if oper = .set ∧ state = false then .error .noRight else .ok true
  asked : oper = .get → result.2 = users ∧
    ∀ answer, result.1 = .ok answer → isImplicit user groupOrRole subject2 = false →
      ∃ subject, subjectUuid users groupOrRole subject2 = some subject ∧
        (answer = true ↔ IsMember users user subject)
  set : oper ≠ .get → isImplicit user groupOrRole subject2 = false →
    ∀ answer, result.1 = .ok answer →
      ∃ subject, subjectUuid users groupOrRole subject2 = some subject ∧
        MembershipSet users result.2 user subject state

def CallRight (users : List UserRecord) : Call → Prop
  | .userAndGroup grantor userOrGroup groupOrRole subject2 oper state =>
      let result := userAndGroup grantor objtab users userOrGroup groupOrRole subject2 oper state
      (subject2 = CATEG_APPL → AppRolesRemoved objtab users groupOrRole result) ∧
        (subject2 ≠ CATEG_APPL →
          MembershipRight users (userOrGroup.getD grantor.luser) groupOrRole subject2 oper state
            result)
  | .removeAppRoles applobj =>
      AppRolesRemoved objtab users applobj (removeAppRoles objtab users applobj)
  | .removeRefsToAllRoles userOrGroup =>
      (∃ ups, loadUps users userOrGroup = some ups) →
        MembershipsRemoved users (removeRefsToAllRoles users userOrGroup) (· = userOrGroup)
          (rolePattern · = true)

/-- The same call twice has the effect of one. -/
def TwiceAsOnce (users : List UserRecord) (call : Call) : Prop :=
  ∀ rec uuid, IsMember (step objtab (step objtab users call) call) rec uuid ↔
    IsMember (step objtab users call) rec uuid

end Steps

/-! What a change of the lists does. -/

section Changes

variable {users after : List UserRecord} {change : Nat → UserRecord → List UInt8} {user rec : Nat}
  {uuid subject : Uuid} {ups : List UInt8}

/-- The lists have changed, and nothing else. -/
def UpsChanged (users after : List UserRecord) (change : Nat → UserRecord → List UInt8) : Prop :=
  ∀ i : Nat, after[i]? = (users[i]?).map fun record => { record with ups := change i record }

theorem UpsChanged.isMember (hchange : UpsChanged users after change) :
    IsMember after rec uuid ↔
      ∃ record, users[rec]? = some record ∧ uuid ∈ Slots.slots UUID_SIZE (change rec record) := by
  rw [IsMember, hchange rec]
  constructor
  · rintro ⟨found, hfound, hmem⟩
    obtain ⟨record, hrecord, rfl⟩ := Option.map_eq_some_iff.mp hfound
    exact ⟨record, hrecord, hmem⟩
  · rintro ⟨record, hrecord, hmem⟩
    exact ⟨_, Option.map_eq_some_iff.mpr ⟨record, hrecord, rfl⟩, hmem⟩

theorem UpsChanged.consistent (hchange : UpsChanged users after change)
    (hwell : ConsistentUsers users)
    (honce : ∀ i record, users[i]? = some record →
      (Slots.slots UUID_SIZE (change i record)).Nodup)
    (hreleased : ∀ i record, users[i]? = some record → record.delMark = RECORD_EMPTY →
      change i record = []) : ConsistentUsers after := by
  have hfrom : ∀ (i : Nat) found, after[i]? = some found → ∃ record, users[i]? = some record ∧
      found = { record with ups := change i record } := by
    intro i found hfound
    rw [hchange i] at hfound
    obtain ⟨record, hrecord, rfl⟩ := Option.map_eq_some_iff.mp hfound
    exact ⟨record, hrecord, rfl⟩
  have hmem : ∀ found ∈ after, ∃ i record, users[i]? = some record ∧ record ∈ users ∧
      found = { record with ups := change i record } := by
    intro found hfound
    obtain ⟨i, hi⟩ := List.mem_iff_getElem?.mp hfound
    obtain ⟨record, hrecord, heq⟩ := hfrom i found hi
    exact ⟨i, record, hrecord, List.mem_of_getElem? hrecord, heq⟩
  constructor
  case once =>
    intro found hfound
    obtain ⟨i, record, hrecord, -, rfl⟩ := hmem found hfound
    exact honce i record hrecord
  case unique =>
    intro i j first second hfirst hsecond hlive hlive' huuid
    obtain ⟨record, hrecord, rfl⟩ := hfrom i first hfirst
    obtain ⟨record', hrecord', rfl⟩ := hfrom j second hsecond
    exact hwell.unique i j record record' hrecord hrecord' hlive hlive' huuid
  case noRoles =>
    intro found hfound
    obtain ⟨i, record, -, hin, rfl⟩ := hmem found hfound
    exact hwell.noRoles record hin
  case released =>
    intro found hfound hempty
    obtain ⟨i, record, hrecord, -, rfl⟩ := hmem found hfound
    exact hreleased i record hrecord hempty
  case whole =>
    intro found hfound
    obtain ⟨i, record, -, hin, rfl⟩ := hmem found hfound
    exact hwell.whole record hin

theorem setUps_changed : UpsChanged users (setUps users user ups)
    fun i record => if user = i then ups else record.ups := by
  intro i
  rw [setUps, List.getElem?_modify]
  cases users[i]? with
  | none => rfl
  | some record =>
      by_cases heq : user = i
      · simp [heq]
      · simp [heq]

theorem loadUps_some (hups : loadUps users user = some ups) :
    ∃ record, users[user]? = some record ∧ record.delMark ≠ RECORD_EMPTY ∧ record.ups = ups := by
  obtain ⟨record, hrecord, hload⟩ := Option.bind_eq_some_iff.mp hups
  split at hload
  · cases hload
  · next hsome => exact ⟨record, hrecord, hsome, Option.some.inj hload⟩

theorem isMember_of_loadUps (hups : loadUps users user = some ups) :
    IsMember users user uuid ↔ uuid ∈ Slots.slots UUID_SIZE ups := by
  obtain ⟨record, hrecord, -, rfl⟩ := loadUps_some hups
  constructor
  · rintro ⟨found, hfound, hmem⟩
    rw [hrecord] at hfound
    cases hfound
    exact hmem
  · intro hmem
    exact ⟨record, hrecord, hmem⟩

/-- A list that is written for a user changes the memberships of that user only. -/
theorem isMember_setUps {old : List UInt8} (hups : loadUps users user = some old) :
    IsMember (setUps users user ups) rec uuid ↔
      if rec = user then uuid ∈ Slots.slots UUID_SIZE ups else IsMember users rec uuid := by
  obtain ⟨record, hrecord, -, -⟩ := loadUps_some hups
  rw [setUps_changed.isMember]
  by_cases heq : rec = user
  · subst heq
    rw [if_pos rfl]
    constructor
    · rintro ⟨found, -, hmem⟩
      rw [if_pos rfl] at hmem
      exact hmem
    · intro hmem
      refine ⟨record, hrecord, ?_⟩
      rw [if_pos rfl]
      exact hmem
  · rw [if_neg heq]
    simp only [if_neg (Ne.symm heq)]
    exact Iff.rfl

theorem setUps_consistent {old : List UInt8} (hwell : ConsistentUsers users)
    (hups : loadUps users user = some old) (honce : (Slots.slots UUID_SIZE ups).Nodup) :
    ConsistentUsers (setUps users user ups) := by
  obtain ⟨record, hrecord, hsome, -⟩ := loadUps_some hups
  apply setUps_changed.consistent hwell
  · intro i found hfound
    split
    · exact honce
    · exact hwell.once found (List.mem_of_getElem? hfound)
  · intro i found hfound hempty
    split
    case isTrue heq =>
      subst heq
      rw [hrecord] at hfound
      cases hfound
      exact absurd hempty hsome
    case isFalse => exact hwell.released found (List.mem_of_getElem? hfound) hempty

theorem once_of_loadUps (hwell : ConsistentUsers users) (hups : loadUps users user = some ups) :
    (Slots.slots UUID_SIZE ups).Nodup := by
  obtain ⟨record, hrecord, -, rfl⟩ := loadUps_some hups
  exact hwell.once record (List.mem_of_getElem? hrecord)

theorem roleUuid_length (role : UInt32) : (roleUuid role).length = UUID_SIZE := rfl

theorem subjectUuid_length {groupOrRole : Nat} {subject2 : UInt8} (hwell : ConsistentUsers users)
    (hsubject : subjectUuid users groupOrRole subject2 = some subject) :
    subject.length = UUID_SIZE := by
  rw [subjectUuid] at hsubject
  split at hsubject
  · obtain ⟨record, hrecord, hread⟩ := Option.bind_eq_some_iff.mp hsubject
    split at hread
    · cases hread
    · cases hread
      exact hwell.whole record (List.mem_of_getElem? hrecord)
  · split at hsubject
    · cases hsubject
      exact roleUuid_length _
    · cases hsubject

theorem mem_setMembership {state : Bool} (honce : (Slots.slots UUID_SIZE ups).Nodup)
    (hsubject : subject.length = UUID_SIZE) :
    uuid ∈ Slots.slots UUID_SIZE (setMembership ups subject state) ↔
      if uuid = subject then state = true else uuid ∈ Slots.slots UUID_SIZE ups := by
  cases state with
  | true =>
      rw [slots_set_on hsubject]
      split
      case isTrue hin =>
        split
        case isTrue heq =>
          rw [heq]
          exact iff_of_true hin rfl
        case isFalse => exact Iff.rfl
      case isFalse =>
        rw [List.mem_append, List.mem_singleton]
        split
        case isTrue heq => exact iff_of_true (Or.inr heq) rfl
        case isFalse hne => exact or_iff_left hne
  | false =>
      rw [slots_set_off, honce.mem_erase_iff]
      split
      case isTrue heq => exact iff_of_false (fun h => h.1 heq) Bool.false_ne_true
      case isFalse hne => exact and_iff_right hne

theorem once_setMembership {state : Bool} (honce : (Slots.slots UUID_SIZE ups).Nodup)
    (hsubject : subject.length = UUID_SIZE) :
    (Slots.slots UUID_SIZE (setMembership ups subject state)).Nodup := by
  cases state with
  | true =>
      rw [slots_set_on hsubject]
      split
      case isTrue => exact honce
      case isFalse hout =>
        exact List.nodup_append.mpr ⟨honce, List.nodup_singleton _, by
          intro first hfirst second hsecond heq
          rw [List.mem_singleton.mp hsecond] at heq
          exact hout (heq ▸ hfirst)⟩
  | false =>
      rw [slots_set_off]
      exact honce.erase _

theorem membershipSet {state : Bool} (hwell : ConsistentUsers users)
    (hups : loadUps users user = some ups) (hsubject : subject.length = UUID_SIZE) :
    MembershipSet users (setUps users user (setMembership ups subject state)) user subject
      state := by
  intro rec uuid
  rw [isMember_setUps hups]
  by_cases huser : rec = user
  · subst huser
    rw [if_pos rfl, mem_setMembership (once_of_loadUps hwell hups) hsubject,
      ← isMember_of_loadUps hups]
    simp only [true_and]
  · rw [if_neg huser, if_neg fun h => huser h.1]

/-! Removals. -/

variable {objtab : List ObjRecord} {applobj : Nat} {test : Uuid → Bool}

theorem once_removeUuids (honce : (Slots.slots UUID_SIZE ups).Nodup) :
    (Slots.slots UUID_SIZE (removeUuids test ups)).Nodup := by
  rw [slots_removeUuids]
  exact honce.filter _

theorem mem_removeUuids : uuid ∈ Slots.slots UUID_SIZE (removeUuids test ups) ↔
    uuid ∈ Slots.slots UUID_SIZE ups ∧ ¬ test uuid = true := by
  rw [slots_removeUuids, List.mem_filter, Bool.not_eq_true', Bool.not_eq_true]

/-- The byte that is tested first does not exclude a role. -/
theorem roleTest_iff {aplUuid : Uuid} :
    (uuid.getD 4 0 == 0xff && (rolesOf objtab aplUuid).contains uuid) = true ↔
      uuid ∈ rolesOf objtab aplUuid := by
  rw [Bool.and_eq_true, List.contains_iff_mem, and_iff_right_iff_imp]
  intro hmem
  obtain ⟨entry, -, hrole⟩ := List.mem_filterMap.mp hmem
  split at hrole
  · cases hrole
    rfl
  · cases hrole

theorem removeAppRoles_changed {appl : ObjRecord} (happl : objtab[applobj]? = some appl) :
    UpsChanged users (removeAppRoles objtab users applobj).2 fun _ record =>
      if record.delMark = NOT_DELETED then
        removeUuids (fun slot => slot.getD 4 0 == 0xff &&
          (rolesOf objtab appl.apluuid).contains slot) record.ups
      else record.ups := by
  intro i
  rw [removeAppRoles, happl]
  dsimp only
  rw [List.getElem?_map]
  congr 1
  funext record
  split <;> rfl

theorem removeAppRoles_right : AppRolesRemoved objtab users applobj
    (removeAppRoles objtab users applobj) := by
  constructor
  case found =>
    intro appl happl rec uuid
    rw [(removeAppRoles_changed happl).isMember]
    constructor
    · rintro ⟨record, hrecord, hmem⟩
      split at hmem
      case isTrue hlive =>
        rw [mem_removeUuids, roleTest_iff] at hmem
        exact ⟨⟨record, hrecord, hmem.1⟩, fun h => hmem.2 h.2⟩
      case isFalse hdeleted =>
        refine ⟨⟨record, hrecord, hmem⟩, ?_⟩
        rintro ⟨⟨found, hfound, hlive⟩, -⟩
        rw [hrecord] at hfound
        cases hfound
        exact hdeleted hlive
    · rintro ⟨⟨record, hrecord, hmem⟩, hkeeps⟩
      refine ⟨record, hrecord, ?_⟩
      split
      case isTrue hlive =>
        rw [mem_removeUuids, roleTest_iff]
        exact ⟨hmem, fun hrole => hkeeps ⟨⟨record, hrecord, hlive⟩, hrole⟩⟩
      case isFalse => exact hmem
  case missing =>
    intro hnone
    rw [removeAppRoles, hnone]

theorem removeAppRoles_consistent (hwell : ConsistentUsers users) :
    ConsistentUsers (removeAppRoles objtab users applobj).2 := by
  cases happl : objtab[applobj]? with
  | none =>
      rw [removeAppRoles_right.missing happl]
      exact hwell
  | some appl =>
      apply (removeAppRoles_changed happl).consistent hwell
      · intro i record hrecord
        have honce := hwell.once record (List.mem_of_getElem? hrecord)
        split
        · exact once_removeUuids honce
        · exact honce
      · intro i record hrecord hempty
        have hother : ¬ record.delMark = NOT_DELETED := by
          rw [hempty]
          decide
        rw [if_neg hother]
        exact hwell.released record (List.mem_of_getElem? hrecord) hempty

theorem removeRefsToAllRoles_right (hups : loadUps users user = some ups) :
    MembershipsRemoved users (removeRefsToAllRoles users user) (· = user)
      (rolePattern · = true) := by
  intro rec uuid
  rw [removeRefsToAllRoles, hups]
  dsimp only
  rw [isMember_setUps hups]
  by_cases heq : rec = user
  · subst heq
    rw [if_pos rfl, mem_removeUuids, isMember_of_loadUps hups]
    simp only [true_and]
  · rw [if_neg heq]
    simp only [heq, false_and, not_false_eq_true, and_true]

theorem removeRefsToAllRoles_consistent (hwell : ConsistentUsers users) :
    ConsistentUsers (removeRefsToAllRoles users user) := by
  rw [removeRefsToAllRoles]
  cases hups : loadUps users user with
  | none => exact hwell
  | some ups => exact setUps_consistent hwell hups (once_removeUuids (once_of_loadUps hwell hups))

/-! Calls. -/

variable {grantor : Grantor} {userOrGroup : Option Nat} {groupOrRole : Nat} {subject2 : UInt8}
  {oper : Oper} {state : Bool}

/-- What the call does, once the lists and the identifiers have been read. -/
theorem userAndGroup_cases (hother : subject2 ≠ CATEG_APPL) :
    let result := userAndGroup grantor objtab users userOrGroup groupOrRole subject2 oper state
    let user := userOrGroup.getD grantor.luser
    isImplicit user groupOrRole subject2 = true ∧ result.2 = users ∧
        result.1 = (if oper = .set ∧ state = false then .error .noRight else .ok true) ∨
      isImplicit user groupOrRole subject2 = false ∧ result.2 = users ∧
        (∃ refusal, result.1 = .error refusal) ∨
      isImplicit user groupOrRole subject2 = false ∧
        ∃ ups subject, loadUps users user = some ups ∧
          subjectUuid users groupOrRole subject2 = some subject ∧
          (oper = .get ∧ result = (.ok (decide (membershipPos ups subject < alignedSize ups)),
              users) ∨
            oper ≠ .get ∧
              result = (.ok state, setUps users user (setMembership ups subject state))) := by
  intro result user
  have hresult : result =
      userAndGroup grantor objtab users userOrGroup groupOrRole subject2 oper state := rfl
  rw [userAndGroup, if_neg hother] at hresult
  dsimp only at hresult
  split at hresult
  case isTrue himplicit =>
    refine Or.inl ⟨himplicit, ?_⟩
    split at hresult
    case isTrue hoff =>
      rw [hresult, if_pos hoff]
      exact ⟨rfl, rfl⟩
    case isFalse hon =>
      rw [hresult, if_neg hon]
      exact ⟨rfl, rfl⟩
  case isFalse hstored =>
    have hstored' := eq_false_of_ne_true hstored
    split at hresult
    case h_1 ups subject hups hsubject =>
      cases oper with
      | get =>
          exact Or.inr (Or.inr ⟨hstored', ups, subject, hups, hsubject, Or.inl ⟨rfl, hresult⟩⟩)
      | setOnCreate =>
          refine Or.inr (Or.inr ⟨hstored', ups, subject, hups, hsubject, Or.inr ⟨?_, hresult⟩⟩)
          exact Oper.noConfusion
      | set =>
          dsimp only at hresult
          cases hgrant : grantRefusal grantor objtab groupOrRole subject2 state with
          | some refusal =>
              rw [hgrant] at hresult
              refine Or.inr (Or.inl ⟨hstored', ?_, refusal, ?_⟩)
              · rw [hresult]
              · rw [hresult]
          | none =>
              rw [hgrant] at hresult
              refine Or.inr (Or.inr ⟨hstored', ups, subject, hups, hsubject, Or.inr ⟨?_, hresult⟩⟩)
              exact Oper.noConfusion
    case h_2 =>
      refine Or.inr (Or.inl ⟨hstored', ?_, .error, ?_⟩)
      · rw [hresult]
      · rw [hresult]

theorem userAndGroup_right (hwell : ConsistentUsers users) (hother : subject2 ≠ CATEG_APPL) :
    MembershipRight users (userOrGroup.getD grantor.luser) groupOrRole subject2 oper state
      (userAndGroup grantor objtab users userOrGroup groupOrRole subject2 oper state) := by
  obtain ⟨himplicit, hsame, hreply⟩ | ⟨hstored, hsame, refusal, hrefusal⟩ |
      ⟨hstored, ups, subject, hups, hsubject, hdone⟩ :=
    @userAndGroup_cases users objtab grantor userOrGroup groupOrRole subject2 oper state hother
  · constructor
    case refused => exact fun _ _ => hsame
    case implicit => exact fun _ => ⟨hsame, hreply⟩
    case asked =>
      refine fun _ => ⟨hsame, fun answer _ hstored => ?_⟩
      rw [himplicit] at hstored
      cases hstored
    case set =>
      intro _ hstored
      rw [himplicit] at hstored
      cases hstored
  · constructor
    case refused => exact fun _ _ => hsame
    case implicit =>
      intro himplicit
      rw [himplicit] at hstored
      cases hstored
    case asked =>
      refine fun _ => ⟨hsame, fun answer hanswer _ => ?_⟩
      rw [hrefusal] at hanswer
      cases hanswer
    case set =>
      intro _ _ answer hanswer
      rw [hrefusal] at hanswer
      cases hanswer
  · have hno : ¬ isImplicit (userOrGroup.getD grantor.luser) groupOrRole subject2 = true := by
      rw [hstored]
      exact Bool.false_ne_true
    obtain ⟨hget, hresult⟩ | ⟨hset, hresult⟩ := hdone
    · rw [hresult]
      constructor
      case refused => exact fun _ _ => rfl
      case implicit => exact fun himplicit => absurd himplicit hno
      case asked =>
        refine fun _ => ⟨rfl, fun answer hanswer _ => ⟨subject, hsubject, ?_⟩⟩
        rw [isMember_of_loadUps hups, ← membershipPos_lt_iff]
        cases hanswer
        exact decide_eq_true_iff
      case set => exact fun hnot => absurd hget hnot
    · rw [hresult]
      constructor
      case refused =>
        intro refusal hrefusal
        cases hrefusal
      case implicit => exact fun himplicit => absurd himplicit hno
      case asked => exact fun hget => absurd hget hset
      case set =>
        intro _ _ _ _
        exact ⟨subject, hsubject, membershipSet hwell hups (subjectUuid_length hwell hsubject)⟩

theorem userAndGroup_consistent (hwell : ConsistentUsers users) :
    ConsistentUsers
      (userAndGroup grantor objtab users userOrGroup groupOrRole subject2 oper state).2 := by
  by_cases happl : subject2 = CATEG_APPL
  · rw [userAndGroup, if_pos happl]
    exact removeAppRoles_consistent hwell
  · obtain ⟨-, hsame, -⟩ | ⟨-, hsame, -⟩ | ⟨-, ups, subject, hups, hsubject, hdone⟩ :=
      @userAndGroup_cases users objtab grantor userOrGroup groupOrRole subject2 oper state happl
    · exact hsame.symm ▸ hwell
    · exact hsame.symm ▸ hwell
    · obtain ⟨-, hresult⟩ | ⟨-, hresult⟩ := hdone
      · rw [hresult]
        exact hwell
      · rw [hresult]
        exact setUps_consistent hwell hups (once_setMembership (once_of_loadUps hwell hups)
          (subjectUuid_length hwell hsubject))

theorem step_consistent (hwell : ConsistentUsers users) (call : Call) :
    ConsistentUsers (step objtab users call) := by
  cases call with
  | userAndGroup grantor userOrGroup groupOrRole subject2 oper state =>
      exact userAndGroup_consistent hwell
  | removeAppRoles applobj => exact removeAppRoles_consistent hwell
  | removeRefsToAllRoles userOrGroup => exact removeRefsToAllRoles_consistent hwell

theorem callRight (hwell : ConsistentUsers users) (call : Call) : CallRight objtab users call := by
  cases call with
  | userAndGroup grantor userOrGroup groupOrRole subject2 oper state =>
      constructor
      · intro happl
        rw [userAndGroup, if_pos happl]
        exact removeAppRoles_right
      · exact userAndGroup_right hwell
  | removeAppRoles applobj => exact removeAppRoles_right
  | removeRefsToAllRoles userOrGroup =>
      rintro ⟨ups, hups⟩
      exact removeRefsToAllRoles_right hups

/-! The same call again. -/

theorem UpsChanged.isLive (hchange : UpsChanged users after change) :
    IsLive after rec ↔ IsLive users rec := by
  rw [IsLive, hchange rec]
  constructor
  · rintro ⟨found, hfound, hlive⟩
    obtain ⟨record, hrecord, rfl⟩ := Option.map_eq_some_iff.mp hfound
    exact ⟨record, hrecord, hlive⟩
  · rintro ⟨record, hrecord, hlive⟩
    exact ⟨_, Option.map_eq_some_iff.mpr ⟨record, hrecord, rfl⟩, hlive⟩

theorem UpsChanged.subjectUuid (hchange : UpsChanged users after change) :
    subjectUuid after groupOrRole subject2 = subjectUuid users groupOrRole subject2 := by
  rw [Rights.subjectUuid, Rights.subjectUuid, hchange groupOrRole, Option.bind_map]
  rfl

theorem removed_again {concerned concerned' : Nat → Prop} {matching : Uuid → Prop}
    {last : List UserRecord} (hfirst : MembershipsRemoved users after concerned matching)
    (hsecond : MembershipsRemoved after last concerned' matching)
    (hsame : concerned' rec → concerned rec) : IsMember last rec uuid ↔ IsMember after rec uuid := by
  rw [hsecond rec uuid]
  refine and_iff_left_of_imp fun hmem hconcerned => ?_
  exact ((hfirst rec uuid).mp hmem).2 (hconcerned.imp_left hsame)

theorem removeAppRoles_twice :
    IsMember (removeAppRoles objtab (removeAppRoles objtab users applobj).2 applobj).2 rec uuid ↔
      IsMember (removeAppRoles objtab users applobj).2 rec uuid := by
  cases happl : objtab[applobj]? with
  | none =>
      rw [removeAppRoles_right.missing happl]
  | some appl =>
      exact removed_again (removeAppRoles_right.found appl happl)
        (removeAppRoles_right.found appl happl) (removeAppRoles_changed happl).isLive.mp

theorem removeRefsToAllRoles_twice :
    IsMember (removeRefsToAllRoles (removeRefsToAllRoles users user) user) rec uuid ↔
      IsMember (removeRefsToAllRoles users user) rec uuid := by
  cases hups : loadUps users user with
  | none =>
      have hsame : removeRefsToAllRoles users user = users := by
        rw [removeRefsToAllRoles, hups]
      rw [hsame, hsame]
  | some ups =>
      cases hagain : loadUps (removeRefsToAllRoles users user) user with
      | none =>
          have hsame : removeRefsToAllRoles (removeRefsToAllRoles users user) user =
              removeRefsToAllRoles users user := by
            rw [removeRefsToAllRoles, hagain]
          rw [hsame]
      | some ups' =>
          exact removed_again (removeRefsToAllRoles_right hups)
            (removeRefsToAllRoles_right hagain) id

theorem userAndGroup_twice (hwell : ConsistentUsers users) (hother : subject2 ≠ CATEG_APPL) :
    let once := (userAndGroup grantor objtab users userOrGroup groupOrRole subject2 oper state).2
    IsMember (userAndGroup grantor objtab once userOrGroup groupOrRole subject2 oper state).2 rec
        uuid ↔ IsMember once rec uuid := by
  intro once
  have honce : once =
      (userAndGroup grantor objtab users userOrGroup groupOrRole subject2 oper state).2 := rfl
  have hwell' : ConsistentUsers once := userAndGroup_consistent hwell
  obtain ⟨-, hsame, -⟩ | ⟨-, hsame, -⟩ | ⟨-, ups', subject', hups', hsubject', hdone'⟩ :=
    @userAndGroup_cases once objtab grantor userOrGroup groupOrRole subject2 oper state hother
  · rw [hsame]
  · rw [hsame]
  · obtain ⟨-, hagain⟩ | ⟨hset', hagain⟩ := hdone'
    · rw [hagain]
    · -- The list is written again: the first call has written it, or it has changed nothing.
      obtain ⟨-, hsame, -⟩ | ⟨-, hsame, -⟩ | ⟨-, ups, subject, hups, hsubject, hdone⟩ :=
        @userAndGroup_cases users objtab grantor userOrGroup groupOrRole subject2 oper state hother
      · rw [honce, hsame, hsame]
      · rw [honce, hsame, hsame]
      · obtain ⟨hget, -⟩ | ⟨-, hfirst⟩ := hdone
        · exact absurd hget hset'
        · rw [hfirst] at honce
          have hequal : subject' = subject := by
            rw [honce, setUps_changed.subjectUuid, hsubject] at hsubject'
            exact (Option.some.inj hsubject').symm
          subst hequal
          have hlength := subjectUuid_length hwell hsubject
          dsimp only at honce
          rw [hagain, membershipSet hwell' hups' hlength rec uuid]
          have hmember := @membershipSet _ _ _ _ state hwell hups hlength rec uuid
          rw [← honce] at hmember
          rw [hmember]
          split <;> rfl

theorem twiceAsOnce (hwell : ConsistentUsers users) (call : Call) :
    TwiceAsOnce objtab users call := by
  intro rec uuid
  cases call with
  | userAndGroup grantor userOrGroup groupOrRole subject2 oper state =>
      by_cases happl : subject2 = CATEG_APPL
      · simp only [step, userAndGroup, if_pos happl]
        exact removeAppRoles_twice
      · exact userAndGroup_twice hwell happl
  | removeAppRoles applobj => exact removeAppRoles_twice
  | removeRefsToAllRoles userOrGroup => exact removeRefsToAllRoles_twice

end Changes

/-! The hierarchy. -/

section Hierarchies

variable {users : List UserRecord} {hierarchy : Hierarchy} {user : Nat} {uuid : Uuid}

def upsOf (users : List UserRecord) (userobj : Nat) : List Uuid :=
  ((loadUps users userobj).map (Slots.slots UUID_SIZE)).getD []

/-- What an identifier adds to the list. -/
def expansion (users : List UserRecord) (uuid : Uuid) : List Uuid :=
  if rolePattern uuid then [] else ((findUser users uuid).map (upsOf users)).getD []

theorem mem_upsOf (hwell : ConsistentUsers users) :
    uuid ∈ upsOf users user ↔ IsMember users user uuid := by
  rw [upsOf]
  cases hups : loadUps users user with
  | some ups => exact (isMember_of_loadUps hups).symm
  | none =>
      refine iff_of_false List.not_mem_nil ?_
      rintro ⟨record, hrecord, hmem⟩
      rw [loadUps, hrecord, Option.bind_some] at hups
      split at hups
      case isTrue hempty =>
        rw [members, hwell.released record (List.mem_of_getElem? hrecord) hempty] at hmem
        cases hmem
      case isFalse => cases hups

theorem copyUpUuids_uuids :
    (copyUpUuids users hierarchy user).uuids = hierarchy.uuids ++ upsOf users user := by
  rw [copyUpUuids, upsOf]
  cases loadUps users user with
  | none => exact (List.append_nil _).symm
  | some ups => rfl

theorem expandGroup_uuids (i : Nat) :
    (expandGroup users hierarchy i).uuids =
      hierarchy.uuids ++ expansion users (hierarchy.uuids.getD i []) := by
  rw [expandGroup, expansion]
  split
  · exact (List.append_nil _).symm
  · cases findUser users (hierarchy.uuids.getD i []) with
    | none => exact (List.append_nil _).symm
    | some recnum => exact copyUpUuids_uuids

/-- The list grows while it is passed; the items that are expanded stay in their places. -/
theorem foldl_expandGroup {places : List Nat} (hplaces : ∀ i ∈ places, i < hierarchy.uuids.length) :
    (places.foldl (expandGroup users) hierarchy).uuids =
      hierarchy.uuids ++
        (places.map fun i => expansion users (hierarchy.uuids.getD i [])).flatten := by
  induction places generalizing hierarchy with
  | nil => exact (List.append_nil _).symm
  | cons i places ih =>
      obtain ⟨-, hrest⟩ := List.forall_mem_cons.mp hplaces
      have hgrown : ∀ j ∈ places, j < (expandGroup users hierarchy i).uuids.length := by
        intro j hj
        rw [expandGroup_uuids, List.length_append]
        exact Nat.lt_add_right _ (hrest j hj)
      have hstays : (places.map fun j =>
          expansion users ((expandGroup users hierarchy i).uuids.getD j [])) =
            places.map fun j => expansion users (hierarchy.uuids.getD j []) := by
        apply List.map_congr_left
        intro j hj
        rw [expandGroup_uuids, List.getD_append _ _ _ _ (hrest j hj)]
      rw [List.foldl_cons, ih hgrown, hstays, expandGroup_uuids, List.map_cons,
        List.flatten_cons, List.append_assoc]

theorem findUser_iff (hwell : ConsistentUsers users) {group : Nat} :
    findUser users uuid = some group ↔
      ∃ record, users[group]? = some record ∧ record.delMark = NOT_DELETED ∧
        record.uuid = uuid := by
  rw [findUser, List.findIdx?_eq_some_iff_getElem]
  constructor
  · rintro ⟨hlt, hfound, -⟩
    rw [Bool.and_eq_true, beq_iff_eq, beq_iff_eq] at hfound
    exact ⟨_, List.getElem?_eq_getElem hlt, hfound⟩
  · rintro ⟨record, hrecord, hlive, huuid⟩
    obtain ⟨hlt, hget⟩ := List.getElem?_eq_some_iff.mp hrecord
    refine ⟨hlt, ?_, ?_⟩
    · rw [hget, hlive, huuid, beq_self_eq_true, beq_self_eq_true]
      rfl
    · intro j hj hother
      rw [Bool.and_eq_true, beq_iff_eq, beq_iff_eq] at hother
      have hjlt := Nat.lt_trans hj hlt
      have heq := hwell.unique j group _ record (List.getElem?_eq_getElem hjlt) hrecord hother.1
        hlive (hother.2.trans huuid.symm)
      exact absurd heq (Nat.ne_of_lt hj)

theorem mem_expansion (hwell : ConsistentUsers users) {other : Uuid} :
    uuid ∈ expansion users other ↔
      ∃ group record, users[group]? = some record ∧ record.delMark = NOT_DELETED ∧
        record.uuid = other ∧ IsMember users group uuid := by
  rw [expansion]
  constructor
  · intro hmem
    split at hmem
    · cases hmem
    · cases hfound : findUser users other with
      | none =>
          rw [hfound] at hmem
          cases hmem
      | some group =>
          rw [hfound] at hmem
          obtain ⟨record, hrecord, hlive, huuid⟩ := (findUser_iff hwell).mp hfound
          exact ⟨group, record, hrecord, hlive, huuid, (mem_upsOf hwell).mp hmem⟩
  · rintro ⟨group, record, hrecord, hlive, rfl, hmem⟩
    have hfound := (findUser_iff hwell).mpr ⟨record, hrecord, hlive, rfl⟩
    rw [hwell.noRoles record (List.mem_of_getElem? hrecord), hfound, if_neg Bool.false_ne_true]
    exact (mem_upsOf hwell).mpr hmem

/-- The items in the middle of a list are at the places after its beginning. -/
theorem map_range'_middle {α β : Type} (f : α → β) (before middle after : List α) (d : α) :
    ((List.range' before.length middle.length).map fun i =>
      f ((before ++ middle ++ after).getD i d)) = middle.map f := by
  apply List.ext_getElem
  · rw [List.length_map, List.length_map, List.length_range']
  · intro i hi hi'
    rw [List.length_map] at hi'
    rw [List.getElem_map, List.getElem_map, List.getElem_range', Nat.one_mul, List.append_assoc,
      List.getD_append_right _ _ _ _ (Nat.le_add_right _ _), Nat.add_sub_cancel_left,
      List.getD_append _ _ _ _ hi', List.getD_eq_getElem _ _ hi']

/-- The first identifier stands for EVERYBODY, except for the anonymous user. -/
def firstUuid (user : Nat) : Uuid := if user ≠ ANONYMOUS_USER then everybodyUuid else noUuid

theorem setUser_uuids {record : UserRecord} (hrecord : users[user]? = some record)
    (hother : user ≠ EVERYBODY_GROUP) :
    (setUser users user CATEG_USER true).uuids =
      [firstUuid user, record.uuid] ++ upsOf users user ++
        (if user ≠ ANONYMOUS_USER then upsOf users EVERYBODY_GROUP else []) ++
        ((upsOf users user).map (expansion users)).flatten := by
  have hperson : CATEG_USER ≠ CATEG_ROLE := by decide
  have hown : ownUuid users user CATEG_USER = record.uuid := by
    rw [ownUuid, if_neg hperson, if_neg hother, hrecord]
    rfl
  have hfirst : (if true = true ∧ CATEG_USER = CATEG_USER ∧ user ≠ ANONYMOUS_USER then
      everybodyUuid else noUuid) = firstUuid user := by
    rw [firstUuid]
    simp only [true_and]
  rw [setUser, if_pos ⟨rfl, hperson⟩, if_pos rfl, hfirst, hown]
  generalize hstart : (Hierarchy.mk [firstUuid user, record.uuid] _ _ _) = start
  have hdirect : (copyUpUuids users start user).uuids =
      [firstUuid user, record.uuid] ++ upsOf users user := by
    rw [copyUpUuids_uuids, ← hstart]
  have hbase : (if user ≠ ANONYMOUS_USER then
      copyUpUuids users (copyUpUuids users start user) EVERYBODY_GROUP
      else copyUpUuids users start user).uuids =
        [firstUuid user, record.uuid] ++ upsOf users user ++
          (if user ≠ ANONYMOUS_USER then upsOf users EVERYBODY_GROUP else []) := by
    split
    · rw [copyUpUuids_uuids, hdirect]
    · rw [hdirect, List.append_nil]
  have hplaces : (copyUpUuids users start user).uuids.length - 2 = (upsOf users user).length := by
    rw [hdirect, List.length_append]
    exact Nat.add_sub_cancel_left _ _
  dsimp only
  rw [hplaces, foldl_expandGroup, hbase]
  · exact congrArg _ (congrArg _ (map_range'_middle (expansion users)
      [firstUuid user, record.uuid] (upsOf users user) _ []))
  · intro i hi
    have hlt := (List.mem_range'_1.mp hi).2
    rw [hbase, List.length_append, List.length_append]
    exact Nat.lt_add_right _ hlt

/-- The subjects of a user with the hierarchy. -/
structure HierarchyRight (users : List UserRecord) (user : Nat) (own : Uuid) : Prop where
  subjects : ∀ uuid, isInGroupdef (setUser users user CATEG_USER true) none uuid = true ↔
    uuid = own ∨
      (if user = ANONYMOUS_USER then uuid = noUuid
        else uuid = everybodyUuid ∨ IsMember users EVERYBODY_GROUP uuid) ∨
      IsMember users user uuid ∨
      ∃ group record, users[group]? = some record ∧ record.delMark = NOT_DELETED ∧
        IsMember users user record.uuid ∧ IsMember users group uuid

theorem hierarchyRight (hwell : ConsistentUsers users) {record : UserRecord}
    (hrecord : users[user]? = some record) (hother : user ≠ EVERYBODY_GROUP) :
    HierarchyRight users user record.uuid := by
  constructor
  intro uuid
  have hexpanded : uuid ∈ ((upsOf users user).map (expansion users)).flatten ↔
      ∃ group record, users[group]? = some record ∧ record.delMark = NOT_DELETED ∧
        IsMember users user record.uuid ∧ IsMember users group uuid := by
    rw [List.mem_flatten]
    constructor
    · rintro ⟨list, hlist, hmem⟩
      obtain ⟨other, hother, rfl⟩ := List.mem_map.mp hlist
      obtain ⟨group, found, hfound, hlive, rfl, hin⟩ := (mem_expansion hwell).mp hmem
      exact ⟨group, found, hfound, hlive, (mem_upsOf hwell).mp hother, hin⟩
    · rintro ⟨group, found, hfound, hlive, hmember, hin⟩
      exact ⟨_, List.mem_map_of_mem ((mem_upsOf hwell).mpr hmember),
        (mem_expansion hwell).mpr ⟨group, found, hfound, hlive, rfl, hin⟩⟩
  have hnone : isInGroupdef (setUser users user CATEG_USER true) none uuid =
      (setUser users user CATEG_USER true).uuids.contains uuid := Bool.or_false _
  rw [hnone, List.contains_iff_mem, setUser_uuids hrecord hother, List.mem_append,
    List.mem_append, List.mem_append, hexpanded, mem_upsOf hwell, List.mem_cons,
    List.mem_singleton, firstUuid]
  by_cases hanonymous : user = ANONYMOUS_USER
  · rw [if_neg (not_not_intro hanonymous), if_neg (not_not_intro hanonymous),
      if_pos hanonymous]
    simp only [List.not_mem_nil, or_false, or_assoc]
    exact or_left_comm
  · rw [if_pos hanonymous, if_pos hanonymous, if_neg hanonymous, mem_upsOf hwell]
    constructor
    · rintro ((((heverybody | hown) | hmember) | himplicit) | hrest)
      · exact Or.inr (Or.inl (Or.inl heverybody))
      · exact Or.inl hown
      · exact Or.inr (Or.inr (Or.inl hmember))
      · exact Or.inr (Or.inl (Or.inr himplicit))
      · exact Or.inr (Or.inr (Or.inr hrest))
    · rintro (hown | (heverybody | himplicit) | hmember | hrest)
      · exact Or.inl (Or.inl (Or.inl (Or.inr hown)))
      · exact Or.inl (Or.inl (Or.inl (Or.inl heverybody)))
      · exact Or.inl (Or.inr himplicit)
      · exact Or.inl (Or.inl (Or.inr hmember))
      · exact Or.inr hrest

end Hierarchies

/-- Every user but the group EVERYBODY has exactly its subjects. -/
def HierarchiesRight (users : List UserRecord) : Prop :=
  ∀ (user : Nat) (record : UserRecord), users[user]? = some record → user ≠ EVERYBODY_GROUP →
    HierarchyRight users user record.uuid

theorem memberships_right (objtab : List ObjRecord) (users : List UserRecord)
    (hwell : ConsistentUsers users) (calls : List Call) :
    Run.Always (step objtab) (fun users => ConsistentUsers users ∧ HierarchiesRight users) users
        calls ∧
      Run.Meets (step objtab) (fun users call => CallRight objtab users call ∧
        TwiceAsOnce objtab users call) users calls := by
  induction calls generalizing users with
  | nil => exact ⟨⟨hwell, fun _ _ => hierarchyRight hwell⟩, trivial⟩
  | cons call calls ih =>
      obtain ⟨halways, hmeets⟩ := ih (step objtab users call) (step_consistent hwell call)
      exact ⟨⟨⟨hwell, fun _ _ => hierarchyRight hwell⟩, halways⟩,
        ⟨callRight hwell call, twiceAsOnce hwell call⟩, hmeets⟩

def plainUuid (last : UInt8) : Uuid := List.replicate 11 7 ++ [last]

/-- The special subjects, a user and two groups. The user is in the first group, which is in the
second one, and the second group is in a third one. -/
def nestedUsers : List UserRecord :=
  [⟨NOT_DELETED, dataAdmUuid, []⟩, ⟨NOT_DELETED, specialUuid 1, []⟩,
    ⟨NOT_DELETED, everybodyUuid, []⟩, ⟨NOT_DELETED, confAdmUuid, []⟩,
    ⟨NOT_DELETED, securAdmUuid, []⟩, ⟨NOT_DELETED, plainUuid 5, plainUuid 6⟩,
    ⟨NOT_DELETED, plainUuid 6, plainUuid 7⟩, ⟨NOT_DELETED, plainUuid 7, plainUuid 8⟩,
    ⟨NOT_DELETED, plainUuid 8, []⟩]

def securityAdmin : Grantor where
  luser := 5
  isSecurAdmin := true
  isConfAdmin := false
  confAdmsOwnGroup := false
  confAdmsUserGroups := false
  inAdminMode := false
  currentSchemaUuid := []
  isApplAdmin := fun _ => false
  applLocked := fun _ => false

theorem nestedUsers_consistent : ConsistentUsers nestedUsers := by
  constructor
  case once => decide
  case unique =>
    have hdistinct : (nestedUsers.map UserRecord.uuid).Nodup := by decide
    intro i j first second hfirst hsecond _ _ huuid
    have hi : (nestedUsers.map UserRecord.uuid)[i]? = some first.uuid := by
      rw [List.getElem?_map, hfirst, Option.map_some]
    have hj : (nestedUsers.map UserRecord.uuid)[j]? = some first.uuid := by
      rw [List.getElem?_map, hsecond, Option.map_some, huuid]
    obtain ⟨hlt, -⟩ := List.getElem?_eq_some_iff.mp hi
    exact (List.getElem?_inj hlt hdistinct).mp (hi.trans hj.symm)
  case noRoles => decide
  case released => decide
  case whole => decide

/-- The user leaves the group and comes back, and the roles of a group are removed. -/
theorem memberships_right_nested :
    let calls : List Call := [.userAndGroup securityAdmin (some 5) 6 CATEG_GROUP .set false,
      .userAndGroup securityAdmin none 6 CATEG_GROUP .set true, .removeRefsToAllRoles 6]
    Run.Always (step []) (fun users => ConsistentUsers users ∧ HierarchiesRight users) nestedUsers
        calls ∧
      Run.Meets (step []) (fun users call => CallRight [] users call ∧
        TwiceAsOnce [] users call) nestedUsers calls :=
  memberships_right [] nestedUsers nestedUsers_consistent _

/-- The membership in EVERYBODY cannot be removed, and a group of a group of a user is one of the
subjects of the user when it is neither a group of the user nor a role. -/
theorem not_forall_membershipSet :
    (¬ ∀ users, ConsistentUsers users → ∀ grantor user group state,
      let result := userAndGroup grantor [] users (some user) group CATEG_GROUP .set state
      ∃ answer subject, result.1 = .ok answer ∧
        subjectUuid users group CATEG_GROUP = some subject ∧
        MembershipSet users result.2 user subject state) ∧
      ¬ ∀ users, ConsistentUsers users → ∀ (user : Nat) record, users[user]? = some record →
        ∀ uuid, isInGroupdef (setUser users user CATEG_USER true) none uuid = true →
          uuid = record.uuid ∨ uuid = everybodyUuid ∨ IsMember users user uuid ∨
            rolePattern uuid = true := by
  constructor
  · intro hall
    obtain ⟨answer, -, hanswer, -⟩ := hall nestedUsers nestedUsers_consistent securityAdmin 5
      EVERYBODY_GROUP false
    have hrefused : (userAndGroup securityAdmin [] nestedUsers (some 5) EVERYBODY_GROUP CATEG_GROUP
        .set false).1 = .error .noRight := by rfl
    rw [hrefused] at hanswer
    cases hanswer
  · intro hall
    have hin : isInGroupdef (setUser nestedUsers 5 CATEG_USER true) none (plainUuid 7) = true := by
      decide
    have hdirect : ¬ IsMember nestedUsers 5 (plainUuid 7) := by
      rintro ⟨record, hrecord, hmem⟩
      cases hrecord
      revert hmem
      decide
    obtain hown | heverybody | hmember | hrole :=
      hall nestedUsers nestedUsers_consistent 5 _ rfl (plainUuid 7) hin
    · exact absurd hown (by decide)
    · exact absurd heverybody (by decide)
    · exact hdirect hmember
    · exact absurd hrole (by decide)

end Sql602.Rights
