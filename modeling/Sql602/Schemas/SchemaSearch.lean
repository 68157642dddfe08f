import Sql602.Library.Greatest
import Sql602.Library.Run
import Sql602.Schemas.SchemaCache

namespace Sql602.Schemas

/-! The table of objects, and the two searches for a schema in it. -/

def NOT_DELETED : UInt8 := 0

def CATEG_APPL : UInt8 := 7

/-- The name fills a field that ends by zero bytes, unless it is full. -/
structure ObjRecord where
  delMark : UInt8
  name : List UInt8
  categ : UInt8
  apluuid : Uuid
  deriving DecidableEq

def ObjRecord.isSchema (record : ObjRecord) : Bool :=
  record.delMark == NOT_DELETED && record.categ == CATEG_APPL

def cString (bytes : List UInt8) : Name := bytes.takeWhile (· != 0)

/-- The names and the identifiers of the schemas are unique; names are compared as the index and
`sys_stricmp` do it. -/
structure ObjTable (cmp : Name → Name → Ordering) where
  records : List ObjRecord
  name_length : ∀ record ∈ records, record.name.length = OBJ_NAME_LEN
  uuid_length : ∀ record ∈ records, record.apluuid.length = UUID_SIZE
  names : ∀ (i j : Nat) (first second : ObjRecord), records[i]? = some first → records[j]? = some second →
    first.isSchema = true → second.isSchema = true →
      cmp (cString first.name) (cString second.name) = .eq → i = j
  uuids : ∀ (i j : Nat) (first second : ObjRecord), records[i]? = some first → records[j]? = some second →
    first.isSchema = true → second.isSchema = true → first.apluuid = second.apluuid → i = j

structure ObjtabKey where
  objname : Name
  categ : UInt8
  applId : Uuid
  recnum : Nat

/-- The keys of the records that are not deleted. -/
def keysOf (records : List ObjRecord) : List ObjtabKey :=
  records.zipIdx.filterMap fun entry =>
    if entry.1.delMark = NOT_DELETED then
      some ⟨cString entry.1.name, entry.1.categ, entry.1.apluuid, entry.2⟩
    else none

def keyCmp (cmp : Name → Name → Ordering) : ObjtabKey → ObjtabKey → Ordering :=
  compareLex (Least.onField ObjtabKey.objname cmp)
    (compareLex (Least.onField ObjtabKey.categ compare)
      (compareLex (Least.onField ObjtabKey.applId compare)
        (Least.onField ObjtabKey.recnum compare)))

/-- The first key of the index that is not below the search key. -/
def findClosestKey (cmp : Name → Name → Ordering) (records : List ObjRecord)
    (searchKey : ObjtabKey) : Option ObjtabKey :=
  Least.least (keyCmp cmp) ((keysOf records).filter fun key => (keyCmp cmp searchKey key).isLE)

def nameSearchKey (ucObjname : Name) : ObjtabKey :=
  ⟨ucObjname, CATEG_APPL, List.replicate UUID_SIZE 0, 0⟩

def foundByKey (cmp : Name → Name → Ordering) (ucObjname : Name) (key : ObjtabKey) : Bool :=
  key.categ == CATEG_APPL && cmp ucObjname key.objname == .eq

/-- The bytes from the name on: a name that fills its field runs over into the category. -/
def verifyValuesFromCache (records : List ObjRecord) (schemaUuid : Uuid) (schemaName : Name)
    (objnum : Nat) : Bool :=
  match records[objnum]? with
  | none => false
  | some dt =>
      dt.delMark == NOT_DELETED && schemaUuid == dt.apluuid &&
        schemaName == cString (dt.name ++ [dt.categ])

section Searches

variable (cmp : Name → Name → Ordering) (casetab : UInt8 → UInt8)

def upcase (name : Name) : Name := (name.take OBJ_NAME_LEN).map casetab

/-- The item from which the name is translated. -/
def nameHit (items : List SchemaCacheItem) (records : List ObjRecord) (ucObjname : Name) :
    Option SchemaCacheItem :=
  (items.find? fun item => ucObjname == item.schemaName).filter fun item =>
    item.objnum != NOOBJECT &&
      verifyValuesFromCache records item.schemaUuid ucObjname item.objnum

/-- The identifier and the number of the schema, when there is one, and the cache.
`undefinedUuid` is what the key has when none is found. -/
def kerAplName2id (items : List SchemaCacheItem) (records : List ObjRecord) (name : Name)
    (undefinedUuid : Uuid) : Option (Uuid × Nat) × Option (List SchemaCacheItem) :=
  let ucObjname := upcase casetab name
  match nameHit items records ucObjname with
  | some item => (some (item.schemaUuid, item.objnum), some items)
  | none =>
      match findClosestKey cmp records (nameSearchKey ucObjname) with
      | none => (none, putValuesToCache undefinedUuid ucObjname NOOBJECT items)
      | some key =>
          if foundByKey cmp ucObjname key then
            (some (key.applId, key.recnum),
              putValuesToCache key.applId ucObjname key.recnum items)
          else (none, putValuesToCache key.applId ucObjname NOOBJECT items)

def uuidItem (items : List SchemaCacheItem) (applId : Uuid) : Option SchemaCacheItem :=
  items.find? fun item => item.schemaName != [] && applId == item.schemaUuid

def uuidHit (items : List SchemaCacheItem) (records : List ObjRecord) (applId : Uuid) :
    Option SchemaCacheItem :=
  (uuidItem items applId).filter fun item =>
    item.objnum != NOOBJECT && verifyValuesFromCache records applId item.schemaName item.objnum

/-- The name and the number of the schema, when there is one, and the cache. `undefinedName` is
what the name has when no item is found. -/
def kerAplId2name (items : List SchemaCacheItem) (records : List ObjRecord) (applId : Uuid)
    (undefinedName : Name) : Option (Name × Nat) × Option (List SchemaCacheItem) :=
  match uuidHit items records applId with
  | some item => (some (item.schemaName, item.objnum), some items)
  | none =>
      match records.zipIdx.find? fun entry => entry.1.isSchema && entry.1.apluuid == applId with
      | some entry =>
          (some (cString entry.1.name, entry.2),
            putValuesToCache applId (cString entry.1.name) entry.2 items)
      | none =>
          let foundName := ((uuidItem items applId).map SchemaCacheItem.schemaName).getD undefinedName
          (none, putValuesToCache applId foundName NOOBJECT items)

end Searches

/-! What the searches find. -/

section Found

variable {cmp : Name → Name → Ordering} {table : ObjTable cmp} {record : ObjRecord}
  {ucObjname : Name} {objnum : Nat}

theorem mem_keysOf {records : List ObjRecord} {key : ObjtabKey} :
    key ∈ keysOf records ↔ ∃ record, records[key.recnum]? = some record ∧
      record.delMark = NOT_DELETED ∧ key.objname = cString record.name ∧
        key.categ = record.categ ∧ key.applId = record.apluuid := by
  rw [keysOf, List.mem_filterMap]
  constructor
  · rintro ⟨⟨record, recnum⟩, hentry, hkey⟩
    split at hkey
    case isTrue hlive =>
      cases hkey
      exact ⟨record, List.mem_zipIdx_iff_getElem?.mp hentry, hlive, rfl, rfl, rfl⟩
    case isFalse => cases hkey
  · rintro ⟨record, hrecord, hlive, hname, hcateg, huuid⟩
    refine ⟨(record, key.recnum), List.mem_zipIdx_iff_getElem?.mpr hrecord, ?_⟩
    rw [if_pos hlive]
    cases key
    cases hname
    cases hcateg
    cases huuid
    rfl

theorem isSchema_iff : record.isSchema = true ↔
    record.delMark = NOT_DELETED ∧ record.categ = CATEG_APPL := by
  rw [ObjRecord.isSchema, Bool.and_eq_true, beq_iff_eq, beq_iff_eq]

theorem zeros_isLE {uuid : Uuid} {n : Nat} (hlength : uuid.length = n) :
    (compare (List.replicate n 0) uuid).isLE := by
  induction uuid generalizing n with
  | nil =>
      subst hlength
      rfl
  | cons byte uuid ih =>
      subst hlength
      rw [List.length_cons, List.replicate_succ]
      change (List.compareLex compare (0 :: List.replicate uuid.length 0) (byte :: uuid)).isLE
      rw [List.compareLex_cons_cons, Ordering.isLE_then_iff_and]
      exact ⟨Std.isLE_compare.mpr UInt8.zero_le, Or.inr (ih rfl)⟩

/-- A name that is short enough has not run over into the category. -/
theorem cString_of_short (hname : record.name.length = OBJ_NAME_LEN) (hcateg : record.categ ≠ 0)
    (hshort : (cString (record.name ++ [record.categ])).length ≤ OBJ_NAME_LEN) :
    cString (record.name ++ [record.categ]) = cString record.name := by
  rw [cString, List.takeWhile_append] at hshort ⊢
  split at hshort
  case isTrue =>
    have hlast : [record.categ].takeWhile (· != 0) = [record.categ] :=
      List.takeWhile_cons_of_pos (bne_iff_ne.mpr hcateg)
    rw [hlast, List.length_append, hname, List.length_singleton] at hshort
    exact absurd hshort (Nat.not_succ_le_self _)
  case isFalse hends => rw [if_neg hends, cString]

variable [Std.TransCmp cmp]

/-- The index finds the schema of a name. -/
theorem findClosestKey_schema (hrecord : table.records[objnum]? = some record)
    (hschema : record.isSchema = true) (hname : cString record.name = ucObjname) :
    ∃ key, findClosestKey cmp table.records (nameSearchKey ucObjname) = some key ∧
      foundByKey cmp ucObjname key = true ∧ key.applId = record.apluuid ∧ key.recnum = objnum := by
  obtain ⟨hlive, hcateg⟩ := isSchema_iff.mp hschema
  have hown : (⟨ucObjname, CATEG_APPL, record.apluuid, objnum⟩ : ObjtabKey) ∈
      (keysOf table.records).filter
        fun key => (keyCmp cmp (nameSearchKey ucObjname) key).isLE := by
    refine List.mem_filter.mpr ⟨mem_keysOf.mpr ?_, ?_⟩
    · exact ⟨record, hrecord, hlive, hname.symm, hcateg.symm, rfl⟩
    · have huuid := zeros_isLE (table.uuid_length record (List.mem_of_getElem? hrecord))
      simp only [keyCmp, compareLex, Least.onField, nameSearchKey, Ordering.isLE_then_iff_and]
      refine ⟨Std.ReflCmp.isLE_rfl, Or.inr ⟨Std.ReflCmp.isLE_rfl, Or.inr ⟨huuid, Or.inr ?_⟩⟩⟩
      exact Std.isLE_compare.mpr (Nat.zero_le _)
  obtain ⟨key, hkey⟩ := @Least.least_some _ (keyCmp cmp) _ _ hown
  have hle : (keyCmp cmp key ⟨ucObjname, CATEG_APPL, record.apluuid, objnum⟩).isLE := by
    have : Std.TransCmp (keyCmp cmp) := by
      unfold keyCmp
      infer_instance
    exact Least.least_le hkey hown
  obtain ⟨hmem, hge⟩ := List.mem_filter.mp (Least.least_mem hkey)
  obtain ⟨other, hother, hotherLive, hobjname, hcateg', huuid'⟩ := mem_keysOf.mp hmem
  simp only [keyCmp, compareLex, Least.onField, nameSearchKey, Ordering.isLE_then_iff_and]
    at hle hge
  -- The key lies between two keys that have the name and the category.
  have hsame : cmp ucObjname key.objname = .eq := by
    have hback := hle.1
    rw [@Std.OrientedCmp.eq_swap _ cmp _ key.objname ucObjname, Ordering.isLE_swap] at hback
    exact Ordering.eq_eq_of_isLE_of_isGE hge.1 hback
  have hsame' : cmp key.objname ucObjname = .eq := Std.OrientedCmp.eq_symm hsame
  have hcategory : key.categ = CATEG_APPL := by
    have hlow : CATEG_APPL ≤ key.categ := by
      obtain hlt | hrest := hge.2
      · rw [hsame] at hlt
        cases hlt
      · exact Std.isLE_compare.mp hrest.1
    have hhigh : key.categ ≤ CATEG_APPL := by
      obtain hlt | hrest := hle.2
      · rw [hsame'] at hlt
        cases hlt
      · exact Std.isLE_compare.mp hrest.1
    exact UInt8.le_antisymm hhigh hlow
  have hnumber : key.recnum = objnum := by
    apply table.names _ _ _ _ hother hrecord (isSchema_iff.mpr ⟨hotherLive, ?_⟩) hschema
    · rw [← hobjname, hname]
      exact hsame'
    · rw [← hcateg', hcategory]
  refine ⟨key, hkey, ?_, ?_, hnumber⟩
  · rw [foundByKey, hcategory, hsame]
    rfl
  · rw [hnumber, hrecord] at hother
    cases hother
    exact huuid'

end Found

end Sql602.Schemas
