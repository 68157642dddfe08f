import Sql602.Schemas.SchemaSearch

namespace Sql602.Schemas

/-! Calls of the two translations, and changes of the table, in any order. -/

structure Server (cmp : Name → Name → Ordering) where
  items : List SchemaCacheItem
  table : ObjTable cmp

inductive Operation (cmp : Name → Name → Ordering) where
  | name2id (name : Name) (undefinedUuid : Uuid)
  | id2name (applId : Uuid) (undefinedName : Name)
  | change (table : ObjTable cmp)

section Steps

variable {cmp : Name → Name → Ordering} (casetab : UInt8 → UInt8)

def step (server : Server cmp) : Operation cmp → Server cmp
  | .name2id name undefinedUuid =>
      let (_, items) := kerAplName2id cmp casetab server.items server.table.records name undefinedUuid
      { server with items := items.getD [] }
  | .id2name applId undefinedName =>
      let (_, items) := kerAplId2name server.items server.table.records applId undefinedName
      { server with items := items.getD [] }
  | .change table => { server with table := table }

/-- The call returns what it returns when there is no cache. -/
def CallRight (server : Server cmp) : Operation cmp → Prop
  | .name2id name undefinedUuid =>
      (kerAplName2id cmp casetab server.items server.table.records name undefinedUuid).1 =
        (kerAplName2id cmp casetab [] server.table.records name undefinedUuid).1
  | .id2name applId undefinedName =>
      (kerAplId2name server.items server.table.records applId undefinedName).1 =
        (kerAplId2name [] server.table.records applId undefinedName).1
  | .change _ => True

/-- The object with the number is a schema. -/
def IsSchemaAt (records : List ObjRecord) (objnum : Nat) : Prop :=
  ∃ record, records[objnum]? = some record ∧ record.isSchema = true

/-- An item of the cache that is verified is not verified on an object of another category. -/
def StepOk (server : Server cmp) : Operation cmp → Prop
  | .name2id name _ =>
      ∀ item, nameHit server.items server.table.records (upcase casetab name) = some item →
        IsSchemaAt server.table.records item.objnum
  | .id2name applId _ =>
      ∀ item, uuidHit server.items server.table.records applId = some item →
        IsSchemaAt server.table.records item.objnum
  | .change _ => True

/-- The cache is unambiguous, and the insertion into it ends. -/
structure CacheRight (server : Server cmp) : Prop where
  oneEach : OneEach server.items
  ends : ∀ schemaUuid schemaName objnum,
    (putValuesToCache schemaUuid schemaName objnum server.items).isSome = true

end Steps

/-- The invariant of the cache: its names fit in a field. -/
structure CacheKept (items : List SchemaCacheItem) : Prop where
  oneEach : OneEach items
  short : ∀ item ∈ items, item.schemaName.length ≤ OBJ_NAME_LEN

section Calls

variable {cmp : Name → Name → Ordering} {casetab : UInt8 → UInt8} {items : List SchemaCacheItem}
  {table : ObjTable cmp} {item : SchemaCacheItem} {name schemaName : Name} {applId : Uuid}
  {objnum : Nat} {record : ObjRecord}

theorem CacheKept.put {schemaUuid : Uuid} {next : List SchemaCacheItem} (hkept : CacheKept items)
    (hshort : objnum ≠ NOOBJECT → schemaName.length ≤ OBJ_NAME_LEN)
    (hnext : putValuesToCache schemaUuid schemaName objnum items = some next) : CacheKept next := by
  rw [putValuesToCache_eq] at hnext
  cases hnext
  refine ⟨putItems_oneEach hkept.oneEach, ?_⟩
  intro found hfound
  obtain ⟨hmem, -⟩ | hempty | ⟨rfl, -, hsome⟩ := mem_putItems hfound
  · exact hkept.short found hmem
  · rw [hempty]
    exact Nat.zero_le _
  · exact hshort hsome

theorem upcase_length : (upcase casetab name).length ≤ OBJ_NAME_LEN := by
  rw [upcase, List.length_map, List.length_take]
  exact Nat.min_le_left _ _

theorem kerAplName2id_kept (hkept : CacheKept items) (records : List ObjRecord)
    (undefinedUuid : Uuid) :
    CacheKept ((kerAplName2id cmp casetab items records name undefinedUuid).2.getD []) := by
  rw [kerAplName2id]
  split
  · exact hkept
  · split
    · rw [putValuesToCache_eq]
      exact hkept.put (fun hne => absurd rfl hne) putValuesToCache_eq
    · split
      · dsimp only
        rw [putValuesToCache_eq]
        exact hkept.put (fun _ => upcase_length) putValuesToCache_eq
      · dsimp only
        rw [putValuesToCache_eq]
        exact hkept.put (fun hne => absurd rfl hne) putValuesToCache_eq

theorem kerAplId2name_kept (hkept : CacheKept items) (undefinedName : Name) :
    CacheKept ((kerAplId2name items table.records applId undefinedName).2.getD []) := by
  rw [kerAplId2name]
  split
  · exact hkept
  · split
    · next entry hentry =>
        have hrecord := List.mem_zipIdx_iff_getElem?.mp (List.mem_of_find?_eq_some hentry)
        have hlength := table.name_length _ (List.mem_of_getElem? hrecord)
        dsimp only
        rw [putValuesToCache_eq]
        refine hkept.put (fun _ => ?_) putValuesToCache_eq
        rw [cString, ← hlength]
        exact (List.takeWhile_prefix _).length_le
    · dsimp only
      rw [putValuesToCache_eq]
      exact hkept.put (fun hne => absurd rfl hne) putValuesToCache_eq

/-- What a verified item says about the object. -/
theorem verify_iff {schemaUuid : Uuid} :
    verifyValuesFromCache table.records schemaUuid schemaName objnum = true ↔
      ∃ record, table.records[objnum]? = some record ∧ record.delMark = NOT_DELETED ∧
        schemaUuid = record.apluuid ∧ schemaName = cString (record.name ++ [record.categ]) := by
  rw [verifyValuesFromCache]
  cases table.records[objnum]? with
  | none => simp
  | some record => simp [and_assoc]

/-- The name of a schema that is verified is its whole name. -/
theorem verified_name (hrecord : table.records[objnum]? = some record)
    (hschema : record.isSchema = true) (hshort : schemaName.length ≤ OBJ_NAME_LEN)
    (hname : schemaName = cString (record.name ++ [record.categ])) :
    cString record.name = schemaName := by
  have hcateg : record.categ ≠ 0 := by
    rw [(isSchema_iff.mp hschema).2]
    decide
  rw [hname] at hshort ⊢
  exact (cString_of_short (table.name_length record (List.mem_of_getElem? hrecord)) hcateg
    hshort).symm

theorem nameHit_some (hhit : nameHit items table.records name = some item) :
    item ∈ items ∧ name = item.schemaName ∧
      verifyValuesFromCache table.records item.schemaUuid name item.objnum = true := by
  obtain ⟨hfind, hverified⟩ := Option.filter_eq_some_iff.mp hhit
  have hname := List.find?_some hfind
  exact ⟨List.mem_of_find?_eq_some hfind, beq_iff_eq.mp hname,
    (Bool.and_eq_true_iff.mp hverified).2⟩

theorem uuidHit_some (hhit : uuidHit items table.records applId = some item) :
    item ∈ items ∧
      verifyValuesFromCache table.records applId item.schemaName item.objnum = true := by
  obtain ⟨hfind, hverified⟩ := Option.filter_eq_some_iff.mp hhit
  exact ⟨List.mem_of_find?_eq_some hfind, (Bool.and_eq_true_iff.mp hverified).2⟩

theorem kerAplName2id_search (undefinedUuid : Uuid)
    (hhit : nameHit items table.records (upcase casetab name) = none) :
    (kerAplName2id cmp casetab items table.records name undefinedUuid).1 =
      (kerAplName2id cmp casetab [] table.records name undefinedUuid).1 := by
  have hnone : nameHit [] table.records (upcase casetab name) = none := rfl
  rw [kerAplName2id, kerAplName2id, hhit, hnone]
  dsimp only
  split
  · rfl
  · split <;> rfl

/-- A search by name finds schemas only. -/
theorem kerAplName2id_schema {undefinedUuid : Uuid} {found : Uuid × Nat}
    (hfound : (kerAplName2id cmp casetab [] table.records name undefinedUuid).1 = some found) :
    IsSchemaAt table.records found.2 := by
  have hnone : nameHit [] table.records (upcase casetab name) = none := rfl
  rw [kerAplName2id, hnone] at hfound
  dsimp only at hfound
  split at hfound
  · cases hfound
  · next key hkey =>
      split at hfound
      · next hby =>
          cases hfound
          obtain ⟨hmem, -⟩ := List.mem_filter.mp (Least.least_mem hkey)
          obtain ⟨record, hrecord, hlive, -, hcateg, -⟩ := mem_keysOf.mp hmem
          rw [foundByKey, Bool.and_eq_true, beq_iff_eq, hcateg] at hby
          exact ⟨record, hrecord, isSchema_iff.mpr ⟨hlive, hby.1⟩⟩
      · cases hfound

theorem kerAplName2id_right [Std.TransCmp cmp] (hkept : CacheKept items) (undefinedUuid : Uuid) :
    (kerAplName2id cmp casetab items table.records name undefinedUuid).1 =
        (kerAplName2id cmp casetab [] table.records name undefinedUuid).1 ↔
      ∀ item, nameHit items table.records (upcase casetab name) = some item →
        IsSchemaAt table.records item.objnum := by
  constructor
  · intro hsame item hhit
    rw [kerAplName2id, hhit] at hsame
    exact @kerAplName2id_schema cmp casetab table name undefinedUuid
      (item.schemaUuid, item.objnum) hsame.symm
  · intro hschemas
    cases hhit : nameHit items table.records (upcase casetab name) with
    | none => exact kerAplName2id_search undefinedUuid hhit
    | some item =>
        obtain ⟨hmem, hname, hverified⟩ := nameHit_some hhit
        obtain ⟨record, hrecord, -, huuid, htext⟩ := verify_iff.mp hverified
        obtain ⟨other, hother, hschema⟩ := hschemas item hhit
        rw [hrecord] at hother
        cases hother
        have hwhole := verified_name hrecord hschema upcase_length htext
        obtain ⟨key, hkey, hby, happl, hrecnum⟩ :=
          findClosestKey_schema hrecord hschema hwhole
        have hnone : nameHit [] table.records (upcase casetab name) = none := rfl
        rw [kerAplName2id, kerAplName2id, hhit, hnone, hkey]
        dsimp only
        rw [if_pos hby, happl, hrecnum, huuid]

theorem kerAplId2name_right (hkept : CacheKept items) (undefinedName : Name) :
    (kerAplId2name items table.records applId undefinedName).1 =
        (kerAplId2name [] table.records applId undefinedName).1 ↔
      ∀ item, uuidHit items table.records applId = some item →
        IsSchemaAt table.records item.objnum := by
  have hnone : uuidHit [] table.records applId = none := rfl
  constructor
  · intro hsame item hhit
    rw [kerAplId2name, kerAplId2name, hhit, hnone] at hsame
    dsimp only at hsame
    split at hsame
    · next entry hentry =>
        obtain ⟨-, hnumber⟩ := Prod.mk.inj (Option.some.inj hsame)
        have hrecord := List.mem_zipIdx_iff_getElem?.mp (List.mem_of_find?_eq_some hentry)
        have hschema := List.find?_some hentry
        rw [hnumber]
        exact ⟨_, hrecord, (Bool.and_eq_true_iff.mp hschema).1⟩
    · cases hsame
  · intro hschemas
    cases hhit : uuidHit items table.records applId with
    | none =>
        rw [kerAplId2name, kerAplId2name, hhit, hnone]
        dsimp only
        split <;> rfl
    | some item =>
        obtain ⟨hmem, hverified⟩ := uuidHit_some hhit
        obtain ⟨record, hrecord, -, huuid, htext⟩ := verify_iff.mp hverified
        obtain ⟨other, hother, hschema⟩ := hschemas item hhit
        rw [hrecord] at hother
        cases hother
        have hwhole := verified_name hrecord hschema (hkept.short item hmem) htext
        have hown : ((record, item.objnum) : ObjRecord × Nat) ∈ table.records.zipIdx :=
          List.mem_zipIdx_iff_getElem?.mpr hrecord
        rw [kerAplId2name, kerAplId2name, hhit, hnone]
        dsimp only
        split
        · next entry hentry =>
            have hfound := List.find?_some hentry
            obtain ⟨hfirst, huuid'⟩ := Bool.and_eq_true_iff.mp hfound
            have hrecord' := List.mem_zipIdx_iff_getElem?.mp (List.mem_of_find?_eq_some hentry)
            have hnumber := table.uuids _ _ _ _ hrecord' hrecord hfirst hschema
              ((beq_iff_eq.mp huuid').trans huuid)
            rw [hnumber, hrecord] at hrecord'
            rw [← Option.some.inj hrecord', hwhole, hnumber]
        · next hmissing =>
            have hout := List.find?_eq_none.mp hmissing _ hown
            rw [hschema, huuid] at hout
            exact absurd (beq_self_eq_true _) hout

end Calls

section Runs

variable {cmp : Name → Name → Ordering}

theorem callRight_iff [Std.TransCmp cmp] {casetab : UInt8 → UInt8} {server : Server cmp}
    {op : Operation cmp} (hkept : CacheKept server.items) :
    CallRight casetab server op ↔ StepOk casetab server op := by
  cases op with
  | name2id name undefinedUuid => exact kerAplName2id_right hkept undefinedUuid
  | id2name applId undefinedName => exact kerAplId2name_right hkept undefinedName
  | change table => exact Iff.rfl

theorem step_kept {casetab : UInt8 → UInt8} {server : Server cmp} {op : Operation cmp}
    (hkept : CacheKept server.items) : CacheKept (step casetab server op).items := by
  cases op with
  | name2id name undefinedUuid => exact kerAplName2id_kept hkept _ undefinedUuid
  | id2name applId undefinedName => exact kerAplId2name_kept hkept undefinedName
  | change table => exact hkept

theorem meets_congr [Std.TransCmp cmp] {casetab : UInt8 → UInt8} {server : Server cmp}
    {ops : List (Operation cmp)} (hkept : CacheKept server.items) :
    Run.Meets (step casetab) (CallRight casetab) server ops ↔
      Run.Meets (step casetab) (StepOk casetab) server ops := by
  induction ops generalizing server with
  | nil => exact Iff.rfl
  | cons op ops ih => exact and_congr (callRight_iff hkept) (ih (step_kept hkept))

/-- In a run from the empty cache, the calls are right just when no item is verified on an object
that is not a schema; the cache is unambiguous in any case. -/
theorem schemaCache_right [Std.TransCmp cmp] (casetab : UInt8 → UInt8) (table : ObjTable cmp)
    (ops : List (Operation cmp)) :
    Run.Always (step casetab) CacheRight ⟨[], table⟩ ops ∧
      (Run.Meets (step casetab) (CallRight casetab) ⟨[], table⟩ ops ↔
        Run.Meets (step casetab) (StepOk casetab) ⟨[], table⟩ ops) := by
  have hstart : CacheKept ([] : List SchemaCacheItem) :=
    ⟨List.Pairwise.nil, fun _ h => absurd h List.not_mem_nil⟩
  constructor
  · apply Run.always_of_step (fun server => CacheKept server.items) ?_ (fun _ _ => step_kept) hstart
    intro server hkept
    refine ⟨hkept.oneEach, ?_⟩
    intro schemaUuid schemaName objnum
    rw [putValuesToCache_eq]
    rfl
  · exact meets_congr hstart

end Runs

/-! An object in the place of a schema. -/

def fieldA : List UInt8 := 65 :: List.replicate 30 0

def uuidA : Uuid := List.replicate UUID_SIZE 9

def schemaA : ObjRecord := ⟨0, fieldA, CATEG_APPL, uuidA⟩

/-- A role of the schema, with the same name. -/
def roleA : ObjRecord := ⟨0, fieldA, 10, uuidA⟩

theorem unique_at {records : List ObjRecord} {at' : Nat}
    (hat : ∀ i < records.length, (records.getD i roleA).isSchema = true → i = at') {i j : Nat}
    {first second : ObjRecord} (hfirst : records[i]? = some first)
    (hsecond : records[j]? = some second) (hschema : first.isSchema = true)
    (hschema' : second.isSchema = true) : i = j := by
  have hplace : ∀ {k : Nat} {record : ObjRecord}, records[k]? = some record →
      record.isSchema = true → k = at' := by
    intro k record hrecord hk
    obtain ⟨hlt, hget⟩ := List.getElem?_eq_some_iff.mp hrecord
    apply hat k hlt
    rw [List.getD_eq_getElem?_getD, hrecord]
    exact hk
  exact (hplace hfirst hschema).trans (hplace hsecond hschema').symm

def tableBefore : ObjTable compare where
  records := [schemaA]
  name_length := by decide
  uuid_length := by decide
  names _ _ _ _ hfirst hsecond hschema hschema' _ :=
    @unique_at [schemaA] 0 (by decide) _ _ _ _ hfirst hsecond hschema hschema'
  uuids _ _ _ _ hfirst hsecond hschema hschema' _ :=
    @unique_at [schemaA] 0 (by decide) _ _ _ _ hfirst hsecond hschema hschema'

def tableAfter : ObjTable compare where
  records := [roleA, schemaA]
  name_length := by decide
  uuid_length := by decide
  names _ _ _ _ hfirst hsecond hschema hschema' _ :=
    @unique_at [roleA, schemaA] 1 (by decide) _ _ _ _ hfirst hsecond hschema hschema'
  uuids _ _ _ _ hfirst hsecond hschema hschema' _ :=
    @unique_at [roleA, schemaA] 1 (by decide) _ _ _ _ hfirst hsecond hschema hschema'

theorem schemaCache_right_before :
    Run.Always (step id) CacheRight ⟨[], tableBefore⟩ [.name2id [65] [], .id2name uuidA []] ∧
      (Run.Meets (step id) (CallRight id) ⟨[], tableBefore⟩
          [.name2id [65] [], .id2name uuidA []] ↔
        Run.Meets (step id) (StepOk id) ⟨[], tableBefore⟩ [.name2id [65] [], .id2name uuidA []]) :=
  schemaCache_right id tableBefore [.name2id [65] [], .id2name uuidA []]

/-- After the schema has got another number, the role in its place is returned. -/
theorem not_forall_callRight :
    ¬ ∀ (cmp : Name → Name → Ordering) (_ : Std.TransCmp cmp) (casetab : UInt8 → UInt8)
        (table : ObjTable cmp) (ops : List (Operation cmp)),
      Run.Meets (step casetab) (CallRight casetab) ⟨[], table⟩ ops := by
  intro hall
  obtain ⟨-, -, hlast, -⟩ := hall compare inferInstance id tableBefore
    [.name2id [65] [], .change tableAfter, .name2id [65] []]
  have hcached : (kerAplName2id compare id
      (step id (step id ⟨[], tableBefore⟩ (.name2id [65] [])) (.change tableAfter)).items
      tableAfter.records [65] []).1 = some (uuidA, 0) := by decide
  have hsearched : (kerAplName2id compare id [] tableAfter.records [65] []).1 =
      some (uuidA, 1) := by decide
  have hsame := (hcached.symm.trans hlast).trans hsearched
  exact absurd hsame (by decide)

end Sql602.Schemas
