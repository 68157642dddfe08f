import Mathlib.Data.List.Basic
import Mathlib.Data.List.Perm.Basic
import Mathlib.Logic.Function.Basic

namespace Sql602.Table

/-! The caches of free record numbers. A full cache moves its numbers to containers
on the disk, whose list it owns once it has taken it from the basic block. -/

/-- The number of records in a container. -/
def recmax : Nat := (4096 - 4 - 4) / 4

structure FreeRecCache where
  reccache : List Nat
  cacheSize : Nat
  freeRecList : Option (List (List Nat))
  nonempty : 0 < cacheSize
  fits : reccache.length ≤ cacheSize
  deriving DecidableEq

/-- A container that is full is followed by a new one at the head of the list. -/
def storeToContainers (containers : List (List Nat)) (recnum : Nat) : List (List Nat) :=
  match containers with
  | [] => [[recnum]]
  | contr :: rest =>
      if contr.length < recmax then (contr ++ [recnum]) :: rest else [recnum] :: contr :: rest

/-- Records are sorted from the maximum to the minimum. -/
def storeSorted (recnum : Nat) : List Nat → List Nat
  | [] => [recnum]
  | first :: rest =>
      if first > recnum then first :: storeSorted recnum rest
      else if first = recnum then first :: rest
      else recnum :: first :: rest

theorem length_storeSorted (recnum : Nat) (reccache : List Nat) :
    (storeSorted recnum reccache).length ≤ reccache.length + 1 := by
  induction reccache with
  | nil => exact Nat.le_refl 1
  | cons first rest ih =>
      simp only [storeSorted]
      split
      · exact Nat.succ_le_succ ih
      · split
        · exact Nat.le_succ _
        · exact Nat.le_refl _

namespace FreeRecCache

def owningFreeRecordList (cache : FreeRecCache) : Bool := cache.freeRecList.isSome

/-- All the numbers that the table may give to new records without growing. -/
def numbers (cache : FreeRecCache) : List Nat :=
  cache.reccache ++ (cache.freeRecList.getD []).flatten

/-- The cache of a table that has been installed. -/
def installed (size : Nat) (hsize : 0 < size) : FreeRecCache :=
  ⟨[], size, none, hsize, Nat.zero_le size⟩

/-- The numbers are moved from the last to the first. -/
def deflateCache (cache : FreeRecCache) (containers : List (List Nat)) : FreeRecCache where
  reccache := []
  cacheSize := cache.cacheSize
  freeRecList := some (cache.reccache.reverse.foldl storeToContainers containers)
  nonempty := cache.nonempty
  fits := Nat.zero_le _

theorem room_deflateCache (cache : FreeRecCache) (containers : List (List Nat)) :
    (cache.deflateCache containers).reccache.length <
      (cache.deflateCache containers).cacheSize := cache.nonempty

/-- Stores to a cache that has room. -/
def storeWithRoom (cache : FreeRecCache) (recnum : Nat)
    (hroom : cache.reccache.length < cache.cacheSize) : FreeRecCache where
  reccache :=
    if cache.freeRecList = some [] then storeSorted recnum cache.reccache
    else cache.reccache ++ [recnum]
  cacheSize := cache.cacheSize
  freeRecList := cache.freeRecList
  nonempty := cache.nonempty
  fits := by
    split
    · exact Nat.le_trans (length_storeSorted recnum cache.reccache) hroom
    · rw [List.length_append]
      exact hroom

/-- The cache owns the list of the containers. -/
def storeToCache (cache : FreeRecCache) (containers : List (List Nat)) (recnum : Nat) :
    FreeRecCache :=
  if hroom : cache.reccache.length < cache.cacheSize then cache.storeWithRoom recnum hroom
  else (cache.deflateCache containers).storeWithRoom recnum (room_deflateCache cache containers)

theorem mem_storeToContainers {containers : List (List Nat)} {recnum number : Nat} :
    number ∈ (storeToContainers containers recnum).flatten ↔
      number = recnum ∨ number ∈ containers.flatten := by
  cases containers with
  | nil => simp [storeToContainers]
  | cons contr rest =>
      simp only [storeToContainers]
      split
      · simp only [List.flatten_cons, List.mem_append, List.mem_singleton]
        tauto
      · simp

theorem mem_storeSorted {recnum number : Nat} {reccache : List Nat} :
    number ∈ storeSorted recnum reccache ↔ number = recnum ∨ number ∈ reccache := by
  induction reccache with
  | nil => simp [storeSorted]
  | cons first rest ih =>
      simp only [storeSorted]
      split
      · rw [List.mem_cons, ih, List.mem_cons]
        exact or_left_comm
      · split
        · rename_i heq
          subst heq
          simp
        · rw [List.mem_cons]

theorem mem_foldl_storeToContainers {recnums : List Nat} {containers : List (List Nat)}
    {number : Nat} : number ∈ (recnums.foldl storeToContainers containers).flatten ↔
      number ∈ recnums ∨ number ∈ containers.flatten := by
  induction recnums generalizing containers with
  | nil => simp
  | cons recnum recnums ih =>
      rw [List.foldl_cons, ih, mem_storeToContainers, List.mem_cons]
      tauto

variable {cache : FreeRecCache} {containers : List (List Nat)}

theorem mem_deflateCache {number : Nat} (hlist : cache.freeRecList = some containers) :
    number ∈ (cache.deflateCache containers).numbers ↔ number ∈ cache.numbers := by
  simp only [numbers, deflateCache, hlist, Option.getD_some, List.nil_append,
    mem_foldl_storeToContainers, List.mem_reverse, List.mem_append]

theorem mem_storeWithRoom {recnum number : Nat}
    (hroom : cache.reccache.length < cache.cacheSize) :
    number ∈ (cache.storeWithRoom recnum hroom).numbers ↔
      number = recnum ∨ number ∈ cache.numbers := by
  simp only [numbers, storeWithRoom]
  split
  · rw [List.mem_append, mem_storeSorted, List.mem_append]
    exact or_assoc
  · simp only [List.mem_append, List.mem_singleton]
    tauto

/-- Nothing but the number gets into the cache and nothing leaves it. -/
theorem mem_storeToCache {recnum number : Nat} (hlist : cache.freeRecList = some containers) :
    number ∈ (cache.storeToCache containers recnum).numbers ↔
      number = recnum ∨ number ∈ cache.numbers := by
  simp only [storeToCache]
  split
  · exact mem_storeWithRoom _
  · rw [mem_storeWithRoom, mem_deflateCache hlist]

theorem owning_storeToCache (recnum : Nat) (hlist : cache.freeRecList = some containers) :
    (cache.storeToCache containers recnum).owningFreeRecordList = true := by
  simp only [storeToCache]
  split
  · simp [storeWithRoom, owningFreeRecordList, hlist]
  · rfl

end FreeRecCache

/-! The tables with their caches. -/

structure TableCaches where
  installed : Nat → Option FreeRecCache
  /-- The cache size of a table that may be installed. -/
  installable : Nat → Option { size : Nat // 0 < size }

namespace TableCaches

def putCache (tables : TableCaches) (tabnum : Nat) (cache : FreeRecCache) : TableCaches :=
  { tables with installed := Function.update tables.installed tabnum (some cache) }

def installTable (tables : TableCaches) (tabnum : Nat) : Option (FreeRecCache × TableCaches) :=
  match tables.installed tabnum with
  | some cache => some (cache, tables)
  | none =>
      match tables.installable tabnum with
      | none => none
      | some size =>
          let cache := FreeRecCache.installed size.val size.property
          some (cache, tables.putCache tabnum cache)

/-- True when the record is put into the cache. -/
def returnRecordToFreeCache (tables : TableCaches) (tabnum recnum : Nat) : Bool × TableCaches :=
  match tables.installTable tabnum with
  | none => (false, tables)
  | some (cache, tables) =>
      match cache.freeRecList with
      | none => (false, tables)
      | some containers => (true, tables.putCache tabnum (cache.storeToCache containers recnum))

/-- The records that are put into caches, in this order. -/
def returnRecords (tables : TableCaches) : List (Nat × Nat) → List (Nat × Nat) × TableCaches
  | [] => ([], tables)
  | record :: records =>
      let (stored, next) := tables.returnRecordToFreeCache record.1 record.2
      let (puts, last) := next.returnRecords records
      (if stored then record :: puts else puts, last)

/-- One installed table, whose list is empty. -/
def owning (tabnum : Nat) : TableCaches where
  installed := Function.update (fun _ => none) tabnum
    (some ⟨[], 150, some [], by decide, Nat.zero_le _⟩)
  installable _ := none

/-- The table is installed and its cache owns the list of free records. -/
def owns (tables : TableCaches) (tabnum : Nat) : Bool :=
  (tables.installed tabnum).any FreeRecCache.owningFreeRecordList

def holds (tables : TableCaches) (record : Nat × Nat) : Prop :=
  ∃ cache ∈ tables.installed record.1, record.2 ∈ cache.numbers

variable {tables : TableCaches}

theorem owns_putCache {tabnum other : Nat} {cache : FreeRecCache} :
    (tables.putCache tabnum cache).owns other =
      if other = tabnum then cache.owningFreeRecordList else tables.owns other := by
  simp only [owns, putCache, Function.update_apply]
  split <;> rfl

theorem owns_of_installed {tabnum : Nat} {cache : FreeRecCache}
    (hcache : tables.installed tabnum = some cache) :
    tables.owns tabnum = cache.owningFreeRecordList := by
  rw [owns, hcache, Option.any_some]

/-- The three ends of a return. -/
theorem returnRecordToFreeCache_cases (tables : TableCaches) (tabnum recnum : Nat) :
    (tables.owns tabnum = false ∧ ∃ next, tables.returnRecordToFreeCache tabnum recnum =
        (false, next) ∧ (∀ other, next.owns other = tables.owns other) ∧
        ∀ record, tables.holds record → next.holds record) ∨
      ∃ cache containers, tables.installed tabnum = some cache ∧
        cache.freeRecList = some containers ∧ tables.returnRecordToFreeCache tabnum recnum =
        (true, tables.putCache tabnum (cache.storeToCache containers recnum)) := by
  cases hinstalled : tables.installed tabnum with
  | some cache =>
      cases hlist : cache.freeRecList with
      | some containers =>
          refine .inr ⟨cache, containers, rfl, hlist, ?_⟩
          simp only [returnRecordToFreeCache, installTable, hinstalled, hlist]
      | none =>
          refine .inl ⟨?_, tables, ?_, fun _ => rfl, fun _ => id⟩
          · rw [owns_of_installed hinstalled, FreeRecCache.owningFreeRecordList, hlist]
            rfl
          · simp only [returnRecordToFreeCache, installTable, hinstalled, hlist]
  | none =>
      have howns : tables.owns tabnum = false := by rw [owns, hinstalled, Option.any_none]
      cases hsize : tables.installable tabnum with
      | none =>
          refine .inl ⟨howns, tables, ?_, fun _ => rfl, fun _ => id⟩
          simp only [returnRecordToFreeCache, installTable, hinstalled, hsize]
      | some size =>
          refine .inl ⟨howns, tables.putCache tabnum
            (FreeRecCache.installed size.val size.property), ?_, fun other => ?_, ?_⟩
          · simp only [returnRecordToFreeCache, installTable, hinstalled, hsize]
            rfl
          · rw [owns_putCache]
            split
            · rename_i heq
              subst heq
              exact howns.symm
            · rfl
          · rintro record ⟨cache, hcache, hmem⟩
            refine ⟨cache, ?_, hmem⟩
            have hother : record.1 ≠ tabnum := by
              intro heq
              rw [heq, hinstalled] at hcache
              cases hcache
            simpa only [putCache, Function.update_of_ne hother] using hcache

theorem holds_storeToCache {tabnum recnum : Nat} {cache : FreeRecCache}
    {containers : List (List Nat)} (hinstalled : tables.installed tabnum = some cache)
    (hlist : cache.freeRecList = some containers) :
    (tables.putCache tabnum (cache.storeToCache containers recnum)).holds (tabnum, recnum) ∧
      ∀ record, tables.holds record →
        (tables.putCache tabnum (cache.storeToCache containers recnum)).holds record := by
  constructor
  · exact ⟨_, Function.update_self _ _ _, (FreeRecCache.mem_storeToCache hlist).mpr (.inl rfl)⟩
  · rintro ⟨other, number⟩ ⟨old, hold, hmem⟩
    by_cases heq : other = tabnum
    · subst heq
      obtain rfl := Option.some.inj (hinstalled.symm.trans hold)
      exact ⟨_, Function.update_self _ _ _, (FreeRecCache.mem_storeToCache hlist).mpr (.inr hmem)⟩
    · refine ⟨old, ?_, hmem⟩
      simpa only [putCache, Function.update_of_ne heq] using hold

/-- Exactly the numbers of tables that own their lists are put into caches, and they
stay there. -/
theorem returnRecords_puts (tables : TableCaches) (records : List (Nat × Nat)) :
    (tables.returnRecords records).1 = records.filter (fun record => tables.owns record.1) ∧
      (∀ record, tables.holds record → (tables.returnRecords records).2.holds record) ∧
      ∀ record ∈ (tables.returnRecords records).1,
        (tables.returnRecords records).2.holds record := by
  induction records generalizing tables with
  | nil => exact ⟨rfl, fun _ => id, by simp [returnRecords]⟩
  | cons record records ih =>
      rcases tables.returnRecordToFreeCache_cases record.1 record.2 with
        ⟨howns, next, hreturn, hsame, hkept⟩ | ⟨cache, containers, hinstalled, hlist, hreturn⟩
      · obtain ⟨hputs, hheld, hstored⟩ := ih next
        simp only [returnRecords, hreturn, Bool.false_eq_true, ↓reduceIte]
        refine ⟨?_, fun other hother => hheld other (hkept other hother), hstored⟩
        rw [hputs, List.filter_cons, howns, if_neg Bool.false_ne_true]
        exact List.filter_congr fun other _ => hsame other.1
      · obtain ⟨hnew, hkept⟩ := @holds_storeToCache tables record.1 record.2 _ _ hinstalled hlist
        obtain ⟨hputs, hheld, hstored⟩ :=
          ih (tables.putCache record.1 (cache.storeToCache containers record.2))
        have howning : tables.owns record.1 = true := by
          rw [owns_of_installed hinstalled, FreeRecCache.owningFreeRecordList, hlist]
          rfl
        simp only [returnRecords, hreturn, ↓reduceIte]
        refine ⟨?_, fun other hother => hheld other (hkept other hother), ?_⟩
        · rw [hputs, List.filter_cons, if_pos howning]
          refine congrArg _ (List.filter_congr fun other _ => ?_)
          rw [owns_putCache]
          split
          · rename_i heq
            rw [heq, howning, FreeRecCache.owning_storeToCache _ hlist]
          · rfl
        · intro other hother
          rcases List.mem_cons.mp hother with rfl | hother
          · exact hheld _ hnew
          · exact hstored other hother

end TableCaches

end Sql602.Table
