import Sql602.Rights.PrivilCache

namespace Sql602.Rights

open Bytes Chains Run

/-! The cached privileges are the computed ones. The start of the cache never leaves the
start of the buffer: when the buffer wraps, the stop returns to the start and all the
entries are given up, so that no search meets the end mark. -/

section Layout

def PrivilEntry.size (entry : PrivilEntry) : Nat := entryHeader + entry.privVal.length

structure EntryAt (memory : Memory) (pos : Nat) (entry : PrivilEntry) : Prop where
  size : sizeAt memory pos = entry.size
  tb : word memory (pos + 2) = entry.tb.toNat
  record : word memory (pos + 6) = entry.record.toNat
  privVal : slice memory (pos + entryHeader) entry.privVal.length = entry.privVal

variable {memory other : Memory} {pos i size : Nat} {entry : PrivilEntry} {tb record : UInt32}

theorem sizeAt_congr (hlow : memory pos = other pos)
    (hhigh : memory (pos + 1) = other (pos + 1)) : sizeAt memory pos = sizeAt other pos := by
  rw [sizeAt, sizeAt, hlow, hhigh]

theorem sizeAt_putSize (hsize : size < 65536) : sizeAt (putSize memory pos size) pos = size := by
  have hlow : putSize memory pos size pos = byteOf size 0 := by
    rw [putSize, copy_inside (Nat.le_refl pos) (by omega), Nat.sub_self]
  have hhigh : putSize memory pos size (pos + 1) = byteOf size 1 := by
    rw [putSize, copy_inside (by omega) (by omega), Nat.add_sub_cancel_left]
  simp only [sizeAt, hlow, hhigh, byteOf, Digits.value_cons, Digits.value_nil,
    UInt8.toNat_ofNat']
  omega

theorem putSize_outside (hout : i < pos ∨ pos + 2 ≤ i) : putSize memory pos size i = memory i :=
  copy_outside hout

theorem EntryAt.congr (hsame : ∀ i, pos ≤ i → i < pos + entry.size → memory i = other i)
    (hentry : EntryAt memory pos entry) : EntryAt other pos entry := by
  simp only [PrivilEntry.size, entryHeader] at hsame
  constructor
  case size =>
    rw [← hentry.size]
    exact (sizeAt_congr (hsame pos (by omega) (by omega))
      (hsame (pos + 1) (by omega) (by omega))).symm
  case tb =>
    rw [← hentry.tb]
    exact (word_congr fun i hi => hsame (pos + 2 + i) (by omega) (by omega)).symm
  case record =>
    rw [← hentry.record]
    exact (word_congr fun i hi => hsame (pos + 6 + i) (by omega) (by omega)).symm
  case privVal =>
    refine Eq.trans ?_ hentry.privVal
    simp only [entryHeader]
    exact (slice_congr fun i hi => hsame (pos + 10 + i) (by omega) (by omega)).symm

def privilFormat : Format PrivilEntry where
  size := PrivilEntry.size
  lies := EntryAt
  size_pos := fun entry => Nat.add_pos_left (by decide) entry.privVal.length
  lies_congr := EntryAt.congr

theorem putEntry_outside (hout : i < pos ∨ pos + entry.size ≤ i) :
    putEntry memory pos entry i = memory i := by
  simp only [PrivilEntry.size, entryHeader] at hout
  simp only [putEntry, entryHeader]
  rw [copy_outside (by omega), putWord_outside (by omega), putWord_outside (by omega),
    putSize_outside (by omega)]

theorem slice_copy_getD (bytes : List UInt8) :
    slice (copy memory pos (fun i => bytes.getD i 0) 0 bytes.length) pos bytes.length =
      bytes := by
  apply List.ext_getElem
  · rw [slice_length]
  · intro n hn hbytes
    simp only [slice, List.getElem_map, List.getElem_range]
    rw [copy_inside (Nat.le_add_right pos n) (by omega), Nat.add_sub_cancel_left, Nat.zero_add,
      List.getElem_eq_getD 0]

/-- An entry of any length that fits the buffer is read as it was written. -/
theorem putEntry_entryAt (hsize : entry.size ≤ PRIVIL_CACHE_SIZE) :
    EntryAt (putEntry memory pos entry) pos entry := by
  simp only [PrivilEntry.size, entryHeader, PRIVIL_CACHE_SIZE] at hsize
  have htb := entry.tb.toNat_lt
  have hrecord := entry.record.toNat_lt
  constructor
  case size =>
    refine Eq.trans (sizeAt_congr ?_ ?_)
      (@sizeAt_putSize memory pos entry.size (by simp only [PrivilEntry.size, entryHeader]; omega))
    · simp only [putEntry, entryHeader]
      rw [copy_outside (by omega), putWord_outside (by omega), putWord_outside (by omega)]
      rfl
    · simp only [putEntry, entryHeader]
      rw [copy_outside (by omega), putWord_outside (by omega), putWord_outside (by omega)]
      rfl
  case tb =>
    simp only [putEntry, entryHeader]
    rw [word_copy_outside (by omega), word_putWord htb]
  case record =>
    simp only [putEntry, entryHeader]
    rw [word_copy_outside (by omega), word_putWord_outside (by omega), word_putWord hrecord]
  case privVal =>
    simp only [putEntry]
    exact slice_copy_getD entry.privVal

theorem EntryAt.cacheNext (hentry : EntryAt memory pos entry) :
    cacheNext memory pos = pos + entry.size := by
  have hpos : entry.size ≠ 0 := Nat.ne_of_gt (privilFormat.size_pos entry)
  rw [Rights.cacheNext, hentry.size, if_neg hpos]

theorem EntryAt.of_hasKey (hentry : EntryAt memory pos entry)
    (hkey : hasKey memory pos tb record = true) : entry.tb = tb ∧ entry.record = record := by
  rw [hasKey, hentry.tb, hentry.record, Bool.and_eq_true, beq_iff_eq, beq_iff_eq] at hkey
  exact ⟨UInt32.toNat_inj.mp hkey.1, UInt32.toNat_inj.mp hkey.2⟩

end Layout

section Search

/-- A whole entry lies at the position, in the used part of the buffer. -/
def Privils.Within (privils : Privils) (cpos : Nat) : Prop :=
  ∃ entry, EntryAt privils.pCache cpos entry ∧ privils.cacheStart ≤ cpos ∧
    cpos + entry.size ≤ privils.cacheStop

variable {memory : Memory} {pos stop fuel : Nat} {entries : List PrivilEntry}

/-- A search over whole entries ends, and what it finds is one of them. -/
theorem searchFrom_chain (tb record : UInt32)
    (hchain : Chain privilFormat memory pos entries stop) (hfuel : entries.length < fuel) :
    ∃ visited found, searchFrom memory stop tb record fuel pos = some (visited, found) ∧
      (∀ cpos ∈ visited, ∃ entry, EntryAt memory cpos entry ∧ pos ≤ cpos ∧
        cpos + entry.size ≤ stop) ∧
      ∀ cpos ∈ found, ∃ entry ∈ entries, EntryAt memory cpos entry ∧
        entry.tb = tb ∧ entry.record = record := by
  induction fuel generalizing pos entries with
  | zero => exact absurd hfuel (Nat.not_lt_zero _)
  | succ fuel ih =>
      cases entries with
      | nil =>
          obtain rfl : pos = stop := hchain
          exact ⟨[], none, by rw [searchFrom, if_pos rfl], by simp, by simp⟩
      | cons entry rest =>
          obtain ⟨hentry, hrest⟩ := hchain
          have hpos : 0 < entry.size := privilFormat.size_pos entry
          have hnext : pos + entry.size ≤ stop := hrest.le
          have hstop : pos ≠ stop := by omega
          simp only [searchFrom, if_neg hstop]
          split
          case isTrue hkey =>
            refine ⟨[pos], some pos, rfl, ?_, ?_⟩
            · intro cpos hmem
              obtain rfl := List.mem_singleton.mp hmem
              exact ⟨entry, hentry, Nat.le_refl _, hnext⟩
            · intro cpos hmem
              obtain rfl := Option.mem_some_iff.mp hmem
              exact ⟨entry, List.mem_cons_self, hentry, hentry.of_hasKey hkey⟩
          case isFalse =>
            rw [hentry.cacheNext]
            have hlength : rest.length < fuel := Nat.lt_of_succ_lt_succ hfuel
            obtain ⟨visited, found, hsearch, hvisited, hfound⟩ := ih hrest hlength
            refine ⟨pos :: visited, found, ?_, ?_, ?_⟩
            · have hsearch' : searchFrom memory stop tb record fuel (pos + entry.size) =
                  some (visited, found) := hsearch
              rw [hsearch', Option.map_some]
            · intro cpos hmem
              obtain rfl | hmem := List.mem_cons.mp hmem
              · exact ⟨entry, hentry, Nat.le_refl _, hnext⟩
              · obtain ⟨own, hown, hlow, hhigh⟩ := hvisited cpos hmem
                have hlow' : pos + entry.size ≤ cpos := hlow
                exact ⟨own, hown, by omega, hhigh⟩
            · intro cpos hmem
              obtain ⟨own, hown, hprops⟩ := hfound cpos hmem
              exact ⟨own, List.mem_cons_of_mem entry hown, hprops⟩

end Search

section Entries

variable {valid : PrivilEntry → Prop} {privils : Privils} {guard : Memory}

/-- The buffer holds valid entries from its start on, and what follows the buffer is as
it was. -/
structure Holds (valid : PrivilEntry → Prop) (guard : Memory) (privils : Privils) : Prop where
  start : privils.cacheStart = 0
  stop : privils.cacheStop ≤ PRIVIL_CACHE_SIZE
  chain : ∃ entries, Chain privilFormat privils.pCache 0 entries privils.cacheStop ∧
    ∀ entry ∈ entries, valid entry
  guarded : ∀ i, PRIVIL_CACHE_SIZE + 2 ≤ i → privils.pCache i = guard i

/-- The conclusions about one search. -/
structure Searched (valid : PrivilEntry → Prop) (privils : Privils) (tb record : UInt32)
    (visited : List Nat) (found : Option Nat) : Prop where
  search : privils.search tb record = some (visited, found)
  within : ∀ cpos ∈ visited, privils.Within cpos
  found : ∀ cpos ∈ found, ∃ entry, valid entry ∧ EntryAt privils.pCache cpos entry ∧
    entry.tb = tb ∧ entry.record = record

theorem Holds.search (hholds : Holds valid guard privils) (tb record : UInt32) :
    ∃ visited found, Searched valid privils tb record visited found := by
  obtain ⟨entries, hchain, hvalid⟩ := hholds.chain
  have hlength := hchain.length_le
  have hfuel : entries.length < PRIVIL_CACHE_SIZE + 1 := by
    have hstop := hholds.stop
    omega
  obtain ⟨visited, found, hsearch, hvisited, hfound⟩ :=
    searchFrom_chain tb record hchain hfuel
  refine ⟨visited, found, ?_, ?_, ?_⟩
  · rw [Privils.search, hholds.start]
    exact hsearch
  · intro cpos hmem
    obtain ⟨entry, hentry, -, hstop⟩ := hvisited cpos hmem
    exact ⟨entry, hentry, by rw [hholds.start]; exact Nat.zero_le cpos, hstop⟩
  · intro cpos hmem
    obtain ⟨entry, hentry, hlies, hkey⟩ := hfound cpos hmem
    exact ⟨entry, hvalid entry hentry, hlies, hkey⟩

theorem makeSpace_zero (memory : Memory) (stop size fuel : Nat) :
    makeSpace memory stop size fuel 0 = 0 := by
  cases fuel with
  | zero => rfl
  | succ fuel => rw [makeSpace, if_neg fun h => absurd h.1 (Nat.not_lt_zero stop)]

/-- An entry that fits behind the stop extends the chain. -/
theorem Holds.append {entry : PrivilEntry} (hholds : Holds valid guard privils)
    (hvalid : valid entry) (hfits : privils.cacheStop + entry.size ≤ PRIVIL_CACHE_SIZE) :
    Holds valid guard { privils with
      cacheStop := privils.cacheStop + entry.size
      pCache := putEntry privils.pCache privils.cacheStop entry } := by
  obtain ⟨entries, hchain, hentries⟩ := hholds.chain
  constructor
  case start => exact hholds.start
  case stop => exact hfits
  case chain =>
    refine ⟨entries ++ [entry], ?_, ?_⟩
    · have hkept := hchain.congr fun i _ hi =>
        (@putEntry_outside privils.pCache privils.cacheStop i entry (Or.inl hi)).symm
      exact hkept.snoc (putEntry_entryAt (by omega))
    · intro own hown
      obtain hown | hown := List.mem_append.mp hown
      · exact hentries own hown
      · rw [List.mem_singleton.mp hown]
        exact hvalid
  case guarded =>
    intro i hi
    rw [← hholds.guarded i hi]
    exact putEntry_outside (Or.inr (by omega))

theorem Holds.cacheInsert {entry : PrivilEntry} (hholds : Holds valid guard privils)
    (hvalid : valid entry) : Holds valid guard (privils.cacheInsert entry) := by
  have hstart := hholds.start
  simp only [Privils.cacheInsert]
  split
  case isFalse hfits =>
    rw [hstart, makeSpace_zero, ← hstart]
    exact hholds.append hvalid (Nat.le_of_not_lt hfits)
  case isTrue =>
    split
    case isTrue => exact hholds
    case isFalse hsize =>
      -- the wrap gives up all the entries
      have hwrapped : Holds valid guard { privils with
          cacheStart := 0
          cacheStop := 0
          pCache := putSize privils.pCache privils.cacheStop 0 } := by
        constructor
        case start => rfl
        case stop => exact Nat.zero_le _
        case chain => exact ⟨[], rfl, by simp⟩
        case guarded =>
          intro i hi
          have hstop := hholds.stop
          rw [← hholds.guarded i hi]
          exact putSize_outside (Or.inr (by omega))
      rw [hstart, ite_self, makeSpace_zero]
      refine hwrapped.append hvalid ?_
      rw [Nat.zero_add]
      exact Nat.le_of_not_lt hsize

end Entries

section Definitions

variable {inGroupdef : List UInt8 → Bool} {descrSize fuel : Nat} {privDef privVal : List UInt8}

theorem addPrivils_length (hlength : privVal.length = descrSize) :
    (addPrivils inGroupdef descrSize fuel privDef privVal).length = descrSize := by
  induction fuel generalizing privDef privVal with
  | zero => exact hlength
  | succ fuel ih =>
      simp only [addPrivils]
      split
      case isTrue => exact hlength
      case isFalse hlong =>
        apply ih
        split
        case isTrue =>
          rw [List.length_zipWith, List.length_drop, hlength]
          omega
        case isFalse => exact hlength

theorem sumarizePrivils_length :
    (sumarizePrivils inGroupdef descrSize privDef).length = descrSize :=
  addPrivils_length List.length_replicate

/-- The entry holds what the definitions give; there are none for temporary tables. -/
def ValidEntry (inGroupdef : List UInt8 → Bool) (defs : PrivilDefs) (entry : PrivilEntry) :
    Prop :=
  ∃ privDef, entry.privVal = sumarizePrivils inGroupdef (defs.descrSize entry.tb) privDef ∧
    if entry.record = NORECNUM then
      isTemporary entry.tb = false ∧ defs.globalDef entry.tb = some privDef
    else defs.recordDef entry.tb entry.record = some privDef

end Definitions

section Answers

variable {privils : Privils} {guard : Memory} {defs : PrivilDefs} {tb rec : UInt32}
  {visited : List Nat} {found : Option Nat} {map : List UInt8}

/-- The buffer holds what the definitions give for the user. -/
def Privils.Current (guard : Memory) (defs : PrivilDefs) (privils : Privils) : Prop :=
  Holds (ValidEntry privils.inGroupdef defs) guard privils

theorem privValAt_of_entryAt {entry : PrivilEntry} {cpos len : Nat}
    (hentry : EntryAt privils.pCache cpos entry) (hlen : entry.privVal.length = len) :
    privils.privValAt cpos len = entry.privVal := by
  rw [← hlen]
  exact hentry.privVal

def Privils.directGlobal (privils : Privils) (defs : PrivilDefs) (tb : UInt32)
    (map : List UInt8) : List UInt8 :=
  if isTemporary tb then temporaryPrivils map
  else (defs.globalDef tb).elim map (sumarizePrivils privils.inGroupdef (defs.descrSize tb))

theorem Privils.cacheInsert_inGroupdef (privils : Privils) (entry : PrivilEntry) :
    (privils.cacheInsert entry).inGroupdef = privils.inGroupdef := by
  simp only [cacheInsert]
  split
  · split <;> rfl
  · rfl

theorem Privils.cacheInsert_isDataAdmin (privils : Privils) (entry : PrivilEntry) :
    (privils.cacheInsert entry).isDataAdmin = privils.isDataAdmin := by
  simp only [cacheInsert]
  split
  · split <;> rfl
  · rfl

theorem Privils.cacheInsert_cacheInvalid (privils : Privils) (entry : PrivilEntry) :
    (privils.cacheInsert entry).cacheInvalid = privils.cacheInvalid := by
  simp only [cacheInsert]
  split
  · split <;> rfl
  · rfl

/-- A call leaves the user as it is and the buffer current. -/
structure Follows (guard : Memory) (defs : PrivilDefs) (privils next : Privils) : Prop where
  inGroupdef : next.inGroupdef = privils.inGroupdef
  isDataAdmin : next.isDataAdmin = privils.isDataAdmin
  cacheInvalid : next.cacheInvalid = privils.cacheInvalid
  current : next.Current guard defs

theorem Follows.refl (hcurrent : privils.Current guard defs) :
    Follows guard defs privils privils := ⟨rfl, rfl, rfl, hcurrent⟩

theorem Follows.trans {next last : Privils} (hnext : Follows guard defs privils next)
    (hlast : Follows guard defs next last) : Follows guard defs privils last :=
  ⟨hlast.inGroupdef.trans hnext.inGroupdef, hlast.isDataAdmin.trans hnext.isDataAdmin,
    hlast.cacheInvalid.trans hnext.cacheInvalid, hlast.current⟩

theorem Privils.Current.cacheInsert {entry : PrivilEntry}
    (hcurrent : privils.Current guard defs)
    (hvalid : ValidEntry privils.inGroupdef defs entry) :
    Follows guard defs privils (privils.cacheInsert entry) := by
  refine ⟨privils.cacheInsert_inGroupdef entry, privils.cacheInsert_isDataAdmin entry,
    privils.cacheInsert_cacheInvalid entry, ?_⟩
  rw [Privils.Current, privils.cacheInsert_inGroupdef]
  exact Holds.cacheInsert hcurrent hvalid

theorem Privils.Current.globalPrivils (hcurrent : privils.Current guard defs)
    (hsearched : Searched (ValidEntry privils.inGroupdef defs) privils tb NORECNUM visited
      found) :
    (privils.globalPrivils defs tb map found).1 = privils.directGlobal defs tb map ∧
      Follows guard defs privils (privils.globalPrivils defs tb map found).2 := by
  cases found with
  | some cpos =>
      obtain ⟨entry, ⟨privDef, hprivVal, hdef⟩, hentry, htb, hrecord⟩ := hsearched.found cpos rfl
      rw [if_pos hrecord, htb] at hdef
      rw [htb] at hprivVal
      refine ⟨?_, Follows.refl hcurrent⟩
      have hlen : entry.privVal.length = defs.descrSize tb := by
        rw [hprivVal, sumarizePrivils_length]
      simp only [Privils.globalPrivils, Privils.directGlobal]
      rw [privValAt_of_entryAt hentry hlen, hprivVal, hdef.1, hdef.2]
      rfl
  | none =>
      simp only [Privils.globalPrivils, Privils.directGlobal]
      split
      case isTrue => exact ⟨rfl, Follows.refl hcurrent⟩
      case isFalse htemporary =>
        split
        case h_1 hdef =>
          rw [hdef]
          exact ⟨rfl, Follows.refl hcurrent⟩
        case h_2 privDef hdef =>
          rw [hdef]
          refine ⟨rfl, hcurrent.cacheInsert ⟨privDef, rfl, ?_⟩⟩
          rw [if_pos rfl]
          exact ⟨Bool.eq_false_iff.mpr htemporary, hdef⟩

theorem Privils.Current.recordPrivils (hcurrent : privils.Current guard defs)
    (hrec : hasRecordPrivils defs tb rec = true)
    (hsearched : Searched (ValidEntry privils.inGroupdef defs) privils tb rec visited found) :
    (privils.recordPrivils defs tb rec found).1 =
        (defs.recordDef tb rec).map
          (sumarizePrivils privils.inGroupdef (defs.descrSize tb)) ∧
      Follows guard defs privils (privils.recordPrivils defs tb rec found).2 := by
  have hrecord : rec ≠ NORECNUM := by
    simp only [hasRecordPrivils, Bool.and_eq_true, bne_iff_ne] at hrec
    exact hrec.1.2
  cases found with
  | some cpos =>
      obtain ⟨entry, ⟨privDef, hprivVal, hdef⟩, hentry, htb, hkey⟩ := hsearched.found cpos rfl
      rw [hkey, if_neg hrecord, htb] at hdef
      rw [htb] at hprivVal
      refine ⟨?_, Follows.refl hcurrent⟩
      have hlen : entry.privVal.length = defs.descrSize tb := by
        rw [hprivVal, sumarizePrivils_length]
      simp only [Privils.recordPrivils]
      rw [privValAt_of_entryAt hentry hlen, hprivVal, hdef, Option.map_some]
  | none =>
      simp only [Privils.recordPrivils]
      split
      case h_1 hdef =>
        rw [hdef]
        exact ⟨rfl, Follows.refl hcurrent⟩
      case h_2 privDef hdef =>
        rw [hdef]
        refine ⟨rfl, hcurrent.cacheInsert ⟨privDef, rfl, ?_⟩⟩
        rw [if_neg hrecord]
        exact hdef

theorem Privils.directPrivils_eq (privils : Privils) (defs : PrivilDefs) (tb rec : UInt32)
    (map : List UInt8) :
    privils.directPrivils defs tb rec map =
      if privils.isDataAdmin then adminPrivils (privils.directGlobal defs tb map)
      else if hasRecordPrivils defs tb rec then
        (defs.recordDef tb rec).elim (privils.directGlobal defs tb map) fun privDef =>
          List.zipWith (· ||| ·) (privils.directGlobal defs tb map)
            (sumarizePrivils privils.inGroupdef (defs.descrSize tb) privDef)
      else privils.directGlobal defs tb map := rfl

/-- What a call has to give: the privileges of the definitions, after searches that go
through whole entries only. -/
structure Outcome.Right (outcome : Outcome) (direct : List UInt8) : Prop where
  answer : outcome.answer = direct
  within : ∀ search ∈ outcome.searches, ∀ cpos ∈ search.2, search.1.Within cpos

theorem Privils.Current.directPrivils (hcurrent : privils.Current guard defs)
    (hvalid : privils.cacheInvalid = false) (tb rec : UInt32) (map : List UInt8) :
    ∃ outcome, privils.getEffectivePrivils defs tb rec map = some outcome ∧
      outcome.Right (privils.directPrivils defs tb rec map) ∧
      Follows guard defs privils outcome.privils := by
  obtain ⟨visited, found, hglobal⟩ := Holds.search hcurrent tb NORECNUM
  obtain ⟨hanswer, hnext⟩ :=
    @Privils.Current.globalPrivils privils guard defs tb visited found map hcurrent hglobal
  simp only [Privils.getEffectivePrivils, hvalid, Bool.false_eq_true, if_false, hglobal.search,
    Option.bind_some]
  have hfirst : ∀ answer next, answer = privils.directPrivils defs tb rec map →
      Outcome.Right ⟨answer, next, [(privils, visited)]⟩
        (privils.directPrivils defs tb rec map) := by
    intro answer next hright
    refine ⟨hright, ?_⟩
    intro search hmem
    rw [List.mem_singleton.mp hmem]
    exact hglobal.within
  rw [hnext.isDataAdmin, hanswer]
  split
  case isTrue hadmin =>
    refine ⟨_, rfl, hfirst _ _ ?_, hnext⟩
    rw [Privils.directPrivils_eq, if_pos hadmin]
  case isFalse hadmin =>
    split
    case isFalse hrec =>
      refine ⟨_, rfl, hfirst _ _ ?_, hnext⟩
      rw [Privils.directPrivils_eq, if_neg hadmin, if_neg hrec]
    case isTrue hrec =>
      obtain ⟨own, ownFound, hown⟩ := Holds.search hnext.current tb rec
      obtain ⟨hrecVal, hlast⟩ := Privils.Current.recordPrivils hnext.current hrec hown
      rw [hown.search, Option.map_some]
      refine ⟨_, rfl, ⟨?_, ?_⟩, hnext.trans hlast⟩
      · rw [Privils.directPrivils_eq, if_neg hadmin, if_pos hrec, hrecVal, hnext.inGroupdef]
        cases defs.recordDef tb rec with
        | none => rfl
        | some privDef => rfl
      · intro search hmem
        obtain rfl | hmem := List.mem_cons.mp hmem
        · exact hglobal.within
        · rw [List.mem_singleton.mp hmem]
          exact hown.within

end Answers

section Runs

variable {guard : Memory} {state : PrivilState}

/-- The buffer is well formed, and current unless it is to be reset. -/
structure Consistent (guard : Memory) (state : PrivilState) : Prop where
  holds : ∃ valid, Holds valid guard state.privils
  current : state.privils.cacheInvalid = false → state.privils.Current guard state.defs

theorem Consistent.start (pCache : Memory) (inGroupdef : List UInt8 → Bool) (isDataAdmin : Bool)
    (defs : PrivilDefs) : Consistent pCache (PrivilState.start pCache inGroupdef isDataAdmin defs)
    where
  holds := ⟨fun _ => True, rfl, Nat.zero_le _, ⟨[], rfl, by simp⟩, fun _ _ => rfl⟩
  current := fun _ => ⟨rfl, Nat.zero_le _, ⟨[], rfl, by simp⟩, fun _ _ => rfl⟩

theorem Privils.getEffectivePrivils_reset {privils : Privils}
    (hinvalid : privils.cacheInvalid = true) (defs : PrivilDefs) (tb rec : UInt32)
    (map : List UInt8) :
    privils.getEffectivePrivils defs tb rec map =
      getEffectivePrivils { privils.resetCache with cacheInvalid := false } defs tb rec map := by
  simp only [getEffectivePrivils, hinvalid, if_true, Bool.false_eq_true, if_false]

theorem Consistent.getEffectivePrivils (hstate : Consistent guard state) (tb rec : UInt32)
    (map : List UInt8) :
    ∃ outcome, state.privils.getEffectivePrivils state.defs tb rec map = some outcome ∧
      outcome.Right (state.privils.directPrivils state.defs tb rec map) ∧
      outcome.privils.cacheInvalid = false ∧ outcome.privils.Current guard state.defs := by
  cases hinvalid : state.privils.cacheInvalid with
  | false =>
      obtain ⟨outcome, hcall, hright, hfollows⟩ :=
        (hstate.current hinvalid).directPrivils hinvalid tb rec map
      exact ⟨outcome, hcall, hright, hfollows.cacheInvalid.trans hinvalid, hfollows.current⟩
  | true =>
      obtain ⟨valid, hholds⟩ := hstate.holds
      have hreset : Privils.Current guard state.defs
          { state.privils.resetCache with cacheInvalid := false } :=
        ⟨rfl, Nat.zero_le _, ⟨[], rfl, by simp⟩, hholds.guarded⟩
      obtain ⟨outcome, hcall, hright, hfollows⟩ := hreset.directPrivils rfl tb rec map
      rw [Privils.getEffectivePrivils_reset hinvalid]
      exact ⟨outcome, hcall, hright, hfollows.cacheInvalid, hfollows.current⟩

theorem Consistent.privilStep (hstate : Consistent guard state) (op : PrivilOp) :
    Consistent guard (privilStep state op) := by
  cases op with
  | getEffectivePrivils tb rec map =>
      obtain ⟨outcome, hcall, -, -, hcurrent⟩ := hstate.getEffectivePrivils tb rec map
      simp only [Rights.privilStep, hcall]
      exact ⟨⟨_, hcurrent⟩, fun _ => hcurrent⟩
  | redefine defs =>
      obtain ⟨valid, hholds⟩ := hstate.holds
      exact ⟨⟨valid, hholds.start, hholds.stop, hholds.chain, hholds.guarded⟩,
        fun hvalid => absurd hvalid (by simp [Rights.privilStep])⟩
  | setUser inGroupdef isDataAdmin =>
      obtain ⟨valid, hholds⟩ := hstate.holds
      exact ⟨⟨valid, rfl, Nat.zero_le _, ⟨[], rfl, by simp⟩, hholds.guarded⟩,
        fun _ => ⟨rfl, Nat.zero_le _, ⟨[], rfl, by simp⟩, hholds.guarded⟩⟩

/-- The cache is right in a state: every call that may come next ends with the
privileges of the definitions, its searches go through whole entries between the start
and the stop, and what follows the buffer is as it was. -/
structure CacheRight (guard : Memory) (state : PrivilState) : Prop where
  call : ∀ tb rec map, ∃ outcome,
    state.privils.getEffectivePrivils state.defs tb rec map = some outcome ∧
      outcome.Right (state.privils.directPrivils state.defs tb rec map)
  guarded : ∀ i, PRIVIL_CACHE_SIZE + 2 ≤ i → state.privils.pCache i = guard i

theorem effective_privils_cached (pCache : Memory) (inGroupdef : List UInt8 → Bool)
    (isDataAdmin : Bool) (defs : PrivilDefs) (ops : List PrivilOp) :
    Always privilStep (CacheRight pCache)
      (PrivilState.start pCache inGroupdef isDataAdmin defs) ops := by
  refine always_of_step (Consistent pCache) ?_ (fun _ op hstate => hstate.privilStep op)
    (Consistent.start pCache inGroupdef isDataAdmin defs)
  intro state hstate
  constructor
  case call =>
    intro tb rec map
    obtain ⟨outcome, hcall, hright, -⟩ := hstate.getEffectivePrivils tb rec map
    exact ⟨outcome, hcall, hright⟩
  case guarded =>
    obtain ⟨valid, hholds⟩ := hstate.holds
    exact hholds.guarded

end Runs

end Sql602.Rights
