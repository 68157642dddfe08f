import Sql602.Library.Greatest

namespace Sql602.Backup

/-! The deletion of the old backups from a directory. -/

abbrev FileName := List UInt8

def BACKUP_NAME_PATTERN_LEN : Nat := 8 + 1 + 2

def OUT_OF_KERNEL_MEMORY : Int := 0x91

/-- The size of an item, which ends by a zero byte. -/
def backupNameSize : Int := BACKUP_NAME_PATTERN_LEN + 1

/-- The names have no zero byte, and what is read behind the end is zero. -/
def isNamePattern (name : FileName) : Bool :=
  name.getD 8 0 == 46 && (List.range BACKUP_NAME_PATTERN_LEN).all fun i =>
    i == 8 || !(name.getD i 0 < 48 || name.getD i 0 > 57)

/-- The part of the name that is stored and compared. -/
def timePrefix (name : FileName) : FileName := name.take BACKUP_NAME_PATTERN_LEN

/-- Passes the items that are greater than the name. -/
def searchPos (key : FileName) : List FileName → Nat
  | [] => 0
  | item :: items => if compare item key = .gt then searchPos key items + 1 else 0

/-- The items after a name has been found in the directory. -/
def keepName (maxCount : Nat) (backupNames : List FileName) (aname : FileName) :
    List FileName :=
  let key := timePrefix aname
  let pos := searchPos key backupNames
  if pos < maxCount then
    if pos = backupNames.length ∨ compare (backupNames.getD pos []) key = .lt then
      let mv := backupNames.length - pos - if backupNames.length = maxCount then 1 else 0
      backupNames.take pos ++ key :: (backupNames.drop pos).take mv
    else backupNames
  else backupNames

def findNewest (maxCount : Nat) (names : List FileName) : List FileName :=
  names.foldl
    (fun backupNames aname =>
      if isNamePattern aname then keepName maxCount backupNames aname else backupNames) []

/-- The error code and the deleted files. `lastError` is the error of a file that is not
deleted. -/
def deleteOthers (lastError : FileName → Option Int) (backupNames : List FileName) :
    Int → List FileName → Int × List FileName
  | err, [] => (err, [])
  | err, aname :: names =>
      if isNamePattern aname && !backupNames.contains (timePrefix aname) then
        match lastError aname with
        | none =>
            let (err, deleted) := deleteOthers lastError backupNames err names
            (err, aname :: deleted)
        | some code => deleteOthers lastError backupNames (-code) names
      else deleteOthers lastError backupNames err names

/-- The directory is passed twice, in the order of `first` and then of `second`. -/
def backupReduce (backupFilesLimit : Int) (allocates : Int → Bool)
    (lastError : FileName → Option Int) (first second : List FileName) (maxCount : Int) :
    Int × List FileName :=
  let count := if maxCount < 0 then backupFilesLimit else maxCount
  if maxCount < 0 ∧ count ≤ 0 then (0, [])
  else if allocates (backupNameSize * (count + 1)) = false then (OUT_OF_KERNEL_MEMORY, [])
  else deleteOthers lastError (findNewest count.toNat first) 0 second

/-! The first pass. -/

section FirstPass

variable {maxCount : Nat} {key aname : FileName} {keys backupNames names : List FileName}

/-- The prefixes of the backups in the directory. -/
def prefixes (names : List FileName) : List FileName :=
  (names.filter isNamePattern).map timePrefix

theorem searchPos_le : searchPos key backupNames ≤ backupNames.length := by
  induction backupNames with
  | nil => exact Nat.le_refl 0
  | cons item items ih =>
      rw [searchPos]
      split
      · exact Nat.succ_le_succ ih
      · exact Nat.zero_le _

theorem above_searchPos : ∀ other ∈ backupNames.take (searchPos key backupNames),
    compare other key = .gt := by
  induction backupNames with
  | nil =>
      intro other hother
      cases hother
  | cons item items ih =>
      rw [searchPos]
      split
      case isTrue hgt =>
        rw [List.take_succ_cons]
        exact List.forall_mem_cons.mpr ⟨hgt, ih⟩
      case isFalse =>
        intro other hother
        cases hother

theorem at_searchPos (hpos : searchPos key backupNames < backupNames.length) :
    compare (backupNames.getD (searchPos key backupNames) []) key ≠ .gt := by
  induction backupNames with
  | nil => exact absurd hpos (Nat.not_lt_zero _)
  | cons item items ih =>
      rw [searchPos] at hpos ⊢
      split at hpos
      case isTrue hgt =>
        rw [if_pos hgt, List.getD_cons_succ]
        exact ih (Nat.lt_of_succ_lt_succ hpos)
      case isFalse hle =>
        rw [if_neg hle]
        exact hle

theorem keepName_holds (hholds : Greatest.Holds maxCount keys backupNames) :
    Greatest.Holds maxCount (keys ++ [timePrefix aname])
      (keepName maxCount backupNames aname) := by
  have hle := @searchPos_le (timePrefix aname) backupNames
  have habove := @above_searchPos (timePrefix aname) backupNames
  have hat := @at_searchPos (timePrefix aname) backupNames
  have hfits := hholds.fits
  rw [keepName]
  generalize searchPos (timePrefix aname) backupNames = pos at hle habove hat ⊢
  obtain ⟨before, after, rfl, rfl⟩ :
      ∃ before after, backupNames = before ++ after ∧ before.length = pos :=
    ⟨backupNames.take pos, backupNames.drop pos, (List.take_append_drop _ _).symm,
      List.length_take_of_le hle⟩
  rw [List.take_left] at habove
  rw [List.length_append] at hle hfits hat
  dsimp only
  rw [List.length_append, List.take_left, List.drop_left, Nat.add_sub_cancel_left]
  split
  case isTrue hplace =>
    split
    case isTrue hnew =>
      have hbelow : ∀ other ∈ after, compare (timePrefix aname) other = .gt := by
        cases after with
        | nil =>
            intro other hother
            cases hother
        | cons next rest =>
            have hlt : compare next (timePrefix aname) = .lt := by
              have hget : (before ++ next :: rest).getD before.length [] = next := by
                rw [List.getD_eq_getElem?_getD, List.getElem?_append_right (Nat.le_refl _),
                  Nat.sub_self]
                rfl
              rw [hget] at hnew
              refine hnew.resolve_left ?_
              rw [List.length_cons]
              omega
            have hfirst : compare (timePrefix aname) next = .gt :=
              Std.OrientedCmp.gt_iff_lt.mpr hlt
            have hrest := (List.pairwise_append.mp hholds.descending).2.1
            rw [List.pairwise_cons] at hrest
            refine List.forall_mem_cons.mpr ⟨hfirst, ?_⟩
            intro other hother
            exact Greatest.gt_trans hfirst (hrest.1 other hother)
      have hput := hholds.put hplace habove hbelow
      have htake : (before ++ timePrefix aname :: after).take maxCount =
          before ++ timePrefix aname ::
            after.take (after.length - if before.length + after.length = maxCount then 1 else 0) := by
        obtain ⟨room, rfl⟩ := Nat.exists_eq_add_of_lt hplace
        rw [Nat.add_assoc, List.take_length_add_append, List.take_succ_cons]
        congr 2
        split
        case isTrue hfull =>
          congr 1
          omega
        case isFalse hroom =>
          rw [Nat.sub_zero, List.take_length, List.take_of_length_le]
          omega
      rw [htake] at hput
      exact hput
    case isFalse hheld =>
      have hshort : before.length < before.length + after.length :=
        Nat.lt_of_le_of_ne (Nat.le_add_right _ _) fun heq => hheld (Or.inl heq)
      cases after with
      | nil => exact absurd hshort (Nat.lt_irrefl _)
      | cons next rest =>
          have hget : (before ++ next :: rest).getD before.length [] = next := by
            rw [List.getD_eq_getElem?_getD, List.getElem?_append_right (Nat.le_refl _),
              Nat.sub_self]
            rfl
          have hngt := hat hshort
          rw [hget] at hheld hngt
          have hequal : compare next (timePrefix aname) = .eq := by
            cases hcompare : compare next (timePrefix aname) with
            | lt => exact absurd (Or.inr hcompare) hheld
            | eq => rfl
            | gt => exact absurd hcompare hngt
          refine hholds.again ?_
          rw [← Std.LawfulEqCmp.eq_of_compare hequal]
          exact List.mem_append_right _ List.mem_cons_self
  case isFalse hpassed =>
    have hnil : after = [] := by
      apply List.eq_nil_of_length_eq_zero
      omega
    subst hnil
    rw [List.append_nil] at hholds ⊢
    rw [List.length_nil] at hfits
    exact hholds.passed (by omega) habove

/-- The first pass finds the greatest prefixes. -/
theorem findNewest_holds : Greatest.Holds maxCount (prefixes names) (findNewest maxCount names) := by
  induction names using List.reverseRecOn with
  | nil => exact Greatest.holds_nil
  | append_singleton names aname ih =>
      rw [findNewest, List.foldl_append, List.foldl_cons, List.foldl_nil, prefixes,
        List.filter_append, List.map_append]
      split
      case isTrue hpattern =>
        rw [List.filter_cons_of_pos hpattern]
        exact keepName_holds ih
      case isFalse hother =>
        rw [List.filter_cons_of_neg hother, List.filter_nil, List.map_nil, List.append_nil]
        exact ih

end FirstPass

/-! The second pass. -/

section SecondPass

variable {lastError : FileName → Option Int} {backupNames names : List FileName} {err : Int}

theorem deleteOthers_spec :
    (deleteOthers lastError backupNames err names).2 =
        names.filter (fun name =>
          (isNamePattern name && !backupNames.contains (timePrefix name)) &&
            (lastError name).isNone) ∧
      ((∀ name ∈ names, lastError name = none) →
        (deleteOthers lastError backupNames err names).1 = err) := by
  induction names generalizing err with
  | nil => exact ⟨rfl, fun _ => rfl⟩
  | cons aname names ih =>
      rw [deleteOthers]
      split
      case isTrue hold =>
        split
        case h_1 hdeleted =>
          obtain ⟨hlist, herr⟩ := @ih err
          refine ⟨?_, ?_⟩
          · rw [List.filter_cons_of_pos, ← hlist]
            rw [hold, hdeleted]
            rfl
          · intro hall
            exact herr (List.forall_mem_cons.mp hall).2
        case h_2 code hfails =>
          obtain ⟨hlist, -⟩ := @ih (-code)
          refine ⟨?_, ?_⟩
          · rw [List.filter_cons_of_neg, ← hlist]
            rw [hold, hfails]
            exact Bool.false_ne_true
          · intro hall
            rw [(List.forall_mem_cons.mp hall).1] at hfails
            cases hfails
      case isFalse hkept =>
        obtain ⟨hlist, herr⟩ := @ih err
        refine ⟨?_, ?_⟩
        · rw [List.filter_cons_of_neg, ← hlist]
          rw [Bool.and_eq_true_iff]
          exact fun h => hkept h.1
        · intro hall
          exact herr (List.forall_mem_cons.mp hall).2

end SecondPass

/-! The reduction. -/

/-- The backups with the greatest prefixes are kept, in all their parts, and other files are not
touched. -/
structure Reduced (lastError : FileName → Option Int) (directory : List FileName)
    (maxCount : Nat) (err : Int) (deleted : List FileName) : Prop where
  exactly : ∀ name, name ∈ deleted ↔
    name ∈ directory ∧ isNamePattern name = true ∧
      ¬ Greatest.IsGreatest maxCount (prefixes directory) (timePrefix name) ∧
        lastError name = none
  once : directory.Nodup → deleted.Nodup
  reports : (∀ name ∈ directory, lastError name = none) → err = 0

/-- A part of the backup of a minute. -/
def backupFile (minute part : UInt8) : FileName :=
  [50, 52, 48, 49, 48, 49, 49, 50, 46, 51, minute, part]

def twoBackups : List FileName := [backupFile 48 65, backupFile 49 65, backupFile 49 66]

example : backupReduce 0 (fun _ => true) (fun _ => none) twoBackups twoBackups 1 =
    (0, [backupFile 48 65]) := by decide

end Sql602.Backup
