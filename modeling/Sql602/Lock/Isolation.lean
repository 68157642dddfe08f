import Sql602.Lock.LockTable

namespace Sql602.Lock

open Probing
open scoped List

/-! What a verdict of the table says about the cells that it was made from. -/

/-- Two locks of different clients on one object, or on a table and one of its
records, are both read locks. -/
def Compatible (lock other : LockCell) : Prop :=
  lock.owner ≠ other.owner →
    lock.object = other.object ∨ lock.object = FULLTABLE ∨ other.object = FULLTABLE →
      lock.locktype.isRead = true ∧ other.locktype.isRead = true

instance (lock other : LockCell) : Decidable (Compatible lock other) :=
  inferInstanceAs (Decidable (_ → _ → _))

theorem Compatible.symm {lock other : LockCell} (hcompatible : Compatible lock other) :
    Compatible other lock := by
  intro howner hobject
  have hrelated : lock.object = other.object ∨ lock.object = FULLTABLE ∨
      other.object = FULLTABLE := by
    rcases hobject with hsame | hfull | hfull
    · exact Or.inl hsame.symm
    · exact Or.inr (Or.inr hfull)
    · exact Or.inr (Or.inl hfull)
  exact (hcompatible howner.symm hrelated).symm

namespace LockTable

theorem both_read {left right : LockType} (hread : ¬ (!left.isRead || !right.isRead) = true) :
    left.isRead = true ∧ right.isRead = true := by
  revert hread
  cases left.isRead <;> cases right.isRead <;> simp

variable {owner record : Nat} {tabOrObj : Bool} {locktype : LockType} {cells : List LockCell}

theorem scanFulltable_none (hscan : scanFulltable owner locktype cells = none) :
    ∀ cell ∈ cells, cell.object = FULLTABLE → cell.owner ≠ owner →
      cell.locktype.isRead = true ∧ locktype.isRead = true := by
  induction cells with
  | nil => simp
  | cons first cells ih =>
      intro cell hmem hobject howner
      simp only [scanFulltable] at hscan
      rcases List.mem_cons.mp hmem with rfl | hmem
      · rw [if_pos hobject, if_pos howner] at hscan
        split at hscan
        · cases hscan
        · exact both_read ‹¬ _›
      · refine ih ?_ cell hmem hobject howner
        revert hscan
        repeat' split
        all_goals simp

theorem scanAll_none (hscan : scanAll owner locktype cells = none) :
    ∀ cell ∈ cells, cell.isValid = true → cell.object ≠ FULLTABLE → cell.owner ≠ owner →
      cell.locktype.isRead = true ∧ locktype.isRead = true := by
  induction cells with
  | nil => simp
  | cons first cells ih =>
      intro cell hmem hvalid hobject howner
      simp only [scanAll] at hscan
      split at hscan
      case isTrue => cases hscan
      case isFalse hpass =>
        rcases List.mem_cons.mp hmem with rfl | hmem
        · simpa [hvalid, hobject, howner] using hpass
        · exact ih hscan cell hmem hvalid hobject howner

theorem scanRecord_none (hscan : scanRecord owner tabOrObj record locktype cells = none) :
    ∀ cell ∈ cells, cell.object = record → cell.owner ≠ owner →
      cell.locktype.isRead = true ∧ locktype.isRead = true := by
  induction cells with
  | nil => simp
  | cons first cells ih =>
      intro cell hmem hobject howner
      simp only [scanRecord] at hscan
      rcases List.mem_cons.mp hmem with rfl | hmem
      · rw [if_pos hobject, if_pos howner] at hscan
        split at hscan
        · cases hscan
        · exact both_read ‹¬ _›
      · refine ih ?_ cell hmem hobject howner
        revert hscan
        repeat' split
        all_goals simp

end LockTable

/-! The table knows exactly the locks that are held. The counters may only be
too high, which makes the table grow earlier. -/

structure LockTable.Filled (table : LockTable) (held : List LockCell) : Prop where
  placed : lockScheme.Placed table.locks
  entries : lockScheme.entries table.locks ~ held
  valid : held.length ≤ table.validCells
  used : table.locks.countP (fun cell => !cell.isEmpty) ≤ table.usedCells

namespace LockTable.Filled

variable {table : LockTable} {held : List LockCell}

theorem perm {other : List LockCell} (hfilled : table.Filled held) (hperm : held ~ other) :
    table.Filled other where
  placed := hfilled.placed
  entries := hfilled.entries.trans hperm
  valid := hperm.length_eq ▸ hfilled.valid
  used := hfilled.used

theorem mem_iff (hfilled : table.Filled held) {cell : LockCell} :
    cell ∈ held ↔ cell ∈ table.locks ∧ cell.isValid = true := by
  rw [← hfilled.entries.mem_iff]
  exact List.mem_filter

theorem mem_passed (hfilled : table.Filled held) {cell : LockCell} (hmem : cell ∈ held) :
    cell ∈ table.passed cell.object := by
  obtain ⟨hcell, hvalid⟩ := hfilled.mem_iff.mp hmem
  exact hfilled.placed.mem_visited hcell hvalid

theorem held_nil (hfilled : table.Filled held) (hnone : table.anyLock = false) :
    held = [] := by
  have hvalid := hfilled.valid
  simp only [anyLock, decide_eq_false_iff_not, gt_iff_lt, Nat.not_lt, Nat.le_zero] at hnone
  exact List.eq_nil_of_length_eq_zero (by omega)

/-- A lock that the table lets a client add is compatible with all held ones. -/
theorem compatible {owner record : Nat} {tabOrObj : Bool} {locktype : LockType}
    (hfilled : table.Filled held)
    (hadd : table.tryLocking owner tabOrObj record locktype = none) :
    ∀ lock ∈ held, Compatible ⟨owner, locktype, record⟩ lock := by
  intro lock hmem howner hobject
  have hpassed := hfilled.mem_passed hmem
  obtain ⟨hcell, hvalid⟩ := hfilled.mem_iff.mp hmem
  simp only [tryLocking] at hadd
  split at hadd
  case isFalse hnone =>
    rw [hfilled.held_nil (by simpa using hnone)] at hmem
    simp at hmem
  case isTrue =>
    split at hadd
    case h_1 => cases hadd
    case h_2 hfull =>
      by_cases hobjectFull : lock.object = FULLTABLE
      · rw [hobjectFull] at hpassed
        exact (scanFulltable_none hfull lock hpassed hobjectFull howner.symm).symm
      · split at hadd
        case isTrue hrecord =>
          exact (scanAll_none hadd lock hcell hvalid hobjectFull howner.symm).symm
        case isFalse hrecord =>
          have hsame : lock.object = record := by
            rcases hobject with hsame | hfull | hfull
            · exact hsame.symm
            · exact absurd hfull hrecord
            · exact absurd hfull hobjectFull
          rw [hsame] at hpassed
          exact (scanRecord_none hadd lock hpassed hsame howner.symm).symm

private theorem nonempty_set {ind : Nat} {old new : LockCell}
    (hcell : table.locks[ind]? = some old) (hold : old.isEmpty = false)
    (hnew : new.isEmpty = false) :
    (table.locks.set ind new).countP (fun cell => !cell.isEmpty) =
      table.locks.countP (fun cell => !cell.isEmpty) :=
  Cells.countP_set_update hcell (by simpa using hold) (by simpa using hnew)

/-- A table that is not full of locks takes one more. -/
theorem insert {object owner : Nat} {locktype : LockType} (hfilled : table.Filled held)
    (hvalid : LockCell.isValid ⟨owner, locktype, object⟩ = true)
    (hroom : held.length < table.tableSize) :
    (table.insert object owner locktype).Filled (⟨owner, locktype, object⟩ :: held) ∧
      (table.insert object owner locktype).usedCells ≤ table.usedCells + 1 := by
  have hlength : (table.locks.filter lockScheme.isEntry).length < table.locks.length := by
    rw [← hfilled.entries.length_eq] at hroom
    exact hroom
  obtain ⟨old, hmem, hdead⟩ := List.length_filter_lt_length_iff_exists.mp hlength
  obtain ⟨ind, hslot⟩ := exists_slot (hash table.tableSize object) hmem (by simpa using hdead)
  obtain ⟨cell, hcell, hcellDead⟩ := slot_cases hslot
  have hnonempty := LockCell.isEmpty_of_isValid hvalid
  have hused := hfilled.used
  simp only [LockTable.insert, hslot, hcell, Option.any_some]
  refine ⟨⟨hfilled.placed.insert hvalid hslot,
    (Cells.filter_set_fill hcell hcellDead hvalid).trans (hfilled.entries.cons _),
    by simpa using hfilled.valid, ?_⟩, by split <;> omega⟩
  cases hcellEmpty : cell.isEmpty with
  | true =>
      have hcount : (table.locks.set ind ⟨owner, locktype, object⟩).countP
            (fun cell => !cell.isEmpty) =
          table.locks.countP (fun cell => !cell.isEmpty) + 1 :=
        Cells.countP_set_fill hcell (by simpa using hcellEmpty) (by simpa using hnonempty)
      simpa [hcount] using hused
  | false =>
      rw [nonempty_set hcell hcellEmpty hnonempty]
      simpa using hused

@[simp] theorem tableSize_insert (table : LockTable) (object owner : Nat)
    (locktype : LockType) : (table.insert object owner locktype).tableSize = table.tableSize := by
  simp only [LockTable.insert]
  split <;> simp [tableSize]

theorem empty (tableSize : Nat) :
    LockTable.Filled ⟨List.replicate tableSize LockCell.empty, 0, 0⟩ [] := by
  have hentry : ∀ cell ∈ List.replicate tableSize LockCell.empty,
      lockScheme.isEntry cell = false := by
    intro cell hmem
    rw [List.eq_of_mem_replicate hmem]
    rfl
  refine ⟨Scheme.Placed.of_no_entries hentry, ?_, le_refl _, ?_⟩
  · have hnone : lockScheme.entries (List.replicate tableSize LockCell.empty) = [] :=
      List.filter_eq_nil_iff.mpr fun cell hmem => by simp [hentry cell hmem]
    rw [hnone]
  · have hnone : (List.replicate tableSize LockCell.empty).countP
        (fun cell => !cell.isEmpty) = 0 := by
      refine List.countP_eq_zero.mpr fun cell hmem => ?_
      rw [List.eq_of_mem_replicate hmem]
      decide
    rw [hnone]

/-- The loop that moves the valid cells of the old table to the new one. -/
theorem rehash (cells : List LockCell) (hfilled : table.Filled held)
    (hroom : (cells.filter LockCell.isValid).length + held.length < table.tableSize) :
    let next := cells.foldl (fun new cell =>
      if cell.isValid then new.insert cell.object cell.owner cell.locktype else new) table
    next.Filled (cells.filter LockCell.isValid ++ held) ∧ next.tableSize = table.tableSize ∧
      next.usedCells ≤ table.usedCells + (cells.filter LockCell.isValid).length := by
  induction cells generalizing table held with
  | nil => exact ⟨hfilled, rfl, le_refl _⟩
  | cons cell cells ih =>
      simp only [List.foldl_cons, List.filter_cons] at hroom ⊢
      split
      case isTrue hvalid =>
        rw [if_pos hvalid, List.length_cons] at hroom
        obtain ⟨hinserted, hused⟩ := hfilled.insert hvalid (by omega)
        obtain ⟨hnext, hsize, hnextUsed⟩ := ih hinserted (by
          rw [List.length_cons, tableSize_insert]
          omega)
        refine ⟨hnext.perm List.perm_middle, by rw [hsize, tableSize_insert], ?_⟩
        rw [List.length_cons]
        omega
      case isFalse hvalid =>
        rw [if_neg hvalid] at hroom
        exact ih hfilled hroom

theorem resize {tableSizeIn : Nat} {memory : Bool} {next : LockTable}
    (hfilled : table.Filled held) (hroom : held.length < tableSizeIn)
    (hresize : table.resize tableSizeIn memory = some next) :
    next.Filled held ∧ next.tableSize = tableSizeIn ∧ next.usedCells ≤ held.length := by
  have hsize : (⟨List.replicate tableSizeIn LockCell.empty, 0, 0⟩ : LockTable).tableSize =
      tableSizeIn := List.length_replicate
  simp only [LockTable.resize] at hresize
  split at hresize
  case isTrue => cases hresize
  case isFalse =>
    split at hresize
    case isTrue =>
      obtain rfl := Option.some.inj hresize
      have hlength : (table.locks.filter LockCell.isValid).length = held.length :=
        hfilled.entries.length_eq
      obtain ⟨hnext, hnextSize, hused⟩ := (empty tableSizeIn).rehash table.locks
        (by rw [hsize, hlength]; exact hroom)
      rw [List.append_nil] at hnext
      refine ⟨hnext.perm hfilled.entries, hnextSize.trans hsize, ?_⟩
      rw [hlength] at hused
      simpa using hused
    case isFalse hnone =>
      obtain rfl := Option.some.inj hresize
      obtain rfl := hfilled.held_nil (by simpa [anyLock] using hnone)
      exact ⟨empty tableSizeIn, hsize, le_refl _⟩

theorem length_le_used (hfilled : table.Filled held) : held.length ≤ table.usedCells := by
  have hmono : table.locks.countP LockCell.isValid ≤
      table.locks.countP (fun cell => !cell.isEmpty) := by
    refine List.countP_mono_left fun cell _ hvalid => ?_
    simpa using LockCell.isEmpty_of_isValid hvalid
  have hlength : table.locks.countP LockCell.isValid = held.length := by
    rw [List.countP_eq_length_filter]
    exact hfilled.entries.length_eq
  exact hlength ▸ hmono.trans hfilled.used

private theorem filter_invalidated (selected : LockCell → Bool) (cells : List LockCell) :
    (cells.map fun cell =>
        if cell.isValid && selected cell then cell.invalidate else cell).filter
      LockCell.isValid = (cells.filter LockCell.isValid).filter fun cell => !selected cell := by
  induction cells with
  | nil => rfl
  | cons cell cells ih =>
      simp only [List.map_cons, List.filter_cons, ih]
      cases hvalid : cell.isValid <;> cases hselected : selected cell <;>
        simp [hvalid, hselected]

theorem invalidateAll (selected : LockCell → Bool) (hfilled : table.Filled held) :
    (table.invalidateAll selected).Filled (held.filter fun lock => !selected lock) where
  placed := by
    refine hfilled.placed.map (fun cell => ?_) fun cell hentry => ?_
    · show (if cell.isValid && selected cell then cell.invalidate else cell).isEmpty =
        cell.isEmpty
      split
      case isTrue hremoved =>
        have hvalid : cell.isValid = true := (Bool.and_eq_true_iff.mp hremoved).1
        rw [LockCell.isEmpty_invalidate, LockCell.isEmpty_of_isValid hvalid]
      case isFalse => rfl
    · change (if cell.isValid && selected cell then cell.invalidate else cell).isValid = true
        at hentry
      split at hentry
      case isTrue => cases hentry
      case isFalse hkept => rw [if_neg hkept]
  entries := by
    change (List.map _ _).filter LockCell.isValid ~ _
    rw [filter_invalidated]
    exact hfilled.entries.filter _
  valid := by
    have hsplit := List.length_eq_length_filter_add (l := held) selected
    have hcount : table.locks.countP (fun cell => cell.isValid && selected cell) =
        (held.filter selected).length := by
      rw [List.countP_eq_length_filter, ← (hfilled.entries.filter selected).length_eq]
      simp only [Scheme.entries, List.filter_filter, Bool.and_comm]
      rfl
    have hvalid := hfilled.valid
    simp only [LockTable.invalidateAll, hcount]
    omega
  used := by
    have hsame : (table.invalidateAll selected).locks.countP (fun cell => !cell.isEmpty) =
        table.locks.countP (fun cell => !cell.isEmpty) := by
      simp only [LockTable.invalidateAll, List.countP_map]
      refine List.countP_congr fun cell _ => ?_
      simp only [Function.comp_apply]
      split
      case isTrue hremoved =>
        have hvalid : cell.isValid = true := (Bool.and_eq_true_iff.mp hremoved).1
        rw [LockCell.isEmpty_invalidate, LockCell.isEmpty_of_isValid hvalid]
      case isFalse => rfl
    rw [hsame]
    exact hfilled.used

theorem mem_chain_cell {ind start : Nat} (hmem : ind ∈ lockScheme.chain table.locks start) :
    ∃ cell, table.locks[ind]? = some cell ∧ cell.isEmpty = false := by
  have hpasses : lockScheme.passes table.locks ind = true := List.mem_takeWhile_imp hmem
  obtain ⟨cell, hcell, hnonempty⟩ := (Option.any_eq_true _ _).mp hpasses
  exact ⟨cell, hcell, by simpa [lockScheme] using hnonempty⟩

/-- A cell that is found for removal is a lock of the client on the object. -/
theorem findLock_cell {owner record ind : Nat} {locktype : Option LockType}
    (hfind : table.findLock owner record locktype = some ind) :
    ∃ cell, table.locks[ind]? = some cell ∧ cell.isEmpty = false ∧
      removable owner record locktype cell = true := by
  simp only [findLock] at hfind
  split at hfind
  case isTrue =>
    obtain ⟨cell, hcell, hnonempty⟩ := mem_chain_cell (List.mem_of_find?_eq_some hfind)
    have hremovable := List.find?_some hfind
    simp only [hcell, Option.any_some] at hremovable
    exact ⟨cell, hcell, hnonempty, hremovable⟩
  case isFalse => cases hfind

theorem set_invalidate {ind : Nat} {cell : LockCell} (hfilled : table.Filled held)
    (hcell : table.locks[ind]? = some cell) (hvalid : cell.isValid = true) :
    LockTable.Filled
      { table with
        locks := table.locks.set ind cell.invalidate
        validCells := table.validCells - 1 } (held.erase cell) := by
  have hcleared := Cells.filter_set_clear hcell hvalid cell.isValid_invalidate
  have hmem : cell ∈ held := hfilled.mem_iff.mpr ⟨List.mem_of_getElem? hcell, hvalid⟩
  constructor
  · exact hfilled.placed.remove cell.isValid_invalidate cell.isEmpty_invalidate
  · have hboth := (hcleared.symm.trans hfilled.entries).trans (List.perm_cons_erase hmem)
    exact hboth.cons_inv
  · have hvalidCells := hfilled.valid
    rw [List.length_erase_of_mem hmem]
    simp only
    omega
  · have hused := hfilled.used
    simp only [nonempty_set hcell (LockCell.isEmpty_of_isValid hvalid)
      cell.isEmpty_invalidate]
    exact hused

theorem set_tmpwlock {ind : Nat} {cell : LockCell} (hfilled : table.Filled held)
    (hcell : table.locks[ind]? = some cell) (hvalid : cell.isValid = true) :
    LockTable.Filled
      { table with locks := table.locks.set ind { cell with locktype := .tmpwlock } }
      ({ cell with locktype := .tmpwlock } :: held.erase cell) := by
  have hnew : LockCell.isValid { cell with locktype := .tmpwlock } = true := hvalid
  have hupdated := Cells.filter_set_update hcell hvalid hnew
  have hmem : cell ∈ held := hfilled.mem_iff.mpr ⟨List.mem_of_getElem? hcell, hvalid⟩
  constructor
  · exact hfilled.placed.update hcell hvalid rfl (LockCell.isEmpty_of_isValid hnew)
  · have hheld := hfilled.entries.trans (List.perm_cons_erase hmem)
    exact (hupdated.trans ((hheld.cons _).trans (List.Perm.swap _ _ _))).cons_inv
  · have hvalidCells := hfilled.valid
    have hpos := List.length_pos_of_mem hmem
    rw [List.length_cons, List.length_erase_of_mem hmem]
    simp only
    omega
  · have hused := hfilled.used
    simp only [nonempty_set hcell (LockCell.isEmpty_of_isValid hvalid)
      (LockCell.isEmpty_of_isValid hnew)]
    exact hused

end LockTable.Filled

/-! Runs of the lock table. -/

def LockState.Isolated (state : LockState) : Prop :=
  ∀ lock ∈ state.held, ∀ other ∈ state.held, Compatible lock other

instance (state : LockState) : Decidable state.Isolated :=
  inferInstanceAs (Decidable (∀ lock ∈ state.held, ∀ other ∈ state.held, _))

/-- The numbers that mark cells are not locked, and the number of invalid cells
is not unlocked while the client's own invalid cells could be taken for it. -/
def LockOk (state : LockState) : LockOp → Prop
  | .recordLock _ _ record _ _ => record ≠ EMPTY_CELL ∧ record ≠ INVALID_CELL
  | .recordUnlock owner record locktype =>
      record = INVALID_CELL →
        ∀ cell ∈ state.table.locks, LockTable.removable owner record locktype cell = false
  | .removeMyTmplocks _ _ => True
  | .unlockUserTab _ => True

instance (state : LockState) : (op : LockOp) → Decidable (LockOk state op)
  | .recordLock _ _ _ _ _ => inferInstanceAs (Decidable (_ ∧ _))
  | .recordUnlock _ _ _ => inferInstanceAs (Decidable (_ → _))
  | .removeMyTmplocks _ _ => isTrue trivial
  | .unlockUserTab _ => isTrue trivial

/-- With `room` every search of a table meets an empty cell. -/
structure LockState.Sound (state : LockState) : Prop where
  filled : state.table.Filled state.held
  room : state.table.tableSize ≠ 0 → state.table.usedCells < state.table.tableSize
  isolated : state.Isolated

namespace LockState.Sound

variable {state : LockState}

theorem isolated_cons {lock : LockCell} (hsound : state.Sound)
    (hcompatible : ∀ other ∈ state.held, Compatible lock other) :
    ∀ first ∈ lock :: state.held, ∀ second ∈ lock :: state.held, Compatible first second := by
  intro first hfirst second hsecond
  rcases List.mem_cons.mp hfirst with rfl | hfirstHeld
  · rcases List.mem_cons.mp hsecond with rfl | hsecondHeld
    · exact fun howner => absurd rfl howner
    · exact hcompatible second hsecondHeld
  · rcases List.mem_cons.mp hsecond with rfl | hsecondHeld
    · exact (hcompatible first hfirstHeld).symm
    · exact hsound.isolated first hfirstHeld second hsecondHeld

theorem isolated_of_subset {held : List LockCell} (hsound : state.Sound)
    (hsubset : held ⊆ state.held) :
    ∀ lock ∈ held, ∀ other ∈ held, Compatible lock other :=
  fun lock hlock other hother =>
    hsound.isolated lock (hsubset hlock) other (hsubset hother)

theorem length_lt_bigger (hsound : state.Sound) :
    state.held.length + 1 < state.table.biggerTableSize := by
  have hheld := hsound.filled.length_le_used
  simp only [LockTable.biggerTableSize]
  split
  case isTrue hsize =>
    have hroom := hsound.room hsize
    omega
  case isFalse hsize =>
    have hentries := hsound.filled.entries.length_eq
    have hle := List.length_filter_le lockScheme.isEntry state.table.locks
    simp only [LockTable.tableSize, not_not] at hsize
    simp only [Scheme.entries] at hentries
    simp only [INITIAL_SIZE]
    omega

theorem added {owner record : Nat} {tabOrObj : Bool} {locktype : LockType} {memory : Bool}
    {table : LockTable} (hsound : state.Sound)
    (hvalid : LockCell.isValid ⟨owner, locktype, record⟩ = true)
    (hverdict : state.table.tryLocking owner tabOrObj record locktype = none)
    (hadd : state.table.addLock owner tabOrObj record locktype memory = (.locked, table)) :
    LockState.Sound ⟨table, ⟨owner, locktype, record⟩ :: state.held⟩ := by
  have hisolated := hsound.isolated_cons (hsound.filled.compatible hverdict)
  have hheld := hsound.filled.length_le_used
  simp only [LockTable.addLock, hverdict] at hadd
  split at hadd
  case isTrue hspace =>
    simp only [LockTable.noSpaceForNewLock, Bool.not_eq_true', Bool.or_eq_false_iff,
      decide_eq_false_iff_not, ge_iff_le, not_le] at hspace
    obtain rfl := (Prod.mk.inj hadd).2
    obtain ⟨hfilled, hused⟩ := hsound.filled.insert hvalid (by omega)
    refine ⟨hfilled, fun _ => ?_, hisolated⟩
    simp only [LockTable.Filled.tableSize_insert]
    omega
  case isFalse =>
    split at hadd
    case h_1 => cases (Prod.mk.inj hadd).1
    case h_2 next hresize =>
      obtain rfl := (Prod.mk.inj hadd).2
      have hbigger := hsound.length_lt_bigger
      obtain ⟨hnext, hsize, hnextUsed⟩ := hsound.filled.resize (by omega) hresize
      obtain ⟨hfilled, hused⟩ := hnext.insert hvalid (by omega)
      refine ⟨hfilled, fun _ => ?_, hisolated⟩
      simp only [LockTable.Filled.tableSize_insert]
      omega

theorem addLock_other {owner record : Nat} {tabOrObj : Bool} {locktype : LockType}
    {memory : Bool} {result : LockTable.LockResult} {table : LockTable}
    (hadd : state.table.addLock owner tabOrObj record locktype memory = (result, table))
    (hother : ¬ (result = .locked ∧
      state.table.tryLocking owner tabOrObj record locktype = none)) :
    table = state.table := by
  simp only [LockTable.addLock] at hadd
  split at hadd
  case h_1 => exact (Prod.mk.inj hadd).2.symm
  case h_2 => exact (Prod.mk.inj hadd).2.symm
  case h_3 hverdict =>
    split at hadd
    case isTrue => exact absurd ⟨(Prod.mk.inj hadd).1.symm, hverdict⟩ hother
    case isFalse =>
      split at hadd
      case h_1 => exact (Prod.mk.inj hadd).2.symm
      case h_2 => exact absurd ⟨(Prod.mk.inj hadd).1.symm, hverdict⟩ hother

theorem recordLock {owner record : Nat} {tabOrObj : Bool} {locktype : LockType}
    {memory : Bool} (hsound : state.Sound)
    (hok : LockOk state (.recordLock owner tabOrObj record locktype memory)) :
    (lockStep state (.recordLock owner tabOrObj record locktype memory)).Sound := by
  have hvalid : LockCell.isValid ⟨owner, locktype, record⟩ = true := by
    simpa [LockCell.isValid] using hok.symm
  cases hadd : state.table.addLock owner tabOrObj record locktype memory with
  | mk result table =>
      simp only [lockStep, hadd]
      split
      case isTrue hadded =>
        obtain ⟨rfl, hverdict⟩ := hadded
        exact hsound.added hvalid hverdict hadd
      case isFalse hother =>
        obtain rfl := addLock_other hadd hother
        exact hsound

/-- Only a lock of the client is removed. -/
theorem found_valid {owner record ind : Nat} {locktype : Option LockType}
    (hok : LockOk state (.recordUnlock owner record locktype))
    (hfind : state.table.findLock owner record locktype = some ind) :
    ∃ cell, state.table.locks[ind]? = some cell ∧ cell.isValid = true ∧
      ∀ type ∈ locktype, cell.locktype = type := by
  obtain ⟨cell, hcell, hnonempty, hremovable⟩ := LockTable.Filled.findLock_cell hfind
  have hobject : cell.object ≠ INVALID_CELL := by
    intro hinvalid
    have hrecord : record = INVALID_CELL := by
      simp only [LockTable.removable, Bool.and_eq_true, beq_iff_eq] at hremovable
      rw [← hremovable.1.1, hinvalid]
    have hnone := hok hrecord cell (List.mem_of_getElem? hcell)
    rw [hremovable] at hnone
    cases hnone
  refine ⟨cell, hcell, ?_, fun type htype => ?_⟩
  · have hnotEmpty : cell.object ≠ EMPTY_CELL := by simpa [LockCell.isEmpty] using hnonempty
    simp [LockCell.isValid, hobject, hnotEmpty]
  · simp only [Option.mem_def] at htype
    have hmatches : (cell.object = record ∧ cell.owner = owner) ∧ cell.locktype = type := by
      simpa [LockTable.removable, htype] using hremovable
    exact hmatches.2

/-- A temporary write lock is in nobody's way that the write lock was not in. -/
theorem compatible_tmpwlock {lock other : LockCell} (hlock : lock.locktype = .wlock)
    (hcompatible : Compatible lock other) :
    Compatible { lock with locktype := .tmpwlock } other := by
  intro howner hobject
  have hread := (hcompatible howner hobject).1
  rw [hlock] at hread
  cases hread

theorem recordUnlock {owner record : Nat} {locktype : Option LockType}
    (hsound : state.Sound) (hok : LockOk state (.recordUnlock owner record locktype)) :
    (lockStep state (.recordUnlock owner record locktype)).Sound := by
  simp only [lockStep, LockTable.removeLock]
  cases hfind : state.table.findLock owner record locktype with
  | none => exact hsound
  | some ind =>
      obtain ⟨cell, hcell, hvalid, htype⟩ := found_valid hok hfind
      have hind : ind < state.table.locks.length := (List.getElem?_eq_some_iff.mp hcell).1
      have hsubset : state.held.erase cell ⊆ state.held := List.erase_subset
      simp only [Option.bind_some, hcell, List.modify_eq_set_getElem?]
      split
      case isTrue =>
        refine ⟨hsound.filled.set_invalidate hcell hvalid, ?_,
          hsound.isolated_of_subset hsubset⟩
        simpa [LockTable.tableSize] using hsound.room
      case isFalse hwlock =>
        have hcellType : cell.locktype = .wlock := htype _ (not_not.mp hwlock)
        have hmem : cell ∈ state.held :=
          hsound.filled.mem_iff.mpr ⟨List.mem_of_getElem? hcell, hvalid⟩
        refine ⟨hsound.filled.set_tmpwlock hcell hvalid, ?_, ?_⟩
        · simpa [LockTable.tableSize] using hsound.room
        · have hcompatible := hsound.isolated_cons fun other hother =>
            compatible_tmpwlock hcellType (hsound.isolated cell hmem other hother)
          intro first hfirst second hsecond
          exact hcompatible first (List.cons_subset_cons _ hsubset hfirst) second
            (List.cons_subset_cons _ hsubset hsecond)

theorem invalidateAll (hsound : state.Sound) (selected : LockCell → Bool) :
    LockState.Sound ⟨state.table.invalidateAll selected,
      state.held.filter fun lock => !selected lock⟩ where
  filled := hsound.filled.invalidateAll selected
  room := by simpa [LockTable.invalidateAll, LockTable.tableSize] using hsound.room
  isolated := hsound.isolated_of_subset fun _ hmem => List.mem_of_mem_filter hmem

/-- A table whose counter is zero holds no lock. -/
theorem filter_of_none (hsound : state.Sound) (selected : LockCell → Bool)
    (hnone : state.table.anyLock = false) :
    LockState.Sound ⟨state.table, state.held.filter fun lock => !selected lock⟩ := by
  have hheld := hsound.filled.held_nil hnone
  have hfilled := hsound.filled
  rw [hheld] at hfilled
  simp only [hheld, List.filter_nil]
  exact ⟨hfilled, hsound.room, by simp [Isolated]⟩

theorem removeMyTmplocks {owner : Nat} {memory : Bool} (hsound : state.Sound) :
    (lockStep state (.removeMyTmplocks owner memory)).Sound := by
  simp only [lockStep, LockTable.removeMyTmplocks]
  split
  case isFalse hnone => exact hsound.filter_of_none _ (by simpa using hnone)
  case isTrue =>
    have hremoved := hsound.invalidateAll fun cell =>
      cell.owner == owner && cell.locktype.isTemporary
    split
    case isFalse => exact hremoved
    case isTrue hfew =>
      cases hresize : (state.table.invalidateAll fun cell =>
          cell.owner == owner && cell.locktype.isTemporary).resize INITIAL_SIZE memory with
      | none => exact hremoved
      | some next =>
          have hvalid := hremoved.filled.valid
          simp only [LockTable.isAlmostEmpty, Bool.and_eq_true, decide_eq_true_eq] at hfew
          simp only at hvalid
          have hshort : (state.held.filter fun lock =>
              !(lock.owner == owner && lock.locktype.isTemporary)).length < INITIAL_SIZE := by
            simp only [INITIAL_SIZE]
            omega
          obtain ⟨hfilled, hsize, hused⟩ := hremoved.filled.resize hshort hresize
          exact ⟨hfilled, fun _ => lt_of_le_of_lt hused (hsize ▸ hshort), hremoved.isolated⟩

theorem step {op : LockOp} (hsound : state.Sound) (hok : LockOk state op) :
    (lockStep state op).Sound := by
  cases op with
  | recordLock owner tabOrObj record locktype memory => exact hsound.recordLock hok
  | recordUnlock owner record locktype => exact hsound.recordUnlock hok
  | removeMyTmplocks owner memory => exact hsound.removeMyTmplocks
  | unlockUserTab owner =>
      simp only [lockStep, LockTable.unlockUserTab]
      split
      case isTrue => exact hsound.invalidateAll _
      case isFalse hnone => exact hsound.filter_of_none _ (by simpa using hnone)

end LockState.Sound

theorem locks_isolated {state : LockState} {ops : List LockOp} (hsound : state.Sound)
    (hmeets : Run.Meets lockStep LockOk state ops) :
    Run.Always lockStep LockState.Isolated state ops :=
  Run.always_of_invariant LockState.Sound (fun _ hsound => hsound.isolated)
    (fun _ _ hsound hok => hsound.step hok) hsound hmeets

def LockState.empty : LockState := ⟨⟨[], 0, 0⟩, []⟩

theorem LockState.sound_empty : LockState.empty.Sound where
  filled := LockTable.Filled.empty 0
  room := fun hsize => absurd rfl hsize
  isolated := by simp [Isolated, empty]

theorem locks_isolated_empty :
    Run.Always lockStep LockState.Isolated LockState.empty
      [.recordLock 1 false 0 .wlock true, .recordLock 1 false 5 .rlock true,
        .recordUnlock 1 0 (some .wlock), .recordUnlock 1 5 (some .rlock),
        .recordLock 2 false 0 .wlock true, .removeMyTmplocks 1 true,
        .recordLock 2 false FULLTABLE .tmprlock true, .unlockUserTab 2] :=
  locks_isolated LockState.sound_empty (by decide)

/-- The client takes its own invalid cell for a lock on the record that has the
reserved number. The counter of valid cells becomes zero, and the next client is
not told about the write lock that is still there. -/
theorem recordUnlock_invalid_cell :
    ¬ Run.Always lockStep LockState.Isolated LockState.empty
      [.recordLock 1 false 0 .wlock true, .recordLock 1 false 5 .rlock true,
        .recordUnlock 1 5 (some .rlock), .recordUnlock 1 INVALID_CELL (some .rlock),
        .recordLock 2 false 0 .wlock true] := by
  decide

end Sql602.Lock
