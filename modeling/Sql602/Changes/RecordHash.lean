import Mathlib.Algebra.Group.Nat.Defs
import Mathlib.Algebra.Group.Int.Defs
import Sql602.Library.Probing
import Sql602.Convert.Integers
import Mathlib.Data.Finset.Basic
import Sql602.Library.Cells

namespace Sql602.Changes

open Probing
open Sql602.Convert (sig32)

/-! The hashed set of the records that a transaction has changed in a table. -/

def MINIMAL_HTABLE_SIZE : Nat := 4

def NORECNUM : Nat := 2 ^ 32 - 1

def INVALID_HASHED_RECNUM : Nat := 2 ^ 32 - 2

def isHashed (rec : Nat) : Bool := rec != NORECNUM && rec != INVALID_HASHED_RECNUM

/-- `htable` is the allocated table or the minimal one, its length is `tablesize`. -/
structure RecordHash where
  contains : Int
  limitsize : Int
  htable : List Nat
  deriving DecidableEq

/-- No memory for a bigger table, or a loop that has gone round the table and will not end. -/
inductive HashFailure where
  | noMemory
  | endless
  deriving DecidableEq

def hashf (tablesize rec : Nat) : Nat := rec % tablesize

/-- The place where the search for an insertion stops. -/
inductive Place where
  | empty (ind : Nat)
  | invalid (ind : Nat)
  | contained
  deriving DecidableEq

namespace RecordHash

def stopInserting (htable : List Nat) (rec ind : Nat) : Option Place :=
  let cell := htable.getD ind NORECNUM
  if cell = NORECNUM then some (.empty ind)
  else if cell = INVALID_HASHED_RECNUM then some (.invalid ind)
  else if cell = rec then some .contained
  else none

def insertPlace (htable : List Nat) (rec : Nat) : Option Place :=
  walk htable.length (stopInserting htable rec) htable.length (hashf htable.length rec)

def stopMoving (htable : List Nat) (ind : Nat) : Option Nat :=
  if htable.getD ind NORECNUM = NORECNUM then some ind else none

/-- The records of the old table go to the new one, duplicities included. -/
def moveRecords : List Nat → List Nat → Int → Option (List Nat × Int)
  | [], newHtable, newContains => some (newHtable, newContains)
  | rec :: rest, newHtable, newContains =>
      if rec ≠ NORECNUM ∧ rec ≠ INVALID_HASHED_RECNUM then
        (walk newHtable.length (stopMoving newHtable) newHtable.length
          (hashf newHtable.length rec)).bind fun nind =>
            moveRecords rest (newHtable.set nind rec) (newContains + 1)
      else moveRecords rest newHtable newContains

/-- The table does not keep the values it has before `reinit`, but `contains` does. -/
def reinit (hash : RecordHash) : RecordHash :=
  { hash with
    limitsize := MINIMAL_HTABLE_SIZE - 1
    htable := List.replicate MINIMAL_HTABLE_SIZE NORECNUM }

/-- `contains` is what the memory of the element holds. -/
def init (contains : Int) : RecordHash := reinit ⟨contains, 0, []⟩

section Memory

-- tells whether `corealloc` finds a block of the size
variable (available : Nat → Bool)

def growTable (hash : RecordHash) : Except HashFailure RecordHash :=
  let newTablesize := sig32 (3 * hash.htable.length)
  if available ((newTablesize * 4) % 2 ^ 64).toNat then
    match moveRecords hash.htable (List.replicate newTablesize.toNat NORECNUM) 0 with
    | none => .error .endless
    | some (newHtable, newContains) =>
        .ok ⟨newContains, (sig32 (newTablesize * 4)).tdiv 5, newHtable⟩
  else .error .noMemory

/-- The turns of the outer loop, which goes on only when the table has grown. -/
def insertTurns : Nat → RecordHash → Nat → Except HashFailure RecordHash
  | 0, _, _ => .error .endless
  | turns + 1, hash, rec =>
      match insertPlace hash.htable rec with
      | none => .error .endless
      | some .contained => .ok hash
      | some (.invalid ind) => .ok { hash with htable := hash.htable.set ind rec }
      | some (.empty ind) =>
          if hash.limitsize ≤ hash.contains then
            (growTable available hash).bind fun hash => insertTurns turns hash rec
          else
            .ok { hash with htable := hash.htable.set ind rec, contains := hash.contains + 1 }

/-- Two turns are run; that they are enough is a part of what `endless` excludes. -/
def insertRecord (hash : RecordHash) (rec : Nat) : Except HashFailure RecordHash :=
  insertTurns available 2 hash rec

def eraseAt (rec : Nat) (htable : List Nat) (ind : Nat) : List Nat :=
  if htable.getD ind NORECNUM = rec then htable.set ind INVALID_HASHED_RECNUM else htable

def removeLoop (rec : Nat) : Nat → Nat → List Nat → Option (List Nat)
  | 0, _, _ => none
  | fuel + 1, ind, htable =>
      if htable.getD ind NORECNUM = NORECNUM then some htable
      else
        removeLoop rec fuel (if htable.length ≤ ind + 1 then 0 else ind + 1)
          (eraseAt rec htable ind)

def removeRecord (hash : RecordHash) (rec : Nat) : Except HashFailure RecordHash :=
  match removeLoop rec hash.htable.length (hashf hash.htable.length rec) hash.htable with
  | none => .error .endless
  | some htable => .ok { hash with htable }

/-- What `get_next` passes to its callers, who skip the two reserved numbers. -/
def records (hash : RecordHash) : List Nat := hash.htable.filter isHashed

inductive Op where
  | insert (rec : Nat)
  | remove (rec : Nat)
  | reinit
  deriving DecidableEq

/-- The record numbers have 32 bits, two of them are reserved. -/
def Op.Valid : Op → Prop
  | insert rec | remove rec => rec < 2 ^ 32 - 2
  | reinit => True

def step (hash : RecordHash) : Op → Except HashFailure RecordHash
  | .insert rec => insertRecord available hash rec
  | .remove rec => removeRecord hash rec
  | .reinit => .ok hash.reinit

def run (hash : RecordHash) (ops : List Op) : Except HashFailure RecordHash :=
  ops.foldlM (step available) hash

end Memory

/-- What the operations mean for the set of changed records. -/
def changedBy (changed : Finset Nat) : Op → Finset Nat
  | .insert rec => insert rec changed
  | .remove rec => changed.erase rec
  | .reinit => ∅

def changed (ops : List Op) : Finset Nat := ops.foldl changedBy ∅

end RecordHash

end Sql602.Changes

namespace Sql602.Changes

open Probing
open Sql602.Convert (sig32)
open scoped List

/-! What the searches, the growth and the removal do with the cells. -/

def recordScheme : Scheme Nat where
  isEmpty cell := cell == NORECNUM
  isEntry := isHashed
  home := hashf
  nonempty_of_entry := by
    intro cell hentry
    simp only [isHashed, Bool.and_eq_true, bne_iff_ne] at hentry
    exact beq_false_of_ne hentry.1

namespace RecordHash

def used (htable : List Nat) : Nat := htable.countP (· != NORECNUM)

section Cells

variable {htable : List Nat} {rec ind cell : Nat}

theorem isHashed_iff : isHashed rec = true ↔ rec ≠ NORECNUM ∧ rec ≠ INVALID_HASHED_RECNUM := by
  simp only [isHashed, Bool.and_eq_true, bne_iff_ne]

theorem cell_eq (hind : ind < htable.length) :
    htable[ind]? = some (htable.getD ind NORECNUM) := by
  rw [List.getD_eq_getElem?_getD, List.getElem?_eq_getElem hind]
  rfl

/-- Without an empty cell all the cells are used. -/
theorem exists_empty (hused : used htable < htable.length) : NORECNUM ∈ htable := by
  by_contra hnone
  have hall : used htable = htable.length := by
    rw [used, List.countP_eq_length]
    exact fun cell hcell => bne_iff_ne.mpr fun heq => hnone (heq ▸ hcell)
  omega

theorem mem_set_free {old : Nat} (hcell : htable[ind]? = some old) (hold : isHashed old = false)
    {x : Nat} (hx : isHashed x = true) : x ∈ htable.set ind rec ↔ x = rec ∨ x ∈ htable := by
  obtain ⟨hind, hget⟩ := List.getElem?_eq_some_iff.mp hcell
  constructor
  · intro hmem
    obtain heq | hin := List.mem_or_eq_of_mem_set hmem |>.symm
    · exact .inl heq
    · exact .inr hin
  · rintro (rfl | hmem)
    · exact List.mem_set hind x
    · obtain ⟨j, hj, rfl⟩ := List.getElem_of_mem hmem
      by_cases heq : ind = j
      · subst heq
        rw [hget, hold] at hx
        cases hx
      · have hkept : (htable.set ind rec)[j]? = some htable[j] := by
          rw [List.getElem?_set_ne heq, List.getElem?_eq_getElem hj]
        exact List.mem_of_getElem? hkept

end Cells

/-! The places that the searches find. -/

section Searches

variable {htable : List Nat} {rec ind : Nat}

theorem stopInserting_none (hind : ind < htable.length)
    (hgoes : stopInserting htable rec ind = none) :
    recordScheme.vacant htable ind = false := by
  rw [Scheme.vacant, cell_eq hind]
  unfold stopInserting at hgoes
  dsimp only at hgoes
  split at hgoes
  · cases hgoes
  split at hgoes
  · cases hgoes
  have hentry : isHashed (htable.getD ind NORECNUM) = true := isHashed_iff.mpr ⟨‹_›, ‹_›⟩
  exact Bool.not_eq_eq_eq_not.mpr hentry

/-- The search of an insertion ends at the record or at the first cell that holds none. -/
theorem insertPlace_spec (rec : Nat) (hempty : NORECNUM ∈ htable) :
    (insertPlace htable rec = some .contained ∧ rec ∈ htable) ∨
    (∃ ind, insertPlace htable rec = some (.invalid ind) ∧
      htable[ind]? = some INVALID_HASHED_RECNUM ∧
      recordScheme.slot htable (hashf htable.length rec) = some ind) ∨
    (∃ ind, insertPlace htable rec = some (.empty ind) ∧ htable[ind]? = some NORECNUM ∧
      recordScheme.slot htable (hashf htable.length rec) = some ind) := by
  have hsize := List.length_pos_of_mem hempty
  have hwalk : insertPlace htable rec =
      (order htable.length (hashf htable.length rec)).findSome? (stopInserting htable rec) :=
    walk_eq (Nat.mod_lt _ hsize)
  cases hplace : insertPlace htable rec with
  | none =>
      rw [hplace] at hwalk
      obtain ⟨j, hj, hget⟩ := List.getElem_of_mem hempty
      have hgoes := List.findSome?_eq_none_iff.mp hwalk.symm j (mem_order.mpr hj)
      rw [stopInserting, List.getD_eq_getElem?_getD, List.getElem?_eq_getElem hj, hget] at hgoes
      cases hgoes
  | some place =>
      rw [hplace] at hwalk
      obtain ⟨passed, stop, rest, horder, hstop, hpassed⟩ :=
        List.findSome?_eq_some_iff.mp hwalk.symm
      have hinside : ∀ k ∈ passed ++ stop :: rest, k < htable.length := by
        intro k hk
        rw [← horder, mem_order] at hk
        exact hk
      have hlt := hinside stop (List.mem_append_right _ List.mem_cons_self)
      have hbefore : ∀ k ∈ passed, recordScheme.vacant htable k = false := fun k hk =>
        stopInserting_none (hinside k (List.mem_append_left _ hk)) (hpassed k hk)
      have hslot : isHashed (htable.getD stop NORECNUM) = false →
          recordScheme.slot htable (hashf htable.length rec) = some stop := by
        intro hfree
        refine List.find?_eq_some_iff_append.mpr ⟨?_, passed, rest, horder, ?_⟩
        · rw [Scheme.vacant, cell_eq hlt]
          exact congrArg (!·) hfree
        · exact fun k hk => congrArg (!·) (hbefore k hk)
      have hcell := cell_eq hlt
      unfold stopInserting at hstop
      dsimp only at hstop
      split at hstop
      case isTrue hnone =>
        cases hstop
        rw [hnone] at hslot hcell
        exact .inr (.inr ⟨stop, rfl, hcell, hslot rfl⟩)
      split at hstop
      case isTrue hinvalid =>
        cases hstop
        rw [hinvalid] at hslot hcell
        exact .inr (.inl ⟨stop, rfl, hcell, hslot rfl⟩)
      split at hstop
      case isTrue hsame =>
        cases hstop
        rw [hsame] at hcell
        exact .inl ⟨rfl, List.mem_of_getElem? hcell⟩
      case isFalse => cases hstop

/-- The search of a growth ends at the first empty cell. -/
theorem stopMoving_spec (rec : Nat) (hempty : NORECNUM ∈ htable) :
    ∃ ind, walk htable.length (stopMoving htable) htable.length (hashf htable.length rec) =
        some ind ∧ htable[ind]? = some NORECNUM ∧
      (order htable.length (hashf htable.length rec)).find?
        (fun k => (htable[k]?).any recordScheme.isEmpty) = some ind := by
  have hsize := List.length_pos_of_mem hempty
  have hwalk : walk htable.length (stopMoving htable) htable.length (hashf htable.length rec) =
      (order htable.length (hashf htable.length rec)).findSome? (stopMoving htable) :=
    walk_eq (Nat.mod_lt _ hsize)
  rw [hwalk]
  have hstops : ∀ k < htable.length, stopMoving htable k =
      if (htable[k]?).any recordScheme.isEmpty then some k else none := by
    intro k hk
    rw [cell_eq hk, stopMoving]
    by_cases hnone : htable.getD k NORECNUM = NORECNUM
    · rw [if_pos hnone, hnone]
      rfl
    · rw [if_neg hnone, if_neg]
      exact fun hsame => hnone (eq_of_beq hsame)
  obtain ⟨j, hj, hget⟩ := List.getElem_of_mem hempty
  have hfound : ((order htable.length (hashf htable.length rec)).find?
      fun k => (htable[k]?).any recordScheme.isEmpty).isSome := by
    rw [List.find?_isSome]
    refine ⟨j, mem_order.mpr hj, ?_⟩
    rw [List.getElem?_eq_getElem hj, hget]
    rfl
  obtain ⟨ind, hind⟩ := Option.isSome_iff_exists.mp hfound
  obtain ⟨hstop, passed, rest, horder, hpassed⟩ := List.find?_eq_some_iff_append.mp hind
  have hinside : ∀ k ∈ passed ++ ind :: rest, k < htable.length := by
    intro k hk
    rw [← horder, mem_order] at hk
    exact hk
  have hlt := hinside ind (List.mem_append_right _ List.mem_cons_self)
  refine ⟨ind, List.findSome?_eq_some_iff.mpr ⟨passed, ind, rest, horder, ?_, ?_⟩, ?_, hind⟩
  · rw [hstops ind hlt, if_pos hstop]
  · intro k hk
    have hgoes := hpassed k hk
    rw [hstops k (hinside k (List.mem_append_left _ hk)), if_neg]
    rw [Bool.not_eq_true'] at hgoes
    exact Bool.eq_false_iff.mp hgoes
  · rw [cell_eq hlt] at hstop ⊢
    exact congrArg some (eq_of_beq hstop)

end Searches

section Growth

variable {newHtable : List Nat}

theorem used_set_empty {htable : List Nat} {rec ind : Nat} (hcell : htable[ind]? = some NORECNUM)
    (hrec : isHashed rec = true) : used (htable.set ind rec) = used htable + 1 :=
  Cells.countP_set_fill hcell rfl (bne_iff_ne.mpr (isHashed_iff.mp hrec).1)

/-- Every record of the old table gets a cell while there are enough of them. -/
theorem moveRecords_spec (old : List Nat) (newContains : Int)
    (hplaced : recordScheme.Placed newHtable)
    (hspace : used newHtable + old.countP isHashed < newHtable.length) :
    ∃ moved, moveRecords old newHtable newContains =
        some (moved, newContains + old.countP isHashed) ∧
      moved.length = newHtable.length ∧ recordScheme.Placed moved ∧
      used moved = used newHtable + old.countP isHashed ∧
      ∀ x, isHashed x = true → (x ∈ moved ↔ x ∈ newHtable ∨ x ∈ old) := by
  induction old generalizing newHtable newContains with
  | nil =>
      refine ⟨newHtable, ?_, rfl, hplaced, rfl, fun x _ => ?_⟩
      · rw [moveRecords, List.countP_nil, Int.natCast_zero, Int.add_zero]
      · simp only [List.not_mem_nil, or_false]
  | cons rec rest ih =>
      by_cases hrec : isHashed rec = true
      · rw [List.countP_cons_of_pos hrec] at hspace ⊢
        have hempty : NORECNUM ∈ newHtable := exists_empty (by omega)
        obtain ⟨nind, hwalk, hcell, hend⟩ := stopMoving_spec rec hempty
        have hchain : nind ∈ recordScheme.chain (newHtable.set nind rec) _ :=
          mem_chain_end (recordScheme.nonempty_of_entry rec hrec) hend
        have hused := used_set_empty hcell hrec
        have hlength : (newHtable.set nind rec).length = newHtable.length := List.length_set
        obtain ⟨moved, hmoved, hsize, hmovedPlaced, hmovedUsed, hmem⟩ :=
          ih (newContains + 1) (hplaced.write hrec hchain) (by omega)
        refine ⟨moved, ?_, hsize.trans hlength, hmovedPlaced, by omega, fun x hx => ?_⟩
        · rw [moveRecords, if_pos (isHashed_iff.mp hrec), hwalk, Option.bind_some, hmoved]
          congr 2
          omega
        · rw [hmem x hx, mem_set_free hcell rfl hx, List.mem_cons, or_assoc, or_left_comm]
      · rw [List.countP_cons_of_neg hrec] at hspace ⊢
        obtain ⟨moved, hmoved, hsize, hmovedPlaced, hmovedUsed, hmem⟩ :=
          ih newContains hplaced hspace
        refine ⟨moved, ?_, hsize, hmovedPlaced, hmovedUsed, fun x hx => ?_⟩
        · rw [moveRecords, if_neg (fun h => hrec (isHashed_iff.mpr h)), hmoved]
        · have hne : x ≠ rec := fun heq => hrec (heq ▸ hx)
          rw [hmem x hx, List.mem_cons, or_iff_right hne]

end Growth

/-! The removal of all the copies of a record. -/

section Removal

variable {htable : List Nat} {rec ind : Nat}

theorem eraseAt_length : (eraseAt rec htable ind).length = htable.length := by
  rw [eraseAt]
  split
  · exact List.length_set
  · rfl

theorem eraseAt_cell (hind : ind < htable.length) (j : Nat) :
    (eraseAt rec htable ind)[j]? =
      if j = ind ∧ htable[j]? = some rec then some INVALID_HASHED_RECNUM else htable[j]? := by
  rw [eraseAt]
  have hcell := cell_eq hind
  split
  case isTrue hsame =>
    by_cases heq : j = ind
    · subst heq
      rw [hsame] at hcell
      rw [if_pos ⟨rfl, hcell⟩, List.getElem?_set_self hind]
    · rw [if_neg (fun h => heq h.1), List.getElem?_set_ne (Ne.symm heq)]
  case isFalse hother =>
    rw [if_neg]
    rintro ⟨rfl, hrec⟩
    rw [hcell] at hrec
    exact hother (Option.some.inj hrec)

/-- A cell with a record becomes a cell that is still used. -/
theorem eraseAt_passes (hrec : isHashed rec = true) (hind : ind < htable.length) :
    recordScheme.passes (eraseAt rec htable ind) = recordScheme.passes htable := by
  funext j
  rw [Scheme.passes, Scheme.passes, eraseAt_cell hind]
  split
  case isTrue h =>
    rw [h.2]
    exact (congrArg (!·) (recordScheme.nonempty_of_entry rec hrec)).symm
  case isFalse => rfl

/-- The loop erases along the chain of the record. -/
theorem removeLoop_eq (hrec : isHashed rec = true) (start fuel d : Nat) {size : Nat}
    (hsize : 0 < size) (hlength : htable.length = size) :
    removeLoop rec fuel ((start + d) % size) htable =
      if ∀ e < fuel, recordScheme.passes htable ((start + (d + e)) % size) = true then none
      else some ((((List.range fuel).map fun e => (start + (d + e)) % size).takeWhile
        (recordScheme.passes htable)).foldl (eraseAt rec) htable) := by
  induction fuel generalizing d htable with
  | zero => rw [removeLoop, if_pos (fun e he => absurd he (Nat.not_lt_zero e))]
  | succ fuel ih =>
      have hlt : (start + d) % size < htable.length := by
        rw [hlength]
        exact Nat.mod_lt _ hsize
      have hshift : ((fun e => (start + (d + e)) % size) ∘ Nat.succ) =
          fun e => (start + (d + 1 + e)) % size := by
        funext e
        rw [Function.comp_apply, Nat.succ_eq_add_one, Nat.add_assoc, Nat.add_comm 1 e]
      have hpass : recordScheme.passes htable ((start + d) % size) =
          !(htable.getD ((start + d) % size) NORECNUM == NORECNUM) := by
        rw [Scheme.passes, cell_eq hlt]
        rfl
      rw [removeLoop]
      split
      case isTrue hnone =>
        rw [hnone] at hpass
        rw [if_neg, List.range_succ_eq_map, List.map_cons, Nat.add_zero,
          List.takeWhile_cons_of_neg]
        · rfl
        · rw [hpass]
          exact Bool.false_ne_true
        · intro hall
          have hfirst := hall 0 (Nat.succ_pos _)
          rw [Nat.add_zero, hpass] at hfirst
          cases hfirst
      case isFalse hused =>
        have hpassed : recordScheme.passes htable ((start + d) % size) = true := by
          rw [hpass, beq_false_of_ne hused]
          rfl
        rw [hlength, step_order hsize, ih _ (eraseAt_length.trans hlength), eraseAt_passes hrec hlt,
          List.range_succ_eq_map, List.map_cons, List.map_map, hshift, Nat.add_zero d,
          List.takeWhile_cons_of_pos hpassed, List.foldl_cons]
        have hiff : (∀ e < fuel, recordScheme.passes htable ((start + (d + 1 + e)) % size) = true) ↔
            ∀ e < fuel + 1, recordScheme.passes htable ((start + (d + e)) % size) = true := by
          constructor
          · intro hall e he
            cases e with
            | zero => exact hpassed
            | succ e =>
                have hnext := hall e (Nat.lt_of_succ_lt_succ he)
                rw [Nat.add_assoc, Nat.add_comm 1 e] at hnext
                exact hnext
          · intro hall e he
            rw [Nat.add_assoc, Nat.add_comm 1 e]
            exact hall (e + 1) (Nat.succ_lt_succ he)
        simp only [hiff]

theorem eraseAt_kept (hplaced : recordScheme.Placed htable) (hrec : isHashed rec = true)
    (hind : ind < htable.length) :
    recordScheme.Placed (eraseAt rec htable ind) ∧ used (eraseAt rec htable ind) = used htable := by
  rw [eraseAt]
  split
  case isTrue hsame =>
    have hcell := cell_eq hind
    rw [hsame] at hcell
    exact ⟨hplaced.remove rfl rfl,
      Cells.countP_set_update hcell (bne_iff_ne.mpr (isHashed_iff.mp hrec).1) rfl⟩
  case isFalse => exact ⟨hplaced, rfl⟩

theorem erase_kept (inds : List Nat) (hplaced : recordScheme.Placed htable)
    (hrec : isHashed rec = true) (hinds : ∀ ind ∈ inds, ind < htable.length) :
    recordScheme.Placed (inds.foldl (eraseAt rec) htable) ∧
    used (inds.foldl (eraseAt rec) htable) = used htable ∧
    (inds.foldl (eraseAt rec) htable).length = htable.length ∧
    ∀ j, (inds.foldl (eraseAt rec) htable)[j]? =
      if j ∈ inds ∧ htable[j]? = some rec then some INVALID_HASHED_RECNUM else htable[j]? := by
  induction inds generalizing htable with
  | nil =>
      refine ⟨hplaced, rfl, rfl, fun j => ?_⟩
      rw [if_neg (fun h => List.not_mem_nil h.1)]
      rfl
  | cons ind inds ih =>
      have hind := hinds ind List.mem_cons_self
      obtain ⟨hplacedNext, husedNext⟩ := eraseAt_kept hplaced hrec hind
      have hindsNext : ∀ k ∈ inds, k < (eraseAt rec htable ind).length := fun k hk => by
        rw [eraseAt_length]
        exact hinds k (List.mem_cons_of_mem _ hk)
      obtain ⟨hlast, husedLast, hlengthLast, hcells⟩ := ih hplacedNext hindsNext
      refine ⟨hlast, husedLast.trans husedNext, hlengthLast.trans eraseAt_length, fun j => ?_⟩
      have hinvalid : INVALID_HASHED_RECNUM ≠ rec := Ne.symm (isHashed_iff.mp hrec).2
      rw [List.foldl_cons, hcells j, eraseAt_cell hind]
      by_cases hhere : j = ind ∧ htable[j]? = some rec
      · obtain ⟨rfl, hcell⟩ := hhere
        simp [hcell, hinvalid]
      · have hiff : j ∈ ind :: inds ∧ htable[j]? = some rec ↔
            j ∈ inds ∧ htable[j]? = some rec := by
          rw [List.mem_cons]
          exact ⟨fun h => h.1.elim (fun heq => absurd ⟨heq, h.2⟩ hhere) fun hmem => ⟨hmem, h.2⟩,
            fun h => ⟨.inr h.1, h.2⟩⟩
        simp only [if_neg hhere, hiff]

/-- Every copy of the record lies on the chain along which it is erased. -/
theorem removeRecord_spec {hash : RecordHash} (hplaced : recordScheme.Placed hash.htable)
    (hempty : NORECNUM ∈ hash.htable) (hrec : isHashed rec = true) :
    ∃ htable, removeRecord hash rec = .ok { hash with htable } ∧
      htable.length = hash.htable.length ∧ recordScheme.Placed htable ∧
      used htable = used hash.htable ∧
      ∀ x, isHashed x = true → (x ∈ htable ↔ x ≠ rec ∧ x ∈ hash.htable) := by
  have hsize := List.length_pos_of_mem hempty
  have hhome : hashf hash.htable.length rec < hash.htable.length := Nat.mod_lt _ hsize
  have horder : order hash.htable.length (hashf hash.htable.length rec) =
      (List.range hash.htable.length).map fun e =>
        (hashf hash.htable.length rec + (0 + e)) % hash.htable.length := by
    simp only [order, Nat.zero_add]
  have hstops : ¬ ∀ e < hash.htable.length, recordScheme.passes hash.htable
      ((hashf hash.htable.length rec + (0 + e)) % hash.htable.length) = true := by
    intro hall
    obtain ⟨j, hj, hget⟩ := List.getElem_of_mem hempty
    have hmem : j ∈ order hash.htable.length (hashf hash.htable.length rec) := mem_order.mpr hj
    rw [horder, List.mem_map] at hmem
    obtain ⟨e, he, heq⟩ := hmem
    have hpass := hall e (List.mem_range.mp he)
    rw [heq, Scheme.passes, List.getElem?_eq_getElem hj, hget] at hpass
    cases hpass
  have hloop : removeLoop rec hash.htable.length _ hash.htable = _ :=
    removeLoop_eq hrec (hashf hash.htable.length rec) hash.htable.length 0 hsize rfl
  rw [if_neg hstops, Nat.add_zero, Nat.mod_eq_of_lt hhome, ← horder] at hloop
  obtain ⟨hlast, hused, hlength, hcells⟩ :=
    erase_kept (recordScheme.chain hash.htable (hashf hash.htable.length rec)) hplaced
      hrec fun ind hind => mem_order.mp ((List.takeWhile_prefix _).subset hind)
  refine ⟨_, ?_, hlength, hlast, hused, fun x hx => ?_⟩
  · rw [removeRecord, hloop]
    rfl
  · obtain ⟨hnone, hinvalid⟩ := isHashed_iff.mp hx
    constructor
    · intro hmem
      obtain ⟨j, hj, rfl⟩ := List.getElem_of_mem hmem
      have hcell := hcells j
      rw [List.getElem?_eq_getElem hj] at hcell
      split at hcell
      case isTrue => exact absurd (Option.some.inj hcell) hinvalid
      case isFalse hkept =>
        refine ⟨fun heq => hkept ?_, List.mem_of_getElem? hcell.symm⟩
        rw [heq] at hcell
        exact ⟨hplaced j rec hcell.symm hrec, hcell.symm⟩
    · rintro ⟨hne, hmem⟩
      obtain ⟨j, hj, rfl⟩ := List.getElem_of_mem hmem
      have hcell := hcells j
      have hget := List.getElem?_eq_getElem hj
      rw [if_neg (fun h => hne (Option.some.inj (hget.symm.trans h.2))), hget] at hcell
      exact List.mem_of_getElem? hcell

end Removal

end RecordHash

end Sql602.Changes
