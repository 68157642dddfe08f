import Sql602.Library.Cells
import Sql602.Library.Probing

namespace Sql602.TransLog

open Probing
open scoped List

/-! The hash table that grows. Removed items are marked as invalid. -/

/-- The key of an item tells whether the item is empty or invalid. -/
structure HashClass (ι κ : Type) where
  key : ι → κ
  hash : κ → Nat
  isEmpty : κ → Bool
  isInvalid : κ → Bool
  empty : ι
  isEmpty_empty : isEmpty (key empty) = true
  minSize : Nat
  minSize_pos : 0 < minSize

structure GenHash (ι : Type) where
  table : List ι
  contains : Nat
  limitsize : Nat
  deriving DecidableEq

variable {ι κ : Type}

namespace HashClass

variable (cls : HashClass ι κ)

def isEntry (key : κ) : Bool := !cls.isEmpty key && !cls.isInvalid key

def scheme : Scheme ι where
  isEmpty item := cls.isEmpty (cls.key item)
  isEntry item := cls.isEntry (cls.key item)
  home size item := cls.hash (cls.key item) % size
  nonempty_of_entry := by
    intro item hentry
    simp only [isEntry, Bool.and_eq_true, Bool.not_eq_true'] at hentry
    exact hentry.1

/-- The items that a pass through the table returns one after another. -/
def entries (table : List ι) : List ι := table.filter fun item => cls.isEntry (cls.key item)

def initial : GenHash ι where
  table := List.replicate cls.minSize cls.empty
  contains := 0
  limitsize := cls.minSize - 1

def isFull (info : GenHash ι) : Bool := info.contains == info.limitsize

variable {cls} {table : List ι} {info : GenHash ι} {key : κ} {item : ι} {i : Nat}

/-- The cell at the distance from the home cell is passed by the search. -/
def Passed (cls : HashClass ι κ) (table : List ι) (key : κ) (i : Nat) : Prop :=
  ∃ item, table[i]? = some item ∧ cls.key item ≠ key ∧ cls.isEmpty (cls.key item) = false

/-- The search has come to an empty cell, and has chosen a cell for the new item. -/
def Absent (cls : HashClass ι κ) (table : List ι) (key : κ) (i : Nat) : Prop :=
  ∃ d < table.length,
    (∀ e < d, cls.Passed table key ((cls.hash key + e) % table.length)) ∧
    (∃ item, table[(cls.hash key + d) % table.length]? = some item ∧
      cls.isEmpty (cls.key item) = true) ∧
    ∃ e ≤ d, i = (cls.hash key + e) % table.length ∧
      ∃ item, table[i]? = some item ∧ cls.isEntry (cls.key item) = false

def Found (cls : HashClass ι κ) (table : List ι) (key : κ) (i : Nat) : Prop :=
  ∃ item, table[i]? = some item ∧ cls.key item = key

theorem isEntry_of_isEmpty (hempty : cls.isEmpty key = true) : cls.isEntry key = false := by
  rw [isEntry, hempty]
  rfl

theorem isEntry_of_isInvalid (hinvalid : cls.isInvalid key = true) : cls.isEntry key = false := by
  rw [isEntry, hinvalid]
  exact Bool.and_false _

/-- Every item is reached by the search for its key, and no key is in two items. -/
structure Sound (cls : HashClass ι κ) (table : List ι) : Prop where
  placed : cls.scheme.Placed table
  distinct : ((cls.entries table).map cls.key).Nodup

theorem Passed.passes (hpassed : cls.Passed table key i) : cls.scheme.passes table i = true := by
  obtain ⟨item, hcell, -, hnonempty⟩ := hpassed
  rw [Scheme.passes, hcell]
  exact congrArg (!·) hnonempty

/-- A key that is not found is not in the table. -/
theorem Absent.not_mem (habsent : cls.Absent table key i) (hsound : cls.Sound table)
    (hentry : cls.isEntry key = true) : ∀ item ∈ table, cls.key item ≠ key := by
  obtain ⟨d, hd, hpassed, ⟨last, hlast, hends⟩, -⟩ := habsent
  intro item hmem hsame
  obtain ⟨j, hj, hget⟩ := List.getElem_of_mem hmem
  have hcell : table[j]? = some item := hget ▸ List.getElem?_eq_getElem hj
  have hchain := hsound.placed j item hcell (by rw [← hsame] at hentry; exact hentry)
  obtain ⟨e, he, rfl, hreached⟩ := mem_chain_iff.mp hchain
  have hhome : cls.scheme.home table.length item = cls.hash key % table.length := by
    rw [← hsame]
    rfl
  rw [hhome] at hcell hreached
  simp only [Nat.mod_add_mod] at hcell hreached
  rcases Nat.lt_or_ge e d with hbefore | hafter
  · obtain ⟨passed, hpassed, hother, -⟩ := hpassed e hbefore
    rw [hcell] at hpassed
    cases hpassed
    exact hother hsame
  · have hpasses := hreached d hafter
    rw [Scheme.passes, hlast] at hpasses
    have hnonempty : (!cls.isEmpty (cls.key last)) = true := hpasses
    rw [hends] at hnonempty
    cases hnonempty

/-- An item that is written to the chosen cell is reached by the search for its key. -/
theorem Absent.reached (habsent : cls.Absent table key i) {new : ι} (hkey : cls.key new = key)
    (hentry : cls.isEntry key = true) :
    i ∈ cls.scheme.chain (table.set i new) (cls.scheme.home table.length new) := by
  obtain ⟨d, hd, hpassed, -, e, he, rfl, old, hold, -⟩ := habsent
  subst hkey
  have hnonempty := cls.scheme.nonempty_of_entry new hentry
  obtain ⟨hlt, -⟩ := List.getElem?_eq_some_iff.mp hold
  rw [mem_chain_iff, List.length_set]
  refine ⟨e, Nat.lt_of_le_of_lt he hd, (Nat.mod_add_mod _ _ _).symm, fun k hk => ?_⟩
  have hhome : (cls.scheme.home table.length new + k) % table.length =
      (cls.hash (cls.key new) + k) % table.length := Nat.mod_add_mod _ _ _
  rw [hhome, Scheme.passes]
  by_cases hsame : (cls.hash (cls.key new) + e) % table.length =
      (cls.hash (cls.key new) + k) % table.length
  · rw [← hsame, List.getElem?_set_self hlt]
    exact congrArg (!·) hnonempty
  · rw [List.getElem?_set_ne hsame]
    have hbefore : k < d := by
      rcases Nat.lt_or_eq_of_le hk with hlt | rfl
      · exact Nat.lt_of_lt_of_le hlt he
      · exact absurd rfl hsame
    exact (hpassed k hbefore).passes

theorem mem_entries : item ∈ cls.entries table ↔ item ∈ table ∧ cls.isEntry (cls.key item) = true :=
  List.mem_filter

/-- The item is in the table, in the place of what had its key. -/
structure Registers (cls : HashClass ι κ) (table next : List ι) (item : ι) : Prop where
  sound : cls.Sound next
  entries : ∀ other, other ∈ cls.entries next ↔
    other = item ∨ other ∈ cls.entries table ∧ cls.key other ≠ cls.key item

/-- The item with the key is not in the table any more. -/
structure Removes (cls : HashClass ι κ) (table next : List ι) (key : κ) : Prop where
  sound : cls.Sound next
  entries : ∀ other, other ∈ cls.entries next ↔
    other ∈ cls.entries table ∧ cls.key other ≠ key

theorem Absent.registers (habsent : cls.Absent table (cls.key item) i) (hsound : cls.Sound table)
    (hentry : cls.isEntry (cls.key item) = true) :
    cls.Registers table (table.set i item) item := by
  obtain ⟨-, -, -, -, -, -, -, old, hold, hdead⟩ := id habsent
  have hperm : cls.entries (table.set i item) ~ item :: cls.entries table :=
    Cells.filter_set_fill hold hdead hentry
  have hothers : ∀ other ∈ cls.entries table, cls.key other ≠ cls.key item :=
    fun other hother => habsent.not_mem hsound hentry other (mem_entries.mp hother).1
  constructor
  case sound =>
    refine ⟨hsound.placed.write hentry (habsent.reached rfl hentry), ?_⟩
    rw [(hperm.map cls.key).nodup_iff, List.map_cons, List.nodup_cons]
    refine ⟨fun hmem => ?_, hsound.distinct⟩
    obtain ⟨other, hother, hsame⟩ := List.mem_map.mp hmem
    exact hothers other hother hsame
  case entries =>
    intro other
    rw [hperm.mem_iff, List.mem_cons]
    exact or_congr_right (and_iff_left_of_imp (hothers other)).symm

/-- The other items, when one of them is known. -/
theorem Sound.split (hsound : cls.Sound table) (hmem : item ∈ cls.entries table) :
    ∃ rest, cls.entries table ~ item :: rest ∧
      ∀ other, other ∈ rest ↔ other ∈ cls.entries table ∧ cls.key other ≠ cls.key item := by
  obtain ⟨before, after, hentries⟩ := List.append_of_mem hmem
  have hperm : cls.entries table ~ item :: (before ++ after) := hentries ▸ List.perm_middle
  have hdistinct := (hperm.map cls.key).nodup_iff.mp hsound.distinct
  rw [List.map_cons, List.nodup_cons] at hdistinct
  refine ⟨before ++ after, hperm, fun other => ?_⟩
  rw [hperm.mem_iff, List.mem_cons]
  constructor
  · intro hrest
    exact ⟨Or.inr hrest, fun hsame => hdistinct.1 (hsame ▸ List.mem_map_of_mem hrest)⟩
  · rintro ⟨rfl | hrest, hother⟩
    · exact absurd rfl hother
    · exact hrest

theorem registers_found {old : ι} (hcell : table[i]? = some old)
    (hsame : cls.key old = cls.key item) (hsound : cls.Sound table)
    (hentry : cls.isEntry (cls.key item) = true) :
    cls.Registers table (table.set i item) item := by
  have hlive : cls.isEntry (cls.key old) = true := hsame ▸ hentry
  obtain ⟨rest, hrest, hothers⟩ :=
    hsound.split (mem_entries.mpr ⟨List.mem_of_getElem? hcell, hlive⟩)
  have hperm : cls.entries (table.set i item) ~ item :: rest := by
    have hupdate : old :: cls.entries (table.set i item) ~ item :: cls.entries table :=
      Cells.filter_set_update hcell hlive hentry
    exact (hupdate.trans ((hrest.cons item).trans (List.Perm.swap old item rest))).cons_inv
  constructor
  case sound =>
    refine ⟨hsound.placed.update hcell hlive ?_ (cls.scheme.nonempty_of_entry item hentry), ?_⟩
    · exact congrArg (fun key => cls.hash key % table.length) hsame.symm
    · have hdistinct := (hrest.map cls.key).nodup_iff.mp hsound.distinct
      rw [List.map_cons, hsame] at hdistinct
      rw [(hperm.map cls.key).nodup_iff, List.map_cons]
      exact hdistinct
  case entries =>
    intro other
    rw [hperm.mem_iff, List.mem_cons, hothers, hsame]

theorem removes_found {old dead : ι} (hcell : table[i]? = some old)
    (hlive : cls.isEntry (cls.key old) = true) (hsound : cls.Sound table)
    (hdead : cls.isInvalid (cls.key dead) = true) (hfull : cls.isEmpty (cls.key dead) = false) :
    cls.Removes table (table.set i dead) (cls.key old) := by
  have hvacant := isEntry_of_isInvalid hdead
  obtain ⟨rest, hrest, hothers⟩ :=
    hsound.split (mem_entries.mpr ⟨List.mem_of_getElem? hcell, hlive⟩)
  have hperm : cls.entries (table.set i dead) ~ rest := by
    have hclear : cls.entries table ~ old :: cls.entries (table.set i dead) :=
      Cells.filter_set_clear hcell hlive hvacant
    exact (hclear.symm.trans hrest).cons_inv
  constructor
  case sound =>
    refine ⟨hsound.placed.remove hvacant hfull, ?_⟩
    have hdistinct := (hrest.map cls.key).nodup_iff.mp hsound.distinct
    rw [(hperm.map cls.key).nodup_iff]
    exact (List.nodup_cons.mp hdistinct).2
  case entries =>
    intro other
    rw [hperm.mem_iff, hothers]

/-- The number of the cells that are not empty. -/
def used (cls : HashClass ι κ) (table : List ι) : Nat :=
  table.countP fun item => !cls.isEmpty (cls.key item)

theorem room_of_used (hused : cls.used table < table.length) :
    ∃ item ∈ table, cls.isEmpty (cls.key item) = true := by
  apply Classical.byContradiction
  intro hnone
  have hall : cls.used table = table.length := by
    rw [used, List.countP_eq_length]
    intro item hmem
    rw [Bool.not_eq_true', ← Bool.not_eq_true]
    exact fun hends => hnone ⟨item, hmem, hends⟩
  exact absurd hused (Nat.not_lt_of_ge hall.ge)

theorem used_set_le : cls.used (table.set i item) ≤ cls.used table + 1 := by
  induction table generalizing i with
  | nil => exact Nat.zero_le _
  | cons first table ih =>
      cases i with
      | zero =>
          rw [List.set_cons_zero, used, used, List.countP_cons, List.countP_cons]
          split <;> split <;> omega
      | succ i =>
          have hrest := @ih i
          rw [used, used] at hrest
          rw [List.set_cons_succ, used, used, List.countP_cons, List.countP_cons]
          omega

theorem used_set_same {old : ι} (hcell : table[i]? = some old)
    (hold : cls.isEmpty (cls.key old) = false) (hnew : cls.isEmpty (cls.key item) = false) :
    cls.used (table.set i item) = cls.used table :=
  Cells.countP_set_update hcell (congrArg (!·) hold) (congrArg (!·) hnew)

theorem entries_le_used : (cls.entries table).length ≤ cls.used table := by
  rw [entries, ← List.countP_eq_length_filter, used]
  apply List.countP_mono_left
  intro item _ hentry
  exact (Bool.and_eq_true_iff.mp hentry).1

/-- The number of occupied cells never exceeds the counter, and the counter never reaches the
size of the table. -/
structure Valid (cls : HashClass ι κ) (info : GenHash ι) : Prop where
  sound : cls.Sound info.table
  counted : cls.used info.table ≤ info.contains
  limited : info.contains ≤ info.limitsize
  bound : info.limitsize < info.table.length

theorem Valid.room (hvalid : cls.Valid info) :
    ∃ item ∈ info.table, cls.isEmpty (cls.key item) = true :=
  room_of_used (Nat.lt_of_le_of_lt hvalid.counted
    (Nat.lt_of_le_of_lt hvalid.limited hvalid.bound))

theorem entries_replicate (n : Nat) : cls.entries (List.replicate n cls.empty) = [] := by
  rw [entries, List.filter_eq_nil_iff]
  intro item hmem
  rw [List.eq_of_mem_replicate hmem, isEntry_of_isEmpty cls.isEmpty_empty]
  exact Bool.false_ne_true

theorem used_replicate (n : Nat) : cls.used (List.replicate n cls.empty) = 0 := by
  rw [used, List.countP_eq_zero]
  intro item hmem
  rw [List.eq_of_mem_replicate hmem, cls.isEmpty_empty]
  exact Bool.false_ne_true

theorem sound_replicate (n : Nat) : cls.Sound (List.replicate n cls.empty) := by
  constructor
  case placed =>
    apply Scheme.Placed.of_no_entries
    intro item hmem
    rw [List.eq_of_mem_replicate hmem]
    exact isEntry_of_isEmpty cls.isEmpty_empty
  case distinct =>
    rw [entries_replicate]
    exact List.nodup_nil

theorem initial_valid : cls.Valid cls.initial where
  sound := sound_replicate _
  counted := Nat.le_of_eq (used_replicate _)
  limited := Nat.zero_le _
  bound := by
    rw [initial, List.length_replicate]
    exact Nat.sub_one_lt (Nat.ne_of_gt cls.minSize_pos)

/-! The operations. -/

variable [DecidableEq κ]

section Operations

variable (cls)

/-- The search from the cell `hs`; `inv` is the last invalid cell that it has passed. When no cell
of the table ends the search, the loop does not end. -/
def findLoop (table : List ι) (key : κ) : Nat → Nat → Option Nat → Option Nat
  | 0, _, _ => none
  | fuel + 1, hs, inv =>
      match table[hs]? with
      | none => none
      | some item =>
          let passed := if cls.isInvalid (cls.key item) then some hs else inv
          if cls.key item = key then some hs
          else if cls.isEmpty (cls.key item) then some (passed.getD hs)
          else findLoop table key fuel (if table.length ≤ hs + 1 then 0 else hs + 1) passed

/-- The found item or the space for the new one. -/
def find (table : List ι) (key : κ) : Option Nat :=
  cls.findLoop table key table.length (cls.hash key % table.length) none

def moveItem (table : List ι) (item : ι) : List ι :=
  if cls.isEntry (cls.key item) then
    match cls.find table (cls.key item) with
    | none => table
    | some i => table.set i item
  else table

def inflate (info : GenHash ι) : GenHash ι where
  table := info.table.foldl cls.moveItem (List.replicate (3 * info.table.length) cls.empty)
  contains := info.contains
  limitsize := 4 * (3 * info.table.length) / 5

/-- Writes a new item to the space that a search has found; a full table is inflated first, and
the space is searched again. -/
def inserting (info : GenHash ι) (itm : Nat) (item : ι) : GenHash ι :=
  let inflated := if isFull info then cls.inflate info else info
  let itm := if isFull info then (cls.find inflated.table (cls.key item)).getD itm else itm
  { inflated with
    table := inflated.table.set itm item
    contains := inflated.contains + 1 }

/-- The cell that a search returns, and the item in it when it has the key. -/
def located (info : GenHash ι) (key : κ) : Option (Nat × Option ι) :=
  (cls.find info.table key).map fun itm =>
    (itm, (info.table[itm]?).filter fun item => cls.key item = key)

end Operations

theorem findLoop_spec {d fuel : Nat} {inv : Option Nat} (hfuel : d + fuel = table.length)
    (hpassed : ∀ e < d, cls.Passed table key ((cls.hash key + e) % table.length))
    (hinv : ∀ j, inv = some j → ∃ e < d, j = (cls.hash key + e) % table.length ∧
      ∃ item, table[j]? = some item ∧ cls.isInvalid (cls.key item) = true)
    (hempty : ∃ item ∈ table, cls.isEmpty (cls.key item) = true) :
    ∃ i, cls.findLoop table key fuel ((cls.hash key + d) % table.length) inv = some i ∧
      (cls.Found table key i ∨ cls.Absent table key i) := by
  induction fuel generalizing d inv with
  | zero =>
      -- The search has passed all the cells, but one of them is empty.
      obtain ⟨item, hitem, hends⟩ := hempty
      obtain ⟨j, hj, rfl⟩ := List.getElem_of_mem hitem
      obtain ⟨e, he, rfl⟩ := List.mem_map.mp
        (mem_order.mpr hj : j ∈ order table.length (cls.hash key))
      obtain ⟨passed, hcell, -, hnonempty⟩ := hpassed e (by
        rw [Nat.add_zero] at hfuel
        exact hfuel ▸ List.mem_range.mp he)
      rw [List.getElem?_eq_getElem hj] at hcell
      cases hcell
      rw [hends] at hnonempty
      cases hnonempty
  | succ fuel ih =>
      have hpos : 0 < table.length := by omega
      have hlt : (cls.hash key + d) % table.length < table.length := Nat.mod_lt _ hpos
      have hcell := List.getElem?_eq_getElem hlt
      rw [findLoop, hcell]
      dsimp only
      generalize hitem : table[(cls.hash key + d) % table.length] = item at hcell
      by_cases hsame : cls.key item = key
      · rw [if_pos hsame]
        exact ⟨_, rfl, Or.inl ⟨item, hcell, hsame⟩⟩
      · rw [if_neg hsame]
        by_cases hends : cls.isEmpty (cls.key item) = true
        · rw [if_pos hends]
          refine ⟨_, rfl, Or.inr ⟨d, by omega, hpassed, ⟨item, hcell, hends⟩, ?_⟩⟩
          by_cases hinvalid : cls.isInvalid (cls.key item) = true
          · rw [if_pos hinvalid, Option.getD_some]
            exact ⟨d, Nat.le_refl d, rfl, item, hcell, isEntry_of_isInvalid hinvalid⟩
          · rw [if_neg hinvalid]
            cases inv with
            | none => exact ⟨d, Nat.le_refl d, rfl, item, hcell, isEntry_of_isEmpty hends⟩
            | some j =>
                obtain ⟨e, he, hj, dead, hdead, hdeadInvalid⟩ := hinv j rfl
                exact ⟨e, Nat.le_of_lt he, hj, dead, hdead, isEntry_of_isInvalid hdeadInvalid⟩
        · rw [if_neg hends]
          have hnext : (if table.length ≤ (cls.hash key + d) % table.length + 1 then 0
              else (cls.hash key + d) % table.length + 1) =
                (cls.hash key + (d + 1)) % table.length := by
            rw [← Nat.add_assoc, ← Nat.mod_add_mod (cls.hash key + d)]
            split
            case isTrue hwrap =>
              have hlast : (cls.hash key + d) % table.length + 1 = table.length :=
                Nat.le_antisymm (Nat.succ_le_of_lt hlt) hwrap
              rw [hlast, Nat.mod_self]
            case isFalse hstep => exact (Nat.mod_eq_of_lt (Nat.lt_of_not_le hstep)).symm
          rw [hnext]
          apply ih (by omega)
          · intro e he
            rcases Nat.lt_succ_iff_lt_or_eq.mp he with hbefore | rfl
            · exact hpassed e hbefore
            · exact ⟨item, hcell, hsame, eq_false_of_ne_true hends⟩
          · intro j hj
            split at hj
            case isTrue hinvalid =>
              cases hj
              exact ⟨d, Nat.lt_succ_self d, rfl, item, hcell, hinvalid⟩
            case isFalse =>
              obtain ⟨e, he, hplace⟩ := hinv j hj
              exact ⟨e, Nat.lt_succ_of_lt he, hplace⟩

theorem find_spec (hroom : ∃ item ∈ table, cls.isEmpty (cls.key item) = true) :
    ∃ i, cls.find table key = some i ∧ (cls.Found table key i ∨ cls.Absent table key i) := by
  have hspec := @findLoop_spec _ _ cls table key _ 0 table.length none (Nat.zero_add _)
    (fun e he => absurd he (Nat.not_lt_zero e)) (fun j hj => by cases hj) hroom
  rw [Nat.add_zero] at hspec
  exact hspec

/-- A search ends, and finds an item if and only if there is one with the key. -/
theorem located_spec (hvalid : cls.Valid info) (hentry : cls.isEntry key = true) :
    (∃ itm item, cls.located info key = some (itm, some item) ∧ info.table[itm]? = some item ∧
        cls.key item = key ∧ item ∈ cls.entries info.table) ∨
      ∃ itm, cls.located info key = some (itm, none) ∧ cls.Absent info.table key itm ∧
        ∀ item ∈ cls.entries info.table, cls.key item ≠ key := by
  obtain ⟨itm, hfind, hfound | habsent⟩ := @find_spec _ _ cls _ key _ hvalid.room
  · obtain ⟨item, hcell, hsame⟩ := hfound
    refine Or.inl ⟨itm, item, ?_, hcell, hsame, ?_⟩
    · rw [located, hfind, Option.map_some, hcell, Option.filter_some_pos]
      exact decide_eq_true hsame
    · exact mem_entries.mpr ⟨List.mem_of_getElem? hcell, hsame ▸ hentry⟩
  · have hothers := habsent.not_mem hvalid.sound hentry
    refine Or.inr ⟨itm, ?_, habsent, fun item hmem => hothers item (mem_entries.mp hmem).1⟩
    obtain ⟨-, -, -, -, -, -, -, old, hold, -⟩ := habsent
    rw [located, hfind, Option.map_some, hold, Option.filter_some_neg]
    exact decide_eq_false (hothers old (List.mem_of_getElem? hold))

/-- A moved item gets a cell of its own. -/
theorem moveItem_spec (hsound : cls.Sound table) (hused : cls.used table < table.length)
    (hentry : cls.isEntry (cls.key item) = true)
    (hnew : ∀ other ∈ cls.entries table, cls.key other ≠ cls.key item) :
    cls.Registers table (cls.moveItem table item) item ∧
      (cls.moveItem table item).length = table.length ∧
      cls.used (cls.moveItem table item) ≤ cls.used table + 1 := by
  obtain ⟨i, hfind, hfound | habsent⟩ := @find_spec _ _ cls table (cls.key item) _
    (room_of_used hused)
  · obtain ⟨other, hcell, hsame⟩ := hfound
    have hmem := mem_entries.mpr ⟨List.mem_of_getElem? hcell, hsame ▸ hentry⟩
    exact absurd hsame (hnew other hmem)
  · rw [moveItem, if_pos hentry, hfind]
    exact ⟨habsent.registers hsound hentry, List.length_set, used_set_le⟩

theorem moveItem_other (hother : ¬ cls.isEntry (cls.key item) = true) :
    cls.moveItem table item = table := by
  rw [moveItem, if_neg hother]

theorem moveItems_spec {items : List ι} (hsound : cls.Sound table)
    (hroom : cls.used table + (cls.entries items).length < table.length)
    (hdistinct : ((cls.entries items).map cls.key).Nodup)
    (hnew : ∀ item ∈ cls.entries items, ∀ other ∈ cls.entries table,
      cls.key other ≠ cls.key item) :
    let moved := items.foldl cls.moveItem table
    cls.Sound moved ∧ moved.length = table.length ∧
      cls.used moved ≤ cls.used table + (cls.entries items).length ∧
      ∀ other, other ∈ cls.entries moved ↔ other ∈ cls.entries table ∨ other ∈ cls.entries items := by
  induction items generalizing table with
  | nil =>
      refine ⟨hsound, rfl, Nat.le_refl _, fun other => ?_⟩
      exact (or_iff_left List.not_mem_nil).symm
  | cons item items ih =>
      rw [List.foldl_cons]
      by_cases hentry : cls.isEntry (cls.key item) = true
      · have hentries : cls.entries (item :: items) = item :: cls.entries items :=
          List.filter_cons_of_pos hentry
        rw [hentries] at hroom hdistinct hnew ⊢
        rw [List.length_cons] at hroom ⊢
        rw [List.map_cons, List.nodup_cons] at hdistinct
        obtain ⟨hregisters, hlength, hused⟩ := moveItem_spec hsound (by omega) hentry
          (hnew item List.mem_cons_self)
        have hnext : ∀ other ∈ cls.entries items, ∀ earlier ∈ cls.entries (cls.moveItem table item),
            cls.key earlier ≠ cls.key other := by
          intro other hother earlier hearlier hsame
          obtain rfl | ⟨hold, -⟩ := (hregisters.entries earlier).mp hearlier
          · exact hdistinct.1 (hsame ▸ List.mem_map_of_mem hother)
          · exact hnew other (List.mem_cons_of_mem _ hother) earlier hold hsame
        obtain ⟨hsound', hlength', hused', hentries'⟩ := ih hregisters.sound
          (by rw [hlength]; omega) hdistinct.2 hnext
        refine ⟨hsound', hlength'.trans hlength, by omega, fun other => ?_⟩
        rw [hentries' other, hregisters.entries other, List.mem_cons]
        constructor
        · rintro ((rfl | ⟨hold, -⟩) | hmem)
          · exact Or.inr (Or.inl rfl)
          · exact Or.inl hold
          · exact Or.inr (Or.inr hmem)
        · rintro (hold | rfl | hmem)
          · exact Or.inl (Or.inr ⟨hold, hnew item List.mem_cons_self other hold⟩)
          · exact Or.inl (Or.inl rfl)
          · exact Or.inr hmem
      · have hentries : cls.entries (item :: items) = cls.entries items :=
          List.filter_cons_of_neg hentry
        rw [hentries] at hroom hdistinct hnew ⊢
        rw [moveItem_other hentry]
        exact ih hsound hroom hdistinct hnew

theorem inflate_valid (hvalid : cls.Valid info) :
    cls.Valid (cls.inflate info) ∧ info.table.length ≤ (cls.inflate info).limitsize ∧
      ∀ item, item ∈ cls.entries (cls.inflate info).table ↔ item ∈ cls.entries info.table := by
  have hitems := @entries_le_used _ _ cls info.table
  have hcounted := hvalid.counted
  have hlimited := hvalid.limited
  have hbound := hvalid.bound
  obtain ⟨hsound, hlength, hused, hentries⟩ := @moveItems_spec _ _ cls
    (List.replicate (3 * info.table.length) cls.empty) _ info.table (sound_replicate _)
    (by rw [used_replicate, List.length_replicate]; omega) hvalid.sound.distinct
    (by
      intro item _ other hother
      rw [entries_replicate] at hother
      cases hother)
  rw [used_replicate, Nat.zero_add] at hused
  rw [List.length_replicate] at hlength
  refine ⟨⟨hsound, ?_, ?_, ?_⟩, ?_, fun item => ?_⟩
  · exact Nat.le_trans hused (Nat.le_trans hitems hcounted)
  · change info.contains ≤ 4 * (3 * info.table.length) / 5
    omega
  · change 4 * (3 * info.table.length) / 5 < (info.table.foldl cls.moveItem _).length
    omega
  · change info.table.length ≤ 4 * (3 * info.table.length) / 5
    omega
  · refine (hentries item).trans (or_iff_right ?_)
    rw [entries_replicate]
    exact List.not_mem_nil

/-- The item is inserted into the space that the search has found. -/
theorem inserting_valid {itm : Nat} (hvalid : cls.Valid info)
    (hentry : cls.isEntry (cls.key item) = true)
    (hspace : cls.Absent info.table (cls.key item) itm ∨
      ∃ old, info.table[itm]? = some old ∧ cls.key old = cls.key item) :
    cls.Valid (cls.inserting info itm item) ∧
      cls.Registers info.table (cls.inserting info itm item).table item := by
  have hset : ∀ {base : GenHash ι} {i : Nat}, cls.Valid base → base.contains < base.limitsize →
      cls.Absent base.table (cls.key item) i ∨
        (∃ old, base.table[i]? = some old ∧ cls.key old = cls.key item) →
      cls.Valid { base with table := base.table.set i item, contains := base.contains + 1 } ∧
        cls.Registers base.table (base.table.set i item) item := by
    intro base i hbase hless hplace
    have hregisters : cls.Registers base.table (base.table.set i item) item := by
      obtain habsent | ⟨old, hcell, hsame⟩ := hplace
      · exact habsent.registers hbase.sound hentry
      · exact registers_found hcell hsame hbase.sound hentry
    refine ⟨⟨hregisters.sound, ?_, hless, ?_⟩, hregisters⟩
    · exact Nat.le_trans used_set_le (Nat.succ_le_succ hbase.counted)
    · rw [List.length_set]
      exact hbase.bound
  rw [inserting]
  by_cases hfull : isFull info = true
  · rw [if_pos hfull, if_pos hfull]
    obtain ⟨hinflated, hlarger, hentries⟩ := inflate_valid hvalid
    obtain ⟨i, hfind, hplace⟩ := @find_spec _ _ cls _ (cls.key item) _ hinflated.room
    rw [hfind, Option.getD_some]
    have hless : (cls.inflate info).contains < (cls.inflate info).limitsize := by
      have hlimited := hvalid.limited
      have hbound := hvalid.bound
      change info.contains < _
      omega
    obtain ⟨hresult, hregisters⟩ := hset hinflated hless hplace.symm
    refine ⟨hresult, hregisters.sound, fun other => ?_⟩
    rw [hregisters.entries other, hentries other]
  · rw [if_neg hfull, if_neg hfull]
    have hless : info.contains < info.limitsize := by
      rw [isFull, beq_iff_eq] at hfull
      exact Nat.lt_of_le_of_ne hvalid.limited hfull
    exact hset hvalid hless hspace

end HashClass

end Sql602.TransLog
