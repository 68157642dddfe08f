import Mathlib.Algebra.Group.Nat.Defs
import Mathlib.Logic.Function.Basic
import Sql602.Library.Run
import Sql602.TransLog.GenHash

namespace Sql602.TransLog

/-! The pages of an index that a transaction has allocated, updated, freed or made private. -/

structure IndPage where
  updated : Bool
  allocated : Bool
  freed : Bool
  priv : Bool
  deriving DecidableEq

namespace IndPage

def none : IndPage := ⟨false, false, false, false⟩

def allocatedUpdated : IndPage := ⟨true, true, false, false⟩

def onlyUpdated : IndPage := ⟨true, false, false, false⟩

def onlyFreed : IndPage := ⟨false, false, true, false⟩

def setUpdated (oper : IndPage) : IndPage := { oper with updated := true }

def setPrivate (oper : IndPage) : IndPage := { oper with priv := true }

/-- Private copies of such pages become invalid, changed or not. -/
def touched (oper : IndPage) : Bool := oper.updated || oper.priv || oper.freed

end IndPage

structure IndexItem where
  block : Nat
  oper : IndPage
  deriving DecidableEq

def INVALID_BLOCK : Nat := 2 ^ 32 - 1

def iuadClass : HashClass IndexItem Nat where
  key := IndexItem.block
  hash := id
  isEmpty block := block == 0
  isInvalid block := block == INVALID_BLOCK
  empty := ⟨0, .none⟩
  isEmpty_empty := rfl
  minSize := 7
  minSize_pos := by decide

abbrev PageInfo := GenHash IndexItem

def writeItem (info : PageInfo) (itm : Nat) (item : IndexItem) : PageInfo :=
  { info with table := info.table.set itm item }

/-- A page that is registered as freed cannot be allocated. -/
def pageAllocated (info : PageInfo) (page : Nat) : PageInfo :=
  match iuadClass.located info page with
  | some (itm, some item) =>
      if item.oper.freed then writeItem info itm ⟨page, .onlyUpdated⟩
      else iuadClass.inserting info itm ⟨page, .allocatedUpdated⟩
  | some (itm, none) => iuadClass.inserting info itm ⟨page, .allocatedUpdated⟩
  | none => info

/-- True for a page that has been allocated in the transaction: it is released immediately. -/
def pageFreed (info : PageInfo) (page : Nat) : Bool × PageInfo :=
  match iuadClass.located info page with
  | some (itm, some item) =>
      if item.oper.allocated then (true, writeItem info itm { item with block := INVALID_BLOCK })
      else (false, writeItem info itm ⟨page, .onlyFreed⟩)
  | some (itm, none) => (false, iuadClass.inserting info itm ⟨page, .onlyFreed⟩)
  | none => (false, info)

/-- Adds an operation to the item of the page, or inserts an item with it. -/
def pageMarked (mark : IndPage → IndPage) (info : PageInfo) (page : Nat) : PageInfo :=
  match iuadClass.located info page with
  | some (itm, some item) => writeItem info itm ⟨page, mark item.oper⟩
  | some (itm, none) => iuadClass.inserting info itm ⟨page, mark .none⟩
  | none => info

def pageUpdated : PageInfo → Nat → PageInfo := pageMarked IndPage.setUpdated

def pagePrivate : PageInfo → Nat → PageInfo := pageMarked IndPage.setPrivate

inductive PageEvent where
  | written (page : Nat)
  | invalidated (page : Nat)
  | released (page : Nat)
  deriving DecidableEq

def items (info : PageInfo) : List IndexItem := iuadClass.entries info.table

/-- The blocks of the items that pass the test. -/
def blocks (test : IndPage → Bool) (info : PageInfo) : List Nat :=
  ((items info).filter fun item => test item.oper).map IndexItem.block

def wrChanges (info : PageInfo) : List PageEvent :=
  (blocks IndPage.updated info).map PageEvent.written

def removeChangesAndRollbackAllocs (info : PageInfo) : List PageEvent :=
  (items info).flatMap fun item =>
    (if item.oper.touched then [PageEvent.invalidated item.block] else []) ++
      if item.oper.allocated then [PageEvent.released item.block] else []

def commitAllocs (info : PageInfo) : List PageEvent :=
  (blocks IndPage.freed info).map PageEvent.released

/-! What the table says about a page. -/

section Tables

variable {info : PageInfo} {known : Nat → Option IndPage} {page : Nat} {oper : IndPage}

/-- Neither empty nor invalid. -/
def IsPage (page : Nat) : Prop := 0 < page ∧ page < INVALID_BLOCK

/-- The table has exactly the known pages. -/
structure Agrees (info : PageInfo) (known : Nat → Option IndPage) : Prop where
  valid : iuadClass.Valid info
  items : ∀ item, item ∈ items info ↔ known item.block = some item.oper

/-- The search ends, and finds the page if and only if it is known. -/
def SearchRight (info : PageInfo) (known : Nat → Option IndPage) (page : Nat) : Prop :=
  ∃ itm found, iuadClass.located info page = some (itm, found) ∧
    found.map IndexItem.oper = known page

theorem isEntry_of_isPage (hpage : IsPage page) : iuadClass.isEntry page = true := by
  rw [HashClass.isEntry, Bool.and_eq_true, Bool.not_eq_true', Bool.not_eq_true']
  exact ⟨beq_false_of_ne (Nat.ne_of_gt hpage.1), beq_false_of_ne (Nat.ne_of_lt hpage.2)⟩

theorem initial_agrees : Agrees iuadClass.initial fun _ => none where
  valid := HashClass.initial_valid
  items item := by
    refine iff_of_false ?_ (Option.some_ne_none _).symm
    rw [items, HashClass.initial, HashClass.entries_replicate]
    exact List.not_mem_nil

/-- The two ways in which a search ends. -/
theorem Agrees.located (hagrees : Agrees info known) (hpage : IsPage page) :
    (∃ itm item, iuadClass.located info page = some (itm, some item) ∧
        info.table[itm]? = some item ∧ item.block = page ∧ known page = some item.oper) ∨
      ∃ itm, iuadClass.located info page = some (itm, none) ∧
        iuadClass.Absent info.table page itm ∧ known page = none := by
  obtain ⟨itm, item, hlocated, hcell, hsame, hmem⟩ | ⟨itm, hlocated, habsent, hothers⟩ :=
    HashClass.located_spec hagrees.valid (isEntry_of_isPage hpage)
  · have hblock : item.block = page := hsame
    refine Or.inl ⟨itm, item, hlocated, hcell, hblock, ?_⟩
    rw [← hblock]
    exact (hagrees.items item).mp hmem
  · refine Or.inr ⟨itm, hlocated, habsent, ?_⟩
    cases hknown : known page with
    | none => rfl
    | some oper => exact absurd rfl (hothers ⟨page, oper⟩ ((hagrees.items ⟨page, oper⟩).mpr hknown))

theorem Agrees.searchRight (hagrees : Agrees info known) (hpage : IsPage page) :
    SearchRight info known page := by
  obtain ⟨itm, item, hlocated, -, -, hknown⟩ | ⟨itm, hlocated, -, hknown⟩ := hagrees.located hpage
  · exact ⟨itm, some item, hlocated, hknown.symm⟩
  · exact ⟨itm, none, hlocated, hknown.symm⟩

theorem Agrees.registers {next : PageInfo} (hagrees : Agrees info known)
    (hvalid : iuadClass.Valid next)
    (hregisters : iuadClass.Registers info.table next.table ⟨page, oper⟩) :
    Agrees next (Function.update known page (some oper)) := by
  refine ⟨hvalid, fun item => ?_⟩
  refine (hregisters.entries item).trans ?_
  by_cases hsame : item.block = page
  · rw [hsame, Function.update_self, Option.some.injEq]
    constructor
    · rintro (rfl | ⟨-, hother⟩)
      · rfl
      · exact absurd hsame hother
    · rintro rfl
      exact Or.inl (by rw [← hsame])
  · rw [Function.update_of_ne hsame, ← hagrees.items item]
    constructor
    · rintro (rfl | ⟨hmem, -⟩)
      · exact absurd rfl hsame
      · exact hmem
    · exact fun hmem => Or.inr ⟨hmem, hsame⟩

/-- The item of a page is written over. -/
theorem Agrees.writeItem {itm : Nat} {old : IndexItem} (hagrees : Agrees info known)
    (hpage : IsPage page) (hcell : info.table[itm]? = some old) (hsame : old.block = page) :
    Agrees (writeItem info itm ⟨page, oper⟩) (Function.update known page (some oper)) := by
  have hentry := isEntry_of_isPage hpage
  have hregisters := HashClass.registers_found hcell (show iuadClass.key old =
    iuadClass.key ⟨page, oper⟩ from hsame) hagrees.valid.sound hentry
  refine hagrees.registers ⟨hregisters.sound, ?_, hagrees.valid.limited, ?_⟩ hregisters
  · have hlive : iuadClass.isEntry old.block = true := by
      rw [hsame]
      exact hentry
    have hold := iuadClass.scheme.nonempty_of_entry old hlive
    have hused := @HashClass.used_set_same _ _ iuadClass _ ⟨page, oper⟩ _ old hcell hold
      (iuadClass.scheme.nonempty_of_entry _ hentry)
    exact hused.trans_le hagrees.valid.counted
  · exact (@List.length_set _ info.table itm ⟨page, oper⟩).symm ▸ hagrees.valid.bound

theorem Agrees.inserting {itm : Nat} (hagrees : Agrees info known) (hpage : IsPage page)
    (habsent : iuadClass.Absent info.table page itm) :
    Agrees (iuadClass.inserting info itm ⟨page, oper⟩)
      (Function.update known page (some oper)) := by
  obtain ⟨hvalid, hregisters⟩ := @HashClass.inserting_valid _ _ iuadClass info ⟨page, oper⟩ _ itm
    hagrees.valid (isEntry_of_isPage hpage) (Or.inl habsent)
  exact hagrees.registers hvalid hregisters

/-- The item of a page is marked as invalid. -/
theorem Agrees.invalidate {itm : Nat} {old : IndexItem} (hagrees : Agrees info known)
    (hpage : IsPage page) (hcell : info.table[itm]? = some old) (hsame : old.block = page) :
    Agrees (TransLog.writeItem info itm { old with block := INVALID_BLOCK })
      (Function.update known page none) := by
  have hentry : iuadClass.isEntry old.block = true := by
    rw [hsame]
    exact isEntry_of_isPage hpage
  have hremoves := @HashClass.removes_found _ _ iuadClass _ itm old
    { old with block := INVALID_BLOCK } hcell hentry hagrees.valid.sound rfl rfl
  refine ⟨⟨hremoves.sound, ?_, hagrees.valid.limited, ?_⟩, fun item => ?_⟩
  · have hused := @HashClass.used_set_same _ _ iuadClass _ { old with block := INVALID_BLOCK } _ old
      hcell (iuadClass.scheme.nonempty_of_entry old hentry) rfl
    exact hused.trans_le hagrees.valid.counted
  · exact (@List.length_set _ info.table itm { old with block := INVALID_BLOCK }).symm ▸
      hagrees.valid.bound
  · refine (hremoves.entries item).trans ?_
    by_cases hblock : item.block = page
    · rw [hblock, Function.update_self]
      exact iff_of_false (fun h => h.2 (hblock.trans hsame.symm)) (Option.some_ne_none _).symm
    · rw [Function.update_of_ne hblock, ← hagrees.items item]
      exact and_iff_left fun h => hblock (h.trans hsame)

theorem pageAllocated_agrees (hagrees : Agrees info known) (hpage : IsPage page)
    (hnew : known page = none) :
    Agrees (pageAllocated info page)
      (Function.update known page (some .allocatedUpdated)) := by
  obtain ⟨itm, item, -, -, -, hknown⟩ | ⟨itm, hlocated, habsent, -⟩ := hagrees.located hpage
  · rw [hnew] at hknown
    cases hknown
  · rw [pageAllocated, hlocated]
    exact hagrees.inserting hpage habsent

theorem pageMarked_agrees (mark : IndPage → IndPage) (hagrees : Agrees info known)
    (hpage : IsPage page) : Agrees (pageMarked mark info page)
      (Function.update known page (some (mark ((known page).getD .none)))) := by
  obtain ⟨itm, item, hlocated, hcell, hsame, hknown⟩ | ⟨itm, hlocated, habsent, hknown⟩ :=
    hagrees.located hpage
  · rw [pageMarked, hlocated, hknown]
    exact hagrees.writeItem hpage hcell hsame
  · rw [pageMarked, hlocated, hknown]
    exact hagrees.inserting hpage habsent

/-- What is known of a page after it has been freed. -/
def afterFree (known : Option IndPage) : Option IndPage :=
  if (known.getD .none).allocated then none else some .onlyFreed

theorem pageFreed_agrees (hagrees : Agrees info known) (hpage : IsPage page) :
    (pageFreed info page).1 = ((known page).getD .none).allocated ∧
      Agrees (pageFreed info page).2 (Function.update known page (afterFree (known page))) := by
  obtain ⟨itm, item, hlocated, hcell, hsame, hknown⟩ | ⟨itm, hlocated, habsent, hknown⟩ :=
    hagrees.located hpage
  · rw [pageFreed, hlocated, hknown, afterFree, Option.getD_some]
    dsimp only
    split
    case isTrue hown => exact ⟨hown.symm, hagrees.invalidate hpage hcell hsame⟩
    case isFalse hother =>
      exact ⟨(eq_false_of_ne_true hother).symm, hagrees.writeItem hpage hcell hsame⟩
  · rw [pageFreed, hlocated, hknown]
    exact ⟨rfl, hagrees.inserting hpage habsent⟩

end Tables

end Sql602.TransLog
