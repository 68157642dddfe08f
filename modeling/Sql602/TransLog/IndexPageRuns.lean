import Mathlib.Data.List.Count
import Mathlib.Data.List.Nodup
import Sql602.TransLog.IndexPages

namespace Sql602.TransLog

open scoped List

/-! The index pages of a transaction. -/

structure IndexUad where
  root : Nat
  invalid : Bool
  info : PageInfo
  deriving DecidableEq

def findIndexUad (uads : List IndexUad) (root : Nat) : Option IndexUad :=
  uads.find? fun uad => uad.root == root

def getUiad (uads : List IndexUad) (root : Nat) : List IndexUad :=
  if (findIndexUad uads root).isSome then uads else ⟨root, false, iuadClass.initial⟩ :: uads

/-- The table of the index, empty when there is none. -/
def infoOf (uads : List IndexUad) (root : Nat) : PageInfo :=
  ((findIndexUad uads root).map IndexUad.info).getD iuadClass.initial

def changeUad (uads : List IndexUad) (root : Nat) (change : IndexUad → IndexUad) :
    List IndexUad :=
  uads.map fun uad => if uad.root = root then change uad else uad

def changeInfo (uads : List IndexUad) (root : Nat) (info : PageInfo) : List IndexUad :=
  changeUad (getUiad uads root) root fun uad => { uad with info := info }

def indexPageAllocated (uads : List IndexUad) (root page : Nat) : List IndexUad :=
  changeInfo uads root (pageAllocated (infoOf uads root) page)

def indexPageFreed (uads : List IndexUad) (root page : Nat) : Bool × List IndexUad :=
  let freed := pageFreed (infoOf uads root) page
  (freed.1, changeInfo uads root freed.2)

def indexPageUpdated (uads : List IndexUad) (root page : Nat) : List IndexUad :=
  changeInfo uads root (pageUpdated (infoOf uads root) page)

def indexPagePrivate (uads : List IndexUad) (root page : Nat) : List IndexUad :=
  changeInfo uads root (pagePrivate (infoOf uads root) page)

/-- What has been done with pages is in `events`. -/
structure IndexTrans where
  uads : List IndexUad
  events : List PageEvent
  deriving DecidableEq

/-- `bl` is the block that the disk space management has given. -/
def allocIndexBlock (trans : IndexTrans) (root bl : Nat) : IndexTrans :=
  { trans with uads := indexPageAllocated trans.uads root bl }

def freeIndexBlock (trans : IndexTrans) (root dadr : Nat) : IndexTrans :=
  let freed := indexPageFreed trans.uads root dadr
  { uads := freed.2
    events := trans.events ++ if freed.1 then [.released dadr] else [] }

def isRegistered (info : PageInfo) (page : Nat) : Bool :=
  (iuadClass.located info page).any fun found => found.2.isSome

/-- Another client commits changes of pages of the index. -/
def conflicts (uads : List IndexUad) (root : Nat) (changed : List Nat) : Bool :=
  (findIndexUad uads root).any fun uad => !uad.invalid && changed.any (isRegistered uad.info)

def makeConflictingInvalid (trans : IndexTrans) (root : Nat) (changed : List Nat) : IndexTrans :=
  if conflicts trans.uads root changed then
    { uads := changeUad trans.uads root fun uad =>
        { uad with invalid := true, info := iuadClass.initial }
      events := trans.events ++ removeChangesAndRollbackAllocs (infoOf trans.uads root) }
  else trans

/-- The changes are made again by the operations that follow. -/
def updatePrivateChanges (trans : IndexTrans) (root : Nat) : IndexTrans :=
  { trans with uads := changeUad trans.uads root fun uad => { uad with invalid := false } }

def commitEvents (uads : List IndexUad) : List PageEvent :=
  (uads.flatMap fun uad => wrChanges uad.info) ++ uads.flatMap fun uad => commitAllocs uad.info

def rollbackEvents (uads : List IndexUad) : List PageEvent :=
  uads.flatMap fun uad => removeChangesAndRollbackAllocs uad.info

inductive PageOp where
  | allocIndexBlock (root bl : Nat)
  | indexPagePrivate (root page : Nat)
  | indexPageChanged (root page : Nat)
  | freeIndexBlock (root dadr : Nat)
  | makeConflictingInvalid (root : Nat) (changed : List Nat)
  | updatePrivateChanges (root : Nat)
  deriving DecidableEq

abbrev KnownPages := Nat → Nat → Option IndPage

def learn (known : KnownPages) (root page : Nat) (state : Option IndPage) : KnownPages :=
  Function.update known root (Function.update (known root) page state)

/-- The page is registered for some index, and the test holds of its operations. -/
def Knows (known : KnownPages) (test : IndPage → Bool) (page : Nat) : Prop :=
  ∃ root oper, known root page = some oper ∧ test oper = true

/-- The page belongs to the index: it has not been removed from it, and it is not a page of another
index. -/
structure InIndex (known : KnownPages) (root page : Nat) : Prop where
  isPage : IsPage page
  stays : ∀ oper, known root page = some oper → oper.freed = false
  others : ∀ other, other ≠ root → known other page = none

/-- A transaction together with what is known of its pages: `created` are the pages that it has
allocated, `givenUp` those that do not belong to the indexes any more. -/
structure Session where
  trans : IndexTrans
  known : KnownPages
  created : List Nat
  givenUp : List Nat

namespace Session

def start : Session := ⟨⟨[], []⟩, fun _ _ => none, [], []⟩

/-- What marking adds to what is known. -/
def marked (mark : IndPage → IndPage) (known : Option IndPage) : Option IndPage :=
  some (mark (known.getD .none))

def step (s : Session) : PageOp → Session
  | .allocIndexBlock root bl =>
      { s with
        trans := TransLog.allocIndexBlock s.trans root bl
        known := learn s.known root bl (some .allocatedUpdated)
        created := bl :: s.created }
  | .indexPagePrivate root page =>
      { s with
        trans := { s.trans with uads := TransLog.indexPagePrivate s.trans.uads root page }
        known := learn s.known root page (marked IndPage.setPrivate (s.known root page)) }
  | .indexPageChanged root page =>
      { s with
        trans := { s.trans with uads := indexPageUpdated s.trans.uads root page }
        known := learn s.known root page (marked IndPage.setUpdated (s.known root page)) }
  | .freeIndexBlock root dadr =>
      { s with
        trans := TransLog.freeIndexBlock s.trans root dadr
        known := learn s.known root dadr (afterFree (s.known root dadr))
        givenUp := dadr :: s.givenUp }
  | .makeConflictingInvalid root changed =>
      if conflicts s.trans.uads root changed then
        let info := infoOf s.trans.uads root
        { s with
          trans := TransLog.makeConflictingInvalid s.trans root changed
          known := Function.update s.known root fun _ => none
          givenUp := blocks IndPage.allocated info ++
            s.givenUp.diff (blocks IndPage.freed info) }
      else s
  | .updatePrivateChanges root =>
      { s with trans := TransLog.updatePrivateChanges s.trans root }

/-- The callers work with pages of the index only; an allocated block is not in use. -/
def OpOk (s : Session) : PageOp → Prop
  | .allocIndexBlock _ bl => IsPage bl ∧ ∀ root, s.known root bl = none
  | .indexPagePrivate root page => InIndex s.known root page
  | .indexPageChanged root page => InIndex s.known root page
  | .freeIndexBlock root dadr => InIndex s.known root dadr
  | .makeConflictingInvalid _ changed => ∀ page ∈ changed, IsPage page
  | .updatePrivateChanges _ => True

end Session

def OnceWhen (condition : Prop) (n : Nat) : Prop := (condition → n = 1) ∧ (¬ condition → n = 0)

/-- Written pages and released pages are different ones. -/
structure CommitRight (s : Session) (page : Nat) : Prop where
  written : OnceWhen (Knows s.known IndPage.updated page)
    ((commitEvents s.trans.uads).count (.written page))
  released : OnceWhen (Knows s.known IndPage.freed page)
    ((commitEvents s.trans.uads).count (.released page))
  apart : ¬ (Knows s.known IndPage.updated page ∧ Knows s.known IndPage.freed page)
  total : (s.trans.events ++ commitEvents s.trans.uads).count (.released page) =
    s.givenUp.count page

structure RollbackRight (s : Session) (page : Nat) : Prop where
  invalidated : OnceWhen (∃ root, s.known root page ≠ none)
    ((rollbackEvents s.trans.uads).count (.invalidated page))
  released : OnceWhen (Knows s.known IndPage.allocated page)
    ((rollbackEvents s.trans.uads).count (.released page))
  kept : (rollbackEvents s.trans.uads).count (.written page) = 0
  total : (s.trans.events ++ rollbackEvents s.trans.uads).count (.released page) =
    s.created.count page

/-- The searches end and find what is registered, and each of the ends does with every page what
it should. -/
structure PagesRight (s : Session) : Prop where
  searches : ∀ uad ∈ s.trans.uads, ∀ page, IsPage page →
    SearchRight uad.info (s.known uad.root) page
  commit : ∀ page, CommitRight s page
  rollback : ∀ page, RollbackRight s page

/-- A synchronisation ends the changes of an index if and only if a page is both in the changes and
in those of the other client. -/
def StepRight (s : Session) : PageOp → Prop
  | .makeConflictingInvalid root changed =>
      (conflicts s.trans.uads root changed = true ↔
        (∃ uad ∈ s.trans.uads, uad.root = root ∧ uad.invalid = false) ∧
          ∃ page ∈ changed, s.known root page ≠ none) ∧
      (conflicts s.trans.uads root changed = true →
        ∃ events, (makeConflictingInvalid s.trans root changed).events = s.trans.events ++ events ∧
          ∀ page, OnceWhen (s.known root page ≠ none) (events.count (.invalidated page)) ∧
            OnceWhen (∃ oper, s.known root page = some oper ∧ oper.allocated = true)
              (events.count (.released page)) ∧
            events.count (.written page) = 0)
  | _ => True

/-! The list of tables. -/

section Uads

variable {uads : List IndexUad} {root other : Nat} {uad : IndexUad} {info : PageInfo}
  {change : IndexUad → IndexUad}

theorem findIndexUad_some (hfound : findIndexUad uads root = some uad) :
    uad ∈ uads ∧ uad.root = root := by
  rw [findIndexUad] at hfound
  have hsame := List.find?_some hfound
  exact ⟨List.mem_of_find?_eq_some hfound, eq_of_beq hsame⟩

theorem findIndexUad_none (hnone : findIndexUad uads root = none) (hmem : uad ∈ uads) :
    uad.root ≠ root := by
  have hfails := List.find?_eq_none.mp hnone uad hmem
  exact fun heq => hfails (beq_iff_eq.mpr heq)

theorem findIndexUad_mem (hroots : (uads.map IndexUad.root).Nodup) (hmem : uad ∈ uads) :
    findIndexUad uads uad.root = some uad := by
  cases hfound : findIndexUad uads uad.root with
  | none => exact absurd rfl (findIndexUad_none hfound hmem)
  | some found =>
      obtain ⟨hin, hsame⟩ := findIndexUad_some hfound
      rw [List.inj_on_of_nodup_map hroots hin hmem hsame]

theorem infoOf_mem (hroots : (uads.map IndexUad.root).Nodup) (hmem : uad ∈ uads) :
    infoOf uads uad.root = uad.info := by
  rw [infoOf, findIndexUad_mem hroots hmem]
  rfl

theorem findIndexUad_changeUad (hroot : ∀ uad, (change uad).root = uad.root) :
    findIndexUad (changeUad uads root change) other =
      (findIndexUad uads other).map fun uad => if uad.root = root then change uad else uad := by
  rw [findIndexUad, changeUad, List.find?_map]
  congr 2
  funext uad
  dsimp only [Function.comp]
  split
  · rw [hroot]
  · rfl

theorem roots_changeUad (hroot : ∀ uad, (change uad).root = uad.root) :
    (changeUad uads root change).map IndexUad.root = uads.map IndexUad.root := by
  rw [changeUad, List.map_map]
  apply List.map_congr_left
  intro uad _
  dsimp only [Function.comp]
  split
  · exact hroot uad
  · rfl

theorem infoOf_changeUad (hroot : ∀ uad, (change uad).root = uad.root)
    (hfound : findIndexUad uads root = some uad) :
    infoOf (changeUad uads root change) other =
      if other = root then (change uad).info else infoOf uads other := by
  rw [infoOf, findIndexUad_changeUad hroot]
  split
  case isTrue heq =>
    rw [heq, hfound, Option.map_some, if_pos (findIndexUad_some hfound).2]
    rfl
  case isFalse hne =>
    rw [infoOf]
    cases hother : findIndexUad uads other with
    | none => rfl
    | some found =>
        have hapart : ¬ found.root = root := fun h =>
          hne ((findIndexUad_some hother).2.symm.trans h)
        rw [Option.map_some, if_neg hapart]

theorem findIndexUad_getUiad : ∃ uad, findIndexUad (getUiad uads root) root = some uad := by
  rw [getUiad]
  split
  case isTrue hsome => exact Option.isSome_iff_exists.mp hsome
  case isFalse => exact ⟨_, List.find?_cons_of_pos (beq_self_eq_true root)⟩

theorem infoOf_getUiad : infoOf (getUiad uads root) other = infoOf uads other := by
  rw [getUiad]
  split
  case isTrue => rfl
  case isFalse hnone =>
    rw [Option.not_isSome_iff_eq_none] at hnone
    by_cases heq : root = other
    · subst heq
      have hnew : findIndexUad (⟨root, false, iuadClass.initial⟩ :: uads) root =
          some ⟨root, false, iuadClass.initial⟩ := List.find?_cons_of_pos (beq_self_eq_true root)
      rw [infoOf, infoOf, hnone, hnew]
      rfl
    · rw [infoOf, findIndexUad, List.find?_cons_of_neg, infoOf, findIndexUad]
      exact fun h => heq (eq_of_beq h)

theorem roots_getUiad (hroots : (uads.map IndexUad.root).Nodup) :
    ((getUiad uads root).map IndexUad.root).Nodup := by
  rw [getUiad]
  split
  case isTrue => exact hroots
  case isFalse hnone =>
    rw [Option.not_isSome_iff_eq_none] at hnone
    rw [List.map_cons, List.nodup_cons]
    refine ⟨fun hmem => ?_, hroots⟩
    obtain ⟨uad, huad, heq⟩ := List.mem_map.mp hmem
    exact findIndexUad_none hnone huad heq

theorem infoOf_changeInfo :
    infoOf (changeInfo uads root info) other = if other = root then info else infoOf uads other := by
  obtain ⟨uad, hfound⟩ := @findIndexUad_getUiad uads root
  rw [changeInfo, @infoOf_changeUad _ _ _ _ (fun uad => { uad with info := info })
    (fun _ => rfl) hfound, infoOf_getUiad]

theorem roots_changeInfo (hroots : (uads.map IndexUad.root).Nodup) :
    ((changeInfo uads root info).map IndexUad.root).Nodup := by
  rw [changeInfo, @roots_changeUad _ _ (fun uad => { uad with info := info }) fun _ => rfl]
  exact roots_getUiad hroots

end Uads

/-! How many times an event concerns a page. -/

section Events

variable {info : PageInfo} {known : Nat → Option IndPage} {test : IndPage → Bool} {page : Nat}
  {uads : List IndexUad}

theorem onceWhen_of_nodup {l : List Nat} {condition : Prop} (hnodup : l.Nodup)
    (hmem : page ∈ l ↔ condition) : OnceWhen condition (l.count page) := by
  rw [OnceWhen, ← hmem]
  exact ⟨List.count_eq_one_of_mem hnodup, List.count_eq_zero_of_not_mem⟩

theorem Agrees.mem_blocks (hagrees : Agrees info known) :
    page ∈ blocks test info ↔ ∃ oper, known page = some oper ∧ test oper = true := by
  rw [blocks, List.mem_map]
  constructor
  · rintro ⟨item, hitem, rfl⟩
    obtain ⟨hmem, htest⟩ := List.mem_filter.mp hitem
    exact ⟨item.oper, (hagrees.items item).mp hmem, htest⟩
  · rintro ⟨oper, hknown, htest⟩
    exact ⟨⟨page, oper⟩, List.mem_filter.mpr ⟨(hagrees.items ⟨page, oper⟩).mpr hknown, htest⟩, rfl⟩

theorem Agrees.blocks_nodup (hagrees : Agrees info known) : (blocks test info).Nodup :=
  hagrees.valid.sound.distinct.sublist (List.filter_sublist.map _)

theorem Agrees.count_blocks (hagrees : Agrees info known) :
    OnceWhen (∃ oper, known page = some oper ∧ test oper = true)
      ((blocks test info).count page) :=
  onceWhen_of_nodup hagrees.blocks_nodup hagrees.mem_blocks

theorem count_map_event {event : Nat → PageEvent} (hinj : Function.Injective event) (l : List Nat) :
    (l.map event).count (event page) = l.count page :=
  List.count_map_of_injective l event hinj page

theorem count_map_other {event : Nat → PageEvent} {other : PageEvent}
    (hother : ∀ page, event page ≠ other) (l : List Nat) : (l.map event).count other = 0 := by
  rw [List.count_eq_zero]
  intro hmem
  obtain ⟨page, -, heq⟩ := List.mem_map.mp hmem
  exact hother page heq

theorem written_injective : Function.Injective PageEvent.written :=
  fun _ _ heq => PageEvent.written.inj heq

theorem released_injective : Function.Injective PageEvent.released :=
  fun _ _ heq => PageEvent.released.inj heq

theorem flatMap_blocks (event : Nat → PageEvent) (test : IndPage → Bool) :
    ((items info).flatMap fun item => if test item.oper then [event item.block] else []) =
      (blocks test info).map event := by
  rw [blocks]
  induction items info with
  | nil => rfl
  | cons item items ih =>
      rw [List.flatMap_cons, ih]
      rw [List.filter_cons]
      by_cases htest : test item.oper = true
      · rw [if_pos htest, if_pos htest]
        rfl
      · rw [if_neg htest, if_neg htest]
        rfl

theorem removeChanges_perm : removeChangesAndRollbackAllocs info ~
    (blocks IndPage.touched info).map PageEvent.invalidated ++
      (blocks IndPage.allocated info).map PageEvent.released := by
  rw [← flatMap_blocks, ← flatMap_blocks]
  exact (List.flatMap_append_perm _ _ _).symm

theorem rollbackEvents_perm : rollbackEvents uads ~
    (uads.flatMap fun uad => blocks IndPage.touched uad.info).map PageEvent.invalidated ++
      (uads.flatMap fun uad => blocks IndPage.allocated uad.info).map PageEvent.released := by
  rw [List.map_flatMap, List.map_flatMap]
  refine List.Perm.trans ?_ (List.flatMap_append_perm _ _ _).symm
  exact List.Perm.flatMap_left _ fun uad _ => removeChanges_perm

end Events

/-! What an operation on a page changes. -/

/-- The operations of a registered page are compatible. -/
structure IndPage.Proper (oper : IndPage) : Prop where
  own : oper.allocated = true → oper.updated = true ∧ oper.freed = false
  gone : oper.freed = true → oper.updated = false
  touched : oper.touched = true

/-- The tables are what is known of the pages. -/
structure Tables (uads : List IndexUad) (known : KnownPages) : Prop where
  roots : (uads.map IndexUad.root).Nodup
  agrees : ∀ root, Agrees (infoOf uads root) (known root)
  proper : ∀ root page oper, known root page = some oper → oper.Proper
  apart : ∀ root other page, known root page ≠ none → known other page ≠ none → root = other

def CountedWhen (condition : Prop) (total n : Nat) : Prop :=
  (condition → total = n + 1) ∧ (¬ condition → total = n)

/-- All the pages of the list have been released, but for those that pass the test. -/
def Counted (known : KnownPages) (test : IndPage → Bool) (list : List Nat)
    (events : List PageEvent) : Prop :=
  ∀ page, CountedWhen (Knows known test page) (list.count page) (events.count (.released page))

section Learning

variable {uads : List IndexUad} {known : KnownPages} {root page other : Nat}
  {state : Option IndPage} {test : IndPage → Bool} {info : PageInfo} {list list' : List Nat}
  {events events' : List PageEvent}

theorem learn_same : learn known root page state root page = state := by
  rw [learn, Function.update_self, Function.update_self]

theorem learn_page {p : Nat} (hp : p ≠ page) : learn known root page state other p = known other p := by
  rw [learn]
  by_cases hother : other = root
  · rw [hother, Function.update_self, Function.update_of_ne hp]
  · rw [Function.update_of_ne hother]

theorem learn_root {p : Nat} (hother : other ≠ root) :
    learn known root page state other p = known other p := by
  rw [learn, Function.update_of_ne hother]

theorem knows_alone (hothers : ∀ other, other ≠ root → known other page = none) :
    Knows known test page ↔ ∃ oper, known root page = some oper ∧ test oper = true := by
  constructor
  · rintro ⟨other, oper, hknown, htest⟩
    by_cases heq : other = root
    · exact ⟨oper, heq ▸ hknown, htest⟩
    · rw [hothers other heq] at hknown
      cases hknown
  · rintro ⟨oper, hknown, htest⟩
    exact ⟨root, oper, hknown, htest⟩

theorem knows_learn (hothers : ∀ other, other ≠ root → known other page = none) :
    Knows (learn known root page state) test page ↔
      ∃ oper, state = some oper ∧ test oper = true := by
  have hafter : ∀ other, other ≠ root → learn known root page state other page = none := by
    intro other hother
    rw [learn_root hother]
    exact hothers other hother
  rw [knows_alone hafter, learn_same]

theorem knows_learn_page {p : Nat} (hp : p ≠ page) :
    Knows (learn known root page state) test p ↔ Knows known test p := by
  simp only [Knows, learn_page hp]

theorem Tables.learning (htables : Tables uads known)
    (hothers : ∀ other, other ≠ root → known other page = none)
    (hinfo : Agrees info (Function.update (known root) page state))
    (hproper : ∀ oper, state = some oper → oper.Proper) :
    Tables (changeInfo uads root info) (learn known root page state) := by
  constructor
  case roots => exact roots_changeInfo htables.roots
  case agrees =>
    intro other
    rw [infoOf_changeInfo]
    split
    case isTrue heq =>
      rw [heq, TransLog.learn, Function.update_self]
      exact hinfo
    case isFalse hne =>
      rw [TransLog.learn, Function.update_of_ne hne]
      exact htables.agrees other
  case proper =>
    intro other p oper hknown
    by_cases hp : p = page
    · by_cases heq : other = root
      · rw [hp, heq, learn_same] at hknown
        exact hproper oper hknown
      · rw [learn_root heq] at hknown
        exact htables.proper other p oper hknown
    · rw [learn_page hp] at hknown
      exact htables.proper other p oper hknown
  case apart =>
    intro first second p hfirst hsecond
    by_cases hp : p = page
    · have honly : ∀ other, learn known root page state other p ≠ none → other = root := by
        intro other hsome
        apply Classical.byContradiction
        intro hne
        rw [hp, learn_root hne] at hsome
        exact hsome (hothers other hne)
      rw [honly first hfirst, honly second hsecond]
    · rw [learn_page hp] at hfirst hsecond
      exact htables.apart first second p hfirst hsecond

theorem Counted.learning (hcounted : Counted known test list events)
    (hothers : ∀ other, other ≠ root → known other page = none)
    (hlist : ∀ p, p ≠ page → list'.count p = list.count p)
    (hevents : ∀ p, p ≠ page → events'.count (.released p) = events.count (.released p))
    (hpage : CountedWhen (∃ oper, known root page = some oper ∧ test oper = true)
        (list.count page) (events.count (.released page)) →
      CountedWhen (∃ oper, state = some oper ∧ test oper = true)
        (list'.count page) (events'.count (.released page))) :
    Counted (learn known root page state) test list' events' := by
  intro p
  by_cases hp : p = page
  · subst hp
    rw [knows_learn hothers]
    apply hpage
    rw [← knows_alone hothers]
    exact hcounted p
  · rw [knows_learn_page hp, hlist p hp, hevents p hp]
    exact hcounted p

end Learning

/-! All the pages of a transaction. -/

section Ends

variable {uads : List IndexUad} {known : KnownPages} {page : Nat} {test : IndPage → Bool}

theorem Tables.agrees_mem {uad : IndexUad} (htables : Tables uads known) (hmem : uad ∈ uads) :
    Agrees uad.info (known uad.root) :=
  infoOf_mem htables.roots hmem ▸ htables.agrees uad.root

theorem Tables.mem_blocks (htables : Tables uads known) :
    (page ∈ uads.flatMap fun uad => blocks test uad.info) ↔ Knows known test page := by
  rw [List.mem_flatMap]
  constructor
  · rintro ⟨uad, hmem, hblock⟩
    obtain ⟨oper, hknown, htest⟩ := (htables.agrees_mem hmem).mem_blocks.mp hblock
    exact ⟨uad.root, oper, hknown, htest⟩
  · rintro ⟨root, oper, hknown, htest⟩
    have hagrees := htables.agrees root
    rw [infoOf] at hagrees
    cases hfound : findIndexUad uads root with
    | none =>
        rw [hfound] at hagrees
        have hitem := (hagrees.items ⟨page, oper⟩).mpr hknown
        exact absurd ((initial_agrees.items _).mp hitem) (Option.some_ne_none _).symm
    | some uad =>
        rw [hfound] at hagrees
        exact ⟨uad, (findIndexUad_some hfound).1, hagrees.mem_blocks.mpr ⟨oper, hknown, htest⟩⟩

theorem Tables.blocks_nodup (htables : Tables uads known) :
    (uads.flatMap fun uad => blocks test uad.info).Nodup := by
  rw [List.nodup_flatMap]
  refine ⟨fun uad hmem => (htables.agrees_mem hmem).blocks_nodup, ?_⟩
  have hroots : uads.Pairwise fun first second => first.root ≠ second.root :=
    List.pairwise_map.mp htables.roots
  refine hroots.imp_of_mem ?_
  intro first second hfirst hsecond hne page hin hin'
  obtain ⟨oper, hknown, -⟩ := (htables.agrees_mem hfirst).mem_blocks.mp hin
  obtain ⟨oper', hknown', -⟩ := (htables.agrees_mem hsecond).mem_blocks.mp hin'
  exact hne (htables.apart first.root second.root page (hknown ▸ Option.some_ne_none _)
    (hknown' ▸ Option.some_ne_none _))

theorem Tables.count_blocks (htables : Tables uads known) :
    OnceWhen (Knows known test page)
      ((uads.flatMap fun uad => blocks test uad.info).count page) :=
  onceWhen_of_nodup htables.blocks_nodup htables.mem_blocks

theorem count_written_commit : (commitEvents uads).count (.written page) =
    (uads.flatMap fun uad => blocks IndPage.updated uad.info).count page := by
  simp only [commitEvents, wrChanges, commitAllocs]
  rw [← List.map_flatMap, ← List.map_flatMap, List.count_append, count_map_event written_injective,
    count_map_other fun _ => PageEvent.noConfusion, Nat.add_zero]

theorem count_released_commit : (commitEvents uads).count (.released page) =
    (uads.flatMap fun uad => blocks IndPage.freed uad.info).count page := by
  simp only [commitEvents, wrChanges, commitAllocs]
  rw [← List.map_flatMap, ← List.map_flatMap, List.count_append, count_map_event released_injective,
    count_map_other fun _ => PageEvent.noConfusion, Nat.zero_add]

theorem invalidated_injective : Function.Injective PageEvent.invalidated :=
  fun _ _ heq => PageEvent.invalidated.inj heq

theorem count_invalidated_rollback : (rollbackEvents uads).count (.invalidated page) =
    (uads.flatMap fun uad => blocks IndPage.touched uad.info).count page := by
  rw [rollbackEvents_perm.count_eq, List.count_append, count_map_event invalidated_injective,
    count_map_other fun _ => PageEvent.noConfusion, Nat.add_zero]

theorem count_released_rollback : (rollbackEvents uads).count (.released page) =
    (uads.flatMap fun uad => blocks IndPage.allocated uad.info).count page := by
  rw [rollbackEvents_perm.count_eq, List.count_append, count_map_event released_injective,
    count_map_other fun _ => PageEvent.noConfusion, Nat.zero_add]

theorem count_written_rollback : (rollbackEvents uads).count (.written page) = 0 := by
  rw [rollbackEvents_perm.count_eq, List.count_append,
    count_map_other fun _ => PageEvent.noConfusion, count_map_other fun _ => PageEvent.noConfusion]

/-- Every registered page has a private copy that becomes invalid. -/
theorem Tables.knows_touched (htables : Tables uads known) :
    Knows known IndPage.touched page ↔ ∃ root, known root page ≠ none := by
  constructor
  · rintro ⟨root, oper, hknown, -⟩
    exact ⟨root, hknown ▸ Option.some_ne_none _⟩
  · rintro ⟨root, hsome⟩
    obtain ⟨oper, hknown⟩ := Option.ne_none_iff_exists'.mp hsome
    exact ⟨root, oper, hknown, (htables.proper root page oper hknown).touched⟩

/-- The releases at the end complete those before it. -/
theorem CountedWhen.complete {condition : Prop} {total n last : Nat}
    (hcounted : CountedWhen condition total n) (honce : OnceWhen condition last) :
    n + last = total := by
  by_cases hcondition : condition
  · rw [honce.1 hcondition, hcounted.1 hcondition]
  · rw [honce.2 hcondition, hcounted.2 hcondition, Nat.add_zero]

end Ends

/-! What a synchronisation forgets. -/

section Forgetting

variable {uads : List IndexUad} {known : KnownPages} {root page : Nat} {test : IndPage → Bool}

/-- What is known of other indexes is not concerned. -/
theorem knows_forget :
    Knows (Function.update known root fun _ => none) test page ↔
      ∃ other oper, other ≠ root ∧ known other page = some oper ∧ test oper = true := by
  constructor
  · rintro ⟨other, oper, hknown, htest⟩
    by_cases heq : other = root
    · rw [heq, Function.update_self] at hknown
      cases hknown
    · rw [Function.update_of_ne heq] at hknown
      exact ⟨other, oper, heq, hknown, htest⟩
  · rintro ⟨other, oper, hne, hknown, htest⟩
    refine ⟨other, oper, ?_, htest⟩
    rw [Function.update_of_ne hne]
    exact hknown

theorem Tables.forget {change : IndexUad → IndexUad} {uad : IndexUad} (htables : Tables uads known) (hroot : ∀ uad, (change uad).root = uad.root)
    (hfound : findIndexUad uads root = some uad) (hinfo : (change uad).info = iuadClass.initial) :
    Tables (changeUad uads root change) (Function.update known root fun _ => none) := by
  have hknown : ∀ other page, (Function.update known root fun _ => none) other page ≠ none →
      other ≠ root ∧ (Function.update known root fun _ => none) other page = known other page := by
    intro other page hsome
    by_cases heq : other = root
    · rw [heq, Function.update_self] at hsome
      exact absurd rfl hsome
    · rw [Function.update_of_ne heq]
      exact ⟨heq, rfl⟩
  constructor
  case roots =>
    rw [roots_changeUad hroot]
    exact htables.roots
  case agrees =>
    intro other
    rw [infoOf_changeUad hroot hfound, hinfo]
    split
    case isTrue heq =>
      rw [heq, Function.update_self]
      exact initial_agrees
    case isFalse hne =>
      rw [Function.update_of_ne hne]
      exact htables.agrees other
  case proper =>
    intro other page oper hoper
    have hsame := (hknown other page (hoper ▸ Option.some_ne_none _)).2
    exact htables.proper other page oper (hsame ▸ hoper)
  case apart =>
    intro first second page hfirst hsecond
    rw [(hknown first page hfirst).2] at hfirst
    rw [(hknown second page hsecond).2] at hsecond
    exact htables.apart first second page hfirst hsecond

theorem knows_of_none (hnone : known root page = none) :
    Knows (Function.update known root fun _ => none) test page ↔ Knows known test page := by
  rw [knows_forget]
  constructor
  · rintro ⟨other, oper, -, hknown⟩
    exact ⟨other, oper, hknown⟩
  · rintro ⟨other, oper, hknown, htest⟩
    refine ⟨other, oper, ?_, hknown, htest⟩
    rintro rfl
    rw [hnone] at hknown
    cases hknown

/-- A page that is known for one index is not known for another one. -/
theorem knows_of_some {oper : IndPage} (htables : Tables uads known)
    (hknown : known root page = some oper) :
    (Knows known test page ↔ test oper = true) ∧
      ¬ Knows (Function.update known root fun _ => none) test page := by
  have honly : ∀ other found, known other page = some found → other = root := by
    intro other found hfound
    exact htables.apart other root page (hfound ▸ Option.some_ne_none _)
      (hknown ▸ Option.some_ne_none _)
  constructor
  · constructor
    · rintro ⟨other, found, hfound, htest⟩
      rw [honly other found hfound, hknown] at hfound
      cases hfound
      exact htest
    · exact fun htest => ⟨root, oper, hknown, htest⟩
  · rw [knows_forget]
    rintro ⟨other, found, hne, hfound, -⟩
    exact hne (honly other found hfound)

theorem count_released_removeChanges (info : PageInfo) :
    (removeChangesAndRollbackAllocs info).count (.released page) =
      (blocks IndPage.allocated info).count page := by
  rw [removeChanges_perm.count_eq, List.count_append, count_map_event released_injective,
    count_map_other fun _ => PageEvent.noConfusion, Nat.zero_add]

theorem conflicts_found {changed : List Nat} (hconflicts : conflicts uads root changed = true) :
    ∃ uad, findIndexUad uads root = some uad ∧ uad.invalid = false ∧
      changed.any (isRegistered uad.info) = true := by
  obtain ⟨uad, hfound, hboth⟩ := (Option.any_eq_true _ _).mp hconflicts
  obtain ⟨hvalid, hany⟩ := Bool.and_eq_true_iff.mp hboth
  exact ⟨uad, hfound, Bool.not_eq_true' _ ▸ hvalid, hany⟩

end Forgetting

/-! The steps. -/

namespace Session

variable {s : Session} {op : PageOp} {root page : Nat}

structure Inv (s : Session) : Prop where
  tables : Tables s.trans.uads s.known
  created : Counted s.known IndPage.allocated s.created s.trans.events
  givenUp : Counted s.known IndPage.freed s.givenUp s.trans.events

theorem start_inv : start.Inv := by
  have hunknown : ∀ (test : IndPage → Bool) (page : Nat), ¬ Knows start.known test page := by
    rintro test page ⟨root, oper, hknown, -⟩
    cases hknown
  constructor
  case tables =>
    constructor
    case roots => exact List.nodup_nil
    case agrees => exact fun _ => initial_agrees
    case proper =>
      intro root page oper hknown
      cases hknown
    case apart => exact fun _ _ _ hknown => absurd rfl hknown
  case created => exact fun page => ⟨fun hknows => absurd hknows (hunknown _ page), fun _ => rfl⟩
  case givenUp => exact fun page => ⟨fun hknows => absurd hknows (hunknown _ page), fun _ => rfl⟩

theorem Inv.allocIndexBlock {bl : Nat} (hinv : s.Inv) (hok : s.OpOk (.allocIndexBlock root bl)) :
    (s.step (.allocIndexBlock root bl)).Inv := by
  obtain ⟨hpage, hnew⟩ := hok
  have hothers : ∀ other, other ≠ root → s.known other bl = none := fun other _ => hnew other
  have hunknown : ∀ test : IndPage → Bool, ¬ ∃ oper, s.known root bl = some oper ∧ test oper = true := by
    rintro test ⟨oper, hknown, -⟩
    rw [hnew root] at hknown
    cases hknown
  constructor
  case tables =>
    apply hinv.tables.learning hothers
    · exact pageAllocated_agrees (hinv.tables.agrees root) hpage (hnew root)
    · intro oper hoper
      cases hoper
      exact ⟨fun _ => ⟨rfl, rfl⟩, fun h => Bool.noConfusion h, rfl⟩
  case created =>
    apply hinv.created.learning hothers
    · exact fun p hp => List.count_cons_of_ne (Ne.symm hp)
    · exact fun _ _ => rfl
    · intro hbefore
      refine ⟨fun _ => ?_, fun hnot => absurd ⟨_, rfl, rfl⟩ hnot⟩
      change (bl :: s.created).count bl = _
      rw [List.count_cons_self, hbefore.2 (hunknown _)]
      rfl
  case givenUp =>
    apply hinv.givenUp.learning hothers
    · exact fun _ _ => rfl
    · exact fun _ _ => rfl
    · intro hbefore
      refine ⟨?_, fun _ => hbefore.2 (hunknown _)⟩
      rintro ⟨oper, hoper, hfreed⟩
      cases hoper
      cases hfreed

/-- Marking a page neither allocates it nor frees it. -/
theorem Inv.mark {mark : IndPage → IndPage} (hinv : s.Inv) (hok : InIndex s.known root page)
    (hallocated : ∀ oper, (mark oper).allocated = oper.allocated)
    (hfreed : ∀ oper, (mark oper).freed = oper.freed)
    (hupdated : ∀ oper, oper.updated = true → (mark oper).updated = true)
    (htouched : ∀ oper, (mark oper).touched = true) :
    Inv { s with
      trans := { s.trans with
        uads := changeInfo s.trans.uads root (pageMarked mark (infoOf s.trans.uads root) page) }
      known := learn s.known root page (marked mark (s.known root page)) } := by
  have hsame : ∀ test : IndPage → Bool, (∀ oper, test (mark oper) = test oper) →
      test .none = false →
        ((∃ oper, marked mark (s.known root page) = some oper ∧ test oper = true) ↔
          ∃ oper, s.known root page = some oper ∧ test oper = true) := by
    intro test htest hnone
    cases hknown : s.known root page with
    | none =>
        refine iff_of_false ?_ ?_
        · rintro ⟨oper, hoper, hpasses⟩
          cases hoper
          rw [Option.getD_none, htest, hnone] at hpasses
          cases hpasses
        · rintro ⟨oper, hoper, -⟩
          cases hoper
    | some old =>
        constructor
        · rintro ⟨oper, hoper, hpasses⟩
          cases hoper
          exact ⟨old, rfl, (htest old).symm.trans hpasses⟩
        · rintro ⟨oper, hoper, hpasses⟩
          cases hoper
          exact ⟨mark old, rfl, (htest old).trans hpasses⟩
  constructor
  case tables =>
    apply hinv.tables.learning hok.others
    · exact pageMarked_agrees mark (hinv.tables.agrees root) hok.isPage
    · intro oper hoper
      cases hoper
      cases hknown : s.known root page with
      | none =>
          rw [Option.getD_none]
          refine ⟨fun h => ?_, fun h => ?_, htouched _⟩
          · rw [hallocated] at h
            cases h
          · rw [hfreed] at h
            cases h
      | some old =>
          have hproper := hinv.tables.proper root page old hknown
          rw [Option.getD_some]
          refine ⟨fun h => ?_, fun h => ?_, htouched _⟩
          · rw [hallocated] at h
            rw [hfreed]
            exact ⟨hupdated old (hproper.own h).1, (hproper.own h).2⟩
          · rw [hfreed, hok.stays old hknown] at h
            cases h
  case created =>
    apply hinv.created.learning hok.others (fun _ _ => rfl) (fun _ _ => rfl)
    rw [hsame IndPage.allocated hallocated rfl]
    exact id
  case givenUp =>
    apply hinv.givenUp.learning hok.others (fun _ _ => rfl) (fun _ _ => rfl)
    rw [hsame IndPage.freed hfreed rfl]
    exact id

theorem Inv.freeIndexBlock {dadr : Nat} (hinv : s.Inv) (hok : InIndex s.known root dadr) :
    (s.step (.freeIndexBlock root dadr)).Inv := by
  obtain ⟨hreply, hagrees⟩ := pageFreed_agrees (hinv.tables.agrees root) hok.isPage
  have hevents : (s.step (.freeIndexBlock root dadr)).trans.events = s.trans.events ++
      if ((s.known root dadr).getD .none).allocated then [.released dadr] else [] := by
    rw [← hreply]
    rfl
  have hother : ∀ p, p ≠ dadr → (s.step (.freeIndexBlock root dadr)).trans.events.count
      (.released p) = s.trans.events.count (.released p) := by
    intro p hp
    rw [hevents, List.count_append]
    split
    · rw [List.count_singleton, if_neg, Nat.add_zero]
      exact fun h => hp (PageEvent.released.inj (eq_of_beq h)).symm
    · rfl
  have hstays : ¬ ∃ oper, s.known root dadr = some oper ∧ oper.freed = true := by
    rintro ⟨oper, hknown, hfreed⟩
    rw [hok.stays oper hknown] at hfreed
    cases hfreed
  have hown : (∃ oper, s.known root dadr = some oper ∧ oper.allocated = true) ↔
      ((s.known root dadr).getD .none).allocated = true := by
    cases hknown : s.known root dadr with
    | none =>
        refine iff_of_false ?_ Bool.false_ne_true
        rintro ⟨oper, hoper, -⟩
        cases hoper
    | some old =>
        constructor
        · rintro ⟨oper, hoper, hallocated⟩
          cases hoper
          exact hallocated
        · exact fun hallocated => ⟨old, rfl, hallocated⟩
  constructor
  case tables =>
    apply hinv.tables.learning hok.others hagrees
    intro oper hoper
    rw [afterFree] at hoper
    split at hoper
    · cases hoper
    · cases hoper
      exact ⟨fun h => Bool.noConfusion h, fun _ => rfl, rfl⟩
  case created =>
    apply hinv.created.learning hok.others (fun _ _ => rfl) hother
    intro hbefore
    have hnone : ¬ ∃ oper, afterFree (s.known root dadr) = some oper ∧ oper.allocated = true := by
      rintro ⟨oper, hoper, hallocated⟩
      rw [afterFree] at hoper
      split at hoper
      · cases hoper
      · cases hoper
        cases hallocated
    refine ⟨fun h => absurd h hnone, fun _ => ?_⟩
    rw [hevents, List.count_append]
    by_cases hallocated : ((s.known root dadr).getD .none).allocated = true
    · rw [if_pos hallocated, List.count_singleton_self]
      exact hbefore.1 (hown.mpr hallocated)
    · rw [if_neg hallocated]
      exact hbefore.2 (mt hown.mp hallocated)
  case givenUp =>
    apply hinv.givenUp.learning hok.others
      (fun p hp => List.count_cons_of_ne (Ne.symm hp)) hother
    intro hbefore
    have hcount : (s.step (.freeIndexBlock root dadr)).givenUp.count dadr =
        s.trans.events.count (.released dadr) + 1 := by
      change (dadr :: s.givenUp).count dadr = _
      rw [List.count_cons_self, hbefore.2 hstays]
    rw [hevents, List.count_append]
    change CountedWhen _ ((s.step (.freeIndexBlock root dadr)).givenUp.count dadr) _
    rw [hcount, afterFree]
    by_cases hallocated : ((s.known root dadr).getD .none).allocated = true
    · rw [if_pos hallocated, if_pos hallocated, List.count_singleton_self]
      refine ⟨?_, fun _ => rfl⟩
      rintro ⟨oper, hoper, -⟩
      cases hoper
    · rw [if_neg hallocated, if_neg hallocated]
      exact ⟨fun _ => rfl, fun hnot => absurd ⟨_, rfl, rfl⟩ hnot⟩

theorem Inv.makeConflictingInvalid {changed : List Nat} (hinv : s.Inv) :
    (s.step (.makeConflictingInvalid root changed)).Inv := by
  by_cases hconflicts : conflicts s.trans.uads root changed = true
  · rw [step, if_pos hconflicts, TransLog.makeConflictingInvalid, if_pos hconflicts]
    obtain ⟨uad, hfound, -⟩ := conflicts_found hconflicts
    have hagrees := hinv.tables.agrees root
    constructor
    case tables => exact hinv.tables.forget (fun _ => rfl) hfound rfl
    case created =>
      intro page
      rw [List.count_append, count_released_removeChanges]
      have hcounted := hinv.created page
      have hown := @Agrees.count_blocks _ _ IndPage.allocated page hagrees
      cases hknown : s.known root page with
      | none =>
          rw [hown.2 (by simp [hknown]), knows_of_none hknown]
          exact hcounted
      | some oper =>
          obtain ⟨hknows, hafter⟩ := @knows_of_some _ _ root page IndPage.allocated _ hinv.tables hknown
          refine ⟨fun h => absurd h hafter, fun _ => ?_⟩
          by_cases hallocated : oper.allocated = true
          · rw [hown.1 ⟨oper, hknown, hallocated⟩]
            exact hcounted.1 (hknows.mpr hallocated)
          · rw [hown.2 (by simp [hknown, hallocated])]
            exact hcounted.2 (mt hknows.mp hallocated)
    case givenUp =>
      intro page
      rw [List.count_append, List.count_append, List.count_diff, count_released_removeChanges]
      have hcounted := hinv.givenUp page
      have hown := @Agrees.count_blocks _ _ IndPage.allocated page hagrees
      have hgone := @Agrees.count_blocks _ _ IndPage.freed page hagrees
      cases hknown : s.known root page with
      | none =>
          rw [hown.2 (by simp [hknown]), hgone.2 (by simp [hknown]), knows_of_none hknown,
            Nat.zero_add]
          exact hcounted
      | some oper =>
          obtain ⟨hknows, hafter⟩ := @knows_of_some _ _ root page IndPage.freed _ hinv.tables hknown
          have hproper := hinv.tables.proper root page oper hknown
          refine ⟨fun h => absurd h hafter, fun _ => ?_⟩
          by_cases hallocated : oper.allocated = true
          · have hstays : ¬ oper.freed = true := by
              rw [(hproper.own hallocated).2]
              exact Bool.false_ne_true
            rw [hown.1 ⟨oper, hknown, hallocated⟩, hgone.2 (by simp [hknown, hstays]),
              hcounted.2 (mt hknows.mp hstays), Nat.sub_zero, Nat.add_comm]
          · rw [hown.2 (by simp [hknown, hallocated])]
            by_cases hfreed : oper.freed = true
            · rw [hgone.1 ⟨oper, hknown, hfreed⟩, hcounted.1 (hknows.mpr hfreed),
                Nat.add_sub_cancel, Nat.zero_add, Nat.add_zero]
            · rw [hgone.2 (by simp [hknown, hfreed]), hcounted.2 (mt hknows.mp hfreed),
                Nat.sub_zero, Nat.zero_add, Nat.add_zero]
  · rw [step, if_neg hconflicts]
    exact hinv

theorem Inv.updatePrivateChanges (hinv : s.Inv) :
    (s.step (.updatePrivateChanges root)).Inv := by
  have hinfo : ∀ other, infoOf (s.step (.updatePrivateChanges root)).trans.uads other =
      infoOf s.trans.uads other := by
    intro other
    change infoOf (changeUad s.trans.uads root fun uad => { uad with invalid := false }) other = _
    rw [infoOf, @findIndexUad_changeUad _ _ _ (fun uad => { uad with invalid := false })
      fun _ => rfl, infoOf]
    cases findIndexUad s.trans.uads other with
    | none => rfl
    | some uad =>
        rw [Option.map_some]
        split <;> rfl
  constructor
  case tables =>
    refine ⟨?_, fun other => ?_, hinv.tables.proper, hinv.tables.apart⟩
    · exact (@roots_changeUad s.trans.uads root (fun uad => { uad with invalid := false })
        fun _ => rfl).symm ▸ hinv.tables.roots
    · rw [hinfo]
      exact hinv.tables.agrees other
  case created => exact hinv.created
  case givenUp => exact hinv.givenUp

theorem step_inv (hinv : s.Inv) (hok : s.OpOk op) : (s.step op).Inv := by
  cases op with
  | allocIndexBlock root bl => exact hinv.allocIndexBlock hok
  | indexPagePrivate root page =>
      exact hinv.mark hok (fun _ => rfl) (fun _ => rfl) (fun _ h => h) fun _ => by
        simp [IndPage.touched, IndPage.setPrivate]
  | indexPageChanged root page =>
      exact hinv.mark hok (fun _ => rfl) (fun _ => rfl) (fun _ _ => rfl) fun _ => by
        simp [IndPage.touched, IndPage.setUpdated]
  | freeIndexBlock root dadr => exact hinv.freeIndexBlock hok
  | makeConflictingInvalid root changed => exact hinv.makeConflictingInvalid
  | updatePrivateChanges root => exact hinv.updatePrivateChanges

theorem Inv.commitRight (hinv : s.Inv) (page : Nat) : CommitRight s page := by
  have hfreed := @Tables.count_blocks _ _ page IndPage.freed hinv.tables
  constructor
  case written =>
    rw [count_written_commit]
    exact hinv.tables.count_blocks
  case released =>
    rw [count_released_commit]
    exact hfreed
  case apart =>
    rintro ⟨⟨root, oper, hknown, hupdated⟩, other, oper', hknown', hgone⟩
    have hsame := hinv.tables.apart root other page (hknown ▸ Option.some_ne_none _)
      (hknown' ▸ Option.some_ne_none _)
    subst hsame
    rw [hknown] at hknown'
    cases hknown'
    rw [(hinv.tables.proper root page oper hknown).gone hgone] at hupdated
    cases hupdated
  case total =>
    rw [List.count_append, count_released_commit]
    exact (hinv.givenUp page).complete hfreed

theorem Inv.rollbackRight (hinv : s.Inv) (page : Nat) : RollbackRight s page := by
  have hown := @Tables.count_blocks _ _ page IndPage.allocated hinv.tables
  constructor
  case invalidated =>
    rw [count_invalidated_rollback, ← hinv.tables.knows_touched]
    exact hinv.tables.count_blocks
  case released =>
    rw [count_released_rollback]
    exact hown
  case kept => exact count_written_rollback
  case total =>
    rw [List.count_append, count_released_rollback]
    exact (hinv.created page).complete hown

theorem Inv.pagesRight (hinv : s.Inv) : PagesRight s where
  searches _ hmem _ hpage := (hinv.tables.agrees_mem hmem).searchRight hpage
  commit := hinv.commitRight
  rollback := hinv.rollbackRight

theorem Inv.isRegistered_iff {uad : IndexUad} (hinv : s.Inv) (hmem : uad ∈ s.trans.uads)
    (hpage : IsPage page) : isRegistered uad.info page = true ↔ s.known uad.root page ≠ none := by
  obtain ⟨itm, found, hlocated, hknown⟩ := (hinv.tables.agrees_mem hmem).searchRight hpage
  rw [isRegistered, hlocated, ← hknown]
  cases found with
  | none => exact iff_of_false Bool.false_ne_true (not_not_intro rfl)
  | some item => exact iff_of_true rfl (Option.some_ne_none _)

theorem Inv.conflicts_iff {changed : List Nat} (hinv : s.Inv)
    (hpages : ∀ page ∈ changed, IsPage page) :
    conflicts s.trans.uads root changed = true ↔
      (∃ uad ∈ s.trans.uads, uad.root = root ∧ uad.invalid = false) ∧
        ∃ page ∈ changed, s.known root page ≠ none := by
  constructor
  · intro hconflicts
    obtain ⟨uad, hfound, hvalid, hany⟩ := conflicts_found hconflicts
    obtain ⟨hmem, rfl⟩ := findIndexUad_some hfound
    obtain ⟨page, hpage, hregistered⟩ := List.any_eq_true.mp hany
    exact ⟨⟨uad, hmem, rfl, hvalid⟩, page, hpage,
      (hinv.isRegistered_iff hmem (hpages page hpage)).mp hregistered⟩
  · rintro ⟨⟨uad, hmem, rfl, hvalid⟩, page, hpage, hknown⟩
    rw [conflicts, findIndexUad_mem hinv.tables.roots hmem, Option.any_some, hvalid]
    exact List.any_eq_true.mpr ⟨page, hpage,
      (hinv.isRegistered_iff hmem (hpages page hpage)).mpr hknown⟩

theorem Inv.stepRight (hinv : s.Inv) (hok : s.OpOk op) : StepRight s op := by
  cases op with
  | makeConflictingInvalid root changed =>
      refine ⟨hinv.conflicts_iff hok, fun hconflicts => ?_⟩
      refine ⟨removeChangesAndRollbackAllocs (infoOf s.trans.uads root), ?_, fun page => ?_⟩
      · rw [TransLog.makeConflictingInvalid, if_pos hconflicts]
      · have hagrees := hinv.tables.agrees root
        refine ⟨?_, ?_, ?_⟩
        · have htouched : (∃ oper, s.known root page = some oper ∧ oper.touched = true) ↔
              s.known root page ≠ none := by
            constructor
            · rintro ⟨oper, hknown, -⟩
              exact hknown ▸ Option.some_ne_none _
            · intro hsome
              obtain ⟨oper, hknown⟩ := Option.ne_none_iff_exists'.mp hsome
              exact ⟨oper, hknown, (hinv.tables.proper root page oper hknown).touched⟩
          rw [removeChanges_perm.count_eq, List.count_append,
            count_map_event invalidated_injective,
            count_map_other fun _ => PageEvent.noConfusion, Nat.add_zero, ← htouched]
          exact hagrees.count_blocks
        · rw [count_released_removeChanges]
          exact hagrees.count_blocks
        · rw [removeChanges_perm.count_eq, List.count_append,
            count_map_other fun _ => PageEvent.noConfusion,
            count_map_other fun _ => PageEvent.noConfusion]
  | allocIndexBlock => trivial
  | indexPagePrivate => trivial
  | indexPageChanged => trivial
  | freeIndexBlock => trivial
  | updatePrivateChanges => trivial

end Session

/-- Every state of a run is right, whatever end of the transaction comes in it. -/
theorem indexPages_right (ops : List PageOp)
    (hmeets : Run.Meets Session.step Session.OpOk Session.start ops) :
    Run.Always Session.step PagesRight Session.start ops ∧
      Run.Meets Session.step StepRight Session.start ops := by
  constructor
  · exact Run.always_of_invariant Session.Inv (fun _ => Session.Inv.pagesRight)
      (fun _ _ => Session.step_inv) Session.start_inv hmeets
  · exact Run.Meets.of_invariant Session.Inv (fun _ _ => Session.Inv.stepRight)
      (fun _ _ => Session.step_inv) Session.start_inv hmeets

/-- A page is allocated for the index with the root 10, another one is made private, and the first
one is removed. -/
theorem indexPages_right_removed :
    let ops : List PageOp := [.allocIndexBlock 10 20, .indexPagePrivate 10 11, .freeIndexBlock 10 20]
    Run.Always Session.step PagesRight Session.start ops ∧
      Run.Meets Session.step StepRight Session.start ops := by
  have hpage : ∀ page, 0 < page → page < 100 → IsPage page :=
    fun page hpos hlt => ⟨hpos, Nat.lt_trans hlt (by decide)⟩
  apply indexPages_right
  refine ⟨⟨hpage 20 (by decide) (by decide), fun _ => rfl⟩, ?_, ?_, trivial⟩
  · refine ⟨hpage 11 (by decide) (by decide), fun oper hknown => ?_, fun other hother => ?_⟩
    · cases hknown
    · exact learn_root hother
  · refine ⟨hpage 20 (by decide) (by decide), fun oper hknown => ?_, fun other hother => ?_⟩
    · cases hknown
      rfl
    · exact (learn_root hother).trans (learn_root hother)

/-- A page that is only private is neither written nor released in the commit, and its private copy
does not become invalid in it. -/
theorem not_forall_commit_event :
    ¬ ∀ ops, Run.Meets Session.step Session.OpOk Session.start ops →
      let s := Run.run Session.step Session.start ops
      ∀ root page, s.known root page ≠ none →
        ∃ event ∈ s.trans.events ++ commitEvents s.trans.uads,
          event = .written page ∨ event = .invalidated page ∨ event = .released page := by
  intro hall
  have hmeets : Run.Meets Session.step Session.OpOk Session.start [.indexPagePrivate 10 11] := by
    refine ⟨⟨⟨by decide, by decide⟩, fun oper hknown => ?_, fun other _ => rfl⟩, trivial⟩
    cases hknown
  obtain ⟨event, hevent, -⟩ := hall [.indexPagePrivate 10 11] hmeets 10 11 (Option.some_ne_none _)
  have hnone : (Run.run Session.step Session.start [.indexPagePrivate 10 11]).trans.events ++
      commitEvents (Run.run Session.step Session.start [.indexPagePrivate 10 11]).trans.uads =
        [] := by rfl
  rw [hnone] at hevent
  cases hevent

end Sql602.TransLog
