import Mathlib.Logic.Function.Basic
import Sql602.TransLog.RecordFates

namespace Sql602.TransLog

open scoped List

/-! The maps of changes. The log represents one map for each registered page. -/

namespace ChangeMap

/-- The parts of the page, offset and length, that `wr_changes` copies. -/
def writtenParts : ChangeMap → List (Nat × Nat)
  | .none => []
  | .full | .index => [(0, BLOCKSIZE)]
  | .records recsize changed =>
      ((List.range (BLOCKSIZE / recsize)).filter (· ∈ changed)).map fun pos =>
        (recsize * pos, recsize)

def covers (map : ChangeMap) (recsize recpos : Nat) : Prop :=
  ∀ byte < BLOCKSIZE, recsize * recpos ≤ byte → byte < recsize * (recpos + 1) →
    ∃ part ∈ map.writtenParts, part.1 ≤ byte ∧ byte < part.1 + part.2

def isWhole : ChangeMap → Prop
  | .full | .index => True
  | _ => False

/-- A record of the size may be added to the map without the loss of what it has. -/
def fits (recsize : Nat) : ChangeMap → Prop
  | .none | .full => True
  | .index => recsize < BLOCKSIZE
  | .records size _ => size = recsize ∨ recsize ≥ BLOCKSIZE

instance fits.decide (recsize : Nat) : ∀ map, Decidable (fits recsize map)
  | .none | .full => isTrue trivial
  | .index => inferInstanceAs (Decidable (recsize < BLOCKSIZE))
  | .records size _ => inferInstanceAs (Decidable (size = recsize ∨ recsize ≥ BLOCKSIZE))

variable {map : ChangeMap} {recsize recpos size pos : Nat}

theorem covers_of_whole (hmap : map.isWhole) : map.covers recsize recpos := by
  intro byte hbyte _ _
  cases map with
  | none => cases hmap
  | full => exact ⟨_, List.mem_singleton_self _, Nat.zero_le _, by simpa using hbyte⟩
  | index => exact ⟨_, List.mem_singleton_self _, Nat.zero_le _, by simpa using hbyte⟩
  | records size changed => cases hmap

theorem covers_records {changed : List Nat} (hpos : recpos < BLOCKSIZE / recsize)
    (hmem : recpos ∈ changed) : (records recsize changed).covers recsize recpos := by
  intro byte _ hlow hhigh
  refine ⟨(recsize * recpos, recsize), ?_, hlow, by simpa [Nat.mul_succ] using hhigh⟩
  refine List.mem_map.mpr ⟨recpos, List.mem_filter.mpr ⟨List.mem_range.mpr hpos, ?_⟩, rfl⟩
  simpa using hmem

/-- A map of records has room for more than one. -/
def sized : ChangeMap → Prop
  | .records size _ => size < BLOCKSIZE
  | _ => True

theorem start_sized : (Log.ChangeMap.start recsize recpos).sized := by
  simp only [Log.ChangeMap.start]
  split
  · trivial
  · rename_i hsize
    exact Nat.lt_of_not_le hsize

theorem add_sized (hmap : map.sized) : (Log.ChangeMap.add recsize recpos map).sized := by
  cases map with
  | none => exact start_sized
  | full => trivial
  | index => trivial
  | records size changed =>
      simp only [Log.ChangeMap.add]
      split
      · exact hmap
      · exact start_sized

theorem start_covers (hpos : recsize < BLOCKSIZE → recpos < BLOCKSIZE / recsize) :
    (Log.ChangeMap.start recsize recpos).covers recsize recpos := by
  simp only [Log.ChangeMap.start]
  split
  · exact covers_of_whole trivial
  · rename_i hsize
    exact covers_records (hpos (Nat.lt_of_not_le hsize)) List.mem_cons_self

theorem add_covers (hmap : map.sized)
    (hpos : recsize < BLOCKSIZE → recpos < BLOCKSIZE / recsize) :
    (Log.ChangeMap.add recsize recpos map).covers recsize recpos := by
  cases map with
  | none => exact start_covers hpos
  | full => exact covers_of_whole trivial
  | index => exact covers_of_whole trivial
  | records size changed =>
      simp only [Log.ChangeMap.add]
      split
      · rename_i hsize
        subst hsize
        exact covers_records (hpos hmap) List.mem_insert_self
      · exact start_covers hpos

theorem covers_mono {changed more : List Nat} (hmore : changed ⊆ more)
    (hcovers : (records size changed).covers recsize recpos) :
    (records size more).covers recsize recpos := by
  intro byte hbyte hlow hhigh
  obtain ⟨part, hpart, hin⟩ := hcovers byte hbyte hlow hhigh
  obtain ⟨pos, hpos, rfl⟩ := List.mem_map.mp hpart
  obtain ⟨hrange, hchanged⟩ := List.mem_filter.mp hpos
  refine ⟨_, List.mem_map.mpr ⟨pos, List.mem_filter.mpr ⟨hrange, ?_⟩, rfl⟩, hin⟩
  simpa using hmore (of_decide_eq_true hchanged)

/-- The map keeps what it covers when the sizes fit. -/
theorem add_keeps (hfits : map.fits recsize) (hcovers : map.covers size pos) :
    (Log.ChangeMap.add recsize recpos map).covers size pos := by
  cases map with
  | none =>
      intro byte hbyte hlow hhigh
      obtain ⟨part, hpart, -⟩ := hcovers byte hbyte hlow hhigh
      exact absurd hpart List.not_mem_nil
  | full => exact hcovers
  | index => exact hcovers
  | records mapSize changed =>
      simp only [Log.ChangeMap.add]
      split
      · exact covers_mono (fun _ hmem => List.mem_insert_of_mem hmem) hcovers
      · rename_i hother
        have hlarge : recsize ≥ BLOCKSIZE := hfits.resolve_left hother
        rw [Log.ChangeMap.start, if_pos hlarge]
        exact covers_of_whole trivial

/-- A record that fills the page is a change of the whole page. -/
theorem add_whole (hfits : map.fits recsize) (hmap : map.sized) (hlarge : recsize ≥ BLOCKSIZE) :
    Log.ChangeMap.add recsize recpos map = .full := by
  have hstart : Log.ChangeMap.start recsize recpos = .full := if_pos hlarge
  cases map with
  | none => exact hstart
  | full => rfl
  | index => exact absurd hlarge (Nat.not_le_of_lt hfits)
  | records size changed =>
      have hother : size ≠ recsize := by
        intro heq
        exact absurd hlarge (Nat.not_le_of_lt (heq ▸ hmap))
      rw [Log.ChangeMap.add, if_neg hother]
      exact hstart

theorem add_fits (hlarge : recsize < BLOCKSIZE) :
    (Log.ChangeMap.add recsize recpos map).fits recsize := by
  have hstart : (Log.ChangeMap.start recsize recpos).fits recsize := by
    rw [Log.ChangeMap.start, if_neg (Nat.not_le_of_lt hlarge)]
    exact .inl rfl
  cases map with
  | none => exact hstart
  | full => trivial
  | index => exact hlarge
  | records size changed =>
      simp only [Log.ChangeMap.add]
      split
      · rename_i hsize
        exact .inl hsize
      · exact hstart

end ChangeMap

/-! The log against the maps of the pages. -/

namespace Log

def changeMap (dadr : Nat) (item : LogItem) : Option ChangeMap :=
  if isItem .change dadr item then
    match item.info with
    | .chngmap map => some map
    | _ => none
  else none

/-- The maps in the items of a page. -/
def changeMaps (log : Log) (dadr : Nat) : List ChangeMap :=
  log.entries.filterMap (changeMap dadr)

end Log

abbrev PageMaps : Type := Nat → Option ChangeMap

namespace PageMaps

def register (maps : PageMaps) (dadr : Nat) (change : ChangeMap → ChangeMap)
    (start : ChangeMap) : PageMaps :=
  Function.update maps dadr (some ((maps dadr).elim start change))

def recChanged (maps : PageMaps) (dadr recsize recpos : Nat) : PageMaps :=
  maps.register dadr (Log.ChangeMap.add recsize recpos) (Log.ChangeMap.start recsize recpos)

def pieceChanged (maps : PageMaps) (dadr offs32 len32 : Nat) : PageMaps :=
  (List.range len32).foldl (fun maps i => maps.recChanged dadr k32 (offs32 + i)) maps

def step (maps : PageMaps) : LogOp → PageMaps
  | .recChanged dadr recsize recpos => maps.recChanged dadr recsize recpos
  | .pageChanged dadr => maps.register dadr (fun _ => .full) .full
  | .indexPageChanged dadr => maps.register dadr (fun _ => .index) .index
  | .pagePrivate dadr => maps.register dadr id .none
  | .pieceChanged dadr offs32 len32 => maps.pieceChanged dadr offs32 len32
  | .dropPageChanges dadr => Function.update maps dadr none
  | _ => maps

end PageMaps

/-- The items of changes have maps, one for each registered page. -/
structure Represents (log : Log) (maps : PageMaps) : Prop where
  proper : log.Proper
  formed : ∀ item ∈ log.entries, item.tag = .change → ∃ map, item.info = .chngmap map
  agree : ∀ dadr, log.changeMaps dadr = (maps dadr).toList

namespace Represents

open Log

variable {log next : Log} {maps after : PageMaps} {removed added : List LogItem}

theorem changeMap_of_tag {dadr : Nat} {item : LogItem} (htag : item.tag ≠ .change) :
    changeMap dadr item = none := by
  rw [changeMap, if_neg]
  intro hitem
  exact htag (isItem_cases hitem).1

theorem changeMap_of_block {dadr : Nat} {item : LogItem} (hblock : item.block ≠ dadr) :
    changeMap dadr item = none := by
  rw [changeMap, if_neg]
  intro hitem
  exact hblock (isItem_cases hitem).2

theorem changeMap_of_info {dadr : Nat} {item : LogItem} {map : ChangeMap}
    (hitem : isItem .change dadr item = true) (hinfo : item.info = .chngmap map) :
    changeMap dadr item = some map := by
  rw [changeMap, if_pos hitem, hinfo]

theorem yields (hrep : Represents log maps) (hyields : log.Yields next removed added)
    (hadded : ∀ item ∈ added, item.tag = .change → ∃ map, item.info = .chngmap map)
    (hmaps : ∀ dadr, removed.filterMap (changeMap dadr) ++ (after dadr).toList ~
      added.filterMap (changeMap dadr) ++ (maps dadr).toList) : Represents next after where
  proper := hyields.proper
  formed := by
    intro item hmem
    have hall : item ∈ added ++ log.entries :=
      hyields.entries.subset (List.mem_append_right removed hmem)
    rcases List.mem_append.mp hall with hmem | hmem
    · exact hadded item hmem
    · exact hrep.formed item hmem
  agree := by
    intro dadr
    have hview := hyields.view (changeMap dadr)
    change _ ++ next.changeMaps dadr ~ _ ++ log.changeMaps dadr at hview
    rw [hrep.agree dadr] at hview
    have hperm := (List.perm_append_left_iff _).mp (hview.trans (hmaps dadr).symm)
    cases hafter : after dadr with
    | none =>
        rw [hafter] at hperm
        exact hperm.eq_nil
    | some map =>
        rw [hafter] at hperm
        exact List.perm_singleton.mp hperm

/-- The items of other tags do not matter. -/
theorem touches {tags : List Tag} (hrep : Represents log maps)
    (htouches : log.Touches next tags) (htags : Tag.change ∉ tags) : Represents next maps := by
  obtain ⟨removed, added, hyields, hremoved, hadded⟩ := htouches
  refine hrep.yields hyields (fun item hmem htag => ?_) fun dadr => ?_
  · exact absurd (hadded item hmem) (htag ▸ htags)
  · have hnone : ∀ item : LogItem, item.tag ∈ tags → changeMap dadr item = none :=
      fun item htag => changeMap_of_tag fun heq => htags (heq ▸ htag)
    rw [List.filterMap_eq_nil_iff.mpr fun item hmem => hnone item (hremoved item hmem),
      List.filterMap_eq_nil_iff.mpr fun item hmem => hnone item (hadded item hmem)]

theorem eq_some_of_mem {dadr : Nat} {map : ChangeMap} (hrep : Represents log maps)
    (hmem : map ∈ log.changeMaps dadr) : maps dadr = some map := by
  rw [hrep.agree dadr] at hmem
  exact Option.mem_toList.mp hmem

theorem eq_none_of_no_item {dadr : Nat} (hrep : Represents log maps)
    (hnone : ∀ item ∈ log.entries, isItem .change dadr item = false) : maps dadr = none := by
  have hmaps : log.changeMaps dadr = [] := List.filterMap_eq_nil_iff.mpr fun item hmem => by
    rw [changeMap, if_neg (by rw [hnone item hmem]; exact Bool.false_ne_true)]
  rw [hrep.agree dadr] at hmaps
  exact Option.toList_eq_nil_iff.mp hmaps

theorem register (hrep : Represents log maps) (dadr : Nat) (change : ChangeMap → ChangeMap)
    (start : ChangeMap) :
    Represents (log.registerChange dadr change start) (maps.register dadr change start) := by
  rcases hrep.proper.registerChange dadr change start with
    ⟨old, hmem, hold, hyields⟩ | ⟨hnone, hyields⟩
  · obtain ⟨htag, hblock⟩ := isItem_cases hold
    obtain ⟨map, hinfo⟩ := hrep.formed old hmem htag
    have hnew : mapItem change old = ⟨.change, dadr, .chngmap (change map)⟩ := by
      rw [mapItem, hinfo, ← htag, ← hblock]
    have hmap := hrep.eq_some_of_mem
      (List.mem_filterMap.mpr ⟨old, hmem, changeMap_of_info hold hinfo⟩)
    rw [hnew] at hyields
    refine hrep.yields hyields (by simp) fun other => ?_
    by_cases heq : other = dadr
    · subst heq
      rw [PageMaps.register, Function.update_self, hmap,
        List.filterMap_cons_some (changeMap_of_info hold hinfo),
        List.filterMap_cons_some (changeMap_of_info (by simp [isItem]) rfl)]
      exact List.Perm.swap _ _ _
    · rw [PageMaps.register, Function.update_of_ne heq,
        List.filterMap_cons_none (changeMap_of_block (hblock ▸ Ne.symm heq)),
        List.filterMap_cons_none (changeMap_of_block (Ne.symm heq))]
  · have hmap := hrep.eq_none_of_no_item hnone
    refine hrep.yields hyields (by simp) fun other => ?_
    by_cases heq : other = dadr
    · subst heq
      rw [PageMaps.register, Function.update_self, hmap,
        List.filterMap_cons_some (changeMap_of_info (by simp [isItem]) rfl)]
      exact List.Perm.refl _
    · rw [PageMaps.register, Function.update_of_ne heq,
        List.filterMap_cons_none (changeMap_of_block (Ne.symm heq))]

theorem pieceChanged (hrep : Represents log maps) (dadr offs32 len32 : Nat) :
    Represents (log.pieceChanged dadr offs32 len32) (maps.pieceChanged dadr offs32 len32) := by
  simp only [Log.pieceChanged, PageMaps.pieceChanged]
  induction List.range len32 generalizing log maps with
  | nil => exact hrep
  | cons i rest ih => exact ih (hrep.register dadr _ _)

theorem dropPageChanges (hrep : Represents log maps) (dadr : Nat) :
    Represents (log.dropPageChanges dadr) (Function.update maps dadr none) := by
  obtain ⟨removed, hyields, hremoved, hleft⟩ := hrep.proper.dropPageChanges dadr
  refine hrep.yields hyields (by simp) fun other => ?_
  by_cases heq : other = dadr
  · subst heq
    have hnone : (log.dropPageChanges other).entries.filterMap (changeMap other) = [] :=
      List.filterMap_eq_nil_iff.mpr fun item hmem => by
        rw [changeMap, if_neg (by rw [hleft item hmem]; exact Bool.false_ne_true)]
    have hview := hyields.view (changeMap other)
    rw [hnone] at hview
    rw [Function.update_self, ← hrep.agree other]
    exact hview
  · rw [Function.update_of_ne heq, List.filterMap_eq_nil_iff.mpr fun item hmem =>
      changeMap_of_block ((isItem_cases (hremoved item hmem)).2 ▸ Ne.symm heq)]
    exact List.Perm.refl _

theorem step (hrep : Represents log maps) (op : LogOp) :
    Represents (logStep log op) (maps.step op) := by
  cases op with
  | recChanged dadr recsize recpos => exact hrep.register dadr _ _
  | pageChanged dadr => exact hrep.register dadr _ _
  | indexPageChanged dadr => exact hrep.register dadr _ _
  | pagePrivate dadr => exact hrep.register dadr _ _
  | pieceChanged dadr offs32 len32 => exact hrep.pieceChanged dadr offs32 len32
  | dropPageChanges dadr => exact hrep.dropPageChanges dadr
  | registerObject objnum =>
      exact hrep.touches (hrep.proper.step (.registerObject objnum)) (by simp [LogOp.tags])
  | unregisterObject objnum =>
      exact hrep.touches (hrep.proper.step (.unregisterObject objnum)) (by simp [LogOp.tags])
  | pageAllocated dadr =>
      exact hrep.touches (hrep.proper.step (.pageAllocated dadr)) (by simp [LogOp.tags])
  | pageDeallocated dadr =>
      exact hrep.touches (hrep.proper.step (.pageDeallocated dadr)) (by simp [LogOp.tags])
  | pieceAllocated dadr len32 offs32 =>
      exact hrep.touches (hrep.proper.step (.pieceAllocated dadr len32 offs32)) (by simp [LogOp.tags])
  | pieceDeallocated dadr len32 offs32 =>
      exact hrep.touches (hrep.proper.step (.pieceDeallocated dadr len32 offs32)) (by simp [LogOp.tags])
  | setSapos any => exact hrep.touches (hrep.proper.step (.setSapos any)) (by simp [LogOp.tags])
  | recordInserted tabnum rec =>
      exact hrep.touches (hrep.proper.step (.recordInserted tabnum rec)) (by simp [LogOp.tags])
  | recordReleased tabnum rec =>
      exact hrep.touches (hrep.proper.step (.recordReleased tabnum rec)) (by simp [LogOp.tags])

theorem start (hsound : log.Sound) (hcontains : log.contains = 0) :
    Represents log fun _ => none where
  proper := hsound.proper_of_nothing hcontains
  formed := by simp [hsound.no_entries hcontains]
  agree := by simp [changeMaps, hsound.no_entries hcontains]

end Represents

/-! The registrations of one log. A slot is a record of a page. -/

structure Slot where
  dadr : Nat
  recsize : Nat
  recpos : Nat
  deriving DecidableEq

def LogOp.slots : LogOp → List Slot
  | recChanged dadr recsize recpos => [⟨dadr, recsize, recpos⟩]
  | pieceChanged dadr offs32 len32 => (List.range len32).map fun i => ⟨dadr, k32, offs32 + i⟩
  | _ => []

/-- The page that is registered as wholly changed; a record may fill its page. -/
def LogOp.whole : LogOp → Option Nat
  | recChanged dadr recsize _ => if recsize ≥ BLOCKSIZE then some dadr else none
  | pageChanged dadr => some dadr
  | _ => none

/-- The page whose private copy is released. -/
def LogOp.dropped : LogOp → Option Nat
  | dropPageChanges dadr => some dadr
  | _ => none

structure Registrations where
  log : Log
  slots : List Slot
  whole : List Nat
  deriving DecidableEq

def registrationStep (state : Registrations) (op : LogOp) : Registrations where
  log := logStep state.log op
  slots := op.slots ++ state.slots.filter (op.dropped ≠ some ·.dadr)
  whole := op.whole.toList ++ state.whole.filter (op.dropped ≠ some ·)

namespace Registrations

/-- The record lies in its page. -/
def Ok (_ : Registrations) : LogOp → Prop
  | .recChanged _ recsize recpos => recsize < BLOCKSIZE → recpos < BLOCKSIZE / recsize
  | .pieceChanged _ offs32 len32 => offs32 + len32 ≤ BLOCKSIZE / k32
  | _ => True

/-- The size of the record is the one of the map, and a page that is changed wholly is
not registered as a page of an index. -/
def Fits (state : Registrations) : LogOp → Prop
  | .recChanged dadr recsize _ => ∀ map ∈ state.log.changeMaps dadr, map.fits recsize
  | .pieceChanged dadr _ _ => ∀ map ∈ state.log.changeMaps dadr, map.fits k32
  | .indexPageChanged dadr => ChangeMap.full ∉ state.log.changeMaps dadr
  | _ => True

instance Ok.decide : ∀ state op, Decidable (Ok state op)
  | _, .recChanged _ recsize recpos =>
      inferInstanceAs (Decidable (recsize < BLOCKSIZE → recpos < BLOCKSIZE / recsize))
  | _, .pieceChanged _ offs32 len32 => inferInstanceAs (Decidable (offs32 + len32 ≤ BLOCKSIZE / k32))
  | _, .registerObject _ | _, .unregisterObject _ | _, .pageChanged _ | _, .indexPageChanged _
  | _, .pagePrivate _ | _, .dropPageChanges _ | _, .pageAllocated _ | _, .pageDeallocated _
  | _, .pieceAllocated _ _ _ | _, .pieceDeallocated _ _ _ | _, .setSapos _
  | _, .recordInserted _ _ | _, .recordReleased _ _ => isTrue trivial

instance Fits.decide : ∀ state op, Decidable (Fits state op)
  | state, .recChanged dadr recsize _ =>
      inferInstanceAs (Decidable (∀ map ∈ state.log.changeMaps dadr, map.fits recsize))
  | state, .pieceChanged dadr _ _ =>
      inferInstanceAs (Decidable (∀ map ∈ state.log.changeMaps dadr, map.fits k32))
  | state, .indexPageChanged dadr =>
      inferInstanceAs (Decidable (ChangeMap.full ∉ state.log.changeMaps dadr))
  | _, .registerObject _ | _, .unregisterObject _ | _, .pageChanged _
  | _, .pagePrivate _ | _, .dropPageChanges _ | _, .pageAllocated _ | _, .pageDeallocated _
  | _, .pieceAllocated _ _ _ | _, .pieceDeallocated _ _ _ | _, .setSapos _
  | _, .recordInserted _ _ | _, .recordReleased _ _ => isTrue trivial

/-- Every registered page has one map, which covers its slots and is full when the
page is registered as wholly changed. -/
structure Complete (state : Registrations) : Prop where
  slots : ∀ slot ∈ state.slots, ∃ map, state.log.changeMaps slot.dadr = [map] ∧
    map.covers slot.recsize slot.recpos
  whole : ∀ dadr ∈ state.whole, state.log.changeMaps dadr = [.full]

end Registrations

namespace PageMaps

structure Covers (maps : PageMaps) (slots : List Slot) (whole : List Nat) : Prop where
  sized : ∀ dadr map, maps dadr = some map → map.sized
  slots : ∀ slot ∈ slots, ∃ map, maps slot.dadr = some map ∧
    map.covers slot.recsize slot.recpos
  whole : ∀ dadr ∈ whole, maps dadr = some .full

variable {maps : PageMaps} {slots : List Slot} {whole : List Nat}

/-- What a registration has to do with the map of its page. -/
theorem Covers.register {dadr : Nat} {change : ChangeMap → ChangeMap} {start : ChangeMap}
    (hcovers : maps.Covers slots whole) (hstart : start.sized)
    (hchange : ∀ map, maps dadr = some map → (change map).sized ∧
      ∀ recsize recpos, map.covers recsize recpos → (change map).covers recsize recpos)
    (hfull : maps dadr = some .full → change .full = .full) :
    (maps.register dadr change start).Covers slots whole where
  sized := by
    intro other map hmap
    by_cases heq : other = dadr
    · subst heq
      rw [PageMaps.register, Function.update_self] at hmap
      obtain rfl := Option.some.inj hmap
      cases hold : maps other with
      | none => exact hstart
      | some old => exact (hchange old hold).1
    · rw [PageMaps.register, Function.update_of_ne heq] at hmap
      exact hcovers.sized other map hmap
  slots := by
    intro slot hslot
    obtain ⟨map, hmap, hcovered⟩ := hcovers.slots slot hslot
    by_cases heq : slot.dadr = dadr
    · rw [heq] at hmap ⊢
      rw [PageMaps.register, Function.update_self, hmap]
      exact ⟨_, rfl, (hchange map hmap).2 _ _ hcovered⟩
    · rw [PageMaps.register, Function.update_of_ne heq]
      exact ⟨map, hmap, hcovered⟩
  whole := by
    intro other hother
    have hmap := hcovers.whole other hother
    by_cases heq : other = dadr
    · subst heq
      rw [PageMaps.register, Function.update_self, hmap]
      exact congrArg some (hfull hmap)
    · rwa [PageMaps.register, Function.update_of_ne heq]

theorem recChanged_self (maps : PageMaps) (dadr recsize recpos : Nat) :
    maps.recChanged dadr recsize recpos dadr = some ((maps dadr).elim
      (Log.ChangeMap.start recsize recpos) (Log.ChangeMap.add recsize recpos)) := by
  rw [PageMaps.recChanged, PageMaps.register, Function.update_self]

theorem Covers.recChanged {dadr recsize recpos : Nat} (hcovers : maps.Covers slots whole)
    (hpos : recsize < BLOCKSIZE → recpos < BLOCKSIZE / recsize)
    (hfits : ∀ map ∈ maps dadr, map.fits recsize) :
    (maps.recChanged dadr recsize recpos).Covers
      ((LogOp.recChanged dadr recsize recpos).slots ++ slots)
      ((LogOp.recChanged dadr recsize recpos).whole.toList ++ whole) := by
  have hregister : (maps.recChanged dadr recsize recpos).Covers slots whole :=
    hcovers.register ChangeMap.start_sized (fun map hmap =>
      ⟨ChangeMap.add_sized (hcovers.sized dadr map hmap), fun _ _ hcovered =>
        ChangeMap.add_keeps (hfits map hmap) hcovered⟩) fun _ => rfl
  refine ⟨hregister.sized, List.forall_mem_append.mpr ⟨?_, hregister.slots⟩,
    List.forall_mem_append.mpr ⟨?_, hregister.whole⟩⟩
  · refine List.forall_mem_singleton.mpr ⟨_, recChanged_self _ _ _ _, ?_⟩
    cases hmap : maps dadr with
    | none => exact ChangeMap.start_covers hpos
    | some map => exact ChangeMap.add_covers (hcovers.sized dadr map hmap) hpos
  · intro other hother
    simp only [LogOp.whole] at hother
    split at hother
    · rename_i hlarge
      rw [List.mem_singleton.mp hother, recChanged_self]
      cases hmap : maps dadr with
      | none => exact congrArg some (if_pos hlarge)
      | some map =>
          exact congrArg some
            (ChangeMap.add_whole (hfits map hmap) (hcovers.sized dadr map hmap) hlarge)
    · cases hother

theorem Covers.pieceChanged {dadr offs32 : Nat} (len32 : Nat) (hcovers : maps.Covers slots whole)
    (hpos : offs32 + len32 ≤ BLOCKSIZE / k32) (hfits : ∀ map ∈ maps dadr, map.fits k32) :
    (maps.pieceChanged dadr offs32 len32).Covers
        ((LogOp.pieceChanged dadr offs32 len32).slots ++ slots) whole ∧
      ∀ map ∈ maps.pieceChanged dadr offs32 len32 dadr, map.fits k32 := by
  induction len32 with
  | zero => exact ⟨hcovers, hfits⟩
  | succ len32 ih =>
      obtain ⟨hstarts, hstartsFits⟩ := ih (by omega)
      have hlast : maps.pieceChanged dadr offs32 (len32 + 1) =
          (maps.pieceChanged dadr offs32 len32).recChanged dadr k32 (offs32 + len32) := by
        simp only [PageMaps.pieceChanged, List.range_succ, List.foldl_append, List.foldl_cons,
          List.foldl_nil]
      have hstep := @Covers.recChanged _ _ _ dadr k32 (offs32 + len32) hstarts
        (fun _ => by omega) hstartsFits
      rw [hlast]
      refine ⟨⟨hstep.sized, fun slot hslot => hstep.slots slot ?_, hstep.whole⟩, ?_⟩
      · simp only [LogOp.slots, List.range_succ, List.map_append, List.map_cons, List.map_nil,
          List.mem_append, List.mem_singleton] at hslot ⊢
        tauto
      · intro map hmap
        rw [recChanged_self] at hmap
        obtain rfl := Option.some.inj hmap
        cases maps.pieceChanged dadr offs32 len32 dadr with
        | none => exact @ChangeMap.add_fits .none k32 _ (by decide)
        | some old => exact ChangeMap.add_fits (by decide)

/-- The release of the private copy forgets the registrations of its page. -/
theorem Covers.drop (hcovers : maps.Covers slots whole) (dadr : Nat) :
    Covers (Function.update maps dadr none) (slots.filter (some dadr ≠ some ·.dadr))
      (whole.filter (some dadr ≠ some ·)) where
  sized := by
    intro other map hmap
    by_cases heq : other = dadr
    · rw [heq, Function.update_self] at hmap
      cases hmap
    · rw [Function.update_of_ne heq] at hmap
      exact hcovers.sized other map hmap
  slots := by
    intro slot hslot
    obtain ⟨hmem, hother⟩ := List.mem_filter.mp hslot
    have hne : slot.dadr ≠ dadr := by
      rintro rfl
      simp at hother
    rw [Function.update_of_ne hne]
    exact hcovers.slots slot hmem
  whole := by
    intro other hmem
    obtain ⟨hmem, hother⟩ := List.mem_filter.mp hmem
    have hne : other ≠ dadr := by
      rintro rfl
      simp at hother
    rw [Function.update_of_ne hne]
    exact hcovers.whole other hmem

end PageMaps

namespace Registrations

variable {state : Registrations} {op : LogOp}

def Covered (state : Registrations) : Prop :=
  ∃ maps, Represents state.log maps ∧ maps.Covers state.slots state.whole

theorem Covered.complete (hcovered : state.Covered) : state.Complete := by
  obtain ⟨maps, hrep, hcovers⟩ := hcovered
  constructor
  · intro slot hslot
    obtain ⟨map, hmap, hcover⟩ := hcovers.slots slot hslot
    refine ⟨map, ?_, hcover⟩
    rw [hrep.agree, hmap, Option.toList_some]
  · intro dadr hwhole
    rw [hrep.agree, hcovers.whole dadr hwhole, Option.toList_some]

/-- The lists after an operation that releases no page. -/
theorem registrationStep_kept (hdropped : op.dropped = none) :
    (registrationStep state op).slots = op.slots ++ state.slots ∧
      (registrationStep state op).whole = op.whole.toList ++ state.whole := by
  simp only [registrationStep, hdropped]
  constructor
  · exact congrArg _ (List.filter_eq_self.mpr fun _ _ => by simp)
  · exact congrArg _ (List.filter_eq_self.mpr fun _ _ => by simp)

theorem Covered.step (hcovered : state.Covered) (hok : Ok state op) (hfits : Fits state op) :
    (registrationStep state op).Covered := by
  obtain ⟨maps, hrep, hcovers⟩ := hcovered
  refine ⟨maps.step op, hrep.step op, ?_⟩
  have hmaps : ∀ dadr, ∀ map ∈ maps dadr, map ∈ state.log.changeMaps dadr := by
    intro dadr map hmap
    rw [hrep.agree dadr]
    exact Option.mem_toList.mpr hmap
  have hkept := fun hdropped => @registrationStep_kept state op hdropped
  cases op with
  | dropPageChanges dadr => exact hcovers.drop dadr
  | recChanged dadr recsize recpos =>
      obtain ⟨hslots, hwhole⟩ := hkept rfl
      rw [hslots, hwhole]
      exact hcovers.recChanged hok fun map hmap => hfits map (hmaps dadr map hmap)
  | pieceChanged dadr offs32 len32 =>
      obtain ⟨hslots, hwhole⟩ := hkept rfl
      rw [hslots, hwhole]
      exact (hcovers.pieceChanged len32 hok fun map hmap => hfits map (hmaps dadr map hmap)).1
  | pageChanged dadr =>
      obtain ⟨hslots, hwhole⟩ := hkept rfl
      rw [hslots, hwhole]
      have hregister : (maps.register dadr (fun _ => .full) .full).Covers state.slots state.whole :=
        hcovers.register trivial (fun _ _ => ⟨trivial, fun _ _ _ =>
          ChangeMap.covers_of_whole trivial⟩) fun _ => rfl
      refine ⟨hregister.sized, hregister.slots, List.forall_mem_cons.mpr ⟨?_, hregister.whole⟩⟩
      change Function.update maps dadr _ dadr = _
      rw [Function.update_self]
      cases maps dadr <;> rfl
  | indexPageChanged dadr =>
      obtain ⟨hslots, hwhole⟩ := hkept rfl
      rw [hslots, hwhole]
      exact hcovers.register trivial (fun _ _ => ⟨trivial, fun _ _ _ =>
        ChangeMap.covers_of_whole trivial⟩) fun hfull =>
          absurd (hmaps dadr _ hfull) hfits
  | pagePrivate dadr =>
      obtain ⟨hslots, hwhole⟩ := hkept rfl
      rw [hslots, hwhole]
      exact hcovers.register trivial (fun map hmap =>
        ⟨hcovers.sized dadr map hmap, fun _ _ hcovered => hcovered⟩) fun _ => rfl
  | registerObject _ | unregisterObject _ | pageAllocated _ | pageDeallocated _
  | pieceAllocated _ _ _ | pieceDeallocated _ _ _ | setSapos _ | recordInserted _ _
  | recordReleased _ _ =>
      obtain ⟨hslots, hwhole⟩ := hkept rfl
      rw [hslots, hwhole]
      exact hcovers

end Registrations

/-- In a run whose registrations fit, the maps of the pages are complete. -/
theorem changeMaps_complete {log : Log} {ops : List LogOp} (hsound : log.Sound)
    (hcontains : log.contains = 0)
    (hmeets : Run.Meets registrationStep (fun state op => state.Ok op ∧ state.Fits op)
      ⟨log, [], []⟩ ops) :
    Run.Always registrationStep Registrations.Complete ⟨log, [], []⟩ ops :=
  Run.always_of_invariant Registrations.Covered (fun _ hcovered => hcovered.complete)
    (fun _ _ hcovered hok => hcovered.step hok.1 hok.2)
    ⟨_, Represents.start hsound hcontains, by simp, by simp, by simp⟩ hmeets

theorem changeMaps_complete_initial :
    Run.Always registrationStep Registrations.Complete ⟨.initial, [], []⟩
      [.pagePrivate 40, .recChanged 40 100 7, .setSapos true, .recChanged 40 100 30,
        .pieceChanged 41 4 2, .pageChanged 40, .recChanged 40 200 3, .indexPageChanged 42,
        .recChanged 42 100 0, .pageChanged 42, .dropPageChanges 40, .recChanged 40 4096 0,
        .recordInserted 5 1, .recChanged 43 64 9] :=
  changeMaps_complete Log.sound_initial rfl (by decide)

/-- A record of another size replaces the map. -/
theorem slot_forgotten :
    Run.Meets registrationStep Registrations.Ok ⟨.initial, [], []⟩
        [.recChanged 40 100 0, .recChanged 40 200 5] ∧
      ¬ Run.Always registrationStep Registrations.Complete ⟨.initial, [], []⟩
        [.recChanged 40 100 0, .recChanged 40 200 5] := by
  refine ⟨by decide, fun halways => ?_⟩
  obtain ⟨map, hmap, hcovers⟩ := halways.last.slots ⟨40, 100, 0⟩ (by decide)
  have hlast : (Run.run registrationStep ⟨.initial, [], []⟩
      [.recChanged 40 100 0, .recChanged 40 200 5]).log.changeMaps 40 =
        [.records 200 [5]] := by decide
  obtain rfl := List.singleton_inj.mp (hlast.symm.trans hmap)
  obtain ⟨part, hpart, hlow, -⟩ := hcovers 0 (by decide) (by decide) (by decide)
  obtain ⟨pos, hpos, rfl⟩ := List.mem_map.mp hpart
  have hchanged := of_decide_eq_true (List.mem_filter.mp hpos).2
  rw [List.mem_singleton.mp hchanged] at hlow
  exact absurd hlow (by decide)

end Sql602.TransLog
