import Sql602.Library.Run
import Sql602.Disk.Transparency

namespace Sql602.Disk

open Files

/-! Runs of a server with hot backups. A crash leaves the auxiliary file, and the
next start of the server restores the list from it. -/

inductive BackupServer where
  | idle
  | busy (support : BackupSupport) (restoring : Bool)
  | down (hnd : File)

/-- `last` has what was successfully written last, `frozen` is the database file as
it was at the last `prepare`, and `truthful` tells whether all reads were right. -/
structure BackupRun where
  db : DbFile
  server : BackupServer
  last : Nat → Option (List UInt8)
  frozen : DbFile
  truthful : Bool

inductive BackupOp where
  | prepare
  | write (block : Nat) (contents : List UInt8) (added : Bool) (head data : Nat) (written : Bool)
  | read (block : Nat) (auxReadable readable : Bool)
  | allocate (maxPhysBlock : Nat) (grown : Bool)
  | startPhase2 (expanded : Bool)
  | copy (readable written : Bool) (head : Nat)
  | unprepare
  | crash
  | crashInWrite (block : Nat) (contents : List UInt8)
  | crashInCopy (readable written : Bool)
  | restart (count : Nat)

namespace BackupServer

def support : BackupServer → Option BackupSupport
  | busy support _ => some support
  | _ => none

def withSupport : BackupServer → Option BackupSupport → BackupServer
  | busy _ restoring, some support => busy support restoring
  | server, _ => server

/-- Clients are served. -/
def isOpen : BackupServer → Bool
  | idle => true
  | busy _ restoring => !restoring
  | down _ => false

def isDown : BackupServer → Bool
  | down _ => true
  | _ => false

/-- A backup is going on, and what it keeps in memory is as given. -/
def Holds (condition : BackupSupport → Prop) : BackupServer → Prop
  | busy support _ => condition support
  | _ => False

end BackupServer

namespace BackupRun

def ffa (state : BackupRun) : Ffa := ⟨state.db, state.server.support⟩

def withFfa (state : BackupRun) (ffa : Ffa) : BackupRun :=
  { state with db := ffa.db, server := state.server.withSupport ffa.backupSupport }

/-- A read that reports an error is no wrong answer when the database file cannot be
read. -/
def rightAnswer (state : BackupRun) (block : Nat) (readable : Bool) (result : ReadResult) : Bool :=
  match state.last block with
  | none => true
  | some contents => result == .contents contents || (result == .error && !readable)

/-- The auxiliary file between the two file writes of a page write. -/
def halfWritten (blockSize : Nat) (support : BackupSupport) (block : Nat) (contents : List UInt8) :
    File :=
  if support.phase2 then (support.invalidateBlock blockSize block 4).hnd
  else (support.writeBlock blockSize block contents true 4 0).2.hnd

def step (blockSize : Nat) (state : BackupRun) : BackupOp → BackupRun
  | .prepare =>
      { state with
        server := .busy (BackupSupport.prepare blockSize none state.db.size) false
        frozen := state.db }
  | .write block contents added head data written =>
      let wr := state.ffa.rawWriteBlock blockSize block contents added head data written
      { state.withFfa wr.2 with
        last := if wr.1 then state.last else Function.update state.last block (some contents) }
  | .read block auxReadable readable =>
      { state with
        truthful := state.truthful && state.rightAnswer block readable
          (state.ffa.rawReadBlock blockSize block auxReadable readable) }
  | .allocate maxPhysBlock grown =>
      state.withFfa (state.ffa.extendDatabaseIfOutside maxPhysBlock grown)
  | .startPhase2 expanded =>
      match state.server with
      | .busy support _ => state.withFfa (state.ffa.startPhase2 support expanded)
      | _ => state
  | .copy readable written head =>
      match state.server with
      | .busy support restoring =>
          { state with
            db := state.ffa.copyBlock blockSize support readable written
            server := .busy (support.removeRecord blockSize head) restoring }
      | _ => state
  | .unprepare => { state with server := .idle }
  | .crash =>
      match state.server with
      | .busy support _ => { state with server := .down support.hnd }
      | _ => state
  | .crashInWrite block contents =>
      match state.server with
      | .busy support _ =>
          { state with server := .down (halfWritten blockSize support block contents) }
      | _ => state
  | .crashInCopy readable written =>
      match state.server with
      | .busy support _ =>
          { state with
            db := state.ffa.copyBlock blockSize support readable written
            server := .down support.hnd }
      | _ => state
  | .restart count =>
      match state.server with
      | .down hnd =>
          { state with
            server := .busy (BackupSupport.prepare blockSize (some (hnd, count)) state.db.size) true
            frozen := state.db }
      | _ => state

end BackupRun

namespace BackupOp

/-- Clients write whole blocks while the server serves them; the phases of a backup
follow each other. -/
def Legal (blockSize : Nat) (state : BackupRun) : BackupOp → Prop
  | .prepare => state.server.isOpen = true ∧ state.server.support.isNone = true
  | .write block contents _ _ _ _ | .crashInWrite block contents =>
      state.server.isOpen = true ∧ block < invalidBlock ∧ contents.length = blockSize
  | .read block _ _ => state.server.isOpen = true ∧ block < invalidBlock
  | .allocate _ _ => state.server.isOpen = true
  | .startPhase2 _ => state.server.Holds fun support => support.phase2 = false
  | .copy _ _ _ | .crashInCopy _ _ =>
      state.server.Holds fun support =>
        support.phase2 = true ∧ support.start < support.list.length
  | .unprepare =>
      state.server.Holds fun support =>
        support.phase2 = true ∧ support.start = support.list.length
  | .crash => True
  | .restart _ => state.server.isDown = true

end BackupOp

/-- Every removed record with contents has its mark in the file; the records before
`bound` are given contents by the next write. -/
def BackupSupport.Marked (blockSize : Nat) (support : BackupSupport) (bound : Nat) : Prop :=
  ∀ pos < support.list.length, support.list[pos]? = some invalidBlock →
    (Complete blockSize support.hnd pos ∨ pos < bound) →
    support.hnd.read (place blockSize pos) 4 = some (blockHead invalidBlock)

namespace BackupOp

/-- A file operation on the auxiliary file or on the database file that fails does
not concern a block whose last contents are in the auxiliary file, and a crash does
not come while a mark is missing or while such a block is without its record. -/
def Safe (blockSize : Nat) (support : BackupSupport) : BackupOp → Prop
  | .write block _ _ head data written =>
      if support.phase2 then
        (support.find block < support.list.length →
          head = 0 ∨ ¬ support.Gap blockSize (support.find block)) ∧
        (support.HasVersion blockSize block → written = true)
      else
        (head = 0 ∨ ¬ support.Gap blockSize (support.find block)) ∧
        (support.HasVersion blockSize block → head < 4 ∨ data = 0 ∨ blockSize ≤ data)
  | .read block auxReadable _ => support.HasVersion blockSize block → auxReadable = true
  | .copy readable written _ =>
      support.list[support.start]? ≠ some invalidBlock →
        Complete blockSize support.hnd support.start → readable = true ∧ written = true
  | .crash | .crashInCopy _ _ => support.Marked blockSize 0
  | .crashInWrite block _ =>
      if support.phase2 = true ∧ support.find block = support.list.length then
        support.Marked blockSize 0
      else
        support.Marked blockSize (support.find block) ∧
          ¬ support.Gap blockSize (support.find block) ∧
          (support.phase2 = true → ¬ support.HasVersion blockSize block)
  | _ => True

/-- What a restart does not read is of no account. -/
def Restores (blockSize : Nat) (hnd : File) : BackupOp → Prop
  | .restart count =>
      ∀ pos, Complete blockSize hnd pos →
        hnd.read (place blockSize pos) 4 ≠ some (blockHead invalidBlock) → pos < count
  | _ => True

def Ok (blockSize : Nat) (state : BackupRun) (op : BackupOp) : Prop :=
  op.Legal blockSize state ∧
    match state.server with
    | .idle => True
    | .busy support _ => op.Safe blockSize support
    | .down hnd => op.Restores blockSize hnd

end BackupOp

namespace BackupRun

structure Right (state : BackupRun) : Prop where
  reads : state.truthful = true
  frozen : ∀ support restoring, state.server = .busy support restoring →
    support.phase2 = false → state.db = state.frozen
  synchronized : state.server = .idle → ∀ block contents, state.last block = some contents →
    state.db.Has block contents

def booted (db : DbFile) : BackupRun where
  db := db
  server := .idle
  last := fun block => if block < db.size then some (db.blocks block) else none
  frozen := db
  truthful := true

end BackupRun

/-! Between a crash and the restart. -/

variable {blockSize : Nat}

/-- The records that a restart takes over. -/
structure Kept (blockSize : Nat) (hnd : File) (block pos : Nat) : Prop where
  valid : block ≠ invalidBlock
  number : block < 2 ^ 32
  complete : Complete blockSize hnd pos
  head : hnd.read (place blockSize pos) 4 = some (blockHead block)

namespace BackupSupport

variable {support : BackupSupport} {db : DbFile} {last : Nat → Option (List UInt8)}

theorem Sound.kept_of_stored {block pos : Nat} (hsound : support.Sound blockSize db last)
    (hstored : support.Stored blockSize block pos) : Kept blockSize support.hnd block pos := by
  have hin : place blockSize pos + 4 ≤ support.hnd.size := by
    have hcomplete := hstored.complete
    have hsucc := place_succ blockSize pos
    simp only [Complete] at hcomplete
    omega
  exact ⟨hstored.valid, hsound.numbers block (List.mem_of_getElem? hstored.listed),
    hstored.complete, hsound.heads pos block hstored.start hstored.listed hstored.valid hin⟩

theorem Sound.kept (hsound : support.Sound blockSize db last)
    (hmarked : support.Marked blockSize 0) :
    Keeps blockSize (Kept blockSize support.hnd) support.hnd db last := by
  refine hsound.keeps.congr (fun block pos => ⟨fun hkept => ?_, hsound.kept_of_stored⟩)
    fun _ _ _ => rfl
  · have hhead : ∀ other, other < 2 ^ 32 →
        support.hnd.read (place blockSize pos) 4 = some (blockHead other) → other = block :=
      fun other hother hread => blockHead_inj hother hkept.number
        (Option.some.inj (hread.symm.trans hkept.head))
    rcases Nat.lt_or_ge pos support.list.length with hlt | hge
    · have hget := List.getElem?_eq_getElem hlt
      have hvalid : support.list[pos] ≠ invalidBlock := by
        intro hinvalid
        rw [hinvalid] at hget
        have hmark := hmarked pos hlt hget (Or.inl hkept.complete)
        exact hkept.valid (hhead invalidBlock (by decide) hmark).symm
      have hstart : support.start ≤ pos := by
        by_contra hbefore
        have hdone := hsound.done pos (by omega)
        exact hvalid (Option.some.inj (hget.symm.trans hdone))
      have hin : place blockSize pos + 4 ≤ support.hnd.size := within_of_read hkept.head
      have hread := hsound.heads pos _ hstart hget hvalid hin
      have hsame := hhead _ (hsound.numbers _ (List.getElem_mem hlt)) hread
      exact ⟨hkept.valid, hstart, hsame ▸ hget, hkept.complete⟩
    · have hmark := hsound.behind pos hge hkept.complete
      exact absurd (hhead invalidBlock (by decide) hmark).symm hkept.valid

/-! What a restart finds. -/

theorem restoreList_get (hnd : File) (count start i : Nat) :
    (restoreList blockSize hnd count start)[i]? =
      if i < count then (hnd.read (place blockSize (start + i)) 4).map Digits.value else none := by
  induction count generalizing start i with
  | zero => simp [restoreList]
  | succ count ih =>
      cases hread : hnd.read (place blockSize start) 4 with
      | none =>
          have hout : hnd.size < place blockSize start + 4 := by
            by_contra hin
            rw [read_eq_some (by omega)] at hread
            cases hread
          have hmono := @place_mono blockSize start (start + i) (by omega)
          rw [read_eq_none (by omega)]
          simp [restoreList, hread]
      | some head =>
          simp only [restoreList, hread]
          cases i with
          | zero => simp [hread]
          | succ i =>
              rw [List.getElem?_cons_succ, ih (start + 1) i]
              simp only [Nat.add_lt_add_iff_right, Nat.add_assoc, Nat.add_comm 1 i]

theorem restored_get {hnd : File} {count pos block : Nat} :
    (restoreList blockSize hnd count 0)[pos]? = some block ↔
      pos < count ∧ block < 2 ^ 32 ∧
        hnd.read (place blockSize pos) 4 = some (blockHead block) := by
  rw [restoreList_get, Nat.zero_add]
  split
  case isFalse hge => simp [hge]
  case isTrue hlt =>
    rw [Option.map_eq_some_iff]
    constructor
    · rintro ⟨head, hread, rfl⟩
      have hin := within_of_read hread
      have hslice := hread
      rw [read_eq_some hin] at hslice
      have hlength : head.length = 4 := by
        rw [← Option.some.inj hslice, Bytes.slice_length]
      have hvalue := Digits.value_lt head
      rw [hlength] at hvalue
      exact ⟨hlt, hvalue, by rw [hread, blockHead_value hlength]⟩
    · rintro ⟨_, hnumber, hread⟩
      exact ⟨blockHead block, hread, value_blockHead hnumber⟩

theorem sound_restored {hnd : File} {count : Nat} {fileBlockCount : Nat}
    (hkeeps : Keeps blockSize (Kept blockSize hnd) hnd db last)
    (hrestores : ∀ pos, Complete blockSize hnd pos →
      hnd.read (place blockSize pos) 4 ≠ some (blockHead invalidBlock) → pos < count) :
    (prepare blockSize (some (hnd, count)) fileBlockCount).Sound blockSize db last where
  keeps := by
    refine hkeeps.congr (fun block pos => ⟨fun hstored => ?_, fun hkept => ?_⟩) fun _ _ _ => rfl
    · obtain ⟨_, hnumber, hread⟩ := restored_get.mp hstored.listed
      exact ⟨hstored.valid, hnumber, hstored.complete, hread⟩
    · refine ⟨hkept.valid, Nat.zero_le _, restored_get.mpr ⟨hrestores pos hkept.complete ?_,
        hkept.number, hkept.head⟩, hkept.complete⟩
      rw [hkept.head]
      exact fun h => hkept.valid (blockHead_inj hkept.number (by decide) (Option.some.inj h))
  heads := fun pos block _ hlisted _ _ => (restored_get.mp hlisted).2.2
  numbers := by
    intro block hmem
    obtain ⟨pos, hpos⟩ := List.mem_iff_getElem?.mp hmem
    exact (restored_get.mp hpos).2.1
  startLe := Nat.zero_le _
  done := fun pos hpos => absurd hpos (Nat.not_lt_zero pos)
  behind := by
    intro pos hge hcomplete
    by_contra hvalid
    have hlt := hrestores pos hcomplete hvalid
    have hin : place blockSize pos + 4 ≤ hnd.size := by
      have hsucc := place_succ blockSize pos
      have hcomplete' : place blockSize (pos + 1) ≤ hnd.size := hcomplete
      omega
    have hget : (restoreList blockSize hnd count 0)[pos]? = some (Digits.value
        (Bytes.slice hnd.bytes (place blockSize pos) 4)) := by
      rw [restoreList_get, Nat.zero_add, if_pos hlt, read_eq_some hin]
      rfl
    have hlength := (List.getElem?_eq_some_iff.mp hget).1
    exact absurd hge (Nat.not_le_of_lt hlength)

theorem sound_prepared {fileBlockCount : Nat}
    (hall : ∀ block contents, last block = some contents → db.Has block contents) :
    (prepare blockSize none fileBlockCount).Sound blockSize db last where
  keeps :=
    { version := fun block pos hstored => by cases hstored.listed
      once := fun block pos pos' hstored => by cases hstored.listed
      elsewhere := fun block contents hlast _ => hall block contents hlast }
  heads := fun pos block _ hlisted => by cases hlisted
  numbers := fun block hmem => by cases hmem
  startLe := Nat.zero_le _
  done := fun pos hpos => absurd hpos (Nat.not_lt_zero pos)
  behind := by
    intro pos _ hcomplete
    have hsucc := place_succ blockSize pos
    have hempty : place blockSize (pos + 1) ≤ 0 := hcomplete
    omega

/-! A crash in the middle of a page write. -/

theorem Touched.marked {next : BackupSupport} {pos : Nat}
    (htouched : Touched blockSize pos support next) (hmarked : support.Marked blockSize pos)
    (hhead : next.list[pos]? = some invalidBlock →
      next.hnd.read (place blockSize pos) 4 = some (blockHead invalidBlock)) :
    next.Marked blockSize 0 := by
  intro other _ hlisted hcomplete
  have hcomplete := hcomplete.resolve_right (Nat.not_lt_zero other)
  by_cases hne : other = pos
  · subst hne
    exact hhead hlisted
  · rw [htouched.others other hne] at hlisted
    have hlt := (List.getElem?_eq_some_iff.mp hlisted).1
    have hread : support.hnd.read (place blockSize other) 4 = some (blockHead invalidBlock) := by
      refine hmarked other hlt hlisted ?_
      rcases Nat.lt_or_gt_of_ne hne with hbefore | hbehind
      · exact Or.inr hbefore
      · exact Or.inl (htouched.complete_behind hbehind hcomplete)
    rw [htouched.read_head hne (within_of_read hread), hread]

theorem Sound.halfWritten {block : Nat} {contents : List UInt8}
    (hsound : support.Sound blockSize db last) (hpos : 0 < blockSize)
    (hvalid : block < invalidBlock) (hlength : contents.length = blockSize)
    (hroom : support.phase2 = false →
      support.hnd.size ≤ place blockSize support.list.length)
    (hsafe : (BackupOp.crashInWrite block contents).Safe blockSize support) :
    Keeps blockSize (Kept blockSize (BackupRun.halfWritten blockSize support block contents))
      (BackupRun.halfWritten blockSize support block contents) db last := by
  simp only [BackupOp.Safe] at hsafe
  simp only [BackupRun.halfWritten]
  cases hphase : support.phase2 with
  | false =>
      rw [hphase, if_neg (fun h => Bool.false_ne_true h.1)] at hsafe
      obtain ⟨hmarked, hgap, _⟩ := hsafe
      rw [if_neg Bool.false_ne_true]
      have hadded : ¬ (support.find block = support.list.length ∧ true = false) :=
        fun h => Bool.noConfusion h.2
      obtain ⟨htouched, hplace⟩ := @Sound.touched_writeBlock blockSize support block db last
        contents true 4 0 hsound hvalid hlength (hroom hphase) hadded (Or.inr hgap)
        fun _ => Or.inr (Or.inl rfl)
      have hnext := (@Sound.writeBlock blockSize support block db last contents true 4 0 hsound
        hvalid hlength (hroom hphase) (Or.inr hgap) fun _ => Or.inr (Or.inl rfl)).1
      have hfailed : (support.writeBlock blockSize block contents true 4 0).1 = false := by
        rw [writeBlock_eq hadded, writeRecord_full (Nat.le_refl _), writeFile_short (by omega)]
      rw [hfailed, if_neg Bool.false_ne_true] at hnext
      refine hnext.kept (htouched.marked hmarked fun hinvalid => ?_)
      have hsame := Option.some.inj (hplace.symm.trans hinvalid)
      omega
  | true =>
      rw [if_pos rfl]
      by_cases hend : support.find block = support.list.length
      · rw [hphase, if_pos ⟨rfl, hend⟩] at hsafe
        rw [show support.invalidateBlock blockSize block 4 = support from if_pos hend]
        exact hsound.kept hsafe
      · rw [hphase, if_neg (fun h => hend h.2)] at hsafe
        obtain ⟨hmarked, hgap, hnone⟩ := hsafe
        have hlt : support.find block < support.list.length :=
          Nat.lt_of_le_of_ne (find_le hsound.startLe) hend
        have hnext := @Sound.invalidateBlock blockSize support block db last contents 4 false hsound
          hvalid (fun _ => Or.inr hgap) fun hhas => absurd hhas (hnone rfl)
        have hresult : support.invalidateBlock blockSize block 4 = _ := if_neg hend
        refine hnext.kept ?_
        rw [hresult]
        refine (markTouched hlt (Or.inr hgap) support.start).marked hmarked fun _ => ?_
        exact read_write_same (blockHead_ne_nil invalidBlock)

end BackupSupport

/-! The two phases of a page write. -/

section RawWriteBlock

variable {support : BackupSupport} {db : DbFile} {block : Nat} {contents : List UInt8}
  {added : Bool} {head data : Nat} {written : Bool}

theorem Ffa.rawWriteBlock_phase1 (hphase : support.phase2 = false) :
    (Ffa.mk db (some support)).rawWriteBlock blockSize block contents added head data written =
      (!(support.writeBlock blockSize block contents added head data).1,
        ⟨db, some (support.writeBlock blockSize block contents added head data).2⟩) := by
  simp only [Ffa.rawWriteBlock]
  exact if_pos (by rw [hphase]; exact Bool.false_ne_true)

theorem Ffa.rawWriteBlock_phase2 (hphase : support.phase2 = true) :
    (Ffa.mk db (some support)).rawWriteBlock blockSize block contents added head data written =
      ((db.encWriteBlock block contents written).1,
        ⟨(db.encWriteBlock block contents written).2,
          some (support.invalidateBlock blockSize block head)⟩) := by
  simp only [Ffa.rawWriteBlock]
  exact if_neg (not_not_intro hphase)

theorem BackupSupport.writeBlock_frame :
    (support.writeBlock blockSize block contents added head data).2.start = support.start ∧
      (support.writeBlock blockSize block contents added head data).2.phase2 = support.phase2 := by
  simp only [BackupSupport.writeBlock]
  split
  · exact ⟨rfl, rfl⟩
  · split
    · exact ⟨rfl, rfl⟩
    · exact ⟨rfl, rfl⟩

theorem BackupSupport.invalidateBlock_phase :
    (support.invalidateBlock blockSize block head).phase2 = support.phase2 := by
  simp only [BackupSupport.invalidateBlock]
  split
  · rfl
  · rfl

end RawWriteBlock

/-- A step that touches neither the records nor what the database file has. -/
theorem BackupSupport.Sound.sameRecords {support next : BackupSupport} {db db' : DbFile}
    {last : Nat → Option (List UInt8)} (hsound : support.Sound blockSize db last)
    (hhnd : next.hnd = support.hnd) (hlist : next.list = support.list)
    (hstart : next.start = support.start)
    (hdb : ∀ block contents, db.Has block contents → db'.Has block contents) :
    next.Sound blockSize db' last where
  keeps := by
    have hsame : ∀ block pos, next.Stored blockSize block pos ↔
        support.Stored blockSize block pos := by
      intro block pos
      constructor
      · rintro ⟨hvalid, hbefore, hlisted, hcomplete⟩
        exact ⟨hvalid, hstart ▸ hbefore, hlist ▸ hlisted, hhnd ▸ hcomplete⟩
      · rintro ⟨hvalid, hbefore, hlisted, hcomplete⟩
        exact ⟨hvalid, hstart ▸ hbefore, hlist ▸ hlisted, hhnd ▸ hcomplete⟩
    obtain ⟨hversion, honce, helsewhere⟩ :=
      hsound.keeps.congr hsame fun _ _ _ => rfl
    rw [hhnd]
    exact ⟨hversion, honce, fun block contents hlast hnone =>
      hdb block contents (helsewhere block contents hlast hnone)⟩
  heads := by
    rw [hhnd, hlist, hstart]
    exact hsound.heads
  numbers := by
    rw [hlist]
    exact hsound.numbers
  startLe := by
    rw [hlist, hstart]
    exact hsound.startLe
  done := by
    rw [hlist, hstart]
    exact hsound.done
  behind := by
    rw [hhnd, hlist]
    exact hsound.behind

/-! The invariant of runs. -/

/-- Before the second phase the database file is frozen, and, unless the list is
being restored, the auxiliary file has no more records than the list. -/
structure BackupSupport.Phase1 (blockSize : Nat) (support : BackupSupport) (restoring : Bool)
    (db frozen : DbFile) : Prop where
  start : support.start = 0
  same : db = frozen
  room : restoring = false → support.hnd.size ≤ place blockSize support.list.length

def BackupServer.Sound (blockSize : Nat) (db frozen : DbFile)
    (last : Nat → Option (List UInt8)) : BackupServer → Prop
  | .idle => ∀ block contents, last block = some contents → db.Has block contents
  | .busy support restoring =>
      support.Sound blockSize db last ∧
        (support.phase2 = false → support.Phase1 blockSize restoring db frozen)
  | .down hnd => Keeps blockSize (Kept blockSize hnd) hnd db last

structure BackupRun.Sound (blockSize : Nat) (state : BackupRun) : Prop where
  server : state.server.Sound blockSize state.db state.frozen state.last
  truthful : state.truthful = true

namespace BackupRun.Sound

variable {state : BackupRun}

theorem right (hsound : state.Sound blockSize) : state.Right where
  reads := hsound.truthful
  frozen := by
    intro support restoring hserver hphase
    have hbusy := hsound.server
    rw [hserver] at hbusy
    exact (hbusy.2 hphase).same
  synchronized := by
    intro hserver
    have hidle := hsound.server
    rw [hserver] at hidle
    exact hidle

theorem prepare (hsound : state.Sound blockSize)
    (hok : BackupOp.prepare.Ok blockSize state) : (state.step blockSize .prepare).Sound blockSize := by
  obtain ⟨db, server, last, frozen, truthful⟩ := state
  obtain ⟨⟨hopen, hnone⟩, _⟩ := hok
  cases server with
  | idle =>
      refine ⟨⟨BackupSupport.sound_prepared hsound.server, fun _ => ⟨rfl, rfl, fun _ => ?_⟩⟩,
        hsound.truthful⟩
      exact Nat.zero_le _
  | busy support restoring => cases hnone
  | down hnd => cases hopen

theorem write {block : Nat} {contents : List UInt8} {added : Bool} {head data : Nat}
    {written : Bool} (hsound : state.Sound blockSize)
    (hok : (BackupOp.write block contents added head data written).Ok blockSize state) :
    (state.step blockSize (.write block contents added head data written)).Sound blockSize := by
  obtain ⟨db, server, last, frozen, truthful⟩ := state
  obtain ⟨⟨hopen, hvalid, hlength⟩, hsafe⟩ := hok
  refine ⟨?_, hsound.truthful⟩
  cases server with
  | idle =>
      intro other value hlast
      cases written with
      | false => exact hsound.server other value hlast
      | true =>
          by_cases hother : other = block
          · subst hother
            have hnew : Function.update last other (some contents) other = some value := hlast
            rw [Function.update_self] at hnew
            obtain rfl := Option.some.inj hnew
            exact DbFile.Has.written
          · have hold : Function.update last block (some contents) other = some value := hlast
            rw [Function.update_of_ne hother] at hold
            exact (hsound.server other value hold).other hother
  | busy support restoring =>
      obtain ⟨hsupport, hphase1⟩ := hsound.server
      simp only [BackupOp.Safe] at hsafe
      cases hphase : support.phase2 with
      | false =>
          rw [hphase, if_neg Bool.false_ne_true] at hsafe
          have hstart := hphase1 hphase
          have hroom := hstart.room (by simpa [BackupServer.isOpen] using hopen)
          obtain ⟨hnext, hfile⟩ := @BackupSupport.Sound.writeBlock blockSize support block db last
            contents added head data hsupport hvalid hlength hroom hsafe.1 hsafe.2
          obtain ⟨hsame, _⟩ := @BackupSupport.writeBlock_frame blockSize support block contents
            added head data
          have hraw := @Ffa.rawWriteBlock_phase1 blockSize support db block contents added head data
            written hphase
          simp only [step, ffa, BackupServer.support, hraw]
          refine ⟨?_, fun _ => ⟨hsame.trans hstart.start, hstart.same, fun _ => hfile⟩⟩
          cases hstored : (support.writeBlock blockSize block contents added head data).1 with
          | true =>
              rw [hstored, if_pos rfl] at hnext
              exact hnext
          | false =>
              rw [hstored, if_neg Bool.false_ne_true] at hnext
              exact hnext
      | true =>
          rw [hphase, if_pos rfl] at hsafe
          have hnext := @BackupSupport.Sound.invalidateBlock blockSize support block db last contents
            head written hsupport hvalid hsafe.1 hsafe.2
          have hraw := @Ffa.rawWriteBlock_phase2 blockSize support db block contents added head data
            written hphase
          simp only [step, ffa, BackupServer.support, hraw]
          refine ⟨hnext, fun hfirst => ?_⟩
          rw [BackupSupport.invalidateBlock_phase, hphase] at hfirst
          cases hfirst
  | down hnd => cases hopen

theorem allocate {maxPhysBlock : Nat} {grown : Bool} (hsound : state.Sound blockSize)
    (hok : (BackupOp.allocate maxPhysBlock grown).Ok blockSize state) :
    (state.step blockSize (.allocate maxPhysBlock grown)).Sound blockSize := by
  obtain ⟨db, server, last, frozen, truthful⟩ := state
  obtain ⟨hopen, _⟩ := hok
  refine ⟨?_, hsound.truthful⟩
  simp only [step, ffa]
  cases server with
  | idle =>
      simp only [BackupServer.support, Ffa.extendDatabaseIfOutside]
      split
      case isTrue hgrown =>
        intro other value hlast
        obtain ⟨hin, hvalue⟩ := hsound.server other value hlast
        have hsize : other < db.size := hin
        exact ⟨show other < maxPhysBlock + 1 by omega, hvalue⟩
      case isFalse => exact hsound.server
  | busy support restoring =>
      simp only [BackupServer.support, Ffa.extendDatabaseIfOutside]
      split
      · obtain ⟨hsupport, hphase1⟩ := hsound.server
        refine ⟨hsupport.sameRecords rfl rfl rfl fun _ _ hhas => hhas, fun hphase => ?_⟩
        have hfirst := hphase1 hphase
        exact ⟨hfirst.start, hfirst.same, hfirst.room⟩
      · exact hsound.server
  | down hnd => cases hopen

end BackupRun.Sound

theorem Ffa.startPhase2_has {ffa : Ffa} {support : BackupSupport} {expanded : Bool} {block : Nat}
    {contents : List UInt8} (hhas : ffa.db.Has block contents) :
    (ffa.startPhase2 support expanded).db.Has block contents := by
  simp only [Ffa.startPhase2]
  split
  case isTrue hgrown => exact ⟨Nat.lt_trans hhas.1 hgrown.1, hhas.2⟩
  case isFalse => exact hhas

/-- A read finds the contents of a block that was written. -/
theorem Ffa.dbRead_has {ffa : Ffa} {block : Nat} {contents : List UInt8} {readable : Bool}
    (hhas : ffa.db.Has block contents) :
    ffa.dbRead block readable = if readable then .contents contents else .error := by
  obtain ⟨hin, hvalue⟩ := hhas
  cases readable with
  | true => rw [Ffa.dbRead, if_pos ⟨hin, rfl⟩, hvalue, if_pos rfl]
  | false => exact if_neg fun h => Bool.false_ne_true h.2

theorem Ffa.rawReadBlock_last {db : DbFile} {support : BackupSupport} {block : Nat}
    {contents : List UInt8} {auxReadable readable : Bool} {last : Nat → Option (List UInt8)}
    (hsound : support.Sound blockSize db last) (hvalid : block ≠ invalidBlock)
    (hlast : last block = some contents)
    (hread : support.HasVersion blockSize block → auxReadable = true) :
    (Ffa.mk db (some support)).rawReadBlock blockSize block auxReadable readable =
        .contents contents ∨
      (Ffa.mk db (some support)).rawReadBlock blockSize block auxReadable readable =
        if readable then .contents contents else .error := by
  by_cases hhas : support.HasVersion blockSize block
  · obtain rfl := hread hhas
    obtain ⟨hlt, hcomplete⟩ := hhas
    have hrd := hsound.read_record ⟨hvalid, BackupSupport.start_le_find,
      BackupSupport.get_find hlt, hcomplete⟩ hlast
    have hblock : support.readBlock blockSize block true = some contents := by
      rw [BackupSupport.readBlock, if_neg (Nat.ne_of_lt hlt), hrd]
    left
    simp only [Ffa.rawReadBlock, hblock]
  · have hhasDb : db.Has block contents := by
      refine hsound.keeps.elsewhere block contents hlast fun pos hstored => hhas ?_
      exact (hsound.hasVersion_iff hvalid).mpr ⟨pos, hstored⟩
    have hblock : support.readBlock blockSize block auxReadable = none := by
      rw [BackupSupport.readBlock]
      split
      case isTrue => rfl
      case isFalse hlisted =>
        have hlt := Nat.lt_of_le_of_ne (BackupSupport.find_le hsound.startLe) hlisted
        rw [BackupSupport.rd]
        split
        · refine read_eq_none ?_
          by_contra hin
          refine hhas ⟨hlt, ?_⟩
          have hsucc := place_succ blockSize (support.find block)
          simp only [Complete]
          omega
        · rfl
    right
    simp only [Ffa.rawReadBlock, hblock]
    rw [if_neg fun h => Nat.not_lt_of_le h.1 hhasDb.1]
    exact Ffa.dbRead_has hhasDb

namespace BackupRun

variable {state : BackupRun}

theorem rightAnswer_of {block : Nat} {readable : Bool} {result : ReadResult}
    (hanswer : ∀ contents, state.last block = some contents →
      result = .contents contents ∨ result = if readable then .contents contents else .error) :
    state.rightAnswer block readable result = true := by
  simp only [rightAnswer]
  cases hlast : state.last block with
  | none => rfl
  | some contents =>
      rcases hanswer contents hlast with rfl | rfl
      · simp
      · cases readable with
        | true => simp
        | false => simp

namespace Sound

theorem read {block : Nat} {auxReadable readable : Bool} (hsound : state.Sound blockSize)
    (hok : (BackupOp.read block auxReadable readable).Ok blockSize state) :
    (state.step blockSize (.read block auxReadable readable)).Sound blockSize := by
  obtain ⟨⟨hopen, hvalid⟩, hsafe⟩ := hok
  refine ⟨hsound.server, ?_⟩
  simp only [step, hsound.truthful, Bool.true_and]
  refine rightAnswer_of fun contents hlast => ?_
  obtain ⟨db, server, last, frozen, truthful⟩ := state
  cases server with
  | idle => exact Or.inr (Ffa.dbRead_has (hsound.server block contents hlast))
  | busy support restoring =>
      exact Ffa.rawReadBlock_last hsound.server.1 (Nat.ne_of_lt hvalid) hlast hsafe
  | down hnd => cases hopen

theorem startPhase2 {expanded : Bool} (hsound : state.Sound blockSize)
    (hok : (BackupOp.startPhase2 expanded).Ok blockSize state) :
    (state.step blockSize (.startPhase2 expanded)).Sound blockSize := by
  obtain ⟨db, server, last, frozen, truthful⟩ := state
  obtain ⟨hphase, _⟩ := hok
  cases server with
  | idle => cases hphase
  | busy support restoring =>
      obtain ⟨hsupport, hphase1⟩ := hsound.server
      refine ⟨⟨hsupport.sameRecords rfl rfl (hphase1 hphase).start.symm ?_, fun hfirst => ?_⟩,
        hsound.truthful⟩
      · exact fun block contents hhas => Ffa.startPhase2_has hhas
      · cases hfirst
  | down hnd => cases hphase

theorem copy {readable written : Bool} {head : Nat} (hsound : state.Sound blockSize)
    (hok : (BackupOp.copy readable written head).Ok blockSize state) :
    (state.step blockSize (.copy readable written head)).Sound blockSize := by
  obtain ⟨db, server, last, frozen, truthful⟩ := state
  obtain ⟨hlegal, hsafe⟩ := hok
  cases server with
  | idle => cases hlegal
  | busy support restoring =>
      obtain ⟨hphase, hlt⟩ := hlegal
      refine ⟨⟨hsound.server.1.copyRecord hlt hsafe, fun hfirst => ?_⟩, hsound.truthful⟩
      have hsame : (support.removeRecord blockSize head).phase2 = support.phase2 := by
        simp only [BackupSupport.removeRecord]
        split
        · rfl
        · rfl
      rw [hsame, hphase] at hfirst
      cases hfirst
  | down hnd => cases hlegal

theorem unprepare (hsound : state.Sound blockSize)
    (hok : BackupOp.unprepare.Ok blockSize state) :
    (state.step blockSize .unprepare).Sound blockSize := by
  obtain ⟨db, server, last, frozen, truthful⟩ := state
  obtain ⟨hlegal, _⟩ := hok
  cases server with
  | idle => cases hlegal
  | busy support restoring =>
      exact ⟨fun block contents hlast => hsound.server.1.finished hlegal.2 hlast, hsound.truthful⟩
  | down hnd => cases hlegal

theorem crash (hsound : state.Sound blockSize) (hok : BackupOp.crash.Ok blockSize state) :
    (state.step blockSize .crash).Sound blockSize := by
  obtain ⟨db, server, last, frozen, truthful⟩ := state
  cases server with
  | idle => exact hsound
  | busy support restoring => exact ⟨hsound.server.1.kept hok.2, hsound.truthful⟩
  | down hnd => exact hsound

theorem crashInWrite {block : Nat} {contents : List UInt8} (hpos : 0 < blockSize)
    (hsound : state.Sound blockSize)
    (hok : (BackupOp.crashInWrite block contents).Ok blockSize state) :
    (state.step blockSize (.crashInWrite block contents)).Sound blockSize := by
  obtain ⟨db, server, last, frozen, truthful⟩ := state
  obtain ⟨⟨hopen, hvalid, hlength⟩, hsafe⟩ := hok
  cases server with
  | idle => exact hsound
  | busy support restoring =>
      refine ⟨hsound.server.1.halfWritten hpos hvalid hlength (fun hphase => ?_) hsafe,
        hsound.truthful⟩
      exact (hsound.server.2 hphase).room (by simpa [BackupServer.isOpen] using hopen)
  | down hnd => exact hsound

theorem crashInCopy {readable written : Bool} (hsound : state.Sound blockSize)
    (hok : (BackupOp.crashInCopy readable written).Ok blockSize state) :
    (state.step blockSize (.crashInCopy readable written)).Sound blockSize := by
  obtain ⟨db, server, last, frozen, truthful⟩ := state
  obtain ⟨hlegal, hsafe⟩ := hok
  cases server with
  | idle => cases hlegal
  | busy support restoring =>
      obtain ⟨hsupport, _⟩ := hsound.server
      refine ⟨?_, hsound.truthful⟩
      have hkept := hsupport.kept hsafe
      simp only [BackupRun.step]
      rcases Ffa.copyBlock_cases (ffa ⟨db, .busy support restoring, last, frozen, truthful⟩)
        support readable written with heq | ⟨blk, buf, hlisted, hvalid, hcomplete, heq⟩
      · rw [heq]
        exact hkept
      · rw [heq]
        exact hkept.overwrite (hsupport.kept_of_stored ⟨hvalid, Nat.le_refl _, hlisted, hcomplete⟩)
          fun other contents hne hhas => hhas.other hne
  | down hnd => cases hlegal

theorem restart {count : Nat} (hsound : state.Sound blockSize)
    (hok : (BackupOp.restart count).Ok blockSize state) :
    (state.step blockSize (.restart count)).Sound blockSize := by
  obtain ⟨db, server, last, frozen, truthful⟩ := state
  obtain ⟨hlegal, hrestores⟩ := hok
  cases server with
  | idle => cases hlegal
  | busy support restoring => cases hlegal
  | down hnd =>
      exact ⟨⟨BackupSupport.sound_restored hsound.server hrestores, fun _ =>
        ⟨rfl, rfl, fun h => by cases h⟩⟩, hsound.truthful⟩

theorem step {op : BackupOp} (hpos : 0 < blockSize) (hsound : state.Sound blockSize)
    (hok : op.Ok blockSize state) : (state.step blockSize op).Sound blockSize := by
  cases op with
  | prepare => exact hsound.prepare hok
  | write block contents added head data written => exact hsound.write hok
  | read block auxReadable readable => exact hsound.read hok
  | allocate maxPhysBlock grown => exact hsound.allocate hok
  | startPhase2 expanded => exact hsound.startPhase2 hok
  | copy readable written head => exact hsound.copy hok
  | unprepare => exact hsound.unprepare hok
  | crash => exact hsound.crash hok
  | crashInWrite block contents => exact hsound.crashInWrite hpos hok
  | crashInCopy readable written => exact hsound.crashInCopy hok
  | restart count => exact hsound.restart hok

end Sound

theorem sound_booted (db : DbFile) : (booted db).Sound blockSize where
  server := by
    intro block contents hlast
    simp only [booted] at hlast
    split at hlast
    case isTrue hlt => exact ⟨hlt, Option.some.inj hlast⟩
    case isFalse => cases hlast
  truthful := rfl

end BackupRun

theorem backup_transparent {blockSize : Nat} {db : DbFile} {ops : List BackupOp}
    (hpos : 0 < blockSize)
    (hmeets : Run.Meets (BackupRun.step blockSize) (fun state op => op.Ok blockSize state)
      (BackupRun.booted db) ops) :
    Run.Always (BackupRun.step blockSize) BackupRun.Right (BackupRun.booted db) ops :=
  Run.always_of_invariant (BackupRun.Sound blockSize) (fun _ hsound => hsound.right)
    (fun _ _ hsound hok => hsound.step hpos hok) (BackupRun.sound_booted db) hmeets

section Decide

variable (blockSize : Nat) (support : BackupSupport)

instance (condition : BackupSupport → Prop) [∀ support, Decidable (condition support)] :
    (server : BackupServer) → Decidable (server.Holds condition)
  | .idle => isFalse not_false
  | .busy support _ => inferInstanceAs (Decidable (condition support))
  | .down _ => isFalse not_false

instance (pos : Nat) : Decidable (support.Gap blockSize pos) :=
  inferInstanceAs (Decidable (∃ before < pos, _ ∧ _ ∧ _))

instance (block : Nat) : Decidable (support.HasVersion blockSize block) :=
  inferInstanceAs (Decidable (_ ∧ _))

instance (bound : Nat) : Decidable (support.Marked blockSize bound) :=
  inferInstanceAs (Decidable (∀ pos < support.list.length, _ → _ → _))

instance BackupOp.decideLegal (state : BackupRun) : (op : BackupOp) → Decidable (op.Legal blockSize state)
  | .prepare => inferInstanceAs (Decidable (_ ∧ _))
  | .write _ _ _ _ _ _ => inferInstanceAs (Decidable (_ ∧ _ ∧ _))
  | .read _ _ _ => inferInstanceAs (Decidable (_ ∧ _))
  | .allocate _ _ => inferInstanceAs (Decidable (_ = _))
  | .startPhase2 _ => inferInstanceAs (Decidable (state.server.Holds _))
  | .copy _ _ _ => inferInstanceAs (Decidable (state.server.Holds _))
  | .unprepare => inferInstanceAs (Decidable (state.server.Holds _))
  | .crash => isTrue trivial
  | .crashInWrite _ _ => inferInstanceAs (Decidable (_ ∧ _ ∧ _))
  | .crashInCopy _ _ => inferInstanceAs (Decidable (state.server.Holds _))
  | .restart _ => inferInstanceAs (Decidable (_ = _))

instance : (op : BackupOp) → Decidable (op.Safe blockSize support)
  | .prepare => isTrue trivial
  | .write block _ _ head data written =>
      inferInstanceAs (Decidable (if support.phase2 = true then
        (support.find block < support.list.length →
          head = 0 ∨ ¬ support.Gap blockSize (support.find block)) ∧
        (support.HasVersion blockSize block → written = true)
      else
        (head = 0 ∨ ¬ support.Gap blockSize (support.find block)) ∧
        (support.HasVersion blockSize block → head < 4 ∨ data = 0 ∨ blockSize ≤ data)))
  | .read _ _ _ => inferInstanceAs (Decidable (_ → _))
  | .allocate _ _ => isTrue trivial
  | .startPhase2 _ => isTrue trivial
  | .copy _ _ _ => inferInstanceAs (Decidable (_ → _ → _))
  | .unprepare => isTrue trivial
  | .crash => inferInstanceAs (Decidable (support.Marked blockSize 0))
  | .crashInWrite block _ =>
      inferInstanceAs (Decidable
        (if support.phase2 = true ∧ support.find block = support.list.length then
          support.Marked blockSize 0
        else
          support.Marked blockSize (support.find block) ∧
            ¬ support.Gap blockSize (support.find block) ∧
            (support.phase2 = true → ¬ support.HasVersion blockSize block)))
  | .crashInCopy _ _ => inferInstanceAs (Decidable (support.Marked blockSize 0))
  | .restart _ => isTrue trivial

/-- Only the records that are in the file matter. -/
theorem restores_iff {hnd : File} {count : Nat} :
    (BackupOp.restart count).Restores blockSize hnd ↔
      ∀ pos < hnd.size / (4 + blockSize), hnd.read (place blockSize pos) 4 ≠
        some (blockHead invalidBlock) → pos < count := by
  have hcomplete : ∀ pos, Complete blockSize hnd pos ↔ pos < hnd.size / (4 + blockSize) := by
    intro pos
    rw [Nat.lt_iff_add_one_le, Nat.le_div_iff_mul_le (by omega)]
    rfl
  exact forall_congr' fun pos => imp_congr_left (hcomplete pos)

instance (hnd : File) : (op : BackupOp) → Decidable (op.Restores blockSize hnd)
  | .restart _ => decidable_of_iff _ (restores_iff blockSize).symm
  | .prepare | .write _ _ _ _ _ _ | .read _ _ _ | .allocate _ _ | .startPhase2 _ | .copy _ _ _
  | .unprepare | .crash | .crashInWrite _ _ | .crashInCopy _ _ => isTrue trivial

instance (op : BackupOp) : (state : BackupRun) → Decidable (op.Ok blockSize state)
  | ⟨_, .idle, _, _, _⟩ => inferInstanceAs (Decidable (_ ∧ True))
  | ⟨_, .busy support _, _, _, _⟩ => inferInstanceAs (Decidable (_ ∧ op.Safe blockSize support))
  | ⟨_, .down hnd, _, _, _⟩ => inferInstanceAs (Decidable (_ ∧ op.Restores blockSize hnd))

end Decide

def emptyBlocks : DbFile := ⟨10, fun _ => List.replicate 4096 0⟩

/-- A crash in the first phase, and a write that the second phase overtakes. -/
def recoveredBackup : List BackupOp :=
  [.prepare, .write 5 (List.replicate 4096 1) true 4 4096 true, .read 5 true true, .crash,
    .restart 1, .startPhase2 true, .copy true true 4, .unprepare, .read 5 true true]

theorem backup_transparent_recovered :
    Run.Always (BackupRun.step 4096) BackupRun.Right (BackupRun.booted emptyBlocks)
      recoveredBackup :=
  backup_transparent (by decide) (by decide +kernel)

/-- The record of a block is removed before the block is written. -/
def overtakenBackup : List BackupOp :=
  [.prepare, .write 5 (List.replicate 4096 1) true 4 4096 true, .startPhase2 true,
    .crashInWrite 5 (List.replicate 4096 2), .restart 1, .startPhase2 true, .copy true true 4,
    .unprepare]

set_option maxRecDepth 40000 in
theorem backup_loses :
    Run.Meets (BackupRun.step 4096) (fun state op => op.Legal 4096 state)
        (BackupRun.booted emptyBlocks) overtakenBackup ∧
      ¬ Run.Always (BackupRun.step 4096) BackupRun.Right (BackupRun.booted emptyBlocks)
        overtakenBackup := by
  refine ⟨by decide +kernel, fun halways => ?_⟩
  obtain ⟨_, hblock⟩ := halways.last.synchronized rfl 5 (List.replicate 4096 1) rfl
  have hold : (0 : UInt8) = 1 := (List.replicate_inj.mp hblock).2.resolve_left (by decide)
  cases hold

end Sql602.Disk
