import Sql602.Library.Closing
import Mathlib.Data.List.Perm.Basic
import Mathlib.Data.List.Induction

namespace Sql602.Compaction

/-! Compacting a table: the last valid records are moved to the first free places. -/

def BLOCKSIZE : Nat := 4096

def NOT_DELETED : UInt8 := 0

def DELETED : UInt8 := 1

def RECORD_EMPTY : UInt8 := 2

/-- The first byte is the state of the record. -/
abbrev Record := List UInt8

def state (record : Record) : UInt8 := record.headD RECORD_EMPTY

def valid (record : Record) : Bool := state record == NOT_DELETED

def deleted (record : Record) : Bool := state record == DELETED

/-- The last column of a record ends on `page` at `offset`. -/
structure TableDescr where
  page : Nat
  offset : Nat
  hasVariableAllocation : Bool
  offset_pos : 0 < offset
  offset_le : offset ≤ BLOCKSIZE

namespace TableDescr

variable (tbdf : TableDescr)

def recordsize : Nat := BLOCKSIZE * tbdf.page + tbdf.offset

def multpage : Bool := 0 < tbdf.page

/-- Pages per record, or records per page. -/
def rectopage : Nat := if tbdf.page = 0 then BLOCKSIZE / tbdf.offset else tbdf.page + 1

def recordCount2BlockCount (recordCount : Nat) : Nat :=
  if recordCount = 0 then 0
  else if tbdf.multpage then tbdf.rectopage * recordCount
  else (recordCount - 1) / tbdf.rectopage + 1

end TableDescr

/-- Writing a part of one record to the same place in another one. -/
def copyPart (dest src : Record) (pos count : Nat) : Record :=
  dest.take pos ++ ((src.drop pos).take count ++ dest.drop (pos + count))

/-- Copying full blocks, as long as there is a block behind the next one. -/
def copyBlocks (rectopage : Nat) : Nat → Nat → Record → Record → Record × Nat
  | 0, pagenum, dest, _ => (dest, pagenum)
  | fuel + 1, pagenum, dest, src =>
      let dest := copyPart dest src (pagenum * BLOCKSIZE) BLOCKSIZE
      if pagenum + 2 < rectopage then copyBlocks rectopage fuel (pagenum + 1) dest src
      else (dest, pagenum + 1)

/-- What is in the place of `dest` after `src` has been moved to it. -/
def moveRecord (tbdf : TableDescr) (dest src : Record) : Record :=
  let (dest, pagenum) :=
    if tbdf.multpage then copyBlocks tbdf.rectopage tbdf.rectopage 0 dest src else (dest, 0)
  copyPart dest src (pagenum * BLOCKSIZE) (tbdf.recordsize % BLOCKSIZE)

/-- The records whose data have been released are in the order of the releases. -/
structure Compacting where
  records : List Record
  released : List Record
  destrec : Nat
  srcrec : Nat
  lastValid : Option Nat

variable (tbdf : TableDescr)

def stateAt (records : List Record) (rec : Nat) : UInt8 := state (records.getD rec [])

/-- The variable-length data of the record are released, its contents are not changed. -/
def release (compacting : Compacting) (rec : Nat) : Compacting :=
  if tbdf.hasVariableAllocation then
    { compacting with released := compacting.released ++ [compacting.records.getD rec []] }
  else compacting

def findEmpty : Nat → Compacting → Compacting
  | 0, compacting => compacting
  | fuel + 1, compacting =>
      if compacting.destrec < compacting.srcrec then
        let dltd := stateAt compacting.records compacting.destrec
        if dltd = RECORD_EMPTY then compacting
        else if dltd = DELETED then release tbdf compacting compacting.destrec
        else
          findEmpty fuel
            { compacting with
              lastValid := some compacting.destrec
              destrec := compacting.destrec + 1 }
      else compacting

def findValid : Nat → Compacting → Compacting
  | 0, compacting => compacting
  | fuel + 1, compacting =>
      if compacting.destrec < compacting.srcrec then
        let dltd := stateAt compacting.records compacting.srcrec
        if dltd = NOT_DELETED then compacting
        else
          let compacting :=
            if dltd = DELETED then release tbdf compacting compacting.srcrec else compacting
          findValid fuel { compacting with srcrec := compacting.srcrec - 1 }
      else compacting

/-- Records below `destrec` are valid, those above `srcrec` are free. -/
def compactLoop : Nat → Compacting → Compacting
  | 0, compacting => compacting
  | fuel + 1, compacting =>
      let compacting := findEmpty tbdf compacting.records.length compacting
      if compacting.destrec = compacting.srcrec then
        if stateAt compacting.records compacting.srcrec = NOT_DELETED then
          { compacting with lastValid := some compacting.srcrec }
        else compacting
      else
        let compacting := findValid tbdf compacting.records.length compacting
        if compacting.srcrec ≤ compacting.destrec then compacting
        else
          let dest := compacting.records.getD compacting.destrec []
          let src := compacting.records.getD compacting.srcrec []
          compactLoop fuel
            { compacting with
              records := compacting.records.set compacting.destrec (moveRecord tbdf dest src)
              lastValid := some compacting.destrec
              destrec := compacting.destrec + 1
              srcrec := compacting.srcrec - 1 }

/-- The blocks behind the needed ones are dropped. -/
def reduceTableBlocks (newRecordSpace : Nat) (records : List Record) : List Record :=
  let newBlockCount := tbdf.recordCount2BlockCount newRecordSpace
  if newBlockCount < tbdf.recordCount2BlockCount records.length then
    records.take (if tbdf.multpage then newBlockCount / tbdf.rectopage
      else newBlockCount * tbdf.rectopage)
  else records

def markEmpty (record : Record) : Record := record.set 0 RECORD_EMPTY

/-- The records of the table after compacting it, and those whose data have been released. -/
def compactTable (records : List Record) : List Record × List Record :=
  if records.length = 0 then (records, [])
  else
    let compacting := compactLoop tbdf records.length ⟨records, [], 0, records.length - 1, none⟩
    let used := compacting.lastValid.elim 0 (· + 1)
    let reduced := reduceTableBlocks tbdf used compacting.records
    (reduced.take used ++ (reduced.drop used).map markEmpty, compacting.released)

/-- All records of the table have the same size and a proper state. -/
structure TableRecords (records : List Record) : Prop where
  sized : ∀ record ∈ records, record.length = tbdf.recordsize
  states : ∀ record ∈ records,
    state record = NOT_DELETED ∨ state record = DELETED ∨ state record = RECORD_EMPTY

end Sql602.Compaction

namespace Sql602.Compaction

/-! What the loops of compacting do with the records between both positions. -/

variable {tbdf : TableDescr} {compacting : Compacting} {front middle back : List Record}
  {fuel : Nat} {d : Record}

/-- `front` has been passed, `middle` is as it was before. -/
structure Standing (front middle back : List Record) (compacting : Compacting) : Prop where
  records : compacting.records = front ++ (middle ++ back)
  dest : compacting.destrec = front.length
  src : compacting.srcrec + 1 = front.length + middle.length
  used : compacting.lastValid.elim 0 (· + 1) = front.length

/-- The records whose data have to be released. -/
def freed (tbdf : TableDescr) (records : List Record) : List Record :=
  if tbdf.hasVariableAllocation then records.filter deleted else []

theorem freed_append {first last : List Record} :
    freed tbdf (first ++ last) = freed tbdf first ++ freed tbdf last := by
  rw [freed, freed, freed]
  split
  · exact List.filter_append ..
  · rfl

theorem freed_perm {first last : List Record} (h : first.Perm last) :
    (freed tbdf first).Perm (freed tbdf last) := by
  rw [freed, freed]
  split
  · exact h.filter _
  · exact List.Perm.refl _

theorem freed_valid {first : List Record} (hfirst : ∀ x ∈ first, valid x = true) :
    freed tbdf first = [] := by
  rw [freed]
  split
  · rw [List.filter_eq_nil_iff]
    intro x hx hdeleted
    have hvalid := beq_iff_eq.mp (hfirst x hx)
    rw [deleted, hvalid] at hdeleted
    exact absurd hdeleted (by decide)
  · rfl

theorem not_valid_of_deleted {x : Record} (h : deleted x = true) : valid x = false := by
  rw [valid, beq_iff_eq.mp h]
  rfl

theorem getD_front {x : Record} {rest : List Record} :
    (front ++ x :: rest).getD front.length [] = x := by
  rw [List.getD_eq_getElem?_getD, List.getElem?_append_right (Nat.le_refl _), Nat.sub_self]
  rfl

theorem Standing.state_dest {rest : List Record}
    (hstanding : Standing front (d :: rest) back compacting) :
    stateAt compacting.records compacting.destrec = state d := by
  rw [stateAt, hstanding.records, hstanding.dest, List.cons_append, getD_front]

theorem Standing.state_src {first : List Record}
    (hstanding : Standing front (first ++ [d]) back compacting) :
    compacting.records.getD compacting.srcrec [] = d := by
  have hsrc : compacting.srcrec = (front ++ first).length := by
    have h := hstanding.src
    rw [List.length_append, List.length_singleton] at h
    rw [List.length_append]
    omega
  rw [hstanding.records, hsrc, List.append_assoc, ← List.append_assoc, List.singleton_append,
    getD_front]

theorem Standing.pass {x : Record} {rest : List Record}
    (hstanding : Standing front (x :: rest) back compacting) :
    Standing (front ++ [x]) rest back
      { compacting with
        lastValid := some compacting.destrec
        destrec := compacting.destrec + 1 } where
  records := by
    rw [List.append_assoc]
    exact hstanding.records
  dest := by
    rw [List.length_append, ← hstanding.dest]
    rfl
  src := by
    have h := hstanding.src
    rw [List.length_cons] at h
    rw [List.length_append, List.length_singleton]
    change compacting.srcrec + 1 = _
    omega
  used := by
    rw [List.length_append, ← hstanding.dest]
    rfl

theorem Standing.release {rec : Nat} (hstanding : Standing front middle back compacting) :
    Standing front middle back (release tbdf compacting rec) := by
  rw [Compaction.release]
  split
  · exact ⟨hstanding.records, hstanding.dest, hstanding.src, hstanding.used⟩
  · exact hstanding

theorem release_released {rec : Nat} {x : Record} (hrec : compacting.records.getD rec [] = x)
    (hx : deleted x = true) :
    (release tbdf compacting rec).released = compacting.released ++ freed tbdf [x] := by
  rw [release, freed]
  split
  · rw [hrec, List.filter_cons_of_pos hx]
    rfl
  · exact (List.append_nil _).symm

/-- The first loop stops on the last record, or on one that is not valid. -/
inductive EmptyFound (tbdf : TableDescr) (released : List Record) :
    List Record → List Record → Prop
  | last (x : Record) : EmptyFound tbdf released [x] released
  | gap (d : Record) (m : List Record) (invalid : valid d = false) (more : m ≠ []) :
      EmptyFound tbdf released (d :: m) (released ++ freed tbdf [d])

theorem findEmpty_spec (hmiddle : middle ≠ []) (hstates : ∀ record ∈ middle,
      state record = NOT_DELETED ∨ state record = DELETED ∨ state record = RECORD_EMPTY)
    (hstanding : Standing front middle back compacting) (hfuel : middle.length ≤ fuel) :
    ∃ first rest, middle = first ++ rest ∧ (∀ x ∈ first, valid x = true) ∧
      Standing (front ++ first) rest back (findEmpty tbdf fuel compacting) ∧
      EmptyFound tbdf compacting.released rest (findEmpty tbdf fuel compacting).released := by
  induction middle generalizing front compacting fuel with
  | nil => exact absurd rfl hmiddle
  | cons x rest ih =>
      rw [List.length_cons] at hfuel
      obtain ⟨fuel, rfl⟩ := Nat.exists_eq_add_of_le' (show 1 ≤ fuel by omega)
      have hsrc := hstanding.src
      have hdest := hstanding.dest
      rw [List.length_cons] at hsrc
      have hrec : compacting.records.getD compacting.destrec [] = x := by
        rw [hstanding.records, hdest, List.cons_append, getD_front]
      cases rest with
      | nil =>
          rw [List.length_nil] at hsrc
          refine ⟨[], [x], rfl, fun _ h => (by cases h), ?_, ?_⟩
          · rw [findEmpty, if_neg (by omega), List.append_nil]
            exact hstanding
          · rw [findEmpty, if_neg (by omega)]
            exact EmptyFound.last x
      | cons y more =>
          rw [List.length_cons] at hsrc
          have hlt : compacting.destrec < compacting.srcrec := by omega
          rw [findEmpty, if_pos hlt, hstanding.state_dest]
          obtain hvalid | hdeleted | hempty := hstates x List.mem_cons_self
          · rw [hvalid]
            simp only [show NOT_DELETED ≠ RECORD_EMPTY by decide,
              show NOT_DELETED ≠ DELETED by decide, if_false]
            obtain ⟨first, rest, heq, hfirst, hnext, hfound⟩ := @ih _ (front ++ [x]) fuel
              (List.cons_ne_nil _ _)
              (fun record h => hstates record (List.mem_cons_of_mem _ h)) hstanding.pass (by omega)
            refine ⟨x :: first, rest, by rw [heq]; rfl, ?_, ?_, hfound⟩
            · intro z hz
              obtain rfl | hz := List.mem_cons.mp hz
              · exact beq_iff_eq.mpr hvalid
              · exact hfirst z hz
            · rw [List.append_cons]
              exact hnext
          · rw [hdeleted]
            simp only [show DELETED ≠ RECORD_EMPTY by decide, if_false, if_true]
            have hx : deleted x = true := beq_iff_eq.mpr hdeleted
            refine ⟨[], x :: y :: more, rfl, fun _ h => (by cases h), ?_, ?_⟩
            · rw [List.append_nil]
              exact hstanding.release
            · rw [release_released hrec hx]
              exact EmptyFound.gap x _ (not_valid_of_deleted hx) (List.cons_ne_nil _ _)
          · rw [hempty]
            simp only [if_true]
            have hx : valid x = false := by
              rw [valid, hempty]
              rfl
            have hnone : freed tbdf [x] = [] := by
              rw [freed]
              split
              · rw [List.filter_cons_of_neg]
                · rfl
                · rw [deleted, hempty]
                  decide
              · rfl
            refine ⟨[], x :: y :: more, rfl, fun _ h => (by cases h), ?_, ?_⟩
            · rw [List.append_nil]
              exact hstanding
            · have hgap := @EmptyFound.gap tbdf compacting.released x _ hx
                (List.cons_ne_nil y more)
              rwa [hnone, List.append_nil] at hgap

/-- The second loop stops on a valid record, or meets the first position. -/
inductive ValidFound (tbdf : TableDescr) (front back : List Record) (d : Record)
    (compacting : Compacting) (m : List Record) : Compacting → Prop
  | met (result : Compacting) (invalid : ∀ x ∈ m, valid x = false)
      (src : result.srcrec = result.destrec) (records : result.records = compacting.records)
      (used : result.lastValid = compacting.lastValid)
      (released : result.released = compacting.released ++ freed tbdf m.reverse) :
      ValidFound tbdf front back d compacting m result
  | found (result : Compacting) (first last : List Record) (s : Record)
      (parts : m = first ++ s :: last) (isValid : valid s = true)
      (invalid : ∀ x ∈ last, valid x = false)
      (standing : Standing front (d :: (first ++ [s])) (last ++ back) result)
      (released : result.released = compacting.released ++ freed tbdf last.reverse) :
      ValidFound tbdf front back d compacting m result

theorem findValid_spec {m : List Record} (hstates : ∀ record ∈ m,
      state record = NOT_DELETED ∨ state record = DELETED ∨ state record = RECORD_EMPTY)
    (hstanding : Standing front (d :: m) back compacting) (hfuel : m.length < fuel) :
    ValidFound tbdf front back d compacting m (findValid tbdf fuel compacting) := by
  induction m using List.reverseRecOn generalizing back compacting fuel with
  | nil =>
      obtain ⟨fuel, rfl⟩ := Nat.exists_eq_add_of_le' (show 1 ≤ fuel from hfuel)
      have hsrc := hstanding.src
      have hdest := hstanding.dest
      rw [List.length_singleton] at hsrc
      rw [findValid, if_neg (by omega)]
      refine ValidFound.met _ (fun x h => (by cases h)) (by omega) rfl rfl ?_
      rw [List.reverse_nil, freed, List.filter_nil, ite_self, List.append_nil]
  | append_singleton m x ih =>
      rw [List.length_append, List.length_singleton] at hfuel
      obtain ⟨fuel, rfl⟩ := Nat.exists_eq_add_of_le' (show 1 ≤ fuel by omega)
      have hsrc := hstanding.src
      have hdest := hstanding.dest
      rw [List.length_cons, List.length_append, List.length_singleton] at hsrc
      have hlt : compacting.destrec < compacting.srcrec := by omega
      have hrec : compacting.records.getD compacting.srcrec [] = x :=
        @Standing.state_src compacting front back x (d :: m) hstanding
      rw [findValid, if_pos hlt]
      dsimp only
      rw [stateAt, hrec]
      split
      · next hvalid =>
          refine ValidFound.found _ m [] x rfl (beq_iff_eq.mpr hvalid) (fun x h => (by cases h))
            hstanding ?_
          rw [List.reverse_nil, freed, List.filter_nil, ite_self, List.append_nil]
      · next hinvalid =>
          have hx : valid x = false := Bool.eq_false_iff.mpr fun h => hinvalid (beq_iff_eq.mp h)
          generalize hafter : (if state x = DELETED then
            release tbdf compacting compacting.srcrec else compacting) = after
          have hstands : Standing front (d :: (m ++ [x])) back after ∧
              after.records = compacting.records ∧ after.lastValid = compacting.lastValid ∧
              after.released = compacting.released ++ freed tbdf [x] := by
            subst hafter
            split
            · next hdeleted =>
                refine ⟨hstanding.release, ?_, ?_, release_released hrec
                  (beq_iff_eq.mpr hdeleted)⟩
                · rw [release]
                  split <;> rfl
                · rw [release]
                  split <;> rfl
            · next hdeleted =>
                refine ⟨hstanding, rfl, rfl, ?_⟩
                have hnot : ¬ deleted x = true := fun h => hdeleted (beq_iff_eq.mp h)
                rw [freed, List.filter_cons_of_neg hnot, List.filter_nil, ite_self,
                  List.append_nil]
          obtain ⟨hafterStanding, hrecords, hused, hreleased⟩ := hstands
          have hback : Standing front (d :: m) (x :: back)
              { after with srcrec := after.srcrec - 1 } := by
            have hsrc := hafterStanding.src
            rw [List.length_cons, List.length_append, List.length_singleton] at hsrc
            refine ⟨?_, hafterStanding.dest, ?_, hafterStanding.used⟩
            · have h := hafterStanding.records
              rw [List.cons_append, List.append_assoc] at h
              exact h
            · change after.srcrec - 1 + 1 = front.length + (d :: m).length
              rw [List.length_cons]
              omega
          have hfreed : freed tbdf (m ++ [x]).reverse =
              freed tbdf [x] ++ freed tbdf m.reverse := by
            rw [List.reverse_append, freed_append]
            rfl
          cases ih (fun record h => hstates record (List.mem_append_left _ h)) hback
              (show m.length < fuel by omega) with
          | met invalid src records used released =>
              refine ValidFound.met _ ?_ src (records.trans hrecords) (used.trans hused) ?_
              · intro y hy
                obtain hy | hy := List.mem_append.mp hy
                · exact invalid y hy
                · rw [List.mem_singleton.mp hy]
                  exact hx
              · rw [released, hfreed, ← List.append_assoc, ← hreleased]
          | found first last s parts isValid invalid standing released =>
              refine ValidFound.found _ first (last ++ [x]) s ?_ isValid ?_ ?_ ?_
              · rw [parts, List.append_assoc, List.cons_append]
              · intro y hy
                obtain hy | hy := List.mem_append.mp hy
                · exact invalid y hy
                · rw [List.mem_singleton.mp hy]
                  exact hx
              · rw [List.append_assoc]
                exact standing
              · rw [released, List.reverse_append, freed_append, ← List.append_assoc,
                  List.reverse_singleton, ← hreleased]

/-- The record on which both positions meet is not released when it is deleted. -/
def leaked (tbdf : TableDescr) (records : List Record) : List Record :=
  if tbdf.hasVariableAllocation then Closing.meeting valid deleted records else []

theorem leaked_front {first last : List Record} (hfirst : ∀ x ∈ first, valid x = true) :
    leaked tbdf (first ++ last) = leaked tbdf last := by
  rw [leaked, leaked, Closing.meeting_front hfirst]

theorem leaked_step {first last : List Record} {s : Record} (hd : valid d = false)
    (hs : valid s = true) (hlast : ∀ x ∈ last, valid x = false) :
    leaked tbdf (d :: (first ++ s :: last)) = leaked tbdf first := by
  rw [leaked, leaked, Closing.meeting_step hd hs hlast fun _ => not_valid_of_deleted]

/-- What the main loop has done with the records between the positions. -/
structure Outcome (tbdf : TableDescr) (front middle : List Record) (before after : Compacting) :
    Prop where
  parts : ∃ done rest, after.records = front ++ (done ++ rest) ∧
    done.Perm (Closing.closed valid (moveRecord tbdf) middle) ∧
    after.lastValid.elim 0 (· + 1) = (front ++ done).length
  length : after.records.length = before.records.length
  released : (after.released ++ leaked tbdf middle).Perm
    (before.released ++ freed tbdf middle)

theorem Outcome.of_front {first rest : List Record} {before middleState after : Compacting}
    (hfirst : ∀ x ∈ first, valid x = true) {more : List Record}
    (hlength : middleState.records.length = before.records.length)
    (hparts : ∃ done others, after.records = front ++ first ++ (done ++ others) ∧
      done.Perm (Closing.closed valid (moveRecord tbdf) rest) ∧
      after.lastValid.elim 0 (· + 1) = (front ++ first ++ done).length)
    (hafter : after.records.length = middleState.records.length)
    (hmore : (after.released ++ leaked tbdf rest).Perm (before.released ++ more))
    (hfreed : more.Perm (freed tbdf rest)) :
    Outcome tbdf front (first ++ rest) before after := by
  obtain ⟨done, others, hrecords, hdone, hused⟩ := hparts
  refine ⟨⟨first ++ done, others, ?_, ?_, ?_⟩, hafter.trans hlength, ?_⟩
  · rw [hrecords, List.append_assoc, List.append_assoc]
  · rw [Closing.closed_front hfirst]
    exact List.Perm.append_left _ hdone
  · rw [hused, List.append_assoc]
  · rw [leaked_front hfirst, freed_append, freed_valid hfirst, List.nil_append]
    exact hmore.trans (List.Perm.append_left _ hfreed)

theorem Standing.length (hstanding : Standing front middle back compacting) :
    compacting.records.length = front.length + (middle.length + back.length) := by
  rw [hstanding.records, List.length_append, List.length_append]

/-- Moving the record on the second position to the first one. -/
theorem Standing.move {first : List Record} {s : Record}
    (hstanding : Standing front (d :: (first ++ [s])) back compacting) :
    Standing (front ++ [moveRecord tbdf d s]) first (s :: back)
      { compacting with
        records := compacting.records.set compacting.destrec
          (moveRecord tbdf (compacting.records.getD compacting.destrec [])
            (compacting.records.getD compacting.srcrec []))
        lastValid := some compacting.destrec
        destrec := compacting.destrec + 1
        srcrec := compacting.srcrec - 1 } := by
  have hdest : compacting.records.getD compacting.destrec [] = d := by
    rw [hstanding.records, hstanding.dest, List.cons_append, getD_front]
  have hsrc : compacting.records.getD compacting.srcrec [] = s :=
    @Standing.state_src compacting front back s (d :: first) hstanding
  have hlength := hstanding.src
  rw [List.length_cons, List.length_append, List.length_singleton] at hlength
  refine ⟨?_, ?_, ?_, ?_⟩
  · dsimp only
    rw [hdest, hsrc, hstanding.records, hstanding.dest,
      List.set_append_right _ _ (Nat.le_refl _), Nat.sub_self]
    simp only [List.cons_append, List.set_cons_zero, List.append_assoc, List.nil_append]
  · rw [List.length_append, List.length_singleton, ← hstanding.dest]
  · change compacting.srcrec - 1 + 1 = _
    rw [List.length_append, List.length_singleton]
    omega
  · rw [List.length_append, List.length_singleton, ← hstanding.dest]
    rfl

theorem compactLoop_spec (hstates : ∀ record ∈ middle,
      state record = NOT_DELETED ∨ state record = DELETED ∨ state record = RECORD_EMPTY)
    (hstanding : Standing front middle back compacting) (hfuel : middle.length ≤ fuel)
    (hpos : 0 < fuel) :
    Outcome tbdf front middle compacting (compactLoop tbdf fuel compacting) := by
  induction fuel generalizing front middle back compacting with
  | zero => exact absurd hpos (Nat.lt_irrefl 0)
  | succ fuel ih =>
      have hlength := hstanding.length
      cases hmiddle : middle with
      | nil =>
          subst hmiddle
          have hsrc := hstanding.src
          have hdest := hstanding.dest
          rw [List.length_nil] at hsrc
          have hstop : ¬ compacting.destrec < compacting.srcrec := by omega
          have hfind : ∀ n, findEmpty tbdf n compacting = compacting := by
            intro n
            cases n with
            | zero => rfl
            | succ n => rw [findEmpty, if_neg hstop]
          have hfindValid : ∀ n, findValid tbdf n compacting = compacting := by
            intro n
            cases n with
            | zero => rfl
            | succ n => rw [findValid, if_neg hstop]
          rw [compactLoop]
          simp only [hfind, hfindValid]
          rw [if_neg (by omega), if_pos (by omega)]
          refine ⟨⟨[], back, hstanding.records, List.Perm.refl _, ?_⟩, rfl, ?_⟩
          · rw [List.append_nil]
            exact hstanding.used
          · rw [leaked, freed]
            split <;> exact List.Perm.refl _
      | cons y more =>
          rw [← hmiddle]
          have hne : middle ≠ [] := by
            rw [hmiddle]
            exact List.cons_ne_nil _ _
          obtain ⟨first, rest, heq, hfirst, hfindStanding, hfound⟩ :=
            @findEmpty_spec tbdf compacting front middle back compacting.records.length hne
              hstates hstanding (by omega)
          have hstatesRest : ∀ record ∈ rest, state record = NOT_DELETED ∨
              state record = DELETED ∨ state record = RECORD_EMPTY :=
            fun record h => hstates record (heq ▸ List.mem_append_right _ h)
          rw [compactLoop]
          generalize findEmpty tbdf compacting.records.length compacting = c1 at *
          have hlength1 := hfindStanding.length
          have hsame : c1.records.length = compacting.records.length := by
            rw [hlength1, hlength, heq, List.length_append, List.length_append]
            omega
          have hsrc := hfindStanding.src
          have hdest := hfindStanding.dest
          subst heq
          generalize hreleased : c1.released = released at hfound
          cases hfound with
          | last x =>
              rw [List.length_singleton] at hsrc
              have hx : c1.records.getD c1.srcrec [] = x :=
                @Standing.state_src c1 (front ++ first) back x [] hfindStanding
              dsimp only
              rw [if_pos (by omega), stateAt, hx]
              split
              · next hvalid =>
                  have hxs : ∀ z ∈ [x], valid z = true := fun z hz => by
                    rw [List.mem_singleton.mp hz]
                    exact beq_iff_eq.mpr hvalid
                  refine Outcome.of_front hfirst hsame ⟨[x], back, ?_, ?_, ?_⟩ rfl ?_
                    (List.Perm.refl _)
                  · exact hfindStanding.records
                  · rw [← List.append_nil [x], Closing.closed_front hxs]
                    exact List.Perm.refl _
                  · rw [List.length_append, List.length_singleton]
                    exact hsrc
                  · have hnone : leaked tbdf [x] = [] := by
                      rw [← List.append_nil [x], leaked_front hxs, leaked]
                      split <;> rfl
                    rw [hnone, freed_valid hxs]
              · next hinvalid =>
                  have hx : valid x = false :=
                    Bool.eq_false_iff.mpr fun h => hinvalid (beq_iff_eq.mp h)
                  have hleaked : leaked tbdf [x] = freed tbdf [x] := by
                    rw [leaked, freed, Closing.meeting_singleton hx]
                    cases hdeleted : deleted x with
                    | true => rw [List.filter_cons_of_pos hdeleted]; rfl
                    | false => rw [List.filter_cons_of_neg (by rw [hdeleted]; decide)]; rfl
                  refine Outcome.of_front hfirst hsame ⟨[], x :: back, ?_, ?_, ?_⟩ rfl ?_
                    (List.Perm.refl _)
                  · exact hfindStanding.records
                  · rw [Closing.closed_none (by simpa using hx)]
                  · rw [List.append_nil]
                    exact hfindStanding.used
                  · rw [hleaked, hreleased]
          | gap d m invalid nonempty =>
              have hm : 0 < m.length := List.length_pos_iff.mpr nonempty
              rw [List.length_cons] at hsrc
              rw [List.length_cons] at hlength1
              have hapart : c1.destrec ≠ c1.srcrec := by omega
              have hvalidFound := @findValid_spec tbdf c1 (front ++ first) back
                c1.records.length d m
                (fun record h => hstatesRest record (List.mem_cons_of_mem _ h)) hfindStanding
                (by omega)
              dsimp only
              rw [if_neg hapart]
              generalize findValid tbdf c1.records.length c1 = c2 at *
              cases hvalidFound with
              | met invalids src records used released =>
                  have hnone : ∀ x ∈ d :: m, valid x = false := by
                    intro x hx
                    obtain rfl | hx := List.mem_cons.mp hx
                    · exact invalid
                    · exact invalids x hx
                  rw [if_pos (Nat.le_of_eq src)]
                  refine @Outcome.of_front _ _ _ _ _ _ _ hfirst
                    (freed tbdf [d] ++ freed tbdf m.reverse) hsame
                    ⟨[], d :: m ++ back, ?_, ?_, ?_⟩ (by rw [records]) ?_ ?_
                  · exact records.trans hfindStanding.records
                  · rw [Closing.closed_none hnone]
                  · rw [List.append_nil, used]
                    exact hfindStanding.used
                  · have hno : leaked tbdf (d :: m) = [] := by
                      rw [leaked, Closing.meeting_none hnone (by rw [List.length_cons]; omega),
                        ite_self]
                    rw [hno, List.append_nil, released, hreleased, List.append_assoc]
                  · rw [← freed_append]
                    exact freed_perm (List.Perm.cons d (List.reverse_perm m))
              | found inner last s parts isValid invalids standing released =>
                  subst parts
                  have hsrc2 := standing.src
                  have hdest2 := standing.dest
                  have hlength2 := standing.length
                  simp only [List.length_cons, List.length_append, List.length_nil]
                    at hsrc2 hdest2 hlength2 hlength1 hfuel
                  rw [if_neg (by omega)]
                  obtain ⟨⟨done, others, hrecords, hdone, hused⟩, htotal, hrest⟩ :=
                    ih (fun record h => hstatesRest record
                        (List.mem_cons_of_mem _ (List.mem_append_left _ h)))
                      (@Standing.move tbdf c2 (front ++ first) (last ++ back) d inner s standing)
                      (by omega) (by omega)
                  refine Outcome.of_front hfirst hsame
                    ⟨moveRecord tbdf d s :: done, others, ?_, ?_, ?_⟩ ?_ ?_ (List.Perm.refl _)
                  · rw [hrecords, List.append_assoc (front ++ first)]
                    rfl
                  · exact (List.Perm.cons _ hdone).trans
                      (Closing.closed_step invalid isValid invalids).symm
                  · rw [hused, List.append_assoc (front ++ first)]
                    rfl
                  · rw [htotal]
                    dsimp only
                    rw [List.length_set]
                    omega
                  · rw [leaked_step invalid isValid invalids]
                    refine hrest.trans ?_
                    dsimp only
                    rw [released, hreleased, List.append_assoc, List.append_assoc]
                    apply List.Perm.append_left
                    have hs : freed tbdf [s] = [] := freed_valid fun z hz => by
                      rw [List.mem_singleton.mp hz]
                      exact isValid
                    have hlast : freed tbdf (s :: last) = freed tbdf last := by
                      rw [← List.singleton_append, freed_append, hs, List.nil_append]
                    have hsplit : freed tbdf (d :: (inner ++ s :: last)) =
                        freed tbdf [d] ++ (freed tbdf inner ++ freed tbdf last) := by
                      rw [← List.singleton_append, freed_append, freed_append, hlast]
                    rw [hsplit]
                    apply List.Perm.append_left
                    exact List.perm_append_comm.trans
                      (List.Perm.append_left _ (freed_perm (List.reverse_perm last)))

end Sql602.Compaction
