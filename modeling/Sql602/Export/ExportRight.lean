import Sql602.Export.Exporter

namespace Sql602.Export

open Bytes Heap Portions

/-! What has been put is in the file or in the buffer as long as no output has
failed; a failed output has raised an error. -/

def Exporter.contents (e : Exporter) : List UInt8 := e.file ++ e.buf

structure Puts (e : Exporter) (done : Bool × Exporter) (part : List UInt8) : Prop where
  reported : done.1 = true → done.2.requestError = true
  appends : done.2.requestError = false →
    e.requestError = false ∧ done.2.contents = e.contents ++ part

namespace Puts

variable {e : Exporter} {done next : Bool × Exporter} {part rest : List UInt8}

theorem nothing (e : Exporter) : Puts e (false, e) [] where
  reported := nofun
  appends herror := ⟨herror, (List.append_nil _).symm⟩

theorem trans (hfirst : Puts e done part) (hnext : Puts done.2 next rest) :
    Puts e next (part ++ rest) where
  reported := hnext.reported
  appends herror := by
    obtain ⟨hmiddle, hrest⟩ := hnext.appends herror
    obtain ⟨hstart, hpart⟩ := hfirst.appends hmiddle
    refine ⟨hstart, ?_⟩
    rw [hrest, hpart, List.append_assoc]

/-- A failed call may stand for any part. -/
theorem failed (hputs : Puts e done part) (hfailed : done.1 = true) (rest : List UInt8) :
    Puts e (true, done.2) rest where
  reported _ := hputs.reported hfailed
  appends herror := by
    have hreported := hputs.reported hfailed
    rw [herror] at hreported
    cases hreported

theorem unheeded (hputs : Puts e done part) : Puts e (false, done.2) part where
  reported := nofun
  appends := hputs.appends

end Puts

section Buffer

variable {accepts : Nat → Bool}

theorem outputIt_puts (e : Exporter) (loc : Nat) : Puts e (outputIt accepts e loc) [] := by
  simp only [outputIt]
  split
  case isTrue hsent =>
    refine ⟨fun hdone => absurd hdone Bool.false_ne_true, fun herror => ⟨herror, ?_⟩⟩
    simp only [Exporter.contents, List.append_nil, List.append_assoc, List.take_append_drop]
  case isFalse hfailed => exact ⟨fun _ => rfl, fun herror => absurd herror.symm Bool.false_ne_true⟩

theorem flush_puts (e : Exporter) : Puts e (flush accepts e) [] := by
  simp only [flush]
  split
  case isTrue hfull => exact outputIt_puts e 467
  case isFalse hroom => exact .nothing e

theorem fill_puts (e : Exporter) (adr : List UInt8) :
    Puts e (false, fill e adr) (adr.take (600 - e.buf.length)) where
  reported := nofun
  appends herror := ⟨herror, (List.append_assoc ..).symm⟩

theorem putBuf_puts (e : Exporter) (adr : List UInt8) : Puts e (putBuf accepts e adr) adr := by
  induction e, adr using putBuf.induct accepts with
  | case1 e adr sent hfailed =>
      rw [putBuf, if_pos hfailed]
      exact ((fill_puts e adr).trans (flush_puts _)).failed hfailed adr
  | case2 e adr sent rest hsent hrest =>
      rw [putBuf, if_neg hsent, if_pos hrest]
      have hall : adr.take (600 - e.buf.length) = adr :=
        List.take_of_length_le (List.drop_eq_nil_iff.mp hrest)
      have hputs := (fill_puts e adr).trans (@flush_puts accepts _)
      rw [hall, List.append_nil] at hputs
      exact hputs.unheeded
  | case3 e adr sent rest hsent hrest ih =>
      rw [putBuf, if_neg hsent, if_neg hrest]
      have hputs := ((fill_puts e adr).trans (@flush_puts accepts _)).trans ih
      rwa [List.append_nil, List.take_append_drop] at hputs

theorem emptyBuf_puts (e : Exporter) : Puts e (emptyBuf accepts e) [] := by
  induction e using emptyBuf.induct accepts with
  | case1 e hempty =>
      rw [emptyBuf, if_pos hempty]
      exact .nothing e
  | case2 e sent hfilled hfailed =>
      rw [emptyBuf, if_neg hfilled, if_pos hfailed]
      exact (outputIt_puts e _).failed hfailed []
  | case3 e sent hfilled hsent ih =>
      rw [emptyBuf, if_neg hfilled, if_neg hsent]
      exact (outputIt_puts e _).trans ih

theorem emptyBuf_buf (e : Exporter) (herror : (emptyBuf accepts e).2.requestError = false) :
    (emptyBuf accepts e).2.buf = [] := by
  induction e using emptyBuf.induct accepts with
  | case1 e hempty =>
      rw [emptyBuf, if_pos hempty]
      exact hempty
  | case2 e sent hfilled hfailed =>
      rw [emptyBuf, if_neg hfilled, if_pos hfailed] at herror
      rw [(outputIt_puts e _).reported hfailed] at herror
      cases herror
  | case3 e sent hfilled hsent ih =>
      rw [emptyBuf, if_neg hfilled, if_neg hsent] at herror ⊢
      exact ih herror

theorem putZeros_puts (e : Exporter) (size : Nat) :
    Puts e (putZeros accepts e size) (List.replicate size 0) := by
  induction e, size using putZeros.induct accepts with
  | case1 e =>
      rw [putZeros, if_pos rfl]
      exact .nothing e
  | case2 e size put hsome hfailed =>
      rw [putZeros, if_neg hsome, if_pos hfailed]
      exact (putBuf_puts e _).failed hfailed _
  | case3 e size put hsome hput ih =>
      rw [putZeros, if_neg hsome, if_neg hput]
      have hputs := (putBuf_puts e _).trans ih
      rwa [List.replicate_append_replicate, Nat.add_sub_cancel' (Nat.min_le_right ..)] at hputs

/-- Where no output fails, every call succeeds. -/
theorem putBuf_accepting (haccepts : ∀ i, accepts i = true) (e : Exporter)
    (adr : List UInt8) : (putBuf accepts e adr).1 = false := by
  have hsent : ∀ e, (flush accepts e).1 = false := by
    intro e
    simp only [flush, outputIt, haccepts, if_true]
    split <;> rfl
  induction e, adr using putBuf.induct accepts with
  | case1 e adr sent hfailed =>
      rw [hsent] at hfailed
      cases hfailed
  | case2 e adr sent rest hput hrest => rw [putBuf, if_neg hput, if_pos hrest]
  | case3 e adr sent rest hput hrest ih => rwa [putBuf, if_neg hput, if_neg hrest]

theorem putZeros_accepting (haccepts : ∀ i, accepts i = true) (e : Exporter) (size : Nat) :
    (putZeros accepts e size).1 = false := by
  induction e, size using putZeros.induct accepts with
  | case1 e => rw [putZeros, if_pos rfl]
  | case2 e size put hsome hfailed =>
      rw [putBuf_accepting haccepts] at hfailed
      cases hfailed
  | case3 e size put hsome hput ih => rwa [putZeros, if_neg hsome, if_neg hput]

end Buffer

/-! The objects. -/

section Objects

variable {accepts : Nat → Bool}

theorem load_length (dwa : DwormAccess) (place : Place) (len : Nat) :
    (dwa.load place len).length = len := by
  cases place <;> exact slice_length ..

theorem ExtLob.read_le (lob : ExtLob) (start left : Nat) :
    (lob.read start left).length ≤ left :=
  Nat.le_trans (lob.readPart_le ..) (Nat.min_le_left ..)

theorem HpObject.read_le (o : HpObject) (pos left : Nat) : (o.read pos left).length ≤ left := by
  simp only [HpObject.read]
  split
  case h_1 => rw [List.length_replicate]
  case h_2 =>
    rw [load_length]
    exact Nat.min_le_right ..

theorem ExtLob.copyLoop_puts {lob : ExtLob} {start left : Nat}
    (hdelivers : Delivers lob.read start left) :
    ∃ data, Reads lob.read start left data ∧ ∀ fuel e, left ≤ fuel →
      ∃ next, lob.copyLoop accepts fuel start left e = some next ∧
        Puts e (false, next) data := by
  refine hdelivers.induction (fun start => ?_) fun start left hleft hpart ih => ?_
  · exact ⟨[], .done start, fun fuel e _ => ⟨e, by rw [copyLoop], .nothing e⟩⟩
  · obtain ⟨data, hreads, hcopies⟩ := ih
    refine ⟨lob.read start left ++ data, .portion hleft hreads, fun fuel e hfuel => ?_⟩
    have hpos := List.length_pos_iff.mpr hpart
    obtain ⟨left, rfl⟩ := Nat.exists_eq_succ_of_ne_zero hleft
    obtain ⟨fuel, rfl⟩ := Nat.exists_eq_succ_of_ne_zero (n := fuel) (by omega)
    obtain ⟨next, hnext, hputs⟩ := hcopies fuel
      (putBuf accepts e (lob.read start (left + 1))).2 (by omega)
    exact ⟨next, hnext, (putBuf_puts e _).trans hputs⟩

theorem ExtLob.delivers_of_copyLoop {lob : ExtLob} {fuel start left : Nat} {e next : Exporter}
    (hcopied : lob.copyLoop accepts fuel start left e = some next) :
    Delivers lob.read start left := by
  induction fuel generalizing start left e with
  | zero =>
      cases left with
      | zero => exact delivers_zero
      | succ left => cases hcopied
  | succ fuel ih =>
      cases left with
      | zero => exact delivers_zero
      | succ left => exact (ih hcopied).of_next

theorem HpObject.copyLoop_puts {o : HpObject} {pos left : Nat}
    (hdelivers : Delivers o.read pos left) :
    ∃ data, Reads o.read pos left data ∧ ∀ fuel e, left ≤ fuel →
      ∃ done, o.copyLoop accepts fuel pos left e = some done ∧ Puts e done data := by
  refine hdelivers.induction (fun pos => ?_) fun pos left hleft hpart ih => ?_
  · exact ⟨[], .done pos, fun fuel e _ => ⟨(false, e), by rw [copyLoop], .nothing e⟩⟩
  · obtain ⟨data, hreads, hcopies⟩ := ih
    refine ⟨o.read pos left ++ data, .portion hleft hreads, fun fuel e hfuel => ?_⟩
    have hpos := List.length_pos_iff.mpr hpart
    obtain ⟨left, rfl⟩ := Nat.exists_eq_succ_of_ne_zero hleft
    obtain ⟨fuel, rfl⟩ := Nat.exists_eq_succ_of_ne_zero (n := fuel) (by omega)
    cases hpointer : o.pointerRd pos with
    | none =>
        have hread : o.read pos (left + 1) = List.replicate (left + 1) 0 := by
          rw [read, hpointer]
        rw [hread, List.length_replicate, Nat.sub_self] at hreads
        refine ⟨putZeros accepts { e with databaseError := true } (left + 1), ?_, ?_⟩
        · simp only [copyLoop, hpointer]
        · rw [hread, hreads.zero, List.append_nil]
          obtain ⟨hreported, happends⟩ :=
            @putZeros_puts accepts { e with databaseError := true } (left + 1)
          exact ⟨hreported, happends⟩
    | some found =>
        obtain ⟨place, avail⟩ := found
        have hread : o.read pos (left + 1) = o.access.load place (min avail (left + 1)) := by
          rw [read, hpointer]
        have hputs := @putBuf_puts accepts e (o.read pos (left + 1))
        rw [hread] at hputs hcopies hpos ⊢
        rw [load_length] at hcopies hpos
        simp only [copyLoop, hpointer]
        split
        case isTrue hfailed => exact ⟨_, rfl, hputs.failed hfailed _⟩
        case isFalse hput =>
          obtain ⟨done, hdone, hrest⟩ := hcopies fuel
            (putBuf accepts e (o.access.load place (min avail (left + 1)))).2 (by omega)
          exact ⟨done, hdone, hputs.trans hrest⟩

theorem HpObject.delivers_of_copyLoop (haccepts : ∀ i, accepts i = true) {o : HpObject}
    {fuel pos left : Nat} {e : Exporter} {done : Bool × Exporter}
    (hcopied : o.copyLoop accepts fuel pos left e = some done) :
    Delivers o.read pos left ∧ done.1 = false := by
  induction fuel generalizing pos left e with
  | zero =>
      cases left with
      | zero =>
          cases hcopied
          exact ⟨delivers_zero, rfl⟩
      | succ left => cases hcopied
  | succ fuel ih =>
      cases left with
      | zero =>
          cases hcopied
          exact ⟨delivers_zero, rfl⟩
      | succ left =>
          cases hpointer : o.pointerRd pos with
          | none =>
              simp only [copyLoop, hpointer, Option.some.injEq] at hcopied
              subst hcopied
              refine ⟨Delivers.of_next ?_, putZeros_accepting haccepts _ _⟩
              rw [read, hpointer]
              simp only [List.length_replicate, Nat.sub_self]
              exact delivers_zero
          | some found =>
              obtain ⟨place, avail⟩ := found
              simp only [copyLoop, hpointer, putBuf_accepting haccepts, Bool.false_eq_true,
                if_false] at hcopied
              obtain ⟨hdelivers, hdone⟩ := ih hcopied
              refine ⟨Delivers.of_next ?_, hdone⟩
              rw [read, hpointer]
              simp only [load_length]
              exact hdelivers

end Objects

/-! Whole exports. -/

/-- The declared length and exactly as many bytes, what the portions are together. -/
def LengthPrefixed (read : Nat → Nat → List UInt8) (declared : Nat) (part : List UInt8) :
    Prop :=
  ∃ data, part = hpcntr declared ++ data ∧ data.length = declared ∧
    Reads read 0 declared data

namespace Call

def declared : Call → Nat
  | .put _ _ => 0
  | .hpFileCopy o => o.declared
  | .extclobFileCopy lob => lob.declared

/-- No request for a part of the object gives nothing. -/
def Delivers : Call → Prop
  | .put _ _ => True
  | .hpFileCopy o => Portions.Delivers o.read 0 o.declared
  | .extclobFileCopy lob => Portions.Delivers lob.read 0 lob.declared

def Written : Call → List UInt8 → Prop
  | .put adr _, part => part = adr
  | .hpFileCopy o, part => LengthPrefixed o.read o.declared part
  | .extclobFileCopy lob, part => LengthPrefixed lob.read lob.declared part

variable {accepts : Nat → Bool} {call : Call}

theorem perform_puts (hdelivers : call.Delivers) :
    ∃ part, call.Written part ∧ ∀ fuel e, call.declared ≤ fuel →
      ∃ done, call.perform accepts fuel e = some done ∧ Puts e done part := by
  cases call with
  | put adr heeded =>
      refine ⟨adr, rfl, fun fuel e _ => ⟨_, rfl, ?_⟩⟩
      have hputs := @putBuf_puts accepts e adr
      cases heeded with
      | true =>
          rw [Bool.and_true]
          exact hputs
      | false =>
          rw [Bool.and_false]
          exact hputs.unheeded
  | hpFileCopy o =>
      obtain ⟨data, hreads, hcopies⟩ := @HpObject.copyLoop_puts accepts o _ _ hdelivers
      refine ⟨hpcntr o.declared ++ data, ⟨data, rfl, hreads.length o.read_le, hreads⟩,
        fun fuel e hfuel => ?_⟩
      simp only [perform, HpObject.fileCopy]
      split
      case isTrue hpresent =>
        -- opening changes at most the note of a database error
        generalize hopened : (if o.isOpen then e else { e with databaseError := true }) = opened
        have hputs : Puts e (putBuf accepts opened (hpcntr o.declared)) (hpcntr o.declared) := by
          subst hopened
          split
          · exact putBuf_puts e _
          · obtain ⟨hreported, happends⟩ :=
              @putBuf_puts accepts { e with databaseError := true }
                (hpcntr o.declared)
            exact ⟨hreported, happends⟩
        split
        case isTrue hfailed => exact ⟨_, rfl, hputs.failed hfailed _⟩
        case isFalse hput =>
          obtain ⟨done, hdone, hrest⟩ := hcopies fuel _ hfuel
          exact ⟨done, hdone, hputs.trans hrest⟩
      case isFalse habsent =>
        have hzero : o.declared = 0 := by
          rw [HpObject.declared, Bool.eq_false_of_not_eq_true habsent, Bool.false_and]
          rfl
        rw [hzero] at hreads ⊢
        rw [hreads.zero, List.append_nil]
        exact ⟨_, rfl, putBuf_puts e _⟩
  | extclobFileCopy lob =>
      obtain ⟨data, hreads, hcopies⟩ := @ExtLob.copyLoop_puts accepts lob _ _ hdelivers
      refine ⟨hpcntr lob.declared ++ data, ⟨data, rfl, hreads.length lob.read_le, hreads⟩,
        fun fuel e hfuel => ?_⟩
      obtain ⟨next, hnext, hrest⟩ := hcopies fuel
        (putBuf accepts e (hpcntr lob.declared)).2 hfuel
      refine ⟨(false, next), ?_, (putBuf_puts e _).trans hrest⟩
      rw [perform, ExtLob.fileCopy, hnext, Option.map_some]

theorem delivers_of_perform (haccepts : ∀ i, accepts i = true) {fuel : Nat} {e : Exporter}
    {done : Bool × Exporter} (hdone : call.perform accepts fuel e = some done) :
    call.Delivers ∧ done.1 = false := by
  cases call with
  | put adr heeded =>
      cases hdone
      exact ⟨trivial, by rw [putBuf_accepting haccepts, Bool.false_and]⟩
  | hpFileCopy o =>
      simp only [perform, HpObject.fileCopy] at hdone
      split at hdone
      case isTrue hpresent =>
        rw [if_neg (by simp only [putBuf_accepting haccepts, Bool.false_eq_true,
          not_false_eq_true])] at hdone
        exact HpObject.delivers_of_copyLoop haccepts hdone
      case isFalse habsent =>
        cases hdone
        have hzero : o.declared = 0 := by
          rw [HpObject.declared, Bool.eq_false_of_not_eq_true habsent, Bool.false_and]
          rfl
        refine ⟨?_, putBuf_accepting haccepts e _⟩
        rw [Delivers, hzero]
        exact delivers_zero
  | extclobFileCopy lob =>
      simp only [perform, ExtLob.fileCopy, Option.map_eq_some_iff] at hdone
      obtain ⟨next, hnext, rfl⟩ := hdone
      exact ⟨lob.delivers_of_copyLoop hnext, rfl⟩

end Call

section Export

variable {accepts : Nat → Bool} {calls : List Call}

theorem exportCalls_puts (hdelivers : ∀ call ∈ calls, call.Delivers) {fuel : Nat}
    (hfuel : ∀ call ∈ calls, call.declared ≤ fuel) (e : Exporter) :
    ∃ next, exportCalls accepts fuel calls e = some next ∧
      (next.requestError = false → e.requestError = false ∧
        ∃ parts, List.Forall₂ Call.Written calls parts ∧
          next.file = e.contents ++ parts.flatten) := by
  induction calls generalizing e with
  | nil =>
      refine ⟨_, rfl, fun herror => ?_⟩
      obtain ⟨hstart, hcontents⟩ := (emptyBuf_puts e).appends herror
      rw [Exporter.contents, emptyBuf_buf e herror, List.append_nil, List.append_nil]
        at hcontents
      exact ⟨hstart, [], .nil, by rw [hcontents, List.flatten_nil, List.append_nil]⟩
  | cons call calls ih =>
      rw [List.forall_mem_cons] at hdelivers hfuel
      obtain ⟨part, hwritten, hperforms⟩ := @Call.perform_puts accepts _ hdelivers.1
      obtain ⟨done, hdone, hputs⟩ := hperforms fuel e hfuel.1
      rw [exportCalls, hdone, Option.bind_some]
      split
      case isTrue hfailed =>
        refine ⟨_, rfl, fun herror => ?_⟩
        rw [hputs.reported hfailed] at herror
        cases herror
      case isFalse hput =>
        obtain ⟨next, hnext, hright⟩ := ih hdelivers.2 hfuel.2 done.2
        refine ⟨next, hnext, fun herror => ?_⟩
        obtain ⟨hmiddle, parts, hparts, hfile⟩ := hright herror
        obtain ⟨hstart, hcontents⟩ := hputs.appends hmiddle
        refine ⟨hstart, part :: parts, .cons hwritten hparts, ?_⟩
        rw [hfile, hcontents, List.flatten_cons, List.append_assoc]

theorem delivers_of_exportCalls (haccepts : ∀ i, accepts i = true) {fuel : Nat}
    {e next : Exporter} (hexported : exportCalls accepts fuel calls e = some next) :
    ∀ call ∈ calls, call.Delivers := by
  induction calls generalizing e with
  | nil => nofun
  | cons call calls ih =>
      rw [exportCalls, Option.bind_eq_some_iff] at hexported
      obtain ⟨done, hdone, hrest⟩ := hexported
      obtain ⟨hdelivers, hput⟩ := Call.delivers_of_perform haccepts hdone
      rw [hput, if_neg Bool.false_ne_true] at hrest
      exact List.forall_mem_cons.mpr ⟨hdelivers, ih hrest⟩

/-- The export ends; where no error is raised, the file has for each call what it
puts, in order. -/
def ExportRight (accepts : Nat → Bool) (calls : List Call) : Prop :=
  ∃ fuel next, exportCalls accepts fuel calls {} = some next ∧
    (next.requestError = false →
      ∃ parts, List.Forall₂ Call.Written calls parts ∧ next.file = parts.flatten)

theorem export_right_iff (calls : List Call) :
    (∀ accepts, ExportRight accepts calls) ↔ ∀ call ∈ calls, call.Delivers := by
  constructor
  · intro hright
    obtain ⟨fuel, next, hnext, -⟩ := hright fun _ => true
    exact delivers_of_exportCalls (fun _ => rfl) hnext
  · intro hdelivers accepts
    have hfuel : ∀ call ∈ calls,
        call.declared ≤ (calls.map Call.declared).max?.getD 0 :=
      fun call hcall => List.le_max?_getD_of_mem (List.mem_map_of_mem hcall)
    obtain ⟨next, hnext, hright⟩ := @exportCalls_puts accepts _ hdelivers _ hfuel {}
    refine ⟨_, next, hnext, fun herror => ?_⟩
    exact (hright herror).2

/-- A file that cannot be read any more. -/
def unreadableLob : ExtLob where
  opens := true
  length := 5
  readPart _ _ := []
  readPart_le _ _ := Nat.zero_le _

theorem not_forall_export_right :
    ¬ ∀ accepts calls, ExportRight accepts calls := by
  intro hright
  obtain ⟨fuel, next, hnext, -⟩ := hright (fun _ => true) [.extclobFileCopy unreadableLob]
  have hdelivers := delivers_of_exportCalls (fun _ => rfl) hnext _ (.head _)
  exact hdelivers 0 5 .start (by decide) rfl

end Export

end Sql602.Export
