import Sql602.Journal.JournalWindow

namespace Sql602.Journal

open Bytes Files

/-! The replay of the journal. -/

def JOURMARK : Nat := 0xdc

/-- The size of `jourheader`. -/
def headerSize : Nat := 12

structure Jourheader where
  specSize : Nat
  timestamp : Nat
  usernum : Nat

def word (memory : Memory) (at' : Nat) : Nat :=
  (memory at').toNat + 256 * (memory (at' + 1)).toNat + 65536 * (memory (at' + 2)).toNat +
    16777216 * (memory (at' + 3)).toNat

def jourheader (memory : Memory) (at' : Nat) : Jourheader :=
  ⟨word memory at', word memory (at' + 4), word memory (at' + 8)⟩

def Jourheader.marked (jh : Jourheader) : Bool := decide (jh.specSize / 2 ^ 24 = JOURMARK)

def Jourheader.partsize (jh : Jourheader) : Nat := jh.specSize % 2 ^ 24

/-- What the replay does with the buffer: the position is asked for, or bytes are read that
stand for the journal from the position on. -/
inductive Event where
  | setpos (window : Window) (pos : Nat)
  | read (window : Window) (pos offset count : Nat)

/-- At each moment it is given whether the journal can be read, and what the server
answers. -/
structure Moment where
  readable : Bool
  server : Server

variable (journal : File) (moments : Nat → Moment)

/-- The operations of a transaction up to `OP_END`. The result has the moment and the buffer
at the end; there is none if the number of steps is over. -/
def remakeAction : Nat → Nat → Window → Nat → List Event × Option (Nat × Window)
  | 0, _, _, _ => ([], none)
  | steps + 1, time, window, pos =>
      match window.setpos journal (moments time).readable pos with
      | (false, moved) => ([.setpos window pos], some (time + 1, moved))
      | (true, moved) =>
          let events := [.setpos window pos, .read moved pos 0 1]
          if (moved.jb 0).toNat = OP_END then (events, some (time + 1, moved))
          else
            let (reads, newpos) := kernelOper (moments time).server moved.jb
            let events := events ++ reads.map fun read => .read moved pos read.1 read.2
            match newpos with
            | none => (events, some (time + 1, moved))
            | some newpos =>
                let (more, result) :=
                  remakeAction steps (time + 1) moved ((pos + newpos % 2 ^ 16) % 2 ^ 32)
                (events ++ more, result)

variable (badAutor limDt : Nat)

/-- The loop over the records of the journal. -/
def replayRecords : Nat → Nat → Window → Nat → List Event
  | 0, _, _, _ => []
  | steps + 1, time, window, jpos =>
      let (_, moved) := window.setpos journal (moments time).readable jpos
      if moved.bufcont ≤ headerSize then [.setpos window jpos]
      else
        let events := [.setpos window jpos, .read moved jpos 0 headerSize]
        let jh := jourheader moved.jb 0
        let next := (jpos + jh.partsize) % 2 ^ 32
        if jh.marked = false ∨ limDt ≤ jh.timestamp then events
        else if jh.usernum = badAutor then
          events ++ replayRecords steps (time + 1) moved next
        else
          match remakeAction journal moments steps (time + 1) moved
            ((jpos + headerSize) % 2 ^ 32) with
          | (made, none) => events ++ made
          | (made, some (time, window)) => events ++ made ++ replayRecords steps time window next

variable (closetime : Nat)

/-- The position of the first record after the closetime. -/
def findRecord : Nat → Nat → Option Nat
  | 0, _ => none
  | steps + 1, pos =>
      if journal.size < pos + headerSize then none
      else
        let jh := jourheader journal.bytes pos
        if jh.marked = false then none
        else if closetime < jh.timestamp then some pos
        else findRecord steps (pos + jh.partsize)

/-- The replay, for some number of steps and with anything in the buffer at first. -/
def replay (steps : Nat) (jb : Memory) : List Event :=
  match findRecord journal closetime steps 0 with
  | none => []
  | some jpos => replayRecords journal moments badAutor limDt steps 0 ⟨0, 0, jb, jpos⟩ jpos

/-- The bytes that are read are those of the journal. -/
def RightRead : Event → Prop
  | .setpos _ _ => True
  | .read window pos offset count =>
      ∀ i < count, pos + offset + i < journal.size ∧
        window.jb (offset + i) = journal.bytes (pos + offset + i)

instance RightRead.decide : DecidablePred (RightRead journal)
  | .setpos _ _ => isTrue trivial
  | .read window pos offset count =>
      inferInstanceAs (Decidable (∀ i < count, pos + offset + i < journal.size ∧
        window.jb (offset + i) = journal.bytes (pos + offset + i)))

/-- The position is one that the buffer can follow to, and what is read from the buffer
has been read into it. -/
def Reachable : Event → Prop
  | .setpos window pos => window.Reaches pos
  | .read window _ offset count => offset + count ≤ window.bufcont

instance Reachable.decide : DecidablePred Reachable
  | .setpos window pos =>
      inferInstanceAs (Decidable ((pos = window.bufpos ∧
        window.bufpos + window.bufcont = window.filePointer) ∨
        (window.bufpos < pos ∧ pos < (window.bufpos + window.bufcont) % 2 ^ 32) ∨
        pos = window.filePointer))
  | .read window _ offset count => inferInstanceAs (Decidable (offset + count ≤ window.bufcont))

variable {journal moments badAutor limDt closetime}

theorem rightRead_of_shows {window : Window} {pos offset count : Nat}
    (hshows : window.Shows journal) (hpos : window.bufpos = pos)
    (hreachable : Reachable (.read window pos offset count)) :
    RightRead journal (.read window pos offset count) := by
  intro i hi
  have hin : offset + i < window.bufcont := Nat.lt_of_lt_of_le (by omega) hreachable
  have hbytes := hshows.bytes (offset + i) hin
  rw [hpos, ← Nat.add_assoc] at hbytes
  exact hbytes

theorem remakeAction_first {steps time : Nat} {window : Window} {pos : Nat} :
    Event.setpos window pos ∈
      (remakeAction journal moments (steps + 1) time window pos).1 := by
  rw [remakeAction]
  split
  · exact List.mem_cons_self
  · split
    · exact List.mem_cons_self
    · dsimp only
      split
      · exact List.mem_append_left _ List.mem_cons_self
      · exact List.mem_append_left _ (List.mem_append_left _ List.mem_cons_self)

/-- As long as all positions are reachable, the bytes that are read are right, and the
buffer shows the journal at the end. -/
theorem remakeAction_right {steps time : Nat} {window : Window} {pos : Nat}
    (hshows : window.Shows journal)
    (hreachable : ∀ event ∈ (remakeAction journal moments steps time window pos).1,
      Reachable event) :
    (∀ event ∈ (remakeAction journal moments steps time window pos).1,
      RightRead journal event) ∧
      ∀ time' last, (remakeAction journal moments steps time window pos).2 = some (time', last) →
        last.Shows journal := by
  induction steps generalizing time window pos with
  | zero => exact ⟨fun event hmem => (by cases hmem), fun time' last h => (by cases h)⟩
  | succ steps ih =>
      obtain ⟨hmoved, hpos⟩ := @Window.Shows.setpos journal window pos (moments time).readable
        hshows (hreachable _ remakeAction_first)
      have hread : ∀ offset count,
          Reachable (.read (window.setpos journal (moments time).readable pos).2 pos offset
            count) →
          RightRead journal (.read (window.setpos journal (moments time).readable pos).2 pos
            offset count) :=
        fun offset count => rightRead_of_shows hmoved hpos
      rw [remakeAction] at hreachable ⊢
      generalize window.setpos journal (moments time).readable pos = result at *
      obtain ⟨readable, moved⟩ := result
      dsimp only at hmoved hpos hread
      cases readable with
      | false =>
          refine ⟨fun event hmem => ?_, fun time' last h => ?_⟩
          · rw [List.mem_singleton.mp hmem]
            exact trivial
          · cases h
            exact hmoved
      | true =>
          dsimp only at hreachable ⊢
          have hfront : ∀ event ∈ [Event.setpos window pos, .read moved pos 0 1],
              Reachable event → RightRead journal event := by
            intro event hmem hevent
            obtain rfl | hmem := List.mem_cons.mp hmem
            · exact trivial
            · obtain rfl := List.mem_singleton.mp hmem
              exact hread 0 1 hevent
          split at hreachable
          · next hend =>
              rw [if_pos hend]
              refine ⟨fun event hmem => hfront event hmem (hreachable event hmem), ?_⟩
              intro time' last h
              cases h
              exact hmoved
          · next hgoes =>
              rw [if_neg hgoes]
              generalize kernelOper (moments time).server moved.jb = answer at *
              obtain ⟨reads, newpos⟩ := answer
              have hevents : ∀ event ∈ [Event.setpos window pos, .read moved pos 0 1] ++
                  reads.map (fun read => .read moved pos read.1 read.2),
                  Reachable event → RightRead journal event := by
                intro event hmem hevent
                obtain hmem | hmem := List.mem_append.mp hmem
                · exact hfront event hmem hevent
                · obtain ⟨read, -, rfl⟩ := List.mem_map.mp hmem
                  exact hread read.1 read.2 hevent
              cases newpos with
              | none =>
                  refine ⟨fun event hmem => hevents event hmem (hreachable event hmem), ?_⟩
                  intro time' last h
                  cases h
                  exact hmoved
              | some newpos =>
                  dsimp only at hreachable ⊢
                  obtain ⟨hmore, hlast⟩ := @ih (time + 1) moved
                    ((pos + newpos % 2 ^ 16) % 2 ^ 32) hmoved
                    fun event hmem => hreachable event (List.mem_append_right _ hmem)
                  refine ⟨fun event hmem => ?_, hlast⟩
                  obtain hmem' | hmem' := List.mem_append.mp hmem
                  · exact hevents event hmem' (hreachable event hmem)
                  · exact hmore event hmem'

theorem replayRecords_first {steps time : Nat} {window : Window} {jpos : Nat} :
    Event.setpos window jpos ∈
      replayRecords journal moments badAutor limDt (steps + 1) time window jpos := by
  rw [replayRecords]
  dsimp only
  split
  · exact List.mem_cons_self
  · split
    · exact List.mem_cons_self
    · split
      · exact List.mem_append_left _ List.mem_cons_self
      · split
        · exact List.mem_append_left _ List.mem_cons_self
        · exact List.mem_append_left _ (List.mem_append_left _ List.mem_cons_self)

theorem replayRecords_right {steps time : Nat} {window : Window} {jpos : Nat}
    (hshows : window.Shows journal)
    (hreachable : ∀ event ∈ replayRecords journal moments badAutor limDt steps time window jpos,
      Reachable event) :
    ∀ event ∈ replayRecords journal moments badAutor limDt steps time window jpos,
      RightRead journal event := by
  induction steps generalizing time window jpos with
  | zero => exact fun event hmem => (by cases hmem)
  | succ steps ih =>
      obtain ⟨hmoved, hpos⟩ := @Window.Shows.setpos journal window jpos (moments time).readable
        hshows (hreachable _ replayRecords_first)
      rw [replayRecords] at hreachable ⊢
      generalize window.setpos journal (moments time).readable jpos = result at *
      obtain ⟨readable, moved⟩ := result
      dsimp only at hmoved hpos hreachable ⊢
      have hfront : ∀ event ∈ [Event.setpos window jpos, .read moved jpos 0 headerSize],
          Reachable event → RightRead journal event := by
        intro event hmem hevent
        obtain rfl | hmem := List.mem_cons.mp hmem
        · exact trivial
        · obtain rfl := List.mem_singleton.mp hmem
          exact rightRead_of_shows hmoved hpos hevent
      split at hreachable
      · next hend =>
          rw [if_pos hend]
          intro event hmem
          rw [List.mem_singleton.mp hmem]
          exact trivial
      · next hheader =>
          rw [if_neg hheader]
          split at hreachable
          · next hstop =>
              rw [if_pos hstop]
              exact fun event hmem => hfront event hmem (hreachable event hmem)
          · next hgoes =>
              rw [if_neg hgoes]
              split at hreachable
              · next hbad =>
                  rw [if_pos hbad]
                  have hrest := @ih (time + 1) moved _ hmoved
                    fun event hmem => hreachable event (List.mem_append_right _ hmem)
                  intro event hmem
                  obtain hmem' | hmem' := List.mem_append.mp hmem
                  · exact hfront event hmem' (hreachable event hmem)
                  · exact hrest event hmem'
              · next hgood =>
                  rw [if_neg hgood]
                  have hmade := @remakeAction_right journal moments steps (time + 1) moved
                    ((jpos + headerSize) % 2 ^ 32) hmoved
                  generalize remakeAction journal moments steps (time + 1) moved
                    ((jpos + headerSize) % 2 ^ 32) = made at *
                  obtain ⟨made, answer⟩ := made
                  cases answer with
                  | none =>
                      obtain ⟨hmade, -⟩ := hmade
                        fun event hmem => hreachable event (List.mem_append_right _ hmem)
                      intro event hmem
                      obtain hmem' | hmem' := List.mem_append.mp hmem
                      · exact hfront event hmem' (hreachable event hmem)
                      · exact hmade event hmem'
                  | some answer =>
                      obtain ⟨time', last⟩ := answer
                      dsimp only at hreachable ⊢
                      obtain ⟨hmade, hlast⟩ := hmade fun event hmem =>
                        hreachable event (List.mem_append_left _ (List.mem_append_right _ hmem))
                      have hrest := @ih time' last _ (hlast time' last rfl)
                        fun event hmem => hreachable event (List.mem_append_right _ hmem)
                      intro event hmem
                      obtain hmem' | hmem' := List.mem_append.mp hmem
                      · obtain hmem'' | hmem'' := List.mem_append.mp hmem'
                        · exact hfront event hmem'' (hreachable event hmem)
                        · exact hmade event hmem''
                      · exact hrest event hmem'

/-- In every replay in which the buffer can follow to the positions and the operations are
in the buffer as a whole, the bytes that are read from the buffer are those of the journal. -/
theorem replay_right (journal : File) (moments : Nat → Moment)
    (badAutor limDt closetime steps : Nat) (jb : Memory)
    (hreachable : ∀ event ∈ replay journal moments badAutor limDt closetime steps jb,
      Reachable event) :
    ∀ event ∈ replay journal moments badAutor limDt closetime steps jb,
      RightRead journal event := by
  rw [replay] at hreachable ⊢
  split at hreachable
  · exact fun event hmem => (by cases hmem)
  · next jpos hfound =>
      refine replayRecords_right ⟨?_, Nat.zero_le _, Or.inl rfl⟩ hreachable
      exact fun i hi => absurd hi (Nat.not_lt_zero i)

/-- A transaction of a wrong author is skipped, another one appends a record. -/
theorem replay_right_append :
    let header := [13, 0, 0, 0xdc, 1, 0, 0, 0, 5, 0, 0, 0, 53,
      18, 0, 0, 0xdc, 1, 0, 0, 0, 7, 0, 0, 0, 3, 40, 0, 0, 0, 53]
    let journal : File := ⟨31, fun i => header.getD i 0⟩
    let moments := fun _ => Moment.mk true ⟨fun _ => some ⟨0, fun _ => ⟨0, 0, 0⟩⟩, [], false, false⟩
    ∀ event ∈ replay journal moments 5 9 0 4 fun _ => 0, RightRead journal event :=
  replay_right _ _ _ _ _ _ _ (by decide)

/-- A skipped transaction that is longer than the buffer. -/
theorem not_forall_replay_right :
    ¬ ∀ (journal : File) (moments : Nat → Moment) (badAutor limDt closetime steps : Nat)
      (jb : Memory),
      ∀ event ∈ replay journal moments badAutor limDt closetime steps jb,
        RightRead journal event := by
  intro hall
  let long : List UInt8 := [0x70, 0x11, 1, 0xdc, 1, 0, 0, 0, 5, 0, 0, 0]
  let short : List UInt8 := [13, 0, 0, 0xdc, 1, 0, 0, 0, 7, 0, 0, 0, 53]
  have hright := hall
    ⟨70013, fun i => if i < 70000 then long.getD i 0 else short.getD (i - 70000) 0⟩
    (fun _ => ⟨true, ⟨fun _ => none, [], false, false⟩⟩) 5 9 0 2 fun _ => 0
  exact absurd hright (by decide)

end Sql602.Journal
