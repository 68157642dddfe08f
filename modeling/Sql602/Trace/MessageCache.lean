import Mathlib.Logic.Function.Basic
import Sql602.Library.Chains

namespace Sql602.Trace

open Bytes Chains

/-! The cache of the recent messages of a log. -/

/-- A string without its zero byte. -/
abbrev Message := { bytes : List UInt8 // 0 ∉ bytes }

/-- Is after the zero byte of the last message before the end of the buffer. -/
def terminator : UInt8 := 1

/-- The buffer has `bufsize` bytes; a buffer that could not be allocated has none. -/
structure MessageCache where
  bufsize : Nat
  buf : Memory
  top : Nat
  bottom : Nat
  locked : Int
  lastMessagePtr : Nat

def MessageCache.create (bufsize : Nat) (buf : Memory) : MessageCache :=
  ⟨bufsize, buf, 0, 0, 0, 0⟩

/-- The new buffer is absent when it cannot be allocated. -/
def MessageCache.resetLogCacheSize (cache : MessageCache) (newBufsize : Nat)
    (newbuf : Option Memory) : MessageCache :=
  if newBufsize ≤ cache.bufsize then cache
  else
    match newbuf with
    | none => cache
    | some newbuf =>
        { cache with bufsize := newBufsize, buf := copy newbuf 0 cache.buf 0 cache.bufsize }

def strlenFrom (memory : Memory) : Nat → Nat → Nat
  | 0, _ => 0
  | fuel + 1, pos => if memory pos = 0 then 0 else strlenFrom memory fuel (pos + 1) + 1

/-- The text that starts at the position. -/
def textAt (memory : Memory) (bufsize pos : Nat) : List UInt8 :=
  slice memory pos (strlenFrom memory bufsize pos)

/-- The position after a message, still before the way over the end of the buffer. -/
def afterMessage (memory : Memory) (bufsize pos : Nat) : Nat :=
  pos + strlenFrom memory bufsize pos + 1

def nextMessage (cache : MessageCache) (pos : Nat) : Nat :=
  let next := afterMessage cache.buf cache.bufsize pos
  if cache.buf next = terminator ∧ next ≠ cache.bottom then 0 else next

/-- The position is absent in the first call. -/
def MessageCache.enumMessages (cache : MessageCache) (pos : Option Nat) :
    MessageCache × Nat × Option (List UInt8) :=
  let start := pos.getD cache.top
  let cache := if pos.isNone then { cache with locked := cache.locked + 1 } else cache
  if start = cache.bottom then ({ cache with locked := cache.locked - 1 }, start, none)
  else (cache, nextMessage cache start, some (textAt cache.buf cache.bufsize start))

/-- Moves the top while the new message would reach it. -/
def moveTop (memory : Memory) (bufsize stop : Nat) : Nat → Nat → Nat
  | 0, top => top
  | fuel + 1, top =>
      if top ≤ stop then
        let next := afterMessage memory bufsize top
        if memory next = terminator then 0 else moveTop memory bufsize stop fuel next
      else top

/-- The cache when the space behind the bottom is too small. -/
def MessageCache.turn (cache : MessageCache) : MessageCache :=
  { cache with
    buf := Function.update cache.buf cache.bottom terminator
    top := if cache.bottom ≤ cache.top then 0 else cache.top
    bottom := 0 }

/-- Makes room at the bottom, and copies the message there. -/
def MessageCache.put (cache : MessageCache) (empty : Bool) (msg : List UInt8) : MessageCache :=
  let len := msg.length + 1
  let stop := cache.bottom + len
  { cache with
    buf := copy cache.buf cache.bottom (fun i => (msg ++ [0]).getD i 0) 0 len
    top :=
      if cache.bottom ≤ cache.top ∧ empty = false then
        moveTop cache.buf cache.bufsize stop (stop + 1) cache.top
      else cache.top
    bottom := stop
    lastMessagePtr := cache.bottom }

def MessageCache.addMessage (cache : MessageCache) (msg : List UInt8) : MessageCache :=
  let len := msg.length + 1
  if cache.locked ≠ 0 ∨ cache.bufsize = 0 then cache
  else if cache.bufsize ≤ len + 1 then cache
  else
    let empty := cache.top == cache.bottom
    if cache.bufsize ≤ cache.bottom + len + 1 then cache.turn.put empty msg
    else cache.put empty msg

def MessageCache.getLastMessage (cache : MessageCache) : Option (List UInt8) :=
  if cache.top = cache.bottom then none
  else some (textAt cache.buf cache.bufsize cache.lastMessagePtr)

/-- The size of a character in an answer. -/
def wucharSize : Nat := 2

def wucharZero : List UInt8 := List.replicate wucharSize 0

/-- The lines of an answer; `unicode` makes the bytes of the unicode version of a message. -/
def recentLines (unicode : List UInt8 → List UInt8) :
    Nat → MessageCache → Option Nat → Nat → MessageCache × List UInt8
  | 0, cache, _, _ => (cache, [])
  | fuel + 1, cache, pos, sizeLimit =>
      if wucharSize < sizeLimit then
        match cache.enumMessages pos with
        | (cache, _, none) => (cache, [])
        | (cache, pos, some msg) =>
            let length2 := min (unicode msg).length (sizeLimit - wucharSize)
            let (cache, lines) := recentLines unicode fuel cache (some pos)
              (sizeLimit - (length2 + wucharSize))
            (cache, (unicode msg).take length2 ++ wucharZero ++ lines)
      else (cache, [])

def returnRecentLog (unicode : List UInt8 → List UInt8) (cache : MessageCache) (sizeLimit : Nat) :
    MessageCache × List UInt8 :=
  if wucharSize ≤ sizeLimit then
    let (cache, lines) := recentLines unicode sizeLimit cache none (sizeLimit - wucharSize)
    (cache, lines ++ wucharZero)
  else (cache, [])

/-- The rows for a log, with their numbers, while the fuel lasts. -/
def recentRows : Nat → MessageCache → Option Nat → Nat → MessageCache × List (Nat × List UInt8)
  | 0, cache, _, _ => (cache, [])
  | fuel + 1, cache, pos, seqNum =>
      match cache.enumMessages pos with
      | (cache, _, none) => (cache, [])
      | (cache, pos, some msg) =>
          let (cache, rows) := recentRows fuel cache (some pos) (seqNum + 1)
          (cache, (seqNum, msg) :: rows)

end Sql602.Trace

namespace Sql602.Trace

open Bytes Chains

/-! The places of the messages in the buffer. -/

/-- A message that does not look like the terminator. -/
def Plain (msg : List UInt8) : Prop := 0 ∉ msg ∧ msg.head? ≠ some terminator

def messageFormat : Format { msg : List UInt8 // Plain msg } where
  size msg := msg.val.length + 1
  lies memory pos msg := ∀ i < msg.val.length + 1, memory (pos + i) = (msg.val ++ [0]).getD i 0
  size_pos _ := Nat.succ_pos _
  lies_congr := by
    intro memory other pos msg hsame hlies i hi
    rw [← hsame (pos + i) (Nat.le_add_right _ _) (Nat.add_lt_add_left hi _)]
    exact hlies i hi

abbrev PlainMessage := { msg : List UInt8 // Plain msg }

/-- The messages from a position on: up to the bottom, or up to the end of the used part and
then from the start of the buffer. -/
inductive Layout (memory : Memory) (bufsize : Nat) : Nat → Nat → List PlainMessage → Prop
  | linear {top bottom : Nat} {msgs : List PlainMessage}
      (chain : Chain messageFormat memory top msgs bottom)
      (fits : bottom = 0 ∨ bottom + 1 < bufsize) : Layout memory bufsize top bottom msgs
  | turned {top bottom stop : Nat} {old new : List PlainMessage}
      (before : Chain messageFormat memory top old stop) (some : old ≠ [])
      (ends : memory stop = terminator) (after : Chain messageFormat memory 0 new bottom)
      (apart : bottom < top) (fits : stop + 1 < bufsize) :
      Layout memory bufsize top bottom (old ++ new)

section Texts

variable {memory other : Memory} {bufsize fuel pos stop top bottom : Nat} {msg : PlainMessage}
  {msgs : List PlainMessage}

theorem getD_message {i : Nat} (hi : i < msg.val.length) :
    (msg.val ++ [0]).getD i 0 = msg.val.getD i 0 := by
  rw [List.getD_eq_getElem?_getD, List.getD_eq_getElem?_getD, List.getElem?_append_left hi]

theorem getD_message_end : (msg.val ++ [0]).getD msg.val.length 0 = 0 := by
  rw [List.getD_eq_getElem?_getD, List.getElem?_append_right (Nat.le_refl _), Nat.sub_self]
  rfl

theorem getD_message_ne_zero {i : Nat} (hi : i < msg.val.length) :
    (msg.val ++ [0]).getD i 0 ≠ 0 := by
  rw [getD_message hi, List.getD_eq_getElem?_getD, List.getElem?_eq_getElem hi, Option.getD_some]
  intro hzero
  exact msg.property.1 (hzero ▸ List.getElem_mem hi)

theorem strlenFrom_eq (len : Nat) (hsome : ∀ i < len, memory (pos + i) ≠ 0)
    (hend : memory (pos + len) = 0) (hfuel : len < fuel) : strlenFrom memory fuel pos = len := by
  induction len generalizing fuel pos with
  | zero =>
      obtain ⟨fuel, rfl⟩ := Nat.exists_eq_add_of_lt hfuel
      exact if_pos hend
  | succ len ih =>
      obtain ⟨fuel, rfl⟩ := Nat.exists_eq_add_of_lt (Nat.zero_lt_of_lt hfuel)
      have hfirst : memory pos ≠ 0 := hsome 0 (Nat.succ_pos _)
      have hrest : strlenFrom memory (0 + fuel) (pos + 1) = len := by
        apply ih
        · intro i hi
          rw [Nat.add_assoc, Nat.add_comm 1 i]
          exact hsome (i + 1) (Nat.succ_lt_succ hi)
        · rw [Nat.add_assoc, Nat.add_comm 1 len]
          exact hend
        · omega
      rw [strlenFrom, if_neg hfirst, hrest]

theorem strlenFrom_lies (hlies : messageFormat.lies memory pos msg)
    (hfuel : msg.val.length < fuel) : strlenFrom memory fuel pos = msg.val.length := by
  apply strlenFrom_eq _ ?_ ?_ hfuel
  · intro i hi
    rw [hlies i (Nat.lt_succ_of_lt hi)]
    exact getD_message_ne_zero hi
  · rw [hlies _ (Nat.lt_succ_self _)]
    exact getD_message_end

theorem textAt_lies (hlies : messageFormat.lies memory pos msg)
    (hfuel : msg.val.length < bufsize) : textAt memory bufsize pos = msg.val := by
  rw [textAt, strlenFrom_lies hlies hfuel]
  apply List.ext_getElem
  · rw [slice, List.length_map, List.length_range]
  · intro i hleft hright
    simp only [slice, List.getElem_map, List.getElem_range]
    rw [hlies i (Nat.lt_succ_of_lt hright), getD_message hright, List.getD_eq_getElem?_getD,
      List.getElem?_eq_getElem hright, Option.getD_some]

theorem afterMessage_lies (hlies : messageFormat.lies memory pos msg)
    (hfuel : msg.val.length < bufsize) :
    afterMessage memory bufsize pos = pos + messageFormat.size msg := by
  rw [afterMessage, strlenFrom_lies hlies hfuel]
  rfl

/-- The first byte of a message is not the terminator. -/
theorem first_ne_terminator (hlies : messageFormat.lies memory pos msg) :
    memory pos ≠ terminator := by
  have hfirst : memory pos = (msg.val ++ [0]).getD 0 0 := hlies 0 (Nat.succ_pos _)
  rw [hfirst]
  obtain ⟨bytes, hzero, hplain⟩ := msg
  cases bytes with
  | nil => exact show (0 : UInt8) ≠ 1 by decide
  | cons byte bytes =>
      intro heq
      exact hplain (congrArg some heq)

theorem message_length_lt (hchain : Chain messageFormat memory pos (msg :: msgs) stop)
    (hfits : stop < bufsize) : msg.val.length < bufsize := by
  have hle : pos + messageFormat.size msg ≤ stop := hchain.2.le
  have hsize : messageFormat.size msg = msg.val.length + 1 := rfl
  omega

end Texts

/-! The passage over the messages. -/

section Passage

variable {cache : MessageCache} {pos : Nat} {msg : PlainMessage} {msgs : List PlainMessage}

theorem Layout.nil (hlayout : Layout cache.buf cache.bufsize pos cache.bottom []) :
    pos = cache.bottom := by
  generalize hmsgs : ([] : List PlainMessage) = msgs at hlayout
  cases hlayout with
  | linear chain =>
      subst hmsgs
      exact chain
  | turned before some => exact absurd (List.append_eq_nil_iff.mp hmsgs.symm).1 some

theorem Layout.cons (hlayout : Layout cache.buf cache.bufsize pos cache.bottom (msg :: msgs)) :
    pos ≠ cache.bottom ∧ textAt cache.buf cache.bufsize pos = msg.val ∧
      Layout cache.buf cache.bufsize (nextMessage cache pos) cache.bottom msgs := by
  generalize hmsgs : msg :: msgs = all at hlayout
  cases hlayout with
  | linear chain fits =>
      subst hmsgs
      have hsize := messageFormat.size_pos msg
      have hle : pos + messageFormat.size msg ≤ cache.bottom := chain.2.le
      have hbound : cache.bottom + 1 < cache.bufsize := fits.resolve_left (by omega)
      have hlength := message_length_lt chain (Nat.lt_of_succ_lt hbound)
      have hafter := afterMessage_lies chain.1 hlength
      refine ⟨by omega, textAt_lies chain.1 hlength, ?_⟩
      have hnext : nextMessage cache pos = pos + messageFormat.size msg := by
        rw [nextMessage, hafter]
        apply if_neg
        rintro ⟨hterminator, hbottom⟩
        cases msgs with
        | nil => exact hbottom chain.2
        | cons second msgs => exact first_ne_terminator chain.2.1 hterminator
      rw [hnext]
      exact Layout.linear chain.2 fits
  | turned before some ends after apart fits =>
      rename_i stop old new
      cases old with
      | nil => exact absurd rfl some
      | cons first old =>
          obtain ⟨rfl, rfl⟩ := List.cons.inj hmsgs
          have hlength := message_length_lt before (Nat.lt_of_succ_lt fits)
          have hafter := afterMessage_lies before.1 hlength
          have hle := before.2.le
          have hsize := messageFormat.size_pos msg
          refine ⟨by omega, textAt_lies before.1 hlength, ?_⟩
          rw [nextMessage, hafter]
          cases old with
          | nil =>
              obtain rfl : pos + messageFormat.size msg = stop := before.2
              rw [if_pos ⟨ends, by omega⟩]
              exact Layout.linear after (Or.inr (by omega))
          | cons second old =>
              have hnext := first_ne_terminator before.2.1
              rw [if_neg fun h => hnext h.1]
              exact Layout.turned before.2 (List.cons_ne_nil _ _) ends after (by omega) fits

end Passage

/-! The room for a new message. -/

section Room

variable {memory : Memory} {bufsize stop bound fuel top : Nat} {old : List PlainMessage}

/-- The top passes the oldest messages, until the new one does not reach it. -/
theorem moveTop_spec (hchain : Chain messageFormat memory top old stop) (hsome : old ≠ [])
    (hends : memory stop = terminator) (hstop : stop < bufsize) (hfuel : bound < top + fuel) :
    ∃ dropped kept, old = dropped ++ kept ∧
      (kept = [] ∧ moveTop memory bufsize bound fuel top = 0 ∨
        kept ≠ [] ∧ bound < moveTop memory bufsize bound fuel top ∧
          Chain messageFormat memory (moveTop memory bufsize bound fuel top) kept stop) := by
  induction old generalizing fuel top with
  | nil => exact absurd rfl hsome
  | cons msg old ih =>
      cases fuel with
      | zero => exact ⟨[], msg :: old, rfl, Or.inr ⟨hsome, hfuel, hchain⟩⟩
      | succ fuel =>
          rw [moveTop]
          split
          case isFalse hroom =>
            exact ⟨[], msg :: old, rfl, Or.inr ⟨hsome, Nat.lt_of_not_le hroom, hchain⟩⟩
          case isTrue =>
            have hlength := message_length_lt hchain hstop
            have hsize := messageFormat.size_pos msg
            dsimp only
            rw [afterMessage_lies hchain.1 hlength]
            cases old with
            | nil =>
                obtain rfl : top + messageFormat.size msg = stop := hchain.2
                rw [if_pos hends]
                exact ⟨[msg], [], rfl, Or.inl ⟨rfl, rfl⟩⟩
            | cons second old =>
                rw [if_neg (first_ne_terminator hchain.2.1)]
                have hnext : bound < top + messageFormat.size msg + fuel := by omega
                obtain ⟨dropped, kept, heq, hkept⟩ :=
                  ih hchain.2 (List.cons_ne_nil _ _) hnext
                exact ⟨msg :: dropped, kept, congrArg _ heq, hkept⟩

end Room

/-! A new message. -/

section Adding

variable {cache : MessageCache} {empty : Bool} {msg : PlainMessage}
  {msgs old new : List PlainMessage} {stop : Nat}

theorem put_buf : (cache.put empty msg.val).buf =
    copy cache.buf cache.bottom (fun i => (msg.val ++ [0]).getD i 0) 0 (msg.val.length + 1) := rfl

theorem lies_put : messageFormat.lies (cache.put empty msg.val).buf cache.bottom msg := by
  intro i hi
  rw [put_buf, copy_inside (Nat.le_add_right _ _) (Nat.add_lt_add_left hi _),
    Nat.add_sub_cancel_left, Nat.zero_add]

theorem put_outside {i : Nat} (hout : i < cache.bottom ∨ (cache.put empty msg.val).bottom ≤ i) :
    cache.buf i = (cache.put empty msg.val).buf i := by
  rw [put_buf, copy_outside hout]

/-- The new message follows the others. -/
theorem put_linear (hchain : Chain messageFormat cache.buf cache.top msgs cache.bottom)
    (htop : cache.bottom ≤ cache.top → empty = true)
    (hroom : cache.bottom + (msg.val.length + 1) + 1 < cache.bufsize) :
    Layout (cache.put empty msg.val).buf cache.bufsize (cache.put empty msg.val).top
      (cache.put empty msg.val).bottom (msgs ++ [msg]) := by
  have hstays : (cache.put empty msg.val).top = cache.top := by
    apply if_neg
    rintro ⟨hle, hempty⟩
    rw [htop hle] at hempty
    cases hempty
  rw [hstays]
  refine Layout.linear ?_ (Or.inr hroom)
  exact (hchain.congr fun i _ hi => put_outside (Or.inl hi)).snoc lies_put

/-- The new message follows those at the start of the buffer, and drops some of the others. -/
theorem put_turned (hbefore : Chain messageFormat cache.buf cache.top old stop) (hsome : old ≠ [])
    (hends : cache.buf stop = terminator) (hstop : stop + 1 < cache.bufsize)
    (hafter : Chain messageFormat cache.buf 0 new cache.bottom) (htop : cache.bottom ≤ cache.top)
    (hroom : cache.bottom + (msg.val.length + 1) + 1 < cache.bufsize) :
    ∃ dropped kept, old = dropped ++ kept ∧
      Layout (cache.put false msg.val).buf cache.bufsize (cache.put false msg.val).top
        (cache.put false msg.val).bottom (kept ++ (new ++ [msg])) := by
  have hmoves : (cache.put false msg.val).top = moveTop cache.buf cache.bufsize
      (cache.bottom + (msg.val.length + 1)) (cache.bottom + (msg.val.length + 1) + 1)
        cache.top := if_pos ⟨htop, rfl⟩
  have hnew : Chain messageFormat (cache.put false msg.val).buf 0 (new ++ [msg])
      (cache.put false msg.val).bottom :=
    (hafter.congr fun i _ hi => put_outside (Or.inl hi)).snoc lies_put
  obtain ⟨dropped, kept, heq, hkept⟩ := @moveTop_spec cache.buf cache.bufsize stop
    (cache.bottom + (msg.val.length + 1)) (cache.bottom + (msg.val.length + 1) + 1) cache.top old
    hbefore hsome hends (Nat.lt_of_succ_lt hstop) (by omega)
  rw [← hmoves] at hkept
  refine ⟨dropped, kept, heq, ?_⟩
  obtain ⟨rfl, hzero⟩ | ⟨hrest, hapart, hchain⟩ := hkept
  · rw [hzero]
    exact Layout.linear hnew (Or.inr hroom)
  · have hle := hchain.le
    have hbottom : (cache.put false msg.val).bottom < (cache.put false msg.val).top := hapart
    refine Layout.turned (hchain.congr fun i hi _ => put_outside (Or.inr ?_)) hrest ?_ hnew hbottom
      hstop
    · exact Nat.le_trans (Nat.le_of_lt hbottom) hi
    · rw [← put_outside (Or.inr (Nat.le_trans (Nat.le_of_lt hbottom) hle))]
      exact hends

end Adding

end Sql602.Trace
