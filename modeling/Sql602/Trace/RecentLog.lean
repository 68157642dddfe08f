import Sql602.Library.Run
import Sql602.Trace.MessageCache

namespace Sql602.Trace

open Bytes Chains

/-! Messages and enumerations in any order. -/

/-- The messages from a position on, while the fuel lasts. -/
def messagesFrom (cache : MessageCache) : Nat → Nat → List (List UInt8)
  | 0, _ => []
  | fuel + 1, pos =>
      if pos = cache.bottom then []
      else
        textAt cache.buf cache.bufsize pos :: messagesFrom cache fuel (nextMessage cache pos)

def MessageCache.messages (cache : MessageCache) : List (List UInt8) :=
  messagesFrom cache cache.bufsize cache.top

def fillRecentLog (cache : MessageCache) : MessageCache × List (Nat × List UInt8) :=
  recentRows (cache.bufsize + 1) cache none 0

/-- The lines of whole messages. -/
def linesOf (unicode : List UInt8 → List UInt8) (msgs : List (List UInt8)) : List UInt8 :=
  (msgs.map fun msg => unicode msg ++ wucharZero).flatten

structure System where
  cache : MessageCache
  /-- All the messages that the buffer could hold when they came. -/
  accepted : List (List UInt8)

inductive Operation where
  | add (msg : Message)
  | recent (sizeLimit : Nat)
  | fill
  | resize (newBufsize : Nat) (newbuf : Option Memory)

section Steps

variable (unicode : List UInt8 → List UInt8)

def step (system : System) : Operation → System
  | .add msg =>
      { cache := system.cache.addMessage msg.val
        accepted :=
          if msg.val.length + 2 < system.cache.bufsize then system.accepted ++ [msg.val]
          else system.accepted }
  | .recent sizeLimit =>
      { system with cache := (returnRecentLog unicode system.cache sizeLimit).1 }
  | .fill => { system with cache := (fillRecentLog system.cache).1 }
  | .resize newBufsize newbuf =>
      { system with cache := system.cache.resetLogCacheSize newBufsize newbuf }

/-- The message does not begin by the terminator, and the answer is either long enough for all the
messages or too short for any. -/
def StepOk (system : System) : Operation → Prop
  | .add msg => msg.val.head? ≠ some terminator
  | .recent sizeLimit =>
      sizeLimit ≤ 2 * wucharSize ∨
        (linesOf unicode system.cache.messages).length + 2 * wucharSize < sizeLimit
  | .fill => True
  | .resize _ _ => True

/-- The cache is not locked, it has the latest of the accepted messages, and an enumeration finds
them in their order. -/
structure Right (system : System) : Prop where
  unlocked : system.cache.locked = 0
  latest : ∃ dropped, system.accepted = dropped ++ system.cache.messages
  some : system.accepted ≠ [] → system.cache.messages ≠ []
  last : system.cache.getLastMessage = system.accepted.getLast?
  answer : ∀ sizeLimit,
    (linesOf unicode system.cache.messages).length + 2 * wucharSize < sizeLimit →
      returnRecentLog unicode system.cache sizeLimit =
        (system.cache, linesOf unicode system.cache.messages ++ wucharZero)
  rows : fillRecentLog system.cache =
    (system.cache, (List.range' 0 system.cache.messages.length).zip system.cache.messages)

end Steps

/-- The messages are in the buffer, and nobody enumerates them. -/
structure Held (cache : MessageCache) (msgs : List PlainMessage) : Prop where
  layout : Layout cache.buf cache.bufsize cache.top cache.bottom msgs
  last : ∀ init msg, msgs = init ++ [msg] →
    messageFormat.lies cache.buf cache.lastMessagePtr msg ∧
      cache.lastMessagePtr + messageFormat.size msg < cache.bufsize
  unlocked : cache.locked = 0

def texts (msgs : List PlainMessage) : List (List UInt8) := msgs.map Subtype.val

section Enumeration

variable {cache : MessageCache} {pos fuel sizeLimit seqNum : Nat} {msgs : List PlainMessage}
  {unicode : List UInt8 → List UInt8}

theorem messagesFrom_layout
    (hlayout : Layout cache.buf cache.bufsize pos cache.bottom msgs)
    (hfuel : msgs.length ≤ fuel) : messagesFrom cache fuel pos = texts msgs := by
  induction msgs generalizing fuel pos with
  | nil =>
      cases fuel with
      | zero => rfl
      | succ fuel => exact if_pos hlayout.nil
  | cons msg msgs ih =>
      obtain ⟨hpos, htext, hnext⟩ := hlayout.cons
      obtain ⟨fuel, rfl⟩ := Nat.exists_eq_add_of_le' hfuel
      rw [List.length_cons, ← Nat.add_assoc, messagesFrom, if_neg hpos, htext,
        ih hnext (Nat.le_add_left _ _)]
      rfl

theorem Layout.length_le (hlayout : Layout cache.buf cache.bufsize pos cache.bottom msgs) :
    msgs.length ≤ cache.bufsize := by
  cases hlayout with
  | linear chain fits =>
      have hle := chain.length_le
      omega
  | turned before some ends after apart fits =>
      have hold := before.length_le
      have hnew := after.length_le
      rw [List.length_append]
      omega

theorem Held.messages (hheld : Held cache msgs) : cache.messages = texts msgs :=
  messagesFrom_layout hheld.layout hheld.layout.length_le

theorem enumMessages_some :
    cache.enumMessages (some pos) =
      if pos = cache.bottom then ({ cache with locked := cache.locked - 1 }, pos, none)
      else (cache, nextMessage cache pos, some (textAt cache.buf cache.bufsize pos)) := rfl

/-- The enumeration ends, when the answer has room for one more character. -/
theorem recentLines_layout
    (hlayout : Layout cache.buf cache.bufsize pos cache.bottom msgs)
    (henough : (linesOf unicode (texts msgs)).length + wucharSize < sizeLimit)
    (hfuel : sizeLimit ≤ fuel) :
    recentLines unicode fuel cache (some pos) sizeLimit =
      ({ cache with locked := cache.locked - 1 }, linesOf unicode (texts msgs)) := by
  induction msgs generalizing fuel pos sizeLimit with
  | nil =>
      have hlimit : wucharSize < sizeLimit := Nat.lt_of_le_of_lt (Nat.le_add_left _ _) henough
      obtain ⟨fuel, rfl⟩ := Nat.exists_eq_add_of_lt (Nat.lt_of_lt_of_le hlimit hfuel)
      rw [recentLines, if_pos hlimit, enumMessages_some, if_pos hlayout.nil]
      rfl
  | cons msg msgs ih =>
      obtain ⟨hpos, htext, hnext⟩ := hlayout.cons
      have hlines : linesOf unicode (texts (msg :: msgs)) =
          unicode msg.val ++ wucharZero ++ linesOf unicode (texts msgs) := rfl
      have hzero : wucharZero.length = wucharSize := rfl
      rw [hlines, List.length_append, List.length_append, hzero] at henough
      have hlimit : wucharSize < sizeLimit := Nat.lt_of_le_of_lt (Nat.le_add_left _ _) henough
      obtain ⟨fuel, rfl⟩ := Nat.exists_eq_add_of_lt (Nat.lt_of_lt_of_le hlimit hfuel)
      have hwhole : min (unicode msg.val).length (sizeLimit - wucharSize) =
          (unicode msg.val).length := Nat.min_eq_left (by omega)
      have hpositive : 0 < wucharSize := by decide
      rw [recentLines, if_pos hlimit, enumMessages_some, if_neg hpos, htext]
      dsimp only
      rw [hwhole, ih hnext (by omega) (by omega), List.take_length, hlines]

theorem recentRows_layout
    (hlayout : Layout cache.buf cache.bufsize pos cache.bottom msgs)
    (hfuel : msgs.length < fuel) :
    recentRows fuel cache (some pos) seqNum =
      ({ cache with locked := cache.locked - 1 },
        (List.range' seqNum msgs.length).zip (texts msgs)) := by
  induction msgs generalizing fuel pos seqNum with
  | nil =>
      obtain ⟨fuel, rfl⟩ := Nat.exists_eq_add_of_lt hfuel
      rw [recentRows, enumMessages_some, if_pos hlayout.nil]
      rfl
  | cons msg msgs ih =>
      obtain ⟨hpos, htext, hnext⟩ := hlayout.cons
      obtain ⟨fuel, rfl⟩ := Nat.exists_eq_add_of_lt hfuel
      rw [recentRows, enumMessages_some, if_neg hpos, htext]
      dsimp only
      rw [ih hnext (by rw [List.length_cons]; omega)]
      rfl

/-- The first call locks the cache, and the last one unlocks it. -/
theorem lock_unlock : { { cache with locked := cache.locked + 1 } with
    locked := cache.locked + 1 - 1 } = cache := by
  rw [Int.add_sub_cancel]

theorem Held.answer (hheld : Held cache msgs)
    (henough : (linesOf unicode (texts msgs)).length + 2 * wucharSize < sizeLimit) :
    returnRecentLog unicode cache sizeLimit =
      (cache, linesOf unicode (texts msgs) ++ wucharZero) := by
  have hsize : wucharSize = 2 := rfl
  have hlimit : wucharSize ≤ sizeLimit := by omega
  have hmore : wucharSize < sizeLimit - wucharSize := by omega
  obtain ⟨fuel, rfl⟩ := Nat.exists_eq_add_of_lt (show 0 < sizeLimit by omega)
  have hlines := @recentLines_layout { cache with locked := cache.locked + 1 } cache.top
    (0 + fuel + 1) (0 + fuel + 1 - wucharSize) msgs unicode hheld.layout (by omega) (by omega)
  have hfirst : recentLines unicode (0 + fuel + 1) cache none (0 + fuel + 1 - wucharSize) =
      recentLines unicode (0 + fuel + 1) { cache with locked := cache.locked + 1 }
        (some cache.top) (0 + fuel + 1 - wucharSize) := by
    rw [recentLines, recentLines, if_pos hmore, if_pos hmore]
    rfl
  rw [returnRecentLog, if_pos hlimit, hfirst, hlines, lock_unlock]

theorem Held.rows (hheld : Held cache msgs) :
    fillRecentLog cache = (cache, (List.range' 0 msgs.length).zip (texts msgs)) := by
  have hrows := @recentRows_layout { cache with locked := cache.locked + 1 } cache.top
    (cache.bufsize + 1) 0 msgs hheld.layout (Nat.lt_succ_of_le hheld.layout.length_le)
  have hfirst : fillRecentLog cache = recentRows (cache.bufsize + 1)
      { cache with locked := cache.locked + 1 } (some cache.top) 0 := rfl
  rw [hfirst, hrows, lock_unlock]

/-- An answer that is too short for any message does not enumerate. -/
theorem returnRecentLog_short (hshort : sizeLimit ≤ 2 * wucharSize) :
    (returnRecentLog unicode cache sizeLimit).1 = cache := by
  have hsize : wucharSize = 2 := rfl
  rw [returnRecentLog]
  split
  · cases sizeLimit with
    | zero => rfl
    | succ fuel =>
        rw [recentLines, if_neg (by omega)]
  · rfl

end Enumeration

section Adding

variable {cache : MessageCache} {msg : PlainMessage} {msgs : List PlainMessage}

theorem turn_outside {i : Nat} (hout : i < cache.bottom) : cache.buf i = cache.turn.buf i :=
  (Function.update_of_ne (Nat.ne_of_lt hout) _ _).symm

theorem turn_ends : cache.turn.buf cache.bottom = terminator := Function.update_self _ _ _

/-- A message that the buffer can hold is put behind the others, and the oldest ones may be
dropped. -/
theorem addMessage_layout (hlayout : Layout cache.buf cache.bufsize cache.top cache.bottom msgs)
    (hunlocked : cache.locked = 0) (hroom : msg.val.length + 2 < cache.bufsize) :
    ∃ dropped kept, msgs = dropped ++ kept ∧
      Layout (cache.addMessage msg.val).buf cache.bufsize (cache.addMessage msg.val).top
        (cache.addMessage msg.val).bottom (kept ++ [msg]) := by
  have hlocked : ¬ (cache.locked ≠ 0 ∨ cache.bufsize = 0) := by
    rintro (hlocked | hnone)
    · exact hlocked hunlocked
    · omega
  have hsmall : ¬ cache.bufsize ≤ msg.val.length + 1 + 1 := Nat.not_le_of_lt hroom
  rw [MessageCache.addMessage, if_neg hlocked, if_neg hsmall]
  by_cases hturns : cache.bufsize ≤ cache.bottom + (msg.val.length + 1) + 1
  · rw [if_pos hturns]
    have hstart : cache.turn.bottom + (msg.val.length + 1) + 1 < cache.turn.bufsize := by
      change 0 + (msg.val.length + 1) + 1 < cache.bufsize
      omega
    cases hlayout with
    | linear chain fits =>
        have hle := chain.le
        by_cases hempty : cache.top = cache.bottom
        · -- An empty buffer starts again.
          have hnil : msgs = [] := by
            cases msgs with
            | nil => rfl
            | cons first rest =>
                have hsize := messageFormat.size_pos first
                have hrest := chain.2.le
                omega
          have htop : cache.turn.top = 0 := if_pos (Nat.le_of_eq hempty.symm)
          rw [beq_iff_eq.mpr hempty]
          refine ⟨[], [], hnil, @put_linear cache.turn true msg [] ?_ (fun _ => rfl) hstart⟩
          exact htop
        · have htop : cache.turn.top = cache.top := if_neg (by omega)
          have hsome : msgs ≠ [] := by
            rintro rfl
            exact hempty chain
          rw [beq_eq_false_iff_ne.mpr hempty]
          refine @put_turned cache.turn msg msgs [] cache.bottom ?_ hsome turn_ends ?_ rfl
            (Nat.zero_le _) hstart
          · rw [htop]
            exact chain.congr fun i _ hi => turn_outside hi
          · exact fits.resolve_left (by omega)
    | turned before some ends after apart fits =>
        rename_i stop old new
        have htop : cache.turn.top = 0 := if_pos (Nat.le_of_lt apart)
        have hle := before.le
        have hsome : new ≠ [] := by
          rintro rfl
          have hzero : 0 = cache.bottom := after
          omega
        have hturned := @put_turned cache.turn msg new [] cache.bottom
          (by
            rw [htop]
            exact after.congr fun i _ hi => turn_outside hi) hsome turn_ends
          (show cache.bottom + 1 < cache.bufsize by omega) rfl (Nat.zero_le _) hstart
        obtain ⟨dropped, kept, heq, hkept⟩ := hturned
        rw [beq_eq_false_iff_ne.mpr (Nat.ne_of_gt apart)]
        exact ⟨old ++ dropped, kept, by rw [heq, List.append_assoc], hkept⟩
  · rw [if_neg hturns]
    have hfits : cache.bottom + (msg.val.length + 1) + 1 < cache.bufsize := Nat.lt_of_not_le hturns
    cases hlayout with
    | linear chain fits =>
        have hle := chain.le
        refine ⟨[], msgs, rfl, put_linear chain ?_ hfits⟩
        intro hbottom
        exact beq_iff_eq.mpr (Nat.le_antisymm hle hbottom)
    | turned before some ends after apart fits =>
        rename_i stop old new
        rw [beq_eq_false_iff_ne.mpr (Nat.ne_of_gt apart)]
        obtain ⟨dropped, kept, heq, hkept⟩ :=
          put_turned before some ends fits after (Nat.le_of_lt apart) hfits
        rw [← List.append_assoc] at hkept
        exact ⟨dropped, kept ++ new, by rw [heq, List.append_assoc], hkept⟩

/-- The message that has been added is the most recent one. -/
theorem addMessage_last (hunlocked : cache.locked = 0)
    (hroom : msg.val.length + 2 < cache.bufsize) :
    messageFormat.lies (cache.addMessage msg.val).buf (cache.addMessage msg.val).lastMessagePtr
        msg ∧
      (cache.addMessage msg.val).lastMessagePtr + messageFormat.size msg < cache.bufsize := by
  have hlocked : ¬ (cache.locked ≠ 0 ∨ cache.bufsize = 0) := by
    rintro (hlocked | hnone)
    · exact hlocked hunlocked
    · omega
  have hsmall : ¬ cache.bufsize ≤ msg.val.length + 1 + 1 := Nat.not_le_of_lt hroom
  have hsize : messageFormat.size msg = msg.val.length + 1 := rfl
  rw [MessageCache.addMessage, if_neg hlocked, if_neg hsmall]
  dsimp only
  split
  · refine ⟨lies_put, ?_⟩
    change 0 + messageFormat.size msg < cache.bufsize
    omega
  · refine ⟨lies_put, ?_⟩
    change cache.bottom + messageFormat.size msg < cache.bufsize
    omega

theorem addMessage_rest (msg : List UInt8) :
    (cache.addMessage msg).bufsize = cache.bufsize ∧
      (cache.addMessage msg).locked = cache.locked := by
  rw [MessageCache.addMessage]
  dsimp only
  split
  · exact ⟨rfl, rfl⟩
  · split
    · exact ⟨rfl, rfl⟩
    · split <;> exact ⟨rfl, rfl⟩

theorem Held.add (hheld : Held cache msgs) (hroom : msg.val.length + 2 < cache.bufsize) :
    ∃ dropped kept, msgs = dropped ++ kept ∧
      Held (cache.addMessage msg.val) (kept ++ [msg]) := by
  obtain ⟨dropped, kept, heq, hlayout⟩ :=
    addMessage_layout hheld.layout hheld.unlocked hroom
  obtain ⟨hsize, hlocked⟩ := @addMessage_rest cache msg.val
  refine ⟨dropped, kept, heq, ?_⟩
  constructor
  case layout =>
    rw [hsize]
    exact hlayout
  case last =>
    intro init last hlast
    obtain ⟨-, hmsg⟩ := List.append_inj' hlast rfl
    obtain rfl : msg = last := List.singleton_inj.mp hmsg
    rw [hsize]
    exact addMessage_last hheld.unlocked hroom
  case unlocked => exact hlocked.trans hheld.unlocked

theorem addMessage_refused {msg : List UInt8} (hroom : ¬ msg.length + 2 < cache.bufsize) :
    cache.addMessage msg = cache := by
  rw [MessageCache.addMessage]
  dsimp only
  split
  · rfl
  · exact if_pos (Nat.le_of_not_lt hroom)

theorem Held.resize (hheld : Held cache msgs) (newBufsize : Nat) (newbuf : Option Memory) :
    Held (cache.resetLogCacheSize newBufsize newbuf) msgs := by
  unfold MessageCache.resetLogCacheSize
  split
  case isTrue => exact hheld
  case isFalse hlarger =>
    cases newbuf with
    | none => exact hheld
    | some newbuf =>
        have hsame : ∀ i < cache.bufsize,
            cache.buf i = copy newbuf 0 cache.buf 0 cache.bufsize i := by
          intro i hi
          rw [copy_inside (Nat.zero_le _) (by omega), Nat.zero_add, Nat.sub_zero]
        constructor
        case layout =>
          cases hheld.layout with
          | linear chain fits =>
              refine Layout.linear (chain.congr fun i _ hi => hsame i ?_) ?_
              · omega
              · dsimp only
                omega
          | turned before some ends after apart fits =>
              have hle := before.le
              refine Layout.turned (before.congr fun i _ hi => hsame i ?_) some ?_
                (after.congr fun i _ hi => hsame i ?_) apart ?_
              · omega
              · dsimp only
                rw [← hsame _ (Nat.lt_of_succ_lt fits)]
                exact ends
              · omega
              · dsimp only
                omega
        case last =>
          intro init msg hmsgs
          obtain ⟨hlies, hfits⟩ := hheld.last init msg hmsgs
          refine ⟨messageFormat.lies_congr (fun i _ hi => hsame i ?_) hlies, ?_⟩
          · exact Nat.lt_trans hi hfits
          · dsimp only
            omega
        case unlocked => exact hheld.unlocked

end Adding

/-! Runs. -/

section Runs

variable {unicode : List UInt8 → List UInt8} {system : System}

/-- The invariant of the runs. -/
def Kept (system : System) : Prop :=
  ∃ msgs dropped, Held system.cache msgs ∧ system.accepted = dropped ++ texts msgs ∧
    (system.accepted ≠ [] → msgs ≠ [])

theorem Layout.eq_nil {cache : MessageCache} {msgs : List PlainMessage}
    (hlayout : Layout cache.buf cache.bufsize cache.bottom cache.bottom msgs) : msgs = [] := by
  cases msgs with
  | nil => rfl
  | cons msg msgs => exact absurd rfl hlayout.cons.1

theorem Held.getLastMessage {cache : MessageCache} {msgs : List PlainMessage}
    (hheld : Held cache msgs) : cache.getLastMessage = (texts msgs).getLast? := by
  rw [MessageCache.getLastMessage]
  split
  case isTrue hempty =>
    have hlayout := hheld.layout
    rw [hempty] at hlayout
    rw [hlayout.eq_nil]
    rfl
  case isFalse hsome =>
    obtain rfl | ⟨init, msg, rfl⟩ := List.eq_nil_or_concat' msgs
    · exact absurd hheld.layout.nil hsome
    · obtain ⟨hlies, hfits⟩ := hheld.last init msg rfl
      have hsize : messageFormat.size msg = msg.val.length + 1 := rfl
      rw [textAt_lies hlies (by omega), texts, List.map_append, List.map_singleton,
        List.getLast?_concat]

theorem Kept.right (hkept : Kept system) : Right unicode system := by
  obtain ⟨msgs, dropped, hheld, haccepted, hsome⟩ := hkept
  have hmessages := hheld.messages
  constructor
  case unlocked => exact hheld.unlocked
  case latest => exact ⟨dropped, by rw [haccepted, hmessages]⟩
  case some =>
    intro hne
    rw [hmessages]
    exact fun hnil => hsome hne (List.map_eq_nil_iff.mp hnil)
  case last =>
    rw [hheld.getLastMessage]
    obtain rfl | ⟨init, msg, rfl⟩ := List.eq_nil_or_concat' msgs
    · have hnone : system.accepted = [] := Classical.byContradiction fun hne => hsome hne rfl
      rw [hnone]
      rfl
    · rw [haccepted, texts, List.map_append, List.map_singleton, ← List.append_assoc,
        List.getLast?_concat, List.getLast?_concat]
  case answer =>
    intro sizeLimit henough
    rw [hmessages] at henough ⊢
    exact hheld.answer henough
  case rows =>
    rw [hheld.rows, hmessages, texts, List.length_map]

theorem Kept.step {op : Operation} (hkept : Kept system) (hok : StepOk unicode system op) :
    Kept (step unicode system op) := by
  obtain ⟨msgs, dropped, hheld, haccepted, hsome⟩ := hkept
  cases op with
  | add msg =>
      by_cases hroom : msg.val.length + 2 < system.cache.bufsize
      · obtain ⟨passed, kept, rfl, hnew⟩ :=
          @Held.add _ ⟨msg.val, msg.property, hok⟩ _ hheld hroom
        refine ⟨_, dropped ++ texts passed, hnew, ?_, fun _ => ?_⟩
        · simp only [Sql602.Trace.step, if_pos hroom, haccepted, texts, List.map_append,
            List.map_singleton, List.append_assoc]
        · exact List.append_ne_nil_of_right_ne_nil _ (List.cons_ne_nil _ _)
      · simp only [Sql602.Trace.step, if_neg hroom, addMessage_refused hroom]
        exact ⟨msgs, dropped, hheld, haccepted, hsome⟩
  | recent sizeLimit =>
      have hsame : (returnRecentLog unicode system.cache sizeLimit).1 = system.cache := by
        obtain hshort | henough := hok
        · exact returnRecentLog_short hshort
        · rw [hheld.messages] at henough
          rw [hheld.answer henough]
      simp only [Sql602.Trace.step, hsame]
      exact ⟨msgs, dropped, hheld, haccepted, hsome⟩
  | fill =>
      simp only [Sql602.Trace.step, hheld.rows]
      exact ⟨msgs, dropped, hheld, haccepted, hsome⟩
  | resize newBufsize newbuf =>
      exact ⟨msgs, dropped, hheld.resize newBufsize newbuf, haccepted, hsome⟩

def start (bufsize : Nat) (buf : Memory) : System := ⟨MessageCache.create bufsize buf, []⟩

theorem kept_start (bufsize : Nat) (buf : Memory) : Kept (start bufsize buf) := by
  refine ⟨[], [], ⟨Layout.linear rfl (Or.inl rfl), ?_, rfl⟩, rfl, fun h => absurd rfl h⟩
  intro init msg hnil
  exact absurd hnil.symm (List.append_ne_nil_of_right_ne_nil _ (List.cons_ne_nil _ _))

theorem recentLog_right (unicode : List UInt8 → List UInt8) (bufsize : Nat) (buf : Memory)
    (ops : List Operation)
    (hok : Run.Meets (step unicode) (StepOk unicode) (start bufsize buf) ops) :
    Run.Always (step unicode) (Right unicode) (start bufsize buf) ops :=
  Run.always_of_invariant Kept (fun _ => Kept.right) (fun _ _ => Kept.step)
    (kept_start bufsize buf) hok

/-- Characters of the lower half. -/
def widen (bytes : List UInt8) : List UInt8 := (bytes.map fun byte => [byte, 0]).flatten

def messageA : Message := ⟨[97], by decide⟩

def messageB : Message := ⟨[98], by decide⟩

theorem recentLog_right_two :
    Run.Always (step widen) (Right widen) (start 8 fun _ => 0)
      [.add messageA, .recent 9, .add messageB, .fill] := by
  refine recentLog_right widen 8 (fun _ => 0) _ ⟨?_, ?_, ?_, trivial, trivial⟩
  · exact show messageA.val.head? ≠ some terminator by decide
  · exact Or.inr (by decide)
  · exact show messageB.val.head? ≠ some terminator by decide

/-- After an enumeration that its size limit has stopped, a message is not accepted. -/
theorem not_forall_recentLog_right :
    ¬ ∀ (unicode : List UInt8 → List UInt8) (bufsize : Nat) (buf : Memory)
        (ops : List Operation),
      Run.Always (step unicode) (Right unicode) (start bufsize buf) ops := by
  intro hall
  have hlast := (hall widen 8 (fun _ => 0) [.add messageA, .recent 5, .add messageB]).last.last
  have hfirst : (Run.run (step widen) (start 8 fun _ => 0)
      [.add messageA, .recent 5, .add messageB]).cache.getLastMessage = some [97] := by decide
  rw [hfirst] at hlast
  exact absurd hlast (by decide)

end Runs

end Sql602.Trace
