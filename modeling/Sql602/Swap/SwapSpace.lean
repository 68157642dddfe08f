import Sql602.Library.Run
import Sql602.Swap.Transactor
import Sql602.Library.Holding

namespace Sql602.Swap

open Files

/-! Swapping by several clients at a time. A client leaves its critical section between
the steps of a swap; the lock of the page keeps the others away from the swap control
block, which has no block of the transaction file until the swap is completed. -/

/-- The page is the one that was swapped out; the code does not keep it. -/
structure SwapCb where
  dadr : Nat
  owner : Nat
  swapdadr : Nat
  page : Page

inductive SwapPhase where
  | inserted
  | searching (cell : Nat)
  | taken (block : Nat)
  | saved (block : Nat)

structure Swapping where
  scbn : Nat
  page : Page
  phase : SwapPhase

/-- The control block has left the hash list; the frame is filled by the read. -/
structure Unswapping where
  scb : SwapCb
  frame : Option (List UInt8)

/-- The journal blocks are those of the commit that is in progress, with what they have
to contain. -/
structure SwapState where
  transactor : Transactor
  scbs : Nat → Option SwapCb
  swapping : Nat → Option Swapping
  unswapping : Nat → Option Unswapping
  journal : List (Nat × Page)

def SwapState.start (tFile : File) : SwapState :=
  ⟨Transactor.construct tFile, fun _ => none, fun _ => none, fun _ => none, []⟩

inductive SwapOp where
  | insert (client scbn dadr owner : Nat) (page : Page)
  | readStart (client : Nat)
  | search (client : Nat) (memory : Bool)
  | save (client : Nat) (failed invalFailed : Option (List UInt8))
  | register (client : Nat)
  | detach (client scbn : Nat)
  | lose (client : Nat)
  | load (client : Nat) (fails : Bool) (other : Page)
  | release (client : Nat)
  | drop (scbn : Nat)
  | saveTjc (data : Page) (memory : Bool) (failed : Option (List UInt8))
  | endCommit (failed : Option (List UInt8))

namespace SwapState

def setSwapping (state : SwapState) (client : Nat) (swapping : Option Swapping) : SwapState :=
  { state with swapping := Function.update state.swapping client swapping }

def setUnswapping (state : SwapState) (client : Nat) (unswapping : Option Unswapping) :
    SwapState :=
  { state with unswapping := Function.update state.unswapping client unswapping }

def setScb (state : SwapState) (scbn : Nat) (scb : Option SwapCb) : SwapState :=
  { state with scbs := Function.update state.scbs scbn scb }

def setTransactor (state : SwapState) (transactor : Transactor) : SwapState :=
  { state with transactor }

/-- The first part of `swap_block`. -/
def insert (state : SwapState) (client scbn dadr owner : Nat) (page : Page) : SwapState :=
  if (state.swapping client).isNone ∧ (state.scbs scbn).isNone then
    (state.setScb scbn (some ⟨dadr, owner, 0, page⟩)).setSwapping client
      (some ⟨scbn, page, .inserted⟩)
  else state

def searchFor (state : SwapState) (client : Nat) (swapping : Swapping) (cell : Nat)
    (memory : Bool) : SwapState :=
  let (block, transactor) := state.transactor.getSwapBlock cell memory
  (state.setTransactor transactor).setSwapping client
    (some { swapping with phase := if block = 0 then .saved 0 else .taken block })

def saveTo (state : SwapState) (client : Nat) (swapping : Swapping) (block : Nat)
    (failed invalFailed : Option (List UInt8)) : SwapState :=
  let (saved, transactor) :=
    state.transactor.saveBlock block swapping.page.val failed invalFailed
  (state.setTransactor transactor).setSwapping client
    (some { swapping with phase := .saved saved })

/-- The last part of `swap_block`. -/
def register (state : SwapState) (client : Nat) (swapping : Swapping) (block : Nat) :
    SwapState :=
  (state.setScb swapping.scbn
    (if block = 0 then none
    else (state.scbs swapping.scbn).map fun scb =>
      { scb with swapdadr := block, page := swapping.page })).setSwapping client none

/-- A swap in progress has the lock of its page. -/
def completed (state : SwapState) (scbn : Nat) : Option SwapCb :=
  (state.scbs scbn).filter fun scb => scb.swapdadr != 0

/-- The number of the control block is not used again before the release; here it may be. -/
def detach (state : SwapState) (client scbn : Nat) : SwapState :=
  match state.completed scbn, state.unswapping client with
  | some scb, none => (state.setScb scbn none).setUnswapping client (some ⟨scb, none⟩)
  | _, _ => state

/-- The result of the read is not checked. -/
def load (state : SwapState) (client : Nat) (scb : SwapCb) (fails : Bool) (other : Page) :
    SwapState :=
  state.setUnswapping client
    (some ⟨scb, some (if fails then other.val
      else (readFileAt state.transactor.tFile scb.swapdadr).getD other.val)⟩)

def release (state : SwapState) (client : Nat) (scb : SwapCb) : SwapState :=
  (state.setTransactor (state.transactor.freeSwapBlock scb.swapdadr)).setUnswapping client none

def drop (state : SwapState) (scbn : Nat) : SwapState :=
  match state.completed scbn with
  | some scb =>
      (state.setTransactor (state.transactor.freeSwapBlock scb.swapdadr)).setScb scbn none
  | none => state

/-- A commit that cannot save a journal block ends and does not free the others. -/
def saveTjc (state : SwapState) (data : Page) (memory : Bool)
    (failed : Option (List UInt8)) : SwapState :=
  match state.transactor.saveTjcBlock data.val memory failed with
  | (some block, transactor) =>
      { state with transactor, journal := state.journal ++ [(block, data)] }
  | (none, transactor) => { state with transactor, journal := [] }

def endCommit (state : SwapState) (failed : Option (List UInt8)) : SwapState :=
  match state.journal.getLast? with
  | none => state
  | some (leader, _) =>
      { state with
        transactor := (state.transactor.invalidateTjcBlock leader failed).freeTjcBlocks
          (state.journal.map Prod.fst)
        journal := [] }

end SwapState

def swapStep (state : SwapState) : SwapOp → SwapState
  | .insert client scbn dadr owner page => state.insert client scbn dadr owner page
  | .readStart client =>
      match state.swapping client with
      | some ⟨scbn, page, .inserted⟩ =>
          state.setSwapping client
            (some ⟨scbn, page, .searching (state.transactor.srchStart / 32)⟩)
      | _ => state
  | .search client memory =>
      match state.swapping client with
      | some ⟨scbn, page, .searching cell⟩ =>
          state.searchFor client ⟨scbn, page, .searching cell⟩ cell memory
      | _ => state
  | .save client failed invalFailed =>
      match state.swapping client with
      | some ⟨scbn, page, .taken block⟩ =>
          state.saveTo client ⟨scbn, page, .taken block⟩ block failed invalFailed
      | _ => state
  | .register client =>
      match state.swapping client with
      | some ⟨scbn, page, .saved block⟩ =>
          state.register client ⟨scbn, page, .saved block⟩ block
      | _ => state
  | .detach client scbn => state.detach client scbn
  | .lose client =>
      match state.unswapping client with
      | some ⟨_, none⟩ => state.setUnswapping client none
      | _ => state
  | .load client fails other =>
      match state.unswapping client with
      | some ⟨scb, none⟩ => state.load client scb fails other
      | _ => state
  | .release client =>
      match state.unswapping client with
      | some ⟨scb, some _⟩ => state.release client scb
      | _ => state
  | .drop scbn => state.drop scbn
  | .saveTjc data memory failed => state.saveTjc data memory failed
  | .endCommit failed => state.endCommit failed

end Sql602.Swap

namespace Sql602.Swap

open Files Holding Run

/-! Who holds the blocks of the transaction file. A holder has the number of a block and,
once it has been written, the page that the block has to contain. -/

inductive Holder where
  | scb (scbn : Nat)
  | swapping (client : Nat)
  | unswapping (client : Nat)
  deriving DecidableEq

abbrev Held := Nat × Option Page

def SwapCb.held (scb : SwapCb) : Option Held :=
  if scb.swapdadr = 0 then none else some (scb.swapdadr, some scb.page)

def Swapping.held (swapping : Swapping) : Option Held :=
  match swapping.phase with
  | .inserted => none
  | .searching _ => none
  | .taken block => some (block, none)
  | .saved block => if block = 0 then none else some (block, some swapping.page)

def Unswapping.held (unswapping : Unswapping) : Option Held :=
  some (unswapping.scb.swapdadr, some unswapping.scb.page)

def SwapState.held (state : SwapState) : Holder → Option Held
  | .scb scbn => (state.scbs scbn).bind SwapCb.held
  | .swapping client => (state.swapping client).bind Swapping.held
  | .unswapping client => (state.unswapping client).bind Unswapping.held

section Update

variable {state : SwapState}

theorem held_setSwapping (client : Nat) (swapping : Option Swapping) :
    (state.setSwapping client swapping).held =
      Function.update state.held (.swapping client) (swapping.bind Swapping.held) := by
  funext holder
  cases holder with
  | scb scbn => rw [Function.update_of_ne (by simp)]; rfl
  | unswapping other => rw [Function.update_of_ne (by simp)]; rfl
  | swapping other =>
      simp only [SwapState.held, SwapState.setSwapping, Function.update_apply,
        Holder.swapping.injEq]
      split <;> rfl

theorem held_setUnswapping (client : Nat) (unswapping : Option Unswapping) :
    (state.setUnswapping client unswapping).held =
      Function.update state.held (.unswapping client) (unswapping.bind Unswapping.held) := by
  funext holder
  cases holder with
  | scb scbn => rw [Function.update_of_ne (by simp)]; rfl
  | swapping other => rw [Function.update_of_ne (by simp)]; rfl
  | unswapping other =>
      simp only [SwapState.held, SwapState.setUnswapping, Function.update_apply,
        Holder.unswapping.injEq]
      split <;> rfl

theorem held_setScb (scbn : Nat) (scb : Option SwapCb) :
    (state.setScb scbn scb).held =
      Function.update state.held (.scb scbn) (scb.bind SwapCb.held) := by
  funext holder
  cases holder with
  | swapping other => rw [Function.update_of_ne (by simp)]; rfl
  | unswapping other => rw [Function.update_of_ne (by simp)]; rfl
  | scb other =>
      simp only [SwapState.held, SwapState.setScb, Function.update_apply, Holder.scb.injEq]
      split <;> rfl

theorem held_setTransactor (transactor : Transactor) :
    (state.setTransactor transactor).held = state.held := by
  funext holder
  cases holder <;> rfl

end Update

/-- A journal block is initialized and contains its data; the journal blocks before it
are used. -/
structure JournalBlock (transactor : Transactor) (block : Nat) (data : Page) : Prop where
  base : block % 32 = 0
  limit : block < transactor.tjcInitLimit
  read : readFileAt transactor.tFile block = some data.val
  used : ∀ i, 32 * i ≤ block → transactor.used (32 * i) = true

/-- The blocks are used by their holders, one by each, and contain their pages; the
search start is not behind a free block. -/
structure Blocks (transactor : Transactor) (held : Holder → Option Held)
    (journal : List (Nat × Page)) : Prop where
  map : transactor.MapOk
  once : Once Prod.fst held
  used : ∀ holder x, held holder = some x →
    Transactor.IsSwapBlock x.1 ∧ transactor.used x.1 = true
  kept : ∀ holder x, held holder = some x →
    ∀ page ∈ x.2, readFileAt transactor.tFile x.1 = some page.val
  journal : ∀ block data, (block, data) ∈ journal → JournalBlock transactor block data
  found : ∀ block, transactor.Free block → transactor.srchStart ≤ block

namespace Blocks

variable {transactor : Transactor} {held : Holder → Option Held} {journal : List (Nat × Page)}
  {holder : Holder} {block cell : Nat} {page : Page}

theorem start (tFile : File) : Blocks (Transactor.construct tFile) (fun _ => none) [] where
  map := Transactor.construct_mapOk tFile
  once := fun _ _ _ _ hnone => by cases hnone
  used := fun _ _ hnone => by cases hnone
  kept := fun _ _ hnone => by cases hnone
  journal := fun _ _ hmem => by cases hmem
  found := fun block _ => Nat.zero_le block

theorem clear (hblocks : Blocks transactor held journal) (holder : Holder) :
    Blocks transactor (Function.update held holder none) journal where
  map := hblocks.map
  once := hblocks.once.clear holder
  used := forall_clear hblocks.used holder
  kept := forall_clear hblocks.kept holder
  journal := hblocks.journal
  found := hblocks.found

theorem move {other : Holder} (hblocks : Blocks transactor held journal)
    (hheld : held holder = some (block, some page)) :
    Blocks transactor
      (Function.update (Function.update held holder none) other (some (block, some page)))
      journal where
  map := hblocks.map
  once := hblocks.once.move hheld rfl
  used := forall_put (forall_clear hblocks.used holder) (hblocks.used holder _ hheld) other
  kept := forall_put (forall_clear hblocks.kept holder) (hblocks.kept holder _ hheld) other
  journal := hblocks.journal
  found := hblocks.found

theorem take (hblocks : Blocks transactor held journal) (hfound : transactor.Found cell block)
    (hbehind : ∀ other, transactor.Free other → 32 * cell ≤ other) (holder : Holder) :
    Blocks { transactor.setBit block with srchStart := block + 1 }
      (Function.update held holder (some (block, none))) journal := by
  have hused : ∀ other, Transactor.used { transactor.setBit block with srchStart := block + 1 }
      other = (transactor.used other || decide (block = other)) :=
    transactor.used_setBit block
  constructor
  case map => exact ⟨(hblocks.map.setBit block).bound, (hblocks.map.setBit block).fresh⟩
  case once =>
    apply hblocks.once.put
    intro other x _ hother hsame
    have huse := (hblocks.used other x hother).2
    have hblock : x.1 = block := hsame
    rw [hblock, hfound.free.2] at huse
    cases huse
  case used =>
    refine forall_put ?_ ?_ holder
    · intro other x hother
      refine ⟨(hblocks.used other x hother).1, ?_⟩
      rw [hused, (hblocks.used other x hother).2, Bool.true_or]
    · refine ⟨hfound.free.1, ?_⟩
      rw [hused, decide_eq_true rfl, Bool.or_true]
  case kept => exact forall_put hblocks.kept (fun page hpage => by cases hpage) holder
  case journal =>
    intro other data hmem
    have hjournal := hblocks.journal other data hmem
    refine ⟨hjournal.base, hjournal.limit, hjournal.read, ?_⟩
    intro i hi
    rw [hused, hjournal.used i hi, Bool.true_or]
  case found =>
    intro other hother
    obtain ⟨hswap, hfree⟩ := hother
    rw [hused, Bool.or_eq_false_iff, decide_eq_false_iff_not] at hfree
    have hlowest := hfound.lowest other ⟨hswap, hfree.1⟩ (hbehind other ⟨hswap, hfree.1⟩)
    exact Nat.lt_of_le_of_ne hlowest hfree.2

theorem free {content : Option Page} (hblocks : Blocks transactor held journal)
    (hheld : held holder = some (block, content)) :
    Blocks (transactor.freeSwapBlock block) (Function.update held holder none) journal := by
  have hused : ∀ other, (transactor.freeSwapBlock block).used other =
      (transactor.used other && !decide (block = other)) :=
    transactor.used_clearBit block
  have hswap := (hblocks.used holder _ hheld).1
  constructor
  case map => exact ⟨(hblocks.map.clearBit block).bound, (hblocks.map.clearBit block).fresh⟩
  case once => exact hblocks.once.clear holder
  case used =>
    intro other x hother
    obtain ⟨hne, hother⟩ := holder_of_clear hother
    refine ⟨(hblocks.used other x hother).1, ?_⟩
    have hblock : block ≠ x.1 := fun h => hne (hblocks.once hother hheld h.symm)
    rw [hused, (hblocks.used other x hother).2, decide_eq_false hblock]
    rfl
  case kept => exact forall_clear hblocks.kept holder
  case journal =>
    intro other data hmem
    have hjournal := hblocks.journal other data hmem
    refine ⟨hjournal.base, hjournal.limit, hjournal.read, ?_⟩
    intro i hi
    have hblock : block ≠ 32 * i := by
      simp only [Transactor.IsSwapBlock] at hswap
      omega
    rw [hused, hjournal.used i hi, decide_eq_false hblock]
    rfl
  case found =>
    intro other hother
    obtain ⟨hother, hfree⟩ := hother
    rw [hused, Bool.and_eq_false_iff, Bool.not_eq_false', decide_eq_true_eq] at hfree
    simp only [Transactor.freeSwapBlock]
    cases hfree with
    | inl hfree =>
        have hle := hblocks.found other ⟨hother, hfree⟩
        split
        · omega
        · exact hle
    | inr hblock =>
        rw [← hblock]
        split
        · exact Nat.le_refl _
        · omega

/-- Writes apart from the pages and the journal blocks. -/
theorem rewrite {written : Nat → Prop} {next : File} {limit : Nat}
    (hblocks : Blocks transactor held journal)
    (hkept : Transactor.KeptBut written transactor.tFile next)
    (hheld : ∀ holder block page, held holder = some (block, some page) → ¬ written block)
    (hjournal : ∀ block data, (block, data) ∈ journal → ¬ written block)
    (hlimit : transactor.tjcInitLimit ≤ limit) :
    Blocks { transactor with tFile := next, tjcInitLimit := limit } held journal where
  map := ⟨hblocks.map.bound, hblocks.map.fresh⟩
  once := hblocks.once
  used := hblocks.used
  kept := by
    intro holder x hx page hpage
    have hwhole : x = (x.1, some page) := by rw [← hpage]
    rw [hwhole] at hx
    exact hkept _ _ (hheld holder x.1 page hx) (hblocks.kept holder _ hx page rfl)
  journal := by
    intro block data hmem
    have hblock := hblocks.journal block data hmem
    exact ⟨hblock.base, Nat.lt_of_lt_of_le hblock.limit hlimit,
      hkept _ _ (hjournal block data hmem) hblock.read, hblock.used⟩
  found := hblocks.found

theorem store (hblocks : Blocks transactor held journal)
    (hheld : held holder = some (block, none))
    (hread : readFileAt transactor.tFile block = some page.val) :
    Blocks transactor (Function.update held holder (some (block, some page))) journal where
  map := hblocks.map
  once := by
    apply hblocks.once.put
    intro other x hne hother hsame
    exact hne (hblocks.once hother hheld hsame)
  used := by
    have hused := hblocks.used holder _ hheld
    refine forall_put hblocks.used ?_ holder
    exact hused
  kept := by
    refine forall_put hblocks.kept ?_ holder
    intro other hother
    rw [← Option.some.inj hother]
    exact hread
  journal := hblocks.journal
  found := hblocks.found

/-- The saving of a page writes over no other page and over no journal block. -/
theorem save (hblocks : Blocks transactor held journal)
    (hheld : held holder = some (block, none)) (failed invalFailed : Option (List UInt8)) :
    Blocks (transactor.saveBlock block page.val failed invalFailed).2
      (Function.update held holder
        (if (transactor.saveBlock block page.val failed invalFailed).1 = 0 then none
        else some ((transactor.saveBlock block page.val failed invalFailed).1, some page)))
      journal := by
  have hswap := (hblocks.used holder _ hheld).1
  have hpositive : block ≠ 0 := by
    rintro rfl
    exact hswap rfl
  obtain ⟨next, limit, hlimit, hkept, hsaved⟩ :=
    Transactor.saveBlock_cases hswap page.property transactor failed invalFailed
  have hrewritten : Blocks { transactor with tFile := next, tjcInitLimit := limit } held
      journal := by
    refine hblocks.rewrite hkept ?_ ?_ hlimit
    · intro other found content hother hwritten
      cases hwritten with
      | inl hblock =>
          obtain rfl := hblocks.once hother hheld hblock
          rw [hheld] at hother
          cases hother
      | inr hbase => exact (hblocks.used other _ hother).1 hbase.1
    · intro other data hmem hwritten
      have hjournal := hblocks.journal other data hmem
      cases hwritten with
      | inl hblock =>
          rw [hblock] at hjournal
          exact hswap hjournal.base
      | inr hbase => exact absurd hjournal.limit (Nat.lt_asymm hbase.2)
  cases hsaved with
  | inl hsaved =>
      rw [hsaved.1]
      dsimp only
      rw [if_neg hpositive]
      exact hrewritten.store hheld hsaved.2
  | inr hfailed =>
      rw [hfailed]
      exact hrewritten.free hheld

theorem saveTjc (hblocks : Blocks transactor held journal) (data : Page) (memory : Bool)
    (failed : Option (List UInt8)) :
    (transactor.saveTjcBlock data.val memory failed).1.elim
      (Blocks (transactor.saveTjcBlock data.val memory failed).2 held [])
      fun block => Blocks (transactor.saveTjcBlock data.val memory failed).2 held
        (journal ++ [(block, data)]) := by
  obtain hnone | ⟨cell, next, hfree, hlower, hkept, hsaved⟩ :=
    Transactor.saveTjcBlock_cases hblocks.map data.property memory failed
  · rw [hnone]
    exact ⟨hblocks.map, hblocks.once, hblocks.used, hblocks.kept, (by simp), hblocks.found⟩
  · have hpages : ∀ holder x, held holder = some x →
        ∀ page ∈ x.2, readFileAt next x.1 = some page.val := by
      intro holder x hx page hpage
      apply hkept _ _ _ (hblocks.kept holder x hx page hpage)
      intro hblock
      apply (hblocks.used holder x hx).1
      rw [hblock]
      exact Nat.mul_mod_right 32 cell
    have hset := transactor.used_setBit (32 * cell)
    cases hsaved with
    | inl hsaved =>
        rw [hsaved.1]
        constructor
        case map =>
          exact ⟨(hblocks.map.setBit (32 * cell)).bound, (hblocks.map.setBit (32 * cell)).fresh⟩
        case once => exact hblocks.once
        case used =>
          intro holder x hx
          refine ⟨(hblocks.used holder x hx).1, (hset x.1).trans ?_⟩
          rw [(hblocks.used holder x hx).2, Bool.true_or]
        case kept => exact hpages
        case journal =>
          intro block other hmem
          obtain hmem | hmem := List.mem_append.mp hmem
          · have hjournal := hblocks.journal block other hmem
            -- the new block is behind the other blocks of the commit
            have hbehind : block < 32 * cell := by
              by_contra hle
              have hused := hjournal.used cell (Nat.le_of_not_lt hle)
              rw [hfree] at hused
              cases hused
            refine ⟨hjournal.base, Nat.lt_succ_of_lt hbehind,
              hkept _ _ (Nat.ne_of_lt hbehind) hjournal.read, ?_⟩
            intro i hi
            refine (hset (32 * i)).trans ?_
            rw [hjournal.used i hi, Bool.true_or]
          · obtain ⟨rfl, rfl⟩ := Prod.mk.inj (List.mem_singleton.mp hmem)
            refine ⟨Nat.mul_mod_right 32 cell, Nat.lt_succ_self _, hsaved.2, ?_⟩
            intro i hi
            refine (hset (32 * i)).trans ?_
            rcases Nat.lt_or_ge i cell with hlt | hge
            · rw [hlower i hlt, Bool.true_or]
            · obtain rfl : i = cell := by omega
              rw [decide_eq_true rfl, Bool.or_true]
        case found =>
          intro block hblock
          obtain ⟨hswap, hunused⟩ := hblock
          have hunused := (hset block).symm.trans hunused
          rw [Bool.or_eq_false_iff] at hunused
          exact hblocks.found block ⟨hswap, hunused.1⟩
    | inr hfailed =>
        rw [hfailed]
        have hused : ∀ block, Transactor.IsSwapBlock block →
            ((transactor.setBit (32 * cell)).clearBit (32 * cell)).used block =
              transactor.used block := by
          intro block hswap
          have hne : 32 * cell ≠ block := by
            simp only [Transactor.IsSwapBlock] at hswap
            omega
          rw [Transactor.used_clearBit, hset, decide_eq_false hne, Bool.or_false, Bool.not_false,
            Bool.and_true]
        have hmap := (hblocks.map.setBit (32 * cell)).clearBit (32 * cell)
        constructor
        case map => exact ⟨hmap.bound, hmap.fresh⟩
        case once => exact hblocks.once
        case used =>
          intro holder x hx
          obtain ⟨hswap, huse⟩ := hblocks.used holder x hx
          exact ⟨hswap, (hused x.1 hswap).trans huse⟩
        case kept => exact hpages
        case journal => simp
        case found =>
          intro block hblock
          exact hblocks.found block
            ⟨hblock.1, (hused block hblock.1).symm.trans hblock.2⟩

theorem clearTjc (hblocks : Blocks transactor held []) (hbase : block % 32 = 0) :
    Blocks (transactor.clearBit block) held [] := by
  have hused : ∀ other, Transactor.IsSwapBlock other →
      (transactor.clearBit block).used other = transactor.used other := by
    intro other hswap
    have hne : block ≠ other := by
      rintro rfl
      exact hswap hbase
    rw [Transactor.used_clearBit, decide_eq_false hne, Bool.not_false, Bool.and_true]
  constructor
  case map => exact hblocks.map.clearBit block
  case once => exact hblocks.once
  case used =>
    intro holder x hx
    obtain ⟨hswap, huse⟩ := hblocks.used holder x hx
    exact ⟨hswap, (hused x.1 hswap).trans huse⟩
  case kept => exact hblocks.kept
  case journal => simp
  case found =>
    intro other hother
    exact hblocks.found other ⟨hother.1, (hused other hother.1).symm.trans hother.2⟩

theorem endCommit (hblocks : Blocks transactor held journal) (hbase : block % 32 = 0)
    (failed : Option (List UInt8)) (blocks : List Nat) :
    Blocks ((transactor.invalidateTjcBlock block failed).freeTjcBlocks blocks) held [] := by
  have hinvalid : Blocks (transactor.invalidateTjcBlock block failed) held [] := by
    have hforgotten : Blocks transactor held [] :=
      ⟨hblocks.map, hblocks.once, hblocks.used, hblocks.kept, (by simp), hblocks.found⟩
    refine hforgotten.rewrite (Transactor.keptBut_writeFileAt (by decide)) ?_ (by simp)
      (Nat.le_refl _)
    intro holder other page hheld hwritten
    have hswap := (hblocks.used holder _ hheld).1
    have hother : other = block := hwritten
    exact hswap (by rw [hother]; exact hbase)
  induction blocks with
  | nil => exact hinvalid
  | cons first rest ih => exact ih.clearTjc (Nat.mul_mod_left _ 32)

end Blocks

/-- Every search that gets a block starts below all the free ones, and no read that fails
leaves the frame with something else than the page. -/
def Timely (state : SwapState) : SwapOp → Prop
  | .search client memory =>
      ∀ scbn page cell, state.swapping client = some ⟨scbn, page, .searching cell⟩ →
        state.transactor.HasBlock cell memory →
          ∀ block, state.transactor.Free block → 32 * cell ≤ block
  | .load client fails other =>
      ∀ scb, state.unswapping client = some ⟨scb, none⟩ → fails = true → other = scb.page
  | _ => True

/-- A state of the swap space is right: a block has one holder; the pages and the journal
blocks of the commit are in their blocks; what has been read back is the page; and a
search that starts now gives the lowest free block. -/
structure SpaceRight (state : SwapState) : Prop where
  once : Once Prod.fst state.held
  kept : ∀ holder x, state.held holder = some x →
    ∀ page ∈ x.2, readFileAt state.transactor.tFile x.1 = some page.val
  journal : ∀ block data, (block, data) ∈ state.journal →
    readFileAt state.transactor.tFile block = some data.val
  back : ∀ client scb frame, state.unswapping client = some ⟨scb, some frame⟩ →
    frame = scb.page.val
  found : ∀ block, state.transactor.Free block → state.transactor.srchStart ≤ block ∧
    (state.transactor.getSwapBlock (state.transactor.srchStart / 32) true).1 ≤ block

structure SwapInv (state : SwapState) : Prop where
  blocks : Blocks state.transactor state.held state.journal
  back : ∀ client unswapping, state.unswapping client = some unswapping →
    ∀ frame ∈ unswapping.frame, frame = unswapping.scb.page.val
  pending : ∀ client swapping, state.swapping client = some swapping →
    ∃ scb, state.scbs swapping.scbn = some scb ∧ scb.swapdadr = 0
  apart : Once Swapping.scbn state.swapping

namespace SwapInv

variable {state : SwapState} {client scbn : Nat}

theorem start (tFile : File) : SwapInv (SwapState.start tFile) where
  blocks := by
    have hheld : (SwapState.start tFile).held = fun _ => none := by
      funext holder
      cases holder <;> rfl
    rw [hheld]
    exact Blocks.start tFile
  back := fun _ _ hnone => by cases hnone
  pending := fun _ _ hnone => by cases hnone
  apart := fun _ _ _ _ hnone => by cases hnone

theorem right (hinv : SwapInv state) : SpaceRight state where
  once := hinv.blocks.once
  kept := hinv.blocks.kept
  journal := fun block data hmem => (hinv.blocks.journal block data hmem).read
  back := fun client scb frame hclient => hinv.back client _ hclient frame rfl
  found := by
    intro block hfree
    have hle := hinv.blocks.found block hfree
    refine ⟨hle, ?_⟩
    obtain ⟨-, hnone⟩ | ⟨found, hfound, -, hget⟩ := Transactor.getSwapBlock_cases
      hinv.blocks.map (state.transactor.srchStart / 32) true
    · exact absurd (Or.inl rfl) hnone
    · rw [hget]
      exact hfound.lowest block hfree (by omega)

/-- A swap proceeds: its control block stays, and its block may change. -/
theorem proceed {swapping : Swapping} {phase : SwapPhase} {transactor : Transactor}
    (hinv : SwapInv state) (hclient : state.swapping client = some swapping)
    (hblocks : Blocks transactor
      (Function.update state.held (.swapping client)
        (Swapping.held { swapping with phase := phase })) state.journal) :
    SwapInv ((state.setTransactor transactor).setSwapping client
      (some { swapping with phase := phase })) where
  blocks := by
    rw [held_setSwapping, held_setTransactor]
    exact hblocks
  back := hinv.back
  pending := by
    refine forall_put hinv.pending ?_ client
    exact hinv.pending client swapping hclient
  apart := by
    apply hinv.apart.put
    intro other proceeding hne hother hsame
    exact hne (hinv.apart hother hclient hsame)

theorem held_swapping {swapping : Swapping} (hclient : state.swapping client = some swapping) :
    state.held (.swapping client) = swapping.held := by
  rw [SwapState.held, hclient, Option.bind_some]

theorem insert (hinv : SwapInv state) (dadr owner : Nat) (page : Page) :
    SwapInv (state.insert client scbn dadr owner page) := by
  simp only [SwapState.insert]
  split
  case isFalse => exact hinv
  case isTrue hnew =>
    obtain ⟨hidle, hunused⟩ := hnew
    rw [Option.isNone_iff_eq_none] at hidle hunused
    have hapart : ∀ other swapping, state.swapping other = some swapping →
        swapping.scbn ≠ scbn := by
      intro other swapping hother hsame
      obtain ⟨scb, hscb, -⟩ := hinv.pending other swapping hother
      rw [hsame, hunused] at hscb
      cases hscb
    constructor
    case blocks =>
      rw [held_setSwapping, held_setScb]
      exact (hinv.blocks.clear (.scb scbn)).clear (.swapping client)
    case back => exact hinv.back
    case pending =>
      intro other swapping hother
      obtain ⟨rfl, hnew⟩ | ⟨-, hother⟩ := holder_of_update hother
      · rw [← Option.some.inj hnew]
        exact ⟨⟨dadr, owner, 0, page⟩, Function.update_self .., rfl⟩
      · obtain ⟨scb, hscb, hzero⟩ := hinv.pending other swapping hother
        refine ⟨scb, ?_, hzero⟩
        rw [← hscb]
        exact Function.update_of_ne (hapart other swapping hother) ..
    case apart =>
      apply hinv.apart.put
      intro other swapping _ hother
      exact hapart other swapping hother

/-- A control block that is not in a swap may change. -/
theorem pending_setScb (hinv : SwapInv state) (scb : Option SwapCb)
    (hapart : ∀ other swapping, other ≠ client → state.swapping other = some swapping →
      swapping.scbn ≠ scbn) :
    ∀ other swapping, other ≠ client → state.swapping other = some swapping →
      ∃ pending, (state.setScb scbn scb).scbs swapping.scbn = some pending ∧
        pending.swapdadr = 0 := by
  intro other swapping hne hother
  obtain ⟨pending, hpending, hzero⟩ := hinv.pending other swapping hother
  refine ⟨pending, ?_, hzero⟩
  rw [← hpending]
  exact Function.update_of_ne (hapart other swapping hne hother) ..

theorem register {swapping : Swapping} {block : Nat} (hinv : SwapInv state)
    (hclient : state.swapping client = some swapping)
    (hphase : swapping.phase = .saved block) : SwapInv (state.register client swapping block) := by
  have hheld := held_swapping hclient
  simp only [Swapping.held, hphase] at hheld
  obtain ⟨scb, hscb, -⟩ := hinv.pending client swapping hclient
  constructor
  case blocks =>
    simp only [SwapState.register]
    rw [held_setSwapping, held_setScb]
    split
    case isTrue => exact (hinv.blocks.clear (.scb swapping.scbn)).clear (.swapping client)
    case isFalse hblock =>
      rw [if_neg hblock] at hheld
      rw [Function.update_comm (by simp), hscb]
      simp only [Option.map_some, Option.bind_some, Option.bind_none, SwapCb.held, if_neg hblock]
      exact hinv.blocks.move hheld
  case back => exact hinv.back
  case pending =>
    intro other proceeding hother
    obtain ⟨hne, hother⟩ := holder_of_clear hother
    refine pending_setScb hinv _ ?_ other proceeding hne hother
    intro third waiting hthird hwaiting hsame
    exact hthird (hinv.apart hwaiting hclient hsame)
  case apart => exact hinv.apart.clear client

theorem completed_spec {scb : SwapCb} (hcompleted : state.completed scbn = some scb) :
    state.scbs scbn = some scb ∧ scb.swapdadr ≠ 0 := by
  rw [SwapState.completed, Option.filter_eq_some_iff] at hcompleted
  exact ⟨hcompleted.1, bne_iff_ne.mp hcompleted.2⟩

theorem held_completed {scb : SwapCb} (hcompleted : state.completed scbn = some scb) :
    state.held (.scb scbn) = some (scb.swapdadr, some scb.page) := by
  obtain ⟨hscb, hblock⟩ := completed_spec hcompleted
  rw [SwapState.held, hscb, Option.bind_some, SwapCb.held, if_neg hblock]

theorem pending_completed {scb : SwapCb} (hinv : SwapInv state)
    (hcompleted : state.completed scbn = some scb) :
    ∀ other swapping, state.swapping other = some swapping →
      ∃ pending, (state.setScb scbn none).scbs swapping.scbn = some pending ∧
        pending.swapdadr = 0 := by
  obtain ⟨hscb, hblock⟩ := completed_spec hcompleted
  intro other swapping hother
  obtain ⟨pending, hpending, hzero⟩ := hinv.pending other swapping hother
  refine ⟨pending, ?_, hzero⟩
  rw [← hpending]
  apply Function.update_of_ne
  intro hsame
  rw [hsame, hscb] at hpending
  exact hblock (by rw [Option.some.inj hpending]; exact hzero)

theorem detach (hinv : SwapInv state) : SwapInv (state.detach client scbn) := by
  simp only [SwapState.detach]
  split
  case h_2 => exact hinv
  case h_1 scb hcompleted _ =>
    constructor
    case blocks =>
      rw [held_setUnswapping, held_setScb]
      exact hinv.blocks.move (held_completed hcompleted)
    case back => exact forall_put hinv.back (fun frame hframe => by cases hframe) client
    case pending => exact pending_completed hinv hcompleted
    case apart => exact hinv.apart

theorem drop (hinv : SwapInv state) : SwapInv (state.drop scbn) := by
  simp only [SwapState.drop]
  split
  case h_2 => exact hinv
  case h_1 scb hcompleted =>
    constructor
    case blocks =>
      rw [held_setScb, held_setTransactor]
      exact hinv.blocks.free (held_completed hcompleted)
    case back => exact hinv.back
    case pending => exact pending_completed hinv hcompleted
    case apart => exact hinv.apart

theorem held_unswapping {unswapping : Unswapping}
    (hclient : state.unswapping client = some unswapping) :
    state.held (.unswapping client) =
      some (unswapping.scb.swapdadr, some unswapping.scb.page) := by
  rw [SwapState.held, hclient, Option.bind_some]
  rfl

theorem lose (hinv : SwapInv state) : SwapInv (state.setUnswapping client none) where
  blocks := by
    rw [held_setUnswapping]
    exact hinv.blocks.clear (.unswapping client)
  back := forall_clear hinv.back client
  pending := hinv.pending
  apart := hinv.apart

theorem load {scb : SwapCb} {fails : Bool} {other : Page} (hinv : SwapInv state)
    (hclient : state.unswapping client = some ⟨scb, none⟩)
    (hread : fails = true → other = scb.page) : SwapInv (state.load client scb fails other) := by
  have hheld := held_unswapping hclient
  constructor
  case blocks =>
    rw [SwapState.load, held_setUnswapping]
    have hsame : Function.update state.held (.unswapping client)
        (some (scb.swapdadr, some scb.page)) = state.held := by
      rw [← hheld]
      exact Function.update_eq_self _ _
    have hblocks := hinv.blocks
    rw [← hsame] at hblocks
    exact hblocks
  case back =>
    refine forall_put hinv.back ?_ client
    intro frame hframe
    rw [← Option.some.inj hframe]
    split
    case isTrue hfails => rw [hread hfails]
    case isFalse =>
      rw [hinv.blocks.kept _ _ hheld scb.page rfl]
      rfl
  case pending => exact hinv.pending
  case apart => exact hinv.apart

theorem release {scb : SwapCb} {frame : Option (List UInt8)} (hinv : SwapInv state)
    (hclient : state.unswapping client = some ⟨scb, frame⟩) :
    SwapInv (state.release client scb) where
  blocks := by
    rw [SwapState.release, held_setUnswapping, held_setTransactor]
    exact hinv.blocks.free (held_unswapping hclient)
  back := forall_clear hinv.back client
  pending := hinv.pending
  apart := hinv.apart

theorem search {swapping : Swapping} {cell : Nat} {memory : Bool} (hinv : SwapInv state)
    (hclient : state.swapping client = some swapping)
    (htimely : state.transactor.HasBlock cell memory →
      ∀ block, state.transactor.Free block → 32 * cell ≤ block) :
    SwapInv (state.searchFor client swapping cell memory) := by
  simp only [SwapState.searchFor]
  obtain ⟨hget, -⟩ | ⟨block, hfound, hhas, hget⟩ :=
    Transactor.getSwapBlock_cases hinv.blocks.map cell memory
  · rw [hget]
    apply hinv.proceed hclient
    exact hinv.blocks.clear (.swapping client)
  · rw [hget]
    apply hinv.proceed hclient
    have hpositive : block ≠ 0 := by
      rintro rfl
      exact hfound.free.1 rfl
    dsimp only
    rw [if_neg hpositive]
    exact hinv.blocks.take hfound (htimely hhas) (.swapping client)

theorem save {swapping : Swapping} {block : Nat} (hinv : SwapInv state)
    (hclient : state.swapping client = some swapping) (hphase : swapping.phase = .taken block)
    (failed invalFailed : Option (List UInt8)) :
    SwapInv (state.saveTo client swapping block failed invalFailed) := by
  have hheld := held_swapping hclient
  simp only [Swapping.held, hphase] at hheld
  simp only [SwapState.saveTo]
  apply hinv.proceed hclient
  exact hinv.blocks.save hheld failed invalFailed

theorem readStart {swapping : Swapping} (hinv : SwapInv state)
    (hclient : state.swapping client = some swapping) (cell : Nat) :
    SwapInv (state.setSwapping client (some { swapping with phase := .searching cell })) :=
  hinv.proceed hclient (hinv.blocks.clear (.swapping client))

theorem saveTjc (hinv : SwapInv state) (data : Page) (memory : Bool)
    (failed : Option (List UInt8)) : SwapInv (state.saveTjc data memory failed) := by
  have hblocks := hinv.blocks.saveTjc data memory failed
  have hheld : ∀ transactor journal,
      SwapState.held { state with transactor := transactor, journal := journal } =
        state.held := by
    intro transactor journal
    funext holder
    cases holder <;> rfl
  simp only [SwapState.saveTjc]
  split
  case h_1 block transactor hsave =>
    rw [hsave] at hblocks
    exact ⟨(hheld transactor _).symm ▸ hblocks, hinv.back, hinv.pending, hinv.apart⟩
  case h_2 transactor hsave =>
    rw [hsave] at hblocks
    exact ⟨(hheld transactor _).symm ▸ hblocks, hinv.back, hinv.pending, hinv.apart⟩

theorem endCommit (hinv : SwapInv state) (failed : Option (List UInt8)) :
    SwapInv (state.endCommit failed) := by
  simp only [SwapState.endCommit]
  split
  case h_1 => exact hinv
  case h_2 leader data hlast =>
    have hjournal := hinv.blocks.journal leader data (List.mem_of_getLast? hlast)
    have hblocks := hinv.blocks.endCommit hjournal.base failed (state.journal.map Prod.fst)
    constructor
    case blocks =>
      have hheld : ∀ transactor,
          SwapState.held { state with transactor := transactor, journal := [] } =
            state.held := by
        intro transactor
        funext holder
        cases holder <;> rfl
      exact (hheld _).symm ▸ hblocks
    case back => exact hinv.back
    case pending => exact hinv.pending
    case apart => exact hinv.apart

theorem swapStep {op : SwapOp} (hinv : SwapInv state) (htimely : Timely state op) :
    SwapInv (swapStep state op) := by
  cases op with
  | insert client scbn dadr owner page => exact hinv.insert dadr owner page
  | readStart client =>
      simp only [Swap.swapStep]
      split
      case h_1 hclient => exact hinv.readStart hclient _
      case h_2 => exact hinv
  | search client memory =>
      simp only [Swap.swapStep]
      split
      case h_1 hclient => exact hinv.search hclient (htimely _ _ _ hclient)
      case h_2 => exact hinv
  | save client failed invalFailed =>
      simp only [Swap.swapStep]
      split
      case h_1 hclient => exact hinv.save hclient rfl failed invalFailed
      case h_2 => exact hinv
  | register client =>
      simp only [Swap.swapStep]
      split
      case h_1 hclient => exact hinv.register hclient rfl
      case h_2 => exact hinv
  | detach client scbn => exact hinv.detach
  | lose client =>
      simp only [Swap.swapStep]
      split
      case h_1 => exact hinv.lose
      case h_2 => exact hinv
  | load client fails other =>
      simp only [Swap.swapStep]
      split
      case h_1 hclient => exact hinv.load hclient (htimely _ hclient)
      case h_2 => exact hinv
  | release client =>
      simp only [Swap.swapStep]
      split
      case h_1 hclient => exact hinv.release hclient
      case h_2 => exact hinv
  | drop scbn => exact hinv.drop
  | saveTjc data memory failed => exact hinv.saveTjc data memory failed
  | endCommit failed => exact hinv.endCommit failed

/-- A search that starts above a free block leaves the search start behind it, and a read
that fails is not noticed. -/
theorem timely {op : SwapOp} (hinv : SwapInv state)
    (hright : SpaceRight (Swap.swapStep state op)) : Timely state op := by
  cases op with
  | search client memory =>
      intro scbn page cell hclient hhas block hfree
      obtain ⟨-, hnone⟩ | ⟨taken, hfound, -, hget⟩ :=
        Transactor.getSwapBlock_cases hinv.blocks.map cell memory
      · exact absurd hhas hnone
      · simp only [Swap.swapStep, hclient, SwapState.searchFor, hget] at hright
        by_contra hbelow
        have hne : taken ≠ block := by
          have hbehind := hfound.behind
          omega
        have hstill : Transactor.Free
            { state.transactor.setBit taken with srchStart := taken + 1 } block := by
          refine ⟨hfree.1, ?_⟩
          refine (state.transactor.used_setBit taken block).trans ?_
          rw [hfree.2, decide_eq_false hne]
          rfl
        have hstart : taken + 1 ≤ block := (hright.found block hstill).1
        have hbehind := hfound.behind
        omega
  | load client fails other =>
      intro scb hclient hfails
      simp only [Swap.swapStep, hclient, SwapState.load, hfails, if_true] at hright
      exact Subtype.ext (hright.back client scb other.val (Function.update_self ..))
  | _ => trivial

end SwapInv

/-- The exact condition for the swap space to be right in every state of a run. -/
theorem swapSpace_right_iff (tFile : File) (ops : List SwapOp) :
    Always swapStep SpaceRight (SwapState.start tFile) ops ↔
      Meets swapStep Timely (SwapState.start tFile) ops := by
  refine always_iff_meets SwapInv (fun _ hinv => hinv.right) ?_ ?_ (SwapInv.start tFile)
  · intro state op hinv htimely
    exact hinv.swapStep htimely
  · intro state op hinv hright
    exact hinv.timely hright

def swapOut (client scbn : Nat) (page : Page) : List SwapOp :=
  [.insert client scbn scbn client page, .readStart client, .search client true,
    .save client none none, .register client]

theorem length_blank : (List.replicate BLOCKSIZE (0 : UInt8)).length = BLOCKSIZE :=
  List.length_replicate

def blankPage : Page := ⟨List.replicate BLOCKSIZE 0, length_blank⟩

/-- The first cell is full when client 1 reads the search start; then a block of the cell is
released. -/
def lateSearch : List SwapOp :=
  (List.range 31).flatMap (swapOut 0 · blankPage) ++
    [.insert 1 31 31 1 blankPage, .readStart 1, .drop 4, .search 1 true]

theorem not_always_swapSpace_right :
    ¬ ∀ tFile ops, Always swapStep SpaceRight (SwapState.start tFile) ops := by
  intro hall
  have hright := (hall File.empty lateSearch).last
  have hfree : (run swapStep (SwapState.start File.empty) lateSearch).transactor.Free 5 := by
    refine ⟨Nat.succ_ne_zero 4, ?_⟩
    decide +kernel
  have hstart : (run swapStep (SwapState.start File.empty) lateSearch).transactor.srchStart =
      34 := by
    decide +kernel
  have hle := (hright.found 5 hfree).1
  omega

end Sql602.Swap
