import Sql602.Library.Holding
import Sql602.Table.RecordBlocks

namespace Sql602.Table

open Function Holding Run

/-! The mapping of records to blocks under growth and shrinking. -/

section Shape

variable (table : TableShape)

theorem TableShape.dadrs_pos : 0 < table.DADRS_PER_BLOCK := by
  have hlarge := table.large
  unfold DADRS_PER_BLOCK
  omega

theorem TableShape.bas_lt_dadrs : table.MAX_BAS_ADDRS < table.DADRS_PER_BLOCK := by
  unfold MAX_BAS_ADDRS DADRS_PER_BLOCK
  have hlarge := table.large
  omega

/-- The number of blocks of so many records is the one that the arithmetic of 32 bits gives. -/
def Unwrapped (recordCount : Nat) : Prop :=
  table.multpage = true → table.rectopage * recordCount < 2 ^ 32

instance (recordCount : Nat) : Decidable (Unwrapped table recordCount) :=
  inferInstanceAs (Decidable (_ → _))

/-- The pages on which a record has columns. -/
def HasPage (colPage : Nat) : Prop :=
  table.multpage = true → colPage < table.rectopage

variable {table} {few many recnum colPage : Nat}

theorem blockCount_multpage (hmult : table.multpage = true) (hunwrapped : Unwrapped table many) :
    table.recordCount2blockCount many = table.rectopage * many := by
  simp only [TableShape.recordCount2blockCount, hmult, if_true]
  split
  case isTrue hzero => rw [hzero, Nat.mul_zero]
  case isFalse => exact Nat.mod_eq_of_lt (hunwrapped hmult)

theorem blockCount_paged (hmult : table.multpage = false) (hpos : 0 < many) :
    table.recordCount2blockCount many = (many - 1) / table.rectopage + 1 := by
  simp only [TableShape.recordCount2blockCount, hmult, Bool.false_eq_true, if_false]
  exact if_neg (Nat.ne_of_gt hpos)

@[simp] theorem blockCount_zero : table.recordCount2blockCount 0 = 0 := rfl

theorem blockCount_mono (hmany : Unwrapped table many) (hle : few ≤ many) :
    table.recordCount2blockCount few ≤ table.recordCount2blockCount many := by
  cases hmult : table.multpage with
  | true =>
      have hmul : table.rectopage * few ≤ table.rectopage * many := Nat.mul_le_mul_left _ hle
      have hfew : Unwrapped table few := fun htrue => Nat.lt_of_le_of_lt hmul (hmany htrue)
      rw [blockCount_multpage hmult hmany, blockCount_multpage hmult hfew]
      exact hmul
  | false =>
      cases Nat.eq_zero_or_pos few with
      | inl hzero =>
          rw [hzero, blockCount_zero]
          exact Nat.zero_le _
      | inr hpos =>
          have hdiv : (few - 1) / table.rectopage ≤ (many - 1) / table.rectopage :=
            Nat.div_le_div_right (by omega)
          rw [blockCount_paged hmult hpos, blockCount_paged hmult (by omega)]
          omega

theorem blockNumber_lt (hunwrapped : Unwrapped table many) (hlt : recnum < many)
    (hpage : HasPage table colPage) :
    blockNumber table recnum colPage < table.recordCount2blockCount many := by
  cases hmult : table.multpage with
  | true =>
      have hmany := hunwrapped hmult
      have hcol := hpage hmult
      have hrows : table.rectopage * (recnum + 1) ≤ table.rectopage * many :=
        Nat.mul_le_mul_left _ hlt
      have hrow : table.rectopage * (recnum + 1) =
          recnum * table.rectopage + table.rectopage := by
        rw [Nat.mul_succ, Nat.mul_comm]
      rw [blockCount_multpage hmult hunwrapped, blockNumber, if_pos hmult,
        Nat.mod_eq_of_lt (by omega)]
      omega
  | false =>
      have hdiv : recnum / table.rectopage ≤ (many - 1) / table.rectopage :=
        Nat.div_le_div_right (by omega)
      rw [blockCount_paged hmult (by omega), blockNumber, hmult, if_neg Bool.false_ne_true]
      omega

/-- The record count that shrinking leaves has the block count that it was asked for. -/
theorem blockCount_left (hunwrapped : Unwrapped table many) :
    table.recordCount2blockCount
        (if table.multpage then table.recordCount2blockCount many / table.rectopage
          else table.recordCount2blockCount many * table.rectopage) =
      table.recordCount2blockCount many := by
  have hfilled := table.filled
  cases hmult : table.multpage with
  | true =>
      rw [if_pos rfl, blockCount_multpage hmult hunwrapped, Nat.mul_div_cancel_left many hfilled,
        blockCount_multpage hmult hunwrapped]
  | false =>
      cases Nat.eq_zero_or_pos many with
      | inl hzero => simp [hzero]
      | inr hpos =>
          have hsome : 0 < ((many - 1) / table.rectopage + 1) * table.rectopage :=
            Nat.mul_pos (Nat.succ_pos _) hfilled
          have hblocks : ((many - 1) / table.rectopage + 1) * table.rectopage - 1 =
              table.rectopage - 1 + table.rectopage * ((many - 1) / table.rectopage) := by
            rw [Nat.succ_mul, Nat.mul_comm]
            omega
          rw [if_neg Bool.false_ne_true, blockCount_paged hmult hpos,
            blockCount_paged hmult hsome, hblocks, Nat.add_mul_div_left _ _ hfilled,
            Nat.div_eq_of_lt (by omega), Nat.zero_add]

theorem unwrapped_left (hunwrapped : Unwrapped table many) :
    Unwrapped table
      (if table.multpage then table.recordCount2blockCount many / table.rectopage
        else table.recordCount2blockCount many * table.rectopage) := by
  intro hmult
  rw [if_pos hmult, blockCount_multpage hmult hunwrapped,
    Nat.mul_div_cancel_left many table.filled]
  exact hunwrapped hmult

end Shape

/-- The lists have room for exactly so many data blocks. -/
structure ListShape (table : TableShape) (basbl : BasTblBlock) (count : Nat) : Prop where
  direct : basbl.diraddr = true → basbl.nbnums = count ∧ count ≤ table.MAX_BAS_ADDRS
  indirect : basbl.diraddr = false →
    ∀ ind, ind < basbl.nbnums ↔ ind * table.DADRS_PER_BLOCK < count

theorem ListShape.section_lt {table : TableShape} {basbl : BasTblBlock} {count i : Nat}
    (hshape : ListShape table basbl count) (hdir : basbl.diraddr = false) (hi : i < count) :
    i / table.DADRS_PER_BLOCK < basbl.nbnums := by
  apply (hshape.indirect hdir _).mpr
  have hle := Nat.div_mul_le_self i table.DADRS_PER_BLOCK
  omega

/-- The blocks handed out are not in use. -/
def Fresh (supplies : List Supply) (taken : Finset Nat) : Prop :=
  (supplies.filterMap Supply.dadr?).Nodup ∧
    ∀ dadr ∈ supplies.filterMap Supply.dadr?, dadr ≠ 0 ∧ dadr ∉ taken

instance (supplies : List Supply) (taken : Finset Nat) : Decidable (Fresh supplies taken) :=
  inferInstanceAs (Decidable (_ ∧ _))

structure BlocksInv (table : TableShape) (state : TableBlocks) : Prop where
  copied : state.copy = state.basblock
  unwrapped : Unwrapped table state.basblock.recnum
  shape : ListShape table state.basblock (table.recordCount2blockCount state.basblock.recnum)
  once : Once id (state.refers table)
  inUse : ∀ slot dadr, state.refers table slot = some dadr → dadr ≠ 0 ∧ dadr ∈ state.taken

namespace Expansion

variable {table : TableShape} {old : TableBlocks} {oldCount top listed blocknum dadr : Nat}
  {work : Expansion}

theorem fresh_tail {supply : Supply} {rest : List Supply} {taken : Finset Nat}
    (hfresh : Fresh (supply :: rest) taken) : Fresh rest taken := by
  cases supply with
  | exhausted => exact hfresh
  | noFrame dadr =>
      exact ⟨hfresh.1.of_cons, fun dadr hmem => hfresh.2 dadr (List.mem_cons_of_mem _ hmem)⟩
  | block dadr =>
      exact ⟨hfresh.1.of_cons, fun dadr hmem => hfresh.2 dadr (List.mem_cons_of_mem _ hmem)⟩

theorem fresh_insert {supply : Supply} {rest : List Supply} {taken : Finset Nat}
    (hfresh : Fresh (supply :: rest) taken) (hdadr : supply.dadr? = some dadr) :
    dadr ≠ 0 ∧ dadr ∉ taken ∧ Fresh rest (insert dadr taken) := by
  have hlist : (supply :: rest).filterMap Supply.dadr? =
      dadr :: rest.filterMap Supply.dadr? := List.filterMap_cons_some hdadr
  rw [Fresh, hlist] at hfresh
  obtain ⟨hnew, hnodup⟩ := List.nodup_cons.mp hfresh.1
  obtain ⟨hzero, htaken⟩ := hfresh.2 dadr List.mem_cons_self
  refine ⟨hzero, htaken, hnodup, fun other hother => ?_⟩
  obtain ⟨hne, hout⟩ := hfresh.2 other (List.mem_cons_of_mem _ hother)
  refine ⟨hne, fun hmem => ?_⟩
  cases Finset.mem_insert.mp hmem with
  | inl heq => exact hnew (heq ▸ hother)
  | inr hin => exact hout hin

/-- What asking for a block does. -/
structure Answered (work : Expansion) (answer : Option Nat × Expansion) : Prop where
  same : ∃ taken supplies, answer.2 = { work with taken := taken, supplies := supplies }
  taken : work.taken ⊆ answer.2.taken
  fresh : Fresh answer.2.supplies answer.2.taken
  new : ∀ dadr, answer.1 = some dadr →
    dadr ≠ 0 ∧ dadr ∉ work.taken ∧ dadr ∈ answer.2.taken

theorem answered_alloc (hfresh : Fresh work.supplies work.taken) :
    Answered work work.allocAlphaBlock := by
  unfold allocAlphaBlock
  split
  case h_1 => exact ⟨⟨_, _, rfl⟩, subset_rfl, hfresh, fun _ hnone => by cases hnone⟩
  case h_2 rest hsupplies =>
    rw [hsupplies] at hfresh
    exact ⟨⟨_, _, rfl⟩, subset_rfl, fresh_tail hfresh, fun _ hnone => by cases hnone⟩
  case h_3 dadr rest hsupplies =>
    rw [hsupplies] at hfresh
    obtain ⟨hzero, hnew, hrest⟩ := fresh_insert hfresh rfl
    refine ⟨⟨_, _, rfl⟩, Finset.subset_insert _ _, hrest, ?_⟩
    intro other hother
    cases hother
    exact ⟨hzero, hnew, Finset.mem_insert_self _ _⟩
  case h_4 dadr rest hsupplies =>
    rw [hsupplies] at hfresh
    obtain ⟨hzero, hnew, hrest⟩ := fresh_insert hfresh rfl
    refine ⟨⟨_, _, rfl⟩, Finset.subset_insert _ _, hrest, ?_⟩
    intro other hother
    cases hother
    exact ⟨hzero, hnew, Finset.mem_insert_self _ _⟩

theorem answered_access (hfresh : Fresh work.supplies work.taken) :
    Answered work work.accessNewBlock := by
  unfold accessNewBlock
  split
  case h_1 dadr rest hsupplies =>
    rw [hsupplies] at hfresh
    obtain ⟨-, -, hrest⟩ := fresh_insert hfresh rfl
    exact ⟨⟨_, _, rfl⟩, Finset.subset_insert _ _, hrest, fun _ hnone => by cases hnone⟩
  case h_2 => exact answered_alloc hfresh

theorem answered_format (hfresh : Fresh work.supplies work.taken) :
    Answered work (work.allocAndFormatDataBlock table blocknum) := by
  unfold allocAndFormatDataBlock
  split
  case isTrue => exact answered_alloc hfresh
  case isFalse => exact answered_access hfresh

/-- What a call leaves behind when it fails. -/
structure Abandoned (table : TableShape) (old : TableBlocks) (oldCount : Nat)
    (work : Expansion) : Prop where
  written : ∀ i < oldCount,
    dataBlock table old.basblock work.secondary i =
      dataBlock table old.basblock old.secondary i
  grows : old.taken ⊆ work.taken

/-- The table is being filled up to `top` data blocks. It has `blocknum` of them, and the
lists have room for `listed`. -/
structure Filling (table : TableShape) (old : TableBlocks) (oldCount top listed blocknum : Nat)
    (work : Expansion) : Prop extends Abandoned table old oldCount work where
  shape : ListShape table work.basbl listed
  room : work.basbl.diraddr = true → top ≤ table.MAX_BAS_ADDRS
  once : Once id (referenced table work.basbl work.close.secondary blocknum)
  inUse : ∀ slot dadr, referenced table work.basbl work.close.secondary blocknum slot =
    some dadr → dadr ≠ 0 ∧ dadr ∈ work.taken
  kept : ∀ i < oldCount,
    dataBlock table work.basbl work.close.secondary i =
      dataBlock table old.basblock old.secondary i
  list : old.basblock.diraddr = false → work.basbl.diraddr = false ∧
    ∀ ind < old.basblock.nbnums, ind < work.basbl.nbnums ∧
      work.basbl.databl ind = old.basblock.databl ind
  opened : ∀ b2, work.opened = some b2 → work.basbl.diraddr = false ∧
    b2.blocknumsNum < work.basbl.nbnums ∧ b2.dadr = work.basbl.databl b2.blocknumsNum
  fresh : Fresh work.supplies work.taken
  started : oldCount ≤ blocknum
  oldShape : ListShape table old.basblock oldCount

theorem dataBlock_direct {basbl : BasTblBlock} {secondary : Nat → Nat → Nat} {i : Nat}
    (hdir : basbl.diraddr = true) : dataBlock table basbl secondary i = basbl.databl i := by
  rw [dataBlock, if_pos hdir]

theorem dataBlock_indirect {basbl : BasTblBlock} {secondary : Nat → Nat → Nat} {i : Nat}
    (hdir : basbl.diraddr = false) :
    dataBlock table basbl secondary i =
      secondary (basbl.databl (i / table.DADRS_PER_BLOCK)) (i % table.DADRS_PER_BLOCK) := by
  rw [dataBlock, hdir, if_neg Bool.false_ne_true]

@[simp] theorem close_basbl : work.close.basbl = work.basbl := by
  unfold close
  split <;> rfl

@[simp] theorem close_taken : work.close.taken = work.taken := by
  unfold close
  split <;> rfl

@[simp] theorem close_supplies : work.close.supplies = work.supplies := by
  unfold close
  split <;> rfl

@[simp] theorem close_opened : work.close.opened = none := by
  unfold close
  split
  case h_1 hopened => exact hopened
  case h_2 => rfl

@[simp] theorem close_close : work.close.close = work.close := by
  rw [close.eq_def work.close, close_opened]

/-- Writing the open secondary block keeps the blocks of the old records. -/
theorem Filling.closed_written (hfill : Filling table old oldCount top listed blocknum work)
    {i : Nat} (hi : i < oldCount) :
    dataBlock table old.basblock work.close.secondary i =
      dataBlock table old.basblock old.secondary i := by
  cases hdir : old.basblock.diraddr with
  | true => rw [dataBlock_direct hdir, dataBlock_direct hdir]
  | false =>
      obtain ⟨hnow, hlist⟩ := hfill.list hdir
      obtain ⟨-, hsame⟩ := hlist _ (hfill.oldShape.section_lt hdir hi)
      rw [← hfill.kept i hi, dataBlock_indirect hdir, dataBlock_indirect hnow, hsame]

theorem Filling.close (hfill : Filling table old oldCount top listed blocknum work) :
    Filling table old oldCount top listed blocknum work.close where
  written i hi := hfill.closed_written hi
  grows := by rw [close_taken]; exact hfill.grows
  shape := by rw [close_basbl]; exact hfill.shape
  room := by rw [close_basbl]; exact hfill.room
  once := by rw [close_basbl, close_close]; exact hfill.once
  inUse := by rw [close_basbl, close_close, close_taken]; exact hfill.inUse
  kept := by rw [close_basbl, close_close]; exact hfill.kept
  list := by rw [close_basbl]; exact hfill.list
  opened b2 hb2 := by
    rw [close_opened] at hb2
    cases hb2
  fresh := by rw [close_supplies, close_taken]; exact hfill.fresh
  started := hfill.started
  oldShape := hfill.oldShape

theorem close_secondary : work.close.secondary =
    work.opened.elim work.secondary fun b2 => update work.secondary b2.dadr b2.blocknums := by
  unfold close
  split
  case h_1 hopened => rw [hopened, Option.elim_none]
  case h_2 b2 hopened => rw [hopened, Option.elim_some]

theorem Filling.answered {answer : Option Nat × Expansion}
    (hfill : Filling table old oldCount top listed blocknum work)
    (hanswer : Answered work answer) :
    Filling table old oldCount top listed blocknum answer.2 := by
  obtain ⟨⟨taken, supplies, hsame⟩, htaken, hfresh, -⟩ := hanswer
  have hclosed : answer.2.close.secondary = work.close.secondary := by
    rw [close_secondary, close_secondary, hsame]
  constructor
  case toAbandoned => exact ⟨by rw [hsame]; exact hfill.written, hfill.grows.trans htaken⟩
  case shape => rw [hsame]; exact hfill.shape
  case room => rw [hsame]; exact hfill.room
  case once => rw [hclosed, hsame]; exact hfill.once
  case inUse =>
    intro slot dadr hslot
    rw [hclosed, hsame] at hslot
    obtain ⟨hzero, hin⟩ := hfill.inUse slot dadr hslot
    exact ⟨hzero, htaken hin⟩
  case kept => rw [hclosed, hsame]; exact hfill.kept
  case list => rw [hsame]; exact hfill.list
  case opened => rw [hsame]; exact hfill.opened
  case fresh => exact hfresh
  case started => exact hfill.started
  case oldShape => exact hfill.oldShape

/-- A block that is taken and not yet written into a list. -/
structure Loose (table : TableShape) (work : Expansion) (blocknum dadr : Nat) : Prop where
  nonzero : dadr ≠ 0
  taken : dadr ∈ work.taken
  free : ∀ slot, referenced table work.basbl work.close.secondary blocknum slot ≠ some dadr

theorem Filling.loose {answer : Option Nat × Expansion}
    (hfill : Filling table old oldCount top listed blocknum work)
    (hanswer : Answered work answer) (hdadr : answer.1 = some dadr) :
    Loose table answer.2 blocknum dadr := by
  obtain ⟨hzero, hnew, hin⟩ := hanswer.new dadr hdadr
  refine ⟨hzero, hin, fun slot hslot => ?_⟩
  obtain ⟨⟨taken, supplies, hsame⟩, -, -, -⟩ := hanswer
  have hclosed : answer.2.close.secondary = work.close.secondary := by
    rw [close_secondary, close_secondary, hsame]
  rw [hclosed, hsame] at hslot
  exact hnew (hfill.inUse slot dadr hslot).2

theorem ListShape.next {basbl : BasTblBlock}
    (hshape : ListShape table basbl blocknum) (hdir : basbl.diraddr = false)
    (hroom : blocknum / table.DADRS_PER_BLOCK < basbl.nbnums) :
    ListShape table basbl (blocknum + 1) where
  direct htrue := by rw [hdir] at htrue; cases htrue
  indirect _ ind := by
    constructor
    · intro hind
      have hlt := (hshape.indirect hdir ind).mp hind
      omega
    · intro hlt
      have hle : ind ≤ blocknum / table.DADRS_PER_BLOCK :=
        (Nat.le_div_iff_mul_le table.dadrs_pos).mpr (by omega)
      omega

/-- The open secondary block is the one that the next data block belongs to. -/
theorem Filling.reopen (hfill : Filling table old oldCount top blocknum blocknum work)
    {b2 : Opened} (hopened : work.opened = some b2)
    (hnum : b2.blocknumsNum = blocknum / table.DADRS_PER_BLOCK) :
    Filling table old oldCount top (blocknum + 1) blocknum work := by
  obtain ⟨hdir, hlt, -⟩ := hfill.opened b2 hopened
  rw [hnum] at hlt
  exact { hfill with shape := ListShape.next hfill.shape hdir hlt }

theorem Filling.openExisting (hfill : Filling table old oldCount top blocknum blocknum work)
    (hclosed : work.opened = none) (hdir : work.basbl.diraddr = false)
    (hroom : blocknum / table.DADRS_PER_BLOCK < work.basbl.nbnums) :
    Filling table old oldCount top (blocknum + 1) blocknum
      { work with opened := some ⟨blocknum / table.DADRS_PER_BLOCK,
        work.basbl.databl (blocknum / table.DADRS_PER_BLOCK),
        work.secondary (work.basbl.databl (blocknum / table.DADRS_PER_BLOCK))⟩ } := by
  have hsame : ({ work with opened := some ⟨blocknum / table.DADRS_PER_BLOCK,
        work.basbl.databl (blocknum / table.DADRS_PER_BLOCK),
        work.secondary (work.basbl.databl (blocknum / table.DADRS_PER_BLOCK))⟩ } :
      Expansion).close.secondary = work.close.secondary := by
    rw [close_secondary, close_secondary, hclosed, Option.elim_some, Option.elim_none,
      update_eq_self]
  constructor
  case toAbandoned => exact ⟨hfill.written, hfill.grows⟩
  case shape => exact ListShape.next hfill.shape hdir hroom
  case room => exact hfill.room
  case once => rw [hsame]; exact hfill.once
  case inUse => rw [hsame]; exact hfill.inUse
  case kept => rw [hsame]; exact hfill.kept
  case list => exact hfill.list
  case opened =>
    intro b2 hb2
    cases hb2
    exact ⟨hdir, hroom, rfl⟩
  case fresh => exact hfill.fresh
  case started => exact hfill.started
  case oldShape => exact hfill.oldShape

/-- What putting a block into a free slot keeps. -/
theorem once_put {held held' : Slot → Option Nat} {taken : Finset Nat} {slot : Slot}
    (hheld : held' = update held slot (some dadr)) (honce : Once id held)
    (hinUse : ∀ slot other, held slot = some other → other ≠ 0 ∧ other ∈ taken)
    (hfree : ∀ slot, held slot ≠ some dadr) (hzero : dadr ≠ 0) (htaken : dadr ∈ taken) :
    Once id held' ∧ ∀ slot other, held' slot = some other → other ≠ 0 ∧ other ∈ taken := by
  subst hheld
  constructor
  · apply honce.put
    intro j other _ hj hsame
    exact hfree j (hj.trans (congrArg some hsame))
  · have hgood : (fun other => other ≠ 0 ∧ other ∈ taken) dadr := ⟨hzero, htaken⟩
    exact forall_put hinUse hgood slot

theorem ListShape.full {basbl : BasTblBlock} (hshape : ListShape table basbl blocknum)
    (hdir : basbl.diraddr = false) (hroom : ¬ blocknum / table.DADRS_PER_BLOCK < basbl.nbnums) :
    basbl.nbnums = blocknum / table.DADRS_PER_BLOCK ∧
      blocknum / table.DADRS_PER_BLOCK * table.DADRS_PER_BLOCK = blocknum := by
  have hle := Nat.div_mul_le_self blocknum table.DADRS_PER_BLOCK
  have hnot := mt (hshape.indirect hdir (blocknum / table.DADRS_PER_BLOCK)).mpr hroom
  have hfull : blocknum / table.DADRS_PER_BLOCK * table.DADRS_PER_BLOCK = blocknum := by omega
  refine ⟨?_, hfull⟩
  by_contra hne
  have hless : basbl.nbnums + 1 ≤ blocknum / table.DADRS_PER_BLOCK := by omega
  have hmul := Nat.mul_le_mul_right table.DADRS_PER_BLOCK hless
  have hpos := table.dadrs_pos
  rw [Nat.succ_mul] at hmul
  have hin := (hshape.indirect hdir basbl.nbnums).mpr (by omega)
  omega

theorem Filling.openNew (hfill : Filling table old oldCount top blocknum blocknum work)
    (hclosed : work.opened = none) (hdir : work.basbl.diraddr = false)
    (hroom : ¬ blocknum / table.DADRS_PER_BLOCK < work.basbl.nbnums)
    (hloose : Loose table work blocknum dadr) {w' : Expansion}
    (hw' : { work with
        opened := some ⟨blocknum / table.DADRS_PER_BLOCK, dadr, fun _ => 0⟩
        basbl := { work.basbl with
          databl := update work.basbl.databl (blocknum / table.DADRS_PER_BLOCK) dadr
          nbnums := work.basbl.nbnums + 1 } } = w') :
    Filling table old oldCount top (blocknum + 1) blocknum w' ∧
      ∀ other, Loose table work blocknum other → other ≠ dadr →
        Loose table w' blocknum other := by
  obtain ⟨hnbnums, hfull⟩ := ListShape.full hfill.shape hdir hroom
  have hbasbl : w'.basbl = { work.basbl with
      databl := update work.basbl.databl (blocknum / table.DADRS_PER_BLOCK) dadr
      nbnums := work.basbl.nbnums + 1 } := by rw [← hw']
  have hsecondary : w'.close.secondary = update work.secondary dadr fun _ => 0 := by
    rw [close_secondary, ← hw', Option.elim_some]
  have hbefore : work.close.secondary = work.secondary := by
    rw [close_secondary, hclosed, Option.elim_none]
  have hdata : ∀ i < blocknum, dataBlock table w'.basbl w'.close.secondary i =
      dataBlock table work.basbl work.close.secondary i := by
    intro i hi
    have hlt := hfill.shape.section_lt hdir hi
    have hne : work.basbl.databl (i / table.DADRS_PER_BLOCK) ≠ dadr := by
      intro heq
      refine hloose.free (.secondary (i / table.DADRS_PER_BLOCK)) ?_
      rw [referenced, if_pos ⟨hdir, hlt⟩, heq]
    rw [dataBlock_indirect (by rw [hbasbl]; exact hdir), dataBlock_indirect hdir, hsecondary,
      hbasbl, hbefore]
    dsimp only
    have hother : i / table.DADRS_PER_BLOCK ≠ blocknum / table.DADRS_PER_BLOCK := by omega
    rw [update_of_ne hother, update_of_ne hne]
  have hheld : referenced table w'.basbl w'.close.secondary blocknum =
      update (referenced table work.basbl work.close.secondary blocknum)
        (.secondary (blocknum / table.DADRS_PER_BLOCK)) (some dadr) := by
    funext slot
    cases slot with
    | secondary ind =>
        cases decEq ind (blocknum / table.DADRS_PER_BLOCK) with
        | isTrue heq =>
            rw [heq, update_self, referenced, hbasbl, if_pos ⟨hdir, by dsimp only; omega⟩]
            dsimp only
            rw [update_self]
        | isFalse hne =>
            rw [update_of_ne (fun heq => hne (Slot.secondary.inj heq)), referenced, referenced,
              hbasbl]
            dsimp only
            rw [update_of_ne hne]
            congr 2
            exact propext (by omega)
    | data i =>
        rw [update_of_ne (fun heq => by cases heq), referenced, referenced]
        split
        case isTrue hi => rw [hdata i hi]
        case isFalse => rfl
  obtain ⟨honce, hinUse⟩ := once_put hheld hfill.once hfill.inUse hloose.free hloose.nonzero
    hloose.taken
  refine ⟨?_, ?_⟩
  case refine_2 =>
    intro other hother hne
    refine ⟨hother.nonzero, by rw [← hw']; exact hother.taken, fun slot hslot => ?_⟩
    rw [hheld] at hslot
    obtain ⟨-, heq⟩ | ⟨-, hslot⟩ := holder_of_update hslot
    · exact hne (Option.some.inj heq).symm
    · exact hother.free slot hslot
  constructor
  case toAbandoned => rw [← hw']; exact ⟨hfill.written, hfill.grows⟩
  case shape =>
    rw [hbasbl]
    constructor
    case direct => intro htrue; rw [hdir] at htrue; cases htrue
    case indirect =>
      intro _ ind
      constructor
      · intro hind
        have hmul : ind * table.DADRS_PER_BLOCK ≤
            blocknum / table.DADRS_PER_BLOCK * table.DADRS_PER_BLOCK :=
          Nat.mul_le_mul_right _ (by dsimp only at hind; omega)
        omega
      · intro hlt
        have hle : ind ≤ blocknum / table.DADRS_PER_BLOCK :=
          (Nat.le_div_iff_mul_le table.dadrs_pos).mpr (by omega)
        dsimp only
        omega
  case room => rw [hbasbl]; intro htrue; rw [hdir] at htrue; cases htrue
  case once => exact honce
  case inUse =>
    intro slot other hslot
    rw [← hw']
    exact hinUse slot other hslot
  case kept =>
    intro i hi
    rw [hdata i (Nat.lt_of_lt_of_le hi hfill.started)]
    exact hfill.kept i hi
  case list =>
    intro hold
    refine ⟨by rw [hbasbl]; exact hdir, fun ind hind => ?_⟩
    obtain ⟨hlt, hsame⟩ := (hfill.list hold).2 ind hind
    rw [hbasbl]
    dsimp only
    rw [update_of_ne (by omega)]
    exact ⟨by omega, hsame⟩
  case opened =>
    intro b2 hb2
    rw [← hw'] at hb2
    cases hb2
    rw [hbasbl]
    dsimp only
    rw [update_self]
    exact ⟨hdir, by omega, rfl⟩
  case fresh => rw [← hw']; exact hfill.fresh
  case started => exact hfill.started
  case oldShape => exact hfill.oldShape

/-- A number is written into the open secondary block. -/
theorem Filling.storeOpened (hfill : Filling table old oldCount top (blocknum + 1) blocknum work)
    {b2 : Opened} (hopened : work.opened = some b2)
    (hnum : b2.blocknumsNum = blocknum / table.DADRS_PER_BLOCK)
    (hloose : Loose table work blocknum dadr) :
    Filling table old oldCount top (blocknum + 1) (blocknum + 1)
      { work with opened := some { b2 with
        blocknums := update b2.blocknums (blocknum % table.DADRS_PER_BLOCK) dadr } } := by
  obtain ⟨hdir, hlt, hb2⟩ := hfill.opened b2 hopened
  generalize hw' : ({ work with opened := some { b2 with
        blocknums := update b2.blocknums (blocknum % table.DADRS_PER_BLOCK) dadr } } :
      Expansion) = w'
  have hbasbl : w'.basbl = work.basbl := by rw [← hw']
  have hbefore : work.close.secondary = update work.secondary b2.dadr b2.blocknums := by
    rw [close_secondary, hopened, Option.elim_some]
  have hsecondary : w'.close.secondary = update work.secondary b2.dadr
      (update b2.blocknums (blocknum % table.DADRS_PER_BLOCK) dadr) := by
    rw [close_secondary, ← hw', Option.elim_some]
  have hnew : dataBlock table w'.basbl w'.close.secondary blocknum = dadr := by
    rw [dataBlock_indirect (by rw [hbasbl]; exact hdir), hsecondary, hbasbl, ← hnum, ← hb2,
      update_self, update_self]
  have hdata : ∀ i < blocknum, dataBlock table w'.basbl w'.close.secondary i =
      dataBlock table work.basbl work.close.secondary i := by
    intro i hi
    rw [dataBlock_indirect (by rw [hbasbl]; exact hdir), dataBlock_indirect hdir, hsecondary,
      hbasbl, hbefore]
    have hsection := hfill.shape.section_lt hdir (Nat.lt_succ_of_lt hi)
    cases decEq (i / table.DADRS_PER_BLOCK) b2.blocknumsNum with
    | isTrue hsame =>
        have hmod : i % table.DADRS_PER_BLOCK ≠ blocknum % table.DADRS_PER_BLOCK := by
          intro heq
          have hi' := Nat.div_add_mod i table.DADRS_PER_BLOCK
          have hblock' := Nat.div_add_mod blocknum table.DADRS_PER_BLOCK
          rw [hsame, heq, hnum] at hi'
          omega
        rw [hsame, ← hb2, update_self, update_self, update_of_ne hmod]
    | isFalse hother =>
        have hne : work.basbl.databl (i / table.DADRS_PER_BLOCK) ≠ b2.dadr := by
          intro heq
          have hi' : referenced table work.basbl work.close.secondary blocknum
              (.secondary (i / table.DADRS_PER_BLOCK)) =
                some (work.basbl.databl (i / table.DADRS_PER_BLOCK)) :=
            if_pos ⟨hdir, hsection⟩
          have hnum' : referenced table work.basbl work.close.secondary blocknum
              (.secondary b2.blocknumsNum) = some (work.basbl.databl b2.blocknumsNum) :=
            if_pos ⟨hdir, hlt⟩
          exact hother (Slot.secondary.inj (hfill.once hi' hnum' (heq.trans hb2)))
        rw [update_of_ne hne, update_of_ne hne]
  have hheld : referenced table w'.basbl w'.close.secondary (blocknum + 1) =
      update (referenced table work.basbl work.close.secondary blocknum) (.data blocknum)
        (some dadr) := by
    funext slot
    cases slot with
    | secondary ind => rw [update_of_ne (fun heq => by cases heq), referenced, referenced, hbasbl]
    | data i =>
        cases decEq i blocknum with
        | isTrue heq => rw [heq, update_self, referenced, if_pos (Nat.lt_succ_self _), hnew]
        | isFalse hne =>
            rw [update_of_ne (fun heq => hne (Slot.data.inj heq)), referenced, referenced]
            split
            case isTrue hi =>
              have hi' : i < blocknum := by omega
              rw [if_pos hi', hdata i hi']
            case isFalse hi => rw [if_neg (by omega)]
  obtain ⟨honce, hinUse⟩ := once_put hheld hfill.once hfill.inUse hloose.free hloose.nonzero
    hloose.taken
  constructor
  case toAbandoned => rw [← hw']; exact ⟨hfill.written, hfill.grows⟩
  case shape => rw [hbasbl]; exact hfill.shape
  case room => rw [hbasbl]; exact hfill.room
  case once => exact honce
  case inUse =>
    intro slot other hslot
    rw [← hw']
    exact hinUse slot other hslot
  case kept =>
    intro i hi
    rw [hdata i (Nat.lt_of_lt_of_le hi hfill.started)]
    exact hfill.kept i hi
  case list => rw [hbasbl]; exact hfill.list
  case opened =>
    intro other hother
    rw [← hw'] at hother
    cases hother
    rw [hbasbl]
    exact ⟨hdir, hlt, hb2⟩
  case fresh => rw [← hw']; exact hfill.fresh
  case started => exact Nat.le_succ_of_le hfill.started
  case oldShape => exact hfill.oldShape

theorem Filling.storeDirect (hfill : Filling table old oldCount top blocknum blocknum work)
    (hdir : work.basbl.diraddr = true) (hlt : blocknum < top)
    (hloose : Loose table work blocknum dadr) :
    Filling table old oldCount top (blocknum + 1) (blocknum + 1)
      { work with basbl := { work.basbl with
        databl := update work.basbl.databl work.basbl.nbnums dadr
        nbnums := work.basbl.nbnums + 1 } } := by
  obtain ⟨hnbnums, -⟩ := hfill.shape.direct hdir
  have hclosed : work.opened = none := by
    cases hopened : work.opened with
    | none => rfl
    | some b2 =>
        have hind := (hfill.opened b2 hopened).1
        rw [hdir] at hind
        cases hind
  generalize hbasbl : ({ work.basbl with
    databl := update work.basbl.databl work.basbl.nbnums dadr
    nbnums := work.basbl.nbnums + 1 } : BasTblBlock) = basbl'
  have hdir' : basbl'.diraddr = true := by rw [← hbasbl]; exact hdir
  have hnbnums' : basbl'.nbnums = blocknum + 1 := by rw [← hbasbl, ← hnbnums]
  have hdatabl' : basbl'.databl = update work.basbl.databl blocknum dadr := by
    rw [← hbasbl, ← hnbnums]
  have hsecondary : ({ work with basbl := basbl' } : Expansion).close.secondary =
      work.close.secondary := by
    rw [close_secondary, close_secondary]
  have hheld : referenced table basbl' work.close.secondary (blocknum + 1) =
      update (referenced table work.basbl work.close.secondary blocknum) (.data blocknum)
        (some dadr) := by
    funext slot
    cases slot with
    | secondary ind =>
        rw [update_of_ne (fun heq => by cases heq), referenced, referenced, hdir', hdir]
        rw [if_neg (fun hand => Bool.noConfusion hand.1),
          if_neg (fun hand => Bool.noConfusion hand.1)]
    | data i =>
        cases decEq i blocknum with
        | isTrue heq =>
            rw [heq, update_self, referenced, if_pos (Nat.lt_succ_self _),
              dataBlock_direct hdir', hdatabl', update_self]
        | isFalse hne =>
            rw [update_of_ne (fun heq => hne (Slot.data.inj heq)), referenced, referenced,
              dataBlock_direct hdir', dataBlock_direct hdir, hdatabl', update_of_ne hne]
            congr 1
            exact propext (by omega)
  obtain ⟨honce, hinUse⟩ := once_put hheld hfill.once hfill.inUse hloose.free hloose.nonzero
    hloose.taken
  constructor
  case toAbandoned => exact ⟨hfill.written, hfill.grows⟩
  case shape =>
    constructor
    case direct =>
      intro _
      have htop := hfill.room hdir
      exact ⟨hnbnums', by omega⟩
    case indirect =>
      intro hfalse
      dsimp only at hfalse
      rw [hdir'] at hfalse
      cases hfalse
  case room => exact fun _ => hfill.room hdir
  case once => rw [hsecondary]; exact honce
  case inUse => rw [hsecondary]; exact hinUse
  case kept =>
    intro i hi
    have hstarted := hfill.started
    rw [← hfill.kept i hi, dataBlock_direct hdir', dataBlock_direct hdir, hdatabl',
      update_of_ne (by omega)]
  case list =>
    intro hold
    have hind := (hfill.list hold).1
    rw [hdir] at hind
    cases hind
  case opened =>
    intro b2 hb2
    dsimp only at hb2
    rw [hclosed] at hb2
    cases hb2
  case fresh => exact hfill.fresh
  case started => exact Nat.le_succ_of_le hfill.started
  case oldShape => exact hfill.oldShape

/-- The list of data blocks moves from the basic block to a new secondary block, where the
next number has room, too. -/
theorem Filling.reorganized (hfill : Filling table old oldCount top blocknum blocknum work)
    (hdir : work.basbl.diraddr = true) (hloose : Loose table work blocknum dadr) (top' : Nat) :
    Filling table old oldCount top' (blocknum + 1) blocknum
      { work with
        opened := some ⟨0, dadr, fun i => if i < work.basbl.nbnums then work.basbl.databl i else 0⟩
        basbl := { work.basbl with
          databl := update
            (fun i => if i < work.basbl.nbnums then 0 else work.basbl.databl i) 0 dadr
          nbnums := 1
          diraddr := false } } := by
  obtain ⟨hnbnums, hbas⟩ := hfill.shape.direct hdir
  have hdadrs := table.bas_lt_dadrs
  generalize hw' : ({ work with
        opened := some ⟨0, dadr, fun i => if i < work.basbl.nbnums then work.basbl.databl i else 0⟩
        basbl := { work.basbl with
          databl := update
            (fun i => if i < work.basbl.nbnums then 0 else work.basbl.databl i) 0 dadr
          nbnums := 1
          diraddr := false } } : Expansion) = w'
  have hdir' : w'.basbl.diraddr = false := by rw [← hw']
  have hnbnums' : w'.basbl.nbnums = 1 := by rw [← hw']
  have hfirst : w'.basbl.databl 0 = dadr := by
    rw [← hw']
    simp only [update_self]
  have hsecondary : w'.close.secondary = update work.secondary dadr
      fun i => if i < blocknum then work.basbl.databl i else 0 := by
    rw [close_secondary, ← hw', Option.elim_some, hnbnums]
  have hdata : ∀ i < blocknum, dataBlock table w'.basbl w'.close.secondary i =
      dataBlock table work.basbl work.close.secondary i := by
    intro i hi
    rw [dataBlock_indirect hdir', dataBlock_direct hdir, hsecondary,
      Nat.div_eq_of_lt (by omega), Nat.mod_eq_of_lt (by omega), hfirst, update_self, if_pos hi]
  have hheld : referenced table w'.basbl w'.close.secondary blocknum =
      update (referenced table work.basbl work.close.secondary blocknum) (.secondary 0)
        (some dadr) := by
    funext slot
    cases slot with
    | secondary ind =>
        cases decEq ind 0 with
        | isTrue heq =>
            rw [heq, update_self, referenced, if_pos ⟨hdir', by omega⟩, hfirst]
        | isFalse hne =>
            rw [update_of_ne (fun heq => hne (Slot.secondary.inj heq)), referenced, referenced,
              hdir, if_neg (by omega), if_neg (fun hand => Bool.noConfusion hand.1)]
    | data i =>
        rw [update_of_ne (fun heq => by cases heq), referenced, referenced]
        split
        case isTrue hi => rw [hdata i hi]
        case isFalse => rfl
  obtain ⟨honce, hinUse⟩ := once_put hheld hfill.once hfill.inUse hloose.free hloose.nonzero
    hloose.taken
  constructor
  case toAbandoned => rw [← hw']; exact ⟨hfill.written, hfill.grows⟩
  case shape =>
    constructor
    case direct =>
      intro htrue
      rw [hdir'] at htrue
      cases htrue
    case indirect =>
      intro _ ind
      rw [hnbnums']
      cases ind with
      | zero => exact ⟨fun _ => by omega, fun _ => Nat.one_pos⟩
      | succ ind =>
          rw [Nat.succ_mul]
          omega
  case room =>
    intro htrue
    rw [hdir'] at htrue
    cases htrue
  case once => exact honce
  case inUse =>
    intro slot other hslot
    rw [← hw']
    exact hinUse slot other hslot
  case kept =>
    intro i hi
    rw [hdata i (Nat.lt_of_lt_of_le hi hfill.started)]
    exact hfill.kept i hi
  case list =>
    intro hold
    have hind := (hfill.list hold).1
    rw [hdir] at hind
    cases hind
  case opened =>
    intro b2 hb2
    have hopened : w'.opened = some ⟨0, dadr,
        fun i => if i < work.basbl.nbnums then work.basbl.databl i else 0⟩ := by rw [← hw']
    obtain rfl := Option.some.inj (hopened.symm.trans hb2)
    exact ⟨hdir', by rw [hnbnums']; exact Nat.one_pos, hfirst.symm⟩
  case fresh => rw [← hw']; exact hfill.fresh
  case started => exact hfill.started
  case oldShape => exact hfill.oldShape

/-- A statement leads to a good result, or it fails and leaves only what a failed call may
leave. -/
def Leads {α : Type} (table : TableShape) (old : TableBlocks) (oldCount : Nat) (good : α → Prop) :
    Except (Exit × Expansion) α → Prop
  | .ok result => good result
  | .error failure => Abandoned table old oldCount failure.2

/-- The lists have room for the next data block at most in the secondary block that is
open. -/
inductive Waiting (table : TableShape) (old : TableBlocks) (oldCount top blocknum : Nat)
    (work : Expansion) : Prop
  | exact (hfill : Filling table old oldCount top blocknum blocknum work)
  | ready (hfill : Filling table old oldCount top (blocknum + 1) blocknum work)
      (hlt : blocknum < top) (b2 : Opened) (hopened : work.opened = some b2)
      (hnum : b2.blocknumsNum = blocknum / table.DADRS_PER_BLOCK)

theorem Waiting.abandoned (hwait : Waiting table old oldCount top blocknum work) :
    Abandoned table old oldCount work := by
  cases hwait with
  | exact hfill => exact hfill.toAbandoned
  | ready hfill => exact hfill.toAbandoned

theorem Waiting.fresh (hwait : Waiting table old oldCount top blocknum work) :
    Fresh work.supplies work.taken := by
  cases hwait with
  | exact hfill => exact hfill.fresh
  | ready hfill => exact hfill.fresh

theorem Waiting.answered {answer : Option Nat × Expansion}
    (hwait : Waiting table old oldCount top blocknum work) (hanswer : Answered work answer) :
    Waiting table old oldCount top blocknum answer.2 := by
  cases hwait with
  | exact hfill => exact .exact (hfill.answered hanswer)
  | ready hfill hlt b2 hopened hnum =>
      refine .ready (hfill.answered hanswer) hlt b2 ?_ hnum
      obtain ⟨taken, supplies, hsame⟩ := hanswer.same
      rw [hsame]
      exact hopened

theorem Waiting.loose {answer : Option Nat × Expansion}
    (hwait : Waiting table old oldCount top blocknum work) (hanswer : Answered work answer)
    (hdadr : answer.1 = some dadr) : Loose table answer.2 blocknum dadr := by
  cases hwait with
  | exact hfill => exact hfill.loose hanswer hdadr
  | ready hfill => exact hfill.loose hanswer hdadr

theorem Loose.answered {answer : Option Nat × Expansion}
    (hloose : Loose table work blocknum dadr) (hanswer : Answered work answer) :
    Loose table answer.2 blocknum dadr := by
  obtain ⟨⟨taken, supplies, hsame⟩, htaken, -, -⟩ := hanswer
  have hclosed : answer.2.close.secondary = work.close.secondary := by
    rw [close_secondary, close_secondary, hsame]
  refine ⟨hloose.nonzero, htaken hloose.taken, fun slot => ?_⟩
  rw [hclosed, hsame]
  exact hloose.free slot

theorem Loose.close (hloose : Loose table work blocknum dadr) :
    Loose table work.close blocknum dadr := by
  refine ⟨hloose.nonzero, by rw [close_taken]; exact hloose.taken, fun slot => ?_⟩
  rw [close_basbl, close_close]
  exact hloose.free slot

/-- The secondary block that the next number goes to is made accessible. -/
def Accessible (table : TableShape) (old : TableBlocks) (oldCount top blocknum dadr : Nat)
    (result : Opened × Expansion) : Prop :=
  Filling table old oldCount top (blocknum + 1) blocknum
      { result.2 with opened := some result.1 } ∧
    result.1.blocknumsNum = blocknum / table.DADRS_PER_BLOCK ∧
    Loose table { result.2 with opened := some result.1 } blocknum dadr

theorem opens (readable : Nat → Bool) (hwait : Waiting table old oldCount top blocknum work)
    (hdir : work.basbl.diraddr = false) (hloose : Loose table work blocknum dadr) :
    Leads table old oldCount (Accessible table old oldCount top blocknum dadr)
      (work.openBlocknums readable (blocknum / table.DADRS_PER_BLOCK)) := by
  unfold openBlocknums
  split
  case h_1 b2 hfilter =>
    obtain ⟨hopened, hnum⟩ := Option.filter_eq_some_iff.mp hfilter
    have hnum := of_decide_eq_true hnum
    have hsame : ({ work with opened := some b2 } : Expansion) = work := by rw [← hopened]
    refine ⟨?_, hnum, by rw [hsame]; exact hloose⟩
    rw [hsame]
    cases hwait with
    | exact hfill => exact hfill.reopen hopened hnum
    | ready hfill => exact hfill
  case h_2 hfilter =>
    have hfill : Filling table old oldCount top blocknum blocknum work := by
      cases hwait with
      | exact hfill => exact hfill
      | ready hfill hlt b2 hopened hnum =>
          rw [hopened] at hfilter
          have hkeep := Option.filter_eq_none_iff.mp hfilter b2 rfl
          exact absurd (decide_eq_true hnum) hkeep
    have hclose := hfill.close
    have hloose := hloose.close
    have hopened : work.close.opened = none := close_opened
    have hdir : work.close.basbl.diraddr = false := by rw [close_basbl]; exact hdir
    generalize work.close = closed at hclose hloose hopened hdir
    dsimp only
    split
    case isTrue hroom =>
      split
      case isTrue hreadable =>
        refine ⟨hclose.openExisting hopened hdir hroom, rfl, ?_⟩
        refine ⟨hloose.nonzero, hloose.taken, fun slot => ?_⟩
        have hfree := hloose.free slot
        rw [close_secondary, hopened, Option.elim_none] at hfree
        rw [close_secondary, Option.elim_some, update_eq_self]
        exact hfree
      case isFalse => exact hclose.toAbandoned
    case isFalse hroom =>
      have hanswer : Answered closed closed.accessNewBlock := answered_access hclose.fresh
      have hfilled := hclose.answered hanswer
      have hfree := hloose.answered hanswer
      have hnew : ∀ dadr, closed.accessNewBlock.1 = some dadr →
          Loose table closed.accessNewBlock.2 blocknum dadr := fun _ => hclose.loose hanswer
      obtain ⟨⟨taken, supplies, hsame⟩, -, -, hfirst⟩ := hanswer
      split
      case h_1 work' heq =>
        rw [heq] at hfilled
        exact hfilled.toAbandoned
      case h_2 dadr' work' heq =>
        rw [heq] at hfilled hfree hnew hsame hfirst
        dsimp only at hsame
        have hbasbl : work'.basbl = closed.basbl := by rw [hsame]
        have hnone : work'.opened = none := by rw [hsame]; exact hopened
        have hother : dadr ≠ dadr' := by
          intro hdadr
          exact (hfirst dadr' rfl).2.1 (hdadr ▸ hloose.taken)
        obtain ⟨hresult, hrest⟩ := hfilled.openNew hnone (by rw [hbasbl]; exact hdir)
          (by rw [hbasbl]; exact hroom) (hnew dadr' rfl) rfl
        exact ⟨hresult, rfl, hrest dadr hfree hother⟩

theorem stores (readable : Nat → Bool) (hwait : Waiting table old oldCount top blocknum work)
    (hlt : blocknum < top) (hloose : Loose table work blocknum dadr) :
    Leads table old oldCount (Filling table old oldCount top (blocknum + 1) (blocknum + 1))
      (work.store table readable blocknum dadr) := by
  unfold store
  split
  case isTrue hdir =>
    cases hwait with
    | exact hfill => exact hfill.storeDirect hdir hlt hloose
    | ready hfill _ b2 hopened =>
        have hind := (hfill.opened b2 hopened).1
        rw [hdir] at hind
        cases hind
  case isFalse hdir =>
    have hopen := opens readable hwait (Bool.eq_false_iff.mpr hdir) hloose
    split
    case h_1 failure heq =>
      rw [heq] at hopen
      exact hopen
    case h_2 b2 work' heq =>
      rw [heq] at hopen
      obtain ⟨hfill, hnum, hloose⟩ := hopen
      exact hfill.storeOpened rfl hnum hloose

theorem allocates (readable : Nat → Bool) {count : Nat}
    (hwait : Waiting table old oldCount top blocknum work) (hcount : blocknum + count = top) :
    Leads table old oldCount (Filling table old oldCount top top top)
      (work.allocate table readable count blocknum) := by
  induction count generalizing blocknum work with
  | zero =>
      cases hwait with
      | exact hfill =>
          obtain rfl : blocknum = top := hcount
          exact hfill
      | ready _ hlt => omega
  | succ count ih =>
      have hanswer : Answered work (work.allocAndFormatDataBlock table blocknum) :=
        answered_format hwait.fresh
      have hnext := hwait.answered hanswer
      have hloose : ∀ dadr, (work.allocAndFormatDataBlock table blocknum).1 = some dadr →
          Loose table (work.allocAndFormatDataBlock table blocknum).2 blocknum dadr :=
        fun _ => hwait.loose hanswer
      unfold allocate
      split
      case h_1 work' heq =>
        rw [heq] at hnext
        exact hnext.abandoned
      case h_2 dadr work' heq =>
        rw [heq] at hnext hloose
        have hstore := stores readable hnext (by omega) (hloose dadr rfl)
        split
        case h_1 failure hfail =>
          rw [hfail] at hstore
          exact hstore
        case h_2 work'' hok =>
          rw [hok] at hstore
          exact ih (.exact hstore) (by omega)

theorem filling_start (hinv : BlocksInv table old) {supplies : List Supply}
    (hfresh : Fresh supplies old.taken)
    (hold : table.recordCount2blockCount old.basblock.recnum = oldCount)
    (hroom : old.basblock.diraddr = true → top ≤ table.MAX_BAS_ADDRS) :
    Filling table old oldCount top oldCount oldCount
      ⟨old.basblock, old.secondary, none, old.taken, supplies⟩ where
  written _ _ := rfl
  grows := subset_rfl
  shape := hold ▸ hinv.shape
  room := hroom
  once := hold ▸ hinv.once
  inUse := hold ▸ hinv.inUse
  kept _ _ := rfl
  list hdir := ⟨hdir, fun ind hind => ⟨hind, rfl⟩⟩
  opened b2 hb2 := by cases hb2
  fresh := hfresh
  started := Nat.le_refl _
  oldShape := hold ▸ hinv.shape

theorem reorganizes (hfill : Filling table old oldCount top blocknum blocknum work)
    (hdir : work.basbl.diraddr = true) {top' : Nat} (hlt : blocknum < top') :
    Leads table old oldCount (Waiting table old oldCount top' blocknum) work.reorganize := by
  have hanswer : Answered work work.accessNewBlock := answered_access hfill.fresh
  have hnext := hfill.answered hanswer
  have hloose : ∀ dadr, work.accessNewBlock.1 = some dadr →
      Loose table work.accessNewBlock.2 blocknum dadr := fun _ => hfill.loose hanswer
  have hbas := (hfill.shape.direct hdir).2
  have hdadrs := table.bas_lt_dadrs
  obtain ⟨⟨taken, supplies, hsame⟩, -, -, -⟩ := hanswer
  unfold reorganize
  split
  case h_1 work' heq =>
    rw [heq] at hnext
    exact hnext.toAbandoned
  case h_2 dadr work' heq =>
    rw [heq] at hnext hloose hsame
    dsimp only at hsame
    have hdir' : work'.basbl.diraddr = true := by rw [hsame]; exact hdir
    refine .ready (hnext.reorganized hdir' (hloose dadr rfl) top') hlt _ rfl ?_
    exact (Nat.div_eq_of_lt (by omega)).symm

end Expansion

theorem expands {table : TableShape} {old : TableBlocks} {service : Service}
    {oldCount newCount : Nat} (hinv : BlocksInv table old)
    (hfresh : Fresh service.supplies old.taken)
    (hold : table.recordCount2blockCount old.basblock.recnum = oldCount)
    (hle : oldCount ≤ newCount) :
    Expansion.Leads table old oldCount
      (Expansion.Filling table old oldCount newCount newCount newCount)
      (old.expandWork table service newCount) := by
  have hcount : oldCount + (newCount - oldCount) = newCount := by omega
  unfold TableBlocks.expandWork
  rw [hold]
  dsimp only
  split
  case isTrue hreorganize =>
    obtain ⟨hnew, hdir⟩ := hreorganize
    have hbas := (hinv.shape.direct hdir).2
    rw [hold] at hbas
    have hstart : Expansion.Filling table old oldCount oldCount oldCount oldCount _ :=
      Expansion.filling_start hinv hfresh hold fun _ => hbas
    have hmoved : Expansion.Leads table old oldCount
        (Expansion.Waiting table old oldCount newCount oldCount) _ :=
      Expansion.reorganizes hstart hdir (by omega)
    generalize Expansion.reorganize _ = moved at hmoved
    cases moved with
    | error failure => exact hmoved
    | ok work => exact Expansion.allocates service.readable hmoved hcount
  case isFalse hkeep =>
    have hroom : old.basblock.diraddr = true → newCount ≤ table.MAX_BAS_ADDRS := by
      intro hdir
      by_contra hnew
      exact hkeep ⟨by omega, hdir⟩
    have hstart : Expansion.Filling table old oldCount newCount oldCount oldCount _ :=
      Expansion.filling_start hinv hfresh hold hroom
    exact Expansion.allocates service.readable (.exact hstart) hcount

end Sql602.Table
