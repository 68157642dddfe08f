import Sql602.Table.RecordShrinking

namespace Sql602.Table

open Function Holding Run

/-! The blocks of a table over whole runs of growth and shrinking. -/

/-- Every record is in a data block, and no block is referenced twice. -/
structure Mapped (table : TableShape) (state : TableBlocks) : Prop where
  found : ∀ recnum colPage, recnum < state.copy.recnum → HasPage table colPage →
    ∃ place, accessColVal table state recnum colPage = some place
  once : Once id (state.refers table)

/-- The records that a call leaves do not move, the blocks that it drops are freed once, and
the lock that it takes is released. -/
structure CallRight (table : TableShape) (before after : TableBlocks) : Prop where
  stable : ∀ recnum colPage, recnum < before.copy.recnum → recnum < after.copy.recnum →
    HasPage table colPage →
    accessColVal table after recnum colPage = accessColVal table before recnum colPage
  freed : ∃ dropped, after.freed = dropped ++ before.freed ∧ dropped.Nodup ∧
    ∀ dadr, dadr ∈ dropped ↔ (∃ slot, before.refers table slot = some dadr) ∧
      ∀ slot, after.refers table slot ≠ some dadr
  entered : after.entered = before.entered

/-- A table grows when it is expanded, and the disk space hands out free blocks only. -/
def Asked (table : TableShape) (state : TableBlocks) : BlocksOp → Prop
  | .expand newRecordSpace service =>
      state.basblock.recnum ≤ newRecordSpace ∧ Unwrapped table newRecordSpace ∧
        Fresh service.supplies state.taken
  | .reduce newRecordSpace _ => Unwrapped table newRecordSpace

instance (table : TableShape) (state : TableBlocks) :
    ∀ op, Decidable (Asked table state op)
  | .expand _ _ => inferInstanceAs (Decidable (_ ∧ _))
  | .reduce newRecordSpace _ => inferInstanceAs (Decidable (Unwrapped table newRecordSpace))

/-- Growth does not get to the label `err1`, and a temporary table not to `err2` either. -/
def Finishes (table : TableShape) (service : Service) : Except (Exit × Expansion) Expansion → Prop
  | .ok _ => (table.tbnum = 0 → service.tables = true) ∧ service.copied = true
  | .error (.err2, _) => 0 ≤ table.tbnum
  | .error (.err1, _) => False

def Served (table : TableShape) (state : TableBlocks) (op : BlocksOp) : Prop :=
  Asked table state op ∧
    match op with
    | .expand newRecordSpace service =>
        table.recordCount2blockCount newRecordSpace ≤ table.MAX_BLOCK_COUNT_PER_TABLE →
        service.basblock = true → (0 ≤ table.tbnum → service.locked = true) →
        Finishes table service
          (state.expandWork table service (table.recordCount2blockCount newRecordSpace))
    | .reduce _ service =>
        service.basblock = true ∧ service.copied = true ∧ ∀ ind, service.readable ind = true

section Mapping

variable {table : TableShape} {state state' : TableBlocks}

theorem BlocksInv.place (hinv : BlocksInv table state) {recnum colPage : Nat}
    (hlt : recnum < state.basblock.recnum) (hpage : HasPage table colPage) :
    accessColVal table state recnum colPage =
      some (dataBlock table state.basblock state.secondary (blockNumber table recnum colPage),
        if table.multpage then 0
        else table.recordsize * (if table.multpage then 0 else recnum % table.rectopage),
        if table.multpage then 0 else recnum % table.rectopage) := by
  have hcount := blockNumber_lt hinv.unwrapped hlt hpage
  have hslot : state.refers table (.data (blockNumber table recnum colPage)) =
      some (dataBlock table state.basblock state.secondary
        (blockNumber table recnum colPage)) := if_pos hcount
  obtain ⟨hzero, -⟩ := hinv.inUse _ _ hslot
  have hsection : (if state.basblock.diraddr then blockNumber table recnum colPage
      else blockNumber table recnum colPage / table.DADRS_PER_BLOCK) <
        state.basblock.nbnums := by
    cases hdir : state.basblock.diraddr with
    | true =>
        rw [if_pos rfl, (hinv.shape.direct hdir).1]
        exact hcount
    | false =>
        rw [if_neg Bool.false_ne_true]
        exact hinv.shape.section_lt hdir hcount
  unfold accessColVal
  rw [hinv.copied]
  exact if_neg (not_or.mpr ⟨Nat.not_le_of_lt hsection, hzero⟩)

theorem BlocksInv.mapped (hinv : BlocksInv table state) : Mapped table state := by
  refine ⟨fun recnum colPage hlt hpage => ?_, hinv.once⟩
  rw [hinv.copied] at hlt
  exact ⟨_, hinv.place hlt hpage⟩

/-- Records keep their places when the data blocks do. -/
theorem stable_of_kept (hbefore : BlocksInv table state) (hafter : BlocksInv table state')
    (hkept : ∀ i, i < table.recordCount2blockCount state.basblock.recnum →
      i < table.recordCount2blockCount state'.basblock.recnum →
      dataBlock table state'.basblock state'.secondary i =
        dataBlock table state.basblock state.secondary i) {recnum colPage : Nat}
    (hlt : recnum < state.copy.recnum) (hlt' : recnum < state'.copy.recnum)
    (hpage : HasPage table colPage) :
    accessColVal table state' recnum colPage = accessColVal table state recnum colPage := by
  rw [hbefore.copied] at hlt
  rw [hafter.copied] at hlt'
  rw [hbefore.place hlt hpage, hafter.place hlt' hpage,
    hkept _ (blockNumber_lt hbefore.unwrapped hlt hpage)
      (blockNumber_lt hafter.unwrapped hlt' hpage)]

theorem BlocksInv.start : BlocksInv table TableBlocks.start := by
  have hcount : table.recordCount2blockCount TableBlocks.start.basblock.recnum = 0 := rfl
  have hnone : ∀ slot, TableBlocks.start.refers table slot = none := by
    intro slot
    cases slot with
    | secondary ind =>
        rw [TableBlocks.refers, referenced, if_neg]
        rintro ⟨-, hlt⟩
        exact Nat.not_lt_zero ind hlt
    | data i =>
        rw [TableBlocks.refers, referenced, if_neg]
        exact Nat.not_lt_zero i
  constructor
  case copied => rfl
  case unwrapped => exact fun _ => Nat.two_pow_pos 32
  case shape =>
    rw [hcount]
    exact ⟨fun _ => ⟨rfl, Nat.zero_le _⟩, fun hfalse => Bool.noConfusion hfalse⟩
  case once =>
    intro i j x y hi
    rw [hnone i] at hi
    cases hi
  case inUse =>
    intro slot dadr hslot
    rw [hnone slot] at hslot
    cases hslot

/-- The record count does not matter to what the lists refer to. -/
theorem referenced_recnum (basbl : BasTblBlock) (secondary : Nat → Nat → Nat)
    (count recnum : Nat) :
    referenced table { basbl with recnum := recnum } secondary count =
      referenced table basbl secondary count := by
  funext slot
  cases slot <;> rfl

/-- A call that changes nothing that the table refers to. -/
theorem BlocksInv.abandon (hinv : BlocksInv table state) {work : Expansion}
    (hwork : Expansion.Abandoned table state
      (table.recordCount2blockCount state.basblock.recnum) work) (entered : Int) :
    BlocksInv table
      { state with secondary := work.secondary, taken := work.taken, entered := entered } := by
  have hrefers : TableBlocks.refers
      { state with secondary := work.secondary, taken := work.taken, entered := entered } table =
        state.refers table := by
    funext slot
    cases slot with
    | secondary ind => rfl
    | data i =>
        simp only [TableBlocks.refers, referenced]
        split
        case isTrue hi => rw [hwork.written i hi]
        case isFalse => rfl
  constructor
  case copied => exact hinv.copied
  case unwrapped => exact hinv.unwrapped
  case shape => exact hinv.shape
  case once => rw [hrefers]; exact hinv.once
  case inUse =>
    intro slot dadr hslot
    rw [hrefers] at hslot
    obtain ⟨hzero, hin⟩ := hinv.inUse slot dadr hslot
    exact ⟨hzero, hwork.grows hin⟩

theorem BlocksInv.abandon_right (hinv : BlocksInv table state) {work : Expansion}
    (hwork : Expansion.Abandoned table state
      (table.recordCount2blockCount state.basblock.recnum) work) :
    CallRight table state { state with secondary := work.secondary, taken := work.taken } where
  stable _ _ hlt hlt' hpage :=
    stable_of_kept hinv (hinv.abandon hwork state.entered) (fun i hi _ => hwork.written i hi)
      hlt hlt' hpage
  freed := by
    refine ⟨[], rfl, List.nodup_nil, fun dadr => ⟨fun hmem => (by cases hmem), ?_⟩⟩
    rintro ⟨⟨slot, hslot⟩, hgone⟩
    refine absurd ?_ (hgone slot)
    cases slot with
    | secondary ind => exact hslot
    | data i =>
        simp only [TableBlocks.refers, referenced] at hslot ⊢
        split at hslot
        case isTrue hi =>
          rw [if_pos hi, hwork.written i hi]
          exact hslot
        case isFalse => cases hslot
  entered := rfl

/-- The table after an expansion that succeeds. -/
def TableBlocks.grown (state : TableBlocks) (work : Expansion) (newRecordSpace : Nat) :
    TableBlocks :=
  { state with
    basblock := { work.close.basbl with recnum := newRecordSpace }
    copy := { work.close.basbl with recnum := newRecordSpace }
    secondary := work.close.secondary
    taken := work.close.taken }

theorem BlocksInv.grown {newRecordSpace oldCount : Nat} {work : Expansion}
    (hunwrapped : Unwrapped table newRecordSpace)
    (hfill : Expansion.Filling table state oldCount (table.recordCount2blockCount newRecordSpace)
      (table.recordCount2blockCount newRecordSpace)
      (table.recordCount2blockCount newRecordSpace) work) :
    BlocksInv table (state.grown work newRecordSpace) := by
  have hrefers : (state.grown work newRecordSpace).refers table =
      referenced table work.basbl work.close.secondary
        (table.recordCount2blockCount newRecordSpace) := by
    simp only [TableBlocks.refers, TableBlocks.grown, referenced_recnum,
      Expansion.close_basbl]
  constructor
  case copied => rfl
  case unwrapped => exact hunwrapped
  case shape =>
    have hshape := hfill.shape
    simp only [TableBlocks.grown, Expansion.close_basbl]
    exact ⟨hshape.direct, hshape.indirect⟩
  case once => rw [hrefers]; exact hfill.once
  case inUse =>
    intro slot dadr hslot
    rw [hrefers] at hslot
    simp only [TableBlocks.grown, Expansion.close_taken]
    exact hfill.inUse slot dadr hslot

theorem grown_right {newRecordSpace : Nat} {work : Expansion} (hinv : BlocksInv table state)
    (hunwrapped : Unwrapped table newRecordSpace)
    (hfill : Expansion.Filling table state
      (table.recordCount2blockCount state.basblock.recnum)
      (table.recordCount2blockCount newRecordSpace)
      (table.recordCount2blockCount newRecordSpace)
      (table.recordCount2blockCount newRecordSpace) work) :
    CallRight table state (state.grown work newRecordSpace) := by
  have hkept : ∀ i, i < table.recordCount2blockCount state.basblock.recnum →
      dataBlock table (state.grown work newRecordSpace).basblock
          (state.grown work newRecordSpace).secondary i =
        dataBlock table state.basblock state.secondary i := by
    intro i hi
    rw [← hfill.kept i hi]
    simp only [TableBlocks.grown, Expansion.close_basbl, dataBlock]
  constructor
  case stable =>
    intro recnum colPage hlt hlt' hpage
    exact stable_of_kept hinv (BlocksInv.grown hunwrapped hfill) (fun i hi _ => hkept i hi)
      hlt hlt' hpage
  case freed =>
    refine ⟨[], rfl, List.nodup_nil, fun dadr => ⟨fun hmem => (by cases hmem), ?_⟩⟩
    rintro ⟨⟨slot, hslot⟩, hgone⟩
    refine absurd ?_ (hgone slot)
    cases slot with
    | secondary ind =>
        simp only [TableBlocks.refers, referenced] at hslot ⊢
        split at hslot
        case isTrue hind =>
          obtain ⟨hdir, hlist⟩ := hfill.list hind.1
          obtain ⟨hlt, hsame⟩ := hlist ind hind.2
          simp only [TableBlocks.grown, Expansion.close_basbl]
          rw [if_pos ⟨hdir, hlt⟩, hsame]
          exact hslot
        case isFalse => cases hslot
    | data i =>
        simp only [TableBlocks.refers, referenced] at hslot ⊢
        split at hslot
        case isTrue hi =>
          have hcount : i < table.recordCount2blockCount
              (state.grown work newRecordSpace).basblock.recnum :=
            Nat.lt_of_lt_of_le hi hfill.started
          rw [if_pos hcount, hkept i hi]
          exact hslot
        case isFalse => cases hslot
  case entered => rfl

theorem leaveDamaged_permanent (hperm : 0 ≤ table.tbnum) (service : Service) (exit : Exit)
    (work : Expansion) :
    state.leaveDamaged table service (exit, work) =
      { state with
        secondary := work.secondary
        taken := work.taken
        entered := if exit = .err2 then state.entered - 1 else state.entered } := by
  simp only [TableBlocks.leaveDamaged, if_pos hperm]
  cases exit with
  | err1 => rfl
  | err2 => cases work.opened <;> rfl

theorem expand_right {newRecordSpace : Nat} {service : Service} (hinv : BlocksInv table state)
    (hserved : Served table state (.expand newRecordSpace service)) :
    BlocksInv table (state.expandTableBlocks table newRecordSpace service).2 ∧
      CallRight table state (state.expandTableBlocks table newRecordSpace service).2 := by
  obtain ⟨⟨hgrows, hunwrapped, hfresh⟩, hfinishes⟩ := hserved
  have hnothing : Expansion.Abandoned table state
      (table.recordCount2blockCount state.basblock.recnum)
      ⟨state.basblock, state.secondary, none, state.taken, []⟩ :=
    ⟨fun _ _ => rfl, subset_rfl⟩
  have hsame : BlocksInv table state ∧ CallRight table state state :=
    ⟨hinv, hinv.abandon_right hnothing⟩
  have hexpands : Expansion.Leads table state _ _ (state.expandWork table service _) :=
    expands hinv hfresh rfl (blockCount_mono hunwrapped hgrows)
  unfold TableBlocks.expandTableBlocks
  dsimp only
  split
  case isTrue => exact hsame
  case isFalse hearly =>
    obtain ⟨hfull, hbasblock⟩ := not_or.mp hearly
    split
    case isTrue => exact hsame
    case isFalse hlocked =>
      have hfinish := hfinishes (Nat.le_of_not_lt hfull) (of_not_not hbasblock)
        fun hperm => of_not_not (not_and.mp hlocked hperm)
      have hwork : ∀ entered : Int,
          TableBlocks.expandWork { state with entered := entered } table service
            (table.recordCount2blockCount newRecordSpace) =
          state.expandWork table service (table.recordCount2blockCount newRecordSpace) :=
        fun _ => rfl
      cases hresult : state.expandWork table service
          (table.recordCount2blockCount newRecordSpace) with
      | error failure =>
          obtain ⟨exit, work⟩ := failure
          rw [hresult] at hexpands hfinish
          cases exit with
          | err1 => exact hfinish.elim
          | err2 =>
              have hperm : 0 ≤ table.tbnum := hfinish
              simp only [if_pos hperm, hwork, hresult, leaveDamaged_permanent hperm, if_true,
                Int.add_sub_cancel]
              exact ⟨hinv.abandon hexpands state.entered, hinv.abandon_right hexpands⟩
      | ok work =>
          rw [hresult] at hexpands hfinish
          obtain ⟨htables, hcopied⟩ := hfinish
          have hok : ¬ (table.tbnum = 0 ∧ ¬ service.tables ∨ ¬ service.copied) := by
            rintro (⟨hzero, hnot⟩ | hnot)
            · exact hnot (htables hzero)
            · exact hnot hcopied
          have hgrown := BlocksInv.grown hunwrapped hexpands
          have hright := grown_right hinv hunwrapped hexpands
          cases Int.decLe 0 table.tbnum with
          | isTrue hperm =>
              simp only [if_pos hperm, hwork, hresult, if_neg hok, TableBlocks.unlockAllocation,
                Int.add_sub_cancel]
              exact ⟨hgrown, hright⟩
          | isFalse htemp =>
              simp only [if_neg htemp, hresult, if_neg hok]
              exact ⟨hgrown, hright⟩

/-- What shrinking leaves: the slots before the new end keep their blocks, and the blocks of
the others are freed. -/
structure Shrunk (table : TableShape) (state after : TableBlocks) (newCount : Nat)
    (dropped : List Nat) : Prop where
  drops : TableBlocks.Drops state after dropped
  collected : Collected (state.refers table) (newCount ≤ TableBlocks.position table ·) dropped
  shape : ListShape table after.basblock newCount
  kept : ∀ slot, referenced table after.basblock after.secondary newCount slot =
    if TableBlocks.position table slot < newCount then state.refers table slot else none

theorem dropBlocks_direct (hinv : BlocksInv table state) (hdir : state.basblock.diraddr = true)
    {newCount : Nat} (hnew : newCount < table.recordCount2blockCount state.basblock.recnum)
    (readable : Nat → Bool) :
    ∃ dropped, Shrunk table state (state.dropBlocks table readable newCount
      (table.recordCount2blockCount state.basblock.recnum)) newCount dropped := by
  obtain ⟨hnbnums, hbas⟩ := hinv.shape.direct hdir
  generalize hold : table.recordCount2blockCount state.basblock.recnum = oldCount at *
  obtain ⟨hdrops, hsecondary, hbasbl⟩ :=
    TableBlocks.dropDirect_spec (oldCount - newCount) newCount state
  have hrefers : ∀ i, state.refers table (.data i) =
      if i < oldCount then some (state.basblock.databl i) else none := by
    intro i
    rw [TableBlocks.refers, hold, referenced, Expansion.dataBlock_direct hdir]
  have hnosecondary : ∀ ind, state.refers table (.secondary ind) = none := by
    intro ind
    rw [TableBlocks.refers, referenced, hdir, if_neg]
    exact fun hand => Bool.noConfusion hand.1
  refine ⟨((List.range' newCount (oldCount - newCount)).map state.basblock.databl).reverse,
    ?_, ?_, ?_, ?_⟩
  case refine_1 =>
    rw [TableBlocks.dropBlocks, if_pos hdir]
    exact hdrops.pages
  case refine_2 =>
    refine ⟨((List.range' newCount (oldCount - newCount)).map Slot.data).reverse, ?_,
      fun slot => ?_, ?_⟩
    · rw [List.nodup_reverse]
      exact List.Nodup.map (fun _ _ => Slot.data.inj) List.nodup_range'
    · rw [List.mem_reverse, List.mem_map]
      constructor
      · rintro ⟨i, hi, rfl⟩
        obtain ⟨hlow, hhigh⟩ := List.mem_range'_1.mp hi
        refine ⟨hlow, ?_⟩
        rw [hrefers, if_pos (by omega)]
        exact Option.some_ne_none _
      · rintro ⟨hlow, hsome⟩
        cases slot with
        | secondary ind => exact absurd (hnosecondary ind) hsome
        | data i =>
            refine ⟨i, List.mem_range'_1.mpr ⟨hlow, ?_⟩, rfl⟩
            by_contra hout
            apply hsome
            rw [hrefers, if_neg (by omega)]
    · rw [List.map_reverse, List.map_reverse, List.map_map, List.map_map]
      congr 1
      refine List.map_congr_left fun i hi => ?_
      obtain ⟨hlow, hhigh⟩ := List.mem_range'_1.mp hi
      rw [Function.comp_apply, Function.comp_apply, hrefers, if_pos (by omega)]
  case refine_3 =>
    rw [TableBlocks.dropBlocks, if_pos hdir]
    dsimp only
    rw [hbasbl]
    constructor
    case direct => exact fun _ => ⟨rfl, by omega⟩
    case indirect =>
      intro hfalse
      dsimp only at hfalse
      rw [hdir] at hfalse
      cases hfalse
  case refine_4 =>
    intro slot
    rw [TableBlocks.dropBlocks, if_pos hdir]
    dsimp only
    rw [hbasbl]
    cases slot with
    | secondary ind =>
        rw [hnosecondary, ite_self, referenced, if_neg]
        rintro ⟨hfalse, -⟩
        dsimp only at hfalse
        rw [hdir] at hfalse
        cases hfalse
    | data i =>
        rw [hrefers, referenced]
        cases Nat.decLt (TableBlocks.position table (.data i)) newCount with
        | isTrue hlow =>
            have hi : i < newCount := hlow
            rw [if_pos hi, if_pos hlow, if_pos (by omega)]
            have hkeep : ¬ (newCount ≤ i ∧ i < newCount + (oldCount - newCount)) := by omega
            refine congrArg some ((Expansion.dataBlock_direct (by exact hdir)).trans ?_)
            exact if_neg hkeep
        | isFalse hhigh =>
            have hi : ¬ i < newCount := hhigh
            rw [if_neg hi, if_neg hhigh]

theorem dropBlocks_indirect (hinv : BlocksInv table state)
    (hdir : state.basblock.diraddr = false) {newCount : Nat}
    (hnew : newCount < table.recordCount2blockCount state.basblock.recnum)
    {readable : Nat → Bool} (hreadable : ∀ ind, readable ind = true) :
    ∃ dropped, Shrunk table state (state.dropBlocks table readable newCount
      (table.recordCount2blockCount state.basblock.recnum)) newCount dropped := by
  have hpos := table.dadrs_pos
  have hdivmod : newCount / table.DADRS_PER_BLOCK * table.DADRS_PER_BLOCK +
      newCount % table.DADRS_PER_BLOCK = newCount := Nat.div_add_mod' _ _
  have hsections := hinv.shape.indirect hdir
  have hind : newCount / table.DADRS_PER_BLOCK < state.basblock.nbnums :=
    (hsections _).mpr (by omega)
  obtain ⟨dropped, databl, hdrops, hcollected, hbasbl, hkept, hrows⟩ :=
    @TableBlocks.dropSecondary_spec table state.basblock state.secondary _ hdir hinv.shape
      hinv.once readable hreadable _ _ (newCount % table.DADRS_PER_BLOCK)
      (table.recordCount2blockCount state.basblock.recnum - newCount) state
      (Nat.add_sub_of_le (Nat.le_of_lt hind)) (Nat.mod_lt _ hpos)
      (fun _ => ⟨by omega, by rw [hdivmod]⟩) (fun _ _ => rfl) (fun _ _ _ => rfl)
  rw [hdivmod] at hcollected hkept hrows
  have hafter : state.dropBlocks table readable newCount
      (table.recordCount2blockCount state.basblock.recnum) =
      let after := TableBlocks.dropSecondary table readable
        (state.basblock.nbnums - newCount / table.DADRS_PER_BLOCK)
        (newCount / table.DADRS_PER_BLOCK) (newCount % table.DADRS_PER_BLOCK)
        (table.recordCount2blockCount state.basblock.recnum - newCount) state
      { after with basblock :=
        if newCount = 0 then { after.basblock with nbnums := 0, diraddr := true }
        else { after.basblock with nbnums := (newCount - 1) / table.DADRS_PER_BLOCK + 1 } } := by
    rw [TableBlocks.dropBlocks, if_neg (by rw [hdir]; exact Bool.false_ne_true)]
  rw [hafter]
  generalize TableBlocks.dropSecondary table readable
    (state.basblock.nbnums - newCount / table.DADRS_PER_BLOCK)
    (newCount / table.DADRS_PER_BLOCK) (newCount % table.DADRS_PER_BLOCK)
    (table.recordCount2blockCount state.basblock.recnum - newCount) state = after at *
  dsimp only
  refine ⟨dropped, ?_⟩
  cases Nat.eq_zero_or_pos newCount with
  | inl hzero =>
      rw [if_pos hzero]
      refine ⟨hdrops.pages, hcollected, ?_, fun slot => ?_⟩
      · exact ⟨fun _ => ⟨hzero.symm, by omega⟩, fun hfalse => Bool.noConfusion hfalse⟩
      · rw [if_neg (by omega)]
        cases slot with
        | secondary ind =>
            rw [referenced, if_neg]
            exact fun hand => Bool.noConfusion hand.1
        | data i =>
            rw [referenced, if_neg]
            omega
  | inr hsome =>
      rw [if_neg (Nat.ne_of_gt hsome), hbasbl]
      have hshape : ∀ ind, ind < (newCount - 1) / table.DADRS_PER_BLOCK + 1 ↔
          ind * table.DADRS_PER_BLOCK < newCount := by
        intro ind
        rw [Nat.lt_succ_iff, Nat.le_div_iff_mul_le hpos]
        omega
      refine ⟨hdrops.pages, hcollected, ?_, fun slot => ?_⟩
      · constructor
        case direct =>
          intro htrue
          dsimp only at htrue
          rw [hdir] at htrue
          cases htrue
        case indirect => exact fun _ => hshape
      · cases slot with
        | secondary ind =>
            rw [referenced, TableBlocks.refers, referenced]
            cases Nat.decLt (TableBlocks.position table (.secondary ind)) newCount with
            | isTrue hlow =>
                have hold := (hsections ind).mpr (Nat.lt_trans hlow hnew)
                rw [if_pos ⟨hdir, (hshape ind).mpr hlow⟩, if_pos hlow, if_pos ⟨hdir, hold⟩]
                exact congrArg some (hkept ind hlow)
            | isFalse hhigh =>
                rw [if_neg (fun hand => hhigh ((hshape ind).mp hand.2)), if_neg hhigh]
        | data i =>
            rw [referenced, TableBlocks.refers, referenced]
            cases Nat.decLt (TableBlocks.position table (.data i)) newCount with
            | isTrue hlow =>
                have hi : i < newCount := hlow
                have hdiv : i / table.DADRS_PER_BLOCK * table.DADRS_PER_BLOCK +
                    i % table.DADRS_PER_BLOCK = i := Nat.div_add_mod' _ _
                have hsection := hinv.shape.section_lt hdir (Nat.lt_trans hi hnew)
                have hrow := hrows (i / table.DADRS_PER_BLOCK) (i % table.DADRS_PER_BLOCK)
                  hsection (by omega)
                have hdatabl := hkept (i / table.DADRS_PER_BLOCK) (by omega)
                rw [if_pos hi, if_pos hlow, if_pos (Nat.lt_trans hi hnew),
                  Expansion.dataBlock_indirect hdir, ← hrow]
                refine congrArg some ((Expansion.dataBlock_indirect (by exact hdir)).trans ?_)
                exact congrArg (fun dadr => after.secondary dadr _) hdatabl
            | isFalse hhigh =>
                have hi : ¬ i < newCount := hhigh
                rw [if_neg hi, if_neg hhigh]

theorem Shrunk.kept_some {after : TableBlocks} {newCount dadr : Nat} {dropped : List Nat}
    {slot : Slot} (hshrunk : Shrunk table state after newCount dropped)
    (hslot : referenced table after.basblock after.secondary newCount slot = some dadr) :
    TableBlocks.position table slot < newCount ∧ state.refers table slot = some dadr := by
  rw [hshrunk.kept] at hslot
  split at hslot
  case isTrue hlow => exact ⟨hlow, hslot⟩
  case isFalse => cases hslot

/-- The table after shrinking. -/
def TableBlocks.reduced (after : TableBlocks) (recnum : Nat) : TableBlocks :=
  { after with
    basblock := { after.basblock with recnum := recnum }
    copy := { after.basblock with recnum := recnum } }

theorem BlocksInv.reduced {after : TableBlocks} {newCount recnum : Nat} {dropped : List Nat}
    (hinv : BlocksInv table state) (hshrunk : Shrunk table state after newCount dropped)
    (hcount : table.recordCount2blockCount recnum = newCount)
    (hunwrapped : Unwrapped table recnum) : BlocksInv table (after.reduced recnum) := by
  have hrefers : (after.reduced recnum).refers table =
      referenced table after.basblock after.secondary newCount := by
    simp only [TableBlocks.refers, TableBlocks.reduced, referenced_recnum, hcount]
  constructor
  case copied => rfl
  case unwrapped => exact hunwrapped
  case shape =>
    simp only [TableBlocks.reduced, hcount]
    exact ⟨hshrunk.shape.direct, hshrunk.shape.indirect⟩
  case once =>
    rw [hrefers]
    exact hinv.once.restrict fun slot dadr hslot => (hshrunk.kept_some hslot).2
  case inUse =>
    intro slot dadr hslot
    rw [hrefers] at hslot
    obtain ⟨hlow, hslot⟩ := hshrunk.kept_some hslot
    obtain ⟨hzero, hin⟩ := hinv.inUse slot dadr hslot
    refine ⟨hzero, (hshrunk.drops.taken dadr).mpr ⟨hin, fun hmem => ?_⟩⟩
    obtain ⟨other, hhigh, hother⟩ := hshrunk.collected.mem.mp hmem
    obtain rfl := hinv.once hslot hother rfl
    omega

theorem reduced_right {after : TableBlocks} {newCount recnum : Nat} {dropped : List Nat}
    (hinv : BlocksInv table state) (hshrunk : Shrunk table state after newCount dropped)
    (hcount : table.recordCount2blockCount recnum = newCount)
    (hunwrapped : Unwrapped table recnum) : CallRight table state (after.reduced recnum) := by
  have hrefers : (after.reduced recnum).refers table =
      referenced table after.basblock after.secondary newCount := by
    simp only [TableBlocks.refers, TableBlocks.reduced, referenced_recnum, hcount]
  constructor
  case stable =>
    intro record colPage hlt hlt' hpage
    refine stable_of_kept hinv (hinv.reduced hshrunk hcount hunwrapped) ?_ hlt hlt' hpage
    intro i hi hi'
    have hcount' : table.recordCount2blockCount (after.reduced recnum).basblock.recnum =
        newCount := hcount
    rw [hcount'] at hi'
    have hslot : referenced table after.basblock after.secondary newCount (.data i) =
        some (dataBlock table after.basblock after.secondary i) := if_pos hi'
    have hold := (hshrunk.kept_some hslot).2
    rw [TableBlocks.refers, referenced, if_pos hi] at hold
    exact (Option.some.inj hold).symm
  case freed =>
    refine ⟨dropped, hshrunk.drops.freed, hshrunk.collected.nodup hinv.once, fun dadr => ?_⟩
    rw [hrefers, hshrunk.collected.mem]
    constructor
    · rintro ⟨slot, hhigh, hslot⟩
      refine ⟨⟨slot, hslot⟩, fun other hother => ?_⟩
      obtain ⟨hlow, hother⟩ := hshrunk.kept_some hother
      obtain rfl := hinv.once hslot hother rfl
      omega
    · rintro ⟨⟨slot, hslot⟩, hgone⟩
      refine ⟨slot, ?_, hslot⟩
      by_contra hlow
      apply hgone slot
      rw [hshrunk.kept, if_pos (by omega)]
      exact hslot
  case entered => exact hshrunk.drops.entered

theorem TableBlocks.copy_self (state : TableBlocks) (hcopy : state.copy = state.basblock) :
    { state with copy := state.basblock } = state := by
  cases state
  cases hcopy
  rfl

theorem reduce_right {newRecordSpace : Nat} {service : Service} (hinv : BlocksInv table state)
    (hserved : Served table state (.reduce newRecordSpace service)) :
    BlocksInv table (state.reduceTableBlocks table newRecordSpace service).2 ∧
      CallRight table state (state.reduceTableBlocks table newRecordSpace service).2 := by
  obtain ⟨hunwrapped, hbasblock, hcopied, hreadable⟩ := hserved
  simp only [TableBlocks.reduceTableBlocks, TableBlocks.dropBasicTableAllocation, hbasblock,
    hcopied, not_true_eq_false, if_false, and_self, if_true]
  split
  case isTrue hless =>
    obtain ⟨dropped, hshrunk⟩ : ∃ dropped, Shrunk table state
        (state.dropBlocks table service.readable (table.recordCount2blockCount newRecordSpace)
          (table.recordCount2blockCount state.basblock.recnum))
        (table.recordCount2blockCount newRecordSpace) dropped := by
      cases hdir : state.basblock.diraddr with
      | true => exact dropBlocks_direct hinv hdir hless _
      | false => exact dropBlocks_indirect hinv hdir hless hreadable
    have hcount := blockCount_left hunwrapped
    have hleft := unwrapped_left hunwrapped
    exact ⟨hinv.reduced hshrunk hcount hleft,
      reduced_right hinv hshrunk hcount hleft⟩
  case isFalse =>
    have hcopy := state.copy_self hinv.copied
    have hnothing : Expansion.Abandoned table state
        (table.recordCount2blockCount state.basblock.recnum)
        ⟨state.basblock, state.secondary, none, state.taken, []⟩ :=
      ⟨fun _ _ => rfl, subset_rfl⟩
    rw [hcopy]
    exact ⟨hinv, hinv.abandon_right hnothing⟩

theorem blocksStep_right {op : BlocksOp} (hinv : BlocksInv table state)
    (hserved : Served table state op) :
    BlocksInv table (blocksStep table state op) ∧
      CallRight table state (blocksStep table state op) := by
  cases op with
  | expand newRecordSpace service => exact expand_right hinv hserved
  | reduce newRecordSpace service => exact reduce_right hinv hserved

theorem BlocksInv.run {ops : List BlocksOp} (hinv : BlocksInv table state)
    (hmeets : Meets (blocksStep table) (Served table) state ops) :
    BlocksInv table (run (blocksStep table) state ops) := by
  have halways : Always (blocksStep table) (BlocksInv table) state ops :=
    always_of_invariant (BlocksInv table) (fun _ => id)
      (fun _ _ hinv hserved => (blocksStep_right hinv hserved).1) hinv hmeets
  exact halways.last

end Mapping

/-- Every call of a run is right when growth never leaves through `err1`, nor through `err2`
when the table is temporary, and shrinking can read and copy what it needs. -/
theorem recordBlocks_right (table : TableShape) (ops : List BlocksOp) (op : BlocksOp)
    (hmeets : Meets (blocksStep table) (Served table) TableBlocks.start (ops ++ [op])) :
    Mapped table (run (blocksStep table) TableBlocks.start (ops ++ [op])) ∧
      CallRight table (run (blocksStep table) TableBlocks.start ops)
        (run (blocksStep table) TableBlocks.start (ops ++ [op])) := by
  obtain ⟨hfirst, hserved, -⟩ := hmeets.split
  have hinv := BlocksInv.run BlocksInv.start hfirst
  obtain ⟨hnext, hright⟩ := blocksStep_right hinv hserved
  rw [run_append, run_cons, run_nil]
  exact ⟨hnext.mapped, hright⟩

/-- The basic block has room for one data block only. -/
def smallTable : TableShape := ⟨116, false, 10, 9, 1, by decide, by decide⟩

def goodService (supplies : List Supply) : Service :=
  ⟨true, true, supplies, fun _ => true, true, true, ⟨true, 0, 0, fun _ => 0⟩, fun _ => 0⟩

theorem recordBlocks_right_reduced :
    Mapped smallTable (run (blocksStep smallTable) TableBlocks.start
        ([.expand 15 (goodService [.block 7, .block 8, .block 9])] ++
          [.reduce 5 (goodService [])])) ∧
      CallRight smallTable
        (run (blocksStep smallTable) TableBlocks.start
          [.expand 15 (goodService [.block 7, .block 8, .block 9])])
        (run (blocksStep smallTable) TableBlocks.start
          ([.expand 15 (goodService [.block 7, .block 8, .block 9])] ++
            [.reduce 5 (goodService [])])) := by
  apply recordBlocks_right
  refine ⟨⟨by decide, fun _ _ _ => ⟨fun _ => rfl, rfl⟩⟩, ?_, trivial⟩
  exact ⟨by decide, rfl, rfl, fun _ => rfl⟩

/-- When there is no memory for the copy of the basic block, the allocation remains locked. -/
def lackOfMemory : Service := { goodService [.block 7] with copied := false }

theorem not_forall_recordBlocks_right :
    ¬ ∀ (table : TableShape) (ops : List BlocksOp) (op : BlocksOp),
      Meets (blocksStep table) (Asked table) TableBlocks.start (ops ++ [op]) →
      Mapped table (run (blocksStep table) TableBlocks.start (ops ++ [op])) ∧
        CallRight table (run (blocksStep table) TableBlocks.start ops)
          (run (blocksStep table) TableBlocks.start (ops ++ [op])) := by
  intro hall
  have hasked : Meets (blocksStep smallTable) (Asked smallTable) TableBlocks.start
      ([] ++ [.expand 1 lackOfMemory]) := by decide
  have hentered := (hall smallTable [] (.expand 1 lackOfMemory) hasked).2.entered
  revert hentered
  decide

end Sql602.Table
