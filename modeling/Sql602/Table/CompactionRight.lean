import Sql602.Table.Compaction

namespace Sql602.Compaction

/-! Which tables are compacted right. -/

variable {tbdf : TableDescr} {dest src : Record} {records : List Record}

/-- The first `n` bytes of one record, and the others of another one. -/
def blend (n : Nat) (dest src : Record) : Record := src.take n ++ dest.drop n

theorem copyPart_blend {pos count : Nat} (hpos : pos ≤ src.length) :
    copyPart (blend pos dest src) src pos count = blend (pos + count) dest src := by
  have htake : (src.take pos).length = pos := List.length_take_of_le hpos
  have hdrop : (blend pos dest src).drop (pos + count) = dest.drop (pos + count) := by
    rw [blend, List.drop_append, htake, Nat.add_sub_cancel_left, List.drop_drop,
      List.drop_eq_nil_of_le (by rw [htake]; omega), List.nil_append]
  rw [copyPart, hdrop, blend, List.take_left' htake, blend, List.take_add, List.append_assoc]

theorem copyBlocks_blend {page pagenum fuel : Nat} (hpage : pagenum < page)
    (hfuel : page ≤ pagenum + fuel) (hsrc : page * BLOCKSIZE ≤ src.length) :
    copyBlocks (page + 1) fuel pagenum (blend (pagenum * BLOCKSIZE) dest src) src =
      (blend (page * BLOCKSIZE) dest src, page) := by
  induction fuel generalizing pagenum with
  | zero => omega
  | succ fuel ih =>
      have hpos : pagenum * BLOCKSIZE ≤ src.length :=
        Nat.le_trans (Nat.mul_le_mul_right _ (Nat.le_of_lt hpage)) hsrc
      have hnext : pagenum * BLOCKSIZE + BLOCKSIZE = (pagenum + 1) * BLOCKSIZE :=
        (Nat.succ_mul _ _).symm
      rw [copyBlocks, copyPart_blend hpos, hnext]
      split
      · exact ih (by omega) (by omega)
      · rw [show pagenum + 1 = page by omega]

theorem recordsize_mod : tbdf.recordsize % BLOCKSIZE = tbdf.offset % BLOCKSIZE := by
  rw [TableDescr.recordsize, Nat.mul_add_mod]

/-- All blocks but the last one are copied, and the rest of the record size. -/
theorem moveRecord_eq (hsrc : src.length = tbdf.recordsize) : moveRecord tbdf dest src =
    blend (tbdf.page * BLOCKSIZE + tbdf.offset % BLOCKSIZE) dest src := by
  have hsize : tbdf.page * BLOCKSIZE ≤ src.length := by
    rw [hsrc, TableDescr.recordsize, Nat.mul_comm]
    exact Nat.le_add_right _ _
  have hnone : blend 0 dest src = dest := by
    rw [blend, List.take_zero, List.nil_append, List.drop_zero]
  rw [moveRecord, recordsize_mod, TableDescr.multpage]
  cases Nat.eq_zero_or_pos tbdf.page with
  | inl hzero =>
      rw [if_neg (by rw [hzero]; decide)]
      dsimp only
      have hcopy := @copyPart_blend dest src (0 * BLOCKSIZE) (tbdf.offset % BLOCKSIZE) (by omega)
      rw [Nat.zero_mul, hnone] at hcopy
      rw [hzero, Nat.zero_mul, hcopy]
  | inr hpos =>
      have hrectopage : tbdf.rectopage = tbdf.page + 1 := if_neg (Nat.ne_of_gt hpos)
      have hblocks := @copyBlocks_blend dest src tbdf.page 0 (tbdf.page + 1) hpos (by omega) hsize
      rw [Nat.zero_mul, hnone] at hblocks
      rw [if_pos (decide_eq_true hpos), hrectopage, hblocks]
      exact copyPart_blend hsize

/-- What is left of a move when the rest of the record size is nothing. -/
def lastBlockKept (tbdf : TableDescr) (dest src : Record) : Record :=
  blend (BLOCKSIZE * tbdf.page) dest src

theorem moveRecord_whole (hdest : dest.length = tbdf.recordsize)
    (hsrc : src.length = tbdf.recordsize) (hrest : tbdf.recordsize % BLOCKSIZE ≠ 0) :
    moveRecord tbdf dest src = src := by
  have hoffset : tbdf.offset % BLOCKSIZE = tbdf.offset := by
    rw [recordsize_mod] at hrest
    apply Nat.mod_eq_of_lt
    apply Nat.lt_of_le_of_ne tbdf.offset_le
    intro heq
    rw [heq, Nat.mod_self] at hrest
    exact hrest rfl
  have hsize : tbdf.page * BLOCKSIZE + tbdf.offset = tbdf.recordsize := by
    rw [TableDescr.recordsize, Nat.mul_comm]
  rw [moveRecord_eq hsrc, hoffset, hsize, blend, ← hsrc, List.take_length, hsrc, ← hdest,
    List.drop_length, List.append_nil]

theorem moveRecord_cut (hsrc : src.length = tbdf.recordsize)
    (hrest : tbdf.recordsize % BLOCKSIZE = 0) :
    moveRecord tbdf dest src = lastBlockKept tbdf dest src := by
  rw [moveRecord_eq hsrc, ← recordsize_mod, hrest, Nat.add_zero, Nat.mul_comm, lastBlockKept]

theorem zipWith_eq_of_mem {α β γ : Type} {f g : α → β → γ} {first : List α} {last : List β}
    (h : ∀ a ∈ first, ∀ b ∈ last, f a b = g a b) :
    List.zipWith f first last = List.zipWith g first last := by
  induction first generalizing last with
  | nil => rfl
  | cons a first ih =>
      cases last with
      | nil => rfl
      | cons b last =>
          rw [List.zipWith_cons_cons, List.zipWith_cons_cons,
            h a List.mem_cons_self b List.mem_cons_self, ih]
          intro a ha b hb
          exact h a (List.mem_cons_of_mem _ ha) b (List.mem_cons_of_mem _ hb)

theorem zipWith_second {α β : Type} {first : List α} {last : List β}
    (hlength : first.length = last.length) : List.zipWith (fun _ b => b) first last = last := by
  induction first generalizing last with
  | nil => exact (List.length_eq_zero_iff.mp hlength.symm).symm
  | cons a first ih =>
      cases last with
      | nil => cases hlength
      | cons b last => rw [List.zipWith_cons_cons, ih (Nat.succ.inj hlength)]

/-- The last blocks are copied, or those in the gaps hold the same data in some order. -/
def MovesRight (tbdf : TableDescr) (records : List Record) : Prop :=
  tbdf.recordsize % BLOCKSIZE ≠ 0 ∨
    (List.zipWith (lastBlockKept tbdf) (Closing.gaps valid records)
      (Closing.movers valid records)).Perm (Closing.movers valid records)

theorem movesRight_iff (hrecords : TableRecords tbdf records) :
    MovesRight tbdf records ↔
      (List.zipWith (moveRecord tbdf) (Closing.gaps valid records)
        (Closing.movers valid records)).Perm (Closing.movers valid records) := by
  have hgaps : ∀ record ∈ Closing.gaps valid records, record.length = tbdf.recordsize :=
    fun record h => hrecords.sized record (List.mem_of_mem_take (List.mem_of_mem_filter h))
  have hmovers : ∀ record ∈ Closing.movers valid records, record.length = tbdf.recordsize :=
    fun record h => hrecords.sized record (List.mem_of_mem_drop
      (List.mem_of_mem_filter (List.mem_reverse.mp h)))
  by_cases hrest : tbdf.recordsize % BLOCKSIZE = 0
  · rw [MovesRight, or_iff_right (not_not.mpr hrest),
      zipWith_eq_of_mem fun dest _ src hsrc => moveRecord_cut (hmovers src hsrc) hrest]
  · apply iff_of_true (Or.inl hrest)
    rw [zipWith_eq_of_mem fun dest hdest src hsrc =>
      moveRecord_whole (hgaps dest hdest) (hmovers src hsrc) hrest,
      zipWith_second Closing.gaps_length]

/-- The valid records are in the first places of no more blocks than they need, and the data
of every deleted record are released once. -/
structure Compacted (tbdf : TableDescr) (records : List Record)
    (result : List Record × List Record) : Prop where
  parts : ∃ front rest, result.1 = front ++ rest ∧ front.Perm (records.filter valid) ∧
    (∀ record ∈ rest, state record = RECORD_EMPTY) ∧
    tbdf.recordCount2BlockCount result.1.length = tbdf.recordCount2BlockCount front.length
  released : result.2.Perm (freed tbdf records)

theorem rectopage_pos : 0 < tbdf.rectopage := by
  rw [TableDescr.rectopage]
  split
  · exact Nat.div_pos tbdf.offset_le tbdf.offset_pos
  · exact Nat.zero_lt_succ _

theorem blockCount_mono {count more : Nat} (hle : count ≤ more) :
    tbdf.recordCount2BlockCount count ≤ tbdf.recordCount2BlockCount more := by
  rw [TableDescr.recordCount2BlockCount, TableDescr.recordCount2BlockCount]
  split
  · exact Nat.zero_le _
  · rw [if_neg (show ¬ more = 0 by omega)]
    split
    · exact Nat.mul_le_mul_left _ hle
    · exact Nat.succ_le_succ (Nat.div_le_div_right (Nat.sub_le_sub_right hle 1))

theorem blockCount_zero : tbdf.recordCount2BlockCount 0 = 0 := if_pos rfl

theorem blockCount_multpage (hmult : tbdf.multpage = true) (count : Nat) :
    tbdf.recordCount2BlockCount count = tbdf.rectopage * count := by
  rw [TableDescr.recordCount2BlockCount, if_pos hmult]
  split
  · next hzero => rw [hzero, Nat.mul_zero]
  · rfl

theorem blockCount_single (hmult : tbdf.multpage = false) {count : Nat} (hcount : count ≠ 0) :
    tbdf.recordCount2BlockCount count = (count - 1) / tbdf.rectopage + 1 := by
  rw [TableDescr.recordCount2BlockCount, if_neg hcount, if_neg (by rw [hmult]; decide)]

theorem blockCount_full (hmult : tbdf.multpage = false) (blocks : Nat) :
    tbdf.recordCount2BlockCount ((blocks + 1) * tbdf.rectopage) = blocks + 1 := by
  have hpos := @rectopage_pos tbdf
  have hproduct : (blocks + 1) * tbdf.rectopage = tbdf.rectopage * blocks + tbdf.rectopage := by
    rw [Nat.succ_mul, Nat.mul_comm]
  rw [blockCount_single hmult (by omega)]
  congr 1
  rw [hproduct, Nat.add_sub_assoc hpos, Nat.mul_add_div hpos,
    Nat.div_eq_of_lt (Nat.sub_lt hpos Nat.one_pos), Nat.add_zero]

/-- The records of the dropped blocks are behind the used ones. -/
theorem reduceTableBlocks_spec {used : Nat} (hused : used ≤ records.length) :
    ∃ n, used ≤ n ∧ reduceTableBlocks tbdf used records = records.take n ∧
      tbdf.recordCount2BlockCount (records.take n).length =
        tbdf.recordCount2BlockCount used := by
  have hpos := @rectopage_pos tbdf
  rw [reduceTableBlocks]
  split
  · next hless =>
      refine ⟨_, ?_, rfl, ?_⟩
      · cases hmult : tbdf.multpage with
        | true =>
            have hn : tbdf.recordCount2BlockCount used / tbdf.rectopage = used := by
              rw [blockCount_multpage hmult, Nat.mul_div_cancel_left _ hpos]
            rw [if_pos rfl]
            exact Nat.le_of_eq hn.symm
        | false =>
            rw [if_neg Bool.false_ne_true]
            by_cases hzero : used = 0
            · omega
            · have hdiv := @Nat.lt_div_mul_add (used - 1) tbdf.rectopage hpos
              rw [blockCount_single hmult hzero, Nat.succ_mul]
              omega
      · cases hmult : tbdf.multpage with
        | true =>
            have hn : tbdf.recordCount2BlockCount used / tbdf.rectopage = used := by
              rw [blockCount_multpage hmult, Nat.mul_div_cancel_left _ hpos]
            rw [if_pos rfl, hn, List.length_take_of_le hused]
        | false =>
            rw [if_neg Bool.false_ne_true]
            by_cases hzero : used = 0
            · rw [hzero, blockCount_zero, Nat.zero_mul, List.take_zero, List.length_nil,
                blockCount_zero]
            · rw [blockCount_single hmult hzero] at hless ⊢
              rw [blockCount_single hmult (by omega)] at hless
              have hfits : ((used - 1) / tbdf.rectopage + 1) * tbdf.rectopage ≤
                  records.length :=
                Nat.le_trans ((Nat.le_div_iff_mul_le hpos).mp (Nat.lt_of_succ_lt_succ hless))
                  (Nat.sub_le _ _)
              rw [List.length_take_of_le hfits, blockCount_full hmult]
  · next hnot =>
      refine ⟨records.length, hused, List.take_length.symm, ?_⟩
      rw [List.take_length]
      exact Nat.le_antisymm (Nat.le_of_not_lt hnot) (blockCount_mono hused)

theorem state_markEmpty (record : Record) : state (markEmpty record) = RECORD_EMPTY := by
  cases record <;> rfl

theorem compactTable_parts (hrecords : TableRecords tbdf records) :
    ∃ done rest, (compactTable tbdf records).1 = done ++ rest ∧
      done.Perm (Closing.closed valid (moveRecord tbdf) records) ∧
      (∀ record ∈ rest, state record = RECORD_EMPTY) ∧
      tbdf.recordCount2BlockCount (compactTable tbdf records).1.length =
        tbdf.recordCount2BlockCount done.length ∧
      ((compactTable tbdf records).2 ++ leaked tbdf records).Perm (freed tbdf records) := by
  rw [compactTable]
  split
  · next hzero =>
      rw [List.length_eq_zero_iff.mp hzero]
      refine ⟨[], [], rfl, List.Perm.refl _, fun _ h => (by cases h), rfl, ?_⟩
      rw [leaked, freed]
      split <;> exact List.Perm.refl _
  · next hsome =>
      have hstart : Standing [] records [] ⟨records, [], 0, records.length - 1, none⟩ := by
        refine ⟨(List.append_nil _).symm, rfl, ?_, rfl⟩
        change records.length - 1 + 1 = 0 + records.length
        omega
      obtain ⟨⟨done, rest, hparts, hdone, hused⟩, hlength, hreleased⟩ :=
        @compactLoop_spec tbdf _ _ _ _ records.length hrecords.states hstart (Nat.le_refl _)
          (Nat.pos_of_ne_zero hsome)
      generalize compactLoop tbdf records.length ⟨records, [], 0, records.length - 1, none⟩ =
        after at *
      rw [List.nil_append] at hparts hused
      dsimp only
      rw [hused]
      have hfits : done.length ≤ after.records.length := by
        rw [hparts, List.length_append]
        exact Nat.le_add_right _ _
      obtain ⟨n, hn, hreduced, hblocks⟩ := @reduceTableBlocks_spec tbdf _ _ hfits
      have htake : (after.records.take n).take done.length = done := by
        rw [List.take_take, Nat.min_eq_left hn, hparts, List.take_left]
      rw [hreduced, htake]
      refine ⟨done, _, rfl, hdone, ?_, ?_, hreleased⟩
      · intro record hrecord
        obtain ⟨other, -, rfl⟩ := List.mem_map.mp hrecord
        exact state_markEmpty other
      · have hcount : (done ++ ((after.records.take n).drop done.length).map markEmpty).length =
            (after.records.take n).length := by
          conv => rhs; rw [← List.take_append_drop done.length (after.records.take n), htake]
          rw [List.length_append, List.length_append, List.length_map]
        rw [hcount, hblocks]

theorem not_valid_of_empty {record : Record} (h : state record = RECORD_EMPTY) :
    valid record = false := by
  rw [valid, h]
  rfl

theorem filter_valid_empty {rest : List Record}
    (hrest : ∀ record ∈ rest, state record = RECORD_EMPTY) : rest.filter valid = [] := by
  rw [List.filter_eq_nil_iff]
  intro record hrecord
  rw [not_valid_of_empty (hrest record hrecord)]
  exact Bool.false_ne_true

/-- Compacting is right for the records moved with all their blocks, unless the positions meet
on a deleted record with data of its own. -/
theorem compactTable_right (hrecords : TableRecords tbdf records) :
    Compacted tbdf records (compactTable tbdf records) ↔
      MovesRight tbdf records ∧
        (tbdf.hasVariableAllocation = true → Closing.meeting valid deleted records = []) := by
  obtain ⟨done, rest, hparts, hdone, hrest, hblocks, hreleased⟩ := compactTable_parts hrecords
  generalize compactTable tbdf records = result at *
  have hkept := @Closing.kept_movers_perm _ valid records
  rw [movesRight_iff hrecords]
  constructor
  · rintro ⟨⟨front, others, heq, hfront, hothers, -⟩, hfreed⟩
    constructor
    · have hvalid : done.filter valid = front.filter valid := by
        have hboth := congrArg (List.filter valid) (hparts.symm.trans heq)
        rwa [List.filter_append, List.filter_append, filter_valid_empty hrest,
          filter_valid_empty hothers, List.append_nil, List.append_nil] at hboth
      have hall : front.filter valid = front := by
        rw [List.filter_eq_self]
        intro record hrecord
        exact List.of_mem_filter (hfront.mem_iff.mp hrecord)
      have hmoved := hdone.filter valid
      rw [hvalid, hall, Closing.closed, List.filter_append] at hmoved
      have hstay : (Closing.kept valid records).filter valid = Closing.kept valid records := by
        rw [Closing.kept, List.filter_filter]
        simp only [Bool.and_self]
      rw [hstay] at hmoved
      have hperm := (List.perm_append_left_iff _).mp
        (hmoved.symm.trans (hfront.trans hkept.symm))
      have hlength := hperm.length_eq
      have hwhole : (List.zipWith (moveRecord tbdf) (Closing.gaps valid records)
          (Closing.movers valid records)).filter valid =
          List.zipWith (moveRecord tbdf) (Closing.gaps valid records)
            (Closing.movers valid records) := by
        apply List.filter_sublist.eq_of_length
        rw [hlength, List.length_zipWith, Closing.gaps_length, Nat.min_self]
      rwa [hwhole] at hperm
    · intro hvariable
      have hlengths := (hreleased.trans hfreed.symm).length_eq
      rw [List.length_append, leaked, if_pos hvariable] at hlengths
      exact List.length_eq_zero_iff.mp (by omega)
  · rintro ⟨hmoves, hmeeting⟩
    refine ⟨⟨done, rest, hparts, ?_, hrest, hblocks⟩, ?_⟩
    · exact hdone.trans ((List.Perm.append_left _ hmoves).trans hkept)
    · have hnone : leaked tbdf records = [] := by
        rw [leaked]
        split
        · next hvariable => exact hmeeting hvariable
        · rfl
      rwa [hnone, List.append_nil] at hreleased

theorem short_pos : 0 < 4 := by decide

/-- A record with a state and a short column. -/
def shortTable : TableDescr where
  page := 0
  offset := 4
  hasVariableAllocation := true
  offset_pos := short_pos
  offset_le := by decide

theorem compactTable_right_short :
    Compacted shortTable [[1, 0, 0, 7], [0, 0, 0, 8], [2, 0, 0, 0], [0, 0, 0, 9]]
      (compactTable shortTable [[1, 0, 0, 7], [0, 0, 0, 8], [2, 0, 0, 0], [0, 0, 0, 9]]) :=
  (compactTable_right ⟨by decide, by decide⟩).mpr ⟨Or.inl (by decide), fun _ => rfl⟩

/-- The data of a single deleted record on the end of the table are not released. -/
theorem not_forall_compactTable_right : ¬ ∀ (tbdf : TableDescr) (records : List Record),
    TableRecords tbdf records → Compacted tbdf records (compactTable tbdf records) := by
  intro hall
  have hcompacted := hall shortTable [[0, 0, 0, 8], [1, 0, 0, 7]] ⟨by decide, by decide⟩
  have hlength := hcompacted.released.length_eq
  revert hlength
  decide

end Sql602.Compaction
