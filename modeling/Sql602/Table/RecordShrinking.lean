import Mathlib.Data.List.Range
import Sql602.Table.RecordGrowth

namespace Sql602.Table

open Function Holding

/-! What `drop_basic_table_allocation` frees and what it leaves. -/

namespace TableBlocks

variable {table : TableShape} {state state' state'' : TableBlocks} {dropped more : List Nat}

/-- The blocks that are freed, the last one first. -/
structure Drops (state state' : TableBlocks) (dropped : List Nat) : Prop where
  freed : state'.freed = dropped ++ state.freed
  taken : ∀ dadr, dadr ∈ state'.taken ↔ dadr ∈ state.taken ∧ dadr ∉ dropped
  entered : state'.entered = state.entered

theorem Drops.refl (state : TableBlocks) : Drops state state [] :=
  ⟨rfl, fun _ => ⟨fun hin => ⟨hin, List.not_mem_nil⟩, And.left⟩, rfl⟩

theorem Drops.trans (hfirst : Drops state state' dropped) (hrest : Drops state' state'' more) :
    Drops state state'' (more ++ dropped) := by
  refine ⟨?_, fun dadr => ?_, hrest.entered.trans hfirst.entered⟩
  · rw [hrest.freed, hfirst.freed, List.append_assoc]
  · rw [hrest.taken, hfirst.taken, List.mem_append, not_or]
    constructor
    · rintro ⟨⟨hin, hout⟩, hmore⟩
      exact ⟨hin, hmore, hout⟩
    · rintro ⟨hin, hmore, hout⟩
      exact ⟨⟨hin, hout⟩, hmore⟩

theorem drops_freeAlphaBlock (state : TableBlocks) (dadr : Nat) :
    Drops state (state.freeAlphaBlock dadr) [dadr] := by
  refine ⟨rfl, fun other => ?_, rfl⟩
  rw [freeAlphaBlock, Finset.mem_erase, List.mem_singleton]
  exact And.comm

/-- Only the pages change, not what is allocated. -/
theorem Drops.pages (hdrops : Drops state state' dropped) {basbl : BasTblBlock}
    {secondary : Nat → Nat → Nat} :
    Drops state { state' with basblock := basbl, secondary := secondary } dropped :=
  ⟨hdrops.freed, hdrops.taken, hdrops.entered⟩

theorem dropDirect_spec (count ind : Nat) (state : TableBlocks) :
    Drops state (dropDirect count ind state)
        ((List.range' ind count).map state.basblock.databl).reverse ∧
      (dropDirect count ind state).secondary = state.secondary ∧
      (dropDirect count ind state).basblock = { state.basblock with
        databl := fun i => if ind ≤ i ∧ i < ind + count then 0 else state.basblock.databl i } := by
  induction count generalizing ind state with
  | zero =>
      refine ⟨Drops.refl state, rfl, ?_⟩
      have hnone : ∀ i, ¬ (ind ≤ i ∧ i < ind + 0) := by omega
      simp only [dropDirect, hnone, if_false]
  | succ count ih =>
      obtain ⟨hdrops, hsecondary, hbasbl⟩ := ih (ind + 1)
        ((state.freeAlphaBlock (state.basblock.databl ind)).setDatabl ind 0)
      have hfirst : Drops state
          ((state.freeAlphaBlock (state.basblock.databl ind)).setDatabl ind 0)
          [state.basblock.databl ind] :=
        (drops_freeAlphaBlock state (state.basblock.databl ind)).pages
      refine ⟨?_, hsecondary, ?_⟩
      · have hlist : ((List.range' ind (count + 1)).map state.basblock.databl).reverse =
            ((List.range' (ind + 1) count).map (update state.basblock.databl ind 0)).reverse ++
              [state.basblock.databl ind] := by
          rw [List.range'_succ, List.map_cons, List.reverse_cons]
          congr 2
          refine List.map_congr_left fun i hi => ?_
          have hlow := (List.mem_range'_1.mp hi).1
          rw [update_of_ne (by omega)]
        rw [hlist]
        exact hfirst.trans hdrops
      · rw [dropDirect, hbasbl]
        simp only [setDatabl, freeAlphaBlock]
        congr 1
        funext i
        cases decEq i ind with
        | isTrue heq => rw [heq, update_self, if_neg (by omega), if_pos (by omega)]
        | isFalse hne =>
            rw [update_of_ne hne]
            congr 1
            exact propext (by omega)

/-- A secondary block may hold more numbers than there are to be dropped. The counter then
wraps around. -/
theorem dropNumbers_spec (count j toBeDeleted : Nat) (blocknums : Nat → Nat)
    (state : TableBlocks) :
    ∃ state', dropNumbers count j toBeDeleted blocknums state =
        ((if count ≤ toBeDeleted then toBeDeleted - count else 2 ^ 32 - 1,
          fun i => if j ≤ i ∧ i < j + min count toBeDeleted then 0 else blocknums i), state') ∧
      Drops state state'
        ((List.range' j (min count toBeDeleted)).map blocknums).reverse ∧
      state'.basblock = state.basblock ∧ state'.secondary = state.secondary := by
  induction count generalizing j toBeDeleted blocknums state with
  | zero =>
      have hnone : ∀ i, ¬ (j ≤ i ∧ i < j + min 0 toBeDeleted) := by omega
      refine ⟨state, ?_, ?_, rfl, rfl⟩
      · simp only [dropNumbers, hnone, if_false, Nat.zero_le, if_true, Nat.sub_zero]
      · rw [Nat.zero_min]
        exact Drops.refl state
  | succ count ih =>
      cases toBeDeleted with
      | zero =>
          have hnone : ∀ i, ¬ (j ≤ i ∧ i < j + min (count + 1) 0) := by omega
          refine ⟨state, ?_, ?_, rfl, rfl⟩
          · simp only [dropNumbers, hnone, if_false, if_true]
            rw [if_neg (by omega)]
          · rw [Nat.min_zero]
            exact Drops.refl state
      | succ left =>
          obtain ⟨state', hresult, hdrops, hbasbl, hsecondary⟩ := ih (j + 1) left
            (update blocknums j 0) (state.freeAlphaBlock (blocknums j))
          have hmin : min (count + 1) (left + 1) = min count left + 1 := by omega
          refine ⟨state', ?_, ?_, hbasbl, hsecondary⟩
          · rw [dropNumbers, if_neg (Nat.succ_ne_zero left), Nat.succ_sub_one, hresult, hmin]
            congr 2
            · split
              case isTrue hle => rw [if_pos (by omega), Nat.succ_sub_succ]
              case isFalse hgt => rw [if_neg (by omega)]
            · funext i
              cases decEq i j with
              | isTrue heq => rw [heq, update_self, if_neg (by omega), if_pos (by omega)]
              | isFalse hne =>
                  rw [update_of_ne hne]
                  congr 1
                  exact propext (by omega)
          · have hlist : ((List.range' j (min (count + 1) (left + 1))).map blocknums).reverse =
                ((List.range' (j + 1) (min count left)).map (update blocknums j 0)).reverse ++
                  [blocknums j] := by
              rw [hmin, List.range'_succ, List.map_cons, List.reverse_cons]
              congr 2
              refine List.map_congr_left fun i hi => ?_
              have hlow := (List.mem_range'_1.mp hi).1
              rw [update_of_ne (by omega)]
            rw [hlist]
            exact (drops_freeAlphaBlock state (blocknums j)).trans hdrops

/-- Where a slot stands in the order in which the loops drop the blocks. -/
def position (table : TableShape) : Slot → Nat
  | .secondary ind => ind * table.DADRS_PER_BLOCK
  | .data blnum => blnum

section Secondary

variable {basbl : BasTblBlock} {secondary : Nat → Nat → Nat} {oldCount : Nat}

theorem databl_injective (hdir : basbl.diraddr = false)
    (honce : Once id (referenced table basbl secondary oldCount)) {i j : Nat}
    (hi : i < basbl.nbnums) (hj : j < basbl.nbnums) (hne : i ≠ j) :
    basbl.databl i ≠ basbl.databl j := by
  intro hsame
  have hi' : referenced table basbl secondary oldCount (.secondary i) = some (basbl.databl i) :=
    if_pos ⟨hdir, hi⟩
  have hj' : referenced table basbl secondary oldCount (.secondary j) = some (basbl.databl j) :=
    if_pos ⟨hdir, hj⟩
  exact hne (Slot.secondary.inj (honce hi' hj' hsame))

/-- The data blocks of one secondary block. -/
def OfSecondary (table : TableShape) (ind start : Nat) (slot : Slot) : Prop :=
  ∃ j, start ≤ j ∧ j < table.DADRS_PER_BLOCK ∧ slot = .data (ind * table.DADRS_PER_BLOCK + j)

theorem collected_numbers (hdir : basbl.diraddr = false) {ind start : Nat}
    (hlt : ind * table.DADRS_PER_BLOCK + start < oldCount)
    (hstart : start < table.DADRS_PER_BLOCK) :
    Collected (referenced table basbl secondary oldCount) (OfSecondary table ind start)
      ((List.range' start (min (table.DADRS_PER_BLOCK - start)
        (oldCount - (ind * table.DADRS_PER_BLOCK + start)))).map
          (secondary (basbl.databl ind))).reverse := by
  have hheld : ∀ j, j < table.DADRS_PER_BLOCK → ind * table.DADRS_PER_BLOCK + j < oldCount →
      referenced table basbl secondary oldCount (.data (ind * table.DADRS_PER_BLOCK + j)) =
        some (secondary (basbl.databl ind) j) := by
    intro j hj hcount
    have hdiv : (ind * table.DADRS_PER_BLOCK + j) / table.DADRS_PER_BLOCK = ind := by
      rw [Nat.mul_comm, Nat.mul_add_div table.dadrs_pos, Nat.div_eq_of_lt hj, Nat.add_zero]
    have hmod : (ind * table.DADRS_PER_BLOCK + j) % table.DADRS_PER_BLOCK = j := by
      rw [Nat.mul_comm, Nat.mul_add_mod, Nat.mod_eq_of_lt hj]
    rw [referenced, if_pos hcount, Expansion.dataBlock_indirect hdir, hdiv, hmod]
  refine ⟨((List.range' start (min (table.DADRS_PER_BLOCK - start)
    (oldCount - (ind * table.DADRS_PER_BLOCK + start)))).map
      fun j => Slot.data (ind * table.DADRS_PER_BLOCK + j)).reverse, ?_, fun slot => ?_, ?_⟩
  · rw [List.nodup_reverse]
    refine List.Nodup.map ?_ List.nodup_range'
    intro j j' hsame
    have hnum := Slot.data.inj hsame
    omega
  · rw [List.mem_reverse, List.mem_map]
    constructor
    · rintro ⟨j, hj, rfl⟩
      obtain ⟨hlow, hhigh⟩ := List.mem_range'_1.mp hj
      refine ⟨⟨j, hlow, by omega, rfl⟩, ?_⟩
      rw [hheld j (by omega) (by omega)]
      exact Option.some_ne_none _
    · rintro ⟨⟨j, hlow, hhigh, rfl⟩, hsome⟩
      refine ⟨j, List.mem_range'_1.mpr ⟨hlow, ?_⟩, rfl⟩
      by_contra hout
      apply hsome
      rw [referenced, if_neg (by omega)]
  · rw [List.map_reverse, List.map_reverse, List.map_map, List.map_map]
    congr 1
    refine List.map_congr_left fun j hj => ?_
    obtain ⟨hlow, hhigh⟩ := List.mem_range'_1.mp hj
    exact (hheld j (by omega) (by omega)).symm

/-- Everything that one pass of the loop frees. -/
theorem collected_secondary (hdir : basbl.diraddr = false) {ind start : Nat}
    (hind : ind < basbl.nbnums) (hlt : ind * table.DADRS_PER_BLOCK + start < oldCount)
    (hstart : start < table.DADRS_PER_BLOCK) :
    Collected (referenced table basbl secondary oldCount)
      (fun slot => ind * table.DADRS_PER_BLOCK + start ≤ position table slot ∧
        position table slot < (ind + 1) * table.DADRS_PER_BLOCK)
      ((if start = 0 then [basbl.databl ind] else []) ++
        ((List.range' start (min (table.DADRS_PER_BLOCK - start)
          (oldCount - (ind * table.DADRS_PER_BLOCK + start)))).map
            (secondary (basbl.databl ind))).reverse) := by
  have hnumbers := @collected_numbers table basbl secondary oldCount hdir _ _ hlt hstart
  have hpos := table.dadrs_pos
  have hnext : (ind + 1) * table.DADRS_PER_BLOCK =
      ind * table.DADRS_PER_BLOCK + table.DADRS_PER_BLOCK := Nat.succ_mul _ _
  have hdata : ∀ i, OfSecondary table ind start (.data i) ↔
      ind * table.DADRS_PER_BLOCK + start ≤ i ∧ i < (ind + 1) * table.DADRS_PER_BLOCK := by
    intro i
    constructor
    · rintro ⟨j, hlow, hhigh, hi⟩
      obtain rfl := Slot.data.inj hi
      omega
    · intro hi
      exact ⟨i - ind * table.DADRS_PER_BLOCK, by omega, by omega, by congr 1; omega⟩
  have hother : ∀ i, ¬ OfSecondary table ind start (.secondary i) := by
    rintro i ⟨j, -, -, hi⟩
    cases hi
  have hsecondary : ∀ i, ind * table.DADRS_PER_BLOCK + start ≤ i * table.DADRS_PER_BLOCK ∧
      i * table.DADRS_PER_BLOCK < (ind + 1) * table.DADRS_PER_BLOCK ↔ start = 0 ∧ i = ind := by
    intro i
    constructor
    · rintro ⟨hlow, hhigh⟩
      have hhigh' : i < ind + 1 := Nat.lt_of_mul_lt_mul_right hhigh
      have hlow' : ind ≤ i :=
        Nat.le_of_mul_le_mul_right (by omega : ind * table.DADRS_PER_BLOCK ≤
          i * table.DADRS_PER_BLOCK) hpos
      obtain rfl : i = ind := by omega
      omega
    · rintro ⟨rfl, rfl⟩
      omega
  split
  case isTrue hzero =>
    subst hzero
    have hfirst : referenced table basbl secondary oldCount (.secondary ind) =
        some (basbl.databl ind) := if_pos ⟨hdir, hind⟩
    refine hnumbers.append (Collected.single hfirst) ?_ ?_
    · rintro slot hslot rfl
      exact hother ind hslot
    · intro slot _
      cases slot with
      | secondary i =>
          simp only [position, hsecondary, hother, false_or, Slot.secondary.injEq, true_and]
      | data i => simp only [position, hdata, reduceCtorEq, or_false]
  case isFalse hzero =>
    have hnone : Collected (referenced table basbl secondary oldCount) (fun _ => False) [] :=
      Collected.nil fun _ hfalse => hfalse.elim
    refine hnumbers.append hnone (fun _ _ => id) ?_
    intro slot _
    cases slot with
    | secondary i => simp only [position, hsecondary, hother, hzero, false_and, or_false]
    | data i => simp only [position, hdata, or_false]

theorem dropSecondary_spec (hdir : basbl.diraddr = false) (hshape : ListShape table basbl oldCount)
    (honce : Once id (referenced table basbl secondary oldCount)) {readable : Nat → Bool}
    (hreadable : ∀ ind, readable ind = true) {count ind start toBeDeleted : Nat}
    {state : TableBlocks} (hcount : ind + count = basbl.nbnums)
    (hstart : start < table.DADRS_PER_BLOCK)
    (hleft : count ≠ 0 → ind * table.DADRS_PER_BLOCK + start < oldCount ∧
      toBeDeleted = oldCount - (ind * table.DADRS_PER_BLOCK + start))
    (hdatabl : ∀ i, ind ≤ i → state.basblock.databl i = basbl.databl i)
    (hrows : ∀ i, ind ≤ i → i < basbl.nbnums →
      state.secondary (basbl.databl i) = secondary (basbl.databl i)) :
    ∃ dropped databl,
      Drops state (dropSecondary table readable count ind start toBeDeleted state) dropped ∧
      Collected (referenced table basbl secondary oldCount)
        (ind * table.DADRS_PER_BLOCK + start ≤ position table ·) dropped ∧
      (dropSecondary table readable count ind start toBeDeleted state).basblock =
        { state.basblock with databl := databl } ∧
      (∀ i, i * table.DADRS_PER_BLOCK < ind * table.DADRS_PER_BLOCK + start →
        databl i = state.basblock.databl i) ∧
      (∀ i j, i < basbl.nbnums →
        i * table.DADRS_PER_BLOCK + j < ind * table.DADRS_PER_BLOCK + start →
        (dropSecondary table readable count ind start toBeDeleted state).secondary
            (basbl.databl i) j = state.secondary (basbl.databl i) j) := by
  induction count generalizing ind start toBeDeleted state with
  | zero =>
      refine ⟨[], state.basblock.databl, Drops.refl state, ?_, rfl, fun _ _ => rfl,
        fun _ _ _ _ => rfl⟩
      apply Collected.nil
      intro slot hslot
      cases slot with
      | secondary i =>
          rw [referenced, if_neg]
          rintro ⟨-, hi⟩
          have hmul : i * table.DADRS_PER_BLOCK + table.DADRS_PER_BLOCK ≤
              ind * table.DADRS_PER_BLOCK := by
            rw [← Nat.succ_mul]
            exact Nat.mul_le_mul_right _ (by omega)
          have hpos := table.dadrs_pos
          simp only [position] at hslot
          omega
      | data i =>
          rw [referenced, if_neg]
          intro hi
          have hfull := mt (hshape.indirect hdir ind).mpr (by omega)
          simp only [position] at hslot
          omega
  | succ count ih =>
      obtain ⟨hlt, rfl⟩ := hleft (Nat.succ_ne_zero count)
      have hind : ind < basbl.nbnums := by omega
      have hdadr : state.basblock.databl ind = basbl.databl ind := hdatabl ind (Nat.le_refl _)
      have hrow : state.secondary (basbl.databl ind) = secondary (basbl.databl ind) :=
        hrows ind (Nat.le_refl _) hind
      have hnext : (ind + 1) * table.DADRS_PER_BLOCK =
          ind * table.DADRS_PER_BLOCK + table.DADRS_PER_BLOCK := Nat.succ_mul _ _
      have hpass := @collected_secondary table basbl secondary oldCount hdir _ _ hind hlt hstart
      obtain ⟨state', hresult, hdrops, hbasbl', hsecondary'⟩ := dropNumbers_spec
        (table.DADRS_PER_BLOCK - start) start
        (oldCount - (ind * table.DADRS_PER_BLOCK + start))
        (secondary (basbl.databl ind)) state
      generalize min (table.DADRS_PER_BLOCK - start)
        (oldCount - (ind * table.DADRS_PER_BLOCK + start)) = m at hpass hresult hdrops
      -- what remains for the next secondary block
      have hrest : count ≠ 0 → (ind + 1) * table.DADRS_PER_BLOCK + 0 < oldCount ∧
          (if table.DADRS_PER_BLOCK - start ≤
              oldCount - (ind * table.DADRS_PER_BLOCK + start) then
            oldCount - (ind * table.DADRS_PER_BLOCK + start) - (table.DADRS_PER_BLOCK - start)
          else 2 ^ 32 - 1) = oldCount - ((ind + 1) * table.DADRS_PER_BLOCK + 0) := by
        intro hcount0
        have hfull := (hshape.indirect hdir (ind + 1)).mp (by omega)
        rw [if_pos (by omega)]
        omega
      have hstep : dropSecondary table readable (count + 1) ind start
          (oldCount - (ind * table.DADRS_PER_BLOCK + start)) state =
          dropSecondary table readable count (ind + 1) 0
            (if table.DADRS_PER_BLOCK - start ≤
                oldCount - (ind * table.DADRS_PER_BLOCK + start) then
              oldCount - (ind * table.DADRS_PER_BLOCK + start) - (table.DADRS_PER_BLOCK - start)
            else 2 ^ 32 - 1)
            (if start = 0 then (state'.freeAlphaBlock (basbl.databl ind)).setDatabl ind 0
            else { state' with secondary := update state'.secondary (basbl.databl ind) fun j =>
              if start ≤ j ∧ j < start + m then 0 else secondary (basbl.databl ind) j }) := by
        rw [dropSecondary, hdadr, hrow, if_neg (by rw [hreadable ind]; exact not_not_intro rfl),
          hresult]
      have hregion : ∀ slot, referenced table basbl secondary oldCount slot ≠ none →
          (ind * table.DADRS_PER_BLOCK + start ≤ position table slot ↔
            (ind * table.DADRS_PER_BLOCK + start ≤ position table slot ∧
              position table slot < (ind + 1) * table.DADRS_PER_BLOCK) ∨
            (ind + 1) * table.DADRS_PER_BLOCK + 0 ≤ position table slot) := by
        intro slot _
        omega
      rw [hstep]
      cases Nat.eq_zero_or_pos start with
      | inl hzero =>
          obtain ⟨dropped, databl, hdropped, hcollected, hbasbl, hkept, hkeptRows⟩ :=
            @ih (ind + 1) 0 _ ((state'.freeAlphaBlock (basbl.databl ind)).setDatabl ind 0)
              (by omega) table.dadrs_pos hrest
              (by
                intro i hi
                simp only [setDatabl, freeAlphaBlock, hbasbl']
                rw [update_of_ne (by omega)]
                exact hdatabl i (by omega))
              (by
                intro i hi hlt'
                simp only [setDatabl, freeAlphaBlock, hsecondary']
                exact hrows i (by omega) hlt')
          subst hzero
          rw [if_pos rfl] at hpass ⊢
          have hfreed : Drops state ((state'.freeAlphaBlock (basbl.databl ind)).setDatabl ind 0) _ :=
            (hdrops.trans (drops_freeAlphaBlock state' (basbl.databl ind))).pages
          refine ⟨_, databl, hfreed.trans hdropped, hpass.append hcollected ?_ hregion, ?_, ?_, ?_⟩
          · intro slot hslot
            omega
          · rw [hbasbl]
            simp only [setDatabl, freeAlphaBlock, hbasbl']
          · intro i hi
            rw [hkept i (by omega)]
            simp only [setDatabl, freeAlphaBlock, hbasbl']
            rw [update_of_ne]
            rintro rfl
            omega
          · intro i j hi hlow
            rw [hkeptRows i j hi (by omega)]
            simp only [setDatabl, freeAlphaBlock, hsecondary']
      | inr hpos =>
          obtain ⟨dropped, databl, hdropped, hcollected, hbasbl, hkept, hkeptRows⟩ :=
            @ih (ind + 1) 0 _
              { state' with
                secondary := update state'.secondary (basbl.databl ind) fun j =>
                  if start ≤ j ∧ j < start + m then 0 else secondary (basbl.databl ind) j }
              (by omega) table.dadrs_pos hrest
              (by
                intro i hi
                rw [hbasbl']
                exact hdatabl i (by omega))
              (by
                intro i hi hlt'
                dsimp only
                rw [update_of_ne (databl_injective hdir honce hlt' hind (by omega)), hsecondary']
                exact hrows i (by omega) hlt')
          rw [if_neg (Nat.ne_of_gt hpos)] at hpass ⊢
          have hfreed : Drops state { state' with
              secondary := update state'.secondary (basbl.databl ind) fun j =>
                if start ≤ j ∧ j < start + m then 0 else secondary (basbl.databl ind) j } _ := hdrops.pages
          refine ⟨_, databl, hfreed.trans hdropped, hpass.append hcollected ?_ hregion, ?_, ?_, ?_⟩
          · intro slot hslot
            omega
          · rw [hbasbl, hbasbl']
          · intro i hi
            rw [hkept i (by omega), hbasbl']
          · intro i j hi hlow
            rw [hkeptRows i j hi (by omega)]
            dsimp only
            rw [hsecondary']
            cases decEq i ind with
            | isTrue heq =>
                subst heq
                rw [update_self, if_neg (by omega), hrow]
            | isFalse hne => rw [update_of_ne (databl_injective hdir honce hi hind hne)]

end Secondary

end TableBlocks

end Sql602.Table
