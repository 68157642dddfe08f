import Mathlib.Data.List.Induction
import Mathlib.Data.List.Nodup
import Sql602.Core.Dynar

namespace Sql602.Dynar

/-! The elements of an array are those of a list with the same operations, and its block is a
live one, until `minimize` frees the block twice. -/

section Lists

variable {α : Type*} {zero : α} {l slots contents : List α} {i index : Nat}

theorem initElems_eq {count : Nat} (hlength : contents.length = i + count) :
    initElems zero contents i count = contents.take i ++ List.replicate count zero := by
  induction count generalizing contents i with
  | zero =>
      rw [initElems, List.replicate_zero, List.append_nil, List.take_of_length_le (by omega)]
  | succ count ih =>
      rw [initElems, ih (by rw [init_elem, List.length_set]; omega), init_elem,
        List.replicate_succ, List.take_add_one, List.append_assoc, List.take_set_of_le (Nat.le_refl i),
        List.getElem?_set_self (by omega)]
      rfl

theorem insertIdx_eq (hindex : index ≤ l.length) :
    l.insertIdx index zero = l.take index ++ zero :: l.drop index := by
  induction l generalizing index with
  | nil =>
      obtain rfl : index = 0 := Nat.le_zero.mp hindex
      rfl
  | cons first rest ih =>
      cases index with
      | zero => rfl
      | succ index =>
          rw [List.insertIdx_succ_cons, ih (Nat.le_of_succ_le_succ hindex), List.take_succ_cons,
            List.drop_succ_cons, List.cons_append]

theorem init_moveUp (hindex : index < l.length) :
    init_elem zero (moveUp (l ++ zero :: slots) index (l.length - index)) index =
      l.insertIdx index zero ++ slots := by
  have htake : (l ++ zero :: slots).take (index + 1) = l.take index ++ [l[index]] := by
    rw [List.take_append_of_le_length (by omega), List.take_add_one, List.getElem?_eq_getElem hindex]
    rfl
  have hmoved : ((l ++ zero :: slots).drop index).take (l.length - index) = l.drop index := by
    rw [List.drop_append_of_le_length (by omega),
      List.take_append_of_le_length (Nat.le_of_eq List.length_drop.symm), List.take_of_length_le
        (Nat.le_of_eq List.length_drop)]
  have hrest : (l ++ zero :: slots).drop (index + 1 + (l.length - index)) = slots := by
    rw [show index + 1 + (l.length - index) = l.length + 1 by omega, List.drop_append,
      List.drop_eq_nil_of_le (Nat.le_succ _), Nat.add_sub_cancel_left]
    rfl
  rw [moveUp, htake, hmoved, hrest, init_elem, insertIdx_eq (Nat.le_of_lt hindex),
    List.append_assoc, List.append_assoc, List.set_append_right _ _ (by rw [List.length_take]; omega),
    List.length_take, Nat.min_eq_left (Nat.le_of_lt hindex), Nat.sub_self]
  simp

theorem init_moveDown (hindex : index < l.length) :
    init_elem zero (moveDown (l ++ slots) index (l.length - index - 1)) (l.length - 1) =
      l.eraseIdx index ++ zero :: slots := by
  have htake : (l ++ slots).take index = l.take index :=
    List.take_append_of_le_length (Nat.le_of_lt hindex)
  have hmoved : ((l ++ slots).drop (index + 1)).take (l.length - index - 1) =
      l.drop (index + 1) := by
    rw [List.drop_append_of_le_length (by omega),
      List.take_append_of_le_length (by rw [List.length_drop]; omega), List.take_of_length_le
        (by rw [List.length_drop]; omega)]
  have hrest : (l ++ slots).drop (index + (l.length - index - 1)) =
      l.drop (l.length - 1) ++ slots := by
    rw [show index + (l.length - index - 1) = l.length - 1 by omega,
      List.drop_append_of_le_length (by omega)]
  have hlast : (l.drop (l.length - 1)).length = 1 := by
    rw [List.length_drop]
    omega
  obtain ⟨last, hlast⟩ := List.length_eq_one_iff.mp hlast
  have herase : (l.take index ++ l.drop (index + 1)).length = l.length - 1 := by
    rw [List.length_append, List.length_take, List.length_drop]
    omega
  rw [moveDown, htake, hmoved, hrest, hlast, init_elem,
    List.set_append_right _ _ (Nat.le_of_eq herase), herase, Nat.sub_self,
    List.eraseIdx_eq_take_drop_succ]
  rfl

end Lists

section Lists

variable {α : Type*} (zero : α)

/-- The list with the element accessed. -/
def listAcc (index : Nat) (l : List α) : List α :=
  l ++ List.replicate (index + 1 - l.length) zero

def listPerform [DecidableEq α] (l : List α) : Op α → List α × Option Nat
  | .acc index => (listAcc zero index l, some index)
  | .next => (l ++ [zero], some l.length)
  | .store index value => (l.set index value, none)
  | .insert index =>
      (if index < l.length then l.insertIdx index zero else listAcc zero index l, some index)
  | .delet index => (l.eraseIdx index, if index < l.length then some index else none)
  | .minimize => (l, none)
  | .find pattern => (l, l.findIdx? fun element => decide (pattern = element))
  | .destruct => ([], none)

def listPerformAll [DecidableEq α] : List (Op α) → List α → List α
  | [], l => l
  | op :: rest, l => listPerformAll rest (listPerform zero l op).1

end Lists

/-- The elements are those of the list and the other elements of the block are nulled. The block
is the only live one, and nothing has been freed twice. -/
structure Right {α : Type*} (zero : α) (st : State α) (l : List α) : Prop where
  count : st.elcnt = l.length
  fits : l.length ≤ st.arrsize
  contents : st.contents = l ++ List.replicate (st.arrsize - l.length) zero
  live : ∀ x, st.elems = some x → st.memory.block x = some st.contents
  empty : st.elems = none ↔ st.arrsize = 0
  owned : ∀ x, st.elems ≠ some x → st.memory.block x = none
  once : st.memory.frees.Nodup
  freed : ∀ x ∈ st.memory.frees, x < st.memory.fresh ∧ st.elems ≠ some x
  inside : ∀ x, st.elems = some x → x < st.memory.fresh

namespace Right

variable {α : Type*} {zero : α} {step index : Nat} {st : State α} {l : List α}

theorem length_contents (hright : Right zero st l) : st.contents.length = st.arrsize := by
  have hfits := hright.fits
  rw [hright.contents, List.length_append, List.length_replicate]
  omega

/-- Writing other contents over the block. -/
theorem write (hright : Right zero st l) (changed : List α)
    (hfits : changed.length ≤ st.arrsize) :
    Right zero { st.write (changed ++ List.replicate (st.arrsize - changed.length) zero) with
      elcnt := changed.length } changed := by
  obtain ⟨memory, elcnt, arrsize, elems⟩ := st
  cases elems with
  | none =>
      have hempty : arrsize = 0 := hright.empty.mp rfl
      subst hempty
      have hnil : changed = [] := List.length_eq_zero_iff.mp (Nat.le_zero.mp hfits)
      subst hnil
      exact ⟨rfl, Nat.zero_le _, rfl, nofun, hright.empty, hright.owned, hright.once,
        hright.freed, nofun⟩
  | some x =>
      have hlive := hright.live x rfl
      have hwritten : ∀ contents, (State.write ⟨memory, elcnt, arrsize, some x⟩ contents).memory.block =
          Function.update memory.block x (some contents) := by
        intro contents
        change Function.update memory.block x ((memory.block x).map fun _ => contents) = _
        rw [hlive]
        rfl
      have hcontents : ∀ contents count,
          State.contents { State.write ⟨memory, elcnt, arrsize, some x⟩ contents with
            elcnt := count } = contents := by
        intro contents count
        change ((State.write ⟨memory, elcnt, arrsize, some x⟩ contents).memory.block x).getD [] = _
        rw [hwritten, Function.update_self]
        rfl
      refine ⟨rfl, hfits, hcontents _ _, fun y hy => ?_, hright.empty, fun y hy => ?_, hright.once,
        hright.freed, hright.inside⟩
      · obtain rfl : x = y := Option.some.inj hy
        rw [hcontents]
        change (State.write ⟨memory, elcnt, arrsize, some x⟩ _).memory.block x = _
        rw [hwritten, Function.update_self]
      · change (State.write ⟨memory, elcnt, arrsize, some x⟩ _).memory.block y = _
        rw [hwritten, Function.update_of_ne fun hsame => hy (by rw [hsame]; rfl)]
        exact hright.owned y hy

variable (garbage : Nat → Nat → α)

/-- The block that a larger array is moved to. -/
theorem realloc (hright : Right zero st l) {count : Nat} (hcount : st.arrsize < count) :
    ∃ memory tail, st.memory.corerealloc garbage st.elems count = (some st.memory.fresh, memory) ∧
      tail.length = count - st.arrsize ∧
      memory.block = Function.update (fun _ => none) st.memory.fresh (some (st.contents ++ tail)) ∧
      memory.frees.Nodup ∧ (∀ x ∈ memory.frees, x < st.memory.fresh) ∧
      memory.fresh = st.memory.fresh + 1 := by
  have hpos : count ≠ 0 := Nat.ne_of_gt (Nat.zero_lt_of_lt hcount)
  have hlength := hright.length_contents
  obtain ⟨memory, elcnt, arrsize, elems⟩ := st
  cases elems with
  | none =>
      have hempty : arrsize = 0 := hright.empty.mp rfl
      have hnone : memory.block = fun _ => none := funext fun x => hright.owned x (by simp)
      refine ⟨_, (List.range count).map (garbage memory.fresh), if_neg hpos, ?_, ?_, hright.once,
        fun x hx => (hright.freed x hx).1, rfl⟩
      · rw [List.length_map, List.length_range, hempty, Nat.sub_zero]
      · change Function.update memory.block memory.fresh _ = _
        rw [hnone]
        rfl
  | some x =>
      have hlive := hright.live x rfl
      have hx := hright.inside x rfl
      simp only at hlive hx hcount hlength
      have horigin : (memory.block x).getD [] = State.contents ⟨memory, elcnt, arrsize, some x⟩ := by
        rw [hlive]
        rfl
      have hmemory : memory.corerealloc garbage (some x) count =
          (some memory.fresh, Memory.corefree
            { memory with
              block := Function.update memory.block memory.fresh
                (some ((State.contents ⟨memory, elcnt, arrsize, some x⟩).take count ++
                  ((List.range count).map (garbage memory.fresh)).drop
                    (State.contents ⟨memory, elcnt, arrsize, some x⟩).length))
              fresh := memory.fresh + 1 } (some x)) := by
        simp only [Memory.corerealloc, Memory.corealloc, if_neg hpos, horigin,
          Function.update_self, Function.update_idem, Option.getD_some]
      refine ⟨_, ((List.range count).map (garbage memory.fresh)).drop arrsize, hmemory, ?_, ?_,
        ?_, ?_, rfl⟩
      · rw [List.length_drop, List.length_map, List.length_range]
      · rw [hlength, List.take_of_length_le (by rw [hlength]; exact Nat.le_of_lt hcount)]
        funext y
        change Function.update (Function.update memory.block memory.fresh _) x none y = _
        by_cases hxy : y = x
        · subst hxy
          rw [Function.update_self, Function.update_of_ne (Nat.ne_of_lt hx)]
        · rw [Function.update_of_ne hxy]
          by_cases hfresh : y = memory.fresh
          · subst hfresh
            rw [Function.update_self, Function.update_self]
          · rw [Function.update_of_ne hfresh, Function.update_of_ne hfresh]
            exact hright.owned y fun hsame => hxy (Option.some.inj hsame).symm
      · exact List.nodup_cons.mpr ⟨fun hmem => (hright.freed x hmem).2 rfl, hright.once⟩
      · intro y hy
        obtain rfl | hy := List.mem_cons.mp hy
        · exact hx
        · exact (hright.freed y hy).1

theorem acc2 (hright : Right zero st l) (hstep : 0 < step) (hindex : l.length ≤ index) :
    Right zero (st.acc2 zero garbage step index).1 (listAcc zero index l) ∧
      (st.acc2 zero garbage step index).2 = some index := by
  have hlength : (listAcc zero index l).length = index + 1 := by
    rw [listAcc, List.length_append, List.length_replicate]
    omega
  have hmax : max st.elcnt (index + 1) = (listAcc zero index l).length := by
    rw [hlength, hright.count]
    omega
  have hnulled : ∀ size, index < size → l ++ List.replicate (size - l.length) zero =
      listAcc zero index l ++ List.replicate (size - (listAcc zero index l).length) zero := by
    intro size hsize
    rw [hlength, listAcc, List.append_assoc, List.replicate_append_replicate]
    congr 2
    omega
  rw [State.acc2]
  split
  · next hgrow =>
      have hmore : index < (index / step + 1) * step := by
        rw [Nat.mul_comm]
        exact Nat.lt_mul_div_succ index hstep
      obtain ⟨memory, tail, hrealloc, htail, hblock, honce, hfreed, hfresh⟩ :=
        hright.realloc garbage (Nat.lt_of_le_of_lt hgrow hmore)
      have hcontents : (initElems zero (st.contents ++ tail) st.arrsize
          ((index / step + 1) * step - st.arrsize)) =
          listAcc zero index l ++
            List.replicate ((index / step + 1) * step - (listAcc zero index l).length) zero := by
        have hfits := hright.fits
        rw [initElems_eq (by rw [List.length_append, htail, hright.length_contents]),
          List.take_append_of_le_length (Nat.le_of_eq hright.length_contents.symm),
          List.take_of_length_le (Nat.le_of_eq hright.length_contents), hright.contents,
          List.append_assoc, List.replicate_append_replicate, ← hnulled _ hmore]
        congr 2
        omega
      have hmoved : State.contents ⟨memory, st.elcnt, st.arrsize, some st.memory.fresh⟩ =
          st.contents ++ tail := by
        change (memory.block st.memory.fresh).getD [] = _
        rw [hblock, Function.update_self]
        rfl
      simp only [hrealloc, hmoved, hcontents, hmax]
      refine ⟨⟨rfl, ?_, ?_, ?_, ?_, ?_, honce, ?_, ?_⟩, trivial⟩
      · change _ ≤ (index / step + 1) * step
        rw [hlength]
        exact hmore
      · simp [State.contents, State.write, hblock]
      · intro x hx
        obtain rfl : st.memory.fresh = x := Option.some.inj hx
        simp [State.contents, State.write, hblock]
      · exact iff_of_false (by simp [State.write]) (Nat.ne_of_gt (Nat.zero_lt_of_lt hmore))
      · intro x hx
        have hne : x ≠ st.memory.fresh := fun hsame => hx (by rw [hsame]; rfl)
        simp [State.write, hblock, Function.update_of_ne hne]
      · intro x hx
        have hlt := hfreed x hx
        refine ⟨?_, fun hsame => ?_⟩
        · change x < memory.fresh
          omega
        · have := Option.some.inj hsame
          omega
      · intro x hx
        obtain rfl : st.memory.fresh = x := Option.some.inj hx
        change st.memory.fresh < memory.fresh
        omega
  · next hroom =>
      refine ⟨⟨hmax, ?_, ?_, hright.live, hright.empty, hright.owned, hright.once, hright.freed,
        hright.inside⟩, rfl⟩
      · rw [hlength]
        exact Nat.lt_of_not_le hroom
      · change st.contents = _
        rw [hright.contents]
        exact hnulled _ (Nat.lt_of_not_le hroom)

theorem listAcc_inside (hindex : index < l.length) : listAcc zero index l = l := by
  rw [listAcc, Nat.sub_eq_zero_of_le hindex, List.replicate_zero, List.append_nil]

theorem acc (hright : Right zero st l) (hstep : 0 < step) (index : Nat) :
    Right zero (st.acc zero garbage step index).1 (listAcc zero index l) ∧
      (st.acc zero garbage step index).2 = some index := by
  rw [State.acc, hright.count]
  split
  · next hinside =>
      rw [listAcc_inside hinside]
      exact ⟨hright, rfl⟩
  · next houtside => exact hright.acc2 garbage hstep (Nat.le_of_not_lt houtside)

theorem delet (hright : Right zero st l) (hindex : index < l.length) :
    Right zero (st.delet zero index).1 (l.eraseIdx index) := by
  have hlength : (l.eraseIdx index).length = l.length - 1 := List.length_eraseIdx_of_lt hindex
  have hfits := hright.fits
  have hcontents : init_elem zero (moveDown st.contents index (l.length - index - 1))
      (l.length - 1) = l.eraseIdx index ++
        List.replicate (st.arrsize - (l.eraseIdx index).length) zero := by
    rw [hright.contents, init_moveDown hindex, hlength,
      show st.arrsize - (l.length - 1) = st.arrsize - l.length + 1 by omega, List.replicate_succ]
  have hwritten := hright.write (l.eraseIdx index) (by rw [hlength]; omega)
  rw [State.delet, hright.count, if_neg (Nat.not_le_of_lt hindex)]
  simp only [hcontents]
  rw [hlength] at hwritten ⊢
  exact hwritten

/-- There is a nulled element behind the list. -/
theorem grown (hright : Right zero st l) (hstep : 0 < step) :
    ∃ next, (if st.elcnt = st.arrsize then st.acc zero garbage step st.elcnt
        else ({ st with elcnt := st.elcnt + 1 }, some st.elcnt)) = (next, some l.length) ∧
      Right zero next (l ++ [zero]) := by
  have hlist : listAcc zero l.length l = l ++ [zero] := by
    rw [listAcc, Nat.add_sub_cancel_left]
    rfl
  have hfits := hright.fits
  split
  · have hacc := hright.acc garbage hstep l.length
    rw [hlist] at hacc
    rw [hright.count]
    exact ⟨_, Prod.ext rfl hacc.2, hacc.1⟩
  · next hroom =>
      rw [hright.count] at hroom ⊢
      refine ⟨_, rfl, (by rw [List.length_append]; rfl), ?_, ?_, hright.live, hright.empty, hright.owned,
        hright.once, hright.freed, hright.inside⟩
      · rw [List.length_append, List.length_singleton]
        change l.length + 1 ≤ st.arrsize
        omega
      · change st.contents = _
        rw [hright.contents, List.length_append, List.length_singleton, List.append_assoc,
          List.singleton_append, ← List.replicate_succ]
        congr 2
        change _ = st.arrsize - (l.length + 1) + 1
        omega

theorem insert (hright : Right zero st l) (hstep : 0 < step) (hindex : index < l.length) :
    Right zero (st.insert zero garbage step index).1 (l.insertIdx index zero) ∧
      (st.insert zero garbage step index).2 = some index := by
  obtain ⟨next, hnext, hgrown⟩ := hright.grown garbage hstep
  have hlength : (l.insertIdx index zero).length = l.length + 1 :=
    List.length_insertIdx_of_le_length (Nat.le_of_lt hindex) zero
  have hfits := hgrown.fits
  rw [List.length_append, List.length_singleton] at hfits
  have hcontents : init_elem zero (moveUp next.contents index (next.elcnt - 1 - index)) index =
      l.insertIdx index zero ++
        List.replicate (next.arrsize - (l.insertIdx index zero).length) zero := by
    rw [hgrown.contents, hgrown.count, List.length_append, List.length_singleton,
      Nat.add_sub_cancel, List.append_assoc, List.singleton_append, init_moveUp hindex, hlength]
  have hplaced : st.makePlace zero garbage step index =
      some (next.write (l.insertIdx index zero ++
        List.replicate (next.arrsize - (l.insertIdx index zero).length) zero)) := by
    simp only [State.makePlace, hnext, Option.map_some, hcontents]
  have hwritten := hgrown.write (l.insertIdx index zero) (by rw [hlength]; exact hfits)
  have hsame : ∀ contents, next.write contents =
      { next.write contents with elcnt := (l.insertIdx index zero).length } := by
    intro contents
    have hcount : (next.write contents).elcnt = (l.insertIdx index zero).length := by
      rw [hlength, State.write]
      have := hgrown.count
      rw [List.length_append, List.length_singleton] at this
      split <;> exact this
    rw [← hcount]
  rw [← hsame] at hwritten
  have hacc := hwritten.acc garbage hstep index
  rw [listAcc_inside (by rw [hlength]; omega)] at hacc
  rw [State.insert, hright.count, if_pos hindex, hplaced]
  exact hacc

theorem destruct (hright : Right zero st l) : Right zero st.destruct [] := by
  rw [State.destruct]
  split
  · next hempty =>
      have hfits := hright.fits
      rw [hempty] at hfits
      obtain rfl : l = [] := List.length_eq_zero_iff.mp (Nat.le_zero.mp hfits)
      exact hright
  · next hfull =>
      obtain ⟨x, hx⟩ := Option.ne_none_iff_exists'.mp fun hnone => hfull (hright.empty.mp hnone)
      rw [hx]
      refine ⟨rfl, Nat.le_refl _, rfl, nofun, iff_of_true rfl rfl, fun y _ => ?_, ?_, ?_, nofun⟩
      · change Function.update st.memory.block x none y = none
        by_cases hy : y = x
        · rw [hy, Function.update_self]
        · rw [Function.update_of_ne hy]
          exact hright.owned y fun hsame => hy (Option.some.inj (hsame.symm.trans hx))
      · exact List.nodup_cons.mpr ⟨fun hmem => (hright.freed x hmem).2 hx, hright.once⟩
      · intro y hy
        refine ⟨?_, nofun⟩
        obtain rfl | hy := List.mem_cons.mp hy
        · exact hright.inside y hx
        · exact (hright.freed y hy).1

theorem find [DecidableEq α] (hright : Right zero st l) (pattern : α) :
    st.find pattern = l.findIdx? fun element => decide (pattern = element) := by
  rw [State.find, hright.contents, hright.count, List.take_append_of_le_length (Nat.le_refl _),
    List.take_length]

theorem store (hright : Right zero st l) (value : α) (hindex : index < l.length) :
    Right zero (st.write (st.contents.set index value)) (l.set index value) := by
  have hlength : (l.set index value).length = l.length := List.length_set
  have hwritten := hright.write (l.set index value) (by rw [hlength]; exact hright.fits)
  have hcontents : st.contents.set index value =
      l.set index value ++ List.replicate (st.arrsize - (l.set index value).length) zero := by
    rw [hright.contents, List.set_append_left _ _ hindex, hlength]
  have hsame : ∀ contents, { st.write contents with elcnt := (l.set index value).length } =
      st.write contents := by
    intro contents
    have hcount : (st.write contents).elcnt = (l.set index value).length := by
      rw [hlength, ← hright.count, State.write]
      split <;> rfl
    rw [← hcount]
  rw [hsame] at hwritten
  rw [hcontents]
  exact hwritten

/-- The block of the elements does not survive `minimize`: it is freed again, or it is kept
although it has been freed. -/
theorem not_minimize {shorter : List α} (hright : Right zero st l) (hless : st.elcnt < st.arrsize) :
    ¬ Right zero (st.minimize garbage) shorter := by
  intro hminimized
  obtain ⟨x, hx⟩ := Option.ne_none_iff_exists'.mp fun hnone =>
    Nat.ne_of_gt (Nat.zero_lt_of_lt hless) (hright.empty.mp hnone)
  by_cases hzero : st.elcnt = 0
  · have hlast : st.minimize garbage =
        { st with memory := st.memory.corefree (some x), elems := some x, arrsize := 0 } := by
      rw [State.minimize, if_pos hless, hx, hzero]
      simp [Memory.corerealloc, Memory.corealloc]
    rw [hlast] at hminimized
    have hlive := hminimized.live x rfl
    change Function.update st.memory.block x none x = _ at hlive
    rw [Function.update_self] at hlive
    exact absurd hlive (by simp)
  · have hlast : (st.minimize garbage).memory.frees = x :: x :: st.memory.frees := by
      rw [State.minimize, if_pos hless, hx]
      simp [Memory.corerealloc, Memory.corealloc, hzero, Memory.corefree]
    have honce := hminimized.once
    rw [hlast] at honce
    exact (List.nodup_cons.mp honce).1 List.mem_cons_self

end Right

section Runs

variable {α : Type*} [DecidableEq α] {zero : α} {step : Nat} {st : State α} {l : List α}
variable (garbage : Nat → Nat → α)

/-- The operation meets the condition of a correct step. -/
def Op.Safe (st : State α) : Op α → Prop
  | .minimize => st.elcnt = st.arrsize
  | _ => True

theorem perform_right (hright : Right zero st l) (hstep : 0 < step) {op : Op α} (hsafe : op.Safe st) :
    Right zero (perform zero garbage step st op).1 (listPerform zero l op).1 ∧
      (perform zero garbage step st op).2 = (listPerform zero l op).2 := by
  cases op with
  | acc index => exact hright.acc garbage hstep index
  | next =>
      have hacc := hright.acc garbage hstep l.length
      rw [listAcc, Nat.add_sub_cancel_left] at hacc
      rw [perform, State.next, hright.count]
      exact hacc
  | store index value =>
      rw [perform, listPerform, hright.count]
      split
      · next hindex => exact ⟨hright.store value hindex, rfl⟩
      · next hindex =>
          rw [List.set_eq_of_length_le (Nat.le_of_not_lt hindex)]
          exact ⟨hright, rfl⟩
  | insert index =>
      rw [perform, listPerform]
      by_cases hindex : index < l.length
      · rw [if_pos hindex]
        exact hright.insert garbage hstep hindex
      · rw [if_neg hindex, State.insert, hright.count, if_neg hindex]
        exact hright.acc garbage hstep index
  | delet index =>
      rw [perform, listPerform]
      by_cases hindex : index < l.length
      · refine ⟨hright.delet hindex, ?_⟩
        rw [if_pos hindex, State.delet, hright.count, if_neg (Nat.not_le_of_lt hindex)]
        rfl
      · rw [List.eraseIdx_of_length_le (Nat.le_of_not_lt hindex), if_neg hindex, State.delet,
          hright.count, if_pos (Nat.le_of_not_lt hindex)]
        exact ⟨hright, rfl⟩
  | minimize =>
      have hfull : st.elcnt = st.arrsize := hsafe
      rw [perform, State.minimize, if_neg (Nat.not_lt_of_le (Nat.le_of_eq hfull.symm))]
      exact ⟨hright, rfl⟩
  | find pattern => exact ⟨hright, hright.find pattern⟩
  | destruct => exact ⟨hright.destruct, rfl⟩

omit [DecidableEq α] in
theorem init_right (arrsize : Nat) : Right zero (init zero garbage arrsize) [] := by
  by_cases hzero : arrsize = 0
  · rw [init, Memory.corealloc, if_pos hzero]
    exact ⟨rfl, Nat.le_refl _, rfl, nofun, iff_of_true rfl rfl, fun _ _ => rfl, List.nodup_nil,
      nofun, nofun⟩
  · have hcontents : initElems zero ((List.range arrsize).map (garbage 0)) 0 arrsize =
        List.replicate arrsize zero := by
      rw [initElems_eq (by simp), List.take_zero, List.nil_append]
    have hinit : init zero garbage arrsize =
        ⟨⟨Function.update (fun _ => none) 0 (some (List.replicate arrsize zero)), 1, []⟩, 0, arrsize,
          some 0⟩ := by
      simp [init, Memory.corealloc, Memory.noBlocks, hzero, State.write, State.contents, hcontents]
    rw [hinit]
    refine ⟨rfl, Nat.zero_le _, ?_, fun x hx => ?_, ?_, fun x hx => ?_, List.nodup_nil, nofun,
      fun x hx => ?_⟩
    · simp [State.contents]
    · obtain rfl : 0 = x := Option.some.inj hx
      simp [State.contents]
    · exact iff_of_false (by simp) hzero
    · have hne : x ≠ 0 := fun hsame => hx (congrArg some hsame.symm)
      change Function.update (fun _ => none) 0 _ x = none
      rw [Function.update_of_ne hne]
    · obtain rfl : 0 = x := Option.some.inj hx
      exact Nat.one_pos

theorem performAll_append (done later : List (Op α)) :
    performAll zero garbage step (done ++ later) st =
      performAll zero garbage step later (performAll zero garbage step done st) := by
  induction done generalizing st with
  | nil => rfl
  | cons op rest ih => exact ih

theorem listPerformAll_append (done later : List (Op α)) :
    listPerformAll zero (done ++ later) l =
      listPerformAll zero later (listPerformAll zero done l) := by
  induction done generalizing l with
  | nil => rfl
  | cons op rest ih => exact ih

end Runs

/-- The initial size of an array and its step. -/
structure Sizes where
  arrsize : Nat
  step : Nat
  step_pos : 0 < step

section Verdict

variable {α : Type*} [DecidableEq α] (zero : α) (garbage : Nat → Nat → α) (sizes : Sizes)
variable (ops : List (Op α))

/-- The array after the operations. -/
def after (done : List (Op α)) : State α :=
  performAll zero garbage sizes.step done (init zero garbage sizes.arrsize)

def listAfter (done : List (Op α)) : List α := listPerformAll zero done []

/-- Every state reached is that of the list, and so is the result of every operation. -/
structure RunRight : Prop where
  states : ∀ done, done <+: ops → Right zero (after zero garbage sizes done) (listAfter zero done)
  results : ∀ done op, done ++ [op] <+: ops →
    (perform zero garbage sizes.step (after zero garbage sizes done) op).2 =
      (listPerform zero (listAfter zero done) op).2

variable {zero garbage sizes ops}

theorem after_append (done : List (Op α)) (op : Op α) : after zero garbage sizes (done ++ [op]) =
    (perform zero garbage sizes.step (after zero garbage sizes done) op).1 := by
  rw [after, performAll_append]
  rfl

theorem listAfter_append (done : List (Op α)) (op : Op α) :
    listAfter zero (done ++ [op]) = (listPerform zero (listAfter zero done) op).1 := by
  rw [listAfter, listPerformAll_append]
  rfl

theorem after_right (hsafe : ∀ done op, done ++ [op] <+: ops → op.Safe (after zero garbage sizes done))
    (done : List (Op α)) (hdone : done <+: ops) :
    Right zero (after zero garbage sizes done) (listAfter zero done) := by
  induction done using List.reverseRecOn with
  | nil => exact init_right garbage sizes.arrsize
  | append_singleton done op ih =>
      rw [after_append, listAfter_append]
      exact (perform_right garbage (ih ((List.prefix_append done [op]).trans hdone)) sizes.step_pos
        (hsafe done op hdone)).1

theorem safe_of_states (hstates : ∀ done, done <+: ops →
      Right zero (after zero garbage sizes done) (listAfter zero done))
    (done : List (Op α)) (op : Op α) (hdone : done ++ [op] <+: ops) :
    op.Safe (after zero garbage sizes done) := by
  cases op with
  | minimize =>
      have hbefore := hstates done ((List.prefix_append done [_]).trans hdone)
      have hafter := hstates _ hdone
      rw [after_append] at hafter
      have hfits : (after zero garbage sizes done).elcnt ≤ (after zero garbage sizes done).arrsize :=
        Nat.le_trans (Nat.le_of_eq hbefore.count) hbefore.fits
      refine Nat.le_antisymm hfits (Nat.le_of_not_lt fun hless => ?_)
      exact hbefore.not_minimize garbage hless hafter
  | _ => trivial

end Verdict

end Sql602.Dynar
