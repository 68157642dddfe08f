import Sql602.Journal.Worm
import Sql602.Library.Chains

namespace Sql602.Journal

open Links

/-! What is added to the buffer is measured and read, and the parts are freed. -/

namespace Worm

/-- The parts with their contents, in the order of the chain. -/
abbrev Cells := List (Nat × List UInt8)

def nextOf (w : Worm) (p : Nat) : Option Nat := (w.parts p).bind Wormbeg.next

def Holds (w : Worm) (cell : Nat × List UInt8) : Prop :=
  ∃ next items, w.parts cell.1 = some ⟨w.partsize, cell.2.length, next, items⟩ ∧
    items.length = w.partsize ∧ cell.2 <+: items

/-- The chain of the live parts; all the others have been freed exactly once. -/
structure Chain (w : Worm) (cells : Cells) : Prop where
  partsize : 0 < w.partsize
  linked : Linked w.nextOf (some w.firstpart) (cells.map Prod.fst)
  holds : ∀ cell ∈ cells, w.Holds cell
  nodup : (cells.map Prod.fst).Nodup
  live : ∀ p, (w.parts p).isSome = true ↔ p ∈ cells.map Prod.fst
  fresh : ∀ p ∈ cells.map Prod.fst, p < w.fresh
  frees : ∀ p, w.frees.count p = if p < w.fresh ∧ p ∉ cells.map Prod.fst then 1 else 0

/-- The position is in the part behind `front`. -/
structure Here (w : Worm) (front : Cells) (p : Nat) (data : List UInt8) (rest : Cells) :
    Prop where
  chain : w.Chain (front ++ (p, data) :: rest)
  curr : w.currCoreptr = p
  pos : w.currpos ≤ data.length

def contents (cells : Cells) : List UInt8 := (cells.map Prod.snd).flatten

section Positions

variable {w : Worm} {front rest cells : Cells} {p : Nat} {data : List UInt8}

theorem Chain.part (hchain : w.Chain (front ++ (p, data) :: rest)) :
    ∃ items, w.parts p = some ⟨w.partsize, data.length, (rest.map Prod.fst).head?, items⟩ ∧
      items.length = w.partsize ∧ data <+: items := by
  obtain ⟨next, items, hpart, hlength, hstarts⟩ :=
    hchain.holds (p, data) (List.mem_append_right _ List.mem_cons_self)
  have hlinked := hchain.linked
  rw [List.map_append, List.map_cons] at hlinked
  have hnext : w.nextOf p = (rest.map Prod.fst).head? := hlinked.next_eq
  rw [nextOf, hpart] at hnext
  obtain rfl : next = (rest.map Prod.fst).head? := hnext
  exact ⟨items, hpart, hlength, hstarts⟩

theorem Here.part (hhere : w.Here front p data rest) :
    ∃ items, w.curr = some ⟨w.partsize, data.length, (rest.map Prod.fst).head?, items⟩ ∧
      items.length = w.partsize ∧ data <+: items := by
  rw [Worm.curr, hhere.curr]
  exact hhere.chain.part

/-- Only the position changes. -/
theorem Chain.moved (hchain : w.Chain cells) (currCoreptr currpos : Nat) (failed : Bool) :
    Chain { w with currCoreptr, currpos, failed } cells where
  partsize := hchain.partsize
  linked := hchain.linked
  holds := hchain.holds
  nodup := hchain.nodup
  live := hchain.live
  fresh := hchain.fresh
  frees := hchain.frees

theorem Chain.start (hchain : w.Chain cells) :
    ∃ data rest, cells = (w.firstpart, data) :: rest ∧ w.reset.Here [] w.firstpart data rest := by
  cases cells with
  | nil => exact absurd hchain.linked (Option.some_ne_none _)
  | cons cell rest =>
      obtain ⟨p, data⟩ := cell
      obtain rfl : w.firstpart = p := Option.some.inj hchain.linked.1
      exact ⟨data, rest, rfl, hchain.moved _ _ _, rfl, Nat.zero_le _⟩

theorem Chain.length_le (hchain : w.Chain cells) : cells.length ≤ w.fresh := by
  have hsub : cells.map Prod.fst ⊆ List.range w.fresh := fun p hp =>
    List.mem_range.mpr (hchain.fresh p hp)
  have hle := (hchain.nodup.subperm hsub).length_le
  rwa [List.length_map, List.length_range] at hle

/-! The step without `cat`. -/

variable (memory : Nat → Bool) (garbage : Nat → Nat → UInt8)

theorem Here.step_next {q : Nat} {object : List UInt8}
    (hhere : w.Here front p data ((q, object) :: rest)) :
    step memory garbage false w = some (false, { w with currpos := 0, currCoreptr := q }) ∧
    Here { w with currpos := 0, currCoreptr := q } (front ++ [(p, data)]) q object rest := by
  obtain ⟨items, hcurr, -, -⟩ := hhere.part
  refine ⟨?_, ?_, rfl, Nat.zero_le _⟩
  · rw [step, hcurr]
    rfl
  · rw [List.append_assoc]
    exact hhere.chain.moved _ _ _

theorem Here.step_last (hhere : w.Here front p data []) :
    step memory garbage false w = some (false, { w with currpos := data.length }) ∧
    Here { w with currpos := data.length } front p data [] := by
  obtain ⟨items, hcurr, -, -⟩ := hhere.part
  refine ⟨?_, hhere.chain.moved _ _ _, hhere.curr, Nat.le_refl _⟩
  rw [step, hcurr]
  rfl

/-! Reading. -/

theorem slice_starts {items : List UInt8} {pos n : Nat} (hstarts : data <+: items)
    (hpos : pos ≤ data.length) (hn : n ≤ data.length - pos) :
    (items.drop pos).take n = (data.drop pos).take n := by
  obtain ⟨garbage, rfl⟩ := hstarts
  rw [List.drop_append_of_le_length hpos, List.take_append_of_le_length]
  rw [List.length_drop]
  exact hn

theorem Here.advanced (hhere : w.Here front p data rest) {currpos : Nat}
    (hpos : currpos ≤ data.length) : Here { w with currpos } front p data rest where
  chain := hhere.chain.moved _ _ _
  curr := hhere.curr
  pos := hpos

/-- What is left behind the position. -/
def left (w : Worm) (data : List UInt8) (rest : Cells) : List UInt8 :=
  data.drop w.currpos ++ contents rest

/-- The part at the position ends the reading, or all of it is copied. -/
theorem Here.copyLoop_turn (hhere : w.Here front p data rest) (fuel size : Nat)
    (copied : List UInt8) :
    (rest = [] ∧ w.currpos = data.length ∧
      copyLoop memory garbage (fuel + 1) w size copied = some (copied, w)) ∨
    (size ≤ data.length - w.currpos ∧
      copyLoop memory garbage (fuel + 1) w size copied =
        some (copied ++ (data.drop w.currpos).take size, { w with currpos := w.currpos + size })) ∨
    (data.length - w.currpos < size ∧
      copyLoop memory garbage (fuel + 1) w size copied =
        (step memory garbage false { w with currpos := data.length }).bind fun (error, w') =>
          if error then some (copied ++ data.drop w.currpos, w')
          else copyLoop memory garbage fuel w' (size - (data.length - w.currpos))
            (copied ++ data.drop w.currpos)) := by
  obtain ⟨items, hcurr, -, hstarts⟩ := hhere.part
  have hpos := hhere.pos
  rw [copyLoop, hcurr, Option.bind_some]
  dsimp only
  by_cases hend : data.length ≤ w.currpos ∧ (rest.map Prod.fst).head? = none
  · rw [if_pos hend]
    rw [List.head?_eq_none_iff, List.map_eq_nil_iff] at hend
    exact .inl ⟨hend.2, Nat.le_antisymm hpos hend.1, rfl⟩
  · rw [if_neg hend, slice_starts hstarts hpos (Nat.min_le_left _ _)]
    by_cases hsize : size ≤ data.length - w.currpos
    · rw [Nat.min_eq_right hsize, Nat.sub_self, if_pos rfl]
      exact .inr (.inl ⟨hsize, rfl⟩)
    · have hlt := Nat.not_le.mp hsize
      have hall : (data.drop w.currpos).take (data.length - w.currpos) = data.drop w.currpos := by
        rw [← List.length_drop, List.take_length]
      rw [Nat.min_eq_left hlt.le, if_neg (Nat.sub_ne_zero_of_lt hlt), hall,
        Nat.add_sub_cancel' hpos]
      exact .inr (.inr ⟨hlt, rfl⟩)

theorem Here.copyLoop_end {fuel size : Nat} {copied : List UInt8} (hhere : w.Here front p data [])
    (hend : w.currpos = data.length) :
    copyLoop memory garbage (fuel + 1) w size copied = some (copied, w) := by
  obtain ⟨items, hcurr, -, -⟩ := hhere.part
  rw [copyLoop, hcurr, Option.bind_some]
  exact if_pos ⟨hend.ge, rfl⟩

theorem left_inside (w : Worm) (rest : Cells) {size : Nat} (hpos : w.currpos ≤ data.length)
    (hsize : size ≤ data.length - w.currpos) :
    (w.left data rest).take size = (data.drop w.currpos).take size ∧
    (w.left data rest).drop size = data.drop (w.currpos + size) ++ contents rest := by
  have hle : size ≤ (data.drop w.currpos).length := by
    rw [List.length_drop]
    exact hsize
  rw [left, List.take_append_of_le_length hle, List.drop_append_of_le_length hle, List.drop_drop]
  exact ⟨rfl, rfl⟩

theorem left_beyond (w : Worm) (rest : Cells) {size : Nat} (hsize : data.length - w.currpos ≤ size) :
    (w.left data rest).take size =
      data.drop w.currpos ++ (contents rest).take (size - (data.length - w.currpos)) ∧
    (w.left data rest).drop size = (contents rest).drop (size - (data.length - w.currpos)) := by
  have hle : (data.drop w.currpos).length ≤ size := by
    rw [List.length_drop]
    exact hsize
  rw [left, List.take_append, List.drop_append, List.take_of_length_le hle,
    List.drop_of_length_le hle, List.length_drop]
  exact ⟨rfl, rfl⟩

/-- One call of `worm_copy`. -/
theorem Here.copyLoop_spec {fuel : Nat} (size : Nat) (copied : List UInt8)
    (hhere : w.Here front p data rest) (hfuel : rest.length + 2 ≤ fuel) :
    ∃ w' front' p' data' rest',
      copyLoop memory garbage fuel w size copied =
        some (copied ++ (w.left data rest).take size, w') ∧
      w'.Here front' p' data' rest' ∧ w'.left data' rest' = (w.left data rest).drop size := by
  induction rest generalizing w front p data size copied fuel with
  | nil =>
      obtain ⟨fuel, rfl⟩ := Nat.exists_eq_add_of_le' hfuel
      obtain ⟨-, hend, hturn⟩ | ⟨hsize, hturn⟩ | ⟨hsize, hturn⟩ :=
        hhere.copyLoop_turn memory garbage (fuel + 1) size copied
      · have hnothing : w.left data [] = [] := by
          rw [left, hend, List.drop_length]
          rfl
        refine ⟨w, front, p, data, [], hturn.trans ?_, hhere, ?_⟩
        · rw [hnothing, List.take_nil, List.append_nil]
        · rw [hnothing, List.drop_nil]
      · obtain ⟨htake, hdrop⟩ := left_inside w [] hhere.pos hsize
        have hinside : w.currpos + size ≤ data.length := by
          have hpos := hhere.pos
          omega
        refine ⟨{ w with currpos := w.currpos + size }, front, p, data, [], hturn.trans ?_,
          hhere.advanced hinside, hdrop.symm⟩
        rw [htake]
      · obtain ⟨htake, hdrop⟩ := left_beyond w [] hsize.le
        obtain ⟨hstep, hlast⟩ := (hhere.advanced (Nat.le_refl _)).step_last memory garbage
        refine ⟨_, front, p, data, [], hturn.trans ?_, hlast, ?_⟩
        · rw [hstep, htake]
          refine (hlast.copyLoop_end memory garbage rfl).trans ?_
          rw [contents, List.map_nil, List.flatten_nil, List.take_nil, List.append_nil]
        · rw [hdrop, left, List.drop_length]
          exact List.drop_nil.symm
  | cons cell rest ih =>
      obtain ⟨q, object⟩ := cell
      obtain ⟨fuel, rfl⟩ := Nat.exists_eq_add_of_le' hfuel
      obtain ⟨hnil, -⟩ | ⟨hsize, hturn⟩ | ⟨hsize, hturn⟩ :=
        hhere.copyLoop_turn memory garbage (fuel + (rest.length + 2)) size copied
      · cases hnil
      · obtain ⟨htake, hdrop⟩ := left_inside w ((q, object) :: rest) hhere.pos hsize
        have hinside : w.currpos + size ≤ data.length := by
          have hpos := hhere.pos
          omega
        refine ⟨{ w with currpos := w.currpos + size }, front, p, data, _, hturn.trans ?_,
          hhere.advanced hinside, hdrop.symm⟩
        rw [htake]
      · obtain ⟨htake, hdrop⟩ := left_beyond w ((q, object) :: rest) hsize.le
        obtain ⟨hstep, hnext⟩ := (hhere.advanced (Nat.le_refl _)).step_next memory garbage
        obtain ⟨w', front', p', data', rest', hcopy, hhere', hleft⟩ :=
          ih (size - (data.length - w.currpos)) (copied ++ data.drop w.currpos) hnext
            (Nat.le_add_left _ fuel)
        refine ⟨w', front', p', data', rest', hturn.trans ?_, hhere', ?_⟩
        · rw [hstep, htake, ← List.append_assoc]
          exact hcopy
        · rw [hleft, hdrop]
          rfl

end Positions

end Worm

end Sql602.Journal
