import Mathlib.Algebra.Group.Nat.Defs
import Mathlib.Logic.Function.Basic
import Mathlib.Data.List.Basic
import Sql602.Library.Run

namespace Sql602.Disk

/-! Redirection of bad blocks. A block is a row of 1024 block numbers; what a
data block means does not matter here. A remap block holds 512 numbers of logical
blocks and then the 512 numbers of the blocks that they are redirected to. -/

abbrev Block := Nat → Nat

/-- The logical block of an entry that only marks a block as bad. -/
def noBlock : Nat := 2 ^ 32 - 1

/-- `remapFrom` and `remapTo` have `remapnum` entries; the cells behind them are
spare. `faults` tells for each of the following writes whether it fails. -/
structure Remap where
  remapFrom : Nat → Nat
  remapTo : Nat → Nat
  remapnum : Nat
  remapblocks : Nat → Nat
  bpoolFirst : Nat
  disc : Nat → Block
  faults : List Bool

namespace Remap

/-- The results of functions that write start with the error flag. -/
def rawWriteBlock (ffa : Remap) (dest : Nat) (contents : Block) : Bool × Remap :=
  match ffa.faults with
  | true :: faults => (true, { ffa with faults })
  | false :: faults => (false, { ffa with disc := Function.update ffa.disc dest contents, faults })
  | [] => (false, { ffa with disc := Function.update ffa.disc dest contents })

def findFrom (ffa : Remap) (logblocknum : Nat) : Option Nat :=
  (List.range ffa.remapnum).find? fun i => ffa.remapFrom i = logblocknum

/-- The search of the source ends at a sentinel that it puts behind the table. -/
def translateBlocknum (ffa : Remap) (logblocknum : Nat) : Nat :=
  match ffa.findFrom logblocknum with
  | none => logblocknum
  | some i => ffa.remapTo i

def sysReadBlock (ffa : Remap) (fromWhere : Nat) : Block :=
  ffa.disc (ffa.translateBlocknum fromWhere)

def remapImage (ffa : Remap) (remapBlockNum : Nat) : Block := fun i =>
  if i < 512 then ffa.remapFrom (remapBlockNum * 512 + i)
  else ffa.remapTo (remapBlockNum * 512 + (i - 512))

/-- A remap block that is not allocated is passed over. -/
def resaveBlock (ffa : Remap) (remapBlockNum : Nat) : Bool × Remap :=
  if ffa.remapblocks remapBlockNum = 0 then (false, ffa)
  else ffa.rawWriteBlock (ffa.bpoolFirst + ffa.remapblocks remapBlockNum)
    (ffa.remapImage remapBlockNum)

def resaveLoop : Nat → Nat → Remap → Bool × Remap
  | 0, _, ffa => (false, ffa)
  | fuel + 1, remapBlockNum, ffa =>
      let saved := ffa.resaveBlock remapBlockNum
      if saved.1 then saved
      else if saved.2.remapnum > (remapBlockNum + 1) * 512 then
        resaveLoop fuel (remapBlockNum + 1) saved.2
      else saved

def resaveRemap (ffa : Remap) : Bool × Remap := resaveLoop (ffa.remapnum + 1) 0 ffa

/-- The new table is read from the first remap block all the time: the index of
the block is never advanced. -/
def remapInitLoop : Nat → Nat → Nat → Remap → Remap
  | 0, _, _, ffa => ffa
  | fuel + 1, remapRest, movePos, ffa =>
      if remapRest = 0 then ffa
      else
        let corepool := ffa.disc (ffa.bpoolFirst + ffa.remapblocks 0)
        let moveAmount := if remapRest < 512 then remapRest else 512
        remapInitLoop fuel (remapRest - moveAmount) (movePos + moveAmount)
          { ffa with
            remapFrom := fun i =>
              if movePos ≤ i ∧ i < movePos + moveAmount then corepool (i - movePos)
              else ffa.remapFrom i
            remapTo := fun i =>
              if movePos ≤ i ∧ i < movePos + moveAmount then corepool (512 + (i - movePos))
              else ffa.remapTo i }

def remapInit (ffa : Remap) : Remap :=
  remapInitLoop ffa.remapnum ffa.remapnum 0 { ffa with remapFrom := fun _ => 0, remapTo := fun _ => 0 }

/-- Two remap blocks are all that the header has room for. The entry is in force
even when the table cannot be saved. -/
def addToRemap (ffa : Remap) (fromPlace toPlace : Nat) : Bool × Remap :=
  let stored : Remap :=
    { ffa with
      remapFrom := Function.update ffa.remapFrom ffa.remapnum fromPlace
      remapTo := Function.update ffa.remapTo ffa.remapnum toPlace }
  if ffa.remapnum / 512 ≥ 2 then (true, stored)
  else { stored with remapnum := ffa.remapnum + 1 }.resaveRemap

/-- An existing redirection is changed and its old target marked as bad. -/
def redirect (ffa : Remap) (whereTo physWhereTo newPlace : Nat) : Bool × Remap :=
  if whereTo ≠ physWhereTo then
    match ffa.findFrom whereTo with
    | none => (true, ffa)
    | some i =>
        { ffa with remapTo := Function.update ffa.remapTo i newPlace }.addToRemap
          noBlock physWhereTo
  else ffa.addToRemap whereTo newPlace

/-- `grants` are the answers of the disk space to the requests for a block; when
there is no more, the request has failed. -/
def redirectLoop (contents : Block) (whereTo physWhereTo : Nat) :
    Nat → List Nat → Remap → Bool × Remap
  | _, [], ffa => (true, ffa)
  | count, block :: grants, ffa =>
      let newPlace := block + ffa.bpoolFirst
      let written := ffa.rawWriteBlock newPlace contents
      if ¬ written.1 then written.2.redirect whereTo physWhereTo newPlace
      else
        let added := written.2.addToRemap noBlock newPlace
        if added.1 then added
        else
          match count with
          | 0 => (true, added.2)
          | count + 1 => redirectLoop contents whereTo physWhereTo count grants added.2

/-- `entered` tells whether the critical section of the block pools is free. -/
def sysWriteBlock (ffa : Remap) (contents : Block) (whereTo : Nat) (entered : Bool)
    (grants : List Nat) : Bool × Remap :=
  let physWhereTo := ffa.translateBlocknum whereTo
  let written := ffa.rawWriteBlock physWhereTo contents
  if ¬ written.1 then written
  else if ¬ entered then written
  else redirectLoop contents whereTo physWhereTo 3 grants written.2

end Remap

end Sql602.Disk

namespace Sql602.Disk

namespace Remap

variable {ffa next : Remap}

/-! The table as a map of blocks. -/

theorem findFrom_eq_none {logblocknum : Nat} :
    ffa.findFrom logblocknum = none ↔ ∀ i < ffa.remapnum, ffa.remapFrom i ≠ logblocknum := by
  simp [findFrom, List.find?_eq_none]

theorem findFrom_eq_some {logblocknum i : Nat} :
    ffa.findFrom logblocknum = some i ↔
      i < ffa.remapnum ∧ ffa.remapFrom i = logblocknum ∧
        ∀ j < i, ffa.remapFrom j ≠ logblocknum := by
  rw [findFrom, List.find?_range_eq_some]
  simp only [decide_eq_true_eq, List.mem_range, Bool.not_eq_true', decide_eq_false_iff_not]
  tauto

/-- Translation depends on the entries in force only. -/
theorem findFrom_congr {logblocknum : Nat} (hnum : next.remapnum = ffa.remapnum)
    (hfrom : ∀ i < ffa.remapnum, next.remapFrom i = ffa.remapFrom i) :
    next.findFrom logblocknum = ffa.findFrom logblocknum := by
  cases hfind : ffa.findFrom logblocknum with
  | none =>
      rw [findFrom_eq_none] at hfind ⊢
      intro i hi
      rw [hfrom i (hnum ▸ hi)]
      exact hfind i (hnum ▸ hi)
  | some i =>
      rw [findFrom_eq_some] at hfind ⊢
      obtain ⟨hi, heq, hfirst⟩ := hfind
      refine ⟨by omega, by rw [hfrom i hi, heq], fun j hj => ?_⟩
      rw [hfrom j (by omega)]
      exact hfirst j hj

theorem translate_congr {logblocknum : Nat} (hnum : next.remapnum = ffa.remapnum)
    (hfrom : ∀ i < ffa.remapnum, next.remapFrom i = ffa.remapFrom i)
    (hto : ∀ i < ffa.remapnum, next.remapTo i = ffa.remapTo i) :
    next.translateBlocknum logblocknum = ffa.translateBlocknum logblocknum := by
  rw [translateBlocknum, translateBlocknum, findFrom_congr hnum hfrom]
  cases hfind : ffa.findFrom logblocknum with
  | none => rfl
  | some i => exact hto i (findFrom_eq_some.mp hfind).1

/-- What comes out of the translation is the block itself or a target. -/
theorem translate_cases (ffa : Remap) (logblocknum : Nat) :
    ffa.findFrom logblocknum = none ∧ ffa.translateBlocknum logblocknum = logblocknum ∨
      ∃ i, ffa.findFrom logblocknum = some i ∧
        ffa.translateBlocknum logblocknum = ffa.remapTo i := by
  cases hfind : ffa.findFrom logblocknum with
  | none => exact Or.inl ⟨rfl, by simp [translateBlocknum, hfind]⟩
  | some i => exact Or.inr ⟨i, rfl, by simp [translateBlocknum, hfind]⟩

def remapBlock (ffa : Remap) : Nat := ffa.bpoolFirst + ffa.remapblocks 0

/-- The table and the place of the remap block; `last` is what was written last
to the logical blocks in use. -/
structure Sound (ffa : Remap) (last : Nat → Option Block) : Prop where
  first : ffa.remapblocks 0 ≠ 0
  second : ffa.remapblocks 1 = 0
  small : ffa.remapnum ≤ 1024
  distinct : ∀ i < ffa.remapnum, ∀ j < ffa.remapnum,
    ffa.remapTo i = ffa.remapTo j → i = j
  saved : ∀ i < ffa.remapnum, ffa.remapTo i ≠ ffa.remapBlock
  used : ∀ block, last block ≠ none →
    block ≠ noBlock ∧ block ≠ ffa.remapBlock ∧ ∀ i < ffa.remapnum, ffa.remapTo i ≠ block
  contents : ∀ block contents, last block = some contents → ffa.sysReadBlock block = contents

/-- Two blocks that are not targets themselves are not mapped to one block. -/
theorem Sound.translate_inj {last : Nat → Option Block} (hsound : ffa.Sound last)
    {block block' : Nat} (hblock : ∀ i < ffa.remapnum, ffa.remapTo i ≠ block)
    (hblock' : ∀ i < ffa.remapnum, ffa.remapTo i ≠ block') (hne : block ≠ block') :
    ffa.translateBlocknum block ≠ ffa.translateBlocknum block' := by
  rcases ffa.translate_cases block with ⟨_, heq⟩ | ⟨i, hi, heq⟩
  · rcases ffa.translate_cases block' with ⟨_, heq'⟩ | ⟨j, hj, heq'⟩
    · rw [heq, heq']
      exact hne
    · rw [heq, heq']
      exact (hblock j (findFrom_eq_some.mp hj).1).symm
  · obtain ⟨hlt, hfrom, _⟩ := findFrom_eq_some.mp hi
    rcases ffa.translate_cases block' with ⟨_, heq'⟩ | ⟨j, hj, heq'⟩
    · rw [heq, heq']
      exact hblock' i hlt
    · obtain ⟨hlt', hfrom', _⟩ := findFrom_eq_some.mp hj
      rw [heq, heq']
      intro hsame
      obtain rfl := hsound.distinct i hlt j hlt' hsame
      exact hne (hfrom.symm.trans hfrom')

/-! Raw writes. -/

theorem rawWriteBlock_cases (ffa : Remap) (dest : Nat) (contents : Block) :
    (∃ faults, ffa.rawWriteBlock dest contents = (true, { ffa with faults })) ∨
      ∃ faults, ffa.rawWriteBlock dest contents =
        (false, { ffa with disc := Function.update ffa.disc dest contents, faults }) := by
  simp only [rawWriteBlock]
  split
  · exact Or.inl ⟨_, rfl⟩
  · exact Or.inr ⟨_, rfl⟩
  · exact Or.inr ⟨ffa.faults, rfl⟩

theorem rawWriteBlock_good {dest : Nat} {contents : Block}
    (hgood : ffa.faults.headD false = false) :
    ffa.rawWriteBlock dest contents =
      (false,
        { ffa with
          disc := Function.update ffa.disc dest contents
          faults := ffa.faults.tail }) := by
  simp only [rawWriteBlock]
  cases hfaults : ffa.faults with
  | nil => simp only [List.tail_nil]
  | cons fault faults =>
      rw [hfaults, List.headD_cons] at hgood
      rw [hgood]
      rfl

theorem rawWriteBlock_bad {dest : Nat} {contents : Block}
    (hbad : ffa.faults.headD false = true) :
    ffa.rawWriteBlock dest contents = (true, { ffa with faults := ffa.faults.tail }) := by
  simp only [rawWriteBlock]
  cases hfaults : ffa.faults with
  | nil => simp [hfaults] at hbad
  | cons fault faults =>
      rw [hfaults, List.headD_cons] at hbad
      rw [hbad]
      rfl

theorem rawWriteBlock_frame (ffa : Remap) (dest : Nat) (contents : Block) :
    ∃ disc, ffa.rawWriteBlock dest contents =
      (ffa.faults.headD false, { ffa with disc, faults := ffa.faults.tail }) := by
  cases hfault : ffa.faults.headD false with
  | false => exact ⟨_, rawWriteBlock_good hfault⟩
  | true => exact ⟨ffa.disc, rawWriteBlock_bad hfault⟩

theorem Sound.changeDisc {last : Nat → Option Block} {disc : Nat → Block} {faults : List Bool}
    (hsound : ffa.Sound last)
    (hdisc : ∀ block, last block ≠ none →
      disc (ffa.translateBlocknum block) = ffa.disc (ffa.translateBlocknum block)) :
    ({ ffa with disc, faults } : Remap).Sound last where
  first := hsound.first
  second := hsound.second
  small := hsound.small
  distinct := hsound.distinct
  saved := hsound.saved
  used := hsound.used
  contents := fun block contents hlast =>
    (hdisc block (by rw [hlast]; simp)).trans (hsound.contents block contents hlast)

theorem translate_ne {block dest : Nat} (hdest : ∀ i < ffa.remapnum, ffa.remapTo i ≠ dest)
    (hne : block ≠ dest) : ffa.translateBlocknum block ≠ dest := by
  rcases ffa.translate_cases block with ⟨_, heq⟩ | ⟨i, hi, heq⟩
  · rw [heq]
    exact hne
  · rw [heq]
    exact hdest i (findFrom_eq_some.mp hi).1

/-- A write to a place that no block in use is mapped to. -/
theorem Sound.rawWriteBlock {last : Nat → Option Block} {dest : Nat} (contents : Block)
    (hsound : ffa.Sound last) (hdest : ∀ i < ffa.remapnum, ffa.remapTo i ≠ dest)
    (hfree : ∀ block, last block ≠ none → block ≠ dest) :
    (ffa.rawWriteBlock dest contents).2.Sound last := by
  rcases ffa.rawWriteBlock_cases dest contents with ⟨faults, heq⟩ | ⟨faults, heq⟩
  · rw [heq]
    exact hsound.changeDisc fun _ _ => rfl
  · rw [heq]
    refine hsound.changeDisc fun block hused => ?_
    exact Function.update_of_ne (translate_ne hdest (hfree block hused)) ..

theorem resaveRemap_eq (hfirst : ffa.remapblocks 0 ≠ 0) (hsecond : ffa.remapblocks 1 = 0)
    (hsmall : ffa.remapnum ≤ 1024) :
    ffa.resaveRemap = ffa.rawWriteBlock ffa.remapBlock (ffa.remapImage 0) := by
  have hfirstBlock : ffa.resaveBlock 0 = ffa.rawWriteBlock ffa.remapBlock (ffa.remapImage 0) :=
    if_neg hfirst
  simp only [resaveRemap, resaveLoop, hfirstBlock]
  rcases ffa.rawWriteBlock_cases ffa.remapBlock (ffa.remapImage 0) with
    ⟨faults, heq⟩ | ⟨faults, heq⟩
  · simp only [heq, if_true]
  · simp only [heq, Bool.false_eq_true, if_false]
    split
    case isTrue hmore =>
      obtain ⟨fuel, hfuel⟩ : ∃ fuel, ffa.remapnum = fuel + 1 :=
        ⟨ffa.remapnum - 1, by omega⟩
      rw [hfuel, resaveLoop]
      simp only [resaveBlock, hsecond, if_true, Bool.false_eq_true, if_false]
      rw [if_neg (by omega)]
    case isFalse => rfl

theorem Sound.resaveRemap {last : Nat → Option Block} (hsound : ffa.Sound last) :
    ffa.resaveRemap.2.Sound last := by
  rw [resaveRemap_eq hsound.first hsound.second hsound.small]
  exact hsound.rawWriteBlock _ hsound.saved fun block hused => (hsound.used block hused).2.1

/-! A new entry. -/

def pushEntry (ffa : Remap) (fromPlace toPlace : Nat) : Remap :=
  { ffa with
    remapFrom := Function.update ffa.remapFrom ffa.remapnum fromPlace
    remapTo := Function.update ffa.remapTo ffa.remapnum toPlace
    remapnum := ffa.remapnum + 1 }

@[simp] theorem pushEntry_from_old {fromPlace toPlace i : Nat} (hi : i < ffa.remapnum) :
    (ffa.pushEntry fromPlace toPlace).remapFrom i = ffa.remapFrom i :=
  Function.update_of_ne (by omega) ..

@[simp] theorem pushEntry_to_old {fromPlace toPlace i : Nat} (hi : i < ffa.remapnum) :
    (ffa.pushEntry fromPlace toPlace).remapTo i = ffa.remapTo i :=
  Function.update_of_ne (by omega) ..

@[simp] theorem pushEntry_from_new {fromPlace toPlace : Nat} :
    (ffa.pushEntry fromPlace toPlace).remapFrom ffa.remapnum = fromPlace :=
  Function.update_self ..

@[simp] theorem pushEntry_to_new {fromPlace toPlace : Nat} :
    (ffa.pushEntry fromPlace toPlace).remapTo ffa.remapnum = toPlace :=
  Function.update_self ..

theorem translate_pushEntry {fromPlace toPlace block : Nat} (hne : fromPlace ≠ block) :
    (ffa.pushEntry fromPlace toPlace).translateBlocknum block = ffa.translateBlocknum block := by
  rcases ffa.translate_cases block with ⟨hnone, heq⟩ | ⟨i, hsome, heq⟩
  · have hpushed : (ffa.pushEntry fromPlace toPlace).findFrom block = none := by
      rw [findFrom_eq_none] at hnone ⊢
      intro i hi
      rcases Nat.lt_succ_iff_lt_or_eq.mp hi with hlt | rfl
      · rw [pushEntry_from_old hlt]
        exact hnone i hlt
      · rw [pushEntry_from_new]
        exact hne
    rw [heq, translateBlocknum, hpushed]
  · have hpushed : (ffa.pushEntry fromPlace toPlace).findFrom block = some i := by
      rw [findFrom_eq_some] at hsome ⊢
      obtain ⟨hi, hfrom, hfirst⟩ := hsome
      refine ⟨Nat.lt_succ_of_lt hi, by rw [pushEntry_from_old hi, hfrom], fun j hj => ?_⟩
      rw [pushEntry_from_old (by omega)]
      exact hfirst j hj
    rw [heq, translateBlocknum, hpushed]
    exact pushEntry_to_old (findFrom_eq_some.mp hsome).1

theorem translate_pushEntry_new {toPlace block : Nat} (hnone : ffa.findFrom block = none) :
    (ffa.pushEntry block toPlace).translateBlocknum block = toPlace := by
  have hpushed : (ffa.pushEntry block toPlace).findFrom block = some ffa.remapnum := by
    rw [findFrom_eq_some]
    refine ⟨Nat.lt_succ_self _, pushEntry_from_new, fun j hj => ?_⟩
    rw [pushEntry_from_old hj]
    exact findFrom_eq_none.mp hnone j hj
  rw [translateBlocknum, hpushed]
  exact pushEntry_to_new

theorem addToRemap_eq {fromPlace toPlace : Nat} (hroom : ffa.remapnum < 1024) :
    ffa.addToRemap fromPlace toPlace = (ffa.pushEntry fromPlace toPlace).resaveRemap := by
  rw [addToRemap]
  exact if_neg (by omega)

theorem addToRemap_full {fromPlace toPlace : Nat} (hfull : 1024 ≤ ffa.remapnum) :
    ffa.addToRemap fromPlace toPlace =
      (true,
        { ffa with
          remapFrom := Function.update ffa.remapFrom ffa.remapnum fromPlace
          remapTo := Function.update ffa.remapTo ffa.remapnum toPlace }) := by
  rw [addToRemap]
  exact if_pos (by omega)

/-- Two states whose tables have the same entries in force. -/
structure SameTable (ffa next : Remap) : Prop where
  num : next.remapnum = ffa.remapnum
  blocks : next.remapblocks = ffa.remapblocks
  base : next.bpoolFirst = ffa.bpoolFirst
  disc : next.disc = ffa.disc
  fromSame : ∀ i < ffa.remapnum, next.remapFrom i = ffa.remapFrom i
  toSame : ∀ i < ffa.remapnum, next.remapTo i = ffa.remapTo i

theorem SameTable.remapBlock (hsame : ffa.SameTable next) : next.remapBlock = ffa.remapBlock := by
  simp only [Remap.remapBlock, hsame.blocks, hsame.base]

theorem Sound.sameTable {last : Nat → Option Block} (hsound : ffa.Sound last)
    (hsame : ffa.SameTable next) : next.Sound last where
  first := by rw [hsame.blocks]; exact hsound.first
  second := by rw [hsame.blocks]; exact hsound.second
  small := by rw [hsame.num]; exact hsound.small
  distinct := by
    intro i hi j hj heq
    rw [hsame.num] at hi hj
    rw [hsame.toSame i hi, hsame.toSame j hj] at heq
    exact hsound.distinct i hi j hj heq
  saved := by
    intro i hi
    rw [hsame.num] at hi
    rw [hsame.toSame i hi, hsame.remapBlock]
    exact hsound.saved i hi
  used := by
    intro block hblock
    obtain ⟨hnone, hremap, hold⟩ := hsound.used block hblock
    refine ⟨hnone, hsame.remapBlock ▸ hremap, fun i hi => ?_⟩
    rw [hsame.num] at hi
    rw [hsame.toSame i hi]
    exact hold i hi
  contents := by
    intro block contents hlast
    rw [sysReadBlock, translate_congr hsame.num hsame.fromSame hsame.toSame, hsame.disc]
    exact hsound.contents block contents hlast

/-- A block that may become a target. -/
structure Free (ffa : Remap) (last : Nat → Option Block) (place : Nat) : Prop where
  target : ∀ i < ffa.remapnum, ffa.remapTo i ≠ place
  remap : place ≠ ffa.remapBlock
  unused : last place = none

theorem Sound.pushEntry {last last' : Nat → Option Block} {fromPlace toPlace : Nat}
    (hsound : ffa.Sound last) (hroom : ffa.remapnum < 1024) (hfree : ffa.Free last toPlace)
    (hused : ∀ block, last' block ≠ none →
      block ≠ noBlock ∧ block ≠ ffa.remapBlock ∧ block ≠ toPlace ∧
        ∀ i < ffa.remapnum, ffa.remapTo i ≠ block)
    (hcontents : ∀ block contents, last' block = some contents →
      (ffa.pushEntry fromPlace toPlace).sysReadBlock block = contents) :
    (ffa.pushEntry fromPlace toPlace).Sound last' where
  first := hsound.first
  second := hsound.second
  small := hroom
  distinct := by
    intro i hi j hj hsame
    rcases Nat.lt_succ_iff_lt_or_eq.mp hi with hlt | rfl
    · rcases Nat.lt_succ_iff_lt_or_eq.mp hj with hlt' | rfl
      · rw [pushEntry_to_old hlt, pushEntry_to_old hlt'] at hsame
        exact hsound.distinct i hlt j hlt' hsame
      · rw [pushEntry_to_old hlt, pushEntry_to_new] at hsame
        exact absurd hsame (hfree.target i hlt)
    · rcases Nat.lt_succ_iff_lt_or_eq.mp hj with hlt' | rfl
      · rw [pushEntry_to_old hlt', pushEntry_to_new] at hsame
        exact absurd hsame.symm (hfree.target j hlt')
      · rfl
  saved := by
    intro i hi
    rcases Nat.lt_succ_iff_lt_or_eq.mp hi with hlt | rfl
    · rw [pushEntry_to_old hlt]
      exact hsound.saved i hlt
    · rw [pushEntry_to_new]
      exact hfree.remap
  used := by
    intro block hblock
    obtain ⟨hnone, hremap, hnew, hold⟩ := hused block hblock
    refine ⟨hnone, hremap, fun i hi => ?_⟩
    rcases Nat.lt_succ_iff_lt_or_eq.mp hi with hlt | rfl
    · rw [pushEntry_to_old hlt]
      exact hold i hlt
    · rw [pushEntry_to_new]
      exact hnew.symm
  contents := hcontents

theorem Sound.addBad {last : Nat → Option Block} {place : Nat} (hsound : ffa.Sound last)
    (hfree : ffa.Free last place) : (ffa.addToRemap noBlock place).2.Sound last := by
  rcases Nat.lt_or_ge ffa.remapnum 1024 with hroom | hfull
  · rw [addToRemap_eq hroom]
    refine (hsound.pushEntry hroom hfree (fun block hblock => ?_)
      fun block contents hlast => ?_).resaveRemap
    · obtain ⟨hnone, hremap, hold⟩ := hsound.used block hblock
      refine ⟨hnone, hremap, ?_, hold⟩
      rintro rfl
      exact hblock hfree.unused
    · have hne := (hsound.used block (by rw [hlast]; simp)).1
      rw [sysReadBlock, translate_pushEntry hne.symm]
      exact hsound.contents block contents hlast
  · rw [addToRemap_full hfull]
    exact hsound.sameTable ⟨rfl, rfl, rfl, rfl, fun i hi => Function.update_of_ne (by omega) ..,
      fun i hi => Function.update_of_ne (by omega) ..⟩

theorem addToRemap_frame {last : Nat → Option Block} {fromPlace toPlace : Nat}
    (hsound : ffa.Sound last) (hroom : ffa.remapnum < 1024) :
    ∃ disc, ffa.addToRemap fromPlace toPlace =
      (ffa.faults.headD false,
        { ffa.pushEntry fromPlace toPlace with disc, faults := ffa.faults.tail }) := by
  have hresave : (ffa.pushEntry fromPlace toPlace).resaveRemap = _ :=
    resaveRemap_eq hsound.first hsound.second hroom
  rw [addToRemap_eq hroom, hresave]
  exact rawWriteBlock_frame ..

/-! Redirecting a block whose contents were written to a new place. -/

/-- A logical block that may be written. -/
structure Writable (ffa : Remap) (block : Nat) : Prop where
  number : block ≠ noBlock
  remap : block ≠ ffa.remapBlock
  target : ∀ i < ffa.remapnum, ffa.remapTo i ≠ block

theorem Sound.redirectNew {last : Nat → Option Block} {block newPlace : Nat} {contents : Block}
    (hsound : ffa.Sound last) (hroom : ffa.remapnum < 1024) (hwritable : ffa.Writable block)
    (hnone : ffa.findFrom block = none) (hfree : ffa.Free last newPlace) (hne : block ≠ newPlace)
    (hdisc : ffa.disc newPlace = contents) :
    (ffa.pushEntry block newPlace).Sound (Function.update last block (some contents)) := by
  refine hsound.pushEntry hroom hfree (fun other hother => ?_) fun other value hvalue => ?_
  · by_cases hsame : other = block
    · rw [hsame]
      exact ⟨hwritable.number, hwritable.remap, hne, hwritable.target⟩
    · rw [Function.update_of_ne hsame] at hother
      obtain ⟨hnumber, hremap, htarget⟩ := hsound.used other hother
      refine ⟨hnumber, hremap, ?_, htarget⟩
      rintro rfl
      exact hother hfree.unused
  · by_cases hsame : other = block
    · rw [hsame, Function.update_self] at hvalue
      rw [hsame, sysReadBlock, translate_pushEntry_new hnone]
      exact hdisc.trans (Option.some.inj hvalue)
    · rw [Function.update_of_ne hsame] at hvalue
      rw [sysReadBlock, translate_pushEntry (Ne.symm hsame)]
      exact hsound.contents other value hvalue

theorem Sound.redirectOld {last : Nat → Option Block} {block newPlace i : Nat} {contents : Block}
    (hsound : ffa.Sound last) (hwritable : ffa.Writable block)
    (hsome : ffa.findFrom block = some i) (hfree : ffa.Free last newPlace)
    (hne : block ≠ newPlace) (hdisc : ffa.disc newPlace = contents) :
    ({ ffa with remapTo := Function.update ffa.remapTo i newPlace } : Remap).Sound
      (Function.update last block (some contents)) := by
  obtain ⟨hi, hfrom, _⟩ := findFrom_eq_some.mp hsome
  let moved : Remap := { ffa with remapTo := Function.update ffa.remapTo i newPlace }
  have hnew : moved.remapTo i = newPlace := Function.update_self ..
  have hold : ∀ j, j ≠ i → moved.remapTo j = ffa.remapTo j :=
    fun j hj => Function.update_of_ne hj ..
  have hfind : ∀ other, moved.findFrom other = ffa.findFrom other :=
    fun other => findFrom_congr rfl fun _ _ => rfl
  have htarget : ∀ other, other ≠ newPlace → (∀ j < ffa.remapnum, ffa.remapTo j ≠ other) →
      ∀ j < ffa.remapnum, moved.remapTo j ≠ other := by
    intro other hother hold' j hj
    by_cases hsame : j = i
    · rw [hsame, hnew]
      exact hother.symm
    · rw [hold j hsame]
      exact hold' j hj
  refine ⟨hsound.first, hsound.second, hsound.small, ?_, ?_, ?_, ?_⟩
  · intro j hj k hk heq
    by_cases hji : j = i
    · by_cases hki : k = i
      · rw [hji, hki]
      · rw [hji, hnew, hold k hki] at heq
        exact absurd heq.symm (hfree.target k hk)
    · by_cases hki : k = i
      · rw [hki, hnew, hold j hji] at heq
        exact absurd heq (hfree.target j hj)
      · rw [hold j hji, hold k hki] at heq
        exact hsound.distinct j hj k hk heq
  · exact htarget _ hfree.remap.symm hsound.saved
  · intro other hother
    by_cases hsame : other = block
    · rw [hsame]
      exact ⟨hwritable.number, hwritable.remap, htarget block hne hwritable.target⟩
    · rw [Function.update_of_ne hsame] at hother
      obtain ⟨hnumber, hremap, hused⟩ := hsound.used other hother
      refine ⟨hnumber, hremap, htarget other ?_ hused⟩
      rintro rfl
      exact hother hfree.unused
  · intro other value hvalue
    by_cases hsame : other = block
    · rw [hsame, Function.update_self] at hvalue
      have htranslate : moved.translateBlocknum block = newPlace := by
        rw [translateBlocknum, hfind, hsome]
        exact hnew
      rw [hsame]
      exact (congrArg ffa.disc htranslate).trans (hdisc.trans (Option.some.inj hvalue))
    · rw [Function.update_of_ne hsame] at hvalue
      have htranslate : moved.translateBlocknum other = ffa.translateBlocknum other := by
        rw [translateBlocknum, translateBlocknum, hfind]
        cases hother : ffa.findFrom other with
        | none => rfl
        | some j =>
            refine hold j ?_
            rintro rfl
            exact hsame ((findFrom_eq_some.mp hother).2.1.symm.trans hfrom)
      exact (congrArg ffa.disc htranslate).trans (hsound.contents other value hvalue)

/-- What was written at a place that is free becomes the contents of the block. -/
theorem Sound.redirect {last : Nat → Option Block} {block newPlace : Nat} {contents : Block}
    (hsound : ffa.Sound last) (hwritable : ffa.Writable block) (hfree : ffa.Free last newPlace)
    (hne : block ≠ newPlace) (hdisc : ffa.disc newPlace = contents)
    (hmapped : block ≠ ffa.translateBlocknum block → ffa.remapnum < 1024)
    (hsaved : ffa.remapnum < 1024 → ffa.faults.headD false = false) :
    (ffa.redirect block (ffa.translateBlocknum block) newPlace).2.Sound
      (if (ffa.redirect block (ffa.translateBlocknum block) newPlace).1 then last
        else Function.update last block (some contents)) := by
  rcases ffa.translate_cases block with ⟨hnone, heq⟩ | ⟨i, hsome, heq⟩
  · have hadd : ffa.redirect block (ffa.translateBlocknum block) newPlace =
        ffa.addToRemap block newPlace := by
      rw [heq]
      exact if_neg fun h => h rfl
    rw [hadd]
    rcases Nat.lt_or_ge ffa.remapnum 1024 with hroom | hfull
    · obtain ⟨disc, hframe⟩ := @addToRemap_frame ffa last block newPlace hsound hroom
      have hok : (ffa.addToRemap block newPlace).1 = false := by
        rw [hframe]
        exact hsaved hroom
      rw [hok, if_neg Bool.false_ne_true, addToRemap_eq hroom]
      exact (hsound.redirectNew hroom hwritable hnone hfree hne hdisc).resaveRemap
    · rw [addToRemap_full hfull, if_pos rfl]
      exact hsound.sameTable ⟨rfl, rfl, rfl, rfl,
        fun i hi => Function.update_of_ne (by omega) ..,
        fun i hi => Function.update_of_ne (by omega) ..⟩
  · obtain ⟨hi, hfrom, _⟩ := findFrom_eq_some.mp hsome
    have hphys : block ≠ ffa.translateBlocknum block := by
      rw [heq]
      exact (hwritable.target i hi).symm
    have hroom := hmapped hphys
    have hmoved := hsound.redirectOld hwritable hsome hfree hne hdisc
    let moved : Remap := { ffa with remapTo := Function.update ffa.remapTo i newPlace }
    have hadd : ffa.redirect block (ffa.translateBlocknum block) newPlace =
        moved.addToRemap noBlock (ffa.translateBlocknum block) := by
      rw [Remap.redirect, if_pos hphys, hsome]
    have hold : moved.Free (Function.update last block (some contents))
        (ffa.translateBlocknum block) := by
      refine ⟨fun j hj => ?_, ?_, ?_⟩
      · by_cases hsame : j = i
        · have hnew : moved.remapTo i = newPlace := Function.update_self ..
          rw [hsame, heq, hnew]
          exact (hfree.target i hi).symm
        · rw [heq]
          refine (Function.update_of_ne hsame .. : moved.remapTo j = ffa.remapTo j).trans_ne ?_
          exact fun h => hsame (hsound.distinct j hj i hi h)
      · rw [heq]
        exact hsound.saved i hi
      · rw [Function.update_of_ne hphys.symm, heq]
        by_contra hused
        exact (hsound.used _ hused).2.2 i hi rfl
    obtain ⟨disc, hframe⟩ := @addToRemap_frame moved _ noBlock
      (ffa.translateBlocknum block) hmoved hroom
    have hok : (ffa.redirect block (ffa.translateBlocknum block) newPlace).1 = false := by
      rw [hadd, hframe]
      exact hsaved hroom
    rw [hok, if_neg Bool.false_ne_true, hadd]
    exact hmoved.addBad hold

theorem Sound.inPlace {last : Nat → Option Block} {block : Nat} {contents : Block}
    {faults : List Bool} (hsound : ffa.Sound last) (hwritable : ffa.Writable block) :
    ({ ffa with
        disc := Function.update ffa.disc (ffa.translateBlocknum block) contents
        faults } : Remap).Sound (Function.update last block (some contents)) where
  first := hsound.first
  second := hsound.second
  small := hsound.small
  distinct := hsound.distinct
  saved := hsound.saved
  used := by
    intro other hother
    by_cases hsame : other = block
    · rw [hsame]
      exact ⟨hwritable.number, hwritable.remap, hwritable.target⟩
    · rw [Function.update_of_ne hsame] at hother
      exact hsound.used other hother
  contents := by
    intro other value hvalue
    by_cases hsame : other = block
    · rw [hsame, Function.update_self] at hvalue
      rw [hsame]
      exact (Function.update_self ..).trans (Option.some.inj hvalue)
    · rw [Function.update_of_ne hsame] at hvalue
      have htarget := (hsound.used other (by rw [hvalue]; simp)).2.2
      have hne := hsound.translate_inj htarget hwritable.target hsame
      exact (Function.update_of_ne hne ..).trans (hsound.contents other value hvalue)

/-- A replacement that works is not lost because the table has no room for the
entry or cannot be saved. `faults` and `remapnum` are those at the next attempt. -/
def RedirectSaved (mapped : Prop) : Nat → List Bool → Nat → List Nat → Prop
  | _, _, _, [] => True
  | count, faults, remapnum, _ :: grants =>
      if faults.headD false then
        remapnum < 1024 → faults.tail.headD false = false → count ≠ 0 →
          RedirectSaved mapped (count - 1) faults.tail.tail (remapnum + 1) grants
      else (mapped → remapnum < 1024) ∧ (remapnum < 1024 → faults.tail.headD false = false)

structure Grantable (ffa : Remap) (last : Nat → Option Block) (block : Nat) (grants : List Nat) :
    Prop where
  distinct : grants.Nodup
  free : ∀ grant ∈ grants, ffa.Free last (grant + ffa.bpoolFirst)
  other : ∀ grant ∈ grants, block ≠ grant + ffa.bpoolFirst

theorem Free.kept {last : Nat → Option Block} {place added : Nat} {disc : Nat → Block}
    {faults : List Bool} (hfree : ffa.Free last place) (hne : added ≠ place) :
    ({ ffa.pushEntry noBlock added with disc, faults } : Remap).Free last place where
  target := by
    intro i hi
    rcases Nat.lt_succ_iff_lt_or_eq.mp hi with hlt | rfl
    · exact (pushEntry_to_old hlt : (ffa.pushEntry noBlock added).remapTo i = _).trans_ne
        (hfree.target i hlt)
    · exact (pushEntry_to_new : (ffa.pushEntry noBlock added).remapTo _ = _).trans_ne hne
  remap := hfree.remap
  unused := hfree.unused

theorem Writable.kept {block added : Nat} {disc : Nat → Block} {faults : List Bool}
    (hwritable : ffa.Writable block) (hne : added ≠ block) :
    ({ ffa.pushEntry noBlock added with disc, faults } : Remap).Writable block where
  number := hwritable.number
  remap := hwritable.remap
  target := by
    intro i hi
    rcases Nat.lt_succ_iff_lt_or_eq.mp hi with hlt | rfl
    · exact (pushEntry_to_old hlt : (ffa.pushEntry noBlock added).remapTo i = _).trans_ne
        (hwritable.target i hlt)
    · exact (pushEntry_to_new : (ffa.pushEntry noBlock added).remapTo _ = _).trans_ne hne

theorem Sound.redirectLoop {last : Nat → Option Block} {block phys count : Nat}
    {contents : Block} {grants : List Nat} (hsound : ffa.Sound last)
    (hwritable : ffa.Writable block) (hphys : phys = ffa.translateBlocknum block)
    (hgrants : ffa.Grantable last block grants)
    (hsaved : RedirectSaved (block ≠ phys) count ffa.faults ffa.remapnum grants) :
    (redirectLoop contents block phys count grants ffa).2.Sound
      (if (redirectLoop contents block phys count grants ffa).1 then last
        else Function.update last block (some contents)) := by
  induction grants generalizing ffa count with
  | nil =>
      simp only [Remap.redirectLoop, if_true]
      exact hsound
  | cons grant grants ih =>
      obtain ⟨hdistinct, hfree, hother⟩ := hgrants
      have hplace := hfree grant (List.mem_cons_self ..)
      have hne := hother grant (List.mem_cons_self ..)
      have hunused : ∀ used, last used ≠ none → used ≠ grant + ffa.bpoolFirst := by
        rintro used hused rfl
        exact hused hplace.unused
      simp only [RedirectSaved] at hsaved
      simp only [Remap.redirectLoop]
      cases hfails : ffa.faults.headD false with
      | false =>
          rw [hfails, if_neg Bool.false_ne_true] at hsaved
          obtain ⟨hmapped, hroom⟩ := hsaved
          have hwritten := hsound.rawWriteBlock contents hplace.target hunused
          rw [rawWriteBlock_good hfails] at hwritten ⊢
          rw [if_pos Bool.false_ne_true, hphys]
          exact hwritten.redirect ⟨hwritable.number, hwritable.remap, hwritable.target⟩
            ⟨hplace.target, hplace.remap, hplace.unused⟩ hne (Function.update_self ..)
            (hphys ▸ hmapped) hroom
      | true =>
          rw [hfails, if_pos rfl] at hsaved
          rw [rawWriteBlock_bad hfails, if_neg (not_not_intro rfl)]
          have hwritten : ({ ffa with faults := ffa.faults.tail } : Remap).Sound last :=
            hsound.changeDisc fun _ _ => rfl
          have hadded := hwritten.addBad ⟨hplace.target, hplace.remap, hplace.unused⟩
          rcases Nat.lt_or_ge ffa.remapnum 1024 with hroom | hfull
          · obtain ⟨disc, hframe⟩ := @addToRemap_frame { ffa with faults := ffa.faults.tail } last
              noBlock (grant + ffa.bpoolFirst) hwritten hroom
            rw [hframe] at hadded ⊢
            cases hresave : ffa.faults.tail.headD false with
            | true =>
                simp only [if_true]
                exact hadded
            | false =>
                simp only [Bool.false_eq_true, if_false]
                cases count with
                | zero =>
                    simp only [if_true]
                    exact hadded
                | succ count =>
                    have hnext := hsaved hroom hresave (Nat.succ_ne_zero _)
                    obtain ⟨hnot, hrest⟩ := List.nodup_cons.mp hdistinct
                    refine ih hadded (hwritable.kept hne.symm) ?_ ⟨hrest, ?_, ?_⟩ hnext
                    · rw [hphys]
                      exact (translate_pushEntry hwritable.number.symm).symm
                    · intro other hmem
                      refine (hfree other (List.mem_cons_of_mem _ hmem)).kept ?_
                      intro hsame
                      obtain rfl : grant = other := Nat.add_right_cancel hsame
                      exact hnot hmem
                    · exact fun other hmem => hother other (List.mem_cons_of_mem _ hmem)
          · have hrefused := @addToRemap_full { ffa with faults := ffa.faults.tail } noBlock
              (grant + ffa.bpoolFirst) hfull
            rw [hrefused] at hadded ⊢
            simp only [if_true]
            exact hadded

/-- A replacement that fails is marked as bad, and the next one is tried. -/
theorem redirectLoop_bad {contents : Block} {whereTo phys count grant : Nat}
    {grants : List Nat} {next : Remap} (hbad : ffa.faults.headD false = true)
    (hadded : ({ ffa with faults := ffa.faults.tail } : Remap).addToRemap noBlock
      (grant + ffa.bpoolFirst) = (false, next)) :
    Remap.redirectLoop contents whereTo phys (count + 1) (grant :: grants) ffa =
      Remap.redirectLoop contents whereTo phys count grants next := by
  simp only [Remap.redirectLoop, rawWriteBlock_bad hbad, not_true_eq_false, if_false]
  cases hresult : ({ ffa with faults := ffa.faults.tail } : Remap).addToRemap noBlock
      (grant + ffa.bpoolFirst) with
  | mk failed added =>
      obtain ⟨rfl, rfl⟩ := Prod.mk.injEq .. ▸ hresult.symm.trans hadded
      rfl

theorem sysWriteBlock_good {contents : Block} {whereTo : Nat} {entered : Bool}
    {grants : List Nat} (hgood : ffa.faults.headD false = false) :
    ffa.sysWriteBlock contents whereTo entered grants =
      (false,
        { ffa with
          disc := Function.update ffa.disc (ffa.translateBlocknum whereTo) contents
          faults := ffa.faults.tail }) := by
  rw [sysWriteBlock, rawWriteBlock_good hgood]
  exact if_pos Bool.false_ne_true

theorem sysWriteBlock_bad {contents : Block} {whereTo : Nat} {entered : Bool}
    {grants : List Nat} (hbad : ffa.faults.headD false = true) :
    ffa.sysWriteBlock contents whereTo entered grants =
      if entered then
        redirectLoop contents whereTo (ffa.translateBlocknum whereTo) 3 grants
          { ffa with faults := ffa.faults.tail }
      else (true, { ffa with faults := ffa.faults.tail }) := by
  rw [sysWriteBlock, rawWriteBlock_bad hbad]
  cases entered with
  | false => rfl
  | true => rfl

/-! A restart. -/

theorem remapInitLoop_zero (fuel movePos : Nat) (ffa : Remap) :
    remapInitLoop fuel 0 movePos ffa = ffa := by
  cases fuel with
  | zero => rfl
  | succ fuel => rw [remapInitLoop, if_pos rfl]

/-- One remap block is read back as it was saved. -/
theorem remapInit_same (hfew : ffa.remapnum ≤ 512)
    (hsaved : ffa.disc ffa.remapBlock = ffa.remapImage 0) : ffa.SameTable ffa.remapInit := by
  cases hnum : ffa.remapnum with
  | zero =>
      have hinit : ffa.remapInit = { ffa with remapFrom := fun _ => 0, remapTo := fun _ => 0 } := by
        rw [remapInit, hnum, remapInitLoop_zero]
      rw [hinit]
      exact ⟨rfl, rfl, rfl, rfl, fun i hi => by omega, fun i hi => by omega⟩
  | succ count =>
      have hamount : (if ffa.remapnum < 512 then ffa.remapnum else 512) = ffa.remapnum := by
        split <;> omega
      have hinit : ffa.remapInit =
          { ffa with
            remapFrom := fun i =>
              if 0 ≤ i ∧ i < 0 + ffa.remapnum then ffa.disc ffa.remapBlock (i - 0) else 0
            remapTo := fun i =>
              if 0 ≤ i ∧ i < 0 + ffa.remapnum then ffa.disc ffa.remapBlock (512 + (i - 0))
              else 0 } := by
        have hunfold : ffa.remapInit = remapInitLoop (count + 1) ffa.remapnum 0
            { ffa with remapFrom := fun _ => 0, remapTo := fun _ => 0 } := by
          rw [remapInit, hnum]
        rw [hunfold, remapInitLoop, if_neg (by omega)]
        simp only [hamount, Nat.sub_self, remapInitLoop_zero]
        rfl
      rw [hinit]
      refine ⟨rfl, rfl, rfl, rfl, fun i hi => ?_, fun i hi => ?_⟩
      · dsimp only
        rw [if_pos ⟨Nat.zero_le i, by omega⟩, hsaved, remapImage, if_pos (by omega)]
        simp
      · dsimp only
        rw [if_pos ⟨Nat.zero_le i, by omega⟩, hsaved, remapImage, if_neg (by omega)]
        simp

end Remap

/-! Runs: writes, releases of logical blocks, and restarts that save the table and
load it again. `loaded` tells whether every restart has loaded what it saved. -/

structure RemapRun where
  ffa : Remap
  last : Nat → Option Block
  loaded : Bool

inductive RemapOp where
  | write (contents : Block) (whereTo : Nat) (entered : Bool) (grants : List Nat)
      (faults : List Bool)
  | release (block : Nat)
  | restart (faults : List Bool)

def Remap.sameEntries (ffa next : Remap) : Bool :=
  next.remapnum == ffa.remapnum && (List.range ffa.remapnum).all fun i =>
    next.remapFrom i == ffa.remapFrom i && next.remapTo i == ffa.remapTo i

def remapStep (state : RemapRun) : RemapOp → RemapRun
  | .write contents whereTo entered grants faults =>
      let written := { state.ffa with faults }.sysWriteBlock contents whereTo entered grants
      { state with
        ffa := written.2
        last := if written.1 then state.last
          else Function.update state.last whereTo (some contents) }
  | .release block => { state with last := Function.update state.last block none }
  | .restart faults =>
      let saved := { state.ffa with faults }.resaveRemap.2
      { state with
        ffa := saved.remapInit
        loaded := state.loaded && saved.sameEntries saved.remapInit }

/-- What the disk space grants is free, and clients write neither remap blocks nor
blocks that stand in for others. A restart is clean when the table was saved. -/
def RemapOp.Legal (state : RemapRun) : RemapOp → Prop
  | .write _ whereTo _ grants _ =>
      state.ffa.Writable whereTo ∧ state.ffa.Grantable state.last whereTo grants
  | .release _ => True
  | .restart faults => faults.headD false = false

/-- The table fits in the remap block that is allocated when it is loaded, and a
block is redirected only while the table can be saved. -/
def RemapOp.Ok (state : RemapRun) (op : RemapOp) : Prop :=
  op.Legal state ∧
    match op with
    | .write _ whereTo entered grants faults =>
        faults.headD false = true → entered = true →
          Remap.RedirectSaved (whereTo ≠ state.ffa.translateBlocknum whereTo) 3 faults.tail
            state.ffa.remapnum grants
    | .release _ => True
    | .restart _ => state.ffa.remapnum ≤ 512

structure RemapRun.Right (state : RemapRun) : Prop where
  reads : ∀ block contents, state.last block = some contents →
    state.ffa.sysReadBlock block = contents
  apart : ∀ block block', state.last block ≠ none → state.last block' ≠ none →
    block ≠ block' → state.ffa.translateBlocknum block ≠ state.ffa.translateBlocknum block'
  loaded : state.loaded = true

def formatted (bpoolFirst : Nat) (disc : Nat → Block) : RemapRun where
  ffa := ⟨fun _ => 0, fun _ => 0, 0, fun i => if i = 0 then 1 else 0, bpoolFirst, disc, []⟩
  last := fun _ => none
  loaded := true

structure RemapRun.Sound (state : RemapRun) : Prop where
  ffa : state.ffa.Sound state.last
  loaded : state.loaded = true

namespace RemapRun.Sound

variable {state : RemapRun}

theorem right (hsound : state.Sound) : state.Right where
  reads := hsound.ffa.contents
  apart := fun block block' hused hused' hne =>
    hsound.ffa.translate_inj (hsound.ffa.used block hused).2.2
      (hsound.ffa.used block' hused').2.2 hne
  loaded := hsound.loaded

theorem write {contents : Block} {whereTo : Nat} {entered : Bool} {grants : List Nat}
    {faults : List Bool} (hsound : state.Sound)
    (hok : (RemapOp.write contents whereTo entered grants faults).Ok state) :
    (remapStep state (.write contents whereTo entered grants faults)).Sound := by
  obtain ⟨⟨hwritable, hgrants⟩, hsaved⟩ := hok
  refine ⟨?_, hsound.loaded⟩
  let ffa : Remap := { state.ffa with faults }
  have hffa : ffa.Sound state.last := hsound.ffa.changeDisc fun _ _ => rfl
  have hblock : ffa.Writable whereTo :=
    ⟨hwritable.number, hwritable.remap, hwritable.target⟩
  have hfree : ({ ffa with faults := faults.tail } : Remap).Grantable state.last whereTo grants :=
    ⟨hgrants.distinct, fun grant hmem =>
      ⟨(hgrants.free grant hmem).target, (hgrants.free grant hmem).remap,
        (hgrants.free grant hmem).unused⟩, hgrants.other⟩
  have hafter : ({ ffa with faults := faults.tail } : Remap).Sound state.last :=
    hsound.ffa.changeDisc fun _ _ => rfl
  show (ffa.sysWriteBlock contents whereTo entered grants).2.Sound
    (if (ffa.sysWriteBlock contents whereTo entered grants).1 then state.last
      else Function.update state.last whereTo (some contents))
  cases hfails : faults.headD false with
  | false =>
      rw [Remap.sysWriteBlock_good hfails, if_neg Bool.false_ne_true]
      exact hffa.inPlace hblock
  | true =>
      rw [Remap.sysWriteBlock_bad hfails]
      cases entered with
      | false => exact hafter
      | true =>
          exact hafter.redirectLoop ⟨hwritable.number, hwritable.remap, hwritable.target⟩ rfl
            hfree (hsaved hfails rfl)

theorem release {block : Nat} (hsound : state.Sound) :
    (remapStep state (.release block)).Sound := by
  refine ⟨?_, hsound.loaded⟩
  have hstill : ∀ other, (remapStep state (.release block)).last other ≠ none →
      state.last other = (remapStep state (.release block)).last other := by
    intro other hother
    by_cases hsame : other = block
    · rw [hsame] at hother
      exact absurd (Function.update_self ..) hother
    · exact (Function.update_of_ne hsame ..).symm
  have hffa := hsound.ffa
  refine ⟨hffa.first, hffa.second, hffa.small, hffa.distinct, hffa.saved, fun other hother => ?_,
    fun other contents hcontents => ?_⟩
  · exact hffa.used other (hstill other hother ▸ hother)
  · exact hffa.contents other contents
      ((hstill other (by rw [hcontents]; simp)).trans hcontents)

theorem restart {faults : List Bool} (hsound : state.Sound)
    (hok : (RemapOp.restart faults).Ok state) : (remapStep state (.restart faults)).Sound := by
  obtain ⟨hclean, hfew⟩ := hok
  let ffa : Remap := { state.ffa with faults }
  have hffa : ffa.Sound state.last := hsound.ffa.changeDisc fun _ _ => rfl
  have hsavedSound := hffa.resaveRemap
  have hresave : ffa.resaveRemap = _ :=
    Remap.resaveRemap_eq hffa.first hffa.second hffa.small
  rw [Remap.rawWriteBlock_good (show ffa.faults.headD false = false from hclean)] at hresave
  have hdisc : ffa.resaveRemap.2.disc ffa.resaveRemap.2.remapBlock =
      ffa.resaveRemap.2.remapImage 0 := by
    rw [hresave]
    exact Function.update_self ..
  have hnum : ffa.resaveRemap.2.remapnum ≤ 512 := by
    rw [hresave]
    exact hfew
  have hsame := Remap.remapInit_same hnum hdisc
  refine ⟨hsavedSound.sameTable hsame, ?_⟩
  have hloaded : ffa.resaveRemap.2.sameEntries ffa.resaveRemap.2.remapInit = true := by
    simp only [Remap.sameEntries, hsame.num, beq_self_eq_true, Bool.true_and, List.all_eq_true,
      List.mem_range, Bool.and_eq_true, beq_iff_eq]
    exact fun i hi => ⟨hsame.fromSame i hi, hsame.toSame i hi⟩
  simp only [remapStep, hsound.loaded, Bool.true_and]
  exact hloaded

theorem step {op : RemapOp} (hsound : state.Sound) (hok : op.Ok state) :
    (remapStep state op).Sound := by
  cases op with
  | write contents whereTo entered grants faults => exact hsound.write hok
  | release block => exact hsound.release
  | restart faults => exact hsound.restart hok

end RemapRun.Sound

theorem sound_formatted (bpoolFirst : Nat) (disc : Nat → Block) :
    (formatted bpoolFirst disc).Sound where
  ffa :=
    { first := Nat.one_ne_zero
      second := rfl
      small := Nat.zero_le _
      distinct := fun i hi => absurd hi (Nat.not_lt_zero i)
      saved := fun i hi => absurd hi (Nat.not_lt_zero i)
      used := fun block hused => absurd rfl hused
      contents := fun block contents hlast => by cases hlast }
  loaded := rfl

theorem blocks_redirected {bpoolFirst : Nat} {disc : Nat → Block} {ops : List RemapOp}
    (hmeets : Run.Meets remapStep (fun state op => op.Ok state) (formatted bpoolFirst disc) ops) :
    Run.Always remapStep RemapRun.Right (formatted bpoolFirst disc) ops :=
  Run.always_of_invariant RemapRun.Sound (fun _ hsound => hsound.right)
    (fun _ _ hsound hok => hsound.step hok) (sound_formatted bpoolFirst disc) hmeets

instance (ffa : Remap) (block : Nat) : Decidable (ffa.Writable block) :=
  decidable_of_iff (_ ∧ _ ∧ ∀ i < ffa.remapnum, ffa.remapTo i ≠ block)
    ⟨fun h => ⟨h.1, h.2.1, h.2.2⟩, fun h => ⟨h.number, h.remap, h.target⟩⟩

instance (ffa : Remap) (last : Nat → Option Block) (place : Nat) :
    Decidable (ffa.Free last place) :=
  decidable_of_iff
    ((∀ i < ffa.remapnum, ffa.remapTo i ≠ place) ∧ place ≠ ffa.remapBlock ∧
      (last place).isNone = true)
    ⟨fun h => ⟨h.1, h.2.1, Option.isNone_iff_eq_none.mp h.2.2⟩,
      fun h => ⟨h.target, h.remap, Option.isNone_iff_eq_none.mpr h.unused⟩⟩

instance (ffa : Remap) (last : Nat → Option Block) (block : Nat) (grants : List Nat) :
    Decidable (ffa.Grantable last block grants) :=
  decidable_of_iff (_ ∧ (∀ grant ∈ grants, ffa.Free last (grant + ffa.bpoolFirst)) ∧
      ∀ grant ∈ grants, block ≠ grant + ffa.bpoolFirst)
    ⟨fun h => ⟨h.1, h.2.1, h.2.2⟩, fun h => ⟨h.distinct, h.free, h.other⟩⟩

instance (state : RemapRun) : (op : RemapOp) → Decidable (op.Legal state)
  | .write _ _ _ _ _ => inferInstanceAs (Decidable (_ ∧ _))
  | .release _ => isTrue trivial
  | .restart _ => inferInstanceAs (Decidable (_ = _))

/-- A block is redirected past a replacement that fails too. -/
def redirectedWrites : List RemapOp :=
  [.write (fun i => i) 7 true [] [], .write (fun i => i + 1) 7 true [20, 21] [true, true, false],
    .restart [], .write (fun i => i + 2) 8 true [] []]

theorem blocks_redirected_twice :
    Run.Always remapStep RemapRun.Right (formatted 0 fun _ _ => 0) redirectedWrites := by
  have hlegal : Run.Meets remapStep (fun state op => op.Legal state) (formatted 0 fun _ _ => 0)
      redirectedWrites := by decide +kernel
  obtain ⟨hfirst, hsecond, hthird, hfourth, _⟩ := hlegal
  refine blocks_redirected ⟨⟨hfirst, fun h => by simp at h⟩, ⟨hsecond, fun _ _ => ?_⟩,
    ⟨hthird, by decide +kernel⟩, ⟨hfourth, fun h => by simp at h⟩, trivial⟩
  simp only [Remap.RedirectSaved]
  exact fun _ _ _ => ⟨fun _ => by decide +kernel, fun _ => rfl⟩

/-! A table that needs a second remap block. -/

/-- Every write fails on its block and on one replacement, which is marked as bad. -/
def wornWrite (i : Nat) : RemapOp :=
  .write (fun _ => 0) 3 true [i + 100] [true, true, false]

structure Worn (state : RemapRun) (count : Nat) : Prop where
  sound : state.Sound
  num : state.ffa.remapnum = count
  target : ∀ i < count, state.ffa.remapTo i = i + 100
  blocks : state.ffa.remapblocks 0 = 1
  base : state.ffa.bpoolFirst = 0
  last : ∀ block, state.last block = none

theorem Worn.legal {state : RemapRun} {count : Nat} (hworn : Worn state count) :
    (wornWrite count).Legal state := by
  have hremap : state.ffa.remapBlock = 1 := by
    rw [Remap.remapBlock, hworn.base, hworn.blocks]
  have htarget : ∀ i < state.ffa.remapnum, state.ffa.remapTo i = i + 100 := by
    rw [hworn.num]
    exact hworn.target
  refine ⟨⟨by decide, by rw [hremap]; decide, fun i hi => ?_⟩,
    by simp, ?_, ?_⟩
  · rw [htarget i hi]
    omega
  · intro grant hmem
    obtain rfl := List.mem_singleton.mp hmem
    rw [hworn.base]
    refine ⟨fun i hi => ?_, by rw [hremap]; omega, hworn.last _⟩
    rw [htarget i hi]
    have := hworn.num
    omega
  · intro grant hmem
    obtain rfl := List.mem_singleton.mp hmem
    omega

theorem Worn.step {state : RemapRun} {count : Nat} (hworn : Worn state count)
    (hroom : count < 1024) : Worn (remapStep state (wornWrite count)) (count + 1) := by
  have hok : (wornWrite count).Ok state := by
    refine ⟨hworn.legal, fun _ _ => ?_⟩
    simp [Remap.RedirectSaved]
  have hsound := hworn.sound.step hok
  let ffa : Remap := { state.ffa with faults := [false] }
  have hffa : ffa.Sound state.last := hworn.sound.ffa.changeDisc fun _ _ => rfl
  obtain ⟨disc, hadded⟩ := @Remap.addToRemap_frame ffa state.last noBlock
    (count + 100 + state.ffa.bpoolFirst) hffa (show state.ffa.remapnum < 1024 by
      rw [hworn.num]
      exact hroom)
  have hwrite : ({ state.ffa with faults := [true, true, false] } : Remap).sysWriteBlock
      (fun _ => 0) 3 true [count + 100] =
        (true,
          { ffa.pushEntry noBlock (count + 100 + state.ffa.bpoolFirst) with
            disc, faults := [] }) := by
    rw [Remap.sysWriteBlock_bad rfl, if_pos rfl]
    exact Remap.redirectLoop_bad rfl hadded
  have hnext : (remapStep state (wornWrite count)).ffa =
      { ffa.pushEntry noBlock (count + 100 + state.ffa.bpoolFirst) with disc, faults := [] } :=
    congrArg Prod.snd hwrite
  have hlast : (remapStep state (wornWrite count)).last = state.last := by
    have hfailed := congrArg Prod.fst hwrite
    exact if_pos hfailed
  refine ⟨hsound, ?_, fun i hi => ?_, ?_, ?_, fun block => ?_⟩
  · rw [hnext]
    exact congrArg (· + 1) hworn.num
  · rw [hnext]
    rcases Nat.lt_succ_iff_lt_or_eq.mp hi with hlt | rfl
    · have hold : i < ffa.remapnum := hworn.num ▸ hlt
      exact (@Remap.pushEntry_to_old ffa noBlock _ i hold).trans (hworn.target i hlt)
    · have hnew := @Remap.pushEntry_to_new ffa noBlock (i + 100 + state.ffa.bpoolFirst)
      have hnum : ffa.remapnum = i := hworn.num
      rw [hnum, hworn.base] at hnew
      rw [hworn.base]
      exact hnew
  · rw [hnext]
    exact hworn.blocks
  · rw [hnext]
    exact hworn.base
  · rw [hlast]
    exact hworn.last block

theorem worn_run {count : Nat} (hcount : count ≤ 1024) :
    Worn (Run.run remapStep (formatted 0 fun _ _ => 0) ((List.range count).map wornWrite)) count ∧
      Run.Meets remapStep (fun state op => op.Legal state) (formatted 0 fun _ _ => 0)
        ((List.range count).map wornWrite) := by
  induction count with
  | zero =>
      refine ⟨⟨sound_formatted .., rfl, fun i hi => absurd hi (Nat.not_lt_zero i), rfl, rfl,
        fun _ => rfl⟩, trivial⟩
  | succ count ih =>
      obtain ⟨hworn, hmeets⟩ := ih (by omega)
      rw [List.range_succ, List.map_append, Run.run_append]
      exact ⟨hworn.step (by omega), hmeets.append ⟨hworn.legal, trivial⟩⟩

/-- The entry behind a full remap block is read from the first one again. -/
theorem Remap.remapInit_second {ffa : Remap} (hmore : 512 < ffa.remapnum)
    (hfew : ffa.remapnum ≤ 1024) (hsaved : ffa.disc ffa.remapBlock = ffa.remapImage 0) :
    ffa.remapInit.remapTo 512 = ffa.remapTo 0 := by
  obtain ⟨count, hnum⟩ : ∃ count, ffa.remapnum = count + 2 := ⟨ffa.remapnum - 2, by omega⟩
  have hfirst : (if ffa.remapnum < 512 then ffa.remapnum else 512) = 512 := if_neg (by omega)
  have hrest : (if ffa.remapnum - 512 < 512 then ffa.remapnum - 512 else 512) =
      ffa.remapnum - 512 := by
    split <;> omega
  have hunfold : ffa.remapInit = remapInitLoop (count + 2) ffa.remapnum 0
      { ffa with remapFrom := fun _ => 0, remapTo := fun _ => 0 } := by
    rw [remapInit, hnum]
  rw [hunfold, remapInitLoop, if_neg (by omega)]
  simp only [hfirst]
  rw [remapInitLoop, if_neg (by omega)]
  simp only [hrest, Nat.sub_self, remapInitLoop_zero]
  rw [if_pos (by omega)]
  show ffa.disc ffa.remapBlock _ = _
  rw [hsaved, remapImage, if_neg (by omega)]

theorem Worn.forgets {state : RemapRun} {count : Nat} (hworn : Worn state count)
    (hcount : count = 513) : ¬ (remapStep state (.restart [])).Right := by
  intro hright
  let ffa : Remap := { state.ffa with faults := [] }
  have hresave : ffa.resaveRemap = ffa.rawWriteBlock ffa.remapBlock (ffa.remapImage 0) :=
    Remap.resaveRemap_eq hworn.sound.ffa.first hworn.sound.ffa.second hworn.sound.ffa.small
  rw [Remap.rawWriteBlock_good rfl] at hresave
  have hnum : ffa.resaveRemap.2.remapnum = count := by
    rw [hresave]
    exact hworn.num
  have hsecond : ffa.resaveRemap.2.remapInit.remapTo 512 = 100 := by
    rw [Remap.remapInit_second (by omega) (by omega)
      (by rw [hresave]; exact Function.update_self ..), hresave]
    exact hworn.target 0 (by omega)
  have hloaded : ffa.resaveRemap.2.sameEntries ffa.resaveRemap.2.remapInit = true :=
    (Bool.and_eq_true_iff.mp hright.loaded).2
  have hentry := List.all_eq_true.mp (Bool.and_eq_true_iff.mp hloaded).2 512
    (List.mem_range.mpr (by omega))
  have hsame := beq_iff_eq.mp (Bool.and_eq_true_iff.mp hentry).2
  rw [hsecond, hresave] at hsame
  have hkept : state.ffa.remapTo 512 = 612 := hworn.target 512 (by omega)
  have : (100 : Nat) = 612 := hsame.trans hkept
  omega

theorem worn_forgets {count : Nat} (hcount : count = 513) :
    Run.Meets remapStep (fun state op => op.Legal state) (formatted 0 fun _ _ => 0)
        ((List.range count).map wornWrite ++ [.restart []]) ∧
      ¬ Run.Always remapStep RemapRun.Right (formatted 0 fun _ _ => 0)
        ((List.range count).map wornWrite ++ [.restart []]) := by
  obtain ⟨hworn, hmeets⟩ := worn_run (show count ≤ 1024 by omega)
  refine ⟨hmeets.append ⟨rfl, trivial⟩, fun halways => ?_⟩
  have hright := halways.last
  rw [Run.run_append] at hright
  exact hworn.forgets hcount hright

theorem remap_forgotten :
    Run.Meets remapStep (fun state op => op.Legal state) (formatted 0 fun _ _ => 0)
        ((List.range 513).map wornWrite ++ [.restart []]) ∧
      ¬ Run.Always remapStep RemapRun.Right (formatted 0 fun _ _ => 0)
        ((List.range 513).map wornWrite ++ [.restart []]) :=
  worn_forgets rfl

end Sql602.Disk
