import Mathlib.Logic.Function.Basic
import Sql602.Library.Bitmap
import Sql602.Library.Files

namespace Sql602.Swap

open Files

/-! The blocks of the transaction file. Every 32nd block is a journal block of commits;
the blocks between them hold swapped pages. -/

def BLOCKSIZE : Nat := 4096

/-- The first number of a journal block that describes no transaction. -/
def tjcInvalid : List UInt8 := [0, 0, 0, 0]

abbrev Page := { bytes : List UInt8 // bytes.length = BLOCKSIZE }

/-- The cells of `alloc_map` that do not exist yet are empty. -/
structure Transactor where
  count : Nat
  allocMap : Nat → Nat
  srchStart : Nat
  tjcInitLimit : Nat
  tFile : File

/-- A write that fails may leave other bytes in the block. -/
def writeFileAt (file : File) (block : Nat) (data : List UInt8) :
    Option (List UInt8) → Bool × File
  | none => (true, file.write (block * BLOCKSIZE) data)
  | some other => (false, file.write (block * BLOCKSIZE) (other.take data.length))

def readFileAt (file : File) (block : Nat) : Option (List UInt8) :=
  file.read (block * BLOCKSIZE) BLOCKSIZE

/-- Passes the existing cells; the cell behind them is a new one. -/
def cellFrom (allocMap : Nat → Nat) (good : Nat → Bool) : Nat → Nat → Nat
  | 0, cell => cell
  | fuel + 1, cell =>
      if good (allocMap cell) then cell else cellFrom allocMap good fuel (cell + 1)

def freeBit (mapelem : Nat) : Nat → Nat → Nat
  | 0, bit => bit
  | fuel + 1, bit => if mapelem.testBit bit then freeBit mapelem fuel (bit + 1) else bit

namespace Transactor

def construct (tFile : File) : Transactor := ⟨0, fun _ => 0, 0, 0, tFile⟩

def used (transactor : Transactor) (block : Nat) : Bool :=
  (transactor.allocMap (block / 32)).testBit (block % 32)

def putCell (transactor : Transactor) (cell mapelem : Nat) : Transactor :=
  { transactor with
    count := max transactor.count (cell + 1)
    allocMap := Function.update transactor.allocMap cell mapelem }

def setBit (transactor : Transactor) (block : Nat) : Transactor :=
  transactor.putCell (block / 32)
    (Bitmap.add (transactor.allocMap (block / 32)) (block % 32))

def clearBit (transactor : Transactor) (block : Nat) : Transactor :=
  transactor.putCell (block / 32)
    (Bitmap.clear (transactor.allocMap (block / 32)) (block % 32) 1)

def findCell (transactor : Transactor) (good : Nat → Bool) (cell : Nat) : Nat :=
  cellFrom transactor.allocMap good (transactor.count - cell) cell

/-- The part in the critical section: the cell has been computed from the search start
before. A new cell needs memory; block 0 says that there is none. -/
def getSwapBlock (transactor : Transactor) (cell : Nat) (memory : Bool) : Nat × Transactor :=
  let cell := transactor.findCell (fun mapelem => mapelem < 0xfffffffe) cell
  if transactor.count ≤ cell ∧ memory = false then (0, transactor)
  else
    let block := 32 * cell + freeBit (transactor.allocMap cell) 31 1
    (block, { transactor.setBit block with srchStart := block + 1 })

def freeSwapBlock (transactor : Transactor) (block : Nat) : Transactor :=
  { transactor.clearBit block with
    srchStart := if block < transactor.srchStart then block else transactor.srchStart }

/-- Saves a page to the block that has been taken for it. -/
def saveBlock (transactor : Transactor) (block : Nat) (page : List UInt8)
    (failed invalFailed : Option (List UInt8)) : Nat × Transactor :=
  let (written, tFile) := writeFileAt transactor.tFile block page failed
  let (block, transactor) :=
    if written then (block, { transactor with tFile })
    else (0, freeSwapBlock { transactor with tFile } block)
  if block / 32 * 32 > transactor.tjcInitLimit then
    (block,
      { transactor with
        tFile := (writeFileAt transactor.tFile (block / 32 * 32) tjcInvalid invalFailed).2
        tjcInitLimit := block })
  else (block, transactor)

def freeTjcBlocks (transactor : Transactor) (blocks : List Nat) : Transactor :=
  blocks.foldr (fun block transactor => transactor.clearBit (block / 32 * 32)) transactor

/-- The limit follows the number of the block, which is -1 after a failed write. -/
def saveTjcBlock (transactor : Transactor) (data : List UInt8) (memory : Bool)
    (failed : Option (List UInt8)) : Option Nat × Transactor :=
  let cell := transactor.findCell (fun mapelem => !mapelem.testBit 0) 0
  if transactor.count ≤ cell ∧ memory = false then (none, transactor)
  else
    let block := 32 * cell
    let transactor := transactor.setBit block
    let (written, tFile) := writeFileAt transactor.tFile block data failed
    if written then (some block, { transactor with tFile, tjcInitLimit := block + 1 })
    else (none, { transactor.clearBit block with tFile, tjcInitLimit := 0 })

def invalidateTjcBlock (transactor : Transactor) (block : Nat) (failed : Option (List UInt8)) :
    Transactor :=
  { transactor with tFile := (writeFileAt transactor.tFile block tjcInvalid failed).2 }

end Transactor

/-! What the operations do with the map and with the file. -/

section Cells

variable {allocMap : Nat → Nat} {good : Nat → Bool} {fuel cell mapelem bit : Nat}

theorem cellFrom_spec :
    cell ≤ cellFrom allocMap good fuel cell ∧
      (∀ i, cell ≤ i → i < cellFrom allocMap good fuel cell → good (allocMap i) = false) ∧
      (good (allocMap (cellFrom allocMap good fuel cell)) = true ∨
        cellFrom allocMap good fuel cell = cell + fuel) := by
  induction fuel generalizing cell with
  | zero =>
      refine ⟨Nat.le_refl _, ?_, Or.inr rfl⟩
      intro i hlow hhigh
      exact absurd hhigh (Nat.not_lt.mpr hlow)
  | succ fuel ih =>
      simp only [cellFrom]
      split
      case isTrue hgood =>
        refine ⟨Nat.le_refl _, ?_, Or.inl hgood⟩
        intro i hlow hhigh
        exact absurd hhigh (Nat.not_lt.mpr hlow)
      case isFalse hbad =>
        obtain ⟨hle, hpassed, hend⟩ := @ih (cell + 1)
        refine ⟨by omega, ?_, ?_⟩
        · intro i hlow hhigh
          obtain rfl | hnext := Nat.eq_or_lt_of_le hlow
          · exact Bool.eq_false_iff.mpr hbad
          · exact hpassed i hnext hhigh
        · cases hend with
          | inl hgood => exact Or.inl hgood
          | inr hend => exact Or.inr (by omega)

theorem freeBit_spec (hfree : ∃ j, bit ≤ j ∧ j < bit + fuel ∧ mapelem.testBit j = false) :
    bit ≤ freeBit mapelem fuel bit ∧ freeBit mapelem fuel bit < bit + fuel ∧
      mapelem.testBit (freeBit mapelem fuel bit) = false ∧
      ∀ j, bit ≤ j → j < freeBit mapelem fuel bit → mapelem.testBit j = true := by
  induction fuel generalizing bit with
  | zero =>
      obtain ⟨j, hlow, hhigh, -⟩ := hfree
      omega
  | succ fuel ih =>
      simp only [freeBit]
      split
      case isFalse hbit =>
        refine ⟨Nat.le_refl _, by omega, Bool.eq_false_iff.mpr hbit, ?_⟩
        intro j hlow hhigh
        exact absurd hhigh (Nat.not_lt.mpr hlow)
      case isTrue hbit =>
        obtain ⟨j, hlow, hhigh, hclear⟩ := hfree
        have hne : bit ≠ j := by
          rintro rfl
          rw [hbit] at hclear
          cases hclear
        obtain ⟨hle, hlt, hfound, hpassed⟩ := @ih (bit + 1) ⟨j, by omega, by omega, hclear⟩
        refine ⟨by omega, by omega, hfound, ?_⟩
        intro j hlow hhigh
        obtain rfl | hnext := Nat.eq_or_lt_of_le hlow
        · exact hbit
        · exact hpassed j hnext hhigh

/-- The comparison of the cell tells whether one of its swap blocks is free. -/
theorem exists_free_bit (hbound : mapelem < 2 ^ 32) :
    mapelem < 0xfffffffe ↔ ∃ j, 1 ≤ j ∧ j < 1 + 31 ∧ mapelem.testBit j = false := by
  constructor
  · intro hlt
    by_contra hnone
    have hhalf : mapelem / 2 = 2 ^ 31 - 1 := by
      apply Nat.eq_of_testBit_eq
      intro j
      rw [Nat.testBit_div_two, Nat.testBit_two_pow_sub_one]
      cases hbit : mapelem.testBit (j + 1) with
      | false =>
          have hlarge : ¬ j < 31 := fun hj => hnone ⟨j + 1, by omega, by omega, hbit⟩
          simp [hlarge]
      | true =>
          have hsmall : j + 1 < 32 := by
            by_contra hlarge
            rw [Nat.testBit_lt_two_pow (Nat.lt_of_lt_of_le hbound
              (Nat.pow_le_pow_right (by decide) (Nat.le_of_not_lt hlarge)))] at hbit
            cases hbit
          simp only [show j < 31 by omega, decide_true]
    omega
  · rintro ⟨j, hlow, hhigh, hclear⟩
    by_contra hfull
    have hhalf : mapelem / 2 = 2 ^ 31 - 1 := by omega
    have hbit : (mapelem / 2).testBit (j - 1) = true := by
      rw [hhalf, Nat.testBit_two_pow_sub_one]
      simp only [decide_eq_true_eq]
      omega
    rw [Nat.testBit_div_two, Nat.sub_add_cancel hlow, hclear] at hbit
    cases hbit

end Cells

namespace Transactor

/-- The cells are 32 bits wide, and those that do not exist are empty. -/
structure MapOk (transactor : Transactor) : Prop where
  bound : ∀ i, transactor.allocMap i < 2 ^ 32
  fresh : ∀ i, transactor.count ≤ i → transactor.allocMap i = 0

variable {transactor : Transactor} {block other cell mapelem : Nat}

theorem construct_mapOk (tFile : File) : (construct tFile).MapOk :=
  ⟨fun _ => by simp [construct], fun _ _ => rfl⟩

theorem MapOk.putCell (hmap : transactor.MapOk) (hbound : mapelem < 2 ^ 32) :
    (transactor.putCell cell mapelem).MapOk := by
  constructor
  case bound =>
    intro i
    simp only [Transactor.putCell, Function.update_apply]
    split
    · exact hbound
    · exact hmap.bound i
  case fresh =>
    intro i hi
    simp only [Transactor.putCell] at hi
    simp only [Transactor.putCell]
    rw [Function.update_of_ne (by omega)]
    exact hmap.fresh i (by omega)

theorem MapOk.setBit (hmap : transactor.MapOk) (block : Nat) :
    (transactor.setBit block).MapOk := by
  apply hmap.putCell
  rw [Bitmap.add, Nat.one_shiftLeft]
  exact Nat.or_lt_two_pow (hmap.bound _)
    (Nat.pow_lt_pow_right (by decide) (Nat.mod_lt block (by decide)))

theorem MapOk.clearBit (hmap : transactor.MapOk) (block : Nat) :
    (transactor.clearBit block).MapOk := by
  apply hmap.putCell
  exact Nat.xor_lt_two_pow (hmap.bound _) (Nat.lt_of_le_of_lt Nat.and_le_left (hmap.bound _))

theorem used_putCell_ne (hcell : other / 32 ≠ cell) :
    (transactor.putCell cell mapelem).used other = transactor.used other := by
  simp only [used, putCell]
  rw [Function.update_of_ne hcell]

theorem used_putCell_same (hcell : other / 32 = cell) :
    (transactor.putCell cell mapelem).used other = mapelem.testBit (other % 32) := by
  simp only [used, putCell, hcell]
  rw [Function.update_self]

theorem used_setBit (transactor : Transactor) (block other : Nat) :
    (transactor.setBit block).used other = (transactor.used other || decide (block = other)) := by
  cases decEq (other / 32) (block / 32) with
  | isTrue hcell =>
      rw [setBit, used_putCell_same hcell, Bitmap.testBit_add, ← hcell]
      have hblock : block % 32 = other % 32 ↔ block = other := by omega
      simp only [used, hblock]
  | isFalse hcell =>
      have hblock : block ≠ other := fun h => hcell (by rw [h])
      rw [setBit, used_putCell_ne hcell, decide_eq_false hblock, Bool.or_false]

theorem used_clearBit (transactor : Transactor) (block other : Nat) :
    (transactor.clearBit block).used other =
      (transactor.used other && !decide (block = other)) := by
  cases decEq (other / 32) (block / 32) with
  | isTrue hcell =>
      rw [clearBit, used_putCell_same hcell, Bitmap.testBit_clear, ← hcell]
      have hblock : (block % 32 ≤ other % 32 ∧ other % 32 < block % 32 + 1) ↔ block = other := by
        omega
      simp only [used, hblock]
  | isFalse hcell =>
      have hblock : block ≠ other := fun h => hcell (by rw [h])
      rw [clearBit, used_putCell_ne hcell, decide_eq_false hblock, Bool.not_false, Bool.and_true]

/-- Blocks for swapped pages; the others are the journal blocks. -/
def IsSwapBlock (block : Nat) : Prop := block % 32 ≠ 0

def Free (transactor : Transactor) (block : Nat) : Prop :=
  IsSwapBlock block ∧ transactor.used block = false

/-- What a search that starts at a cell finds, if it has memory for a new cell. -/
structure Found (transactor : Transactor) (cell block : Nat) : Prop where
  free : transactor.Free block
  behind : 32 * cell ≤ block
  lowest : ∀ other, transactor.Free other → 32 * cell ≤ other → block ≤ other

theorem findCell_spec (hmap : transactor.MapOk) (good : Nat → Bool) (hnew : good 0 = true)
    (cell : Nat) :
    cell ≤ transactor.findCell good cell ∧
      (∀ i, cell ≤ i → i < transactor.findCell good cell →
        good (transactor.allocMap i) = false) ∧
      good (transactor.allocMap (transactor.findCell good cell)) = true := by
  obtain ⟨hle, hpassed, hend⟩ :=
    @cellFrom_spec transactor.allocMap good (transactor.count - cell) cell
  refine ⟨hle, hpassed, ?_⟩
  cases hend with
  | inl hgood => exact hgood
  | inr hend =>
      rw [findCell, hmap.fresh _ (by omega)]
      exact hnew

/-- A search without memory stays in the cells that exist. -/
def HasBlock (transactor : Transactor) (cell : Nat) (memory : Bool) : Prop :=
  memory = true ∨ ∃ block, transactor.Free block ∧ cell ≤ block / 32 ∧
    block / 32 < transactor.count

theorem getSwapBlock_cases (hmap : transactor.MapOk) (cell : Nat) (memory : Bool) :
    transactor.getSwapBlock cell memory = (0, transactor) ∧ ¬ transactor.HasBlock cell memory ∨
      ∃ block, transactor.Found cell block ∧ transactor.HasBlock cell memory ∧
        transactor.getSwapBlock cell memory =
          (block, { transactor.setBit block with srchStart := block + 1 }) := by
  obtain ⟨hle, hpassed, hgood⟩ :=
    findCell_spec hmap (fun mapelem => mapelem < 0xfffffffe) rfl cell
  simp only [getSwapBlock]
  generalize transactor.findCell (fun mapelem => mapelem < 0xfffffffe) cell = first
    at hle hpassed hgood
  have hearlier : ∀ other, transactor.Free other → cell ≤ other / 32 → first ≤ other / 32 := by
    intro other hother hcell
    obtain ⟨hswap, hfree⟩ := hother
    by_contra hbelow
    have hbad := hpassed (other / 32) hcell (Nat.lt_of_not_le hbelow)
    have hexists : ∃ j, 1 ≤ j ∧ j < 1 + 31 ∧
        (transactor.allocMap (other / 32)).testBit j = false := by
      simp only [IsSwapBlock] at hswap
      exact ⟨other % 32, by omega, by omega, hfree⟩
    rw [← exists_free_bit (hmap.bound _)] at hexists
    exact absurd hexists (of_decide_eq_false hbad)
  split
  case isTrue hmemory =>
    refine Or.inl ⟨rfl, ?_⟩
    intro hhas
    cases hhas with
    | inl htrue =>
        rw [hmemory.2] at htrue
        cases htrue
    | inr hexists =>
        obtain ⟨other, hother, hcell, hcount⟩ := hexists
        have hfirst := hearlier other hother hcell
        omega
  case isFalse hmemory =>
    right
    obtain ⟨hone, hlt, hclear, hfull⟩ :=
      freeBit_spec ((exists_free_bit (hmap.bound first)).mp (of_decide_eq_true hgood))
    generalize freeBit (transactor.allocMap first) 31 1 = bit at hone hlt hclear hfull
    have hdiv : (32 * first + bit) / 32 = first := by omega
    have hmod : (32 * first + bit) % 32 = bit := by omega
    have hfree : transactor.Free (32 * first + bit) := by
      refine ⟨?_, ?_⟩
      · rw [IsSwapBlock, hmod]
        omega
      · rw [used, hdiv, hmod]
        exact hclear
    refine ⟨32 * first + bit, ⟨hfree, by omega, ?_⟩, ?_, rfl⟩
    · intro other hother hlow
      have hfirst := hearlier other hother (by omega)
      obtain ⟨hswap, hunused⟩ := hother
      simp only [IsSwapBlock] at hswap
      by_contra hbelow
      have hcell : other / 32 = first := by omega
      have hbit := hfull (other % 32) (by omega) (by omega)
      rw [used, hcell, hbit] at hunused
      cases hunused
    · cases memory with
      | true => exact Or.inl rfl
      | false =>
          rw [not_and] at hmemory
          have hcount : first < transactor.count :=
            Nat.lt_of_not_le fun hle => hmemory hle rfl
          exact Or.inr ⟨_, hfree, by omega, by omega⟩

/-! The file: an operation writes to its own block, and the saving of a page also to a
journal block from the limit on. -/

/-- What the two files have in common outside some blocks. -/
def KeptBut (written : Nat → Prop) (tFile next : File) : Prop :=
  ∀ other bytes, ¬ written other → readFileAt tFile other = some bytes →
    readFileAt next other = some bytes

variable {tFile : File} {data page : List UInt8} {failed invalFailed : Option (List UInt8)}

theorem readFileAt_write_same (hlength : data.length = BLOCKSIZE) :
    readFileAt (tFile.write (block * BLOCKSIZE) data) block = some data := by
  have hdata : data ≠ [] := by
    rintro rfl
    cases hlength
  rw [readFileAt, ← hlength]
  exact read_write_same hdata

theorem keptBut_write (hlength : data.length ≤ BLOCKSIZE) :
    KeptBut (· = block) tFile (tFile.write (block * BLOCKSIZE) data) := by
  intro other bytes hother hread
  simp only [BLOCKSIZE] at hlength
  simp only [readFileAt, BLOCKSIZE] at hread ⊢
  rw [read_write_apart (within_of_read hread) (by omega)]
  exact hread

theorem keptBut_writeFileAt (hlength : data.length ≤ BLOCKSIZE) :
    KeptBut (· = block) tFile (writeFileAt tFile block data failed).2 := by
  cases failed with
  | none => exact keptBut_write hlength
  | some other =>
      apply keptBut_write
      rw [List.length_take]
      omega

theorem KeptBut.mono {written more : Nat → Prop} {next : File}
    (hkept : KeptBut written tFile next) (hmore : ∀ other, written other → more other) :
    KeptBut more tFile next :=
  fun other bytes hother hread => hkept other bytes (fun h => hother (hmore other h)) hread

theorem KeptBut.trans {written more : Nat → Prop} {next last : File}
    (hnext : KeptBut written tFile next) (hlast : KeptBut more next last) :
    KeptBut (fun other => written other ∨ more other) tFile last :=
  fun other bytes hother hread =>
    hlast other bytes (fun h => hother (Or.inr h))
      (hnext other bytes (fun h => hother (Or.inl h)) hread)

/-- The blocks that the saving of a page may write to. -/
def SaveWrites (transactor : Transactor) (block other : Nat) : Prop :=
  other = block ∨ other % 32 = 0 ∧ transactor.tjcInitLimit < other

theorem saveBlock_cases (hblock : IsSwapBlock block) (hlength : page.length = BLOCKSIZE)
    (transactor : Transactor) (failed invalFailed : Option (List UInt8)) :
    ∃ next limit, transactor.tjcInitLimit ≤ limit ∧
      KeptBut (transactor.SaveWrites block) transactor.tFile next ∧
      (transactor.saveBlock block page failed invalFailed =
          (block, { transactor with tFile := next, tjcInitLimit := limit }) ∧
        readFileAt next block = some page ∨
      transactor.saveBlock block page failed invalFailed =
          (0, { transactor.freeSwapBlock block with tFile := next, tjcInitLimit := limit })) := by
  have hown : KeptBut (transactor.SaveWrites block) transactor.tFile
      (writeFileAt transactor.tFile block page failed).2 :=
    (keptBut_writeFileAt (Nat.le_of_eq hlength)).mono fun other hother => Or.inl hother
  cases failed with
  | some other =>
      -- the block is given back, and block 0 is never above the limit
      refine ⟨_, transactor.tjcInitLimit, Nat.le_refl _, hown, Or.inr ?_⟩
      simp only [saveBlock, writeFileAt, Bool.false_eq_true, if_false]
      rw [if_neg (by omega)]
      rfl
  | none =>
      simp only [saveBlock, writeFileAt, if_true]
      split
      case isFalse =>
        exact ⟨_, transactor.tjcInitLimit, Nat.le_refl _, hown,
          Or.inl ⟨rfl, readFileAt_write_same hlength⟩⟩
      case isTrue habove =>
        have hinit := @keptBut_writeFileAt (block / 32 * 32)
          (transactor.tFile.write (block * BLOCKSIZE) page) tjcInvalid invalFailed
          (by decide)
        have hne : block ≠ block / 32 * 32 := by
          simp only [IsSwapBlock] at hblock
          omega
        refine ⟨_, block, by omega, ?_,
          Or.inl ⟨rfl, hinit block page hne (readFileAt_write_same hlength)⟩⟩
        refine (KeptBut.trans (keptBut_write (Nat.le_of_eq hlength)) hinit).mono ?_
        intro other hother
        cases hother with
        | inl hown => exact Or.inl hown
        | inr hbase =>
            refine Or.inr ⟨?_, ?_⟩
            · rw [hbase]
              exact Nat.mul_mod_left ..
            · rw [hbase]
              exact habove

theorem saveTjcBlock_cases (hmap : transactor.MapOk) (hlength : data.length = BLOCKSIZE)
    (memory : Bool) (failed : Option (List UInt8)) :
    transactor.saveTjcBlock data memory failed = (none, transactor) ∨
      ∃ cell next, transactor.used (32 * cell) = false ∧
        (∀ i < cell, transactor.used (32 * i) = true) ∧
        KeptBut (· = 32 * cell) transactor.tFile next ∧
        (transactor.saveTjcBlock data memory failed =
            (some (32 * cell), { transactor.setBit (32 * cell) with
              tFile := next, tjcInitLimit := 32 * cell + 1 }) ∧
          readFileAt next (32 * cell) = some data ∨
        transactor.saveTjcBlock data memory failed =
            (none, { (transactor.setBit (32 * cell)).clearBit (32 * cell) with
              tFile := next, tjcInitLimit := 0 })) := by
  obtain ⟨-, hpassed, hgood⟩ := findCell_spec hmap (fun mapelem => !mapelem.testBit 0) rfl 0
  simp only [saveTjcBlock]
  generalize transactor.findCell (fun mapelem => !mapelem.testBit 0) 0 = cell at hpassed hgood
  split
  case isTrue => exact Or.inl rfl
  case isFalse =>
    right
    have hdiv : ∀ i, 32 * i / 32 = i := fun i => Nat.mul_div_right i (by decide)
    have hmod : ∀ i, 32 * i % 32 = 0 := fun i => Nat.mul_mod_right 32 i
    refine ⟨cell, (writeFileAt transactor.tFile (32 * cell) data failed).2, ?_, ?_,
      keptBut_writeFileAt (Nat.le_of_eq hlength), ?_⟩
    · rw [used, hdiv, hmod]
      simpa only [Bool.not_eq_true'] using hgood
    · intro i hi
      rw [used, hdiv, hmod]
      simpa only [Bool.not_eq_false'] using hpassed i (Nat.zero_le i) hi
    · cases failed with
      | none => exact Or.inl ⟨rfl, readFileAt_write_same hlength⟩
      | some other => exact Or.inr rfl

end Transactor

end Sql602.Swap
