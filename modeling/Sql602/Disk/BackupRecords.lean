import Sql602.Disk.HotBackup

namespace Sql602.Disk

open Files

variable {blockSize : Nat}

/-! What a reader must find, apart from where the auxiliary file keeps it. -/

def DbFile.Has (db : DbFile) (block : Nat) (contents : List UInt8) : Prop :=
  block < db.size ∧ db.blocks block = contents

theorem DbFile.Has.written {db : DbFile} {block : Nat} {contents : List UInt8} :
    (db.encWriteBlock block contents true).2.Has block contents :=
  ⟨Nat.lt_of_lt_of_le (Nat.lt_succ_self _) (Nat.le_max_right ..), Function.update_self ..⟩

theorem DbFile.Has.other {db : DbFile} {block other : Nat} {adr contents : List UInt8}
    {written : Bool} (hhas : db.Has other contents) (hne : other ≠ block) :
    (db.encWriteBlock block adr written).2.Has other contents := by
  cases written with
  | false => exact hhas
  | true =>
      exact ⟨Nat.lt_of_lt_of_le hhas.1 (Nat.le_max_left ..),
        (Function.update_of_ne hne ..).trans hhas.2⟩

/-- `stored` relates the blocks to the records that hold their last contents; a
block without such a record is in the database file. -/
structure Keeps (blockSize : Nat) (stored : Nat → Nat → Prop) (hnd : File) (db : DbFile)
    (last : Nat → Option (List UInt8)) : Prop where
  version : ∀ block pos, stored block pos →
    ∃ contents, hnd.read (place blockSize pos + 4) blockSize = some contents ∧
      last block = some contents
  once : ∀ block pos pos', stored block pos → stored block pos' → pos = pos'
  elsewhere : ∀ block contents, last block = some contents → (∀ pos, ¬ stored block pos) →
    db.Has block contents

namespace Keeps

variable {stored stored' : Nat → Nat → Prop} {hnd hnd' : File} {db db' : DbFile}
  {last last' : Nat → Option (List UInt8)}

theorem congr (hkeeps : Keeps blockSize stored hnd db last)
    (hsame : ∀ block pos, stored' block pos ↔ stored block pos)
    (hread : ∀ block pos, stored block pos →
      hnd'.read (place blockSize pos + 4) blockSize =
        hnd.read (place blockSize pos + 4) blockSize) :
    Keeps blockSize stored' hnd' db last where
  version := by
    intro block pos hstored
    have hold := (hsame block pos).mp hstored
    rw [hread block pos hold]
    exact hkeeps.version block pos hold
  once := fun block pos pos' hpos hpos' =>
    hkeeps.once block pos pos' ((hsame block pos).mp hpos) ((hsame block pos').mp hpos')
  elsewhere := fun block contents hlast hnone =>
    hkeeps.elsewhere block contents hlast fun pos hstored =>
      hnone pos ((hsame block pos).mpr hstored)

/-- A version of a block is stored in the only record that the block may have. -/
theorem store {block place' : Nat} {contents : List UInt8}
    (hkeeps : Keeps blockSize stored hnd db last)
    (honly : ∀ pos, stored block pos → pos = place')
    (hsame : ∀ other pos, pos ≠ place' → (stored' other pos ↔ stored other pos))
    (hnew : ∀ other, stored' other place' ↔ other = block)
    (hold : ∀ other, stored other place' → other = block)
    (hread : ∀ other pos, pos ≠ place' → stored other pos →
      hnd'.read (place blockSize pos + 4) blockSize =
        hnd.read (place blockSize pos + 4) blockSize)
    (hcontents : hnd'.read (place blockSize place' + 4) blockSize = some contents) :
    Keeps blockSize stored' hnd' db (Function.update last block (some contents)) where
  version := by
    intro other pos hstored
    by_cases hpos : pos = place'
    · subst hpos
      obtain rfl := (hnew other).mp hstored
      exact ⟨contents, hcontents, Function.update_self ..⟩
    · have hbefore := (hsame other pos hpos).mp hstored
      have hne : other ≠ block := by
        rintro rfl
        exact hpos (honly pos hbefore)
      rw [hread other pos hpos hbefore, Function.update_of_ne hne]
      exact hkeeps.version other pos hbefore
  once := by
    intro other pos pos' hpos hpos'
    by_cases hother : other = block
    · have hplace : ∀ pos, stored' other pos → pos = place' := by
        intro pos hstored
        by_contra hne
        exact hne (honly pos (hother ▸ (hsame other pos hne).mp hstored))
      rw [hplace pos hpos, hplace pos' hpos']
    · have hne : ∀ pos, stored' other pos → pos ≠ place' := by
        rintro pos hstored rfl
        exact hother ((hnew other).mp hstored)
      exact hkeeps.once other pos pos' ((hsame other pos (hne pos hpos)).mp hpos)
        ((hsame other pos' (hne pos' hpos')).mp hpos')
  elsewhere := by
    intro other value hlast hnone
    have hne : other ≠ block := by
      rintro rfl
      exact hnone place' ((hnew other).mpr rfl)
    rw [Function.update_of_ne hne] at hlast
    refine hkeeps.elsewhere other value hlast fun pos hstored => ?_
    by_cases hpos : pos = place'
    · exact hne (hold other (hpos ▸ hstored))
    · exact hnone pos ((hsame other pos hpos).mpr hstored)

/-- The record of a block that is in the database file from now on is dropped. -/
theorem drop (block place' : Nat) (hkeeps : Keeps blockSize stored hnd db last)
    (hsame : ∀ other pos, stored' other pos ↔ stored other pos ∧ pos ≠ place')
    (hold : ∀ other, stored other place' → other = block)
    (hread : ∀ other pos, pos ≠ place' → stored other pos →
      hnd'.read (place blockSize pos + 4) blockSize =
        hnd.read (place blockSize pos + 4) blockSize)
    (hlast : ∀ other, other ≠ block → last' other = last other)
    (hother : ∀ other contents, other ≠ block → db.Has other contents → db'.Has other contents)
    (hblock : ∀ contents, last' block = some contents → (∀ pos, ¬ stored' block pos) →
      db'.Has block contents)
    (honly : ∀ pos, stored block pos → pos = place') :
    Keeps blockSize stored' hnd' db' last' where
  version := by
    intro other pos hstored
    obtain ⟨hbefore, hpos⟩ := (hsame other pos).mp hstored
    have hne : other ≠ block := by
      rintro rfl
      exact hpos (honly pos hbefore)
    rw [hread other pos hpos hbefore, hlast other hne]
    exact hkeeps.version other pos hbefore
  once := fun other pos pos' hpos hpos' =>
    hkeeps.once other pos pos' ((hsame other pos).mp hpos).1 ((hsame other pos').mp hpos').1
  elsewhere := by
    intro other contents hvalue hnone
    by_cases hne : other = block
    · subst hne
      exact hblock contents hvalue hnone
    · refine hother other contents hne (hkeeps.elsewhere other contents ?_ fun pos hstored => ?_)
      · rw [← hlast other hne]
        exact hvalue
      · by_cases hpos : pos = place'
        · exact hne (hold other (hpos ▸ hstored))
        · exact hnone pos ((hsame other pos).mpr ⟨hstored, hpos⟩)

/-- While a record holds the block, the database file may have anything for it. -/
theorem overwrite {block pos : Nat} (hkeeps : Keeps blockSize stored hnd db last)
    (hstored : stored block pos)
    (hother : ∀ other contents, other ≠ block → db.Has other contents → db'.Has other contents) :
    Keeps blockSize stored hnd db' last where
  version := hkeeps.version
  once := hkeeps.once
  elsewhere := by
    intro other contents hlast hnone
    refine hother other contents ?_ (hkeeps.elsewhere other contents hlast hnone)
    rintro rfl
    exact hnone pos hstored

end Keeps

/-! Records of the auxiliary file. -/

def Complete (blockSize : Nat) (hnd : File) (pos : Nat) : Prop :=
  place blockSize (pos + 1) ≤ hnd.size

instance (hnd : File) (pos : Nat) : Decidable (Complete blockSize hnd pos) :=
  inferInstanceAs (Decidable (_ ≤ _))

theorem place_succ (blockSize pos : Nat) :
    place blockSize (pos + 1) = place blockSize pos + 4 + blockSize := by
  simp only [place, Nat.add_mul, Nat.one_mul, Nat.add_assoc]

theorem place_mono {first second : Nat} (hle : first ≤ second) :
    place blockSize first ≤ place blockSize second :=
  Nat.mul_le_mul_right _ hle

theorem Complete.before {hnd : File} {first second : Nat} (hle : first ≤ second)
    (hcomplete : Complete blockSize hnd second) : Complete blockSize hnd first :=
  Nat.le_trans (place_mono (Nat.succ_le_succ hle)) hcomplete

theorem blockHead_length (block : Nat) : (blockHead block).length = 4 := rfl

theorem blockHead_ne_nil (block : Nat) : blockHead block ≠ [] := by
  intro hnil
  cases hnil

theorem value_blockHead {block : Nat} (hlt : block < 2 ^ 32) :
    Digits.value (blockHead block) = block := by
  have hword := @Bytes.word_putWord (fun _ => 0) 0 block hlt
  exact hword

theorem blockHead_value {head : List UInt8} (hlength : head.length = 4) :
    blockHead (Digits.value head) = head := by
  obtain ⟨b0, b1, b2, b3, rfl⟩ : ∃ b0 b1 b2 b3, head = [b0, b1, b2, b3] := by
    match head, hlength with
    | [b0, b1, b2, b3], _ => exact ⟨b0, b1, b2, b3, rfl⟩
  have h0 := b0.toNat_lt
  have h1 := b1.toNat_lt
  have h2 := b2.toNat_lt
  have h3 := b3.toNat_lt
  show [Bytes.byteOf _ 0, Bytes.byteOf _ 1, Bytes.byteOf _ 2, Bytes.byteOf _ 3] = _
  simp only [Bytes.byteOf, Digits.value_cons, Digits.value_nil, List.cons.injEq, and_true,
    ← UInt8.toNat_inj, UInt8.toNat_ofNat']
  omega

theorem blockHead_inj {first second : Nat} (hfirst : first < 2 ^ 32) (hsecond : second < 2 ^ 32)
    (hsame : blockHead first = blockHead second) : first = second := by
  rw [← value_blockHead hfirst, hsame, value_blockHead hsecond]

namespace BackupSupport

variable {support : BackupSupport} {block pos : Nat}

/-! The search in the list. -/

theorem find_le (hstart : support.start ≤ support.list.length) :
    support.find block ≤ support.list.length := by
  have hle := @List.findIdx_le_length _ (· == block) (support.list.drop support.start)
  rw [List.length_drop] at hle
  simp only [find]
  omega

theorem start_le_find : support.start ≤ support.find block := Nat.le_add_right ..

theorem get_find (hlt : support.find block < support.list.length) :
    support.list[support.find block]? = some block := by
  simp only [find] at hlt ⊢
  have hinside : (support.list.drop support.start).findIdx (· == block) <
      (support.list.drop support.start).length := by
    rw [List.length_drop]
    omega
  have hfound := List.findIdx_getElem (w := hinside)
  rw [List.getElem?_eq_getElem hlt, Option.some_inj]
  simpa using hfound

theorem find_le_of_get (hpos : support.start ≤ pos) (hget : support.list[pos]? = some block) :
    support.find block ≤ pos := by
  by_contra hlt
  have hbefore : pos - support.start <
      (support.list.drop support.start).findIdx (· == block) := by
    simp only [find] at hlt
    omega
  have hnot := List.not_of_lt_findIdx hbefore
  obtain ⟨hin, hvalue⟩ := List.getElem?_eq_some_iff.mp hget
  rw [List.getElem_drop] at hnot
  simp only [Nat.add_sub_cancel' hpos, hvalue, beq_self_eq_true] at hnot
  exact absurd hnot Bool.true_eq_false_eq_False

/-! The records that count. -/

variable (blockSize) in
structure Stored (support : BackupSupport) (block pos : Nat) : Prop where
  valid : block ≠ invalidBlock
  start : support.start ≤ pos
  listed : support.list[pos]? = some block
  complete : Complete blockSize support.hnd pos

variable (blockSize) in
def HasVersion (support : BackupSupport) (block : Nat) : Prop :=
  support.find block < support.list.length ∧ Complete blockSize support.hnd (support.find block)

variable (blockSize) in
/-- Something written to the record would fill a record that counts with zeros. -/
def Gap (support : BackupSupport) (pos : Nat) : Prop :=
  ∃ before < pos, support.start ≤ before ∧ support.list[before]? ≠ some invalidBlock ∧
    ¬ Complete blockSize support.hnd before

variable (blockSize) in
structure Sound (support : BackupSupport) (db : DbFile) (last : Nat → Option (List UInt8)) :
    Prop where
  keeps : Keeps blockSize (support.Stored blockSize) support.hnd db last
  heads : ∀ pos block, support.start ≤ pos → support.list[pos]? = some block →
    block ≠ invalidBlock → place blockSize pos + 4 ≤ support.hnd.size →
    support.hnd.read (place blockSize pos) 4 = some (blockHead block)
  numbers : ∀ block ∈ support.list, block < 2 ^ 32
  startLe : support.start ≤ support.list.length
  done : ∀ pos < support.start, support.list[pos]? = some invalidBlock
  behind : ∀ pos, support.list.length ≤ pos → Complete blockSize support.hnd pos →
    support.hnd.read (place blockSize pos) 4 = some (blockHead invalidBlock)

variable {db : DbFile} {last : Nat → Option (List UInt8)}

theorem Sound.stored_find (hsound : support.Sound blockSize db last)
    (hstored : support.Stored blockSize block pos) : pos = support.find block := by
  have hle := find_le_of_get hstored.start hstored.listed
  have hlength := (List.getElem?_eq_some_iff.mp hstored.listed).1
  refine hsound.keeps.once block pos _ hstored ⟨hstored.valid, start_le_find, get_find (by omega), ?_⟩
  exact hstored.complete.before hle

theorem Sound.hasVersion_iff (hsound : support.Sound blockSize db last)
    (hvalid : block ≠ invalidBlock) :
    support.HasVersion blockSize block ↔ ∃ pos, support.Stored blockSize block pos := by
  constructor
  · rintro ⟨hlt, hcomplete⟩
    exact ⟨_, hvalid, start_le_find, get_find hlt, hcomplete⟩
  · rintro ⟨pos, hstored⟩
    obtain rfl := hsound.stored_find hstored
    exact ⟨(List.getElem?_eq_some_iff.mp hstored.listed).1, hstored.complete⟩

/-! A step that touches one record. -/

variable (blockSize) in
structure Touched (pos : Nat) (support next : BackupSupport) : Prop where
  within : Within (place blockSize pos) (place blockSize (pos + 1)) support.hnd next.hnd
  gap : next.hnd = support.hnd ∨ ¬ support.Gap blockSize pos
  others : ∀ other, other ≠ pos → next.list[other]? = support.list[other]?

namespace Touched

variable {next : BackupSupport} {other otherPos : Nat}

theorem complete (htouched : Touched blockSize pos support next)
    (hcomplete : Complete blockSize support.hnd otherPos) :
    Complete blockSize next.hnd otherPos :=
  Nat.le_trans hcomplete htouched.within.grown

/-- Behind the record nothing is completed. -/
theorem complete_behind (htouched : Touched blockSize pos support next) (hlt : pos < otherPos)
    (hcomplete : Complete blockSize next.hnd otherPos) :
    Complete blockSize support.hnd otherPos := by
  have hbound := htouched.within.bound
  have hmono := @place_mono blockSize (pos + 1) otherPos hlt
  have hsucc := place_succ blockSize otherPos
  simp only [Complete] at hcomplete ⊢
  omega

theorem complete_iff (htouched : Touched blockSize pos support next) (hne : otherPos ≠ pos)
    (hstart : support.start ≤ otherPos) (hvalid : support.list[otherPos]? ≠ some invalidBlock) :
    Complete blockSize next.hnd otherPos ↔ Complete blockSize support.hnd otherPos := by
  refine ⟨fun hcomplete => ?_, htouched.complete⟩
  rcases htouched.gap with hsame | hgap
  · rw [hsame] at hcomplete
    exact hcomplete
  · rcases Nat.lt_or_gt_of_ne hne with hlt | hgt
    · by_contra hincomplete
      exact hgap ⟨otherPos, hlt, hstart, hvalid, hincomplete⟩
    · exact htouched.complete_behind hgt hcomplete

theorem stored_iff (htouched : Touched blockSize pos support next) (hne : otherPos ≠ pos)
    (hstart : next.start ≤ otherPos ↔ support.start ≤ otherPos) :
    next.Stored blockSize other otherPos ↔ support.Stored blockSize other otherPos := by
  have hlist := htouched.others otherPos hne
  constructor
  · rintro ⟨hvalid, hnext, hlisted, hcomplete⟩
    rw [hlist] at hlisted
    have hbefore := hstart.mp hnext
    refine ⟨hvalid, hbefore, hlisted, ?_⟩
    refine (htouched.complete_iff hne hbefore ?_).mp hcomplete
    rw [hlisted]
    exact fun h => hvalid (Option.some.inj h)
  · rintro ⟨hvalid, hbefore, hlisted, hcomplete⟩
    exact ⟨hvalid, hstart.mpr hbefore, hlist.trans hlisted, htouched.complete hcomplete⟩

theorem read_data (htouched : Touched blockSize pos support next) (hne : otherPos ≠ pos)
    (hcomplete : Complete blockSize support.hnd otherPos) :
    next.hnd.read (place blockSize otherPos + 4) blockSize =
      support.hnd.read (place blockSize otherPos + 4) blockSize := by
  have hsucc := place_succ blockSize otherPos
  simp only [Complete] at hcomplete
  refine htouched.within.apart (by omega) ?_
  rcases Nat.lt_or_gt_of_ne hne with hlt | hgt
  · have hmono := @place_mono blockSize (otherPos + 1) pos hlt
    exact Or.inl (by omega)
  · have hmono := @place_mono blockSize (pos + 1) otherPos hgt
    exact Or.inr (by omega)

theorem read_head (htouched : Touched blockSize pos support next) (hne : otherPos ≠ pos)
    (hin : place blockSize otherPos + 4 ≤ support.hnd.size) :
    next.hnd.read (place blockSize otherPos) 4 =
      support.hnd.read (place blockSize otherPos) 4 := by
  have hsucc := place_succ blockSize otherPos
  refine htouched.within.apart hin ?_
  rcases Nat.lt_or_gt_of_ne hne with hlt | hgt
  · have hmono := @place_mono blockSize (otherPos + 1) pos hlt
    exact Or.inl (by omega)
  · have hmono := @place_mono blockSize (pos + 1) otherPos hgt
    exact Or.inr (by omega)

/-- The head of another record that counts was in the file before. -/
theorem head_before (htouched : Touched blockSize pos support next) (hne : otherPos ≠ pos)
    (hstart : support.start ≤ otherPos) (hvalid : support.list[otherPos]? ≠ some invalidBlock)
    (hin : place blockSize otherPos + 4 ≤ next.hnd.size) :
    place blockSize otherPos + 4 ≤ support.hnd.size := by
  rcases htouched.gap with hsame | hgap
  · rw [hsame] at hin
    exact hin
  · rcases Nat.lt_or_gt_of_ne hne with hlt | hgt
    · by_contra hout
      refine hgap ⟨otherPos, hlt, hstart, hvalid, fun hcomplete => hout ?_⟩
      have hsucc := place_succ blockSize otherPos
      simp only [Complete] at hcomplete
      omega
    · have hbound := htouched.within.bound
      have hmono := @place_mono blockSize (pos + 1) otherPos hgt
      omega

end Touched

end BackupSupport

end Sql602.Disk
