import Sql602.Disk.BackupRecords

namespace Sql602.Disk

open Files

variable {blockSize : Nat}

namespace BackupSupport

variable {support next : BackupSupport} {block pos : Nat} {db db' : DbFile}
  {last last' : Nat → Option (List UInt8)}

theorem Sound.ofTouched (hsound : support.Sound blockSize db last)
    (htouched : Touched blockSize pos support next)
    (hkeeps : Keeps blockSize (next.Stored blockSize) next.hnd db' last')
    (hstart : support.start ≤ next.start) (hpos : pos < next.list.length)
    (hlength : support.list.length ≤ next.list.length)
    (hstartLe : next.start ≤ next.list.length)
    (hnumbers : ∀ number ∈ next.list, number < 2 ^ 32)
    (hdone : ∀ before < next.start, next.list[before]? = some invalidBlock)
    (hhead : ∀ number, next.list[pos]? = some number → number ≠ invalidBlock →
      place blockSize pos + 4 ≤ next.hnd.size →
      next.hnd.read (place blockSize pos) 4 = some (blockHead number)) :
    next.Sound blockSize db' last' where
  keeps := hkeeps
  heads := by
    intro other number hother hlisted hvalid hin
    by_cases hne : other = pos
    · subst hne
      exact hhead number hlisted hvalid hin
    · have hlist := htouched.others other hne
      rw [hlist] at hlisted
      have hcounts : support.list[other]? ≠ some invalidBlock := by
        rw [hlisted]
        exact fun h => hvalid (Option.some.inj h)
      have hbefore := htouched.head_before hne (by omega) hcounts hin
      rw [htouched.read_head hne hbefore]
      exact hsound.heads other number (by omega) hlisted hvalid hbefore
  numbers := hnumbers
  startLe := hstartLe
  done := hdone
  behind := by
    intro other hother hcomplete
    have hbefore := htouched.complete_behind (show pos < other by omega) hcomplete
    have hsucc := place_succ blockSize other
    rw [htouched.read_head (by omega) (by simp only [Complete] at hbefore; omega)]
    exact hsound.behind other (by omega) hbefore

/-! Writing to the auxiliary file. -/

theorem added_get (other : Nat) (hpos : pos ≤ support.list.length)
    (hlisted : pos < support.list.length → support.list[pos]? = some block) :
    (if pos = support.list.length then support.list ++ [block] else support.list)[other]? =
      if other = pos then some block else support.list[other]? := by
  split
  case isTrue hend =>
    subst hend
    split
    case isTrue hsame =>
      subst hsame
      exact List.getElem?_concat_length
    case isFalse hne =>
      rcases Nat.lt_or_gt_of_ne hne with hlt | hgt
      · exact List.getElem?_append_left hlt
      · rw [List.getElem?_eq_none (by simp; omega), List.getElem?_eq_none (by omega)]
  case isFalse hinside =>
    split
    case isTrue hsame =>
      subst hsame
      exact hlisted (by omega)
    case isFalse => rfl

/-- What a write to the auxiliary file leaves in its record; the flag tells whether
the write succeeds. -/
structure RecordWritten (blockSize : Nat) (hnd next : File) (pos block : Nat)
    (contents : List UInt8) (stored : Bool) : Prop where
  within : Within (place blockSize pos) (place blockSize (pos + 1)) hnd next
  head : place blockSize pos + 4 ≤ next.size →
    next.read (place blockSize pos) 4 = some (blockHead block)
  complete : stored = true → Complete blockSize next pos ∧
    next.read (place blockSize pos + 4) blockSize = some contents
  failed : stored = false → (Complete blockSize next pos → Complete blockSize hnd pos) ∧
    (Complete blockSize hnd pos → next.read (place blockSize pos + 4) blockSize =
      hnd.read (place blockSize pos + 4) blockSize)

/-- Both file writes of `write_block`. -/
def writeRecord (blockSize : Nat) (hnd : File) (pos block : Nat) (ptr : List UInt8)
    (head data : Nat) : Bool × File :=
  let headed := writeFile hnd (place blockSize pos) (blockHead block) head
  if ¬ headed.1 then (false, headed.2)
  else writeFile headed.2 (place blockSize pos + 4) ptr data

theorem writeBlock_eq {ptr : List UInt8} {added : Bool} {head data : Nat}
    (hadded : ¬ (support.find block = support.list.length ∧ added = false)) :
    support.writeBlock blockSize block ptr added head data =
      ((writeRecord blockSize support.hnd (support.find block) block ptr head data).1,
        { support with
          list :=
            if support.find block = support.list.length then support.list ++ [block]
            else support.list
          hnd :=
            (writeRecord blockSize support.hnd (support.find block) block ptr head data).2 }) := by
  simp only [writeBlock, writeRecord]
  rw [if_neg hadded]
  split
  · rfl
  · rfl

theorem writeFile_short {hnd : File} {data : List UInt8} {written : Nat}
    (hshort : written < data.length) :
    writeFile hnd pos data written = (false, hnd.write pos (data.take written)) := by
  rw [writeFile, decide_eq_false (by omega)]

theorem writeFile_full {hnd : File} {data : List UInt8} {written : Nat}
    (hfull : data.length ≤ written) : writeFile hnd pos data written = (true, hnd.write pos data) := by
  rw [writeFile, decide_eq_true hfull, List.take_of_length_le hfull]

theorem writeRecord_short {hnd : File} {ptr : List UInt8} {head data : Nat} (hshort : head < 4) :
    writeRecord blockSize hnd pos block ptr head data =
      (false, hnd.write (place blockSize pos) ((blockHead block).take head)) := by
  rw [writeRecord, writeFile_short (show head < (blockHead block).length from hshort)]
  exact if_pos Bool.false_ne_true

theorem writeRecord_full {hnd : File} {ptr : List UInt8} {head data : Nat} (hfull : 4 ≤ head) :
    writeRecord blockSize hnd pos block ptr head data =
      writeFile (hnd.write (place blockSize pos) (blockHead block)) (place blockSize pos + 4) ptr
        data := by
  rw [writeRecord, writeFile_full (show (blockHead block).length ≤ head from hfull)]
  exact if_neg (not_not_intro rfl)

section RecordWritten

variable {hnd : File} {ptr : List UInt8} {head data : Nat}

/-- The number of the block does not reach the file as a whole. -/
theorem recordWritten_short
    (hold : place blockSize pos + 4 ≤ hnd.size →
      hnd.read (place blockSize pos) 4 = some (blockHead block)) (hshort : head < 4) :
    RecordWritten blockSize hnd (hnd.write (place blockSize pos) ((blockHead block).take head))
      pos block ptr false := by
  have hsucc := place_succ blockSize pos
  have hlength : ((blockHead block).take head).length = head := by
    rw [List.length_take, blockHead_length]
    omega
  have hwithin : Within (place blockSize pos) (place blockSize pos + 4) hnd
      (hnd.write (place blockSize pos) ((blockHead block).take head)) :=
    Within.write (Nat.le_refl _) (by omega)
  have hsize : (hnd.write (place blockSize pos) ((blockHead block).take head)).size ≤
      max hnd.size (place blockSize pos + ((blockHead block).take head).length) := size_write_le
  refine ⟨Within.write (Nat.le_refl _) (by omega), fun hin => ?_, fun hstored => ?_, fun _ =>
    ⟨fun hcomplete => ?_, fun hcomplete => ?_⟩⟩
  · exact read_write_again (hold (by omega))
  · cases hstored
  · simp only [Complete] at hcomplete ⊢
    omega
  · simp only [Complete] at hcomplete
    exact hwithin.apart (by omega) (Or.inr (Nat.le_refl _))

theorem recordWritten_full (hlength : ptr.length = blockSize)
    (htorn : Complete blockSize hnd pos → data = 0 ∨ blockSize ≤ data) :
    RecordWritten blockSize hnd
      (writeFile (hnd.write (place blockSize pos) (blockHead block)) (place blockSize pos + 4) ptr
        data).2 pos block ptr
      (writeFile (hnd.write (place blockSize pos) (blockHead block)) (place blockSize pos + 4) ptr
        data).1 := by
  have hsucc := place_succ blockSize pos
  have hheaded : Within (place blockSize pos) (place blockSize pos + 4) hnd
      (hnd.write (place blockSize pos) (blockHead block)) :=
    Within.write (Nat.le_refl _) (by rw [blockHead_length])
  have hgrown : place blockSize pos + 4 ≤ (hnd.write (place blockSize pos) (blockHead block)).size := by
    rw [write_size (blockHead_ne_nil block)]
    exact Nat.le_max_right ..
  have hhead : (hnd.write (place blockSize pos) (blockHead block)).read (place blockSize pos) 4 =
      some (blockHead block) := read_write_same (blockHead_ne_nil block)
  have hold : Complete blockSize hnd pos →
      (hnd.write (place blockSize pos) (blockHead block)).read (place blockSize pos + 4) blockSize =
        hnd.read (place blockSize pos + 4) blockSize := by
    intro hcomplete
    simp only [Complete] at hcomplete
    exact hheaded.apart (by omega) (Or.inr (Nat.le_refl _))
  have hbound := hheaded.bound
  generalize hnd.write (place blockSize pos) (blockHead block) = headed at *
  rcases Nat.lt_or_ge data blockSize with hshort | hfull
  · rw [writeFile_short (by omega)]
    have htake : (ptr.take data).length = data := by
      rw [List.length_take]
      omega
    have hwritten : Within (place blockSize pos + 4) (place blockSize (pos + 1)) headed
        (headed.write (place blockSize pos + 4) (ptr.take data)) :=
      Within.write (Nat.le_refl _) (by omega)
    have hsize : (headed.write (place blockSize pos + 4) (ptr.take data)).size ≤
        max headed.size (place blockSize pos + 4 + (ptr.take data).length) := size_write_le
    dsimp only
    refine ⟨?_, fun _ => ?_, fun hstored => ?_, fun _ => ⟨fun hcomplete => ?_, fun hcomplete => ?_⟩⟩
    · exact ⟨Nat.le_trans hheaded.grown hwritten.grown, by omega, fun hin hout =>
        (hwritten.apart (Nat.le_trans hin hheaded.grown) (by omega)).trans
          (hheaded.apart hin (by omega))⟩
    · exact (hwritten.apart hgrown (Or.inl (Nat.le_refl _))).trans hhead
    · cases hstored
    · simp only [Complete] at hcomplete ⊢
      omega
    · obtain rfl : data = 0 := by
        have := htorn hcomplete
        omega
      rw [List.take_zero, write_nil]
      exact hold hcomplete
  · rw [writeFile_full (by omega)]
    have hwritten : Within (place blockSize pos + 4) (place blockSize (pos + 1)) headed
        (headed.write (place blockSize pos + 4) ptr) :=
      Within.write (Nat.le_refl _) (by omega)
    have hread := @read_write_full headed (place blockSize pos + 4) ptr hgrown
    rw [hlength] at hread
    have hin := within_of_read hread
    have hsize := hwritten.bound
    dsimp only
    refine ⟨?_, fun _ => ?_, fun _ => ⟨?_, hread⟩, fun hfailed => ?_⟩
    · exact ⟨Nat.le_trans hheaded.grown hwritten.grown, by omega, fun hin hout =>
        (hwritten.apart (Nat.le_trans hin hheaded.grown) (by omega)).trans
          (hheaded.apart hin (by omega))⟩
    · exact (hwritten.apart hgrown (Or.inl (Nat.le_refl _))).trans hhead
    · simp only [Complete]
      omega
    · cases hfailed

theorem recordWritten (hlength : ptr.length = blockSize)
    (hold : place blockSize pos + 4 ≤ hnd.size →
      hnd.read (place blockSize pos) 4 = some (blockHead block))
    (htorn : Complete blockSize hnd pos → head < 4 ∨ data = 0 ∨ blockSize ≤ data) :
    RecordWritten blockSize hnd (writeRecord blockSize hnd pos block ptr head data).2 pos block ptr
      (writeRecord blockSize hnd pos block ptr head data).1 := by
  rcases Nat.lt_or_ge head 4 with hshort | hfull
  · rw [writeRecord_short hshort]
    exact recordWritten_short hold hshort
  · rw [writeRecord_full hfull]
    refine recordWritten_full hlength fun hcomplete => ?_
    have := htorn hcomplete
    omega

end RecordWritten

/-- Nothing is written when no byte of the block number is. -/
theorem writeRecord_nothing {hnd : File} {ptr : List UInt8} {data : Nat} :
    (writeRecord blockSize hnd pos block ptr 0 data).2 = hnd := by
  rw [writeRecord_short (by omega)]
  exact write_nil hnd (place blockSize pos)

section WriteBlock

variable {contents : List UInt8} {added : Bool} {head data : Nat}

theorem incomplete_end (hsound : support.Sound blockSize db last)
    (hroom : support.hnd.size ≤ place blockSize support.list.length)
    (hnew : ¬ support.find block < support.list.length) :
    ¬ Complete blockSize support.hnd (support.find block) := by
  intro hcomplete
  have hsucc := place_succ blockSize (support.find block)
  have hend : support.find block = support.list.length := by
    have := @find_le support block hsound.startLe
    omega
  simp only [Complete, hend] at hcomplete hsucc
  omega

theorem Sound.recordWritten (hsound : support.Sound blockSize db last)
    (hvalid : block < invalidBlock) (hlength : contents.length = blockSize)
    (hroom : support.hnd.size ≤ place blockSize support.list.length)
    (htorn : support.HasVersion blockSize block → head < 4 ∨ data = 0 ∨ blockSize ≤ data) :
    RecordWritten blockSize support.hnd
      (writeRecord blockSize support.hnd (support.find block) block contents head data).2
      (support.find block) block contents
      (writeRecord blockSize support.hnd (support.find block) block contents head data).1 := by
  refine BackupSupport.recordWritten hlength (fun hin => ?_) fun hcomplete => htorn ⟨?_, hcomplete⟩
  · rcases Nat.lt_or_ge (support.find block) support.list.length with hlt | hge
    · exact hsound.heads _ _ start_le_find (get_find hlt) (by omega) hin
    · have hend : support.find block = support.list.length := by
        have := @find_le support block hsound.startLe
        omega
      rw [hend] at hin
      omega
  · by_contra hnew
    exact incomplete_end hsound hroom hnew hcomplete

theorem Sound.touched_writeBlock (hsound : support.Sound blockSize db last)
    (hvalid : block < invalidBlock) (hlength : contents.length = blockSize)
    (hroom : support.hnd.size ≤ place blockSize support.list.length)
    (hadded : ¬ (support.find block = support.list.length ∧ added = false))
    (hgap : head = 0 ∨ ¬ support.Gap blockSize (support.find block))
    (htorn : support.HasVersion blockSize block → head < 4 ∨ data = 0 ∨ blockSize ≤ data) :
    Touched blockSize (support.find block) support
        (support.writeBlock blockSize block contents added head data).2 ∧
      (support.writeBlock blockSize block contents added head data).2.list[support.find block]? =
        some block := by
  have hget := fun other => @added_get support block (support.find block) other
    (find_le hsound.startLe) get_find
  rw [writeBlock_eq hadded]
  refine ⟨⟨(hsound.recordWritten hvalid hlength hroom htorn).within, hgap.imp_left ?_,
    fun other hne => (hget other).trans (if_neg hne)⟩, (hget _).trans (if_pos rfl)⟩
  rintro rfl
  exact @writeRecord_nothing blockSize block (support.find block) support.hnd contents data

/-- `write_block` in the first phase. -/
theorem Sound.writeBlock (hsound : support.Sound blockSize db last)
    (hvalid : block < invalidBlock) (hlength : contents.length = blockSize)
    (hroom : support.hnd.size ≤ place blockSize support.list.length)
    (hgap : head = 0 ∨ ¬ support.Gap blockSize (support.find block))
    (htorn : support.HasVersion blockSize block → head < 4 ∨ data = 0 ∨ blockSize ≤ data) :
    (support.writeBlock blockSize block contents added head data).2.Sound blockSize db
        (if (support.writeBlock blockSize block contents added head data).1 then
          Function.update last block (some contents) else last) ∧
      (support.writeBlock blockSize block contents added head data).2.hnd.size ≤
        place blockSize
          (support.writeBlock blockSize block contents added head data).2.list.length := by
  by_cases hadded : support.find block = support.list.length ∧ added = false
  · have hresult : support.writeBlock blockSize block contents added head data =
        (false, support) := if_pos hadded
    rw [hresult]
    exact ⟨hsound, hroom⟩
  · obtain ⟨htouched, hplace⟩ :=
      hsound.touched_writeBlock hvalid hlength hroom hadded hgap htorn
    have hwritten := hsound.recordWritten hvalid hlength hroom htorn
    have hfindLe := @find_le support block hsound.startLe
    have hlisted : support.find block < support.list.length →
        support.list[support.find block]? = some block := get_find
    rw [writeBlock_eq hadded] at htouched hplace ⊢
    have hmem : ∀ number ∈ (if support.find block = support.list.length then
        support.list ++ [block] else support.list), number < 2 ^ 32 := by
      intro number hnumber
      split at hnumber
      · rcases List.mem_append.mp hnumber with hin | hnew
        · exact hsound.numbers number hin
        · rw [List.mem_singleton.mp hnew]
          exact Nat.lt_of_lt_of_le hvalid (Nat.sub_le ..)
      · exact hsound.numbers number hnumber
    have hlistLength : support.list.length ≤ (if support.find block = support.list.length then
        support.list ++ [block] else support.list).length ∧
        support.find block < (if support.find block = support.list.length then
        support.list ++ [block] else support.list).length := by
      split
      · rw [List.length_append, List.length_singleton]
        omega
      · omega
    revert htouched hplace hwritten hmem hlistLength
    generalize writeRecord blockSize support.hnd (support.find block) block contents head data =
      result
    generalize (if support.find block = support.list.length then
        support.list ++ [block] else support.list) = list
    obtain ⟨stored, hnd⟩ := result
    intro htouched hplace hwritten hmem hlistLength
    dsimp only at hwritten hplace ⊢
    have hsame : ∀ other pos, pos ≠ support.find block →
        (({ support with list, hnd } : BackupSupport).Stored blockSize other pos ↔
          support.Stored blockSize other pos) :=
      fun other pos hne => htouched.stored_iff hne Iff.rfl
    have hread : ∀ other pos, pos ≠ support.find block → support.Stored blockSize other pos →
        hnd.read (place blockSize pos + 4) blockSize =
          support.hnd.read (place blockSize pos + 4) blockSize :=
      fun other pos hne hstored => htouched.read_data hne hstored.complete
    have hbefore : ∀ other, support.Stored blockSize other (support.find block) →
        other = block := by
      intro other hstored
      have hlt := (List.getElem?_eq_some_iff.mp hstored.listed).1
      exact Option.some.inj (hstored.listed.symm.trans (hlisted hlt))
    have hkeeps : Keeps blockSize (({ support with list, hnd } : BackupSupport).Stored blockSize)
        hnd db (if stored = true then Function.update last block (some contents) else last) := by
      cases stored with
      | true =>
          obtain ⟨hcomplete, hcontents⟩ := hwritten.complete rfl
          refine hsound.keeps.store (fun pos => hsound.stored_find) hsame (fun other => ⟨?_, ?_⟩)
            hbefore hread hcontents
          · rintro ⟨_, _, hother, _⟩
            exact Option.some.inj (hother.symm.trans hplace)
          · rintro rfl
            exact ⟨by omega, Nat.le_add_right .., hplace, hcomplete⟩
      | false =>
          obtain ⟨hcomplete, hdata⟩ := hwritten.failed rfl
          refine hsound.keeps.congr (fun other pos => ?_) fun other pos hstored => ?_
          · by_cases hpos : pos = support.find block
            · subst hpos
              constructor
              · rintro ⟨hother, hstart, hget', hin⟩
                have hin' := hcomplete hin
                obtain rfl := Option.some.inj (hget'.symm.trans hplace)
                refine ⟨hother, hstart, hlisted ?_, hin'⟩
                by_contra hnew
                exact incomplete_end hsound hroom hnew hin'
              · intro hstored
                obtain rfl := hbefore other hstored
                exact ⟨hstored.valid, hstored.start, hplace, htouched.complete hstored.complete⟩
            · exact hsame other pos hpos
          · by_cases hpos : pos = support.find block
            · subst hpos
              exact hdata hstored.complete
            · exact hread other pos hpos hstored
    refine ⟨hsound.ofTouched htouched hkeeps (Nat.le_refl _) hlistLength.2 hlistLength.1
      (Nat.le_trans hsound.startLe hlistLength.1) hmem (fun before hlt => ?_)
      fun number hnumber _ hin => ?_, ?_⟩
    · have hne : before ≠ support.find block := by
        have := @start_le_find support block
        dsimp only at hlt
        omega
      exact (htouched.others before hne).trans (hsound.done before hlt)
    · obtain rfl := Option.some.inj (hnumber.symm.trans hplace)
      exact hwritten.head hin
    · have hbound := hwritten.within.bound
      have hmono := @place_mono blockSize (support.find block + 1) list.length hlistLength.2
      have hmono' := @place_mono blockSize support.list.length list.length hlistLength.1
      omega

end WriteBlock

/-! Marking a record as not valid. -/

theorem set_get {pos : Nat} (other : Nat) (hlt : pos < support.list.length) :
    (support.list.set pos invalidBlock)[other]? =
      if other = pos then some invalidBlock else support.list[other]? := by
  by_cases hother : other = pos
  · subst hother
    rw [if_pos rfl, List.getElem?_set_self hlt]
  · rw [if_neg hother, List.getElem?_set_ne fun h => hother h.symm]

theorem markTouched {pos head : Nat} (hlt : pos < support.list.length)
    (hgap : head = 0 ∨ ¬ support.Gap blockSize pos) (start : Nat) :
    Touched blockSize pos support
      { support with
        list := support.list.set pos invalidBlock
        hnd := (writeFile support.hnd (place blockSize pos) (blockHead invalidBlock) head).2
        start } where
  within := by
    have hsucc := place_succ blockSize pos
    refine Within.write (Nat.le_refl _) ?_
    rw [List.length_take, blockHead_length]
    omega
  gap := by
    refine hgap.imp_left ?_
    rintro rfl
    exact write_nil support.hnd (place blockSize pos)
  others := fun other hne => (set_get other hlt).trans (if_neg hne)

theorem Sound.mark {next : BackupSupport} (block pos : Nat) (hsound : support.Sound blockSize db last)
    (htouched : Touched blockSize pos support next)
    (hlist : next.list = support.list.set pos invalidBlock) (hlt : pos < support.list.length)
    (hbefore : support.start ≤ pos)
    (hstart : next.start = support.start ∨ pos = support.start ∧ next.start = pos + 1)
    (hlisted : support.list[pos]? = some block ∨ support.list[pos]? = some invalidBlock)
    (hlast : ∀ other, other ≠ block → last' other = last other)
    (hother : ∀ other contents, other ≠ block → db.Has other contents → db'.Has other contents)
    (hblock : ∀ contents, last' block = some contents → (∀ pos, ¬ next.Stored blockSize block pos) →
      db'.Has block contents)
    (honly : ∀ other, support.Stored blockSize block other → other = pos) :
    next.Sound blockSize db' last' := by
  have hget := fun other => @set_get support pos other hlt
  have hplace : next.list[pos]? = some invalidBlock := by
    rw [hlist, hget, if_pos rfl]
  have hlength : next.list.length = support.list.length := by
    rw [hlist, List.length_set]
  have hsame : ∀ other pos', next.Stored blockSize other pos' ↔
      support.Stored blockSize other pos' ∧ pos' ≠ pos := by
    intro other pos'
    by_cases hpos : pos' = pos
    · subst hpos
      refine ⟨fun hstored => ?_, fun h => absurd rfl h.2⟩
      exact absurd (Option.some.inj (hstored.listed.symm.trans hplace)) hstored.valid
    · rw [htouched.stored_iff hpos (by omega)]
      exact (and_iff_left hpos).symm
  have hrecord : ∀ other, support.Stored blockSize other pos → other = block := by
    intro other hstored
    rcases hlisted with hlisted | hinvalid
    · exact Option.some.inj (hstored.listed.symm.trans hlisted)
    · exact absurd (Option.some.inj (hstored.listed.symm.trans hinvalid)) hstored.valid
  refine hsound.ofTouched htouched
    (hsound.keeps.drop block pos hsame hrecord (fun other pos' hne hstored =>
      htouched.read_data hne hstored.complete) hlast hother hblock honly)
    (by omega) (by omega) (by omega) (by omega) (fun number hnumber => ?_) (fun before hltStart => ?_)
    fun number hnumber hvalid => ?_
  · rw [hlist] at hnumber
    rcases List.mem_or_eq_of_mem_set hnumber with hmem | rfl
    · exact hsound.numbers number hmem
    · decide
  · by_cases hpos : before = pos
    · rw [hpos]
      exact hplace
    · rw [hlist, hget, if_neg hpos]
      exact hsound.done before (by omega)
  · exact absurd (Option.some.inj (hnumber.symm.trans hplace)) hvalid

theorem Sound.changeDb (hsound : support.Sound blockSize db last)
    (hnone : ∀ pos, ¬ support.Stored blockSize block pos)
    (hlast : ∀ other, other ≠ block → last' other = last other)
    (hother : ∀ other contents, other ≠ block → db.Has other contents → db'.Has other contents)
    (hblock : ∀ contents, last' block = some contents → db'.Has block contents) :
    support.Sound blockSize db' last' where
  keeps := by
    refine hsound.keeps.drop block support.list.length (fun other pos => ?_)
      (fun other hstored => ?_) (fun _ _ _ _ => rfl) hlast hother
      (fun contents hvalue _ => hblock contents hvalue) fun pos hstored => absurd hstored (hnone pos)
    · refine ⟨fun hstored => ⟨hstored, ?_⟩, fun h => h.1⟩
      exact Nat.ne_of_lt (List.getElem?_eq_some_iff.mp hstored.listed).1
    · exact absurd (List.getElem?_eq_some_iff.mp hstored.listed).1 (Nat.lt_irrefl _)
  heads := hsound.heads
  numbers := hsound.numbers
  startLe := hsound.startLe
  done := hsound.done
  behind := hsound.behind

/-- A page write in the second phase. -/
theorem Sound.invalidateBlock {adr : List UInt8} {head : Nat} {written : Bool}
    (hsound : support.Sound blockSize db last) (hvalid : block < invalidBlock)
    (hgap : support.find block < support.list.length →
      head = 0 ∨ ¬ support.Gap blockSize (support.find block))
    (hlost : support.HasVersion blockSize block → written = true) :
    (support.invalidateBlock blockSize block head).Sound blockSize
      (db.encWriteBlock block adr written).2
      (if (db.encWriteBlock block adr written).1 then last
        else Function.update last block (some adr)) := by
  have hother : ∀ other contents, other ≠ block → db.Has other contents →
      (db.encWriteBlock block adr written).2.Has other contents :=
    fun other contents hne hhas => hhas.other hne
  have hlast : ∀ other, other ≠ block → (if (db.encWriteBlock block adr written).1 then last
      else Function.update last block (some adr)) other = last other := by
    intro other hne
    split
    · rfl
    · exact Function.update_of_ne hne ..
  have hblock : ∀ contents, (¬ ∃ pos, support.Stored blockSize block pos) ∨ written = true →
      (if (db.encWriteBlock block adr written).1 then last
        else Function.update last block (some adr)) block = some contents →
      (db.encWriteBlock block adr written).2.Has block contents := by
    intro contents hsafe hvalue
    cases written with
    | true =>
        have hnew : Function.update last block (some adr) block = some contents := hvalue
        rw [Function.update_self] at hnew
        obtain rfl := Option.some.inj hnew
        exact DbFile.Has.written
    | false =>
        have hnone := hsafe.resolve_right Bool.false_ne_true
        exact hsound.keeps.elsewhere block contents hvalue fun pos hstored => hnone ⟨pos, hstored⟩
  have hversion := hsound.hasVersion_iff (Nat.ne_of_lt hvalid)
  by_cases hend : support.find block = support.list.length
  · have hnone : ¬ ∃ pos, support.Stored blockSize block pos := by
      rintro ⟨pos, hstored⟩
      have hlt := (List.getElem?_eq_some_iff.mp hstored.listed).1
      have hfind := hsound.stored_find hstored
      omega
    rw [show support.invalidateBlock blockSize block head = support from if_pos hend]
    exact hsound.changeDb (fun pos hstored => hnone ⟨pos, hstored⟩) hlast hother
      fun contents => hblock contents (Or.inl hnone)
  · have hlt : support.find block < support.list.length :=
      Nat.lt_of_le_of_ne (find_le hsound.startLe) hend
    have hresult : support.invalidateBlock blockSize block head = _ := if_neg hend
    rw [hresult]
    refine hsound.mark block _ (markTouched hlt (hgap hlt) support.start) rfl hlt start_le_find (Or.inl rfl)
      (Or.inl (get_find hlt)) hlast hother (fun contents hvalue _ => hblock contents ?_ hvalue)
      fun pos => hsound.stored_find
    by_cases hhas : support.HasVersion blockSize block
    · exact Or.inr (hlost hhas)
    · exact Or.inl fun hexists => hhas (hversion.mpr hexists)

theorem Sound.read_record (hsound : support.Sound blockSize db last)
    (hstored : support.Stored blockSize block pos) {contents : List UInt8}
    (hlast : last block = some contents) :
    support.rd blockSize pos true = some contents := by
  obtain ⟨value, hread, hvalue⟩ := hsound.keeps.version block pos hstored
  rw [hlast] at hvalue
  rw [rd, if_pos rfl, hread, Option.some.inj hvalue]

theorem gap_start : ¬ support.Gap blockSize support.start := by
  rintro ⟨before, hlt, hle, _⟩
  omega

theorem rd_complete {readable : Bool} {buf : List UInt8}
    (hread : support.rd blockSize pos readable = some buf) :
    Complete blockSize support.hnd pos := by
  rw [rd] at hread
  split at hread
  · have hin := within_of_read hread
    have hsucc := place_succ blockSize pos
    simp only [Complete]
    omega
  · cases hread

theorem copyBlock_none {ffa : Ffa} {readable written : Bool}
    (hlisted : support.list[support.start]? = some block) (hvalid : block ≠ invalidBlock)
    (hread : support.rd blockSize support.start readable = none) :
    ffa.copyBlock blockSize support readable written = ffa.db := by
  simp only [Ffa.copyBlock, hlisted, if_neg hvalid, hread]

theorem copyBlock_some {ffa : Ffa} {readable written : Bool} {buf : List UInt8}
    (hlisted : support.list[support.start]? = some block) (hvalid : block ≠ invalidBlock)
    (hread : support.rd blockSize support.start readable = some buf) :
    ffa.copyBlock blockSize support readable written =
      (ffa.db.encWriteBlock block buf written).2 := by
  simp only [Ffa.copyBlock, hlisted, if_neg hvalid, hread]

/-- One turn of the loop of `synchronize`. -/
theorem Sound.copyRecord {ffa : Ffa} {readable written : Bool} {head : Nat}
    (hsound : support.Sound blockSize ffa.db last) (hlt : support.start < support.list.length)
    (hcopied : support.list[support.start]? ≠ some invalidBlock →
      Complete blockSize support.hnd support.start → readable = true ∧ written = true) :
    (support.removeRecord blockSize head).Sound blockSize
      (ffa.copyBlock blockSize support readable written) last := by
  obtain ⟨blk, hblk⟩ : ∃ blk, support.list[support.start]? = some blk :=
    ⟨_, List.getElem?_eq_getElem hlt⟩
  by_cases hinvalid : blk = invalidBlock
  · subst hinvalid
    have hdb : ffa.copyBlock blockSize support readable written = ffa.db := by
      simp only [Ffa.copyBlock, hblk, if_true]
    rw [hdb, removeRecord, if_pos hblk]
    have hset : support.list.set support.start invalidBlock = support.list := by
      obtain ⟨_, hvalue⟩ := List.getElem?_eq_some_iff.mp hblk
      rw [← hvalue]
      exact List.set_getElem_self hlt
    refine hsound.mark invalidBlock support.start
      ⟨Within.refl, Or.inl rfl, fun _ _ => rfl⟩ hset.symm hlt (Nat.le_refl _) (Or.inr ⟨rfl, rfl⟩) (Or.inr hblk) (fun _ _ => rfl)
      (fun _ _ _ hhas => hhas) (fun contents hvalue _ => ?_) fun other hstored =>
        absurd rfl hstored.valid
    exact hsound.keeps.elsewhere _ contents hvalue fun pos hstored => hstored.valid rfl
  · have hvalid : support.list[support.start]? ≠ some invalidBlock := by
      rw [hblk]
      exact fun h => hinvalid (Option.some.inj h)
    rw [removeRecord, if_neg hvalid]
    have hone : ∀ other, support.Stored blockSize blk other → other = support.start := by
      intro other hstored
      have hfind := hsound.stored_find hstored
      have hle := find_le_of_get (Nat.le_refl _) hblk
      have hge := hstored.start
      omega
    refine hsound.mark blk _ (markTouched hlt (Or.inr gap_start) _) rfl hlt (Nat.le_refl _)
      (Or.inr ⟨rfl, rfl⟩) (Or.inl hblk) (fun _ _ => rfl) (fun other contents hne hhas => ?_)
      (fun contents hvalue _ => ?_) hone
    · cases hread : support.rd blockSize support.start readable with
      | none =>
          rw [copyBlock_none hblk hinvalid hread]
          exact hhas
      | some buf =>
          rw [copyBlock_some hblk hinvalid hread]
          exact hhas.other hne
    · by_cases hcomplete : Complete blockSize support.hnd support.start
      · obtain ⟨rfl, rfl⟩ := hcopied hvalid hcomplete
        have hread := hsound.read_record ⟨hinvalid, Nat.le_refl _, hblk, hcomplete⟩ hvalue
        rw [copyBlock_some hblk hinvalid hread]
        exact DbFile.Has.written
      · have hhas : ffa.db.Has blk contents := by
          refine hsound.keeps.elsewhere blk contents hvalue fun pos hstored => hcomplete ?_
          rw [← hone pos hstored]
          exact hstored.complete
        cases hread : support.rd blockSize support.start readable with
        | none =>
            rw [copyBlock_none hblk hinvalid hread]
            exact hhas
        | some buf => exact absurd (rd_complete hread) hcomplete

/-- Behind the last record everything is in the database file. -/
theorem Sound.finished (hsound : support.Sound blockSize db last)
    (hend : support.start = support.list.length) {contents : List UInt8}
    (hlast : last block = some contents) : db.Has block contents := by
  refine hsound.keeps.elsewhere block contents hlast fun pos hstored => ?_
  have hlt := (List.getElem?_eq_some_iff.mp hstored.listed).1
  have hle := hstored.start
  omega

end BackupSupport

/-- What a turn of the loop does to the database file. -/
theorem Ffa.copyBlock_cases (ffa : Ffa) (support : BackupSupport) (readable written : Bool) :
    ffa.copyBlock blockSize support readable written = ffa.db ∨
      ∃ blk buf, support.list[support.start]? = some blk ∧ blk ≠ invalidBlock ∧
        Complete blockSize support.hnd support.start ∧
        ffa.copyBlock blockSize support readable written =
          (ffa.db.encWriteBlock blk buf written).2 := by
  cases hlisted : support.list[support.start]? with
  | none =>
      left
      simp only [copyBlock, hlisted]
  | some blk =>
      by_cases hinvalid : blk = invalidBlock
      · left
        simp only [copyBlock, hlisted, if_pos hinvalid]
      · cases hread : support.rd blockSize support.start readable with
        | none => exact Or.inl (BackupSupport.copyBlock_none hlisted hinvalid hread)
        | some buf =>
            exact Or.inr ⟨blk, buf, rfl, hinvalid, BackupSupport.rd_complete hread,
              BackupSupport.copyBlock_some hlisted hinvalid hread⟩

end Sql602.Disk
