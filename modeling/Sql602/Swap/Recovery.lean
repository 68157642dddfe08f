import Mathlib.Data.List.Basic
import Sql602.Library.Redo
import Mathlib.Data.List.Nodup
import Mathlib.Tactic.Common

namespace Sql602.Recovery

open Redo

/-! The recovery of transactions from the transaction file. Every 32nd block may describe a
transaction: it has a mark, the number of the dependent block, and pairs of the number of a
database block and the number of the block with its image. -/

def VALID_TJC_LEADER : Nat := 0x5f

def VALID_TJC_DEPENDENT : Nat := 0xc7

def TJC_INVALID : Nat := 0

/-- The block number -1. -/
def NOBLOCK : Nat := 0xffffffff

/-- The 1024 words of a block. -/
abbrev Words := Nat → Nat

/-- The blocks that can be read. -/
abbrev TFile := Nat → Option Words

/-- What the recovery writes: a block of the database, or the mark of a leader. -/
inductive Action where
  | writeBlock (dadr : Nat) (image : Words)
  | invalidate (tjcBlock : Nat)

/-- The pairs from a position up to the number -1 or the end of the block. A block that cannot be
read is not written. -/
def processPairs (file : TFile) (core : Words) : Nat → Nat → List (Nat × Words)
  | 0, _ => []
  | count + 1, pos =>
      if core pos = NOBLOCK then []
      else
        match file (core (pos + 1)) with
        | none => processPairs file core count (pos + 2)
        | some image => (core pos, image) :: processPairs file core count (pos + 2)

def images (file : TFile) (core : Words) : List (Nat × Words) := processPairs file core 511 2

/-- The writes of the blocks of a chain, as long as the next one is marked as dependent. -/
def restoreChain (file : TFile) (limit : Nat) : Nat → Words → Option (List (Nat × Words))
  | 0, _ => none
  | fuel + 1, core =>
      let writes := images file core
      if core 1 = NOBLOCK ∨ limit ≤ core 1 then some writes
      else
        match file (core 1) with
        | none => some writes
        | some next =>
            if next 0 = VALID_TJC_DEPENDENT then
              (restoreChain file limit fuel next).map (writes ++ ·)
            else some writes

def invalidateTjcBlock (file : TFile) (tjcBlock : Nat) : TFile :=
  fun block => (file block).map fun words =>
    if block = tjcBlock then Function.update words 0 TJC_INVALID else words

/-- The leaders at the positions one after another. -/
def restoreLeaders (limit fuel : Nat) : List Nat → TFile → Option (List Action)
  | [], _ => some []
  | tjcBlock :: rest, file =>
      match file tjcBlock with
      | none => restoreLeaders limit fuel rest file
      | some core =>
          if core 0 = VALID_TJC_LEADER then
            match restoreChain file limit fuel core with
            | none => none
            | some writes =>
                (restoreLeaders limit fuel rest (invalidateTjcBlock file tjcBlock)).map fun later =>
                  writes.map (fun write => .writeBlock write.1 write.2) ++
                    .invalidate tjcBlock :: later
          else restoreLeaders limit fuel rest file

/-- For a file with the length in blocks. -/
def tjcBlockLimit (length : Nat) : Nat :=
  if length = 0 then 0 else (length - 1) / 32 * 32 + 1

/-- The blocks 0, 32, 64 and so on below the limit. -/
def tjcBlocks (length : Nat) : List Nat :=
  (List.range ((tjcBlockLimit length + 31) / 32)).map (32 * ·)

def restoringActions (length fuel : Nat) (file : TFile) : Option (List Action) :=
  restoreLeaders (tjcBlockLimit length) fuel (tjcBlocks length) file

/-- The database blocks that are written. -/
def pageWrites (actions : List Action) : List (Nat × Words) :=
  actions.filterMap fun action =>
    match action with
    | .writeBlock dadr image => some (dadr, image)
    | .invalidate _ => none

/-- The transaction file and the database. -/
structure Disk where
  file : TFile
  database : Nat → Words

def Action.perform (disk : Disk) : Action → Disk
  | .writeBlock dadr image => { disk with database := Function.update disk.database dadr image }
  | .invalidate tjcBlock => { disk with file := invalidateTjcBlock disk.file tjcBlock }

def Disk.performAll (disk : Disk) (actions : List Action) : Disk :=
  actions.foldl Action.perform disk

/-- The blocks of a complete chain: the last one has no dependent block. -/
inductive Chain (file : TFile) (limit : Nat) : Words → List Words → Prop
  | last {core : Words} (hlink : core 1 = NOBLOCK) : Chain file limit core [core]
  | link {core next : Words} {blocks : List Words} (hlink : core 1 ≠ NOBLOCK)
      (hlimit : core 1 < limit) (hnext : file (core 1) = some next)
      (hmark : next 0 = VALID_TJC_DEPENDENT) (hblocks : Chain file limit next blocks) :
      Chain file limit core (core :: blocks)

/-- The blocks of a chain that breaks off: the link of the last one does not lead to a dependent
block. -/
inductive BrokenChain (file : TFile) (limit : Nat) : Words → List Words → Prop
  | last {core : Words} (hlink : core 1 ≠ NOBLOCK)
      (hbroken : limit ≤ core 1 ∨ ∀ next, file (core 1) = some next →
        next 0 ≠ VALID_TJC_DEPENDENT) : BrokenChain file limit core [core]
  | link {core next : Words} {blocks : List Words} (hlink : core 1 ≠ NOBLOCK)
      (hlimit : core 1 < limit) (hnext : file (core 1) = some next)
      (hmark : next 0 = VALID_TJC_DEPENDENT) (hblocks : BrokenChain file limit next blocks) :
      BrokenChain file limit core (core :: blocks)

/-- The writes of the complete transactions with a valid leader, each image once. The images are
those in the file when their leader is reached. -/
inductive Restores (limit : Nat) : List Nat → TFile → List (Nat × Words) → Prop
  | nil {file : TFile} : Restores limit [] file []
  | other {tjcBlock : Nat} {rest : List Nat} {file : TFile} {writes : List (Nat × Words)}
      (hother : ∀ core, file tjcBlock = some core → core 0 ≠ VALID_TJC_LEADER)
      (hrest : Restores limit rest file writes) : Restores limit (tjcBlock :: rest) file writes
  | incomplete {tjcBlock : Nat} {rest : List Nat} {file : TFile} {core : Words}
      {writes : List (Nat × Words)} (hcore : file tjcBlock = some core)
      (hleader : core 0 = VALID_TJC_LEADER) (hchain : ∀ blocks, ¬ Chain file limit core blocks)
      (hrest : Restores limit rest (invalidateTjcBlock file tjcBlock) writes) :
      Restores limit (tjcBlock :: rest) file writes
  | complete {tjcBlock : Nat} {rest : List Nat} {file : TFile} {core : Words}
      {blocks : List Words} {writes : List (Nat × Words)} (hcore : file tjcBlock = some core)
      (hleader : core 0 = VALID_TJC_LEADER) (hchain : Chain file limit core blocks)
      (hrest : Restores limit rest (invalidateTjcBlock file tjcBlock) writes) :
      Restores limit (tjcBlock :: rest) file (blocks.flatMap (images file) ++ writes)

/-- A recovery that was stopped after some of its writes, any number of times. -/
inductive Crashed (length fuel : Nat) : Disk → Disk → Prop
  | refl (disk : Disk) : Crashed length fuel disk disk
  | step {disk next : Disk} {actions : List Action} (hcrashed : Crashed length fuel disk next)
      (hactions : restoringActions length fuel next.file = some actions) (count : Nat) :
      Crashed length fuel disk (next.performAll (actions.take count))

/-- The recovery ends, writes the images of the complete transactions and nothing else, and leaves
the same database when it is repeated. -/
structure Right (length : Nat) (file : TFile) (fuel : Nat) (actions : List Action) : Prop where
  ends : restoringActions length fuel file = some actions
  writes : Restores (tjcBlockLimit length) (tjcBlocks length) file (pageWrites actions)
  repeated : ∀ database crashed, Crashed length fuel ⟨file, database⟩ crashed →
    ∃ again, restoringActions length fuel crashed.file = some again ∧
      (crashed.performAll again).database =
        (Disk.performAll ⟨file, database⟩ actions).database

/-- The chain of every valid leader is complete, or it breaks off and lists no readable image. -/
def Sound (length : Nat) (file : TFile) : Prop :=
  ∀ tjcBlock ∈ tjcBlocks length, ∀ core, file tjcBlock = some core → core 0 = VALID_TJC_LEADER →
    (∃ blocks, Chain file (tjcBlockLimit length) core blocks) ∨
      ∃ blocks, BrokenChain file (tjcBlockLimit length) core blocks ∧
        blocks.flatMap (images file) = []

end Sql602.Recovery

namespace Sql602.Recovery

open Redo

section Chains

variable {file : TFile} {limit fuel tjcBlock : Nat} {core : Words} {blocks blocks' : List Words}
  {writes : List (Nat × Words)}

theorem Chain.unique (hchain : Chain file limit core blocks)
    (hother : Chain file limit core blocks') : blocks = blocks' := by
  induction hchain generalizing blocks' with
  | last hlink =>
      cases hother with
      | last => rfl
      | link hlink' => exact absurd hlink hlink'
  | link hlink hlimit hnext hmark hblocks ih =>
      cases hother with
      | last hlink' => exact absurd hlink' hlink
      | link hlink' hlimit' hnext' hmark' hblocks' =>
          obtain rfl := Option.some.inj (hnext.symm.trans hnext')
          rw [ih hblocks']

/-- A complete chain does not break off. -/
theorem BrokenChain.not_chain (hbroken : BrokenChain file limit core blocks) :
    ¬ Chain file limit core blocks' := by
  induction hbroken generalizing blocks' with
  | last hlink hend =>
      intro hchain
      cases hchain with
      | last hlink' => exact hlink hlink'
      | link hlink' hlimit hnext hmark hblocks =>
          obtain hlimit' | hnone := hend
          · exact absurd hlimit (Nat.not_lt.mpr hlimit')
          · exact hnone _ hnext hmark
  | link hlink hlimit hnext hmark hblocks ih =>
      intro hchain
      cases hchain with
      | last hlink' => exact hlink hlink'
      | link hlink' hlimit' hnext' hmark' hblocks' =>
          obtain rfl := Option.some.inj (hnext.symm.trans hnext')
          exact ih hblocks'

theorem restoreChain_link {next : Words} (hlink : core 1 ≠ NOBLOCK) (hlimit : core 1 < limit)
    (hnext : file (core 1) = some next) (hmark : next 0 = VALID_TJC_DEPENDENT) :
    restoreChain file limit (fuel + 1) core =
      (restoreChain file limit fuel next).map (images file core ++ ·) := by
  rw [restoreChain, if_neg fun hend => hend.elim hlink (Nat.not_le.mpr hlimit), hnext]
  exact if_pos hmark

theorem Chain.restores (hchain : Chain file limit core blocks) (hfuel : blocks.length ≤ fuel) :
    restoreChain file limit fuel core = some (blocks.flatMap (images file)) := by
  induction hchain generalizing fuel with
  | last hlink =>
      obtain ⟨fuel, rfl⟩ := Nat.exists_eq_succ_of_ne_zero (Nat.ne_of_gt hfuel)
      rw [restoreChain, if_pos (Or.inl hlink), List.flatMap_singleton]
  | link hlink hlimit hnext hmark hblocks ih =>
      obtain ⟨fuel, rfl⟩ :=
        Nat.exists_eq_succ_of_ne_zero (Nat.ne_of_gt (Nat.lt_of_lt_of_le (Nat.succ_pos _) hfuel))
      rw [restoreChain_link hlink hlimit hnext hmark, ih (Nat.le_of_succ_le_succ hfuel),
        List.flatMap_cons]
      rfl

theorem BrokenChain.restores (hbroken : BrokenChain file limit core blocks)
    (hfuel : blocks.length ≤ fuel) :
    restoreChain file limit fuel core = some (blocks.flatMap (images file)) := by
  induction hbroken generalizing fuel with
  | @last core hlink hend =>
      obtain ⟨fuel, rfl⟩ := Nat.exists_eq_succ_of_ne_zero (Nat.ne_of_gt hfuel)
      rw [restoreChain, List.flatMap_singleton]
      split
      · rfl
      · next hgo =>
          have hnone := hend.resolve_left fun hlimit => hgo (Or.inr hlimit)
          cases hnext : file (core 1) with
          | none => rfl
          | some next => exact if_neg (hnone next hnext)
  | link hlink hlimit hnext hmark hblocks ih =>
      obtain ⟨fuel, rfl⟩ :=
        Nat.exists_eq_succ_of_ne_zero (Nat.ne_of_gt (Nat.lt_of_lt_of_le (Nat.succ_pos _) hfuel))
      rw [restoreChain_link hlink hlimit hnext hmark, ih (Nat.le_of_succ_le_succ hfuel),
        List.flatMap_cons]
      rfl

/-- When the loop over a chain ends, the chain is complete or breaks off. -/
theorem restoreChain_cases (hrestore : restoreChain file limit fuel core = some writes) :
    ∃ blocks, writes = blocks.flatMap (images file) ∧
      (Chain file limit core blocks ∨ BrokenChain file limit core blocks) := by
  induction fuel generalizing core writes with
  | zero => cases hrestore
  | succ fuel ih =>
      by_cases hlink : core 1 = NOBLOCK
      · rw [restoreChain, if_pos (Or.inl hlink)] at hrestore
        obtain rfl := Option.some.inj hrestore
        exact ⟨[core], (List.flatMap_singleton _ _).symm, Or.inl (.last hlink)⟩
      · by_cases hlimit : limit ≤ core 1
        · rw [restoreChain, if_pos (Or.inr hlimit)] at hrestore
          obtain rfl := Option.some.inj hrestore
          exact ⟨[core], (List.flatMap_singleton _ _).symm, Or.inr (.last hlink (Or.inl hlimit))⟩
        · cases hnext : file (core 1) with
          | none =>
              rw [restoreChain, if_neg fun hend => hend.elim hlink hlimit, hnext] at hrestore
              obtain rfl := Option.some.inj hrestore
              refine ⟨[core], (List.flatMap_singleton _ _).symm, Or.inr (.last hlink (Or.inr ?_))⟩
              intro next hsome
              cases hnext.symm.trans hsome
          | some next =>
              by_cases hmark : next 0 = VALID_TJC_DEPENDENT
              · have hlimit := Nat.lt_of_not_le hlimit
                rw [restoreChain_link hlink hlimit hnext hmark] at hrestore
                obtain ⟨later, hlater, rfl⟩ := Option.map_eq_some_iff.mp hrestore
                obtain ⟨blocks, rfl, hkind⟩ := ih hlater
                refine ⟨core :: blocks, List.flatMap_cons.symm, ?_⟩
                exact hkind.imp (.link hlink hlimit hnext hmark) (.link hlink hlimit hnext hmark)
              · rw [restoreChain, if_neg fun hend => hend.elim hlink hlimit, hnext] at hrestore
                have hwrites := Option.some.inj ((if_neg hmark).symm.trans hrestore)
                refine ⟨[core], ?_, Or.inr (.last hlink (Or.inr ?_))⟩
                · rw [← hwrites, List.flatMap_singleton]
                · intro other hother
                  obtain rfl := Option.some.inj (hnext.symm.trans hother)
                  exact hmark

end Chains

section Invalidation

variable {file : TFile} {limit tjcBlock block : Nat} {core leader : Words} {blocks : List Words}

theorem invalidate_of_ne (hne : block ≠ tjcBlock) :
    invalidateTjcBlock file tjcBlock block = file block := by
  have hsame : (fun words : Words => if block = tjcBlock then Function.update words 0 TJC_INVALID
      else words) = id := by
    funext words
    exact if_neg hne
  rw [invalidateTjcBlock, hsame, Option.map_id, id_eq]

/-- A leader is no dependent block, and neither is it when it is invalid. -/
theorem invalidate_dependent (hleader : file tjcBlock = some leader)
    (hmark : leader 0 = VALID_TJC_LEADER) {next : Words} :
    (invalidateTjcBlock file tjcBlock block = some next ∧ next 0 = VALID_TJC_DEPENDENT) ↔
      (file block = some next ∧ next 0 = VALID_TJC_DEPENDENT) := by
  by_cases hblock : block = tjcBlock
  · constructor
    · rintro ⟨hnext, hdependent⟩
      rw [invalidateTjcBlock, hblock, hleader, Option.map_some, if_pos rfl] at hnext
      obtain rfl := Option.some.inj hnext
      rw [Function.update_self] at hdependent
      cases hdependent
    · rintro ⟨hnext, hdependent⟩
      rw [hblock, hleader] at hnext
      obtain rfl := Option.some.inj hnext
      rw [hmark] at hdependent
      cases hdependent
  · rw [invalidate_of_ne hblock]

theorem chain_invalidate (hleader : file tjcBlock = some leader)
    (hmark : leader 0 = VALID_TJC_LEADER) :
    Chain (invalidateTjcBlock file tjcBlock) limit core blocks ↔ Chain file limit core blocks := by
  constructor
  · intro hchain
    induction hchain with
    | last hlink => exact .last hlink
    | link hlink hlimit hnext hdependent hblocks ih =>
        obtain ⟨hnext, hdependent⟩ := (invalidate_dependent hleader hmark).mp ⟨hnext, hdependent⟩
        exact .link hlink hlimit hnext hdependent ih
  · intro hchain
    induction hchain with
    | last hlink => exact .last hlink
    | link hlink hlimit hnext hdependent hblocks ih =>
        obtain ⟨hnext, hdependent⟩ := (invalidate_dependent hleader hmark).mpr ⟨hnext, hdependent⟩
        exact .link hlink hlimit hnext hdependent ih

theorem brokenChain_invalidate (hleader : file tjcBlock = some leader)
    (hmark : leader 0 = VALID_TJC_LEADER) :
    BrokenChain (invalidateTjcBlock file tjcBlock) limit core blocks ↔
      BrokenChain file limit core blocks := by
  constructor
  · intro hbroken
    induction hbroken with
    | last hlink hend =>
        refine .last hlink (hend.imp_right fun hnone next hnext hdependent => ?_)
        obtain ⟨hnext, hdependent⟩ := (invalidate_dependent hleader hmark).mpr ⟨hnext, hdependent⟩
        exact hnone next hnext hdependent
    | link hlink hlimit hnext hdependent hblocks ih =>
        obtain ⟨hnext, hdependent⟩ := (invalidate_dependent hleader hmark).mp ⟨hnext, hdependent⟩
        exact .link hlink hlimit hnext hdependent ih
  · intro hbroken
    induction hbroken with
    | last hlink hend =>
        refine .last hlink (hend.imp_right fun hnone next hnext hdependent => ?_)
        obtain ⟨hnext, hdependent⟩ := (invalidate_dependent hleader hmark).mp ⟨hnext, hdependent⟩
        exact hnone next hnext hdependent
    | link hlink hlimit hnext hdependent hblocks ih =>
        obtain ⟨hnext, hdependent⟩ := (invalidate_dependent hleader hmark).mpr ⟨hnext, hdependent⟩
        exact .link hlink hlimit hnext hdependent ih

theorem processPairs_invalidate (count pos : Nat) :
    (processPairs (invalidateTjcBlock file tjcBlock) core count pos).length =
      (processPairs file core count pos).length := by
  induction count generalizing pos with
  | zero => rfl
  | succ count ih =>
      rw [processPairs, processPairs, invalidateTjcBlock]
      split
      · rfl
      · cases file (core (pos + 1)) with
        | none => exact ih (pos + 2)
        | some image => exact congrArg Nat.succ (ih (pos + 2))

theorem length_images_invalidate : (images (invalidateTjcBlock file tjcBlock) core).length =
    (images file core).length := by
  rw [images, images]
  exact processPairs_invalidate 511 2

theorem images_invalidate : (blocks.flatMap (images (invalidateTjcBlock file tjcBlock))).length =
    (blocks.flatMap (images file)).length := by
  induction blocks with
  | nil => rw [List.flatMap_nil, List.flatMap_nil]
  | cons core blocks ih =>
      rw [List.flatMap_cons, List.flatMap_cons, List.length_append, List.length_append, ih,
        length_images_invalidate]

end Invalidation

/-- The chain is complete, or it breaks off without a readable image. -/
def SoundChain (file : TFile) (limit : Nat) (core : Words) : Prop :=
  (∃ blocks, Chain file limit core blocks) ∨
    ∃ blocks, BrokenChain file limit core blocks ∧ blocks.flatMap (images file) = []

def SoundAt (limit : Nat) (positions : List Nat) (file : TFile) : Prop :=
  ∀ tjcBlock ∈ positions, ∀ core, file tjcBlock = some core → core 0 = VALID_TJC_LEADER →
    SoundChain file limit core

section Leaders

variable {file : TFile} {limit fuel tjcBlock : Nat} {core leader : Words} {positions : List Nat}
  {actions : List Action} {writes : List (Nat × Words)}

theorem soundChain_invalidate (hleader : file tjcBlock = some leader)
    (hmark : leader 0 = VALID_TJC_LEADER) :
    SoundChain (invalidateTjcBlock file tjcBlock) limit core ↔ SoundChain file limit core := by
  refine or_congr (exists_congr fun blocks => chain_invalidate hleader hmark)
    (exists_congr fun blocks => and_congr (brokenChain_invalidate hleader hmark) ?_)
  rw [← List.length_eq_zero_iff, images_invalidate, List.length_eq_zero_iff]

/-- The other leaders are the same in the file with an invalid leader. -/
theorem soundAt_invalidate (hleader : file tjcBlock = some leader)
    (hmark : leader 0 = VALID_TJC_LEADER) (hother : tjcBlock ∉ positions) :
    SoundAt limit positions (invalidateTjcBlock file tjcBlock) ↔ SoundAt limit positions file := by
  refine forall_congr' fun block => forall_congr' fun hblock => forall_congr' fun core => ?_
  have hne : block ≠ tjcBlock := by
    rintro rfl
    exact hother hblock
  rw [invalidate_of_ne hne, soundChain_invalidate hleader hmark]

theorem restoreLeaders_other
    (hother : ∀ core, file tjcBlock = some core → core 0 ≠ VALID_TJC_LEADER) :
    restoreLeaders limit fuel (tjcBlock :: positions) file =
      restoreLeaders limit fuel positions file := by
  rw [restoreLeaders]
  cases hcore : file tjcBlock with
  | none => rfl
  | some core => exact if_neg (hother core hcore)

theorem restoreLeaders_leader (hleader : file tjcBlock = some core)
    (hmark : core 0 = VALID_TJC_LEADER) (hchain : restoreChain file limit fuel core = some writes) :
    restoreLeaders limit fuel (tjcBlock :: positions) file =
      (restoreLeaders limit fuel positions (invalidateTjcBlock file tjcBlock)).map fun later =>
        writes.map (fun write => .writeBlock write.1 write.2) ++ .invalidate tjcBlock :: later := by
  rw [restoreLeaders, hleader]
  dsimp only
  rw [if_pos hmark, hchain]

/-- What a recovery with a valid leader did. -/
theorem restoreLeaders_cases (hleader : file tjcBlock = some core)
    (hmark : core 0 = VALID_TJC_LEADER)
    (hactions : restoreLeaders limit fuel (tjcBlock :: positions) file = some actions) :
    ∃ blocks later,
      (Chain file limit core blocks ∨ BrokenChain file limit core blocks) ∧
      restoreLeaders limit fuel positions (invalidateTjcBlock file tjcBlock) = some later ∧
      actions = (blocks.flatMap (images file)).map (fun write => .writeBlock write.1 write.2) ++
        .invalidate tjcBlock :: later := by
  cases hrestore : restoreChain file limit fuel core with
  | none =>
      rw [restoreLeaders, hleader] at hactions
      dsimp only at hactions
      rw [if_pos hmark, hrestore] at hactions
      cases hactions
  | some done =>
      rw [restoreLeaders_leader hleader hmark hrestore] at hactions
      obtain ⟨later, hlater, rfl⟩ := Option.map_eq_some_iff.mp hactions
      obtain ⟨blocks, rfl, hkind⟩ := restoreChain_cases hrestore
      exact ⟨blocks, later, hkind, hlater, rfl⟩

theorem pageWrites_append {first rest : List Action} :
    pageWrites (first ++ rest) = pageWrites first ++ pageWrites rest := List.filterMap_append

theorem pageWrites_map :
    pageWrites (writes.map fun write => .writeBlock write.1 write.2) = writes := by
  rw [pageWrites, List.filterMap_map]
  exact List.filterMap_some

theorem pageWrites_leader {later : List Action} :
    pageWrites (writes.map (fun write => .writeBlock write.1 write.2) ++
      .invalidate tjcBlock :: later) = writes ++ pageWrites later := by
  rw [pageWrites_append, pageWrites_map]
  rfl

/-- A sound file is restored, with enough steps for its longest chain. -/
theorem SoundAt.restores (hsound : SoundAt limit positions file) (hnodup : positions.Nodup) :
    ∃ enough, ∀ fuel, enough ≤ fuel → ∃ actions,
      restoreLeaders limit fuel positions file = some actions ∧
        Restores limit positions file (pageWrites actions) := by
  induction positions generalizing file with
  | nil => exact ⟨0, fun fuel _ => ⟨[], rfl, .nil⟩⟩
  | cons tjcBlock positions ih =>
      obtain ⟨hnotMem, hnodup⟩ := List.nodup_cons.mp hnodup
      have htail : SoundAt limit positions file :=
        fun block hblock => hsound block (List.mem_cons_of_mem _ hblock)
      by_cases hcore : ∃ core, file tjcBlock = some core ∧ core 0 = VALID_TJC_LEADER
      · obtain ⟨core, hcore, hmark⟩ := hcore
        obtain ⟨enough, hrest⟩ :=
          ih ((soundAt_invalidate hcore hmark hnotMem).mpr htail) hnodup
        obtain ⟨blocks, hchain⟩ | ⟨blocks, hbroken, hempty⟩ :=
          hsound tjcBlock List.mem_cons_self core hcore hmark
        · refine ⟨max enough blocks.length, fun fuel hfuel => ?_⟩
          obtain ⟨later, hlater, hwrites⟩ := hrest fuel (Nat.le_trans (Nat.le_max_left _ _) hfuel)
          have hrestore := hchain.restores (Nat.le_trans (Nat.le_max_right _ _) hfuel)
          refine ⟨_, (restoreLeaders_leader hcore hmark hrestore).trans (by rw [hlater]; rfl), ?_⟩
          rw [pageWrites_leader]
          exact .complete hcore hmark hchain hwrites
        · refine ⟨max enough blocks.length, fun fuel hfuel => ?_⟩
          obtain ⟨later, hlater, hwrites⟩ := hrest fuel (Nat.le_trans (Nat.le_max_left _ _) hfuel)
          have hrestore := hbroken.restores (Nat.le_trans (Nat.le_max_right _ _) hfuel)
          refine ⟨_, (restoreLeaders_leader hcore hmark hrestore).trans (by rw [hlater]; rfl), ?_⟩
          rw [pageWrites_leader, hempty, List.nil_append]
          exact .incomplete hcore hmark (fun _ => hbroken.not_chain) hwrites
      · have hother : ∀ core, file tjcBlock = some core → core 0 ≠ VALID_TJC_LEADER :=
          fun core hsome hmark => hcore ⟨core, hsome, hmark⟩
        obtain ⟨enough, hrest⟩ := ih htail hnodup
        refine ⟨enough, fun fuel hfuel => ?_⟩
        obtain ⟨actions, hactions, hwrites⟩ := hrest fuel hfuel
        exact ⟨actions, (restoreLeaders_other hother).trans hactions, .other hother hwrites⟩

/-- The code writes at least what it should; if nothing else, the file is sound. -/
theorem sound_of_restores (hnodup : positions.Nodup)
    (hactions : restoreLeaders limit fuel positions file = some actions)
    (hrestores : Restores limit positions file writes) :
    writes.length ≤ (pageWrites actions).length ∧
      ((pageWrites actions).length = writes.length → SoundAt limit positions file) := by
  induction hrestores generalizing actions with
  | nil => exact ⟨Nat.zero_le _, fun _ block hblock => absurd hblock List.not_mem_nil⟩
  | @other tjcBlock rest file writes hother hrest ih =>
      rw [restoreLeaders_other hother] at hactions
      obtain ⟨hle, hsound⟩ := ih (List.nodup_cons.mp hnodup).2 hactions
      refine ⟨hle, fun heq block hblock core hcore hmark => ?_⟩
      obtain rfl | hblock := List.mem_cons.mp hblock
      · exact absurd hmark (hother core hcore)
      · exact hsound heq block hblock core hcore hmark
  | @incomplete tjcBlock rest file core writes hcore hleader hchain hrest ih =>
      obtain ⟨hnotMem, hnodup⟩ := List.nodup_cons.mp hnodup
      obtain ⟨blocks, later, hkind, hlater, rfl⟩ := restoreLeaders_cases hcore hleader hactions
      have hbroken := hkind.resolve_left (hchain blocks)
      obtain ⟨hle, hsound⟩ := ih hnodup hlater
      rw [pageWrites_leader, List.length_append]
      refine ⟨Nat.le_trans hle (Nat.le_add_left _ _), fun heq block hblock other hother hmark => ?_⟩
      obtain rfl | hblock := List.mem_cons.mp hblock
      · obtain rfl := Option.some.inj (hcore.symm.trans hother)
        exact Or.inr ⟨blocks, hbroken, List.length_eq_zero_iff.mp (by omega)⟩
      · exact (soundAt_invalidate hcore hleader hnotMem).mp (hsound (by omega)) block hblock other
          hother hmark
  | @complete tjcBlock rest file core blocks writes hcore hleader hchain hrest ih =>
      obtain ⟨hnotMem, hnodup⟩ := List.nodup_cons.mp hnodup
      obtain ⟨blocks', later, hkind, hlater, rfl⟩ := restoreLeaders_cases hcore hleader hactions
      obtain ⟨hle, hsound⟩ := ih hnodup hlater
      obtain hchain' | hbroken := hkind
      · obtain rfl := hchain'.unique hchain
        rw [pageWrites_leader, List.length_append, List.length_append]
        refine ⟨Nat.add_le_add_left hle _, fun heq block hblock other hother hmark => ?_⟩
        obtain rfl | hblock := List.mem_cons.mp hblock
        · obtain rfl := Option.some.inj (hcore.symm.trans hother)
          exact Or.inl ⟨_, hchain⟩
        · exact (soundAt_invalidate hcore hleader hnotMem).mp (hsound (by omega)) block hblock
            other hother hmark
      · exact absurd hchain hbroken.not_chain

end Leaders

section Crashes

variable {file : TFile} {database : Nat → Words} {limit fuel length tjcBlock : Nat}
  {positions : List Nat} {actions : List Action}

/-- The transaction file after the actions. -/
def fileAfter (actions : List Action) (file : TFile) : TFile :=
  actions.foldl (fun file action =>
    match action with
    | .writeBlock _ _ => file
    | .invalidate tjcBlock => invalidateTjcBlock file tjcBlock) file

theorem performAll_eq : Disk.performAll ⟨file, database⟩ actions =
    ⟨fileAfter actions file, writeAll (pageWrites actions) database⟩ := by
  induction actions generalizing file database with
  | nil => rfl
  | cons action actions ih =>
      cases action with
      | writeBlock dadr image => exact ih
      | invalidate tjcBlock => exact ih

theorem fileAfter_append {first rest : List Action} :
    fileAfter (first ++ rest) file = fileAfter rest (fileAfter first file) := List.foldl_append

theorem fileAfter_writes (writes : List (Nat × Words)) :
    fileAfter (writes.map fun write => .writeBlock write.1 write.2) file = file := by
  induction writes with
  | nil => rfl
  | cons write writes ih => exact ih

/-- No action makes a valid leader. -/
theorem fileAfter_other
    (hother : ∀ core, file tjcBlock = some core → core 0 ≠ VALID_TJC_LEADER) :
    ∀ core, fileAfter actions file tjcBlock = some core → core 0 ≠ VALID_TJC_LEADER := by
  induction actions generalizing file with
  | nil => exact hother
  | cons action actions ih =>
      cases action with
      | writeBlock dadr image => exact ih hother
      | invalidate block =>
          refine ih fun core hcore => ?_
          obtain ⟨words, hwords, rfl⟩ := Option.map_eq_some_iff.mp hcore
          split
          · rw [Function.update_self]
            decide
          · exact hother words hwords

theorem invalidate_other : ∀ core, invalidateTjcBlock file tjcBlock tjcBlock = some core →
    core 0 ≠ VALID_TJC_LEADER := by
  intro core hcore
  obtain ⟨words, -, rfl⟩ := Option.map_eq_some_iff.mp hcore
  rw [if_pos rfl, Function.update_self]
  decide

/-- The recovery after a stop at any place has the rest of the work, and the transaction that was
being restored is restored from its start. -/
theorem restoreLeaders_again (hactions : restoreLeaders limit fuel positions file = some actions)
    (count : Nat) : ∃ again,
      restoreLeaders limit fuel positions (fileAfter (actions.take count) file) = some again ∧
      ∀ database, writeAll (pageWrites again) (writeAll (pageWrites (actions.take count)) database) =
        writeAll (pageWrites actions) database := by
  induction positions generalizing file actions count with
  | nil =>
      obtain rfl := Option.some.inj hactions
      refine ⟨[], rfl, fun database => ?_⟩
      rw [List.take_nil]
      rfl
  | cons tjcBlock positions ih =>
      by_cases hcore : ∃ core, file tjcBlock = some core ∧ core 0 = VALID_TJC_LEADER
      · obtain ⟨core, hcore, hmark⟩ := hcore
        have hall := hactions
        obtain ⟨blocks, later, -, hlater, rfl⟩ := restoreLeaders_cases hcore hmark hactions
        generalize hwrites : blocks.flatMap (images file) = writes at hall ⊢
        obtain hearly | hlate := Nat.lt_or_ge writes.length count
        · obtain ⟨more, rfl⟩ := Nat.exists_eq_add_of_lt hearly
          have htake : (writes.map (fun write => Action.writeBlock write.1 write.2) ++
              .invalidate tjcBlock :: later).take (writes.length + more + 1) =
                writes.map (fun write => Action.writeBlock write.1 write.2) ++
                  .invalidate tjcBlock :: later.take more := by
            rw [List.take_append, List.length_map, List.take_of_length_le (by
              rw [List.length_map]; omega), show writes.length + more + 1 - writes.length =
              more + 1 by omega, List.take_succ_cons]
          obtain ⟨again, hagain, hdatabase⟩ := ih hlater more
          refine ⟨again, ?_, fun database => ?_⟩
          · rw [htake, fileAfter_append, fileAfter_writes]
            exact (restoreLeaders_other (fileAfter_other invalidate_other)).trans hagain
          · rw [htake, pageWrites_leader, pageWrites_leader, writeAll_append, writeAll_append,
              hdatabase]
        · have htake : (writes.map (fun write => Action.writeBlock write.1 write.2) ++
              .invalidate tjcBlock :: later).take count =
                (writes.take count).map fun write => Action.writeBlock write.1 write.2 := by
            rw [List.take_append_of_le_length (by rw [List.length_map]; exact hlate), List.map_take]
          refine ⟨writes.map (fun write => .writeBlock write.1 write.2) ++
            .invalidate tjcBlock :: later, ?_, fun database => ?_⟩
          · rw [htake, fileAfter_writes]
            exact hall
          · rw [htake, pageWrites_map]
            refine writeAll_again fun write hwrite => ?_
            rw [pageWrites_leader]
            exact List.mem_append_left _ (List.mem_of_mem_take hwrite)
      · have hother : ∀ core, file tjcBlock = some core → core 0 ≠ VALID_TJC_LEADER :=
          fun core hsome hmark => hcore ⟨core, hsome, hmark⟩
        rw [restoreLeaders_other hother] at hactions
        obtain ⟨again, hagain, hdatabase⟩ := ih hactions count
        exact ⟨again, (restoreLeaders_other (fileAfter_other hother)).trans hagain, hdatabase⟩

theorem restoringActions_again (hactions : restoringActions length fuel file = some actions)
    {crashed : Disk} (hcrashed : Crashed length fuel ⟨file, database⟩ crashed) :
    ∃ again, restoringActions length fuel crashed.file = some again ∧
      (crashed.performAll again).database =
        (Disk.performAll ⟨file, database⟩ actions).database := by
  induction hcrashed with
  | refl => exact ⟨actions, hactions, rfl⟩
  | @step next done hnext hdone count ih =>
      obtain ⟨again, hagain, hdatabase⟩ := ih
      obtain rfl := Option.some.inj (hdone.symm.trans hagain)
      obtain ⟨later, hlater, hsame⟩ := restoreLeaders_again hdone count
      obtain ⟨nextFile, nextDatabase⟩ := next
      refine ⟨later, ?_, ?_⟩
      · rw [performAll_eq]
        exact hlater
      · rw [← hdatabase, performAll_eq, performAll_eq, performAll_eq]
        exact hsame nextDatabase

theorem tjcBlocks_nodup (length : Nat) : (tjcBlocks length).Nodup :=
  List.Nodup.map (fun _ _ heq => Nat.eq_of_mul_eq_mul_left (show 0 < 32 by decide) heq)
    List.nodup_range

theorem sound_of_right {fuel : Nat} {actions : List Action}
    (hright : Right length file fuel actions) : Sound length file :=
  (sound_of_restores (tjcBlocks_nodup length) hright.ends hright.writes).2 rfl

end Crashes

/-- A leader whose dependent block is its own dependent block. -/
def cyclicFile : TFile := fun block =>
  if block = 0 then some fun pos =>
    if pos = 0 then VALID_TJC_LEADER else if pos = 1 then 32 else NOBLOCK
  else if block = 32 then some fun pos =>
    if pos = 0 then VALID_TJC_DEPENDENT else if pos = 1 then 32 else NOBLOCK
  else none

end Sql602.Recovery
