import Mathlib.Algebra.Order.BigOperators.Group.List
import Mathlib.Algebra.Order.Ring.Nat
import Mathlib.Data.Set.Basic
import Sql602.Table.IndexTakeovers

namespace Sql602.IndexAlteration

open Takings

/-! The index that takes over a root has to be the index the root was built for. The test by
`same_index` compares neither the order of the parts nor the uniqueness nor the nulls. -/

section Values

variable {V : Type} (value : String → (String → V) → V)

/-- The value of a column of the record in the new table, from the record in the old one. -/
def moved (natt : AtrAll) (row : String → V) : V :=
  match natt.alt_value with
  | none => row natt.name
  | some alt_value => value alt_value row

def namedAttr (ta : TableAll) (name : String) : AtrAll :=
  (ta.attrs.find? fun att => decide (att.name = name)).getD ⟨name, none⟩

def oldValue (ta_old : TableAll) (row : String → V) : PartExpr → V
  | .attr elemnum _ _ => row (ta_old.acc0 elemnum).name
  | .other code _ _ => value code row

def newValue (ta_new : TableAll) (row : String → V) : PartExpr → V
  | .attr elemnum _ _ => moved value (ta_new.acc0 elemnum) row
  | .other code _ _ => value code fun name => moved value (namedAttr ta_new name) row

/-- The items of an index: the keys of the records with their numbers, without the null keys
when the index has no nulls. -/
def items (null : V → Prop) (evaluate : (String → V) → PartExpr → V) (indx : DdIndex)
    (rows : Nat → Option (String → V)) : Set (List V × Nat) :=
  {item | ∃ row, rows item.2 = some row ∧
    item.1 = indx.parts.map (fun part => evaluate row part.expr) ∧
    (indx.has_nulls = true ∨ ∃ v ∈ item.1, ¬ null v)}

/-- The layout of the keys, their order, the uniqueness and the nulls are the same, so that the
items of the same records are. -/
structure Serves (evaluateOld evaluateNew : (String → V) → PartExpr → V)
    (oindx nindx : DdIndex) : Prop where
  keysize : nindx.keysize = oindx.keysize
  order : nindx.parts.map PartDesc.order = oindx.parts.map PartDesc.order
  key : ∀ row, nindx.parts.map (fun part => evaluateNew row part.expr) =
    oindx.parts.map fun part => evaluateOld row part.expr
  distinct : nindx.DISTINCT = oindx.DISTINCT
  has_nulls : nindx.has_nulls = oindx.has_nulls
  items : ∀ null rows, items null evaluateNew nindx rows = items null evaluateOld oindx rows

theorem serves_of {evaluateOld evaluateNew : (String → V) → PartExpr → V} {oindx nindx : DdIndex}
    (hkeysize : nindx.keysize = oindx.keysize)
    (horder : nindx.parts.map PartDesc.order = oindx.parts.map PartDesc.order)
    (hkey : ∀ row, nindx.parts.map (fun part => evaluateNew row part.expr) =
      oindx.parts.map fun part => evaluateOld row part.expr)
    (hdistinct : nindx.DISTINCT = oindx.DISTINCT) (hnulls : nindx.has_nulls = oindx.has_nulls) :
    Serves evaluateOld evaluateNew oindx nindx := by
  refine ⟨hkeysize, horder, hkey, hdistinct, hnulls, fun null rows => ?_⟩
  ext item
  refine exists_congr fun row => and_congr_right fun _ => ?_
  rw [hkey row, hnulls]

/-- The text a column of the new table takes its values from. -/
def sourceText (ta_new : TableAll) : PartExpr → Option String
  | .attr elemnum _ _ => (ta_new.acc0 elemnum).alt_value
  | .other _ _ _ => none

/-- What `same_index` does not compare. That the text of a value denotes the column whose name
it is makes a difference for names that are other expressions when they are not quoted. -/
structure Agrees (ta_old ta_new : TableAll) (oindx nindx : DdIndex) : Prop where
  desc : nindx.parts.map PartDesc.desc = oindx.parts.map PartDesc.desc
  distinct : nindx.DISTINCT = oindx.DISTINCT
  has_nulls : nindx.has_nulls = oindx.has_nulls
  text : ∀ parts ∈ oindx.parts.zip nindx.parts, ∀ alt_value,
    sourceText ta_new parts.2.expr = some alt_value →
      ∀ row, value alt_value row = oldValue value ta_old row parts.1.expr

end Values

section Same

variable {V : Type} {value : String → (String → V) → V} {ta_old ta_new : TableAll}
variable {oexpr nexpr : PartExpr} {oparts nparts : List PartDesc} {oindx nindx : DdIndex}

theorem samePart_value (hsame : samePart ta_old ta_new oexpr nexpr = true) :
    (∀ row, newValue value ta_new row nexpr = oldValue value ta_old row oexpr) ↔
      ∀ alt_value, sourceText ta_new nexpr = some alt_value →
        ∀ row, value alt_value row = oldValue value ta_old row oexpr := by
  cases oexpr with
  | other code type opqval => simp [samePart] at hsame
  | attr oelemnum otype oopqval =>
      cases nexpr with
      | other code type opqval => simp [samePart] at hsame
      | attr nelemnum ntype nopqval =>
          simp only [samePart, Bool.and_eq_true, decide_eq_true_eq] at hsame
          have hsource := hsame.2
          rw [sameSource] at hsource
          simp only [newValue, oldValue, moved, sourceText]
          cases htext : (ta_new.acc0 nelemnum).alt_value with
          | some alt_value =>
              constructor
              · intro hvalue other hother row
                obtain rfl := Option.some.inj hother
                exact hvalue row
              · intro hvalue row
                exact hvalue alt_value rfl row
          | none =>
              rw [htext] at hsource
              have hname := of_decide_eq_true hsource
              constructor
              · intro _ other hother
                exact absurd hother (by simp)
              · intro _ row
                exact congrArg row hname.symm

theorem samePart_order {opart npart : PartDesc}
    (hsame : samePart ta_old ta_new opart.expr npart.expr = true) :
    npart.order = opart.order ↔ npart.desc = opart.desc := by
  obtain ⟨oexpr, odesc⟩ := opart
  obtain ⟨nexpr, ndesc⟩ := npart
  cases oexpr with
  | other code type opqval => simp [samePart] at hsame
  | attr oelemnum otype oopqval =>
      cases nexpr with
      | other code type opqval => simp [samePart] at hsame
      | attr nelemnum ntype nopqval =>
          simp only [samePart, Bool.and_eq_true, decide_eq_true_eq] at hsame
          obtain ⟨⟨rfl, rfl⟩, -⟩ := hsame
          simp [PartDesc.order, PartExpr.type, PartExpr.opqval]

theorem sameParts_order (hsame : sameParts ta_old ta_new oparts nparts = true) :
    nparts.map PartDesc.order = oparts.map PartDesc.order ↔
      nparts.map PartDesc.desc = oparts.map PartDesc.desc := by
  induction oparts generalizing nparts with
  | nil =>
      cases nparts with
      | nil => simp
      | cons npart nrest => simp [sameParts] at hsame
  | cons opart orest ih =>
      cases nparts with
      | nil => simp [sameParts] at hsame
      | cons npart nrest =>
          rw [sameParts, Bool.and_eq_true] at hsame
          simp only [List.map_cons, List.cons.injEq]
          exact and_congr (samePart_order hsame.1) (ih hsame.2)

theorem sameParts_key (hsame : sameParts ta_old ta_new oparts nparts = true) :
    (∀ row, nparts.map (fun part => newValue value ta_new row part.expr) =
        oparts.map fun part => oldValue value ta_old row part.expr) ↔
      ∀ parts ∈ oparts.zip nparts, ∀ alt_value,
        sourceText ta_new parts.2.expr = some alt_value →
          ∀ row, value alt_value row = oldValue value ta_old row parts.1.expr := by
  induction oparts generalizing nparts with
  | nil =>
      cases nparts with
      | nil => simp
      | cons npart nrest => simp [sameParts] at hsame
  | cons opart orest ih =>
      cases nparts with
      | nil => simp [sameParts] at hsame
      | cons npart nrest =>
          rw [sameParts, Bool.and_eq_true] at hsame
          simp only [List.map_cons, List.cons.injEq, List.zip_cons_cons, List.forall_mem_cons]
          rw [forall_and]
          exact and_congr (samePart_value hsame.1) (ih hsame.2)

theorem same_index_serves (hsame : same_index ta_old ta_new oindx nindx = true) :
    Serves (oldValue value ta_old) (newValue value ta_new) oindx nindx ↔
      Agrees value ta_old ta_new oindx nindx := by
  simp only [same_index, Bool.and_eq_true, decide_eq_true_eq] at hsame
  obtain ⟨⟨-, hkeysize⟩, hparts⟩ := hsame
  constructor
  · intro hserves
    exact ⟨(sameParts_order hparts).mp hserves.order, hserves.distinct, hserves.has_nulls,
      (sameParts_key hparts).mp hserves.key⟩
  · intro hagrees
    exact serves_of hkeysize.symm ((sameParts_order hparts).mpr hagrees.desc)
      ((sameParts_key hparts).mpr hagrees.text) hagrees.distinct hagrees.has_nulls

theorem SameDefinition.serves (hsame : SameDefinition oindx nindx) :
    Serves (oldValue value ta_old) (oldValue value ta_old) oindx nindx := by
  refine serves_of hsame.keysize ?_ (fun row => ?_) ?_ hsame.has_nulls
  · rw [hsame.parts]
  · rw [hsame.parts]
  · rw [DdIndex.DISTINCT, DdIndex.DISTINCT, hsame.ccateg]

end Same

/-- The old roots are accounted for once the changes are committed. Otherwise nothing is
dropped, and whenever the changes are not completed the old table has its old roots. -/
structure Right (same : DdIndex → IndDescr → Prop) (env : Environment) (tbdf : TableDescr)
    (kept : List IndDescr) (altered : Altered) : Prop where
  accounts : altered.committed = true →
    Accounts same env tbdf kept altered.drops altered.newRoots
  failed : altered.committed = false → altered.drops = [] ∧ altered.done = false
  unharmed : altered.done = false → altered.indroot_old = tbdf.indroot
  saved : altered.done = true → altered.indroot_new = rootArray altered.newRoots
  released : altered.done = true →
    altered.indroot_old = altered.indroot_new ∨ ∀ j, altered.indroot_old j = 0

section Verdict

variable {same : DdIndex → IndDescr → Prop} {tables : Transformation} {change : Change}

theorem change_indicies_right (env : Environment)
    (hsame : ∀ oindx nind, SameDefinition oindx nind.indx → same oindx nind) :
    Right same env change.tbdf change.ta.kept (change_indicies env change) := by
  have hnothing : Right same env change.tbdf change.ta.kept
      ⟨false, false, [], [], change.tbdf.indroot, change.tbdf.indroot⟩ :=
    ⟨nofun, fun _ => ⟨rfl, rfl⟩, fun _ => rfl, nofun, nofun⟩
  rw [change_indicies]
  split
  · cases hmade : makeRoots stateNumber (compileAndCreate env) change.tbdf.indroot change.blocks
        change.ta.kept with
    | none => exact hnothing
    | some made =>
        obtain ⟨new_roots, old_roots⟩ := made
        by_cases hcommit : env.commit = true
        · simp only [hcommit, if_true]
          have htakers : TakersSame same stateNumber change.tbdf change.ta.kept := by
            intro i j nind oindx htaker hget hoindx _
            obtain ⟨⟨claimant, hclaimant, hnames⟩, -⟩ := htaker
            obtain rfl := Option.some.inj (hget.symm.trans hclaimant)
            exact hsame oindx nind
              (change.original nind (List.mem_of_getElem? hget) j hnames oindx hoindx)
          have haccounts : Accounts same env change.tbdf change.ta.kept
              ([] ++ dropUnused old_roots change.tbdf.indxs 0) new_roots :=
            (TableDescr.makeRoots_made hmade).accounts (fun blocks nind root hroot => by
                rw [compileAndCreate] at hroot
                split at hroot
                · exact hroot
                · exact absurd hroot (by simp))
              change.used htakers fun _ _ => rfl
          exact ⟨fun _ => haccounts, nofun, nofun, fun _ => rfl, fun _ => Or.inl rfl⟩
        · simp only [hcommit]
          exact hnothing
  · exact hnothing

theorem dropsOf_originals (tables : Transformation) (j : Nat)
    (hroot : tables.tbdf_old.indroot j ≠ 0) :
    dropsOf (dropOriginals tables.ta_new.kept) (tables.tbdf_old.indroot j) = [] :=
  dropsOf_dropOriginals fun nind hmem => tables.apart nind hmem j hroot

theorem transform_indexes_right (env : Environment)
    (htakers : TakersSame same (same_old_index tables) tables.tbdf_old tables.ta_new.kept) :
    Right same env tables.tbdf_old tables.ta_new.kept (transform_indexes env tables) := by
  have hnothing : Right same env tables.tbdf_old tables.ta_new.kept
      ⟨false, false, [], [], tables.tbdf_old.indroot, tables.tbdf_new.indroot⟩ :=
    ⟨nofun, fun _ => ⟨rfl, rfl⟩, fun _ => rfl, nofun, nofun⟩
  rw [transform_indexes]
  split
  · cases hmade : makeRoots (same_old_index tables) (createTree env) tables.tbdf_old.indroot
        tables.blocks tables.ta_new.kept with
    | none => exact hnothing
    | some made =>
        obtain ⟨new_roots, old_roots⟩ := made
        by_cases hcommit : env.commit = true
        · simp only [hcommit, if_true]
          have haccounts : Accounts same env tables.tbdf_old tables.ta_new.kept
              (dropOriginals tables.ta_new.kept ++ dropUnused old_roots tables.tbdf_old.indxs 0)
              new_roots :=
            (TableDescr.makeRoots_made hmade).accounts (fun _ _ _ hroot => hroot) tables.used
              htakers (dropsOf_originals tables)
          split
          · refine ⟨fun _ => haccounts, nofun, nofun, fun _ => rfl, fun _ => ?_⟩
            cases decide (tables.tbdf_new.basblockn = tables.tbdf_old.basblockn) with
            | true => exact Or.inl rfl
            | false => exact Or.inr fun j => rfl
          · exact ⟨fun _ => haccounts, nofun, fun _ => rfl, nofun, nofun⟩
        · simp only [hcommit]
          exact hnothing
  · exact hnothing

/-- Everything succeeds. -/
def freely : Environment where
  compile_index := fun _ => true
  create_btree := fun blocks _ => some (blocks.sum + 1)
  access_block := fun _ => true
  commit := true
  fresh := by
    intro blocks indx root hroot
    obtain rfl := Option.some.inj hroot
    exact ⟨Nat.succ_ne_zero _, fun hmem => absurd (List.le_sum_of_mem hmem) (by omega)⟩

theorem takersSame_of_right
    (hright : Right same freely tables.tbdf_old tables.ta_new.kept
      (transform_indexes freely tables)) :
    TakersSame same (same_old_index tables) tables.tbdf_old tables.ta_new.kept := by
  obtain ⟨⟨new_roots, old_roots⟩, hmade⟩ :=
    @exists_makeRoots (same_old_index tables) (createTree freely) tables.tbdf_old.indroot
      tables.blocks tables.ta_new.kept fun blocks nind => ⟨_, rfl⟩
  have hcommitted : (transform_indexes freely tables).committed = true ∧
      (transform_indexes freely tables).newRoots = new_roots := by
    simp only [transform_indexes, freely, if_true, Bool.true_and, Bool.or_true]
    simp only [freely] at hmade
    rw [hmade]
    exact ⟨rfl, rfl⟩
  have haccounts := hright.accounts hcommitted.1
  rw [hcommitted.2] at haccounts
  exact (TableDescr.makeRoots_made hmade).takersSame (fun _ _ _ hroot => hroot) tables.used
    haccounts

variable {V : Type} (value : String → (String → V) → V)

end Verdict

/-- An index of the column `A`, which is an integer. -/
def indexOfA (ccateg root : Nat) : DdIndex :=
  ⟨ccateg, false, false, 8, [⟨.attr 0 3 0, false⟩], root⟩

def tableOfA (state : IndexState) (ccateg root : Nat) : TableAll :=
  ⟨[⟨"A", none⟩], [⟨state, indexOfA ccateg root⟩]⟩

/-- A table with one index, whose root is the block 7. -/
def oneIndex (basblockn ccateg : Nat) : TableDescr where
  basblockn := basblockn
  indxs := [indexOfA ccateg 7]
  indroot := fun j => if j = 0 then 7 else 0
  unused := by
    intro j hj
    exact if_neg (Nat.ne_of_gt hj)
  distinct := by
    intro j k hroot hsame
    by_cases hj : j = 0
    · by_cases hk : k = 0
      · exact hj.trans hk.symm
      · rw [if_pos hj, if_neg hk] at hsame
        exact absurd hsame (by decide)
    · exact absurd (if_neg hj) hroot

/-- A column is added, and the index that allows duplicate keys is replaced by a unique one. -/
def becomesUnique : Transformation where
  ta_old := tableOfA (.old 0) 3 7
  ta_new := tableOfA .new 2 8
  tbdf_old := oneIndex 5 3
  tbdf_new := oneIndex 6 2
  blocks := [5, 6, 7, 8]
  used := by
    intro j hroot
    by_cases hj : j = 0
    · subst hj
      decide
    · exact absurd (if_neg hj) hroot
  apart := by
    intro nind hmem j hroot
    obtain rfl := List.mem_singleton.mp hmem
    by_cases hj : j = 0
    · subst hj
      decide
    · exact absurd (if_neg hj) hroot

end Sql602.IndexAlteration
