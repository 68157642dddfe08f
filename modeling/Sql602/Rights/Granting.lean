import Sql602.Rights.PrivilMaps
import Sql602.Rights.PrivilRefinement

namespace Sql602.Rights

open Bytes Run

/-! Which privileges a grantor may change. -/

/-- The lowest pair with a bit. -/
def lowestPair (diff : UInt8) : Nat :=
  if diff &&& 0x03 ≠ 0 then 0
  else if diff &&& 0x0c ≠ 0 then 1
  else if diff &&& 0x30 ≠ 0 then 2
  else 3

def offendingAttr (i : Nat) (diff : UInt8) : Nat := 1 + 4 * (i - 1) + lowestPair diff

def excusedRights : UInt8 :=
  RIGHT_NEW_READ ||| RIGHT_NEW_WRITE ||| RIGHT_NEW_DEL ||| RIGHT_READ ||| RIGHT_WRITE

/-- Passing the bytes of the maps; there is no result when a change is refused. Otherwise it
says whether there is a difference. -/
def grantFrom (attrcnt : Nat) :
    Nat → List UInt8 → List UInt8 → List UInt8 → Bool → Option Bool
  | i, mine :: myRest, his :: hisRest, given :: givenRest, mustGrant =>
      let changed := given ^^^ his
      if changed = 0 then grantFrom attrcnt (i + 1) myRest hisRest givenRest mustGrant
      else
        let diff := changed &&& ~~~ mine
        if diff = 0 then grantFrom attrcnt (i + 1) myRest hisRest givenRest true
        else if i = 0 then
          if diff &&& ~~~ excusedRights ≠ 0 then none
          else grantFrom attrcnt (i + 1) myRest hisRest givenRest true
        else if offendingAttr i diff < attrcnt then none
        -- no need to check the others
        else some true
  | _, _, _, _, mustGrant => some mustGrant

def grantable (attrcnt : Nat) (mine his given : List UInt8) : Bool :=
  match grantFrom attrcnt 0 mine his given false with
  | none => false
  | some mustGrant => !mustGrant || mine.getD 0 0 &&& RIGHT_GRANT != 0

/-- The grantor has a cache of effective privileges. The call does not end when a search in it
does not. -/
def canGrantPrivils (grantor : PrivilState) (fullAccess : Bool) (subject : Subject)
    (tb rec : UInt32) (map given : List UInt8) : Option Bool :=
  if fullAccess then some true
  else
    (grantor.privils.getEffectivePrivils grantor.defs tb rec map).map fun outcome =>
      grantable (grantor.defs.attrcnt tb) outcome.answer
        (getOwnPrivils grantor.defs subject tb rec).2 given

/-! What the grantor must have. -/

def differ (his given : List UInt8) (pos bit : Nat) : Bool :=
  hasBit his pos bit != hasBit given pos bit

/-- The bits of the rights to insert, to delete and to grant. -/
def grantedBits : List Nat := [2, 3, 7]

/-- The rights in which the maps differ are those of the grantor, who has the right to grant. -/
structure MayGrant (attrcnt : Nat) (mine his given : List UInt8) : Prop where
  columns : ∀ (right : ColumnRight) (column : Nat), 1 ≤ column → column < attrcnt →
    hasOwn right his column ≠ hasOwn right given column → hasOwn right mine column = true
  global : ∀ bit ∈ grantedBits, hasBit his 0 bit ≠ hasBit given 0 bit → hasBit mine 0 bit = true
  grant : his ≠ given → hasBit mine 0 7 = true

section Bytes

variable {diff mine his given byte : UInt8} {i bit attrcnt : Nat}

theorem byte_eq_zero_iff : byte = 0 ↔ ∀ bit < 8, byte.toNat.testBit bit = false := by
  rw [← UInt8.toNat_inj]
  constructor
  · intro hzero bit _
    rw [hzero]
    exact Nat.zero_testBit bit
  · intro hbits
    apply Nat.eq_of_testBit_eq
    intro bit
    rw [UInt8.toNat_zero, Nat.zero_testBit]
    cases Nat.lt_or_ge bit 8 with
    | inl hbit => exact hbits bit hbit
    | inr hbit =>
        exact Nat.testBit_lt_two_pow (Nat.lt_of_lt_of_le byte.toNat_lt
          (Nat.pow_le_pow_right (by decide) hbit))

theorem testBit_not (hbit : bit < 8) : (~~~ byte).toNat.testBit bit = !byte.toNat.testBit bit := by
  rw [UInt8.toNat_not]
  have hlt := byte.toNat_lt
  have hsub : 2 ^ 8 - 1 - byte.toNat = 2 ^ 8 - (byte.toNat + 1) := by omega
  change (2 ^ 8 - 1 - byte.toNat).testBit bit = _
  rw [hsub, Nat.testBit_two_pow_sub_succ hlt]
  simp [hbit]

/-- The bits of the difference that the grantor does not have. -/
theorem testBit_diff (hbit : bit < 8) :
    ((given ^^^ his) &&& ~~~ mine).toNat.testBit bit =
      ((given.toNat.testBit bit ^^ his.toNat.testBit bit) && !mine.toNat.testBit bit) := by
  rw [UInt8.toNat_and, Nat.testBit_and, UInt8.toNat_xor, Nat.testBit_xor, testBit_not hbit]

theorem lowestPair_spec (hdiff : diff ≠ 0) :
    (∃ bit < 8, diff.toNat.testBit bit = true ∧ lowestPair diff = bit / 2) ∧
      ∀ bit < 8, diff.toNat.testBit bit = true → lowestPair diff ≤ bit / 2 := by
  have hall : ∀ n < 256, UInt8.ofNat n ≠ 0 →
      (∃ bit < 8, (UInt8.ofNat n).toNat.testBit bit = true ∧
        lowestPair (UInt8.ofNat n) = bit / 2) ∧
      ∀ bit < 8, (UInt8.ofNat n).toNat.testBit bit = true →
        lowestPair (UInt8.ofNat n) ≤ bit / 2 := by
    decide +kernel
  have hbyte := hall diff.toNat diff.toNat_lt
  rw [UInt8.ofNat_toNat] at hbyte
  exact hbyte hdiff

theorem excused_iff :
    diff &&& ~~~ excusedRights = 0 ↔ ∀ bit ∈ grantedBits, diff.toNat.testBit bit = false := by
  have hall : ∀ n < 256, UInt8.ofNat n &&& ~~~ excusedRights = 0 ↔
      ∀ bit ∈ grantedBits, (UInt8.ofNat n).toNat.testBit bit = false := by
    decide +kernel
  have hbyte := hall diff.toNat diff.toNat_lt
  rw [UInt8.ofNat_toNat] at hbyte
  exact hbyte

theorem changed_eq_zero : given ^^^ his = 0 ↔ his = given := by
  rw [byte_eq_zero_iff]
  constructor
  · intro hbits
    rw [← UInt8.toNat_inj]
    apply Nat.eq_of_testBit_eq
    intro bit
    cases Nat.lt_or_ge bit 8 with
    | inl hbit =>
        have hsame := hbits bit hbit
        rw [UInt8.toNat_xor, Nat.testBit_xor] at hsame
        exact (bne_eq_false_iff_eq.mp hsame).symm
    | inr hbit =>
        have hpow : 2 ^ 8 ≤ 2 ^ bit := Nat.pow_le_pow_right (by decide) hbit
        rw [Nat.testBit_lt_two_pow (Nat.lt_of_lt_of_le his.toNat_lt hpow),
          Nat.testBit_lt_two_pow (Nat.lt_of_lt_of_le given.toNat_lt hpow)]
  · rintro rfl bit -
    rw [UInt8.toNat_xor, Nat.testBit_xor, Bool.xor_self]

/-- The grantor has the rights in which the bytes differ, apart from bits behind the last
column. -/
def ByteAllowed (attrcnt i : Nat) (mine his given : UInt8) : Prop :=
  ∀ bit < 8, his.toNat.testBit bit ≠ given.toNat.testBit bit →
    mine.toNat.testBit bit = true ∨ attrcnt ≤ 1 + 4 * (i - 1) + bit / 2

/-- The rights that the grantor lacks are those with a bit in the difference. -/
theorem diff_iff (hbit : bit < 8) :
    ((given ^^^ his) &&& ~~~ mine).toNat.testBit bit = true ↔
      his.toNat.testBit bit ≠ given.toNat.testBit bit ∧ mine.toNat.testBit bit = false := by
  rw [testBit_diff hbit]
  cases his.toNat.testBit bit <;> cases given.toNat.testBit bit <;>
    cases mine.toNat.testBit bit <;> decide

theorem ByteAllowed.of_diff_zero (hdiff : (given ^^^ his) &&& ~~~ mine = 0) :
    ByteAllowed attrcnt i mine his given := by
  intro bit hbit hdiffers
  rw [byte_eq_zero_iff] at hdiff
  cases hmine : mine.toNat.testBit bit with
  | true => exact Or.inl rfl
  | false =>
      have hset := (diff_iff hbit).mpr ⟨hdiffers, hmine⟩
      rw [hdiff bit hbit] at hset
      cases hset

end Bytes

section Passing

variable {attrcnt i : Nat} {mine his given : List UInt8} {mustGrant : Bool}

/-- What the passing of the bytes from number `i` on says. -/
def PassedFrom (attrcnt i : Nat) (mine his given : List UInt8) (mustGrant : Bool) :
    Option Bool → Prop
  | none => ∃ k < mine.length,
      ¬ ByteAllowed attrcnt (i + k) (mine.getD k 0) (his.getD k 0) (given.getD k 0)
  | some result =>
      (∀ k < mine.length,
        ByteAllowed attrcnt (i + k) (mine.getD k 0) (his.getD k 0) (given.getD k 0)) ∧
      (result = true ↔ mustGrant = true ∨ his ≠ given)

theorem PassedFrom.cons {result : Option Bool} {mine0 his0 given0 : UInt8}
    (hbyte : ByteAllowed attrcnt i mine0 his0 given0)
    (hmust : mustGrant = true ∨ his0 ≠ given0 ↔ must' = true)
    (hrest : PassedFrom attrcnt (i + 1) mine his given must' result) :
    PassedFrom attrcnt i (mine0 :: mine) (his0 :: his) (given0 :: given) mustGrant result := by
  cases result with
  | none =>
      obtain ⟨k, hk, hrefused⟩ := hrest
      refine ⟨k + 1, Nat.succ_lt_succ hk, ?_⟩
      rw [show i + (k + 1) = i + 1 + k by omega]
      exact hrefused
  | some must =>
      obtain ⟨hall, hiff⟩ := hrest
      constructor
      · intro k hk
        cases k with
        | zero => exact hbyte
        | succ k =>
            rw [show i + (k + 1) = i + 1 + k by omega]
            exact hall k (Nat.lt_of_succ_lt_succ hk)
      · rw [hiff, ← hmust, or_assoc, ne_eq, ne_eq, ne_eq, List.cons.injEq, not_and_or]

/-- From the second byte on. -/
theorem grantFrom_columns (hi : 1 ≤ i) (hhis : his.length = mine.length)
    (hgiven : given.length = mine.length) :
    PassedFrom attrcnt i mine his given mustGrant
      (grantFrom attrcnt i mine his given mustGrant) := by
  induction mine generalizing i his given mustGrant with
  | nil =>
      cases List.eq_nil_of_length_eq_zero hhis
      cases List.eq_nil_of_length_eq_zero hgiven
      exact ⟨fun k hk => absurd hk (Nat.not_lt_zero k), by
        simp only [ne_eq, not_true_eq_false, or_false]⟩
  | cons mine0 mine ih =>
      obtain ⟨his0, his, rfl⟩ := List.exists_cons_of_length_eq_add_one hhis
      obtain ⟨given0, given, rfl⟩ := List.exists_cons_of_length_eq_add_one hgiven
      have hrest : ∀ must, PassedFrom attrcnt (i + 1) mine his given must
          (grantFrom attrcnt (i + 1) mine his given must) := fun must =>
        ih (Nat.le_succ_of_le hi) (Nat.succ.inj hhis) (Nat.succ.inj hgiven)
      rw [grantFrom]
      dsimp only
      split
      case isTrue hsame =>
        have heq := changed_eq_zero.mp hsame
        refine PassedFrom.cons (fun bit _ hdiffers => absurd (heq ▸ rfl) hdiffers) ?_
          (hrest mustGrant)
        simp only [heq, ne_eq, not_true_eq_false, or_false]
      case isFalse hchanged =>
        have hne : his0 ≠ given0 := fun h => hchanged (changed_eq_zero.mpr h)
        split
        case isTrue hdiff =>
          exact PassedFrom.cons (ByteAllowed.of_diff_zero hdiff)
            (iff_of_true (Or.inr hne) rfl) (hrest true)
        case isFalse hdiff =>
          rw [if_neg (Nat.ne_of_gt hi)]
          obtain ⟨⟨bit, hbit, hset, hlowest⟩, hleast⟩ := lowestPair_spec hdiff
          split
          case isTrue hcolumn =>
            refine ⟨0, Nat.zero_lt_succ _, fun hallowed => ?_⟩
            obtain ⟨hdiffers, hmine⟩ := (diff_iff hbit).mp hset
            cases hallowed bit hbit hdiffers with
            | inl hhas => exact absurd (hmine.symm.trans hhas) (by decide)
            | inr hbehind =>
                rw [offendingAttr, hlowest] at hcolumn
                exact absurd hcolumn (Nat.not_lt_of_le hbehind)
          case isFalse hbehind =>
            rw [offendingAttr] at hbehind
            refine ⟨fun k hk bit hbit hdiffers => ?_, iff_of_true rfl (Or.inr ?_)⟩
            · cases k with
              | zero =>
                  cases hmine : mine0.toNat.testBit bit with
                  | true => exact Or.inl hmine
                  | false =>
                      have hle := hleast bit hbit ((diff_iff hbit).mpr ⟨hdiffers, hmine⟩)
                      refine Or.inr ?_
                      omega
              | succ k =>
                  refine Or.inr ?_
                  omega
            · intro heq
              exact hne (List.cons.inj heq).1

/-- The bits of the bytes behind the first one are those of the columns. -/
theorem columns_iff (hlength : mine.length = privilDescrSize attrcnt) :
    (∀ k, k + 1 < mine.length → ByteAllowed attrcnt (1 + k) (mine.getD (k + 1) 0)
        (his.getD (k + 1) 0) (given.getD (k + 1) 0)) ↔
      ∀ (right : ColumnRight) (column : Nat), 1 ≤ column → column < attrcnt →
        hasOwn right his column ≠ hasOwn right given column → hasOwn right mine column = true := by
  constructor
  · intro hall right column hlow hhigh hdiffers
    have hpos : (column - 1) / 4 + 1 < mine.length := by
      rw [hlength, Nat.add_comm]
      exact columnByte_lt hhigh
    have hbyte : columnByte column = (column - 1) / 4 + 1 := Nat.add_comm 1 _
    have hbit := @columnBit_lt right column
    rw [hasOwn, hasOwn, hbyte, hasBit_eq hbit, hasBit_eq hbit] at hdiffers
    rw [hasOwn, hbyte, hasBit_eq hbit]
    refine (hall _ hpos _ hbit hdiffers).resolve_right (Nat.not_le_of_lt ?_)
    have hhalf : columnBit right column / 2 = (column - 1) % 4 := by
      cases right <;> simp only [columnBit, ColumnRight.offset] <;> omega
    omega
  · intro hall k hk bit hbit hdiffers
    refine or_iff_not_imp_right.mpr fun hcolumn => ?_
    obtain ⟨right, hright⟩ : ∃ right : ColumnRight, right.offset = bit % 2 := by
      cases Nat.mod_two_eq_zero_or_one bit with
      | inl heven => exact ⟨.read, heven.symm⟩
      | inr hodd => exact ⟨.write, hodd.symm⟩
    have hbyte : columnByte (1 + 4 * k + bit / 2) = k + 1 := by
      unfold columnByte
      omega
    have hcolumnBit : columnBit right (1 + 4 * k + bit / 2) = bit := by
      rw [columnBit, hright]
      omega
    have hmine := hall right (1 + 4 * k + bit / 2) (by omega) (by omega)
    rw [hasOwn, hasOwn, hasOwn, hbyte, hcolumnBit, hasBit_eq hbit, hasBit_eq hbit,
      hasBit_eq hbit] at hmine
    exact hmine hdiffers

/-- The grantor has the rights in which the first bytes differ, the excused ones apart. -/
def HeadAllowed (mine his given : UInt8) : Prop :=
  ∀ bit ∈ grantedBits, his.toNat.testBit bit ≠ given.toNat.testBit bit →
    mine.toNat.testBit bit = true

theorem mem_grantedBits {bit : Nat} (hbit : bit ∈ grantedBits) : bit < 8 := by
  revert bit
  decide

theorem headAllowed_iff {mine his given : UInt8} :
    HeadAllowed mine his given ↔ (given ^^^ his) &&& ~~~ mine &&& ~~~ excusedRights = 0 := by
  rw [excused_iff]
  refine forall₂_congr fun bit hbit => ?_
  rw [← Bool.not_eq_true, diff_iff (mem_grantedBits hbit), not_and, Bool.not_eq_false]

theorem grantFrom_allowed {mine0 his0 given0 : UInt8} (hhead : HeadAllowed mine0 his0 given0) :
    grantFrom attrcnt 0 (mine0 :: mine) (his0 :: his) (given0 :: given) false =
      grantFrom attrcnt 1 mine his given (decide (his0 ≠ given0)) := by
  rw [grantFrom]
  dsimp only
  split
  case isTrue hsame =>
    rw [decide_eq_false (not_not.mpr (changed_eq_zero.mp hsame))]
  case isFalse hchanged =>
    have hne : his0 ≠ given0 := fun h => hchanged (changed_eq_zero.mpr h)
    rw [decide_eq_true hne]
    split
    case isTrue => rfl
    case isFalse => rw [if_pos rfl, if_neg (not_not.mpr (headAllowed_iff.mp hhead))]

theorem grantFrom_refused {mine0 his0 given0 : UInt8} (hhead : ¬ HeadAllowed mine0 his0 given0) :
    grantFrom attrcnt 0 (mine0 :: mine) (his0 :: his) (given0 :: given) false = none := by
  rw [headAllowed_iff] at hhead
  have hdiff : (given0 ^^^ his0) &&& ~~~ mine0 ≠ 0 := by
    intro hzero
    rw [hzero, UInt8.zero_and] at hhead
    exact hhead rfl
  have hchanged : given0 ^^^ his0 ≠ 0 := by
    intro hzero
    rw [hzero, UInt8.zero_and] at hdiff
    exact hdiff rfl
  rw [grantFrom]
  dsimp only
  rw [if_neg hchanged, if_neg hdiff, if_pos rfl, if_pos hhead]

/-- A grant is accepted exactly when the grantor may make it. -/
theorem grantable_iff (hmine : mine.length = privilDescrSize attrcnt)
    (hhis : his.length = privilDescrSize attrcnt)
    (hgiven : given.length = privilDescrSize attrcnt) :
    grantable attrcnt mine his given = true ↔ MayGrant attrcnt mine his given := by
  have hcolumns := @columns_iff attrcnt mine his given hmine
  have hpos : 0 < privilDescrSize attrcnt := by
    unfold privilDescrSize
    omega
  obtain ⟨mine0, mine, rfl⟩ := List.exists_cons_of_length_pos (hmine.symm ▸ hpos)
  obtain ⟨his0, his, rfl⟩ := List.exists_cons_of_length_pos (hhis.symm ▸ hpos)
  obtain ⟨given0, given, rfl⟩ := List.exists_cons_of_length_pos (hgiven.symm ▸ hpos)
  have hhead : HeadAllowed mine0 his0 given0 ↔
      ∀ bit ∈ grantedBits, hasBit (his0 :: his) 0 bit ≠ hasBit (given0 :: given) 0 bit →
        hasBit (mine0 :: mine) 0 bit = true := by
    refine forall₂_congr fun bit hbit => ?_
    rw [hasBit_eq (mem_grantedBits hbit), hasBit_eq (mem_grantedBits hbit),
      hasBit_eq (mem_grantedBits hbit)]
    rfl
  have hgrantBit : ((mine0 :: mine).getD 0 0 &&& RIGHT_GRANT != 0) =
      hasBit (mine0 :: mine) 0 7 := rfl
  by_cases hallowed : HeadAllowed mine0 his0 given0
  · have hpassed := @grantFrom_columns attrcnt 1 mine his given (decide (his0 ≠ given0))
      (Nat.le_refl 1) (Nat.succ.inj (hhis.trans hmine.symm))
      (Nat.succ.inj (hgiven.trans hmine.symm))
    rw [grantable, grantFrom_allowed hallowed]
    cases hresult : grantFrom attrcnt 1 mine his given (decide (his0 ≠ given0)) with
    | none =>
        rw [hresult] at hpassed
        obtain ⟨k, hk, hrefused⟩ := hpassed
        refine iff_of_false Bool.false_ne_true fun hmay => hrefused ?_
        exact hcolumns.mpr hmay.columns k (Nat.succ_lt_succ hk)
    | some must =>
        rw [hresult] at hpassed
        obtain ⟨hall, hmust⟩ := hpassed
        have hdiffers : must = true ↔ his0 :: his ≠ given0 :: given := by
          rw [hmust, decide_eq_true_iff, ne_eq, ne_eq, ne_eq, List.cons.injEq, not_and_or]
        dsimp only
        rw [hgrantBit, Bool.or_eq_true, Bool.not_eq_true']
        constructor
        · intro haccepted
          refine ⟨hcolumns.mp fun k hk => hall k (Nat.lt_of_succ_lt_succ hk),
            hhead.mp hallowed, fun hne => haccepted.resolve_left ?_⟩
          rw [hdiffers.mpr hne]
          exact Bool.noConfusion
        · intro hmay
          cases hcase : must with
          | false => exact Or.inl rfl
          | true => exact Or.inr (hmay.grant (hdiffers.mp hcase))
  · rw [grantable, grantFrom_refused hallowed]
    exact iff_of_false Bool.false_ne_true fun hmay => hallowed (hhead.mpr hmay.global)

end Passing

section Granting

variable {tb rec : UInt32} {map given : List UInt8}

theorem temporaryPrivils_length (map : List UInt8) :
    (temporaryPrivils map).length = map.length := by
  cases map with
  | nil => rfl
  | cons first rest => simp only [temporaryPrivils, setAllRw, List.length_cons, List.length_map]

theorem adminPrivils_length (map : List UInt8) : (adminPrivils map).length = map.length := by
  cases map with
  | nil => rfl
  | cons first rest => simp only [adminPrivils, setAllRw, List.length_cons, List.length_map]

theorem directGlobal_length (privils : Privils) (defs : PrivilDefs)
    (hmap : map.length = defs.descrSize tb) :
    (privils.directGlobal defs tb map).length = defs.descrSize tb := by
  rw [Privils.directGlobal]
  split
  · rw [temporaryPrivils_length, hmap]
  · cases defs.globalDef tb with
    | none => exact hmap
    | some privDef => exact sumarizePrivils_length

theorem directPrivils_length (privils : Privils) (defs : PrivilDefs) (rec : UInt32)
    (hmap : map.length = defs.descrSize tb) :
    (privils.directPrivils defs tb rec map).length = defs.descrSize tb := by
  have hglobal := directGlobal_length privils defs hmap
  rw [Privils.directPrivils_eq]
  split
  · rw [adminPrivils_length, hglobal]
  · split
    · cases defs.recordDef tb rec with
      | none => exact hglobal
      | some privDef =>
          change (List.zipWith _ _ _).length = _
          rw [List.length_zipWith, hglobal, sumarizePrivils_length, Nat.min_self]
    · exact hglobal

theorem getOwnPrivils_length (defs : PrivilDefs) (subject : Subject) (tb rec : UInt32) :
    (getOwnPrivils defs subject tb rec).2.length = defs.descrSize tb := by
  have hclear : (clearMap (defs.descrSize tb)).length = defs.descrSize tb := List.length_replicate
  rw [getOwnPrivils]
  split
  · rw [dbAdminMap, List.length_cons, List.length_replicate, PrivilDefs.descrSize, privilDescrSize]
    omega
  · split
    · exact hclear
    · split
      · exact hclear
      · exact hclear
      · next privDef _ _ =>
          dsimp only
          rw [mapInList]
          split
          · exact hclear
          · next pos hfound =>
              have hbound : pos + (UUID_SIZE + defs.descrSize tb) ≤ privDef.length := by
                rw [findUuidPos] at hfound
                split at hfound
                · cases hfound
                · exact Slots.scan_bound hfound
              rw [List.length_take, List.length_drop]
              omega

/-- The decision for every grantee, table, record and given map. -/
def DecidesRight (grantor : PrivilState) : Prop :=
  ∀ (subject : Subject) (tb rec : UInt32) (map given : List UInt8),
    map.length = grantor.defs.descrSize tb → given.length = grantor.defs.descrSize tb →
      ∃ answer, canGrantPrivils grantor false subject tb rec map given = some answer ∧
        (answer = true ↔ MayGrant (grantor.defs.attrcnt tb)
          (grantor.privils.directPrivils grantor.defs tb rec map)
          (getOwnPrivils grantor.defs subject tb rec).2 given)

theorem canGrantPrivils_right (pCache : Memory) (inGroupdef : List UInt8 → Bool)
    (isDataAdmin : Bool) (defs : PrivilDefs) (ops : List PrivilOp) :
    Always privilStep DecidesRight (PrivilState.start pCache inGroupdef isDataAdmin defs) ops := by
  refine always_of_step (Consistent pCache) ?_ (fun _ op hstate => hstate.privilStep op)
    (Consistent.start pCache inGroupdef isDataAdmin defs)
  intro grantor hstate subject tb rec map given hmap hgiven
  obtain ⟨outcome, hcall, hright, -⟩ := hstate.getEffectivePrivils tb rec map
  refine ⟨_, ?_, grantable_iff (directPrivils_length _ _ rec hmap)
    (getOwnPrivils_length grantor.defs subject tb rec) hgiven⟩
  rw [canGrantPrivils, if_neg Bool.false_ne_true, hcall, Option.map_some, hright.answer]

end Granting

end Sql602.Rights
