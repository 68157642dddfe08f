import Mathlib.Algebra.Group.Nat.Defs
import Sql602.Collation.Comparison

namespace Sql602.Collation

/-! Strings in the supported character sets and their conversions to wide characters. -/

variable {α β : Type}

/-- What two kinds of characters must have in common to be compared in the same way. -/
structure Corresponds (source : Reading α) (target : Reading β) (convert : α → β) : Prop where
  nul : convert source.nul = target.nul
  unic : ∀ c, target.unic (convert c) = source.unic c
  raw : ∀ c, ∀ k ∈ [0, 67, 72, 99, 104], target.raw (convert c) = k ↔ source.raw c = k

namespace Corresponds

variable {source : Reading α} {target : Reading β} {convert : α → β}
  {charset maxlen : Nat} {ignoreCase : Bool}

theorem headD (hconvert : Corresponds source target convert) (s : List α) :
    (s.map convert).headD target.nul = convert (s.headD source.nul) := by
  cases s with
  | nil => exact hconvert.nul.symm
  | cons c s => rfl

theorem head (hconvert : Corresponds source target convert) (s : List α) {k : Nat}
    (hk : k ∈ [0, 67, 72, 99, 104]) :
    target.head (s.map convert) = k ↔ source.head s = k := by
  rw [Reading.head, hconvert.headD]
  exact hconvert.raw _ k hk

theorem isCh (hconvert : Corresponds source target convert) (s : List α) :
    target.IsCh charset maxlen (s.map convert) ↔ source.IsCh charset maxlen s := by
  unfold Reading.IsCh
  rw [← List.map_tail, hconvert.head s (by decide), hconvert.head s (by decide),
    hconvert.head s.tail (by decide), hconvert.head s.tail (by decide)]

theorem firstLetter (hconvert : Corresponds source target convert) (s : List α) :
    target.firstLetter charset ignoreCase maxlen (s.map convert) =
      ⟨(source.firstLetter charset ignoreCase maxlen s).ord,
        (source.firstLetter charset ignoreCase maxlen s).maxlen,
        (source.firstLetter charset ignoreCase maxlen s).text.map convert⟩ := by
  by_cases hch : source.IsCh charset maxlen s
  · rw [Reading.firstLetter_ch hch, Reading.firstLetter_ch ((hconvert.isCh s).mpr hch),
      List.map_tail]
    simp only [hconvert.head s (show 67 ∈ [0, 67, 72, 99, 104] by decide)]
  · rw [Reading.firstLetter_plain hch,
      Reading.firstLetter_plain (fun hch' => hch ((hconvert.isCh s).mp hch')),
      hconvert.headD, hconvert.unic]

theorem letters (hconvert : Corresponds source target convert) (s : List α) :
    target.letters charset ignoreCase maxlen (s.map convert) =
      source.letters charset ignoreCase maxlen s := by
  induction maxlen using Nat.strongRecOn generalizing s with
  | ind maxlen ih =>
      cases maxlen with
      | zero => rw [Reading.letters, Reading.letters]
      | succ maxlen =>
          have hle := source.firstLetter_maxlen_le charset ignoreCase maxlen s
          rw [Reading.letters, Reading.letters, hconvert.firstLetter]
          dsimp only
          simp only [hconvert.head _ (show 0 ∈ [0, 67, 72, 99, 104] by decide)]
          rw [← List.map_tail, ih _ (Nat.lt_succ_of_le hle)]

end Corresponds

/-! The tables. -/

def unicTables : List (List Nat) := [unicLatin1, unicLatin2]

def caseTables : List (List Nat) := [csconv, conv1252, conv8859_2, conv8859_1]

theorem unicTables_zipIdx : ∀ table ∈ unicTables, table.length = 256 ∧
    ∀ entry ∈ table.zipIdx, entry.1 < 2 ^ 16 ∧
      ∀ k ∈ [0, 67, 72, 99, 104], entry.1 = k ↔ entry.2 = k := by
  decide +kernel

theorem caseTables_zipIdx : ∀ table ∈ caseTables, table.length = 256 ∧
    ∀ entry ∈ table.zipIdx, entry.1 < 256 ∧ (entry.1 = 0 ↔ entry.2 = 0) := by
  decide +kernel

theorem getD_mem_zipIdx {table : List Nat} {c : Nat} (hlength : table.length = 256)
    (hc : c < 256) : (table.getD c 0, c) ∈ table.zipIdx := by
  rw [List.mk_mem_zipIdx_iff_getElem?, List.getD_eq_getElem?_getD,
    List.getElem?_eq_getElem (hlength ▸ hc), Option.getD_some]

theorem unicTables_entries {table : List Nat} (htable : table ∈ unicTables) {c : Nat}
    (hc : c < 256) : table.getD c 0 < 2 ^ 16 ∧
      ∀ k ∈ [0, 67, 72, 99, 104], table.getD c 0 = k ↔ c = k := by
  obtain ⟨hlength, hentries⟩ := unicTables_zipIdx table htable
  exact hentries _ (getD_mem_zipIdx hlength hc)

theorem caseTables_entries {table : List Nat} (htable : table ∈ caseTables) {c : Nat}
    (hc : c < 256) : table.getD c 0 < 256 ∧ (table.getD c 0 = 0 ↔ c = 0) := by
  obtain ⟨hlength, hentries⟩ := caseTables_zipIdx table htable
  exact hentries _ (getD_mem_zipIdx hlength hc)

/-- The codes of the Windows and of the ISO character sets that have tables. -/
def supported : List Nat := [1, 2, 3, 4, 5, 129, 130, 131, 132, 133]

theorem supported_tables : ∀ charset ∈ supported,
    unicTable charset ∈ unicTables ∧ caseTable charset ∈ caseTables := by
  decide +kernel

/-! The narrow and the wide strings. -/

section Strings

variable {charset maxlen : Nat} {ignoreCase : Bool} {upcase : Nat → Nat}

def toWide (charset : Nat) (c : UInt8) : UInt16 :=
  UInt16.ofNat ((unicTable charset).getD c.toNat 0)

/-- The system converts to upper case as the table of the character set does. -/
def TablesAgree (upcase : Nat → Nat) (charset : Nat) : Prop :=
  ∀ c < 256, upcase ((unicTable charset).getD c 0) =
    (unicTable charset).getD ((caseTable charset).getD c 0) 0

theorem readingA_sound (hcharset : charset ∈ supported) (ignoreCase : Bool) :
    (readingA charset ignoreCase).Sound where
  nul_raw := rfl
  unic_zero c := by
    obtain ⟨hunic, hcase⟩ := supported_tables charset hcharset
    obtain ⟨hlt, hzero⟩ := caseTables_entries hcase c.toNat_lt
    simp only [readingA]
    split
    · rw [(unicTables_entries hunic hlt).2 0 (by decide), hzero]
    · rw [(unicTables_entries hunic c.toNat_lt).2 0 (by decide)]

theorem readingW_sound (hupcase : ∀ c, upcase c = 0 ↔ c = 0) (ignoreCase : Bool) :
    (readingW upcase ignoreCase).Sound where
  nul_raw := rfl
  unic_zero c := by
    simp only [readingW]
    split
    · exact hupcase c.toNat
    · exact Iff.rfl

theorem toNat_toWide (hcharset : charset ∈ supported) (c : UInt8) :
    (toWide charset c).toNat = (unicTable charset).getD c.toNat 0 := by
  have hlt := (unicTables_entries (supported_tables charset hcharset).1 c.toNat_lt).1
  rw [toWide, UInt16.toNat_ofNat', Nat.mod_eq_of_lt hlt]

theorem toWide_corresponds (hcharset : charset ∈ supported) (hagree : TablesAgree upcase charset)
    (ignoreCase : Bool) :
    Corresponds (readingA charset ignoreCase) (readingW upcase ignoreCase) (toWide charset) where
  nul := by
    have hzero := (unicTables_entries (supported_tables charset hcharset).1
      (show 0 < 256 by decide)).2 0 (by decide)
    apply UInt16.toNat_inj.mp
    rw [toNat_toWide hcharset]
    exact hzero.mpr rfl
  unic c := by
    simp only [readingA, readingW, toNat_toWide hcharset]
    split
    · exact hagree c.toNat c.toNat_lt
    · rfl
  raw c k hk := by
    simp only [readingA, readingW, toNat_toWide hcharset]
    exact (unicTables_entries (supported_tables charset hcharset).1 c.toNat_lt).2 k hk

end Strings

/-- The upper case of the characters of Latin 1. -/
def upcaseLatin1 (c : Nat) : Nat := if c < 256 then conv8859_1.getD c 0 else c

theorem upcaseLatin1_zero (c : Nat) : upcaseLatin1 c = 0 ↔ c = 0 := by
  unfold upcaseLatin1
  split
  case isTrue hc => exact (caseTables_entries (show conv8859_1 ∈ caseTables by decide +kernel) hc).2
  case isFalse => exact Iff.rfl

theorem upcaseLatin1_agrees : TablesAgree upcaseLatin1 132 := by
  have hidentity : ∀ entry ∈ unicLatin1.zipIdx, entry.1 = entry.2 := by decide +kernel
  have hlength : unicLatin1.length = 256 := by decide +kernel
  have hunic : ∀ c < 256, unicLatin1.getD c 0 = c :=
    fun c hc => hidentity _ (getD_mem_zipIdx hlength hc)
  intro c hc
  have hcase := (caseTables_entries (show conv8859_1 ∈ caseTables by decide +kernel) hc).1
  change upcaseLatin1 (unicLatin1.getD c 0) = unicLatin1.getD (conv8859_1.getD c 0) 0
  rw [hunic c hc, hunic _ hcase, upcaseLatin1, if_pos hc]

end Sql602.Collation
