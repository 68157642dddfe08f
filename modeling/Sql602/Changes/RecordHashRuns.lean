import Sql602.Changes.RecordHash

namespace Sql602.Changes

open Probing
open Sql602.Convert (sig32)

/-! The hashed set holds the records that it should, and always has an empty cell. -/

namespace RecordHash

/-- The table is the minimal one or has grown by tripling. -/
structure Sound (hash : RecordHash) (recs : Finset Nat) : Prop where
  size : ∃ k ≤ 17, hash.htable.length = 4 * 3 ^ k
  limit : hash.limitsize < hash.htable.length
  used_limit : (used hash.htable : Int) ≤ hash.limitsize
  used_contains : (used hash.htable : Int) ≤ hash.contains
  placed : recordScheme.Placed hash.htable
  members : ∀ x, isHashed x = true → (x ∈ hash.htable ↔ x ∈ recs)
  hashed : ∀ x ∈ recs, isHashed x = true

section Steps

variable {hash : RecordHash} {recs : Finset Nat} {rec : Nat}

theorem Sound.empty (hsound : hash.Sound recs) : NORECNUM ∈ hash.htable := by
  refine exists_empty ?_
  have hused := hsound.used_limit
  have hlimit := hsound.limit
  omega

theorem Sound.records_eq (hsound : hash.Sound recs) (x : Nat) : x ∈ hash.records ↔ x ∈ recs := by
  rw [records, List.mem_filter]
  constructor
  · rintro ⟨hmem, hx⟩
    exact (hsound.members x hx).mp hmem
  · intro hmem
    have hx := hsound.hashed x hmem
    exact ⟨(hsound.members x hx).mpr hmem, hx⟩

theorem reinit_sound {contains : Int} (hcontains : 0 ≤ contains) (hhash : hash.contains = contains) :
    hash.reinit.Sound ∅ where
  size := ⟨0, by decide, rfl⟩
  limit := (by decide : (MINIMAL_HTABLE_SIZE : Int) - 1 <
    (List.replicate MINIMAL_HTABLE_SIZE NORECNUM).length)
  used_limit := (by decide : (used (List.replicate MINIMAL_HTABLE_SIZE NORECNUM) : Int) ≤
    MINIMAL_HTABLE_SIZE - 1)
  used_contains := by
    rw [← hhash] at hcontains
    exact hcontains
  placed := Scheme.Placed.of_no_entries fun cell hcell => by
    rw [List.eq_of_mem_replicate hcell]
    rfl
  members := fun x hx => by
    refine iff_of_false (fun hmem => ?_) (Finset.notMem_empty x)
    exact (isHashed_iff.mp hx).1 (List.eq_of_mem_replicate hmem)
  hashed := fun x hx => absurd hx (Finset.notMem_empty x)

theorem sig32_eq {n : Int} (hlow : 0 ≤ n) (hhigh : n < 2 ^ 31) : sig32 n = n := by
  rw [sig32]
  exact Int.bmod_eq_of_le (by omega) (by omega)

/-- A block of memory is smaller than 2^32 bytes, so that no size of a table overflows. -/
theorem growth_sizes {available : Nat → Bool} (hlimit : ∀ n, available n = true → n < 2 ^ 32)
    {size k : Nat} (hk : k ≤ 17) (hsize : size = 4 * 3 ^ k) :
    sig32 (3 * size) = 3 * size ∧
    (available (((3 * (size : Int)) * 4) % 2 ^ 64).toNat = true →
      k + 1 ≤ 17 ∧ sig32 (3 * size * 4) = 3 * size * 4) := by
  have hpow : 3 ^ k ≤ 129140163 := Nat.pow_le_pow_right (by decide) hk
  refine ⟨sig32_eq (by omega) (by omega), fun havailable => ?_⟩
  have hbytes := hlimit _ havailable
  have hblock : (3 * (size : Int)) * 4 = ((12 * size : Nat) : Int) := by omega
  have hsmall : ((12 * size : Nat) : Int) < 2 ^ 64 := by omega
  rw [hblock, Int.emod_eq_of_lt (Int.natCast_nonneg _) hsmall, Int.toNat_natCast] at hbytes
  have hlt : k < 17 := by
    refine Nat.lt_of_le_of_ne hk ?_
    rintro rfl
    omega
  have hpow : 3 ^ k ≤ 43046721 := Nat.pow_le_pow_right (by decide) (Nat.le_of_lt_succ hlt)
  exact ⟨hlt, sig32_eq (by omega) (by omega)⟩

/-- The table that a growth leaves is less than half full. -/
theorem growTable_spec {available : Nat → Bool} (hlimit : ∀ n, available n = true → n < 2 ^ 32)
    (hsound : hash.Sound recs) :
    growTable available hash = .error .noMemory ∨
    ∃ grown, growTable available hash = .ok grown ∧ grown.Sound recs ∧
      grown.contains < grown.limitsize := by
  obtain ⟨k, hk, hsize⟩ := hsound.size
  obtain ⟨htriple, hsizes⟩ := growth_sizes hlimit hk hsize
  rw [growTable, htriple]
  by_cases havailable : available ((3 * (hash.htable.length : Int) * 4) % 2 ^ 64).toNat = true
  · obtain ⟨hnext, hquadruple⟩ := hsizes havailable
    rw [if_pos havailable, hquadruple]
    have hlength : (3 * (hash.htable.length : Int)).toNat = 3 * hash.htable.length := by omega
    have hfresh : used (List.replicate (3 * hash.htable.length) NORECNUM) = 0 := by
      rw [used, List.countP_eq_zero]
      intro cell hcell
      rw [List.eq_of_mem_replicate hcell]
      decide
    have hcount : hash.htable.countP isHashed ≤ used hash.htable := by
      refine List.countP_mono_left fun cell _ hcell => ?_
      exact bne_iff_ne.mpr (isHashed_iff.mp hcell).1
    have hused := hsound.used_limit
    have hless := hsound.limit
    have hspace : used (List.replicate (3 * hash.htable.length) NORECNUM) +
        hash.htable.countP isHashed < (List.replicate (3 * hash.htable.length) NORECNUM).length := by
      rw [hfresh, List.length_replicate]
      omega
    have hplaced : recordScheme.Placed (List.replicate (3 * hash.htable.length) NORECNUM) :=
      Scheme.Placed.of_no_entries fun cell hcell => by
        rw [List.eq_of_mem_replicate hcell]
        rfl
    obtain ⟨moved, hmoved, hmovedLength, hmovedPlaced, hmovedUsed, hmem⟩ :=
      moveRecords_spec hash.htable 0 hplaced hspace
    rw [hfresh, Nat.zero_add] at hmovedUsed
    rw [List.length_replicate] at hmovedLength
    rw [hlength, hmoved, Int.zero_add]
    refine .inr ⟨_, rfl, ⟨⟨k + 1, hnext, ?_⟩, ?_, ?_, ?_, hmovedPlaced, fun x hx => ?_,
      hsound.hashed⟩, ?_⟩
    · rw [hmovedLength, hsize, Nat.pow_succ]
      omega
    · dsimp only
      rw [hmovedLength, Int.tdiv_eq_ediv_of_nonneg (by omega)]
      omega
    · dsimp only
      rw [hmovedUsed, Int.tdiv_eq_ediv_of_nonneg (by omega)]
      omega
    · exact Int.le_of_eq (congrArg _ hmovedUsed)
    · have hnone : x ∉ List.replicate (3 * hash.htable.length) NORECNUM := fun h =>
        (isHashed_iff.mp hx).1 (List.eq_of_mem_replicate h)
      rw [hmem x hx, or_iff_right hnone]
      exact hsound.members x hx
    · dsimp only
      rw [Int.tdiv_eq_ediv_of_nonneg (by omega)]
      omega
  · rw [if_neg havailable]
    exact .inl rfl

/-- An insertion that needs no growth. -/
theorem insertTurns_spec (available : Nat → Bool) (turns : Nat) (hsound : hash.Sound recs)
    (hrec : isHashed rec = true) :
    (∃ next, insertTurns available (turns + 1) hash rec = .ok next ∧
      next.Sound (insert rec recs)) ∨
    (hash.limitsize ≤ hash.contains ∧
      insertTurns available (turns + 1) hash rec =
        (growTable available hash).bind fun hash => insertTurns available turns hash rec) := by
  have hhashed : ∀ x ∈ insert rec recs, isHashed x = true := by
    intro x hx
    obtain rfl | hx := Finset.mem_insert.mp hx
    · exact hrec
    · exact hsound.hashed x hx
  obtain ⟨hplace, hmem⟩ | ⟨ind, hplace, hcell, hslot⟩ | ⟨ind, hplace, hcell, hslot⟩ :=
    insertPlace_spec rec hsound.empty
  · refine .inl ⟨hash, by rw [insertTurns, hplace], ?_⟩
    rw [Finset.insert_eq_of_mem ((hsound.members rec hrec).mp hmem)]
    exact hsound
  · refine .inl ⟨{ hash with htable := hash.htable.set ind rec }, by rw [insertTurns, hplace], ?_⟩
    have hused : used (hash.htable.set ind rec) = used hash.htable :=
      Cells.countP_set_update hcell rfl (bne_iff_ne.mpr (isHashed_iff.mp hrec).1)
    exact {
      size := by
        obtain ⟨k, hk, hsize⟩ := hsound.size
        exact ⟨k, hk, List.length_set.trans hsize⟩
      limit := by
        rw [List.length_set]
        exact hsound.limit
      used_limit := by
        rw [hused]
        exact hsound.used_limit
      used_contains := by
        rw [hused]
        exact hsound.used_contains
      placed := hsound.placed.insert hrec hslot
      members := fun x hx => by
        rw [mem_set_free hcell rfl hx, Finset.mem_insert, hsound.members x hx]
      hashed := hhashed }
  · by_cases hfull : hash.limitsize ≤ hash.contains
    · exact .inr ⟨hfull, by rw [insertTurns, hplace]; exact if_pos hfull⟩
    · refine .inl ⟨{ hash with
        htable := hash.htable.set ind rec, contains := hash.contains + 1 }, ?_, ?_⟩
      · rw [insertTurns, hplace]
        exact if_neg hfull
      · have hused := used_set_empty hcell hrec
        exact {
          size := by
            obtain ⟨k, hk, hsize⟩ := hsound.size
            exact ⟨k, hk, List.length_set.trans hsize⟩
          limit := by
            rw [List.length_set]
            exact hsound.limit
          used_limit := by
            have hcontains := hsound.used_contains
            dsimp only
            omega
          used_contains := by
            have hcontains := hsound.used_contains
            dsimp only
            omega
          placed := hsound.placed.insert hrec hslot
          members := fun x hx => by
            rw [mem_set_free hcell rfl hx, Finset.mem_insert, hsound.members x hx]
          hashed := hhashed }

theorem insertRecord_spec {available : Nat → Bool}
    (hlimit : ∀ n, available n = true → n < 2 ^ 32) (hsound : hash.Sound recs)
    (hrec : isHashed rec = true) :
    insertRecord available hash rec = .error .noMemory ∨
    ∃ next, insertRecord available hash rec = .ok next ∧ next.Sound (insert rec recs) := by
  obtain hdone | ⟨-, hgrows⟩ := insertTurns_spec available 1 hsound hrec
  · exact .inr hdone
  · rw [insertRecord, hgrows]
    obtain hfails | ⟨grown, hgrown, hgrownSound, hroom⟩ := growTable_spec hlimit hsound
    · rw [hfails]
      exact .inl rfl
    · rw [hgrown]
      obtain hdone | ⟨hfull, -⟩ :=
        insertTurns_spec available 0 hgrownSound hrec
      · exact .inr hdone
      · exact absurd hroom (Int.not_lt.mpr hfull)

theorem removeRecord_sound (hsound : hash.Sound recs) (hrec : isHashed rec = true) :
    ∃ next, removeRecord hash rec = .ok next ∧ next.Sound (recs.erase rec) := by
  obtain ⟨htable, hremove, hlength, hplaced, hused, hmem⟩ :=
    removeRecord_spec hsound.placed hsound.empty hrec
  refine ⟨_, hremove, ?_⟩
  exact {
    size := by
      obtain ⟨k, hk, hsize⟩ := hsound.size
      exact ⟨k, hk, hlength.trans hsize⟩
    limit := by
      rw [hlength]
      exact hsound.limit
    used_limit := by
      rw [hused]
      exact hsound.used_limit
    used_contains := by
      rw [hused]
      exact hsound.used_contains
    placed := hplaced
    members := fun x hx => by
      rw [hmem x hx, Finset.mem_erase, hsound.members x hx]
    hashed := fun x hx => hsound.hashed x (Finset.mem_of_mem_erase hx) }

theorem step_sound {available : Nat → Bool} (hlimit : ∀ n, available n = true → n < 2 ^ 32)
    (hsound : hash.Sound recs) {op : Op} (hop : op.Valid) :
    step available hash op = .error .noMemory ∨
    ∃ next, step available hash op = .ok next ∧ next.Sound (changedBy recs op) := by
  have hvalid : ∀ rec, rec < 2 ^ 32 - 2 → isHashed rec = true := by
    intro rec hlt
    rw [isHashed_iff, NORECNUM, INVALID_HASHED_RECNUM]
    omega
  cases op with
  | insert rec => exact insertRecord_spec hlimit hsound (hvalid rec hop)
  | remove rec => exact .inr (removeRecord_sound hsound (hvalid rec hop))
  | reinit =>
      have hcontains := Int.le_trans (Int.natCast_nonneg _) hsound.used_contains
      exact .inr ⟨_, rfl, reinit_sound hcontains rfl⟩

end Steps

/-- Whole sequences of operations. -/
theorem run_sound {available : Nat → Bool} (hlimit : ∀ n, available n = true → n < 2 ^ 32)
    {hash : RecordHash} {recs : Finset Nat} (hsound : hash.Sound recs) {ops : List Op}
    (hops : ∀ op ∈ ops, op.Valid) :
    run available hash ops = .error .noMemory ∨
    ∃ last, run available hash ops = .ok last ∧ last.Sound (ops.foldl changedBy recs) := by
  induction ops generalizing hash recs with
  | nil => exact .inr ⟨hash, rfl, hsound⟩
  | cons op ops ih =>
      rw [run, List.foldlM_cons]
      obtain hfails | ⟨next, hnext, hnextSound⟩ :=
        step_sound hlimit hsound (hops op List.mem_cons_self)
      · rw [hfails]
        exact .inl rfl
      · rw [hnext]
        exact ih hnextSound fun op hop => hops op (List.mem_cons_of_mem _ hop)

def fourGigabytes (n : Nat) : Bool := decide (n < 2 ^ 32)

/-- The invalid cell of 5 is used again, the last insertion makes the table grow. -/
def grownOps : List Op :=
  [.insert 5, .insert 9, .remove 5, .insert 1, .insert 13, .insert 17]

end RecordHash

end Sql602.Changes
