import Mathlib.Data.List.Pairwise
import Mathlib.Data.Set.Finite.Lemmas
import Mathlib.Tactic.Ring
import Mathlib.Tactic.Linarith

namespace Buddy

/-! Aligned chunks of equal blocks. A block has `2 ^ n` units; the chunks of a
tiling are disjoint and cover every unit of the blocks in use. -/

structure Chunk (ι : Type*) where
  block : ι
  start : Nat
  size : Nat
  deriving DecidableEq

variable {ι : Type*} {n : Nat}

namespace Chunk

def stop (chunk : Chunk ι) : Nat := chunk.start + chunk.size

def Aligned (n : Nat) (chunk : Chunk ι) : Prop :=
  (∃ k, k ≤ n ∧ chunk.size = 2 ^ k) ∧ chunk.size ∣ chunk.start ∧ chunk.stop ≤ 2 ^ n

def Apart (left right : Chunk ι) : Prop :=
  left.block = right.block → left.stop ≤ right.start ∨ right.stop ≤ left.start

def Covers (chunk : Chunk ι) (block : ι) (unit : Nat) : Prop :=
  chunk.block = block ∧ chunk.start ≤ unit ∧ unit < chunk.stop

def twin (chunk : Chunk ι) : Nat :=
  if chunk.start / chunk.size % 2 = 1 then chunk.start - chunk.size
  else chunk.start + chunk.size

def IsTwin (chunk other : Chunk ι) : Prop :=
  other = { chunk with start := chunk.twin }

def joined (chunk : Chunk ι) : Chunk ι :=
  ⟨chunk.block, if chunk.start > chunk.twin then chunk.twin else chunk.start,
    2 * chunk.size⟩

def lower (chunk : Chunk ι) : Chunk ι := ⟨chunk.block, chunk.start, chunk.size / 2⟩

def upper (chunk : Chunk ι) : Chunk ι :=
  ⟨chunk.block, chunk.start + chunk.size / 2, chunk.size / 2⟩

theorem Apart.symm {left right : Chunk ι} (hapart : left.Apart right) :
    right.Apart left := fun hblock => (hapart hblock.symm).symm

instance : Std.Symm (@Apart ι) := ⟨fun _ _ hapart => hapart.symm⟩

theorem Aligned.size_pos {chunk : Chunk ι} (haligned : chunk.Aligned n) :
    0 < chunk.size := by
  obtain ⟨⟨k, _, hsize⟩, _⟩ := haligned
  rw [hsize]
  exact Nat.two_pow_pos k

theorem not_apart_self {chunk : Chunk ι} (hpos : 0 < chunk.size) :
    ¬ chunk.Apart chunk := by
  intro hapart
  have hcases := hapart rfl
  simp only [stop] at hcases
  omega

/-- A chunk is apart from another one when no unit of the first is a unit of
the second. -/
theorem apart_of_covers {left right : Chunk ι} (hleft : 0 < left.size)
    (hright : 0 < right.size)
    (hnone : ∀ unit, left.Covers right.block unit → ¬ right.Covers right.block unit) :
    left.Apart right := by
  intro hblock
  by_contra hoverlap
  simp only [stop, not_or, not_le] at hoverlap
  apply hnone (max left.start right.start)
  · exact ⟨hblock, le_max_left _ _, by simp only [stop]; omega⟩
  · exact ⟨rfl, le_max_right _ _, by simp only [stop]; omega⟩

theorem Apart.not_covers {left right : Chunk ι} {block : ι} {unit : Nat}
    (hapart : left.Apart right) (hleft : left.Covers block unit) :
    ¬ right.Covers block unit := by
  rintro ⟨hblock, hfrom, hto⟩
  have hcases := hapart (hleft.1.trans hblock.symm)
  have hleftFrom := hleft.2.1
  have hleftTo := hleft.2.2
  omega

/-- An aligned chunk and its twin are the two halves of an aligned chunk of
twice the size, unless the chunk is a whole block. -/
theorem Aligned.twin_cases {chunk : Chunk ι} (haligned : chunk.Aligned n)
    (hsmall : chunk.size < 2 ^ n) :
    ∃ base, 2 * chunk.size ∣ base ∧ base + 2 * chunk.size ≤ 2 ^ n ∧
      (chunk.start = base ∧ chunk.twin = base + chunk.size ∨
        chunk.start = base + chunk.size ∧ chunk.twin = base) := by
  have hpos := haligned.size_pos
  obtain ⟨⟨k, _, hsize⟩, ⟨q, hstart⟩, hstop⟩ := haligned
  have hk : k + 1 ≤ n := by
    rw [hsize] at hsmall
    exact (Nat.pow_lt_pow_iff_right (by decide)).mp hsmall
  obtain ⟨t, htotal⟩ : 2 * chunk.size ∣ 2 ^ n := by
    rw [hsize, ← Nat.pow_succ']
    exact Nat.pow_dvd_pow 2 hk
  have hquot : chunk.start / chunk.size = q := by
    rw [hstart, Nat.mul_div_cancel_left q hpos]
  have hroom : q + 1 ≤ 2 * t := by
    have hmul : chunk.size * (q + 1) ≤ chunk.size * (2 * t) := by
      calc chunk.size * (q + 1) = chunk.stop := by rw [stop, hstart]; ring
        _ ≤ 2 ^ n := hstop
        _ = chunk.size * (2 * t) := by rw [htotal]; ring
    exact Nat.le_of_mul_le_mul_left hmul hpos
  rcases Nat.even_or_odd' q with ⟨half, heven | hodd⟩
  · refine ⟨2 * chunk.size * half, Dvd.intro _ rfl, ?_, Or.inl ⟨?_, ?_⟩⟩
    · have hle : 2 * chunk.size * (half + 1) ≤ 2 * chunk.size * t :=
        Nat.mul_le_mul_left _ (by omega)
      rw [htotal]
      linarith
    · rw [hstart, heven]; ring
    · rw [twin, hquot, if_neg (by omega), hstart, heven]; ring
  · refine ⟨2 * chunk.size * half, Dvd.intro _ rfl, ?_, Or.inr ⟨?_, ?_⟩⟩
    · have hle : 2 * chunk.size * (half + 1) ≤ 2 * chunk.size * t :=
        Nat.mul_le_mul_left _ (by omega)
      rw [htotal]
      linarith
    · rw [hstart, hodd]; ring
    · rw [twin, hquot, if_pos (by omega), hstart, hodd, Nat.mul_add, Nat.mul_one,
        Nat.add_sub_cancel]
      ring

theorem Aligned.twin_ne {chunk : Chunk ι} (haligned : chunk.Aligned n)
    (hsmall : chunk.size < 2 ^ n) : ¬ chunk.IsTwin chunk := by
  intro htwin
  have hpos := haligned.size_pos
  obtain ⟨base, _, _, hcases⟩ := haligned.twin_cases hsmall
  have hstart : chunk.start = chunk.twin := congrArg Chunk.start htwin
  omega

theorem IsTwin.block_eq {chunk twin : Chunk ι} (htwin : chunk.IsTwin twin) :
    twin.block = chunk.block := by rw [htwin]

theorem IsTwin.size_eq {chunk twin : Chunk ι} (htwin : chunk.IsTwin twin) :
    twin.size = chunk.size := by rw [htwin]

theorem IsTwin.start_eq {chunk twin : Chunk ι} (htwin : chunk.IsTwin twin) :
    twin.start = chunk.twin := congrArg Chunk.start htwin

theorem IsTwin.symm {chunk twin : Chunk ι} (htwin : chunk.IsTwin twin)
    (haligned : chunk.Aligned n) (htwinAligned : twin.Aligned n)
    (hsmall : chunk.size < 2 ^ n) : twin.IsTwin chunk := by
  have hsize := htwin.size_eq
  have hstart := htwin.start_eq
  have hblock := htwin.block_eq
  have hpos := haligned.size_pos
  obtain ⟨base, ⟨p, hbase⟩, _, hcases⟩ := haligned.twin_cases hsmall
  obtain ⟨base', ⟨q, hbase'⟩, _, hcases'⟩ := htwinAligned.twin_cases (hsize ▸ hsmall)
  rw [hsize] at hcases' hbase'
  have hsame : base' = base := by
    have hdvd : 2 * chunk.size ∣ base' := ⟨q, hbase'⟩
    have hdvd' : 2 * chunk.size ∣ base := ⟨p, hbase⟩
    exact le_antisymm
      (Nat.le_of_lt_add_of_dvd (by omega) hdvd hdvd')
      (Nat.le_of_lt_add_of_dvd (by omega) hdvd' hdvd)
  have hback : twin.twin = chunk.start := by omega
  rw [IsTwin, hback, hsize, hblock]

theorem Aligned.joined {chunk : Chunk ι} (haligned : chunk.Aligned n)
    (hsmall : chunk.size < 2 ^ n) : chunk.joined.Aligned n := by
  have hpos := haligned.size_pos
  obtain ⟨base, hdvd, hroom, hcases⟩ := haligned.twin_cases hsmall
  obtain ⟨⟨k, hk, hsize⟩, _⟩ := haligned
  have hstart : chunk.joined.start = base := by
    simp only [Chunk.joined]
    split <;> omega
  refine ⟨⟨k + 1, ?_, ?_⟩, ?_, ?_⟩
  · rw [hsize] at hsmall
    exact (Nat.pow_lt_pow_iff_right (by decide)).mp hsmall
  · rw [Chunk.joined, hsize, Nat.pow_succ']
  · rwa [hstart]
  · rw [stop, hstart]
    exact hroom

theorem covers_joined {chunk : Chunk ι} (haligned : chunk.Aligned n)
    (hsmall : chunk.size < 2 ^ n) {block : ι} {unit : Nat} :
    chunk.joined.Covers block unit ↔
      chunk.Covers block unit ∨
        ({ chunk with start := chunk.twin } : Chunk ι).Covers block unit := by
  obtain ⟨base, _, _, hcases⟩ := haligned.twin_cases hsmall
  simp only [Covers, stop, Chunk.joined, ← and_or_left]
  refine and_congr_right fun _ => ?_
  split <;> omega

theorem Aligned.lower {chunk : Chunk ι} (haligned : chunk.Aligned n)
    (hlarge : 1 < chunk.size) : chunk.lower.Aligned n ∧ chunk.upper.Aligned n := by
  obtain ⟨⟨k, hk, hsize⟩, hdvd, hstop⟩ := haligned
  obtain ⟨j, rfl⟩ : ∃ j, k = j + 1 := by
    cases k with
    | zero => simp [hsize] at hlarge
    | succ j => exact ⟨j, rfl⟩
  have hhalf : chunk.size = 2 * 2 ^ j := by rw [hsize, Nat.pow_succ']
  have hdiv : chunk.size / 2 = 2 ^ j := by omega
  have hdvdHalf : 2 ^ j ∣ chunk.start := (Dvd.intro_left 2 hhalf.symm).trans hdvd
  simp only [stop] at hstop
  constructor
  · refine ⟨⟨j, by omega, hdiv⟩, ?_, ?_⟩
    · simpa only [Chunk.lower, hdiv] using hdvdHalf
    · simp only [stop, Chunk.lower]
      omega
  · refine ⟨⟨j, by omega, hdiv⟩, ?_, ?_⟩
    · simp only [Chunk.upper, hdiv]
      exact Nat.dvd_add hdvdHalf (dvd_refl _)
    · simp only [stop, Chunk.upper]
      omega

end Chunk

open Chunk

structure Tiled (n : Nat) (blocks : List ι) (chunks : List (Chunk ι)) : Prop where
  aligned : ∀ chunk ∈ chunks, chunk.Aligned n
  owned : ∀ chunk ∈ chunks, chunk.block ∈ blocks
  apart : chunks.Pairwise Apart
  full : ∀ block ∈ blocks, ∀ unit < 2 ^ n, ∃ chunk ∈ chunks, chunk.Covers block unit

variable {blocks : List ι} {chunks rest : List (Chunk ι)} {chunk : Chunk ι}

theorem Tiled.nil : Tiled n ([] : List ι) [] :=
  ⟨by simp, by simp, List.Pairwise.nil, by simp⟩

theorem Tiled.perm {other : List (Chunk ι)} (htiled : Tiled n blocks chunks)
    (hperm : chunks.Perm other) : Tiled n blocks other where
  aligned := fun chunk hmem => htiled.aligned chunk (hperm.mem_iff.mpr hmem)
  owned := fun chunk hmem => htiled.owned chunk (hperm.mem_iff.mpr hmem)
  apart := hperm.pairwise htiled.apart Apart.symm
  full := by
    intro block hblock unit hunit
    obtain ⟨chunk, hmem, hcovers⟩ := htiled.full block hblock unit hunit
    exact ⟨chunk, hperm.mem_iff.mp hmem, hcovers⟩

theorem Tiled.apart_of_ne (htiled : Tiled n blocks chunks) {left right : Chunk ι}
    (hleft : left ∈ chunks) (hright : right ∈ chunks) (hne : left ≠ right) :
    left.Apart right :=
  htiled.apart.forall hleft hright hne

/-- A tiling only depends on the units that its chunks cover: chunks may be
replaced by others that cover the same units exactly once. -/
theorem Tiled.replace (old new : List (Chunk ι))
    (htiled : Tiled n blocks (old ++ rest))
    (haligned : ∀ chunk ∈ new, chunk.Aligned n)
    (howned : ∀ chunk ∈ new, chunk.block ∈ blocks)
    (hapart : new.Pairwise Apart)
    (hsame : ∀ block unit, (∃ chunk ∈ new, chunk.Covers block unit) ↔
      ∃ chunk ∈ old, chunk.Covers block unit) :
    Tiled n blocks (new ++ rest) where
  aligned := by
    intro chunk hmem
    rcases List.mem_append.mp hmem with hnew | hrest
    · exact haligned chunk hnew
    · exact htiled.aligned chunk (List.mem_append_right _ hrest)
  owned := by
    intro chunk hmem
    rcases List.mem_append.mp hmem with hnew | hrest
    · exact howned chunk hnew
    · exact htiled.owned chunk (List.mem_append_right _ hrest)
  apart := by
    obtain ⟨_, hrestApart, hcross⟩ := List.pairwise_append.mp htiled.apart
    refine List.pairwise_append.mpr ⟨hapart, hrestApart, fun left hleft right hright => ?_⟩
    have hrightAligned := htiled.aligned right (List.mem_append_right _ hright)
    refine apart_of_covers (haligned left hleft).size_pos hrightAligned.size_pos ?_
    intro unit hcovers
    obtain ⟨chunk, hchunk, holdCovers⟩ := (hsame _ _).mp ⟨left, hleft, hcovers⟩
    exact (hcross chunk hchunk right hright).not_covers holdCovers
  full := by
    intro block hblock unit hunit
    obtain ⟨chunk, hmem, hcovers⟩ := htiled.full block hblock unit hunit
    rcases List.mem_append.mp hmem with hold | hrest
    · obtain ⟨other, hother, hotherCovers⟩ := (hsame _ _).mpr ⟨chunk, hold, hcovers⟩
      exact ⟨other, List.mem_append_left _ hother, hotherCovers⟩
    · exact ⟨chunk, List.mem_append_right _ hrest, hcovers⟩

theorem Tiled.join {twin : Chunk ι} (htiled : Tiled n blocks (chunk :: twin :: rest))
    (htwin : chunk.IsTwin twin) (hsmall : chunk.size < 2 ^ n) :
    Tiled n blocks (chunk.joined :: rest) := by
  have haligned := htiled.aligned chunk (by simp)
  refine Tiled.replace [chunk, twin] [chunk.joined] htiled ?_ ?_ ?_ ?_
  · simpa using haligned.joined hsmall
  · simpa [joined] using htiled.owned chunk (by simp)
  · simp
  · intro block unit
    rw [htwin]
    simpa using covers_joined haligned hsmall

theorem Tiled.split (htiled : Tiled n blocks (chunk :: rest)) (hlarge : 1 < chunk.size)
    (heven : 2 ∣ chunk.size) : Tiled n blocks (chunk.lower :: chunk.upper :: rest) := by
  have haligned := htiled.aligned chunk (by simp)
  have howned := htiled.owned chunk (by simp)
  obtain ⟨hlower, hupper⟩ := haligned.lower hlarge
  refine Tiled.replace [chunk] [chunk.lower, chunk.upper] htiled ?_ ?_ ?_ ?_
  · simpa using ⟨hlower, hupper⟩
  · simpa [lower, upper] using howned
  · simp [Apart, stop, lower, upper]
  · intro block unit
    simp only [List.mem_cons, List.not_mem_nil, or_false, exists_eq_or_imp, exists_eq_left,
      Covers, stop, lower, upper, ← and_or_left]
    refine and_congr_right fun _ => ?_
    omega

theorem Tiled.addBlock {block : ι} (htiled : Tiled n blocks chunks)
    (hfresh : block ∉ blocks) : Tiled n (block :: blocks) (⟨block, 0, 2 ^ n⟩ :: chunks) where
  aligned := by
    intro chunk hmem
    rcases List.mem_cons.mp hmem with rfl | hmem
    · exact ⟨⟨n, le_refl n, rfl⟩, dvd_zero _, by simp [stop]⟩
    · exact htiled.aligned chunk hmem
  owned := by
    intro chunk hmem
    rcases List.mem_cons.mp hmem with rfl | hmem
    · exact List.mem_cons_self
    · exact List.mem_cons_of_mem _ (htiled.owned chunk hmem)
  apart := by
    refine List.pairwise_cons.mpr ⟨fun other hmem hblock => ?_, htiled.apart⟩
    have howned : block ∈ blocks := by
      rw [show block = other.block from hblock]
      exact htiled.owned other hmem
    exact absurd howned hfresh
  full := by
    intro other hblock unit hunit
    rcases List.mem_cons.mp hblock with rfl | hblock
    · exact ⟨⟨other, 0, 2 ^ n⟩, List.mem_cons_self, rfl, Nat.zero_le _, by simpa [stop]⟩
    · obtain ⟨chunk, hmem, hcovers⟩ := htiled.full other hblock unit hunit
      exact ⟨chunk, List.mem_cons_of_mem _ hmem, hcovers⟩

/-- A chunk of the full size is alone in its block. -/
theorem Tiled.whole_alone (htiled : Tiled n blocks (chunk :: rest))
    (hwhole : chunk.size = 2 ^ n) : ∀ other ∈ rest, other.block ≠ chunk.block := by
  intro other hmem hblock
  have hapart := (List.pairwise_cons.mp htiled.apart).1 other hmem hblock.symm
  have hpos := (htiled.aligned other (List.mem_cons_of_mem _ hmem)).size_pos
  have hother := (htiled.aligned other (List.mem_cons_of_mem _ hmem)).2.2
  have hchunk := (htiled.aligned chunk List.mem_cons_self).2.2
  simp only [stop] at hapart hother hchunk
  omega

theorem Tiled.dropBlock [DecidableEq ι] (htiled : Tiled n blocks (chunk :: rest))
    (hwhole : chunk.size = 2 ^ n) (hnodup : blocks.Nodup) :
    Tiled n (blocks.erase chunk.block) rest where
  aligned := fun other hmem => htiled.aligned other (List.mem_cons_of_mem _ hmem)
  owned := by
    intro other hmem
    have howned := htiled.owned other (List.mem_cons_of_mem _ hmem)
    exact (List.mem_erase_of_ne (htiled.whole_alone hwhole other hmem)).mpr howned
  apart := (List.pairwise_cons.mp htiled.apart).2
  full := by
    intro block hblock unit hunit
    obtain ⟨hne, hblock⟩ := (hnodup.mem_erase_iff).mp hblock
    obtain ⟨other, hmem, hcovers⟩ := htiled.full block hblock unit hunit
    rcases List.mem_cons.mp hmem with rfl | hmem
    · exact absurd hcovers.1.symm hne
    · exact ⟨other, hmem, hcovers⟩

private theorem double_dvd_of_lt {left right : Chunk ι} (hleft : left.Aligned n)
    (hright : right.Aligned n) (hlt : left.size < right.size) :
    2 * left.size ∣ right.size := by
  obtain ⟨⟨k, _, hk⟩, _⟩ := hleft
  obtain ⟨⟨j, _, hj⟩, _⟩ := hright
  rw [hk, hj] at hlt ⊢
  rw [← Nat.pow_succ']
  exact Nat.pow_dvd_pow 2 ((Nat.pow_lt_pow_iff_right (by decide)).mp hlt)

/-- In a block that is cut up, a smallest chunk has its twin among the chunks. -/
theorem Tiled.exists_twin (htiled : Tiled n blocks chunks) {block : ι}
    (hblock : block ∈ blocks) (hcut : ∀ chunk ∈ chunks, chunk.block = block →
      chunk.size < 2 ^ n) :
    ∃ chunk ∈ chunks, ∃ twin ∈ chunks, chunk.block = block ∧ chunk.IsTwin twin := by
  obtain ⟨first, hfirst, hfirstCovers⟩ := htiled.full block hblock 0 (Nat.two_pow_pos n)
  obtain ⟨chunk, ⟨hmem, hin⟩, hleast⟩ := Set.exists_min_image
    {chunk | chunk ∈ chunks ∧ chunk.block = block} Chunk.size
    ((List.finite_toSet chunks).subset fun _ hmem => hmem.1)
    ⟨first, hfirst, hfirstCovers.1⟩
  have haligned := htiled.aligned chunk hmem
  have hpos := haligned.size_pos
  obtain ⟨base, hdvd, hroom, hcases⟩ := haligned.twin_cases (hcut chunk hmem hin)
  obtain ⟨twin, htwin, htwinBlock, hfrom, hto⟩ :=
    htiled.full block hblock chunk.twin (by omega)
  refine ⟨chunk, hmem, twin, htwin, hin, ?_⟩
  have htwinAligned := htiled.aligned twin htwin
  have hsame : twin.size = chunk.size := by
    by_contra hne
    have hdouble := double_dvd_of_lt haligned htwinAligned
      (lt_of_le_of_ne (hleast twin ⟨htwin, htwinBlock⟩) (Ne.symm hne))
    have hdvdStart := hdouble.trans htwinAligned.2.1
    have hbelow : twin.start ≤ base :=
      Nat.le_of_lt_add_of_dvd (by omega) hdvdStart hdvd
    have habove : base + 2 * chunk.size ≤ twin.start + twin.size :=
      Nat.le_of_lt_add_of_dvd (by simp only [stop] at hto; omega)
        (Nat.dvd_add hdvd (dvd_refl _)) (Nat.dvd_add hdvdStart hdouble)
    have hapart := htiled.apart_of_ne hmem htwin fun heq => hne (by rw [heq])
    have hcovers : chunk.Covers block chunk.start := ⟨hin, le_refl _, by simp only [stop]; omega⟩
    exact hapart.not_covers hcovers
      ⟨htwinBlock, by omega, by simp only [stop]; omega⟩
  have hstart : twin.start = chunk.twin := by
    have hdvdTwin : chunk.size ∣ chunk.twin := by
      have hbase : chunk.size ∣ base := (Dvd.intro_left 2 rfl).trans hdvd
      rcases hcases with ⟨_, h⟩ | ⟨_, h⟩ <;> rw [h]
      · exact Nat.dvd_add hbase (dvd_refl _)
      · exact hbase
    refine le_antisymm hfrom (Nat.le_of_lt_add_of_dvd ?_ hdvdTwin ?_)
    · rwa [stop, hsame] at hto
    · rw [← hsame]
      exact htwinAligned.2.1
  rw [IsTwin, ← hstart, ← hsame, hin, ← htwinBlock]

end Buddy
