import Sql602.Library.Cells
import Sql602.Heap.Pieces

namespace Sql602.Heap

open Buddy
open scoped List

/-! The cells of a list that are in use, and what the list operations of the
store do to them. -/

def Piece.chunk (pc : Piece) : Chunk Nat := ⟨pc.dadr, pc.offs32, pc.len32⟩

def inUse (cells : List Piece) : List Piece := cells.filter fun pc => pc.dadr ≠ 0

def PieceStore.free (store : PieceStore) : List Piece :=
  (List.range lencats.length).flatMap fun cat => inUse (store.pcstore cat)

@[simp] theorem Piece.chunk_twin (pc : Piece) : pc.chunk.twin = pc.twinOffs := rfl

@[simp] theorem Piece.chunk_withTwin (pc : Piece) : pc.withTwin.chunk = pc.chunk.joined :=
  rfl

theorem mem_inUse {cells : List Piece} {pc : Piece} :
    pc ∈ inUse cells ↔ pc ∈ cells ∧ pc.dadr ≠ 0 := by
  simp [inUse]

theorem inUse_clearCell {cells : List Piece} {j : Nat} {pc : Piece}
    (hcell : cells[j]? = some pc) (hused : pc.dadr ≠ 0) :
    (inUse cells).Perm (pc :: inUse (clearCell cells j)) := by
  have hcleared : clearCell cells j = cells.set j { pc with dadr := 0 } := by
    rw [clearCell, List.modify_eq_set_getElem?, hcell]
    rfl
  rw [hcleared]
  exact Cells.filter_set_clear hcell (by simpa using hused) (by simp)

theorem inUse_set {cells : List Piece} {j : Nat} {old pc : Piece}
    (hcell : cells[j]? = some old) (hempty : old.dadr = 0) (hused : pc.dadr ≠ 0) :
    (inUse (cells.set j pc)).Perm (pc :: inUse cells) :=
  Cells.filter_set_fill hcell (by simpa using hempty) (by simpa using hused)

theorem inUse_append {cells : List Piece} {pc : Piece} (hused : pc.dadr ≠ 0) :
    (inUse (cells ++ [pc])).Perm (pc :: inUse cells) := by
  have hsingle : inUse (cells ++ [pc]) = inUse cells ++ [pc] := by
    simp [inUse, hused]
  rw [hsingle]
  exact List.perm_append_singleton pc (inUse cells)

private theorem flatMap_update_perm {pcstore : Nat → List Piece} {cat : Nat}
    {cells : List Piece} {added removed : List Piece} :
    ∀ {cats : List Nat}, cats.Nodup → cat ∈ cats →
      (added ++ inUse cells).Perm (removed ++ inUse (pcstore cat)) →
      (added ++ cats.flatMap fun c => inUse (Function.update pcstore cat cells c)).Perm
        (removed ++ cats.flatMap fun c => inUse (pcstore c)) := by
  intro cats hnodup hmem hperm
  induction cats with
  | nil => simp at hmem
  | cons first cats ih =>
      obtain ⟨hfirst, hnodup⟩ := List.nodup_cons.mp hnodup
      simp only [List.flatMap_cons]
      rcases List.mem_cons.mp hmem with rfl | hmem
      · have hrest : (cats.flatMap fun c => inUse (Function.update pcstore cat cells c)) =
            cats.flatMap fun c => inUse (pcstore c) := by
          refine List.flatMap_congr fun c hc => ?_
          rw [Function.update_of_ne (by rintro rfl; exact hfirst hc)]
        rw [hrest, Function.update_self, ← List.append_assoc, ← List.append_assoc]
        exact hperm.append_right _
      · have hne : first ≠ cat := by rintro rfl; exact hfirst hmem
        rw [Function.update_of_ne hne]
        calc _ ~ inUse (pcstore first) ++ (added ++ _) := List.perm_append_comm_assoc _ _ _
          _ ~ inUse (pcstore first) ++ (removed ++ _) := (ih hnodup hmem).append_left _
          _ ~ _ := List.perm_append_comm_assoc _ _ _

theorem PieceStore.free_setCells {store : PieceStore} {cat : Nat} {cells : List Piece}
    (added removed : List Piece) (hcat : cat < lencats.length)
    (hperm : (added ++ inUse cells).Perm (removed ++ inUse (store.pcstore cat))) :
    (added ++ (store.setCells cat cells).free).Perm (removed ++ store.free) :=
  flatMap_update_perm List.nodup_range (List.mem_range.mpr hcat) hperm

/-! What the scan for the twin finds. -/

def Found.Right (pc : Piece) (twinOffs : Nat) (cells : List Piece) : Found → Prop
  | .twin j => ∃ pc1, cells[j]? = some pc1 ∧ pc1.dadr = pc.dadr ∧ pc1.offs32 = twinOffs
  | .duplicate => ∃ pc1 ∈ cells, pc1.dadr = pc.dadr ∧ pc1.offs32 = pc.offs32
  | .space spacepos =>
      (∀ pc1 ∈ cells, pc1.dadr = pc.dadr → pc1.offs32 ≠ twinOffs) ∧
        ∀ j ∈ spacepos, ∃ pc1, cells[j]? = some pc1 ∧ pc1.dadr = 0

private theorem lookForTwin_from {pc : Piece} {twinOffs : Nat} {cells : List Piece}
    {todo : List Piece} {spacepos : Option Nat} (passed : List Piece) (hcells : cells = passed ++ todo)
    (hpassed : ∀ pc1 ∈ passed, pc1.dadr = pc.dadr → pc1.offs32 ≠ twinOffs)
    (hspace : ∀ j ∈ spacepos, ∃ pc1, cells[j]? = some pc1 ∧ pc1.dadr = 0) :
    (lookForTwin pc twinOffs passed.length spacepos todo).Right pc twinOffs cells := by
  induction todo generalizing passed spacepos with
  | nil =>
      rw [List.append_nil] at hcells
      exact ⟨hcells ▸ hpassed, hspace⟩
  | cons pc1 todo ih =>
      have hhere : cells[passed.length]? = some pc1 := by simp [hcells]
      have hnext : cells = (passed ++ [pc1]) ++ todo := by simp [hcells]
      have hlength : (passed ++ [pc1]).length = passed.length + 1 := by simp
      have hskip (hno : pc1.dadr = pc.dadr → pc1.offs32 ≠ twinOffs) :
          ∀ pc2 ∈ passed ++ [pc1], pc2.dadr = pc.dadr → pc2.offs32 ≠ twinOffs := by
        intro pc2 hmem
        rcases List.mem_append.mp hmem with hmem | hmem
        · exact hpassed pc2 hmem
        · rwa [List.mem_singleton.mp hmem]
      simp only [lookForTwin]
      split
      case isTrue hdadr =>
        split
        case isTrue htwin => exact ⟨pc1, hhere, hdadr, htwin⟩
        case isFalse htwin =>
          split
          case isTrue hsame => exact ⟨pc1, by simp [hcells], hdadr, hsame⟩
          case isFalse hsame =>
            rw [← hlength]
            exact ih _ hnext (hskip fun _ => htwin) hspace
      case isFalse hdadr =>
        have hskipped := hskip fun h => absurd h hdadr
        split
        case isTrue hempty =>
          rw [← hlength]
          refine ih _ hnext hskipped fun j hj => ?_
          obtain rfl := Option.mem_some_iff.mp hj
          exact ⟨pc1, hhere, hempty⟩
        case isFalse =>
          rw [← hlength]
          exact ih _ hnext hskipped hspace

theorem lookForTwin_right (pc : Piece) (twinOffs : Nat) (cells : List Piece) :
    (lookForTwin pc twinOffs 0 none cells).Right pc twinOffs cells :=
  lookForTwin_from [] rfl (by simp) (by simp)

theorem lencat_pow {k : Nat} (hk : k < lencats.length) : lencat (2 ^ k) = k := by
  have hall : ∀ k < lencats.length, lencat (2 ^ k) = k := by decide
  exact hall k hk

theorem lencat_double {size : Nat} (hpos : size ≠ 0) (hsmall : size ≤ 16) :
    lencat (2 * size) = lencat size + 1 := by
  have hall : ∀ size < 17, size ≠ 0 → lencat (2 * size) = lencat size + 1 := by decide
  exact hall size (by omega) hpos

theorem lencat_lt {size : Nat} (hsmall : size ≤ 16) : lencat size < lencats.length := by
  have hall : ∀ size < 17, lencat size < lencats.length := by decide
  exact hall size (by omega)

theorem lencat_large {size : Nat} (hlarge : 16 < size) : lencat size = lencats.length := by
  refine List.findIdx_eq_length.mpr fun len hmem => ?_
  simp only [lencats, List.mem_cons, List.not_mem_nil, or_false] at hmem
  simp only [decide_eq_false_iff_not, not_le]
  omega

theorem le_pow_lencat {size : Nat} : min size 32 ≤ 2 ^ lencat size := by
  by_cases hsmall : size ≤ 16
  · have hall : ∀ size < 17, min size 32 ≤ 2 ^ lencat size := by decide
    exact hall size (by omega)
  · rw [lencat_large (by omega)]
    exact min_le_right _ _

/-! The pieces that are held outside the store and the free ones tile the blocks
in use, and no two free ones could be joined. -/

structure PieceStore.Tidy (store : PieceStore) (held : List Piece) : Prop where
  sorted : ∀ cat < lencats.length, ∀ pc ∈ inUse (store.pcstore cat), pc.len32 = 2 ^ cat
  tiled : Tiled lencats.length store.blocks ((held ++ store.free).map Piece.chunk)
  merged : ∀ pc ∈ store.free, ∀ other ∈ store.free, ¬ pc.chunk.IsTwin other.chunk
  blocks_nodup : store.blocks.Nodup
  blocks_pos : 0 ∉ store.blocks

namespace PieceStore.Tidy

variable {store : PieceStore} {held : List Piece} {pc : Piece}

theorem of_tiled {next : PieceStore} {other : List Piece} (htidy : store.Tidy held)
    (hpcstore : next.pcstore = store.pcstore) (hblocks : next.blocks = store.blocks)
    (htiled : Tiled lencats.length store.blocks ((other ++ store.free).map Piece.chunk)) :
    next.Tidy other := by
  obtain ⟨pcstore, blocks⟩ := next
  subst hpcstore hblocks
  exact ⟨htidy.sorted, htiled, htidy.merged, htidy.blocks_nodup, htidy.blocks_pos⟩

theorem perm {other : List Piece} (htidy : store.Tidy held) (hperm : held.Perm other) :
    store.Tidy other :=
  htidy.of_tiled rfl rfl (htidy.tiled.perm ((hperm.append_right _).map _))

theorem aligned (htidy : store.Tidy held) (hmem : pc ∈ held ++ store.free) :
    pc.chunk.Aligned lencats.length :=
  htidy.tiled.aligned pc.chunk (List.mem_map_of_mem hmem)

theorem dadr_ne_zero (htidy : store.Tidy held) (hmem : pc ∈ held ++ store.free) :
    pc.dadr ≠ 0 := by
  rintro hzero
  have howned := htidy.tiled.owned pc.chunk (List.mem_map_of_mem hmem)
  exact htidy.blocks_pos (hzero ▸ howned)

theorem mem_free {cat : Nat} (hcat : cat < lencats.length)
    (hmem : pc ∈ inUse (store.pcstore cat)) : pc ∈ store.free :=
  List.mem_flatMap.mpr ⟨cat, List.mem_range.mpr hcat, hmem⟩

theorem exists_cat (hmem : pc ∈ store.free) :
    ∃ cat < lencats.length, pc ∈ inUse (store.pcstore cat) := by
  obtain ⟨cat, hcat, hmem⟩ := List.mem_flatMap.mp hmem
  exact ⟨cat, List.mem_range.mp hcat, hmem⟩

/-- A list of cells may be replaced when the pieces that leave it are held
afterwards and the ones that enter it were held before. -/
theorem setCells {cat : Nat} {cells : List Piece} (added removed : List Piece)
    (htidy : store.Tidy (removed ++ held)) (hcat : cat < lencats.length)
    (hperm : (added ++ inUse cells).Perm (removed ++ inUse (store.pcstore cat)))
    (hsorted : ∀ pc ∈ removed, pc.len32 = 2 ^ cat)
    (hmerged : ∀ pc ∈ (store.setCells cat cells).free,
      ∀ other ∈ (store.setCells cat cells).free, ¬ pc.chunk.IsTwin other.chunk) :
    (store.setCells cat cells).Tidy (added ++ held) where
  sorted := by
    intro c hc pc hmem
    by_cases hsame : c = cat
    · subst hsame
      simp only [PieceStore.setCells, Function.update_self] at hmem
      have hin := hperm.mem_iff.mp (List.mem_append_right added hmem)
      rcases List.mem_append.mp hin with hremoved | hold
      · exact hsorted pc hremoved
      · exact htidy.sorted c hc pc hold
    · simp only [PieceStore.setCells, Function.update_of_ne hsame] at hmem
      exact htidy.sorted c hc pc hmem
  tiled := by
    have hfree := PieceStore.free_setCells added removed hcat hperm
    refine htidy.tiled.perm (List.Perm.map _ ?_)
    calc removed ++ held ++ store.free
        ~ held ++ (removed ++ store.free) := by
          rw [List.append_assoc]
          exact List.perm_append_comm_assoc _ _ _
      _ ~ held ++ (added ++ (store.setCells cat cells).free) := hfree.symm.append_left _
      _ ~ added ++ held ++ (store.setCells cat cells).free := by
          rw [List.append_assoc]
          exact List.perm_append_comm_assoc _ _ _
  merged := hmerged
  blocks_nodup := htidy.blocks_nodup
  blocks_pos := htidy.blocks_pos

/-- A piece of the store that is taken out of its cell is held. -/
theorem take {cat j : Nat} (htidy : store.Tidy held) (hcat : cat < lencats.length)
    (hcell : (store.pcstore cat)[j]? = some pc) (hused : pc.dadr ≠ 0) :
    (store.setCells cat (clearCell (store.pcstore cat) j)).Tidy (pc :: held) := by
  have hperm := inUse_clearCell hcell hused
  have hfree := PieceStore.free_setCells [pc] [] hcat hperm.symm
  refine setCells [pc] [] htidy hcat hperm.symm (by simp) ?_
  intro first hfirst second hsecond
  exact htidy.merged first (hfree.mem_iff.mp (List.mem_cons_of_mem _ hfirst))
    second (hfree.mem_iff.mp (List.mem_cons_of_mem _ hsecond))

/-- A piece of the right length whose twin is not free may be put in. -/
theorem put {cat : Nat} {cells : List Piece} (htidy : store.Tidy (pc :: held))
    (hcat : cat < lencats.length) (hlen : pc.len32 = 2 ^ cat)
    (hcells : (inUse cells).Perm (pc :: inUse (store.pcstore cat)))
    (hnotwin : ∀ pc1 ∈ store.pcstore cat, pc1.dadr = pc.dadr → pc1.offs32 ≠ pc.twinOffs) :
    (store.setCells cat cells).Tidy held := by
  have hfree := PieceStore.free_setCells [] [pc] hcat hcells
  have haligned := htidy.aligned (List.mem_append_left _ List.mem_cons_self)
  have hsmall : pc.chunk.size < 2 ^ lencats.length := by
    simp only [Piece.chunk, hlen]
    exact Nat.pow_lt_pow_right (by decide) hcat
  have halone : ∀ other ∈ store.free, ¬ pc.chunk.IsTwin other.chunk := by
    intro other hother htwin
    obtain ⟨c, hc, hin⟩ := exists_cat hother
    have hsize : 2 ^ c = 2 ^ cat := by
      rw [← htidy.sorted c hc other hin, ← hlen]
      exact htwin.size_eq
    obtain rfl := Nat.pow_right_injective (le_refl 2) hsize
    exact hnotwin other (mem_inUse.mp hin).1 htwin.block_eq htwin.start_eq
  refine setCells [] [pc] htidy hcat hcells (by simpa using hlen) ?_
  intro first hfirst second hsecond htwin
  have hfirst := List.mem_cons.mp (hfree.mem_iff.mp hfirst)
  have hsecond := List.mem_cons.mp (hfree.mem_iff.mp hsecond)
  rcases hfirst with rfl | hfirst
  · rcases hsecond with rfl | hsecond
    · exact haligned.twin_ne hsmall htwin
    · exact halone second hsecond htwin
  · rcases hsecond with rfl | hsecond
    · have hfirstAligned := htidy.aligned (List.mem_append_right _ hfirst)
      exact halone first hfirst
        (htwin.symm hfirstAligned haligned (htwin.size_eq ▸ hsmall))
    · exact htidy.merged first hfirst second hsecond htwin

/-- Both halves of a held piece may be held instead of it. -/
theorem halve (htidy : store.Tidy (pc :: held)) (hlarge : 1 < pc.len32)
    (heven : 2 ∣ pc.len32) :
    store.Tidy ({ pc with len32 := pc.len32 / 2 } ::
      { pc with offs32 := pc.offs32 + pc.len32 / 2, len32 := pc.len32 / 2 } :: held) :=
  htidy.of_tiled rfl rfl (Tiled.split htidy.tiled hlarge heven)

theorem addBlock {block : Nat} (htidy : store.Tidy held) (hfresh : block ∉ store.blocks)
    (hpos : block ≠ 0) :
    PieceStore.Tidy { store with blocks := block :: store.blocks }
      (⟨block, 0, 2 ^ lencats.length⟩ :: held) where
  sorted := htidy.sorted
  tiled := htidy.tiled.addBlock hfresh
  merged := htidy.merged
  blocks_nodup := List.nodup_cons.mpr ⟨hfresh, htidy.blocks_nodup⟩
  blocks_pos := by
    simp only [List.mem_cons, not_or]
    exact ⟨hpos.symm, htidy.blocks_pos⟩

theorem dropBlock (htidy : store.Tidy (pc :: held))
    (hwhole : pc.len32 = 2 ^ lencats.length) :
    PieceStore.Tidy { store with blocks := store.blocks.erase pc.dadr } held where
  sorted := htidy.sorted
  tiled := Tiled.dropBlock htidy.tiled hwhole htidy.blocks_nodup
  merged := htidy.merged
  blocks_nodup := htidy.blocks_nodup.erase _
  blocks_pos := fun hmem => htidy.blocks_pos (List.mem_of_mem_erase hmem)

/-- The length of a held piece is that of a list of cells or of a block. -/
theorem len_cases (htidy : store.Tidy (pc :: held)) :
    (∃ cat < lencats.length, pc.len32 = 2 ^ cat ∧ pc.len32 ≤ 16) ∨
      pc.len32 = 2 ^ lencats.length := by
  obtain ⟨⟨k, hk, hlen⟩, _⟩ := htidy.aligned (List.mem_append_left _ List.mem_cons_self)
  rcases Nat.lt_or_eq_of_le hk with hlt | rfl
  · refine Or.inl ⟨k, hlt, hlen, ?_⟩
    calc pc.len32 = 2 ^ k := hlen
      _ ≤ 2 ^ 4 := Nat.pow_le_pow_right (by decide) (Nat.le_of_lt_succ hlt)
  · exact Or.inr hlen

theorem used (htidy : store.Tidy (pc :: held)) : pc.dadr ≠ 0 :=
  htidy.dadr_ne_zero (List.mem_append_left _ List.mem_cons_self)

theorem cat_eq (htidy : store.Tidy (pc :: held)) (hsmall : pc.len32 ≤ 16) :
    ∃ cat < lencats.length, pc.len32 = 2 ^ cat ∧ lencat pc.len32 = cat := by
  rcases htidy.len_cases with ⟨cat, hcat, hlen, _⟩ | hwhole
  · exact ⟨cat, hcat, hlen, by rw [hlen, lencat_pow hcat]⟩
  · rw [hwhole] at hsmall
    exact absurd hsmall (by decide)

/-- A free piece whose place is the one of the twin is the twin. -/
theorem join {cat j : Nat} {pc1 : Piece} (htidy : store.Tidy (pc :: held))
    (hcat : cat < lencats.length) (hlen : pc.len32 = 2 ^ cat)
    (hcell : (store.pcstore cat)[j]? = some pc1) (hdadr : pc1.dadr = pc.dadr)
    (hoffs : pc1.offs32 = pc.twinOffs) :
    (store.setCells cat (clearCell (store.pcstore cat) j)).Tidy (pc.withTwin :: held) := by
  have hused : pc1.dadr ≠ 0 := hdadr ▸ htidy.used
  have hlen1 := htidy.sorted cat hcat pc1
    (mem_inUse.mpr ⟨List.mem_of_getElem? hcell, hused⟩)
  have htwin : pc.chunk.IsTwin pc1.chunk := by
    simp only [Chunk.IsTwin, Piece.chunk, Chunk.mk.injEq]
    exact ⟨hdadr, hoffs, hlen1.trans hlen.symm⟩
  have htaken := (htidy.take hcat hcell hused).perm (List.Perm.swap pc pc1 held)
  refine htaken.of_tiled rfl rfl (Tiled.join htaken.tiled htwin ?_)
  simp only [Piece.chunk, hlen]
  exact Nat.pow_lt_pow_right (by decide) hcat

/-- A held piece is not in the store as well. -/
theorem no_duplicate {cat : Nat} {pc1 : Piece} (htidy : store.Tidy (pc :: held))
    (hcat : cat < lencats.length) (hlen : pc.len32 = 2 ^ cat)
    (hmem : pc1 ∈ store.pcstore cat) (hdadr : pc1.dadr = pc.dadr) :
    pc1.offs32 ≠ pc.offs32 := by
  intro hoffs
  have hused : pc1.dadr ≠ 0 := hdadr ▸ htidy.used
  have hin := mem_inUse.mpr ⟨hmem, hused⟩
  have hsame : pc1.chunk = pc.chunk := by
    simp only [Piece.chunk, Chunk.mk.injEq]
    exact ⟨hdadr, hoffs, (htidy.sorted cat hcat pc1 hin).trans hlen.symm⟩
  have hapart := (List.pairwise_cons.mp htidy.tiled.apart).1 pc1.chunk
    (List.mem_map_of_mem (List.mem_append_right _ (mem_free hcat hin)))
  have haligned := htidy.aligned (List.mem_append_left _ List.mem_cons_self)
  exact Chunk.not_apart_self haligned.size_pos (hsame ▸ hapart)

theorem lockedReleasePiece (htidy : store.Tidy (pc :: held)) :
    (lockedReleasePiece store pc).Tidy held := by
  fun_induction Heap.lockedReleasePiece store pc with
  | case1 store pc hlarge =>
      rcases htidy.len_cases with ⟨_, _, _, hsmall⟩ | hwhole
      · exact absurd hsmall (by omega)
      · exact htidy.dropBlock hwhole
  | case2 store pc _ hzero =>
      have haligned := htidy.aligned (List.mem_append_left _ List.mem_cons_self)
      exact absurd hzero haligned.size_pos.ne'
  | case3 store pc hsmall _ cat cells j hfound ih =>
      obtain ⟨k, hk, hlen, hcat⟩ := htidy.cat_eq (by omega)
      have hright := lookForTwin_right pc pc.twinOffs cells
      rw [hfound] at hright
      obtain ⟨pc1, hcell, hdadr, hoffs⟩ := hright
      simp only [cells, cat, hcat] at hcell ih ⊢
      exact ih (htidy.join hk hlen hcell hdadr hoffs)
  | case4 store pc hsmall _ cat cells hfound =>
      obtain ⟨k, hk, hlen, hcat⟩ := htidy.cat_eq (by omega)
      have hright := lookForTwin_right pc pc.twinOffs cells
      rw [hfound] at hright
      obtain ⟨pc1, hmem, hdadr, hoffs⟩ := hright
      simp only [cells, cat, hcat] at hmem
      exact absurd hoffs (htidy.no_duplicate hk hlen hmem hdadr)
  | case5 store pc hsmall _ cat cells hfound =>
      obtain ⟨k, hk, hlen, hcat⟩ := htidy.cat_eq (by omega)
      have hright := lookForTwin_right pc pc.twinOffs cells
      rw [hfound] at hright
      simp only [cells, cat, hcat] at hright ⊢
      exact htidy.put hk hlen (inUse_append htidy.used) hright.1
  | case6 store pc hsmall _ cat cells spacepos hfound =>
      obtain ⟨k, hk, hlen, hcat⟩ := htidy.cat_eq (by omega)
      have hright := lookForTwin_right pc pc.twinOffs cells
      rw [hfound] at hright
      simp only [cells, cat, hcat] at hright ⊢
      obtain ⟨old, hcell, hempty⟩ := hright.2 spacepos rfl
      exact htidy.put hk hlen (inUse_set hcell hempty htidy.used) hright.1

theorem lockedGetPiece {size block : Nat} {next : PieceStore} (htidy : store.Tidy held)
    (hfresh : block ∉ store.blocks)
    (hget : Heap.lockedGetPiece store size block = some (pc, next)) :
    next.Tidy (pc :: held) ∧ pc.len32 = 2 ^ lencat size := by
  fun_induction Heap.lockedGetPiece store size block generalizing pc next with
  | case1 => simp at hget
  | case2 size hlarge hblock =>
      obtain ⟨rfl, rfl⟩ := Prod.mk.inj (Option.some.inj hget)
      exact ⟨htidy.addBlock hfresh hblock, by rw [lencat_large hlarge]⟩
  | case3 => simp at hget
  | case4 size hsmall hpos cat cells =>
      rename_i j hfound
      obtain ⟨hj, hused, _⟩ := List.findIdx?_eq_some_iff_getElem.mp hfound
      rw [List.getElem?_eq_getElem hj, Option.map_some] at hget
      obtain ⟨rfl, rfl⟩ := Prod.mk.inj (Option.some.inj hget)
      have hcat : cat < lencats.length := lencat_lt (by omega)
      have hused : cells[j].dadr ≠ 0 := by simpa using hused
      refine ⟨htidy.take hcat (List.getElem?_eq_getElem hj) hused, ?_⟩
      exact htidy.sorted cat hcat _ (mem_inUse.mpr ⟨List.getElem_mem hj, hused⟩)
  | case5 => simp at hget
  | case6 size hsmall hpos cat cells hnone whole store1 hwhole half =>
      rename_i store2 ih
      obtain ⟨rfl, rfl⟩ := Prod.mk.inj (Option.some.inj hget)
      obtain ⟨htidy1, hlen⟩ := ih hwhole
      rw [lencat_double hpos (by omega), Nat.pow_succ'] at hlen
      have hhalf : half.len32 = 2 ^ lencat size := by
        simp only [half, hlen]
        omega
      have hpow := Nat.two_pow_pos (lencat size)
      have hhalved := htidy1.halve (by omega) (by omega)
      exact ⟨hhalved.lockedReleasePiece, hhalf⟩

end PieceStore.Tidy

/-! Runs of the piece layer. -/

def Piece.Apart (pc other : Piece) : Prop :=
  pc.dadr = other.dadr →
    pc.offs32 + pc.len32 ≤ other.offs32 ∨ other.offs32 + other.len32 ≤ pc.offs32

/-- The request for a size gets a piece of at least that size, or of a whole
block when the size is larger. A block stays in use as long as one of its pieces
is allocated. -/
structure PieceState.WellSplit (state : PieceState) : Prop where
  apart : (state.allocated ++ state.store.free).Pairwise Piece.Apart
  shape : ∀ pc ∈ state.allocated ++ state.store.free,
    (∃ k, pc.len32 = 2 ^ k) ∧ pc.len32 ∣ pc.offs32 ∧ pc.offs32 + pc.len32 ≤ 32
  granted : ∀ grant ∈ state.granted, min grant.1 32 ≤ grant.2.len32
  merged : ∀ pc ∈ state.store.free, ∀ other ∈ state.store.free,
    pc.dadr = other.dadr → pc.len32 = other.len32 → other.offs32 ≠ pc.twinOffs
  covered : ∀ block ∈ state.store.blocks, ∀ unit < 32,
    ∃ pc ∈ state.allocated ++ state.store.free,
      pc.dadr = block ∧ pc.offs32 ≤ unit ∧ unit < pc.offs32 + pc.len32
  returned : ∀ block, block ∈ state.store.blocks ↔ ∃ pc ∈ state.allocated, pc.dadr = block

/-- The disk space does not answer with a block that it has handed out, and only
allocated pieces are released. -/
def PieceOk (state : PieceState) : PieceOp → Prop
  | .get size block => 1 ≤ size ∧ block ∉ state.store.blocks
  | .release pc => pc ∈ state.allocated

instance (state : PieceState) : (op : PieceOp) → Decidable (PieceOk state op)
  | .get _ _ => inferInstanceAs (Decidable (_ ∧ _))
  | .release _ => inferInstanceAs (Decidable (_ ∈ _))

structure PieceState.Sound (state : PieceState) : Prop where
  tidy : state.store.Tidy state.allocated
  granted : ∀ grant ∈ state.granted, min grant.1 32 ≤ grant.2.len32

namespace PieceState.Sound

variable {state : PieceState}

theorem step {op : PieceOp} (hsound : state.Sound) (hok : PieceOk state op) :
    (pieceStep state op).Sound := by
  cases op with
  | get size block =>
      simp only [pieceStep]
      cases hget : lockedGetPiece state.store size block with
      | none => exact hsound
      | some result =>
          obtain ⟨pc, store⟩ := result
          obtain ⟨htidy, hlen⟩ := hsound.tidy.lockedGetPiece hok.2 hget
          refine ⟨htidy, fun grant hmem => ?_⟩
          rcases List.mem_cons.mp hmem with rfl | hmem
          · exact hlen ▸ le_pow_lencat
          · exact hsound.granted grant hmem
  | release pc =>
      have hperm := List.perm_cons_erase (show pc ∈ state.allocated from hok)
      exact ⟨(hsound.tidy.perm hperm).lockedReleasePiece, hsound.granted⟩

/-- When no piece of a block is allocated, two of its free pieces are twins. -/
theorem exists_allocated {block : Nat} (hsound : state.Sound)
    (hblock : block ∈ state.store.blocks) : ∃ pc ∈ state.allocated, pc.dadr = block := by
  by_contra hnone
  push Not at hnone
  have hfree : ∀ chunk ∈ (state.allocated ++ state.store.free).map Piece.chunk,
      chunk.block = block → ∃ pc ∈ state.store.free, pc.chunk = chunk := by
    intro chunk hmem hin
    obtain ⟨pc, hpc, rfl⟩ := List.mem_map.mp hmem
    rcases List.mem_append.mp hpc with hallocated | hfree
    · exact absurd hin (hnone pc hallocated)
    · exact ⟨pc, hfree, rfl⟩
  have hcut : ∀ chunk ∈ (state.allocated ++ state.store.free).map Piece.chunk,
      chunk.block = block → chunk.size < 2 ^ lencats.length := by
    intro chunk hmem hin
    obtain ⟨pc, hpc, rfl⟩ := hfree chunk hmem hin
    obtain ⟨cat, hcat, hused⟩ := PieceStore.Tidy.exists_cat hpc
    rw [Piece.chunk, hsound.tidy.sorted cat hcat pc hused]
    exact Nat.pow_lt_pow_right (by decide) hcat
  obtain ⟨chunk, hchunk, twin, htwin, hin, hpair⟩ := hsound.tidy.tiled.exists_twin hblock hcut
  obtain ⟨pc, hpc, rfl⟩ := hfree chunk hchunk hin
  obtain ⟨pc1, hpc1, rfl⟩ := hfree twin htwin (hpair.block_eq.trans hin)
  exact hsound.tidy.merged pc hpc pc1 hpc1 hpair

theorem wellSplit (hsound : state.Sound) : state.WellSplit where
  apart := by
    have hapart := List.pairwise_map.mp hsound.tidy.tiled.apart
    exact hapart
  shape := by
    intro pc hmem
    obtain ⟨⟨k, _, hlen⟩, hdvd, hstop⟩ := hsound.tidy.aligned hmem
    exact ⟨⟨k, hlen⟩, hdvd, hstop⟩
  granted := hsound.granted
  merged := by
    intro pc hpc other hother hdadr hlen hoffs
    apply hsound.tidy.merged pc hpc other hother
    simp only [Chunk.IsTwin, Piece.chunk, Chunk.mk.injEq]
    exact ⟨hdadr.symm, hoffs, hlen.symm⟩
  covered := by
    intro block hblock unit hunit
    obtain ⟨chunk, hmem, hcovers⟩ := hsound.tidy.tiled.full block hblock unit hunit
    obtain ⟨pc, hpc, rfl⟩ := List.mem_map.mp hmem
    exact ⟨pc, hpc, hcovers⟩
  returned := by
    refine fun block => ⟨hsound.exists_allocated, ?_⟩
    rintro ⟨pc, hmem, rfl⟩
    exact hsound.tidy.tiled.owned pc.chunk
      (List.mem_map_of_mem (List.mem_append_left _ hmem))

end PieceState.Sound

def PieceState.empty : PieceState := ⟨⟨fun _ => [], []⟩, [], []⟩

theorem PieceState.sound_empty : PieceState.empty.Sound where
  tidy := by
    have hfree : PieceState.empty.store.free = [] := by decide
    refine ⟨by simp [empty, inUse], ?_, by simp [hfree], List.nodup_nil, by simp [empty]⟩
    rw [hfree]
    exact Tiled.nil
  granted := by simp [empty]

theorem pieces_wellSplit {state : PieceState} {ops : List PieceOp} (hsound : state.Sound)
    (hmeets : Run.Meets pieceStep PieceOk state ops) :
    Run.Always pieceStep PieceState.WellSplit state ops :=
  Run.always_of_invariant PieceState.Sound (fun _ hsound => hsound.wellSplit)
    (fun _ _ hsound hok => hsound.step hok) hsound hmeets

theorem pieces_wellSplit_empty :
    Run.Always pieceStep PieceState.WellSplit PieceState.empty
      [.get 3 7, .get 9 8, .get 40 8, .release ⟨7, 28, 4⟩, .release ⟨7, 0, 16⟩] :=
  pieces_wellSplit PieceState.sound_empty (by decide +kernel)

/-- A request for more than a block is answered with one block. -/
theorem lockedGetPiece_short :
    ¬ ∀ grant ∈ (Run.run pieceStep PieceState.empty [.get 33 7]).granted,
      grant.1 ≤ grant.2.len32 := by
  decide +kernel

end Sql602.Heap
