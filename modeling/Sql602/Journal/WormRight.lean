import Sql602.Journal.WormAdding

namespace Sql602.Journal

open Links

/-! What is added to the buffer is measured and read again, and every part but the first is
released once. -/

namespace Worm

section Freeing

variable (memory : Nat → Bool) (garbage : Nat → Nat → UInt8)

/-- The parts `ids` are released in their order. -/
def released (w : Worm) (ids : List Nat) : Worm :=
  { w with parts := fun p => if p ∈ ids then none else w.parts p, frees := ids.reverse ++ w.frees }

theorem released_nil (w : Worm) : w.released [] = w := by
  rw [released]
  simp only [List.not_mem_nil, if_false, List.reverse_nil, List.nil_append]

theorem released_corefree (w : Worm) (p : Nat) (ids : List Nat) (currpos currCoreptr : Nat) :
    (Worm.corefree { w with currpos, currCoreptr } p).released ids =
      { w.released (p :: ids) with currpos, currCoreptr } := by
  have hparts : (fun q => if q ∈ ids then none else Function.update w.parts p none q) =
      fun q => if q ∈ p :: ids then none else w.parts q := by
    funext q
    by_cases hq : q = p
    · rw [hq, Function.update_self, if_pos List.mem_cons_self, ite_self]
    · rw [Function.update_of_ne hq]
      refine if_congr ?_ rfl rfl
      rw [List.mem_cons, or_iff_right hq]
  rw [released, released, List.reverse_cons, List.append_assoc, List.singleton_append]
  dsimp only [Worm.corefree]
  rw [hparts]

theorem step_along {w : Worm} {part : Wormbeg} {ids : List Nat} (hcurr : w.curr = some part)
    (hnext : part.next = ids.head?) :
    ∃ currpos currCoreptr, step memory garbage false w =
      some (false, { w with currpos, currCoreptr }) ∧ ∀ q ∈ ids.head?, currCoreptr = q := by
  cases ids with
  | nil =>
      refine ⟨part.bytesused, w.currCoreptr, ?_, nofun⟩
      rw [step, hcurr, Option.map_some, hnext]
      rfl
  | cons q ids =>
      refine ⟨0, q, ?_, fun r hr => Option.some.inj hr⟩
      rw [step, hcurr, Option.map_some, hnext]
      rfl

/-- The current part is read before it is released behind the step to the next one. -/
theorem freeLoop_spec {w : Worm} {ids : List Nat} {fuel : Nat}
    (hlinked : Linked w.nextOf ids.head? ids) (hnodup : ids.Nodup)
    (hlive : ∀ p ∈ ids, (w.parts p).isSome = true) (hcurr : ∀ p ∈ ids.head?, w.currCoreptr = p)
    (hfuel : ids.length ≤ fuel) :
    ∃ currpos currCoreptr, freeLoop memory garbage fuel w ids.head? =
      some { w.released ids with currpos, currCoreptr } := by
  induction ids generalizing w fuel with
  | nil =>
      refine ⟨w.currpos, w.currCoreptr, ?_⟩
      rw [released_nil, List.head?_nil]
      cases fuel <;> rfl
  | cons p ids ih =>
      obtain ⟨fuel, rfl⟩ := Nat.exists_eq_add_of_le' hfuel
      have hcurr : w.currCoreptr = p := hcurr p rfl
      obtain ⟨part, hpart⟩ := Option.isSome_iff_exists.mp (hlive p List.mem_cons_self)
      have hnext : part.next = ids.head? := by
        have hbehind := hlinked.2.head_eq
        rwa [nextOf, hpart] at hbehind
      have hcurrpart : w.curr = some part := by
        rw [curr, hcurr, hpart]
      obtain ⟨currpos, currCoreptr, hstep, hfollows⟩ :=
        step_along memory garbage hcurrpart hnext
      rw [List.nodup_cons] at hnodup
      have hparts : ∀ q ∈ ids, (Worm.corefree { w with currpos, currCoreptr } p).parts q =
          w.parts q := fun q hq => by
        have hne : q ≠ p := fun heq => hnodup.1 (heq ▸ hq)
        exact Function.update_of_ne hne ..
      have hrest : Linked (Worm.corefree { w with currpos, currCoreptr } p).nextOf ids.head?
          ids := by
        refine hlinked.2.head_eq ▸ hlinked.2.congr fun q hq => ?_
        rw [nextOf, nextOf, hparts q hq]
      obtain ⟨currpos', currCoreptr', hloop⟩ := ih hrest hnodup.2
        (fun q hq => hparts q hq ▸ hlive q (List.mem_cons_of_mem _ hq)) hfollows
        (Nat.le_add_left ids.length fuel)
      refine ⟨currpos', currCoreptr', ?_⟩
      rw [released_corefree] at hloop
      refine Eq.trans ?_ hloop
      rw [List.head?_cons, List.length_cons, ← Nat.add_assoc, freeLoop, hcurrpart,
        Option.bind_some, hstep, ← hnext]
      rfl

theorem released_parts {w : Worm} {ids : List Nat} {p : Nat} (hp : p ∉ ids) :
    (w.released ids).parts p = w.parts p :=
  if_neg hp

theorem released_parts_mem {w : Worm} {ids : List Nat} {p : Nat} (hp : p ∈ ids) :
    (w.released ids).parts p = none :=
  if_pos hp

/-- Only the first part is left of the chain. -/
theorem Chain.freed {w : Worm} {data items : List UInt8} {rest : Cells}
    (hchain : w.Chain ((w.firstpart, data) :: rest)) (hitems : items.length = w.partsize) :
    ((w.released (rest.map Prod.fst)).put w.firstpart ⟨w.partsize, 0, none, items⟩).Chain
      [(w.firstpart, [])] := by
  have hnodup := hchain.nodup
  have hlive := hchain.live
  have hfrees := hchain.frees
  have hfresh := hchain.fresh
  rw [List.map_cons] at hnodup hlive hfrees hfresh
  rw [List.nodup_cons] at hnodup
  obtain ⟨hfirst, hnodup⟩ := hnodup
  refine ⟨hchain.partsize, ⟨rfl, ?_⟩, ?_, List.nodup_singleton _, ?_, ?_, ?_⟩
  · exact congrArg (Option.bind · Wormbeg.next) (put_parts_self ..)
  · intro cell hcell
    obtain rfl := List.mem_singleton.mp hcell
    exact ⟨none, items, put_parts_self .., hitems, List.nil_prefix⟩
  · intro p
    rw [List.map_singleton, List.mem_singleton]
    by_cases hp : p = w.firstpart
    · rw [hp, put_parts_self]
      exact iff_of_true rfl rfl
    · rw [put_parts_of_ne _ _ hp]
      refine iff_of_false (fun hsome => ?_) hp
      by_cases hmem : p ∈ rest.map Prod.fst
      · rw [released_parts_mem hmem] at hsome
        cases hsome
      · rw [released_parts hmem, hlive, List.mem_cons] at hsome
        exact hsome.elim hp hmem
  · intro p hp
    obtain rfl := List.mem_singleton.mp hp
    exact hfresh _ List.mem_cons_self
  · intro p
    refine (List.count_append ..).trans ?_
    rw [List.count_reverse, hfrees p]
    by_cases hmem : p ∈ rest.map Prod.fst
    · have hne : p ≠ w.firstpart := fun heq => hfirst (heq ▸ hmem)
      rw [List.count_eq_one_of_mem hnodup hmem,
        if_neg fun hout => hout.2 (List.mem_cons_of_mem _ hmem)]
      exact (if_pos ⟨hfresh p (List.mem_cons_of_mem _ hmem),
        fun heq => hne (List.mem_singleton.mp heq)⟩).symm
    · rw [List.count_eq_zero_of_not_mem hmem, Nat.zero_add]
      refine if_congr (and_congr_right fun _ => not_congr ?_) rfl rfl
      rw [List.mem_cons, or_iff_left hmem]
      exact List.mem_singleton.symm

theorem wormFree_spec {w : Worm} {cells : Cells} (hchain : w.Chain cells) :
    ∃ w', wormFree memory garbage w = some w' ∧ w'.Here [] w.firstpart [] [] ∧
      w'.currpos = 0 ∧ w'.firstpart = w.firstpart ∧ w'.fresh = w.fresh ∧
      w'.failed = w.failed := by
  obtain ⟨data, rest, rfl, hstart⟩ := hchain.start
  obtain ⟨items, hcurr, hitems, -⟩ := hstart.part
  have hlinked : Linked w.nextOf (some w.firstpart) (w.firstpart :: rest.map Prod.fst) :=
    hchain.linked
  have hnodup := hchain.nodup
  rw [List.map_cons, List.nodup_cons] at hnodup
  obtain ⟨currpos, currCoreptr, hstep, hfollows⟩ := step_along memory garbage hcurr rfl
  have hlength : (rest.map Prod.fst).length ≤ w.fresh := by
    have hall := hchain.length_le
    rw [List.length_map]
    exact (Nat.le_succ _).trans hall
  have hlive : ∀ p ∈ rest.map Prod.fst, (w.parts p).isSome = true := fun p hp =>
    (hchain.live p).mpr (List.mem_cons_of_mem _ hp)
  obtain ⟨currpos', currCoreptr', hloop⟩ :=
    freeLoop_spec memory garbage (w := { w.reset with currpos, currCoreptr })
      (hlinked.2.head_eq ▸ hlinked.2) hnodup.2 hlive hfollows hlength
  have hfirst : (w.released (rest.map Prod.fst)).parts w.firstpart =
      some ⟨w.partsize, data.length, (rest.map Prod.fst).head?, items⟩ :=
    (released_parts hnodup.1).trans hcurr
  have hfreed := (hchain.freed hitems).moved w.firstpart 0 w.failed
  refine ⟨_, ?_, ⟨hfreed, rfl, Nat.le_refl _⟩, rfl, rfl, rfl, rfl⟩
  rw [wormFree]
  dsimp only
  rw [hcurr, Option.bind_some, hstep, Option.bind_some]
  dsimp only
  rw [if_neg Bool.false_ne_true]
  refine (congrArg (Option.bind · _) hloop).trans ?_
  rw [Option.bind_some]
  exact congrArg (Option.map _) hfirst

end Freeing

section Runs

variable {w : Worm} {front rest cells : Cells} {p : Nat} {data collected : List UInt8}
variable (memory : Nat → Bool) (garbage : Nat → Nat → UInt8)

theorem Here.fuel_le (hhere : w.Here front p data rest) : rest.length + 2 ≤ w.fresh + 1 := by
  have hlength := hhere.chain.length_le
  rw [List.length_append, List.length_cons] at hlength
  omega

theorem Here.copies_spec (hhere : w.Here front p data rest) (sizes : List Nat) :
    ∃ w', copies memory garbage w sizes = some (slices sizes (w.left data rest), w') := by
  induction sizes generalizing w front p data rest with
  | nil => exact ⟨w, rfl⟩
  | cons size sizes ih =>
      obtain ⟨w₁, front₁, p₁, data₁, rest₁, hcopy, hhere₁, hleft⟩ :=
        hhere.copyLoop_spec memory garbage size [] hhere.fuel_le
      obtain ⟨w₂, hcopies⟩ := ih hhere₁
      refine ⟨w₂, ?_⟩
      rw [copies, wormCopy, hcopy, Option.bind_some]
      dsimp only
      rw [hcopies, hleft]
      rfl

/-- `collected` is in the buffer as long as no allocation has failed, and the position is at
its end. -/
structure Collects (w : Worm) (collected : List UInt8) : Prop where
  last : ∃ front p data, w.Here front p data [] ∧ (w.failed = false →
    w.currpos = data.length ∧ contents (front ++ [(p, data)]) = collected)

theorem Collects.chain (hcollects : w.Collects collected) :
    ∃ cells, w.Chain cells ∧ (w.failed = false → contents cells = collected) := by
  obtain ⟨front, p, data, hhere, hright⟩ := hcollects.last
  exact ⟨_, hhere.chain, fun hfailed => (hright hfailed).2⟩

theorem Collects.init {partsize : Nat} (hsize : 0 < partsize) :
    (init garbage partsize).Collects [] := by
  have hitems : (newItems garbage 0 partsize).length = partsize := by
    rw [newItems, List.length_map, List.length_range]
  have hfirst : (Worm.init garbage partsize).parts 0 =
      some ⟨partsize, 0, none, newItems garbage 0 partsize⟩ := by
    rw [Worm.init]
    dsimp only
    rw [Function.update_self]
  refine ⟨[], 0, [], ⟨⟨hsize, ⟨rfl, ?_⟩, ?_, List.nodup_singleton _, ?_, ?_, ?_⟩, rfl,
    Nat.le_refl _⟩, fun _ => ⟨rfl, rfl⟩⟩
  · exact congrArg (Option.bind · Wormbeg.next) hfirst
  · intro cell hcell
    obtain rfl := List.mem_singleton.mp hcell
    exact ⟨none, _, hfirst, hitems, List.nil_prefix⟩
  · intro p
    refine Iff.trans ?_ List.mem_singleton.symm
    by_cases hp : p = 0
    · rw [hp, hfirst]
      exact iff_of_true rfl rfl
    · refine iff_of_false (fun hsome => ?_) hp
      rw [Worm.init] at hsome
      dsimp only at hsome
      rw [Function.update_of_ne hp] at hsome
      cases hsome
  · intro p hp
    obtain rfl := List.mem_singleton.mp hp
    exact Nat.zero_lt_one
  · intro p
    refine (if_neg fun hout => hout.2 ?_).symm
    exact List.mem_singleton.mpr (Nat.lt_one_iff.mp hout.1)

theorem Collects.wormAdd (hcollects : w.Collects collected) (object : List UInt8) :
    ∃ w', wormAdd memory garbage w object = some w' ∧ w'.Collects (collected ++ object) ∧
      ((∀ p, memory p = true) → w'.failed = w.failed) := by
  obtain ⟨front, p, data, hhere, hright⟩ := hcollects.last
  have hfuel : object.length + (if w.currpos < w.partsize then 0 else 1) ≤ object.length + 1 := by
    split
    · exact Nat.le_succ _
    · exact Nat.le_refl _
  obtain ⟨w', front', p', data', hadd, hhere', hright', hfailed⟩ :=
    hhere.addLoop_spec memory garbage hfuel
  refine ⟨w', hadd, ⟨front', p', data', hhere', fun hok => ?_⟩, hfailed⟩
  obtain ⟨hok, hadded⟩ := hright' hok
  obtain ⟨hend, hcontents⟩ := hright hok
  rw [← hcontents]
  exact hadded hend

/-- The length is right unless it does not fit. -/
theorem Collects.wormLen (hcollects : w.Collects collected) :
    ∃ len w', wormLen memory garbage w = some (len, w') ∧ w'.Collects collected ∧
      w'.failed = w.failed ∧ (w.failed = false → len = collected.length % 2 ^ 32) := by
  obtain ⟨cells, hchain, hright⟩ := hcollects.chain
  obtain ⟨data, rest, rfl, hstart⟩ := hchain.start
  obtain ⟨front', p', data', hcells, hloop⟩ :=
    hstart.lenLoop_spec memory garbage rfl (Nat.two_pow_pos 32) hstart.fuel_le
  have hend := hchain.moved p' data'.length w.failed
  rw [List.nil_append] at hcells
  rw [← hcells] at hend hright
  refine ⟨_, _, hloop, ⟨front', p', data', ⟨hend, rfl, Nat.le_refl _⟩, fun hfailed => ?_⟩, rfl,
    fun hfailed => ?_⟩
  · exact ⟨rfl, hright hfailed⟩
  · rw [Nat.zero_add, ← hright hfailed, hcells]
    rfl

theorem Collects.wormFree (hcollects : w.Collects collected) :
    ∃ w', wormFree memory garbage w = some w' ∧ w'.Collects [] ∧ w'.failed = w.failed ∧
      w'.firstpart = w.firstpart ∧ w'.fresh = w.fresh ∧ w'.Chain [(w.firstpart, [])] := by
  obtain ⟨cells, hchain, -⟩ := hcollects.chain
  obtain ⟨w', hfree, hhere, hpos, hfirst, hfresh, hfailed⟩ :=
    wormFree_spec memory garbage hchain
  exact ⟨w', hfree, ⟨[], w.firstpart, [], hhere, fun _ => ⟨hpos, rfl⟩⟩, hfailed, hfirst, hfresh,
    hhere.chain⟩

theorem Collects.apply (hcollects : w.Collects collected) (op : Op) :
    ∃ w', apply memory garbage w op = some w' ∧ w'.Collects (addedBy collected op) ∧
      ((∀ p, memory p = true) → w'.failed = w.failed) := by
  cases op with
  | add object => exact hcollects.wormAdd memory garbage object
  | len =>
      obtain ⟨len, w', hlen, hcollects', hfailed, -⟩ := hcollects.wormLen memory garbage
      refine ⟨w', ?_, hcollects', fun _ => hfailed⟩
      rw [Worm.apply, hlen]
      rfl
  | free =>
      obtain ⟨w', hfree, hcollects', hfailed, -⟩ := hcollects.wormFree memory garbage
      exact ⟨w', hfree, hcollects', fun _ => hfailed⟩

theorem Collects.run (hcollects : w.Collects collected) (ops : List Op) :
    ∃ w', ops.foldlM (Worm.apply memory garbage) w = some w' ∧
      w'.Collects (ops.foldl addedBy collected) ∧
      ((∀ p, memory p = true) → w'.failed = w.failed) := by
  induction ops generalizing w collected with
  | nil => exact ⟨w, rfl, hcollects, fun _ => rfl⟩
  | cons op ops ih =>
      obtain ⟨w₁, hop, hcollects₁, hfailed₁⟩ := hcollects.apply memory garbage op
      obtain ⟨w₂, hops, hcollects₂, hfailed₂⟩ := ih hcollects₁
      refine ⟨w₂, ?_, hcollects₂, fun hall => (hfailed₂ hall).trans (hfailed₁ hall)⟩
      rw [List.foldlM_cons, hop]
      exact hops

theorem run_collects {partsize : Nat} (hsize : 0 < partsize) (ops : List Op) :
    ∃ w, Worm.run memory garbage partsize ops = some w ∧ w.Collects (added ops) ∧
      ((∀ p, memory p = true) → w.failed = false) :=
  (Collects.init garbage hsize).run memory garbage ops

end Runs

end Worm

end Sql602.Journal
