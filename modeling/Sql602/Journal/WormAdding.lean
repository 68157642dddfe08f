import Sql602.Journal.WormRuns

namespace Sql602.Journal

open Links

/-! The buffer is measured and added to. -/

namespace Worm

section Memcpy

variable {items data object : List UInt8} {pos : Nat}

theorem length_memcpy (hpos : pos ≤ items.length) (object : List UInt8) :
    (memcpy items pos object).length = max items.length (pos + object.length) := by
  rw [memcpy, List.length_append, List.length_append, List.length_take, List.length_drop,
    Nat.min_eq_left hpos]
  omega

theorem memcpy_end (data object : List UInt8) : memcpy data data.length object = data ++ object := by
  rw [memcpy, List.take_length, List.drop_of_length_le (Nat.le_add_right _ _), List.append_nil]

theorem memcpy_starts (hstarts : data <+: items) (hpos : pos ≤ data.length)
    (hroom : pos + object.length ≤ items.length) :
    memcpy data pos object <+: memcpy items pos object := by
  obtain ⟨garbage, rfl⟩ := hstarts
  rw [memcpy, memcpy, List.take_append_of_le_length hpos]
  refine (List.prefix_append_right_inj _).mpr ((List.prefix_append_right_inj _).mpr ?_)
  rw [List.drop_append]
  exact List.prefix_append _ _

end Memcpy

section Chain

variable {w : Worm} {front rest cells : Cells} {p : Nat} {data : List UInt8}

theorem names_eq (front rest : Cells) (p : Nat) (data object : List UInt8) :
    (front ++ (p, object) :: rest).map Prod.fst = (front ++ (p, data) :: rest).map Prod.fst := by
  rw [List.map_append, List.map_append, List.map_cons, List.map_cons]

theorem contents_last (front : Cells) (p : Nat) (data : List UInt8) :
    contents (front ++ [(p, data)]) = contents front ++ data := by
  rw [contents, List.map_append, List.flatten_append, List.map_singleton, List.flatten_singleton]
  rfl

def put (w : Worm) (p : Nat) (part : Wormbeg) : Worm :=
  { w with parts := Function.update w.parts p (some part) }

theorem put_parts_self (w : Worm) (p : Nat) (part : Wormbeg) :
    (w.put p part).parts p = some part :=
  Function.update_self ..

theorem put_parts_of_ne (w : Worm) (part : Wormbeg) {q : Nat} (hq : q ≠ p) :
    (w.put p part).parts q = w.parts q :=
  Function.update_of_ne hq ..

/-- A part gets other data. -/
theorem Chain.put {object items : List UInt8} (hchain : w.Chain (front ++ (p, data) :: rest))
    (hitems : items.length = w.partsize) (hstarts : object <+: items) :
    (w.put p ⟨w.partsize, object.length, (rest.map Prod.fst).head?, items⟩).Chain
      (front ++ (p, object) :: rest) := by
  have hnames := names_eq front rest p data object
  obtain ⟨old, hpart, -, -⟩ := hchain.part
  have hp : p ∈ (front ++ (p, data) :: rest).map Prod.fst :=
    List.mem_map_of_mem (List.mem_append_right _ List.mem_cons_self)
  refine ⟨hchain.partsize, ?_, ?_, hnames ▸ hchain.nodup, ?_, hnames ▸ hchain.fresh,
    hnames ▸ hchain.frees⟩
  · rw [hnames]
    refine hchain.linked.congr fun q _ => ?_
    by_cases hq : q = p
    · rw [hq, nextOf, nextOf, hpart, put_parts_self]
      rfl
    · rw [nextOf, nextOf, put_parts_of_ne _ _ hq]
  · intro cell hcell
    have hnodup := hchain.nodup
    rw [List.map_append, List.map_cons, List.nodup_append, List.nodup_cons] at hnodup
    obtain ⟨-, ⟨hrest, -⟩, hfront⟩ := hnodup
    rw [List.mem_append, List.mem_cons] at hcell
    have hother : ∀ cell ∈ front ++ (p, data) :: rest, cell.1 ≠ p →
        (w.put p ⟨w.partsize, object.length, (rest.map Prod.fst).head?, items⟩).Holds cell := by
      intro cell hcell hne
      obtain ⟨next, items', hold, hright⟩ := hchain.holds cell hcell
      refine ⟨next, items', ?_, hright⟩
      rw [put_parts_of_ne _ _ hne]
      exact hold
    obtain hcell | rfl | hcell := hcell
    · exact hother cell (List.mem_append_left _ hcell)
        (hfront _ (List.mem_map_of_mem hcell) p List.mem_cons_self)
    · exact ⟨_, items, put_parts_self .., hitems, hstarts⟩
    · have hname : cell.1 ∈ rest.map Prod.fst := List.mem_map_of_mem hcell
      refine hother cell (List.mem_append_right _ (List.mem_cons_of_mem _ hcell)) fun heq => ?_
      exact hrest (heq ▸ hname)
  · intro q
    rw [hnames, ← hchain.live q]
    by_cases hq : q = p
    · rw [hq, put_parts_self, hpart]
      rfl
    · rw [put_parts_of_ne _ _ hq]

end Chain

section Length

variable {w : Worm} {front rest cells : Cells} {p : Nat} {data : List UInt8}
variable (memory : Nat → Bool) (garbage : Nat → Nat → UInt8)

theorem Here.wormEnd (hhere : w.Here front p data rest) :
    w.wormEnd = some (decide (data.length ≤ w.currpos ∧ rest = [])) := by
  obtain ⟨items, hcurr, -, -⟩ := hhere.part
  rw [Worm.wormEnd, hcurr, Option.map_some]
  dsimp only
  cases rest with
  | nil =>
      rw [List.map_nil, List.head?_nil, Option.isNone_none, Bool.and_true]
      simp only [and_true]
  | cons cell rest =>
      rw [List.map_cons, List.head?_cons, Option.isNone_some, Bool.and_false]
      simp only [reduceCtorEq, and_false, decide_false]

theorem Here.lenLoop_turn (hhere : w.Here front p data rest) (fuel len : Nat)
    (hend : ¬ (data.length ≤ w.currpos ∧ rest = [])) :
    lenLoop memory garbage (fuel + 1) w len =
      (step memory garbage false w).bind fun (error, w') =>
        if error then some ((len + data.length) % 2 ^ 32, w')
        else lenLoop memory garbage fuel w' ((len + data.length) % 2 ^ 32) := by
  obtain ⟨items, hcurr, -, -⟩ := hhere.part
  rw [lenLoop, hhere.wormEnd, Option.bind_some, decide_eq_false hend, if_neg Bool.false_ne_true,
    hcurr]
  rfl

theorem Here.lenLoop_end (hhere : w.Here front p data []) (fuel len : Nat)
    (hend : w.currpos = data.length) :
    lenLoop memory garbage (fuel + 1) w len = some (len, w) := by
  rw [lenLoop, hhere.wormEnd, Option.bind_some, decide_eq_true ⟨hend.ge, rfl⟩]
  exact if_pos rfl

/-- Measuring leads to the end of the last part. -/
theorem Here.lenLoop_spec {fuel len : Nat} (hhere : w.Here front p data rest)
    (hpos : w.currpos = 0) (hlen : len < 2 ^ 32) (hfuel : rest.length + 2 ≤ fuel) :
    ∃ front' p' data', front' ++ [(p', data')] = front ++ (p, data) :: rest ∧
      lenLoop memory garbage fuel w len =
        some ((len + (data ++ contents rest).length) % 2 ^ 32,
          { w with currpos := data'.length, currCoreptr := p' }) := by
  induction rest generalizing w front p data len fuel with
  | nil =>
      obtain ⟨fuel, rfl⟩ := Nat.exists_eq_add_of_le' hfuel
      refine ⟨front, p, data, rfl, ?_⟩
      have hcurr : { w with currpos := data.length, currCoreptr := p } =
          { w with currpos := data.length } := by
        rw [← hhere.curr]
      rw [hcurr, contents, List.map_nil, List.flatten_nil, List.append_nil]
      by_cases hempty : data.length = 0
      · refine (hhere.lenLoop_end memory garbage (fuel + 1) len (hpos.trans hempty.symm)).trans ?_
        rw [hempty, Nat.add_zero, Nat.mod_eq_of_lt hlen, ← hpos]
      · have hend : ¬ (data.length ≤ w.currpos ∧ ([] : Cells) = []) := by
          rw [hpos]
          omega
        obtain ⟨hstep, hlast⟩ := hhere.step_last memory garbage
        refine (hhere.lenLoop_turn memory garbage (fuel + 1) len hend).trans ?_
        rw [hstep]
        exact hlast.lenLoop_end memory garbage fuel _ rfl
  | cons cell rest ih =>
      obtain ⟨q, object⟩ := cell
      obtain ⟨fuel, rfl⟩ := Nat.exists_eq_add_of_le' hfuel
      have hend : ¬ (data.length ≤ w.currpos ∧ (q, object) :: rest = []) :=
        fun hend => List.cons_ne_nil _ _ hend.2
      obtain ⟨hstep, hnext⟩ := hhere.step_next memory garbage
      obtain ⟨front', p', data', hcells, hloop⟩ :=
        ih hnext rfl (Nat.mod_lt (len + data.length) (Nat.two_pow_pos 32))
          (Nat.le_add_left _ fuel)
      refine ⟨front', p', data', ?_, ?_⟩
      · rw [hcells, List.append_assoc]
        rfl
      · refine (hhere.lenLoop_turn memory garbage _ len hend).trans ?_
        rw [hstep]
        refine hloop.trans ?_
        rw [Nat.mod_add_mod, Nat.add_assoc, ← List.length_append]
        rfl

end Length

section Adding

variable {w : Worm} {front rest cells : Cells} {p : Nat} {data : List UInt8}
variable (memory : Nat → Bool) (garbage : Nat → Nat → UInt8)

/-- A new part behind the last one. -/
theorem Chain.new {items old : List UInt8} (hchain : w.Chain (front ++ [(p, data)]))
    (hold : w.parts p = some ⟨w.partsize, data.length, none, old⟩)
    (hitems : items.length = w.partsize) :
    Chain { (w.put p ⟨w.partsize, data.length, some w.fresh, old⟩).put w.fresh
        ⟨w.partsize, 0, none, items⟩ with fresh := w.fresh + 1 }
      (front ++ [(p, data)] ++ [(w.fresh, [])]) := by
  have hnames : (front ++ [(p, data)] ++ [(w.fresh, [])]).map Prod.fst =
      (front ++ [(p, data)]).map Prod.fst ++ [w.fresh] := List.map_append
  have hlast : p ∈ (front ++ [(p, data)]).map Prod.fst :=
    List.mem_map_of_mem (List.mem_append_right _ List.mem_cons_self)
  have hnew : w.fresh ∉ (front ++ [(p, data)]).map Prod.fst := fun hmem =>
    absurd (hchain.fresh _ hmem) (Nat.lt_irrefl _)
  have hp : w.fresh ≠ p := fun heq => hnew (heq ▸ hlast)
  have hothers : ∀ q, q ≠ p → q ≠ w.fresh →
      ((w.put p ⟨w.partsize, data.length, some w.fresh, old⟩).put w.fresh
        ⟨w.partsize, 0, none, items⟩).parts q = w.parts q := fun q hq hfresh =>
    (put_parts_of_ne _ _ hfresh).trans (put_parts_of_ne _ _ hq)
  have hpart : ((w.put p ⟨w.partsize, data.length, some w.fresh, old⟩).put w.fresh
      ⟨w.partsize, 0, none, items⟩).parts p =
        some ⟨w.partsize, data.length, some w.fresh, old⟩ :=
    (put_parts_of_ne _ _ hp.symm).trans (put_parts_self ..)
  have hfresh : ((w.put p ⟨w.partsize, data.length, some w.fresh, old⟩).put w.fresh
      ⟨w.partsize, 0, none, items⟩).parts w.fresh = some ⟨w.partsize, 0, none, items⟩ :=
    put_parts_self ..
  refine ⟨hchain.partsize, ?_, ?_, ?_, ?_, ?_, ?_⟩
  · have hlinked := hchain.linked
    rw [List.map_append, List.map_singleton] at hlinked hnew
    rw [hnames, List.map_append, List.map_singleton, List.append_assoc]
    rw [List.mem_append, List.mem_singleton, not_or] at hnew
    have hnodup := hchain.nodup
    rw [List.map_append, List.map_singleton, List.nodup_append] at hnodup
    have hfront : p ∉ front.map Prod.fst := fun hmem =>
      hnodup.2.2 p hmem p List.mem_cons_self rfl
    refine (hlinked.snoc hfront hnew.1 hnew.2).congr fun q _ => ?_
    rw [nextOf]
    by_cases hq : q = w.fresh
    · rw [hq, Function.update_self]
      exact (congrArg (Option.bind · Wormbeg.next) hfresh).symm
    · rw [Function.update_of_ne hq]
      by_cases heq : q = p
      · rw [heq, Function.update_self]
        exact (congrArg (Option.bind · Wormbeg.next) hpart).symm
      · rw [Function.update_of_ne heq]
        exact (congrArg (Option.bind · Wormbeg.next) (hothers q heq hq)).symm
  · intro cell hcell
    rw [List.mem_append, List.mem_singleton] at hcell
    obtain hcell | rfl := hcell
    · obtain ⟨next, items', hcellpart, hright⟩ := hchain.holds cell hcell
      by_cases heq : cell.1 = p
      · rw [heq, hold, Option.some.injEq, Wormbeg.mk.injEq] at hcellpart
        obtain ⟨-, hlength, -, rfl⟩ := hcellpart
        refine ⟨some w.fresh, old, ?_, hright⟩
        rw [heq, ← hlength]
        exact hpart
      · refine ⟨next, items', ?_, hright⟩
        have hne : cell.1 ≠ w.fresh := fun heq =>
          hnew (heq ▸ List.mem_map_of_mem hcell)
        exact (hothers _ heq hne).trans hcellpart
    · exact ⟨none, items, hfresh, hitems, List.nil_prefix⟩
  · rw [hnames, List.nodup_append]
    refine ⟨hchain.nodup, List.nodup_singleton _, fun q hq r hr heq => ?_⟩
    rw [List.mem_singleton] at hr
    exact hnew (hr ▸ heq ▸ hq)
  · intro q
    rw [hnames, List.mem_append, List.mem_singleton, ← hchain.live q]
    by_cases hq : q = w.fresh
    · simp only [hq, or_true, iff_true]
      exact congrArg Option.isSome hfresh
    · by_cases heq : q = p
      · rw [heq, hold]
        simp only [Option.isSome_some, true_or, iff_true]
        exact congrArg Option.isSome hpart
      · simp only [hq, or_false]
        rw [← hothers q heq hq]
  · intro q hq
    rw [hnames, List.mem_append, List.mem_singleton] at hq
    obtain hq | rfl := hq
    · exact (hchain.fresh q hq).trans (Nat.lt_succ_self _)
    · exact Nat.lt_succ_self _
  · intro q
    refine (hchain.frees q).trans ?_
    refine if_congr ?_ rfl rfl
    rw [hnames, List.mem_append, List.mem_singleton, not_or]
    dsimp only
    constructor
    · rintro ⟨hlt, hmem⟩
      exact ⟨hlt.trans (Nat.lt_succ_self _), hmem, hlt.ne⟩
    · rintro ⟨hlt, hmem, hne⟩
      exact ⟨Nat.lt_of_le_of_ne (Nat.le_of_lt_succ hlt) hne, hmem⟩

theorem Here.step_new (hhere : w.Here front p data []) (hmemory : memory w.fresh = true) :
    ∃ w', step memory garbage true w = some (false, w') ∧
      w'.Here (front ++ [(p, data)]) w.fresh [] [] ∧ w'.currpos = 0 ∧
      w'.partsize = w.partsize ∧ w'.failed = w.failed := by
  obtain ⟨items, hcurr, -, -⟩ := hhere.part
  have hold : w.parts p = some ⟨w.partsize, data.length, none, items⟩ := by
    rw [← hhere.curr]
    exact hcurr
  have hnew : (newItems garbage w.fresh w.partsize).length = w.partsize := by
    rw [newItems, List.length_map, List.length_range]
  have hchain := (hhere.chain.new hold hnew).moved w.fresh 0 w.failed
  refine ⟨_, ?_, ⟨hchain, rfl, Nat.le_refl _⟩, rfl, rfl, rfl⟩
  rw [step, hcurr, Option.map_some]
  dsimp only
  rw [List.map_nil, List.head?_nil]
  dsimp only
  rw [if_pos rfl, if_pos hmemory, setCurr, hhere.curr]
  rfl

theorem Here.step_failing (hhere : w.Here front p data []) (hmemory : memory w.fresh = false) :
    step memory garbage true w = some (true, { w with currpos := 0, failed := true }) ∧
    Here { w with currpos := 0, failed := true } front p data [] := by
  obtain ⟨items, hcurr, -, -⟩ := hhere.part
  refine ⟨?_, hhere.chain.moved _ _ _, hhere.curr, Nat.zero_le _⟩
  rw [step, hcurr, Option.map_some]
  dsimp only
  rw [List.map_nil, List.head?_nil]
  dsimp only
  rw [if_pos rfl, hmemory, if_neg Bool.false_ne_true]

/-- What fits into the part at the position is copied. -/
theorem Here.addLoop_turn (hhere : w.Here front p data []) (fuel : Nat) {object : List UInt8}
    (hobject : object ≠ []) {size : Nat}
    (hsize : size = min (w.partsize - w.currpos) object.length) :
    ∃ w', w'.Here front p (memcpy data w.currpos (object.take size)) [] ∧
      w'.currpos = w.currpos + size ∧ w'.partsize = w.partsize ∧ w'.failed = w.failed ∧
      addLoop memory garbage (fuel + 1) w object =
        if object.drop size = [] then some w'
        else
          (step memory garbage true w').bind fun (error, w) =>
            if error then some w else addLoop memory garbage fuel w (object.drop size) := by
  obtain ⟨items, hcurr, hitems, hstarts⟩ := hhere.part
  have hpos := hhere.pos
  have hdata := hstarts.length_le
  have htake : (object.take size).length = size := by
    rw [List.length_take, hsize]
    omega
  have hroom : w.currpos + (object.take size).length ≤ items.length := by
    omega
  have hlength := length_memcpy hpos (object.take size)
  rw [htake] at hlength
  have hcopied := length_memcpy (hpos.trans hdata) (object.take size)
  have hput := hhere.chain.put (hcopied.trans (by omega)) (memcpy_starts hstarts hpos hroom)
  refine ⟨_, ⟨hput.moved w.currCoreptr (w.currpos + size) w.failed, hhere.curr, ?_⟩, rfl, rfl,
    rfl, ?_⟩
  · rw [hlength]
    exact Nat.le_max_right _ _
  · rw [addLoop, hcurr, Option.bind_some]
    · dsimp only
      rw [← hsize, ← hlength, setCurr, hhere.curr]
      rfl
    · exact hobject

/-- Adding ends in the last part. At its end, everything is added. -/
theorem Here.addLoop_spec {fuel : Nat} {object : List UInt8} (hhere : w.Here front p data [])
    (hfuel : object.length + (if w.currpos < w.partsize then 0 else 1) ≤ fuel) :
    ∃ w' front' p' data', addLoop memory garbage fuel w object = some w' ∧
      w'.Here front' p' data' [] ∧
      (w'.failed = false → w.failed = false ∧ (w.currpos = data.length →
        w'.currpos = data'.length ∧
        contents (front' ++ [(p', data')]) = contents (front ++ [(p, data)]) ++ object)) ∧
      ((∀ p, memory p = true) → w'.failed = w.failed) := by
  induction fuel generalizing w front p data object with
  | zero =>
      obtain rfl := List.length_eq_zero_iff.mp (by omega : object.length = 0)
      refine ⟨w, front, p, data, rfl, hhere, fun hfailed => ⟨hfailed, fun hend => ⟨hend, ?_⟩⟩,
        fun _ => rfl⟩
      rw [List.append_nil]
  | succ fuel ih =>
      by_cases hobject : object = []
      · subst hobject
        refine ⟨w, front, p, data, rfl, hhere, fun hfailed => ⟨hfailed, fun hend => ⟨hend, ?_⟩⟩,
          fun _ => rfl⟩
        rw [List.append_nil]
      obtain ⟨size, hsize⟩ : ∃ size, size = min (w.partsize - w.currpos) object.length := ⟨_, rfl⟩
      obtain ⟨w', hhere', hpos', hpartsize, hfailed', hturn⟩ :=
        hhere.addLoop_turn memory garbage fuel hobject hsize
      have hgrown : w.currpos = data.length →
          memcpy data w.currpos (object.take size) = data ++ object.take size := fun hend => by
        rw [hend, memcpy_end]
      rw [hturn]
      by_cases hrest : object.drop size = []
      · rw [if_pos hrest]
        have hall : object.take size = object :=
          List.take_of_length_le (List.drop_eq_nil_iff.mp hrest)
        refine ⟨w', front, p, _, rfl, hhere', fun hfailed => ⟨hfailed' ▸ hfailed, fun hend => ?_⟩,
          fun _ => hfailed'⟩
        rw [hgrown hend, hall, contents_last, contents_last, List.append_assoc, hpos', hend,
          List.length_append, hsize]
        refine ⟨congrArg _ ?_, rfl⟩
        rw [List.drop_eq_nil_iff] at hrest
        omega
      · rw [if_neg hrest]
        rw [List.drop_eq_nil_iff, Nat.not_le] at hrest
        cases hmemory : memory w'.fresh with
        | false =>
            obtain ⟨hstep, hfailing⟩ := hhere'.step_failing memory garbage hmemory
            rw [hstep]
            refine ⟨_, front, p, _, rfl, hfailing, nofun, fun hall => ?_⟩
            exact Bool.noConfusion ((hall _).symm.trans hmemory)
        | true =>
            obtain ⟨w₁, hstep, hnew, hzero, hpartsize₁, hfailed₁⟩ :=
              hhere'.step_new memory garbage hmemory
            have hroom : w₁.currpos < w₁.partsize := by
              have hpositive := hhere.chain.partsize
              omega
            have hless : (object.drop size).length +
                (if w₁.currpos < w₁.partsize then 0 else 1) ≤ fuel := by
              rw [if_pos hroom, List.length_drop]
              split at hfuel
              · omega
              · omega
            obtain ⟨w₂, front₂, p₂, data₂, hloop, hhere₂, hright, hfailed₂⟩ := ih hnew hless
            rw [hstep]
            refine ⟨w₂, front₂, p₂, data₂, hloop, hhere₂, fun hfailed => ?_,
              fun hall => (hfailed₂ hall).trans (hfailed₁.trans hfailed')⟩
            obtain ⟨hsame, hcontents⟩ := hright hfailed
            refine ⟨hfailed' ▸ hfailed₁ ▸ hsame, fun hend => ?_⟩
            obtain ⟨hlast, hadded⟩ := hcontents hzero
            refine ⟨hlast, ?_⟩
            rw [hadded, contents_last, List.append_nil, contents_last, hgrown hend, contents_last]
            simp only [List.append_assoc, List.take_append_drop]

end Adding

end Worm

end Sql602.Journal
