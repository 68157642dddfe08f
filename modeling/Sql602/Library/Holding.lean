import Mathlib.Data.List.Nodup
import Mathlib.Logic.Function.Basic
import Mathlib.Data.List.Basic

namespace Holding

variable {ι κ β : Type*}

/-! Holders of resources. A holder has at most one thing, and the key of a thing names
the resource that it stands for. -/

/-- No resource has two holders. -/
def Once (key : κ → β) (held : ι → Option κ) : Prop :=
  ∀ ⦃i j x y⦄, held i = some x → held j = some y → key x = key y → i = j

variable {key : κ → β} {held : ι → Option κ} {i : ι} {x : κ} {good : κ → Prop}

/-- Some holders let go of what they have. -/
theorem Once.restrict {rest : ι → Option κ} (honce : Once key held)
    (hrest : ∀ j y, rest j = some y → held j = some y) : Once key rest := by
  intro j k y z hj hk hkey
  exact honce (hrest j y hj) (hrest k z hk) hkey

section Update

variable [DecidableEq ι]

theorem holder_of_update {value : Option κ} {j : ι} {y : κ}
    (hupdate : Function.update held i value j = some y) :
    j = i ∧ value = some y ∨ j ≠ i ∧ held j = some y := by
  cases decEq j i with
  | isTrue hj =>
      subst hj
      rw [Function.update_self] at hupdate
      exact Or.inl ⟨rfl, hupdate⟩
  | isFalse hj =>
      rw [Function.update_of_ne hj] at hupdate
      exact Or.inr ⟨hj, hupdate⟩

theorem holder_of_clear {j : ι} {y : κ} (hclear : Function.update held i none j = some y) :
    j ≠ i ∧ held j = some y := by
  obtain ⟨-, hnone⟩ | hother := holder_of_update hclear
  · cases hnone
  · exact hother

theorem Once.clear (honce : Once key held) (i : ι) :
    Once key (Function.update held i none) := by
  intro j k y z hj hk hkey
  exact honce (holder_of_clear hj).2 (holder_of_clear hk).2 hkey

/-- A holder may get what no other holder has. -/
theorem Once.put (honce : Once key held)
    (hnew : ∀ j y, j ≠ i → held j = some y → key y ≠ key x) :
    Once key (Function.update held i (some x)) := by
  intro j k y z hj hk hkey
  obtain ⟨hji, hy⟩ | ⟨hji, hy⟩ := holder_of_update hj
  · obtain ⟨hki, -⟩ | ⟨hki, hz⟩ := holder_of_update hk
    · rw [hji, hki]
    · rw [← Option.some.inj hy] at hkey
      exact absurd hkey.symm (hnew k z hki hz)
  · obtain ⟨-, hz⟩ | ⟨-, hz⟩ := holder_of_update hk
    · rw [← Option.some.inj hz] at hkey
      exact absurd hkey (hnew j y hji hy)
    · exact honce hy hz hkey

/-- The holder of a resource hands it over to another one. -/
theorem Once.move {j : ι} {y : κ} (honce : Once key held) (hi : held i = some x)
    (hkey : key y = key x) :
    Once key (Function.update (Function.update held i none) j (some y)) := by
  apply (honce.clear i).put
  intro k z _ hk hsame
  obtain ⟨hne, hk⟩ := holder_of_clear hk
  exact hne (honce hk hi (hsame.trans hkey))

theorem forall_clear (hgood : ∀ j y, held j = some y → good y) (i : ι) :
    ∀ j y, Function.update held i none j = some y → good y :=
  fun j y hj => hgood j y (holder_of_clear hj).2

theorem forall_put (hgood : ∀ j y, held j = some y → good y) (hnew : good x) (i : ι) :
    ∀ j y, Function.update held i (some x) j = some y → good y := by
  intro j y hj
  obtain ⟨-, hy⟩ | ⟨-, hy⟩ := holder_of_update hj
  · rw [← Option.some.inj hy]
    exact hnew
  · exact hgood j y hy

end Update

/-! What the holders of a region have, as a list. -/

/-- The list has what each holder of the region has, once. -/
def Collected (held : ι → Option κ) (region : ι → Prop) (list : List κ) : Prop :=
  ∃ holders : List ι, holders.Nodup ∧ (∀ i, i ∈ holders ↔ region i ∧ held i ≠ none) ∧
    list.map some = holders.map held

variable {region before after : ι → Prop} {list rest : List κ}

theorem Collected.nil (hnone : ∀ i, region i → held i = none) : Collected held region [] := by
  refine ⟨[], List.nodup_nil, fun i => ⟨fun hmem => (by cases hmem), ?_⟩, rfl⟩
  rintro ⟨hi, hsome⟩
  exact absurd (hnone i hi) hsome

theorem Collected.single {i : ι} (hheld : held i = some x) : Collected held (· = i) [x] := by
  refine ⟨[i], List.nodup_singleton i, fun j => ?_, ?_⟩
  · rw [List.mem_singleton]
    constructor
    · rintro rfl
      exact ⟨rfl, by rw [hheld]; exact Option.some_ne_none x⟩
    · exact And.left
  · rw [List.map_singleton, List.map_singleton, hheld]

theorem Collected.append (hfirst : Collected held before list)
    (hrest : Collected held after rest) (hapart : ∀ i, before i → ¬ after i)
    (hboth : ∀ i, held i ≠ none → (region i ↔ before i ∨ after i)) :
    Collected held region (rest ++ list) := by
  obtain ⟨holders, hnodup, hmem, hlist⟩ := hfirst
  obtain ⟨others, hothers, hmem', hlist'⟩ := hrest
  refine ⟨others ++ holders, ?_, fun i => ?_, ?_⟩
  · refine List.Nodup.append hothers hnodup ?_
    intro i hi hi'
    exact hapart i ((hmem i).mp hi').1 ((hmem' i).mp hi).1
  · rw [List.mem_append, hmem, hmem']
    constructor
    · rintro (⟨hin, hsome⟩ | ⟨hin, hsome⟩)
      · exact ⟨(hboth i hsome).mpr (Or.inr hin), hsome⟩
      · exact ⟨(hboth i hsome).mpr (Or.inl hin), hsome⟩
    · rintro ⟨hin, hsome⟩
      cases (hboth i hsome).mp hin with
      | inl hbefore => exact Or.inr ⟨hbefore, hsome⟩
      | inr hafter => exact Or.inl ⟨hafter, hsome⟩
  · rw [List.map_append, List.map_append, hlist, hlist']

theorem Collected.mem (hcollected : Collected held region list) :
    x ∈ list ↔ ∃ i, region i ∧ held i = some x := by
  obtain ⟨holders, -, hmem, hlist⟩ := hcollected
  have hsome : x ∈ list ↔ some x ∈ list.map some :=
    (List.mem_map_of_injective fun _ _ => Option.some.inj).symm
  rw [hsome, hlist, List.mem_map]
  constructor
  · rintro ⟨i, hi, hheld⟩
    exact ⟨i, ((hmem i).mp hi).1, hheld⟩
  · rintro ⟨i, hi, hheld⟩
    exact ⟨i, (hmem i).mpr ⟨hi, by rw [hheld]; exact Option.some_ne_none x⟩, hheld⟩

theorem Collected.nodup (hcollected : Collected held region list) (honce : Once id held) :
    list.Nodup := by
  obtain ⟨holders, hnodup, hmem, hlist⟩ := hcollected
  apply List.Nodup.of_map some
  rw [hlist]
  refine hnodup.map_on fun i hi j _ hsame => ?_
  obtain ⟨y, hy⟩ := Option.ne_none_iff_exists'.mp ((hmem i).mp hi).2
  exact honce hy (hsame.symm.trans hy) rfl

end Holding

namespace Takings

/-! Claimants served in order, where each one names at most one slot and takes it if the slot
is still free. -/

variable {α ι : Type*} [DecidableEq ι]

def leaving (free : ι → Bool) : Option ι → ι → Bool
  | none => free
  | some slot => Function.update free slot false

def takings (choose : α → Option ι) : (ι → Bool) → List α → List (Option ι)
  | _, [] => []
  | free, claimant :: rest =>
      (choose claimant).filter free ::
        takings choose (leaving free ((choose claimant).filter free)) rest

/-- The slots that stay free. -/
def remaining (choose : α → Option ι) : (ι → Bool) → List α → ι → Bool
  | free, [] => free
  | free, claimant :: rest =>
      remaining choose (leaving free ((choose claimant).filter free)) rest

/-- The claimant at `i` is the first one that names the slot. -/
def IsTaker (choose : α → Option ι) (claimants : List α) (i : Nat) (slot : ι) : Prop :=
  (∃ claimant, claimants[i]? = some claimant ∧ choose claimant = some slot) ∧
    ∀ k < i, ∀ claimant, claimants[k]? = some claimant → choose claimant ≠ some slot

variable {choose : α → Option ι} {free : ι → Bool} {claimants : List α} {i k : Nat} {slot : ι}

theorem IsTaker.unique (hfirst : IsTaker choose claimants i slot)
    (hother : IsTaker choose claimants k slot) : i = k := by
  obtain ⟨⟨first, hget, hnames⟩, hbefore⟩ := hfirst
  obtain ⟨⟨other, hgetOther, hnamesOther⟩, hbeforeOther⟩ := hother
  obtain hlt | heq | hgt := Nat.lt_trichotomy i k
  · exact absurd hnames (hbeforeOther i hlt first hget)
  · exact heq
  · exact absurd hnamesOther (hbefore k hgt other hgetOther)

theorem isTaker_zero {claimant : α} {rest : List α} :
    IsTaker choose (claimant :: rest) 0 slot ↔ choose claimant = some slot := by
  constructor
  · rintro ⟨⟨first, hget, hnames⟩, -⟩
    rw [List.getElem?_cons_zero, Option.some.injEq] at hget
    rw [hget]
    exact hnames
  · intro hnames
    exact ⟨⟨claimant, rfl, hnames⟩, fun k hk => absurd hk (Nat.not_lt_zero k)⟩

theorem isTaker_succ {claimant : α} {rest : List α} :
    IsTaker choose (claimant :: rest) (i + 1) slot ↔
      choose claimant ≠ some slot ∧ IsTaker choose rest i slot := by
  constructor
  · rintro ⟨hget, hbefore⟩
    refine ⟨hbefore 0 (Nat.succ_pos i) claimant rfl, hget, fun k hk => ?_⟩
    exact hbefore (k + 1) (Nat.succ_lt_succ hk)
  · rintro ⟨hclaimant, hget, hbefore⟩
    refine ⟨hget, fun k hk => ?_⟩
    cases k with
    | zero =>
        intro first hfirst
        obtain rfl := Option.some.inj hfirst
        exact hclaimant
    | succ k => exact hbefore k (Nat.lt_of_succ_lt_succ hk)

theorem leaving_eq_true {taken : Option ι} :
    leaving free taken slot = true ↔ free slot = true ∧ taken ≠ some slot := by
  cases taken with
  | none => simp [leaving]
  | some other =>
      by_cases hsame : slot = other
      · subst hsame
        simp [leaving]
      · simp [leaving, Function.update_of_ne hsame, Ne.symm hsame]

theorem filter_ne_some {claimant : α} (hfree : free slot = true) :
    (choose claimant).filter free ≠ some slot ↔ choose claimant ≠ some slot := by
  rw [ne_eq, Option.filter_eq_some_iff]
  exact not_congr ⟨And.left, fun hnames => ⟨hnames, hfree⟩⟩

@[simp] theorem length_takings : (takings choose free claimants).length = claimants.length := by
  induction claimants generalizing free with
  | nil => rfl
  | cons claimant rest ih => rw [takings, List.length_cons, List.length_cons, ih]

theorem takings_iff : (takings choose free claimants)[i]? = some (some slot) ↔
    free slot = true ∧ IsTaker choose claimants i slot := by
  induction claimants generalizing free i with
  | nil => simp [takings, IsTaker]
  | cons claimant rest ih =>
      rw [takings]
      cases i with
      | zero =>
          rw [List.getElem?_cons_zero, isTaker_zero, Option.some.injEq,
            Option.filter_eq_some_iff]
          exact and_comm
      | succ i =>
          rw [List.getElem?_cons_succ, ih, isTaker_succ, leaving_eq_true]
          constructor
          · rintro ⟨⟨hfree, hclaimant⟩, htaker⟩
            exact ⟨hfree, (filter_ne_some hfree).mp hclaimant, htaker⟩
          · rintro ⟨hfree, hclaimant, htaker⟩
            exact ⟨⟨hfree, (filter_ne_some hfree).mpr hclaimant⟩, htaker⟩

theorem remaining_eq_true : remaining choose free claimants slot = true ↔
    free slot = true ∧ ∀ claimant ∈ claimants, choose claimant ≠ some slot := by
  induction claimants generalizing free with
  | nil => simp [remaining]
  | cons claimant rest ih =>
      rw [remaining, ih, leaving_eq_true, List.forall_mem_cons]
      constructor
      · rintro ⟨⟨hfree, hclaimant⟩, hrest⟩
        exact ⟨hfree, (filter_ne_some hfree).mp hclaimant, hrest⟩
      · rintro ⟨hfree, hclaimant, hrest⟩
        exact ⟨⟨hfree, (filter_ne_some hfree).mpr hclaimant⟩, hrest⟩

theorem exists_isTaker (hnames : ∃ claimant ∈ claimants, choose claimant = some slot) :
    ∃ i, IsTaker choose claimants i slot := by
  induction claimants with
  | nil => simp at hnames
  | cons claimant rest ih =>
      by_cases hclaimant : choose claimant = some slot
      · exact ⟨0, isTaker_zero.mpr hclaimant⟩
      · obtain ⟨first, hmem, hfirst⟩ := hnames
        obtain rfl | hmem := List.mem_cons.mp hmem
        · exact absurd hfirst hclaimant
        · obtain ⟨i, htaker⟩ := ih ⟨first, hmem, hfirst⟩
          exact ⟨i + 1, isTaker_succ.mpr ⟨hclaimant, htaker⟩⟩

/-- A free slot is taken by exactly one claimant, or it stays free. -/
theorem taken_or_remaining (hfree : free slot = true) :
    (remaining choose free claimants slot = false ∧
        ∃! i : Nat, (takings choose free claimants)[i]? = some (some slot)) ∨
      (remaining choose free claimants slot = true ∧
        ∀ i : Nat, (takings choose free claimants)[i]? ≠ some (some slot)) := by
  by_cases hnames : ∃ claimant ∈ claimants, choose claimant = some slot
  · left
    obtain ⟨i, htaker⟩ := exists_isTaker hnames
    refine ⟨?_, i, takings_iff.mpr ⟨hfree, htaker⟩, fun k hk => ?_⟩
    · rw [← Bool.not_eq_true, remaining_eq_true]
      rintro ⟨-, hnone⟩
      obtain ⟨claimant, hmem, hclaimant⟩ := hnames
      exact hnone claimant hmem hclaimant
    · exact ((takings_iff.mp hk).2).unique htaker
  · right
    refine ⟨remaining_eq_true.mpr ⟨hfree, fun claimant hmem hclaimant =>
      hnames ⟨claimant, hmem, hclaimant⟩⟩, fun i hi => ?_⟩
    obtain ⟨-, ⟨claimant, hget, hclaimant⟩, -⟩ := takings_iff.mp hi
    exact hnames ⟨claimant, List.mem_of_getElem? hget, hclaimant⟩

end Takings
