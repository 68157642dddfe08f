import Mathlib.Data.List.Basic
import Mathlib.Data.List.Forall2
import Mathlib.Data.List.Perm.Basic
import Mathlib.Order.Compare

namespace Fences

/-! Children between fences. A bound that is missing does not bound. The keys of a child are
behind the lower one of its bounds and not behind the upper one. -/

variable {κ ν ω : Type*} (cmp : κ → κ → Ordering)

def Above (low : Option κ) (key : κ) : Prop := ∀ bound ∈ low, cmp bound key = .lt

def Under (high : Option κ) (key : κ) : Prop := ∀ bound ∈ high, (cmp key bound).isLE

structure Within (low high : Option κ) (key : κ) : Prop where
  above : Above cmp low key
  below : Under cmp high key

def Below (low high : Option κ) : Prop := ∀ lower ∈ low, ∀ upper ∈ high, cmp lower upper = .lt

/-- What a child between two bounds owns and holds. -/
abbrev Content (κ ν ω : Type*) := ν → Option κ → Option κ → List ω → List κ → Prop

def Holding (content : Content κ ν ω) : Content κ ν ω := fun child low high owned held =>
  content child low high owned held ∧ held ≠ []

/-- The first child and the others, each behind its fence. -/
inductive Fenced (content : Content κ ν ω) :
    ν → List (κ × ν) → Option κ → Option κ → List ω → List κ → Prop
  | last {child : ν} {low high : Option κ} {owned : List ω} {held : List κ}
      (isContent : content child low high owned held) :
      Fenced content child [] low high owned held
  | cons {child next : ν} {fence : κ} {rest : List (κ × ν)} {low high : Option κ}
      {owned owned' : List ω} {held held' : List κ}
      (isContent : content child low (some fence) owned held)
      (others : Fenced content next rest (some fence) high owned' held') :
      Fenced content child ((fence, next) :: rest) low high (owned ++ owned') (held ++ held')

variable {cmp}

section Bounds

variable [Std.TransCmp cmp] {low mid high : Option κ} {key fence : κ}

theorem Below.trans (hlow : Below cmp low (some fence)) (hhigh : Below cmp (some fence) high) :
    Below cmp low high :=
  fun lower hlower upper hupper =>
    Std.TransCmp.lt_trans (hlow lower hlower fence rfl) (hhigh fence rfl upper hupper)

theorem Below.within (hlow : Below cmp low (some fence)) (hhigh : Below cmp (some fence) high) :
    Within cmp low high fence where
  above lower hlower := hlow lower hlower fence rfl
  below upper hupper := Ordering.isLE_of_eq_lt (hhigh fence rfl upper hupper)

theorem Within.room (hwithin : Within cmp low high key) : Below cmp low high :=
  fun lower hlower upper hupper =>
    Std.TransCmp.lt_of_lt_of_isLE (hwithin.above lower hlower) (hwithin.below upper hupper)

theorem Within.widen {low' high' : Option κ} (hwithin : Within cmp low high key)
    (hlow : ∀ key, Above cmp low key → Above cmp low' key)
    (hhigh : ∀ key, Under cmp high key → Under cmp high' key) : Within cmp low' high' key :=
  ⟨hlow key hwithin.above, hhigh key hwithin.below⟩

theorem Above.widen (hlow : Below cmp low (some fence)) (key : κ)
    (habove : Above cmp (some fence) key) : Above cmp low key :=
  fun lower hlower => Std.TransCmp.lt_trans (hlow lower hlower fence rfl) (habove fence rfl)

theorem Under.widen (hhigh : Below cmp (some fence) high) (key : κ)
    (hunder : Under cmp (some fence) key) : Under cmp high key :=
  fun upper hupper => Std.TransCmp.isLE_trans (hunder fence rfl)
    (Ordering.isLE_of_eq_lt (hhigh fence rfl upper hupper))

theorem Within.behind (hwithin : Within cmp (some fence) high key) : cmp fence key = .lt :=
  hwithin.above fence rfl

theorem Within.ahead (hwithin : Within cmp low (some fence) key) : (cmp key fence).isLE :=
  hwithin.below fence rfl

end Bounds

section Content

variable {content other : Content κ ν ω} {child next : ν} {fence : κ}
  {entries more : List (κ × ν)} {low high : Option κ} {owned owned' : List ω}
  {held held' : List κ}

/-- Contents may be replaced by what agrees with them on what the children own. -/
theorem Fenced.mono (hfenced : Fenced content child entries low high owned held)
    (hmono : ∀ child low high part held, (∀ page ∈ part, page ∈ owned) →
      content child low high part held → other child low high part held) :
    Fenced other child entries low high owned held := by
  induction hfenced with
  | last isContent => exact .last (hmono _ _ _ _ _ (fun _ hpage => hpage) isContent)
  | cons isContent others ih =>
      refine .cons (hmono _ _ _ _ _ (fun _ hpage => List.mem_append_left _ hpage) isContent)
        (ih fun child low high part held hpart => ?_)
      exact hmono _ _ _ _ _ fun page hpage => List.mem_append_right _ (hpart page hpage)

theorem Fenced.append (hfirst : Fenced content child entries low (some fence) owned held)
    (hsecond : Fenced content next more (some fence) high owned' held') :
    Fenced content child (entries ++ (fence, next) :: more) low high (owned ++ owned')
      (held ++ held') := by
  generalize hbound : some fence = bound at hfirst
  induction hfirst with
  | last isContent =>
      subst hbound
      exact .cons isContent hsecond
  | cons isContent others ih =>
      rw [List.append_assoc, List.append_assoc]
      exact .cons isContent (ih hbound)

theorem Fenced.split
    (hfenced : Fenced content child (entries ++ (fence, next) :: more) low high owned held) :
    ∃ owned1 owned2 held1 held2, owned = owned1 ++ owned2 ∧ held = held1 ++ held2 ∧
      Fenced content child entries low (some fence) owned1 held1 ∧
      Fenced content next more (some fence) high owned2 held2 := by
  induction entries generalizing child low owned held with
  | nil =>
      cases hfenced with
      | cons isContent others => exact ⟨_, _, _, _, rfl, rfl, .last isContent, others⟩
  | cons entry entries ih =>
      cases hfenced with
      | cons isContent others =>
          obtain ⟨owned1, owned2, held1, held2, rfl, rfl, hfirst, hsecond⟩ := ih others
          refine ⟨_, owned2, _, held2, (List.append_assoc ..).symm, (List.append_assoc ..).symm,
            .cons isContent hfirst, hsecond⟩

theorem Fenced.parts (hfenced : Fenced content child entries low high owned held) :
    ∃ parts : List (List ω), owned = parts.flatten ∧
      List.Forall₂ (fun child part => ∃ low high held, content child low high part held)
        (child :: entries.map Prod.snd) parts := by
  induction hfenced with
  | @last child low high owned held isContent =>
      exact ⟨[owned], (List.append_nil owned).symm, .cons ⟨_, _, _, isContent⟩ .nil⟩
  | @cons child next fence rest low high owned owned' held held' isContent others ih =>
      obtain ⟨parts, rfl, hparts⟩ := ih
      exact ⟨owned :: parts, rfl, .cons ⟨_, _, _, isContent⟩ hparts⟩

theorem part_of_child {R : ν → List ω → Prop} {children : List ν} {parts : List (List ω)}
    (hparts : List.Forall₂ R children parts) :
    (∀ child ∈ children, ∃ part ∈ parts, R child part) ∧
      ∀ part ∈ parts, ∃ child ∈ children, R child part := by
  induction hparts with
  | nil =>
      exact ⟨fun _ hmem => absurd hmem List.not_mem_nil,
        fun _ hmem => absurd hmem List.not_mem_nil⟩
  | @cons child part children parts hfirst hrest ih =>
      constructor
      · intro other hother
        cases List.mem_cons.mp hother with
        | inl heq => exact ⟨part, List.mem_cons_self, heq ▸ hfirst⟩
        | inr hmem =>
            obtain ⟨found, hfound, hcontent⟩ := ih.1 other hmem
            exact ⟨found, List.mem_cons_of_mem part hfound, hcontent⟩
      · intro other hother
        cases List.mem_cons.mp hother with
        | inl heq => exact ⟨child, List.mem_cons_self, heq ▸ hfirst⟩
        | inr hmem =>
            obtain ⟨found, hfound, hcontent⟩ := ih.2 other hmem
            exact ⟨found, List.mem_cons_of_mem child hfound, hcontent⟩

/-- Different children own different things. -/
theorem nodup_children {children : List ω} {parts : List (List ω)}
    (hparts : List.Forall₂ (fun child part => child ∈ part) children parts)
    (hnodup : parts.flatten.Nodup) : children.Nodup := by
  induction hparts with
  | nil => exact List.nodup_nil
  | @cons child part children parts hfirst hrest ih =>
      rw [List.flatten_cons, List.nodup_append] at hnodup
      refine List.nodup_cons.mpr ⟨fun hmem => ?_, ih hnodup.2.1⟩
      obtain ⟨found, hfound, hchild⟩ := (part_of_child hrest).1 child hmem
      exact hnodup.2.2 child hfirst child (List.mem_flatten.mpr ⟨found, hfound, hchild⟩) rfl

theorem part_unique {parts : List (List ω)} {part found : List ω} {page : ω}
    (hnodup : parts.flatten.Nodup) (hpart : part ∈ parts) (hfound : found ∈ parts)
    (hpage : page ∈ part) (hpage' : page ∈ found) : part = found := by
  induction parts with
  | nil => exact absurd hpart List.not_mem_nil
  | cons first rest ih =>
      rw [List.flatten_cons, List.nodup_append] at hnodup
      obtain ⟨-, hrest, hapart⟩ := hnodup
      rcases List.mem_cons.mp hpart with rfl | hlater <;>
        rcases List.mem_cons.mp hfound with rfl | hlater'
      · rfl
      · exact absurd rfl (hapart page hpage page (List.mem_flatten.mpr ⟨found, hlater', hpage'⟩))
      · exact absurd rfl (hapart page hpage' page (List.mem_flatten.mpr ⟨part, hlater, hpage⟩))
      · exact ih hrest hlater hlater'

theorem Fenced.held_eq {keysOf : ν → List κ}
    (hfenced : Fenced content child entries low high owned held)
    (hkeys : ∀ child low high owned held, content child low high owned held →
      keysOf child = held) :
    held = (child :: entries.map Prod.snd).flatMap keysOf := by
  induction hfenced with
  | last isContent =>
      rw [List.map_nil, List.flatMap_cons, List.flatMap_nil, List.append_nil,
        hkeys _ _ _ _ _ isContent]
  | cons isContent others ih =>
      rw [List.flatMap_cons, hkeys _ _ _ _ _ isContent, ih, List.map_cons]

/-- The bounds of a child. -/
def lowerBound (low : Option κ) (entries : List (κ × ν)) : Nat → Option κ
  | 0 => low
  | i + 1 => (entries[i]?).map Prod.fst

def upperBound (high : Option κ) (entries : List (κ × ν)) (i : Nat) : Option κ :=
  match entries[i]? with
  | some entry => some entry.1
  | none => high

theorem Fenced.holds (hfenced : Fenced (Holding content) child entries low high owned held) :
    held ≠ [] := by
  cases hfenced with
  | last isContent => exact isContent.2
  | cons isContent others => exact List.append_ne_nil_of_left_ne_nil isContent.2 _

/-! A child with what is before it and what is behind it. -/

/-- Before a child there is nothing, or some children and a fence. -/
abbrev Front (κ ν : Type*) := Option (ν × List (κ × ν) × κ)

def plug (front : Front κ ν) (child : ν) (rest : List (κ × ν)) : ν × List (κ × ν) :=
  match front with
  | none => (child, rest)
  | some (first, before, fence) => (first, before ++ (fence, child) :: rest)

def Front.position : Front κ ν → Nat
  | none => 0
  | some (_, before, _) => before.length + 1

def Before (content : Content κ ν ω) (low : Option κ) (front : Front κ ν) (lower : Option κ)
    (owned : List ω) (held : List κ) : Prop :=
  match front with
  | none => lower = low ∧ owned = [] ∧ held = []
  | some (first, before, fence) =>
      lower = some fence ∧ Fenced content first before low (some fence) owned held

def Behind (content : Content κ ν ω) (high : Option κ) (rest : List (κ × ν)) (upper : Option κ)
    (owned : List ω) (held : List κ) : Prop :=
  match rest with
  | [] => upper = high ∧ owned = [] ∧ held = []
  | (fence, next) :: others =>
      upper = some fence ∧ Fenced content next others (some fence) high owned held

section Zipper

variable {front : Front κ ν} {rest : List (κ × ν)} {lower upper : Option κ}

theorem Before.mono (hbefore : Before content low front lower owned held)
    (hmono : ∀ child low high part held, (∀ page ∈ part, page ∈ owned) →
      content child low high part held → other child low high part held) :
    Before other low front lower owned held := by
  cases front with
  | none => exact hbefore
  | some parts => exact ⟨hbefore.1, hbefore.2.mono hmono⟩

theorem Behind.mono (hbehind : Behind content high rest upper owned held)
    (hmono : ∀ child low high part held, (∀ page ∈ part, page ∈ owned) →
      content child low high part held → other child low high part held) :
    Behind other high rest upper owned held := by
  cases rest with
  | nil => exact hbehind
  | cons entry others => exact ⟨hbehind.1, hbehind.2.mono hmono⟩

theorem Fenced.plug (hfenced : Fenced content child rest lower high owned' held')
    (hbefore : Before content low front lower owned held) :
    Fenced content (plug front child rest).1 (plug front child rest).2 low high
      (owned ++ owned') (held ++ held') := by
  cases front with
  | none =>
      obtain ⟨rfl, rfl, rfl⟩ := hbefore
      exact hfenced
  | some parts =>
      obtain ⟨rfl, hfirst⟩ := hbefore
      exact hfirst.append hfenced

theorem Behind.fenced (hbehind : Behind content high rest upper owned' held')
    (hchild : content child lower upper owned held) :
    Fenced content child rest lower high (owned ++ owned') (held ++ held') := by
  cases rest with
  | nil =>
      obtain ⟨rfl, rfl, rfl⟩ := hbehind
      rw [List.append_nil, List.append_nil]
      exact .last hchild
  | cons entry others =>
      obtain ⟨rfl, hothers⟩ := hbehind
      exact .cons hchild hothers

theorem Fenced.behind (hfenced : Fenced content child rest lower high owned held) :
    ∃ upper part keys owned' held', content child lower upper part keys ∧
      Behind content high rest upper owned' held' ∧ owned = part ++ owned' ∧
        held = keys ++ held' := by
  cases hfenced with
  | last isContent =>
      exact ⟨high, owned, held, [], [], isContent, ⟨rfl, rfl, rfl⟩, (List.append_nil _).symm,
        (List.append_nil _).symm⟩
  | cons isContent others => exact ⟨_, _, _, _, _, isContent, ⟨rfl, others⟩, rfl, rfl⟩

theorem Fenced.unplug {posit : Nat}
    (hfenced : Fenced content child entries low high owned held) (hposit : posit ≤ entries.length) :
    ∃ front inner rest lower owned1 owned2 held1 held2,
      (child, entries) = Fences.plug front inner rest ∧ front.position = posit ∧
      Before content low front lower owned1 held1 ∧
      Fenced content inner rest lower high owned2 held2 ∧ owned = owned1 ++ owned2 ∧
      held = held1 ++ held2 := by
  cases posit with
  | zero =>
      exact ⟨none, child, entries, low, [], owned, [], held, rfl, rfl, ⟨rfl, rfl, rfl⟩, hfenced,
        rfl, rfl⟩
  | succ i =>
      obtain ⟨⟨fence, inner⟩, rest, hdrop⟩ : ∃ entry rest, entries.drop i = entry :: rest := by
        rw [List.drop_eq_getElem_cons hposit]
        exact ⟨_, _, rfl⟩
      have hparts : entries = entries.take i ++ (fence, inner) :: rest := by
        rw [← hdrop, List.take_append_drop]
      have hlength : (entries.take i).length = i := List.length_take_of_le (Nat.le_of_lt hposit)
      generalize entries.take i = before at hparts hlength
      subst hparts hlength
      obtain ⟨owned1, owned2, held1, held2, rfl, rfl, hfirst, hsecond⟩ := hfenced.split
      exact ⟨some (child, before, fence), inner, rest, some fence, owned1, owned2, held1, held2,
        rfl, rfl, ⟨rfl, hfirst⟩, hsecond, rfl, rfl⟩

/-- The last child before the fence. -/
theorem Before.back {first : ν} {before : List (κ × ν)}
    (hbefore : Before content low (some (first, before, fence)) lower owned held) :
    ∃ front inner lower' owned1 part held1 keys, (first, before) = Fences.plug front inner [] ∧
      Before content low front lower' owned1 held1 ∧ content inner lower' lower part keys ∧
      owned = owned1 ++ part ∧ held = held1 ++ keys := by
  obtain ⟨rfl, hfenced⟩ := hbefore
  obtain ⟨front, inner, rest, lower', owned1, owned2, held1, held2, hplug, hposition, hfront,
    hlast, rfl, rfl⟩ := hfenced.unplug (Nat.le_refl before.length)
  obtain rfl : rest = [] := by
    have hlength := congrArg (fun parts => parts.2.length) hplug
    cases front with
    | none =>
        cases hplug
        exact List.length_eq_zero_iff.mp hposition.symm
    | some parts =>
        simp only [Fences.plug, List.length_append, List.length_cons] at hlength
        simp only [Front.position] at hposition
        exact List.length_eq_zero_iff.mp (by omega)
  cases hlast with
  | last isContent =>
      exact ⟨front, inner, lower', owned1, owned2, held1, held2, hplug, hfront, isContent, rfl,
        rfl⟩

theorem plug_child (front : Front κ ν) (child : ν) (rest : List (κ × ν)) :
    ((plug front child rest).1 :: (plug front child rest).2.map Prod.snd)[front.position]? =
      some child := by
  cases front with
  | none => rfl
  | some parts =>
      simp only [plug, Front.position, List.getElem?_cons_succ, List.map_append, List.map_cons]
      rw [List.getElem?_append_right (Nat.le_of_eq (List.length_map _)), List.length_map,
        Nat.sub_self]
      rfl

theorem plug_length (front : Front κ ν) (child : ν) (rest : List (κ × ν)) :
    (plug front child rest).2.length = front.position + rest.length := by
  cases front with
  | none => exact (Nat.zero_add _).symm
  | some parts =>
      simp only [plug, Front.position, List.length_append, List.length_cons]
      omega

theorem insertIdx_after {γ : Type*} (before rest : List γ) (last new : γ) :
    (before ++ last :: rest).insertIdx (before.length + 1) new = before ++ last :: new :: rest := by
  induction before with
  | nil => rfl
  | cons entry before ih =>
      rw [List.cons_append, List.length_cons, List.insertIdx_succ_cons, ih]
      rfl

theorem plug_insertIdx (front : Front κ ν) (child : ν) (rest : List (κ × ν)) (entry : κ × ν) :
    (plug front child rest).2.insertIdx front.position entry =
      (plug front child (entry :: rest)).2 := by
  cases front with
  | none => rfl
  | some parts => exact insertIdx_after parts.2.1 rest (parts.2.2, child) entry

theorem plug_fst (front : Front κ ν) (child : ν) (rest rest' : List (κ × ν)) :
    (plug front child rest).1 = (plug front child rest').1 := by
  cases front <;> rfl

theorem plug_next (front : Front κ ν) (child : ν) (rest : List (κ × ν)) :
    (plug front child rest).2[front.position]? = rest[0]? := by
  cases front with
  | none => rfl
  | some parts =>
      simp only [plug, Front.position]
      rw [List.getElem?_append_right (by omega), Nat.add_sub_cancel_left, List.getElem?_cons_succ]

theorem plug_rest (front : Front κ ν) (child : ν) (rest : List (κ × ν)) :
    plug front child rest = ((plug front child []).1, (plug front child []).2 ++ rest) := by
  cases front with
  | none => rfl
  | some parts => simp only [plug, List.append_assoc, List.cons_append, List.nil_append]

theorem Before.lower_eq (hbefore : Before content low front lower owned held) (child : ν)
    (rest : List (κ × ν)) :
    lower = lowerBound low (plug front child rest).2 front.position := by
  cases front with
  | none => exact hbefore.1
  | some parts =>
      obtain ⟨rfl, -⟩ := hbefore
      simp only [plug, Front.position, lowerBound]
      rw [List.getElem?_append_right (Nat.le_refl _), Nat.sub_self]
      rfl

theorem Behind.upper_eq (hbehind : Behind content high rest upper owned held) (child : ν)
    (front : Front κ ν) :
    upper = upperBound high (plug front child rest).2 front.position := by
  rw [upperBound, plug_next]
  cases rest with
  | nil => exact hbehind.1
  | cons entry others => exact hbehind.1

end Zipper

end Content

section Order

variable [Std.TransCmp cmp] {content : Content κ ν ω} {child : ν}
  {entries : List (κ × ν)} {low high : Option κ} {owned : List ω} {held : List κ}

/-- A child has some room between its bounds. -/
theorem Fenced.room (hfenced : Fenced content child entries low high owned held)
    (hbelow : ∀ child low high owned held, content child low high owned held →
      Below cmp low high) : Below cmp low high := by
  induction hfenced with
  | last isContent => exact hbelow _ _ _ _ _ isContent
  | cons isContent others ih => exact (hbelow _ _ _ _ _ isContent).trans ih

omit [Std.TransCmp cmp] in
theorem Fenced.widen {low' high' : Option κ}
    (hfenced : Fenced content child entries low high owned held)
    (hwiden : ∀ child low low' high high' part keys,
      (∀ key, Above cmp low key → Above cmp low' key) →
      (∀ key, Under cmp high key → Under cmp high' key) →
      content child low high part keys → content child low' high' part keys)
    (hlow : ∀ key, Above cmp low key → Above cmp low' key)
    (hhigh : ∀ key, Under cmp high key → Under cmp high' key) :
    Fenced content child entries low' high' owned held := by
  induction hfenced generalizing low' with
  | last isContent => exact .last (hwiden _ _ _ _ _ _ _ hlow hhigh isContent)
  | cons isContent others ih =>
      exact .cons (hwiden _ _ _ _ _ _ _ hlow (fun _ h => h) isContent)
        (ih (fun _ h => h) hhigh)

theorem Fenced.fences (hfenced : Fenced content child entries low high owned held)
    (hbelow : ∀ child low high owned held, content child low high owned held →
      Below cmp low high) :
    (entries.map Prod.fst).Pairwise (fun key1 key2 => cmp key1 key2 = .lt) ∧
      ∀ entry ∈ entries, Below cmp low (some entry.1) ∧ Below cmp (some entry.1) high := by
  induction hfenced with
  | last isContent => exact ⟨List.Pairwise.nil, fun entry hentry => absurd hentry List.not_mem_nil⟩
  | @cons child next fence rest low high owned owned' held held' isContent others ih =>
      have hfirst := hbelow _ _ _ _ _ isContent
      constructor
      · refine List.pairwise_cons.mpr ⟨?_, ih.1⟩
        intro key hkey
        obtain ⟨entry, hentry, rfl⟩ := List.mem_map.mp hkey
        exact (ih.2 entry hentry).1 fence rfl entry.1 rfl
      · intro entry hentry
        cases List.mem_cons.mp hentry with
        | inl heq =>
            subst heq
            exact ⟨hfirst, others.room hbelow⟩
        | inr hrest =>
            exact ⟨hfirst.trans (ih.2 entry hrest).1, (ih.2 entry hrest).2⟩

theorem Fenced.sorted (hfenced : Fenced content child entries low high owned held)
    (hbelow : ∀ child low high owned held, content child low high owned held →
      Below cmp low high)
    (hheld : ∀ child low high owned held, content child low high owned held →
      held.Pairwise (fun key1 key2 => cmp key1 key2 = .lt) ∧
        ∀ key ∈ held, Within cmp low high key) :
    held.Pairwise (fun key1 key2 => cmp key1 key2 = .lt) ∧
      ∀ key ∈ held, Within cmp low high key := by
  induction hfenced with
  | last isContent => exact hheld _ _ _ _ _ isContent
  | @cons child next fence rest low high owned owned' held held' isContent others ih =>
      obtain ⟨hsorted, hwithin⟩ := hheld _ _ _ _ _ isContent
      have hfirst := hbelow _ _ _ _ _ isContent
      constructor
      · refine List.pairwise_append.mpr ⟨hsorted, ih.1, ?_⟩
        intro key1 hkey1 key2 hkey2
        exact Std.TransCmp.lt_of_isLE_of_lt (hwithin key1 hkey1).ahead (ih.2 key2 hkey2).behind
      · intro key hkey
        cases List.mem_append.mp hkey with
        | inl hleft =>
            exact (hwithin key hleft).widen (fun _ h => h) (Under.widen (others.room hbelow))
        | inr hright => exact (ih.2 key hright).widen (Above.widen hfirst) (fun _ h => h)

end Order

end Fences
