import Mathlib.Computability.Language

namespace Wildcards

/-! Patterns with parts for any character and for any sequence of characters. The language
of a pattern is the product of the languages of its parts. -/

variable {α β γ δ : Type*}

inductive Part (α : Type*) where
  | any
  | one
  | same (c : α)

/-- Characters are equal when `fold` makes them equal. -/
def Part.language (fold : α → β) : Part α → Language α
  | .any => ⊤
  | .one => {word | ∃ c, word = [c]}
  | .same p => {word | ∃ c, word = [c] ∧ fold c = fold p}

def language (fold : α → β) (parts : List (Part α)) : Language α :=
  (parts.map (Part.language fold)).prod

def Part.map (f : α → γ) : Part α → Part γ
  | .any => .any
  | .one => .one
  | .same c => .same (f c)

variable {fold : α → β} {parts : List (Part α)} {c p : α} {word : List α}

theorem language_cons (part : Part α) :
    language fold (part :: parts) = part.language fold * language fold parts := by
  rw [language, List.map_cons, List.prod_cons]
  rfl

@[simp] theorem mem_language_nil : word ∈ language fold [] ↔ word = [] := by
  rw [language, List.map_nil, List.prod_nil, Language.mem_one]

@[simp] theorem nil_mem_any : [] ∈ language fold (.any :: parts) ↔ [] ∈ language fold parts := by
  rw [language_cons, Language.mem_mul]
  constructor
  · rintro ⟨first, -, rest, hrest, happend⟩
    rwa [(List.append_eq_nil_iff.mp happend).2] at hrest
  · intro hnil
    exact ⟨[], Set.mem_univ _, [], hnil, rfl⟩

/-- The sequence is empty, or it has the first character. -/
@[simp] theorem cons_mem_any : c :: word ∈ language fold (.any :: parts) ↔
    c :: word ∈ language fold parts ∨ word ∈ language fold (.any :: parts) := by
  rw [language_cons, Language.mem_mul, Language.mem_mul]
  constructor
  · rintro ⟨first, -, rest, hrest, happend⟩
    cases first with
    | nil =>
        rw [List.nil_append] at happend
        rw [happend] at hrest
        exact Or.inl hrest
    | cons d first =>
        obtain ⟨rfl, rfl⟩ := List.cons.inj happend
        exact Or.inr ⟨first, Set.mem_univ _, rest, hrest, rfl⟩
  · rintro (hrest | ⟨first, -, rest, hrest, happend⟩)
    · exact ⟨[], Set.mem_univ _, c :: word, hrest, rfl⟩
    · exact ⟨c :: first, Set.mem_univ _, rest, hrest, by rw [List.cons_append, happend]⟩

@[simp] theorem nil_mem_one : [] ∈ language fold (.one :: parts) ↔ False := by
  rw [language_cons, Language.mem_mul, iff_false]
  rintro ⟨first, ⟨d, rfl⟩, rest, -, happend⟩
  cases happend

@[simp] theorem cons_mem_one :
    c :: word ∈ language fold (.one :: parts) ↔ word ∈ language fold parts := by
  rw [language_cons, Language.mem_mul]
  constructor
  · rintro ⟨first, ⟨d, rfl⟩, rest, hrest, happend⟩
    obtain ⟨-, rfl⟩ := List.cons.inj happend
    exact hrest
  · intro hword
    exact ⟨[c], ⟨c, rfl⟩, word, hword, rfl⟩

@[simp] theorem nil_mem_same : [] ∈ language fold (.same p :: parts) ↔ False := by
  rw [language_cons, Language.mem_mul, iff_false]
  rintro ⟨first, ⟨d, rfl, -⟩, rest, -, happend⟩
  cases happend

@[simp] theorem cons_mem_same : c :: word ∈ language fold (.same p :: parts) ↔
    fold c = fold p ∧ word ∈ language fold parts := by
  rw [language_cons, Language.mem_mul]
  constructor
  · rintro ⟨first, ⟨d, rfl, hfold⟩, rest, hrest, happend⟩
    obtain ⟨rfl, rfl⟩ := List.cons.inj happend
    exact ⟨hfold, hrest⟩
  · rintro ⟨hfold, hword⟩
    exact ⟨[c], ⟨c, rfl, hfold⟩, word, hword, rfl⟩

/-- Characters may be replaced by others that are equal in the same cases. -/
theorem map_mem_language {f : α → γ} {fold' : γ → δ} (parts : List (Part α)) (word : List α)
    (hfold : ∀ p, Part.same p ∈ parts → ∀ c ∈ word, fold' (f c) = fold' (f p) ↔ fold c = fold p) :
    word.map f ∈ language fold' (parts.map (Part.map f)) ↔ word ∈ language fold parts := by
  induction parts generalizing word with
  | nil => rw [List.map_nil, mem_language_nil, mem_language_nil, List.map_eq_nil_iff]
  | cons part parts ih =>
      have hparts : ∀ word' : List α, (∀ c ∈ word', c ∈ word) →
          (word'.map f ∈ language fold' (parts.map (Part.map f)) ↔
            word' ∈ language fold parts) := fun word' hword' =>
        ih word' fun p hp c hc => hfold p (List.mem_cons_of_mem part hp) c (hword' c hc)
      rw [List.map_cons]
      cases part with
      | any =>
          have hany : ∀ word' : List α, (∀ c ∈ word', c ∈ word) →
              (word'.map f ∈ language fold' (.any :: parts.map (Part.map f)) ↔
                word' ∈ language fold (.any :: parts)) := by
            intro word' hword'
            induction word' with
            | nil => simpa using hparts [] hword'
            | cons c word' ihword =>
                have hrest := ihword fun d hd => hword' d (List.mem_cons_of_mem c hd)
                have hwhole := hparts (c :: word') hword'
                rw [List.map_cons] at hwhole ⊢
                rw [cons_mem_any, cons_mem_any, hwhole, hrest]
          exact hany word fun c hc => hc
      | one =>
          rw [Part.map]
          cases word with
          | nil => simp
          | cons c word =>
              rw [List.map_cons, cons_mem_one, cons_mem_one]
              exact hparts word fun d hd => List.mem_cons_of_mem c hd
      | same p =>
          rw [Part.map]
          cases word with
          | nil => simp
          | cons c word =>
              rw [List.map_cons, cons_mem_same, cons_mem_same,
                hparts word fun d hd => List.mem_cons_of_mem c hd,
                hfold p List.mem_cons_self c List.mem_cons_self]

end Wildcards
