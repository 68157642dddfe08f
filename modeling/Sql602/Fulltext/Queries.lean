import Sql602.Fulltext.Analyser

namespace Sql602.Fulltext

variable {language : Language} {fuel : Nat}

/-! The analyser pushes the negations of the query down to its words. -/

def pushed (negate : Bool) (parsed : Option Query × List Symbol) : Option Node × List Symbol :=
  (parsed.1.map (Query.push negate), parsed.2)

theorem wordNode_push (negate : Bool) (words : List Word) :
    wordNode negate words = (Query.ofWords words).map (Query.push negate) := by
  cases words with
  | nil => rfl
  | cons first next => rfl

theorem joinNodes_and (negate : Bool) (first second : Option Query) :
    joinNodes (!negate) (first.map (Query.push negate)) (second.map (Query.push negate)) =
      (Query.joinAnd first second).map (Query.push negate) := by
  cases first <;> cases second <;> rfl

theorem joinNodes_or (negate : Bool) (first second : Option Query) :
    joinNodes negate (first.map (Query.push negate)) (second.map (Query.push negate)) =
      (Query.joinOr first second).map (Query.push negate) := by
  cases first <;> cases second <;> rfl

structure Pushes (language : Language) (fuel : Nat) : Prop where
  term : ∀ negate symbols, ftAnalTerm language fuel negate symbols =
    (Query.readTerm language fuel symbols).map (pushed negate)
  and : ∀ negate symbols, ftAnalAnd language fuel negate symbols =
    (Query.readAnd language fuel symbols).map (pushed negate)
  ands : ∀ negate query symbols, andLoop language fuel negate (Option.map (Query.push negate) query)
    symbols = (Query.readAnds language fuel query symbols).map (pushed negate)
  or : ∀ negate symbols, ftAnalOr language fuel negate symbols =
    (Query.readOr language fuel symbols).map (pushed negate)
  ors : ∀ negate query symbols, orLoop language fuel negate (Option.map (Query.push negate) query)
    symbols = (Query.readOrs language fuel query symbols).map (pushed negate)

theorem pushes (language : Language) (fuel : Nat) : Pushes language fuel := by
  induction fuel with
  | zero =>
      exact
        { term := fun _ _ => rfl
          and := fun _ _ => rfl
          ands := fun _ _ _ => rfl
          or := fun _ _ => rfl
          ors := fun _ _ _ => rfl }
  | succ fuel ih =>
      constructor
      case term =>
        intro negate symbols
        have hwords : some (wordNode negate (analPhrase language symbols).1,
            (analPhrase language symbols).2) =
              (some (Query.ofWords (analPhrase language symbols).1,
                (analPhrase language symbols).2)).map (pushed negate) := by
          rw [wordNode_push]
          rfl
        cases symbols with
        | nil => exact hwords
        | cons symbol rest =>
            cases symbol with
            | not =>
                simp only [ftAnalTerm, Query.readTerm, ih.term]
                cases Query.readTerm language fuel rest with
                | none => rfl
                | some parsed =>
                    simp only [Option.map_some, pushed, Option.map_map]
                    rfl
            | lpar =>
                simp only [ftAnalTerm, Query.readTerm, ih.or]
                cases Query.readOr language fuel rest with
                | none => rfl
                | some parsed => rfl
            | _ => exact hwords
      case and =>
        intro negate symbols
        simp only [ftAnalAnd, Query.readAnd, ih.term]
        cases Query.readTerm language fuel symbols with
        | none => rfl
        | some parsed => exact ih.ands negate parsed.1 parsed.2
      case ands =>
        intro negate query symbols
        cases symbols with
        | nil => rfl
        | cons symbol rest =>
            cases symbol with
            | and =>
                simp only [andLoop, Query.readAnds, ih.term]
                cases Query.readTerm language fuel rest with
                | none => rfl
                | some parsed =>
                    simp only [Option.map_some, Option.bind_some, pushed, joinNodes_and]
                    exact ih.ands negate (Query.joinAnd query parsed.1) parsed.2
            | _ => rfl
      case or =>
        intro negate symbols
        simp only [ftAnalOr, Query.readOr, ih.and]
        cases Query.readAnd language fuel symbols with
        | none => rfl
        | some parsed => exact ih.ors negate parsed.1 parsed.2
      case ors =>
        intro negate query symbols
        cases symbols with
        | nil => rfl
        | cons symbol rest =>
            cases symbol with
            | or =>
                simp only [orLoop, Query.readOrs, ih.and]
                cases Query.readAnd language fuel rest with
                | none => rfl
                | some parsed =>
                    simp only [Option.map_some, Option.bind_some, pushed, joinNodes_or]
                    exact ih.ors negate (Query.joinOr query parsed.1) parsed.2
            | _ => rfl

theorem analyse_read (symbols : List Symbol) :
    analyseFulltextExpression language symbols =
      (Query.read language symbols).map (Query.push false) := by
  simp only [analyseFulltextExpression, Query.read, (pushes language _).or]
  cases Query.readOr language (3 * symbols.length + 3) symbols with
  | none => rfl
  | some parsed => rfl

/-! The fuel suffices. -/

theorem analWords_length {inphrase caseequal : Bool} {skipped : Nat} {symbols : List Symbol} :
    (analWords language inphrase caseequal skipped symbols).2.length ≤ symbols.length := by
  fun_induction analWords language inphrase caseequal skipped symbols with
  | case1 skipped text rest word =>
      dsimp only
      split
      · simp only [List.length_cons]
        omega
      · simp only [List.length_cons]
        omega
  | case2 skipped text rest word words rest' hrest ih =>
      rw [hrest] at ih
      simp only [List.length_cons] at ih ⊢
      omega
  | case3 skipped text rest _ _ word words rest' hrest ih =>
      rw [hrest] at ih
      simp only [List.length_cons] at ih ⊢
      omega
  | case4 => exact Nat.le_refl _

theorem analPhrase_length {symbols : List Symbol} :
    (analPhrase language symbols).2.length ≤ symbols.length := by
  have hphrase : (dropPhrase symbols).2.length ≤ symbols.length := by
    unfold dropPhrase
    split
    · exact Nat.le_succ _
    · exact Nat.le_refl _
  have hequal : ∀ symbols, (dropEqual symbols).2.length ≤ symbols.length := by
    intro symbols
    unfold dropEqual
    split
    · exact Nat.le_succ _
    · exact Nat.le_refl _
  exact Nat.le_trans analWords_length (Nat.le_trans (hequal _) hphrase)

theorem dropRpar_length {symbols : List Symbol} : (dropRpar symbols).length ≤ symbols.length := by
  unfold dropRpar
  split
  · exact Nat.le_succ _
  · exact Nat.le_refl _

/-- A part of the query was read, and what follows it is left. -/
def Parsed (result : Option (Option Query × List Symbol)) (symbols : List Symbol) : Prop :=
  ∃ query rest, result = some (query, rest) ∧ rest.length ≤ symbols.length

structure Reads (language : Language) (fuel : Nat) : Prop where
  term : ∀ symbols, 3 * symbols.length + 1 ≤ fuel →
    Parsed (Query.readTerm language fuel symbols) symbols
  and : ∀ symbols, 3 * symbols.length + 2 ≤ fuel →
    Parsed (Query.readAnd language fuel symbols) symbols
  ands : ∀ query symbols, 3 * symbols.length + 1 ≤ fuel →
    Parsed (Query.readAnds language fuel query symbols) symbols
  or : ∀ symbols, 3 * symbols.length + 3 ≤ fuel →
    Parsed (Query.readOr language fuel symbols) symbols
  ors : ∀ query symbols, 3 * symbols.length + 1 ≤ fuel →
    Parsed (Query.readOrs language fuel query symbols) symbols

theorem reads (language : Language) (fuel : Nat) : Reads language fuel := by
  induction fuel with
  | zero =>
      constructor
      all_goals
        intros
        omega
  | succ fuel ih =>
      constructor
      case term =>
        intro symbols hfuel
        have hwords : Parsed (some (Query.ofWords (analPhrase language symbols).1,
            (analPhrase language symbols).2)) symbols := ⟨_, _, rfl, analPhrase_length⟩
        cases symbols with
        | nil => exact hwords
        | cons symbol rest =>
            simp only [List.length_cons] at hfuel
            cases symbol with
            | not =>
                obtain ⟨query, left, hread, hleft⟩ := ih.term rest (by omega)
                exact ⟨_, left, by rw [Query.readTerm, hread]; rfl, Nat.le_succ_of_le hleft⟩
            | lpar =>
                obtain ⟨query, left, hread, hleft⟩ := ih.or rest (by omega)
                exact ⟨_, dropRpar left, by rw [Query.readTerm, hread]; rfl,
                  Nat.le_succ_of_le (Nat.le_trans dropRpar_length hleft)⟩
            | _ => exact hwords
      case and =>
        intro symbols hfuel
        obtain ⟨query, left, hread, hleft⟩ := ih.term symbols (by omega)
        obtain ⟨query', left', hread', hleft'⟩ := ih.ands query left (by omega)
        exact ⟨query', left', by rw [Query.readAnd, hread]; exact hread', Nat.le_trans hleft' hleft⟩
      case ands =>
        intro query symbols hfuel
        cases symbols with
        | nil => exact ⟨query, [], rfl, Nat.le_refl _⟩
        | cons symbol rest =>
            cases symbol with
            | and =>
                simp only [List.length_cons] at hfuel
                obtain ⟨second, left, hread, hleft⟩ := ih.term rest (by omega)
                obtain ⟨query', left', hread', hleft'⟩ :=
                  ih.ands (Query.joinAnd query second) left (by omega)
                exact ⟨query', left', by rw [Query.readAnds, hread]; exact hread',
                  Nat.le_succ_of_le (Nat.le_trans hleft' hleft)⟩
            | _ => exact ⟨query, _, rfl, Nat.le_refl _⟩
      case or =>
        intro symbols hfuel
        obtain ⟨query, left, hread, hleft⟩ := ih.and symbols (by omega)
        obtain ⟨query', left', hread', hleft'⟩ := ih.ors query left (by omega)
        exact ⟨query', left', by rw [Query.readOr, hread]; exact hread', Nat.le_trans hleft' hleft⟩
      case ors =>
        intro query symbols hfuel
        cases symbols with
        | nil => exact ⟨query, [], rfl, Nat.le_refl _⟩
        | cons symbol rest =>
            cases symbol with
            | or =>
                simp only [List.length_cons] at hfuel
                obtain ⟨second, left, hread, hleft⟩ := ih.and rest (by omega)
                obtain ⟨query', left', hread', hleft'⟩ :=
                  ih.ors (Query.joinOr query second) left (by omega)
                exact ⟨query', left', by rw [Query.readOrs, hread]; exact hread',
                  Nat.le_succ_of_le (Nat.le_trans hleft' hleft)⟩
            | _ => exact ⟨query, _, rfl, Nat.le_refl _⟩

theorem read_total (symbols : List Symbol) : ∃ query rest,
    Query.readOr language (3 * symbols.length + 3) symbols = some (query, rest) := by
  obtain ⟨query, rest, hread, _⟩ := (reads language _).or symbols (Nat.le_refl _)
  exact ⟨query, rest, hread⟩

/-! The meaning of a query and of its tree, when it is known which words and phrases
occur. -/

namespace Query

def Eval (occurs : List Word → Prop) : Query → Prop
  | words first next => occurs (first :: next)
  | not query => ¬ query.Eval occurs
  | and left right => left.Eval occurs ∧ right.Eval occurs
  | or left right => left.Eval occurs ∨ right.Eval occurs

/-- The alternatives of a query or of its negation: for each of its words, whether it is
negated there. -/
def alternatives : Bool → Query → List (List Bool)
  | negate, words _ _ => [[negate]]
  | negate, not query => query.alternatives (!negate)
  | false, and left right =>
      (left.alternatives false).flatMap fun alternative =>
        (right.alternatives false).map (alternative ++ ·)
  | true, and left right => left.alternatives true ++ right.alternatives true
  | false, or left right => left.alternatives false ++ right.alternatives false
  | true, or left right =>
      (left.alternatives true).flatMap fun alternative =>
        (right.alternatives true).map (alternative ++ ·)

/-- Every alternative contains a word that is not negated. -/
def Grounded (query : Query) : Prop := ∀ alternative ∈ query.alternatives false, false ∈ alternative

instance (query : Query) : Decidable query.Grounded :=
  inferInstanceAs (Decidable (∀ alternative ∈ query.alternatives false, false ∈ alternative))

end Query

namespace Node

def Eval (occurs : List Word → Prop) : Node → Prop
  | word true first next => ¬ occurs (first :: next)
  | word false first next => occurs (first :: next)
  | andor true left right => left.Eval occurs ∧ right.Eval occurs
  | andor false left right => left.Eval occurs ∨ right.Eval occurs

end Node

theorem push_eval {occurs : List Word → Prop} (query : Query) :
    ((query.push false).Eval occurs ↔ query.Eval occurs) ∧
      ((query.push true).Eval occurs ↔ ¬ query.Eval occurs) := by
  induction query with
  | words first next => exact ⟨Iff.rfl, Iff.rfl⟩
  | not query ih =>
      refine ⟨ih.2, ?_⟩
      rw [Query.Eval, Classical.not_not]
      exact ih.1
  | and left right ihl ihr =>
      refine ⟨and_congr ihl.1 ihr.1, ?_⟩
      rw [Query.Eval, Classical.not_and_iff_not_or_not]
      exact or_congr ihl.2 ihr.2
  | or left right ihl ihr =>
      refine ⟨or_congr ihl.1 ihr.1, ?_⟩
      rw [Query.Eval, not_or]
      exact and_congr ihl.2 ihr.2

/-- Without any word a query is true when it has an alternative of negated words only. -/
theorem eval_alternatives (query : Query) :
    (query.Eval (fun _ => False) ↔ ∃ alternative ∈ query.alternatives false, false ∉ alternative) ∧
      (¬ query.Eval (fun _ => False) ↔
        ∃ alternative ∈ query.alternatives true, false ∉ alternative) := by
  induction query with
  | words first next => simp [Query.Eval, Query.alternatives]
  | not query ih =>
      refine ⟨ih.2, ?_⟩
      rw [Query.Eval, Classical.not_not]
      exact ih.1
  | and left right ihl ihr =>
      constructor
      · rw [Query.Eval, ihl.1, ihr.1]
        simp only [Query.alternatives, List.mem_flatMap, List.mem_map]
        constructor
        · rintro ⟨⟨first, hfirst, hnot⟩, second, hsecond, hnot'⟩
          refine ⟨first ++ second, ⟨first, hfirst, second, hsecond, rfl⟩, ?_⟩
          rw [List.mem_append, not_or]
          exact ⟨hnot, hnot'⟩
        · rintro ⟨_, ⟨first, hfirst, second, hsecond, rfl⟩, hnot⟩
          rw [List.mem_append, not_or] at hnot
          exact ⟨⟨first, hfirst, hnot.1⟩, second, hsecond, hnot.2⟩
      · rw [Query.Eval, Classical.not_and_iff_not_or_not, ihl.2, ihr.2]
        simp only [Query.alternatives, List.mem_append, or_and_right, exists_or]
  | or left right ihl ihr =>
      constructor
      · rw [Query.Eval, ihl.1, ihr.1]
        simp only [Query.alternatives, List.mem_append, or_and_right, exists_or]
      · rw [Query.Eval, not_or, ihl.2, ihr.2]
        simp only [Query.alternatives, List.mem_flatMap, List.mem_map]
        constructor
        · rintro ⟨⟨first, hfirst, hnot⟩, second, hsecond, hnot'⟩
          refine ⟨first ++ second, ⟨first, hfirst, second, hsecond, rfl⟩, ?_⟩
          rw [List.mem_append, not_or]
          exact ⟨hnot, hnot'⟩
        · rintro ⟨_, ⟨first, hfirst, second, hsecond, rfl⟩, hnot⟩
          rw [List.mem_append, not_or] at hnot
          exact ⟨⟨first, hfirst, hnot.1⟩, second, hsecond, hnot.2⟩

theorem Query.Grounded.not_eval {query : Query} (hgrounded : query.Grounded) :
    ¬ query.Eval fun _ => False := by
  rw [(eval_alternatives query).1]
  rintro ⟨alternative, hmem, hnot⟩
  exact hnot (hgrounded alternative hmem)

end Sql602.Fulltext
