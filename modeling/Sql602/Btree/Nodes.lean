import Mathlib.Order.Defs.LinearOrder
import Mathlib.Order.Compare

namespace Sql602.Btree

/-! The nodes of an index tree and the search for a key in one of them. -/

def IBLOCKSIZE : Nat := 4096

def IHDRSIZE : Nat := 4

def BSTACK_LEN : Nat := 15

/-- The values of the parts of an index, with the number of the record. -/
structure Key (α β : Type) where
  value : α
  recnum : β

def MAX_KEY_LEN : Nat := 1000

/-- A key has at least the number of the record. -/
structure IndexDescr (α : Type) where
  keysize : Nat
  distinct : Bool
  hasNulls : Bool
  isNullKey : α → Bool
  cmpValues : α → α → Ordering
  keysize_pos : 0 < keysize
  keysize_le : keysize ≤ MAX_KEY_LEN
  transCmp : Std.TransCmp cmpValues

theorem transCmp_compare : Std.TransCmp (compare : Nat → Nat → Ordering) := inferInstance

/-- Every inner node contains one more pointers than key values. -/
inductive Node (α β : Type) where
  | leaf (keys : List (Key α β))
  | inner (first : Nat) (entries : List (Key α β × Nat))

/-- A page without a node does not have the mark of an index. -/
abbrev Pages (α β : Type) := Nat → Option (Node α β)

variable {α β : Type}

namespace Node

def keys : Node α β → List (Key α β)
  | leaf keys => keys
  | inner _ entries => entries.map Prod.fst

def children : Node α β → List Nat
  | leaf _ => []
  | inner first entries => first :: entries.map Prod.snd

def step (keysize : Nat) : Node α β → Nat
  | leaf _ => keysize
  | inner _ _ => keysize + 4

def dtsize (keysize : Nat) : Node α β → Nat
  | leaf keys => keysize * keys.length
  | inner _ entries => 4 + (keysize + 4) * entries.length

end Node

variable [LinearOrder β]

/-- The first part is true iff keys are the same except for record number. -/
def cmpKeys (index : IndexDescr α) (key1 key2 : Key α β) : Bool × Ordering :=
  match index.cmpValues key1.value key2.value with
  | .eq => (true, compare key1.recnum key2.recnum)
  | other => (false, other)

section Seek

/-- Searching the interval from `lind` up to `rind`. The result is that for `lind`, if it
has been compared. -/
def seekLoop (cmp : Nat → Bool × Ordering) (ignoreRec : Bool) :
    Nat → Nat → Nat → Option (Bool × Ordering) → Nat × Nat × Option (Bool × Ordering)
  | 0, lind, rind, res => (lind, rind, res)
  | fuel + 1, lind, rind, res =>
      if lind + 1 < rind then
        let mind := (lind + rind) / 2
        if (cmp mind).1 && ignoreRec then (mind, rind, some (cmp mind))
        else if (cmp mind).2 = .lt then seekLoop cmp ignoreRec fuel lind mind none
        else if (cmp mind).2 = .eq then (mind, rind, some (cmp mind))
        else seekLoop cmp ignoreRec fuel mind rind (some (cmp mind))
      else (lind, rind, res)

def seek (cmp : Nat → Bool × Ordering) (ignoreRec : Bool) (maxrind : Nat) :
    (Bool × Ordering) × Nat :=
  if maxrind = 0 then ((false, .gt), 0)
  else
    let (lind, rind, found) := seekLoop cmp ignoreRec maxrind 0 maxrind none
    let res := found.getD (cmp lind)
    if res.2 ≠ .gt ∨ (res.1 && ignoreRec) = true then (res, lind)
    else if rind = maxrind then ((false, .gt), rind)
    else (cmp rind, rind)

end Seek

def cmpAt (index : IndexDescr α) (key : Key α β) (keys : List (Key α β)) (i : Nat) :
    Bool × Ordering :=
  match keys[i]? with
  | some other => cmpKeys index key other
  | none => (false, .gt)

/-- The position of the chosen key or branch, with the comparison of its key. -/
def nodeSeek (index : IndexDescr α) (key : Key α β) (node : Node α β) :
    (Bool × Ordering) × Nat :=
  seek (cmpAt index key node.keys) index.distinct node.keys.length

/-! The order that the search goes by: in a distinct index the record number is ignored. -/

def seekOrder (ignoreRec : Bool) (res : Bool × Ordering) : Ordering :=
  if res.1 && ignoreRec then .eq else res.2

/-- Positions before `posit` are passed, and the others are not. -/
structure Sought (cmp : Nat → Bool × Ordering) (ignoreRec : Bool) (count : Nat)
    (result : (Bool × Ordering) × Nat) : Prop where
  bound : result.2 ≤ count
  passed : ∀ i < result.2, seekOrder ignoreRec (cmp i) = .gt
  stopped : result.2 < count →
    result.1 = cmp result.2 ∧ seekOrder ignoreRec (cmp result.2) ≠ .gt
  outside : result.2 = count → result.1 = (false, .gt)

/-- The compared keys go up. -/
def Ascending (cmp : Nat → Bool × Ordering) (ignoreRec : Bool) (count : Nat) : Prop :=
  ∀ i j, i < j → j < count →
    seekOrder ignoreRec (cmp j) ≠ .lt → seekOrder ignoreRec (cmp i) = .gt

section Seek

variable {cmp : Nat → Bool × Ordering} {ignoreRec : Bool} {count fuel lind rind : Nat}
  {res : Option (Bool × Ordering)}

/-- The bounds of the search; the key at the left one is not behind the searched one. -/
structure SeekInv (cmp : Nat → Bool × Ordering) (ignoreRec : Bool) (count : Nat)
    (state : Nat × Nat × Option (Bool × Ordering)) : Prop where
  order : state.1 < state.2.1
  bound : state.2.1 ≤ count
  left : state.1 = 0 ∨ seekOrder ignoreRec (cmp state.1) ≠ .lt
  right : state.2.1 = count ∨ seekOrder ignoreRec (cmp state.2.1) = .lt
  res : ∀ other, state.2.2 = some other → other = cmp state.1

/-- The search ends with one key, or with the key itself. -/
theorem seekLoop_spec (hinv : SeekInv cmp ignoreRec count (lind, rind, res))
    (hfuel : rind ≤ lind + 1 + fuel) :
    SeekInv cmp ignoreRec count (seekLoop cmp ignoreRec fuel lind rind res) ∧
      ((seekLoop cmp ignoreRec fuel lind rind res).2.1 =
          (seekLoop cmp ignoreRec fuel lind rind res).1 + 1 ∨
        seekOrder ignoreRec (cmp (seekLoop cmp ignoreRec fuel lind rind res).1) = .eq) := by
  induction fuel generalizing lind rind res with
  | zero =>
      have horder : lind < rind := hinv.order
      refine ⟨hinv, Or.inl ?_⟩
      change rind = lind + 1
      omega
  | succ fuel ih =>
      have hbound : rind ≤ count := hinv.bound
      unfold seekLoop
      split
      case isFalse hshort =>
        have horder : lind < rind := hinv.order
        refine ⟨hinv, Or.inl ?_⟩
        change rind = lind + 1
        omega
      case isTrue hlong =>
        generalize hmid : (lind + rind) / 2 = mind
        have hlow : lind < mind := by omega
        have hhigh : mind < rind := by omega
        have hfound : seekOrder ignoreRec (cmp mind) = .eq →
            SeekInv cmp ignoreRec count (mind, rind, some (cmp mind)) := by
          intro heq
          refine ⟨hhigh, hbound, Or.inr ?_, hinv.right, ?_⟩
          · rw [heq]
            decide
          · rintro other ⟨⟩
            rfl
        simp only []
        split
        case isTrue hignore =>
          have heq : seekOrder ignoreRec (cmp mind) = .eq := if_pos hignore
          exact ⟨hfound heq, Or.inr heq⟩
        case isFalse hignore =>
          have horder : seekOrder ignoreRec (cmp mind) = (cmp mind).2 := if_neg hignore
          split
          case isTrue hlt =>
            apply ih
            · refine ⟨hlow, Nat.le_trans (Nat.le_of_lt hhigh) hbound, hinv.left, Or.inr (horder.trans hlt), ?_⟩
              rintro other ⟨⟩
            · omega
          case isFalse hlt =>
            split
            case isTrue heq =>
              exact ⟨hfound (horder.trans heq), Or.inr (horder.trans heq)⟩
            case isFalse heq =>
              apply ih
              · refine ⟨hhigh, hbound, Or.inr ?_, hinv.right, ?_⟩
                · rw [horder]
                  exact hlt
                · rintro other ⟨⟩
                  rfl
              · omega

theorem seek_spec (hascending : Ascending cmp ignoreRec count) :
    Sought cmp ignoreRec count (seek cmp ignoreRec count) := by
  unfold seek
  split
  case isTrue hzero =>
    subst hzero
    exact ⟨Nat.le_refl 0, fun i hi => absurd hi (Nat.not_lt_zero i),
      fun h => absurd h (Nat.lt_irrefl 0), fun _ => rfl⟩
  case isFalse hcount =>
    obtain ⟨hinv, hend⟩ := @seekLoop_spec cmp ignoreRec count count 0 count none
      ⟨Nat.pos_of_ne_zero hcount, Nat.le_refl count, Or.inl rfl, Or.inl rfl,
        by rintro other ⟨⟩⟩ (by omega)
    generalize seekLoop cmp ignoreRec count 0 count none = state at hinv hend
    obtain ⟨lind, rind, found⟩ := state
    have horder : lind < rind := hinv.order
    have hbound : rind ≤ count := hinv.bound
    have hres : found.getD (cmp lind) = cmp lind := by
      cases found with
      | none => rfl
      | some other => exact hinv.res other rfl
    have hbefore : ∀ i < lind, seekOrder ignoreRec (cmp i) = .gt := by
      intro i hi
      cases hinv.left with
      | inl hzero =>
          have hzero : lind = 0 := hzero
          omega
      | inr hleft => exact hascending i lind hi (by omega) hleft
    have hstop : ((cmp lind).2 ≠ .gt ∨ ((cmp lind).1 && ignoreRec) = true) ↔
        seekOrder ignoreRec (cmp lind) ≠ .gt := by
      cases hignore : (cmp lind).1 && ignoreRec with
      | true =>
          rw [seekOrder, if_pos hignore]
          exact iff_of_true (Or.inr rfl) (by decide)
      | false =>
          have hnot : ¬ ((cmp lind).1 && ignoreRec) = true := by
            rw [hignore]
            decide
          rw [seekOrder, if_neg hnot]
          simp only [Bool.false_eq_true, or_false]
    simp only [hres]
    split
    case isTrue hstopped =>
      rw [hstop] at hstopped
      exact ⟨Nat.le_of_lt (Nat.lt_of_lt_of_le horder hbound), hbefore,
        fun _ => ⟨rfl, hstopped⟩, fun h => absurd h (Nat.ne_of_lt (by omega))⟩
    case isFalse hpassed =>
      rw [hstop, not_not] at hpassed
      have hnext : rind = lind + 1 := by
        cases hend with
        | inl hnext => exact hnext
        | inr heq =>
            have heq : seekOrder ignoreRec (cmp lind) = .eq := heq
            rw [hpassed] at heq
            cases heq
      have hall : ∀ i < rind, seekOrder ignoreRec (cmp i) = .gt := by
        intro i hi
        cases Nat.lt_or_eq_of_le (show i ≤ lind by omega) with
        | inl hlow => exact hbefore i hlow
        | inr heq => exact heq ▸ hpassed
      split
      case isTrue hlast =>
        exact ⟨hbound, hall, fun h => absurd hlast (Nat.ne_of_lt h), fun _ => rfl⟩
      case isFalse hlast =>
        have hlt : seekOrder ignoreRec (cmp rind) = .lt :=
          hinv.right.resolve_left hlast
        refine ⟨hbound, hall, fun _ => ⟨rfl, ?_⟩, fun h => absurd h hlast⟩
        change seekOrder ignoreRec (cmp rind) ≠ .gt
        rw [hlt]
        decide

end Seek

end Sql602.Btree
