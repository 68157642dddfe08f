import Sql602.Library.Bytes
import Mathlib.Data.List.Basic
import Mathlib.Data.List.Nodup
import Mathlib.Logic.Function.Basic

namespace Chains

open Bytes

variable {ε : Type*}

/-! Entries of variable size that follow each other in a memory. The size of an entry
is read from the entry itself. -/

structure Format (ε : Type*) where
  size : ε → Nat
  lies : Memory → Nat → ε → Prop
  size_pos : ∀ entry, 0 < size entry
  lies_congr : ∀ {memory other : Memory} {pos : Nat} {entry : ε},
    (∀ i, pos ≤ i → i < pos + size entry → memory i = other i) →
      lies memory pos entry → lies other pos entry

/-- The entries lie one after another from a position to another. -/
def Chain (format : Format ε) (memory : Memory) : Nat → List ε → Nat → Prop
  | pos, [], stop => pos = stop
  | pos, entry :: rest, stop =>
      format.lies memory pos entry ∧ Chain format memory (pos + format.size entry) rest stop

variable {format : Format ε} {memory other : Memory} {pos stop : Nat} {entries : List ε}

theorem Chain.length_le (hchain : Chain format memory pos entries stop) :
    pos + entries.length ≤ stop := by
  induction entries generalizing pos with
  | nil => exact Nat.le_of_eq hchain
  | cons entry rest ih =>
      have hrest := ih hchain.2
      have hpos := format.size_pos entry
      rw [List.length_cons]
      omega

theorem Chain.le (hchain : Chain format memory pos entries stop) : pos ≤ stop :=
  Nat.le_trans (Nat.le_add_right pos _) hchain.length_le

/-- The chain depends only on the bytes that it covers. -/
theorem Chain.congr (hchain : Chain format memory pos entries stop)
    (hsame : ∀ i, pos ≤ i → i < stop → memory i = other i) :
    Chain format other pos entries stop := by
  induction entries generalizing pos with
  | nil => exact hchain
  | cons entry rest ih =>
      have hnext := hchain.2.le
      have hpos := format.size_pos entry
      exact ⟨format.lies_congr (fun i hlow hhigh => hsame i hlow (by omega)) hchain.1,
        ih hchain.2 fun i hlow hhigh => hsame i (by omega) hhigh⟩

theorem Chain.snoc {entry : ε} (hchain : Chain format memory pos entries stop)
    (hentry : format.lies memory stop entry) :
    Chain format memory pos (entries ++ [entry]) (stop + format.size entry) := by
  induction entries generalizing pos with
  | nil =>
      obtain rfl : pos = stop := hchain
      exact ⟨hentry, rfl⟩
  | cons first rest ih => exact ⟨hchain.1, ih hchain.2⟩

end Chains

namespace Links

/-! Lists that are linked by one pointer in every element. -/

variable {α : Type*} {next other : α → Option α} {head : Option α} {a b : α}
  {list front rest : List α}

/-- The elements from the head to the one without a next. -/
def Linked (next : α → Option α) : Option α → List α → Prop
  | head, [] => head = none
  | head, a :: rest => head = some a ∧ Linked next (next a) rest

theorem Linked.head_eq (hlinked : Linked next head list) : head = list.head? := by
  cases list with
  | nil => exact hlinked
  | cons a rest => exact hlinked.1

theorem Linked.next_eq (hlinked : Linked next head (front ++ a :: rest)) :
    next a = rest.head? := by
  induction front generalizing head with
  | nil => exact hlinked.2.head_eq
  | cons b front ih => exact ih hlinked.2

/-- Only the pointers in the elements of the list matter. -/
theorem Linked.congr (hlinked : Linked next head list) (hsame : ∀ a ∈ list, next a = other a) :
    Linked other head list := by
  induction list generalizing head with
  | nil => exact hlinked
  | cons a rest ih =>
      refine ⟨hlinked.1, ?_⟩
      rw [← hsame a List.mem_cons_self]
      exact ih hlinked.2 fun b hb => hsame b (List.mem_cons_of_mem _ hb)

/-- A list is determined by its head and the pointers. -/
theorem Linked.unique {same : List α} (hlinked : Linked next head list)
    (hsame : Linked next head same) : list = same := by
  induction list generalizing head same with
  | nil =>
      cases same with
      | nil => rfl
      | cons b same => exact absurd (hlinked.symm.trans hsame.1) (Option.some_ne_none b).symm
  | cons a rest ih =>
      cases same with
      | nil => exact absurd (hsame.symm.trans hlinked.1) (Option.some_ne_none a).symm
      | cons b same =>
          obtain rfl := Option.some.inj (hlinked.1.symm.trans hsame.1)
          rw [ih hlinked.2 hsame.2]

/-- A new first element. -/
theorem Linked.push [DecidableEq α] (hlinked : Linked next head list) (ha : a ∉ list) :
    Linked (Function.update next a head) (some a) (a :: list) := by
  refine ⟨rfl, ?_⟩
  rw [Function.update_self]
  refine hlinked.congr fun b hb => (Function.update_of_ne ?_ ..).symm
  exact fun heq => ha (heq ▸ hb)

/-- An element is taken out behind another one. -/
theorem Linked.unlink [DecidableEq α] (hlinked : Linked next head (front ++ b :: a :: rest))
    (hfront : b ∉ front) (hrest : b ∉ rest) :
    Linked (Function.update next b (next a)) head (front ++ b :: rest) := by
  induction front generalizing head with
  | nil =>
      obtain ⟨hhead, -, hbehind⟩ := hlinked
      refine ⟨hhead, ?_⟩
      rw [Function.update_self]
      refine hbehind.congr fun c hc => (Function.update_of_ne ?_ ..).symm
      exact fun heq => hrest (heq ▸ hc)
  | cons c front ih =>
      rw [List.mem_cons, not_or] at hfront
      refine ⟨hlinked.1, ?_⟩
      rw [Function.update_of_ne (Ne.symm hfront.1)]
      exact ih hlinked.2 hfront.2

/-- A new last element. -/
theorem Linked.snoc [DecidableEq α] (hlinked : Linked next head (front ++ [a])) (ha : a ∉ front)
    (hb : b ∉ front) (hne : b ≠ a) :
    Linked (Function.update (Function.update next a (some b)) b none) head
      (front ++ [a, b]) := by
  induction front generalizing head with
  | nil =>
      refine ⟨hlinked.1, ?_, ?_⟩
      · rw [Function.update_of_ne hne.symm, Function.update_self]
      · rw [Function.update_self]
        rfl
  | cons c front ih =>
      rw [List.mem_cons, not_or] at ha hb
      refine ⟨hlinked.1, ?_⟩
      rw [Function.update_of_ne (Ne.symm hb.1), Function.update_of_ne (Ne.symm ha.1)]
      exact ih hlinked.2 ha.2 hb.2

end Links
