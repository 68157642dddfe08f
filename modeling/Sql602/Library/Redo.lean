import Mathlib.Data.List.Basic
import Mathlib.Logic.Function.Basic

namespace Redo

/-! Writes to a memory that are done again from the start. -/

variable {κ ν : Type} [DecidableEq κ]

def writeAll (writes : List (κ × ν)) (memory : κ → ν) : κ → ν :=
  writes.foldl (fun memory write => Function.update memory write.1 write.2) memory

variable {writes first rest : List (κ × ν)} {memory other : κ → ν} {key : κ}

theorem writeAll_cons {write : κ × ν} : writeAll (write :: writes) memory =
    writeAll writes (Function.update memory write.1 write.2) := rfl

theorem writeAll_append :
    writeAll (first ++ rest) memory = writeAll rest (writeAll first memory) :=
  List.foldl_append

theorem writeAll_of_notMem (hkey : key ∉ writes.map Prod.fst) :
    writeAll writes memory key = memory key := by
  induction writes generalizing memory with
  | nil => rfl
  | cons write writes ih =>
      rw [List.map_cons, List.mem_cons, not_or] at hkey
      rw [writeAll_cons, ih hkey.2, Function.update_of_ne hkey.1]

/-- What is written does not depend on what was there. -/
theorem writeAll_of_mem (hkey : key ∈ writes.map Prod.fst) :
    writeAll writes memory key = writeAll writes other key := by
  induction writes generalizing memory other with
  | nil => cases hkey
  | cons write writes ih =>
      rw [writeAll_cons, writeAll_cons]
      by_cases hlater : key ∈ writes.map Prod.fst
      · exact ih hlater
      · have hfirst : key = write.1 := (List.mem_cons.mp hkey).resolve_right hlater
        rw [writeAll_of_notMem hlater, writeAll_of_notMem hlater, hfirst, Function.update_self,
          Function.update_self]

/-- A part of the writes before all of them makes no difference. -/
theorem writeAll_again (hpart : ∀ write ∈ first, write ∈ writes) :
    writeAll writes (writeAll first memory) = writeAll writes memory := by
  funext key
  by_cases hkey : key ∈ writes.map Prod.fst
  · exact writeAll_of_mem hkey
  · have hfirst : key ∉ first.map Prod.fst := by
      intro hmem
      obtain ⟨write, hwrite, rfl⟩ := List.mem_map.mp hmem
      exact hkey (List.mem_map_of_mem (hpart write hwrite))
    rw [writeAll_of_notMem hkey, writeAll_of_notMem hkey, writeAll_of_notMem hfirst]

end Redo
