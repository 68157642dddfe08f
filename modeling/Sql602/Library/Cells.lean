import Mathlib.Data.List.Perm.Basic

namespace Cells

open scoped List

/-! Lists of cells that are used again: what writing one cell does to the data
that are read off the cells. -/

variable {γ δ : Type*} {live : γ → Bool} {cells : List γ} {j : Nat} {old new : γ}

private theorem filterMap_cons_toList (f : γ → Option δ) (cell : γ) (rest : List γ) :
    (cell :: rest).filterMap f = (f cell).toList ++ rest.filterMap f := by
  cases hcell : f cell <;> simp [hcell]

theorem filterMap_set_perm (f : γ → Option δ) (new : γ) (hcell : cells[j]? = some old) :
    (f old).toList ++ (cells.set j new).filterMap f ~
      (f new).toList ++ cells.filterMap f := by
  obtain ⟨hj, rfl⟩ := List.getElem?_eq_some_iff.mp hcell
  have hbefore : cells.filterMap f ~
      (f cells[j]).toList ++ (cells.eraseIdx j).filterMap f := by
    rw [← filterMap_cons_toList]
    exact (List.getElem_cons_eraseIdx_perm hj).symm.filterMap f
  have hafter : (cells.set j new).filterMap f ~
      (f new).toList ++ (cells.eraseIdx j).filterMap f := by
    rw [← filterMap_cons_toList]
    exact (List.set_perm_cons_eraseIdx hj new).filterMap f
  calc (f cells[j]).toList ++ (cells.set j new).filterMap f
      ~ (f cells[j]).toList ++ ((f new).toList ++ (cells.eraseIdx j).filterMap f) :=
        hafter.append_left _
    _ ~ (f new).toList ++ ((f cells[j]).toList ++ (cells.eraseIdx j).filterMap f) :=
        List.perm_append_comm_assoc _ _ _
    _ ~ (f new).toList ++ cells.filterMap f := hbefore.symm.append_left _

/-! The entries, the cells that satisfy a predicate. -/

private theorem filter_set_perm (live : γ → Bool) (new : γ) (hcell : cells[j]? = some old) :
    (Option.guard live old).toList ++ (cells.set j new).filter live ~
      (Option.guard live new).toList ++ cells.filter live := by
  rw [← List.filterMap_eq_filter]
  exact filterMap_set_perm (Option.guard live) new hcell

theorem filter_set_fill (hcell : cells[j]? = some old) (hold : live old = false)
    (hnew : live new = true) : (cells.set j new).filter live ~ new :: cells.filter live := by
  simpa [Option.guard, hold, hnew] using filter_set_perm live new hcell

/-- Between two states of one cell that are both entries only the entry changes. -/
theorem filter_set_update (hcell : cells[j]? = some old) (hold : live old = true)
    (hnew : live new = true) :
    old :: (cells.set j new).filter live ~ new :: cells.filter live := by
  simpa [Option.guard, hold, hnew] using filter_set_perm live new hcell

theorem filter_set_clear (hcell : cells[j]? = some old) (hold : live old = true)
    (hnew : live new = false) :
    cells.filter live ~ old :: (cells.set j new).filter live := by
  have hperm : old :: (cells.set j new).filter live ~ cells.filter live := by
    simpa [Option.guard, hold, hnew] using filter_set_perm live new hcell
  exact hperm.symm

theorem countP_set_fill (hcell : cells[j]? = some old) (hold : live old = false)
    (hnew : live new = true) : (cells.set j new).countP live = cells.countP live + 1 := by
  rw [List.countP_eq_length_filter, List.countP_eq_length_filter]
  exact (filter_set_fill hcell hold hnew).length_eq

theorem countP_set_update (hcell : cells[j]? = some old) (hold : live old = true)
    (hnew : live new = true) : (cells.set j new).countP live = cells.countP live := by
  rw [List.countP_eq_length_filter, List.countP_eq_length_filter]
  exact Nat.succ.inj (filter_set_update hcell hold hnew).length_eq

end Cells
