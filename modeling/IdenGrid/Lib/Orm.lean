import Mathlib.Tactic.Common

/-! # Writing back only the changed columns

A unit of work loads a row, changes some attributes in memory and later writes the row back. Only
the columns whose value differs from the loaded one are written; the others keep whatever the
database holds by then. `col loaded new cur` is the column after the write. -/

namespace IdenGrid.Lib.Orm

variable {β : Type*} [DecidableEq β]

/-- The column after the write-back: `cur` is what the database holds at the write. -/
def col (loaded new cur : β) : β := if new = loaded then cur else new

@[simp] theorem col_same (a cur : β) : col a a cur = cur := by simp [col]

@[simp] theorem col_current (loaded new : β) : col loaded new loaded = new := by
  unfold col; split_ifs with h
  · exact h.symm
  · rfl

theorem col_of_ne {loaded new : β} (h : new ≠ loaded) (cur : β) : col loaded new cur = new :=
  if_neg h

theorem col_eq_or (loaded new cur : β) : col loaded new cur = new ∨ col loaded new cur = cur := by
  unfold col; split_ifs
  · exact Or.inr rfl
  · exact Or.inl rfl

@[simp] theorem col_succ (n cur : ℕ) : col n (n + 1) cur = n + 1 := col_of_ne (by simp) cur

end IdenGrid.Lib.Orm
