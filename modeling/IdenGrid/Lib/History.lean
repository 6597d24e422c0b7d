import Mathlib.Data.List.Basic
import Mathlib.Tactic.Common

/-! # Logs

A log lists what has happened, the newest event first, so that `e :: older <:+ log` says that `e` has
happened after the events `older`. `Every ok log`: each event of the log is admissible with respect
to the older ones. `Distinct f log`: no two events have the same value under `f`.
`Stands q p log`: `q` has happened, and `p` has held since. `since n log`: the
events after the first `n`; `asOf n log`: these `n`. -/

namespace IdenGrid.Lib.History

variable {α : Type*} {ok : α → List α → Prop}

/-- Each event is admissible with respect to the older ones. -/
def Every (ok : α → List α → Prop) : List α → Prop
  | [] => True
  | e :: older => ok e older ∧ Every ok older

theorem Every.of_append {newer older : List α} (h : Every ok (newer ++ older)) : Every ok older := by
  induction newer with
  | nil => exact h
  | cons e newer ih => exact ih h.2

/-- What an event of the log has found. -/
theorem every_iff {log : List α} :
    Every ok log ↔ ∀ newer e older, log = newer ++ e :: older → ok e older := by
  constructor
  · rintro h newer e older rfl
    exact h.of_append.1
  · intro h
    induction log with
    | nil => trivial
    | cons e older ih =>
      refine ⟨h [] e older rfl, ih fun newer x rest heq => ?_⟩
      exact h (e :: newer) x rest (by rw [heq]; rfl)

theorem Every.of_suffix {e : α} {older log : List α} (h : Every ok log)
    (hs : e :: older <:+ log) : ok e older := by
  obtain ⟨newer, rfl⟩ := hs
  exact h.of_append.1

theorem every_of_suffix {log : List α} (h : ∀ e older, e :: older <:+ log → ok e older) :
    Every ok log :=
  every_iff.mpr fun newer e older heq => h e older ⟨newer, heq.symm⟩

/-- Every event has happened after the older ones. -/
theorem exists_suffix {e : α} {log : List α} (h : e ∈ log) : ∃ older, e :: older <:+ log := by
  obtain ⟨newer, older, rfl⟩ := List.append_of_mem h
  exact ⟨older, newer, rfl⟩

theorem suffix_mem {e : α} {older log : List α} (h : e :: older <:+ log) : e ∈ log :=
  h.subset List.mem_cons_self

theorem suffix_of_cons {e : α} {older log : List α} (h : e :: older <:+ log) : older <:+ log :=
  (List.suffix_cons e older).trans h

/-- Of two events one has happened before the other. -/
theorem older_or {x y : α} {log : List α} (hx : x ∈ log) (hy : y ∈ log) (hne : x ≠ y) :
    (∃ older, x :: older <:+ log ∧ y ∈ older) ∨ ∃ older, y :: older <:+ log ∧ x ∈ older := by
  induction log with
  | nil => exact absurd hx List.not_mem_nil
  | cons e log ih =>
    rcases List.mem_cons.mp hx with rfl | hx' <;> rcases List.mem_cons.mp hy with rfl | hy'
    · exact absurd rfl hne
    · exact Or.inl ⟨log, List.suffix_refl _, hy'⟩
    · exact Or.inr ⟨log, List.suffix_refl _, hx'⟩
    · refine (ih hx' hy').imp ?_ ?_ <;>
        exact fun ⟨older, hs, hmem⟩ => ⟨older, hs.trans (List.suffix_cons e log), hmem⟩

/-- An event with `q` has happened, and all events since have `p`. -/
def Stands (q p : α → Prop) : List α → Prop
  | [] => False
  | e :: older => q e ∨ p e ∧ Stands q p older

theorem stands_cons {q p : α → Prop} {e : α} {older : List α} :
    Stands q p (e :: older) ↔ q e ∨ p e ∧ Stands q p older := Iff.rfl

theorem Stands.exists_mem {q p : α → Prop} {log : List α} (h : Stands q p log) : ∃ e ∈ log, q e := by
  induction log with
  | nil => exact h.elim
  | cons e older ih =>
    rcases h with h | ⟨-, h⟩
    · exact ⟨e, List.mem_cons_self, h⟩
    · obtain ⟨x, hx, hq⟩ := ih h
      exact ⟨x, List.mem_cons_of_mem e hx, hq⟩

/-- Each value of `f` occurs at most once. -/
def Distinct {β : Type*} (f : α → Option β) (log : List α) : Prop :=
  Every (fun e older => ∀ b, f e = some b → ∀ x ∈ older, f x ≠ some b) log

theorem Distinct.cons {β : Type*} {f : α → Option β} {e : α} {log : List α} (h : Distinct f log)
    (he : ∀ b, f e = some b → ∀ x ∈ log, f x ≠ some b) : Distinct f (e :: log) := ⟨he, h⟩

theorem Distinct.eq {β : Type*} {f : α → Option β} {log : List α} (h : Distinct f log) {x y : α}
    {b : β} (hx : x ∈ log) (hy : y ∈ log) (hfx : f x = some b) (hfy : f y = some b) : x = y := by
  induction log with
  | nil => exact absurd hx List.not_mem_nil
  | cons e log ih =>
    rcases List.mem_cons.mp hx with rfl | hx' <;> rcases List.mem_cons.mp hy with rfl | hy'
    · rfl
    · exact absurd hfy (h.1 b hfx y hy')
    · exact absurd hfx (h.1 b hfy x hx')
    · exact ih h.2 hx' hy'

/-- The events after the first `n`. -/
def since (n : ℕ) (log : List α) : List α := log.take (log.length - n)

theorem since_length (log : List α) : since log.length log = [] := by
  simp [since]

theorem since_cons {n : ℕ} {e : α} {log : List α} (h : n ≤ log.length) :
    since n (e :: log) = e :: since n log := by
  unfold since
  rw [List.length_cons, Nat.succ_sub h, List.take_succ_cons]

/-- The first `n` events. -/
def asOf (n : ℕ) (log : List α) : List α := log.drop (log.length - n)

@[simp] theorem asOf_length (log : List α) : asOf log.length log = log := by
  simp [asOf]

theorem asOf_cons {n : ℕ} {e : α} {log : List α} (h : n ≤ log.length) :
    asOf n (e :: log) = asOf n log := by
  unfold asOf
  rw [List.length_cons, Nat.succ_sub h, List.drop_succ_cons]

theorem asOf_suffix (n : ℕ) (log : List α) : asOf n log <:+ log := List.drop_suffix _ _

end IdenGrid.Lib.History
