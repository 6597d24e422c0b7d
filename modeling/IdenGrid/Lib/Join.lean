import Mathlib.Data.List.Perm.Subperm
import Mathlib.Tactic.Common

/-! # Inner joins

`joined` is what a SELECT of the left rows of an inner join returns: each as often as it has
partners. Where a key admits one partner at most it is a selection (`joined_eq_filter`). -/

namespace IdenGrid.Lib.Join

variable {α β κ : Type*} {p : α → β → Bool} {l : List α} {r : List β}

/-- The left rows of an inner join on `p`. -/
def joined (p : α → β → Bool) (l : List α) (r : List β) : List α :=
  l.flatMap fun a => (r.filter (p a)).map fun _ => a

theorem joined_cons (a : α) : joined p (a :: l) r =
    List.replicate (r.filter (p a)).length a ++ joined p l r := by
  unfold joined
  rw [List.flatMap_cons, List.map_const']

theorem mem_joined {a : α} : a ∈ joined p l r ↔ a ∈ l ∧ ∃ b ∈ r, p a b = true := by
  unfold joined
  rw [List.mem_flatMap]
  constructor
  · rintro ⟨a', ha, h⟩
    obtain ⟨b, hb, rfl⟩ := List.mem_map.mp h
    obtain ⟨hb, hp⟩ := List.mem_filter.mp hb
    exact ⟨ha, b, hb, hp⟩
  · rintro ⟨ha, b, hb, hp⟩
    exact ⟨a, ha, List.mem_map.mpr ⟨b, List.mem_filter.mpr ⟨hb, hp⟩, rfl⟩⟩

/-- A row has one partner at most, if its partners have one key. -/
theorem length_partners_le {key : β → κ} {q : β → Bool} {k : κ} (hr : (r.map key).Nodup)
    (hq : ∀ b ∈ r, q b = true → key b = k) : (r.filter q).length ≤ 1 := by
  have hnodup : ((r.filter q).map key).Nodup := hr.sublist (List.filter_sublist.map key)
  have hsub : (r.filter q).map key ⊆ [k] := by
    intro x hx
    obtain ⟨b, hb, rfl⟩ := List.mem_map.mp hx
    obtain ⟨hb, hqb⟩ := List.mem_filter.mp hb
    exact List.mem_singleton.mpr (hq b hb hqb)
  have := (List.subperm_of_subset hnodup hsub).length_le
  rwa [List.length_map, List.length_singleton] at this

/-- **A join with one partner at most is a selection.** -/
theorem joined_eq_filter (h : ∀ a ∈ l, (r.filter (p a)).length ≤ 1) :
    joined p l r = l.filter fun a => r.any (p a) := by
  induction l with
  | nil => rfl
  | cons a l ih =>
    obtain ⟨ha, hl⟩ := List.forall_mem_cons.mp h
    rw [joined_cons, ih hl, List.filter_cons]
    by_cases hany : r.any (p a) = true
    · obtain ⟨b, hb, hp⟩ := List.any_eq_true.mp hany
      have hpos : 0 < (r.filter (p a)).length :=
        List.length_pos_of_mem (List.mem_filter.mpr ⟨hb, hp⟩)
      have hone : (r.filter (p a)).length = 1 := by omega
      rw [if_pos hany, hone]
      rfl
    · have hnone : r.filter (p a) = [] :=
        List.filter_eq_nil_iff.mpr fun b hb hp => hany (List.any_eq_true.mpr ⟨b, hb, hp⟩)
      rw [if_neg hany, hnone]
      rfl

end IdenGrid.Lib.Join
