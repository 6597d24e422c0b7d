import Mathlib.Data.List.Basic
import Mathlib.Tactic.Common

/-! # Texts with separators

A text that does not contain the separator is determined by any text that begins with it and the
separator, or ends with the separator and it. -/

namespace IdenGrid.Lib.Fields

theorem append_cons_inj {α : Type*} {x : α} {a a' b b' : List α} (ha : x ∉ a) (ha' : x ∉ a')
    (h : a ++ x :: b = a' ++ x :: b') : a = a' ∧ b = b' := by
  induction a generalizing a' with
  | nil =>
    rcases a' with _ | ⟨y, a'⟩
    · exact ⟨rfl, (List.cons.inj h).2⟩
    · obtain ⟨rfl, -⟩ := List.cons.inj h
      exact absurd List.mem_cons_self ha'
  | cons z a ih =>
    rcases a' with _ | ⟨y, a'⟩
    · obtain ⟨rfl, -⟩ := List.cons.inj h
      exact absurd List.mem_cons_self ha
    · obtain ⟨rfl, htail⟩ := List.cons.inj h
      obtain ⟨rfl, rfl⟩ := ih (fun hz => ha (List.mem_cons_of_mem z hz))
        (fun hz => ha' (List.mem_cons_of_mem z hz)) htail
      exact ⟨rfl, rfl⟩

/-- The first field of a text, and the rest. -/
theorem field_inj (sep : String) {x : Char} (hsep : sep.toList = [x]) {a a' b b' : String}
    (ha : x ∉ a.toList) (ha' : x ∉ a'.toList) (h : a ++ (sep ++ b) = a' ++ (sep ++ b')) :
    a = a' ∧ b = b' := by
  have hlist := congrArg String.toList h
  simp only [String.toList_append, hsep, List.singleton_append] at hlist
  obtain ⟨h1, h2⟩ := append_cons_inj ha ha' hlist
  exact ⟨String.toList_injective h1, String.toList_injective h2⟩

/-- The last field of a text, and what is before it. -/
theorem field_inj_right (sep : String) {x : Char} (hsep : sep.toList = [x]) {a a' b b' : String}
    (hb : x ∉ b.toList) (hb' : x ∉ b'.toList) (h : a ++ sep ++ b = a' ++ sep ++ b') :
    a = a' ∧ b = b' := by
  have hlist := congrArg (fun s => s.toList.reverse) h
  simp only [String.toList_append, hsep, List.reverse_append, List.reverse_singleton,
    List.singleton_append] at hlist
  obtain ⟨h1, h2⟩ := append_cons_inj (mt List.mem_reverse.mp hb) (mt List.mem_reverse.mp hb') hlist
  exact ⟨String.toList_injective (List.reverse_injective h2),
    String.toList_injective (List.reverse_injective h1)⟩

end IdenGrid.Lib.Fields
