import Mathlib.Data.List.Basic
import Mathlib.Tactic.Common

/-! # Texts and the segments between their delimiters

`segments` takes a text apart at a delimiter, into the first segment and the others; `glue` puts it
together again. `segments_glue` and `glue_segments`: these are inverse to each other on segments
without the delimiter. -/

namespace IdenGrid.Lib.Segments

variable {α : Type*} [DecidableEq α]

/-- The text before the first delimiter, and what stands behind each delimiter up to the next. -/
def segments (d : α) : List α → List α × List (List α)
  | [] => ([], [])
  | c :: t =>
    let (first, others) := segments d t
    if c = d then ([], first :: others) else (c :: first, others)

omit [DecidableEq α] in
/-- Each of the segments behind a delimiter. -/
def tails (d : α) (others : List (List α)) : List α := others.flatMap fun s => d :: s

omit [DecidableEq α] in
def glue (d : α) (first : List α) (others : List (List α)) : List α := first ++ tails d others

variable {d : α}

omit [DecidableEq α] in
theorem tails_cons (s : List α) (others : List (List α)) :
    tails d (s :: others) = d :: (s ++ tails d others) := rfl

theorem glue_segments : ∀ t : List α, glue d (segments d t).1 (segments d t).2 = t
  | [] => rfl
  | c :: t => by
    have ih := glue_segments t
    rw [glue] at ih ⊢
    by_cases hc : c = d
    · simp only [segments, if_pos hc, List.nil_append, tails_cons]
      rw [ih, hc]
    · simp only [segments, if_neg hc, List.cons_append, ih]

theorem segments_free : ∀ t : List α,
    d ∉ (segments d t).1 ∧ ∀ s ∈ (segments d t).2, d ∉ s
  | [] => ⟨List.not_mem_nil, fun s hs => absurd hs List.not_mem_nil⟩
  | c :: t => by
    obtain ⟨hfirst, hothers⟩ := segments_free t
    by_cases hc : c = d
    · simp only [segments, if_pos hc]
      refine ⟨List.not_mem_nil, fun s hs => ?_⟩
      rcases List.mem_cons.mp hs with rfl | hs
      · exact hfirst
      · exact hothers s hs
    · simp only [segments, if_neg hc]
      refine ⟨fun hmem => ?_, hothers⟩
      rcases List.mem_cons.mp hmem with rfl | hmem
      · exact hc rfl
      · exact hfirst hmem

/-- Where two texts meet, their segments meet. -/
theorem segments_append (y : List α) : ∀ x : List α, segments d (x ++ d :: y) =
    ((segments d x).1, (segments d x).2 ++ (segments d y).1 :: (segments d y).2)
  | [] => by
    simp only [segments, List.nil_append, if_true]
  | c :: x => by
    rw [List.cons_append, segments, segments_append y x, segments]
    by_cases hc : c = d
    · simp only [if_pos hc, List.cons_append]
    · simp only [if_neg hc]

theorem segments_of_free : ∀ {t : List α}, d ∉ t → segments d t = (t, [])
  | [], _ => rfl
  | c :: t, h => by
    have hc : c ≠ d := fun hc => h (hc ▸ List.mem_cons_self)
    rw [segments, segments_of_free fun hmem => h (List.mem_cons_of_mem c hmem)]
    simp only [if_neg hc]

/-- **Segments without the delimiter are found again.** -/
theorem segments_glue : ∀ {others : List (List α)} {first : List α}, d ∉ first →
    (∀ s ∈ others, d ∉ s) → segments d (glue d first others) = (first, others)
  | [], first, hfirst, _ => by
    rw [glue, tails, List.flatMap_nil, List.append_nil]
    exact segments_of_free hfirst
  | s :: others, first, hfirst, hothers => by
    obtain ⟨hs, hothers⟩ := List.forall_mem_cons.mp hothers
    have ih := segments_glue hs hothers
    rw [glue] at ih
    rw [glue, tails_cons, segments_append, segments_of_free hfirst, ih]
    rfl

theorem glue_inj {first first' : List α} {others others' : List (List α)} (h : d ∉ first)
    (ho : ∀ s ∈ others, d ∉ s) (h' : d ∉ first') (ho' : ∀ s ∈ others', d ∉ s)
    (heq : glue d first others = glue d first' others') : first = first' ∧ others = others' := by
  have hseg := segments_glue h ho
  rw [heq, segments_glue h' ho'] at hseg
  exact ⟨(Prod.mk.inj hseg).1.symm, (Prod.mk.inj hseg).2.symm⟩

end IdenGrid.Lib.Segments
