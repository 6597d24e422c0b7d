import IdenGrid.Lib.Run
import Mathlib.Data.Finset.Card

/-! # Changes of a schema

A schema is the set of its objects. A change adds an object, which may need others, or drops one; it
fails if there is nothing to do. A plan is a list of changes that looks at the schema first and leaves
out what is done already (`due`).

`run_due`: a plan whose changes come in order (`Ordered`) does not fail, and leads to the schema with
all that it wants and nothing that it drops (`settled`). `settled_exec`: every single change leaves
that goal where it is, so that a plan may be interrupted after any change and made anew. -/

namespace IdenGrid.Lib.Ddl

open IdenGrid.Lib.Run

variable {ι : Type*}

inductive Change (ι : Type*)
  | add (item : ι) (needs : List ι)
  | drop (item : ι)
  deriving DecidableEq, Repr

namespace Change

def item : Change ι → ι
  | add x _ => x
  | drop x => x

variable [DecidableEq ι]

/-- One statement; each commits on its own. -/
def exec (s : Finset ι) : Change ι → Option (Finset ι)
  | add x needs => if x ∉ s ∧ ∀ y ∈ needs, y ∈ s then some (insert x s) else none
  | drop x => if x ∈ s then some (s.erase x) else none

/-- There is something to do. -/
def due (s : Finset ι) : Change ι → Bool
  | add x _ => x ∉ s
  | drop x => x ∈ s

theorem due_congr {s t : Finset ι} {c : Change ι} (h : c.item ∈ s ↔ c.item ∈ t) :
    c.due s = c.due t := by
  cases c with
  | add x needs =>
    change x ∈ s ↔ x ∈ t at h
    simp only [due, h]
  | drop x =>
    change x ∈ s ↔ x ∈ t at h
    simp only [due, h]

end Change

variable [DecidableEq ι]

/-- What the changes add. -/
def wanted (cs : List (Change ι)) : Finset ι :=
  (cs.filterMap fun c => match c with
    | .add x _ => some x
    | .drop _ => none).toFinset

/-- What they drop. -/
def unwanted (cs : List (Change ι)) : Finset ι :=
  (cs.filterMap fun c => match c with
    | .add _ _ => none
    | .drop x => some x).toFinset

/-- Where the changes lead. -/
def settled (cs : List (Change ι)) (s : Finset ι) : Finset ι := (s ∪ wanted cs) \ unwanted cs

theorem mem_wanted {cs : List (Change ι)} {x : ι} :
    x ∈ wanted cs ↔ ∃ needs, Change.add x needs ∈ cs := by
  simp only [wanted, List.mem_toFinset, List.mem_filterMap]
  constructor
  · rintro ⟨c, hc, hx⟩
    cases c with
    | add y needs => exact ⟨needs, by simpa [Option.some.inj hx] using hc⟩
    | drop y => exact absurd hx.symm (Option.some_ne_none _)
  · rintro ⟨needs, hc⟩
    exact ⟨_, hc, rfl⟩

theorem mem_unwanted {cs : List (Change ι)} {x : ι} : x ∈ unwanted cs ↔ Change.drop x ∈ cs := by
  simp only [unwanted, List.mem_toFinset, List.mem_filterMap]
  constructor
  · rintro ⟨c, hc, hx⟩
    cases c with
    | add y needs => exact absurd hx.symm (Option.some_ne_none _)
    | drop y => simpa [Option.some.inj hx] using hc
  · intro hc
    exact ⟨_, hc, rfl⟩

theorem mem_settled {cs : List (Change ι)} {s : Finset ι} {x : ι} :
    x ∈ settled cs s ↔ (x ∈ s ∨ x ∈ wanted cs) ∧ x ∉ unwanted cs := by
  simp [settled]

/-- Each change has its needs from `base` or from the changes before it, no object is changed twice,
and nothing that `base` has is dropped. -/
def Ordered (base : Finset ι) : List (Change ι) → Prop
  | [] => True
  | .add x needs :: cs =>
    (∀ y ∈ needs, y ∈ base) ∧ x ∉ cs.map Change.item ∧ Ordered (insert x base) cs
  | .drop x :: cs => x ∉ base ∧ x ∉ cs.map Change.item ∧ Ordered base cs

instance decidableOrdered (base : Finset ι) : ∀ cs : List (Change ι), Decidable (Ordered base cs)
  | [] => inferInstanceAs (Decidable True)
  | .add x needs :: cs =>
    have := decidableOrdered (insert x base) cs
    inferInstanceAs (Decidable ((∀ y ∈ needs, y ∈ base) ∧ x ∉ cs.map Change.item ∧ _))
  | .drop x :: cs =>
    have := decidableOrdered base cs
    inferInstanceAs (Decidable (x ∉ base ∧ x ∉ cs.map Change.item ∧ _))

/-- The other changes are due as before. -/
theorem filter_due_congr {s t : Finset ι} {cs : List (Change ι)} {x : ι}
    (hx : x ∉ cs.map Change.item) (h : ∀ y, y ≠ x → (y ∈ s ↔ y ∈ t)) :
    cs.filter (Change.due s) = cs.filter (Change.due t) := by
  refine List.filter_congr fun c hc => Change.due_congr (h _ fun heq => hx ?_)
  exact List.mem_map.mpr ⟨c, hc, heq⟩

/-- **A plan does not fail, and settles the schema.** -/
theorem run_due {base s : Finset ι} {cs : List (Change ι)} (ho : Ordered base cs)
    (hbase : base ⊆ s) :
    run Change.exec s (cs.filter (Change.due s)) = some (settled cs s) := by
  induction cs generalizing base s with
  | nil => simp [settled, wanted, unwanted]
  | cons c cs ih =>
    cases c with
    | add x needs =>
      obtain ⟨hneeds, hx, ho⟩ := ho
      have hgoal : settled cs (insert x s) = settled (.add x needs :: cs) s := by
        ext y
        rw [mem_settled, mem_settled, mem_wanted, mem_wanted, mem_unwanted, mem_unwanted]
        simp only [Finset.mem_insert, List.mem_cons, Change.add.injEq, reduceCtorEq, false_or]
        constructor
        · rintro ⟨(rfl | hy) | ⟨n, hy⟩, hout⟩
          · exact ⟨Or.inr ⟨needs, Or.inl ⟨rfl, rfl⟩⟩, hout⟩
          · exact ⟨Or.inl hy, hout⟩
          · exact ⟨Or.inr ⟨n, Or.inr hy⟩, hout⟩
        · rintro ⟨hy | ⟨n, ⟨rfl, -⟩ | hy⟩, hout⟩
          · exact ⟨Or.inl (Or.inr hy), hout⟩
          · exact ⟨Or.inl (Or.inl rfl), hout⟩
          · exact ⟨Or.inr ⟨n, hy⟩, hout⟩
      have hrest : run Change.exec (insert x s) (cs.filter (Change.due s)) =
          some (settled (.add x needs :: cs) s) := by
        rw [filter_due_congr (t := insert x s) hx fun y hy => by simp [hy], ih ho ?_, hgoal]
        exact Finset.insert_subset_insert x hbase
      by_cases hin : x ∈ s
      · rw [List.filter_cons_of_neg (by simp [Change.due, hin])]
        rwa [Finset.insert_eq_of_mem hin] at hrest
      · rw [List.filter_cons_of_pos (by simp [Change.due, hin]), run_cons]
        have hexec : Change.exec s (.add x needs) = some (insert x s) :=
          if_pos ⟨hin, fun y hy => hbase (hneeds y hy)⟩
        rw [hexec]
        exact hrest
    | drop x =>
      obtain ⟨hkeep, hx, ho⟩ := ho
      have hnot : ∀ n, Change.add x n ∉ cs := fun n hn => hx (List.mem_map.mpr ⟨_, hn, rfl⟩)
      have hgoal : settled cs (s.erase x) = settled (.drop x :: cs) s := by
        ext y
        rw [mem_settled, mem_settled, mem_wanted, mem_wanted, mem_unwanted, mem_unwanted]
        simp only [Finset.mem_erase, List.mem_cons, Change.drop.injEq, reduceCtorEq, false_or,
          not_or]
        constructor
        · rintro ⟨⟨hne, hy⟩ | ⟨n, hy⟩, hout⟩
          · exact ⟨Or.inl hy, hne, hout⟩
          · refine ⟨Or.inr ⟨n, hy⟩, ?_, hout⟩
            rintro rfl
            exact hnot n hy
        · rintro ⟨hy | hy, hne, hout⟩
          · exact ⟨Or.inl ⟨hne, hy⟩, hout⟩
          · exact ⟨Or.inr hy, hout⟩
      have hrest : run Change.exec (s.erase x) (cs.filter (Change.due s)) =
          some (settled (.drop x :: cs) s) := by
        rw [filter_due_congr (t := s.erase x) hx fun y hy => by simp [hy], ih ho ?_, hgoal]
        intro y hy
        exact Finset.mem_erase.mpr ⟨fun heq => hkeep (heq ▸ hy), hbase hy⟩
      by_cases hin : x ∈ s
      · rw [List.filter_cons_of_pos (by simpa [Change.due] using hin), run_cons]
        have hexec : Change.exec s (.drop x) = some (s.erase x) := if_pos hin
        rw [hexec]
        exact hrest
      · rw [List.filter_cons_of_neg (by simpa [Change.due] using hin)]
        rwa [Finset.erase_eq_of_notMem hin] at hrest

/-- **One change leaves the goal where it is.** -/
theorem settled_exec {cs : List (Change ι)} {s s' : Finset ι} {c : Change ι} (hc : c ∈ cs)
    (h : c.exec s = some s') : settled cs s' = settled cs s := by
  cases c with
  | add x needs =>
    simp only [Change.exec] at h
    split_ifs at h
    obtain rfl := Option.some.inj h
    have hx : x ∈ wanted cs := mem_wanted.mpr ⟨needs, hc⟩
    ext y
    rw [mem_settled, mem_settled, Finset.mem_insert]
    constructor
    · rintro ⟨(rfl | hy) | hy, hout⟩
      · exact ⟨Or.inr hx, hout⟩
      · exact ⟨Or.inl hy, hout⟩
      · exact ⟨Or.inr hy, hout⟩
    · rintro ⟨hy | hy, hout⟩
      · exact ⟨Or.inl (Or.inr hy), hout⟩
      · exact ⟨Or.inr hy, hout⟩
  | drop x =>
    simp only [Change.exec] at h
    split_ifs at h
    obtain rfl := Option.some.inj h
    have hx : x ∈ unwanted cs := mem_unwanted.mpr hc
    ext y
    rw [mem_settled, mem_settled, Finset.mem_erase]
    constructor
    · rintro ⟨⟨-, hy⟩ | hy, hout⟩
      · exact ⟨Or.inl hy, hout⟩
      · exact ⟨Or.inr hy, hout⟩
    · rintro ⟨hy | hy, hout⟩
      · refine ⟨Or.inl ⟨?_, hy⟩, hout⟩
        rintro rfl
        exact hout hx
      · exact ⟨Or.inr hy, hout⟩

/-- What no change is about stays as it is. -/
theorem mem_exec {s s' : Finset ι} {c : Change ι} {x : ι} (hx : x ≠ c.item)
    (h : c.exec s = some s') : x ∈ s' ↔ x ∈ s := by
  cases c with
  | add y needs =>
    change x ≠ y at hx
    simp only [Change.exec] at h
    split_ifs at h
    obtain rfl := Option.some.inj h
    simp [hx]
  | drop y =>
    change x ≠ y at hx
    simp only [Change.exec] at h
    split_ifs at h
    obtain rfl := Option.some.inj h
    simp [hx]

/-- Nor is anything lost that no change drops. -/
theorem subset_exec {base s s' : Finset ι} {c : Change ι} (hc : ∀ x, c = .drop x → x ∉ base)
    (hbase : base ⊆ s) (h : c.exec s = some s') : base ⊆ s' := by
  intro y hy
  cases c with
  | add x needs =>
    simp only [Change.exec] at h
    split_ifs at h
    obtain rfl := Option.some.inj h
    exact Finset.mem_insert_of_mem (hbase hy)
  | drop x =>
    simp only [Change.exec] at h
    split_ifs at h
    obtain rfl := Option.some.inj h
    refine Finset.mem_erase.mpr ⟨?_, hbase hy⟩
    rintro rfl
    exact hc y rfl hy

/-- One plan after the other, where the second adds nothing that the first drops. -/
theorem settled_append {cs ds : List (Change ι)} (s : Finset ι)
    (h : ∀ x needs, Change.add x needs ∈ ds → Change.drop x ∉ cs) :
    settled (cs ++ ds) s = settled ds (settled cs s) := by
  ext x
  simp only [mem_settled, mem_wanted, mem_unwanted, List.mem_append]
  constructor
  · rintro ⟨hx | ⟨needs, hx | hx⟩, hout⟩
    · exact ⟨Or.inl ⟨Or.inl hx, fun h => hout (Or.inl h)⟩, fun h => hout (Or.inr h)⟩
    · exact ⟨Or.inl ⟨Or.inr ⟨needs, hx⟩, fun h => hout (Or.inl h)⟩, fun h => hout (Or.inr h)⟩
    · exact ⟨Or.inr ⟨needs, hx⟩, fun h => hout (Or.inr h)⟩
  · rintro ⟨⟨hx | ⟨needs, hx⟩, hout⟩ | ⟨needs, hx⟩, hout'⟩
    · exact ⟨Or.inl hx, fun hor => hor.elim hout hout'⟩
    · exact ⟨Or.inr ⟨needs, Or.inl hx⟩, fun hor => hor.elim hout hout'⟩
    · exact ⟨Or.inr ⟨needs, Or.inr hx⟩, fun hor => hor.elim (h x needs hx) hout'⟩

/-- A plan keeps its base. -/
theorem Ordered.notMem_base {base : Finset ι} {cs : List (Change ι)} (ho : Ordered base cs) {x : ι}
    (hdrop : Change.drop x ∈ cs) : x ∉ base := by
  induction cs generalizing base with
  | nil => exact absurd hdrop List.not_mem_nil
  | cons c cs ih =>
    cases c with
    | add y n =>
      have hrest : Change.drop x ∈ cs := by simpa using hdrop
      exact fun hx => ih ho.2.2 hrest (Finset.mem_insert_of_mem hx)
    | drop y =>
      rcases List.mem_cons.mp hdrop with heq | hdrop
      · obtain rfl := Change.drop.inj heq
        exact ho.1
      · exact ih ho.2.2 hdrop

/-- Nothing is both wanted and dropped. -/
theorem Ordered.disjoint {base : Finset ι} {cs : List (Change ι)} (ho : Ordered base cs) {x : ι}
    {needs : List ι} (hadd : Change.add x needs ∈ cs) : Change.drop x ∉ cs := by
  have hitem : ∀ {cs : List (Change ι)} {c : Change ι}, c ∈ cs → c.item ∈ cs.map Change.item :=
    fun hc => List.mem_map.mpr ⟨_, hc, rfl⟩
  induction cs generalizing base with
  | nil => exact absurd hadd List.not_mem_nil
  | cons c cs ih =>
    intro hdrop
    cases c with
    | add y n =>
      obtain ⟨-, hy, ho⟩ := ho
      have hrest : Change.drop x ∈ cs := by simpa using hdrop
      rcases List.mem_cons.mp hadd with heq | hadd
      · obtain ⟨rfl, -⟩ := Change.add.inj heq
        exact hy (hitem hrest)
      · exact ih ho hadd hrest
    | drop y =>
      obtain ⟨-, hy, ho⟩ := ho
      have hrest : Change.add x needs ∈ cs := by simpa using hadd
      rcases List.mem_cons.mp hdrop with heq | hdrop
      · obtain rfl := Change.drop.inj heq
        exact hy (hitem hrest)
      · exact ih ho hrest hdrop

/-- Nothing is due once the schema is settled. -/
theorem filter_due_settled {base : Finset ι} {cs : List (Change ι)} (ho : Ordered base cs)
    (s : Finset ι) : cs.filter (Change.due (settled cs s)) = [] := by
  rw [List.filter_eq_nil_iff]
  intro c hc
  cases c with
  | add x needs =>
    have hx : x ∈ settled cs s := mem_settled.mpr
      ⟨Or.inr (mem_wanted.mpr ⟨needs, hc⟩), fun h => ho.disjoint hc (mem_unwanted.mp h)⟩
    simp [Change.due, hx]
  | drop x =>
    have hx : x ∉ settled cs s := fun h => (mem_settled.mp h).2 (mem_unwanted.mpr hc)
    simp [Change.due, hx]

end IdenGrid.Lib.Ddl
