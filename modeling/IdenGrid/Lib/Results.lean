import Mathlib.Tactic.Common

/-! # Results that may be errors -/

namespace IdenGrid.Lib.Results

theorem map_eq_ok {ε α β : Type} {x : Except ε α} {f : α → β} {b : β} :
    x.map f = .ok b ↔ ∃ a, x = .ok a ∧ f a = b := by
  cases x with
  | error e => simp [Except.map]
  | ok a => simp [Except.map]

theorem map_eq_error {ε α β : Type} {x : Except ε α} {f : α → β} {e : ε} :
    x.map f = .error e ↔ x = .error e := by
  cases x with
  | error e => simp [Except.map]
  | ok a => simp [Except.map]

theorem bind_eq_ok {ε α β : Type} {x : Except ε α} {f : α → Except ε β} {b : β} :
    x >>= f = .ok b ↔ ∃ a, x = .ok a ∧ f a = .ok b := by
  cases x with
  | error e => simp [bind, Except.bind]
  | ok a => simp [bind, Except.bind]

theorem bind_eq_error {ε α β : Type} {x : Except ε α} {f : α → Except ε β} {e : ε} :
    x >>= f = .error e ↔ x = .error e ∨ ∃ a, x = .ok a ∧ f a = .error e := by
  cases x with
  | error e => simp [bind, Except.bind]
  | ok a => simp [bind, Except.bind]

/-- What is known of each result is known of all of them. -/
theorem mapM_map {ε α β γ : Type} {f : α → Except ε β} {g : β → γ} {k : α → γ} {l : List α}
    (h : ∀ a ∈ l, ∃ b, f a = .ok b ∧ g b = k a) :
    ∃ bs, l.mapM f = .ok bs ∧ bs.map g = l.map k := by
  induction l with
  | nil => exact ⟨[], rfl, rfl⟩
  | cons a l ih =>
    obtain ⟨⟨b, hb, hg⟩, hl⟩ := List.forall_mem_cons.mp h
    obtain ⟨bs, hbs, hmap⟩ := ih hl
    refine ⟨b :: bs, ?_, ?_⟩
    · rw [List.mapM_cons, hb, hbs]
      rfl
    · rw [List.map_cons, List.map_cons, hg, hmap]

theorem mapM_isOk {ε α β : Type} {f : α → Except ε β} {l : List α}
    (h : ∀ a ∈ l, ∃ b, f a = .ok b) : ∃ bs, l.mapM f = .ok bs := by
  have hunit : ∀ a ∈ l, ∃ b, f a = .ok b ∧ () = () := fun a ha => (h a ha).imp fun _ hb => ⟨hb, rfl⟩
  obtain ⟨bs, hbs, -⟩ := mapM_map hunit
  exact ⟨bs, hbs⟩

theorem mapM_eq_some {α β : Type} {f : α → Option β} {l : List α} {ys : List β} :
    l.mapM f = some ys ↔ (∀ x ∈ l, f x ≠ none) ∧ l.filterMap f = ys := by
  induction l generalizing ys with
  | nil => simp
  | cons x l ih =>
    rw [List.mapM_cons]
    rcases hx : f x with _ | y
    · simp [hx]
    · simp only [Option.bind_eq_bind, Option.bind_some, Option.bind_eq_some_iff, ih,
        Option.pure_def, Option.some.injEq, List.filterMap_cons, hx, List.forall_mem_cons]
      constructor
      · rintro ⟨ys, ⟨hl, rfl⟩, rfl⟩
        exact ⟨⟨by simp, hl⟩, rfl⟩
      · rintro ⟨⟨-, hl⟩, rfl⟩
        exact ⟨_, ⟨hl, rfl⟩, rfl⟩

theorem mapM_cons_eq_some {α β : Type} {f : α → Option β} {x : α} {l : List α} {ys : List β} :
    (x :: l).mapM f = some ys ↔ ∃ y zs, f x = some y ∧ l.mapM f = some zs ∧ ys = y :: zs := by
  simp only [List.mapM_cons, Option.bind_eq_bind, Option.bind_eq_some_iff, Option.pure_def,
    Option.some.injEq]
  constructor
  · rintro ⟨y, hy, zs, hzs, rfl⟩
    exact ⟨y, zs, hy, hzs, rfl⟩
  · rintro ⟨y, zs, hy, hzs, rfl⟩
    exact ⟨y, hy, zs, hzs, rfl⟩

theorem length_of_mapM {α β : Type} {f : α → Option β} : ∀ {l : List α} {ys : List β},
    l.mapM f = some ys → ys.length = l.length
  | [], _, h => by
    rw [List.mapM_nil] at h
    cases h
    rfl
  | x :: l, ys, h => by
    obtain ⟨y, zs, -, hzs, rfl⟩ := mapM_cons_eq_some.mp h
    rw [List.length_cons, List.length_cons, length_of_mapM hzs]

end IdenGrid.Lib.Results
