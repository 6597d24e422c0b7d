import IdenGrid.Lib.Run
import Mathlib.Data.Finset.Card

/-! # Requests over a shared state

A *crew* is a shared state and, for every request `r`, a local state: where its handler stands and
what it has read so far. A request moves by `act r`, one atomic step of its handler; any request may
move next, so a run of the crew is an arbitrary interleaving of any number of requests.

`run_solo` is a run in which only one request moves.

`owicki_step` and `run_owicki` are the proof rule: an invariant `I` of the shared state and, for
every request, an assertion `A r` on the shared and its own local state. The request that moves has
to re-establish both, and must not disturb the assertion of any other request. `release_lock` and
`take_lock` are its steps for locks. `Counts` says how many requests are in a state of some kind, and
`Counts.update_same`, `update_enter` and `update_leave` what one step does to that number. -/

namespace IdenGrid.Lib.Requests

open IdenGrid.Lib.Run

variable {σ l α : Type*}

/-- A shared state and the local states of the requests. -/
structure Crew (σ l : Type*) where
  shared : σ
  loc : ℕ → l

/-- One atomic step of one request. -/
def step (act : ℕ → σ → l → α → Option (σ × l)) (c : Crew σ l) (e : ℕ × α) : Option (Crew σ l) :=
  (act e.1 c.shared (c.loc e.1) e.2).map fun p => ⟨p.1, Function.update c.loc e.1 p.2⟩

variable {act : ℕ → σ → l → α → Option (σ × l)}

theorem step_eq_some {c c' : Crew σ l} {e : ℕ × α} :
    step act c e = some c' ↔ ∃ s' m', act e.1 c.shared (c.loc e.1) e.2 = some (s', m') ∧
      c' = ⟨s', Function.update c.loc e.1 m'⟩ := by
  unfold step
  rw [Option.map_eq_some_iff]
  constructor
  · rintro ⟨⟨s', m'⟩, h, rfl⟩; exact ⟨s', m', h, rfl⟩
  · rintro ⟨s', m', h, rfl⟩; exact ⟨(s', m'), h, rfl⟩

/-- A run of one request is a run of the crew. -/
theorem run_solo {r : ℕ} : ∀ {as : List α} {s s' : σ} {m m' : l} {loc : ℕ → l}, loc r = m →
    run (fun p a => act r p.1 p.2 a) (s, m) as = some (s', m') →
      run (step act) ⟨s, loc⟩ (as.map (Prod.mk r)) = some ⟨s', Function.update loc r m'⟩
  | [], s, s', m, m', loc, hloc, h => by
    obtain ⟨rfl, rfl⟩ := Prod.mk.inj (Option.some.inj h)
    rw [← hloc, Function.update_eq_self]
    rfl
  | a :: as, s, s', m, m', loc, hloc, h => by
    obtain ⟨⟨s₁, m₁⟩, hact, h⟩ := run_eq_some_cons.mp h
    have hstep : step act ⟨s, loc⟩ (r, a) = some ⟨s₁, Function.update loc r m₁⟩ :=
      step_eq_some.mpr ⟨s₁, m₁, by rw [← hact, ← hloc], rfl⟩
    have hrest := run_solo (Function.update_self r m₁ loc) h
    rw [Function.update_idem] at hrest
    exact run_eq_some_cons.mpr ⟨_, hstep, hrest⟩

/-- The shared invariant together with the assertions of all requests. -/
def Holds (I : σ → Prop) (A : ℕ → σ → l → Prop) (c : Crew σ l) : Prop :=
  I c.shared ∧ ∀ r, A r c.shared (c.loc r)

/-- One step of a crew: the moving request re-establishes `I` and its own assertion, the assertions
of the others are stable under it. -/
theorem holds_step {I : σ → Prop} {A : ℕ → σ → l → Prop} {c c' : Crew σ l} {e : ℕ × α}
    (hloc : ∀ s' m', act e.1 c.shared (c.loc e.1) e.2 = some (s', m') → I s' ∧ A e.1 s' m')
    (hstable : ∀ s' m', act e.1 c.shared (c.loc e.1) e.2 = some (s', m') →
      ∀ q, q ≠ e.1 → A q s' (c.loc q))
    (hs : step act c e = some c') : Holds I A c' := by
  obtain ⟨s', m', ha, rfl⟩ := step_eq_some.mp hs
  obtain ⟨hI, hA⟩ := hloc s' m' ha
  refine ⟨hI, fun q => ?_⟩
  by_cases hq : q = e.1
  · subst hq
    simpa using hA
  · have := hstable s' m' ha q hq
    simpa [Function.update_of_ne hq] using this

/-- **The step of the rule for interleavings**, where steps meet `C`. -/
theorem owicki_step {C : Crew σ l → ℕ × α → Prop} {I : σ → Prop} {A : ℕ → σ → l → Prop}
    (hloc : ∀ (c : Crew σ l) r a s' m', I c.shared → A r c.shared (c.loc r) → C c (r, a) →
      act r c.shared (c.loc r) a = some (s', m') → I s' ∧ A r s' m')
    (hstable : ∀ (c : Crew σ l) r a s' m' q, I c.shared → A r c.shared (c.loc r) → C c (r, a) →
      act r c.shared (c.loc r) a = some (s', m') → q ≠ r → A q c.shared (c.loc q) →
        A q s' (c.loc q))
    (c : Crew σ l) (e : ℕ × α) (c' : Crew σ l) (hH : Holds I A c) (hC : C c e)
    (hs : step act c e = some c') : Holds I A c' := by
  obtain ⟨r, a⟩ := e
  exact holds_step (fun s' m' ha => hloc c r a s' m' hH.1 (hH.2 r) hC ha)
    (fun s' m' ha q hq => hstable c r a s' m' q hH.1 (hH.2 r) hC ha hq (hH.2 q)) hs

/-- **The rule for interleavings**, for runs whose steps all meet `C`. -/
theorem run_owicki {C : Crew σ l → ℕ × α → Prop} {I : σ → Prop} {A : ℕ → σ → l → Prop}
    (hloc : ∀ (c : Crew σ l) r a s' m', I c.shared → A r c.shared (c.loc r) → C c (r, a) →
      act r c.shared (c.loc r) a = some (s', m') → I s' ∧ A r s' m')
    (hstable : ∀ (c : Crew σ l) r a s' m' q, I c.shared → A r c.shared (c.loc r) → C c (r, a) →
      act r c.shared (c.loc r) a = some (s', m') → q ≠ r → A q c.shared (c.loc q) →
        A q s' (c.loc q))
    {as : List (ℕ × α)} {c t : Crew σ l} (h0 : Holds I A c) (hc : Along (step act) C c as)
    (hr : run (step act) c as = some t) : Holds I A t :=
  run_inv_along (owicki_step hloc hstable) as c t h0 hc hr

/-- A request that does not occur in a run stays where it is. -/
theorem run_loc_of_notMem {q : ℕ} :
    ∀ {as : List (ℕ × α)} {c t : Crew σ l}, run (step act) c as = some t →
      q ∉ as.map Prod.fst → t.loc q = c.loc q
  | [], c, t, hr, _ => by
    obtain rfl : c = t := by simpa using hr
    rfl
  | e :: as, c, t, hr, hq => by
    simp only [List.map_cons, List.mem_cons, not_or] at hq
    obtain ⟨c', hs, hr⟩ := run_eq_some_cons.mp hr
    obtain ⟨s', m', -, rfl⟩ := step_eq_some.mp hs
    rw [run_loc_of_notMem hr hq.2]
    exact Function.update_of_ne hq.1 _ _

/-! ## Locks

`lock` says which request holds the lock of an object. -/

/-- Releasing a lock that is held takes nothing from the others. -/
theorem release_lock {r x : ℕ} {lock : ℕ → Option ℕ} (h : lock x = some r) (q y : ℕ)
    (hq : q ≠ r) (hl : lock y = some q) : Function.update lock x none y = some q := by
  rcases eq_or_ne y x with rfl | hne
  · exact absurd (Option.some.inj (hl.symm.trans h)) hq
  · rw [Function.update_of_ne hne]; exact hl

/-- Nor does taking a free one. -/
theorem take_lock {r x : ℕ} {lock : ℕ → Option ℕ} (h : lock x = none) (q y : ℕ)
    (hl : lock y = some q) : Function.update lock x (some r) y = some q := by
  rcases eq_or_ne y x with rfl | hne
  · rw [h] at hl; cases hl
  · rw [Function.update_of_ne hne]; exact hl

/-! ## Counting requests -/

/-- Exactly `n` requests are in a local state of the kind `p`. -/
def Counts (p : l → Bool) (loc : ℕ → l) (n : ℕ) : Prop :=
  ∃ S : Finset ℕ, (∀ r, r ∈ S ↔ p (loc r) = true) ∧ S.card = n

variable {p : l → Bool} {loc : ℕ → l} {n : ℕ} {r : ℕ} {m : l}

theorem Counts.update_same (h : Counts p loc n) (hm : p m = p (loc r)) :
    Counts p (Function.update loc r m) n := by
  obtain ⟨S, hS, hn⟩ := h
  refine ⟨S, fun q => ?_, hn⟩
  rcases eq_or_ne q r with rfl | hq
  · rw [Function.update_self, hm]; exact hS q
  · rw [Function.update_of_ne hq]; exact hS q

theorem Counts.update_enter (h : Counts p loc n) (hr : p (loc r) = false) (hm : p m = true) :
    Counts p (Function.update loc r m) (n + 1) := by
  obtain ⟨S, hS, hn⟩ := h
  have hnot : r ∉ S := by rw [hS, hr]; exact Bool.false_ne_true
  refine ⟨insert r S, fun q => ?_, by rw [Finset.card_insert_of_notMem hnot, hn]⟩
  rcases eq_or_ne q r with rfl | hq
  · rw [Function.update_self]; simp [hm]
  · rw [Function.update_of_ne hq, Finset.mem_insert, ← hS]; simp [hq]

theorem Counts.update_leave (h : Counts p loc n) (hr : p (loc r) = true) (hm : p m = false) :
    Counts p (Function.update loc r m) (n - 1) ∧ 0 < n := by
  obtain ⟨S, hS, hn⟩ := h
  have hin : r ∈ S := (hS r).mpr hr
  refine ⟨⟨S.erase r, fun q => ?_, by rw [Finset.card_erase_of_mem hin, hn]⟩, ?_⟩
  · rcases eq_or_ne q r with rfl | hq
    · rw [Function.update_self]; simp [hm]
    · rw [Function.update_of_ne hq, Finset.mem_erase, ← hS]; simp [hq]
  · rw [← hn]; exact Finset.card_pos.mpr ⟨r, hin⟩

end IdenGrid.Lib.Requests
