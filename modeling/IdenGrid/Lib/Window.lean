import Mathlib.Algebra.Order.Group.Defs
import Mathlib.Data.List.Induction
import Mathlib.Logic.Function.Basic
import Mathlib.Tactic.Common

/-! # Sliding windows over the requests of many keys

A limiter keeps for each key the times of the requests it let pass. A request passes where fewer
than `limit` of them lie within the last `width`; the list of its key is pruned then, and only then.
Times are of an ordered group.

* `tracks_after`: after any requests in order of time, the pruned list of a key says as much about a
  window that ends now as all that has passed;
* `passed_in_window_le`: no more than `limit` requests of a key pass within any stretch shorter than
  `width`;
* `admits_after_iff`: what is refused;
* `after_filter`: the requests of the other keys do not matter. -/

namespace IdenGrid.Lib.Window

variable {κ τ : Type*} [DecidableEq κ]

/-- The times of the requests of a key. -/
def times (key : κ) (es : List (κ × τ)) : List τ := (es.filter (·.1 = key)).map Prod.snd

@[simp] theorem times_nil (key : κ) : times key ([] : List (κ × τ)) = [] := rfl

theorem times_append (key : κ) (es fs : List (κ × τ)) :
    times key (es ++ fs) = times key es ++ times key fs := by
  rw [times, List.filter_append, List.map_append]
  rfl

theorem times_singleton (key : κ) (e : κ × τ) :
    times key [e] = if e.1 = key then [e.2] else [] := by
  by_cases h : e.1 = key
  · simp [times, h]
  · simp [times, h]

theorem mem_times {key : κ} {t : τ} {es : List (κ × τ)} : t ∈ times key es ↔ (key, t) ∈ es := by
  simp only [times, List.mem_map, List.mem_filter, decide_eq_true_eq]
  constructor
  · rintro ⟨e, ⟨he, rfl⟩, rfl⟩
    exact he
  · intro h
    exact ⟨(key, t), ⟨h, rfl⟩, rfl⟩

variable [AddCommGroup τ] [LinearOrder τ]

/-- How many requests of a key may pass in how much time. -/
structure Limits (κ τ : Type*) where
  limit : κ → ℕ
  width : κ → τ

/-- What of a list lies within the window that ends now. -/
def recent (width now : τ) (seen : List τ) : List τ := seen.filter fun t => now - width < t

section Limiter

variable (L : Limits κ τ)

/-- Does the request pass? -/
def admits (table : κ → List τ) (e : κ × τ) : Bool :=
  (recent (L.width e.1) e.2 (table e.1)).length < L.limit e.1

/-- The lists after a request. -/
def next (table : κ → List τ) (e : κ × τ) : κ → List τ :=
  if admits L table e then
    Function.update table e.1 (recent (L.width e.1) e.2 (table e.1) ++ [e.2])
  else table

/-- The lists after these requests. -/
def after (table : κ → List τ) (es : List (κ × τ)) : κ → List τ := es.foldl (next L) table

/-- The requests that pass. -/
def passed : (κ → List τ) → List (κ × τ) → List (κ × τ)
  | _, [] => []
  | table, e :: es =>
    if admits L table e then e :: passed (next L table e) es else passed (next L table e) es

end Limiter

variable {L : Limits κ τ} {table : κ → List τ}

@[simp] theorem after_nil : after L table [] = table := rfl

theorem after_append (es : List (κ × τ)) (e : κ × τ) :
    after L table (es ++ [e]) = next L (after L table es) e := by
  rw [after, List.foldl_append]
  rfl

theorem passed_append : ∀ (es fs : List (κ × τ)) (table : κ → List τ),
    passed L table (es ++ fs) = passed L table es ++ passed L (after L table es) fs
  | [], _, _ => rfl
  | e :: es, fs, table => by
    have ih := passed_append es fs (next L table e)
    rw [List.cons_append, passed, passed, ih]
    cases admits L table e
    · rfl
    · exact (List.cons_append ..).symm

theorem passed_snoc (es : List (κ × τ)) (e : κ × τ) :
    passed L table (es ++ [e]) =
      passed L table es ++ if admits L (after L table es) e then [e] else [] := by
  rw [passed_append]
  rfl

theorem passed_sublist : ∀ (es : List (κ × τ)) (table : κ → List τ),
    (passed L table es).Sublist es
  | [], _ => List.Sublist.slnil
  | e :: es, table => by
    have ih := passed_sublist es (next L table e)
    rw [passed]
    cases admits L table e
    · exact ih.cons e
    · exact ih.cons_cons e

/-! ## The pruned lists -/

theorem recent_append (width now : τ) (s t : List τ) :
    recent width now (s ++ t) = recent width now s ++ recent width now t := List.filter_append ..

variable [IsOrderedAddMonoid τ]

/-- What was pruned before now is outside the window. -/
theorem recent_recent {width t now : τ} (h : t ≤ now) (seen : List τ) :
    recent width now (recent width t seen) = recent width now seen := by
  rw [recent, recent, List.filter_filter]
  refine List.filter_congr fun x _ => ?_
  have hle : t - width ≤ now - width := sub_le_sub_right h width
  by_cases hx : now - width < x
  · simp [hx, hle.trans_lt hx]
  · simp [hx]

/-- From `t` on, the lists say as much about the window that ends now as these requests. -/
def Tracks (L : Limits κ τ) (table : κ → List τ) (es : List (κ × τ)) (t : τ) : Prop :=
  ∀ key now, t ≤ now →
    recent (L.width key) now (table key) = recent (L.width key) now (times key es)

/-- **One request.** -/
theorem tracks_next {es : List (κ × τ)} {t : τ} {e : κ × τ} (h : Tracks L table es t)
    (ht : t ≤ e.2) :
    Tracks L (next L table e) (es ++ if admits L table e then [e] else []) e.2 := by
  intro key now hnow
  have hold := h key now (ht.trans hnow)
  rcases ha : admits L table e with _ | _
  · simpa [next, ha] using hold
  · rw [next, if_pos ha, if_pos rfl, times_append, recent_append, times_singleton, ← hold]
    by_cases hkey : e.1 = key
    · subst hkey
      rw [Function.update_self, recent_append, recent_recent hnow, if_pos rfl]
    · rw [Function.update_of_ne (Ne.symm hkey), if_neg hkey]
      exact (List.append_nil _).symm

/-- **Any requests in order of time.** -/
theorem tracks_after {es : List (κ × τ)} {t : τ} (horder : es.Pairwise (·.2 ≤ ·.2))
    (ht : ∀ e ∈ es, e.2 ≤ t) : Tracks L (after L (fun _ => []) es) (passed L (fun _ => []) es) t := by
  induction es using List.reverseRecOn generalizing t with
  | nil => exact fun _ _ _ => rfl
  | append_singleton es e ih =>
    obtain ⟨hes, -, hlast⟩ := List.pairwise_append.mp horder
    have hbefore := ih hes fun x hx => hlast x hx e List.mem_cons_self
    have he : e.2 ≤ t := ht e (by simp)
    intro key now hnow
    rw [after_append, passed_snoc]
    exact tracks_next hbefore le_rfl key now (he.trans hnow)

/-- **What is refused**: a request before which `limit` of its key have passed within the window. -/
theorem admits_after_iff {es : List (κ × τ)} {e : κ × τ} (horder : (es ++ [e]).Pairwise (·.2 ≤ ·.2)) :
    admits L (after L (fun _ => []) es) e = true ↔
      (recent (L.width e.1) e.2 (times e.1 (passed L (fun _ => []) es))).length < L.limit e.1 := by
  obtain ⟨hes, -, hlast⟩ := List.pairwise_append.mp horder
  have htracks := tracks_after (L := L) hes fun x hx => hlast x hx e List.mem_cons_self
  rw [admits, decide_eq_true_iff, htracks e.1 e.2 le_rfl]

/-- **The bound**: of a key, at most `limit` requests pass at times that are all less than `width`
apart. -/
theorem passed_in_window_le {es : List (κ × τ)} (horder : es.Pairwise (·.2 ≤ ·.2)) (key : κ)
    (p : τ → Bool) (hp : ∀ x y, p x = true → p y = true → y - x < L.width key) :
    ((times key (passed L (fun _ => []) es)).filter p).length ≤ L.limit key := by
  induction es using List.reverseRecOn with
  | nil => exact Nat.zero_le _
  | append_singleton es e ih =>
    have hbound := ih (List.pairwise_append.mp horder).1
    rw [passed_snoc]
    by_cases ha : admits L (after L (fun _ => []) es) e = true
    · rw [if_pos ha, times_append, times_singleton, List.filter_append, List.length_append]
      by_cases hlast : e.1 = key ∧ p e.2 = true
      · -- what has passed at such times lies within the window that ends with this request
        obtain ⟨rfl, hpe⟩ := hlast
        have hsub : ((times e.1 (passed L (fun _ => []) es)).filter p).length ≤
            (recent (L.width e.1) e.2 (times e.1 (passed L (fun _ => []) es))).length := by
          rw [recent, ← List.countP_eq_length_filter, ← List.countP_eq_length_filter]
          refine List.countP_mono_left fun x _ hx => ?_
          exact decide_eq_true (sub_lt_comm.mp (hp x e.2 hx hpe))
        have hfew := (admits_after_iff horder).mp ha
        simp only [if_pos, List.filter_cons, hpe, List.filter_nil, List.length_singleton]
        omega
      · have hnone : (List.filter p (if e.1 = key then [e.2] else [])) = [] := by
          by_cases hkey : e.1 = key
          · rw [if_pos hkey]
            simpa using fun h => hlast ⟨hkey, h⟩
          · rw [if_neg hkey]
            rfl
        rw [hnone]
        exact hbound
    · rw [if_neg ha, List.append_nil]
      exact hbound

/-! ## The keys do not meet -/

omit [IsOrderedAddMonoid τ]

omit [DecidableEq κ] in
theorem admits_congr {table table' : κ → List τ} {e : κ × τ} (h : table e.1 = table' e.1) :
    admits L table e = admits L table' e := by
  rw [admits, admits, h]

theorem next_self_congr {table table' : κ → List τ} {e : κ × τ} (h : table e.1 = table' e.1) :
    next L table e e.1 = next L table' e e.1 := by
  rw [next, next, admits_congr h]
  split
  · rw [Function.update_self, Function.update_self, h]
  · exact h

theorem next_of_ne {e : κ × τ} {key : κ} (h : e.1 ≠ key) : next L table e key = table key := by
  rw [next]
  split
  · exact Function.update_of_ne h.symm ..
  · rfl

/-- **The list of a key depends on the requests of that key alone.** -/
theorem after_filter (key : κ) : ∀ (es : List (κ × τ)) (table table' : κ → List τ),
    table key = table' key →
      after L table es key = after L table' (es.filter (·.1 = key)) key
  | [], _, _, h => h
  | e :: es, table, table', h => by
    by_cases hkey : e.1 = key
    · subst hkey
      rw [List.filter_cons, if_pos (by simp)]
      exact after_filter e.1 es (next L table e) (next L table' e) (next_self_congr h)
    · rw [List.filter_cons, if_neg (by simpa using hkey)]
      exact after_filter key es (next L table e) table' ((next_of_ne hkey).trans h)

end IdenGrid.Lib.Window
