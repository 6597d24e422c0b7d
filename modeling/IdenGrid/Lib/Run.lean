import Mathlib.Logic.Function.Basic
import Mathlib.Data.List.Basic
import Mathlib.Data.Option.Basic
import Mathlib.Tactic.Common

/-! # Runs of a partial step function

A system is a partial step function `step : σ → α → Option σ`: `none` says that the event is not
possible in that state. `run` iterates it over a list of events, `Along C` says that the condition
`C` on the state and the event holds at every step of the run. The rules:

* `run_append`, `run_eq_some_cons`: a run splits at every point;
* `run_inv`: what one step preserves, a run preserves; `run_inv_along`: the same where a step
  preserves it only under `C`;
* `along_append`: how conditions split; `along_of_inv`: what an invariant adds to them;
  `along_iff_of_inv`: conditions that say the same under an invariant;
* `along_iff_visits`: where a step against `C` breaks the property, the runs along `C` are exactly
  those that never leave the property;
* `along_of_end`: where a step against `C` leads to a dead end, a run that does not end there has met
  `C`;
* `run_related`, `forall_of_run`: what holds of two runs over the same events, and of every event
  of one run;
* `run_simulates`: what each step of a system can be matched by in another, a run can. -/

namespace IdenGrid.Lib.Run

variable {σ α : Type*} {step : σ → α → Option σ}

/-- The state after the events, if each of them is possible where it occurs. -/
def run (step : σ → α → Option σ) : σ → List α → Option σ
  | s, [] => some s
  | s, a :: as => (step s a).bind fun s' => run step s' as

/-- The condition `C` holds of the state and the event at every step of the run. -/
def Along (step : σ → α → Option σ) (C : σ → α → Prop) : σ → List α → Prop
  | _, [] => True
  | s, a :: as => C s a ∧ ∀ s' ∈ step s a, Along step C s' as

@[simp] theorem run_nil (s : σ) : run step s [] = some s := rfl

theorem run_cons (s : σ) (a : α) (as : List α) :
    run step s (a :: as) = (step s a).bind fun s' => run step s' as := rfl

theorem run_eq_some_cons {s t : σ} {a : α} {as : List α} :
    run step s (a :: as) = some t ↔ ∃ s', step s a = some s' ∧ run step s' as = some t := by
  rw [run_cons, Option.bind_eq_some_iff]

theorem run_append (as bs : List α) (s : σ) :
    run step s (as ++ bs) = (run step s as).bind fun t => run step t bs := by
  induction as generalizing s with
  | nil => rfl
  | cons a as ih =>
    rw [List.cons_append, run_cons, run_cons]
    rcases step s a with _ | s'
    · rfl
    · exact ih s'

/-- A run whose events stand for others. -/
theorem run_map {β : Type*} (f : β → α) (bs : List β) (s : σ) :
    run (fun s b => step s (f b)) s bs = run step s (bs.map f) := by
  induction bs generalizing s with
  | nil => rfl
  | cons b bs ih =>
    rw [List.map_cons, run_cons, run_cons]
    rcases step s (f b) with _ | s'
    · rfl
    · exact ih s'

@[simp] theorem along_nil (C : σ → α → Prop) (s : σ) : Along step C s [] := trivial

theorem along_cons {C : σ → α → Prop} {s : σ} {a : α} {as : List α} :
    Along step C s (a :: as) ↔ C s a ∧ ∀ s', step s a = some s' → Along step C s' as := Iff.rfl

theorem along_append {C : σ → α → Prop} (as bs : List α) (s : σ) :
    Along step C s (as ++ bs) ↔
      Along step C s as ∧ ∀ t, run step s as = some t → Along step C t bs := by
  induction as generalizing s with
  | nil => simp
  | cons a as ih =>
    rw [List.cons_append, along_cons, along_cons]
    constructor
    · rintro ⟨hc, hrest⟩
      refine ⟨⟨hc, fun s' hs' => ((ih s').mp (hrest s' hs')).1⟩, fun t ht => ?_⟩
      obtain ⟨s', hs', ht⟩ := run_eq_some_cons.mp ht
      exact ((ih s').mp (hrest s' hs')).2 t ht
    · rintro ⟨⟨hc, hrest⟩, htail⟩
      refine ⟨hc, fun s' hs' => (ih s').mpr ⟨hrest s' hs', fun t ht => ?_⟩⟩
      exact htail t (run_eq_some_cons.mpr ⟨s', hs', ht⟩)

theorem along_true : ∀ (as : List α) (s : σ), Along step (fun _ _ => True) s as
  | [], _ => trivial
  | _ :: as, _ => ⟨trivial, fun s' _ => along_true as s'⟩

/-- A condition on the events alone. -/
theorem along_of_forall {C : α → Prop} {as : List α} (h : ∀ a ∈ as, C a) (s : σ) :
    Along step (fun _ a => C a) s as := by
  induction as generalizing s with
  | nil => trivial
  | cons a as ih =>
    exact ⟨h a List.mem_cons_self, fun s' _ => ih (fun b hb => h b (List.mem_cons_of_mem a hb)) s'⟩

instance decidableAlong {C : σ → α → Prop} [∀ s a, Decidable (C s a)] :
    ∀ (s : σ) (as : List α), Decidable (Along step C s as)
  | _, [] => inferInstanceAs (Decidable True)
  | s, a :: as =>
    match h : step s a with
    | none => decidable_of_iff (C s a) (by simp [along_cons, h])
    | some s' =>
      have := decidableAlong (C := C) s' as
      decidable_of_iff (C s a ∧ Along step C s' as) (by simp [along_cons, h])

/-- **The invariant rule under a condition**: what every step under `C` preserves, a run whose
steps all meet `C` preserves. -/
theorem run_inv_along {C : σ → α → Prop} {I : σ → Prop}
    (hstep : ∀ s a s', I s → C s a → step s a = some s' → I s') :
    ∀ (as : List α) (s t : σ), I s → Along step C s as → run step s as = some t → I t
  | [], s, t, hs, _, hr => by
    obtain rfl : s = t := by simpa using hr
    exact hs
  | a :: as, s, t, hs, hc, hr => by
    obtain ⟨s', hs', hr⟩ := run_eq_some_cons.mp hr
    exact run_inv_along hstep as s' t (hstep s a s' hs hc.1 hs') (hc.2 s' hs') hr

/-- What follows from the invariant and the condition at one step holds at every step. -/
theorem along_of_inv {C D : σ → α → Prop} {I : σ → Prop}
    (hstep : ∀ s a s', I s → C s a → step s a = some s' → I s')
    (hD : ∀ s a, I s → C s a → D s a) :
    ∀ (as : List α) (s : σ), I s → Along step C s as → Along step D s as
  | [], _, _, _ => trivial
  | a :: as, s, hI, hc =>
    ⟨hD s a hI hc.1, fun s' hs' =>
      along_of_inv hstep hD as s' (hstep s a s' hI hc.1 hs') (hc.2 s' hs')⟩

/-- **Exact conditions on the steps**: where `C` and `D` say the same of a step from a state with the
invariant, the runs along the one are the runs along the other. -/
theorem along_iff_of_inv {C D : σ → α → Prop} {I : σ → Prop}
    (hstep : ∀ s a s', I s → step s a = some s' → I s')
    (hCD : ∀ s a, I s → (C s a ↔ D s a)) (as : List α) (s : σ) (hI : I s) :
    Along step C s as ↔ Along step D s as :=
  ⟨along_of_inv (fun s a s' hI _ hs => hstep s a s' hI hs) (fun s a hI => (hCD s a hI).mp) as s hI,
    along_of_inv (fun s a s' hI _ hs => hstep s a s' hI hs) (fun s a hI => (hCD s a hI).mpr) as s hI⟩

/-- **The invariant rule**: what every step preserves, a run preserves. -/
theorem run_inv {I : σ → Prop} (hstep : ∀ s a s', I s → step s a = some s' → I s')
    (as : List α) (s t : σ) (hs : I s) (hr : run step s as = some t) : I t := by
  exact run_inv_along (fun s a s' hI _ h => hstep s a s' hI h) as s t hs (along_true as s) hr

/-- Every state the run visits, the first and the last included, has the property `R`. -/
def Visits (step : σ → α → Option σ) (R : σ → Prop) (s : σ) (as : List α) : Prop :=
  ∀ pre, pre <+: as → ∀ t, run step s pre = some t → R t

theorem Visits.last {R : σ → Prop} {s t : σ} {as : List α} (h : Visits step R s as)
    (hr : run step s as = some t) : R t := h as (List.prefix_refl as) t hr

/-- **Exact conditions**: if steps under `C` keep the invariant `I`, which implies `R`, and a step
against `C` breaks `R`, then a run has all its states in `R` exactly if all its steps meet `C`. -/
theorem along_iff_visits {C : σ → α → Prop} {I R : σ → Prop} (hR : ∀ s, I s → R s)
    (hgood : ∀ s a s', I s → C s a → step s a = some s' → I s')
    (hbad : ∀ s a s', I s → ¬ C s a → step s a = some s' → ¬ R s') :
    ∀ (as : List α) (s t : σ), I s → run step s as = some t →
      (Along step C s as ↔ Visits step R s as)
  | [], s, t, hI, _ => by
    refine iff_of_true trivial fun pre hpre u hu => ?_
    obtain rfl := List.prefix_nil.mp hpre
    obtain rfl : s = u := by simpa using hu
    exact hR s hI
  | a :: as, s, t, hI, hr => by
    obtain ⟨s', hs', hr'⟩ := run_eq_some_cons.mp hr
    constructor
    · rintro ⟨hc, hrest⟩ pre hpre u hu
      rcases pre with _ | ⟨b, pre⟩
      · obtain rfl : s = u := by simpa using hu
        exact hR s hI
      · obtain ⟨rfl, hpre'⟩ := List.cons_prefix_cons.mp hpre
        obtain ⟨v, hv, hu⟩ := run_eq_some_cons.mp hu
        obtain rfl : s' = v := by simpa [hs'] using hv
        have ih := along_iff_visits hR hgood hbad as s' t (hgood s b s' hI hc hs') hr'
        exact ih.mp (hrest s' hs') pre hpre' u hu
    · intro hv
      have hc : C s a := by
        by_contra hc
        refine hbad s a s' hI hc hs' (hv [a] (by simp) s' ?_)
        simp [run_cons, hs']
      refine ⟨hc, fun u hu => ?_⟩
      obtain rfl : s' = u := by simpa [hs'] using hu
      have ih := along_iff_visits hR hgood hbad as s' t (hgood s a s' hI hc hs') hr'
      refine ih.mpr fun pre hpre u hu => hv (a :: pre) (List.cons_prefix_cons.mpr ⟨rfl, hpre⟩) u ?_
      exact run_eq_some_cons.mpr ⟨s', hs', hu⟩

/-- A run that does not end in `D` has met `C` at every step, if a step against `C` leads to `D` and
nothing leads out of it. -/
theorem along_of_end {C : σ → α → Prop} {D : σ → Prop}
    (hbad : ∀ s a s', ¬ C s a → step s a = some s' → D s')
    (hkeep : ∀ s a s', D s → step s a = some s' → D s') :
    ∀ (as : List α) (s t : σ), run step s as = some t → ¬ D t → Along step C s as
  | [], _, _, _, _ => trivial
  | a :: as, s, t, hr, hD => by
    obtain ⟨s', hs', hr'⟩ := run_eq_some_cons.mp hr
    refine ⟨?_, fun u hu => ?_⟩
    · by_contra hc
      exact hD (run_inv hkeep as s' t (hbad s a s' hc hs') hr')
    · obtain rfl : s' = u := Option.some.inj (hs'.symm.trans hu)
      exact along_of_end hbad hkeep as s' t hr' hD

/-- Two runs over the same actions stay related, if one action leaves related states related. -/
theorem run_related {τ : Type*} {step' : τ → α → Option τ} {R : σ → τ → Prop} {C : α → Prop}
    (hstep : ∀ s u a, C a → R s u → ∃ s' u', step s a = some s' ∧ step' u a = some u' ∧ R s' u') :
    ∀ (as : List α) (s : σ) (u : τ), (∀ a ∈ as, C a) → R s u →
      ∃ s' u', run step s as = some s' ∧ run step' u as = some u' ∧ R s' u'
  | [], s, u, _, h => ⟨s, u, rfl, rfl, h⟩
  | a :: as, s, u, hC, h => by
    obtain ⟨s', u', hs', hu', h'⟩ := hstep s u a (hC a List.mem_cons_self) h
    obtain ⟨s'', u'', hs'', hu'', h''⟩ :=
      run_related hstep as s' u' (fun b hb => hC b (List.mem_cons_of_mem a hb)) h'
    exact ⟨s'', u'', run_eq_some_cons.mpr ⟨s', hs', hs''⟩,
      run_eq_some_cons.mpr ⟨u', hu', hu''⟩, h''⟩

/-- **Forward simulation**: another system follows every step by a run of its own. -/
theorem run_simulates {τ β : Type*} {step' : τ → β → Option τ} {R : σ → τ → Prop}
    (hstep : ∀ s u a s', R s u → step s a = some s' →
      ∃ bs u', run step' u bs = some u' ∧ R s' u') :
    ∀ (as : List α) (s t : σ) (u : τ), R s u → run step s as = some t →
      ∃ bs u', run step' u bs = some u' ∧ R t u'
  | [], s, t, u, h, hr => ⟨[], u, rfl, Option.some.inj hr ▸ h⟩
  | a :: as, s, t, u, h, hr => by
    obtain ⟨s', hs', hr⟩ := run_eq_some_cons.mp hr
    obtain ⟨bs, u', hu', h'⟩ := hstep s u a s' h hs'
    obtain ⟨cs, u'', hu'', h''⟩ := run_simulates hstep as s' t u' h' hr
    exact ⟨bs ++ cs, u'', by rw [run_append, hu']; exact hu'', h''⟩

/-- Every action of a run has what each action that is taken has. -/
theorem forall_of_run {C : α → Prop} (hstep : ∀ s a s', step s a = some s' → C a) :
    ∀ (as : List α) (s t : σ), run step s as = some t → ∀ a ∈ as, C a
  | [], _, _, _, _, ha => absurd ha List.not_mem_nil
  | a :: as, s, t, h, b, hb => by
    obtain ⟨s', hs', ht⟩ := run_eq_some_cons.mp h
    rcases List.mem_cons.mp hb with rfl | hb
    · exact hstep s b s' hs'
    · exact forall_of_run hstep as s' t ht b hb

end IdenGrid.Lib.Run
