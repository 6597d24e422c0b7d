import IdenGrid.Client.Locks

/-! # The tables of the store manager

`states`, `edgeLatencies`, `running` and `latencyTasks` all go by the store. `Tidy` is what they have to
do with each other at every moment. Three things disturb it, which `Orderly` excludes: a latency that
arrives when the store is no longer on record, a launch that starts to poll such a store, and an exit
that is handled when another launch of the store is on record. -/

namespace IdenGrid.Client.Tables

open IdenGrid.Lib.Run IdenGrid.Lib.Requests IdenGrid.Client.Launches IdenGrid.Client.Launches.App
open IdenGrid.Client.Frames IdenGrid.Client.Locks

variable {device : String}

/-- A launch or a quit is in progress. -/
def Task.InProgress (t : Task) : Prop := t.launch? ≠ none ∨ Task.stops t ≠ none

instance decidableInProgress (t : Task) : Decidable (Task.InProgress t) :=
  inferInstanceAs (Decidable (_ ∨ _))

/-- Whenever no launch and no quit is in progress, only stores in `running` are polled or have a
latency, and their state is `running` exactly if they are there. -/
def Consistent (c : Crew App Task) : Prop :=
  (∀ r, ¬ Task.InProgress (c.loc r)) → ∀ x,
    (c.shared.latencyTasks x ≠ none ∨ c.shared.edgeLatencies x ≠ none → x ∈ c.shared.running) ∧
      (c.shared.states x = some .running ↔ x ∈ c.shared.running)

/-- The same, but a store in `running` may also have the state that a failed quit left it. -/
def Settled (c : Crew App Task) : Prop :=
  (∀ r, ¬ Task.InProgress (c.loc r)) → ∀ x,
    (c.shared.latencyTasks x ≠ none ∨ c.shared.edgeLatencies x ≠ none → x ∈ c.shared.running) ∧
      (c.shared.states x = some .running → x ∈ c.shared.running) ∧
      (x ∈ c.shared.running →
        c.shared.states x = some .running ∨ c.shared.states x = some notStopped)

/-- A notice of an exit takes no record off the table but the one of the pair that ended. -/
def Apart (device : String) (c : Crew App Task) (e : ℕ × Move) : Prop :=
  ∀ n, e.2 = .notice n → ∀ c', step (act device) c e = some c' →
    ∀ p, c.shared.running.lookup n.store = some p →
      c'.shared.running.lookup n.store = some p ∨ p = n.launch

/-- The condition on a step. -/
def orderly (s : App) (t : Task) (m : Move) : Bool :=
  match m, t with
  | .notice n, _ => s.running.lookup n.store = none ∨ s.running.lookup n.store = some n.launch
  | .measured _, .measuring l => l.store.id ∈ s.running
  | .measured answer, .polling store =>
    (answer.bind AgentStatus.latency?).isSome → store ∈ s.running
  | _, _ => true

def Orderly (c : Crew App Task) (e : ℕ × Move) : Prop := orderly c.shared (c.loc e.1) e.2 = true

instance decidableOrderly (c : Crew App Task) (e : ℕ × Move) : Decidable (Orderly c e) :=
  inferInstanceAs (Decidable (_ = _))

structure Tidy (s : App) : Prop where
  polled : ∀ x, s.latencyTasks x ≠ none → s.running.lookup x ≠ none
  measured : ∀ x, s.edgeLatencies x ≠ none → s.running.lookup x ≠ none
  shown : ∀ x, s.running.lookup x ≠ none →
    s.states x = some .running ∨ s.states x = some notStopped
  recorded : ∀ x, s.states x = some .running → s.running.lookup x ≠ none ∨ s.stopping x ≠ none

theorem Tidy.of_eq {s s' : App} (h : Tidy s) (hl : s'.latencyTasks = s.latencyTasks)
    (he : s'.edgeLatencies = s.edgeLatencies) (hr : s'.running = s.running)
    (hs : s'.states = s.states) (hst : s'.stopping = s.stopping) : Tidy s' where
  polled x := by rw [hl, hr]; exact h.polled x
  measured x := by rw [he, hr]; exact h.measured x
  shown x := by rw [hr, hs]; exact h.shown x
  recorded x := by rw [hs, hr, hst]; exact h.recorded x

theorem ne_of_update_none {α : Type*} {f : String → Option α} {x y : String}
    (h : Function.update f x none y ≠ none) : y ≠ x ∧ f y ≠ none := by
  rcases eq_or_ne y x with rfl | hne
  · exact absurd (Function.update_self y none f) h
  · rw [Function.update_of_ne hne] at h
    exact ⟨hne, h⟩

theorem lookup_insert_ne_none {t : AList fun _ : String => ℕ} {x y : String} {p : ℕ}
    (h : t.lookup y ≠ none) : (t.insert x p).lookup y ≠ none := by
  rcases eq_or_ne y x with rfl | hne
  · rw [AList.lookup_insert]
    exact Option.some_ne_none p
  · rwa [AList.lookup_insert_ne hne]

/-! ## The operations -/

theorem tidy_setState {s : App} (h : Tidy s) {x : String} {state : LaunchState}
    (hx : s.running.lookup x = none) (hstate : state ≠ .running) : Tidy (s.setState x state) where
  polled := h.polled
  measured := h.measured
  shown y hy := by
    have hne : y ≠ x := by
      rintro rfl
      exact hy hx
    change Function.update s.states x (some state) y = _ ∨ Function.update s.states x _ y = _
    rw [Function.update_of_ne hne]
    exact h.shown y hy
  recorded y hy := by
    change Function.update s.states x (some state) y = some .running at hy
    rcases eq_or_ne y x with rfl | hne
    · rw [Function.update_self] at hy
      exact absurd (Option.some.inj hy) hstate
    · rw [Function.update_of_ne hne] at hy
      exact h.recorded y hy

theorem tidy_stopPolling {s : App} (h : Tidy s) (x : String) : Tidy (s.stopPolling x) where
  polled y hy := h.polled y (ne_of_update_none hy).2
  measured y hy := h.measured y (ne_of_update_none hy).2
  shown := h.shown
  recorded := h.recorded

theorem tidy_tearDown {s : App} (h : Tidy s) (x : String) {state : LaunchState}
    (hstate : state ≠ .running) : Tidy (s.tearDown x state) := by
  unfold tearDown
  split
  · exact tidy_stopPolling h x
  · next p hp =>
    have herase : ∀ y, y ≠ x → s.running.lookup y ≠ none → (s.running.erase x).lookup y ≠ none := by
      intro y hne hy
      rwa [AList.lookup_erase_ne hne]
    constructor
    · intro y hy
      obtain ⟨hne, hy⟩ := ne_of_update_none hy
      exact herase y hne (h.polled y hy)
    · intro y hy
      obtain ⟨hne, hy⟩ := ne_of_update_none hy
      exact herase y hne (h.measured y hy)
    · intro y hy
      change (s.running.erase x).lookup y ≠ none at hy
      change Function.update s.states x (some state) y = _ ∨ Function.update s.states x _ y = _
      rcases eq_or_ne y x with rfl | hne
      · exact absurd (AList.lookup_erase y s.running) hy
      · rw [AList.lookup_erase_ne hne] at hy
        rw [Function.update_of_ne hne]
        exact h.shown y hy
    · intro y hy
      change Function.update s.states x (some state) y = some .running at hy
      change (s.running.erase x).lookup y ≠ none ∨ s.stopping y ≠ none
      rcases eq_or_ne y x with rfl | hne
      · rw [Function.update_self] at hy
        exact absurd (Option.some.inj hy) hstate
      · rw [Function.update_of_ne hne] at hy
        rw [AList.lookup_erase_ne hne]
        exact h.recorded y hy

theorem lookup_tearDown (s : App) (x : String) (state : LaunchState) :
    (s.tearDown x state).running.lookup x = none := by
  unfold tearDown
  split
  · next hx => exact hx
  · exact AList.lookup_erase x s.running

theorem frame_tidy : Frame fun s s' => Tidy s → Tidy s' where
  same hs h := h.of_eq (congrArg Tables.latencyTasks hs) (congrArg Tables.edgeLatencies hs)
    (congrArg Tables.running hs) (congrArg Tables.states hs) (congrArg Tables.stopping hs)
  trans h h' := h' ∘ h
  tearDown _ x _ hstate h := tidy_tearDown h x hstate
  closeAfter s x h := tidy_setState (tidy_tearDown h x LaunchState.noConfusion)
    (lookup_tearDown s x .idle) LaunchState.noConfusion
  exit _ _ h := h.of_eq rfl rfl rfl rfl rfl
  answered _ _ h := h.of_eq rfl rfl rfl rfl rfl

/-! ## Quitting -/

theorem tidy_quitAllAndWait (r began : ℕ) :
    ∀ (keys : List String) (success : Bool) (s : App), Tidy s →
      Tidy (quitAllAndWait r began s success keys).1
  | [], success, s, h => by
    unfold quitAllAndWait
    dsimp only
    split
    · exact h.of_eq rfl rfl rfl rfl rfl
    · exact h
  | x :: rest, success, s, h => by
    unfold quitAllAndWait
    split
    · exact tidy_quitAllAndWait r began rest success _ (tidy_stopPolling h x)
    · next p hp =>
      constructor
      · intro y hy
        obtain ⟨hne, hy⟩ := ne_of_update_none hy
        change (s.running.erase x).lookup y ≠ none
        rw [AList.lookup_erase_ne hne]
        exact h.polled y hy
      · intro y hy
        obtain ⟨hne, hy⟩ := ne_of_update_none hy
        change (s.running.erase x).lookup y ≠ none
        rw [AList.lookup_erase_ne hne]
        exact h.measured y hy
      · intro y hy
        change (s.running.erase x).lookup y ≠ none at hy
        rcases eq_or_ne y x with rfl | hne
        · exact absurd (AList.lookup_erase y s.running) hy
        · rw [AList.lookup_erase_ne hne] at hy
          exact h.shown y hy
      · intro y hy
        change (s.running.erase x).lookup y ≠ none ∨
          Function.update s.stopping x (some (r, p)) y ≠ none
        rcases eq_or_ne y x with rfl | hne
        · rw [Function.update_self]
          exact .inr (Option.some_ne_none _)
        · rw [AList.lookup_erase_ne hne, Function.update_of_ne hne]
          exact h.recorded y hy

theorem tidy_stopped {r began p : ℕ} {s : App} {x : String} {rest : List String} {success : Bool}
    (h : Tidy s) (hx : s.running.lookup x = none) (both : Bool) :
    Tidy (stopped r s began x p both rest success).1 := by
  cases both with
  | true =>
    refine tidy_quitAllAndWait r began rest success _ ⟨h.polled, h.measured, fun y hy => ?_,
      fun y hy => ?_⟩
    · have hne : y ≠ x := by
        rintro rfl
        exact hy hx
      change Function.update s.states x (some .idle) y = _ ∨ Function.update s.states x _ y = _
      rw [Function.update_of_ne hne]
      exact h.shown y hy
    · change Function.update s.states x (some .idle) y = some .running at hy
      change s.running.lookup y ≠ none ∨ Function.update s.stopping x none y ≠ none
      rcases eq_or_ne y x with rfl | hne
      · rw [Function.update_self] at hy
        exact absurd (Option.some.inj hy) LaunchState.noConfusion
      · rw [Function.update_of_ne hne] at hy ⊢
        exact h.recorded y hy
  | false =>
    refine tidy_quitAllAndWait r began rest false _ ⟨fun y hy => lookup_insert_ne_none (h.polled y hy),
      fun y hy => lookup_insert_ne_none (h.measured y hy), fun y hy => ?_, fun y hy => ?_⟩
    · change (s.running.insert x p).lookup y ≠ none at hy
      change Function.update s.states x (some notStopped) y = _ ∨ Function.update s.states x _ y = _
      rcases eq_or_ne y x with rfl | hne
      · rw [Function.update_self]
        exact .inr rfl
      · rw [AList.lookup_insert_ne hne] at hy
        rw [Function.update_of_ne hne]
        exact h.shown y hy
    · change Function.update s.states x (some notStopped) y = some .running at hy
      change (s.running.insert x p).lookup y ≠ none ∨ Function.update s.stopping x none y ≠ none
      rcases eq_or_ne y x with rfl | hne
      · rw [Function.update_self] at hy
        exact absurd (Option.some.inj hy) LaunchState.noConfusion
      · rw [Function.update_of_ne hne] at hy ⊢
        exact (h.recorded y hy).imp_left lookup_insert_ne_none

/-! ## Launches and latencies -/

section Launch

variable {r : ℕ} {s : App} {l : Launch} {lease : ℕ}

theorem tidy_abandon (h : Tidy s) (hx : s.running.lookup l.store.id = none) (failure : Failure) :
    Tidy (abandon r s l lease failure).1 := by
  have ht : Tidy ((s.terminate r .agent).releaseLock l.store.id) := h.of_eq rfl rfl rfl rfl rfl
  exact (tidy_setState ht hx LaunchState.noConfusion).of_eq rfl rfl rfl rfl rfl

theorem tidy_enter (h : Tidy s) (prepared : Prepared) : Tidy (enter r s l lease prepared).1 := by
  unfold enter
  split
  · exact h
  · next hrun =>
    have hx := AList.lookup_eq_none.mpr hrun
    have hfail : ∀ failure, Tidy (disconnect r (s.setState l.store.id (.failed failure)) l lease).1 :=
      fun failure => (tidy_setState h hx LaunchState.noConfusion).of_eq rfl rfl rfl rfl rfl
    dsimp only
    split
    · exact hfail _
    · exact hfail _
    · exact hfail _
    · exact (tidy_setState h hx LaunchState.noConfusion).of_eq rfl rfl rfl rfl rfl
    · exact (tidy_setState h hx LaunchState.noConfusion).of_eq rfl rfl rfl rfl rfl

theorem tidy_ready (h : Tidy s) (hx : s.running.lookup l.store.id = none)
    (failure : Option Failure) : Tidy (ready r s l lease failure).1 := by
  cases failure with
  | none => exact tidy_setState h hx LaunchState.noConfusion
  | some failure => exact tidy_abandon h hx failure

theorem tidy_queried (h : Tidy s) (hx : s.running.lookup l.store.id = none)
    (answer : Except Failure AgentStatus) : Tidy (queried device r s l lease answer).1 := by
  unfold queried
  split
  · exact tidy_abandon h hx _
  · split
    · split
      · exact tidy_abandon h hx _
      · exact h
    · exact tidy_abandon h hx _

theorem tidy_verified (h : Tidy s) (hx : s.running.lookup l.store.id = none)
    (answer : Except Failure (ℕ × Option String)) (browser : Option Failure) :
    Tidy (verified r s l lease answer browser).1 := by
  unfold verified
  split
  · exact tidy_abandon h hx _
  · refine ⟨fun y hy => lookup_insert_ne_none (h.polled y hy),
      fun y hy => lookup_insert_ne_none (h.measured y hy), fun y hy => ?_, fun y hy => ?_⟩
    · change (s.running.insert l.store.id r).lookup y ≠ none at hy
      change Function.update s.states l.store.id (some .running) y = _ ∨
        Function.update s.states l.store.id _ y = _
      rcases eq_or_ne y l.store.id with rfl | hne
      · rw [Function.update_self]
        exact .inl rfl
      · rw [AList.lookup_insert_ne hne] at hy
        rw [Function.update_of_ne hne]
        exact h.shown y hy
    · change Function.update s.states l.store.id (some .running) y = some .running at hy
      rcases eq_or_ne y l.store.id with rfl | hne
      · left
        change (s.running.insert l.store.id r).lookup l.store.id ≠ none
        rw [AList.lookup_insert]
        exact Option.some_ne_none r
      · rw [Function.update_of_ne hne] at hy
        exact (h.recorded y hy).imp_left lookup_insert_ne_none

theorem tidy_refreshEdgeLatency {store : String} {answer : Option AgentStatus} (h : Tidy s)
    (hx : (answer.bind AgentStatus.latency?).isSome → s.running.lookup store ≠ none) :
    Tidy (refreshEdgeLatency s store answer) := by
  unfold refreshEdgeLatency
  split
  · next latency hl =>
    refine ⟨h.polled, fun y hy => ?_, h.shown, h.recorded⟩
    change Function.update s.edgeLatencies store (some latency) y ≠ none at hy
    rcases eq_or_ne y store with rfl | hne
    · exact hx (by rw [hl]; rfl)
    · rw [Function.update_of_ne hne] at hy
      exact h.measured y hy
  · exact h

theorem tidy_startLatencyPolling {store : String} (h : Tidy s)
    (hx : s.running.lookup store ≠ none) : Tidy (startLatencyPolling r s store).1 := by
  refine ⟨fun y hy => ?_, h.measured, h.shown, h.recorded⟩
  change Function.update s.latencyTasks store (some r) y ≠ none at hy
  rcases eq_or_ne y store with rfl | hne
  · exact hx
  · rw [Function.update_of_ne hne] at hy
    exact h.polled y hy

end Launch

/-! ## Every step -/

theorem tidy_special {r : ℕ} {s : App} {t : Task} {m : Move} {p : App × Task} (hl : Locked s)
    (ha : At r s t) (h : Tidy s) (ho : orderly s t m = true) (hs : Special device r s t m p) :
    Tidy p.1 := by
  cases hs with
  | entered l retried lease prepared => exact tidy_enter h prepared
  | ready l lease failure => exact tidy_ready h (ha.launching _ rfl).2.1 failure
  | queried l lease answer => exact tidy_queried h (ha.launching _ rfl).2.1 answer
  | verified l lease answer browser =>
    exact tidy_verified h (ha.launching _ rfl).2.1 answer browser
  | measured l answer =>
    -- the launch goes over to polling: its store is on record, before and after the latency
    have hx : s.running.lookup l.store.id ≠ none := by
      rw [Ne, AList.lookup_eq_none, not_not]
      exact of_decide_eq_true ho
    refine tidy_startLatencyPolling (tidy_refreshEdgeLatency h fun _ => hx) ?_
    obtain ⟨latencies, hs⟩ := refreshEdgeLatency_eq s l.store.id answer
    rw [hs]
    exact hx
  | polled store answer =>
    refine tidy_refreshEdgeLatency h fun hsome => ?_
    rw [Ne, AList.lookup_eq_none, not_not]
    exact of_decide_eq_true ho hsome
  | terminated => exact tidy_quitAllAndWait r s.clock _ true s.tick (h.of_eq rfl rfl rfl rfl rfl)
  | browserWaited began store record rest success => exact h.of_eq rfl rfl rfl rfl rfl
  | agentWaited began x p b rest success =>
    have hstop := (ha.stops x p).mpr rfl
    refine tidy_stopped h (by_contra fun hne => ?_) _
    obtain ⟨q, hq⟩ := Option.ne_none_iff_exists'.mp hne
    exact absurd (hstop.symm.trans (hl.record x q hq).2) (Option.some_ne_none _)

/-! ## Runs -/

/-- The invariant of the runs that meet the condition. -/
def Kept (c : Crew App Task) : Prop := Holds Locked At c ∧ Tidy c.shared

theorem kept_step {c c' : Crew App Task} {e : ℕ × Move} (h : Kept c) (ho : Orderly c e)
    (hs : step (act device) c e = some c') : Kept c' := by
  refine ⟨locked_step h.1 hs, ?_⟩
  obtain ⟨s', t', hact, rfl⟩ := step_eq_some.mp hs
  rcases frame_tidy.act hact with hplain | hspecial
  · exact hplain.1 h.2
  · exact tidy_special h.1.1 (h.1.2 e.1) h.2 ho hspecial

theorem Kept.settled {c : Crew App Task} (h : Kept c) : Settled c := by
  intro hidle x
  have hstop : c.shared.stopping x = none := by
    by_contra hne
    obtain ⟨⟨q, p⟩, hqp⟩ := Option.ne_none_iff_exists'.mp hne
    refine hidle q (.inr ?_)
    rw [((h.1.2 q).stops x p).mp hqp]
    exact Option.some_ne_none _
  have hmem : c.shared.running.lookup x ≠ none ↔ x ∈ c.shared.running := by
    rw [Ne, AList.lookup_eq_none, not_not]
  rw [← hmem]
  refine ⟨fun hx => hx.elim (h.2.polled x) (h.2.measured x), fun hx => ?_, h.2.shown x⟩
  exact (h.2.recorded x hx).resolve_right (fun hne => hne hstop)

theorem apart_of_orderly {c : Crew App Task} {e : ℕ × Move} (ho : Orderly c e) :
    Apart device c e := by
  intro n hn c' hs p hp
  obtain ⟨r, m⟩ := e
  obtain rfl : m = .notice n := hn
  have hcase : c.shared.running.lookup n.store = none ∨
      c.shared.running.lookup n.store = some n.launch := of_decide_eq_true ho
  rcases hcase with hnone | hsome
  · exact absurd (hp.symm.trans hnone) (Option.some_ne_none p)
  · exact .inr (Option.some.inj (hp.symm.trans hsome))

/-- **The tables stay consistent**: in every run from the start of the app whose steps are orderly,
the tables agree whenever no launch and no quit is in progress, and no notice of an exit takes off the
record of another pair. -/
theorem settled_of_orderly (device : String) (token : Option AccessToken) (found : String → Bool)
    (as : List (ℕ × Move))
    (ho : Along (step (act device)) Orderly ⟨Launches.start token found, fun _ => .idle⟩ as) :
    Visits (step (act device)) Settled ⟨Launches.start token found, fun _ => .idle⟩ as ∧
      Along (step (act device)) (Apart device) ⟨Launches.start token found, fun _ => .idle⟩ as := by
  have hkept : Kept ⟨Launches.start token found, fun _ => .idle⟩ := by
    refine ⟨locked_start token found, fun x hx => (hx rfl).elim, fun x hx => (hx rfl).elim,
      fun x hx => (hx rfl).elim, fun x hx => ?_⟩
    exact absurd hx.symm (Option.some_ne_none _)
  refine ⟨?_, along_of_inv (I := fun _ => True) (fun _ _ _ _ _ _ => trivial)
    (fun _ _ _ h => apart_of_orderly h) as _ trivial ho⟩
  rintro pre ⟨post, rfl⟩ c hr
  rw [along_append] at ho
  have hc : Kept c := run_inv_along (fun _ _ _ hk hc hs => kept_step hk hc hs) pre _ c hkept ho.1 hr
  exact hc.settled

/-- A launch that keeps running. -/
def launched (r : ℕ) : List (ℕ × Move) := untilMeasuring r ++ [(r, .measured none)]

theorem settled_launched :
    Visits (step (act "mac")) Settled signedIn (launched 0) ∧
      Along (step (act "mac")) (Apart "mac") signedIn (launched 0) :=
  settled_of_orderly "mac" (some ⟨1, 0⟩) (fun _ => false) (launched 0) (by decide +kernel)

/-! ## Three ways to confuse the tables -/

/-- The user quits, and neither process ends. -/
def unstoppable : List (ℕ × Move) :=
  launched 0 ++ [(1, .terminate), (1, .waited), (1, .waited)]

/-- The store is closed before its first latency is there. -/
def closedEarly : List (ℕ × Move) :=
  untilMeasuring 0 ++ [(1, .close "7"), (0, .measured none)]

/-- The browser ends, the store is closed and launched again, all before the notice is handled. -/
def relaunched : List (ℕ × Move) :=
  launched 0 ++ [(0, .exit 0 .browser), (0, .close "7")] ++ launched 1

/-- A task that does not occur in a run is on nothing. -/
theorem not_inProgress_of_run {as : List (ℕ × Move)} {c : Crew App Task}
    (hr : run (step (act "mac")) signedIn as = some c)
    (h : ∀ r ∈ as.map Prod.fst, ¬ Task.InProgress (c.loc r)) (r : ℕ) :
    ¬ Task.InProgress (c.loc r) := by
  by_cases hmem : r ∈ as.map Prod.fst
  · exact h r hmem
  · rw [run_loc_of_notMem hr hmem]
    show ¬ Task.InProgress .idle
    decide

/-- **The tables disagree**: after a quit that failed, the store is on record and its state is `failed`;
a launch goes on to poll a store that has been closed; the notice of an exit tears down another pair. -/
theorem tables_disagree :
    (∃ c, run (step (act "mac")) signedIn unstoppable = some c ∧ ¬ Consistent c) ∧
    (∃ c, run (step (act "mac")) signedIn closedEarly = some c ∧ ¬ Consistent c) ∧
    ∃ c, run (step (act "mac")) signedIn relaunched = some c ∧
      ¬ Apart "mac" c (2, .notice ⟨"7", 0, .browser⟩) := by
  have hquit : ((run (step (act "mac")) signedIn unstoppable).any fun c =>
      (∀ r ∈ unstoppable.map Prod.fst, ¬ Task.InProgress (c.loc r)) ∧
        c.shared.states "7" ≠ some .running ∧ "7" ∈ c.shared.running) = true := by decide +kernel
  have hclose : ((run (step (act "mac")) signedIn closedEarly).any fun c =>
      (∀ r ∈ closedEarly.map Prod.fst, ¬ Task.InProgress (c.loc r)) ∧
        c.shared.latencyTasks "7" ≠ none ∧ "7" ∉ c.shared.running) = true := by decide +kernel
  have hnotice : ((run (step (act "mac")) signedIn relaunched).any fun c =>
      (step (act "mac") c (2, .notice ⟨"7", 0, .browser⟩)).any fun c' =>
        c.shared.running.lookup "7" = some 1 ∧ c'.shared.running.lookup "7" = none) = true := by
    decide +kernel
  obtain ⟨c, hc, h⟩ := (Option.any_eq_true _ _).mp hquit
  obtain ⟨d, hd, h'⟩ := (Option.any_eq_true _ _).mp hclose
  obtain ⟨e, he, h''⟩ := (Option.any_eq_true _ _).mp hnotice
  obtain ⟨e', he', h''⟩ := (Option.any_eq_true _ _).mp h''
  obtain ⟨hidle, hstate, hrun⟩ := of_decide_eq_true h
  obtain ⟨hidle', htask, hnot⟩ := of_decide_eq_true h'
  obtain ⟨hone, hnone⟩ := of_decide_eq_true h''
  refine ⟨⟨c, hc, fun hcons => ?_⟩, ⟨d, hd, fun hcons => ?_⟩, e, he, fun hap => ?_⟩
  · exact hstate ((hcons (not_inProgress_of_run hc hidle) "7").2.mpr hrun)
  · exact hnot ((hcons (not_inProgress_of_run hd hidle') "7").1 (.inl htask))
  · rcases hap ⟨"7", 0, .browser⟩ rfl e' he' 1 hone with hkept | hsame
    · exact absurd (hkept.symm.trans hnone) (Option.some_ne_none 1)
    · exact absurd hsame Nat.one_ne_zero

end IdenGrid.Client.Tables
