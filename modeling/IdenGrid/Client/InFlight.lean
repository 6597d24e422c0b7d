import IdenGrid.Client.Frames

/-! # Launches in flight at a sign-out or a quit

`signOut` and `quitAllAndWait` only look at the records in `running`; a launch that is still on its way
finds out about neither. It starts its agent or its browser afterwards whenever an answer arrives on
which it would have started it anyway (`covered_iff`). -/

namespace IdenGrid.Client.InFlight

open IdenGrid.Lib.Run IdenGrid.Lib.Requests IdenGrid.Client.Launches IdenGrid.Client.Launches.App
open IdenGrid.Client.Frames

variable {device : String}

/-- The task is on a launch that began before a call of `signOut` or
`prepareForApplicationTermination` that has finished meanwhile, with success. -/
def overtaken (c : Crew App Task) (r : ℕ) : Bool :=
  (c.loc r).launch?.any fun l => c.shared.finished.any fun call => l.began < call

/-- From `s` to `s'` no process is started and no store put on record. -/
structure Stays (s s' : App) : Prop where
  processes : s'.processes.length ≤ s.processes.length
  running : ∀ x p, s'.running.lookup x = some p → s.running.lookup x = some p

/-- The step is not one of an overtaken launch, or starts nothing. -/
def Covered (device : String) (c : Crew App Task) (e : ℕ × Move) : Prop :=
  overtaken c e.1 = true → ∀ c', step (act device) c e = some c' → Stays c.shared c'.shared

/-- The move lets a launch at `t` start a process. -/
def opens (s : App) : Task → Move → Bool
  | .preflighting l _ (some (.ok _)), .preflight prepared =>
    prepared.starts ∧ s.running.lookup l.store.id = none ∧ s.locks l.store.id = none
  | .verifying l _, .egress answer browser => egressFailure l answer = none ∧ browser = none
  | _, _ => false

/-- No answer arrives on which an overtaken launch would start something. -/
def Quiet (c : Crew App Task) (e : ℕ × Move) : Prop :=
  overtaken c e.1 = true → opens c.shared (c.loc e.1) e.2 = false

instance decidableQuiet (c : Crew App Task) (e : ℕ × Move) : Decidable (Quiet c e) :=
  inferInstanceAs (Decidable (_ → _))

/-! ## What starts nothing -/

namespace Stays

theorem refl (s : App) : Stays s s := ⟨le_rfl, fun _ _ => id⟩

theorem trans {s s' s'' : App} (h : Stays s s') (h' : Stays s' s'') : Stays s s'' :=
  ⟨h'.processes.trans h.processes, fun x p hx => h.running x p (h'.running x p hx)⟩

theorem of_eq {s s' : App} (hp : s'.processes.length = s.processes.length)
    (hr : s'.running = s.running) : Stays s s' :=
  ⟨hp.le, fun x p hx => by rwa [hr] at hx⟩

end Stays

theorem lookup_of_erase {s : App} {x y : String} {p : ℕ}
    (h : (s.running.erase x).lookup y = some p) : s.running.lookup y = some p := by
  rcases eq_or_ne y x with rfl | hne
  · rw [AList.lookup_erase] at h
    exact absurd h.symm (Option.some_ne_none p)
  · rwa [AList.lookup_erase_ne hne] at h

theorem length_terminate (s : App) (launch : ℕ) (kind : Kind) :
    (s.terminate launch kind).processes.length = s.processes.length := List.length_map _

theorem stays_tearDown (s : App) (x : String) (state : LaunchState) :
    Stays s (s.tearDown x state) := by
  unfold tearDown
  split
  · exact .of_eq rfl rfl
  · next p hp =>
    refine ⟨?_, fun y q hy => lookup_of_erase hy⟩
    exact ((length_terminate _ p .agent).trans (length_terminate _ p .browser)).le

theorem frame_stays : Frame Stays where
  same hs := .of_eq (congrArg (fun u => u.processes.length) hs) (congrArg Tables.running hs)
  trans := .trans
  tearDown s x _ _ := stays_tearDown s x _
  closeAfter s x := (stays_tearDown s x .idle).trans (.of_eq rfl rfl)
  exit s _ := ⟨List.length_filter_le _ s.processes, fun _ _ => id⟩
  answered _ _ := .of_eq rfl rfl

theorem stays_abandon (r : ℕ) (s : App) (l : Launch) (lease : ℕ) (failure : Failure) :
    Stays s (abandon r s l lease failure).1 := .of_eq (length_terminate s r .agent) rfl

theorem stays_ready (r : ℕ) (s : App) (l : Launch) (lease : ℕ) (failure : Option Failure) :
    Stays s (ready r s l lease failure).1 := by
  cases failure with
  | none => exact .of_eq rfl rfl
  | some failure => exact stays_abandon r s l lease failure

theorem stays_queried (r : ℕ) (s : App) (l : Launch) (lease : ℕ)
    (answer : Except Failure AgentStatus) : Stays s (queried device r s l lease answer).1 := by
  unfold queried
  split
  · exact stays_abandon r s l lease _
  · split
    · split
      · exact stays_abandon r s l lease _
      · exact .refl s
    · exact stays_abandon r s l lease _

theorem stays_refreshEdgeLatency (s : App) (store : String) (answer : Option AgentStatus) :
    Stays s (refreshEdgeLatency s store answer) := by
  obtain ⟨latencies, hs⟩ := refreshEdgeLatency_eq s store answer
  rw [hs]
  exact .of_eq rfl rfl

/-! ## The two steps that start something -/

theorem stays_enter {r : ℕ} {s : App} {l : Launch} {lease : ℕ} {retried : Bool}
    {prepared : Prepared}
    (h : opens s (.preflighting l retried (some (.ok lease))) (.preflight prepared) = false) :
    Stays s (enter r s l lease prepared).1 := by
  unfold enter
  split
  · exact .refl s
  · next hrun =>
    dsimp only
    have hstarts : ∀ prepared : Prepared, prepared.starts = true → s.locks l.store.id = none →
        opens s (.preflighting l retried (some (.ok lease))) (.preflight prepared) = true :=
      fun _ hp hlock => decide_eq_true ⟨hp, AList.lookup_eq_none.mpr hrun, hlock⟩
    split
    · exact .of_eq rfl rfl
    · exact .of_eq rfl rfl
    · exact .of_eq rfl rfl
    · next failure hlock =>
      exact absurd h (by rw [hstarts (.leaked failure) rfl hlock]; decide)
    · next hlock =>
      exact absurd h (by rw [hstarts .spawned rfl hlock]; decide)

theorem stays_verified {r : ℕ} {s : App} {l : Launch} {lease : ℕ}
    {answer : Except Failure (ℕ × Option String)} {browser : Option Failure}
    (h : opens s (.verifying l lease) (.egress answer browser) = false) :
    Stays s (verified r s l lease answer browser).1 := by
  unfold verified
  split
  · exact stays_abandon r s l lease _
  · next hor =>
    rw [Option.or_eq_none_iff] at hor
    have hopens : opens s (.verifying l lease) (.egress answer browser) = true :=
      decide_eq_true hor
    rw [hopens] at h
    exact absurd h Bool.true_eq_false_eq_False

theorem grows_of_opens {r : ℕ} {s s' : App} {t t' : Task} {m : Move} (h : opens s t m = true)
    (hact : act device r s t m = some (s', t')) : s.processes.length < s'.processes.length := by
  unfold opens at h
  split at h
  · next prepared =>
    obtain ⟨hstarts, hrun, hlock⟩ := of_decide_eq_true h
    obtain rfl := congrArg Prod.fst (Option.some.inj hact)
    dsimp only [preflighted, enter]
    rw [if_neg (AList.lookup_eq_none.mp hrun), hlock]
    cases prepared with
    | unlocked | locked => exact absurd hstarts Bool.false_ne_true
    | leaked | spawned => exact Nat.lt_succ_self _
  · obtain ⟨hegress, rfl⟩ := of_decide_eq_true h
    obtain rfl := congrArg Prod.fst (Option.some.inj hact)
    dsimp only [verified]
    rw [hegress]
    exact Nat.lt_succ_self _
  · exact absurd h Bool.false_ne_true

theorem stays_special {r : ℕ} {s : App} {t : Task} {m : Move} {l : Launch} {p : App × Task}
    (ht : t.launch? = some l) (h : opens s t m = false) (hs : Special device r s t m p) :
    Stays s p.1 := by
  have hnone : ∀ {P : Prop}, none = some l → P := fun hl => absurd hl.symm (Option.some_ne_none l)
  cases hs with
  | entered l retried lease prepared => exact stays_enter h
  | ready l lease failure => exact stays_ready r s l lease failure
  | queried l lease answer => exact stays_queried r s l lease answer
  | verified l lease answer browser => exact stays_verified h
  | measured l answer => exact (stays_refreshEdgeLatency s _ _).trans (.of_eq rfl rfl)
  | polled | terminated | browserWaited | agentWaited => exact hnone ht

theorem stays_of_not_opens {r : ℕ} {s s' : App} {t t' : Task} {m : Move} {l : Launch}
    (ht : t.launch? = some l) (h : opens s t m = false)
    (hact : act device r s t m = some (s', t')) : Stays s s' := by
  rcases frame_stays.act hact with hplain | hspecial
  · exact hplain.1
  · exact stays_special ht h hspecial

/-! ## Runs -/

/-- One step of an overtaken launch starts nothing exactly if no answer arrives on which it would. -/
theorem covered_iff_quiet {c c' : Crew App Task} {e : ℕ × Move}
    (hs : step (act device) c e = some c') : Covered device c e ↔ Quiet c e := by
  obtain ⟨s', t', hact, rfl⟩ := step_eq_some.mp hs
  constructor
  · intro hc ho
    by_contra hopens
    have hgrows := grows_of_opens (Bool.eq_true_of_not_eq_false hopens) hact
    exact absurd (hc ho _ hs).processes (not_le.mpr hgrows)
  · intro hq ho c' hc'
    obtain ⟨s'', t'', hact', rfl⟩ := step_eq_some.mp hc'
    obtain ⟨l, hl, -⟩ := (Option.any_eq_true _ _).mp ho
    exact stays_of_not_opens hl (hq ho) hact'

/-- **Launches in flight**: in every run, from any state, no launch that began before a finished
sign-out or a successful quit starts a process or goes on record afterwards, exactly if each gets no
answer on which it would. -/
theorem covered_iff (device : String) :
    ∀ (as : List (ℕ × Move)) (c t : Crew App Task), run (step (act device)) c as = some t →
      (Along (step (act device)) (Covered device) c as ↔ Along (step (act device)) Quiet c as)
  | [], _, _, _ => Iff.rfl
  | e :: as, c, t, hr => by
    obtain ⟨c', hs, hr⟩ := run_eq_some_cons.mp hr
    rw [along_cons, along_cons]
    refine and_congr (covered_iff_quiet hs) (forall₂_congr fun d hd => ?_)
    obtain rfl := Option.some.inj (hs.symm.trans hd)
    exact covered_iff device as c' t hr

/-! ## Two launches that are not covered -/

/-- The user signs out while `api.preflight` is under way. -/
def signedOut : List (ℕ × Move) :=
  [(0, .launch sampleStore), (1, .signOut), (1, .loggedOut), (0, .serve (some true))]

/-- The user quits while `verifyEgress` is under way, and nothing is running. -/
def terminated : List (ℕ × Move) := untilVerifying 0 ++ [(1, .terminate)]

/-- **A launch outlives a sign-out and a quit**: the agent is started after the sign-out has finished,
the browser after `quitAllAndWait` has returned `true`. -/
theorem launch_outlives_quit :
    (∃ c, run (step (act "mac")) signedIn signedOut = some c ∧
      ¬ Covered "mac" c (0, .preflight .spawned)) ∧
    ∃ c, run (step (act "mac")) signedIn terminated = some c ∧
      ¬ Covered "mac" c (0, .egress (.ok (200, some "192.0.2.1")) none) := by
  have hstarts : ∀ {c : Crew App Task} {e : ℕ × Move}, (overtaken c e.1 &&
      (step (act "mac") c e).any fun c' =>
        c.shared.processes.length < c'.shared.processes.length) = true → ¬ Covered "mac" c e := by
    intro c e h hc
    obtain ⟨ho, hs⟩ := Bool.and_eq_true_iff.mp h
    obtain ⟨c', hs, hlt⟩ := (Option.any_eq_true _ _).mp hs
    exact absurd (hc ho c' hs).processes (not_le.mpr (of_decide_eq_true hlt))
  have hout : ((run (step (act "mac")) signedIn signedOut).any fun c => overtaken c 0 &&
      (step (act "mac") c (0, .preflight .spawned)).any fun c' =>
        c.shared.processes.length < c'.shared.processes.length) = true := by decide +kernel
  have hquit : ((run (step (act "mac")) signedIn terminated).any fun c => overtaken c 0 &&
      (step (act "mac") c (0, .egress (.ok (200, some "192.0.2.1")) none)).any fun c' =>
        c.shared.processes.length < c'.shared.processes.length) = true := by decide +kernel
  obtain ⟨c, hc, hlate⟩ := (Option.any_eq_true _ _).mp hout
  obtain ⟨d, hd, hlate'⟩ := (Option.any_eq_true _ _).mp hquit
  exact ⟨⟨c, hc, hstarts hlate⟩, d, hd, hstarts hlate'⟩

/-- Central turns the launch away after the sign-out. -/
def refused : List (ℕ × Move) :=
  [(0, .launch sampleStore), (1, .signOut), (1, .loggedOut), (0, .serve (some false)),
    (0, .preflight .spawned)]

theorem covered_refused : ∃ t, run (step (act "mac")) signedIn refused = some t ∧
    Along (step (act "mac")) (Covered "mac") signedIn refused := by
  obtain ⟨t, ht⟩ : ∃ t, run (step (act "mac")) signedIn refused = some t :=
    Option.isSome_iff_exists.mp (by decide +kernel)
  have hq : Along (step (act "mac")) Quiet signedIn refused := by decide +kernel
  exact ⟨t, ht, (covered_iff "mac" refused signedIn t ht).mpr hq⟩

end IdenGrid.Client.InFlight
