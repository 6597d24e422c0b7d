import IdenGrid.Client.Frames
import IdenGrid.Client.Instances

/-! # One store of the app

`Launches` has all stores of one instance of the app and takes the file operations of a launch for one
step; `Instances` has the lock file of one store and takes them apart. `projects_of_run`: whatever the
app does, what it does to a store is a run of one instance there.

A launch is the task with twice its number. Each `close` of the store and each stop of it by
`quitAllAndWait` is a task of its own there, with an odd number that has not been used. -/

namespace IdenGrid.Client.Projection

open IdenGrid.Lib.Run IdenGrid.Lib.Requests IdenGrid.Client.Launches IdenGrid.Client.Launches.App
open IdenGrid.Client.Frames
open IdenGrid.Client.Instances
  (solo Unused lockedBy run_entered run_verified run_release run_close run_quit run_started)

variable {device x : String}

/-! ## What is seen of the store -/

def kindOf : Kind → Instances.Kind
  | .agent => .agent
  | .browser => .browser

def processOf (p : Process) : Instances.Process := ⟨2 * p.launch, kindOf p.kind⟩

/-- The processes of the store. -/
def seen (x : String) (s : App) : List Instances.Process :=
  (s.processes.filter fun p => p.store = x).map processOf

/-- The world shows the store as the app has it; the app is the instance 1. -/
structure Shows (x : String) (s : App) (w : Instances.World) : Prop where
  alive : w.apps 1 = .alive
  lock : w.lock = none ↔ s.locks x = none
  running : w.running 1 = (s.running.lookup x).map (2 * ·)
  processes : w.processes = seen x s

/-- Nothing of the store changes. -/
structure SameStore (x : String) (s s' : App) : Prop where
  lock : s'.locks x = s.locks x
  running : s'.running.lookup x = s.running.lookup x
  processes : seen x s' = seen x s

theorem Shows.same {s s' : App} {w : Instances.World} (h : Shows x s w) (hs : SameStore x s s') :
    Shows x s' w where
  alive := h.alive
  lock := by rw [hs.lock]; exact h.lock
  running := by rw [hs.running]; exact h.running
  processes := by rw [hs.processes]; exact h.processes

theorem SameStore.of_tables {s s' : App} (h : tables s' = tables s) : SameStore x s s' where
  lock := congrFun (congrArg Tables.locks h) x
  running := congrArg (AList.lookup x) (congrArg Tables.running h)
  processes := congrArg (fun ps => (ps.filter fun p => p.store = x).map processOf)
    (congrArg Tables.processes h)

theorem kindOf_inj {k k' : Kind} (h : kindOf k = kindOf k') : k = k' := by
  cases k <;> cases k' <;> first | rfl | exact Instances.Kind.noConfusion h

/-- Being told to end does not show. -/
theorem seen_terminate (s : App) (launch : ℕ) (kind : Kind) :
    seen x (s.terminate launch kind) = seen x s := by
  unfold seen App.terminate
  rw [List.filter_map, List.map_map]
  have hstore : ((fun p : Process => decide (p.store = x)) ∘ fun p =>
      if p.launch = launch ∧ p.kind = kind then { p with terminated := true } else p) =
      fun p => decide (p.store = x) := by
    funext p
    dsimp only [Function.comp_apply]
    split <;> rfl
  rw [hstore]
  refine List.map_congr_left fun p _ => ?_
  dsimp only [Function.comp_apply]
  split <;> rfl

theorem seen_exit (s : App) (p : Process) :
    seen x (exit s p) = (seen x s).filter fun q => q ≠ processOf p := by
  unfold seen exit
  rw [List.filter_map, List.filter_filter, List.filter_filter]
  refine congrArg (List.map processOf) (List.filter_congr fun q _ => ?_)
  have hsame : processOf q = processOf p ↔ q.launch = p.launch ∧ q.kind = p.kind := by
    constructor
    · intro h
      obtain ⟨hlaunch, hkind⟩ := Instances.Process.mk.inj h
      exact ⟨Nat.eq_of_mul_eq_mul_left Nat.two_pos hlaunch, kindOf_inj hkind⟩
    · rintro ⟨hlaunch, hkind⟩
      rw [processOf, processOf, hlaunch, hkind]
  simp only [Function.comp_apply, ne_eq, hsame, Bool.and_comm]

/-- A process of the store is spawned. -/
theorem seen_spawned {s s' : App} {p : Process} (h : s'.processes = p :: s.processes)
    (hx : p.store = x) : seen x s' = processOf p :: seen x s := by
  rw [seen, h, List.filter_cons_of_pos (by simpa using hx)]
  rfl

theorem seen_other {s s' : App} {p : Process} (h : s'.processes = p :: s.processes)
    (hx : p.store ≠ x) : seen x s' = seen x s := by
  rw [seen, h, List.filter_cons_of_neg (by simpa using hx)]
  rfl

theorem isRunning_iff {s : App} {w : Instances.World} (h : Shows x s w) (launch : ℕ) (kind : Kind) :
    w.isRunning (2 * launch) (kindOf kind) = s.isRunning x launch kind := by
  unfold Instances.World.isRunning App.isRunning
  rw [h.processes, Bool.eq_iff_iff, decide_eq_true_iff, List.any_eq_true, seen, List.mem_map]
  constructor
  · rintro ⟨p, hp, heq⟩
    obtain ⟨hmem, hstore⟩ := List.mem_filter.mp hp
    obtain ⟨hlaunch, hkind⟩ := Instances.Process.mk.inj heq
    exact ⟨p, hmem, decide_eq_true ⟨of_decide_eq_true hstore,
      Nat.eq_of_mul_eq_mul_left Nat.two_pos hlaunch, kindOf_inj hkind⟩⟩
  · rintro ⟨p, hmem, hp⟩
    obtain ⟨hstore, rfl, rfl⟩ := of_decide_eq_true hp
    exact ⟨p, List.mem_filter.mpr ⟨hmem, decide_eq_true hstore⟩, rfl⟩

/-- Another store is torn down. -/
theorem sameStore_tearDown {y : String} (hne : x ≠ y) (s : App) (state : LaunchState) :
    SameStore x s (s.tearDown y state) := by
  unfold tearDown
  split
  · exact ⟨rfl, rfl, rfl⟩
  · refine ⟨Function.update_of_ne hne _ _, AList.lookup_erase_ne hne, ?_⟩
    exact (seen_terminate _ _ _).trans (seen_terminate _ _ _)

/-! ## What the steps of any task come to -/

/-- The instance has followed the app, with helpers of which none was in use. -/
structure Follows (x : String) (s' : App) (n : ℕ) (d d' : Crew Instances.World Instances.Task) :
    Prop where
  shows : Shows x s' d'.shared
  others : ∀ i, (∀ k, n ≤ k → i ≠ 2 * k + 1) → d'.loc i = d.loc i

/-- The instance can follow the app from `s` to `s'`. -/
def Leads (x : String) (s s' : App) : Prop :=
  ∀ n d, Shows x s d.shared → Unused n d.loc →
    ∃ bs d' n', run (step Instances.act) d bs = some d' ∧ Follows x s' n d d' ∧ n ≤ n' ∧
      Unused n' d'.loc

theorem Leads.same {s s' : App} (h : SameStore x s s') : Leads x s s' := fun n d hd hn =>
  ⟨[], d, n, rfl, ⟨hd.same h, fun _ _ => rfl⟩, le_rfl, hn⟩

theorem Leads.trans {s s' s'' : App} (h : Leads x s s') (h' : Leads x s' s'') : Leads x s s'' := by
  intro n d hd hn
  obtain ⟨bs, d', n', hbs, hf, hle, hn'⟩ := h n d hd hn
  obtain ⟨cs, d'', n'', hcs, hf', hle', hn''⟩ := h' n' d' hf.shows hn'
  refine ⟨bs ++ cs, d'', n'', by rw [run_append, hbs]; exact hcs, ⟨hf'.shows, fun i hi => ?_⟩,
    hle.trans hle', hn''⟩
  exact (hf'.others i fun k hk => hi k (hle.trans hk)).trans (hf.others i hi)

/-- One helper does it. -/
theorem Leads.solo {s s' : App} (h : ∀ i w, Shows x s w →
    ∃ ms w' u', run (solo i) (w, .idle) ms = some (w', u') ∧ Shows x s' w') : Leads x s s' := by
  intro n d hd hn
  obtain ⟨ms, w', u', hr, hw'⟩ := h (2 * n + 1) d.shared hd
  refine ⟨_, _, n + 1, run_solo (hn n le_rfl) hr, ⟨hw', fun i hi => ?_⟩, Nat.le_succ n, fun k hk => ?_⟩
  · exact Function.update_of_ne (hi n le_rfl) _ _
  · exact (Function.update_of_ne (by omega) _ _).trans (hn k (by omega))

/-- The store is closed. -/
theorem leads_tearDown (s : App) (y : String) (state : LaunchState) :
    Leads x s (s.tearDown y state) := by
  rcases eq_or_ne x y with rfl | hne
  · rcases hrun : s.running.lookup x with _ | launch
    · refine .same ?_
      unfold tearDown
      rw [hrun]
      exact ⟨rfl, rfl, rfl⟩
    · refine .solo fun i w hw => ⟨[.close 1, .release], { w with
        running := Function.update w.running 1 none, lock := none }, .ended, ?_, ?_⟩
      · have hrecord : (w.running 1).isSome = true := by rw [hw.running, hrun]; rfl
        exact run_close hw.alive hrecord
      · unfold tearDown
        rw [hrun]
        refine ⟨hw.alive, iff_of_true rfl (Function.update_self x _ _), ?_, ?_⟩
        · change Function.update w.running 1 none 1 = ((s.running.erase x).lookup x).map (2 * ·)
          rw [Function.update_self, AList.lookup_erase]
          rfl
        · exact hw.processes.trans
            ((seen_terminate _ _ _).trans (seen_terminate _ _ _)).symm
  · exact .same (sameStore_tearDown hne s state)

theorem leads_exit (s : App) (p : Process) : Leads x s (exit s p) := by
  refine .solo fun i w hw => ⟨[.exit (2 * p.launch) (kindOf p.kind)], { w with
    processes := w.processes.filter fun q => q ≠ processOf p }, .idle, rfl, ?_⟩
  exact ⟨hw.alive, hw.lock, hw.running, by rw [seen_exit, ← hw.processes]⟩

theorem frame_leads : Frame (Leads x) where
  same h := .same (.of_tables h)
  trans := .trans
  tearDown s y _ _ := leads_tearDown s y _
  closeAfter s y := (leads_tearDown s y .idle).trans (.same ⟨rfl, rfl, rfl⟩)
  exit s p := leads_exit s p
  answered _ _ := .same ⟨rfl, rfl, rfl⟩

/-! ## Where the tasks stand -/

/-- The task has not come into the process manager yet. -/
def Early : Task → Bool
  | .idle | .preflighting _ _ _ | .refreshing _ _ | .delivering _ _ _ => true
  | _ => false

/-- Where the launch stands on the lock file, if it is or may still get there. -/
def launching? (x : String) : Task → Option Instances.Task
  | .idle | .preflighting _ _ _ | .refreshing _ _ | .delivering _ _ _ => some .idle
  | .waiting l _ | .querying l _ | .verifying l _ =>
    if l.store.id = x then some (.waiting 1) else none
  | _ => none

/-- Where the helper of a task that stops the store stands. -/
def stopping? (x : String) : Task → Option Instances.Task
  | .stopping _ store record browserStopped _ _ =>
    if store = x then some (.stopping 1 (2 * record) browserStopped) else none
  | _ => none

/-- Every task that stops the store has a helper of its own, one of the first `n`. -/
structure Helpers (x : String) (loc : ℕ → Task) (loc' : ℕ → Instances.Task) (n : ℕ) (f : ℕ → ℕ) :
    Prop where
  unused : Unused n loc'
  stands : ∀ r, ∀ u ∈ stopping? x (loc r), f r < n ∧ loc' (2 * f r + 1) = u
  inj : ∀ q r, (stopping? x (loc q)).isSome = true → (stopping? x (loc r)).isSome = true →
    f q = f r → q = r

/-- **The instance is where the app is**, as far as the store goes. -/
structure Projects (x : String) (c : Crew App Task) (d : Crew Instances.World Instances.Task) :
    Prop where
  shows : Shows x c.shared d.shared
  launches : ∀ r, ∀ u ∈ launching? x (c.loc r), d.loc (2 * r) = u
  helpers : ∃ n f, Helpers x c.loc d.loc n f

theorem launching?_of_early {t : Task} (h : Early t = true) : launching? x t = some .idle := by
  cases t <;> first | rfl | exact absurd h Bool.false_ne_true

theorem launching?_of_idles {t' : Task} (h : Task.store? t' = none) :
    launching? x t' = none ∨ Early t' = true := by
  cases t' <;> first | exact .inl rfl | exact .inr rfl | exact absurd h (Option.some_ne_none _)

theorem stopping?_of_stops {t : Task} (h : Task.stops t = none) : stopping? x t = none := by
  cases t <;> first | rfl | exact absurd h (Option.some_ne_none _)

theorem quitAllAndWait_late (r began : ℕ) : ∀ (keys : List String) (s : App) (success : Bool),
    launching? x (quitAllAndWait r began s success keys).2 = none ∧
      Early (quitAllAndWait r began s success keys).2 = false
  | [], _, _ => ⟨rfl, rfl⟩
  | y :: keys, s, success => by
    unfold quitAllAndWait
    split
    · exact quitAllAndWait_late r began keys _ success
    · exact ⟨rfl, rfl⟩

/-- A task that has come into the process manager does not get out of it again. -/
theorem early_of_act {r : ℕ} {s s' : App} {t t' : Task} {m : Move}
    (hact : act device r s t m = some (s', t')) (h : Early t' = true) : Early t = true := by
  have late : ∀ {p : App × Task}, Early p.2 = false → some p = some (s', t') → Early t = true := by
    rintro p hp he
    obtain rfl := Option.some.inj he
    exact absurd (hp.symm.trans h) Bool.false_ne_true
  have stays : ∀ {s₁ : App}, some (s₁, t) = some (s', t') → Early t = true := by
    rintro s₁ he
    obtain ⟨-, rfl⟩ := Prod.mk.inj (Option.some.inj he)
    exact h
  unfold Launches.act at hact
  split at hact <;> first | rfl | exact stays hact | skip
  · next failure _ _ => exact late (by cases failure <;> rfl) hact
  · refine late ?_ hact
    unfold queried
    split
    · rfl
    · split
      · split <;> rfl
      · rfl
  · refine late ?_ hact
    unfold verified
    split <;> rfl
  · exact late rfl hact
  · refine late ?_ hact
    dsimp only
    split <;> rfl
  · refine late ?_ hact
    dsimp only
    split <;> rfl
  · exact late rfl hact
  · refine late ?_ hact
    unfold stopped
    dsimp only
    split
    · exact (quitAllAndWait_late (x := "") r _ _ _ _).2
    · exact (quitAllAndWait_late (x := "") r _ _ _ _).2
  · exact late rfl hact
  · exact late rfl hact
  · obtain ⟨p, -, hp⟩ := Option.map_eq_some_iff.mp hact
    exact stays (congrArg some hp)
  · split at hact
    · exact stays hact
    · exact absurd hact.symm (Option.some_ne_none _)
  · exact absurd hact.symm (Option.some_ne_none _)

/-! ## The steps of a launch -/

/-- The instance can follow the step of the launch `r`, whose task stands at `u`. -/
structure Takes (x : String) (r : ℕ) (u : Instances.Task) (s : App) (p : App × Task) : Prop where
  launches : stopping? x p.2 = none
  follows : ∀ w, Shows x s w → ∃ ms w' u', run (solo (2 * r)) (w, u) ms = some (w', u') ∧
    Shows x p.1 w' ∧ ∀ v ∈ launching? x p.2, u' = v

theorem Takes.same {r : ℕ} {u : Instances.Task} {s : App} {p : App × Task}
    (hs : SameStore x s p.1) (hp : ∀ v ∈ launching? x p.2, u = v)
    (hstops : stopping? x p.2 = none) : Takes x r u s p :=
  ⟨hstops, fun w hw => ⟨[], w, u, rfl, hw.same hs, hp⟩⟩

/-- The task is over with the store. -/
theorem Takes.leaves {r : ℕ} {u : Instances.Task} {s : App} {p : App × Task}
    (hs : SameStore x s p.1) (hp : launching? x p.2 = none) (hstops : stopping? x p.2 = none) :
    Takes x r u s p :=
  .same hs (fun v hv => absurd (hp.symm.trans hv).symm (Option.some_ne_none v)) hstops

/-- A launch fails when its agent is up. -/
theorem takes_abandon (r : ℕ) (s : App) (l : Launch) (lease : ℕ) (failure : Failure)
    {u : Instances.Task} (hu : l.store.id = x → u = .waiting 1) :
    Takes x r u s (abandon r s l lease failure) := by
  rcases eq_or_ne l.store.id x with rfl | hne
  · obtain rfl := hu rfl
    refine ⟨rfl, fun w hw => ⟨[.verified false, .release], _, _,
      (run_verified hw.alive false _).trans (run_release hw.alive), ?_, fun v hv => ?_⟩⟩
    · exact ⟨hw.alive, iff_of_true rfl (Function.update_self _ _ _), hw.running,
        hw.processes.trans (seen_terminate s r .agent).symm⟩
    · exact absurd hv.symm (Option.some_ne_none v)
  · refine .leaves ⟨Function.update_of_ne hne.symm _ _, rfl, seen_terminate s r .agent⟩ rfl rfl

/-- `launch` of the manager up to its first await. -/
theorem takes_enter (r : ℕ) (s : App) (l : Launch) (lease : ℕ) (prepared : Prepared) :
    Takes x r .idle s (enter r s l lease prepared) := by
  unfold enter
  split
  · exact .leaves ⟨rfl, rfl, rfl⟩ rfl rfl
  · next hrecord =>
    have hrun : s.running.lookup l.store.id = none := AList.lookup_eq_none.mpr hrecord
    have hentered : ∀ {w}, Shows l.store.id s w → s.locks l.store.id = none → ∀ outcome ms,
        run (solo (2 * r)) (w, .idle) (.launch 1 :: .open :: .write :: .prepared outcome :: ms) =
          run (solo (2 * r)) (Instances.prepared (2 * r) (lockedBy (2 * r) w) 1 outcome) ms :=
      fun hw hlock => run_entered hw.alive (by rw [hw.running, hrun]; rfl) (hw.lock.mpr hlock)
    dsimp only
    split
    · exact .leaves ⟨rfl, rfl, rfl⟩ rfl rfl
    · exact .leaves ⟨rfl, rfl, rfl⟩ rfl rfl
    · next failure _ hlock =>
      rcases eq_or_ne l.store.id x with rfl | hne
      · refine ⟨rfl, fun w hw => ⟨_, _, _, (hentered hw hlock .failed [.release]).trans
          (run_release hw.alive), ?_, fun v hv => ?_⟩⟩
        · exact ⟨hw.alive, iff_of_true rfl hlock, hw.running, hw.processes⟩
        · exact absurd hv.symm (Option.some_ne_none v)
      · exact .leaves ⟨rfl, rfl, rfl⟩ rfl rfl
    · next failure _ hlock =>
      rcases eq_or_ne l.store.id x with rfl | hne
      · refine ⟨rfl, fun w hw => ⟨_, _, _, (hentered hw hlock .leaked [.release]).trans
          (run_release hw.alive), ?_, fun v hv => ?_⟩⟩
        · refine ⟨hw.alive, iff_of_true rfl hlock, hw.running, ?_⟩
          exact (congrArg _ hw.processes).trans
            (seen_spawned (p := ⟨r, l.store.id, .agent, false, false⟩) rfl rfl).symm
        · exact absurd hv.symm (Option.some_ne_none v)
      · exact .leaves ⟨rfl, rfl, seen_other rfl hne⟩ rfl rfl
    · next _ hlock =>
      rcases eq_or_ne l.store.id x with rfl | hne
      · refine ⟨rfl, fun w hw => ⟨_, _, _, hentered hw hlock .spawned [], ?_, fun v hv => ?_⟩⟩
        · refine ⟨hw.alive, ?_, hw.running, ?_⟩
          · refine iff_of_false (Option.some_ne_none _) ?_
            change Function.update s.locks l.store.id (some (.created r)) l.store.id ≠ none
            rw [Function.update_self]
            exact Option.some_ne_none _
          · exact (congrArg _ hw.processes).trans
              (seen_spawned (p := ⟨r, l.store.id, .agent, false, true⟩) rfl rfl).symm
        · exact Option.some.inj ((if_pos rfl).symm.trans hv)
      · refine .leaves ⟨Function.update_of_ne hne.symm _ _, rfl, ?_⟩ (if_neg hne) rfl
        exact seen_other rfl hne

theorem takes_queried (r : ℕ) (s : App) (l : Launch) (lease : ℕ)
    (answer : Except Failure AgentStatus) {u : Instances.Task}
    (hu : l.store.id = x → u = .waiting 1) : Takes x r u s (queried device r s l lease answer) := by
  unfold queried
  split
  · exact takes_abandon r s l lease _ hu
  · split
    · split
      · exact takes_abandon r s l lease _ hu
      · refine .same ⟨rfl, rfl, rfl⟩ (fun v hv => ?_) rfl
        obtain ⟨hx, hv⟩ := (Option.ite_none_right_eq_some).mp hv
        exact (hu hx).trans (Option.some.inj hv)
    · exact takes_abandon r s l lease _ hu

/-- The browser, and the record. -/
theorem takes_verified (r : ℕ) (s : App) (l : Launch) (lease : ℕ)
    (answer : Except Failure (ℕ × Option String)) (browser : Option Failure) {u : Instances.Task}
    (hu : l.store.id = x → u = .waiting 1) : Takes x r u s (verified r s l lease answer browser) := by
  unfold verified
  split
  · exact takes_abandon r s l lease _ hu
  · rcases eq_or_ne l.store.id x with rfl | hne
    · obtain rfl := hu rfl
      refine ⟨rfl, fun w hw => ⟨_, _, _, run_verified hw.alive true [], ?_, fun v hv => ?_⟩⟩
      · refine ⟨hw.alive, hw.lock, ?_, ?_⟩
        · change Function.update w.running 1 (some (2 * r)) 1 =
            ((s.running.insert l.store.id r).lookup l.store.id).map (2 * ·)
          rw [Function.update_self, AList.lookup_insert]
          rfl
        · exact (congrArg _ hw.processes).trans
            (seen_spawned (p := ⟨r, l.store.id, .browser, false, true⟩) rfl rfl).symm
      · exact absurd hv.symm (Option.some_ne_none v)
    · exact .leaves ⟨rfl, AList.lookup_insert_ne hne.symm, seen_other rfl hne⟩ rfl rfl

/-! ## The steps of a quit -/

/-- The instance can follow the step of a task that stops stores, with one helper for a store that it
has just begun to stop. -/
def Stops (x : String) (s : App) (p : App × Task) : Prop :=
  ∀ n d, Shows x s d.shared → Unused n d.loc →
    ∃ bs d', run (step Instances.act) d bs = some d' ∧ Shows x p.1 d'.shared ∧
      (∀ i, i ≠ 2 * n + 1 → d'.loc i = d.loc i) ∧ ∀ u ∈ stopping? x p.2, d'.loc (2 * n + 1) = u

theorem Stops.after {s s' : App} {p : App × Task} (h : Stops x s' p) (hs : SameStore x s s') :
    Stops x s p := fun n d hd hn => h n d (hd.same hs) hn

/-- Nothing more is done to the store. -/
theorem Stops.same {s : App} {p : App × Task} (hs : SameStore x s p.1)
    (hp : stopping? x p.2 = none) : Stops x s p := fun _ d hd _ =>
  ⟨[], d, rfl, hd.same hs, fun _ _ => rfl,
    fun u hu => absurd (hp.symm.trans hu).symm (Option.some_ne_none u)⟩

theorem stops_quitAllAndWait (r began : ℕ) : ∀ (keys : List String) (s : App) (success : Bool),
    Stops x s (quitAllAndWait r began s success keys)
  | [], s, success => by
    refine .same ?_ rfl
    unfold quitAllAndWait
    dsimp only
    split
    · exact ⟨rfl, rfl, rfl⟩
    · exact ⟨rfl, rfl, rfl⟩
  | y :: keys, s, success => by
    unfold quitAllAndWait
    split
    · exact (stops_quitAllAndWait r began keys (s.stopPolling y) success).after ⟨rfl, rfl, rfl⟩
    · next record hrun =>
      rcases eq_or_ne y x with rfl | hne
      · intro n d hd hn
        have hrecord : d.shared.running 1 = some (2 * record) := by
          rw [hd.running, hrun]
          rfl
        have hquit : run (solo (2 * n + 1)) (d.shared, .idle) [.quit 1] =
            some ({ d.shared with running := Function.update d.shared.running 1 none },
              .stopping 1 (2 * record) none) := run_quit hd.alive hrecord
        refine ⟨_, _, run_solo (hn n le_rfl) hquit, ?_, fun i hi => Function.update_of_ne hi _ _,
          fun u hu => ?_⟩
        · refine ⟨hd.alive, hd.lock, ?_, hd.processes.trans (seen_terminate _ _ _).symm⟩
          change Function.update d.shared.running 1 none 1 =
            ((s.running.erase y).lookup y).map (2 * ·)
          rw [Function.update_self, AList.lookup_erase]
          rfl
        · exact (Function.update_self _ _ _).trans (Option.some.inj ((if_pos rfl).symm.trans hu))
      · refine .same ⟨rfl, ?_, seen_terminate _ _ _⟩ (if_neg hne)
        exact AList.lookup_erase_ne hne.symm

/-- The store `y` has been stopped, or not; then the quit goes on. -/
theorem stops_stopped (r : ℕ) (s : App) (began : ℕ) (y : String) (record : ℕ)
    (browserStopped : Bool) (rest : List String) (success : Bool) : ∃ s₁,
    Stops x s₁ (stopped r s began y record
      (browserStopped ∧ ¬ s.isRunning y record .agent) rest success) ∧
    launching? x (stopped r s began y record
      (browserStopped ∧ ¬ s.isRunning y record .agent) rest success).2 = none ∧
    (y ≠ x → SameStore x s s₁) ∧
    (y = x → ∀ i w, Shows x s w → ∃ ms w',
      run (solo i) (w, .stopping 1 (2 * record) (some browserStopped)) ms = some (w', .ended) ∧
      Shows x s₁ w') := by
  have hwaited : ∀ {i w}, w.apps 1 = .alive → ∀ ms,
      run (solo i) (w, .stopping 1 (2 * record) (some browserStopped)) (.waited :: ms) =
        run (solo i) (Instances.stopped w 1 (2 * record)
          (browserStopped ∧ ¬ w.isRunning (2 * record) .agent)) ms := by
    intro i w hw ms
    simp [run, solo, Instances.act, Instances.advance, Instances.Task.app?, hw]
  have hsame : ∀ {w}, Shows x s w → y = x →
      decide (browserStopped = true ∧ ¬ w.isRunning (2 * record) .agent = true) =
        decide (browserStopped = true ∧ ¬ s.isRunning y record .agent = true) := by
    rintro w hw rfl
    have hagent : w.isRunning (2 * record) .agent = s.isRunning y record .agent :=
      isRunning_iff hw record .agent
    rw [hagent]
  generalize hboth : decide (browserStopped = true ∧ ¬ s.isRunning y record .agent = true) = both
  rw [hboth] at hsame
  unfold stopped
  dsimp only
  cases both with
  | true =>
    refine ⟨_, stops_quitAllAndWait r began rest _ success,
      (quitAllAndWait_late r began rest _ success).1, fun hne => ?_, ?_⟩
    · exact ⟨Function.update_of_ne hne.symm _ _, rfl, rfl⟩
    · rintro rfl i w hw
      refine ⟨[.waited, .release], { w with lock := none }, ?_, ?_⟩
      · rw [hwaited hw.alive, hsame hw rfl]
        exact run_release hw.alive
      · exact ⟨hw.alive, iff_of_true rfl (Function.update_self y _ _), hw.running, hw.processes⟩
  | false =>
    refine ⟨_, stops_quitAllAndWait r began rest _ false,
      (quitAllAndWait_late r began rest _ false).1, fun hne => ?_, ?_⟩
    · exact ⟨rfl, AList.lookup_insert_ne hne.symm, rfl⟩
    · rintro rfl i w hw
      refine ⟨[.waited], { w with running := Function.update w.running 1 (some (2 * record)) }, ?_, ?_⟩
      · rw [hwaited hw.alive, hsame hw rfl]
        rfl
      · refine ⟨hw.alive, hw.lock, ?_, hw.processes⟩
        change Function.update w.running 1 (some (2 * record)) 1 =
          ((s.running.insert y record).lookup y).map (2 * ·)
        rw [Function.update_self, AList.lookup_insert]
        rfl

/-! ## Runs -/

theorem Helpers.next {loc : ℕ → Task} {loc' loc'' : ℕ → Instances.Task} {n n' g r : ℕ} {f : ℕ → ℕ}
    {t' : Task} (h : Helpers x loc loc' n f) (hle : n ≤ n') (hu : Unused n' loc'')
    (hg : ∀ u ∈ stopping? x t', g < n' ∧ loc'' (2 * g + 1) = u)
    (hne : ∀ q, q ≠ r → (stopping? x (loc q)).isSome = true → (stopping? x t').isSome = true →
      f q ≠ g)
    (hsame : ∀ q, q ≠ r → (stopping? x (loc q)).isSome = true →
      loc'' (2 * f q + 1) = loc' (2 * f q + 1)) :
    Helpers x (Function.update loc r t') loc'' n' (Function.update f r g) where
  unused := hu
  stands q u hq := by
    rcases eq_or_ne q r with rfl | hqr
    · rw [Function.update_self] at hq ⊢
      exact hg u hq
    · rw [Function.update_of_ne hqr] at hq ⊢
      obtain ⟨hlt, hstand⟩ := h.stands q u hq
      exact ⟨hlt.trans_le hle, (hsame q hqr (Option.isSome_iff_exists.mpr ⟨u, hq⟩)).trans hstand⟩
  inj p q hp hq heq := by
    rcases eq_or_ne p r with rfl | hpr <;> rcases eq_or_ne q p with rfl | hqp
    · rfl
    · rw [Function.update_self] at hp heq
      rw [Function.update_of_ne hqp] at hq heq
      exact absurd heq.symm (hne q hqp hq hp)
    · rfl
    · rcases eq_or_ne q r with rfl | hqr
      · rw [Function.update_self] at hq heq
        rw [Function.update_of_ne hpr] at hp heq
        exact absurd heq (hne p hpr hp hq)
      · rw [Function.update_of_ne hpr] at hp heq
        rw [Function.update_of_ne hqr] at hq heq
        exact h.inj p q hp hq heq

theorem Projects.next {c : Crew App Task} {d d' : Crew Instances.World Instances.Task} {r : ℕ}
    {s' : App} {t' : Task} (h : Projects x c d) (hshows : Shows x s' d'.shared)
    (hlaunch : ∀ u ∈ launching? x t', d'.loc (2 * r) = u)
    (hlaunches : ∀ q, q ≠ r → d'.loc (2 * q) = d.loc (2 * q))
    (hhelpers : ∃ n f, Helpers x (Function.update c.loc r t') d'.loc n f) :
    Projects x ⟨s', Function.update c.loc r t'⟩ d' where
  shows := hshows
  launches q u hq := by
    change u ∈ launching? x (Function.update c.loc r t' q) at hq
    rcases eq_or_ne q r with rfl | hqr
    · rw [Function.update_self] at hq
      exact hlaunch u hq
    · rw [Function.update_of_ne hqr] at hq
      exact (hlaunches q hqr).trans (h.launches q u hq)
  helpers := hhelpers

section Step

variable {c : Crew App Task} {d : Crew Instances.World Instances.Task} {r : ℕ} {s' : App} {t' : Task}

/-- What the instance does for one step of the app. -/
def Followed (x : String) (d : Crew Instances.World Instances.Task) (c' : Crew App Task) : Prop :=
  ∃ bs d', run (step Instances.act) d bs = some d' ∧ Projects x c' d'

theorem followed_launch (h : Projects x c d) (ht : Takes x r (d.loc (2 * r)) c.shared (s', t')) :
    Followed x d ⟨s', Function.update c.loc r t'⟩ := by
  obtain ⟨n, f, hf⟩ := h.helpers
  obtain ⟨ms, w', u', hr, hw', hu'⟩ := ht.follows d.shared h.shows
  have hodd : ∀ k, Function.update d.loc (2 * r) u' (2 * k + 1) = d.loc (2 * k + 1) := fun k =>
    Function.update_of_ne (by omega) _ _
  refine ⟨_, _, run_solo rfl hr, h.next hw' (fun u hu => ?_) (fun q hq => ?_) ⟨n, _,
    hf.next (g := 0) le_rfl (fun k hk => ?_) (fun u hu => ?_) (fun _ _ _ hs => ?_) fun q _ _ => ?_⟩⟩
  · exact (Function.update_self _ _ _).trans (hu' u hu)
  · exact Function.update_of_ne (by omega) _ _
  · exact (hodd k).trans (hf.unused k hk)
  · exact absurd (ht.launches.symm.trans hu).symm (Option.some_ne_none u)
  · rw [show stopping? x t' = none from ht.launches] at hs
    exact absurd hs Bool.false_ne_true
  · exact hodd (f q)

/-- A step that only closes stores or has nothing to do with them. -/
theorem followed_frame (h : Projects x c d) (hs : Leads x c.shared s') (hi : Idles (c.loc r) t')
    (hearly : Early t' = true → Early (c.loc r) = true) :
    Followed x d ⟨s', Function.update c.loc r t'⟩ := by
  obtain ⟨n, f, hf⟩ := h.helpers
  obtain ⟨bs, d', n', hr, hfollows, hle, hn'⟩ := hs n d h.shows hf.unused
  have heven : ∀ q, d'.loc (2 * q) = d.loc (2 * q) := fun q =>
    hfollows.others (2 * q) fun k _ => by omega
  have hhelper : ∀ q, (stopping? x (c.loc q)).isSome = true →
      d'.loc (2 * f q + 1) = d.loc (2 * f q + 1) := fun q hq => by
    obtain ⟨u, hu⟩ := Option.isSome_iff_exists.mp hq
    have hlt := (hf.stands q u hu).1
    exact hfollows.others _ fun k hk => by omega
  -- the task still stops the store only if it has not moved
  have hstops : stopping? x t' = none ∨ t' = c.loc r := by
    rcases hi with ht | ⟨-, ht, -⟩
    · exact .inr ht
    · exact .inl (stopping?_of_stops ht)
  refine ⟨bs, d', hr, h.next hfollows.shows (fun u hu => ?_) (fun q _ => heven q) ⟨n', _,
    hf.next (g := f r) hle hn' (fun u hu => ?_) (fun q hqr hq ht => ?_) fun q _ hq => hhelper q hq⟩⟩
  · rcases hi with rfl | ⟨-, -, hstore⟩
    · exact (heven r).trans (h.launches r u hu)
    · rcases launching?_of_idles (x := x) hstore with hnone | he
      · exact absurd (hnone.symm.trans hu).symm (Option.some_ne_none u)
      · rw [launching?_of_early he] at hu
        rw [← Option.some.inj hu]
        exact (heven r).trans (h.launches r _ (launching?_of_early (hearly he)))
  · rcases hstops with hnone | rfl
    · exact absurd (hnone.symm.trans hu).symm (Option.some_ne_none u)
    · obtain ⟨hlt, hstand⟩ := hf.stands r u hu
      exact ⟨hlt.trans_le hle, (hhelper r (Option.isSome_iff_exists.mpr ⟨u, hu⟩)).trans hstand⟩
  · rcases hstops with hnone | rfl
    · rw [hnone] at ht
      exact absurd ht Bool.false_ne_true
    · exact fun heq => hqr (hf.inj q r hq ht heq)

/-- The task begins to stop a store. -/
theorem followed_stops (h : Projects x c d) (hs : Stops x c.shared (s', t'))
    (hlaunch : launching? x t' = none) : Followed x d ⟨s', Function.update c.loc r t'⟩ := by
  obtain ⟨n, f, hf⟩ := h.helpers
  obtain ⟨bs, d', hr, hshows, hothers, hstands⟩ := hs n d h.shows hf.unused
  have hlt : ∀ q, (stopping? x (c.loc q)).isSome = true → f q < n := fun q hq => by
    obtain ⟨u, hu⟩ := Option.isSome_iff_exists.mp hq
    exact (hf.stands q u hu).1
  refine ⟨bs, d', hr, h.next hshows (fun u hu => ?_) (fun q _ => hothers _ (by omega)) ⟨n + 1, _,
    hf.next (g := n) (Nat.le_succ n) (fun k hk => ?_) (fun u hu => ⟨Nat.lt_succ_self n, hstands u hu⟩)
      (fun q _ hq _ => (hlt q hq).ne) fun q _ hq => hothers _ ?_⟩⟩
  · exact absurd (hlaunch.symm.trans hu).symm (Option.some_ne_none u)
  · exact (hothers _ (by omega)).trans (hf.unused k (by omega))
  · have := hlt q hq
    omega

/-- The helper of the task moves. -/
theorem followed_helper (h : Projects x c d) {u u' : Instances.Task}
    (hu : u ∈ stopping? x (c.loc r))
    (hrun : ∀ i, ∃ ms w', run (solo i) (d.shared, u) ms = some (w', u') ∧ Shows x s' w')
    (hlaunch : launching? x t' = none) (hstand : ∀ v ∈ stopping? x t', u' = v) :
    Followed x d ⟨s', Function.update c.loc r t'⟩ := by
  obtain ⟨n, f, hf⟩ := h.helpers
  obtain ⟨hlt, hloc⟩ := hf.stands r u hu
  have hsome : (stopping? x (c.loc r)).isSome = true := Option.isSome_iff_exists.mpr ⟨u, hu⟩
  obtain ⟨ms, w', hms, hshows⟩ := hrun (2 * f r + 1)
  refine ⟨_, _, run_solo hloc hms, h.next hshows (fun v hv => ?_) (fun q _ => ?_) ⟨n, _,
    hf.next (g := f r) le_rfl (fun k hk => ?_) (fun v hv => ⟨hlt, ?_⟩) (fun q hqr hq _ => ?_)
      fun q hqr hq => ?_⟩⟩
  · exact absurd (hlaunch.symm.trans hv).symm (Option.some_ne_none v)
  · exact Function.update_of_ne (by omega) _ _
  · exact (Function.update_of_ne (by omega) _ _).trans (hf.unused k hk)
  · exact (Function.update_self _ _ _).trans (hstand v hv)
  · exact fun heq => hqr (hf.inj q r hq hsome heq)
  · refine Function.update_of_ne (fun heq => hqr (hf.inj q r hq hsome ?_)) _ _
    omega

theorem followed_browserWaited (h : Projects x c d) {began record : ℕ} {y : String}
    {rest : List String} {success : Bool} (ht : c.loc r = .stopping began y record none rest success) :
    Followed x d ⟨c.shared.terminate record .agent, Function.update c.loc r
      (.stopping began y record (some ¬ c.shared.isRunning y record .browser) rest success)⟩ := by
  rcases eq_or_ne y x with rfl | hne
  · have hu : Instances.Task.stopping 1 (2 * record) none ∈ stopping? y (c.loc r) := by
      rw [ht]
      exact if_pos rfl
    have hbrowser : d.shared.isRunning (2 * record) .browser =
        c.shared.isRunning y record .browser := isRunning_iff h.shows record .browser
    refine followed_helper h hu (fun i => ⟨[.waited], d.shared, ?_,
      h.shows.same ⟨rfl, rfl, seen_terminate _ _ _⟩⟩) rfl
      fun v hv => Option.some.inj ((if_pos rfl).symm.trans hv)
    simp [run, solo, Instances.act, Instances.advance, Instances.Task.app?, h.shows.alive, hbrowser]
  · exact followed_launch h (.leaves ⟨rfl, rfl, seen_terminate _ _ _⟩ rfl (if_neg hne))

theorem followed_agentWaited (h : Projects x c d) {began record : ℕ} {y : String}
    {browserStopped : Bool} {rest : List String} {success : Bool}
    (ht : c.loc r = .stopping began y record (some browserStopped) rest success)
    (hp : stopped r c.shared began y record
      (browserStopped ∧ ¬ c.shared.isRunning y record .agent) rest success = (s', t')) :
    Followed x d ⟨s', Function.update c.loc r t'⟩ := by
  obtain ⟨s₁, hstops, hlaunch, hother, hown⟩ :=
    stops_stopped (x := x) r c.shared began y record browserStopped rest success
  rw [hp] at hstops hlaunch
  have hended : Followed x d ⟨s₁, Function.update c.loc r .ended⟩ := by
    rcases eq_or_ne y x with rfl | hne
    · have hu : Instances.Task.stopping 1 (2 * record) (some browserStopped) ∈
          stopping? y (c.loc r) := by
        rw [ht]
        exact if_pos rfl
      exact followed_helper h hu (fun i => hown rfl i d.shared h.shows) rfl
        fun v hv => absurd hv.symm (Option.some_ne_none v)
    · exact followed_launch h (.leaves (hother hne) rfl rfl)
  obtain ⟨bs, d', hr, h'⟩ := hended
  obtain ⟨cs, d'', hr', h''⟩ := followed_stops (r := r) h' hstops hlaunch
  rw [Function.update_idem] at h''
  exact ⟨bs ++ cs, d'', by rw [run_append, hr]; exact hr', h''⟩

theorem followed_special (h : Projects x c d) {t : Task} {m : Move} (ht : c.loc r = t)
    (hs : Special device r c.shared t m (s', t')) :
    Followed x d ⟨s', Function.update c.loc r t'⟩ := by
  have hwaiting : ∀ {l : Launch}, launching? x t =
      (if l.store.id = x then some (.waiting 1) else none) →
        l.store.id = x → d.loc (2 * r) = .waiting 1 := by
    intro l hl hx
    exact h.launches r _ (by rw [ht, hl, if_pos hx]; rfl)
  generalize hp : (s', t') = p at hs
  cases hs with
  | entered l retried lease prepared =>
    have hidle : d.loc (2 * r) = .idle := h.launches r _ (by rw [ht]; rfl)
    exact followed_launch h (hp ▸ hidle ▸ takes_enter r c.shared l lease prepared)
  | ready l lease failure =>
    refine followed_launch h (hp ▸ ?_)
    cases failure with
    | none => exact .same ⟨rfl, rfl, rfl⟩ (fun v hv => h.launches r v (by rw [ht]; exact hv)) rfl
    | some failure => exact takes_abandon r c.shared l lease failure (hwaiting rfl)
  | queried l lease answer =>
    exact followed_launch h (hp ▸ takes_queried r c.shared l lease answer (hwaiting rfl))
  | verified l lease answer browser =>
    exact followed_launch h (hp ▸ takes_verified r c.shared l lease answer browser (hwaiting rfl))
  | measured l answer =>
    obtain ⟨latencies, hs⟩ := refreshEdgeLatency_eq c.shared l.store.id answer
    refine followed_launch h (hp ▸ .leaves ?_ rfl rfl)
    rw [hs]
    exact ⟨rfl, rfl, rfl⟩
  | polled store answer =>
    obtain ⟨latencies, hs⟩ := refreshEdgeLatency_eq c.shared store answer
    refine followed_launch h (hp ▸ .leaves ?_ ?_ ?_)
    · rw [hs]
      exact ⟨rfl, rfl, rfl⟩
    · dsimp only
      split <;> rfl
    · dsimp only
      split <;> rfl
  | terminated =>
    refine followed_stops h (hp ▸ ?_) ?_
    · exact (stops_quitAllAndWait r _ _ _ true).after ⟨rfl, rfl, rfl⟩
    · exact (congrArg (fun p => launching? x p.2) hp).trans (quitAllAndWait_late r _ _ _ true).1
  | browserWaited began store record rest success =>
    obtain ⟨rfl, rfl⟩ := Prod.mk.inj hp
    exact followed_browserWaited h ht
  | agentWaited began store record browserStopped rest success =>
    exact followed_agentWaited h ht hp.symm

end Step

/-- **One step of the app** is a run of the instance. -/
theorem followed_step {c c' : Crew App Task} {d : Crew Instances.World Instances.Task}
    {e : ℕ × Move} (h : Projects x c d) (hs : step (act device) c e = some c') :
    Followed x d c' := by
  obtain ⟨s', t', hact, rfl⟩ := step_eq_some.mp hs
  rcases frame_leads.act hact with ⟨hleads, hidles⟩ | hspecial
  · exact followed_frame h hleads hidles (early_of_act hact)
  · exact followed_special h rfl hspecial

/-- The instance has started and has left the lock file where it was. -/
theorem projects_start (token : Option AccessToken) (found : String → Bool)
    {lock : Option Instances.LockFile} (hlock : lock.isSome = found x) : ∃ bs d,
      run (step Instances.act) (Instances.before lock) bs = some d ∧
        Projects x ⟨start token found, fun _ => .idle⟩ d := by
  have hlockNone : lock = none ↔ (start token found).locks x = none := by
    change lock = none ↔ (if found x then some Lock.found else none) = none
    rw [← hlock]
    cases lock <;> simp
  obtain ⟨ms, hms⟩ := run_started lock
  have hloc : ∀ i, i ≠ 1 → Function.update (Instances.before lock).loc 1 .ended i = .idle :=
    fun i hi => Function.update_of_ne hi _ _
  refine ⟨_, _, run_solo rfl hms, ⟨?_, hlockNone, rfl, rfl⟩, fun r u hu => ?_, 1, id,
    fun k hk => ?_, fun r u hu => ?_, fun q r hq => ?_⟩
  · change Function.update (Instances.before lock).shared.apps 1 .alive 1 = .alive
    exact Function.update_self _ _ _
  · exact (hloc (2 * r) (by omega)).trans (Option.some.inj hu)
  · exact hloc (2 * k + 1) (by omega)
  · exact absurd hu.symm (Option.some_ne_none u)
  · exact absurd hq Bool.false_ne_true

/-- **One store of the app**: whatever the app does, what it does to a store is a run of one instance
on its lock file, with the same record and processes, and a lock file at the same times. -/
theorem projects_of_run (device x : String) (token : Option AccessToken) (found : String → Bool)
    {lock : Option Instances.LockFile} (hlock : lock.isSome = found x) {as : List (ℕ × Move)}
    {c : Crew App Task} (hr : run (step (act device)) ⟨start token found, fun _ => .idle⟩ as = some c) :
    ∃ bs d, run (step Instances.act) (Instances.before lock) bs = some d ∧ Projects x c d := by
  obtain ⟨bs, d, hbs, hd⟩ := projects_start token found hlock
  obtain ⟨cs, d', hcs, hd'⟩ :=
    run_simulates (fun _ _ _ _ h hs => followed_step h hs) as _ c d hd hr
  exact ⟨bs ++ cs, d', by rw [run_append, hbs]; exact hcs, hd'⟩

end IdenGrid.Client.Projection
