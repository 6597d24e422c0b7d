import IdenGrid.Client.Locks

/-! # Two launches of one store

Central gives both launches the same lease. The guard of the manager looks at `running`, which is filled
at the end of a launch only, so that the second launch fails on the lock of the first and then gives
back the lease of both. `Alone` excludes this, a launch that starts while an earlier one is still
giving back the lease, and one that fails when its agent is up. -/

namespace IdenGrid.Client.Duplicates

open IdenGrid.Lib.Run IdenGrid.Lib.Requests IdenGrid.Client.Launches IdenGrid.Client.Launches.App
open IdenGrid.Client.Frames IdenGrid.Client.Locks

variable {device : String}

/-- The agent of the launch `p` is starting or running in the store. -/
def uses (s : App) (x : String) (p : ℕ) : Bool :=
  s.running.lookup x = some p ∨
    s.processes.any fun q => q.store = x ∧ q.launch = p ∧ q.kind = .agent ∧ q.terminated = false

def LaunchState.isFailed : Option LaunchState → Bool
  | some (.failed _) => true
  | _ => false

/-- The moves with which a task goes on with its launch. -/
def Move.continues : Move → Bool
  | .serve _ | .preflight _ | .renewed _ | .delivered _ | .finish | .ready _ | .status _
  | .egress _ _ | .measured _ | .disconnected _ => true
  | _ => false

/-- No lease of a store is on its way back to Central while an agent is starting or running there. -/
def Undisturbed (s : App) : Prop := ∀ d ∈ s.disconnects, ∀ p, uses s d.store p = false

/-- No launch turns the state of a store into `failed` whose agent another launch has started. -/
def Spared (device : String) (c : Crew App Task) (e : ℕ × Move) : Prop :=
  Move.continues e.2 = true → (c.loc e.1).launch? ≠ none → ∀ c', step (act device) c e = some c' →
    ∀ x p, p ≠ e.1 → uses c.shared x p = true →
      LaunchState.isFailed (c.shared.states x) = false →
      LaunchState.isFailed (c'.shared.states x) = false

/-- A launch of the app has created the lock file. -/
def claimed : Option Lock → Bool
  | some (.created _) => true
  | _ => false

/-- The condition on a step. -/
def alone (s : App) (t : Task) (m : Move) : Bool :=
  match m, t with
  | .preflight prepared, .preflighting l _ (some (.ok _)) =>
    l.store.id ∈ s.running ∨ prepared.leaks = false ∧
      claimed (s.locks l.store.id) = false ∧ ∀ d ∈ s.disconnects, d.store ≠ l.store.id
  | .finish, .delivering (some _) [] failed =>
    ∀ x ∈ failed, s.running.lookup x = none ∧
      ∀ q ∈ s.processes, ¬ (q.store = x ∧ q.kind = .agent ∧ q.terminated = false)
  | _, _ => true

def Alone (c : Crew App Task) (e : ℕ × Move) : Prop := alone c.shared (c.loc e.1) e.2 = true

instance decidableAlone (c : Crew App Task) (e : ℕ × Move) : Decidable (Alone c e) :=
  inferInstanceAs (Decidable (_ = _))

/-! ## Who uses a store -/

/-- No launch has the lock of a store while its lease is on its way back, and every process can be told
to end. -/
structure Returned (s : App) : Prop where
  free : ∀ d ∈ s.disconnects, claimed (s.locks d.store) = false
  held : ∀ p ∈ s.processes, p.held = true

theorem locks_of_uses {s : App} (h : Locked s) (hr : Returned s) {x : String} {p : ℕ}
    (hu : uses s x p = true) : s.locks x = some (.created p) := by
  rcases of_decide_eq_true hu with hrun | hp
  · exact (h.record x p hrun).1
  · obtain ⟨q, hq, hp⟩ := List.any_eq_true.mp hp
    obtain ⟨rfl, rfl, hk, ht⟩ := of_decide_eq_true hp
    exact h.agent q hq ⟨hk, ht, hr.held q hq⟩

theorem Returned.undisturbed {s : App} (h : Returned s) (hl : Locked s) : Undisturbed s := by
  intro d hd p
  by_contra hu
  have hfree := h.free d hd
  rw [locks_of_uses hl h (Bool.eq_true_of_not_eq_false hu)] at hfree
  exact Bool.true_eq_false_eq_False hfree

/-! ## The leases on their way back -/

/-- From `s` to `s'` no lock is taken, no lease sent back and no process lost. -/
structure Frees (s s' : App) : Prop where
  locks : ∀ x, claimed (s.locks x) = false → claimed (s'.locks x) = false
  disconnects : ∀ d ∈ s'.disconnects, d ∈ s.disconnects
  held : (∀ p ∈ s.processes, p.held = true) → ∀ p ∈ s'.processes, p.held = true

theorem Frees.of_eq {s s' : App} (hl : s'.locks = s.locks) (hd : s'.disconnects = s.disconnects)
    (hp : s'.processes = s.processes) : Frees s s' :=
  ⟨fun x hx => by rw [hl]; exact hx, fun d h => by rwa [hd] at h, by rw [hp]; exact id⟩

theorem Frees.trans {s s' s'' : App} (h : Frees s s') (h' : Frees s' s'') : Frees s s'' :=
  ⟨fun x hx => h'.locks x (h.locks x hx), fun d hd => h.disconnects d (h'.disconnects d hd),
    h'.held ∘ h.held⟩

theorem Frees.after {s s' s'' : App} (h' : Frees s' s'') (h : Frees s s') : Frees s s'' := h.trans h'

theorem Returned.of_frees {s s' : App} (h : Returned s) (hf : Frees s s') : Returned s' where
  free d hd := hf.locks d.store (h.free d (hf.disconnects d hd))
  held := hf.held h.held

theorem held_terminate {s : App} (h : ∀ p ∈ s.processes, p.held = true) (launch : ℕ) (kind : Kind) :
    ∀ p ∈ (s.terminate launch kind).processes, p.held = true := by
  intro p hp
  obtain ⟨q, hq, rfl⟩ := mem_terminate.mp hp
  split
  · exact h q hq
  · exact h q hq

theorem claimed_update {f : String → Option Lock} {x y : String} (h : claimed (f y) = false) :
    claimed (Function.update f x none y) = false := by
  rcases eq_or_ne y x with rfl | hne
  · rw [Function.update_self]
    rfl
  · rw [Function.update_of_ne hne]
    exact h

theorem frees_tearDown (s : App) (x : String) (state : LaunchState) :
    Frees s (s.tearDown x state) := by
  unfold tearDown
  split
  · exact .of_eq rfl rfl rfl
  · exact ⟨fun y hy => claimed_update hy, fun d hd => hd,
      fun h => held_terminate (held_terminate h _ _) _ _⟩

theorem frame_frees : Frame Frees where
  same hs := .of_eq (congrArg Tables.locks hs) (congrArg Tables.disconnects hs)
    (congrArg Tables.processes hs)
  trans := .trans
  tearDown s x _ _ := frees_tearDown s x _
  closeAfter s x := (frees_tearDown s x .idle).trans (.of_eq rfl rfl rfl)
  exit _ _ := ⟨fun _ => id, fun _ => id, fun h p hp => h p (List.mem_of_mem_filter hp)⟩
  answered _ _ := ⟨fun _ => id, fun _ hd => List.mem_of_mem_filter hd, id⟩

theorem frees_quitAllAndWait (r began : ℕ) :
    ∀ (keys : List String) (success : Bool) (s : App),
      Frees s (quitAllAndWait r began s success keys).1
  | [], success, s => by
    unfold quitAllAndWait
    dsimp only
    split
    · exact .of_eq rfl rfl rfl
    · exact .of_eq rfl rfl rfl
  | x :: rest, success, s => by
    unfold quitAllAndWait
    split
    · have hs : Frees s (s.stopPolling x) := .of_eq rfl rfl rfl
      exact hs.trans (frees_quitAllAndWait r began rest success _)
    · exact ⟨fun _ => id, fun _ => id, fun h => held_terminate h _ _⟩

theorem frees_stopped (r began p : ℕ) (s : App) (x : String) (both : Bool) (rest : List String)
    (success : Bool) : Frees s (stopped r s began x p both rest success).1 := by
  cases both with
  | true =>
    exact (frees_quitAllAndWait r began rest success _).after
      ⟨fun y hy => claimed_update hy, fun d hd => hd, id⟩
  | false => exact (frees_quitAllAndWait r began rest false _).after (.of_eq rfl rfl rfl)

section Launch

variable {r : ℕ} {s : App} {l : Launch} {lease : ℕ}

/-- A launch sends its lease back when its lock is free. -/
theorem returned_disconnect {s' : App} (h : Returned s') (hl : claimed (s'.locks l.store.id) = false) :
    Returned (disconnect r s' l lease).1 := by
  refine ⟨fun d hd => ?_, h.held⟩
  rcases List.mem_cons.mp hd with rfl | hd
  · exact hl
  · exact h.free d hd

theorem returned_abandon (h : Returned s) (failure : Failure) :
    Returned (abandon r s l lease failure).1 := by
  have hfree : claimed (Function.update s.locks l.store.id none l.store.id) = false := by
    rw [Function.update_self]
    rfl
  exact returned_disconnect ⟨fun d hd => claimed_update (h.free d hd),
    held_terminate h.held r .agent⟩ hfree

theorem returned_enter {retried : Bool} {prepared : Prepared} (h : Returned s)
    (ha : alone s (.preflighting l retried (some (.ok lease))) (.preflight prepared) = true) :
    Returned (enter r s l lease prepared).1 := by
  unfold enter
  split
  · exact h
  · next hrun =>
    obtain ⟨hleaks, hlock, hback⟩ := (of_decide_eq_true ha).resolve_left hrun
    have hfail : ∀ state, Returned (disconnect r (s.setState l.store.id state) l lease).1 :=
      fun state => returned_disconnect ⟨h.free, h.held⟩ hlock
    dsimp only
    split
    · exact hfail _
    · exact hfail _
    · exact hfail _
    · exact absurd hleaks Bool.true_eq_false_eq_False
    · refine ⟨fun d hd => ?_, fun p hp => ?_⟩
      · exact (congrArg claimed (Function.update_of_ne (hback d hd) _ _)).trans (h.free d hd)
      · rcases List.mem_cons.mp hp with rfl | hp
        · rfl
        · exact h.held p hp

theorem returned_special {t : Task} {m : Move} {p : App × Task} (h : Returned s)
    (ha : alone s t m = true) (hs : Special device r s t m p) : Returned p.1 := by
  cases hs with
  | entered l retried lease prepared => exact returned_enter h ha
  | ready l lease failure =>
    cases failure with
    | none => exact ⟨h.free, h.held⟩
    | some failure => exact returned_abandon h failure
  | queried l lease answer =>
    unfold queried
    split
    · exact returned_abandon h _
    · split
      · split
        · exact returned_abandon h _
        · exact h
      · exact returned_abandon h _
  | verified l lease answer browser =>
    unfold verified
    split
    · exact returned_abandon h _
    · refine ⟨h.free, fun p hp => ?_⟩
      rcases List.mem_cons.mp hp with rfl | hp
      · rfl
      · exact h.held p hp
  | measured l answer =>
    obtain ⟨latencies, hs⟩ := refreshEdgeLatency_eq s l.store.id answer
    rw [hs]
    exact ⟨h.free, h.held⟩
  | polled store answer =>
    obtain ⟨latencies, hs⟩ := refreshEdgeLatency_eq s store answer
    rw [hs]
    exact ⟨h.free, h.held⟩
  | terminated =>
    have hq := frees_quitAllAndWait r s.clock (sorted s.running.keys) true s.tick
    exact h.of_frees (hq.after (.of_eq rfl rfl rfl))
  | browserWaited => exact ⟨h.free, held_terminate h.held _ _⟩
  | agentWaited began store record b rest success =>
    exact h.of_frees (frees_stopped r began record s store _ rest success)

end Launch

/-! ## The states of other stores -/

section States

variable {r : ℕ} {s : App} {l : Launch} {lease : ℕ} {x : String}

theorem states_tearDown_ne {y : String} {state : LaunchState} (h : x ≠ y) :
    (s.tearDown y state).states x = s.states x := by
  unfold tearDown
  split
  · rfl
  · exact Function.update_of_ne h _ _

theorem isFailed_tearDown {y : String} (h : LaunchState.isFailed (s.states x) = false) :
    LaunchState.isFailed ((close s y).states x) = false := by
  unfold close tearDown
  split
  · exact h
  · change LaunchState.isFailed (Function.update s.states y (some .idle) x) = false
    rcases eq_or_ne x y with rfl | hne
    · rw [Function.update_self]
      rfl
    · rw [Function.update_of_ne hne]
      exact h

theorem isFailed_foldl (h : LaunchState.isFailed (s.states x) = false) (keys : List String) :
    LaunchState.isFailed ((keys.foldl close s).states x) = false := by
  induction keys generalizing s with
  | nil => exact h
  | cons y keys ih => exact ih (isFailed_tearDown h)

theorem isFailed_quitAll (s : App) (h : LaunchState.isFailed (s.states x) = false) :
    LaunchState.isFailed ((quitAll s).states x) = false := isFailed_foldl h s.running.keys

theorem states_closeAfter_ne {keys : List String} (h : x ∉ keys) :
    (keys.foldl closeAfterTokenUpdateFailure s).states x = s.states x := by
  induction keys generalizing s with
  | nil => rfl
  | cons y keys ih =>
    obtain ⟨hne, hnot⟩ := List.ne_and_not_mem_of_not_mem_cons h
    rw [List.foldl_cons, ih hnot]
    exact (Function.update_of_ne hne _ _).trans (states_tearDown_ne hne)

theorem states_abandon_ne (h : x ≠ l.store.id) (failure : Failure) :
    (abandon r s l lease failure).1.states x = s.states x := Function.update_of_ne h _ _

theorem states_enter_ne (h : x ≠ l.store.id) (prepared : Prepared) :
    (enter r s l lease prepared).1.states x = s.states x := by
  unfold enter
  split
  · rfl
  · dsimp only
    split
    all_goals exact Function.update_of_ne h _ _

theorem states_ready_ne (h : x ≠ l.store.id) (failure : Option Failure) :
    (ready r s l lease failure).1.states x = s.states x := by
  cases failure with
  | none => exact Function.update_of_ne h _ _
  | some failure => exact states_abandon_ne h failure

theorem states_queried_ne (h : x ≠ l.store.id) (answer : Except Failure AgentStatus) :
    (queried device r s l lease answer).1.states x = s.states x := by
  unfold queried
  split
  · exact states_abandon_ne h _
  · split
    · split
      · exact states_abandon_ne h _
      · rfl
    · exact states_abandon_ne h _

theorem states_verified_ne (h : x ≠ l.store.id) (answer : Except Failure (ℕ × Option String))
    (browser : Option Failure) :
    (verified r s l lease answer browser).1.states x = s.states x := by
  unfold verified
  split
  · exact states_abandon_ne h _
  · exact Function.update_of_ne h _ _

/-- What goes on with a launch and its refresh does not fail a store that another launch uses. -/
theorem isFailed_act {s' : App} {t t' : Task} {m : Move} {p : ℕ} (hl : Locked s)
    (hr : Returned s) (ha : At r s t)
    (halone : alone s t m = true) (hm : Move.continues m = true) (ht : t.launch? ≠ none)
    (hp : p ≠ r) (hu : uses s x p = true) (hact : act device r s t m = some (s', t'))
    (h : LaunchState.isFailed (s.states x) = false) :
    LaunchState.isFailed (s'.states x) = false := by
  have hlock := locks_of_uses hl hr hu
  have hother : ∀ {l : Launch}, Launching s r l.store.id → x ≠ l.store.id := by
    rintro l hx rfl
    exact hp (created_inj (hlock.symm.trans hx.1))
  have same : ∀ {q : App × Task}, q.1.states x = s.states x → some q = some (s', t') →
      LaunchState.isFailed (s'.states x) = false := by
    rintro q hq he
    obtain rfl := Option.some.inj he
    rw [hq]
    exact h
  have hstop : ∀ {P : Prop}, false = true → P := fun hf => absurd hf Bool.false_ne_true
  unfold act at hact
  split at hact
  · exact hstop hm
  · exact hstop hm
  · exact hstop hm
  · exact hstop hm
  · exact hstop hm
  · exact hstop hm
  · exact hstop hm
  · exact hstop hm
  · next accepted l retried =>
    have hserve : (nativeStorePreflight s l).1.states x = s.states x := by
      obtain ⟨leases, issued, hs⟩ := nativeStorePreflight_eq s l
      rw [hs]
    split at hact
    · exact same hserve hact
    · exact same rfl hact
    · exact same rfl hact
  · next l retried answer =>
    refine same ?_ hact
    cases answer with
    | ok lease =>
      rcases of_decide_eq_true halone with hrun | ⟨-, hfree, -⟩
      · -- the launch finds the store on record and leaves
        dsimp only [preflighted, enter]
        rw [if_pos hrun]
      · refine states_enter_ne (fun hx => ?_) _
        rw [← hx, hlock] at hfree
        exact Bool.true_eq_false_eq_False hfree
    | rejected =>
      unfold preflighted refreshAccessTokenIfNeeded
      dsimp only
      split
      · rfl
      · split <;> rfl
    | failed => rfl
  · next answer back generation =>
    obtain rfl : (renewed s back generation answer).1 = s' :=
      congrArg Prod.fst (Option.some.inj hact)
    unfold renewed
    dsimp only
    split
    · split
      · exact h
      · exact isFailed_quitAll { s with isRefreshingAccessToken := false } h
      · exact h
    · exact h
  · exact same rfl hact
  · next back failed =>
    cases back with
    | none => exact absurd rfl ht
    | some l =>
      have hnot : x ∉ sorted failed := by
        intro hx
        obtain ⟨hrun, hproc⟩ := of_decide_eq_true halone x (List.mem_insertionSort _ |>.mp hx)
        rcases of_decide_eq_true hu with hrecord | hq
        · exact absurd (hrecord.symm.trans hrun) (Option.some_ne_none p)
        · obtain ⟨q, hq, hup⟩ := List.any_eq_true.mp hq
          obtain ⟨hx, -, hk, htm⟩ := of_decide_eq_true hup
          exact hproc q hq ⟨hx, hk, htm⟩
      refine same ?_ hact
      have hstates := states_closeAfter_ne (s := { s with isRefreshingAccessToken := false }) hnot
      unfold updated
      dsimp only
      split
      · exact hstates
      · exact hstates
  · exact same (states_ready_ne (hother (ha.launching _ rfl)) _) hact
  · exact same (states_queried_ne (hother (ha.launching _ rfl)) _) hact
  · exact same (states_verified_ne (hother (ha.launching _ rfl)) _ _) hact
  · next answer l =>
    refine same ?_ hact
    obtain ⟨latencies, hs⟩ := refreshEdgeLatency_eq s l.store.id answer
    rw [hs]
    rfl
  · exact hstop hm
  · exact absurd rfl ht
  · exact hstop hm
  · exact hstop hm
  · exact hstop hm
  · next served _ =>
    refine same ?_ hact
    obtain ⟨leases, hs⟩ := disconnected_eq r s served
    rw [hs]
  · exact hstop hm
  · exact hstop hm
  · exact hstop hm
  · exact absurd hact.symm (Option.some_ne_none _)

end States

/-! ## Runs -/

/-- The invariant of the runs that meet the condition. -/
def Kept (c : Crew App Task) : Prop := Holds Locked At c ∧ Returned c.shared

theorem kept_step {c c' : Crew App Task} {e : ℕ × Move} (h : Kept c) (ha : Alone c e)
    (hs : step (act device) c e = some c') : Kept c' := by
  refine ⟨locked_step h.1 hs, ?_⟩
  obtain ⟨s', t', hact, rfl⟩ := step_eq_some.mp hs
  rcases frame_frees.act hact with hplain | hspecial
  · exact h.2.of_frees hplain.1
  · exact returned_special h.2 ha hspecial

theorem spared_of_alone {c : Crew App Task} {e : ℕ × Move} (h : Kept c) (ha : Alone c e) :
    Spared device c e := by
  intro hm ht c' hs x p hp hu hstate
  obtain ⟨s', t', hact, rfl⟩ := step_eq_some.mp hs
  exact isFailed_act h.1.1 h.2 (h.1.2 e.1) ha hm ht hp hu hact hstate

/-- **Duplicate launches**: in every run from the start of the app in which no launch comes into the
manager while another has the lock of its store or gives back the lease, or fails there when its agent
is up, and no refresh of a launch finds an agent unreachable, no lease is given back under an agent
that is starting or running, and no launch makes the state of another one `failed`. -/
theorem undisturbed_of_alone (device : String) (token : Option AccessToken) (found : String → Bool)
    (as : List (ℕ × Move))
    (ha : Along (step (act device)) Alone ⟨Launches.start token found, fun _ => .idle⟩ as) :
    Visits (step (act device)) (fun c => Undisturbed c.shared)
        ⟨Launches.start token found, fun _ => .idle⟩ as ∧
      Along (step (act device)) (Spared device) ⟨Launches.start token found, fun _ => .idle⟩ as := by
  have hkept : Kept ⟨Launches.start token found, fun _ => .idle⟩ :=
    ⟨locked_start token found, fun d hd => absurd hd List.not_mem_nil,
      fun p hp => absurd hp List.not_mem_nil⟩
  refine ⟨?_, along_of_inv (I := Kept) (fun _ _ _ hk hc hs => kept_step hk hc hs)
    (fun _ _ hk hc => spared_of_alone hk hc) as _ hkept ha⟩
  rintro pre ⟨post, rfl⟩ c hr
  rw [along_append] at ha
  have hc : Kept c := run_inv_along (fun _ _ _ hk hc hs => kept_step hk hc hs) pre _ c hkept ha.1 hr
  exact hc.2.undisturbed hc.1.1

/-- The second launch finds the store on record. -/
def again : List (ℕ × Move) :=
  untilMeasuring 0 ++
    [(1, .launch sampleStore), (1, .serve (some true)), (1, .preflight .spawned)]

theorem undisturbed_again :
    Visits (step (act "mac")) (fun c => Undisturbed c.shared) signedIn again ∧
      Along (step (act "mac")) (Spared "mac") signedIn again :=
  undisturbed_of_alone "mac" (some ⟨1, 0⟩) (fun _ => false) again (by decide +kernel)

/-- Two clicks, both answered by Central before the first agent is started. -/
def twoClicks : List (ℕ × Move) :=
  [(0, .launch sampleStore), (1, .launch sampleStore), (0, .serve (some true)),
    (1, .serve (some true)), (0, .preflight .spawned), (1, .preflight .spawned)]

/-- A launch fails; before it has given back its lease, the next one has started. -/
def lateReturn : List (ℕ × Move) :=
  [(1, .launch sampleStore), (1, .serve (some true)), (1, .preflight .spawned),
    (1, .ready (some (.process .agentTimeout))), (0, .launch sampleStore), (0, .serve (some true)),
    (0, .preflight .spawned)]

/-- The runs whose next answer takes the lease 0 from the launch 0, which has started its agent. -/
def LosesLease (as : List (ℕ × Move)) : Prop :=
  ∃ c c', run (step (act "mac")) signedIn as = some c ∧
    step (act "mac") c (1, .disconnected true) = some c' ∧ ¬ Undisturbed c.shared ∧
    uses c'.shared "7" 0 = true ∧ c.shared.leases ("7", 1) = some 0 ∧
    c'.shared.leases ("7", 1) = none

theorem losesLease_of_any {as : List (ℕ × Move)}
    (h : ((run (step (act "mac")) signedIn as).any fun c =>
      (step (act "mac") c (1, .disconnected true)).any fun c' =>
        (∃ d ∈ c.shared.disconnects, uses c.shared d.store 0 = true) ∧
          uses c'.shared "7" 0 = true ∧ c.shared.leases ("7", 1) = some 0 ∧
          c'.shared.leases ("7", 1) = none) = true) : LosesLease as := by
  obtain ⟨c, hc, h⟩ := (Option.any_eq_true _ _).mp h
  obtain ⟨c', hc', h⟩ := (Option.any_eq_true _ _).mp h
  obtain ⟨⟨d, hd, hu⟩, hlost⟩ := of_decide_eq_true h
  refine ⟨c, c', hc, hc', fun hund => ?_, hlost⟩
  exact absurd (hu.symm.trans (hund d hd 0)) Bool.true_eq_false_eq_False

/-- **A lease is taken from a launch in progress**: the call of the launch 1 ends it at Central. -/
theorem lease_lost : LosesLease twoClicks ∧ LosesLease lateReturn := by
  refine ⟨losesLease_of_any ?_, losesLease_of_any ?_⟩
  · decide +kernel
  · decide +kernel

end IdenGrid.Client.Duplicates
