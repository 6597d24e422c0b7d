import IdenGrid.Client.Instances
import IdenGrid.Client.Mac

/-! # One store of the signed-in client

`Mac` has the agents of all stores, and a launch gets the lock file, or gives up, in one step;
`Instances` has the lock file and the processes of one store. `stands_of_run`: whatever the client
does, what it does to a store is a run of one instance there, so that a store never has two agents
(`alone_of_run`).

A launch is the task with twice its number, and each `close` or stop of the store is a task of its own,
with an odd number. -/

namespace IdenGrid.Client.Agents

open IdenGrid.Lib.Run IdenGrid.Lib.Requests IdenGrid.Client.Session IdenGrid.Client.Mac
open IdenGrid.Control.Rows IdenGrid.Control.Sessions IdenGrid.Control.Throttle
open IdenGrid.Control.Serial
open IdenGrid.Client.Instances
  (solo Unused run_entered run_verified run_release run_close run_quit run_started)

variable {x : String}

/-! ## What is seen of the store -/

/-- The agents of the store: which, and at what stage. -/
def seen (x : String) (agents : List Agent) : List (ℕ × Stage) :=
  (agents.filter fun a => a.store = x).map fun a => (a.id, a.stage)

theorem seen_filter {agents : List Agent} {f : Agent → Bool} {g : ℕ × Stage → Bool}
    (h : ∀ a, a.store = x → f a = g (a.id, a.stage)) :
    seen x (agents.filter f) = (seen x agents).filter g := by
  unfold seen
  rw [List.filter_map, List.filter_filter, List.filter_filter]
  refine congrArg (List.map _) (List.filter_congr fun a _ => ?_)
  by_cases hx : a.store = x
  · rw [h a hx, Bool.and_comm]
    rfl
  · simp [hx]

theorem seen_map {agents : List Agent} {f : Agent → Agent} {g : ℕ × Stage → ℕ × Stage}
    (hstore : ∀ a, (f a).store = a.store)
    (h : ∀ a, a.store = x → ((f a).id, (f a).stage) = g (a.id, a.stage)) :
    seen x (agents.map f) = (seen x agents).map g := by
  unfold seen
  rw [List.filter_map, List.map_map, List.map_map]
  have hfilter : ((fun a : Agent => decide (a.store = x)) ∘ f) = fun a => decide (a.store = x) :=
    funext fun a => congrArg (fun y => decide (y = x)) (hstore a)
  rw [hfilter]
  exact List.map_congr_left fun a ha => h a (of_decide_eq_true (List.mem_filter.mp ha).2)

theorem seen_map_same {agents : List Agent} {f : Agent → Agent}
    (h : ∀ a, ((f a).store, (f a).id, (f a).stage) = (a.store, a.id, a.stage)) :
    seen x (agents.map f) = seen x agents :=
  (seen_map (g := id) (fun a => congrArg Prod.fst (h a)) fun a _ => congrArg Prod.snd (h a)).trans
    (List.map_id _)

/-- **The instance stands where the agents of the store do.** The lock file is there as long as there
is one; in `running` is the one that runs, with its browser; a task is about to stop the one that is
being stopped. -/
inductive Stands (w : Instances.World) (loc : ℕ → Instances.Task) : List (ℕ × Stage) → Prop
  | free (hlock : w.lock = none) (hrun : w.running 1 = none) : Stands w loc []
  | starting (id : ℕ) (hlock : w.lock ≠ none) (hrun : w.running 1 = none)
      (hloc : loc (2 * id) = .waiting 1) : Stands w loc [(id, .starting)]
  | running (id : ℕ) (hlock : w.lock ≠ none) (hrun : w.running 1 = some (2 * id))
      (hbrowser : ⟨2 * id, .browser⟩ ∈ w.processes) : Stands w loc [(id, .running)]
  | stopping (id k : ℕ) (hlock : w.lock ≠ none) (hrun : w.running 1 = none)
      (hbrowser : ⟨2 * id, .browser⟩ ∈ w.processes)
      (hloc : loc (2 * k + 1) = .stopping 1 (2 * id) none) : Stands w loc [(id, .stopping)]

/-- The instance is alive and shows the agents `v`; the helpers from `n` on have not been used. -/
structure Shows (v : List (ℕ × Stage)) (n : ℕ) (d : Crew Instances.World Instances.Task) : Prop where
  alive : d.shared.apps 1 = .alive
  unused : Unused n d.loc
  stands : Stands d.shared d.loc v

/-- The instance gets to where it shows `v`, and no launch begins. -/
def Reaches (d : Crew Instances.World Instances.Task) (v : List (ℕ × Stage)) : Prop :=
  ∃ bs d' n, run (step Instances.act) d bs = some d' ∧ Shows v n d' ∧
    ∀ q, d.loc (2 * q) = .idle → d'.loc (2 * q) = .idle

/-- The instance can follow the agents of the store from `v` to `v'`. -/
def Leads (v v' : List (ℕ × Stage)) : Prop := ∀ n d, Shows v n d → Reaches d v'

theorem Leads.refl (v : List (ℕ × Stage)) : Leads v v := fun n d h =>
  ⟨[], d, n, rfl, h, fun _ => id⟩

theorem Leads.trans {v v' v'' : List (ℕ × Stage)} (h : Leads v v') (h' : Leads v' v'') :
    Leads v v'' := by
  intro n d hd
  obtain ⟨bs, d', n', hbs, hd', hidle⟩ := h n d hd
  obtain ⟨cs, d'', n'', hcs, hd'', hidle'⟩ := h' n' d' hd'
  exact ⟨bs ++ cs, d'', n'', by rw [run_append, hbs]; exact hcs, hd'', fun q hq => hidle' q (hidle q hq)⟩

/-- One task moves: a new helper, or one that has something to do. -/
theorem Shows.moves {v v' : List (ℕ × Stage)} {n i : ℕ} {d : Crew Instances.World Instances.Task}
    {u u' : Instances.Task} {w' : Instances.World} {ms : List Instances.Move} (h : Shows v n d)
    (hu : d.loc i = u) (hi : u ≠ .idle ∨ i = 2 * n + 1)
    (hr : run (solo i) (d.shared, u) ms = some (w', u')) (halive : w'.apps 1 = .alive)
    (hs : Stands w' (Function.update d.loc i u') v') : Reaches d v' := by
  have hbusy : ∀ j, j ≠ 2 * n + 1 → d.loc j = .idle → j ≠ i := by
    rintro j hj hidle rfl
    rcases hi with hne | rfl
    · exact hne (hu.symm.trans hidle)
    · exact hj rfl
  refine ⟨_, _, n + 1, run_solo hu hr, ⟨halive, fun k hk => ?_, hs⟩, fun q hq => ?_⟩
  · have hidle := h.unused k (by omega)
    exact (Function.update_of_ne (hbusy _ (by omega) hidle) _ _).trans hidle
  · exact (Function.update_of_ne (hbusy _ (by omega) hq) _ _).trans hq

/-! ## What becomes of an agent -/

theorem record_update (running : ℕ → Option ℕ) (record : Option ℕ) :
    Function.update running 1 record 1 = record := Function.update_self _ _ _

section Agent

variable (id : ℕ)

theorem leads_registered : Leads [(id, .starting)] [(id, .running)] := by
  rintro n d h
  cases h.stands with
  | starting _ hlock _ hloc =>
    exact h.moves hloc (.inl Instances.Task.noConfusion) (run_verified h.alive true []) h.alive
      (.running id hlock (record_update d.shared.running (some (2 * id)))
        (List.mem_cons_self ..))

theorem leads_aborted : Leads [(id, .starting)] [] := by
  rintro n d h
  cases h.stands with
  | starting _ _ hrun hloc =>
    exact h.moves hloc (.inl Instances.Task.noConfusion)
      ((run_verified h.alive false [.release]).trans (run_release h.alive)) h.alive (.free rfl hrun)

theorem leads_closed : Leads [(id, .running)] [] := by
  rintro n d h
  cases h.stands with
  | running _ _ hrun _ =>
    have hsome : (d.shared.running 1).isSome = true := by
      rw [hrun]
      rfl
    exact h.moves (h.unused n le_rfl) (.inr rfl) (run_close h.alive hsome) h.alive
      (.free rfl (record_update d.shared.running none))

theorem leads_quitted : Leads [(id, .running)] [(id, .stopping)] := by
  rintro n d h
  cases h.stands with
  | running _ hlock hrun hbrowser =>
    exact h.moves (h.unused n le_rfl) (.inr rfl) (run_quit h.alive hrun) h.alive
      (.stopping id n hlock (record_update d.shared.running none) hbrowser
        (Function.update_self (2 * n + 1) _ d.loc))

/-- Its processes end, and are waited for. -/
theorem leads_ended : Leads [(id, .stopping)] [] := by
  rintro n d h
  cases h.stands with
  | stopping _ k _ hrun _ hloc =>
    have hended : run (solo (2 * k + 1)) (d.shared, .stopping 1 (2 * id) none)
        [.exit (2 * id) .browser, .exit (2 * id) .agent, .waited, .waited, .release] =
        some ({ d.shared with
          processes := (d.shared.processes.filter fun p => p ≠ ⟨2 * id, .browser⟩).filter
            fun p => p ≠ ⟨2 * id, .agent⟩
          lock := none }, .ended) := by
      simp [run, solo, Instances.act, Instances.advance, Instances.Task.app?, Instances.stopped,
        Instances.World.isRunning, h.alive]
    exact h.moves hloc (.inl Instances.Task.noConfusion) hended h.alive (.free rfl hrun)

/-- Its browser does not end. -/
theorem leads_kept : Leads [(id, .stopping)] [(id, .running)] := by
  rintro n d h
  cases h.stands with
  | stopping _ k hlock _ hbrowser hloc =>
    have hkept : run (solo (2 * k + 1)) (d.shared, .stopping 1 (2 * id) none) [.waited, .waited] =
        some ({ d.shared with running := Function.update d.shared.running 1 (some (2 * id)) },
          .ended) := by
      simp [run, solo, Instances.act, Instances.advance, Instances.Task.app?, Instances.stopped,
        Instances.World.isRunning, h.alive, hbrowser]
    exact h.moves hloc (.inl Instances.Task.noConfusion) hkept h.alive
      (.running id hlock (record_update d.shared.running (some (2 * id))) hbrowser)

end Agent

/-- What is done to all agents of the store is done to the one that there is. -/
theorem leads_each {f : List (ℕ × Stage) → List (ℕ × Stage)} (hnone : f [] = [])
    (h : ∀ id stage, Leads [(id, stage)] (f [(id, stage)])) (v : List (ℕ × Stage)) :
    Leads v (f v) := by
  intro n d hd
  cases hd.stands with
  | free => exact hnone.symm ▸ Leads.refl [] n d hd
  | starting id => exact h id _ n d hd
  | running id => exact h id _ n d hd
  | stopping id => exact h id _ n d hd

/-! ## Steps of the client -/

/-- The launch has not got to the lock file yet. -/
def Early : Task → Bool
  | .idle | .launching _ _ _ | .renewed _ | .refreshing _ => true
  | _ => false

/-- The instance can follow, and the task does not get back from the lock file. -/
structure Takes (x : String) (s : App) (t : Task) (p : App × Task) : Prop where
  leads : Leads (seen x s.agents) (seen x p.1.agents)
  early : Early p.2 = true → Early t = true

theorem Takes.same {s : App} {t : Task} {p : App × Task} (hs : p.1.agents = s.agents)
    (ht : Early p.2 = true → Early t = true) : Takes x s t p :=
  ⟨hs ▸ .refl _, ht⟩

/-- The launch is not early any more. -/
theorem Takes.late {s : App} {t : Task} {p : App × Task} (hs : p.1.agents = s.agents)
    (hp : Early p.2 = false) : Takes x s t p :=
  .same hs fun h => absurd (hp.symm.trans h) Bool.false_ne_true

theorem at_store {a : Agent} {store : String} (ha : a.store = x) : a.store = store ↔ store = x := by
  rw [ha]
  exact eq_comm

theorem leads_close (agents : List Agent) (store : String) :
    Leads (seen x agents) (seen x (close agents store)) := by
  rw [show seen x (close agents store) =
      (seen x agents).filter fun p => ¬ (store = x ∧ p.2 = .running) from
    seen_filter fun _ ha => decide_eq_decide.mpr (not_congr (and_congr_left' (at_store ha)))]
  refine leads_each rfl (fun id stage => ?_) (seen x agents)
  by_cases hx : store = x <;> cases stage <;> simp [hx, Leads.refl, leads_closed]

theorem leads_closeAll (failed : List String) (agents : List Agent) :
    Leads (seen x agents) (seen x (failed.foldl close agents)) := by
  induction failed generalizing agents with
  | nil => exact .refl _
  | cons store failed ih => exact (leads_close agents store).trans (ih _)

theorem leads_quitAll (agents : List Agent) : Leads (seen x agents) (seen x (quitAll agents)) := by
  rw [show seen x (quitAll agents) = (seen x agents).filter fun p => p.2 ≠ .running from
    seen_filter fun _ _ => rfl]
  refine leads_each rfl (fun id stage => ?_) (seen x agents)
  cases stage <;> simp [Leads.refl, leads_closed]

/-- What a function does to the agents of the store at one stage. -/
theorem seen_restage {agents : List Agent} {p : Agent → Prop} [DecidablePred p]
    {q : ℕ × Stage → Prop} [DecidablePred q] {stage : Stage}
    (h : ∀ a, a.store = x → (p a ↔ q (a.id, a.stage))) :
    seen x (agents.map fun a => if p a then { a with stage := stage } else a) =
      (seen x agents).map fun b => if q b then (b.1, stage) else b := by
  refine seen_map (fun a => ?_) fun a ha => ?_
  · split <;> rfl
  · by_cases hp : p a
    · rw [if_pos hp, if_pos ((h a ha).mp hp)]
    · rw [if_neg hp, if_neg fun hq => hp ((h a ha).mpr hq)]

theorem leads_quit (agents : List Agent) (store : String) :
    Leads (seen x agents) (seen x (quit agents store)) := by
  rw [show seen x (quit agents store) = (seen x agents).map fun p =>
      if store = x ∧ p.2 = .running then (p.1, .stopping) else p from
    seen_restage fun _ ha => and_congr_left' (at_store ha)]
  refine leads_each rfl (fun id stage => ?_) (seen x agents)
  by_cases hx : store = x <;> cases stage <;> simp [hx, Leads.refl, leads_quitted]

theorem leads_stopped (agents : List Agent) (store : String) (ended : Bool) :
    Leads (seen x agents) (seen x (stopped agents store ended)) := by
  cases ended with
  | true =>
    rw [show seen x (stopped agents store true) =
        (seen x agents).filter fun p => ¬ (store = x ∧ p.2 = .stopping) from
      seen_filter fun _ ha => decide_eq_decide.mpr (not_congr (and_congr_left' (at_store ha)))]
    refine leads_each rfl (fun id stage => ?_) (seen x agents)
    by_cases hx : store = x <;> cases stage <;> simp [hx, Leads.refl, leads_ended]
  | false =>
    rw [show seen x (stopped agents store false) = (seen x agents).map fun p =>
        if store = x ∧ p.2 = .stopping then (p.1, .running) else p from
      seen_restage fun _ ha => and_congr_left' (at_store ha)]
    refine leads_each rfl (fun id stage => ?_) (seen x agents)
    by_cases hx : store = x <;> cases stage <;> simp [hx, Leads.refl, leads_kept]

theorem leads_register (agents : List Agent) (r : ℕ) :
    Leads (seen x agents) (seen x (register agents r)) := by
  rw [show seen x (register agents r) = (seen x agents).map fun p =>
      if p.1 = r ∧ p.2 = .starting then (p.1, .running) else p from
    seen_restage fun _ _ => Iff.rfl]
  refine leads_each rfl (fun id stage => ?_) (seen x agents)
  by_cases hid : id = r <;> cases stage <;> simp [hid, Leads.refl, leads_registered]

theorem leads_abort (agents : List Agent) (r : ℕ) :
    Leads (seen x agents) (seen x (abort agents r)) := by
  rw [show seen x (abort agents r) = (seen x agents).filter fun p => ¬ (p.1 = r ∧ p.2 = .starting) from
    seen_filter fun _ _ => rfl]
  refine leads_each rfl (fun id stage => ?_) (seen x agents)
  by_cases hid : id = r <;> cases stage <;> simp [hid, Leads.refl, leads_aborted]

theorem seen_exit (agents : List Agent) (id : ℕ) : seen x (exit agents id) = seen x agents :=
  seen_map_same fun a => by split <;> rfl

theorem seen_updateToken (agents : List Agent) (id : ℕ) (token : NativeAccess) :
    seen x (updateToken agents id token) = seen x agents :=
  seen_map_same fun a => by split <;> rfl

section Handlers

variable {s : App} {t : Task}

theorem takes_restoreSession (ht : Early t = true) : Takes x s t (restoreSession s) := by
  unfold restoreSession
  split
  · exact .same rfl fun _ => ht
  · exact .same rfl fun _ => ht

theorem takes_sessionRefreshed (began generation : ℕ) (saved : Bool) (answer : Option Answer) :
    Takes x s t (sessionRefreshed s began generation saved answer) := by
  unfold sessionRefreshed
  split
  · split
    · split
      · exact .late rfl rfl
      · exact .late rfl rfl
    · exact .late rfl rfl
    · exact .late rfl rfl
  · exact .late rfl rfl

theorem takes_loggedIn (generation : ℕ) (saved : Bool) (answer : Option Answer) :
    Takes x s t (loggedIn s generation saved answer) := by
  unfold loggedIn
  split
  · split
    · split
      · exact .late rfl rfl
      · exact .late rfl rfl
    · exact .late rfl rfl
  · exact .late rfl rfl

theorem takes_signOut : Takes x s t (signOut s) := by
  unfold signOut
  dsimp only
  split
  · exact ⟨leads_quitAll s.agents, fun h => absurd h Bool.false_ne_true⟩
  · exact ⟨leads_quitAll s.agents, fun h => absurd h Bool.false_ne_true⟩

theorem takes_refreshAccessTokenIfNeeded (back : Option String) (ht : Early t = true) :
    Takes x s t (refreshAccessTokenIfNeeded s back) := by
  unfold refreshAccessTokenIfNeeded
  split
  · split
    · exact .same rfl fun _ => ht
    · exact .same rfl fun _ => ht
  · exact .same rfl fun _ => ht

theorem takes_refreshed (rf : Refresh) (back : Option String) (saved : Bool)
    (answer : Option Answer) (ht : Early t = true) :
    Takes x s t (refreshed s rf back saved answer) := by
  unfold refreshed
  split
  · split
    · split
      · exact .same rfl fun _ => ht
      · exact .same rfl fun _ => ht
    · exact ⟨leads_quitAll s.agents, fun _ => ht⟩
    · exact .same rfl fun _ => ht
  · exact .same rfl fun _ => ht

theorem takes_delivery {back : Option String} {m : Move} {p : App × Task} (ht : Early t = true)
    (h : delivery s back m = some p) : Takes x s t p := by
  unfold delivery at h
  split at h
  · split at h
    · next id store answer _ =>
      split at h
      · obtain rfl := Option.some.inj h
        refine ⟨?_, fun _ => ht⟩
        cases answer with
        | updated => exact (seen_updateToken (x := x) _ _ _) ▸ .refl _
        | failed applied =>
          cases applied with
          | true => exact (seen_updateToken (x := x) _ _ _) ▸ .refl _
          | false => exact .refl _
      · exact absurd h.symm (Option.some_ne_none p)
    · obtain rfl := Option.some.inj h
      exact ⟨leads_closeAll _ s.agents, fun _ => ht⟩
    · exact absurd h.symm (Option.some_ne_none p)
  · exact absurd h.symm (Option.some_ne_none p)

theorem takes_receive {saved : Bool} {p : App × Task} (h : receive s t saved = some p) :
    Takes x s t p := by
  unfold receive at h
  split at h
  · obtain ⟨rf, -, rfl⟩ := Option.map_eq_some_iff.mp h
    exact takes_refreshed rf _ saved _ rfl
  · obtain rfl := Option.some.inj h
    exact takes_sessionRefreshed _ _ saved _
  · obtain rfl := Option.some.inj h
    exact takes_loggedIn _ saved _
  · obtain rfl := Option.some.inj h
    exact .late rfl rfl
  · exact absurd h.symm (Option.some_ne_none p)

/-- A call gets further. -/
theorem takes_advance (call : Call) {s' : App} (hs : s'.agents = s.agents) :
    Takes x s t (advance s' t call) := by
  unfold advance
  split
  · split
    · exact .same hs id
    · exact .same hs id
  · exact .same hs id
  · exact .same hs id
  · exact .same hs id
  · exact .same hs id

end Handlers

variable {P : Primitives}

/-- A step that does not start an agent. -/
theorem takes_act {r : ℕ} {s : App} {t : Task} {m : Move} {p : App × Task}
    (h : act P r s t m = some p) :
    Takes x s t p ∨ Early t = true ∧ ∃ store token, p = spawn r s store token := by
  unfold act at h
  split at h
  · obtain rfl := Option.some.inj h
    exact .inl (takes_restoreSession rfl)
  · obtain rfl := Option.some.inj h
    exact .inl (.same rfl fun _ => rfl)
  · obtain rfl := Option.some.inj h
    exact .inl takes_signOut
  · obtain rfl := Option.some.inj h
    refine .inl ?_
    unfold launch
    split
    · exact .same rfl fun _ => rfl
    · exact .same rfl fun _ => rfl
  · obtain rfl := Option.some.inj h
    exact .inl (takes_refreshAccessTokenIfNeeded none rfl)
  · next answer store token retried =>
    obtain rfl := Option.some.inj h
    cases answer with
    | ok => exact .inr ⟨rfl, store, token, rfl⟩
    | failed => exact .inl (.same rfl fun _ => rfl)
    | rejected =>
      refine .inl ?_
      unfold preflighted
      dsimp only
      split
      · exact .same rfl fun _ => rfl
      · exact takes_refreshAccessTokenIfNeeded _ rfl
  · obtain rfl := Option.some.inj h
    refine .inl ?_
    unfold relaunch
    split
    · exact .same rfl fun _ => rfl
    · exact .same rfl fun _ => rfl
  · obtain rfl := Option.some.inj h
    exact .inl ⟨leads_register s.agents r, fun he => absurd he Bool.false_ne_true⟩
  · obtain rfl := Option.some.inj h
    exact .inl ⟨leads_abort s.agents r, fun he => absurd he Bool.false_ne_true⟩
  · obtain rfl := Option.some.inj h
    refine .inl ?_
    unfold listed
    split
    · exact .late rfl rfl
    · exact .late rfl rfl
  · exact .inl (takes_delivery rfl h)
  · exact .inl (takes_delivery rfl h)
  · exact .inl (takes_receive h)
  · obtain ⟨s', t'⟩ := p
    obtain ⟨out, -, hp⟩ := serve_eq_some h
    exact .inl (hp ▸ takes_advance _ rfl)
  · obtain ⟨call, -, rfl⟩ := Option.map_eq_some_iff.mp h
    exact .inl (takes_advance _ rfl)
  · obtain rfl := Option.some.inj h
    exact .inl (.same rfl id)
  · obtain rfl := Option.some.inj h
    exact .inl ⟨leads_close s.agents _, id⟩
  · obtain rfl := Option.some.inj h
    exact .inl ⟨leads_quit s.agents _, id⟩
  · obtain rfl := Option.some.inj h
    exact .inl ⟨leads_stopped s.agents _ _, id⟩
  · obtain rfl := Option.some.inj h
    exact .inl ⟨(seen_exit (x := x) s.agents _) ▸ .refl _, id⟩
  · exact absurd h.symm (Option.some_ne_none p)

/-! ## Runs -/

/-- **The instance is where the client is**, as far as the store goes: it shows the agents, and the
launches that have not got to the lock file have not begun. -/
structure Projects (x : String) (c : Crew App Task) (d : Crew Instances.World Instances.Task) :
    Prop where
  shows : ∃ n, Shows (seen x c.shared.agents) n d
  idle : ∀ q, Early (c.loc q) = true → d.loc (2 * q) = .idle

section Step

variable {c : Crew App Task} {d : Crew Instances.World Instances.Task} {r : ℕ}

/-- What the instance does for one step of the client. -/
def Followed (x : String) (d : Crew Instances.World Instances.Task) (c' : Crew App Task) : Prop :=
  ∃ bs d', run (step Instances.act) d bs = some d' ∧ Projects x c' d'

theorem followed_takes (h : Projects x c d) {p : App × Task}
    (hp : Takes x c.shared (c.loc r) p) : Followed x d ⟨p.1, Function.update c.loc r p.2⟩ := by
  obtain ⟨n, hn⟩ := h.shows
  obtain ⟨bs, d', n', hbs, hd', hidle⟩ := hp.leads n d hn
  refine ⟨bs, d', hbs, ⟨n', hd'⟩, fun q hq => hidle q (h.idle q ?_)⟩
  change Early (Function.update c.loc r p.2 q) = true at hq
  rcases eq_or_ne q r with rfl | hne
  · exact hp.early (by rwa [Function.update_self] at hq)
  · rwa [Function.update_of_ne hne] at hq

theorem seen_added {agents : List Agent} {a : Agent} (hx : a.store = x) :
    seen x (agents ++ [a]) = seen x agents ++ [(a.id, a.stage)] := by
  unfold seen
  rw [List.filter_append, List.map_append, List.filter_cons_of_pos (by simpa using hx)]
  rfl

theorem seen_added_other {agents : List Agent} {a : Agent} (hx : a.store ≠ x) :
    seen x (agents ++ [a]) = seen x agents := by
  unfold seen
  rw [List.filter_append, List.filter_cons_of_neg (by simpa using hx), List.filter_nil,
    List.append_nil]

/-- An agent is started. -/
theorem followed_spawn (h : Projects x c d) (store : String) (token : NativeAccess)
    (ht : Early (c.loc r) = true) :
    Followed x d ⟨(spawn r c.shared store token).1,
      Function.update c.loc r (spawn r c.shared store token).2⟩ := by
  have hended : Early .ended = true → Early (c.loc r) = true := fun _ => ht
  unfold spawn
  split
  · exact followed_takes h (p := (c.shared, .ended)) (.same rfl hended)
  · next hfree =>
    rcases eq_or_ne store x with rfl | hx
    · obtain ⟨n, halive, hunused, hs⟩ := h.shows
      have hnone : seen store c.shared.agents = [] := by
        refine List.map_eq_nil_iff.mpr (List.filter_eq_nil_iff.mpr fun a ha => ?_)
        exact fun hstore => hfree (List.any_eq_true.mpr ⟨a, ha, hstore⟩)
      rw [hnone] at hs
      obtain ⟨hlock, hrun⟩ : d.shared.lock = none ∧ d.shared.running 1 = none := by
        cases hs with
        | free hlock hrun => exact ⟨hlock, hrun⟩
      have hentered := run_entered (i := 2 * r) halive hrun hlock .spawned []
      have hstarting : seen store (c.shared.agents ++ [⟨r, store, token, .starting, true⟩]) =
          [(r, .starting)] := by
        rw [seen_added (a := ⟨r, store, token, .starting, true⟩) rfl, hnone]
        rfl
      refine ⟨_, _, run_solo (h.idle r ht) hentered, ⟨n, halive, fun k hk => ?_, ?_⟩, fun q hq => ?_⟩
      · exact (Function.update_of_ne (by omega) _ _).trans (hunused k hk)
      · change Stands _ _ (seen store (c.shared.agents ++ [⟨r, store, token, .starting, true⟩]))
        rw [hstarting]
        exact .starting r (Option.some_ne_none _) hrun (Function.update_self _ _ _)
      · change Early (Function.update c.loc r .starting q) = true at hq
        rcases eq_or_ne q r with rfl | hne
        · rw [Function.update_self] at hq
          exact absurd hq Bool.false_ne_true
        · rw [Function.update_of_ne hne] at hq
          exact (Function.update_of_ne (by omega) _ _).trans (h.idle q hq)
    · refine followed_takes h (p := ({ c.shared with
        agents := c.shared.agents ++ [⟨r, store, token, .starting, true⟩] }, .starting)) ⟨?_, ?_⟩
      · exact (seen_added_other (a := ⟨r, store, token, .starting, true⟩) hx).symm ▸ .refl _
      · exact fun he => absurd he Bool.false_ne_true

end Step

/-- **One step of the client** is a run of the instance. -/
theorem followed_step {c c' : Crew App Task} {d : Crew Instances.World Instances.Task}
    {e : ℕ × Move} (h : Projects x c d) (hs : step (act P) c e = some c') : Followed x d c' := by
  obtain ⟨s', t', hact, rfl⟩ := step_eq_some.mp hs
  rcases takes_act (x := x) hact with htakes | ⟨hearly, store, token, hp⟩
  · exact followed_takes h htakes
  · obtain ⟨rfl, rfl⟩ := Prod.mk.inj hp
    exact followed_spawn h store token hearly

theorem projects_opened (x : String) (vault : Option RefreshToken) (db : Db) : ∃ bs d,
    run (step Instances.act) (Instances.before none) bs = some d ∧ Projects x (opened vault db) d := by
  obtain ⟨ms, hms⟩ := run_started none
  have hloc : ∀ i, i ≠ 1 → Function.update (Instances.before none).loc 1 .ended i = .idle :=
    fun i hi => Function.update_of_ne hi _ _
  refine ⟨_, _, run_solo rfl hms, ⟨1, ?_, fun k hk => ?_, .free rfl rfl⟩, fun q _ => ?_⟩
  · change Function.update (Instances.before none).shared.apps 1 .alive 1 = .alive
    exact Function.update_self _ _ _
  · exact hloc (2 * k + 1) (by omega)
  · exact hloc (2 * q) (by omega)

/-- **One store of the client**: whatever the client does, what it does to a store is a run of one
instance on its lock file, which is there just as long as the store has an agent. -/
theorem stands_of_run (x : String) {vault : Option RefreshToken} {db : Db} {as : List (ℕ × Move)}
    {c : Crew App Task} (h : run (step (act P)) (opened vault db) as = some c) : ∃ bs d,
      run (step Instances.act) (Instances.before none) bs = some d ∧
        Stands d.shared d.loc (seen x c.shared.agents) := by
  obtain ⟨bs, d, hbs, hd⟩ := projects_opened x vault db
  obtain ⟨cs, d', hcs, ⟨n, hn⟩, -⟩ :=
    run_simulates (fun _ _ _ _ h hs => followed_step h hs) as _ c d hd h
  exact ⟨bs ++ cs, d', by rw [run_append, hbs]; exact hcs, hn.stands⟩

/-- A store has one agent at most. -/
theorem alone_of_run {vault : Option RefreshToken} {db : Db} {as : List (ℕ × Move)}
    {c : Crew App Task} (h : run (step (act P)) (opened vault db) as = some c) (x : String) :
    (seen x c.shared.agents).length ≤ 1 := by
  obtain ⟨bs, d, -, hd⟩ := stands_of_run x h
  generalize seen x c.shared.agents = v at hd
  cases hd with
  | free => exact Nat.zero_le 1
  | starting | running | stopping => exact le_rfl

end IdenGrid.Client.Agents
