import IdenGrid.Client.Mac
import IdenGrid.Client.Windows

/-! # Tokens for the agents

A refresh hands the new token to the agents that are in `running` when it arrives. A launch hands
its agent the token that it has read at the click, and puts the agent into `running` only several
awaits later.

`Newest` is what a refresh should leave behind, `macCareful` and `windowsCareful` what a step has to
take care of for that, and `Fresh` the invariant of the steps that do. -/

namespace IdenGrid.Client.Invariant

open IdenGrid.Control.Rows IdenGrid.Control.Sessions IdenGrid.Control.Serial
open IdenGrid.Client.Session

/-- While no refresh is in progress, every agent that lives holds the newest token. -/
def Newest (s : App) : Prop :=
  s.refresh = none → ∀ t, s.session = some t → ∀ a ∈ s.agents, a.alive = true → a.token = t.access

/-! ## What a step has to take care of -/

/-- The token is the one of the session. -/
def current (s : App) (token : NativeAccess) : Bool := s.session.all fun t => token = t.access

def noneAlive (s : App) : Bool := s.agents.all fun a => !a.alive

/-- No launch is between the start of its agent and the entry in `running`. -/
def allRunning (s : App) : Bool := s.agents.all fun a => !a.alive || a.stage = .running

/-- The answer that is awaited brings tokens. -/
def brings (s : App) (l : Task) : Bool :=
  match awaited s l with
  | some (.answered answer) => (outcome answer matches .tokens _)
  | _ => false

/-- The token that is being delivered is the one of the session. -/
def deliversCurrent (s : App) : Bool :=
  match s.refresh with
  | some ⟨_, _, .delivering token _ _⟩ => current s token
  | _ => true

/-- No agent of the stores that have failed would be left with an old token: all of them are in
`running`, so that they are closed. -/
def closesFailed (s : App) : Bool :=
  match s.refresh with
  | some ⟨_, _, .delivering _ _ failed⟩ =>
    s.agents.all fun a => !a.alive || a.store ∉ failed || a.stage = .running || current s a.token
  | _ => true

/-- Nor would one be left where closing the first of them throws. -/
def closesFirst (s : App) : Bool :=
  match s.refresh with
  | some ⟨_, _, .delivering _ _ (store :: rest)⟩ =>
    s.agents.all fun a => !a.alive || a.store = store || a.store ∉ rest || current s a.token
  | _ => true

def macCareful (s : App) (l : Task) (m : Move) : Bool :=
  match m, l with
  | .preflight .ok, .launching _ token _ => current s token
  | .receive true, .refreshing _ =>
    !brings s l || s.refresh.any (·.generation ≠ s.generation) || allRunning s
  | .receive true, .restoring _ generation _ =>
    !brings s l || generation ≠ s.generation || noneAlive s
  | .receive true, .loggingIn generation _ =>
    !brings s l || generation ≠ s.generation || noneAlive s
  | .deliver _ _ answer, _ => answer = .failed false || deliversCurrent s
  | .finish _, .refreshing _ => closesFailed s
  | _, _ => true

def windowsCareful (s : App) (l : Task) (m : Move) : Bool :=
  match m, l with
  | .spawn, .launching _ token _ => current s token
  | .receive saved, .refreshing _ => !brings s l || allRunning s && (saved || noneAlive s)
  | .receive _, .restoring _ _ _ => !brings s l || noneAlive s
  | .receive _, .loggingIn _ _ => !brings s l || noneAlive s
  | .deliver _ _ answer, _ => answer = .failed false || deliversCurrent s
  | .closeFailed thrown, _ => !thrown || closesFirst s
  | _, _ => true

/-! ## The invariant -/

/-- The token is about to reach the agent, or the agent about to be closed. -/
def Underway (s : App) (token : NativeAccess) (a : Agent) : Prop :=
  ∃ rf pending failed, s.refresh = some rf ∧ rf.progress = .delivering token pending failed ∧
    ((a.id, a.store) ∈ pending ∨ a.store ∈ failed)

def Fresh (s : App) : Prop :=
  ∀ t, s.session = some t → ∀ a ∈ s.agents, a.alive = true →
    a.token = t.access ∨ Underway s t.access a

/-- Every agent that lives holds the token of the session. -/
def Settled (s : App) : Prop :=
  ∀ t, s.session = some t → ∀ a ∈ s.agents, a.alive = true → a.token = t.access

theorem Settled.fresh {s : App} (h : Settled s) : Fresh s :=
  fun t ht a ha halive => Or.inl (h t ht a ha halive)

/-- No token is being delivered. -/
def Still (s : App) : Prop :=
  ∀ rf token pending failed, s.refresh = some rf → rf.progress ≠ .delivering token pending failed

theorem still_of_none {s : App} (h : s.refresh = none) : Still s :=
  fun _ _ _ _ hrf => absurd (hrf.symm.trans h) (Option.some_ne_none _)

theorem Fresh.settled {s : App} (h : Fresh s) (hstill : Still s) : Settled s := by
  intro t ht a ha halive
  rcases h t ht a ha halive with heq | ⟨rf, pending, failed, hrf, hprogress, -⟩
  · exact heq
  · exact absurd hprogress (hstill rf t.access pending failed hrf)

theorem Fresh.newest {s : App} (h : Fresh s) : Newest s :=
  fun hnone => h.settled (still_of_none hnone)

/-- Every agent that lives was there before, with the same token. -/
def Fewer (agents agents' : List Agent) : Prop :=
  ∀ a' ∈ agents', a'.alive = true → ∃ a ∈ agents, a.alive = true ∧ a.id = a'.id ∧
    a.store = a'.store ∧ a.token = a'.token

theorem fewer_refl (agents : List Agent) : Fewer agents agents :=
  fun a ha halive => ⟨a, ha, halive, rfl, rfl, rfl⟩

theorem fewer_of_subset {agents agents' : List Agent} (h : ∀ a ∈ agents', a ∈ agents) :
    Fewer agents agents' :=
  fun a ha halive => ⟨a, h a ha, halive, rfl, rfl, rfl⟩

theorem fewer_of_map {agents : List Agent} {f : Agent → Agent}
    (hf : ∀ a, (f a).id = a.id ∧ (f a).store = a.store ∧ (f a).token = a.token ∧
      ((f a).alive = true → a.alive = true)) : Fewer agents (agents.map f) := by
  intro a' ha' halive
  obtain ⟨a, ha, rfl⟩ := List.mem_map.mp ha'
  obtain ⟨hid, hstore, htoken, hkeeps⟩ := hf a
  exact ⟨a, ha, hkeeps halive, hid.symm, hstore.symm, htoken.symm⟩

theorem fewer_filter (agents : List Agent) (p : Agent → Bool) :
    Fewer agents (agents.filter p) :=
  fewer_of_subset fun _ ha => List.mem_of_mem_filter ha

theorem fewer_register (agents : List Agent) (id : ℕ) : Fewer agents (register agents id) := by
  refine fewer_of_map fun a => ?_
  split <;> exact ⟨rfl, rfl, rfl, fun h => h⟩

theorem fewer_exit (agents : List Agent) (id : ℕ) : Fewer agents (exit agents id) := by
  refine fewer_of_map fun a => ?_
  split
  · exact ⟨rfl, rfl, rfl, fun h => absurd h Bool.false_ne_true⟩
  · exact ⟨rfl, rfl, rfl, fun h => h⟩

theorem fewer_quit (agents : List Agent) (store : String) :
    Fewer agents (Mac.quit agents store) := by
  refine fewer_of_map fun a => ?_
  split <;> exact ⟨rfl, rfl, rfl, fun h => h⟩

theorem fewer_stopped (agents : List Agent) (store : String) (ended : Bool) :
    Fewer agents (Mac.stopped agents store ended) := by
  unfold Mac.stopped
  cases ended with
  | true => exact fewer_filter agents _
  | false =>
    refine fewer_of_map fun a => ?_
    split <;> exact ⟨rfl, rfl, rfl, fun h => h⟩

variable {s s' : App}

/-- What only loses agents, and perhaps the session, keeps the invariant. -/
theorem Fresh.frame (h : Fresh s) (hsession : s'.session = s.session ∨ s'.session = none)
    (hrefresh : s'.refresh = s.refresh) (hfewer : Fewer s.agents s'.agents) : Fresh s' := by
  intro t ht a' ha' halive
  rcases hsession with heq | hnone
  · obtain ⟨a, ha, halive, hid, hstore, htoken⟩ := hfewer a' ha' halive
    rcases h t (heq ▸ ht) a ha halive with hcurrent | hunderway
    · exact Or.inl (htoken ▸ hcurrent)
    · refine Or.inr ?_
      unfold Underway at hunderway ⊢
      rwa [hrefresh, ← hid, ← hstore]
  · exact absurd (ht.symm.trans hnone) (Option.some_ne_none _)

theorem Settled.frame (h : Settled s) (hsession : s'.session = s.session ∨ s'.session = none)
    (hfewer : Fewer s.agents s'.agents) : Settled s' := by
  intro t ht a' ha' halive
  rcases hsession with heq | hnone
  · obtain ⟨a, ha, halive, -, -, htoken⟩ := hfewer a' ha' halive
    exact htoken ▸ h t (heq ▸ ht) a ha halive
  · exact absurd (ht.symm.trans hnone) (Option.some_ne_none _)

/-- No agent lives. -/
theorem settled_of_noneAlive (h : noneAlive s = true) (hagents : s'.agents = s.agents) :
    Settled s' := by
  intro t _ a ha halive
  have hdead := List.all_eq_true.mp h a (hagents ▸ ha)
  rw [halive] at hdead
  exact absurd hdead Bool.false_ne_true

theorem current_iff {token : NativeAccess} :
    current s token = true ↔ ∀ t, s.session = some t → token = t.access := by
  unfold current
  cases s.session with
  | none => simp
  | some t => simp

/-! ## Steps of both clients -/

theorem spawn_fresh (h : Fresh s) {r : ℕ} {store : String} {token : NativeAccess}
    (hcurrent : current s token = true) : Fresh (spawn r s store token).1 := by
  unfold spawn
  split
  · exact h
  · intro t ht a ha halive
    rcases List.mem_append.mp ha with ha | ha
    · exact h t ht a ha halive
    · obtain rfl := List.mem_singleton.mp ha
      exact Or.inl (current_iff.mp hcurrent t ht)

/-- An agent after its answer to `update_token`. -/
theorem of_mem_updateToken {agents : List Agent} {id : ℕ} {token : NativeAccess} {a : Agent}
    (ha : a ∈ updateToken agents id token) (halive : a.alive = true) :
    a.token = token ∨ a ∈ agents ∧ a.id ≠ id := by
  obtain ⟨b, hb, rfl⟩ := List.mem_map.mp ha
  by_cases hid : b.id = id ∧ b.alive = true
  · rw [if_pos hid]
    exact Or.inl rfl
  · rw [if_neg hid] at halive ⊢
    exact Or.inr ⟨hb, fun heq => hid ⟨heq, halive⟩⟩

/-- An agent that was to get the token, and has not: its record is still to come, or its store has
failed. -/
theorem Underway.delivered {t token : NativeAccess} {a : Agent} (h : Underway s t a)
    {rf : Refresh} {pending : List (ℕ × String)} {failed failed' : List String}
    {agent : ℕ × String} (hrf : s.refresh = some rf)
    (hprogress : rf.progress = .delivering token pending failed)
    (hrf' : s'.refresh = some { rf with
      progress := .delivering token (pending.erase agent) failed' })
    (hmono : ∀ x ∈ failed, x ∈ failed') (hother : a.id ≠ agent.1 ∨ agent.2 ∈ failed') :
    Underway s' t a := by
  obtain ⟨rf₀, pending₀, failed₀, hrf₀, hprogress₀, hmem⟩ := h
  obtain rfl := Option.some.inj (hrf.symm.trans hrf₀)
  obtain ⟨rfl, rfl, rfl⟩ : token = t ∧ pending = pending₀ ∧ failed = failed₀ := by
    simpa [hprogress] using hprogress₀
  refine ⟨_, _, _, hrf', rfl, ?_⟩
  rcases hmem with hmem | hmem
  · by_cases hsame : (a.id, a.store) = agent
    · subst hsame
      exact Or.inr (hother.resolve_left fun hne => hne rfl)
    · exact Or.inl ((List.mem_erase_of_ne hsame).mpr hmem)
  · exact Or.inr (hmono _ hmem)

theorem deliver_fresh (h : Fresh s) {rf : Refresh} {token : NativeAccess}
    {pending : List (ℕ × String)} {failed : List String} {agent : ℕ × String} {answer : Delivery}
    (hrf : s.refresh = some rf) (hprogress : rf.progress = .delivering token pending failed)
    (hcareful : answer = .failed false ∨ current s token = true) :
    Fresh (deliver s rf token pending failed agent answer) := by
  intro t ht a ha halive
  have happly : answer ≠ .failed false → token = t.access := fun hanswer =>
    current_iff.mp (hcareful.resolve_left hanswer) t (by cases answer <;> exact ht)
  cases answer with
  | updated =>
    rcases of_mem_updateToken ha halive with htoken | ⟨hold, hid⟩
    · exact Or.inl (htoken.trans (happly (by simp)))
    · refine (h t ht a hold halive).imp_right fun hunderway => ?_
      exact hunderway.delivered hrf hprogress rfl (fun x hx => hx) (Or.inl hid)
  | failed applied =>
    have hold : a.token = t.access ∨ a ∈ s.agents := by
      cases applied with
      | true =>
        rcases of_mem_updateToken ha halive with htoken | ⟨hold, -⟩
        · exact Or.inl (htoken.trans (happly (by simp)))
        · exact Or.inr hold
      | false => exact Or.inr ha
    rcases hold with heq | hold
    · exact Or.inl heq
    · refine (h t ht a hold halive).imp_right fun hunderway => ?_
      exact hunderway.delivered hrf hprogress rfl (fun x hx => List.mem_append_left _ hx)
        (Or.inr (List.mem_append_right _ List.mem_cons_self))

/-- New tokens, which the running agents are to get. -/
theorem delivering_fresh {rf : Refresh} {t : Tokens} (h : allRunning s = true) :
    Fresh ((s.apply t).proceed rf (.delivering t.access (records s.agents) [])) := by
  intro t' ht' a ha halive
  obtain rfl : t = t' := Option.some.inj ht'
  have hrunning := List.all_eq_true.mp h a ha
  simp only [halive, Bool.not_true, Bool.false_or, decide_eq_true_eq] at hrunning
  refine Or.inr ⟨_, _, _, rfl, rfl, Or.inl ?_⟩
  refine List.mem_map.mpr ⟨a, List.mem_filter.mpr ⟨ha, ?_⟩, rfl⟩
  exact decide_eq_true hrunning

/-- While a call is awaited, no token is being delivered. -/
theorem still_of_awaited {l : Task} {back : Option String} {call : Call} (hl : l = .refreshing back)
    (h : awaited s l = some call) : Still s := by
  subst hl
  unfold awaited at h
  intro rf token pending failed hrf hprogress
  obtain ⟨began, generation, progress⟩ := rf
  obtain rfl : progress = .delivering token pending failed := hprogress
  rw [hrf] at h
  cases h

/-- A call that gets further leaves the session and the agents alone. -/
theorem advance_fresh (h : Fresh s) {l : Task} {call : Call} (call' : Call)
    (hcall : awaited s l = some call) : Fresh (advance s l call').1 := by
  cases l with
  | refreshing back =>
    have hsettled := h.settled (still_of_awaited rfl hcall)
    unfold advance
    cases hrf : s.refresh with
    | none => exact h
    | some rf =>
      have hcalling : Settled (s.proceed rf (.calling call')) :=
        hsettled.frame (Or.inl rfl) (fewer_refl _)
      exact hcalling.fresh
  | _ => exact h

variable {P : Primitives}

theorem serve_fresh (h : Fresh s) {l l' : Task} {i : Inputs} (hs : serve P s l i = some (s', l')) :
    Fresh s' := by
  obtain ⟨out, hcall, hadvanced⟩ := serve_eq_some hs
  have hhandled : Fresh { s with db := (handle P (out.request i) s.db).1 } :=
    h.frame (Or.inl rfl) rfl (fewer_refl _)
  have hfresh := advance_fresh hhandled (.answered (some (handle P (out.request i) s.db).2)) hcall
  rwa [hadvanced] at hfresh

theorem lose_fresh (h : Fresh s) {l l' : Task} (hs : lose s l = some (s', l')) : Fresh s' := by
  obtain ⟨call, hcall, heq⟩ := Option.map_eq_some_iff.mp hs
  obtain ⟨rfl, -⟩ := Prod.mk.inj heq
  exact advance_fresh h _ hcall

/-- A restored session or a login, with no agent alive. -/
theorem apply_fresh {t : Tokens} (h : noneAlive s = true) : Fresh (s.apply t) := by
  have hsettled : Settled (s.apply t) := settled_of_noneAlive h rfl
  exact hsettled.fresh

theorem brings_of {l : Task} {answer : Option Answer}
    (hcall : awaited s l = some (.answered answer))
    (htokens : (outcome answer matches .tokens _) = true) : brings s l = true := by
  unfold brings
  rw [hcall]
  exact htokens

/-- The answers of the agents. -/
theorem deliver_careful {rf : Refresh} {token : NativeAccess} {pending : List (ℕ × String)}
    {failed : List String} {answer : Delivery} (hrf : s.refresh = some rf)
    (hprogress : rf.progress = .delivering token pending failed)
    (hcareful : (answer = .failed false || deliversCurrent s) = true) :
    answer = .failed false ∨ current s token = true := by
  obtain ⟨began, generation, progress⟩ := rf
  obtain rfl : progress = .delivering token pending failed := hprogress
  simpa [deliversCurrent, hrf] using hcareful

end IdenGrid.Client.Invariant
