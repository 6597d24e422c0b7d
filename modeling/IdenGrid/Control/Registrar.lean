import IdenGrid.Lib.History
import IdenGrid.Lib.Requests
import IdenGrid.Control.Handlers

/-! # The registry under requests that overlap

A crew of requests over the committed tables: a request begins with its first read, goes on to
further reads, and commits; between any two of these steps other requests may take theirs. The log
has every request that began, every signature that the holder of a key has made, and every commit,
with the tables that it found and made. `acts` says what one step does.

A commit changes a row by the UPDATE statements of its handler and by the write-backs of the rows
that it has loaded; `commit_registrations`, `commit_enrollments` and `commit_nodes` say so for each
of the three tables. -/

namespace IdenGrid.Control.Registrar

open IdenGrid.Lib.Run IdenGrid.Lib.Store IdenGrid.Lib.WriteBack IdenGrid.Lib.Requests
open IdenGrid.Lib.History IdenGrid.Lib.Results
open IdenGrid.Control.Nodes
open IdenGrid.Control.Monitor hiding Db
open IdenGrid.Control.Registry IdenGrid.Control.NodeAdmin IdenGrid.Control.Enrollments
open IdenGrid.Control.Registrations IdenGrid.Control.Handlers

/-- A commit that has gone through; `since` is the length of the log when its request began. -/
structure Commit where
  who : ℕ
  request : Request
  plan : Plan
  since : ℕ
  found : Db
  made : Db
  answer : Answer

inductive Event
  | began (who : ℕ) (request : Request)
  | signed (publicKeyPem message : String)
  | committed (commit : Commit)

/-- The commit that is the last event. -/
def latest : List Event → Option Commit
  | .committed c :: _ => some c
  | _ => none

theorem latest_eq_some {log : List Event} {c : Commit} (h : latest log = some c) :
    ∃ older, log = .committed c :: older := by
  unfold latest at h
  split at h
  · next c' older =>
    obtain rfl := Option.some.inj h
    exact ⟨older, rfl⟩
  · simp at h

/-- The committed tables, and what has happened. -/
structure Office where
  db : Db
  log : List Event := []

/-- Where a request stands. -/
inductive Stage
  | idle
  | working (request : Request) (handler : Handler) (since : ℕ)
  | done (answer : Answer)

inductive Move
  | begin (request : Request)
  | proceed
  | sign (publicKeyPem message : String)

variable (P : Primitives) (admits : List Event → Request → Bool)

/-- One step of a request: its first read, a further read, or its commit. Only requests that are
admitted begin. -/
def act (r : ℕ) (s : Office) : Stage → Move → Option (Office × Stage)
  | .idle, .begin request =>
    if admits s.log request then
      some
        ({ s with log := .began r request :: s.log },
          match begin P s.db request with
          | .ok handler => .working request handler s.log.length
          | .error refusal => .done (.refused refusal))
    else none
  | .working request (.ready plan) since, .proceed =>
    match plan.attempt P s.db with
    | .ok (db, answer) =>
      some
        ({ db := db
           log := .committed ⟨r, request, plan, since, s.db, db, answer⟩ :: s.log },
          .done answer)
    | .error refusal => some (s, .done (.refused refusal))
  | .working request handler since, .proceed =>
    match proceed P s.db handler with
    | .ok handler => some (s, .working request handler since)
    | .error refusal => some (s, .done (.refused refusal))
  | stage, .sign publicKeyPem message =>
    some ({ s with log := .signed publicKeyPem message :: s.log }, stage)
  | _, _ => none

/-- The requests over some tables, before any has begun. -/
def start (db : Db) : Crew Office Stage where
  shared := { db := db }
  loc := fun _ => .idle

/-- What a step of a request does. -/
inductive Acts (r : ℕ) (s : Office) : Stage → Move → Office → Stage → Prop
  | began (request : Request) (handler : Handler) (admitted : admits s.log request = true)
      (read : begin P s.db request = .ok handler) :
      Acts r s .idle (.begin request) { s with log := .began r request :: s.log }
        (.working request handler s.log.length)
  | turned (request : Request) (refusal : Refusal) (admitted : admits s.log request = true)
      (read : begin P s.db request = .error refusal) :
      Acts r s .idle (.begin request) { s with log := .began r request :: s.log }
        (.done (.refused refusal))
  | proceeded (request : Request) (handler next : Handler) (since : ℕ)
      (waiting : ∀ plan, handler ≠ .ready plan) (read : proceed P s.db handler = .ok next) :
      Acts r s (.working request handler since) .proceed s (.working request next since)
  | failed (request : Request) (handler : Handler) (since : ℕ) (refusal : Refusal) :
      Acts r s (.working request handler since) .proceed s (.done (.refused refusal))
  | committed (request : Request) (plan : Plan) (since : ℕ) (db : Db) (answer : Answer)
      (attempt : plan.attempt P s.db = .ok (db, answer)) :
      Acts r s (.working request (.ready plan) since) .proceed
        { db := db, log := .committed ⟨r, request, plan, since, s.db, db, answer⟩ :: s.log }
        (.done answer)
  | signed (stage : Stage) (publicKeyPem message : String) :
      Acts r s stage (.sign publicKeyPem message)
        { s with log := .signed publicKeyPem message :: s.log } stage

variable {P admits}

/-- **Every step is one of these.** -/
theorem acts {r : ℕ} {s s' : Office} {stage stage' : Stage} {move : Move}
    (h : act P admits r s stage move = some (s', stage')) :
    Acts P admits r s stage move s' stage' := by
  unfold act at h
  split at h
  · next request =>
    split_ifs at h with hadmits
    obtain ⟨rfl, rfl⟩ := Prod.mk.inj (Option.some.inj h)
    split
    · next handler hread => exact .began request handler hadmits hread
    · next refusal hread => exact .turned request refusal hadmits hread
  · next request plan since =>
    split at h
    · next db answer hattempt =>
      obtain ⟨rfl, rfl⟩ := Prod.mk.inj (Option.some.inj h)
      exact .committed request plan since db answer hattempt
    · next refusal _ =>
      obtain ⟨rfl, rfl⟩ := Prod.mk.inj (Option.some.inj h)
      exact .failed request _ since refusal
  · next request handler since hwaiting =>
    split at h
    · next next hread =>
      obtain ⟨rfl, rfl⟩ := Prod.mk.inj (Option.some.inj h)
      exact .proceeded request handler next since (fun plan heq => hwaiting plan heq) hread
    · next refusal _ =>
      obtain ⟨rfl, rfl⟩ := Prod.mk.inj (Option.some.inj h)
      exact .failed request handler since refusal
  · next publicKeyPem message =>
    obtain ⟨rfl, rfl⟩ := Prod.mk.inj (Option.some.inj h)
    exact .signed stage publicKeyPem message
  · simp at h

/-! ## What a commit does to the rows -/

/-- The loaded rows that a commit writes back. -/
def writes : Plan → Dirty
  | .write dirty _ => dirty
  | .deleteNode d => { registrations := d.registrations.map fun r => (r, detach r) }
  | .sweep s =>
    { registrations :=
        (s.items.filter fun r => !outdated s.now (sweep s.now r)).map fun r => (r, sweep s.now r) }
  | .claimRegistration c => { enrollments := [(c.enrollment, c.installing)] }
  | _ => {}

variable (P) in
/-- The conditional UPDATE of a commit on `node_registration_requests`. -/
def update : Plan → RegistrationRow → RegistrationRow
  | .prove p => p.set
  | .accept a => a.set P
  | .reject r => r.set
  | .claimRegistration c => c.set
  | _ => id

variable (P) in
/-- The conditional UPDATE of a commit on `node_enrollments`. -/
def updateEnrolled : Plan → EnrollmentRow → EnrollmentRow
  | .claimEnrollment c => c.set P
  | _ => id

/-- The node that a commit inserts. -/
def newNode : Plan → Option NodeRow
  | .insertNode node => some node
  | .createEnrollment c => some c.node
  | .accept a => some a.node
  | _ => none

variable (P) in
/-- The enrollment that a commit inserts. -/
def newEnrollment : Plan → Option EnrollmentRow
  | .createEnrollment c => some c.item
  | .accept a => some (a.enrollment P)
  | _ => none

/-- The registration that a commit inserts. -/
def registered : Plan → Option RegistrationRow
  | .register c => some c.item
  | _ => none

variable (P) in
/-- Where the rows after a commit come from. -/
structure Changes (plan : Plan) (t t' : Tables) : Prop where
  nodes : ∀ n' ∈ t'.nodes.rows,
    (∃ n ∈ t.nodes.rows, n' = flushAll nodeMapping (writes plan).nodes n) ∨
      newNode plan = some n' ∧ ∀ x ∈ t.nodes.rows, x.id ≠ n'.id
  enrollments : ∀ e' ∈ t'.enrollments.rows,
    (∃ e ∈ t.enrollments.rows,
        e' = updateEnrolled P plan (flushAll enrollmentMapping (writes plan).enrollments e)) ∨
      newEnrollment P plan = some e' ∧ ∀ x ∈ t.enrollments.rows, x.id ≠ e'.id
  registrations : ∀ r' ∈ t'.registrations.rows,
    (∃ r ∈ t.registrations.rows,
        r' = update P plan (flushAll registrationMapping (writes plan).registrations r)) ∨
      registered plan = some r' ∧ ∀ x ∈ t.registrations.rows, x.id ≠ r'.id

/-- Nothing but write-backs. -/
theorem Changes.of_flush {plan : Plan} {t t' u : Tables} (hu : t.flush (writes plan) = .ok u)
    (hn : ∀ n ∈ t'.nodes.rows, n ∈ u.nodes.rows)
    (he : ∀ e ∈ t'.enrollments.rows, ∃ x ∈ u.enrollments.rows, e = updateEnrolled P plan x)
    (hr : ∀ r ∈ t'.registrations.rows, ∃ x ∈ u.registrations.rows, r = update P plan x) :
    Changes P plan t t' := by
  obtain ⟨hun, hue, hur⟩ := Tables.flush_eq_ok hu
  constructor
  · intro n hmem
    have hmem := hn n hmem
    rw [hun] at hmem
    obtain ⟨x, hx, rfl⟩ := List.mem_map.mp hmem
    exact Or.inl ⟨x, hx, rfl⟩
  · intro e hmem
    obtain ⟨y, hy, rfl⟩ := he e hmem
    rw [hue] at hy
    obtain ⟨x, hx, rfl⟩ := List.mem_map.mp hy
    exact Or.inl ⟨x, hx, rfl⟩
  · intro r hmem
    obtain ⟨y, hy, rfl⟩ := hr r hmem
    rw [hur] at hy
    obtain ⟨x, hx, rfl⟩ := List.mem_map.mp hy
    exact Or.inl ⟨x, hx, rfl⟩

theorem flush_nil (t : Tables) : t.flush {} = .ok t := rfl

/-- New rows of a node and its enrollment, and a conditional UPDATE. -/
theorem Changes.of_enroll {plan : Plan} {t t' : Tables} {node : NodeRow} {item : EnrollmentRow}
    (hdirty : writes plan = {}) (hupdate : updateEnrolled P plan = id)
    (hnode : newNode plan = some node) (hitem : newEnrollment P plan = some item)
    (hfresh : ∀ x ∈ t.nodes.rows, x.id ≠ node.id)
    (hfreshItem : ∀ x ∈ t.enrollments.rows, x.id ≠ item.id)
    (hn : t'.nodes.rows = t.nodes.rows ++ [node])
    (he : t'.enrollments.rows = t.enrollments.rows ++ [item])
    (hr : ∀ r ∈ t'.registrations.rows, ∃ x ∈ t.registrations.rows, r = update P plan x) :
    Changes P plan t t' := by
  constructor
  · intro n hmem
    rw [hn] at hmem
    rcases List.mem_append.mp hmem with hmem | hmem
    · exact Or.inl ⟨n, hmem, by rw [hdirty]; rfl⟩
    · obtain rfl := List.mem_singleton.mp hmem
      exact Or.inr ⟨hnode, hfresh⟩
  · intro e hmem
    rw [he] at hmem
    rcases List.mem_append.mp hmem with hmem | hmem
    · exact Or.inl ⟨e, hmem, by rw [hdirty, hupdate]; rfl⟩
    · obtain rfl := List.mem_singleton.mp hmem
      exact Or.inr ⟨hitem, hfreshItem⟩
  · intro r hmem
    obtain ⟨x, hx, rfl⟩ := hr r hmem
    exact Or.inl ⟨x, hx, by rw [hdirty]; rfl⟩

/-- **Where the rows after a commit come from**, whatever the commit is. -/
theorem commit_changes {plan : Plan} {t t' : Tables} {answer : Answer}
    (h : plan.commit P t = .ok (t', answer)) : Changes P plan t t' := by
  have hid : ∀ {β : Type} {l : List β} (x), x ∈ l → ∃ y ∈ l, x = id y := fun x hx => ⟨x, hx, rfl⟩
  cases plan with
  | write dirty _ =>
    obtain ⟨u, hu, h⟩ := bind_eq_ok.mp h
    obtain ⟨rfl, -⟩ := Prod.mk.inj (Except.ok.inj h)
    exact .of_flush hu (fun _ h => h) hid hid
  | insertNode node =>
    simp only [Plan.commit] at h
    split at h
    · next nodes hnodes =>
      obtain ⟨rfl, -⟩ := Prod.mk.inj (Except.ok.inj h)
      obtain ⟨hfresh, hrows⟩ := insert?_eq_some hnodes
      constructor
      · intro n hmem
        rcases (mem_insert? hnodes).mp hmem with hmem | rfl
        · exact Or.inl ⟨n, hmem, rfl⟩
        · exact Or.inr ⟨rfl, hfresh⟩
      · exact fun e he => Or.inl ⟨e, he, rfl⟩
      · exact fun r hr => Or.inl ⟨r, hr, rfl⟩
    · simp at h
  | deleteNode d =>
    obtain ⟨u, hu, h⟩ := bind_eq_ok.mp h
    obtain ⟨rfl, -⟩ := Prod.mk.inj (Except.ok.inj h)
    exact .of_flush hu (fun _ h => (mem_delete.mp h).1)
      (fun x hx => ⟨x, (mem_delete.mp hx).1, rfl⟩) hid
  | createEnrollment c =>
    obtain ⟨u, hu, h⟩ := bind_eq_ok.mp h
    obtain ⟨rfl, -⟩ := Prod.mk.inj (Except.ok.inj h)
    obtain ⟨hfresh, hfreshItem, hn, he, hr⟩ := insertEnrolled_eq_ok hu
    exact .of_enroll rfl rfl rfl rfl hfresh hfreshItem hn he (by rw [hr]; exact hid)
  | claimEnrollment c =>
    change c.commit P t = .ok (t', answer) at h
    unfold EnrollmentClaim.commit at h
    split_ifs at h
    obtain ⟨rfl, -⟩ := Prod.mk.inj (Except.ok.inj h)
    refine .of_flush (flush_nil t) (fun _ h => h) (fun e he => ?_) hid
    obtain ⟨x, hx, rfl⟩ := List.mem_map.mp he
    exact ⟨x, hx, rfl⟩
  | register c =>
    change c.commit t = .ok (t', answer) at h
    unfold RegistrationCreation.commit at h
    split at h
    · next registrations hr =>
      obtain ⟨rfl, -⟩ := Prod.mk.inj (Except.ok.inj h)
      obtain ⟨hfresh, -⟩ := insert?_eq_some hr
      constructor
      · exact fun n hn => Or.inl ⟨n, hn, rfl⟩
      · exact fun e he => Or.inl ⟨e, he, rfl⟩
      · intro r hmem
        rcases (mem_insert? hr).mp hmem with hmem | rfl
        · exact Or.inl ⟨r, hmem, rfl⟩
        · exact Or.inr ⟨rfl, hfresh⟩
    · simp at h
  | prove p =>
    change p.commit t = .ok (t', answer) at h
    unfold Proof.commit at h
    split_ifs at h
    obtain ⟨rfl, -⟩ := Prod.mk.inj (Except.ok.inj h)
    refine .of_flush (flush_nil t) (fun _ h => h) hid fun r hr => ?_
    obtain ⟨x, hx, rfl⟩ := List.mem_map.mp hr
    exact ⟨x, hx, rfl⟩
  | sweep list =>
    obtain ⟨u, hu, h⟩ := bind_eq_ok.mp h
    obtain ⟨rfl, -⟩ := Prod.mk.inj (Except.ok.inj h)
    exact .of_flush hu (fun _ h => h) hid fun r hr => ⟨r, (mem_delete.mp hr).1, rfl⟩
  | accept a =>
    change a.commit P t = .ok (t', answer) at h
    unfold Acceptance.commit at h
    split_ifs at h
    obtain ⟨u, hu, h⟩ := bind_eq_ok.mp h
    obtain ⟨rfl, -⟩ := Prod.mk.inj (Except.ok.inj h)
    obtain ⟨hfresh, hfreshItem, hn, he, hr⟩ := insertEnrolled_eq_ok hu
    refine .of_enroll rfl rfl rfl rfl hfresh hfreshItem hn he fun r hmem => ?_
    obtain ⟨x, hx, rfl⟩ := List.mem_map.mp hmem
    rw [hr] at hx
    exact ⟨x, hx, rfl⟩
  | reject d =>
    change d.commit t = .ok (t', answer) at h
    unfold Rejection.commit at h
    split_ifs at h
    obtain ⟨rfl, -⟩ := Prod.mk.inj (Except.ok.inj h)
    refine .of_flush (flush_nil t) (fun _ h => h) hid fun r hr => ?_
    obtain ⟨x, hx, rfl⟩ := List.mem_map.mp hr
    exact ⟨x, hx, rfl⟩
  | claimRegistration c =>
    change c.commit P t = .ok (t', answer) at h
    unfold RegistrationClaim.commit at h
    split_ifs at h
    obtain ⟨u, hu, h⟩ := bind_eq_ok.mp h
    obtain ⟨rfl, -⟩ := Prod.mk.inj (Except.ok.inj h)
    refine .of_flush hu (fun _ h => h) hid fun r hr => ?_
    obtain ⟨x, hx, rfl⟩ := List.mem_map.mp hr
    exact ⟨x, hx, rfl⟩

variable (P) in
/-- What is still there after a commit. -/
structure Keeps (plan : Plan) (t t' : Tables) : Prop where
  nodes : ∀ n ∈ t.nodes.rows, ∃ n' ∈ t'.nodes.rows, n'.id = n.id
  enrollments : ∀ e ∈ t.enrollments.rows, ∃ e' ∈ t'.enrollments.rows, e'.id = e.id
  newNode : ∀ n, newNode plan = some n → n ∈ t'.nodes.rows
  newEnrollment : ∀ e, newEnrollment P plan = some e → e ∈ t'.enrollments.rows

theorem Keeps.of_flush {plan : Plan} {t t' u : Tables} {dirty : Dirty} (hu : t.flush dirty = .ok u)
    (hnode : Registrar.newNode plan = none) (hitem : Registrar.newEnrollment P plan = none)
    (hn : ∀ n ∈ u.nodes.rows, n ∈ t'.nodes.rows)
    (he : ∀ e ∈ u.enrollments.rows, ∃ e' ∈ t'.enrollments.rows, e'.id = e.id) :
    Keeps P plan t t' := by
  obtain ⟨hun, hue, -⟩ := Tables.flush_eq_ok hu
  refine ⟨fun n hmem => ?_, fun e hmem => ?_, fun n h => ?_, fun e h => ?_⟩
  · refine ⟨_, hn (flushAll nodeMapping dirty.nodes n) ?_, flushAll_key (m := nodeMapping) _ n⟩
    rw [hun]
    exact List.mem_map.mpr ⟨n, hmem, rfl⟩
  · have hflushed : flushAll enrollmentMapping dirty.enrollments e ∈ u.enrollments.rows := by
      rw [hue]
      exact List.mem_map.mpr ⟨e, hmem, rfl⟩
    obtain ⟨e', he', hid⟩ := he _ hflushed
    exact ⟨e', he', hid.trans (flushAll_key (m := enrollmentMapping) _ e)⟩
  · rw [hnode] at h
    exact absurd h (Option.some_ne_none _).symm
  · rw [hitem] at h
    exact absurd h (Option.some_ne_none _).symm

theorem Keeps.of_enroll {plan : Plan} {t t' : Tables} {node : NodeRow} {item : EnrollmentRow}
    (hnode : Registrar.newNode plan = some node)
    (hitem : Registrar.newEnrollment P plan = some item)
    (hn : t'.nodes.rows = t.nodes.rows ++ [node])
    (he : t'.enrollments.rows = t.enrollments.rows ++ [item]) : Keeps P plan t t' := by
  constructor
  · exact fun n hmem => ⟨n, by rw [hn]; exact List.mem_append_left _ hmem, rfl⟩
  · exact fun e hmem => ⟨e, by rw [he]; exact List.mem_append_left _ hmem, rfl⟩
  · intro n h
    obtain rfl := Option.some.inj (hnode.symm.trans h)
    rw [hn]
    exact List.mem_append_right _ (List.mem_singleton_self _)
  · intro e h
    obtain rfl := Option.some.inj (hitem.symm.trans h)
    rw [he]
    exact List.mem_append_right _ (List.mem_singleton_self _)

/-- **What is still there after a commit** that does not delete a node. -/
theorem commit_keeps {plan : Plan} {t t' : Tables} {answer : Answer}
    (hplan : ∀ d, plan ≠ .deleteNode d) (h : plan.commit P t = .ok (t', answer)) :
    Keeps P plan t t' := by
  have hid : ∀ {l : List EnrollmentRow}, ∀ e ∈ l, ∃ e' ∈ l, e'.id = e.id := fun e he => ⟨e, he, rfl⟩
  cases plan with
  | write dirty _ =>
    obtain ⟨u, hu, h⟩ := bind_eq_ok.mp h
    obtain ⟨rfl, -⟩ := Prod.mk.inj (Except.ok.inj h)
    exact .of_flush hu rfl rfl (fun _ h => h) hid
  | insertNode node =>
    simp only [Plan.commit] at h
    split at h
    · next nodes hnodes =>
      obtain ⟨rfl, -⟩ := Prod.mk.inj (Except.ok.inj h)
      refine ⟨fun n hn => ⟨n, (mem_insert? hnodes).mpr (Or.inl hn), rfl⟩, hid, ?_, ?_⟩
      · rintro _ ⟨⟩
        exact (mem_insert? hnodes).mpr (Or.inr rfl)
      · exact fun e he => absurd he (Option.some_ne_none _).symm
    · simp at h
  | deleteNode d => exact absurd rfl (hplan d)
  | createEnrollment c =>
    obtain ⟨u, hu, h⟩ := bind_eq_ok.mp h
    obtain ⟨rfl, -⟩ := Prod.mk.inj (Except.ok.inj h)
    obtain ⟨-, -, hn, he, -⟩ := insertEnrolled_eq_ok hu
    exact .of_enroll rfl rfl hn he
  | claimEnrollment c =>
    change c.commit P t = .ok (t', answer) at h
    unfold EnrollmentClaim.commit at h
    split_ifs at h
    obtain ⟨rfl, -⟩ := Prod.mk.inj (Except.ok.inj h)
    refine .of_flush (flush_nil t) rfl rfl (fun _ h => h) fun e he => ?_
    exact ⟨_, List.mem_map.mpr ⟨e, he, rfl⟩, c.set_id P e⟩
  | register c =>
    change c.commit t = .ok (t', answer) at h
    unfold RegistrationCreation.commit at h
    split at h
    · obtain ⟨rfl, -⟩ := Prod.mk.inj (Except.ok.inj h)
      exact .of_flush (flush_nil t) rfl rfl (fun _ h => h) hid
    · simp at h
  | prove p =>
    change p.commit t = .ok (t', answer) at h
    unfold Proof.commit at h
    split_ifs at h
    obtain ⟨rfl, -⟩ := Prod.mk.inj (Except.ok.inj h)
    exact .of_flush (flush_nil t) rfl rfl (fun _ h => h) hid
  | sweep list =>
    obtain ⟨u, hu, h⟩ := bind_eq_ok.mp h
    obtain ⟨rfl, -⟩ := Prod.mk.inj (Except.ok.inj h)
    exact .of_flush hu rfl rfl (fun _ h => h) hid
  | accept a =>
    change a.commit P t = .ok (t', answer) at h
    unfold Acceptance.commit at h
    split_ifs at h
    obtain ⟨u, hu, h⟩ := bind_eq_ok.mp h
    obtain ⟨rfl, -⟩ := Prod.mk.inj (Except.ok.inj h)
    obtain ⟨-, -, hn, he, -⟩ := insertEnrolled_eq_ok hu
    exact .of_enroll rfl rfl hn he
  | reject d =>
    change d.commit t = .ok (t', answer) at h
    unfold Rejection.commit at h
    split_ifs at h
    obtain ⟨rfl, -⟩ := Prod.mk.inj (Except.ok.inj h)
    exact .of_flush (flush_nil t) rfl rfl (fun _ h => h) hid
  | claimRegistration c =>
    change c.commit P t = .ok (t', answer) at h
    unfold RegistrationClaim.commit at h
    split_ifs at h
    obtain ⟨u, hu, h⟩ := bind_eq_ok.mp h
    obtain ⟨rfl, -⟩ := Prod.mk.inj (Except.ok.inj h)
    exact .of_flush hu rfl rfl (fun _ h => h) hid

/-! ## One registration under a commit -/

/-- The registration that the conditional UPDATE of a commit is meant for. -/
def target : Plan → Option String
  | .prove p => some p.item.id
  | .accept a => some a.item.id
  | .reject d => some d.item.id
  | .claimRegistration c => some c.item.id
  | _ => none

variable (P) in
/-- What a commit makes of a registration. -/
inductive RowMove (plan : Plan) (r : RegistrationRow) : RegistrationRow → Prop
  | flushed (other : target plan ≠ some r.id) :
      RowMove plan r (flushAll registrationMapping (writes plan).registrations r)
  | proved (p : Proof) (own : plan = .prove p) (takes : p.takes r = true) :
      RowMove plan r (p.set r)
  | accepted (a : Acceptance) (own : plan = .accept a) (takes : a.takes r = true) :
      RowMove plan r (a.set P r)
  | rejected (d : Rejection) (own : plan = .reject d) (takes : d.takes r = true) :
      RowMove plan r (d.set r)
  | claimed (c : RegistrationClaim) (own : plan = .claimRegistration c)
      (takes : c.takes r = true) : RowMove plan r (c.set r)

theorem Proof.takes_iff {p : Proof} {r : RegistrationRow} : p.takes r = true ↔
    r.id = p.item.id ∧ r.status = .pendingProof ∧ r.challengeHash = p.item.challengeHash := by
  simp [Proof.takes, and_assoc]

theorem Acceptance.takes_iff {a : Acceptance} {r : RegistrationRow} : a.takes r = true ↔
    r.id = a.item.id ∧ r.status = .pendingApproval ∧ r.provedAt.isSome = true := by
  simp [Acceptance.takes, and_assoc]

theorem Rejection.takes_iff {d : Rejection} {r : RegistrationRow} : d.takes r = true ↔
    r.id = d.item.id ∧ r.status = .pendingApproval := by
  simp [Rejection.takes]

theorem RegistrationClaim.takes_iff {c : RegistrationClaim} {r : RegistrationRow} :
    c.takes r = true ↔ r.id = c.item.id ∧ r.status = .approved ∧
      r.registrationTokenHash = c.item.registrationTokenHash ∧
      r.challengeHash = c.item.challengeHash := by
  simp [RegistrationClaim.takes, and_assoc]

/-- The one row that a conditional UPDATE takes is that of its key. -/
theorem takes_of_count {t : Table RegistrationRow.key} {p : RegistrationRow → Bool} {id : String}
    (hp : ∀ x, p x = true → x.id = id) (h : t.rows.countP p = 1) {r : RegistrationRow}
    (hr : r ∈ t.rows) (hid : r.id = id) : p r = true := by
  obtain ⟨x, hx, hpx⟩ := List.countP_pos_iff.mp (by rw [h]; exact Nat.one_pos)
  rwa [← Table.eq_of_key hx hr ((hp x hpx).trans hid.symm)]

/-- The UPDATE of a commit has taken one row. -/
theorem target_taken {plan : Plan} {t t' : Tables} {answer : Answer}
    (h : plan.commit P t = .ok (t', answer)) :
    match plan with
    | .prove p => t.registrations.rows.countP p.takes = 1
    | .accept a => t.registrations.rows.countP a.takes = 1
    | .reject d => t.registrations.rows.countP d.takes = 1
    | .claimRegistration c => t.registrations.rows.countP c.takes = 1
    | _ => True := by
  cases plan with
  | prove p =>
    change p.commit t = .ok (t', answer) at h
    unfold Proof.commit at h
    split_ifs at h with hcount
    exact hcount
  | accept a =>
    change a.commit P t = .ok (t', answer) at h
    unfold Acceptance.commit at h
    split_ifs at h with hcount
    exact hcount
  | reject d =>
    change d.commit t = .ok (t', answer) at h
    unfold Rejection.commit at h
    split_ifs at h with hcount
    exact hcount
  | claimRegistration c =>
    change c.commit P t = .ok (t', answer) at h
    unfold RegistrationClaim.commit at h
    split_ifs at h with hcount
    exact hcount
  | _ => trivial

/-- **What a commit makes of the registrations.** -/
theorem commit_row {plan : Plan} {t t' : Tables} {answer : Answer}
    (h : plan.commit P t = .ok (t', answer)) {r' : RegistrationRow}
    (hr' : r' ∈ t'.registrations.rows) :
    (∃ r ∈ t.registrations.rows, RowMove P plan r r') ∨
      registered plan = some r' ∧ ∀ x ∈ t.registrations.rows, x.id ≠ r'.id := by
  refine ((commit_changes h).registrations r' hr').imp_left ?_
  rintro ⟨r, hr, rfl⟩
  refine ⟨r, hr, ?_⟩
  have htaken := target_taken h
  cases plan with
  | prove p =>
    change RowMove P _ r (p.set r)
    by_cases htakes : p.takes r = true
    · exact .proved p rfl htakes
    · rw [Proof.set, if_neg htakes]
      refine .flushed fun heq => htakes ?_
      exact takes_of_count (fun x hx => (Proof.takes_iff.mp hx).1) htaken hr
        (Option.some.inj heq).symm
  | accept a =>
    change RowMove P _ r (a.set P r)
    by_cases htakes : a.takes r = true
    · exact .accepted a rfl htakes
    · rw [Acceptance.set, if_neg htakes]
      refine .flushed fun heq => htakes ?_
      exact takes_of_count (fun x hx => (Acceptance.takes_iff.mp hx).1) htaken hr
        (Option.some.inj heq).symm
  | reject d =>
    change RowMove P _ r (d.set r)
    by_cases htakes : d.takes r = true
    · exact .rejected d rfl htakes
    · rw [Rejection.set, if_neg htakes]
      refine .flushed fun heq => htakes ?_
      exact takes_of_count (fun x hx => (Rejection.takes_iff.mp hx).1) htaken hr
        (Option.some.inj heq).symm
  | claimRegistration c =>
    change RowMove P _ r (c.set r)
    by_cases htakes : c.takes r = true
    · exact .claimed c rfl htakes
    · rw [RegistrationClaim.set, if_neg htakes]
      refine .flushed fun heq => htakes ?_
      exact takes_of_count (fun x hx => (RegistrationClaim.takes_iff.mp hx).1) htaken hr
        (Option.some.inj heq).symm
  | _ => exact .flushed (Option.some_ne_none _).symm

theorem RowMove.id {plan : Plan} {r r' : RegistrationRow} (h : RowMove P plan r r') :
    r'.id = r.id := by
  cases h with
  | flushed => exact flushAll_key (m := registrationMapping) _ r
  | proved p => exact p.set_id r
  | accepted a => exact a.set_id P r
  | rejected d => exact d.set_id r
  | claimed c => exact c.set_id r

theorem status_flush (a b x : RegistrationRow) :
    (registrationMapping.flush a b x).status = Lib.Orm.col a.status b.status x.status := rfl

/-! ## What a handler writes back -/

/-- How a handler changes a node that it has loaded. -/
inductive NodeWrite : Request → NodeRow → NodeRow → Prop
  | updated (nodeId : ℕ) (body : EdgeNodeUpdateBody) (n new : NodeRow)
      (patched : patch body n = some new) : NodeWrite (.updateEdgeNode nodeId body) n new
  | reported (authorization : Option String) (body : EdgeEnrollmentReportBody) (now : ℕ)
      (n : NodeRow) : NodeWrite (.reportEdgeEnrollment authorization body now) n (reportNode n)
  | revoked (enrollmentId fresh : String) (now : ℕ) (n : NodeRow) :
      NodeWrite (.revokeEdgeEnrollment enrollmentId fresh now) n (revokeNode n)
  | probed (inputs : MonitorInputs) (n : NodeRow) (result : Probe) (enabled : n.enabled = true) :
      NodeWrite (.runMonitor inputs) n (monitorNode result (inputs.clock n.id) n)

variable (P) in
/-- How a handler changes an enrollment that it has loaded. -/
inductive EnrollmentWrite : Request → EnrollmentRow → EnrollmentRow → Prop
  | listed (clock : String → ℕ) (e : EnrollmentRow) :
      EnrollmentWrite (.listEdgeEnrollments clock) e (serializeEnrollment (clock e.id) e)
  | expired (authorization : Option String) (body : EdgeEnrollmentClaimBody)
      (inputs : Enrollments.ClaimInputs) (e : EnrollmentRow) :
      EnrollmentWrite (.claimEdgeEnrollment authorization body inputs) e
        (serializeEnrollment inputs.now e)
  | reported (authorization : Option String) (body : EdgeEnrollmentReportBody) (now : ℕ)
      (e : EnrollmentRow) (token : e.reportTokenHash ≠ none) :
      EnrollmentWrite (.reportEdgeEnrollment authorization body now) e
        (reportEnrollment body now e)
  | revoked (enrollmentId fresh : String) (now : ℕ) (e : EnrollmentRow)
      (known : e.id = enrollmentId) (open_ : e.status ≠ .revoked ∧ e.status ≠ .online) :
      EnrollmentWrite (.revokeEdgeEnrollment enrollmentId fresh now) e
        (revokeEnrollment P fresh now e)
  | regenerated (enrollmentId : String) (inputs : RegenerateInputs) (e : EnrollmentRow)
      (known : e.id = enrollmentId)
      (idle : e.status = .pending ∨ e.status = .expired ∨ e.status = .revoked) :
      EnrollmentWrite (.regenerateEdgeEnrollment enrollmentId inputs) e
        (regenerateEnrollment P inputs e)
  | probed (inputs : MonitorInputs) (e : EnrollmentRow) (status : HealthStatus) (now : ℕ)
      (picked : linkedEnrollment e.edgeNodeId e.toNodeEnrollment = true) :
      EnrollmentWrite (.runMonitor inputs) e (monitorEnrollment status now e)
  | installing (requestId : String) (body : SignedBody) (authorization : Option String)
      (inputs : ClaimApprovedInputs) (c : RegistrationClaim)
      (claimed : c.enrollment.status = .claimed) :
      EnrollmentWrite (.claimApprovedNodeRegistration requestId body authorization inputs)
        c.enrollment c.installing

/-- How a handler changes a registration that it has loaded. -/
inductive RegistrationWrite : Request → RegistrationRow → RegistrationRow → Prop
  | same (req : Request) (r : RegistrationRow) : RegistrationWrite req r r
  | expired (req : Request) (r : RegistrationRow) (now : ℕ) (pending : awaiting r = true) :
      RegistrationWrite req r (expireRegistration now r)
  | reported (authorization : Option String) (body : EdgeEnrollmentReportBody) (now : ℕ)
      (r : RegistrationRow) (linked : r.edgeNodeId ≠ none) :
      RegistrationWrite (.reportEdgeEnrollment authorization body now) r
        (reportRegistration body now r)
  | probed (inputs : MonitorInputs) (r : RegistrationRow) (status : HealthStatus) (now : ℕ)
      (linked : r.edgeNodeId ≠ none) :
      RegistrationWrite (.runMonitor inputs) r (monitorRegistration status now r)
  | detached (nodeId : ℕ) (boundStore : Option String) (r : RegistrationRow) :
      RegistrationWrite (.deleteEdgeNode nodeId boundStore) r (detach r)

variable (P) in
/-- The write-backs of a handler of this request. -/
structure Sound (req : Request) (dirty : Dirty) : Prop where
  nodes : ∀ d ∈ dirty.nodes, NodeWrite req d.1 d.2
  enrollments : ∀ d ∈ dirty.enrollments, EnrollmentWrite P req d.1 d.2
  registrations : ∀ d ∈ dirty.registrations, RegistrationWrite req d.1 d.2

theorem Sound.nil (req : Request) : Sound P req {} := by
  constructor <;> intro d hd <;> exact absurd hd List.not_mem_nil

/-- A handler of this request. -/
inductive Handles (P : Primitives) (req : Request) : Handler → Prop
  | checked (requestId : String) (body : SignedBody) (authorization : Option String)
      (inputs : ClaimApprovedInputs) (claim : CheckedClaim)
      (own : req = .claimApprovedNodeRegistration requestId body authorization inputs) :
      Handles P req (.checked claim)
  | probing (nodes : List NodeRow) (progress : MonitorRun) (own : req = .runMonitor progress.inputs)
      (enabled : ∀ n ∈ nodes, n.enabled = true) (sound : Sound P req progress.dirty) :
      Handles P req (.probing nodes progress)
  | ready (plan : Plan) (sound : Sound P req (writes plan)) : Handles P req (.ready plan)

/-- Handlers that write nothing back. -/
theorem Handles.of_nil {req : Request} {plan : Plan} (h : writes plan = {}) :
    Handles P req (.ready plan) := .ready plan (by rw [h]; exact .nil req)

theorem Handles.write {req : Request} {dirty : Dirty} {answer : Answer}
    (hn : ∀ d ∈ dirty.nodes, NodeWrite req d.1 d.2)
    (he : ∀ d ∈ dirty.enrollments, EnrollmentWrite P req d.1 d.2)
    (hr : ∀ d ∈ dirty.registrations, RegistrationWrite req d.1 d.2) :
    Handles P req (.ready (.write dirty answer)) := .ready _ ⟨hn, he, hr⟩

theorem forall_mem_one {β : Type} {p : β → Prop} {a : β} (h : p a) : ∀ x ∈ [a], p x := by
  intro x hx
  rw [List.mem_singleton.mp hx]
  exact h

theorem forall_mem_none {β : Type} {p : β → Prop} : ∀ x ∈ ([] : List β), p x :=
  fun _ hx => absurd hx List.not_mem_nil

theorem forall_mem_toList {α β : Type} {p : β → Prop} {row : Option α} {f : α → β}
    (h : ∀ a, row = some a → p (f a)) : ∀ x ∈ (row.map f).toList, p x := by
  intro x hx
  obtain ⟨a, ha, rfl⟩ : ∃ a, row = some a ∧ f a = x := by simpa using hx
  exact h a ha

/-- **A handler of a request writes back what such a handler may.** -/
theorem begin_handles {db : Db} {req : Request} {handler : Handler}
    (h : begin P db req = .ok handler) : Handles P req handler := by
  cases req with
  | createEdgeNode body newId =>
    obtain ⟨n, -, rfl⟩ := map_eq_ok.mp h
    exact .of_nil rfl
  | updateEdgeNode nodeId body =>
    obtain ⟨⟨loaded, new⟩, hw, rfl⟩ := map_eq_ok.mp h
    obtain ⟨-, hpatch, -⟩ := updateEdgeNode_eq_ok hw
    exact .write (forall_mem_one (.updated nodeId body loaded new hpatch)) forall_mem_none
      forall_mem_none
  | deleteEdgeNode nodeId boundStore =>
    obtain ⟨d, -, rfl⟩ := map_eq_ok.mp h
    refine .ready _ ⟨forall_mem_none, forall_mem_none, fun w hw => ?_⟩
    obtain ⟨r, -, rfl⟩ := List.mem_map.mp hw
    exact .detached nodeId boundStore r
  | createEdgeEnrollment body inputs =>
    obtain ⟨c, -, rfl⟩ := map_eq_ok.mp h
    exact .of_nil rfl
  | listEdgeEnrollments clock =>
    obtain ⟨w, hw, rfl⟩ := map_eq_ok.mp h
    unfold listEdgeEnrollments at hw
    dsimp only at hw
    split at hw
    · simp at hw
    · obtain rfl := Except.ok.inj hw
      refine .write forall_mem_none (fun d hd => ?_) forall_mem_none
      obtain ⟨e, -, rfl⟩ := List.mem_map.mp hd
      exact .listed clock e
  | claimEdgeEnrollment authorization body inputs =>
    obtain ⟨w, hw, rfl⟩ := map_eq_ok.mp h
    rcases claimEdgeEnrollment_eq_ok hw with ⟨item, -, rfl⟩ | ⟨c, rfl, -⟩
    · exact .write forall_mem_none (forall_mem_one (.expired authorization body inputs item))
        forall_mem_none
    · exact .of_nil rfl
  | reportEdgeEnrollment authorization body now =>
    obtain ⟨w, hw, rfl⟩ := map_eq_ok.mp h
    obtain ⟨item, node, hitem, -, -, rfl⟩ := reportEdgeEnrollment_eq_ok hw
    obtain ⟨-, htoken, -⟩ := reportItem_eq_some hitem
    refine .write (forall_mem_toList fun n _ => .reported authorization body now n)
      (forall_mem_one (.reported authorization body now item htoken))
      (forall_mem_toList fun r hr => .reported authorization body now r ?_)
    have hown : r.edgeNodeId = some item.edgeNodeId := by simpa using (Table.first_mem hr).2
    rw [hown]
    exact Option.some_ne_none _
  | revokeEdgeEnrollment enrollmentId fresh now =>
    obtain ⟨⟨dirty, answer⟩, hw, rfl⟩ := map_eq_ok.mp h
    obtain ⟨item, node, hitem, -, hrevoked, honline, rfl⟩ := revokeEdgeEnrollment_eq_ok hw
    obtain ⟨-, hid⟩ := Table.get?_eq_some.mp hitem
    exact .write (forall_mem_one (.revoked enrollmentId fresh now node))
      (forall_mem_one (.revoked enrollmentId fresh now item hid ⟨hrevoked, honline⟩))
      forall_mem_none
  | regenerateEdgeEnrollment enrollmentId inputs =>
    obtain ⟨⟨dirty, answer⟩, hw, rfl⟩ := map_eq_ok.mp h
    obtain ⟨item, hitem, hidle, rfl⟩ := regenerateEdgeEnrollment_eq_ok hw
    obtain ⟨-, hid⟩ := Table.get?_eq_some.mp hitem
    exact .write forall_mem_none
      (forall_mem_one (.regenerated enrollmentId inputs item hid hidle)) forall_mem_none
  | createNodeRegistration body inputs =>
    obtain ⟨c, -, rfl⟩ := map_eq_ok.mp h
    exact .of_nil rfl
  | proveNodeRegistration requestId body authorization sourceIp now =>
    obtain ⟨w, hw, rfl⟩ := map_eq_ok.mp h
    rcases proveNodeRegistration_eq_ok hw with ⟨item, -, hpending, -, rfl⟩ | ⟨p, rfl, -⟩
    · refine .write forall_mem_none forall_mem_none (forall_mem_one (.expired _ item now ?_))
      simp [awaiting, hpending]
    · exact .of_nil rfl
  | nodeRegistrationStatus requestId authorization =>
    obtain ⟨a, -, rfl⟩ := map_eq_ok.mp h
    exact .of_nil rfl
  | listNodeRegistrationRequests now =>
    obtain rfl := Except.ok.inj h
    refine .ready _ ⟨forall_mem_none, forall_mem_none, fun w hw => ?_⟩
    obtain ⟨r, -, rfl⟩ := List.mem_map.mp hw
    change RegistrationWrite _ r (sweep now r)
    unfold sweep
    split_ifs with hover
    · exact .expired _ r now hover.1
    · exact .same _ r
  | acceptNodeRegistration requestId body inputs =>
    obtain ⟨a, -, rfl⟩ := map_eq_ok.mp h
    exact .of_nil rfl
  | rejectNodeRegistration requestId reason actorId now =>
    obtain ⟨r, -, rfl⟩ := map_eq_ok.mp h
    exact .of_nil rfl
  | claimApprovedNodeRegistration requestId body authorization inputs =>
    obtain ⟨claim, -, rfl⟩ := map_eq_ok.mp h
    exact .checked requestId body authorization inputs claim rfl
  | runMonitor inputs =>
    obtain rfl := Except.ok.inj h
    refine .probing _ _ rfl (fun n hn => ?_) (.nil _)
    simpa using (List.mem_filter.mp ((List.perm_insertionSort _ _).mem_iff.mp hn)).2

/-- A further read keeps it. -/
theorem proceed_handles {db : Db} {req : Request} {handler next : Handler}
    (hh : Handles P req handler) (h : proceed P db handler = .ok next) : Handles P req next := by
  cases hh with
  | checked requestId body authorization inputs claim own =>
    obtain ⟨c, hc, rfl⟩ := map_eq_ok.mp h
    obtain ⟨-, -, -, -, -, -, -, hclaimed, -⟩ := CheckedClaim.readEnrollment_eq_ok hc
    subst own
    exact .ready _ ⟨forall_mem_none,
      forall_mem_one (.installing requestId body authorization inputs c hclaimed), forall_mem_none⟩
  | probing nodes progress own enabled sound =>
    rcases nodes with _ | ⟨n, nodes⟩
    · obtain rfl := Except.ok.inj h
      exact .ready _ sound
    · obtain ⟨m, hm, rfl⟩ := map_eq_ok.mp h
      unfold MonitorRun.visit at hm
      split at hm
      · simp at hm
      · next result _ =>
        split_ifs at hm
        obtain rfl := Except.ok.inj hm
        subst own
        refine .probing nodes _ rfl (fun x hx => enabled x (List.mem_cons_of_mem n hx)) ⟨?_, ?_, ?_⟩
        · intro d hd
          rcases List.mem_append.mp hd with hd | hd
          · exact sound.nodes d hd
          · obtain rfl := List.mem_singleton.mp hd
            exact .probed progress.inputs n result (enabled n List.mem_cons_self)
        · intro d hd
          rcases List.mem_append.mp hd with hd | hd
          · exact sound.enrollments d hd
          · refine forall_mem_toList (p := fun d => EnrollmentWrite P _ d.1 d.2)
              (fun e he => ?_) d hd
            obtain ⟨-, hp⟩ := Table.first_mem he
            refine .probed progress.inputs e _ _ ?_
            simp only [linkedEnrollment, Bool.and_eq_true, beq_iff_eq] at hp ⊢
            exact ⟨trivial, hp.2⟩
        · intro d hd
          rcases List.mem_append.mp hd with hd | hd
          · exact sound.registrations d hd
          · refine forall_mem_toList (p := fun d => RegistrationWrite _ d.1 d.2)
              (fun r hr => ?_) d hd
            obtain ⟨-, hp⟩ := Table.first_mem hr
            refine .probed progress.inputs r _ _ ?_
            simp only [linkedRegistration, Bool.and_eq_true, beq_iff_eq] at hp
            rw [hp.1]
            exact Option.some_ne_none _
  | ready plan sound =>
    obtain rfl := Except.ok.inj h
    exact .ready plan sound

/-! ## Runs whose commits are all admissible -/

variable (P) in
/-- The condition `C` holds at every commit that goes through. -/
def Meets (C : Office → Request → Plan → Prop) (c : Crew Office Stage) (e : ℕ × Move) : Prop :=
  ∀ request plan since, e.2 = .proceed → c.loc e.1 = .working request (.ready plan) since →
    (∃ result, plan.attempt P c.shared.db = .ok result) → C c.shared request plan

/-- An event other than a commit is always admissible. -/
def committed (ok : Commit → List Event → Prop) : Event → List Event → Prop
  | .committed c, older => ok c older
  | _, _ => True

variable {I : Office → Prop} {A : ℕ → Office → Stage → Prop}

/-- **Exact conditions on commits**: if a commit leads from `D` to `D` exactly if it meets `C`, and no
other event leads out of `D`, then a run stays in `D` exactly if all its commits meet `C`. -/
theorem meets_iff {C : Office → Request → Plan → Prop} {D : Office → Prop}
    (hloc : ∀ r s stage move s' stage', I s → A r s stage →
      Acts P admits r s stage move s' stage' → I s' ∧ A r s' stage')
    (hstable : ∀ r q s stage move s' stage' other, q ≠ r → I s → A r s stage →
      Acts P admits r s stage move s' stage' → A q s other → A q s' other)
    (hevent : ∀ s e, (∀ c, e ≠ .committed c) → D s → D { s with log := e :: s.log })
    (hcommit : ∀ r s request plan since db answer, I s → D s →
      A r s (.working request (.ready plan) since) → plan.attempt P s.db = .ok (db, answer) →
      (C s request plan ↔
        D { db := db, log := .committed ⟨r, request, plan, since, s.db, db, answer⟩ :: s.log }))
    (as : List (ℕ × Move)) {c t : Crew Office Stage} (h0 : Holds I A c) (hD : D c.shared)
    (hr : run (step (act P admits)) c as = some t) :
    Along (step (act P admits)) (Meets P C) c as ↔
      Visits (step (act P admits)) (fun c => D c.shared) c as := by
  have hholds : ∀ c e c', Holds I A c → step (act P admits) c e = some c' →
      Holds I A c' := fun c e c' h hs =>
    owicki_step (C := fun _ _ => True)
      (fun c r a s' m' hI hA _ ha => hloc r c.shared (c.loc r) a s' m' hI hA (acts ha))
      (fun c r a s' m' q hI hA _ ha hq hAq =>
        hstable r q c.shared (c.loc r) a s' m' (c.loc q) hq hI hA (acts ha) hAq)
      c e c' h trivial hs
  refine along_iff_visits (I := fun c => Holds I A c ∧ D c.shared) (fun _ h => h.2) ?_ ?_ as c t
    ⟨h0, hD⟩ hr
  · rintro c ⟨r, move⟩ c' ⟨hH, hE⟩ hC hs
    refine ⟨hholds c _ c' hH hs, ?_⟩
    obtain ⟨s', stage', ha, rfl⟩ := step_eq_some.mp hs
    obtain ⟨hI, hA⟩ := hH
    replace hA := hA r
    generalize hstage : c.loc r = stage at ha hA
    cases acts ha with
    | began request => exact hevent _ (.began r request) (by simp) hE
    | turned request => exact hevent _ (.began r request) (by simp) hE
    | proceeded => exact hE
    | failed => exact hE
    | committed request plan since db answer attempt =>
      refine (hcommit r c.shared request plan since db answer hI hE hA attempt).mp ?_
      exact hC request plan since rfl hstage ⟨_, attempt⟩
    | signed stage publicKeyPem message =>
      exact hevent _ (.signed publicKeyPem message) (by simp) hE
  · rintro c ⟨r, move⟩ c' ⟨⟨hI, hA⟩, hD⟩ hC hs hE
    refine hC fun request plan since hmove hstage hok => ?_
    obtain ⟨⟨db, answer⟩, attempt⟩ := hok
    obtain rfl : move = .proceed := hmove
    replace hA := hA r
    rw [show c.loc r = .working request (.ready plan) since from hstage] at hA
    refine (hcommit r c.shared request plan since db answer hI hD hA attempt).mpr ?_
    obtain ⟨s', stage', ha, rfl⟩ := step_eq_some.mp hs
    have hact : act P admits r c.shared (.working request (.ready plan) since) .proceed =
        some ({ db := db, log := .committed ⟨r, request, plan, since, c.shared.db, db, answer⟩ ::
          c.shared.log }, .done answer) := by
      simp only [act, attempt]
    rw [show c.loc r = .working request (.ready plan) since from hstage] at ha
    obtain ⟨rfl, -⟩ := Prod.mk.inj (Option.some.inj (hact.symm.trans ha))
    exact hE

/-- The same of the log: if under an invariant of all runs a commit is admissible exactly if it meets
`C`, then a run leads to logs with admissible commits only, exactly if all its commits meet `C`. -/
theorem meets_iff_every {C : Office → Request → Plan → Prop} {ok : Commit → List Event → Prop}
    (hloc : ∀ r s stage move s' stage', I s → A r s stage →
      Acts P admits r s stage move s' stage' → I s' ∧ A r s' stage')
    (hstable : ∀ r q s stage move s' stage' other, q ≠ r → I s → A r s stage →
      Acts P admits r s stage move s' stage' → A q s other → A q s' other)
    (hcommit : ∀ r s request plan since db answer, I s →
      A r s (.working request (.ready plan) since) → plan.attempt P s.db = .ok (db, answer) →
      (C s request plan ↔ ok ⟨r, request, plan, since, s.db, db, answer⟩ s.log))
    (as : List (ℕ × Move)) {c t : Crew Office Stage} (h0 : Holds I A c)
    (hlog : Every (committed ok) c.shared.log)
    (hr : run (step (act P admits)) c as = some t) :
    Along (step (act P admits)) (Meets P C) c as ↔
      Visits (step (act P admits)) (fun c => Every (committed ok) c.shared.log) c as := by
  refine meets_iff (D := fun s => Every (committed ok) s.log) hloc hstable ?_ ?_ as h0 hlog hr
  · intro s e he hevery
    cases e with
    | committed c => exact absurd rfl (he c)
    | _ => exact ⟨trivial, hevery⟩
  · intro r s request plan since db answer hI hevery hA hattempt
    rw [hcommit r s request plan since db answer hI hA hattempt]
    exact ⟨fun hok => ⟨hok, hevery⟩, fun h => h.1⟩

end IdenGrid.Control.Registrar
