import IdenGrid.Control.Fleet
import IdenGrid.Control.Registrar

/-! # Decisions about a registration

The proof, the two decisions and the claim are conditional UPDATEs; the list request and a late
proof write `expired` over a row that they have read before. `final_iff`: the status of every
registration moves as it should, no proof, approval or rejection is overwritten, and at most one of
approval and rejection is committed, exactly if every such write finds the row as it was read
(`Current`). The rank of a status is what no interleaving lowers. -/

namespace IdenGrid.Control.Decisions

open IdenGrid.Lib.Run IdenGrid.Lib.Store IdenGrid.Lib.WriteBack IdenGrid.Lib.Requests
open IdenGrid.Lib.History IdenGrid.Lib.Results
open IdenGrid.Control.Rows
open IdenGrid.Control.Monitor hiding Db
open IdenGrid.Control.Registry IdenGrid.Control.NodeAdmin IdenGrid.Control.Enrollments
open IdenGrid.Control.Registrations IdenGrid.Control.Handlers IdenGrid.Control.Registrar
open IdenGrid.Control.Fleet hiding step

/-- The proof, the decisions, the claim and the list. -/
def decisive : Request → Bool
  | .proveNodeRegistration _ _ _ _ _ | .acceptNodeRegistration _ _ _
  | .rejectNodeRegistration _ _ _ _ | .claimApprovedNodeRegistration _ _ _ _
  | .listNodeRegistrationRequests _ => true
  | _ => false

def admits (_ : List Event) (request : Request) : Bool := decisive request

/-- How the status of a registration may move. -/
def allowed : RegistrationStatus → RegistrationStatus → Bool
  | .pendingProof, .pendingApproval => true
  | .pendingApproval, .approved | .pendingApproval, .rejected => true
  | .approved, .installing => true
  | .pendingProof, .expired | .pendingApproval, .expired => true
  | _, _ => false

/-- The registration of which a commit is the proof, the approval or the rejection. -/
def decidedBy : Plan → Option String
  | .prove p => some p.item.id
  | .accept a => some a.item.id
  | .reject d => some d.item.id
  | _ => none

/-- The registration of which a commit is the approval or the rejection. -/
def settledBy : Plan → Option String
  | .accept a => some a.item.id
  | .reject d => some d.item.id
  | _ => none

def decided : Event → Option String
  | .committed c => decidedBy c.plan
  | _ => none

def settled : Event → Option String
  | .committed c => settledBy c.plan
  | _ => none

/-- What a commit may do to the registrations. -/
structure Final (c : Commit) (older : List Event) : Prop where
  moves : ∀ r ∈ c.found.registrations.rows, ∀ r' ∈ c.made.registrations.rows, r'.id = r.id →
    r'.status = r.status ∨ allowed r.status r'.status = true
  kept : ∀ r ∈ c.found.registrations.rows, ∀ r' ∈ c.made.registrations.rows, r'.id = r.id →
    r.status ≠ .expired → r'.status = .expired → ∀ e ∈ since c.since older, decided e ≠ some r.id
  once : ∀ id, settledBy c.plan = some id → ∀ e ∈ older, settled e ≠ some id

/-- An expiry finds the row in the status in which it was read, or already expired. -/
def Current (s : Office) (_ : Request) (plan : Plan) : Prop :=
  ∀ d ∈ (writes plan).registrations, d.1.status ≠ d.2.status →
    ∀ x ∈ s.db.registrations.rows, x.id = d.1.id → x.status = d.1.status ∨ x.status = .expired

/-- What no interleaving lowers. -/
def rank : RegistrationStatus → ℕ
  | .pendingProof => 0
  | .pendingApproval => 1
  | _ => 2

theorem rank_le (s : RegistrationStatus) : rank s ≤ 2 := by cases s <;> decide

variable {P : Primitives}

/-! ## One row under a commit -/

/-- What a commit does to the status of a registration. -/
inductive StatusMove (plan : Plan) (r r' : RegistrationRow) : Prop
  | kept (status : r'.status = r.status) (other : decidedBy plan ≠ some r.id)
  | expired (d : RegistrationRow × RegistrationRow) (mem : d ∈ (writes plan).registrations)
      (own : d.1.id = r.id) (written : d.1.status ≠ d.2.status) (status : r'.status = .expired)
      (undecided : decidedBy plan = none)
  | proved (p : Proof) (own : plan = .prove p ∧ p.item.id = r.id) (from_ : r.status = .pendingProof)
      (status : r'.status = .pendingApproval)
  | accepted (a : Acceptance) (own : plan = .accept a ∧ a.item.id = r.id)
      (from_ : r.status = .pendingApproval) (status : r'.status = .approved)
  | rejected (d : Rejection) (own : plan = .reject d ∧ d.item.id = r.id)
      (from_ : r.status = .pendingApproval) (status : r'.status = .rejected)
  | claimed (from_ : r.status = .approved) (status : r'.status = .installing)
      (undecided : decidedBy plan = none)

/-- A write-back of a decisive request is an expiry or no change. -/
theorem write_expires {req : Request} {a b : RegistrationRow} (hreq : decisive req = true)
    (h : RegistrationWrite req a b) (hne : a.status ≠ b.status) :
    awaiting a = true ∧ b.status = .expired := by
  cases h with
  | same => exact absurd rfl hne
  | expired _ _ now pending => exact ⟨pending, rfl⟩
  | reported => exact Bool.noConfusion hreq
  | probed => exact Bool.noConfusion hreq
  | detached => exact Bool.noConfusion hreq

theorem target_of_decidedBy {plan : Plan} {id : String} (h : decidedBy plan = some id) :
    target plan = some id := by
  cases plan <;> first | exact h | exact absurd h (Option.some_ne_none _).symm

/-- **Every row moves in one of these ways.** -/
theorem commit_moves {req : Request} {plan : Plan} {t t' : Tables} {answer : Answer}
    (hreq : decisive req = true) (hsound : Sound P req (writes plan)) (hnew : registered plan = none)
    (h : plan.commit P t = .ok (t', answer)) {r' : RegistrationRow}
    (hr' : r' ∈ t'.registrations.rows) :
    ∃ r ∈ t.registrations.rows, r'.id = r.id ∧ StatusMove plan r r' := by
  rcases commit_row h hr' with ⟨r, hr, hmove⟩ | ⟨hbad, -⟩
  swap
  · rw [hnew] at hbad
    exact absurd hbad (Option.some_ne_none _).symm
  refine ⟨r, hr, hmove.id, ?_⟩
  cases hmove with
  | flushed other =>
    have hother : decidedBy plan ≠ some r.id := fun hd => other (target_of_decidedBy hd)
    rcases flushAll_column (c := fun r : RegistrationRow => r.status) (m := registrationMapping)
      status_flush (writes plan).registrations r with hsame | ⟨d, hd, hk, hne, hnew⟩
    · exact .kept hsame hother
    · obtain ⟨-, hexpired⟩ := write_expires hreq (hsound.registrations d hd) hne
      refine .expired d hd hk hne (hnew.trans hexpired) ?_
      cases plan <;> first | rfl | exact absurd hd List.not_mem_nil
  | proved p own takes =>
    obtain ⟨hid, hstatus, -⟩ := Proof.takes_iff.mp takes
    rw [Proof.set, if_pos takes]
    exact .proved p ⟨own, hid.symm⟩ hstatus rfl
  | accepted a own takes =>
    obtain ⟨hid, hstatus, -⟩ := Acceptance.takes_iff.mp takes
    rw [Acceptance.set, if_pos takes]
    exact .accepted a ⟨own, hid.symm⟩ hstatus rfl
  | rejected d own takes =>
    obtain ⟨hid, hstatus⟩ := Rejection.takes_iff.mp takes
    rw [Rejection.set, if_pos takes]
    exact .rejected d ⟨own, hid.symm⟩ hstatus rfl
  | claimed c own takes =>
    obtain ⟨-, hstatus, -⟩ := RegistrationClaim.takes_iff.mp takes
    rw [RegistrationClaim.set, if_pos takes]
    exact .claimed hstatus rfl (by rw [own]; rfl)

/-- No move lowers the rank. -/
theorem StatusMove.rank_le {plan : Plan} {r r' : RegistrationRow} (h : StatusMove plan r r') :
    rank r.status ≤ rank r'.status := by
  cases h with
  | kept status => rw [status]
  | expired _ _ _ _ status => rw [status]; exact Decisions.rank_le _
  | proved _ _ from_ status => rw [from_, status]; decide
  | accepted _ _ from_ status => rw [from_, status]; decide
  | rejected _ _ from_ status => rw [from_, status]; decide
  | claimed from_ status => rw [from_, status]; decide

/-- A decision raises it. -/
theorem StatusMove.rank_lt {plan : Plan} {r r' : RegistrationRow} (h : StatusMove plan r r')
    (hd : decidedBy plan = some r.id) : rank r.status < rank r'.status := by
  cases h with
  | kept _ other => exact absurd hd other
  | expired _ _ _ _ _ undecided =>
    rw [undecided] at hd
    exact absurd hd (Option.some_ne_none _).symm
  | proved _ _ from_ status => rw [from_, status]; decide
  | accepted _ _ from_ status => rw [from_, status]; decide
  | rejected _ _ from_ status => rw [from_, status]; decide
  | claimed _ _ undecided =>
    rw [undecided] at hd
    exact absurd hd (Option.some_ne_none _).symm

/-! ## What a request knows of the rows it has read -/

/-- A row that a request has read as pending when the log had `n` events: without a decision since
then it is as it was, or expired; with one it has a higher rank. -/
def Seen (item : RegistrationRow) (n : ℕ) (s : Office) : Prop :=
  awaiting item = true ∧ ∀ x ∈ s.db.registrations.rows, x.id = item.id →
    ((∀ e ∈ since n s.log, decided e ≠ some item.id) ∧
        (x.status = item.status ∨ x.status = .expired)) ∨
      (∃ e ∈ since n s.log, decided e = some item.id) ∧ rank item.status < rank x.status

/-- What a handler that is ready to commit has read. -/
structure Ready (s : Office) (plan : Plan) (n : ℕ) : Prop where
  registered : registered plan = none
  seen : ∀ d ∈ (writes plan).registrations, d.1.status ≠ d.2.status → Seen d.1 n s
  items : ∀ list, plan = .sweep list → (list.items.map RegistrationRow.key).Nodup

/-- The assertion of a request. -/
def Asserts (P : Primitives) (_ : ℕ) (s : Office) : Stage → Prop
  | .working request handler n => decisive request = true ∧ Handles P request handler ∧
      n ≤ s.log.length ∧ ∀ plan, handler = .ready plan → Ready s plan n
  | _ => True

/-- The registrations that are decided stay so. -/
def Settled (s : Office) : Prop :=
  ∀ e ∈ s.log, ∀ r ∈ s.db.registrations.rows, settled e = some r.id → rank r.status = 2

/-- A row that has just been read. -/
theorem Seen.now {s : Office} {item : RegistrationRow} (hitem : item ∈ s.db.registrations.rows)
    (hpending : awaiting item = true) (r : ℕ) (request : Request) :
    Seen item s.log.length { s with log := .began r request :: s.log } := by
  refine ⟨hpending, fun x hx hid => Or.inl ⟨fun e he => ?_, ?_⟩⟩
  · rw [since_cons le_rfl, since_length, List.mem_singleton] at he
    rw [he]
    exact (Option.some_ne_none _).symm
  · rw [Table.eq_of_key hx hitem hid]
    exact Or.inl rfl

/-- An event that is not a commit. -/
theorem Seen.event {s : Office} {item : RegistrationRow} {n : ℕ} {e : Event} (h : Seen item n s)
    (hn : n ≤ s.log.length) (he : decided e = none) : Seen item n { s with log := e :: s.log } := by
  refine ⟨h.1, fun x hx hid => ?_⟩
  rw [since_cons hn]
  rcases h.2 x hx hid with ⟨hno, hsame⟩ | ⟨⟨e', he', hdecided⟩, hrank⟩
  · refine Or.inl ⟨fun e' he' => ?_, hsame⟩
    rcases List.mem_cons.mp he' with rfl | he'
    · rw [he]
      exact (Option.some_ne_none _).symm
    · exact hno e' he'
  · exact Or.inr ⟨⟨e', List.mem_cons_of_mem e he', hdecided⟩, hrank⟩

/-- **A commit of another request keeps what a request knows.** -/
theorem Seen.commit {s : Office} {item : RegistrationRow} {n q : ℕ} {req : Request} {plan : Plan}
    {m : ℕ} {db : Db} {answer : Answer} (h : Seen item n s) (hn : n ≤ s.log.length)
    (hmoves : ∀ x' ∈ db.registrations.rows, ∃ x ∈ s.db.registrations.rows, x'.id = x.id ∧
      StatusMove plan x x') :
    Seen item n { db := db, log := .committed ⟨q, req, plan, m, s.db, db, answer⟩ :: s.log } := by
  refine ⟨h.1, fun x' hx' hid' => ?_⟩
  obtain ⟨x, hx, hxid, hmove⟩ := hmoves x' hx'
  have hid : x.id = item.id := hxid.symm.trans hid'
  rw [since_cons hn]
  rcases h.2 x hx hid with ⟨hno, hsame⟩ | ⟨⟨e, he, hdecided⟩, hrank⟩
  swap
  · exact Or.inr ⟨⟨e, List.mem_cons_of_mem _ he, hdecided⟩, hrank.trans_le hmove.rank_le⟩
  by_cases hdecided : decidedBy plan = some x.id
  · refine Or.inr ⟨⟨_, List.mem_cons_self, hdecided.trans (congrArg some hid)⟩, ?_⟩
    rcases hsame with hs | hs
    · rw [← hs]
      exact hmove.rank_lt hdecided
    · have := hmove.rank_lt hdecided
      rw [hs] at this
      exact absurd this (not_lt.mpr (rank_le _))
  · refine Or.inl ⟨?_, ?_⟩
    · intro e he
      rcases List.mem_cons.mp he with rfl | he
      · rw [← hid]
        exact hdecided
      · exact hno e he
    · cases hmove with
      | kept status => rw [status]; exact hsame
      | expired _ _ _ _ status => exact Or.inr status
      | proved p own => rw [own.1] at hdecided; exact absurd (congrArg some own.2) hdecided
      | accepted a own => rw [own.1] at hdecided; exact absurd (congrArg some own.2) hdecided
      | rejected d own => rw [own.1] at hdecided; exact absurd (congrArg some own.2) hdecided
      | claimed from_ _ _ =>
        have hpending := h.1
        rcases hsame with hs | hs
        · rw [awaiting, ← hs, from_] at hpending
          exact Bool.noConfusion hpending
        · rw [from_] at hs
          exact absurd hs (by decide)

/-- The items of a list request that has just begun. -/
theorem ready_begin {r : ℕ} {s : Office} {request : Request} {plan : Plan}
    (hreq : decisive request = true) (h : begin P s.db request = .ok (.ready plan)) :
    Ready { s with log := .began r request :: s.log } plan s.log.length := by
  have hnone : ∀ {plan : Plan}, registered plan = none → (writes plan).registrations = [] →
      (∀ list, plan ≠ .sweep list) →
      Ready { s with log := .began r request :: s.log } plan s.log.length := by
    intro plan h1 h2 h3
    exact ⟨h1, by rw [h2]; exact forall_mem_none, fun list hlist => absurd hlist (h3 list)⟩
  cases request with
  | proveNodeRegistration requestId body authorization sourceIp now =>
    obtain ⟨w, hw, heq⟩ := map_eq_ok.mp h
    obtain rfl := Handler.ready.inj heq
    rcases proveNodeRegistration_eq_ok hw with ⟨item, hget, hpending, -, rfl⟩ | ⟨p, rfl, -⟩
    · refine ⟨rfl, forall_mem_one fun _ => ?_, by simp [Plan.ofWrite]⟩
      exact Seen.now (Table.get?_eq_some.mp hget).1 (by simp [awaiting, hpending]) r _
    · exact hnone rfl rfl (by simp)
  | listNodeRegistrationRequests now =>
    obtain rfl := Handler.ready.inj (Except.ok.inj h)
    refine ⟨rfl, fun d hd hne => ?_, fun list hlist => ?_⟩
    · obtain ⟨r, hr, rfl⟩ := List.mem_map.mp hd
      have hmem : r ∈ s.db.registrations.rows := (List.mem_filter.mp hr).1
      change r.status ≠ (sweep now r).status at hne
      unfold sweep at hne
      split_ifs at hne with hover
      · exact Seen.now hmem hover.1 _ _
      · exact absurd rfl hne
    · obtain rfl := Plan.sweep.inj hlist
      exact s.db.registrations.nodup
  | acceptNodeRegistration requestId body inputs =>
    obtain ⟨a, -, heq⟩ := map_eq_ok.mp h
    obtain rfl := Handler.ready.inj heq
    exact hnone rfl rfl (by simp)
  | rejectNodeRegistration requestId reason actorId now =>
    obtain ⟨r, -, heq⟩ := map_eq_ok.mp h
    obtain rfl := Handler.ready.inj heq
    exact hnone rfl rfl (by simp)
  | claimApprovedNodeRegistration requestId body authorization inputs =>
    obtain ⟨claim, -, heq⟩ := map_eq_ok.mp h
    exact absurd heq (by simp)
  | _ => exact Bool.noConfusion hreq

/-- A further read of a claim. -/
theorem ready_proceed {s : Office} {request : Request} {handler : Handler} {plan : Plan} {n : ℕ}
    (hreq : decisive request = true) (hh : Handles P request handler)
    (hwaiting : ∀ plan, handler ≠ .ready plan) (h : proceed P s.db handler = .ok (.ready plan)) :
    Ready s plan n := by
  cases hh with
  | checked requestId body authorization inputs claim own =>
    obtain ⟨c, -, heq⟩ := map_eq_ok.mp h
    obtain rfl := Handler.ready.inj heq
    exact ⟨rfl, forall_mem_none, by simp⟩
  | probing nodes progress own => rw [own] at hreq; exact Bool.noConfusion hreq
  | ready plan _ => exact absurd rfl (hwaiting plan)

/-! ## Every interleaving -/

/-- The rows after a commit of a request that has met its assertion. -/
theorem asserted_moves {r : ℕ} {s : Office} {request : Request} {plan : Plan} {n : ℕ} {db : Db}
    {answer : Answer} (hA : Asserts P r s (.working request (.ready plan) n))
    (hattempt : plan.attempt P s.db = .ok (db, answer)) :
    ∀ x' ∈ db.registrations.rows, ∃ x ∈ s.db.registrations.rows, x'.id = x.id ∧
      StatusMove plan x x' := by
  obtain ⟨hreq, hhandles, -, hready⟩ := hA
  cases hhandles with
  | ready _ sound =>
    exact fun x' hx' => commit_moves hreq sound (hready plan rfl).registered
      (Plan.attempt_eq_ok P hattempt) hx'

/-- A request keeps the settled registrations settled, and its own assertion. -/
theorem asserts_local (r : ℕ) (s : Office) (stage : Stage) (move : Move) (s' : Office)
    (stage' : Stage) (hI : Settled s) (hA : Asserts P r s stage)
    (ha : Acts P admits r s stage move s' stage') : Settled s' ∧ Asserts P r s' stage' := by
  have hquiet : ∀ e : Event, settled e = none → Settled { s with log := e :: s.log } := by
    intro e he x hx y hy hsettled
    rcases List.mem_cons.mp hx with rfl | hx
    · rw [he] at hsettled
      exact absurd hsettled (Option.some_ne_none _).symm
    · exact hI x hx y hy hsettled
  cases ha with
  | began request handler admitted read =>
    refine ⟨hquiet _ rfl, admitted, begin_handles read, Nat.le_succ _, fun plan hplan => ?_⟩
    subst hplan
    exact ready_begin admitted read
  | turned => exact ⟨hquiet _ rfl, trivial⟩
  | proceeded request handler next n waiting read =>
    obtain ⟨hreq, hhandles, hn, -⟩ := hA
    refine ⟨hI, hreq, proceed_handles hhandles read, hn, fun plan hplan => ?_⟩
    subst hplan
    exact ready_proceed hreq hhandles waiting read
  | failed => exact ⟨hI, trivial⟩
  | committed request plan n db answer attempt =>
    refine ⟨fun e he x' hx' hsettled => ?_, trivial⟩
    obtain ⟨x, hx, hid, hmove⟩ := asserted_moves hA attempt x' hx'
    rw [hid] at hsettled
    rcases List.mem_cons.mp he with rfl | he
    · change settledBy plan = some x.id at hsettled
      cases hmove with
      | kept _ other =>
        cases plan <;> first | exact absurd hsettled other | simp [settledBy] at hsettled
      | expired _ _ _ _ status => rw [status]; rfl
      | proved p own => rw [own.1] at hsettled; simp [settledBy] at hsettled
      | accepted _ _ _ status => rw [status]; rfl
      | rejected _ _ _ status => rw [status]; rfl
      | claimed _ status => rw [status]; rfl
    · refine Nat.le_antisymm (rank_le _) ?_
      rw [← hI e he x hx hsettled]
      exact hmove.rank_le
  | signed _ publicKeyPem message =>
    refine ⟨hquiet _ rfl, ?_⟩
    unfold Asserts at hA ⊢
    split
    · obtain ⟨hreq, hhandles, hn, hready⟩ := hA
      refine ⟨hreq, hhandles, hn.trans (Nat.le_succ _), fun plan hplan => ?_⟩
      obtain ⟨h1, h2, h3⟩ := hready plan hplan
      exact ⟨h1, fun d hd hne => (h2 d hd hne).event hn rfl, h3⟩
    · trivial

/-- No request disturbs the assertion of another one. -/
theorem asserts_stable (r q : ℕ) (s : Office) (stage : Stage) (move : Move) (s' : Office)
    (stage' other : Stage) (_ : q ≠ r) (_ : Settled s) (hA : Asserts P r s stage)
    (ha : Acts P admits r s stage move s' stage') (hother : Asserts P q s other) :
    Asserts P q s' other := by
  unfold Asserts at hother ⊢
  split
  swap
  · trivial
  obtain ⟨hreq, hhandles, hn, hready⟩ := hother
  have hevent : ∀ e : Event, decided e = none → ∀ plan, Ready s plan _ →
      Ready { s with log := e :: s.log } plan _ := fun e he plan h =>
    ⟨h.registered, fun d hd hne => (h.seen d hd hne).event hn he, h.items⟩
  cases ha with
  | began => exact ⟨hreq, hhandles, hn.trans (Nat.le_succ _), fun plan hplan =>
      hevent _ rfl plan (hready plan hplan)⟩
  | turned => exact ⟨hreq, hhandles, hn.trans (Nat.le_succ _), fun plan hplan =>
      hevent _ rfl plan (hready plan hplan)⟩
  | proceeded => exact ⟨hreq, hhandles, hn, hready⟩
  | failed => exact ⟨hreq, hhandles, hn, hready⟩
  | committed request plan n db answer attempt =>
    refine ⟨hreq, hhandles, hn.trans (Nat.le_succ _), fun plan' hplan => ?_⟩
    obtain ⟨h1, h2, h3⟩ := hready plan' hplan
    exact ⟨h1, fun d hd hne => (h2 d hd hne).commit hn (asserted_moves hA attempt), h3⟩
  | signed => exact ⟨hreq, hhandles, hn.trans (Nat.le_succ _), fun plan hplan =>
      hevent _ rfl plan (hready plan hplan)⟩

/-- An expiry that goes through expires the row, whatever its status is by then. -/
theorem expires {req : Request} {plan : Plan} {t t' : Tables} {answer : Answer}
    (hreq : decisive req = true) (hsound : Sound P req (writes plan))
    (hitems : ∀ list, plan = .sweep list → (list.items.map RegistrationRow.key).Nodup)
    (h : plan.commit P t = .ok (t', answer)) {d : RegistrationRow × RegistrationRow}
    (hd : d ∈ (writes plan).registrations) (hne : d.1.status ≠ d.2.status) {x : RegistrationRow}
    (hx : x ∈ t.registrations.rows) (hid : x.id = d.1.id) :
    ∃ x' ∈ t'.registrations.rows, x'.id = x.id ∧ x'.status = .expired := by
  set x' := flushAll registrationMapping (writes plan).registrations x with hx'
  have hxid : x'.id = x.id := flushAll_key (m := registrationMapping) _ x
  have hstatus : x'.status = .expired := by
    obtain ⟨d', hd', -, hne', hnew⟩ := flushAll_written (c := fun r : RegistrationRow => r.status)
      (m := registrationMapping) status_flush ⟨d, hd, hid.symm, hne⟩
    exact hnew.trans (write_expires hreq (hsound.registrations d' hd') hne').2
  refine ⟨x', ?_, hxid, hstatus⟩
  cases plan with
  | write dirty _ =>
    obtain ⟨u, hu, h⟩ := bind_eq_ok.mp h
    obtain ⟨rfl, -⟩ := Prod.mk.inj (Except.ok.inj h)
    rw [(Tables.flush_eq_ok hu).2.2]
    exact List.mem_map.mpr ⟨x, hx, rfl⟩
  | sweep list =>
    obtain ⟨u, hu, h⟩ := bind_eq_ok.mp h
    obtain ⟨rfl, -⟩ := Prod.mk.inj (Except.ok.inj h)
    refine mem_delete.mpr ⟨?_, List.any_eq_false.mpr fun y hy hbad => ?_⟩
    · rw [(Tables.flush_eq_ok hu).2.2]
      exact List.mem_map.mpr ⟨x, hx, rfl⟩
    · -- the loaded row of that key is the one that is written back
      obtain ⟨r, hr, rfl⟩ := List.mem_map.mp hd
      obtain ⟨hitem, hstays⟩ := List.mem_filter.mp hr
      simp only [Bool.and_eq_true, beq_iff_eq] at hbad
      have hkey : y.key = r.key := hbad.1.trans (hxid.trans hid)
      rw [List.inj_on_of_nodup_map (hitems list rfl) hy hitem hkey] at hbad
      rw [hbad.2] at hstays
      exact Bool.noConfusion hstays
  | deleteNode deletion =>
    obtain ⟨y, -, rfl⟩ := List.mem_map.mp hd
    exact absurd rfl hne
  | _ => exact absurd hd List.not_mem_nil

/-- An approval or a rejection takes a registration that is pending approval. -/
theorem settled_row {plan : Plan} {t t' : Tables} {answer : Answer} {id : String}
    (hsettled : settledBy plan = some id) (h : plan.commit P t = .ok (t', answer)) :
    ∃ x ∈ t.registrations.rows, x.id = id ∧ x.status = .pendingApproval := by
  have htaken := target_taken h
  cases plan with
  | accept a =>
    obtain rfl := Option.some.inj hsettled
    obtain ⟨x, hx, htakes⟩ := List.countP_pos_iff.mp (htaken.symm ▸ Nat.one_pos)
    obtain ⟨hid, hstatus, -⟩ := Acceptance.takes_iff.mp htakes
    exact ⟨x, hx, hid, hstatus⟩
  | reject d =>
    obtain rfl := Option.some.inj hsettled
    obtain ⟨x, hx, htakes⟩ := List.countP_pos_iff.mp (htaken.symm ▸ Nat.one_pos)
    obtain ⟨hid, hstatus⟩ := Rejection.takes_iff.mp htakes
    exact ⟨x, hx, hid, hstatus⟩
  | _ => exact absurd hsettled (Option.some_ne_none _).symm

/-- **A commit is as it should be exactly if it is current.** -/
theorem current_iff_final (r : ℕ) (s : Office) (request : Request) (plan : Plan) (n : ℕ) (db : Db)
    (answer : Answer) (hI : Settled s) (hA : Asserts P r s (.working request (.ready plan) n))
    (hattempt : plan.attempt P s.db = .ok (db, answer)) :
    Current s request plan ↔ Final ⟨r, request, plan, n, s.db, db, answer⟩ s.log := by
  have hmoves := asserted_moves hA hattempt
  obtain ⟨hreq, hhandles, hn, hready⟩ := hA
  obtain ⟨-, hseen, hitems⟩ := hready plan rfl
  have hsound : Sound P request (writes plan) := by
    cases hhandles with
    | ready _ sound => exact sound
  constructor
  · intro hcurrent
    constructor
    · intro x hx x' hx' hid
      obtain ⟨y, hy, hyid, hmove⟩ := hmoves x' hx'
      obtain rfl : y = x := Table.eq_of_key hy hx (hyid.symm.trans hid)
      cases hmove with
      | kept status => exact Or.inl status
      | expired d hd hown hne status =>
        obtain ⟨hpending, -⟩ := hseen d hd hne
        rcases hcurrent d hd hne y hx hown.symm with hs | hs
        · refine Or.inr ?_
          rw [status, hs]
          simp only [awaiting, Bool.or_eq_true, beq_iff_eq] at hpending
          rcases hpending with h | h <;> rw [h] <;> rfl
        · exact Or.inl (status.trans hs.symm)
      | proved _ _ from_ status => rw [from_, status]; exact Or.inr rfl
      | accepted _ _ from_ status => rw [from_, status]; exact Or.inr rfl
      | rejected _ _ from_ status => rw [from_, status]; exact Or.inr rfl
      | claimed from_ status => rw [from_, status]; exact Or.inr rfl
    · intro x hx x' hx' hid hlive hexpired
      obtain ⟨y, hy, hyid, hmove⟩ := hmoves x' hx'
      obtain rfl : y = x := Table.eq_of_key hy hx (hyid.symm.trans hid)
      cases hmove with
      | kept status => exact absurd (status.symm.trans hexpired) hlive
      | expired d hd hown hne =>
        rcases hcurrent d hd hne y hx hown.symm with hs | hs
        · rcases (hseen d hd hne).2 y hx hown.symm with ⟨hno, -⟩ | hrank
          · rw [← hown]
            exact hno
          · rw [hs] at hrank
            exact absurd hrank.2 (lt_irrefl _)
        · exact absurd hs hlive
      | proved _ _ _ status => exact absurd (status.symm.trans hexpired) (by decide)
      | accepted _ _ _ status => exact absurd (status.symm.trans hexpired) (by decide)
      | rejected _ _ _ status => exact absurd (status.symm.trans hexpired) (by decide)
      | claimed _ status => exact absurd (status.symm.trans hexpired) (by decide)
    · intro id hid e he hsettled
      obtain ⟨x, hx, rfl, hstatus⟩ := settled_row hid (Plan.attempt_eq_ok P hattempt)
      have := hI e he x hx hsettled
      rw [hstatus] at this
      exact absurd this (by decide)
  · intro hfinal d hd hne x hx hid
    obtain ⟨hpending, hsees⟩ := hseen d hd hne
    rcases hsees x hx hid with ⟨-, hsame⟩ | ⟨⟨e, he, hdecided⟩, -⟩
    · exact hsame
    · by_contra hbad
      push Not at hbad
      obtain ⟨x', hx', hxid, hexpired⟩ :=
        expires hreq hsound hitems (Plan.attempt_eq_ok P hattempt) hd hne hx hid
      refine hfinal.kept x hx x' hx' hxid hbad.2 hexpired e he ?_
      rw [hid]
      exact hdecided

/-- **The decisions about registrations are final, exactly as long as every expiry is current**, for
every interleaving of the requests. -/
theorem final_iff (db : Db) (as : List (ℕ × Move)) {t : Crew Office Stage}
    (hr : run (step (act P admits)) (start db) as = some t) :
    Along (step (act P admits)) (Meets P Current) (start db) as ↔
      Visits (step (act P admits)) (fun c => Every (committed Final) c.shared.log) (start db) as :=
  meets_iff_every (I := Settled) (A := Asserts P) asserts_local asserts_stable current_iff_final as
    ⟨fun _ he => absurd he List.not_mem_nil, fun _ => trivial⟩ trivial hr

/-- A machine has registered and proved its key. -/
def proved : Db := (serve sample (proves "r" 1) (serve sample (registers "r" 0) Db.empty).1).1

/-- It is accepted. -/
def acceptance : List (ℕ × Move) := [(1, .begin (accepts "r" 1 2)), (1, .proceed)]

theorem final_iff_acceptance : ∃ t,
    run (step (act sample admits)) (start proved) acceptance = some t ∧
      (Along (step (act sample admits)) (Meets sample Current) (start proved) acceptance ↔
        Visits (step (act sample admits)) (fun c => Every (committed Final) c.shared.log)
          (start proved) acceptance) :=
  ⟨_, rfl, final_iff proved acceptance rfl⟩

/-- A day later, a list request reads the registration before the acceptance and writes after it. -/
def lateList : List (ℕ × Move) :=
  (0, .begin (.listNodeRegistrationRequests (1 + days 1))) :: acceptance ++ [(0, .proceed)]

/-- The status of a registration has moved as it should not. -/
def strays (c : Commit) : Bool :=
  c.found.registrations.rows.any fun r => c.made.registrations.rows.any fun r' =>
    r'.id == r.id && r'.status != r.status && !allowed r.status r'.status

/-- The approved registration is expired. -/
theorem list_expires_approved : ∃ t,
    run (step (act sample admits)) (start proved) lateList = some t ∧
      ¬ Every (committed Final) t.shared.log := by
  obtain ⟨t, ht⟩ : ∃ t, run (step (act sample admits)) (start proved) lateList = some t := ⟨_, rfl⟩
  have hstrays : ((run (step (act sample admits)) (start proved) lateList).any fun t =>
      (latest t.shared.log).any strays) = true := by decide +kernel
  rw [ht, Option.any_some] at hstrays
  obtain ⟨c, hc, hstrays⟩ := Option.any_eq_true _ _ |>.mp hstrays
  obtain ⟨older, hlog⟩ := latest_eq_some hc
  refine ⟨t, ht, fun hevery => ?_⟩
  rw [hlog] at hevery
  have hfinal : Final c older := hevery.1
  simp only [strays, List.any_eq_true, Bool.and_eq_true, beq_iff_eq, bne_iff_ne,
    Bool.not_eq_true'] at hstrays
  obtain ⟨r, hr, r', hr', ⟨hid, hne⟩, hno⟩ := hstrays
  rcases hfinal.moves r hr r' hr' hid with h | h
  · exact hne h
  · rw [hno] at h
    exact Bool.noConfusion h

end IdenGrid.Control.Decisions
