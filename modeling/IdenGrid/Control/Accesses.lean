import IdenGrid.Lib.Run
import IdenGrid.Control.Stores

/-! # The log of accesses

`issue_store_target_ticket` logs an access unless one of the hundred newest accesses of its user to the
store in the last five minutes says the same. `Deduplicated`: no two accesses with the same details are
less than five minutes apart. `deduplicated_iff`: in a run from an empty log this holds all the time
exactly if no ticket is issued for an access whose event is buried (`NotBuried`): less than five minutes
old, and followed by a hundred others. Every ticket that is issued has its event (`Covered`). -/

namespace IdenGrid.Control.Accesses

open IdenGrid.Lib.Run IdenGrid.Lib.Store IdenGrid.Lib.Unicode
open IdenGrid.Control.Rows IdenGrid.Control.Nodes IdenGrid.Control.Targets
open IdenGrid.Control.EdgeTickets IdenGrid.Control.Stores

/-! ## The newest rows -/

/-- `ORDER BY key DESC LIMIT n` keeps the rows that fewer than `n` others come after. -/
theorem mem_take_iff {α : Type} {key : α → ℕ} {x : α} : ∀ {l : List α} {n : ℕ},
    l.Pairwise (fun a b => key b < key a) →
      (x ∈ l.take n ↔ x ∈ l ∧ l.countP (fun y => key x < key y) < n)
  | [], n, _ => by simp
  | y :: l, 0, _ => by simp
  | y :: l, n + 1, h => by
    obtain ⟨hy, hl⟩ := List.pairwise_cons.mp h
    rw [List.take_succ_cons, List.mem_cons, List.mem_cons, mem_take_iff hl, List.countP_cons]
    by_cases hxy : x = y
    · subst hxy
      have hnone : l.countP (fun z => key x < key z) = 0 := by
        refine List.countP_eq_zero.mpr fun z hz => ?_
        have := hy z hz
        simp only [decide_eq_true_eq]
        omega
      simp [hnone]
    · simp only [hxy, false_or]
      refine and_congr_right fun hx => ?_
      rw [if_pos (decide_eq_true (hy x hx))]
      omega

/-! ## What an issued ticket is about -/

/-- The rows that a request for a ticket finds, and the target that it resolves. -/
structure Access where
  user : User
  store : ManagedStore
  node : EdgeNode
  lease : StoreConnectionLease
  target : ResolvedTarget

/-- `access_details`. -/
def Access.details (a : Access) : AccessDetails where
  domain := a.target.host
  port := a.target.port
  deviceId := a.lease.deviceId
  node := a.node.name

/-- An event about an access of this user to this store. -/
def Access.concerns (a : Access) (e : AuditEvent) : Bool :=
  e.eventType == "web.domain_accessed" && e.actorUserId == some a.user.id &&
    e.targetType == some "managed_store" && e.targetId == some (Lib.JsonDumps.decimal a.store.id)

/-- The event of this very access. -/
def Access.matches (a : Access) (e : AuditEvent) : Bool :=
  a.concerns e && e.access == some a.details

section Ticket

variable (N : Names) (hmac : List ℕ → List ℕ → List ℕ)

/-- The request is answered with a ticket for this access. -/
structure Issues (db : Db) (r : TicketRequest) (a : Access) : Prop where
  user : bearerUser db.sessions.get? db.users.get? r.bearer r.authAt = some a.user
  store : accessibleStore db r.storeId a.user = some a.store
  lease : ∃ leases, requestedStoreLease db.leases a.store.id a.user.id r.leaseId r.deviceId r.leaseAt =
    .ok (some a.lease, leases)
  node : db.nodes.get? a.store.edgeNodeId = some a.node
  enabled : a.store.enabled = true ∧ a.node.enabled = true
  online : a.node.healthStatus = .online
  target : resolve N r.answers r.host r.port = .ok a.target
  left : remaining a.lease r.resolvedAt ≠ 0
  signed : ∃ ticket, issue hmac (issuerOf a.node) (Lib.JsonDumps.decimal a.store.id) a.target.host
    a.target.port (some (min 60 (remaining a.lease r.resolvedAt : ℤ))) (timestamp r.issueAt)
    r.entropy = some ticket

variable {N hmac}

theorem Issues.eq {db : Db} {r : TicketRequest} {a b : Access} (ha : Issues N hmac db r a)
    (hb : Issues N hmac db r b) : a = b := by
  obtain ⟨user, store, node, lease, target⟩ := a
  obtain ⟨user', store', node', lease', target'⟩ := b
  obtain rfl : user = user' := Option.some.inj (ha.user.symm.trans hb.user)
  obtain rfl : store = store' := Option.some.inj (ha.store.symm.trans hb.store)
  obtain rfl : node = node' := Option.some.inj (ha.node.symm.trans hb.node)
  obtain rfl : target = target' := Except.ok.inj (ha.target.symm.trans hb.target)
  obtain ⟨leases, hl⟩ := ha.lease
  obtain ⟨leases', hl'⟩ := hb.lease
  obtain rfl : lease = lease' :=
    Option.some.inj (Prod.mk.inj (Except.ok.inj (hl.symm.trans hl'))).1
  rfl

/-- A request that is answered with a ticket. -/
theorem Issues.serves {db : Db} {r : TicketRequest} {a : Access} (h : Issues N hmac db r a) :
    (∃ response, (issueStoreTargetTicket N hmac db r).2 = .ok response) ∧
      (issueStoreTargetTicket N hmac db r).1.audits =
        auditAccess db.audits a.user.id (Lib.JsonDumps.decimal a.store.id) a.details r.recentAt
          r.auditAt := by
  obtain ⟨leases, hlease⟩ := h.lease
  obtain ⟨ticket, hissue⟩ := h.signed
  have hdisabled : ¬ (a.store.enabled = false ∨ a.node.enabled = false) := by
    rw [h.enabled.1, h.enabled.2]
    decide
  have hfor : ticketFor hmac { db with leases := leases } r a.user a.store a.node a.lease a.target =
      ({ db with
          leases := leases
          audits := auditAccess db.audits a.user.id (Lib.JsonDumps.decimal a.store.id) a.details
            r.recentAt r.auditAt },
        .ok ⟨ticket, a.lease.id, a.node.endpoint, min 60 (remaining a.lease r.resolvedAt : ℤ)⟩) := by
    unfold ticketFor
    rw [if_neg h.left]
    unfold issuerOf at hissue
    simp only [hissue]
    rfl
  have hwith : ticketWithLease N hmac db leases r a.user a.store a.lease =
      ({ db with
          leases := leases
          audits := auditAccess db.audits a.user.id (Lib.JsonDumps.decimal a.store.id) a.details
            r.recentAt r.auditAt },
        .ok ⟨ticket, a.lease.id, a.node.endpoint, min 60 (remaining a.lease r.resolvedAt : ℤ)⟩) := by
    unfold ticketWithLease
    simp only [h.node]
    rw [if_neg hdisabled, if_neg (not_not.mpr h.online)]
    simp only [h.target, hfor]
  unfold issueStoreTargetTicket
  simp only [h.user, h.store, hlease, hwith]
  exact ⟨⟨_, rfl⟩, trivial⟩

/-- A request that no access stands behind is refused, and logs nothing. -/
theorem refuses {db : Db} {r : TicketRequest} (h : ∀ a, ¬ Issues N hmac db r a) :
    (∃ fault, (issueStoreTargetTicket N hmac db r).2 = .error fault) ∧
      (issueStoreTargetTicket N hmac db r).1.audits = db.audits := by
  unfold issueStoreTargetTicket
  rcases huser : bearerUser db.sessions.get? db.users.get? r.bearer r.authAt with _ | user
  · exact ⟨⟨_, rfl⟩, rfl⟩
  rcases hstore : accessibleStore db r.storeId user with _ | store
  · simp only [hstore]
    exact ⟨⟨_, rfl⟩, trivial⟩
  simp only [hstore]
  rcases hlease : requestedStoreLease db.leases store.id user.id r.leaseId r.deviceId r.leaseAt with
    e | ⟨_ | lease, leases⟩
  · exact ⟨⟨_, rfl⟩, rfl⟩
  · exact ⟨⟨_, rfl⟩, rfl⟩
  dsimp only
  unfold ticketWithLease
  rcases hnode : db.nodes.get? store.edgeNodeId with _ | node
  · exact ⟨⟨_, rfl⟩, rfl⟩
  dsimp only
  by_cases hdisabled : store.enabled = false ∨ node.enabled = false
  · rw [if_pos hdisabled]
    exact ⟨⟨_, rfl⟩, rfl⟩
  rw [if_neg hdisabled]
  by_cases honline : node.healthStatus ≠ .online
  · rw [if_pos honline]
    exact ⟨⟨_, rfl⟩, rfl⟩
  rw [if_neg honline]
  rcases htarget : resolve N r.answers r.host r.port with e | target
  · rcases e <;> exact ⟨⟨_, rfl⟩, rfl⟩
  dsimp only
  unfold ticketFor
  by_cases hleft : remaining lease r.resolvedAt = 0
  · rw [if_pos hleft]
    exact ⟨⟨_, rfl⟩, rfl⟩
  rw [if_neg hleft]
  rcases hissue : issue hmac (issuerOf node) (Lib.JsonDumps.decimal store.id) target.host target.port
      (some (min 60 (remaining lease r.resolvedAt : ℤ))) (timestamp r.issueAt) r.entropy with
    _ | ticket
  · unfold issuerOf at hissue
    simp only [hissue]
    exact ⟨⟨_, rfl⟩, trivial⟩
  · simp only [not_or, Bool.not_eq_false] at hdisabled
    exact absurd ⟨huser, hstore, ⟨leases, hlease⟩, hnode, hdisabled, not_not.mp honline, htarget,
      hleft, ticket, hissue⟩ (h ⟨user, store, node, lease, target⟩)

end Ticket

/-! ## The query for recent accesses -/

/-- The access is found by the query: a recent event about this user and store. -/
def Access.recent (a : Access) (now : ℕ) (e : AuditEvent) : Bool :=
  a.concerns e && decide (now ≤ e.createdAt + minutes 5)

/-- The recent events that come after this one. -/
def Access.later (a : Access) (now : ℕ) (log : Table AuditEvent.id) (e : AuditEvent) : ℕ :=
  log.rows.countP fun x => a.recent now x && decide (e.id < x.id)

/-- What the query finds: the recent events that fewer than a hundred others come after. -/
theorem mem_recentAccess {a : Access} {now : ℕ} {log : Table AuditEvent.id} {e : AuditEvent} :
    e ∈ recentAccess log a.user.id (Lib.JsonDumps.decimal a.store.id) now ↔
      e ∈ log.rows ∧ a.recent now e = true ∧ a.later now log e < 100 := by
  have hfilter : (log.rows.filter fun e =>
      e.eventType == "web.domain_accessed" && e.actorUserId == some a.user.id &&
        e.targetType == some "managed_store" &&
        e.targetId == some (Lib.JsonDumps.decimal a.store.id) &&
        decide (now ≤ e.createdAt + minutes 5)) = log.rows.filter (a.recent now) := rfl
  have hdistinct : (log.rows.filter (a.recent now)).Pairwise fun a b => a.id ≠ b.id :=
    (List.pairwise_map.mp log.nodup).filter _
  have hsorted : ((log.rows.filter (a.recent now)).insertionSort fun a b => b.id ≤ a.id).Pairwise
      fun a b => b.id < a.id := by
    have hne := ((List.perm_insertionSort (fun a b : AuditEvent => b.id ≤ a.id)
      (log.rows.filter (a.recent now))).pairwise_iff fun h => h.symm).mpr hdistinct
    have hle := List.pairwise_insertionSort (fun a b : AuditEvent => b.id ≤ a.id)
      (log.rows.filter (a.recent now))
    exact (hne.and hle).imp fun ⟨hne, hle⟩ => lt_of_le_of_ne hle (Ne.symm hne)
  have hperm := List.perm_insertionSort (fun a b : AuditEvent => b.id ≤ a.id)
    (log.rows.filter (a.recent now))
  unfold recentAccess
  rw [hfilter, mem_take_iff hsorted, hperm.mem_iff, hperm.countP_eq, List.countP_filter,
    List.mem_filter, and_assoc]
  refine and_congr_right fun _ => and_congr_right fun _ => ?_
  unfold Access.later
  simp only [Bool.and_comm]

/-- The event that an access leaves. -/
def Access.event (a : Access) (id auditAt : ℕ) : AuditEvent where
  id := id
  actorUserId := some a.user.id
  eventType := "web.domain_accessed"
  targetType := some "managed_store"
  targetId := some (Lib.JsonDumps.decimal a.store.id)
  access := some a.details
  createdAt := auditAt

theorem Access.matches_event (a : Access) (id auditAt : ℕ) : a.matches (a.event id auditAt) = true := by
  simp [Access.matches, Access.concerns, Access.event]

/-- The query finds the access itself. -/
def Access.Known (a : Access) (now : ℕ) (log : Table AuditEvent.id) : Prop :=
  ∃ e ∈ log.rows, a.matches e = true ∧ now ≤ e.createdAt + minutes 5 ∧ a.later now log e < 100

/-- **What an access does to the log.** -/
theorem auditAccess_cases (a : Access) (log : Table AuditEvent.id) (recentAt auditAt : ℕ) :
    (a.Known recentAt log ∧
      auditAccess log a.user.id (Lib.JsonDumps.decimal a.store.id) a.details recentAt auditAt = log) ∨
    (¬ a.Known recentAt log ∧
      (auditAccess log a.user.id (Lib.JsonDumps.decimal a.store.id) a.details recentAt auditAt).rows =
        log.rows ++ [a.event (nextId log) auditAt]) := by
  have hknown : ((recentAccess log a.user.id (Lib.JsonDumps.decimal a.store.id) recentAt).any
      fun e => e.access == some a.details) = true ↔ a.Known recentAt log := by
    simp only [List.any_eq_true, mem_recentAccess, Access.Known, Access.matches, Access.recent,
      Bool.and_eq_true, decide_eq_true_eq]
    constructor
    · rintro ⟨e, ⟨hmem, ⟨hconcerns, hnow⟩, hlater⟩, haccess⟩
      exact ⟨e, hmem, ⟨hconcerns, haccess⟩, hnow, hlater⟩
    · rintro ⟨e, hmem, ⟨hconcerns, haccess⟩, hnow, hlater⟩
      exact ⟨e, ⟨hmem, ⟨hconcerns, hnow⟩, hlater⟩, haccess⟩
  unfold auditAccess
  by_cases h : a.Known recentAt log
  · rw [if_pos (hknown.mpr h)]
    exact Or.inl ⟨h, rfl⟩
  · rw [if_neg (mt hknown.mp h)]
    exact Or.inr ⟨h, rfl⟩

/-! ## Deduplication -/

/-- Both events log an access with the same user, store, domain, port, device and node. -/
structure SameAccess (e e' : AuditEvent) : Prop where
  left : e.eventType = "web.domain_accessed"
  right : e'.eventType = "web.domain_accessed"
  user : e.actorUserId = e'.actorUserId
  targetType : e.targetType = e'.targetType
  store : e.targetId = e'.targetId
  details : e.access = e'.access

/-- They are five minutes apart. -/
def Apart (e e' : AuditEvent) : Prop :=
  e.createdAt + minutes 5 ≤ e'.createdAt ∨ e'.createdAt + minutes 5 ≤ e.createdAt

def Deduplicated (log : Table AuditEvent.id) : Prop :=
  ∀ e ∈ log.rows, ∀ e' ∈ log.rows, e.id ≠ e'.id → SameAccess e e' → Apart e e'

theorem SameAccess.symm {e e' : AuditEvent} (h : SameAccess e e') : SameAccess e' e :=
  ⟨h.right, h.left, h.user.symm, h.targetType.symm, h.store.symm, h.details.symm⟩

theorem Access.matches_iff {a : Access} {e : AuditEvent} : a.matches e = true ↔
    e.eventType = "web.domain_accessed" ∧ e.actorUserId = some a.user.id ∧
      e.targetType = some "managed_store" ∧
      e.targetId = some (Lib.JsonDumps.decimal a.store.id) ∧ e.access = some a.details := by
  simp only [Access.matches, Access.concerns, Bool.and_eq_true, beq_iff_eq, and_assoc]

theorem sameAccess_event {a : Access} {e : AuditEvent} {id auditAt : ℕ} :
    SameAccess e (a.event id auditAt) ↔ a.matches e = true := by
  rw [Access.matches_iff]
  constructor
  · intro h
    exact ⟨h.left, h.user, h.targetType, h.store, h.details⟩
  · rintro ⟨h1, h2, h3, h4, h5⟩
    exact ⟨h1, rfl, h2, h3, h4, h5⟩

/-- One more event keeps the log deduplicated exactly if it is apart from all of the same access. -/
theorem deduplicated_append {log log' : Table AuditEvent.id} (h : Deduplicated log) {n : AuditEvent}
    (hrows : log'.rows = log.rows ++ [n]) (hfresh : ∀ e ∈ log.rows, e.id ≠ n.id) :
    Deduplicated log' ↔ ∀ e ∈ log.rows, SameAccess e n → Apart e n := by
  constructor
  · intro h' e he hsame
    refine h' e ?_ n ?_ (hfresh e he) hsame
    · rw [hrows]
      exact List.mem_append_left _ he
    · rw [hrows]
      exact List.mem_append_right _ (List.mem_singleton.mpr rfl)
  · intro hn e he e' he' hne hsame
    rw [hrows] at he he'
    rcases List.mem_append.mp he with hold | hnew <;> rcases List.mem_append.mp he' with hold' | hnew'
    · exact h e hold e' hold' hne hsame
    · obtain rfl := List.mem_singleton.mp hnew'
      exact hn e hold hsame
    · obtain rfl := List.mem_singleton.mp hnew
      exact (hn e' hold' hsame.symm).symm
    · rw [List.mem_singleton.mp hnew, List.mem_singleton.mp hnew'] at hne
      exact absurd rfl hne

/-! ## Runs -/

/-- An event that another operation logs. -/
structure OtherEvent where
  event : AuditEvent
  other : event.eventType ≠ "web.domain_accessed"

/-- The INSERT of an event, which gets its id. -/
def addOther (log : Table AuditEvent.id) (e : OtherEvent) : Table AuditEvent.id :=
  log.insert { e.event with id := nextId log } (ne_nextId log)

/-- A request for a ticket, or another operation: it may change the tables, and logs its events. -/
inductive Request
  | ticket (request : TicketRequest)
  | other (tables : Db) (events : List OtherEvent) (now : ℕ)

/-- The tables, and the last reading of the clock. -/
structure Server where
  db : Db
  now : ℕ

section Run

variable (N : Names) (hmac : List ℕ → List ℕ → List ℕ)

/-- One request after the other, the clock never going back. -/
def step (s : Server) : Request → Option Server
  | .ticket r =>
    if s.now ≤ r.recentAt ∧ r.recentAt ≤ r.auditAt then
      some ⟨(issueStoreTargetTicket N hmac s.db r).1, r.auditAt⟩
    else none
  | .other tables events now =>
    if s.now ≤ now ∧ ∀ e ∈ events, s.now ≤ e.event.createdAt ∧ e.event.createdAt ≤ now then
      some ⟨{ tables with audits := events.foldl addOther s.db.audits }, now⟩
    else none

theorem step_ticket {s s' : Server} {r : TicketRequest} :
    step N hmac s (.ticket r) = some s' ↔ (s.now ≤ r.recentAt ∧ r.recentAt ≤ r.auditAt) ∧
      ⟨(issueStoreTargetTicket N hmac s.db r).1, r.auditAt⟩ = s' := by
  rw [step, Option.ite_none_right_eq_some, Option.some.injEq]

theorem step_other {s s' : Server} {tables : Db} {events : List OtherEvent} {now : ℕ} :
    step N hmac s (.other tables events now) = some s' ↔
      (s.now ≤ now ∧ ∀ e ∈ events, s.now ≤ e.event.createdAt ∧ e.event.createdAt ≤ now) ∧
        ⟨{ tables with audits := events.foldl addOther s.db.audits }, now⟩ = s' := by
  rw [step, Option.ite_none_right_eq_some, Option.some.injEq]

/-- Any tables, with nothing logged. -/
def start (tables : Db) (now : ℕ) : Server := ⟨{ tables with audits := Table.empty }, now⟩

/-- A request that is answered with a ticket, and whose access has an event less than five minutes
old, has one in the last five minutes that fewer than a hundred others of its user and store come
after. -/
def NotBuried (s : Server) : Request → Prop
  | .ticket r => ∀ a, Issues N hmac s.db r a →
    (∃ e ∈ s.db.audits.rows, a.matches e = true ∧ r.auditAt < e.createdAt + minutes 5) →
      ∃ e ∈ s.db.audits.rows, a.matches e = true ∧ r.recentAt ≤ e.createdAt + minutes 5 ∧
        a.later r.recentAt s.db.audits e < 100
  | .other _ _ _ => True

/-- A ticket that is issued has its event, at most five minutes old. -/
def Covered (s : Server) : Request → Prop
  | .ticket r => ∀ a, Issues N hmac s.db r a →
    ∃ e ∈ (issueStoreTargetTicket N hmac s.db r).1.audits.rows,
      a.matches e = true ∧ r.recentAt ≤ e.createdAt + minutes 5
  | .other _ _ _ => True

/-- The log is deduplicated, and nothing in it is of the future. -/
structure Invariant (s : Server) : Prop where
  deduplicated : Deduplicated s.db.audits
  past : ∀ e ∈ s.db.audits.rows, e.createdAt ≤ s.now

variable {N hmac}

theorem addOther_invariant {log : Table AuditEvent.id} (h : Deduplicated log) {now : ℕ}
    (hpast : ∀ e ∈ log.rows, e.createdAt ≤ now) {e : OtherEvent} (he : e.event.createdAt ≤ now) :
    Deduplicated (addOther log e) ∧ ∀ x ∈ (addOther log e).rows, x.createdAt ≤ now := by
  constructor
  · refine (deduplicated_append h rfl (ne_nextId log)).mpr fun x _ hsame => ?_
    exact absurd hsame.right e.other
  · intro x hx
    rcases List.mem_append.mp hx with hx | hx
    · exact hpast x hx
    · obtain rfl := List.mem_singleton.mp hx
      exact he

theorem addOthers_invariant {now : ℕ} : ∀ (events : List OtherEvent) {log : Table AuditEvent.id},
    Deduplicated log → (∀ e ∈ log.rows, e.createdAt ≤ now) →
      (∀ e ∈ events, e.event.createdAt ≤ now) →
      Deduplicated (events.foldl addOther log) ∧
        ∀ x ∈ (events.foldl addOther log).rows, x.createdAt ≤ now
  | [], _, h, hpast, _ => ⟨h, hpast⟩
  | e :: events, _, h, hpast, hevents => by
    obtain ⟨h', hpast'⟩ := addOther_invariant h hpast (hevents e List.mem_cons_self)
    exact addOthers_invariant events h' hpast' fun x hx => hevents x (List.mem_cons_of_mem e hx)

/-- **A ticket keeps the log deduplicated exactly if its event is not buried.** -/
theorem ticket_deduplicated {s : Server} (hs : Invariant s) {r : TicketRequest}
    (hnow : s.now ≤ r.recentAt ∧ r.recentAt ≤ r.auditAt) :
    Deduplicated (issueStoreTargetTicket N hmac s.db r).1.audits ↔
      NotBuried N hmac s (.ticket r) := by
  by_cases hissues : ∃ a, Issues N hmac s.db r a
  · obtain ⟨a, ha⟩ := hissues
    have honly : NotBuried N hmac s (.ticket r) ↔
        ((∃ e ∈ s.db.audits.rows, a.matches e = true ∧ r.auditAt < e.createdAt + minutes 5) →
          a.Known r.recentAt s.db.audits) := by
      constructor
      · exact fun h => h a ha
      · intro h b hb
        rw [hb.eq ha]
        exact h
    rw [honly, ha.serves.2]
    rcases auditAccess_cases a s.db.audits r.recentAt r.auditAt with ⟨hknown, heq⟩ | ⟨hnot, hrows⟩
    · rw [heq]
      exact iff_of_true hs.deduplicated fun _ => hknown
    · rw [deduplicated_append hs.deduplicated hrows (ne_nextId s.db.audits)]
      constructor
      · rintro h ⟨e, he, hmatches, hage⟩
        have hpast := hs.past e he
        rcases h e he (sameAccess_event.mpr hmatches) with hlt | hlt
        · change e.createdAt + minutes 5 ≤ r.auditAt at hlt
          omega
        · change r.auditAt + minutes 5 ≤ e.createdAt at hlt
          have : 0 < minutes 5 := by decide
          omega
      · intro h e he hsame
        refine Or.inl ?_
        change e.createdAt + minutes 5 ≤ r.auditAt
        by_contra hlt
        exact hnot (h ⟨e, he, sameAccess_event.mp hsame, by omega⟩)
  · push Not at hissues
    rw [(refuses hissues).2]
    exact iff_of_true hs.deduplicated fun a ha => absurd ha (hissues a)

theorem ticket_past {s : Server} (hs : Invariant s) {r : TicketRequest}
    (hnow : s.now ≤ r.recentAt ∧ r.recentAt ≤ r.auditAt) :
    ∀ e ∈ (issueStoreTargetTicket N hmac s.db r).1.audits.rows, e.createdAt ≤ r.auditAt := by
  have hold : ∀ e ∈ s.db.audits.rows, e.createdAt ≤ r.auditAt := fun e he =>
    le_trans (hs.past e he) (le_trans hnow.1 hnow.2)
  by_cases hissues : ∃ a, Issues N hmac s.db r a
  · obtain ⟨a, ha⟩ := hissues
    rw [ha.serves.2]
    rcases auditAccess_cases a s.db.audits r.recentAt r.auditAt with ⟨-, heq⟩ | ⟨-, hrows⟩
    · rw [heq]
      exact hold
    · rw [hrows]
      intro e he
      rcases List.mem_append.mp he with he | he
      · exact hold e he
      · obtain rfl := List.mem_singleton.mp he
        exact le_refl _
  · push Not at hissues
    rw [(refuses hissues).2]
    exact hold

theorem invariant_step {s s' : Server} {req : Request} (hs : Invariant s)
    (hc : NotBuried N hmac s req) (h : step N hmac s req = some s') : Invariant s' := by
  cases req with
  | ticket r =>
    obtain ⟨hnow, rfl⟩ := (step_ticket N hmac).mp h
    exact ⟨(ticket_deduplicated hs hnow).mpr hc, ticket_past hs hnow⟩
  | other tables events now =>
    obtain ⟨hnow, rfl⟩ := (step_other N hmac).mp h
    obtain ⟨h1, h2⟩ := addOthers_invariant events hs.deduplicated
      (fun e he => le_trans (hs.past e he) hnow.1) fun e he => (hnow.2 e he).2
    exact ⟨h1, h2⟩

theorem buried_step {s s' : Server} {req : Request} (hs : Invariant s)
    (hc : ¬ NotBuried N hmac s req) (h : step N hmac s req = some s') :
    ¬ Deduplicated s'.db.audits := by
  cases req with
  | ticket r =>
    obtain ⟨hnow, rfl⟩ := (step_ticket N hmac).mp h
    exact mt (ticket_deduplicated hs hnow).mp hc
  | other tables events now => exact absurd trivial hc

theorem covered (s : Server) (req : Request) (h : ∃ s', step N hmac s req = some s') :
    Covered N hmac s req := by
  cases req with
  | ticket r =>
    intro a ha
    obtain ⟨s', hs'⟩ := h
    obtain ⟨hnow, -⟩ := (step_ticket N hmac).mp hs'
    rw [ha.serves.2]
    rcases auditAccess_cases a s.db.audits r.recentAt r.auditAt with ⟨hknown, heq⟩ | ⟨-, hrows⟩
    · rw [heq]
      obtain ⟨e, he, hmatches, hage, -⟩ := hknown
      exact ⟨e, he, hmatches, hage⟩
    · rw [hrows]
      refine ⟨_, List.mem_append_right _ (List.mem_singleton.mpr rfl), a.matches_event _ _, ?_⟩
      change r.recentAt ≤ r.auditAt + minutes 5
      omega
  | other tables events now => trivial

theorem covered_run : ∀ (reqs : List Request) (s t : Server),
    run (step N hmac) s reqs = some t → Along (step N hmac) (Covered N hmac) s reqs
  | [], _, _, _ => trivial
  | req :: reqs, s, t, hr => by
    obtain ⟨s', hs', hr'⟩ := run_eq_some_cons.mp hr
    refine ⟨covered s req ⟨s', hs'⟩, fun u hu => ?_⟩
    obtain rfl := Option.some.inj (hs'.symm.trans hu)
    exact covered_run reqs s' t hr'

/-- **The log of accesses**: it is deduplicated all the time, and every ticket has its event, exactly
if no ticket is issued for an access whose event is buried. -/
theorem deduplicated_iff {tables : Db} {now : ℕ} {reqs : List Request} {s : Server}
    (hr : run (step N hmac) (start tables now) reqs = some s) :
    (Visits (step N hmac) (fun s => Deduplicated s.db.audits) (start tables now) reqs ∧
      Along (step N hmac) (Covered N hmac) (start tables now) reqs) ↔
      Along (step N hmac) (NotBuried N hmac) (start tables now) reqs := by
  have hstart : Invariant (start tables now) :=
    ⟨fun e he => absurd he List.not_mem_nil, fun e he => absurd he List.not_mem_nil⟩
  have hiff := along_iff_visits (fun _ hs => hs.deduplicated)
    (fun _ _ _ hs hc h => invariant_step hs hc h) (fun _ _ _ hs hc h => buried_step hs hc h)
    reqs _ s hstart hr
  rw [hiff]
  exact and_iff_left (covered_run reqs _ s hr)

end Run

/-! ## A hundred other sites -/

def sampleStore : ManagedStore where
  id := 1
  label := "Store"
  ownerUserId := none
  edgeNodeId := 1
  enabled := true

def sampleGrant : UserEdgeNodeGrant where
  id := 1
  userId := 2
  edgeNodeId := 1

/-- A member with a grant on a node and an active lease on its store. -/
def sampleTables : Db where
  users := ⟨[⟨2, "member", "hash", .member, true, 0, none⟩], List.nodup_singleton _⟩
  sessions := Table.empty
  nodes :=
    ⟨[{ id := 1
        name := "edge-a"
        endpoint := "https://edge-a.example"
        sharedSecret := "edge-ticket-secret-edge-ticket-secret"
        enabled := true
        maintenanceMode := false
        healthStatus := .online
        lastSeenAt := none
        latencyMs := none
        expectedPublicIpv4 := none
        status := {}
        lastError := none }], List.nodup_singleton _⟩
  stores := ⟨[sampleStore], List.nodup_singleton _⟩
  grants := ⟨[sampleGrant], List.nodup_singleton _⟩
  leases := ⟨[⟨"lease", 1, 2, some "device", .active, 0, seconds 28800, none, none⟩],
    List.nodup_singleton _⟩
  audits := Table.empty

/-- The member opens a site. -/
def visit (host : List ℕ) (now : ℕ) : Request :=
  .ticket
    { bearer := .web ⟨2, 0⟩
      storeId := 1
      host := host
      port := 443
      leaseId := none
      deviceId := none
      authAt := now
      leaseAt := fun _ => now
      resolvedAt := now
      issueAt := now
      recentAt := now
      auditAt := now
      answers := some [(2, text "93.184.215.14")]
      entropy := List.replicate 18 0 }

/-- Host names: `aa.c`, `ab.c` and so on. -/
def hostOf (i : ℕ) : List ℕ := [97 + i / 26, 97 + i % 26, 46, 99]

/-- A signature of 32 bytes. -/
def constHmac (_ _ : List ℕ) : List ℕ := List.replicate 32 0

/-- A site opened twice. -/
theorem deduplicated_twice : ∃ s, run (step Names.sample constHmac) (start sampleTables 0)
      [visit (hostOf 0) 0, visit (hostOf 0) 1] = some s ∧
    ((Visits (step Names.sample constHmac) (fun s => Deduplicated s.db.audits)
        (start sampleTables 0) [visit (hostOf 0) 0, visit (hostOf 0) 1] ∧
      Along (step Names.sample constHmac) (Covered Names.sample constHmac)
        (start sampleTables 0) [visit (hostOf 0) 0, visit (hostOf 0) 1]) ↔
      Along (step Names.sample constHmac) (NotBuried Names.sample constHmac)
        (start sampleTables 0) [visit (hostOf 0) 0, visit (hostOf 0) 1]) := by
  obtain ⟨s, hs, -⟩ := (Option.any_eq_true (fun _ => true) _).mp
    (show (run (step Names.sample constHmac) (start sampleTables 0)
      [visit (hostOf 0) 0, visit (hostOf 0) 1]).any (fun _ => true) = true by decide +kernel)
  exact ⟨s, hs, deduplicated_iff hs⟩

/-- A hundred and one sites within a fraction of a second, and then the first one again. -/
def tour : List Request :=
  ((List.range 101).map fun i => visit (hostOf i) i) ++ [visit (hostOf 0) 101]

/-- The first and the last event of the log are of one access, and less than five minutes apart. -/
def repeated (log : List AuditEvent) : Bool :=
  match log.head?, log.getLast? with
  | some e, some e' =>
    e.id != e'.id && e.eventType == "web.domain_accessed" && e'.eventType == e.eventType &&
      e.actorUserId == e'.actorUserId && e.targetType == e'.targetType &&
      e.targetId == e'.targetId && e.access == e'.access &&
      decide (e'.createdAt < e.createdAt + minutes 5 ∧ e.createdAt < e'.createdAt + minutes 5)
  | _, _ => false

theorem not_deduplicated_of_repeated {log : Table AuditEvent.id} (h : repeated log.rows = true) :
    ¬ Deduplicated log := by
  unfold repeated at h
  split at h
  · next e e' he he' =>
    simp only [Bool.and_eq_true, bne_iff_ne, beq_iff_eq, decide_eq_true_eq] at h
    obtain ⟨⟨⟨⟨⟨⟨⟨hid, htype⟩, htype'⟩, huser⟩, htarget⟩, hstore⟩, haccess⟩, hlt, hlt'⟩ := h
    intro hd
    have hsame : SameAccess e e' :=
      ⟨htype, htype'.trans htype, huser, htarget, hstore, haccess⟩
    rcases hd e (List.mem_of_head? he) e' (List.mem_of_getLast? he') hid hsame with hle | hle
    · omega
    · omega
  · exact absurd h Bool.false_ne_true

set_option maxRecDepth 10000 in
theorem tour_run : (run (step Names.sample constHmac) (start sampleTables 0) tour).any
    (fun s : Server => repeated s.db.audits.rows) = true := by
  decide +kernel

/-- The event of the first site is buried. -/
theorem tour_repeats : ∃ s, run (step Names.sample constHmac) (start sampleTables 0) tour = some s ∧
    ¬ Deduplicated s.db.audits := by
  obtain ⟨s, hs, hrepeated⟩ := (Option.any_eq_true _ _).mp tour_run
  exact ⟨s, hs, not_deduplicated_of_repeated hrepeated⟩

end IdenGrid.Control.Accesses
