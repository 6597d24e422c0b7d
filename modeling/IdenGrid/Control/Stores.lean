import Mathlib.Data.List.Sort
import IdenGrid.Lib.Store
import IdenGrid.Control.EdgeTickets
import IdenGrid.Control.Nodes
import IdenGrid.Control.Rows
import IdenGrid.Control.Targets

/-! # The control plane: stores, leases and the ticket handler

`accessible_store`, `active_store_leases`, `requested_store_lease`, `require_online_edge` and the
handler `issue_store_target_ticket` as a function on the tables. Every reading of the clock (one for
each lease looked at), the answers of the resolver and the random bytes of the ticket are arguments
of the request. Times are microseconds since the epoch. -/

namespace IdenGrid.Control.Stores

open IdenGrid.Lib.Store IdenGrid.Lib.Unicode
open IdenGrid.Control.Rows IdenGrid.Control.Nodes IdenGrid.Control.Targets
open IdenGrid.Control.EdgeTickets

/-- A row of `managed_stores`. -/
structure ManagedStore where
  id : ℕ
  label : String
  ownerUserId : Option ℕ
  edgeNodeId : ℕ
  enabled : Bool
  deriving DecidableEq, Repr

/-- A row of `user_edge_node_grants`. -/
structure UserEdgeNodeGrant where
  id : ℕ
  userId : ℕ
  edgeNodeId : ℕ
  deriving DecidableEq, Repr

inductive LeaseStatus
  | active
  | expired
  | disconnected
  deriving DecidableEq, Repr

/-- A row of `store_connection_leases`. -/
structure StoreConnectionLease where
  id : String
  storeId : ℕ
  ownerUserId : ℕ
  deviceId : Option String
  status : LeaseStatus
  createdAt : ℕ
  expiresAt : ℕ
  lastHeartbeatAt : Option ℕ
  disconnectedAt : Option ℕ
  deriving DecidableEq, Repr

/-- The details of a `web.domain_accessed` event. -/
structure AccessDetails where
  domain : List ℕ
  port : ℤ
  deviceId : Option String
  node : String
  deriving DecidableEq, Repr

/-- A row of `audit_events`; `access` is what the details say under the keys of an access. -/
structure AuditEvent where
  id : ℕ
  actorUserId : Option ℕ
  eventType : String
  targetType : Option String
  targetId : Option (List ℕ)
  access : Option AccessDetails
  createdAt : ℕ
  deriving DecidableEq, Repr

structure Db where
  users : Table User.id
  sessions : Table DeviceSession.id
  nodes : Table EdgeNode.id
  stores : Table ManagedStore.id
  grants : Table UserEdgeNodeGrant.id
  leases : Table StoreConnectionLease.id
  audits : Table AuditEvent.id

/-- An `HTTPException`, or an exception the handler does not raise itself. -/
inductive Fault
  | http (status : ℕ) (detail : String)
  | uncaught
  deriving DecidableEq, Repr

/-! ## Access to a store -/

/-- The user holds a grant on the node. -/
def Db.granted (db : Db) (userId nodeId : ℕ) : Bool :=
  db.grants.rows.any fun g => g.userId == userId && g.edgeNodeId == nodeId

/-- `accessible_store`. -/
def accessibleStore (db : Db) (storeId : ℕ) (user : User) : Option ManagedStore :=
  (db.stores.get? storeId).filter fun store =>
    (db.nodes.get? store.edgeNodeId).any EdgeNode.enabled &&
      (user.role == .admin || db.granted user.id store.edgeNodeId)

/-! ## Leases -/

/-- A lease that has expired, or whose last heartbeat is older than 90 seconds. -/
def StoreConnectionLease.stale (lease : StoreConnectionLease) (now : ℕ) : Bool :=
  lease.expiresAt ≤ now || lease.lastHeartbeatAt.getD lease.createdAt + seconds 90 < now

def StoreConnectionLease.activeOn (lease : StoreConnectionLease) (storeId : ℕ) : Bool :=
  lease.storeId == storeId && lease.status == .active

/-- The active leases of a store, each looked at by its own reading of the clock. -/
def activeStoreLeases (leases : Table StoreConnectionLease.id) (storeId : ℕ) (clock : String → ℕ) :
    List StoreConnectionLease :=
  leases.rows.filter fun l => l.activeOn storeId && !l.stale (clock l.id)

/-- What `active_store_leases` writes: the stale ones are expired. -/
def expireStale (storeId : ℕ) (clock : String → ℕ) (lease : StoreConnectionLease) :
    StoreConnectionLease :=
  if lease.activeOn storeId && lease.stale (clock lease.id) then
    { lease with status := .expired }
  else lease

@[simp] theorem expireStale_id (storeId : ℕ) (clock : String → ℕ) (lease : StoreConnectionLease) :
    (expireStale storeId clock lease).id = lease.id := by
  unfold expireStale; split_ifs <;> rfl

/-- `requested_store_lease`: the lease, and the leases as it leaves them. -/
def requestedStoreLease (leases : Table StoreConnectionLease.id) (storeId ownerUserId : ℕ)
    (leaseId deviceId : Option String) (clock : String → ℕ) :
    Except Fault (Option StoreConnectionLease × Table StoreConnectionLease.id) :=
  if leaseId.isNone ≠ deviceId.isNone then
    .error (.http 422 "lease_id and device_id must be provided together")
  else
    let owned := (activeStoreLeases leases storeId clock).filter fun l =>
      l.ownerUserId == ownerUserId
    let after := leases.mapRows (expireStale storeId clock) (expireStale_id storeId clock)
    match leaseId, deviceId with
    | some leaseId, some deviceId =>
      .ok (owned.find? fun l => l.id == leaseId && l.deviceId == some deviceId, after)
    | _, _ =>
      if 1 < owned.length then
        .error (.http 409 "Lease identity is required for multi-device connection")
      else .ok (owned.head?, after)

/-- **What a requested lease is**: active, of this store and owner, and not stale. -/
theorem requestedStoreLease_eq_some {leases after : Table StoreConnectionLease.id}
    {storeId ownerUserId : ℕ} {leaseId deviceId : Option String} {clock : String → ℕ}
    {lease : StoreConnectionLease}
    (h : requestedStoreLease leases storeId ownerUserId leaseId deviceId clock =
      .ok (some lease, after)) :
    lease ∈ leases.rows ∧ lease.storeId = storeId ∧ lease.status = .active ∧
      lease.ownerUserId = ownerUserId ∧ lease.stale (clock lease.id) = false := by
  have hmem : lease ∈ (activeStoreLeases leases storeId clock).filter fun l =>
      l.ownerUserId == ownerUserId := by
    unfold requestedStoreLease at h
    split_ifs at h with hids
    simp only at h
    split at h
    · exact List.mem_of_find?_eq_some (congrArg Prod.fst (Except.ok.inj h))
    · split_ifs at h with hlen
      exact List.mem_of_head? (congrArg Prod.fst (Except.ok.inj h))
  obtain ⟨hact, howner⟩ := List.mem_filter.mp hmem
  obtain ⟨hrow, hlease⟩ := List.mem_filter.mp hact
  simp only [StoreConnectionLease.activeOn, Bool.and_eq_true, beq_iff_eq,
    Bool.not_eq_true'] at hlease
  exact ⟨hrow, hlease.1.1, hlease.1.2, by simpa using howner, hlease.2⟩

/-! ## The handler -/

/-- A request for a ticket: the bearer token and the body, and what the handler reads from outside:
the clock (at the check of the bearer token, at each lease, after the target has been resolved, when
the ticket is issued, when recent events are looked up and when the event is stored), the answers of
the resolver and the random bytes. -/
structure TicketRequest where
  bearer : Bearer
  storeId : ℕ
  host : List ℕ
  port : ℤ
  leaseId : Option String
  deviceId : Option String
  authAt : ℕ
  leaseAt : String → ℕ
  resolvedAt : ℕ
  issueAt : ℕ
  recentAt : ℕ
  auditAt : ℕ
  answers : Option (List (ℤ × List ℕ))
  entropy : List ℕ

/-- The response to an issued ticket. -/
structure TicketResponse where
  ticket : List ℕ
  leaseId : String
  edgeEndpoint : String
  expiresIn : ℤ
  deriving DecidableEq, Repr

/-- The recent accesses of a user to a store, latest first. -/
def recentAccess (audits : Table AuditEvent.id) (userId : ℕ) (targetId : List ℕ) (now : ℕ) :
    List AuditEvent :=
  ((audits.rows.filter fun e =>
      e.eventType == "web.domain_accessed" && e.actorUserId == some userId &&
        e.targetType == some "managed_store" && e.targetId == some targetId &&
        decide (now ≤ e.createdAt + minutes 5)).insertionSort fun a b => b.id ≤ a.id).take 100

/-- The next value of an automatic key. -/
def nextId (audits : Table AuditEvent.id) : ℕ := (audits.rows.map AuditEvent.id).foldr max 0 + 1

theorem ne_nextId (audits : Table AuditEvent.id) : ∀ e ∈ audits.rows, e.id ≠ nextId audits := by
  have hle : ∀ l : List ℕ, ∀ n ∈ l, n ≤ l.foldr max 0 := by
    intro l
    induction l with
    | nil => simp
    | cons a l ih =>
      intro n hn
      rw [List.foldr_cons]
      rcases List.mem_cons.mp hn with rfl | hn
      · exact Nat.le_max_left ..
      · exact Nat.le_trans (ih n hn) (Nat.le_max_right ..)
  intro e he
  have := hle _ _ (List.mem_map.mpr ⟨e, he, rfl⟩ : e.id ∈ audits.rows.map AuditEvent.id)
  unfold nextId
  omega

/-- The event an access leaves, unless a recent one says the same. -/
def auditAccess (audits : Table AuditEvent.id) (userId : ℕ) (targetId : List ℕ)
    (access : AccessDetails) (recentAt auditAt : ℕ) : Table AuditEvent.id :=
  if (recentAccess audits userId targetId recentAt).any fun e => e.access == some access then audits
  else
    audits.insert
      { id := nextId audits
        actorUserId := some userId
        eventType := "web.domain_accessed"
        targetType := some "managed_store"
        targetId := some targetId
        access := some access
        createdAt := auditAt } (ne_nextId audits)

variable (N : Names) (hmac : List ℕ → List ℕ → List ℕ)

/-- The whole seconds a lease has left. -/
def remaining (lease : StoreConnectionLease) (now : ℕ) : ℕ :=
  (lease.expiresAt - now) / 1000000

/-- `issue_store_target_ticket` from the resolved target on. -/
def ticketFor (db : Db) (r : TicketRequest) (user : User) (store : ManagedStore) (node : EdgeNode)
    (lease : StoreConnectionLease) (target : ResolvedTarget) : Db × Except Fault TicketResponse :=
  if remaining lease r.resolvedAt = 0 then
    ({ db with leases := db.leases.put { lease with status := .expired } },
      .error (.http 409 "Store is not connected"))
  else
    let expiresIn : ℤ := min 60 (remaining lease r.resolvedAt)
    let storeText := Lib.JsonDumps.decimal store.id
    match issue hmac ⟨encodeUtf8 (text node.sharedSecret), text node.name, 60⟩ storeText
        target.host target.port (some expiresIn) (timestamp r.issueAt) r.entropy with
    | none => (db, .error .uncaught)
    | some ticket =>
      ({ db with
          audits := auditAccess db.audits user.id storeText
            ⟨target.host, target.port, lease.deviceId, node.name⟩ r.recentAt r.auditAt },
        .ok ⟨ticket, lease.id, node.endpoint, expiresIn⟩)

/-- `issue_store_target_ticket` from the lease on; `db` is what a rollback goes back to, `leases`
what `active_store_leases` has written. -/
def ticketWithLease (db : Db) (leases : Table StoreConnectionLease.id) (r : TicketRequest)
    (user : User) (store : ManagedStore) (lease : StoreConnectionLease) :
    Db × Except Fault TicketResponse :=
  match db.nodes.get? store.edgeNodeId with
  | none => (db, .error .uncaught)
  | some node =>
    if store.enabled = false ∨ node.enabled = false then
      (db, .error (.http 409 "Store or edge node is disabled"))
    else if node.healthStatus ≠ .online then
      (db, .error (.http 503 "Assigned edge node is unavailable"))
    else
      match resolve N r.answers r.host r.port with
      | .error (.denied _) => (db, .error (.http 403 "Target is not public web traffic"))
      | .error .uncaught => (db, .error .uncaught)
      | .ok target =>
        match ticketFor hmac { db with leases := leases } r user store node lease target with
        | (_, .error .uncaught) => (db, .error .uncaught)
        | answer => answer

/-- `issue_store_target_ticket`. What is not committed is rolled back. -/
def issueStoreTargetTicket (db : Db) (r : TicketRequest) : Db × Except Fault TicketResponse :=
  match bearerUser db.sessions.get? db.users.get? r.bearer r.authAt with
  | none => (db, .error (.http 401 "Invalid or revoked token"))
  | some user =>
    match accessibleStore db r.storeId user with
    | none => (db, .error (.http 404 "Store not found"))
    | some store =>
      match requestedStoreLease db.leases store.id user.id r.leaseId r.deviceId r.leaseAt with
      | .error e => (db, .error e)
      | .ok (none, leases) =>
        ({ db with leases := leases }, .error (.http 409 "Store is not connected"))
      | .ok (some lease, leases) => ticketWithLease N hmac db leases r user store lease

/-! ## What stands behind an issued ticket -/

/-- What the handler has established about a request, on the tables it read, when it answers with a
ticket for `target` on `store`. -/
structure Grounds (db : Db) (r : TicketRequest) (user : User) (store : ManagedStore)
    (node : EdgeNode) (lease : StoreConnectionLease) (target : ResolvedTarget) : Prop where
  known : user ∈ db.users.rows
  live : user.enabled = true ∧ user.deletedAt = none
  store_mem : store ∈ db.stores.rows
  store_id : store.id = r.storeId
  store_enabled : store.enabled = true
  node_mem : node ∈ db.nodes.rows
  node_id : node.id = store.edgeNodeId
  node_enabled : node.enabled = true
  node_online : node.healthStatus = .online
  allowed : user.role = .admin ∨ ∃ g ∈ db.grants.rows, g.userId = user.id ∧ g.edgeNodeId = node.id
  lease_mem : lease ∈ db.leases.rows
  lease_store : lease.storeId = store.id
  lease_owner : lease.ownerUserId = user.id
  lease_active : lease.status = .active
  lease_fresh : lease.stale (r.leaseAt lease.id) = false
  lease_left : r.resolvedAt + seconds 1 ≤ lease.expiresAt
  target_public : resolve N r.answers r.host r.port = .ok target

/-- The issuer of a node's tickets. -/
def issuerOf (node : EdgeNode) : EdgeTicketIssuer where
  secret := encodeUtf8 (text node.sharedSecret)
  nodeId := text node.name

theorem accessibleStore_eq_some {db : Db} {storeId : ℕ} {user : User} {store : ManagedStore}
    (h : accessibleStore db storeId user = some store) :
    store ∈ db.stores.rows ∧ store.id = storeId ∧
      (user.role = .admin ∨
        ∃ g ∈ db.grants.rows, g.userId = user.id ∧ g.edgeNodeId = store.edgeNodeId) := by
  obtain ⟨hget, hcond⟩ := Option.filter_eq_some_iff.mp h
  obtain ⟨hmem, hid⟩ := Table.get?_eq_some.mp hget
  simp only [Bool.and_eq_true, Bool.or_eq_true, beq_iff_eq, Db.granted, List.any_eq_true] at hcond
  exact ⟨hmem, hid, hcond.2⟩

/-- **What a ticket of `ticketFor` is**: signed by the issuer of the node for the target. -/
theorem ticketFor_eq_ok {db : Db} {r : TicketRequest} {user : User} {store : ManagedStore}
    {node : EdgeNode} {lease : StoreConnectionLease} {target : ResolvedTarget}
    {response : TicketResponse}
    (h : (ticketFor hmac db r user store node lease target).2 = .ok response) :
    r.resolvedAt + seconds 1 ≤ lease.expiresAt ∧
      issue hmac (issuerOf node) (Lib.JsonDumps.decimal store.id) target.host target.port
        (some (min 60 (remaining lease r.resolvedAt : ℤ))) (timestamp r.issueAt) r.entropy =
          some response.ticket := by
  unfold ticketFor at h
  by_cases hleft : remaining lease r.resolvedAt = 0
  · simp [hleft] at h
  simp only [if_neg hleft] at h
  split at h
  · simp at h
  · next ticket hissue =>
    obtain rfl := Except.ok.inj h
    refine ⟨?_, hissue⟩
    unfold remaining at hleft
    unfold seconds
    omega

/-- **What the handler answers with a ticket for.** -/
theorem issueStoreTargetTicket_eq_ok {db : Db} {r : TicketRequest} {response : TicketResponse}
    (h : (issueStoreTargetTicket N hmac db r).2 = .ok response) :
    ∃ user store node lease target, Grounds N db r user store node lease target ∧
      issue hmac (issuerOf node) (Lib.JsonDumps.decimal store.id) target.host target.port
        (some (min 60 (remaining lease r.resolvedAt : ℤ))) (timestamp r.issueAt) r.entropy =
          some response.ticket := by
  unfold issueStoreTargetTicket at h
  rcases huser : bearerUser db.sessions.get? db.users.get? r.bearer r.authAt with _ | user
  · simp [huser] at h
  rcases hstore : accessibleStore db r.storeId user with _ | store
  · simp [huser, hstore] at h
  rcases hlease : requestedStoreLease db.leases store.id user.id r.leaseId r.deviceId r.leaseAt with
    e | ⟨_ | lease, leases⟩
  · simp [huser, hstore, hlease] at h
  · simp [huser, hstore, hlease] at h
  simp only [huser, hstore, hlease] at h
  unfold ticketWithLease at h
  rcases hnode : db.nodes.get? store.edgeNodeId with _ | node
  · simp [hnode] at h
  simp only [hnode] at h
  split_ifs at h with hen honline
  rcases htarget : resolve N r.answers r.host r.port with e | target
  · rcases e <;> simp [htarget] at h
  simp only [htarget] at h
  have hfor : (ticketFor hmac { db with leases := leases } r user store node lease target).2 =
      .ok response := by
    split at h
    · simp at h
    · exact h
  obtain ⟨hleft, hissue⟩ := ticketFor_eq_ok hmac hfor
  obtain ⟨⟨id, hknown⟩, hlive⟩ := bearerUser_live huser
  obtain ⟨hsmem, hsid, hallowed⟩ := accessibleStore_eq_some hstore
  obtain ⟨hlmem, hlstore, hlact, hlown, hlfresh⟩ := requestedStoreLease_eq_some hlease
  obtain ⟨hnmem, hnid⟩ := Table.get?_eq_some.mp hnode
  simp only [not_or, Bool.not_eq_false] at hen
  simp only [User.live, Bool.and_eq_true, Option.isNone_iff_eq_none] at hlive
  refine ⟨user, store, node, lease, target, ?_, hissue⟩
  exact
    { known := (Table.get?_eq_some.mp hknown).1
      live := hlive
      store_mem := hsmem
      store_id := hsid
      store_enabled := hen.1
      node_mem := hnmem
      node_id := hnid
      node_enabled := hen.2
      node_online := not_not.mp honline
      allowed := hnid ▸ hallowed
      lease_mem := hlmem
      lease_store := hlstore
      lease_owner := hlown
      lease_active := hlact
      lease_fresh := hlfresh
      lease_left := hleft
      target_public := htarget }

end IdenGrid.Control.Stores
