import IdenGrid.Lib.Json
import IdenGrid.Lib.WriteBack
import IdenGrid.Control.Registry
import IdenGrid.Control.Stores

/-! # The control plane: the handlers that touch leases

`connect_store`, `native_store_preflight`, `heartbeat_store`, `issue_store_target_ticket`,
`disconnect_store`, `list_owned_stores`, `list_store_leases` and `update_managed_store`, each as a
function on the tables it reads. Every reading of the clock, the random identifier of a new lease
and what the ticket handler reads from outside are arguments of the request. An exception rolls back
what the handler has written, unless the handler has committed before it raises.

`connectStore_eq_ok`, `nativeStorePreflight_eq_ok` and their siblings say what each handler does where
it succeeds, `connectStore_isOk` and `nativeStorePreflight_isOk` when it does. -/

namespace IdenGrid.Control.Leases

open IdenGrid.Lib.Store IdenGrid.Lib.WriteBack IdenGrid.Lib.Unicode
open IdenGrid.Control.Rows IdenGrid.Control.Nodes IdenGrid.Control.Targets
open IdenGrid.Control.Stores
open IdenGrid.Lib.Results

def hours (n : ℕ) : ℕ := seconds (n * 60 * 60)

/-- A row of `edge_capabilities`; `config` is what `json.loads` finds in `config_json`. -/
structure EdgeCapability where
  id : ℕ
  edgeNodeId : ℕ
  name : String
  config : Option Lib.Json.Value

structure LeaseDb extends Db where
  capabilities : Table EdgeCapability.id

/-! ## Requests -/

/-- A request: its bearer token, and the clock at the check of the token and at each lease. -/
structure Call where
  bearer : Bearer
  authAt : ℕ
  leaseAt : String → ℕ

/-- A request for a store; `now` is the clock where the handler reads it for the lease. -/
structure StoreCall extends Call where
  storeId : ℕ
  now : ℕ
  auditAt : ℕ

/-- A request that may create a lease: `uuid4().hex`, and the default of `created_at`. -/
structure LeaseCall extends StoreCall where
  uuid : String
  createdAt : ℕ

/-- `model_dump(exclude_unset=True)`: a field that is not set, set to null, or set. -/
structure StoreChanges where
  label : Option (Option String) := none
  ownerUserId : Option (Option ℕ) := none
  edgeNodeId : Option (Option ℕ) := none
  enabled : Option (Option Bool) := none

/-- A change of a store by an administrator. -/
structure UpdateCall extends Call where
  storeId : ℕ
  changes : StoreChanges
  auditAt : ℕ

inductive Op
  | connect (call : LeaseCall) (body : Option String)
  | preflight (call : LeaseCall)
  | heartbeat (call : StoreCall) (leaseId deviceId : String)
  | ticket (request : TicketRequest)
  | disconnect (call : StoreCall) (leaseId deviceId : Option String)
  | listStores (call : Call)
  | listLeases (call : Call)
  | update (call : UpdateCall)

/-! ## Responses -/

/-- `serialize_capability`. -/
structure CapabilityItem where
  id : ℕ
  edgeNodeId : ℕ
  name : String
  config : Lib.Json.Value

structure ConnectResponse where
  leaseId : String
  status : LeaseStatus
  createdAt : ℕ
  expiresAt : ℕ
  edgeEndpoint : String
  expiresIn : ℕ
  capabilities : List CapabilityItem
  recovered : Bool

structure PreflightResponse where
  ready : Bool
  storeId : ℕ
  leaseId : String
  expiresAt : ℕ
  recovered : Bool

structure HeartbeatResponse where
  leaseId : String
  status : LeaseStatus
  expiresIn : ℕ

structure DisconnectResponse where
  leaseId : String
  status : LeaseStatus

/-- What `serialize_owner_store` shows; the columns of `serialize_edge_health` are those of the
node. -/
structure OwnerStore where
  id : ℕ
  label : String
  enabled : Bool
  edgeNodeName : String
  edgeEndpoint : String
  expectedEgressIps : List String
  connected : Bool
  activeDeviceCount : ℕ
  health : EdgeNode

inductive Response
  | connected (response : ConnectResponse)
  | preflighted (response : PreflightResponse)
  | beaten (response : HeartbeatResponse)
  | ticket (response : TicketResponse)
  | disconnected (response : DisconnectResponse)
  | stores (items : List OwnerStore)
  | leases (items : List StoreConnectionLease)
  | updated (store : ManagedStore)

/-! ## Leases -/

/-- A heartbeat, or a connection that is taken up again. -/
def renew (lease : StoreConnectionLease) (now : ℕ) : StoreConnectionLease :=
  { lease with lastHeartbeatAt := some now, expiresAt := now + hours 8 }

def disconnect (lease : StoreConnectionLease) (now : ℕ) : StoreConnectionLease :=
  { lease with status := .disconnected, disconnectedAt := some now }

def expire (lease : StoreConnectionLease) : StoreConnectionLease := { lease with status := .expired }

def newLease (call : LeaseCall) (storeId ownerUserId : ℕ) (deviceId : String) :
    StoreConnectionLease where
  id := call.uuid
  storeId := storeId
  ownerUserId := ownerUserId
  deviceId := some deviceId
  status := .active
  createdAt := call.createdAt
  expiresAt := call.now + hours 8
  lastHeartbeatAt := some call.now
  disconnectedAt := none

/-- The leases as `active_store_leases` leaves them. -/
def expireLeases (leases : Table StoreConnectionLease.id) (storeId : ℕ) (clock : String → ℕ) :
    Table StoreConnectionLease.id :=
  leases.mapRows (expireStale storeId clock) (expireStale_id storeId clock)

/-- `active_store_lease`. -/
def activeStoreLease (leases : Table StoreConnectionLease.id) (storeId ownerUserId : ℕ)
    (deviceId : String) (clock : String → ℕ) : Option StoreConnectionLease :=
  (activeStoreLeases leases storeId clock).find? fun l =>
    l.ownerUserId == ownerUserId && l.deviceId == some deviceId

/-- Two leases of the same store, user and device. A lease without a device is like no other. -/
def SameDevice (l l' : StoreConnectionLease) : Prop :=
  l.storeId = l'.storeId ∧ l.ownerUserId = l'.ownerUserId ∧
    l.deviceId.isSome = true ∧ l.deviceId = l'.deviceId

instance (l l' : StoreConnectionLease) : Decidable (SameDevice l l') :=
  inferInstanceAs (Decidable (_ ∧ _ ∧ _ ∧ _))

/-- The INSERT of an active lease: its key has to be fresh, and the index on the active leases has to
have no entry for its store, user and device; `none` is an `IntegrityError`. -/
def insertLease (leases : Table StoreConnectionLease.id) (lease : StoreConnectionLease) :
    Option (Table StoreConnectionLease.id) :=
  if ∃ l ∈ leases.rows, l.status = .active ∧ SameDevice l lease then none else insert? lease leases

/-! ## The handlers -/

/-- `current_user`. -/
def currentUser (db : Db) (call : Call) : Except Fault User :=
  match bearerUser db.sessions.get? db.users.get? call.bearer call.authAt with
  | some user => .ok user
  | none => .error (.http 401 "Invalid or revoked token")

/-- `current_native_identity`. -/
def currentNativeIdentity (db : Db) (call : Call) : Except Fault (User × DeviceSession) :=
  let identity := match call.bearer with
    | .native payload => nativeAccessIdentity db.sessions.get? db.users.get? payload call.authAt
    | _ => none
  match identity with
  | some identity => .ok identity
  | none => .error (.http 401 "Invalid or revoked native token")

/-- `accessible_store`, with its exception. -/
def requireStore (db : Db) (storeId : ℕ) (user : User) : Except Fault ManagedStore :=
  match accessibleStore db storeId user with
  | some store => .ok store
  | none => .error (.http 404 "Store not found")

/-- The node of a store that is connected to: enabled, and `require_online_edge`. -/
def requireNode (db : Db) (store : ManagedStore) : Except Fault EdgeNode :=
  match db.nodes.get? store.edgeNodeId with
  | none => .error .uncaught
  | some node =>
    if store.enabled = false ∨ node.enabled = false then
      .error (.http 409 "Store or edge node is disabled")
    else if node.healthStatus ≠ .online then
      .error (.http 503 "Assigned edge node is unavailable")
    else .ok node

/-- The capabilities of a node, or the exception of `json.loads`. -/
def capabilityPayload (db : LeaseDb) (nodeId : ℕ) : Except Fault (List CapabilityItem) :=
  ((db.capabilities.rows.filter fun c => c.edgeNodeId == nodeId).insertionSort
    fun a b => a.id ≤ b.id).mapM fun c =>
      match c.config with
      | some config => .ok ⟨c.id, c.edgeNodeId, c.name, config⟩
      | none => .error .uncaught

/-- `audit` of an event about a store, whose details say nothing about an access. -/
def auditStore (db : LeaseDb) (eventType : String) (userId storeId now : ℕ) : LeaseDb :=
  { db with
    audits := db.audits.insert
      { id := nextId db.audits
        actorUserId := some userId
        eventType := eventType
        targetType := some "managed_store"
        targetId := some (Lib.JsonDumps.decimal storeId)
        access := none
        createdAt := now } (ne_nextId db.audits) }

/-- The flush of a new lease, with what becomes of an `IntegrityError`. -/
def addLease (db : LeaseDb) (lease : StoreConnectionLease) (conflict : Fault) :
    Except Fault LeaseDb :=
  match insertLease db.leases lease with
  | some leases => .ok { db with leases := leases }
  | none => .error conflict

/-- The device of a connection: the one of the body, or one for all of a user's old clients. -/
def connectDevice (user : User) (body : Option String) : String :=
  body.getD ("legacy-" ++ toString user.id)

/-- `active_store_leases` on the tables. -/
def expireStore (db : LeaseDb) (storeId : ℕ) (clock : String → ℕ) : LeaseDb :=
  { db with leases := expireLeases db.leases storeId clock }

def putLease (db : LeaseDb) (lease : StoreConnectionLease) : LeaseDb :=
  { db with leases := db.leases.put lease }

def connectStore (db : LeaseDb) (call : LeaseCall) (body : Option String) :
    Except Fault (LeaseDb × ConnectResponse) := do
  let user ← currentUser db.toDb call.toCall
  let store ← requireStore db.toDb call.storeId user
  let node ← requireNode db.toDb store
  let deviceId := connectDevice user body
  let after := expireStore db store.id call.leaseAt
  match activeStoreLease db.leases store.id user.id deviceId call.leaseAt with
  | some active =>
    let lease := renew active call.now
    .ok (putLease after lease,
      ⟨lease.id, lease.status, lease.createdAt, lease.expiresAt, node.endpoint, 8 * 60 * 60, [],
        true⟩)
  | none => do
    let lease := newLease call store.id user.id deviceId
    -- The query for the capabilities flushes the lease, before the `try` around the next flush.
    let after ← addLease after lease .uncaught
    let capabilities ← capabilityPayload db node.id
    .ok (auditStore after "managed_store.connected" user.id store.id call.auditAt,
      ⟨lease.id, lease.status, lease.createdAt, lease.expiresAt, node.endpoint, 8 * 60 * 60,
        capabilities, false⟩)

/-- The lease of a preflight, and whether it is one that was there. -/
def preflightLease (db : LeaseDb) (call : LeaseCall) (store : ManagedStore) (user : User)
    (deviceId : String) : Except Fault (LeaseDb × StoreConnectionLease × Bool) :=
  let after := expireStore db store.id call.leaseAt
  match activeStoreLease db.leases store.id user.id deviceId call.leaseAt with
  | some active => .ok (putLease after (renew active call.now), renew active call.now, true)
  | none => do
    let lease := newLease call store.id user.id deviceId
    let after ← addLease after lease (.http 409 "Store already has an active connection")
    .ok (after, lease, false)

def nativeStorePreflight (db : LeaseDb) (call : LeaseCall) :
    Except Fault (LeaseDb × PreflightResponse) := do
  let (user, deviceSession) ← currentNativeIdentity db.toDb call.toCall
  let store ← requireStore db.toDb call.storeId user
  let _ ← requireNode db.toDb store
  let (after, lease, recovered) ← preflightLease db call store user deviceSession.deviceId
  .ok (auditStore after "native.store_preflighted" user.id store.id call.auditAt,
    ⟨true, store.id, lease.id, lease.expiresAt, recovered⟩)

def heartbeatStore (db : LeaseDb) (call : StoreCall) (leaseId deviceId : String) :
    Except Fault (LeaseDb × HeartbeatResponse) := do
  let user ← currentUser db.toDb call.toCall
  let store ← requireStore db.toDb call.storeId user
  match activeStoreLease db.leases store.id user.id deviceId call.leaseAt with
  | some active =>
    if active.id ≠ leaseId then .error (.http 409 "Store lease is not active")
    else
      let lease := renew active call.now
      .ok (putLease (expireStore db store.id call.leaseAt) lease,
        ⟨lease.id, lease.status, 8 * 60 * 60⟩)
  | none => .error (.http 409 "Store lease is not active")

def disconnectStore (db : LeaseDb) (call : StoreCall) (leaseId deviceId : Option String) :
    Except Fault (LeaseDb × DisconnectResponse) := do
  let user ← currentUser db.toDb call.toCall
  let store ← requireStore db.toDb call.storeId user
  match ← requestedStoreLease db.leases store.id user.id leaseId deviceId call.leaseAt with
  | (some active, leases) =>
    let lease := disconnect active call.now
    .ok (auditStore (putLease { db with leases := leases } lease) "managed_store.disconnected"
      user.id store.id call.auditAt, ⟨lease.id, lease.status⟩)
  | (none, _) => .error (.http 409 "Store is not connected")

/-- `serialize_owner_store`: what it shows, and the tables as it leaves them. -/
def serializeOwnerStore (db : LeaseDb) (store : ManagedStore) (userId : ℕ) (clock : String → ℕ) :
    Except Fault (LeaseDb × OwnerStore) :=
  match db.nodes.get? store.edgeNodeId with
  | none => .error .uncaught
  | some node =>
    let count := ((activeStoreLeases db.leases store.id clock).filter fun l =>
      l.ownerUserId == userId).length
    .ok (expireStore db store.id clock,
      { id := store.id
        label := store.label
        enabled := store.enabled
        edgeNodeName := node.name
        edgeEndpoint := node.endpoint
        expectedEgressIps := node.expectedPublicIpv4.toList.filter fun ip => ip ≠ ""
        connected := decide (0 < count)
        activeDeviceCount := count
        health := node })

/-- The stores of a user, by number. -/
def accessibleStores (db : Db) (user : User) : List ManagedStore :=
  (db.stores.rows.filter fun store => (accessibleStore db store.id user).isSome).insertionSort
    fun a b => a.id ≤ b.id

def serializeStores (userId : ℕ) (clock : String → ℕ) :
    LeaseDb → List ManagedStore → Except Fault (LeaseDb × List OwnerStore)
  | db, [] => .ok (db, [])
  | db, store :: stores => do
    let (db, item) ← serializeOwnerStore db store userId clock
    let (db, items) ← serializeStores userId clock db stores
    .ok (db, item :: items)

def listOwnedStores (db : LeaseDb) (call : Call) : Except Fault (LeaseDb × List OwnerStore) := do
  let user ← currentUser db.toDb call
  serializeStores user.id call.leaseAt db (accessibleStores db.toDb user)

def listStoreLeases (db : LeaseDb) (call : Call) :
    Except Fault (LeaseDb × List StoreConnectionLease) := do
  let user ← currentUser db.toDb call
  if user.role ≠ .admin then .error (.http 403 "Administrator required")
  else .ok (db, db.leases.rows.insertionSort fun a b => b.createdAt ≤ a.createdAt)

/-! ## The change of a store -/

def require (condition : Bool) (fault : Fault) : Except Fault Unit :=
  if condition then .ok () else .error fault

/-- The change gives the store another node. -/
def StoreChanges.rebinds (changes : StoreChanges) (store : ManagedStore) : Bool :=
  changes.edgeNodeId.any fun node => node != some store.edgeNodeId

/-- The new label is that of another store. -/
def StoreChanges.labelTaken (changes : StoreChanges) (db : Db) (store : ManagedStore) : Bool :=
  changes.label.any fun label =>
    db.stores.rows.any fun other => some other.label == label && other.id != store.id

/-- `validate_store_links`. -/
def validateStoreLinks (db : Db) (ownerUserId edgeNodeId : Option ℕ) : Except Fault Unit := do
  require (ownerUserId.all fun id => (db.users.get? id).any User.enabled)
    (.http 422 "Valid owner required")
  require (edgeNodeId.any fun id => (db.nodes.get? id).isSome)
    (.http 422 "Valid edge node required")

/-- `setattr` for each change; null in a column that must not be null is an error of the flush. -/
def StoreChanges.apply (changes : StoreChanges) (store : ManagedStore) :
    Except Fault ManagedStore :=
  match changes.label.getD (some store.label), changes.edgeNodeId.getD (some store.edgeNodeId),
      changes.enabled.getD (some store.enabled) with
  | some label, some edgeNodeId, some enabled =>
    .ok ⟨store.id, label, changes.ownerUserId.getD store.ownerUserId, edgeNodeId, enabled⟩
  | _, _, _ => .error .uncaught

/-- The tables after the check for active leases, which is made only where the node changes. -/
def checkedStore (db : LeaseDb) (call : UpdateCall) (store : ManagedStore) : LeaseDb :=
  if call.changes.rebinds store then expireStore db store.id call.leaseAt else db

def updateManagedStore (db : LeaseDb) (call : UpdateCall) :
    Except Fault (LeaseDb × ManagedStore) := do
  let user ← currentUser db.toDb call.toCall
  require (user.role == .admin) (.http 403 "Administrator required")
  match db.stores.get? call.storeId with
  | none => .error (.http 404 "Store not found")
  | some store => do
    require (!call.changes.labelTaken db.toDb store) (.http 409 "Store already exists")
    require (!(call.changes.rebinds store &&
        !(activeStoreLeases db.leases store.id call.leaseAt).isEmpty))
      (.http 409 "Cannot rebind a store with an active connection")
    validateStoreLinks db.toDb (call.changes.ownerUserId.getD store.ownerUserId)
      (call.changes.edgeNodeId.getD (some store.edgeNodeId))
    let changed ← call.changes.apply store
    let after := checkedStore db call store
    .ok (auditStore { after with stores := after.stores.put changed } "managed_store.updated"
      user.id store.id call.auditAt, changed)

variable (N : Names) (hmac : List ℕ → List ℕ → List ℕ)

/-- What is not committed is rolled back. -/
def settle {α : Type} (db : LeaseDb) (f : α → Response) (x : Except Fault (LeaseDb × α)) :
    LeaseDb × Except Fault Response :=
  match x with
  | .ok (db', response) => (db', .ok (f response))
  | .error fault => (db, .error fault)

def handle (db : LeaseDb) : Op → LeaseDb × Except Fault Response
  | .connect call body => settle db .connected (connectStore db call body)
  | .preflight call => settle db .preflighted (nativeStorePreflight db call)
  | .heartbeat call leaseId deviceId =>
    settle db .beaten (heartbeatStore db call leaseId deviceId)
  | .ticket request =>
    let answer := issueStoreTargetTicket N hmac db.toDb request
    ({ db with toDb := answer.1 }, answer.2.map .ticket)
  | .disconnect call leaseId deviceId =>
    settle db .disconnected (disconnectStore db call leaseId deviceId)
  | .listStores call => settle db .stores (listOwnedStores db call)
  | .listLeases call => settle db .leases (listStoreLeases db call)
  | .update call => settle db .updated (updateManagedStore db call)

/-! ## Reading the handlers -/

section Read

variable {leases after : Table StoreConnectionLease.id} {storeId ownerUserId : ℕ}
  {deviceId : String} {clock : String → ℕ} {lease : StoreConnectionLease}

theorem mem_activeStoreLeases : lease ∈ activeStoreLeases leases storeId clock ↔
    lease ∈ leases.rows ∧ lease.storeId = storeId ∧ lease.status = .active ∧
      lease.stale (clock lease.id) = false := by
  simp only [activeStoreLeases, List.mem_filter, StoreConnectionLease.activeOn, Bool.and_eq_true,
    beq_iff_eq, Bool.not_eq_true', and_assoc]

/-- **What an active lease of a device is.** -/
theorem activeStoreLease_eq_some
    (h : activeStoreLease leases storeId ownerUserId deviceId clock = some lease) :
    lease ∈ leases.rows ∧ lease.storeId = storeId ∧ lease.status = .active ∧
      lease.ownerUserId = ownerUserId ∧ lease.deviceId = some deviceId ∧
      lease.stale (clock lease.id) = false := by
  have hmem := mem_activeStoreLeases.mp (List.mem_of_find?_eq_some h)
  have hown := List.find?_some h
  simp only [Bool.and_eq_true, beq_iff_eq] at hown
  exact ⟨hmem.1, hmem.2.1, hmem.2.2.1, hown.1, hown.2, hmem.2.2.2⟩

theorem activeStoreLease_eq_none
    (h : activeStoreLease leases storeId ownerUserId deviceId clock = none)
    (hlease : lease ∈ leases.rows) (hstore : lease.storeId = storeId)
    (howner : lease.ownerUserId = ownerUserId) (hdevice : lease.deviceId = some deviceId)
    (hactive : lease.status = .active) : lease.stale (clock lease.id) = true := by
  by_contra hfresh
  have hmem := mem_activeStoreLeases.mpr ⟨hlease, hstore, hactive, Bool.not_eq_true _ ▸ hfresh⟩
  have := List.find?_eq_none.mp h lease hmem
  simp [howner, hdevice] at this

/-- The lease that a request names is on the device that it names. -/
theorem requestedStoreLease_device {leaseId device : Option String}
    (h : requestedStoreLease leases storeId ownerUserId leaseId device clock =
      .ok (some lease, after)) : ∀ d, device = some d → lease.deviceId = some d := by
  rintro d rfl
  unfold requestedStoreLease at h
  split_ifs at h with hids
  rcases leaseId with _ | id
  · exact absurd Bool.noConfusion hids
  · have hfound := List.find?_some (congrArg Prod.fst (Except.ok.inj h))
    simp only [Bool.and_eq_true, beq_iff_eq] at hfound
    exact hfound.2

theorem requestedStoreLease_after {leaseId device : Option String}
    {found : Option StoreConnectionLease}
    (h : requestedStoreLease leases storeId ownerUserId leaseId device clock =
      .ok (found, after)) : after = expireLeases leases storeId clock := by
  unfold requestedStoreLease at h
  split_ifs at h with hids
  simp only at h
  split at h
  · exact (congrArg Prod.snd (Except.ok.inj h)).symm
  · split_ifs at h
    exact (congrArg Prod.snd (Except.ok.inj h)).symm

theorem insertLease_eq_some (h : insertLease leases lease = some after) :
    (∀ l ∈ leases.rows, l.id ≠ lease.id) ∧
      (∀ l ∈ leases.rows, l.status = .active → ¬ SameDevice l lease) ∧
      after.rows = leases.rows ++ [lease] := by
  unfold insertLease at h
  split_ifs at h with hindex
  obtain ⟨hfresh, hrows⟩ := insert?_eq_some h
  refine ⟨hfresh, fun l hl hactive hsame => hindex ⟨l, hl, hactive, hsame⟩, hrows⟩

end Read

section Bind

variable {db : Db} {call : Call} {user : User} {store : ManagedStore} {node : EdgeNode}

theorem requireStore_eq_ok {storeId : ℕ} (h : requireStore db storeId user = .ok store) :
    accessibleStore db storeId user = some store := by
  unfold requireStore at h
  split at h
  · next s hs => rw [hs, Except.ok.inj h]
  · exact absurd h (by simp)

end Bind

/-! ## The lease of a connection -/

/-- How `connect_store` and `native_store_preflight` come to a lease: they renew the active one of
the device, or create one. -/
inductive Taken (leases : Table StoreConnectionLease.id) (call : LeaseCall) (storeId userId : ℕ)
    (deviceId : String) : String → Table StoreConnectionLease.id → Prop
  | reused {lease : StoreConnectionLease}
      (h : activeStoreLease leases storeId userId deviceId call.leaseAt = some lease) :
      Taken leases call storeId userId deviceId lease.id
        ((expireLeases leases storeId call.leaseAt).put (renew lease call.now))
  | created {after : Table StoreConnectionLease.id}
      (hnone : activeStoreLease leases storeId userId deviceId call.leaseAt = none)
      (h : insertLease (expireLeases leases storeId call.leaseAt)
        (newLease call storeId userId deviceId) = some after) :
      Taken leases call storeId userId deviceId call.uuid after

/-- The tables but the leases and the audit log are the same. -/
structure SameRest (db db' : LeaseDb) : Prop where
  users : db'.users = db.users
  sessions : db'.sessions = db.sessions
  nodes : db'.nodes = db.nodes
  stores : db'.stores = db.stores
  grants : db'.grants = db.grants
  capabilities : db'.capabilities = db.capabilities

theorem SameRest.refl (db : LeaseDb) : SameRest db db := ⟨rfl, rfl, rfl, rfl, rfl, rfl⟩

section Handlers

variable {db db' : LeaseDb}

theorem addLease_eq_ok {lease : StoreConnectionLease} {conflict : Fault}
    (h : addLease db lease conflict = .ok db') :
    ∃ leases, insertLease db.leases lease = some leases ∧
      db' = { db with leases := leases } := by
  unfold addLease at h
  split at h
  · next leases hleases => exact ⟨leases, hleases, (Except.ok.inj h).symm⟩
  · exact absurd h (by simp)

/-- **What `connect_store` does where it succeeds.** -/
theorem connectStore_eq_ok {call : LeaseCall} {body : Option String} {response : ConnectResponse}
    (h : connectStore db call body = .ok (db', response)) :
    ∃ user store node, currentUser db.toDb call.toCall = .ok user ∧
      requireStore db.toDb call.storeId user = .ok store ∧
      requireNode db.toDb store = .ok node ∧
      Taken db.leases call store.id user.id (connectDevice user body) response.leaseId
        db'.leases ∧ SameRest db db' ∧
      (activeStoreLease db.leases store.id user.id (connectDevice user body) call.leaseAt = none →
        ∃ items, capabilityPayload db node.id = .ok items) := by
  obtain ⟨user, huser, h⟩ := bind_eq_ok.mp h
  obtain ⟨store, hstore, h⟩ := bind_eq_ok.mp h
  obtain ⟨node, hnode, h⟩ := bind_eq_ok.mp h
  refine ⟨user, store, node, huser, hstore, hnode, ?_⟩
  simp only at h
  split at h
  · next active hactive =>
    obtain ⟨rfl, rfl⟩ := Prod.mk.inj (Except.ok.inj h)
    have htaken : Taken db.leases call store.id user.id (connectDevice user body) active.id _ :=
      .reused hactive
    refine ⟨htaken, ⟨rfl, rfl, rfl, rfl, rfl, rfl⟩, fun hnone => ?_⟩
    exact absurd (hactive.symm.trans hnone) (Option.some_ne_none _)
  · next hnone =>
    obtain ⟨after, hafter, h⟩ := bind_eq_ok.mp h
    obtain ⟨capabilities, hcapabilities, h⟩ := bind_eq_ok.mp h
    obtain ⟨leases, hleases, rfl⟩ := addLease_eq_ok hafter
    obtain ⟨rfl, rfl⟩ := Prod.mk.inj (Except.ok.inj h)
    exact ⟨.created hnone hleases, ⟨rfl, rfl, rfl, rfl, rfl, rfl⟩,
      fun _ => ⟨capabilities, hcapabilities⟩⟩

/-- **What `native_store_preflight` does where it succeeds.** -/
theorem nativeStorePreflight_eq_ok {call : LeaseCall} {response : PreflightResponse}
    (h : nativeStorePreflight db call = .ok (db', response)) :
    ∃ user session store node, currentNativeIdentity db.toDb call.toCall = .ok (user, session) ∧
      requireStore db.toDb call.storeId user = .ok store ∧
      requireNode db.toDb store = .ok node ∧
      Taken db.leases call store.id user.id session.deviceId response.leaseId db'.leases ∧
      SameRest db db' := by
  obtain ⟨⟨user, session⟩, hidentity, h⟩ := bind_eq_ok.mp h
  obtain ⟨store, hstore, h⟩ := bind_eq_ok.mp h
  obtain ⟨node, hnode, h⟩ := bind_eq_ok.mp h
  obtain ⟨⟨after, lease, recovered⟩, htaken, h⟩ := bind_eq_ok.mp h
  refine ⟨user, session, store, node, hidentity, hstore, hnode, ?_⟩
  obtain ⟨rfl, rfl⟩ := Prod.mk.inj (Except.ok.inj h)
  simp only [preflightLease] at htaken
  split at htaken
  · next active hactive =>
    obtain ⟨rfl, rfl, -⟩ : _ ∧ _ ∧ _ := by simpa using htaken
    have htaken : Taken db.leases call store.id user.id session.deviceId active.id _ :=
      .reused hactive
    exact ⟨htaken, rfl, rfl, rfl, rfl, rfl, rfl⟩
  · next hnone =>
    obtain ⟨added, hadded, htaken⟩ := bind_eq_ok.mp htaken
    obtain ⟨leases, hleases, rfl⟩ := addLease_eq_ok hadded
    obtain ⟨rfl, rfl, -⟩ : _ ∧ _ ∧ _ := by simpa using htaken
    exact ⟨.created hnone hleases, rfl, rfl, rfl, rfl, rfl, rfl⟩

/-- What lets `connect_store` and `native_store_preflight` come to a lease. -/
def Takes (leases : Table StoreConnectionLease.id) (call : LeaseCall) (storeId userId : ℕ)
    (deviceId : String) (Shows : Prop) : Prop :=
  (∃ lease, activeStoreLease leases storeId userId deviceId call.leaseAt = some lease) ∨
    activeStoreLease leases storeId userId deviceId call.leaseAt = none ∧
      (∃ after, insertLease (expireLeases leases storeId call.leaseAt)
        (newLease call storeId userId deviceId) = some after) ∧ Shows

theorem connectStore_isOk {call : LeaseCall} {body : Option String} {user : User}
    {store : ManagedStore} {node : EdgeNode} (huser : currentUser db.toDb call.toCall = .ok user)
    (hstore : requireStore db.toDb call.storeId user = .ok store)
    (hnode : requireNode db.toDb store = .ok node)
    (htakes : Takes db.leases call store.id user.id (connectDevice user body)
      (∃ items, capabilityPayload db node.id = .ok items)) :
    ∃ out, connectStore db call body = .ok out := by
  simp only [connectStore, huser, hstore, hnode, bind, Except.bind]
  rcases htakes with ⟨lease, hlease⟩ | ⟨hnone, ⟨after, hafter⟩, items, hitems⟩
  · rw [hlease]
    exact ⟨_, rfl⟩
  · simp only [hnone, addLease, expireStore, hafter]
    simp only [hitems]
    exact ⟨_, rfl⟩

theorem nativeStorePreflight_isOk {call : LeaseCall} {user : User} {session : DeviceSession}
    {store : ManagedStore} {node : EdgeNode}
    (hidentity : currentNativeIdentity db.toDb call.toCall = .ok (user, session))
    (hstore : requireStore db.toDb call.storeId user = .ok store)
    (hnode : requireNode db.toDb store = .ok node)
    (htakes : Takes db.leases call store.id user.id session.deviceId True) :
    ∃ out, nativeStorePreflight db call = .ok out := by
  simp only [nativeStorePreflight, hidentity, hstore, hnode, preflightLease, bind, Except.bind]
  rcases htakes with ⟨lease, hlease⟩ | ⟨hnone, ⟨after, hafter⟩, -⟩
  · rw [hlease]
    exact ⟨_, rfl⟩
  · simp only [hnone, addLease, expireStore, hafter]
    exact ⟨_, rfl⟩

theorem heartbeatStore_eq_ok {call : StoreCall} {leaseId deviceId : String}
    {response : HeartbeatResponse}
    (h : heartbeatStore db call leaseId deviceId = .ok (db', response)) :
    ∃ user store lease, currentUser db.toDb call.toCall = .ok user ∧
      requireStore db.toDb call.storeId user = .ok store ∧
      activeStoreLease db.leases store.id user.id deviceId call.leaseAt = some lease ∧
      lease.id = leaseId ∧ response.leaseId = lease.id ∧
      db' = putLease (expireStore db store.id call.leaseAt) (renew lease call.now) := by
  obtain ⟨user, huser, h⟩ := bind_eq_ok.mp h
  obtain ⟨store, hstore, h⟩ := bind_eq_ok.mp h
  split at h
  · next active hactive =>
    split_ifs at h with hid
    obtain ⟨rfl, rfl⟩ := Prod.mk.inj (Except.ok.inj h)
    exact ⟨user, store, active, huser, hstore, hactive, not_not.mp hid, rfl, rfl⟩
  · exact absurd h (by simp)

theorem disconnectStore_eq_ok {call : StoreCall} {leaseId deviceId : Option String}
    {response : DisconnectResponse}
    (h : disconnectStore db call leaseId deviceId = .ok (db', response)) :
    ∃ user store lease after, currentUser db.toDb call.toCall = .ok user ∧
      requestedStoreLease db.leases store user.id leaseId deviceId call.leaseAt =
        .ok (some lease, after) ∧
      db'.leases = (expireLeases db.leases store call.leaseAt).put (disconnect lease call.now) ∧
      SameRest db db' := by
  obtain ⟨user, huser, h⟩ := bind_eq_ok.mp h
  obtain ⟨store, hstore, h⟩ := bind_eq_ok.mp h
  obtain ⟨⟨found, after⟩, hfound, h⟩ := bind_eq_ok.mp h
  split at h
  · next active leases heq =>
    obtain ⟨rfl, rfl⟩ := Prod.mk.inj heq
    obtain ⟨rfl, rfl⟩ := Prod.mk.inj (Except.ok.inj h)
    refine ⟨user, store.id, active, after, huser, hfound, ?_, rfl, rfl, rfl, rfl, rfl, rfl⟩
    rw [← requestedStoreLease_after hfound]
    rfl
  · exact absurd h (by simp)

theorem require_eq_ok {condition : Bool} {fault : Fault} {u : Unit}
    (h : require condition fault = .ok u) : condition = true := by
  unfold require at h
  split_ifs at h with hc
  exact hc

theorem apply_id {changes : StoreChanges} {store changed : ManagedStore}
    (h : changes.apply store = .ok changed) : changed.id = store.id := by
  unfold StoreChanges.apply at h
  split at h
  · rw [← Except.ok.inj h]
  · exact absurd h (by simp)

/-- **What `update_managed_store` does where it succeeds.** -/
theorem updateManagedStore_eq_ok {call : UpdateCall} {changed : ManagedStore}
    (h : updateManagedStore db call = .ok (db', changed)) :
    ∃ store, db.stores.get? call.storeId = some store ∧
      (call.changes.rebinds store = true →
        activeStoreLeases db.leases store.id call.leaseAt = []) ∧
      call.changes.apply store = .ok changed ∧
      db'.leases = (checkedStore db call store).leases ∧
      SameRest { db with stores := db.stores.put changed } db' := by
  obtain ⟨user, -, h⟩ := bind_eq_ok.mp h
  obtain ⟨-, -, h⟩ := bind_eq_ok.mp h
  split at h
  · exact absurd h (by simp)
  next store hstore =>
  obtain ⟨-, -, h⟩ := bind_eq_ok.mp h
  obtain ⟨⟨⟩, hfree, h⟩ := bind_eq_ok.mp h
  obtain ⟨-, -, h⟩ := bind_eq_ok.mp h
  obtain ⟨after, happly, h⟩ := bind_eq_ok.mp h
  obtain ⟨rfl, rfl⟩ := Prod.mk.inj (Except.ok.inj h)
  refine ⟨store, hstore, fun hrebinds => ?_, happly, rfl, ?_⟩
  · have hcheck := require_eq_ok hfree
    rw [hrebinds] at hcheck
    simpa using hcheck
  · unfold checkedStore
    split_ifs <;> exact ⟨rfl, rfl, rfl, rfl, rfl, rfl⟩

end Handlers

end IdenGrid.Control.Leases
