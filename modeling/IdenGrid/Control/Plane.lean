import IdenGrid.Lib.WriteBack
import IdenGrid.Control.Grants
import IdenGrid.Control.Handlers
import IdenGrid.Control.Releases
import IdenGrid.Control.Serial

/-! # The control plane as a whole

The tables of the accounts, of the registry and of the stores side by side. The requests of the
accounts, of the registry and of the leases, and the commands that release leases, are those of their
own modules, with what they do to the tables of the others: `delete_user` takes the grants along,
`delete_edge_node` the grants and the capabilities. The administrator's other commands on users,
grants, capabilities and stores, and the start of the server with its bootstrap configuration, are
here.

No foreign key is enforced: a row is inserted, changed or deleted whatever refers to it. The events
of the audit log are those of the commands and of the leases. -/

namespace IdenGrid.Control.Plane

open IdenGrid.Lib.Store IdenGrid.Lib.WriteBack IdenGrid.Lib.Results
open IdenGrid.Control.Rows IdenGrid.Control.Nodes IdenGrid.Control.Accounts
open IdenGrid.Control.Registry IdenGrid.Control.Targets
open IdenGrid.Control.Grants (GrantsBody)
open IdenGrid.Control.Stores hiding Db
open IdenGrid.Control.Leases

/-- The tables, and whether the bootstrap topology has been applied. -/
structure Tables where
  accounts : Serial.Db
  registry : Registry.Db
  stores : Table ManagedStore.id
  grants : Table UserEdgeNodeGrant.id
  leases : Table StoreConnectionLease.id
  capabilities : Table EdgeCapability.id
  audits : Table AuditEvent.id
  bootstrapped : Bool

/-- A database without a row. -/
def Tables.empty : Tables where
  accounts := { users := .empty, sessions := .empty, throttles := fun _ => none }
  registry := Registry.Db.empty
  stores := .empty
  grants := .empty
  leases := .empty
  capabilities := .empty
  audits := .empty
  bootstrapped := false

/-- The nodes without their platform. -/
def Tables.nodes (t : Tables) : Table EdgeNode.id where
  rows := t.registry.nodes.rows.map NodeRow.toEdgeNode
  nodup := by
    rw [List.map_map]
    exact t.registry.nodes.nodup

/-- What the handlers of the leases read. -/
def Tables.leaseDb (t : Tables) : LeaseDb where
  users := t.accounts.users
  sessions := t.accounts.sessions
  nodes := t.nodes
  stores := t.stores
  grants := t.grants
  leases := t.leases
  audits := t.audits
  capabilities := t.capabilities

/-- What they write. -/
def Tables.withLeaseDb (t : Tables) (db : LeaseDb) : Tables :=
  { t with stores := db.stores, leases := db.leases, audits := db.audits }

/-! ## The accounts -/

/-- What a change of an account does to the tables of the stores. -/
def Tables.follow (t : Tables) : Serial.Request → Tables
  | .changeUserPassword userId _ now => t.withLeaseDb (releaseLeases userId now t.leaseDb)
  | .deleteUser userId _ now =>
    { t.withLeaseDb (disownStores userId now t.leaseDb) with
      grants := delete (fun g => g.userId == userId) t.grants }
  | _ => t

def serveAccount (P : Sessions.Primitives) (req : Serial.Request) (t : Tables) : Tables :=
  match Serial.handle P req t.accounts with
  | (accounts, .ok) => { t with accounts := accounts }.follow req
  | (accounts, _) => { t with accounts := accounts }

/-- `/api/logout`. -/
def serveLogout (call : Call) (t : Tables) : Except Fault Tables := do
  let user ← currentUser t.leaseDb.toDb call
  .ok { t with accounts := { t.accounts with users := t.accounts.users.put (logout user) } }

/-! ## The registry -/

/-- The first store of the node, by number. -/
def boundStore (t : Tables) (nodeId : ℕ) : Option String :=
  (((t.stores.rows.filter fun s => s.edgeNodeId = nodeId).insertionSort fun a b =>
    a.id ≤ b.id).head?).map ManagedStore.label

/-- The request, with the store that `delete_edge_node` finds. -/
def bound (t : Tables) : Handlers.Request → Handlers.Request
  | .deleteEdgeNode nodeId _ => .deleteEdgeNode nodeId (boundStore t nodeId)
  | req => req

/-- What goes with a node. -/
def Tables.cascade (t : Tables) : Handlers.Request → Tables
  | .deleteEdgeNode nodeId _ =>
    { t with
      grants := delete (fun g => g.edgeNodeId == nodeId) t.grants
      capabilities := delete (fun c => c.edgeNodeId == nodeId) t.capabilities }
  | _ => t

def serveRegistry (P : Registry.Primitives) (req : Handlers.Request) (t : Tables) : Tables :=
  match Handlers.serve P (bound t req) t.registry with
  | (registry, .deleted) => { t with registry := registry }.cascade req
  | (registry, _) => { t with registry := registry }

/-! ## The administrator's commands -/

/-- `ManagedStoreCreateBody`. -/
structure ManagedStoreCreateBody where
  label : String
  ownerUserId : Option ℕ := none
  edgeNodeId : ℕ
  enabled : Bool := true

/-- `EdgeCapabilityBody`; `config` is what `json.loads` finds in the text that is stored. -/
structure EdgeCapabilityBody where
  name : String
  config : Option Lib.Json.Value

/-- The commands, with the ids of new rows and the time of a disconnection. -/
inductive Command
  | createUser (username passwordHash : String) (newId : ℕ)
  | replaceUserEdgeNodes (userId : ℕ) (body : GrantsBody) (firstId : ℕ)
  | createEdgeCapability (nodeId : ℕ) (body : EdgeCapabilityBody) (newId : ℕ)
  | updateEdgeCapability (capabilityId : ℕ) (body : EdgeCapabilityBody)
  | deleteEdgeCapability (capabilityId : ℕ)
  | createManagedStore (body : ManagedStoreCreateBody) (newId : ℕ)
  | deleteManagedStore (storeId : ℕ)
  | forceDisconnectManagedStore (storeId now : ℕ)
  | forceDisconnectStoreLease (leaseId : String) (now : ℕ)

/-- `audit`, without the details. -/
def Tables.audit (t : Tables) (actor : Actor) (eventType targetType : String)
    (targetId : List ℕ) : Tables :=
  { t with
    audits := t.audits.insert
      { id := nextId t.audits
        actorUserId := some actor.user.id
        eventType := eventType
        targetType := some targetType
        targetId := some targetId
        access := none
        createdAt := actor.auditAt } (ne_nextId t.audits) }

open Lib.JsonDumps (decimal)

/-- The flush of a new row: a key that is taken is an `IntegrityError`. -/
def inserted {ρ κ : Type} {key : ρ → κ} [DecidableEq κ] (row : ρ) (table : Table key) :
    Except Fault (Table key) :=
  match insert? row table with
  | some table => .ok table
  | none => .error .uncaught

def createUser (t : Tables) (actor : Actor) (username passwordHash : String) (newId : ℕ) :
    Except Fault (Tables × User) := do
  if t.accounts.users.rows.any fun u => u.username == username then
    .error (.http 409 "Username already exists")
  else
    let user : User := ⟨newId, username, passwordHash, .member, true, 0, none⟩
    let users ← inserted user t.accounts.users
    .ok ({ t with accounts := { t.accounts with users := users } }.audit actor
      "workspace.user_assigned" "user" (decimal newId), user)

/-- The new grants of a member, with the next ids. -/
def newGrants (userId firstId : ℕ) (nodeIds : List ℤ) : List UserEdgeNodeGrant :=
  (nodeIds.zipIdx firstId).map fun (nodeId, id) => ⟨id, userId, nodeId.toNat⟩

def replaceUserEdgeNodes (t : Tables) (actor : Actor) (userId : ℕ) (body : GrantsBody)
    (firstId : ℕ) : Except Fault (Tables × List ℤ) := do
  match memberUser (t.accounts.users.get? userId) with
  | none => .error (.http 404 "Member not found")
  | some _ =>
    if body.sorted.all fun (nodeId : ℤ) =>
        t.registry.nodes.rows.any fun (n : NodeRow) => (n.id : ℤ) == nodeId then do
      let grants ← (newGrants userId firstId body.sorted).foldlM (fun grants g => inserted g grants)
        (delete (fun g => g.userId == userId) t.grants)
      .ok ({ t with grants := grants }.audit actor "user.edge_nodes_replaced" "user"
        (decimal userId), body.sorted)
    else .error (.http 422 "Valid edge nodes required")

/-- `serialize_capability`. -/
def serializeCapability (item : EdgeCapability) : Except Fault CapabilityItem :=
  match item.config with
  | some config => .ok ⟨item.id, item.edgeNodeId, item.name, config⟩
  | none => .error .uncaught

def createEdgeCapability (t : Tables) (actor : Actor) (nodeId : ℕ) (body : EdgeCapabilityBody)
    (newId : ℕ) : Except Fault (Tables × Except Fault CapabilityItem) := do
  match t.nodes.get? nodeId with
  | none => .error (.http 404 "Edge node not found")
  | some _ =>
    if t.capabilities.rows.any fun c => c.edgeNodeId == nodeId && c.name == body.name then
      .error (.http 409 "Capability already exists")
    else do
      let item : EdgeCapability := ⟨newId, nodeId, body.name, body.config⟩
      let capabilities ← inserted item t.capabilities
      .ok ({ t with capabilities := capabilities }.audit actor "edge_capability.created"
        "edge_capability" (decimal newId), serializeCapability item)

def updateEdgeCapability (t : Tables) (actor : Actor) (capabilityId : ℕ)
    (body : EdgeCapabilityBody) : Except Fault (Tables × Except Fault CapabilityItem) :=
  match t.capabilities.get? capabilityId with
  | none => .error (.http 404 "Capability not found")
  | some item =>
    if t.capabilities.rows.any fun c =>
        c.edgeNodeId == item.edgeNodeId && c.name == body.name && c.id != item.id then
      .error (.http 409 "Capability already exists")
    else
      let item := { item with name := body.name, config := body.config }
      .ok ({ t with capabilities := t.capabilities.put item }.audit actor
        "edge_capability.updated" "edge_capability" (decimal item.id), serializeCapability item)

def deleteEdgeCapability (t : Tables) (actor : Actor) (capabilityId : ℕ) :
    Except Fault (Tables × Unit) :=
  match t.capabilities.get? capabilityId with
  | none => .error (.http 404 "Capability not found")
  | some item =>
    let t := t.audit actor "edge_capability.deleted" "edge_capability" (decimal item.id)
    .ok ({ t with capabilities := delete (fun c => c.id == item.id) t.capabilities }, ())

/-! ### Stores -/

/-- What `serialize_store` shows of an active lease. -/
structure ActiveLease where
  id : String
  username : String
  deviceId : Option String
  lastHeartbeatAt : Option ℕ
  expiresAt : ℕ

/-- What `serialize_store` shows; the columns of `serialize_edge_health` are those of the node. -/
structure StoreItem where
  id : ℕ
  label : String
  ownerUserId : Option ℕ
  edgeNodeId : ℕ
  edgeNodeName : String
  enabled : Bool
  activeLease : Option ActiveLease
  activeLeases : List ActiveLease
  activeConnectionCount : ℕ
  expectedEgressIps : List String
  health : EdgeNode

def serializeLease (t : Tables) (lease : StoreConnectionLease) : Except Fault ActiveLease :=
  match t.accounts.users.get? lease.ownerUserId with
  | none => .error .uncaught
  | some leaseOwner =>
    .ok ⟨lease.id, leaseOwner.username, lease.deviceId, lease.lastHeartbeatAt, lease.expiresAt⟩

/-- `serialize_store`. -/
def serializeStore (t : Tables) (leaseAt : String → ℕ) (store : ManagedStore) :
    Except Fault StoreItem := do
  let activeLeases ← (activeStoreLeases t.leases store.id leaseAt).mapM (serializeLease t)
  match t.nodes.get? store.edgeNodeId with
  | none => .error .uncaught
  | some node =>
    .ok
      { id := store.id
        label := store.label
        ownerUserId := store.ownerUserId
        edgeNodeId := store.edgeNodeId
        edgeNodeName := node.name
        enabled := store.enabled
        activeLease := activeLeases.head?
        activeLeases := activeLeases
        activeConnectionCount := activeLeases.length
        expectedEgressIps := node.expectedPublicIpv4.toList.filter fun ip => ip ≠ ""
        health := node }

/-- `admin_stores`; what it writes is not committed. -/
def adminStores (t : Tables) (leaseAt : String → ℕ) : Except Fault (List StoreItem) :=
  (t.stores.rows.insertionSort fun a b => a.id ≤ b.id).mapM (serializeStore t leaseAt)

def createManagedStore (t : Tables) (actor : Actor) (body : ManagedStoreCreateBody) (newId : ℕ) :
    Except Fault (Tables × Except Fault StoreItem) := do
  if t.stores.rows.any fun s => s.label == body.label then
    .error (.http 409 "Store already exists")
  else do
    validateStoreLinks t.leaseDb.toDb body.ownerUserId (some body.edgeNodeId)
    let store : ManagedStore :=
      ⟨newId, body.label, body.ownerUserId, body.edgeNodeId, body.enabled⟩
    let stores ← inserted store t.stores
    let t := { t with stores := stores }.audit actor "managed_store.created" "managed_store"
      (decimal newId)
    .ok (t, serializeStore t actor.leaseAt store)

/-- What a command commits. -/
def runCommand (t : Tables) (actor : Actor) : Command → Except Fault Tables
  | .createUser username passwordHash newId =>
    (createUser t actor username passwordHash newId).map Prod.fst
  | .replaceUserEdgeNodes userId body firstId =>
    (replaceUserEdgeNodes t actor userId body firstId).map Prod.fst
  | .createEdgeCapability nodeId body newId =>
    (createEdgeCapability t actor nodeId body newId).map Prod.fst
  | .updateEdgeCapability capabilityId body =>
    (updateEdgeCapability t actor capabilityId body).map Prod.fst
  | .deleteEdgeCapability capabilityId => (deleteEdgeCapability t actor capabilityId).map Prod.fst
  | .createManagedStore body newId => (createManagedStore t actor body newId).map Prod.fst
  | .deleteManagedStore storeId =>
    (deleteManagedStore t.leaseDb actor storeId).map fun out => t.withLeaseDb out.1
  | .forceDisconnectManagedStore storeId now =>
    (forceDisconnectManagedStore t.leaseDb actor storeId now).map fun out => t.withLeaseDb out.1
  | .forceDisconnectStoreLease leaseId now =>
    (forceDisconnectStoreLease t.leaseDb actor leaseId now).map fun out => t.withLeaseDb out.1

/-- `Depends(admin)`, and the command. -/
def serveCommand (call : Call) (auditAt : ℕ) (command : Command) (t : Tables) :
    Except Fault Tables := do
  let user ← currentUser t.leaseDb.toDb call
  require (user.role == .admin) (.http 403 "Administrator required")
  runCommand t ⟨user, auditAt, call.leaseAt⟩ command

/-! ## The start of the server -/

structure BootstrapNode where
  name : String
  endpoint : String
  expectedPublicIpv4 : Option String
  enabled : Bool := false
  sharedSecret : String
  newId : ℕ

structure BootstrapStore where
  name : String
  node : String
  enabled : Bool := false
  newId : ℕ

structure Topology where
  nodes : List BootstrapNode
  stores : List BootstrapStore

/-- The configuration, with the ids of new rows, new secrets and the digest of the password. -/
structure Bootstrap where
  admin : Option (String × String × ℕ)
  topology : Option Topology

/-- The first administrator, unless there is an account of the name. -/
def bootstrapAdmin (users : Table User.id) :
    Option (String × String × ℕ) → Except Fault (Table User.id)
  | none => .ok users
  | some (username, passwordHash, newId) =>
    if users.rows.any fun u => u.username == username then .ok users
    else inserted ⟨newId, username, passwordHash, .admin, true, 0, none⟩ users

/-- A node of the topology, with `nodes_by_name`. -/
def bootstrapNode (state : Table NodeRow.key × List (String × ℕ)) (item : BootstrapNode) :
    Except Fault (Table NodeRow.key × List (String × ℕ)) :=
  match state.1.rows.find? fun n => n.name = item.name with
  | some node => .ok (state.1, (item.name, node.id) :: state.2)
  | none => do
    let node : NodeRow :=
      { id := item.newId
        name := item.name
        endpoint := item.endpoint
        sharedSecret := item.sharedSecret
        enabled := item.enabled
        maintenanceMode := false
        healthStatus := .unknown
        lastSeenAt := none
        latencyMs := none
        expectedPublicIpv4 := item.expectedPublicIpv4
        status := {}
        lastError := none }
    let nodes ← inserted node state.1
    .ok (nodes, (item.name, node.id) :: state.2)

/-- The owner of the stores of the topology. -/
def pilotOwner (users : Table User.id) : Option ℕ :=
  (((users.rows.filter fun u => u.role = .admin).insertionSort fun a b => a.id ≤ b.id).head?).map
    User.id

/-- A store of the topology; a node that is not in it is a `KeyError`. -/
def bootstrapStore (nodesByName : List (String × ℕ)) (owner : Option ℕ)
    (stores : Table ManagedStore.id) (item : BootstrapStore) :
    Except Fault (Table ManagedStore.id) :=
  match nodesByName.lookup item.node with
  | none => .error .uncaught
  | some nodeId =>
    if stores.rows.any fun s => s.label == item.name then .ok stores
    else inserted ⟨item.newId, item.name, owner, nodeId, item.enabled⟩ stores

/-- The topology is applied once. -/
def applyTopology (topology : Topology) (t : Tables) : Except Fault Tables := do
  let (nodes, nodesByName) ← topology.nodes.foldlM bootstrapNode (t.registry.nodes, [])
  let stores ← topology.stores.foldlM
    (bootstrapStore nodesByName (pilotOwner t.accounts.users)) t.stores
  match Registry.Db.check { t.registry.toTables with nodes := nodes } with
  | none => .error .uncaught
  | some registry =>
    .ok { t with registry := registry, stores := stores, bootstrapped := true }

/-- What `create_app` writes. -/
def startup (bootstrap : Bootstrap) (t : Tables) : Except Fault Tables := do
  let users ← bootstrapAdmin t.accounts.users bootstrap.admin
  let t := { t with accounts := { t.accounts with users := users } }
  match bootstrap.topology with
  | some topology => if t.bootstrapped then .ok t else applyTopology topology t
  | none => .ok t

/-! ## One request after the other -/

inductive Request
  | startup (bootstrap : Bootstrap)
  | account (request : Serial.Request)
  | logout (call : Call)
  | registry (request : Handlers.Request)
  | lease (op : Op)
  | command (call : Call) (auditAt : ℕ) (command : Command)

/-- What is not committed is rolled back. -/
def settled (t : Tables) : Except Fault Tables → Tables
  | .ok t' => t'
  | .error _ => t

variable (PA : Sessions.Primitives) (PR : Registry.Primitives) (N : Names)
  (hmac : List ℕ → List ℕ → List ℕ)

/-- One request of any kind. -/
def serve (t : Tables) : Request → Tables
  | .startup bootstrap => settled t (startup bootstrap t)
  | .account request => serveAccount PA request t
  | .logout call => settled t (serveLogout call t)
  | .registry request => serveRegistry PR request t
  | .lease op => t.withLeaseDb (handle N hmac t.leaseDb op).1
  | .command call auditAt command => settled t (serveCommand call auditAt command t)

def step (t : Tables) (request : Request) : Option Tables :=
  some (serve PA PR N hmac t request)

end IdenGrid.Control.Plane
