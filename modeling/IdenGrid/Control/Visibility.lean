import IdenGrid.Lib.Join
import IdenGrid.Control.LeaseMoves

/-! # The stores that a user sees

`native_stores`, and the queries of `list_owned_stores` and `accessible_store` as joins of the
stores, their nodes and the grants. `ownedRows_eq` and `accessibleRow_eq` connect the joins with the
functions on the tables that the handlers of the leases use.

`stores_agree_iff`: the three agree exactly if no store that the user may use is on a disabled node, since
`native_stores` does not look at `enabled` of the node. -/

namespace IdenGrid.Control.Visibility

open IdenGrid.Lib.Store IdenGrid.Lib.Join IdenGrid.Lib.Results
open IdenGrid.Lib.JsonDumps (decimal)
open IdenGrid.Control.Rows IdenGrid.Control.Nodes IdenGrid.Control.Stores IdenGrid.Control.Leases

/-- The tables with the unique constraint of the grants. -/
structure VisibilityDb extends LeaseDb where
  pairs : (grants.rows.map fun g => (g.userId, g.edgeNodeId)).Nodup

/-! ## The queries -/

/-- `EdgeNode.id == ManagedStore.edge_node_id`, and what the query asks of the node. -/
def onNode (nodeOk : EdgeNode → Bool) (store : ManagedStore) (node : EdgeNode) : Bool :=
  node.id == store.edgeNodeId && nodeOk node

/-- `UserEdgeNodeGrant.edge_node_id == ManagedStore.edge_node_id`, for a user. -/
def onGrant (userId : ℕ) (store : ManagedStore) (grant : UserEdgeNodeGrant) : Bool :=
  grant.edgeNodeId == store.edgeNodeId && grant.userId == userId

/-- The stores among `stores` that are joined for a user. -/
def storeRows (db : Db) (user : User) (nodeOk : EdgeNode → Bool) (stores : List ManagedStore) :
    List ManagedStore :=
  let rows := joined (onNode nodeOk) stores db.nodes.rows
  if user.role ≠ .admin then joined (onGrant user.id) rows db.grants.rows else rows

/-- `ORDER BY managed_stores.id`. -/
def byId (stores : List ManagedStore) : List ManagedStore :=
  stores.insertionSort fun a b => a.id ≤ b.id

/-- The query of `native_stores`. -/
def nativeRows (db : Db) (user : User) : List ManagedStore :=
  byId (storeRows db user (fun _ => true) db.stores.rows)

/-- The query of `list_owned_stores`. -/
def ownedRows (db : Db) (user : User) : List ManagedStore :=
  byId (storeRows db user EdgeNode.enabled db.stores.rows)

/-- The query of `accessible_store`. -/
def accessibleRow (db : Db) (storeId : ℕ) (user : User) : Option ManagedStore :=
  (storeRows db user EdgeNode.enabled (db.stores.rows.filter fun s => s.id == storeId)).head?

/-- What `native_stores` shows of a store. -/
structure NativeStore where
  id : List ℕ
  name : String
  nodeName : String
  status : String
  healthStatus : HealthStatus
  maintenanceMode : Bool
  enabled : Bool
  expectedPublicIpv4 : Option String
  actualPublicIpv4 : Option Cell
  latencyMs : Option ℤ
  activeConnections : ℤ
  maxConnections : ℤ
  legacyProfilePath : Option String
  deriving DecidableEq, Repr

def nativeStore (store : ManagedStore) (node : EdgeNode) : NativeStore where
  id := decimal store.id
  name := store.label
  nodeName := node.name
  status := if store.enabled then "available" else "disabled"
  healthStatus := node.healthStatus
  maintenanceMode := node.maintenanceMode
  enabled := store.enabled
  expectedPublicIpv4 := node.expectedPublicIpv4
  actualPublicIpv4 := node.status.actualPublicIpv4
  latencyMs := node.latencyMs
  activeConnections := node.status.activeConnections
  maxConnections := node.status.maxConnections
  legacyProfilePath := none

/-- `native_stores`. -/
def nativeStores (db : Db) (call : Call) : Except Fault (List NativeStore) := do
  let (user, _) ← currentNativeIdentity db call
  (nativeRows db user).mapM fun store =>
    match db.nodes.get? store.edgeNodeId with
    | some node => .ok (nativeStore store node)
    | none => .error .uncaught

/-! ## The joins -/

/-- The user may use the stores of the node. -/
def MayUse (db : Db) (user : User) (nodeId : ℕ) : Prop :=
  user.role = .admin ∨ db.granted user.id nodeId = true

section Rows

variable {user : User} {nodeOk : EdgeNode → Bool} {stores : List ManagedStore}
  {store : ManagedStore}

theorem any_onNode (db : Db) : db.nodes.rows.any (onNode nodeOk store) = true ↔
    ∃ node, db.nodes.get? store.edgeNodeId = some node ∧ nodeOk node = true := by
  rw [List.any_eq_true]
  refine exists_congr fun node => ?_
  rw [Table.get?_eq_some, onNode, Bool.and_eq_true, beq_iff_eq, and_assoc]

theorem any_onGrant (db : Db) :
    db.grants.rows.any (onGrant user.id store) = db.granted user.id store.edgeNodeId := by
  unfold Db.granted
  congr 1
  funext g
  exact Bool.and_comm _ _

theorem mem_storeRows {db : Db} : store ∈ storeRows db user nodeOk stores ↔
    store ∈ stores ∧ (∃ node, db.nodes.get? store.edgeNodeId = some node ∧ nodeOk node = true) ∧
      MayUse db user store.edgeNodeId := by
  unfold storeRows MayUse
  by_cases hadmin : user.role = .admin
  · simp only [hadmin, ne_eq, not_true_eq_false, if_false, mem_joined, true_or, and_true]
    rw [← any_onNode, List.any_eq_true]
  · simp only [hadmin, ne_eq, not_false_eq_true, if_true, mem_joined, false_or]
    rw [← any_onNode, ← any_onGrant, List.any_eq_true, List.any_eq_true, and_assoc]

/-- **The joins are a selection**: the unique constraint admits one grant for a user and a node. -/
theorem storeRows_eq_filter (db : VisibilityDb) : storeRows db.toDb user nodeOk stores =
    stores.filter fun s => db.nodes.rows.any (onNode nodeOk s) &&
      (user.role == .admin || db.granted user.id s.edgeNodeId) := by
  have hnode : joined (onNode nodeOk) stores db.nodes.rows =
      stores.filter fun s => db.nodes.rows.any (onNode nodeOk s) := by
    refine joined_eq_filter fun s _ => length_partners_le (k := s.edgeNodeId) db.nodes.nodup ?_
    intro node _ h
    exact eq_of_beq (Bool.and_eq_true .. ▸ h).1
  have hgrant : ∀ rows, joined (onGrant user.id) rows db.grants.rows =
      rows.filter fun s => db.granted user.id s.edgeNodeId := by
    intro rows
    rw [joined_eq_filter fun s _ =>
      length_partners_le (k := (user.id, s.edgeNodeId)) db.pairs fun grant _ h => ?_]
    · exact List.filter_congr fun s _ => any_onGrant db.toDb
    · obtain ⟨hgn, hgu⟩ := Bool.and_eq_true .. ▸ h
      rw [eq_of_beq hgn, eq_of_beq hgu]
  unfold storeRows
  dsimp only
  rw [hgrant, hnode, List.filter_filter]
  by_cases hadmin : user.role = .admin
  · simp [hadmin]
  · have hrole : (user.role == Role.admin) = false := beq_eq_false_iff_ne.mpr hadmin
    simp [hadmin, hrole, Bool.and_comm]

/-- A store is joined once. -/
theorem nodup_storeRows (db : VisibilityDb) (hstores : (stores.map ManagedStore.id).Nodup) :
    ((storeRows db.toDb user nodeOk stores).map ManagedStore.id).Nodup := by
  rw [storeRows_eq_filter]
  exact hstores.sublist (List.filter_sublist.map _)

theorem mem_byId : store ∈ byId stores ↔ store ∈ stores := List.mem_insertionSort _

theorem nodup_byId (h : (stores.map ManagedStore.id).Nodup) :
    ((byId stores).map ManagedStore.id).Nodup :=
  ((List.perm_insertionSort _ stores).map _).nodup_iff.mpr h

/-- **`accessible_store` by a join** is the function that the handlers of the leases use. -/
theorem accessibleRow_eq (db : Db) (storeId : ℕ) (user : User) :
    accessibleRow db storeId user = accessibleStore db storeId user := by
  have hrow : ∀ s, accessibleStore db storeId user = some s ↔
      s ∈ storeRows db user EdgeNode.enabled
        (db.stores.rows.filter fun s => s.id == storeId) := by
    intro s
    rw [mem_storeRows, List.mem_filter, beq_iff_eq, accessibleStore, Option.filter_eq_some_iff,
      Table.get?_eq_some, Bool.and_eq_true, Bool.or_eq_true, beq_iff_eq, Option.any_eq_true]
    rfl
  unfold accessibleRow
  rcases hhead : (storeRows db user EdgeNode.enabled
      (db.stores.rows.filter fun s => s.id == storeId)).head? with _ | s
  · rw [List.head?_eq_none_iff] at hhead
    rcases hstore : accessibleStore db storeId user with _ | s
    · rfl
    · have := (hrow s).mp hstore
      rw [hhead] at this
      exact absurd this List.not_mem_nil
  · exact ((hrow s).mpr (List.mem_of_head? hhead)).symm

/-- **The query of `list_owned_stores`** is the list that it serializes. -/
theorem ownedRows_eq (db : VisibilityDb) (user : User) :
    ownedRows db.toDb user = accessibleStores db.toDb user := by
  unfold ownedRows accessibleStores byId
  rw [storeRows_eq_filter]
  congr 1
  refine List.filter_congr fun s hs => ?_
  have hget : db.stores.get? s.id = some s := Table.get?_eq_some.mpr ⟨hs, rfl⟩
  rw [Bool.eq_iff_iff, Bool.and_eq_true, any_onNode, accessibleStore, hget, Option.isSome_filter,
    Option.any_some, Bool.and_eq_true, Option.any_eq_true]

theorem mem_nativeRows {db : Db} : store ∈ nativeRows db user ↔
    store ∈ db.stores.rows ∧ (∃ node, db.nodes.get? store.edgeNodeId = some node) ∧
      MayUse db user store.edgeNodeId := by
  rw [nativeRows, mem_byId, mem_storeRows]
  simp only [and_true]

theorem mem_ownedRows {db : Db} : store ∈ ownedRows db user ↔
    store ∈ db.stores.rows ∧
      (∃ node, db.nodes.get? store.edgeNodeId = some node ∧ node.enabled = true) ∧
        MayUse db user store.edgeNodeId := by
  rw [ownedRows, mem_byId, mem_storeRows]

end Rows

/-! ## The lists -/

section Lists

variable {user : User}

/-- `native_stores` shows every store that it joins. -/
theorem nativeStores_eq {db : Db} {call : Call} {session : DeviceSession}
    (hidentity : currentNativeIdentity db call = .ok (user, session)) :
    ∃ items, nativeStores db call = .ok items ∧
      items.map NativeStore.id = (nativeRows db user).map fun s => decimal s.id := by
  have hitem : ∀ s ∈ nativeRows db user, ∃ item, (match db.nodes.get? s.edgeNodeId with
      | some node => (.ok (nativeStore s node) : Except Fault NativeStore)
      | none => .error .uncaught) = .ok item ∧ NativeStore.id item = decimal s.id := by
    intro s hs
    obtain ⟨node, hnode⟩ := (mem_nativeRows.mp hs).2.1
    exact ⟨nativeStore s node, by rw [hnode], rfl⟩
  obtain ⟨items, hitems, hids⟩ := mapM_map hitem
  exact ⟨items, bind_eq_ok.mpr ⟨_, hidentity, hitems⟩, hids⟩

theorem serializeOwnerStore_isOk (userId : ℕ) (clock : String → ℕ) {store : ManagedStore}
    {node : EdgeNode} (db : LeaseDb) (h : db.nodes.get? store.edgeNodeId = some node) :
    ∃ item, serializeOwnerStore db store userId clock =
      .ok (expireStore db store.id clock, item) ∧ item.id = store.id := by
  unfold serializeOwnerStore
  rw [h]
  exact ⟨_, rfl, rfl⟩

theorem serializeStores_ids (userId : ℕ) (clock : String → ℕ) (db : LeaseDb)
    (stores : List ManagedStore) (h : ∀ s ∈ stores, ∃ node, db.nodes.get? s.edgeNodeId = some node) :
    ∃ db' items, serializeStores userId clock db stores = .ok (db', items) ∧
      items.map OwnerStore.id = stores.map ManagedStore.id := by
  induction stores generalizing db with
  | nil => exact ⟨db, [], rfl, rfl⟩
  | cons store stores ih =>
    obtain ⟨⟨node, hnode⟩, hstores⟩ := List.forall_mem_cons.mp h
    obtain ⟨db', items, hitems, hids⟩ := ih (expireStore db store.id clock) hstores
    obtain ⟨item, hitem, hid⟩ := serializeOwnerStore_isOk userId clock db hnode
    refine ⟨db', item :: items, ?_, ?_⟩
    · rw [serializeStores, bind_eq_ok]
      refine ⟨_, hitem, bind_eq_ok.mpr ⟨_, hitems, rfl⟩⟩
    · rw [List.map_cons, List.map_cons, hids, hid]

/-- `list_owned_stores` shows every store that it joins. -/
theorem listOwnedStores_eq (db : VisibilityDb) {call : Call}
    (hcaller : currentUser db.toDb call = .ok user) :
    ∃ db' items, listOwnedStores db.toLeaseDb call = .ok (db', items) ∧
      items.map OwnerStore.id = (ownedRows db.toDb user).map ManagedStore.id := by
  obtain ⟨db', items, hitems, hids⟩ := serializeStores_ids user.id call.leaseAt db.toLeaseDb
    (ownedRows db.toDb user) fun s hs => (mem_ownedRows.mp hs).2.1.imp fun _ h => h.1
  refine ⟨db', items, ?_, hids⟩
  rw [ownedRows_eq] at hitems
  exact bind_eq_ok.mpr ⟨user, hcaller, hitems⟩

theorem decimal_injective : Function.Injective decimal :=
  Function.LeftInverse.injective Lib.JsonDumps.ofDecimal_decimal

theorem nodup_nativeIds (db : VisibilityDb) (user : User) :
    ((nativeRows db.toDb user).map fun s => decimal s.id).Nodup := by
  have hrows : ((storeRows db.toDb user (fun _ => true) db.stores.rows).map ManagedStore.id).Nodup :=
    nodup_storeRows db db.stores.nodup
  have := (nodup_byId hrows).map decimal_injective
  rwa [List.map_map] at this

theorem nodup_ownedIds (db : VisibilityDb) (user : User) :
    ((ownedRows db.toDb user).map ManagedStore.id).Nodup :=
  nodup_byId (nodup_storeRows db db.stores.nodup)

/-- `accessible_store` succeeds for the stores of the list. -/
theorem mem_ownedIds (db : VisibilityDb) (user : User) (storeId : ℕ) :
    storeId ∈ (ownedRows db.toDb user).map ManagedStore.id ↔
      ∃ store, requireStore db.toDb storeId user = .ok store := by
  rw [ownedRows_eq, List.mem_map]
  constructor
  · rintro ⟨store, hstore, rfl⟩
    rw [accessibleStores, List.mem_insertionSort, List.mem_filter] at hstore
    obtain ⟨row, hrow⟩ := Option.isSome_iff_exists.mp hstore.2
    exact ⟨row, by rw [requireStore, hrow]⟩
  · rintro ⟨store, hstore⟩
    have hrow := requireStore_eq_ok hstore
    obtain ⟨hmem, hid, -⟩ := accessibleStore_eq_some hrow
    refine ⟨store, ?_, hid⟩
    rw [accessibleStores, List.mem_insertionSort, List.mem_filter, hid, hrow]
    exact ⟨hmem, rfl⟩

/-- The three ways to the stores of a user agree. `joined`: the query of `accessible_store` finds what
the handlers of the leases look up. -/
structure Agree (db : Db) (user : User) (natives : List NativeStore) (owned : List OwnerStore) :
    Prop where
  natives_nodup : (natives.map NativeStore.id).Nodup
  owned_nodup : (owned.map OwnerStore.id).Nodup
  same : ∀ i, i ∈ natives.map NativeStore.id ↔ i ∈ (owned.map OwnerStore.id).map decimal
  access : ∀ storeId, storeId ∈ owned.map OwnerStore.id ↔
    ∃ store, requireStore db storeId user = .ok store
  joined : ∀ storeId, accessibleRow db storeId user = accessibleStore db storeId user

/-- No store that the user may use is on a disabled node. -/
def NoneDisabled (db : Db) (user : User) : Prop :=
  ∀ store ∈ db.stores.rows, MayUse db user store.edgeNodeId →
    ∀ node, db.nodes.get? store.edgeNodeId = some node → node.enabled = true

theorem same_iff (db : Db) (user : User) :
    (∀ i, i ∈ (nativeRows db user).map (fun s => decimal s.id) ↔
      i ∈ ((ownedRows db user).map ManagedStore.id).map decimal) ↔ NoneDisabled db user := by
  constructor
  · intro h store hstore hmay node hnode
    have hnative : decimal store.id ∈ (nativeRows db user).map fun s => decimal s.id :=
      List.mem_map.mpr ⟨store, mem_nativeRows.mpr ⟨hstore, ⟨node, hnode⟩, hmay⟩, rfl⟩
    obtain ⟨_, hmem, hid⟩ := List.mem_map.mp ((h _).mp hnative)
    obtain ⟨store', howned, rfl⟩ := List.mem_map.mp hmem
    obtain ⟨hstore', ⟨node', hnode', henabled⟩, -⟩ := mem_ownedRows.mp howned
    obtain rfl := Table.eq_of_key hstore' hstore (decimal_injective hid)
    obtain rfl := Option.some.inj (hnode'.symm.trans hnode)
    exact henabled
  · intro h i
    have hrow : ∀ store, store ∈ nativeRows db user ↔ store ∈ ownedRows db user := by
      intro store
      rw [mem_nativeRows, mem_ownedRows]
      refine and_congr_right fun hstore => ⟨?_, ?_⟩
      · rintro ⟨⟨node, hnode⟩, hmay⟩
        exact ⟨⟨node, hnode, h store hstore hmay node hnode⟩, hmay⟩
      · rintro ⟨⟨node, hnode, -⟩, hmay⟩
        exact ⟨⟨node, hnode⟩, hmay⟩
    simp only [List.mem_map, hrow, exists_exists_and_eq_and]

/-- **The lists of stores**: `native_stores`, `list_owned_stores` and `accessible_store` agree
exactly if no store that the user may use is on a disabled node. -/
theorem stores_agree_iff (db : VisibilityDb) {session : DeviceSession} {call call' : Call}
    (hidentity : currentNativeIdentity db.toDb call = .ok (user, session))
    (hcaller : currentUser db.toDb call' = .ok user) :
    ∃ natives db' owned, nativeStores db.toDb call = .ok natives ∧
      listOwnedStores db.toLeaseDb call' = .ok (db', owned) ∧
      (Agree db.toDb user natives owned ↔ NoneDisabled db.toDb user) := by
  obtain ⟨natives, hnatives, hnids⟩ := nativeStores_eq hidentity
  obtain ⟨db', owned, howned, hoids⟩ := listOwnedStores_eq db hcaller
  refine ⟨natives, db', owned, hnatives, howned, ?_, ?_⟩
  · intro h
    refine (same_iff db.toDb user).mp fun i => ?_
    rw [← hnids, ← hoids]
    exact h.same i
  · intro h
    constructor
    · rw [hnids]
      exact nodup_nativeIds db user
    · rw [hoids]
      exact nodup_ownedIds db user
    · intro i
      rw [hnids, hoids]
      exact (same_iff db.toDb user).mpr h i
    · intro storeId
      rw [hoids]
      exact mem_ownedIds db user storeId
    · exact fun storeId => accessibleRow_eq db.toDb storeId user

end Lists

/-! ## A disabled node -/

/-- A member with a grant on a node, its store, and a signed in Mac. -/
def memberTables (nodeEnabled : Bool) : VisibilityDb where
  users := .single ⟨2, "member", "hash", .member, true, 0, none⟩
  sessions := .single ⟨"session", 2, "mac", "Mac", .macos, "hash", 0, 0, 0, seconds 3600, none⟩
  nodes := .single
    { id := 1
      name := "edge-a"
      endpoint := "https://edge-a.example"
      sharedSecret := "edge-ticket-secret-edge-ticket-secret"
      enabled := nodeEnabled
      maintenanceMode := false
      healthStatus := if nodeEnabled then .online else .disabled
      lastSeenAt := none
      latencyMs := none
      expectedPublicIpv4 := none
      status := {}
      lastError := none }
  stores := .single ⟨1, "Store", none, 1, true⟩
  grants := .single ⟨1, 2, 1⟩
  leases := .empty
  audits := .empty
  capabilities := .empty
  pairs := List.nodup_singleton _

def nativeCall : Call where
  bearer := .native ⟨2, 0, "session", 0, 900⟩
  authAt := 0
  leaseAt _ := 0

theorem agree_enabled : ∃ natives db' owned,
    nativeStores (memberTables true).toDb nativeCall = .ok natives ∧
      listOwnedStores (memberTables true).toLeaseDb nativeCall = .ok (db', owned) ∧
      (Agree (memberTables true).toDb ⟨2, "member", "hash", .member, true, 0, none⟩ natives owned ↔
        NoneDisabled (memberTables true).toDb ⟨2, "member", "hash", .member, true, 0, none⟩) := by
  have hidentity : currentNativeIdentity (memberTables true).toDb nativeCall =
      .ok (⟨2, "member", "hash", .member, true, 0, none⟩,
        ⟨"session", 2, "mac", "Mac", .macos, "hash", 0, 0, 0, seconds 3600, none⟩) := by
    decide +kernel
  exact stores_agree_iff (memberTables true) hidentity (by decide +kernel)

/-- The store of a disabled node is listed, as available, but is not found. -/
theorem disabled_listed :
    (∃ item, nativeStores (memberTables false).toDb nativeCall = .ok [item] ∧
      item.id = decimal 1 ∧ item.status = "available") ∧
    (∃ db', listOwnedStores (memberTables false).toLeaseDb nativeCall = .ok (db', [])) ∧
    requireStore (memberTables false).toDb 1 ⟨2, "member", "hash", .member, true, 0, none⟩ =
      .error (.http 404 "Store not found") :=
  ⟨⟨_, rfl, rfl, rfl⟩, ⟨_, rfl⟩, rfl⟩

end IdenGrid.Control.Visibility
