import IdenGrid.Lib.References
import IdenGrid.Control.BrowserAccess
import IdenGrid.Control.Lifecycle
import IdenGrid.Control.Links
import IdenGrid.Control.Plane
import IdenGrid.Control.Visibility

/-! # No row refers to one that is not there

`Closed`: every store, grant, capability, enrollment and registration that names a node names an
existing one, and every lease an existing store and user. Every request keeps it, although the
database does not enforce it: what refers to a row goes with it, or keeps it from going. -/

namespace IdenGrid.Control.Closure

open IdenGrid.Lib.Run IdenGrid.Lib.Store IdenGrid.Lib.WriteBack IdenGrid.Lib.Results
open IdenGrid.Lib.References
open IdenGrid.Control.Rows IdenGrid.Control.Nodes IdenGrid.Control.Accounts
open IdenGrid.Control.Registry IdenGrid.Control.NodeAdmin IdenGrid.Control.Targets
open IdenGrid.Control.Links
open IdenGrid.Control.Stores hiding Db
open IdenGrid.Control.Leases
open IdenGrid.Control.Plane

structure Closed (t : Plane.Tables) : Prop where
  stores : Refers (fun s => some s.edgeNodeId) t.stores.rows NodeRow.key t.registry.nodes.rows
  grants : Refers (fun g => some g.edgeNodeId) t.grants.rows NodeRow.key t.registry.nodes.rows
  capabilities : Refers (fun c => some c.edgeNodeId) t.capabilities.rows NodeRow.key
    t.registry.nodes.rows
  enrollments : Refers (fun e => some e.edgeNodeId) t.registry.enrollments.rows NodeRow.key
    t.registry.nodes.rows
  registrations : Refers (fun r => r.edgeNodeId) t.registry.registrations.rows NodeRow.key
    t.registry.nodes.rows
  leaseStores : Refers (fun l => some l.storeId) t.leases.rows ManagedStore.id t.stores.rows
  leaseUsers : Refers (fun l => some l.ownerUserId) t.leases.rows User.id t.accounts.users.rows

/-- What the runs keep: the enrollments and registrations also hang together as `Linked` says. -/
structure Invariant (t : Plane.Tables) : Prop extends Closed t where
  linked : Linked t.registry.nodes.rows t.registry.enrollments.rows t.registry.registrations.rows

section Linked

variable {ns : List NodeRow} {es : List EnrollmentRow} {rs : List RegistrationRow}

theorem refers_enrollments (h : Linked ns es rs) :
    Refers (fun e => some e.edgeNodeId) es NodeRow.key ns := by
  rintro e he k ⟨⟩
  exact h.enrollmentNode e he

theorem refers_registrations (h : Linked ns es rs) :
    Refers (fun r => r.edgeNodeId) rs NodeRow.key ns := by
  intro r hr k hk
  obtain ⟨e, he, rfl⟩ := h.registrationEnrollment r hr k hk
  exact h.enrollmentNode e he

end Linked

/-- The five references that `Linked` does not speak of are enough. -/
theorem invariant_of {t : Plane.Tables}
    (hlinked : Linked t.registry.nodes.rows t.registry.enrollments.rows
      t.registry.registrations.rows)
    (hstores : Refers (fun s => some s.edgeNodeId) t.stores.rows NodeRow.key
      t.registry.nodes.rows)
    (hgrants : Refers (fun g => some g.edgeNodeId) t.grants.rows NodeRow.key
      t.registry.nodes.rows)
    (hcapabilities : Refers (fun c => some c.edgeNodeId) t.capabilities.rows NodeRow.key
      t.registry.nodes.rows)
    (hleaseStores : Refers (fun l => some l.storeId) t.leases.rows ManagedStore.id t.stores.rows)
    (hleaseUsers : Refers (fun l => some l.ownerUserId) t.leases.rows User.id
      t.accounts.users.rows) : Invariant t where
  stores := hstores
  grants := hgrants
  capabilities := hcapabilities
  enrollments := refers_enrollments hlinked
  registrations := refers_registrations hlinked
  leaseStores := hleaseStores
  leaseUsers := hleaseUsers
  linked := hlinked

theorem invariant_empty : Invariant .empty :=
  invariant_of linked_empty .nil .nil .nil .nil .nil

/-! ## The registry -/

section Registry

variable {P : Registry.Primitives} {db : Registry.Db}

/-- A request that deletes no node keeps the nodes. -/
theorem keeps_nodes {req : Handlers.Request} {ns : List NodeRow} {es : List EnrollmentRow}
    {rs : List RegistrationRow} (he : Fleet.Effect P db req ns es rs) :
    Keeps NodeRow.key db.nodes.rows ns ∨
      ∃ nodeId, req = .deleteEdgeNode nodeId none ∧
        ns = db.nodes.rows.filter fun n => n.key ≠ nodeId := by
  cases he with
  | deleteNode nodeId hnode => exact Or.inr ⟨nodeId, rfl, rfl⟩
  | createNode | createEnrollment | accept => exact Or.inl (.append _)
  | updateNode nodeId body loaded new checked =>
    obtain ⟨-, hpatch, -, -⟩ := updateEdgeNode_eq_ok checked
    refine Or.inl (.map fun n _ => ?_)
    exact atKey_keep (c := fun n : NodeRow => n.id) fun hk =>
      (patch_eq_some hpatch).1.trans hk.symm
  | report authorization body now item node valid enables =>
    refine Or.inl (.map fun n _ => ?_)
    rcases node with _ | a
    · rfl
    · exact atKey_keep (c := fun n : NodeRow => n.id) fun _ => rfl
  | revoke =>
    exact Or.inl (.map fun n _ => atKey_keep (c := fun n : NodeRow => n.id) fun _ => rfl)
  | monitor inputs => exact Or.inl (.map fun n _ => nodeAfter_id inputs n)
  | quiet | listEnrollments | expireEnrollment | claimEnrollment | regenerate | register | prove
  | expireRegistration | sweep | reject | claimRegistration => exact Or.inl (.refl _)

/-- A deletion that goes through says so. -/
theorem serve_deleteEdgeNode (db : Registry.Db) (nodeId : ℕ) (boundStore : Option String) :
    (Handlers.serve P (.deleteEdgeNode nodeId boundStore) db).2 = .deleted ∨
      (Handlers.serve P (.deleteEdgeNode nodeId boundStore) db).1 = db := by
  unfold Handlers.serve
  split
  · next result h =>
    obtain ⟨plan, hplan, hattempt⟩ := bind_eq_ok.mp h
    obtain ⟨db', answer⟩ := result
    have hcommit := Handlers.Plan.attempt_eq_ok P hattempt
    obtain ⟨handler, hbegin, hready⟩ := bind_eq_ok.mp hplan
    obtain ⟨deletion, -, rfl⟩ := map_eq_ok.mp hbegin
    obtain rfl := Except.ok.inj hready
    obtain ⟨tables, -, htables⟩ := bind_eq_ok.mp hcommit
    exact Or.inl (congrArg Prod.snd (Except.ok.inj htables)).symm
  · exact Or.inr rfl

/-- What goes with a node, if anything goes. -/
theorem cascade_sub (t : Plane.Tables) (req : Handlers.Request) :
    (∀ g ∈ (t.cascade req).grants.rows, g ∈ t.grants.rows) ∧
      (∀ c ∈ (t.cascade req).capabilities.rows, c ∈ t.capabilities.rows) ∧
      t.cascade req = { t with
        grants := (t.cascade req).grants
        capabilities := (t.cascade req).capabilities } := by
  cases req with
  | deleteEdgeNode nodeId label =>
    exact ⟨fun g hg => (mem_delete.mp hg).1, fun c hc => (mem_delete.mp hc).1, rfl⟩
  | _ => exact ⟨fun _ hg => hg, fun _ hc => hc, rfl⟩

theorem bound_eq_delete {t : Plane.Tables} {req : Handlers.Request} {nodeId : ℕ}
    (h : bound t req = .deleteEdgeNode nodeId none) :
    (∃ label, req = .deleteEdgeNode nodeId label) ∧
      ∀ s ∈ t.stores.rows, s.edgeNodeId ≠ nodeId := by
  cases req with
  | deleteEdgeNode nodeId' label =>
    obtain ⟨rfl, hnone⟩ : nodeId' = nodeId ∧ boundStore t nodeId' = none := by
      simpa [bound] using h
    refine ⟨⟨label, rfl⟩, fun s hs hnode => ?_⟩
    rw [boundStore, Option.map_eq_none_iff, List.head?_eq_none_iff] at hnone
    have hmem : s ∈ (t.stores.rows.filter fun s => s.edgeNodeId = nodeId').insertionSort fun a b =>
        a.id ≤ b.id :=
      (List.mem_insertionSort _).mpr (List.mem_filter.mpr ⟨hs, decide_eq_true hnode⟩)
    rw [hnone] at hmem
    exact absurd hmem List.not_mem_nil
  | _ => exact absurd h (by simp [bound])

theorem invariant_registry {t : Plane.Tables} (h : Invariant t) (req : Handlers.Request) :
    Invariant (serveRegistry P req t) := by
  have heff := Fleet.serve_effect (P := P) t.registry (bound t req)
  have hlinked := h.linked.effect heff
  rcases hr : Handlers.serve P (bound t req) t.registry with ⟨registry, answer⟩
  rw [hr] at heff hlinked
  have hkept (hkeep : Keeps NodeRow.key t.registry.nodes.rows registry.nodes.rows) :
      Invariant (serveRegistry P req t) := by
    obtain ⟨hgrants, hcapabilities, hrest⟩ := cascade_sub { t with registry := registry } req
    unfold serveRegistry
    rw [hr]
    cases answer with
    | deleted =>
      change Invariant (Plane.Tables.cascade { t with registry := registry } req)
      rw [hrest]
      exact invariant_of hlinked (h.stores.keep hkeep) ((h.grants.subset hgrants).keep hkeep)
        ((h.capabilities.subset hcapabilities).keep hkeep) h.leaseStores h.leaseUsers
    | _ =>
      exact invariant_of hlinked (h.stores.keep hkeep) (h.grants.keep hkeep)
        (h.capabilities.keep hkeep) h.leaseStores h.leaseUsers
  rcases keeps_nodes heff with hkeep | ⟨nodeId, hreq, hns⟩
  · exact hkept hkeep
  · obtain ⟨⟨label, rfl⟩, hfree⟩ := bound_eq_delete hreq
    rw [hreq] at hr
    rcases serve_deleteEdgeNode (P := P) t.registry nodeId none with hdone | hsame
    · obtain rfl : answer = .deleted := (congrArg Prod.snd hr).symm.trans hdone
      have hns : registry.nodes.rows = t.registry.nodes.rows.filter fun n => n.key ≠ nodeId := hns
      have hstores : Refers (fun s => some s.edgeNodeId) t.stores.rows NodeRow.key
          registry.nodes.rows := by
        rw [hns]
        exact h.stores.delete fun s hs => ⟨hs, fun hnode => hfree s hs (Option.some.inj hnode)⟩
      have hgrants : Refers (fun g => some g.edgeNodeId)
          (delete (fun g => g.edgeNodeId == nodeId) t.grants).rows NodeRow.key
          registry.nodes.rows := by
        rw [hns]
        refine h.grants.delete fun g hg => ?_
        obtain ⟨hg, hne⟩ := mem_delete.mp hg
        exact ⟨hg, fun hnode => beq_eq_false_iff_ne.mp hne (Option.some.inj hnode)⟩
      have hcapabilities : Refers (fun c => some c.edgeNodeId)
          (delete (fun c => c.edgeNodeId == nodeId) t.capabilities).rows NodeRow.key
          registry.nodes.rows := by
        rw [hns]
        refine h.capabilities.delete fun c hc => ?_
        obtain ⟨hc, hne⟩ := mem_delete.mp hc
        exact ⟨hc, fun hnode => beq_eq_false_iff_ne.mp hne (Option.some.inj hnode)⟩
      unfold serveRegistry
      rw [hreq, hr]
      exact invariant_of hlinked hstores hgrants hcapabilities h.leaseStores h.leaseUsers
    · obtain rfl : registry = t.registry := (congrArg Prod.fst hr).symm.trans hsame
      exact hkept (.refl _)

end Registry

/-! ## The accounts -/

section Accounts

variable {P : Sessions.Primitives}

/-- No account is ever removed. -/
theorem keeps_users (req : Serial.Request) (db : Serial.Db) :
    Keeps User.id db.users.rows (Serial.handle P req db).1.users.rows := by
  cases req with
  | nativeLogin body sourceIp inputs =>
    rw [Serial.handle, BrowserAccess.nativeLogin_users]
    exact .refl _
  | nativeRefresh token now accessTime secret =>
    rw [Serial.handle, BrowserAccess.nativeRefresh_users]
    exact .refl _
  | nativeLogout payload now =>
    rw [Serial.handle, BrowserAccess.nativeLogout_users]
    exact .refl _
  | changeUserPassword userId newHash now =>
    rw [Serial.handle, Serial.changePassword]
    split
    · exact .refl _
    · exact .put _
  | setUserEnabled userId enabled now =>
    rw [Serial.handle, Serial.setEnabled]
    split
    · exact .refl _
    · dsimp only
      split_ifs <;> exact .put _
  | disableUser userId =>
    rw [Serial.handle, Serial.disable]
    split
    · exact .refl _
    · exact .put _
  | deleteUser userId suffix now =>
    rw [Serial.handle, Serial.delete]
    split
    · exact .refl _
    · exact .put _

theorem releaseOf_refs (userId now : ℕ) (l : StoreConnectionLease) :
    (releaseOf userId now l).storeId = l.storeId ∧
      (releaseOf userId now l).ownerUserId = l.ownerUserId := by
  unfold releaseOf
  split_ifs <;> exact ⟨rfl, rfl⟩

theorem disown_node (userId : ℕ) (s : ManagedStore) :
    (disown userId s).edgeNodeId = s.edgeNodeId := by
  unfold disown
  split_ifs <;> rfl

/-- Cutting off the leases of a user. -/
theorem Invariant.releaseLeases {t : Plane.Tables} (h : Invariant t) (userId now : ℕ) :
    Invariant (t.withLeaseDb (releaseLeases userId now t.leaseDb)) := by
  refine invariant_of h.linked h.stores h.grants h.capabilities ?_ ?_
  · exact h.leaseStores.map fun l _ => Or.inl (congrArg some (releaseOf_refs userId now l).1)
  · exact h.leaseUsers.map fun l _ => Or.inl (congrArg some (releaseOf_refs userId now l).2)

theorem Invariant.follow {t : Plane.Tables} (h : Invariant t) (req : Serial.Request) :
    Invariant (t.follow req) := by
  cases req with
  | changeUserPassword userId newHash now => exact h.releaseLeases userId now
  | deleteUser userId suffix now =>
    have hreleased := h.releaseLeases userId now
    refine invariant_of h.linked ?_ (h.grants.subset fun g hg => (mem_delete.mp hg).1)
      h.capabilities (hreleased.leaseStores.keep (.mapRows (disown_id userId))) hreleased.leaseUsers
    exact h.stores.map fun s _ => Or.inl (congrArg some (disown_node userId s))
  | _ => exact h

/-- Other accounts, but none less. -/
theorem Invariant.accounts {t : Plane.Tables} (h : Invariant t) (accounts : Serial.Db)
    (hkeep : Keeps User.id t.accounts.users.rows accounts.users.rows) :
    Invariant { t with accounts := accounts } :=
  invariant_of h.linked h.stores h.grants h.capabilities h.leaseStores (h.leaseUsers.keep hkeep)

theorem invariant_account {t : Plane.Tables} (h : Invariant t) (req : Serial.Request) :
    Invariant (serveAccount P req t) := by
  have hkeep := keeps_users (P := P) req t.accounts
  unfold serveAccount
  rcases hhandle : Serial.handle P req t.accounts with ⟨accounts, answer⟩
  rw [hhandle] at hkeep
  cases answer with
  | ok => exact (h.accounts _ hkeep).follow req
  | _ => exact h.accounts _ hkeep

theorem invariant_logout {t t' : Plane.Tables} (h : Invariant t) {call : Call}
    (hserve : serveLogout call t = .ok t') : Invariant t' := by
  obtain ⟨user, -, hserve⟩ := bind_eq_ok.mp hserve
  obtain rfl := Except.ok.inj hserve
  exact h.accounts _ (.put _)

end Accounts

/-! ## The leases -/

section Leases

variable {db db' : LeaseDb} {op : Op}

/-- The store of a lease that is taken. -/
theorem handle_takes (N : Names) (hmac : List ℕ → List ℕ → List ℕ) (db : LeaseDb) {call : LeaseCall}
    (htakes : op.takes = some call) :
    (handle N hmac db op).1 = db ∨ ∃ s ∈ db.stores.rows, s.id = call.storeId := by
  have hrequired {user : User} {store : ManagedStore}
      (h : requireStore db.toDb call.storeId user = .ok store) :
      ∃ s ∈ db.stores.rows, s.id = call.storeId := by
    obtain ⟨hmem, hid, -⟩ := accessibleStore_eq_some (requireStore_eq_ok h)
    exact ⟨store, hmem, hid⟩
  cases op with
  | connect call' body =>
    obtain rfl := Option.some.inj htakes
    change (settle db .connected (connectStore db call' body)).1 = db ∨ _
    rcases h : connectStore db call' body with fault | ⟨after, response⟩
    · exact Or.inl rfl
    · obtain ⟨user, store, node, -, hstore, -⟩ := connectStore_eq_ok h
      exact Or.inr (hrequired hstore)
  | preflight call' =>
    obtain rfl := Option.some.inj htakes
    change (settle db .preflighted (nativeStorePreflight db call')).1 = db ∨ _
    rcases h : nativeStorePreflight db call' with fault | ⟨after, response⟩
    · exact Or.inl rfl
    · obtain ⟨user, session, store, node, -, hstore, -⟩ := nativeStorePreflight_eq_ok h
      exact Or.inr (hrequired hstore)
  | _ => exact absurd htakes (by simp [Op.takes])

theorem currentUser_mem {call : Call} {user : User} (h : currentUser db.toDb call = .ok user) :
    user ∈ db.users.rows := by
  unfold currentUser at h
  split at h
  · next user' hbearer =>
    obtain rfl := Except.ok.inj h
    obtain ⟨⟨id, hget⟩, -⟩ := bearerUser_live hbearer
    exact (Table.get?_eq_some.mp hget).1
  · exact absurd h (by simp)

theorem currentNativeIdentity_mem {call : Call} {user : User} {session : DeviceSession}
    (h : currentNativeIdentity db.toDb call = .ok (user, session)) : user ∈ db.users.rows := by
  unfold currentNativeIdentity at h
  split at h
  · dsimp only at h
    split at h
    · next identity hidentity =>
      obtain rfl := Except.ok.inj h
      obtain ⟨-, hget, -⟩ := nativeAccessIdentity_eq_some hidentity
      exact (Table.get?_eq_some.mp hget).1
    · exact absurd h (by simp)
  · exact absurd h (by simp)

/-- The owner of a lease that is taken. -/
theorem takes_user (db : LeaseDb) {call : LeaseCall} {user : User} (htakes : op.takes = some call)
    (huser : op.user db = some user) : user ∈ db.users.rows := by
  cases op with
  | connect call' body => exact currentUser_mem (eq_ok_of_toOption huser)
  | preflight call' =>
    obtain ⟨⟨user', session⟩, hidentity, rfl⟩ := map_eq_ok.mp (eq_ok_of_toOption huser)
    exact currentNativeIdentity_mem hidentity
  | _ => exact absurd htakes (by simp [Op.takes])

/-- The node of a store that is changed. -/
theorem updateManagedStore_node {call : UpdateCall} {changed : ManagedStore}
    (h : updateManagedStore db call = .ok (db', changed)) :
    ∃ node, db.nodes.get? changed.edgeNodeId = some node := by
  obtain ⟨user, -, h⟩ := bind_eq_ok.mp h
  obtain ⟨-, -, h⟩ := bind_eq_ok.mp h
  split at h
  · exact absurd h (by simp)
  next store hstore =>
  obtain ⟨-, -, h⟩ := bind_eq_ok.mp h
  obtain ⟨-, -, h⟩ := bind_eq_ok.mp h
  obtain ⟨⟨⟩, hlinks, h⟩ := bind_eq_ok.mp h
  obtain ⟨after, happly, h⟩ := bind_eq_ok.mp h
  obtain ⟨-, rfl⟩ := Prod.mk.inj (Except.ok.inj h)
  obtain ⟨-, -, hlinks⟩ := bind_eq_ok.mp hlinks
  have hnode := require_eq_ok hlinks
  obtain ⟨nodeId, hid, hsome⟩ := (Option.any_eq_true _ _).mp hnode
  obtain ⟨node, hnode⟩ := Option.isSome_iff_exists.mp hsome
  refine ⟨node, ?_⟩
  unfold StoreChanges.apply at happly
  split at happly
  · next label nodeId' enabled hlabel hchanged henabled =>
    rw [← Except.ok.inj happly]
    obtain rfl := Option.some.inj (hid.symm.trans hchanged)
    exact hnode
  · exact absurd happly (by simp)

theorem nodes_get? (t : Plane.Tables) {nodeId : ℕ} {node : EdgeNode}
    (h : t.nodes.get? nodeId = some node) :
    ∃ row ∈ t.registry.nodes.rows, NodeRow.key row = nodeId := by
  obtain ⟨hmem, hid⟩ := Table.get?_eq_some.mp h
  obtain ⟨row, hrow, rfl⟩ := List.mem_map.mp hmem
  exact ⟨row, hrow, hid⟩

theorem invariant_lease (N : Names) (hmac : List ℕ → List ℕ → List ℕ) {t : Plane.Tables}
    (h : Invariant t) (op : Op) : Invariant (t.withLeaseDb (handle N hmac t.leaseDb op).1) := by
  have heff := handle_effect N hmac t.leaseDb op
  have hstores : Refers (fun s => some s.edgeNodeId) (handle N hmac t.leaseDb op).1.stores.rows
      NodeRow.key t.registry.nodes.rows ∧ Keeps ManagedStore.id t.stores.rows
        (handle N hmac t.leaseDb op).1.stores.rows := by
    rcases heff.stores with ⟨call, rfl⟩ | hsame
    · change Refers _ (settle t.leaseDb .updated (updateManagedStore t.leaseDb call)).1.stores.rows
        _ _ ∧ Keeps _ _ (settle t.leaseDb .updated (updateManagedStore t.leaseDb call)).1.stores.rows
      rcases hupdate : updateManagedStore t.leaseDb call with fault | ⟨after, changed⟩
      · exact ⟨h.stores, .refl _⟩
      · obtain ⟨store, -, -, -, -, hrest⟩ := updateManagedStore_eq_ok hupdate
        obtain ⟨node, hnode⟩ := updateManagedStore_node hupdate
        have hput : after.stores = t.stores.put changed := hrest.stores
        simp only [settle, hput]
        refine ⟨h.stores.put ?_, .put _⟩
        rintro k ⟨⟩
        exact nodes_get? t hnode
    · rw [hsame]
      exact ⟨h.stores, .refl _⟩
  obtain ⟨move, created, hrows, hmove, hcreated⟩ := heff.rows
  have hleaseStores : Refers (fun l => some l.storeId) (handle N hmac t.leaseDb op).1.leases.rows
      ManagedStore.id (handle N hmac t.leaseDb op).1.stores.rows := by
    refine .keep ?_ hstores.2
    rw [hrows]
    refine .append (h.leaseStores.map fun l hl =>
      Or.inl (congrArg some (hmove l hl).refs.1)) ?_
    rcases hcreated with rfl | ⟨call, l, rfl, hl, -⟩
    · exact .nil
    · refine .singleton ?_
      rintro k ⟨⟩
      have hstore : l.storeId = call.storeId := by rw [hl.eq]; rfl
      rw [hstore]
      rcases handle_takes N hmac t.leaseDb hl.takes with hsame | hexists
      · have hlength := congrArg List.length hrows
        rw [hsame, List.length_append, List.length_map] at hlength
        exact absurd hlength (by simp)
      · exact hexists
  have hleaseUsers : Refers (fun l => some l.ownerUserId)
      (handle N hmac t.leaseDb op).1.leases.rows User.id t.accounts.users.rows := by
    rw [hrows]
    refine .append (h.leaseUsers.map fun l hl =>
      Or.inl (congrArg some (hmove l hl).refs.2)) ?_
    rcases hcreated with rfl | ⟨call, l, rfl, hl, -⟩
    · exact .nil
    · refine .singleton ?_
      rintro k ⟨⟩
      obtain ⟨user, huser, howner⟩ := hl.owner
      exact ⟨user, takes_user t.leaseDb hl.takes huser, howner.symm⟩
  exact invariant_of h.linked hstores.1 h.grants h.capabilities hleaseStores hleaseUsers

end Leases

/-! ## The commands -/

section Commands

variable {t t' : Plane.Tables} {db' : LeaseDb} {actor : Actor}

theorem inserted_eq_ok {ρ κ : Type} {key : ρ → κ} [DecidableEq κ] {row : ρ} {table after : Table key}
    (h : inserted row table = .ok after) : after.rows = table.rows ++ [row] := by
  unfold inserted at h
  split at h
  · next new hnew =>
    obtain rfl := Except.ok.inj h
    exact (insert?_eq_some hnew).2
  · exact absurd h (by simp)

theorem foldlM_inserted {ρ κ : Type} {key : ρ → κ} [DecidableEq κ] {rows : List ρ}
    {table after : Table key}
    (h : rows.foldlM (fun table row => inserted row table) table = .ok after) :
    after.rows = table.rows ++ rows := by
  induction rows generalizing table with
  | nil =>
    obtain rfl := Except.ok.inj h
    exact (List.append_nil _).symm
  | cons row rows ih =>
    obtain ⟨next, hnext, h⟩ := bind_eq_ok.mp ((List.foldlM_cons ..).symm.trans h)
    rw [ih h, inserted_eq_ok hnext, List.append_assoc]
    rfl

/-- The events are referred to by nothing. -/
theorem Invariant.audit (h : Invariant t) (actor : Actor) (eventType targetType : String) (targetId : List ℕ) :
    Invariant (t.audit actor eventType targetType targetId) :=
  invariant_of h.linked h.stores h.grants h.capabilities h.leaseStores h.leaseUsers

theorem invariant_createUser {username passwordHash : String} {newId : ℕ} {user : User}
    (h : Invariant t) (hrun : createUser t actor username passwordHash newId = .ok (t', user)) :
    Invariant t' := by
  unfold createUser at hrun
  split_ifs at hrun
  obtain ⟨users, husers, hrun⟩ := bind_eq_ok.mp hrun
  obtain ⟨rfl, -⟩ := Prod.mk.inj (Except.ok.inj hrun)
  have hkeep : Keeps User.id t.accounts.users.rows users.rows := by
    rw [inserted_eq_ok husers]
    exact .append _
  exact (h.accounts { t.accounts with users := users } hkeep).audit _ _ _ _

theorem invariant_replaceUserEdgeNodes {userId firstId : ℕ} {body : Grants.GrantsBody}
    {nodeIds : List ℤ} (h : Invariant t)
    (hrun : replaceUserEdgeNodes t actor userId body firstId = .ok (t', nodeIds)) :
    Invariant t' := by
  unfold replaceUserEdgeNodes at hrun
  split at hrun
  · exact absurd hrun (by simp)
  split_ifs at hrun with hnodes
  obtain ⟨grants, hgrants, hrun⟩ := bind_eq_ok.mp hrun
  obtain ⟨rfl, -⟩ := Prod.mk.inj (Except.ok.inj hrun)
  refine Invariant.audit (t := { t with grants := grants }) ?_ _ _ _ _
  refine invariant_of h.linked h.stores ?_ h.capabilities h.leaseStores h.leaseUsers
  change Refers _ grants.rows _ _
  rw [foldlM_inserted hgrants]
  refine .append (h.grants.subset fun g hg => (mem_delete.mp hg).1) ?_
  rintro g hg k ⟨⟩
  obtain ⟨⟨nodeId, id⟩, hmem, rfl⟩ := List.mem_map.mp hg
  obtain ⟨node, hnode, hid⟩ := List.any_eq_true.mp
    (List.all_eq_true.mp hnodes nodeId (List.fst_mem_of_mem_zipIdx hmem))
  refine ⟨node, hnode, ?_⟩
  have hid : (node.id : ℤ) = nodeId := eq_of_beq hid
  change node.id = nodeId.toNat
  omega

theorem invariant_createEdgeCapability {nodeId newId : ℕ} {body : Plane.EdgeCapabilityBody}
    {item : Except Fault CapabilityItem} (h : Invariant t)
    (hrun : createEdgeCapability t actor nodeId body newId = .ok (t', item)) : Invariant t' := by
  unfold createEdgeCapability at hrun
  split at hrun
  · exact absurd hrun (by simp)
  next node hnode =>
  split_ifs at hrun
  obtain ⟨capabilities, hcapabilities, hrun⟩ := bind_eq_ok.mp hrun
  obtain ⟨rfl, -⟩ := Prod.mk.inj (Except.ok.inj hrun)
  refine Invariant.audit (t := { t with capabilities := capabilities }) ?_ _ _ _ _
  refine invariant_of h.linked h.stores h.grants ?_ h.leaseStores h.leaseUsers
  change Refers _ capabilities.rows _ _
  rw [inserted_eq_ok hcapabilities]
  refine .append h.capabilities (.singleton ?_)
  rintro k ⟨⟩
  exact nodes_get? t hnode

theorem invariant_updateEdgeCapability {capabilityId : ℕ} {body : Plane.EdgeCapabilityBody}
    {item : Except Fault CapabilityItem} (h : Invariant t)
    (hrun : updateEdgeCapability t actor capabilityId body = .ok (t', item)) : Invariant t' := by
  unfold updateEdgeCapability at hrun
  split at hrun
  · exact absurd hrun (by simp)
  next old hold =>
  split_ifs at hrun
  obtain ⟨rfl, -⟩ := Prod.mk.inj (Except.ok.inj hrun)
  have hmem := (Table.get?_eq_some.mp hold).1
  have hcapabilities := h.capabilities.put (x := { old with name := body.name, config := body.config })
    (h.capabilities old hmem)
  exact (invariant_of h.linked h.stores h.grants hcapabilities h.leaseStores h.leaseUsers :
    Invariant { t with capabilities := t.capabilities.put _ }).audit _ _ _ _

theorem invariant_deleteEdgeCapability {capabilityId : ℕ} {u : Unit} (h : Invariant t)
    (hrun : deleteEdgeCapability t actor capabilityId = .ok (t', u)) : Invariant t' := by
  unfold deleteEdgeCapability at hrun
  split at hrun
  · exact absurd hrun (by simp)
  obtain ⟨rfl, -⟩ := Prod.mk.inj (Except.ok.inj hrun)
  exact invariant_of h.linked h.stores h.grants
    (h.capabilities.subset fun c hc => (mem_delete.mp hc).1) h.leaseStores h.leaseUsers

/-- The node of a store that has been checked. -/
theorem validateStoreLinks_node {db : Stores.Db} {owner : Option ℕ} {nodeId : ℕ}
    (h : validateStoreLinks db owner (some nodeId) = .ok ()) :
    ∃ node, db.nodes.get? nodeId = some node := by
  obtain ⟨-, -, h⟩ := bind_eq_ok.mp h
  exact Option.isSome_iff_exists.mp (require_eq_ok h)

theorem invariant_createManagedStore {body : ManagedStoreCreateBody} {newId : ℕ}
    {item : Except Fault StoreItem} (h : Invariant t)
    (hrun : createManagedStore t actor body newId = .ok (t', item)) : Invariant t' := by
  unfold createManagedStore at hrun
  split_ifs at hrun
  obtain ⟨⟨⟩, hlinks, hrun⟩ := bind_eq_ok.mp hrun
  obtain ⟨stores, hstores, hrun⟩ := bind_eq_ok.mp hrun
  obtain ⟨rfl, -⟩ := Prod.mk.inj (Except.ok.inj hrun)
  obtain ⟨node, hnode⟩ := validateStoreLinks_node hlinks
  have hrows := inserted_eq_ok hstores
  refine Invariant.audit (t := { t with stores := stores }) ?_ _ _ _ _
  refine invariant_of h.linked ?_ h.grants h.capabilities (h.leaseStores.keep ?_) h.leaseUsers
  · change Refers _ stores.rows _ _
    rw [hrows]
    refine .append h.stores (.singleton ?_)
    rintro k ⟨⟩
    exact nodes_get? t hnode
  · change Keeps _ _ stores.rows
    rw [hrows]
    exact .append _

theorem invariant_deleteManagedStore {storeId : ℕ} {u : Unit} (h : Invariant t)
    (hrun : deleteManagedStore t.leaseDb actor storeId = .ok (db', u)) :
    Invariant (t.withLeaseDb db') := by
  unfold deleteManagedStore at hrun
  split at hrun
  · exact absurd hrun (by simp)
  next store hstore =>
  split_ifs at hrun
  obtain ⟨rfl, -⟩ := Prod.mk.inj (Except.ok.inj hrun)
  have hleases : ∀ l ∈ (delete (fun l => l.storeId == store.id) t.leases).rows,
      l ∈ t.leases.rows ∧ some l.storeId ≠ some store.id := by
    intro l hl
    obtain ⟨hl, hne⟩ := mem_delete.mp hl
    exact ⟨hl, fun hid => beq_eq_false_iff_ne.mp hne (Option.some.inj hid)⟩
  exact invariant_of h.linked (h.stores.subset fun s hs => (mem_delete.mp hs).1) h.grants
    h.capabilities (h.leaseStores.deleteRow hleases)
    (h.leaseUsers.subset fun l hl => (hleases l hl).1)

/-- Leases of the same stores and users. -/
theorem Invariant.leases (h : Invariant t) (leases : Table StoreConnectionLease.id)
    (hrows : ∀ l' ∈ leases.rows, ∃ l ∈ t.leases.rows, l'.storeId = l.storeId ∧
      l'.ownerUserId = l.ownerUserId) : Invariant { t with leases := leases } := by
  refine invariant_of h.linked h.stores h.grants h.capabilities (h.leaseStores.of ?_)
    (h.leaseUsers.of ?_)
  · rintro l' hl' k ⟨⟩
    obtain ⟨l, hl, hstore, -⟩ := hrows l' hl'
    exact ⟨l, hl, congrArg some hstore.symm⟩
  · rintro l' hl' k ⟨⟩
    obtain ⟨l, hl, -, howner⟩ := hrows l' hl'
    exact ⟨l, hl, congrArg some howner.symm⟩

/-- A forced disconnection leaves every store and every lease there. -/
theorem invariant_disconnected (call : ReleaseCall) (release : Release) (h : Invariant t)
    (hchange : Change t.leaseDb db' (.release call release)) (hstores : db'.stores = t.stores) :
    Invariant (t.withLeaseDb db') := by
  have hafter := h.leases db'.leases fun l' hl' => by
    rcases hchange.lease hl' with ⟨l, hl, hfate⟩ | ⟨op, _, hjob, -⟩
    · exact ⟨l, hl, hfate.refs⟩
    · exact Job.noConfusion hjob
  have hafterStores : Refers (fun s => some s.edgeNodeId) db'.stores.rows NodeRow.key
      t.registry.nodes.rows := hstores ▸ h.stores
  have hleaseStores : Refers (fun l => some l.storeId) db'.leases.rows ManagedStore.id
      db'.stores.rows := hstores ▸ hafter.leaseStores
  exact invariant_of h.linked hafterStores h.grants h.capabilities hleaseStores hafter.leaseUsers

theorem invariant_command {call : Call} {auditAt : ℕ} {command : Command} (h : Invariant t)
    (hserve : serveCommand call auditAt command t = .ok t') : Invariant t' := by
  obtain ⟨user, -, hserve⟩ := bind_eq_ok.mp hserve
  obtain ⟨-, -, hserve⟩ := bind_eq_ok.mp hserve
  cases command <;> obtain ⟨⟨after, answer⟩, hrun, rfl⟩ := map_eq_ok.mp hserve
  case createUser => exact invariant_createUser h hrun
  case replaceUserEdgeNodes => exact invariant_replaceUserEdgeNodes h hrun
  case createEdgeCapability => exact invariant_createEdgeCapability h hrun
  case updateEdgeCapability => exact invariant_updateEdgeCapability h hrun
  case deleteEdgeCapability => exact invariant_deleteEdgeCapability h hrun
  case createManagedStore => exact invariant_createManagedStore h hrun
  case deleteManagedStore => exact invariant_deleteManagedStore h hrun
  case forceDisconnectManagedStore storeId now _ _ =>
    obtain ⟨store, -, -, hstores⟩ := forceDisconnectManagedStore_eq_ok hrun
    exact invariant_disconnected ⟨call, auditAt⟩
      (.forceDisconnectManagedStore storeId now) h
      (change_forceDisconnectManagedStore rfl hrun) hstores
  case forceDisconnectStoreLease leaseId now _ _ =>
    obtain ⟨lease, -, -, -, hstores⟩ := forceDisconnectStoreLease_eq_ok hrun
    exact invariant_disconnected ⟨call, auditAt⟩
      (.forceDisconnectStoreLease leaseId now) h
      (change_forceDisconnectStoreLease rfl hrun) hstores

end Commands

/-! ## The start of the server -/

section Startup

variable {t t' : Plane.Tables}

theorem keeps_bootstrapAdmin {users after : Table User.id} {admin : Option (String × String × ℕ)}
    (h : bootstrapAdmin users admin = .ok after) : Keeps User.id users.rows after.rows := by
  unfold bootstrapAdmin at h
  split at h
  · rw [Except.ok.inj h]
    exact .refl _
  · split_ifs at h
    · rw [Except.ok.inj h]
      exact .refl _
    · rw [inserted_eq_ok h]
      exact .append _

/-- The names of the topology are names of nodes. -/
def Named (nodes : Table NodeRow.key) (nodesByName : List (String × ℕ)) : Prop :=
  ∀ x ∈ nodesByName, ∃ n ∈ nodes.rows, NodeRow.key n = x.2

theorem bootstrapNode_spec {nodes after : Table NodeRow.key} {named named' : List (String × ℕ)}
    {item : BootstrapNode} (hnamed : Named nodes named)
    (h : bootstrapNode (nodes, named) item = .ok (after, named')) :
    (∃ new, after.rows = nodes.rows ++ new) ∧ Named after named' := by
  unfold bootstrapNode at h
  split at h
  · next node hnode =>
    obtain ⟨rfl, rfl⟩ := Prod.mk.inj (Except.ok.inj h)
    refine ⟨⟨[], (List.append_nil _).symm⟩, fun x hx => ?_⟩
    rcases List.mem_cons.mp hx with rfl | hx
    · exact ⟨node, List.mem_of_find?_eq_some hnode, rfl⟩
    · exact hnamed x hx
  · obtain ⟨new, hnew, h⟩ := bind_eq_ok.mp h
    obtain ⟨rfl, rfl⟩ := Prod.mk.inj (Except.ok.inj h)
    have hrows := inserted_eq_ok hnew
    refine ⟨⟨_, hrows⟩, fun x hx => ?_⟩
    rw [hrows]
    rcases List.mem_cons.mp hx with rfl | hx
    · exact ⟨_, List.mem_append_right _ (List.mem_singleton.mpr rfl), rfl⟩
    · obtain ⟨n, hn, hkey⟩ := hnamed x hx
      exact ⟨n, List.mem_append_left _ hn, hkey⟩

theorem bootstrapNodes_spec {items : List BootstrapNode} {nodes after : Table NodeRow.key}
    {named named' : List (String × ℕ)} (hnamed : Named nodes named)
    (h : items.foldlM bootstrapNode (nodes, named) = .ok (after, named')) :
    (∃ new, after.rows = nodes.rows ++ new) ∧ Named after named' := by
  induction items generalizing nodes named with
  | nil =>
    obtain ⟨rfl, rfl⟩ := Prod.mk.inj (Except.ok.inj h)
    exact ⟨⟨[], (List.append_nil _).symm⟩, hnamed⟩
  | cons item items ih =>
    obtain ⟨⟨next, named₁⟩, hnext, h⟩ := bind_eq_ok.mp ((List.foldlM_cons ..).symm.trans h)
    obtain ⟨⟨new, hrows⟩, hnamed₁⟩ := bootstrapNode_spec hnamed hnext
    obtain ⟨⟨more, hmore⟩, hnamed'⟩ := ih hnamed₁ h
    exact ⟨⟨new ++ more, by rw [hmore, hrows, List.append_assoc]⟩, hnamed'⟩

theorem bootstrapStore_spec {nodes : Table NodeRow.key} {named : List (String × ℕ)}
    {owner : Option ℕ} {stores after : Table ManagedStore.id} {item : BootstrapStore}
    (hnamed : Named nodes named)
    (hstores : Refers (fun s => some s.edgeNodeId) stores.rows NodeRow.key nodes.rows)
    (h : bootstrapStore named owner stores item = .ok after) :
    Refers (fun s => some s.edgeNodeId) after.rows NodeRow.key nodes.rows ∧
      Keeps ManagedStore.id stores.rows after.rows := by
  unfold bootstrapStore at h
  split at h
  · exact absurd h (by simp)
  next nodeId hlookup =>
  split_ifs at h
  · rw [← Except.ok.inj h]
    exact ⟨hstores, .refl _⟩
  · rw [inserted_eq_ok h]
    refine ⟨.append hstores (.singleton ?_), .append _⟩
    rintro k ⟨⟩
    obtain ⟨l₁, l₂, hnames, -⟩ := List.lookup_eq_some_iff.mp hlookup
    exact hnamed (item.node, nodeId) (by simp [hnames])

theorem bootstrapStores_spec {items : List BootstrapStore} {nodes : Table NodeRow.key}
    {named : List (String × ℕ)} {owner : Option ℕ} {stores after : Table ManagedStore.id}
    (hnamed : Named nodes named)
    (hstores : Refers (fun s => some s.edgeNodeId) stores.rows NodeRow.key nodes.rows)
    (h : items.foldlM (bootstrapStore named owner) stores = .ok after) :
    Refers (fun s => some s.edgeNodeId) after.rows NodeRow.key nodes.rows ∧
      Keeps ManagedStore.id stores.rows after.rows := by
  induction items generalizing stores with
  | nil =>
    obtain rfl := Except.ok.inj h
    exact ⟨hstores, .refl _⟩
  | cons item items ih =>
    obtain ⟨next, hnext, h⟩ := bind_eq_ok.mp ((List.foldlM_cons ..).symm.trans h)
    obtain ⟨hrefers, hkeep⟩ := bootstrapStore_spec hnamed hstores hnext
    obtain ⟨hrefers', hkeep'⟩ := ih hrefers h
    exact ⟨hrefers', hkeep.trans hkeep'⟩

theorem invariant_applyTopology {topology : Topology} (h : Invariant t)
    (hrun : applyTopology topology t = .ok t') : Invariant t' := by
  obtain ⟨⟨nodes, named⟩, hnodes, hrun⟩ := bind_eq_ok.mp hrun
  obtain ⟨stores, hstores, hrun⟩ := bind_eq_ok.mp hrun
  split at hrun
  · exact absurd hrun (by simp)
  next registry hcheck =>
  obtain rfl := Except.ok.inj hrun
  obtain ⟨⟨new, hrows⟩, hnamed⟩ := bootstrapNodes_spec (fun x hx => absurd hx List.not_mem_nil)
    hnodes
  have hkeep : Keeps NodeRow.key t.registry.nodes.rows nodes.rows := by
    rw [hrows]
    exact .append _
  obtain ⟨hrefers, hkept⟩ := bootstrapStores_spec hnamed (h.stores.keep hkeep) hstores
  have hregistry : registry.toTables = { t.registry.toTables with nodes := nodes } :=
    Registry.Db.check_eq_some hcheck
  have hns : registry.nodes = nodes := congrArg Registry.Tables.nodes hregistry
  have hes : registry.enrollments = t.registry.enrollments :=
    (congrArg Registry.Tables.enrollments hregistry).trans rfl
  have hrs : registry.registrations = t.registry.registrations :=
    (congrArg Registry.Tables.registrations hregistry).trans rfl
  have hlinked : Linked nodes.rows (t.registry.enrollments.rows.map id)
      t.registry.registrations.rows :=
    h.linked.keep hkeep (fun _ _ => ⟨rfl, rfl⟩) h.linked.keepRegistrations
  rw [List.map_id] at hlinked
  rw [← hns] at hkeep hrefers hlinked
  rw [← hes, ← hrs] at hlinked
  exact invariant_of hlinked hrefers (h.grants.keep hkeep) (h.capabilities.keep hkeep)
    (h.leaseStores.keep hkept) h.leaseUsers

theorem invariant_startup {bootstrap : Bootstrap} (h : Invariant t)
    (hrun : startup bootstrap t = .ok t') : Invariant t' := by
  obtain ⟨users, husers, hrun⟩ := bind_eq_ok.mp hrun
  have haccounts := h.accounts { t.accounts with users := users }
    (keeps_bootstrapAdmin husers)
  dsimp only at hrun
  split at hrun
  · split_ifs at hrun
    · obtain rfl := Except.ok.inj hrun
      exact haccounts
    · exact invariant_applyTopology haccounts hrun
  · obtain rfl := Except.ok.inj hrun
    exact haccounts

end Startup

/-! ## Whole runs -/

section Run

variable {PA : Sessions.Primitives} {PR : Registry.Primitives} {N : Names}
  {hmac : List ℕ → List ℕ → List ℕ} {t : Plane.Tables}

theorem invariant_serve (h : Invariant t) (request : Request) :
    Invariant (Plane.serve PA PR N hmac t request) := by
  have hsettled {x : Except Fault Plane.Tables} (hx : ∀ t', x = .ok t' → Invariant t') :
      Invariant (settled t x) := by
    rcases x with fault | t'
    · exact h
    · exact hx t' rfl
  cases request with
  | startup bootstrap => exact hsettled fun t' hrun => invariant_startup h hrun
  | account request => exact invariant_account h request
  | logout call => exact hsettled fun t' hrun => invariant_logout h hrun
  | registry request => exact invariant_registry h request
  | lease op => exact invariant_lease N hmac h op
  | command call auditAt command => exact hsettled fun t' hrun => invariant_command h hrun

theorem invariant_run {requests : List Request}
    (hr : run (Plane.step PA PR N hmac) .empty requests = some t) : Invariant t := by
  refine run_inv (I := Invariant) (fun s request s' h hs => ?_) requests _ t invariant_empty hr
  obtain rfl := Option.some.inj hs
  exact invariant_serve h request

/-- What the handlers look up and use without a check is there: the node of a store
(`serialize_store`, `serialize_owner_store`, `native_stores`, `connect_store`,
`native_store_preflight`, `issue_store_target_ticket`), of an enrollment (`serialize_enrollment`, the
claim, the report, the revocation, the regeneration) and of a registration that has one (its claim),
and the owner of a lease (`serialize_store`, both forced disconnections). -/
structure Resolved (t : Plane.Tables) : Prop where
  storeNode : ∀ s ∈ t.stores.rows, ∃ node, t.nodes.get? s.edgeNodeId = some node
  enrollmentNode : ∀ e ∈ t.registry.enrollments.rows,
    ∃ node, t.registry.nodes.get? e.edgeNodeId = some node
  registrationNode : ∀ r ∈ t.registry.registrations.rows, ∀ nodeId, r.edgeNodeId = some nodeId →
    ∃ node, t.registry.nodes.get? nodeId = some node
  leaseOwner : ∀ l ∈ t.leases.rows, ∃ user, requireOwner t.leaseDb.toDb l = .ok user

/-- The lists are served. -/
structure Listed (t : Plane.Tables) : Prop where
  adminStores : ∀ leaseAt, ∃ items, adminStores t leaseAt = .ok items
  ownedStores : ∀ call user, currentUser t.leaseDb.toDb call = .ok user →
    ∃ out, listOwnedStores t.leaseDb call = .ok out
  nativeStores : ∀ call identity, currentNativeIdentity t.leaseDb.toDb call = .ok identity →
    ∃ items, Visibility.nativeStores t.leaseDb.toDb call = .ok items
  enrollments : ∀ clock, ∃ out, Enrollments.listEdgeEnrollments clock t.registry = .ok out

theorem Closed.resolved (h : Closed t) : Resolved t where
  storeNode s hs := by
    obtain ⟨row, hrow, hkey⟩ := h.stores s hs _ rfl
    exact ⟨row.toEdgeNode, Table.get?_eq_some.mpr ⟨List.mem_map_of_mem hrow, hkey⟩⟩
  enrollmentNode e he := h.enrollments.get? he rfl
  registrationNode r hr nodeId hnode := h.registrations.get? hr hnode
  leaseOwner l hl := by
    obtain ⟨user, huser⟩ := h.leaseUsers.get? hl rfl
    have huser : t.leaseDb.users.get? l.ownerUserId = some user := huser
    exact ⟨user, by rw [requireOwner, huser]⟩

theorem serializeLease_isOk (h : Resolved t) {l : StoreConnectionLease} (hl : l ∈ t.leases.rows) :
    ∃ item, serializeLease t l = .ok item := by
  obtain ⟨user, huser⟩ := h.leaseOwner l hl
  unfold requireOwner at huser
  split at huser
  · next owner hget =>
    have hget : t.accounts.users.get? l.ownerUserId = some owner := hget
    exact ⟨_, by rw [serializeLease, hget]⟩
  · exact absurd huser (by simp)

theorem serializeStore_isOk (h : Resolved t) (leaseAt : String → ℕ) {s : ManagedStore}
    (hs : s ∈ t.stores.rows) : ∃ item, serializeStore t leaseAt s = .ok item := by
  obtain ⟨leases, hleases⟩ := mapM_isOk (f := serializeLease t)
    (l := activeStoreLeases t.leases s.id leaseAt) fun l hl =>
      serializeLease_isOk h (mem_activeStoreLeases.mp hl).1
  obtain ⟨node, hnode⟩ := h.storeNode s hs
  unfold serializeStore
  rw [hleases, hnode]
  exact ⟨_, rfl⟩

theorem Resolved.listed (h : Resolved t) : Listed t where
  adminStores leaseAt :=
    mapM_isOk fun s hs => serializeStore_isOk h leaseAt ((List.mem_insertionSort _).mp hs)
  ownedStores call user huser := by
    obtain ⟨db', items, hitems, -⟩ := Visibility.serializeStores_ids user.id call.leaseAt t.leaseDb
      (accessibleStores t.leaseDb.toDb user) fun s hs =>
        h.storeNode s (List.mem_filter.mp ((List.mem_insertionSort _).mp hs)).1
    exact ⟨_, bind_eq_ok.mpr ⟨user, huser, hitems⟩⟩
  nativeStores call identity hidentity := by
    obtain ⟨items, hitems, -⟩ := Visibility.nativeStores_eq hidentity
    exact ⟨items, hitems⟩
  enrollments clock := by
    unfold Enrollments.listEdgeEnrollments
    dsimp only
    rw [mapM_eq_some.mpr ⟨fun s hs => ?_, rfl⟩]
    · exact ⟨_, rfl⟩
    · obtain ⟨e, he, rfl⟩ := List.mem_map.mp hs
      obtain ⟨node, hnode⟩ := h.enrollmentNode e ((List.mem_insertionSort _).mp he)
      rw [hnode]
      exact Option.some_ne_none _

/-- **Referential closure**: in a reachable state no row refers to one that is not there, every
unchecked lookup succeeds, and the lists are served. -/
theorem closed_run {requests : List Request}
    (hr : run (Plane.step PA PR N hmac) .empty requests = some t) :
    Closed t ∧ Resolved t ∧ Listed t :=
  have hclosed := (invariant_run hr).toClosed
  ⟨hclosed, hclosed.resolved, hclosed.resolved.listed⟩

end Run

/-! ## A node that comes and goes -/

/-- The server starts with a node and its store; the store goes, and the node with what it has. -/
def comeAndGo : List Request :=
  let call : Call := { bearer := .web ⟨1, 0⟩, authAt := 0, leaseAt := fun _ => 0 }
  [.startup
    { admin := some ("admin", "hash", 1)
      topology := some
        { nodes := [⟨"edge-a", "https://edge-a.example", none, true, "secret", 1⟩]
          stores := [⟨"Store", "edge-a", true, 1⟩] } },
    .command call 0 (.createEdgeCapability 1 ⟨"egress", some (.obj [])⟩ 1),
    .registry (.deleteEdgeNode 1 none),
    .command call 0 (.deleteManagedStore 1),
    .registry (.deleteEdgeNode 1 none)]

/-- How many nodes, stores and capabilities there are after so many of the requests. -/
def countsAfter (n : ℕ) : Option (ℕ × ℕ × ℕ) :=
  (run (Plane.step .sample Fleet.sample .sample fun _ _ => []) .empty (comeAndGo.take n)).map fun t =>
    (t.registry.nodes.rows.length, t.stores.rows.length, t.capabilities.rows.length)

example : countsAfter 3 = some (1, 1, 1) := by decide +kernel

example : countsAfter 5 = some (0, 0, 0) := by decide +kernel

theorem closed_run_comeAndGo : ∃ t,
    run (Plane.step .sample Fleet.sample .sample fun _ _ => []) .empty comeAndGo = some t ∧
      Closed t ∧ Resolved t ∧ Listed t := by
  obtain ⟨t, ht, -⟩ := (Option.any_eq_true (fun _ => true) _).mp
    (show (run (Plane.step .sample Fleet.sample .sample fun _ _ => []) .empty comeAndGo).any
      (fun _ => true) = true by decide +kernel)
  exact ⟨t, ht, closed_run ht⟩

end IdenGrid.Control.Closure
