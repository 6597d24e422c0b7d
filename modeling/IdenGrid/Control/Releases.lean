import IdenGrid.Control.Accounts
import IdenGrid.Control.Lifecycle

/-! # The administrator's hand on the leases

`delete_managed_store`, `force_disconnect_managed_store` and `force_disconnect_store_lease` on the
tables of the leases, and what `change_user_password` and `delete_user` do to the leases and to the
stores of the account. A job is a request of `Op` or one of these.

`perform_change` says what a job does to the leases: a lease is deleted with its store, or it is moved
by a request, expired because it is stale, or disconnected; and at most one is new. -/

namespace IdenGrid.Control.Leases

open IdenGrid.Lib.Store IdenGrid.Lib.WriteBack
open IdenGrid.Control.Rows IdenGrid.Control.Targets IdenGrid.Control.Stores
open IdenGrid.Lib.Results

/-! ## The commands -/

/-- The caller of a command, the time of its event, and the clock at each lease. -/
structure Actor where
  user : User
  auditAt : ℕ
  leaseAt : String → ℕ

def deleteManagedStore (db : LeaseDb) (actor : Actor) (storeId : ℕ) :
    Except Fault (LeaseDb × Unit) :=
  match db.stores.get? storeId with
  | none => .error (.http 404 "未找到店铺")
  | some store =>
    if !(activeStoreLeases db.leases store.id actor.leaseAt).isEmpty then
      .error (.http 409 "店铺仍有活动连接，请先释放连接")
    else
      let after := auditStore
        { db with leases := delete (fun l => l.storeId == store.id) db.leases }
        "managed_store.deleted" actor.user.id store.id actor.auditAt
      .ok ({ after with stores := delete (fun s => s.id == store.id) after.stores }, ())

/-- The leases of the list are disconnected. -/
def disconnectIn (active : List StoreConnectionLease) (now : ℕ) (lease : StoreConnectionLease) :
    StoreConnectionLease :=
  if lease.id ∈ active.map StoreConnectionLease.id then disconnect lease now else lease

@[simp] theorem disconnectIn_id (active : List StoreConnectionLease) (now : ℕ)
    (lease : StoreConnectionLease) : (disconnectIn active now lease).id = lease.id := by
  unfold disconnectIn
  split_ifs <;> rfl

/-- The owner that is named in the details of a forced disconnection. -/
def requireOwner (db : Db) (lease : StoreConnectionLease) : Except Fault User :=
  match db.users.get? lease.ownerUserId with
  | some owner => .ok owner
  | none => .error .uncaught

/-- The leases of a store after its active ones have been disconnected. -/
def disconnectStoreLeases (leases : Table StoreConnectionLease.id) (storeId : ℕ)
    (clock : String → ℕ) (now : ℕ) : Table StoreConnectionLease.id :=
  (expireLeases leases storeId clock).mapRows
    (disconnectIn (activeStoreLeases leases storeId clock) now) (disconnectIn_id _ now)

def forceDisconnectManagedStore (db : LeaseDb) (actor : Actor) (storeId now : ℕ) :
    Except Fault (LeaseDb × List String) :=
  match db.stores.get? storeId with
  | none => .error (.http 404 "Store not found")
  | some store =>
    let active := activeStoreLeases db.leases store.id actor.leaseAt
    let after := { db with leases := disconnectStoreLeases db.leases store.id actor.leaseAt now }
    let answer := (auditStore after "managed_store.force_disconnected" actor.user.id store.id
      actor.auditAt, active.map StoreConnectionLease.id)
    match active with
    | [] => .error (.http 409 "Store has no active connection")
    | [lease] => (requireOwner db.toDb lease).map fun _ => answer
    | _ => .ok answer

def forceDisconnectStoreLease (db : LeaseDb) (actor : Actor) (leaseId : String) (now : ℕ) :
    Except Fault (LeaseDb × String) :=
  match db.leases.get? leaseId with
  | none => .error (.http 404 "Store lease not found")
  | some lease =>
    if lease.id ∉ (activeStoreLeases db.leases lease.storeId actor.leaseAt).map
        StoreConnectionLease.id then
      .error (.http 409 "Store lease is not active")
    else do
      let _ ← requireOwner db.toDb lease
      let after := putLease (expireStore db lease.storeId actor.leaseAt) (disconnect lease now)
      .ok (auditStore after "managed_store.force_disconnected" actor.user.id lease.storeId
        actor.auditAt, lease.id)

/-! ### The accounts -/

/-- A lease of a user that is cut off. -/
def releaseOf (userId now : ℕ) (lease : StoreConnectionLease) : StoreConnectionLease :=
  if lease.ownerUserId = userId ∧ lease.status = .active then disconnect lease now else lease

@[simp] theorem releaseOf_id (userId now : ℕ) (lease : StoreConnectionLease) :
    (releaseOf userId now lease).id = lease.id := by
  unfold releaseOf
  split_ifs <;> rfl

/-- A store of a user who is deleted. -/
def disown (userId : ℕ) (store : ManagedStore) : ManagedStore :=
  if store.ownerUserId = some userId then { store with ownerUserId := none } else store

@[simp] theorem disown_id (userId : ℕ) (store : ManagedStore) :
    (disown userId store).id = store.id := by
  unfold disown
  split_ifs <;> rfl

/-- What `change_user_password` does to the leases. -/
def releaseLeases (userId now : ℕ) (db : LeaseDb) : LeaseDb :=
  { db with leases := db.leases.mapRows (releaseOf userId now) (releaseOf_id userId now) }

/-- What `delete_user` does to the leases and the stores. -/
def disownStores (userId now : ℕ) (db : LeaseDb) : LeaseDb :=
  { releaseLeases userId now db with
    stores := db.stores.mapRows (disown userId) (disown_id userId) }

/-! ## Jobs -/

/-- The commands, with the time of a disconnection. -/
inductive Release
  | deleteManagedStore (storeId : ℕ)
  | forceDisconnectManagedStore (storeId now : ℕ)
  | forceDisconnectStoreLease (leaseId : String) (now : ℕ)
  | changeUserPassword (userId now : ℕ)
  | deleteUser (userId now : ℕ)

structure ReleaseCall extends Call where
  auditAt : ℕ

/-- The lookup of the commands on accounts. -/
def requireMember (db : Db) (userId : ℕ) : Except Fault User :=
  match Accounts.memberUser (db.users.get? userId) with
  | some target => .ok target
  | none => .error (.http 404 "Member not found")

/-- What a command does; the rows of the account, its sessions and its grants are left out. -/
def runRelease (db : LeaseDb) (actor : Actor) : Release → Except Fault LeaseDb
  | .deleteManagedStore storeId => (deleteManagedStore db actor storeId).map Prod.fst
  | .forceDisconnectManagedStore storeId now =>
    (forceDisconnectManagedStore db actor storeId now).map Prod.fst
  | .forceDisconnectStoreLease leaseId now =>
    (forceDisconnectStoreLease db actor leaseId now).map Prod.fst
  | .changeUserPassword userId now =>
    (requireMember db.toDb userId).map fun target => releaseLeases target.id now db
  | .deleteUser userId now =>
    (requireMember db.toDb userId).map fun target => disownStores target.id now db

/-- `Depends(admin)`, and the command. -/
def serveRelease (db : LeaseDb) (call : ReleaseCall) (release : Release) : Except Fault LeaseDb := do
  let user ← currentUser db.toDb call.toCall
  require (user.role == .admin) (.http 403 "Administrator required")
  runRelease db ⟨user, call.auditAt, call.leaseAt⟩ release

/-- A request that touches leases. -/
inductive Job
  | request (op : Op)
  | release (call : ReleaseCall) (release : Release)

/-- The clock at a lease. -/
def Job.leaseAt : Job → String → ℕ
  | .request op => op.leaseAt
  | .release call _ => call.leaseAt

/-- The heartbeat that the job stores. -/
def Job.renews : Job → Option ℕ
  | .request op => op.renews
  | .release _ _ => none

/-- The store whose row the handler locks. -/
def Job.locks : Job → Option ℕ
  | .request op => op.locks
  | .release _ (.deleteManagedStore storeId) => some storeId
  | .release _ _ => none

variable (N : Names) (hmac : List ℕ → List ℕ → List ℕ)

/-- The tables as the job leaves them. -/
def perform (db : LeaseDb) : Job → LeaseDb
  | .request op => (handle N hmac db op).1
  | .release call release =>
    match serveRelease db call release with
    | .ok after => after
    | .error _ => db

/-! ## What a job does -/

/-- What a job does to a lease that stays. -/
inductive Fate (db : LeaseDb) (job : Job) (l : StoreConnectionLease) : StoreConnectionLease → Prop
  | moved {op : Op} {l' : StoreConnectionLease} (hjob : job = .request op) (h : Move db op l l') :
      Fate db job l l'
  | kept : Fate db job l l
  | expired (hactive : l.status = .active) (hstale : l.stale (job.leaseAt l.id) = true) :
      Fate db job l (expire l)
  | released {now : ℕ} (hactive : l.status = .active) : Fate db job l (disconnect l now)

/-- A store after a command: it is the same but for its owner. -/
def Stays (s s' : ManagedStore) : Prop := s'.id = s.id ∧ s'.edgeNodeId = s.edgeNodeId

/-- What a job does to the tables. -/
structure Change (db db' : LeaseDb) (job : Job) : Prop where
  rows : ∃ (keep : StoreConnectionLease → Bool) (move : StoreConnectionLease → StoreConnectionLease)
    (created : List StoreConnectionLease),
    db'.leases.rows = (db.leases.rows.filter keep).map move ++ created ∧
    (∀ l ∈ db.leases.rows, Fate db job l (move l)) ∧
    (created = [] ∨ ∃ op call l, job = .request op ∧ created = [l] ∧ Created db op call l ∧
      ∀ x ∈ db.leases.rows, keep x = true → (move x).status = .active → ¬ SameDevice (move x) l)
  stores : (∃ call, job = .request (.update call)) ∨
    ∀ s' ∈ db'.stores.rows, ∃ s ∈ db.stores.rows, Stays s s'

section Changes

variable {db db' : LeaseDb} {job : Job} {actor : Actor} {call : ReleaseCall} {release : Release}

theorem Fate.id_eq {l l' : StoreConnectionLease} (h : Fate db job l l') : l'.id = l.id := by
  cases h with
  | moved _ h => exact h.id_eq
  | _ => rfl

theorem Fate.refs {l l' : StoreConnectionLease} (h : Fate db job l l') :
    l'.storeId = l.storeId ∧ l'.ownerUserId = l.ownerUserId := by
  cases h with
  | moved _ h => exact h.refs
  | _ => exact ⟨rfl, rfl⟩

/-- A lease after a job is one from before, or a new one. -/
theorem Change.lease (h : Change db db' job) {l' : StoreConnectionLease}
    (hl' : l' ∈ db'.leases.rows) : (∃ l ∈ db.leases.rows, Fate db job l l') ∨
      ∃ op call, job = .request op ∧ Created db op call l' := by
  obtain ⟨keep, move, created, hrows, hmove, hcreated⟩ := h.rows
  rw [hrows, List.mem_append, List.mem_map] at hl'
  rcases hl' with ⟨l, hl, rfl⟩ | hl'
  · exact Or.inl ⟨l, List.mem_of_mem_filter hl, hmove l (List.mem_of_mem_filter hl)⟩
  · rcases hcreated with rfl | ⟨op, call, l, hjob, rfl, hl, -⟩
    · exact absurd hl' List.not_mem_nil
    · exact Or.inr ⟨op, call, hjob, List.mem_singleton.mp hl' ▸ hl⟩

/-- What has become of a lease that a job leaves there. -/
theorem Change.fate (h : Change db db' job) {l l' : StoreConnectionLease} (hl : l ∈ db.leases.rows)
    (hl' : l' ∈ db'.leases.rows) (hid : l'.id = l.id) : Fate db job l l' := by
  rcases h.lease hl' with ⟨x, hx, hfate⟩ | ⟨op, call, -, hnew⟩
  · obtain rfl := Table.eq_of_key hx hl (hfate.id_eq.symm.trans hid)
    exact hfate
  · exact absurd hid.symm (hnew.fresh l hl)

theorem Change.refl (db : LeaseDb) (job : Job) : Change db db job where
  rows := ⟨fun _ => true, id, [], by simp, fun _ _ => .kept, Or.inl rfl⟩
  stores := Or.inr fun s hs => ⟨s, hs, rfl, rfl⟩

/-- A command that leaves every lease there. -/
theorem change_of_map {move : StoreConnectionLease → StoreConnectionLease}
    (hrows : db'.leases.rows = db.leases.rows.map move)
    (hmove : ∀ l ∈ db.leases.rows, Fate db job l (move l))
    (hstores : ∀ s' ∈ db'.stores.rows, ∃ s ∈ db.stores.rows, Stays s s') : Change db db' job where
  rows := by
    refine ⟨fun _ => true, move, [], ?_, hmove, Or.inl rfl⟩
    rw [hrows, List.filter_true, List.append_nil]
  stores := Or.inr hstores

theorem Effect.change {op : Op} (h : Effect db db' op) : Change db db' (.request op) where
  rows := by
    obtain ⟨move, created, hrows, hmove, hcreated⟩ := h.rows
    refine ⟨fun _ => true, move, created, ?_, fun l hl => .moved rfl (hmove l hl), ?_⟩
    · rw [hrows, List.filter_true]
    · rcases hcreated with rfl | ⟨call, l, rfl, hl, hindex⟩
      · exact Or.inl rfl
      · exact Or.inr ⟨op, call, l, rfl, rfl, hl, fun x hx _ => hindex x hx⟩
  stores := by
    rcases h.stores with ⟨call, rfl⟩ | hsame
    · exact Or.inl ⟨call, rfl⟩
    · rw [hsame]
      exact Or.inr fun s hs => ⟨s, hs, rfl, rfl⟩

theorem fate_expireStale (storeId : ℕ) (l : StoreConnectionLease) :
    Fate db job l (expireStale storeId job.leaseAt l) := by
  rcases expireStale_cases storeId job.leaseAt l with hsame | ⟨hactive, hstale, hexpired⟩
  · rw [hsame]
    exact .kept
  · rw [hexpired]
    exact .expired hactive hstale

/-- An active lease that is not stale is left to be disconnected. -/
theorem expireStale_of_mem {leases : Table StoreConnectionLease.id} {storeId : ℕ}
    {clock : String → ℕ} {l : StoreConnectionLease}
    (h : l ∈ activeStoreLeases leases storeId clock) :
    l.status = .active ∧ expireStale storeId clock l = l := by
  obtain ⟨-, -, hactive, hfresh⟩ := mem_activeStoreLeases.mp h
  refine ⟨hactive, ?_⟩
  rcases expireStale_cases storeId clock l with hsame | ⟨-, hstale, -⟩
  · exact hsame
  · exact absurd (hfresh.symm.trans hstale) Bool.false_ne_true

theorem change_deleteManagedStore {storeId : ℕ} {u : Unit}
    (h : deleteManagedStore db actor storeId = .ok (db', u)) : Change db db' job := by
  unfold deleteManagedStore at h
  split at h
  · exact absurd h (by simp)
  next store hstore =>
  split_ifs at h
  obtain ⟨rfl, -⟩ := Prod.mk.inj (Except.ok.inj h)
  refine ⟨⟨fun l => !(l.storeId == store.id), id, [], ?_, fun _ _ => .kept, Or.inl rfl⟩,
    Or.inr fun s hs => ⟨s, (mem_delete.mp hs).1, rfl, rfl⟩⟩
  rw [List.map_id, List.append_nil]
  rfl

theorem disconnectStoreLeases_rows (leases : Table StoreConnectionLease.id) (storeId : ℕ)
    (clock : String → ℕ) (now : ℕ) : (disconnectStoreLeases leases storeId clock now).rows =
      leases.rows.map fun l =>
        disconnectIn (activeStoreLeases leases storeId clock) now (expireStale storeId clock l) := by
  change (leases.rows.map _).map _ = _
  rw [List.map_map]
  rfl

theorem fate_disconnectIn {storeId now : ℕ} {l : StoreConnectionLease} (hl : l ∈ db.leases.rows) :
    Fate db job l (disconnectIn (activeStoreLeases db.leases storeId job.leaseAt) now
      (expireStale storeId job.leaseAt l)) := by
  unfold disconnectIn
  rw [expireStale_id]
  split_ifs with hmem
  · obtain ⟨x, hx, hid⟩ := List.mem_map.mp hmem
    obtain rfl := Table.eq_of_key (mem_activeStoreLeases.mp hx).1 hl hid
    obtain ⟨hactive, hsame⟩ := expireStale_of_mem hx
    rw [hsame]
    exact .released hactive
  · exact fate_expireStale storeId l

/-- What a forced disconnection of a store commits. -/
theorem forceDisconnectManagedStore_eq_ok {storeId now : ℕ} {ids : List String}
    (h : forceDisconnectManagedStore db actor storeId now = .ok (db', ids)) :
    ∃ store, db.stores.get? storeId = some store ∧
      db'.leases = disconnectStoreLeases db.leases store.id actor.leaseAt now ∧
      db'.stores = db.stores := by
  unfold forceDisconnectManagedStore at h
  split at h
  · exact absurd h (by simp)
  next store hstore =>
  refine ⟨store, hstore, ?_⟩
  dsimp only at h
  split at h
  · exact absurd h (by simp)
  · obtain ⟨owner, -, h⟩ := map_eq_ok.mp h
    obtain ⟨rfl, -⟩ := Prod.mk.inj h
    exact ⟨rfl, rfl⟩
  · obtain ⟨rfl, -⟩ := Prod.mk.inj (Except.ok.inj h)
    exact ⟨rfl, rfl⟩

theorem change_forceDisconnectManagedStore {storeId now : ℕ} {ids : List String}
    (hclock : actor.leaseAt = job.leaseAt)
    (h : forceDisconnectManagedStore db actor storeId now = .ok (db', ids)) :
    Change db db' job := by
  obtain ⟨store, -, hleases, hstores⟩ := forceDisconnectManagedStore_eq_ok h
  rw [hclock] at hleases
  have hrows := disconnectStoreLeases_rows db.leases store.id job.leaseAt now
  rw [← hleases] at hrows
  exact change_of_map hrows (fun l hl => fate_disconnectIn hl)
    fun s hs => ⟨s, hstores ▸ hs, rfl, rfl⟩

/-- What a forced disconnection of a lease commits. -/
theorem forceDisconnectStoreLease_eq_ok {leaseId id : String} {now : ℕ}
    (h : forceDisconnectStoreLease db actor leaseId now = .ok (db', id)) :
    ∃ lease ∈ activeStoreLeases db.leases lease.storeId actor.leaseAt, lease.id = leaseId ∧
      db'.leases =
        (expireLeases db.leases lease.storeId actor.leaseAt).put (disconnect lease now) ∧
      db'.stores = db.stores := by
  unfold forceDisconnectStoreLease at h
  split at h
  · exact absurd h (by simp)
  next lease hlease =>
  split_ifs at h with hactive
  obtain ⟨owner, -, h⟩ := bind_eq_ok.mp h
  obtain ⟨rfl, -⟩ := Prod.mk.inj (Except.ok.inj h)
  obtain ⟨hmem, hid⟩ := Table.get?_eq_some.mp hlease
  obtain ⟨x, hx, hxid⟩ := List.mem_map.mp hactive
  obtain rfl := Table.eq_of_key (mem_activeStoreLeases.mp hx).1 hmem hxid
  exact ⟨x, hx, hid, rfl, rfl⟩

theorem change_forceDisconnectStoreLease {leaseId id : String} {now : ℕ}
    (hclock : actor.leaseAt = job.leaseAt)
    (h : forceDisconnectStoreLease db actor leaseId now = .ok (db', id)) : Change db db' job := by
  obtain ⟨lease, hlease, -, hleases, hstores⟩ := forceDisconnectStoreLease_eq_ok h
  rw [hclock] at hlease hleases
  have hrows := expire_put_rows db.leases lease.storeId job.leaseAt (disconnect lease now)
  rw [← hleases] at hrows
  refine change_of_map hrows (fun l hl => ?_) fun s hs => ⟨s, hstores ▸ hs, rfl, rfl⟩
  unfold expirePut
  split_ifs with hsame
  · obtain rfl := Table.eq_of_key hl (mem_activeStoreLeases.mp hlease).1 hsame
    exact .released (expireStale_of_mem hlease).1
  · exact fate_expireStale lease.storeId l

theorem fate_releaseOf (userId now : ℕ) (l : StoreConnectionLease) :
    Fate db job l (releaseOf userId now l) := by
  unfold releaseOf
  split_ifs with h
  · exact .released h.2
  · exact .kept

theorem disown_stays (userId : ℕ) (s : ManagedStore) : Stays s (disown userId s) := by
  unfold disown
  split_ifs <;> exact ⟨rfl, rfl⟩

theorem change_release (hclock : call.leaseAt = job.leaseAt)
    (h : serveRelease db call release = .ok db') : Change db db' job := by
  obtain ⟨user, -, h⟩ := bind_eq_ok.mp h
  obtain ⟨-, -, h⟩ := bind_eq_ok.mp h
  cases release with
  | deleteManagedStore storeId =>
    obtain ⟨⟨after, u⟩, hrun, rfl⟩ := map_eq_ok.mp h
    exact change_deleteManagedStore hrun
  | forceDisconnectManagedStore storeId now =>
    obtain ⟨⟨after, ids⟩, hrun, rfl⟩ := map_eq_ok.mp h
    exact change_forceDisconnectManagedStore hclock hrun
  | forceDisconnectStoreLease leaseId now =>
    obtain ⟨⟨after, id⟩, hrun, rfl⟩ := map_eq_ok.mp h
    exact change_forceDisconnectStoreLease hclock hrun
  | changeUserPassword userId now =>
    obtain ⟨target, -, rfl⟩ := map_eq_ok.mp h
    exact change_of_map rfl (fun l _ => fate_releaseOf target.id now l) fun s hs => ⟨s, hs, rfl, rfl⟩
  | deleteUser userId now =>
    obtain ⟨target, -, rfl⟩ := map_eq_ok.mp h
    have hstores : (disownStores target.id now db).stores.rows =
        db.stores.rows.map (disown target.id) := rfl
    refine change_of_map rfl (fun l _ => fate_releaseOf target.id now l) fun s' hs' => ?_
    rw [hstores] at hs'
    obtain ⟨s, hs, rfl⟩ := List.mem_map.mp hs'
    exact ⟨s, hs, disown_stays target.id s⟩

/-- **What a job does to the leases and the stores.** -/
theorem perform_change (db : LeaseDb) (job : Job) : Change db (perform N hmac db job) job := by
  cases job with
  | request op => exact (handle_effect N hmac db op).change
  | release call release =>
    rcases h : serveRelease db call release with fault | after
    · simp only [perform, h]
      exact .refl db _
    · simp only [perform, h]
      exact change_release rfl h

end Changes

end IdenGrid.Control.Leases
