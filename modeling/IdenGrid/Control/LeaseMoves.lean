import IdenGrid.Control.Leases

/-! # What a request does to the leases

`handle_effect` says it once, row by row: a lease stays as it is, is marked as expired because it is
stale, or is the requester's own on the device that the request names and is renewed, disconnected or
marked as expired; and at most one lease is new. -/

namespace IdenGrid.Control.Leases

open IdenGrid.Lib.Store
open IdenGrid.Control.Rows IdenGrid.Control.Targets IdenGrid.Control.Stores
open IdenGrid.Lib.Results

/-- The user whose bearer token the request carries. -/
def Op.user (db : LeaseDb) : Op → Option User
  | .connect call _ => (currentUser db.toDb call.toCall).toOption
  | .preflight call => ((currentNativeIdentity db.toDb call.toCall).map Prod.fst).toOption
  | .heartbeat call _ _ => (currentUser db.toDb call.toCall).toOption
  | .ticket request => bearerUser db.sessions.get? db.users.get? request.bearer request.authAt
  | .disconnect call _ _ => (currentUser db.toDb call.toCall).toOption
  | .listStores call => (currentUser db.toDb call).toOption
  | .listLeases call => (currentUser db.toDb call).toOption
  | .update call => (currentUser db.toDb call.toCall).toOption

/-- The device that the request is about, if it names one. A preflight names that of its session, a
connection without a body the one that stands for all old clients of its user. -/
def Op.device (db : LeaseDb) : Op → Option String
  | .connect call body =>
    ((currentUser db.toDb call.toCall).map fun user => connectDevice user body).toOption
  | .preflight call =>
    ((currentNativeIdentity db.toDb call.toCall).map fun identity => identity.2.deviceId).toOption
  | .heartbeat _ _ deviceId => some deviceId
  | .ticket request => request.deviceId
  | .disconnect _ _ deviceId => deviceId
  | .listStores _ => none
  | .listLeases _ => none
  | .update _ => none

/-- The clock at a lease. -/
def Op.leaseAt : Op → String → ℕ
  | .connect call _ => call.leaseAt
  | .preflight call => call.leaseAt
  | .heartbeat call _ _ => call.leaseAt
  | .ticket request => request.leaseAt
  | .disconnect call _ _ => call.leaseAt
  | .listStores call => call.leaseAt
  | .listLeases call => call.leaseAt
  | .update call => call.leaseAt

/-- The request of a lease to be taken. -/
def Op.takes : Op → Option LeaseCall
  | .connect call _ => some call
  | .preflight call => some call
  | _ => none

/-- The heartbeat that the request stores. -/
def Op.renews : Op → Option ℕ
  | .connect call _ => some call.now
  | .preflight call => some call.now
  | .heartbeat call _ _ => some call.now
  | _ => none

/-- The store whose row the handler locks: `for_update`. -/
def Op.locks : Op → Option ℕ
  | .connect call _ => some call.storeId
  | .preflight call => some call.storeId
  | .heartbeat call _ _ => some call.storeId
  | _ => none

/-- The lease is the requester's own, on the device that the request names. -/
structure Owns (db : LeaseDb) (op : Op) (lease : StoreConnectionLease) : Prop where
  owner : ∃ user, op.user db = some user ∧ lease.ownerUserId = user.id
  device : ∀ d, op.device db = some d → lease.deviceId = some d

/-- What a request does to a lease. -/
inductive Move (db : LeaseDb) (op : Op) (l : StoreConnectionLease) : StoreConnectionLease → Prop
  | same : Move db op l l
  | expired (hactive : l.status = .active) (hstale : l.stale (op.leaseAt l.id) = true) :
      Move db op l (expire l)
  | renewed {now : ℕ} (hown : Owns db op l) (hactive : l.status = .active)
      (hfresh : l.stale (op.leaseAt l.id) = false) (hop : op.renews = some now)
      (hlock : op.locks = some l.storeId) : Move db op l (renew l now)
  | disconnected {now : ℕ} (hown : Owns db op l) (hactive : l.status = .active) :
      Move db op l (disconnect l now)
  /-- The ticket handler finds that less than a second is left. -/
  | spent {request : TicketRequest} (hown : Owns db op l) (hactive : l.status = .active)
      (hop : op = .ticket request) (hleft : remaining l request.resolvedAt = 0) :
      Move db op l (expire l)

/-- A lease that a request creates. -/
structure Created (db : LeaseDb) (op : Op) (call : LeaseCall) (l : StoreConnectionLease) :
    Prop where
  takes : op.takes = some call
  owner : ∃ user, op.user db = some user ∧ l.ownerUserId = user.id
  device : ∃ d, op.device db = some d ∧ l.deviceId = some d
  eq : l = newLease call call.storeId l.ownerUserId (l.deviceId.getD "")
  fresh : ∀ x ∈ db.leases.rows, x.id ≠ l.id

/-- What a request does to the leases, and that it does nothing to the other tables but the audit
log; only `update_managed_store` writes a store. -/
structure Effect (db db' : LeaseDb) (op : Op) : Prop where
  rows : ∃ move created, db'.leases.rows = db.leases.rows.map move ++ created ∧
    (∀ l ∈ db.leases.rows, Move db op l (move l)) ∧
    (created = [] ∨ ∃ call l, created = [l] ∧ Created db op call l ∧
      ∀ x ∈ db.leases.rows, (move x).status = .active → ¬ SameDevice (move x) l)
  stores : (∃ call, op = .update call) ∨ db'.stores = db.stores
  rest : SameRest { db with stores := db'.stores } db'

theorem SameRest.withStores {db db' : LeaseDb} (h : SameRest db db') :
    SameRest { db with stores := db'.stores } db' :=
  ⟨h.users, h.sessions, h.nodes, rfl, h.grants, h.capabilities⟩

theorem Effect.refl (db : LeaseDb) (op : Op) : Effect db db op where
  rows := ⟨id, [], by simp, fun _ _ => .same, Or.inl rfl⟩
  stores := Or.inr rfl
  rest := .refl db

section Rows

variable {leases after : Table StoreConnectionLease.id} {storeId : ℕ} {clock : String → ℕ}
  {lease new : StoreConnectionLease}

theorem expireStale_cases (storeId : ℕ) (clock : String → ℕ) (lease : StoreConnectionLease) :
    expireStale storeId clock lease = lease ∨ lease.status = .active ∧
      lease.stale (clock lease.id) = true ∧ expireStale storeId clock lease = expire lease := by
  unfold expireStale
  by_cases h : (lease.activeOn storeId && lease.stale (clock lease.id)) = true
  · rw [if_pos h]
    simp only [StoreConnectionLease.activeOn, Bool.and_eq_true, beq_iff_eq] at h
    exact Or.inr ⟨h.1.2, h.2, rfl⟩
  · rw [if_neg h]
    exact Or.inl rfl

/-- A row after the stale leases have been expired and one lease has been written. -/
def expirePut (storeId : ℕ) (clock : String → ℕ) (new lease : StoreConnectionLease) :
    StoreConnectionLease :=
  if lease.id = new.id then new else expireStale storeId clock lease

theorem expire_put_rows (leases : Table StoreConnectionLease.id) (storeId : ℕ)
    (clock : String → ℕ) (new : StoreConnectionLease) :
    ((expireLeases leases storeId clock).put new).rows =
      leases.rows.map (expirePut storeId clock new) := by
  change (leases.rows.map (expireStale storeId clock)).map _ = _
  rw [List.map_map]
  refine List.map_congr_left fun l _ => ?_
  rw [Function.comp_apply, expireStale_id]
  rfl

end Rows

section Effects

variable {db db' : LeaseDb} {op : Op} {storeId : ℕ} {lease new : StoreConnectionLease}

/-- The store and the owner of a lease stay. -/
theorem Move.refs {l l' : StoreConnectionLease} (h : Move db op l l') :
    l'.storeId = l.storeId ∧ l'.ownerUserId = l.ownerUserId := by
  cases h <;> exact ⟨rfl, rfl⟩

theorem move_expireStale (storeId : ℕ) (lease : StoreConnectionLease) :
    Move db op lease (expireStale storeId op.leaseAt lease) := by
  rcases expireStale_cases storeId op.leaseAt lease with h | ⟨hactive, hstale, h⟩
  · rw [h]
    exact .same
  · rw [h]
    exact .expired hactive hstale

/-- Stale leases are expired, and one lease is written. -/
theorem effect_put
    (hrows : db'.leases = (expireLeases db.leases storeId op.leaseAt).put new)
    (hrest : SameRest db db') (hlease : lease ∈ db.leases.rows) (hid : new.id = lease.id)
    (hmove : Move db op lease new) : Effect db db' op := by
  refine ⟨⟨expirePut storeId op.leaseAt new, [], ?_, fun l hl => ?_, Or.inl rfl⟩,
    Or.inr hrest.stores, hrest.withStores⟩
  · rw [hrows, expire_put_rows, List.append_nil]
  · unfold expirePut
    by_cases h : l.id = new.id
    · obtain rfl := Table.eq_of_key hl hlease (h.trans hid)
      rw [if_pos h]
      exact hmove
    · rw [if_neg h]
      exact move_expireStale storeId l

/-- A connection or a preflight. -/
theorem effect_taken {call : LeaseCall} {user : User} {deviceId leaseId : String}
    (htaken : Taken db.leases call storeId user.id deviceId leaseId db'.leases)
    (hrest : SameRest db db') (htakes : op.takes = some call) (hclock : op.leaseAt = call.leaseAt)
    (hrenews : op.renews = some call.now) (huser : op.user db = some user)
    (hdevice : op.device db = some deviceId) (hlocks : op.locks = some storeId)
    (hstore : storeId = call.storeId) : Effect db db' op := by
  generalize hafter : db'.leases = after at htaken
  cases htaken with
  | @reused lease h =>
    obtain ⟨hmem, hon, hactive, howner, hdev, hfresh⟩ := activeStoreLease_eq_some h
    have howns : Owns db op lease := by
      refine ⟨⟨user, huser, howner⟩, fun d hd => ?_⟩
      rw [hdev, ← hdevice, hd]
    have hmove := Move.renewed howns hactive (hclock ▸ hfresh) hrenews (hon ▸ hlocks)
    rw [← hclock] at hafter
    exact effect_put hafter hrest hmem rfl hmove
  | created hnone h =>
    obtain ⟨hfresh, hindex, hrows⟩ := insertLease_eq_some h
    refine ⟨⟨expireStale storeId call.leaseAt, [newLease call storeId user.id deviceId], ?_,
      fun l _ => hclock ▸ move_expireStale storeId l, Or.inr ⟨call, _, rfl, ?_, ?_⟩⟩,
      Or.inr hrest.stores, hrest.withStores⟩
    · rw [hafter, hrows]
      rfl
    · refine ⟨htakes, ⟨user, huser, rfl⟩, ⟨deviceId, hdevice, rfl⟩, ?_, fun x hx => ?_⟩
      · rw [hstore]
        rfl
      · have := hfresh _ (Table.mem_mapRows.mpr ⟨x, hx, rfl⟩)
        rwa [expireStale_id] at this
    · exact fun x hx => hindex _ (Table.mem_mapRows.mpr ⟨x, hx, rfl⟩)

theorem toOption_ok {ε α : Type} {x : Except ε α} {a : α} (h : x = .ok a) :
    x.toOption = some a := by
  rw [h]
  rfl

theorem effect_connect {call : LeaseCall} {body : Option String} {response : ConnectResponse}
    (h : connectStore db call body = .ok (db', response)) :
    Effect db db' (.connect call body) := by
  obtain ⟨user, store, -, huser, hstore, -, htaken, hrest, -⟩ := connectStore_eq_ok h
  have hid := (accessibleStore_eq_some (requireStore_eq_ok hstore)).2.1
  have hdevice : (Op.connect call body).device db = some (connectDevice user body) := by
    simp [Op.device, huser, Except.map, Except.toOption]
  exact effect_taken htaken hrest rfl rfl rfl (toOption_ok huser) hdevice (congrArg some hid.symm)
    hid

theorem effect_preflight {call : LeaseCall} {response : PreflightResponse}
    (h : nativeStorePreflight db call = .ok (db', response)) :
    Effect db db' (.preflight call) := by
  obtain ⟨user, session, store, -, hidentity, hstore, -, htaken, hrest⟩ :=
    nativeStorePreflight_eq_ok h
  have hid := (accessibleStore_eq_some (requireStore_eq_ok hstore)).2.1
  have huser : (Op.preflight call).user db = some user := by
    simp [Op.user, hidentity, Except.map, Except.toOption]
  have hdevice : (Op.preflight call).device db = some session.deviceId := by
    simp [Op.device, hidentity, Except.map, Except.toOption]
  exact effect_taken htaken hrest rfl rfl rfl huser hdevice (congrArg some hid.symm) hid

theorem effect_heartbeat {call : StoreCall} {leaseId deviceId : String}
    {response : HeartbeatResponse}
    (h : heartbeatStore db call leaseId deviceId = .ok (db', response)) :
    Effect db db' (.heartbeat call leaseId deviceId) := by
  obtain ⟨user, store, lease, huser, hstore, hlease, -, -, rfl⟩ := heartbeatStore_eq_ok h
  have hid := (accessibleStore_eq_some (requireStore_eq_ok hstore)).2.1
  obtain ⟨hmem, hon, hactive, howner, hdev, hfresh⟩ := activeStoreLease_eq_some hlease
  have howns : Owns db (.heartbeat call leaseId deviceId) lease := by
    refine ⟨⟨user, toOption_ok huser, howner⟩, fun d hd => ?_⟩
    rw [hdev]
    exact hd
  exact effect_put rfl ⟨rfl, rfl, rfl, rfl, rfl, rfl⟩ hmem rfl
    (.renewed howns hactive hfresh rfl (congrArg some (hid.symm.trans hon.symm)))

/-- The lease that a request without a lock names. -/
theorem owns_requested {user : User} {leaseId deviceId : Option String}
    {after : Table StoreConnectionLease.id}
    (huser : op.user db = some user) (hdevice : op.device db = deviceId)
    (h : requestedStoreLease db.leases storeId user.id leaseId deviceId op.leaseAt =
      .ok (some lease, after)) : Owns db op lease := by
  obtain ⟨-, -, -, howner, -⟩ := requestedStoreLease_eq_some h
  refine ⟨⟨user, huser, howner⟩, fun d hd => ?_⟩
  exact requestedStoreLease_device h d (hdevice.symm.trans hd)

theorem effect_disconnect {call : StoreCall} {leaseId deviceId : Option String}
    {response : DisconnectResponse}
    (h : disconnectStore db call leaseId deviceId = .ok (db', response)) :
    Effect db db' (.disconnect call leaseId deviceId) := by
  obtain ⟨user, store, lease, after, huser, hlease, hrows, hrest⟩ := disconnectStore_eq_ok h
  obtain ⟨hmem, -, hactive, -, -⟩ := requestedStoreLease_eq_some hlease
  have howns : Owns db (.disconnect call leaseId deviceId) lease :=
    owns_requested (toOption_ok huser) rfl hlease
  exact effect_put hrows hrest hmem rfl (.disconnected howns hactive)

/-! ### The ticket handler -/

/-- Stale leases are expired, and nothing else. -/
theorem effect_expire (hrows : db'.leases = expireLeases db.leases storeId op.leaseAt)
    (hrest : SameRest db db') : Effect db db' op where
  rows := by
    refine ⟨expireStale storeId op.leaseAt, [], ?_, fun l _ => move_expireStale storeId l,
      Or.inl rfl⟩
    rw [hrows, List.append_nil]
    rfl
  stores := Or.inr hrest.stores
  rest := hrest.withStores

variable {N : Names} {hmac : List ℕ → List ℕ → List ℕ}

theorem ticketFor_leases (hmac : List ℕ → List ℕ → List ℕ) (d : Db) (request : TicketRequest)
    (user : User) (store : ManagedStore) (node : Nodes.EdgeNode) (lease : StoreConnectionLease)
    (target : ResolvedTarget) : ∃ leases audits,
      (ticketFor hmac d request user store node lease target).1 =
        { d with leases := leases, audits := audits } ∧
      (leases = d.leases ∨
        remaining lease request.resolvedAt = 0 ∧ leases = d.leases.put (expire lease)) := by
  unfold ticketFor
  by_cases hleft : remaining lease request.resolvedAt = 0
  · rw [if_pos hleft]
    exact ⟨_, _, rfl, Or.inr ⟨hleft, rfl⟩⟩
  · rw [if_neg hleft]
    simp only
    split
    · exact ⟨_, _, rfl, Or.inl rfl⟩
    · exact ⟨_, _, rfl, Or.inl rfl⟩

/-- What `issue_store_target_ticket` does to the tables. -/
theorem effect_ticket (request : TicketRequest) :
    Effect db { db with toDb := (issueStoreTargetTicket N hmac db.toDb request).1 }
      (.ticket request) := by
  unfold issueStoreTargetTicket
  split
  · exact .refl db _
  next user huser =>
  split
  · exact .refl db _
  next store hstore =>
  split
  · exact .refl db _
  · next after hlease =>
    rw [requestedStoreLease_after hlease]
    exact effect_expire rfl ⟨rfl, rfl, rfl, rfl, rfl, rfl⟩
  next lease after hlease =>
  obtain ⟨hmem, -, hactive, -, -⟩ := requestedStoreLease_eq_some hlease
  have howns : Owns db (.ticket request) lease := owns_requested huser rfl hlease
  rw [requestedStoreLease_after hlease]
  unfold ticketWithLease
  split
  · exact .refl db _
  next node hnode =>
  split_ifs
  · exact .refl db _
  · exact .refl db _
  split
  · exact .refl db _
  · exact .refl db _
  next target htarget =>
  split
  · exact .refl db _
  next answer hanswer =>
  obtain ⟨leases, audits, hout, hleases⟩ := ticketFor_leases hmac
    { db.toDb with leases := expireLeases db.leases store.id request.leaseAt } request user store
    node lease target
  rw [hout]
  rcases hleases with rfl | ⟨hleft, rfl⟩
  · exact effect_expire rfl ⟨rfl, rfl, rfl, rfl, rfl, rfl⟩
  · exact effect_put rfl ⟨rfl, rfl, rfl, rfl, rfl, rfl⟩ hmem rfl (.spent howns hactive rfl hleft)

/-! ### The lists -/

theorem SameRest.trans {a b c : LeaseDb} (h : SameRest a b) (h' : SameRest b c) : SameRest a c where
  users := h'.users.trans h.users
  sessions := h'.sessions.trans h.sessions
  nodes := h'.nodes.trans h.nodes
  stores := h'.stores.trans h.stores
  grants := h'.grants.trans h.grants
  capabilities := h'.capabilities.trans h.capabilities

/-- The lease is as it was, or has been marked as expired because it is stale. -/
def Lapses (clock : String → ℕ) (l l' : StoreConnectionLease) : Prop :=
  l' = l ∨ l.status = .active ∧ l.stale (clock l.id) = true ∧ l' = expire l

theorem Lapses.trans {clock : String → ℕ} {a b c : StoreConnectionLease} (h : Lapses clock a b)
    (h' : Lapses clock b c) : Lapses clock a c := by
  rcases h with rfl | ⟨hactive, hstale, rfl⟩
  · exact h'
  · rcases h' with rfl | ⟨hagain, -, -⟩
    · exact Or.inr ⟨hactive, hstale, rfl⟩
    · exact absurd hagain (by simp [expire])

theorem serializeOwnerStore_eq_ok {store : ManagedStore} {userId : ℕ} {clock : String → ℕ}
    {item : OwnerStore} (h : serializeOwnerStore db store userId clock = .ok (db', item)) :
    db' = expireStore db store.id clock := by
  unfold serializeOwnerStore at h
  split at h
  · exact absurd h (by simp)
  · exact (Prod.mk.inj (Except.ok.inj h)).1.symm

/-- **What listing the stores does to the leases.** -/
theorem serializeStores_rows {userId : ℕ} {clock : String → ℕ} {stores : List ManagedStore}
    {items : List OwnerStore} (h : serializeStores userId clock db stores = .ok (db', items)) :
    SameRest db db' ∧ ∃ f, db'.leases.rows = db.leases.rows.map f ∧ ∀ l, Lapses clock l (f l) := by
  induction stores generalizing db items with
  | nil =>
    obtain ⟨rfl, -⟩ := Prod.mk.inj (Except.ok.inj h)
    exact ⟨.refl db, id, (List.map_id _).symm, fun _ => Or.inl rfl⟩
  | cons store stores ih =>
    obtain ⟨⟨mid, item⟩, hitem, h⟩ := bind_eq_ok.mp h
    obtain ⟨⟨last, rest⟩, hrest, h⟩ := bind_eq_ok.mp h
    obtain ⟨rfl, -⟩ := Prod.mk.inj (Except.ok.inj h)
    obtain ⟨hsame, f, hrows, hf⟩ := ih hrest
    obtain rfl := serializeOwnerStore_eq_ok hitem
    have hfirst : SameRest db (expireStore db store.id clock) := ⟨rfl, rfl, rfl, rfl, rfl, rfl⟩
    refine ⟨hfirst.trans hsame, f ∘ expireStale store.id clock, ?_, fun l => ?_⟩
    · rw [hrows, ← List.map_map]
      rfl
    · exact Lapses.trans (expireStale_cases store.id clock l) (hf _)

theorem effect_listStores {call : Call} {items : List OwnerStore}
    (h : listOwnedStores db call = .ok (db', items)) : Effect db db' (.listStores call) := by
  obtain ⟨user, -, h⟩ := bind_eq_ok.mp h
  obtain ⟨hrest, f, hrows, hf⟩ := serializeStores_rows h
  refine ⟨⟨f, [], by rw [hrows, List.append_nil], fun l _ => ?_, Or.inl rfl⟩, Or.inr hrest.stores,
    hrest.withStores⟩
  rcases hf l with hsame | ⟨hactive, hstale, hexpired⟩
  · rw [hsame]
    exact .same
  · rw [hexpired]
    exact .expired hactive hstale

theorem effect_listLeases {call : Call} {items : List StoreConnectionLease}
    (h : listStoreLeases db call = .ok (db', items)) : Effect db db' (.listLeases call) := by
  obtain ⟨user, -, h⟩ := bind_eq_ok.mp h
  split_ifs at h
  obtain ⟨rfl, -⟩ := Prod.mk.inj (Except.ok.inj h)
  exact .refl db _

theorem effect_update {call : UpdateCall} {changed : ManagedStore}
    (h : updateManagedStore db call = .ok (db', changed)) : Effect db db' (.update call) := by
  obtain ⟨store, -, -, -, hleases, hrest⟩ := updateManagedStore_eq_ok h
  have hrows : ∃ f, db'.leases.rows = db.leases.rows.map f ∧
      ∀ l, Move db (.update call) l (f l) := by
    rw [hleases]
    unfold checkedStore
    split_ifs
    · exact ⟨expireStale store.id call.leaseAt, rfl, fun l => move_expireStale store.id l⟩
    · exact ⟨id, (List.map_id _).symm, fun l => .same⟩
  obtain ⟨f, hrows, hf⟩ := hrows
  refine ⟨⟨f, [], by rw [hrows, List.append_nil], fun l _ => hf l, Or.inl rfl⟩,
    Or.inl ⟨call, rfl⟩, ?_⟩
  exact ⟨hrest.users, hrest.sessions, hrest.nodes, rfl, hrest.grants, hrest.capabilities⟩

theorem effect_settle {α : Type} {f : α → Response} {x : Except Fault (LeaseDb × α)}
    (h : ∀ db' a, x = .ok (db', a) → Effect db db' op) : Effect db (settle db f x).1 op := by
  rcases x with fault | ⟨db', a⟩
  · exact .refl db op
  · exact h db' a rfl

/-- **What a request does to the leases.** -/
theorem handle_effect (N : Names) (hmac : List ℕ → List ℕ → List ℕ) (db : LeaseDb) (op : Op) :
    Effect db (handle N hmac db op).1 op := by
  cases op with
  | connect call body => exact effect_settle fun _ _ h => effect_connect h
  | preflight call => exact effect_settle fun _ _ h => effect_preflight h
  | heartbeat call leaseId deviceId => exact effect_settle fun _ _ h => effect_heartbeat h
  | ticket request => exact effect_ticket request
  | disconnect call leaseId deviceId => exact effect_settle fun _ _ h => effect_disconnect h
  | listStores call => exact effect_settle fun _ _ h => effect_listStores h
  | listLeases call => exact effect_settle fun _ _ h => effect_listLeases h
  | update call => exact effect_settle fun _ _ h => effect_update h

end Effects

end IdenGrid.Control.Leases
