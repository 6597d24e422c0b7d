import IdenGrid.Lib.Run
import IdenGrid.Control.LeaseMoves
import IdenGrid.Control.Sessions

/-! # The life of a lease

Requests one after the other, each with any readings of the clock. `lease_lifecycle`: a request leaves
the leases of other users, and of other devices than the one it names, as they are but for the stale
ones, which may be marked as expired; a lease that is over stays over; a connection or a preflight
comes to the active lease of its device or to a new one; and a device never has two active leases on
a store. -/

namespace IdenGrid.Control.Leases

open IdenGrid.Lib.Run IdenGrid.Lib.Store IdenGrid.Lib.WriteBack
open IdenGrid.Control.Rows IdenGrid.Control.Targets IdenGrid.Control.Stores
open IdenGrid.Lib.Results

/-- What the index on the active leases says: at most one for each store, user and device. -/
def UniqueActive (leases : Table StoreConnectionLease.id) : Prop :=
  ∀ l ∈ leases.rows, ∀ l' ∈ leases.rows, l.status = .active → l'.status = .active →
    SameDevice l l' → l = l'

/-- The lease is of another user than the requester, or of another device than the request names. -/
def Foreign (db : LeaseDb) (op : Op) (l : StoreConnectionLease) : Prop :=
  ∀ user, op.user db = some user →
    l.ownerUserId ≠ user.id ∨ ∃ d, op.device db = some d ∧ l.deviceId ≠ some d

/-- The checks of a connection or a preflight before it comes to the lease. -/
def Admitted (db : LeaseDb) (call : LeaseCall) (user : User) (node : Nodes.EdgeNode) : Prop :=
  ∃ store, requireStore db.toDb call.storeId user = .ok store ∧
    requireNode db.toDb store = .ok node

/-- A connection with a new lease shows the capabilities of the node. -/
def Op.Shows (db : LeaseDb) (node : Nodes.EdgeNode) : Op → Prop
  | .connect _ _ => ∃ items, capabilityPayload db node.id = .ok items
  | _ => True

/-- The lease that a connection, a preflight or a heartbeat answers with. -/
def answered : Except Fault Response → Option String
  | .ok (.connected response) => some response.leaseId
  | .ok (.preflighted response) => some response.leaseId
  | .ok (.beaten response) => some response.leaseId
  | _ => none

/-- The lease is an active one of the device, and is not stale. -/
def Current (call : LeaseCall) (user : User) (deviceId : String) (l : StoreConnectionLease) :
    Prop :=
  l.storeId = call.storeId ∧ l.ownerUserId = user.id ∧ l.deviceId = some deviceId ∧
    l.status = .active ∧ l.stale (call.leaseAt l.id) = false

variable (N : Names) (hmac : List ℕ → List ℕ → List ℕ)

/-- What a request keeps to. -/
structure Contract (db : LeaseDb) (op : Op) : Prop where
  isolated : ∀ l ∈ db.leases.rows, Foreign db op l →
    l ∈ (handle N hmac db op).1.leases.rows ∨ l.status = .active ∧
      l.stale (op.leaseAt l.id) = true ∧ expire l ∈ (handle N hmac db op).1.leases.rows
  ended : ∀ l ∈ db.leases.rows, l.status ≠ .active →
    ∀ l' ∈ (handle N hmac db op).1.leases.rows, l'.id = l.id → l'.status ≠ .active
  reused : ∀ call user d l, op.takes = some call → op.user db = some user →
    op.device db = some d → l ∈ db.leases.rows → Current call user d l →
    ∀ id, answered (handle N hmac db op).2 = some id ↔
      (∃ node, Admitted db call user node) ∧ id = l.id
  created : ∀ call user d, op.takes = some call → op.user db = some user →
    op.device db = some d → (∀ l ∈ db.leases.rows, ¬ Current call user d l) →
    (∀ id, answered (handle N hmac db op).2 = some id ↔
      (∃ node, Admitted db call user node ∧ op.Shows db node) ∧
        (∀ l ∈ db.leases.rows, l.id ≠ call.uuid) ∧ id = call.uuid) ∧
    ∀ id, answered (handle N hmac db op).2 = some id →
      newLease call call.storeId user.id d ∈ (handle N hmac db op).1.leases.rows

def serve (db : LeaseDb) (op : Op) : Option LeaseDb := some (handle N hmac db op).1

/-! ## Isolation, and leases that are over -/

section Effects

variable {db db' : LeaseDb} {op : Op}

theorem Move.id_eq {l l' : StoreConnectionLease} (h : Move db op l l') : l'.id = l.id := by
  cases h <;> rfl

/-- Only an active lease changes its status, and none becomes active. -/
theorem Move.status {l l' : StoreConnectionLease} (h : Move db op l l') (hover : l.status ≠ .active) :
    l' = l := by
  cases h with
  | same => rfl
  | expired hactive => exact absurd hactive hover
  | renewed _ hactive => exact absurd hactive hover
  | disconnected _ hactive => exact absurd hactive hover
  | spent _ hactive => exact absurd hactive hover

/-- An active lease has been one, of the same device. -/
theorem Move.active {l l' : StoreConnectionLease} (h : Move db op l l')
    (hactive : l'.status = .active) :
    l.status = .active ∧ l'.storeId = l.storeId ∧ l'.ownerUserId = l.ownerUserId ∧
      l'.deviceId = l.deviceId := by
  cases h with
  | same => exact ⟨hactive, rfl, rfl, rfl⟩
  | expired => exact absurd hactive (by simp [expire])
  | renewed => exact ⟨hactive, rfl, rfl, rfl⟩
  | disconnected => exact absurd hactive (by simp [disconnect])
  | spent => exact absurd hactive (by simp [expire])

/-- What is not the requester's is not his to change. -/
theorem Move.foreign {l l' : StoreConnectionLease} (h : Move db op l l') (hforeign : Foreign db op l) :
    l' = l ∨ l.status = .active ∧ l.stale (op.leaseAt l.id) = true ∧ l' = expire l := by
  have hown : ¬ Owns db op l := by
    rintro ⟨⟨user, huser, howner⟩, hdevice⟩
    rcases hforeign user huser with hother | ⟨d, hd, hother⟩
    · exact hother howner
    · exact hother (hdevice d hd)
  cases h with
  | same => exact Or.inl rfl
  | expired hactive hstale => exact Or.inr ⟨hactive, hstale, rfl⟩
  | renewed howns => exact absurd howns hown
  | disconnected howns => exact absurd howns hown
  | spent howns => exact absurd howns hown

theorem Effect.isolated (heff : Effect db db' op) {l : StoreConnectionLease}
    (hl : l ∈ db.leases.rows) (hforeign : Foreign db op l) :
    l ∈ db'.leases.rows ∨ l.status = .active ∧ l.stale (op.leaseAt l.id) = true ∧
      expire l ∈ db'.leases.rows := by
  obtain ⟨move, created, hrows, hmove, -⟩ := heff.rows
  have hmem : move l ∈ db'.leases.rows := by
    rw [hrows]
    exact List.mem_append_left _ (List.mem_map_of_mem hl)
  rcases (hmove l hl).foreign hforeign with hsame | ⟨hactive, hstale, hexpired⟩
  · exact Or.inl (hsame ▸ hmem)
  · exact Or.inr ⟨hactive, hstale, hexpired ▸ hmem⟩

/-- A lease that is over is left as it is. -/
theorem Effect.ended (heff : Effect db db' op) {l : StoreConnectionLease} (hl : l ∈ db.leases.rows)
    (hover : l.status ≠ .active) : l ∈ db'.leases.rows := by
  obtain ⟨move, created, hrows, hmove, -⟩ := heff.rows
  have hsame := (hmove l hl).status hover
  rw [hrows, ← hsame]
  exact List.mem_append_left _ (List.mem_map_of_mem hl)

/-- **The index on the active leases is kept.** -/
theorem UniqueActive.effect (hunique : UniqueActive db.leases) (heff : Effect db db' op) :
    UniqueActive db'.leases := by
  obtain ⟨move, created, hrows, hmove, hcreated⟩ := heff.rows
  have hold : ∀ x ∈ db.leases.rows, ∀ y ∈ db.leases.rows, (move x).status = .active →
      (move y).status = .active → SameDevice (move x) (move y) → x = y := by
    rintro x hx y hy hxa hya ⟨hstore, howner, hsome, hdevice⟩
    obtain ⟨hxold, hxstore, hxowner, hxdevice⟩ := (hmove x hx).active hxa
    obtain ⟨hyold, hystore, hyowner, hydevice⟩ := (hmove y hy).active hya
    refine hunique x hx y hy hxold hyold ⟨?_, ?_, ?_, ?_⟩
    · rw [← hxstore, ← hystore, hstore]
    · rw [← hxowner, ← hyowner, howner]
    · rw [← hxdevice, hsome]
    · rw [← hxdevice, ← hydevice, hdevice]
  have hnew : ∀ x ∈ db.leases.rows, ∀ l ∈ created, (move x).status = .active →
      ¬ SameDevice (move x) l := by
    intro x hx l hl hactive
    rcases hcreated with rfl | ⟨call, c, rfl, -, hindex⟩
    · exact absurd hl List.not_mem_nil
    · obtain rfl := List.mem_singleton.mp hl
      exact hindex x hx hactive
  intro l hl l' hl' hactive hactive' hsame
  rw [hrows, List.mem_append, List.mem_map] at hl hl'
  rcases hl with ⟨x, hx, rfl⟩ | hl <;> rcases hl' with ⟨y, hy, rfl⟩ | hl'
  · rw [hold x hx y hy hactive hactive' hsame]
  · exact absurd hsame (hnew x hx l' hl' hactive)
  · obtain ⟨hstore, howner, hsome, hdevice⟩ := hsame
    exact absurd ⟨hstore.symm, howner.symm, hdevice ▸ hsome, hdevice.symm⟩
      (hnew y hy l hl hactive')
  · rcases hcreated with rfl | ⟨call, c, rfl, -, -⟩
    · exact absurd hl List.not_mem_nil
    · rw [List.mem_singleton.mp hl, List.mem_singleton.mp hl']

end Effects

/-! ## The lease of a connection -/

section Taken

variable {db : LeaseDb} {op : Op} {call : LeaseCall} {user : User} {d id : String}
  {store : ManagedStore} {node : Nodes.EdgeNode} {N hmac}

theorem eq_ok_of_toOption {ε α : Type} {x : Except ε α} {a : α} (h : x.toOption = some a) :
    x = .ok a := by
  cases x with
  | error e => exact absurd h (Option.some_ne_none _).symm
  | ok b => rw [Option.some.inj h]

/-- The identity behind the user and the device of a preflight. -/
theorem identity_of_preflight (huser : (Op.preflight call).user db = some user)
    (hdevice : (Op.preflight call).device db = some d) :
    ∃ session, currentNativeIdentity db.toDb call.toCall = .ok (user, session) ∧
      session.deviceId = d := by
  obtain ⟨identity, hidentity, huser⟩ := map_eq_ok.mp (eq_ok_of_toOption huser)
  obtain ⟨again, hagain, hdevice⟩ := map_eq_ok.mp (eq_ok_of_toOption hdevice)
  obtain rfl := Except.ok.inj (hidentity.symm.trans hagain)
  subst huser
  exact ⟨identity.2, hidentity, hdevice⟩

theorem device_of_connect {body : Option String} (huser : (Op.connect call body).user db = some user)
    (hdevice : (Op.connect call body).device db = some d) : connectDevice user body = d := by
  obtain ⟨again, hagain, hdevice⟩ := map_eq_ok.mp (eq_ok_of_toOption hdevice)
  obtain rfl := Except.ok.inj ((eq_ok_of_toOption huser).symm.trans hagain)
  exact hdevice

theorem connect_answered {body : Option String}
    (h : answered (handle N hmac db (.connect call body)).2 = some id) :
    ∃ db' response, connectStore db call body = .ok (db', response) ∧ response.leaseId = id ∧
      (handle N hmac db (.connect call body)).1 = db' := by
  rcases hout : connectStore db call body with fault | ⟨db', response⟩
  · simp [handle, settle, hout, answered] at h
  · have hid : response.leaseId = id := by simpa [handle, settle, hout, answered] using h
    exact ⟨db', response, rfl, hid, by simp only [handle, settle, hout]⟩

theorem preflight_answered (h : answered (handle N hmac db (.preflight call)).2 = some id) :
    ∃ db' response, nativeStorePreflight db call = .ok (db', response) ∧ response.leaseId = id ∧
      (handle N hmac db (.preflight call)).1 = db' := by
  rcases hout : nativeStorePreflight db call with fault | ⟨db', response⟩
  · simp [handle, settle, hout, answered] at h
  · have hid : response.leaseId = id := by simpa [handle, settle, hout, answered] using h
    exact ⟨db', response, rfl, hid, by simp only [handle, settle, hout]⟩

/-- **An answer with a lease**: the checks have passed, and the lease has been taken. -/
theorem taken_of_answered (htakes : op.takes = some call) (huser : op.user db = some user)
    (hdevice : op.device db = some d) (h : answered (handle N hmac db op).2 = some id) :
    ∃ store node, requireStore db.toDb call.storeId user = .ok store ∧
      requireNode db.toDb store = .ok node ∧
      Taken db.leases call store.id user.id d id (handle N hmac db op).1.leases ∧
      (activeStoreLease db.leases store.id user.id d call.leaseAt = none → op.Shows db node) := by
  cases op with
  | connect call' body =>
    obtain rfl := Option.some.inj htakes
    obtain rfl := device_of_connect huser hdevice
    obtain ⟨db', response, hout, rfl, rfl⟩ := connect_answered h
    obtain ⟨user', store, node, huser', hstore, hnode, htaken, -, hshows⟩ := connectStore_eq_ok hout
    obtain rfl := Except.ok.inj (huser'.symm.trans (eq_ok_of_toOption huser))
    exact ⟨store, node, hstore, hnode, htaken, hshows⟩
  | preflight call' =>
    obtain rfl := Option.some.inj htakes
    obtain ⟨session, hidentity, rfl⟩ := identity_of_preflight huser hdevice
    obtain ⟨db', response, hout, rfl, rfl⟩ := preflight_answered h
    obtain ⟨user', session', store, node, hidentity', hstore, hnode, htaken, -⟩ :=
      nativeStorePreflight_eq_ok hout
    obtain ⟨rfl, rfl⟩ := Prod.mk.inj (Except.ok.inj (hidentity'.symm.trans hidentity))
    exact ⟨store, node, hstore, hnode, htaken, fun _ => trivial⟩
  | _ => exact absurd htakes (Option.some_ne_none _).symm

/-- Where the checks pass and there is a lease to take, the answer is a lease. -/
theorem answered_of_takes (htakes : op.takes = some call) (huser : op.user db = some user)
    (hdevice : op.device db = some d)
    (hstore : requireStore db.toDb call.storeId user = .ok store)
    (hnode : requireNode db.toDb store = .ok node)
    (hlease : Takes db.leases call store.id user.id d (op.Shows db node)) :
    ∃ id, answered (handle N hmac db op).2 = some id := by
  cases op with
  | connect call' body =>
    obtain rfl := Option.some.inj htakes
    obtain rfl := device_of_connect huser hdevice
    obtain ⟨⟨db', response⟩, hout⟩ :=
      connectStore_isOk (eq_ok_of_toOption huser) hstore hnode hlease
    exact ⟨response.leaseId, by simp [handle, settle, hout, answered]⟩
  | preflight call' =>
    obtain rfl := Option.some.inj htakes
    obtain ⟨session, hidentity, rfl⟩ := identity_of_preflight huser hdevice
    obtain ⟨⟨db', response⟩, hout⟩ := nativeStorePreflight_isOk hidentity hstore hnode hlease
    exact ⟨response.leaseId, by simp [handle, settle, hout, answered]⟩
  | _ => exact absurd htakes (Option.some_ne_none _).symm

/-- The active lease of a device is the only one. -/
theorem activeStoreLease_of_current (hunique : UniqueActive db.leases) {l : StoreConnectionLease}
    (hl : l ∈ db.leases.rows) (hcurrent : Current call user d l) :
    activeStoreLease db.leases call.storeId user.id d call.leaseAt = some l := by
  obtain ⟨hstore, howner, hdevice, hactive, hfresh⟩ := hcurrent
  rcases hfound : activeStoreLease db.leases call.storeId user.id d call.leaseAt with _ | found
  · have hstale := activeStoreLease_eq_none hfound hl hstore howner hdevice hactive
    exact absurd (hfresh.symm.trans hstale) Bool.false_ne_true
  · obtain ⟨hmem, hstore', hactive', howner', hdevice', -⟩ := activeStoreLease_eq_some hfound
    have hsame : SameDevice found l := by
      refine ⟨hstore'.trans hstore.symm, howner'.trans howner.symm, ?_, hdevice'.trans hdevice.symm⟩
      rw [hdevice']
      rfl
    rw [hunique found hmem l hl hactive' hactive hsame]

theorem current_of_activeStoreLease {l : StoreConnectionLease}
    (h : activeStoreLease db.leases call.storeId user.id d call.leaseAt = some l) :
    l ∈ db.leases.rows ∧ Current call user d l := by
  obtain ⟨hmem, hstore, hactive, howner, hdevice, hfresh⟩ := activeStoreLease_eq_some h
  exact ⟨hmem, hstore, howner, hdevice, hactive, hfresh⟩

/-- **Where the device has no active lease, nothing is in the way of a new one** but a row of the
same identifier. -/
theorem insertLease_isSome
    (hnone : activeStoreLease db.leases call.storeId user.id d call.leaseAt = none)
    (hfresh : ∀ l ∈ db.leases.rows, l.id ≠ call.uuid) :
    ∃ after, insertLease (expireLeases db.leases call.storeId call.leaseAt)
      (newLease call call.storeId user.id d) = some after := by
  have hindex : ¬ ∃ l ∈ (expireLeases db.leases call.storeId call.leaseAt).rows,
      l.status = .active ∧ SameDevice l (newLease call call.storeId user.id d) := by
    rintro ⟨l, hl, hactive, hstore, howner, -, hdevice⟩
    obtain ⟨x, hx, rfl⟩ := Table.mem_mapRows.mp hl
    rcases expireStale_cases call.storeId call.leaseAt x with hsame | ⟨-, -, hexpired⟩
    · rw [hsame] at hactive hstore howner hdevice
      have hstale := activeStoreLease_eq_none hnone hx hstore howner hdevice hactive
      have hon : x.activeOn call.storeId = true := by
        simp only [StoreConnectionLease.activeOn, Bool.and_eq_true, beq_iff_eq]
        exact ⟨hstore, hactive⟩
      have hexpired : expireStale call.storeId call.leaseAt x = expire x := by
        unfold expireStale
        rw [hon, hstale]
        rfl
      rw [← hsame, hexpired] at hactive
      exact absurd hactive (by simp [expire])
    · rw [hexpired] at hactive
      exact absurd hactive (by simp [expire])
  unfold insertLease
  rw [if_neg hindex]
  refine insert?_isSome fun x hx => ?_
  obtain ⟨y, hy, rfl⟩ := Table.mem_mapRows.mp hx
  rw [expireStale_id]
  exact hfresh y hy

theorem reused_iff (hunique : UniqueActive db.leases) (htakes : op.takes = some call)
    (huser : op.user db = some user) (hdevice : op.device db = some d)
    {l : StoreConnectionLease} (hl : l ∈ db.leases.rows) (hcurrent : Current call user d l) :
    answered (handle N hmac db op).2 = some id ↔
      (∃ node, Admitted db call user node) ∧ id = l.id := by
  have hactive := activeStoreLease_of_current hunique hl hcurrent
  have hforward : ∀ id, answered (handle N hmac db op).2 = some id →
      (∃ node, Admitted db call user node) ∧ id = l.id := by
    intro id h
    obtain ⟨store, node, hstore, hnode, htaken, -⟩ := taken_of_answered htakes huser hdevice h
    have hid := (accessibleStore_eq_some (requireStore_eq_ok hstore)).2.1
    refine ⟨⟨node, store, hstore, hnode⟩, ?_⟩
    rw [hid] at htaken
    generalize (handle N hmac db op).1.leases = after at htaken
    cases htaken with
    | reused hfound => rw [Option.some.inj (hfound.symm.trans hactive)]
    | created hnone => exact absurd (hactive.symm.trans hnone) (Option.some_ne_none _)
  constructor
  · exact hforward id
  · rintro ⟨⟨node, store, hstore, hnode⟩, rfl⟩
    have hid := (accessibleStore_eq_some (requireStore_eq_ok hstore)).2.1
    obtain ⟨id, h⟩ : ∃ id, answered (handle N hmac db op).2 = some id :=
      answered_of_takes htakes huser hdevice hstore hnode (Or.inl ⟨l, hid ▸ hactive⟩)
    rw [h, (hforward id h).2]

theorem created_iff (htakes : op.takes = some call) (huser : op.user db = some user)
    (hdevice : op.device db = some d) (hno : ∀ l ∈ db.leases.rows, ¬ Current call user d l) :
    (∀ id, answered (handle N hmac db op).2 = some id ↔
      (∃ node, Admitted db call user node ∧ op.Shows db node) ∧
        (∀ l ∈ db.leases.rows, l.id ≠ call.uuid) ∧ id = call.uuid) ∧
    ∀ id, answered (handle N hmac db op).2 = some id →
      newLease call call.storeId user.id d ∈ (handle N hmac db op).1.leases.rows := by
  have hnone : activeStoreLease db.leases call.storeId user.id d call.leaseAt = none := by
    rcases hfound : activeStoreLease db.leases call.storeId user.id d call.leaseAt with _ | l
    · rfl
    · obtain ⟨hl, hcurrent⟩ := current_of_activeStoreLease hfound
      exact absurd hcurrent (hno l hl)
  have hforward : ∀ id, answered (handle N hmac db op).2 = some id →
      ((∃ node, Admitted db call user node ∧ op.Shows db node) ∧
        (∀ l ∈ db.leases.rows, l.id ≠ call.uuid) ∧ id = call.uuid) ∧
      newLease call call.storeId user.id d ∈ (handle N hmac db op).1.leases.rows := by
    intro id h
    obtain ⟨store, node, hstore, hnode, htaken, hshows⟩ :=
      taken_of_answered htakes huser hdevice h
    have hid := (accessibleStore_eq_some (requireStore_eq_ok hstore)).2.1
    rw [hid] at htaken hshows
    generalize (handle N hmac db op).1.leases = after at htaken
    cases htaken with
    | reused hfound => exact absurd (hfound.symm.trans hnone) (Option.some_ne_none _)
    | created _ hinsert =>
      obtain ⟨hfresh, -, hrows⟩ := insertLease_eq_some hinsert
      refine ⟨⟨⟨node, ⟨store, hstore, hnode⟩, hshows hnone⟩, fun l hl => ?_, rfl⟩, ?_⟩
      · have := hfresh _ (Table.mem_mapRows.mpr ⟨l, hl, rfl⟩)
        rwa [expireStale_id] at this
      · rw [hrows]
        exact List.mem_append_right _ List.mem_cons_self
  refine ⟨fun id => ⟨fun h => (hforward id h).1, ?_⟩, fun id h => (hforward id h).2⟩
  rintro ⟨⟨node, ⟨store, hstore, hnode⟩, hshows⟩, hfresh, rfl⟩
  have hid := (accessibleStore_eq_some (requireStore_eq_ok hstore)).2.1
  obtain ⟨after, hinsert⟩ := insertLease_isSome hnone hfresh
  have htake : Takes db.leases call store.id user.id d (op.Shows db node) := by
    rw [hid]
    exact Or.inr ⟨hnone, ⟨after, hinsert⟩, hshows⟩
  obtain ⟨id, h⟩ : ∃ id, answered (handle N hmac db op).2 = some id :=
    answered_of_takes htakes huser hdevice hstore hnode htake
  rw [h, (hforward id h).1.2.2]

end Taken

/-! ## The contract -/

/-- **One request keeps to the contract.** -/
theorem handle_contract {db : LeaseDb} (hunique : UniqueActive db.leases) (op : Op) :
    Contract N hmac db op where
  isolated l hl hforeign := (handle_effect N hmac db op).isolated hl hforeign
  ended l hl hover l' hl' hid := by
    have hkept := (handle_effect N hmac db op).ended hl hover
    rw [Table.eq_of_key hl' hkept hid]
    exact hover
  reused call user d l htakes huser hdevice hl hcurrent id :=
    reused_iff hunique htakes huser hdevice hl hcurrent
  created call user d htakes huser hdevice hno := created_iff htakes huser hdevice hno

/-- **The life of a lease**: in every run of requests, with any readings of the clock, every request
keeps to the contract, no store has two active leases of a device at any time, and a lease that is
over at one time is over at every later one. -/
theorem lease_lifecycle (ops : List Op) (db : LeaseDb) (hunique : UniqueActive db.leases) :
    Along (serve N hmac) (Contract N hmac) db ops ∧
      Visits (serve N hmac) (fun t => UniqueActive t.leases) db ops ∧
      ∀ l ∈ db.leases.rows, l.status ≠ .active →
        Visits (serve N hmac) (fun t => ∀ l' ∈ t.leases.rows, l'.id = l.id → l'.status ≠ .active)
          db ops := by
  have hstep : ∀ (s : LeaseDb) op s', UniqueActive s.leases → serve N hmac s op = some s' →
      UniqueActive s'.leases := by
    intro s op s' hs h
    obtain rfl := Option.some.inj h
    exact hs.effect (handle_effect N hmac s op)
  refine ⟨?_, fun pre _ t ht => run_inv hstep pre db t hunique ht, fun l hl hover pre _ t ht => ?_⟩
  · exact along_of_inv (C := fun _ _ => True) (fun s op s' hs _ h => hstep s op s' hs h)
      (fun s op hs _ => handle_contract N hmac hs op) ops db hunique (along_true ops db)
  · have hkeep : ∀ (s : LeaseDb) op s', l ∈ s.leases.rows → serve N hmac s op = some s' →
        l ∈ s'.leases.rows := by
      intro s op s' hs h
      obtain rfl := Option.some.inj h
      exact (handle_effect N hmac s op).ended hs hover
    have hkept := run_inv hkeep pre db t hl ht
    intro l' hl' hid
    rw [Table.eq_of_key hl' hkept hid]
    exact hover

/-! ## A store with two devices -/

def sampleNode : Nodes.EdgeNode where
  id := 1
  name := "edge-a"
  endpoint := "https://edge-a.example"
  sharedSecret := "edge-ticket-secret"
  enabled := true
  maintenanceMode := false
  healthStatus := .online
  lastSeenAt := none
  latencyMs := none
  expectedPublicIpv4 := none
  status := {}
  lastError := none

/-- A member with access to a store, which nobody has connected to. -/
def sampleTables : LeaseDb where
  users := .single Sessions.sampleUser
  sessions := Table.empty
  nodes := .single sampleNode
  stores := .single ⟨1, "Store", none, 1, true⟩
  grants := .single ⟨1, 2, 1⟩
  leases := Table.empty
  audits := Table.empty
  capabilities := Table.empty

/-- A request of the member at the time `now`. -/
def sampleCall (now : ℕ) : StoreCall where
  bearer := .web ⟨2, 0⟩
  authAt := now
  leaseAt _ := now
  storeId := 1
  now := now
  auditAt := now

def sampleConnect (now : ℕ) (uuid deviceId : String) : Op :=
  .connect { toStoreCall := sampleCall now, uuid := uuid, createdAt := now } (some deviceId)

/-- The first device disconnects, the second one goes stale, and both connect again. -/
theorem lease_lifecycle_devices :
    Visits (serve Names.sample fun _ _ => []) (fun t => UniqueActive t.leases) sampleTables
      [sampleConnect 0 "lease-1" "device-a", sampleConnect 1 "lease-2" "device-b",
        .disconnect (sampleCall 2) (some "lease-1") (some "device-a"),
        sampleConnect (seconds 100) "lease-3" "device-a",
        sampleConnect (seconds 100) "lease-4" "device-b"] :=
  (lease_lifecycle Names.sample (fun _ _ => []) _ sampleTables
    fun _ hl => absurd hl List.not_mem_nil).2.1

end IdenGrid.Control.Leases
