import IdenGrid.Lib.Orm
import IdenGrid.Lib.Requests
import IdenGrid.Control.Releases

/-! # Requests for leases at the same time

A request reads from a snapshot of the tables, taken when it looks up its user, and its commit writes
the columns that it has changed over the rows as they are by then, deletes the rows that it has
deleted and inserts its new ones. `connect_store`, `native_store_preflight`, `heartbeat_store` and
`delete_managed_store` lock the row of the store in between, and read it once more as they do; the
others take no lock. Any number of requests, for any stores, in any order; `holder` says who has the
lock of a store, and the clock runs on. The audit log is left out.

Other requests may commit to the other tables at any time (`others`), and the database may refuse a
request: a foreign key, a deadlock, a connection that is lost (`rollback`).

`renewed`, `lapsed` and `gone` keep the history: the leases that a connection, a preflight or a
heartbeat has answered with, each with its reading of the clock; the leases that have been marked as
expired, each with the time of the commit; and those that have been deleted. -/

namespace IdenGrid.Control.Leases

open IdenGrid.Lib IdenGrid.Lib.Store IdenGrid.Lib.Orm IdenGrid.Lib.WriteBack
open IdenGrid.Control.Rows IdenGrid.Control.Targets IdenGrid.Control.Stores

/-! ## The commit -/

/-- The write-back of a lease: the columns that differ from the loaded row. -/
def flushLease (loaded new cur : StoreConnectionLease) : StoreConnectionLease :=
  { cur with
    status := col loaded.status new.status cur.status
    expiresAt := col loaded.expiresAt new.expiresAt cur.expiresAt
    lastHeartbeatAt := col loaded.lastHeartbeatAt new.lastHeartbeatAt cur.lastHeartbeatAt
    disconnectedAt := col loaded.disconnectedAt new.disconnectedAt cur.disconnectedAt }

def flushStore (loaded new cur : ManagedStore) : ManagedStore :=
  { cur with
    label := col loaded.label new.label cur.label
    ownerUserId := col loaded.ownerUserId new.ownerUserId cur.ownerUserId
    edgeNodeId := col loaded.edgeNodeId new.edgeNodeId cur.edgeNodeId
    enabled := col loaded.enabled new.enabled cur.enabled }

section Tables

variable {ρ κ : Type} [DecidableEq κ] {key : ρ → κ}

/-- The row `cur` after the write-back by a request that has read `before` and made `after` of it. -/
def rewrite (flush : ρ → ρ → ρ → ρ) (before after : Table key) (cur : ρ) : ρ :=
  match before.get? (key cur), after.get? (key cur) with
  | some loaded, some new => flush loaded new cur
  | _, _ => cur

theorem rewrite_key {flush : ρ → ρ → ρ → ρ}
    (h : ∀ loaded new cur, key (flush loaded new cur) = key cur) (before after : Table key)
    (cur : ρ) : key (rewrite flush before after cur) = key cur := by
  unfold rewrite
  split
  · exact h _ _ _
  · rfl

/-- The request has deleted the row. -/
def dropped (before after : Table key) (k : κ) : Bool :=
  (before.get? k).isSome && (after.get? k).isNone

/-- The rows that the request has inserted. -/
def inserts (before after : Table key) : List ρ :=
  after.rows.filter fun row => (before.get? (key row)).isNone

/-- The request has changed no row that is gone by now. -/
def present [DecidableEq ρ] (before after now : Table key) : Bool :=
  before.rows.all fun row =>
    (after.get? (key row)).all fun new => new == row || (now.get? (key row)).isSome

/-- The table after the UPDATEs and DELETEs of a request. An UPDATE of a row that is gone is a
`StaleDataError`; a DELETE of one is not. -/
def writeTable [DecidableEq ρ] (flush : ρ → ρ → ρ → ρ)
    (hflush : ∀ loaded new cur, key (flush loaded new cur) = key cur)
    (before after now : Table key) : Option (Table key) :=
  if present before after now then
    some (delete (fun row => dropped before after (key row))
      (now.mapRows (rewrite flush before after) (rewrite_key hflush before after)))
  else none

end Tables

theorem flushLease_id (loaded new cur : StoreConnectionLease) :
    (flushLease loaded new cur).id = cur.id := rfl

theorem flushStore_id (loaded new cur : ManagedStore) : (flushStore loaded new cur).id = cur.id :=
  rfl

/-- The leases after the commit, unless an UPDATE or an INSERT fails. -/
def commitLeases (before after now : Table StoreConnectionLease.id) :
    Option (Table StoreConnectionLease.id) := do
  let written ← writeTable flushLease flushLease_id before after now
  (inserts before after).foldlM insertLease written

/-- The stores after the commit, unless an UPDATE fails or a label is taken. -/
def commitStores (before after now : Table ManagedStore.id) : Option (Table ManagedStore.id) := do
  let written ← writeTable flushStore flushStore_id before after now
  if (written.rows.map ManagedStore.label).Nodup then some written else none

def commitTables (before after now : LeaseDb) : Option LeaseDb := do
  let leases ← commitLeases before.leases after.leases now.leases
  let stores ← commitStores before.stores after.stores now.stores
  some { now with leases := leases, stores := stores }

/-! ## Requests -/

structure Shared where
  tables : LeaseDb
  now : ℕ
  holder : ℕ → Option ℕ
  renewed : List (String × ℕ)
  lapsed : List (String × ℕ)
  gone : List String

/-- Where a request stands: `since` is the time of its last step. -/
inductive Stage
  | idle
  | begun (snapshot : LeaseDb) (since : ℕ)
  | locked (snapshot : LeaseDb) (storeId since : ℕ)
  | decided (snapshot : LeaseDb) (job : Job)
  | done

inductive Act
  | pass (duration : ℕ)
  | others (tables : LeaseDb)
  | begin
  | lock (storeId : ℕ)
  | decide (job : Job)
  | commit
  | rollback

/-- The readings of the clock behind what is written: the heartbeat, or the time a lease has left. -/
def Job.writtenAt : Job → Option ℕ
  | .request (.ticket ticket) => some ticket.resolvedAt
  | job => job.renews

/-- The request reads the clock between two times. -/
def Job.timely (job : Job) (snapshot : LeaseDb) (since now : ℕ) : Bool :=
  (snapshot.leases.rows.all fun l => decide (since ≤ job.leaseAt l.id ∧ job.leaseAt l.id ≤ now)) &&
    job.writtenAt.all fun t => decide (since ≤ t ∧ t ≤ now)

/-- The leases that the request marks as expired. -/
def marks (before after : LeaseDb) : List String :=
  (before.leases.rows.filter fun l =>
    l.status != .expired &&
      (after.leases.get? l.id).any fun l' => l'.status == .expired).map StoreConnectionLease.id

/-- The leases that the request deletes. -/
def deletions (before after : LeaseDb) : List String :=
  (before.leases.rows.map StoreConnectionLease.id).filter (dropped before.leases after.leases)

variable (N : Names) (hmac : List ℕ → List ℕ → List ℕ)

/-- The lease that the request answers with, and its heartbeat. -/
def accepted (snapshot : LeaseDb) : Job → Option (String × ℕ)
  | .request op => do
    let id ← answered (handle N hmac snapshot op).2
    let t ← op.renews
    some (id, t)
  | .release _ _ => none

/-- The lock of the request is given back. -/
def Shared.release (s : Shared) (job : Job) : Shared :=
  match job.locks with
  | some storeId => { s with holder := Function.update s.holder storeId none }
  | none => s

/-- The commit, or the rollback where it fails. -/
def Shared.commit (s : Shared) (snapshot : LeaseDb) (job : Job) : Shared :=
  let after := perform N hmac snapshot job
  match commitTables snapshot after s.tables with
  | some tables =>
    { s.release job with
      tables := tables
      renewed := (accepted N hmac snapshot job).toList ++ s.renewed
      lapsed := (marks snapshot after).map (·, s.now) ++ s.lapsed
      gone := deletions snapshot after ++ s.gone }
  | none => s.release job

/-- The UPDATE of a store waits while another request has the lock of its row. -/
def Shared.blocks (s : Shared) (r : ℕ) (snapshot : LeaseDb) (job : Job) : Bool :=
  snapshot.stores.rows.any fun store =>
    (perform N hmac snapshot job).stores.get? store.id != some store &&
      (s.holder store.id).any fun q => q != r

def act (r : ℕ) (s : Shared) (stage : Stage) (a : Act) : Option (Shared × Stage) :=
  match a, stage with
  | .pass duration, stage => some ({ s with now := s.now + duration }, stage)
  | .others tables, stage =>
    some ({ s with tables := { tables with stores := s.tables.stores, leases := s.tables.leases } },
      stage)
  | .begin, .idle => some (s, .begun s.tables s.now)
  | .lock storeId, .begun snapshot _ =>
    if s.holder storeId = none then
      some ({ s with holder := Function.update s.holder storeId (some r) },
        .locked { snapshot with stores := s.tables.stores } storeId s.now)
    else none
  | .decide job, .begun snapshot since =>
    if job.locks = none ∧ job.timely snapshot since s.now then some (s, .decided snapshot job)
    else none
  | .decide job, .locked snapshot storeId since =>
    if job.locks = some storeId ∧ job.timely snapshot since s.now then
      some (s, .decided snapshot job)
    else none
  | .commit, .decided snapshot job =>
    if s.blocks N hmac r snapshot job then none else some (s.commit N hmac snapshot job, .done)
  | .rollback, .begun _ _ => some (s, .done)
  | .rollback, .locked _ storeId _ =>
    some ({ s with holder := Function.update s.holder storeId none }, .done)
  | .rollback, .decided _ job => some (s.release job, .done)
  | _, _ => none

/-- Before any request. -/
def openCrew (tables : LeaseDb) (now : ℕ) : Requests.Crew Shared Stage :=
  ⟨⟨tables, now, fun _ => none, [], [], []⟩, fun _ => .idle⟩

/-! ## The leases after a commit -/

theorem timely_le {job : Job} {snapshot : LeaseDb} {since now : ℕ}
    (h : job.timely snapshot since now = true) :
    (∀ l ∈ snapshot.leases.rows, job.leaseAt l.id ≤ now) ∧
      ∀ t, job.writtenAt = some t → since ≤ t ∧ t ≤ now := by
  simp only [Job.timely, Bool.and_eq_true, List.all_eq_true, decide_eq_true_eq,
    Option.all_eq_true_iff_get] at h
  obtain ⟨hclock, hwritten⟩ := h
  refine ⟨fun l hl => (hclock l hl).2, fun t ht => ?_⟩
  have := hwritten (by rw [ht]; rfl)
  simpa [ht] using this

theorem commitTables_eq_some {before after now tables : LeaseDb}
    (h : commitTables before after now = some tables) :
    ∃ leases stores, commitLeases before.leases after.leases now.leases = some leases ∧
      commitStores before.stores after.stores now.stores = some stores ∧
      tables = { now with leases := leases, stores := stores } := by
  obtain ⟨leases, hleases, h⟩ := Option.bind_eq_some_iff.mp h
  obtain ⟨stores, hstores, h⟩ := Option.bind_eq_some_iff.mp h
  exact ⟨leases, stores, hleases, hstores, (Option.some.inj h).symm⟩

section Write

variable {ρ κ : Type} [DecidableEq ρ] [DecidableEq κ] {key : ρ → κ} {flush : ρ → ρ → ρ → ρ}
  {hflush : ∀ loaded new cur, key (flush loaded new cur) = key cur} {before after now t : Table key}

omit [DecidableEq ρ] in
theorem rewrite_of_mem {row new cur : ρ} (hrow : row ∈ before.rows) (hnew : new ∈ after.rows)
    (hid : key row = key cur) (hid' : key new = key cur) :
    rewrite flush before after cur = flush row new cur := by
  have hbefore : before.get? (key cur) = some row := Table.get?_eq_some.mpr ⟨hrow, hid⟩
  have hafter : after.get? (key cur) = some new := Table.get?_eq_some.mpr ⟨hnew, hid'⟩
  unfold rewrite
  rw [hbefore, hafter]

omit [DecidableEq ρ] in
theorem rewrite_of_notMem {cur : ρ} (h : ∀ row ∈ before.rows, key row ≠ key cur) :
    rewrite flush before after cur = cur := by
  have hbefore : before.get? (key cur) = none := Table.get?_eq_none.mpr h
  unfold rewrite
  rw [hbefore]

omit [DecidableEq ρ] in
theorem dropped_eq_true {k : κ} : dropped before after k = true ↔
    (∃ row ∈ before.rows, key row = k) ∧ ∀ row ∈ after.rows, key row ≠ k := by
  unfold dropped
  rw [Bool.and_eq_true, Option.isNone_iff_eq_none, Table.get?_eq_none, Option.isSome_iff_exists]
  simp only [Table.get?_eq_some]

/-- **The rows after the UPDATEs and DELETEs**, and where a row that the request has changed is. -/
theorem writeTable_rows (h : writeTable flush hflush before after now = some t) :
    t.rows = (now.rows.filter fun row => !dropped before after (key row)).map
        (rewrite flush before after) ∧
      ∀ row ∈ before.rows, ∀ new ∈ after.rows, key new = key row → new ≠ row →
        ∃ cur ∈ now.rows, key cur = key row := by
  unfold writeTable at h
  split_ifs at h with hpresent
  obtain rfl := Option.some.inj h
  refine ⟨?_, fun row hrow new hnew hid hne => ?_⟩
  · change (now.rows.map _).filter _ = _
    rw [List.filter_map]
    congr 1
    refine List.filter_congr fun row _ => ?_
    change (!dropped before after (key (rewrite flush before after row))) = _
    rw [rewrite_key hflush]
  · have hall := List.all_eq_true.mp hpresent row hrow
    rw [Table.get?_eq_some.mpr ⟨hnew, hid⟩] at hall
    simp only [Option.all_some, Bool.or_eq_true, beq_iff_eq, hne, false_or] at hall
    obtain ⟨cur, hcur⟩ := Option.isSome_iff_exists.mp hall
    exact ⟨cur, Table.get?_eq_some.mp hcur⟩

end Write

theorem commitStores_rows {before after now stores : Table ManagedStore.id}
    (h : commitStores before after now = some stores) :
    ∀ x ∈ stores.rows, ∃ cur ∈ now.rows, x = rewrite flushStore before after cur := by
  obtain ⟨written, hwritten, h⟩ := Option.bind_eq_some_iff.mp h
  split_ifs at h with hlabels
  obtain rfl := Option.some.inj h
  intro x hx
  rw [(writeTable_rows hwritten).1] at hx
  obtain ⟨cur, hcur, rfl⟩ := List.mem_map.mp hx
  exact ⟨cur, List.mem_of_mem_filter hcur, rfl⟩

section Commit

variable {before after now merged : Table StoreConnectionLease.id}
  {move : StoreConnectionLease → StoreConnectionLease} {created : List StoreConnectionLease}

theorem foldlM_insertLease {t t' : Table StoreConnectionLease.id} {rows : List StoreConnectionLease}
    (h : rows.foldlM insertLease t = some t') : t'.rows = t.rows ++ rows := by
  induction rows generalizing t with
  | nil =>
    obtain rfl := Option.some.inj h
    exact (List.append_nil _).symm
  | cons l rows ih =>
    obtain ⟨u, hu, h⟩ := Option.bind_eq_some_iff.mp h
    rw [ih h, (insertLease_eq_some hu).2.2, List.append_assoc]
    rfl

/-- **The leases after a commit**: each row that stays is rewritten, and the new ones are added. -/
theorem commitLeases_rows (h : commitLeases before after now = some merged) :
    merged.rows = (now.rows.filter fun l => !dropped before after l.id).map
        (rewrite flushLease before after) ++ inserts before after ∧
      ∀ l ∈ before.rows, ∀ new ∈ after.rows, new.id = l.id → new ≠ l →
        ∃ cur ∈ now.rows, cur.id = l.id := by
  obtain ⟨written, hwritten, h⟩ := Option.bind_eq_some_iff.mp h
  obtain ⟨hrows, hpresent⟩ := writeTable_rows hwritten
  exact ⟨by rw [foldlM_insertLease h, hrows], hpresent⟩

/-- A request changes no other columns of a lease than those that are written back. -/
theorem Fate.flush {db : LeaseDb} {job : Job} {l l' : StoreConnectionLease} (h : Fate db job l l') :
    flushLease l l' l = l' := by
  cases h with
  | moved _ h => cases h <;> simp [flushLease, expire, renew, disconnect]
  | kept => simp [flushLease]
  | expired => simp [flushLease, expire]
  | released => simp [flushLease, disconnect]

variable {keep : StoreConnectionLease → Bool}

/-- The rows of `after` that `before` has not are the new ones. -/
theorem inserts_created (hrows : after.rows = (before.rows.filter keep).map move ++ created)
    (hmove : ∀ l ∈ before.rows, (move l).id = l.id)
    (hfresh : ∀ l ∈ created, ∀ x ∈ before.rows, x.id ≠ l.id) : inserts before after = created := by
  unfold inserts
  rw [hrows, List.filter_append]
  have hold : (((before.rows.filter keep).map move).filter fun l => (before.get? l.id).isNone) =
      [] := by
    rw [List.filter_eq_nil_iff]
    intro l hl
    obtain ⟨x, hx, rfl⟩ := List.mem_map.mp hl
    have hx := List.mem_of_mem_filter hx
    have hfound : before.get? (move x).id = some x :=
      Table.get?_eq_some.mpr ⟨hx, (hmove x hx).symm⟩
    rw [hfound]
    exact Bool.false_ne_true
  have hnew : (created.filter fun l => (before.get? l.id).isNone) = created := by
    rw [List.filter_eq_self]
    intro l hl
    have hnone : before.get? l.id = none := Table.get?_eq_none.mpr (hfresh l hl)
    rw [hnone]
    rfl
  rw [hold, hnew, List.nil_append]

/-- The rows of `before` that `after` has not are those that are not kept. -/
theorem dropped_keep (hrows : after.rows = (before.rows.filter keep).map move ++ created)
    (hmove : ∀ l ∈ before.rows, (move l).id = l.id)
    (hfresh : ∀ l ∈ created, ∀ x ∈ before.rows, x.id ≠ l.id) {l : StoreConnectionLease}
    (hl : l ∈ before.rows) : (!dropped before after l.id) = keep l := by
  rcases hkeep : keep l
  · rw [Bool.not_eq_false', dropped_eq_true]
    refine ⟨⟨l, hl, rfl⟩, fun x hx hid => ?_⟩
    rw [hrows, List.mem_append, List.mem_map] at hx
    rcases hx with ⟨y, hy, rfl⟩ | hx
    · obtain ⟨hy, hkept⟩ := List.mem_filter.mp hy
      obtain rfl := Table.eq_of_key hy hl ((hmove y hy).symm.trans hid)
      exact absurd (hkeep.symm.trans hkept) Bool.false_ne_true
    · exact hfresh x hx l hl hid.symm
  · rw [Bool.not_eq_true', ← Bool.not_eq_true, dropped_eq_true]
    rintro ⟨-, hnone⟩
    refine hnone (move l) ?_ (hmove l hl)
    rw [hrows]
    exact List.mem_append_left _ (List.mem_map_of_mem (List.mem_filter.mpr ⟨hl, hkeep⟩))

theorem Created.insertLease_isSome {db : LeaseDb} {op : Op} {call : LeaseCall}
    {l : StoreConnectionLease} (h : Created db op call l) {t : Table StoreConnectionLease.id}
    (hrows : t.rows = (db.leases.rows.filter keep).map move)
    (hmove : ∀ x ∈ db.leases.rows, (move x).id = x.id)
    (hindex : ∀ x ∈ db.leases.rows, keep x = true → (move x).status = .active →
      ¬ SameDevice (move x) l) : ∃ t', insertLease t l = some t' := by
  have hconflict : ¬ ∃ x ∈ t.rows, x.status = .active ∧ SameDevice x l := by
    rintro ⟨x, hx, hactive, hsame⟩
    rw [hrows] at hx
    obtain ⟨y, hy, rfl⟩ := List.mem_map.mp hx
    obtain ⟨hy, hkept⟩ := List.mem_filter.mp hy
    exact hindex y hy hkept hactive hsame
  unfold insertLease
  rw [if_neg hconflict]
  refine insert?_isSome fun x hx => ?_
  rw [hrows] at hx
  obtain ⟨y, hy, rfl⟩ := List.mem_map.mp hx
  have hy := List.mem_of_mem_filter hy
  rw [hmove y hy]
  exact h.fresh y hy

theorem table_ext {t t' : Table StoreConnectionLease.id} (h : t.rows = t'.rows) : t = t' := by
  cases t
  cases t'
  simp only at h
  subst h
  rfl

/-- **A job that nobody disturbs** commits what it has made of the leases. -/
theorem commitLeases_undisturbed (N : Names) (hmac : List ℕ → List ℕ → List ℕ) (db : LeaseDb)
    (job : Job) : commitLeases db.leases (perform N hmac db job).leases db.leases =
      some (perform N hmac db job).leases := by
  obtain ⟨keep, move, created, hrows, hmove, hcreated⟩ := (perform_change N hmac db job).rows
  have hids : ∀ l ∈ db.leases.rows, (move l).id = l.id := fun l hl => (hmove l hl).id_eq
  have hfresh : ∀ l ∈ created, ∀ x ∈ db.leases.rows, x.id ≠ l.id := by
    intro l hl
    rcases hcreated with rfl | ⟨op, call, c, -, rfl, hc, -⟩
    · exact absurd hl List.not_mem_nil
    · rw [List.mem_singleton.mp hl]
      exact hc.fresh
  generalize (perform N hmac db job).leases = after at hrows ⊢
  have hwritten : ∃ t, writeTable flushLease flushLease_id db.leases after db.leases = some t ∧
      t.rows = (db.leases.rows.filter keep).map move := by
    have hpresent : present db.leases after db.leases = true := by
      refine List.all_eq_true.mpr fun l hl => ?_
      rw [Table.get?_eq_some.mpr ⟨hl, rfl⟩]
      simp
    obtain ⟨t, ht⟩ : ∃ t, writeTable flushLease flushLease_id db.leases after db.leases = some t := by
      unfold writeTable
      rw [if_pos hpresent]
      exact ⟨_, rfl⟩
    refine ⟨t, ht, ?_⟩
    rw [(writeTable_rows ht).1,
      List.filter_congr fun l hl => dropped_keep hrows hids hfresh hl]
    refine List.map_congr_left fun l hl => ?_
    have hmem : move l ∈ after.rows := by
      rw [hrows]
      exact List.mem_append_left _ (List.mem_map_of_mem hl)
    have hl := List.mem_of_mem_filter hl
    rw [rewrite_of_mem hl hmem rfl (hids l hl), (hmove l hl).flush]
  obtain ⟨t, ht, htrows⟩ := hwritten
  have hsome : ∃ merged, commitLeases db.leases after db.leases = some merged := by
    unfold commitLeases
    rw [ht, inserts_created hrows hids hfresh]
    rcases hcreated with rfl | ⟨op, call, c, -, rfl, hc, hindex⟩
    · exact ⟨_, rfl⟩
    · obtain ⟨t', ht'⟩ := hc.insertLease_isSome htrows hids hindex
      exact ⟨t', by simp [ht']⟩
  obtain ⟨merged, hmerged⟩ := hsome
  have hsame : merged = after := by
    refine table_ext ?_
    rw [(commitLeases_rows hmerged).1, ← (writeTable_rows ht).1, htrows,
      inserts_created hrows hids hfresh, hrows]
  rw [hmerged, hsame]

end Commit

end IdenGrid.Control.Leases
