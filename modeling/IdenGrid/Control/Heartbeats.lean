import IdenGrid.Control.LeaseRaces

/-! # An accepted heartbeat and the expiry of its lease

Every request that looks at the leases of a store marks the stale ones as expired, those of all users
and without a lock. `protected_of_careful`: a lease that was renewed is not marked within 90 seconds,
if no request marks a lease that has been renewed since its snapshot, none renews one that has been
marked, and no new lease gets the identifier of one that was deleted. `marked_after_heartbeat` is a run in which a list of the stores, with an old snapshot,
undoes a heartbeat that has just been accepted.

The invariant: the heartbeats of a lease only advance, because each is read under the lock of the
store; so the stored heartbeat is the latest one that has been accepted. -/

namespace IdenGrid.Control.Leases

open IdenGrid.Lib.Run IdenGrid.Lib.Requests IdenGrid.Lib.Store IdenGrid.Lib.Orm
open IdenGrid.Control.Rows IdenGrid.Control.Targets IdenGrid.Control.Stores

/-- What `active_store_leases` takes for the last heartbeat. -/
def heartbeat (l : StoreConnectionLease) : ℕ := l.lastHeartbeatAt.getD l.createdAt

/-- A lease as the handlers write it. -/
structure Timed (now : ℕ) (l : StoreConnectionLease) : Prop where
  beaten : l.lastHeartbeatAt = some (heartbeat l)
  past : heartbeat l ≤ now
  expires : l.expiresAt = heartbeat l + hours 8

/-- **The property of the history**: no lease has been marked as expired less than 90 seconds after an
accepted heartbeat. -/
def Protected (s : Shared) : Prop :=
  ∀ p ∈ s.renewed, ∀ q ∈ s.lapsed, p.1 = q.1 → p.2 + seconds 90 ≤ q.2

variable (N : Names) (hmac : List ℕ → List ℕ → List ℕ)

/-- A commit marks no lease that has been renewed since its snapshot, unless 90 seconds ago, renews no
lease that has been marked, and draws no identifier of a lease that has been deleted. -/
structure Spares (s : Shared) (snapshot : LeaseDb) (job : Job) : Prop where
  marked : ∀ id ∈ marks snapshot (perform N hmac snapshot job),
    ∀ cur ∈ s.tables.leases.rows, cur.id = id →
      (∃ l ∈ snapshot.leases.rows, l.id = id ∧ l.lastHeartbeatAt = cur.lastHeartbeatAt) ∨
        heartbeat cur + seconds 90 ≤ s.now
  renewed : ∀ p ∈ accepted N hmac snapshot job, ∀ q ∈ s.lapsed, q.1 ≠ p.1
  drawn : ∀ l ∈ inserts snapshot.leases (perform N hmac snapshot job).leases, l.id ∉ s.gone

def Careful (c : Crew Shared Stage) (e : ℕ × Act) : Prop :=
  match e.2, c.loc e.1 with
  | .commit, .decided snapshot job => Spares N hmac c.shared snapshot job
  | _, _ => True

/-! ## What a request writes -/

section Written

variable {N hmac} {db : LeaseDb} {op : Op} {job : Job} {now : ℕ}
  {l l' cur : StoreConnectionLease}

/-- **One row under a commit**: its heartbeat advances, and is that of the new row or a later one. -/
theorem flush_timed (hfate : Fate db job l l') (hl : Timed now l) (hcur : Timed now cur)
    (hbehind : heartbeat l ≤ heartbeat cur)
    (hrenews : ∀ t, job.renews = some t → t ≤ now ∧ (job.locks = some l.storeId → heartbeat cur ≤ t)) :
    Timed now (flushLease l l' cur) ∧ heartbeat cur ≤ heartbeat (flushLease l l' cur) ∧
      heartbeat l' ≤ heartbeat (flushLease l l' cur) ∧
      (job.locks ≠ some l.storeId → heartbeat (flushLease l l' cur) = heartbeat cur) := by
  have hquiet : ∀ new : StoreConnectionLease, new.lastHeartbeatAt = l.lastHeartbeatAt →
      new.expiresAt = l.expiresAt → heartbeat new = heartbeat l →
      Timed now (flushLease l new cur) ∧ heartbeat cur ≤ heartbeat (flushLease l new cur) ∧
        heartbeat new ≤ heartbeat (flushLease l new cur) ∧
        (job.locks ≠ some l.storeId → heartbeat (flushLease l new cur) = heartbeat cur) := by
    intro new hbeat hexpires hsame
    have hheart : heartbeat (flushLease l new cur) = heartbeat cur := by
      simp [heartbeat, flushLease, hbeat]
    refine ⟨⟨?_, ?_, ?_⟩, Nat.le_of_eq hheart.symm, ?_, fun _ => hheart⟩
    · rw [hheart, ← hcur.beaten]
      simp [flushLease, hbeat]
    · rw [hheart]
      exact hcur.past
    · rw [hheart, ← hcur.expires]
      simp [flushLease, hexpires]
    · rw [hheart, hsame]
      exact hbehind
  cases hfate with
  | kept => exact hquiet l rfl rfl rfl
  | expired => exact hquiet (expire l) rfl rfl rfl
  | released => exact hquiet (disconnect l _) rfl rfl rfl
  | moved hjob hmove =>
  subst hjob
  cases hmove with
  | same => exact hquiet l rfl rfl rfl
  | expired => exact hquiet (expire l) rfl rfl rfl
  | disconnected => exact hquiet (disconnect l _) rfl rfl rfl
  | spent => exact hquiet (expire l) rfl rfl rfl
  | @renewed t hown hactive hfresh hop hlock =>
    obtain ⟨hpast, hlocked⟩ := hrenews t hop
    have hlater := hlocked hlock
    by_cases hsame : heartbeat l = t
    · have heq : renew l t = l := by
        have hbeat := hl.beaten
        have hexpires := hl.expires
        rw [hsame] at hbeat hexpires
        unfold renew
        rw [← hbeat, ← hexpires]
      rw [heq]
      exact hquiet l rfl rfl rfl
    · have hbeat : some t ≠ l.lastHeartbeatAt := by
        rw [hl.beaten]
        exact fun h => hsame (Option.some.inj h).symm
      have hexpires : t + hours 8 ≠ l.expiresAt := by
        rw [hl.expires]
        omega
      have hheart : heartbeat (flushLease l (renew l t) cur) = t := by
        simp [heartbeat, flushLease, renew, col_of_ne hbeat]
      refine ⟨⟨?_, ?_, ?_⟩, ?_, ?_, fun hother => absurd hlock hother⟩
      · rw [hheart]
        simp [flushLease, renew, col_of_ne hbeat]
      · rw [hheart]
        exact hpast
      · rw [hheart]
        simp [flushLease, renew, col_of_ne hexpires]
      · rw [hheart]
        exact hlater
      · rw [hheart]
        exact Nat.le_refl t

/-- What is stale has had its last heartbeat 90 seconds ago. -/
theorem heartbeat_of_stale {t : ℕ} (hl : Timed now l) (hstale : l.stale t = true) (ht : t ≤ now) :
    heartbeat l + seconds 90 ≤ now := by
  have hexpires := hl.expires
  simp only [StoreConnectionLease.stale, Bool.or_eq_true, decide_eq_true_eq] at hstale
  change l.expiresAt ≤ _ ∨ heartbeat l + _ < _ at hstale
  unfold hours seconds at *
  omega

/-- A lease that is marked as expired was stale, or had less than a second left. -/
theorem heartbeat_of_marked (hfate : Fate db job l l') (hl : Timed now l)
    (hactive : l.status ≠ .expired) (hexpired : l'.status = .expired)
    (hclock : job.leaseAt l.id ≤ now) (hwritten : ∀ t, job.writtenAt = some t → t ≤ now) :
    heartbeat l + seconds 90 ≤ now := by
  cases hfate with
  | kept => exact absurd hexpired hactive
  | expired _ hstale => exact heartbeat_of_stale hl hstale hclock
  | released => exact absurd hexpired (by simp [disconnect])
  | moved hjob hmove =>
  subst hjob
  cases hmove with
  | same => exact absurd hexpired hactive
  | expired _ hstale => exact heartbeat_of_stale hl hstale hclock
  | renewed _ _ => exact absurd hexpired (by simp_all [renew])
  | disconnected => exact absurd hexpired (by simp [disconnect])
  | @spent request _ _ hop hleft =>
    have hexpires := hl.expires
    have hlater := hwritten request.resolvedAt (by rw [hop]; rfl)
    unfold remaining at hleft
    unfold hours seconds at *
    omega

theorem Created.timed {call : LeaseCall} (h : Created db op call l)
    (hrenews : ∀ t, op.renews = some t → t ≤ now) :
    Timed now l ∧ op.renews = some (heartbeat l) ∧ op.locks = some l.storeId ∧
      l.status = .active := by
  have hboth : op.renews = some call.now ∧ op.locks = some call.storeId := by
    have htakes := h.takes
    cases op <;> simp_all [Op.takes, Op.renews, Op.locks]
  have heq := h.eq
  have hheart : heartbeat l = call.now := by rw [heq]; rfl
  refine ⟨⟨?_, ?_, ?_⟩, ?_, ?_, ?_⟩
  · rw [hheart, heq]
    rfl
  · rw [hheart]
    exact hrenews _ hboth.1
  · rw [hheart, heq]
    rfl
  · rw [hheart]
    exact hboth.1
  · rw [heq]
    exact hboth.2
  · rw [heq]
    rfl

/-- A row that the request renews or creates. -/
theorem Taken.row {leases after : Table StoreConnectionLease.id} {call : LeaseCall}
    {storeId userId : ℕ} {deviceId id : String}
    (h : Taken leases call storeId userId deviceId id after) :
    ∃ x ∈ after.rows, x.id = id ∧ x.status = .active ∧ x.lastHeartbeatAt = some call.now := by
  cases h with
  | @reused lease hlease =>
    obtain ⟨hmem, -, hactive, -⟩ := activeStoreLease_eq_some hlease
    refine ⟨renew lease call.now, ?_, rfl, hactive, rfl⟩
    rw [expire_put_rows]
    exact List.mem_map.mpr ⟨lease, hmem, if_pos rfl⟩
  | created hnone hinsert =>
    refine ⟨newLease call storeId userId deviceId, ?_, rfl, rfl, rfl⟩
    rw [(insertLease_eq_some hinsert).2.2]
    exact List.mem_append_right _ List.mem_cons_self

/-- **What an accepted heartbeat writes.** -/
theorem accepted_row {id : String} {t : ℕ} (h : accepted N hmac db job = some (id, t)) :
    job.renews = some t ∧ ∃ x ∈ (perform N hmac db job).leases.rows,
      x.id = id ∧ x.status = .active ∧ x.lastHeartbeatAt = some t := by
  rcases job with op | ⟨call, release⟩
  swap
  · exact absurd h (Option.some_ne_none _).symm
  obtain ⟨id', hanswered, h⟩ := Option.bind_eq_some_iff.mp h
  obtain ⟨t', hrenews, h⟩ := Option.bind_eq_some_iff.mp h
  obtain ⟨rfl, rfl⟩ := Prod.mk.inj (Option.some.inj h)
  refine ⟨hrenews, ?_⟩
  cases op with
  | connect call body =>
    obtain ⟨db', response, hout, rfl, rfl⟩ := connect_answered hanswered
    obtain ⟨user, store, node, -, -, -, htaken, -⟩ := connectStore_eq_ok hout
    exact Option.some.inj hrenews ▸ htaken.row
  | preflight call =>
    obtain ⟨db', response, hout, rfl, rfl⟩ := preflight_answered hanswered
    obtain ⟨user, session, store, node, -, -, -, htaken, -⟩ := nativeStorePreflight_eq_ok hout
    exact Option.some.inj hrenews ▸ htaken.row
  | heartbeat call leaseId deviceId =>
    rcases hout : heartbeatStore db call leaseId deviceId with fault | ⟨db', response⟩
    · simp [handle, settle, hout, answered] at hanswered
    · have hid : response.leaseId = id' := by
        simpa [handle, settle, hout, answered] using hanswered
      obtain ⟨user, store, lease, -, -, hlease, -, hleaseId, rfl⟩ := heartbeatStore_eq_ok hout
      obtain ⟨hmem, -, hactive, -⟩ := activeStoreLease_eq_some hlease
      refine ⟨renew lease call.now, ?_, hleaseId.symm.trans hid, hactive, hrenews⟩
      simp only [perform, handle, settle, hout, putLease, expireStore]
      rw [expire_put_rows]
      exact List.mem_map.mpr ⟨lease, hmem, if_pos rfl⟩
  | _ => exact absurd hrenews (Option.some_ne_none _).symm

theorem marked_row {after : LeaseDb} {id : String} (h : id ∈ marks db after) :
    ∃ l ∈ db.leases.rows, l.id = id ∧ l.status ≠ .expired ∧
      ∃ l' ∈ after.leases.rows, l'.id = id ∧ l'.status = .expired := by
  obtain ⟨l, hl, rfl⟩ := List.mem_map.mp h
  obtain ⟨hl, hmarked⟩ := List.mem_filter.mp hl
  simp only [Bool.and_eq_true, bne_iff_ne, Option.any_eq_true, beq_iff_eq] at hmarked
  obtain ⟨hactive, l', hget, hexpired⟩ := hmarked
  obtain ⟨hl', hid⟩ := Table.get?_eq_some.mp hget
  exact ⟨l, hl, rfl, hactive, l', hl', hid, hexpired⟩

end Written

/-! ## What a commit does to the leases -/

/-- The leases of a snapshot are there, with the same heartbeat or a later one, or have been
deleted. -/
def Behind (snapshot : LeaseDb) (s : Shared) : Prop :=
  ∀ l ∈ snapshot.leases.rows, Timed s.now l ∧ (l.id ∈ s.gone ∨ ∃ cur ∈ s.tables.leases.rows,
    cur.id = l.id ∧ cur.storeId = l.storeId ∧ heartbeat l ≤ heartbeat cur)

/-- No lease of the store has a heartbeat after `t`. -/
def QuietSince (s : Shared) (storeId t : ℕ) : Prop :=
  ∀ cur ∈ s.tables.leases.rows, cur.storeId = storeId → heartbeat cur ≤ t

/-- What a request relies on: its snapshot is behind, its readings of the clock are past, and where it
has the lock of the store, nobody else renews a lease of it. -/
def Relies (r : ℕ) (s : Shared) : Stage → Prop
  | .begun snapshot _ => Behind snapshot s
  | .locked snapshot storeId since =>
    Behind snapshot s ∧ s.holder storeId = some r ∧ QuietSince s storeId since
  | .decided snapshot job =>
    Behind snapshot s ∧ (∀ l ∈ snapshot.leases.rows, job.leaseAt l.id ≤ s.now) ∧
      (∀ t, job.writtenAt = some t → t ≤ s.now) ∧
      ∀ storeId, job.locks = some storeId →
        s.holder storeId = some r ∧ ∀ t, job.renews = some t → QuietSince s storeId t
  | _ => True

/-- The invariant: every accepted heartbeat stands, or a later one does, until the lease is
deleted. -/
structure Beats (s : Shared) : Prop where
  timed : ∀ cur ∈ s.tables.leases.rows, Timed s.now cur
  fresh : ∀ cur ∈ s.tables.leases.rows, cur.id ∉ s.gone
  stands : ∀ p ∈ s.renewed, p.1 ∈ s.gone ∨
    ∃ cur ∈ s.tables.leases.rows, cur.id = p.1 ∧ p.2 ≤ heartbeat cur
  safe : Protected s

/-- A row before and after a commit. -/
structure RowStep (job : Job) (now : ℕ) (after : LeaseDb) (cur x : StoreConnectionLease) :
    Prop where
  id_eq : x.id = cur.id
  store_eq : x.storeId = cur.storeId
  timed : Timed now x
  advances : heartbeat cur ≤ heartbeat x
  keeps : job.locks ≠ some cur.storeId → heartbeat x = heartbeat cur
  covers : ∀ l' ∈ after.leases.rows, l'.id = cur.id → heartbeat l' ≤ heartbeat x

theorem renews_writtenAt {job : Job} {t : ℕ} (h : job.renews = some t) : job.writtenAt = some t := by
  rcases job with op | ⟨call, release⟩
  · cases op <;> simp_all [Job.renews, Op.renews, Job.writtenAt]
  · exact h

section Commit

variable {N hmac} {r : ℕ} {s : Shared} {snapshot tables : LeaseDb} {job : Job}

/-- **One row under a commit**, if the commit does not delete it. -/
theorem rewrite_step (hbeats : Beats s) (hrelies : Relies r s (.decided snapshot job))
    {after : LeaseDb} (hchange : Change snapshot after job) {cur : StoreConnectionLease}
    (hcur : cur ∈ s.tables.leases.rows)
    (hkept : dropped snapshot.leases after.leases cur.id = false) :
    (∃ l ∈ snapshot.leases.rows, l.id = cur.id) ∧
        RowStep job s.now after cur (rewrite flushLease snapshot.leases after.leases cur) ∨
      (∀ l ∈ snapshot.leases.rows, l.id ≠ cur.id) ∧
        rewrite flushLease snapshot.leases after.leases cur = cur := by
  obtain ⟨hbehind, -, hwritten, hlocks⟩ := hrelies
  by_cases hknown : ∃ l ∈ snapshot.leases.rows, l.id = cur.id
  · refine Or.inl ⟨hknown, ?_⟩
    obtain ⟨l, hl, hid⟩ := hknown
    obtain ⟨hl_timed, hgone | ⟨cur', hcur', hid', hstore, hbeat⟩⟩ := hbehind l hl
    · exact absurd (hid ▸ hgone) (hbeats.fresh cur hcur)
    obtain rfl := Table.eq_of_key hcur' hcur (hid'.trans hid)
    obtain ⟨l', hl', hl'id⟩ : ∃ l' ∈ after.leases.rows, l'.id = cur'.id := by
      by_contra hnone
      push Not at hnone
      exact Bool.false_ne_true (hkept.symm.trans (dropped_eq_true.mpr ⟨⟨l, hl, hid⟩, hnone⟩))
    have hfate := hchange.fate hl hl' (hl'id.trans hid.symm)
    have hrenews : ∀ t, job.renews = some t →
        t ≤ s.now ∧ (job.locks = some l.storeId → heartbeat cur' ≤ t) := by
      intro t ht
      refine ⟨hwritten t (renews_writtenAt ht), fun hlock => ?_⟩
      exact (hlocks l.storeId hlock).2 t ht cur' hcur hstore
    rw [rewrite_of_mem hl hl' hid hl'id]
    obtain ⟨htimed, hadvances, hcovers, hkeeps⟩ :=
      flush_timed hfate hl_timed (hbeats.timed cur' hcur) hbeat hrenews
    refine ⟨rfl, rfl, htimed, hadvances, fun hother => hkeeps (hstore ▸ hother), ?_⟩
    intro y hy hyid
    rw [Table.eq_of_key hy hl' (hyid.trans hl'id.symm)]
    exact hcovers
  · push Not at hknown
    exact Or.inr ⟨hknown, rewrite_of_notMem hknown⟩

/-- What is inserted is what the job has created. -/
theorem Change.inserted {after : LeaseDb} (h : Change snapshot after job) {l : StoreConnectionLease}
    (hl : l ∈ inserts snapshot.leases after.leases) :
    ∃ op call, job = .request op ∧ Created snapshot op call l := by
  obtain ⟨hl, hnone⟩ := List.mem_filter.mp hl
  rcases h.lease hl with ⟨x, hx, hfate⟩ | hcreated
  · rw [Table.get?_eq_some.mpr ⟨hx, hfate.id_eq.symm⟩] at hnone
    exact absurd hnone (by simp)
  · exact hcreated

theorem dropped_eq_false {after : LeaseDb} {id : String} (h : id ∉ deletions snapshot after) :
    dropped snapshot.leases after.leases id = false := by
  by_contra hdropped
  have hdropped := (Bool.not_eq_false _).mp hdropped
  obtain ⟨⟨l, hl, hid⟩, -⟩ := dropped_eq_true.mp hdropped
  exact h (List.mem_filter.mpr ⟨List.mem_map.mpr ⟨l, hl, hid⟩, hdropped⟩)

/-- **The leases after the commit of a request**: the rows that were there and are not deleted, each
with its heartbeat or a later one, and the leases that the request creates. -/
theorem commit_rows (hbeats : Beats s) (hrelies : Relies r s (.decided snapshot job))
    (h : commitTables snapshot (perform N hmac snapshot job) s.tables = some tables) :
    (∀ cur ∈ s.tables.leases.rows, cur.id ∈ deletions snapshot (perform N hmac snapshot job) ∨
      ∃ x ∈ tables.leases.rows, RowStep job s.now (perform N hmac snapshot job) cur x) ∧
    (∀ x ∈ tables.leases.rows,
      (∃ cur ∈ s.tables.leases.rows, cur.id ∉ deletions snapshot (perform N hmac snapshot job) ∧
        RowStep job s.now (perform N hmac snapshot job) cur x) ∨
      x ∈ inserts snapshot.leases (perform N hmac snapshot job).leases ∧
        ∃ op call, job = .request op ∧ Created snapshot op call x) ∧
    (∀ l' ∈ (perform N hmac snapshot job).leases.rows, l'.id ∈ s.gone ∨
      ∃ x ∈ tables.leases.rows, x.id = l'.id ∧ heartbeat l' ≤ heartbeat x) ∧
    ∀ id ∈ marks snapshot (perform N hmac snapshot job), ∃ cur ∈ s.tables.leases.rows,
      cur.id = id := by
  obtain ⟨leases, stores, hleases, -, rfl⟩ := commitTables_eq_some h
  have hchange := perform_change N hmac snapshot job
  generalize perform N hmac snapshot job = after at hleases hchange ⊢
  obtain ⟨hmerged, hpresent⟩ := commitLeases_rows hleases
  have hold : ∀ cur ∈ s.tables.leases.rows, dropped snapshot.leases after.leases cur.id = false →
      rewrite flushLease snapshot.leases after.leases cur ∈ leases.rows := by
    intro cur hcur hkept
    rw [hmerged]
    refine List.mem_append_left _ (List.mem_map_of_mem (List.mem_filter.mpr ⟨hcur, ?_⟩))
    rw [hkept]
    rfl
  have hnew : ∀ l ∈ inserts snapshot.leases after.leases, l ∈ leases.rows := by
    intro l hl
    rw [hmerged]
    exact List.mem_append_right _ hl
  have hstep : ∀ cur ∈ s.tables.leases.rows, dropped snapshot.leases after.leases cur.id = false →
      RowStep job s.now after cur (rewrite flushLease snapshot.leases after.leases cur) := by
    intro cur hcur hkept
    rcases rewrite_step hbeats hrelies hchange hcur hkept with ⟨-, hrow⟩ | ⟨hunknown, hsame⟩
    · exact hrow
    · rw [hsame]
      refine ⟨rfl, rfl, hbeats.timed cur hcur, Nat.le_refl _, fun _ => rfl, fun y hy hyid => ?_⟩
      have hcur' : cur ∈ leases.rows := hsame ▸ hold cur hcur hkept
      have hins : y ∈ inserts snapshot.leases after.leases := by
        refine List.mem_filter.mpr ⟨hy, ?_⟩
        rw [Table.get?_eq_none.mpr fun l hl hid => hunknown l hl (hid.trans hyid)]
        rfl
      rw [Table.eq_of_key (hnew y hins) hcur' hyid]
  refine ⟨fun cur hcur => ?_, fun x hx => ?_, fun y hy => ?_, fun id hid => ?_⟩
  · by_cases hnot : cur.id ∈ deletions snapshot after
    · exact Or.inl hnot
    · have hkept := dropped_eq_false hnot
      exact Or.inr ⟨_, hold cur hcur hkept, hstep cur hcur hkept⟩
  · rw [hmerged, List.mem_append, List.mem_map] at hx
    rcases hx with ⟨cur, hcur, rfl⟩ | hx
    · obtain ⟨hcur, hkept⟩ := List.mem_filter.mp hcur
      have hkept := (Bool.not_eq_true' _).mp hkept
      refine Or.inl ⟨cur, hcur, fun hgone => ?_, hstep cur hcur hkept⟩
      exact Bool.false_ne_true (hkept.symm.trans (List.mem_filter.mp hgone).2)
    · exact Or.inr ⟨hx, hchange.inserted hx⟩
  · rcases hchange.lease hy with ⟨l, hl, hfate⟩ | ⟨op, call, -, hc⟩
    · obtain ⟨-, hgone | ⟨cur, hcur, hid, -⟩⟩ := hrelies.1 l hl
      · exact Or.inl (hfate.id_eq ▸ hgone)
      · have hkept : dropped snapshot.leases after.leases cur.id = false := by
          by_contra hdropped
          obtain ⟨-, hnone⟩ := dropped_eq_true.mp ((Bool.not_eq_false _).mp hdropped)
          exact hnone y hy (hfate.id_eq.trans hid.symm)
        have hrow := hstep cur hcur hkept
        have hcover := hrow.covers y hy (hfate.id_eq.trans hid.symm)
        exact Or.inr ⟨_, hold cur hcur hkept, hrow.id_eq.trans (hid.trans hfate.id_eq.symm), hcover⟩
    · refine Or.inr ⟨y, hnew y (List.mem_filter.mpr ⟨hy, ?_⟩), rfl, Nat.le_refl _⟩
      rw [Table.get?_eq_none.mpr hc.fresh]
      rfl
  · obtain ⟨l, hl, hlid, hactive, l', hl', hl'id, hexpired⟩ := marked_row hid
    obtain ⟨cur, hcur, hcurid⟩ := hpresent l hl l' hl' (hl'id.trans hlid.symm) fun hsame =>
      hactive (hsame ▸ hexpired)
    exact ⟨cur, hcur, hcurid.trans hlid⟩

theorem Timed.mono {now now' : ℕ} {l : StoreConnectionLease} (h : Timed now l) (hle : now ≤ now') :
    Timed now' l := ⟨h.beaten, Nat.le_trans h.past hle, h.expires⟩

/-- What a step of the request `r` leaves to the others. -/
structure Advances (r : ℕ) (s s' : Shared) : Prop where
  now : s.now ≤ s'.now
  gone : ∀ id ∈ s.gone, id ∈ s'.gone
  rows : ∀ cur ∈ s.tables.leases.rows, cur.id ∈ s'.gone ∨ ∃ x ∈ s'.tables.leases.rows,
    x.id = cur.id ∧ x.storeId = cur.storeId ∧ heartbeat cur ≤ heartbeat x
  quiet : ∀ storeId, s.holder storeId ≠ some r → ∀ t, QuietSince s storeId t →
    QuietSince s' storeId t
  holder : ∀ q storeId, q ≠ r → s.holder storeId = some q → s'.holder storeId = some q

theorem Advances.of_leases {s' : Shared} (hleases : s'.tables.leases = s.tables.leases)
    (hgone : s'.gone = s.gone) (hnow : s.now ≤ s'.now)
    (hholder : ∀ q storeId, q ≠ r → s.holder storeId = some q → s'.holder storeId = some q) :
    Advances r s s' := by
  refine ⟨hnow, fun id hid => hgone ▸ hid, fun cur hcur => ?_, fun storeId _ t h => ?_, hholder⟩
  · rw [hleases]
    exact Or.inr ⟨cur, hcur, rfl, rfl, Nat.le_refl _⟩
  · unfold QuietSince
    rw [hleases]
    exact h

theorem Behind.advances {s' : Shared} (h : Behind snapshot s) (hadv : Advances r s s') :
    Behind snapshot s' := by
  intro l hl
  obtain ⟨htimed, hrow⟩ := h l hl
  refine ⟨htimed.mono hadv.now, ?_⟩
  rcases hrow with hgone | ⟨cur, hcur, hid, hstore, hbeat⟩
  · exact Or.inl (hadv.gone l.id hgone)
  · rcases hadv.rows cur hcur with hgone | ⟨x, hx, hxid, hxstore, hxbeat⟩
    · exact Or.inl (hid ▸ hgone)
    · exact Or.inr ⟨x, hx, hxid.trans hid, hxstore.trans hstore, Nat.le_trans hbeat hxbeat⟩

/-- **What the others rely on is stable.** -/
theorem Relies.advances {s' : Shared} {q : ℕ} {stage : Stage} (h : Relies q s stage)
    (hadv : Advances r s s') (hq : q ≠ r) : Relies q s' stage := by
  have hfree : ∀ storeId, s.holder storeId = some q → s.holder storeId ≠ some r := by
    intro storeId hheld hr
    exact hq (Option.some.inj (hheld.symm.trans hr))
  cases stage with
  | begun snapshot since => exact Behind.advances h hadv
  | locked snapshot storeId since =>
    obtain ⟨hbehind, hheld, hquiet⟩ := h
    exact ⟨hbehind.advances hadv, hadv.holder q storeId hq hheld,
      hadv.quiet storeId (hfree storeId hheld) since hquiet⟩
  | decided snapshot job =>
    obtain ⟨hbehind, hclock, hwritten, hlocks⟩ := h
    refine ⟨hbehind.advances hadv, fun l hl => Nat.le_trans (hclock l hl) hadv.now,
      fun t ht => Nat.le_trans (hwritten t ht) hadv.now, fun storeId hlock => ?_⟩
    obtain ⟨hheld, hquiet⟩ := hlocks storeId hlock
    exact ⟨hadv.holder q storeId hq hheld,
      fun t ht => hadv.quiet storeId (hfree storeId hheld) t (hquiet t ht)⟩
  | _ => trivial

/-- Only the locks change as a lock is given back. -/
structure Released (s s' : Shared) : Prop where
  tables : s'.tables = s.tables
  now : s'.now = s.now
  renewed : s'.renewed = s.renewed
  lapsed : s'.lapsed = s.lapsed
  gone : s'.gone = s.gone

theorem release_eq (s : Shared) (job : Job) : Released s (s.release job) := by
  unfold Shared.release
  split <;> exact ⟨rfl, rfl, rfl, rfl, rfl⟩

theorem release_holder (hrelies : Relies r s (.decided snapshot job)) (q storeId : ℕ) (hq : q ≠ r)
    (hheld : s.holder storeId = some q) : (s.release job).holder storeId = some q := by
  obtain ⟨-, -, -, hlocks⟩ := hrelies
  unfold Shared.release
  split
  · next sid hlock => exact release_lock (hlocks sid hlock).1 q storeId hq hheld
  · exact hheld

theorem Released.beats {s' : Shared} (hbeats : Beats s) (h : Released s s') : Beats s' := by
  refine ⟨?_, ?_, ?_, ?_⟩
  · rw [h.tables, h.now]
    exact hbeats.timed
  · rw [h.tables, h.gone]
    exact hbeats.fresh
  · rw [h.tables, h.renewed, h.gone]
    exact hbeats.stands
  · unfold Protected
    rw [h.renewed, h.lapsed]
    exact hbeats.safe

theorem Released.advances {s' : Shared} (h : Released s s')
    (hholder : ∀ q storeId, q ≠ r → s.holder storeId = some q → s'.holder storeId = some q) :
    Advances r s s' :=
  .of_leases (by rw [h.tables]) h.gone (Nat.le_of_eq h.now.symm) hholder

theorem commit_advances (hbeats : Beats s) (hrelies : Relies r s (.decided snapshot job)) :
    Advances r s (s.commit N hmac snapshot job) := by
  have hreleased := release_eq s job
  unfold Shared.commit
  simp only
  split
  · next tables htab =>
    obtain ⟨hforward, hback, -⟩ := commit_rows hbeats hrelies htab
    refine ⟨Nat.le_of_eq hreleased.now.symm, fun id hid => List.mem_append_right _ hid,
      fun cur hcur => ?_, fun storeId hfree t hquiet x hx hxstore => ?_,
      fun q storeId hq hheld => release_holder hrelies q storeId hq hheld⟩
    · rcases hforward cur hcur with hgone | ⟨x, hx, hstep⟩
      · exact Or.inl (List.mem_append_left _ hgone)
      · exact Or.inr ⟨x, hx, hstep.id_eq, hstep.store_eq, hstep.advances⟩
    · have hother : job.locks ≠ some storeId := fun hlock => hfree (hrelies.2.2.2 storeId hlock).1
      rcases hback x hx with ⟨cur, hcur, -, hstep⟩ | ⟨-, op, call, rfl, hnew⟩
      · have hcurstore := hstep.store_eq.symm.trans hxstore
        rw [hstep.keeps (hcurstore ▸ hother)]
        exact hquiet cur hcur hcurstore
      · have hlock := (hnew.timed fun t ht => hrelies.2.2.1 t (renews_writtenAt ht)).2.2.1
        exact absurd (hxstore ▸ hlock) hother
  · exact hreleased.advances fun q storeId hq hheld => release_holder hrelies q storeId hq hheld

/-- What a careful commit marks has not been renewed for ninety seconds. -/
theorem Spares.late (hspares : Spares N hmac s snapshot job) (hbeats : Beats s)
    (hrelies : Relies r s (.decided snapshot job)) :
    ∀ id ∈ marks snapshot (perform N hmac snapshot job), ∀ cur ∈ s.tables.leases.rows,
      cur.id = id → heartbeat cur + seconds 90 ≤ s.now := by
  obtain ⟨hbehind, hclock, hwritten, -⟩ := hrelies
  intro id hid cur hcur hcurid
  rcases hspares.marked id hid cur hcur hcurid with ⟨l, hl, hlid, hsame⟩ | hold
  · obtain ⟨l₀, hl₀, hl₀id, hactive, l', hl', hl'id, hexpired⟩ := marked_row hid
    obtain rfl := Table.eq_of_key hl₀ hl (hl₀id.trans hlid.symm)
    have hfate := (perform_change N hmac snapshot job).fate hl₀ hl' (hl'id.trans hl₀id.symm)
    have hbeat := heartbeat_of_marked hfate (hbehind l₀ hl₀).1 hactive hexpired
      (hclock l₀ hl₀) hwritten
    have hcurbeat := (hbeats.timed cur hcur).beaten
    rw [← hsame, (hbehind l₀ hl₀).1.beaten] at hcurbeat
    rw [← Option.some.inj hcurbeat]
    exact hbeat
  · exact hold

/-- **A careful commit keeps every accepted heartbeat safe.** -/
theorem commit_beats (hbeats : Beats s) (hrelies : Relies r s (.decided snapshot job))
    (hspares : Spares N hmac s snapshot job) : Beats (s.commit N hmac snapshot job) := by
  have hreleased := release_eq s job
  unfold Shared.commit
  simp only
  split
  · next tables htab =>
    obtain ⟨hforward, hback, hcovers, hthere⟩ := commit_rows hbeats hrelies htab
    have hmarked := hspares.late hbeats hrelies
    obtain ⟨-, -, hwritten, -⟩ := hrelies
    refine ⟨fun x hx => ?_, fun x hx => ?_, fun p hp => ?_, fun p hp q hq hpq => ?_⟩
    · rw [hreleased.now]
      rcases hback x hx with ⟨cur, hcur, -, hstep⟩ | ⟨-, op, call, rfl, hnew⟩
      · exact hstep.timed
      · exact (hnew.timed fun t ht => hwritten t (renews_writtenAt ht)).1
    · rcases hback x hx with ⟨cur, hcur, hkept, hstep⟩ | ⟨hins, op, call, rfl, hnew⟩
      · rw [hstep.id_eq, List.mem_append]
        exact fun hgone => hgone.elim hkept (hbeats.fresh cur hcur)
      · rw [List.mem_append]
        rintro (hgone | hgone)
        · obtain ⟨l, hl, hid⟩ := List.mem_map.mp (List.mem_filter.mp hgone).1
          exact hnew.fresh l hl hid
        · exact hspares.drawn x hins hgone
    · rcases List.mem_append.mp hp with hp | hp
      · obtain ⟨hrenews, l', hl', hid, -, hbeat⟩ :=
          accepted_row (Option.mem_toList.mp hp : accepted N hmac snapshot job = some p)
        have hheart : heartbeat l' = p.2 := by rw [heartbeat, hbeat, Option.getD_some]
        rcases hcovers l' hl' with hgone | ⟨x, hx, hxid, hxbeat⟩
        · exact Or.inl (List.mem_append_right _ (hid ▸ hgone))
        · exact Or.inr ⟨x, hx, hxid.trans hid, hheart ▸ hxbeat⟩
      · rcases hbeats.stands p hp with hgone | ⟨cur, hcur, hid, hbeat⟩
        · exact Or.inl (List.mem_append_right _ hgone)
        · rcases hforward cur hcur with hgone | ⟨x, hx, hstep⟩
          · exact Or.inl (List.mem_append_left _ (hid ▸ hgone))
          · exact Or.inr ⟨x, hx, hstep.id_eq.trans hid, Nat.le_trans hbeat hstep.advances⟩
    · rcases List.mem_append.mp hp with hp | hp <;> rcases List.mem_append.mp hq with hq | hq
      · -- the lease would be marked and renewed at once
        obtain ⟨id, hid, rfl⟩ := List.mem_map.mp hq
        obtain ⟨-, x, hx, hxid, hactive, -⟩ :=
          accepted_row (Option.mem_toList.mp hp : accepted N hmac snapshot job = some p)
        obtain ⟨l, -, -, -, l', hl', hl'id, hexpired⟩ := marked_row hid
        rw [Table.eq_of_key hx hl' (hxid.trans (hpq.trans hl'id.symm)), hexpired] at hactive
        exact LeaseStatus.noConfusion hactive
      · exact absurd hpq.symm (hspares.renewed p (Option.mem_toList.mp hp) q hq)
      · -- what has been marked is there, so its last heartbeat stands
        obtain ⟨id, hid, rfl⟩ := List.mem_map.mp hq
        obtain ⟨cur, hcur, hcurid⟩ := hthere id hid
        have hlate := hmarked id hid cur hcur hcurid
        rcases hbeats.stands p hp with hgone | ⟨cur', hcur', hid', hbeat⟩
        · exact absurd ((hpq.trans hcurid.symm) ▸ hgone) (hbeats.fresh cur hcur)
        · obtain rfl := Table.eq_of_key hcur' hcur (hid'.trans (hpq.trans hcurid.symm))
          exact Nat.le_trans (Nat.add_le_add_right hbeat _) hlate
      · exact hbeats.safe p hp q hq hpq
  · exact hreleased.beats hbeats

/-- **What a step of a request does.** -/
theorem act_spec {s' : Shared} {stage stage' : Stage} {a : Act} (hbeats : Beats s)
    (hrelies : Relies r s stage)
    (hspares : ∀ snapshot job, a = .commit → stage = .decided snapshot job →
      Spares N hmac s snapshot job)
    (h : act N hmac r s stage a = some (s', stage')) :
    Beats s' ∧ Relies r s' stage' ∧ Advances r s s' := by
  have hsame : s'.tables.leases = s.tables.leases → s.now ≤ s'.now → s'.renewed = s.renewed →
      s'.lapsed = s.lapsed → s'.gone = s.gone → Beats s' := by
    intro hleases hnow hrenewed hlapsed hgone
    refine ⟨fun cur hcur => ?_, ?_, ?_, ?_⟩
    · exact (hbeats.timed cur (hleases ▸ hcur)).mono hnow
    · rw [hleases, hgone]
      exact hbeats.fresh
    · rw [hleases, hrenewed, hgone]
      exact hbeats.stands
    · unfold Protected
      rw [hrenewed, hlapsed]
      exact hbeats.safe
  unfold act at h
  split at h
  · next duration =>
    obtain ⟨rfl, rfl⟩ := Prod.mk.inj (Option.some.inj h)
    have hadv {q : ℕ} : Advances q s { s with now := s.now + duration } :=
      .of_leases rfl rfl (Nat.le_add_right _ _) fun _ _ _ hheld => hheld
    exact ⟨hsame rfl (Nat.le_add_right _ _) rfl rfl rfl,
      Relies.advances hrelies hadv (Nat.ne_of_lt (Nat.lt_succ_self r)), hadv⟩
  · next others =>
    obtain ⟨rfl, rfl⟩ := Prod.mk.inj (Option.some.inj h)
    have hadv {q : ℕ} : Advances q s { s with
        tables := { others with stores := s.tables.stores, leases := s.tables.leases } } :=
      .of_leases rfl rfl (Nat.le_refl _) fun _ _ _ hheld => hheld
    exact ⟨hsame rfl (Nat.le_refl _) rfl rfl rfl,
      Relies.advances hrelies hadv (Nat.ne_of_lt (Nat.lt_succ_self r)), hadv⟩
  · obtain ⟨rfl, rfl⟩ := Prod.mk.inj (Option.some.inj h)
    refine ⟨hbeats, fun l hl => ?_, .of_leases rfl rfl (Nat.le_refl _) fun _ _ _ hheld => hheld⟩
    exact ⟨hbeats.timed l hl, Or.inr ⟨l, hl, rfl, rfl, Nat.le_refl _⟩⟩
  · next storeId snapshot since =>
    split_ifs at h with hfree
    obtain ⟨rfl, rfl⟩ := Prod.mk.inj (Option.some.inj h)
    refine ⟨hsame rfl (Nat.le_refl _) rfl rfl rfl, ⟨hrelies, Function.update_self _ _ _, ?_⟩, ?_⟩
    · exact fun cur hcur _ => (hbeats.timed cur hcur).past
    · exact .of_leases rfl rfl (Nat.le_refl _) fun q sid _ hheld => take_lock hfree q sid hheld
  · next job snapshot since =>
    split_ifs at h with hdecide
    obtain ⟨rfl, rfl⟩ := Prod.mk.inj (Option.some.inj h)
    obtain ⟨hnolock, htimely⟩ := hdecide
    obtain ⟨hclock, hwritten⟩ := timely_le htimely
    refine ⟨hbeats, ⟨hrelies, hclock, fun t ht => (hwritten t ht).2, fun storeId hlock => ?_⟩,
      .of_leases rfl rfl (Nat.le_refl _) fun _ _ _ hheld => hheld⟩
    exact absurd (hlock.symm.trans hnolock) (Option.some_ne_none _)
  · next job snapshot storeId since =>
    split_ifs at h with hdecide
    obtain ⟨rfl, rfl⟩ := Prod.mk.inj (Option.some.inj h)
    obtain ⟨hlocked, htimely⟩ := hdecide
    obtain ⟨hclock, hwritten⟩ := timely_le htimely
    obtain ⟨hbehind, hheld, hquiet⟩ := hrelies
    refine ⟨hbeats, ⟨hbehind, hclock, fun t ht => (hwritten t ht).2, fun sid hlock => ?_⟩,
      .of_leases rfl rfl (Nat.le_refl _) fun _ _ _ hheld => hheld⟩
    obtain rfl := Option.some.inj (hlocked.symm.trans hlock)
    refine ⟨hheld, fun t ht cur hcur hstore => ?_⟩
    exact Nat.le_trans (hquiet cur hcur hstore) (hwritten t (renews_writtenAt ht)).1
  · next snapshot job =>
    split_ifs at h with hblocked
    obtain ⟨rfl, rfl⟩ := Prod.mk.inj (Option.some.inj h)
    exact ⟨commit_beats hbeats hrelies (hspares snapshot job rfl rfl), trivial,
      commit_advances hbeats hrelies⟩
  · obtain ⟨rfl, rfl⟩ := Prod.mk.inj (Option.some.inj h)
    exact ⟨hbeats, trivial, .of_leases rfl rfl (Nat.le_refl _) fun _ _ _ hheld => hheld⟩
  · next snapshot storeId since =>
    obtain ⟨rfl, rfl⟩ := Prod.mk.inj (Option.some.inj h)
    refine ⟨hsame rfl (Nat.le_refl _) rfl rfl rfl, trivial, ?_⟩
    exact .of_leases rfl rfl (Nat.le_refl _) fun q sid hq hheld =>
      release_lock hrelies.2.1 q sid hq hheld
  · next snapshot job =>
    obtain ⟨rfl, rfl⟩ := Prod.mk.inj (Option.some.inj h)
    have hreleased := release_eq s job
    exact ⟨hreleased.beats hbeats, trivial, hreleased.advances fun q sid hq hheld =>
      release_holder hrelies q sid hq hheld⟩
  · exact absurd h (Option.some_ne_none _).symm

end Commit

/-! ## The theorem -/

/-- **An accepted heartbeat protects its lease**, in every interleaving whose commits are careful: no
state is reached in which a lease has been marked as expired less than 90 seconds after a heartbeat,
a connection or a preflight that was accepted for it. -/
theorem protected_of_careful {tables : LeaseDb} {now : ℕ} {t : Crew Shared Stage}
    {events : List (ℕ × Act)} (htimed : ∀ l ∈ tables.leases.rows, Timed now l)
    (hc : Along (step (act N hmac)) (Careful N hmac) (openCrew tables now) events)
    (hr : run (step (act N hmac)) (openCrew tables now) events = some t) : Protected t.shared := by
  have hspares : ∀ (c : Crew Shared Stage) r a, Careful N hmac c (r, a) → ∀ snapshot job,
      a = .commit → c.loc r = .decided snapshot job → Spares N hmac c.shared snapshot job := by
    rintro c r a hcareful snapshot job rfl hloc
    simpa only [Careful, hloc] using hcareful
  have hstart : Holds Beats Relies (openCrew tables now) :=
    ⟨⟨htimed, fun _ _ => List.not_mem_nil, fun p hp => absurd hp List.not_mem_nil,
      fun p hp => absurd hp List.not_mem_nil⟩, fun _ => trivial⟩
  refine (run_owicki (C := Careful N hmac) ?_ ?_ hstart hc hr).1.safe
  · intro c r a s' m' hI hA hC h
    obtain ⟨hbeats, hrelies, -⟩ := act_spec hI hA (hspares c r a hC) h
    exact ⟨hbeats, hrelies⟩
  · intro c r a s' m' q hI hA hC h hq hAq
    exact hAq.advances (act_spec hI hA (hspares c r a hC) h).2.2 hq

/-! ## Two runs -/

instance (s : Shared) : Decidable (Protected s) := by
  unfold Protected; infer_instance

instance (s : Shared) (snapshot : LeaseDb) (job : Job) : Decidable (Spares N hmac s snapshot job) :=
  decidable_of_iff (_ ∧ _ ∧ _) ⟨fun h => ⟨h.1, h.2.1, h.2.2⟩, fun h => ⟨h.marked, h.renewed, h.drawn⟩⟩

instance (c : Crew Shared Stage) (e : ℕ × Act) : Decidable (Careful N hmac c e) := by
  unfold Careful; split <;> infer_instance

/-- The steps of a request that takes the lock of the store. -/
def lockedSteps (r : ℕ) (op : Op) : List (ℕ × Act) :=
  [(r, .begin), (r, .lock 1), (r, .decide (.request op)), (r, .commit)]

def sampleBeat (now : ℕ) : Op := .heartbeat (sampleCall now) "lease-1" "device-a"

/-- A connection, and a heartbeat a minute later. -/
def calmSchedule : List (ℕ × Act) :=
  lockedSteps 1 (sampleConnect 0 "lease-1" "device-a") ++ (2, .pass (seconds 60)) ::
    lockedSteps 2 (sampleBeat (seconds 60))

theorem protected_of_careful_calm : ∃ t,
    run (step (act Names.sample fun _ _ => [])) (openCrew sampleTables 0) calmSchedule = some t ∧
      t.shared.renewed = [("lease-1", seconds 60), ("lease-1", 0)] ∧ Protected t.shared := by
  obtain ⟨t, hr, hrenewed⟩ : ∃ t,
      run (step (act Names.sample fun _ _ => [])) (openCrew sampleTables 0) calmSchedule = some t ∧
        t.shared.renewed = [("lease-1", seconds 60), ("lease-1", 0)] :=
    ⟨_, rfl, by decide +kernel⟩
  refine ⟨t, hr, hrenewed, protected_of_careful Names.sample (fun _ _ => []) ?_ ?_ hr⟩
  · exact fun _ hl => absurd hl List.not_mem_nil
  · decide +kernel

/-- A list of the stores begins, a heartbeat is accepted after 89 seconds, and the list goes on. -/
def staleSchedule : List (ℕ × Act) :=
  lockedSteps 1 (sampleConnect 0 "lease-1" "device-a") ++ (2, .pass (seconds 89)) ::
    (3, .begin) :: lockedSteps 2 (sampleBeat (seconds 89)) ++
    [(3, .pass (seconds 2)), (3, .decide (.request (.listStores (sampleCall (seconds 91)).toCall))),
      (3, .commit)]

/-- The list begins and ends between the reading of the clock by the heartbeat and its commit. -/
def overtakenSchedule : List (ℕ × Act) :=
  lockedSteps 1 (sampleConnect 0 "lease-1" "device-a") ++ [(2, .pass (seconds 90)), (2, .begin),
    (2, .lock 1), (2, .decide (.request (sampleBeat (seconds 90)))), (3, .begin), (3, .pass (seconds 1)),
    (3, .decide (.request (.listStores (sampleCall (seconds 91)).toCall))), (3, .commit), (2, .commit)]

/-- The lease is over right after a heartbeat that was accepted. -/
theorem marked_after_heartbeat :
    (∃ t, run (step (act Names.sample fun _ _ => [])) (openCrew sampleTables 0) staleSchedule = some t ∧
      t.shared.lapsed = [("lease-1", seconds 91)] ∧ ¬ Protected t.shared) ∧
    ∃ t, run (step (act Names.sample fun _ _ => [])) (openCrew sampleTables 0) overtakenSchedule = some t ∧
      t.shared.lapsed = [("lease-1", seconds 91)] ∧ ¬ Protected t.shared :=
  ⟨⟨_, rfl, by decide +kernel, by decide +kernel⟩, ⟨_, rfl, by decide +kernel, by decide +kernel⟩⟩

end IdenGrid.Control.Leases
