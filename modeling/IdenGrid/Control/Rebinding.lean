import IdenGrid.Control.LeaseRaces

/-! # Binding a store to another node

`update_managed_store` reads the store without the lock of its row, looks for active leases and writes
the row later on. `rebinding_iff`: a store is moved while it has an active lease exactly if the update
has not seen that lease as it is when it commits. `moved_while_leased` is a run in which a connection
gets in between. -/

namespace IdenGrid.Control.Leases

open IdenGrid.Lib.Run IdenGrid.Lib.Requests IdenGrid.Lib.Store IdenGrid.Lib.Orm
open IdenGrid.Control.Rows IdenGrid.Control.Targets IdenGrid.Control.Stores

/-- The store gets another node. -/
def Moved (s s' : Shared) (storeId : ℕ) : Prop :=
  ∃ store ∈ s.tables.stores.rows, ∃ store' ∈ s'.tables.stores.rows,
    store.id = storeId ∧ store'.id = storeId ∧ store'.edgeNodeId ≠ store.edgeNodeId

variable (N : Names) (hmac : List ℕ → List ℕ → List ℕ)

/-- **The property of a step**: a store that gets another node has no active lease that is not stale. -/
def KeepsBinding (c : Crew Shared Stage) (e : ℕ × Act) : Prop :=
  ∀ c', step (act N hmac) c e = some c' → ∀ storeId, Moved c.shared c'.shared storeId →
    ∀ l ∈ c.shared.tables.leases.rows, l.activeOn storeId = true → l.stale c.shared.now = true

/-- An update that moves a store has seen each of its active leases as it is now, or the lease is
stale by now. -/
def Seen (c : Crew Shared Stage) (e : ℕ × Act) : Prop :=
  ∀ c', step (act N hmac) c e = some c' → ∀ storeId, Moved c.shared c'.shared storeId →
    ∀ l ∈ c.shared.tables.leases.rows, l.activeOn storeId = true →
      l.stale c.shared.now = true ∨
        ∃ snapshot job, c.loc e.1 = .decided snapshot job ∧ l ∈ snapshot.leases.rows

/-- A request that has decided has read the clock before. -/
def ReadPast (s : Shared) : Stage → Prop
  | .decided snapshot job => ∀ l ∈ snapshot.leases.rows, job.leaseAt l.id ≤ s.now
  | _ => True

section Step

variable {N hmac} {r : ℕ} {s s' : Shared} {stage stage' : Stage} {a : Act}

theorem stale_mono {l : StoreConnectionLease} {t t' : ℕ} (h : l.stale t = true) (hle : t ≤ t') :
    l.stale t' = true := by
  simp only [StoreConnectionLease.stale, Bool.or_eq_true, decide_eq_true_eq] at h ⊢
  omega

theorem release_tables (s : Shared) (job : Job) :
    (s.release job).tables = s.tables ∧ (s.release job).now = s.now := by
  unfold Shared.release
  split <;> exact ⟨rfl, rfl⟩

theorem commit_now (s : Shared) (snapshot : LeaseDb) (job : Job) :
    (s.commit N hmac snapshot job).now = s.now := by
  have hnow := (release_tables s job).2
  unfold Shared.commit
  simp only
  split
  · exact hnow
  · exact hnow

/-- Nothing but a commit writes a store, and the clock runs on. -/
theorem act_cases (h : act N hmac r s stage a = some (s', stage')) :
    (s'.tables.stores = s.tables.stores ∧ s.now ≤ s'.now ∧
        (ReadPast s stage → ReadPast s' stage')) ∨
      ∃ snapshot job, stage = .decided snapshot job ∧ s' = s.commit N hmac snapshot job ∧
        stage' = .done := by
  unfold act at h
  split at h
  · next duration =>
    obtain ⟨rfl, rfl⟩ := Prod.mk.inj (Option.some.inj h)
    have hlater : s.now ≤ s.now + duration := Nat.le_add_right _ _
    refine Or.inl ⟨rfl, hlater, fun hread => ?_⟩
    cases stage with
    | decided snapshot job => exact fun l hl => Nat.le_trans (hread l hl) hlater
    | _ => trivial
  · obtain ⟨rfl, rfl⟩ := Prod.mk.inj (Option.some.inj h)
    refine Or.inl ⟨rfl, Nat.le_refl _, fun hread => ?_⟩
    cases stage with
    | decided snapshot job => exact hread
    | _ => trivial
  · obtain ⟨rfl, rfl⟩ := Prod.mk.inj (Option.some.inj h)
    exact Or.inl ⟨rfl, Nat.le_refl _, fun _ => trivial⟩
  · split_ifs at h with hfree
    obtain ⟨rfl, rfl⟩ := Prod.mk.inj (Option.some.inj h)
    exact Or.inl ⟨rfl, Nat.le_refl _, fun _ => trivial⟩
  · split_ifs at h with hdecide
    obtain ⟨rfl, rfl⟩ := Prod.mk.inj (Option.some.inj h)
    exact Or.inl ⟨rfl, Nat.le_refl _, fun _ => (timely_le hdecide.2).1⟩
  · split_ifs at h with hdecide
    obtain ⟨rfl, rfl⟩ := Prod.mk.inj (Option.some.inj h)
    exact Or.inl ⟨rfl, Nat.le_refl _, fun _ => (timely_le hdecide.2).1⟩
  · next snapshot job =>
    split_ifs at h with hblocked
    obtain ⟨rfl, rfl⟩ := Prod.mk.inj (Option.some.inj h)
    exact Or.inr ⟨snapshot, job, rfl, rfl, rfl⟩
  · obtain ⟨rfl, rfl⟩ := Prod.mk.inj (Option.some.inj h)
    exact Or.inl ⟨rfl, Nat.le_refl _, fun _ => trivial⟩
  · obtain ⟨rfl, rfl⟩ := Prod.mk.inj (Option.some.inj h)
    exact Or.inl ⟨rfl, Nat.le_refl _, fun _ => trivial⟩
  · next snapshot job =>
    obtain ⟨rfl, rfl⟩ := Prod.mk.inj (Option.some.inj h)
    obtain ⟨htables, hnow⟩ := release_tables s job
    exact Or.inl ⟨by rw [htables], Nat.le_of_eq hnow.symm, fun _ => trivial⟩
  · exact absurd h (Option.some_ne_none _).symm

/-- A store before and after the write-back by a request that has loaded it as `loaded`. -/
theorem rewrite_store {before after : Table ManagedStore.id} {store : ManagedStore}
    (h : (rewrite flushStore before after store).edgeNodeId ≠ store.edgeNodeId) :
    ∃ loaded ∈ before.rows, ∃ new ∈ after.rows, loaded.id = store.id ∧ new.id = store.id ∧
      new.edgeNodeId ≠ loaded.edgeNodeId := by
  unfold rewrite at h
  split at h
  · next loaded new hloaded hnew =>
    obtain ⟨hl, hlid⟩ := Table.get?_eq_some.mp hloaded
    obtain ⟨hn, hnid⟩ := Table.get?_eq_some.mp hnew
    refine ⟨loaded, hl, new, hn, hlid, hnid, fun hsame => h ?_⟩
    simp only [flushStore, hsame, col_same]
  · exact absurd rfl h

/-- **An update that moves a store** has found no active lease of it. -/
theorem update_moves {db db' : LeaseDb} {call : UpdateCall} {changed loaded new : ManagedStore}
    (h : updateManagedStore db call = .ok (db', changed)) (hloaded : loaded ∈ db.stores.rows)
    (hnew : new ∈ db'.stores.rows) (hid : new.id = loaded.id)
    (hmoved : new.edgeNodeId ≠ loaded.edgeNodeId) :
    activeStoreLeases db.leases loaded.id call.leaseAt = [] := by
  obtain ⟨store, hstore, hfree, happly, -, hrest⟩ := updateManagedStore_eq_ok h
  obtain ⟨hmem, -⟩ := Table.get?_eq_some.mp hstore
  rw [hrest.stores] at hnew
  rcases Table.mem_put hnew with rfl | ⟨hold, -⟩
  · have hsame : store.id = loaded.id := (apply_id happly).symm.trans hid
    obtain rfl := Table.eq_of_key hmem hloaded hsame
    refine hfree ?_
    unfold StoreChanges.apply at happly
    split at happly
    · next label edgeNodeId enabled _ hedge _ =>
      obtain rfl := Except.ok.inj happly
      unfold StoreChanges.rebinds
      rcases hchange : call.changes.edgeNodeId with _ | node
      · rw [hchange] at hedge
        exact absurd (Option.some.inj hedge).symm hmoved
      · rw [hchange] at hedge
        obtain rfl : node = some edgeNodeId := hedge
        simpa using hmoved
    · exact absurd happly (by simp)
  · rw [Table.eq_of_key hold hloaded hid] at hmoved
    exact absurd rfl hmoved

/-- **A store is moved by an update** that has found all active leases of its snapshot stale. -/
theorem commit_moved {snapshot : LeaseDb} {job : Job} {storeId : ℕ}
    (hread : ∀ l ∈ snapshot.leases.rows, job.leaseAt l.id ≤ s.now)
    (hmoved : Moved s (s.commit N hmac snapshot job) storeId) :
    ∀ l ∈ snapshot.leases.rows, l.activeOn storeId = true → l.stale s.now = true := by
  obtain ⟨store, hstore, store', hstore', rfl, hid, hedge⟩ := hmoved
  have hsame : (s.release job).tables = s.tables := (release_tables s job).1
  unfold Shared.commit at hstore'
  simp only at hstore'
  split at hstore'
  · next tables htables =>
    obtain ⟨leases, stores, -, hstores, rfl⟩ := commitTables_eq_some htables
    have hrows : store' ∈ stores.rows := hstore'
    obtain ⟨cur, hcur, rfl⟩ := commitStores_rows hstores store' hrows
    obtain rfl := Table.eq_of_key hcur hstore ((rewrite_key flushStore_id _ _ cur).symm.trans hid)
    obtain ⟨loaded, hloaded, new, hnew, hloadedId, hnewId, hmove⟩ := rewrite_store hedge
    rcases (perform_change N hmac snapshot job).stores with ⟨call, rfl⟩ | hstays
    · rcases hout : updateManagedStore snapshot call with fault | ⟨db', changed⟩
      · simp only [perform, handle, settle, hout] at hnew
        rw [Table.eq_of_key hnew hloaded (hnewId.trans hloadedId.symm)] at hmove
        exact absurd rfl hmove
      · simp only [perform, handle, settle, hout] at hnew
        have hnone := update_moves hout hloaded hnew (hnewId.trans hloadedId.symm) hmove
        intro l hl hon
        simp only [StoreConnectionLease.activeOn, Bool.and_eq_true, beq_iff_eq] at hon
        by_contra hfresh
        have hclock : l.stale (call.leaseAt l.id) = false := by
          by_contra hstale
          have hstale : l.stale (call.leaseAt l.id) = true := (Bool.not_eq_false _).mp hstale
          exact hfresh (stale_mono hstale (hread l hl))
        have hmem := mem_activeStoreLeases.mpr
          ⟨hl, hon.1.trans hloadedId.symm, hon.2, hclock⟩
        rw [hnone] at hmem
        exact List.not_mem_nil hmem
    · obtain ⟨x, hx, hxid, hxedge⟩ := hstays new hnew
      obtain rfl := Table.eq_of_key hx hloaded (hxid.symm.trans (hnewId.trans hloadedId.symm))
      exact absurd hxedge hmove
  · rw [hsame] at hstore'
    rw [Table.eq_of_key hstore' hstore hid] at hedge
    exact absurd rfl hedge

theorem ReadPast.mono {stage : Stage} (h : ReadPast s stage) (hle : s.now ≤ s'.now) :
    ReadPast s' stage := by
  cases stage with
  | decided snapshot job => exact fun l hl => Nat.le_trans (h l hl) hle
  | _ => trivial

/-- A step of a request: the readings of the clock of all requests stay past. -/
theorem readPast_step {c c' : Crew Shared Stage} {e : ℕ × Act}
    (hread : ∀ r, ReadPast c.shared (c.loc r)) (h : step (act N hmac) c e = some c') :
    ∀ r, ReadPast c'.shared (c'.loc r) := by
  obtain ⟨s', stage', hact, rfl⟩ := step_eq_some.mp h
  have hboth : c.shared.now ≤ s'.now ∧ ReadPast s' stage' := by
    rcases act_cases hact with ⟨-, hnow, hstage⟩ | ⟨snapshot, job, -, rfl, rfl⟩
    · exact ⟨hnow, hstage (hread e.1)⟩
    · exact ⟨Nat.le_of_eq (commit_now c.shared snapshot job).symm, trivial⟩
  intro q
  by_cases hq : q = e.1
  · subst hq
    simpa using hboth.2
  · simp only [Function.update_of_ne hq]
    exact (hread q).mono hboth.1

/-- **A step that moves a store** is the commit of a request, which has found the leases of its
snapshot stale. -/
theorem step_moved {c c' : Crew Shared Stage} {e : ℕ × Act} {storeId : ℕ}
    (hread : ∀ r, ReadPast c.shared (c.loc r)) (h : step (act N hmac) c e = some c')
    (hmoved : Moved c.shared c'.shared storeId) :
    ∃ snapshot job, c.loc e.1 = .decided snapshot job ∧ ∀ l ∈ snapshot.leases.rows,
      l.activeOn storeId = true → l.stale c.shared.now = true := by
  obtain ⟨s', stage', hact, rfl⟩ := step_eq_some.mp h
  rcases act_cases hact with ⟨hstores, -⟩ | ⟨snapshot, job, hloc, rfl, rfl⟩
  · obtain ⟨store, hstore, store', hstore', rfl, hid, hedge⟩ := hmoved
    rw [hstores] at hstore'
    rw [Table.eq_of_key hstore' hstore hid] at hedge
    exact absurd rfl hedge
  · have hpast := hread e.1
    rw [hloc] at hpast
    exact ⟨snapshot, job, hloc, commit_moved hpast hmoved⟩

end Step

/-- **A store is not moved while it is leased, exactly**: in every interleaving, from any tables, no
step gives a store another node while it has a non-stale active lease, if and only if every update
that moves a store has seen each of its active leases as it is by then, or the lease is stale. -/
theorem rebinding_iff (tables : LeaseDb) (now : ℕ) (events : List (ℕ × Act)) :
    Along (step (act N hmac)) (Seen N hmac) (openCrew tables now) events ↔
      Along (step (act N hmac)) (KeepsBinding N hmac) (openCrew tables now) events := by
  have hstart : ∀ r, ReadPast (openCrew tables now).shared ((openCrew tables now).loc r) :=
    fun _ => trivial
  constructor
  · refine along_of_inv (I := fun c => ∀ r, ReadPast c.shared (c.loc r))
      (fun c e c' hread _ h => readPast_step hread h)
      (fun c e hread hseen c' h sid hmoved l hl hon => ?_) events _ hstart
    rcases hseen c' h sid hmoved l hl hon with hstale | ⟨snapshot, job, hloc, hmem⟩
    · exact hstale
    · obtain ⟨snapshot', job', hloc', hall⟩ := step_moved hread h hmoved
      obtain ⟨rfl, rfl⟩ := Stage.decided.inj (hloc.symm.trans hloc')
      exact hall l hmem hon
  · refine along_of_inv (I := fun _ => True) (fun _ _ _ _ _ _ => trivial)
      (fun c e _ hkeeps c' h sid hmoved l hl hon => ?_) events _ trivial
    exact Or.inl (hkeeps c' h sid hmoved l hl hon)

/-! ## A run that moves a leased store -/

/-- The store of the member, a second node and an administrator. -/
def twoNodes : LeaseDb :=
  { sampleTables with
    users := ⟨[Sessions.sampleUser, { Sessions.sampleUser with id := 1, role := .admin }], by decide⟩
    nodes := ⟨[sampleNode, { sampleNode with id := 2, name := "edge-b" }], by decide⟩ }

/-- The administrator moves the store to the second node. -/
def sampleUpdate : Job :=
  .request <| .update
    { bearer := .web ⟨1, 0⟩
      authAt := 0
      leaseAt := fun _ => 0
      storeId := 1
      changes := { edgeNodeId := some (some 2) }
      auditAt := 0 }

/-- The step moves a store that is leased. -/
def movesLeased (c : Crew Shared Stage) (e : ℕ × Act) : Bool :=
  (step (act N hmac) c e).any fun c' =>
    c.shared.tables.stores.rows.any fun store =>
      c'.shared.tables.stores.rows.any fun store' =>
        store'.id == store.id && store'.edgeNodeId != store.edgeNodeId &&
          c.shared.tables.leases.rows.any fun l =>
            l.activeOn store.id && !l.stale c.shared.now

theorem not_keepsBinding {c : Crew Shared Stage} {e : ℕ × Act}
    (h : movesLeased N hmac c e = true) : ¬ KeepsBinding N hmac c e := by
  simp only [movesLeased, Option.any_eq_true, List.any_eq_true, Bool.and_eq_true, beq_iff_eq,
    bne_iff_ne, Bool.not_eq_true'] at h
  obtain ⟨c', hstep, store, hstore, store', hstore', ⟨hid, hedge⟩, l, hl, hon, hfresh⟩ := h
  intro hkeeps
  have hstale := hkeeps c' hstep store.id ⟨store, hstore, store', hstore', rfl, hid, hedge⟩ l hl hon
  exact Bool.false_ne_true (hfresh.symm.trans hstale)

/-- The update finds no active lease, and the member connects. -/
def moveSchedule : List (ℕ × Act) :=
  [(1, .begin), (1, .decide sampleUpdate), (2, .begin), (2, .lock 1),
    (2, .decide (.request (sampleConnect 0 "lease-1" "device-a"))), (2, .commit)]

/-- The update goes on, and the store has another node than the one its lease is for. -/
theorem moved_while_leased :
    ¬ Along (step (act Names.sample fun _ _ => [])) (KeepsBinding Names.sample fun _ _ => [])
      (openCrew twoNodes 0) (moveSchedule ++ [(1, .commit)]) := by
  have hmoves : (run (step (act Names.sample fun _ _ => [])) (openCrew twoNodes 0)
      moveSchedule).any (fun c => movesLeased Names.sample (fun _ _ => []) c (1, .commit)) = true :=
    by decide +kernel
  obtain ⟨c, hc, hmoves⟩ := Option.any_eq_true _ _ |>.mp hmoves
  intro h
  have hlast := ((along_append _ _ _).mp h).2 c hc
  exact not_keepsBinding Names.sample (fun _ _ => []) hmoves hlast.1

end IdenGrid.Control.Leases
