import IdenGrid.Lib.Run
import IdenGrid.Control.Handlers
import IdenGrid.Control.MonitorIsolation

/-! # The registry, one request at a time

`step` serves a request without interruption. `Effect` says what it does to the three tables, as
lists of rows, with one constructor for each kind of change: this is the only place where the
handlers are taken apart. `serve_effect` proves it. -/

namespace IdenGrid.Control.Fleet

open IdenGrid.Lib.Run IdenGrid.Lib.Store IdenGrid.Lib.WriteBack IdenGrid.Lib.Unicode
open IdenGrid.Lib.Results
open IdenGrid.Control.Nodes
open IdenGrid.Control.Monitor hiding Db
open IdenGrid.Control.Registry IdenGrid.Control.NodeAdmin IdenGrid.Control.Enrollments
open IdenGrid.Control.Registrations IdenGrid.Control.Handlers

variable (P : Primitives)

/-- One request of any kind. -/
def step (db : Db) (req : Request) : Option Db := some (serve P req db).1

/-- Every sequence of requests is a run. -/
theorem run_isSome (reqs : List Request) (db : Db) :
    ∃ db', run (step P) db reqs = some db' := by
  induction reqs generalizing db with
  | nil => exact ⟨db, rfl⟩
  | cons req reqs ih => exact ih _

/-! ## The monitor as a map -/

/-- The monitor on a node. -/
def nodeAfter (inputs : MonitorInputs) (node : NodeRow) : NodeRow :=
  match probeOf inputs node with
  | some result => if node.enabled then monitorNode result (inputs.clock node.id) node else node
  | none => node

/-- The enabled node, with what its probe finds. -/
def monitored (inputs : MonitorInputs) (db : Db) (nodeId : ℕ) : Option (NodeRow × Probe) :=
  match (db.nodes.get? nodeId).filter fun n => n.enabled with
  | some node => (probeOf inputs node).map fun result => (node, result)
  | none => none

/-- The monitor on an enrollment. -/
def enrollmentAfter (inputs : MonitorInputs) (db : Db) (e : EnrollmentRow) : EnrollmentRow :=
  match monitored inputs db e.edgeNodeId with
  | some (node, result) =>
    if pickedEnrollment db node.id = some e then
      monitorEnrollment (effective node.toEdgeNode result.health)
        (inputs.clock node.id).enrollment e
    else e
  | none => e

/-- The monitor on a registration. -/
def registrationAfter (inputs : MonitorInputs) (db : Db) (r : RegistrationRow) : RegistrationRow :=
  match r.edgeNodeId.bind (monitored inputs db) with
  | some (node, result) =>
    if pickedRegistration db node.id = some r then
      monitorRegistration (effective node.toEdgeNode result.health)
        (inputs.clock node.id).registration r
    else r
  | none => r

/-! ## Effects -/

/-- What a request makes of the tables. -/
inductive Effect (db : Db) :
    Request → List NodeRow → List EnrollmentRow → List RegistrationRow → Prop
  | quiet (req : Request) :
      Effect db req db.nodes.rows db.enrollments.rows db.registrations.rows
  | createNode (body : EdgeNodeCreateBody) (newId : ℕ) (node : NodeRow)
      (checked : createEdgeNode P body newId db = .ok node)
      (fresh : ∀ x ∈ db.nodes.rows, x.id ≠ node.id) :
      Effect db (.createEdgeNode body newId) (db.nodes.rows ++ [node]) db.enrollments.rows
        db.registrations.rows
  | updateNode (nodeId : ℕ) (body : EdgeNodeUpdateBody) (loaded new : NodeRow)
      (checked : updateEdgeNode P nodeId body db = .ok (loaded, new)) :
      Effect db (.updateEdgeNode nodeId body)
        (db.nodes.rows.map (atKey NodeRow.key loaded.id fun _ => new)) db.enrollments.rows
        db.registrations.rows
  | deleteNode (nodeId : ℕ) (exists_node : ∃ n ∈ db.nodes.rows, n.id = nodeId) :
      Effect db (.deleteEdgeNode nodeId none)
        (db.nodes.rows.filter fun n => n.id ≠ nodeId)
        (db.enrollments.rows.filter fun e => e.edgeNodeId ≠ nodeId)
        (db.registrations.rows.map fun r => if r.edgeNodeId = some nodeId then detach r else r)
  | createEnrollment (body : EdgeEnrollmentCreateBody) (inputs : Enrollments.CreateInputs)
      (c : EnrollmentCreation) (checked : createEdgeEnrollment P body inputs db = .ok c)
      (fresh : ∀ x ∈ db.nodes.rows, x.id ≠ c.node.id)
      (freshItem : ∀ x ∈ db.enrollments.rows, x.id ≠ c.item.id) :
      Effect db (.createEdgeEnrollment body inputs) (db.nodes.rows ++ [c.node])
        (db.enrollments.rows ++ [c.item]) db.registrations.rows
  | listEnrollments (clock : String → ℕ) :
      Effect db (.listEdgeEnrollments clock) db.nodes.rows
        (db.enrollments.rows.map fun e => serializeEnrollment (clock e.id) e) db.registrations.rows
  | expireEnrollment (req : Request) (item : EnrollmentRow) (now : ℕ)
      (mem : item ∈ db.enrollments.rows) :
      Effect db req db.nodes.rows
        (db.enrollments.rows.map (atKey EnrollmentRow.key item.id (serializeEnrollment now)))
        db.registrations.rows
  | claimEnrollment (authorization : Option String) (body : EdgeEnrollmentClaimBody)
      (inputs : Enrollments.ClaimInputs) (c : EnrollmentClaim)
      (checked : claimEdgeEnrollment P authorization body inputs db = .ok (.inr c)) :
      Effect db (.claimEdgeEnrollment authorization body inputs) db.nodes.rows
        (db.enrollments.rows.map (c.set P)) db.registrations.rows
  | report (authorization : Option String) (body : EdgeEnrollmentReportBody) (now : ℕ)
      (item : EnrollmentRow) (node : Option NodeRow)
      (valid : reportItem P authorization now db = some item)
      (enables : node = if body.phase = .ready then db.nodes.get? item.edgeNodeId else none) :
      Effect db (.reportEdgeEnrollment authorization body now)
        (db.nodes.rows.map (atRow NodeRow.key node reportNode))
        (db.enrollments.rows.map
          (atKey EnrollmentRow.key item.id (reportEnrollment body now)))
        (db.registrations.rows.map (atRow RegistrationRow.key
          (registrationOf db item.edgeNodeId) (reportRegistration body now)))
  | revoke (enrollmentId fresh : String) (now : ℕ) (item : EnrollmentRow)
      (mem : db.enrollments.get? enrollmentId = some item)
      (revocable : item.status ≠ .revoked ∧ item.status ≠ .online) :
      Effect db (.revokeEdgeEnrollment enrollmentId fresh now)
        (db.nodes.rows.map (atKey NodeRow.key item.edgeNodeId revokeNode))
        (db.enrollments.rows.map
          (atKey EnrollmentRow.key item.id (revokeEnrollment P fresh now)))
        db.registrations.rows
  | regenerate (enrollmentId : String) (inputs : RegenerateInputs) (item : EnrollmentRow)
      (mem : db.enrollments.get? enrollmentId = some item)
      (idle : item.status = .pending ∨ item.status = .expired ∨ item.status = .revoked) :
      Effect db (.regenerateEdgeEnrollment enrollmentId inputs) db.nodes.rows
        (db.enrollments.rows.map
          (atKey EnrollmentRow.key item.id (regenerateEnrollment P inputs)))
        db.registrations.rows
  | register (body : NodeRegistrationCreateBody) (inputs : RegisterInputs)
      (c : RegistrationCreation) (checked : createNodeRegistration P body inputs = .ok c)
      (fresh : ∀ x ∈ db.registrations.rows, x.id ≠ c.item.id) :
      Effect db (.createNodeRegistration body inputs) db.nodes.rows db.enrollments.rows
        (db.registrations.rows ++ [c.item])
  | prove (requestId : String) (body : SignedBody) (authorization sourceIp : Option String)
      (now : ℕ) (p : Proof)
      (checked : proveNodeRegistration P requestId body authorization sourceIp now db =
        .ok (.inr p)) :
      Effect db (.proveNodeRegistration requestId body authorization sourceIp now) db.nodes.rows
        db.enrollments.rows (db.registrations.rows.map p.set)
  | expireRegistration (req : Request) (item : RegistrationRow) (now : ℕ)
      (mem : item ∈ db.registrations.rows) (pending : item.status = .pendingProof) :
      Effect db req db.nodes.rows db.enrollments.rows
        (db.registrations.rows.map
          (atKey RegistrationRow.key item.id (expireRegistration now)))
  | sweep (now : ℕ) :
      Effect db (.listNodeRegistrationRequests now) db.nodes.rows db.enrollments.rows
        ((db.registrations.rows.map (Registrations.sweep now)).filter fun r => !outdated now r)
  | accept (requestId : String) (body : NodeRegistrationAcceptBody) (inputs : AcceptInputs)
      (a : Acceptance) (checked : acceptNodeRegistration P requestId body inputs db = .ok a)
      (fresh : ∀ x ∈ db.nodes.rows, x.id ≠ a.node.id)
      (freshItem : ∀ x ∈ db.enrollments.rows, x.id ≠ (a.enrollment P).id) :
      Effect db (.acceptNodeRegistration requestId body inputs) (db.nodes.rows ++ [a.node])
        (db.enrollments.rows ++ [a.enrollment P]) (db.registrations.rows.map (a.set P))
  | reject (requestId reason : String) (actorId now : ℕ) (r : Rejection)
      (checked : rejectNodeRegistration requestId reason actorId now db = .ok r) :
      Effect db (.rejectNodeRegistration requestId reason actorId now) db.nodes.rows
        db.enrollments.rows (db.registrations.rows.map r.set)
  | claimRegistration (requestId : String) (body : SignedBody) (authorization : Option String)
      (inputs : ClaimApprovedInputs) (checkedClaim : CheckedClaim) (c : RegistrationClaim)
      (checked : claimApprovedNodeRegistration P requestId body authorization inputs db =
        .ok checkedClaim)
      (read : checkedClaim.readEnrollment P db = .ok c) :
      Effect db (.claimApprovedNodeRegistration requestId body authorization inputs)
        db.nodes.rows
        (db.enrollments.rows.map (atKey EnrollmentRow.key c.enrollment.id fun _ => c.installing))
        (db.registrations.rows.map c.set)
  | monitor (inputs : MonitorInputs)
      (probed : ∀ n ∈ db.nodes.rows, n.enabled = true → ∃ result, probeOf inputs n = some result) :
      Effect db (.runMonitor inputs) (db.nodes.rows.map (nodeAfter inputs))
        (db.enrollments.rows.map (enrollmentAfter inputs db))
        (db.registrations.rows.map (registrationAfter inputs db))

/-! ## The monitor without interruption -/

theorem monitorNode_flush (result : Probe) (t : Readings) (n : NodeRow) :
    NodeRow.flush n (monitorNode result t n) n = monitorNode result t n :=
  NodeRow.flush_current (updateNode_id _ _ _) rfl

theorem monitorEnrollment_flush (status : HealthStatus) (now : ℕ) (e : EnrollmentRow) :
    EnrollmentRow.flush e (monitorEnrollment status now e) e = monitorEnrollment status now e :=
  EnrollmentRow.flush_current (updateEnrollment_id _ _ _) (updateEnrollment_edgeNodeId _ _ _) rfl

theorem monitorRegistration_flush (status : HealthStatus) (now : ℕ) (r : RegistrationRow) :
    RegistrationRow.flush r (monitorRegistration status now r) r =
      monitorRegistration status now r := by
  refine RegistrationRow.flush_current ?_
  have hid := updateRegistration_id status now r.toNodeRegistrationRequest
  rcases hu : updateRegistration status now r.toNodeRegistrationRequest with ⟨id, _, _, _, _⟩
  rw [hu] at hid
  simp only [monitorRegistration, hu]
  rw [show id = r.id from hid]

/-- What the rounds of the loop note for each of the nodes. -/
theorem visitAll_eq_ok {db : Db} {nodes : List NodeRow} {m m' : MonitorRun}
    (h : nodes.foldlM (fun m node => m.visit node db) m = .ok m') :
    (∀ n ∈ nodes, ∃ result, probeOf m.inputs n = some result) ∧
      m'.dirty.nodes = m.dirty.nodes ++ nodes.filterMap (fun n =>
        (probeOf m.inputs n).map fun result =>
          (n, monitorNode result (m.inputs.clock n.id) n)) ∧
      m'.dirty.enrollments = m.dirty.enrollments ++ nodes.filterMap (fun n =>
        (probeOf m.inputs n).bind fun result => (pickedEnrollment db n.id).map fun e =>
          (e, monitorEnrollment (effective n.toEdgeNode result.health)
            (m.inputs.clock n.id).enrollment e)) ∧
      m'.dirty.registrations = m.dirty.registrations ++ nodes.filterMap (fun n =>
        (probeOf m.inputs n).bind fun result => (pickedRegistration db n.id).map fun r =>
          (r, monitorRegistration (effective n.toEdgeNode result.health)
            (m.inputs.clock n.id).registration r)) := by
  induction nodes generalizing m with
  | nil =>
    obtain rfl := Except.ok.inj h
    simp
  | cons n nodes ih =>
    obtain ⟨m₁, hvisit, hrest⟩ := bind_eq_ok.mp ((List.foldlM_cons ..).symm.trans h)
    unfold MonitorRun.visit at hvisit
    split at hvisit
    · simp at hvisit
    · next result hprobe =>
      split_ifs at hvisit with hstorable
      obtain rfl := Except.ok.inj hvisit
      obtain ⟨h1, h2, h3, h4⟩ := ih hrest
      refine ⟨?_, ?_, ?_, ?_⟩
      · simp only [List.forall_mem_cons]
        exact ⟨⟨result, hprobe⟩, h1⟩
      · rw [h2]
        simp [hprobe]
      · rw [h3]
        cases hpick : pickedEnrollment db n.id <;> simp [hprobe, hpick]
      · rw [h4]
        cases hpick : pickedRegistration db n.id <;> simp [hprobe, hpick]

theorem mem_monitoredNodes {db : Db} {n : NodeRow} :
    n ∈ monitoredNodes db ↔ n ∈ db.nodes.rows ∧ n.enabled = true := by
  simp [monitoredNodes, List.mem_insertionSort, List.mem_filter]

theorem monitoredNodes_pairwise (db : Db) :
    (monitoredNodes db).Pairwise fun a b => a.id ≠ b.id := by
  have hrows : db.nodes.rows.Pairwise fun a b => a.id ≠ b.id := List.pairwise_map.mp db.nodes.nodup
  refine ((List.perm_insertionSort _ _).pairwise_iff fun h => h.symm).mpr ?_
  exact hrows.filter _

/-- Rows of different nodes have different keys. -/
theorem keys_nodup {ρ κ : Type} {key : ρ → κ} {nodes : List NodeRow}
    (hnodes : nodes.Pairwise fun a b => a.id ≠ b.id) {f : NodeRow → Option (ρ × ρ)}
    (hf : ∀ a b d d', f a = some d → f b = some d' → key d.1 = key d'.1 → a.id = b.id) :
    ((nodes.filterMap f).map fun d => key d.1).Nodup := by
  refine List.pairwise_map.mpr (List.pairwise_filterMap.mpr (hnodes.imp fun {a b} hab => ?_))
  intro d hd d' hd' heq
  exact hab (hf a b d d' hd hd' heq)

theorem pickedEnrollment_eq_some {db : Db} {nodeId : ℕ} {e : EnrollmentRow}
    (h : pickedEnrollment db nodeId = some e) :
    e ∈ db.enrollments.rows ∧ e.edgeNodeId = nodeId ∧
      (e.status = .ready ∨ e.status = .installing ∨ e.status = .claimed ∨
        e.status = .failed) := by
  obtain ⟨hmem, hp⟩ := Table.first_mem h
  simp only [linkedEnrollment, Bool.and_eq_true, Bool.or_eq_true, beq_iff_eq] at hp
  exact ⟨hmem, hp.1, by simpa [or_assoc] using hp.2⟩

theorem pickedRegistration_eq_some {db : Db} {nodeId : ℕ} {r : RegistrationRow}
    (h : pickedRegistration db nodeId = some r) :
    r ∈ db.registrations.rows ∧ r.edgeNodeId = some nodeId ∧
      (r.status = .installing ∨ r.status = .ready ∨ r.status = .failed ∨
        r.status = .online) := by
  obtain ⟨hmem, hp⟩ := Table.first_mem h
  simp only [linkedRegistration, Bool.and_eq_true, Bool.or_eq_true, beq_iff_eq] at hp
  exact ⟨hmem, hp.1, by simpa [or_assoc] using hp.2⟩

/-- The enabled node of an id, with its probe. -/
theorem monitored_eq_some {inputs : MonitorInputs} {db : Db} {nodeId : ℕ} {n : NodeRow}
    {result : Probe} :
    monitored inputs db nodeId = some (n, result) ↔
      n ∈ db.nodes.rows ∧ n.id = nodeId ∧ n.enabled = true ∧ probeOf inputs n = some result := by
  unfold monitored
  constructor
  · intro h
    split at h
    · next node hnode =>
      obtain ⟨hget, henabled⟩ := Option.filter_eq_some_iff.mp hnode
      obtain ⟨hmem, hid⟩ := Table.get?_eq_some.mp hget
      obtain ⟨x, hx, heq⟩ := Option.map_eq_some_iff.mp h
      obtain ⟨rfl, rfl⟩ := Prod.mk.inj heq
      exact ⟨hmem, hid, henabled, hx⟩
    · simp at h
  · rintro ⟨hmem, rfl, henabled, hprobe⟩
    have hget : db.nodes.get? n.id = some n := Table.get?_eq_some.mpr ⟨hmem, rfl⟩
    simp [hget, Option.filter, henabled, hprobe]

/-- The write-backs that the rounds note for a table are a map `f` of it, if `f` takes the row that
a node's round has loaded to its new values, and leaves the other rows alone. -/
theorem map_flush_rounds {ρ κ : Type} [DecidableEq κ] {key : ρ → κ} {mapping : Mapping key}
    {table : Table key} {db : Db} {round : NodeRow → Option (ρ × ρ)} {f : ρ → ρ}
    (hkeys : ∀ a b d d', round a = some d → round b = some d' → key d.1 = key d'.1 → a.id = b.id)
    (hrow : ∀ n ∈ db.nodes.rows, n.enabled = true → ∀ d, round n = some d →
      d.1 ∈ table.rows ∧ mapping.flush d.1 d.2 d.1 = d.2 ∧ f d.1 = d.2)
    (hid : ∀ x ∈ table.rows, f x ≠ x →
      ∃ n ∈ db.nodes.rows, n.enabled = true ∧ ∃ new, round n = some (x, new)) :
    table.rows.map (flushAll mapping ((monitoredNodes db).filterMap round)) =
      table.rows.map f := by
  have hdirty : ∀ d ∈ (monitoredNodes db).filterMap round,
      d.1 ∈ table.rows ∧ mapping.flush d.1 d.2 d.1 = d.2 ∧ f d.1 = d.2 := by
    intro d hd
    obtain ⟨n, hn, hd⟩ := List.mem_filterMap.mp hd
    obtain ⟨hmem, hen⟩ := mem_monitoredNodes.mp hn
    exact hrow n hmem hen d hd
  refine map_flushAll_of_current (keys_nodup (monitoredNodes_pairwise db) hkeys) ?_ ?_ ?_
  · exact fun d hd => ⟨(hdirty d hd).1, (hdirty d hd).2.1⟩
  · exact fun d hd => (hdirty d hd).2.2
  · intro x hx hne
    by_contra hfx
    obtain ⟨n, hn, hen, new, hround⟩ := hid x hx hfx
    refine hne (x, new) (List.mem_filterMap.mpr ⟨n, ?_, hround⟩) rfl
    exact mem_monitoredNodes.mpr ⟨hn, hen⟩

/-- **The monitor without interruption is a map of each table.** -/
theorem monitor_rows {inputs : MonitorInputs} {db : Db} {m : MonitorRun} {t : Tables}
    (hm : (monitoredNodes db).foldlM (fun m node => m.visit node db)
      { inputs := inputs : MonitorRun } = .ok m) (ht : db.toTables.flush m.dirty = .ok t) :
    (∀ n ∈ db.nodes.rows, n.enabled = true → ∃ result, probeOf inputs n = some result) ∧
      t.nodes.rows = db.nodes.rows.map (nodeAfter inputs) ∧
      t.enrollments.rows = db.enrollments.rows.map (enrollmentAfter inputs db) ∧
      t.registrations.rows = db.registrations.rows.map (registrationAfter inputs db) := by
  obtain ⟨hprobed, hdn, hde, hdr⟩ := visitAll_eq_ok hm
  obtain ⟨hn, he, hr⟩ := Tables.flush_eq_ok ht
  simp only [List.nil_append] at hdn hde hdr
  rw [hn, hdn, he, hde, hr, hdr]
  refine ⟨fun n hmem hen => hprobed n (mem_monitoredNodes.mpr ⟨hmem, hen⟩), ?_, ?_, ?_⟩
  · refine map_flush_rounds ?_ ?_ ?_
    · intro a b d d' hd hd' heq
      obtain ⟨_, -, rfl⟩ := Option.map_eq_some_iff.mp hd
      obtain ⟨_, -, rfl⟩ := Option.map_eq_some_iff.mp hd'
      exact heq
    · intro n hmem hen d hd
      obtain ⟨result, hresult, rfl⟩ := Option.map_eq_some_iff.mp hd
      refine ⟨hmem, monitorNode_flush _ _ _, ?_⟩
      simp [nodeAfter, hresult, hen]
    · intro x hx hfx
      unfold nodeAfter at hfx
      split at hfx
      · next result hresult =>
        split_ifs at hfx with hen
        · exact ⟨x, hx, hen, _, by rw [hresult]; rfl⟩
        · exact absurd rfl hfx
      · exact absurd rfl hfx
  · refine map_flush_rounds ?_ ?_ ?_
    · intro a b d d' hd hd' heq
      obtain ⟨_, -, hd⟩ := Option.bind_eq_some_iff.mp hd
      obtain ⟨_, -, hd'⟩ := Option.bind_eq_some_iff.mp hd'
      obtain ⟨e, hpick, rfl⟩ := Option.map_eq_some_iff.mp hd
      obtain ⟨e', hpick', rfl⟩ := Option.map_eq_some_iff.mp hd'
      obtain ⟨hmem, hnode, -⟩ := pickedEnrollment_eq_some hpick
      obtain ⟨hmem', hnode', -⟩ := pickedEnrollment_eq_some hpick'
      rw [← hnode, ← hnode', Table.eq_of_key hmem hmem' heq]
    · intro n hmem hen d hd
      obtain ⟨result, hresult, hd⟩ := Option.bind_eq_some_iff.mp hd
      obtain ⟨e, hpick, rfl⟩ := Option.map_eq_some_iff.mp hd
      obtain ⟨he, hnode, -⟩ := pickedEnrollment_eq_some hpick
      have hmon := monitored_eq_some.mpr ⟨hmem, hnode.symm, hen, hresult⟩
      refine ⟨he, monitorEnrollment_flush _ _ _, ?_⟩
      simp [enrollmentAfter, hmon, hpick]
    · intro x hx hfx
      unfold enrollmentAfter at hfx
      split at hfx
      · next n result hmon =>
        split_ifs at hfx with hpick
        · obtain ⟨hmem, -, hen, hresult⟩ := monitored_eq_some.mp hmon
          exact ⟨n, hmem, hen, _, by rw [hresult, Option.bind_some, hpick]; rfl⟩
        · exact absurd rfl hfx
      · exact absurd rfl hfx
  · refine map_flush_rounds ?_ ?_ ?_
    · intro a b d d' hd hd' heq
      obtain ⟨_, -, hd⟩ := Option.bind_eq_some_iff.mp hd
      obtain ⟨_, -, hd'⟩ := Option.bind_eq_some_iff.mp hd'
      obtain ⟨r, hpick, rfl⟩ := Option.map_eq_some_iff.mp hd
      obtain ⟨r', hpick', rfl⟩ := Option.map_eq_some_iff.mp hd'
      obtain ⟨hmem, hnode, -⟩ := pickedRegistration_eq_some hpick
      obtain ⟨hmem', hnode', -⟩ := pickedRegistration_eq_some hpick'
      rw [Table.eq_of_key hmem hmem' heq, hnode'] at hnode
      exact (Option.some.inj hnode).symm
    · intro n hmem hen d hd
      obtain ⟨result, hresult, hd⟩ := Option.bind_eq_some_iff.mp hd
      obtain ⟨r, hpick, rfl⟩ := Option.map_eq_some_iff.mp hd
      obtain ⟨hr, hnode, -⟩ := pickedRegistration_eq_some hpick
      have hmon := monitored_eq_some.mpr ⟨hmem, rfl, hen, hresult⟩
      refine ⟨hr, monitorRegistration_flush _ _ _, ?_⟩
      simp [registrationAfter, hnode, hmon, hpick]
    · intro x hx hfx
      unfold registrationAfter at hfx
      split at hfx
      · next n result hmon =>
        split_ifs at hfx with hpick
        · obtain ⟨_, -, hmon⟩ := Option.bind_eq_some_iff.mp hmon
          obtain ⟨hmem, -, hen, hresult⟩ := monitored_eq_some.mp hmon
          exact ⟨n, hmem, hen, _, by rw [hresult, Option.bind_some, hpick]; rfl⟩
        · exact absurd rfl hfx
      · exact absurd rfl hfx

/-! ## Every request has an effect of the list -/

theorem write_commit {dirty : Dirty} {answer a : Answer} {t t' : Tables}
    (h : (Plan.write dirty answer).commit P t = .ok (t', a)) : t.flush dirty = .ok t' := by
  obtain ⟨u, hu, h⟩ := bind_eq_ok.mp h
  obtain ⟨rfl, -⟩ := Prod.mk.inj (Except.ok.inj h)
  exact hu

/-- The write-backs of at most one row of each table, nobody in between. -/
theorem flush_rows {db : Db} {t : Tables} {n : Option NodeRow} {e : Option EnrollmentRow}
    {r : Option RegistrationRow} {f : NodeRow → NodeRow} {g : EnrollmentRow → EnrollmentRow}
    {k : RegistrationRow → RegistrationRow}
    (h : db.toTables.flush
      { nodes := (n.map fun a => (a, f a)).toList
        enrollments := (e.map fun a => (a, g a)).toList
        registrations := (r.map fun a => (a, k a)).toList } = .ok t)
    (hn : ∀ a ∈ n, a ∈ db.nodes.rows ∧ NodeRow.flush a (f a) a = f a)
    (he : ∀ a ∈ e, a ∈ db.enrollments.rows ∧ EnrollmentRow.flush a (g a) a = g a)
    (hr : ∀ a ∈ r, a ∈ db.registrations.rows ∧ RegistrationRow.flush a (k a) a = k a) :
    t.nodes.rows = db.nodes.rows.map (atRow NodeRow.key n f) ∧
      t.enrollments.rows = db.enrollments.rows.map (atRow EnrollmentRow.key e g) ∧
      t.registrations.rows = db.registrations.rows.map (atRow RegistrationRow.key r k) := by
  obtain ⟨h1, h2, h3⟩ := Tables.flush_eq_ok h
  rw [h1, h2, h3]
  exact ⟨map_flush_of_current hn, map_flush_of_current he, map_flush_of_current hr⟩

variable {P}

theorem update_effect {db : Db} {nodeId : ℕ} {body : EdgeNodeUpdateBody} {w : NodeRow × NodeRow}
    {t : Tables} (hw : updateEdgeNode P nodeId body db = .ok w)
    (ht : db.toTables.flush { nodes := [w] } = .ok t) :
    Effect P db (.updateEdgeNode nodeId body) t.nodes.rows t.enrollments.rows
      t.registrations.rows := by
  obtain ⟨loaded, new⟩ := w
  obtain ⟨hget, hpatch, -⟩ := updateEdgeNode_eq_ok hw
  obtain ⟨hid, hplatform, -⟩ := patch_eq_some hpatch
  obtain ⟨h1, h2, h3⟩ := flush_rows (n := some loaded) (e := none) (r := none)
    (f := fun _ => new) (g := id) (k := id) ht
    (by rintro a ⟨⟩; exact ⟨(Table.get?_eq_some.mp hget).1, NodeRow.flush_current hid hplatform⟩)
    (by simp) (by simp)
  rw [h1, h2, h3]
  simpa using Effect.updateNode nodeId body loaded new hw

theorem serializeEnrollment_flush (now : ℕ) (e : EnrollmentRow) :
    EnrollmentRow.flush e (serializeEnrollment now e) e = serializeEnrollment now e := by
  unfold serializeEnrollment
  split_ifs <;> exact EnrollmentRow.flush_current rfl rfl rfl

theorem list_effect {db : Db} {clock : String → ℕ} {w : Dirty × Answer} {t : Tables}
    (hw : listEdgeEnrollments clock db = .ok w) (ht : db.toTables.flush w.1 = .ok t) :
    Effect P db (.listEdgeEnrollments clock) t.nodes.rows t.enrollments.rows
      t.registrations.rows := by
  unfold listEdgeEnrollments at hw
  dsimp only at hw
  split at hw
  · simp at hw
  obtain rfl := Except.ok.inj hw
  obtain ⟨hn, he, hr⟩ := Tables.flush_eq_ok ht
  have hperm := List.perm_insertionSort (fun a b : EnrollmentRow => b.updatedAt ≤ a.updatedAt)
    db.enrollments.rows
  rw [hn, he, hr]
  rw [map_flushAll_nil, map_flushAll_nil,
    map_flushAll_of_current (f := fun e => serializeEnrollment (clock e.id) e)]
  · exact Effect.listEnrollments clock
  · rw [List.map_map]
    exact (hperm.map EnrollmentRow.key).nodup_iff.mpr db.enrollments.nodup
  · intro d hd
    obtain ⟨e, he, rfl⟩ := List.mem_map.mp hd
    exact ⟨hperm.mem_iff.mp he, serializeEnrollment_flush _ e⟩
  · intro d hd
    obtain ⟨e, -, rfl⟩ := List.mem_map.mp hd
    rfl
  · intro e he hne
    exact absurd rfl (hne (e, serializeEnrollment (clock e.id) e)
      (List.mem_map.mpr ⟨e, hperm.mem_iff.mpr he, rfl⟩))

theorem expire_effect {db : Db} (req : Request) {item : EnrollmentRow} {now : ℕ} {t : Tables}
    (hmem : item ∈ db.enrollments.rows)
    (ht : db.toTables.flush { enrollments := [(item, serializeEnrollment now item)] } = .ok t) :
    Effect P db req t.nodes.rows t.enrollments.rows t.registrations.rows := by
  obtain ⟨h1, h2, h3⟩ := flush_rows (n := none) (e := some item) (r := none) (f := id)
    (g := serializeEnrollment now) (k := id) ht (by simp)
    (by rintro a ⟨⟩; exact ⟨hmem, serializeEnrollment_flush now item⟩) (by simp)
  rw [h1, h2, h3]
  simpa using Effect.expireEnrollment req item now hmem

/-- The rows after a report. -/
theorem report_rows {db : Db} {authorization : Option String} {body : EdgeEnrollmentReportBody}
    {now : ℕ} {w : Dirty × Answer} {t : Tables}
    (hw : reportEdgeEnrollment P authorization body now db = .ok w)
    (ht : db.toTables.flush w.1 = .ok t) :
    ∃ item node, reportItem P authorization now db = some item ∧
      (node = if body.phase = .ready then db.nodes.get? item.edgeNodeId else none) ∧
      t.nodes.rows = db.nodes.rows.map (atRow NodeRow.key node reportNode) ∧
      t.enrollments.rows =
        db.enrollments.rows.map (atKey EnrollmentRow.key item.id (reportEnrollment body now)) ∧
      t.registrations.rows = db.registrations.rows.map (atRow RegistrationRow.key
        (registrationOf db item.edgeNodeId) (reportRegistration body now)) := by
  obtain ⟨item, node, hitem, hnode, -, rfl⟩ := reportEdgeEnrollment_eq_ok hw
  obtain ⟨hmem, -⟩ := reportItem_eq_some hitem
  refine ⟨item, node, hitem, hnode, ?_⟩
  refine flush_rows (n := node) (e := some item) (r := registrationOf db item.edgeNodeId)
    (f := reportNode) (g := reportEnrollment body now) (k := reportRegistration body now) ht
    ?_ ?_ ?_
  · rintro a rfl
    split_ifs at hnode with hready
    exact ⟨(Table.get?_eq_some.mp hnode.symm).1, NodeRow.flush_current rfl rfl⟩
  · rintro a ⟨⟩
    exact ⟨hmem, EnrollmentRow.flush_current rfl rfl rfl⟩
  · intro a ha
    exact ⟨(Table.first_mem ha).1, RegistrationRow.flush_current rfl⟩

theorem report_effect {db : Db} {authorization : Option String} {body : EdgeEnrollmentReportBody}
    {now : ℕ} {w : Dirty × Answer} {t : Tables}
    (hw : reportEdgeEnrollment P authorization body now db = .ok w)
    (ht : db.toTables.flush w.1 = .ok t) :
    Effect P db (.reportEdgeEnrollment authorization body now) t.nodes.rows t.enrollments.rows
      t.registrations.rows := by
  obtain ⟨item, node, hitem, hnode, h1, h2, h3⟩ := report_rows hw ht
  rw [h1, h2, h3]
  exact Effect.report authorization body now item node hitem hnode

theorem revoke_effect {db : Db} {enrollmentId fresh : String} {now : ℕ} {w : Dirty × Answer}
    {t : Tables} (hw : revokeEdgeEnrollment P enrollmentId fresh now db = .ok w)
    (ht : db.toTables.flush w.1 = .ok t) :
    Effect P db (.revokeEdgeEnrollment enrollmentId fresh now) t.nodes.rows t.enrollments.rows
      t.registrations.rows := by
  obtain ⟨item, node, hitem, hnode, hrevoked, honline, hdirty⟩ := revokeEdgeEnrollment_eq_ok hw
  rw [hdirty] at ht
  obtain ⟨hn, hnodeId⟩ := Table.get?_eq_some.mp hnode
  obtain ⟨h1, h2, h3⟩ := flush_rows (n := some node) (e := some item) (r := none)
    (f := revokeNode) (g := revokeEnrollment P fresh now) (k := id) ht
    (by rintro a ⟨⟩; exact ⟨hn, NodeRow.flush_current rfl rfl⟩)
    (by
      rintro a ⟨⟩
      exact ⟨(Table.get?_eq_some.mp hitem).1, EnrollmentRow.flush_current rfl rfl rfl⟩)
    (by simp)
  rw [h1, h2, h3]
  rw [atRow_some, atRow_some, map_atRow_none, hnodeId]
  exact Effect.revoke enrollmentId fresh now item hitem ⟨hrevoked, honline⟩

theorem regenerate_effect {db : Db} {enrollmentId : String} {inputs : RegenerateInputs}
    {w : Dirty × Answer} {t : Tables}
    (hw : regenerateEdgeEnrollment P enrollmentId inputs db = .ok w)
    (ht : db.toTables.flush w.1 = .ok t) :
    Effect P db (.regenerateEdgeEnrollment enrollmentId inputs) t.nodes.rows t.enrollments.rows
      t.registrations.rows := by
  obtain ⟨item, hitem, hidle, hdirty⟩ := regenerateEdgeEnrollment_eq_ok hw
  rw [hdirty] at ht
  obtain ⟨h1, h2, h3⟩ := flush_rows (n := none) (e := some item) (r := none) (f := id)
    (g := regenerateEnrollment P inputs) (k := id) ht (by simp)
    (by
      rintro a ⟨⟩
      exact ⟨(Table.get?_eq_some.mp hitem).1, EnrollmentRow.flush_current rfl rfl rfl⟩)
    (by simp)
  rw [h1, h2, h3]
  simpa using Effect.regenerate enrollmentId inputs item hitem hidle

theorem expireRegistration_effect {db : Db} (req : Request) {item : RegistrationRow} {now : ℕ}
    {t : Tables} (hmem : item ∈ db.registrations.rows) (hpending : item.status = .pendingProof)
    (ht : db.toTables.flush { registrations := [(item, expireRegistration now item)] } = .ok t) :
    Effect P db req t.nodes.rows t.enrollments.rows t.registrations.rows := by
  obtain ⟨h1, h2, h3⟩ := flush_rows (n := none) (e := none) (r := some item) (f := id)
    (g := id) (k := expireRegistration now) ht (by simp) (by simp)
    (by rintro a ⟨⟩; exact ⟨hmem, RegistrationRow.flush_current rfl⟩)
  rw [h1, h2, h3]
  simpa using Effect.expireRegistration req item now hmem hpending

/-- The deletion takes the node and its enrollments, and detaches its registrations. -/
theorem delete_rows {db : Db} {nodeId : ℕ} {boundStore : Option String} {d : NodeDeletion}
    {t : Tables} {a : Answer} (hd : deleteEdgeNode nodeId boundStore db = .ok d)
    (ht : d.commit db.toTables = .ok (t, a)) :
    boundStore = none ∧ (∃ n ∈ db.nodes.rows, n.id = nodeId) ∧
      t.nodes.rows = db.nodes.rows.filter (fun n => n.id ≠ nodeId) ∧
      t.enrollments.rows = db.enrollments.rows.filter (fun e => e.edgeNodeId ≠ nodeId) ∧
      t.registrations.rows =
        db.registrations.rows.map (fun r => if r.edgeNodeId = some nodeId then detach r else r) := by
  unfold deleteEdgeNode at hd
  split at hd
  · simp at hd
  next node hnode =>
  rcases boundStore with _ | label
  swap
  · simp at hd
  obtain rfl := Except.ok.inj hd
  obtain ⟨hmem, hid⟩ := Table.get?_eq_some.mp hnode
  obtain rfl : node.id = nodeId := hid
  obtain ⟨u, hu, ht⟩ := bind_eq_ok.mp ht
  obtain ⟨hn, he, hr⟩ := Tables.flush_eq_ok hu
  rw [map_flushAll_nil] at hn he
  obtain ⟨rfl, -⟩ := Prod.mk.inj (Except.ok.inj ht)
  refine ⟨rfl, ⟨node, hmem, rfl⟩, ?_, ?_, ?_⟩
  · change u.nodes.rows.filter (fun n => !(n.id == node.id)) = _
    rw [hn]
    exact List.filter_congr fun n _ => by rw [Bool.eq_iff_iff]; simp
  · change u.enrollments.rows.filter (fun e => !((db.enrollments.rows.filter fun x =>
      x.edgeNodeId = node.id).any fun x => x.id == e.id)) = _
    rw [he]
    refine List.filter_congr fun e hmem => ?_
    rw [Bool.eq_iff_iff]
    simp only [Bool.not_eq_true', List.any_eq_false, List.mem_filter, decide_eq_true_eq,
      beq_iff_eq, ne_eq, and_imp]
    constructor
    · intro h hnode
      exact h e hmem hnode rfl
    · intro h x hx hnode hid
      rw [Table.eq_of_key hx hmem hid] at hnode
      exact h hnode
  · change u.registrations.rows = _
    rw [hr]
    refine map_flushAll_of_current ?_ ?_ ?_ ?_
    · rw [List.map_map]
      exact db.registrations.nodup.sublist (List.filter_sublist.map RegistrationRow.key)
    · intro d hd
      obtain ⟨r, hr, rfl⟩ := List.mem_map.mp hd
      exact ⟨(List.mem_filter.mp hr).1, RegistrationRow.flush_current rfl⟩
    · intro d hd
      obtain ⟨r, hr, rfl⟩ := List.mem_map.mp hd
      simpa using fun h => absurd (by simpa using (List.mem_filter.mp hr).2) h
    · intro r hr hne
      refine if_neg fun hlinked => hne (r, detach r) (List.mem_map.mpr ⟨r, ?_, rfl⟩) rfl
      exact List.mem_filter.mpr ⟨hr, by simpa using hlinked⟩

theorem delete_effect {db : Db} {nodeId : ℕ} {boundStore : Option String} {d : NodeDeletion}
    {t : Tables} {a : Answer} (hd : deleteEdgeNode nodeId boundStore db = .ok d)
    (ht : d.commit db.toTables = .ok (t, a)) :
    Effect P db (.deleteEdgeNode nodeId boundStore) t.nodes.rows t.enrollments.rows
      t.registrations.rows := by
  obtain ⟨rfl, hnode, hn, he, hr⟩ := delete_rows hd ht
  rw [hn, he, hr]
  exact Effect.deleteNode nodeId hnode

theorem sweep_id (now : ℕ) (r : RegistrationRow) : (Registrations.sweep now r).id = r.id := by
  unfold Registrations.sweep
  split_ifs <;> rfl

theorem sweep_flush (now : ℕ) (r : RegistrationRow) :
    RegistrationRow.flush r (Registrations.sweep now r) r = Registrations.sweep now r := by
  unfold Registrations.sweep
  split_ifs <;> exact RegistrationRow.flush_current rfl

/-- The list request writes back the rows that it does not delete. -/
theorem sweep_effect {db : Db} {now : ℕ} {t : Tables} {a : Answer}
    (ht : (listNodeRegistrationRequests now db).commit db.toTables = .ok (t, a)) :
    Effect P db (.listNodeRegistrationRequests now) t.nodes.rows t.enrollments.rows
      t.registrations.rows := by
  obtain ⟨u, hu, ht⟩ := bind_eq_ok.mp ht
  obtain ⟨hn, he, hr⟩ := Tables.flush_eq_ok hu
  rw [map_flushAll_nil] at hn he
  obtain ⟨rfl, -⟩ := Prod.mk.inj (Except.ok.inj ht)
  have hswept : u.registrations.rows = db.registrations.rows.map fun r =>
      if outdated now (Registrations.sweep now r) = true then r else Registrations.sweep now r := by
    rw [hr]
    refine map_flushAll_of_current ?_ ?_ ?_ ?_
    · rw [List.map_map]
      exact db.registrations.nodup.sublist (List.filter_sublist.map RegistrationRow.key)
    · intro d hd
      obtain ⟨r, hr, rfl⟩ := List.mem_map.mp hd
      exact ⟨(List.mem_filter.mp hr).1, sweep_flush now r⟩
    · intro d hd
      obtain ⟨r, hr, rfl⟩ := List.mem_map.mp hd
      have hkept := (List.mem_filter.mp hr).2
      simp only [listNodeRegistrationRequests, Bool.not_eq_true'] at hkept ⊢
      rw [if_neg (by rw [hkept]; exact Bool.false_ne_true)]
    · intro r hr hne
      split_ifs with hout
      · rfl
      · refine absurd rfl (hne (r, Registrations.sweep now r) (List.mem_map.mpr ⟨r, ?_, rfl⟩))
        exact List.mem_filter.mpr ⟨hr, by simpa [listNodeRegistrationRequests] using hout⟩
  have hkept : (u.registrations.rows.filter fun r => !(db.registrations.rows.any fun x =>
      x.id == r.id && outdated now (Registrations.sweep now x))) =
      (db.registrations.rows.map (Registrations.sweep now)).filter fun r => !outdated now r := by
    rw [hswept, List.filter_map, List.filter_map]
    have hcond : db.registrations.rows.filter ((fun r => !(db.registrations.rows.any fun x =>
        x.id == r.id && outdated now (Registrations.sweep now x))) ∘ fun r =>
          if outdated now (Registrations.sweep now r) = true then r
          else Registrations.sweep now r) =
        db.registrations.rows.filter
          ((fun r => !outdated now r) ∘ Registrations.sweep now) := by
      refine List.filter_congr fun r hr => ?_
      have hid : (if outdated now (Registrations.sweep now r) = true then r
          else Registrations.sweep now r).id = r.id := by
        split_ifs
        · rfl
        · exact sweep_id now r
      simp only [Function.comp_apply, hid]
      congr 1
      rw [Bool.eq_iff_iff, List.any_eq_true]
      constructor
      · rintro ⟨x, hx, h⟩
        simp only [Bool.and_eq_true, beq_iff_eq] at h
        rw [← Table.eq_of_key hx hr h.1]
        exact h.2
      · intro h
        exact ⟨r, hr, by simp [h]⟩
    rw [hcond]
    refine List.map_congr_left fun r hr => if_neg ?_
    simpa using (List.mem_filter.mp hr).2
  have heffect : Effect P db (.listNodeRegistrationRequests now) _ _ _ := .sweep now
  rw [← hkept, ← hn, ← he] at heffect
  exact heffect

theorem creation_effect {db : Db} {body : EdgeEnrollmentCreateBody}
    {inputs : Enrollments.CreateInputs} {c : EnrollmentCreation} {t : Tables} {a : Answer}
    (hc : createEdgeEnrollment P body inputs db = .ok c)
    (ht : c.commit db.toTables = .ok (t, a)) :
    Effect P db (.createEdgeEnrollment body inputs) t.nodes.rows t.enrollments.rows
      t.registrations.rows := by
  obtain ⟨u, hu, ht⟩ := bind_eq_ok.mp ht
  obtain ⟨rfl, -⟩ := Prod.mk.inj (Except.ok.inj ht)
  obtain ⟨hfresh, hfreshItem, hn, he, hr⟩ := insertEnrolled_eq_ok hu
  rw [hn, he, hr]
  exact Effect.createEnrollment body inputs c hc hfresh hfreshItem

theorem accept_effect {db : Db} {requestId : String} {body : NodeRegistrationAcceptBody}
    {inputs : AcceptInputs} {a : Acceptance} {t : Tables} {answer : Answer}
    (ha : acceptNodeRegistration P requestId body inputs db = .ok a)
    (ht : a.commit P db.toTables = .ok (t, answer)) :
    Effect P db (.acceptNodeRegistration requestId body inputs) t.nodes.rows t.enrollments.rows
      t.registrations.rows := by
  unfold Acceptance.commit at ht
  split_ifs at ht
  obtain ⟨u, hu, ht⟩ := bind_eq_ok.mp ht
  obtain ⟨rfl, -⟩ := Prod.mk.inj (Except.ok.inj ht)
  obtain ⟨hfresh, hfreshItem, hn, he, hr⟩ := insertEnrolled_eq_ok hu
  rw [hn, he]
  have hmap : (u.registrations.mapRows (a.set P) (a.set_id P)).rows =
      db.registrations.rows.map (a.set P) := by rw [hr]; rfl
  rw [hmap]
  exact Effect.accept requestId body inputs a ha hfresh hfreshItem

theorem claimRegistration_effect {db : Db} {requestId : String} {body : SignedBody}
    {authorization : Option String} {inputs : ClaimApprovedInputs} {cc : CheckedClaim}
    {c : RegistrationClaim} {t : Tables} {a : Answer}
    (hcc : claimApprovedNodeRegistration P requestId body authorization inputs db = .ok cc)
    (hc : cc.readEnrollment P db = .ok c) (ht : c.commit P db.toTables = .ok (t, a)) :
    Effect P db (.claimApprovedNodeRegistration requestId body authorization inputs) t.nodes.rows
      t.enrollments.rows t.registrations.rows := by
  obtain ⟨-, -, -, -, -, hmem, -⟩ := CheckedClaim.readEnrollment_eq_ok hc
  unfold RegistrationClaim.commit at ht
  split_ifs at ht
  obtain ⟨u, hu, ht⟩ := bind_eq_ok.mp ht
  obtain ⟨rfl, -⟩ := Prod.mk.inj (Except.ok.inj ht)
  obtain ⟨h1, h2, h3⟩ := flush_rows (n := none) (e := some c.enrollment) (r := none) (f := id)
    (g := fun _ => c.installing) (k := id) hu (by simp)
    (by rintro a ⟨⟩; exact ⟨hmem, EnrollmentRow.flush_current rfl rfl rfl⟩) (by simp)
  have hmap : (u.registrations.mapRows c.set c.set_id).rows =
      db.registrations.rows.map c.set := by
    rw [map_atRow_none] at h3
    rw [← h3]; rfl
  rw [hmap, h1, h2, map_atRow_none]
  exact Effect.claimRegistration requestId body authorization inputs cc c hcc hc

/-- What a request that is prepared commits is one of the effects. -/
theorem commit_effect {db : Db} {req : Request} {plan : Plan} {t : Tables} {a : Answer}
    (hp : prepare P db req = .ok plan) (ht : plan.commit P db.toTables = .ok (t, a)) :
    Effect P db req t.nodes.rows t.enrollments.rows t.registrations.rows := by
  obtain ⟨handler, hb, hp⟩ := bind_eq_ok.mp hp
  cases req with
  | createEdgeNode body newId =>
    obtain ⟨node, hnode, rfl⟩ := map_eq_ok.mp hb
    obtain rfl := Except.ok.inj hp
    simp only [Plan.commit] at ht
    split at ht
    · next nodes hnodes =>
      obtain ⟨rfl, -⟩ := Prod.mk.inj (Except.ok.inj ht)
      obtain ⟨hfresh, hrows⟩ := insert?_eq_some hnodes
      rw [hrows]
      exact Effect.createNode body newId node hnode hfresh
    · simp at ht
  | updateEdgeNode nodeId body =>
    obtain ⟨w, hw, rfl⟩ := map_eq_ok.mp hb
    obtain rfl := Except.ok.inj hp
    exact update_effect hw (write_commit P ht)
  | deleteEdgeNode nodeId boundStore =>
    obtain ⟨d, hd, rfl⟩ := map_eq_ok.mp hb
    obtain rfl := Except.ok.inj hp
    exact delete_effect hd ht
  | createEdgeEnrollment body inputs =>
    obtain ⟨c, hc, rfl⟩ := map_eq_ok.mp hb
    obtain rfl := Except.ok.inj hp
    exact creation_effect hc ht
  | listEdgeEnrollments clock =>
    obtain ⟨w, hw, rfl⟩ := map_eq_ok.mp hb
    obtain rfl := Except.ok.inj hp
    exact list_effect hw (write_commit P ht)
  | claimEdgeEnrollment authorization body inputs =>
    obtain ⟨w, hw, rfl⟩ := map_eq_ok.mp hb
    obtain rfl := Except.ok.inj hp
    rcases claimEdgeEnrollment_eq_ok hw with ⟨item, hmem, rfl⟩ | ⟨c, rfl, -⟩
    · exact expire_effect _ hmem (write_commit P ht)
    · change c.commit P db.toTables = .ok (t, a) at ht
      unfold EnrollmentClaim.commit at ht
      split_ifs at ht
      obtain ⟨rfl, -⟩ := Prod.mk.inj (Except.ok.inj ht)
      exact Effect.claimEnrollment authorization body inputs c hw
  | reportEdgeEnrollment authorization body now =>
    obtain ⟨w, hw, rfl⟩ := map_eq_ok.mp hb
    obtain rfl := Except.ok.inj hp
    exact report_effect hw (write_commit P ht)
  | revokeEdgeEnrollment enrollmentId fresh now =>
    obtain ⟨w, hw, rfl⟩ := map_eq_ok.mp hb
    obtain rfl := Except.ok.inj hp
    exact revoke_effect hw (write_commit P ht)
  | regenerateEdgeEnrollment enrollmentId inputs =>
    obtain ⟨w, hw, rfl⟩ := map_eq_ok.mp hb
    obtain rfl := Except.ok.inj hp
    exact regenerate_effect hw (write_commit P ht)
  | createNodeRegistration body inputs =>
    obtain ⟨c, hc, rfl⟩ := map_eq_ok.mp hb
    obtain rfl := Except.ok.inj hp
    change c.commit db.toTables = .ok (t, a) at ht
    unfold RegistrationCreation.commit at ht
    split at ht
    · next registrations hr =>
      obtain ⟨rfl, -⟩ := Prod.mk.inj (Except.ok.inj ht)
      obtain ⟨hfresh, hrows⟩ := insert?_eq_some hr
      rw [hrows]
      exact Effect.register body inputs c hc hfresh
    · simp at ht
  | proveNodeRegistration requestId body authorization sourceIp now =>
    obtain ⟨w, hw, rfl⟩ := map_eq_ok.mp hb
    obtain rfl := Except.ok.inj hp
    rcases proveNodeRegistration_eq_ok hw with ⟨item, hget, hpending, -, rfl⟩ | ⟨p, rfl, -⟩
    · exact expireRegistration_effect _ (Table.get?_eq_some.mp hget).1 hpending (write_commit P ht)
    · change p.commit db.toTables = .ok (t, a) at ht
      unfold Proof.commit at ht
      split_ifs at ht
      obtain ⟨rfl, -⟩ := Prod.mk.inj (Except.ok.inj ht)
      exact Effect.prove requestId body authorization sourceIp now p hw
  | nodeRegistrationStatus requestId authorization =>
    obtain ⟨answer, -, rfl⟩ := map_eq_ok.mp hb
    obtain rfl := Except.ok.inj hp
    obtain ⟨hn, he, hr⟩ := Tables.flush_eq_ok (write_commit P ht)
    rw [hn, he, hr, map_flushAll_nil, map_flushAll_nil, map_flushAll_nil]
    exact Effect.quiet _
  | listNodeRegistrationRequests now =>
    obtain rfl := Except.ok.inj hb
    obtain rfl := Except.ok.inj hp
    exact sweep_effect ht
  | acceptNodeRegistration requestId body inputs =>
    obtain ⟨acceptance, ha, rfl⟩ := map_eq_ok.mp hb
    obtain rfl := Except.ok.inj hp
    exact accept_effect ha ht
  | rejectNodeRegistration requestId reason actorId now =>
    obtain ⟨r, hr, rfl⟩ := map_eq_ok.mp hb
    obtain rfl := Except.ok.inj hp
    change r.commit db.toTables = .ok (t, a) at ht
    unfold Rejection.commit at ht
    split_ifs at ht
    obtain ⟨rfl, -⟩ := Prod.mk.inj (Except.ok.inj ht)
    exact Effect.reject requestId reason actorId now r hr
  | claimApprovedNodeRegistration requestId body authorization inputs =>
    obtain ⟨cc, hcc, rfl⟩ := map_eq_ok.mp hb
    obtain ⟨c, hc, rfl⟩ := map_eq_ok.mp hp
    exact claimRegistration_effect hcc hc ht
  | runMonitor inputs =>
    obtain rfl := Except.ok.inj hb
    obtain ⟨m, hm, hp⟩ := bind_eq_ok.mp hp
    obtain rfl := Except.ok.inj hp
    obtain ⟨hprobed, hn, he, hr⟩ := monitor_rows hm (write_commit P ht)
    rw [hn, he, hr]
    exact Effect.monitor inputs hprobed

/-- **Every request has an effect of the list.** -/
theorem serve_effect (db : Db) (req : Request) :
    Effect P db req (serve P req db).1.nodes.rows (serve P req db).1.enrollments.rows
      (serve P req db).1.registrations.rows := by
  unfold serve
  split
  · next result h =>
    obtain ⟨plan, hplan, hattempt⟩ := bind_eq_ok.mp h
    obtain ⟨db', answer⟩ := result
    exact commit_effect hplan (Plan.attempt_eq_ok P hattempt)
  · exact Effect.quiet req

/-! ## An update goes through -/

theorem duplicate_eq_false {db : Db} {name endpoint : String} {own : ℕ}
    (h : duplicate db (some name) (some endpoint) (some own) = false) {x : NodeRow}
    (hx : x ∈ db.nodes.rows) (hid : x.id ≠ own) : name ≠ x.name ∧ endpoint ≠ x.endpoint := by
  have := List.any_eq_false.mp h x hx
  simp only [bne_iff_ne, ne_eq, Option.some.injEq, Bool.and_eq_true, Bool.or_eq_true, beq_iff_eq,
    not_and, not_or] at this
  exact this fun h => hid h.symm

/-- A column that is unique stays so if its new value is not that of another row. -/
theorem unique_atKey {β : Type} {rows : List NodeRow} {column : NodeRow → β} {new : NodeRow}
    (h : ∀ a ∈ rows, ∀ b ∈ rows, column a = column b → a.id = b.id)
    (hnew : ∀ x ∈ rows, x.id ≠ new.id → column new ≠ column x) :
    ∀ a ∈ rows.map (atKey NodeRow.key new.id fun _ => new),
      ∀ b ∈ rows.map (atKey NodeRow.key new.id fun _ => new), column a = column b → a.id = b.id := by
  intro a ha b hb heq
  obtain ⟨x, hx, rfl⟩ := List.mem_map.mp ha
  obtain ⟨y, hy, rfl⟩ := List.mem_map.mp hb
  rcases atKey_cases NodeRow.key new.id (fun _ => new) x with ⟨hkx, h1⟩ | ⟨hkx, h1⟩ <;>
    rcases atKey_cases NodeRow.key new.id (fun _ => new) y with ⟨hky, h2⟩ | ⟨hky, h2⟩
  · rw [h1, h2] at heq ⊢; exact h x hx y hy heq
  · rw [h1, h2] at heq; exact absurd heq.symm (hnew x hx hkx)
  · rw [h1, h2] at heq; exact absurd heq (hnew y hy hky)
  · rw [h1, h2]

/-- Write-backs of rows that are there go through, if they leave the indexes unique. -/
theorem write_attempt {db : Db} (dirty : Dirty) (answer : Answer)
    (hn : ∀ d ∈ dirty.nodes, ∃ x ∈ db.nodes.rows, x.key = d.1.key)
    (he : ∀ d ∈ dirty.enrollments, ∃ x ∈ db.enrollments.rows, x.key = d.1.key)
    (hr : ∀ d ∈ dirty.registrations, ∃ x ∈ db.registrations.rows, x.key = d.1.key)
    (hunique : ∀ t, db.toTables.flush dirty = .ok t → t.Unique) :
    ∃ t, ∃ h : t.Unique, db.toTables.flush dirty = .ok t ∧
      (Plan.write dirty answer).attempt P db = .ok (⟨t, h⟩, answer) := by
  obtain ⟨nodes, hnodes⟩ := writeBackAll_isSome (m := nodeMapping) hn
  obtain ⟨enrollments, henrollments⟩ := writeBackAll_isSome (m := enrollmentMapping) he
  obtain ⟨registrations, hregistrations⟩ := writeBackAll_isSome (m := registrationMapping) hr
  have hflush : db.toTables.flush dirty = .ok ⟨nodes, enrollments, registrations⟩ := by
    unfold Tables.flush
    simp only [hnodes, henrollments, hregistrations]
  have hu := hunique _ hflush
  refine ⟨_, hu, hflush, ?_⟩
  have hcommit : (Plan.write dirty answer).commit P db.toTables =
      .ok (⟨nodes, enrollments, registrations⟩, answer) :=
    bind_eq_ok.mpr ⟨_, hflush, rfl⟩
  unfold Plan.attempt
  rw [hcommit]
  simp only [Db.check, dif_pos hu]

/-- **An update that passes its checks takes effect.** -/
theorem update_serves {db : Db} {nodeId : ℕ} {body : EdgeNodeUpdateBody} {loaded new : NodeRow}
    (h : updateEdgeNode P nodeId body db = .ok (loaded, new)) :
    new ∈ (serve P (.updateEdgeNode nodeId body) db).1.nodes.rows := by
  obtain ⟨hget, hpatch, hdup, -⟩ := updateEdgeNode_eq_ok h
  obtain ⟨hmem, hid⟩ := Table.get?_eq_some.mp hget
  obtain ⟨hnew, hplatform, -⟩ := patch_eq_some hpatch
  have hrows : ∀ t, db.toTables.flush { nodes := [(loaded, new)] } = .ok t →
      t.nodes.rows = db.nodes.rows.map (atKey NodeRow.key new.id fun _ => new) ∧
        t.enrollments.rows = db.enrollments.rows ∧
        t.registrations.rows = db.registrations.rows := by
    intro t ht
    have := flush_rows (n := some loaded) (e := none) (r := none) (f := fun _ => new) (g := id)
      (k := id) ht (by rintro a ⟨⟩; exact ⟨hmem, NodeRow.flush_current hnew hplatform⟩)
      (by simp) (by simp)
    simpa [hnew] using this
  have hothers : ∀ x ∈ db.nodes.rows, x.id ≠ new.id →
      new.name ≠ x.name ∧ new.endpoint ≠ x.endpoint := fun x hx hne =>
    duplicate_eq_false hdup hx (hnew ▸ hne)
  have hunique : ∀ t, db.toTables.flush { nodes := [(loaded, new)] } = .ok t → t.Unique := by
    intro t ht
    obtain ⟨h1, h2, h3⟩ := hrows t ht
    constructor
    · rw [h1]; exact unique_atKey db.unique.name fun x hx hne => (hothers x hx hne).1
    · rw [h1]; exact unique_atKey db.unique.endpoint fun x hx hne => (hothers x hx hne).2
    · rw [h2]; exact db.unique.enrollment
    · rw [h3]; exact db.unique.machine
    · rw [h3]; exact db.unique.publicKey
  obtain ⟨t, hu, hflush, hattempt⟩ := write_attempt (P := P) _ (.node new)
    (by simpa using ⟨loaded, hmem, rfl⟩) (by simp) (by simp) hunique
  have hprepare : prepare P db (.updateEdgeNode nodeId body) =
      .ok (.write { nodes := [(loaded, new)] } (.node new)) :=
    bind_eq_ok.mpr ⟨_, map_eq_ok.mpr ⟨_, h, rfl⟩, rfl⟩
  rw [serve_eq hprepare hattempt, (hrows t hflush).1]
  exact List.mem_map.mpr ⟨loaded, hmem, if_pos hnew.symm⟩

/-- **A deletion of a node that has no store takes effect.** -/
theorem delete_serves {db : Db} {n : NodeRow} (hn : n ∈ db.nodes.rows) :
    (serve P (.deleteEdgeNode n.id none) db).1.registrations.rows =
      db.registrations.rows.map fun r => if r.edgeNodeId = some n.id then detach r else r := by
  have hget : db.nodes.get? n.id = some n := Table.get?_eq_some.mpr ⟨hn, rfl⟩
  obtain ⟨d, hd⟩ : ∃ d, deleteEdgeNode n.id none db = .ok d := by
    unfold deleteEdgeNode
    rw [hget]
    exact ⟨_, rfl⟩
  obtain ⟨t, a, ht⟩ : ∃ t a, d.commit db.toTables = .ok (t, a) := by
    have hloaded : ∀ w ∈ d.registrations.map fun r => (r, detach r),
        ∃ x ∈ db.registrations.rows, x.key = w.1.key := by
      intro w hw
      obtain ⟨r, hr, rfl⟩ := List.mem_map.mp hw
      unfold deleteEdgeNode at hd
      rw [hget] at hd
      obtain rfl := Except.ok.inj hd
      exact ⟨r, (List.mem_filter.mp hr).1, rfl⟩
    obtain ⟨registrations, hregistrations⟩ :=
      writeBackAll_isSome (m := registrationMapping) hloaded
    have hflush : db.toTables.flush { registrations := d.registrations.map fun r => (r, detach r) } =
        .ok ⟨db.nodes, db.enrollments, registrations⟩ := by
      unfold Tables.flush
      simp only [writeBackAll_nil, hregistrations]
    exact ⟨_, _, bind_eq_ok.mpr ⟨_, hflush, rfl⟩⟩
  obtain ⟨-, -, hnodes, henrollments, hregistrations⟩ := delete_rows hd ht
  have hstays : ∀ r ∈ t.registrations.rows, ∃ x ∈ db.registrations.rows, r.id = x.id ∧
      r.active = x.active ∧ r.machineFingerprint = x.machineFingerprint ∧
      r.publicKeyFingerprint = x.publicKeyFingerprint := by
    intro r hr
    rw [hregistrations] at hr
    obtain ⟨x, hx, rfl⟩ := List.mem_map.mp hr
    refine ⟨x, hx, ?_⟩
    split_ifs <;> exact ⟨rfl, rfl, rfl, rfl⟩
  have hu : t.Unique := by
    constructor
    · rw [hnodes]
      exact fun a ha b hb => db.unique.name a (List.mem_filter.mp ha).1 b (List.mem_filter.mp hb).1
    · rw [hnodes]
      exact fun a ha b hb =>
        db.unique.endpoint a (List.mem_filter.mp ha).1 b (List.mem_filter.mp hb).1
    · rw [henrollments]
      exact fun a ha b hb =>
        db.unique.enrollment a (List.mem_filter.mp ha).1 b (List.mem_filter.mp hb).1
    · intro a ha b hb hactive hactive' heq
      obtain ⟨x, hx, hid, hax, hm, -⟩ := hstays a ha
      obtain ⟨y, hy, hid', hay, hm', -⟩ := hstays b hb
      rw [hid, hid']
      exact db.unique.machine x hx y hy (hax ▸ hactive) (hay ▸ hactive') (hm ▸ hm' ▸ heq)
    · intro a ha b hb hactive hactive' heq
      obtain ⟨x, hx, hid, hax, -, hk⟩ := hstays a ha
      obtain ⟨y, hy, hid', hay, -, hk'⟩ := hstays b hb
      rw [hid, hid']
      exact db.unique.publicKey x hx y hy (hax ▸ hactive) (hay ▸ hactive') (hk ▸ hk' ▸ heq)
  have hprepare : prepare P db (.deleteEdgeNode n.id none) = .ok (.deleteNode d) :=
    bind_eq_ok.mpr ⟨_, map_eq_ok.mpr ⟨_, hd, rfl⟩, rfl⟩
  have hattempt : (Plan.deleteNode d).attempt P db = .ok (⟨t, hu⟩, a) := by
    unfold Plan.attempt
    rw [show Plan.commit P (.deleteNode d) db.toTables = .ok (t, a) from ht]
    simp only [Db.check, dif_pos hu]
  rw [serve_eq hprepare hattempt]
  exact hregistrations

/-! ## One row of `edge_nodes` -/

variable (P) in
/-- Where a row of `edge_nodes` comes from. -/
inductive NodeChange (db : Db) : Request → NodeRow → Prop
  | kept (req : Request) (n : NodeRow) (mem : n ∈ db.nodes.rows) : NodeChange db req n
  | created (req : Request) (n : NodeRow) (fresh : ∀ x ∈ db.nodes.rows, x.id ≠ n.id)
      (health : n.healthStatus ≠ .online) (expected : n.expectedPublicIpv4 ≠ some "") :
      NodeChange db req n
  | updated (nodeId : ℕ) (body : EdgeNodeUpdateBody) (loaded new : NodeRow)
      (checked : updateEdgeNode P nodeId body db = .ok (loaded, new)) :
      NodeChange db (.updateEdgeNode nodeId body) new
  | reported (authorization : Option String) (body : EdgeEnrollmentReportBody) (now : ℕ)
      (item : EnrollmentRow) (n : NodeRow) (mem : n ∈ db.nodes.rows)
      (valid : reportItem P authorization now db = some item) (ready : body.phase = .ready)
      (own : n.id = item.edgeNodeId) :
      NodeChange db (.reportEdgeEnrollment authorization body now) (reportNode n)
  | revoked (enrollmentId fresh : String) (now : ℕ) (item : EnrollmentRow) (n : NodeRow)
      (mem : n ∈ db.nodes.rows) (own : n.id = item.edgeNodeId)
      (found : db.enrollments.get? enrollmentId = some item) :
      NodeChange db (.revokeEdgeEnrollment enrollmentId fresh now) (revokeNode n)
  | probed (inputs : MonitorInputs) (n : NodeRow) (mem : n ∈ db.nodes.rows) :
      NodeChange db (.runMonitor inputs) (nodeAfter inputs n)

/-- **Every row of `edge_nodes` after a request has one of these origins.** -/
theorem Effect.nodeChange {db : Db} {req : Request} {ns : List NodeRow} {es : List EnrollmentRow}
    {rs : List RegistrationRow} (h : Effect P db req ns es rs) {n : NodeRow} (hn : n ∈ ns) :
    NodeChange P db req n := by
  cases h with
  | createNode body newId node checked fresh =>
    obtain ⟨-, hhealth, hexpected⟩ := createEdgeNode_eq_ok checked
    rcases List.mem_append.mp hn with hn | hn
    · exact .kept _ n hn
    · obtain rfl := List.mem_singleton.mp hn
      exact .created _ n fresh hhealth hexpected
  | updateNode nodeId body loaded new checked =>
    obtain ⟨x, hx, rfl⟩ := List.mem_map.mp hn
    rcases atKey_cases NodeRow.key loaded.id (fun _ => new) x with ⟨-, h⟩ | ⟨-, h⟩
    · rw [h]; exact .kept _ x hx
    · rw [h]; exact .updated nodeId body loaded new checked
  | deleteNode nodeId _ => exact .kept _ n (List.mem_filter.mp hn).1
  | createEnrollment body inputs c checked fresh _ =>
    obtain ⟨-, -, hhealth, -, -, -, -, -, -, hexpected⟩ := createEdgeEnrollment_eq_ok checked
    rcases List.mem_append.mp hn with hn | hn
    · exact .kept _ n hn
    · obtain rfl := List.mem_singleton.mp hn
      exact .created _ _ fresh (by rw [hhealth]; decide) hexpected
  | report authorization body now item node valid enables =>
    obtain ⟨x, hx, rfl⟩ := List.mem_map.mp hn
    rcases node with _ | a
    · exact .kept _ x hx
    · split_ifs at enables with hready
      obtain ⟨-, hid⟩ := Table.get?_eq_some.mp enables.symm
      rcases atKey_cases NodeRow.key a.key reportNode x with ⟨-, h⟩ | ⟨hk, h⟩
      · rw [atRow_some, h]; exact .kept _ x hx
      · rw [atRow_some, h]
        exact .reported authorization body now item x hx valid hready (hk.trans hid)
  | revoke enrollmentId fresh now item mem revocable =>
    obtain ⟨x, hx, rfl⟩ := List.mem_map.mp hn
    rcases atKey_cases NodeRow.key item.edgeNodeId revokeNode x with ⟨-, h⟩ | ⟨hk, h⟩
    · rw [h]; exact .kept _ x hx
    · rw [h]; exact .revoked enrollmentId fresh now item x hx hk mem
  | accept requestId body inputs a checked fresh _ =>
    obtain ⟨-, -, -, -, -, -, hexpected⟩ := acceptNodeRegistration_eq_ok checked
    rcases List.mem_append.mp hn with hn | hn
    · exact .kept _ n hn
    · obtain rfl := List.mem_singleton.mp hn
      refine .created _ _ fresh (by simp [Acceptance.node]) ?_
      exact fun h => hexpected (Option.some.inj h)
  | monitor inputs _ =>
    obtain ⟨x, hx, rfl⟩ := List.mem_map.mp hn
    exact .probed inputs x hx
  | _ => exact .kept _ n hn

/-! ### A registry to try things on -/

/-- Digests and signatures that show what they are of; one key. -/
def sample : Primitives where
  enrollmentHash s := "#" ++ s
  keyedDigest s := "mac:" ++ s
  loadPublicKey pem := if pem = "key" then .ed25519 "key" "fingerprint" else .refused
  decodes _ := true
  verify publicKeyPem signature message := publicKeyPem == "key" && signature == "sig:" ++ message
  urlsplit url := some ⟨"https", some url, none, none⟩

def sampleNode : EdgeNodeCreateBody where
  name := "edge-a"
  endpoint := "https://a.example"
  sharedSecret := "secret"
  expectedPublicIpv4 := some "8.8.8.8"

/-- A run of the monitor in which every node answers well, as `edge-a` at `8.8.8.8`. -/
def goodRound : MonitorInputs where
  config := {}
  depth := 1
  behaviour _ := answering (statusDocument "edge-a" (text "3600"))
  clock := fleetClock

/-- A machine that registers. -/
def sampleMachine : NodeRegistrationCreateBody where
  publicKeyPem := "key"
  platform := .windows
  machineFingerprint := "machine"
  reportedHostname := "host"
  publicIpv4 := "8.8.8.8"
  osName := "Windows"
  cpuCount := 4
  memoryTotalBytes := 1
  diskTotalBytes := 1
  agentVersion := "1"

/-- It registers from its address; the challenge and the token bear the name of the registration. -/
def registers (requestId : String) (now : ℕ) : Request :=
  .createNodeRegistration sampleMachine
    { sourceIp := some "8.8.8.8"
      now := now
      requestId := requestId
      challenge := "challenge-" ++ requestId
      tokenSecret := "token" }

/-- It proves that it has the key. -/
def proves (requestId : String) (now : ℕ) : Request :=
  .proveNodeRegistration requestId
    { challenge := "challenge-" ++ requestId
      signature := "sig:" ++ signedMessage proofPurpose requestId ("challenge-" ++ requestId)
        "8.8.8.8" "machine" }
    (some ("Registration " ++ rawToken requestId "token")) (some "8.8.8.8") now

/-- An administrator accepts it as the node of this id. -/
def accepts (requestId : String) (nodeId now : ℕ) : Request :=
  .acceptNodeRegistration requestId
    { nodeName := "edge-a", endpoint := "https://a.example", expectedPublicIpv4 := "8.8.8.8" }
    { actorId := 1
      now := now
      nodeId := nodeId
      sharedSecret := "secret"
      enrollmentId := "enrollment"
      fresh := "fresh" }

/-- Its host claims its configuration. -/
def claims (requestId : String) (now : ℕ) : Request :=
  let challenge := sample.keyedDigest ("node-claim-challenge-v1:" ++ requestId ++ ":" ++
    sample.enrollmentHash (rawToken requestId "token"))
  .claimApprovedNodeRegistration requestId
    { challenge := challenge
      signature := "sig:" ++ signedMessage claimPurpose requestId challenge "8.8.8.8" "machine" }
    (some ("Registration " ++ rawToken requestId "token"))
    { sourceIp := some "8.8.8.8", now := now, package := .ok ("sha256", "route") }

/-- It reports with the token that it has got. -/
def reportHeader (requestId : String) : Option String :=
  some ("Report " ++ rawToken "enrollment" (sample.keyedDigest ("node-report-v1:" ++
    sample.enrollmentHash (rawToken requestId "token") ++ ":enrollment")))

def reports (requestId : String) (phase : Phase) (now : ℕ) : Request :=
  .reportEdgeEnrollment (reportHeader requestId) { phase := phase } now

/-- A machine registers, proves its key and is accepted as node 1. -/
def accepted : List Request := [registers "r" 0, proves "r" 1, accepts "r" 1 2]

/-- A machine has been accepted, and its host has claimed its configuration. -/
def installed : List Request := accepted ++ [claims "r" 3]

/-- The installation has gone through. -/
def completed : List Request := installed ++ [reports "r" .ready 4]

end IdenGrid.Control.Fleet
