import IdenGrid.Control.Registrations

/-! # The handlers of the registry

Every request of the registry and the monitor, cut at its database accesses: `begin` is the first
read with the checks on what it finds, `proceed` a further read, and `Plan.attempt` the commit, which
either goes through or leaves the tables alone. `serve` is a request that nobody interrupts.

The monitor loads the enabled nodes, probes one after the other, reads the enrollment and the
registration of each after its probe, and commits everything at the end. -/

namespace IdenGrid.Control.Handlers

open IdenGrid.Lib.Store IdenGrid.Lib.WriteBack
open IdenGrid.Control.Nodes
open IdenGrid.Control.Monitor hiding Db
open IdenGrid.Control.Registry IdenGrid.Control.NodeAdmin IdenGrid.Control.Enrollments
open IdenGrid.Control.Registrations

variable (P : Primitives)

/-! ## The monitor -/

/-- The arguments of a run of the monitor: what the nodes answer, and its clock. -/
structure MonitorInputs where
  config : Config
  depth : ℕ
  behaviour : ℕ → Behaviour
  clock : ℕ → Readings

/-- What `run_once` has changed in memory and noted so far. -/
structure MonitorRun where
  inputs : MonitorInputs
  dirty : Dirty := {}
  results : List (String × HealthStatus) := []

def monitorNode (result : Probe) (t : Readings) (node : NodeRow) : NodeRow :=
  { node with toEdgeNode := updateNode node.toEdgeNode result t }

def monitorEnrollment (status : HealthStatus) (now : ℕ) (item : EnrollmentRow) : EnrollmentRow :=
  { item with toNodeEnrollment := updateEnrollment status now item.toNodeEnrollment }

def monitorRegistration (status : HealthStatus) (now : ℕ) (item : RegistrationRow) :
    RegistrationRow :=
  { item with
    toNodeRegistrationRequest := updateRegistration status now item.toNodeRegistrationRequest }

/-- What a probe of the node finds; `none` if an exception leaves it. -/
def probeOf (inputs : MonitorInputs) (node : NodeRow) : Option Probe :=
  probe inputs.config inputs.depth node.toEdgeNode (inputs.behaviour node.id)

/-- The enrollment of the node that the monitor keeps up to date. -/
def pickedEnrollment (db : Db) (nodeId : ℕ) : Option EnrollmentRow :=
  db.enrollments.first fun e => linkedEnrollment nodeId e.toNodeEnrollment

/-- The registration of the node that the monitor keeps up to date. -/
def pickedRegistration (db : Db) (nodeId : ℕ) : Option RegistrationRow :=
  db.registrations.first fun r => linkedRegistration nodeId r.toNodeRegistrationRequest

/-- One round of the loop of `run_once`; an exception ends the run. -/
def MonitorRun.visit (m : MonitorRun) (node : NodeRow) (db : Db) : Except Refusal MonitorRun :=
  match probeOf m.inputs node with
  | none => .error serverError
  | some result =>
    if result.storable = true then
      let status := effective node.toEdgeNode result.health
      let t := m.inputs.clock node.id
      .ok
        { m with
          dirty :=
            { nodes := m.dirty.nodes ++ [(node, monitorNode result t node)]
              enrollments := m.dirty.enrollments ++
                ((pickedEnrollment db node.id).map fun e =>
                  (e, monitorEnrollment status t.enrollment e)).toList
              registrations := m.dirty.registrations ++
                ((pickedRegistration db node.id).map fun r =>
                  (r, monitorRegistration status t.registration r)).toList }
          results := m.results ++ [(node.name, status)] }
    else .error serverError

/-- The enabled nodes by their ids. -/
def monitoredNodes (db : Db) : List NodeRow :=
  (db.nodes.rows.filter fun n => n.enabled).insertionSort fun a b => a.id ≤ b.id

/-! ## Requests -/

inductive Request
  | createEdgeNode (body : EdgeNodeCreateBody) (newId : ℕ)
  | updateEdgeNode (nodeId : ℕ) (body : EdgeNodeUpdateBody)
  | deleteEdgeNode (nodeId : ℕ) (boundStore : Option String)
  | createEdgeEnrollment (body : EdgeEnrollmentCreateBody) (inputs : Enrollments.CreateInputs)
  | listEdgeEnrollments (clock : String → ℕ)
  | claimEdgeEnrollment (authorization : Option String) (body : EdgeEnrollmentClaimBody)
      (inputs : Enrollments.ClaimInputs)
  | reportEdgeEnrollment (authorization : Option String) (body : EdgeEnrollmentReportBody)
      (now : ℕ)
  | revokeEdgeEnrollment (enrollmentId fresh : String) (now : ℕ)
  | regenerateEdgeEnrollment (enrollmentId : String) (inputs : RegenerateInputs)
  | createNodeRegistration (body : NodeRegistrationCreateBody) (inputs : RegisterInputs)
  | proveNodeRegistration (requestId : String) (body : SignedBody)
      (authorization sourceIp : Option String) (now : ℕ)
  | nodeRegistrationStatus (requestId : String) (authorization : Option String)
  | listNodeRegistrationRequests (now : ℕ)
  | acceptNodeRegistration (requestId : String) (body : NodeRegistrationAcceptBody)
      (inputs : AcceptInputs)
  | rejectNodeRegistration (requestId reason : String) (actorId now : ℕ)
  | claimApprovedNodeRegistration (requestId : String) (body : SignedBody)
      (authorization : Option String) (inputs : ClaimApprovedInputs)
  | runMonitor (inputs : MonitorInputs)

/-- What a handler commits. -/
inductive Plan
  | write (dirty : Dirty) (answer : Answer)
  | insertNode (node : NodeRow)
  | deleteNode (deletion : NodeDeletion)
  | createEnrollment (creation : EnrollmentCreation)
  | claimEnrollment (claim : EnrollmentClaim)
  | register (creation : RegistrationCreation)
  | prove (proof : Proof)
  | sweep (list : Sweep)
  | accept (acceptance : Acceptance)
  | reject (rejection : Rejection)
  | claimRegistration (claim : RegistrationClaim)

/-- Where a handler stands after its first read. -/
inductive Handler
  | checked (claim : CheckedClaim)
  | probing (nodes : List NodeRow) (progress : MonitorRun)
  | ready (plan : Plan)

/-- A plan that is a write of loaded rows. -/
def Plan.ofWrite (w : Dirty × Answer) : Plan := .write w.1 w.2

/-- The first read of a handler. -/
def begin (db : Db) : Request → Except Refusal Handler
  | .createEdgeNode body newId =>
    (createEdgeNode P body newId db).map fun n => .ready (.insertNode n)
  | .updateEdgeNode nodeId body =>
    (updateEdgeNode P nodeId body db).map fun w =>
      .ready (.write { nodes := [w] } (.node w.2))
  | .deleteEdgeNode nodeId boundStore =>
    (deleteEdgeNode nodeId boundStore db).map fun d => .ready (.deleteNode d)
  | .createEdgeEnrollment body inputs =>
    (createEdgeEnrollment P body inputs db).map fun c => .ready (.createEnrollment c)
  | .listEdgeEnrollments clock => (listEdgeEnrollments clock db).map fun w => .ready (.ofWrite w)
  | .claimEdgeEnrollment authorization body inputs =>
    (claimEdgeEnrollment P authorization body inputs db).map fun w =>
      .ready (w.elim .ofWrite .claimEnrollment)
  | .reportEdgeEnrollment authorization body now =>
    (reportEdgeEnrollment P authorization body now db).map fun w => .ready (.ofWrite w)
  | .revokeEdgeEnrollment enrollmentId fresh now =>
    (revokeEdgeEnrollment P enrollmentId fresh now db).map fun w => .ready (.ofWrite w)
  | .regenerateEdgeEnrollment enrollmentId inputs =>
    (regenerateEdgeEnrollment P enrollmentId inputs db).map fun w => .ready (.ofWrite w)
  | .createNodeRegistration body inputs =>
    (createNodeRegistration P body inputs).map fun c => .ready (.register c)
  | .proveNodeRegistration requestId body authorization sourceIp now =>
    (proveNodeRegistration P requestId body authorization sourceIp now db).map fun w =>
      .ready (w.elim .ofWrite .prove)
  | .nodeRegistrationStatus requestId authorization =>
    (nodeRegistrationStatus P requestId authorization db).map fun a => .ready (.write {} a)
  | .listNodeRegistrationRequests now => .ok (.ready (.sweep (listNodeRegistrationRequests now db)))
  | .acceptNodeRegistration requestId body inputs =>
    (acceptNodeRegistration P requestId body inputs db).map fun a => .ready (.accept a)
  | .rejectNodeRegistration requestId reason actorId now =>
    (rejectNodeRegistration requestId reason actorId now db).map fun r => .ready (.reject r)
  | .claimApprovedNodeRegistration requestId body authorization inputs =>
    (claimApprovedNodeRegistration P requestId body authorization inputs db).map .checked
  | .runMonitor inputs => .ok (.probing (monitoredNodes db) { inputs := inputs })

/-- A further read of a handler that is not ready to commit. -/
def proceed (db : Db) : Handler → Except Refusal Handler
  | .checked claim => (claim.readEnrollment P db).map fun c => .ready (.claimRegistration c)
  | .probing (node :: nodes) progress => (progress.visit node db).map (.probing nodes)
  | .probing [] progress => .ok (.ready (.write progress.dirty (.monitored progress.results)))
  | .ready plan => .ok (.ready plan)

/-! ## Commits -/

/-- The statements of the commit. -/
def Plan.commit : Plan → Tables → Except Failure (Tables × Answer)
  | .write dirty answer, t => do
    let t ← t.flush dirty
    .ok (t, answer)
  | .insertNode node, t =>
    match insert? node t.nodes with
    | some nodes => .ok ({ t with nodes := nodes }, .node node)
    | none => .error .integrity
  | .deleteNode deletion, t => deletion.commit t
  | .createEnrollment creation, t => creation.commit t
  | .claimEnrollment claim, t => claim.commit P t
  | .register creation, t => creation.commit t
  | .prove proof, t => proof.commit t
  | .sweep list, t => list.commit t
  | .accept acceptance, t => acceptance.commit P t
  | .reject rejection, t => rejection.commit t
  | .claimRegistration claim, t => claim.commit P t

/-- What the handler makes of an `IntegrityError`. -/
def Plan.conflict : Plan → Refusal
  | .createEnrollment _ => ⟨409, "Edge enrollment already exists"⟩
  | .register _ => ⟨409, "Registration already pending"⟩
  | .accept _ => cannotBeAccepted
  | .deleteNode _ => ⟨409, "节点关联状态已变化，请刷新后重试"⟩
  | _ => serverError

/-- The commit under the unique indexes; a refusal leaves the tables as they are. -/
def Plan.attempt (plan : Plan) (db : Db) : Except Refusal (Db × Answer) :=
  match plan.commit P db.toTables with
  | .error (.refused refusal) => .error refusal
  | .error .integrity => .error plan.conflict
  | .ok (t, answer) =>
    match Db.check t with
    | some db' => .ok (db', answer)
    | none => .error plan.conflict

theorem Plan.attempt_eq_ok {plan : Plan} {db db' : Db} {answer : Answer}
    (h : plan.attempt P db = .ok (db', answer)) :
    plan.commit P db.toTables = .ok (db'.toTables, answer) := by
  unfold Plan.attempt at h
  split at h
  · simp at h
  · simp at h
  · next t a hc =>
    split at h
    · next u hu =>
      obtain ⟨rfl, rfl⟩ : u = db' ∧ a = answer := by simpa using h
      rw [hc, ← Db.check_eq_some hu]
    · simp at h

/-! ## One request after the other -/

/-- The reads of a handler that nobody interrupts. -/
def prepare (db : Db) (req : Request) : Except Refusal Plan := do
  match ← begin P db req with
  | .ready plan => .ok plan
  | .checked claim => (claim.readEnrollment P db).map .claimRegistration
  | .probing nodes progress => do
    let progress ← nodes.foldlM (fun m node => m.visit node db) progress
    .ok (.write progress.dirty (.monitored progress.results))

/-- A request from its first read to its commit. -/
def serve (req : Request) (db : Db) : Db × Answer :=
  match (prepare P db req).bind fun plan => plan.attempt P db with
  | .ok result => result
  | .error refusal => (db, .refused refusal)

variable {P} in
/-- A request that is prepared, and whose commit goes through. -/
theorem serve_eq {req : Request} {db : Db} {plan : Plan} {result : Db × Answer}
    (hp : prepare P db req = .ok plan) (ht : plan.attempt P db = .ok result) :
    serve P req db = result := by
  unfold serve
  rw [hp]
  simp only [Except.bind, ht]

variable {P} in
/-- A request that cannot be prepared, or whose commit does not go through. -/
theorem serve_refused {req : Request} {db : Db} {refusal : Refusal}
    (h : (prepare P db req).bind (fun plan => plan.attempt P db) = .error refusal) :
    serve P req db = (db, .refused refusal) := by
  unfold serve
  rw [h]

end IdenGrid.Control.Handlers
