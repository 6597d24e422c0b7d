import IdenGrid.Control.NodeAdmin

/-! # Enrollments

`create_edge_enrollment`, `list_edge_enrollments`, `claim_edge_enrollment`,
`report_edge_enrollment`, `revoke_edge_enrollment` and `regenerate_edge_enrollment`: what each reads
and checks, and what its session holds at the commit. Apart from the creation and the claim, which
is a conditional UPDATE, that is a number of changed rows. -/

namespace IdenGrid.Control.Enrollments

open IdenGrid.Lib.Store IdenGrid.Lib.WriteBack IdenGrid.Lib.Results
open IdenGrid.Control.Rows IdenGrid.Control.Nodes
open IdenGrid.Control.Monitor hiding Db
open IdenGrid.Control.Registry IdenGrid.Control.NodeAdmin

variable (P : Primitives)

def invalidEnrollment : Refusal := ⟨401, "Invalid or expired enrollment"⟩

/-- `serialize_enrollment`: what it makes of an overdue row. -/
def serializeEnrollment (now : ℕ) (item : EnrollmentRow) : EnrollmentRow :=
  if item.status = .pending ∧ item.expiresAt ≤ now then
    { item with status := .expired, updatedAt := now }
  else item

/-- The raw token of an enrollment. -/
def rawToken (id secret : String) : String := id ++ "." ++ secret

/-! ## Creation and listing -/

structure EdgeEnrollmentCreateBody where
  nodeName : String
  endpoint : String
  expectedPublicIpv4 : String
  deriving DecidableEq, Repr

/-- The random values and the readings of the clock of `create_edge_enrollment`. -/
structure CreateInputs where
  actorId : ℕ
  nodeId : ℕ
  sharedSecret : String
  enrollmentId : String
  tokenSecret : String
  expiresFrom : ℕ
  updatedAt : ℕ
  repliedAt : ℕ
  deriving DecidableEq, Repr

/-- A node, its enrollment and the raw token, to be inserted. -/
structure EnrollmentCreation where
  node : NodeRow
  item : EnrollmentRow
  raw : String
  repliedAt : ℕ

def createEdgeEnrollment (body : EdgeEnrollmentCreateBody) (i : CreateInputs) (db : Db) :
    Except Refusal EnrollmentCreation := do
  validateEdgeNodeNetwork P (some body.endpoint) (some body.expectedPublicIpv4)
  if duplicate db (some body.nodeName) (some body.endpoint) none then .error nodeExists
  else
    let raw := rawToken i.enrollmentId i.tokenSecret
    .ok
      { node :=
          { id := i.nodeId
            name := body.nodeName
            endpoint := body.endpoint
            sharedSecret := i.sharedSecret
            enabled := false
            maintenanceMode := false
            healthStatus := .disabled
            lastSeenAt := none
            latencyMs := none
            expectedPublicIpv4 := some body.expectedPublicIpv4
            status := {}
            lastError := none }
        item :=
          { id := i.enrollmentId
            edgeNodeId := i.nodeId
            reportTokenHash := none
            status := .pending
            phase := none
            updatedAt := i.updatedAt
            lastError := none
            createdByUserId := i.actorId
            tokenHash := P.enrollmentHash raw
            expiresAt := i.expiresFrom + minutes 15 }
        raw := raw
        repliedAt := i.repliedAt }

variable {P} in
/-- **What a new enrollment is**: pending, for a new node that is disabled, with the issued token. -/
theorem createEdgeEnrollment_eq_ok {body : EdgeEnrollmentCreateBody} {i : CreateInputs} {db : Db}
    {c : EnrollmentCreation} (h : createEdgeEnrollment P body i db = .ok c) :
    c.node.id = i.nodeId ∧ c.node.enabled = false ∧ c.node.healthStatus = .disabled ∧
      c.item.id = i.enrollmentId ∧ c.item.edgeNodeId = c.node.id ∧ c.item.status = .pending ∧
      c.item.tokenHash = P.enrollmentHash c.raw ∧ c.raw = rawToken i.enrollmentId i.tokenSecret ∧
      c.item.reportTokenHash = none ∧ c.node.expectedPublicIpv4 ≠ some "" := by
  unfold createEdgeEnrollment at h
  obtain ⟨⟨⟩, hvalid, h⟩ := bind_eq_ok.mp h
  by_cases hdup : duplicate db (some body.nodeName) (some body.endpoint) none = true
  · simp [hdup] at h
  · rw [if_neg hdup] at h
    obtain rfl := Except.ok.inj h
    exact ⟨rfl, rfl, rfl, rfl, rfl, rfl, rfl, rfl, rfl, validateEdgeNodeNetwork_ne_empty hvalid⟩

/-- The INSERTs of a node and its enrollment. -/
def insertEnrolled (node : NodeRow) (item : EnrollmentRow) (t : Tables) : Except Failure Tables :=
  match insert? node t.nodes, insert? item t.enrollments with
  | some nodes, some enrollments => .ok { t with nodes := nodes, enrollments := enrollments }
  | _, _ => .error .integrity

theorem insertEnrolled_eq_ok {node : NodeRow} {item : EnrollmentRow} {t t' : Tables}
    (h : insertEnrolled node item t = .ok t') :
    (∀ x ∈ t.nodes.rows, x.id ≠ node.id) ∧ (∀ x ∈ t.enrollments.rows, x.id ≠ item.id) ∧
      t'.nodes.rows = t.nodes.rows ++ [node] ∧
      t'.enrollments.rows = t.enrollments.rows ++ [item] ∧ t'.registrations = t.registrations := by
  unfold insertEnrolled at h
  split at h
  · next nodes enrollments hn he =>
    obtain rfl := Except.ok.inj h
    obtain ⟨hfn, hrn⟩ := insert?_eq_some hn
    obtain ⟨hfe, hre⟩ := insert?_eq_some he
    exact ⟨hfn, hfe, hrn, hre, rfl⟩
  · simp at h

def EnrollmentCreation.commit (c : EnrollmentCreation) (t : Tables) :
    Except Failure (Tables × Answer) := do
  let t ← insertEnrolled c.node c.item t
  .ok (t, .enrollment (serializeEnrollment c.repliedAt c.item) c.node (some c.raw))

/-- `list_edge_enrollments`, with the reading of the clock for each row. -/
def listEdgeEnrollments (clock : String → ℕ) (db : Db) : Except Refusal (Dirty × Answer) :=
  let items := db.enrollments.rows.insertionSort fun a b => b.updatedAt ≤ a.updatedAt
  let served := items.map fun e => (e, serializeEnrollment (clock e.id) e)
  match served.mapM fun s => (db.nodes.get? s.1.edgeNodeId).map fun node => (s.2, node) with
  | none => .error serverError
  | some rows => .ok ({ enrollments := served }, .enrollments rows)

/-! ## The claim -/

structure EdgeEnrollmentClaimBody where
  nodeName : String
  publicIpv4 : String
  agentVersion : String
  deriving DecidableEq, Repr

/-- The address, the clock, the package and the random values of `claim_edge_enrollment`. -/
structure ClaimInputs where
  sourceIp : Option String
  now : ℕ
  package : Except Refusal (String × String)
  fresh : String
  reportSecret : String

/-- A known source address has to be the address of the body. -/
def sourceMatches (sourceIp : Option String) (publicIpv4 : String) : Option Bool :=
  match sourceIp with
  | none => some true
  | some ip => compareDigest ip publicIpv4

/-- The checks of a claim: all comparisons are made, and one that raises stops the handler. -/
def claimValid (raw : String) (body : EdgeEnrollmentClaimBody) (i : ClaimInputs)
    (item : EnrollmentRow) (node : NodeRow) : Option Bool := do
  let token ← compareDigest (P.enrollmentHash raw) item.tokenHash
  let name ← compareDigest body.nodeName node.name
  let expected ← compareDigest body.publicIpv4 (node.expectedPublicIpv4.getD "")
  let source ← sourceMatches i.sourceIp body.publicIpv4
  some (token && item.status == .pending && item.claimedAt.isNone && decide (i.now < item.expiresAt)
    && name && expected && source && globalIpv4 body.publicIpv4)

/-- What `claim_edge_enrollment` holds when it goes on to its conditional UPDATE. -/
structure EnrollmentClaim where
  raw : String
  item : EnrollmentRow
  node : NodeRow
  body : EdgeEnrollmentClaimBody
  now : ℕ
  fresh : String
  reportToken : String
  packageSha256 : String
  packageRoute : String

/-- `claim_edge_enrollment` up to its writes: the expiry of an overdue row, or the claim. -/
def claimEdgeEnrollment (authorization : Option String) (body : EdgeEnrollmentClaimBody)
    (i : ClaimInputs) (db : Db) : Except Refusal ((Dirty × Answer) ⊕ EnrollmentClaim) :=
  match headerToken "Enrollment " 200 authorization with
  | none => .error invalidEnrollment
  | some (raw, tokenId) =>
    if 64 < tokenId.length then .error invalidEnrollment
    else
      match db.enrollments.get? tokenId with
      | none => .error invalidEnrollment
      | some item =>
        match db.nodes.get? item.edgeNodeId with
        | none => .error serverError
        | some node =>
          match claimValid P raw body i item node with
          | none => .error serverError
          | some false =>
            if item.status = .pending ∧ item.expiresAt ≤ i.now then
              .ok (.inl ({ enrollments := [(item, serializeEnrollment i.now item)] },
                .refused invalidEnrollment))
            else .error invalidEnrollment
          | some true => do
            let (packageSha256, packageRoute) ← i.package
            .ok (.inr
              { raw := raw
                item := item
                node := node
                body := body
                now := i.now
                fresh := i.fresh
                reportToken := rawToken item.id i.reportSecret
                packageSha256 := packageSha256
                packageRoute := packageRoute })

variable {P} in
/-- What the checks of a claim let through. -/
theorem claimValid_eq_true {raw : String} {body : EdgeEnrollmentClaimBody} {i : ClaimInputs}
    {item : EnrollmentRow} {node : NodeRow} (h : claimValid P raw body i item node = some true) :
    P.enrollmentHash raw = item.tokenHash ∧ item.status = .pending ∧ item.claimedAt = none ∧
      i.now < item.expiresAt := by
  unfold claimValid at h
  simp only [Option.bind_eq_bind, Option.bind_eq_some_iff, compareDigest,
    Option.ite_none_right_eq_some, Option.some.injEq, Bool.and_eq_true, beq_iff_eq,
    decide_eq_true_eq, Option.isNone_iff_eq_none] at h
  obtain ⟨token, ⟨-, htoken⟩, name, -, expected, -, source, -, h⟩ := h
  obtain ⟨⟨⟨⟨⟨⟨⟨h1, h2⟩, h3⟩, h4⟩, -⟩, -⟩, -⟩, -⟩ := h
  rw [h1] at htoken
  exact ⟨by simpa using htoken, h2, h3, h4⟩

variable {P} in
/-- **What a claim has found**: the expiry of an overdue row, or a pending row with the token. -/
theorem claimEdgeEnrollment_eq_ok {authorization : Option String} {body : EdgeEnrollmentClaimBody}
    {i : ClaimInputs} {db : Db} {w : (Dirty × Answer) ⊕ EnrollmentClaim}
    (h : claimEdgeEnrollment P authorization body i db = .ok w) :
    (∃ item ∈ db.enrollments.rows, w = .inl
        ({ enrollments := [(item, serializeEnrollment i.now item)] }, .refused invalidEnrollment)) ∨
      ∃ c, w = .inr c ∧ c.item ∈ db.enrollments.rows ∧
        db.nodes.get? c.item.edgeNodeId = some c.node ∧
        P.enrollmentHash c.raw = c.item.tokenHash ∧ c.item.status = .pending ∧
        c.item.claimedAt = none ∧ c.now < c.item.expiresAt ∧ c.fresh = i.fresh := by
  unfold claimEdgeEnrollment at h
  split at h
  · simp at h
  · next raw tokenId _ =>
    by_cases hlong : 64 < tokenId.length
    · simp [hlong] at h
    rw [if_neg hlong] at h
    split at h
    · simp at h
    · next item hitem =>
      obtain ⟨hmem, -⟩ := Table.get?_eq_some.mp hitem
      split at h
      · simp at h
      · next node hnode =>
        split at h
        · simp at h
        · split_ifs at h
          obtain rfl := Except.ok.inj h
          exact Or.inl ⟨item, hmem, rfl⟩
        · next hvalid =>
          obtain ⟨p, -, h⟩ := bind_eq_ok.mp h
          obtain rfl := Except.ok.inj h
          obtain ⟨h1, h2, h3, h4⟩ := claimValid_eq_true hvalid
          exact Or.inr ⟨_, rfl, hmem, hnode, h1, h2, h3, h4, rfl⟩

/-- The rows that the UPDATE of a claim takes. -/
def EnrollmentClaim.takes (c : EnrollmentClaim) (row : EnrollmentRow) : Bool :=
  row.id == c.item.id && row.status == .pending && row.claimedAt.isNone &&
    row.tokenHash == c.item.tokenHash

/-- The row after both UPDATEs of a claim. -/
def EnrollmentClaim.set (c : EnrollmentClaim) (row : EnrollmentRow) : EnrollmentRow :=
  if c.takes row then
    { row with
      status := .claimed
      claimedAt := some c.now
      updatedAt := c.now
      claimedPublicIpv4 := some c.body.publicIpv4
      agentVersion := some c.body.agentVersion
      expiresAt := c.now + minutes 30
      tokenHash := P.enrollmentHash c.fresh
      reportTokenHash := some (P.enrollmentHash c.reportToken) }
  else row

@[simp] theorem EnrollmentClaim.set_id (c : EnrollmentClaim) (row : EnrollmentRow) :
    (c.set P row).id = row.id := by
  unfold EnrollmentClaim.set; split_ifs <;> rfl

def EnrollmentClaim.commit (c : EnrollmentClaim) (t : Tables) :
    Except Failure (Tables × Answer) :=
  if t.enrollments.rows.countP c.takes = 1 then
    .ok
      ({ t with enrollments := t.enrollments.mapRows (c.set P) fun row => c.set_id P row },
        .configuration
          { nodeId := c.node.id
            nodeName := c.node.name
            domain := domain P c.node.endpoint
            edgeTicketSecret := c.node.sharedSecret
            packageRoute := c.packageRoute
            packageSha256 := c.packageSha256
            reportToken := c.reportToken })
  else .error (.refused invalidEnrollment)

/-! ## Reports -/

inductive Phase
  | installing
  | dependencies
  | configuring
  | caddy
  | gateway
  | service
  | starting
  | ready
  | failed
  deriving DecidableEq, Repr

def Phase.name : Phase → String
  | .installing => "installing"
  | .dependencies => "dependencies"
  | .configuring => "configuring"
  | .caddy => "caddy"
  | .gateway => "gateway"
  | .service => "service"
  | .starting => "starting"
  | .ready => "ready"
  | .failed => "failed"

structure EdgeEnrollmentReportBody where
  phase : Phase
  error : Option String := none
  deriving DecidableEq, Repr

/-- The status that a report gives the enrollment. -/
def Phase.status : Phase → EnrollmentStatus
  | .failed => .failed
  | .ready => .ready
  | _ => .installing

/-- The same text as the status of the registration. -/
def Phase.registrationStatus : Phase → RegistrationStatus
  | .failed => .failed
  | .ready => .ready
  | _ => .installing

/-- The enrollment whose valid, unexpired report token a request carries. -/
def reportItem (authorization : Option String) (now : ℕ) (db : Db) : Option EnrollmentRow :=
  match headerToken "Report " 200 authorization with
  | none => none
  | some (raw, tokenId) =>
    match db.enrollments.get? tokenId with
    | none => none
    | some item =>
      match item.reportTokenHash with
      | none => none
      | some hash =>
        if hash = "" ∨ P.enrollmentHash raw ≠ hash ∨ item.status = .revoked ∨
            item.status = .expired ∨ item.status = .online ∨ item.expiresAt ≤ now then none
        else some item

variable {P} in
theorem reportItem_eq_some {authorization : Option String} {now : ℕ} {db : Db}
    {item : EnrollmentRow} (h : reportItem P authorization now db = some item) :
    item ∈ db.enrollments.rows ∧ item.reportTokenHash ≠ none ∧ item.status ≠ .revoked ∧
      item.status ≠ .expired ∧ item.status ≠ .online ∧ now < item.expiresAt := by
  unfold reportItem at h
  split at h
  · simp at h
  · split at h
    · simp at h
    · next item' hitem =>
      obtain ⟨hmem, -⟩ := Table.get?_eq_some.mp hitem
      split at h
      · simp at h
      · next hash hhash =>
        split_ifs at h with hbad
        obtain rfl := Option.some.inj h
        simp only [not_or, not_le] at hbad
        obtain ⟨-, -, h3, h4, h5, h6⟩ := hbad
        exact ⟨hmem, by simp [hhash], h3, h4, h5, h6⟩

/-- The `last_error` of a report. -/
def reportedError (body : EdgeEnrollmentReportBody) : Option String :=
  if body.phase = .failed then (body.error.filter (· ≠ "")).map cleanText else none

def reportEnrollment (body : EdgeEnrollmentReportBody) (now : ℕ) (item : EnrollmentRow) :
    EnrollmentRow :=
  { item with
    phase := some body.phase.name
    updatedAt := now
    lastError := reportedError body
    status := body.phase.status }

def reportNode (node : NodeRow) : NodeRow :=
  { node with enabled := true, healthStatus := .unknown, lastError := none }

def reportRegistration (body : EdgeEnrollmentReportBody) (now : ℕ) (r : RegistrationRow) :
    RegistrationRow :=
  { r with
    status := body.phase.registrationStatus
    updatedAt := now
    lastError := reportedError body }

/-- The registration of the node of an enrollment. -/
def registrationOf (db : Db) (edgeNodeId : ℕ) : Option RegistrationRow :=
  db.registrations.first fun r => r.edgeNodeId = some edgeNodeId

/-- The rows that a report changes, given the node that it enables. -/
def reportDirty (body : EdgeEnrollmentReportBody) (now : ℕ) (item : EnrollmentRow)
    (node : Option NodeRow) (db : Db) : Dirty where
  nodes := (node.map fun n => (n, reportNode n)).toList
  enrollments := [(item, reportEnrollment body now item)]
  registrations :=
    ((registrationOf db item.edgeNodeId).map fun r => (r, reportRegistration body now r)).toList

def reportEdgeEnrollment (authorization : Option String) (body : EdgeEnrollmentReportBody)
    (now : ℕ) (db : Db) : Except Refusal (Dirty × Answer) :=
  match reportItem P authorization now db with
  | none => .error invalidEnrollment
  | some item =>
    let answer := Answer.reported body.phase.status (some body.phase.name)
    if body.phase = .ready then
      match db.nodes.get? item.edgeNodeId with
      | none => .error serverError
      | some node => .ok (reportDirty body now item (some node) db, answer)
    else .ok (reportDirty body now item none db, answer)

variable {P} in
/-- **What a report changes**: its enrollment, the registration of the node, and the node if the
phase is `ready`. -/
theorem reportEdgeEnrollment_eq_ok {authorization : Option String}
    {body : EdgeEnrollmentReportBody} {now : ℕ} {db : Db} {w : Dirty × Answer}
    (h : reportEdgeEnrollment P authorization body now db = .ok w) :
    ∃ item node, reportItem P authorization now db = some item ∧
      (node = if body.phase = .ready then db.nodes.get? item.edgeNodeId else none) ∧
      (body.phase = .ready → node ≠ none) ∧
      w = (reportDirty body now item node db,
        .reported body.phase.status (some body.phase.name)) := by
  unfold reportEdgeEnrollment at h
  split at h
  · simp at h
  · next item hitem =>
    dsimp only at h
    by_cases hready : body.phase = .ready
    · rw [if_pos hready] at h
      split at h
      · simp at h
      · next node hnode =>
        obtain rfl := Except.ok.inj h
        exact ⟨item, some node, hitem, by rw [if_pos hready, hnode], fun _ => by simp, rfl⟩
    · rw [if_neg hready] at h
      obtain rfl := Except.ok.inj h
      exact ⟨item, none, hitem, by rw [if_neg hready], fun h => absurd h hready, rfl⟩

/-! ## The administrator -/

def revokeEnrollment (fresh : String) (now : ℕ) (item : EnrollmentRow) : EnrollmentRow :=
  { item with
    status := .revoked
    tokenHash := P.enrollmentHash fresh
    reportTokenHash := none
    updatedAt := now }

def revokeNode (node : NodeRow) : NodeRow :=
  { node with enabled := false, healthStatus := .disabled }

def revokeEdgeEnrollment (enrollmentId fresh : String) (now : ℕ) (db : Db) :
    Except Refusal (Dirty × Answer) :=
  match db.enrollments.get? enrollmentId with
  | none => .error ⟨409, "Enrollment cannot be revoked"⟩
  | some item =>
    if item.status = .revoked ∨ item.status = .online then
      .error ⟨409, "Enrollment cannot be revoked"⟩
    else
      match db.nodes.get? item.edgeNodeId with
      | none => .error serverError
      | some node =>
        .ok
          ({ nodes := [(node, revokeNode node)]
             enrollments := [(item, revokeEnrollment P fresh now item)] },
            .enrollment (revokeEnrollment P fresh now item) (revokeNode node) none)

variable {P} in
theorem revokeEdgeEnrollment_eq_ok {enrollmentId fresh : String} {now : ℕ} {db : Db}
    {w : Dirty × Answer} (h : revokeEdgeEnrollment P enrollmentId fresh now db = .ok w) :
    ∃ item node, db.enrollments.get? enrollmentId = some item ∧
      db.nodes.get? item.edgeNodeId = some node ∧ item.status ≠ .revoked ∧
      item.status ≠ .online ∧
      w.1 =
        { nodes := [(node, revokeNode node)]
          enrollments := [(item, revokeEnrollment P fresh now item)] } := by
  unfold revokeEdgeEnrollment at h
  split at h
  · simp at h
  · next item hitem =>
    by_cases hfinal : item.status = .revoked ∨ item.status = .online
    · simp [hfinal] at h
    · rw [if_neg hfinal] at h
      split at h
      · simp at h
      · next node hnode =>
        obtain rfl := Except.ok.inj h
        push Not at hfinal
        exact ⟨item, node, hitem, hnode, hfinal.1, hfinal.2, rfl⟩

/-- The clock and the random value of `regenerate_edge_enrollment`. -/
structure RegenerateInputs where
  tokenSecret : String
  expiresFrom : ℕ
  updatedAt : ℕ
  repliedAt : ℕ
  deriving DecidableEq, Repr

def regenerateEnrollment (i : RegenerateInputs) (item : EnrollmentRow) : EnrollmentRow :=
  { item with
    status := .pending
    phase := none
    claimedAt := none
    claimedPublicIpv4 := none
    agentVersion := none
    lastError := none
    reportTokenHash := none
    expiresAt := i.expiresFrom + minutes 15
    updatedAt := i.updatedAt
    tokenHash := P.enrollmentHash (rawToken item.id i.tokenSecret) }

def regenerateEdgeEnrollment (enrollmentId : String) (i : RegenerateInputs) (db : Db) :
    Except Refusal (Dirty × Answer) :=
  match db.enrollments.get? enrollmentId with
  | none => .error ⟨409, "Enrollment cannot be regenerated"⟩
  | some item =>
    if item.status = .pending ∨ item.status = .expired ∨ item.status = .revoked then
      match db.nodes.get? item.edgeNodeId with
      | none => .error serverError
      | some node =>
        let new := regenerateEnrollment P i item
        .ok
          ({ enrollments := [(item, new)] },
            .enrollment (serializeEnrollment i.repliedAt new) node
              (some (rawToken item.id i.tokenSecret)))
    else .error ⟨409, "Enrollment cannot be regenerated"⟩

variable {P} in
theorem regenerateEdgeEnrollment_eq_ok {enrollmentId : String} {i : RegenerateInputs} {db : Db}
    {w : Dirty × Answer} (h : regenerateEdgeEnrollment P enrollmentId i db = .ok w) :
    ∃ item, db.enrollments.get? enrollmentId = some item ∧
      (item.status = .pending ∨ item.status = .expired ∨ item.status = .revoked) ∧
      w.1 = { enrollments := [(item, regenerateEnrollment P i item)] } := by
  unfold regenerateEdgeEnrollment at h
  split at h
  · simp at h
  · next item hitem =>
    by_cases hidle : item.status = .pending ∨ item.status = .expired ∨ item.status = .revoked
    · rw [if_pos hidle] at h
      split at h
      · simp at h
      · obtain rfl := Except.ok.inj h
        exact ⟨item, hitem, hidle, rfl⟩
    · simp [hidle] at h

end IdenGrid.Control.Enrollments
