import IdenGrid.Control.Enrollments

/-! # Node registrations

`create_node_registration`, `prove_node_registration`, `node_registration_status`,
`list_node_registration_requests`, `accept_node_registration`, `reject_node_registration` and
`claim_approved_node_registration`: what each reads and checks, and what its session holds at the
commit. The proof, the two decisions and the claim are conditional UPDATEs; the expiry of an overdue
row, by the list or by a late proof, is a change of a loaded row. -/

namespace IdenGrid.Control.Registrations

open IdenGrid.Lib.Store IdenGrid.Lib.WriteBack IdenGrid.Lib.Unicode IdenGrid.Lib.Orm
open IdenGrid.Lib.Results
open IdenGrid.Control.Rows IdenGrid.Control.Nodes
open IdenGrid.Control.Monitor hiding Db
open IdenGrid.Control.Registry IdenGrid.Control.NodeAdmin IdenGrid.Control.Enrollments

variable (P : Primitives)

def invalidRegistration : Refusal := ⟨401, "Invalid registration"⟩

/-- `registration_token_parts`. -/
def registrationTokenParts (requestId : String) (authorization : Option String) (db : Db) :
    Option RegistrationRow :=
  match headerToken "Registration " 240 authorization with
  | none => none
  | some (raw, tokenId) =>
    if tokenId ≠ requestId then none
    else
      match db.registrations.get? requestId with
      | none => none
      | some item =>
        if item.registrationTokenHash = some (P.enrollmentHash raw) ∧
            item.registrationTokenHash ≠ some "" then some item
        else none

variable {P} in
theorem registrationTokenParts_eq_some {requestId : String} {authorization : Option String}
    {db : Db} {item : RegistrationRow}
    (h : registrationTokenParts P requestId authorization db = some item) :
    db.registrations.get? requestId = some item := by
  unfold registrationTokenParts at h
  split at h
  · simp at h
  · next raw tokenId _ =>
    by_cases hid : tokenId = requestId
    · rw [if_neg (not_not.mpr hid)] at h
      split at h
      · simp at h
      · next item' hitem =>
        split_ifs at h
        obtain rfl := Option.some.inj h
        exact hitem
    · simp [hid] at h

/-- `registration_claim_challenge`. -/
def registrationClaimChallenge (item : RegistrationRow) : String :=
  P.keyedDigest
    ("node-claim-challenge-v1:" ++ item.id ++ ":" ++ item.registrationTokenHash.getD "")

/-- `derived_report_token`. -/
def derivedReportToken (item : RegistrationRow) (enrollmentId : String) : String :=
  rawToken enrollmentId (P.keyedDigest
    ("node-report-v1:" ++ item.registrationTokenHash.getD "None" ++ ":" ++ enrollmentId))

/-- A message of five lines, the first of which says what it is for. -/
def signedMessage (purpose id challenge publicIpv4 machineFingerprint : String) : String :=
  purpose ++ "\n" ++ id ++ "\n" ++ challenge ++ "\n" ++ publicIpv4 ++ "\n" ++
    machineFingerprint ++ "\n"

def proofPurpose : String := "hermes-node-registration-v1"
def claimPurpose : String := "hermes-node-claim-v1"

/-- The message that a signature on a challenge of the registration has to be of. -/
def serverMessage (purpose challenge : String) (item : RegistrationRow) : String :=
  signedMessage purpose item.id challenge item.actualPublicIpv4 item.machineFingerprint

/-- The signature passes, and the stored key is an Ed25519 key. -/
def signatureValid (purpose challenge signature : String) (item : RegistrationRow) : Bool :=
  match P.loadPublicKey item.publicKeyPem with
  | .ed25519 _ _ => P.verify item.publicKeyPem signature (serverMessage purpose challenge item)
  | _ => false

/-- The stored key is loaded, and is of an algorithm that is not there. -/
def keyUnsupported (signature : String) (item : RegistrationRow) : Bool :=
  P.decodes signature && P.loadPublicKey item.publicKeyPem == .unsupported

/-! ## Creation -/

structure NodeRegistrationCreateBody where
  publicKeyPem : String
  platform : NodePlatform
  machineFingerprint : String
  reportedHostname : String
  publicIpv4 : String
  osName : String
  cpuCount : ℕ
  memoryTotalBytes : ℕ
  diskTotalBytes : ℕ
  agentVersion : String
  deriving DecidableEq, Repr

/-- The address, the clock and the random values of `create_node_registration`. -/
structure RegisterInputs where
  sourceIp : Option String
  now : ℕ
  requestId : String
  challenge : String
  tokenSecret : String
  deriving DecidableEq, Repr

/-- A registration to be inserted, and what its host is told. -/
structure RegistrationCreation where
  item : RegistrationRow
  challenge : String
  tokenSecret : String

/-- The row of a new registration. -/
def newRegistration (body : NodeRegistrationCreateBody) (i : RegisterInputs)
    (canonicalPem keyFingerprint : String) : RegistrationRow where
  id := i.requestId
  edgeNodeId := none
  status := .pendingProof
  updatedAt := i.now
  lastError := none
  publicKeyPem := canonicalPem
  publicKeyFingerprint := keyFingerprint
  machineFingerprint := body.machineFingerprint
  reportedHostname := body.reportedHostname
  platform := body.platform
  actualPublicIpv4 := body.publicIpv4
  osName := body.osName
  cpuCount := body.cpuCount
  memoryTotalBytes := body.memoryTotalBytes
  diskTotalBytes := body.diskTotalBytes
  agentVersion := body.agentVersion
  challengeHash := some (P.enrollmentHash i.challenge)
  registrationTokenHash := some (P.enrollmentHash (rawToken i.requestId i.tokenSecret))
  challengeExpiresAt := i.now + minutes 15
  createdAt := i.now

def createNodeRegistration (body : NodeRegistrationCreateBody) (i : RegisterInputs) :
    Except Refusal RegistrationCreation :=
  if i.sourceIp ≠ some body.publicIpv4 ∨ globalIpv4 body.publicIpv4 = false then
    .error invalidRegistration
  else
    match P.loadPublicKey body.publicKeyPem with
    | .refused => .error ⟨422, "Invalid registration data"⟩
    | .unsupported => .error serverError
    | .ed25519 canonicalPem keyFingerprint =>
      .ok
        { item := newRegistration P body i canonicalPem keyFingerprint
          challenge := i.challenge
          tokenSecret := i.tokenSecret }

variable {P} in
/-- **What a new registration is**: a pending one from the address it names. -/
theorem createNodeRegistration_eq_ok {body : NodeRegistrationCreateBody} {i : RegisterInputs}
    {c : RegistrationCreation} (h : createNodeRegistration P body i = .ok c) :
    ∃ pem fingerprint, P.loadPublicKey body.publicKeyPem = .ed25519 pem fingerprint ∧
      i.sourceIp = some body.publicIpv4 ∧
      c = { item := newRegistration P body i pem fingerprint
            challenge := i.challenge
            tokenSecret := i.tokenSecret } := by
  unfold createNodeRegistration at h
  by_cases hsource : i.sourceIp ≠ some body.publicIpv4 ∨ globalIpv4 body.publicIpv4 = false
  · simp [hsource] at h
  · rw [if_neg hsource] at h
    push Not at hsource
    split at h
    · simp at h
    · simp at h
    · next pem fingerprint hkey =>
      obtain rfl := Except.ok.inj h
      exact ⟨pem, fingerprint, hkey, hsource.1, rfl⟩

def RegistrationCreation.commit (c : RegistrationCreation) (t : Tables) :
    Except Failure (Tables × Answer) :=
  match insert? c.item t.registrations with
  | some registrations =>
    .ok ({ t with registrations := registrations },
      .registered c.item.id c.challenge c.tokenSecret c.item.challengeExpiresAt)
  | none => .error .integrity

/-! ## The proof -/

/-- The body of a proof or of a claim. -/
structure SignedBody where
  challenge : String
  signature : String
  deriving DecidableEq, Repr

/-- The expiry of an overdue registration. -/
def expireRegistration (now : ℕ) (item : RegistrationRow) : RegistrationRow :=
  { item with status := .expired, challengeHash := none, updatedAt := now }

/-- The challenge of the body is the one that the row has the digest of. -/
def challengeMatches (body : SignedBody) (item : RegistrationRow) : Bool :=
  item.challengeHash == some (P.enrollmentHash body.challenge) && item.challengeHash != some ""

/-- What `prove_node_registration` holds when it goes on to its conditional UPDATE. -/
structure Proof where
  item : RegistrationRow
  body : SignedBody
  sourceIp : String
  now : ℕ

def proveNodeRegistration (requestId : String) (body : SignedBody)
    (authorization sourceIp : Option String) (now : ℕ) (db : Db) :
    Except Refusal ((Dirty × Answer) ⊕ Proof) :=
  match registrationTokenParts P requestId authorization db with
  | none => .error invalidRegistration
  | some item =>
    match sourceIp with
    | none => .error invalidRegistration
    | some ip =>
      if ip ≠ item.actualPublicIpv4 then .error invalidRegistration
      else if item.challengeExpiresAt ≤ now then
        if item.status = .pendingProof then
          .ok (.inl ({ registrations := [(item, expireRegistration now item)] },
            .refused invalidRegistration))
        else .error invalidRegistration
      else if keyUnsupported P body.signature item = true then .error serverError
      else if item.status = .pendingProof ∧ challengeMatches P body item = true ∧
          signatureValid P proofPurpose body.challenge body.signature item = true then
        .ok (.inr { item := item, body := body, sourceIp := ip, now := now })
      else .error invalidRegistration

variable {P} in
/-- **What a proof has found**: the expiry of an overdue row, or a pending row whose challenge is
signed by its key, in time and from its address. -/
theorem proveNodeRegistration_eq_ok {requestId : String} {body : SignedBody}
    {authorization sourceIp : Option String} {now : ℕ} {db : Db} {w : (Dirty × Answer) ⊕ Proof}
    (h : proveNodeRegistration P requestId body authorization sourceIp now db = .ok w) :
    (∃ item, db.registrations.get? requestId = some item ∧ item.status = .pendingProof ∧
        item.challengeExpiresAt ≤ now ∧
        w = .inl ({ registrations := [(item, expireRegistration now item)] },
          .refused invalidRegistration)) ∨
      ∃ p, w = .inr p ∧ db.registrations.get? requestId = some p.item ∧
        p.item.status = .pendingProof ∧ p.body = body ∧ p.now = now ∧
        p.sourceIp = p.item.actualPublicIpv4 ∧ sourceIp = some p.sourceIp ∧
        now < p.item.challengeExpiresAt ∧
        challengeMatches P body p.item = true ∧
        signatureValid P proofPurpose body.challenge body.signature p.item = true := by
  unfold proveNodeRegistration at h
  split at h
  · simp at h
  · next item hparts =>
    have hitem := registrationTokenParts_eq_some hparts
    split at h
    · simp at h
    · next ip =>
      by_cases hip : ip = item.actualPublicIpv4
      swap
      · simp [hip] at h
      rw [if_neg (not_not.mpr hip)] at h
      by_cases hlate : item.challengeExpiresAt ≤ now
      · rw [if_pos hlate] at h
        by_cases hpending : item.status = .pendingProof
        · rw [if_pos hpending] at h
          obtain rfl := Except.ok.inj h
          exact Or.inl ⟨item, hitem, hpending, hlate, rfl⟩
        · simp [hpending] at h
      · rw [if_neg hlate] at h
        by_cases hkey : keyUnsupported P body.signature item = true
        · simp [hkey] at h
        rw [if_neg hkey] at h
        by_cases hvalid : item.status = .pendingProof ∧ challengeMatches P body item = true ∧
            signatureValid P proofPurpose body.challenge body.signature item = true
        · rw [if_pos hvalid] at h
          obtain rfl := Except.ok.inj h
          obtain ⟨h1, h2, h3⟩ := hvalid
          exact Or.inr ⟨_, rfl, hitem, h1, rfl, rfl, hip, rfl, not_le.mp hlate, h2, h3⟩
        · simp [hvalid] at h

/-- The rows that the UPDATE of a proof takes. -/
def Proof.takes (p : Proof) (row : RegistrationRow) : Bool :=
  row.id == p.item.id && row.status == .pendingProof && row.challengeHash == p.item.challengeHash

def Proof.set (p : Proof) (row : RegistrationRow) : RegistrationRow :=
  if p.takes row then
    { row with
      status := .pendingApproval
      challengeHash := none
      challengeExpiresAt := p.now + days 1
      provedAt := some p.now
      updatedAt := p.now }
  else row

theorem Proof.set_id (p : Proof) (row : RegistrationRow) : (p.set row).id = row.id := by
  unfold Proof.set; split_ifs <;> rfl

def Proof.commit (p : Proof) (t : Tables) : Except Failure (Tables × Answer) :=
  if t.registrations.rows.countP p.takes = 1 then
    .ok ({ t with registrations := t.registrations.mapRows p.set p.set_id }, .proved)
  else .error (.refused invalidRegistration)

/-! ## What the host and the administrator see -/

/-- `node_registration_status`. -/
def nodeRegistrationStatus (requestId : String) (authorization : Option String) (db : Db) :
    Except Refusal Answer :=
  match registrationTokenParts P requestId authorization db with
  | none => .error invalidRegistration
  | some item =>
    .ok (.registrationStatus item.status item.lastError
      (if item.status = .approved ∨ item.status = .installing ∨ item.status = .ready ∨
          item.status = .online then some "accepted"
        else if item.status = .rejected then some "rejected"
        else none)
      (if item.status = .approved ∧ item.challengeHash.getD "" ≠ "" then
        some (registrationClaimChallenge P item)
      else none))

/-- `pending_proof` or `pending_approval`. -/
def awaiting (r : RegistrationRow) : Bool :=
  r.status == .pendingProof || r.status == .pendingApproval

/-- What the list request makes of a row. -/
def sweep (now : ℕ) (r : RegistrationRow) : RegistrationRow :=
  if awaiting r = true ∧ r.challengeExpiresAt ≤ now then expireRegistration now r else r

/-- The list request deletes the row. -/
def outdated (now : ℕ) (r : RegistrationRow) : Bool :=
  r.status == .expired && decide (r.updatedAt + days 7 ≤ now)

/-- When the host of an online registration completed its enrollment, as far as that is known. -/
def completedAt (db : Db) (r : RegistrationRow) : Option ℕ :=
  let completed := db.enrollments.rows.filter fun e =>
    r.status = .online ∧ r.edgeNodeId = some e.edgeNodeId ∧ e.status = .online
  (completed.map fun e => e.updatedAt).max?

/-- What `list_node_registration_requests` holds at its commit. -/
structure Sweep where
  items : List RegistrationRow
  now : ℕ
  visible : List RegistrationRow

def listNodeRegistrationRequests (now : ℕ) (db : Db) : Sweep where
  items := db.registrations.rows
  now := now
  visible :=
    let items := db.registrations.rows.insertionSort fun a b => b.createdAt ≤ a.createdAt
    let swept := items.map fun r => (r, sweep now r)
    (swept.filter fun s =>
      !outdated now s.2 && !(s.2.status == .online &&
        decide ((completedAt db s.1).getD s.2.updatedAt + days 7 ≤ now))).map Prod.snd

def Sweep.commit (s : Sweep) (t : Tables) : Except Failure (Tables × Answer) := do
  let t ← t.flush
    { registrations := (s.items.filter fun r => !outdated s.now (sweep s.now r)).map fun r =>
        (r, sweep s.now r) }
  .ok
    ({ t with
        registrations := delete (fun r => s.items.any fun x =>
          x.id == r.id && outdated s.now (sweep s.now x)) t.registrations },
      .registrations s.visible)

/-! ## The decision -/

structure NodeRegistrationAcceptBody where
  nodeName : String
  endpoint : String
  expectedPublicIpv4 : String
  installAdminSshKey : Bool := false
  deriving DecidableEq, Repr

/-- The clock and the random values of `accept_node_registration`. -/
structure AcceptInputs where
  actorId : ℕ
  now : ℕ
  nodeId : ℕ
  sharedSecret : String
  enrollmentId : String
  fresh : String
  deriving DecidableEq, Repr

def cannotBeAccepted : Refusal := ⟨409, "Registration cannot be accepted"⟩

/-- What `accept_node_registration` holds when it goes on to its conditional UPDATE. -/
structure Acceptance where
  item : RegistrationRow
  body : NodeRegistrationAcceptBody
  inputs : AcceptInputs

def acceptNodeRegistration (requestId : String) (body : NodeRegistrationAcceptBody)
    (i : AcceptInputs) (db : Db) : Except Refusal Acceptance :=
  match db.registrations.get? requestId with
  | none => .error cannotBeAccepted
  | some item =>
    if item.status ≠ .pendingApproval ∨ item.provedAt = none then .error cannotBeAccepted
    else do
      validateEdgeNodeNetwork P (some body.endpoint) (some body.expectedPublicIpv4)
      if body.expectedPublicIpv4 ≠ item.actualPublicIpv4 then .error ⟨422, "Public IPv4 mismatch"⟩
      else if duplicate db (some body.nodeName) (some body.endpoint) none then .error nodeExists
      else .ok { item := item, body := body, inputs := i }

variable {P} in
theorem acceptNodeRegistration_eq_ok {requestId : String} {body : NodeRegistrationAcceptBody}
    {i : AcceptInputs} {db : Db} {a : Acceptance}
    (h : acceptNodeRegistration P requestId body i db = .ok a) :
    db.registrations.get? requestId = some a.item ∧ a.item.status = .pendingApproval ∧
      a.item.provedAt ≠ none ∧ a.body = body ∧ a.inputs = i ∧
      body.expectedPublicIpv4 = a.item.actualPublicIpv4 ∧ a.item.actualPublicIpv4 ≠ "" := by
  unfold acceptNodeRegistration at h
  split at h
  · simp at h
  · next item hitem =>
    by_cases hstatus : item.status ≠ .pendingApproval ∨ item.provedAt = none
    · simp [hstatus] at h
    rw [if_neg hstatus] at h
    push Not at hstatus
    obtain ⟨⟨⟩, hvalid, h⟩ := bind_eq_ok.mp h
    by_cases hip : body.expectedPublicIpv4 = item.actualPublicIpv4
    swap
    · simp [hip] at h
    rw [if_neg (not_not.mpr hip)] at h
    by_cases hdup : duplicate db (some body.nodeName) (some body.endpoint) none = true
    · simp [hdup] at h
    rw [if_neg hdup] at h
    obtain rfl := Except.ok.inj h
    have hne := validateEdgeNodeNetwork_ne_empty hvalid
    rw [hip] at hne
    exact ⟨hitem, hstatus.1, hstatus.2, rfl, rfl, hip, fun h => hne (by rw [h])⟩

/-- The rows that the UPDATE of an acceptance takes. -/
def Acceptance.takes (a : Acceptance) (row : RegistrationRow) : Bool :=
  row.id == a.item.id && row.status == .pendingApproval && row.provedAt.isSome

/-- The row after the UPDATE of an acceptance and the write-back of its node. -/
def Acceptance.set (a : Acceptance) (row : RegistrationRow) : RegistrationRow :=
  if a.takes row then
    { row with
      status := .approved
      decidedAt := some a.inputs.now
      decidedByUserId := some a.inputs.actorId
      updatedAt := a.inputs.now
      installAdminSshKey := a.body.installAdminSshKey
      challengeHash := some (P.enrollmentHash (registrationClaimChallenge P a.item))
      challengeExpiresAt := a.inputs.now + minutes 15
      edgeNodeId := col a.item.edgeNodeId (some a.inputs.nodeId) row.edgeNodeId }
  else row

theorem Acceptance.set_id (a : Acceptance) (row : RegistrationRow) : (a.set P row).id = row.id := by
  unfold Acceptance.set; split_ifs <;> rfl

def Acceptance.node (a : Acceptance) : NodeRow where
  id := a.inputs.nodeId
  name := a.body.nodeName
  endpoint := a.body.endpoint
  sharedSecret := a.inputs.sharedSecret
  platform := a.item.platform
  enabled := false
  maintenanceMode := false
  healthStatus := .disabled
  lastSeenAt := none
  latencyMs := none
  expectedPublicIpv4 := some a.item.actualPublicIpv4
  status := { actualPublicIpv4 := some (.str (text a.item.actualPublicIpv4)) }
  lastError := none

def Acceptance.enrollment (a : Acceptance) : EnrollmentRow where
  id := a.inputs.enrollmentId
  edgeNodeId := a.inputs.nodeId
  reportTokenHash :=
    some (P.enrollmentHash (derivedReportToken P a.item a.inputs.enrollmentId))
  status := .claimed
  phase := none
  updatedAt := a.inputs.now
  lastError := none
  createdByUserId := a.inputs.actorId
  tokenHash := P.enrollmentHash a.inputs.fresh
  expiresAt := a.inputs.now + minutes 120
  claimedAt := some a.inputs.now
  claimedPublicIpv4 := some a.item.actualPublicIpv4
  agentVersion := some a.item.agentVersion

def Acceptance.commit (a : Acceptance) (t : Tables) : Except Failure (Tables × Answer) := do
  if t.registrations.rows.countP a.takes = 1 then
    let t ← insertEnrolled a.node (a.enrollment P) t
    .ok
      ({ t with registrations := t.registrations.mapRows (a.set P) (a.set_id P) },
        .accepted a.item.id a.inputs.nodeId)
  else .error (.refused cannotBeAccepted)

/-- What `reject_node_registration` holds when it goes on to its conditional UPDATE. -/
structure Rejection where
  item : RegistrationRow
  reason : String
  actorId : ℕ
  now : ℕ

def cannotBeRejected : Refusal := ⟨409, "Registration cannot be rejected"⟩

def rejectNodeRegistration (requestId reason : String) (actorId now : ℕ) (db : Db) :
    Except Refusal Rejection :=
  match db.registrations.get? requestId with
  | none => .error cannotBeRejected
  | some item => .ok { item := item, reason := cleanText reason, actorId := actorId, now := now }

/-- The rows that the UPDATE of a rejection takes. -/
def Rejection.takes (r : Rejection) (row : RegistrationRow) : Bool :=
  row.id == r.item.id && row.status == .pendingApproval

def Rejection.set (r : Rejection) (row : RegistrationRow) : RegistrationRow :=
  if r.takes row then
    { row with
      status := .rejected
      challengeHash := none
      lastError := some r.reason
      decidedAt := some r.now
      decidedByUserId := some r.actorId
      updatedAt := r.now }
  else row

theorem Rejection.set_id (r : Rejection) (row : RegistrationRow) : (r.set row).id = row.id := by
  unfold Rejection.set; split_ifs <;> rfl

def Rejection.commit (r : Rejection) (t : Tables) : Except Failure (Tables × Answer) :=
  if t.registrations.rows.countP r.takes = 1 then
    .ok ({ t with registrations := t.registrations.mapRows r.set r.set_id }, .rejected r.item.id)
  else .error (.refused cannotBeRejected)

/-! ## The claim -/

/-- The address, the clock and the package of `claim_approved_node_registration`. -/
structure ClaimApprovedInputs where
  sourceIp : Option String
  now : ℕ
  package : Except Refusal (String × String)

/-- A claim that has passed its checks on the registration. -/
structure CheckedClaim where
  item : RegistrationRow
  body : SignedBody
  sourceIp : String
  edgeNodeId : ℕ
  inputs : ClaimApprovedInputs

/-- `claim_approved_node_registration` up to the signature. -/
def claimApprovedNodeRegistration (requestId : String) (body : SignedBody)
    (authorization : Option String) (i : ClaimApprovedInputs) (db : Db) :
    Except Refusal CheckedClaim :=
  match registrationTokenParts P requestId authorization db with
  | none => .error invalidRegistration
  | some item =>
    if item.status ≠ .approved ∨ item.provedAt = none then .error invalidRegistration
    else
      match item.edgeNodeId with
      | none => .error invalidRegistration
      | some edgeNodeId =>
        if keyUnsupported P body.signature item = true then .error serverError
        else
          match i.sourceIp with
          | none => .error invalidRegistration
          | some ip =>
            if ip = item.actualPublicIpv4 ∧ i.now < item.challengeExpiresAt ∧
                challengeMatches P body item = true ∧
                signatureValid P claimPurpose body.challenge body.signature item = true then
              .ok
                { item := item
                  body := body
                  sourceIp := ip
                  edgeNodeId := edgeNodeId
                  inputs := i }
            else .error invalidRegistration

variable {P} in
/-- **What a claim has found**: an approved row whose claim challenge is signed by its key, in time
and from its address. -/
theorem claimApprovedNodeRegistration_eq_ok {requestId : String} {body : SignedBody}
    {authorization : Option String} {i : ClaimApprovedInputs} {db : Db} {c : CheckedClaim}
    (h : claimApprovedNodeRegistration P requestId body authorization i db = .ok c) :
    db.registrations.get? requestId = some c.item ∧ c.item.status = .approved ∧ c.body = body ∧
      c.inputs = i ∧ c.item.edgeNodeId = some c.edgeNodeId ∧ i.sourceIp = some c.sourceIp ∧
      c.sourceIp = c.item.actualPublicIpv4 ∧ i.now < c.item.challengeExpiresAt ∧
      challengeMatches P body c.item = true ∧
      signatureValid P claimPurpose body.challenge body.signature c.item = true := by
  unfold claimApprovedNodeRegistration at h
  split at h
  · simp at h
  · next item hparts =>
    have hitem := registrationTokenParts_eq_some hparts
    by_cases hstatus : item.status ≠ .approved ∨ item.provedAt = none
    · simp [hstatus] at h
    rw [if_neg hstatus] at h
    push Not at hstatus
    split at h
    · simp at h
    next edgeNodeId hnode =>
    by_cases hkey : keyUnsupported P body.signature item = true
    · simp [hkey] at h
    rw [if_neg hkey] at h
    split at h
    · simp at h
    next ip hsource =>
    split_ifs at h with hvalid
    obtain rfl := Except.ok.inj h
    obtain ⟨h1, h2, h3, h4⟩ := hvalid
    exact ⟨hitem, hstatus.1, rfl, rfl, hnode, hsource, h1, h2, h3, h4⟩

/-- What `claim_approved_node_registration` holds when it goes on to its conditional UPDATE. -/
structure RegistrationClaim where
  item : RegistrationRow
  body : SignedBody
  sourceIp : String
  node : NodeRow
  enrollment : EnrollmentRow
  now : ℕ
  reportToken : String
  packageSha256 : String
  packageRoute : String

/-- Its second read, of the node and the enrollment. -/
def CheckedClaim.readEnrollment (c : CheckedClaim) (db : Db) : Except Refusal RegistrationClaim :=
  match db.nodes.get? c.edgeNodeId with
  | none => .error serverError
  | some node =>
    match db.enrollments.first fun e => e.edgeNodeId = node.id ∧ e.status = .claimed with
    | none => .error invalidRegistration
    | some enrollment => do
      let (packageSha256, packageRoute) ← c.inputs.package
      .ok
        { item := c.item
          body := c.body
          sourceIp := c.sourceIp
          node := node
          enrollment := enrollment
          now := c.inputs.now
          reportToken := derivedReportToken P c.item enrollment.id
          packageSha256 := packageSha256
          packageRoute := packageRoute }

variable {P} in
theorem CheckedClaim.readEnrollment_eq_ok {c : CheckedClaim} {db : Db} {r : RegistrationClaim}
    (h : c.readEnrollment P db = .ok r) :
    r.item = c.item ∧ r.body = c.body ∧ r.sourceIp = c.sourceIp ∧ r.now = c.inputs.now ∧
      db.nodes.get? c.edgeNodeId = some r.node ∧ r.enrollment ∈ db.enrollments.rows ∧
      r.enrollment.edgeNodeId = r.node.id ∧ r.enrollment.status = .claimed ∧
      r.reportToken = derivedReportToken P c.item r.enrollment.id := by
  unfold CheckedClaim.readEnrollment at h
  split at h
  · simp at h
  · next node hnode =>
    split at h
    · simp at h
    · next enrollment henrollment =>
      obtain ⟨p, -, h⟩ := bind_eq_ok.mp h
      obtain rfl := Except.ok.inj h
      obtain ⟨hmem, hp⟩ := Table.first_mem henrollment
      simp only [decide_eq_true_eq] at hp
      exact ⟨rfl, rfl, rfl, rfl, hnode, hmem, hp.1, hp.2, rfl⟩

/-- The rows that the UPDATE of a claim takes. -/
def RegistrationClaim.takes (c : RegistrationClaim) (row : RegistrationRow) : Bool :=
  row.id == c.item.id && row.status == .approved &&
    row.registrationTokenHash == c.item.registrationTokenHash &&
    row.challengeHash == c.item.challengeHash

def RegistrationClaim.set (c : RegistrationClaim) (row : RegistrationRow) : RegistrationRow :=
  if c.takes row then
    { row with
      status := .installing
      registrationTokenHash := none
      challengeHash := none
      updatedAt := c.now }
  else row

theorem RegistrationClaim.set_id (c : RegistrationClaim) (row : RegistrationRow) :
    (c.set row).id = row.id := by
  unfold RegistrationClaim.set; split_ifs <;> rfl

def RegistrationClaim.installing (c : RegistrationClaim) : EnrollmentRow :=
  { c.enrollment with
    status := .installing
    phase := some "installing"
    updatedAt := c.now
    expiresAt := c.now + minutes 120 }

def RegistrationClaim.commit (c : RegistrationClaim) (t : Tables) :
    Except Failure (Tables × Answer) := do
  if t.registrations.rows.countP c.takes = 1 then
    let t ← t.flush { enrollments := [(c.enrollment, c.installing)] }
    .ok
      ({ t with registrations := t.registrations.mapRows c.set c.set_id },
        .approvedConfiguration
          { nodeId := c.node.id
            nodeName := c.node.name
            domain := domain P c.node.endpoint
            edgeTicketSecret := c.node.sharedSecret
            packageRoute := c.packageRoute
            packageSha256 := c.packageSha256
            reportToken := c.reportToken }
          c.enrollment.id c.item.installAdminSshKey)
  else .error (.refused invalidRegistration)

end IdenGrid.Control.Registrations
