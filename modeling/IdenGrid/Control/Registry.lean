import IdenGrid.Control.Monitor
import IdenGrid.Control.Rows
import IdenGrid.Lib.Results
import IdenGrid.Lib.WriteBack

/-! # The registry of Edge nodes: rows, indexes, and what the handlers share

The full rows of `edge_nodes`, `node_enrollments` and `node_registration_requests`: those of the
monitor with the columns that it does not use. `Db` is the three tables together with their unique
indexes; `Db.check` is the commit of tables that may violate one.

The digests, the signatures, the reading of a PEM key and `urlsplit` are the parameter `Primitives`.
The random values of a handler, its readings of the clock, the address that `trusted_claim_source`
gives and what `verified_edge_package` finds on the disk are arguments of its request. -/

namespace IdenGrid.Control.Registry

open IdenGrid.Lib.Store IdenGrid.Lib.Orm IdenGrid.Lib.WriteBack IdenGrid.Lib.Unicode
open IdenGrid.Control.Nodes IdenGrid.Control.Monitor

/-- The systems an Edge runs on. -/
inductive NodePlatform
  | linux
  | windows
  deriving DecidableEq, Repr

/-- A row of `edge_nodes`. -/
structure NodeRow extends EdgeNode where
  platform : NodePlatform := .linux
  deriving DecidableEq

/-- A row of `node_enrollments`. -/
structure EnrollmentRow extends NodeEnrollment where
  createdByUserId : ℕ
  tokenHash : String
  expiresAt : ℕ
  claimedAt : Option ℕ := none
  claimedPublicIpv4 : Option String := none
  agentVersion : Option String := none
  deriving DecidableEq, Repr

/-- A row of `node_registration_requests`. -/
structure RegistrationRow extends NodeRegistrationRequest where
  publicKeyPem : String
  publicKeyFingerprint : String
  machineFingerprint : String
  reportedHostname : String
  platform : NodePlatform
  actualPublicIpv4 : String
  osName : String
  cpuCount : ℕ
  memoryTotalBytes : ℕ
  diskTotalBytes : ℕ
  agentVersion : String
  challengeHash : Option String
  registrationTokenHash : Option String
  challengeExpiresAt : ℕ
  createdAt : ℕ
  provedAt : Option ℕ := none
  decidedAt : Option ℕ := none
  decidedByUserId : Option ℕ := none
  installAdminSshKey : Bool := false
  deriving DecidableEq, Repr

def NodeRow.key (n : NodeRow) : ℕ := n.id
def EnrollmentRow.key (e : EnrollmentRow) : String := e.id
def RegistrationRow.key (r : RegistrationRow) : String := r.id

@[simp] theorem NodeRow.key_eq (n : NodeRow) : n.key = n.id := rfl
@[simp] theorem EnrollmentRow.key_eq (e : EnrollmentRow) : e.key = e.id := rfl
@[simp] theorem RegistrationRow.key_eq (r : RegistrationRow) : r.key = r.id := rfl

/-! ## Write-backs -/

/-- The status columns of a node, column by column. -/
def flushStatus (loaded new cur : StatusColumns) : StatusColumns where
  activeConnections := col loaded.activeConnections new.activeConnections cur.activeConnections
  maxConnections := col loaded.maxConnections new.maxConnections cur.maxConnections
  acceptedConnections :=
    col loaded.acceptedConnections new.acceptedConnections cur.acceptedConnections
  deniedConnections := col loaded.deniedConnections new.deniedConnections cur.deniedConnections
  actualPublicIpv4 := col loaded.actualPublicIpv4 new.actualPublicIpv4 cur.actualPublicIpv4
  load1m := col loaded.load1m new.load1m cur.load1m
  memoryTotalBytes := col loaded.memoryTotalBytes new.memoryTotalBytes cur.memoryTotalBytes
  memoryAvailableBytes :=
    col loaded.memoryAvailableBytes new.memoryAvailableBytes cur.memoryAvailableBytes
  diskTotalBytes := col loaded.diskTotalBytes new.diskTotalBytes cur.diskTotalBytes
  diskFreeBytes := col loaded.diskFreeBytes new.diskFreeBytes cur.diskFreeBytes
  uptimeSeconds := col loaded.uptimeSeconds new.uptimeSeconds cur.uptimeSeconds
  agentVersion := col loaded.agentVersion new.agentVersion cur.agentVersion

/-- The write-back of a node; no handler assigns its platform. -/
def NodeRow.flush (loaded new cur : NodeRow) : NodeRow where
  id := cur.id
  name := col loaded.name new.name cur.name
  endpoint := col loaded.endpoint new.endpoint cur.endpoint
  sharedSecret := col loaded.sharedSecret new.sharedSecret cur.sharedSecret
  enabled := col loaded.enabled new.enabled cur.enabled
  maintenanceMode := col loaded.maintenanceMode new.maintenanceMode cur.maintenanceMode
  healthStatus := col loaded.healthStatus new.healthStatus cur.healthStatus
  lastSeenAt := col loaded.lastSeenAt new.lastSeenAt cur.lastSeenAt
  latencyMs := col loaded.latencyMs new.latencyMs cur.latencyMs
  expectedPublicIpv4 := col loaded.expectedPublicIpv4 new.expectedPublicIpv4 cur.expectedPublicIpv4
  status := flushStatus loaded.status new.status cur.status
  lastError := col loaded.lastError new.lastError cur.lastError
  platform := cur.platform

/-- The write-back of an enrollment; no handler assigns its node or its creator. -/
def EnrollmentRow.flush (loaded new cur : EnrollmentRow) : EnrollmentRow where
  id := cur.id
  edgeNodeId := cur.edgeNodeId
  reportTokenHash := col loaded.reportTokenHash new.reportTokenHash cur.reportTokenHash
  status := col loaded.status new.status cur.status
  phase := col loaded.phase new.phase cur.phase
  updatedAt := col loaded.updatedAt new.updatedAt cur.updatedAt
  lastError := col loaded.lastError new.lastError cur.lastError
  createdByUserId := cur.createdByUserId
  tokenHash := col loaded.tokenHash new.tokenHash cur.tokenHash
  expiresAt := col loaded.expiresAt new.expiresAt cur.expiresAt
  claimedAt := col loaded.claimedAt new.claimedAt cur.claimedAt
  claimedPublicIpv4 := col loaded.claimedPublicIpv4 new.claimedPublicIpv4 cur.claimedPublicIpv4
  agentVersion := col loaded.agentVersion new.agentVersion cur.agentVersion

/-- The write-back of a registration; the other columns are set by an INSERT or a conditional
UPDATE only. -/
def RegistrationRow.flush (loaded new cur : RegistrationRow) : RegistrationRow :=
  { cur with
    edgeNodeId := col loaded.edgeNodeId new.edgeNodeId cur.edgeNodeId
    status := col loaded.status new.status cur.status
    updatedAt := col loaded.updatedAt new.updatedAt cur.updatedAt
    lastError := col loaded.lastError new.lastError cur.lastError
    challengeHash := col loaded.challengeHash new.challengeHash cur.challengeHash }

theorem NodeRow.flush_current {loaded new : NodeRow} (hid : new.id = loaded.id)
    (hplatform : new.platform = loaded.platform) : NodeRow.flush loaded new loaded = new := by
  obtain ⟨⟨⟩, _⟩ := new
  simp_all [NodeRow.flush, flushStatus]

theorem EnrollmentRow.flush_current {loaded new : EnrollmentRow} (hid : new.id = loaded.id)
    (hnode : new.edgeNodeId = loaded.edgeNodeId)
    (huser : new.createdByUserId = loaded.createdByUserId) :
    EnrollmentRow.flush loaded new loaded = new := by
  obtain ⟨⟨⟩, _⟩ := new
  simp_all [EnrollmentRow.flush]

theorem RegistrationRow.flush_current {loaded new : RegistrationRow}
    (h : { loaded with
      edgeNodeId := new.edgeNodeId
      status := new.status
      updatedAt := new.updatedAt
      lastError := new.lastError
      challengeHash := new.challengeHash } = new) :
    RegistrationRow.flush loaded new loaded = new := by
  simp only [RegistrationRow.flush, col_current]
  exact h

def nodeMapping : Mapping NodeRow.key where
  flush := NodeRow.flush
  flush_key _ _ _ := rfl
  flush_same _ _ := by simp [NodeRow.flush, flushStatus]

def enrollmentMapping : Mapping EnrollmentRow.key where
  flush := EnrollmentRow.flush
  flush_key _ _ _ := rfl
  flush_same _ _ := by simp [EnrollmentRow.flush]

def registrationMapping : Mapping RegistrationRow.key where
  flush := RegistrationRow.flush
  flush_key _ _ _ := rfl
  flush_same _ _ := by simp [RegistrationRow.flush]

/-! ## Tables and unique indexes -/

structure Tables where
  nodes : Table NodeRow.key
  enrollments : Table EnrollmentRow.key
  registrations : Table RegistrationRow.key

/-- The rows that `uq_active_node_enrollment` covers. -/
def EnrollmentRow.active (e : EnrollmentRow) : Bool :=
  e.status == .pending || e.status == .claimed || e.status == .installing || e.status == .ready

/-- The rows that `uq_active_node_registration_machine` and `uq_active_node_registration_key`
cover. -/
def RegistrationRow.active (r : RegistrationRow) : Bool :=
  r.status == .pendingProof || r.status == .pendingApproval || r.status == .approved ||
    r.status == .installing || r.status == .ready

/-- The unique indexes. -/
structure Tables.Unique (t : Tables) : Prop where
  name : ∀ a ∈ t.nodes.rows, ∀ b ∈ t.nodes.rows, a.name = b.name → a.id = b.id
  endpoint : ∀ a ∈ t.nodes.rows, ∀ b ∈ t.nodes.rows, a.endpoint = b.endpoint → a.id = b.id
  enrollment : ∀ a ∈ t.enrollments.rows, ∀ b ∈ t.enrollments.rows, a.active = true →
    b.active = true → a.edgeNodeId = b.edgeNodeId → a.id = b.id
  machine : ∀ a ∈ t.registrations.rows, ∀ b ∈ t.registrations.rows, a.active = true →
    b.active = true → a.machineFingerprint = b.machineFingerprint → a.id = b.id
  publicKey : ∀ a ∈ t.registrations.rows, ∀ b ∈ t.registrations.rows, a.active = true →
    b.active = true → a.publicKeyFingerprint = b.publicKeyFingerprint → a.id = b.id

instance (t : Tables) : Decidable t.Unique :=
  decidable_of_iff
    ((∀ a ∈ t.nodes.rows, ∀ b ∈ t.nodes.rows, a.name = b.name → a.id = b.id) ∧
      (∀ a ∈ t.nodes.rows, ∀ b ∈ t.nodes.rows, a.endpoint = b.endpoint → a.id = b.id) ∧
      (∀ a ∈ t.enrollments.rows, ∀ b ∈ t.enrollments.rows, a.active = true →
        b.active = true → a.edgeNodeId = b.edgeNodeId → a.id = b.id) ∧
      (∀ a ∈ t.registrations.rows, ∀ b ∈ t.registrations.rows, a.active = true →
        b.active = true → a.machineFingerprint = b.machineFingerprint → a.id = b.id) ∧
      (∀ a ∈ t.registrations.rows, ∀ b ∈ t.registrations.rows, a.active = true →
        b.active = true → a.publicKeyFingerprint = b.publicKeyFingerprint → a.id = b.id))
    ⟨fun ⟨h1, h2, h3, h4, h5⟩ => ⟨h1, h2, h3, h4, h5⟩,
      fun ⟨h1, h2, h3, h4, h5⟩ => ⟨h1, h2, h3, h4, h5⟩⟩

/-- The committed tables. -/
structure Db extends Tables where
  unique : toTables.Unique

/-- The commit of changed tables; `none` is an `IntegrityError`. -/
def Db.check (t : Tables) : Option Db := if h : t.Unique then some ⟨t, h⟩ else none

theorem Db.check_eq_some {t : Tables} {db : Db} (h : Db.check t = some db) :
    db.toTables = t := by
  unfold Db.check at h
  split_ifs at h
  obtain rfl := Option.some.inj h
  rfl

/-- Nothing registered yet. -/
def Db.empty : Db where
  nodes := Table.empty
  enrollments := Table.empty
  registrations := Table.empty
  unique := ⟨by decide, by decide, by decide, by decide, by decide⟩

/-! ## What the handlers share -/

/-- An `HTTPException`; an exception that nothing takes is a status of 500. -/
structure Refusal where
  status : ℕ
  detail : String
  deriving DecidableEq, Repr

def serverError : Refusal := ⟨500, "Internal Server Error"⟩

/-- What stops a commit: an exception of the handler, or an `IntegrityError`. -/
inductive Failure
  | refused (refusal : Refusal)
  | integrity
  deriving DecidableEq, Repr

/-- What `urlsplit` finds. -/
structure SplitUrl where
  scheme : String
  hostname : Option String
  username : Option String
  password : Option String
  deriving DecidableEq, Repr

/-- What `load_pem_public_key` makes of a text. -/
inductive LoadedKey
  /-- An Ed25519 key: its canonical PEM, and the digest of its DER form. -/
  | ed25519 (canonicalPem fingerprint : String)
  /-- A key of another kind, a `TypeError` or a `ValueError`. -/
  | refused
  /-- An `UnsupportedAlgorithm`, which no handler catches. -/
  | unsupported
  deriving DecidableEq, Repr

structure Primitives where
  /-- SHA-256 in hexadecimal digits, `enrollment_hash`. -/
  enrollmentHash : String → String
  /-- HMAC-SHA-256 under the server's key, in Base64 without padding. -/
  keyedDigest : String → String
  loadPublicKey : String → LoadedKey
  /-- `b64decode(text, validate=True)` accepts the text. -/
  decodes : String → Bool
  /-- The Base64 text is a signature of the message under the key of the PEM text. -/
  verify : (publicKeyPem signature message : String) → Bool
  /-- `urlsplit`; `none` is a `ValueError`. -/
  urlsplit : String → Option SplitUrl

/-- `hmac.compare_digest` on texts; `none` is the `TypeError` at a text that is not ASCII. -/
def compareDigest (a b : String) : Option Bool :=
  if (a.toList ++ b.toList).all fun c => c.toNat < 128 then some (a == b) else none

/-- `ip_address(text)` is an IPv4 address, and a global one. -/
def globalIpv4 (ip : String) : Bool := (Lib.Ipv4.parse (text ip)).any Lib.Ipv4.isGlobal

/-- `validate_edge_node_network`; the endpoint and the address may be null. -/
def validateEdgeNodeNetwork (P : Primitives) (endpoint expectedPublicIpv4 : Option String) :
    Except Refusal Unit :=
  match endpoint.map P.urlsplit with
  | some none => .error serverError
  | some (some parsed) =>
    if parsed.scheme ≠ "https" ∨ parsed.hostname.getD "" = "" ∨ parsed.username ≠ none ∨
        parsed.password ≠ none then .error ⟨422, "HTTPS endpoint required"⟩
    else
      match expectedPublicIpv4 with
      | none => .ok ()
      | some ip =>
        if globalIpv4 ip = true then .ok () else .error ⟨422, "Global IPv4 address required"⟩
  | none => .error ⟨422, "HTTPS endpoint required"⟩

theorem validateEdgeNodeNetwork_ne_empty {P : Primitives}
    {endpoint expectedPublicIpv4 : Option String}
    (h : validateEdgeNodeNetwork P endpoint expectedPublicIpv4 = .ok ()) :
    expectedPublicIpv4 ≠ some "" := by
  rintro rfl
  unfold validateEdgeNodeNetwork at h
  split at h
  · simp at h
  · have hempty : globalIpv4 "" = false := by decide
    simp only [hempty, Bool.false_eq_true, if_false] at h
    split_ifs at h
  · simp at h

/-- The raw token after the scheme of an `Authorization` header, and its part before the first dot;
both parts have to be there, and the whole must not be longer than the limit. -/
def headerToken (scheme : String) (limit : ℕ) (authorization : Option String) :
    Option (String × String) :=
  match authorization with
  | none => none
  | some header =>
    if scheme.toList.isPrefixOf header.toList then
      let raw := header.toList.drop scheme.length
      if (raw.dropWhile (· ≠ '.')).length ≤ 1 ∨ limit < raw.length then none
      else some (String.ofList raw, String.ofList (raw.takeWhile (· ≠ '.')))
    else none

/-- The white space of `str.split`. -/
def isSpace (c : Char) : Bool :=
  let n := c.toNat
  (9 ≤ n && n ≤ 13) || (28 ≤ n && n ≤ 32) || n == 0x85 || n == 0xA0 || n == 0x1680 ||
    (0x2000 ≤ n && n ≤ 0x200A) || n == 0x2028 || n == 0x2029 || n == 0x202F || n == 0x205F ||
    n == 0x3000

/-- `" ".join(value.replace("\x00", " ").split())[:500]`. -/
def cleanText (value : String) : String :=
  let chars := value.toList.map fun c => if c.toNat = 0 then ' ' else c
  let words := (chars.splitOnP isSpace).filter (· ≠ [])
  String.ofList ((List.intercalate [' '] words).take 500)

/-- `hostname` of `urlsplit` of an endpoint, where that does not fail. -/
def domain (P : Primitives) (endpoint : String) : Option String :=
  (P.urlsplit endpoint).bind SplitUrl.hostname

/-- What a claim of either kind hands to the host. -/
structure Configuration where
  nodeId : ℕ
  nodeName : String
  domain : Option String
  edgeTicketSecret : String
  packageRoute : String
  packageSha256 : String
  reportToken : String
  deriving DecidableEq, Repr

/-- What a handler answers. -/
inductive Answer
  | refused (refusal : Refusal)
  | node (row : NodeRow)
  | deleted
  | enrollment (row : EnrollmentRow) (node : NodeRow) (token : Option String)
  | enrollments (rows : List (EnrollmentRow × NodeRow))
  | configuration (configuration : Configuration)
  | approvedConfiguration (configuration : Configuration) (enrollmentId : String)
      (installAdminSshKey : Bool)
  | reported (status : EnrollmentStatus) (phase : Option String)
  | registered (id challenge registrationToken : String) (expiresAt : ℕ)
  | proved
  | registrationStatus (status : RegistrationStatus) (error decision claimChallenge : Option String)
  | registrations (rows : List RegistrationRow)
  | accepted (id : String) (edgeNodeId : ℕ)
  | rejected (id : String)
  | monitored (results : List (String × HealthStatus))
  deriving DecidableEq

/-- The loaded rows that a session has changed, each with its new values. -/
structure Dirty where
  nodes : List (NodeRow × NodeRow) := []
  enrollments : List (EnrollmentRow × EnrollmentRow) := []
  registrations : List (RegistrationRow × RegistrationRow) := []

/-- The UPDATEs of a session; a row that is gone is a `StaleDataError`. -/
def Tables.flush (d : Dirty) (t : Tables) : Except Failure Tables :=
  match writeBackAll nodeMapping d.nodes t.nodes,
      writeBackAll enrollmentMapping d.enrollments t.enrollments,
      writeBackAll registrationMapping d.registrations t.registrations with
  | some nodes, some enrollments, some registrations => .ok ⟨nodes, enrollments, registrations⟩
  | _, _, _ => .error (.refused serverError)

theorem Tables.flush_eq_ok {d : Dirty} {t t' : Tables} (h : t.flush d = .ok t') :
    t'.nodes.rows = t.nodes.rows.map (flushAll nodeMapping d.nodes) ∧
      t'.enrollments.rows = t.enrollments.rows.map (flushAll enrollmentMapping d.enrollments) ∧
      t'.registrations.rows =
        t.registrations.rows.map (flushAll registrationMapping d.registrations) := by
  unfold Tables.flush at h
  split at h
  · next nodes enrollments registrations hn he hr =>
    obtain rfl : (⟨nodes, enrollments, registrations⟩ : Tables) = t' := by simpa using h
    exact ⟨writeBackAll_rows hn, writeBackAll_rows he, writeBackAll_rows hr⟩
  · simp at h

end IdenGrid.Control.Registry
