import Mathlib.Data.List.DropRight
import Mathlib.Data.List.Sort
import IdenGrid.Control.Nodes
import IdenGrid.Lib.Ipv4
import IdenGrid.Lib.Json
import IdenGrid.Lib.Run
import IdenGrid.Lib.Store

/-! # The Edge health monitor

`EdgeHealthMonitor.run_once` with `_probe`, `_probe_sample`, `_validate_payload` and
`_health_status`. The answers of a node's status endpoint, the durations of its probes (the values
of the floats) and the readings of the clock are arguments. The mean of the durations is that of
binary64 numbers, added from left to right.

An exception that none of the handlers takes is `none`, and so is a value that the database driver
does not accept: both leave `run_once` before its one commit, and nothing is stored. -/

namespace IdenGrid.Control.Monitor

open IdenGrid.Lib.Run IdenGrid.Lib.Store IdenGrid.Lib.Unicode IdenGrid.Lib.Double
open IdenGrid.Lib.Json IdenGrid.Control.Nodes

/-- What a request to a status endpoint yields: an `httpx.HTTPError`, an `httpx.InvalidURL` (which
is none, and comes from the endpoint and not from the wire), or a response with a status of success
and this content. -/
inductive Response
  | failed
  | invalidUrl
  | body (content : List ℕ)
  deriving DecidableEq, Repr

/-- The fields of a status document that the monitor goes on to use. -/
structure Payload where
  activeConnections : ℤ
  maxConnections : ℤ
  acceptedConnections : ℤ
  deniedConnections : ℤ
  publicIpv4 : Cell
  memoryTotalBytes : ℤ
  memoryAvailableBytes : ℤ
  diskTotalBytes : ℤ
  diskFreeBytes : ℤ
  load1m : ℚ
  uptimeSeconds : ℚ
  agentVersion : List ℕ
  deriving DecidableEq, Repr

/-- The exceptions of a probe: an `EdgeProbeError`, a `TypeError` or `ValueError`, and those that
`_probe_sample` does not take. -/
inductive Raised
  | edgeProbe (message : String)
  | invalid
  | uncaught
  deriving DecidableEq, Repr

/-! ## Validation -/

/-- A field that must be a non-negative integer and no Boolean. -/
def natField (fields : List (List ℕ × Value)) (name : String) : Option ℤ :=
  match get fields (text name) with
  | some (.int n) => if n < 0 then none else some n
  | _ => none

/-- The address of `ip_address(value)`, if that is an IPv4 address. -/
def address (value : Value) : Option ℕ :=
  match value with
  | .str t => Lib.Ipv4.parse t
  | .int n => if 0 ≤ n ∧ n < 2 ^ 32 then some n.toNat else none
  | .bool b => some b.toNat
  | _ => none

/-- A text or an integer as the payload holds it. -/
def addressCell (value : Value) : Cell :=
  match value with
  | .str t => .str t
  | .int n => .int n
  | .bool b => .int b.toNat
  | _ => .str []

/-- `float(n)` raises an `OverflowError`. -/
def overflows (n : ℤ) : Bool := decide (2 ^ 1024 - 2 ^ 970 ≤ n.natAbs)

/-- A field that must be a finite, non-negative number and no Boolean; `math.isfinite` of an integer
too large for a float raises an exception that nothing takes. -/
def numberField (fields : List (List ℕ × Value)) (name : String) : Except Raised ℚ :=
  match get fields (text name) with
  | some (.int n) =>
    if overflows n then .error .uncaught
    else if n < 0 then .error (.edgeProbe "health probe returned invalid resources")
    else .ok n
  | some (.float (.finite q)) =>
    if q < 0 then .error (.edgeProbe "health probe returned invalid resources")
    else .ok q
  | _ => .error (.edgeProbe "health probe returned invalid resources")

def versionField (fields : List (List ℕ × Value)) : Except Raised (List ℕ) :=
  match get fields (text "agent_version") with
  | some (.str t) =>
    if t = [] ∨ 100 < t.length then
      .error (.edgeProbe "health probe returned invalid agent version")
    else .ok t
  | _ => .error (.edgeProbe "health probe returned invalid agent version")

/-- The document names the expected node. -/
def namesNode (fields : List (List ℕ × Value)) (expectedNode : List ℕ) : Bool :=
  match get fields (text "node") with
  | some (.str t) => t == expectedNode
  | _ => false

/-- The fields that are integers: connections and resources. -/
structure Counts where
  activeConnections : ℤ
  maxConnections : ℤ
  acceptedConnections : ℤ
  deniedConnections : ℤ
  publicIpv4 : Cell
  memoryTotalBytes : ℤ
  memoryAvailableBytes : ℤ
  diskTotalBytes : ℤ
  diskFreeBytes : ℤ
  deriving DecidableEq, Repr

/-- `_validate_payload` up to the integer resources. -/
def checkCounts (fields : List (List ℕ × Value)) (expectedNode : List ℕ) : Except Raised Counts :=
  if namesNode fields expectedNode = false then
    .error (.edgeProbe "health probe node identity mismatch")
  else
    match natField fields "active_connections", natField fields "max_connections",
        natField fields "accepted_connections", natField fields "denied_connections" with
    | some active, some maximum, some accepted, some denied =>
      if maximum ≤ 0 ∨ maximum < active then
        .error (.edgeProbe "health probe returned invalid metrics")
      else
        match get fields (text "public_ipv4") with
        | none => .error (.edgeProbe "health probe returned invalid public IPv4")
        | some value =>
          if (address value).any Lib.Ipv4.isGlobal = false then
            .error (.edgeProbe "health probe returned invalid public IPv4")
          else
            match natField fields "memory_total_bytes", natField fields "memory_available_bytes",
                natField fields "disk_total_bytes", natField fields "disk_free_bytes" with
            | some memTotal, some memAvailable, some diskTotal, some diskFree =>
              if memTotal ≤ 0 ∨ memTotal < memAvailable ∨ diskTotal ≤ 0 ∨ diskTotal < diskFree then
                .error (.edgeProbe "health probe returned invalid resources")
              else
                .ok ⟨active, maximum, accepted, denied, addressCell value, memTotal, memAvailable,
                  diskTotal, diskFree⟩
            | _, _, _, _ => .error (.edgeProbe "health probe returned invalid resources")
    | _, _, _, _ => .error (.edgeProbe "health probe returned invalid metrics")

/-- `_validate_payload`. -/
def validatePayload (payload : Value) (expectedNode : List ℕ) : Except Raised Payload :=
  match payload with
  | .obj fields => do
    let counts ← checkCounts fields expectedNode
    let load1m ← numberField fields "load_1m"
    let uptime ← numberField fields "uptime_seconds"
    let version ← versionField fields
    pure
      { activeConnections := counts.activeConnections
        maxConnections := counts.maxConnections
        acceptedConnections := counts.acceptedConnections
        deniedConnections := counts.deniedConnections
        publicIpv4 := counts.publicIpv4
        memoryTotalBytes := counts.memoryTotalBytes
        memoryAvailableBytes := counts.memoryAvailableBytes
        diskTotalBytes := counts.diskTotalBytes
        diskFreeBytes := counts.diskFreeBytes
        load1m := load1m
        uptimeSeconds := uptime
        agentVersion := version }
  | _ => .error (.edgeProbe "health probe returned invalid status")

/-! ## Probing -/

structure Config where
  centralNodeName : String := "sg-browser"
  centralStatusUrl : String := "http://127.0.0.1:8787/status"
  sampleCount : ℕ := 5
  minSuccess : ℕ := 3
  quorum : 3 ≤ minSuccess ∧ minSuccess ≤ sampleCount := by decide

/-- `f"{endpoint.rstrip('/')}/status"` -/
def endpointStatusUrl (endpoint : String) : String :=
  String.ofList (endpoint.toList.rdropWhile (· == '/')) ++ "/status"

/-- The URL that `_probe` asks: the central node has one of its own. -/
def statusUrl (c : Config) (node : EdgeNode) : String :=
  if node.name = c.centralNodeName then c.centralStatusUrl else endpointStatusUrl node.endpoint

/-- What `_probe_sample` returns. -/
inductive Sample
  | success (payload : Payload) (duration : ℚ)
  | failure (lastError : String) (fatal : Bool)
  deriving DecidableEq, Repr

/-- What a node answers: what the request of each sample to its `statusUrl` yields, and the duration. -/
def Behaviour : Type := ℕ → Response × ℚ

/-- `response.json()` and `_validate_payload`; `depth` is the nesting the decoder takes. -/
def readStatus (depth : ℕ) (content : List ℕ) (expectedNode : List ℕ) : Except Raised Payload :=
  match loads depth content with
  | .error .value => .error .invalid
  | .error .recursion => .error .uncaught
  | .ok payload => validatePayload payload expectedNode

/-- `_probe_sample`; `none` if an exception leaves it. -/
def probeSample (depth : ℕ) (expectedNode : List ℕ) (answer : Response × ℚ) : Option Sample :=
  match answer.1 with
  | .failed => some (.failure "health probe request failed" false)
  | .invalidUrl => none
  | .body content =>
    match readStatus depth content expectedNode with
    | .ok payload => some (.success payload (max 0 answer.2))
    | .error (.edgeProbe message) => some (.failure message true)
    | .error .invalid => some (.failure "health probe returned invalid JSON" true)
    | .error .uncaught => none

/-- What `_probe` returns: the status, and the latency and the last payload if it was accepted. -/
inductive Probe
  | accepted (health : HealthStatus) (latencyMs : ℤ) (payload : Payload)
  | rejected (health : HealthStatus) (lastError : String)
  deriving DecidableEq, Repr

def fatalErrors (samples : List Sample) : List String :=
  samples.filterMap fun
    | .failure lastError true => some lastError
    | _ => none

def errors (samples : List Sample) : List String :=
  samples.filterMap fun
    | .failure lastError _ => some lastError
    | _ => none

def successes (samples : List Sample) : List (Payload × ℚ) :=
  samples.filterMap fun
    | .success payload duration => some (payload, duration)
    | _ => none

/-- `successful_durations[1:-1]` of the sorted durations. -/
def trimmed (durations : List ℚ) : List ℚ :=
  ((durations.insertionSort (· ≤ ·)).drop 1).dropLast

/-- The mean of the durations without the shortest and the longest, in milliseconds. -/
def meanMillis (durations : List ℚ) : Option ℚ :=
  (mean (trimmed durations)).bind fun m => fl (m * 1000)

/-- The same in whole milliseconds; `round` of an infinity raises an `OverflowError`. -/
def latencyOf (durations : List ℚ) : Option ℤ :=
  (meanMillis durations).map fun ms => max 0 (roundEven ms)

/-- `_health_status`. -/
def healthOf (payload : Payload) (expectedPublicIpv4 : Option String) : HealthStatus :=
  if expectedPublicIpv4.any fun ip => ip ≠ "" ∧ payload.publicIpv4 ≠ .str (text ip) then
    .quarantined
  else if payload.memoryAvailableBytes < 128 * 1024 * 1024 ∨
      payload.diskFreeBytes < 2 * 1024 * 1024 * 1024 ∨
      payload.maxConnections * 4 ≤ payload.activeConnections * 5 then .degraded
  else .online

/-- `_probe` from the collected samples on; `none` if an exception leaves it. -/
def judge (c : Config) (expectedPublicIpv4 : Option String) (samples : List Sample) :
    Option Probe :=
  match fatalErrors samples with
  | error :: _ => some (.rejected .offline error)
  | [] =>
    if (successes samples).length < c.minSuccess then
      some (.rejected .offline ((errors samples).getLast?.getD "health probe request failed"))
    else
      match (successes samples).getLast? with
      | none => some (.rejected .offline "health probe request failed")
      | some (payload, _) =>
        if (successes samples).any fun s => s.1.publicIpv4 ≠ payload.publicIpv4 then
          some (.rejected .quarantined "health probe public IPv4 inconsistent between samples")
        else
          (latencyOf ((successes samples).map Prod.snd)).map fun latencyMs =>
            .accepted (healthOf payload expectedPublicIpv4) latencyMs payload

/-- `_probe`; `none` if an exception leaves it. -/
def probe (c : Config) (depth : ℕ) (node : EdgeNode) (behaviour : Behaviour) : Option Probe :=
  ((List.range c.sampleCount).mapM fun i => probeSample depth (text node.name) (behaviour i)).bind
    (judge c node.expectedPublicIpv4)

/-! ## Storing -/

inductive EnrollmentStatus
  | pending
  | claimed
  | installing
  | ready
  | online
  | failed
  | expired
  | revoked
  deriving DecidableEq, Repr

/-- A row of `node_enrollments`. -/
structure NodeEnrollment where
  id : String
  edgeNodeId : ℕ
  reportTokenHash : Option String
  status : EnrollmentStatus
  phase : Option String
  updatedAt : ℕ
  lastError : Option String
  deriving DecidableEq, Repr

inductive RegistrationStatus
  | pendingProof
  | pendingApproval
  | approved
  | rejected
  | installing
  | ready
  | failed
  | online
  | expired
  deriving DecidableEq, Repr

/-- A row of `node_registration_requests`. -/
structure NodeRegistrationRequest where
  id : String
  edgeNodeId : Option ℕ
  status : RegistrationStatus
  updatedAt : ℕ
  lastError : Option String
  deriving DecidableEq, Repr

structure Db where
  nodes : Table EdgeNode.id
  enrollments : Table NodeEnrollment.id
  registrations : Table NodeRegistrationRequest.id

/-- The driver takes integers of 64 bits. -/
def fits (n : ℤ) : Bool := decide (-2 ^ 63 ≤ n ∧ n < 2 ^ 63)

/-- The driver takes texts that can be encoded. -/
def encodable (t : List ℕ) : Bool := t.all fun c => !isHigh c && !isLow c

def Cell.storable : Cell → Bool
  | .int n => fits n
  | .str t => encodable t

/-- The driver takes every value that the monitor stores from this payload. -/
def storable (latencyMs : ℤ) (payload : Payload) : Bool :=
  fits latencyMs && fits payload.activeConnections && fits payload.maxConnections &&
    fits payload.acceptedConnections && fits payload.deniedConnections &&
    Cell.storable payload.publicIpv4 && fits payload.memoryTotalBytes &&
    fits payload.memoryAvailableBytes && fits payload.diskTotalBytes &&
    fits payload.diskFreeBytes && encodable payload.agentVersion

/-- The columns that an accepted payload sets; a column of floats binds a float. -/
def columns (payload : Payload) : StatusColumns where
  activeConnections := payload.activeConnections
  maxConnections := payload.maxConnections
  acceptedConnections := payload.acceptedConnections
  deniedConnections := payload.deniedConnections
  actualPublicIpv4 := some payload.publicIpv4
  load1m := some (ofRat payload.load1m)
  memoryTotalBytes := some payload.memoryTotalBytes
  memoryAvailableBytes := some payload.memoryAvailableBytes
  diskTotalBytes := some payload.diskTotalBytes
  diskFreeBytes := some payload.diskFreeBytes
  uptimeSeconds := some (ofRat payload.uptimeSeconds)
  agentVersion := some payload.agentVersion

/-- The readings of the clock for one node. -/
structure Readings where
  seen : ℕ
  enrollment : ℕ
  registration : ℕ
  deriving DecidableEq, Repr

/-- Maintenance overrides what the probe found. -/
def effective (node : EdgeNode) (health : HealthStatus) : HealthStatus :=
  if node.maintenanceMode then .maintenance else health

def Probe.health : Probe → HealthStatus
  | .accepted health _ _ => health
  | .rejected health _ => health

/-- The row of the node after its probe. -/
def updateNode (node : EdgeNode) (result : Probe) (t : Readings) : EdgeNode :=
  match result with
  | .accepted health latencyMs payload =>
    { node with
      healthStatus := effective node health
      lastSeenAt := some t.seen
      latencyMs := some latencyMs
      status := columns payload
      lastError := none }
  | .rejected health lastError =>
    { node with
      healthStatus := effective node health
      latencyMs := none
      lastError := some lastError }

/-- The status and its text in an error. -/
def failureText : HealthStatus → Option String
  | .offline => some "monitor marked node offline"
  | .quarantined => some "monitor marked node quarantined"
  | _ => none

def updateEnrollment (status : HealthStatus) (now : ℕ) (item : NodeEnrollment) : NodeEnrollment :=
  if status = .online then
    { item with
      status := .online
      phase := some "ready"
      updatedAt := now
      reportTokenHash := none
      lastError := none }
  else
    match failureText status with
    | some lastError =>
      { item with
        status := .failed, phase := some "failed", updatedAt := now, lastError := some lastError }
    | none => item

def updateRegistration (status : HealthStatus) (now : ℕ) (item : NodeRegistrationRequest) :
    NodeRegistrationRequest :=
  if status = .online then
    if item.status = .online then item
    else { item with status := .online, updatedAt := now, lastError := none }
  else
    match failureText status with
    | some lastError =>
      { item with status := .failed, updatedAt := now, lastError := some lastError }
    | none => item

/-- The enrollment of the node that the monitor keeps up to date. -/
def linkedEnrollment (nodeId : ℕ) (item : NodeEnrollment) : Bool :=
  item.edgeNodeId == nodeId &&
    (item.status == .ready || item.status == .installing || item.status == .claimed ||
      item.status == .failed)

/-- The registration of the node that the monitor keeps up to date. -/
def linkedRegistration (nodeId : ℕ) (item : NodeRegistrationRequest) : Bool :=
  item.edgeNodeId == some nodeId &&
    (item.status == .installing || item.status == .ready || item.status == .failed ||
      item.status == .online)

/-- The tables after the probe of one node. -/
def record (db : Db) (node : EdgeNode) (result : Probe) (t : Readings) : Db where
  nodes := db.nodes.put (updateNode node result t)
  enrollments := db.enrollments.updateFirst (linkedEnrollment node.id)
    (updateEnrollment (effective node result.health) t.enrollment)
  registrations := db.registrations.updateFirst (linkedRegistration node.id)
    (updateRegistration (effective node result.health) t.registration)

/-- The driver takes what a probe makes the monitor store. -/
def Probe.storable : Probe → Bool
  | .accepted _ latencyMs payload => Monitor.storable latencyMs payload
  | .rejected _ _ => true

section Run

variable (c : Config) (depth : ℕ) (clock : ℕ → Readings) (behaviour : ℕ → Behaviour)

/-- What `run_once` has at hand between two nodes: the tables of its session, and the results. -/
structure Progress where
  db : Db
  results : List (String × HealthStatus) := []

/-- One round of the loop over the nodes: the probe, and the flush of what it changed. -/
def visit (s : Progress) (node : EdgeNode) : Option Progress :=
  match probe c depth node (behaviour node.id) with
  | none => none
  | some result =>
    if result.storable = true then
      some
        { db := record s.db node result (clock node.id)
          results := s.results ++ [(node.name, effective node result.health)] }
    else none

/-- The enabled nodes by their ids. -/
def enabledNodes (db : Db) : List EdgeNode :=
  (db.nodes.rows.filter EdgeNode.enabled).insertionSort fun a b => a.id ≤ b.id

/-- `run_once`: the tables it commits and what it returns, or `none` if an exception leaves it. -/
def runOnce (db : Db) : Option Progress :=
  run (visit c depth clock behaviour) { db := db } (enabledNodes db)

end Run

end IdenGrid.Control.Monitor
