import IdenGrid.Edge.Config
import IdenGrid.Lib.PythonFloat
import IdenGrid.Lib.Results

/-! # The configuration in the environment

`Settings.from_env` reads the fields from the variables of the process. Surrogates in a text stand for
bytes that are no UTF-8; a secret with one raises a `UnicodeEncodeError`, which nobody catches. -/

namespace IdenGrid.Edge.Environment

open IdenGrid.Lib.Double IdenGrid.Lib.PythonInt IdenGrid.Lib.PythonFloat IdenGrid.Lib.Unicode
open IdenGrid.Edge.Config

/-- The variables of a process. -/
abbrev Environ := List (List ℕ × List ℕ)

/-- `os.environ.get(name, default)` -/
def getenv (environ : Environ) (name default : String) : List ℕ :=
  (environ.lookup (text name)).getD (text default)

variable (U : Lib.PythonInt.Unicode)

/-- The fields before their limits are checked; `none` for the `ValueError` of `int` or `float`. -/
def parseSettings (environ : Environ) (node secret : List ℕ) : Option Settings := do
  let maxConnections ← parseInt U (getenv environ "EDGE_MAX_CONNECTIONS" "64")
  let maxFrameBytes ← parseInt U (getenv environ "EDGE_MAX_FRAME_BYTES" "1048576")
  let maxBytesPerConnection ← parseInt U (getenv environ "EDGE_MAX_BYTES" "67108864")
  let idleTimeout ← parseFloat U (getenv environ "EDGE_IDLE_TIMEOUT" "60")
  let maxConnectionSeconds ← parseFloat U (getenv environ "EDGE_MAX_DURATION" "600")
  let connectTimeout ← parseFloat U (getenv environ "EDGE_CONNECT_TIMEOUT" "10")
  let ticketMaxTtl ← parseInt U (getenv environ "EDGE_TICKET_MAX_TTL" "60")
  pure ⟨node, secret, maxConnections, maxFrameBytes, maxBytesPerConnection, idleTimeout,
    maxConnectionSeconds, connectTimeout, ticketMaxTtl⟩

/-- A field of `_validate_limits` that is an integer. -/
def integerOk (name : String) (n : ℤ) : Bool :=
  decide (0 < n ∧ n ≤ limit integerLimits (text name))

/-- A field of `_validate_limits` that is a float. -/
def floatOk (name : String) (x : Binary64) : Bool :=
  within (.float x) (limit floatLimits (text name))

/-- `_validate_limits` -/
def validateLimits (S : Settings) : Except Fault Unit :=
  if integerOk "max_connections" S.maxConnections ∧ integerOk "max_frame_bytes" S.maxFrameBytes ∧
      integerOk "max_bytes_per_connection" S.maxBytesPerConnection ∧
      integerOk "ticket_max_ttl" S.ticketMaxTtl ∧ floatOk "idle_timeout" S.idleTimeout ∧
      floatOk "max_connection_seconds" S.maxConnectionSeconds ∧
      floatOk "connect_timeout" S.connectTimeout then .ok ()
  else .error (.runtimeError (text "invalid edge configuration limit"))

/-- `Settings.from_env` -/
def fromEnv (environ : Environ) : Except Fault Settings :=
  match encode (getenv environ "EDGE_TICKET_SECRET" "") with
  | none => .error .unicodeEncodeError
  | some secret => do
    let node := getenv environ "EDGE_NODE_ID" ""
    validateIdentity (some node) secret true
    match parseSettings U environ node secret with
    | none => .error (.runtimeError (text "invalid edge configuration value"))
    | some S => do
      validateLimits S
      pure S

/-- **Settings within all limits.** -/
structure Valid (S : Settings) : Prop where
  nodeId : matchesNodeId S.nodeId = true
  ticketSecret : 32 ≤ S.ticketSecret.length
  maxConnections : integerOk "max_connections" S.maxConnections = true
  maxFrameBytes : integerOk "max_frame_bytes" S.maxFrameBytes = true
  maxBytesPerConnection : integerOk "max_bytes_per_connection" S.maxBytesPerConnection = true
  ticketMaxTtl : integerOk "ticket_max_ttl" S.ticketMaxTtl = true
  idleTimeout : floatOk "idle_timeout" S.idleTimeout = true
  maxConnectionSeconds : floatOk "max_connection_seconds" S.maxConnectionSeconds = true
  connectTimeout : floatOk "connect_timeout" S.connectTimeout = true

theorem validateIdentity_eq_ok {node : List ℕ} {secret : List ℕ} {env : Bool} :
    validateIdentity (some node) secret env = .ok () ↔
      matchesNodeId node = true ∧ 32 ≤ secret.length := by
  unfold validateIdentity
  rw [Option.any_some]
  by_cases hnode : matchesNodeId node = true
  · rw [if_neg (not_not.mpr hnode)]
    by_cases hsecret : secret.length < 32
    · rw [if_pos hsecret]
      exact ⟨fun h => by simp at h, fun h => absurd h.2 (by omega)⟩
    · rw [if_neg hsecret]
      exact ⟨fun _ => ⟨hnode, by omega⟩, fun _ => rfl⟩
  · rw [if_pos hnode]
    exact ⟨fun h => by simp at h, fun h => absurd h.1 hnode⟩

variable {U}

theorem parseSettings_eq_some {environ : Environ} {node secret : List ℕ} {S : Settings} :
    parseSettings U environ node secret = some S ↔
      S.nodeId = node ∧ S.ticketSecret = secret ∧
      parseInt U (getenv environ "EDGE_MAX_CONNECTIONS" "64") = some S.maxConnections ∧
      parseInt U (getenv environ "EDGE_MAX_FRAME_BYTES" "1048576") = some S.maxFrameBytes ∧
      parseInt U (getenv environ "EDGE_MAX_BYTES" "67108864") = some S.maxBytesPerConnection ∧
      parseFloat U (getenv environ "EDGE_IDLE_TIMEOUT" "60") = some S.idleTimeout ∧
      parseFloat U (getenv environ "EDGE_MAX_DURATION" "600") = some S.maxConnectionSeconds ∧
      parseFloat U (getenv environ "EDGE_CONNECT_TIMEOUT" "10") = some S.connectTimeout ∧
      parseInt U (getenv environ "EDGE_TICKET_MAX_TTL" "60") = some S.ticketMaxTtl := by
  unfold parseSettings
  simp only [Option.bind_eq_bind, Option.bind_eq_some_iff, Option.pure_def, Option.some.injEq]
  constructor
  · rintro ⟨a, ha, b, hb, c, hc, d, hd, e, he, f, hf, g, hg, rfl⟩
    exact ⟨rfl, rfl, ha, hb, hc, hd, he, hf, hg⟩
  · rintro ⟨rfl, rfl, ha, hb, hc, hd, he, hf, hg⟩
    exact ⟨_, ha, _, hb, _, hc, _, hd, _, he, _, hf, _, hg, rfl⟩

/-- **What the environment is read as**: settings within the limits, which its texts stand for. -/
theorem fromEnv_eq_ok {environ : Environ} {S : Settings} :
    fromEnv U environ = .ok S ↔
      encode (getenv environ "EDGE_TICKET_SECRET" "") = some S.ticketSecret ∧
      parseSettings U environ (getenv environ "EDGE_NODE_ID" "") S.ticketSecret = some S ∧
      Valid S := by
  unfold fromEnv
  rcases hsecret : encode (getenv environ "EDGE_TICKET_SECRET" "") with _ | secret
  · simp
  constructor
  · intro h
    obtain ⟨⟨⟩, hidentity, h⟩ := Lib.Results.bind_eq_ok.mp h
    obtain ⟨hnode, hlength⟩ := validateIdentity_eq_ok.mp hidentity
    split at h
    · simp at h
    · next S' hparse =>
      obtain ⟨⟨⟩, hlimits, h⟩ := Lib.Results.bind_eq_ok.mp h
      obtain rfl := Except.ok.inj h
      obtain ⟨hid, rfl, -⟩ := parseSettings_eq_some.mp hparse
      unfold validateLimits at hlimits
      split_ifs at hlimits with hall
      obtain ⟨h1, h2, h3, h4, h5, h6, h7⟩ := hall
      exact ⟨rfl, hparse, by rw [hid]; exact hnode, hlength, h1, h2, h3, h4, h5, h6, h7⟩
  · rintro ⟨hsome, hparse, hv⟩
    obtain rfl := Option.some.inj hsome
    obtain ⟨hid, -⟩ := parseSettings_eq_some.mp hparse
    have hidentity : validateIdentity (some (getenv environ "EDGE_NODE_ID" "")) S.ticketSecret true =
        .ok () := validateIdentity_eq_ok.mpr ⟨by rw [← hid]; exact hv.nodeId, hv.ticketSecret⟩
    have hlimits : validateLimits S = .ok () :=
      if_pos ⟨hv.maxConnections, hv.maxFrameBytes, hv.maxBytesPerConnection, hv.ticketMaxTtl,
        hv.idleTimeout, hv.maxConnectionSeconds, hv.connectTimeout⟩
    simp only [hidentity, hparse, hlimits]
    rfl

end IdenGrid.Edge.Environment
