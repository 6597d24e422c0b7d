import Mathlib.Data.Option.Basic
import Mathlib.Tactic.Common

/-! # The agent's view of Central

The values of `dto.rs` with their checks, `edge_tunnel_url`, and what the requests of
`CentralClient` make of a response. A response is its status and what the JSON decoder finds in its
body; `none` is a request that fails before.

The URL parser and its setters are those of a library and come as `Urls`. -/

namespace IdenGrid.Agent.Central

/-- A parsed URL, by the accessors that are used. -/
structure Url where
  scheme : String
  username : String
  password : Option String
  hostStr : Option String
  port : Option ℕ
  path : String
  query : Option String
  fragment : Option String
  deriving DecidableEq, Repr

/-- `Url::parse`, `Url::set_scheme`, and whether a text can stand in an HTTP header. -/
structure Urls where
  parse : String → Option Url
  setScheme : Url → String → Option Url
  headerValue : String → Bool

variable (U : Urls)

/-- The host is one of the loopback names. -/
def loopback (url : Url) : Bool :=
  url.hostStr.any fun h => h == "127.0.0.1" || h == "localhost" || h == "::1"

/-- `edge_tunnel_url`. -/
def edgeTunnelUrl (endpoint : String) : Option Url := do
  let url ← U.parse endpoint
  if url.username ≠ "" ∨ url.password.isSome ∨ url.hostStr.isNone ∨ url.query.isSome ∨
      url.fragment.isSome then none
  else
    let url ←
      if url.scheme = "https" then U.setScheme url "wss"
      else if url.scheme = "http" ∧ loopback url = true then U.setScheme url "ws"
      else none
    some { url with path := "/v1/tunnel", query := none, fragment := none }

/-- `char::is_whitespace`. -/
def isWhitespace (c : Char) : Bool :=
  let n := c.toNat
  (9 ≤ n && n ≤ 13) || n = 0x20 || n = 0x85 || n = 0xA0 || n = 0x1680 ||
    (0x2000 ≤ n && n ≤ 0x200A) || n = 0x2028 || n = 0x2029 || n = 0x202F || n = 0x205F ||
    n = 0x3000

/-- `nonempty`. -/
def nonempty (value : String) : Bool := value ≠ "" && value.utf8ByteSize ≤ 8192

structure StoreDto where
  id : ℕ
  label : String
  edgeEndpoint : String
  expectedEgressIps : List String
  deriving DecidableEq, Repr

def StoreDto.validate (s : StoreDto) : Bool :=
  !(s.id = 0 || s.label.toList.all isWhitespace || s.expectedEgressIps.isEmpty) &&
    (edgeTunnelUrl U s.edgeEndpoint).isSome

structure ConnectResponse where
  leaseId : String
  status : String
  edgeEndpoint : String
  createdAt : String
  expiresAt : String
  expiresIn : ℕ
  deriving DecidableEq, Repr

def ConnectResponse.validate (c : ConnectResponse) : Bool :=
  nonempty c.leaseId && nonempty c.createdAt && nonempty c.expiresAt &&
    !(c.status ≠ "active" || c.expiresIn = 0) && (edgeTunnelUrl U c.edgeEndpoint).isSome

structure TicketResponse where
  ticket : String
  leaseId : String
  edgeEndpoint : String
  expiresIn : ℕ
  deriving DecidableEq, Repr

def TicketResponse.validate (t : TicketResponse) : Bool :=
  nonempty t.ticket && nonempty t.leaseId && !(t.expiresIn = 0 || 60 < t.expiresIn) &&
    (edgeTunnelUrl U t.edgeEndpoint).isSome

/-- A response of Central. -/
structure Response (α : Type*) where
  status : ℕ
  body : Option α
  deriving DecidableEq, Repr

/-- `StatusCode::is_success`. -/
def isSuccess (status : ℕ) : Bool := 200 ≤ status && status < 300

/-- `CentralClient::checked`. -/
def checked {α : Type*} (r : Option (Response α)) : Option α :=
  r.bind fun r => if isSuccess r.status then r.body else none

/-- `CentralClient::preflight`. -/
def preflight (storeId : ℕ) (r : Option (Response (List StoreDto))) : Option StoreDto :=
  (checked r).bind fun stores => (stores.find? (·.id = storeId)).filter (·.validate U)

/-- `CentralClient::connect`. -/
def connect (r : Option (Response ConnectResponse)) : Option ConnectResponse :=
  (checked r).filter (·.validate U)

/-- `CentralClient::ticket`. -/
def ticket (r : Option (Response TicketResponse)) : Option TicketResponse :=
  (r.bind fun r => if r.status = 201 ∨ r.status = 200 then r.body else none).filter (·.validate U)

variable {U}

/-- **What a connection says of its endpoint**: it has been checked. -/
theorem connect_endpoint {r : Option (Response ConnectResponse)} {connection : ConnectResponse}
    (h : connect U r = some connection) :
    ∃ url, edgeTunnelUrl U connection.edgeEndpoint = some url := by
  obtain ⟨-, hvalid⟩ := Option.filter_eq_some_iff.mp h
  simp only [ConnectResponse.validate, Bool.and_eq_true] at hvalid
  exact Option.isSome_iff_exists.mp hvalid.2

end IdenGrid.Agent.Central
