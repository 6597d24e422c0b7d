import IdenGrid.Lib.JsonHooks
import IdenGrid.Lib.PythonInt

/-! # The configuration of an Edge

`_parse_json` and `_settings_from_mapping` read it from the bytes of a file. Texts are lists of code
points; `depth` is how deep the interpreter lets the JSON scanner nest.

The fields are checked one after the other, each by the check of its kind; the first that fails is named
in the error. -/

namespace IdenGrid.Edge.Config

open IdenGrid.Lib.Double IdenGrid.Lib.Json IdenGrid.Lib.JsonHooks IdenGrid.Lib.PythonInt
open IdenGrid.Lib.Unicode

structure Settings where
  nodeId : List ℕ
  ticketSecret : List ℕ
  maxConnections : ℤ := 64
  maxFrameBytes : ℤ := 1048576
  maxBytesPerConnection : ℤ := 67108864
  idleTimeout : Binary64 := .finite 60
  maxConnectionSeconds : Binary64 := .finite 600
  connectTimeout : Binary64 := .finite 10
  ticketMaxTtl : ℤ := 60
  deriving DecidableEq, Repr

/-- The exceptions: the `RuntimeError` of a check with its message, the `RecursionError` of the scanner,
which is a `RuntimeError` as well, and the ones nobody catches. -/
inductive Fault
  | runtimeError (message : List ℕ)
  | recursionError
  | overflowError
  | unicodeEncodeError
  deriving DecidableEq, Repr

/-- `isinstance(exc, RuntimeError)` -/
def Fault.isRuntimeError : Fault → Bool
  | .runtimeError _ | .recursionError => true
  | .overflowError | .unicodeEncodeError => false

def maxConfigBytes : ℕ := 65536

def integerLimits : List (List ℕ × ℤ) :=
  [(text "max_connections", 65535), (text "max_frame_bytes", 64 * 1024 * 1024),
    (text "max_bytes_per_connection", 1024 ^ 4), (text "ticket_max_ttl", 300)]

def floatLimits : List (List ℕ × ℤ) :=
  [(text "idle_timeout", 3600), (text "max_connection_seconds", 32400), (text "connect_timeout", 120)]

def fields : List (List ℕ) :=
  [text "schema_version", text "node_id", text "ticket_secret", text "max_connections",
    text "max_frame_bytes", text "max_bytes_per_connection", text "idle_timeout",
    text "max_connection_seconds", text "connect_timeout", text "ticket_max_ttl"]

/-! ## The fields -/

/-- `[A-Za-z0-9._-]` -/
def isNodeChar (c : ℕ) : Bool :=
  decide (65 ≤ c ∧ c ≤ 90 ∨ 97 ≤ c ∧ c ≤ 122 ∨ 48 ≤ c ∧ c ≤ 57 ∨ c = 46 ∨ c = 95 ∨ c = 45)

/-- `_NODE_ID.fullmatch` -/
def matchesNodeId (node : List ℕ) : Bool :=
  decide (1 ≤ node.length ∧ node.length ≤ 64) && node.all isNodeChar

/-- The code points of characters: surrogates have no encoding. -/
def isScalar (c : ℕ) : Bool := decide (c < 0x110000) && !isHigh c && !isLow c

/-- `text.encode("utf-8")`, `none` for a `UnicodeEncodeError`. -/
def encode (t : List ℕ) : Option (List ℕ) :=
  if t.all isScalar then some (encodeUtf8 t) else none

def invalidField (name : List ℕ) : Fault := .runtimeError (text "invalid config field: " ++ name)

/-- `_validate_identity`; `none` for a node that is no `str`. -/
def validateIdentity (node : Option (List ℕ)) (secret : List ℕ) (env : Bool) : Except Fault Unit :=
  if ¬ node.any matchesNodeId then
    .error (if env then .runtimeError (text "EDGE_NODE_ID is missing or unsafe")
      else invalidField (text "node_id"))
  else if secret.length < 32 then
    .error (if env then .runtimeError (text "EDGE_TICKET_SECRET must be at least 32 bytes")
      else invalidField (text "ticket_secret"))
  else .ok ()

/-- `math.isfinite`; an integer is converted to a float first. -/
def isfinite : Value → Except Fault Bool
  | .int n => match ofRat n with
    | .inf _ => .error .overflowError
    | _ => .ok true
  | .float (.finite _) => .ok true
  | _ => .ok false

/-- A number as a float. -/
def toFloat : Value → Binary64
  | .int n => ofRat n
  | .float x => x
  | _ => .nan

/-- `0 < value <= maximum` for a number that is finite. -/
def within (value : Value) (maximum : ℤ) : Bool :=
  match value with
  | .int n => decide (0 < n ∧ n ≤ maximum)
  | .float (.finite q) => decide (0 < q ∧ q ≤ maximum)
  | _ => false

/-- The limit of a field. -/
def limit (limits : List (List ℕ × ℤ)) (name : List ℕ) : ℤ := (limits.lookup name).getD 0

/-- The check of an integer field. -/
def integerField (data : List (List ℕ × Value)) (name : String) : Except Fault ℤ :=
  match get data (text name) with
  | some (.int n) =>
    if n ≤ 0 ∨ limit integerLimits (text name) < n then .error (invalidField (text name)) else .ok n
  | _ => .error (invalidField (text name))

/-- `type(value) in (int, float)` -/
def isNumber : Value → Bool
  | .int _ | .float _ => true
  | _ => false

/-- The check of a float field. -/
def floatField (data : List (List ℕ × Value)) (name : String) : Except Fault Binary64 :=
  match get data (text name) with
  | some value =>
    if ¬ isNumber value then .error (invalidField (text name))
    else do
      let finite ← isfinite value
      if finite ∧ within value (limit floatLimits (text name)) then .ok (toFloat value)
      else .error (invalidField (text name))
  | none => .error (invalidField (text name))

/-! ## The file -/

/-- The least of the names, as `min` finds it. -/
def least : List (List ℕ) → Option (List ℕ)
  | [] => none
  | name :: names => some (names.foldl min name)

def schemaVersionIsOne (data : List (List ℕ × Value)) : Bool :=
  match get data (text "schema_version") with
  | some (.int n) => n == 1
  | _ => false

/-- The texts of a field, if its value is one. -/
def stringField (data : List (List ℕ × Value)) (name : String) : Option (List ℕ) :=
  match get data (text name) with
  | some (.str t) => some t
  | _ => none

/-- `_settings_from_mapping` -/
def settingsFromMapping (data : List (List ℕ × Value)) : Except Fault Settings :=
  let names := data.map Prod.fst
  match least (names.filter (· ∉ fields)), least (fields.filter (· ∉ names)) with
  | some name, _ => .error (.runtimeError (text "unknown config field: " ++ name))
  | none, some name => .error (.runtimeError (text "missing config field: " ++ name))
  | none, none => do
    if ¬ schemaVersionIsOne data then throw (invalidField (text "schema_version"))
    let maxConnections ← integerField data "max_connections"
    let maxFrameBytes ← integerField data "max_frame_bytes"
    let maxBytesPerConnection ← integerField data "max_bytes_per_connection"
    let ticketMaxTtl ← integerField data "ticket_max_ttl"
    let idleTimeout ← floatField data "idle_timeout"
    let maxConnectionSeconds ← floatField data "max_connection_seconds"
    let connectTimeout ← floatField data "connect_timeout"
    match (stringField data "ticket_secret").bind encode with
    | none => .error (invalidField (text "ticket_secret"))
    | some secret =>
      validateIdentity (stringField data "node_id") secret false
      pure ⟨(stringField data "node_id").getD [], secret, maxConnections, maxFrameBytes,
        maxBytesPerConnection, idleTimeout, maxConnectionSeconds, connectTimeout, ticketMaxTtl⟩

/-- `raw.decode("utf-8-sig")` -/
def decodeUtf8Sig (raw : List ℕ) : Option (List ℕ) :=
  (utf8 (match raw with
    | 0xEF :: 0xBB :: 0xBF :: t => t
    | t => t)).filter fun t => !t.any fun c => isHigh c || isLow c

def invalidJson : Fault := .runtimeError (text "invalid JSON config")

/-- The first key that stands in the object before. -/
def duplicate : List (List ℕ) → List (List ℕ) → Option (List ℕ)
  | _, [] => none
  | seen, key :: keys => if key ∈ seen then some key else duplicate (key :: seen) keys

/-- The hooks of `_parse_json`: `pairs` and `invalid_constant`. -/
def hooks : Hooks Fault where
  object items :=
    match duplicate [] (items.map Prod.fst) with
    | some key => .error (.runtimeError (text "duplicate config field: " ++ key))
    | none => .ok (.obj items)
  constant _ := .error invalidJson
  invalid := invalidJson
  recursion := .recursionError

/-- `_parse_json` -/
def parseJson (depth : ℕ) (raw : List ℕ) : Except Fault (List (List ℕ × Value)) :=
  match decodeUtf8Sig raw with
  | none => .error invalidJson
  | some t => do
    match ← decode hooks depth t with
    | .obj data => .ok data
    | _ => .error (.runtimeError (text "config root must be an object"))

/-- What the bytes of a configuration file say. -/
def settingsFromBytes (depth : ℕ) (raw : List ℕ) : Except Fault Settings := do
  settingsFromMapping (← parseJson depth raw)

end IdenGrid.Edge.Config
