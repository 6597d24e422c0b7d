import Mathlib.Algebra.BigOperators.Group.List.Basic
import IdenGrid.Agent.Latency
import IdenGrid.Lib.JsonHooks
import IdenGrid.Lib.Reads
import IdenGrid.Lib.Results

/-! # Delivering an access token to an agent

`handle_control` and what both clients write to the control socket for an `update_token`. Bytes are
numbers below 256, a string is the list of its code points. A stream is the list of what its reads have
to return; it takes what is written to it.

The agent takes a request of at most 16 KiB, but the encoders may need several bytes for a character of
a token. `delivered_iff`: which tokens can be delivered. -/

namespace IdenGrid.Agent.TokenUpdate

open IdenGrid.Agent.Latency IdenGrid.Lib.Json IdenGrid.Lib.JsonDumps IdenGrid.Lib.JsonHooks
open IdenGrid.Lib.Reads IdenGrid.Lib.Results IdenGrid.Lib.Unicode

/-! ## The agent -/

def minAccessTokenBytes : ℕ := 8
def maxAccessTokenBytes : ℕ := 8 * 1024
def maxControlRequestBytes : ℕ := 16 * 1024

inductive Fault
  | bail (text : String)
  | io
  deriving DecidableEq, Repr

/-- `u8::is_ascii_graphic` -/
def isAsciiGraphic (byte : ℕ) : Bool := decide (0x21 ≤ byte ∧ byte ≤ 0x7E)

/-- What `validate_native_access_token` demands. -/
def validToken (token : List ℕ) : Bool :=
  let bytes := encodeUtf8 token
  decide (minAccessTokenBytes ≤ bytes.length ∧ bytes.length ≤ maxAccessTokenBytes) &&
    bytes.all isAsciiGraphic

def validateNativeAccessToken (token : List ℕ) : Except Fault Unit :=
  if validToken token then .ok () else .error (.bail "native_access_token is invalid")

inductive ControlCommand
  | status
  | shutdown
  | updateToken
  deriving DecidableEq, Repr

structure ControlRequest where
  capability : List ℕ
  command : ControlCommand
  nativeAccessToken : Option (List ℕ)
  deriving DecidableEq, Repr

namespace ControlRequest

def validate (request : ControlRequest) : Except Fault Unit :=
  match request.command, request.nativeAccessToken with
  | .updateToken, some token => validateNativeAccessToken token
  | .updateToken, none => .error (.bail "native_access_token is required")
  | _, some _ => .error (.bail "native_access_token is only valid for update_token")
  | _, none => .ok ()

def validatedUpdateToken (request : ControlRequest) : Except Fault (List ℕ) := do
  request.validate
  match request.command, request.nativeAccessToken with
  | .updateToken, some token => .ok token
  | _, _ => .error (.bail "control command is not update_token")

end ControlRequest

/-- The objects of a request keep all their pairs; there are no constants. -/
def requestHooks : Hooks Unit := ⟨fun fields => .ok (.obj fields), fun _ => .error (), (), ()⟩

/-- The nesting that `serde_json` allows. -/
def requestDepth : ℕ := 128

/-- A string has no surrogates. -/
def asString : Value → Option (List ℕ)
  | .str t => if t.all (fun c => !isHigh c && !isLow c) then some t else none
  | _ => none

def asVariant (name : List ℕ) : Option ControlCommand :=
  if name = text "status" then some .status
  else if name = text "shutdown" then some .shutdown
  else if name = text "update_token" then some .updateToken
  else none

/-- A variant is its name, or an object with `null` under its name. -/
def asCommand : Value → Option ControlCommand
  | .str name => asVariant name
  | .obj [(name, .null)] => asVariant name
  | _ => none

def asOption : Value → Option (Option (List ℕ))
  | .null => some none
  | v => (asString v).map some

def fieldNames : List (List ℕ) :=
  [text "capability", text "command", text "native_access_token"]

/-- The request with these values of its fields; `native_access_token` may be missing. -/
def ofFields (capability command token : Option Value) : Option ControlRequest := do
  let capability ← capability.bind asString
  let command ← command.bind asCommand
  let token ← token.elim (some none) asOption
  pure ⟨capability, command, token⟩

/-- A request is an object without unknown or repeated fields, or an array of the three values. -/
def asRequest : Value → Option ControlRequest
  | .obj fields =>
    if (∀ f ∈ fields, f.1 ∈ fieldNames) ∧ (fields.map Prod.fst).Nodup then
      ofFields (get fields (text "capability")) (get fields (text "command"))
        (get fields (text "native_access_token"))
    else none
  | .arr [capability, command, token] => ofFields (some capability) (some command) (some token)
  | _ => none

/-- `serde_json::from_slice` -/
def fromSlice (bytes : List ℕ) : Except Fault ControlRequest :=
  let request := (utf8 bytes).bind fun t =>
    match decode requestHooks requestDepth t with
    | .ok v => asRequest v
    | .error _ => none
  match request with
  | some request => .ok request
  | none => .error (.bail "invalid control request")

/-- `authorize`: the comparison of the bytes takes constant time. -/
def authorize (request : ControlRequest) (expected : List ℕ) : Bool :=
  encodeUtf8 request.capability == encodeUtf8 expected

structure EdgeLatencyStatus where
  scope : String
  source : String
  snapshot : EdgeLatencySnapshot
  deriving DecidableEq, Repr

structure StatusResponse where
  status : String
  socksHost : String
  socksPort : ℕ
  storeId : ℕ
  deviceId : String
  edgeLatency : Option EdgeLatencyStatus
  deriving DecidableEq, Repr

inductive Response
  | status (response : StatusResponse)
  | shuttingDown
  | updated
  deriving DecidableEq, Repr

/-- The token that the requests to Central bear, and how many it has replaced. -/
structure CentralClient where
  token : List ℕ
  tokenGeneration : ℕ
  deriving DecidableEq, Repr

/-- `CentralClient::update_token`; the generation wraps around. -/
def CentralClient.updateToken (central : CentralClient) (token : List ℕ) :
    Except Fault CentralClient := do
  validateNativeAccessToken token
  pure ⟨token, (central.tokenGeneration + 1) % 2 ^ 64⟩

/-- What an agent has for its control connections. -/
structure Endpoint where
  capability : List ℕ
  socksPort : ℕ
  storeId : ℕ
  deviceId : String

/-- What `handle_control` answers and leaves behind. -/
structure Handled where
  response : Response
  central : CentralClient
  shutdown : Bool
  deriving DecidableEq, Repr

/-- The request of a connection. -/
def readRequest (stream : List (Option (List ℕ))) : Except Fault ControlRequest :=
  match readUntil 10 (maxControlRequestBytes + 1) stream with
  | none => .error .io
  | some bytes =>
    if bytes.length = 0 ∨ maxControlRequestBytes < bytes.length ∨ bytes.getLast? ≠ some 10 then
      .error (.bail "invalid control request size")
    else fromSlice bytes

/-- `handle_control` at this time. -/
def handleControl (endpoint : Endpoint) (central : CentralClient) (metrics : TrackerState) (now : ℤ)
    (stream : List (Option (List ℕ))) : Except Fault Handled := do
  let request ← readRequest stream
  if authorize request endpoint.capability then
    request.validate
    match request.command with
    | .status =>
      let latency : EdgeLatencyStatus :=
        ⟨"mac_to_edge_websocket_rtt", "websocket_ping", snapshotAt metrics now⟩
      .ok ⟨.status ⟨"connected", "127.0.0.1", endpoint.socksPort, endpoint.storeId,
        endpoint.deviceId, some latency⟩, central, false⟩
    | .shutdown => .ok ⟨.shuttingDown, central, true⟩
    | .updateToken =>
      let token ← request.validatedUpdateToken
      let central ← central.updateToken token
      .ok ⟨.updated, central, false⟩
  else .error (.bail "unauthorized control request")

/-! ## The clients -/

def hexUpper (v : ℕ) : ℕ := if v < 10 then v + 48 else v + 55

/-- Two hexadecimal digits a byte. -/
def hexString (digit : ℕ → ℕ) (bytes : List UInt8) : List ℕ :=
  bytes.flatMap fun b => [digit (b.toNat / 16), digit (b.toNat % 16)]

structure Uuid where
  bytes : List UInt8
  size : bytes.length = 16

/-- `UUID().uuidString` -/
def Uuid.uuidString (u : Uuid) : List ℕ :=
  hexString hexUpper (u.bytes.take 4) ++
    45 :: (hexString hexUpper ((u.bytes.drop 4).take 2) ++
    45 :: (hexString hexUpper ((u.bytes.drop 6).take 2) ++
    45 :: (hexString hexUpper ((u.bytes.drop 8).take 2) ++
    45 :: hexString hexUpper (u.bytes.drop 10))))

/-- `UUID().uuidString + UUID().uuidString` -/
def macCapability (u v : Uuid) : List ℕ := u.uuidString ++ v.uuidString

/-- The bytes of a random number generator. -/
structure RandomBytes where
  bytes : List UInt8
  size : bytes.length = 32

/-- `Convert.ToHexString(RandomNumberGenerator.GetBytes(32)).ToLowerInvariant()` -/
def windowsCapability (r : RandomBytes) : List ℕ := hexString hexDigit r.bytes

/-- A character in a string of `JSONEncoder`. -/
def jsonEncoderEscape (c : ℕ) : List ℕ :=
  if c = 34 ∨ c = 92 ∨ c = 47 then [92, c]
  else if c = 8 then [92, 98] else if c = 9 then [92, 116] else if c = 10 then [92, 110]
  else if c = 12 then [92, 102] else if c = 13 then [92, 114]
  else if c < 32 then [92, 117, 48, 48, hexDigit (c / 16), hexDigit (c % 16)]
  else [c]

/-- A character in a string of `JsonSerializer` under its default encoder. -/
def javaScriptEscape (c : ℕ) : List ℕ :=
  if c = 92 then [92, 92]
  else if c = 8 then [92, 98] else if c = 9 then [92, 116] else if c = 10 then [92, 110]
  else if c = 12 then [92, 102] else if c = 13 then [92, 114]
  else if c < 32 ∨ c ∈ [34, 38, 39, 43, 60, 62, 96] ∨ 127 ≤ c then
    let unit := fun u : ℕ => [92, 117, hexUpper (u / 4096 % 16), hexUpper (u / 256 % 16),
      hexUpper (u / 16 % 16), hexUpper (u % 16)]
    if c < 0x10000 then unit c else unit (highOf c) ++ unit (lowOf c)
  else [c]

/-- A JSON object of strings. -/
def encodeObject (escape : ℕ → List ℕ) (members : List (List ℕ × List ℕ)) : List ℕ :=
  123 :: (entriesText (members.map fun m =>
    (m.1.flatMap escape, 34 :: (m.2.flatMap escape ++ [34]))) ++ [125])

def updateTokenMembers (capability token : List ℕ) : List (List ℕ × List ℕ) :=
  [(text "capability", capability), (text "command", text "update_token"),
    (text "native_access_token", token)]

/-- `AgentControlPayload.updateToken`; the order of the members is up to `JSONEncoder`. -/
def agentControlPayload (order : List (List ℕ × List ℕ) → List (List ℕ × List ℕ))
    (capability token : List ℕ) : Option (List ℕ) :=
  if validToken token then
    some (encodeUtf8 (encodeObject jsonEncoderEscape (order (updateTokenMembers capability token))))
  else none

/-- What `updateAccessTokenForRunningAgents` writes to an agent. -/
def macRequest (order : List (List ℕ × List ℕ) → List (List ℕ × List ℕ))
    (capability token : List ℕ) : Option (List ℕ) :=
  (agentControlPayload order capability token).map (· ++ [10])

/-- What `RequestAsync` writes for an `update_token`. -/
def windowsRequest (capability token : List ℕ) : List ℕ :=
  encodeUtf8 (encodeObject javaScriptEscape (updateTokenMembers capability token) ++ [10])

/-! ## Tokens and capabilities are ASCII -/

theorem validToken_iff {token : List ℕ} : validToken token = true ↔
    8 ≤ token.length ∧ token.length ≤ 8192 ∧ ∀ c ∈ token, 0x21 ≤ c ∧ c ≤ 0x7E := by
  have hgraphic : ∀ b, isAsciiGraphic b = true ↔ 0x21 ≤ b ∧ b ≤ 0x7E := fun b => decide_eq_true_iff
  unfold validToken minAccessTokenBytes maxAccessTokenBytes
  dsimp only
  rw [Bool.and_eq_true, decide_eq_true_iff, List.all_eq_true]
  simp only [hgraphic]
  constructor
  · rintro ⟨⟨hmin, hmax⟩, hbytes⟩
    have hascii := ascii_of_encodeUtf8 fun b hb => by have := hbytes b hb; omega
    rw [encodeUtf8_ascii hascii] at hmin hmax hbytes
    exact ⟨hmin, hmax, hbytes⟩
  · rintro ⟨hmin, hmax, htoken⟩
    rw [encodeUtf8_ascii fun c hc => by have := htoken c hc; omega]
    exact ⟨⟨hmin, hmax⟩, htoken⟩

/-- The characters of a capability. -/
def isCapabilityChar (c : ℕ) : Prop := 48 ≤ c ∧ c ≤ 57 ∨ 65 ≤ c ∧ c ≤ 70 ∨ 97 ≤ c ∧ c ≤ 102 ∨ c = 45

theorem mem_hexString {digit : ℕ → ℕ} (hdigit : ∀ v < 16, isCapabilityChar (digit v))
    (bytes : List UInt8) : ∀ c ∈ hexString digit bytes, isCapabilityChar c := by
  intro c hc
  obtain ⟨b, -, hc⟩ := List.mem_flatMap.mp hc
  have hb := b.toNat_lt
  simp only [List.mem_cons, List.not_mem_nil, or_false] at hc
  rcases hc with rfl | rfl
  · exact hdigit _ (by omega)
  · exact hdigit _ (by omega)

theorem length_hexString (digit : ℕ → ℕ) : ∀ bytes : List UInt8,
    (hexString digit bytes).length = 2 * bytes.length
  | [] => rfl
  | b :: bytes => by
    have ih := length_hexString digit bytes
    rw [hexString, List.flatMap_cons, List.length_append] at *
    simp only [List.length_cons, List.length_nil]
    omega

theorem hexUpper_char : ∀ v < 16, isCapabilityChar (hexUpper v) := by
  intro v hv
  unfold hexUpper isCapabilityChar
  split_ifs <;> omega

theorem hexDigit_char : ∀ v < 16, isCapabilityChar (hexDigit v) := by
  intro v hv
  unfold hexDigit isCapabilityChar
  split_ifs <;> omega

theorem uuidString_char (u : Uuid) : ∀ c ∈ u.uuidString, isCapabilityChar c := by
  intro c hc
  have hhex := fun bytes => mem_hexString hexUpper_char bytes c
  simp only [Uuid.uuidString, List.mem_append, List.mem_cons] at hc
  rcases hc with hc | rfl | hc | rfl | hc | rfl | hc | rfl | hc
  all_goals first | exact hhex _ hc | exact .inr (.inr (.inr rfl))

theorem length_uuidString (u : Uuid) : u.uuidString.length = 36 := by
  have hsize := u.size
  simp only [Uuid.uuidString, List.length_append, List.length_cons, length_hexString, List.length_take,
    List.length_drop]
  omega

theorem macCapability_spec (u v : Uuid) :
    (macCapability u v).length = 72 ∧ ∀ c ∈ macCapability u v, isCapabilityChar c := by
  refine ⟨by rw [macCapability, List.length_append, length_uuidString, length_uuidString], ?_⟩
  intro c hc
  rcases List.mem_append.mp hc with hc | hc
  · exact uuidString_char u c hc
  · exact uuidString_char v c hc

theorem windowsCapability_spec (r : RandomBytes) :
    (windowsCapability r).length = 64 ∧ ∀ c ∈ windowsCapability r, isCapabilityChar c := by
  refine ⟨?_, mem_hexString hexDigit_char _⟩
  rw [windowsCapability, length_hexString, r.size]

/-! ## What the encoders write is read -/

/-- The escape of each ASCII character is read as the character, and is printable. -/
structure Faithful (escape : ℕ → List ℕ) : Prop where
  reads : ∀ c, 0x20 ≤ c → c < 0x7F → Escapes (escape c) c
  printable : ∀ c, 0x20 ≤ c → c < 0x7F → ∀ b ∈ escape c, 0x20 ≤ b ∧ b < 0x7F
  plain : ∀ c, isCapabilityChar c ∨ 97 ≤ c ∧ c ≤ 122 ∨ c = 95 → escape c = [c]

theorem faithful_jsonEncoder : Faithful jsonEncoderEscape where
  reads c hc hc' := by
    unfold jsonEncoderEscape
    by_cases hspecial : c = 34 ∨ c = 92 ∨ c = 47
    · rw [if_pos hspecial]
      refine escapes_short ?_ (by omega)
      rw [unescape, if_pos (by omega)]
    · rw [if_neg hspecial]
      simp only [show c ≠ 8 by omega, show c ≠ 9 by omega, show c ≠ 10 by omega,
        show c ≠ 12 by omega, show c ≠ 13 by omega, show ¬ c < 32 by omega, if_false]
      exact escapes_self hc (by omega) (by omega)
  printable c hc hc' b hb := by
    unfold jsonEncoderEscape at hb
    simp only [show c ≠ 8 by omega, show c ≠ 9 by omega, show c ≠ 10 by omega,
      show c ≠ 12 by omega, show c ≠ 13 by omega, show ¬ c < 32 by omega, if_false] at hb
    split_ifs at hb
    · simp only [List.mem_cons, List.not_mem_nil, or_false] at hb
      omega
    · rw [List.mem_singleton] at hb
      omega
  plain c hc := by
    unfold isCapabilityChar at hc
    unfold jsonEncoderEscape
    rw [if_neg (by omega), if_neg (by omega), if_neg (by omega), if_neg (by omega), if_neg (by omega),
      if_neg (by omega), if_neg (by omega)]

/-- The characters that the default encoder of `JsonSerializer` writes as `\uXXXX`. -/
def sixfold : List ℕ := [34, 38, 39, 43, 60, 62, 96]

theorem javaScriptEscape_printable {c : ℕ} (hc : 0x20 ≤ c) (hc' : c < 0x7F) :
    javaScriptEscape c = if c = 92 then [92, 92] else if c ∈ sixfold then
      [92, 117, 48, 48, hexUpper (c / 16), hexUpper (c % 16)] else [c] := by
  unfold javaScriptEscape
  simp only [show c ≠ 8 by omega, show c ≠ 9 by omega, show c ≠ 10 by omega, show c ≠ 12 by omega,
    show c ≠ 13 by omega, show ¬ c < 32 by omega, show ¬ 127 ≤ c by omega, if_false, false_or, or_false,
    show c < 0x10000 by omega, if_true, show c / 4096 % 16 = 0 by omega,
    show c / 256 % 16 = 0 by omega, show c / 16 % 16 = c / 16 by omega]
  rfl

theorem hexVal_hexUpper {v : ℕ} (h : v < 16) : hexVal (hexUpper v) = some v := by
  unfold hexVal hexUpper
  by_cases hv : v < 10
  · rw [if_pos hv, if_pos (by omega), Nat.add_sub_cancel]
  · rw [if_neg hv, if_neg (by omega), if_neg (by omega), if_pos (by omega), Nat.add_sub_cancel]

theorem faithful_javaScript : Faithful javaScriptEscape where
  reads c hc hc' := by
    rw [javaScriptEscape_printable hc hc']
    split_ifs with hslash hsix
    · subst hslash
      exact escapes_short rfl (by decide)
    · refine escapes_hex ?_
      rw [hex4, hexVal_hexUpper (by omega), hexVal_hexUpper (by omega)]
      have hzero : hexVal 48 = some 0 := rfl
      rw [hzero]
      simp only [Option.some.injEq]
      omega
    · refine escapes_self hc (fun hquote => hsix ?_) hslash
      subst hquote
      decide
  printable c hc hc' b hb := by
    have hupper : ∀ v < 16, 0x20 ≤ hexUpper v ∧ hexUpper v < 0x7F := fun v hv => by
      unfold hexUpper
      split_ifs <;> omega
    rw [javaScriptEscape_printable hc hc'] at hb
    have hhigh := hupper (c / 16) (by omega)
    have hlow := hupper (c % 16) (by omega)
    split_ifs at hb
    all_goals
      simp only [List.mem_cons, List.not_mem_nil, or_false] at hb
      omega
  plain c hc := by
    unfold isCapabilityChar at hc
    rw [javaScriptEscape_printable (by omega) (by omega), if_neg (by omega), if_neg]
    simp only [sixfold, List.mem_cons, List.not_mem_nil, or_false]
    omega

/-- What a client writes before the newline: the members in some order. -/
structure Encoded (escape : ℕ → List ℕ) (capability token payload : List ℕ) : Prop where
  faithful : Faithful escape
  capabilityChars : ∀ c ∈ capability, isCapabilityChar c
  tokenChars : ∀ c ∈ token, 0x21 ≤ c ∧ c ≤ 0x7E
  members : ∃ members, members.Perm (updateTokenMembers capability token) ∧
    payload = encodeUtf8 (encodeObject escape members)

section

variable {escape : ℕ → List ℕ} {capability token payload : List ℕ}

theorem flatMap_plain {t : List ℕ} (h : ∀ c ∈ t, escape c = [c]) : t.flatMap escape = t := by
  induction t with
  | nil => rfl
  | cons c t ih =>
    rw [List.flatMap_cons, h c List.mem_cons_self, ih fun d hd => h d (List.mem_cons_of_mem c hd)]
    rfl

theorem printable_members (hcap : ∀ c ∈ capability, isCapabilityChar c)
    (htoken : ∀ c ∈ token, 0x21 ≤ c ∧ c ≤ 0x7E) :
    ∀ m ∈ updateTokenMembers capability token, ∀ c ∈ m.1 ++ m.2, 0x20 ≤ c ∧ c < 0x7F := by
  have hfirst : ∀ c ∈ text "capability", 0x20 ≤ c ∧ c < 0x7F := by decide
  have hsecond : ∀ c ∈ text "command" ++ text "update_token", 0x20 ≤ c ∧ c < 0x7F := by decide
  have hthird : ∀ c ∈ text "native_access_token", 0x20 ≤ c ∧ c < 0x7F := by decide
  intro m hm c hc
  simp only [updateTokenMembers, List.mem_cons, List.not_mem_nil, or_false] at hm
  rcases hm with rfl | rfl | rfl
  · rcases List.mem_append.mp hc with hc | hc
    · exact hfirst c hc
    · have := hcap c hc
      unfold isCapabilityChar at this
      omega
  · exact hsecond c hc
  · rcases List.mem_append.mp hc with hc | hc
    · exact hthird c hc
    · have := htoken c hc
      omega

theorem mem_entryText {c : ℕ} {e : List ℕ × List ℕ} (h : c ∈ entryText e) :
    c ∈ [34, 44, 58] ∨ c ∈ e.1 ∨ c ∈ e.2 := by
  simp only [entryText, List.mem_cons, List.mem_append] at h
  rcases h with rfl | h | rfl | rfl | h
  · exact .inl (by decide)
  · exact .inr (.inl h)
  · exact .inl (by decide)
  · exact .inl (by decide)
  · exact .inr (.inr h)

theorem mem_entriesText {c : ℕ} : ∀ {es : List (List ℕ × List ℕ)}, c ∈ entriesText es →
    c ∈ [34, 44, 58] ∨ ∃ e ∈ es, c ∈ e.1 ∨ c ∈ e.2
  | [], h => absurd h List.not_mem_nil
  | [e], h => (mem_entryText h).imp_right fun h => ⟨e, List.mem_cons_self, h⟩
  | e :: f :: es, h => by
    rw [entriesText, List.mem_append, List.mem_cons] at h
    rcases h with h | rfl | h
    · exact (mem_entryText h).imp_right fun h => ⟨e, List.mem_cons_self, h⟩
    · exact .inl (by decide)
    · refine (mem_entriesText h).imp_right ?_
      rintro ⟨g, hg, h⟩
      exact ⟨g, List.mem_cons_of_mem e hg, h⟩

/-- The text of a request is printable. -/
theorem encodeObject_printable (hescape : Faithful escape) {members : List (List ℕ × List ℕ)}
    (h : ∀ m ∈ members, ∀ c ∈ m.1 ++ m.2, 0x20 ≤ c ∧ c < 0x7F) :
    ∀ b ∈ encodeObject escape members, 0x20 ≤ b ∧ b < 0x7F := by
  have hflat : ∀ t : List ℕ, (∀ c ∈ t, 0x20 ≤ c ∧ c < 0x7F) → ∀ b ∈ t.flatMap escape,
      0x20 ≤ b ∧ b < 0x7F := by
    intro t ht b hb
    obtain ⟨c, hc, hb⟩ := List.mem_flatMap.mp hb
    exact hescape.printable c (ht c hc).1 (ht c hc).2 b hb
  intro b hb
  rw [encodeObject, List.mem_cons, List.mem_append, List.mem_singleton] at hb
  rcases hb with rfl | hb | rfl
  · decide
  · rcases mem_entriesText hb with hb | ⟨e, he, hb⟩
    · simp only [List.mem_cons, List.not_mem_nil, or_false] at hb
      omega
    · obtain ⟨m, hm, rfl⟩ := List.mem_map.mp he
      have hkey := hflat m.1 (fun c hc => h m hm c (List.mem_append_left _ hc)) b
      have hvalue := hflat m.2 (fun c hc => h m hm c (List.mem_append_right _ hc)) b
      simp only [List.mem_cons, List.mem_append, List.not_mem_nil, or_false] at hb
      rcases hb with hb | rfl | hb | rfl
      · exact hkey hb
      · decide
      · exact hvalue hb
      · decide
  · decide

theorem Encoded.printable (h : Encoded escape capability token payload) :
    ∀ b ∈ payload, 0x20 ≤ b ∧ b < 0x7F := by
  obtain ⟨members, hperm, rfl⟩ := h.members
  have hprintable := encodeObject_printable h.faithful fun m hm =>
    printable_members h.capabilityChars h.tokenChars m (hperm.mem_iff.mp hm)
  rw [encodeUtf8_ascii fun b hb => by have := hprintable b hb; omega]
  exact hprintable

/-- A text of ASCII is its own encoding. -/
theorem Encoded.payload_eq (h : Encoded escape capability token payload) :
    ∃ members, members.Perm (updateTokenMembers capability token) ∧
      payload = encodeObject escape members := by
  obtain ⟨members, hperm, hpayload⟩ := h.members
  have hprintable := encodeObject_printable h.faithful fun m hm =>
    printable_members h.capabilityChars h.tokenChars m (hperm.mem_iff.mp hm)
  refine ⟨members, hperm, hpayload.trans (encodeUtf8_ascii fun b hb => ?_)⟩
  have := hprintable b hb
  omega

theorem length_entriesText : ∀ {es : List (List ℕ × List ℕ)}, es ≠ [] →
    (entriesText es).length + 1 = (es.map fun e => e.1.length + e.2.length + 4).sum
  | [e], _ => by
    simp only [entriesText, entryText, List.length_cons, List.length_append, List.map_cons,
      List.map_nil, List.sum_cons, List.sum_nil]
    omega
  | e :: f :: es, _ => by
    have ih := length_entriesText (List.cons_ne_nil f es)
    rw [List.map_cons, List.sum_cons, ← ih]
    simp only [entriesText, entryText, List.length_cons, List.length_append]
    omega

/-- How long a request is. -/
theorem Encoded.length (h : Encoded escape capability token payload) :
    payload.length = 67 + capability.length + (token.flatMap escape).length := by
  obtain ⟨members, hperm, rfl⟩ := h.payload_eq
  have hname : ∀ c ∈ text "capability" ++ (text "command" ++ (text "update_token" ++
      text "native_access_token")), 97 ≤ c ∧ c ≤ 122 ∨ c = 95 := by decide
  have hself : ∀ t : List ℕ, (∀ c ∈ t, c ∈ text "capability" ++ (text "command" ++ (text "update_token" ++
      text "native_access_token"))) → t.flatMap escape = t := fun t ht =>
    flatMap_plain fun c hc => h.faithful.plain c (.inr (hname c (ht c hc)))
  have hcapability : capability.flatMap escape = capability :=
    flatMap_plain fun c hc => h.faithful.plain c (.inl (h.capabilityChars c hc))
  have hne : (members.map fun m =>
      (m.1.flatMap escape, 34 :: (m.2.flatMap escape ++ [34]))) ≠ [] := by
    intro hnil
    have hlength := hperm.length_eq
    rw [List.map_eq_nil_iff.mp hnil] at hlength
    simp [updateTokenMembers] at hlength
  have hsum := length_entriesText hne
  rw [((hperm.map _).map _).sum_eq] at hsum
  simp only [updateTokenMembers, List.map_cons, List.map_nil, List.sum_cons, List.sum_nil,
    List.length_cons, List.length_append, List.length_nil, hcapability,
    hself (text "capability") (by simp +contextual), hself (text "command") (by simp +contextual),
    hself (text "update_token") (by simp +contextual),
    hself (text "native_access_token") (by simp +contextual)] at hsum
  have h1 : (text "capability").length = 10 := rfl
  have h2 : (text "command").length = 7 := rfl
  have h3 : (text "update_token").length = 12 := rfl
  have h4 : (text "native_access_token").length = 19 := rfl
  simp only [encodeObject, List.length_cons, List.length_append, List.length_nil]
  omega

theorem asString_ascii {t : List ℕ} (h : ∀ c ∈ t, c < 0x7F) : asString (.str t) = some t := by
  rw [asString, if_pos]
  rw [List.all_eq_true]
  intro c hc
  have := h c hc
  have hhigh : isHigh c = false := by rw [Bool.eq_false_iff, ne_eq, isHigh_iff]; omega
  have hlow : isLow c = false := by rw [Bool.eq_false_iff, ne_eq, isLow_iff]; omega
  rw [hhigh, hlow]
  rfl

/-- The members may come in any order. -/
theorem asRequest_members (hcap : ∀ c ∈ capability, isCapabilityChar c)
    (htoken : ∀ c ∈ token, 0x21 ≤ c ∧ c ≤ 0x7E) {members : List (List ℕ × List ℕ)}
    (hperm : members.Perm (updateTokenMembers capability token)) :
    asRequest (.obj (members.map fun m => (m.1, Value.str m.2))) =
      some ⟨capability, .updateToken, some token⟩ := by
  have hfields := hperm.map fun m => (m.1, Value.str m.2)
  have hnodup : ((members.map fun m => (m.1, Value.str m.2)).map Prod.fst).Nodup :=
    (hfields.map Prod.fst).nodup_iff.mpr
      (by simp only [updateTokenMembers, List.map_cons, List.map_nil]; decide)
  have hknown : ∀ f ∈ members.map fun m => (m.1, Value.str m.2), f.1 ∈ fieldNames := by
    intro f hf
    have hf := List.mem_map_of_mem (f := Prod.fst) (hfields.mem_iff.mp hf)
    simpa [updateTokenMembers, fieldNames] using hf
  have hget := fun f hf => get_of_mem hnodup (f := f) (hfields.mem_iff.mpr hf)
  have hread := asString_ascii fun c hc => by
    have := hcap c hc
    unfold isCapabilityChar at this
    omega
  have hread' := asString_ascii fun c hc => by
    have := htoken c hc
    omega
  have hcommand : asVariant (text "update_token") = some .updateToken := by decide
  rw [asRequest, if_pos ⟨hknown, hnodup⟩,
    hget (text "capability", .str capability) (by simp [updateTokenMembers]),
    hget (text "command", .str (text "update_token")) (by simp [updateTokenMembers]),
    hget (text "native_access_token", .str token) (by simp [updateTokenMembers])]
  simp only [ofFields, Option.bind_some, hread, asCommand, hcommand, Option.elim_some, asOption,
    hread', Option.map_some, Option.bind_eq_bind, Option.pure_def]

/-- **The agent reads the request that the client meant.** -/
theorem Encoded.fromSlice (h : Encoded escape capability token payload) :
    fromSlice (payload ++ [10]) = .ok ⟨capability, .updateToken, some token⟩ := by
  have hprintable := h.printable
  obtain ⟨members, hperm, rfl⟩ := h.payload_eq
  have hmembers := fun m hm =>
    printable_members h.capabilityChars h.tokenChars m (hperm.mem_iff.mp hm)
  have hquoted : ∀ t : List ℕ, (∀ c ∈ t, 0x20 ≤ c ∧ c < 0x7F) → Quoted (t.flatMap escape) t :=
    fun t ht => quoted_flatMap (fun c hc => h.faithful.reads c (ht c hc).1 (ht c hc).2)
      fun c hc hhigh => by have := ht c hc; rw [isHigh_iff] at hhigh; omega
  have hstands : List.Forall₂ (Stands (scanOnce requestHooks 127))
      (members.map fun m => (m.1.flatMap escape, 34 :: (m.2.flatMap escape ++ [34])))
      (members.map fun m => (m.1, Value.str m.2)) := by
    rw [List.forall₂_map_left_iff, List.forall₂_map_right_iff, List.forall₂_same]
    exact fun m hm => ⟨hquoted m.1 fun c hc => hmembers m hm c (List.mem_append_left _ hc),
      written_str _ (hquoted m.2 fun c hc => hmembers m hm c (List.mem_append_right _ hc))⟩
  have hne : (members.map fun m =>
      (m.1.flatMap escape, 34 :: (m.2.flatMap escape ++ [34]))) ≠ [] := by
    intro hnil
    have hlength := hperm.length_eq
    rw [List.map_eq_nil_iff.mp hnil] at hlength
    simp [updateTokenMembers] at hlength
  have hdecode := decode_entries hstands hne [10] rfl
  have hbytes : ∀ b ∈ encodeObject escape members ++ [10], b < 0x80 := by
    intro b hb
    rcases List.mem_append.mp hb with hb | hb
    · have := hprintable b hb
      omega
    · rw [List.mem_singleton.mp hb]
      decide
  have htext : encodeObject escape members ++ [10] = 123 :: (entriesText (members.map fun m =>
      (m.1.flatMap escape, 34 :: (m.2.flatMap escape ++ [34]))) ++ 125 :: [10]) := by
    simp [encodeObject]
  have hrequest := asRequest_members h.capabilityChars h.tokenChars hperm
  rw [TokenUpdate.fromSlice, utf8_ascii hbytes, Option.bind_some, htext]
  have hdepth : requestDepth = 127 + 1 := rfl
  rw [hdepth, hdecode]
  simp only [requestHooks, hrequest]

/-! ## Delivery -/

/-- **A request is taken exactly if it fits.** -/
theorem Encoded.handled_iff (h : Encoded escape capability token payload)
    (htoken : validToken token = true) {endpoint : Endpoint} (hend : endpoint.capability = capability)
    {stream : List (Option (List ℕ))} {more : List ℕ} (hstream : arriving stream = payload ++ 10 :: more)
    (central : CentralClient) (metrics : TrackerState) (now : ℤ) :
    handleControl endpoint central metrics now stream =
        .ok ⟨.updated, ⟨token, (central.tokenGeneration + 1) % 2 ^ 64⟩, false⟩ ↔
      67 + capability.length + (token.flatMap escape).length < maxControlRequestBytes := by
  have hline : 10 ∉ payload := fun hmem => by
    have := h.printable 10 hmem
    omega
  have hread := readUntil_line (n := maxControlRequestBytes + 1) hstream hline
  have hlength := h.length
  by_cases hfits : payload.length < maxControlRequestBytes
  · have hwhole : (payload ++ [10]).take (maxControlRequestBytes + 1) = payload ++ [10] :=
      List.take_of_length_le (by rw [List.length_append, List.length_singleton]; omega)
    rw [hwhole] at hread
    have hrequest : readRequest stream = .ok ⟨capability, .updateToken, some token⟩ := by
      rw [readRequest, hread]
      have hsize : ¬ ((payload ++ [10]).length = 0 ∨
          maxControlRequestBytes < (payload ++ [10]).length ∨
          (payload ++ [10]).getLast? ≠ some 10) := by
        rw [List.length_append, List.length_singleton, List.getLast?_concat]
        rintro (hsize | hsize | hsize)
        · omega
        · omega
        · exact hsize rfl
      dsimp only
      rw [if_neg hsize, h.fromSlice]
    have hauthorize : authorize ⟨capability, .updateToken, some token⟩ endpoint.capability = true := by
      rw [authorize, hend]
      exact beq_self_eq_true _
    have hvalid : validateNativeAccessToken token = .ok () := by
      rw [validateNativeAccessToken, if_pos htoken]
    have hhandled : handleControl endpoint central metrics now stream =
        .ok ⟨.updated, ⟨token, (central.tokenGeneration + 1) % 2 ^ 64⟩, false⟩ := by
      simp only [handleControl, hrequest, bind, Except.bind, hauthorize, if_true,
        ControlRequest.validate, ControlRequest.validatedUpdateToken, hvalid,
        CentralClient.updateToken, pure, Except.pure]
    exact ⟨fun _ => by omega, fun _ => hhandled⟩
  · have hlong : maxControlRequestBytes < ((payload ++ [10]).take (maxControlRequestBytes + 1)).length := by
      rw [List.length_take, List.length_append, List.length_singleton]
      omega
    have hrefused : handleControl endpoint central metrics now stream =
        .error (.bail "invalid control request size") := by
      have hrequest : readRequest stream = .error (.bail "invalid control request size") := by
        rw [readRequest, hread]
        dsimp only
        rw [if_pos (.inr (.inl hlong))]
      simp only [handleControl, hrequest, bind, Except.bind]
    rw [hrefused]
    exact ⟨fun hok => (by cases hok), fun _ => by omega⟩

end

/-! ## Which tokens can be delivered -/

/-- The characters that `JSONEncoder` writes in two bytes. -/
def doubled : List ℕ := [34, 92, 47]

theorem length_flatMap_jsonEncoder : ∀ {token : List ℕ}, (∀ c ∈ token, 0x21 ≤ c ∧ c ≤ 0x7E) →
    (token.flatMap jsonEncoderEscape).length = token.length + token.countP (· ∈ doubled)
  | [], _ => rfl
  | c :: token, h => by
    obtain ⟨hc, htoken⟩ := List.forall_mem_cons.mp h
    have ih := length_flatMap_jsonEncoder htoken
    have hescape : (jsonEncoderEscape c).length = if c ∈ doubled then 2 else 1 := by
      simp only [jsonEncoderEscape, doubled, List.mem_cons, List.not_mem_nil, or_false,
        show c ≠ 8 by omega, show c ≠ 9 by omega, show c ≠ 10 by omega, show c ≠ 12 by omega,
        show c ≠ 13 by omega, show ¬ c < 32 by omega, if_false]
      split_ifs <;> rfl
    rw [List.flatMap_cons, List.length_append, hescape, ih, List.length_cons, List.countP_cons]
    by_cases hmem : c ∈ doubled
    · rw [if_pos hmem, if_pos (decide_eq_true hmem)]
      omega
    · rw [if_neg hmem, if_neg (by simpa using hmem)]
      omega

theorem length_flatMap_javaScript : ∀ {token : List ℕ}, (∀ c ∈ token, 0x21 ≤ c ∧ c ≤ 0x7E) →
    (token.flatMap javaScriptEscape).length =
      token.length + 5 * token.countP (· ∈ sixfold) + token.count 92
  | [], _ => rfl
  | c :: token, h => by
    obtain ⟨hc, htoken⟩ := List.forall_mem_cons.mp h
    have ih := length_flatMap_javaScript htoken
    rw [List.flatMap_cons, List.length_append, ih, List.length_cons, List.countP_cons,
      List.count_cons, javaScriptEscape_printable (by omega) (by omega)]
    by_cases hslash : c = 92
    · subst hslash
      have hsix : ¬ 92 ∈ sixfold := by decide
      simp only [if_true, hsix, decide_false, Bool.false_eq_true, if_false, beq_self_eq_true,
        List.length_cons, List.length_nil]
      omega
    · have hcount : ¬ (c == 92) = true := by simpa using hslash
      by_cases hsix : c ∈ sixfold
      · rw [if_neg hslash, if_neg hcount, if_pos hsix, if_pos (decide_eq_true hsix)]
        simp only [List.length_cons, List.length_nil]
        omega
      · rw [if_neg hslash, if_neg hcount, if_neg hsix, if_neg (by simpa using hsix),
          List.length_singleton]
        omega

/-- The agent with this capability applies the token, in any state and under any split of the request
into reads. -/
def Accepted (capability token request : List ℕ) : Prop :=
  ∀ (endpoint : Endpoint) (central : CentralClient) (metrics : TrackerState) (now : ℤ)
    (stream : List (Option (List ℕ))) (more : List ℕ), endpoint.capability = capability →
      arriving stream = request ++ more →
        handleControl endpoint central metrics now stream =
          .ok ⟨.updated, ⟨token, (central.tokenGeneration + 1) % 2 ^ 64⟩, false⟩

theorem Encoded.accepted_iff {escape : ℕ → List ℕ} {capability token payload : List ℕ}
    (h : Encoded escape capability token payload) (htoken : validToken token = true) :
    Accepted capability token (payload ++ [10]) ↔
      67 + capability.length + (token.flatMap escape).length < maxControlRequestBytes := by
  constructor
  · intro haccepted
    have hstream : arriving [some (payload ++ [10])] = payload ++ 10 :: [] := by
      rw [arriving, if_neg (by simp)]
      simp [arriving]
    exact (h.handled_iff htoken (rfl : (⟨capability, 0, 0, ""⟩ : Endpoint).capability = capability) hstream ⟨[], 0⟩ .default 0).mp
      (haccepted _ _ _ _ _ [] rfl (by simpa using hstream))
  · intro hfits endpoint central metrics now stream more hend hstream
    rw [List.append_assoc, List.singleton_append] at hstream
    exact (h.handled_iff htoken hend hstream central metrics now).mpr hfits

theorem macRequest_encoded {order : List (List ℕ × List ℕ) → List (List ℕ × List ℕ)}
    (horder : ∀ members, (order members).Perm members) {token : List ℕ} (htoken : validToken token = true)
    (u v : Uuid) : ∃ payload, macRequest order (macCapability u v) token = some (payload ++ [10]) ∧
      Encoded jsonEncoderEscape (macCapability u v) token payload := by
  refine ⟨encodeUtf8 (encodeObject jsonEncoderEscape
    (order (updateTokenMembers (macCapability u v) token))), ?_, ?_⟩
  · rw [macRequest, agentControlPayload, if_pos htoken, Option.map_some]
  · exact ⟨faithful_jsonEncoder, (macCapability_spec u v).2, (validToken_iff.mp htoken).2.2,
      _, horder _, rfl⟩

theorem windowsRequest_encoded {token : List ℕ} (htoken : validToken token = true) (r : RandomBytes) :
    ∃ payload, windowsRequest (windowsCapability r) token = payload ++ [10] ∧
      Encoded javaScriptEscape (windowsCapability r) token payload := by
  refine ⟨encodeUtf8 (encodeObject javaScriptEscape (updateTokenMembers (windowsCapability r) token)),
    ?_, ?_⟩
  · rw [windowsRequest, encodeUtf8, List.flatMap_append]
    rfl
  · exact ⟨faithful_javaScript, (windowsCapability_spec r).2, (validToken_iff.mp htoken).2.2,
      _, .refl _, rfl⟩

theorem mac_accepted_iff {order : List (List ℕ × List ℕ) → List (List ℕ × List ℕ)}
    (horder : ∀ members, (order members).Perm members) {token : List ℕ} (htoken : validToken token = true)
    (u v : Uuid) : (∃ request, macRequest order (macCapability u v) token = some request ∧
        Accepted (macCapability u v) token request) ↔
      token.length + token.countP (· ∈ doubled) ≤ 16244 := by
  obtain ⟨payload, hrequest, hencoded⟩ := macRequest_encoded horder htoken u v
  have hlength := length_flatMap_jsonEncoder (validToken_iff.mp htoken).2.2
  have hiff := hencoded.accepted_iff htoken
  rw [hlength, (macCapability_spec u v).1, maxControlRequestBytes] at hiff
  constructor
  · rintro ⟨request, hsome, haccepted⟩
    obtain rfl := Option.some.inj (hsome.symm.trans hrequest)
    have := hiff.mp haccepted
    omega
  · exact fun hfits => ⟨_, hrequest, hiff.mpr (by omega)⟩

theorem windows_accepted_iff {token : List ℕ} (htoken : validToken token = true) (r : RandomBytes) :
    Accepted (windowsCapability r) token (windowsRequest (windowsCapability r) token) ↔
      token.length + 5 * token.countP (· ∈ sixfold) + token.count 92 ≤ 16252 := by
  obtain ⟨payload, hrequest, hencoded⟩ := windowsRequest_encoded htoken r
  have hlength := length_flatMap_javaScript (validToken_iff.mp htoken).2.2
  have hiff := hencoded.accepted_iff htoken
  rw [hlength, (windowsCapability_spec r).1, maxControlRequestBytes] at hiff
  rw [hrequest, hiff]
  omega

/-- **Delivery.** A valid token reaches the agent from macOS exactly if its bytes and its quotes,
backslashes and slashes are at most 16244 together, and from Windows exactly if its bytes, five times the
characters that become `\uXXXX`, and its backslashes are at most 16252. -/
theorem delivered_iff (order : List (List ℕ × List ℕ) → List (List ℕ × List ℕ))
    (horder : ∀ members, (order members).Perm members) (token : List ℕ)
    (htoken : validateNativeAccessToken token = .ok ()) :
    ((∀ u v, ∃ request, macRequest order (macCapability u v) token = some request ∧
        Accepted (macCapability u v) token request) ↔
      token.length + token.countP (· ∈ doubled) ≤ 16244) ∧
    ((∀ r, Accepted (windowsCapability r) token (windowsRequest (windowsCapability r) token)) ↔
      token.length + 5 * token.countP (· ∈ sixfold) + token.count 92 ≤ 16252) := by
  have hvalid : validToken token = true := by
    by_contra hinvalid
    rw [validateNativeAccessToken, if_neg hinvalid] at htoken
    cases htoken
  refine ⟨⟨fun h => ?_, fun h u v => (mac_accepted_iff horder hvalid u v).mpr h⟩,
    ⟨fun h => ?_, fun h r => (windows_accepted_iff hvalid r).mpr h⟩⟩
  · let zero : Uuid := ⟨List.replicate 16 0, List.length_replicate⟩
    exact (mac_accepted_iff horder hvalid zero zero).mp (h zero zero)
  · exact (windows_accepted_iff hvalid ⟨List.replicate 32 0, List.length_replicate⟩).mp (h _)

theorem validToken_replicate {c : ℕ} (h : 0x21 ≤ c ∧ c ≤ 0x7E) :
    validToken (List.replicate 8192 c) = true := by
  rw [validToken_iff, List.length_replicate]
  refine ⟨by decide, le_rfl, fun d hd => ?_⟩
  rwa [List.eq_of_mem_replicate hd]

/-- A token of letters fits whatever its length. -/
theorem delivered_of_letters :
    (∀ u v, ∃ request, macRequest id (macCapability u v) (List.replicate 8192 97) = some request ∧
        Accepted (macCapability u v) (List.replicate 8192 97) request) ∧
    ∀ r, Accepted (windowsCapability r) (List.replicate 8192 97)
      (windowsRequest (windowsCapability r) (List.replicate 8192 97)) := by
  have hvalid := validToken_replicate (c := 97) (by decide)
  have hiff := delivered_iff id (fun _ => .refl _) (List.replicate 8192 97)
    (by rw [validateNativeAccessToken, if_pos hvalid])
  refine ⟨hiff.1.mpr ?_, hiff.2.mpr ?_⟩
  · rw [List.countP_replicate, List.length_replicate]
    decide
  · rw [List.countP_replicate, List.count_replicate, List.length_replicate]
    decide

/-- A valid token of quotes fits from neither client. -/
theorem quotes_not_delivered :
    validateNativeAccessToken (List.replicate 8192 34) = .ok () ∧
    (∀ u v, ¬ ∃ request, macRequest id (macCapability u v) (List.replicate 8192 34) = some request ∧
      Accepted (macCapability u v) (List.replicate 8192 34) request) ∧
    ∀ r, ¬ Accepted (windowsCapability r) (List.replicate 8192 34)
      (windowsRequest (windowsCapability r) (List.replicate 8192 34)) := by
  have hvalid := validToken_replicate (c := 34) (by decide)
  refine ⟨by rw [validateNativeAccessToken, if_pos hvalid], fun u v h => ?_, fun r h => ?_⟩
  · have := (mac_accepted_iff (fun _ => .refl _) hvalid u v).mp h
    rw [List.countP_replicate, List.length_replicate] at this
    revert this
    decide
  · have := (windows_accepted_iff hvalid r).mp h
    rw [List.countP_replicate, List.count_replicate, List.length_replicate] at this
    revert this
    decide

end IdenGrid.Agent.TokenUpdate
