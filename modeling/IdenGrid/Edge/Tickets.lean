import Mathlib.Data.List.TakeWhile
import IdenGrid.Lib.Base64
import IdenGrid.Lib.Json

/-! # The Edge: verification of capability tickets

`TicketVerifier.verify`, cut where it reads the clock: `authenticate` is all that does not depend
on the time (form, signature, claims, node and port), `checkTimes` the rest. Texts are lists of code
points, the secret and the digests lists of bytes.

`hmac` is HMAC-SHA256 and `depth` the nesting of containers at which the interpreter's JSON decoder
gives up with a `RecursionError`, which `verify` does not catch. -/

namespace IdenGrid.Edge.Tickets

open IdenGrid.Lib.Unicode IdenGrid.Lib.Json

structure Ticket where
  node : List ℕ
  store : List ℕ
  host : List ℕ
  port : ℤ
  issuedAt : ℤ
  expiresAt : ℤ
  jti : List ℕ
  deriving DecidableEq, Repr

/-- `TicketError` with its message, or the `RecursionError` of the decoder. -/
inductive Err
  | ticket (message : String)
  | recursion
  deriving DecidableEq, Repr

structure TicketVerifier where
  secret : List ℕ
  nodeId : List ℕ
  maxTtl : ℤ := 60
  futureSkew : ℤ := 5
  deriving DecidableEq, Repr

/-- `token.split(".")` into two parts. -/
def splitToken (token : List ℕ) : Option (List ℕ × List ℕ) :=
  match token.dropWhile (· != 46) with
  | _ :: signature =>
    if 46 ∈ signature then none else some (token.takeWhile (· != 46), signature)
  | [] => none

/-- A split token is its two parts with a dot in between. -/
theorem splitToken_eq_some {token encoded signature : List ℕ}
    (h : splitToken token = some (encoded, signature)) :
    token = encoded ++ 46 :: signature ∧ 46 ∉ encoded ∧ 46 ∉ signature := by
  unfold splitToken at h
  split at h
  · next c rest hdrop =>
    split_ifs at h with hdot
    obtain ⟨rfl, rfl⟩ := Prod.mk.inj (Option.some.inj h)
    have hc : c = 46 := by
      have hhead := List.head?_dropWhile_not (· != 46) token
      simpa [hdrop] using hhead
    refine ⟨?_, fun hmem => ?_, hdot⟩
    · rw [hc] at hdrop
      rw [← hdrop]
      exact List.takeWhile_append_dropWhile.symm
    · have := List.mem_takeWhile_imp hmem
      simp at this
  · simp at h

/-- `payload["v"] != 1` is false: `True` and `1.0` are equal to `1`. -/
def isOne : Value → Bool
  | .int n => n == 1
  | .bool b => b
  | .float x => x == .finite 1
  | _ => false

/-- The claims a ticket must have. -/
def required : List String := ["v", "node", "store", "host", "port", "iat", "exp", "jti"]

/-- A string claim must not be empty. -/
def nonEmpty (name : String) (t : List ℕ) : Except Err (List ℕ) :=
  if t = [] then .error (.ticket ("invalid ticket " ++ name)) else .ok t

/-- A claim that must be a non-empty string. -/
def stringClaim (fields : List (List ℕ × Value)) (name : String) : Except Err (List ℕ) :=
  match get fields (text name) with
  | some (.str t) => nonEmpty name t
  | _ => .error (.ticket ("invalid ticket " ++ name))

/-- A claim that must be an integer and no Boolean. -/
def intClaim (fields : List (List ℕ × Value)) (name : String) : Except Err ℤ :=
  match get fields (text name) with
  | some (.int n) => .ok n
  | _ => .error (.ticket ("invalid ticket " ++ name))

/-- The checks on the decoded payload that need neither the node nor the clock. -/
def claims (payload : Value) : Except Err Ticket :=
  match payload with
  | .obj fields =>
    if required.any fun name => (get fields (text name)).isNone then
      .error (.ticket "malformed ticket claims")
    else if ((get fields (text "v")).map isOne).getD false = false then
      .error (.ticket "unsupported ticket version")
    else do
      let node ← stringClaim fields "node"
      let store ← stringClaim fields "store"
      let host ← stringClaim fields "host"
      let jti ← stringClaim fields "jti"
      let port ← intClaim fields "port"
      let iat ← intClaim fields "iat"
      let exp ← intClaim fields "exp"
      pure ⟨node, store, host, port, iat, exp, jti⟩
  | _ => .error (.ticket "malformed ticket claims")

section Verify

variable (hmac : List ℕ → List ℕ → List ℕ) (depth : ℕ) (V : TicketVerifier)

/-- The two parts of the token, decoded: the signed text, the signature and the payload. -/
def parse (token : List ℕ) : Except Err (List ℕ × List ℕ × Value) :=
  match splitToken token with
  | none => .error (.ticket "malformed ticket")
  | some (encoded, supplied) =>
    match Lib.Base64.decode encoded, Lib.Base64.decode supplied with
    | some raw, some signature =>
      match loads depth raw with
      | .ok payload => .ok (encoded, signature, payload)
      | .error .value => .error (.ticket "malformed ticket")
      | .error .recursion => .error .recursion
    | _, _ => .error (.ticket "malformed ticket")

/-- `verify` up to its reading of the clock. -/
def authenticate (token : List ℕ) : Except Err Ticket :=
  match parse depth token with
  | .error e => .error e
  | .ok (encoded, signature, payload) =>
    if signature ≠ hmac V.secret encoded then .error (.ticket "invalid ticket signature")
    else
      match claims payload with
      | .error e => .error e
      | .ok ticket =>
        if ticket.node ≠ V.nodeId then .error (.ticket "ticket is for wrong node")
        else if ticket.port ≠ 80 ∧ ticket.port ≠ 443 then .error (.ticket "invalid ticket port")
        else .ok ticket

/-- `verify` from its reading of the clock on. -/
def checkTimes (ticket : Ticket) (now : ℤ) : Except Err Ticket :=
  if ticket.expiresAt ≤ now then .error (.ticket "ticket expired")
  else if now + V.futureSkew < ticket.issuedAt then .error (.ticket "ticket issued in future")
  else if ticket.expiresAt - ticket.issuedAt ≤ 0 ∨
      V.maxTtl < ticket.expiresAt - ticket.issuedAt then
    .error (.ticket "ticket lifetime exceeds limit")
  else .ok ticket

/-- `TicketVerifier.verify` with the clock at `now`. -/
def verify (token : List ℕ) (now : ℤ) : Except Err Ticket :=
  match authenticate hmac depth V token with
  | .error e => .error e
  | .ok ticket => checkTimes V ticket now

variable {hmac depth V}

theorem checkTimes_eq_ok {ticket ticket' : Ticket} {now : ℤ} :
    checkTimes V ticket now = .ok ticket' ↔
      ticket' = ticket ∧ now < ticket.expiresAt ∧ ticket.issuedAt ≤ now + V.futureSkew ∧
        0 < ticket.expiresAt - ticket.issuedAt ∧
        ticket.expiresAt - ticket.issuedAt ≤ V.maxTtl := by
  unfold checkTimes
  split_ifs with h1 h2 h3
  · simp only [false_iff, not_and]; intro _ h; omega
  · simp only [false_iff, not_and]; intro _ _ h; omega
  · simp only [false_iff, not_and]; intro _ _ _ h h'; omega
  · constructor
    · intro h
      exact ⟨(Except.ok.inj h).symm, by omega, by omega, by omega, by omega⟩
    · rintro ⟨rfl, -⟩; rfl

/-- **What `verify` accepts**: authentic tickets within their time window. -/
theorem verify_eq_ok {token : List ℕ} {now : ℤ} {ticket : Ticket} :
    verify hmac depth V token now = .ok ticket ↔
      authenticate hmac depth V token = .ok ticket ∧ now < ticket.expiresAt ∧
        ticket.issuedAt ≤ now + V.futureSkew ∧ 0 < ticket.expiresAt - ticket.issuedAt ∧
        ticket.expiresAt - ticket.issuedAt ≤ V.maxTtl := by
  unfold verify
  rcases ha : authenticate hmac depth V token with e | t
  · simp
  · simp only [checkTimes_eq_ok, Except.ok.injEq]
    constructor
    · rintro ⟨rfl, h⟩; exact ⟨rfl, h⟩
    · rintro ⟨rfl, h⟩; exact ⟨rfl, h⟩

/-- **What an authentic token is**: its signature is the digest of its first part under the
verifier's secret, and the ticket is what the first part says, for this node. -/
theorem authenticate_eq_ok {token : List ℕ} {ticket : Ticket}
    (h : authenticate hmac depth V token = .ok ticket) :
    ∃ encoded signature raw payload, splitToken token = some (encoded, signature) ∧
      Lib.Base64.decode signature = some (hmac V.secret encoded) ∧
      Lib.Base64.decode encoded = some raw ∧ loads depth raw = .ok payload ∧
      claims payload = .ok ticket ∧ ticket.node = V.nodeId ∧
      (ticket.port = 80 ∨ ticket.port = 443) := by
  unfold authenticate parse at h
  rcases hs : splitToken token with _ | ⟨encoded, supplied⟩
  · simp [hs] at h
  rcases he : Lib.Base64.decode encoded with _ | raw
  · simp [hs, he] at h
  rcases hd : Lib.Base64.decode supplied with _ | signature
  · simp [hs, he, hd] at h
  rcases hl : loads depth raw with e | payload
  · rcases e <;> simp [hs, he, hd, hl] at h
  rcases hc : claims payload with e | t
  · by_cases hsig : signature = hmac V.secret encoded <;> simp [hs, he, hd, hl, hc, hsig] at h
  simp only [hs, he, hd, hl, hc] at h
  split_ifs at h with hsig hnode hport
  obtain rfl : t = ticket := Except.ok.inj h
  refine ⟨encoded, supplied, raw, payload, rfl, ?_, he, hl, hc, ?_, ?_⟩
  · rw [hd, not_not.mp hsig]
  · exact not_not.mp hnode
  · tauto

end Verify

end IdenGrid.Edge.Tickets
