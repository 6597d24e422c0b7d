import IdenGrid.Lib.Base64
import IdenGrid.Lib.JsonDumps

/-! # The control plane: issuing capability tickets

`EdgeTicketIssuer.issue`. The reading of the clock and the random bytes of the identifier are
arguments; `hmac` is HMAC-SHA256.

`claims_payload` in `Authorization` reads such a ticket as the Edge does. -/

namespace IdenGrid.Control.EdgeTickets

open IdenGrid.Lib.Unicode IdenGrid.Lib.JsonDumps

structure EdgeTicketIssuer where
  secret : List ℕ
  nodeId : List ℕ
  maxTtl : ℤ := 60
  deriving DecidableEq, Repr

/-- `secrets.token_urlsafe`. -/
def tokenUrlsafe (entropy : List ℕ) : List ℕ := Lib.Base64.encode entropy

/-- The payload of a ticket. -/
def payload (node store host : List ℕ) (port issuedAt expiresAt : ℤ) (jti : List ℕ) :
    List (List ℕ × Scalar) :=
  [(text "v", .int 1), (text "node", .str node), (text "store", .str store),
    (text "host", .str host), (text "port", .int port), (text "iat", .int issuedAt),
    (text "exp", .int expiresAt), (text "jti", .str jti)]

/-- The requested lifetime, cut to the issuer's limit. -/
def lifetime (I : EdgeTicketIssuer) (ttl : Option ℤ) : ℤ :=
  match ttl with
  | none => I.maxTtl
  | some ttl => min ttl I.maxTtl

/-- The signed part of a ticket; `none` where `issue` raises a `ValueError`. -/
def encodeTicket (I : EdgeTicketIssuer) (store host : List ℕ) (port : ℤ) (ttl : Option ℤ)
    (issuedAt : ℤ) (entropy : List ℕ) : Option (List ℕ) :=
  if lifetime I ttl ≤ 0 then none
  else
    (dumps (payload I.nodeId store host port issuedAt (issuedAt + lifetime I ttl)
      (tokenUrlsafe entropy))).map Lib.Base64.encode

/-- `EdgeTicketIssuer.issue`. -/
def issue (hmac : List ℕ → List ℕ → List ℕ) (I : EdgeTicketIssuer) (store host : List ℕ)
    (port : ℤ) (ttl : Option ℤ) (issuedAt : ℤ) (entropy : List ℕ) : Option (List ℕ) :=
  (encodeTicket I store host port ttl issuedAt entropy).map fun encoded =>
    encoded ++ 46 :: Lib.Base64.encode (hmac I.secret encoded)

end IdenGrid.Control.EdgeTickets
