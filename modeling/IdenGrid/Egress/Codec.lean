import IdenGrid.Control.EdgeTickets
import IdenGrid.Edge.Tickets

/-! # The ticket codec: what the control plane issues and the Edge reads

`authenticate_issued`: a token whose signed part the control plane's issuer wrote is read by the
Edge's verifier, if it is authentic at all, as the ticket with the issued claims. -/

namespace IdenGrid.Egress.Codec

open IdenGrid.Lib.Unicode IdenGrid.Lib.Json IdenGrid.Lib.JsonDumps
open IdenGrid.Control.EdgeTickets IdenGrid.Edge.Tickets

/-- The ticket an issuer means. -/
def issuedTicket (I : EdgeTicketIssuer) (store host : List ℕ) (port : ℤ) (ttl : Option ℤ)
    (issuedAt : ℤ) (entropy : List ℕ) : Ticket where
  node := I.nodeId
  store := store
  host := host
  port := port
  issuedAt := issuedAt
  expiresAt := issuedAt + lifetime I ttl
  jti := tokenUrlsafe entropy

section Payload

variable (node store host : List ℕ) (port iat exp : ℤ) (jti : List ℕ)

theorem sortKeys_payload : sortKeys (payload node store host port iat exp jti) =
    [(text "exp", .int exp), (text "host", .str host), (text "iat", .int iat),
      (text "jti", .str jti), (text "node", .str node), (text "port", .int port),
      (text "store", .str store), (text "v", .int 1)] := rfl

theorem keys_nodup : ((payload node store host port iat exp jti).map Prod.fst).Nodup := by
  have : (payload node store host port iat exp jti).map Prod.fst =
      ["v", "node", "store", "host", "port", "iat", "exp", "jti"].map text := rfl
  rw [this]
  decide

/-- The claims of a payload are the values it was made from, unless a string is empty. -/
theorem claims_payload_iff {ticket : Ticket} :
    claims (.obj (valuesOf (sortKeys (payload node store host port iat exp jti)))) = .ok ticket ↔
      node ≠ [] ∧ store ≠ [] ∧ host ≠ [] ∧ jti ≠ [] ∧
        ticket = ⟨node, store, host, port, iat, exp, jti⟩ := by
  rw [sortKeys_payload]
  have hread : claims (.obj (valuesOf [(text "exp", .int exp), (text "host", .str host),
      (text "iat", .int iat), (text "jti", .str jti), (text "node", .str node),
      (text "port", .int port), (text "store", .str store), (text "v", .int 1)])) = (do
        let node ← nonEmpty "node" node
        let store ← nonEmpty "store" store
        let host ← nonEmpty "host" host
        let jti ← nonEmpty "jti" jti
        pure ⟨node, store, host, port, iat, exp, jti⟩) := rfl
  rw [hread]
  by_cases h1 : node = []
  · simp [nonEmpty, h1, bind, Except.bind]
  by_cases h2 : store = []
  · simp [nonEmpty, h1, h2, bind, Except.bind]
  by_cases h3 : host = []
  · simp [nonEmpty, h1, h2, h3, bind, Except.bind]
  by_cases h4 : jti = []
  · simp [nonEmpty, h1, h2, h3, h4, bind, Except.bind]
  simp only [nonEmpty, h1, h2, h3, h4, if_false, bind, Except.bind, ne_eq, not_false_eq_true,
    true_and]
  exact ⟨fun h => (Except.ok.inj h).symm, fun h => congrArg Except.ok h.symm⟩

/-- The payload as it is read. -/
theorem readFields_payload : readFields (sortKeys (payload node store host port iat exp jti)) =
    sortKeys (payload (joinUnits node) (joinUnits store) (joinUnits host) port iat exp
      (joinUnits jti)) := rfl

end Payload

theorem tokenUrlsafe_ascii (entropy : List ℕ) : ∀ c ∈ tokenUrlsafe entropy, c < 0x80 := by
  intro c hc
  obtain ⟨v, -, rfl⟩ := List.mem_map.mp hc
  have := Lib.Base64.sym_range v
  omega

/-- The signed part of an issued ticket decodes to the payload that was written. -/
theorem encodeTicket_eq_some {I : EdgeTicketIssuer} {store host : List ℕ} {port : ℤ}
    {ttl : Option ℤ} {issuedAt : ℤ} {entropy encoded : List ℕ}
    (h : encodeTicket I store host port ttl issuedAt entropy = some encoded) :
    0 < lifetime I ttl ∧ ∃ raw, Lib.Base64.decode encoded = some raw ∧
      dumps (payload I.nodeId store host port issuedAt (issuedAt + lifetime I ttl)
        (tokenUrlsafe entropy)) = some raw := by
  unfold encodeTicket at h
  split_ifs at h with hpos
  obtain ⟨raw, hraw, rfl⟩ := Option.map_eq_some_iff.mp h
  refine ⟨by omega, raw, Lib.Base64.decode_encode fun b hb => ?_, hraw⟩
  have := ascii_dumps hraw b hb
  omega

/-- An interpreter that reads no container at all reads no payload. -/
theorem loads_zero {fs : List (List ℕ × Scalar)} {t : List ℕ} (h : dumps fs = some t) :
    loads 0 t = .error .recursion := by
  obtain ⟨s, -, rfl⟩ := Option.map_eq_some_iff.mp h
  rw [loads, decodeJson_ascii (ascii_dumps h)]
  simp only [Lib.Json.decode]
  rw [skip_cons (c := 123) rfl]
  rfl

variable {hmac : List ℕ → List ℕ → List ℕ} {depth : ℕ} {V : TicketVerifier}

/-- What the decoder makes of the payload of an issued ticket. -/
theorem loads_payload {node store host jti raw : List ℕ} {port iat exp : ℤ} (depth : ℕ)
    (h : dumps (payload node store host port iat exp jti) = some raw)
    (hpoints : ∀ t ∈ [node, store, host, jti], ∀ c ∈ t, c < 0x110000) :
    loads (depth + 1) raw = .ok (.obj (valuesOf (sortKeys (payload (joinUnits node)
      (joinUnits store) (joinUnits host) port iat exp (joinUnits jti))))) := by
  simp only [List.forall_mem_cons] at hpoints
  obtain ⟨hnode, hstore, hhost, hjti, -⟩ := hpoints
  rw [← readFields_payload]
  refine loads_dumps_read depth h (keys_nodup ..) ?_
  intro f hf
  simp only [payload, List.mem_cons, List.not_mem_nil, or_false] at hf
  rcases hf with rfl | rfl | rfl | rfl | rfl | rfl | rfl | rfl
  · exact ⟨noPair_text _, trivial⟩
  · exact ⟨noPair_text _, hnode⟩
  · exact ⟨noPair_text _, hstore⟩
  · exact ⟨noPair_text _, hhost⟩
  · exact ⟨noPair_text _, trivial⟩
  · exact ⟨noPair_text _, trivial⟩
  · exact ⟨noPair_text _, trivial⟩
  · exact ⟨noPair_text _, hjti⟩

/-- **An authentic token with an issued signed part is the issued ticket.** -/
theorem authenticate_issued {I : EdgeTicketIssuer} {store host : List ℕ} {port : ℤ}
    {ttl : Option ℤ} {issuedAt : ℤ} {entropy encoded signature token : List ℕ} {ticket : Ticket}
    (h : encodeTicket I store host port ttl issuedAt entropy = some encoded)
    (hnode : NoPair I.nodeId) (hstore : NoPair store) (hhost : NoPair host)
    (hsplit : splitToken token = some (encoded, signature))
    (hauth : authenticate hmac depth V token = .ok ticket) :
    ticket = issuedTicket I store host port ttl issuedAt entropy := by
  obtain ⟨-, raw, hraw, hdump⟩ := encodeTicket_eq_some h
  obtain ⟨encoded', signature', raw', value, hsplit', -, hraw', hloads, hclaims, -⟩ :=
    authenticate_eq_ok hauth
  obtain ⟨rfl, rfl⟩ : encoded = encoded' ∧ signature = signature' := by
    simpa [hsplit] using hsplit'
  obtain rfl : raw = raw' := by simpa [hraw] using hraw'
  have hjti : NoPair (tokenUrlsafe entropy) := noPair_of_ascii (tokenUrlsafe_ascii entropy)
  rcases depth with _ | depth
  · rw [loads_zero hdump] at hloads
    simp at hloads
  · have hread := loads_payload depth hdump
      (by simpa using ⟨hnode.1, hstore.1, hhost.1, hjti.1⟩)
    rw [(noPair_iff hnode.1).mp hnode, (noPair_iff hstore.1).mp hstore,
      (noPair_iff hhost.1).mp hhost, (noPair_iff hjti.1).mp hjti] at hread
    rw [hread] at hloads
    obtain rfl := Except.ok.inj hloads
    obtain ⟨-, -, -, -, rfl⟩ := (claims_payload_iff ..).mp hclaims
    rfl

end IdenGrid.Egress.Codec
