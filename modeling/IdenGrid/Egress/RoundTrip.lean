import Mathlib.Logic.Encodable.Basic
import Mathlib.Logic.Equiv.List
import IdenGrid.Egress.Codec

/-! # The ticket codec decides

`readsBack_iff`: a verifier accepts an issued ticket, with the claims that were issued, exactly if it
has the secret and the node of the issuer and the clock is in the window; for every call of `issue`
with a node id that is not empty and strings in which no high surrogate stands right before a low one.
`decided_iff`: every string is accepted, and then its claims are signed, or refused with a
`TicketError`, except where the decoder of the payload gives up with a `RecursionError`: the payload
is decoded before its signature is checked. -/

namespace IdenGrid.Egress.RoundTrip

open IdenGrid.Lib.Unicode IdenGrid.Lib.Json IdenGrid.Lib.JsonDumps
open IdenGrid.Control.EdgeTickets IdenGrid.Edge.Tickets IdenGrid.Egress.Codec

/-- What is assumed of HMAC: its digests are bytes, and those of two secrets differ. -/
structure Tags (hmac : List ℕ → List ℕ → List ℕ) : Prop where
  bytes : ∀ secret message, ∀ b ∈ hmac secret message, b < 256
  distinct : ∀ secret secret' message, hmac secret message = hmac secret' message → secret = secret'

/-- A call of `EdgeTicketIssuer.issue`. -/
structure Issuance where
  issuer : EdgeTicketIssuer
  store : List ℕ
  host : List ℕ
  port : ℤ
  ttl : Option ℤ
  issuedAt : ℤ
  entropy : List ℕ
  /-- The check of the issuer's constructor. -/
  maxTtl : 0 < issuer.maxTtl ∧ issuer.maxTtl ≤ 60
  store_ne : store ≠ []
  host_ne : host ≠ []
  port_eq : port = 80 ∨ port = 443
  ttl_pos : ∀ t ∈ ttl, 1 ≤ t
  /-- `int` of a float. -/
  clock : issuedAt.natAbs < 2 ^ 1024
  /-- `secrets.token_urlsafe(18)` -/
  entropy_length : entropy.length = 18
  points : ∀ t ∈ [issuer.nodeId, store, host], ∀ c ∈ t, c < 0x110000

namespace Issuance

variable (x : Issuance)

/-- The token; `none` where `issue` raises a `ValueError`. -/
def token (hmac : List ℕ → List ℕ → List ℕ) : Option (List ℕ) :=
  issue hmac x.issuer x.store x.host x.port x.ttl x.issuedAt x.entropy

/-- The claims that are issued. -/
def ticket : Ticket := issuedTicket x.issuer x.store x.host x.port x.ttl x.issuedAt x.entropy

/-- The verifier has the secret and the node of the issuer, and the clock is in the window. -/
def Fits (V : TicketVerifier) (now : ℤ) : Prop :=
  V.secret = x.issuer.secret ∧ V.nodeId = x.issuer.nodeId ∧
    x.ticket.issuedAt ≤ now + 5 ∧ now < x.ticket.expiresAt

theorem lifetime_pos : 0 < lifetime x.issuer x.ttl := by
  have hmax := x.maxTtl
  unfold lifetime
  rcases httl : x.ttl with _ | t
  · exact hmax.1
  · have := x.ttl_pos t httl
    show 0 < min t x.issuer.maxTtl
    omega

theorem lifetime_le : lifetime x.issuer x.ttl ≤ 60 := by
  have hmax := x.maxTtl
  unfold lifetime
  rcases x.ttl with _ | t
  · exact hmax.2
  · show min t x.issuer.maxTtl ≤ 60
    omega

theorem jti_ne : tokenUrlsafe x.entropy ≠ [] := by
  have hlength := x.entropy_length
  intro hnil
  rcases he : x.entropy with _ | ⟨a, _ | ⟨b, _ | ⟨c, r⟩⟩⟩
  · simp [he] at hlength
  · simp [he] at hlength
  · simp [he] at hlength
  · simp [tokenUrlsafe, he, Lib.Base64.encode, Lib.Base64.sextets] at hnil

/-- **A token is issued.** -/
theorem token_isSome (hmac : List ℕ → List ℕ → List ℕ) : (x.token hmac).isSome = true := by
  have hpos := x.lifetime_pos
  have hle := x.lifetime_le
  have hclock := x.clock
  have hlarge : 2 ^ 1024 + 60 < 10 ^ maxDigits := by
    calc 2 ^ 1024 + 60 < 10 ^ 309 := by decide +kernel
      _ ≤ 10 ^ maxDigits := Nat.pow_le_pow_right (by decide) (by decide)
  have hissued : (dumpInt x.issuedAt).isSome = true := dumpInt_isSome (by omega)
  have hexpires : (dumpInt (x.issuedAt + lifetime x.issuer x.ttl)).isSome = true :=
    dumpInt_isSome (by omega)
  have hport : (dumpInt x.port).isSome = true := by
    rcases x.port_eq with h | h
    · rw [h]
      decide
    · rw [h]
      decide
  unfold token issue encodeTicket
  rw [if_neg (by omega), Option.isSome_map, Option.isSome_map]
  refine dumps_isSome fun f hf => ?_
  simp only [payload, List.mem_cons, List.not_mem_nil, or_false] at hf
  rcases hf with rfl | rfl | rfl | rfl | rfl | rfl | rfl | rfl
  · decide
  · rfl
  · rfl
  · rfl
  · exact hport
  · exact hissued
  · exact hexpires
  · rfl

end Issuance

section Codec

variable (hmac : List ℕ → List ℕ → List ℕ) (depth : ℕ)

/-- A verifier with `max_ttl` 60 accepts the token and returns the issued claims exactly if it fits. -/
def ReadsBack (x : Issuance) : Prop :=
  ∀ token, x.token hmac = some token → ∀ V : TicketVerifier, V.maxTtl = 60 → V.futureSkew = 5 →
    ∀ now ticket, verify hmac depth V token now = .ok ticket ↔ x.Fits V now ∧ ticket = x.ticket

/-- The token has a payload part with these claims, whose digest is its signature part. -/
def Signed (V : TicketVerifier) (token : List ℕ) (ticket : Ticket) : Prop :=
  ∃ encoded signature raw payload, token = encoded ++ 46 :: signature ∧
    Lib.Base64.decode signature = some (hmac V.secret encoded) ∧
    Lib.Base64.decode encoded = some raw ∧ loads depth raw = .ok payload ∧
    claims payload = .ok ticket

/-- What is accepted is signed, and everything else raises a `TicketError`. -/
def Decided (V : TicketVerifier) (token : List ℕ) (now : ℤ) : Prop :=
  (∀ ticket, verify hmac depth V token now = .ok ticket → Signed hmac depth V token ticket) ∧
    ∀ e, verify hmac depth V token now = .error e → ∃ message, e = .ticket message

/-- Everything is read back, and every string decided. -/
def Codec : Prop :=
  (∀ x : Issuance, ReadsBack hmac depth x) ∧
    ∀ (V : TicketVerifier) (token : List ℕ) (now : ℤ), Decided hmac depth V token now

/-- The decoder gives up on the payload part. -/
def Recurses (token : List ℕ) : Prop :=
  ∃ encoded supplied raw, splitToken token = some (encoded, supplied) ∧
    Lib.Base64.decode encoded = some raw ∧ (Lib.Base64.decode supplied).isSome = true ∧
    loads depth raw = .error .recursion

end Codec

variable {hmac : List ℕ → List ℕ → List ℕ} {depth : ℕ} {V : TicketVerifier}

/-! ## Issued tickets -/

theorem joinUnits_eq_nil {t : List ℕ} : joinUnits t = [] ↔ t = [] := by
  fun_cases joinUnits t with
  | case1 => simp
  | case2 => simp
  | case3 => rfl

theorem splitToken_append {encoded signature : List ℕ} (he : 46 ∉ encoded) (hs : 46 ∉ signature) :
    splitToken (encoded ++ 46 :: signature) = some (encoded, signature) := by
  have hne : ∀ c ∈ encoded, (c != 46) = true := fun c hc => by
    simpa using fun heq : c = 46 => he (heq ▸ hc)
  have hdrop : (encoded ++ 46 :: signature).dropWhile (· != 46) = 46 :: signature := by
    rw [List.dropWhile_append_of_pos hne]
    rfl
  have htake : (encoded ++ 46 :: signature).takeWhile (· != 46) = encoded := by
    rw [List.takeWhile_append_of_pos hne]
    simp
  unfold splitToken
  rw [hdrop, htake]
  exact if_neg hs

theorem dot_notMem_encode (bytes : List ℕ) : 46 ∉ Lib.Base64.encode bytes := by
  intro h
  obtain ⟨v, -, hv⟩ := List.mem_map.mp h
  exact (Lib.Base64.sym_range v).2.2 hv

/-- A token whose payload is decoded. -/
theorem authenticate_decoded {token encoded supplied signature raw : List ℕ} {payload : Value}
    {ticket : Ticket} (hsplit : splitToken token = some (encoded, supplied))
    (hsupplied : Lib.Base64.decode supplied = some signature)
    (hraw : Lib.Base64.decode encoded = some raw) (hloads : loads depth raw = .ok payload) :
    authenticate hmac depth V token = .ok ticket ↔
      signature = hmac V.secret encoded ∧ claims payload = .ok ticket ∧
        ticket.node = V.nodeId ∧ (ticket.port = 80 ∨ ticket.port = 443) := by
  unfold authenticate parse
  simp only [hsplit, hsupplied, hraw, hloads]
  by_cases hsig : signature = hmac V.secret encoded
  · rw [if_neg (not_not.mpr hsig), and_iff_right hsig]
    rcases hclaims : claims payload with e | read
    · simp
    · by_cases hnode : read.node = V.nodeId
      · by_cases hport : read.port = 80 ∨ read.port = 443
        · have hno : ¬ (read.port ≠ 80 ∧ read.port ≠ 443) := by omega
          simp only [hnode, ne_eq, not_true_eq_false, if_false]
          rw [if_neg hno]
          constructor
          · intro hread
            obtain rfl := Except.ok.inj hread
            exact ⟨rfl, hnode, hport⟩
          · rintro ⟨hread, -⟩
            exact hread
        · have hno : read.port ≠ 80 ∧ read.port ≠ 443 := by omega
          simp only [hnode, ne_eq, not_true_eq_false, if_false]
          rw [if_pos hno]
          refine iff_of_false (by simp) ?_
          rintro ⟨hread, -, hp⟩
          obtain rfl := Except.ok.inj hread
          exact hport hp
      · simp only [ne_eq, hnode, not_false_eq_true, if_true]
        refine iff_of_false (by simp) ?_
        rintro ⟨hread, hn, -⟩
        obtain rfl := Except.ok.inj hread
        exact hnode hn
  · rw [if_pos hsig]
    exact iff_of_false (by simp) fun h => hsig h.1

/-- The claims as the verifier reads them. -/
def readTicket (x : Issuance) : Ticket :=
  { x.ticket with
    node := joinUnits x.issuer.nodeId
    store := joinUnits x.store
    host := joinUnits x.host }

/-- **An issued ticket before a verifier.** -/
theorem authenticate_token (ht : Tags hmac) {x : Issuance} {token : List ℕ}
    (h : x.token hmac = some token) {ticket : Ticket} :
    authenticate hmac (depth + 1) V token = .ok ticket ↔
      V.secret = x.issuer.secret ∧ x.issuer.nodeId ≠ [] ∧ V.nodeId = joinUnits x.issuer.nodeId ∧
        ticket = readTicket x := by
  obtain ⟨encoded, hencode, rfl⟩ := Option.map_eq_some_iff.mp h
  obtain ⟨-, raw, hraw, hdump⟩ := encodeTicket_eq_some hencode
  have hdot : 46 ∉ encoded := by
    unfold encodeTicket at hencode
    split_ifs at hencode
    obtain ⟨raw, -, rfl⟩ := Option.map_eq_some_iff.mp hencode
    exact dot_notMem_encode raw
  have hjti : NoPair (tokenUrlsafe x.entropy) := noPair_of_ascii (tokenUrlsafe_ascii x.entropy)
  have hloads := loads_payload depth hdump fun t hmem => by
    rcases List.mem_append.mp (show t ∈ [x.issuer.nodeId, x.store, x.host] ++
      [tokenUrlsafe x.entropy] from hmem) with hmem | hmem
    · exact x.points t hmem
    · obtain rfl := List.mem_singleton.mp hmem
      exact hjti.1
  rw [(noPair_iff hjti.1).mp hjti] at hloads
  rw [authenticate_decoded (splitToken_append hdot (dot_notMem_encode _))
    (Lib.Base64.decode_encode (ht.bytes x.issuer.secret encoded)) hraw hloads, claims_payload_iff]
  simp only [ne_eq, joinUnits_eq_nil]
  constructor
  · rintro ⟨hsig, ⟨hnode, -, -, -, rfl⟩, hV, -⟩
    exact ⟨(ht.distinct _ _ _ hsig).symm, hnode, hV.symm, rfl⟩
  · rintro ⟨hsecret, hnode, hV, rfl⟩
    rw [hsecret]
    exact ⟨rfl, ⟨hnode, x.store_ne, x.host_ne, x.jti_ne, rfl⟩, hV.symm, x.port_eq⟩

theorem verify_token (ht : Tags hmac) {x : Issuance} {token : List ℕ}
    (h : x.token hmac = some token) (hmax : V.maxTtl = 60) (hskew : V.futureSkew = 5) {now : ℤ}
    {ticket : Ticket} :
    verify hmac (depth + 1) V token now = .ok ticket ↔
      V.secret = x.issuer.secret ∧ x.issuer.nodeId ≠ [] ∧ V.nodeId = joinUnits x.issuer.nodeId ∧
        x.ticket.issuedAt ≤ now + 5 ∧ now < x.ticket.expiresAt ∧ ticket = readTicket x := by
  rw [verify_eq_ok, authenticate_token ht h, hmax, hskew]
  constructor
  · rintro ⟨⟨hsecret, hnode, hV, rfl⟩, hnow, hskew, -⟩
    exact ⟨hsecret, hnode, hV, hskew, hnow, rfl⟩
  · rintro ⟨hsecret, hnode, hV, hskew, hnow, rfl⟩
    have hpos := x.lifetime_pos
    have hle := x.lifetime_le
    have hlife : x.ticket.expiresAt = x.ticket.issuedAt + lifetime x.issuer x.ttl := rfl
    refine ⟨⟨hsecret, hnode, hV, rfl⟩, hnow, hskew, ?_⟩
    show 0 < x.ticket.expiresAt - x.ticket.issuedAt ∧ x.ticket.expiresAt - x.ticket.issuedAt ≤ 60
    omega

/-- **Issued tickets are read back** unless the node id is empty or a string has a split pair. -/
theorem readsBack_iff (ht : Tags hmac) (x : Issuance) :
    ReadsBack hmac (depth + 1) x ↔
      x.issuer.nodeId ≠ [] ∧ NoPair x.issuer.nodeId ∧ NoPair x.store ∧ NoPair x.host := by
  have hpoints := x.points
  simp only [List.forall_mem_cons] at hpoints
  obtain ⟨hpnode, hpstore, hphost, -⟩ := hpoints
  rw [noPair_iff hpnode, noPair_iff hpstore, noPair_iff hphost]
  constructor
  · intro h
    obtain ⟨token, htoken⟩ := Option.isSome_iff_exists.mp (x.token_isSome hmac)
    have hpos := x.lifetime_pos
    have hfits : x.Fits ⟨x.issuer.secret, x.issuer.nodeId, 60, 5⟩ x.issuedAt := by
      refine ⟨rfl, rfl, ?_, ?_⟩
      · show x.issuedAt ≤ x.issuedAt + 5
        omega
      · show x.issuedAt < x.issuedAt + lifetime x.issuer x.ttl
        omega
    have haccept := (h token htoken _ rfl rfl x.issuedAt x.ticket).mpr ⟨hfits, rfl⟩
    obtain ⟨-, hnode, hV, -, -, hticket⟩ := (verify_token ht htoken rfl rfl).mp haccept
    exact ⟨hnode, hV.symm, (congrArg Ticket.store hticket).symm, (congrArg Ticket.host hticket).symm⟩
  · rintro ⟨hnode, hjnode, hjstore, hjhost⟩ token htoken V hmax hskew now ticket
    have hread : readTicket x = x.ticket := by
      rw [readTicket, hjnode, hjstore, hjhost]
      rfl
    rw [verify_token ht htoken hmax hskew, hread, hjnode]
    constructor
    · rintro ⟨hsecret, -, hV, hskew, hnow, rfl⟩
      exact ⟨⟨hsecret, hV, hskew, hnow⟩, rfl⟩
    · rintro ⟨⟨hsecret, hV, hskew, hnow⟩, rfl⟩
      exact ⟨hsecret, hnode, hV, hskew, hnow, rfl⟩

/-! ## Every string -/

theorem signed_of_ok {token : List ℕ} {now : ℤ} {ticket : Ticket}
    (h : verify hmac depth V token now = .ok ticket) : Signed hmac depth V token ticket := by
  obtain ⟨encoded, signature, raw, payload, hsplit, hsig, hraw, hloads, hclaims, -⟩ :=
    authenticate_eq_ok (verify_eq_ok.mp h).1
  exact ⟨encoded, signature, raw, payload, (splitToken_eq_some hsplit).1, hsig, hraw, hloads, hclaims⟩

/-- A failure is a `TicketError`. -/
def Ticketed {α : Type} (r : Except Edge.Tickets.Err α) : Prop :=
  ∀ e, r = .error e → ∃ message, e = .ticket message

theorem ticketed_ok {α : Type} (a : α) : Ticketed (.ok a) := fun _ h => by simp at h

theorem ticketed_error_iff {α : Type} {e : Edge.Tickets.Err} :
    Ticketed (.error e : Except Edge.Tickets.Err α) ↔ ∃ message, e = .ticket message := by
  constructor
  · intro h
    exact h e rfl
  · rintro h e' he
    obtain rfl := Except.error.inj he
    exact h

theorem ticketed_error {α : Type} (message : String) :
    Ticketed (.error (.ticket message) : Except Edge.Tickets.Err α) :=
  ticketed_error_iff.mpr ⟨message, rfl⟩

theorem Ticketed.bind {α β : Type} {r : Except Edge.Tickets.Err α}
    {f : α → Except Edge.Tickets.Err β} (hr : Ticketed r) (hf : ∀ a, Ticketed (f a)) :
    Ticketed (r >>= f) := by
  rcases r with e | a
  · exact ticketed_error_iff.mpr (ticketed_error_iff.mp hr)
  · exact hf a

theorem ticketed_stringClaim (fields : List (List ℕ × Value)) (name : String) :
    Ticketed (stringClaim fields name) := by
  unfold stringClaim nonEmpty
  split
  · split_ifs
    · exact ticketed_error _
    · exact ticketed_ok _
  · exact ticketed_error _

theorem ticketed_intClaim (fields : List (List ℕ × Value)) (name : String) :
    Ticketed (intClaim fields name) := by
  unfold intClaim
  split
  · exact ticketed_ok _
  · exact ticketed_error _

theorem ticketed_claims (payload : Value) : Ticketed (claims payload) := by
  unfold claims
  split
  · split_ifs
    · exact ticketed_error _
    · exact ticketed_error _
    · refine Ticketed.bind (ticketed_stringClaim _ _) fun _ => ?_
      refine Ticketed.bind (ticketed_stringClaim _ _) fun _ => ?_
      refine Ticketed.bind (ticketed_stringClaim _ _) fun _ => ?_
      refine Ticketed.bind (ticketed_stringClaim _ _) fun _ => ?_
      refine Ticketed.bind (ticketed_intClaim _ _) fun _ => ?_
      refine Ticketed.bind (ticketed_intClaim _ _) fun _ => ?_
      exact Ticketed.bind (ticketed_intClaim _ _) fun _ => ticketed_ok _
  · exact ticketed_error _

theorem ticketed_checkTimes (ticket : Ticket) (now : ℤ) : Ticketed (checkTimes V ticket now) := by
  unfold checkTimes
  split_ifs
  · exact ticketed_error _
  · exact ticketed_error _
  · exact ticketed_error _
  · exact ticketed_ok _

/-- Only the decoder raises anything else. -/
theorem ticketed_parse {token : List ℕ} : Ticketed (parse depth token) ↔ ¬ Recurses depth token := by
  unfold parse Recurses
  rcases hsplit : splitToken token with _ | ⟨encoded, supplied⟩
  · exact iff_of_true (ticketed_error _) (by simp)
  rcases hraw : Lib.Base64.decode encoded with _ | raw
  · simp only [hraw]
    refine iff_of_true (ticketed_error _) ?_
    rintro ⟨encoded', _, raw, hs, hr, -⟩
    obtain ⟨rfl, rfl⟩ := Prod.mk.inj (Option.some.inj hs)
    exact Option.some_ne_none raw (hr.symm.trans hraw)
  rcases hsupplied : Lib.Base64.decode supplied with _ | signature
  · simp only [hraw, hsupplied]
    refine iff_of_true (ticketed_error _) ?_
    rintro ⟨_, supplied', _, hs, -, hd, -⟩
    obtain ⟨rfl, rfl⟩ := Prod.mk.inj (Option.some.inj hs)
    simp [hsupplied] at hd
  have hrecurses : (∃ encoded' supplied' raw', some (encoded, supplied) = some (encoded', supplied') ∧
      Lib.Base64.decode encoded' = some raw' ∧ (Lib.Base64.decode supplied').isSome = true ∧
      loads depth raw' = .error .recursion) ↔ loads depth raw = .error .recursion := by
    constructor
    · rintro ⟨_, _, raw', hs, hr, -, hl⟩
      obtain ⟨rfl, rfl⟩ := Prod.mk.inj (Option.some.inj hs)
      obtain rfl := Option.some.inj (hraw.symm.trans hr)
      exact hl
    · exact fun hl => ⟨_, _, raw, rfl, hraw, by simp [hsupplied], hl⟩
  rw [hrecurses]
  simp only [hraw, hsupplied]
  rcases loads depth raw with (_ | _) | payload
  · exact iff_of_true (ticketed_error _) (by simp)
  · refine iff_of_false (fun h => ?_) (by simp)
    obtain ⟨message, hm⟩ := ticketed_error_iff.mp h
    simp at hm
  · exact iff_of_true (ticketed_ok _) (by simp)

theorem ticketed_verify {token : List ℕ} {now : ℤ} :
    Ticketed (verify hmac depth V token now) ↔ Ticketed (parse depth token) := by
  unfold verify authenticate
  rcases parse depth token with e | ⟨encoded, signature, payload⟩
  · exact ticketed_error_iff.trans ticketed_error_iff.symm
  refine iff_of_true ?_ (ticketed_ok _)
  by_cases hsig : signature = hmac V.secret encoded
  · simp only [hsig, ne_eq, not_true_eq_false, if_false]
    have herror := ticketed_claims payload
    rcases hclaims : claims payload with e | ticket
    · exact ticketed_error_iff.mpr (herror e hclaims)
    · by_cases hnode : ticket.node = V.nodeId
      · by_cases hport : ticket.port ≠ 80 ∧ ticket.port ≠ 443
        · simp only [hnode, not_true_eq_false, if_false]
          rw [if_pos hport]
          exact ticketed_error _
        · simp only [hnode, not_true_eq_false, if_false]
          rw [if_neg hport]
          exact ticketed_checkTimes ticket now
      · simp only [hnode, not_false_eq_true, if_true]
        exact ticketed_error _
  · simp only [ne_eq, hsig, not_false_eq_true, if_true]
    exact ticketed_error _

/-- **Every string is decided** unless the decoder gives up on it. -/
theorem decided_iff {token : List ℕ} {now : ℤ} :
    Decided hmac depth V token now ↔ ¬ Recurses depth token := by
  rw [← ticketed_parse, ← ticketed_verify]
  exact and_iff_right fun ticket h => signed_of_ok h

/-- **The codec decides**: what is issued is read back, and every string is accepted or refused. -/
theorem codec_iff (hmac : List ℕ → List ℕ → List ℕ) (depth : ℕ) (ht : Tags hmac)
    (hdepth : 0 < depth) :
    (∀ x : Issuance, ReadsBack hmac depth x ↔
      x.issuer.nodeId ≠ [] ∧ NoPair x.issuer.nodeId ∧ NoPair x.store ∧ NoPair x.host) ∧
    ∀ (V : TicketVerifier) (token : List ℕ) (now : ℤ),
      Decided hmac depth V token now ↔ ¬ Recurses depth token := by
  obtain ⟨depth, rfl⟩ := Nat.exists_eq_succ_of_ne_zero hdepth.ne'
  exact ⟨readsBack_iff ht, fun _ _ _ => decided_iff⟩

/-! ## Samples -/

/-- A ticket for store `7` on `node-1`. -/
def sample : Issuance where
  issuer := ⟨text "edge-secret", text "node-1", 60⟩
  store := text "7"
  host := text "example.com"
  port := 443
  ttl := some 30
  issuedAt := 1700000000
  entropy := List.range 18
  maxTtl := by decide
  store_ne := by decide
  host_ne := by decide
  port_eq := by decide
  ttl_pos := by decide
  clock := by decide +kernel
  entropy_length := by decide
  points := by decide

/-- The signed part of its token. -/
def sampleEncoded : List ℕ :=
  (encodeTicket sample.issuer sample.store sample.host sample.port sample.ttl sample.issuedAt
    sample.entropy).getD []

/-- The HMAC-SHA256 of the sample; other digests are longer and tell their secrets apart. -/
def sampleHmac (secret message : List ℕ) : List ℕ :=
  if secret = text "edge-secret" ∧ message = sampleEncoded then
    [181, 148, 125, 199, 18, 176, 24, 8, 52, 160, 207, 243, 200, 74, 42, 171, 149, 36, 114, 209, 13,
      163, 156, 135, 140, 242, 193, 171, 157, 155, 223, 126]
  else List.replicate (33 + Encodable.encode secret) 0

theorem tags_sampleHmac : Tags sampleHmac := by
  refine ⟨fun secret message b hb => ?_, fun secret secret' message h => ?_⟩
  · unfold sampleHmac at hb
    split_ifs at hb
    · revert b
      decide
    · rw [List.eq_of_mem_replicate hb]
      decide
  · have hlength := congrArg List.length h
    unfold sampleHmac at hlength
    split_ifs at hlength with h1 h2 h2
    · exact h1.1.trans h2.1.symm
    · simp only [List.length_replicate, List.length_cons, List.length_nil] at hlength
      omega
    · simp only [List.length_replicate, List.length_cons, List.length_nil] at hlength
      omega
    · simp only [List.length_replicate] at hlength
      exact Encodable.encode_injective (by omega)

/-- The sample is read back by its own verifier, and by no other. -/
theorem codec_sample : ReadsBack sampleHmac 1000 sample ∧
    Decided sampleHmac 1000 ⟨sample.issuer.secret, sample.issuer.nodeId, 60, 5⟩ (text "a.b") 0 := by
  obtain ⟨hread, hdecided⟩ := codec_iff sampleHmac 1000 tags_sampleHmac (by decide)
  refine ⟨(hread sample).mpr ⟨by decide, noPair_text _, noPair_text _, noPair_text _⟩,
    (hdecided _ _ _).mpr ?_⟩
  rintro ⟨encoded, supplied, raw, hsplit, hraw, -⟩
  obtain rfl : text "a" = encoded := congrArg Prod.fst (Option.some.inj hsplit)
  have hnone : Lib.Base64.decode (text "a") = none := by decide
  exact Option.some_ne_none raw (hraw.symm.trans hnone)

theorem scanOnce_nested : ∀ depth : ℕ,
    scanOnce depth (List.replicate (depth + 1) 91) = .error .recursion
  | 0 => rfl
  | depth + 1 => by
    have ih := scanOnce_nested depth
    rw [List.replicate_succ] at ih
    rw [List.replicate_succ, List.replicate_succ]
    show array (scanOnce depth) (91 :: List.replicate depth 91) = .error .recursion
    rw [array, skip_cons (c := 91) rfl]
    simp only [show ¬ (91 : ℕ) = 93 by decide, if_false, List.length_cons]
    rw [elements, ih]
    rfl

/-- One bracket more than the decoder takes. -/
theorem loads_nested (depth : ℕ) : loads depth (List.replicate (depth + 1) 91) = .error .recursion := by
  have hascii : ∀ b ∈ List.replicate (depth + 1) 91, 0 < b ∧ b < 0x80 := by
    intro b hb
    rw [List.eq_of_mem_replicate hb]
    decide
  rw [loads, decodeJson_ascii hascii]
  simp only [Lib.Json.decode]
  have hskip : skip (List.replicate (depth + 1) 91) = List.replicate (depth + 1) 91 := skip_cons rfl _
  rw [hskip, scanOnce_nested]

/-- A payload part of nested arrays with an empty signature part. -/
def nested (depth : ℕ) : List ℕ := Lib.Base64.encode (List.replicate (depth + 1) 91) ++ [46]

/-- Such a token comes out of `verify` as a `RecursionError`. -/
theorem nested_undecided : Tags sampleHmac ∧ ¬ Codec sampleHmac 1000 := by
  refine ⟨tags_sampleHmac, fun h => ?_⟩
  have hdecided := h.2 ⟨text "edge-secret", text "node-1", 60, 5⟩ (nested 1000) 1700000000
  refine decided_iff.mp hdecided ⟨_, [], _, splitToken_append (dot_notMem_encode _) (by simp),
    Lib.Base64.decode_encode (fun b hb => ?_), by decide, loads_nested 1000⟩
  rw [List.eq_of_mem_replicate hb]
  decide

end IdenGrid.Egress.RoundTrip
