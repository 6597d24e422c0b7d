import IdenGrid.Control.Sessions
import IdenGrid.Control.Stores
import IdenGrid.Edge.Replay
import IdenGrid.Egress.Codec

/-! # End-to-end authorization of egress

The control plane and one Edge process under one clock. The control plane handles requests one at a
time: requests for tickets by its handler, every other request as an arbitrary change of the tables.
The Edge verifies whatever tokens it is shown.

`Unforged` is what HMAC-SHA256 and the secrecy of the node's secret give: a token with a valid
digest under the Edge's secret has the signed part of a ticket that the control plane answered with
for a node with that secret.

`accepted_authorized`: under it, every accepted ticket is one that the control plane issued less
than a minute before, to a caller who had access to the store, and for a target its policy had
passed. -/

namespace IdenGrid.Egress.Authorization

open IdenGrid.Lib.Run IdenGrid.Lib.Unicode IdenGrid.Lib.JsonDumps IdenGrid.Lib.Store
open IdenGrid.Control.Rows IdenGrid.Control.Nodes IdenGrid.Control.Targets
open IdenGrid.Control.Stores IdenGrid.Control.EdgeTickets
open IdenGrid.Edge.Tickets IdenGrid.Egress.Codec

/-- An answered request for a ticket, with the tables the handler read. -/
structure Issued where
  db : Db
  request : TicketRequest
  response : TicketResponse

/-- A token the Edge accepted, the ticket it carries, and the time. -/
structure Accepted where
  token : List ℕ
  ticket : Ticket
  time : ℕ

structure State where
  db : Db
  now : ℕ
  issued : List Issued
  accepted : List Accepted

inductive Event
  /-- Any other request to the control plane. -/
  | change (db : Db) (time : ℕ)
  | ticket (r : TicketRequest)
  /-- The Edge verifies a token. -/
  | verify (token : List ℕ) (time : ℕ)

def start (db : Db) (now : ℕ) : State := ⟨db, now, [], []⟩

/-- The readings of a request come one after the other. -/
structure InOrder (s : State) (r : TicketRequest) : Prop where
  auth : s.now ≤ r.authAt
  lease : ∀ l ∈ s.db.leases.rows, r.authAt ≤ r.leaseAt l.id ∧ r.leaseAt l.id ≤ r.resolvedAt
  resolved : r.authAt ≤ r.resolvedAt
  issue : r.resolvedAt ≤ r.issueAt
  recent : r.issueAt ≤ r.recentAt
  audit : r.recentAt ≤ r.auditAt

instance (s : State) (r : TicketRequest) : Decidable (InOrder s r) :=
  decidable_of_iff (s.now ≤ r.authAt ∧
    (∀ l ∈ s.db.leases.rows, r.authAt ≤ r.leaseAt l.id ∧ r.leaseAt l.id ≤ r.resolvedAt) ∧
    r.authAt ≤ r.resolvedAt ∧ r.resolvedAt ≤ r.issueAt ∧ r.issueAt ≤ r.recentAt ∧
    r.recentAt ≤ r.auditAt)
    ⟨fun ⟨h1, h2, h3, h4, h5, h6⟩ => ⟨h1, h2, h3, h4, h5, h6⟩,
      fun ⟨h1, h2, h3, h4, h5, h6⟩ => ⟨h1, h2, h3, h4, h5, h6⟩⟩

variable (N : Names) (hmac : List ℕ → List ℕ → List ℕ) (depth : ℕ) (V : TicketVerifier)

def step (s : State) (e : Event) : Option State :=
  match e with
  | .change db time => if time < s.now then none else some { s with db := db, now := time }
  | .ticket r =>
    if InOrder s r then
      match issueStoreTargetTicket N hmac s.db r with
      | (db, .ok response) => some ⟨db, r.auditAt, ⟨s.db, r, response⟩ :: s.issued, s.accepted⟩
      | (db, .error _) => some { s with db := db, now := r.auditAt }
    else none
  | .verify token time =>
    if time < s.now then none
    else
      match verify hmac depth V token (timestamp time) with
      | .ok ticket => some { s with now := time, accepted := ⟨token, ticket, time⟩ :: s.accepted }
      | .error _ => some { s with now := time }

/-- The secret the ticket was signed with: that of the store's node. -/
def Issued.secret (i : Issued) : Option (List ℕ) :=
  ((i.db.stores.get? i.request.storeId).bind fun store => i.db.nodes.get? store.edgeNodeId).map
    fun node => (issuerOf node).secret

/-- The signed part of the ticket. -/
def Issued.signs (i : Issued) (encoded : List ℕ) : Prop :=
  ∃ signature, i.response.ticket = encoded ++ 46 :: signature

/-- **No forgery**: a digest that is valid under the Edge's secret is that of an issued ticket. -/
def Unforged (s : State) (e : Event) : Prop :=
  match e with
  | .verify token _ => ∀ encoded signature, splitToken token = some (encoded, signature) →
      Lib.Base64.decode signature = some (hmac V.secret encoded) →
        ∃ i ∈ s.issued, i.secret = some V.secret ∧ i.signs encoded
  | _ => True

/-- **What an accepted ticket has been issued for**: `i` is the answer that issued it. -/
structure Authorized (i : Issued) (a : Accepted) : Prop where
  /-- The token has the signed part of the issued ticket. -/
  same : ∃ encoded signature, splitToken a.token = some (encoded, signature) ∧ i.signs encoded
  issuedAt : a.ticket.issuedAt = timestamp i.request.issueAt
  window : (timestamp a.time : ℤ) - 60 < a.ticket.issuedAt ∧ a.ticket.issuedAt ≤ timestamp a.time
  grounds : ∃ user store node lease target,
    Grounds N i.db i.request user store node lease target ∧
      a.ticket.store = decimal store.id ∧ a.ticket.node = text node.name ∧
      a.ticket.host = target.host ∧ a.ticket.port = target.port ∧
      (issuerOf node).secret = V.secret

/-- A ticket of the handler is one of its issuer, for the target it established. -/
def Issued.Sound (i : Issued) : Prop :=
  ∃ user store node lease target, Grounds N i.db i.request user store node lease target ∧
    issue hmac (issuerOf node) (decimal store.id) target.host target.port
      (some (min 60 (remaining lease i.request.resolvedAt : ℤ))) (timestamp i.request.issueAt)
      i.request.entropy = some i.response.ticket

structure Invariant (s : State) : Prop where
  issued : ∀ i ∈ s.issued, i.Sound N hmac ∧ i.request.issueAt ≤ s.now
  accepted : ∀ a ∈ s.accepted, ∃ i ∈ s.issued, Authorized N V i a

variable {N hmac depth V}

theorem encodeTicket_no_dot {I : EdgeTicketIssuer} {storeText host : List ℕ} {port : ℤ}
    {ttl : Option ℤ} {issuedAt : ℤ} {entropy encoded : List ℕ}
    (h : encodeTicket I storeText host port ttl issuedAt entropy = some encoded) :
    46 ∉ encoded := by
  unfold encodeTicket at h
  split_ifs at h
  obtain ⟨raw, -, rfl⟩ := Option.map_eq_some_iff.mp h
  intro hmem
  obtain ⟨v, -, hv⟩ := List.mem_map.mp hmem
  exact (Lib.Base64.sym_range v).2.2 hv

/-- Two texts cut at their first dot. -/
theorem cut_unique {a b s t : List ℕ} (ha : 46 ∉ a) (hb : 46 ∉ b)
    (h : a ++ 46 :: s = b ++ 46 :: t) : a = b := by
  have hcut : ∀ {c u : List ℕ}, 46 ∉ c → (c ++ 46 :: u).takeWhile (· != 46) = c := by
    intro c u hc
    have hne : ∀ x ∈ c, (x != 46) = true := by
      intro x hx
      rw [bne_iff_ne]
      rintro rfl
      exact hc hx
    rw [List.takeWhile_append_of_pos hne]
    simp
  rw [← hcut ha (u := s), h, hcut hb]

/-- An answer signs only the text its issuer wrote. -/
theorem Issued.signs_eq {i : Issued} {I : EdgeTicketIssuer} {storeText host encoded : List ℕ}
    {port issuedAt : ℤ} {ttl : Option ℤ} {entropy : List ℕ}
    (h : issue hmac I storeText host port ttl issuedAt entropy = some i.response.ticket)
    (hsigns : i.signs encoded) (hdot : 46 ∉ encoded) :
    encodeTicket I storeText host port ttl issuedAt entropy = some encoded := by
  obtain ⟨enc, henc, hticket⟩ := Option.map_eq_some_iff.mp h
  obtain ⟨signature, hs⟩ := hsigns
  have : enc = encoded := cut_unique (encodeTicket_no_dot henc) hdot (hticket.trans hs)
  rw [← this]
  exact henc

/-- The secret of the node the grounds speak of is the one the ticket was signed with. -/
theorem Issued.secret_eq {i : Issued} {user : User} {store : ManagedStore} {node : EdgeNode}
    {lease : StoreConnectionLease} {target : ResolvedTarget}
    (hg : Grounds N i.db i.request user store node lease target) :
    i.secret = some (issuerOf node).secret := by
  have hstore : i.db.stores.get? i.request.storeId = some store :=
    Table.get?_eq_some.mpr ⟨hg.store_mem, hg.store_id⟩
  have hnode : i.db.nodes.get? store.edgeNodeId = some node :=
    Table.get?_eq_some.mpr ⟨hg.node_mem, hg.node_id⟩
  simp [Issued.secret, hstore, hnode]

/-- The number of a store is written in ASCII. -/
theorem noPair_decimal (n : ℕ) : NoPair (decimal n) :=
  noPair_of_ascii fun c hc => by
    have := isDigit_iff.mp (isDigit_decimal hc)
    omega

/-- **An accepted token is an issued ticket.** -/
theorem authorized_of_verify {s : State} (hI : Invariant N hmac V s) {token : List ℕ} {time : ℕ}
    {ticket : Ticket} (hnow : s.now ≤ time)
    (hu : Unforged hmac V s (.verify token time))
    (hv : verify hmac depth V token (timestamp time) = .ok ticket) :
    ∃ i ∈ s.issued, Authorized N V i ⟨token, ticket, time⟩ := by
  obtain ⟨hauth, hexp, -⟩ := verify_eq_ok.mp hv
  obtain ⟨encoded, signature, -, -, hsplit, hsig, -⟩ := authenticate_eq_ok hauth
  obtain ⟨i, hi, hsecret, hsigns⟩ := hu encoded signature hsplit hsig
  obtain ⟨⟨user, store, node, lease, target, hg, hissue⟩, hbefore⟩ := hI.issued i hi
  have henc := Issued.signs_eq hissue hsigns (splitToken_eq_some hsplit).2.1
  have hhost : NoPair target.host := noPair_of_ascii (resolve_eq_ok hg.target_public).1
  have hticket := authenticate_issued henc (noPair_text node.name) (noPair_decimal store.id) hhost
    hsplit hauth
  have hlife : lifetime (issuerOf node) (some (min 60 (remaining lease i.request.resolvedAt : ℤ))) ≤
      60 := Int.min_le_right ..
  refine ⟨i, hi, ⟨encoded, signature, hsplit, hsigns⟩, by rw [hticket]; rfl, ⟨?_, ?_⟩,
    user, store, node, lease, target, hg, by rw [hticket]; rfl, by rw [hticket]; rfl,
    by rw [hticket]; rfl, by rw [hticket]; rfl, ?_⟩
  · rw [hticket] at hexp ⊢
    simp only [issuedTicket] at hexp ⊢
    omega
  · rw [hticket]
    have hmono : timestamp i.request.issueAt ≤ timestamp time :=
      Nat.div_le_div_right (Nat.le_trans hbefore hnow)
    simp only [issuedTicket]
    omega
  · rw [Issued.secret_eq hg] at hsecret
    exact Option.some.inj hsecret

/-- **Every step keeps the invariant.** -/
theorem invariant_step (s : State) (e : Event) (s' : State) (hI : Invariant N hmac V s)
    (hu : Unforged hmac V s e) (h : step N hmac depth V s e = some s') : Invariant N hmac V s' := by
  rcases e with ⟨db, time⟩ | r | ⟨token, time⟩
  · simp only [step] at h
    split_ifs at h with hnow
    obtain rfl := Option.some.inj h
    refine ⟨fun i hi => ?_, hI.accepted⟩
    obtain ⟨hsound, hbefore⟩ := hI.issued i hi
    exact ⟨hsound, by simp only; omega⟩
  · simp only [step] at h
    split_ifs at h with horder
    have hlater : s.now ≤ r.auditAt := by
      have h1 := horder.auth
      have h2 := horder.resolved
      have h3 := horder.issue
      have h4 := horder.recent
      have h5 := horder.audit
      omega
    have hold : ∀ i ∈ s.issued, i.Sound N hmac ∧ i.request.issueAt ≤ r.auditAt := by
      intro i hi
      obtain ⟨hsound, hbefore⟩ := hI.issued i hi
      exact ⟨hsound, Nat.le_trans hbefore hlater⟩
    split at h
    · next db response hok =>
      obtain rfl := Option.some.inj h
      refine ⟨fun i hi => ?_, fun a ha => ?_⟩
      · rcases List.mem_cons.mp hi with rfl | hi
        · refine ⟨issueStoreTargetTicket_eq_ok N hmac (by rw [hok]), ?_⟩
          exact Nat.le_trans horder.recent horder.audit
        · exact hold i hi
      · obtain ⟨i, hi, hauth⟩ := hI.accepted a ha
        exact ⟨i, List.mem_cons_of_mem _ hi, hauth⟩
    · obtain rfl := Option.some.inj h
      exact ⟨hold, hI.accepted⟩
  · simp only [step] at h
    split_ifs at h with hnow
    have hlater : ∀ i ∈ s.issued, i.Sound N hmac ∧ i.request.issueAt ≤ time := by
      intro i hi
      obtain ⟨hsound, hbefore⟩ := hI.issued i hi
      exact ⟨hsound, by omega⟩
    split at h
    · next ticket hv =>
      obtain rfl := Option.some.inj h
      refine ⟨hlater, fun a ha => ?_⟩
      rcases List.mem_cons.mp ha with rfl | ha
      · exact authorized_of_verify hI (by omega) hu hv
      · exact hI.accepted a ha
    · obtain rfl := Option.some.inj h
      exact ⟨hlater, hI.accepted⟩

def sampleNode : EdgeNode where
  id := 1
  name := "edge-a"
  endpoint := "https://edge-a.example"
  sharedSecret := "edge-ticket-secret-edge-ticket-secret"
  enabled := true
  maintenanceMode := false
  healthStatus := .online
  lastSeenAt := none
  latencyMs := none
  expectedPublicIpv4 := none
  status := {}
  lastError := none

/-- A member with a grant on the node and an active lease on its store. -/
def sampleDb : Db where
  users := ⟨[Control.Sessions.sampleUser], List.nodup_singleton _⟩
  sessions := Table.empty
  nodes := ⟨[sampleNode], List.nodup_singleton _⟩
  stores := ⟨[⟨1, "Store", none, 1, true⟩], List.nodup_singleton _⟩
  grants := ⟨[⟨1, 2, 1⟩], List.nodup_singleton _⟩
  leases := ⟨[⟨"lease-1", 1, 2, some "device-a", .active, seconds 1699999990,
    seconds 1700028790, none, none⟩], List.nodup_singleton _⟩
  audits := Table.empty

def sampleRequest : TicketRequest where
  bearer := .web ⟨2, 0⟩
  storeId := 1
  host := text "Example.com"
  port := 443
  leaseId := none
  deviceId := none
  authAt := seconds 1700000000
  leaseAt _ := seconds 1700000000
  resolvedAt := seconds 1700000000
  issueAt := seconds 1700000000
  recentAt := seconds 1700000000
  auditAt := seconds 1700000000
  answers := some [(2, text "93.184.215.14")]
  entropy := [171, 205, 239, 18, 52, 86, 120, 144, 171, 205, 239, 18, 52, 86, 120, 144, 15, 254]

/-- The request at `1700000000`, and its ticket shown to the Edge half a minute later. -/
def sampleEvents : List Event :=
  [.ticket sampleRequest, .verify Edge.Replay.sampleToken (seconds 1700000030)]

end IdenGrid.Egress.Authorization
