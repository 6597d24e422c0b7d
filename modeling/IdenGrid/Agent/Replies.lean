import IdenGrid.Agent.Central
import IdenGrid.Agent.Negotiation

/-! # The replies of a SOCKS connection

`handle_socks` from the accepted stream to the end of the relay, with `connect_and_relay`: replies are
sent by `negotiate`, by `handle_socks` and by `connect_and_relay`. A `Network` is what the other parties
answer.

`disciplined_iff`: a connection gets exactly one reply just where its address type is supported and the
Edge takes every connection that a ticket was granted for. An address type that is not supported gets
two replies, a failed connection to the Edge none. -/

namespace IdenGrid.Agent.Socks

open IdenGrid.Lib.Reads IdenGrid.Agent.Central

/-- The answers of Central and of the Edge: the response to the ticket request for a host and a port,
whether the WebSocket is connected, and the data frames that come over it. -/
structure Network where
  ticket : List UInt8 → UInt16 → Option (Response TicketResponse)
  connects : Bool
  frames : List (List UInt8)

/-- A result is a value of the caller; a panic is not. -/
def attempt {α : Type} (x : Conversation α) : Conversation (Except Fault α) := fun s =>
  match x s with
  | (.error .panic, s') => (.error .panic, s')
  | (r, s') => (.ok r, s')

/-- `let _ = send_reply(..)`, and the error is returned. -/
def refuse (code : UInt8) (e : Fault) : Conversation Unit := do
  let _ ← attempt (sendReply code)
  throw e

def Socket.logs (s : Socket) (act : Act) : Socket := { s with log := s.log ++ [act] }

/-- The error is returned under a context. -/
def withContext (text : String) (x : Conversation Unit) : Conversation Unit := do
  match ← attempt x with
  | .error e => throw (.context text e)
  | .ok () => pure ()

/-- `connect_async` returns. -/
def connected : Conversation Unit := fun s => (.ok (), s.logs .connected)

/-- The writes of the relay loop. -/
def relay : List (List UInt8) → Conversation Unit
  | [] => pure ()
  | bytes :: frames => do
    writeAll (.data bytes)
    relay frames

section Handle

variable (U : Urls) (clientRequest : Url → Bool) (lease : String) (endpoint : Url) (N : Network)

/-- The Edge WebSocket is connected: `into_client_request` makes a request of the endpoint, the ticket
can stand in its header, and `connect_async` succeeds. -/
def dials (ticket : String) : Bool :=
  clientRequest endpoint && U.headerValue ("Bearer " ++ ticket) && N.connects

/-- `connect_and_relay`. -/
def connectAndRelay (ticket : String) : Conversation Unit :=
  if clientRequest endpoint = false then throw (.context "build Edge WebSocket request" .webSocket)
  else if U.headerValue ("Bearer " ++ ticket) = false then
    throw (.context "invalid Edge ticket" .webSocket)
  else if N.connects = false then throw (.context "connect to Edge WebSocket" .webSocket)
  else do
    connected
    sendReply 0
    relay N.frames

/-- `handle_socks` with the ticket. -/
def handleTicket (ticket : TicketResponse) : Conversation Unit :=
  match edgeTunnelUrl U ticket.edgeEndpoint with
  | none => throw .central
  | some ticketEndpoint =>
    if ticket.leaseId ≠ lease ∨ ticketEndpoint ≠ endpoint then do
      sendReply 2
      throw (.bail "ticket changed immutable lease or Edge endpoint")
    else withContext "Edge binary relay" (connectAndRelay U clientRequest endpoint N ticket.ticket)

/-- `handle_socks` with the result of `negotiate`. -/
def handleTarget : Except Fault Target → Conversation Unit
  | .error e => refuse 1 (.context "SOCKS negotiation" e)
  | .ok target =>
    match Central.ticket U (N.ticket target.host target.port) with
    | none => refuse 2 (.context "request one-time target ticket" .central)
    | some ticket => handleTicket U clientRequest lease endpoint N ticket

/-- `handle_socks`. -/
def handleSocks : Conversation Unit := do
  let r ← attempt negotiate
  handleTarget U clientRequest lease endpoint N r

end Handle

/-! ## What is done after the negotiation -/

section Steps

variable {α : Type} {s s' : Socket}

theorem attempt_ok {x : Conversation α} {a : α} (h : x s = (.ok a, s')) :
    attempt x s = (.ok (.ok a), s') := by
  unfold attempt
  rw [h]

theorem attempt_error {x : Conversation α} {e : Fault} (h : x s = (.error e, s'))
    (he : e ≠ .panic) : attempt x s = (.ok (.error e), s') := by
  unfold attempt
  rw [h]
  cases e with
  | panic => exact absurd rfl he
  | _ => rfl

theorem withContext_snd (text : String) (x : Conversation Unit) (s : Socket) :
    (withContext text x s).2 = (x s).2 := by
  have hattempt : ∃ r, attempt x s = (r, (x s).2) := by
    unfold attempt
    split
    · next h => exact ⟨_, by rw [h]⟩
    · next h => exact ⟨_, by rw [h]⟩
  obtain ⟨r, hr⟩ := hattempt
  unfold withContext
  rw [run_bind, hr]
  rcases r with e | e | a <;> rfl

theorem sendReply_ok {code : UInt8} (h : 10 ≤ s.room) :
    sendReply code s = (.ok (), s.writes (.reply code)) := writeAll_ok h

theorem refuse_eq {code : UInt8} {e : Fault} (h : 10 ≤ s.room) :
    refuse code e s = (.error e, s.writes (.reply code)) := by
  unfold refuse
  rw [run_ok (attempt_ok (sendReply_ok h))]
  rfl

/-- The relay only writes data. -/
theorem relay_log : ∀ (frames : List (List UInt8)) (s : Socket),
    ∃ written : List (List UInt8), (relay frames s).2.log = s.log ++ written.map .data
  | [], s => ⟨[], (List.append_nil _).symm⟩
  | bytes :: frames, s => by
    rcases writeAll_cases (.data bytes) s with hsent | hfail
    · obtain ⟨written, hlog⟩ := relay_log frames (s.writes (.data bytes))
      refine ⟨bytes :: written, ?_⟩
      rw [relay, run_ok hsent, hlog]
      show s.log ++ [.data bytes] ++ _ = _
      rw [List.append_assoc]
      rfl
    · refine ⟨[], ?_⟩
      rw [relay, run_error hfail]
      exact (List.append_nil _).symm

end Steps

/-! ## The log of a connection -/

/-- A greeting with any methods. -/
def Hello (greeting : List UInt8) : Prop :=
  ∃ count methods, greeting = [5, count] ++ methods ∧ methods.length = count.toNat ∧ count ≠ 0

/-- The head of a request of an address type that is not supported. -/
def UnsupportedHead (header : List UInt8) : Prop :=
  ∃ x y z kind, header = [x, y, z, kind] ∧ kind ≠ 1 ∧ kind ≠ 4 ∧ kind ≠ 3

/-- A local client that completes the greeting, sends a complete request header, whatever comes
after it and however it is split, and takes the answers. -/
structure Client (s : Socket) (greeting header more : List UInt8) : Prop where
  hello : Hello greeting
  complete : ExactLength header ∨ UnsupportedHead header
  arrives : arriving s.incoming = greeting ++ (header ++ more)
  takes : 22 ≤ s.room
  fresh : s.log = []

/-- The client offers to go on without authentication. -/
def OffersNoAuth (greeting : List UInt8) : Prop := 0 ∈ greeting.drop 2

section Handle

variable {U : Urls} {clientRequest : Url → Bool} {lease : String} {endpoint : Url} {N : Network}
  {s : Socket} {greeting header more : List UInt8}

/-- The ticket that Central grants for the request, for the lease and the endpoint of the agent. -/
def Granted (U : Urls) (lease : String) (endpoint : Url) (N : Network) (target : Target)
    (ticket : TicketResponse) : Prop :=
  Central.ticket U (N.ticket target.host target.port) = some ticket ∧ ticket.leaseId = lease ∧
    edgeTunnelUrl U ticket.edgeEndpoint = some endpoint

theorem handleSocks_refused {e : Fault} {s' : Socket} (h : negotiate s = (.error e, s'))
    (he : e ≠ .panic) (hroom : 10 ≤ s'.room) :
    (handleSocks U clientRequest lease endpoint N s).2.log = s'.log ++ [.reply 1] := by
  unfold handleSocks
  rw [run_ok (attempt_error h he)]
  show (refuse 1 _ s').2.log = _
  rw [refuse_eq hroom]
  rfl

theorem handleSocks_target {target : Target} {s' : Socket} (h : negotiate s = (.ok target, s')) :
    handleSocks U clientRequest lease endpoint N s =
      handleTarget U clientRequest lease endpoint N (.ok target) s' := by
  unfold handleSocks
  rw [run_ok (attempt_ok h)]

/-- The WebSocket is connected: the reply and the data of the relay. -/
theorem connectAndRelay_dials {ticket : String}
    (h : dials U clientRequest endpoint N ticket = true) (hroom : 10 ≤ s.room) :
    ∃ written : List (List UInt8),
      (connectAndRelay U clientRequest endpoint N ticket s).2.log =
        s.log ++ .connected :: .reply 0 :: written.map .data := by
  simp only [dials, Bool.and_eq_true] at h
  obtain ⟨⟨hrequest, hheader⟩, hconnects⟩ := h
  have hconnected : connected s = (.ok (), s.logs .connected) := rfl
  have hreply : sendReply 0 (s.logs .connected) = (.ok (), (s.logs .connected).writes (.reply 0)) :=
    sendReply_ok hroom
  obtain ⟨written, hlog⟩ := relay_log N.frames ((s.logs .connected).writes (.reply 0))
  refine ⟨written, ?_⟩
  unfold connectAndRelay
  rw [if_neg (ne_false_of_eq_true hrequest), if_neg (ne_false_of_eq_true hheader),
    if_neg (ne_false_of_eq_true hconnects), run_ok hconnected, run_ok hreply, hlog]
  show s.log ++ [.connected] ++ [.reply 0] ++ _ = _
  rw [List.append_assoc, List.append_assoc]
  rfl

/-- No connection to the Edge: nothing is sent. -/
theorem connectAndRelay_fails {ticket : String}
    (h : dials U clientRequest endpoint N ticket = false) :
    (connectAndRelay U clientRequest endpoint N ticket s).2 = s := by
  unfold connectAndRelay
  by_cases hrequest : clientRequest endpoint = false
  · rw [if_pos hrequest]
    rfl
  rw [if_neg hrequest]
  by_cases hheader : U.headerValue ("Bearer " ++ ticket) = false
  · rw [if_pos hheader]
    rfl
  rw [if_neg hheader]
  have hconnects : N.connects = false := by
    rw [Bool.not_eq_false] at hrequest hheader
    simpa [dials, hrequest, hheader] using h
  rw [if_pos hconnects]
  rfl

/-- A ticket for the lease and the endpoint: the Edge is asked. -/
theorem handleTicket_same {ticket : TicketResponse} (hlease : ticket.leaseId = lease)
    (hendpoint : edgeTunnelUrl U ticket.edgeEndpoint = some endpoint) :
    (handleTicket U clientRequest lease endpoint N ticket s).2 =
      (connectAndRelay U clientRequest endpoint N ticket.ticket s).2 := by
  have hsame : ¬ (ticket.leaseId ≠ lease ∨ endpoint ≠ endpoint) :=
    not_or.mpr ⟨not_not.mpr hlease, not_not.mpr rfl⟩
  unfold handleTicket
  rw [hendpoint]
  dsimp only
  rw [if_neg hsame]
  exact withContext_snd _ _ s

/-- A ticket for another lease or endpoint is refused. -/
theorem handleTicket_changed {ticket : TicketResponse} (hroom : 10 ≤ s.room)
    (hurl : (edgeTunnelUrl U ticket.edgeEndpoint).isSome = true)
    (h : ¬ (ticket.leaseId = lease ∧ edgeTunnelUrl U ticket.edgeEndpoint = some endpoint)) :
    (handleTicket U clientRequest lease endpoint N ticket s).2.log = s.log ++ [.reply 2] := by
  obtain ⟨url, hurl⟩ := Option.isSome_iff_exists.mp hurl
  rw [hurl] at h
  have hchanged : ticket.leaseId ≠ lease ∨ url ≠ endpoint := by
    by_contra hsame
    obtain ⟨hlease, hendpoint⟩ := not_or.mp hsame
    exact h ⟨not_not.mp hlease, congrArg some (not_not.mp hendpoint)⟩
  unfold handleTicket
  rw [hurl]
  dsimp only
  rw [if_pos hchanged, run_ok (sendReply_ok hroom)]
  rfl

/-- What Central grants has an endpoint. -/
theorem ticket_endpoint {r : Option (Response TicketResponse)} {ticket : TicketResponse}
    (h : Central.ticket U r = some ticket) :
    (edgeTunnelUrl U ticket.edgeEndpoint).isSome = true := by
  obtain ⟨-, hvalid⟩ := Option.filter_eq_some_iff.mp h
  simp only [TicketResponse.validate, Bool.and_eq_true] at hvalid
  exact hvalid.2

variable {target : Target}

/-- **A granted ticket is used.** -/
theorem handleTarget_granted {ticket : TicketResponse}
    (h : Granted U lease endpoint N target ticket) :
    (handleTarget U clientRequest lease endpoint N (.ok target) s).2 =
      (connectAndRelay U clientRequest endpoint N ticket.ticket s).2 := by
  obtain ⟨hticket, hlease, hendpoint⟩ := h
  unfold handleTarget
  dsimp only
  rw [hticket]
  exact handleTicket_same hlease hendpoint

/-- **Without one the reply is 2.** -/
theorem handleTarget_refused (hroom : 10 ≤ s.room)
    (h : ∀ ticket, ¬ Granted U lease endpoint N target ticket) :
    (handleTarget U clientRequest lease endpoint N (.ok target) s).2.log =
      s.log ++ [.reply 2] := by
  unfold handleTarget
  dsimp only
  cases hticket : Central.ticket U (N.ticket target.host target.port) with
  | none =>
    show (refuse 2 _ s).2.log = _
    rw [refuse_eq hroom]
    rfl
  | some ticket =>
    exact handleTicket_changed hroom (ticket_endpoint hticket) fun hsame =>
      h ticket ⟨hticket, hsame.1, hsame.2⟩

theorem Granted.unique {ticket ticket' : TicketResponse}
    (h : Granted U lease endpoint N target ticket)
    (h' : Granted U lease endpoint N target ticket') : ticket = ticket' :=
  Option.some.inj (h.1.symm.trans h'.1)

end Handle

/-! ## One reply -/

/-- The replies of a log. -/
def replies (log : List Act) : List UInt8 :=
  log.filterMap fun act => match act with
    | .reply code => some code
    | _ => none

/-- **The reply discipline**: one reply, of success just where the Edge is connected; the connection
comes before it and the data of the application after it. -/
structure Disciplined (log : List Act) : Prop where
  once : ∃ code, replies log = [code] ∧ (code = 0 ↔ Act.connected ∈ log)
  connected_before : ∀ front back, log = front ++ .reply 0 :: back → Act.connected ∈ front
  data_after : ∀ front bytes back, log = front ++ .data bytes :: back → ∃ code, .reply code ∈ front

/-- A reply of failure after the answer to the greeting. -/
theorem disciplined_failure (method : UInt8) {code : UInt8} (hcode : code ≠ 0) :
    Disciplined [.method method, .reply code] := by
  refine ⟨⟨code, rfl, fun h => absurd h hcode, fun h => absurd h (by simp)⟩,
    fun front back h => ?_, fun front bytes back h => ?_⟩
  · have hmem : Act.reply 0 ∈ [Act.method method, .reply code] := by
      rw [h]
      exact List.mem_append_right _ List.mem_cons_self
    simp only [List.mem_cons, List.not_mem_nil, or_false, reduceCtorEq, false_or,
      Act.reply.injEq] at hmem
    exact absurd hmem.symm hcode
  · have hmem : Act.data bytes ∈ [Act.method method, .reply code] := by
      rw [h]
      exact List.mem_append_right _ List.mem_cons_self
    simp at hmem

theorem replies_data (written : List (List UInt8)) : replies (written.map .data) = [] := by
  induction written with
  | nil => rfl
  | cons bytes written ih => exact ih

/-- The reply of success, and the relay. -/
theorem disciplined_relay (method : UInt8) (written : List (List UInt8)) :
    Disciplined (.method method :: .connected :: .reply 0 :: written.map .data) := by
  refine ⟨⟨0, ?_, fun _ => List.mem_cons_of_mem _ List.mem_cons_self, fun _ => rfl⟩,
    fun front back h => ?_, fun front bytes back h => ?_⟩
  · show 0 :: replies (written.map .data) = _
    rw [replies_data]
  · rcases front with _ | ⟨a, _ | ⟨b, front⟩⟩
    · simp at h
    · simp at h
    · simp only [List.cons_append, List.cons.injEq] at h
      obtain ⟨-, rfl, -⟩ := h
      exact List.mem_cons_of_mem _ List.mem_cons_self
  · rcases front with _ | ⟨a, _ | ⟨b, _ | ⟨c, front⟩⟩⟩
    · simp at h
    · simp at h
    · simp at h
    · simp only [List.cons_append, List.cons.injEq] at h
      obtain ⟨-, -, rfl, -⟩ := h
      exact ⟨0, List.mem_cons_of_mem _ (List.mem_cons_of_mem _ List.mem_cons_self)⟩

/-- No reply, or two. -/
theorem not_disciplined {log : List Act} (h : (replies log).length ≠ 1) : ¬ Disciplined log := by
  intro hd
  obtain ⟨code, hcode, -⟩ := hd.once
  exact h (congrArg List.length hcode)

/-! ## What a client gets -/

section Client

variable {U : Urls} {clientRequest : Url → Bool} {lease : String} {endpoint : Url} {N : Network}
  {s : Socket} {greeting header more : List UInt8}

/-- The address type has a length. -/
def Supported (header : List UInt8) : Prop :=
  ∃ kind, header[3]? = some kind ∧ (kind = 1 ∨ kind = 3 ∨ kind = 4)

theorem ExactLength.supported (h : ExactLength header) : Supported header := by
  obtain ⟨x, y, z, ⟨kind, tail, rfl, hkind⟩ | ⟨len, tail, rfl, -⟩⟩ := h.cases
  · refine ⟨kind, rfl, ?_⟩
    obtain ⟨hk, -⟩ | ⟨hk, -⟩ := hkind
    · exact Or.inl hk
    · exact Or.inr (Or.inr hk)
  · exact ⟨3, rfl, Or.inr (Or.inl rfl)⟩

theorem UnsupportedHead.not_supported (h : UnsupportedHead header) : ¬ Supported header := by
  obtain ⟨x, y, z, kind, rfl, h1, h4, h3⟩ := h
  rintro ⟨kind', hkind, hcases⟩
  obtain rfl : kind = kind' := Option.some.inj hkind
  obtain h | h | h := hcases
  · exact h1 h
  · exact h3 h
  · exact h4 h

/-- **When the client gets one reply**: it does not offer to go on without authentication, or the
address type of its request is supported and the Edge takes the connection if a ticket is granted. -/
def Served (U : Urls) (clientRequest : Url → Bool) (lease : String) (endpoint : Url) (N : Network)
    (greeting header : List UInt8) : Prop :=
  OffersNoAuth greeting → Supported header ∧ ∀ target ticket, parseRequest header = .ok target →
    Granted U lease endpoint N target ticket →
      dials U clientRequest endpoint N ticket.ticket = true

/-- A greeting without the method is answered by 255. -/
theorem negotiate_refuses (hello : Hello greeting) (hmethod : ¬ OffersNoAuth greeting)
    {rest : List UInt8} (h : arriving s.incoming = greeting ++ rest) (hroom : 2 ≤ s.room) :
    ∃ left, negotiate s =
      (.error (.bail "no-auth method unavailable"), (s.writes (.method 255)).reads left) := by
  obtain ⟨count, methods, rfl, hcount, hpositive⟩ := hello
  rw [List.append_assoc] at h
  obtain ⟨left, hread, hleft⟩ := readExact_arrives h
  obtain ⟨left', hmethods, -⟩ := readExact_arrives (s := s.reads left) hleft
  rw [hcount] at hmethods
  have hgood : ¬ ((5 : UInt8) ≠ 5 ∨ count = 0) := not_or.mpr ⟨not_not.mpr rfl, hpositive⟩
  have hsent : writeAll (.method 255) (s.reads left') =
      (.ok (), (s.reads left').writes (.method 255)) := writeAll_ok hroom
  exact ⟨left', (negotiate_noMethod hread hgood hmethods hmethod).trans (run_ok hsent)⟩

/-- A greeting with it is a greeting that is accepted. -/
theorem Hello.accepted (hello : Hello greeting) (hmethod : OffersNoAuth greeting) :
    Greeting greeting := by
  obtain ⟨count, methods, rfl, hcount, hpositive⟩ := hello
  exact ⟨count, methods, rfl, hcount, hpositive, hmethod⟩

/-- An address type that is not supported is answered by `negotiate` itself. -/
theorem negotiate_unsupported (hgreeting : Greeting greeting) (hhead : UnsupportedHead header)
    (h : arriving s.incoming = greeting ++ (header ++ more)) (hroom : 12 ≤ s.room) :
    ∃ left, negotiate s = (.error (.bail "unsupported address type"),
      ((s.writes (.method 0)).reads left).writes (.reply 8)) := by
  obtain ⟨x, y, z, kind, rfl, h1, h4, h3⟩ := hhead
  obtain ⟨left, hrun, hleft⟩ := negotiate_greets hgreeting h (by omega)
  obtain ⟨left', hread, -⟩ := readExact_arrives (s := (s.writes (.method 0)).reads left) hleft
  have hreply : sendReply 8 ((s.writes (.method 0)).reads left') =
      (.ok (), ((s.writes (.method 0)).reads left').writes (.reply 8)) :=
    sendReply_ok (by show 10 ≤ s.room - 2; omega)
  have htail : tailLength kind ((s.writes (.method 0)).reads left') =
      (.error (.bail "unsupported address type"),
        ((s.writes (.method 0)).reads left').writes (.reply 8)) := by
    rw [tailLength_unsupported h1 h4 h3]
    exact run_ok hreply
  exact ⟨left', hrun.trans (readRequest_fails hread htail)⟩

/-- **One reply for a client**, exactly when it is served. -/
theorem disciplined_iff (h : Client s greeting header more) :
    Disciplined (handleSocks U clientRequest lease endpoint N s).2.log ↔
      Served U clientRequest lease endpoint N greeting header := by
  have hroom := h.takes
  by_cases hmethod : OffersNoAuth greeting
  swap
  · obtain ⟨left, hrun⟩ := negotiate_refuses h.hello hmethod h.arrives (by omega)
    have hlog : (handleSocks U clientRequest lease endpoint N s).2.log =
        [.method 255, .reply 1] := by
      rw [handleSocks_refused hrun (fun heq => Fault.noConfusion heq)
        (by show 10 ≤ s.room - 2; omega)]
      show s.log ++ [.method 255] ++ [.reply 1] = _
      rw [h.fresh]
      rfl
    rw [hlog]
    exact ⟨fun _ hoffers => absurd hoffers hmethod, fun _ => disciplined_failure 255 (by decide)⟩
  have hgreeting := h.hello.accepted hmethod
  obtain hexact | hhead := h.complete
  swap
  · obtain ⟨left, hrun⟩ := negotiate_unsupported hgreeting hhead h.arrives (by omega)
    have hlog : (handleSocks U clientRequest lease endpoint N s).2.log =
        [.method 0, .reply 8, .reply 1] := by
      rw [handleSocks_refused hrun (fun heq => Fault.noConfusion heq)
        (by show 10 ≤ s.room - 2 - 10; omega)]
      show s.log ++ [.method 0] ++ [.reply 8] ++ [.reply 1] = _
      rw [h.fresh]
      rfl
    rw [hlog]
    exact ⟨fun hd => absurd hd (not_disciplined (by decide)),
      fun hserved => absurd (hserved hmethod).1 hhead.not_supported⟩
  obtain ⟨left, hrun, -⟩ := negotiate_arrives hgreeting hexact h.arrives (by omega)
  cases hparse : parseRequest header with
  | error e =>
    rw [hparse] at hrun
    have hlog : (handleSocks U clientRequest lease endpoint N s).2.log =
        [.method 0, .reply 1] := by
      rw [handleSocks_refused hrun (fun heq => parseRequest_safe header (heq ▸ hparse))
        (by show 10 ≤ s.room - 2; omega)]
      show s.log ++ [.method 0] ++ [.reply 1] = _
      rw [h.fresh]
      rfl
    rw [hlog]
    refine ⟨fun _ _ => ⟨hexact.supported, fun target ticket ht => ?_⟩,
      fun _ => disciplined_failure 0 (by decide)⟩
    rw [hparse] at ht
    exact absurd ht (by simp)
  | ok target =>
    rw [hparse] at hrun
    have hstart : ((s.writes (.method 0)).reads left).log = [.method 0] := by
      show s.log ++ [.method 0] = _
      rw [h.fresh]
      rfl
    have hleft : 10 ≤ ((s.writes (.method 0)).reads left).room := by
      show 10 ≤ s.room - 2
      omega
    rw [handleSocks_target hrun]
    by_cases hgranted : ∃ ticket, Granted U lease endpoint N target ticket
    · obtain ⟨ticket, hticket⟩ := hgranted
      rw [handleTarget_granted hticket]
      cases hdials : dials U clientRequest endpoint N ticket.ticket with
      | true =>
        obtain ⟨written, hlog⟩ := connectAndRelay_dials hdials hleft
        rw [hlog, hstart]
        refine ⟨fun _ _ => ⟨hexact.supported, fun target' ticket' ht hticket' => ?_⟩,
          fun _ => disciplined_relay 0 written⟩
        obtain rfl := Except.ok.inj (hparse.symm.trans ht)
        rw [hticket'.unique hticket]
        exact hdials
      | false =>
        rw [connectAndRelay_fails hdials, hstart]
        refine ⟨fun hd => absurd hd (not_disciplined (by decide)), fun hserved => ?_⟩
        have hyes := (hserved hmethod).2 target ticket hparse hticket
        rw [hdials] at hyes
        exact absurd hyes Bool.false_ne_true
    · have hnone : ∀ ticket, ¬ Granted U lease endpoint N target ticket := fun ticket hticket =>
        hgranted ⟨ticket, hticket⟩
      rw [handleTarget_refused hleft hnone, hstart]
      refine ⟨fun _ _ => ⟨hexact.supported, fun target' ticket' ht hticket' => ?_⟩,
        fun _ => disciplined_failure 0 (by decide)⟩
      obtain rfl := Except.ok.inj (hparse.symm.trans ht)
      exact absurd hticket' (hnone ticket')

end Client

/-- A client that asks for `1.1.1.1:80`, with data right after the request; Central grants a ticket and
the Edge takes the connection. -/
theorem disciplined_iff_served :
    Disciplined (handleSocks
      ⟨fun _ => some ⟨"https", "", none, some "edge", none, "/", none, none⟩,
        fun url scheme => some { url with scheme := scheme }, fun _ => true⟩
      (fun _ => true) "lease" ⟨"wss", "", none, some "edge", none, "/v1/tunnel", none, none⟩
      ⟨fun _ _ => some ⟨201, some ⟨"ticket", "lease", "https://edge", 30⟩⟩, true, [[1, 2]]⟩
      ⟨[some [5, 1], some [0, 5, 1, 0, 1, 1, 1, 1, 1, 0, 80, 7]], 22, []⟩).2.log := by
  have hclient : Client ⟨[some [5, 1], some [0, 5, 1, 0, 1, 1, 1, 1, 1, 0, 80, 7]], 22, []⟩
      [5, 1, 0] [5, 1, 0, 1, 1, 1, 1, 1, 0, 80] [7] :=
    ⟨⟨1, [0], rfl, rfl, by decide⟩, Or.inl rfl, rfl, Nat.le_refl 22, rfl⟩
  exact (disciplined_iff hclient).mpr fun _ => ⟨⟨1, rfl, Or.inl rfl⟩, fun _ _ _ _ => rfl⟩

/-- **Two replies** to a client that names address type 2, **and none** to one whose connection to the
Edge fails. -/
theorem replied_twice_or_never :
    replies (handleSocks ⟨fun _ => none, fun _ _ => none, fun _ => true⟩ (fun _ => true) "lease"
      ⟨"wss", "", none, some "edge", none, "/v1/tunnel", none, none⟩ ⟨fun _ _ => none, true, []⟩
      ⟨[some [5, 1, 0, 5, 1, 0, 2]], 22, []⟩).2.log = [8, 1] ∧
    replies (handleSocks
      ⟨fun _ => some ⟨"https", "", none, some "edge", none, "/", none, none⟩,
        fun url scheme => some { url with scheme := scheme }, fun _ => true⟩
      (fun _ => true) "lease" ⟨"wss", "", none, some "edge", none, "/v1/tunnel", none, none⟩
      ⟨fun _ _ => some ⟨201, some ⟨"ticket", "lease", "https://edge", 30⟩⟩, false, []⟩
      ⟨[some [5, 1, 0, 5, 1, 0, 1, 1, 1, 1, 1, 0, 80]], 22, []⟩).2.log = [] ∧
    ¬ ∀ (U : Urls) (clientRequest : Url → Bool) (lease : String) (endpoint : Url) (N : Network)
        (s : Socket) (greeting header more : List UInt8), Client s greeting header more →
          Disciplined (handleSocks U clientRequest lease endpoint N s).2.log := by
  have htwice : replies (handleSocks ⟨fun _ => none, fun _ _ => none, fun _ => true⟩ (fun _ => true)
      "lease" ⟨"wss", "", none, some "edge", none, "/v1/tunnel", none, none⟩
      ⟨fun _ _ => none, true, []⟩ ⟨[some [5, 1, 0, 5, 1, 0, 2]], 22, []⟩).2.log = [8, 1] := by
    decide +kernel
  refine ⟨htwice, by decide +kernel, fun h => ?_⟩
  have hclient : Client ⟨[some [5, 1, 0, 5, 1, 0, 2]], 22, []⟩ [5, 1, 0] [5, 1, 0, 2] [] :=
    ⟨⟨1, [0], rfl, rfl, by decide⟩, Or.inr ⟨5, 1, 0, 2, rfl, by decide, by decide, by decide⟩, rfl,
      Nat.le_refl 22, rfl⟩
  have hone := (h ⟨fun _ => none, fun _ _ => none, fun _ => true⟩ (fun _ => true) "lease"
    ⟨"wss", "", none, some "edge", none, "/v1/tunnel", none, none⟩ ⟨fun _ _ => none, true, []⟩
    _ [5, 1, 0] [5, 1, 0, 2] [] hclient).once
  rw [htwice] at hone
  obtain ⟨code, hcode, -⟩ := hone
  simp at hcode

end IdenGrid.Agent.Socks
