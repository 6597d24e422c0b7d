import IdenGrid.Lib.Orm
import IdenGrid.Control.Serial

/-! # Cloud browsers

`browser_sessions`, and its handlers next to those of the accounts. `start_session` is cut in two:
it inserts its row as `starting` and commits, then waits for `runner.start`, then writes what has
become of it; any other request may run meanwhile. What the runner answers is an argument. A request
whose call of the runner raises is rolled back and does nothing, apart from `start_session`, which
then writes `error`.

A viewer ticket and a viewer cookie are modelled by what their signer finds in them. -/

namespace IdenGrid.Control.Browsers

open IdenGrid.Lib.Orm IdenGrid.Lib.Store
open IdenGrid.Control.Rows IdenGrid.Control.Sessions IdenGrid.Control.Accounts
open IdenGrid.Control.Serial hiding step

inductive SessionStatus
  | starting
  | running
  | stopped
  | error
  deriving DecidableEq, Repr

/-- A row of `browser_sessions`. -/
structure BrowserSession where
  id : String
  userId : ℕ
  profileKey : String
  status : SessionStatus
  endpoint : Option String
  updatedAt : ℕ
  deriving DecidableEq, Repr

/-- `status.in_(["starting", "running"])`. -/
def BrowserSession.active (b : BrowserSession) : Bool := b.status = .starting || b.status = .running

/-- The write-back of a loaded session. -/
def BrowserSession.flush (loaded new cur : BrowserSession) : BrowserSession where
  id := cur.id
  userId := cur.userId
  profileKey := col loaded.profileKey new.profileKey cur.profileKey
  status := col loaded.status new.status cur.status
  endpoint := col loaded.endpoint new.endpoint cur.endpoint
  updatedAt := col loaded.updatedAt new.updatedAt cur.updatedAt

/-- `RunnerSession`. -/
structure RunnerSession where
  endpoint : String
  status : SessionStatus
  deriving DecidableEq, Repr

/-- The payload of a viewer ticket or of a viewer cookie. -/
structure SessionTicket where
  userId : ℕ
  sessionId : String
  expiresAt : ℕ
  deriving DecidableEq, Repr

/-- `SessionTicketSigner.verify`, with what `loads` finds in the token. -/
def verifyTicket (payload : Option SessionTicket) (userId : ℕ) (sessionId : String) (now : ℕ) :
    Bool :=
  payload.any fun t => t.userId = userId && t.sessionId = sessionId && now < t.expiresAt

abbrev BrowserTable := Table BrowserSession.id

/-! ## The handlers -/

/-- The row that `start_session` inserts. -/
def newBrowser (user : User) (id : String) (now : ℕ) : BrowserSession where
  id := id
  userId := user.id
  profileKey := s!"user-{user.id}"
  status := .starting
  endpoint := none
  updatedAt := now

/-- `start_session` up to `runner.start`: the session it starts, if it gets that far. `runnerStatus`
is `runner.status(active.id)`. -/
def startSession (user : User) (runnerStatus : SessionStatus) (id : String) (now : ℕ)
    (browsers : BrowserTable) : BrowserTable × Option BrowserSession :=
  let active := browsers.first fun b => b.userId = user.id ∧ b.active = true
  let seen := active.elim browsers fun b => browsers.put { b with status := runnerStatus }
  if active.isSome ∧ runnerStatus = .running then (seen, none)
  else if h : ∀ b ∈ seen.rows, b.id ≠ id then
    (seen.insert (newBrowser user id now) h, some (newBrowser user id now))
  else (seen, none)

/-- The session after `runner.start`: `none` if it has raised. -/
def startedSession (item : BrowserSession) (now : ℕ) : Option RunnerSession → BrowserSession
  | some started =>
    { item with status := started.status, endpoint := some started.endpoint, updatedAt := now }
  | none => { item with status := .error }

/-- The last commit of `start_session`. -/
def finishStart (item : BrowserSession) (started : Option RunnerSession) (now : ℕ)
    (browsers : BrowserTable) : BrowserTable :=
  browsers.mapRows
    (fun b =>
      if b.id = item.id then BrowserSession.flush item (startedSession item now started) b else b)
    fun b => by split_ifs <;> rfl

/-- `owned_session`. -/
def ownedSession (user : User) (id : String) (browsers : BrowserTable) : Option BrowserSession :=
  browsers.first fun b => b.id = id ∧ b.userId = user.id

/-- `stop_session`. -/
def stopSession (user : User) (id : String) (now : ℕ) (browsers : BrowserTable) : BrowserTable :=
  match ownedSession user id browsers with
  | some item => browsers.put { item with status := .stopped, updatedAt := now }
  | none => browsers

/-- `get_session`. -/
def getSession (user : User) (id : String) (runnerStatus : SessionStatus)
    (browsers : BrowserTable) : BrowserTable :=
  match ownedSession user id browsers with
  | some item =>
    if item.status = .running then browsers.put { item with status := runnerStatus } else browsers
  | none => browsers

/-- `admin_sessions`. -/
def adminSessions (runnerStatus : String → SessionStatus) (browsers : BrowserTable) :
    BrowserTable :=
  browsers.mapRows (fun b => if b.active then { b with status := runnerStatus b.id } else b)
    fun b => by split_ifs <;> rfl

/-- `force_stop`. -/
def forceStop (id : String) (browsers : BrowserTable) : BrowserTable :=
  match browsers.get? id with
  | some item => browsers.put { item with status := .stopped }
  | none => browsers

/-- What `disable_user` and `delete_user` do to the sessions of the account. -/
def endSessions (userId : ℕ) (f : BrowserSession → BrowserSession) (hf : ∀ b, (f b).id = b.id)
    (browsers : BrowserTable) : BrowserTable :=
  browsers.mapRows (fun b => if b.userId = userId ∧ b.active = true then f b else b) fun b => by
    split_ifs
    · exact hf b
    · rfl

def disabledSession (b : BrowserSession) : BrowserSession := { b with status := .stopped }

def deletedSession (now : ℕ) (b : BrowserSession) : BrowserSession :=
  { b with status := .stopped, endpoint := none, updatedAt := now }

/-- The part that a request of the account life cycle has in `browser_sessions`. -/
def accountSessions (db : Db) (req : Request) (browsers : BrowserTable) : BrowserTable :=
  match req with
  | .disableUser userId =>
    match disableTarget (db.users.get? userId) with
    | some target => endSessions target.id disabledSession (fun _ => rfl) browsers
    | none => browsers
  | .deleteUser userId _ now =>
    match memberUser (db.users.get? userId) with
    | some target => endSessions target.id (deletedSession now) (fun _ => rfl) browsers
    | none => browsers
  | _ => browsers

/-- `session_ticket`. -/
def sessionTicket (user : User) (id : String) (now : ℕ) (browsers : BrowserTable) :
    Option SessionTicket :=
  (ownedSession user id browsers).bind fun item =>
    if item.status = .running then some ⟨user.id, item.id, now + seconds 60⟩ else none

/-- `establish_viewer_session`: the payload of the cookie. -/
def establishViewerSession (user : User) (id : String) (ticket : Option SessionTicket) (now : ℕ)
    (browsers : BrowserTable) : Option SessionTicket :=
  (ownedSession user id browsers).bind fun item =>
    if item.status = .running ∧ verifyTicket ticket user.id item.id now = true then
      some ⟨user.id, item.id, now + minutes (8 * 60)⟩
    else none

/-- `authorize_viewer`. -/
def authorizeViewer (id : String) (ticket : Option SessionTicket) (now : ℕ)
    (browsers : BrowserTable) : Option BrowserSession :=
  (browsers.get? id).filter fun item =>
    item.status = .running && verifyTicket ticket item.userId item.id now

/-! ## Runs -/

/-- The accounts, the sessions, the sessions whose `runner.start` is under way, and the payloads of
the tickets and cookies handed out. -/
structure Cloud where
  ctl : Ctl
  browsers : BrowserTable
  starting : List BrowserSession
  tickets : List SessionTicket
  cookies : List SessionTicket

/-- The accounts as they are, nothing started yet. -/
def Cloud.start (users : Table User.id) : Cloud := ⟨.start users, .empty, [], [], []⟩

/-- A request; `bearer` is what is found in its access token, at `now`. -/
inductive Move
  | account (req : Request)
  | startSession (bearer : Bearer) (runnerStatus : SessionStatus) (id : String) (now : ℕ)
  | started (item : BrowserSession) (result : Option RunnerSession) (now : ℕ)
  | stopSession (bearer : Bearer) (id : String) (now : ℕ)
  | getSession (bearer : Bearer) (id : String) (runnerStatus : SessionStatus) (now : ℕ)
  | sessionTicket (bearer : Bearer) (id : String) (now : ℕ)
  | viewerSession (bearer : Bearer) (id : String) (ticket : Option SessionTicket) (now : ℕ)
  | adminSessions (runnerStatus : String → SessionStatus)
  | forceStop (id : String)

/-- `current_user`. -/
def Cloud.user (s : Cloud) (bearer : Bearer) (now : ℕ) : Option User :=
  bearerUser s.ctl.db.sessions.get? s.ctl.db.users.get? bearer now

/-- A request of a signed-in user; nothing changes where the bearer token is not accepted. -/
def Cloud.as (s : Cloud) (bearer : Bearer) (now : ℕ) (f : User → Cloud) : Cloud :=
  (s.user bearer now).elim s f

variable (P : Primitives)

/-- One request. -/
def step (s : Cloud) : Move → Option Cloud
  | .account req =>
    (Serial.step P s.ctl req).map fun ctl =>
      { s with ctl := ctl, browsers := accountSessions s.ctl.db req s.browsers }
  | .startSession bearer runnerStatus id now =>
    some (s.as bearer now fun user =>
      let out := startSession user runnerStatus id now s.browsers
      { s with browsers := out.1, starting := out.2.toList ++ s.starting })
  | .started item result now =>
    if item ∈ s.starting then
      some { s with
        browsers := finishStart item result now s.browsers
        starting := s.starting.erase item }
    else none
  | .stopSession bearer id now =>
    some (s.as bearer now fun user =>
      { s with browsers := stopSession user id now s.browsers })
  | .getSession bearer id runnerStatus now =>
    some (s.as bearer now fun user =>
      { s with browsers := getSession user id runnerStatus s.browsers })
  | .sessionTicket bearer id now =>
    some (s.as bearer now fun user =>
      { s with tickets := (sessionTicket user id now s.browsers).toList ++ s.tickets })
  | .viewerSession bearer id ticket now =>
    some (s.as bearer now fun user =>
      let cookie := establishViewerSession user id ticket now s.browsers
      { s with cookies := cookie.toList ++ s.cookies })
  | .adminSessions runnerStatus =>
    some { s with browsers := adminSessions runnerStatus s.browsers }
  | .forceStop id => some { s with browsers := forceStop id s.browsers }

end IdenGrid.Control.Browsers
