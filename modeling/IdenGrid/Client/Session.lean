import IdenGrid.Lib.Requests
import IdenGrid.Control.Serial

/-! # The state of a client

What the macOS client keeps in `StoreViewModel` and `StoreProcessManager`, the Windows client in
`MainWindow` and `WindowsStoreProcessManager`: the session, the vault, the refresh scheduler, the
refresh in progress, and the agents of the stores. The handlers of the user interface run on one
thread, so that a client is a crew of handlers: what one does between two awaits is one step, and a
handler that awaits is a `Task`.

The central server is part of the state. A call goes out, is served and is answered in three steps,
and may be lost in any of them.

`clock` counts the handlers begun so far, and `signedOut` is the `clock` of the latest sign-out that
has completed. No handler reads them: they say which handlers began before a sign-out that is over.
-/

namespace IdenGrid.Client.Session

open IdenGrid.Control.Rows IdenGrid.Control.Sessions IdenGrid.Control.Throttle
open IdenGrid.Control.Serial IdenGrid.Lib.Store IdenGrid.Lib.Requests

/-- `SessionDTO`. -/
structure Tokens where
  access : NativeAccess
  refresh : RefreshToken
  deriving DecidableEq, Repr

/-! ## Calls of the server -/

inductive Outgoing
  | refresh (token : RefreshToken)
  | login (body : NativeLoginBody)
  | logout (access : NativeAccess)
  deriving DecidableEq, Repr

/-- The clock readings, the random values and the address that the server adds. -/
structure Inputs where
  now : ℕ
  accessTime : ℕ
  secret : String
  sourceIp : String
  login : LoginInputs
  deriving DecidableEq, Repr

def Outgoing.request (o : Outgoing) (i : Inputs) : Request :=
  match o with
  | .refresh token => .nativeRefresh token i.now i.accessTime i.secret
  | .login body => .nativeLogin body i.sourceIp i.login
  | .logout access => .nativeLogout access i.now

/-- A call that is awaited; its answer is `none` where the connection fails. -/
inductive Call
  | sent (out : Outgoing)
  | answered (answer : Option Answer)
  deriving DecidableEq, Repr

/-- How a client reads an answer that should bring tokens: status 401 and 403 on the one hand, any
other failure on the other. -/
inductive Outcome
  | tokens (tokens : Tokens)
  | rejected
  | failed
  deriving DecidableEq, Repr

def outcome : Option Answer → Outcome
  | some (.tokens access refresh) => .tokens ⟨access, refresh⟩
  | some (.refused status) => if status = 401 ∨ status = 403 then .rejected else .failed
  | _ => .failed

/-! ## Agents -/

/-- `starting` until the launch puts the agent into `running`; `stopping` while `quitAllAndWait` has
taken it out again. -/
inductive Stage
  | starting
  | running
  | stopping
  deriving DecidableEq, Repr

/-- An agent that holds the lock file of its store. Its `id` stands for the process and the
capability of its control channel. -/
structure Agent where
  id : ℕ
  store : String
  token : NativeAccess
  stage : Stage
  alive : Bool
  deriving DecidableEq, Repr

/-- The record gets into `running`. -/
def register (agents : List Agent) (id : ℕ) : List Agent :=
  agents.map fun a => if a.id = id ∧ a.stage = .starting then { a with stage := .running } else a

/-- The agent of a launch that fails is terminated. -/
def abort (agents : List Agent) (id : ℕ) : List Agent :=
  agents.filter fun a => ¬ (a.id = id ∧ a.stage = .starting)

/-- `close`: the record of the store leaves `running`, and its agent is terminated. -/
def close (agents : List Agent) (store : String) : List Agent :=
  agents.filter fun a => ¬ (a.store = store ∧ a.stage = .running)

/-- `quitAll`. -/
def quitAll (agents : List Agent) : List Agent :=
  agents.filter fun a => a.stage ≠ .running

/-- The process of the agent ends. -/
def exit (agents : List Agent) (id : ℕ) : List Agent :=
  agents.map fun a => if a.id = id then { a with alive := false } else a

/-- `ControlCommand::UpdateToken`, if the agent lives. -/
def updateToken (agents : List Agent) (id : ℕ) (token : NativeAccess) : List Agent :=
  agents.map fun a => if a.id = id ∧ a.alive = true then { a with token := token } else a

/-- The running agents, by the capability and the store of their record. -/
def records (agents : List Agent) : List (ℕ × String) :=
  (agents.filter fun a => a.stage = .running).map fun a => (a.id, a.store)

/-- How an agent answers an `update_token`: it may have applied it though the answer fails. -/
inductive Delivery
  | updated
  | failed (applied : Bool)
  deriving DecidableEq, Repr

/-! ## The client -/

/-- The call of the function that refreshes the access token. -/
inductive Progress
  | calling (call : Call)
  /-- The delivery of the new token: the records still to come, and the stores whose agents have
  failed. -/
  | delivering (token : NativeAccess) (pending : List (ℕ × String)) (failed : List String)
  /-- `FailClosedSessionAsync`. -/
  | failingClosed
  deriving DecidableEq, Repr

/-- The equality by which a record is looked up in the pending ones is the real one. -/
instance lawfulRecord : LawfulBEq (ℕ × String) := inferInstance

/-- A refresh in progress. `generation` is what macOS has read as `sessionGeneration`. -/
structure Refresh where
  began : ℕ
  generation : ℕ
  progress : Progress
  deriving DecidableEq, Repr

/-- `accessTokenRefreshTask` and `_refreshCancellation`: how often one has been started, and (Windows)
whether the last source has been disposed of without a successor. A cancellation is too late for a delay
that is over, whose continuation is still to run; a refresh may therefore begin at any time, and what
is cancelled is not noted. -/
structure Scheduler where
  starts : ℕ
  disposed : Bool
  deriving DecidableEq, Repr

def Scheduler.start (s : Scheduler) : Scheduler := { s with starts := s.starts + 1 }

structure App where
  session : Option Tokens
  vault : Option RefreshToken
  scheduler : Scheduler
  /-- `isRefreshingAccessToken` holds while there is one. -/
  refresh : Option Refresh
  /-- `sessionGeneration` -/
  generation : ℕ
  agents : List Agent
  db : Db
  clock : ℕ
  signedOut : ℕ

/-- The client when it is opened. -/
def App.opened (vault : Option RefreshToken) (db : Db) : App where
  session := none
  vault := vault
  scheduler := ⟨0, false⟩
  refresh := none
  generation := 0
  agents := []
  db := db
  clock := 0
  signedOut := 0

/-- A handler that awaits something. -/
inductive Task
  | idle
  /-- The launch of a store, with the access token read at the click. -/
  | launching (store : String) (token : NativeAccess) (retried : Bool)
  /-- The launch has got its refresh. -/
  | renewed (store : String)
  | starting
  /-- The refresh in progress is this handler's, or that of a launch. -/
  | refreshing (back : Option String)
  | restoring (began generation : ℕ) (call : Call)
  | loggingIn (generation : ℕ) (call : Call)
  /-- Loading the stores, after a login or a restored session. -/
  | listing (restored : Option ℕ) (generation : ℕ)
  | quitting (began : ℕ)
  | loggingOut (began : ℕ) (call : Call)
  | ended
  deriving DecidableEq, Repr

/-- How `api.preflight` answers. -/
inductive Preflight
  | ok
  | rejected
  | failed
  deriving DecidableEq, Repr

inductive Move
  | restore
  | login (body : NativeLoginBody)
  | signOut
  | launch (store : String)
  | close (store : String)
  | refresh
  /-- `quitAllAndWait` takes a store out of `running`, and has ended its processes or not. -/
  | quit (store : String)
  | stopped (store : String) (ended : Bool)
  | exit (id : ℕ)
  /-- A request of anyone else. -/
  | central (request : Request)
  | serve (inputs : Inputs)
  | lose
  /-- The answer of the call reaches its handler; `saved` says whether the vault can be written. -/
  | receive (saved : Bool)
  | preflight (answer : Preflight)
  | spawn
  | register
  | fail
  | retry
  | listed
  | deliver (id : ℕ) (store : String) (answer : Delivery)
  /-- A store whose agent has not taken the token is closed. -/
  | closeFailed (thrown : Bool)
  | finish (thrown : Bool)
  deriving DecidableEq, Repr

/-- The handler begins. -/
def App.tick (s : App) : App := { s with clock := s.clock + 1 }

/-- A sign-out that began at `began` completes. -/
def App.complete (s : App) (began : ℕ) : App := { s with signedOut := max s.signedOut began }

/-- What the running refresh has got to. -/
def App.proceed (s : App) (rf : Refresh) (progress : Progress) : App :=
  { s with refresh := some { rf with progress := progress } }

/-- The session and the vault get new tokens. -/
def App.apply (s : App) (t : Tokens) : App :=
  { s with session := some t, vault := some t.refresh }

/-! ## Steps that both clients have -/

/-- The call that a handler awaits. -/
def awaited (s : App) : Task → Option Call
  | .refreshing _ =>
    match s.refresh with
    | some ⟨_, _, .calling call⟩ => some call
    | _ => none
  | .restoring _ _ call => some call
  | .loggingIn _ call => some call
  | .loggingOut _ call => some call
  | _ => none

/-- The call has got further. -/
def advance (s : App) (l : Task) (call : Call) : App × Task :=
  match l with
  | .refreshing back =>
    match s.refresh with
    | some rf => (s.proceed rf (.calling call), .refreshing back)
    | none => (s, l)
  | .restoring began generation _ => (s, .restoring began generation call)
  | .loggingIn generation _ => (s, .loggingIn generation call)
  | .loggingOut began _ => (s, .loggingOut began call)
  | _ => (s, l)

/-- The server gets the call that the handler awaits. -/
def serve (P : Primitives) (s : App) (l : Task) (i : Inputs) : Option (App × Task) :=
  match awaited s l with
  | some (.sent out) =>
    let done := handle P (out.request i) s.db
    some (advance { s with db := done.1 } l (.answered (some done.2)))
  | _ => none

theorem serve_eq_some {P : Primitives} {s s' : App} {l l' : Task} {i : Inputs}
    (h : serve P s l i = some (s', l')) : ∃ out, awaited s l = some (.sent out) ∧
      advance { s with db := (handle P (out.request i) s.db).1 } l
        (.answered (some (handle P (out.request i) s.db).2)) = (s', l') := by
  unfold serve at h
  split at h
  · next out hcall => exact ⟨out, hcall, Option.some.inj h⟩
  · exact absurd h.symm (Option.some_ne_none _)

/-- The connection fails, before or after the server has handled the call. -/
def lose (s : App) (l : Task) : Option (App × Task) :=
  (awaited s l).map fun _ => advance s l (.answered none)

/-- The agent of the launch `r` is started, unless another one holds the lock of its store. -/
def spawn (r : ℕ) (s : App) (store : String) (token : NativeAccess) : App × Task :=
  if s.agents.any fun a => a.store = store then (s, .ended)
  else ({ s with agents := s.agents ++ [⟨r, store, token, .starting, true⟩] }, .starting)

/-- The answer of one agent to its `update_token`; the records of the snapshot come in any order. -/
def deliver (s : App) (rf : Refresh) (token : NativeAccess) (pending : List (ℕ × String))
    (failed : List String) (agent : ℕ × String) : Delivery → App
  | .updated =>
    { s.proceed rf (.delivering token (pending.erase agent) failed) with
      agents := updateToken s.agents agent.1 token }
  | .failed applied =>
    { s.proceed rf (.delivering token (pending.erase agent) (failed ++ [agent.2])) with
      agents := if applied then updateToken s.agents agent.1 token else s.agents }

/-! ## Clients that are opened -/

/-- A client that is opened, with what its vault keeps. -/
def opened (vault : Option RefreshToken) (db : Db) : Crew App Task :=
  ⟨.opened vault db, fun _ => .idle⟩

def sampleDb : Db where
  users := .single sampleUser
  sessions := Table.empty
  throttles := fun _ => none

def sampleInputs (now : ℕ) (secret : String) : Inputs :=
  ⟨now, now, secret, "203.0.113.7", ⟨now, now, now, now, "session-1", secret⟩⟩

/-- The user signs in. -/
def sampleSignIn : List (ℕ × Move) :=
  [(0, .login sampleBody), (0, .serve (sampleInputs 0 "secret-1")), (0, .receive true), (0, .listed)]

end IdenGrid.Client.Session
