import IdenGrid.Client.Session

/-! # The macOS client

`StoreViewModel` and `StoreProcessManager`, cut at their awaits. Whoever finds a token rejected may
call `refreshAccessTokenIfNeeded`, so that a refresh may begin at any time; what only keeps the user
from clicking (`isBusy`, the login cooldown) is left out.

This is the session and its tokens. Of a launch there is only its agent here: its steps, processes and
tables are in `Launches`, and the lock file, for several instances of the app, in `Instances`. Both this
model and that of `Launches` are runs of an instance there, store by store (`Agents`, `Projection`). -/

namespace IdenGrid.Client.Mac

open IdenGrid.Control.Rows IdenGrid.Control.Sessions IdenGrid.Control.Throttle
open IdenGrid.Control.Serial IdenGrid.Client.Session

/-- `startAccessTokenRefreshScheduler` -/
def startScheduler (s : App) : App :=
  { s with scheduler := if s.session.isSome then s.scheduler.start else s.scheduler }

/-! ## The session -/

def restoreSession (s : App) : App × Task :=
  match s.vault with
  | some token => (s.tick, .restoring s.clock s.generation (.sent (.refresh token)))
  | none => (s, .ended)

/-- `refreshSession` with its answer. -/
def sessionRefreshed (s : App) (began generation : ℕ) (saved : Bool) (answer : Option Answer) :
    App × Task :=
  if generation = s.generation then
    match outcome answer with
    | .tokens t => if saved then (s.apply t, .listing (some began) generation) else (s, .ended)
    | .rejected =>
      ({ s with session := none, vault := none }, .ended)
    | .failed => (s, .ended)
  else (s, .ended)

def login (s : App) (body : NativeLoginBody) : App × Task :=
  ({ s.tick with generation := s.generation + 1 },
    .loggingIn (s.generation + 1) (.sent (.login body)))

def loggedIn (s : App) (generation : ℕ) (saved : Bool) (answer : Option Answer) : App × Task :=
  if generation = s.generation then
    match outcome answer with
    | .tokens t => if saved then (s.apply t, .listing none generation) else (s, .ended)
    | _ => (s, .ended)
  else (s, .ended)

/-- `restoreSession` and `login` after `listStores`. -/
def listed (s : App) (generation : ℕ) : App × Task :=
  if generation = s.generation ∧ s.session.isSome then (startScheduler s, .ended) else (s, .ended)

def signOut (s : App) : App × Task :=
  let s' : App :=
    { s.tick with
      generation := s.generation + 1
      session := none
      vault := none
      agents := quitAll s.agents }
  match s.session with
  | some t => (s', .loggingOut s.clock (.sent (.logout t.access)))
  | none => (s'.complete s.clock, .ended)

/-! ## The refresh of the access token -/

/-- `refreshAccessTokenIfNeeded`; `back` is the launch that waits for it. -/
def refreshAccessTokenIfNeeded (s : App) (back : Option String) : App × Task :=
  if s.refresh = none ∧ s.session.isSome then
    match s.vault with
    | some token =>
      ({ s.tick with
        refresh := some ⟨s.clock, s.generation, .calling (.sent (.refresh token))⟩ },
        .refreshing back)
    | none => (startScheduler s, .ended)
  else (s, .ended)

/-- `refreshAccessTokenIfNeeded` with its answer, up to the first `update_token`. -/
def refreshed (s : App) (rf : Refresh) (back : Option String) (saved : Bool)
    (answer : Option Answer) : App × Task :=
  if rf.generation = s.generation ∧ s.session.isSome then
    match outcome answer with
    | .tokens t =>
      if saved then
        ((s.apply t).proceed rf (.delivering t.access (records s.agents) []), .refreshing back)
      else (startScheduler { s with refresh := none }, .ended)
    | .rejected =>
      ({ s with
        session := none
        vault := none
        agents := quitAll s.agents
        refresh := none }, .ended)
    | .failed => (startScheduler { s with refresh := none }, .ended)
  else ({ s with refresh := none }, .ended)

/-- `refreshAccessTokenIfNeeded` after `updateAccessTokenForRunningAgents`. -/
def updated (s : App) (failed : List String) (back : Option String) : App × Task :=
  (startScheduler { s with agents := failed.foldl close s.agents, refresh := none },
    match back with
    | some store => .renewed store
    | none => .ended)

/-! ## Launches -/

def launch (s : App) (store : String) : App × Task :=
  match s.session with
  | some t => (s, .launching store t.access false)
  | none => (s, .ended)

/-- `launch` with the answer to `api.preflight`, up to the start of the agent. -/
def preflighted (r : ℕ) (s : App) (store : String) (token : NativeAccess) (retried : Bool) :
    Preflight → App × Task
  | .ok => spawn r s store token
  | .rejected => if retried then (s, .ended) else refreshAccessTokenIfNeeded s (some store)
  | .failed => (s, .ended)

/-- `launch` with the token of its refresh. -/
def relaunch (s : App) (store : String) : App × Task :=
  match s.session with
  | some t => (s, .launching store t.access true)
  | none => (s, .ended)

/-- `quitAllAndWait`, for one store. -/
def quit (agents : List Agent) (store : String) : List Agent :=
  agents.map fun a =>
    if a.store = store ∧ a.stage = .running then { a with stage := .stopping } else a

/-- Its processes have ended, or are put back into `running`. -/
def stopped (agents : List Agent) (store : String) (ended : Bool) : List Agent :=
  if ended then agents.filter fun a => ¬ (a.store = store ∧ a.stage = .stopping)
  else agents.map fun a =>
    if a.store = store ∧ a.stage = .stopping then { a with stage := .running } else a

/-! ## Steps -/

/-- The answer of the awaited call reaches its handler. -/
def receive (s : App) (l : Task) (saved : Bool) : Option (App × Task) :=
  match l, awaited s l with
  | .refreshing back, some (.answered answer) =>
    s.refresh.map fun rf => refreshed s rf back saved answer
  | .restoring began generation _, some (.answered answer) =>
    some (sessionRefreshed s began generation saved answer)
  | .loggingIn generation _, some (.answered answer) => some (loggedIn s generation saved answer)
  | .loggingOut began _, some (.answered _) => some (s.complete began, .ended)
  | _, _ => none

/-- One step of the delivery. -/
def delivery (s : App) (back : Option String) (m : Move) : Option (App × Task) :=
  match s.refresh with
  | some rf =>
    match rf.progress, m with
    | .delivering token pending failed, .deliver id store answer =>
      if (id, store) ∈ pending then
        some (deliver s rf token pending failed (id, store) answer, .refreshing back)
      else none
    | .delivering _ [] failed, .finish _ => some (updated s failed back)
    | _, _ => none
  | none => none

variable (P : Primitives)

def act (r : ℕ) (s : App) (l : Task) (m : Move) : Option (App × Task) :=
  match m, l with
  | .restore, .idle => some (restoreSession s)
  | .login body, .idle => some (login s body)
  | .signOut, .idle => some (signOut s)
  | .launch store, .idle => some (launch s store)
  | .refresh, .idle => some (refreshAccessTokenIfNeeded s none)
  | .preflight answer, .launching store token retried =>
    some (preflighted r s store token retried answer)
  | .retry, .renewed store => some (relaunch s store)
  | .register, .starting => some ({ s with agents := register s.agents r }, .ended)
  | .fail, .starting => some ({ s with agents := abort s.agents r }, .ended)
  | .listed, .listing _ generation => some (listed s generation)
  | .deliver id store answer, .refreshing back => delivery s back (.deliver id store answer)
  | .finish thrown, .refreshing back => delivery s back (.finish thrown)
  | .receive saved, l => receive s l saved
  | .serve inputs, l => serve P s l inputs
  | .lose, l => lose s l
  | .central request, l => some ({ s with db := (handle P request s.db).1 }, l)
  | .close store, l => some ({ s with agents := close s.agents store }, l)
  | .quit store, l => some ({ s with agents := quit s.agents store }, l)
  | .stopped store ended, l => some ({ s with agents := stopped s.agents store ended }, l)
  | .exit id, l => some ({ s with agents := exit s.agents id }, l)
  | _, _ => none

end IdenGrid.Client.Mac
