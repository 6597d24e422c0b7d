import IdenGrid.Client.Session

/-! # The Windows client

`MainWindow` and `WindowsStoreProcessManager`, cut at their awaits. `QuitAllAsync` is a number of
closes, between which anything may happen; a close that finds its store on the way ends the launch
first. What `QuitAllAsync` keeps from starting meanwhile is left out, so that the model has more
runs than the code. -/

namespace IdenGrid.Client.Windows

open IdenGrid.Control.Rows IdenGrid.Control.Sessions IdenGrid.Control.Throttle
open IdenGrid.Control.Serial IdenGrid.Client.Session

/-- `StartRefreshScheduler`. Without a session it leaves a disposed source behind, and every later
call of it throws. -/
def startScheduler (s : App) : App :=
  if s.scheduler.disposed then s
  else if s.session.isSome then { s with scheduler := s.scheduler.start }
  else { s with scheduler := ⟨s.scheduler.starts, decide (s.scheduler.starts ≠ 0)⟩ }

/-! ## The session -/

def restoreSession (s : App) : App × Task :=
  match s.vault with
  | some token => (s.tick, .restoring s.clock s.generation (.sent (.refresh token)))
  | none => (s, .ended)

/-- `BeginAuthenticatedSessionAsync`, up to `LoadStoresAsync`. -/
def beginAuthenticatedSession (s : App) (t : Tokens) (restored : Option ℕ) (saved : Bool) :
    App × Task :=
  if saved then (s.apply t, .listing restored s.generation)
  else ({ s with session := some t }, .ended)

/-- `RestoreSessionAsync` with its answer. -/
def sessionRestored (s : App) (began : ℕ) (saved : Bool) (answer : Option Answer) : App × Task :=
  match outcome answer with
  | .tokens t => beginAuthenticatedSession s t (some began) saved
  | .rejected => ({ s with vault := none }, .ended)
  | .failed => (s, .ended)

def login (s : App) (body : NativeLoginBody) : App × Task :=
  (s.tick, .loggingIn s.generation (.sent (.login body)))

def loggedIn (s : App) (saved : Bool) (answer : Option Answer) : App × Task :=
  match outcome answer with
  | .tokens t => beginAuthenticatedSession s t none saved
  | _ => (s, .ended)

/-- `LogoutClick`. Cancelling a disposed source throws, which ends the application. -/
def logoutClick (s : App) : Option (App × Task) :=
  if s.scheduler.disposed then none
  else some (s.tick, .quitting s.clock)

/-- The end of `LogoutClick`. -/
def loggedOut (s : App) (began : ℕ) : App × Task :=
  ({ s.complete began with session := none, vault := none }, .ended)

/-- `LogoutClick` after `QuitAllAsync`. -/
def logout (s : App) (began : ℕ) : App × Task :=
  match s.session with
  | some t => (s, .loggingOut began (.sent (.logout t.access)))
  | none => loggedOut s began

/-! ## The refresh of the access token -/

/-- `RefreshAfterDelayAsync` when the delay is over, and `RefreshAccessTokenAsync` up to its call. -/
def refreshAccessToken (s : App) : App × Task :=
  if s.refresh = none ∧ s.session.isSome then
    match s.vault with
    | some token =>
      ({ s.tick with
        refresh := some ⟨s.clock, s.generation, .calling (.sent (.refresh token))⟩ },
        .refreshing none)
    | none => (startScheduler s, .ended)
  else (s, .ended)

/-- The refresh ends with the scheduler started. -/
def rescheduled (s : App) : App × Task := (startScheduler { s with refresh := none }, .ended)

/-- `RefreshAccessTokenAsync` with its answer, up to the first `update_token`. -/
def refreshed (s : App) (rf : Refresh) (saved : Bool) (answer : Option Answer) : App × Task :=
  match outcome answer with
  | .tokens t =>
    if saved then
      ((s.apply t).proceed rf (.delivering t.access (records s.agents) []), .refreshing none)
    else rescheduled { s with session := some t }
  | .rejected =>
    if s.scheduler.disposed then ({ s with refresh := none }, .ended)
    else (s.proceed rf .failingClosed, .refreshing none)
  | .failed => rescheduled s

/-- `UpdateAccessTokenAsync` closes the next of the stores that have failed; when all are closed, and
where closing one throws, it throws. -/
def closeFailed (s : App) (rf : Refresh) (token : NativeAccess) (store : String)
    (rest : List String) (thrown : Bool) : App × Task :=
  let s := { s with agents := s.agents.filter fun a => a.store ≠ store }
  if thrown ∨ rest = [] then rescheduled s
  else (s.proceed rf (.delivering token [] rest), .refreshing none)

/-- `FailClosedSessionAsync` after `QuitAllAsync`. -/
def failedClosed (s : App) : App × Task :=
  ({ s with session := none, vault := none, refresh := none }, .ended)

/-! ## Launches -/

/-- `StorePrimaryClick`. -/
def launch (s : App) (store : String) : App × Task :=
  match s.session with
  | some t =>
    if s.agents.any fun a => a.store = store ∧ a.stage = .running then (s, .ended)
    else (s, .launching store t.access false)
  | none => (s, .ended)

/-! ## Steps -/

/-- The answer of the awaited call reaches its handler. -/
def receive (s : App) (l : Task) (saved : Bool) : Option (App × Task) :=
  match l, awaited s l with
  | .refreshing _, some (.answered answer) => s.refresh.map fun rf => refreshed s rf saved answer
  | .restoring began _ _, some (.answered answer) => some (sessionRestored s began saved answer)
  | .loggingIn _ _, some (.answered answer) => some (loggedIn s saved answer)
  | .loggingOut began _, some (.answered _) => some (loggedOut s began)
  | _, _ => none

/-- One step of the delivery, or of `FailClosedSessionAsync`. -/
def delivery (s : App) (m : Move) : Option (App × Task) :=
  match s.refresh with
  | some rf =>
    match rf.progress, m with
    | .delivering token pending failed, .deliver id store answer =>
      if (id, store) ∈ pending then
        some (deliver s rf token pending failed (id, store) answer, .refreshing none)
      else none
    | .delivering token [] (store :: rest), .closeFailed thrown =>
      some (closeFailed s rf token store rest thrown)
    | .delivering _ [] [], .finish _ => some (rescheduled s)
    | .failingClosed, .finish thrown =>
      if thrown then some ({ s with refresh := none }, .ended)
      else if s.agents = [] then some (failedClosed s) else none
    | _, _ => none
  | none => none

variable (P : Primitives)

def act (r : ℕ) (s : App) (l : Task) (m : Move) : Option (App × Task) :=
  match m, l with
  | .restore, .idle => some (restoreSession s)
  | .login body, .idle => some (login s body)
  | .signOut, .idle => logoutClick s
  | .finish _, .quitting began => if s.agents = [] then some (logout s began) else none
  | .launch store, .idle => some (launch s store)
  | .spawn, .launching store token _ => some (spawn r s store token)
  | .refresh, .idle => some (refreshAccessToken s)
  | .register, .starting => some ({ s with agents := register s.agents r }, .ended)
  | .fail, .starting => some ({ s with agents := abort s.agents r }, .ended)
  | .listed, .listing _ _ => some (startScheduler s, .ended)
  | .deliver id store answer, .refreshing _ => delivery s (.deliver id store answer)
  | .closeFailed thrown, .refreshing _ => delivery s (.closeFailed thrown)
  | .finish thrown, .refreshing _ => delivery s (.finish thrown)
  | .receive saved, l => receive s l saved
  | .serve inputs, l => serve P s l inputs
  | .lose, l => lose s l
  | .central request, l => some ({ s with db := (handle P request s.db).1 }, l)
  | .close store, l => some ({ s with agents := close s.agents store }, l)
  | .exit id, l => some ({ s with agents := exit s.agents id }, l)
  | _, _ => none

end IdenGrid.Client.Windows
