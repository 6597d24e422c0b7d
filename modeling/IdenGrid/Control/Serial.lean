import IdenGrid.Lib.Run
import IdenGrid.Lib.Store
import IdenGrid.Control.Accounts
import IdenGrid.Control.Throttle

/-! # The control plane, one request at a time

`users`, `device_sessions` and the login throttle, and the handlers `native_login`,
`native_refresh`, `native_logout`, `change_user_password`, `set_user_enabled`, `disable_user` and
`delete_user` as functions on them. Every clock reading and every random value of a handler is an
argument of its request, so that a run is quantified over all of them.

`Ctl` adds what has been handed out: the native access and refresh tokens issued so far. A step is
possible only with a fresh refresh token, one whose digest is not that of an earlier token
(`secrets.token_urlsafe(32)` does not repeat, SHA-256 does not collide). -/

namespace IdenGrid.Control.Serial

open IdenGrid.Lib.Store IdenGrid.Control.Rows IdenGrid.Control.Sessions
open IdenGrid.Control.Accounts IdenGrid.Control.Throttle

structure Db where
  users : Table User.id
  sessions : Table DeviceSession.id
  throttles : Throttles

/-- What a handler answers, as far as it matters here. -/
inductive Answer
  | tokens (access : NativeAccess) (refresh : RefreshToken)
  | ok
  | refused (status : ℕ)
  deriving DecidableEq, Repr

/-- The clock readings and random values of one login. -/
structure LoginInputs where
  checkTime : ℕ
  failureTime : ℕ
  issueTime : ℕ
  accessTime : ℕ
  newId : String
  secret : String
  deriving DecidableEq, Repr

variable (P : Primitives)

/-- The final transaction of `native_login`, after its re-check of the account. -/
def loginFinal (body : NativeLoginBody) (sourceIp : String) (i : LoginInputs) (user : User)
    (db : Db) : Db × Answer :=
  let throttles := clearThrottles (throttleKeys P body sourceIp) db.throttles
  let item := db.sessions.first fun d => d.userId = user.id ∧ d.deviceId = body.deviceId
  let issued := issueSession P item user body i.issueTime i.newId i.secret
  let answer := Answer.tokens (issueNativeAccess user issued i.accessTime) ⟨issued.id, i.secret⟩
  match item with
  | some _ => ({ db with throttles := throttles, sessions := db.sessions.put issued }, answer)
  | none =>
    if h : ∀ d ∈ db.sessions.rows, d.id ≠ issued.id then
      ({ db with throttles := throttles, sessions := db.sessions.insert issued h }, answer)
    else (db, .refused 500)

/-- **What the final transaction does**: it fails, or it hands out the token pair of a session of
the account and leaves every other session alone. -/
theorem loginFinal_spec (body : NativeLoginBody) (sourceIp : String) (i : LoginInputs)
    (user : User) (db : Db) :
    loginFinal P body sourceIp i user db = (db, .refused 500) ∨
      ∃ d, d.userId = user.id ∧ d.refreshTokenHash = P.refreshHash ⟨d.id, i.secret⟩ ∧
        (loginFinal P body sourceIp i user db).2 =
          .tokens (issueNativeAccess user d i.accessTime) ⟨d.id, i.secret⟩ ∧
        (loginFinal P body sourceIp i user db).1.users = db.users ∧
        (loginFinal P body sourceIp i user db).1.throttles =
          clearThrottles (throttleKeys P body sourceIp) db.throttles ∧
        ∀ x ∈ (loginFinal P body sourceIp i user db).1.sessions.rows,
          x = d ∨ (x ∈ db.sessions.rows ∧ x.id ≠ d.id) := by
  unfold loginFinal
  simp only
  rcases hitem : db.sessions.first fun d => d.userId = user.id ∧ d.deviceId = body.deviceId
    with _ | item
  · simp only
    split_ifs with hfresh
    · refine Or.inr ⟨_, rfl, rfl, rfl, rfl, rfl, fun x hx => ?_⟩
      rcases List.mem_append.mp hx with hx | hx
      · exact Or.inr ⟨hx, hfresh x hx⟩
      · exact Or.inl (List.mem_singleton.mp hx)
    · exact Or.inl rfl
  · obtain ⟨-, hp⟩ := Table.first_mem hitem
    simp only [decide_eq_true_eq] at hp
    have huser : (issueSession P (some item) user body i.issueTime i.newId i.secret).userId =
        user.id := hp.1
    exact Or.inr ⟨_, huser, rfl, rfl, rfl, rfl, fun x hx => Table.mem_put hx⟩

/-- A new session is to be created and its identifier is taken. -/
def collides (body : NativeLoginBody) (i : LoginInputs) (user : User) (db : Db) : Bool :=
  (db.sessions.first fun d => d.userId = user.id ∧ d.deviceId = body.deviceId).isNone &&
    db.sessions.rows.any fun d => d.id = i.newId

/-- The login succeeds unless the identifier of its session is taken. -/
theorem loginFinal_tokens_iff (body : NativeLoginBody) (sourceIp : String) (i : LoginInputs)
    (user : User) (db : Db) :
    (∃ access refresh, (loginFinal P body sourceIp i user db).2 = .tokens access refresh) ↔
      collides body i user db = false := by
  unfold loginFinal collides
  rcases db.sessions.first fun d => d.userId = user.id ∧ d.deviceId = body.deviceId with _ | item
  · have hid : (issueSession P none user body i.issueTime i.newId i.secret).id = i.newId := rfl
    simp only [hid, Option.isNone_none, Bool.true_and, List.any_eq_false, decide_eq_true_eq]
    split_ifs with hfresh
    · exact iff_of_true ⟨_, _, rfl⟩ hfresh
    · exact iff_of_false (fun ⟨_, _, h⟩ => by cases h) hfresh
  · exact iff_of_true ⟨_, _, rfl⟩ rfl

/-- The answer to a failed verification. -/
def failureStatus : FailureAnswer → ℕ
  | .blocked _ => 429
  | .throttled _ => 429
  | .invalidCredentials => 401
  | .serverError => 500

def nativeLogin (body : NativeLoginBody) (sourceIp : String) (i : LoginInputs) (db : Db) :
    Db × Answer :=
  let keys := throttleKeys P body sourceIp
  let check := blockCheck keys i.checkTime db.throttles
  let db := { db with throttles := check.1 }
  if 0 < check.2 then (db, .refused 429)
  else
    let user := db.users.first fun u => u.username = body.username
    match user, loginVerified P user body.password with
    | some u, true =>
      match (db.users.get? u.id).filter (recheck u.passwordHash u.tokenVersion) with
      | some u' => loginFinal P body sourceIp i u' db
      | none => (db, .refused 401)
    | _, _ =>
      let book := bookFailure P body.username keys i.failureTime db.throttles
      ({ db with throttles := book.1 }, .refused (failureStatus book.2))

/-- The replay branches of `native_refresh`. -/
def refreshReplayed (item : DeviceSession) (now : ℕ) (db : Db) : Db × Answer :=
  if item.revokedAt = none then
    ({ db with sessions := db.sessions.put (replayRevoke item now) }, .refused 401)
  else (db, .refused 401)

/-- `native_refresh`: `accessTime` is read when the new access token is signed. -/
def nativeRefresh (token : RefreshToken) (now accessTime : ℕ) (secret : String) (db : Db) :
    Db × Answer :=
  match db.sessions.get? token.sessionId with
  | none => (db, .refused 401)
  | some item =>
    match refreshVerdict P item (db.users.get? item.userId) token now,
        db.users.get? item.userId with
    | .replay, _ => refreshReplayed item now db
    | .rotate, some user =>
      let newHash := P.refreshHash ⟨item.id, secret⟩
      if db.sessions.rows.countP (rotateMatches P item token) = 1 then
        ({ db with
            sessions := db.sessions.mapRows (rotateRow P item token now newHash) fun _ => by simp },
          .tokens (issueNativeAccess user (rotateSet item now newHash item) accessTime)
            ⟨item.id, secret⟩)
      else refreshReplayed item now db
    | _, _ => (db, .refused 401)

def nativeLogout (payload : NativeAccess) (now : ℕ) (db : Db) : Db × Answer :=
  match nativeAccessIdentity db.sessions.get? db.users.get? payload now with
  | none => (db, .refused 401)
  | some (_, item) => ({ db with sessions := db.sessions.put (logoutRevoke item now) }, .ok)

/-- `revoke_device_sessions`. -/
def revokeDeviceSessions (userId revokedAt : ℕ) (db : Db) : Db :=
  { db with
    sessions := db.sessions.mapRows (revokeDeviceSession userId revokedAt) fun row => by simp }

def changePassword (userId : ℕ) (newHash : String) (now : ℕ) (db : Db) : Db × Answer :=
  match memberUser (db.users.get? userId) with
  | none => (db, .refused 404)
  | some target =>
    (revokeDeviceSessions target.id now
      { db with users := db.users.put (changeUserPassword target newHash) }, .ok)

def setEnabled (userId : ℕ) (enabled : Bool) (now : ℕ) (db : Db) : Db × Answer :=
  match memberUser (db.users.get? userId) with
  | none => (db, .refused 404)
  | some target =>
    let db' := { db with users := db.users.put (setUserEnabled target enabled) }
    (if disables target enabled then revokeDeviceSessions target.id now db' else db', .ok)

def disable (userId : ℕ) (db : Db) : Db × Answer :=
  match disableTarget (db.users.get? userId) with
  | none => (db, .refused 404)
  | some target => ({ db with users := db.users.put (disableUser target) }, .ok)

def delete (userId : ℕ) (suffix : String) (now : ℕ) (db : Db) : Db × Answer :=
  match memberUser (db.users.get? userId) with
  | none => (db, .refused 404)
  | some target =>
    (revokeDeviceSessions target.id now
      { db with users := db.users.put (deleteUser target suffix now) }, .ok)

/-- The requests of the account life cycle. -/
inductive Request
  | nativeLogin (body : NativeLoginBody) (sourceIp : String) (inputs : LoginInputs)
  | nativeRefresh (token : RefreshToken) (now accessTime : ℕ) (secret : String)
  | nativeLogout (payload : NativeAccess) (now : ℕ)
  | changeUserPassword (userId : ℕ) (newHash : String) (now : ℕ)
  | setUserEnabled (userId : ℕ) (enabled : Bool) (now : ℕ)
  | disableUser (userId : ℕ)
  | deleteUser (userId : ℕ) (suffix : String) (now : ℕ)
  deriving DecidableEq, Repr

def handle : Request → Db → Db × Answer
  | .nativeLogin body sourceIp i => nativeLogin P body sourceIp i
  | .nativeRefresh token now accessTime secret => nativeRefresh P token now accessTime secret
  | .nativeLogout payload now => nativeLogout payload now
  | .changeUserPassword userId newHash now => changePassword userId newHash now
  | .setUserEnabled userId enabled now => setEnabled userId enabled now
  | .disableUser userId => disable userId
  | .deleteUser userId suffix now => delete userId suffix now

/-- The database and the tokens issued so far. -/
structure Ctl where
  db : Db
  access : List NativeAccess
  refresh : List RefreshToken

/-- The accounts as they are, nothing issued yet. -/
def Ctl.start (users : Table User.id) : Ctl where
  db := { users := users, sessions := Table.empty, throttles := fun _ => none }
  access := []
  refresh := []

/-- The digests of the refresh tokens issued so far. -/
def Ctl.digests (s : Ctl) : List String := s.refresh.map P.refreshHash

/-- One request. -/
def step (s : Ctl) (req : Request) : Option Ctl :=
  match handle P req s.db with
  | (db, .tokens a r) =>
    if P.refreshHash r ∈ s.digests P then none
    else some { db := db, access := a :: s.access, refresh := r :: s.refresh }
  | (db, _) => some { s with db := db }

end IdenGrid.Control.Serial
