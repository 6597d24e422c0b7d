import IdenGrid.Lib.Requests
import IdenGrid.Control.Serial

/-! # Native logins and account changes, interleaved

Any number of native logins and of account changes (`change_user_password`, `set_user_enabled`
with `false`, `delete_user`), cut at their transactions. A login checks its throttle rows, reads
the account, verifies the password outside any transaction, and then either books the failure or
re-reads the account under its row lock and creates or takes over a session. A change reads the
account without a lock; its UPDATE of `users` takes the row lock, which it holds until its commit,
and the commit also revokes the sessions.

`BEGIN IMMEDIATE` locks all rows at once, so its runs are among those of the row locks.

Three records are kept that no handler reads: the hash the last login of each session verified,
the blocks set so far, and how many of them an attempt's block check has seen. -/

namespace IdenGrid.Control.Logins

open IdenGrid.Lib.Run IdenGrid.Lib.Requests IdenGrid.Lib.Store
open IdenGrid.Control.Rows IdenGrid.Control.Sessions IdenGrid.Control.Accounts
open IdenGrid.Control.Throttle IdenGrid.Control.Serial

/-- The database, the holders of the row locks of `users`, the hash the last login of each session
verified, and the blocks set so far, the latest first. -/
structure Shared where
  db : Db
  lock : ℕ → Option ℕ
  verified : String → String
  blocks : List (ThrottleKey × ℕ)

/-- A login request after its block check. -/
structure Attempt where
  body : NativeLoginBody
  sourceIp : String
  checkTime : ℕ
  blocksSeen : ℕ
  deriving DecidableEq, Repr

/-- An account change that has been asked for. -/
inductive AccountChange
  | password (newHash : String)
  | disable
  | delete (suffix : String)
  deriving DecidableEq, Repr

/-- The account as the change leaves it in memory. -/
def AccountChange.apply (target : User) (now : ℕ) : AccountChange → User
  | .password newHash => changeUserPassword target newHash
  | .disable => setUserEnabled target false
  | .delete suffix => deleteUser target suffix now

/-- Whether the change has anything to write: `set_user_enabled` leaves a disabled account alone. -/
def AccountChange.effective (target : User) : AccountChange → Bool
  | .disable => target.enabled
  | _ => true

/-- Where a request stands, with the rows it has seen. -/
inductive Stage
  | idle
  | loginChecked (attempt : Attempt)
  | loginRead (attempt : Attempt) (user : Option User)
  | loginFailed (attempt : Attempt)
  | loginVerified (attempt : Attempt) (user : User)
  | loginLocked (attempt : Attempt) (seen user : User)
  | changeRead (change : AccountChange) (target : User) (now : ℕ)
  | changeFlushed (change : AccountChange) (target : User) (now : ℕ)
  | done
  deriving DecidableEq, Repr

/-- The transactions, and the verification between two of them. -/
inductive Move
  | loginCheck (body : NativeLoginBody) (sourceIp : String) (now : ℕ)
  | loginRead
  | loginVerify
  | loginBookFailure (failureTime : ℕ)
  | loginLock
  | loginCommit (inputs : LoginInputs)
  | changeRead (change : AccountChange) (userId : ℕ) (now : ℕ)
  | changeFlush
  | changeCommit
  deriving DecidableEq, Repr

variable (P : Primitives)

/-- The UPDATE of `users`: the write-back of a loaded account. -/
def flushUser (target new : User) (users : Table User.id) : Table User.id :=
  users.mapRows (fun row => if row.id = target.id then User.flush target new row else row)
    fun row => by split_ifs <;> rfl

/-- `throttle_keys` of an attempt. -/
def Attempt.keys (a : Attempt) : List ThrottleKey := throttleKeys P a.body a.sourceIp

/-- The bookkeeping of a failure, and the blocks it sets. -/
def loginBookFailure (s : Shared) (a : Attempt) (failureTime : ℕ) : Shared :=
  let book := bookFailure P a.body.username (a.keys P) failureTime s.db.throttles
  { s with
    db := { s.db with throttles := book.1 }
    blocks :=
      match book.2 with
      | .blocked _ | .serverError => s.blocks
      | _ =>
        newBlocks failureTime ((a.keys P).zip throttleThresholds) s.db.throttles ++ s.blocks }

/-- The commit of a login, and what it makes of its session's last verified hash. -/
def loginCommit (s : Shared) (a : Attempt) (seen user : User) (i : LoginInputs) : Shared :=
  let out := loginFinal P a.body a.sourceIp i user s.db
  { s with
    db := out.1
    lock := Function.update s.lock user.id none
    verified :=
      match out.2 with
      | .tokens access _ => Function.update s.verified access.dsid seen.passwordHash
      | _ => s.verified }

/-- The commit of an account change. -/
def changeCommit (s : Shared) (change : AccountChange) (target : User) (now : ℕ) : Shared :=
  { s with
    db := revokeDeviceSessions target.id now
      { s.db with users := flushUser target (change.apply target now) s.db.users }
    lock := Function.update s.lock target.id none }

/-- One move of request `r`; who needs a row lock waits until it is free. -/
def act (r : ℕ) (s : Shared) : Stage → Move → Option (Shared × Stage)
  | .idle, .loginCheck body sourceIp now =>
    let check := blockCheck (throttleKeys P body sourceIp) now s.db.throttles
    some ({ s with db := { s.db with throttles := check.1 } },
      if 0 < check.2 then .done else .loginChecked ⟨body, sourceIp, now, s.blocks.length⟩)
  | .loginChecked a, .loginRead =>
    some (s, .loginRead a (s.db.users.first fun u => u.username = a.body.username))
  | .loginRead a user, .loginVerify =>
    match user, loginVerified P user a.body.password with
    | some u, true => some (s, .loginVerified a u)
    | _, _ => some (s, .loginFailed a)
  | .loginFailed a, .loginBookFailure failureTime =>
    some (loginBookFailure P s a failureTime, .done)
  | .loginVerified a seen, .loginLock =>
    if s.lock seen.id = none then
      match (s.db.users.get? seen.id).filter (recheck seen.passwordHash seen.tokenVersion) with
      | some user =>
        some ({ s with lock := Function.update s.lock user.id (some r) }, .loginLocked a seen user)
      | none => some (s, .done)
    else none
  | .loginLocked a seen user, .loginCommit i => some (loginCommit P s a seen user i, .done)
  | .idle, .changeRead change userId now =>
    match memberUser (s.db.users.get? userId) with
    | some target =>
      some (s, if change.effective target then .changeRead change target now else .done)
    | none => some (s, .done)
  | .changeRead change target now, .changeFlush =>
    if s.lock target.id = none then
      some ({ s with lock := Function.update s.lock target.id (some r) },
        .changeFlushed change target now)
    else none
  | .changeFlushed change target now, .changeCommit =>
    some (changeCommit s change target now, .done)
  | _, _ => none

/-- The accounts as they are, no session yet, no request begun. -/
def start (users : Table User.id) : Crew Shared Stage where
  shared :=
    { db := { users := users, sessions := Table.empty, throttles := fun _ => none }
      lock := fun _ => none
      verified := fun _ => ""
      blocks := [] }
  loc := fun _ => .idle

/-- Two logins and two account changes: the first login verifies before the password is changed and
fails its re-check; another with the new password commits while the account is being deleted. -/
def raceSchedule : List (ℕ × Move) :=
  [(0, .loginCheck sampleBody "203.0.113.7" 100), (0, .loginRead), (0, .loginVerify),
    (1, .changeRead (.password "argon2id:battery") 2 200), (1, .changeFlush), (1, .changeCommit),
    (0, .loginLock),
    (2, .loginCheck { sampleBody with password := "battery" } "203.0.113.7" 300), (2, .loginRead),
    (2, .loginVerify), (2, .loginLock), (3, .changeRead (.delete "0f") 2 400),
    (2, .loginCommit ⟨300, 300, 301, 301, "session-1", "secret-1"⟩), (3, .changeFlush),
    (3, .changeCommit)]

end IdenGrid.Control.Logins
