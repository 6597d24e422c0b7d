import IdenGrid.Control.Rows

/-! # Device sessions: what login, refresh, logout and revocation do to a row

The bodies of `native_login` (from the read of the account on), `native_refresh`, `native_logout`
and `revoke_device_sessions`, cut at their database accesses: the decisions they take on a row they
have read, and the row as they leave it in memory before the write. The serial control plane
(`Revocation`) and the interleaved ones (`Rotation`, `Recheck`) are built from these pieces. -/

namespace IdenGrid.Control.Sessions

open IdenGrid.Control.Rows

/-- The library functions the handlers call.

* `refreshHash`: the hexadecimal SHA-256 of `session_id.secret`;
* `verify`: `passwords.verify`, with `VerifyMismatchError` read as `False`;
* `casefold`: `username.strip().casefold()`;
* `auditRaises`: `audit` with this text as the id of a `user` target makes the database raise (the
  text is a numeral the driver does not take, or is longer than the column). -/
structure Primitives where
  refreshHash : RefreshToken → String
  verify : String → String → Bool
  casefold : String → String
  auditRaises : String → Bool

/-- Primitives a concrete run can evaluate: a text stands for its own digest or hash. -/
def Primitives.sample : Primitives where
  refreshHash token := token.sessionId ++ "." ++ token.secret
  verify hash password := hash == "argon2id:" ++ password
  casefold username := username
  auditRaises _ := false

variable (P : Primitives)

structure NativeLoginBody where
  username : String
  password : String
  deviceId : String
  deviceName : String
  platform : Platform
  deriving DecidableEq, Repr

/-- An account and a request body for concrete runs. -/
def sampleUser : User where
  id := 2
  username := "alice"
  passwordHash := "argon2id:correct horse"
  role := .member
  enabled := true
  tokenVersion := 0
  deletedAt := none

def sampleBody : NativeLoginBody := ⟨"alice", "correct horse", "device-a", "Mac", .macos⟩

/-! ## native_login -/

/-- The hash the password is verified against: only that of a live account. -/
def loginPasswordHash (user : Option User) : Option String :=
  user.bind fun u => if u.live then some u.passwordHash else none

/-- The verification, outside any transaction. -/
def loginVerified (user : Option User) (password : String) : Bool :=
  (loginPasswordHash user).elim false fun h => P.verify h password

/-- The final transaction's check of the account, re-read under its row lock, against the hash and
the version seen at the verification. -/
def recheck (passwordHash : String) (verifiedTokenVersion : ℕ) (user : User) : Bool :=
  user.live && user.passwordHash == passwordHash && user.tokenVersion == verifiedTokenVersion

/-- A session created by a first login on a device. -/
def newSession (user : User) (body : NativeLoginBody) (now : ℕ) (id : String) :
    DeviceSession where
  id := id
  userId := user.id
  deviceId := body.deviceId
  deviceName := body.deviceName
  platform := body.platform
  refreshTokenHash := "0000000000000000000000000000000000000000000000000000000000000000"
  tokenGeneration := 1
  updatedAt := now
  lastSeenAt := now
  expiresAt := now + days 30
  revokedAt := none

/-- A later login on a device, which takes its session over. -/
def renewSession (item : DeviceSession) (body : NativeLoginBody) (now : ℕ) : DeviceSession :=
  { item with
    deviceName := body.deviceName
    platform := body.platform
    tokenGeneration := item.tokenGeneration + 1
    revokedAt := none
    updatedAt := now
    lastSeenAt := now
    expiresAt := now + days 30 }

/-- The session a login leaves in memory, before the fresh refresh token's hash is stored. -/
def loginSession (item : Option DeviceSession) (user : User) (body : NativeLoginBody) (now : ℕ)
    (id : String) : DeviceSession :=
  item.elim (newSession user body now id) fun item => renewSession item body now

/-- `item.refresh_token_hash = refresh_hash(f"{item.id}.{secret}")`. -/
def storeToken (item : DeviceSession) (secret : String) : DeviceSession :=
  { item with refreshTokenHash := P.refreshHash ⟨item.id, secret⟩ }

/-- The session as the login writes it. -/
def issueSession (item : Option DeviceSession) (user : User) (body : NativeLoginBody) (now : ℕ)
    (id secret : String) : DeviceSession :=
  storeToken P (loginSession item user body now id) secret

section

variable (item : Option DeviceSession) (user : User) (body : NativeLoginBody) (now : ℕ)
  (id secret : String)

@[simp] theorem issueSession_revokedAt :
    (issueSession P item user body now id secret).revokedAt = none := by
  cases item <;> rfl

theorem issueSession_hash :
    (issueSession P item user body now id secret).refreshTokenHash =
      P.refreshHash ⟨item.elim id DeviceSession.id, secret⟩ := by
  cases item <;> rfl

end

/-! ## Revocation -/

/-- Revocation of a loaded session: what logout, a replayed refresh token and the administrator's
revocation write. -/
def markRevoked (item : DeviceSession) (now : ℕ) : DeviceSession :=
  { item with revokedAt := some now, updatedAt := now, tokenGeneration := item.tokenGeneration + 1 }

/-- The replay branches of `native_refresh`. -/
def replayRevoke (item : DeviceSession) (now : ℕ) : DeviceSession := markRevoked item now

/-- `native_logout`. -/
def logoutRevoke (item : DeviceSession) (now : ℕ) : DeviceSession := markRevoked item now

/-- One row under the UPDATE of `revoke_device_sessions`, which increments the stored generation. -/
def revokeDeviceSession (userId : ℕ) (revokedAt : ℕ) (item : DeviceSession) : DeviceSession :=
  if item.userId = userId ∧ item.revokedAt = none then markRevoked item revokedAt else item

@[simp] theorem markRevoked_revokedAt (item : DeviceSession) (now : ℕ) :
    (markRevoked item now).revokedAt = some now := rfl

@[simp] theorem revokeDeviceSession_id (userId : ℕ) (at' : ℕ) (item : DeviceSession) :
    (revokeDeviceSession userId at' item).id = item.id := by
  unfold revokeDeviceSession; split_ifs <;> rfl

@[simp] theorem revokeDeviceSession_userId (userId : ℕ) (at' : ℕ) (item : DeviceSession) :
    (revokeDeviceSession userId at' item).userId = item.userId := by
  unfold revokeDeviceSession; split_ifs <;> rfl

/-- After the UPDATE no session of the user is unrevoked. -/
theorem revokeDeviceSession_revoked {userId : ℕ} {at' : ℕ} {item : DeviceSession}
    (h : item.userId = userId) : (revokeDeviceSession userId at' item).revokedAt ≠ none := by
  unfold revokeDeviceSession
  split_ifs with hc
  · simp
  · exact fun hn => hc ⟨h, hn⟩

/-! ## native_refresh -/

/-- What `native_refresh` decides on the session it has read. -/
inductive RefreshVerdict
  | replay
  | reject
  | rotate
  deriving DecidableEq, Repr

def refreshVerdict (item : DeviceSession) (user : Option User) (token : RefreshToken) (now : ℕ) :
    RefreshVerdict :=
  if item.refreshTokenHash ≠ P.refreshHash token then .replay
  else if item.revokedAt ≠ none ∨ item.expiresAt ≤ now ∨ user.all User.live = false ∨ user = none
    then .reject
  else .rotate

/-- The WHERE clause of the rotation. -/
def rotateMatches (item : DeviceSession) (token : RefreshToken) (row : DeviceSession) : Bool :=
  row.id == item.id && row.refreshTokenHash == P.refreshHash token &&
    row.tokenGeneration == item.tokenGeneration && row.revokedAt.isNone

/-- The SET clause of the rotation: `item` is the row read, `row` the row written. -/
def rotateSet (item : DeviceSession) (now : ℕ) (newHash : String) (row : DeviceSession) :
    DeviceSession :=
  { row with
    refreshTokenHash := newHash
    tokenGeneration := item.tokenGeneration + 1
    updatedAt := now
    lastSeenAt := now
    expiresAt := now + days 30 }

/-- One row under the conditional UPDATE of the rotation. -/
def rotateRow (item : DeviceSession) (token : RefreshToken) (now : ℕ) (newHash : String)
    (row : DeviceSession) : DeviceSession :=
  if rotateMatches P item token row then rotateSet item now newHash row else row

@[simp] theorem rotateRow_id (item : DeviceSession) (token : RefreshToken) (now : ℕ)
    (newHash : String) (row : DeviceSession) :
    (rotateRow P item token now newHash row).id = row.id := by
  unfold rotateRow; split_ifs <;> rfl

theorem rotateMatches_iff {item row : DeviceSession} {token : RefreshToken} :
    rotateMatches P item token row = true ↔ row.id = item.id ∧
      row.refreshTokenHash = P.refreshHash token ∧
      row.tokenGeneration = item.tokenGeneration ∧ row.revokedAt = none := by
  simp [rotateMatches, and_assoc]

theorem refreshVerdict_rotate {item : DeviceSession} {user : Option User} {token : RefreshToken}
    {now : ℕ} (h : refreshVerdict P item user token now = .rotate) :
    item.refreshTokenHash = P.refreshHash token ∧ item.revokedAt = none ∧
      ∃ u, user = some u ∧ u.live = true := by
  unfold refreshVerdict at h
  split_ifs at h with h1 h2
  simp only [not_or, ne_eq, not_not] at h1 h2
  obtain ⟨h3, -, h4, h5⟩ := h2
  obtain ⟨u, rfl⟩ := Option.ne_none_iff_exists'.mp h5
  exact ⟨h1, h3, u, rfl, by simpa using h4⟩

end IdenGrid.Control.Sessions
