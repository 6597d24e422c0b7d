import IdenGrid.Lib.Orm

/-! # The control plane: account rows and access tokens

The rows of `users` and `device_sessions` as far as the handlers modelled here read or write them,
and the three places that accept an access token: `nativeAccessIdentity`, `bearerUser` and the
checks of `native_refresh` (in `Sessions`).

A bearer string is modelled by what its signer's `loads` finds in it: the payload of a web token,
the payload of a native token (the two signers use different salts), or nothing. Times are
microseconds since the epoch, as `datetime` keeps them. -/

namespace IdenGrid.Control.Rows

open IdenGrid.Lib.Orm

def seconds (n : ℕ) : ℕ := n * 1000000
def minutes (n : ℕ) : ℕ := seconds (n * 60)
def days (n : ℕ) : ℕ := seconds (n * 24 * 60 * 60)

/-- `int(t.timestamp())`. -/
def timestamp (t : ℕ) : ℕ := t / 1000000

inductive Role
  | admin
  | member
  deriving DecidableEq, Repr

inductive Platform
  | macos
  | windows
  deriving DecidableEq, Repr

/-- A row of `users`. -/
structure User where
  id : ℕ
  username : String
  passwordHash : String
  role : Role
  enabled : Bool
  tokenVersion : ℕ
  deletedAt : Option ℕ
  deriving DecidableEq, Repr

/-- Neither disabled nor deleted: what every sign-in path requires of the account. -/
def User.live (u : User) : Bool := u.enabled && u.deletedAt.isNone

/-- A row of `device_sessions`. -/
structure DeviceSession where
  id : String
  userId : ℕ
  deviceId : String
  deviceName : String
  platform : Platform
  refreshTokenHash : String
  tokenGeneration : ℕ
  updatedAt : ℕ
  lastSeenAt : ℕ
  expiresAt : ℕ
  revokedAt : Option ℕ
  deriving DecidableEq, Repr

/-- The payload of a native access token. -/
structure NativeAccess where
  uid : ℕ
  ver : ℕ
  dsid : String
  gen : ℕ
  exp : ℕ
  deriving DecidableEq, Repr

/-- The payload of a web access token. -/
structure WebAccess where
  uid : ℕ
  ver : ℕ
  deriving DecidableEq, Repr

/-- What the signers find in a bearer string. -/
inductive Bearer
  | web (payload : WebAccess)
  | native (payload : NativeAccess)
  | badSignature
  deriving DecidableEq, Repr

/-- A refresh token `session_id.secret`, split at its first dot. -/
structure RefreshToken where
  sessionId : String
  secret : String
  deriving DecidableEq, Repr

def issueAccess (user : User) : WebAccess := { uid := user.id, ver := user.tokenVersion }

def issueNativeAccess (user : User) (item : DeviceSession) (now : ℕ) : NativeAccess where
  uid := user.id
  ver := user.tokenVersion
  dsid := item.id
  gen := item.tokenGeneration
  exp := timestamp (now + minutes 15)

section Accept

variable (getSession : String → Option DeviceSession) (getUser : ℕ → Option User)

def nativeAccessIdentity (payload : NativeAccess) (now : ℕ) : Option (User × DeviceSession) :=
  if payload.exp ≤ timestamp now then none
  else
    match getSession payload.dsid, getUser payload.uid with
    | some item, some user =>
      if item.userId ≠ user.id ∨ item.tokenGeneration ≠ payload.gen ∨ item.revokedAt ≠ none ∨
          item.expiresAt ≤ now ∨ user.enabled = false ∨ user.deletedAt ≠ none ∨
          user.tokenVersion ≠ payload.ver then none
      else some (user, item)
    | _, _ => none

def bearerUser (token : Bearer) (now : ℕ) : Option User :=
  match token with
  | .web payload =>
    match getUser payload.uid with
    | some user =>
      if user.enabled = false ∨ user.deletedAt ≠ none ∨ user.tokenVersion ≠ payload.ver then none
      else some user
    | none => none
  | .native payload => (nativeAccessIdentity getSession getUser payload now).map Prod.fst
  | .badSignature => none

variable {getSession getUser}

/-- **What acceptance of a native access token says**: its session and its account exist, the
session is not revoked and of the token's generation, the account live and of its version. -/
theorem nativeAccessIdentity_eq_some {payload : NativeAccess} {now : ℕ} {user : User}
    {item : DeviceSession}
    (h : nativeAccessIdentity getSession getUser payload now = some (user, item)) :
    getSession payload.dsid = some item ∧ getUser payload.uid = some user ∧
      item.userId = user.id ∧ item.tokenGeneration = payload.gen ∧ item.revokedAt = none ∧
      user.live = true ∧ user.tokenVersion = payload.ver := by
  unfold nativeAccessIdentity at h
  split_ifs at h with hexp
  split at h
  · next item' user' hitem huser =>
    split_ifs at h with hbad
    obtain ⟨rfl, rfl⟩ : user' = user ∧ item' = item := by simpa using h
    simp only [not_or, ne_eq, not_not] at hbad
    obtain ⟨h1, h2, h3, -, h5, h6, h7⟩ := hbad
    exact ⟨hitem, huser, h1, h2, h3, by simp [User.live, h5, h6], h7⟩
  · simp at h

/-- What acceptance of a web access token says. -/
theorem bearerUser_web_eq_some {payload : WebAccess} {now : ℕ} {user : User}
    (h : bearerUser getSession getUser (.web payload) now = some user) :
    getUser payload.uid = some user ∧ user.live = true ∧ user.tokenVersion = payload.ver := by
  simp only [bearerUser] at h
  split at h
  · next user' huser =>
    split_ifs at h with hbad
    obtain rfl : user' = user := by simpa using h
    simp only [not_or, ne_eq, not_not] at hbad
    obtain ⟨h1, h2, h3⟩ := hbad
    exact ⟨huser, by simp [User.live, h1, h2], h3⟩
  · simp at h

/-- **What acceptance of a bearer token says**: the account exists and is live. -/
theorem bearerUser_live {token : Bearer} {now : ℕ} {user : User}
    (h : bearerUser getSession getUser token now = some user) :
    (∃ id, getUser id = some user) ∧ user.live = true := by
  rcases token with payload | payload | _
  · obtain ⟨hu, hlive, -⟩ := bearerUser_web_eq_some h
    exact ⟨⟨_, hu⟩, hlive⟩
  · obtain ⟨⟨user', item⟩, hid, rfl⟩ := Option.map_eq_some_iff.mp h
    obtain ⟨-, hu, -, -, -, hlive, -⟩ := nativeAccessIdentity_eq_some hid
    exact ⟨⟨_, hu⟩, hlive⟩
  · simp [bearerUser] at h

end Accept

/-- The write-back of a device session: the columns that differ from the loaded row. -/
def DeviceSession.flush (loaded new cur : DeviceSession) : DeviceSession where
  id := cur.id
  userId := cur.userId
  deviceId := cur.deviceId
  deviceName := col loaded.deviceName new.deviceName cur.deviceName
  platform := col loaded.platform new.platform cur.platform
  refreshTokenHash := col loaded.refreshTokenHash new.refreshTokenHash cur.refreshTokenHash
  tokenGeneration := col loaded.tokenGeneration new.tokenGeneration cur.tokenGeneration
  updatedAt := col loaded.updatedAt new.updatedAt cur.updatedAt
  lastSeenAt := col loaded.lastSeenAt new.lastSeenAt cur.lastSeenAt
  expiresAt := col loaded.expiresAt new.expiresAt cur.expiresAt
  revokedAt := col loaded.revokedAt new.revokedAt cur.revokedAt

/-- The write-back of an account row. -/
def User.flush (loaded new cur : User) : User where
  id := cur.id
  username := col loaded.username new.username cur.username
  passwordHash := col loaded.passwordHash new.passwordHash cur.passwordHash
  role := col loaded.role new.role cur.role
  enabled := col loaded.enabled new.enabled cur.enabled
  tokenVersion := col loaded.tokenVersion new.tokenVersion cur.tokenVersion
  deletedAt := col loaded.deletedAt new.deletedAt cur.deletedAt

end IdenGrid.Control.Rows
