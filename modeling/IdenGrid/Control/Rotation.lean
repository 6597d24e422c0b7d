import IdenGrid.Lib.Requests
import IdenGrid.Control.Sessions
import Mathlib.Data.List.Nodup

/-! # Device-session rotation under interleaving

Any number of `native_login`, `native_refresh` and `native_logout` requests on one account and one
device, each cut at its database accesses. Only the row of `users` is locked, by the final
transaction of a login; the row of `device_sessions` is read without a lock and written back with
the columns that changed, while the rotation is one conditional UPDATE.

Rotation and the answer to a replayed token are safe under every interleaving. The generation is
not: a login, a logout and the answer to a replay write the generation they *read* plus one, so a
write that finds the stored generation moved on (`keepsGeneration` fails) hands a generation out
again that a refresh already has. -/

namespace IdenGrid.Control.Rotation

open IdenGrid.Lib.Run IdenGrid.Lib.Requests IdenGrid.Lib.Orm
open IdenGrid.Control.Rows IdenGrid.Control.Sessions

/-- What the requests share: the session row of the account and the device, the holder of the
account's row lock, and what has happened so far. `replayed` says that a request has ended after
finding its refresh token superseded, and that no login has succeeded since. -/
structure Shared where
  row : Option DeviceSession
  lock : Option ℕ
  access : List NativeAccess
  refresh : List RefreshToken
  exchanged : List RefreshToken
  replayed : Bool

/-- Where a request stands, with the row it has loaded. -/
inductive Stage
  | idle
  | loginLocked (body : NativeLoginBody) (item : Option DeviceSession)
  | refreshRotating (token : RefreshToken) (item : DeviceSession) (now : ℕ)
  | refreshRolledBack (sessionId : String) (now : ℕ)
  | replayRevoking (item : DeviceSession) (now : ℕ)
  | logoutRevoking (item : DeviceSession)
  | done

/-- The database accesses of the three handlers. -/
inductive Access
  | loginLock (body : NativeLoginBody) (passwordHash : String) (verifiedTokenVersion : ℕ)
  | loginCommit (now accessTime : ℕ) (newId secret : String)
  | refreshRead (token : RefreshToken) (now : ℕ)
  | refreshRotate (accessTime : ℕ) (secret : String)
  | refreshReread
  | replayCommit
  | logoutRead (payload : NativeAccess) (now : ℕ)
  | logoutCommit (now : ℕ)

variable (P : Primitives) (user : User) (device : String)

/-- The digests of the refresh tokens handed out. -/
def Shared.digests (s : Shared) : List String := s.refresh.map P.refreshHash

/-- `db.get(DeviceSession, id)`. -/
def Shared.getSession (s : Shared) (id : String) : Option DeviceSession :=
  s.row.filter fun d => d.id = id

def getUser (id : ℕ) : Option User := if id = user.id then some user else none

/-- The commit of a login: an INSERT if it had found no session, else the write-back. A row that
appeared or vanished in between rolls it back. -/
def loginCommit (s : Shared) (body : NativeLoginBody) (item : Option DeviceSession)
    (now accessTime : ℕ) (newId secret : String) : Shared :=
  let issued := issueSession P item user body now newId secret
  let handOut (row : DeviceSession) : Shared :=
    { s with
      row := some row
      lock := none
      access := issueNativeAccess user issued accessTime :: s.access
      refresh := ⟨issued.id, secret⟩ :: s.refresh
      replayed := false }
  match item, s.row with
  | none, none => handOut issued
  | some loaded, some cur => handOut (DeviceSession.flush loaded issued cur)
  | _, _ => { s with lock := none }

/-- The commit of a revocation: the write-back of the loaded row. -/
def revokeCommit (s : Shared) (item : DeviceSession) (now : ℕ) : Shared :=
  { s with row := s.row.map (DeviceSession.flush item (markRevoked item now)) }

/-- The rotation: the conditional UPDATE and its commit. -/
def rotateCommit (s : Shared) (row item : DeviceSession) (token : RefreshToken)
    (now accessTime : ℕ) (secret : String) : Shared :=
  let newHash := P.refreshHash ⟨item.id, secret⟩
  { s with
    row := some (rotateSet item now newHash row)
    access := issueNativeAccess user (rotateSet item now newHash item) accessTime :: s.access
    refresh := ⟨item.id, secret⟩ :: s.refresh
    exchanged := token :: s.exchanged }

/-- A row read for a superseded token: it is revoked, unless it already is. -/
def answerReplay (s : Shared) (item : DeviceSession) (now : ℕ) : Shared × Stage :=
  if item.revokedAt = none then (s, .replayRevoking item now)
  else ({ s with replayed := true }, .done)

/-- One database access of request `r`. A login waits for the row lock; a refresh token handed out
is fresh. -/
def act (r : ℕ) (s : Shared) : Stage → Access → Option (Shared × Stage)
  | .idle, .loginLock body passwordHash verifiedTokenVersion =>
    if body.deviceId = device ∧ s.lock = none then
      if recheck passwordHash verifiedTokenVersion user then
        some ({ s with lock := some r }, .loginLocked body s.row)
      else some (s, .done)
    else none
  | .loginLocked body item, .loginCommit now accessTime newId secret =>
    if P.refreshHash ⟨item.elim newId DeviceSession.id, secret⟩ ∈ s.digests P then none
    else some (loginCommit P user s body item now accessTime newId secret, .done)
  | .idle, .refreshRead token now =>
    match s.getSession token.sessionId with
    | none => some (s, .done)
    | some item =>
      match refreshVerdict P item (getUser user item.userId) token now with
      | .replay => some (answerReplay s item now)
      | .reject => some (s, .done)
      | .rotate => some (s, .refreshRotating token item now)
  | .refreshRotating token item now, .refreshRotate accessTime secret =>
    match s.row.filter (rotateMatches P item token) with
    | none => some (s, .refreshRolledBack token.sessionId now)
    | some row =>
      if P.refreshHash ⟨item.id, secret⟩ ∈ s.digests P then none
      else some (rotateCommit P user s row item token now accessTime secret, .done)
  | .refreshRolledBack sessionId now, .refreshReread =>
    match s.getSession sessionId with
    | none => some (s, .done)
    | some item => some (answerReplay s item now)
  | .replayRevoking item now, .replayCommit =>
    some ({ revokeCommit s item now with replayed := true }, .done)
  | .idle, .logoutRead payload now =>
    match nativeAccessIdentity s.getSession (getUser user) payload now with
    | none => some (s, .done)
    | some (_, item) => some (s, .logoutRevoking item)
  | .logoutRevoking item, .logoutCommit now => some (revokeCommit s item now, .done)
  | _, _ => none

/-- No session yet, no request begun. -/
def start : Crew Shared Stage where
  shared :=
    { row := none, lock := none, access := [], refresh := [], exchanged := [], replayed := false }
  loc := fun _ => .idle

/-- The write of a generation that has been read loses no increment: the stored generation has not
moved past the value written (for a login, which hands the value out, not up to it either). -/
def keepsGeneration (s : Shared) : Stage → Access → Bool
  | .loginLocked _ (some loaded), .loginCommit _ _ _ _ =>
    s.row.all fun cur => cur.tokenGeneration ≤ loaded.tokenGeneration
  | .replayRevoking item _, .replayCommit =>
    s.row.all fun cur => cur.tokenGeneration ≤ item.tokenGeneration + 1
  | .logoutRevoking item, .logoutCommit _ =>
    s.row.all fun cur => cur.tokenGeneration ≤ item.tokenGeneration + 1
  | _, _ => true

variable {P user device}

/-! ## What one access can do -/

/-- The effect of one access of request `r`, `keeps` being its `keepsGeneration`.

* `quiet`: the session and what has been handed out are as before;
* `revoke`: the row is revoked, its generation the one read plus one;
* `issue`: a fresh token pair is handed out for the row written, by a login (which may insert the
  row, under the lock) or by the exchange of the token whose digest the row stored. -/
inductive Change (P : Primitives) (keeps : Prop) (r : ℕ) (s s' : Shared) : Prop
  | quiet (hlock : ∀ q, q ≠ r → s.lock = some q → s'.lock = some q) (hrow : s'.row = s.row)
      (hacc : s'.access = s.access) (href : s'.refresh = s.refresh)
      (hexc : s'.exchanged = s.exchanged)
      (hrep : s'.replayed = true →
        s.replayed = true ∨ ∃ d, s.row = some d ∧ d.revokedAt ≠ none)
  | revoke {item cur : DeviceSession} {now : ℕ}
      (hlock : ∀ q, q ≠ r → s.lock = some q → s'.lock = some q) (hcur : s.row = some cur)
      (hitem : item.revokedAt = none)
      (hrow : s'.row = some (DeviceSession.flush item (markRevoked item now) cur))
      (hacc : s'.access = s.access) (href : s'.refresh = s.refresh)
      (hexc : s'.exchanged = s.exchanged)
      (hkeeps : keeps → cur.tokenGeneration ≤ item.tokenGeneration + 1)
  | issue {d : DeviceSession} {a : NativeAccess} {t : RefreshToken}
      (hlock : ∀ q, q ≠ r → s.lock = some q → s'.lock = some q) (hrow : s'.row = some d)
      (hinsert : s.row = none → s.lock = some r) (hid : ∀ cur ∈ s.row, d.id = cur.id)
      (hhash : d.refreshTokenHash = P.refreshHash t) (hfresh : P.refreshHash t ∉ s.digests P)
      (hacc : s'.access = a :: s.access) (href : s'.refresh = t :: s.refresh)
      (hgen : a.gen = d.tokenGeneration)
      (hby : (s'.exchanged = s.exchanged ∧ s'.replayed = false) ∨
        ∃ cur token, s.row = some cur ∧ cur.refreshTokenHash = P.refreshHash token ∧
          cur.revokedAt = none ∧ s'.exchanged = token :: s.exchanged ∧ s'.replayed = s.replayed)
      (hkeeps : keeps → ∀ cur ∈ s.row, cur.tokenGeneration < d.tokenGeneration)

/-- The row a request has loaded is the stored one, as it was, and its digest was handed out. -/
def Loaded (P : Primitives) (s : Shared) (item : DeviceSession) : Prop :=
  item.refreshTokenHash ∈ s.digests P ∧ ∃ cur, s.row = some cur ∧ cur.id = item.id

/-- What a request relies on between two of its accesses. -/
def Relies (P : Primitives) (r : ℕ) (s : Shared) : Stage → Prop
  | .loginLocked _ item =>
    s.lock = some r ∧ (item = none → s.row = none) ∧ ∀ i ∈ item, Loaded P s i
  | .replayRevoking item _ => item.revokedAt = none ∧ Loaded P s item
  | .logoutRevoking item => item.revokedAt = none ∧ Loaded P s item
  | _ => True

/-- The digests of the exchanged tokens. -/
def Shared.spent (P : Primitives) (s : Shared) : List String := s.exchanged.map P.refreshHash

/-- What every interleaving keeps: the stored digest is one handed out and not yet spent, no digest
is spent twice, and a refused replay has left the session revoked. -/
structure Inv (P : Primitives) (s : Shared) : Prop where
  empty : s.row = none → s.access = [] ∧ s.refresh = [] ∧ s.exchanged = []
  stored : ∀ d ∈ s.row, d.refreshTokenHash ∈ s.digests P ∧ d.refreshTokenHash ∉ s.spent P
  spent : ∀ x ∈ s.spent P, x ∈ s.digests P
  once : (s.spent P).Nodup
  revoked : s.replayed = true → ∃ d, s.row = some d ∧ d.revokedAt ≠ none

theorem flush_login_hash {loaded new cur : DeviceSession} {x : String}
    (hnew : new.refreshTokenHash = x) (hne : x ≠ loaded.refreshTokenHash) :
    (DeviceSession.flush loaded new cur).refreshTokenHash = x := by
  subst hnew; exact col_of_ne hne _

theorem loginCommit_change {s : Shared} {r : ℕ} {body : NativeLoginBody}
    {item : Option DeviceSession} {now accessTime : ℕ} {newId secret : String}
    (hA : Relies P r s (.loginLocked body item))
    (hfresh : P.refreshHash ⟨item.elim newId DeviceSession.id, secret⟩ ∉ s.digests P) :
    Change P (keepsGeneration s (.loginLocked body item)
        (.loginCommit now accessTime newId secret) = true) r s
      (loginCommit P user s body item now accessTime newId secret) := by
  obtain ⟨hlock, hnone, hloaded⟩ := hA
  have hfree : ∀ q, q ≠ r → s.lock = some q → (none : Option ℕ) = some q := by
    intro q hq h
    exact absurd (Option.some.inj (h.symm.trans hlock)) hq
  rcases item with _ | loaded
  · have hrow := hnone rfl
    simp only [loginCommit, hrow]
    exact .issue hfree rfl (fun _ => hlock) (by simp [hrow]) (by rfl) hfresh rfl rfl rfl
      (Or.inl ⟨rfl, rfl⟩) (fun _ => by simp [hrow])
  · obtain ⟨hdig, cur, hrow, hid⟩ := hloaded loaded rfl
    simp only [loginCommit, hrow]
    have hne : P.refreshHash ⟨loaded.id, secret⟩ ≠ loaded.refreshTokenHash := by
      intro heq
      exact hfresh (by simpa [heq] using hdig)
    refine .issue hfree rfl (fun _ => hlock) (by simp [hrow, DeviceSession.flush])
      (flush_login_hash (issueSession_hash P _ _ _ _ _ _) hne) ?_ rfl rfl ?_ (Or.inl ⟨rfl, rfl⟩) ?_
    · exact hfresh
    · simp [issueNativeAccess, issueSession, storeToken, loginSession, renewSession,
        DeviceSession.flush]
    · intro hk c hc
      obtain rfl : cur = c := by simpa [hrow] using hc
      have hle : cur.tokenGeneration ≤ loaded.tokenGeneration := by
        simpa [keepsGeneration, hrow] using hk
      simp [issueSession, storeToken, loginSession, renewSession, DeviceSession.flush]
      omega

theorem revokeCommit_change {s : Shared} {r : ℕ} {item : DeviceSession} {now : ℕ} {keeps : Prop}
    (replayed : Bool) (hitem : item.revokedAt = none) (hloaded : Loaded P s item)
    (hkeeps : keeps → ∀ cur ∈ s.row, cur.tokenGeneration ≤ item.tokenGeneration + 1) :
    Change P keeps r s { revokeCommit s item now with replayed := replayed } := by
  obtain ⟨-, cur, hrow, -⟩ := hloaded
  have hrow' : (revokeCommit s item now).row =
      some (DeviceSession.flush item (markRevoked item now) cur) := by simp [revokeCommit, hrow]
  exact .revoke (fun _ _ h => h) hrow hitem hrow' rfl rfl rfl fun hk => hkeeps hk cur hrow

theorem rotateCommit_change {s : Shared} {r : ℕ} {row item : DeviceSession} {token : RefreshToken}
    {now accessTime : ℕ} {secret : String} {keeps : Prop} (hrow : s.row = some row)
    (hm : rotateMatches P item token row = true)
    (hfresh : P.refreshHash ⟨item.id, secret⟩ ∉ s.digests P) :
    Change P keeps r s (rotateCommit P user s row item token now accessTime secret) := by
  obtain ⟨-, hhash, hgen, hrev⟩ := (rotateMatches_iff P).mp hm
  refine .issue (fun _ _ h => h) rfl (by simp [hrow]) (by simp [hrow, rotateSet]) rfl hfresh rfl rfl
    rfl (Or.inr ⟨row, token, hrow, hhash, hrev, rfl, rfl⟩) ?_
  intro _ cur hc
  obtain rfl : row = cur := by simpa [hrow] using hc
  simp [rotateSet, hgen]

theorem getSession_eq_some {s : Shared} {id : String} {item : DeviceSession}
    (h : s.getSession id = some item) : s.row = some item ∧ item.id = id := by
  simpa [Shared.getSession] using Option.filter_eq_some_iff.mp h

theorem answerReplay_change {s : Shared} {r : ℕ} {item : DeviceSession} {now : ℕ} {keeps : Prop}
    (hrow : s.row = some item) : Change P keeps r s (answerReplay s item now).1 := by
  unfold answerReplay
  split_ifs with hrev
  · exact .quiet (fun _ _ h => h) rfl rfl rfl rfl Or.inl
  · exact .quiet (fun _ _ h => h) rfl rfl rfl rfl fun _ => Or.inr ⟨item, hrow, hrev⟩

theorem Change.refl (keeps : Prop) (r : ℕ) (s : Shared) : Change P keeps r s s :=
  .quiet (fun _ _ h => h) rfl rfl rfl rfl Or.inl

/-- **What one access can do.** -/
theorem act_change {s s' : Shared} {r : ℕ} {m m' : Stage} {a : Access} (hA : Relies P r s m)
    (h : act P user device r s m a = some (s', m')) :
    Change P (keepsGeneration s m a = true) r s s' := by
  cases m with
  | idle =>
    cases a with
    | loginLock body passwordHash version =>
      simp only [act] at h
      split_ifs at h with hg
      · obtain ⟨rfl, -⟩ := by simpa using h
        refine .quiet (fun q _ hq => ?_) rfl rfl rfl rfl Or.inl
        rw [hg.2] at hq; cases hq
      · obtain ⟨rfl, -⟩ := by simpa using h
        exact .refl _ _ _
    | refreshRead token now =>
      simp only [act] at h
      split at h
      · obtain ⟨rfl, -⟩ := by simpa using h
        exact .refl _ _ _
      · next item hitem =>
        split at h
        · have hs : (answerReplay s item now).1 = s' := congrArg Prod.fst (Option.some.inj h)
          exact hs ▸ answerReplay_change (getSession_eq_some hitem).1
        · obtain ⟨rfl, -⟩ := by simpa using h
          exact .refl _ _ _
        · obtain ⟨rfl, -⟩ := by simpa using h
          exact .refl _ _ _
    | logoutRead payload now =>
      simp only [act] at h
      split at h
      · obtain ⟨rfl, -⟩ := by simpa using h
        exact .refl _ _ _
      · obtain ⟨rfl, -⟩ := by simpa using h
        exact .refl _ _ _
    | _ => cases h
  | loginLocked body item =>
    cases a with
    | loginCommit now accessTime newId secret =>
      simp only [act] at h
      split_ifs at h with hfresh
      obtain ⟨rfl, -⟩ := by simpa using h
      exact loginCommit_change hA hfresh
    | _ => cases h
  | refreshRotating token item now =>
    cases a with
    | refreshRotate accessTime secret =>
      simp only [act] at h
      split at h
      · obtain ⟨rfl, -⟩ := by simpa using h
        exact .refl _ _ _
      · next row hrow =>
        split_ifs at h with hfresh
        obtain ⟨rfl, -⟩ := by simpa using h
        obtain ⟨hrow, hm⟩ := Option.filter_eq_some_iff.mp hrow
        exact rotateCommit_change hrow hm hfresh
    | _ => cases h
  | refreshRolledBack sessionId now =>
    cases a with
    | refreshReread =>
      simp only [act] at h
      split at h
      · obtain ⟨rfl, -⟩ := by simpa using h
        exact .refl _ _ _
      · next item hitem =>
        have hs : (answerReplay s item now).1 = s' := congrArg Prod.fst (Option.some.inj h)
        exact hs ▸ answerReplay_change (getSession_eq_some hitem).1
    | _ => cases h
  | replayRevoking item now =>
    cases a with
    | replayCommit =>
      simp only [act] at h
      obtain ⟨rfl, -⟩ := by simpa using h
      exact revokeCommit_change true hA.1 hA.2 (by simp [keepsGeneration, Option.all_eq_true])
    | _ => cases h
  | logoutRevoking item =>
    cases a with
    | logoutCommit now =>
      simp only [act] at h
      obtain ⟨rfl, -⟩ := by simpa using h
      exact revokeCommit_change s.replayed hA.1 hA.2
        (by simp [keepsGeneration, Option.all_eq_true])
    | _ => cases h
  | done => cases h

/-! ## Assertions of the requests -/

theorem Change.row_id {keeps : Prop} {r : ℕ} {s s' : Shared} (h : Change P keeps r s s')
    {cur : DeviceSession} (hcur : s.row = some cur) :
    ∃ cur', s'.row = some cur' ∧ cur'.id = cur.id := by
  cases h with
  | quiet _ hrow => exact ⟨cur, hrow.trans hcur, rfl⟩
  | @revoke _ c _ _ hc _ hrow =>
    obtain rfl : c = cur := Option.some.inj (hc.symm.trans hcur)
    exact ⟨_, hrow, rfl⟩
  | issue _ hrow _ hid => exact ⟨_, hrow, hid cur hcur⟩

theorem Change.digests {keeps : Prop} {r : ℕ} {s s' : Shared} (h : Change P keeps r s s')
    {x : String} (hx : x ∈ s.digests P) : x ∈ s'.digests P := by
  unfold Shared.digests at *
  cases h with
  | quiet _ _ _ href => rw [href]; exact hx
  | revoke _ _ _ _ _ href => rw [href]; exact hx
  | issue _ _ _ _ _ _ _ href => rw [href]; exact List.mem_cons_of_mem _ hx

theorem Change.lock {keeps : Prop} {r q : ℕ} {s s' : Shared} (h : Change P keeps r s s')
    (hq : q ≠ r) (hl : s.lock = some q) : s'.lock = some q := by
  cases h with
  | quiet hlock => exact hlock q hq hl
  | revoke hlock => exact hlock q hq hl
  | issue hlock => exact hlock q hq hl

/-- Only the holder of the lock inserts the row. -/
theorem Change.row_none {keeps : Prop} {r q : ℕ} {s s' : Shared} (h : Change P keeps r s s')
    (hq : q ≠ r) (hl : s.lock = some q) (hn : s.row = none) : s'.row = none := by
  cases h with
  | quiet _ hrow => exact hrow.trans hn
  | revoke _ hcur => rw [hn] at hcur; cases hcur
  | issue _ _ hinsert => exact absurd (Option.some.inj (hl.symm.trans (hinsert hn))) hq

theorem Loaded.change {keeps : Prop} {r : ℕ} {s s' : Shared} (h : Change P keeps r s s')
    {item : DeviceSession} (hl : Loaded P s item) : Loaded P s' item := by
  obtain ⟨hdig, cur, hcur, hid⟩ := hl
  obtain ⟨cur', hcur', hid'⟩ := h.row_id hcur
  exact ⟨h.digests hdig, cur', hcur', hid'.trans hid⟩

/-- What the other requests rely on is stable. -/
theorem Relies.change {keeps : Prop} {r q : ℕ} {s s' : Shared} {m : Stage} (hq : q ≠ r)
    (h : Change P keeps r s s') (hA : Relies P q s m) : Relies P q s' m := by
  cases m with
  | loginLocked body item =>
    obtain ⟨hl, hnone, hloaded⟩ := hA
    exact ⟨h.lock hq hl, fun hi => h.row_none hq hl (hnone hi), fun i hi => (hloaded i hi).change h⟩
  | replayRevoking item now => exact ⟨hA.1, hA.2.change h⟩
  | logoutRevoking item => exact ⟨hA.1, hA.2.change h⟩
  | _ => trivial

theorem Inv.loaded {s : Shared} (hI : Inv P s) {item : DeviceSession} (h : s.row = some item) :
    Loaded P s item := ⟨(hI.stored item h).1, item, h, rfl⟩

theorem answerReplay_relies {s s' : Shared} {r now : ℕ} {item : DeviceSession} {m : Stage}
    (hI : Inv P s) (hrow : s.row = some item) (h : answerReplay s item now = (s', m)) :
    Relies P r s' m := by
  unfold answerReplay at h
  split_ifs at h with hrev
  · obtain ⟨rfl, rfl⟩ := by simpa using h
    exact ⟨hrev, hI.loaded hrow⟩
  · obtain ⟨-, rfl⟩ := by simpa using h
    trivial

/-- An access leaves its request with what it relies on next. -/
theorem act_relies {s s' : Shared} {r : ℕ} {m m' : Stage} {a : Access} (hI : Inv P s)
    (h : act P user device r s m a = some (s', m')) : Relies P r s' m' := by
  unfold act at h
  split at h
  · -- loginLock
    split_ifs at h
    · obtain ⟨rfl, rfl⟩ := by simpa using h
      exact ⟨rfl, id, fun i hi => hI.loaded hi⟩
    · obtain ⟨rfl, rfl⟩ := by simpa using h
      trivial
  · split_ifs at h
    obtain ⟨-, rfl⟩ := by simpa using h
    trivial
  · -- refreshRead
    split at h
    · obtain ⟨-, rfl⟩ := by simpa using h
      trivial
    next item hitem =>
    split at h
    · exact answerReplay_relies hI (getSession_eq_some hitem).1 (Option.some.inj h)
    · obtain ⟨-, rfl⟩ := by simpa using h
      trivial
    · obtain ⟨-, rfl⟩ := by simpa using h
      trivial
  · split at h
    · obtain ⟨-, rfl⟩ := by simpa using h
      trivial
    · split_ifs at h
      obtain ⟨-, rfl⟩ := by simpa using h
      trivial
  · -- refreshReread
    split at h
    · obtain ⟨-, rfl⟩ := by simpa using h
      trivial
    · next item hitem =>
      exact answerReplay_relies hI (getSession_eq_some hitem).1 (Option.some.inj h)
  · obtain ⟨-, rfl⟩ := by simpa using h
    trivial
  · -- logoutRead
    split at h
    · obtain ⟨-, rfl⟩ := by simpa using h
      trivial
    · next item hid =>
      obtain ⟨rfl, rfl⟩ := by simpa using h
      obtain ⟨hget, -, -, -, hrev, -⟩ := nativeAccessIdentity_eq_some hid
      exact ⟨hrev, hI.loaded (getSession_eq_some hget).1⟩
  · obtain ⟨-, rfl⟩ := by simpa using h
    trivial
  · cases h

/-! ## The invariant -/

theorem Inv.change {keeps : Prop} {r : ℕ} {s s' : Shared} (hI : Inv P s)
    (h : Change P keeps r s s') : Inv P s' := by
  cases h with
  | quiet _ hrow hacc href hexc hrep =>
    refine ⟨fun hn => ?_, fun d hd => ?_, ?_, ?_, fun hr => ?_⟩
    · rw [hacc, href, hexc]; exact hI.empty (hrow ▸ hn)
    · rw [Shared.digests, Shared.spent, href, hexc]; exact hI.stored d (hrow ▸ hd)
    · rw [Shared.digests, Shared.spent, href, hexc]; exact hI.spent
    · rw [Shared.spent, hexc]; exact hI.once
    · rw [hrow]; exact (hrep hr).elim hI.revoked id
  | @revoke item cur now _ hcur hitem hrow hacc href hexc =>
    refine ⟨fun hn => ?_, fun d hd => ?_, ?_, ?_, fun _ => ⟨_, hrow, ?_⟩⟩
    · rw [hrow] at hn; cases hn
    · -- a revocation leaves the stored digest alone
      obtain rfl := Option.some.inj (hrow.symm.trans hd)
      have hhash : (DeviceSession.flush item (markRevoked item now) cur).refreshTokenHash =
          cur.refreshTokenHash := by simp [DeviceSession.flush, markRevoked]
      rw [hhash, Shared.digests, Shared.spent, href, hexc]; exact hI.stored cur hcur
    · rw [Shared.digests, Shared.spent, href, hexc]; exact hI.spent
    · rw [Shared.spent, hexc]; exact hI.once
    · simp [DeviceSession.flush, markRevoked, hitem, col]
  | @issue d a t _ hrow _ _ hhash hfresh hacc href _ hby =>
    have hdig : s'.digests P = P.refreshHash t :: s.digests P := by simp [Shared.digests, href]
    have hspent : s'.spent P = s.spent P ∨ ∃ cur, s.row = some cur ∧
        s'.spent P = cur.refreshTokenHash :: s.spent P := by
      rcases hby with ⟨hexc, -⟩ | ⟨cur, token, hcur, hmatch, -, hexc, -⟩
      · exact Or.inl (by simp [Shared.spent, hexc])
      · exact Or.inr ⟨cur, hcur, by simp [Shared.spent, hexc, hmatch]⟩
    have hold : ∀ x ∈ s'.spent P, x ∈ s.digests P := by
      intro x hx
      rcases hspent with hsp | ⟨cur, hcur, hsp⟩
      · exact hI.spent x (hsp ▸ hx)
      · rw [hsp] at hx
        rcases List.mem_cons.mp hx with rfl | hx
        · exact (hI.stored cur hcur).1
        · exact hI.spent x hx
    refine ⟨fun hn => ?_, fun d' hd => ?_, fun x hx => ?_, ?_, fun hr => ?_⟩
    · rw [hrow] at hn; cases hn
    · -- the new digest is fresh, what is spent was handed out before
      obtain rfl := Option.some.inj (hrow.symm.trans hd)
      rw [hhash, hdig]
      exact ⟨List.mem_cons_self, fun hx => hfresh (hold _ hx)⟩
    · rw [hdig]
      exact List.mem_cons_of_mem _ (hold x hx)
    · rcases hspent with hsp | ⟨cur, hcur, hsp⟩
      · rw [hsp]; exact hI.once
      · rw [hsp]; exact List.nodup_cons.mpr ⟨(hI.stored cur hcur).2, hI.once⟩
    · -- a login has succeeded, or the session was not revoked and no replay pending
      rcases hby with ⟨-, hrep⟩ | ⟨cur, _, hcur, -, hrev, -, hrep⟩
      · rw [hrep] at hr; cases hr
      · obtain ⟨d', hd', hne⟩ := hI.revoked (hrep ▸ hr)
        obtain rfl := Option.some.inj (hcur.symm.trans hd')
        exact absurd hrev hne

theorem holds_start (P : Primitives) : Holds (Inv P) (Relies P) start :=
  ⟨⟨fun _ => ⟨rfl, rfl, rfl⟩, by simp [start], by simp [start, Shared.spent], List.nodup_nil,
    by simp [start]⟩, fun _ => trivial⟩

/-- What every interleaving keeps, with the assertions of the requests. -/
theorem holds_run {evs : List (ℕ × Access)} {c : Crew Shared Stage}
    (hr : run (step (act P user device)) start evs = some c) : Holds (Inv P) (Relies P) c := by
  refine run_owicki (C := fun _ _ => True) ?_ ?_ (holds_start P) (along_true _ _) hr
  · intro c r a s' m' hI hA _ h
    exact ⟨hI.change (act_change hA h), act_relies hI h⟩
  · intro c r a s' m' q _ hA _ h hq hAq
    exact hAq.change hq (act_change hA h)

/-- **Rotation and replay, under every interleaving**: no refresh token is exchanged twice, and a
session is revoked from the refusal of a superseded token to the next successful login. -/
theorem exchanged_once_replay_revokes {evs : List (ℕ × Access)} {c : Crew Shared Stage}
    (hr : run (step (act P user device)) start evs = some c) :
    c.shared.exchanged.Nodup ∧
      (c.shared.replayed = true → ∃ d, c.shared.row = some d ∧ d.revokedAt ≠ none) :=
  ⟨List.Nodup.of_map _ (holds_run hr).1.once, (holds_run hr).1.revoked⟩

/-! ## Generations -/

/-- No access token is ahead of the stored generation, and each was issued with a generation above
those issued before it. -/
structure Generations (s : Shared) : Prop where
  bound : ∀ d ∈ s.row, ∀ a ∈ s.access, a.gen ≤ d.tokenGeneration
  increasing : s.access.Pairwise fun later earlier => earlier.gen < later.gen

theorem Generations.change {keeps : Prop} {r : ℕ} {s s' : Shared} (hI : Inv P s)
    (hG : Generations s) (h : Change P keeps r s s') (hkeeps : keeps) : Generations s' := by
  cases h with
  | quiet _ hrow hacc =>
    exact ⟨by rw [hrow, hacc]; exact hG.bound, by rw [hacc]; exact hG.increasing⟩
  | @revoke item cur now _ hcur _ hrow hacc _ _ hgen =>
    refine ⟨fun d hd a ha => ?_, by rw [hacc]; exact hG.increasing⟩
    obtain rfl := Option.some.inj (hrow.symm.trans hd)
    have hle := hG.bound cur hcur a (hacc ▸ ha)
    have hwrite := hgen hkeeps
    simp only [DeviceSession.flush, markRevoked, col_succ]
    omega
  | @issue d a t _ hrow _ _ _ _ hacc _ hag _ hgen =>
    have hlt : ∀ x ∈ s.access, x.gen < d.tokenGeneration := by
      intro x hx
      rcases hcur : s.row with _ | cur
      · rw [(hI.empty hcur).1] at hx; cases hx
      · have hle := hG.bound cur hcur x hx
        have := hgen hkeeps cur hcur
        omega
    refine ⟨fun d' hd x hx => ?_, ?_⟩
    · obtain rfl := Option.some.inj (hrow.symm.trans hd)
      rw [hacc] at hx
      rcases List.mem_cons.mp hx with rfl | hx
      · exact Nat.le_of_eq hag
      · exact Nat.le_of_lt (hlt x hx)
    · rw [hacc]
      exact List.pairwise_cons.mpr ⟨fun x hx => hag ▸ hlt x hx, hG.increasing⟩

/-- The access tokens handed out that are accepted now. -/
def accepted (user : User) (s : Shared) (now : ℕ) : List NativeAccess :=
  s.access.filter fun a => (nativeAccessIdentity s.getSession (getUser user) a now).isSome

theorem accepted_gen {s : Shared} {now : ℕ} {a : NativeAccess} (h : a ∈ accepted user s now) :
    ∃ d, s.row = some d ∧ d.tokenGeneration = a.gen := by
  obtain ⟨-, hsome⟩ := List.mem_filter.mp h
  obtain ⟨⟨u, d⟩, hid⟩ := Option.isSome_iff_exists.mp hsome
  obtain ⟨hget, -, -, hgen, -⟩ := nativeAccessIdentity_eq_some hid
  exact ⟨d, (getSession_eq_some hget).1, hgen⟩

/-- With increasing generations only one issued token has the stored one. -/
theorem accepted_length {s : Shared} (hG : Generations s) (now : ℕ) :
    (accepted user s now).length ≤ 1 := by
  have hpw : (accepted user s now).Pairwise fun later earlier => earlier.gen < later.gen :=
    hG.increasing.filter _
  rcases hl : accepted user s now with _ | ⟨a, _ | ⟨b, rest⟩⟩
  · simp
  · simp
  · obtain ⟨d, hd, ha⟩ := accepted_gen (hl ▸ List.mem_cons_self : a ∈ accepted user s now)
    obtain ⟨d', hd', hb⟩ := accepted_gen (hl ▸ List.mem_cons_of_mem _ List.mem_cons_self :
      b ∈ accepted user s now)
    obtain rfl := Option.some.inj (hd.symm.trans hd')
    rw [hl] at hpw
    have := List.rel_of_pairwise_cons hpw List.mem_cons_self
    omega

/-- **Rotation, where no increment is lost**: in a run whose logins, logouts and replay revocations
never write a stale generation, each refresh token is exchanged at most once, the generations
issued increase strictly, at most one issued access token is accepted at any time, and a refused
replay leaves the session revoked until the next login. -/
theorem rotation_of_keepsGeneration (P : Primitives) (user : User) (device : String)
    {evs : List (ℕ × Access)} {c : Crew Shared Stage}
    (hC : Along (step (act P user device))
      (fun c e => keepsGeneration c.shared (c.loc e.1) e.2 = true) start evs)
    (hr : run (step (act P user device)) start evs = some c) :
    c.shared.exchanged.Nodup ∧
      c.shared.access.Pairwise (fun later earlier => earlier.gen < later.gen) ∧
      (∀ now, (accepted user c.shared now).length ≤ 1) ∧
      (c.shared.replayed = true → ∃ d, c.shared.row = some d ∧ d.revokedAt ≠ none) := by
  have hG : Generations c.shared := by
    refine (run_inv_along (I := fun c => Holds (Inv P) (Relies P) c ∧ Generations c.shared)
      ?_ evs start c ⟨holds_start P, ?_⟩ hC hr).2
    · rintro c ⟨r, a⟩ c' ⟨hH, hG⟩ hkeeps h
      obtain ⟨s', m', ha, rfl⟩ := step_eq_some.mp h
      have hchange := act_change (hH.2 r) ha
      refine ⟨holds_step (fun s' m' ha => ?_) (fun s' m' ha q hq => ?_) h,
        hG.change hH.1 hchange hkeeps⟩
      · exact ⟨hH.1.change (act_change (hH.2 r) ha), act_relies hH.1 ha⟩
      · exact (hH.2 q).change hq (act_change (hH.2 r) ha)
    · exact ⟨by simp [start], by simp [start]⟩
  obtain ⟨honce, hrev⟩ := exchanged_once_replay_revokes hr
  exact ⟨honce, hG.increasing, accepted_length hG, hrev⟩

/-! ## Two schedules -/

def sampleLock : Access := .loginLock sampleBody "argon2id:correct horse" 0

/-- Sign in, refresh, present the first token again. -/
def replaySchedule : List (ℕ × Access) :=
  [(0, sampleLock), (0, .loginCommit (seconds 100) (seconds 100) "session-1" "secret-1"),
    (1, .refreshRead ⟨"session-1", "secret-1"⟩ (seconds 200)),
    (1, .refreshRotate (seconds 200) "secret-2"),
    (2, .refreshRead ⟨"session-1", "secret-1"⟩ (seconds 300)), (2, .replayCommit)]

/-- A second login reads the session before the refresh and writes it after. -/
def staleLoginSchedule : List (ℕ × Access) :=
  [(0, sampleLock), (0, .loginCommit (seconds 100) (seconds 100) "session-1" "secret-1"),
    (1, sampleLock),
    (2, .refreshRead ⟨"session-1", "secret-1"⟩ (seconds 200)),
    (2, .refreshRotate (seconds 200) "secret-2"),
    (1, .loginCommit (seconds 201) (seconds 201) "session-2" "secret-3")]

theorem rotation_of_keepsGeneration_replay : ∃ c,
    run (step (act .sample sampleUser "device-a")) start replaySchedule = some c ∧
      c.shared.exchanged.Nodup ∧
      c.shared.access.Pairwise (fun later earlier => earlier.gen < later.gen) ∧
      (∀ now, (accepted sampleUser c.shared now).length ≤ 1) ∧
      (c.shared.replayed = true → ∃ d, c.shared.row = some d ∧ d.revokedAt ≠ none) := by
  obtain ⟨c, hr⟩ : ∃ c,
      run (step (act .sample sampleUser "device-a")) start replaySchedule = some c := ⟨_, rfl⟩
  exact ⟨c, hr, rotation_of_keepsGeneration .sample sampleUser "device-a" (by decide) hr⟩

/-- The refresh and the second login hand out the same generation, and both of their access tokens
are accepted. -/
theorem stale_login_repeats_generation : ∃ c,
    run (step (act .sample sampleUser "device-a")) start staleLoginSchedule = some c ∧
      ¬ c.shared.access.Pairwise (fun later earlier => earlier.gen < later.gen) ∧
      (accepted sampleUser c.shared (seconds 300)).length = 2 :=
  ⟨_, rfl, by decide, by decide⟩

end IdenGrid.Control.Rotation
