import IdenGrid.Control.Serial

/-! # Revocation of an account kills its native credentials

The invariant behind every revoking handler is `RevokedWithAccount`: no session of a disabled or
deleted account is unrevoked. `change_user_password`, `set_user_enabled` and `delete_user` revoke
the sessions in the transaction that changes the account; `disable_user` does not, so it breaks the
invariant whenever its target has an unrevoked session (`Bypasses`), and a later re-enabling brings
the old refresh token back to life.

`handle_effect` says once what a request that does not bypass the revocation can do to accounts and
sessions; the invariant, the bounds on the versions of issued access tokens and the death of old
tokens (`DeadAccess`, `DeadRefresh`) follow from it. -/

namespace IdenGrid.Control.Revocation

open IdenGrid.Lib.Run IdenGrid.Lib.Store IdenGrid.Control.Rows IdenGrid.Control.Sessions
open IdenGrid.Control.Accounts IdenGrid.Control.Throttle IdenGrid.Control.Serial

variable {P : Primitives}

/-- No session of an account that is disabled or deleted is unrevoked. -/
def RevokedWithAccount (db : Db) : Prop :=
  ∀ u ∈ db.users.rows, u.live = false → ∀ d ∈ db.sessions.rows, d.userId = u.id → d.revokedAt ≠ none

/-- The request disables an account without revoking a session it still has. -/
def Bypasses (db : Db) : Request → Prop
  | .disableUser userId => ∃ target, disableTarget (db.users.get? userId) = some target ∧
      ∃ d ∈ db.sessions.rows, d.userId = target.id ∧ d.revokedAt = none
  | _ => False

/-- The request disables or deletes the account `uid` or changes its password. -/
def Kills (db : Db) (uid : ℕ) : Request → Prop
  | .changeUserPassword userId _ _ => userId = uid ∧ (memberUser (db.users.get? uid)).isSome
  | .setUserEnabled userId enabled _ =>
      userId = uid ∧ enabled = false ∧ (memberUser (db.users.get? uid)).isSome
  | .disableUser userId => userId = uid ∧ (disableTarget (db.users.get? uid)).isSome
  | .deleteUser userId _ _ => userId = uid ∧ (memberUser (db.users.get? uid)).isSome
  | _ => False

/-! ## What a request can do -/

/-- Every session of the new database is an old one, perhaps revoked since. -/
def Marked (db db' : Db) : Prop :=
  ∀ x' ∈ db'.sessions.rows, ∃ x ∈ db.sessions.rows, x' = x ∨ ∃ now, x' = markRevoked x now

theorem Marked.of_eq {db db' : Db} (h : db'.sessions = db.sessions) : Marked db db' :=
  fun x hx => ⟨x, h ▸ hx, Or.inl rfl⟩

theorem Marked.put {db db' : Db} {item : DeviceSession} {now : ℕ} (hi : item ∈ db.sessions.rows)
    (h : db'.sessions = db.sessions.put (markRevoked item now)) : Marked db db' := by
  intro x' hx'
  rw [h] at hx'
  rcases Table.mem_put hx' with rfl | ⟨hx, -⟩
  · exact ⟨item, hi, Or.inr ⟨now, rfl⟩⟩
  · exact ⟨x', hx, Or.inl rfl⟩

theorem Marked.revokeDeviceSessions (userId now : ℕ) (db : Db) (users : Table User.id) :
    Marked db (revokeDeviceSessions userId now { db with users := users }) := by
  intro x' hx'
  obtain ⟨x, hx, rfl⟩ := List.mem_map.mp hx'
  refine ⟨x, hx, ?_⟩
  unfold revokeDeviceSession
  split_ifs
  · exact Or.inr ⟨now, rfl⟩
  · exact Or.inl rfl

/-- Sessions of a user after `revoke_device_sessions`. -/
theorem revokeDeviceSessions_revoked {userId now : ℕ} {db : Db} {d : DeviceSession}
    (hd : d ∈ (revokeDeviceSessions userId now db).sessions.rows) (hu : d.userId = userId) :
    d.revokedAt ≠ none := by
  obtain ⟨x, -, rfl⟩ := List.mem_map.mp hd
  exact revokeDeviceSession_revoked (by simpa using hu)

/-- The effect of a request that does not bypass the revocation.

* `quiet`: accounts and sessions are as before;
* `issue`: a live account gets a token pair; a session is an old one, or it is one of that account
  and stores the new refresh token's digest;
* `revoke`: some sessions are revoked;
* `account`: one account is changed, its version not decreased; if it stops being live, its version
  is increased and none of its sessions is left unrevoked. -/
inductive Effect (P : Primitives) (db : Db) : Db → Answer → Prop
  | quiet {db' : Db} {ans : Answer} (hu : db'.users = db.users) (hs : db'.sessions = db.sessions)
      (hans : ∀ a r, ans ≠ .tokens a r) : Effect P db db' ans
  | issue {db' : Db} {u : User} {d : DeviceSession} {r : RefreshToken} {t : ℕ}
      (hu : db'.users = db.users) (hmem : u ∈ db.users.rows) (hlive : u.live = true)
      (hrows : ∀ x' ∈ db'.sessions.rows, x' ∈ db.sessions.rows ∨
        (x'.userId = u.id ∧ x'.refreshTokenHash = P.refreshHash r)) :
      Effect P db db' (.tokens (issueNativeAccess u d t) r)
  | revoke {db' : Db} {ans : Answer} (hu : db'.users = db.users) (hrows : Marked db db')
      (hans : ∀ a r, ans ≠ .tokens a r) : Effect P db db' ans
  | account {db' : Db} {u u' : User} {ans : Answer} (hmem : u ∈ db.users.rows)
      (hput : db'.users = db.users.put u') (hid : u'.id = u.id) (hrows : Marked db db')
      (hver : u.tokenVersion ≤ u'.tokenVersion)
      (hkill : u.live = true → u'.live = false → u.tokenVersion < u'.tokenVersion ∧
        ∀ d ∈ db'.sessions.rows, d.userId = u.id → d.revokedAt ≠ none)
      (hans : ∀ a r, ans ≠ .tokens a r) : Effect P db db' ans

/-- The throttle table has no part in an effect. -/
theorem Effect.of_throttles {db db' : Db} {ans : Answer} {throttles : Throttles}
    (h : Effect P { db with throttles := throttles } db' ans) : Effect P db db' ans := by
  cases h with
  | quiet hu hs hans => exact .quiet hu hs hans
  | issue hu hmem hlive hrows => exact .issue hu hmem hlive hrows
  | revoke hu hrows hans => exact .revoke hu hrows hans
  | account hmem hput hid hrows hver hkill hans =>
    exact .account hmem hput hid hrows hver hkill hans

theorem loginFinal_effect {body : NativeLoginBody} {sourceIp : String} {i : LoginInputs}
    {u : User} {db : Db} (hmem : u ∈ db.users.rows) (hlive : u.live = true) :
    Effect P db (loginFinal P body sourceIp i u db).1 (loginFinal P body sourceIp i u db).2 := by
  rcases loginFinal_spec P body sourceIp i u db with h | ⟨d, huser, hhash, hans, husers, -, hrows⟩
  · rw [h]
    exact .quiet rfl rfl (by simp)
  · rw [hans]
    refine .issue husers hmem hlive fun x hx => ?_
    rcases hrows x hx with rfl | ⟨hold, -⟩
    · exact Or.inr ⟨huser, hhash⟩
    · exact Or.inl hold

theorem nativeLogin_effect (body : NativeLoginBody) (sourceIp : String) (i : LoginInputs)
    (db : Db) :
    Effect P db (nativeLogin P body sourceIp i db).1 (nativeLogin P body sourceIp i db).2 := by
  unfold nativeLogin
  simp only
  split_ifs with hblock
  · exact .quiet rfl rfl (by simp)
  split
  · next u hu _ =>
    split
    · next u' hu' =>
      obtain ⟨hget, hre⟩ := Option.filter_eq_some_iff.mp hu'
      have hlive : u'.live = true := by
        simp only [recheck, Bool.and_eq_true] at hre
        exact hre.1.1
      exact Effect.of_throttles (loginFinal_effect (Table.get?_eq_some.mp hget).1 hlive)
    · exact .quiet rfl rfl (by simp)
  · exact .quiet rfl rfl (by simp)

theorem refreshReplayed_effect {item : DeviceSession} {now : ℕ} {db : Db}
    (hi : item ∈ db.sessions.rows) :
    Effect P db (refreshReplayed item now db).1 (refreshReplayed item now db).2 := by
  unfold refreshReplayed
  split_ifs
  · exact .revoke rfl (Marked.put hi rfl) (by simp)
  · exact .quiet rfl rfl (by simp)

theorem nativeRefresh_effect (token : RefreshToken) (now accessTime : ℕ) (secret : String)
    (db : Db) :
    Effect P db (nativeRefresh P token now accessTime secret db).1
      (nativeRefresh P token now accessTime secret db).2 := by
  unfold nativeRefresh
  split
  · exact .quiet rfl rfl (by simp)
  next item hitem =>
  obtain ⟨hmem, -⟩ := Table.get?_eq_some.mp hitem
  split
  · exact refreshReplayed_effect hmem
  · next user hverdict huser =>
    obtain ⟨-, -, u, hu, hlive⟩ := refreshVerdict_rotate P hverdict
    obtain rfl : user = u := by simpa [huser] using hu
    obtain ⟨huserMem, huserId⟩ := Table.get?_eq_some.mp huser
    simp only
    split_ifs with hcount
    · refine .issue rfl huserMem hlive fun x' hx' => ?_
      obtain ⟨x, hx, rfl⟩ := List.mem_map.mp hx'
      unfold rotateRow
      split_ifs with hm
      · -- the row the conditional UPDATE finds is the row read
        have hxi : x = item := Table.eq_of_key hx hmem ((rotateMatches_iff P).mp hm).1
        right
        subst hxi
        exact ⟨huserId.symm, rfl⟩
      · exact Or.inl hx
    · exact refreshReplayed_effect hmem
  · exact .quiet rfl rfl (by simp)

theorem nativeLogout_effect (payload : NativeAccess) (now : ℕ) (db : Db) :
    Effect P db (nativeLogout payload now db).1 (nativeLogout payload now db).2 := by
  unfold nativeLogout
  split
  · exact .quiet rfl rfl (by simp)
  · next user item h =>
    have hget := (nativeAccessIdentity_eq_some h).1
    exact .revoke rfl (Marked.put (Table.get?_eq_some.mp hget).1 rfl) (by simp)

theorem memberUser_get {db : Db} {userId : ℕ} {target : User}
    (h : memberUser (db.users.get? userId) = some target) :
    target ∈ db.users.rows ∧ target.id = userId :=
  Table.get?_eq_some.mp (memberUser_eq_some h).1

theorem disableTarget_get {db : Db} {userId : ℕ} {target : User}
    (h : disableTarget (db.users.get? userId) = some target) :
    target ∈ db.users.rows ∧ target.id = userId :=
  Table.get?_eq_some.mp (disableTarget_eq_some h).1

/-- **What a request can do**, unless it bypasses the revocation. -/
theorem handle_effect {db : Db} {req : Request} (hC : ¬ Bypasses db req) :
    Effect P db (handle P req db).1 (handle P req db).2 := by
  cases req with
  | nativeLogin body sourceIp i => exact nativeLogin_effect body sourceIp i db
  | nativeRefresh token now accessTime secret =>
    exact nativeRefresh_effect token now accessTime secret db
  | nativeLogout payload now => exact nativeLogout_effect payload now db
  | changeUserPassword userId newHash now =>
    simp only [handle, changePassword]
    split
    · exact .quiet rfl rfl (by simp)
    · next target ht =>
      refine .account (memberUser_get ht).1 rfl rfl (Marked.revokeDeviceSessions _ _ _ _)
        (Nat.le_succ _) ?_ (by simp)
      exact fun _ _ => ⟨Nat.lt_succ_self _, fun d hd hu => revokeDeviceSessions_revoked hd hu⟩
  | setUserEnabled userId enabled now =>
    simp only [handle, setEnabled]
    split
    · exact .quiet rfl rfl (by simp)
    · next target ht =>
      by_cases hdis : disables target enabled = true
      · simp only [hdis, if_true]
        refine .account (memberUser_get ht).1 rfl rfl
          (Marked.revokeDeviceSessions _ _ _ _) (by simp [setUserEnabled, hdis]) ?_ (by simp)
        exact fun _ _ => ⟨by simp [setUserEnabled, hdis],
          fun d hd hu => revokeDeviceSessions_revoked hd hu⟩
      · simp only [hdis, Bool.false_eq_true, if_false]
        refine .account (memberUser_get ht).1 rfl rfl
          (Marked.of_eq rfl) (by simp [setUserEnabled, hdis]) ?_ (by simp)
        -- a live account that is not disabled stays live
        intro hl hl'
        simp only [User.live, setUserEnabled, disables, Bool.and_eq_true, Bool.and_eq_false_imp,
          Bool.not_eq_true'] at hl hl' hdis
        simp_all
  | disableUser userId =>
    simp only [handle, disable]
    split
    · exact .quiet rfl rfl (by simp)
    · next target ht =>
      refine .account (disableTarget_get ht).1 rfl (rfl : (disableUser target).id = target.id)
        (Marked.of_eq rfl) (Nat.le_succ _) ?_ (by simp)
      refine fun _ _ => ⟨Nat.lt_succ_self _, fun d hd hu hn => hC ⟨target, ht, d, hd, hu, hn⟩⟩
  | deleteUser userId suffix now =>
    simp only [handle, delete]
    split
    · exact .quiet rfl rfl (by simp)
    · next target ht =>
      refine .account (memberUser_get ht).1 rfl rfl (Marked.revokeDeviceSessions _ _ _ _)
        (Nat.le_succ _) ?_ (by simp)
      exact fun _ _ => ⟨Nat.lt_succ_self _, fun d hd hu => revokeDeviceSessions_revoked hd hu⟩

/-- What is handed out by a step: a token pair with a fresh digest, or nothing. -/
inductive HandsOut (P : Primitives) (s s' : Ctl) : Answer → Prop
  | tokens {a : NativeAccess} {r : RefreshToken} (hfresh : P.refreshHash r ∉ s.digests P)
      (ha : s'.access = a :: s.access) (hr : s'.refresh = r :: s.refresh) :
      HandsOut P s s' (.tokens a r)
  | nothing {ans : Answer} (ha : s'.access = s.access) (hr : s'.refresh = s.refresh)
      (hans : ∀ a r, ans ≠ .tokens a r) : HandsOut P s s' ans

theorem step_effect {s s' : Ctl} {req : Request} (hC : ¬ Bypasses s.db req)
    (h : step P s req = some s') : ∃ ans, Effect P s.db s'.db ans ∧ HandsOut P s s' ans := by
  have heff := handle_effect (P := P) hC
  unfold step at h
  rcases hh : handle P req s.db with ⟨db, a | _ | _⟩ <;> rw [hh] at h heff
  · simp only at h
    split_ifs at h with hfresh
    obtain rfl := Option.some.inj h
    exact ⟨_, heff, .tokens hfresh rfl rfl⟩
  all_goals
    obtain rfl := Option.some.inj h
    exact ⟨_, heff, .nothing rfl rfl (by simp)⟩

/-! ## The invariant -/

/-- What every state of a run without bypasses keeps: sessions are revoked with their account, and
no issued access token is ahead of its account's version, nor at it while the account is not
live. -/
structure Inv (s : Ctl) : Prop where
  revoked : RevokedWithAccount s.db
  bound : ∀ a ∈ s.access, ∃ u ∈ s.db.users.rows, u.id = a.uid ∧ a.ver ≤ u.tokenVersion ∧
    (u.live = false → a.ver < u.tokenVersion)

theorem Inv.start (users : Table User.id) : Inv (Ctl.start users) :=
  ⟨fun _ _ _ d hd => by simp [Ctl.start, Table.empty] at hd, fun a ha => by simp [Ctl.start] at ha⟩

theorem Marked.revoked {db db' : Db} (h : Marked db db') {uid : ℕ}
    (hd : ∀ d ∈ db.sessions.rows, d.userId = uid → d.revokedAt ≠ none) :
    ∀ d ∈ db'.sessions.rows, d.userId = uid → d.revokedAt ≠ none := by
  intro d hmem hu
  obtain ⟨x, hx, rfl | ⟨now, rfl⟩⟩ := h d hmem
  · exact hd d hx hu
  · simp

theorem effect_revoked {db db' : Db} {ans : Answer} (he : Effect P db db' ans)
    (hI : RevokedWithAccount db) : RevokedWithAccount db' := by
  intro u hu hdead
  cases he with
  | quiet hus hs => rw [hs]; exact hI u (hus ▸ hu) hdead
  | @issue v _ r _ hus hmem hlive hrows =>
    rw [hus] at hu
    intro d hd hdu
    rcases hrows d hd with hold | ⟨hdv, -⟩
    · exact hI u hu hdead d hold hdu
    · -- the session issued belongs to a live account, so not to `u`
      obtain rfl : u = v := Table.eq_of_key hu hmem (hdu.symm.trans hdv)
      rw [hlive] at hdead; cases hdead
  | revoke hus hrows =>
    exact hrows.revoked (hI u (hus ▸ hu) hdead)
  | @account v v' _ hmem hput hid hrows hver hkill =>
    rw [hput] at hu
    rcases Table.mem_put hu with rfl | ⟨hu, -⟩
    · by_cases hl : v.live = true
      · rw [hid]; exact (hkill hl hdead).2
      · rw [hid]
        exact hrows.revoked (hI v hmem (by simpa using hl))
    · exact hrows.revoked (hI u hu hdead)

/-- Accounts persist, their versions never decrease, and an account that stops being live has its
version increased. -/
theorem effect_account {db db' : Db} {ans : Answer} (he : Effect P db db' ans) {u : User}
    (hu : u ∈ db.users.rows) : ∃ u' ∈ db'.users.rows, u'.id = u.id ∧
      u.tokenVersion ≤ u'.tokenVersion ∧
      (u.live = true → u'.live = false → u.tokenVersion < u'.tokenVersion) := by
  have hsame : db'.users = db.users → ∃ u' ∈ db'.users.rows, u'.id = u.id ∧
      u.tokenVersion ≤ u'.tokenVersion ∧
      (u.live = true → u'.live = false → u.tokenVersion < u'.tokenVersion) := fun h =>
    ⟨u, h ▸ hu, rfl, le_rfl, fun h1 h2 => by rw [h1] at h2; cases h2⟩
  cases he with
  | quiet hus => exact hsame hus
  | issue hus => exact hsame hus
  | revoke hus => exact hsame hus
  | @account v v' _ hmem hput hid hrows hver hkill =>
    by_cases hk : u.id = v.id
    · obtain rfl : u = v := Table.eq_of_key hu hmem hk
      have hget : (db.users.put v').get? v'.id = some v' :=
        Table.get?_put_self (Table.get?_eq_some.mpr ⟨hu, hid.symm⟩)
      exact ⟨v', hput ▸ (Table.get?_eq_some.mp hget).1, hid, hver, fun h1 h2 => (hkill h1 h2).1⟩
    · have hget : (db.users.put v').get? u.id = some u := by
        rw [Table.get?_put_of_ne (by rw [hid]; exact hk)]
        exact Table.get?_eq_some.mpr ⟨hu, rfl⟩
      refine ⟨u, hput ▸ (Table.get?_eq_some.mp hget).1, rfl, le_rfl, fun h1 h2 => ?_⟩
      rw [h1] at h2; cases h2

theorem Inv.step {s s' : Ctl} {req : Request} (hI : Inv s) (hC : ¬ Bypasses s.db req)
    (h : step P s req = some s') : Inv s' := by
  obtain ⟨ans, he, hout⟩ := step_effect hC h
  refine ⟨effect_revoked he hI.revoked, fun a ha => ?_⟩
  have hold : a ∈ s.access → ∃ u ∈ s'.db.users.rows, u.id = a.uid ∧ a.ver ≤ u.tokenVersion ∧
      (u.live = false → a.ver < u.tokenVersion) := by
    intro ha
    obtain ⟨u, hu, hid, hle, hlt⟩ := hI.bound a ha
    obtain ⟨u', hu', hid', hver, hkill⟩ := effect_account he hu
    refine ⟨u', hu', hid'.trans hid, by omega, fun hdead => ?_⟩
    by_cases hl : u.live = true
    · have := hkill hl hdead; omega
    · have := hlt (by simpa using hl); omega
  cases hout with
  | nothing hacc => exact hold (hacc ▸ ha)
  | tokens _ hacc =>
    rw [hacc] at ha
    rcases List.mem_cons.mp ha with rfl | ha
    · -- the token just issued carries the version of its live account
      cases he with
      | issue hus hmem hlive =>
        exact ⟨_, hus ▸ hmem, rfl, le_rfl, fun h => by rw [hlive] at h; cases h⟩
      | quiet _ _ hans => exact absurd rfl (hans _ _)
      | revoke _ _ hans => exact absurd rfl (hans _ _)
      | account _ _ _ _ _ _ hans => exact absurd rfl (hans _ _)
    · exact hold ha

/-! ## Dead tokens -/

/-- Every token of the account in the list carries a version below the account's. -/
def DeadAccess (tokens : List NativeAccess) (uid : ℕ) (s : Ctl) : Prop :=
  ∃ u ∈ s.db.users.rows, u.id = uid ∧ ∀ a ∈ tokens, a.uid = uid → a.ver < u.tokenVersion

/-- The session of the token is revoked or stores the digest of a later token. -/
def DeadRefresh (P : Primitives) (r : RefreshToken) (s : Ctl) : Prop :=
  P.refreshHash r ∈ s.digests P ∧ ∀ d ∈ s.db.sessions.rows, d.id = r.sessionId →
    d.revokedAt ≠ none ∨ d.refreshTokenHash ≠ P.refreshHash r

theorem DeadAccess.step {tokens : List NativeAccess} {uid : ℕ} {s s' : Ctl} {req : Request}
    (hD : DeadAccess tokens uid s) (hC : ¬ Bypasses s.db req) (h : step P s req = some s') :
    DeadAccess tokens uid s' := by
  obtain ⟨ans, he, -⟩ := step_effect hC h
  obtain ⟨u, hu, hid, hlt⟩ := hD
  obtain ⟨u', hu', hid', hver, -⟩ := effect_account he hu
  exact ⟨u', hu', hid'.trans hid, fun a ha hau => lt_of_lt_of_le (hlt a ha hau) hver⟩

theorem digests_step {s s' : Ctl} {ans : Answer} {x : String} (hout : HandsOut P s s' ans)
    (hx : x ∈ s.digests P) : x ∈ s'.digests P := by
  cases hout with
  | nothing _ hr => rw [Ctl.digests, hr]; exact hx
  | tokens _ _ hr => rw [Ctl.digests, hr]; exact List.mem_cons_of_mem _ hx

theorem DeadRefresh.step {r : RefreshToken} {s s' : Ctl} {req : Request}
    (hD : DeadRefresh P r s) (hC : ¬ Bypasses s.db req) (h : step P s req = some s') :
    DeadRefresh P r s' := by
  obtain ⟨ans, he, hout⟩ := step_effect hC h
  refine ⟨digests_step hout hD.1, fun d hd hid => ?_⟩
  have hmarked : Marked s.db s'.db → d.revokedAt ≠ none ∨ d.refreshTokenHash ≠ P.refreshHash r := by
    intro hm
    obtain ⟨x, hx, rfl | ⟨now, rfl⟩⟩ := hm d hd
    · exact hD.2 d hx hid
    · exact Or.inl (by simp)
  cases he with
  | quiet _ hs => exact hmarked (Marked.of_eq hs)
  | revoke _ hrows => exact hmarked hrows
  | account _ _ _ hrows => exact hmarked hrows
  | issue _ _ _ hrows =>
    rcases hrows d hd with hold | ⟨-, hhash⟩
    · exact hD.2 d hold hid
    · -- the new token's digest is fresh, the dead token's is not
      right
      cases hout with
      | nothing _ _ hans => exact absurd rfl (hans _ _)
      | tokens hfresh => rw [hhash]; exact fun heq => hfresh (heq ▸ hD.1)

theorem Ctl.mem_digests {r : RefreshToken} {s : Ctl} (h : r ∈ s.refresh) :
    P.refreshHash r ∈ s.digests P := List.mem_map.mpr ⟨r, h, rfl⟩

/-- An access token whose account has moved past its version is not accepted. -/
theorem DeadAccess.rejected {tokens : List NativeAccess} {uid : ℕ} {s : Ctl}
    (hD : DeadAccess tokens uid s) {a : NativeAccess} (ha : a ∈ tokens) (hu : a.uid = uid)
    (now : ℕ) : nativeAccessIdentity s.db.sessions.get? s.db.users.get? a now = none := by
  rcases h : nativeAccessIdentity s.db.sessions.get? s.db.users.get? a now with _ | ⟨v, item⟩
  · rfl
  · exfalso
    obtain ⟨u, hmem, hid, hlt⟩ := hD
    obtain ⟨-, hget, -, -, -, -, hver⟩ := nativeAccessIdentity_eq_some h
    obtain ⟨hv, hvid⟩ := Table.get?_eq_some.mp hget
    obtain rfl : v = u := Table.eq_of_key hv hmem (hvid.trans (hu.trans hid.symm))
    have := hlt a ha hu
    omega

/-- A refresh token whose session is revoked or stores another digest is refused. -/
theorem DeadRefresh.refused {r : RefreshToken} {s : Ctl} (hD : DeadRefresh P r s)
    (now accessTime : ℕ) (secret : String) :
    (nativeRefresh P r now accessTime secret s.db).2 = .refused 401 := by
  unfold nativeRefresh
  rcases hget : s.db.sessions.get? r.sessionId with _ | item
  · rfl
  · obtain ⟨hmem, hid⟩ := Table.get?_eq_some.mp hget
    have hno : refreshVerdict P item (s.db.users.get? item.userId) r now ≠ .rotate := by
      intro hrot
      obtain ⟨hhash, hrev, -⟩ := refreshVerdict_rotate P hrot
      rcases hD.2 item hmem hid with h | h
      · exact h hrev
      · exact h hhash
    simp only
    split
    · unfold refreshReplayed
      split_ifs <;> rfl
    · next h _ => exact absurd h hno
    · rfl

/-! ## The kill -/

/-- What the transaction that disables, deletes or re-passwords an account leaves behind: the
account's version is past those of its tokens, its sessions are revoked. -/
structure Killed (s : Ctl) (uid : ℕ) (s' : Ctl) : Prop where
  access : DeadAccess s.access uid s'
  sessions : ∀ d ∈ s'.db.sessions.rows, d.userId = uid → d.revokedAt ≠ none
  refresh : s'.refresh = s.refresh
  marked : Marked s.db s'.db

/-- The tokens of an account are below any version past its present one, and below its present one
if it is not live. -/
theorem Inv.deadAccess {s s' : Ctl} (hI : Inv s) {target new : User}
    (hmem : target ∈ s.db.users.rows) (hnew : new ∈ s'.db.users.rows) (hid : new.id = target.id)
    (hlive : target.live = true → target.tokenVersion < new.tokenVersion)
    (hle : target.tokenVersion ≤ new.tokenVersion) : DeadAccess s.access target.id s' := by
  refine ⟨new, hnew, hid, fun a ha hau => ?_⟩
  obtain ⟨u, hu, huid, hbound, hdead⟩ := hI.bound a ha
  obtain rfl : u = target := Table.eq_of_key hu hmem (huid.trans hau)
  by_cases hl : u.live = true
  · have := hlive hl
    omega
  · have := hdead (Bool.eq_false_iff.mpr hl)
    omega

/-- A new version together with `revoke_device_sessions`. -/
theorem Inv.killed {s : Ctl} (hI : Inv s) {target new : User} (now : ℕ)
    (hmem : target ∈ s.db.users.rows) (hid : new.id = target.id)
    (hlt : target.tokenVersion < new.tokenVersion) :
    Killed s target.id { s with
      db := revokeDeviceSessions target.id now { s.db with users := s.db.users.put new } } where
  access := hI.deadAccess hmem (Table.mem_put_self hmem hid) hid (fun _ => hlt) hlt.le
  sessions := fun _ hd hu => revokeDeviceSessions_revoked hd hu
  refresh := rfl
  marked := Marked.revokeDeviceSessions _ _ _ _

theorem kills_spec {s s' : Ctl} {req : Request} {uid : ℕ} (hI : Inv s)
    (hC : ¬ Bypasses s.db req) (hk : Kills s.db uid req) (h : step P s req = some s') :
    Killed s uid s' := by
  cases req with
  | nativeLogin => exact hk.elim
  | nativeRefresh => exact hk.elim
  | nativeLogout => exact hk.elim
  | changeUserPassword userId newHash now =>
    obtain ⟨rfl, hsome⟩ := hk
    obtain ⟨target, ht⟩ := Option.isSome_iff_exists.mp hsome
    obtain ⟨hmem, rfl⟩ := memberUser_get ht
    simp only [step, handle, changePassword, ht, Option.some.injEq] at h
    subst h
    exact hI.killed now hmem rfl (Nat.lt_succ_self _)
  | setUserEnabled userId enabled now =>
    obtain ⟨rfl, rfl, hsome⟩ := hk
    obtain ⟨target, ht⟩ := Option.isSome_iff_exists.mp hsome
    obtain ⟨hmem, rfl⟩ := memberUser_get ht
    rcases hen : target.enabled with _ | _
    · -- already disabled: the sessions are revoked by the invariant
      have hlive : target.live = false := by simp [User.live, hen]
      simp only [step, handle, setEnabled, ht, disables, hen, Bool.false_and, Bool.false_eq_true,
        if_false, Option.some.injEq] at h
      subst h
      have hput := Table.mem_put_self hmem (rfl : (setUserEnabled target false).id = target.id)
      refine ⟨hI.deadAccess hmem hput rfl (fun hl => ?_) ?_, hI.revoked target hmem hlive, rfl,
        Marked.of_eq rfl⟩
      · rw [hlive] at hl
        exact Bool.noConfusion hl
      · simp [setUserEnabled, disables, hen]
    · simp only [step, handle, setEnabled, ht, disables, hen, Bool.true_and, Bool.not_false,
        if_true, Option.some.injEq] at h
      subst h
      exact hI.killed now hmem rfl (by simp [setUserEnabled, disables, hen])
  | disableUser userId =>
    obtain ⟨rfl, hsome⟩ := hk
    obtain ⟨target, ht⟩ := Option.isSome_iff_exists.mp hsome
    obtain ⟨hmem, rfl⟩ := disableTarget_get ht
    simp only [step, handle, disable, ht, Option.some.injEq] at h
    subst h
    have hput := Table.mem_put_self hmem (rfl : (disableUser target).id = target.id)
    refine ⟨hI.deadAccess hmem hput rfl (fun _ => Nat.lt_succ_self _) (Nat.le_succ _), ?_, rfl,
      Marked.of_eq rfl⟩
    exact fun d hd hu hn => hC ⟨target, ht, d, hd, hu, hn⟩
  | deleteUser userId suffix now =>
    obtain ⟨rfl, hsome⟩ := hk
    obtain ⟨target, ht⟩ := Option.isSome_iff_exists.mp hsome
    obtain ⟨hmem, rfl⟩ := memberUser_get ht
    simp only [step, handle, delete, ht, Option.some.injEq] at h
    subst h
    exact hI.killed now hmem rfl (Nat.lt_succ_self _)

/-- A bypassing `disable_user` leaves a disabled account with an unrevoked session. -/
theorem bypass_breaks {s s' : Ctl} {req : Request} (hB : Bypasses s.db req)
    (h : step P s req = some s') : ¬ RevokedWithAccount s'.db := by
  cases req with
  | disableUser userId =>
    obtain ⟨target, ht, d, hd, hu, hn⟩ := hB
    obtain ⟨hmem, -⟩ := disableTarget_get ht
    simp only [step, handle, disable, ht, Option.some.injEq] at h
    subst h
    intro hR
    have hid : (disableUser target).id = target.id := rfl
    have hput := Table.mem_put_self hmem hid
    exact hR _ hput rfl d hd hu hn
  | _ => exact hB.elim

/-! ## Runs -/

/-- In the run, no token issued before an account was disabled, deleted or had its password changed
is accepted afterwards. -/
def CredentialsStayDead (P : Primitives) (s0 : Ctl) (reqs : List Request) : Prop :=
  ∀ as kill bs, as ++ kill :: bs <+: reqs → ∀ s1 s2 s3 uid, run (step P) s0 as = some s1 →
    Kills s1.db uid kill → step P s1 kill = some s2 → run (step P) s2 bs = some s3 →
      (∀ a ∈ s1.access, a.uid = uid → ∀ now,
        nativeAccessIdentity s3.db.sessions.get? s3.db.users.get? a now = none) ∧
      ∀ r ∈ s1.refresh, (∃ d ∈ s1.db.sessions.rows, d.id = r.sessionId ∧ d.userId = uid) →
        ∀ now accessTime secret, (nativeRefresh P r now accessTime secret s3.db).2 = .refused 401

theorem credentialsStayDead {s0 : Ctl} {reqs : List Request} (hI : Inv s0)
    (hC : Along (step P) (fun s req => ¬ Bypasses s.db req) s0 reqs) :
    CredentialsStayDead P s0 reqs := by
  rintro as kill bs ⟨cs, rfl⟩ s1 s2 s3 uid h1 hk h2 h3
  rw [List.append_assoc, List.cons_append, along_append] at hC
  obtain ⟨hCas, hCrest⟩ := hC
  obtain ⟨hCk, hCbs⟩ := hCrest s1 h1
  have hCbs := ((along_append bs cs s2).mp (hCbs s2 h2)).1
  have hI1 : Inv s1 := run_inv_along (fun _ _ _ hI hc h => hI.step hc h) as s0 s1 hI hCas h1
  obtain ⟨hdead, hrev, hrefresh, hmarked⟩ := kills_spec hI1 hCk hk h2
  refine ⟨fun a ha hu now => ?_, fun r hr hown now accessTime secret => ?_⟩
  · have hD := run_inv_along (C := fun s req => ¬ Bypasses s.db req)
      (fun _ _ _ hD hc h => DeadAccess.step hD hc h) bs s2 s3 hdead hCbs h3
    exact hD.rejected ha hu now
  · have hD2 : DeadRefresh P r s2 := by
      refine ⟨by rw [Ctl.digests, hrefresh]; exact Ctl.mem_digests hr, fun d hd hid => Or.inl ?_⟩
      -- the session of the token in the new state is its session in the old one
      obtain ⟨x, hx, hxid, hxu⟩ := hown
      obtain ⟨y, hy, rfl | ⟨now', rfl⟩⟩ := hmarked d hd
      · obtain rfl := Table.eq_of_key hx hy (hxid.trans hid.symm)
        exact hrev x hd hxu
      · simp
    have hD := run_inv_along (C := fun s req => ¬ Bypasses s.db req)
      (fun _ _ _ hD hc h => DeadRefresh.step hD hc h) bs s2 s3 hD2 hCbs h3
    exact hD.refused now accessTime secret

/-- **Revocation, exactly**: a run of the control plane keeps the sessions of disabled and deleted
accounts revoked in every state, and accepts no token issued before its account was disabled,
deleted or re-passworded, if and only if no `disable_user` of the run hits an account with an
unrevoked session. -/
theorem account_revocation_iff (P : Primitives) (users : Table User.id) {reqs : List Request}
    {s : Ctl} (hr : run (step P) (Ctl.start users) reqs = some s) :
    (Visits (step P) (fun s => RevokedWithAccount s.db) (Ctl.start users) reqs ∧
        CredentialsStayDead P (Ctl.start users) reqs) ↔
      Along (step P) (fun s req => ¬ Bypasses s.db req) (Ctl.start users) reqs := by
  have hiff := along_iff_visits (C := fun s req => ¬ Bypasses s.db req)
    (I := Inv) (R := fun s => RevokedWithAccount s.db) (fun _ hI => hI.revoked)
    (fun _ _ _ hI hc h => hI.step hc h) (fun _ _ _ _ hc h => bypass_breaks (not_not.mp hc) h)
    reqs (Ctl.start users) s (Inv.start users) hr
  exact ⟨fun h => hiff.mpr h.1, fun hC => ⟨hiff.mp hC, credentialsStayDead (Inv.start users) hC⟩⟩

/-! ## A concrete run -/

def sampleUsers : Table User.id := ⟨[sampleUser], by decide⟩

def sampleLogin : Request :=
  .nativeLogin sampleBody "203.0.113.7"
    ⟨seconds 100, seconds 101, seconds 101, seconds 101, "session-1", "secret-1"⟩

/-- Signing in and disabling over the PUT route: no bypass, so the equivalence applies. -/
theorem account_revocation_iff_put :
    Visits (step .sample) (fun s => RevokedWithAccount s.db) (Ctl.start sampleUsers)
        [sampleLogin, .setUserEnabled 2 false (seconds 200)] ∧
      CredentialsStayDead .sample (Ctl.start sampleUsers)
        [sampleLogin, .setUserEnabled 2 false (seconds 200)] :=
  (account_revocation_iff .sample sampleUsers rfl).mpr ⟨id, fun _ _ => ⟨id, fun _ _ => trivial⟩⟩

/-- Signing in, disabling over the POST route, enabling again: the session of the disabled account
is unrevoked, and the refresh token issued before the disabling is exchanged after it. -/
theorem disable_user_bypasses_revocation :
    ¬ Visits (step .sample) (fun s => RevokedWithAccount s.db) (Ctl.start sampleUsers)
        [sampleLogin, .disableUser 2] ∧
      ¬ CredentialsStayDead .sample (Ctl.start sampleUsers)
        [sampleLogin, .disableUser 2, .setUserEnabled 2 true (seconds 300)] := by
  constructor
  · intro h
    have hlast := h.last (t := (run (step .sample) (Ctl.start sampleUsers)
      [sampleLogin, .disableUser 2]).get (by decide)) (Option.some_get _).symm
    exact hlast _ (List.mem_singleton.mpr rfl) rfl _ (List.mem_singleton.mpr rfl) rfl rfl
  · intro h
    have := (h [sampleLogin] (.disableUser 2) [.setUserEnabled 2 true (seconds 300)]
      (List.prefix_refl _) _ _ _ 2 rfl ⟨rfl, rfl⟩ rfl rfl).2 ⟨"session-1", "secret-1"⟩
      (List.mem_singleton.mpr rfl) ⟨_, List.mem_singleton.mpr rfl, rfl, rfl⟩
      (seconds 400) (seconds 400) "secret-2"
    revert this
    decide

end IdenGrid.Control.Revocation
