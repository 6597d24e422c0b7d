import IdenGrid.Lib.Run
import IdenGrid.Control.Browsers

/-! # Cloud browsers end with the account

A viewer cookie is checked against its session alone, so a session has to end with its account.
`disable_user` and `delete_user` see to that; `set_user_enabled` does not, and `start_session` does
not look at the account again when `runner.start` has returned. `ended_iff`: these are the two
places where it goes wrong, and the only ones. -/

namespace IdenGrid.Control.BrowserAccess

open IdenGrid.Lib.Run IdenGrid.Lib.Store IdenGrid.Lib.Orm
open IdenGrid.Control.Rows IdenGrid.Control.Sessions IdenGrid.Control.Accounts
open IdenGrid.Control.Browsers
open IdenGrid.Control.Serial hiding step

/-- No session of a disabled or deleted account is starting or running, and no viewer of it is
authorized. -/
def EndsWithAccount (s : Cloud) : Prop :=
  ∀ b ∈ s.browsers.rows, ∀ u ∈ s.ctl.db.users.rows, u.id = b.userId → u.live = false →
    b.active = false ∧ ∀ ticket now, authorizeViewer b.id ticket now s.browsers = none

/-- The account is not disabled and not deleted. -/
def LiveUser (users : Table User.id) (userId : ℕ) : Prop :=
  ∀ u ∈ users.rows, u.id = userId → u.live = true

/-- A disabling over the PUT route finds no session of the account starting or running, and a
`runner.start` that succeeds finds the account live. -/
def Careful (s : Cloud) : Move → Prop
  | .account (.setUserEnabled userId false _) =>
    ∀ target, memberUser (s.ctl.db.users.get? userId) = some target →
      ∀ b ∈ s.browsers.rows, b.userId = target.id → b.active = false
  | .started item (some result) _ =>
    result.status = .running → LiveUser s.ctl.db.users item.userId
  | _ => True

/-! ## What a request does to the sessions -/

/-- The sessions that are starting or running have live accounts. -/
def Lives (users : Table User.id) (t : BrowserTable) : Prop :=
  ∀ b ∈ t.rows, b.active = true → LiveUser users b.userId

/-- No session is lost or changes hands, and only sessions of live accounts are started. -/
structure Follows (users : Table User.id) (t t' : BrowserTable) : Prop where
  active : ∀ b' ∈ t'.rows, b'.active = true →
    (∃ b ∈ t.rows, b.userId = b'.userId ∧ b.active = true) ∨ LiveUser users b'.userId
  kept : ∀ b ∈ t.rows, ∃ b' ∈ t'.rows, b'.id = b.id ∧ b'.userId = b.userId

variable {users : Table User.id} {t t' t'' : BrowserTable} {b b' : BrowserSession}

theorem Follows.refl : Follows users t t :=
  ⟨fun b' hb' hact => Or.inl ⟨b', hb', rfl, hact⟩, fun b hb => ⟨b, hb, rfl, rfl⟩⟩

theorem Follows.trans (h : Follows users t t') (h' : Follows users t' t'') :
    Follows users t t'' := by
  refine ⟨fun b'' hb'' hact => ?_, fun b hb => ?_⟩
  · rcases h'.active b'' hb'' hact with ⟨b', hb', huser, hact'⟩ | hlive
    · rcases h.active b' hb' hact' with ⟨b, hb, huser', hact⟩ | hlive
      · exact Or.inl ⟨b, hb, huser'.trans huser, hact⟩
      · exact Or.inr (huser ▸ hlive)
    · exact Or.inr hlive
  · obtain ⟨b', hb', hid, huser⟩ := h.kept b hb
    obtain ⟨b'', hb'', hid', huser'⟩ := h'.kept b' hb'
    exact ⟨b'', hb'', hid'.trans hid, huser'.trans huser⟩

theorem Follows.lives (h : Follows users t t') (hL : Lives users t) : Lives users t' := by
  intro b' hb' hact
  rcases h.active b' hb' hact with ⟨b, hb, huser, hact'⟩ | hlive
  · exact huser ▸ hL b hb hact'
  · exact hlive

theorem follows_mapRows {f : BrowserSession → BrowserSession} {hf : ∀ b, (f b).id = b.id}
    (huser : ∀ b ∈ t.rows, (f b).userId = b.userId)
    (hact : ∀ b ∈ t.rows, (f b).active = true → b.active = true ∨ LiveUser users b.userId) :
    Follows users t (t.mapRows f hf) := by
  constructor
  · intro b' hb' hb'act
    obtain ⟨b, hb, rfl⟩ := Table.mem_mapRows.mp hb'
    rw [huser b hb]
    exact (hact b hb hb'act).imp_left fun h => ⟨b, hb, rfl, h⟩
  · intro b hb
    exact ⟨f b, Table.mem_mapRows.mpr ⟨b, hb, rfl⟩, hf b, huser b hb⟩

theorem follows_put (hb : b ∈ t.rows) (hid : b'.id = b.id) (huser : b'.userId = b.userId)
    (hact : b'.active = true → b.active = true ∨ LiveUser users b.userId) :
    Follows users t (t.put b') := by
  refine follows_mapRows (fun x hx => ?_) fun x hx h => ?_
  · split_ifs with hk
    · rw [Table.eq_of_key hx hb (hk.trans hid), huser]
    · rfl
  · split_ifs at h with hk
    · rw [Table.eq_of_key hx hb (hk.trans hid)]
      exact hact h
    · exact Or.inl h

theorem follows_insert (hfresh : ∀ x ∈ t.rows, x.id ≠ b.id) (hlive : LiveUser users b.userId) :
    Follows users t (t.insert b hfresh) := by
  constructor
  · intro b' hb' hact
    rcases List.mem_append.mp hb' with hb' | hb'
    · exact Or.inl ⟨b', hb', rfl, hact⟩
    · obtain rfl := List.mem_singleton.mp hb'
      exact Or.inr hlive
  · exact fun b hb => ⟨b, List.mem_append_left _ hb, rfl, rfl⟩

/-- A session that is stopped. -/
theorem follows_stop (hb : b ∈ t.rows) (hid : b'.id = b.id) (huser : b'.userId = b.userId)
    (hstop : b'.status = .stopped) : Follows users t (t.put b') :=
  follows_put hb hid huser fun h => by simp [BrowserSession.active, hstop] at h

theorem ownedSession_eq_some {user : User} {id : String} {item : BrowserSession}
    (h : ownedSession user id t = some item) : item ∈ t.rows ∧ item.userId = user.id := by
  obtain ⟨hmem, hp⟩ := Table.first_mem h
  exact ⟨hmem, (of_decide_eq_true hp).2⟩

theorem follows_startSession {user : User} {runnerStatus : SessionStatus} {id : String} {now : ℕ}
    (hlive : LiveUser users user.id) :
    Follows users t (startSession user runnerStatus id now t).1 := by
  have hseen : Follows users t ((t.first fun b => b.userId = user.id ∧ b.active = true).elim t
      fun b => t.put { b with status := runnerStatus }) := by
    cases hactive : t.first fun b => b.userId = user.id ∧ b.active = true with
    | none => exact .refl
    | some item =>
      obtain ⟨hitem, hp⟩ := Table.first_mem hactive
      exact follows_put hitem rfl rfl fun _ => Or.inl (of_decide_eq_true hp).2
  simp only [startSession]
  split_ifs with hrunning hfresh
  · exact hseen
  · exact hseen.trans (follows_insert hfresh hlive)
  · exact hseen

/-- The session that waits for `runner.start` is in the table. -/
theorem startSession_started {user : User} {runnerStatus : SessionStatus} {id : String} {now : ℕ}
    {item : BrowserSession}
    (h : (startSession user runnerStatus id now t).2 = some item) :
    item ∈ (startSession user runnerStatus id now t).1.rows ∧ item.status = .starting := by
  simp only [startSession] at h ⊢
  split_ifs at h ⊢ with hrunning hfresh
  obtain rfl := Option.some.inj h
  exact ⟨List.mem_append_right _ (List.mem_singleton.mpr rfl), rfl⟩

theorem follows_finishStart {item : BrowserSession} {result : Option RunnerSession} {now : ℕ}
    (huser : ∀ b ∈ t.rows, b.id = item.id → b.userId = item.userId)
    (hcareful : ∀ r, result = some r → r.status = .running → LiveUser users item.userId)
    (hstarting : item.status = .starting) :
    Follows users t (finishStart item result now t) := by
  refine follows_mapRows (fun b hb => ?_) fun b hb hact => ?_
  · split_ifs <;> rfl
  · split_ifs at hact with hid
    · cases result with
      | none =>
        refine Or.inl ?_
        simp [BrowserSession.active, BrowserSession.flush, startedSession, hstarting, col] at hact
      | some r =>
        by_cases hrunning : r.status = .running
        · exact Or.inr (huser b hb hid ▸ hcareful r rfl hrunning)
        · refine Or.inl ?_
          simp only [BrowserSession.active, BrowserSession.flush, startedSession, hstarting, col]
            at hact ⊢
          split_ifs at hact with hsame
          · exact hact
          · simp [hrunning, hsame] at hact
    · exact Or.inl hact

theorem follows_stopSession {user : User} {id : String} {now : ℕ} :
    Follows users t (stopSession user id now t) := by
  simp only [stopSession]
  cases howned : ownedSession user id t with
  | none => exact .refl
  | some item => exact follows_stop (ownedSession_eq_some howned).1 rfl rfl rfl

theorem follows_getSession {user : User} {id : String} {runnerStatus : SessionStatus} :
    Follows users t (getSession user id runnerStatus t) := by
  simp only [getSession]
  cases howned : ownedSession user id t with
  | none => exact .refl
  | some item =>
    dsimp only
    split_ifs with hrunning
    · refine follows_put (ownedSession_eq_some howned).1 rfl rfl fun _ => Or.inl ?_
      simp [BrowserSession.active, hrunning]
    · exact .refl

theorem follows_adminSessions {runnerStatus : String → SessionStatus} :
    Follows users t (adminSessions runnerStatus t) := by
  refine follows_mapRows (fun b _ => ?_) fun b _ hact => ?_
  · split_ifs <;> rfl
  · split_ifs at hact with h <;> exact Or.inl (by assumption)

theorem follows_forceStop {id : String} : Follows users t (forceStop id t) := by
  simp only [forceStop]
  cases hget : t.get? id with
  | none => exact .refl
  | some item => exact follows_stop (Table.get?_eq_some.mp hget).1 rfl rfl rfl

section EndSessions

variable {userId : ℕ} {f : BrowserSession → BrowserSession} {hf : ∀ b, (f b).id = b.id}

theorem follows_endSessions (huser : ∀ b, (f b).userId = b.userId) :
    Follows users t (endSessions userId f hf t) := by
  refine follows_mapRows (fun b _ => ?_) fun b _ hact => ?_
  · split_ifs
    · exact huser b
    · rfl
  · split_ifs at hact with h
    · exact Or.inl h.2
    · exact Or.inl hact

/-- **No session of the account is left.** -/
theorem endSessions_inactive (hstop : ∀ b, (f b).active = false)
    (hb : b ∈ (endSessions userId f hf t).rows) (hmine : b.userId = userId) : b.active = false := by
  obtain ⟨x, -, rfl⟩ := Table.mem_mapRows.mp hb
  split_ifs at hmine ⊢ with h
  · exact hstop x
  · exact Bool.eq_false_iff.mpr fun hact => h ⟨hmine, hact⟩

end EndSessions

/-! ## What a request does to the accounts -/

/-- An account is written back: sessions of the others keep their accounts. -/
theorem lives_put {u : User} (hL : Lives users t)
    (hmine : u.live = true ∨ ∀ b ∈ t.rows, b.userId = u.id → b.active = false) :
    Lives (users.put u) t := by
  intro b hb hact x hx hid
  rcases Table.mem_put hx with rfl | ⟨hx, -⟩
  · rcases hmine with hlive | hnone
    · exact hlive
    · exact absurd hact (by rw [hnone b hb hid.symm]; exact Bool.false_ne_true)
  · exact hL b hb hact x hx hid

theorem Lives.inactive (hL : Lives users t) {u : User} (hu : u ∈ users.rows)
    (hdead : u.live = false) : ∀ b ∈ t.rows, b.userId = u.id → b.active = false := by
  intro b hb huser
  refine Bool.eq_false_iff.mpr fun hact => ?_
  have hlive := hL b hb hact u hu huser.symm
  exact Bool.false_ne_true (hdead.symm.trans hlive)

/-- Logins and refreshes leave the accounts alone. -/
theorem loginFinal_users (P : Primitives) (body : NativeLoginBody) (sourceIp : String)
    (i : LoginInputs) (user : User) (db : Db) :
    (loginFinal P body sourceIp i user db).1.users = db.users := by
  rcases loginFinal_spec P body sourceIp i user db with h | ⟨d, -, -, -, husers, -⟩
  · rw [h]
  · exact husers

theorem nativeLogin_users (P : Primitives) (body : NativeLoginBody) (sourceIp : String)
    (i : LoginInputs) (db : Db) : (nativeLogin P body sourceIp i db).1.users = db.users := by
  unfold nativeLogin
  simp only
  split_ifs
  · rfl
  · split
    · split
      · rw [loginFinal_users]
      · rfl
    · rfl

theorem refreshReplayed_users (item : DeviceSession) (now : ℕ) (db : Db) :
    (refreshReplayed item now db).1.users = db.users := by
  unfold refreshReplayed
  split_ifs <;> rfl

theorem nativeRefresh_users (P : Primitives) (token : RefreshToken) (now accessTime : ℕ)
    (secret : String) (db : Db) :
    (nativeRefresh P token now accessTime secret db).1.users = db.users := by
  unfold nativeRefresh
  split
  · rfl
  · split
    · exact refreshReplayed_users _ _ _
    · simp only
      split_ifs
      · rfl
      · exact refreshReplayed_users _ _ _
    · rfl

theorem nativeLogout_users (payload : NativeAccess) (now : ℕ) (db : Db) :
    (nativeLogout payload now db).1.users = db.users := by
  unfold nativeLogout
  split <;> rfl

variable {P : Primitives}

/-- The step of the accounts is their handler's. -/
theorem serial_step {s s' : Ctl} {req : Request} (h : Serial.step P s req = some s') :
    s'.db = (handle P req s.db).1 := by
  simp only [Serial.step] at h
  split at h
  · next db a r hhandle =>
    split_ifs at h
    obtain rfl := Option.some.inj h
    rw [hhandle]
  · next db ans _ hhandle =>
    obtain rfl := Option.some.inj h
    rw [hhandle]

theorem revoked_users (disabling : Bool) (userId now : ℕ) (db : Db) :
    (if disabling then revokeDeviceSessions userId now db else db).users = db.users := by
  split_ifs <;> rfl

/-- **A request of the account life cycle**: the sessions of an account that it disables or deletes
have ended. -/
theorem account_sessions {s : Cloud} {req : Request} (hL : Lives s.ctl.db.users s.browsers)
    (hC : Careful s (.account req)) :
    Lives (handle P req s.ctl.db).1.users (accountSessions s.ctl.db req s.browsers) ∧
      Follows s.ctl.db.users s.browsers (accountSessions s.ctl.db req s.browsers) := by
  cases req with
  | nativeLogin body sourceIp i =>
    rw [handle, nativeLogin_users]
    exact ⟨hL, .refl⟩
  | nativeRefresh token now accessTime secret =>
    rw [handle, nativeRefresh_users]
    exact ⟨hL, .refl⟩
  | nativeLogout payload now =>
    rw [handle, nativeLogout_users]
    exact ⟨hL, .refl⟩
  | changeUserPassword userId newHash now =>
    refine ⟨?_, .refl⟩
    simp only [handle, changePassword]
    cases hmember : memberUser (s.ctl.db.users.get? userId) with
    | none => exact hL
    | some target =>
      refine lives_put hL ?_
      obtain ⟨htarget, -⟩ := Table.get?_eq_some.mp (memberUser_eq_some hmember).1
      cases hlive : target.live with
      | true => exact Or.inl hlive
      | false => exact Or.inr fun b hb huser => hL.inactive htarget hlive b hb huser
  | setUserEnabled userId enabled now =>
    refine ⟨?_, .refl⟩
    simp only [handle, setEnabled]
    cases hmember : memberUser (s.ctl.db.users.get? userId) with
    | none => exact hL
    | some target =>
      rw [revoked_users]
      refine lives_put hL ?_
      cases enabled with
      | true =>
        refine Or.inl ?_
        simp [User.live, setUserEnabled, (memberUser_eq_some hmember).2.2]
      | false => exact Or.inr (hC target hmember)
  | disableUser userId =>
    simp only [handle, disable, accountSessions]
    cases hmember : disableTarget (s.ctl.db.users.get? userId) with
    | none => exact ⟨hL, .refl⟩
    | some target =>
      have hfollows : Follows s.ctl.db.users s.browsers
          (endSessions target.id disabledSession (fun _ => rfl) s.browsers) :=
        follows_endSessions fun _ => rfl
      refine ⟨lives_put (hfollows.lives hL) (Or.inr fun b hb huser => ?_), hfollows⟩
      exact endSessions_inactive (fun _ => rfl) hb huser
  | deleteUser userId suffix now =>
    simp only [handle, delete, accountSessions]
    cases hmember : memberUser (s.ctl.db.users.get? userId) with
    | none => exact ⟨hL, .refl⟩
    | some target =>
      have hfollows : Follows s.ctl.db.users s.browsers
          (endSessions target.id (deletedSession now) (fun _ => rfl) s.browsers) :=
        follows_endSessions fun _ => rfl
      refine ⟨lives_put (hfollows.lives hL) (Or.inr fun b hb huser => ?_), hfollows⟩
      exact endSessions_inactive (fun _ => rfl) hb huser

/-! ## Runs -/

/-- The sessions that are starting or running have live accounts, and those that wait for
`runner.start` are in the table. -/
structure Inv (s : Cloud) : Prop where
  lives : Lives s.ctl.db.users s.browsers
  starting : ∀ item ∈ s.starting, item.status = .starting ∧
    ∃ b ∈ s.browsers.rows, b.id = item.id ∧ b.userId = item.userId

theorem Inv.start (users : Table User.id) : Inv (Cloud.start users) :=
  ⟨fun _ hb => absurd hb List.not_mem_nil, fun _ hitem => absurd hitem List.not_mem_nil⟩

/-- A step that leaves the accounts alone. -/
theorem Inv.follow {s : Cloud} (hI : Inv s) {t' : BrowserTable}
    (h : Follows s.ctl.db.users s.browsers t') {starting : List BrowserSession}
    {tickets cookies : List SessionTicket}
    (hstarting : ∀ item ∈ starting, item ∈ s.starting ∨ item.status = .starting ∧ item ∈ t'.rows) :
    Inv ⟨s.ctl, t', starting, tickets, cookies⟩ := by
  refine ⟨h.lives hI.lives, fun item hitem => ?_⟩
  rcases hstarting item hitem with hold | ⟨hstatus, hnew⟩
  · obtain ⟨hstatus, b, hb, hid, huser⟩ := hI.starting item hold
    obtain ⟨b', hb', hid', huser'⟩ := h.kept b hb
    exact ⟨hstatus, b', hb', hid'.trans hid, huser'.trans huser⟩
  · exact ⟨hstatus, item, hnew, rfl, rfl⟩

theorem user_live {s : Cloud} {bearer : Bearer} {now : ℕ} {user : User}
    (h : s.user bearer now = some user) : LiveUser s.ctl.db.users user.id := by
  obtain ⟨⟨id, hget⟩, hlive⟩ := bearerUser_live h
  intro u hu hid
  rw [Table.eq_of_key hu (Table.get?_eq_some.mp hget).1 hid]
  exact hlive

theorem Inv.as {s : Cloud} (hI : Inv s) {bearer : Bearer} {now : ℕ} {f : User → Cloud}
    (h : ∀ user, LiveUser s.ctl.db.users user.id → Inv (f user)) : Inv (s.as bearer now f) := by
  simp only [Cloud.as]
  cases huser : s.user bearer now with
  | none => exact hI
  | some user => exact h user (user_live huser)

/-- **A careful step keeps the invariant.** -/
theorem inv_step {s s' : Cloud} {m : Move} (hI : Inv s) (hC : Careful s m)
    (h : step P s m = some s') : Inv s' := by
  cases m with
  | account req =>
    obtain ⟨ctl, hctl, rfl⟩ := Option.map_eq_some_iff.mp h
    obtain ⟨hlives, hfollows⟩ := account_sessions (P := P) hI.lives hC
    rw [← serial_step hctl] at hlives
    refine ⟨hlives, fun item hitem => ?_⟩
    obtain ⟨hstatus, b, hb, hid, huser⟩ := hI.starting item hitem
    obtain ⟨b', hb', hid', huser'⟩ := hfollows.kept b hb
    exact ⟨hstatus, b', hb', hid'.trans hid, huser'.trans huser⟩
  | startSession bearer runnerStatus id now =>
    obtain rfl := Option.some.inj h
    refine hI.as fun user hlive => hI.follow (follows_startSession hlive) fun item hitem => ?_
    rcases List.mem_append.mp hitem with hnew | hold
    · obtain ⟨hmem, hstatus⟩ := startSession_started (Option.mem_toList.mp hnew)
      exact Or.inr ⟨hstatus, hmem⟩
    · exact Or.inl hold
  | started item result now =>
    simp only [step] at h
    split_ifs at h with hmem
    obtain rfl := Option.some.inj h
    obtain ⟨hstatus, x, hx, hid, huser⟩ := hI.starting item hmem
    refine hI.follow (follows_finishStart (fun b hb hbid => ?_) (fun r hr hrunning => ?_) hstatus)
      fun other hother => Or.inl (List.mem_of_mem_erase hother)
    · rw [Table.eq_of_key hb hx (hbid.trans hid.symm), huser]
    · subst hr
      exact hC hrunning
  | stopSession bearer id now =>
    obtain rfl := Option.some.inj h
    exact hI.as fun _ _ => hI.follow follows_stopSession fun _ hitem => Or.inl hitem
  | getSession bearer id runnerStatus now =>
    obtain rfl := Option.some.inj h
    exact hI.as fun _ _ => hI.follow follows_getSession fun _ hitem => Or.inl hitem
  | sessionTicket bearer id now =>
    obtain rfl := Option.some.inj h
    exact hI.as fun _ _ => hI.follow .refl fun _ hitem => Or.inl hitem
  | viewerSession bearer id ticket now =>
    obtain rfl := Option.some.inj h
    exact hI.as fun _ _ => hI.follow .refl fun _ hitem => Or.inl hitem
  | adminSessions runnerStatus =>
    obtain rfl := Option.some.inj h
    exact hI.follow follows_adminSessions fun _ hitem => Or.inl hitem
  | forceStop id =>
    obtain rfl := Option.some.inj h
    exact hI.follow follows_forceStop fun _ hitem => Or.inl hitem

theorem Inv.ends {s : Cloud} (hI : Inv s) : EndsWithAccount s := by
  intro b hb u hu hid hdead
  have hinactive := hI.lives.inactive hu hdead b hb hid.symm
  refine ⟨hinactive, fun ticket now => ?_⟩
  have hget : s.browsers.get? b.id = some b := Table.get?_eq_some.mpr ⟨hb, rfl⟩
  have hstatus : b.status ≠ .running := fun hrunning => by
    simp [BrowserSession.active, hrunning] at hinactive
  rw [authorizeViewer, hget, Option.filter_some]
  simp [hstatus]

/-- **A step against the condition leaves a session to an account that has ended.** -/
theorem careless_step {s s' : Cloud} {m : Move} (hI : Inv s) (hC : ¬ Careful s m)
    (h : step P s m = some s') : ¬ EndsWithAccount s' := by
  cases m with
  | account req =>
    obtain ⟨ctl, hctl, rfl⟩ := Option.map_eq_some_iff.mp h
    cases req with
    | setUserEnabled userId enabled now =>
      cases enabled with
      | true => exact absurd trivial hC
      | false =>
        simp only [Careful] at hC
        push Not at hC
        obtain ⟨target, hmember, b, hb, huser, hactive⟩ := hC
        intro hends
        have hmem : setUserEnabled target false ∈ ctl.db.users.rows := by
          rw [serial_step hctl]
          simp only [handle, setEnabled, hmember]
          rw [revoked_users]
          exact Table.mem_put_self (Table.get?_eq_some.mp (memberUser_eq_some hmember).1).1 rfl
        have hdead : (setUserEnabled target false).live = false := rfl
        exact hactive (hends b hb _ hmem huser.symm hdead).1
    | _ => exact absurd trivial hC
  | started item result now =>
    simp only [step] at h
    split_ifs at h with hmem
    obtain rfl := Option.some.inj h
    cases result with
    | none => exact absurd trivial hC
    | some r =>
      simp only [Careful, LiveUser] at hC
      push Not at hC
      obtain ⟨hrunning, u, hu, huser, hdead⟩ := hC
      obtain ⟨hstatus, x, hx, hid, hxuser⟩ := hI.starting item hmem
      intro hends
      have hrow : BrowserSession.flush item (startedSession item now (some r)) x ∈
          (finishStart item (some r) now s.browsers).rows :=
        Table.mem_mapRows.mpr ⟨x, hx, if_pos hid⟩
      have hactive : (BrowserSession.flush item (startedSession item now (some r)) x).active =
          true := by
        simp [BrowserSession.active, BrowserSession.flush, startedSession, hstatus, hrunning, col]
      have hinactive := (hends _ hrow u hu (huser.trans hxuser.symm)
        (Bool.eq_false_iff.mpr hdead)).1
      exact Bool.false_ne_true (hinactive.symm.trans hactive)
  | _ => exact absurd trivial hC

/-- **Cloud browsers end with the account, exactly**: a run of the cloud browsers leaves no session
of a disabled or deleted account starting or running, and authorizes no viewer of it, in any state,
if and only if each of its steps is careful. -/
theorem ended_iff (P : Primitives) (users : Table User.id) {moves : List Move} {s : Cloud}
    (hr : run (step P) (Cloud.start users) moves = some s) :
    Along (step P) Careful (Cloud.start users) moves ↔
      Visits (step P) EndsWithAccount (Cloud.start users) moves :=
  along_iff_visits (fun _ hI => hI.ends) (fun _ _ _ hI hC h => inv_step hI hC h)
    (fun _ _ _ hI hC h => careless_step hI hC h) moves _ s (Inv.start users) hr

/-! ## Concrete runs -/

def sampleUsers : Table User.id := .single sampleUser

def alice : Bearer := .web ⟨2, 0⟩

def sampleBrowser : BrowserSession := newBrowser sampleUser "browser-1" 100

/-- A session is started, and its container comes up. -/
def starting : List Move := [.startSession alice .running "browser-1" 100]

def running : Move := .started sampleBrowser (some ⟨"http://127.0.0.1:8080", .running⟩) 200

/-- A session that is running when its account is disabled over the POST route is stopped. -/
theorem ended_iff_disable :
    Visits (step .sample) EndsWithAccount (Cloud.start sampleUsers)
      (starting ++ [running, .account (.disableUser 2)]) := by
  refine (ended_iff .sample sampleUsers rfl).mp ⟨trivial, fun s hs => ⟨fun _ u hu _ => ?_,
    fun _ _ => ⟨trivial, fun _ _ => trivial⟩⟩⟩
  obtain rfl := Option.some.inj hs
  obtain rfl := List.mem_singleton.mp hu
  rfl

/-- A session of an account that is disabled or deleted is starting or running. -/
def outlives (s : Cloud) : Bool :=
  s.browsers.rows.any fun b => s.ctl.db.users.rows.any fun u =>
    u.id == b.userId && !u.live && b.active

/-- A cookie that has been handed out opens a session. -/
def viewed (s : Cloud) (now : ℕ) : Bool :=
  s.cookies.any fun cookie => (authorizeViewer cookie.sessionId (some cookie) now s.browsers).isSome

theorem not_ends {s : Cloud} (h : outlives s = true) : ¬ EndsWithAccount s := by
  intro hends
  obtain ⟨b, hb, h⟩ := List.any_eq_true.mp h
  obtain ⟨u, hu, h⟩ := List.any_eq_true.mp h
  simp only [Bool.and_eq_true, beq_iff_eq, Bool.not_eq_true'] at h
  obtain ⟨⟨hid, hdead⟩, hactive⟩ := h
  exact Bool.false_ne_true ((hends b hb u hu hid hdead).1.symm.trans hactive)

/-- The viewer is opened before the account is disabled over the PUT route. -/
def viewing : List Move :=
  starting ++ [running, .sessionTicket alice "browser-1" 300,
    .viewerSession alice "browser-1" (some ⟨2, "browser-1", 300 + seconds 60⟩) 400,
    .account (.setUserEnabled 2 false 500)]

/-- A session outlives its account: the PUT route leaves it running, with its viewer, and the POST
route misses a session whose start is under way. -/
theorem session_outlives_account :
    (∃ s, run (step .sample) (Cloud.start sampleUsers) viewing = some s ∧
      viewed s (minutes 60) = true ∧ ¬ EndsWithAccount s) ∧
    ∃ s, run (step .sample) (Cloud.start sampleUsers)
      (starting ++ [.account (.disableUser 2), running]) = some s ∧ ¬ EndsWithAccount s := by
  constructor
  · obtain ⟨s, hs⟩ : ∃ s, run (step .sample) (Cloud.start sampleUsers) viewing = some s := ⟨_, rfl⟩
    have hviewed : ((run (step .sample) (Cloud.start sampleUsers) viewing).any fun s =>
        viewed s (minutes 60) && outlives s) = true := by decide +kernel
    rw [hs, Option.any_some, Bool.and_eq_true] at hviewed
    exact ⟨s, hs, hviewed.1, not_ends hviewed.2⟩
  · obtain ⟨s, hs⟩ : ∃ s, run (step .sample) (Cloud.start sampleUsers)
        (starting ++ [.account (.disableUser 2), running]) = some s := ⟨_, rfl⟩
    have houtlives : ((run (step .sample) (Cloud.start sampleUsers)
        (starting ++ [.account (.disableUser 2), running])).any outlives) = true := by
      decide +kernel
    rw [hs, Option.any_some] at houtlives
    exact ⟨s, hs, not_ends houtlives⟩

end IdenGrid.Control.BrowserAccess
