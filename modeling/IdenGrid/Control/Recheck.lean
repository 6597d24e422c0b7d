import IdenGrid.Control.Logins

/-! # The re-check of a native login

The invariant is `SessionsCurrent`: an unrevoked session belongs to a live account and was last
authenticated by a login that verified the account's present hash. Between the verification and the
commit of a login the account may change; the invariant holds because the final transaction reads
the account again under its row lock, and a request that holds the lock of an account relies on the
row it has seen under it. -/

namespace IdenGrid.Control.Recheck

open IdenGrid.Lib.Run IdenGrid.Lib.Requests IdenGrid.Lib.Store
open IdenGrid.Control.Rows IdenGrid.Control.Sessions IdenGrid.Control.Serial
open IdenGrid.Control.Logins

/-- An unrevoked session belongs to a live account, and the login that last authenticated it
verified the account's present hash. -/
def SessionsCurrent (s : Shared) : Prop :=
  ∀ d ∈ s.db.sessions.rows, d.revokedAt = none → ∀ u ∈ s.db.users.rows, u.id = d.userId →
    u.enabled = true ∧ u.deletedAt = none ∧ s.verified d.id = u.passwordHash

variable {P : Primitives}

/-! ## What one move can do -/

/-- The effect of one move of request `r`.

* `quiet`: accounts and sessions are as before;
* `signIn`: the holder of a live account's lock authenticates a session of that account;
* `change`: the holder of an account's lock rewrites the account and revokes its sessions. -/
inductive Effect (r : ℕ) (s s' : Shared) : Prop
  | quiet (hlock : ∀ q uid, q ≠ r → s.lock uid = some q → s'.lock uid = some q)
      (husers : s'.db.users = s.db.users) (hsessions : s'.db.sessions = s.db.sessions)
      (hverified : s'.verified = s.verified)
  | signIn {u : User} {d : DeviceSession}
      (hlock : ∀ q uid, q ≠ r → s.lock uid = some q → s'.lock uid = some q)
      (husers : s'.db.users = s.db.users) (hmem : u ∈ s.db.users.rows) (hlive : u.live = true)
      (huser : d.userId = u.id)
      (hrows : ∀ x ∈ s'.db.sessions.rows, x = d ∨ (x ∈ s.db.sessions.rows ∧ x.id ≠ d.id))
      (hverified : s'.verified = Function.update s.verified d.id u.passwordHash)
  | change {target new : User} {now : ℕ} (hheld : s.lock target.id = some r)
      (hlock : ∀ q uid, q ≠ r → s.lock uid = some q → s'.lock uid = some q)
      (husers : s'.db.users = flushUser target new s.db.users)
      (hrows : ∀ x ∈ s'.db.sessions.rows, ∃ y ∈ s.db.sessions.rows,
        x = revokeDeviceSession target.id now y)
      (hverified : s'.verified = s.verified)

/-- What a request relies on between two of its moves: the lock of the account it holds, and the
row it has seen under it. -/
def Relies (r : ℕ) (s : Shared) : Stage → Prop
  | .loginLocked _ seen user =>
    s.lock user.id = some r ∧ user ∈ s.db.users.rows ∧ user.live = true ∧
      user.passwordHash = seen.passwordHash
  | .changeFlushed _ target _ => s.lock target.id = some r
  | _ => True

theorem Effect.refl (r : ℕ) (s : Shared) : Effect r s s := .quiet (fun _ _ _ h => h) rfl rfl rfl

theorem loginCommit_effect {s : Shared} {r : ℕ} {a : Attempt} {seen user : User}
    {i : LoginInputs} (hA : Relies r s (.loginLocked a seen user)) :
    Effect r s (loginCommit P s a seen user i) := by
  obtain ⟨hheld, hmem, hlive, hhash⟩ := hA
  have hlock := release_lock hheld
  rcases loginFinal_spec P a.body a.sourceIp i user s.db with
    h | ⟨d, huser, -, hans, husers, -, hrows⟩
  · simp only [loginCommit, h]
    exact .quiet hlock rfl rfl rfl
  · simp only [loginCommit, hans]
    exact .signIn hlock husers hmem hlive huser hrows (by rw [hhash]; rfl)

theorem changeCommit_effect {s : Shared} {r : ℕ} {change : AccountChange} {target : User} {now : ℕ}
    (hA : Relies r s (.changeFlushed change target now)) :
    Effect r s (changeCommit s change target now) := by
  have hrows : ∀ x ∈ (changeCommit s change target now).db.sessions.rows,
      ∃ y ∈ s.db.sessions.rows, x = revokeDeviceSession target.id now y := by
    intro x hx
    obtain ⟨y, hy, rfl⟩ := List.mem_map.mp hx
    exact ⟨y, hy, rfl⟩
  exact .change hA (release_lock hA) rfl hrows rfl

/-- **What one move can do.** -/
theorem act_effect {s s' : Shared} {r : ℕ} {m m' : Stage} {a : Move} (hA : Relies r s m)
    (h : act P r s m a = some (s', m')) : Effect r s s' := by
  unfold act at h
  split at h
  · obtain ⟨rfl, -⟩ := by simpa using h
    exact .quiet (fun _ _ _ h => h) rfl rfl rfl
  · obtain ⟨rfl, -⟩ := by simpa using h
    exact .refl r s
  · split at h
    · obtain ⟨rfl, -⟩ := by simpa using h
      exact .refl r s
    · obtain ⟨rfl, -⟩ := by simpa using h
      exact .refl r s
  · obtain ⟨rfl, -⟩ := by simpa using h
    exact .quiet (fun _ _ _ h => h) rfl rfl rfl
  · -- loginLock
    split_ifs at h with hfree
    split at h
    · next user hu =>
      obtain ⟨hget, -⟩ := Option.filter_eq_some_iff.mp hu
      obtain ⟨rfl, -⟩ := by simpa using h
      rw [← (Table.get?_eq_some.mp hget).2] at hfree
      exact .quiet (fun q uid _ hl => take_lock hfree q uid hl) rfl rfl rfl
    · obtain ⟨rfl, -⟩ := by simpa using h
      exact .refl r s
  · obtain ⟨rfl, -⟩ := by simpa using h
    exact loginCommit_effect hA
  · split at h
    · obtain ⟨rfl, -⟩ := by simpa using h
      exact .refl r s
    · obtain ⟨rfl, -⟩ := by simpa using h
      exact .refl r s
  · split_ifs at h with hfree
    obtain ⟨rfl, -⟩ := by simpa using h
    exact .quiet (fun q uid _ hl => take_lock hfree q uid hl) rfl rfl rfl
  · obtain ⟨rfl, -⟩ := by simpa using h
    exact changeCommit_effect hA
  · cases h

/-- A move leaves its request with what it relies on next. -/
theorem act_relies {s s' : Shared} {r : ℕ} {m m' : Stage} {a : Move}
    (h : act P r s m a = some (s', m')) : Relies r s' m' := by
  unfold act at h
  split at h
  · obtain ⟨-, rfl⟩ := by simpa using h
    split_ifs <;> trivial
  · obtain ⟨-, rfl⟩ := by simpa using h
    trivial
  · split at h
    · obtain ⟨-, rfl⟩ := by simpa using h
      trivial
    · obtain ⟨-, rfl⟩ := by simpa using h
      trivial
  · obtain ⟨-, rfl⟩ := by simpa using h
    trivial
  · -- loginLock: the account re-read is live and has the hash that was verified
    split_ifs at h with hfree
    split at h
    · next user hu =>
      obtain ⟨hget, hre⟩ := Option.filter_eq_some_iff.mp hu
      obtain ⟨rfl, rfl⟩ := by simpa using h
      simp only [recheck, Bool.and_eq_true, beq_iff_eq] at hre
      exact ⟨Function.update_self _ _ _, (Table.get?_eq_some.mp hget).1, hre.1.1, hre.1.2⟩
    · obtain ⟨-, rfl⟩ := by simpa using h
      trivial
  · obtain ⟨-, rfl⟩ := by simpa using h
    trivial
  · split at h
    · obtain ⟨-, rfl⟩ := by simpa using h
      split_ifs <;> trivial
    · obtain ⟨-, rfl⟩ := by simpa using h
      trivial
  · split_ifs at h with hfree
    obtain ⟨rfl, rfl⟩ := by simpa using h
    exact Function.update_self _ _ _
  · obtain ⟨-, rfl⟩ := by simpa using h
    trivial
  · cases h

theorem Effect.lock {r q uid : ℕ} {s s' : Shared} (h : Effect r s s') (hq : q ≠ r)
    (hl : s.lock uid = some q) : s'.lock uid = some q := by
  cases h with
  | quiet hlock => exact hlock q uid hq hl
  | signIn hlock => exact hlock q uid hq hl
  | change _ hlock => exact hlock q uid hq hl

/-- The account whose lock another request holds is not rewritten. -/
theorem Effect.user {r q : ℕ} {s s' : Shared} {u : User} (h : Effect r s s') (hq : q ≠ r)
    (hl : s.lock u.id = some q) (hu : u ∈ s.db.users.rows) : u ∈ s'.db.users.rows := by
  cases h with
  | quiet _ husers => rw [husers]; exact hu
  | signIn _ husers => rw [husers]; exact hu
  | @change target _ _ hheld _ husers =>
    rw [husers]
    refine List.mem_map.mpr ⟨u, hu, if_neg fun heq => hq ?_⟩
    rw [heq, hheld] at hl
    exact (Option.some.inj hl).symm

/-- What the other requests rely on is stable. -/
theorem Relies.effect {r q : ℕ} {s s' : Shared} {m : Stage} (hq : q ≠ r) (h : Effect r s s')
    (hA : Relies q s m) : Relies q s' m := by
  cases m with
  | loginLocked a seen user =>
    obtain ⟨hl, hu, hlive, hhash⟩ := hA
    exact ⟨h.lock hq hl, h.user hq hl hu, hlive, hhash⟩
  | changeFlushed change target now => exact h.lock hq hA
  | _ => trivial

/-! ## The invariant -/

/-- `SessionsCurrent` is kept by every move: a sign-in authenticates against the row it holds, a
change revokes the sessions of the account it rewrites. -/
theorem SessionsCurrent.effect {r : ℕ} {s s' : Shared} (hI : SessionsCurrent s)
    (h : Effect r s s') : SessionsCurrent s' := by
  intro x hx hrev u hu hid
  cases h with
  | quiet _ husers hsessions hverified =>
    rw [husers] at hu
    rw [hsessions] at hx
    rw [hverified]
    exact hI x hx hrev u hu hid
  | @signIn v d _ husers hmem hlive huser hrows hverified =>
    rw [husers] at hu
    rw [hverified]
    rcases hrows x hx with rfl | ⟨hold, hne⟩
    · obtain rfl : u = v := Table.eq_of_key hu hmem (hid.trans huser)
      simp only [User.live, Bool.and_eq_true, Option.isNone_iff_eq_none] at hlive
      exact ⟨hlive.1, hlive.2, Function.update_self _ _ _⟩
    · rw [Function.update_of_ne hne]
      exact hI x hold hrev u hu hid
  | @change target new now _ _ husers hrows hverified =>
    rw [husers] at hu
    rw [hverified]
    obtain ⟨y, hy, rfl⟩ := hrows x hx
    obtain ⟨v, hv, rfl⟩ := List.mem_map.mp hu
    by_cases ht : y.userId = target.id
    · exact absurd hrev (revokeDeviceSession_revoked ht)
    · -- a session of another account: neither it nor that account is touched
      have hy' : revokeDeviceSession target.id now y = y := by simp [revokeDeviceSession, ht]
      rw [hy'] at hid hrev ⊢
      have hv' : ¬ v.id = target.id := by
        intro heq
        rw [if_pos heq] at hid
        exact ht (hid.symm.trans heq)
      rw [if_neg hv'] at hid ⊢
      exact hI y hy hrev v hv hid

/-- **The re-check is sound under every interleaving**: in every state any number of logins and
account changes can reach, no unrevoked session was last authenticated by a login that verified a
superseded password, and none belongs to a disabled or deleted account. -/
theorem sessions_current (P : Primitives) (users : Table User.id) {moves : List (ℕ × Move)}
    {c : Crew Shared Stage} (hr : run (step (act P)) (start users) moves = some c) :
    SessionsCurrent c.shared := by
  have hstart : Holds SessionsCurrent Relies (start users) :=
    ⟨by simp [SessionsCurrent, start, Table.empty], fun _ => trivial⟩
  refine (run_owicki (C := fun _ _ => True) ?_ ?_ hstart (along_true _ _) hr).1
  · intro c r a s' m' hI hA _ h
    exact ⟨hI.effect (act_effect hA h), act_relies h⟩
  · intro c r a s' m' q _ hA _ h hq hAq
    exact hAq.effect hq (act_effect hA h)

theorem sessions_current_race : ∃ c,
    run (step (act .sample)) (start ⟨[sampleUser], by decide⟩) raceSchedule = some c ∧
      SessionsCurrent c.shared ∧ c.shared.db.sessions.rows.length = 1 := by
  obtain ⟨c, hr⟩ : ∃ c,
      run (step (act .sample)) (start ⟨[sampleUser], by decide⟩) raceSchedule = some c := ⟨_, rfl⟩
  refine ⟨c, hr, sessions_current .sample _ hr, ?_⟩
  obtain rfl := Option.some.inj hr
  rfl

end IdenGrid.Control.Recheck
