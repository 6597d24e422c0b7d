import IdenGrid.Lib.Requests
import IdenGrid.Control.Accounts
import Mathlib.Data.Nat.Basic

/-! # Web tokens and the token version under interleaving

Any number of `/api/login`, `/api/logout`, `change_user_password`, `disable_user` and
`set_user_enabled` requests on one account. Each reads the account row without a lock and, except
for the login, later writes back the columns it changed; the version it writes is the one it *read*
plus one. A web token dies because the version of its account moves on, so two writes that read the
same version kill only once: a token issued between them survives the second (`keepsVersion` fails
for it). -/

namespace IdenGrid.Control.WebTokens

open IdenGrid.Lib.Run IdenGrid.Lib.Requests IdenGrid.Lib.Orm
open IdenGrid.Control.Rows IdenGrid.Control.Accounts

/-- A web token that has been issued. `kills` is the number of password changes and disablings that
had committed when its login read the account. -/
structure Issued where
  payload : WebAccess
  kills : ℕ
  deriving DecidableEq, Repr

/-- The account row, and what has happened so far. -/
structure Shared where
  user : User
  kills : ℕ
  issued : List Issued
  deriving DecidableEq, Repr

/-- The handlers that write the account row. -/
inductive UserWrite
  | logout
  | changeUserPassword (newHash : String)
  | disableUser
  | setUserEnabled (enabled : Bool)
  deriving DecidableEq, Repr

/-- The row as the handler leaves it in memory. -/
def UserWrite.apply (target : User) : UserWrite → User
  | .logout => Accounts.logout target
  | .changeUserPassword newHash => Accounts.changeUserPassword target newHash
  | .disableUser => Accounts.disableUser target
  | .setUserEnabled enabled => Accounts.setUserEnabled target enabled

/-- The administrator's lookup of the account, `none` for the 404. -/
def UserWrite.lookup (row : User) : UserWrite → Option User
  | .logout => some row
  | .disableUser => disableTarget (some row)
  | _ => memberUser (some row)

/-- A password change or a disabling, which promises that older tokens die. -/
def UserWrite.kills : UserWrite → Bool
  | .changeUserPassword _ => true
  | .disableUser => true
  | .setUserEnabled enabled => !enabled
  | .logout => false

/-- Where a request stands, with the row it has read. -/
inductive Stage
  | idle
  | loginRead (seen : User) (kills : ℕ)
  | loaded (write : UserWrite) (target : User)
  | done
  deriving DecidableEq, Repr

/-- The accesses of the handlers. A logout brings its bearer token, and the session row a native
token names. -/
inductive Move
  | loginRead (username : String)
  | loginIssue (password : String)
  | logoutRead (token : Bearer) (session : Option DeviceSession) (now : ℕ)
  | adminRead (write : UserWrite)
  | commit
  deriving DecidableEq, Repr

variable (verify : String → String → Bool)

def getUser (s : Shared) (id : ℕ) : Option User := if id = s.user.id then some s.user else none

/-- The password check of `login`, which looks at `enabled` only. -/
def loginValid (seen : User) (password : String) : Bool :=
  seen.enabled && verify seen.passwordHash password

/-- The commit of a write: the columns changed since the row was read. -/
def commit (s : Shared) (write : UserWrite) (target : User) : Shared :=
  { s with
    user := User.flush target (write.apply target) s.user
    kills := if write.kills then s.kills + 1 else s.kills }

/-- One access of a request. -/
def act (_r : ℕ) (s : Shared) : Stage → Move → Option (Shared × Stage)
  | .idle, .loginRead username =>
    some (s, if username = s.user.username then .loginRead s.user s.kills else .done)
  | .loginRead seen kills, .loginIssue password =>
    if loginValid verify seen password then
      some ({ s with issued := ⟨issueAccess seen, kills⟩ :: s.issued }, .done)
    else some (s, .done)
  | .idle, .logoutRead token session now =>
    match bearerUser (fun _ => session) (getUser s) token now with
    | some user => some (s, .loaded .logout user)
    | none => some (s, .done)
  | .idle, .adminRead write =>
    if write = .logout then none
    else
      match write.lookup s.user with
      | some target => some (s, .loaded write target)
      | none => some (s, .done)
  | .loaded write target, .commit => some (commit s write target, .done)
  | _, _ => none

/-- The account as it is, nothing issued. -/
def start (user : User) : Crew Shared Stage where
  shared := { user := user, kills := 0, issued := [] }
  loc := fun _ => .idle

/-- The write loses no increment: the stored version has not moved past the one written, for a
password change or a disabling not up to it either; a `set_user_enabled(false)` that read a disabled
account, and so writes nothing, finds it still disabled. -/
def keepsVersion (s : Shared) : Stage → Move → Bool
  | .loaded .logout target, .commit => s.user.tokenVersion ≤ target.tokenVersion + 1
  | .loaded (.setUserEnabled true) _, .commit => true
  | .loaded (.setUserEnabled false) target, .commit =>
    if target.enabled then s.user.tokenVersion ≤ target.tokenVersion else !s.user.enabled
  | .loaded _ target, .commit => s.user.tokenVersion ≤ target.tokenVersion
  | _, _ => true

variable {verify}

/-! ## What a commit does -/

/-- Versions do not decrease. Where the version stays, nothing that promises the death of tokens has
happened, unless the account is disabled, and the account is not newly disabled. -/
def Advances (s s' : Shared) : Prop :=
  s.user.tokenVersion ≤ s'.user.tokenVersion ∧
    (s.user.tokenVersion < s'.user.tokenVersion ∨
      ((s'.kills = s.kills ∨ s.user.enabled = false) ∧
        (s'.user.enabled = false → s.user.enabled = false)))

theorem Advances.refl (s : Shared) : Advances s s := ⟨le_rfl, Or.inr ⟨Or.inl rfl, id⟩⟩

/-- **One commit that loses no increment.** -/
theorem commit_advances {s : Shared} {write : UserWrite} {target : User}
    (hC : keepsVersion s (.loaded write target) .commit = true) :
    Advances s (commit s write target) := by
  cases write with
  | logout =>
    have hle : s.user.tokenVersion ≤ target.tokenVersion + 1 := by simpa [keepsVersion] using hC
    refine ⟨?_, Or.inr ⟨Or.inl rfl, ?_⟩⟩
    · simpa [commit, User.flush, UserWrite.apply, Accounts.logout] using hle
    · simp [commit, User.flush, UserWrite.apply, Accounts.logout]
  | changeUserPassword newHash =>
    have hle : s.user.tokenVersion ≤ target.tokenVersion := by simpa [keepsVersion] using hC
    have hver : (commit s (.changeUserPassword newHash) target).user.tokenVersion =
        target.tokenVersion + 1 := col_succ _ _
    exact ⟨by omega, Or.inl (by omega)⟩
  | disableUser =>
    have hle : s.user.tokenVersion ≤ target.tokenVersion := by simpa [keepsVersion] using hC
    have hver : (commit s .disableUser target).user.tokenVersion = target.tokenVersion + 1 :=
      col_succ _ _
    exact ⟨by omega, Or.inl (by omega)⟩
  | setUserEnabled enabled =>
    rcases enabled with _ | _
    · rcases hen : target.enabled with _ | _
      · -- nothing to write: the account has to be disabled still
        have hdis : s.user.enabled = false := by simpa [keepsVersion, hen] using hC
        have hver : (commit s (.setUserEnabled false) target).user.tokenVersion =
            s.user.tokenVersion := by
          simp [commit, User.flush, UserWrite.apply, setUserEnabled, disables, hen]
        exact ⟨Nat.le_of_eq hver.symm, Or.inr ⟨Or.inr hdis, fun _ => hdis⟩⟩
      · have hle : s.user.tokenVersion ≤ target.tokenVersion := by
          simpa [keepsVersion, hen] using hC
        have hver : (commit s (.setUserEnabled false) target).user.tokenVersion =
            target.tokenVersion + 1 := by
          simp [commit, User.flush, UserWrite.apply, setUserEnabled, disables, hen]
        exact ⟨by omega, Or.inl (by omega)⟩
    · have hver : (commit s (.setUserEnabled true) target).user.tokenVersion =
          s.user.tokenVersion := by
        simp [commit, User.flush, UserWrite.apply, setUserEnabled, disables]
      refine ⟨Nat.le_of_eq hver.symm, Or.inr ⟨Or.inl rfl, fun hdis => ?_⟩⟩
      -- enabling leaves the account as it is or enables it
      rcases col_eq_or target.enabled true s.user.enabled with h | h
      · exact absurd (h.symm.trans hdis) (by simp)
      · exact h.symm.trans hdis

/-! ## The invariant -/

/-- A version read after `kills` of the killing commits is not ahead of the account's, and behind it
if another has committed since or the account is disabled. -/
def Behind (s : Shared) (version kills : ℕ) : Prop :=
  version ≤ s.user.tokenVersion ∧ kills ≤ s.kills ∧
    (kills < s.kills ∨ s.user.enabled = false → version < s.user.tokenVersion)

theorem Behind.advances {s s' : Shared} {version kills : ℕ} (h : Behind s version kills)
    (hs : Advances s s') (hk : s.kills ≤ s'.kills) : Behind s' version kills := by
  obtain ⟨hle, hkills, hlt⟩ := h
  obtain ⟨hver, hcase⟩ := hs
  refine ⟨by omega, by omega, fun hdead => ?_⟩
  rcases hcase with hmove | ⟨hkept, hdis⟩
  · omega
  · have : version < s.user.tokenVersion := by
      rcases hdead with hnew | hoff
      · rcases hkept with heq | hoff
        · exact hlt (Or.inl (heq ▸ hnew))
        · exact hlt (Or.inr hoff)
      · exact hlt (Or.inr (hdis hoff))
    omega

def Inv (s : Shared) : Prop := ∀ t ∈ s.issued, Behind s t.payload.ver t.kills

/-- A login past its read relies on the version it has read not being ahead; it can succeed only if
the account it has read was enabled. -/
def Relies (_r : ℕ) (s : Shared) : Stage → Prop
  | .loginRead seen kills => seen.enabled = true → Behind s seen.tokenVersion kills
  | _ => True

/-- What one access does to the account and to the tokens. -/
theorem act_advances {s s' : Shared} {r : ℕ} {m m' : Stage} {a : Move}
    (hC : keepsVersion s m a = true) (h : act verify r s m a = some (s', m')) :
    Advances s s' ∧ s.kills ≤ s'.kills := by
  unfold act at h
  split at h
  · obtain ⟨rfl, -⟩ := by simpa using h
    exact ⟨.refl _, le_rfl⟩
  · split_ifs at h <;> obtain ⟨rfl, -⟩ := by simpa using h
    · exact ⟨.refl _, le_rfl⟩
    · exact ⟨.refl _, le_rfl⟩
  · split at h <;> obtain ⟨rfl, -⟩ := by simpa using h
    · exact ⟨.refl _, le_rfl⟩
    · exact ⟨.refl _, le_rfl⟩
  · split_ifs at h
    split at h <;> obtain ⟨rfl, -⟩ := by simpa using h
    · exact ⟨.refl _, le_rfl⟩
    · exact ⟨.refl _, le_rfl⟩
  · obtain ⟨rfl, -⟩ := by simpa using h
    refine ⟨commit_advances hC, ?_⟩
    unfold commit
    split_ifs
    · exact Nat.le_succ _
    · exact le_rfl
  · cases h

/-- An access re-establishes the invariant and what its request relies on. -/
theorem act_inv {s s' : Shared} {r : ℕ} {m m' : Stage} {a : Move} (hI : Inv s)
    (hA : Relies r s m) (hC : keepsVersion s m a = true)
    (h : act verify r s m a = some (s', m')) : Inv s' ∧ Relies r s' m' := by
  obtain ⟨hadv, hkills⟩ := act_advances hC h
  have hold : ∀ t ∈ s.issued, Behind s' t.payload.ver t.kills :=
    fun t ht => (hI t ht).advances hadv hkills
  unfold act at h
  split at h
  · -- loginRead: the version read is the account's
    obtain ⟨rfl, rfl⟩ := by simpa using h
    refine ⟨hI, ?_⟩
    split_ifs
    · refine fun hen => ⟨le_rfl, le_rfl, fun hdead => ?_⟩
      rcases hdead with hlt | hoff
      · exact absurd hlt (Nat.lt_irrefl _)
      · rw [hen] at hoff; cases hoff
    · trivial
  · -- loginIssue: the token carries the version read
    next seen kills password =>
    split_ifs at h with hvalid <;> obtain ⟨rfl, rfl⟩ := by simpa using h
    · refine ⟨fun t ht => ?_, trivial⟩
      rcases List.mem_cons.mp ht with rfl | ht
      · simp only [loginValid, Bool.and_eq_true] at hvalid
        exact hA hvalid.1
      · exact hI t ht
    · exact ⟨hI, trivial⟩
  · split at h <;> obtain ⟨rfl, rfl⟩ := by simpa using h
    · exact ⟨hI, trivial⟩
    · exact ⟨hI, trivial⟩
  · split_ifs at h
    split at h <;> obtain ⟨rfl, rfl⟩ := by simpa using h
    · exact ⟨hI, trivial⟩
    · exact ⟨hI, trivial⟩
  · obtain ⟨rfl, rfl⟩ := by simpa using h
    exact ⟨hold, trivial⟩
  · cases h

theorem Relies.advances {s s' : Shared} {q : ℕ} {m : Stage} (h : Relies q s m)
    (hs : Advances s s') (hk : s.kills ≤ s'.kills) : Relies q s' m := by
  cases m with
  | loginRead seen kills => exact fun hen => (h hen).advances hs hk
  | _ => trivial

/-- A web token whose account has moved past its version is not accepted. -/
theorem Behind.rejected {s : Shared} {p : WebAccess} {kills : ℕ} (h : Behind s p.ver kills)
    (hk : kills < s.kills) (getSession : String → Option DeviceSession) (now : ℕ) :
    bearerUser getSession (getUser s) (.web p) now = none := by
  rcases hb : bearerUser getSession (getUser s) (.web p) now with _ | u
  · rfl
  · exfalso
    obtain ⟨hget, -, hver⟩ := bearerUser_web_eq_some hb
    unfold getUser at hget
    split_ifs at hget
    obtain rfl := Option.some.inj hget
    have := h.2.2 (Or.inl hk)
    omega

/-- **Web tokens die, where no increment is lost**: in a run whose commits never write a stale
version, no web token whose login had read the account before the latest password change or
disabling is accepted. -/
theorem web_tokens_dead_of_keepsVersion (verify : String → String → Bool) (user : User)
    {moves : List (ℕ × Move)} {c : Crew Shared Stage}
    (hC : Along (step (act verify)) (fun c e => keepsVersion c.shared (c.loc e.1) e.2 = true)
      (start user) moves)
    (hr : run (step (act verify)) (start user) moves = some c) :
    ∀ t ∈ c.shared.issued, t.kills < c.shared.kills → ∀ getSession now,
      bearerUser getSession (getUser c.shared) (.web t.payload) now = none := by
  have hstart : Holds Inv Relies (start user) := ⟨by simp [Inv, start], fun _ => trivial⟩
  have hH := run_owicki ?_ ?_ hstart hC hr
  · exact fun t ht hk getSession now => (hH.1 t ht).rejected hk getSession now
  · intro c r a s' m' hI hA hc h
    exact act_inv hI hA hc h
  · intro c r a s' m' q _ _ hc h _ hAq
    obtain ⟨hadv, hkills⟩ := act_advances hc h
    exact hAq.advances hadv hkills

/-! ## Two schedules -/

/-- The account of the schedules and its verifier: a hash is its password behind a tag. -/
def sampleMember : User where
  id := 2
  username := "alice"
  passwordHash := "argon2id:correct horse"
  role := .member
  enabled := true
  tokenVersion := 0
  deletedAt := none

def sampleVerify (hash password : String) : Bool := hash == "argon2id:" ++ password

/-- Two password changes one after the other, a login on the first password in between. -/
def successiveChanges : List (ℕ × Move) :=
  [(0, .adminRead (.changeUserPassword "argon2id:battery")), (0, .commit),
    (1, .loginRead "alice"), (1, .loginIssue "battery"),
    (2, .adminRead (.changeUserPassword "argon2id:staple")), (2, .commit)]

/-- The same, the second change having read the account before the first committed. -/
def overlappingChanges : List (ℕ × Move) :=
  [(2, .adminRead (.changeUserPassword "argon2id:staple")),
    (0, .adminRead (.changeUserPassword "argon2id:battery")), (0, .commit),
    (1, .loginRead "alice"), (1, .loginIssue "battery"), (2, .commit)]

theorem web_tokens_dead_successive : ∃ c,
    run (step (act sampleVerify)) (start sampleMember) successiveChanges = some c ∧
      c.shared.issued = [⟨⟨2, 1⟩, 1⟩] ∧ c.shared.kills = 2 ∧
      ∀ t ∈ c.shared.issued, t.kills < c.shared.kills → ∀ getSession now,
        bearerUser getSession (getUser c.shared) (.web t.payload) now = none := by
  obtain ⟨c, hr⟩ : ∃ c,
      run (step (act sampleVerify)) (start sampleMember) successiveChanges = some c := ⟨_, rfl⟩
  refine ⟨c, hr, ?_, ?_, web_tokens_dead_of_keepsVersion sampleVerify sampleMember (by decide) hr⟩
  all_goals
    obtain rfl := Option.some.inj hr
    rfl

/-- The token issued on the first new password survives the second change. -/
theorem overlapping_changes_keep_token : ∃ c,
    run (step (act sampleVerify)) (start sampleMember) overlappingChanges = some c ∧
      c.shared.issued = [⟨⟨2, 1⟩, 1⟩] ∧ c.shared.kills = 2 ∧
      bearerUser (fun _ => none) (getUser c.shared) (.web ⟨2, 1⟩) 0 = some c.shared.user :=
  ⟨_, rfl, rfl, rfl, rfl⟩

end IdenGrid.Control.WebTokens
