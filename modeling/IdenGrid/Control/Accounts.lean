import IdenGrid.Control.Rows

/-! # Account changes

What the administrator's handlers and `/api/logout` do to the account row they have loaded, before
it is written back. `change_user_password`, `set_user_enabled` and `delete_user` look the account
up with `member_user`; `disable_user` also accepts a deleted one. -/

namespace IdenGrid.Control.Accounts

open IdenGrid.Control.Rows

/-- `member_user`: the lookup of the `/api/admin/users` handlers, `none` for their 404. -/
def memberUser (target : Option User) : Option User :=
  target.filter fun u => u.role != .admin && u.deletedAt.isNone

/-- The lookup of `disable_user`. -/
def disableTarget (target : Option User) : Option User :=
  target.filter fun u => u.role != .admin

/-- `change_user_password`; `newHash` is `passwords.hash(body.password)`. -/
def changeUserPassword (target : User) (newHash : String) : User :=
  { target with passwordHash := newHash, tokenVersion := target.tokenVersion + 1 }

/-- `set_user_enabled`: only a disabling of an enabled account takes the branch that invalidates
tokens. -/
def disables (target : User) (enabled : Bool) : Bool := target.enabled && !enabled

def setUserEnabled (target : User) (enabled : Bool) : User :=
  { target with
    tokenVersion := if disables target enabled then target.tokenVersion + 1 else target.tokenVersion
    enabled := enabled }

/-- `disable_user`. -/
def disableUser (target : User) : User :=
  { target with enabled := false, tokenVersion := target.tokenVersion + 1 }

/-- `delete_user`; `suffix` is the random part of the new name. -/
def deleteUser (target : User) (suffix : String) (now : ℕ) : User :=
  { target with
    username := s!"deleted-user-{target.id}-{suffix}"
    passwordHash := "!deleted"
    enabled := false
    tokenVersion := target.tokenVersion + 1
    deletedAt := some now }

/-- `/api/logout`. -/
def logout (user : User) : User := { user with tokenVersion := user.tokenVersion + 1 }

theorem memberUser_eq_some {target : Option User} {u : User} (h : memberUser target = some u) :
    target = some u ∧ u.role ≠ .admin ∧ u.deletedAt = none := by
  unfold memberUser at h
  obtain ⟨ht, hc⟩ := Option.filter_eq_some_iff.mp h
  simpa [ht] using hc

theorem disableTarget_eq_some {target : Option User} {u : User}
    (h : disableTarget target = some u) : target = some u ∧ u.role ≠ .admin := by
  unfold disableTarget at h
  obtain ⟨ht, hc⟩ := Option.filter_eq_some_iff.mp h
  simpa [ht] using hc

end IdenGrid.Control.Accounts
