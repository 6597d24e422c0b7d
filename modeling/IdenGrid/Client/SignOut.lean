import IdenGrid.Client.Generations
import IdenGrid.Client.Windows

/-! # Signing out

A sign-out ends while a refresh that began before it may still be awaiting its answer. macOS compares
the `sessionGeneration` that the refresh has read with the current one; Windows compares nothing. The
logout carries the access token of the client, which a refresh replaces on the server before its
answer is there.

`final_of_careful`: a handler of a refresh or a restored session that began before a sign-out that is
over leaves the session, the vault and the scheduler as they are, and the server revokes the session
of every logout it gets, provided that each such handler finds nothing to do when it goes on, and the
server still accepts the token of the logout. -/

namespace IdenGrid.Client.SignOut

open IdenGrid.Lib.Run IdenGrid.Lib.Requests IdenGrid.Lib.Store
open IdenGrid.Control.Rows IdenGrid.Control.Sessions IdenGrid.Control.Serial
open IdenGrid.Client.Session IdenGrid.Client.Generations

/-! ## Final sign-outs -/

/-- When the refresh or the restored session began that the handler belongs to. -/
def began (s : App) : Task → Option ℕ
  | .refreshing _ => s.refresh.map (·.began)
  | .restoring began _ _ => some began
  | .listing restored _ => restored
  | _ => none

/-- It began before a sign-out that has completed. -/
def stale (s : App) (l : Task) : Bool := (began s l).any fun b => b < s.signedOut

/-- The session, the vault and the scheduler are left as they are. -/
def Quiet (s s' : App) : Prop :=
  s'.session = s.session ∧ s'.vault = s.vault ∧ s'.scheduler.starts = s.scheduler.starts

/-- The device session of an access token is revoked. -/
def Revoked (db : Db) (access : NativeAccess) : Prop :=
  ∀ item, db.sessions.get? access.dsid = some item → item.revokedAt ≠ none

/-- What one step of a handler leaves of a sign-out: what began before it stays quiet, the server
revokes the session, and a sign-out with a session is over only when its logout has been answered or
the connection has failed. -/
structure Final (s : App) (l : Task) (m : Move) (s' : App) : Prop where
  quiet : stale s l = true → Quiet s s'
  revoked : ∀ i access, m = .serve i → awaited s l = some (.sent (.logout access)) →
    Revoked s'.db access
  called : s'.signedOut = s.signedOut ∨ s.session = none ∨
    ∃ began answer, l = .loggingOut began (.answered answer)

/-! ## What a step has to take care of -/

/-- The server accepts the token of the logout, or the session is revoked already. -/
def logoutAccepted (s : App) (l : Task) (i : Inputs) : Bool :=
  match awaited s l with
  | some (.sent (.logout access)) =>
    (s.db.sessions.get? access.dsid).all fun item => item.revokedAt.isSome ||
      (nativeAccessIdentity s.db.sessions.get? s.db.users.get? access i.now).isSome
  | _ => true

/-- Nobody is signed in at the end of a delivery that began before a sign-out. -/
def macCareful (s : App) (l : Task) (m : Move) : Bool :=
  match m, l with
  | .finish _, .refreshing _ => !stale s l || s.session.isNone
  | .serve i, l => logoutAccepted s l i
  | _, _ => true

/-- `StartRefreshScheduler` would not start anything. -/
def startsNothing (s : App) : Bool := s.session.isNone || s.scheduler.disposed

/-- What the answer makes of a refresh or a restored session from before a sign-out: no tokens, and
nothing that is there is cleared or started. -/
def answersNothing (s : App) (l : Task) : Bool :=
  match awaited s l, l with
  | some (.answered answer), .refreshing _ =>
    match outcome answer with
    | .tokens _ => false
    | .rejected => true
    | .failed => startsNothing s
  | some (.answered answer), _ =>
    match outcome answer with
    | .tokens _ => false
    | .rejected => s.vault.isNone
    | .failed => true
  | _, _ => true

/-- The end of a delivery, or of `FailClosedSessionAsync`. -/
def endsNothing (s : App) (thrown : Bool) : Bool :=
  match s.refresh with
  | some ⟨_, _, .failingClosed⟩ => thrown || s.session.isNone && s.vault.isNone
  | _ => startsNothing s

def windowsCareful (s : App) (l : Task) (m : Move) : Bool :=
  match m, l with
  | .receive _, l => !stale s l || answersNothing s l
  | .listed, l => !stale s l || startsNothing s
  | .closeFailed _, l => !stale s l || startsNothing s
  | .finish thrown, .refreshing back => !stale s (.refreshing back) || endsNothing s thrown
  | .serve i, l => logoutAccepted s l i
  | _, _ => true

/-! ## The server -/

variable {s s' : App} {l l' : Task} {P : Primitives}

/-- A logout that is accepted revokes the session. -/
theorem revoked_of_accepted {db : Db} {access : NativeAccess} {now : ℕ}
    (h : ((db.sessions.get? access.dsid).all fun item => item.revokedAt.isSome ||
      (nativeAccessIdentity db.sessions.get? db.users.get? access now).isSome) = true) :
    Revoked (nativeLogout access now db).1 access := by
  intro item hitem
  unfold nativeLogout at hitem
  cases hidentity : nativeAccessIdentity db.sessions.get? db.users.get? access now with
  | none =>
    rw [hidentity] at hitem
    rw [hitem, hidentity] at h
    simpa [Option.isSome_iff_ne_none] using h
  | some accepted =>
    obtain ⟨user, found⟩ := accepted
    rw [hidentity] at hitem
    obtain ⟨hfound, -⟩ := nativeAccessIdentity_eq_some hidentity
    have hid : (logoutRevoke found now).id = access.dsid := (Table.get?_eq_some.mp hfound).2
    have hput := Table.get?_put_self (t := db.sessions) (r := logoutRevoke found now)
      (x := found) (by rw [hid]; exact hfound)
    rw [hid] at hput
    have hrevoked : item = logoutRevoke found now := Option.some.inj (hitem.symm.trans hput)
    rw [hrevoked]
    exact Option.some_ne_none now

/-- A call that gets further leaves the session, the vault and the scheduler alone, and the server
as it is. -/
theorem advance_quiet (s : App) (l : Task) (call : Call) :
    Quiet s (advance s l call).1 ∧ (advance s l call).1.signedOut = s.signedOut ∧
      (advance s l call).1.db = s.db := by
  unfold advance
  cases l with
  | refreshing back => cases hrf : s.refresh <;> exact ⟨⟨rfl, rfl, rfl⟩, rfl, rfl⟩
  | _ => exact ⟨⟨rfl, rfl, rfl⟩, rfl, rfl⟩

theorem serve_final {i : Inputs} (hcareful : logoutAccepted s l i = true)
    (hs : serve P s l i = some (s', l')) : Final s l (.serve i) s' := by
  obtain ⟨out, hcall, hadvanced⟩ := serve_eq_some hs
  obtain ⟨hquiet, hsame, hdb⟩ := advance_quiet { s with db := (handle P (out.request i) s.db).1 } l
    (.answered (some (handle P (out.request i) s.db).2))
  rw [hadvanced] at hquiet hsame hdb
  refine ⟨fun _ => hquiet, fun i' access hi haccess => ?_, Or.inl hsame⟩
  obtain rfl := Move.serve.inj hi
  obtain rfl : out = .logout access := by simpa using hcall.symm.trans haccess
  unfold logoutAccepted at hcareful
  rw [hcall] at hcareful
  rw [hdb]
  exact revoked_of_accepted hcareful

/-- A step that is not the server's, and completes no sign-out. -/
theorem final_of_quiet {m : Move} (hm : ∀ i, m ≠ .serve i)
    (hquiet : stale s l = true → Quiet s s') (hsame : s'.signedOut = s.signedOut) :
    Final s l m s' :=
  ⟨hquiet, fun i _ hi => absurd hi (hm i), Or.inl hsame⟩

/-- A handler that belongs to no refresh. -/
theorem final_of_fresh {m : Move} (hm : ∀ i, m ≠ .serve i) (hfresh : began s l = none)
    (hsame : s'.signedOut = s.signedOut) : Final s l m s' := by
  refine final_of_quiet hm (fun hstale => ?_) hsame
  unfold stale at hstale
  rw [hfresh] at hstale
  exact absurd hstale Bool.false_ne_true

/-! ## Steps of the Windows client -/

theorem windows_startScheduler_quiet (s : App) :
    (startsNothing s = true → Quiet s (Windows.startScheduler s)) ∧
      (Windows.startScheduler s).signedOut = s.signedOut := by
  unfold Windows.startScheduler startsNothing
  by_cases hdisposed : s.scheduler.disposed = true
  · rw [if_pos hdisposed]
    exact ⟨fun _ => ⟨rfl, rfl, rfl⟩, rfl⟩
  · rw [if_neg hdisposed]
    cases hsession : s.session with
    | none => exact ⟨fun _ => ⟨hsession.symm, rfl, rfl⟩, rfl⟩
    | some t =>
      refine ⟨fun h => ?_, rfl⟩
      simp [hdisposed] at h

theorem windows_rescheduled_quiet (s : App) :
    (startsNothing s = true → Quiet s (Windows.rescheduled s).1) ∧
      (Windows.rescheduled s).1.signedOut = s.signedOut :=
  windows_startScheduler_quiet { s with refresh := none }

theorem windows_refreshed_quiet (rf : Refresh) {back : Option String} (saved : Bool)
    {answer : Option Answer} (hcall : awaited s (.refreshing back) = some (.answered answer)) :
    (answersNothing s (.refreshing back) = true →
      Quiet s (Windows.refreshed s rf saved answer).1) ∧
      (Windows.refreshed s rf saved answer).1.signedOut = s.signedOut := by
  unfold answersNothing Windows.refreshed
  rw [hcall]
  simp only
  cases hout : outcome answer with
  | tokens t =>
    refine ⟨fun h => absurd h Bool.false_ne_true, ?_⟩
    cases saved with
    | true => rfl
    | false => exact (windows_rescheduled_quiet { s with session := some t }).2
  | rejected =>
    simp only
    split <;> exact ⟨fun _ => ⟨rfl, rfl, rfl⟩, rfl⟩
  | failed => exact windows_rescheduled_quiet s

theorem windows_receive_final {saved : Bool}
    (hcareful : stale s l = true → answersNothing s l = true)
    (hs : Windows.receive s l saved = some (s', l')) : Final s l (.receive saved) s' := by
  unfold Windows.receive at hs
  split at hs
  · next back answer hcall =>
    obtain ⟨rf, hrf, heq⟩ := Option.map_eq_some_iff.mp hs
    obtain ⟨hquiet, hsame⟩ := windows_refreshed_quiet rf saved hcall
    rw [heq] at hquiet hsame
    exact final_of_quiet (fun i => by simp) (fun hstale => hquiet (hcareful hstale)) hsame
  · next began generation call answer hcall =>
    obtain ⟨rfl, -⟩ := Prod.ext_iff.mp (Option.some.inj hs)
    refine final_of_quiet (fun i => by simp) (fun hstale => ?_) ?_
    · have hnothing := hcareful hstale
      unfold answersNothing at hnothing
      rw [hcall] at hnothing
      simp only at hnothing
      unfold Windows.sessionRestored
      cases hout : outcome answer with
      | tokens t =>
        rw [hout] at hnothing
        exact absurd hnothing Bool.false_ne_true
      | rejected =>
        rw [hout] at hnothing
        exact ⟨rfl, (Option.isNone_iff_eq_none.mp hnothing).symm, rfl⟩
      | failed => exact ⟨rfl, rfl, rfl⟩
    · unfold Windows.sessionRestored
      cases outcome answer with
      | tokens t => cases saved <;> rfl
      | rejected => rfl
      | failed => rfl
  · next generation call answer hcall =>
    obtain ⟨rfl, -⟩ := Prod.ext_iff.mp (Option.some.inj hs)
    refine final_of_fresh (fun i => by simp) rfl ?_
    unfold Windows.loggedIn
    cases outcome answer with
    | tokens t => cases saved <;> rfl
    | rejected => rfl
    | failed => rfl
  · next began call answer hcall =>
    obtain ⟨rfl, -⟩ := Prod.mk.inj (Option.some.inj hs)
    obtain rfl : call = .answered answer := by simpa [awaited] using hcall
    refine ⟨fun hstale => ?_, fun i _ hi => absurd hi (by simp), Or.inr (Or.inr ⟨_, _, rfl⟩)⟩
    exact absurd hstale Bool.false_ne_true
  · exact absurd hs.symm (Option.some_ne_none _)

/-- One step of the delivery, or of `FailClosedSessionAsync`. -/
theorem windows_delivery_final {back : Option String} {m : Move} (hm : ∀ i, m ≠ .serve i)
    (hcareful : windowsCareful s (.refreshing back) m = true)
    (hs : Windows.delivery s m = some (s', l')) : Final s (.refreshing back) m s' := by
  unfold Windows.delivery at hs
  split at hs
  · next rf hrf =>
    obtain ⟨began, generation, progress⟩ := rf
    split at hs
    · next token pending failed id store answer hprogress =>
      split at hs
      · obtain ⟨rfl, -⟩ := Prod.mk.inj (Option.some.inj hs)
        exact final_of_quiet hm (fun _ => by cases answer <;> exact ⟨rfl, rfl, rfl⟩)
          (by cases answer <;> rfl)
      · exact absurd hs.symm (Option.some_ne_none _)
    · next token store rest thrown hprogress =>
      obtain ⟨rfl, -⟩ := Prod.ext_iff.mp (Option.some.inj hs)
      obtain ⟨hquiet, hsame⟩ := windows_rescheduled_quiet
        { s with agents := s.agents.filter fun a => a.store ≠ store }
      unfold Windows.closeFailed
      simp only
      split
      · refine final_of_quiet hm (fun hstale => hquiet ?_) hsame
        have hnothing : startsNothing s = true := by simpa [windowsCareful, hstale] using hcareful
        exact hnothing
      · exact final_of_quiet hm (fun _ => ⟨rfl, rfl, rfl⟩) rfl
    · next token thrown hprogress =>
      obtain ⟨rfl, -⟩ := Prod.ext_iff.mp (Option.some.inj hs)
      obtain ⟨hquiet, hsame⟩ := windows_rescheduled_quiet s
      refine final_of_quiet hm (fun hstale => hquiet ?_) hsame
      obtain rfl : progress = .delivering token [] [] := hprogress
      simpa [windowsCareful, hstale, endsNothing, hrf] using hcareful
    · next thrown hprogress =>
      obtain rfl : progress = .failingClosed := hprogress
      split at hs
      · obtain ⟨rfl, -⟩ := Prod.mk.inj (Option.some.inj hs)
        exact final_of_quiet hm (fun _ => ⟨rfl, rfl, rfl⟩) rfl
      · next hthrown =>
        split at hs
        · obtain ⟨rfl, -⟩ := Prod.ext_iff.mp (Option.some.inj hs)
          refine final_of_quiet hm (fun hstale => ?_) rfl
          have hnone : s.session = none ∧ s.vault = none := by
            simpa [windowsCareful, hstale, endsNothing, hrf, hthrown] using hcareful
          exact ⟨hnone.1.symm, hnone.2.symm, rfl⟩
        · exact absurd hs.symm (Option.some_ne_none _)
    · exact absurd hs.symm (Option.some_ne_none _)
  · exact absurd hs.symm (Option.some_ne_none _)

theorem windows_refreshAccessToken_same (s : App) :
    (Windows.refreshAccessToken s).1.signedOut = s.signedOut := by
  unfold Windows.refreshAccessToken
  split
  · split
    · rfl
    · exact (windows_startScheduler_quiet _).2
  · rfl

/-- **One careful step of the Windows client.** -/
theorem windows_final {r : ℕ} {m : Move} (hcareful : windowsCareful s l m = true)
    (hs : Windows.act P r s l m = some (s', l')) : Final s l m s' := by
  unfold Windows.act at hs
  split at hs
  · obtain ⟨rfl, -⟩ := Prod.ext_iff.mp (Option.some.inj hs)
    refine final_of_fresh (fun i => by simp) rfl ?_
    unfold Windows.restoreSession
    split <;> rfl
  · obtain ⟨rfl, -⟩ := Prod.mk.inj (Option.some.inj hs)
    exact final_of_fresh (fun i => by simp) rfl rfl
  · unfold Windows.logoutClick at hs
    split at hs
    · exact absurd hs.symm (Option.some_ne_none _)
    · obtain ⟨rfl, -⟩ := Prod.mk.inj (Option.some.inj hs)
      exact final_of_fresh (fun i => by simp) rfl rfl
  · next thrown began =>
    split at hs
    · obtain ⟨rfl, -⟩ := Prod.ext_iff.mp (Option.some.inj hs)
      refine ⟨fun hstale => absurd hstale Bool.false_ne_true, fun i _ hi => absurd hi (by simp), ?_⟩
      unfold Windows.logout
      cases hsession : s.session with
      | some t => exact Or.inl rfl
      | none => exact Or.inr (Or.inl rfl)
    · exact absurd hs.symm (Option.some_ne_none _)
  · next store =>
    obtain ⟨rfl, -⟩ := Prod.ext_iff.mp (Option.some.inj hs)
    refine final_of_fresh (fun i => by simp) rfl ?_
    unfold Windows.launch
    split
    · split <;> rfl
    · rfl
  · obtain ⟨rfl, -⟩ := Prod.ext_iff.mp (Option.some.inj hs)
    exact final_of_fresh (fun i => by simp) rfl (spawn_plain r s _ _).1.signedOut
  · obtain ⟨rfl, -⟩ := Prod.ext_iff.mp (Option.some.inj hs)
    exact final_of_fresh (fun i => by simp) rfl (windows_refreshAccessToken_same s)
  · obtain ⟨rfl, -⟩ := Prod.mk.inj (Option.some.inj hs)
    exact final_of_fresh (fun i => by simp) rfl rfl
  · obtain ⟨rfl, -⟩ := Prod.mk.inj (Option.some.inj hs)
    exact final_of_fresh (fun i => by simp) rfl rfl
  · next restored generation =>
    obtain ⟨rfl, -⟩ := Prod.mk.inj (Option.some.inj hs)
    obtain ⟨hquiet, hsame⟩ := windows_startScheduler_quiet s
    refine final_of_quiet (fun i => by simp) (fun hstale => hquiet ?_) hsame
    simpa [windowsCareful, hstale] using hcareful
  · exact windows_delivery_final (fun i => by simp) hcareful hs
  · exact windows_delivery_final (fun i => by simp) hcareful hs
  · exact windows_delivery_final (fun i => by simp) hcareful hs
  · refine windows_receive_final (fun hstale => ?_) hs
    simpa [windowsCareful, hstale] using hcareful
  · exact serve_final hcareful hs
  · obtain ⟨call, hcall, heq⟩ := Option.map_eq_some_iff.mp hs
    obtain ⟨hquiet, hsame, -⟩ := advance_quiet s l (.answered none)
    rw [heq] at hquiet hsame
    exact final_of_quiet (fun i => by simp) (fun _ => hquiet) hsame
  · obtain ⟨rfl, -⟩ := Prod.mk.inj (Option.some.inj hs)
    exact final_of_quiet (fun i => by simp) (fun _ => ⟨rfl, rfl, rfl⟩) rfl
  · obtain ⟨rfl, -⟩ := Prod.mk.inj (Option.some.inj hs)
    exact final_of_quiet (fun i => by simp) (fun _ => ⟨rfl, rfl, rfl⟩) rfl
  · obtain ⟨rfl, -⟩ := Prod.mk.inj (Option.some.inj hs)
    exact final_of_quiet (fun i => by simp) (fun _ => ⟨rfl, rfl, rfl⟩) rfl
  · exact absurd hs.symm (Option.some_ne_none _)

/-! ## Steps of the macOS client -/

variable {cut : ℕ}

theorem mac_receive_final (h : Dated cut s) (hl : Stamps cut s l) {saved : Bool}
    (hs : Mac.receive s l saved = some (s', l')) : Final s l (.receive saved) s' := by
  unfold Mac.receive at hs
  split at hs
  · next back answer hcall =>
    obtain ⟨rf, hrf, heq⟩ := Option.map_eq_some_iff.mp hs
    have hsame := (mac_refreshed_plain hrf back saved answer).1.signedOut
    rw [heq] at hsame
    refine final_of_quiet (fun i => by simp) (fun hstale => ?_) hsame
    have hbegan : rf.began < s.signedOut := by simpa [stale, began, hrf] using hstale
    have hother := (h.refresh rf hrf).mismatch h hbegan
    unfold Mac.refreshed at heq
    rw [if_neg fun hcurrent => hother hcurrent.1] at heq
    obtain ⟨rfl, -⟩ := Prod.mk.inj heq
    exact ⟨rfl, rfl, rfl⟩
  · next began generation call answer hcall =>
    have hsame := (mac_sessionRefreshed_steady s began generation saved answer).1.signedOut
    rw [Option.some.inj hs] at hsame
    refine final_of_quiet (fun i => by simp) (fun hstale => ?_) hsame
    have hbegan : began < s.signedOut := of_decide_eq_true hstale
    have hother := Stamped.mismatch hl h hbegan
    unfold Mac.sessionRefreshed at hs
    rw [if_neg hother] at hs
    obtain ⟨rfl, -⟩ := Prod.mk.inj (Option.some.inj hs)
    exact ⟨rfl, rfl, rfl⟩
  · next generation call answer hcall =>
    have hsame := (mac_loggedIn_plain s generation saved answer).1.signedOut
    rw [Option.some.inj hs] at hsame
    exact final_of_fresh (fun i => by simp) rfl hsame
  · next began call answer hcall =>
    obtain rfl : call = .answered answer := by simpa [awaited] using hcall
    refine ⟨fun hstale => ?_, fun i _ hi => absurd hi (by simp), Or.inr (Or.inr ⟨_, _, rfl⟩)⟩
    exact absurd hstale Bool.false_ne_true
  · exact absurd hs.symm (Option.some_ne_none _)

/-- The end of a delivery starts the scheduler only for somebody who is signed in. -/
theorem mac_delivery_final {back : Option String} {m : Move} (hm : ∀ i, m ≠ .serve i)
    (hcareful : ∀ thrown, m = .finish thrown → stale s (.refreshing back) = true → s.session = none)
    (hs : Mac.delivery s back m = some (s', l')) : Final s (.refreshing back) m s' := by
  refine final_of_quiet hm (fun hstale => ?_) (mac_delivery_plain hs).1.signedOut
  unfold Mac.delivery at hs
  split at hs
  · next rf hrf =>
    split at hs
    · next token pending failed id store answer hprogress =>
      split at hs
      · obtain ⟨rfl, -⟩ := Prod.mk.inj (Option.some.inj hs)
        cases answer <;> exact ⟨rfl, rfl, rfl⟩
      · exact absurd hs.symm (Option.some_ne_none _)
    · next token failed thrown hprogress =>
      obtain ⟨rfl, -⟩ := Prod.mk.inj (Option.some.inj hs)
      have hnone := hcareful thrown rfl hstale
      refine ⟨rfl, rfl, ?_⟩
      simp [Mac.startScheduler, hnone]
    · exact absurd hs.symm (Option.some_ne_none _)
  · exact absurd hs.symm (Option.some_ne_none _)

/-- **One careful step of the macOS client.** -/
theorem mac_final (h : Dated cut s) (hl : Stamps cut s l) {r : ℕ} {m : Move}
    (hcareful : macCareful s l m = true) (hs : Mac.act P r s l m = some (s', l')) :
    Final s l m s' := by
  have hfresh : ∀ {p : App × Task}, some p = some (s', l') → (∀ i, m ≠ .serve i) →
      began s l = none → p.1.signedOut = s.signedOut → Final s l m s' := by
    intro p heq hm hbegan hsame
    rw [Option.some.inj heq] at hsame
    exact final_of_fresh hm hbegan hsame
  have hquiet : ∀ {s₂ : App}, some (s₂, l) = some (s', l') → (∀ i, m ≠ .serve i) → Quiet s s₂ →
      s₂.signedOut = s.signedOut → Final s l m s' := by
    intro s₂ heq hm hquiet hsame
    obtain ⟨rfl, -⟩ := Prod.mk.inj (Option.some.inj heq)
    exact final_of_quiet hm (fun _ => hquiet) hsame
  unfold Mac.act at hs
  split at hs
  · refine hfresh hs (fun i => by simp) rfl ?_
    unfold Mac.restoreSession
    split <;> rfl
  · exact hfresh hs (fun i => by simp) rfl rfl
  · refine ⟨fun hstale => absurd hstale Bool.false_ne_true, fun i _ hi => absurd hi (by simp), ?_⟩
    cases hsession : s.session with
    | none => exact Or.inr (Or.inl rfl)
    | some t =>
      refine Or.inl ?_
      simp only [Mac.signOut, hsession, Option.some.injEq] at hs
      obtain ⟨rfl, -⟩ := Prod.mk.inj hs
      rfl
  · next store => exact hfresh hs (fun i => by simp) rfl (mac_launch_plain s store).1.1.signedOut
  · exact hfresh hs (fun i => by simp) rfl (mac_refreshAccessToken_same s none)
  · next answer store token retried =>
    refine hfresh hs (fun i => by simp) rfl ?_
    cases answer with
    | ok => exact (spawn_plain r s store token).1.signedOut
    | rejected =>
      cases retried with
      | true => rfl
      | false => exact mac_refreshAccessToken_same s (some store)
    | failed => rfl
  · next store => exact hfresh hs (fun i => by simp) rfl (mac_launch_plain s store).2.1.signedOut
  · exact hfresh hs (fun i => by simp) rfl rfl
  · exact hfresh hs (fun i => by simp) rfl rfl
  · next restored generation =>
    have hsame := (mac_listed_plain s generation).1.signedOut
    rw [Option.some.inj hs] at hsame
    refine final_of_quiet (fun i => by simp) (fun hstale => ?_) hsame
    cases restored with
    | none => exact absurd hstale Bool.false_ne_true
    | some began =>
      have hother := Stamped.mismatch hl h (of_decide_eq_true hstale)
      unfold Mac.listed at hs
      rw [if_neg fun hcurrent => hother hcurrent.1] at hs
      obtain ⟨rfl, -⟩ := Prod.mk.inj (Option.some.inj hs)
      exact ⟨rfl, rfl, rfl⟩
  · exact mac_delivery_final (fun i => by simp) (fun thrown hm => absurd hm (by simp)) hs
  · refine mac_delivery_final (fun i => by simp) (fun thrown hm hstale => ?_) hs
    simpa [macCareful, hstale] using hcareful
  · exact mac_receive_final h hl hs
  · exact serve_final hcareful hs
  · obtain ⟨call, hcall, heq⟩ := Option.map_eq_some_iff.mp hs
    obtain ⟨hadvanced, hsame, -⟩ := advance_quiet s l (.answered none)
    rw [heq] at hadvanced hsame
    exact final_of_quiet (fun i => by simp) (fun _ => hadvanced) hsame
  · exact hquiet hs (fun i => by simp) ⟨rfl, rfl, rfl⟩ rfl
  · exact hquiet hs (fun i => by simp) ⟨rfl, rfl, rfl⟩ rfl
  · exact hquiet hs (fun i => by simp) ⟨rfl, rfl, rfl⟩ rfl
  · exact hquiet hs (fun i => by simp) ⟨rfl, rfl, rfl⟩ rfl
  · exact hquiet hs (fun i => by simp) ⟨rfl, rfl, rfl⟩ rfl
  · exact absurd hs.symm (Option.some_ne_none _)

/-! ## Runs -/

/-- What the step leaves of a sign-out. -/
def LeavesFinal (act : ℕ → App → Task → Move → Option (App × Task)) (c : Crew App Task)
    (e : ℕ × Move) : Prop :=
  ∀ c', step act c e = some c' → Final c.shared (c.loc e.1) e.2 c'.shared

/-- The dates of a client and all its handlers. -/
def AllDated (c : Crew App Task) : Prop :=
  ∃ cut, Dated cut c.shared ∧ ∀ r, Stamps cut c.shared (c.loc r)

theorem allDated_opened (vault : Option RefreshToken) (db : Db) : AllDated (opened vault db) :=
  ⟨0, ⟨le_rfl, le_rfl, fun _ hrf => absurd hrf.symm (Option.some_ne_none _)⟩, fun _ => trivial⟩

theorem allDated_step {c c' : Crew App Task} {e : ℕ × Move} (h : AllDated c)
    (hs : step (Mac.act P) c e = some c') : AllDated c' := by
  obtain ⟨cut, hdated, hstamps⟩ := h
  obtain ⟨s', l', hact, rfl⟩ := step_eq_some.mp hs
  obtain ⟨cut', hdated', hl', hothers⟩ := mac_redated hdated (hstamps e.1) hact
  refine ⟨cut', hdated', fun q => ?_⟩
  by_cases hq : q = e.1
  · subst hq
    simpa using hl'
  · simpa [Function.update_of_ne hq] using hothers _ (hstamps q)

variable (P)

/-- **A sign-out is final**, on both clients, in every interleaving whose steps take care. -/
theorem final_of_careful (vault : Option RefreshToken) (db : Db) (acts : List (ℕ × Move)) :
    (Along (step (Mac.act P)) (fun c e => macCareful c.shared (c.loc e.1) e.2 = true)
        (opened vault db) acts →
      Along (step (Mac.act P)) (LeavesFinal (Mac.act P)) (opened vault db) acts) ∧
    (Along (step (Windows.act P)) (fun c e => windowsCareful c.shared (c.loc e.1) e.2 = true)
        (opened vault db) acts →
      Along (step (Windows.act P)) (LeavesFinal (Windows.act P)) (opened vault db) acts) := by
  constructor
  · refine along_of_inv (I := AllDated) (fun c e c' hI _ hs => allDated_step hI hs) ?_ acts _
      (allDated_opened vault db)
    rintro c e ⟨cut, hdated, hstamps⟩ hC c' hs
    obtain ⟨s', l', hact, rfl⟩ := step_eq_some.mp hs
    exact mac_final hdated (hstamps e.1) hC hact
  · refine along_of_inv (I := fun _ => True) (fun _ _ _ _ _ _ => trivial) ?_ acts _ trivial
    intro c e _ hC c' hs
    obtain ⟨s', l', hact, rfl⟩ := step_eq_some.mp hs
    exact windows_final hC hact

/-- The server gets the logout before the refresh that began earlier, and rejects the refresh. -/
def sampleSignOut : List (ℕ × Move) :=
  [(2, .serve (sampleInputs (minutes 10) "")), (2, .receive true),
    (1, .serve (sampleInputs (minutes 10) "secret-2")), (1, .receive true)]

def sampleMac : List (ℕ × Move) :=
  sampleSignIn ++ [(1, .refresh), (2, .signOut)] ++ sampleSignOut

def sampleWindows : List (ℕ × Move) :=
  sampleSignIn ++ [(1, .refresh), (2, .signOut), (2, .finish false)] ++ sampleSignOut ++
    [(1, .finish false)]

theorem final_of_careful_sample :
    ((run (step (Mac.act .sample)) (opened none sampleDb) sampleMac).isSome = true ∧
      Along (step (Mac.act .sample)) (LeavesFinal (Mac.act .sample)) (opened none sampleDb)
        sampleMac) ∧
    (run (step (Windows.act .sample)) (opened none sampleDb) sampleWindows).isSome = true ∧
      Along (step (Windows.act .sample)) (LeavesFinal (Windows.act .sample)) (opened none sampleDb)
        sampleWindows :=
  ⟨⟨by decide +kernel, (final_of_careful .sample none sampleDb sampleMac).1 (by decide +kernel)⟩,
    by decide +kernel, (final_of_careful .sample none sampleDb sampleWindows).2 (by decide +kernel)⟩

/-- The refresh has been served when the logout is. -/
def superseded : List (ℕ × Move) :=
  [(2, .serve (sampleInputs (minutes 10) "")), (2, .receive true)]

/-- The user signs in again while a delivery of the first session is under way. -/
def signInAgain : List (ℕ × Move) :=
  [(1, .launch "7"), (1, .preflight .ok), (1, .register), (2, .refresh),
    (2, .serve (sampleInputs (minutes 10) "secret-2")), (2, .receive true), (3, .signOut),
    (3, .serve (sampleInputs (minutes 10) "")), (3, .receive true), (4, .login sampleBody),
    (4, .serve (sampleInputs (minutes 11) "secret-3")), (4, .receive true), (4, .listed),
    (2, .deliver 1 "7" (.failed false))]

/-- The sign-out is over, nobody is signed in, and no device session is revoked. -/
def unrevoked (c : Crew App Task) : Bool :=
  c.loc 2 = .ended && c.shared.session.isNone &&
    c.shared.db.sessions.rows.any fun item => item.revokedAt.isNone

/-- The refresh is served, and then the user signs out. -/
def supersededMac : List (ℕ × Move) :=
  sampleSignIn ++ [(1, .refresh), (1, .serve (sampleInputs (minutes 10) "secret-2")),
    (2, .signOut)] ++ superseded

def supersededWindows : List (ℕ × Move) :=
  sampleSignIn ++ [(1, .refresh), (1, .serve (sampleInputs (minutes 10) "secret-2")),
    (2, .signOut), (2, .finish false)] ++ superseded

/-- **A sign-out is not final**: the logout carries a token that the refresh in flight has replaced,
so that the session stays as it is; on Windows the answer to that refresh signs the user in again;
on macOS the end of a delivery from before the sign-out starts the scheduler of a new session. -/
theorem refresh_outlives_sign_out :
    (∃ c, run (step (Mac.act .sample)) (opened none sampleDb) supersededMac = some c ∧
      unrevoked c = true) ∧
    (∃ c c', run (step (Mac.act .sample)) (opened none sampleDb) (sampleSignIn ++ signInAgain) =
        some c ∧ step (Mac.act .sample) c (2, .finish false) = some c' ∧
      stale c.shared (c.loc 2) = true ∧ c'.shared.scheduler.starts ≠ c.shared.scheduler.starts) ∧
    ∃ c c', run (step (Windows.act .sample)) (opened none sampleDb) supersededWindows = some c ∧
      step (Windows.act .sample) c (1, .receive true) = some c' ∧
      unrevoked c = true ∧ stale c.shared (c.loc 1) = true ∧ c'.shared.session.isSome = true := by
  have hmac : ((run (step (Mac.act .sample)) (opened none sampleDb) supersededMac).any
      unrevoked) = true := by decide +kernel
  have hagain : ((run (step (Mac.act .sample)) (opened none sampleDb)
      (sampleSignIn ++ signInAgain)).any fun c =>
        (step (Mac.act .sample) c (2, .finish false)).any fun c' => stale c.shared (c.loc 2) &&
          c'.shared.scheduler.starts ≠ c.shared.scheduler.starts) = true := by decide +kernel
  have hwindows : ((run (step (Windows.act .sample)) (opened none sampleDb)
      supersededWindows).any fun c => (step (Windows.act .sample) c (1, .receive true)).any fun c' =>
        unrevoked c && (stale c.shared (c.loc 1) && c'.shared.session.isSome)) = true := by
    decide +kernel
  obtain ⟨c, hc, hunrevoked⟩ := (Option.any_eq_true _ _).mp hmac
  obtain ⟨d, hd, hstep⟩ := (Option.any_eq_true _ _).mp hagain
  obtain ⟨d', hd', hends⟩ := (Option.any_eq_true _ _).mp hstep
  obtain ⟨e, he, hstep⟩ := (Option.any_eq_true _ _).mp hwindows
  obtain ⟨e', he', hends'⟩ := (Option.any_eq_true _ _).mp hstep
  simp only [Bool.and_eq_true, decide_eq_true_eq] at hends hends'
  exact ⟨⟨c, hc, hunrevoked⟩, ⟨d, d', hd, hd', hends⟩, e, e', he, he', hends'⟩

end IdenGrid.Client.SignOut
