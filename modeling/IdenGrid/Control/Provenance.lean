import IdenGrid.Control.Origins

/-! # The history of a registration

Every row of `node_registration_requests` leads back to commits of the log (`Trail`): to its
creation, and from there to its proof and its approval as far as it has got. A registration reaches
each of these stages once (`milestone`), whatever else goes on in between; `recorded_of_run`
says so for every interleaving of all requests. -/

namespace IdenGrid.Control.Provenance

open IdenGrid.Lib.Run IdenGrid.Lib.Store IdenGrid.Lib.WriteBack IdenGrid.Lib.Orm
open IdenGrid.Lib.Requests IdenGrid.Lib.History
open IdenGrid.Control.Rows IdenGrid.Control.Nodes
open IdenGrid.Control.Monitor hiding Db
open IdenGrid.Control.Registry IdenGrid.Control.NodeAdmin IdenGrid.Control.Enrollments
open IdenGrid.Control.Registrations IdenGrid.Control.Handlers IdenGrid.Control.Registrar
open IdenGrid.Control.Origins

/-! ## Stages -/

/-- A commit of this plan has gone through. -/
def Occurs (plan : Plan) (log : List Event) : Prop := ∃ c, .committed c ∈ log ∧ c.plan = plan

theorem Occurs.mono {plan : Plan} {log log' : List Event} (h : Occurs plan log)
    (hsub : log ⊆ log') : Occurs plan log' := by
  obtain ⟨c, hc, hplan⟩ := h
  exact ⟨c, hsub hc, hplan⟩

/-- The registration that a plan takes to a stage, and the stage: 0 is the creation, 1 the proof,
2 the approval and 3 the claim. -/
def stageOf : Plan → Option (String × ℕ)
  | .register g => some (g.item.id, 0)
  | .prove p => some (p.item.id, 1)
  | .accept a => some (a.item.id, 2)
  | .claimRegistration k => some (k.item.id, 3)
  | _ => none

def milestone : Event → Option (String × ℕ)
  | .committed c => stageOf c.plan
  | _ => none

/-- The stage of a row. -/
def level : RegistrationStatus → ℕ
  | .pendingProof => 0
  | .pendingApproval => 1
  | .approved => 2
  | _ => 3

theorem level_le (s : RegistrationStatus) : level s ≤ 3 := by cases s <;> decide

/-- Plans that have taken one registration to one stage are the same. -/
theorem Occurs.eq {plan plan' : Plan} {log : List Event} (h : Distinct milestone log)
    (h1 : Occurs plan log) (h2 : Occurs plan' log) {key : String × ℕ}
    (hs1 : stageOf plan = some key) (hs2 : stageOf plan' = some key) : plan = plan' := by
  obtain ⟨c, hc, rfl⟩ := h1
  obtain ⟨c', hc', rfl⟩ := h2
  have := h.eq hc hc' hs1 hs2
  rw [(Event.committed.inj this)]

/-! ## The trail of a row -/

/-- What a row keeps of its creation. -/
structure Kept (g r : RegistrationRow) : Prop where
  id : r.id = g.id
  publicKeyPem : r.publicKeyPem = g.publicKeyPem
  machineFingerprint : r.machineFingerprint = g.machineFingerprint
  actualPublicIpv4 : r.actualPublicIpv4 = g.actualPublicIpv4

variable (P : Primitives) in
/-- What a row leads back to beyond its creation. -/
def Steps (log : List Event) (g r : RegistrationRow) : Prop :=
  match r.status with
  | .pendingProof => r.registrationTokenHash = g.registrationTokenHash ∧ r.edgeNodeId = none ∧
      r.challengeHash = g.challengeHash ∧ r.challengeExpiresAt = g.challengeExpiresAt
  | .pendingApproval => r.registrationTokenHash = g.registrationTokenHash ∧ r.edgeNodeId = none ∧
      ∃ p, Occurs (.prove p) log ∧ p.item.id = r.id ∧ r.challengeExpiresAt = p.now + days 1
  | .approved => r.registrationTokenHash = g.registrationTokenHash ∧
      ∃ a, Occurs (.accept a) log ∧ a.item.id = r.id ∧
        (r.edgeNodeId = some a.inputs.nodeId ∨ r.edgeNodeId = none) ∧
        r.challengeHash = some (P.enrollmentHash (registrationClaimChallenge P a.item)) ∧
        r.challengeExpiresAt = a.inputs.now + minutes 15
  | _ => True

variable (P : Primitives) in
/-- The commits that a row leads back to. -/
def Trail (log : List Event) (r : RegistrationRow) : Prop :=
  ∃ g, Occurs (.register g) log ∧ Kept g.item r ∧ Steps P log g.item r

variable {P : Primitives} {random : String → Bool}

theorem Trail.mono {log log' : List Event} {r : RegistrationRow} (h : Trail P log r)
    (hsub : log ⊆ log') : Trail P log' r := by
  obtain ⟨g, hg, hkept, hsteps⟩ := h
  refine ⟨g, hg.mono hsub, hkept, ?_⟩
  unfold Steps at hsteps ⊢
  split
  · next hs =>
    rw [hs] at hsteps
    exact hsteps
  · next hs =>
    rw [hs] at hsteps
    obtain ⟨h1, h2, p, hp, h3⟩ := hsteps
    exact ⟨h1, h2, p, hp.mono hsub, h3⟩
  · next hs =>
    rw [hs] at hsteps
    obtain ⟨h1, a, ha, h2⟩ := hsteps
    exact ⟨h1, a, ha.mono hsub, h2⟩
  · trivial

/-- A row whose stage is the last keeps its trail whatever it is like otherwise. -/
theorem Steps.of_level {log : List Event} {g r : RegistrationRow} (h : level r.status = 3) :
    Steps P log g r := by
  unfold Steps
  split <;> first | trivial | (next hs => rw [hs] at h; exact absurd h (by decide))

/-! ## What the write-backs leave of a row -/

/-- A write-back keeps the stage of a row, or takes it to the last one. -/
structure Fades (r r' : RegistrationRow) : Prop where
  kept : Kept r r'
  registrationTokenHash : r'.registrationTokenHash = r.registrationTokenHash
  challengeExpiresAt : r'.challengeExpiresAt = r.challengeExpiresAt
  status : r'.status = r.status ∧ r'.challengeHash = r.challengeHash ∧
    (r'.edgeNodeId = r.edgeNodeId ∨ r'.edgeNodeId = none) ∨ level r'.status = 3

theorem Kept.refl (r : RegistrationRow) : Kept r r := ⟨rfl, rfl, rfl, rfl⟩

theorem Kept.trans {a b c : RegistrationRow} (h : Kept a b) (h' : Kept b c) : Kept a c :=
  ⟨h'.id.trans h.id, h'.publicKeyPem.trans h.publicKeyPem,
    h'.machineFingerprint.trans h.machineFingerprint,
    h'.actualPublicIpv4.trans h.actualPublicIpv4⟩

theorem Kept.serverMessage_eq {r r' : RegistrationRow} (h : Kept r r')
    (purpose challenge : String) :
    serverMessage purpose challenge r' = serverMessage purpose challenge r := by
  rw [serverMessage, h.id, h.actualPublicIpv4, h.machineFingerprint]
  rfl

theorem Fades.refl (r : RegistrationRow) : Fades r r :=
  ⟨.refl r, rfl, rfl, Or.inl ⟨rfl, rfl, Or.inl rfl⟩⟩

theorem Fades.trans {a b c : RegistrationRow} (h : Fades a b) (h' : Fades b c) : Fades a c := by
  refine ⟨h.kept.trans h'.kept, h'.registrationTokenHash.trans h.registrationTokenHash,
    h'.challengeExpiresAt.trans h.challengeExpiresAt, ?_⟩
  rcases h'.status with ⟨hs, hc, hn⟩ | hlast
  swap
  · exact Or.inr hlast
  rcases h.status with ⟨hs', hc', hn'⟩ | hlast
  · refine Or.inl ⟨hs.trans hs', hc.trans hc', ?_⟩
    rcases hn with hn | hn
    · rw [hn]
      exact hn'
    · exact Or.inr hn
  · exact Or.inr (by rw [hs, hlast])

/-- What a handler does to the stage of a loaded row. -/
theorem write_level {req : Request} {a b : RegistrationRow} (h : RegistrationWrite req a b) :
    (a.status = b.status → a.challengeHash = b.challengeHash) ∧
      (a.status ≠ b.status → level b.status = 3) ∧
      (b.edgeNodeId = a.edgeNodeId ∨ b.edgeNodeId = none) := by
  cases h with
  | same => exact ⟨fun _ => rfl, fun h => absurd rfl h, Or.inl rfl⟩
  | expired _ _ now pending =>
    refine ⟨fun hs => ?_, fun _ => rfl, Or.inl rfl⟩
    -- an awaiting row is not expired
    rw [awaiting, hs] at pending
    exact Bool.noConfusion pending
  | reported authorization body now _ linked =>
    refine ⟨fun _ => rfl, fun _ => ?_, Or.inl rfl⟩
    change level body.phase.registrationStatus = 3
    cases body.phase <;> rfl
  | probed inputs _ status now linked =>
    unfold monitorRegistration updateRegistration
    split_ifs
    · exact ⟨fun _ => rfl, fun h => absurd rfl h, Or.inl rfl⟩
    · exact ⟨fun _ => rfl, fun _ => rfl, Or.inl rfl⟩
    · split
      · exact ⟨fun _ => rfl, fun _ => rfl, Or.inl rfl⟩
      · exact ⟨fun _ => rfl, fun h => absurd rfl h, Or.inl rfl⟩
  | detached => exact ⟨fun _ => rfl, fun h => absurd rfl h, Or.inr rfl⟩

/-- **What the write-backs of a commit do to a row.** -/
theorem flush_fades {req : Request} {plan : Plan} (hsound : Sound P req (writes plan))
    (r : RegistrationRow) :
    Fades r (flushAll registrationMapping (writes plan).registrations r) := by
  refine flushAll_rel Fades.refl (fun _ _ _ => Fades.trans) (fun d hd x _ => ?_) r
  obtain ⟨hchallenge, hlast, hnode⟩ := write_level (hsound.registrations d hd)
  refine ⟨⟨rfl, rfl, rfl, rfl⟩, rfl, rfl, ?_⟩
  change col d.1.status d.2.status x.status = x.status ∧
      col d.1.challengeHash d.2.challengeHash x.challengeHash = x.challengeHash ∧
      (col d.1.edgeNodeId d.2.edgeNodeId x.edgeNodeId = x.edgeNodeId ∨
        col d.1.edgeNodeId d.2.edgeNodeId x.edgeNodeId = none) ∨
    level (col d.1.status d.2.status x.status) = 3
  by_cases hs : d.1.status = d.2.status
  · refine Or.inl ⟨by rw [hs, col_same], by rw [hchallenge hs, col_same], ?_⟩
    rcases hnode with hn | hn
    · exact Or.inl (by rw [hn, col_same])
    · rcases col_eq_or d.1.edgeNodeId d.2.edgeNodeId x.edgeNodeId with h | h
      · exact Or.inr (h.trans hn)
      · exact Or.inl h
  · exact Or.inr (by rw [col_of_ne (Ne.symm hs)]; exact hlast hs)

theorem Fades.level_le {r r' : RegistrationRow} (h : Fades r r') :
    level r.status ≤ level r'.status := by
  rcases h.status with ⟨hs, -⟩ | hlast
  · rw [hs]
  · rw [hlast]
    exact Provenance.level_le _

/-- A row that fades keeps its trail. -/
theorem Trail.fade {log : List Event} {r r' : RegistrationRow} (h : Trail P log r)
    (hf : Fades r r') : Trail P log r' := by
  obtain ⟨g, hg, hkept, hsteps⟩ := h
  refine ⟨g, hg, hkept.trans hf.kept, ?_⟩
  rcases hf.status with ⟨hs, hc, hn⟩ | hlast
  swap
  · exact .of_level hlast
  have hnone : r.edgeNodeId = none → r'.edgeNodeId = none := fun hr =>
    hn.elim (fun h => h.trans hr) id
  unfold Steps at hsteps ⊢
  rw [hs]
  split
  · next hr =>
    rw [hr] at hsteps
    obtain ⟨h1, h2, h3, h4⟩ := hsteps
    exact ⟨hf.registrationTokenHash.trans h1, hnone h2, hc.trans h3, hf.challengeExpiresAt.trans h4⟩
  · next hr =>
    rw [hr] at hsteps
    obtain ⟨h1, h2, p, hp, h3, h4⟩ := hsteps
    exact ⟨hf.registrationTokenHash.trans h1, hnone h2, p, hp, h3.trans hf.kept.id.symm,
      hf.challengeExpiresAt.trans h4⟩
  · next hr =>
    rw [hr] at hsteps
    obtain ⟨h1, a, ha, h2, h3, h4, h5⟩ := hsteps
    refine ⟨hf.registrationTokenHash.trans h1, a, ha, h2.trans hf.kept.id.symm, ?_, hc.trans h4,
      hf.challengeExpiresAt.trans h5⟩
    rcases hn with hn | hn
    · rw [hn]
      exact h3
    · exact Or.inr hn
  · trivial

/-! ## The rows after a commit -/

/-- A commit lowers no stage, and a registration that it takes to a stage was at the one before. -/
theorem move_level {req : Request} {plan : Plan} (hsound : Sound P req (writes plan))
    {r r' : RegistrationRow} (h : RowMove P plan r r') :
    level r.status ≤ level r'.status ∧
      ∀ n, stageOf plan = some (r.id, n) → n = 0 ∨ level r.status < n ∧ n ≤ level r'.status := by
  cases h with
  | flushed other =>
    refine ⟨(flush_fades hsound r).level_le, fun n hn => Or.inl ?_⟩
    cases plan with
    | register g => simpa [stageOf] using (Prod.mk.inj (Option.some.inj hn)).2.symm
    | prove p => exact absurd (congrArg some (Prod.mk.inj (Option.some.inj hn)).1) other
    | accept a => exact absurd (congrArg some (Prod.mk.inj (Option.some.inj hn)).1) other
    | claimRegistration k => exact absurd (congrArg some (Prod.mk.inj (Option.some.inj hn)).1) other
    | _ => exact absurd hn (Option.some_ne_none _).symm
  | proved p own takes =>
    obtain ⟨-, hstatus, -⟩ := Proof.takes_iff.mp takes
    rw [Proof.set, if_pos takes, hstatus, own]
    refine ⟨(by decide : 0 ≤ 1), fun n hn => Or.inr ?_⟩
    rw [← (Prod.mk.inj (Option.some.inj hn)).2]
    exact (by decide : 0 < 1 ∧ 1 ≤ 1)
  | accepted a own takes =>
    obtain ⟨-, hstatus, -⟩ := Acceptance.takes_iff.mp takes
    rw [Acceptance.set, if_pos takes, hstatus, own]
    refine ⟨(by decide : 1 ≤ 2), fun n hn => Or.inr ?_⟩
    rw [← (Prod.mk.inj (Option.some.inj hn)).2]
    exact (by decide : 1 < 2 ∧ 2 ≤ 2)
  | rejected d own takes =>
    obtain ⟨-, hstatus⟩ := Rejection.takes_iff.mp takes
    rw [Rejection.set, if_pos takes, hstatus, own]
    exact ⟨(by decide : 1 ≤ 3), fun n hn => absurd hn (Option.some_ne_none _).symm⟩
  | claimed k own takes =>
    obtain ⟨-, hstatus, -⟩ := RegistrationClaim.takes_iff.mp takes
    rw [RegistrationClaim.set, if_pos takes, hstatus, own]
    refine ⟨(by decide : 2 ≤ 3), fun n hn => Or.inr ?_⟩
    rw [← (Prod.mk.inj (Option.some.inj hn)).2]
    exact (by decide : 2 < 3 ∧ 3 ≤ 3)

/-- **A row under a commit keeps its trail**, which the commit may extend. -/
theorem Trail.move {req : Request} {c : Commit} (hsound : Sound P req (writes c.plan))
    (hbasis : Basis P req (.ready c.plan)) {log : List Event}
    (hloaded : ∀ x, loaded (.ready c.plan) = some x → Trail P log x) {r r' : RegistrationRow}
    (h : Trail P log r) (hmove : RowMove P c.plan r r') : Trail P (.committed c :: log) r' := by
  have hoccurs : Occurs c.plan (.committed c :: log) := ⟨c, List.mem_cons_self, rfl⟩
  cases hmove with
  | flushed other => exact (h.mono (List.subset_cons_self _ _)).fade (flush_fades hsound r)
  | proved p own takes =>
    obtain ⟨hid, hstatus, -⟩ := Proof.takes_iff.mp takes
    obtain ⟨g, hg, hkept, hsteps⟩ := h
    rw [Steps, hstatus] at hsteps
    rw [Proof.set, if_pos takes]
    rw [own] at hoccurs
    exact ⟨g, hg.mono (List.subset_cons_self _ _), ⟨hkept.1, hkept.2, hkept.3, hkept.4⟩,
      hsteps.1, hsteps.2.1, p, hoccurs, hid.symm, rfl⟩
  | accepted a own takes =>
    obtain ⟨hid, hstatus, -⟩ := Acceptance.takes_iff.mp takes
    obtain ⟨g, hg, hkept, hsteps⟩ := h
    rw [Steps, hstatus] at hsteps
    -- the row that the acceptance has loaded has no node yet, so that it writes one
    obtain ⟨g', -, -, hitem⟩ := hloaded a.item (by rw [own]; rfl)
    have hnode : a.item.edgeNodeId = none := by
      have hpending : a.item.status = .pendingApproval := by
        rw [own] at hbasis
        cases hbasis with
        | acceptance _ _ _ pending => exact pending
        | other _ _ nothing => exact Bool.noConfusion nothing
      unfold Steps at hitem
      rw [hpending] at hitem
      exact hitem.2.1
    rw [Acceptance.set, if_pos takes]
    rw [own] at hoccurs
    refine ⟨g, hg.mono (List.subset_cons_self _ _), ⟨hkept.1, hkept.2, hkept.3, hkept.4⟩,
      hsteps.1, a, hoccurs, hid.symm, Or.inl ?_, rfl, rfl⟩
    change col a.item.edgeNodeId (some a.inputs.nodeId) r.edgeNodeId = some a.inputs.nodeId
    rw [hnode]
    exact col_of_ne (Option.some_ne_none _) _
  | rejected d own takes =>
    obtain ⟨g, hg, hkept, -⟩ := h
    rw [Rejection.set, if_pos takes]
    exact ⟨g, hg.mono (List.subset_cons_self _ _), ⟨hkept.1, hkept.2, hkept.3, hkept.4⟩, trivial⟩
  | claimed k own takes =>
    obtain ⟨g, hg, hkept, -⟩ := h
    rw [RegistrationClaim.set, if_pos takes]
    exact ⟨g, hg.mono (List.subset_cons_self _ _), ⟨hkept.1, hkept.2, hkept.3, hkept.4⟩, trivial⟩

/-- A new row leads back to its creation. -/
theorem Trail.registered {c : Commit} {req : Request} (hbasis : Basis P req (.ready c.plan))
    {r : RegistrationRow} (h : registered c.plan = some r) (log : List Event) :
    Trail P (.committed c :: log) r ∧ stageOf c.plan = some (r.id, 0) := by
  have hoccurs : Occurs c.plan (.committed c :: log) := ⟨c, List.mem_cons_self, rfl⟩
  generalize c.plan = plan at hbasis h hoccurs ⊢
  cases plan with
  | register g =>
    obtain rfl := Option.some.inj h
    refine ⟨⟨g, hoccurs, .refl g.item, ?_⟩, rfl⟩
    cases hbasis with
    | registration body i _ made =>
      obtain ⟨pem, fingerprint, -, -, rfl⟩ := createNodeRegistration_eq_ok made
      exact ⟨rfl, rfl, rfl, rfl⟩
    | other _ _ nothing => exact Bool.noConfusion nothing
  | _ => exact absurd h (Option.some_ne_none _).symm

/-- The row that a commit takes to a stage. -/
theorem taken_row {plan : Plan} {t t' : Tables} {answer : Answer}
    (h : plan.commit P t = .ok (t', answer)) {id : String} {n : ℕ}
    (hstage : stageOf plan = some (id, n)) (hn : n ≠ 0) :
    ∃ x ∈ t.registrations.rows, x.id = id ∧ level x.status < n := by
  have htaken := target_taken h
  cases plan with
  | register g => exact absurd (Prod.mk.inj (Option.some.inj hstage)).2.symm hn
  | prove p =>
    obtain ⟨rfl, rfl⟩ := Prod.mk.inj (Option.some.inj hstage)
    obtain ⟨x, hx, htakes⟩ := List.countP_pos_iff.mp (htaken.symm ▸ Nat.one_pos)
    obtain ⟨hid, hstatus, -⟩ := Proof.takes_iff.mp htakes
    exact ⟨x, hx, hid, by rw [hstatus]; decide⟩
  | accept a =>
    obtain ⟨rfl, rfl⟩ := Prod.mk.inj (Option.some.inj hstage)
    obtain ⟨x, hx, htakes⟩ := List.countP_pos_iff.mp (htaken.symm ▸ Nat.one_pos)
    obtain ⟨hid, hstatus, -⟩ := Acceptance.takes_iff.mp htakes
    exact ⟨x, hx, hid, by rw [hstatus]; decide⟩
  | claimRegistration k =>
    obtain ⟨rfl, rfl⟩ := Prod.mk.inj (Option.some.inj hstage)
    obtain ⟨x, hx, htakes⟩ := List.countP_pos_iff.mp (htaken.symm ▸ Nat.one_pos)
    obtain ⟨hid, hstatus, -⟩ := RegistrationClaim.takes_iff.mp htakes
    exact ⟨x, hx, hid, by rw [hstatus]; decide⟩
  | _ => exact absurd hstage (Option.some_ne_none _).symm

/-! ## Every interleaving -/

/-- A registration that has been created. -/
def Known (id : String) (log : List Event) : Prop := ∃ g, Occurs (.register g) log ∧ g.item.id = id

theorem Known.mono {id : String} {log log' : List Event} (h : Known id log) (hsub : log ⊆ log') :
    Known id log' := by
  obtain ⟨g, hg, hid⟩ := h
  exact ⟨g, hg.mono hsub, hid⟩

theorem Trail.known {log : List Event} {r : RegistrationRow} (h : Trail P log r) :
    Known r.id log := by
  obtain ⟨g, hg, hkept, -⟩ := h
  exact ⟨g, hg, hkept.id.symm⟩

/-- The row that a commit has loaded had its trail when the request began. -/
def Tracks (P : Primitives) (c : Commit) (older : List Event) : Prop :=
  ∀ r, loaded (.ready c.plan) = some r → Trail P (asOf c.since older) r

structure Traced (P : Primitives) (s : Office) : Prop where
  rows : ∀ r ∈ s.db.registrations.rows, Trail P s.log r
  milestones : Distinct milestone s.log
  reached : ∀ e ∈ s.log, ∀ id n, milestone e = some (id, n) →
    Known id s.log ∧ ∀ r ∈ s.db.registrations.rows, r.id = id → n ≤ level r.status
  loads : Every (committed (Tracks P)) s.log

/-- The row that a handler has loaded had its trail when the request began. -/
def Trailed (P : Primitives) (s : Office) : Stage → Prop
  | .working _ handler n => ∀ r, loaded handler = some r → Trail P (asOf n s.log) r
  | _ => True

/-- An event that is not a commit. -/
theorem Traced.event {s : Office} (h : Traced P s) {e : Event} (he : committer e = none) :
    Traced P { s with log := e :: s.log } := by
  have hsub : s.log ⊆ e :: s.log := List.subset_cons_self _ _
  have hquiet : milestone e = none ∧ committed (Tracks P) e s.log := by
    cases e with
    | committed c => exact absurd he (Option.some_ne_none _)
    | _ => exact ⟨rfl, trivial⟩
  refine ⟨fun r hr => (h.rows r hr).mono hsub, h.milestones.cons ?_, fun x hx id n hn => ?_,
    hquiet.2, h.loads⟩
  · rw [hquiet.1]
    exact fun b hb => absurd hb (Option.some_ne_none _).symm
  · rcases List.mem_cons.mp hx with rfl | hx
    · rw [hquiet.1] at hn
      exact absurd hn (Option.some_ne_none _).symm
    · obtain ⟨hknown, hlevel⟩ := h.reached x hx id n hn
      exact ⟨hknown.mono hsub, hlevel⟩

/-- A request draws the identity of the registration that it creates. -/
theorem drawn_id {req : Request} {g : RegistrationCreation}
    (h : Basis P req (.ready (.register g))) : g.item.id ∈ draws req := by
  cases h with
  | registration body i _ made =>
    obtain ⟨pem, fingerprint, -, -, rfl⟩ := createNodeRegistration_eq_ok made
    exact List.mem_cons_self
  | other _ _ nothing => exact Bool.noConfusion nothing

/-- Nobody else has created the registration that a request is about to create. -/
theorem unknown_of_register {r : ℕ} {s : Office} {request : Request} {g : RegistrationCreation}
    {n : ℕ} (ho : Orderly P random s.log)
    (he : Enlisted P r s (.working request (.ready (.register g)) n)) : ¬ Known g.item.id s.log := by
  rintro ⟨g', ⟨c, hc, hplan⟩, hid⟩
  have hbasis : Basis P c.request (.ready c.plan) := by
    obtain ⟨older, hs⟩ := exists_suffix hc
    exact (ho.commit_based hs).2.1
  rw [hplan] at hbasis
  refine he.undrawn ho hc (drawn_id he.2.2.1) ?_
  rw [← hid]
  exact drawn_id hbasis

/-- **A commit keeps all trails.** -/
theorem Traced.commit {r : ℕ} {s : Office} {request : Request} {plan : Plan} {n : ℕ} {db : Db}
    {answer : Answer} (ho : Orderly P random s.log) (h : Traced P s)
    (he : Enlisted P r s (.working request (.ready plan) n))
    (ht : Trailed P s (.working request (.ready plan) n))
    (hattempt : plan.attempt P s.db = .ok (db, answer)) :
    Traced P
      { db := db, log := .committed ⟨r, request, plan, n, s.db, db, answer⟩ :: s.log } := by
  have hcommit := Plan.attempt_eq_ok P hattempt
  obtain ⟨-, -, hbasis, hhandles⟩ := id he
  have hsound : Sound P request (writes plan) := by
    cases hhandles with
    | ready _ sound => exact sound
  set c : Commit := ⟨r, request, plan, n, s.db, db, answer⟩ with hc
  have hsub : s.log ⊆ .committed c :: s.log := List.subset_cons_self _ _
  have hloaded : ∀ x, loaded (.ready plan) = some x → Trail P s.log x := fun x hx =>
    (ht x hx).mono (asOf_suffix n s.log).subset
  have hfresh : ∀ id, stageOf plan = some (id, 0) → ¬ Known id s.log := by
    intro id hid
    cases plan with
    | register g =>
      obtain ⟨rfl, -⟩ := Prod.mk.inj (Option.some.inj hid)
      exact unknown_of_register ho he
    | _ => simp [stageOf] at hid
  have hknown : ∀ id n, stageOf plan = some (id, n) → Known id (.committed c :: s.log) := by
    intro id n hid
    have hocc : Occurs plan (.committed c :: s.log) := ⟨c, List.mem_cons_self, rfl⟩
    cases plan with
    | register g => exact ⟨g, hocc, (Prod.mk.inj (Option.some.inj hid)).1⟩
    | prove p =>
      obtain ⟨rfl, -⟩ := Prod.mk.inj (Option.some.inj hid)
      exact (hloaded p.item rfl).known.mono hsub
    | accept a =>
      obtain ⟨rfl, -⟩ := Prod.mk.inj (Option.some.inj hid)
      exact (hloaded a.item rfl).known.mono hsub
    | claimRegistration k =>
      obtain ⟨rfl, -⟩ := Prod.mk.inj (Option.some.inj hid)
      exact (hloaded k.item rfl).known.mono hsub
    | _ => exact absurd hid (Option.some_ne_none _).symm
  refine ⟨fun r' hr' => ?_, h.milestones.cons ?_, fun e hmem id m hm => ?_, ht, h.loads⟩
  · rcases commit_row hcommit hr' with ⟨x, hx, hmove⟩ | ⟨hnew, -⟩
    · exact (h.rows x hx).move (c := c) hsound hbasis hloaded hmove
    · exact (Trail.registered (c := c) hbasis hnew s.log).1
  · rintro ⟨id, m⟩ hm e hmem hm'
    obtain ⟨hknown', hlevel⟩ := h.reached e hmem id m hm'
    rcases Nat.eq_zero_or_pos m with rfl | hpos
    · exact hfresh id hm hknown'
    · obtain ⟨x, hx, hid, hlt⟩ := taken_row hcommit hm hpos.ne'
      exact absurd (hlevel x hx hid) (not_le.mpr hlt)
  · rcases List.mem_cons.mp hmem with rfl | hmem
    · refine ⟨hknown id m hm, fun r' hr' hid => ?_⟩
      rcases commit_row hcommit hr' with ⟨x, hx, hmove⟩ | ⟨hnew, -⟩
      · rw [← hid, hmove.id] at hm
        rcases (move_level hsound hmove).2 m hm with rfl | ⟨-, hle⟩
        · exact Nat.zero_le _
        · exact hle
      · have hstage := (Trail.registered (c := c) hbasis hnew s.log).2
        obtain rfl : 0 = m := by
          have := Option.some.inj (hstage.symm.trans hm)
          exact (Prod.mk.inj this).2
        exact Nat.zero_le _
    · obtain ⟨hknown', hlevel⟩ := h.reached e hmem id m hm
      refine ⟨hknown'.mono hsub, fun r' hr' hid => ?_⟩
      rcases commit_row hcommit hr' with ⟨x, hx, hmove⟩ | ⟨hnew, -⟩
      · exact (hlevel x hx (hmove.id.symm.trans hid)).trans (move_level hsound hmove).1
      · have hstage := (Trail.registered (c := c) hbasis hnew s.log).2
        rw [hid] at hstage
        exact absurd hknown' (hfresh id hstage)

variable {admits : List Event → Request → Bool}

/-- A request keeps all trails, and that of the row that it has loaded. -/
theorem traced_local {r : ℕ} {s s' : Office} {stage stage' : Stage} {move : Move}
    (ho : Orderly P random s.log) (h : Traced P s) (he : Enlisted P r s stage)
    (ht : Trailed P s stage) (ha : Acts P admits r s stage move s' stage') :
    Traced P s' ∧ Trailed P s' stage' := by
  cases ha with
  | began request handler _ read =>
    refine ⟨h.event rfl, fun row hrow => ?_⟩
    rw [asOf_cons le_rfl, asOf_length]
    exact h.rows row ((begin_basis read).2 row hrow)
  | turned => exact ⟨h.event rfl, trivial⟩
  | proceeded request handler next n _ read =>
    refine ⟨h, fun row hrow => ht row ?_⟩
    rw [← (proceed_basis he.2.2.1 read).2]
    exact hrow
  | failed => exact ⟨h, trivial⟩
  | committed request plan n db answer attempt => exact ⟨h.commit ho he ht attempt, trivial⟩
  | signed _ publicKeyPem message =>
    refine ⟨h.event rfl, ?_⟩
    cases stage with
    | working request handler n =>
      intro row hrow
      rw [asOf_cons he.1.1]
      exact ht row hrow
    | _ => trivial

/-- No step of another request changes the trail of a loaded row. -/
theorem trailed_stable {r q : ℕ} {s s' : Office} {stage stage' other : Stage} {move : Move}
    (ha : Acts P admits r s stage move s' stage') (he : Enlisted P q s other)
    (hq : Trailed P s other) : Trailed P s' other := by
  cases other with
  | working request handler n =>
    intro row hrow
    have hsame : asOf n s'.log = asOf n s.log := by
      cases ha <;> first | rfl | exact asOf_cons he.1.1
    rw [hsame]
    exact hq row hrow
  | _ => trivial

/-- What holds of the tables and the log. -/
def Recorded (P : Primitives) (random : String → Bool) (s : Office) : Prop :=
  Orderly P random s.log ∧ Traced P s

/-- What holds of a request. -/
def Follows (P : Primitives) (r : ℕ) (s : Office) (stage : Stage) : Prop :=
  Enlisted P r s stage ∧ Trailed P s stage

theorem follows_local (r : ℕ) (s : Office) (stage : Stage) (move : Move) (s' : Office)
    (stage' : Stage) (hI : Recorded P random s) (hA : Follows P r s stage)
    (ha : Acts P (fresh random) r s stage move s' stage') :
    Recorded P random s' ∧ Follows P r s' stage' := by
  obtain ⟨h1, h2⟩ := orderly_local (fun _ _ h => h) hI.1 hA.1 ha
  obtain ⟨h3, h4⟩ := traced_local hI.1 hI.2 hA.1 hA.2 ha
  exact ⟨⟨h1, h3⟩, h2, h4⟩

theorem follows_stable (r q : ℕ) (s : Office) (stage : Stage) (move : Move) (s' : Office)
    (stage' other : Stage) (hne : q ≠ r) (_ : Recorded P random s) (_ : Follows P r s stage)
    (ha : Acts P (fresh random) r s stage move s' stage') (hq : Follows P q s other) :
    Follows P q s' other :=
  ⟨enlisted_stable hne ha hq.1, trailed_stable ha hq.1 hq.2⟩

theorem recorded_start : Holds (Recorded P random) (Follows P) (start Db.empty) := by
  refine ⟨⟨.nil, ?_⟩, fun r => ⟨?_, trivial⟩⟩
  · exact ⟨fun _ h => absurd h List.not_mem_nil, trivial, fun _ h => absurd h List.not_mem_nil,
      trivial⟩
  · exact fun _ h => absurd h List.not_mem_nil

/-- **Every run** keeps its log in order and the trails of all registrations. -/
theorem recorded_of_run {as : List (ℕ × Move)} {t : Crew Office Stage}
    (hr : run (step (act P (fresh random))) (start Db.empty) as = some t) :
    Recorded P random t.shared := by
  have hholds : Holds (Recorded P random) (Follows P) t :=
    run_owicki (C := fun _ _ => True)
      (fun c r a s' m' hI hA _ ha => follows_local r c.shared (c.loc r) a s' m' hI hA (acts ha))
      (fun c r a s' m' q hI hA _ ha hq hAq =>
        follows_stable r q c.shared (c.loc r) a s' m' (c.loc q) hq hI hA (acts ha) hAq)
      recorded_start (along_true as _) hr
  exact hholds.1

/-- Registrations of the same identity are the same. -/
theorem created_eq {s : Office} (hr : Recorded P random s) {g g' : RegistrationCreation}
    (h : Occurs (.register g) s.log) (h' : Occurs (.register g') s.log)
    (hid : g.item.id = g'.item.id) : g = g' := by
  have hkey : stageOf (.register g') = some (g.item.id, 0) := by rw [stageOf, hid]
  exact Plan.register.inj (h.eq hr.2.milestones h' rfl hkey)

end IdenGrid.Control.Provenance
