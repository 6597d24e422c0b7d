import IdenGrid.Control.Links

/-! # The two records of a host

A host that has claimed its configuration has an enrollment and a registration; the reports and the
monitor write to both. `agree_of_run`: as long as no enrollment is regenerated, the two statuses are
the same text, except that an `online` enrollment is complete and stays `online` while the monitor
makes the registration `failed` and `online` again as the node goes down and comes up, and except
for an enrollment that is revoked. -/

namespace IdenGrid.Control.Agreement

open IdenGrid.Lib.Run IdenGrid.Lib.Store IdenGrid.Lib.WriteBack IdenGrid.Lib.Unicode
open IdenGrid.Control.Nodes
open IdenGrid.Control.Monitor hiding Db
open IdenGrid.Control.Registry IdenGrid.Control.NodeAdmin IdenGrid.Control.Enrollments
open IdenGrid.Control.Registrations IdenGrid.Control.Handlers IdenGrid.Control.Fleet
open IdenGrid.Control.Links

/-- The `status` column of `node_enrollments`. -/
def enrollmentText : EnrollmentStatus → String
  | .pending => "pending"
  | .claimed => "claimed"
  | .installing => "installing"
  | .ready => "ready"
  | .online => "online"
  | .failed => "failed"
  | .expired => "expired"
  | .revoked => "revoked"

/-- The `status` column of `node_registration_requests`. -/
def registrationText : RegistrationStatus → String
  | .pendingProof => "pending_proof"
  | .pendingApproval => "pending_approval"
  | .approved => "approved"
  | .rejected => "rejected"
  | .installing => "installing"
  | .ready => "ready"
  | .failed => "failed"
  | .online => "online"
  | .expired => "expired"

/-- The statuses of a registration whose host has claimed its configuration. -/
def hosted (s : RegistrationStatus) : Bool :=
  s == .installing || s == .ready || s == .failed || s == .online

/-- The statuses go together: they are the same, or the enrollment is complete. -/
def Together (e : EnrollmentStatus) (r : RegistrationStatus) : Prop :=
  enrollmentText e = registrationText r ∨ e = .online ∧ r = .failed

/-- The enrollment, unless it is revoked, and the registration of a node go together. -/
def Agree (es : List EnrollmentRow) (rs : List RegistrationRow) : Prop :=
  ∀ e ∈ es, ∀ r ∈ rs, r.edgeNodeId = some e.edgeNodeId → hosted r.status = true →
    e.status ≠ .revoked → Together e.status r.status

def regenerates : Request → Bool
  | .regenerateEdgeEnrollment _ _ => true
  | _ => false

variable {P : Primitives}

theorem not_together_pending {r : RegistrationStatus} (hr : hosted r = true) :
    ¬ Together .pending r := by
  rintro (h | ⟨h, -⟩)
  · cases r <;> first | exact Bool.noConfusion hr | exact absurd h (by decide)
  · exact absurd h (by decide)

/-- Changes that leave the statuses of a host as they are, or revoke its enrollment. -/
theorem Agree.keep {es es' : List EnrollmentRow} {rs rs' : List RegistrationRow}
    (h : Agree es rs)
    (he : ∀ e' ∈ es', ∃ e ∈ es, e'.edgeNodeId = e.edgeNodeId ∧
      (e'.status = e.status ∨ e.status = .pending ∨ e'.status = .revoked))
    (hr : ∀ r' ∈ rs', hosted r'.status = true → r'.edgeNodeId ≠ none →
      ∃ r ∈ rs, r'.edgeNodeId = r.edgeNodeId ∧ r'.status = r.status) : Agree es' rs' := by
  intro e' he' r' hr' hnode hhosted hrevoked
  obtain ⟨e, hmem, hown, hstatus⟩ := he e' he'
  obtain ⟨r, hmem', hown', hstatus'⟩ := hr r' hr' hhosted (by rw [hnode]; exact Option.some_ne_none _)
  have hlink : r.edgeNodeId = some e.edgeNodeId := by rw [← hown', hnode, hown]
  rw [hstatus'] at hhosted ⊢
  rcases hstatus with hs | hs | hs
  · rw [hs] at hrevoked ⊢
    exact h e hmem r hmem' hlink hhosted hrevoked
  · have := h e hmem r hmem' hlink hhosted (by rw [hs]; decide)
    rw [hs] at this
    exact absurd this (not_together_pending hhosted)
  · exact absurd hs hrevoked

/-- The registrations stay as they are. -/
theorem keepAll {rs : List RegistrationRow} :
    ∀ r' ∈ rs, hosted r'.status = true → r'.edgeNodeId ≠ none →
      ∃ r ∈ rs, r'.edgeNodeId = r.edgeNodeId ∧ r'.status = r.status :=
  fun r hr _ _ => ⟨r, hr, rfl, rfl⟩

theorem keepEnrollments {es : List EnrollmentRow} :
    ∀ e' ∈ es, ∃ e ∈ es, e'.edgeNodeId = e.edgeNodeId ∧
      (e'.status = e.status ∨ e.status = .pending ∨ e'.status = .revoked) :=
  fun e he => ⟨e, he, rfl, Or.inl rfl⟩

/-- The expiry of an enrollment is that of a pending one. -/
theorem serializeEnrollment_status (now : ℕ) (e : EnrollmentRow) :
    (serializeEnrollment now e).status = e.status ∨ e.status = .pending := by
  unfold serializeEnrollment
  split_ifs with h
  · exact Or.inr h.1
  · exact Or.inl rfl

/-! ## The monitor -/

theorem monitorEnrollment_status (status : HealthStatus) (now : ℕ) (e : EnrollmentRow) :
    (monitorEnrollment status now e).status =
      if status = .online then .online
      else if (failureText status).isSome then .failed
      else e.status := by
  cases status <;> rfl

theorem monitorRegistration_status (status : HealthStatus) (now : ℕ) (r : RegistrationRow) :
    (monitorRegistration status now r).status =
      if status = .online then .online
      else if (failureText status).isSome then .failed
      else r.status := by
  cases status with
  | online =>
    by_cases h : r.status = .online <;> simp [monitorRegistration, updateRegistration, h]
  | _ => rfl

/-- The statuses of a host, one by one. -/
theorem together_cases {e : EnrollmentStatus} {r : RegistrationStatus} (h : Together e r)
    (hr : hosted r = true) :
    (e = .installing ∧ r = .installing ∨ e = .ready ∧ r = .ready ∨ e = .failed ∧ r = .failed) ∨
      e = .online ∧ (r = .online ∨ r = .failed) := by
  rcases h with h | ⟨rfl, rfl⟩
  · cases r <;> first
      | exact Bool.noConfusion hr
      | cases e <;> first | exact absurd h (by decide) | simp
  · simp

/-- **A round of the monitor keeps the two records together.** -/
theorem together_monitor {inputs : MonitorInputs} {db : Db} {e : EnrollmentRow}
    {r : RegistrationRow}
    (hlinked : Linked db.nodes.rows db.enrollments.rows db.registrations.rows)
    (he : e ∈ db.enrollments.rows) (hr : r ∈ db.registrations.rows)
    (hnode : r.edgeNodeId = some e.edgeNodeId) (hhosted : hosted r.status = true)
    (h : Together e.status r.status) :
    Together (enrollmentAfter inputs db e).status (registrationAfter inputs db r).status := by
  unfold enrollmentAfter registrationAfter
  rw [hnode, Option.bind_some]
  rcases hm : monitored inputs db e.edgeNodeId with _ | ⟨n, result⟩
  · exact h
  obtain ⟨-, hid, -, -⟩ := monitored_eq_some.mp hm
  have hpick : pickedRegistration db n.id = some r := by
    have hp : linkedRegistration n.id r.toNodeRegistrationRequest = true := by
      simp only [linkedRegistration, Bool.and_eq_true, beq_iff_eq]
      exact ⟨by rw [hid]; exact hnode, hhosted⟩
    refine Table.first_eq_some hr hp fun x hx hpx => ?_
    have hown : x.edgeNodeId = some n.id := by
      simp only [linkedRegistration, Bool.and_eq_true, beq_iff_eq] at hpx
      exact hpx.1
    exact hlinked.oneRegistration x hx r hr (by rw [hown]; exact Option.some_ne_none _)
      (by rw [hown, hid, hnode])
  simp only [hpick, if_true]
  rw [monitorRegistration_status]
  rcases together_cases h hhosted with hsame | ⟨hs, hr⟩
  · have hpick' : pickedEnrollment db n.id = some e := by
      have hp : linkedEnrollment n.id e.toNodeEnrollment = true := by
        simp only [linkedEnrollment, Bool.and_eq_true, beq_iff_eq]
        refine ⟨hid.symm, ?_⟩
        rcases hsame with ⟨hs, -⟩ | ⟨hs, -⟩ | ⟨hs, -⟩ <;> rw [hs] <;> rfl
      refine Table.first_eq_some he hp fun x hx hpx => ?_
      simp only [linkedEnrollment, Bool.and_eq_true, beq_iff_eq] at hpx
      exact hlinked.oneEnrollment x hx e he (hpx.1.trans hid)
    simp only [hpick', if_true]
    rw [monitorEnrollment_status]
    split_ifs
    · exact Or.inl rfl
    · exact Or.inl rfl
    · exact h
  · have hno : pickedEnrollment db n.id ≠ some e := by
      intro hpick'
      obtain ⟨-, -, hstatus⟩ := pickedEnrollment_eq_some hpick'
      rw [hs] at hstatus
      simp at hstatus
    simp only [hno, if_false]
    rw [hs]
    split_ifs
    · exact Or.inl rfl
    · exact Or.inr ⟨rfl, rfl⟩
    · rw [← hs]
      exact h

theorem hosted_of_after {inputs : MonitorInputs} {db : Db} {r : RegistrationRow}
    (h : hosted (registrationAfter inputs db r).status = true) : hosted r.status = true := by
  unfold registrationAfter at h
  split at h
  · split_ifs at h with hpick
    · obtain ⟨-, -, hstatus⟩ := pickedRegistration_eq_some hpick
      rcases hstatus with hs | hs | hs | hs <;> rw [hs] <;> rfl
    · exact h
  · exact h

/-- The monitor leaves a revoked enrollment alone. -/
theorem revoked_after {inputs : MonitorInputs} {db : Db} {e : EnrollmentRow}
    (h : e.status = .revoked) : (enrollmentAfter inputs db e).status = .revoked := by
  unfold enrollmentAfter
  split
  · split_ifs with hpick
    · obtain ⟨-, -, hstatus⟩ := pickedEnrollment_eq_some hpick
      rw [h] at hstatus
      simp at hstatus
    · exact h
  · exact h

/-! ## Requests -/

/-- A registration that is hosted after one of these changes is as it was. -/
theorem keep_rows {rs : List RegistrationRow} {f : RegistrationRow → RegistrationRow}
    (hf : ∀ r ∈ rs, hosted (f r).status = true → f r = r) :
    ∀ r' ∈ rs.map f, hosted r'.status = true → r'.edgeNodeId ≠ none →
      ∃ r ∈ rs, r'.edgeNodeId = r.edgeNodeId ∧ r'.status = r.status := by
  intro r' hr' hhosted _
  obtain ⟨r, hr, rfl⟩ := List.mem_map.mp hr'
  rw [hf r hr hhosted]
  exact ⟨r, hr, rfl, rfl⟩

theorem keep_enrollments {es : List EnrollmentRow} {f : EnrollmentRow → EnrollmentRow}
    (hf : ∀ e ∈ es, (f e).edgeNodeId = e.edgeNodeId ∧
      ((f e).status = e.status ∨ e.status = .pending ∨ (f e).status = .revoked)) :
    ∀ e' ∈ es.map f, ∃ e ∈ es, e'.edgeNodeId = e.edgeNodeId ∧
      (e'.status = e.status ∨ e.status = .pending ∨ e'.status = .revoked) := by
  intro e' he'
  obtain ⟨e, he, rfl⟩ := List.mem_map.mp he'
  exact ⟨e, he, hf e he⟩

/-- The enrollment of a new node has no hosted registration. -/
theorem Agree.enroll {ns : List NodeRow} {es : List EnrollmentRow}
    {rs rs' : List RegistrationRow} (h : Agree es rs) (hlinked : Linked ns es rs) {n : NodeRow}
    {e : EnrollmentRow} (hfresh : ∀ x ∈ ns, x.id ≠ n.id) (hown : e.edgeNodeId = n.id)
    (hr : ∀ r' ∈ rs', hosted r'.status = true → r' ∈ rs) : Agree (es ++ [e]) rs' := by
  intro x hx r hmem hnode hhosted hrevoked
  have hold := hr r hmem hhosted
  rcases List.mem_append.mp hx with hx | hx
  · exact h x hx r hold hnode hhosted hrevoked
  · rw [List.mem_singleton.mp hx, hown] at hnode
    obtain ⟨y, hy, heq⟩ := hlinked.registrationEnrollment r hold n.id hnode
    obtain ⟨m, hm, hid⟩ := hlinked.enrollmentNode y hy
    exact absurd (hid.trans heq) (hfresh m hm)

/-- **Every request but a regeneration keeps the two records together.** -/
theorem Agree.effect {db : Db} {req : Request} {ns : List NodeRow} {es : List EnrollmentRow}
    {rs : List RegistrationRow}
    (h : Agree db.enrollments.rows db.registrations.rows)
    (hlinked : Linked db.nodes.rows db.enrollments.rows db.registrations.rows)
    (hreq : regenerates req = false) (he : Effect P db req ns es rs) : Agree es rs := by
  cases he with
  | quiet => exact h
  | createNode => exact h
  | updateNode => exact h
  | deleteNode nodeId _ =>
    refine h.keep (fun e he => ⟨e, (List.mem_filter.mp he).1, rfl, Or.inl rfl⟩) ?_
    intro r' hr' hhosted hnode
    obtain ⟨r, hr, rfl⟩ := List.mem_map.mp hr'
    split_ifs at hnode ⊢ with hdel
    · exact absurd rfl hnode
    · exact ⟨r, hr, rfl, rfl⟩
  | createEnrollment body inputs c checked fresh _ =>
    obtain ⟨-, -, -, -, hown, -⟩ := createEdgeEnrollment_eq_ok checked
    exact h.enroll hlinked fresh hown fun r hr _ => hr
  | listEnrollments clock =>
    refine h.keep (keep_enrollments fun e _ => ⟨(serializeEnrollment_keep _ e).2, ?_⟩) keepAll
    exact (serializeEnrollment_status _ e).imp_right Or.inl
  | expireEnrollment _ item now mem =>
    refine h.keep (keep_enrollments fun e _ => ?_) keepAll
    rcases atKey_cases EnrollmentRow.key item.id (serializeEnrollment now) e with
      ⟨-, hu⟩ | ⟨-, hu⟩ <;> rw [hu]
    · exact ⟨rfl, Or.inl rfl⟩
    · exact ⟨(serializeEnrollment_keep _ e).2,
        (serializeEnrollment_status _ e).imp_right Or.inl⟩
  | claimEnrollment _ _ _ c _ =>
    refine h.keep (keep_enrollments fun e _ => ?_) keepAll
    unfold EnrollmentClaim.set
    split_ifs with htakes
    · simp only [EnrollmentClaim.takes, Bool.and_eq_true, beq_iff_eq] at htakes
      exact ⟨rfl, Or.inr (Or.inl htakes.1.1.2)⟩
    · exact ⟨rfl, Or.inl rfl⟩
  | report authorization body now item node valid enables =>
    obtain ⟨hitem, -⟩ := reportItem_eq_some valid
    intro e' he' r' hr' hnode hhosted hrevoked
    obtain ⟨e, he, rfl⟩ := List.mem_map.mp he'
    obtain ⟨r, hr, rfl⟩ := List.mem_map.mp hr'
    have hown : (atKey EnrollmentRow.key item.id (reportEnrollment body now) e).edgeNodeId =
        e.edgeNodeId := atKey_keep (c := fun e : EnrollmentRow => e.edgeNodeId) fun _ => rfl
    have hown' : (atRow RegistrationRow.key (registrationOf db item.edgeNodeId)
        (reportRegistration body now) r).edgeNodeId = r.edgeNodeId := by
      rcases registrationOf db item.edgeNodeId with _ | a
      · rfl
      · exact atKey_keep (c := fun r : RegistrationRow => r.edgeNodeId) fun _ => rfl
    rw [hown, hown'] at hnode
    rcases atKey_cases EnrollmentRow.key item.id (reportEnrollment body now) e with
      ⟨hk, hu⟩ | ⟨hk, hu⟩
    · rw [hu] at hrevoked ⊢
      have hsame : atRow RegistrationRow.key (registrationOf db item.edgeNodeId)
          (reportRegistration body now) r = r := by
        rcases hreg : registrationOf db item.edgeNodeId with _ | a
        · rfl
        · refine if_neg fun hkey => ?_
          obtain ⟨ha, hlink⟩ := Table.first_mem hreg
          obtain rfl : r = a := Table.eq_of_key hr ha hkey
          have hlink : r.edgeNodeId = some item.edgeNodeId := by simpa using hlink
          refine hk (hlinked.oneEnrollment e he item hitem ?_)
          exact Option.some.inj (hnode.symm.trans hlink)
      rw [hsame] at hhosted ⊢
      exact h e he r hr hnode hhosted hrevoked
    · obtain rfl : e = item := Table.eq_of_key he hitem hk
      rw [hu, registrationOf_eq hlinked hr hnode, atRow_some, atKey, if_pos rfl]
      refine Or.inl ?_
      change enrollmentText body.phase.status = registrationText body.phase.registrationStatus
      cases body.phase <;> rfl
  | revoke _ _ _ item _ _ =>
    refine h.keep (keep_enrollments fun e _ => ?_) keepAll
    rcases atKey_cases EnrollmentRow.key item.id (revokeEnrollment P _ _) e with
      ⟨-, hu⟩ | ⟨-, hu⟩ <;> rw [hu]
    · exact ⟨rfl, Or.inl rfl⟩
    · exact ⟨rfl, Or.inr (Or.inr rfl)⟩
  | regenerate => exact Bool.noConfusion hreq
  | register body inputs c checked fresh =>
    obtain ⟨pem, fingerprint, -, -, rfl⟩ := createNodeRegistration_eq_ok checked
    refine h.keep keepEnrollments fun r hr _ hnode => ?_
    rcases List.mem_append.mp hr with hr | hr
    · exact ⟨r, hr, rfl, rfl⟩
    · rw [List.mem_singleton.mp hr] at hnode
      exact absurd rfl hnode
  | prove _ _ _ _ _ p _ =>
    refine h.keep keepEnrollments (keep_rows fun r _ hhosted => ?_)
    unfold Proof.set at hhosted ⊢
    split_ifs at hhosted ⊢
    · exact Bool.noConfusion hhosted
    · rfl
  | expireRegistration _ item now _ _ =>
    refine h.keep keepEnrollments (keep_rows fun r _ hhosted => ?_)
    rcases atKey_cases RegistrationRow.key item.id (expireRegistration now) r with
      ⟨-, hu⟩ | ⟨-, hu⟩
    · exact hu
    · rw [hu] at hhosted
      exact Bool.noConfusion hhosted
  | sweep now =>
    refine h.keep keepEnrollments fun r' hr' hhosted _ => ?_
    obtain ⟨r, hr, rfl⟩ := List.mem_map.mp (List.mem_filter.mp hr').1
    refine ⟨r, hr, ?_⟩
    unfold Registrations.sweep at hhosted ⊢
    split_ifs at hhosted ⊢
    · exact Bool.noConfusion hhosted
    · exact ⟨rfl, rfl⟩
  | accept requestId body inputs a checked fresh _ =>
    refine h.enroll hlinked fresh rfl fun r' hr' hhosted => ?_
    obtain ⟨r, hr, rfl⟩ := List.mem_map.mp hr'
    unfold Acceptance.set at hhosted ⊢
    split_ifs at hhosted ⊢
    · exact Bool.noConfusion hhosted
    · exact hr
  | reject _ _ _ _ d _ =>
    refine h.keep keepEnrollments (keep_rows fun r _ hhosted => ?_)
    unfold Rejection.set at hhosted ⊢
    split_ifs at hhosted ⊢
    · exact Bool.noConfusion hhosted
    · rfl
  | claimRegistration requestId body authorization inputs cc c checked read =>
    obtain ⟨hget, happroved, -, -, hnode, -⟩ := claimApprovedNodeRegistration_eq_ok checked
    obtain ⟨hitem, -, -, -, hn, hmem, hown, -⟩ := CheckedClaim.readEnrollment_eq_ok read
    obtain ⟨hreg, -⟩ := Table.get?_eq_some.mp hget
    have hlink : cc.item.edgeNodeId = some c.enrollment.edgeNodeId := by
      rw [hown, hnode, ← (Table.get?_eq_some.mp hn).2, NodeRow.key_eq]
    intro e' he' r' hr' hnode' hhosted hrevoked
    obtain ⟨e, he, rfl⟩ := List.mem_map.mp he'
    obtain ⟨r, hr, rfl⟩ := List.mem_map.mp hr'
    rcases atKey_cases EnrollmentRow.key c.enrollment.id (fun _ => c.installing) e with
      ⟨hk, hu⟩ | ⟨-, hu⟩
    · rw [hu] at hnode' hrevoked ⊢
      unfold RegistrationClaim.set at hnode' hhosted ⊢
      split_ifs at hnode' hhosted ⊢ with htakes
      · simp only [RegistrationClaim.takes, Bool.and_eq_true, beq_iff_eq] at htakes
        obtain rfl : r = cc.item := Table.eq_of_key hr hreg (by rw [← hitem]; exact htakes.1.1.1)
        refine absurd (hlinked.oneEnrollment e he c.enrollment hmem ?_) hk
        exact Option.some.inj (hnode'.symm.trans hlink)
      · exact h e he r hr hnode' hhosted hrevoked
    · rw [hu] at hnode' ⊢
      have hone : (c.set r).edgeNodeId = r.edgeNodeId := by
        unfold RegistrationClaim.set; split_ifs <;> rfl
      have hid := hlinked.oneRegistration r hr cc.item hreg
        (by rw [← hone, hnode']; exact Option.some_ne_none _)
        (by rw [← hone, hnode', hlink]; rfl)
      obtain rfl : r = cc.item := Table.eq_of_key hr hreg hid
      unfold RegistrationClaim.set at hhosted ⊢
      split_ifs at hhosted ⊢
      · exact Or.inl rfl
      · rw [happroved] at hhosted
        exact Bool.noConfusion hhosted
  | monitor inputs _ =>
    intro e' he' r' hr' hnode hhosted hrevoked
    obtain ⟨e, he, rfl⟩ := List.mem_map.mp he'
    obtain ⟨r, hr, rfl⟩ := List.mem_map.mp hr'
    rw [(registrationAfter_keep inputs db r).2.1, (enrollmentAfter_keep inputs db e).2] at hnode
    have hhosted := hosted_of_after hhosted
    have hrevoked : e.status ≠ .revoked := fun hs => hrevoked (revoked_after hs)
    exact together_monitor hlinked he hr hnode hhosted (h e he r hr hnode hhosted hrevoked)

/-- **The enrollment and the registration of a node agree** in every state of a run without
regenerations, but for revoked enrollments and for complete ones whose node is down. -/
theorem agree_of_run (reqs : List Request) {db : Db}
    (hr : run (Fleet.step P) Db.empty reqs = some db)
    (hreqs : ∀ req ∈ reqs, regenerates req = false) :
    Agree db.enrollments.rows db.registrations.rows := by
  refine (run_inv_along (C := fun _ req => regenerates req = false)
    (I := fun db : Db => Linked db.nodes.rows db.enrollments.rows db.registrations.rows ∧
      Agree db.enrollments.rows db.registrations.rows) ?_ reqs _ db
    ⟨linked_empty, fun e he => absurd he List.not_mem_nil⟩ (along_of_forall hreqs _) hr).2
  rintro s req s' ⟨hlinked, hagree⟩ hreq hs
  obtain rfl := Option.some.inj hs
  exact ⟨hlinked.effect (serve_effect (P := P) s req),
    hagree.effect hlinked hreq (serve_effect (P := P) s req)⟩

/-- A run of the monitor in which every node answers under another name. -/
def badRound : MonitorInputs :=
  { goodRound with behaviour := fun _ => answering (statusDocument "edge-b" (text "3600")) }

theorem agree_of_run_online : ∃ db,
    run (Fleet.step sample) Db.empty (completed ++ [.runMonitor goodRound]) = some db ∧
      Agree db.enrollments.rows db.registrations.rows := by
  obtain ⟨db, hdb⟩ := run_isSome sample (completed ++ [.runMonitor goodRound]) Db.empty
  exact ⟨db, hdb, agree_of_run _ hdb (by decide)⟩

/-- A node has an enrollment and a hosted registration whose statuses differ. -/
def differ (db : Db) : Bool :=
  db.enrollments.rows.any fun e => db.registrations.rows.any fun r =>
    r.edgeNodeId == some e.edgeNodeId && hosted r.status &&
      enrollmentText e.status != registrationText r.status

/-- They differ after a complete installation whose node goes down, and after a revocation. -/
theorem statuses_differ :
    (∃ db, run (Fleet.step sample) Db.empty
        (completed ++ [.runMonitor goodRound, .runMonitor badRound]) = some db ∧
      differ db = true) ∧
    ∃ db, run (Fleet.step sample) Db.empty
        (installed ++ [.revokeEdgeEnrollment "enrollment" "fresh" 5]) = some db ∧
      differ db = true := by
  constructor
  · obtain ⟨db, hdb⟩ := run_isSome sample
      (completed ++ [.runMonitor goodRound, .runMonitor badRound]) Db.empty
    have h : ((run (Fleet.step sample) Db.empty
        (completed ++ [.runMonitor goodRound, .runMonitor badRound])).any differ) = true := by
      decide +kernel
    rw [hdb] at h
    exact ⟨db, hdb, h⟩
  · obtain ⟨db, hdb⟩ := run_isSome sample
      (installed ++ [.revokeEdgeEnrollment "enrollment" "fresh" 5]) Db.empty
    have h : ((run (Fleet.step sample) Db.empty
        (installed ++ [.revokeEdgeEnrollment "enrollment" "fresh" 5])).any differ) = true := by
      decide +kernel
    rw [hdb] at h
    exact ⟨db, hdb, h⟩

end IdenGrid.Control.Agreement
