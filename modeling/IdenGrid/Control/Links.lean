import IdenGrid.Control.Fleet

/-! # How nodes, enrollments and registrations hang together

`Linked`: every enrollment is of a node and every node has at most one; a registration that has a
node is the only one of that node, which has an enrollment; and a registration that has not been
accepted has no node. Every request keeps it (`Linked.effect`).

`live_iff`: a registration in one of the statuses `approved`, `installing` and `ready` has a node as
long as no node is deleted whose registration is in one of them: `delete_edge_node` detaches the
registration, but leaves its status as it is. -/

namespace IdenGrid.Control.Links

open IdenGrid.Lib.Run IdenGrid.Lib.Store IdenGrid.Lib.WriteBack
open IdenGrid.Control.Nodes
open IdenGrid.Control.Monitor hiding Db
open IdenGrid.Control.Registry IdenGrid.Control.NodeAdmin IdenGrid.Control.Enrollments
open IdenGrid.Control.Registrations IdenGrid.Control.Handlers IdenGrid.Control.Fleet

/-- The statuses of a registration that has not been accepted. -/
def undecided (s : RegistrationStatus) : Bool :=
  s == .pendingProof || s == .pendingApproval || s == .rejected || s == .expired

structure Linked (ns : List NodeRow) (es : List EnrollmentRow) (rs : List RegistrationRow) :
    Prop where
  enrollmentNode : ∀ e ∈ es, ∃ n ∈ ns, n.id = e.edgeNodeId
  oneEnrollment : ∀ e ∈ es, ∀ e' ∈ es, e.edgeNodeId = e'.edgeNodeId → e.id = e'.id
  registrationEnrollment : ∀ r ∈ rs, ∀ k, r.edgeNodeId = some k → ∃ e ∈ es, e.edgeNodeId = k
  oneRegistration : ∀ r ∈ rs, ∀ r' ∈ rs, r.edgeNodeId ≠ none → r.edgeNodeId = r'.edgeNodeId →
    r.id = r'.id
  unlinked : ∀ r ∈ rs, undecided r.status = true → r.edgeNodeId = none

variable {P : Primitives}

section Keep

variable {ns ns' : List NodeRow} {es : List EnrollmentRow} {rs rs' : List RegistrationRow}

/-- Changes that leave the keys and the links as they are. -/
theorem Linked.keep (h : Linked ns es rs) (hn : ∀ n ∈ ns, ∃ n' ∈ ns', n'.id = n.id)
    {f : EnrollmentRow → EnrollmentRow}
    (hf : ∀ e ∈ es, (f e).id = e.id ∧ (f e).edgeNodeId = e.edgeNodeId)
    (hr : ∀ r' ∈ rs', ∃ r ∈ rs, r'.id = r.id ∧ r'.edgeNodeId = r.edgeNodeId ∧
      (undecided r'.status = true → r.edgeNodeId = none)) :
    Linked ns' (es.map f) rs' := by
  constructor
  · intro e' he'
    obtain ⟨e, he, rfl⟩ := List.mem_map.mp he'
    obtain ⟨n, hmem, hid⟩ := h.enrollmentNode e he
    obtain ⟨n', hn', hid'⟩ := hn n hmem
    exact ⟨n', hn', by rw [hid', hid, (hf e he).2]⟩
  · intro e₁ he₁ e₂ he₂ heq
    obtain ⟨e, he, rfl⟩ := List.mem_map.mp he₁
    obtain ⟨e', he', rfl⟩ := List.mem_map.mp he₂
    rw [(hf e he).2, (hf e' he').2] at heq
    rw [(hf e he).1, (hf e' he').1]
    exact h.oneEnrollment e he e' he' heq
  · intro r' hr' k hk
    obtain ⟨r, hmem, -, hnode, -⟩ := hr r' hr'
    obtain ⟨e, he, heq⟩ := h.registrationEnrollment r hmem k (hnode.symm.trans hk)
    exact ⟨f e, List.mem_map.mpr ⟨e, he, rfl⟩, (hf e he).2.trans heq⟩
  · intro r₁ hr₁ r₂ hr₂ hne heq
    obtain ⟨r, hmem, hid, hnode, -⟩ := hr r₁ hr₁
    obtain ⟨r', hmem', hid', hnode', -⟩ := hr r₂ hr₂
    rw [hid, hid']
    rw [hnode] at hne
    exact h.oneRegistration r hmem r' hmem' hne (hnode.symm.trans (heq.trans hnode'))
  · intro r' hr' hstatus
    obtain ⟨r, -, -, hnode, hnone⟩ := hr r' hr'
    rw [hnode]
    exact hnone hstatus

/-- The registrations stay as they are. -/
theorem Linked.keepRegistrations (h : Linked ns es rs) :
    ∀ r' ∈ rs, ∃ r ∈ rs, r'.id = r.id ∧ r'.edgeNodeId = r.edgeNodeId ∧
      (undecided r'.status = true → r.edgeNodeId = none) :=
  fun r hr => ⟨r, hr, rfl, rfl, h.unlinked r hr⟩

/-- A new node with its enrollment; at most the registration `i` gets it as its node. -/
theorem Linked.enroll (h : Linked ns es rs) {n : NodeRow} {e : EnrollmentRow}
    (hfresh : ∀ x ∈ ns, x.id ≠ n.id) (hown : e.edgeNodeId = n.id) {i : String}
    (hr : ∀ r' ∈ rs', ∃ r ∈ rs, r'.id = r.id ∧
      (r'.edgeNodeId = r.edgeNodeId ∧ (undecided r'.status = true → r.edgeNodeId = none) ∨
        r.id = i ∧ r'.edgeNodeId = some n.id ∧ undecided r'.status = false)) :
    Linked (ns ++ [n]) (es ++ [e]) rs' := by
  have hnew : ∀ x ∈ es, x.edgeNodeId ≠ n.id := by
    intro x hx heq
    obtain ⟨m, hm, hid⟩ := h.enrollmentNode x hx
    exact hfresh m hm (hid.trans heq)
  have hnone : ∀ r ∈ rs, r.edgeNodeId ≠ some n.id := by
    intro r hr heq
    obtain ⟨x, hx, hid⟩ := h.registrationEnrollment r hr n.id heq
    exact hnew x hx hid
  constructor
  · intro x hx
    rcases List.mem_append.mp hx with hx | hx
    · obtain ⟨m, hm, hid⟩ := h.enrollmentNode x hx
      exact ⟨m, List.mem_append_left _ hm, hid⟩
    · obtain rfl := List.mem_singleton.mp hx
      exact ⟨n, List.mem_append_right _ (List.mem_singleton.mpr rfl), hown.symm⟩
  · intro x hx y hy heq
    rcases List.mem_append.mp hx with hold | hx <;> rcases List.mem_append.mp hy with hold' | hy
    · exact h.oneEnrollment x hold y hold' heq
    · rw [List.mem_singleton.mp hy, hown] at heq
      exact absurd heq (hnew x hold)
    · rw [List.mem_singleton.mp hx, hown] at heq
      exact absurd heq.symm (hnew y hold')
    · rw [List.mem_singleton.mp hx, List.mem_singleton.mp hy]
  · intro r' hr' k hk
    obtain ⟨r, hmem, -, ⟨hnode, -⟩ | ⟨-, hnode, -⟩⟩ := hr r' hr'
    · obtain ⟨x, hx, hid⟩ := h.registrationEnrollment r hmem k (hnode.symm.trans hk)
      exact ⟨x, List.mem_append_left _ hx, hid⟩
    · refine ⟨e, List.mem_append_right _ (List.mem_singleton.mpr rfl), ?_⟩
      exact hown.trans (Option.some.inj (hnode.symm.trans hk))
  · intro r₁ hr₁ r₂ hr₂ hne heq
    obtain ⟨r, hmem, hid, hcase⟩ := hr r₁ hr₁
    obtain ⟨r', hmem', hid', hcase'⟩ := hr r₂ hr₂
    rw [hid, hid']
    rcases hcase with ⟨hnode, -⟩ | ⟨hown₁, hnode, -⟩ <;>
      rcases hcase' with ⟨hnode', -⟩ | ⟨hown₂, hnode', -⟩
    · rw [hnode] at hne
      exact h.oneRegistration r hmem r' hmem' hne (hnode.symm.trans (heq.trans hnode'))
    · exact absurd (hnode.symm.trans (heq.trans hnode')) (hnone r hmem)
    · exact absurd (hnode'.symm.trans (heq.symm.trans hnode)) (hnone r' hmem')
    · rw [hown₁, hown₂]
  · intro r' hr' hstatus
    obtain ⟨r, -, -, ⟨hnode, hu⟩ | ⟨-, -, hu⟩⟩ := hr r' hr'
    · exact hnode.trans (hu hstatus)
    · rw [hstatus] at hu
      exact Bool.noConfusion hu

/-- A new registration has no node. -/
theorem Linked.register (h : Linked ns es rs) {r : RegistrationRow} (hr : r.edgeNodeId = none) :
    Linked ns es (rs ++ [r]) := by
  constructor
  · exact h.enrollmentNode
  · exact h.oneEnrollment
  · intro x hx k hk
    rcases List.mem_append.mp hx with hx | hx
    · exact h.registrationEnrollment x hx k hk
    · rw [List.mem_singleton.mp hx, hr] at hk
      exact absurd hk (by simp)
  · intro x hx y hy hne heq
    rcases List.mem_append.mp hx with hold | hx
    · rcases List.mem_append.mp hy with hold' | hy
      · exact h.oneRegistration x hold y hold' hne heq
      · rw [heq, List.mem_singleton.mp hy] at hne
        exact absurd hr hne
    · rw [List.mem_singleton.mp hx] at hne
      exact absurd hr hne
  · intro x hx hstatus
    rcases List.mem_append.mp hx with hx | hx
    · exact h.unlinked x hx hstatus
    · rw [List.mem_singleton.mp hx]
      exact hr

end Keep

/-! ## What the changes of a row keep -/

theorem keep_map {rs : List RegistrationRow} {g : RegistrationRow → RegistrationRow}
    (hg : ∀ r ∈ rs, (g r).id = r.id ∧ (g r).edgeNodeId = r.edgeNodeId ∧
      (undecided (g r).status = true → r.edgeNodeId = none)) :
    ∀ r' ∈ rs.map g, ∃ r ∈ rs, r'.id = r.id ∧ r'.edgeNodeId = r.edgeNodeId ∧
      (undecided r'.status = true → r.edgeNodeId = none) := by
  intro r' hr'
  obtain ⟨r, hr, rfl⟩ := List.mem_map.mp hr'
  exact ⟨r, hr, hg r hr⟩

theorem keep_ids {ns : List NodeRow} {f : NodeRow → NodeRow} (hf : ∀ n, (f n).id = n.id) :
    ∀ n ∈ ns, ∃ n' ∈ ns.map f, n'.id = n.id := fun n hn =>
  ⟨f n, List.mem_map.mpr ⟨n, hn, rfl⟩, hf n⟩

theorem nodeAfter_id (inputs : MonitorInputs) (n : NodeRow) : (nodeAfter inputs n).id = n.id := by
  unfold nodeAfter
  split
  · split_ifs
    · exact updateNode_id _ _ _
    · rfl
  · rfl

/-- What a change at one key keeps, if the change keeps it. -/
theorem atKey_keep {β : Type} {ρ κ : Type} [DecidableEq κ] {key : ρ → κ} {k : κ} {f : ρ → ρ} {x : ρ}
    {c : ρ → β} (hf : key x = k → c (f x) = c x) : c (atKey key k f x) = c x := by
  rcases atKey_cases key k f x with ⟨-, h⟩ | ⟨hk, h⟩
  · rw [h]
  · rw [h, hf hk]

theorem serializeEnrollment_keep (now : ℕ) (e : EnrollmentRow) :
    (serializeEnrollment now e).id = e.id ∧
      (serializeEnrollment now e).edgeNodeId = e.edgeNodeId := by
  unfold serializeEnrollment
  split_ifs <;> exact ⟨rfl, rfl⟩

theorem enrollmentAfter_keep (inputs : MonitorInputs) (db : Db) (e : EnrollmentRow) :
    (enrollmentAfter inputs db e).id = e.id ∧
      (enrollmentAfter inputs db e).edgeNodeId = e.edgeNodeId := by
  unfold enrollmentAfter
  split
  · split_ifs
    · exact ⟨updateEnrollment_id _ _ _, updateEnrollment_edgeNodeId _ _ _⟩
    · exact ⟨rfl, rfl⟩
  · exact ⟨rfl, rfl⟩

/-- The monitor leaves a registration's key, its node and all statuses but four alone. -/
theorem registrationAfter_keep (inputs : MonitorInputs) (db : Db) (r : RegistrationRow) :
    (registrationAfter inputs db r).id = r.id ∧
      (registrationAfter inputs db r).edgeNodeId = r.edgeNodeId ∧
      ((registrationAfter inputs db r).status = r.status ∨
        (registrationAfter inputs db r).status = .online ∨
        (registrationAfter inputs db r).status = .failed) := by
  unfold registrationAfter
  split
  · next n result _ =>
    split_ifs
    · refine ⟨updateRegistration_id _ _ _, updateRegistration_edgeNodeId _ _ _, ?_⟩
      simp only [monitorRegistration, updateRegistration]
      split_ifs
      · exact Or.inl rfl
      · exact Or.inr (Or.inl rfl)
      · cases failureText (effective n.toEdgeNode result.health)
        · exact Or.inl rfl
        · exact Or.inr (Or.inr rfl)
    · exact ⟨rfl, rfl, Or.inl rfl⟩
  · exact ⟨rfl, rfl, Or.inl rfl⟩

theorem undecided_of_awaiting {r : RegistrationRow} (h : awaiting r = true) :
    undecided r.status = true := by
  simp only [awaiting, Bool.or_eq_true, beq_iff_eq] at h
  rcases h with h | h <;> rw [h] <;> rfl

/-- **Every request keeps the links.** -/
theorem Linked.effect {db : Db} {req : Request} {ns : List NodeRow} {es : List EnrollmentRow}
    {rs : List RegistrationRow}
    (h : Linked db.nodes.rows db.enrollments.rows db.registrations.rows)
    (he : Effect P db req ns es rs) : Linked ns es rs := by
  have hids : ∀ n ∈ db.nodes.rows, ∃ n' ∈ db.nodes.rows, n'.id = n.id := fun n hn => ⟨n, hn, rfl⟩
  have hsame : db.enrollments.rows = db.enrollments.rows.map id := (List.map_id _).symm
  have hkeep : ∀ e ∈ db.enrollments.rows, (id e).id = e.id ∧ (id e).edgeNodeId = e.edgeNodeId :=
    fun _ _ => ⟨rfl, rfl⟩
  cases he with
  | quiet => exact h
  | createNode body newId node checked fresh =>
    rw [hsame]
    exact h.keep (fun n hn => ⟨n, List.mem_append_left _ hn, rfl⟩) hkeep h.keepRegistrations
  | updateNode nodeId body loaded new checked =>
    obtain ⟨-, hpatch, -, -⟩ := updateEdgeNode_eq_ok checked
    rw [hsame]
    refine h.keep (keep_ids fun n => ?_) hkeep h.keepRegistrations
    exact atKey_keep (c := fun n : NodeRow => n.id) fun hk =>
      (patch_eq_some hpatch).1.trans hk.symm
  | deleteNode nodeId hnode =>
    constructor
    · intro e hmem
      obtain ⟨hmem, hne⟩ := List.mem_filter.mp hmem
      obtain ⟨n, hn, hid⟩ := h.enrollmentNode e hmem
      refine ⟨n, List.mem_filter.mpr ⟨hn, ?_⟩, hid⟩
      rw [hid]
      exact hne
    · intro e he e' he'
      exact h.oneEnrollment e (List.mem_filter.mp he).1 e' (List.mem_filter.mp he').1
    · intro r' hr' k hk
      obtain ⟨r, hr, rfl⟩ := List.mem_map.mp hr'
      split_ifs at hk with hdel
      · simp [detach] at hk
      · obtain ⟨e, hmem, heq⟩ := h.registrationEnrollment r hr k hk
        refine ⟨e, List.mem_filter.mpr ⟨hmem, ?_⟩, heq⟩
        rw [heq]
        exact decide_eq_true fun hk' => hdel (hk.trans (by rw [hk']))
    · intro r₁ hr₁ r₂ hr₂ hne heq
      obtain ⟨r, hr, rfl⟩ := List.mem_map.mp hr₁
      obtain ⟨r', hr', rfl⟩ := List.mem_map.mp hr₂
      split_ifs at hne heq with h1 h2
      · exact absurd rfl hne
      · exact absurd rfl hne
      · exact absurd heq hne
      · rw [if_neg h1, if_neg ‹_›]
        exact h.oneRegistration r hr r' hr' hne heq
    · intro r' hr' hstatus
      obtain ⟨r, hr, rfl⟩ := List.mem_map.mp hr'
      split_ifs at hstatus ⊢ with hdel
      · rfl
      · exact h.unlinked r hr hstatus
  | createEnrollment body inputs c checked fresh _ =>
    obtain ⟨-, -, -, -, hown, -⟩ := createEdgeEnrollment_eq_ok checked
    refine h.enroll fresh hown (i := "") fun r hr => ⟨r, hr, rfl, Or.inl ⟨rfl, ?_⟩⟩
    exact h.unlinked r hr
  | listEnrollments clock =>
    exact h.keep hids (fun e _ => serializeEnrollment_keep _ e) h.keepRegistrations
  | expireEnrollment _ item now mem =>
    refine h.keep hids (fun e _ => ⟨?_, ?_⟩) h.keepRegistrations
    · exact atKey_keep (c := fun e : EnrollmentRow => e.id) fun _ =>
        (serializeEnrollment_keep _ e).1
    · exact atKey_keep (c := fun e : EnrollmentRow => e.edgeNodeId) fun _ =>
        (serializeEnrollment_keep _ e).2
  | claimEnrollment _ _ _ c _ =>
    refine h.keep hids (fun e _ => ?_) h.keepRegistrations
    unfold EnrollmentClaim.set
    split_ifs <;> exact ⟨rfl, rfl⟩
  | report authorization body now item node valid enables =>
    refine h.keep (keep_ids fun n => ?_) (fun e _ => ⟨?_, ?_⟩) (keep_map fun r hr => ?_)
    · rcases node with _ | a
      · rfl
      · exact atKey_keep (c := fun n : NodeRow => n.id) fun _ => rfl
    · exact atKey_keep (c := fun e : EnrollmentRow => e.id) fun _ => rfl
    · exact atKey_keep (c := fun e : EnrollmentRow => e.edgeNodeId) fun _ => rfl
    · have hsafe : undecided body.phase.registrationStatus = false := by cases body.phase <;> rfl
      rcases registrationOf db item.edgeNodeId with _ | a
      · exact ⟨rfl, rfl, h.unlinked r hr⟩
      · rcases atKey_cases RegistrationRow.key a.key (reportRegistration body now) r with
          ⟨-, hu⟩ | ⟨-, hu⟩
        · rw [atRow_some, hu]; exact ⟨rfl, rfl, h.unlinked r hr⟩
        · rw [atRow_some, hu]
          refine ⟨rfl, rfl, fun hbad => ?_⟩
          exact Bool.noConfusion (hsafe.symm.trans hbad)
  | revoke _ _ _ item _ _ =>
    refine h.keep (keep_ids fun n => ?_) (fun e _ => ⟨?_, ?_⟩) h.keepRegistrations
    · exact atKey_keep (c := fun n : NodeRow => n.id) fun _ => rfl
    · exact atKey_keep (c := fun e : EnrollmentRow => e.id) fun _ => rfl
    · exact atKey_keep (c := fun e : EnrollmentRow => e.edgeNodeId) fun _ => rfl
  | regenerate _ _ item _ _ =>
    refine h.keep hids (fun e _ => ⟨?_, ?_⟩) h.keepRegistrations
    · exact atKey_keep (c := fun e : EnrollmentRow => e.id) fun _ => rfl
    · exact atKey_keep (c := fun e : EnrollmentRow => e.edgeNodeId) fun _ => rfl
  | register body inputs c checked fresh =>
    obtain ⟨pem, fingerprint, -, -, rfl⟩ := createNodeRegistration_eq_ok checked
    exact h.register rfl
  | prove _ _ _ _ _ p _ =>
    rw [hsame]
    refine h.keep hids hkeep (keep_map fun r hr => ?_)
    unfold Proof.set
    split_ifs with htakes
    · simp only [Proof.takes, Bool.and_eq_true, beq_iff_eq] at htakes
      exact ⟨rfl, rfl, fun _ => h.unlinked r hr (by rw [htakes.1.2]; rfl)⟩
    · exact ⟨rfl, rfl, h.unlinked r hr⟩
  | expireRegistration _ item now mem pending =>
    rw [hsame]
    refine h.keep hids hkeep (keep_map fun r hr => ?_)
    rcases atKey_cases RegistrationRow.key item.id (expireRegistration now) r with
      ⟨-, hu⟩ | ⟨hk, hu⟩
    · rw [hu]; exact ⟨rfl, rfl, h.unlinked r hr⟩
    · rw [hu]
      obtain rfl : r = item := Table.eq_of_key hr mem hk
      exact ⟨rfl, rfl, fun _ => h.unlinked r hr (by rw [pending]; rfl)⟩
  | sweep now =>
    rw [hsame]
    refine h.keep hids hkeep fun r' hr' => ?_
    obtain ⟨r, hr, rfl⟩ := List.mem_map.mp (List.mem_filter.mp hr').1
    refine ⟨r, hr, sweep_id now r, ?_⟩
    unfold Registrations.sweep
    split_ifs with hover
    · exact ⟨rfl, fun _ => h.unlinked r hr (undecided_of_awaiting hover.1)⟩
    · exact ⟨rfl, h.unlinked r hr⟩
  | accept requestId body inputs a checked fresh _ =>
    obtain ⟨hget, hstatus, -⟩ := acceptNodeRegistration_eq_ok checked
    obtain ⟨hmem, -⟩ := Table.get?_eq_some.mp hget
    refine h.enroll fresh rfl (i := a.item.id) fun r' hr' => ?_
    obtain ⟨r, hr, rfl⟩ := List.mem_map.mp hr'
    refine ⟨r, hr, a.set_id P r, ?_⟩
    unfold Acceptance.set
    split_ifs with htakes
    · simp only [Acceptance.takes, Bool.and_eq_true, beq_iff_eq] at htakes
      have hnone := h.unlinked a.item hmem (by rw [hstatus]; rfl)
      refine Or.inr ⟨htakes.1.1, ?_, rfl⟩
      rw [hnone]
      exact Lib.Orm.col_of_ne (Option.some_ne_none a.inputs.nodeId) r.edgeNodeId
    · exact Or.inl ⟨rfl, h.unlinked r hr⟩
  | reject _ _ _ _ d _ =>
    rw [hsame]
    refine h.keep hids hkeep (keep_map fun r hr => ?_)
    unfold Rejection.set
    split_ifs with htakes
    · simp only [Rejection.takes, Bool.and_eq_true, beq_iff_eq] at htakes
      exact ⟨rfl, rfl, fun _ => h.unlinked r hr (by rw [htakes.2]; rfl)⟩
    · exact ⟨rfl, rfl, h.unlinked r hr⟩
  | claimRegistration _ _ _ _ cc c _ read =>
    obtain ⟨-, -, -, -, -, hmem, -⟩ := CheckedClaim.readEnrollment_eq_ok read
    refine h.keep hids (fun e he => ⟨?_, ?_⟩) (keep_map fun r hr => ?_)
    · exact atKey_keep (c := fun e : EnrollmentRow => e.id) fun hk => hk.symm
    · refine atKey_keep (c := fun e : EnrollmentRow => e.edgeNodeId) fun hk => ?_
      rw [Table.eq_of_key he hmem hk]
      rfl
    · unfold RegistrationClaim.set
      split_ifs with htakes
      · exact ⟨rfl, rfl, fun hbad => Bool.noConfusion hbad⟩
      · exact ⟨rfl, rfl, h.unlinked r hr⟩
  | monitor inputs _ =>
    refine h.keep (keep_ids (nodeAfter_id inputs)) (fun e _ => enrollmentAfter_keep inputs db e)
      (keep_map fun r hr => ?_)
    obtain ⟨h1, h2, hstatus⟩ := registrationAfter_keep inputs db r
    refine ⟨h1, h2, fun hu => ?_⟩
    rcases hstatus with hs | hs | hs
    · exact h.unlinked r hr (hs ▸ hu)
    · rw [hs] at hu; exact Bool.noConfusion hu
    · rw [hs] at hu; exact Bool.noConfusion hu

theorem linked_empty :
    Linked Db.empty.nodes.rows Db.empty.enrollments.rows Db.empty.registrations.rows := by
  constructor <;> intro x hx <;> exact absurd hx List.not_mem_nil

/-- The links of a reachable registry. -/
theorem linked_of_run {reqs : List Request} {db : Db}
    (hr : run (Fleet.step P) Db.empty reqs = some db) :
    Linked db.nodes.rows db.enrollments.rows db.registrations.rows := by
  refine run_inv (I := fun db : Db => Linked db.nodes.rows db.enrollments.rows
    db.registrations.rows) (fun s req s' h hs => ?_) reqs _ db linked_empty hr
  obtain rfl := Option.some.inj hs
  exact h.effect (serve_effect s req)

/-- The registration of the node of an enrollment is the only one with that node. -/
theorem registrationOf_eq {db : Db} {edgeNodeId : ℕ} {r : RegistrationRow}
    (h : Linked db.nodes.rows db.enrollments.rows db.registrations.rows)
    (hr : r ∈ db.registrations.rows) (hnode : r.edgeNodeId = some edgeNodeId) :
    registrationOf db edgeNodeId = some r := by
  refine Table.first_eq_some hr (by simpa using hnode) fun x hx hown => ?_
  have hown : x.edgeNodeId = some edgeNodeId := by simpa using hown
  exact h.oneRegistration x hx r hr (by rw [hown]; exact Option.some_ne_none _)
    (hown.trans hnode.symm)

/-! ## Registrations with a live node -/

/-- The statuses after an acceptance that hold the slots of a machine and of a key. -/
def held (s : RegistrationStatus) : Bool := s == .approved || s == .installing || s == .ready

/-- Registrations in these statuses have a node, which exists and has an enrollment. -/
def Live (db : Db) : Prop :=
  ∀ r ∈ db.registrations.rows, held r.status = true →
    ∃ k, r.edgeNodeId = some k ∧ (∃ n ∈ db.nodes.rows, n.id = k) ∧
      ∃ e ∈ db.enrollments.rows, e.edgeNodeId = k

/-- No node is deleted whose registration is in one of these statuses. -/
def Spared (db : Db) : Request → Prop
  | .deleteEdgeNode nodeId none => ∀ r ∈ db.registrations.rows, held r.status = true →
      r.edgeNodeId ≠ some nodeId
  | _ => True

/-- A linked registration has a node, and the node an enrollment. -/
theorem Linked.live {db : Db}
    (h : Linked db.nodes.rows db.enrollments.rows db.registrations.rows)
    (hheld : ∀ r ∈ db.registrations.rows, held r.status = true → r.edgeNodeId ≠ none) :
    Live db := by
  intro r hr hstatus
  obtain ⟨k, hk⟩ := Option.ne_none_iff_exists'.mp (hheld r hr hstatus)
  obtain ⟨e, he, heq⟩ := h.registrationEnrollment r hr k hk
  obtain ⟨n, hn, hid⟩ := h.enrollmentNode e he
  exact ⟨k, hk, ⟨n, hn, hid.trans heq⟩, e, he, heq⟩

/-- One of the statuses is left, or reached from another one of them, by a change of a row that
keeps its node; or it is the acceptance that gives it one. -/
theorem held_effect {db : Db} {req : Request} {ns : List NodeRow} {es : List EnrollmentRow}
    {rs : List RegistrationRow}
    (hlinked : Linked db.nodes.rows db.enrollments.rows db.registrations.rows) (hlive : Live db)
    (hspared : Spared db req) (he : Effect P db req ns es rs) :
    ∀ r ∈ rs, held r.status = true → r.edgeNodeId ≠ none := by
  have hold : ∀ r ∈ db.registrations.rows, held r.status = true → r.edgeNodeId ≠ none := by
    intro r hr hstatus
    obtain ⟨k, hk, -⟩ := hlive r hr hstatus
    rw [hk]
    exact Option.some_ne_none k
  intro r' hr' hstatus
  cases he with
  | deleteNode nodeId _ =>
    obtain ⟨r, hr, rfl⟩ := List.mem_map.mp hr'
    split_ifs at hstatus ⊢ with hdel
    · exact absurd hdel (hspared r hr hstatus)
    · exact hold r hr hstatus
  | report _ body now item _ _ _ =>
    obtain ⟨r, hr, rfl⟩ := List.mem_map.mp hr'
    rcases hreg : registrationOf db item.edgeNodeId with _ | a
    · rw [hreg] at hstatus
      exact hold r hr hstatus
    · rw [hreg] at hstatus
      rw [atRow_some] at hstatus ⊢
      rcases atKey_cases RegistrationRow.key a.key (reportRegistration body now) r with
        ⟨-, hu⟩ | ⟨hk, hu⟩
      · rw [hu] at hstatus ⊢
        exact hold r hr hstatus
      · rw [hu]
        obtain ⟨hmem, hown⟩ := Table.first_mem hreg
        obtain rfl : r = a := Table.eq_of_key hr hmem hk
        have : r.edgeNodeId = some item.edgeNodeId := by simpa using hown
        exact fun hbad => absurd (this.symm.trans hbad) (Option.some_ne_none _)
  | register body inputs c checked _ =>
    obtain ⟨pem, fingerprint, -, -, rfl⟩ := createNodeRegistration_eq_ok checked
    rcases List.mem_append.mp hr' with hr | hr
    · exact hold r' hr hstatus
    · rw [List.mem_singleton.mp hr] at hstatus
      exact Bool.noConfusion hstatus
  | prove _ _ _ _ _ p _ =>
    obtain ⟨r, hr, rfl⟩ := List.mem_map.mp hr'
    unfold Proof.set at hstatus ⊢
    split_ifs at hstatus ⊢
    · exact Bool.noConfusion hstatus
    · exact hold r hr hstatus
  | expireRegistration _ item now _ _ =>
    obtain ⟨r, hr, rfl⟩ := List.mem_map.mp hr'
    rcases atKey_cases RegistrationRow.key item.id (expireRegistration now) r with
      ⟨-, hu⟩ | ⟨-, hu⟩
    · rw [hu] at hstatus ⊢
      exact hold r hr hstatus
    · rw [hu] at hstatus
      exact Bool.noConfusion hstatus
  | sweep now =>
    obtain ⟨r, hr, rfl⟩ := List.mem_map.mp (List.mem_filter.mp hr').1
    unfold Registrations.sweep at hstatus ⊢
    split_ifs at hstatus ⊢
    · exact Bool.noConfusion hstatus
    · exact hold r hr hstatus
  | accept requestId body inputs a checked _ _ =>
    obtain ⟨hget, happroval, -⟩ := acceptNodeRegistration_eq_ok checked
    obtain ⟨hmem, -⟩ := Table.get?_eq_some.mp hget
    have hnone := hlinked.unlinked a.item hmem (by rw [happroval]; rfl)
    obtain ⟨r, hr, rfl⟩ := List.mem_map.mp hr'
    unfold Acceptance.set at hstatus ⊢
    split_ifs at hstatus ⊢
    · change Lib.Orm.col a.item.edgeNodeId (some a.inputs.nodeId) r.edgeNodeId ≠ none
      rw [hnone, Lib.Orm.col_of_ne (Option.some_ne_none a.inputs.nodeId) r.edgeNodeId]
      exact Option.some_ne_none _
    · exact hold r hr hstatus
  | reject _ _ _ _ d _ =>
    obtain ⟨r, hr, rfl⟩ := List.mem_map.mp hr'
    unfold Rejection.set at hstatus ⊢
    split_ifs at hstatus ⊢
    · exact Bool.noConfusion hstatus
    · exact hold r hr hstatus
  | claimRegistration _ _ _ _ _ c _ _ =>
    obtain ⟨r, hr, rfl⟩ := List.mem_map.mp hr'
    unfold RegistrationClaim.set at hstatus ⊢
    split_ifs at hstatus ⊢ with htakes
    · simp only [RegistrationClaim.takes, Bool.and_eq_true, beq_iff_eq] at htakes
      exact hold r hr (by rw [htakes.1.1.2]; rfl)
    · exact hold r hr hstatus
  | monitor inputs _ =>
    obtain ⟨r, hr, rfl⟩ := List.mem_map.mp hr'
    obtain ⟨-, hnode, hs | hs | hs⟩ := registrationAfter_keep inputs db r
    · rw [hs] at hstatus
      rw [hnode]
      exact hold r hr hstatus
    · rw [hs] at hstatus
      exact Bool.noConfusion hstatus
    · rw [hs] at hstatus
      exact Bool.noConfusion hstatus
  | _ => exact hold r' hr' hstatus

/-- The links, and what `Live` says. -/
def Inv (db : Db) : Prop :=
  Linked db.nodes.rows db.enrollments.rows db.registrations.rows ∧ Live db

theorem Inv.empty : Inv Db.empty := ⟨linked_empty, fun _ hr => absurd hr List.not_mem_nil⟩

/-- **A request that spares such nodes keeps the registrations live.** -/
theorem Inv.step {db db' : Db} {req : Request} (h : Inv db) (hs : Spared db req)
    (hstep : Fleet.step P db req = some db') : Inv db' := by
  obtain rfl := Option.some.inj hstep
  have hlinked := h.1.effect (serve_effect (P := P) db req)
  exact ⟨hlinked, hlinked.live (held_effect h.1 h.2 hs (serve_effect db req))⟩

/-- The deletion of the node of such a registration leaves it without one. -/
theorem not_live_of_not_spared {db db' : Db} {req : Request} (h : Inv db) (hs : ¬ Spared db req)
    (hstep : Fleet.step P db req = some db') : ¬ Live db' := by
  obtain rfl := Option.some.inj hstep
  unfold Spared at hs
  split at hs
  · next nodeId =>
    push Not at hs
    obtain ⟨r, hr, hstatus, hnode⟩ := hs
    obtain ⟨k, hk, ⟨n, hn, hid⟩, -⟩ := h.2 r hr hstatus
    obtain rfl : nodeId = n.id := Option.some.inj (hnode.symm.trans (hk.trans (by rw [hid])))
    intro hlive
    have hmem : detach r ∈ (serve P (.deleteEdgeNode n.id none) db).1.registrations.rows := by
      rw [delete_serves hn]
      exact List.mem_map.mpr ⟨r, hr, if_pos hnode⟩
    obtain ⟨k', hk', -⟩ := hlive (detach r) hmem hstatus
    exact absurd hk' (Option.some_ne_none k').symm
  · exact absurd trivial hs

/-- **Approved, installing and ready registrations have a live node in every state of a run exactly
if it deletes no node of such a registration.** -/
theorem live_iff (reqs : List Request) {db : Db}
    (hr : run (Fleet.step P) Db.empty reqs = some db) :
    Along (Fleet.step P) Spared Db.empty reqs ↔ Visits (Fleet.step P) Live Db.empty reqs :=
  along_iff_visits (I := Inv) (fun _ h => h.2) (fun _ _ _ h hs hstep => h.step hs hstep)
    (fun _ _ _ h hs hstep => not_live_of_not_spared h hs hstep) reqs Db.empty db Inv.empty hr

theorem live_iff_accepted :
    ∃ db, run (Fleet.step sample) Db.empty accepted = some db ∧
      (Along (Fleet.step sample) Spared Db.empty accepted ↔
        Visits (Fleet.step sample) Live Db.empty accepted) := by
  obtain ⟨db, hdb⟩ := run_isSome sample accepted Db.empty
  exact ⟨db, hdb, live_iff _ hdb⟩

/-- Its node is deleted: the registration stays `approved` without a node, and the machine cannot
register again. -/
theorem deleted_node_holds_slot :
    ∃ db, run (Fleet.step sample) Db.empty (accepted ++ [.deleteEdgeNode 1 none]) = some db ∧
      ¬ Live db ∧
      (serve sample (registers "s" 4) db).2 = .refused ⟨409, "Registration already pending"⟩ := by
  obtain ⟨db, hdb⟩ := run_isSome sample (accepted ++ [.deleteEdgeNode 1 none]) Db.empty
  have hslot : ((run (Fleet.step sample) Db.empty (accepted ++ [.deleteEdgeNode 1 none])).all
      fun db => db.registrations.rows.any (fun r => held r.status && r.edgeNodeId.isNone) &&
        (serve sample (registers "s" 4) db).2 ==
          .refused ⟨409, "Registration already pending"⟩) = true := by decide +kernel
  rw [hdb, Option.all_some, Bool.and_eq_true, List.any_eq_true, beq_iff_eq] at hslot
  obtain ⟨⟨r, hr, hslot⟩, hrefused⟩ := hslot
  simp only [Bool.and_eq_true, Option.isNone_iff_eq_none] at hslot
  refine ⟨db, hdb, fun hlive => ?_, hrefused⟩
  obtain ⟨k, hk, -⟩ := hlive r hr hslot.1
  exact absurd (hslot.2.symm.trans hk) (Option.some_ne_none k).symm

end IdenGrid.Control.Links
