import IdenGrid.Control.Links

/-! # Reports with a valid token

A report moves the registration of its node back into a status that holds the slots of its machine
and of its key. `applied_iff`: it is applied exactly if no other registration has taken one of them
in the meantime (`Blocked`); otherwise the host gets an unhandled `IntegrityError`.

A `ready` report enables the node. `stays_disabled_iff`: a node that an administrator has disabled
stays so, until an administrator acts on it, exactly if no `ready` report of it is applied. -/

namespace IdenGrid.Control.Reports

open IdenGrid.Lib.Run IdenGrid.Lib.Store IdenGrid.Lib.WriteBack IdenGrid.Lib.Results
open IdenGrid.Control.Nodes
open IdenGrid.Control.Monitor hiding Db
open IdenGrid.Control.Registry IdenGrid.Control.NodeAdmin IdenGrid.Control.Enrollments
open IdenGrid.Control.Registrations IdenGrid.Control.Handlers IdenGrid.Control.Fleet
open IdenGrid.Control.Links

/-- The report would take the slot of the machine or of the key of its registration, and another
registration has it. -/
def Blocked (body : EdgeEnrollmentReportBody) (item : EnrollmentRow) (db : Db) : Prop :=
  body.phase ≠ .failed ∧
    ∃ r ∈ db.registrations.rows, r.edgeNodeId = some item.edgeNodeId ∧
      ∃ x ∈ db.registrations.rows, x.id ≠ r.id ∧ x.active = true ∧
        (r.machineFingerprint = x.machineFingerprint ∨
          r.publicKeyFingerprint = x.publicKeyFingerprint)

variable (P : Primitives)

/-- **The report is applied**: it is answered with the new status and the phase; the stored
enrollment and the stored registration of its node have the status, the time of the report and the
error of a failed installation, the enrollment the phase as well, and their other fields are as
before; the node of a finished installation is enabled. -/
structure Applied (authorization : Option String) (body : EdgeEnrollmentReportBody) (now : ℕ)
    (item : EnrollmentRow) (db : Db) : Prop where
  answer : (serve P (.reportEdgeEnrollment authorization body now) db).2 =
    .reported
      (if body.phase = .failed then .failed else if body.phase = .ready then .ready else .installing)
      (some body.phase.name)
  enrollment :
    { item with
      status :=
        if body.phase = .failed then .failed else if body.phase = .ready then .ready else .installing
      phase := some body.phase.name
      updatedAt := now
      lastError :=
        if body.phase = .failed ∧ body.error ≠ some "" then body.error.map cleanText else none } ∈
      (serve P (.reportEdgeEnrollment authorization body now) db).1.enrollments.rows
  registration : ∀ r ∈ db.registrations.rows, r.edgeNodeId = some item.edgeNodeId →
    { r with
      status :=
        if body.phase = .failed then .failed else if body.phase = .ready then .ready else .installing
      updatedAt := now
      lastError :=
        if body.phase = .failed ∧ body.error ≠ some "" then body.error.map cleanText else none } ∈
      (serve P (.reportEdgeEnrollment authorization body now) db).1.registrations.rows
  node : body.phase = .ready → ∀ n ∈ db.nodes.rows, n.id = item.edgeNodeId →
    { n with enabled := true, healthStatus := .unknown, lastError := none } ∈
      (serve P (.reportEdgeEnrollment authorization body now) db).1.nodes.rows

theorem phaseStatus_eq (phase : Phase) : phase.status =
    if phase = .failed then .failed else if phase = .ready then .ready else .installing := by
  cases phase <;> rfl

theorem phaseRegistrationStatus_eq (phase : Phase) : phase.registrationStatus =
    if phase = .failed then .failed else if phase = .ready then .ready else .installing := by
  cases phase <;> rfl

theorem reportedError_eq (body : EdgeEnrollmentReportBody) : reportedError body =
    if body.phase = .failed ∧ body.error ≠ some "" then body.error.map cleanText else none := by
  unfold reportedError
  by_cases hphase : body.phase = .failed
  · rcases herror : body.error with _ | error
    · simp
    · by_cases hempty : error = ""
      · simp [hempty, Option.filter]
      · simp [hphase, hempty, Option.filter]
  · simp [hphase]

/-- The row that the handler leaves of an enrollment, field by field. -/
theorem reportEnrollment_eq (body : EdgeEnrollmentReportBody) (now : ℕ) (item : EnrollmentRow) :
    reportEnrollment body now item =
      { item with
        status :=
          if body.phase = .failed then .failed else if body.phase = .ready then .ready else .installing
        phase := some body.phase.name
        updatedAt := now
        lastError :=
          if body.phase = .failed ∧ body.error ≠ some "" then body.error.map cleanText else none } := by
  rw [reportEnrollment, reportedError_eq, phaseStatus_eq]

/-- The same of a registration. -/
theorem reportRegistration_eq (body : EdgeEnrollmentReportBody) (now : ℕ) (r : RegistrationRow) :
    reportRegistration body now r =
      { r with
        status :=
          if body.phase = .failed then .failed else if body.phase = .ready then .ready else .installing
        updatedAt := now
        lastError :=
          if body.phase = .failed ∧ body.error ≠ some "" then body.error.map cleanText else none } := by
  rw [reportRegistration, reportedError_eq, phaseRegistrationStatus_eq]

variable {P}

/-- A change of one row keeps the slots apart, if the slot that it takes is free. -/
theorem unique_slot {rows : List RegistrationRow} {column : RegistrationRow → String} {k : String}
    {f : RegistrationRow → RegistrationRow}
    (h : ∀ a ∈ rows, ∀ b ∈ rows, a.active = true → b.active = true → column a = column b →
      a.id = b.id)
    (hf : ∀ x, (f x).id = x.id ∧ column (f x) = column x)
    (hfree : ∀ x ∈ rows, x.id = k → (f x).active = true → ∀ y ∈ rows, y.id ≠ k →
      y.active = true → column x ≠ column y) :
    ∀ a ∈ rows.map (atKey RegistrationRow.key k f), ∀ b ∈ rows.map (atKey RegistrationRow.key k f),
      a.active = true → b.active = true → column a = column b → a.id = b.id := by
  intro a ha b hb hactive hactive' heq
  obtain ⟨x, hx, rfl⟩ := List.mem_map.mp ha
  obtain ⟨y, hy, rfl⟩ := List.mem_map.mp hb
  rcases atKey_cases RegistrationRow.key k f x with ⟨hkx, h1⟩ | ⟨hkx, h1⟩ <;>
    rcases atKey_cases RegistrationRow.key k f y with ⟨hky, h2⟩ | ⟨hky, h2⟩ <;>
    rw [h1] at hactive heq ⊢ <;> rw [h2] at hactive' heq ⊢
  · exact h x hx y hy hactive hactive' heq
  · rw [(hf y).2] at heq
    exact absurd heq.symm (hfree y hy hky hactive' x hx hkx hactive)
  · rw [(hf x).2] at heq
    exact absurd heq (hfree x hx hkx hactive y hy hky hactive')
  · rw [(hf x).1, (hf y).1]
    exact hkx.trans hky.symm

/-- The handler of a report with a valid token goes on to its commit. -/
theorem report_prepares {db : Db} {authorization : Option String}
    (body : EdgeEnrollmentReportBody) {now : ℕ} {item : EnrollmentRow}
    (hlinked : Linked db.nodes.rows db.enrollments.rows db.registrations.rows)
    (hitem : reportItem P authorization now db = some item) :
    reportEdgeEnrollment P authorization body now db =
      .ok (reportDirty body now item
          (if body.phase = .ready then db.nodes.get? item.edgeNodeId else none) db,
        .reported body.phase.status (some body.phase.name)) := by
  obtain ⟨n, hn, hid⟩ := hlinked.enrollmentNode item (reportItem_eq_some hitem).1
  have hget : db.nodes.get? item.edgeNodeId = some n := Table.get?_eq_some.mpr ⟨hn, hid⟩
  unfold reportEdgeEnrollment
  rw [hitem]
  dsimp only
  by_cases hready : body.phase = .ready
  · rw [if_pos hready, if_pos hready, hget]
  · rw [if_neg hready, if_neg hready]

/-- A report that is not blocked leaves the indexes unique. -/
theorem report_unique {db : Db} {t : Tables} {body : EdgeEnrollmentReportBody} {now : ℕ}
    {item : EnrollmentRow} {node : Option NodeRow}
    (hlinked : Linked db.nodes.rows db.enrollments.rows db.registrations.rows)
    (hfree : ¬ Blocked body item db)
    (hnodes : t.nodes.rows = db.nodes.rows.map (atRow NodeRow.key node reportNode))
    (henrollments : t.enrollments.rows =
      db.enrollments.rows.map (atKey EnrollmentRow.key item.id (reportEnrollment body now)))
    (hregistrations : t.registrations.rows = db.registrations.rows.map (atRow RegistrationRow.key
      (registrationOf db item.edgeNodeId) (reportRegistration body now))) : t.Unique := by
  have hkeep : ∀ x, (atRow NodeRow.key node reportNode x).id = x.id ∧
      (atRow NodeRow.key node reportNode x).name = x.name ∧
      (atRow NodeRow.key node reportNode x).endpoint = x.endpoint := by
    intro x
    rcases node with _ | a
    · exact ⟨rfl, rfl, rfl⟩
    · rcases atKey_cases NodeRow.key a.key reportNode x with ⟨-, h⟩ | ⟨-, h⟩ <;>
        rw [atRow_some, h] <;> exact ⟨rfl, rfl, rfl⟩
  have hslots : ∀ column : RegistrationRow → String,
      (∀ a ∈ db.registrations.rows, ∀ b ∈ db.registrations.rows, a.active = true →
        b.active = true → column a = column b → a.id = b.id) →
      (∀ x, column (reportRegistration body now x) = column x) →
      (∀ r x, column r = column x → r.machineFingerprint = x.machineFingerprint ∨
        r.publicKeyFingerprint = x.publicKeyFingerprint) →
      ∀ a ∈ t.registrations.rows, ∀ b ∈ t.registrations.rows, a.active = true →
        b.active = true → column a = column b → a.id = b.id := by
    intro column hcolumn hsame heither
    rw [hregistrations]
    rcases hreg : registrationOf db item.edgeNodeId with _ | r
    · rw [map_atRow_none]
      exact hcolumn
    · rw [atRow_some]
      refine unique_slot hcolumn (fun x => ⟨rfl, hsame x⟩) ?_
      intro x hx hxid hactive y hy hne hactive' heq
      obtain ⟨hr, hown⟩ := Table.first_mem hreg
      obtain rfl : x = r := Table.eq_of_key hx hr hxid
      refine hfree ⟨fun hfailed => ?_, x, hx, by simpa using hown, y, hy, hne, hactive',
        heither x y heq⟩
      simp [reportRegistration, RegistrationRow.active, hfailed,
        Phase.registrationStatus] at hactive
  constructor
  · rw [hnodes]
    intro a ha b hb heq
    obtain ⟨x, hx, rfl⟩ := List.mem_map.mp ha
    obtain ⟨y, hy, rfl⟩ := List.mem_map.mp hb
    rw [(hkeep x).2.1, (hkeep y).2.1] at heq
    rw [(hkeep x).1, (hkeep y).1]
    exact db.unique.name x hx y hy heq
  · rw [hnodes]
    intro a ha b hb heq
    obtain ⟨x, hx, rfl⟩ := List.mem_map.mp ha
    obtain ⟨y, hy, rfl⟩ := List.mem_map.mp hb
    rw [(hkeep x).2.2, (hkeep y).2.2] at heq
    rw [(hkeep x).1, (hkeep y).1]
    exact db.unique.endpoint x hx y hy heq
  · rw [henrollments]
    intro a ha b hb _ _ heq
    obtain ⟨x, hx, rfl⟩ := List.mem_map.mp ha
    obtain ⟨y, hy, rfl⟩ := List.mem_map.mp hb
    rw [atKey_keep (c := fun e : EnrollmentRow => e.edgeNodeId) fun _ => rfl,
      atKey_keep (c := fun e : EnrollmentRow => e.edgeNodeId) fun _ => rfl] at heq
    rw [atKey_keep (c := fun e : EnrollmentRow => e.id) fun _ => rfl,
      atKey_keep (c := fun e : EnrollmentRow => e.id) fun _ => rfl]
    exact hlinked.oneEnrollment x hx y hy heq
  · exact hslots _ db.unique.machine (fun _ => rfl) fun _ _ h => Or.inl h
  · exact hslots _ db.unique.publicKey (fun _ => rfl) fun _ _ h => Or.inr h

/-- **What a report that is not blocked does.** -/
theorem report_serves {db : Db} {authorization : Option String} {body : EdgeEnrollmentReportBody}
    {now : ℕ} {item : EnrollmentRow}
    (hlinked : Linked db.nodes.rows db.enrollments.rows db.registrations.rows)
    (hitem : reportItem P authorization now db = some item) (hfree : ¬ Blocked body item db) :
    ∃ db', serve P (.reportEdgeEnrollment authorization body now) db =
        (db', .reported body.phase.status (some body.phase.name)) ∧
      db'.nodes.rows = db.nodes.rows.map (atRow NodeRow.key
        (if body.phase = .ready then db.nodes.get? item.edgeNodeId else none) reportNode) ∧
      db'.enrollments.rows =
        db.enrollments.rows.map (atKey EnrollmentRow.key item.id (reportEnrollment body now)) ∧
      db'.registrations.rows = db.registrations.rows.map (atRow RegistrationRow.key
        (registrationOf db item.edgeNodeId) (reportRegistration body now)) := by
  have hw := report_prepares body hlinked hitem
  set node := if body.phase = .ready then db.nodes.get? item.edgeNodeId else none with hnode
  have hrows : ∀ t, db.toTables.flush (reportDirty body now item node db) = .ok t →
      t.nodes.rows = db.nodes.rows.map (atRow NodeRow.key node reportNode) ∧
      t.enrollments.rows =
        db.enrollments.rows.map (atKey EnrollmentRow.key item.id (reportEnrollment body now)) ∧
      t.registrations.rows = db.registrations.rows.map (atRow RegistrationRow.key
        (registrationOf db item.edgeNodeId) (reportRegistration body now)) := by
    intro t ht
    obtain ⟨item', node', hitem', hnode', h1, h2, h3⟩ := report_rows hw ht
    obtain rfl : item = item' := Option.some.inj (hitem.symm.trans hitem')
    rw [h1, hnode', ← hnode]
    exact ⟨rfl, h2, h3⟩
  obtain ⟨t, hu, hflush, hattempt⟩ := write_attempt (P := P)
    (reportDirty body now item node db) (.reported body.phase.status (some body.phase.name))
    (by
      intro d hd
      obtain ⟨a, ha, rfl⟩ : ∃ a, node = some a ∧ (a, reportNode a) = d := by
        simpa [reportDirty] using hd
      rw [hnode] at ha
      split_ifs at ha
      exact ⟨a, (Table.get?_eq_some.mp ha).1, rfl⟩)
    (by
      intro d hd
      obtain rfl := List.mem_singleton.mp hd
      exact ⟨item, (reportItem_eq_some hitem).1, rfl⟩)
    (by
      intro d hd
      obtain ⟨a, ha, rfl⟩ : ∃ a, registrationOf db item.edgeNodeId = some a ∧
          (a, reportRegistration body now a) = d := by simpa [reportDirty] using hd
      exact ⟨a, (Table.first_mem ha).1, rfl⟩)
    (fun t ht => report_unique hlinked hfree (hrows t ht).1 (hrows t ht).2.1 (hrows t ht).2.2)
  have hprepare : prepare P db (.reportEdgeEnrollment authorization body now) =
      .ok (.write (reportDirty body now item node db)
        (.reported body.phase.status (some body.phase.name))) :=
    bind_eq_ok.mpr ⟨_, map_eq_ok.mpr ⟨_, hw, rfl⟩, rfl⟩
  exact ⟨⟨t, hu⟩, serve_eq hprepare hattempt, hrows t hflush⟩

/-- **What a report that is blocked does**: nothing. -/
theorem report_blocked {db : Db} {authorization : Option String} {body : EdgeEnrollmentReportBody}
    {now : ℕ} {item : EnrollmentRow}
    (hlinked : Linked db.nodes.rows db.enrollments.rows db.registrations.rows)
    (hitem : reportItem P authorization now db = some item) (hblocked : Blocked body item db) :
    ∃ refusal, serve P (.reportEdgeEnrollment authorization body now) db =
      (db, .refused refusal) := by
  have hw := report_prepares body hlinked hitem
  have hprepare : prepare P db (.reportEdgeEnrollment authorization body now) =
      .ok (.ofWrite _) := bind_eq_ok.mpr ⟨_, map_eq_ok.mpr ⟨_, hw, rfl⟩, rfl⟩
  rcases hattempt : (prepare P db (.reportEdgeEnrollment authorization body now)).bind
    (fun plan => plan.attempt P db) with refusal | ⟨db', answer⟩
  · exact ⟨refusal, serve_refused hattempt⟩
  · rw [hprepare] at hattempt
    have hflush := write_commit P (Plan.attempt_eq_ok P hattempt)
    obtain ⟨item', node, hitem', -, -, -, hregistrations⟩ := report_rows hw hflush
    obtain rfl : item = item' := Option.some.inj (hitem.symm.trans hitem')
    obtain ⟨hphase, r, hr, hnode, x, hx, hne, hactive, hslot⟩ := hblocked
    rw [registrationOf_eq hlinked hr hnode, atRow_some] at hregistrations
    have hr' : reportRegistration body now r ∈ db'.registrations.rows := by
      rw [hregistrations]
      exact List.mem_map.mpr ⟨r, hr, if_pos rfl⟩
    have hx' : x ∈ db'.registrations.rows := by
      rw [hregistrations]
      exact List.mem_map.mpr ⟨x, hx, if_neg hne⟩
    have hactive' : (reportRegistration body now r).active = true := by
      obtain ⟨phase, _⟩ := body
      cases phase <;> first | rfl | exact absurd rfl hphase
    rcases hslot with h | h
    · exact absurd (db'.unique.machine _ hr' _ hx' hactive' hactive h).symm hne
    · exact absurd (db'.unique.publicKey _ hr' _ hx' hactive' hactive h).symm hne

/-- **A valid report is applied, exactly if it is not blocked**, in every state that any requests
lead to. -/
theorem applied_iff (reqs : List Request) {db : Db}
    (hr : run (Fleet.step P) Db.empty reqs = some db) {authorization : Option String} {now : ℕ}
    {item : EnrollmentRow} (hitem : reportItem P authorization now db = some item)
    (body : EdgeEnrollmentReportBody) :
    Applied P authorization body now item db ↔ ¬ Blocked body item db := by
  have hlinked := linked_of_run hr
  constructor
  · intro happlied hblocked
    obtain ⟨refusal, hrefused⟩ := report_blocked hlinked hitem hblocked
    have hanswer := happlied.answer
    rw [hrefused] at hanswer
    simp at hanswer
  · intro hfree
    obtain ⟨db', hserve, hnodes, henrollments, hregistrations⟩ :=
      report_serves hlinked hitem hfree
    refine ⟨?_, ?_, fun r hr hnode => ?_, fun hready n hn hid => ?_⟩ <;> rw [hserve]
    · rw [phaseStatus_eq]
    · rw [← reportEnrollment_eq, henrollments]
      exact List.mem_map.mpr ⟨item, (reportItem_eq_some hitem).1, if_pos rfl⟩
    · rw [← reportRegistration_eq, hregistrations, registrationOf_eq hlinked hr hnode, atRow_some]
      exact List.mem_map.mpr ⟨r, hr, if_pos rfl⟩
    · have hget : db.nodes.get? item.edgeNodeId = some n := Table.get?_eq_some.mpr ⟨hn, hid⟩
      rw [hnodes, if_pos hready, hget, atRow_some]
      exact List.mem_map.mpr ⟨n, hn, if_pos rfl⟩

theorem applied_iff_installed : ∃ db item,
    run (Fleet.step sample) Db.empty installed = some db ∧
      reportItem sample (reportHeader "r") 4 db = some item ∧
      (Applied sample (reportHeader "r") { phase := .starting } 4 item db ↔
        ¬ Blocked { phase := .starting } item db) := by
  obtain ⟨db, hdb⟩ := run_isSome sample installed Db.empty
  have hsome : ((run (Fleet.step sample) Db.empty installed).any fun db =>
      (reportItem sample (reportHeader "r") 4 db).isSome) = true := by decide +kernel
  rw [hdb, Option.any_some] at hsome
  obtain ⟨item, hitem⟩ := Option.isSome_iff_exists.mp hsome
  exact ⟨db, item, hdb, hitem, applied_iff installed hdb hitem _⟩

/-- The installation fails, the machine registers again, and the host goes on reporting. -/
theorem report_after_new_registration : ∃ db item,
    run (Fleet.step sample) Db.empty
        (installed ++ [reports "r" .failed 4, registers "s" 5]) = some db ∧
      reportItem sample (reportHeader "r") 6 db = some item ∧
      (serve sample (reports "r" .starting 6) db).2 = .refused serverError ∧
      ¬ Applied sample (reportHeader "r") { phase := .starting } 6 item db := by
  obtain ⟨db, hdb⟩ := run_isSome sample (installed ++ [reports "r" .failed 4, registers "s" 5])
    Db.empty
  have hserved : ((run (Fleet.step sample) Db.empty
      (installed ++ [reports "r" .failed 4, registers "s" 5])).any fun db =>
        (reportItem sample (reportHeader "r") 6 db).isSome &&
          (serve sample (reports "r" .starting 6) db).2 == .refused serverError) = true := by
    decide +kernel
  rw [hdb, Option.any_some, Bool.and_eq_true, beq_iff_eq] at hserved
  obtain ⟨hsome, hrefused⟩ := hserved
  obtain ⟨item, hitem⟩ := Option.isSome_iff_exists.mp hsome
  refine ⟨db, item, hdb, hitem, hrefused, fun happlied => ?_⟩
  exact absurd (hrefused.symm.trans happlied.answer) (by simp)

/-! ## A disabled node -/

/-- Every node of this id is disabled. -/
def Disabled (nodeId : ℕ) (db : Db) : Prop :=
  ∀ n ∈ db.nodes.rows, n.id = nodeId → n.enabled = false

variable (P) in
/-- The requests of a run in which no administrator changes or deletes the node. -/
def unattended (nodeId : ℕ) (db : Db) (req : Request) : Option Db :=
  match req with
  | .updateEdgeNode k _ | .deleteEdgeNode k _ => if k = nodeId then none else Fleet.step P db req
  | _ => Fleet.step P db req

variable (P) in
/-- No `ready` report of the node with a valid token is applied. -/
def Harmless (nodeId : ℕ) (db : Db) : Request → Prop
  | .reportEdgeEnrollment authorization body now => body.phase = .ready →
      ∀ item, reportItem P authorization now db = some item → item.edgeNodeId = nodeId →
        Blocked body item db
  | _ => True

theorem unattended_eq_some {nodeId : ℕ} {db db' : Db} {req : Request}
    (h : unattended P nodeId db req = some db') :
    Fleet.step P db req = some db' ∧ (∀ body, req ≠ .updateEdgeNode nodeId body) ∧
      ∀ boundStore, req ≠ .deleteEdgeNode nodeId boundStore := by
  unfold unattended at h
  split at h
  · next k body =>
    split_ifs at h with hk
    exact ⟨h, fun _ heq => hk (Request.updateEdgeNode.inj heq).1, by simp⟩
  · next k boundStore =>
    split_ifs at h with hk
    exact ⟨h, by simp, fun _ heq => hk (Request.deleteEdgeNode.inj heq).1⟩
  · next h1 h2 => exact ⟨h, fun body heq => h1 nodeId body heq, fun b heq => h2 nodeId b heq⟩

/-- A node that nobody deletes is still there. -/
theorem node_stays {db : Db} {req : Request} {ns : List NodeRow} {es : List EnrollmentRow}
    {rs : List RegistrationRow} {nodeId : ℕ} (h : Effect P db req ns es rs)
    (hreq : ∀ boundStore, req ≠ .deleteEdgeNode nodeId boundStore)
    (hn : ∃ n ∈ db.nodes.rows, n.id = nodeId) : ∃ n ∈ ns, n.id = nodeId := by
  obtain ⟨n, hn, rfl⟩ := hn
  cases h with
  | createNode | createEnrollment | accept => exact ⟨n, List.mem_append_left _ hn, rfl⟩
  | deleteNode k _ =>
    refine ⟨n, List.mem_filter.mpr ⟨hn, decide_eq_true fun heq => ?_⟩, rfl⟩
    exact hreq none (by rw [heq])
  | updateNode k body loaded new checked =>
    obtain ⟨-, hpatch, -⟩ := updateEdgeNode_eq_ok checked
    exact keep_ids (fun x => atKey_keep (c := fun n : NodeRow => n.id) fun hk =>
      (patch_eq_some hpatch).1.trans hk.symm) n hn
  | report _ _ _ _ node _ _ =>
    refine keep_ids (fun x => ?_) n hn
    rcases node with _ | a
    · rfl
    · exact atKey_keep (c := fun n : NodeRow => n.id) fun _ => rfl
  | revoke => exact keep_ids (fun x => atKey_keep (c := fun n : NodeRow => n.id) fun _ => rfl) n hn
  | monitor inputs _ => exact keep_ids (nodeAfter_id inputs) n hn
  | _ => exact ⟨n, hn, rfl⟩

/-- The node is there and disabled. -/
structure Off (nodeId : ℕ) (db : Db) : Prop where
  linked : Linked db.nodes.rows db.enrollments.rows db.registrations.rows
  node : ∃ n ∈ db.nodes.rows, n.id = nodeId
  disabled : Disabled nodeId db

/-- **A harmless request leaves a disabled node disabled.** -/
theorem Off.step {nodeId : ℕ} {db db' : Db} {req : Request} (h : Off nodeId db)
    (hc : Harmless P nodeId db req) (hs : unattended P nodeId db req = some db') :
    Off nodeId db' := by
  obtain ⟨hs, hupdate, hdelete⟩ := unattended_eq_some hs
  obtain rfl := Option.some.inj hs
  refine ⟨h.linked.effect (serve_effect (P := P) db req),
    node_stays (serve_effect db req) hdelete h.node, fun n hn hid => ?_⟩
  cases (serve_effect (P := P) db req).nodeChange hn with
  | kept _ _ hmem => exact h.disabled n hmem hid
  | created _ _ hfresh _ _ =>
    obtain ⟨x, hx, hxid⟩ := h.node
    exact absurd (hxid.trans hid.symm) (hfresh x hx)
  | updated k body loaded _ checked =>
    obtain ⟨hget, hpatch, -⟩ := updateEdgeNode_eq_ok checked
    obtain ⟨-, hk⟩ := Table.get?_eq_some.mp hget
    refine absurd ?_ (hupdate body)
    rw [← hid, (patch_eq_some hpatch).1, ← hk, NodeRow.key_eq]
  | reported authorization body now item x hx valid ready own =>
    have hown : item.edgeNodeId = nodeId := own.symm.trans hid
    obtain ⟨refusal, hrefused⟩ := report_blocked h.linked valid (hc ready item valid hown)
    rw [hrefused] at hn
    exact h.disabled _ hn hid
  | revoked => rfl
  | probed inputs x hx =>
    have hsame : (nodeAfter inputs x).enabled = x.enabled := by
      unfold nodeAfter
      split
      · next result _ =>
        split_ifs
        · cases result <;> rfl
        · rfl
      · rfl
    rw [hsame]
    exact h.disabled x hx ((nodeAfter_id inputs x).symm.trans hid)

/-- A request that is not harmless enables the node. -/
theorem not_disabled_of_not_harmless {nodeId : ℕ} {db db' : Db} {req : Request}
    (h : Off nodeId db) (hc : ¬ Harmless P nodeId db req)
    (hs : unattended P nodeId db req = some db') : ¬ Disabled nodeId db' := by
  obtain ⟨hs, -⟩ := unattended_eq_some hs
  obtain rfl := Option.some.inj hs
  unfold Harmless at hc
  split at hc
  · next authorization body now =>
    push Not at hc
    obtain ⟨hready, item, hitem, hown, hfree⟩ := hc
    obtain ⟨db', hserve, hnodes, -⟩ := report_serves h.linked hitem hfree
    obtain ⟨n, hn, hid⟩ := h.node
    have hget : db.nodes.get? item.edgeNodeId = some n :=
      Table.get?_eq_some.mpr ⟨hn, hid.trans hown.symm⟩
    rw [hserve]
    intro hdisabled
    have hmem : reportNode n ∈ db'.nodes.rows := by
      rw [hnodes, if_pos hready, hget, atRow_some]
      exact List.mem_map.mpr ⟨n, hn, if_pos rfl⟩
    exact Bool.noConfusion (hdisabled (reportNode n) hmem hid)
  · exact absurd trivial hc

/-- The node that an administrator has disabled. -/
theorem Off.start {db : Db} {nodeId : ℕ} {body : EdgeNodeUpdateBody} {w : NodeRow × NodeRow}
    (hlinked : Linked db.nodes.rows db.enrollments.rows db.registrations.rows)
    (hw : updateEdgeNode P nodeId body db = .ok w) (hoff : body.enabled = some (some false)) :
    Off nodeId (serve P (.updateEdgeNode nodeId body) db).1 := by
  obtain ⟨loaded, new⟩ := w
  have hmem := update_serves hw
  obtain ⟨hget, hpatch, -⟩ := updateEdgeNode_eq_ok hw
  obtain ⟨-, hk⟩ := Table.get?_eq_some.mp hget
  obtain ⟨hnew, -, -, -, -, henabled, -⟩ := patch_eq_some hpatch
  have hid : new.id = nodeId := hnew.trans hk
  refine ⟨hlinked.effect (serve_effect (P := P) db _), ⟨new, hmem, hid⟩, fun n hn heq => ?_⟩
  obtain rfl : n = new := Table.eq_of_key hn hmem (heq.trans hid.symm)
  rw [hoff] at henabled
  exact (Option.some.inj henabled).symm

/-- **A node that an administrator has disabled stays so, until an administrator changes it or
deletes it, exactly if no `ready` report of it with a valid token is applied.** -/
theorem stays_disabled_iff (reqs : List Request) {db₀ : Db}
    (hr : run (Fleet.step P) Db.empty reqs = some db₀) {nodeId : ℕ} {body : EdgeNodeUpdateBody}
    {w : NodeRow × NodeRow} (hw : updateEdgeNode P nodeId body db₀ = .ok w)
    (hoff : body.enabled = some (some false)) (later : List Request) {db : Db}
    (hlater : run (unattended P nodeId) (serve P (.updateEdgeNode nodeId body) db₀).1 later =
      some db) :
    Along (unattended P nodeId) (Harmless P nodeId)
        (serve P (.updateEdgeNode nodeId body) db₀).1 later ↔
      Visits (unattended P nodeId) (Disabled nodeId)
        (serve P (.updateEdgeNode nodeId body) db₀).1 later :=
  along_iff_visits (I := Off nodeId) (fun _ h => h.disabled) (fun _ _ _ h hc hs => h.step hc hs)
    (fun _ _ _ h hc hs => not_disabled_of_not_harmless h hc hs) later _ db
    (Off.start (linked_of_run hr) hw hoff) hlater

def switchOff : EdgeNodeUpdateBody := { enabled := some (some false) }

/-- An administrator can disable the node, and the host can report after that. -/
theorem switchOff_isSome (phase : Phase) : ∃ db₀ w db,
    run (Fleet.step sample) Db.empty completed = some db₀ ∧
      updateEdgeNode sample 1 switchOff db₀ = .ok w ∧
      run (unattended sample 1) (serve sample (.updateEdgeNode 1 switchOff) db₀).1
        [reports "r" phase 6] = some db := by
  obtain ⟨db₀, hdb₀⟩ := run_isSome sample completed Db.empty
  have hok : ((run (Fleet.step sample) Db.empty completed).any fun db =>
      (updateEdgeNode sample 1 switchOff db).isOk) = true := by decide +kernel
  rw [hdb₀, Option.any_some] at hok
  rcases hw : updateEdgeNode sample 1 switchOff db₀ with refusal | w
  · rw [hw] at hok
    exact Bool.noConfusion hok
  · exact ⟨db₀, w, _, hdb₀, hw, rfl⟩

theorem stays_disabled_iff_starting : ∃ db₀ w db,
    run (Fleet.step sample) Db.empty completed = some db₀ ∧
      updateEdgeNode sample 1 switchOff db₀ = .ok w ∧
      run (unattended sample 1) (serve sample (.updateEdgeNode 1 switchOff) db₀).1
        [reports "r" .starting 6] = some db ∧
      (Along (unattended sample 1) (Harmless sample 1)
          (serve sample (.updateEdgeNode 1 switchOff) db₀).1 [reports "r" .starting 6] ↔
        Visits (unattended sample 1) (Disabled 1)
          (serve sample (.updateEdgeNode 1 switchOff) db₀).1 [reports "r" .starting 6]) := by
  obtain ⟨db₀, w, db, h1, h2, h3⟩ := switchOff_isSome .starting
  exact ⟨db₀, w, db, h1, h2, h3, stays_disabled_iff completed h1 h2 rfl _ h3⟩

/-- The host reports `ready` once more, and the node is enabled. -/
theorem report_enables_node : ∃ db₀ w db,
    run (Fleet.step sample) Db.empty completed = some db₀ ∧
      updateEdgeNode sample 1 switchOff db₀ = .ok w ∧
      run (unattended sample 1) (serve sample (.updateEdgeNode 1 switchOff) db₀).1
        [reports "r" .ready 6] = some db ∧
      ¬ Disabled 1 db := by
  obtain ⟨db₀, w, db, h1, h2, h3⟩ := switchOff_isSome .ready
  have henabled : ((run (Fleet.step sample) Db.empty completed).any fun db =>
      (serve sample (reports "r" .ready 6)
        (serve sample (.updateEdgeNode 1 switchOff) db).1).1.nodes.rows.any fun n =>
          n.id == 1 && n.enabled) = true := by decide +kernel
  rw [h1, Option.any_some, List.any_eq_true] at henabled
  obtain ⟨n, hn, hnode⟩ := henabled
  rw [Bool.and_eq_true, beq_iff_eq] at hnode
  obtain rfl : (serve sample (reports "r" .ready 6)
      (serve sample (.updateEdgeNode 1 switchOff) db₀).1).1 = db := Option.some.inj h3
  exact ⟨db₀, w, _, h1, h2, h3, fun h => Bool.noConfusion ((h n hn hnode.1).symm.trans hnode.2)⟩

end IdenGrid.Control.Reports
