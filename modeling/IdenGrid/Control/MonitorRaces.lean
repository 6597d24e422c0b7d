import IdenGrid.Control.Fleet
import IdenGrid.Control.Registrar

/-! # The monitor and the administrators

A run of the monitor loads the enabled nodes, probes them for a long time and writes the columns that
it has changed at the end; in between, administrators change settings, revoke enrollments and
regenerate them. `calm_iff`: no node in maintenance or disabled is ever online and no revoked
enrollment loses its status, exactly if what a commit writes still fits the rows that it finds
(`Fits`). One revocation between a probe and the commit is enough to lose both
(`monitor_overwrites_revocation`). -/

namespace IdenGrid.Control.MonitorRaces

open IdenGrid.Lib.Run IdenGrid.Lib.Store IdenGrid.Lib.WriteBack IdenGrid.Lib.Requests
open IdenGrid.Lib.History IdenGrid.Lib.Orm IdenGrid.Lib.Results
open IdenGrid.Control.Rows IdenGrid.Control.Nodes
open IdenGrid.Control.Monitor hiding Db
open IdenGrid.Control.Registry IdenGrid.Control.NodeAdmin IdenGrid.Control.Enrollments
open IdenGrid.Control.Registrations IdenGrid.Control.Handlers IdenGrid.Control.Registrar
open IdenGrid.Control.Fleet hiding step

/-- The monitor, and what administrators do to settings and enrollments meanwhile. -/
def watched : Request → Bool
  | .runMonitor _ | .updateEdgeNode _ _ | .revokeEdgeEnrollment _ _ _
  | .regenerateEdgeEnrollment _ _ => true
  | _ => false

def admits (_ : List Event) (request : Request) : Bool := watched request

/-- The node is in maintenance or disabled. -/
def Closed (n : NodeRow) : Prop := n.maintenanceMode = true ∨ n.enabled = false

instance (n : NodeRow) : Decidable (Closed n) := inferInstanceAs (Decidable (_ ∨ _))

/-- No node that is in maintenance or disabled is online. -/
def Calm (db : Db) : Prop := ∀ n ∈ db.nodes.rows, Closed n → n.healthStatus ≠ .online

instance (db : Db) : Decidable (Calm db) :=
  inferInstanceAs (Decidable (∀ n ∈ db.nodes.rows, Closed n → n.healthStatus ≠ .online))

/-- A committed revocation revokes its enrollment, and an enrollment that is revoked stays so, unless
the commit regenerates it. -/
structure Kept (c : Commit) (_ : List Event) : Prop where
  revokes : ∀ id fresh now, c.request = .revokeEdgeEnrollment id fresh now →
    ∃ e' ∈ c.made.enrollments.rows, e'.id = id ∧ e'.status = .revoked
  keeps : ∀ e ∈ c.found.enrollments.rows, e.status = .revoked →
    (∀ inputs, c.request ≠ .regenerateEdgeEnrollment e.id inputs) →
    ∃ e' ∈ c.made.enrollments.rows, e'.id = e.id ∧ e'.status = .revoked

/-- The change puts the node in maintenance or disables it. -/
def closes (loaded new : NodeRow) : Prop :=
  loaded.maintenanceMode = false ∧ new.maintenanceMode = true ∨
    loaded.enabled = true ∧ new.enabled = false

/-- What a commit writes still fits the rows that it finds: a node that gets `online` is enabled and
not in maintenance, a node that is put in maintenance or disabled without a new status is not online,
and no revoked enrollment gets another status. -/
structure Fits (s : Office) (request : Request) (plan : Plan) : Prop where
  online : ∀ d ∈ (writes plan).nodes, d.1.healthStatus ≠ .online → d.2.healthStatus = .online →
    ∀ n ∈ s.db.nodes.rows, n.id = d.1.id → ¬ Closed n
  closing : ∀ d ∈ (writes plan).nodes, closes d.1 d.2 → d.1.healthStatus = d.2.healthStatus →
    ∀ n ∈ s.db.nodes.rows, n.id = d.1.id → n.healthStatus ≠ .online
  revoked : ∀ d ∈ (writes plan).enrollments, d.1.status ≠ d.2.status → d.2.status ≠ .revoked →
    (∀ inputs, request ≠ .regenerateEdgeEnrollment d.1.id inputs) →
    ∀ e ∈ s.db.enrollments.rows, e.id = d.1.id → e.status ≠ .revoked

variable {P : Primitives}

/-! ## What the handlers write -/

theorem health_flush (a b x : NodeRow) :
    (nodeMapping.flush a b x).healthStatus = col a.healthStatus b.healthStatus x.healthStatus := rfl

theorem maintenance_flush (a b x : NodeRow) : (nodeMapping.flush a b x).maintenanceMode =
    col a.maintenanceMode b.maintenanceMode x.maintenanceMode := rfl

theorem enabled_flush (a b x : NodeRow) :
    (nodeMapping.flush a b x).enabled = col a.enabled b.enabled x.enabled := rfl

/-- A node that is open is closed exactly by a change that closes it. -/
theorem closed_flush {a b x : NodeRow} (hx : ¬ Closed x) :
    Closed (nodeMapping.flush a b x) ↔ closes a b := by
  unfold Closed at hx
  push Not at hx
  obtain ⟨hm, he⟩ := hx
  have hm : x.maintenanceMode = false := by simpa using hm
  have he : x.enabled = true := by simpa using he
  unfold Closed closes
  rw [maintenance_flush, enabled_flush, hm, he]
  cases a.maintenanceMode <;> cases b.maintenanceMode <;> cases a.enabled <;> cases b.enabled <;>
    simp [col]

/-- A change that leaves the settings alone leaves them as they are stored. -/
theorem closed_flush_same {a b x : NodeRow} (hm : b.maintenanceMode = a.maintenanceMode)
    (he : b.enabled = a.enabled) : Closed (nodeMapping.flush a b x) ↔ Closed x := by
  unfold Closed
  rw [maintenance_flush, enabled_flush, hm, he, col_same, col_same]

theorem enrollment_status_flush (a b x : EnrollmentRow) :
    (enrollmentMapping.flush a b x).status = col a.status b.status x.status := rfl

theorem monitorNode_settings (result : Probe) (t : Readings) (n : NodeRow) :
    (monitorNode result t n).maintenanceMode = n.maintenanceMode ∧
      (monitorNode result t n).enabled = n.enabled := by
  cases result <;> exact ⟨rfl, rfl⟩

/-- An update gives no node the status `online`. -/
theorem patchedHealth_online {body : EdgeNodeUpdateBody} {enabled maintenanceMode : Bool}
    {old : HealthStatus} (h : patchedHealth body enabled maintenanceMode old = .online) :
    old = .online := by
  unfold patchedHealth at h
  split_ifs at h
  exact h

/-- **Only the monitor gives a node the status `online`**, and it leaves the settings alone. -/
theorem write_online {request : Request} {a b : NodeRow} (hreq : watched request = true)
    (h : NodeWrite request a b) (ha : a.healthStatus ≠ .online) (hb : b.healthStatus = .online) :
    b.maintenanceMode = a.maintenanceMode ∧ b.enabled = a.enabled := by
  cases h with
  | updated nodeId body n new patched =>
    obtain ⟨-, -, -, -, -, -, -, -, hhealth⟩ := patch_eq_some patched
    exact absurd (patchedHealth_online (hhealth.symm.trans hb)) ha
  | reported => exact Bool.noConfusion hreq
  | revoked => exact absurd hb (by simp [revokeNode])
  | probed inputs _ result => exact monitorNode_settings result _ a

/-- **Only a revocation writes `revoked`**, and the monitor writes another status only over a status
that it picks. -/
theorem write_status {request : Request} {a b : EnrollmentRow} (hreq : watched request = true)
    (h : EnrollmentWrite P request a b) (hne : a.status ≠ b.status) :
    (∃ fresh now, request = .revokeEdgeEnrollment a.id fresh now ∧ b.status = .revoked) ∨
      (∃ inputs, request = .regenerateEdgeEnrollment a.id inputs) ∨
      (∃ inputs, request = .runMonitor inputs) ∧ b.status ≠ .revoked := by
  cases h with
  | revoked id fresh now e known =>
    subst known
    exact Or.inl ⟨fresh, now, rfl, rfl⟩
  | regenerated id inputs e known =>
    subst known
    exact Or.inr (Or.inl ⟨inputs, rfl⟩)
  | probed inputs _ status now =>
    refine Or.inr (Or.inr ⟨⟨inputs, rfl⟩, ?_⟩)
    change (updateEnrollment status now a.toNodeEnrollment).status ≠ .revoked
    change a.status ≠ (updateEnrollment status now a.toNodeEnrollment).status at hne
    unfold updateEnrollment at hne ⊢
    split_ifs at hne ⊢
    · simp
    · split at hne
      · simp
      · exact absurd rfl hne
  | _ => exact Bool.noConfusion hreq

/-! ## What a request has loaded -/

/-- The nodes that a handler has loaded. -/
def loadedNodes : Handler → List ℕ
  | .probing nodes progress =>
    progress.dirty.nodes.map (fun d => d.1.key) ++ nodes.map NodeRow.key
  | .ready plan => (writes plan).nodes.map fun d => d.1.key
  | .checked _ => []

/-- What is known of a handler that is at work. -/
structure Prepared (P : Primitives) (request : Request) (handler : Handler) : Prop where
  watched : watched request = true
  handles : Handles P request handler
  nodup : (loadedNodes handler).Nodup
  writes : ∀ plan, handler = .ready plan → ∃ dirty answer, plan = .write dirty answer
  revokes : ∀ id fresh now, request = .revokeEdgeEnrollment id fresh now → ∀ plan,
    handler = .ready plan → ∃ d ∈ (Registrar.writes plan).enrollments, d.1.id = id ∧
      d.1.status ≠ d.2.status

def Asserts (P : Primitives) (_ : ℕ) (_ : Office) : Stage → Prop
  | .working request handler _ => Prepared P request handler
  | _ => True

theorem prepared_begin {db : Db} {request : Request} {handler : Handler}
    (hreq : watched request = true) (h : begin P db request = .ok handler) :
    Prepared P request handler := by
  have hhandles := begin_handles h
  cases request with
  | updateEdgeNode nodeId body =>
    obtain ⟨w, -, rfl⟩ := map_eq_ok.mp h
    refine ⟨hreq, hhandles, List.nodup_singleton _, ?_, by simp⟩
    rintro _ ⟨⟩
    exact ⟨_, _, rfl⟩
  | revokeEdgeEnrollment enrollmentId fresh now =>
    obtain ⟨⟨dirty, answer⟩, hw, rfl⟩ := map_eq_ok.mp h
    obtain ⟨item, node, hitem, -, hrevoked, -, rfl⟩ := revokeEdgeEnrollment_eq_ok hw
    refine ⟨hreq, hhandles, List.nodup_singleton _, ?_, ?_⟩
    · rintro _ ⟨⟩
      exact ⟨_, _, rfl⟩
    · rintro id _ _ ⟨⟩ _ ⟨⟩
      exact ⟨_, List.mem_singleton_self _, (Table.get?_eq_some.mp hitem).2, hrevoked⟩
  | regenerateEdgeEnrollment enrollmentId inputs =>
    obtain ⟨⟨dirty, answer⟩, hw, rfl⟩ := map_eq_ok.mp h
    obtain ⟨item, -, -, rfl⟩ := regenerateEdgeEnrollment_eq_ok hw
    refine ⟨hreq, hhandles, List.nodup_nil, ?_, by simp⟩
    rintro _ ⟨⟩
    exact ⟨_, _, rfl⟩
  | runMonitor inputs =>
    obtain rfl := Except.ok.inj h
    refine ⟨hreq, hhandles, ?_, by simp, by simp⟩
    have hperm : (monitoredNodes db).Perm (db.nodes.rows.filter fun n => n.enabled) :=
      List.perm_insertionSort _ _
    have hkeys := hperm.map NodeRow.key
    exact hkeys.nodup_iff.mpr (db.nodes.nodup.sublist (List.filter_sublist.map _))
  | _ => exact Bool.noConfusion hreq

theorem prepared_proceed {db : Db} {request : Request} {handler next : Handler}
    (hp : Prepared P request handler) (h : proceed P db handler = .ok next) :
    Prepared P request next := by
  have hhandles := proceed_handles hp.handles h
  obtain ⟨hreq, hbefore, hnodup, hwrites, hrevokes⟩ := hp
  cases hbefore with
  | checked requestId body authorization inputs claim own =>
    rw [own] at hreq
    exact Bool.noConfusion hreq
  | probing nodes progress own =>
    have hnot : ∀ id fresh now, request ≠ .revokeEdgeEnrollment id fresh now := by simp [own]
    rcases nodes with _ | ⟨n, nodes⟩
    · obtain rfl := Except.ok.inj h
      refine ⟨hreq, hhandles, by simpa [loadedNodes, Registrar.writes] using hnodup, ?_,
        fun id fresh now heq => absurd heq (hnot id fresh now)⟩
      rintro _ ⟨⟩
      exact ⟨_, _, rfl⟩
    · obtain ⟨m, hm, rfl⟩ := map_eq_ok.mp h
      refine ⟨hreq, hhandles, ?_, by simp, fun id fresh now heq => absurd heq (hnot id fresh now)⟩
      unfold MonitorRun.visit at hm
      split at hm
      · simp at hm
      · split_ifs at hm
        obtain rfl := Except.ok.inj hm
        simpa [loadedNodes] using hnodup
  | ready plan sound =>
    obtain rfl := Except.ok.inj h
    exact ⟨hreq, hhandles, hnodup, hwrites, hrevokes⟩

/-! ## A commit -/

/-- The rows after a commit that writes loaded rows back. -/
theorem written_rows {dirty : Dirty} {answer a : Answer} {db db' : Db}
    (h : (Plan.write dirty answer).attempt P db = .ok (db', a)) :
    db'.nodes.rows = db.nodes.rows.map (flushAll nodeMapping dirty.nodes) ∧
      db'.enrollments.rows =
        db.enrollments.rows.map (flushAll enrollmentMapping dirty.enrollments) := by
  obtain ⟨t, ht, heq⟩ := bind_eq_ok.mp (Plan.attempt_eq_ok P h)
  obtain ⟨rfl, -⟩ := Prod.mk.inj (Except.ok.inj heq)
  obtain ⟨hn, he, -⟩ := Tables.flush_eq_ok ht
  exact ⟨hn, he⟩

/-- An enrollment that is written is still there. -/
theorem written_enrollment {dirty : Dirty} {answer a : Answer} {db db' : Db}
    (h : (Plan.write dirty answer).attempt P db = .ok (db', a))
    {d : EnrollmentRow × EnrollmentRow} (hd : d ∈ dirty.enrollments)
    (hne : d.1.status ≠ d.2.status) : ∃ e ∈ db.enrollments.rows, e.id = d.1.id := by
  obtain ⟨t, ht, -⟩ := bind_eq_ok.mp (Plan.attempt_eq_ok P h)
  unfold Tables.flush at ht
  split at ht
  · next nodes enrollments registrations _ he _ =>
    refine mem_of_writeBackAll he hd fun heq => hne ?_
    rw [heq]
  · simp at ht

/-- **A commit keeps the nodes calm exactly if its writes fit the nodes.** -/
theorem calm_commit {s : Office} {request : Request} {dirty : Dirty} {answer a : Answer} {db : Db}
    (hp : Prepared P request (.ready (.write dirty answer)))
    (hattempt : (Plan.write dirty answer).attempt P s.db = .ok (db, a)) (hcalm : Calm s.db) :
    Calm db ↔
      ∀ d ∈ dirty.nodes, ∀ n ∈ s.db.nodes.rows, n.id = d.1.id →
        (d.1.healthStatus ≠ .online → d.2.healthStatus = .online → ¬ Closed n) ∧
        (closes d.1 d.2 → d.1.healthStatus = d.2.healthStatus → n.healthStatus ≠ .online) := by
  obtain ⟨hrows, -⟩ := written_rows hattempt
  have hsound : Sound P request dirty := by
    cases hp.handles with
    | ready _ sound => exact sound
  have hflush : ∀ d ∈ dirty.nodes, ∀ n : NodeRow, n.id = d.1.id →
      flushAll nodeMapping dirty.nodes n = nodeMapping.flush d.1 d.2 n :=
    fun d hd n hid => flushAll_of_mem hp.nodup hd hid
  constructor
  · intro hafter d hd n hn hid
    have hmem : nodeMapping.flush d.1 d.2 n ∈ db.nodes.rows := by
      rw [hrows, ← hflush d hd n hid]
      exact List.mem_map.mpr ⟨n, hn, rfl⟩
    have hsettled := hafter _ hmem
    rw [health_flush] at hsettled
    constructor
    · intro ha hb hclosed
      obtain ⟨hm, he⟩ := write_online hp.watched (hsound.nodes d hd) ha hb
      rw [closed_flush_same hm he, hb, col_of_ne (Ne.symm ha)] at hsettled
      exact hsettled hclosed rfl
    · intro hcloses hsame honline
      have hopen : ¬ Closed n := fun hclosed => hcalm n hn hclosed honline
      rw [closed_flush hopen, hsame, col_same] at hsettled
      exact hsettled hcloses honline
  · intro hfits n' hn' hclosed honline
    rw [hrows] at hn'
    obtain ⟨n, hn, rfl⟩ := List.mem_map.mp hn'
    by_cases hloaded : ∃ d ∈ dirty.nodes, n.id = d.1.id
    swap
    · push Not at hloaded
      rw [flushAll_of_notMem fun d hd heq => hloaded d hd heq.symm] at hclosed honline
      exact hcalm n hn hclosed honline
    obtain ⟨d, hd, hid⟩ := hloaded
    rw [hflush d hd n hid] at hclosed honline
    rw [health_flush] at honline
    obtain ⟨hgets, hcloses⟩ := hfits d hd n hn hid
    by_cases hsame : d.1.healthStatus = d.2.healthStatus
    · -- the status is not written, so that the row was online before
      rw [hsame, col_same] at honline
      have hopen : ¬ Closed n := fun hclosed => hcalm n hn hclosed honline
      exact hcloses ((closed_flush hopen).mp hclosed) hsame honline
    · rw [col_of_ne (Ne.symm hsame)] at honline
      have ha : d.1.healthStatus ≠ .online := fun h => hsame (h.trans honline.symm)
      obtain ⟨hm, he⟩ := write_online hp.watched (hsound.nodes d hd) ha honline
      exact hgets ha honline ((closed_flush_same hm he).mp hclosed)

/-- **A commit keeps the revoked enrollments exactly if its writes fit the enrollments.** -/
theorem kept_commit {r n : ℕ} {s : Office} {request : Request} {dirty : Dirty} {answer a : Answer}
    {db : Db} (hp : Prepared P request (.ready (.write dirty answer)))
    (hattempt : (Plan.write dirty answer).attempt P s.db = .ok (db, a)) :
    Kept ⟨r, request, .write dirty answer, n, s.db, db, a⟩ s.log ↔
      ∀ d ∈ dirty.enrollments, d.1.status ≠ d.2.status → d.2.status ≠ .revoked →
        (∀ inputs, request ≠ .regenerateEdgeEnrollment d.1.id inputs) →
        ∀ e ∈ s.db.enrollments.rows, e.id = d.1.id → e.status ≠ .revoked := by
  obtain ⟨-, hrows⟩ := written_rows hattempt
  have hsound : Sound P request dirty := by
    cases hp.handles with
    | ready _ sound => exact sound
  have hafter : ∀ e ∈ s.db.enrollments.rows,
      flushAll enrollmentMapping dirty.enrollments e ∈ db.enrollments.rows := fun e he => by
    rw [hrows]
    exact List.mem_map.mpr ⟨e, he, rfl⟩
  have hid : ∀ e : EnrollmentRow,
      (flushAll enrollmentMapping dirty.enrollments e).id = e.id := fun e =>
    flushAll_key (m := enrollmentMapping) _ e
  constructor
  · intro hkept d hd hne hother hnot e he hown hrevoked
    obtain ⟨e', he', hid', hstill⟩ := hkept.keeps e he hrevoked fun inputs => by
      rw [hown]
      exact hnot inputs
    obtain rfl : e' = flushAll enrollmentMapping dirty.enrollments e :=
      Table.eq_of_key he' (hafter e he) (hid'.trans (hid e).symm)
    obtain ⟨d', hd', -, hne', hnew⟩ := flushAll_written (c := fun e : EnrollmentRow => e.status)
      (m := enrollmentMapping) enrollment_status_flush ⟨d, hd, hown.symm, hne⟩
    have hd'new : d'.2.status = .revoked := hnew.symm.trans hstill
    -- only a revocation writes this, and the write of `d` is none
    rcases write_status hp.watched (hsound.enrollments d hd) hne with
      ⟨fresh, now, -, hbad⟩ | ⟨inputs, hbad⟩ | ⟨⟨inputs, hmonitor⟩, -⟩
    · exact hother hbad
    · exact hnot inputs hbad
    · rcases write_status hp.watched (hsound.enrollments d' hd') hne' with
        ⟨fresh, now, hbad, -⟩ | ⟨inputs, hbad⟩ | ⟨-, hbad⟩
      · exact absurd (hmonitor.symm.trans hbad) (by simp)
      · exact absurd (hmonitor.symm.trans hbad) (by simp)
      · exact hbad hd'new
  · intro hfits
    constructor
    · rintro id fresh now hrequest
      obtain ⟨d, hd, rfl, hne⟩ := hp.revokes id fresh now hrequest _ rfl
      obtain ⟨e, he, hown⟩ := written_enrollment hattempt hd hne
      refine ⟨_, hafter e he, (hid e).trans hown, ?_⟩
      obtain ⟨d', hd', -, hne', hnew⟩ := flushAll_written (c := fun e : EnrollmentRow => e.status)
        (m := enrollmentMapping) enrollment_status_flush ⟨d, hd, hown.symm, hne⟩
      change (flushAll enrollmentMapping dirty.enrollments e).status = d'.2.status at hnew
      rw [hnew]
      change request = _ at hrequest
      rcases write_status hp.watched (hsound.enrollments d' hd') hne' with
        ⟨-, -, -, hrevoked⟩ | ⟨inputs, hbad⟩ | ⟨⟨inputs, hbad⟩, -⟩
      · exact hrevoked
      · exact absurd (hrequest.symm.trans hbad) (by simp)
      · exact absurd (hrequest.symm.trans hbad) (by simp)
    · intro e he hrevoked hnot
      refine ⟨_, hafter e he, hid e, ?_⟩
      rcases flushAll_column (c := fun e : EnrollmentRow => e.status) (m := enrollmentMapping)
        enrollment_status_flush dirty.enrollments e with hsame | ⟨d, hd, hk, hne, hnew⟩
      · exact hsame.trans hrevoked
      · have hown : e.id = d.1.id := hk.symm
        by_contra hlost
        refine hfits d hd hne (fun h => hlost (hnew.trans h)) (fun inputs => ?_) e he hown hrevoked
        rw [← hown]
        exact hnot inputs

/-! ## Every interleaving -/

/-- Neither a step of a request nor one of another request disturbs its assertion. -/
theorem asserts_local (r : ℕ) (s : Office) (stage : Stage) (move : Move) (s' : Office)
    (stage' : Stage) (_ : True) (hA : Asserts P r s stage)
    (ha : Acts P admits r s stage move s' stage') : True ∧ Asserts P r s' stage' := by
  refine ⟨trivial, ?_⟩
  cases ha with
  | began request handler admitted read => exact prepared_begin admitted read
  | proceeded request handler next n _ read => exact prepared_proceed hA read
  | signed => exact hA
  | _ => trivial

/-- What the registry is to keep: the nodes are calm and no revocation is lost. -/
def Upholds (s : Office) : Prop := Calm s.db ∧ Every (committed Kept) s.log

/-- **A commit keeps up what it has found exactly if its writes fit.** -/
theorem upholds_commit (r : ℕ) (s : Office) (request : Request) (plan : Plan) (n : ℕ) (db : Db)
    (answer : Answer) (hs : Upholds s) (hA : Asserts P r s (.working request (.ready plan) n))
    (hattempt : plan.attempt P s.db = .ok (db, answer)) :
    Fits s request plan ↔
      Upholds { db := db
                log := .committed ⟨r, request, plan, n, s.db, db, answer⟩ :: s.log } := by
  have hp : Prepared P request (.ready plan) := hA
  obtain ⟨dirty, reply, rfl⟩ := hp.writes plan rfl
  have hcalm := calm_commit hp hattempt hs.1
  have hkept := kept_commit (r := r) (n := n) hp hattempt
  constructor
  · intro hfits
    refine ⟨hcalm.mpr fun d hd n hn hid => ⟨fun ha hb => ?_, fun hcloses hsame => ?_⟩, ?_, hs.2⟩
    · exact hfits.online d hd ha hb n hn hid
    · exact hfits.closing d hd hcloses hsame n hn hid
    · exact hkept.mpr hfits.revoked
  · rintro ⟨hafter, hnow, -⟩
    have hnodes := hcalm.mp hafter
    constructor
    · exact fun d hd ha hb n hn hid => (hnodes d hd n hn hid).1 ha hb
    · exact fun d hd hcloses hsame n hn hid => (hnodes d hd n hn hid).2 hcloses hsame
    · exact hkept.mp hnow

/-- **The monitor and the administrators**: no node in maintenance or disabled is ever online and no
revoked enrollment loses its status, exactly as long as every commit fits what it finds. -/
theorem calm_iff (db : Db) (hcalm : Calm db) (as : List (ℕ × Move)) {t : Crew Office Stage}
    (hr : run (step (act P admits)) (start db) as = some t) :
    Along (step (act P admits)) (Meets P Fits) (start db) as ↔
      Visits (step (act P admits)) (fun c => Upholds c.shared) (start db) as := by
  refine meets_iff (I := fun _ => True) (A := Asserts P) asserts_local
    (fun _ _ _ _ _ _ _ _ _ _ _ _ h => h) (fun s e he hs => ?_)
    (fun r s request plan n db answer _ hs => upholds_commit r s request plan n db answer hs) as
    ⟨trivial, fun _ => trivial⟩ ⟨hcalm, trivial⟩ hr
  refine ⟨hs.1, ?_, hs.2⟩
  cases e with
  | committed c => exact absurd rfl (he c)
  | _ => trivial

/-- A host has reported that its installation is ready. -/
def reported : Db := completed.foldl (fun db request => (serve sample request db).1) Db.empty

/-- The node goes into maintenance before the monitor loads it. -/
def calmRound : List (ℕ × Move) :=
  [(0, .begin (.updateEdgeNode 1 { maintenanceMode := some (some true) })), (0, .proceed),
    (1, .begin (.runMonitor goodRound)), (1, .proceed), (1, .proceed), (1, .proceed)]

theorem calm_iff_round : ∃ t,
    run (step (act sample admits)) (start reported) calmRound = some t ∧
      (Along (step (act sample admits)) (Meets sample Fits) (start reported) calmRound ↔
        Visits (step (act sample admits)) (fun c => Upholds c.shared) (start reported)
          calmRound) := by
  obtain ⟨t, ht⟩ : ∃ t, run (step (act sample admits)) (start reported) calmRound = some t :=
    Option.isSome_iff_exists.mp (by decide +kernel)
  exact ⟨t, ht, calm_iff reported (by decide +kernel) calmRound ht⟩

/-- The enrollment is revoked after the probe of its node, and before the commit. -/
def lateRound : List (ℕ × Move) :=
  [(0, .begin (.runMonitor goodRound)), (0, .proceed), (0, .proceed),
    (1, .begin (.revokeEdgeEnrollment "enrollment" "fresh" 5)), (1, .proceed), (0, .proceed)]

/-- A commit of the monitor after which no enrollment is revoked, though one was. -/
def unrevokes (c : Commit) : Bool :=
  (c.request matches .runMonitor _) && c.found.enrollments.rows.any fun e =>
    e.status == .revoked && c.made.enrollments.rows.all fun e' => e'.status != .revoked

/-- **A revocation is lost**: the node is online though it is disabled, and its enrollment is online
though it has been revoked. -/
theorem monitor_overwrites_revocation : ∃ t,
    run (step (act sample admits)) (start reported) lateRound = some t ∧
      ¬ Calm t.shared.db ∧ ¬ Every (committed Kept) t.shared.log := by
  have hbad : ((run (step (act sample admits)) (start reported) lateRound).any fun t =>
      !decide (Calm t.shared.db) && (latest t.shared.log).any unrevokes) = true := by
    decide +kernel
  obtain ⟨t, ht, hbad⟩ := Option.any_eq_true _ _ |>.mp hbad
  obtain ⟨hexposed, hlost⟩ := (Bool.and_eq_true _ _).mp hbad
  refine ⟨t, ht, by simpa using hexposed, fun hevery => ?_⟩
  obtain ⟨c, hc, hlost⟩ := Option.any_eq_true _ _ |>.mp hlost
  obtain ⟨older, hlog⟩ := latest_eq_some hc
  rw [hlog] at hevery
  have hkept : Kept c older := hevery.1
  simp only [unrevokes, Bool.and_eq_true, List.any_eq_true, List.all_eq_true, beq_iff_eq,
    bne_iff_ne] at hlost
  obtain ⟨hmonitored, e, he, hrevoked, hnone⟩ := hlost
  obtain ⟨e', he', -, hstill⟩ := hkept.keeps e he hrevoked fun inputs hbad => by
    rw [hbad] at hmonitored
    exact Bool.noConfusion hmonitored
  exact hnone e' he' hstill

end IdenGrid.Control.MonitorRaces
