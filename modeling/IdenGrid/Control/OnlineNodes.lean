import IdenGrid.Control.Fleet

/-! # What the status `online` of an Edge node says

Stores are routed through a node because it is `online`. `Validated`: such a node is enabled, not in
maintenance, and its expected address, if it has one, is what the monitor last observed at its
current endpoint.

Every operation keeps this but two: `update_edge_node` resets the status only if it is given
`enabled` or `maintenance_mode`, so that a new endpoint or a new expected address leaves an `online`
node `online`; and the monitor asks the central node at a URL of its own and not at its endpoint.
`validated_iff`: the requests that do no harm are exactly the `Careful` ones. -/

namespace IdenGrid.Control.OnlineNodes

open IdenGrid.Lib.Run IdenGrid.Lib.Store IdenGrid.Lib.WriteBack IdenGrid.Lib.Unicode
open IdenGrid.Lib.Results
open IdenGrid.Control.Nodes
open IdenGrid.Control.Monitor hiding Db
open IdenGrid.Control.Registry IdenGrid.Control.NodeAdmin IdenGrid.Control.Handlers
open IdenGrid.Control.Fleet hiding step

/-- The registry, and the URL at which the monitor last observed the address of each node. -/
structure Watched where
  db : Db
  observed : ℕ → Option String

/-- What a run of the monitor observes. -/
def observe (inputs : MonitorInputs) (db : Db) (observed : ℕ → Option String) (nodeId : ℕ) :
    Option String :=
  match monitored inputs db nodeId with
  | some (n, .accepted _ _ _) => some (statusUrl inputs.config n.toEdgeNode)
  | _ => observed nodeId

variable (P : Primitives)

/-- One request; a run of the monitor that goes through observes. -/
def step (s : Watched) (req : Request) : Option Watched :=
  let served := serve P req s.db
  some
    { db := served.1
      observed :=
        match req, served.2 with
        | .runMonitor inputs, .monitored _ => observe inputs s.db s.observed
        | _, _ => s.observed }

def start : Watched where
  db := Db.empty
  observed := fun _ => none

/-- The expected address is the recorded one, observed at the current endpoint. -/
def Egress (observed : ℕ → Option String) (n : NodeRow) : Prop :=
  ∀ ip, n.expectedPublicIpv4 = some ip →
    observed n.id = some (endpointStatusUrl n.endpoint) ∧
      n.status.actualPublicIpv4 = some (.str (text ip))

/-- **Online implies validated egress.** -/
def Validated (s : Watched) : Prop :=
  ∀ n ∈ s.db.nodes.rows, n.healthStatus = .online →
    n.enabled = true ∧ n.maintenanceMode = false ∧ Egress s.observed n

/-- An update that leaves an `online` node `online` leaves it with no expected address, or with the
recorded address as the expected one and the endpoint at which that was observed. A run of the
monitor that goes through and finds a node with an expected address `online` has asked it at its
endpoint. -/
def Careful (s : Watched) : Request → Prop
  | .updateEdgeNode nodeId body =>
    ∀ w, updateEdgeNode P nodeId body s.db = .ok w →
      ∀ n ∈ s.db.nodes.rows, n.id = nodeId → n.healthStatus = .online →
        body.enabled = none → body.maintenanceMode = none →
        ∀ ip, body.expectedPublicIpv4.getD n.expectedPublicIpv4 = some ip →
          (changed body.endpoint n.endpoint).map endpointStatusUrl = s.observed n.id ∧
            n.status.actualPublicIpv4 = some (.str (text ip))
  | .runMonitor inputs =>
    (∃ results, (serve P (.runMonitor inputs) s.db).2 = .monitored results) →
      ∀ n ∈ s.db.nodes.rows, n.enabled = true → n.maintenanceMode = false →
        n.expectedPublicIpv4 ≠ none →
        (∃ result, probeOf inputs n = some result ∧ result.health = .online) →
          n.name = inputs.config.centralNodeName →
            inputs.config.centralStatusUrl = endpointStatusUrl n.endpoint
  | _ => True

/-! ## What the monitor finds -/

/-- A node that a probe finds `online` answers with the address it is expected to have. -/
theorem healthOf_online {payload : Payload} {expected : Option String}
    (h : healthOf payload expected = .online) {ip : String} (hip : expected = some ip)
    (hne : ip ≠ "") : payload.publicIpv4 = .str (text ip) := by
  unfold healthOf at h
  split_ifs at h with h1 h2
  simpa [hip, hne] using h1

theorem judge_online {c : Config} {expected : Option String} {samples : List Sample} {result : Probe}
    (h : judge c expected samples = some result) (honline : result.health = .online) :
    ∃ latency payload, result = .accepted .online latency payload ∧
      healthOf payload expected = .online := by
  unfold judge at h
  split at h
  · obtain rfl := Option.some.inj h
    simp [Probe.health] at honline
  · split_ifs at h with hfew
    · obtain rfl := Option.some.inj h
      simp [Probe.health] at honline
    · split at h
      · obtain rfl := Option.some.inj h
        simp [Probe.health] at honline
      · next payload d hlast =>
        split_ifs at h with hsame
        · obtain rfl := Option.some.inj h
          simp [Probe.health] at honline
        · obtain ⟨latency, -, rfl⟩ := Option.map_eq_some_iff.mp h
          have hh : healthOf payload expected = .online := honline
          exact ⟨latency, payload, by rw [hh], hh⟩

theorem probeOf_online {inputs : MonitorInputs} {n : NodeRow} {result : Probe}
    (h : probeOf inputs n = some result) (honline : result.health = .online) :
    ∃ latency payload, result = .accepted .online latency payload ∧
      healthOf payload n.expectedPublicIpv4 = .online := by
  obtain ⟨samples, -, hjudge⟩ := Option.bind_eq_some_iff.mp h
  exact judge_online hjudge honline

variable {P}

/-- A run of the monitor goes through, or changes nothing. -/
theorem serve_monitor (inputs : MonitorInputs) (db : Db) :
    (serve P (.runMonitor inputs) db).1 = db ∧
        (∀ results, (serve P (.runMonitor inputs) db).2 ≠ .monitored results) ∨
      ∃ results, (serve P (.runMonitor inputs) db).2 = .monitored results ∧
        (∀ n ∈ db.nodes.rows, n.enabled = true → ∃ result, probeOf inputs n = some result) ∧
        (serve P (.runMonitor inputs) db).1.nodes.rows =
          db.nodes.rows.map (nodeAfter inputs) := by
  unfold serve
  split
  · next result h =>
    obtain ⟨plan, hplan, hattempt⟩ := bind_eq_ok.mp h
    obtain ⟨m, hm, hplan⟩ := bind_eq_ok.mp (show (monitoredNodes db).foldlM _ _ >>= _ = _ from hplan)
    obtain rfl := Except.ok.inj hplan
    have hc : Plan.commit P _ db.toTables = .ok (result.1.toTables, result.2) :=
      Plan.attempt_eq_ok P hattempt
    obtain ⟨hprobed, hrows, -⟩ := monitor_rows hm (write_commit P hc)
    refine Or.inr ⟨m.results, ?_, hprobed, hrows⟩
    obtain ⟨t, -, hc⟩ := bind_eq_ok.mp hc
    exact (Prod.mk.inj (Except.ok.inj hc)).2.symm
  · exact Or.inl ⟨rfl, by simp⟩

/-! ## The invariant -/

/-- `Validated`, and no node expects an empty address. -/
structure Inv (s : Watched) : Prop where
  validated : Validated s
  expected : ∀ n ∈ s.db.nodes.rows, n.expectedPublicIpv4 ≠ some ""

theorem Inv.start : Inv start where
  validated := by intro n hn; exact absurd hn List.not_mem_nil
  expected := by intro n hn; exact absurd hn List.not_mem_nil

/-- A node after its round of the monitor, where that has found it `online`. -/
theorem nodeAfter_online {inputs : MonitorInputs} {db : Db} (observed : ℕ → Option String)
    {n : NodeRow} (hn : n ∈ db.nodes.rows) (hne : n.expectedPublicIpv4 ≠ some "")
    (hbefore : n.healthStatus = .online → n.enabled = true)
    (hprobed : n.enabled = true → ∃ result, probeOf inputs n = some result)
    (hasked : n.enabled = true → n.maintenanceMode = false → n.expectedPublicIpv4 ≠ none →
      (∃ result, probeOf inputs n = some result ∧ result.health = .online) →
        n.name = inputs.config.centralNodeName →
          inputs.config.centralStatusUrl = endpointStatusUrl n.endpoint)
    (honline : (nodeAfter inputs n).healthStatus = .online) :
    (nodeAfter inputs n).enabled = true ∧ (nodeAfter inputs n).maintenanceMode = false ∧
      Egress (observe inputs db observed) (nodeAfter inputs n) := by
  by_cases hen : n.enabled = true
  swap
  · have hsame : nodeAfter inputs n = n := by
      unfold nodeAfter
      split
      · rw [if_neg hen]
      · rfl
    rw [hsame] at honline
    exact absurd (hbefore honline) hen
  obtain ⟨result, hresult⟩ := hprobed hen
  have hafter : nodeAfter inputs n = monitorNode result (inputs.clock n.id) n := by
    simp [nodeAfter, hresult, hen]
  have hmon := monitored_eq_some.mpr ⟨hn, rfl, hen, hresult⟩
  rw [hafter] at honline ⊢
  have hhealth : effective n.toEdgeNode result.health = .online := by
    cases result <;> exact honline
  by_cases hmaint : n.maintenanceMode = true
  · simp [effective, hmaint] at hhealth
  have hh : result.health = .online := by simpa [effective, hmaint] using hhealth
  have hoff : n.maintenanceMode = false := by simpa using hmaint
  have hurl : n.expectedPublicIpv4 ≠ none →
      statusUrl inputs.config n.toEdgeNode = endpointStatusUrl n.endpoint := by
    intro hsome
    unfold statusUrl
    split_ifs with hcentral
    · exact hasked hen hoff hsome ⟨result, hresult, hh⟩ hcentral
    · rfl
  obtain ⟨latency, payload, rfl, hpayload⟩ := probeOf_online hresult hh
  refine ⟨hen, hoff, fun ip hip => ⟨?_, ?_⟩⟩
  · change observe inputs db observed n.id = some (endpointStatusUrl n.endpoint)
    have hip : n.expectedPublicIpv4 = some ip := hip
    rw [← hurl (by rw [hip]; exact Option.some_ne_none ip)]
    simp [observe, hmon]
  · have hip : n.expectedPublicIpv4 = some ip := hip
    have hne : ip ≠ "" := fun h => hne (by rw [hip, h])
    change some payload.publicIpv4 = _
    rw [healthOf_online hpayload hip hne]

/-- The status after an update is `online` only where it was before, with neither of the fields
that reset it. -/
theorem patchedHealth_online {body : EdgeNodeUpdateBody} {enabled maintenanceMode : Bool}
    {old : HealthStatus} (h : patchedHealth body enabled maintenanceMode old = .online) :
    enabled = true ∧ maintenanceMode = false ∧ body.enabled = none ∧
      body.maintenanceMode = none ∧ old = .online := by
  unfold patchedHealth at h
  split_ifs at h with h1 h2 h3
  push Not at h3
  exact ⟨by simpa using h2, by simpa using h1, by simpa using h3.2, by simpa using h3.1, h⟩

/-- Only the monitor observes. -/
theorem step_observed {s s' : Watched} {req : Request} (hs : step P s req = some s')
    (hreq : ∀ inputs, req ≠ .runMonitor inputs) : s'.observed = s.observed := by
  obtain rfl := Option.some.inj hs
  cases req with
  | runMonitor inputs => exact absurd rfl (hreq inputs)
  | _ => rfl

/-- A careful run of the monitor keeps the invariant. -/
theorem Inv.monitor {s s' : Watched} {inputs : MonitorInputs} (h : Inv s)
    (hc : Careful P s (.runMonitor inputs)) (hs : step P s (.runMonitor inputs) = some s') : Inv s' := by
  obtain rfl := Option.some.inj hs
  rcases serve_monitor (P := P) inputs s.db with ⟨hdb, hno⟩ | ⟨results, hanswer, hprobed, hrows⟩
  · have hsame : (match (Request.runMonitor inputs), (serve P (.runMonitor inputs) s.db).2 with
        | .runMonitor inputs, .monitored _ => observe inputs s.db s.observed
        | _, _ => s.observed) = s.observed := by
      rcases hans : (serve P (.runMonitor inputs) s.db).2 with _ | _ | _ | _ | _ | _ | _ | _ | _ |
        _ | _ | _ | _ | _ | results
      all_goals first | rfl | exact absurd hans (hno results)
    constructor
    · intro n hn honline
      change n ∈ (serve P (.runMonitor inputs) s.db).1.nodes.rows at hn
      rw [hdb] at hn
      have := h.validated n hn honline
      simp only at this ⊢
      rw [hsame]
      exact this
    · intro n hn
      change n ∈ (serve P (.runMonitor inputs) s.db).1.nodes.rows at hn
      rw [hdb] at hn
      exact h.expected n hn
  · have hmem : ∀ n ∈ (serve P (.runMonitor inputs) s.db).1.nodes.rows,
        ∃ x ∈ s.db.nodes.rows, nodeAfter inputs x = n := by
      intro n hn
      rw [hrows] at hn
      exact List.mem_map.mp hn
    constructor
    · intro n hn honline
      obtain ⟨x, hx, rfl⟩ := hmem n hn
      have hbefore := fun ho => (h.validated x hx ho).1
      have := nodeAfter_online s.observed hx (h.expected x hx) hbefore (hprobed x hx)
        (hc ⟨results, hanswer⟩ x hx) honline
      rw [hanswer]
      exact this
    · intro n hn
      obtain ⟨x, hx, rfl⟩ := hmem n hn
      have hsame : (nodeAfter inputs x).expectedPublicIpv4 = x.expectedPublicIpv4 := by
        unfold nodeAfter
        split
        · next result _ =>
          split_ifs
          · cases result <;> rfl
          · rfl
        · rfl
      rw [hsame]
      exact h.expected x hx

/-- **A careful request keeps the invariant.** -/
theorem Inv.step {s s' : Watched} {req : Request} (h : Inv s) (hc : Careful P s req)
    (hs : OnlineNodes.step P s req = some s') : Inv s' := by
  by_cases hreq : ∃ inputs, req = .runMonitor inputs
  · obtain ⟨inputs, rfl⟩ := hreq
    exact h.monitor hc hs
  push Not at hreq
  have hobserved := step_observed hs hreq
  obtain rfl := Option.some.inj hs
  have hchange : ∀ n ∈ (serve P req s.db).1.nodes.rows, NodeChange P s.db req n := fun n hn =>
    (serve_effect s.db req).nodeChange hn
  constructor
  · intro n hn honline
    rw [hobserved]
    cases hchange n hn with
    | kept _ _ hmem => exact h.validated n hmem honline
    | created _ _ _ hhealth _ => exact absurd honline hhealth
    | updated nodeId body loaded _ checked =>
      obtain ⟨hget, hpatch, -, -⟩ := updateEdgeNode_eq_ok checked
      obtain ⟨hmem, hid⟩ := Table.get?_eq_some.mp hget
      obtain ⟨hnew, -, hstatus, -, hendpoint, -, -, hexpected, hhealth⟩ := patch_eq_some hpatch
      obtain ⟨hen, hmaint, hben, hbmaint, hold⟩ := patchedHealth_online (hhealth ▸ honline)
      refine ⟨hen, hmaint, fun ip hip => ?_⟩
      obtain ⟨h1, h2⟩ := hc _ checked loaded hmem hid hold hben hbmaint ip (hexpected ▸ hip)
      rw [hstatus, hnew, ← h1, hendpoint]
      exact ⟨rfl, h2⟩
    | reported _ _ _ _ x _ _ _ _ => exact absurd honline (by simp [Enrollments.reportNode])
    | revoked _ _ _ _ x _ _ _ => exact absurd honline (by simp [Enrollments.revokeNode])
    | probed inputs x _ => exact absurd rfl (hreq inputs)
  · intro n hn
    cases hchange n hn with
    | kept _ _ hmem => exact h.expected n hmem
    | created _ _ _ _ hexpected => exact hexpected
    | updated nodeId body loaded _ checked =>
      obtain ⟨-, -, -, hne⟩ := updateEdgeNode_eq_ok checked
      exact hne
    | reported _ _ _ _ x hmem _ _ _ => exact h.expected x hmem
    | revoked _ _ _ _ x hmem _ _ => exact h.expected x hmem
    | probed inputs x _ => exact absurd rfl (hreq inputs)

/-- A node that is found `online` by a run of the monitor that goes through is `online` after it. -/
theorem serve_monitor_online {inputs : MonitorInputs} {db : Db} {results : List (String × HealthStatus)}
    (hanswer : (serve P (.runMonitor inputs) db).2 = .monitored results) {n : NodeRow}
    (hn : n ∈ db.nodes.rows) (hen : n.enabled = true) (hoff : n.maintenanceMode = false)
    {result : Probe} (hresult : probeOf inputs n = some result) (honline : result.health = .online) :
    nodeAfter inputs n ∈ (serve P (.runMonitor inputs) db).1.nodes.rows ∧
      (nodeAfter inputs n).healthStatus = .online := by
  have hafter : nodeAfter inputs n = monitorNode result (inputs.clock n.id) n := by
    simp [nodeAfter, hresult, hen]
  have heffective : effective n.toEdgeNode result.health = .online := by
    simp [effective, hoff, honline]
  refine ⟨?_, ?_⟩
  · rcases serve_monitor (P := P) inputs db with ⟨-, hno⟩ | ⟨_, -, -, hrows⟩
    · exact absurd hanswer (hno results)
    · rw [hrows]
      exact List.mem_map_of_mem hn
  · rw [hafter]
    cases result <;> exact heffective

/-- A request that is not careful breaks what `online` says. -/
theorem not_validated_of_not_careful {s s' : Watched} {req : Request} (h : Inv s)
    (hc : ¬ Careful P s req) (hs : OnlineNodes.step P s req = some s') : ¬ Validated s' := by
  cases req with
  | runMonitor inputs =>
    obtain rfl := Option.some.inj hs
    unfold Careful at hc
    push Not at hc
    obtain ⟨⟨results, hanswer⟩, n, hn, hen, hoff, hsome, ⟨result, hresult, honline⟩, hcentral,
      hother⟩ := hc
    obtain ⟨hmem, hhealth⟩ := serve_monitor_online hanswer hn hen hoff hresult honline
    have hkeep : (nodeAfter inputs n).id = n.id ∧ (nodeAfter inputs n).endpoint = n.endpoint ∧
        (nodeAfter inputs n).expectedPublicIpv4 = n.expectedPublicIpv4 := by
      have hafter : nodeAfter inputs n = monitorNode result (inputs.clock n.id) n := by
        simp [nodeAfter, hresult, hen]
      rw [hafter]
      cases result <;> exact ⟨rfl, rfl, rfl⟩
    obtain ⟨ip, hip⟩ := Option.ne_none_iff_exists'.mp hsome
    intro hv
    obtain ⟨-, -, hegress⟩ := hv (nodeAfter inputs n) hmem hhealth
    obtain ⟨hobserved, -⟩ := hegress ip (hkeep.2.2.trans hip)
    rw [hanswer] at hobserved
    obtain ⟨latency, payload, rfl, -⟩ := probeOf_online hresult honline
    have hmon := monitored_eq_some.mpr ⟨hn, rfl, hen, hresult⟩
    rw [hkeep.1, hkeep.2.1] at hobserved
    simp only [observe, hmon, statusUrl, if_pos hcentral, Option.some.injEq] at hobserved
    exact hother hobserved
  | updateEdgeNode nodeId body =>
    obtain rfl := Option.some.inj hs
    unfold Careful at hc
    push Not at hc
    obtain ⟨⟨loaded, new⟩, hw, n, hn, hid, honline, hben, hbmaint, ip, hip, hbad⟩ := hc
    obtain ⟨hget, hpatch, -, -⟩ := updateEdgeNode_eq_ok hw
    obtain ⟨hmem, hlid⟩ := Table.get?_eq_some.mp hget
    obtain rfl : n = loaded := Table.eq_of_key hn hmem (hid.trans hlid.symm)
    obtain ⟨hnew, -, hstatus, -, hendpoint, hen, hmaint, hexpected, hhealth⟩ := patch_eq_some hpatch
    obtain ⟨hnen, hnmaint, -⟩ := h.validated n hn honline
    have hen' : new.enabled = true := by
      rw [hben] at hen
      exact (Option.some.inj hen).symm.trans hnen
    have hmaint' : new.maintenanceMode = false := by
      rw [hbmaint] at hmaint
      exact (Option.some.inj hmaint).symm.trans hnmaint
    have hnew_online : new.healthStatus = .online := by
      rw [hhealth, hen', hmaint', honline]
      simp [patchedHealth, hben, hbmaint]
    intro hv
    obtain ⟨-, -, hegress⟩ := hv new (update_serves hw) hnew_online
    obtain ⟨h1, h2⟩ := hegress ip (hexpected.trans hip)
    refine hbad ?_ (hstatus ▸ h2)
    rw [hendpoint, ← hnew]
    exact h1.symm
  | _ => exact absurd trivial hc

/-- **Online implies validated egress, exactly as long as every request is careful.** -/
theorem validated_iff (reqs : List Request) {s : Watched}
    (hr : run (OnlineNodes.step P) start reqs = some s) :
    Along (OnlineNodes.step P) (Careful P) start reqs ↔
      Visits (OnlineNodes.step P) Validated start reqs :=
  along_iff_visits (I := Inv) (fun _ h => h.validated) (fun _ _ _ h hc hs => h.step hc hs)
    (fun _ _ _ h hc hs => not_validated_of_not_careful h hc hs) reqs start s Inv.start hr

/-- Creating a node, a good round of the monitor, and an update. -/
def sampleRun (body : EdgeNodeUpdateBody) : List Request :=
  [.createEdgeNode sampleNode 1, .runMonitor goodRound, .updateEdgeNode 1 body]

theorem sampleRun_isSome (body : EdgeNodeUpdateBody) :
    ∃ s, run (OnlineNodes.step sample) start (sampleRun body) = some s :=
  ⟨_, rfl⟩

/-- A change of the name keeps the node validated. -/
theorem validated_iff_rename :
    ∃ s, run (OnlineNodes.step sample) start (sampleRun { name := some (some "edge-b") }) = some s ∧
      (Along (OnlineNodes.step sample) (Careful sample) start
          (sampleRun { name := some (some "edge-b") }) ↔
        Visits (OnlineNodes.step sample) Validated start
          (sampleRun { name := some (some "edge-b") })) := by
  obtain ⟨s, hs⟩ := sampleRun_isSome { name := some (some "edge-b") }
  exact ⟨s, hs, validated_iff _ hs⟩

/-- A new endpoint leaves the node `online`, though nothing has been observed there. -/
theorem moved_node_stays_online :
    ∃ s, run (OnlineNodes.step sample) start
        (sampleRun { endpoint := some (some "https://b.example") }) = some s ∧
      ¬ Validated s := by
  obtain ⟨s, hs⟩ := sampleRun_isSome { endpoint := some (some "https://b.example") }
  have hmoved : ((run (OnlineNodes.step sample) start
      (sampleRun { endpoint := some (some "https://b.example") })).any fun s =>
        s.db.nodes.rows.any fun n => n.healthStatus == .online && n.expectedPublicIpv4.isSome &&
          s.observed n.id != some (endpointStatusUrl n.endpoint)) = true := by decide +kernel
  rw [hs, Option.any_some, List.any_eq_true] at hmoved
  obtain ⟨n, hn, hmoved⟩ := hmoved
  simp only [Bool.and_eq_true, beq_iff_eq, bne_iff_ne] at hmoved
  obtain ⟨⟨honline, hexpected⟩, hother⟩ := hmoved
  obtain ⟨ip, hip⟩ := Option.isSome_iff_exists.mp hexpected
  refine ⟨s, hs, fun hv => hother ?_⟩
  obtain ⟨-, -, hegress⟩ := hv n hn honline
  exact (hegress ip hip).1

end IdenGrid.Control.OnlineNodes
