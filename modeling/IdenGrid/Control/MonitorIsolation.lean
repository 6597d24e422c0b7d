import IdenGrid.Lib.Results
import IdenGrid.Control.Monitor

/-! # The monitor keeps the nodes apart as long as every node is tame

`run_once` commits once, after the last node. A value that escapes the handlers of `_probe_sample`,
or that the database driver does not accept, loses the round of every node.

* `tame_iff`: one node's round goes through exactly if its answers are `Tame`.
* `record_sameElsewhere`: a round leaves the rows of every other node alone, `record_congr`: and
  does the same in two states that agree on the rows of its node.
* `isolation_iff`: two runs that differ in the answers of one node both commit, and agree on every
  row of the others, if and only if every enabled node is tame in both. -/

namespace IdenGrid.Control.Monitor

open IdenGrid.Lib.Run IdenGrid.Lib.Store IdenGrid.Lib.Unicode IdenGrid.Lib.Json
open IdenGrid.Lib.Results
open IdenGrid.Control.Nodes

/-! ## What leaves `_probe_sample` -/

/-- `math.isfinite` raises on this field. -/
def TooLarge (fields : List (List ℕ × Value)) (name : String) : Prop :=
  ∃ n, get fields (text name) = some (.int n) ∧ overflows n = true

/-- The decoder runs out of its nesting limit, or the validation reaches an integer that is too
large for a float. -/
def Escapes (depth : ℕ) (expectedNode content : List ℕ) : Prop :=
  loads depth content = .error .recursion ∨
    ∃ fields counts, loads depth content = .ok (.obj fields) ∧
      checkCounts fields expectedNode = .ok counts ∧
      (TooLarge fields "load_1m" ∨
        (∃ load, numberField fields "load_1m" = .ok load) ∧ TooLarge fields "uptime_seconds")

theorem checkCounts_ne_uncaught (fields : List (List ℕ × Value)) (expectedNode : List ℕ) :
    checkCounts fields expectedNode ≠ .error .uncaught := by
  unfold checkCounts
  grind

theorem numberField_eq_uncaught {fields : List (List ℕ × Value)} {name : String} :
    numberField fields name = .error .uncaught ↔ TooLarge fields name := by
  unfold numberField TooLarge
  constructor
  · intro h
    split at h
    · rename_i n hn
      by_cases ho : overflows n = true
      · exact ⟨n, hn, ho⟩
      · rw [if_neg ho] at h
        split_ifs at h
        simp at h
    · split_ifs at h
      simp at h
    · simp at h
  · rintro ⟨n, hn, ho⟩
    rw [hn]
    simp only [ho, if_true]

theorem versionField_ne_uncaught (fields : List (List ℕ × Value)) :
    versionField fields ≠ .error .uncaught := by
  unfold versionField
  grind

/-- A computation of several steps raises what its first step raises, or what the others do. -/
theorem bind_eq_error {ε α β : Type} {x : Except ε α} {f : α → Except ε β} {e : ε} :
    x >>= f = .error e ↔ x = .error e ∨ ∃ a, x = .ok a ∧ f a = .error e := by
  cases x with
  | error e' => simp [bind, Except.bind]
  | ok a => simp [bind, Except.bind]

/-- The exception that no handler takes comes from these two places. -/
theorem readStatus_eq_uncaught {depth : ℕ} {content expectedNode : List ℕ} :
    readStatus depth content expectedNode = .error .uncaught ↔
      Escapes depth expectedNode content := by
  unfold readStatus Escapes
  rcases hl : loads depth content with (_ | _) | payload
  · simp
  · simp
  · cases payload with
    | obj fields =>
      have hvalidate : validatePayload (.obj fields) expectedNode = .error .uncaught ↔
          ∃ counts, checkCounts fields expectedNode = .ok counts ∧
            (TooLarge fields "load_1m" ∨
              ∃ load, numberField fields "load_1m" = .ok load ∧
                TooLarge fields "uptime_seconds") := by
        simp only [validatePayload, bind_eq_error, checkCounts_ne_uncaught, false_or,
          numberField_eq_uncaught, versionField_ne_uncaught, pure, Except.pure, reduceCtorEq,
          and_false, exists_false, or_false]
      simp [hvalidate]
    | _ => simp [validatePayload]

theorem probeSample_eq_none {depth : ℕ} {expectedNode : List ℕ} {answer : Response × ℚ} :
    probeSample depth expectedNode answer = none ↔ answer.1 = .invalidUrl ∨
      ∃ content, answer.1 = .body content ∧ Escapes depth expectedNode content := by
  unfold probeSample
  cases answer.1 with
  | failed => simp
  | invalidUrl => simp
  | body content =>
    simp only [Response.body.injEq, exists_eq_left', ← readStatus_eq_uncaught, reduceCtorEq,
      false_or]
    rcases readStatus depth content expectedNode with (_ | _ | _) | _ <;> simp

/-! ## One node -/

section Node

variable (c : Config) (depth : ℕ) (node : EdgeNode) (behaviour : Behaviour)

/-- The documents of the node that pass the validation, each with the duration of its probe. -/
def documents : List (Payload × ℚ) :=
  (List.range c.sampleCount).filterMap fun i =>
    match (behaviour i).1 with
    | .failed | .invalidUrl => none
    | .body content =>
      match readStatus depth content (text node.name) with
      | .ok payload => some (payload, max 0 (behaviour i).2)
      | .error _ => none

/-- No sample makes the probe raise an exception that it does not take: httpx takes the URL, and no
document escapes. -/
structure Answered : Prop where
  requests : ∀ i < c.sampleCount, (behaviour i).1 ≠ .invalidUrl
  decodes : ∀ i < c.sampleCount, ∀ content, (behaviour i).1 = .body content →
    ¬ Escapes depth (text node.name) content

/-- The answers of a node that cost the other nodes nothing: no sample makes the probe raise, and
where a document is going to be stored, because all pass, are enough and agree in their address, the
mean of the durations is finite and the driver takes it and the numbers and texts of the document. -/
structure Tame : Prop where
  answered : Answered c depth node behaviour
  stores : (∀ i < c.sampleCount, ∀ content, (behaviour i).1 = .body content →
      ∃ payload, readStatus depth content (text node.name) = .ok payload) →
    c.minSuccess ≤ (documents c depth node behaviour).length →
    ∀ d ∈ (documents c depth node behaviour).getLast?,
      (∀ e ∈ documents c depth node behaviour, e.1.publicIpv4 = d.1.publicIpv4) →
      ∃ latency, latencyOf ((documents c depth node behaviour).map Prod.snd) = some latency ∧
        storable latency d.1 = true

/-- The samples of the node. -/
def samples : List Sample :=
  (List.range c.sampleCount).filterMap fun i => probeSample depth (text node.name) (behaviour i)

variable {c depth node behaviour}

theorem probe_eq_some {result : Probe} :
    probe c depth node behaviour = some result ↔ Answered c depth node behaviour ∧
      judge c node.expectedPublicIpv4 (samples c depth node behaviour) = some result := by
  have hanswered : (∀ i ∈ List.range c.sampleCount,
      probeSample depth (text node.name) (behaviour i) ≠ none) ↔
        Answered c depth node behaviour := by
    simp only [List.mem_range, ne_eq, probeSample_eq_none, not_or, not_exists, not_and]
    exact ⟨fun h => ⟨fun i hi => (h i hi).1, fun i hi => (h i hi).2⟩,
      fun h i hi => ⟨h.requests i hi, h.decodes i hi⟩⟩
  rw [probe, Option.bind_eq_some_iff]
  simp only [mapM_eq_some, hanswered]
  constructor
  · rintro ⟨ys, ⟨hl, rfl⟩, hjudge⟩
    exact ⟨hl, hjudge⟩
  · rintro ⟨hl, hjudge⟩
    exact ⟨_, ⟨hl, rfl⟩, hjudge⟩

theorem successes_samples :
    successes (samples c depth node behaviour) = documents c depth node behaviour := by
  unfold successes samples documents
  rw [List.filterMap_filterMap]
  refine List.filterMap_congr fun i _ => ?_
  unfold probeSample
  cases (behaviour i).1 with
  | failed => rfl
  | invalidUrl => rfl
  | body content =>
    rcases hr : readStatus depth content (text node.name) with (_ | _ | _) | _ <;> simp [hr]

theorem fatalErrors_samples (h : Answered c depth node behaviour) :
    fatalErrors (samples c depth node behaviour) = [] ↔
      ∀ i < c.sampleCount, ∀ content, (behaviour i).1 = .body content →
        ∃ payload, readStatus depth content (text node.name) = .ok payload := by
  unfold fatalErrors samples
  rw [List.filterMap_filterMap, List.filterMap_eq_nil_iff]
  simp only [List.mem_range]
  refine forall₂_congr fun i hi => ?_
  unfold probeSample
  cases hb : (behaviour i).1 with
  | failed => simp
  | invalidUrl => exact absurd hb (h.requests i hi)
  | body content =>
    have hne := mt readStatus_eq_uncaught.mp (h.decodes i hi content hb)
    rcases hr : readStatus depth content (text node.name) with (_ | _ | _) | _ <;> simp_all

theorem judge_storable_iff {expectedPublicIpv4 : Option String} {samples : List Sample} :
    (∃ result, judge c expectedPublicIpv4 samples = some result ∧ result.storable = true) ↔
      (fatalErrors samples = [] → c.minSuccess ≤ (successes samples).length →
        ∀ d ∈ (successes samples).getLast?,
          (∀ e ∈ successes samples, e.1.publicIpv4 = d.1.publicIpv4) →
          ∃ latency, latencyOf ((successes samples).map Prod.snd) = some latency ∧
            storable latency d.1 = true) := by
  unfold judge
  rcases hf : fatalErrors samples with _ | ⟨error, _⟩
  · by_cases hc : (successes samples).length < c.minSuccess
    · simp [hc, Probe.storable, Nat.not_le.mpr hc]
    · rw [if_neg hc]
      rcases hl : (successes samples).getLast? with _ | d
      · simp [Probe.storable]
      · simp only [Option.mem_def, Option.some.injEq, forall_eq', true_imp_iff, Nat.not_lt.mp hc]
        split_ifs with hip
        · have hall : ¬ ∀ e ∈ successes samples, e.1.publicIpv4 = d.1.publicIpv4 := by
            simpa [List.any_eq_true] using hip
          exact iff_of_true ⟨_, rfl, rfl⟩ fun h => absurd h hall
        · have hall : ∀ e ∈ successes samples, e.1.publicIpv4 = d.1.publicIpv4 := by
            simpa [List.any_eq_true] using hip
          simp only [Option.map_eq_some_iff]
          constructor
          · rintro ⟨_, ⟨latency, hlatency, rfl⟩, hs⟩ -
            exact ⟨latency, hlatency, hs⟩
          · intro h
            obtain ⟨latency, hlatency, hs⟩ := h hall
            exact ⟨_, ⟨latency, hlatency, rfl⟩, hs⟩
  · simp [Probe.storable]

/-- **A node is tame if and only if its probe ends and the driver takes what it found.** -/
theorem tame_iff : Tame c depth node behaviour ↔
    ∃ result, probe c depth node behaviour = some result ∧ result.storable = true := by
  constructor
  · rintro ⟨hanswered, hstores⟩
    rw [← fatalErrors_samples hanswered, ← successes_samples] at hstores
    obtain ⟨result, hjudge, hs⟩ := judge_storable_iff.mpr hstores
    exact ⟨result, probe_eq_some.mpr ⟨hanswered, hjudge⟩, hs⟩
  · rintro ⟨result, hp, hs⟩
    obtain ⟨hanswered, hjudge⟩ := probe_eq_some.mp hp
    have hstores := judge_storable_iff.mp ⟨result, hjudge, hs⟩
    rw [fatalErrors_samples hanswered, successes_samples] at hstores
    exact ⟨hanswered, hstores⟩

end Node

/-! ## The tables of the other nodes -/

/-- The two states have the same rows of every node but this one. -/
structure SameElsewhere (nodeId : ℕ) (d e : Db) : Prop where
  nodes : Table.AgreeOn (fun r => r.id != nodeId) d.nodes e.nodes
  enrollments : Table.AgreeOn (fun r => r.edgeNodeId != nodeId) d.enrollments e.enrollments
  registrations :
    Table.AgreeOn (fun r => r.edgeNodeId != some nodeId) d.registrations e.registrations

theorem SameElsewhere.refl (nodeId : ℕ) (d : Db) : SameElsewhere nodeId d d := ⟨rfl, rfl, rfl⟩

theorem SameElsewhere.trans {nodeId : ℕ} {d e f : Db} (h : SameElsewhere nodeId d e)
    (h' : SameElsewhere nodeId e f) : SameElsewhere nodeId d f :=
  ⟨h.nodes.trans h'.nodes, h.enrollments.trans h'.enrollments,
    h.registrations.trans h'.registrations⟩

theorem SameElsewhere.symm {nodeId : ℕ} {d e : Db} (h : SameElsewhere nodeId d e) :
    SameElsewhere nodeId e d :=
  ⟨h.nodes.symm, h.enrollments.symm, h.registrations.symm⟩

@[simp] theorem updateNode_id (node : EdgeNode) (result : Probe) (t : Readings) :
    (updateNode node result t).id = node.id := by
  cases result <;> rfl

@[simp] theorem updateEnrollment_id (status : HealthStatus) (now : ℕ) (item : NodeEnrollment) :
    (updateEnrollment status now item).id = item.id := by
  unfold updateEnrollment
  split_ifs
  · rfl
  · cases failureText status <;> rfl

@[simp] theorem updateEnrollment_edgeNodeId (status : HealthStatus) (now : ℕ)
    (item : NodeEnrollment) :
    (updateEnrollment status now item).edgeNodeId = item.edgeNodeId := by
  unfold updateEnrollment
  split_ifs
  · rfl
  · cases failureText status <;> rfl

@[simp] theorem updateRegistration_id (status : HealthStatus) (now : ℕ)
    (item : NodeRegistrationRequest) : (updateRegistration status now item).id = item.id := by
  unfold updateRegistration
  split_ifs
  · rfl
  · rfl
  · cases failureText status <;> rfl

@[simp] theorem updateRegistration_edgeNodeId (status : HealthStatus) (now : ℕ)
    (item : NodeRegistrationRequest) :
    (updateRegistration status now item).edgeNodeId = item.edgeNodeId := by
  unfold updateRegistration
  split_ifs
  · rfl
  · rfl
  · cases failureText status <;> rfl

/-- **The record of a node leaves the rows of the others alone.** -/
theorem record_sameElsewhere (db : Db) (node : EdgeNode) (result : Probe) (t : Readings) :
    SameElsewhere node.id (record db node result t) db where
  nodes := Table.agreeOn_put_of_not (fun x _ hk => by rw [hk]) (by simp)
  enrollments := by
    refine Table.agreeOn_updateFirst (by simp) (by simp) fun r hr => ?_
    simp only [linkedEnrollment, Bool.and_eq_true, beq_iff_eq] at hr
    simp [hr.1]
  registrations := by
    refine Table.agreeOn_updateFirst (by simp) (by simp) fun r hr => ?_
    simp only [linkedRegistration, Bool.and_eq_true, beq_iff_eq] at hr
    simp [hr.1]

/-- **The record of another node is the same where its rows are the same.** -/
theorem record_congr {nodeId : ℕ} {d e : Db} (h : SameElsewhere nodeId d e) {node : EdgeNode}
    (hne : node.id ≠ nodeId) (result : Probe) (t : Readings) :
    SameElsewhere nodeId (record d node result t) (record e node result t) where
  nodes := h.nodes.put (fun x _ hk => by rw [hk]) (fun x _ hk => by rw [hk])
  enrollments := by
    refine h.enrollments.updateFirst (by simp) (by simp) fun r hr => ?_
    simp only [linkedEnrollment, Bool.and_eq_true, beq_iff_eq] at hr
    simp [hr.1, hne]
  registrations := by
    refine h.registrations.updateFirst (by simp) (by simp) fun r hr => ?_
    simp only [linkedRegistration, Bool.and_eq_true, beq_iff_eq] at hr
    simp [hr.1, hne]

/-! ## Two runs -/

section Runs

variable {c : Config} {depth : ℕ} {clock : ℕ → Readings} {behaviour behaviour' : ℕ → Behaviour}

theorem visit_eq_some {s s' : Progress} {node : EdgeNode} :
    visit c depth clock behaviour s node = some s' ↔
      ∃ result, probe c depth node (behaviour node.id) = some result ∧ result.storable = true ∧
        s' = ⟨record s.db node result (clock node.id),
          s.results ++ [(node.name, effective node result.health)]⟩ := by
  unfold visit
  rcases probe c depth node (behaviour node.id) with _ | result
  · simp
  · by_cases hs : result.storable = true
    · simp only [hs, if_true]
      constructor
      · intro h
        exact ⟨result, rfl, hs, (Option.some.inj h).symm⟩
      · rintro ⟨_, h, -, rfl⟩
        obtain rfl := Option.some.inj h
        rfl
    · simp only [hs, Bool.false_eq_true, if_false]
      constructor
      · intro h
        exact absurd h (by simp)
      · rintro ⟨_, h, hs', -⟩
        obtain rfl := Option.some.inj h
        exact absurd hs' hs

/-- A round goes through only at a tame node. -/
theorem tame_of_visit {s s' : Progress} {node : EdgeNode}
    (h : visit c depth clock behaviour s node = some s') :
    Tame c depth node (behaviour node.id) := by
  obtain ⟨result, hp, hs, -⟩ := visit_eq_some.mp h
  exact tame_iff.mpr ⟨result, hp, hs⟩

/-- **One round in two runs whose nodes answer alike, except for one.** -/
theorem visit_related {nodeId : ℕ} (hb : ∀ m, m ≠ nodeId → behaviour m = behaviour' m)
    (s u : Progress) (node : EdgeNode)
    (ht : Tame c depth node (behaviour node.id) ∧ Tame c depth node (behaviour' node.id))
    (h : SameElsewhere nodeId s.db u.db) :
    ∃ s' u', visit c depth clock behaviour s node = some s' ∧
      visit c depth clock behaviour' u node = some u' ∧ SameElsewhere nodeId s'.db u'.db := by
  obtain ⟨result, hp, hs⟩ := tame_iff.mp ht.1
  obtain ⟨result', hp', hs'⟩ := tame_iff.mp ht.2
  refine ⟨_, _, visit_eq_some.mpr ⟨result, hp, hs, rfl⟩,
    visit_eq_some.mpr ⟨result', hp', hs', rfl⟩, ?_⟩
  by_cases hn : node.id = nodeId
  · subst hn
    exact (record_sameElsewhere ..).trans (h.trans (record_sameElsewhere ..).symm)
  · have hsame : result = result' := by
      rw [hb node.id hn, hp'] at hp
      exact (Option.some.inj hp).symm
    rw [hsame]
    exact record_congr h hn _ _

/-- **Isolation**: two runs of the monitor that differ in what one node answers both commit and
agree on every row of the other nodes, if and only if every enabled node is tame in both. -/
theorem isolation_iff {nodeId : ℕ} (hb : ∀ m, m ≠ nodeId → behaviour m = behaviour' m) (db : Db) :
    (∃ s u, runOnce c depth clock behaviour db = some s ∧
        runOnce c depth clock behaviour' db = some u ∧ SameElsewhere nodeId s.db u.db) ↔
      ∀ node ∈ enabledNodes db,
        Tame c depth node (behaviour node.id) ∧ Tame c depth node (behaviour' node.id) := by
  constructor
  · rintro ⟨s, u, hs, hu, -⟩ node hnode
    have htame : ∀ s node s', visit c depth clock behaviour s node = some s' →
        Tame c depth node (behaviour node.id) := fun _ _ _ => tame_of_visit
    have htame' : ∀ s node s', visit c depth clock behaviour' s node = some s' →
        Tame c depth node (behaviour' node.id) := fun _ _ _ => tame_of_visit
    exact ⟨forall_of_run htame _ _ _ hs node hnode, forall_of_run htame' _ _ _ hu node hnode⟩
  · intro h
    exact run_related (visit_related hb) (enabledNodes db) _ _ h (SameElsewhere.refl nodeId db)

end Runs

/-! ### A fleet of two nodes -/

/-- A status document of the node, with these digits as its uptime. -/
def statusDocument (name : String) (uptime : List ℕ) : List ℕ :=
  text "\x7b\"node\":\"" ++ text name ++ text "\",\"active_connections\":3," ++
    text "\"max_connections\":64," ++ text "\"accepted_connections\":9," ++
    text "\"denied_connections\":0," ++ text "\"public_ipv4\":\"8.8.8.8\"," ++
    text "\"memory_total_bytes\":4294967296," ++ text "\"memory_available_bytes\":2147483648," ++
    text "\"disk_total_bytes\":68719476736," ++ text "\"disk_free_bytes\":34359738368," ++
    text "\"load_1m\":0.5,\"uptime_seconds\":" ++ uptime ++ text ",\"agent_version\":\"1\"\x7d"

/-- A node that always gives this answer after a hundredth of a second. -/
def answering (content : List ℕ) : Behaviour := fun _ => (.body content, 1 / 100)

/-- Every node answers well, except that `edge-b` gives this answer. -/
def fleetAnswers (content : List ℕ) : ℕ → Behaviour
  | 2 => answering content
  | _ => answering (statusDocument "edge-a" (text "3600"))

def fleetNode (id : ℕ) (name endpoint : String) : EdgeNode where
  id := id
  name := name
  endpoint := endpoint
  sharedSecret := "secret"
  enabled := true
  maintenanceMode := false
  healthStatus := .unknown
  lastSeenAt := none
  latencyMs := none
  expectedPublicIpv4 := none
  status := {}
  lastError := none

def fleet : Db where
  nodes :=
    ⟨[fleetNode 1 "edge-a" "https://a.example", fleetNode 2 "edge-b" "https://b.example"],
      by decide⟩
  enrollments := ⟨[⟨"e", 1, none, .ready, none, 0, none⟩], by decide⟩
  registrations := .empty

/-- An uptime of four hundred and one digits. -/
def hugeUptime : List ℕ := 49 :: List.replicate 400 48

theorem enabledNodes_fleet : enabledNodes fleet = fleet.nodes.rows := by decide

theorem tame_fleet {content : List ℕ}
    (h : (fleet.nodes.rows.all fun node =>
      (probe {} 1 node (fleetAnswers content node.id)).any Probe.storable) = true) :
    ∀ node ∈ enabledNodes fleet, Tame {} 1 node (fleetAnswers content node.id) := by
  rw [enabledNodes_fleet]
  intro node hnode
  obtain ⟨result, hp, hs⟩ := (Option.any_eq_true _ _).mp (List.all_eq_true.mp h node hnode)
  exact tame_iff.mpr ⟨result, hp, hs⟩

theorem readStatus_hugeUptime :
    readStatus 1 (statusDocument "edge-b" hugeUptime) (text "edge-b") = .error .uncaught := by
  decide +kernel

/-- Readings of the clock. -/
def fleetClock (nodeId : ℕ) : Readings := ⟨100 * nodeId, 100 * nodeId + 1, 100 * nodeId + 2⟩

theorem fleetAnswers_of_ne (content content' : List ℕ) :
    ∀ m, m ≠ 2 → fleetAnswers content m = fleetAnswers content' m := by
  intro m hm
  unfold fleetAnswers
  split
  · exact absurd rfl hm
  · rfl

theorem isolation_iff_fleet :
    ∃ s u,
      runOnce {} 1 fleetClock (fleetAnswers (statusDocument "edge-b" (text "7200"))) fleet =
        some s ∧
      runOnce {} 1 fleetClock (fleetAnswers (text "no JSON")) fleet = some u ∧
      SameElsewhere 2 s.db u.db := by
  refine (isolation_iff (fleetAnswers_of_ne _ _) fleet).mpr fun node hnode => ⟨?_, ?_⟩
  · exact tame_fleet (by decide +kernel) node hnode
  · exact tame_fleet (by decide +kernel) node hnode

/-- An uptime of four hundred and one digits makes the monitor lose the round of both nodes. -/
theorem huge_uptime_loses_round :
    ¬ ∃ s u,
      runOnce {} 1 fleetClock (fleetAnswers (statusDocument "edge-b" hugeUptime)) fleet =
        some s ∧
      runOnce {} 1 fleetClock (fleetAnswers (text "no JSON")) fleet = some u ∧
      SameElsewhere 2 s.db u.db := by
  rintro ⟨s, u, hs, -, -⟩
  have htame : Tame {} 1 (fleetNode 2 "edge-b" "https://b.example")
      (fleetAnswers (statusDocument "edge-b" hugeUptime) 2) :=
    forall_of_run (fun _ _ _ => tame_of_visit) (enabledNodes fleet) _ _ hs _
      (by rw [enabledNodes_fleet]; decide)
  exact htame.answered.decodes 0 (by decide) _ rfl (readStatus_eq_uncaught.mp readStatus_hugeUptime)

end IdenGrid.Control.Monitor
