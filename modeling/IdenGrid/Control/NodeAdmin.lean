import IdenGrid.Control.Registry

/-! # Creating, changing and deleting Edge nodes

`create_edge_node`, `update_edge_node` and `delete_edge_node`: what each reads and checks, and what
its session holds at the commit. -/

namespace IdenGrid.Control.NodeAdmin

open IdenGrid.Lib.Store IdenGrid.Lib.WriteBack IdenGrid.Lib.Results
open IdenGrid.Control.Nodes IdenGrid.Control.Registry

variable (P : Primitives)

def nodeExists : Refusal := ⟨409, "Edge node already exists"⟩

/-- Another node has the name or the endpoint; a null is equal to nothing. -/
def duplicate (db : Db) (name endpoint : Option String) (own : Option ℕ) : Bool :=
  db.nodes.rows.any fun n =>
    own != some n.id && (name == some n.name || endpoint == some n.endpoint)

structure EdgeNodeCreateBody where
  name : String
  endpoint : String
  sharedSecret : String
  expectedPublicIpv4 : Option String := none
  enabled : Bool := true
  maintenanceMode : Bool := false
  deriving DecidableEq, Repr

/-- `create_edge_node`: the row to insert; its id is the next of the table. -/
def createEdgeNode (body : EdgeNodeCreateBody) (newId : ℕ) (db : Db) : Except Refusal NodeRow := do
  validateEdgeNodeNetwork P (some body.endpoint) body.expectedPublicIpv4
  if duplicate db (some body.name) (some body.endpoint) none then .error nodeExists
  else
    .ok
      { id := newId
        name := body.name
        endpoint := body.endpoint
        sharedSecret := body.sharedSecret
        enabled := body.enabled
        maintenanceMode := body.maintenanceMode
        healthStatus :=
          if body.maintenanceMode then .maintenance
          else if body.enabled then .unknown
          else .disabled
        lastSeenAt := none
        latencyMs := none
        expectedPublicIpv4 := body.expectedPublicIpv4
        status := {}
        lastError := none }

variable {P} in
theorem createEdgeNode_eq_ok {body : EdgeNodeCreateBody} {newId : ℕ} {db : Db} {node : NodeRow}
    (h : createEdgeNode P body newId db = .ok node) :
    node.id = newId ∧ node.healthStatus ≠ .online ∧ node.expectedPublicIpv4 ≠ some "" := by
  unfold createEdgeNode at h
  obtain ⟨⟨⟩, hvalid, h⟩ := bind_eq_ok.mp h
  by_cases hdup : duplicate db (some body.name) (some body.endpoint) none = true
  · simp [hdup] at h
  · rw [if_neg hdup] at h
    obtain rfl := Except.ok.inj h
    refine ⟨rfl, ?_, validateEdgeNodeNetwork_ne_empty hvalid⟩
    dsimp only
    split_ifs <;> simp

/-- The fields of an `EdgeNodeUpdateBody` that are set; each may be set to null. -/
structure EdgeNodeUpdateBody where
  name : Option (Option String) := none
  endpoint : Option (Option String) := none
  sharedSecret : Option (Option String) := none
  expectedPublicIpv4 : Option (Option String) := none
  enabled : Option (Option Bool) := none
  maintenanceMode : Option (Option Bool) := none
  deriving DecidableEq, Repr

/-- `changes.get(field, old)`. -/
def changed {β : Type} (field : Option (Option β)) (old : β) : Option β := field.getD (some old)

/-- The status after an update with these new settings. -/
def patchedHealth (body : EdgeNodeUpdateBody) (enabled maintenanceMode : Bool)
    (old : HealthStatus) : HealthStatus :=
  if maintenanceMode then .maintenance
  else if enabled = false then .disabled
  else if body.maintenanceMode.isSome ∨ body.enabled.isSome then .unknown
  else old

/-- The row after an update; `none` if a column that is not nullable would be null. -/
def patch (body : EdgeNodeUpdateBody) (node : NodeRow) : Option NodeRow :=
  match changed body.name node.name, changed body.endpoint node.endpoint,
      changed body.sharedSecret node.sharedSecret, changed body.enabled node.enabled,
      changed body.maintenanceMode node.maintenanceMode with
  | some name, some endpoint, some sharedSecret, some enabled, some maintenanceMode =>
    some
      { node with
        name := name
        endpoint := endpoint
        sharedSecret := sharedSecret
        enabled := enabled
        maintenanceMode := maintenanceMode
        expectedPublicIpv4 := body.expectedPublicIpv4.getD node.expectedPublicIpv4
        healthStatus := patchedHealth body enabled maintenanceMode node.healthStatus }
  | _, _, _, _, _ => none

/-- `update_edge_node`: the loaded row and the new one. -/
def updateEdgeNode (nodeId : ℕ) (body : EdgeNodeUpdateBody) (db : Db) :
    Except Refusal (NodeRow × NodeRow) :=
  match db.nodes.get? nodeId with
  | none => .error ⟨404, "Edge node not found"⟩
  | some node => do
    let endpoint := changed body.endpoint node.endpoint
    if duplicate db (changed body.name node.name) endpoint (some node.id) then .error nodeExists
    else
      validateEdgeNodeNetwork P endpoint (body.expectedPublicIpv4.getD node.expectedPublicIpv4)
      match patch body node with
      | some new => .ok (node, new)
      | none => .error serverError

/-- **What an update does**: the new settings, and the status that goes with them. -/
theorem patch_eq_some {body : EdgeNodeUpdateBody} {node new : NodeRow}
    (h : patch body node = some new) :
    new.id = node.id ∧ new.platform = node.platform ∧ new.status = node.status ∧
      changed body.name node.name = some new.name ∧
      changed body.endpoint node.endpoint = some new.endpoint ∧
      changed body.enabled node.enabled = some new.enabled ∧
      changed body.maintenanceMode node.maintenanceMode = some new.maintenanceMode ∧
      new.expectedPublicIpv4 = body.expectedPublicIpv4.getD node.expectedPublicIpv4 ∧
      new.healthStatus =
        patchedHealth body new.enabled new.maintenanceMode node.healthStatus := by
  unfold patch at h
  split at h
  · next name endpoint secret enabled maintenance h1 h2 h3 h4 h5 =>
    obtain rfl := Option.some.inj h
    exact ⟨rfl, rfl, rfl, h1, h2, h4, h5, rfl, rfl⟩
  · simp at h

variable {P} in
theorem updateEdgeNode_eq_ok {nodeId : ℕ} {body : EdgeNodeUpdateBody} {db : Db}
    {loaded new : NodeRow} (h : updateEdgeNode P nodeId body db = .ok (loaded, new)) :
    db.nodes.get? nodeId = some loaded ∧ patch body loaded = some new ∧
      duplicate db (some new.name) (some new.endpoint) (some loaded.id) = false ∧
      new.expectedPublicIpv4 ≠ some "" := by
  unfold updateEdgeNode at h
  split at h
  · simp at h
  · next node hnode =>
    dsimp only at h
    by_cases hdup : duplicate db (changed body.name node.name) (changed body.endpoint node.endpoint)
        (some node.id) = true
    · simp [hdup] at h
    · rw [if_neg hdup] at h
      obtain ⟨⟨⟩, hvalid, h⟩ := bind_eq_ok.mp h
      split at h
      · next new' hnew =>
        obtain ⟨rfl, rfl⟩ : node = loaded ∧ new' = new := by simpa using h
        obtain ⟨-, -, -, hname, hendpoint, -, -, hexpected, -⟩ := patch_eq_some hnew
        rw [hname, hendpoint] at hdup
        have hne := validateEdgeNodeNetwork_ne_empty hvalid
        rw [← hexpected] at hne
        exact ⟨hnode, hnew, by simpa using hdup, hne⟩
      · simp at h

/-- What `delete_edge_node` has loaded. -/
structure NodeDeletion where
  nodeId : ℕ
  enrollments : List EnrollmentRow
  registrations : List RegistrationRow

/-- `delete_edge_node`; `boundStore` is the label of the first store of the node, if it has one. -/
def deleteEdgeNode (nodeId : ℕ) (boundStore : Option String) (db : Db) :
    Except Refusal NodeDeletion :=
  match db.nodes.get? nodeId with
  | none => .error ⟨404, "未找到Edge节点"⟩
  | some node =>
    match boundStore with
    | some label => .error ⟨409, "节点仍绑定店铺“" ++ label ++ "”，请先删除或重新绑定该店铺"⟩
    | none =>
      .ok
        { nodeId := node.id
          enrollments := db.enrollments.rows.filter fun e => e.edgeNodeId = node.id
          registrations := db.registrations.rows.filter fun r => r.edgeNodeId = some node.id }

/-- The registrations of a deleted node lose their node. -/
def detach (r : RegistrationRow) : RegistrationRow := { r with edgeNodeId := none }

def NodeDeletion.commit (d : NodeDeletion) (t : Tables) : Except Failure (Tables × Answer) := do
  let t ← t.flush { registrations := d.registrations.map fun r => (r, detach r) }
  .ok
    ({ t with
        enrollments := delete (fun e => d.enrollments.any fun x => x.id == e.id) t.enrollments
        nodes := delete (fun n => n.id == d.nodeId) t.nodes },
      .deleted)

end IdenGrid.Control.NodeAdmin
