import IdenGrid.Control.Accounts
import IdenGrid.Lib.Requests
import IdenGrid.Lib.Store
import Mathlib.Data.Finset.Dedup
import Mathlib.Data.Int.Order.Basic
import Mathlib.Data.List.Sort

/-! # Replacing the grants of a member

`replace_user_edge_nodes`, one statement a step: the member, the nodes, the grants that are there,
the DELETE of each of them by its id, the INSERT of the new ones, the COMMIT. The rows a transaction
has written become visible at its commit, and the two unique constraints of the table are fields of
`GrantTable`: a commit that would break one of them is refused. A transaction that has to wait for
the row lock of another one takes its step later.

The replacement takes no lock, so a commit removes the grants that it has read and keeps those that
others have inserted since: `replaced_iff` says that nothing else goes wrong, and `overlap_widens`
that this does. -/

namespace IdenGrid.Control.Grants

open IdenGrid.Lib.Run IdenGrid.Lib.Requests IdenGrid.Lib.Store
open IdenGrid.Control.Rows IdenGrid.Control.Accounts

/-- A row of `user_edge_node_grants`. -/
structure Grant where
  id : ℕ
  userId : ℕ
  edgeNodeId : ℤ
  deriving DecidableEq, Repr

def Grant.pair (g : Grant) : ℕ × ℤ := (g.userId, g.edgeNodeId)

/-- The table with its primary key and its unique constraint. -/
structure GrantTable where
  rows : List Grant
  ids : (rows.map Grant.id).Nodup
  pairs : (rows.map Grant.pair).Nodup

/-- The rows after a DELETE by the ids of `gone` and an INSERT of `new`. -/
def replaceRows (rows gone new : List Grant) : List Grant :=
  (rows.filter fun x => x.id ∉ gone.map Grant.id) ++ new

/-- DELETE and INSERT, unless a constraint refuses. -/
def GrantTable.replace (t : GrantTable) (gone new : List Grant) : Option GrantTable :=
  let rows := replaceRows t.rows gone new
  if h : (rows.map Grant.id).Nodup ∧ (rows.map Grant.pair).Nodup then some ⟨rows, h.1, h.2⟩
  else none

/-- The tables, and the sequence of the ids; `issued` keeps every grant that has been given an id,
committed or not. -/
structure Db where
  users : Table User.id
  nodes : List ℤ
  grants : GrantTable
  nextId : ℕ
  issued : List Grant

/-- `UserEdgeNodeGrantsBody`. -/
structure GrantsBody where
  nodeIds : List ℤ
  short : nodeIds.length ≤ 1000

/-- `sorted(set(body.node_ids))`. -/
def GrantsBody.sorted (body : GrantsBody) : List ℤ := body.nodeIds.dedup.insertionSort (· ≤ ·)

/-- `granted_node_ids`. -/
def grantedNodeIds (db : Db) (userId : ℕ) : List ℤ :=
  ((db.grants.rows.filter (·.userId = userId)).map Grant.edgeNodeId).insertionSort (· ≤ ·)

inductive Answer
  | replaced
  | memberNotFound
  | nodesRequired
  | failed
  deriving DecidableEq, Repr

/-- Where a request stands: `loaded`, `deleted` and `inserted` keep the grants it has read, and
`inserted` also those it has added. -/
inductive Stage
  | begun
  | member
  | checked
  | loaded (gone : List Grant)
  | deleted (gone : List Grant)
  | inserted (gone new : List Grant)
  | done (answer : Answer)
  deriving DecidableEq, Repr

structure Request where
  userId : ℕ
  body : GrantsBody
  stage : Stage

def Request.to (q : Request) (stage : Stage) : Request := { q with stage := stage }

/-- The rows for the nodes, with the next ids. -/
def newGrants (userId nextId : ℕ) (nodeIds : List ℤ) : List Grant :=
  (nodeIds.zipIdx nextId).map fun (nodeId, id) => ⟨id, userId, nodeId⟩

/-- Every node asked for exists. -/
def nodesExist (nodes nodeIds : List ℤ) : Bool :=
  nodeIds.isEmpty || decide ((nodes.filter (· ∈ nodeIds)).toFinset = nodeIds.toFinset)

/-- `replace_user_edge_nodes`, its next statement. -/
def next (db : Db) (q : Request) : Option (Db × Request) :=
  match q.stage with
  | .begun =>
    if (memberUser (db.users.get? q.userId)).isSome then some (db, q.to .member)
    else some (db, q.to (.done .memberNotFound))
  | .member =>
    if nodesExist db.nodes q.body.sorted then some (db, q.to .checked)
    else some (db, q.to (.done .nodesRequired))
  | .checked => some (db, q.to (.loaded (db.grants.rows.filter (·.userId = q.userId))))
  | .loaded gone => some (db, q.to (.deleted gone))
  | .deleted gone =>
    let new := newGrants q.userId db.nextId q.body.sorted
    let db := { db with nextId := db.nextId + new.length, issued := db.issued ++ new }
    if (db.grants.replace gone new).isSome then some (db, q.to (.inserted gone new))
    else some (db, q.to (.done .failed))
  | .inserted gone new =>
    match db.grants.replace gone new with
    | some grants => some ({ db with grants := grants }, q.to (.done .replaced))
    | none => some (db, q.to (.done .failed))
  | .done _ => none

inductive Move
  | next
  /-- The connection breaks, or the transaction is the victim of a deadlock. -/
  | fail
  deriving DecidableEq, Repr

def act (_ : ℕ) (db : Db) (q : Request) : Move → Option (Db × Request)
  | .next => next db q
  | .fail =>
    match q.stage with
    | .done _ => none
    | _ => some (db, q.to (.done .failed))

/-! ## What a statement does -/

/-- The grants that the request has read. -/
def Stage.gone : Stage → List Grant
  | .loaded gone | .deleted gone | .inserted gone _ => gone
  | _ => []

/-- The kinds of steps by what they do to the tables. -/
inductive Change (db : Db) (q : Request) : Db → Request → Prop
  | reads (stage : Stage) (unread : ∀ gone new, stage ≠ .inserted gone new)
      (undone : stage ≠ .done .replaced)
      (known : ∀ x ∈ stage.gone, x ∈ q.stage.gone ∨ x ∈ db.grants.rows ∧ x.userId = q.userId) :
      Change db q db (q.to stage)
  | draws (gone : List Grant) (stage : Stage) (deleted : q.stage = .deleted gone)
      (ends : stage = .inserted gone (newGrants q.userId db.nextId q.body.sorted) ∨
        stage = .done .failed) :
      Change db q
        { db with
          nextId := db.nextId + (newGrants q.userId db.nextId q.body.sorted).length
          issued := db.issued ++ newGrants q.userId db.nextId q.body.sorted }
        (q.to stage)
  | commits (gone new : List Grant) (grants : GrantTable) (inserted : q.stage = .inserted gone new)
      (accepts : db.grants.replace gone new = some grants) :
      Change db q { db with grants := grants } (q.to (.done .replaced))

theorem act_change {r : ℕ} {db db' : Db} {q q' : Request} {m : Move}
    (h : act r db q m = some (db', q')) : Change db q db' q' := by
  have ends : ∀ answer, answer ≠ .replaced → Change db q db (q.to (.done answer)) :=
    fun answer hne => .reads _ (fun _ _ => Stage.noConfusion)
      (fun heq => hne (Stage.done.inj heq)) fun _ hx => absurd hx List.not_mem_nil
  cases m with
  | fail =>
    have h' : some (db, q.to (.done .failed)) = some (db', q') := by
      cases hs : q.stage with
      | done answer =>
        simp only [act, hs] at h
        cases h
      | _ => simpa only [act, hs] using h
    obtain ⟨rfl, rfl⟩ := Prod.mk.inj (Option.some.inj h')
    exact ends .failed Answer.noConfusion
  | next =>
    cases hs : q.stage with
    | begun =>
      simp only [act, next, hs] at h
      split_ifs at h <;> obtain ⟨rfl, rfl⟩ := Prod.mk.inj (Option.some.inj h)
      · exact .reads _ (fun _ _ => Stage.noConfusion) Stage.noConfusion fun _ hx =>
          absurd hx List.not_mem_nil
      · exact ends .memberNotFound Answer.noConfusion
    | member =>
      simp only [act, next, hs] at h
      split_ifs at h <;> obtain ⟨rfl, rfl⟩ := Prod.mk.inj (Option.some.inj h)
      · exact .reads _ (fun _ _ => Stage.noConfusion) Stage.noConfusion fun _ hx =>
          absurd hx List.not_mem_nil
      · exact ends .nodesRequired Answer.noConfusion
    | checked =>
      simp only [act, next, hs] at h
      obtain ⟨rfl, rfl⟩ := Prod.mk.inj (Option.some.inj h)
      refine .reads _ (fun _ _ => Stage.noConfusion) Stage.noConfusion fun x hx => Or.inr ?_
      obtain ⟨hx, huser⟩ := List.mem_filter.mp hx
      exact ⟨hx, of_decide_eq_true huser⟩
    | loaded gone =>
      simp only [act, next, hs] at h
      obtain ⟨rfl, rfl⟩ := Prod.mk.inj (Option.some.inj h)
      refine .reads _ (fun _ _ => Stage.noConfusion) Stage.noConfusion fun x hx => Or.inl ?_
      rw [hs]
      exact hx
    | deleted gone =>
      simp only [act, next, hs] at h
      split_ifs at h <;> obtain ⟨rfl, rfl⟩ := Prod.mk.inj (Option.some.inj h)
      · exact .draws gone _ hs (Or.inl rfl)
      · exact .draws gone _ hs (Or.inr rfl)
    | inserted gone new =>
      simp only [act, next, hs] at h
      cases haccepts : db.grants.replace gone new with
      | some grants =>
        rw [haccepts] at h
        obtain ⟨rfl, rfl⟩ := Prod.mk.inj (Option.some.inj h)
        exact .commits gone new grants hs haccepts
      | none =>
        rw [haccepts] at h
        obtain ⟨rfl, rfl⟩ := Prod.mk.inj (Option.some.inj h)
        exact ends .failed Answer.noConfusion
    | done answer =>
      simp only [act, next, hs] at h
      cases h

theorem replace_rows {t t' : GrantTable} {gone new : List Grant}
    (h : t.replace gone new = some t') :
    t'.rows = replaceRows t.rows gone new := by
  simp only [GrantTable.replace] at h
  split_ifs at h
  obtain rfl := Option.some.inj h
  rfl

theorem mem_newGrants {userId nextId : ℕ} {nodeIds : List ℤ} {x : Grant}
    (h : x ∈ newGrants userId nextId nodeIds) : x.userId = userId ∧ nextId ≤ x.id ∧
      x.id < nextId + nodeIds.length := by
  obtain ⟨⟨nodeId, id⟩, hmem, rfl⟩ := List.mem_map.mp h
  exact ⟨rfl, List.le_snd_of_mem_zipIdx hmem, List.snd_lt_add_of_mem_zipIdx hmem⟩

@[simp] theorem length_newGrants (userId nextId : ℕ) (nodeIds : List ℤ) :
    (newGrants userId nextId nodeIds).length = nodeIds.length := by
  simp [newGrants]

theorem ids_newGrants (userId nextId : ℕ) (nodeIds : List ℤ) :
    ((newGrants userId nextId nodeIds).map Grant.id).Nodup := by
  have hids : (newGrants userId nextId nodeIds).map Grant.id =
      (nodeIds.zipIdx nextId).map Prod.snd := by
    simp only [newGrants, List.map_map]
    rfl
  rw [hids, List.zipIdx_map_snd]
  exact List.nodup_range'

theorem nodes_newGrants (userId nextId : ℕ) (nodeIds : List ℤ) :
    (newGrants userId nextId nodeIds).map Grant.edgeNodeId = nodeIds := by
  have hnodes : (newGrants userId nextId nodeIds).map Grant.edgeNodeId =
      (nodeIds.zipIdx nextId).map Prod.fst := by
    simp only [newGrants, List.map_map]
    rfl
  rw [hnodes, List.zipIdx_map_fst]

theorem sorted_sorted (body : GrantsBody) :
    body.sorted.insertionSort (· ≤ ·) = body.sorted :=
  (List.pairwise_insertionSort (· ≤ ·) body.nodeIds.dedup).insertionSort_eq

theorem not_done {r : ℕ} {db : Db} {q : Request} {m : Move} {p : Db × Request}
    (h : act r db q m = some p) (answer : Answer) : q.stage ≠ .done answer := by
  intro hs
  cases m <;> simp only [act, next, hs] at h <;> cases h

theorem next_of_replaced {r : ℕ} {db db' : Db} {q q' : Request} {m : Move}
    (h : act r db q m = some (db', q')) (hdone : q'.stage = .done .replaced) : m = .next := by
  cases m with
  | next => rfl
  | fail =>
    have hfailed : q' = q.to (.done .failed) := by
      cases hs : q.stage with
      | done answer => exact absurd hs (not_done h answer)
      | _ =>
        simp only [act, hs] at h
        exact (Prod.mk.inj (Option.some.inj h)).2.symm
    rw [hfailed] at hdone
    exact absurd (Stage.done.inj hdone) Answer.noConfusion

theorem act_userId {r : ℕ} {db db' : Db} {q q' : Request} {m : Move}
    (h : act r db q m = some (db', q')) : q'.userId = q.userId := by
  cases act_change h <;> rfl

/-! ## What the transactions know -/

/-- The primary key tells all grants apart that have ever been given an id. -/
structure Sequenced (db : Db) : Prop where
  issued : (db.issued.map Grant.id).Nodup
  below : ∀ x ∈ db.issued, x.id < db.nextId
  rows : ∀ x ∈ db.grants.rows, x ∈ db.issued

/-- The grants that a request has read or added are of its member, and have been given their ids. -/
structure Known (db : Db) (q : Request) : Prop where
  gone : ∀ x ∈ q.stage.gone, x ∈ db.issued ∧ x.userId = q.userId
  new : ∀ gone new, q.stage = .inserted gone new → new.map Grant.edgeNodeId = q.body.sorted ∧
    ∀ x ∈ new, x ∈ db.issued ∧ x.userId = q.userId

variable {db db' : Db} {q q' : Request}

theorem Known.gone_of {gone new : List Grant} (h : Known db q) (hs : q.stage = .inserted gone new)
    {x : Grant} (hx : x ∈ gone) : x ∈ db.issued ∧ x.userId = q.userId := by
  refine h.gone x ?_
  rw [hs]
  exact hx

theorem mem_replaceRows {rows gone new : List Grant} {x : Grant}
    (h : x ∈ replaceRows rows gone new) :
    x ∈ rows ∨ x ∈ new :=
  (List.mem_append.mp h).imp_left fun hx => (List.mem_filter.mp hx).1

theorem Change.issued (h : Change db q db' q') {x : Grant} (hx : x ∈ db.issued) :
    x ∈ db'.issued := by
  cases h with
  | reads => exact hx
  | draws => exact List.mem_append_left _ hx
  | commits => exact hx

theorem Change.sequenced (h : Change db q db' q') (hS : Sequenced db) (hK : Known db q) :
    Sequenced db' := by
  cases h with
  | reads => exact hS
  | draws gone stage =>
    refine ⟨?_, fun x hx => ?_, fun x hx => List.mem_append_left _ (hS.rows x hx)⟩
    · rw [List.map_append, List.nodup_append]
      refine ⟨hS.issued, ids_newGrants _ _ _, fun i hi j hj hij => ?_⟩
      obtain ⟨x, hx, rfl⟩ := List.mem_map.mp hi
      obtain ⟨y, hy, rfl⟩ := List.mem_map.mp hj
      have hlt := hS.below x hx
      have hle := (mem_newGrants hy).2.1
      omega
    · rw [length_newGrants]
      rcases List.mem_append.mp hx with hx | hx
      · exact Nat.lt_add_right _ (hS.below x hx)
      · exact (mem_newGrants hx).2.2
  | commits gone new grants hs haccepts =>
    refine ⟨hS.issued, hS.below, fun x hx => ?_⟩
    rw [replace_rows haccepts] at hx
    rcases mem_replaceRows hx with hx | hx
    · exact hS.rows x hx
    · exact ((hK.new gone new hs).2 x hx).1

theorem Change.known (h : Change db q db' q') (hS : Sequenced db) (hK : Known db q) :
    Known db' q' := by
  cases h with
  | reads stage hunread hundone hknown =>
    refine ⟨fun x hx => ?_, fun gone new hs => absurd hs (hunread gone new)⟩
    rcases hknown x hx with hx | ⟨hx, huser⟩
    · exact hK.gone x hx
    · exact ⟨hS.rows x hx, huser⟩
  | draws gone stage hs hends =>
    rcases hends with rfl | rfl
    · refine ⟨fun x hx => ?_, fun gone' new hs' => ?_⟩
      · obtain ⟨hx, huser⟩ := hK.gone x (by rw [hs]; exact hx)
        exact ⟨List.mem_append_left _ hx, huser⟩
      · obtain ⟨rfl, rfl⟩ := Stage.inserted.inj hs'
        exact ⟨nodes_newGrants _ _ _, fun x hx =>
          ⟨List.mem_append_right _ hx, (mem_newGrants hx).1⟩⟩
    · exact ⟨fun x hx => absurd hx List.not_mem_nil, fun _ _ hs' => Stage.noConfusion hs'⟩
  | commits =>
    exact ⟨fun x hx => absurd hx List.not_mem_nil, fun _ _ hs' => Stage.noConfusion hs'⟩

theorem Known.stable (hK : Known db q) (hissued : ∀ x ∈ db.issued, x ∈ db'.issued) :
    Known db' q :=
  ⟨fun x hx => ⟨hissued x (hK.gone x hx).1, (hK.gone x hx).2⟩,
    fun gone new hs => ⟨(hK.new gone new hs).1, fun x hx =>
      ⟨hissued x ((hK.new gone new hs).2 x hx).1, ((hK.new gone new hs).2 x hx).2⟩⟩⟩

/-! ## A commit -/

/-- **A commit leaves the other members' grants alone.** -/
theorem replaced_other (hS : Sequenced db) (hK : Known db q) {gone new : List Grant}
    (hs : q.stage = .inserted gone new) {userId : ℕ} (hne : userId ≠ q.userId) :
    (replaceRows db.grants.rows gone new).filter (·.userId = userId) =
      db.grants.rows.filter (·.userId = userId) := by
  have hnew : new.filter (·.userId = userId) = [] := List.filter_eq_nil_iff.mpr fun x hx huser =>
    hne ((of_decide_eq_true huser).symm.trans ((hK.new gone new hs).2 x hx).2)
  have hkept : ∀ x ∈ db.grants.rows, x.userId = userId → x.id ∉ gone.map Grant.id := by
    intro x hx huser hid
    obtain ⟨y, hy, heq⟩ := List.mem_map.mp hid
    obtain ⟨hyissued, hyuser⟩ := hK.gone_of hs hy
    obtain rfl : y = x := List.inj_on_of_nodup_map hS.issued hyissued (hS.rows x hx) heq
    exact hne (huser.symm.trans hyuser)
  rw [replaceRows, List.filter_append, hnew, List.append_nil, List.filter_filter]
  refine List.filter_congr fun x hx => ?_
  by_cases huser : x.userId = userId
  · have := hkept x hx huser
    simp [huser, this]
  · simp [huser]

/-- **A commit that has read all grants of the member leaves those that were asked for.** -/
theorem replaced_seen (hK : Known db q) {gone new : List Grant}
    (hs : q.stage = .inserted gone new)
    (hseen : ∀ x ∈ db.grants.rows, x.userId = q.userId → x ∈ gone) :
    (replaceRows db.grants.rows gone new).filter (·.userId = q.userId) = new := by
  have hnew : new.filter (·.userId = q.userId) = new := List.filter_eq_self.mpr fun x hx =>
    decide_eq_true ((hK.new gone new hs).2 x hx).2
  have hold : (db.grants.rows.filter fun x => x.id ∉ gone.map Grant.id).filter
      (·.userId = q.userId) = [] := by
    refine List.filter_eq_nil_iff.mpr fun x hx huser => ?_
    obtain ⟨hx, hid⟩ := List.mem_filter.mp hx
    exact of_decide_eq_true hid
      (List.mem_map.mpr ⟨x, hseen x hx (of_decide_eq_true huser), rfl⟩)
  rw [replaceRows, List.filter_append, hnew, hold, List.nil_append]

/-- A commit keeps a grant of the member that it has not read. -/
theorem replaced_unseen (hS : Sequenced db) (hK : Known db q) {gone new : List Grant}
    (hs : q.stage = .inserted gone new) {x : Grant} (hx : x ∈ db.grants.rows)
    (huser : x.userId = q.userId) (hunseen : x ∉ gone) :
    new.length < ((replaceRows db.grants.rows gone new).filter (·.userId = q.userId)).length := by
  have hnew : new.filter (·.userId = q.userId) = new := List.filter_eq_self.mpr fun y hy =>
    decide_eq_true ((hK.new gone new hs).2 y hy).2
  have hid : x.id ∉ gone.map Grant.id := by
    intro hid
    obtain ⟨y, hy, heq⟩ := List.mem_map.mp hid
    obtain rfl : y = x :=
      List.inj_on_of_nodup_map hS.issued (hK.gone_of hs hy).1 (hS.rows x hx) heq
    exact hunseen hy
  have hkept : x ∈ (db.grants.rows.filter fun x => x.id ∉ gone.map Grant.id).filter
      (·.userId = q.userId) :=
    List.mem_filter.mpr ⟨List.mem_filter.mpr ⟨hx, decide_eq_true hid⟩, decide_eq_true huser⟩
  rw [replaceRows, List.filter_append, hnew, List.length_append]
  have := List.length_pos_of_mem hkept
  omega

/-! ## Runs -/

/-- Where the requests begin: the tables, the next id, and what every request asks for. -/
structure Start where
  users : Table User.id
  nodes : List ℤ
  grants : GrantTable
  nextId : ℕ
  fresh : ∀ x ∈ grants.rows, x.id < nextId
  requests : ℕ → ℕ × GrantsBody

def Start.tables (start : Start) : Db where
  users := start.users
  nodes := start.nodes
  grants := start.grants
  nextId := start.nextId
  issued := start.grants.rows

def Start.crew (start : Start) : Crew Db Request where
  shared := start.tables
  loc r := ⟨(start.requests r).1, (start.requests r).2, .begun⟩

/-- A commit that goes through finds no grant of its member that it has not read. -/
def Seen (c : Crew Db Request) (e : ℕ × Move) : Prop :=
  ∀ gone new, (c.loc e.1).stage = .inserted gone new → e.2 = .next →
    (c.shared.grants.replace gone new).isSome →
      ∀ x ∈ c.shared.grants.rows, x.userId = (c.loc e.1).userId → x ∈ gone

/-- A request that succeeds leaves its member exactly the grants that it was to leave. -/
def Replaces (c : Crew Db Request) (e : ℕ × Move) : Prop :=
  ∀ c', step act c e = some c' → (c'.loc e.1).stage = .done .replaced →
    grantedNodeIds c'.shared (c'.loc e.1).userId = (c'.loc e.1).body.sorted

/-- A step that is no success leaves the grants unchanged. -/
def Spares (c : Crew Db Request) (e : ℕ × Move) : Prop :=
  ∀ c', step act c e = some c' → (c'.loc e.1).stage ≠ .done .replaced →
    c'.shared.grants = c.shared.grants

/-- The grants of a member are those of a request that has succeeded, or those of the start if none
has. -/
def Settled (start : Start) (userId : ℕ) (c : Crew Db Request) : Prop :=
  (∃ r, (c.loc r).userId = userId ∧ (c.loc r).stage = .done .replaced ∧
    grantedNodeIds c.shared userId = (c.loc r).body.sorted) ∨
  ((∀ r, (c.loc r).userId = userId → (c.loc r).stage ≠ .done .replaced) ∧
    grantedNodeIds c.shared userId = grantedNodeIds start.tables userId)

theorem holds_start (start : Start) :
    Holds Sequenced (fun _ => Known) start.crew :=
  ⟨⟨start.grants.ids, start.fresh, fun _ hx => hx⟩, fun _ =>
    ⟨fun _ hx => absurd hx List.not_mem_nil, fun _ _ hs => Stage.noConfusion hs⟩⟩

theorem holds_next {c c' : Crew Db Request} {e : ℕ × Move}
    (hH : Holds Sequenced (fun _ => Known) c) (h : step act c e = some c') :
    Holds Sequenced (fun _ => Known) c' := by
  refine holds_step (fun s' m' ha => ?_) (fun s' m' ha q _ => ?_) h
  · have hchange := act_change ha
    exact ⟨hchange.sequenced hH.1 (hH.2 e.1), hchange.known hH.1 (hH.2 e.1)⟩
  · exact (hH.2 q).stable fun x hx => (act_change ha).issued hx

theorem granted_replaced {grants : GrantTable} (hK : Known db q) {gone new : List Grant}
    (hs : q.stage = .inserted gone new)
    (haccepts : db.grants.replace gone new = some grants)
    (hseen : ∀ x ∈ db.grants.rows, x.userId = q.userId → x ∈ gone) :
    grantedNodeIds { db with grants := grants } q.userId = q.body.sorted := by
  simp only [grantedNodeIds]
  rw [replace_rows haccepts, replaced_seen hK hs hseen, (hK.new gone new hs).1, sorted_sorted]

theorem granted_unseen {grants : GrantTable} (hS : Sequenced db) (hK : Known db q)
    {gone new : List Grant} (hs : q.stage = .inserted gone new)
    (haccepts : db.grants.replace gone new = some grants) {x : Grant}
    (hx : x ∈ db.grants.rows) (huser : x.userId = q.userId) (hunseen : x ∉ gone) :
    grantedNodeIds { db with grants := grants } q.userId ≠ q.body.sorted := by
  intro hgranted
  have hlength := congrArg List.length hgranted
  simp only [grantedNodeIds, replace_rows haccepts, List.length_insertionSort,
    List.length_map] at hlength
  rw [← (hK.new gone new hs).1, List.length_map] at hlength
  exact absurd hlength (replaced_unseen hS hK hs hx huser hunseen).ne'

/-- **The condition is exact for a commit.** -/
theorem replaces_iff_seen {c : Crew Db Request} {e : ℕ × Move}
    (hH : Holds Sequenced (fun _ => Known) c) : Seen c e ↔ Replaces c e := by
  constructor
  · intro hseen c' h hdone
    obtain ⟨db', q', hact, rfl⟩ := step_eq_some.mp h
    simp only [Function.update_self] at hdone ⊢
    have hnext : e.2 = .next := next_of_replaced hact hdone
    cases act_change hact with
    | reads stage hunread hundone => exact absurd hdone hundone
    | draws gone stage hs hends =>
      rcases hends with rfl | rfl
      · exact Stage.noConfusion hdone
      · exact Answer.noConfusion (Stage.done.inj hdone)
    | commits gone new grants hs haccepts =>
      have hgranted := granted_replaced (hH.2 e.1) hs haccepts
        (hseen gone new hs hnext (by rw [haccepts, Option.isSome_some]))
      exact hgranted
  · intro hreplaces gone new hs hnext haccepts x hx huser
    obtain ⟨grants, haccepts⟩ := Option.isSome_iff_exists.mp haccepts
    by_contra hunseen
    have hact : act e.1 c.shared (c.loc e.1) e.2 =
        some ({ c.shared with grants := grants }, (c.loc e.1).to (.done .replaced)) := by
      rw [hnext]
      simp only [act, next, hs, haccepts]
    have hgranted := hreplaces _ (step_eq_some.mpr ⟨_, _, hact, rfl⟩)
    simp only [Function.update_self] at hgranted
    exact granted_unseen hH.1 (hH.2 e.1) hs haccepts hx huser hunseen (hgranted rfl)

theorem spares (c : Crew Db Request) (e : ℕ × Move) : Spares c e := by
  intro c' h hundone
  obtain ⟨db', q', hact, rfl⟩ := step_eq_some.mp h
  simp only [Function.update_self] at hundone ⊢
  cases act_change hact with
  | reads => rfl
  | draws => rfl
  | commits => exact absurd rfl hundone

/-- **A commit that has read all grants of its member settles them.** -/
theorem settled_step {start : Start} {c c' : Crew Db Request} {e : ℕ × Move}
    (hH : Holds Sequenced (fun _ => Known) c) (hseen : Seen c e)
    (h : step act c e = some c') {userId : ℕ} (hI : Settled start userId c) :
    Settled start userId c' := by
  have hreplaces := (replaces_iff_seen hH).mp hseen c' h
  have hspares := spares c e c' h
  obtain ⟨db', q', hact, rfl⟩ := step_eq_some.mp h
  simp only [Function.update_self] at hreplaces hspares
  have hsame : q'.userId = (c.loc e.1).userId := act_userId hact
  by_cases hmine : q'.stage = .done .replaced ∧ q'.userId = userId
  · refine Or.inl ⟨e.1, ?_⟩
    simp only [Function.update_self]
    exact ⟨hmine.2, hmine.1, hmine.2 ▸ hreplaces hmine.1⟩
  · have hgranted : grantedNodeIds db' userId = grantedNodeIds c.shared userId := by
      by_cases hdone : q'.stage = .done .replaced
      · have hne : userId ≠ (c.loc e.1).userId := fun heq =>
          hmine ⟨hdone, hsame.trans heq.symm⟩
        cases act_change hact with
        | reads => rfl
        | draws => rfl
        | commits gone new grants hs haccepts =>
          simp only [grantedNodeIds]
          rw [replace_rows haccepts, replaced_other hH.1 (hH.2 e.1) hs hne]
      · simp only [grantedNodeIds, hspares hdone]
    rcases hI with ⟨r, huser, hdone, heq⟩ | ⟨hundone, heq⟩
    · have hne : r ≠ e.1 := by
        rintro rfl
        exact not_done hact _ hdone
      refine Or.inl ⟨r, ?_⟩
      simp only [Function.update_of_ne hne]
      exact ⟨huser, hdone, hgranted.trans heq⟩
    · refine Or.inr ⟨fun r huser hdone => ?_, hgranted.trans heq⟩
      by_cases hr : r = e.1
      · subst hr
        simp only [Function.update_self] at huser hdone
        exact hmine ⟨hdone, huser⟩
      · simp only [Function.update_of_ne hr] at huser hdone
        exact hundone r huser hdone

/-- **The replacement is atomic as long as no commit finds a grant that it has not read**: then
every request that succeeds leaves exactly the grants that it was to leave, and the grants of every
member are at any time those of a request that has succeeded, or those of the start. A request that
does not succeed leaves all grants alone in any case. -/
theorem replaced_iff (start : Start) (moves : List (ℕ × Move)) :
    (Along (step act) Seen start.crew moves ↔ Along (step act) Replaces start.crew moves) ∧
    (Along (step act) Seen start.crew moves →
      Visits (step act) (fun c => ∀ userId, Settled start userId c) start.crew moves) ∧
    Along (step act) Spares start.crew moves := by
  refine ⟨⟨fun h => ?_, fun h => ?_⟩, fun h pre hpre c hc userId => ?_, ?_⟩
  · exact along_of_inv (fun _ _ _ hH _ hs => holds_next hH hs)
      (fun _ _ hH hseen => (replaces_iff_seen hH).mp hseen) moves _ (holds_start start) h
  · exact along_of_inv (fun _ _ _ hH _ hs => holds_next hH hs)
      (fun _ _ hH hreplaces => (replaces_iff_seen hH).mpr hreplaces) moves _ (holds_start start) h
  · obtain ⟨rest, rfl⟩ := hpre
    have hstart : Settled start userId start.crew :=
      Or.inr ⟨fun _ _ => Stage.noConfusion, rfl⟩
    exact (run_inv_along (I := fun c => Holds Sequenced (fun _ => Known) c ∧
        Settled start userId c)
      (fun _ _ _ hI hseen hs => ⟨holds_next hI.1 hs, settled_step hI.1 hseen hs hI.2⟩)
      pre _ c ⟨holds_start start, hstart⟩ ((along_append pre rest _).mp h).1 hc).2
  · exact along_of_inv (I := fun _ => True) (fun _ _ _ _ _ _ => trivial)
      (fun c e _ _ => spares c e) moves _ trivial (along_true moves _)

/-- A member with a grant of node 1, and two administrators who replace it by node 2 and by
node 3. -/
def sampleStart : Start where
  users := .single ⟨7, "bob", "argon2id:x", .member, true, 0, none⟩
  nodes := [1, 2, 3]
  grants := ⟨[⟨1, 7, 1⟩], by simp, by simp⟩
  nextId := 2
  fresh := by decide
  requests r := (7, if r = 0 then ⟨[2], by simp⟩ else ⟨[3], by simp⟩)

/-- Both read the grant before one of them commits. -/
def overlap : List (ℕ × Move) :=
  List.replicate 3 (0, .next) ++ List.replicate 3 (1, .next) ++ List.replicate 3 (0, .next) ++
    List.replicate 3 (1, .next)

/-- The member ends up with both nodes, which nobody has asked for. -/
theorem overlap_widens : ∃ c, run (step act) sampleStart.crew overlap = some c ∧
    (c.loc 0).stage = .done .replaced ∧ (c.loc 1).stage = .done .replaced ∧
    grantedNodeIds c.shared 7 = [2, 3] ∧ ¬ Settled sampleStart 7 c := by
  obtain ⟨c, hc⟩ : ∃ c, run (step act) sampleStart.crew overlap = some c := ⟨_, rfl⟩
  have hends : ((run (step act) sampleStart.crew overlap).any fun c =>
      (c.loc 0).stage = .done .replaced && (c.loc 1).stage = .done .replaced &&
        (c.loc 0).body.sorted = [2] && (c.loc 1).body.sorted = [3] &&
        grantedNodeIds c.shared 7 = [2, 3] && (c.loc 0).userId = 7) = true := by decide +kernel
  simp only [hc, Option.any_some, Bool.and_eq_true, decide_eq_true_eq] at hends
  obtain ⟨⟨⟨⟨⟨h0, h1⟩, hbody0⟩, hbody1⟩, hgranted⟩, huser⟩ := hends
  refine ⟨c, hc, h0, h1, hgranted, fun hsettled => ?_⟩
  rcases hsettled with ⟨r, -, hdone, heq⟩ | ⟨hundone, -⟩
  · rw [hgranted] at heq
    by_cases hr : r ∈ overlap.map Prod.fst
    · have hr : r = 0 ∨ r = 1 := by
        simp only [overlap, List.map_append, List.map_replicate, List.mem_append,
          List.mem_replicate] at hr
        omega
      rcases hr with rfl | rfl
      · rw [hbody0] at heq
        exact absurd heq (by decide)
      · rw [hbody1] at heq
        exact absurd heq (by decide)
    · rw [run_loc_of_notMem hc hr] at hdone
      exact Stage.noConfusion hdone
  · exact hundone 0 huser h0

end IdenGrid.Control.Grants
