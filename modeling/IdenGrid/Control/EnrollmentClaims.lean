import IdenGrid.Control.Links

/-! # The answers of a claim

`claim_edge_enrollment` makes all its comparisons before it answers, and `hmac.compare_digest` raises
at a text that is not ASCII. `uniform_iff`: a claim is answered as the checks have it, with one answer
for all that they refuse, exactly if the texts it compares are ASCII; of these, the name of the node
(an update may set any), the address in the body and the source address need not be.

`Sound` is what the reachable registry adds: token hashes are digests, and the endpoint and the
expected address of a node have passed `validate_edge_node_network`. -/

namespace IdenGrid.Control.EnrollmentClaims

open IdenGrid.Lib.Run IdenGrid.Lib.Store IdenGrid.Lib.WriteBack IdenGrid.Lib.Results
open IdenGrid.Lib.Unicode
open IdenGrid.Control.Rows IdenGrid.Control.Nodes
open IdenGrid.Control.Monitor hiding Db
open IdenGrid.Control.Registry IdenGrid.Control.NodeAdmin IdenGrid.Control.Enrollments
open IdenGrid.Control.Registrations IdenGrid.Control.Handlers IdenGrid.Control.Fleet
open IdenGrid.Control.Links

/-! ## The registry behind a claim -/

/-- The settings of the node have been checked. -/
def Checked (P : Primitives) (n : NodeRow) : Prop :=
  validateEdgeNodeNetwork P (some n.endpoint) n.expectedPublicIpv4 = .ok ()

structure Sound (P : Primitives) (ns : List NodeRow) (es : List EnrollmentRow) : Prop where
  hashed : ∀ e ∈ es, ∃ s, e.tokenHash = P.enrollmentHash s
  checked : ∀ n ∈ ns, Checked P n

variable {P : Primitives}

theorem checked_domain {n : NodeRow} (h : Checked P n) : domain P n.endpoint ≠ none := by
  unfold Checked validateEdgeNodeNetwork at h
  rw [Option.map_some] at h
  rcases hurl : P.urlsplit n.endpoint with _ | parsed
  · rw [hurl] at h
    cases h
  · simp only [hurl] at h
    split_ifs at h with hbad
    rw [domain, hurl, Option.bind_some]
    rintro hhost
    exact hbad (Or.inr (Or.inl (by rw [hhost]; rfl)))

theorem checked_expected {n : NodeRow} (h : Checked P n) {ip : String}
    (hip : n.expectedPublicIpv4 = some ip) : globalIpv4 ip = true := by
  unfold Checked validateEdgeNodeNetwork at h
  rw [Option.map_some, hip] at h
  rcases hurl : P.urlsplit n.endpoint with _ | parsed
  · rw [hurl] at h
    cases h
  · simp only [hurl] at h
    split_ifs at h with hbad hglobal
    exact hglobal

theorem Sound.map {ns : List NodeRow} {es : List EnrollmentRow} (h : Sound P ns es)
    {f : NodeRow → NodeRow} {g : EnrollmentRow → EnrollmentRow}
    (hf : ∀ n ∈ ns, Checked P (f n))
    (hg : ∀ e ∈ es, (g e).tokenHash = e.tokenHash ∨ ∃ s, (g e).tokenHash = P.enrollmentHash s) :
    Sound P (ns.map f) (es.map g) := by
  constructor
  · intro e' he'
    obtain ⟨e, he, rfl⟩ := List.mem_map.mp he'
    rcases hg e he with heq | hnew
    · rw [heq]
      exact h.hashed e he
    · exact hnew
  · intro n' hn'
    obtain ⟨n, hn, rfl⟩ := List.mem_map.mp hn'
    exact hf n hn

theorem Sound.enrollments {ns : List NodeRow} {es : List EnrollmentRow} (h : Sound P ns es)
    {g : EnrollmentRow → EnrollmentRow}
    (hg : ∀ e ∈ es, (g e).tokenHash = e.tokenHash ∨ ∃ s, (g e).tokenHash = P.enrollmentHash s) :
    Sound P ns (es.map g) := by
  have := h.map (f := id) h.checked hg
  rwa [List.map_id] at this

theorem Sound.append {ns : List NodeRow} {es : List EnrollmentRow} (h : Sound P ns es)
    {n : NodeRow} {e : EnrollmentRow} (hn : Checked P n)
    (he : ∃ s, e.tokenHash = P.enrollmentHash s) : Sound P (ns ++ [n]) (es ++ [e]) := by
  constructor
  · intro x hx
    rcases List.mem_append.mp hx with hx | hx
    · exact h.hashed x hx
    · obtain rfl := List.mem_singleton.mp hx
      exact he
  · intro x hx
    rcases List.mem_append.mp hx with hx | hx
    · exact h.checked x hx
    · obtain rfl := List.mem_singleton.mp hx
      exact hn

theorem checked_createEdgeNode {body : EdgeNodeCreateBody} {newId : ℕ} {db : Db} {n : NodeRow}
    (h : createEdgeNode P body newId db = .ok n) : Checked P n := by
  unfold createEdgeNode at h
  obtain ⟨⟨⟩, hvalid, h⟩ := bind_eq_ok.mp h
  by_cases hdup : duplicate db (some body.name) (some body.endpoint) none = true
  · simp [hdup] at h
  · rw [if_neg hdup] at h
    obtain rfl := Except.ok.inj h
    exact hvalid

theorem checked_createEdgeEnrollment {body : EdgeEnrollmentCreateBody}
    {i : Enrollments.CreateInputs} {db : Db} {c : EnrollmentCreation}
    (h : createEdgeEnrollment P body i db = .ok c) : Checked P c.node := by
  unfold createEdgeEnrollment at h
  obtain ⟨⟨⟩, hvalid, h⟩ := bind_eq_ok.mp h
  split_ifs at h
  obtain rfl := Except.ok.inj h
  exact hvalid

theorem checked_acceptNodeRegistration {requestId : String} {body : NodeRegistrationAcceptBody}
    {i : AcceptInputs} {db : Db} {a : Acceptance}
    (h : acceptNodeRegistration P requestId body i db = .ok a) : Checked P a.node := by
  unfold acceptNodeRegistration at h
  split at h
  · simp at h
  · next item hitem =>
    by_cases hstatus : item.status ≠ .pendingApproval ∨ item.provedAt = none
    · simp [hstatus] at h
    rw [if_neg hstatus] at h
    obtain ⟨⟨⟩, hvalid, h⟩ := bind_eq_ok.mp h
    by_cases hip : body.expectedPublicIpv4 = item.actualPublicIpv4
    swap
    · simp [hip] at h
    rw [if_neg (not_not.mpr hip)] at h
    by_cases hdup : duplicate db (some body.nodeName) (some body.endpoint) none = true
    · simp [hdup] at h
    rw [if_neg hdup] at h
    obtain rfl := Except.ok.inj h
    rw [hip] at hvalid
    exact hvalid

theorem checked_updateEdgeNode {nodeId : ℕ} {body : EdgeNodeUpdateBody} {db : Db}
    {loaded new : NodeRow} (h : updateEdgeNode P nodeId body db = .ok (loaded, new)) :
    Checked P new := by
  unfold updateEdgeNode at h
  split at h
  · simp at h
  · next node hnode =>
    dsimp only at h
    split_ifs at h
    obtain ⟨⟨⟩, hvalid, h⟩ := bind_eq_ok.mp h
    split at h
    · next new' hnew =>
      obtain ⟨rfl, rfl⟩ : node = loaded ∧ new' = new := by simpa using h
      obtain ⟨-, -, -, -, hendpoint, -, -, hexpected, -⟩ := patch_eq_some hnew
      rw [hendpoint, ← hexpected] at hvalid
      exact hvalid
    · simp at h

theorem checked_nodeAfter (inputs : MonitorInputs) {n : NodeRow} (h : Checked P n) :
    Checked P (nodeAfter inputs n) := by
  unfold nodeAfter
  split
  · split_ifs
    · unfold monitorNode updateNode
      split <;> exact h
    · exact h
  · exact h

theorem tokenHash_enrollmentAfter (inputs : MonitorInputs) (db : Db) (e : EnrollmentRow) :
    (enrollmentAfter inputs db e).tokenHash = e.tokenHash := by
  unfold enrollmentAfter
  split
  · split_ifs <;> rfl
  · rfl

/-- **Every request keeps the registry sound.** -/
theorem Sound.effect {db : Db} {req : Request} {ns : List NodeRow} {es : List EnrollmentRow}
    {rs : List RegistrationRow} (h : Sound P db.nodes.rows db.enrollments.rows)
    (he : Effect P db req ns es rs) : Sound P ns es := by
  cases he with
  | createNode body newId node checked fresh =>
    refine ⟨h.hashed, fun x hx => ?_⟩
    rcases List.mem_append.mp hx with hx | hx
    · exact h.checked x hx
    · obtain rfl := List.mem_singleton.mp hx
      exact checked_createEdgeNode checked
  | updateNode nodeId body loaded new checked =>
    refine ⟨h.hashed, fun x hx => ?_⟩
    obtain ⟨y, hy, rfl⟩ := List.mem_map.mp hx
    rcases atKey_cases NodeRow.key loaded.id (fun _ => new) y with ⟨-, heq⟩ | ⟨-, heq⟩ <;> rw [heq]
    · exact h.checked y hy
    · exact checked_updateEdgeNode checked
  | deleteNode nodeId _ =>
    exact ⟨fun e he => h.hashed e (List.mem_filter.mp he).1,
      fun n hn => h.checked n (List.mem_filter.mp hn).1⟩
  | createEnrollment body inputs c checked _ _ =>
    obtain ⟨-, -, -, -, -, -, hhash, -⟩ := createEdgeEnrollment_eq_ok checked
    exact h.append (checked_createEdgeEnrollment checked) ⟨_, hhash⟩
  | listEnrollments clock =>
    refine h.enrollments fun e _ => Or.inl ?_
    unfold serializeEnrollment
    split_ifs <;> rfl
  | expireEnrollment req item now mem =>
    refine h.enrollments fun e _ => Or.inl ?_
    rcases atKey_cases EnrollmentRow.key item.id (serializeEnrollment now) e with ⟨-, heq⟩ | ⟨-, heq⟩
      <;> rw [heq]
    unfold serializeEnrollment
    split_ifs <;> rfl
  | claimEnrollment authorization body inputs c checked =>
    refine h.enrollments fun e _ => ?_
    unfold EnrollmentClaim.set
    split_ifs
    · exact Or.inr ⟨_, rfl⟩
    · exact Or.inl rfl
  | report authorization body now item node valid enables =>
    refine h.map (fun n hn => ?_) fun e _ => Or.inl ?_
    · rcases node with _ | a
      · exact h.checked n hn
      · rw [atRow_some]
        rcases atKey_cases NodeRow.key a.key reportNode n with ⟨-, heq⟩ | ⟨-, heq⟩ <;> rw [heq]
        · exact h.checked n hn
        · exact h.checked n hn
    · rcases atKey_cases EnrollmentRow.key item.id (reportEnrollment body now) e
        with ⟨-, heq⟩ | ⟨-, heq⟩ <;> rw [heq]
      rfl
  | revoke enrollmentId fresh now item mem revocable =>
    refine h.map (fun n hn => ?_) fun e _ => ?_
    · rcases atKey_cases NodeRow.key item.edgeNodeId revokeNode n with ⟨-, heq⟩ | ⟨-, heq⟩ <;>
        rw [heq]
      · exact h.checked n hn
      · exact h.checked n hn
    · rcases atKey_cases EnrollmentRow.key item.id (revokeEnrollment P fresh now) e
        with ⟨-, heq⟩ | ⟨-, heq⟩ <;> rw [heq]
      · exact Or.inl rfl
      · exact Or.inr ⟨_, rfl⟩
  | regenerate enrollmentId inputs item mem idle =>
    refine h.enrollments fun e _ => ?_
    rcases atKey_cases EnrollmentRow.key item.id (regenerateEnrollment P inputs) e
      with ⟨-, heq⟩ | ⟨-, heq⟩ <;> rw [heq]
    · exact Or.inl rfl
    · exact Or.inr ⟨_, rfl⟩
  | accept requestId body inputs a checked _ _ =>
    exact h.append (checked_acceptNodeRegistration checked) ⟨_, rfl⟩
  | claimRegistration requestId body authorization inputs cc c checked read =>
    obtain ⟨-, -, -, -, -, hmem, -⟩ := CheckedClaim.readEnrollment_eq_ok read
    refine h.enrollments fun e _ => ?_
    rcases atKey_cases EnrollmentRow.key c.enrollment.id (fun _ => c.installing) e
      with ⟨-, heq⟩ | ⟨-, heq⟩ <;> rw [heq]
    · exact Or.inl rfl
    · exact Or.inr (h.hashed c.enrollment hmem)
  | monitor inputs _ =>
    exact h.map (fun n hn => checked_nodeAfter inputs (h.checked n hn)) fun e _ =>
      Or.inl (tokenHash_enrollmentAfter inputs db e)
  | _ => exact h

theorem sound_of_run {reqs : List Request} {db : Db}
    (hr : run (Fleet.step P) Db.empty reqs = some db) :
    Sound P db.nodes.rows db.enrollments.rows := by
  refine run_inv (I := fun db : Db => Sound P db.nodes.rows db.enrollments.rows)
    (fun s req s' h hs => ?_) reqs _ db
    ⟨fun e he => absurd he List.not_mem_nil, fun n hn => absurd hn List.not_mem_nil⟩ hr
  obtain rfl := Option.some.inj hs
  exact h.effect (serve_effect s req)

/-! ## What a claim compares -/

/-- `str.isascii`. -/
def isAscii (s : String) : Bool := s.toList.all fun c => c.toNat < 128

theorem compareDigest_of_ascii {a b : String} (ha : isAscii a = true) (hb : isAscii b = true) :
    compareDigest a b = some (a == b) := by
  unfold compareDigest
  rw [List.all_append]
  exact if_pos (Bool.and_eq_true_iff.mpr ⟨ha, hb⟩)

theorem compareDigest_eq_none {a b : String} (h : isAscii a = false ∨ isAscii b = false) :
    compareDigest a b = none := by
  unfold compareDigest
  rw [List.all_append]
  refine if_neg fun hall => ?_
  obtain ⟨ha, hb⟩ := Bool.and_eq_true_iff.mp hall
  rcases h with h | h
  · exact Bool.false_ne_true (h.symm.trans ha)
  · exact Bool.false_ne_true (h.symm.trans hb)

theorem isAscii_of_globalIpv4 {ip : String} (h : globalIpv4 ip = true) : isAscii ip = true := by
  unfold globalIpv4 at h
  obtain ⟨n, hn, -⟩ := Option.any_eq_true _ _ |>.mp h
  refine List.all_eq_true.mpr fun c hc => decide_eq_true ?_
  have := Lib.Ipv4.parse_digits hn c.toNat (List.mem_map_of_mem hc)
  omega

/-- The characters that the schema of a claim allows in the name of a node. -/
def nameChar (c : Char) : Bool :=
  c.isAlphanum || c == '.' || c == '_' || c == '-'

/-- The constraints of `EdgeEnrollmentClaimBody`. -/
structure Valid (body : EdgeEnrollmentClaimBody) : Prop where
  nodeName : 1 ≤ body.nodeName.length ∧ body.nodeName.length ≤ 100 ∧
    body.nodeName.toList.all nameChar = true
  publicIpv4 : 7 ≤ body.publicIpv4.length ∧ body.publicIpv4.length ≤ 15
  agentVersion : 1 ≤ body.agentVersion.length ∧ body.agentVersion.length ≤ 100

theorem toNat_of_nameChar {c : Char} (h : nameChar c = true) : c.toNat < 128 := by
  simp only [nameChar, Char.isAlphanum, Bool.or_eq_true, beq_iff_eq] at h
  have hle : ∀ n : UInt32, n.toNat < 128 → c.val ≤ n → c.toNat < 128 := fun n hn h =>
    lt_of_le_of_lt h hn
  rcases h with (((h | h) | rfl) | rfl) | rfl
  · rcases (show c.isUpper = true ∨ c.isLower = true from (Bool.or_eq_true _ _).mp h) with h | h
    · exact hle 'Z'.val (by decide) (of_decide_eq_true h).2
    · exact hle 'z'.val (by decide) (of_decide_eq_true ((Bool.and_eq_true _ _).mp h).2)
  · exact hle '9'.val (by decide) (of_decide_eq_true ((Bool.and_eq_true _ _).mp h).2)
  all_goals decide

theorem Valid.isAscii_nodeName {body : EdgeEnrollmentClaimBody} (h : Valid body) :
    isAscii body.nodeName = true := by
  refine List.all_eq_true.mpr fun c hc => decide_eq_true ?_
  exact toNat_of_nameChar (List.all_eq_true.mp h.nodeName.2.2 c hc)

/-! ## What a claim is answered -/

/-- A claim of an enrollment as the handler gets it. -/
structure Claim where
  authorization : Option String
  body : EdgeEnrollmentClaimBody
  sourceIp : Option String
  now : ℕ
  fresh : String
  reportSecret : String

/-- `HTTPException(503)` of `verified_edge_package`. -/
def packageUnavailable : Refusal := ⟨503, "Edge package unavailable"⟩

/-- What else the handler reads, with the package that `verified_edge_package` finds. -/
def Claim.inputs (k : Claim) (package : Option (String × String)) : Enrollments.ClaimInputs where
  sourceIp := k.sourceIp
  now := k.now
  package := package.elim (.error packageUnavailable) .ok
  fresh := k.fresh
  reportSecret := k.reportSecret

def Claim.request (k : Claim) (package : Option (String × String)) : Request :=
  .claimEdgeEnrollment k.authorization k.body (k.inputs package)

/-- The whole token in the header, with the id of its enrollment. -/
def Claim.token (k : Claim) : Option (String × String) :=
  (headerToken "Enrollment " 200 k.authorization).filter fun t => t.2.length ≤ 64

/-- The header names this enrollment of this node, by this token. -/
structure Claim.Names (k : Claim) (db : Db) (raw : String) (item : EnrollmentRow)
    (node : NodeRow) : Prop where
  token : k.token = some (raw, item.id)
  item_mem : item ∈ db.enrollments.rows
  node_mem : node ∈ db.nodes.rows
  own : node.id = item.edgeNodeId

/-- The conditions on the token, the status, the expiry, the name, the expected address, the source
and the address. -/
structure Claim.Meets (P : Primitives) (k : Claim) (raw : String) (item : EnrollmentRow)
    (node : NodeRow) : Prop where
  token : P.enrollmentHash raw = item.tokenHash
  status : item.status = .pending ∧ item.claimedAt = none
  expiry : k.now < item.expiresAt
  name : k.body.nodeName = node.name
  expected : node.expectedPublicIpv4 = some k.body.publicIpv4
  source : ∀ ip, k.sourceIp = some ip → ip = k.body.publicIpv4
  isGlobal : globalIpv4 k.body.publicIpv4 = true

/-- All of the conditions hold. -/
def Claim.Entitled (P : Primitives) (k : Claim) (db : Db) : Prop :=
  ∃ raw item node, k.Names db raw item node ∧ k.Meets P raw item node

/-- An overdue pending enrollment that the header names becomes expired. -/
def Claim.expire (k : Claim) (e : EnrollmentRow) : EnrollmentRow :=
  if k.token.map Prod.snd = some e.id ∧ e.status = .pending ∧ e.expiresAt ≤ k.now then
    { e with status := .expired, updatedAt := k.now }
  else e

/-- **The uniform answer.** -/
structure Uniform (P : Primitives) (k : Claim) (package : Option (String × String)) (db : Db) :
    Prop where
  succeeds : (∃ c, (serve P (k.request package) db).2 = .configuration c ∧ c.domain ≠ none) ↔
    k.Entitled P db ∧ package ≠ none
  unavailable : k.Entitled P db → package = none →
    serve P (k.request package) db = (db, .refused packageUnavailable)
  rejected : ¬ k.Entitled P db →
    (serve P (k.request package) db).2 = .refused invalidEnrollment ∧
      (serve P (k.request package) db).1.nodes.rows = db.nodes.rows ∧
      (serve P (k.request package) db).1.enrollments.rows = db.enrollments.rows.map k.expire ∧
      (serve P (k.request package) db).1.registrations.rows = db.registrations.rows

/-- All texts that the claim compares are ASCII. -/
def Claim.Comparable (k : Claim) (db : Db) : Prop :=
  ∀ raw item node, k.Names db raw item node → isAscii node.name = true ∧
    isAscii k.body.publicIpv4 = true ∧ ∀ ip, k.sourceIp = some ip → isAscii ip = true

/-! ## The enrollment that a claim names -/

theorem Claim.Names.get_item {k : Claim} {db : Db} {raw : String} {item : EnrollmentRow}
    {node : NodeRow} (h : k.Names db raw item node) : db.enrollments.get? item.id = some item :=
  Table.get?_eq_some.mpr ⟨h.item_mem, rfl⟩

theorem Claim.Names.get_node {k : Claim} {db : Db} {raw : String} {item : EnrollmentRow}
    {node : NodeRow} (h : k.Names db raw item node) :
    db.nodes.get? item.edgeNodeId = some node :=
  Table.get?_eq_some.mpr ⟨h.node_mem, h.own⟩

theorem Claim.Names.eq {k : Claim} {db : Db} {raw raw' : String} {item item' : EnrollmentRow}
    {node node' : NodeRow} (h : k.Names db raw item node) (h' : k.Names db raw' item' node') :
    raw' = raw ∧ item' = item ∧ node' = node := by
  obtain ⟨rfl, hid⟩ : raw = raw' ∧ item.id = item'.id := by
    simpa using h.token.symm.trans h'.token
  have hitem : item' = item := Table.eq_of_key h'.item_mem h.item_mem hid.symm
  subst hitem
  exact ⟨rfl, rfl, Table.eq_of_key h'.node_mem h.node_mem (h'.own.trans h.own.symm)⟩

theorem Claim.Names.entitled_iff {k : Claim} {db : Db} {raw : String} {item : EnrollmentRow}
    {node : NodeRow} (h : k.Names db raw item node) : k.Entitled P db ↔ k.Meets P raw item node := by
  constructor
  · rintro ⟨raw', item', node', h', hmeets⟩
    obtain ⟨rfl, rfl, rfl⟩ := h.eq h'
    exact hmeets
  · exact fun hmeets => ⟨raw, item, node, h, hmeets⟩

theorem Claim.token_eq_some {k : Claim} {t : String × String} :
    k.token = some t ↔
      headerToken "Enrollment " 200 k.authorization = some t ∧ t.2.length ≤ 64 := by
  unfold Claim.token
  rw [Option.filter_eq_some_iff, decide_eq_true_eq]

/-- A header that names no enrollment with a node is refused. -/
theorem claim_unnamed {k : Claim} {db : Db}
    (hlinked : ∀ e ∈ db.enrollments.rows, ∃ n ∈ db.nodes.rows, n.id = e.edgeNodeId)
    (i : Enrollments.ClaimInputs) (h : ∀ raw item node, ¬ k.Names db raw item node) :
    claimEdgeEnrollment P k.authorization k.body i db = .error invalidEnrollment := by
  unfold claimEdgeEnrollment
  split
  · rfl
  · next raw tokenId htoken =>
    by_cases hlong : 64 < tokenId.length
    · rw [if_pos hlong]
    rw [if_neg hlong]
    split
    · rfl
    · next item hitem =>
      obtain ⟨hmem, rfl⟩ := Table.get?_eq_some.mp hitem
      obtain ⟨node, hnode, hown⟩ := hlinked item hmem
      exact absurd ⟨Claim.token_eq_some.mpr ⟨htoken, not_lt.mp hlong⟩, hmem, hnode, hown⟩
        (h raw item node)

section Named

variable {k : Claim} {db : Db} {raw : String} {item : EnrollmentRow} {node : NodeRow}

theorem claim_raises (h : k.Names db raw item node) {i : Enrollments.ClaimInputs}
    (hvalid : claimValid P raw k.body i item node = none) :
    claimEdgeEnrollment P k.authorization k.body i db = .error serverError := by
  obtain ⟨htoken, hlen⟩ := Claim.token_eq_some.mp h.token
  unfold claimEdgeEnrollment
  simp only [htoken, if_neg (not_lt.mpr hlen), h.get_item, h.get_node, hvalid]

theorem claim_invalid (h : k.Names db raw item node) {i : Enrollments.ClaimInputs}
    (hvalid : claimValid P raw k.body i item node = some false) :
    claimEdgeEnrollment P k.authorization k.body i db =
      if item.status = .pending ∧ item.expiresAt ≤ i.now then
        .ok (.inl ({ enrollments := [(item, serializeEnrollment i.now item)] },
          .refused invalidEnrollment))
      else .error invalidEnrollment := by
  obtain ⟨htoken, hlen⟩ := Claim.token_eq_some.mp h.token
  unfold claimEdgeEnrollment
  simp only [htoken, if_neg (not_lt.mpr hlen), h.get_item, h.get_node, hvalid]

theorem claim_valid (h : k.Names db raw item node) {i : Enrollments.ClaimInputs}
    (hvalid : claimValid P raw k.body i item node = some true) :
    claimEdgeEnrollment P k.authorization k.body i db =
      i.package.map fun p => .inr
        { raw := raw
          item := item
          node := node
          body := k.body
          now := i.now
          fresh := i.fresh
          reportToken := rawToken item.id i.reportSecret
          packageSha256 := p.1
          packageRoute := p.2 } := by
  obtain ⟨htoken, hlen⟩ := Claim.token_eq_some.mp h.token
  unfold claimEdgeEnrollment
  simp only [htoken, if_neg (not_lt.mpr hlen), h.get_item, h.get_node, hvalid]
  cases i.package <;> rfl

end Named

/-! ## The checks of a claim -/

theorem sourceMatches_of_ascii {sourceIp : Option String} {publicIpv4 : String}
    (hsource : ∀ ip, sourceIp = some ip → isAscii ip = true) (hbody : isAscii publicIpv4 = true) :
    ∃ b, sourceMatches sourceIp publicIpv4 = some b ∧
      (b = true ↔ ∀ ip, sourceIp = some ip → ip = publicIpv4) := by
  cases sourceIp with
  | none => exact ⟨true, rfl, by simp⟩
  | some ip =>
    exact ⟨ip == publicIpv4, compareDigest_of_ascii (hsource ip rfl) hbody, by simp⟩

theorem sourceMatches_eq_none {sourceIp : Option String} {publicIpv4 ip : String}
    (hsource : sourceIp = some ip) (h : isAscii ip = false) :
    sourceMatches sourceIp publicIpv4 = none := by
  subst hsource
  exact compareDigest_eq_none (Or.inl h)

section Checks

variable {k : Claim} {db : Db} {raw : String} {item : EnrollmentRow} {node : NodeRow}
  {i : Enrollments.ClaimInputs}

/-- On texts that are ASCII the checks decide the conditions. -/
theorem claimValid_of_comparable (hash : ∀ s, isAscii (P.enrollmentHash s) = true)
    (hs : Sound P db.nodes.rows db.enrollments.rows) (hv : Valid k.body)
    (h : k.Names db raw item node) (hc : k.Comparable db) (hsource : i.sourceIp = k.sourceIp)
    (hnow : i.now = k.now) :
    ∃ b, claimValid P raw k.body i item node = some b ∧ (b = true ↔ k.Meets P raw item node) := by
  obtain ⟨hname, hip, hknown⟩ := hc raw item node h
  obtain ⟨s, hs'⟩ := hs.hashed item h.item_mem
  have hexpected : isAscii (node.expectedPublicIpv4.getD "") = true := by
    rcases hnone : node.expectedPublicIpv4 with _ | ip
    · rfl
    · exact isAscii_of_globalIpv4 (checked_expected (hs.checked node h.node_mem) hnone)
  obtain ⟨source, hsrc, hiff⟩ := sourceMatches_of_ascii hknown hip
  have hstored : isAscii item.tokenHash = true := by
    rw [hs']
    exact hash s
  have hval : claimValid P raw k.body i item node =
      some (P.enrollmentHash raw == item.tokenHash && item.status == .pending &&
        item.claimedAt.isNone && decide (k.now < item.expiresAt) && k.body.nodeName == node.name &&
        k.body.publicIpv4 == node.expectedPublicIpv4.getD "" && source &&
        globalIpv4 k.body.publicIpv4) := by
    unfold claimValid
    rw [compareDigest_of_ascii (hash raw) hstored, compareDigest_of_ascii hv.isAscii_nodeName hname,
      compareDigest_of_ascii hip hexpected, hsource, hsrc, hnow]
    rfl
  have hbody : k.body.publicIpv4 ≠ "" := by
    intro heq
    have := hv.publicIpv4.1
    rw [heq] at this
    exact absurd this (by decide)
  have hmatches : k.body.publicIpv4 = node.expectedPublicIpv4.getD "" ↔
      node.expectedPublicIpv4 = some k.body.publicIpv4 := by
    rcases node.expectedPublicIpv4 with _ | ip
    · simpa using hbody
    · simp [eq_comm]
  refine ⟨_, hval, ?_⟩
  simp only [Bool.and_eq_true, beq_iff_eq, decide_eq_true_eq, Option.isNone_iff_eq_none, hiff,
    hmatches]
  constructor
  · rintro ⟨⟨⟨⟨⟨⟨⟨h1, h2⟩, h3⟩, h4⟩, h5⟩, h6⟩, h7⟩, h8⟩
    exact ⟨h1, ⟨h2, h3⟩, h4, h5, h6, h7, h8⟩
  · rintro ⟨h1, ⟨h2, h3⟩, h4, h5, h6, h7, h8⟩
    exact ⟨⟨⟨⟨⟨⟨⟨h1, h2⟩, h3⟩, h4⟩, h5⟩, h6⟩, h7⟩, h8⟩

/-- One text that is not ASCII stops the handler. -/
theorem claimValid_raises (hsource : i.sourceIp = k.sourceIp)
    (h : isAscii node.name = false ∨ isAscii k.body.publicIpv4 = false ∨
      ∃ ip, k.sourceIp = some ip ∧ isAscii ip = false) :
    claimValid P raw k.body i item node = none := by
  unfold claimValid
  simp only [Option.bind_eq_bind, Option.bind_eq_none_iff]
  intro token _ name hname expected hexpected source hsrc
  rcases h with h | h | ⟨ip, hip, h⟩
  · rw [compareDigest_eq_none (Or.inr h)] at hname
    exact absurd hname.symm (Option.some_ne_none _)
  · rw [compareDigest_eq_none (Or.inl h)] at hexpected
    exact absurd hexpected.symm (Option.some_ne_none _)
  · rw [hsource, sourceMatches_eq_none hip h] at hsrc
    exact absurd hsrc.symm (Option.some_ne_none _)

end Checks

/-! ## The answer -/

section Answer

variable {k : Claim} {db : Db} {raw : String} {item : EnrollmentRow} {node : NodeRow}
  {package : Option (String × String)}

/-- A claim reads once. -/
theorem prepare_claim :
    prepare P db (k.request package) =
      (claimEdgeEnrollment P k.authorization k.body (k.inputs package) db).map fun w =>
        w.elim Plan.ofWrite Plan.claimEnrollment := by
  have hbegin : begin P db (k.request package) =
      (claimEdgeEnrollment P k.authorization k.body (k.inputs package) db).map fun w =>
        .ready (w.elim Plan.ofWrite Plan.claimEnrollment) := rfl
  unfold prepare
  rw [hbegin]
  cases claimEdgeEnrollment P k.authorization k.body (k.inputs package) db <;> rfl

/-- A claim that is refused before it writes anything. -/
theorem serve_claim_refused {refusal : Refusal}
    (h : claimEdgeEnrollment P k.authorization k.body (k.inputs package) db = .error refusal) :
    serve P (k.request package) db = (db, .refused refusal) := by
  refine serve_refused ?_
  rw [prepare_claim, h]
  rfl

theorem Claim.expire_eq (k : Claim) (e : EnrollmentRow) :
    k.expire e = if k.token.map Prod.snd = some e.id then serializeEnrollment k.now e else e :=
  ite_and ..

/-- The rows that a claim expires. -/
theorem map_expire (h : k.Names db raw item node) :
    db.enrollments.rows.map k.expire =
      db.enrollments.rows.map (atKey EnrollmentRow.key item.id (serializeEnrollment k.now)) := by
  refine List.map_congr_left fun e _ => ?_
  rw [k.expire_eq, h.token]
  simp only [Option.map_some, Option.some.injEq, atKey, EnrollmentRow.key_eq, eq_comm]

theorem map_expire_unnamed
    (hlinked : ∀ e ∈ db.enrollments.rows, ∃ n ∈ db.nodes.rows, n.id = e.edgeNodeId)
    (h : ∀ raw item node, ¬ k.Names db raw item node) :
    db.enrollments.rows.map k.expire = db.enrollments.rows := by
  conv_rhs => rw [← List.map_id db.enrollments.rows]
  refine List.map_congr_left fun e he => ?_
  rw [k.expire_eq]
  refine if_neg fun heq => ?_
  obtain ⟨⟨raw, tokenId⟩, htoken, rfl⟩ := Option.map_eq_some_iff.mp heq
  obtain ⟨node, hnode, hown⟩ := hlinked e he
  exact h raw e node ⟨htoken, he, hnode, hown⟩

theorem map_expire_idle (h : k.Names db raw item node)
    (hidle : ¬ (item.status = .pending ∧ item.expiresAt ≤ k.now)) :
    db.enrollments.rows.map k.expire = db.enrollments.rows := by
  rw [map_expire h]
  conv_rhs => rw [← List.map_id db.enrollments.rows]
  refine List.map_congr_left fun e he => ?_
  rcases atKey_cases EnrollmentRow.key item.id (serializeEnrollment k.now) e with ⟨-, heq⟩ | ⟨hid, heq⟩
  · exact heq
  · rw [heq, Table.eq_of_key he h.item_mem hid, serializeEnrollment, if_neg hidle]
    rfl

/-- The expiry of an overdue enrollment goes through. -/
theorem serve_claim_expired (h : k.Names db raw item node)
    (hclaim : claimEdgeEnrollment P k.authorization k.body (k.inputs package) db =
      .ok (.inl ({ enrollments := [(item, serializeEnrollment k.now item)] },
        .refused invalidEnrollment))) :
    (serve P (k.request package) db).2 = .refused invalidEnrollment ∧
      (serve P (k.request package) db).1.nodes.rows = db.nodes.rows ∧
      (serve P (k.request package) db).1.enrollments.rows = db.enrollments.rows.map k.expire ∧
      (serve P (k.request package) db).1.registrations.rows = db.registrations.rows := by
  have hrows : ∀ t, db.toTables.flush
      { enrollments := [(item, serializeEnrollment k.now item)] } = .ok t →
      t.nodes.rows = db.nodes.rows ∧ t.enrollments.rows = db.enrollments.rows.map k.expire ∧
        t.registrations.rows = db.registrations.rows := by
    intro t ht
    have := flush_rows (n := none) (e := some item) (r := none) (f := id)
      (g := serializeEnrollment k.now) (k := id) ht (by simp)
      (by rintro a ⟨⟩; exact ⟨h.item_mem, serializeEnrollment_flush _ _⟩) (by simp)
    rw [map_expire h]
    simpa using this
  have hkeep : ∀ e, (k.expire e).id = e.id ∧ (k.expire e).edgeNodeId = e.edgeNodeId ∧
      ((k.expire e).active = true → e.active = true) := by
    intro e
    unfold Claim.expire
    split_ifs
    · exact ⟨rfl, rfl, fun hactive => absurd hactive (by simp [EnrollmentRow.active])⟩
    · exact ⟨rfl, rfl, id⟩
  obtain ⟨t, hu, hflush, hattempt⟩ := @write_attempt P db
    { enrollments := [(item, serializeEnrollment k.now item)] } (.refused invalidEnrollment)
    (by simp) (by
      intro d hd
      obtain rfl := List.mem_singleton.mp hd
      exact ⟨item, h.item_mem, rfl⟩) (by simp) (fun t ht => by
      obtain ⟨hn, he, hr⟩ := hrows t ht
      constructor
      · rw [hn]
        exact db.unique.name
      · rw [hn]
        exact db.unique.endpoint
      · rw [he]
        intro a ha b hb hactive hactive' heq
        obtain ⟨x, hx, rfl⟩ := List.mem_map.mp ha
        obtain ⟨y, hy, rfl⟩ := List.mem_map.mp hb
        obtain ⟨hid, hnode, hact⟩ := hkeep x
        obtain ⟨hid', hnode', hact'⟩ := hkeep y
        rw [hid, hid']
        exact db.unique.enrollment x hx y hy (hact hactive) (hact' hactive')
          (hnode.symm.trans (heq.trans hnode'))
      · rw [hr]
        exact db.unique.machine
      · rw [hr]
        exact db.unique.publicKey)
  have hprepare : prepare P db (k.request package) =
      .ok (.write { enrollments := [(item, serializeEnrollment k.now item)] }
        (.refused invalidEnrollment)) := by
    rw [prepare_claim, hclaim]
    rfl
  rw [serve_eq hprepare hattempt]
  exact ⟨rfl, hrows t hflush⟩

/-- The UPDATE of a claim takes the row that the handler has read, and only that. -/
theorem countP_takes {c : EnrollmentClaim} (hitem : c.item ∈ db.enrollments.rows)
    (htakes : c.takes c.item = true) : db.enrollments.rows.countP c.takes = 1 := by
  have honly : ∀ x ∈ db.enrollments.rows, (c.takes x = true ↔ (x == c.item) = true) := by
    intro x hx
    rw [beq_iff_eq]
    constructor
    · intro h
      simp only [EnrollmentClaim.takes, Bool.and_eq_true, beq_iff_eq] at h
      exact Table.eq_of_key hx hitem h.1.1.1
    · rintro rfl
      exact htakes
  rw [List.countP_congr honly]
  exact List.count_eq_one_of_mem (List.Nodup.of_map _ db.enrollments.nodup) hitem

theorem set_keep (c : EnrollmentClaim) (e : EnrollmentRow) :
    (c.set P e).id = e.id ∧ (c.set P e).edgeNodeId = e.edgeNodeId ∧
      ((c.set P e).active = true → e.active = true) := by
  unfold EnrollmentClaim.set
  split_ifs with htakes
  · refine ⟨rfl, rfl, fun _ => ?_⟩
    simp only [EnrollmentClaim.takes, Bool.and_eq_true, beq_iff_eq] at htakes
    simp [EnrollmentRow.active, htakes.1.1.2]
  · exact ⟨rfl, rfl, id⟩

/-- **The writes of a claim go through.** -/
theorem claim_attempt {c : EnrollmentClaim} (hitem : c.item ∈ db.enrollments.rows)
    (htakes : c.takes c.item = true) :
    ∃ db' configuration, (Plan.claimEnrollment c).attempt P db =
      .ok (db', .configuration configuration) ∧
        configuration.domain = domain P c.node.endpoint := by
  have hu : Tables.Unique { db.toTables with
      enrollments := db.enrollments.mapRows (c.set P) fun row => c.set_id P row } := by
    constructor
    · exact db.unique.name
    · exact db.unique.endpoint
    · intro a ha b hb hactive hactive' heq
      obtain ⟨x, hx, rfl⟩ := List.mem_map.mp ha
      obtain ⟨y, hy, rfl⟩ := List.mem_map.mp hb
      obtain ⟨hid, hnode, hact⟩ := set_keep c x
      obtain ⟨hid', hnode', hact'⟩ := set_keep c y
      rw [hid, hid']
      exact db.unique.enrollment x hx y hy (hact hactive) (hact' hactive')
        (hnode.symm.trans (heq.trans hnode'))
    · exact db.unique.machine
    · exact db.unique.publicKey
  refine ⟨⟨_, hu⟩,
    { nodeId := c.node.id
      nodeName := c.node.name
      domain := domain P c.node.endpoint
      edgeTicketSecret := c.node.sharedSecret
      packageRoute := c.packageRoute
      packageSha256 := c.packageSha256
      reportToken := c.reportToken }, ?_, rfl⟩
  unfold Plan.attempt
  simp only [Plan.commit, EnrollmentClaim.commit, if_pos (countP_takes hitem htakes), Db.check,
    dif_pos hu]

theorem serve_claim_granted (hs : Sound P db.nodes.rows db.enrollments.rows)
    (h : k.Names db raw item node) (hmeets : k.Meets P raw item node) {p : String × String}
    (hvalid : claimValid P raw k.body (k.inputs (some p)) item node = some true) :
    ∃ c, (serve P (k.request (some p)) db).2 = .configuration c ∧ c.domain ≠ none := by
  have hprepare : prepare P db (k.request (some p)) = .ok (.claimEnrollment
      { raw := raw
        item := item
        node := node
        body := k.body
        now := k.now
        fresh := k.fresh
        reportToken := rawToken item.id k.reportSecret
        packageSha256 := p.1
        packageRoute := p.2 }) := by
    rw [prepare_claim, claim_valid h hvalid]
    rfl
  obtain ⟨db', configuration, hattempt, hdomain⟩ := @claim_attempt P db
      { raw := raw
        item := item
        node := node
        body := k.body
        now := k.now
        fresh := k.fresh
        reportToken := rawToken item.id k.reportSecret
        packageSha256 := p.1
        packageRoute := p.2 } h.item_mem (by
      simp [EnrollmentClaim.takes, hmeets.status.1, hmeets.status.2])
  rw [serve_eq hprepare hattempt]
  refine ⟨configuration, rfl, ?_⟩
  rw [hdomain]
  exact checked_domain (hs.checked node h.node_mem)

theorem serve_claim_unavailable (h : k.Names db raw item node)
    (hvalid : claimValid P raw k.body (k.inputs none) item node = some true) :
    serve P (k.request none) db = (db, .refused packageUnavailable) := by
  refine serve_claim_refused ?_
  rw [claim_valid h hvalid]
  rfl

theorem serve_claim_invalid (h : k.Names db raw item node)
    (hvalid : claimValid P raw k.body (k.inputs package) item node = some false) :
    (serve P (k.request package) db).2 = .refused invalidEnrollment ∧
      (serve P (k.request package) db).1.nodes.rows = db.nodes.rows ∧
      (serve P (k.request package) db).1.enrollments.rows = db.enrollments.rows.map k.expire ∧
      (serve P (k.request package) db).1.registrations.rows = db.registrations.rows := by
  have hclaim := claim_invalid h hvalid
  by_cases hdue : item.status = .pending ∧ item.expiresAt ≤ k.now
  · rw [show (k.inputs package).now = k.now from rfl, if_pos hdue] at hclaim
    exact serve_claim_expired h hclaim
  · rw [show (k.inputs package).now = k.now from rfl, if_neg hdue] at hclaim
    rw [serve_claim_refused hclaim, map_expire_idle h hdue]
    exact ⟨rfl, rfl, rfl, rfl⟩

end Answer

/-! ## The answer is uniform if the texts are ASCII -/

section Uniform

variable {k : Claim} {db : Db} {package : Option (String × String)}

/-- A server error is not a uniform answer. -/
theorem not_uniform_of_serverError
    (h : (serve P (k.request package) db).2 = .refused serverError) :
    ¬ Uniform P k package db := by
  intro hu
  by_cases hent : k.Entitled P db
  · rcases package with _ | p
    · rw [hu.unavailable hent rfl] at h
      change Answer.refused packageUnavailable = .refused serverError at h
      exact absurd h (by decide)
    · obtain ⟨c, hc, -⟩ := hu.succeeds.mpr ⟨hent, Option.some_ne_none p⟩
      rw [h] at hc
      exact Answer.noConfusion hc
  · have := (hu.rejected hent).1.symm.trans h
    exact absurd this (by decide)

theorem uniform_of_comparable (hash : ∀ s, isAscii (P.enrollmentHash s) = true)
    (hlinked : ∀ e ∈ db.enrollments.rows, ∃ n ∈ db.nodes.rows, n.id = e.edgeNodeId)
    (hs : Sound P db.nodes.rows db.enrollments.rows) (hv : Valid k.body)
    (hc : k.Comparable db) : Uniform P k package db := by
  by_cases hnamed : ∃ raw item node, k.Names db raw item node
  · obtain ⟨raw, item, node, h⟩ := hnamed
    obtain ⟨b, hvalid, hiff⟩ := claimValid_of_comparable (i := k.inputs package) hash hs hv h hc
      rfl rfl
    cases b with
    | true =>
      have hmeets := hiff.mp rfl
      refine ⟨⟨fun ⟨c, hanswer, _⟩ => ⟨h.entitled_iff.mpr hmeets, ?_⟩, fun ⟨_, hp⟩ => ?_⟩,
        fun _ hp => ?_, fun hnot => absurd (h.entitled_iff.mpr hmeets) hnot⟩
      · rintro rfl
        rw [serve_claim_unavailable h hvalid] at hanswer
        exact Answer.noConfusion hanswer
      · obtain ⟨p, rfl⟩ := Option.ne_none_iff_exists'.mp hp
        exact serve_claim_granted hs h hmeets hvalid
      · subst hp
        exact serve_claim_unavailable h hvalid
    | false =>
      have hnot : ¬ k.Entitled P db := by
        rw [h.entitled_iff, ← hiff]
        exact Bool.false_ne_true
      have hinvalid := serve_claim_invalid h hvalid
      refine ⟨⟨fun ⟨c, hanswer, _⟩ => ?_, fun ⟨hent, _⟩ => absurd hent hnot⟩,
        fun hent => absurd hent hnot, fun _ => hinvalid⟩
      rw [hinvalid.1] at hanswer
      exact Answer.noConfusion hanswer
  · push Not at hnamed
    have hnot : ¬ k.Entitled P db := fun ⟨raw, item, node, h, _⟩ => hnamed raw item node h
    have hserve := serve_claim_refused (P := P) (claim_unnamed hlinked (k.inputs package) hnamed)
    refine ⟨⟨fun ⟨c, hanswer, _⟩ => ?_, fun ⟨hent, _⟩ => absurd hent hnot⟩,
      fun hent => absurd hent hnot, fun _ => ?_⟩
    · rw [hserve] at hanswer
      exact Answer.noConfusion hanswer
    · rw [hserve, map_expire_unnamed hlinked hnamed]
      exact ⟨rfl, rfl, rfl, rfl⟩

theorem not_uniform (h : ¬ k.Comparable db) : ¬ Uniform P k package db := by
  unfold Claim.Comparable at h
  push Not at h
  obtain ⟨raw, item, node, hnames, hraises⟩ := h
  refine not_uniform_of_serverError (congrArg Prod.snd (serve_claim_refused
    (claim_raises hnames ?_)))
  refine claimValid_raises rfl ?_
  by_cases hname : isAscii node.name = true
  · by_cases hip : isAscii k.body.publicIpv4 = true
    · obtain ⟨ip, hsource, hascii⟩ := hraises hname hip
      exact Or.inr (Or.inr ⟨ip, hsource, Bool.eq_false_iff.mpr hascii⟩)
    · exact Or.inr (Or.inl (Bool.eq_false_iff.mpr hip))
  · exact Or.inl (Bool.eq_false_iff.mpr hname)

end Uniform

/-- **A claim has its uniform answer exactly if the texts that it compares are ASCII.** -/
theorem uniform_iff (hash : ∀ s, isAscii (P.enrollmentHash s) = true) {reqs : List Request}
    {db : Db} (hr : run (Fleet.step P) Db.empty reqs = some db) (k : Claim) (hv : Valid k.body)
    (package : Option (String × String)) : Uniform P k package db ↔ k.Comparable db := by
  constructor
  · intro hu
    by_contra hc
    exact not_uniform hc hu
  · exact uniform_of_comparable hash (linked_of_run hr).enrollmentNode (sound_of_run hr) hv

/-! ## A node with a name that is not ASCII -/

/-- `sample`, with digests in ASCII. -/
def asciiSample : Primitives :=
  { sample with enrollmentHash := fun s => if isAscii s = true then "#" ++ s else "#" }

theorem isAscii_append {a b : String} (ha : isAscii a = true) (hb : isAscii b = true) :
    isAscii (a ++ b) = true := by
  unfold isAscii at *
  rw [String.toList_append, List.all_append, ha, hb]
  rfl

theorem isAscii_digest (s : String) : isAscii (asciiSample.enrollmentHash s) = true := by
  change isAscii (if isAscii s = true then "#" ++ s else "#") = true
  split_ifs with h
  · exact isAscii_append rfl h
  · rfl

/-- A node is enrolled. -/
def enrolls : Request :=
  .createEdgeEnrollment
    { nodeName := "edge-a", endpoint := "https://a.example", expectedPublicIpv4 := "8.8.8.8" }
    { actorId := 1
      nodeId := 1
      sharedSecret := "secret"
      enrollmentId := "enrollment"
      tokenSecret := "token"
      expiresFrom := 0
      updatedAt := 0
      repliedAt := 0 }

/-- The administrator gives it another name. -/
def renames (name : String) : Request :=
  .updateEdgeNode 1 { name := some (some name) }

/-- Its host claims its configuration. -/
def hostClaim : Claim where
  authorization := some "Enrollment enrollment.token"
  body := { nodeName := "edge-a", publicIpv4 := "8.8.8.8", agentVersion := "1" }
  sourceIp := some "8.8.8.8"
  now := 1
  fresh := "fresh"
  reportSecret := "report"

/-- The host claims before its node is renamed. -/
theorem uniform_host : Valid hostClaim.body ∧
    ∃ db, run (Fleet.step asciiSample) Db.empty [enrolls] = some db ∧
      (Uniform asciiSample hostClaim (some ("sha256", "route")) db ↔ hostClaim.Comparable db) := by
  have hv : Valid hostClaim.body := ⟨by decide, by decide, by decide⟩
  obtain ⟨db, hr⟩ := Fleet.run_isSome asciiSample [enrolls] Db.empty
  exact ⟨hv, db, hr, uniform_iff isAscii_digest hr hostClaim hv _⟩

/-- After the renaming the claim is a server error. -/
theorem renamed_raises : ∃ db,
    run (Fleet.step asciiSample) Db.empty [enrolls, renames "köln"] = some db ∧
      ¬ Uniform asciiSample hostClaim (some ("sha256", "route")) db := by
  obtain ⟨db, hr, hanswer⟩ := (Option.any_eq_true (fun db => decide
      ((serve asciiSample (hostClaim.request (some ("sha256", "route"))) db).2 =
        .refused serverError)) (run (Fleet.step asciiSample) Db.empty [enrolls, renames "köln"])).mp
    (by decide +kernel)
  exact ⟨db, hr, not_uniform_of_serverError (of_decide_eq_true hanswer)⟩

end IdenGrid.Control.EnrollmentClaims
