import IdenGrid.Control.EnrollmentClaims
import IdenGrid.Control.EdgeTickets
import IdenGrid.Lib.EnvFile

/-! # What a claim hands over

A claim of either kind answers with the name and the secret of the node of an enrollment
(`hands_node`). `covered_of_run`: these are a name in the characters of the schema and a secret of at
least 32 bytes in plain characters, as long as no update gives the node others. -/

namespace IdenGrid.Control.Handover

open IdenGrid.Lib.Run IdenGrid.Lib.Store IdenGrid.Lib.WriteBack IdenGrid.Lib.Results
open IdenGrid.Lib.EnvFile IdenGrid.Lib.Unicode
open IdenGrid.Control.Nodes IdenGrid.Control.EdgeTickets
open IdenGrid.Control.Monitor hiding Db
open IdenGrid.Control.Registry IdenGrid.Control.NodeAdmin IdenGrid.Control.Enrollments
open IdenGrid.Control.Registrations IdenGrid.Control.Handlers IdenGrid.Control.Fleet
open IdenGrid.Control.Links IdenGrid.Control.EnrollmentClaims

variable (P : Primitives)

/-- The answer to a claim of either kind. -/
inductive Hands (db : Db) : Configuration → Prop
  | enrollment (authorization : Option String) (body : EdgeEnrollmentClaimBody)
      (inputs : Enrollments.ClaimInputs) (c : Configuration)
      (answer : (serve P (.claimEdgeEnrollment authorization body inputs) db).2 = .configuration c) :
      Hands db c
  | registration (requestId : String) (body : SignedBody) (authorization : Option String)
      (inputs : ClaimApprovedInputs) (c : Configuration) (enrollmentId : String) (installKey : Bool)
      (answer : (serve P (.claimApprovedNodeRegistration requestId body authorization inputs) db).2 =
        .approvedConfiguration c enrollmentId installKey) :
      Hands db c

/-- The configuration is that of this node. -/
structure IsOf (c : Configuration) (n : NodeRow) : Prop where
  nodeId : c.nodeId = n.id
  nodeName : c.nodeName = n.name
  edgeTicketSecret : c.edgeTicketSecret = n.sharedSecret

variable {P}

theorem serve_eq_answer {req : Request} {db : Db} {a : Answer} (h : (serve P req db).2 = a)
    (hne : ∀ refusal, a ≠ .refused refusal) :
    ∃ plan db', prepare P db req = .ok plan ∧ plan.commit P db.toTables = .ok (db', a) := by
  unfold serve at h
  split at h
  · next result hresult =>
    obtain ⟨plan, hplan, hattempt⟩ := bind_eq_ok.mp hresult
    obtain ⟨db', answer⟩ := result
    obtain rfl : answer = a := h
    exact ⟨plan, _, hplan, Plan.attempt_eq_ok P hattempt⟩
  · next refusal _ => exact absurd h.symm (hne refusal)

/-- **The configuration that is handed over is that of the node of an enrollment.** -/
theorem hands_node {db : Db} {c : Configuration} (h : Hands P db c) :
    ∃ n ∈ db.nodes.rows, ∃ e ∈ db.enrollments.rows, e.edgeNodeId = n.id ∧ IsOf c n := by
  cases h with
  | enrollment authorization body inputs _ answer =>
    obtain ⟨plan, t, hprepare, hcommit⟩ := serve_eq_answer answer (by simp)
    obtain ⟨handler, hhandler, hprepare⟩ := bind_eq_ok.mp hprepare
    obtain ⟨w, hw, rfl⟩ := map_eq_ok.mp (show (claimEdgeEnrollment P authorization body inputs
      db).map (fun w => Handler.ready (w.elim .ofWrite .claimEnrollment)) = .ok handler from hhandler)
    obtain rfl : w.elim Plan.ofWrite Plan.claimEnrollment = plan := Except.ok.inj hprepare
    rcases claimEdgeEnrollment_eq_ok hw with ⟨item, -, rfl⟩ | ⟨k, rfl, hitem, hnode, -⟩
    · obtain ⟨u, -, hcommit⟩ := bind_eq_ok.mp hcommit
      simp at hcommit
    · simp only [Sum.elim_inr, Plan.commit, EnrollmentClaim.commit] at hcommit
      split_ifs at hcommit
      have hanswer := (Prod.mk.inj (Except.ok.inj hcommit)).2
      obtain rfl := Answer.configuration.inj hanswer
      obtain ⟨hmem, hid⟩ := Table.get?_eq_some.mp hnode
      exact ⟨k.node, hmem, k.item, hitem, hid.symm, rfl, rfl, rfl⟩
  | registration requestId body authorization inputs _ enrollmentId installKey answer =>
    obtain ⟨plan, t, hprepare, hcommit⟩ := serve_eq_answer answer (by simp)
    obtain ⟨handler, hhandler, hprepare⟩ := bind_eq_ok.mp hprepare
    obtain ⟨checked, -, rfl⟩ := map_eq_ok.mp (show (claimApprovedNodeRegistration P requestId body
      authorization inputs db).map Handler.checked = .ok handler from hhandler)
    obtain ⟨k, hread, rfl⟩ := map_eq_ok.mp (show (checked.readEnrollment P db).map
      Plan.claimRegistration = .ok plan from hprepare)
    obtain ⟨-, -, -, -, hnode, hitem, hown, -⟩ := CheckedClaim.readEnrollment_eq_ok hread
    simp only [Plan.commit, RegistrationClaim.commit] at hcommit
    split_ifs at hcommit
    obtain ⟨u, -, hcommit⟩ := bind_eq_ok.mp hcommit
    have hanswer := (Prod.mk.inj (Except.ok.inj hcommit)).2
    obtain rfl := (Answer.approvedConfiguration.inj hanswer).1
    obtain ⟨hmem, -⟩ := Table.get?_eq_some.mp hnode
    exact ⟨k.node, hmem, k.enrollment, hitem, hown, rfl, rfl, rfl⟩

/-! ## Names and secrets -/

/-- The constraint on the names of nodes in `EdgeEnrollmentCreateBody` and
`NodeRegistrationAcceptBody`. -/
def NameSchema (name : String) : Prop :=
  1 ≤ name.length ∧ name.length ≤ 100 ∧ name.toList.all nameChar = true

/-- `secrets.token_urlsafe(32)` -/
def Drawn (secret : String) : Prop :=
  ∃ entropy : List ℕ, entropy.length = 32 ∧ text secret = tokenUrlsafe entropy

/-- What the schemas and the generator of secrets say of a request. -/
def WellFormed : Request → Prop
  | .createEdgeEnrollment body inputs => NameSchema body.nodeName ∧ Drawn inputs.sharedSecret
  | .acceptNodeRegistration _ body inputs => NameSchema body.nodeName ∧ Drawn inputs.sharedSecret
  | _ => True

/-- A name in the characters of the schema, and a secret of 32 bytes or more without quotes,
backslashes and blanks. -/
structure Proper (name secret : String) : Prop where
  ne_empty : 1 ≤ name.length
  chars : name.toList.all nameChar = true
  plain : (text secret).all isPlain = true
  secret : 32 ≤ (encodeUtf8 (text secret)).length

/-- An update gives the node of an enrollment no other name or secret than a proper one. -/
def Keeps (db : Db) : Request → Prop
  | .updateEdgeNode nodeId body => (∃ e ∈ db.enrollments.rows, e.edgeNodeId = nodeId) →
      (∀ name, body.name = some (some name) →
        1 ≤ name.length ∧ name.toList.all nameChar = true) ∧
      ∀ secret, body.sharedSecret = some (some secret) →
        32 ≤ (encodeUtf8 (text secret)).length ∧ (text secret).all isPlain = true
  | _ => True

/-- The nodes of enrollments are proper. -/
def Covered (ns : List NodeRow) (es : List EnrollmentRow) : Prop :=
  ∀ e ∈ es, ∀ n ∈ ns, n.id = e.edgeNodeId → Proper n.name n.sharedSecret

theorem length_sextets_ge : ∀ bytes : List ℕ, bytes.length ≤ (Lib.Base64.sextets bytes).length
  | a :: b :: c :: r => by
    have ih := length_sextets_ge r
    simp only [Lib.Base64.sextets, List.length_cons]
    omega
  | [_, _] => by simp [Lib.Base64.sextets]
  | [_] => by simp [Lib.Base64.sextets]
  | [] => by simp [Lib.Base64.sextets]

theorem length_tokenUrlsafe (entropy : List ℕ) : entropy.length ≤ (tokenUrlsafe entropy).length := by
  rw [tokenUrlsafe, Lib.Base64.encode, List.length_map]
  exact length_sextets_ge entropy

theorem ascii_tokenUrlsafe (entropy : List ℕ) : ∀ c ∈ tokenUrlsafe entropy, c < 0x80 := by
  intro c hc
  obtain ⟨v, -, rfl⟩ := List.mem_map.mp hc
  have := Lib.Base64.sym_range v
  omega

theorem plain_tokenUrlsafe (entropy : List ℕ) : (tokenUrlsafe entropy).all isPlain = true := by
  refine List.all_eq_true.mpr fun c hc => ?_
  obtain ⟨v, -, rfl⟩ := List.mem_map.mp hc
  have hsym : 33 ≤ Lib.Base64.sym v ∧ Lib.Base64.sym v < 127 ∧ Lib.Base64.sym v ≠ 34 ∧
      Lib.Base64.sym v ≠ 39 ∧ Lib.Base64.sym v ≠ 92 := by
    unfold Lib.Base64.sym
    split_ifs <;> omega
  exact decide_eq_true hsym

theorem proper_of_wellFormed {name secret : String} (h : NameSchema name ∧ Drawn secret) :
    Proper name secret := by
  obtain ⟨⟨hne, -, hchars⟩, entropy, hlength, hsecret⟩ := h
  refine ⟨hne, hchars, hsecret ▸ plain_tokenUrlsafe entropy, ?_⟩
  rw [hsecret, encodeUtf8_ascii (ascii_tokenUrlsafe entropy), ← hlength]
  exact length_tokenUrlsafe entropy

section Keep

variable {ns : List NodeRow} {es : List EnrollmentRow} (h : Covered ns es)

include h

/-- Changes that leave the names, the secrets and the links as they are. -/
theorem Covered.map {f : NodeRow → NodeRow} {g : EnrollmentRow → EnrollmentRow}
    (hf : ∀ n, (f n).id = n.id ∧ (f n).name = n.name ∧ (f n).sharedSecret = n.sharedSecret)
    (hg : ∀ e ∈ es, (g e).edgeNodeId = e.edgeNodeId) : Covered (ns.map f) (es.map g) := by
  intro e' he' n' hn' hown
  obtain ⟨e, he, rfl⟩ := List.mem_map.mp he'
  obtain ⟨n, hn, rfl⟩ := List.mem_map.mp hn'
  obtain ⟨hid, hname, hsecret⟩ := hf n
  rw [hname, hsecret]
  exact h e he n hn (by rw [← hid, hown, hg e he])

theorem Covered.enrollments {g : EnrollmentRow → EnrollmentRow}
    (hg : ∀ e ∈ es, (g e).edgeNodeId = e.edgeNodeId) : Covered ns (es.map g) := by
  have := h.map (f := id) (fun _ => ⟨rfl, rfl, rfl⟩) hg
  rwa [List.map_id] at this

/-- A new node that no enrollment is of. -/
theorem Covered.insert {n : NodeRow} (hlinked : ∀ e ∈ es, ∃ x ∈ ns, x.id = e.edgeNodeId)
    (hfresh : ∀ x ∈ ns, x.id ≠ n.id) : Covered (ns ++ [n]) es := by
  intro e he x hx hown
  rcases List.mem_append.mp hx with hx | hx
  · exact h e he x hx hown
  · obtain rfl := List.mem_singleton.mp hx
    obtain ⟨y, hy, hid⟩ := hlinked e he
    exact absurd (hid.trans hown.symm) (hfresh y hy)

/-- A new node with its enrollment. -/
theorem Covered.append {n : NodeRow} {e : EnrollmentRow}
    (hlinked : ∀ e ∈ es, ∃ x ∈ ns, x.id = e.edgeNodeId) (hfresh : ∀ x ∈ ns, x.id ≠ n.id)
    (hown : e.edgeNodeId = n.id) (hn : Proper n.name n.sharedSecret) :
    Covered (ns ++ [n]) (es ++ [e]) := by
  intro e' he' x hx hid
  rcases List.mem_append.mp he' with he' | he'
  · exact h.insert hlinked hfresh e' he' x hx hid
  · obtain rfl := List.mem_singleton.mp he'
    rcases List.mem_append.mp hx with hx | hx
    · exact absurd (hid.trans hown) (hfresh x hx)
    · obtain rfl := List.mem_singleton.mp hx
      exact hn

end Keep

theorem nodeAfter_keep (inputs : MonitorInputs) (n : NodeRow) :
    (nodeAfter inputs n).id = n.id ∧ (nodeAfter inputs n).name = n.name ∧
      (nodeAfter inputs n).sharedSecret = n.sharedSecret := by
  refine ⟨nodeAfter_id inputs n, ?_⟩
  unfold nodeAfter
  split
  · split_ifs
    · unfold monitorNode updateNode
      split <;> exact ⟨rfl, rfl⟩
    · exact ⟨rfl, rfl⟩
  · exact ⟨rfl, rfl⟩

theorem patch_keep {body : EdgeNodeUpdateBody} {node new : NodeRow} (h : patch body node = some new) :
    (new.name = node.name ∨ body.name = some (some new.name)) ∧
      (new.sharedSecret = node.sharedSecret ∨ body.sharedSecret = some (some new.sharedSecret)) := by
  unfold patch at h
  split at h
  · next name endpoint secret enabled maintenance h1 h2 h3 h4 h5 =>
    obtain rfl := Option.some.inj h
    constructor
    · rcases hname : body.name with _ | name'
      · rw [changed, hname] at h1
        exact .inl (Option.some.inj h1).symm
      · rw [changed, hname] at h1
        exact .inr (congrArg some h1)
    · rcases hsecret : body.sharedSecret with _ | secret'
      · rw [changed, hsecret] at h3
        exact .inl (Option.some.inj h3).symm
      · rw [changed, hsecret] at h3
        exact .inr (congrArg some h3)
  · simp at h

/-- **Every request keeps the nodes of enrollments proper.** -/
theorem Covered.effect {db : Db} {req : Request} {ns : List NodeRow} {es : List EnrollmentRow}
    {rs : List RegistrationRow} (h : Covered db.nodes.rows db.enrollments.rows)
    (hlinked : ∀ e ∈ db.enrollments.rows, ∃ n ∈ db.nodes.rows, n.id = e.edgeNodeId)
    (hw : WellFormed req) (hk : Keeps db req) (he : Effect P db req ns es rs) : Covered ns es := by
  cases he with
  | createNode body newId node checked fresh => exact h.insert hlinked fresh
  | updateNode nodeId body loaded new checked =>
    obtain ⟨hget, hpatch, -⟩ := updateEdgeNode_eq_ok checked
    obtain ⟨hmem, hid⟩ := Table.get?_eq_some.mp hget
    obtain ⟨hname, hsecret⟩ := patch_keep hpatch
    intro e he n' hn' hown
    obtain ⟨n, hn, rfl⟩ := List.mem_map.mp hn'
    rcases atKey_cases NodeRow.key loaded.id (fun _ => new) n with ⟨-, heq⟩ | ⟨-, heq⟩
    · rw [heq] at hown ⊢
      exact h e he n hn hown
    · rw [heq] at hown ⊢
      rw [(patch_eq_some hpatch).1] at hown
      obtain ⟨hnames, hsecrets⟩ := hk ⟨e, he, by rw [← hown]; exact hid⟩
      obtain ⟨h1, h2, h3, h4⟩ := h e he loaded hmem hown
      refine ⟨?_, ?_, ?_, ?_⟩
      · rcases hname with hname | hname
        · rw [hname]
          exact h1
        · exact (hnames _ hname).1
      · rcases hname with hname | hname
        · rw [hname]
          exact h2
        · exact (hnames _ hname).2
      · rcases hsecret with hsecret | hsecret
        · rw [hsecret]
          exact h3
        · exact (hsecrets _ hsecret).2
      · rcases hsecret with hsecret | hsecret
        · rw [hsecret]
          exact h4
        · exact (hsecrets _ hsecret).1
  | deleteNode nodeId _ =>
    exact fun e he n hn => h e (List.mem_filter.mp he).1 n (List.mem_filter.mp hn).1
  | createEnrollment body inputs c checked fresh _ =>
    obtain ⟨-, -, -, -, hown, -⟩ := createEdgeEnrollment_eq_ok checked
    refine h.append hlinked fresh hown ?_
    unfold createEdgeEnrollment at checked
    obtain ⟨⟨⟩, -, checked⟩ := bind_eq_ok.mp checked
    split_ifs at checked
    obtain rfl := Except.ok.inj checked
    exact proper_of_wellFormed hw
  | listEnrollments clock => exact h.enrollments fun e _ => (serializeEnrollment_keep _ e).2
  | expireEnrollment _ item now mem =>
    exact h.enrollments fun e _ => atKey_keep (c := fun e : EnrollmentRow => e.edgeNodeId) fun _ =>
      (serializeEnrollment_keep _ e).2
  | claimEnrollment _ _ _ c _ =>
    refine h.enrollments fun e _ => ?_
    unfold EnrollmentClaim.set
    split_ifs <;> rfl
  | report authorization body now item node valid enables =>
    refine h.map (fun n => ?_) fun e _ =>
      atKey_keep (c := fun e : EnrollmentRow => e.edgeNodeId) fun _ => rfl
    rcases node with _ | a
    · exact ⟨rfl, rfl, rfl⟩
    · rw [atRow_some]
      rcases atKey_cases NodeRow.key a.key reportNode n with ⟨-, heq⟩ | ⟨-, heq⟩ <;> rw [heq] <;>
        exact ⟨rfl, rfl, rfl⟩
  | revoke _ fresh now item _ _ =>
    refine h.map (fun n => ?_) fun e _ =>
      atKey_keep (c := fun e : EnrollmentRow => e.edgeNodeId) fun _ => rfl
    rcases atKey_cases NodeRow.key item.edgeNodeId revokeNode n with ⟨-, heq⟩ | ⟨-, heq⟩ <;>
      rw [heq] <;> exact ⟨rfl, rfl, rfl⟩
  | regenerate _ _ item _ _ =>
    exact h.enrollments fun e _ =>
      atKey_keep (c := fun e : EnrollmentRow => e.edgeNodeId) fun _ => rfl
  | accept requestId body inputs a checked fresh _ =>
    obtain ⟨-, -, -, hbody, hinputs, -⟩ := acceptNodeRegistration_eq_ok checked
    refine h.append hlinked fresh rfl ?_
    rw [← hbody, ← hinputs] at hw
    exact proper_of_wellFormed hw
  | claimRegistration _ _ _ _ cc c _ read =>
    obtain ⟨-, -, -, -, -, hmem, -⟩ := CheckedClaim.readEnrollment_eq_ok read
    refine h.enrollments fun e he => ?_
    refine atKey_keep (c := fun e : EnrollmentRow => e.edgeNodeId) fun hk => ?_
    rw [Table.eq_of_key he hmem hk]
    rfl
  | monitor inputs _ =>
    exact h.map (nodeAfter_keep inputs) fun e _ => (enrollmentAfter_keep inputs db e).2
  | _ => exact h

theorem along_wellFormed {reqs : List Request} {db : Db} (hw : ∀ req ∈ reqs, WellFormed req)
    (hk : Along (Fleet.step P) Keeps db reqs) :
    Along (Fleet.step P) (fun db req => WellFormed req ∧ Keeps db req) db reqs := by
  induction reqs generalizing db with
  | nil => trivial
  | cons req reqs ih =>
    refine ⟨⟨hw req List.mem_cons_self, hk.1⟩, fun db' hdb' => ?_⟩
    exact ih (fun r hr => hw r (List.mem_cons_of_mem _ hr)) (hk.2 db' hdb')

/-- **The nodes of enrollments in a run.** -/
theorem covered_of_run {reqs : List Request} {db : Db} (hw : ∀ req ∈ reqs, WellFormed req)
    (hk : Along (Fleet.step P) Keeps Db.empty reqs)
    (hr : run (Fleet.step P) Db.empty reqs = some db) :
    Covered db.nodes.rows db.enrollments.rows := by
  have hboth := along_wellFormed hw hk
  refine (run_inv_along (I := fun db : Db => Linked db.nodes.rows db.enrollments.rows
    db.registrations.rows ∧ Covered db.nodes.rows db.enrollments.rows)
    (fun s req s' h hc hs => ?_) reqs _ db
    ⟨linked_empty, fun e he => absurd he List.not_mem_nil⟩ hboth hr).2
  obtain rfl := Option.some.inj hs
  have heffect := serve_effect (P := P) s req
  exact ⟨h.1.effect heffect, h.2.effect h.1.enrollmentNode hc.1 hc.2 heffect⟩

end IdenGrid.Control.Handover
