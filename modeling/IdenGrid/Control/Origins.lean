import IdenGrid.Control.Registrar

/-! # Where commits come from

Every commit is that of a request that has begun once and has drawn its random values then
(`Orderly`), and its plan has the `Basis` that the reads of that request have established. The
random generators are the parameter `random`, the set of the values that they give; they give no
value twice (`fresh`). -/

namespace IdenGrid.Control.Origins

open IdenGrid.Lib.Run IdenGrid.Lib.Store IdenGrid.Lib.WriteBack IdenGrid.Lib.Requests
open IdenGrid.Lib.History IdenGrid.Lib.Results
open IdenGrid.Control.Nodes
open IdenGrid.Control.Monitor hiding Db
open IdenGrid.Control.Registry IdenGrid.Control.NodeAdmin IdenGrid.Control.Enrollments
open IdenGrid.Control.Registrations IdenGrid.Control.Handlers IdenGrid.Control.Registrar

/-! ## What the reads of a request have established -/

/-- The enrollment that a request revokes or regenerates. -/
def withdraws : Request → Option String
  | .revokeEdgeEnrollment enrollmentId _ _ => some enrollmentId
  | .regenerateEdgeEnrollment enrollmentId _ => some enrollmentId
  | _ => none

/-- Plans that insert nothing but a node, that have no conditional UPDATE but a rejection, and that
neither revoke nor regenerate an enrollment. -/
def plain : Handler → Request → Bool
  | .ready (.write _ _), req | .ready (.insertNode _), req | .ready (.deleteNode _), req
  | .ready (.sweep _), req | .ready (.reject _), req => (withdraws req).isNone
  | _, _ => false

/-- What a request has found when it has got as far as the handler. -/
inductive Basis (P : Primitives) : Request → Handler → Prop
  | registration (body : NodeRegistrationCreateBody) (i : RegisterInputs) (g : RegistrationCreation)
      (made : createNodeRegistration P body i = .ok g) :
      Basis P (.createNodeRegistration body i) (.ready (.register g))
  | proof (requestId : String) (authorization : Option String) (p : Proof)
      (own : p.item.id = requestId) (pending : p.item.status = .pendingProof)
      (source : p.sourceIp = p.item.actualPublicIpv4) (inTime : p.now < p.item.challengeExpiresAt)
      (challenge : challengeMatches P p.body p.item = true)
      (signature : signatureValid P proofPurpose p.body.challenge p.body.signature p.item = true) :
      Basis P (.proveNodeRegistration requestId p.body authorization (some p.sourceIp) p.now)
        (.ready (.prove p))
  | acceptance (requestId : String) (a : Acceptance) (own : a.item.id = requestId)
      (pending : a.item.status = .pendingApproval)
      (address : a.body.expectedPublicIpv4 = a.item.actualPublicIpv4) :
      Basis P (.acceptNodeRegistration requestId a.body a.inputs) (.ready (.accept a))
  | checked (requestId : String) (authorization : Option String) (c : CheckedClaim)
      (own : c.item.id = requestId) (approved : c.item.status = .approved)
      (node : c.item.edgeNodeId = some c.edgeNodeId)
      (known : c.inputs.sourceIp = some c.sourceIp)
      (source : c.sourceIp = c.item.actualPublicIpv4)
      (inTime : c.inputs.now < c.item.challengeExpiresAt)
      (challenge : challengeMatches P c.body c.item = true)
      (signature : signatureValid P claimPurpose c.body.challenge c.body.signature c.item = true) :
      Basis P (.claimApprovedNodeRegistration requestId c.body authorization c.inputs) (.checked c)
  | claim (requestId : String) (authorization : Option String) (i : ClaimApprovedInputs)
      (k : RegistrationClaim) (own : k.item.id = requestId) (approved : k.item.status = .approved)
      (node : k.item.edgeNodeId = some k.node.id) (known : i.sourceIp = some k.sourceIp)
      (source : k.sourceIp = k.item.actualPublicIpv4)
      (inTime : k.now < k.item.challengeExpiresAt)
      (challenge : challengeMatches P k.body k.item = true)
      (signature : signatureValid P claimPurpose k.body.challenge k.body.signature k.item = true)
      (enrolled : k.enrollment.edgeNodeId = k.node.id) (unused : k.enrollment.status = .claimed)
      (token : k.reportToken = derivedReportToken P k.item k.enrollment.id) :
      Basis P (.claimApprovedNodeRegistration requestId k.body authorization i)
        (.ready (.claimRegistration k))
  | creation (db : Db) (body : EdgeEnrollmentCreateBody) (i : CreateInputs) (c : EnrollmentCreation)
      (made : createEdgeEnrollment P body i db = .ok c) :
      Basis P (.createEdgeEnrollment body i) (.ready (.createEnrollment c))
  | tokenClaim (authorization : Option String) (body : EdgeEnrollmentClaimBody)
      (i : Enrollments.ClaimInputs) (db : Db) (k : EnrollmentClaim)
      (found : claimEdgeEnrollment P authorization body i db = .ok (.inr k)) :
      Basis P (.claimEdgeEnrollment authorization body i) (.ready (.claimEnrollment k))
  | revocation (fresh : String) (now : ℕ) (item : EnrollmentRow) (node : NodeRow) (answer : Answer) :
      Basis P (.revokeEdgeEnrollment item.id fresh now)
        (.ready (.write
          { nodes := [(node, revokeNode node)]
            enrollments := [(item, revokeEnrollment P fresh now item)] } answer))
  | regeneration (i : RegenerateInputs) (item : EnrollmentRow) (answer : Answer) :
      Basis P (.regenerateEdgeEnrollment item.id i)
        (.ready (.write { enrollments := [(item, regenerateEnrollment P i item)] } answer))
  | monitor (inputs : MonitorInputs) (nodes : List NodeRow) (progress : MonitorRun) :
      Basis P (.runMonitor inputs) (.probing nodes progress)
  | other (req : Request) (handler : Handler) (nothing : plain handler req = true) :
      Basis P req handler

/-- The registration that a handler has loaded for a conditional UPDATE. -/
def loaded : Handler → Option RegistrationRow
  | .checked c => some c.item
  | .ready (.prove p) => some p.item
  | .ready (.accept a) => some a.item
  | .ready (.claimRegistration k) => some k.item
  | _ => none

variable {P : Primitives}

/-- **The first read of a request gives it its basis.** -/
theorem begin_basis {db : Db} {req : Request} {handler : Handler}
    (h : begin P db req = .ok handler) :
    Basis P req handler ∧ ∀ r, loaded handler = some r → r ∈ db.registrations.rows := by
  have hplain : ∀ {handler : Handler}, plain handler req = true → loaded handler = none →
      Basis P req handler ∧ ∀ r, loaded handler = some r → r ∈ db.registrations.rows := by
    intro handler h1 h2
    exact ⟨.other req handler h1, fun r hr => absurd (h2.symm.trans hr) (by simp)⟩
  cases req with
  | createEdgeNode body newId =>
    obtain ⟨n, -, rfl⟩ := map_eq_ok.mp h
    exact hplain rfl rfl
  | updateEdgeNode nodeId body =>
    obtain ⟨w, -, rfl⟩ := map_eq_ok.mp h
    exact hplain rfl rfl
  | deleteEdgeNode nodeId boundStore =>
    obtain ⟨d, -, rfl⟩ := map_eq_ok.mp h
    exact hplain rfl rfl
  | createEdgeEnrollment body i =>
    obtain ⟨c, hc, rfl⟩ := map_eq_ok.mp h
    exact ⟨.creation db body i c hc, by simp [loaded]⟩
  | claimEdgeEnrollment authorization body i =>
    obtain ⟨w | k, hw, rfl⟩ := map_eq_ok.mp h
    · exact hplain rfl rfl
    · exact ⟨.tokenClaim authorization body i db k hw, by simp [loaded]⟩
  | createNodeRegistration body i =>
    obtain ⟨g, hg, rfl⟩ := map_eq_ok.mp h
    exact ⟨.registration body i g hg, by simp [loaded]⟩
  | proveNodeRegistration requestId body authorization sourceIp now =>
    obtain ⟨w, hw, rfl⟩ := map_eq_ok.mp h
    rcases proveNodeRegistration_eq_ok hw with ⟨item, -, -, -, rfl⟩ |
      ⟨p, rfl, hitem, hpending, rfl, rfl, hsource, rfl, htime, hchallenge, hsignature⟩
    · exact hplain rfl rfl
    · obtain ⟨hmem, hid⟩ := Table.get?_eq_some.mp hitem
      refine ⟨.proof requestId authorization p hid hpending hsource htime hchallenge hsignature, ?_⟩
      rintro r ⟨⟩
      exact hmem
  | acceptNodeRegistration requestId body i =>
    obtain ⟨a, ha, rfl⟩ := map_eq_ok.mp h
    obtain ⟨hitem, hpending, -, rfl, rfl, haddress, -⟩ := acceptNodeRegistration_eq_ok ha
    obtain ⟨hmem, hid⟩ := Table.get?_eq_some.mp hitem
    refine ⟨.acceptance requestId a hid hpending haddress, ?_⟩
    rintro r ⟨⟩
    exact hmem
  | claimApprovedNodeRegistration requestId body authorization i =>
    obtain ⟨c, hc, rfl⟩ := map_eq_ok.mp h
    obtain ⟨hitem, happroved, rfl, rfl, hnode, hknown, hsource, htime, hchallenge, hsignature⟩ :=
      claimApprovedNodeRegistration_eq_ok hc
    obtain ⟨hmem, hid⟩ := Table.get?_eq_some.mp hitem
    refine ⟨.checked requestId authorization c hid happroved hnode hknown hsource htime hchallenge
      hsignature, ?_⟩
    rintro r ⟨⟩
    exact hmem
  | revokeEdgeEnrollment enrollmentId fresh now =>
    obtain ⟨⟨dirty, answer⟩, hw, rfl⟩ := map_eq_ok.mp h
    obtain ⟨item, node, hitem, -, -, -, rfl⟩ := revokeEdgeEnrollment_eq_ok hw
    obtain rfl := (Table.get?_eq_some.mp hitem).2
    exact ⟨.revocation fresh now item node answer, by simp [loaded, Plan.ofWrite]⟩
  | regenerateEdgeEnrollment enrollmentId i =>
    obtain ⟨⟨dirty, answer⟩, hw, rfl⟩ := map_eq_ok.mp h
    obtain ⟨item, hitem, -, rfl⟩ := regenerateEdgeEnrollment_eq_ok hw
    obtain rfl := (Table.get?_eq_some.mp hitem).2
    exact ⟨.regeneration i item answer, by simp [loaded, Plan.ofWrite]⟩
  | listNodeRegistrationRequests now =>
    obtain rfl := Except.ok.inj h
    exact hplain rfl rfl
  | runMonitor inputs =>
    obtain rfl := Except.ok.inj h
    exact ⟨.monitor inputs _ _, by simp [loaded]⟩
  | _ =>
    obtain ⟨w, -, rfl⟩ := map_eq_ok.mp h
    exact hplain rfl rfl

/-- A further read keeps it. -/
theorem proceed_basis {db : Db} {req : Request} {handler next : Handler}
    (hb : Basis P req handler) (h : proceed P db handler = .ok next) :
    Basis P req next ∧ loaded next = loaded handler := by
  cases handler with
  | checked c =>
    obtain ⟨k, hk, rfl⟩ := map_eq_ok.mp h
    obtain ⟨hitem, hbody, hip, hnow, hnode, -, henrolled, hunused, htoken⟩ :=
      CheckedClaim.readEnrollment_eq_ok hk
    refine ⟨?_, congrArg some hitem⟩
    cases hb with
    | checked requestId authorization _ own approved node known source inTime challenge signature =>
      have hnodeId : k.node.id = c.edgeNodeId := (Table.get?_eq_some.mp hnode).2
      rw [← hitem] at own approved node source inTime challenge signature htoken
      rw [← hip] at known source
      rw [← hnow] at inTime
      rw [← hbody] at challenge signature ⊢
      rw [← hnodeId] at node
      exact .claim requestId authorization c.inputs k own approved node known source inTime challenge
        signature henrolled hunused htoken
    | other _ _ nothing => exact Bool.noConfusion nothing
  | probing nodes progress =>
    cases hb with
    | monitor inputs =>
      rcases nodes with _ | ⟨n, nodes⟩
      · obtain rfl := Except.ok.inj h
        exact ⟨.other _ _ rfl, rfl⟩
      · obtain ⟨m, -, rfl⟩ := map_eq_ok.mp h
        exact ⟨.monitor inputs nodes m, rfl⟩
    | other _ _ nothing => exact Bool.noConfusion nothing
  | ready plan =>
    obtain rfl := Except.ok.inj h
    exact ⟨hb, rfl⟩

/-! ## Random values -/

/-- The random values of a request. -/
def draws : Request → List String
  | .createEdgeEnrollment _ i => [i.sharedSecret, i.enrollmentId, i.tokenSecret]
  | .claimEdgeEnrollment _ _ i => [i.fresh, i.reportSecret]
  | .revokeEdgeEnrollment _ fresh _ => [fresh]
  | .regenerateEdgeEnrollment _ i => [i.tokenSecret]
  | .createNodeRegistration _ i => [i.requestId, i.challenge, i.tokenSecret]
  | .acceptNodeRegistration _ _ i => [i.sharedSecret, i.enrollmentId, i.fresh]
  | _ => []

def drawnBy : Event → List String
  | .began _ request => draws request
  | _ => []

/-- The values of `uuid4().hex` and of `secrets.token_urlsafe` are such texts. -/
def urlSafe (s : String) : Bool := s.toList.all fun c => c.isAlphanum || c == '-' || c == '_'

theorem urlSafe_notMem {s : String} (h : urlSafe s = true) {x : Char}
    (hx : (x.isAlphanum || x == '-' || x == '_') = false) : x ∉ s.toList := fun hmem => by
  have := List.all_eq_true.mp h x hmem
  rw [hx] at this
  exact Bool.noConfusion this

/-- All that has been drawn so far. -/
def drawn (log : List Event) : List String := log.flatMap drawnBy

/-- The generators give the request values of theirs that they have never given before. -/
def fresh (random : String → Bool) (log : List Event) (request : Request) : Bool :=
  decide (draws request).Nodup &&
    (draws request).all fun d => random d && !(drawn log).contains d

variable {random : String → Bool} {log : List Event}

theorem fresh_iff {request : Request} : fresh random log request = true ↔
    (draws request).Nodup ∧ ∀ d ∈ draws request, random d = true ∧ d ∉ drawn log := by
  simp [fresh]

theorem mem_drawn {r : ℕ} {request : Request} {d : String} (h : .began r request ∈ log)
    (hd : d ∈ draws request) : d ∈ drawn log := List.mem_flatMap.mpr ⟨_, h, hd⟩

/-! ## Logs in which nothing is drawn twice -/

/-- The request that has begun. -/
def beginner : Event → Option ℕ
  | .began r _ => some r
  | _ => none

/-- The request that has committed. -/
def committer : Event → Option ℕ
  | .committed c => some c.who
  | _ => none

/-- The random values of a request that begins are fresh. -/
def DrawsFresh (random : String → Bool) : Event → List Event → Prop
  | .began _ request, older => fresh random older request = true
  | _, _ => True

/-- A commit is that of a request that has begun, and has the basis of that request. -/
def Based (P : Primitives) (c : Commit) (older : List Event) : Prop :=
  .began c.who c.request :: asOf c.since older <:+ older ∧ Basis P c.request (.ready c.plan) ∧
    Sound P c.request (writes c.plan)

structure Orderly (P : Primitives) (random : String → Bool) (log : List Event) : Prop where
  begins : Distinct beginner log
  commits : Distinct committer log
  drawn : Every (DrawsFresh random) log
  based : Every (committed (Based P)) log

theorem Orderly.nil : Orderly P random [] := ⟨trivial, trivial, trivial, trivial⟩

theorem Orderly.commit_based (h : Orderly P random log) {c : Commit} {older : List Event}
    (hc : .committed c :: older <:+ log) : Based P c older := h.based.of_suffix hc

theorem Orderly.commit_began (h : Orderly P random log) {c : Commit} (hc : .committed c ∈ log) :
    .began c.who c.request ∈ log := by
  obtain ⟨older, hs⟩ := exists_suffix hc
  exact (suffix_of_cons hs).subset (suffix_mem (h.commit_based hs).1)

/-- **A value that two requests have drawn has been drawn by one.** -/
theorem Orderly.drawer_eq (h : Orderly P random log) {q r : ℕ} {request request' : Request}
    {d : String} (h1 : .began q request ∈ log) (h2 : .began r request' ∈ log)
    (hd1 : d ∈ draws request) (hd2 : d ∈ draws request') : q = r := by
  by_contra hne
  have hevents : Event.began q request ≠ .began r request' := by
    rintro heq
    exact hne (Event.began.inj heq).1
  rcases older_or h1 h2 hevents with ⟨older, hs, hmem⟩ | ⟨older, hs, hmem⟩
  · exact ((fresh_iff.mp (h.drawn.of_suffix hs)).2 d hd1).2 (mem_drawn hmem hd2)
  · exact ((fresh_iff.mp (h.drawn.of_suffix hs)).2 d hd2).2 (mem_drawn hmem hd1)

theorem Orderly.drawn_random (h : Orderly P random log) {r : ℕ} {request : Request} {d : String}
    (hb : .began r request ∈ log) (hd : d ∈ draws request) : random d = true := by
  obtain ⟨older, hs⟩ := exists_suffix hb
  exact ((fresh_iff.mp (h.drawn.of_suffix hs)).2 d hd).1

/-- Two commits that have drawn the same value are one. -/
theorem Orderly.commit_eq (h : Orderly P random log) {c c' : Commit} {d : String}
    (hc : .committed c ∈ log) (hc' : .committed c' ∈ log) (hd : d ∈ draws c.request)
    (hd' : d ∈ draws c'.request) : c = c' := by
  have hwho := h.drawer_eq (h.commit_began hc) (h.commit_began hc') hd hd'
  have := h.commits.eq hc hc' (b := c.who) rfl (congrArg some hwho.symm)
  simpa using this

/-- Where a request stands in the log. -/
def Enlisted (P : Primitives) (r : ℕ) (s : Office) : Stage → Prop
  | .idle => ∀ e ∈ s.log, beginner e ≠ some r
  | .working request handler n => (n ≤ s.log.length ∧ .began r request :: asOf n s.log <:+ s.log) ∧
      (∀ e ∈ s.log, committer e ≠ some r) ∧ Basis P request handler ∧ Handles P request handler
  | .done _ => True

/-- A request at work draws nothing that another one has drawn. -/
theorem Enlisted.undrawn {r : ℕ} {s : Office} {request : Request} {handler : Handler} {n : ℕ}
    (h : Orderly P random s.log) (he : Enlisted P r s (.working request handler n)) {c : Commit}
    (hc : .committed c ∈ s.log) {d : String} (hd : d ∈ draws request) : d ∉ draws c.request := by
  intro hd'
  have hwho := h.drawer_eq (h.commit_began hc) (suffix_mem he.1.2) hd' hd
  exact he.2.1 _ hc (congrArg some hwho)

variable {admits : List Event → Request → Bool}

/-- **A step keeps the log in order**, if only requests with fresh random values are admitted. -/
theorem orderly_local (hadmits : ∀ log request, admits log request = true →
      fresh random log request = true) {r : ℕ} {s s' : Office} {stage stage' : Stage} {move : Move}
    (h : Orderly P random s.log) (he : Enlisted P r s stage)
    (ha : Acts P admits r s stage move s' stage') :
    Orderly P random s'.log ∧ Enlisted P r s' stage' := by
  have hbegin : ∀ request, admits s.log request = true → (∀ e ∈ s.log, beginner e ≠ some r) →
      Orderly P random (.began r request :: s.log) := by
    intro request hadmitted hidle
    refine ⟨h.begins.cons ?_, h.commits.cons (by simp [committer]), ⟨hadmits _ _ hadmitted, h.drawn⟩,
      ⟨trivial, h.based⟩⟩
    rintro _ ⟨⟩
    exact hidle
  cases ha with
  | began request handler admitted read =>
    refine ⟨hbegin request admitted he, ⟨Nat.le_succ _, ?_⟩, fun e hmem => ?_,
      (begin_basis read).1, begin_handles read⟩
    · rw [asOf_cons le_rfl, asOf_length]
    rcases List.mem_cons.mp hmem with rfl | hmem
    · simp [committer]
    · -- whoever has committed has begun
      intro hcommit
      cases e with
      | committed c => exact he _ (h.commit_began hmem) hcommit
      | _ => simp [committer] at hcommit
  | turned request refusal admitted read => exact ⟨hbegin request admitted he, trivial⟩
  | proceeded request handler next n waiting read =>
    obtain ⟨h1, h2, h3, h4⟩ := he
    exact ⟨h, h1, h2, (proceed_basis h3 read).1, proceed_handles h4 read⟩
  | failed => exact ⟨h, trivial⟩
  | committed request plan n db answer attempt =>
    obtain ⟨h1, h2, h3, h4⟩ := he
    refine ⟨⟨h.begins.cons (by simp [beginner]), h.commits.cons ?_, ⟨trivial, h.drawn⟩,
      ⟨⟨h1.2, h3, ?_⟩, h.based⟩⟩, trivial⟩
    · rintro _ ⟨⟩
      exact h2
    · cases h4 with
      | ready _ sound => exact sound
  | signed _ publicKeyPem message =>
    refine ⟨⟨h.begins.cons (by simp [beginner]), h.commits.cons (by simp [committer]),
      ⟨trivial, h.drawn⟩, ⟨trivial, h.based⟩⟩, ?_⟩
    cases stage with
    | idle =>
      intro e hmem
      rcases List.mem_cons.mp hmem with rfl | hmem
      · simp [beginner]
      · exact he e hmem
    | working request handler n =>
      obtain ⟨⟨hn, h1⟩, h2, h3⟩ := he
      refine ⟨⟨hn.trans (Nat.le_succ _), ?_⟩, fun e hmem => ?_, h3⟩
      · rw [asOf_cons hn]
        exact h1.trans (List.suffix_cons _ _)
      rcases List.mem_cons.mp hmem with rfl | hmem
      · simp [committer]
      · exact h2 e hmem
    | done => trivial

/-- No step of another request changes where a request stands. -/
theorem enlisted_stable {r q : ℕ} {s s' : Office} {stage stage' other : Stage} {move : Move}
    (hne : q ≠ r) (ha : Acts P admits r s stage move s' stage') (hq : Enlisted P q s other) :
    Enlisted P q s' other := by
  have hcons : ∀ (e : Event), beginner e ≠ some q → committer e ≠ some q → ∀ s' : Office,
      s'.log = e :: s.log → Enlisted P q s' other := by
    intro e hb hc s' hlog
    cases other with
    | idle =>
      intro x hmem
      rw [hlog] at hmem
      rcases List.mem_cons.mp hmem with rfl | hmem
      · exact hb
      · exact hq x hmem
    | working request handler n =>
      obtain ⟨⟨hn, h1⟩, h2, h3⟩ := hq
      refine ⟨?_, fun x hmem => ?_, h3⟩
      · rw [hlog, asOf_cons hn]
        exact ⟨hn.trans (Nat.le_succ _), h1.trans (List.suffix_cons _ _)⟩
      rw [hlog] at hmem
      rcases List.mem_cons.mp hmem with rfl | hmem
      · exact hc
      · exact h2 x hmem
    | done => trivial
  have hother : some r ≠ some q := fun h => hne (Option.some.inj h).symm
  cases ha with
  | began request => exact hcons (.began r request) hother (by simp [committer]) _ rfl
  | turned request => exact hcons (.began r request) hother (by simp [committer]) _ rfl
  | proceeded => exact hq
  | failed => exact hq
  | committed request plan n db answer =>
    exact hcons (.committed ⟨r, request, plan, n, s.db, db, answer⟩) (by simp [beginner]) hother _
      rfl
  | signed => exact hcons (.signed _ _) (by simp [beginner]) (by simp [committer]) _ rfl

end IdenGrid.Control.Origins
