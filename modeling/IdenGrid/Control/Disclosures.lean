import IdenGrid.Lib.Fields
import IdenGrid.Control.Fleet
import IdenGrid.Control.Provenance

/-! # Disclosures of the node secret

The secret of a node goes out in the answers to two requests: the claim by the raw token of an
enrollment, and the claim of an approved registration by its key. `rightful_iff`: each token and
each registration discloses it at most once and only as long as the enrollment has been neither
revoked nor regenerated since, exactly if every claim of a registration finds the report token of
this registration in the enrollment. The token path always does: its UPDATE compares the hash of the
token. The other path looks for an enrollment of the node that is `claimed`, which is what a new
token has made of a revoked one.

The proof follows the hashes. A token hash that is stored is that of a value drawn for it
(`Stored`), a pending enrollment has that of the token that was issued last, and the report token of
an approval is in its enrollment until somebody revokes or regenerates it, and never again
(`Ledger`). -/

namespace IdenGrid.Control.Disclosures

open IdenGrid.Lib.Run IdenGrid.Lib.Store IdenGrid.Lib.WriteBack IdenGrid.Lib.Orm
open IdenGrid.Lib.Requests IdenGrid.Lib.History IdenGrid.Lib.Fields IdenGrid.Lib.Results
open IdenGrid.Control.Nodes
open IdenGrid.Control.Monitor hiding Db
open IdenGrid.Control.Registry IdenGrid.Control.NodeAdmin IdenGrid.Control.Enrollments
open IdenGrid.Control.Registrations IdenGrid.Control.Handlers IdenGrid.Control.Registrar
open IdenGrid.Control.Origins IdenGrid.Control.Provenance
open IdenGrid.Control.Fleet hiding step

/-! ## Rightful disclosures -/

/-- The enrollment for which a request issues a token, and the raw token. -/
def issues : Request → Option (String × String)
  | .createEdgeEnrollment _ i => some (i.enrollmentId, rawToken i.enrollmentId i.tokenSecret)
  | .regenerateEdgeEnrollment enrollmentId i =>
    some (enrollmentId, rawToken enrollmentId i.tokenSecret)
  | _ => none

def issued : Event → Option (String × String)
  | .committed c => issues c.request
  | _ => none

/-- The enrollment that a commit revokes or regenerates. -/
def withdrawn : Event → Option String
  | .committed c => withdraws c.request
  | _ => none

/-- The raw token by which a commit discloses the secret. -/
def redeems : Plan → Option String
  | .claimEnrollment k => some k.raw
  | _ => none

def redeemed : Event → Option String
  | .committed c => redeems c.plan
  | _ => none

/-- Neither the monitor, which takes the report token from an enrollment that is complete, nor the
deletion of a node. -/
def discreet : Request → Bool
  | .runMonitor _ | .deleteEdgeNode _ _ => false
  | _ => true

/-- Requests with fresh random values. -/
def admits (random : String → Bool) (log : List Event) (request : Request) : Bool :=
  fresh random log request && discreet request

/-- The event is this approval. -/
def approves (a : Acceptance) : Event → Prop
  | .committed c => c.plan = .accept a
  | _ => False

/-- The token has been issued for the enrollment, which nobody has revoked or regenerated since. -/
def Valid (enrollmentId raw : String) (log : List Event) : Prop :=
  Stands (fun e => issued e = some (enrollmentId, raw)) (fun e => withdrawn e ≠ some enrollmentId) log

/-- The approval has been made, and nobody has revoked or regenerated its enrollment since. -/
def InForce (a : Acceptance) (log : List Event) : Prop :=
  Stands (approves a) (fun e => withdrawn e ≠ some a.inputs.enrollmentId) log

/-- The token that discloses the secret is valid, and has not done so before. -/
structure ByToken (k : EnrollmentClaim) (older : List Event) : Prop where
  valid : Valid k.item.id k.raw older
  once : ∀ e ∈ older, redeemed e ≠ some k.raw

/-- The registration that discloses the secret is accepted for this node and this enrollment, and
has not done so before. -/
structure ByRegistration (k : RegistrationClaim) (older : List Event) : Prop where
  inForce : ∃ a, a.item.id = k.item.id ∧ a.inputs.nodeId = k.node.id ∧
    a.inputs.enrollmentId = k.enrollment.id ∧ InForce a older
  once : ∀ e ∈ older, milestone e ≠ some (k.item.id, 3)

/-- What a commit discloses, it discloses rightfully. -/
structure Rightful (c : Commit) (older : List Event) : Prop where
  token : ∀ k, c.plan = .claimEnrollment k → ByToken k older
  registration : ∀ k, c.plan = .claimRegistration k → ByRegistration k older

/-- A claim of a registration finds the report token of this registration in the enrollment. -/
def Unrevoked (P : Primitives) (s : Office) (_ : Request) (plan : Plan) : Prop :=
  ∀ k, plan = .claimRegistration k → ∀ e ∈ s.db.enrollments.rows, e.id = k.enrollment.id →
    e.reportTokenHash = some (P.enrollmentHash k.reportToken)

/-! ## Tokens -/

theorem urlSafe_dot {s : String} (h : urlSafe s = true) : '.' ∉ s.toList :=
  urlSafe_notMem h (by decide)

/-- A random value is no raw token. -/
theorem ne_rawToken {value id secret : String} (h : urlSafe value = true) :
    value ≠ rawToken id secret := by
  rintro rfl
  refine urlSafe_dot h ?_
  simp [rawToken]

theorem rawToken_inj {id id' secret secret' : String} (h : urlSafe secret = true)
    (h' : urlSafe secret' = true) (heq : rawToken id secret = rawToken id' secret') :
    id = id' ∧ secret = secret' :=
  field_inj_right "." rfl (urlSafe_dot h) (urlSafe_dot h') heq

/-- A request that has committed has drawn this value. -/
def Drew (log : List Event) (value : String) : Prop :=
  ∃ c, .committed c ∈ log ∧ value ∈ draws c.request

theorem Drew.mono {log log' : List Event} {value : String} (h : Drew log value)
    (hsub : log ⊆ log') : Drew log' value := by
  obtain ⟨c, hc, hvalue⟩ := h
  exact ⟨c, hsub hc, hvalue⟩

variable (P : Primitives) in
/-- The hash of a value that has been drawn for it, alone or in a raw token. -/
def Stored (log : List Event) (hash : String) : Prop :=
  ∃ raw secret, hash = P.enrollmentHash raw ∧ Drew log secret ∧
    (raw = secret ∨ ∃ id, raw = rawToken id secret)

variable {P : Primitives} {random : String → Bool}

theorem Stored.mono {log log' : List Event} {hash : String} (h : Stored P log hash)
    (hsub : log ⊆ log') : Stored P log' hash := by
  obtain ⟨raw, secret, hhash, hdrew, hraw⟩ := h
  exact ⟨raw, secret, hhash, hdrew.mono hsub, hraw⟩

/-- An issued token has been drawn by the request that has issued it. -/
theorem drew_of_issued {log : List Event} {e : Event} (he : e ∈ log) {id raw : String}
    (h : issued e = some (id, raw)) : ∃ secret, raw = rawToken id secret ∧ Drew log secret := by
  cases e with
  | committed c =>
    change issues c.request = some (id, raw) at h
    generalize hreq : c.request = req at h
    cases req with
    | createEdgeEnrollment body i =>
      obtain ⟨rfl, rfl⟩ := Prod.mk.inj (Option.some.inj h)
      exact ⟨i.tokenSecret, rfl, c, he, by simp [hreq, draws]⟩
    | regenerateEdgeEnrollment enrollmentId i =>
      obtain ⟨rfl, rfl⟩ := Prod.mk.inj (Option.some.inj h)
      exact ⟨i.tokenSecret, rfl, c, he, by simp [hreq, draws]⟩
    | _ => exact absurd h (Option.some_ne_none _).symm
  | _ => exact absurd h (Option.some_ne_none _).symm

/-! ## One enrollment under a commit -/

/-- What a write-back that neither revokes nor regenerates leaves of an enrollment. -/
structure Unmoved (e e' : EnrollmentRow) : Prop where
  id : e'.id = e.id
  edgeNodeId : e'.edgeNodeId = e.edgeNodeId
  tokenHash : e'.tokenHash = e.tokenHash
  reportTokenHash : e'.reportTokenHash = e.reportTokenHash
  pending : e'.status = .pending → e.status = .pending

theorem Unmoved.refl (e : EnrollmentRow) : Unmoved e e := ⟨rfl, rfl, rfl, rfl, fun h => h⟩

theorem Unmoved.trans {a b c : EnrollmentRow} (h : Unmoved a b) (h' : Unmoved b c) : Unmoved a c :=
  ⟨h'.id.trans h.id, h'.edgeNodeId.trans h.edgeNodeId, h'.tokenHash.trans h.tokenHash,
    h'.reportTokenHash.trans h.reportTokenHash, fun hc => h.pending (h'.pending hc)⟩

/-- What such a handler writes. -/
theorem write_unmoved {req : Request} {a b : EnrollmentRow} (h : EnrollmentWrite P req a b)
    (hdiscreet : discreet req = true) (hreq : withdraws req = none) :
    b.tokenHash = a.tokenHash ∧ b.reportTokenHash = a.reportTokenHash ∧
      (b.status = .pending → a.status = .pending) := by
  have hserialize : ∀ now (e : EnrollmentRow), (serializeEnrollment now e).tokenHash = e.tokenHash ∧
      (serializeEnrollment now e).reportTokenHash = e.reportTokenHash ∧
      ((serializeEnrollment now e).status = .pending → e.status = .pending) := by
    intro now e
    unfold serializeEnrollment
    split_ifs with hover
    · exact ⟨rfl, rfl, fun _ => hover.1⟩
    · exact ⟨rfl, rfl, id⟩
  cases h with
  | listed clock => exact hserialize _ a
  | expired authorization body inputs => exact hserialize _ a
  | reported authorization body now _ _ =>
    refine ⟨rfl, rfl, fun hpending => ?_⟩
    change body.phase.status = .pending at hpending
    cases hphase : body.phase <;> rw [hphase] at hpending <;> exact absurd hpending (by decide)
  | revoked => exact absurd hreq (Option.some_ne_none _)
  | regenerated => exact absurd hreq (Option.some_ne_none _)
  | probed => exact Bool.noConfusion hdiscreet
  | installing requestId body authorization inputs k claimed =>
    refine ⟨rfl, rfl, fun hpending => absurd hpending ?_⟩
    change EnrollmentStatus.installing ≠ .pending
    decide

theorem flush_unmoved {req : Request} {plan : Plan} (hsound : Sound P req (writes plan))
    (hdiscreet : discreet req = true) (hreq : withdraws req = none) (e : EnrollmentRow) :
    Unmoved e (flushAll enrollmentMapping (writes plan).enrollments e) := by
  refine flushAll_rel Unmoved.refl (fun _ _ _ => Unmoved.trans) (fun d hd x _ => ?_) e
  obtain ⟨htoken, hreport, hpending⟩ :=
    write_unmoved (hsound.enrollments d hd) hdiscreet hreq
  refine ⟨rfl, rfl, ?_, ?_, ?_⟩
  · change col d.1.tokenHash d.2.tokenHash x.tokenHash = x.tokenHash
    rw [htoken, col_same]
  · change col d.1.reportTokenHash d.2.reportTokenHash x.reportTokenHash = x.reportTokenHash
    rw [hreport, col_same]
  · change col d.1.status d.2.status x.status = .pending → x.status = .pending
    intro hcol
    by_cases hs : d.1.status = d.2.status
    · rwa [hs, col_same] at hcol
    · rw [col_of_ne (Ne.symm hs)] at hcol
      exact absurd ((hpending hcol).trans hcol.symm) hs

/-- A revocation has loaded an enrollment that is not revoked. -/
theorem write_revoked {enrollmentId fresh : String} {now : ℕ} {a b : EnrollmentRow}
    (h : EnrollmentWrite P (.revokeEdgeEnrollment enrollmentId fresh now) a b) :
    a.status ≠ .revoked := by
  cases h with
  | revoked _ _ _ _ known open_ => exact open_.1

/-- The enrollments that a request has loaded to revoke, to regenerate or to install. -/
def held (req : Request) : Handler → List EnrollmentRow
  | .ready (.write dirty _) =>
    if (withdraws req).isSome then dirty.enrollments.map Prod.fst else []
  | .ready (.claimRegistration k) => [k.enrollment]
  | _ => []

variable (P) in
/-- What a commit makes of an enrollment. -/
inductive RecordMove (req : Request) (plan : Plan) (e : EnrollmentRow) : EnrollmentRow → Prop
  | idle (e' : EnrollmentRow) (same : Unmoved e e') (spared : withdraws req ≠ some e.id)
      (other : ∀ k, plan = .claimEnrollment k → ¬ k.takes e = true) : RecordMove req plan e e'
  | revoked (fresh : String) (now : ℕ) (item : EnrollmentRow)
      (own : req = .revokeEdgeEnrollment e.id fresh now) (loaded : item ∈ held req (.ready plan))
      (id : item.id = e.id) (unrevoked : item.status ≠ .revoked) :
      RecordMove req plan e
        (EnrollmentRow.flush item (revokeEnrollment P fresh now item) e)
  | regenerated (i : RegenerateInputs) (item : EnrollmentRow)
      (own : req = .regenerateEdgeEnrollment e.id i) (loaded : item ∈ held req (.ready plan))
      (id : item.id = e.id) :
      RecordMove req plan e
        (EnrollmentRow.flush item (regenerateEnrollment P i item) e)
  | claimed (k : EnrollmentClaim) (own : plan = .claimEnrollment k) (takes : k.takes e = true) :
      RecordMove req plan e (k.set P e)

/-- **What a commit makes of the enrollments.** -/
theorem commit_record {req : Request} {plan : Plan} {t t' : Tables} {answer : Answer}
    (hbasis : Basis P req (.ready plan)) (hsound : Sound P req (writes plan))
    (hdiscreet : discreet req = true) (h : plan.commit P t = .ok (t', answer))
    {e' : EnrollmentRow} (he' : e' ∈ t'.enrollments.rows) :
    (∃ e ∈ t.enrollments.rows, RecordMove P req plan e e') ∨
      newEnrollment P plan = some e' ∧ ∀ x ∈ t.enrollments.rows, x.id ≠ e'.id := by
  refine ((commit_changes h).enrollments e' he').imp_left ?_
  rintro ⟨e, he, rfl⟩
  refine ⟨e, he, ?_⟩
  rcases hreq : withdraws req with _ | id
  · have hflush := flush_unmoved hsound hdiscreet hreq e
    have hspared : withdraws req ≠ some e.id := by
      rw [hreq]
      exact (Option.some_ne_none _).symm
    cases plan with
    | claimEnrollment k =>
      change RecordMove P req _ e (k.set P e)
      by_cases htakes : k.takes e = true
      · exact .claimed k rfl htakes
      · rw [EnrollmentClaim.set, if_neg htakes]
        refine .idle e (.refl e) hspared ?_
        rintro _ ⟨⟩
        exact htakes
    | _ => exact .idle _ hflush hspared fun k hk => by simp at hk
  · cases hbasis with
    | revocation fresh now item node answer =>
      obtain rfl : item.id = id := Option.some.inj hreq
      change RecordMove P _ _ e (flushRow enrollmentMapping item (revokeEnrollment P fresh now item) e)
      unfold flushRow
      split_ifs with hkey
      · have hopen := hsound.enrollments _ (List.mem_singleton_self _)
        refine .revoked fresh now item ?_ (by simp [held, withdraws]) hkey.symm ?_
        · rw [show e.id = item.id from hkey]
        · exact write_revoked hopen
      · refine .idle e (.refl e) (fun heq => hkey ?_) (fun k hk => by simp at hk)
        exact (Option.some.inj heq).symm
    | regeneration i item answer =>
      obtain rfl : item.id = id := Option.some.inj hreq
      change RecordMove P _ _ e (flushRow enrollmentMapping item (regenerateEnrollment P i item) e)
      unfold flushRow
      split_ifs with hkey
      · refine .regenerated i item ?_ (by simp [held, withdraws]) hkey.symm
        rw [show e.id = item.id from hkey]
      · refine .idle e (.refl e) (fun heq => hkey ?_) (fun k hk => by simp at hk)
        exact (Option.some.inj heq).symm
    | other _ _ nothing =>
      -- such a plan does not belong to a request that withdraws an enrollment
      cases plan <;> first | exact Bool.noConfusion nothing | simp [plain, hreq] at nothing
    | _ => exact absurd hreq (Option.some_ne_none _).symm

theorem RecordMove.id_eq {req : Request} {plan : Plan} {e e' : EnrollmentRow}
    (h : RecordMove P req plan e e') : e'.id = e.id := by
  cases h with
  | idle _ same => exact same.id
  | revoked => rfl
  | regenerated => rfl
  | claimed k => exact k.set_id P e

theorem RecordMove.edgeNodeId_eq {req : Request} {plan : Plan} {e e' : EnrollmentRow}
    (h : RecordMove P req plan e e') : e'.edgeNodeId = e.edgeNodeId := by
  cases h with
  | idle _ same => exact same.edgeNodeId
  | revoked => rfl
  | regenerated => rfl
  | claimed k _ takes => rw [EnrollmentClaim.set, if_pos takes]

theorem EnrollmentClaim.takes_iff {k : EnrollmentClaim} {e : EnrollmentRow} : k.takes e = true ↔
    e.id = k.item.id ∧ e.status = .pending ∧ e.claimedAt = none ∧ e.tokenHash = k.item.tokenHash := by
  simp [EnrollmentClaim.takes, and_assoc]

/-- What a commit makes of a token hash: the hash of a value that its request has drawn, or of a raw
token of this enrollment with such a value. -/
theorem RecordMove.tokenHash_eq {req : Request} {plan : Plan} (hbasis : Basis P req (.ready plan))
    {e e' : EnrollmentRow} (h : RecordMove P req plan e e') :
    e'.tokenHash = e.tokenHash ∨ ∃ secret ∈ draws req, e'.tokenHash = P.enrollmentHash secret ∨
      e'.tokenHash = P.enrollmentHash (rawToken e.id secret) := by
  cases h with
  | idle _ same => exact Or.inl same.tokenHash
  | revoked fresh now item own loaded id =>
    rcases col_eq_or item.tokenHash (P.enrollmentHash fresh) e.tokenHash with h | h
    · exact Or.inr ⟨fresh, by simp [own, draws], Or.inl h⟩
    · exact Or.inl h
  | regenerated i item own loaded id =>
    rcases col_eq_or item.tokenHash (P.enrollmentHash (rawToken item.id i.tokenSecret))
      e.tokenHash with h | h
    · refine Or.inr ⟨i.tokenSecret, by simp [own, draws], Or.inr ?_⟩
      rw [← id]
      exact h
    · exact Or.inl h
  | claimed k own takes =>
    rw [own] at hbasis
    cases hbasis with
    | tokenClaim authorization body i db _ found =>
      rcases claimEdgeEnrollment_eq_ok found with ⟨_, -, hk⟩ | ⟨k', hk, -, -, -, -, -, -, hfresh⟩
      · simp at hk
      · obtain rfl := Sum.inr.inj hk
        refine Or.inr ⟨i.fresh, by simp [draws], Or.inl ?_⟩
        rw [EnrollmentClaim.set, if_pos takes, ← hfresh]
    | other _ _ nothing => exact Bool.noConfusion nothing

/-- A new enrollment: its node is new as well, and its token hash is that of a value that the request
has drawn; it is pending only with the token that the request issues. -/
theorem newEnrollment_basis {req : Request} {plan : Plan} (hbasis : Basis P req (.ready plan))
    {e : EnrollmentRow} (h : newEnrollment P plan = some e) :
    (∃ n, newNode plan = some n ∧ n.id = e.edgeNodeId) ∧
      (∃ secret ∈ draws req, e.tokenHash = P.enrollmentHash secret ∨
        e.tokenHash = P.enrollmentHash (rawToken e.id secret)) ∧
      (e.status = .pending → ∃ raw, e.tokenHash = P.enrollmentHash raw ∧
        issues req = some (e.id, raw)) := by
  cases plan with
  | createEnrollment c =>
    obtain rfl := Option.some.inj h
    cases hbasis with
    | creation db body i _ made =>
      obtain ⟨-, -, -, hid, hnode, -, hhash, hraw, -⟩ := createEdgeEnrollment_eq_ok made
      rw [hraw] at hhash
      refine ⟨⟨c.node, rfl, hnode.symm⟩, ⟨i.tokenSecret, by simp [draws], Or.inr ?_⟩, fun _ => ?_⟩
      · rw [hid]
        exact hhash
      · exact ⟨rawToken i.enrollmentId i.tokenSecret, hhash, by rw [issues, hid]⟩
    | other _ _ nothing => exact Bool.noConfusion nothing
  | accept a =>
    obtain rfl := Option.some.inj h
    cases hbasis with
    | acceptance requestId =>
      refine ⟨⟨a.node, rfl, rfl⟩, ⟨a.inputs.fresh, by simp [draws], Or.inl rfl⟩, fun hpending => ?_⟩
      exact absurd hpending (by decide : EnrollmentStatus.claimed ≠ .pending)
    | other _ _ nothing => exact Bool.noConfusion nothing
  | _ => exact absurd h (Option.some_ne_none _).symm

/-- What the first read of a request has loaded is stored. -/
theorem begin_held {db : Db} {req : Request} {handler : Handler} (hdiscreet : discreet req = true)
    (h : begin P db req = .ok handler) :
    (∀ d, handler ≠ .ready (.deleteNode d)) ∧
      ∀ e ∈ held req handler, e ∈ db.enrollments.rows := by
  have hnone : ∀ {handler : Handler}, held req handler = [] →
      ∀ e ∈ held req handler, e ∈ db.enrollments.rows := fun hnil e he => by
    rw [hnil] at he
    exact absurd he List.not_mem_nil
  cases req with
  | deleteEdgeNode => exact Bool.noConfusion hdiscreet
  | runMonitor => exact Bool.noConfusion hdiscreet
  | revokeEdgeEnrollment enrollmentId fresh now =>
    obtain ⟨⟨dirty, answer⟩, hw, rfl⟩ := map_eq_ok.mp h
    obtain ⟨item, node, hitem, -, -, -, rfl⟩ := revokeEdgeEnrollment_eq_ok hw
    refine ⟨by simp [Plan.ofWrite], fun e he => ?_⟩
    obtain rfl : e = item := by simpa [held, withdraws, Plan.ofWrite] using he
    exact (Table.get?_eq_some.mp hitem).1
  | regenerateEdgeEnrollment enrollmentId i =>
    obtain ⟨⟨dirty, answer⟩, hw, rfl⟩ := map_eq_ok.mp h
    obtain ⟨item, hitem, -, rfl⟩ := regenerateEdgeEnrollment_eq_ok hw
    refine ⟨by simp [Plan.ofWrite], fun e he => ?_⟩
    obtain rfl : e = item := by simpa [held, withdraws, Plan.ofWrite] using he
    exact (Table.get?_eq_some.mp hitem).1
  | claimEdgeEnrollment authorization body i =>
    obtain ⟨w | k, -, rfl⟩ := map_eq_ok.mp h
    · exact ⟨by simp [Plan.ofWrite], hnone (by simp [held, withdraws, Plan.ofWrite])⟩
    · exact ⟨by simp, hnone (by simp [held])⟩
  | proveNodeRegistration requestId body authorization sourceIp now =>
    obtain ⟨w | p, -, rfl⟩ := map_eq_ok.mp h
    · exact ⟨by simp [Plan.ofWrite], hnone (by simp [held, withdraws, Plan.ofWrite])⟩
    · exact ⟨by simp, hnone (by simp [held])⟩
  | listNodeRegistrationRequests now =>
    obtain rfl := Except.ok.inj h
    exact ⟨by simp, hnone (by simp [held])⟩
  | _ =>
    obtain ⟨w, -, rfl⟩ := map_eq_ok.mp h
    exact ⟨by simp [Plan.ofWrite], hnone (by simp [held, withdraws, Plan.ofWrite])⟩

/-- What a further read has loaded is stored. -/
theorem proceed_held {db : Db} {req : Request} {handler next : Handler}
    (hh : Handles P req handler) (hdiscreet : discreet req = true)
    (hwaiting : ∀ plan, handler ≠ .ready plan) (h : proceed P db handler = .ok next) :
    (∀ d, next ≠ .ready (.deleteNode d)) ∧ ∀ e ∈ held req next, e ∈ db.enrollments.rows := by
  cases hh with
  | checked requestId body authorization inputs claim own =>
    obtain ⟨k, hk, rfl⟩ := map_eq_ok.mp h
    obtain ⟨-, -, -, -, -, henrollment, -⟩ := CheckedClaim.readEnrollment_eq_ok hk
    refine ⟨by simp, fun e he => ?_⟩
    obtain rfl : e = k.enrollment := by simpa [held] using he
    exact henrollment
  | probing nodes progress own =>
    rw [own] at hdiscreet
    exact Bool.noConfusion hdiscreet
  | ready plan => exact absurd rfl (hwaiting plan)

/-! ## The invariant -/

variable (P) in
/-- The hash of the report token that an approval stores. -/
def reportHash (a : Acceptance) : String :=
  P.enrollmentHash (derivedReportToken P a.item a.inputs.enrollmentId)

/-- What holds of the enrollments in every state. -/
structure Ledger (P : Primitives) (s : Office) : Prop where
  homes : ∀ e ∈ s.db.enrollments.rows, ∃ n ∈ s.db.nodes.rows, n.id = e.edgeNodeId
  single : ∀ e ∈ s.db.enrollments.rows, ∀ e' ∈ s.db.enrollments.rows,
    e.edgeNodeId = e'.edgeNodeId → e.id = e'.id
  stored : ∀ e ∈ s.db.enrollments.rows, Stored P s.log e.tokenHash
  pending : ∀ e ∈ s.db.enrollments.rows, e.status = .pending →
    ∃ raw, e.tokenHash = P.enrollmentHash raw ∧ Valid e.id raw s.log
  spent : ∀ x ∈ s.log, ∀ raw, redeemed x = some raw → ∃ id secret, raw = rawToken id secret ∧
    Drew s.log secret ∧ ∀ e ∈ s.db.enrollments.rows, e.id = id → e.tokenHash ≠ P.enrollmentHash raw
  approvals : ∀ a, Occurs (.accept a) s.log → ∃ e ∈ s.db.enrollments.rows,
    e.id = a.inputs.enrollmentId ∧ e.edgeNodeId = a.inputs.nodeId ∧
    (InForce a s.log → e.status ≠ .pending ∧ e.reportTokenHash = some (reportHash P a)) ∧
    (¬ InForce a s.log → e.reportTokenHash ≠ some (reportHash P a))

/-- What holds of an enrollment that a request has loaded: its row is still there, and if it had the
report token of no approval, then no approval is in force. -/
structure Loaded (P : Primitives) (s : Office) (e : EnrollmentRow) : Prop where
  stored : Stored P s.log e.tokenHash
  present : ∃ x ∈ s.db.enrollments.rows, x.id = e.id ∧ x.edgeNodeId = e.edgeNodeId
  approvals : ∀ a, Occurs (.accept a) s.log → a.inputs.enrollmentId = e.id →
    e.reportTokenHash = some (reportHash P a) ∨ ¬ InForce a s.log

/-- What holds of a request. -/
def Informed (P : Primitives) (s : Office) : Stage → Prop
  | .working request handler _ => discreet request = true ∧
      (∀ d, handler ≠ .ready (.deleteNode d)) ∧ ∀ e ∈ held request handler, Loaded P s e
  | _ => True

variable {s : Office}

/-- A stored enrollment is as it is when loaded. -/
theorem Ledger.loaded (h : Ledger P s) {e : EnrollmentRow} (he : e ∈ s.db.enrollments.rows) :
    Loaded P s e := by
  refine ⟨h.stored e he, ⟨e, he, rfl, rfl⟩, fun a ha hid => ?_⟩
  obtain ⟨x, hx, hxid, -, hforce, -⟩ := h.approvals a ha
  obtain rfl : x = e := Table.eq_of_key hx he (hxid.trans hid)
  by_cases hin : InForce a s.log
  · exact Or.inl (hforce hin).2
  · exact Or.inr hin

/-- The approval of an enrollment that is stored is not made again. -/
theorem accept_absent {plan : Plan} {t t' : Tables} {answer : Answer}
    (h : plan.commit P t = .ok (t', answer)) {a : Acceptance} {e : EnrollmentRow}
    (he : e ∈ t.enrollments.rows) (hid : e.id = a.inputs.enrollmentId) : plan ≠ .accept a := by
  rintro rfl
  change a.commit P t = .ok (t', answer) at h
  unfold Acceptance.commit at h
  split_ifs at h
  obtain ⟨u, hu, -⟩ := bind_eq_ok.mp h
  obtain ⟨-, hnew, -⟩ := insertEnrolled_eq_ok hu
  exact hnew e he hid

/-- An event that neither makes the approval nor withdraws its enrollment. -/
theorem inForce_cons {a : Acceptance} {e : Event} {log : List Event} (ha : ¬ approves a e) :
    InForce a (e :: log) ↔ withdrawn e ≠ some a.inputs.enrollmentId ∧ InForce a log := by
  unfold InForce
  rw [stands_cons]
  exact or_iff_right ha

theorem occurs_cons {plan : Plan} {e : Event} {log : List Event}
    (h : Occurs plan (e :: log)) : (∃ c, e = .committed c ∧ c.plan = plan) ∨ Occurs plan log := by
  obtain ⟨c, hc, hplan⟩ := h
  rcases List.mem_cons.mp hc with hc | hc
  · exact Or.inl ⟨c, hc.symm, hplan⟩
  · exact Or.inr ⟨c, hc, hplan⟩

/-- What an event that is not a commit leaves alone. -/
theorem quiet_event {e : Event} (he : committer e = none) :
    withdrawn e = none ∧ redeemed e = none ∧ ∀ a, ¬ approves a e := by
  cases e with
  | committed c => exact absurd he (Option.some_ne_none _)
  | _ => exact ⟨rfl, rfl, fun _ h => h⟩

theorem inForce_quiet {a : Acceptance} {e : Event} {log : List Event} (he : committer e = none) :
    InForce a (e :: log) ↔ InForce a log := by
  obtain ⟨hw, -, ha⟩ := quiet_event he
  rw [inForce_cons (ha a), hw]
  exact and_iff_right (Option.some_ne_none _).symm

theorem occurs_quiet {plan : Plan} {e : Event} {log : List Event} (he : committer e = none)
    (h : Occurs plan (e :: log)) : Occurs plan log := by
  rcases occurs_cons h with ⟨c, rfl, -⟩ | h
  · exact absurd he (Option.some_ne_none _)
  · exact h

theorem Loaded.event {row : EnrollmentRow} (h : Loaded P s row) {e : Event}
    (he : committer e = none) : Loaded P { s with log := e :: s.log } row := by
  refine ⟨h.stored.mono (List.subset_cons_self _ _), h.present, fun a ha hid => ?_⟩
  rw [inForce_quiet he]
  exact h.approvals a (occurs_quiet he ha) hid

theorem Ledger.event (h : Ledger P s) {e : Event} (he : committer e = none) :
    Ledger P { s with log := e :: s.log } := by
  have hsub : s.log ⊆ e :: s.log := List.subset_cons_self _ _
  obtain ⟨hw, hred, -⟩ := quiet_event he
  refine ⟨h.homes, h.single, fun row hrow => (h.stored row hrow).mono hsub, fun row hrow hp => ?_,
    fun x hx raw hraw => ?_, fun a ha => ?_⟩
  · obtain ⟨raw, hhash, hvalid⟩ := h.pending row hrow hp
    refine ⟨raw, hhash, Or.inr ⟨?_, hvalid⟩⟩
    change withdrawn e ≠ some row.id
    rw [hw]
    exact (Option.some_ne_none _).symm
  · rcases List.mem_cons.mp hx with rfl | hx
    · rw [hred] at hraw
      exact absurd hraw (Option.some_ne_none _).symm
    · obtain ⟨id, secret, h1, h2, h3⟩ := h.spent x hx raw hraw
      exact ⟨id, secret, h1, h2.mono hsub, h3⟩
  · obtain ⟨row, hrow, h1, h2, h3, h4⟩ := h.approvals a (occurs_quiet he ha)
    exact ⟨row, hrow, h1, h2, fun hin => h3 ((inForce_quiet he).mp hin),
      fun hin => h4 fun h => hin ((inForce_quiet he).mpr h)⟩

/-! ## Commits -/

/-- The node of a new enrollment is new. -/
theorem newNode_absent {plan : Plan} {t t' : Tables} {answer : Answer}
    (h : plan.commit P t = .ok (t', answer)) {e : EnrollmentRow} {n : NodeRow}
    (he : newEnrollment P plan = some e) (hn : newNode plan = some n) :
    ∀ x ∈ t.nodes.rows, x.id ≠ n.id := by
  cases plan with
  | createEnrollment c =>
    obtain rfl := Option.some.inj hn
    obtain ⟨u, hu, -⟩ := bind_eq_ok.mp h
    exact (insertEnrolled_eq_ok hu).1
  | accept a =>
    obtain rfl := Option.some.inj hn
    change a.commit P t = .ok (t', answer) at h
    unfold Acceptance.commit at h
    split_ifs at h
    obtain ⟨u, hu, -⟩ := bind_eq_ok.mp h
    exact (insertEnrolled_eq_ok hu).1
  | _ => exact absurd he (Option.some_ne_none _).symm

section Commit

variable {r n : ℕ} {request : Request} {plan : Plan} {db : Db} {answer : Answer}

/-- The state after a commit. -/
def after (s : Office) (r : ℕ) (request : Request) (plan : Plan) (n : ℕ) (db : Db)
    (answer : Answer) : Office where
  db := db
  log := .committed ⟨r, request, plan, n, s.db, db, answer⟩ :: s.log

theorem log_subset : s.log ⊆ (after s r request plan n db answer).log := List.subset_cons_self _ _

theorem drew_after {secret : String} (h : secret ∈ draws request) :
    Drew (after s r request plan n db answer).log secret := ⟨_, List.mem_cons_self, h⟩

theorem inForce_after {a : Acceptance} (ha : plan ≠ .accept a) :
    InForce a (after s r request plan n db answer).log ↔
      withdraws request ≠ some a.inputs.enrollmentId ∧ InForce a s.log := inForce_cons ha

/-- What a request draws is random, and no commit has drawn it before. -/
theorem draws_fresh (ho : Orderly P random s.log)
    (he : Enlisted P r s (.working request (.ready plan) n)) {secret : String}
    (h : secret ∈ draws request) : random secret = true ∧ ¬ Drew s.log secret := by
  refine ⟨ho.drawn_random (suffix_mem he.1.2) h, ?_⟩
  rintro ⟨c, hc, hdrew⟩
  exact he.undrawn ho hc h hdrew

theorem drew_random {secret : String} (ho : Orderly P random s.log) (h : Drew s.log secret) :
    random secret = true := by
  obtain ⟨c, hc, hdraws⟩ := h
  exact ho.drawn_random (ho.commit_began hc) hdraws

/-- What is known of a request that commits. -/
structure Commits (P : Primitives) (random : String → Bool) (s : Office) (r n : ℕ)
    (request : Request) (plan : Plan) (db : Db) (answer : Answer) : Prop where
  orderly : Orderly P random s.log
  enlisted : Enlisted P r s (.working request (.ready plan) n)
  informed : Informed P s (.working request (.ready plan) n)
  commit : plan.commit P s.db.toTables = .ok (db.toTables, answer)

theorem Commits.basis (h : Commits P random s r n request plan db answer) :
    Basis P request (.ready plan) := h.enlisted.2.2.1

theorem Commits.record (h : Commits P random s r n request plan db answer) {e' : EnrollmentRow}
    (he' : e' ∈ db.enrollments.rows) :
    (∃ e ∈ s.db.enrollments.rows, RecordMove P request plan e e') ∨
      newEnrollment P plan = some e' ∧ ∀ x ∈ s.db.enrollments.rows, x.id ≠ e'.id := by
  have hsound : Sound P request (writes plan) := by
    cases h.enlisted.2.2.2 with
    | ready _ sound => exact sound
  exact commit_record h.basis hsound h.informed.1 h.commit he'

theorem Commits.keeps (h : Commits P random s r n request plan db answer) :
    Keeps P plan s.db.toTables db.toTables :=
  commit_keeps (fun d hd => h.informed.2.1 d (by rw [hd])) h.commit

theorem Commits.exists_record (h : Commits P random s r n request plan db answer)
    {e : EnrollmentRow} (he : e ∈ s.db.enrollments.rows) :
    ∃ e' ∈ db.enrollments.rows, RecordMove P request plan e e' := by
  obtain ⟨e', he', hid⟩ := h.keeps.enrollments e he
  refine ⟨e', he', ?_⟩
  rcases h.record he' with ⟨x, hx, hmove⟩ | ⟨-, hnew⟩
  · rwa [← Table.eq_of_key hx he (hmove.id_eq.symm.trans hid)]
  · exact absurd hid.symm (hnew e he)

/-- The row that an enrollment has come from. -/
theorem Commits.record_of_id (h : Commits P random s r n request plan db answer)
    {e e' : EnrollmentRow} (he : e ∈ s.db.enrollments.rows) (he' : e' ∈ db.enrollments.rows)
    (hid : e'.id = e.id) : RecordMove P request plan e e' := by
  obtain ⟨x, hx, hmove⟩ := h.exists_record he
  rwa [← Table.eq_of_key hx he' (hmove.id_eq.trans hid.symm)]

/-- The commit of a request changes nothing that holds of the rows that others have loaded. -/
theorem Commits.loaded (h : Commits P random s r n request plan db answer) {row : EnrollmentRow}
    (hrow : Loaded P s row) : Loaded P (after s r request plan n db answer) row := by
  obtain ⟨x, hx, hxid, hxnode⟩ := hrow.present
  refine ⟨hrow.stored.mono log_subset, ?_, fun a ha hid => ?_⟩
  · obtain ⟨x', hx', hmove⟩ := h.exists_record hx
    exact ⟨x', hx', hmove.id_eq.trans hxid, hmove.edgeNodeId_eq.trans hxnode⟩
  · have habsent := accept_absent h.commit hx (hxid.trans hid.symm)
    rcases occurs_cons ha with ⟨c, hc, hplan⟩ | ha
    · rw [← Event.committed.inj hc] at hplan
      exact absurd hplan habsent
    · refine (hrow.approvals a ha hid).imp_right fun hnot hin => hnot ?_
      exact ((inForce_after habsent).mp hin).2

/-- One enrollment for a node, and one node for an enrollment. -/
theorem Commits.homes (h : Commits P random s r n request plan db answer) (hl : Ledger P s) :
    (∀ e ∈ db.enrollments.rows, ∃ n ∈ db.nodes.rows, n.id = e.edgeNodeId) ∧
      ∀ e ∈ db.enrollments.rows, ∀ e' ∈ db.enrollments.rows,
        e.edgeNodeId = e'.edgeNodeId → e.id = e'.id := by
  -- the node of a new enrollment is not that of a stored one
  have hnew : ∀ x ∈ s.db.enrollments.rows, ∀ e', newEnrollment P plan = some e' →
      x.edgeNodeId ≠ e'.edgeNodeId := by
    intro x hx e' he' heq
    obtain ⟨⟨node, hnode, hid⟩, -⟩ := newEnrollment_basis h.basis he'
    obtain ⟨y, hy, hyid⟩ := hl.homes x hx
    exact newNode_absent h.commit he' hnode y hy (hyid.trans (heq.trans hid.symm))
  refine ⟨fun e he => ?_, fun e he e' he' heq => ?_⟩
  · rcases h.record he with ⟨x, hx, hmove⟩ | ⟨hitem, -⟩
    · obtain ⟨node, hnode, hid⟩ := hl.homes x hx
      obtain ⟨node', hnode', hid'⟩ := h.keeps.nodes node hnode
      exact ⟨node', hnode', (hid'.trans hid).trans hmove.edgeNodeId_eq.symm⟩
    · obtain ⟨⟨node, hnode, hid⟩, -⟩ := newEnrollment_basis h.basis hitem
      exact ⟨node, h.keeps.newNode node hnode, hid⟩
  · rcases h.record he with ⟨x, hx, hmove⟩ | ⟨hitem, -⟩ <;>
      rcases h.record he' with ⟨x', hx', hmove'⟩ | ⟨hitem', -⟩
    · rw [hmove.edgeNodeId_eq, hmove'.edgeNodeId_eq] at heq
      rw [hmove.id_eq, hmove'.id_eq]
      exact hl.single x hx x' hx' heq
    · exact absurd (hmove.edgeNodeId_eq.symm.trans heq) (hnew x hx e' hitem')
    · exact absurd (hmove'.edgeNodeId_eq.symm.trans heq.symm) (hnew x' hx' e hitem)
    · rw [Option.some.inj (hitem.symm.trans hitem')]

/-- What a token hash after the commit is the hash of. -/
theorem Commits.tokenHash (h : Commits P random s r n request plan db answer) {e' : EnrollmentRow}
    (he' : e' ∈ db.enrollments.rows) :
    (∃ e ∈ s.db.enrollments.rows, e'.id = e.id ∧ e'.tokenHash = e.tokenHash) ∨
      ∃ secret ∈ draws request, e'.tokenHash = P.enrollmentHash secret ∨
        e'.tokenHash = P.enrollmentHash (rawToken e'.id secret) := by
  rcases h.record he' with ⟨e, he, hmove⟩ | ⟨hitem, -⟩
  · rw [hmove.id_eq]
    exact (hmove.tokenHash_eq h.basis).imp_left fun hsame => ⟨e, he, rfl, hsame⟩
  · exact Or.inr (newEnrollment_basis h.basis hitem).2.1

theorem Commits.stored (h : Commits P random s r n request plan db answer) (hl : Ledger P s)
    {e' : EnrollmentRow} (he' : e' ∈ db.enrollments.rows) :
    Stored P (after s r request plan n db answer).log e'.tokenHash := by
  rcases h.tokenHash he' with ⟨e, he, -, hsame⟩ | ⟨secret, hdraws, hhash | hhash⟩
  · rw [hsame]
    exact (hl.stored e he).mono log_subset
  · exact ⟨secret, secret, hhash, drew_after hdraws, Or.inl rfl⟩
  · exact ⟨_, secret, hhash, drew_after hdraws, Or.inr ⟨e'.id, rfl⟩⟩

/-- No token hash that is stored is that of a raw token with a value that has just been drawn. -/
theorem Commits.ne_rawToken (h : Commits P random s r n request plan db answer)
    (hinj : Function.Injective P.enrollmentHash) (hsafe : ∀ d, random d = true → urlSafe d = true)
    {secret : String} (hdraws : secret ∈ draws request) {hash : String} (hstored : Stored P s.log hash)
    (id : String) : hash ≠ P.enrollmentHash (rawToken id secret) := by
  intro hhash
  obtain ⟨raw, secret', rfl, hdrew, hraw⟩ := hstored
  obtain ⟨hrandom, hnew⟩ := draws_fresh h.orderly h.enlisted hdraws
  have hsecret := hsafe _ (drew_random h.orderly hdrew)
  obtain rfl := hinj hhash
  rcases hraw with hraw | ⟨id', hraw⟩
  · exact Disclosures.ne_rawToken hsecret hraw.symm
  · obtain ⟨-, rfl⟩ := rawToken_inj (hsafe _ hrandom) hsecret hraw
    exact hnew hdrew

/-- A pending enrollment has the token that was issued last. -/
theorem Commits.pending (h : Commits P random s r n request plan db answer)
    (hinj : Function.Injective P.enrollmentHash) (hsafe : ∀ d, random d = true → urlSafe d = true)
    (hl : Ledger P s) {e' : EnrollmentRow} (he' : e' ∈ db.enrollments.rows)
    (hpending : e'.status = .pending) : ∃ raw, e'.tokenHash = P.enrollmentHash raw ∧
      Valid e'.id raw (after s r request plan n db answer).log := by
  rcases h.record he' with ⟨e, he, hmove⟩ | ⟨hitem, -⟩
  · rw [hmove.id_eq]
    cases hmove with
    | idle _ same spared =>
      obtain ⟨raw, hhash, hvalid⟩ := hl.pending e he (same.pending hpending)
      exact ⟨raw, same.tokenHash.trans hhash, Or.inr ⟨spared, hvalid⟩⟩
    | revoked fresh now item own loaded id unrevoked =>
      have hcol : col item.status .revoked e.status = .pending := hpending
      rw [col_of_ne (Ne.symm unrevoked)] at hcol
      exact absurd hcol (by decide)
    | regenerated i item own loaded id =>
      have hdraws : i.tokenSecret ∈ draws request := by simp [own, draws]
      refine ⟨rawToken e.id i.tokenSecret, ?_, Or.inl ?_⟩
      · have hfresh := h.ne_rawToken hinj hsafe hdraws (h.informed.2.2 item loaded).stored item.id
        change col item.tokenHash (P.enrollmentHash (rawToken item.id i.tokenSecret)) e.tokenHash = _
        rw [col_of_ne (Ne.symm hfresh), id]
      · change issues request = _
        rw [own]
        rfl
    | claimed k own takes =>
      rw [EnrollmentClaim.set, if_pos takes] at hpending
      exact absurd hpending (by decide : EnrollmentStatus.claimed ≠ .pending)
  · obtain ⟨raw, hhash, hissues⟩ := (newEnrollment_basis h.basis hitem).2.2 hpending
    exact ⟨raw, hhash, Or.inl hissues⟩

/-- The row that a claim by a token takes, and what it finds there. -/
theorem Commits.claim_taken {k : EnrollmentClaim}
    (h : Commits P random s r n request (.claimEnrollment k) db answer)
    (hinj : Function.Injective P.enrollmentHash) (hl : Ledger P s) :
    ∃ e ∈ s.db.enrollments.rows, k.takes e = true ∧ e.id = k.item.id ∧
      e.tokenHash = P.enrollmentHash k.raw ∧ Valid e.id k.raw s.log ∧ k.fresh ∈ draws request := by
  have hcommit := h.commit
  change k.commit P _ = _ at hcommit
  unfold EnrollmentClaim.commit at hcommit
  split_ifs at hcommit with hcount
  obtain ⟨e, he, htakes⟩ := List.countP_pos_iff.mp (hcount.symm ▸ Nat.one_pos)
  obtain ⟨hid, hstatus, -, htoken⟩ := EnrollmentClaim.takes_iff.mp htakes
  obtain ⟨raw, hhash, hvalid⟩ := hl.pending e he hstatus
  have hbasis := h.basis
  generalize request = req at hbasis ⊢
  cases hbasis with
  | tokenClaim authorization body i db _ found =>
    rcases claimEdgeEnrollment_eq_ok found with ⟨_, -, hk⟩ | ⟨k', hk, -, -, hraw, -, -, -, hfresh⟩
    · simp at hk
    · obtain rfl := Sum.inr.inj hk
      obtain rfl := hinj (hraw.trans (htoken.symm.trans hhash))
      exact ⟨e, he, htakes, hid, hhash, hvalid, by simp [draws, hfresh]⟩
  | other _ _ nothing => exact Bool.noConfusion nothing

/-- What that row is after the claim. -/
theorem RecordMove.eq_set {k : EnrollmentClaim} {e e' : EnrollmentRow}
    (hbasis : Basis P request (.ready (.claimEnrollment k)))
    (h : RecordMove P request (.claimEnrollment k) e e') (htakes : k.takes e = true) :
    e' = k.set P e := by
  have hrequest : withdraws request = none := by
    cases hbasis with
    | tokenClaim => rfl
    | other _ _ nothing => exact Bool.noConfusion nothing
  cases h with
  | idle _ _ _ other => exact absurd htakes (other k rfl)
  | revoked fresh now item own => rw [own] at hrequest; exact absurd hrequest (Option.some_ne_none _)
  | regenerated i item own => rw [own] at hrequest; exact absurd hrequest (Option.some_ne_none _)
  | claimed k' own => rw [Plan.claimEnrollment.inj own]

/-- A token that has disclosed the secret is in no enrollment any more. -/
theorem Commits.spent (h : Commits P random s r n request plan db answer)
    (hinj : Function.Injective P.enrollmentHash) (hsafe : ∀ d, random d = true → urlSafe d = true)
    (hl : Ledger P s) {x : Event} (hx : x ∈ (after s r request plan n db answer).log) {raw : String}
    (hraw : redeemed x = some raw) : ∃ id secret, raw = rawToken id secret ∧
      Drew (after s r request plan n db answer).log secret ∧
      ∀ e' ∈ db.enrollments.rows, e'.id = id → e'.tokenHash ≠ P.enrollmentHash raw := by
  rcases List.mem_cons.mp hx with rfl | hx
  · change redeems plan = some raw at hraw
    cases plan with
    | claimEnrollment k =>
      obtain rfl := Option.some.inj hraw
      obtain ⟨e, he, htakes, -, -, hvalid, hdraws⟩ := h.claim_taken hinj hl
      obtain ⟨y, hy, hissued⟩ := hvalid.exists_mem
      obtain ⟨secret, hsecret, hdrew⟩ := drew_of_issued hy hissued
      refine ⟨e.id, secret, hsecret, hdrew.mono log_subset, fun e' he' hid hhash => ?_⟩
      rw [(h.record_of_id he he' hid).eq_set h.basis htakes, EnrollmentClaim.set, if_pos htakes,
        hsecret] at hhash
      exact Disclosures.ne_rawToken (hsafe _ (draws_fresh h.orderly h.enlisted hdraws).1)
        (hinj hhash)
    | _ => exact absurd hraw (Option.some_ne_none _).symm
  · obtain ⟨id, secret, rfl, hdrew, hrows⟩ := hl.spent x hx raw hraw
    refine ⟨id, secret, rfl, hdrew.mono log_subset, fun e' he' hid hhash => ?_⟩
    have hsecret := hsafe _ (drew_random h.orderly hdrew)
    rcases h.tokenHash he' with ⟨e, he, heid, hsame⟩ | ⟨value, hdraws, hvalue | hvalue⟩
    · exact hrows e he (heid.symm.trans hid) (hsame.symm.trans hhash)
    · have hrandom := (draws_fresh h.orderly h.enlisted hdraws).1
      exact Disclosures.ne_rawToken (hsafe _ hrandom) (hinj (hvalue.symm.trans hhash))
    · obtain ⟨hrandom, hnew⟩ := draws_fresh h.orderly h.enlisted hdraws
      obtain ⟨-, rfl⟩ := rawToken_inj (hsafe _ hrandom) hsecret (hinj (hvalue.symm.trans hhash))
      exact hnew hdrew

/-- The report token that a claim by a token stores. -/
theorem claim_reportToken {authorization : Option String} {body : EdgeEnrollmentClaimBody}
    {i : Enrollments.ClaimInputs} {k : EnrollmentClaim}
    (h : claimEdgeEnrollment P authorization body i db = .ok (.inr k)) :
    k.reportToken = rawToken k.item.id i.reportSecret := by
  unfold claimEdgeEnrollment at h
  split at h
  · simp at h
  · next raw tokenId _ =>
    by_cases hlong : 64 < tokenId.length
    · simp [hlong] at h
    rw [if_neg hlong] at h
    split at h
    · simp at h
    · split at h
      · simp at h
      · split at h
        · simp at h
        · split_ifs at h
          simp at h
        · obtain ⟨p, -, h⟩ := bind_eq_ok.mp h
          obtain rfl := Sum.inr.inj (Except.ok.inj h)
          rfl

/-- Whoever revokes or regenerates an enrollment takes the report token of an approval from it. -/
theorem Loaded.clears {item e : EnrollmentRow} (h : Loaded P s item) {a : Acceptance}
    (ha : Occurs (.accept a) s.log) (hid : a.inputs.enrollmentId = item.id)
    (he : ¬ InForce a s.log → e.reportTokenHash ≠ some (reportHash P a)) :
    col item.reportTokenHash none e.reportTokenHash ≠ some (reportHash P a) := by
  rcases h.approvals a ha hid with hitem | hnot
  · rw [hitem, col_of_ne (Option.some_ne_none _).symm]
    exact (Option.some_ne_none _).symm
  · rcases col_eq_or item.reportTokenHash none e.reportTokenHash with h | h
    · rw [h]
      exact (Option.some_ne_none _).symm
    · rw [h]
      exact he hnot

/-- **The report token of an approval is in its enrollment exactly as long as the approval is in
force.** -/
theorem Commits.approvals (h : Commits P random s r n request plan db answer)
    (hinj : Function.Injective P.enrollmentHash)
    (hdigest : ∀ message, random (P.keyedDigest message) = false) (hl : Ledger P s) {a : Acceptance}
    (ha : Occurs (.accept a) (after s r request plan n db answer).log) :
    ∃ e' ∈ db.enrollments.rows, e'.id = a.inputs.enrollmentId ∧
      e'.edgeNodeId = a.inputs.nodeId ∧
      (InForce a (after s r request plan n db answer).log →
        e'.status ≠ .pending ∧ e'.reportTokenHash = some (reportHash P a)) ∧
      (¬ InForce a (after s r request plan n db answer).log →
        e'.reportTokenHash ≠ some (reportHash P a)) := by
  rcases occurs_cons ha with ⟨c, hc, hplan⟩ | ha
  · obtain rfl : plan = .accept a := by
      rw [← Event.committed.inj hc] at hplan
      exact hplan
    refine ⟨a.enrollment P, h.keeps.newEnrollment _ rfl, rfl, rfl, fun _ => ⟨?_, rfl⟩, fun hnot => ?_⟩
    · exact (by decide : EnrollmentStatus.claimed ≠ .pending)
    · exact absurd (Or.inl rfl) hnot
  · obtain ⟨e, he, hid, hnode, hforce, hnot⟩ := hl.approvals a ha
    have habsent := accept_absent h.commit he hid
    obtain ⟨e', he', hmove⟩ := h.exists_record he
    refine ⟨e', he', hmove.id_eq.trans hid, hmove.edgeNodeId_eq.trans hnode, ?_⟩
    rw [inForce_after habsent]
    cases hmove with
    | idle _ same spared =>
      rw [← hid]
      refine ⟨fun hin => ?_, fun hin => ?_⟩
      · obtain ⟨hstatus, htoken⟩ := hforce hin.2
        exact ⟨fun hp => hstatus (same.pending hp), same.reportTokenHash.trans htoken⟩
      · rw [same.reportTokenHash]
        exact hnot fun h => hin ⟨spared, h⟩
    | revoked fresh now item own loaded id =>
      refine ⟨fun hin => absurd ?_ hin.1, fun _ => ?_⟩
      · rw [own, ← hid]
        rfl
      · exact (h.informed.2.2 item loaded).clears ha (hid.symm.trans id.symm) hnot
    | regenerated i item own loaded id =>
      refine ⟨fun hin => absurd ?_ hin.1, fun _ => ?_⟩
      · rw [own, ← hid]
        rfl
      · exact (h.informed.2.2 item loaded).clears ha (hid.symm.trans id.symm) hnot
    | claimed k own takes =>
      subst own
      -- the enrollment of an approval in force is not pending, so the token is of a later issue
      obtain ⟨hkid, hstatus, -⟩ := EnrollmentClaim.takes_iff.mp takes
      refine ⟨fun hin => absurd hstatus (hforce hin.2).1, fun _ htoken => ?_⟩
      rw [EnrollmentClaim.set, if_pos takes] at htoken
      have hsame := hinj (Option.some.inj htoken)
      have hfresh := fun d (hd : d ∈ draws request) => (draws_fresh h.orderly h.enlisted hd).1
      have hbasis := h.basis
      generalize request = req at hbasis hfresh
      cases hbasis with
      | tokenClaim authorization body i db _ found =>
        rw [claim_reportToken found, ← hkid, hid] at hsame
        have hsecret := (String.append_right_inj _).mp hsame
        have hrandom := hfresh i.reportSecret (by simp [draws])
        rw [hsecret, hdigest] at hrandom
        exact Bool.noConfusion hrandom
      | other _ _ nothing => exact Bool.noConfusion nothing

/-- **A commit keeps the ledger.** -/
theorem Commits.ledger (h : Commits P random s r n request plan db answer)
    (hinj : Function.Injective P.enrollmentHash) (hsafe : ∀ d, random d = true → urlSafe d = true)
    (hdigest : ∀ message, random (P.keyedDigest message) = false) (hl : Ledger P s) :
    Ledger P (after s r request plan n db answer) where
  homes := (h.homes hl).1
  single := (h.homes hl).2
  stored _ he' := h.stored hl he'
  pending _ he' hpending := h.pending hinj hsafe hl he' hpending
  spent _ hx _ hraw := h.spent hinj hsafe hl hx hraw
  approvals _ ha := h.approvals hinj hdigest hl ha

end Commit

/-! ## Every interleaving -/

/-- What holds of the tables and the log. -/
def Accounted (P : Primitives) (random : String → Bool) (s : Office) : Prop :=
  Recorded P random s ∧ Ledger P s

/-- What holds of a request. -/
def Claims (P : Primitives) (r : ℕ) (s : Office) (stage : Stage) : Prop :=
  Follows P r s stage ∧ Informed P s stage

theorem claims_local (hinj : Function.Injective P.enrollmentHash)
    (hsafe : ∀ d, random d = true → urlSafe d = true)
    (hdigest : ∀ message, random (P.keyedDigest message) = false) (r : ℕ) (s : Office)
    (stage : Stage) (move : Move) (s' : Office) (stage' : Stage) (hI : Accounted P random s)
    (hA : Claims P r s stage) (ha : Acts P (admits random) r s stage move s' stage') :
    Accounted P random s' ∧ Claims P r s' stage' := by
  obtain ⟨⟨ho, ht⟩, hl⟩ := hI
  obtain ⟨⟨he, htrail⟩, hinf⟩ := hA
  have hadmits : ∀ log request, admits random log request = true →
      fresh random log request = true := fun log request h => (Bool.and_eq_true_iff.mp h).1
  obtain ⟨h1, h2⟩ := orderly_local hadmits ho he ha
  obtain ⟨h3, h4⟩ := traced_local ho ht he htrail ha
  have hledger : Ledger P s' ∧ Informed P s' stage' := by
    cases ha with
    | began request handler admitted read =>
      have hdiscreet := (Bool.and_eq_true_iff.mp admitted).2
      obtain ⟨hplan, hheld⟩ := begin_held hdiscreet read
      exact ⟨hl.event rfl, hdiscreet, hplan, fun e hmem => (hl.loaded (hheld e hmem)).event rfl⟩
    | turned => exact ⟨hl.event rfl, trivial⟩
    | proceeded request handler next n waiting read =>
      obtain ⟨hplan, hheld⟩ := proceed_held he.2.2.2 hinf.1 waiting read
      exact ⟨hl, hinf.1, hplan, fun e hmem => hl.loaded (hheld e hmem)⟩
    | failed => exact ⟨hl, trivial⟩
    | committed request plan n db answer attempt =>
      have hcommits : Commits P random s r n request plan db answer :=
        ⟨ho, he, hinf, Plan.attempt_eq_ok P attempt⟩
      exact ⟨hcommits.ledger hinj hsafe hdigest hl, trivial⟩
    | signed _ publicKeyPem message =>
      refine ⟨hl.event rfl, ?_⟩
      cases stage with
      | working request handler n =>
        exact ⟨hinf.1, hinf.2.1, fun e hmem => (hinf.2.2 e hmem).event rfl⟩
      | _ => trivial
  exact ⟨⟨⟨h1, h3⟩, hledger.1⟩, ⟨h2, h4⟩, hledger.2⟩

theorem claims_stable (r q : ℕ) (s : Office) (stage : Stage) (move : Move) (s' : Office)
    (stage' other : Stage) (hne : q ≠ r) (hI : Accounted P random s) (hA : Claims P r s stage)
    (ha : Acts P (admits random) r s stage move s' stage') (hq : Claims P q s other) :
    Claims P q s' other := by
  refine ⟨⟨enlisted_stable hne ha hq.1.1, trailed_stable ha hq.1.1 hq.1.2⟩, ?_⟩
  cases other with
  | working request handler n =>
    obtain ⟨hdiscreet, hplan, hheld⟩ := hq.2
    refine ⟨hdiscreet, hplan, fun e hmem => ?_⟩
    have hloaded := hheld e hmem
    cases ha with
    | began => exact hloaded.event rfl
    | turned => exact hloaded.event rfl
    | proceeded => exact hloaded
    | failed => exact hloaded
    | committed request' plan n' db answer attempt =>
      have hcommits : Commits P random s r n' request' plan db answer :=
        ⟨hI.1.1, hA.1.1, hA.2, Plan.attempt_eq_ok P attempt⟩
      exact hcommits.loaded hloaded
    | signed => exact hloaded.event rfl
  | _ => trivial

/-- What an approval has loaded has the token of its registration. -/
theorem acceptance_token {s : Office} (hr : Recorded P random s) {a : Acceptance}
    (ha : Occurs (.accept a) s.log) : ∃ g, Occurs (.register g) s.log ∧ a.item.id = g.item.id ∧
      a.item.registrationTokenHash = g.item.registrationTokenHash := by
  obtain ⟨c, hc, hplan⟩ := ha
  obtain ⟨older, hs⟩ := exists_suffix hc
  obtain ⟨g, hg, hkept, hsteps⟩ := hr.2.loads.of_suffix hs a.item (by rw [hplan]; rfl)
  have hbasis := (hr.1.commit_based hs).2.1
  have hpending : a.item.status = .pendingApproval := by
    rw [hplan] at hbasis
    generalize c.request = req at hbasis
    cases hbasis with
    | acceptance _ _ _ pending => exact pending
    | other _ _ nothing => exact Bool.noConfusion nothing
  rw [Steps, hpending] at hsteps
  exact ⟨g, hg.mono ((asOf_suffix _ _).trans (suffix_of_cons hs)).subset, hkept.id, hsteps.1⟩

/-- What a claim of a registration has found: the approval of this registration, for this node and
this enrollment, whose report token it discloses. -/
theorem claim_approval {s : Office} {r n : ℕ} {request : Request} {k : RegistrationClaim}
    (hI : Accounted P random s)
    (hA : Claims P r s (.working request (.ready (.claimRegistration k)) n)) :
    (∃ a, Occurs (.accept a) s.log ∧ a.item.id = k.item.id ∧ a.inputs.nodeId = k.node.id ∧
      a.inputs.enrollmentId = k.enrollment.id) ∧
    ∀ a, Occurs (.accept a) s.log → a.item.id = k.item.id →
      a.inputs.enrollmentId = k.enrollment.id →
      reportHash P a = P.enrollmentHash k.reportToken := by
  obtain ⟨⟨⟨-, -, hbasis, -⟩, htrail⟩, -, -, hheld⟩ := hA
  obtain ⟨hr, hl⟩ := hI
  have hloaded := hheld k.enrollment (by simp [held])
  have hitem := (htrail k.item rfl).mono (asOf_suffix n s.log).subset
  obtain ⟨g, hg, hkept, hsteps⟩ := hitem
  cases hbasis with
  | claim requestId authorization i _ own approved node known source inTime challenge signature
      enrolled unused token =>
    rw [Steps, approved] at hsteps
    obtain ⟨htoken, a, ha, haid, hnode, -⟩ := hsteps
    have hnodeId : a.inputs.nodeId = k.node.id := by
      rcases hnode with h | h
      · exact (Option.some.inj (node.symm.trans h)).symm
      · exact absurd (node.symm.trans h) (Option.some_ne_none _)
    refine ⟨⟨a, ha, haid, hnodeId, ?_⟩, fun a' ha' haid' henrollment => ?_⟩
    · -- the node has one enrollment
      obtain ⟨e, he, heid, henode, -⟩ := hl.approvals a ha
      obtain ⟨x, hx, hxid, hxnode⟩ := hloaded.present
      rw [← heid, ← hxid]
      refine hl.single e he x hx ?_
      rw [henode, hnodeId, hxnode, enrolled]
    · obtain ⟨g', hg', hid', htoken'⟩ := acceptance_token hr ha'
      have hsame : g' = g := created_eq hr hg' hg (by rw [← hid', haid', hkept.id])
      rw [reportHash, token, derivedReportToken, derivedReportToken, henrollment, htoken', hsame,
        htoken]
  | other _ _ nothing => exact Bool.noConfusion nothing

/-- **A commit discloses rightfully exactly if it finds the enrollment unrevoked.** -/
theorem unrevoked_iff_rightful (hinj : Function.Injective P.enrollmentHash)
    (hsafe : ∀ d, random d = true → urlSafe d = true) (r : ℕ) (s : Office) (request : Request)
    (plan : Plan) (n : ℕ) (db : Db) (answer : Answer) (hI : Accounted P random s)
    (hA : Claims P r s (.working request (.ready plan) n))
    (hattempt : plan.attempt P s.db = .ok (db, answer)) :
    Unrevoked P s request plan ↔ Rightful ⟨r, request, plan, n, s.db, db, answer⟩ s.log := by
  have hcommit := Plan.attempt_eq_ok P hattempt
  cases plan with
  | claimEnrollment k =>
    refine iff_of_true (fun _ h => by simp at h) ⟨?_, fun _ h => by simp at h⟩
    rintro _ ⟨⟩
    have hcommits : Commits P random s r n request (.claimEnrollment k) db answer :=
      ⟨hI.1.1, hA.1.1, hA.2, hcommit⟩
    obtain ⟨e, he, -, hid, hhash, hvalid, -⟩ := hcommits.claim_taken hinj hI.2
    refine ⟨hid ▸ hvalid, fun x hx hraw => ?_⟩
    obtain ⟨id, secret, hsecret, hdrew, hrows⟩ := hI.2.spent x hx k.raw hraw
    obtain ⟨y, hy, hissued⟩ := hvalid.exists_mem
    obtain ⟨secret', hsecret', hdrew'⟩ := drew_of_issued hy hissued
    obtain ⟨heid, -⟩ := rawToken_inj (hsafe _ (drew_random hI.1.1 hdrew'))
      (hsafe _ (drew_random hI.1.1 hdrew)) (hsecret'.symm.trans hsecret)
    exact hrows e he heid hhash
  | claimRegistration k =>
    obtain ⟨⟨a, ha, haid, hnode, henrollment⟩, hreport⟩ := claim_approval hI hA
    constructor
    · refine fun hunrevoked => ⟨fun _ h => by simp at h, ?_⟩
      rintro _ ⟨⟩
      refine ⟨⟨a, haid, hnode, henrollment, ?_⟩, fun x hx hmilestone => ?_⟩
      · obtain ⟨e, he, heid, -, -, hnot⟩ := hI.2.approvals a ha
        by_contra hout
        refine hnot hout ?_
        rw [hreport a ha haid henrollment]
        exact hunrevoked k rfl e he (heid.trans henrollment)
      · have hstage : stageOf (.claimRegistration k) = some (k.item.id, 3) := rfl
        obtain ⟨y, hy, hyid, hlevel⟩ := taken_row hcommit hstage (by decide)
        exact absurd ((hI.1.2.reached x hx _ _ hmilestone).2 y hy hyid) (not_le.mpr hlevel)
    · rintro hrightful _ ⟨⟩ e he heid
      obtain ⟨a', haid', -, henrollment', hforce⟩ := (hrightful.registration k rfl).inForce
      have ha' : Occurs (.accept a') s.log := by
        obtain ⟨x, hx, happroves⟩ := Stands.exists_mem hforce
        cases x with
        | committed c => exact ⟨c, hx, happroves⟩
        | _ => exact happroves.elim
      obtain ⟨x, hx, hxid, -, hin, -⟩ := hI.2.approvals a' ha'
      obtain rfl : x = e := Table.eq_of_key hx he (hxid.trans (henrollment'.trans heid.symm))
      rw [(hin hforce).2, hreport a' ha' haid' henrollment']
  | _ =>
    refine iff_of_true (fun _ h => by simp at h) ⟨fun _ h => by simp at h, fun _ h => by simp at h⟩

theorem accounted_start : Holds (Accounted P random) (Claims P) (start Db.empty) := by
  have hstart : Holds (Recorded P random) (Follows P) (start Db.empty) := recorded_start
  obtain ⟨hrecorded, hfollows⟩ := hstart
  refine ⟨⟨hrecorded, ?_⟩, fun r => ⟨hfollows r, trivial⟩⟩
  constructor
  case approvals =>
    rintro a ⟨c, hc, -⟩
    exact absurd hc List.not_mem_nil
  all_goals exact fun _ h => absurd h List.not_mem_nil

/-- **The secret of a node is disclosed rightfully exactly as long as every claim of a registration
finds its report token in the enrollment**, in every interleaving of the requests. -/
theorem rightful_iff (P : Primitives) (random : String → Bool)
    (hinj : Function.Injective P.enrollmentHash) (hsafe : ∀ d, random d = true → urlSafe d = true)
    (hdigest : ∀ message, random (P.keyedDigest message) = false) (as : List (ℕ × Move))
    {t : Crew Office Stage}
    (hr : run (step (act P (admits random))) (start Db.empty) as = some t) :
    Along (step (act P (admits random))) (Meets P (Unrevoked P)) (start Db.empty) as ↔
      Visits (step (act P (admits random))) (fun c => Every (committed Rightful) c.shared.log)
        (start Db.empty) as :=
  meets_iff_every (I := Accounted P random) (A := Claims P) (claims_local hinj hsafe hdigest)
    claims_stable (unrevoked_iff_rightful hinj hsafe) as accounted_start trivial hr

/-- A machine registers, proves its key and is accepted, and its host claims. -/
def claimed : List (ℕ × Move) :=
  [(0, .begin (registers "r" 0)), (0, .proceed), (1, .begin (proves "r" 1)), (1, .proceed),
    (2, .begin (accepts "r" 1 2)), (2, .proceed), (3, .begin (claims "r" 3)), (3, .proceed),
    (3, .proceed)]

theorem sample_undrawn (message : String) : urlSafe (sample.keyedDigest message) = false := by
  simp [sample, urlSafe]

theorem rightful_iff_claimed : ∃ t,
    run (step (act sample (admits urlSafe))) (start Db.empty) claimed = some t ∧
      (∃ e ∈ t.shared.log, milestone e = some ("r", 3)) ∧
      (Along (step (act sample (admits urlSafe))) (Meets sample (Unrevoked sample))
          (start Db.empty) claimed ↔
        Visits (step (act sample (admits urlSafe)))
          (fun c => Every (committed Rightful) c.shared.log) (start Db.empty) claimed) := by
  have hlog : ((run (step (act sample (admits urlSafe))) (start Db.empty) claimed).any fun t =>
      t.shared.log.any fun e => milestone e == some ("r", 3)) = true := by decide +kernel
  obtain ⟨t, ht, hlog⟩ := (Option.any_eq_true _ _).mp hlog
  refine ⟨t, ht, by simpa using hlog, ?_⟩
  exact rightful_iff sample urlSafe (fun _ _ h => (String.append_right_inj "#").mp h) (fun _ h => h)
    sample_undrawn claimed ht

/-- A machine has been accepted. An administrator revokes its enrollment and issues a new token,
with which another host claims; then the machine claims by its key. -/
def crossed : List (ℕ × Move) :=
  claimed.take 6 ++
    [(3, .begin (.revokeEdgeEnrollment "enrollment" "revoked" 3)), (3, .proceed),
      (4, .begin (.regenerateEdgeEnrollment "enrollment"
        { tokenSecret := "renewed", expiresFrom := 4, updatedAt := 4, repliedAt := 4 })),
      (4, .proceed),
      (5, .begin (.claimEdgeEnrollment (some "Enrollment enrollment.renewed")
        { nodeName := "edge-a", publicIpv4 := "8.8.8.8", agentVersion := "1" }
        { sourceIp := some "8.8.8.8", now := 5, package := .ok ("sha256", "route"),
          fresh := "used", reportSecret := "report" })),
      (5, .proceed),
      (6, .begin (claims "r" 6)), (6, .proceed), (6, .proceed)]

/-- The enrollment of an approval. -/
def accepting : Plan → Option String
  | .accept a => some a.inputs.enrollmentId
  | _ => none

/-- An approval that gives a node this enrollment is in force. -/
def standing (enrollmentId : String) : List Event → Bool
  | [] => false
  | .committed c :: older =>
    accepting c.plan == some enrollmentId ||
      withdraws c.request != some enrollmentId && standing enrollmentId older
  | _ :: older => standing enrollmentId older

theorem standing_of_inForce {a : Acceptance} {log : List Event} (h : InForce a log) :
    standing a.inputs.enrollmentId log = true := by
  induction log with
  | nil => exact h.elim
  | cons e older ih =>
    cases e with
    | committed c =>
      rw [standing, Bool.or_eq_true, Bool.and_eq_true, bne_iff_ne, beq_iff_eq]
      refine h.imp (fun hplan => ?_) fun hspared => ⟨hspared.1, ih hspared.2⟩
      rw [show c.plan = .accept a from hplan]
      rfl
    | _ =>
      rcases h with h | h
      · exact h.elim
      · exact ih h.2

/-- The last commit claims a registration whose approval is not in force. -/
def unrightful : List Event → Bool
  | .committed c :: older =>
    match c.plan with
    | .claimRegistration k => !standing k.enrollment.id older
    | _ => false
  | _ => false

theorem not_rightful {log : List Event} (h : unrightful log = true) :
    ¬ Every (committed Rightful) log := by
  unfold unrightful at h
  split at h
  · next c older =>
    split at h
    · next k hplan =>
      rintro ⟨hrightful, -⟩
      obtain ⟨a, -, -, henrollment, hforce⟩ := (hrightful.registration k hplan).inForce
      rw [← henrollment, standing_of_inForce hforce] at h
      exact Bool.noConfusion h
    · exact Bool.noConfusion h
  · exact Bool.noConfusion h

/-- The machine gets the secret by an approval from before the revocation. -/
theorem claim_after_regenerate : ∃ t,
    run (step (act sample (admits urlSafe))) (start Db.empty) crossed = some t ∧
      ¬ Every (committed Rightful) t.shared.log := by
  have hlog : ((run (step (act sample (admits urlSafe))) (start Db.empty) crossed).any fun t =>
      unrightful t.shared.log) = true := by decide +kernel
  obtain ⟨t, ht, hlog⟩ := (Option.any_eq_true _ _).mp hlog
  exact ⟨t, ht, not_rightful hlog⟩

end IdenGrid.Control.Disclosures
