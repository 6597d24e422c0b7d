import IdenGrid.Lib.Fields
import IdenGrid.Edge.Register
import IdenGrid.Control.Fleet
import IdenGrid.Control.Provenance

/-! # Registrations are authenticated

A claim of an approved registration discloses the configuration of its node. `authenticated`: it does
so only at the end of a chain of commits, each of which was there when the next request began
(`ClaimOf`, `AcceptanceOf`, `ProofOf`): the proof, the approval and the claim of one registration,
with the signatures of the registered key from the registered address, in time. A challenge is
consumed once, no signature serves two purposes or two registrations, and the messages are those
that the client signs. SHA-256, HMAC and Ed25519 are taken as ideal (`Ideal`, `Unforged`,
`Bound`). -/

namespace IdenGrid.Control.Authentication

open IdenGrid.Lib.Run IdenGrid.Lib.Store IdenGrid.Lib.Requests IdenGrid.Lib.History
open IdenGrid.Lib.Fields
open IdenGrid.Control.Rows
open IdenGrid.Control.Monitor hiding Db
open IdenGrid.Control.Registry IdenGrid.Control.NodeAdmin IdenGrid.Control.Enrollments
open IdenGrid.Control.Registrations IdenGrid.Control.Handlers IdenGrid.Control.Registrar
open IdenGrid.Control.Origins IdenGrid.Control.Provenance
open IdenGrid.Control.Fleet hiding step
open IdenGrid.Edge.Register

/-! ## What is assumed -/

/-- Digests have no collisions. -/
structure Ideal (P : Primitives) : Prop where
  enrollmentHash : Function.Injective P.enrollmentHash
  keyedDigest : Function.Injective P.keyedDigest

/-- The signature that a request brings. -/
def signatureOf : Request → Option String
  | .proveNodeRegistration _ body _ _ _ => some body.signature
  | .claimApprovedNodeRegistration _ body _ _ => some body.signature
  | _ => none

/-- Whoever brings a signature has it from the holder of the key. -/
def Unforged (P : Primitives) : Event → List Event → Prop
  | .began _ request, older => ∀ signature, signatureOf request = some signature →
      ∀ pem message, P.verify pem signature message = true → .signed pem message ∈ older
  | _, _ => True

/-- Of the messages that a key has signed, a signature is one of one. -/
def Bound (P : Primitives) (log : List Event) : Prop :=
  ∀ pem signature m m', .signed pem m ∈ log → .signed pem m' ∈ log →
    P.verify pem signature m = true → P.verify pem signature m' = true → m = m'

/-! ## The chain -/

variable (P : Primitives) (g : RegistrationCreation)

/-- The commit is the proof of the registration `g`: its key has signed the challenge of `g`, and
the signature has come from the address of `g` before the deadline. -/
structure ProofOf (c : Commit) (older : List Event) (p : Proof) : Prop where
  plan : c.plan = .prove p
  registration : p.item.id = g.item.id
  request : ∃ authorization, c.request = .proveNodeRegistration g.item.id p.body authorization
    (some g.item.actualPublicIpv4) p.now
  challenge : p.body.challenge = g.challenge
  verified : P.verify g.item.publicKeyPem p.body.signature
    (serverMessage proofPurpose g.challenge g.item) = true
  signed : .signed g.item.publicKeyPem (serverMessage proofPurpose g.challenge g.item) ∈
    asOf c.since older
  inTime : p.now < g.item.challengeExpiresAt
  created : Occurs (.register g) (asOf c.since older)

/-- The commit is the approval of `g` for the address of `g`, after the proof. -/
structure AcceptanceOf (c : Commit) (older : List Event) (a : Acceptance) : Prop where
  plan : c.plan = .accept a
  registration : a.item.id = g.item.id
  request : c.request = .acceptNodeRegistration g.item.id a.body a.inputs
  address : a.body.expectedPublicIpv4 = g.item.actualPublicIpv4
  claimChallenge : registrationClaimChallenge P a.item = registrationClaimChallenge P g.item
  proof : ∃ c' before p, .committed c' :: before <:+ asOf c.since older ∧ ProofOf P g c' before p

/-- The commit is the claim of `g`: its key has signed the claim challenge of `g`, and the signature
has come from the address of `g`, after the approval and before the deadline that it has set. The
node is that of the approval. -/
structure ClaimOf (c : Commit) (older : List Event) (k : RegistrationClaim) : Prop where
  plan : c.plan = .claimRegistration k
  registration : k.item.id = g.item.id
  request : ∃ authorization i, c.request = .claimApprovedNodeRegistration g.item.id k.body
    authorization i ∧ i.sourceIp = some g.item.actualPublicIpv4
  challenge : k.body.challenge = registrationClaimChallenge P g.item
  verified : P.verify g.item.publicKeyPem k.body.signature
    (serverMessage claimPurpose (registrationClaimChallenge P g.item) g.item) = true
  signed : .signed g.item.publicKeyPem
    (serverMessage claimPurpose (registrationClaimChallenge P g.item) g.item) ∈ asOf c.since older
  acceptance : ∃ c' before a, .committed c' :: before <:+ asOf c.since older ∧
    AcceptanceOf P g c' before a ∧ k.now < a.inputs.now + minutes 15 ∧ k.node.id = a.inputs.nodeId

variable {P g} {random : String → Bool} {s : Office}

/-- The signature of a request that has committed was made before it began. -/
theorem signed_before (ho : Orderly P random s.log) (hu : Every (Unforged P) s.log) {c : Commit}
    {older : List Event} (hs : .committed c :: older <:+ s.log) {signature pem message : String}
    (hsig : signatureOf c.request = some signature)
    (hverify : P.verify pem signature message = true) :
    .signed pem message ∈ asOf c.since older := by
  have hbegan := (ho.commit_based hs).1.trans (suffix_of_cons hs)
  exact hu.of_suffix hbegan signature hsig pem message hverify

/-- What a registration has been created with. -/
theorem created_basis (ho : Orderly P random s.log) (h : Occurs (.register g) s.log) :
    ∃ c body i, .committed c ∈ s.log ∧ c.plan = .register g ∧
      c.request = .createNodeRegistration body i ∧ g.challenge = i.challenge ∧
      g.item.id = i.requestId ∧ g.tokenSecret = i.tokenSecret ∧
      g.item.machineFingerprint = body.machineFingerprint ∧
      g.item.actualPublicIpv4 = body.publicIpv4 ∧
      g.item.challengeHash = some (P.enrollmentHash g.challenge) := by
  obtain ⟨c, hc, hplan⟩ := h
  obtain ⟨older, hs⟩ := exists_suffix hc
  have hbasis := (ho.commit_based hs).2.1
  rw [hplan] at hbasis
  generalize hreq : c.request = req at hbasis
  cases hbasis with
  | registration body i _ made =>
    obtain ⟨pem, fingerprint, -, -, rfl⟩ := createNodeRegistration_eq_ok made
    exact ⟨c, body, i, hc, hplan, hreq, rfl, rfl, rfl, rfl, rfl, rfl⟩
  | other _ _ nothing => exact Bool.noConfusion nothing

theorem challenge_of_matches {body : SignedBody} {item : RegistrationRow} {challenge : String}
    (hinj : Function.Injective P.enrollmentHash) (h : challengeMatches P body item = true)
    (hitem : item.challengeHash = some (P.enrollmentHash challenge)) :
    body.challenge = challenge := by
  simp only [challengeMatches, Bool.and_eq_true, beq_iff_eq] at h
  rw [hitem] at h
  exact (hinj (Option.some.inj h.1)).symm

theorem verify_of_valid {purpose challenge signature : String} {item : RegistrationRow}
    (h : signatureValid P purpose challenge signature item = true) :
    P.verify item.publicKeyPem signature (serverMessage purpose challenge item) = true := by
  unfold signatureValid at h
  split at h
  · exact h
  · exact absurd h Bool.false_ne_true

/-- **Every proof that goes through is one of a registration.** -/
theorem proofOf (hi : Ideal P) (hr : Recorded P random s) (hu : Every (Unforged P) s.log)
    {c : Commit} {older : List Event} (hs : .committed c :: older <:+ s.log) {p : Proof}
    (hplan : c.plan = .prove p) : ∃ g, ProofOf P g c older p := by
  obtain ⟨-, hbasis, -⟩ := hr.1.commit_based hs
  have htrail := hr.2.loads.of_suffix hs p.item (by rw [hplan]; rfl)
  obtain ⟨g, hg, hkept, hsteps⟩ := htrail
  have hlog : asOf c.since older ⊆ s.log :=
    ((asOf_suffix c.since older).trans (suffix_of_cons hs)).subset
  obtain ⟨-, -, -, -, -, -, -, -, -, -, -, hhash⟩ := created_basis hr.1 (hg.mono hlog)
  rw [hplan] at hbasis
  generalize hreq : c.request = req at hbasis
  cases hbasis with
  | proof requestId authorization _ own pending source inTime challenge signature =>
    rw [Steps, pending] at hsteps
    obtain ⟨-, -, hchallenge, hdue⟩ := hsteps
    have hsame := challenge_of_matches hi.enrollmentHash challenge (hchallenge.trans hhash)
    have hverified := verify_of_valid signature
    rw [hkept.publicKeyPem, hkept.serverMessage_eq, hsame] at hverified
    refine ⟨g, hplan, hkept.id, ⟨authorization, ?_⟩, hsame, hverified, ?_, ?_, hg⟩
    · rw [hreq, ← own, hkept.id, source, hkept.actualPublicIpv4]
    · exact signed_before hr.1 hu hs (by rw [hreq]; rfl) hverified
    · rw [← hdue]
      exact inTime
  | other _ _ nothing => exact Bool.noConfusion nothing

/-- **Every approval that goes through is one of a registration that has been proved.** -/
theorem acceptanceOf (hi : Ideal P) (hr : Recorded P random s) (hu : Every (Unforged P) s.log)
    {c : Commit} {older : List Event} (hs : .committed c :: older <:+ s.log) {a : Acceptance}
    (hplan : c.plan = .accept a) : ∃ g, AcceptanceOf P g c older a := by
  obtain ⟨-, hbasis, -⟩ := hr.1.commit_based hs
  obtain ⟨g, hg, hkept, hsteps⟩ := hr.2.loads.of_suffix hs a.item (by rw [hplan]; rfl)
  have hasOf : asOf c.since older <:+ s.log :=
    (asOf_suffix c.since older).trans (suffix_of_cons hs)
  rw [hplan] at hbasis
  generalize hreq : c.request = req at hbasis
  cases hbasis with
  | acceptance requestId _ own pending address =>
    rw [Steps, pending] at hsteps
    obtain ⟨htoken, -, p, ⟨c', hc', hplan'⟩, hpid, -⟩ := hsteps
    obtain ⟨before, hs'⟩ := exists_suffix hc'
    obtain ⟨g', hproof⟩ := proofOf hi hr hu (hs'.trans hasOf) hplan'
    obtain rfl : g = g' := by
      refine created_eq hr (hg.mono hasOf.subset) (hproof.created.mono ?_) ?_
      · exact ((asOf_suffix _ _).trans (suffix_of_cons (hs'.trans hasOf))).subset
      · rw [← hproof.registration, hpid, hkept.id]
    refine ⟨g, hplan, hkept.id, ?_, address.trans hkept.actualPublicIpv4, ?_, c', before, p, hs',
      hproof⟩
    · rw [hreq, ← own, hkept.id]
    · rw [registrationClaimChallenge, hkept.id, htoken]
      rfl
  | other _ _ nothing => exact Bool.noConfusion nothing

/-- **Every claim that goes through is one of a registration that has been accepted.** -/
theorem claimOf (hi : Ideal P) (hr : Recorded P random s) (hu : Every (Unforged P) s.log)
    {c : Commit} {older : List Event} (hs : .committed c :: older <:+ s.log)
    {k : RegistrationClaim} (hplan : c.plan = .claimRegistration k) :
    ∃ g, ClaimOf P g c older k := by
  obtain ⟨-, hbasis, -⟩ := hr.1.commit_based hs
  obtain ⟨g, hg, hkept, hsteps⟩ := hr.2.loads.of_suffix hs k.item (by rw [hplan]; rfl)
  have hasOf : asOf c.since older <:+ s.log :=
    (asOf_suffix c.since older).trans (suffix_of_cons hs)
  rw [hplan] at hbasis
  generalize hreq : c.request = req at hbasis
  cases hbasis with
  | claim requestId authorization i _ own approved node known source inTime challenge signature =>
    rw [Steps, approved] at hsteps
    obtain ⟨-, a, ⟨c', hc', hplan'⟩, haid, hnode, hchallenge, hdue⟩ := hsteps
    obtain ⟨before, hs'⟩ := exists_suffix hc'
    obtain ⟨g', hacceptance⟩ := acceptanceOf hi hr hu (hs'.trans hasOf) hplan'
    obtain rfl : g = g' := by
      obtain ⟨c'', before', p, hs'', hproof⟩ := hacceptance.proof
      refine created_eq hr (hg.mono hasOf.subset) (hproof.created.mono ?_) ?_
      · have h1 := (asOf_suffix c''.since before').trans (suffix_of_cons hs'')
        have h2 := (asOf_suffix c'.since before).trans (suffix_of_cons (hs'.trans hasOf))
        exact (h1.trans h2).subset
      · rw [← hacceptance.registration, haid, hkept.id]
    rw [hacceptance.claimChallenge] at hchallenge
    have hsame := challenge_of_matches hi.enrollmentHash challenge hchallenge
    have hverified := verify_of_valid signature
    rw [hkept.publicKeyPem, hkept.serverMessage_eq, hsame] at hverified
    refine ⟨g, hplan, hkept.id, ⟨authorization, i, ?_, ?_⟩, hsame, hverified, ?_, c', before, a,
      hs', hacceptance, ?_, ?_⟩
    · rw [hreq, ← own, hkept.id]
    · rw [known, source, hkept.actualPublicIpv4]
    · exact signed_before hr.1 hu hs (by rw [hreq]; rfl) hverified
    · rw [← hdue]
      exact inTime
    · rcases hnode with h | h
      · exact Option.some.inj (node.symm.trans h)
      · exact absurd (node.symm.trans h) (Option.some_ne_none _)
  | other _ _ nothing => exact Bool.noConfusion nothing

/-! ## Challenges and signatures -/

/-- The challenge that a commit consumes, and what for. -/
def consumed : Event → Option (String × String)
  | .committed c =>
    match c.plan with
    | .prove p => some (proofPurpose, p.body.challenge)
    | .claimRegistration k => some (claimPurpose, k.body.challenge)
    | _ => none
  | _ => none

/-- A signature that a commit has accepted. -/
structure Use where
  purpose : String
  registration : String
  publicKeyPem : String
  signature : String
  message : String

def useOf : Plan → Option Use
  | .prove p =>
    some ⟨proofPurpose, p.item.id, p.item.publicKeyPem, p.body.signature,
      serverMessage proofPurpose p.body.challenge p.item⟩
  | .claimRegistration k =>
    some ⟨claimPurpose, k.item.id, k.item.publicKeyPem, k.body.signature,
      serverMessage claimPurpose k.body.challenge k.item⟩
  | _ => none

theorem proofPurpose_line : '\n' ∉ proofPurpose.toList := by decide
theorem claimPurpose_line : '\n' ∉ claimPurpose.toList := by decide

/-- The message of a registration of this identity for this purpose. -/
theorem serverMessage_inj {purpose purpose' challenge challenge' : String}
    {r r' : RegistrationRow} (hp : '\n' ∉ purpose.toList) (hp' : '\n' ∉ purpose'.toList)
    (hid : '\n' ∉ r.id.toList) (hid' : '\n' ∉ r'.id.toList)
    (h : serverMessage purpose challenge r = serverMessage purpose' challenge' r') :
    purpose = purpose' ∧ r.id = r'.id := by
  simp only [serverMessage, signedMessage, String.append_assoc] at h
  obtain ⟨hpurpose, hrest⟩ := field_inj "\n" rfl hp hp' h
  exact ⟨hpurpose, (field_inj "\n" rfl hid hid' hrest).1⟩

/-- The claim challenge of a registration of this identity. -/
theorem claimChallenge_inj {r r' : RegistrationRow} (hi : Ideal P) (hid : ':' ∉ r.id.toList)
    (hid' : ':' ∉ r'.id.toList)
    (h : registrationClaimChallenge P r = registrationClaimChallenge P r') : r.id = r'.id := by
  have hmaterial := hi.keyedDigest h
  simp only [String.append_assoc] at hmaterial
  exact (field_inj ":" rfl hid hid' (String.append_right_inj _ |>.mp hmaterial)).1

/-- The identity of a registration is a random value. -/
theorem id_random (hr : Recorded P random s) (h : Occurs (.register g) s.log) :
    random g.item.id = true := by
  obtain ⟨c, body, i, hc, -, hreq, -, hid, -⟩ := created_basis hr.1 h
  refine hr.1.drawn_random (hr.1.commit_began hc) ?_
  rw [hreq, hid]
  exact List.mem_cons_self

theorem ProofOf.occurs {c : Commit} {older : List Event} {p : Proof} (h : ProofOf P g c older p)
    (hs : .committed c :: older <:+ s.log) : Occurs (.register g) s.log :=
  h.created.mono ((asOf_suffix _ _).trans (suffix_of_cons hs)).subset

theorem AcceptanceOf.occurs {c : Commit} {older : List Event} {a : Acceptance}
    (h : AcceptanceOf P g c older a) (hs : .committed c :: older <:+ s.log) :
    Occurs (.register g) s.log := by
  obtain ⟨c', before, p, hs', hproof⟩ := h.proof
  exact hproof.occurs (hs'.trans ((asOf_suffix _ _).trans (suffix_of_cons hs)))

theorem ClaimOf.occurs {c : Commit} {older : List Event} {k : RegistrationClaim}
    (h : ClaimOf P g c older k) (hs : .committed c :: older <:+ s.log) :
    Occurs (.register g) s.log := by
  obtain ⟨c', before, a, hs', hacceptance, -⟩ := h.acceptance
  exact hacceptance.occurs (hs'.trans ((asOf_suffix _ _).trans (suffix_of_cons hs)))

/-- Two registrations have different challenges. -/
theorem challenge_inj (hr : Recorded P random s) {g g' : RegistrationCreation}
    (h : Occurs (.register g) s.log) (h' : Occurs (.register g') s.log)
    (hchallenge : g.challenge = g'.challenge) : g = g' := by
  obtain ⟨c, body, i, hc, hplan, hreq, hg, -⟩ := created_basis hr.1 h
  obtain ⟨c', body', i', hc', hplan', hreq', hg', -⟩ := created_basis hr.1 h'
  have hdrawn : g.challenge ∈ draws c.request := by rw [hreq, hg]; simp [draws]
  have hdrawn' : g.challenge ∈ draws c'.request := by rw [hreq', hchallenge, hg']; simp [draws]
  obtain rfl := hr.1.commit_eq hc hc' hdrawn hdrawn'
  exact Plan.register.inj (hplan.symm.trans hplan')

/-- **Each challenge is consumed at most once.** -/
theorem consumed_once (hi : Ideal P) (hsafe : ∀ d, random d = true → urlSafe d = true)
    (hr : Recorded P random s) (hu : Every (Unforged P) s.log) : Distinct consumed s.log := by
  refine every_of_suffix fun e older hs b hb x hx hb' => ?_
  -- two commits that consume one challenge take one registration to one stage
  obtain ⟨before, hs'⟩ := exists_suffix (suffix_of_cons hs |>.subset hx)
  have hstage : ∀ key, milestone e = some key → milestone x ≠ some key := fun key hkey =>
    Every.of_suffix (show Every _ s.log from hr.2.milestones) hs key hkey x hx
  cases e with
  | committed c =>
    cases x with
    | committed c' =>
      simp only [consumed] at hb hb'
      split at hb
      · next p hplan =>
        obtain rfl := Option.some.inj hb
        split at hb'
        · next p' hplan' =>
          obtain ⟨g, hproof⟩ := proofOf hi hr hu hs hplan
          obtain ⟨g', hproof'⟩ := proofOf hi hr hu hs' hplan'
          obtain rfl : g' = g := challenge_inj hr (hproof'.occurs hs') (hproof.occurs hs) (by
            rw [← hproof.challenge, ← hproof'.challenge]
            exact (Prod.mk.inj (Option.some.inj hb')).2)
          refine hstage (g'.item.id, 1) ?_ ?_
          · rw [milestone, hplan, stageOf, hproof.registration]
          · rw [milestone, hplan', stageOf, hproof'.registration]
        · exact absurd (Prod.mk.inj (Option.some.inj hb')).1 (by decide)
        · simp at hb'
      · next k hplan =>
        obtain rfl := Option.some.inj hb
        split at hb'
        · exact absurd (Prod.mk.inj (Option.some.inj hb')).1 (by decide)
        · next k' hplan' =>
          obtain ⟨g, hclaim⟩ := claimOf hi hr hu hs hplan
          obtain ⟨g', hclaim'⟩ := claimOf hi hr hu hs' hplan'
          have hcolon : ∀ {g : RegistrationCreation}, Occurs (.register g) s.log →
              ':' ∉ g.item.id.toList := fun h => urlSafe_notMem (hsafe _ (id_random hr h)) (by decide)
          have hid : g'.item.id = g.item.id :=
            claimChallenge_inj hi (hcolon (hclaim'.occurs hs')) (hcolon (hclaim.occurs hs)) (by
              rw [← hclaim.challenge, ← hclaim'.challenge]
              exact (Prod.mk.inj (Option.some.inj hb')).2)
          refine hstage (g.item.id, 3) ?_ ?_
          · rw [milestone, hplan, stageOf, hclaim.registration]
          · rw [milestone, hplan', stageOf, hclaim'.registration, hid]
        · simp at hb'
      · simp at hb
    | _ => simp [consumed] at hb'
  | _ => simp [consumed] at hb

/-- What an accepted signature is for. -/
theorem use_basis (hi : Ideal P) (hsafe : ∀ d, random d = true → urlSafe d = true)
    (hr : Recorded P random s) (hu : Every (Unforged P) s.log) {c : Commit}
    (hc : .committed c ∈ s.log) {u : Use} (h : useOf c.plan = some u) :
    P.verify u.publicKeyPem u.signature u.message = true ∧
      .signed u.publicKeyPem u.message ∈ s.log ∧ '\n' ∉ u.purpose.toList ∧
      '\n' ∉ u.registration.toList ∧ ∃ challenge r, r.id = u.registration ∧
        u.message = serverMessage u.purpose challenge r := by
  obtain ⟨older, hs⟩ := exists_suffix hc
  have hbasis := (hr.1.commit_based hs).2.1
  have hline : ∀ {g : RegistrationCreation}, Occurs (.register g) s.log →
      '\n' ∉ g.item.id.toList := fun h => urlSafe_notMem (hsafe _ (id_random hr h)) (by decide)
  have hlogged : ∀ {e : Event}, e ∈ asOf c.since older → e ∈ s.log := fun he =>
    hs.subset (List.mem_cons_of_mem _ ((asOf_suffix c.since older).subset he))
  unfold useOf at h
  split at h
  · next p hplan =>
    obtain rfl := Option.some.inj h
    obtain ⟨g, hproof⟩ := proofOf hi hr hu hs hplan
    rw [hplan] at hbasis
    generalize hreq : c.request = req at hbasis
    have hboth : signatureOf c.request = some p.body.signature ∧
        signatureValid P proofPurpose p.body.challenge p.body.signature p.item = true := by
      rw [hreq]
      cases hbasis with
      | proof _ _ _ _ _ _ _ _ signature => exact ⟨rfl, signature⟩
      | other _ _ nothing => exact Bool.noConfusion nothing
    obtain ⟨hsig, hvalid⟩ := hboth
    have hsigned := hlogged (signed_before hr.1 hu hs hsig (verify_of_valid hvalid))
    refine ⟨verify_of_valid hvalid, hsigned, proofPurpose_line, ?_, p.body.challenge, p.item, rfl,
      rfl⟩
    rw [hproof.registration]
    exact hline (hproof.occurs hs)
  · next k hplan =>
    obtain rfl := Option.some.inj h
    obtain ⟨g, hclaim⟩ := claimOf hi hr hu hs hplan
    rw [hplan] at hbasis
    generalize hreq : c.request = req at hbasis
    have hboth : signatureOf c.request = some k.body.signature ∧
        signatureValid P claimPurpose k.body.challenge k.body.signature k.item = true := by
      rw [hreq]
      cases hbasis with
      | claim _ _ _ _ _ _ _ _ _ _ _ signature => exact ⟨rfl, signature⟩
      | other _ _ nothing => exact Bool.noConfusion nothing
    obtain ⟨hsig, hvalid⟩ := hboth
    have hsigned := hlogged (signed_before hr.1 hu hs hsig (verify_of_valid hvalid))
    refine ⟨verify_of_valid hvalid, hsigned, claimPurpose_line, ?_, k.body.challenge, k.item, rfl,
      rfl⟩
    rw [hclaim.registration]
    exact hline (hclaim.occurs hs)
  · simp at h

/-- **A signature serves one purpose and one registration.** -/
theorem use_unique (hi : Ideal P) (hsafe : ∀ d, random d = true → urlSafe d = true)
    (hr : Recorded P random s) (hu : Every (Unforged P) s.log) (hb : Bound P s.log) {c c' : Commit}
    (hc : .committed c ∈ s.log) (hc' : .committed c' ∈ s.log) {u u' : Use}
    (h : useOf c.plan = some u) (h' : useOf c'.plan = some u')
    (hsame : u.message = u'.message ∨
      u.publicKeyPem = u'.publicKeyPem ∧ u.signature = u'.signature) :
    u.purpose = u'.purpose ∧ u.registration = u'.registration := by
  obtain ⟨hv, hs, hp, hid, challenge, r, hr1, hm⟩ := use_basis hi hsafe hr hu hc h
  obtain ⟨hv', hs', hp', hid', challenge', r', hr1', hm'⟩ := use_basis hi hsafe hr hu hc' h'
  have hmessage : u.message = u'.message := by
    rcases hsame with hsame | ⟨hkey, hsig⟩
    · exact hsame
    · rw [hkey] at hs
      rw [hkey, hsig] at hv
      exact hb _ _ _ _ hs hs' hv hv'
  rw [hm, hm'] at hmessage
  rw [← hr1] at hid
  rw [← hr1'] at hid'
  obtain ⟨h1, h2⟩ := serverMessage_inj hp hp' hid hid' hmessage
  exact ⟨h1, by rw [← hr1, ← hr1', h2]⟩

/-! ## The protocol -/

/-- The row belongs to a registration whose messages, as the client makes them from its own request
and the answer to it, are those that the server verifies; its proof and its claims are signatures of
them. -/
def Understood (log : List Event) (r : RegistrationRow) : Prop :=
  ∃ c g body i, .committed c ∈ log ∧ c.plan = .register g ∧
    c.request = .createNodeRegistration body i ∧ r.id = g.item.id ∧
    ∀ (session : Session) (pem : String),
      body = createBody session.inventory session.publicIpv4 pem →
      created session.inventory session.publicIpv4 g.item.id g.challenge g.tokenSecret =
        .ok session →
      session.message = serverMessage proofPurpose g.challenge r ∧
        (∀ challenge, session.claimMessage challenge = serverMessage claimPurpose challenge r) ∧
        (∀ sign, session.proof sign =
          ⟨g.challenge, sign (serverMessage proofPurpose g.challenge r)⟩) ∧
        ∀ sign state claimChallenge body, session.poll sign state claimChallenge = .claim body →
          state = .approved ∧ claimChallenge = some body.challenge ∧
            body.signature = sign (serverMessage claimPurpose body.challenge r)

theorem understood (hr : Recorded P random s) {r : RegistrationRow}
    (hmem : r ∈ s.db.registrations.rows) : Understood s.log r := by
  obtain ⟨g, hg, hkept, -⟩ := hr.2.rows r hmem
  obtain ⟨c, body, i, hc, hplan, hreq, -, -, -, hmachine, hip, -⟩ := created_basis hr.1 hg
  refine ⟨c, g, body, i, hc, hplan, hreq, hkept.id, ?_⟩
  rintro session pem rfl hcreated
  have hsession : session.requestId = g.item.id ∧ session.challenge = g.challenge := by
    unfold created at hcreated
    split_ifs at hcreated
    have := Except.ok.inj hcreated
    rw [← this]
    exact ⟨rfl, rfl⟩
  rw [← hsession.2]
  have hmessages : session.message = serverMessage proofPurpose session.challenge r ∧
      ∀ challenge, session.claimMessage challenge = serverMessage claimPurpose challenge r := by
    refine Session.messages_eq ?_ ?_ ?_
    · rw [hkept.id, hsession.1]
    · rw [hkept.actualPublicIpv4, hip]
      rfl
    · rw [hkept.machineFingerprint, hmachine]
      rfl
  refine ⟨hmessages.1, hmessages.2, fun sign => ?_, fun sign state claimChallenge body hpoll => ?_⟩
  · rw [Session.proof, hmessages.1]
  · obtain ⟨hstate, hchallenge, hsignature⟩ := Session.poll_claim hpoll
    exact ⟨hstate, hchallenge, by rw [hsignature, hmessages.2]⟩

/-- **Registrations are authenticated**, in every interleaving of all requests: a claim completes a
chain of proof, approval and claim; each challenge is consumed once; an accepted signature serves
one purpose and one registration; and client and server mean the same messages. -/
theorem authenticated (P : Primitives) (random : String → Bool) (hi : Ideal P)
    (hsafe : ∀ d, random d = true → urlSafe d = true) (as : List (ℕ × Move))
    {t : Crew Office Stage}
    (hr : run (step (act P (fresh random))) (start Db.empty) as = some t)
    (hu : Every (Unforged P) t.shared.log) (hb : Bound P t.shared.log) :
    Every (committed fun c older => ∀ k, c.plan = .claimRegistration k →
        ∃ g, ClaimOf P g c older k) t.shared.log ∧
      Distinct consumed t.shared.log ∧
      (∀ c c' u u', .committed c ∈ t.shared.log → .committed c' ∈ t.shared.log →
        useOf c.plan = some u → useOf c'.plan = some u' →
        (u.message = u'.message ∨ u.publicKeyPem = u'.publicKeyPem ∧ u.signature = u'.signature) →
        u.purpose = u'.purpose ∧ u.registration = u'.registration) ∧
      ∀ r ∈ t.shared.db.registrations.rows, Understood t.shared.log r := by
  have hrecorded := recorded_of_run hr
  refine ⟨every_of_suffix fun e older hs => ?_, consumed_once hi hsafe hrecorded hu,
    fun c c' u u' hc hc' h h' => use_unique hi hsafe hrecorded hu hb hc hc' h h',
    fun r hmem => understood hrecorded hmem⟩
  cases e with
  | committed c => exact fun k hplan => claimOf hi hrecorded hu hs hplan
  | _ => trivial

/-- The claim challenge of the sample registration. -/
def sampleClaimChallenge : String :=
  sample.keyedDigest ("node-claim-challenge-v1:" ++ "r" ++ ":" ++
    sample.enrollmentHash (rawToken "r" "token"))

/-- A machine registers, signs and proves, is accepted, signs and claims. -/
def enrolled : List (ℕ × Move) :=
  [(0, .begin (registers "r" 0)), (0, .proceed),
    (1, .sign "key" (signedMessage proofPurpose "r" "challenge-r" "8.8.8.8" "machine")),
    (1, .begin (proves "r" 1)), (1, .proceed), (2, .begin (accepts "r" 1 2)), (2, .proceed),
    (3, .sign "key" (signedMessage claimPurpose "r" sampleClaimChallenge "8.8.8.8" "machine")),
    (3, .begin (claims "r" 3)), (3, .proceed), (3, .proceed)]

theorem sample_ideal : Ideal sample where
  enrollmentHash _ _ h := (String.append_right_inj "#").mp h
  keyedDigest _ _ h := (String.append_right_inj "mac:").mp h

theorem sample_bound (log : List Event) : Bound sample log := by
  intro pem signature m m' _ _ h h'
  simp only [sample, Bool.and_eq_true, beq_iff_eq] at h h'
  exact (String.append_right_inj "sig:").mp (h.2.symm.trans h'.2)

/-- The signature of every request in the log has been made before, by the sample key. -/
def signedInTime : List Event → Bool
  | [] => true
  | .began _ request :: older =>
    (match signatureOf request with
      | some signature => older.any fun e =>
          match e with
          | .signed pem message => pem == "key" && signature == "sig:" ++ message
          | _ => false
      | none => true) && signedInTime older
  | _ :: older => signedInTime older

theorem unforged_of_signedInTime {log : List Event} (h : signedInTime log = true) :
    Every (Unforged sample) log := by
  induction log with
  | nil => trivial
  | cons e older ih =>
    cases e with
    | began r request =>
      simp only [signedInTime, Bool.and_eq_true] at h
      refine ⟨fun signature hsig pem message hverify => ?_, ih h.2⟩
      rw [hsig] at h
      obtain ⟨x, hx, hmade⟩ := List.any_eq_true.mp h.1
      cases x with
      | signed pem' message' =>
        simp only [Bool.and_eq_true, beq_iff_eq] at hmade
        simp only [sample, Bool.and_eq_true, beq_iff_eq] at hverify
        rw [hverify.1, ← hmade.1]
        rw [hmade.2] at hverify
        rwa [← (String.append_right_inj "sig:").mp hverify.2]
      | _ => exact Bool.noConfusion hmade
    | _ => exact ⟨trivial, ih h⟩

theorem authenticated_enrolled : ∃ t,
    run (step (act sample (fresh urlSafe))) (start Db.empty) enrolled = some t ∧
      (∃ e ∈ t.shared.log, milestone e = some ("r", 3)) ∧
      Every (committed fun c older => ∀ k, c.plan = .claimRegistration k →
        ∃ g, ClaimOf sample g c older k) t.shared.log := by
  obtain ⟨t, ht⟩ : ∃ t, run (step (act sample (fresh urlSafe))) (start Db.empty) enrolled =
      some t := Option.isSome_iff_exists.mp (by decide +kernel)
  have hlog : ((run (step (act sample (fresh urlSafe))) (start Db.empty) enrolled).any fun t =>
      signedInTime t.shared.log && t.shared.log.any fun e => milestone e == some ("r", 3)) =
        true := by decide +kernel
  rw [ht, Option.any_some, Bool.and_eq_true] at hlog
  obtain ⟨hsigned, hclaimed⟩ := hlog
  have hu := unforged_of_signedInTime hsigned
  have hauthentic := authenticated sample urlSafe sample_ideal (fun _ h => h) enrolled ht hu
    (sample_bound _)
  exact ⟨t, ht, by simpa using hclaimed, hauthentic.1⟩

end IdenGrid.Control.Authentication
