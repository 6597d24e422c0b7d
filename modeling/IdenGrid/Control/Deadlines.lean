import IdenGrid.Control.Fleet
import IdenGrid.Control.Provenance

/-! # Deadlines of registrations

One column holds the deadline of a registration in all its phases. The proof and the claim compare
it with their clock; the approval does not, and leaves it to the list request to expire an overdue
row. `inTime_iff`: all three succeed before the deadline of the row that they find, exactly if each
approval has read its row before the deadline. A proof and a claim are always in time: a row keeps
its deadline as long as it keeps its stage (`Trail.deadline_eq`). -/

namespace IdenGrid.Control.Deadlines

open IdenGrid.Lib.Run IdenGrid.Lib.Store IdenGrid.Lib.Requests IdenGrid.Lib.History
open IdenGrid.Control.Rows
open IdenGrid.Control.Registry IdenGrid.Control.NodeAdmin IdenGrid.Control.Enrollments
open IdenGrid.Control.Registrations IdenGrid.Control.Handlers IdenGrid.Control.Registrar
open IdenGrid.Control.Origins IdenGrid.Control.Provenance
open IdenGrid.Control.Fleet hiding step

/-- The registration that a proof, an approval or a claim is about, and the reading of its clock. -/
def clocked : Plan → Option (String × ℕ)
  | .prove p => some (p.item.id, p.now)
  | .accept a => some (a.item.id, a.inputs.now)
  | .claimRegistration k => some (k.item.id, k.now)
  | _ => none

/-- A commit is made before the deadline of the row that it finds. -/
def InTime (c : Commit) (_ : List Event) : Prop :=
  ∀ id now, clocked c.plan = some (id, now) →
    ∀ r ∈ c.found.registrations.rows, r.id = id → now < r.challengeExpiresAt

/-- An approval has read its row before the deadline. -/
def Early (_ : Office) (_ : Request) (plan : Plan) : Prop :=
  ∀ a, plan = .accept a → a.inputs.now < a.item.challengeExpiresAt

variable {P : Primitives} {random : String → Bool}

/-- **The deadline of a registration that keeps its stage is the same.** -/
theorem deadline_eq {log : List Event} (h : Distinct milestone log) {r r' : RegistrationRow}
    (hr : Trail P log r) (hr' : Trail P log r') (hid : r.id = r'.id) (hstatus : r.status = r'.status)
    (hlevel : level r.status < 3) : r.challengeExpiresAt = r'.challengeExpiresAt := by
  obtain ⟨g, hg, hkept, hsteps⟩ := hr
  obtain ⟨g', hg', hkept', hsteps'⟩ := hr'
  unfold Steps at hsteps hsteps'
  rw [← hstatus] at hsteps'
  split at hsteps
  · next hs =>
    rw [hs] at hsteps'
    have hkey : stageOf (.register g') = some (g.item.id, 0) := by
      rw [stageOf, ← hkept'.id, ← hid, hkept.id]
    obtain rfl := Plan.register.inj (hg.eq h hg' rfl hkey)
    exact hsteps.2.2.2.trans hsteps'.2.2.2.symm
  · next hs =>
    rw [hs] at hsteps'
    obtain ⟨-, -, p, hp, hpid, hpdue⟩ := hsteps
    obtain ⟨-, -, p', hp', hpid', hpdue'⟩ := hsteps'
    have hkey : stageOf (.prove p') = some (p.item.id, 1) := by
      rw [stageOf, hpid', ← hid, hpid]
    obtain rfl := Plan.prove.inj (hp.eq h hp' rfl hkey)
    exact hpdue.trans hpdue'.symm
  · next hs =>
    rw [hs] at hsteps'
    obtain ⟨-, a, ha, haid, -, -, hadue⟩ := hsteps
    obtain ⟨-, a', ha', haid', -, -, hadue'⟩ := hsteps'
    have hkey : stageOf (.accept a') = some (a.item.id, 2) := by
      rw [stageOf, haid', ← hid, haid]
    obtain rfl := Plan.accept.inj (ha.eq h ha' rfl hkey)
    exact hadue.trans hadue'.symm
  · next h1 h2 h3 =>
    cases hs : r.status <;> rw [hs] at hlevel <;>
      first | exact absurd hs h1 | exact absurd hs h2 | exact absurd hs h3 |
        exact absurd hlevel (by decide)

/-- The row that a commit takes has the deadline of the row that its request has read. -/
theorem found_deadline {r : ℕ} {s : Office} {request : Request} {plan : Plan} {n : ℕ}
    (hI : Recorded P random s) (hA : Follows P r s (.working request (.ready plan) n))
    {item x : RegistrationRow} (hitem : loaded (.ready plan) = some item)
    (hx : x ∈ s.db.registrations.rows) (hid : x.id = item.id) (hstatus : x.status = item.status)
    (hlevel : level item.status < 3) : x.challengeExpiresAt = item.challengeExpiresAt :=
  deadline_eq hI.2.milestones (hI.2.rows x hx)
    ((hA.2 item hitem).mono (asOf_suffix n s.log).subset) hid hstatus (by rwa [hstatus])

/-- **A commit is in time exactly if it is early.** -/
theorem early_iff_inTime (r : ℕ) (s : Office) (request : Request) (plan : Plan) (n : ℕ) (db : Db)
    (answer : Answer) (hI : Recorded P random s)
    (hA : Follows P r s (.working request (.ready plan) n))
    (hattempt : plan.attempt P s.db = .ok (db, answer)) :
    Early s request plan ↔ InTime ⟨r, request, plan, n, s.db, db, answer⟩ s.log := by
  have htaken := target_taken (Plan.attempt_eq_ok P hattempt)
  obtain ⟨-, -, hbasis, -⟩ := hA.1
  cases plan with
  | prove p =>
    refine iff_of_true (fun _ h => by simp at h) ?_
    rintro _ _ ⟨⟩ x hx hid
    obtain ⟨-, hstatus, -⟩ := Proof.takes_iff.mp
      (takes_of_count (fun x hx => (Proof.takes_iff.mp hx).1) htaken hx hid)
    cases hbasis with
    | proof _ _ _ own pending source inTime =>
      rw [found_deadline hI hA rfl hx hid (hstatus.trans pending.symm) (by rw [pending]; decide)]
      exact inTime
    | other _ _ nothing => exact Bool.noConfusion nothing
  | accept a =>
    cases hbasis with
    | acceptance _ _ own pending =>
      have hdue : ∀ x ∈ s.db.registrations.rows, x.id = a.item.id →
          x.challengeExpiresAt = a.item.challengeExpiresAt := by
        intro x hx hid
        obtain ⟨-, hstatus, -⟩ := Acceptance.takes_iff.mp
          (takes_of_count (fun x hx => (Acceptance.takes_iff.mp hx).1) htaken hx hid)
        exact found_deadline hI hA rfl hx hid (hstatus.trans pending.symm) (by rw [pending]; decide)
      constructor
      · rintro hearly _ _ ⟨⟩ x hx hid
        rw [hdue x hx hid]
        exact hearly a rfl
      · rintro htime _ ⟨⟩
        obtain ⟨x, hx, htakes⟩ := List.countP_pos_iff.mp (htaken.symm ▸ Nat.one_pos)
        have hid := (Acceptance.takes_iff.mp htakes).1
        rw [← hdue x hx hid]
        exact htime a.item.id a.inputs.now rfl x hx hid
    | other _ _ nothing => exact Bool.noConfusion nothing
  | claimRegistration k =>
    refine iff_of_true (fun _ h => by simp at h) ?_
    rintro _ _ ⟨⟩ x hx hid
    obtain ⟨-, hstatus, -⟩ := RegistrationClaim.takes_iff.mp
      (takes_of_count (fun x hx => (RegistrationClaim.takes_iff.mp hx).1) htaken hx hid)
    cases hbasis with
    | claim _ _ _ _ own approved node known source inTime =>
      rw [found_deadline hI hA rfl hx hid (hstatus.trans approved.symm) (by rw [approved]; decide)]
      exact inTime
    | other _ _ nothing => exact Bool.noConfusion nothing
  | _ =>
    exact iff_of_true (fun _ h => by simp at h) fun _ _ h => absurd h (Option.some_ne_none _).symm

/-- **Deadlines are respected exactly as long as approvals read their rows before the deadline**, in
every interleaving of all requests and with any readings of the clocks. -/
theorem inTime_iff (P : Primitives) (random : String → Bool) (as : List (ℕ × Move))
    {t : Crew Office Stage}
    (hr : run (step (act P (fresh random))) (start Db.empty) as = some t) :
    Along (step (act P (fresh random))) (Meets P Early) (start Db.empty) as ↔
      Visits (step (act P (fresh random))) (fun c => Every (committed InTime) c.shared.log)
        (start Db.empty) as := by
  exact meets_iff_every (I := Recorded P random) (A := Follows P) follows_local follows_stable
    early_iff_inTime as recorded_start trivial hr

/-- A machine registers and proves its key, and is accepted at `now`. -/
def acceptedAt (now : ℕ) : List (ℕ × Move) :=
  [(0, .begin (registers "r" 0)), (0, .proceed), (1, .begin (proves "r" 1)), (1, .proceed),
    (2, .begin (accepts "r" 1 now)), (2, .proceed)]

theorem inTime_iff_accepted : ∃ t,
    run (step (act sample (fresh urlSafe))) (start Db.empty) (acceptedAt 2) = some t ∧
      (Along (step (act sample (fresh urlSafe))) (Meets sample Early) (start Db.empty)
          (acceptedAt 2) ↔
        Visits (step (act sample (fresh urlSafe))) (fun c => Every (committed InTime) c.shared.log)
          (start Db.empty) (acceptedAt 2)) := by
  obtain ⟨t, ht⟩ : ∃ t, run (step (act sample (fresh urlSafe))) (start Db.empty) (acceptedAt 2) =
      some t := Option.isSome_iff_exists.mp (by decide +kernel)
  exact ⟨t, ht, inTime_iff sample urlSafe (acceptedAt 2) ht⟩

/-- The approval has found its row overdue. -/
def overdue (c : Commit) : Bool :=
  match clocked c.plan with
  | some (id, now) =>
    c.found.registrations.rows.any fun r => r.id == id && r.challengeExpiresAt ≤ now
  | none => false

/-- An approval at the deadline goes through. -/
theorem accept_overdue : ∃ t,
    run (step (act sample (fresh urlSafe))) (start Db.empty) (acceptedAt (1 + days 1)) = some t ∧
      ¬ Every (committed InTime) t.shared.log := by
  obtain ⟨t, ht⟩ : ∃ t, run (step (act sample (fresh urlSafe))) (start Db.empty)
      (acceptedAt (1 + days 1)) = some t := Option.isSome_iff_exists.mp (by decide +kernel)
  have hoverdue : ((run (step (act sample (fresh urlSafe))) (start Db.empty)
      (acceptedAt (1 + days 1))).any fun t => (latest t.shared.log).any overdue) = true := by
    decide +kernel
  rw [ht, Option.any_some] at hoverdue
  obtain ⟨c, hc, hoverdue⟩ := Option.any_eq_true _ _ |>.mp hoverdue
  obtain ⟨older, hlog⟩ := latest_eq_some hc
  refine ⟨t, ht, fun hevery => ?_⟩
  rw [hlog] at hevery
  unfold overdue at hoverdue
  split at hoverdue
  · next id now hclocked =>
    obtain ⟨r, hr, hlate⟩ := List.any_eq_true.mp hoverdue
    simp only [Bool.and_eq_true, beq_iff_eq, decide_eq_true_eq] at hlate
    exact absurd (hevery.1 id now hclocked r hr hlate.1) (not_lt.mpr hlate.2)
  · exact Bool.noConfusion hoverdue

end IdenGrid.Control.Deadlines
