import Mathlib.Data.List.Nodup
import IdenGrid.Edge.Tickets
import IdenGrid.Lib.Run

/-! # The Edge: one use of a ticket

`ReplayCache.claim` and the sequence of tunnel requests of one Edge process. A request verifies its
ticket and claims it without an `await` in between, but each of the two reads the clock. `claim`
first drops the entries that have expired by its own reading; a ticket whose last second passes
between the two readings has then lost its entry, although `verify` still accepted it.

`accepted_nodup_iff`: no ticket is accepted twice exactly if no request falls into that gap with a
ticket accepted before. -/

namespace IdenGrid.Edge.Replay

open IdenGrid.Lib.Unicode IdenGrid.Lib.Run IdenGrid.Edge.Tickets

/-- The entries of `self._expires` (identifiers with their expiry) that are not yet expired. -/
def purge (cache : List (List ℕ × ℤ)) (now : ℤ) : List (List ℕ × ℤ) :=
  cache.filter fun e => decide (now < e.2)

/-- `ReplayCache.claim` with the clock at `now`. -/
def claim (cache : List (List ℕ × ℤ)) (ticket : Ticket) (now : ℤ) :
    Bool × List (List ℕ × ℤ) :=
  if ticket.jti ∈ (purge cache now).map Prod.fst then (false, purge cache now)
  else (true, purge cache now ++ [(ticket.jti, ticket.expiresAt)])

/-- A tunnel request: its bearer token and the two readings of the clock. -/
structure Request where
  token : List ℕ
  verifyAt : ℤ
  claimAt : ℤ
  deriving DecidableEq, Repr

/-- The process: its cache, the last reading of the clock, and the tickets it has accepted, latest
first. -/
structure State where
  cache : List (List ℕ × ℤ)
  now : ℤ
  accepted : List Ticket

def start (now : ℤ) : State := ⟨[], now, []⟩

variable (hmac : List ℕ → List ℕ → List ℕ) (depth : ℕ) (V : TicketVerifier)

/-- `tunnel` up to the claim; the clock does not go back. -/
def step (s : State) (r : Request) : Option State :=
  if r.verifyAt < s.now then none
  else
    match verify hmac depth V r.token r.verifyAt with
    | .error _ => some { s with now := r.verifyAt }
    | .ok ticket =>
      if r.claimAt < r.verifyAt then none
      else
        let claimed := claim s.cache ticket r.claimAt
        some ⟨claimed.2, r.claimAt, if claimed.1 then ticket :: s.accepted else s.accepted⟩

/-- A request with a ticket accepted before is not verified before its expiry and claimed after it,
unless the cache still knows a ticket with the same identifier. -/
def InTime (s : State) (r : Request) : Prop :=
  ∀ ticket, authenticate hmac depth V r.token = .ok ticket → ticket ∈ s.accepted →
    r.verifyAt < ticket.expiresAt →
      ∃ other ∈ s.accepted, other.jti = ticket.jti ∧ r.claimAt < other.expiresAt

/-- What holds between two requests. -/
structure Invariant (s : State) : Prop where
  /-- An accepted ticket that has not expired is in the cache. -/
  known : ∀ ticket ∈ s.accepted, s.now < ticket.expiresAt →
    (ticket.jti, ticket.expiresAt) ∈ s.cache
  /-- The cache holds accepted tickets only. -/
  source : ∀ e ∈ s.cache, ∃ ticket ∈ s.accepted, (ticket.jti, ticket.expiresAt) = e
  /-- An accepted ticket was in its time window. -/
  window : ∀ ticket ∈ s.accepted, ticket.issuedAt ≤ s.now + V.futureSkew ∧
    0 < ticket.expiresAt - ticket.issuedAt ∧ ticket.expiresAt - ticket.issuedAt ≤ V.maxTtl

variable {hmac depth V}

theorem mem_purge {cache : List (List ℕ × ℤ)} {now : ℤ} {e : List ℕ × ℤ} :
    e ∈ purge cache now ↔ e ∈ cache ∧ now < e.2 := by
  rw [purge, List.mem_filter, decide_eq_true_iff]

/-- **What a claim decides**: it fails exactly if a ticket with this identifier was accepted and has
not expired. -/
theorem Invariant.claim_eq_false {s : State} (hI : Invariant V s) {ticket : Ticket} {now : ℤ}
    (hnow : s.now ≤ now) :
    (claim s.cache ticket now).1 = false ↔
      ∃ other ∈ s.accepted, other.jti = ticket.jti ∧ now < other.expiresAt := by
  have hmem : ticket.jti ∈ (purge s.cache now).map Prod.fst ↔
      ∃ other ∈ s.accepted, other.jti = ticket.jti ∧ now < other.expiresAt := by
    constructor
    · intro h
      obtain ⟨e, he, hjti⟩ := List.mem_map.mp h
      obtain ⟨hcache, hlive⟩ := mem_purge.mp he
      obtain ⟨other, hother, rfl⟩ := hI.source e hcache
      exact ⟨other, hother, hjti, hlive⟩
    · rintro ⟨other, hother, hjti, hlive⟩
      have hcache := hI.known other hother (by omega)
      exact List.mem_map.mpr ⟨_, mem_purge.mpr ⟨hcache, hlive⟩, hjti⟩
  rw [← hmem, claim]
  split_ifs with h <;> simp [h]

/-- A claim drops what has expired and adds what it accepts. -/
theorem mem_claim {cache : List (List ℕ × ℤ)} {ticket : Ticket} {now : ℤ} {e : List ℕ × ℤ} :
    e ∈ (claim cache ticket now).2 ↔
      (e ∈ cache ∧ now < e.2) ∨
        ((claim cache ticket now).1 = true ∧ e = (ticket.jti, ticket.expiresAt)) := by
  rw [claim]
  split_ifs with h
  · simp [mem_purge]
  · simp [mem_purge]

/-- What a request does: it is rejected, or verified and then claimed. -/
theorem step_cases {s s' : State} {r : Request} (h : step hmac depth V s r = some s') :
    s.now ≤ r.verifyAt ∧
      ((∃ e, verify hmac depth V r.token r.verifyAt = .error e ∧
          s' = { s with now := r.verifyAt }) ∨
        ∃ ticket, verify hmac depth V r.token r.verifyAt = .ok ticket ∧
          r.verifyAt ≤ r.claimAt ∧ s' = ⟨(claim s.cache ticket r.claimAt).2, r.claimAt,
            if (claim s.cache ticket r.claimAt).1 then ticket :: s.accepted
            else s.accepted⟩) := by
  unfold step at h
  by_cases hnow : r.verifyAt < s.now
  · rw [if_pos hnow] at h; simp at h
  rw [if_neg hnow] at h
  refine ⟨by omega, ?_⟩
  rcases hv : verify hmac depth V r.token r.verifyAt with e | ticket
  · rw [hv] at h
    exact Or.inl ⟨e, rfl, (Option.some.inj h).symm⟩
  · rw [hv] at h
    by_cases hclaim : r.claimAt < r.verifyAt
    · simp [hclaim] at h
    simp only [if_neg hclaim] at h
    exact Or.inr ⟨ticket, rfl, by omega, (Option.some.inj h).symm⟩

/-- **Every request keeps the invariant.** -/
theorem invariant_step (s : State) (r : Request) (s' : State) (hI : Invariant V s)
    (h : step hmac depth V s r = some s') : Invariant V s' := by
  obtain ⟨hnow, ⟨e, -, rfl⟩ | ⟨ticket, hv, hle, rfl⟩⟩ := step_cases h
  · refine ⟨fun t ht hlt => hI.known t ht ?_, hI.source, fun t ht => ?_⟩
    · exact lt_of_le_of_lt hnow hlt
    · have := hI.window t ht
      exact ⟨by simp only; omega, this.2⟩
  · obtain ⟨-, -, hskew, hpos, hmax⟩ := verify_eq_ok.mp hv
    have hwindow : ∀ t ∈ s.accepted, t.issuedAt ≤ r.claimAt + V.futureSkew ∧
        0 < t.expiresAt - t.issuedAt ∧ t.expiresAt - t.issuedAt ≤ V.maxTtl := by
      intro t ht
      have := hI.window t ht
      exact ⟨by omega, this.2⟩
    have hold : ∀ t ∈ s.accepted, r.claimAt < t.expiresAt →
        (t.jti, t.expiresAt) ∈ (claim s.cache ticket r.claimAt).2 := by
      intro t ht hlt
      exact mem_claim.mpr (Or.inl ⟨hI.known t ht (by omega), hlt⟩)
    rcases hf : (claim s.cache ticket r.claimAt).1 with _ | _
    · refine ⟨fun t ht hlt => hold t ht hlt, fun e he => ?_, fun t ht => hwindow t ht⟩
      rcases mem_claim.mp he with ⟨he, -⟩ | ⟨htrue, -⟩
      · exact hI.source e he
      · rw [hf] at htrue; exact absurd htrue (by decide)
    · refine ⟨fun t ht hlt => ?_, fun e he => ?_, fun t ht => ?_⟩
      · rcases List.mem_cons.mp ht with rfl | ht
        · exact mem_claim.mpr (Or.inr ⟨hf, rfl⟩)
        · exact hold t ht hlt
      · rcases mem_claim.mp he with ⟨he, -⟩ | ⟨-, rfl⟩
        · obtain ⟨t, ht, hte⟩ := hI.source e he
          exact ⟨t, List.mem_cons_of_mem ticket ht, hte⟩
        · exact ⟨ticket, List.mem_cons_self, rfl⟩
      · rcases List.mem_cons.mp ht with rfl | ht
        · exact ⟨by simp only; omega, hpos, hmax⟩
        · exact hwindow t ht

theorem invariant_start (now : ℤ) : Invariant V (start now) :=
  ⟨by simp [start], by simp [start], by simp [start]⟩

/-- A request in time does not accept a ticket again. -/
theorem nodup_step (s : State) (r : Request) (s' : State) (hI : Invariant V s)
    (hnd : s.accepted.Nodup) (hc : InTime hmac depth V s r)
    (h : step hmac depth V s r = some s') : s'.accepted.Nodup := by
  obtain ⟨hnow, ⟨e, -, rfl⟩ | ⟨ticket, hv, hle, rfl⟩⟩ := step_cases h
  · exact hnd
  · obtain ⟨hauth, hexp, -⟩ := verify_eq_ok.mp hv
    rcases hf : (claim s.cache ticket r.claimAt).1 with _ | _
    · exact hnd
    · refine List.nodup_cons.mpr ⟨fun hmem => ?_, hnd⟩
      have hlater : s.now ≤ r.claimAt := by omega
      have hfalse : (claim s.cache ticket r.claimAt).1 = false :=
        (hI.claim_eq_false hlater).mpr (hc ticket hauth hmem hexp)
      rw [hf] at hfalse
      exact absurd hfalse (by decide)

/-- A request out of time accepts its ticket a second time. -/
theorem not_nodup_step (s : State) (r : Request) (s' : State) (hI : Invariant V s)
    (hc : ¬ InTime hmac depth V s r) (h : step hmac depth V s r = some s') :
    ¬ s'.accepted.Nodup := by
  unfold InTime at hc
  push Not at hc
  obtain ⟨ticket, hauth, hmem, hexp, hnone⟩ := hc
  obtain ⟨hnow, hcases⟩ := step_cases h
  have hv : verify hmac depth V r.token r.verifyAt = .ok ticket := by
    obtain ⟨hskew, hpos, hmax⟩ := hI.window ticket hmem
    exact verify_eq_ok.mpr ⟨hauth, hexp, by omega, hpos, hmax⟩
  rcases hcases with ⟨e, he, -⟩ | ⟨t, ht, hle, rfl⟩
  · rw [hv] at he; simp at he
  · obtain rfl : ticket = t := by rw [hv] at ht; exact Except.ok.inj ht
    have hf : (claim s.cache ticket r.claimAt).1 = true := by
      by_contra hfalse
      obtain ⟨other, hother, hjti, hlive⟩ := (hI.claim_eq_false (by omega)).mp
        (Bool.eq_false_iff.mpr hfalse)
      have := hnone other hother hjti
      omega
    intro hnd
    rw [hf] at hnd
    exact (List.nodup_cons.mp hnd).1 hmem

/-- Accepted tickets stay in the list. -/
theorem accepted_suffix (rs : List Request) (s t : State)
    (hr : run (step hmac depth V) s rs = some t) : s.accepted <:+ t.accepted := by
  refine run_inv (I := fun u => s.accepted <:+ u.accepted) (fun u r u' hu h => ?_) rs s t
    (List.suffix_refl _) hr
  obtain ⟨-, ⟨e, -, rfl⟩ | ⟨ticket, -, -, rfl⟩⟩ := step_cases h
  · exact hu
  · rcases (claim u.cache ticket r.claimAt).1 with _ | _
    · exact hu
    · exact hu.trans (List.suffix_cons ticket _)

/-- **One use of a ticket**: in every sequence of tunnel requests with clock readings that do not go
back, no ticket is accepted twice exactly if every request with a ticket accepted before is in
time. -/
theorem accepted_nodup_iff (now : ℤ) (rs : List Request) (s : State)
    (hr : run (step hmac depth V) (start now) rs = some s) :
    s.accepted.Nodup ↔ Along (step hmac depth V) (InTime hmac depth V) (start now) rs := by
  have hvisits := along_iff_visits (R := fun u => u.accepted.Nodup)
    (I := fun u => Invariant V u ∧ u.accepted.Nodup) (fun _ hu => hu.2)
    (fun u r u' hu hc h => ⟨invariant_step u r u' hu.1 h, nodup_step u r u' hu.1 hu.2 hc h⟩)
    (fun u r u' hu hc h => not_nodup_step u r u' hu.1 hc h)
    rs (start now) s ⟨invariant_start now, List.nodup_nil⟩ hr
  rw [hvisits]
  constructor
  · rintro hnd pre ⟨post, rfl⟩ u hu
    obtain ⟨v, hv, hs⟩ := Option.bind_eq_some_iff.mp (run_append pre post (start now) ▸ hr)
    obtain rfl : u = v := by rw [hu] at hv; exact Option.some.inj hv
    exact (accepted_suffix post u s hs).sublist.nodup hnd
  · intro h
    exact h.last hr

/-! ### A ticket claimed in its last second -/

/-- A node's secret, a ticket issued under it at `1700000000` for 60 seconds, and its digest. -/
def sampleVerifier : TicketVerifier where
  secret := text "edge-ticket-secret-edge-ticket-secret"
  nodeId := text "edge-a"

def sampleEncoded : List ℕ :=
  text "eyJleHAiOjE3MDAwMDAwNjAsImhvc3QiOiJl" ++ text "eGFtcGxlLmNvbSIsImlhdCI6MTcwMDAwMDAw" ++
    text "MCwianRpIjoicTgzdkVqUldlSkNyemU4U05G" ++ text "WjRrQV8tIiwibm9kZSI6ImVkZ2UtYSIsInBv" ++
    text "cnQiOjQ0Mywic3RvcmUiOiIxIiwidiI6MX0"

def sampleToken : List ℕ :=
  sampleEncoded ++ 46 :: (text "D-IIDxU1kMKolEeb0kFsr5" ++ text "LaP73aefeg22rvU18e7qk")

/-- The digest of the one text these runs verify. -/
def sampleHmac (_ _ : List ℕ) : List ℕ :=
  [15, 226, 8, 15, 21, 53, 144, 194, 168, 148, 71, 155, 210, 65, 108, 175, 146, 218, 63, 189, 218,
    121, 247, 160, 219, 106, 239, 83, 95, 30, 238, 169]

def sampleTicket : Ticket :=
  ⟨text "edge-a", text "1", text "example.com", 443, 1700000000, 1700000060,
    text "q83vEjRWeJCrze8SNFZ4kA_-"⟩

theorem authenticate_sample :
    authenticate sampleHmac 1000 sampleVerifier sampleToken = .ok sampleTicket := by
  decide +kernel

/-- A sample request whose verification comes before the expiry is verified. -/
theorem step_sample {s : State} {verifyAt claimAt : ℤ} (h0 : s.now ≤ verifyAt)
    (h1 : 1700000000 ≤ verifyAt) (h2 : verifyAt < 1700000060) (h3 : verifyAt ≤ claimAt) :
    step sampleHmac 1000 sampleVerifier s ⟨sampleToken, verifyAt, claimAt⟩ =
      some ⟨(claim s.cache sampleTicket claimAt).2, claimAt,
        if (claim s.cache sampleTicket claimAt).1 then sampleTicket :: s.accepted
        else s.accepted⟩ := by
  have hv : verify sampleHmac 1000 sampleVerifier sampleToken verifyAt = .ok sampleTicket := by
    refine verify_eq_ok.mpr ⟨authenticate_sample, ?_, ?_, by decide, by decide⟩
    · exact h2
    · simp only [sampleTicket, sampleVerifier]; omega
  simp only [step, hv, if_neg (not_lt.mpr h0), if_neg (not_lt.mpr h3)]

/-- The ticket is used at once, and presented again so that its expiry passes between the two
readings. -/
def boundaryRun : List Request :=
  [⟨sampleToken, 1700000000, 1700000000⟩, ⟨sampleToken, 1700000059, 1700000060⟩]

/-- **A ticket is accepted twice.** -/
theorem boundary_accepts_twice : ∃ s,
    run (step sampleHmac 1000 sampleVerifier) (start 1700000000) boundaryRun = some s ∧
      s.accepted = [sampleTicket, sampleTicket] := by
  rw [boundaryRun, run_cons, step_sample (by decide) (by decide) (by decide) (by decide),
    Option.bind_some, run_cons,
    step_sample (by decide) (by decide) (by decide) (by decide), Option.bind_some]
  exact ⟨_, rfl, by decide⟩

/-- The run in which the second request comes a second earlier. -/
theorem accepted_nodup_iff_replay : ∃ s,
    run (step sampleHmac 1000 sampleVerifier) (start 1700000000)
      [⟨sampleToken, 1700000000, 1700000000⟩, ⟨sampleToken, 1700000059, 1700000059⟩] = some s ∧
    (s.accepted.Nodup ↔ Along (step sampleHmac 1000 sampleVerifier)
      (InTime sampleHmac 1000 sampleVerifier) (start 1700000000)
      [⟨sampleToken, 1700000000, 1700000000⟩, ⟨sampleToken, 1700000059, 1700000059⟩]) := by
  obtain ⟨s, hs⟩ : ∃ s, run (step sampleHmac 1000 sampleVerifier) (start 1700000000)
      [⟨sampleToken, 1700000000, 1700000000⟩, ⟨sampleToken, 1700000059, 1700000059⟩] =
        some s := by
    rw [run_cons, step_sample (by decide) (by decide) (by decide) (by decide), Option.bind_some,
      run_cons, step_sample (by decide) (by decide) (by decide) (by decide), Option.bind_some]
    exact ⟨_, rfl⟩
  exact ⟨s, hs, accepted_nodup_iff _ _ s hs⟩

end IdenGrid.Edge.Replay
