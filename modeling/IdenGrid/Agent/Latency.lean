import Mathlib.Algebra.Order.Ring.Int
import Mathlib.Data.List.Induction
import Mathlib.Data.List.Nodup
import IdenGrid.Lib.Run

/-! # The Edge latency tracker

One tracker serves all relays of an agent; each relay holds a `RelayProbeLease`, which it drops when
it ends. `step`: one call on the tracker or on a live lease; the methods lock the state, so calls from
several relays follow one another in some order. Times and durations are in nanoseconds, a time before
the epoch is negative.

`Invariant`: what the counters, the owner of the probe and the averages are after any calls
(`invariant_step`). `tracker_sound`: what follows for the tracker and its snapshots. -/

namespace IdenGrid.Agent.Latency

open IdenGrid.Lib.Run

/-! ## The tracker -/

def maxU64 : ℕ := 2 ^ 64 - 1

/-- `a.saturating_add(b)` -/
def saturatingAdd (a b : ℕ) : ℕ := min (a + b) maxU64

/-- `a.saturating_mul(b)` -/
def saturatingMul (a b : ℕ) : ℕ := min (a * b) maxU64

/-- `n.wrapping_add(1).max(1)` -/
def nextId (n : ℕ) : ℕ := max ((n + 1) % 2 ^ 64) 1

/-- `STALE_AFTER` -/
def staleAfter : ℕ := 30 * 10 ^ 9

inductive EdgeLatencyState
  | warming
  | fresh
  | degraded
  | stale
  | unavailable
  deriving DecidableEq, Repr

structure TrackerState where
  latestRttMs : Option ℕ
  ewmaRttMs : Option ℕ
  jitterMs : Option ℕ
  sampleCount : ℕ
  activeRelays : ℕ
  consecutiveFailures : ℕ
  updatedAt : Option ℤ
  probeOwner : Option ℕ
  nextRelayId : ℕ
  nextNonce : ℕ
  deriving DecidableEq, Repr

/-- `EdgeLatencyTracker::default()` -/
def TrackerState.default : TrackerState := ⟨none, none, none, 0, 0, 0, none, none, 0, 0⟩

def ewma (current sample : ℕ) : ℕ := saturatingAdd (saturatingMul current 3) sample / 4

def durationToMillis (duration : ℕ) : ℕ := max (min (duration / 10 ^ 6) maxU64) 1

def absDiff (a b : ℕ) : ℕ := (a - b) + (b - a)

namespace TrackerState

/-- `relay_started`; the lease gets the new relay id. -/
def relayStarted (s : TrackerState) : TrackerState × ℕ :=
  let relayId := nextId s.nextRelayId
  ({ s with nextRelayId := relayId, activeRelays := saturatingAdd s.activeRelays 1 }, relayId)

def recordSuccess (s : TrackerState) (duration : ℕ) (time : ℤ) : TrackerState :=
  let sample := durationToMillis duration
  let deviation := s.latestRttMs.elim 0 fun value => absDiff value sample
  { s with
    latestRttMs := some sample
    ewmaRttMs := some (s.ewmaRttMs.elim sample fun current => ewma current sample)
    jitterMs := some (ewma (s.jitterMs.getD 0) deviation)
    sampleCount := saturatingAdd s.sampleCount 1
    consecutiveFailures := 0
    updatedAt := some time }

def recordFailure (s : TrackerState) : TrackerState :=
  { s with consecutiveFailures := saturatingAdd s.consecutiveFailures 1 }

/-- `now.duration_since(updated).unwrap_or_default() > STALE_AFTER` -/
def isStale (now updated : ℤ) : Bool := (staleAfter : ℤ) < max (now - updated) 0

/-- The state that `snapshot_at` reports. -/
def stateName (s : TrackerState) (now : ℤ) : EdgeLatencyState :=
  if s.activeRelays = 0 then .unavailable
  else if s.sampleCount = 0 ∧ s.consecutiveFailures = 0 then .warming
  else if s.updatedAt.any (isStale now) then .stale
  else if 0 < s.consecutiveFailures then .degraded
  else .fresh

/-- `try_claim_probe` on the lease of this relay. -/
def tryClaimProbe (s : TrackerState) (relayId : ℕ) : TrackerState × Bool :=
  let s := if s.probeOwner.isNone then { s with probeOwner := some relayId } else s
  (s, s.probeOwner == some relayId)

def ownsProbe (s : TrackerState) (relayId : ℕ) : Bool := s.probeOwner == some relayId

/-- `next_nonce` -/
def takeNonce (s : TrackerState) : TrackerState × ℕ :=
  let nonce := nextId s.nextNonce
  ({ s with nextNonce := nonce }, nonce)

/-- `drop` of the lease of this relay. -/
def dropLease (s : TrackerState) (relayId : ℕ) : TrackerState :=
  let s := { s with activeRelays := s.activeRelays - 1 }
  if s.probeOwner = some relayId then { s with probeOwner := none } else s

end TrackerState

/-- `unix_millis` -/
def unixMillis (time : ℤ) : ℕ := min (time.toNat / 10 ^ 6) maxU64

structure EdgeLatencySnapshot where
  latestRttMs : Option ℕ
  ewmaRttMs : Option ℕ
  jitterMs : Option ℕ
  sampleCount : ℕ
  activeRelays : ℕ
  consecutiveFailures : ℕ
  state : EdgeLatencyState
  updatedAtUnixMs : Option ℕ
  deriving DecidableEq, Repr

/-- `snapshot_at` -/
def snapshotAt (s : TrackerState) (now : ℤ) : EdgeLatencySnapshot where
  latestRttMs := s.latestRttMs
  ewmaRttMs := s.ewmaRttMs
  jitterMs := s.jitterMs
  sampleCount := s.sampleCount
  activeRelays := s.activeRelays
  consecutiveFailures := s.consecutiveFailures
  state := s.stateName now
  updatedAtUnixMs := s.updatedAt.map unixMillis

/-! ## Calls -/

/-- A call; those on a lease name it by its place among the live ones. -/
inductive Call
  | relayStarted
  | tryClaimProbe (lease : ℕ)
  | nextNonce (lease : ℕ)
  | recordSuccess (duration : ℕ) (time : ℤ)
  | recordFailure
  | drop (lease : ℕ)
  deriving DecidableEq, Repr

/-- The tracker, and the relay ids of the leases that are not dropped. -/
structure World where
  tracker : TrackerState
  leases : List ℕ
  deriving DecidableEq, Repr

def World.initial : World := ⟨.default, []⟩

/-- One call; there is none on a lease that was dropped. -/
def step (w : World) : Call → Option World
  | .relayStarted =>
    let started := w.tracker.relayStarted
    some ⟨started.1, w.leases ++ [started.2]⟩
  | .tryClaimProbe lease =>
    w.leases[lease]?.map fun relayId => ⟨(w.tracker.tryClaimProbe relayId).1, w.leases⟩
  | .nextNonce lease => w.leases[lease]?.map fun _ => ⟨w.tracker.takeNonce.1, w.leases⟩
  | .recordSuccess duration time => some ⟨w.tracker.recordSuccess duration time, w.leases⟩
  | .recordFailure => some ⟨w.tracker.recordFailure, w.leases⟩
  | .drop lease =>
    w.leases[lease]?.map fun relayId => ⟨w.tracker.dropLease relayId, w.leases.eraseIdx lease⟩

/-! ## What the calls have told the tracker -/

def Call.isStart : Call → Bool
  | .relayStarted => true
  | _ => false

/-- The sample of a success, in milliseconds. -/
def Call.sample : Call → Option ℕ
  | .recordSuccess duration _ => some (durationToMillis duration)
  | _ => none

def samples (calls : List Call) : List ℕ := calls.filterMap Call.sample

/-- The call records neither a success nor a failure. -/
def Call.quiet : Call → Bool
  | .recordSuccess _ _ | .recordFailure => false
  | _ => true

/-- The differences of consecutive samples. -/
def differences : List ℕ → List ℕ
  | x :: y :: xs => absDiff x y :: differences (y :: xs)
  | _ => []

/-- The last of the calls that record anything is a success at this time. -/
def LastSuccess (calls : List Call) (time : ℤ) : Prop :=
  ∃ before duration after, calls = before ++ .recordSuccess duration time :: after ∧
    ∀ c ∈ after, c.quiet = true

/-- Fewer relays than there are ids, and samples that three of them and one more can be added up. -/
structure InRange (calls : List Call) : Prop where
  relays : calls.countP Call.isStart < 2 ^ 64
  short : ∀ x ∈ samples calls, x < 2 ^ 62

theorem InRange.of_append {calls more : List Call} (h : InRange (calls ++ more)) : InRange calls where
  relays := lt_of_le_of_lt (by rw [List.countP_append]; omega) h.relays
  short x hx := h.short x (by rw [samples, List.filterMap_append]; exact List.mem_append_left _ hx)

theorem samples_append (calls : List Call) (c : Call) :
    samples (calls ++ [c]) = samples calls ++ c.sample.toList := by
  rw [samples, List.filterMap_append]
  cases c <;> rfl

theorem differences_append : ∀ (xs : List ℕ) (x : ℕ),
    differences (xs ++ [x]) = differences xs ++ xs.getLast?.elim [] fun y => [absDiff y x]
  | [], _ => rfl
  | [_], _ => rfl
  | y :: z :: xs, x => by
    have ih := differences_append (z :: xs) x
    rw [List.cons_append, List.cons_append, differences, ← List.cons_append, ih, differences,
      List.getLast?_cons_cons]
    rfl

theorem differences_lt {bound : ℕ} : ∀ {xs : List ℕ}, (∀ x ∈ xs, x < bound) →
    ∀ d ∈ differences xs, d < bound
  | [], _, _, hd => absurd hd List.not_mem_nil
  | [_], _, _, hd => absurd hd List.not_mem_nil
  | x :: y :: xs, h, d, hd => by
    have hx := h x List.mem_cons_self
    have hy := h y (by simp)
    rcases List.mem_cons.mp hd with rfl | hd
    · unfold absDiff
      omega
    · exact differences_lt (fun z hz => h z (List.mem_cons_of_mem x hz)) d hd

theorem lastSuccess_append {calls : List Call} {time : ℤ} {c : Call} (h : LastSuccess calls time)
    (hc : c.quiet = true) : LastSuccess (calls ++ [c]) time := by
  obtain ⟨before, duration, after, rfl, hafter⟩ := h
  refine ⟨before, duration, after ++ [c], by simp, fun d hd => ?_⟩
  rcases List.mem_append.mp hd with hd | hd
  · exact hafter d hd
  · rwa [List.mem_singleton.mp hd]

/-! ## Averages -/

/-- Where nothing saturates, the average is that of three parts and one, rounded down. -/
theorem ewma_eq {current sample : ℕ} (hc : current < 2 ^ 62) (hs : sample < 2 ^ 62) :
    ewma current sample = (current * 3 + sample) / 4 := by
  unfold ewma saturatingAdd saturatingMul maxU64
  omega

theorem le_ewma {current sample lo : ℕ} (hc : current < 2 ^ 62) (hs : sample < 2 ^ 62)
    (hcurrent : lo ≤ current) (hsample : lo ≤ sample) : lo ≤ ewma current sample := by
  rw [ewma_eq hc hs]
  omega

theorem ewma_le {current sample hi : ℕ} (hc : current < 2 ^ 62) (hs : sample < 2 ^ 62)
    (hcurrent : current ≤ hi) (hsample : sample ≤ hi) : ewma current sample ≤ hi := by
  rw [ewma_eq hc hs]
  omega

/-! ## The invariant -/

/-- The tracker and the live leases after these calls. -/
structure Invariant (calls : List Call) (w : World) : Prop where
  active : w.tracker.activeRelays = w.leases.length
  started : w.tracker.nextRelayId = calls.countP Call.isStart
  live : w.leases.length ≤ calls.countP Call.isStart
  ids : ∀ id ∈ w.leases, id ≤ w.tracker.nextRelayId
  nodup : w.leases.Nodup
  owner : ∀ id ∈ w.tracker.probeOwner, id ∈ w.leases
  latest : w.tracker.latestRttMs = (samples calls).getLast?
  averaged : w.tracker.ewmaRttMs.isSome = w.tracker.latestRttMs.isSome
  jittered : w.tracker.jitterMs.isSome = w.tracker.latestRttMs.isSome
  average : ∀ lo hi, (∀ x ∈ samples calls, lo ≤ x ∧ x ≤ hi) →
    ∀ e ∈ w.tracker.ewmaRttMs, lo ≤ e ∧ e ≤ hi
  jitter : ∀ bound, (∀ d ∈ differences (samples calls), d ≤ bound) →
    ∀ j ∈ w.tracker.jitterMs, j ≤ bound
  dated : w.tracker.sampleCount ≠ 0 → w.tracker.updatedAt.isSome = true
  success : ∀ time ∈ w.tracker.updatedAt, w.tracker.consecutiveFailures = 0 → LastSuccess calls time

theorem invariant_initial : Invariant [] .initial where
  active := rfl
  started := rfl
  live := le_rfl
  ids := by simp [World.initial]
  nodup := List.nodup_nil
  owner := by simp [World.initial, TrackerState.default]
  latest := rfl
  averaged := rfl
  jittered := rfl
  average := by simp [World.initial, TrackerState.default]
  jitter := by simp [World.initial, TrackerState.default]
  dated h := absurd rfl h
  success := by simp [World.initial, TrackerState.default]

/-- A call that records nothing leaves what was recorded. -/
structure Keeps (t t' : TrackerState) : Prop where
  latest : t'.latestRttMs = t.latestRttMs
  average : t'.ewmaRttMs = t.ewmaRttMs
  jitter : t'.jitterMs = t.jitterMs
  count : t'.sampleCount = t.sampleCount
  failures : t'.consecutiveFailures = t.consecutiveFailures
  updated : t'.updatedAt = t.updatedAt

variable {calls : List Call} {w : World}

/-- What a quiet call has to establish: the part of the invariant about relays and leases. -/
theorem Invariant.of_quiet {c : Call} {w' : World} (h : Invariant calls w) (hc : c.quiet = true)
    (hkeeps : Keeps w.tracker w'.tracker)
    (active : w'.tracker.activeRelays = w'.leases.length)
    (started : w'.tracker.nextRelayId = (calls ++ [c]).countP Call.isStart)
    (live : w'.leases.length ≤ (calls ++ [c]).countP Call.isStart)
    (ids : ∀ id ∈ w'.leases, id ≤ w'.tracker.nextRelayId) (nodup : w'.leases.Nodup)
    (owner : ∀ id ∈ w'.tracker.probeOwner, id ∈ w'.leases) : Invariant (calls ++ [c]) w' := by
  have hsamples : samples (calls ++ [c]) = samples calls := by
    rw [samples_append]
    cases c <;> first | exact List.append_nil _ | cases hc
  refine ⟨active, started, live, ids, nodup, owner, ?_, ?_, ?_, ?_, ?_, ?_, ?_⟩
  · rw [hkeeps.latest, hsamples, h.latest]
  · rw [hkeeps.average, hkeeps.latest, h.averaged]
  · rw [hkeeps.jitter, hkeeps.latest, h.jittered]
  · rw [hkeeps.average, hsamples]
    exact h.average
  · rw [hkeeps.jitter, hsamples]
    exact h.jitter
  · rw [hkeeps.count, hkeeps.updated]
    exact h.dated
  · rw [hkeeps.updated, hkeeps.failures]
    exact fun time ht hf => lastSuccess_append (h.success time ht hf) hc

theorem countP_quiet (calls : List Call) {c : Call} (hc : c.isStart = false) :
    (calls ++ [c]).countP Call.isStart = calls.countP Call.isStart := by
  rw [List.countP_append, List.countP_singleton, hc]
  rfl

theorem invariant_relayStarted (h : Invariant calls w) (hr : InRange (calls ++ [.relayStarted])) :
    Invariant (calls ++ [.relayStarted])
      ⟨w.tracker.relayStarted.1, w.leases ++ [w.tracker.relayStarted.2]⟩ := by
  have hcount : (calls ++ [Call.relayStarted]).countP Call.isStart =
      calls.countP Call.isStart + 1 := by
    rw [List.countP_append]
    rfl
  have hbound := hr.relays
  rw [hcount] at hbound
  have hid : nextId w.tracker.nextRelayId = calls.countP Call.isStart + 1 := by
    rw [nextId, h.started, Nat.mod_eq_of_lt hbound]
    exact max_eq_left (Nat.succ_pos _)
  have hlive := h.live
  have hfresh : nextId w.tracker.nextRelayId ∉ w.leases := fun hmem => by
    have hle := h.ids _ hmem
    rw [hid, h.started] at hle
    omega
  refine h.of_quiet rfl ⟨rfl, rfl, rfl, rfl, rfl, rfl⟩ ?_ ?_ ?_ ?_ ?_ ?_
  · have hactive := h.active
    simp only [TrackerState.relayStarted, saturatingAdd, maxU64, List.length_append,
      List.length_singleton]
    omega
  · rw [hcount]
    exact hid
  · rw [hcount, List.length_append, List.length_singleton]
    omega
  · intro id hmem
    rcases List.mem_append.mp hmem with hmem | hmem
    · have hle := h.ids id hmem
      simp only [TrackerState.relayStarted, hid]
      rw [h.started] at hle
      omega
    · rw [List.mem_singleton.mp hmem]
      exact le_rfl
  · exact h.nodup.append (List.nodup_singleton _) fun id hmem hid' =>
      hfresh (by rwa [List.mem_singleton.mp hid'] at hmem)
  · exact fun id hmem => List.mem_append_left _ (h.owner id hmem)

theorem invariant_tryClaimProbe {lease relayId : ℕ} (h : Invariant calls w)
    (hlease : w.leases[lease]? = some relayId) :
    Invariant (calls ++ [.tryClaimProbe lease]) ⟨(w.tracker.tryClaimProbe relayId).1, w.leases⟩ := by
  have hcount := countP_quiet calls (c := .tryClaimProbe lease) rfl
  have hmem := List.mem_of_getElem? hlease
  unfold TrackerState.tryClaimProbe
  rcases howner : w.tracker.probeOwner with _ | owner
  · refine h.of_quiet rfl ⟨rfl, rfl, rfl, rfl, rfl, rfl⟩ h.active ?_ ?_ h.ids h.nodup ?_
    · exact h.started.trans hcount.symm
    · exact h.live.trans_eq hcount.symm
    · intro id hid
      obtain rfl := Option.some.inj hid
      exact hmem
  · refine h.of_quiet rfl ⟨rfl, rfl, rfl, rfl, rfl, rfl⟩ h.active ?_ ?_ h.ids h.nodup h.owner
    · exact h.started.trans hcount.symm
    · exact h.live.trans_eq hcount.symm

theorem invariant_drop {lease relayId : ℕ} (h : Invariant calls w)
    (hlease : w.leases[lease]? = some relayId) :
    Invariant (calls ++ [.drop lease]) ⟨w.tracker.dropLease relayId, w.leases.eraseIdx lease⟩ := by
  have hcount := countP_quiet calls (c := .drop lease) rfl
  obtain ⟨hlt, hget⟩ := List.getElem?_eq_some_iff.mp hlease
  have hlength : (w.leases.eraseIdx lease).length = w.leases.length - 1 :=
    List.length_eraseIdx_of_lt hlt
  have hactive := h.active
  have hsub := List.eraseIdx_sublist (l := w.leases) (k := lease)
  have hids : ∀ id ∈ w.leases.eraseIdx lease, id ≤ w.tracker.nextRelayId := fun id hmem =>
    h.ids id (hsub.subset hmem)
  have hlive : (w.leases.eraseIdx lease).length ≤ (calls ++ [Call.drop lease]).countP Call.isStart :=
    (hsub.length_le.trans h.live).trans_eq hcount.symm
  unfold TrackerState.dropLease
  by_cases howner : w.tracker.probeOwner = some relayId
  · rw [if_pos howner]
    refine h.of_quiet rfl ⟨rfl, rfl, rfl, rfl, rfl, rfl⟩ ?_ (h.started.trans hcount.symm) hlive hids
      (h.nodup.sublist hsub) (by simp)
    rw [hlength, ← hactive]
  · rw [if_neg howner]
    refine h.of_quiet rfl ⟨rfl, rfl, rfl, rfl, rfl, rfl⟩ ?_ (h.started.trans hcount.symm) hlive hids
      (h.nodup.sublist hsub) ?_
    · rw [hlength, ← hactive]
    · intro id hid
      have hne : id ≠ relayId := fun heq => howner (by rw [← heq]; exact hid)
      obtain ⟨i, hi⟩ := List.mem_iff_getElem?.mp (h.owner id hid)
      refine List.mem_eraseIdx_iff_getElem?.mpr ⟨i, fun heq => hne ?_, hi⟩
      subst heq
      exact Option.some.inj (hi.symm.trans hlease)

theorem invariant_recordSuccess {duration : ℕ} {time : ℤ} (h : Invariant calls w)
    (hr : InRange (calls ++ [.recordSuccess duration time])) :
    Invariant (calls ++ [.recordSuccess duration time])
      ⟨w.tracker.recordSuccess duration time, w.leases⟩ := by
  have hcount := countP_quiet calls (c := .recordSuccess duration time) rfl
  have hsamples : samples (calls ++ [.recordSuccess duration time]) =
      samples calls ++ [durationToMillis duration] := samples_append calls _
  have hshort := hr.short
  rw [hsamples] at hshort
  have hnew : durationToMillis duration < 2 ^ 62 := hshort _ (by simp)
  have hbound : ∀ x ∈ samples calls, 0 ≤ x ∧ x ≤ 2 ^ 62 - 1 := fun x hx => by
    have := hshort x (List.mem_append_left _ hx)
    omega
  refine ⟨h.active, h.started.trans hcount.symm, h.live.trans_eq hcount.symm, h.ids, h.nodup,
    h.owner, ?_, rfl, rfl, ?_, ?_, fun _ => rfl, ?_⟩
  · rw [hsamples, List.getLast?_concat]
    rfl
  · intro lo hi hall e he
    rw [hsamples] at hall
    have hnewest := hall (durationToMillis duration) (by simp)
    obtain rfl := Option.some.inj he
    rcases hcurrent : w.tracker.ewmaRttMs with _ | current
    · exact hnewest
    · have hold := h.average lo hi (fun x hx => hall x (List.mem_append_left _ hx)) current hcurrent
      have hsmall := (h.average 0 (2 ^ 62 - 1) hbound current hcurrent).2
      exact ⟨le_ewma (by omega) hnew hold.1 hnewest.1, ewma_le (by omega) hnew hold.2 hnewest.2⟩
  · intro bound hall j hj
    obtain rfl := Option.some.inj hj
    rw [hsamples, differences_append, ← h.latest] at hall
    have hold : ∀ b, (∀ d ∈ differences (samples calls), d ≤ b) → w.tracker.jitterMs.getD 0 ≤ b := by
      intro b hb
      rcases hcurrent : w.tracker.jitterMs with _ | current
      · exact Nat.zero_le b
      · exact h.jitter b hb current hcurrent
    have hcurrent := hold bound fun d hd => hall d (List.mem_append_left _ hd)
    have hsmall := hold (2 ^ 62 - 1) fun d hd => by
      have := differences_lt (fun x hx => hshort x (List.mem_append_left _ hx)) d hd
      omega
    rcases hlatest : w.tracker.latestRttMs with _ | value
    · exact ewma_le (by omega) (Nat.two_pow_pos 62) hcurrent (Nat.zero_le bound)
    · have hvalue : value < 2 ^ 62 := hshort value
        (List.mem_append_left _ (List.mem_of_getLast? (h.latest.symm.trans hlatest)))
      rw [hlatest] at hall
      have hdeviation := hall (absDiff value (durationToMillis duration)) (by simp)
      have hrange : absDiff value (durationToMillis duration) < 2 ^ 62 := by
        unfold absDiff
        omega
      exact ewma_le (by omega) hrange hcurrent hdeviation
  · intro t ht _
    obtain rfl := Option.some.inj ht
    exact ⟨calls, duration, [], rfl, by simp⟩

theorem invariant_recordFailure (h : Invariant calls w) :
    Invariant (calls ++ [.recordFailure]) ⟨w.tracker.recordFailure, w.leases⟩ := by
  have hcount := countP_quiet calls (c := .recordFailure) rfl
  have hsamples : samples (calls ++ [.recordFailure]) = samples calls :=
    (samples_append calls _).trans (List.append_nil _)
  refine ⟨h.active, h.started.trans hcount.symm, h.live.trans_eq hcount.symm, h.ids, h.nodup,
    h.owner, ?_, h.averaged, h.jittered, ?_, ?_, h.dated, ?_⟩
  · rw [hsamples]
    exact h.latest
  · rw [hsamples]
    exact h.average
  · rw [hsamples]
    exact h.jitter
  · intro time _ hzero
    simp only [TrackerState.recordFailure, saturatingAdd, maxU64] at hzero
    omega

/-- **One call.** -/
theorem invariant_step {c : Call} {w' : World} (h : Invariant calls w) (hr : InRange (calls ++ [c]))
    (hstep : step w c = some w') : Invariant (calls ++ [c]) w' := by
  cases c with
  | relayStarted =>
    obtain rfl := Option.some.inj hstep
    exact invariant_relayStarted h hr
  | tryClaimProbe lease =>
    obtain ⟨relayId, hlease, rfl⟩ := Option.map_eq_some_iff.mp hstep
    exact invariant_tryClaimProbe h hlease
  | nextNonce lease =>
    obtain ⟨relayId, -, rfl⟩ := Option.map_eq_some_iff.mp hstep
    have hcount := countP_quiet calls (c := .nextNonce lease) rfl
    exact h.of_quiet rfl ⟨rfl, rfl, rfl, rfl, rfl, rfl⟩ h.active (h.started.trans hcount.symm)
      (h.live.trans_eq hcount.symm) h.ids h.nodup h.owner
  | recordSuccess duration time =>
    obtain rfl := Option.some.inj hstep
    exact invariant_recordSuccess h hr
  | recordFailure =>
    obtain rfl := Option.some.inj hstep
    exact invariant_recordFailure h
  | drop lease =>
    obtain ⟨relayId, hlease, rfl⟩ := Option.map_eq_some_iff.mp hstep
    exact invariant_drop h hlease

/-- **Any calls.** -/
theorem invariant_run {calls : List Call} {w : World} (hr : InRange calls)
    (hrun : run step .initial calls = some w) : Invariant calls w := by
  induction calls using List.reverseRecOn generalizing w with
  | nil =>
    obtain rfl := Option.some.inj hrun
    exact invariant_initial
  | append_singleton calls c ih =>
    rw [run_append] at hrun
    obtain ⟨v, hv, hlast⟩ := Option.bind_eq_some_iff.mp hrun
    obtain ⟨w', hstep, hnil⟩ := run_eq_some_cons.mp hlast
    obtain rfl := Option.some.inj hnil
    exact invariant_step (ih hr.of_append hv) hr hstep

/-! ## Snapshots -/

theorem stateName_eq_fresh {t : TrackerState} {now : ℤ} (h : t.stateName now = .fresh) :
    t.activeRelays ≠ 0 ∧ t.sampleCount ≠ 0 ∧ t.updatedAt.any (TrackerState.isStale now) = false ∧
      t.consecutiveFailures = 0 := by
  unfold TrackerState.stateName at h
  split_ifs at h with hactive hwarming hstale hfailed
  refine ⟨hactive, fun hcount => ?_, by simpa using hstale, by omega⟩
  exact hwarming ⟨hcount, by omega⟩

theorem Invariant.latest_isSome (h : Invariant calls w) :
    w.tracker.latestRttMs.isSome = true ↔ samples calls ≠ [] := by
  rw [h.latest, Option.isSome_iff_ne_none, ne_eq, List.getLast?_eq_none_iff]

/-- **The latency tracker.** -/
theorem tracker_sound (calls : List Call) (w : World) (hr : InRange calls)
    (hrun : run step .initial calls = some w) :
    w.tracker.activeRelays = w.leases.length ∧
    (∀ id, w.tracker.probeOwner = some id → id ∈ w.leases) ∧
    w.leases.countP w.tracker.ownsProbe ≤ 1 ∧
    (∀ e, w.tracker.ewmaRttMs = some e → samples calls ≠ [] ∧
      ∀ lo hi, (∀ x ∈ samples calls, lo ≤ x ∧ x ≤ hi) → lo ≤ e ∧ e ≤ hi) ∧
    (∀ j, w.tracker.jitterMs = some j →
      ∀ bound, (∀ d ∈ differences (samples calls), d ≤ bound) → j ≤ bound) ∧
    (samples calls ≠ [] → w.tracker.ewmaRttMs.isSome ∧ w.tracker.jitterMs.isSome) ∧
    ∀ now, (snapshotAt w.tracker now).state = .fresh →
      w.leases ≠ [] ∧ ∃ time, LastSuccess calls time ∧ now - time ≤ staleAfter := by
  have h := invariant_run hr hrun
  refine ⟨h.active, h.owner, ?_, ?_, fun j hj bound hall => h.jitter bound hall j hj,
    fun hsome => ?_, ?_⟩
  · -- the ids of live leases are distinct
    rcases howner : w.tracker.probeOwner with _ | owner
    · rw [List.countP_eq_zero.mpr fun id _ hid => by simp [TrackerState.ownsProbe, howner] at hid]
      exact Nat.zero_le 1
    · refine le_trans (List.countP_mono_left fun id _ hid => ?_)
        (List.nodup_iff_count_le_one.mp h.nodup owner)
      have heq : some owner = some id := howner.symm.trans (beq_iff_eq.mp hid)
      exact beq_iff_eq.mpr (Option.some.inj heq).symm
  · intro e he
    refine ⟨h.latest_isSome.mp ?_, fun lo hi hall => h.average lo hi hall e he⟩
    rw [← h.averaged, he]
    rfl
  · have hlatest := h.latest_isSome.mpr hsome
    exact ⟨h.averaged.trans hlatest, h.jittered.trans hlatest⟩
  · intro now hfresh
    obtain ⟨hactive, hcount, hstale, hfailures⟩ := stateName_eq_fresh hfresh
    obtain ⟨time, htime⟩ := Option.isSome_iff_exists.mp (h.dated hcount)
    rw [htime] at hstale
    refine ⟨fun hnone => hactive (by rw [h.active, hnone]; rfl), time,
      h.success time htime hfailures, ?_⟩
    have hrecent := not_lt.mp (of_decide_eq_false hstale)
    omega

/-- Two relays, of which the first claims the probe, two successes and the end of the second. -/
def session : List Call :=
  [.relayStarted, .relayStarted, .tryClaimProbe 0, .tryClaimProbe 1,
    .recordSuccess (100 * 10 ^ 6) 0, .recordSuccess (200 * 10 ^ 6) (10 * 10 ^ 9), .drop 1]

theorem tracker_sound_session : ∃ w, run step .initial session = some w ∧ w.leases = [1] ∧
    w.tracker.ewmaRttMs = some 125 ∧ w.tracker.jitterMs = some 25 ∧
    w.leases.countP w.tracker.ownsProbe ≤ 1 ∧
    (snapshotAt w.tracker (20 * 10 ^ 9)).state = .fresh := by
  have hr : InRange session := ⟨by decide, by decide⟩
  exact ⟨_, rfl, rfl, rfl, rfl, (tracker_sound session _ hr rfl).2.2.1, rfl⟩

end IdenGrid.Agent.Latency
