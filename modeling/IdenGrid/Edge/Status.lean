import IdenGrid.Control.Monitor
import IdenGrid.Edge.Tunnel
import IdenGrid.Lib.JsonTree
import IdenGrid.Lib.PythonInt

/-! # The status of an Edge

What the handler `status` of the Edge answers: the slots and counters of its `Runtime`, the public address
of `CachedPublicIPv4` and the resources of the host, as the JSON text of `web.json_response`. Any number
of requests use the cache at once; one that finds nothing in it waits for an answer from outside.

`returned_fresh`: the address is global and not older than the cache allows, and a lookup that fails
changes nothing. `reported_status`: the
monitor of the control plane accepts every such text and reads from it what the Edge has written. -/

namespace IdenGrid.Edge.Status

open IdenGrid.Lib.Run IdenGrid.Lib.Requests IdenGrid.Lib.Unicode IdenGrid.Lib.FloatRepr
open IdenGrid.Lib.PythonInt (strip)
open IdenGrid.Lib.Json IdenGrid.Lib.JsonDumps IdenGrid.Lib.JsonTree
open IdenGrid.Edge.Tunnel hiding act Event Stage start
open IdenGrid.Control.Monitor (Payload readStatus)

/-! ## The cache of the public address -/

/-- `_value` and `_expires_at`. The readings of the clock are the values of floats and their sum with the
lifetime is exact. The code rounds it: a reading below the rounded sum is a float below the exact one, so
at most a request that the cache answers here asks for itself there, and that is the other case of
`returned_fresh`. -/
structure Cache where
  value : Option (List ℕ)
  expiresAt : ℚ
  deriving DecidableEq, Repr

inductive Stage
  | idle
  | waiting
  | ended
  deriving DecidableEq, Repr

/-- A request for the address: when it read the clock, what its lookup has brought, and what it returns; it
returns nothing if an exception leaves it. -/
structure Lookup where
  stage : Stage
  now : ℚ
  answer : Option (List ℕ)
  result : Option (List ℕ)
  deriving DecidableEq, Repr

/-- `__call__` is cut at its await, which ends with an answer or an exception. -/
inductive LookupEvent
  | called (now : ℚ)
  | fetched (answer : Option (List ℕ))
  deriving DecidableEq, Repr

section

variable (U : Lib.PythonInt.Unicode)

/-- The global IPv4 address in an answer; a text that is no address, an IPv6 address and an address that is
not global raise the same exception. -/
def globalAddress (answer : List ℕ) : Option (List ℕ) :=
  match Lib.Ipv4.parse (strip U answer) with
  | some n => if Lib.Ipv4.isGlobal n then some (Lib.Ipv4.render n) else none
  | none => none

/-- One step of a request. -/
def lookup (ttl : ℚ) (_r : ℕ) (cache : Cache) (l : Lookup) (e : LookupEvent) :
    Option (Cache × Lookup) :=
  match l.stage, e with
  | .idle, .called now =>
    if cache.value.isSome ∧ now < cache.expiresAt then
      some (cache, { l with stage := .ended, now := now, result := cache.value })
    else some (cache, { l with stage := .waiting, now := now })
  | .waiting, .fetched answer =>
    match answer.bind (globalAddress U) with
    | some value =>
      some (⟨some value, l.now + ttl⟩,
        { l with stage := .ended, answer := answer, result := some value })
    | none => some (cache, { l with stage := .ended, answer := answer })
  | _, _ => none

/-- A cache that has just been made. -/
def empty : Crew Cache Lookup where
  shared := ⟨none, 0⟩
  loc := fun _ => ⟨.idle, 0, none, none⟩

/-- The lookup of this request has brought the address. -/
def Brought (l : Lookup) (value : List ℕ) : Prop :=
  l.stage = .ended ∧ l.answer.bind (globalAddress U) = some value

/-- What a run keeps: the cache and all results come from lookups, and the cache expires with its own. -/
structure Sourced (ttl : ℚ) (c : Crew Cache Lookup) : Prop where
  cache : ∀ v, c.shared.value = some v →
    ∃ q, Brought U (c.loc q) v ∧ c.shared.expiresAt = (c.loc q).now + ttl
  unasked : ∀ r, (c.loc r).stage ≠ .ended → (c.loc r).result = none
  results : ∀ r v, (c.loc r).result = some v →
    ∃ q, Brought U (c.loc q) v ∧ (q = r ∨ (c.loc r).now < (c.loc q).now + ttl)

variable {U} {ttl : ℚ}

theorem sourced_empty : Sourced U ttl empty :=
  ⟨fun v hv => by simp [empty] at hv, fun _ _ => rfl, fun r v hv => by simp [empty] at hv⟩

/-- What one step of a request does. -/
theorem lookup_spec {r : ℕ} {cache cache' : Cache} {l l' : Lookup} {e : LookupEvent}
    (hl : l.stage ≠ .ended → l.result = none) (h : lookup U ttl r cache l e = some (cache', l')) :
    l.stage ≠ .ended ∧
      (cache' = cache ∨ ∃ v, cache' = ⟨some v, l'.now + ttl⟩ ∧ Brought U l' v) ∧
      (l'.stage ≠ .ended → l'.result = none) ∧
      ∀ v, l'.result = some v → Brought U l' v ∨ cache.value = some v ∧ l'.now < cache.expiresAt := by
  unfold lookup at h
  generalize hstage : l.stage = stage at h
  split at h
  · have hnone := hl (by simp [hstage])
    split_ifs at h with hfresh
    · -- the cache answers
      obtain ⟨rfl, rfl⟩ := Prod.mk.inj (Option.some.inj h)
      exact ⟨by simp, .inl rfl, by simp, fun v hv => .inr ⟨hv, hfresh.2⟩⟩
    · obtain ⟨rfl, rfl⟩ := Prod.mk.inj (Option.some.inj h)
      exact ⟨by simp, .inl rfl, fun _ => hnone, fun v hv => by simp [hnone] at hv⟩
  · have hnone := hl (by simp [hstage])
    split at h
    · next value hvalue =>
      obtain ⟨rfl, rfl⟩ := Prod.mk.inj (Option.some.inj h)
      refine ⟨by simp, .inr ⟨value, rfl, rfl, hvalue⟩, by simp, fun v hv => .inl ?_⟩
      obtain rfl := Option.some.inj hv
      exact ⟨rfl, hvalue⟩
    · -- an exception leaves the cache as it was
      obtain ⟨rfl, rfl⟩ := Prod.mk.inj (Option.some.inj h)
      exact ⟨by simp, .inl rfl, by simp, fun v hv => by simp [hnone] at hv⟩
  · cases h

theorem sourced_step {c c' : Crew Cache Lookup} {e : ℕ × LookupEvent} (hS : Sourced U ttl c)
    (hs : step (lookup U ttl) c e = some c') : Sourced U ttl c' := by
  obtain ⟨r, e⟩ := e
  obtain ⟨cache', l', ha, rfl⟩ := step_eq_some.mp hs
  obtain ⟨hr, hcache, hunasked, hresult⟩ := lookup_spec (hS.unasked r) ha
  -- a request that has ended stays as it is
  have hkeep : ∀ q v, Brought U (c.loc q) v → Function.update c.loc r l' q = c.loc q := by
    intro q v hq
    have hne : q ≠ r := by
      rintro rfl
      exact hr hq.1
    exact Function.update_of_ne hne _ _
  have hself : Function.update c.loc r l' r = l' := Function.update_self _ _ _
  refine ⟨fun v hv => ?_, fun p => ?_, fun p v hv => ?_⟩
  · rcases hcache with rfl | ⟨w, rfl, hw⟩
    · obtain ⟨q, hq, hexpires⟩ := hS.cache v hv
      exact ⟨q, by simpa only [hkeep q v hq] using hq, by simpa only [hkeep q v hq] using hexpires⟩
    · obtain rfl := Option.some.inj hv
      exact ⟨r, by simpa only [hself] using hw, by simp only [hself]⟩
  · rcases eq_or_ne p r with rfl | hp
    · simpa only [hself] using hunasked
    · simpa only [Function.update_of_ne hp] using hS.unasked p
  · rcases eq_or_ne p r with rfl | hp
    · rcases hresult v (by simpa only [hself] using hv) with hmine | ⟨hold, hfresh⟩
      · exact ⟨p, by simpa only [hself] using hmine, .inl rfl⟩
      · obtain ⟨q, hq, hexpires⟩ := hS.cache v hold
        rw [hexpires] at hfresh
        exact ⟨q, by simpa only [hkeep q v hq] using hq,
          .inr (by simpa only [hkeep q v hq, hself] using hfresh)⟩
    · have hold : (c.loc p).result = some v := by simpa only [Function.update_of_ne hp] using hv
      obtain ⟨q, hq, hfresh⟩ := hS.results p v hold
      exact ⟨q, by simpa only [hkeep q v hq] using hq,
        by simpa only [hkeep q v hq, Function.update_of_ne hp] using hfresh⟩

theorem globalAddress_eq_some {answer value : List ℕ} (h : globalAddress U answer = some value) :
    ∃ n < 2 ^ 32, Lib.Ipv4.isGlobal n = true ∧ value = Lib.Ipv4.render n ∧ strip U answer = value := by
  unfold globalAddress at h
  split at h
  · next n hn =>
    split_ifs at h with hglobal
    obtain rfl := Option.some.inj h
    obtain ⟨hlt, htext⟩ := Lib.Ipv4.parse_eq_some.mp hn
    exact ⟨n, hlt, hglobal, rfl, htext⟩
  · cases h

/-- **What a lookup that brings no global address does**: it leaves the cache as it was, and its request
returns nothing. -/
theorem lookup_fails {r : ℕ} {cache cache' : Cache} {l l' : Lookup} {answer : Option (List ℕ)}
    (hl : l.stage ≠ .ended → l.result = none)
    (hno : ∀ t, answer = some t → ∀ n, Lib.Ipv4.parse (strip U t) = some n → Lib.Ipv4.isGlobal n = false)
    (h : lookup U ttl r cache l (.fetched answer) = some (cache', l')) :
    cache' = cache ∧ l'.result = none := by
  have hnone : answer.bind (globalAddress U) = none := by
    rcases answer with _ | t
    · rfl
    · rw [Option.bind_some, globalAddress]
      rcases hparse : Lib.Ipv4.parse (strip U t) with _ | n
      · rfl
      · simp [hno t rfl n hparse]
  unfold lookup at h
  split at h
  · next heq => cases heq
  · next heq =>
    obtain rfl := LookupEvent.fetched.inj heq
    rw [hnone] at h
    obtain ⟨rfl, rfl⟩ := Prod.mk.inj (Option.some.inj h)
    exact ⟨rfl, hl (by simp_all)⟩
  · cases h

/-- **The address that a request returns** is that of a global IPv4 address and has been brought by a
lookup that is its own or began less than `ttl` before; and a lookup that raises or brings no global
address leaves the cache and all other requests as they were and returns nothing. -/
theorem returned_fresh {es : List (ℕ × LookupEvent)} {c : Crew Cache Lookup}
    (hrun : run (step (lookup U ttl)) empty es = some c) :
    (∀ r value, (c.loc r).result = some value →
      (∃ n < 2 ^ 32, Lib.Ipv4.isGlobal n = true ∧ value = Lib.Ipv4.render n) ∧
        ∃ q answer, (c.loc q).answer = some answer ∧ strip U answer = value ∧
          (q = r ∨ (c.loc r).now < (c.loc q).now + ttl)) ∧
    ∀ r answer c', step (lookup U ttl) c (r, .fetched answer) = some c' →
      (∀ t, answer = some t → ∀ n, Lib.Ipv4.parse (strip U t) = some n →
        Lib.Ipv4.isGlobal n = false) →
      c'.shared = c.shared ∧ (c'.loc r).result = none ∧ ∀ q, q ≠ r → c'.loc q = c.loc q := by
  have hS := run_inv (fun _ _ _ hS hs => sourced_step hS hs) es empty c (sourced_empty (U := U)) hrun
  refine ⟨fun r value h => ?_, fun r answer c' hs hno => ?_⟩
  · obtain ⟨q, ⟨-, hq⟩, hfresh⟩ := hS.results r value h
    obtain ⟨answer, hanswer, hvalue⟩ := Option.bind_eq_some_iff.mp hq
    obtain ⟨n, hn, hglobal, hrender, hstrip⟩ := globalAddress_eq_some hvalue
    exact ⟨⟨n, hn, hglobal, hrender⟩, q, answer, hanswer, hstrip, hfresh⟩
  · obtain ⟨cache', l', ha, rfl⟩ := step_eq_some.mp hs
    obtain ⟨hcache, hresult⟩ := lookup_fails (hS.unasked r) hno ha
    refine ⟨hcache, ?_, fun q hq => Function.update_of_ne hq _ _⟩
    simpa only [Function.update_self] using hresult

end

/-- Two requests, the second one within the minute. -/
def twice : List (ℕ × LookupEvent) :=
  [(0, .called 0), (0, .fetched (some (text "8.8.8.8\n"))), (1, .called 30)]

theorem returned_fresh_twice : ∃ c, run (step (lookup .ascii 60)) empty twice = some c ∧
    ((∀ r value, (c.loc r).result = some value →
      (∃ n < 2 ^ 32, Lib.Ipv4.isGlobal n = true ∧ value = Lib.Ipv4.render n) ∧
        ∃ q answer, (c.loc q).answer = some answer ∧ strip .ascii answer = value ∧
          (q = r ∨ (c.loc r).now < (c.loc q).now + 60)) ∧
    ∀ r answer c', step (lookup .ascii 60) c (r, .fetched answer) = some c' →
      (∀ t, answer = some t → ∀ n, Lib.Ipv4.parse (strip .ascii t) = some n →
        Lib.Ipv4.isGlobal n = false) →
      c'.shared = c.shared ∧ (c'.loc r).result = none ∧ ∀ q, q ≠ r → c'.loc q = c.loc q) := by
  have hsome : (run (step (lookup .ascii 60)) empty twice).isSome = true := by decide +kernel
  obtain ⟨c, hc⟩ := Option.isSome_iff_exists.mp hsome
  exact ⟨c, hc, returned_fresh hc⟩

/-! ## Slots in use

The bounds hold in every run, also where slots are kept for good. -/

/-- The slots a request has taken and not given back. -/
def slots (h : Handler) : ℤ := h.acquired - h.released

/-- What every request keeps. -/
structure Bounded (h : Handler) : Prop where
  acquired : h.acquired ≤ 1
  released : h.released ≤ h.acquired
  running : h.stage.isEnded = false → h.released = 0
  idle : h.stage = .idle → h.acquired = 0

/-- One step of a request moves the slots in use with its own, and takes one only if there is one. -/
structure Moves (rt rt' : Runtime) (h h' : Handler) : Prop where
  bounded : Bounded h'
  slots : rt'.active = rt.active + slots h' - slots h
  limit : rt'.maxConnections = rt.maxConnections
  room : rt'.active ≤ rt.active ∨ rt'.active ≤ rt.maxConnections

/-- A step that neither takes a slot nor gives one back. -/
theorem Moves.of_same {rt rt' : Runtime} {h h' : Handler} (hB : Bounded h)
    (hactive : rt'.active = rt.active) (hmax : rt'.maxConnections = rt.maxConnections)
    (hacq : h'.acquired = h.acquired) (hrel : h'.released = h.released) (hstage : h'.stage ≠ .idle)
    (hrunning : h.stage.isEnded = false) : Moves rt rt' h h' where
  bounded := ⟨hacq ▸ hB.acquired, by rw [hacq, hrel]; exact hB.released,
    fun _ => hrel.trans (hB.running hrunning), fun hidle => absurd hidle hstage⟩
  slots := by
    simp only [Status.slots, hacq, hrel, hactive]
    omega
  limit := hmax
  room := .inl hactive.le

theorem finish_moves {rt rt' : Runtime} {h h' : Handler} {outcome : Outcome} (hB : Bounded h)
    (hrunning : h.stage.isEnded = false) (hactive : rt'.active = rt.active)
    (hmax : rt'.maxConnections = rt.maxConnections) (hacq : h'.acquired = h.acquired)
    (hrel : h'.released = h.released) :
    Moves rt (finish rt' h' outcome).1 h (finish rt' h' outcome).2 := by
  have hnone := hB.running hrunning
  have hone := hB.acquired
  unfold finish
  by_cases hzero : h'.acquired = 0
  · rw [if_pos hzero]
    exact .of_same hB hactive hmax hacq hrel (by simp) hrunning
  · rw [if_neg hzero]
    have hreleased : h'.released + 1 = h'.acquired := by omega
    refine ⟨⟨hacq.trans_le hone, hreleased.le, fun hstage => ?_, fun hidle => ?_⟩, ?_, hmax, .inl ?_⟩
    · simp [Tunnel.Stage.isEnded] at hstage
    · simp at hidle
    · simp only [Status.slots, Runtime.release, hactive]
      omega
    · simp only [Runtime.release, hactive]
      omega

/-- The `except` clauses move no slot. -/
theorem except_same (rt : Runtime) (h : Handler) (e : Exc) :
    (except rt h e).1.active = rt.active ∧ (except rt h e).1.maxConnections = rt.maxConnections ∧
      (except rt h e).2.1.acquired = h.acquired ∧ (except rt h e).2.1.released = h.released := by
  unfold Tunnel.except
  split_ifs <;> exact ⟨rfl, rfl, rfl, rfl⟩

theorem raiseBare_moves {rt : Runtime} {h : Handler} (e : Exc) (hB : Bounded h)
    (hrunning : h.stage.isEnded = false) : Moves rt (raiseBare rt h e).1 h (raiseBare rt h e).2 := by
  obtain ⟨hactive, hmax, hacq, hrel⟩ := except_same rt h e
  exact finish_moves hB hrunning hactive hmax hacq hrel

theorem raiseOpen_moves {rt : Runtime} {h : Handler} (e : Exc) (hB : Bounded h)
    (hrunning : h.stage.isEnded = false) : Moves rt (raiseOpen rt h e).1 h (raiseOpen rt h e).2 := by
  obtain ⟨hactive, hmax, hacq, hrel⟩ := except_same rt h e
  exact .of_same hB hactive hmax hacq hrel (by simp [raiseOpen]) hrunning

theorem leaveRelay_moves {rt : Runtime} {h : Handler} (o : Outcome) (hB : Bounded h)
    (hrunning : h.stage.isEnded = false) : Moves rt (leaveRelay rt h o).1 h (leaveRelay rt h o).2 := by
  rcases o with _ | e
  · exact finish_moves hB hrunning rfl rfl rfl rfl
  · exact raiseOpen_moves e hB hrunning

theorem Moves.of_pair {rt rt' : Runtime} {h h' : Handler} {p : Runtime × Handler}
    (hm : Moves rt p.1 h p.2) (hp : some p = some (rt', h')) : Moves rt rt' h h' := by
  obtain rfl := Option.some.inj hp
  exact hm

/-- **One step of a request.** -/
theorem act_moves {r : ℕ} {rt rt' : Runtime} {h h' : Handler} {e : Tunnel.Event} (hB : Bounded h)
    (hs : Tunnel.act r rt h e = some (rt', h')) : Moves rt rt' h h' := by
  have hrunning : ∀ {s : Tunnel.Stage}, h.stage = s → s.isEnded = false → h.stage.isEnded = false :=
    fun hstage hs => hstage ▸ hs
  unfold Tunnel.act at hs
  generalize hstage : h.stage = stage at hs
  split at hs
  case h_1 => exact (raiseBare_moves _ hB (hrunning hstage rfl)).of_pair hs
  case h_2 =>
    unfold Runtime.acquire at hs
    split_ifs at hs with hfull
    · exact (raiseBare_moves _ hB (hrunning hstage rfl)).of_pair hs
    · obtain ⟨rfl, rfl⟩ := Prod.mk.inj (Option.some.inj hs)
      have hzero := hB.idle hstage
      have hnone := hB.running (hrunning hstage rfl)
      refine ⟨⟨by simp [hzero], by simp [hnone], fun _ => hnone, nofun⟩, ?_, rfl, .inr ?_⟩
      · simp only [Status.slots]
        push_cast
        omega
      · simp only
        omega
  case h_3 | h_5 => exact (raiseBare_moves _ hB (hrunning hstage rfl)).of_pair hs
  case h_7 => exact (raiseOpen_moves _ hB (hrunning hstage rfl)).of_pair hs
  case h_9 =>
    split at hs
    · obtain ⟨rfl, rfl⟩ := Prod.mk.inj (Option.some.inj hs)
      exact .of_same hB rfl rfl rfl rfl nofun (hrunning hstage rfl)
    · split_ifs at hs <;> obtain ⟨rfl, rfl⟩ := Prod.mk.inj (Option.some.inj hs)
      · exact .of_same hB rfl rfl rfl rfl nofun (hrunning hstage rfl)
      · exact .of_same hB rfl rfl rfl rfl nofun (hrunning hstage rfl)
  case h_11 | h_13 => exact (leaveRelay_moves _ hB (hrunning hstage rfl)).of_pair hs
  case h_15 => exact (finish_moves hB (hrunning hstage rfl) rfl rfl rfl rfl).of_pair hs
  case h_16 => cases hs
  -- the awaits that lead to another await, and the one that ends without `release`
  all_goals
    obtain ⟨rfl, rfl⟩ := Prod.mk.inj (Option.some.inj hs)
    exact .of_same hB rfl rfl rfl rfl nofun (hrunning hstage rfl)

/-- A request that holds a slot, in flight or not. -/
def Occupies (h : Handler) : Bool := slots h == 1

structure InBounds (maxConnections : ℕ) (c : Crew Runtime Handler) : Prop where
  count : ∃ n : ℕ, Counts Occupies c.loc n ∧ c.shared.active = n
  capacity : c.shared.active ≤ maxConnections
  limit : c.shared.maxConnections = maxConnections
  bounded : ∀ r, Bounded (c.loc r)

theorem slots_cases {h : Handler} (hB : Bounded h) :
    slots h = 0 ∧ Occupies h = false ∨ slots h = 1 ∧ Occupies h = true := by
  have hone := hB.acquired
  have hle := hB.released
  have hcases : slots h = 0 ∨ slots h = 1 := by
    unfold slots
    omega
  rcases hcases with h0 | h1
  · exact .inl ⟨h0, by simp [Occupies, h0]⟩
  · exact .inr ⟨h1, by simp [Occupies, h1]⟩

theorem inBounds_start (maxConnections : ℕ) :
    InBounds maxConnections (Tunnel.start maxConnections) where
  count := ⟨0, ⟨∅, by simp [Tunnel.start, Handler.new, Occupies, slots], rfl⟩, rfl⟩
  capacity := by simp [Tunnel.start]
  limit := rfl
  bounded _ := ⟨Nat.zero_le 1, le_rfl, fun _ => rfl, fun _ => rfl⟩

theorem inBounds_step {maxConnections : ℕ} {c c' : Crew Runtime Handler} {e : ℕ × Tunnel.Event}
    (hI : InBounds maxConnections c) (hs : step Tunnel.act c e = some c') :
    InBounds maxConnections c' := by
  obtain ⟨rt', h', ha, rfl⟩ := step_eq_some.mp hs
  have hm := act_moves (hI.bounded e.1) ha
  obtain ⟨n, hn, hactive⟩ := hI.count
  have hcapacity := hI.capacity
  have hlimit := hI.limit
  have hslots := hm.slots
  refine ⟨?_, ?_, hm.limit.trans hlimit, fun r => ?_⟩
  · rcases slots_cases (hI.bounded e.1) with ⟨hold, hfree⟩ | ⟨hold, hheld⟩ <;>
      rcases slots_cases hm.bounded with ⟨hnew, hfree'⟩ | ⟨hnew, hheld'⟩
    · exact ⟨n, hn.update_same (hfree'.trans hfree.symm), by simp only; omega⟩
    · exact ⟨n + 1, hn.update_enter hfree hheld', by simp only; omega⟩
    · obtain ⟨hcount, hpos⟩ := hn.update_leave hheld hfree'
      exact ⟨n - 1, hcount, by simp only; omega⟩
    · exact ⟨n, hn.update_same (hheld'.trans hheld.symm), by simp only; omega⟩
  · rcases hm.room with hle | hle <;> simp only <;> omega
  · rcases eq_or_ne r e.1 with rfl | hr
    · simpa using hm.bounded
    · simpa [Function.update_of_ne hr] using hI.bounded r

/-- Every run keeps the slots in use between zero and their limit. -/
theorem active_range {maxConnections : ℕ} {es : List (ℕ × Tunnel.Event)} {c : Crew Runtime Handler}
    (hrun : run (step Tunnel.act) (Tunnel.start maxConnections) es = some c) :
    0 ≤ c.shared.active ∧ c.shared.active ≤ maxConnections ∧
      c.shared.maxConnections = maxConnections := by
  have hI := run_inv (fun _ _ _ hI hs => inBounds_step hI hs) es _ c (inBounds_start _) hrun
  obtain ⟨n, -, hactive⟩ := hI.count
  exact ⟨by omega, hI.capacity, hI.limit⟩

/-! ## The document -/

/-- What a resource provider returns. -/
structure Resources where
  load1m : Float64
  memoryTotalBytes : ℤ
  memoryAvailableBytes : ℤ
  diskTotalBytes : ℤ
  diskFreeBytes : ℤ
  uptimeSeconds : Float64

def statusFields (nodeId : List ℕ) (rt : Runtime) (publicIpv4 : List ℕ) (r : Resources) :
    List (List ℕ × Doc) :=
  [(text "node", .str nodeId),
    (text "active_connections", .int rt.active),
    (text "max_connections", .int rt.maxConnections),
    (text "accepted_connections", .int rt.accepted),
    (text "denied_connections", .int rt.denied),
    (text "public_ipv4", .str publicIpv4),
    (text "load_1m", .float r.load1m),
    (text "memory_total_bytes", .int r.memoryTotalBytes),
    (text "memory_available_bytes", .int r.memoryAvailableBytes),
    (text "disk_total_bytes", .int r.diskTotalBytes),
    (text "disk_free_bytes", .int r.diskFreeBytes),
    (text "uptime_seconds", .float r.uptimeSeconds),
    (text "agent_version", .str (text "1.0.0"))]

/-- `status`, once it has the address and the resources: the bytes of its answer. -/
def status (nodeId : List ℕ) (rt : Runtime) (publicIpv4 : List ℕ) (r : Resources) :
    Option (List ℕ) := (Doc.obj (statusFields nodeId rt publicIpv4 r)).write spaced

/-- The resources of a host: there is memory and a disk, and no more is free than there is. -/
structure Sound (r : Resources) : Prop where
  load : 0 ≤ floatValue r.load1m
  memory : 0 < r.memoryTotalBytes
  available : 0 ≤ r.memoryAvailableBytes ∧ r.memoryAvailableBytes ≤ r.memoryTotalBytes
  disk : 0 < r.diskTotalBytes
  free : 0 ≤ r.diskFreeBytes ∧ r.diskFreeBytes ≤ r.diskTotalBytes
  uptime : 0 ≤ floatValue r.uptimeSeconds

/-- What the monitor reads from the document. -/
def reported (rt : Runtime) (publicIpv4 : List ℕ) (r : Resources) : Payload where
  activeConnections := rt.active
  maxConnections := rt.maxConnections
  acceptedConnections := rt.accepted
  deniedConnections := rt.denied
  publicIpv4 := .str publicIpv4
  memoryTotalBytes := r.memoryTotalBytes
  memoryAvailableBytes := r.memoryAvailableBytes
  diskTotalBytes := r.diskTotalBytes
  diskFreeBytes := r.diskFreeBytes
  load1m := floatValue r.load1m
  uptimeSeconds := floatValue r.uptimeSeconds
  agentVersion := text "1.0.0"

variable {nodeId publicIpv4 : List ℕ} {rt : Runtime} {r : Resources}

theorem statusFields_nodup : ((statusFields nodeId rt publicIpv4 r).map Prod.fst).Nodup := by
  have hkeys : (statusFields nodeId rt publicIpv4 r).map Prod.fst =
      ["node", "active_connections", "max_connections", "accepted_connections",
        "denied_connections", "public_ipv4", "load_1m", "memory_total_bytes",
        "memory_available_bytes", "disk_total_bytes", "disk_free_bytes", "uptime_seconds",
        "agent_version"].map text := rfl
  rw [hkeys]
  decide +kernel

/-- A field of the document as the decoder returns it. -/
theorem get_status {f : List ℕ × Doc} (h : f ∈ statusFields nodeId rt publicIpv4 r) :
    get (fieldValues (statusFields nodeId rt publicIpv4 r)) f.1 = some f.2.value := by
  have hmem : (f.1, f.2.value) ∈ fieldValues (statusFields nodeId rt publicIpv4 r) := by
    simp only [statusFields, List.mem_cons, List.not_mem_nil, or_false] at h
    rcases h with rfl | rfl | rfl | rfl | rfl | rfl | rfl | rfl | rfl | rfl | rfl | rfl | rfl <;>
      simp [statusFields, fieldValues]
  have hnodup : ((fieldValues (statusFields nodeId rt publicIpv4 r)).map Prod.fst).Nodup := by
    rw [map_fst_fieldValues]
    exact statusFields_nodup
  exact Lib.JsonHooks.get_of_mem hnodup hmem

/-- The counters of the process: no more slots are in use than there are. -/
structure Serving (rt : Runtime) : Prop where
  slots : 0 < rt.maxConnections
  active : 0 ≤ rt.active ∧ rt.active ≤ rt.maxConnections

section Reading

open IdenGrid.Control.Monitor

theorem natField_status (name : String) (m : ℤ) (hm : 0 ≤ m)
    (h : (text name, Doc.int m) ∈ statusFields nodeId rt publicIpv4 r) :
    natField (fieldValues (statusFields nodeId rt publicIpv4 r)) name = some m := by
  have hget := get_status h
  rw [natField, hget]
  exact if_neg (by omega)

theorem numberField_status (name : String) {x : Float64} (hx : 0 ≤ floatValue x)
    (h : (text name, Doc.float x) ∈ statusFields nodeId rt publicIpv4 r) :
    numberField (fieldValues (statusFields nodeId rt publicIpv4 r)) name = .ok (floatValue x) := by
  have hget := get_status h
  rw [numberField, hget]
  exact if_neg (not_lt.mpr hx)

theorem checkCounts_status (nodeId : List ℕ) {n : ℕ} (hrt : Serving rt) (hr : Sound r) (hn : n < 2 ^ 32)
    (hglobal : Lib.Ipv4.isGlobal n = true) :
    checkCounts (fieldValues (statusFields nodeId rt (Lib.Ipv4.render n) r)) nodeId =
      .ok ⟨rt.active, rt.maxConnections, rt.accepted, rt.denied, .str (Lib.Ipv4.render n),
        r.memoryTotalBytes, r.memoryAvailableBytes, r.diskTotalBytes, r.diskFreeBytes⟩ := by
  have hget : ∀ f ∈ statusFields nodeId rt (Lib.Ipv4.render n) r,
      get (fieldValues (statusFields nodeId rt (Lib.Ipv4.render n) r)) f.1 = some f.2.value :=
    fun _ h => get_status h
  have hnode : namesNode (fieldValues (statusFields nodeId rt (Lib.Ipv4.render n) r)) nodeId = true := by
    rw [namesNode, hget (text "node", .str nodeId) List.mem_cons_self]
    exact beq_self_eq_true nodeId
  have hnat : ∀ (name : String) (m : ℤ), 0 ≤ m →
      (text name, Doc.int m) ∈ statusFields nodeId rt (Lib.Ipv4.render n) r →
      natField (fieldValues (statusFields nodeId rt (Lib.Ipv4.render n) r)) name = some m :=
    natField_status
  have haddress : address (.str (Lib.Ipv4.render n)) = some n :=
    Lib.Ipv4.parse_eq_some.mpr ⟨hn, rfl⟩
  obtain ⟨hslots, hactive, hlimit⟩ := hrt
  obtain ⟨-, hmemory, ⟨havailable, hmemory'⟩, hdisk, ⟨hfree, hdisk'⟩, -⟩ := hr
  unfold checkCounts
  rw [if_neg (by rw [hnode]; decide),
    hnat "active_connections" rt.active hactive (by simp [statusFields]),
    hnat "max_connections" rt.maxConnections (Int.natCast_nonneg _) (by simp [statusFields]),
    hnat "accepted_connections" rt.accepted (Int.natCast_nonneg _) (by simp [statusFields]),
    hnat "denied_connections" rt.denied (Int.natCast_nonneg _) (by simp [statusFields]),
    hnat "memory_total_bytes" r.memoryTotalBytes hmemory.le (by simp [statusFields]),
    hnat "memory_available_bytes" r.memoryAvailableBytes havailable (by simp [statusFields]),
    hnat "disk_total_bytes" r.diskTotalBytes hdisk.le (by simp [statusFields]),
    hnat "disk_free_bytes" r.diskFreeBytes hfree (by simp [statusFields]),
    hget (text "public_ipv4", .str (Lib.Ipv4.render n)) (by simp [statusFields])]
  dsimp only [Doc.value]
  rw [if_neg (by omega), haddress, Option.any_some, hglobal, if_neg (by decide), if_neg (by omega)]
  rfl

/-- The monitor accepts the document and reads from it what it says. -/
theorem validatePayload_status {n : ℕ} (hrt : Serving rt) (hr : Sound r) (hn : n < 2 ^ 32)
    (hglobal : Lib.Ipv4.isGlobal n = true) :
    validatePayload (Doc.obj (statusFields nodeId rt (Lib.Ipv4.render n) r)).value nodeId =
      .ok (reported rt (Lib.Ipv4.render n) r) := by
  have hcounts := checkCounts_status nodeId hrt hr hn hglobal
  have hload : numberField (fieldValues (statusFields nodeId rt (Lib.Ipv4.render n) r)) "load_1m" =
      .ok (floatValue r.load1m) := numberField_status _ hr.load (by simp [statusFields])
  have huptime : numberField (fieldValues (statusFields nodeId rt (Lib.Ipv4.render n) r))
      "uptime_seconds" = .ok (floatValue r.uptimeSeconds) :=
    numberField_status _ hr.uptime (by simp [statusFields])
  have hversion : versionField (fieldValues (statusFields nodeId rt (Lib.Ipv4.render n) r)) =
      .ok (text "1.0.0") := by
    have hget : get (fieldValues (statusFields nodeId rt (Lib.Ipv4.render n) r))
        (text "agent_version") = some (.str (text "1.0.0")) :=
      get_status (f := (text "agent_version", .str (text "1.0.0"))) (by simp [statusFields])
    rw [versionField, hget]
    exact if_neg (by decide)
  rw [Doc.value, validatePayload, hcounts, hload, huptime, hversion]
  rfl

/-- Numbers of 64 bits. -/
structure Fits (rt : Runtime) (r : Resources) : Prop where
  limit : rt.maxConnections < 2 ^ 63
  accepted : rt.accepted < 2 ^ 63
  denied : rt.denied < 2 ^ 63
  memory : r.memoryTotalBytes < 2 ^ 63
  disk : r.diskTotalBytes < 2 ^ 63

theorem short_of_fits {m : ℤ} (h0 : 0 ≤ m) (h : m < 2 ^ 63) : (Doc.int m).Short := by
  have hpow : (2 : ℕ) ^ 63 < 10 ^ maxDigits :=
    lt_of_lt_of_le (by decide : (2 : ℕ) ^ 63 < 10 ^ 19) (Nat.pow_le_pow_right (by decide) (by decide))
  have hlt : m.natAbs < 2 ^ 63 := by omega
  exact hlt.trans hpow

theorem noPair_render (n : ℕ) (hn : n < 2 ^ 32) : NoPair (Lib.Ipv4.render n) := by
  refine noPair_of_ascii fun c hc => ?_
  have hdigits := Lib.Ipv4.parse_digits (Lib.Ipv4.parse_eq_some.mpr ⟨hn, rfl⟩) c hc
  omega

theorem valid_status {n : ℕ} (hnode : NoPair nodeId) (hn : n < 2 ^ 32) :
    (Doc.obj (statusFields nodeId rt (Lib.Ipv4.render n) r)).Valid := by
  have hkey := noPair_text
  refine ⟨?_, statusFields_nodup⟩
  simp only [statusFields, ValidFields, Doc.Valid, and_true, hkey, hnode, noPair_render n hn]

theorem short_status {n : ℕ} (hrt : Serving rt) (hr : Sound r) (hfits : Fits rt r) :
    (Doc.obj (statusFields nodeId rt (Lib.Ipv4.render n) r)).Short := by
  obtain ⟨hslots, hactive, hlimit⟩ := hrt
  obtain ⟨-, hmemory, ⟨havailable, hmemory'⟩, hdisk, ⟨hfree, hdisk'⟩, -⟩ := hr
  obtain ⟨h1, h2, h3, h4, h5⟩ := hfits
  exact ⟨trivial, short_of_fits hactive (by omega), short_of_fits (by omega) (by omega),
    short_of_fits (by omega) (by omega), short_of_fits (by omega) (by omega), trivial, trivial,
    short_of_fits (by omega) h4, short_of_fits havailable (by omega), short_of_fits (by omega) h5,
    short_of_fits hfree (by omega), trivial, trivial, trivial⟩

/-- The text of the document is accepted. -/
theorem readStatus_write {depth n : ℕ} (hdepth : 0 < depth) (hnode : NoPair nodeId)
    (hrt : Serving rt) (hr : Sound r) (hfits : Fits rt r) (hn : n < 2 ^ 32)
    (hglobal : Lib.Ipv4.isGlobal n = true) :
    ∃ content, status nodeId rt (Lib.Ipv4.render n) r = some content ∧
      readStatus depth content nodeId = .ok (reported rt (Lib.Ipv4.render n) r) := by
  obtain ⟨content, hcontent⟩ :=
    exists_write spaced (.obj (statusFields nodeId rt (Lib.Ipv4.render n) r)) (short_status hrt hr hfits)
  refine ⟨content, hcontent, ?_⟩
  have hload : loads depth content = .ok _ :=
    loads_write (valid_status hnode hn) (by simpa [Doc.height, heightFields, statusFields]) hcontent
  rw [readStatus, hload]
  exact validatePayload_status hrt hr hn hglobal

/-- **Every status an Edge reports is accepted by the monitor**, field by field: in every state of the
slots, with every address that the cache returns in any run of its requests, and for sound resources. -/
theorem reported_status {U : Lib.PythonInt.Unicode} {ttl : ℚ} {maxConnections depth q : ℕ}
    {es : List (ℕ × Tunnel.Event)} {c : Crew Runtime Handler}
    (hrun : run (step Tunnel.act) (Tunnel.start maxConnections) es = some c)
    {ls : List (ℕ × LookupEvent)} {k : Crew Cache Lookup}
    (hlookups : run (step (lookup U ttl)) empty ls = some k)
    (hip : (k.loc q).result = some publicIpv4) (hslots : 0 < maxConnections) (hdepth : 0 < depth)
    (hnode : NoPair nodeId) (hr : Sound r) (hfits : Fits c.shared r) :
    ∃ content, status nodeId c.shared publicIpv4 r = some content ∧
      readStatus depth content nodeId = .ok (reported c.shared publicIpv4 r) := by
  have hS := run_inv (fun _ _ _ hS hs => sourced_step hS hs) ls empty k (sourced_empty (U := U)) hlookups
  obtain ⟨q', ⟨-, hanswer⟩, -⟩ := hS.results q publicIpv4 hip
  obtain ⟨answer, -, hvalue⟩ := Option.bind_eq_some_iff.mp hanswer
  obtain ⟨n, hn, hglobal, rfl, -⟩ := globalAddress_eq_some hvalue
  obtain ⟨hactive, hlimit, hmax⟩ := active_range hrun
  have hserving : Serving c.shared := ⟨by omega, hactive, by omega⟩
  exact readStatus_write hdepth hnode hserving hr hfits hn hglobal

/-- A half and a thousand. -/
def half : Float64 := ⟨false, 1 / 2, by norm_num, by decide +kernel, by decide +kernel⟩

def thousand : Float64 := ⟨false, 1000, by norm_num, by decide +kernel, by decide +kernel⟩

/-- A host with memory, a disk and little to do. -/
def quiet : Resources where
  load1m := half
  memoryTotalBytes := 4294967296
  memoryAvailableBytes := 2147483648
  diskTotalBytes := 68719476736
  diskFreeBytes := 34359738368
  uptimeSeconds := thousand

theorem sound_quiet : Sound quiet :=
  ⟨by decide +kernel, by decide, by decide, by decide, by decide, by decide +kernel⟩

/-- One request in flight, and the address that the second lookup has found in the cache. -/
theorem reported_status_quiet : ∃ c k,
    run (step Tunnel.act) (Tunnel.start 64) [(0, .begin none)] = some c ∧
    run (step (lookup .ascii 60)) empty twice = some k ∧
    ∃ content, status (text "edge-a") c.shared (text "8.8.8.8") quiet = some content ∧
      readStatus 1 content (text "edge-a") = .ok (reported c.shared (text "8.8.8.8") quiet) := by
  have hshared : ((run (step Tunnel.act) (Tunnel.start 64) [(0, .begin none)]).map Crew.shared) =
      some ⟨64, 1, 0, 0⟩ := by decide
  have hresult : ((run (step (lookup .ascii 60)) empty twice).map fun k => (k.loc 1).result) =
      some (some (text "8.8.8.8")) := by decide +kernel
  obtain ⟨c, hc, hrt⟩ := Option.map_eq_some_iff.mp hshared
  obtain ⟨k, hk, hip⟩ := Option.map_eq_some_iff.mp hresult
  have hfits : Fits c.shared quiet := by
    rw [hrt]
    exact ⟨by decide, by decide, by decide, by decide, by decide⟩
  exact ⟨c, k, hc, hk, reported_status hc hk hip (by decide) (by decide) (noPair_text "edge-a")
    sound_quiet hfits⟩

end Reading

end IdenGrid.Edge.Status
