import IdenGrid.Lib.Requests

/-! # Tunnel slots

The handler `tunnel` of the Edge process with the `_relay` it awaits, cut at their awaits: every
awaited step may return, raise any exception or be cancelled. Any number of handlers run
concurrently on one `Runtime`.

Two awaits are not covered by the handler's bookkeeping. The `finally` block awaits
`writer.wait_closed()` before it releases the slot, so an exception there keeps the slot for good;
and an `OSError` that leaves `_relay` after the connection was counted as accepted is counted as
denied as well. `covered` excludes these two, and `tunnel_accounting_iff` says that nothing else
goes wrong. -/

namespace IdenGrid.Edge.Tunnel

open IdenGrid.Lib.Run IdenGrid.Lib.Requests

/-- The exceptions, as far as the two handlers tell them apart. `timeout` is `TimeoutError`, a
subclass of `OSError`; `ticketError` and `targetDenied` are subclasses of `ValueError`;
`cancelled` is a `BaseException` only. -/
inductive Exc
  | ticketError
  | targetDenied
  | timeout
  | osError
  | valueError
  | httpError
  | other
  | cancelled
  deriving DecidableEq, Repr

/-- The outcome of an awaited step: `none` if it returns. -/
abbrev Outcome := Option Exc

/-- `except (TimeoutError, ValueError)` in `_relay`. -/
def Exc.caughtByRelay : Exc → Bool
  | .timeout | .valueError | .ticketError | .targetDenied => true
  | _ => false

/-- The three `except` clauses of `tunnel`. -/
def Exc.caughtByTunnel : Exc → Bool
  | .ticketError | .targetDenied | .timeout | .osError => true
  | _ => false

structure Runtime where
  maxConnections : ℕ
  active : ℤ
  accepted : ℕ
  denied : ℕ
  deriving DecidableEq, Repr

def Runtime.acquire (rt : Runtime) : Option Runtime :=
  if rt.active ≥ rt.maxConnections then none else some { rt with active := rt.active + 1 }

def Runtime.release (rt : Runtime) : Runtime := { rt with active := rt.active - 1 }

/-- The await a handler is suspended at. `pending` is the exception that a `finally` block will
raise again. -/
inductive Stage
  | idle
  | resolving
  | connecting
  | preparing
  | relayWaiting
  | relayClosingWs
  | relayGathering (pending : Outcome)
  | relayClosingWriter (pending : Outcome)
  | closingWriter (pending : Outcome)
  | ended (outcome : Outcome)
  deriving DecidableEq, Repr

/-- A handler and what it has done to the counters. -/
structure Handler where
  stage : Stage
  acquired : ℕ
  released : ℕ
  accepted : ℕ
  denied : ℕ
  deriving DecidableEq, Repr

def Handler.new : Handler := ⟨.idle, 0, 0, 0, 0⟩

/-- How an await ends. `begin` carries the outcome of the ticket checks; `waited` that of
`asyncio.wait`, and the results of its done tasks in the order the loop takes them. -/
inductive Event
  | begin (ticket : Outcome)
  | resolved (o : Outcome)
  | connected (o : Outcome)
  | prepared (o : Outcome)
  | waited (o : Outcome) (done : List Outcome)
  | wsClosed (o : Outcome)
  | gathered (o : Outcome)
  | relayWriterClosed (o : Outcome)
  | writerClosed (o : Outcome)
  deriving DecidableEq, Repr

/-- The end of `finally`: the slot is released if it was acquired. -/
def finish (rt : Runtime) (h : Handler) (outcome : Outcome) : Runtime × Handler :=
  if h.acquired = 0 then (rt, { h with stage := .ended outcome })
  else (rt.release, { h with stage := .ended outcome, released := h.released + 1 })

/-- The `except` clauses of `tunnel`: the counter, and the exception raised instead. -/
def except (rt : Runtime) (h : Handler) (e : Exc) : Runtime × Handler × Exc :=
  if e.caughtByTunnel then
    ({ rt with denied := rt.denied + 1 }, { h with denied := h.denied + 1 }, .httpError)
  else (rt, h, e)

/-- An exception while there is no writer. -/
def raiseBare (rt : Runtime) (h : Handler) (e : Exc) : Runtime × Handler :=
  let (rt, h, e) := except rt h e
  finish rt h (some e)

/-- An exception while there is a writer: `finally` closes it and waits. -/
def raiseOpen (rt : Runtime) (h : Handler) (e : Exc) : Runtime × Handler :=
  let (rt, h, e) := except rt h e
  (rt, { h with stage := .closingWriter (some e) })

/-- What leaves `_relay`: a return drops the writer, an exception keeps it. -/
def leaveRelay (rt : Runtime) (h : Handler) : Outcome → Runtime × Handler
  | none => finish rt h none
  | some e => raiseOpen rt h e

/-- The first exception in the order of the loop over the done tasks. -/
def firstRaised (done : List Outcome) : Outcome := done.findSome? id

/-- One await of a handler ends. -/
def act (_r : ℕ) (rt : Runtime) (h : Handler) (e : Event) : Option (Runtime × Handler) :=
  match h.stage, e with
  | .idle, .begin (some e) => some (raiseBare rt h e)
  | .idle, .begin none =>
    match rt.acquire with
    | none => some (raiseBare rt h .httpError)
    | some rt => some (rt, { h with stage := .resolving, acquired := h.acquired + 1 })
  | .resolving, .resolved (some e) => some (raiseBare rt h e)
  | .resolving, .resolved none => some (rt, { h with stage := .connecting })
  | .connecting, .connected (some e) => some (raiseBare rt h e)
  | .connecting, .connected none => some (rt, { h with stage := .preparing })
  | .preparing, .prepared (some e) => some (raiseOpen rt h e)
  | .preparing, .prepared none =>
    some ({ rt with accepted := rt.accepted + 1 },
      { h with stage := .relayWaiting, accepted := h.accepted + 1 })
  | .relayWaiting, .waited o done =>
    match o.or (firstRaised done) with
    | none => some (rt, { h with stage := .relayGathering none })
    | some e =>
      if e.caughtByRelay then some (rt, { h with stage := .relayClosingWs })
      else some (rt, { h with stage := .relayGathering (some e) })
  | .relayClosingWs, .wsClosed o => some (rt, { h with stage := .relayGathering o })
  | .relayGathering _, .gathered (some e) => some (leaveRelay rt h (some e))
  | .relayGathering pending, .gathered none =>
    some (rt, { h with stage := .relayClosingWriter pending })
  | .relayClosingWriter pending, .relayWriterClosed o => some (leaveRelay rt h (o.or pending))
  | .closingWriter _, .writerClosed (some e) => some (rt, { h with stage := .ended (some e) })
  | .closingWriter pending, .writerClosed none => some (finish rt h pending)
  | _, _ => none

/-- A fresh Edge process. -/
def start (maxConnections : ℕ) : Crew Runtime Handler where
  shared := { maxConnections := maxConnections, active := 0, accepted := 0, denied := 0 }
  loc := fun _ => .new

/-- The last await of `tunnel` returns, and no exception that `tunnel` takes for a denial leaves
`_relay`. -/
def covered (h : Handler) (e : Event) : Bool :=
  match h.stage, e with
  | .relayGathering _, .gathered (some e) => !e.caughtByTunnel
  | .relayClosingWriter pending, .relayWriterClosed o => !(o.or pending).any Exc.caughtByTunnel
  | .closingWriter _, .writerClosed o => o.isNone
  | _, _ => true

def Stage.isEnded : Stage → Bool
  | .ended _ => true
  | _ => false

/-- A handler in flight that acquired a slot. -/
def Handler.holdsSlot (h : Handler) : Bool := h.acquired == 1 && !h.stage.isEnded

/-- **Slot accounting**: the slots in use are those of the handlers in flight that acquired one, and
not more than there are; a handler that has ended has released what it acquired, one in flight has
released nothing; and none is counted more than once as accepted or denied. -/
structure Accounted (c : Crew Runtime Handler) : Prop where
  slots : ∃ n : ℕ, Counts Handler.holdsSlot c.loc n ∧ c.shared.active = n
  capacity : c.shared.active ≤ c.shared.maxConnections
  released : ∀ r, (c.loc r).released = if (c.loc r).stage.isEnded then (c.loc r).acquired else 0
  once : ∀ r, (c.loc r).acquired ≤ 1
  counted : ∀ r, (c.loc r).accepted + (c.loc r).denied ≤ 1

/-! ## One handler -/

/-- What the stage of a handler says about its counters. -/
def Shape (h : Handler) : Prop :=
  match h.stage with
  | .idle => h.acquired = 0 ∧ h.released = 0 ∧ h.accepted = 0 ∧ h.denied = 0
  | .resolving | .connecting | .preparing =>
    h.acquired = 1 ∧ h.released = 0 ∧ h.accepted = 0 ∧ h.denied = 0
  | .relayWaiting | .relayClosingWs | .relayGathering _ | .relayClosingWriter _ =>
    h.acquired = 1 ∧ h.released = 0 ∧ h.accepted = 1 ∧ h.denied = 0
  | .closingWriter _ => h.acquired = 1 ∧ h.released = 0 ∧ h.accepted + h.denied ≤ 1
  | .ended _ => h.acquired ≤ 1 ∧ h.released = h.acquired ∧ h.accepted + h.denied ≤ 1

/-- The slot a handler holds, as a number. -/
def Handler.slot (h : Handler) : ℤ := if h.holdsSlot then 1 else 0

/-- One step of a handler keeps its shape, and moves the slots in use with its own. -/
structure Keeps (rt rt' : Runtime) (h h' : Handler) : Prop where
  shape : Shape h'
  slots : rt'.active = rt.active + h'.slot - h.slot
  limit : rt'.maxConnections = rt.maxConnections
  room : h.slot < h'.slot → rt.active < rt.maxConnections

theorem slot_eq_one {h : Handler} (ha : h.acquired = 1) (hs : h.stage.isEnded = false) :
    h.slot = 1 := by simp [Handler.slot, Handler.holdsSlot, ha, hs]

theorem slot_eq_zero {h : Handler} (ha : h.acquired = 0) : h.slot = 0 := by
  simp [Handler.slot, Handler.holdsSlot, ha]

/-- A handler without a writer, and one with a return to make, end through `finish`. -/
theorem finish_keeps {rt rt0 : Runtime} {h h0 : Handler} {outcome : Outcome}
    (hactive : rt.active = rt0.active) (hmax : rt.maxConnections = rt0.maxConnections)
    (hacq : h.acquired ≤ 1) (hrel : h.released = 0) (hcount : h.accepted + h.denied ≤ 1)
    (hslot : h0.slot = h.acquired) :
    Keeps rt0 (finish rt h outcome).1 h0 (finish rt h outcome).2 := by
  have hend : (finish rt h outcome).2.slot = 0 := by
    unfold finish
    split_ifs <;> simp [Handler.slot, Handler.holdsSlot, Stage.isEnded]
  refine ⟨?_, ?_, ?_, fun hlt => ?_⟩
  · unfold finish
    split_ifs with h0
    · exact ⟨hacq, hrel.trans h0.symm, hcount⟩
    · refine ⟨hacq, ?_, hcount⟩
      simp only
      omega
  · rw [hend, hslot]
    unfold finish
    split_ifs with h0
    · simp [hactive, h0]
    · simp only [Runtime.release, hactive]
      omega
  · unfold finish
    split_ifs <;> exact hmax
  · rw [hend, hslot] at hlt
    omega

/-- An exception without a writer: at most one counter moves, the slot is released. -/
theorem raiseBare_keeps {rt : Runtime} {h : Handler} {e : Exc} (hacq : h.acquired ≤ 1)
    (hrel : h.released = 0) (hacc : h.accepted = 0) (hden : h.denied = 0)
    (hslot : h.slot = h.acquired) : Keeps rt (raiseBare rt h e).1 h (raiseBare rt h e).2 := by
  unfold raiseBare except
  split_ifs
  · exact finish_keeps rfl rfl hacq hrel (by simp [hacc, hden]) hslot
  · exact finish_keeps rfl rfl hacq hrel (by simp [hacc, hden]) hslot

/-- A step that neither takes nor gives back a slot. -/
theorem Keeps.of_stage {rt rt' : Runtime} {h h' : Handler} (hshape : Shape h')
    (hactive : rt'.active = rt.active) (hmax : rt'.maxConnections = rt.maxConnections)
    (hslot : h'.slot = h.slot) : Keeps rt rt' h h' :=
  ⟨hshape, by omega, hmax, fun hlt => by omega⟩

/-- An exception with a writer, where at most one counter has moved by then. -/
theorem raiseOpen_keeps {rt : Runtime} {h : Handler} {e : Exc} (hacq : h.acquired = 1)
    (hrel : h.released = 0) (hs : h.stage.isEnded = false)
    (hcount : h.accepted + h.denied + (if e.caughtByTunnel then 1 else 0) ≤ 1) :
    Keeps rt (raiseOpen rt h e).1 h (raiseOpen rt h e).2 := by
  have hslot := slot_eq_one hacq hs
  unfold raiseOpen except
  split_ifs at hcount ⊢ with hc
  · refine .of_stage ⟨hacq, hrel, ?_⟩ rfl rfl ?_
    · simp only; omega
    · rw [hslot]; exact slot_eq_one hacq rfl
  · refine .of_stage ⟨hacq, hrel, ?_⟩ rfl rfl ?_
    · simp only; omega
    · rw [hslot]; exact slot_eq_one hacq rfl

theorem Keeps.of_eq {rt rt' : Runtime} {h h' : Handler} {p : Runtime × Handler}
    (hk : Keeps rt p.1 h p.2) (hp : p = (rt', h')) : Keeps rt rt' h h' := by
  rwa [hp] at hk

theorem leaveRelay_keeps {rt : Runtime} {h : Handler} {o : Outcome} (hacq : h.acquired = 1)
    (hrel : h.released = 0) (hacc : h.accepted = 1) (hden : h.denied = 0)
    (hs : h.stage.isEnded = false) (hc : o.any Exc.caughtByTunnel = false) :
    Keeps rt (leaveRelay rt h o).1 h (leaveRelay rt h o).2 := by
  rcases o with _ | e
  · exact finish_keeps rfl rfl (by omega) hrel (by omega)
      ((slot_eq_one hacq hs).trans (by rw [hacq]; rfl))
  · have he : e.caughtByTunnel = false := by simpa using hc
    exact raiseOpen_keeps hacq hrel hs (by simp [he, hacc, hden])

/-- An await that returns to another await. -/
theorem Keeps.of_await {rt : Runtime} {h : Handler} {stage : Stage} (hacq : h.acquired = 1)
    (hs : h.stage.isEnded = false) (hs' : stage.isEnded = false)
    (hshape : Shape { h with stage := stage }) : Keeps rt rt h { h with stage := stage } := by
  refine .of_stage hshape rfl rfl ?_
  rw [slot_eq_one hacq hs]; exact slot_eq_one hacq hs'

/-- **One covered step of a handler.** -/
theorem act_keeps {r : ℕ} {rt rt' : Runtime} {h h' : Handler} {e : Event} (hshape : Shape h)
    (hc : covered h e = true) (hs : act r rt h e = some (rt', h')) : Keeps rt rt' h h' := by
  unfold act at hs
  split at hs <;> rename_i hstage <;> simp only [Shape, hstage] at hshape
  · -- the ticket checks raise
    obtain ⟨hacq, hrel, hacc, hden⟩ := hshape
    exact (raiseBare_keeps (by omega) hrel hacc hden (by rw [slot_eq_zero hacq, hacq]; rfl)).of_eq
      (Option.some.inj hs)
  · -- the ticket checks pass
    obtain ⟨hacq, hrel, hacc, hden⟩ := hshape
    have hslot := slot_eq_zero hacq
    unfold Runtime.acquire at hs
    split_ifs at hs with hfull
    · exact (raiseBare_keeps (by omega) hrel hacc hden (by rw [hslot, hacq]; rfl)).of_eq
        (Option.some.inj hs)
    · obtain ⟨rfl, rfl⟩ := Prod.mk.inj (Option.some.inj hs)
      have hacq' : h.acquired + 1 = 1 := by omega
      refine ⟨⟨hacq', hrel, hacc, hden⟩, ?_, rfl, fun _ => not_le.mp hfull⟩
      rw [hslot, slot_eq_one hacq' rfl]
      simp
  · obtain ⟨hacq, hrel, hacc, hden⟩ := hshape
    have hslot := slot_eq_one hacq (by rw [hstage]; rfl)
    exact (raiseBare_keeps (by omega) hrel hacc hden (by rw [hslot, hacq]; rfl)).of_eq
      (Option.some.inj hs)
  · obtain ⟨hacq, hrel, hacc, hden⟩ := hshape
    obtain ⟨rfl, rfl⟩ := Prod.mk.inj (Option.some.inj hs)
    exact .of_await hacq (by rw [hstage]; rfl) rfl ⟨hacq, hrel, hacc, hden⟩
  · obtain ⟨hacq, hrel, hacc, hden⟩ := hshape
    have hslot := slot_eq_one hacq (by rw [hstage]; rfl)
    exact (raiseBare_keeps (by omega) hrel hacc hden (by rw [hslot, hacq]; rfl)).of_eq
      (Option.some.inj hs)
  · obtain ⟨hacq, hrel, hacc, hden⟩ := hshape
    obtain ⟨rfl, rfl⟩ := Prod.mk.inj (Option.some.inj hs)
    exact .of_await hacq (by rw [hstage]; rfl) rfl ⟨hacq, hrel, hacc, hden⟩
  · -- preparing raises: nothing has been counted yet
    obtain ⟨hacq, hrel, hacc, hden⟩ := hshape
    refine (raiseOpen_keeps hacq hrel (by rw [hstage]; rfl) ?_).of_eq (Option.some.inj hs)
    rw [hacc, hden]
    split_ifs <;> omega
  · obtain ⟨hacq, hrel, hacc, hden⟩ := hshape
    obtain ⟨rfl, rfl⟩ := Prod.mk.inj (Option.some.inj hs)
    have hslot := slot_eq_one hacq (by rw [hstage]; rfl)
    refine .of_stage ⟨hacq, hrel, by simp [hacc], hden⟩ rfl rfl ?_
    rw [hslot]; exact slot_eq_one hacq rfl
  · -- asyncio.wait, and the results of its tasks
    obtain ⟨hacq, hrel, hacc, hden⟩ := hshape
    have hs0 : h.stage.isEnded = false := by rw [hstage]; rfl
    split at hs
    · obtain ⟨rfl, rfl⟩ := Prod.mk.inj (Option.some.inj hs)
      exact .of_await hacq hs0 rfl ⟨hacq, hrel, hacc, hden⟩
    · split_ifs at hs <;> obtain ⟨rfl, rfl⟩ := Prod.mk.inj (Option.some.inj hs)
      · exact .of_await hacq hs0 rfl ⟨hacq, hrel, hacc, hden⟩
      · exact .of_await hacq hs0 rfl ⟨hacq, hrel, hacc, hden⟩
  · obtain ⟨hacq, hrel, hacc, hden⟩ := hshape
    obtain ⟨rfl, rfl⟩ := Prod.mk.inj (Option.some.inj hs)
    exact .of_await hacq (by rw [hstage]; rfl) rfl ⟨hacq, hrel, hacc, hden⟩
  · -- gather is cancelled
    obtain ⟨hacq, hrel, hacc, hden⟩ := hshape
    refine (leaveRelay_keeps hacq hrel hacc hden (by rw [hstage]; rfl) ?_).of_eq
      (Option.some.inj hs)
    simpa [covered, hstage] using hc
  · obtain ⟨hacq, hrel, hacc, hden⟩ := hshape
    obtain ⟨rfl, rfl⟩ := Prod.mk.inj (Option.some.inj hs)
    exact .of_await hacq (by rw [hstage]; rfl) rfl ⟨hacq, hrel, hacc, hden⟩
  · -- the end of `_relay`
    obtain ⟨hacq, hrel, hacc, hden⟩ := hshape
    refine (leaveRelay_keeps hacq hrel hacc hden (by rw [hstage]; rfl) ?_).of_eq
      (Option.some.inj hs)
    simpa [covered, hstage] using hc
  · simp [covered, hstage] at hc
  · -- the end of `tunnel`
    obtain ⟨hacq, hrel, hcount⟩ := hshape
    have hslot := slot_eq_one hacq (by rw [hstage]; rfl)
    exact (finish_keeps rfl rfl (by omega) hrel hcount (by rw [hslot, hacq]; rfl)).of_eq
      (Option.some.inj hs)
  · cases hs

/-! ## All handlers -/

/-- What covered runs keep. -/
structure Inv (c : Crew Runtime Handler) : Prop where
  slots : ∃ n : ℕ, Counts Handler.holdsSlot c.loc n ∧ c.shared.active = n
  capacity : c.shared.active ≤ c.shared.maxConnections
  shape : ∀ r, Shape (c.loc r)

theorem Inv.start (maxConnections : ℕ) : Inv (start maxConnections) :=
  ⟨⟨0, ⟨∅, by simp [Tunnel.start, Handler.new, Handler.holdsSlot], rfl⟩, rfl⟩,
    by simp [Tunnel.start], fun _ => ⟨rfl, rfl, rfl, rfl⟩⟩

/-- The shape of a handler is its part of the accounting. -/
theorem Shape.accounted {h : Handler} (hs : Shape h) :
    h.released = (if h.stage.isEnded then h.acquired else 0) ∧ h.acquired ≤ 1 ∧
      h.accepted + h.denied ≤ 1 := by
  unfold Shape at hs
  split at hs <;> rename_i hstage <;> simp only [hstage, Stage.isEnded, if_true, if_false,
    Bool.false_eq_true] <;> omega

theorem Inv.accounted {c : Crew Runtime Handler} (hI : Inv c) : Accounted c :=
  ⟨hI.slots, hI.capacity, fun r => (hI.shape r).accounted.1, fun r => (hI.shape r).accounted.2.1,
    fun r => (hI.shape r).accounted.2.2⟩

theorem Inv.step {c c' : Crew Runtime Handler} {e : ℕ × Event} (hI : Inv c)
    (hc : covered (c.loc e.1) e.2 = true) (hs : step act c e = some c') : Inv c' := by
  obtain ⟨rt', h', ha, rfl⟩ := step_eq_some.mp hs
  have hk := act_keeps (hI.shape e.1) hc ha
  obtain ⟨n, hn, hactive⟩ := hI.slots
  have hroom := hI.capacity
  have hslots := hk.slots
  have hfree := hk.room
  have hmax := hk.limit
  refine ⟨?_, ?_, fun r => ?_⟩
  · rcases hold : (c.loc e.1).holdsSlot <;> rcases hnew : h'.holdsSlot <;>
      simp only [Handler.slot, hold, hnew, if_true, if_false, Bool.false_eq_true] at hslots
    · exact ⟨n, hn.update_same (hnew.trans hold.symm), by simp only; omega⟩
    · exact ⟨n + 1, hn.update_enter hold hnew, by simp only; omega⟩
    · obtain ⟨hcount, hpos⟩ := hn.update_leave hold hnew
      exact ⟨n - 1, hcount, by simp only; omega⟩
    · exact ⟨n, hn.update_same (hnew.trans hold.symm), by simp only; omega⟩
  · simp only [Handler.slot] at hslots hfree ⊢
    split_ifs at hslots hfree <;> omega
  · rcases eq_or_ne r e.1 with rfl | hr
    · simpa using hk.shape
    · simpa [Function.update_of_ne hr] using hI.shape r

/-- A step that is not covered leaves a handler with a slot it will not release, or counted
twice. -/
theorem uncovered_breaks {c c' : Crew Runtime Handler} {e : ℕ × Event} (hI : Inv c)
    (hc : ¬ covered (c.loc e.1) e.2 = true) (hs : step act c e = some c') : ¬ Accounted c' := by
  obtain ⟨r, e⟩ := e
  obtain ⟨rt', h', ha, rfl⟩ := step_eq_some.mp hs
  have hshape := hI.shape r
  simp only at hc ha
  generalize c.loc r = h at hc ha hshape
  intro hacc
  have hcounted : h'.accepted + h'.denied ≤ 1 := by simpa using hacc.counted r
  have hreleased : h'.released = if h'.stage.isEnded then h'.acquired else 0 := by
    simpa using hacc.released r
  have hdouble : ∀ {o : Outcome}, h.accepted = 1 → o.any Exc.caughtByTunnel = true →
      leaveRelay c.shared h o = (rt', h') → False := by
    intro o h1 hcaught hl
    rcases o with _ | x
    · cases hcaught
    · have hx : x.caughtByTunnel = true := by simpa using hcaught
      simp only [leaveRelay, raiseOpen, except, hx, if_true, Prod.mk.injEq] at hl
      obtain ⟨-, rfl⟩ := hl
      simp only at hcounted
      omega
  unfold covered at hc
  split at hc <;> rename_i hstage <;> simp only [Shape, hstage] at hshape <;>
    simp only [act, hstage] at ha
  · exact hdouble hshape.2.2.1 (by simpa using hc) (Option.some.inj ha)
  · exact hdouble hshape.2.2.1 (by simpa using hc) (Option.some.inj ha)
  · -- the slot is kept
    next o =>
    rcases o with _ | x
    · simp at hc
    · obtain ⟨-, rfl⟩ := Prod.mk.inj (Option.some.inj ha)
      simp only [Stage.isEnded, if_true] at hreleased
      omega
  · exact hc rfl

/-- **Slot accounting, exactly**: all states of a run of tunnel handlers are accounted for if and
only if the last await of every handler returns and no exception that `tunnel` takes for a denial
leaves a `_relay`. -/
theorem tunnel_accounting_iff (maxConnections : ℕ) {evs : List (ℕ × Event)}
    {c : Crew Runtime Handler} (hr : run (step act) (start maxConnections) evs = some c) :
    Visits (step act) Accounted (start maxConnections) evs ↔
      Along (step act) (fun c e => covered (c.loc e.1) e.2 = true) (start maxConnections) evs :=
  (along_iff_visits (C := fun c e => covered (c.loc e.1) e.2 = true) (I := Inv)
    (fun _ hI => hI.accounted) (fun _ _ _ hI hc hs => hI.step hc hs)
    (fun _ _ _ hI hc hs => uncovered_breaks hI hc hs) evs _ c (Inv.start maxConnections) hr).symm

/-! ## Two runs on one slot -/

/-- A relay that ends with the target's end of stream, then a denied request. -/
def quietRun : List (ℕ × Event) :=
  [(0, .begin none), (1, .begin none), (0, .resolved none), (0, .connected none),
    (0, .prepared none), (0, .waited none [none]), (0, .gathered none),
    (0, .relayWriterClosed none), (2, .begin none), (2, .resolved (some .targetDenied))]

/-- The connection breaks after the tunnel was opened: `drain` raises in the relay, and both closes
raise the exception again. -/
def brokenRun : List (ℕ × Event) :=
  [(0, .begin none), (0, .resolved none), (0, .connected none), (0, .prepared none),
    (0, .waited none [some .osError]), (0, .gathered none),
    (0, .relayWriterClosed (some .osError)), (0, .writerClosed (some .osError)),
    (1, .begin none)]

theorem tunnel_accounting_iff_quiet : Visits (step act) Accounted (start 1) quietRun := by
  have hrun : (run (step act) (start 1) quietRun).isSome = true := by decide
  exact (tunnel_accounting_iff 1 (Option.some_get hrun).symm).mpr (by decide)

/-- No handler is in flight, the only slot is taken, and the request was counted twice; the next
request is refused. -/
theorem broken_connection_leaks_slot : ∃ c,
    run (step act) (start 1) brokenRun = some c ∧
      Counts Handler.holdsSlot c.loc 0 ∧ c.shared.active = 1 ∧
      (c.loc 0).accepted + (c.loc 0).denied = 2 ∧
      (c.loc 1).stage = .ended (some .httpError) ∧ ¬ Accounted c := by
  have hobs : (run (step act) (start 1) brokenRun).map (fun c => (c.shared, c.loc 0, c.loc 1)) =
      some (⟨1, 1, 1, 1⟩, ⟨.ended (some .osError), 1, 0, 1, 1⟩,
        ⟨.ended (some .httpError), 0, 0, 0, 0⟩) := by decide +kernel
  obtain ⟨c, hr, hc⟩ := Option.map_eq_some_iff.mp hobs
  simp only [Prod.mk.injEq] at hc
  obtain ⟨hshared, h0, h1⟩ := hc
  refine ⟨c, hr, ⟨∅, fun r => ?_, rfl⟩, by rw [hshared], by simp [h0], by rw [h1], fun hacc => ?_⟩
  · by_cases hmem : r ∈ brokenRun.map Prod.fst
    · obtain rfl | rfl : r = 0 ∨ r = 1 := by simpa [brokenRun] using hmem
      · rw [h0]; decide
      · rw [h1]; decide
    · rw [run_loc_of_notMem hr hmem]
      simp [start, Handler.new, Handler.holdsSlot]
  · have := hacc.counted 0
    rw [h0] at this
    exact absurd this (by decide)

end IdenGrid.Edge.Tunnel
