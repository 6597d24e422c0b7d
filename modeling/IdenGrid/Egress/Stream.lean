import IdenGrid.Agent.Relay
import IdenGrid.Edge.Relay
import IdenGrid.Lib.Run

/-! # A tunnel from end to end

The agent's loop and the Edge's relay, with the frames under way between them in either direction.
Their awaits interleave in any order.

`relay_integrity`: what was written to the target is always a prefix of what was read from the local
socket, what was written to the local socket a prefix of what was read from the target, and what the
Edge forwarded stays within the byte limit of the connection. -/

namespace IdenGrid.Egress.Stream

open IdenGrid.Lib.Run IdenGrid.Lib.Streams

structure State where
  agent : Agent.Relay.RelayLoop
  edge : Edge.Relay.RelayTasks
  toEdge : List (Frame UInt8)
  toAgent : List (Frame UInt8)
  deriving DecidableEq

inductive Event
  | agent (e : Agent.Relay.Event)
  | edge (e : Edge.Relay.Event)
  deriving DecidableEq

/-- The tunnel after the success reply. -/
def start (owns : Bool) : State := ⟨.new owns, .new, [], []⟩

variable (S : Edge.Relay.Settings)

def step (s : State) : Event → Option State
  | .agent e => (Agent.Relay.act s.agent s.toAgent e).map fun (agent, inbox, out) =>
      { s with agent := agent, toAgent := inbox, toEdge := s.toEdge ++ out }
  | .edge e => (Edge.Relay.act S s.edge s.toEdge e).map fun (edge, inbox, out) =>
      { s with edge := edge, toEdge := inbox, toAgent := s.toAgent ++ out }

/-- **What holds at every moment.** -/
structure Invariant (s : State) : Prop where
  up : Intact s.agent.producer (payloads s.toEdge) s.edge.consumer
  down : Intact s.edge.producer (payloads s.toAgent) s.agent.consumer
  budget : Edge.Relay.Budget S s.edge

theorem invariant_start (owns : Bool) : Invariant S (start owns) where
  up := Intact.start true true
  down := Intact.start true true
  budget := ⟨Nat.zero_le _, Nat.zero_le _⟩

variable {S}

/-- **Every await keeps it.** -/
theorem invariant_step (s : State) (e : Event) (s' : State) (hI : Invariant S s)
    (h : step S s e = some s') : Invariant S s' := by
  rcases e with e | e
  · obtain ⟨⟨agent, inbox, out⟩, hact, rfl⟩ := Option.map_eq_some_iff.mp h
    refine ⟨?_, ?_, hI.budget⟩
    · rw [payloads_append]
      exact hI.up.produce (Agent.Relay.act_producer hact)
    · exact hI.down.consume (Agent.Relay.act_consumer hact)
  · obtain ⟨⟨edge, inbox, out⟩, hact, rfl⟩ := Option.map_eq_some_iff.mp h
    refine ⟨?_, ?_, Edge.Relay.act_budget S hI.budget hact⟩
    · exact hI.up.consume (Edge.Relay.act_consumer S hact)
    · rw [payloads_append]
      exact hI.down.produce (Edge.Relay.act_producer S hact)

/-- **Relay stream integrity.** -/
theorem relay_integrity (owns : Bool) (events : List Event) (s : State)
    (hr : run (step S) (start owns) events = some s) :
    s.edge.toTarget <+: s.agent.fromLocal ∧ s.agent.toLocal <+: s.edge.fromTarget ∧
      s.edge.toTarget.length + s.edge.sent.length ≤ S.maxBytesPerConnection := by
  have hI := run_inv invariant_step events (start owns) s (invariant_start S owns) hr
  refine ⟨hI.up.prefix_read, hI.down.prefix_read, ?_⟩
  exact Nat.le_trans (Nat.le_add_right _ _) hI.budget.bounded

/-- A request and an answer with a probe in between; the answer meets the limit of 5 bytes. -/
def sampleEvents : List Event :=
  [.agent (.read [1, 2, 3]), .agent .sent, .agent (.probeDue 7), .agent .sent, .edge .receive,
    .edge .drained, .edge .receive, .edge (.read [4, 5]), .edge .sent, .agent .message,
    .agent .message, .agent (.wrote 1), .edge (.read [6])]

theorem relay_integrity_sample : ∃ s, run (step ⟨65536, 5⟩) (start true) sampleEvents = some s ∧
    s.edge.toTarget = [1, 2, 3] ∧ s.agent.toLocal = [4] ∧ s.agent.successes = 1 ∧
    s.edge.down = .done .limit ∧
    (s.edge.toTarget <+: s.agent.fromLocal ∧ s.agent.toLocal <+: s.edge.fromTarget ∧
      s.edge.toTarget.length + s.edge.sent.length ≤ 5) := by
  obtain ⟨s, hs, hobs⟩ : ∃ s, run (step ⟨65536, 5⟩) (start true) sampleEvents = some s ∧
      s.edge.toTarget = [1, 2, 3] ∧ s.agent.toLocal = [4] ∧ s.agent.successes = 1 ∧
      s.edge.down = .done .limit := ⟨_, rfl, by decide⟩
  exact ⟨s, hs, hobs.1, hobs.2.1, hobs.2.2.1, hobs.2.2.2,
    relay_integrity true sampleEvents s hs⟩

end IdenGrid.Egress.Stream
