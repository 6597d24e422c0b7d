import IdenGrid.Lib.Double
import Mathlib.Tactic.Common

/-! # The control plane: Edge node rows -/

namespace IdenGrid.Control.Nodes

open IdenGrid.Lib.Double

inductive HealthStatus
  | unknown
  | disabled
  | maintenance
  | online
  | degraded
  | quarantined
  | offline
  deriving DecidableEq, Repr

/-- A value of a text column as the code hands it to the database driver. -/
inductive Cell
  | int (n : ℤ)
  | str (t : List ℕ)
  deriving DecidableEq, Repr

/-- The columns the monitor writes from an accepted status document, except the latency. -/
structure StatusColumns where
  activeConnections : ℤ := 0
  maxConnections : ℤ := 0
  acceptedConnections : ℤ := 0
  deniedConnections : ℤ := 0
  actualPublicIpv4 : Option Cell := none
  load1m : Option Binary64 := none
  memoryTotalBytes : Option ℤ := none
  memoryAvailableBytes : Option ℤ := none
  diskTotalBytes : Option ℤ := none
  diskFreeBytes : Option ℤ := none
  uptimeSeconds : Option Binary64 := none
  agentVersion : Option (List ℕ) := none
  deriving DecidableEq, Repr

/-- A row of `edge_nodes`. -/
structure EdgeNode where
  id : ℕ
  name : String
  endpoint : String
  sharedSecret : String
  enabled : Bool
  maintenanceMode : Bool
  healthStatus : HealthStatus
  lastSeenAt : Option ℕ
  latencyMs : Option ℤ
  expectedPublicIpv4 : Option String
  status : StatusColumns
  lastError : Option String
  deriving DecidableEq, Repr

end IdenGrid.Control.Nodes
