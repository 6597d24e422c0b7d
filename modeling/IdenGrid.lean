import IdenGrid.Control.Revocation
import IdenGrid.Control.Rotation
import IdenGrid.Control.Recheck
import IdenGrid.Control.Lockout
import IdenGrid.Control.WebTokens
import IdenGrid.Edge.Tunnel
import IdenGrid.Edge.Idle
import IdenGrid.Agent.Lease
import IdenGrid.Agent.Refresh
import IdenGrid.Edge.Replay
import IdenGrid.Egress.Authorization
import IdenGrid.Egress.Stream
import IdenGrid.Control.MonitorIsolation
import IdenGrid.Control.OnlineNodes
import IdenGrid.Control.Reports
import IdenGrid.Control.Agreement
import IdenGrid.Control.Decisions
import IdenGrid.Control.MonitorRaces
import IdenGrid.Control.Deadlines
import IdenGrid.Control.Disclosures
import IdenGrid.Control.Grants
import IdenGrid.Control.BrowserAccess
import IdenGrid.Control.Authentication
import IdenGrid.Control.Heartbeats
import IdenGrid.Control.Rebinding
import IdenGrid.Client.Delivery
import IdenGrid.Client.SignOut
import IdenGrid.Migration.Convergence
import IdenGrid.Migration.Atomicity
import IdenGrid.Egress.RoundTrip
import IdenGrid.Egress.TargetPolicies
import IdenGrid.Client.InFlight
import IdenGrid.Client.Duplicates
import IdenGrid.Client.Tables
import IdenGrid.Client.Instances
import IdenGrid.Client.Agents
import IdenGrid.Client.Projection
import IdenGrid.Client.QuitAll
import IdenGrid.Control.ThrottleLaw
import IdenGrid.Control.FailedLogins
import IdenGrid.Control.EnrollmentClaims
import IdenGrid.Control.Verdict
import IdenGrid.Control.Accesses
import IdenGrid.Control.LocalSync
import IdenGrid.Control.Closure
import IdenGrid.Agent.Replies
import IdenGrid.Agent.Hiding
import IdenGrid.Control.RateLimits
import IdenGrid.Lib.Calendar
import IdenGrid.Lib.FloatRepr
import IdenGrid.Migration.Fingerprints
import IdenGrid.Agent.TokenUpdate
import IdenGrid.Agent.Latency
import IdenGrid.Edge.WindowsLoader
import IdenGrid.Egress.Installation
import IdenGrid.Edge.Loaders
import IdenGrid.Agent.Endpoint
import IdenGrid.Edge.Descriptors
import IdenGrid.Control.Runner
import IdenGrid.Edge.Status
import IdenGrid.Egress.Monitoring
import IdenGrid.Edge.Downloads
