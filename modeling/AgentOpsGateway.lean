import AgentOpsGateway.Transition
import AgentOpsGateway.Fleet
import AgentOpsGateway.HalfOpen
import AgentOpsGateway.TokenBucket
import AgentOpsGateway.Wildcard
import AgentOpsGateway.Channel
import AgentOpsGateway.Appending
import AgentOpsGateway.TextLines
import AgentOpsGateway.Json
import AgentOpsGateway.JsonText
import AgentOpsGateway.Encodings
import AgentOpsGateway.JsonPrefix
import AgentOpsGateway.JsonScan
import AgentOpsGateway.JsonRoundTrip
import AgentOpsGateway.DateTime
import AgentOpsGateway.Calendar
import AgentOpsGateway.IsoFormat
import AgentOpsGateway.ByteLines
import AgentOpsGateway.Numerals
import AgentOpsGateway.Errors
import AgentOpsGateway.Yaml
import AgentOpsGateway.Policy
import AgentOpsGateway.FailClosed
import AgentOpsGateway.OpsLogs
import AgentOpsGateway.LogWindow
import AgentOpsGateway.TicketStore
import AgentOpsGateway.TicketSearch
import AgentOpsGateway.RateLimit
import AgentOpsGateway.Circuit
import AgentOpsGateway.BreakerLog
import AgentOpsGateway.Aggregate
import AgentOpsGateway.Routes
import AgentOpsGateway.Load
import AgentOpsGateway.Ranking
import AgentOpsGateway.DocsServer
import AgentOpsGateway.ExactHours
import AgentOpsGateway.ScaleOut
import AgentOpsGateway.Mediation
import AgentOpsGateway.PermissionMatrix
import AgentOpsGateway.Exposure
import AgentOpsGateway.Startup
import AgentOpsGateway.Readiness
import AgentOpsGateway.Shutdown
import AgentOpsGateway.Wire
import AgentOpsGateway.AuditTruth
import AgentOpsGateway.Listing
import AgentOpsGateway.Line
import AgentOpsGateway.Probe
import AgentOpsGateway.ProbeRate
import AgentOpsGateway.DeadBackend
import AgentOpsGateway.HiddenBackend
import AgentOpsGateway.Audit
import AgentOpsGateway.AuditLog
import AgentOpsGateway.AuditArgs
import AgentOpsGateway.CallTool
import AgentOpsGateway.Admin
import AgentOpsGateway.Filters
import AgentOpsGateway.DamagedLines
import AgentOpsGateway.AdminPage
import AgentOpsGateway.Endpoint
import AgentOpsGateway.BodyBuffer
import AgentOpsGateway.Upstream
import AgentOpsGateway.Ownership
import AgentOpsGateway.Progress
import AgentOpsGateway.Recovery
import AgentOpsGateway.Isolation
import AgentOpsGateway.Contract
import AgentOpsGateway.Outage
import AgentOpsGateway.DemoAgent
import AgentOpsGateway.AgentGraph
