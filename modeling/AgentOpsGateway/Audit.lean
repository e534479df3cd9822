import AgentOpsGateway.Errors
import AgentOpsGateway.Policy

/-!
# Authentication, the Audit Log and the Metrics

The three leaf functions of `call_tool` around the routing: `authenticate` turns the
`Authorization` header into an agent, `recordCall` counts the call, and `record` appends
one JSON line to the audit log.

The program only counts and appends. Here each increment and each line also carries the
place of the call it belongs to, so that properties can tell the calls apart.
-/

namespace AgentOpsGateway

open Python

/-! ### Authentication -/

/-- Why authentication fails. -/
inductive AuthReason
  | missing
  | invalid
  | expired
  deriving DecidableEq

/-- The `reason` field of the `AUTH_FAILED` payload. -/
def AuthReason.text : AuthReason → Str
  | .missing => lit "missing"
  | .invalid => lit "invalid"
  | .expired => lit "expired"

/-- What `jwt.decode` raises. -/
inductive JwtError
  | expiredSignature
  | invalidToken

/-- `authenticate(authorization)`, where `decode` gives the claim `agent_id` of a valid
token. -/
def authenticate (decode : Str → Except JwtError (Option Str)) (authorization : Option Str) :
    Except AuthReason Str :=
  match authorization with
  | none => .error .missing
  | some header =>
    if (lit "Bearer ").isPrefixOf header then
      match decode (header.drop (lit "Bearer ").length) with
      | .error .expiredSignature => .error .expired
      | .error .invalidToken => .error .invalid
      | .ok none => .error .invalid
      | .ok (some agentId) => if agentId = [] then .error .invalid else .ok agentId
    else .error .missing

/-! ### The audit log -/

/-- One line of the audit log. -/
structure AuditLine where
  ts : Str
  agent : Str
  /-- The whole name, with the prefix of its backend. -/
  tool : Str
  argsSummary : Str
  decision : AuditDecision
  traceId : Str

/-- The fields of a line, in the order they are written. -/
def AuditLine.fields (line : AuditLine) : List (Str × Str) :=
  [(lit "ts", line.ts), (lit "agent", line.agent), (lit "tool", line.tool),
    (lit "args_summary", line.argsSummary), (lit "decision", line.decision.text),
    (lit "trace_id", line.traceId)]

/-- `json.dumps(line)`. -/
def AuditLine.text (line : AuditLine) : Str := dumps (.obj (line.fields.map strField))

/-- `json.dumps(args)[:256]`. -/
def argsSummary (args : Arguments) : Str := (dumps (.obj args)).take 256

/-- `audit.record(…)` for call `i`: a failed write leaves the log as it is. -/
def record (writable : Bool) (log : List (ℕ × AuditLine)) (i : ℕ) (line : AuditLine) :
    List (ℕ × AuditLine) :=
  if writable then log ++ [(i, line)] else log

/-- The text of a decision is ASCII, so it is read back unchanged. -/
theorem joinSurrogates_decision (d : AuditDecision) : joinSurrogates d.text = d.text := by
  cases d <;> decide

/-! ### The metrics -/

/-- The labels of `gateway_tool_calls_total`. -/
structure CallLabels where
  agent : Str
  server : Str
  tool : Str
  decision : AuditDecision

/-- The metrics that one call touches. -/
structure Metrics where
  /-- The increments of `TOOL_CALLS`. -/
  toolCalls : List (ℕ × CallLabels)
  /-- The increments of `POLICY_DENIED`, by agent, server and tool. -/
  policyDenied : List (Str × Str × Str)
  /-- The observations of `CALL_DURATION`, by server and tool. -/
  durations : List (Str × Str × ℚ)

/-- `observability.record_call(…)` for call `i`. -/
def recordCall (m : Metrics) (i : ℕ) (labels : CallLabels) (durationS : Option ℚ) : Metrics :=
  { toolCalls := m.toolCalls ++ [(i, labels)]
    policyDenied :=
      if labels.decision = .denied then
        m.policyDenied ++ [(labels.agent, labels.server, labels.tool)]
      else m.policyDenied
    durations :=
      match durationS with
      | none => m.durations
      | some duration => m.durations ++ [(labels.server, labels.tool, duration)] }

end AgentOpsGateway
