import AgentOpsGateway.Json

/-!
# Structured Error Results

Every refusal of the gateway is an ordinary tool result with `isError` set and one text
block holding the JSON object `{"code": …, …fields}`. `errorResult` is the one place that
builds it; the code and the audit decision of a call are the two enumerations of the
protocol.

## Main results

* `code_of_errorResult`: the code is what a reader of the payload finds under `"code"`.
-/

namespace AgentOpsGateway

open Python

/-- The codes of the error payload. -/
inductive ErrorCode
  | unknownTool
  | backendUnavailable
  | policyDenied
  | authFailed
  | rateLimited
  deriving DecidableEq

/-- The text of a code. -/
def ErrorCode.text : ErrorCode → Str
  | .unknownTool => lit "UNKNOWN_TOOL"
  | .backendUnavailable => lit "BACKEND_UNAVAILABLE"
  | .policyDenied => lit "POLICY_DENIED"
  | .authFailed => lit "AUTH_FAILED"
  | .rateLimited => lit "RATE_LIMITED"

/-- What the audit log and the metrics call the outcome of a call. -/
inductive AuditDecision
  | allowed
  | denied
  | authFailed
  | rateLimited
  | error
  deriving DecidableEq

/-- The label of a decision. -/
def AuditDecision.text : AuditDecision → Str
  | .allowed => lit "allowed"
  | .denied => lit "denied"
  | .authFailed => lit "auth_failed"
  | .rateLimited => lit "rate_limited"
  | .error => lit "error"

/-- A block of content: a text block, or a block of another type, which has a `text`
attribute only where the backend sent an extra field of that name. -/
inductive Content
  | text (text : Str)
  | other (extra : Option Json)

/-- A tool result: `types.CallToolResult`. -/
structure CallToolResult where
  isError : Bool
  content : List Content

/-- An exception that the program lets escape, by its Python type. -/
inductive Raised
  | keyError
  | typeError
  | valueError
  | recursionError
  deriving DecidableEq

/-- `error_result(code, **fields)`. -/
def errorResult (code : ErrorCode) (fields : List (Str × Str)) : CallToolResult :=
  ⟨true, [.text (dumps (.obj (((lit "code", code.text) :: fields).map strField)))]⟩

/-- The text of a code is ASCII, so it is read back unchanged. -/
theorem joinSurrogates_text (code : ErrorCode) : joinSurrogates code.text = code.text := by
  cases code <;> decide

/-- **The code is found under `"code"`**: the payload reads back as an object whose entry
for `"code"` is the text of the code, where no other field has that name. -/
theorem code_of_errorResult (depth : ℕ) (code : ErrorCode) (fields : List (Str × Str))
    (hfields : ∀ p ∈ fields, joinSurrogates p.1 ≠ lit "code") :
    ∃ payload, loads (depth + 1)
        (dumps (.obj (((lit "code", code.text) :: fields).map strField))) = .ok (.obj payload) ∧
      dictGet (lit "code") payload = some (.str code.text) := by
  refine ⟨_, loads_dumps_strings depth _, ?_⟩
  have hcode : joinField (lit "code", code.text) = (lit "code", .str code.text) := by
    simp only [joinField, joinSurrogates_text]
    exact congrArg (·, _) (by decide)
  rw [List.map_cons, hcode]
  refine dictGet_dictOf_head _ _ _ fun p hp => ?_
  obtain ⟨q, hq, rfl⟩ := List.mem_map.mp hp
  exact hfields q hq

/-- The one field of a payload, which is not called `code`. -/
theorem field_ne_code {name : String} {value : Str}
    (h : joinSurrogates (lit name) ≠ lit "code") :
    ∀ p ∈ [(lit name, value)], joinSurrogates p.1 ≠ lit "code" := by
  simpa using h

/-- Codes are told apart by their texts. -/
theorem text_injective {c d : ErrorCode} (h : c.text = d.text) : c = d := by
  revert h
  cases c <;> cases d <;> decide

/-- Error results with different codes are different. -/
theorem code_eq_of_errorResult_eq {c d : ErrorCode} {fields fields' : List (Str × Str)}
    (hfields : ∀ p ∈ fields, joinSurrogates p.1 ≠ lit "code")
    (hfields' : ∀ p ∈ fields', joinSurrogates p.1 ≠ lit "code")
    (h : errorResult c fields = errorResult d fields') : c = d := by
  obtain ⟨payload, hload, hcode⟩ := code_of_errorResult 0 c fields hfields
  obtain ⟨payload', hload', hcode'⟩ := code_of_errorResult 0 d fields' hfields'
  simp only [errorResult, CallToolResult.mk.injEq, List.cons.injEq, Content.text.injEq, true_and,
    and_true] at h
  rw [h, hload'] at hload
  obtain rfl : payload' = payload := by simpa using hload
  rw [hcode] at hcode'
  exact text_injective (by simpa using hcode')

end AgentOpsGateway
