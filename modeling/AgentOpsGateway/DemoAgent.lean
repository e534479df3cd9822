import AgentOpsGateway.DeadBackend
import AgentOpsGateway.JsonText
import AgentOpsGateway.Outage

/-!
# The Denial Branch of the Demo Agent

The demo agent sends its tool calls through the gateway and looks for denials in the texts
of the results: a JSON object with the code `POLICY_DENIED` makes the graph go on to the
node `bypass`. It does not look at `isError`, so what a backend returns as data is taken for
a denial where it reads like one.

## Main results

* `refusal_of_run`: what `route_call` answers without a backend.
* `denial_contract_iff`: **the tools node stores the payload of a denied call, and nothing
  for any other**, exactly where no string of the payload changes on its way through JSON and
  no relayed text reads like a denial.
-/

namespace AgentOpsGateway

open Python Transition

/-! ### The graph -/

/-- A payload that the agent has parsed. -/
abbrev Payload := List (Str × Json)

/-- `_result_text(result)`. -/
def resultText (result : CallToolResult) : Json := result.firstText.getD (.str [])

/-- `extract_denial(text)`; only `ValueError` and `TypeError` are caught. -/
def extractDenial (py : Interpreter) : Json → Except Raised (Option Payload)
  | .str text =>
    match loads (py.spareLevels + 1) text with
    | .error .valueError => .ok none
    | .error .recursionError => .error .recursionError
    | .ok (.obj payload) =>
      match dictGet (lit "code") payload with
      | some (.str code) => .ok (if code = lit "POLICY_DENIED" then some payload else none)
      | _ => .ok none
    | .ok _ => .ok none
  | _ => .ok none

/-- The truth value of a denial: an empty dictionary is false. -/
def isTruthy : Option Payload → Bool
  | some (_ :: _) => true
  | _ => false

/-- The loop of the tools node over the results of its calls. -/
def toolsFrom (py : Interpreter) (denial : Option Payload) :
    List CallToolResult → Except Raised (Option Payload)
  | [] => .ok denial
  | result :: results =>
    if isTruthy denial then toolsFrom py denial results
    else
      match extractDenial py (resultText result) with
      | .error e => .error e
      | .ok denial => toolsFrom py denial results

/-- What the tools node stores as `denial`. -/
def toolsNode (py : Interpreter) (results : List CallToolResult) : Except Raised (Option Payload) :=
  toolsFrom py none results

/-- The nodes that may follow the tools node. -/
inductive NextNode
  | bypass
  | callModel
  deriving DecidableEq

/-- What the routing reads of the state. -/
structure AgentState where
  denial : Option Payload
  bypassDone : Bool

/-- `route_after_tools(state)`. -/
def routeAfterTools (s : AgentState) : NextNode :=
  if isTruthy s.denial && !s.bypassDone then .bypass else .callModel

/-! ### The refusals of `route_call` -/

/-- The payload of a policy refusal. -/
def denialPayload (agent : Str) (d : Decision) : Payload :=
  ((lit "code", ErrorCode.policyDenied.text) :: deniedFields agent d).map strField

/-- An answer of `route_call` itself: a denial by the policy, with the payload of its
decision, or an error with another code. -/
def Refusal (cfg : Settings) (r : Request) (result : CallToolResult) (decision : AuditDecision) :
    Prop :=
  (decision = .denied ∧ ∃ server tool d, split r.name = some (server, tool) ∧
    cfg.policy.evaluate cfg.py r.agent server tool r.arguments = .ok d ∧
    result = errorResult .policyDenied (deniedFields r.agent d)) ∨
  decision ≠ .denied ∧ ∃ code fields, code ≠ .policyDenied ∧
    (∀ p ∈ fields, joinSurrogates p.1 ≠ lit "code") ∧ result = errorResult code fields

section Refusals

variable {cfg : Settings} {g : Shared} {r : Request} {server tool : Str}
  {result : CallToolResult} {decision : AuditDecision}

/-- An error that names one field is no denial. -/
theorem refusal_of_error {code : ErrorCode} {name : String} {value : Str}
    (hname : joinSurrogates (lit name) ≠ lit "code") (hcode : code ≠ .policyDenied)
    (hdecision : decision ≠ .denied) :
    Refusal cfg r (errorResult code [(lit name, value)]) decision :=
  Or.inr ⟨hdecision, code, _, hcode, field_ne_code hname, rfl⟩

theorem refusal_resolved (htarget : split r.name = some (server, tool))
    (h : (routeResolved cfg g r server tool).2 = .ret result decision) :
    Refusal cfg r result decision := by
  simp only [routeResolved] at h
  split at h
  · obtain ⟨rfl, rfl⟩ := Halt.ret.inj h
    exact refusal_of_error (by decide) (by decide) (by decide)
  · split at h
    · simp at h
    · next d hd =>
        split at h
        · split at h
          · simp at h
          · obtain ⟨rfl, rfl⟩ := Halt.ret.inj h
            exact refusal_of_error (by decide) (by decide) (by decide)
        · obtain ⟨rfl, rfl⟩ := Halt.ret.inj h
          exact Or.inl ⟨rfl, server, tool, d, htarget, hd, rfl⟩

theorem refusal_arrive (h : (routeArrive cfg g r).2 = .ret result decision) :
    Refusal cfg r result decision := by
  unfold routeArrive at h
  dsimp only at h
  split at h
  · split at h
    · obtain ⟨rfl, rfl⟩ := Halt.ret.inj h
      exact refusal_of_error (by decide) (by decide) (by decide)
    · next server tool htarget =>
        split at h
        · obtain ⟨rfl, rfl⟩ := Halt.ret.inj h
          exact refusal_of_error (by decide) (by decide) (by decide)
        · split at h
          · simp at h
          · exact refusal_resolved htarget h
  · obtain ⟨rfl, rfl⟩ := Halt.ret.inj h
    exact refusal_of_error (by decide) (by decide) (by decide)

theorem refusal_reloaded {ok : Bool} (htarget : split r.name = some (server, tool))
    (h : (routeReloaded cfg g r server tool ok).2 = .ret result decision) :
    Refusal cfg r result decision := by
  cases ok with
  | false =>
      obtain ⟨rfl, rfl⟩ := Halt.ret.inj h
      exact refusal_of_error (by decide) (by decide) (by decide)
  | true => exact refusal_resolved htarget h

end Refusals

/-- What a task has returned is an answer of `route_call` itself, before a call was sent, or
it is no denial. -/
def Task.Answered (cfg : Settings) (t : Task) : Prop :=
  ∀ result decision, t.phase = .returned result decision →
    t.sent = none ∧ Refusal cfg t.request result decision ∨ t.sent.isSome ∧ decision ≠ .denied

section Runs

variable {cfg : Settings} {st₀ st st' : Gateway} {as : List Action}

/-- A segment that returns has sent nothing. -/
theorem answered_of_halt {t : Task} {h : Halt} (hsent : t.sent = h.sent)
    (hphase : t.phase = h.phase)
    (hrefusal : ∀ result decision, h = .ret result decision →
      Refusal cfg t.request result decision) : t.Answered cfg := by
  intro result decision hreturned
  rw [hphase] at hreturned
  cases h with
  | ret result' decision' =>
      obtain ⟨rfl, rfl⟩ := Phase.returned.inj hreturned
      exact Or.inl ⟨hsent, hrefusal _ _ rfl⟩
  | reload _ _ | call _ | raise _ => simp [Halt.phase] at hreturned

/-- **One step** keeps what is known of the answers. -/
theorem answered_step {a : Action} (htargeted : st.Targeted)
    (hanswered : ∀ (i : ℕ) (t : Task), st.tasks[i]? = some t → t.Answered cfg)
    (hstep : (gateway cfg).step st a = some st') :
    ∀ (i : ℕ) (t : Task), st'.tasks[i]? = some t → t.Answered cfg := by
  intro i t' ht'
  rcases task_of_step hstep ht' with ⟨r, -, -, rfl⟩ | ⟨t, ht, rfl | ⟨ok, server, tool, -, hphase,
    rfl⟩ | ⟨answer, d, -, -, hsent, rfl⟩ | ⟨-, -, rfl⟩⟩
  · exact answered_of_halt rfl rfl fun _ _ h => refusal_arrive h
  · exact hanswered i t' ht
  · exact answered_of_halt rfl rfl fun _ _ h =>
      refusal_reloaded ((htargeted i t ht).2 server tool hphase) h
  · intro result decision hreturned
    refine Or.inr ⟨by simp [hsent], ?_⟩
    rintro rfl
    simp only [routeAnswered] at hreturned
    split at hreturned
    · simp [Halt.phase] at hreturned
    · next relay hrelay =>
        simp only [Halt.phase, Phase.returned.injEq] at hreturned
        exact relayDecision_ne_denied cfg.py answer (hreturned.2 ▸ hrelay)
  · simp [Task.Answered]

/-- **What `route_call` answers**, in every run. -/
theorem refusal_of_run (hinit : st₀.tasks = []) (hrun : (gateway cfg).exec st₀ as = some st)
    {i : ℕ} {t : Task} (ht : st.tasks[i]? = some t) : t.Answered cfg := by
  have hinv := System.invariant' (I := fun st : Gateway => st.Targeted ∧
      ∀ (i : ℕ) (t : Task), st.tasks[i]? = some t → t.Answered cfg)
    (fun _ _ _ hI hstep => ⟨targeted_step hI.1 hstep, answered_step hI.1 hI.2 hstep⟩)
    ⟨by simp [Gateway.Targeted, hinit], by simp [hinit]⟩ hrun
  exact hinv.2 i t ht

end Runs

/-! ### What the agent reads -/

/-- The first text of the result is a JSON object with the code of a denial. -/
def ReadsAsDenial (py : Interpreter) (result : CallToolResult) : Prop :=
  ∃ text payload, result.firstText = some (.str text) ∧
    loads (py.spareLevels + 1) text = .ok (.obj payload) ∧
    dictGet (lit "code") payload = some (.str ErrorCode.policyDenied.text)

/-- The first text of the result is nested too deeply to be read. -/
def TooNested (py : Interpreter) (result : CallToolResult) : Prop :=
  ∃ text, result.firstText = some (.str text) ∧
    loads (py.spareLevels + 1) text = .error .recursionError

/-- No string of the payload of a denial of the request has a split pair: neither the agent
nor the name, of which the rule is made, nor the detail of the decision. -/
def Unsplit (cfg : Settings) (r : Request) : Prop :=
  hasSplitPair r.agent = false ∧ hasSplitPair r.name = false ∧
    ∀ server tool d detail, split r.name = some (server, tool) →
      cfg.policy.evaluate cfg.py r.agent server tool r.arguments = .ok d →
      d.detail = some detail → hasSplitPair detail = false

/-- The denial of a call: the payload of the policy's decision where it was denied. -/
def dueDenial (cfg : Settings) (r : Request) (decision : AuditDecision) : Option Payload :=
  if decision = .denied then
    match split r.name with
    | none => none
    | some (server, tool) =>
      match cfg.policy.evaluate cfg.py r.agent server tool r.arguments with
      | .error _ => none
      | .ok d => some (denialPayload r.agent d)
  else none

section Reading

variable {py : Interpreter} {cfg : Settings}

theorem toolsNode_singleton (py : Interpreter) (result : CallToolResult) :
    toolsNode py [result] = extractDenial py (resultText result) := by
  simp only [toolsNode, toolsFrom]
  cases extractDenial py (resultText result) <;> rfl

/-- **What the agent makes of a text**: a payload exactly where it reads as a denial, an
exception exactly where it is nested too deeply. -/
theorem extractDenial_cases (py : Interpreter) (result : CallToolResult) :
    ((∃ payload, extractDenial py (resultText result) = .ok (some payload)) ↔
        ReadsAsDenial py result) ∧
      ((∃ e, extractDenial py (resultText result) = .error e) ↔ TooNested py result) := by
  have hcode : ErrorCode.policyDenied.text = lit "POLICY_DENIED" := rfl
  simp only [ReadsAsDenial, TooNested, resultText]
  cases hfirst : result.firstText with
  | none =>
      have hempty : loads (py.spareLevels + 1) [] = .error .valueError := by
        simp [loads, scanOnce, skipSpace]
      simp [extractDenial, hempty]
  | some value =>
      cases value with
      | str text =>
          cases hload : loads (py.spareLevels + 1) text with
          | error e => cases e <;> simp [extractDenial, hload]
          | ok value =>
              cases value with
              | obj payload =>
                  cases hget : dictGet (lit "code") payload with
                  | none => simp [extractDenial, hload, hget]
                  | some code => cases code <;> simp [extractDenial, hload, hget, hcode]
              | _ => simp [extractDenial, hload]
      | _ => simp [extractDenial]

/-- **A text is no denial** where it does not read like one and can be read. -/
theorem extractDenial_eq_none_iff {result : CallToolResult} :
    extractDenial py (resultText result) = .ok none ↔
      ¬ReadsAsDenial py result ∧ ¬TooNested py result := by
  obtain ⟨hreads, hnested⟩ := extractDenial_cases py result
  rw [← hreads, ← hnested]
  rcases extractDenial py (resultText result) with e | _ | payload <;> simp

/-- An error with another code is no denial. -/
theorem extractDenial_error {code : ErrorCode} {fields : List (Str × Str)}
    (hcode : code ≠ .policyDenied) (hfields : ∀ p ∈ fields, joinSurrogates p.1 ≠ lit "code") :
    extractDenial py (resultText (errorResult code fields)) = .ok none := by
  obtain ⟨payload, hload, hget⟩ := code_of_errorResult py.spareLevels code fields hfields
  have hne : code.text ≠ lit "POLICY_DENIED" := fun h =>
    hcode (text_injective (d := .policyDenied) h)
  simp only [extractDenial, resultText, errorResult, CallToolResult.firstText, Option.getD_some,
    hload, hget, if_neg hne]

/-- The rule of a decision has a split pair where the agent or the name has one. -/
theorem hasSplitPair_rule {name server tool : Str} (htarget : split name = some (server, tool))
    (agent : Str) : hasSplitPair (ruleOf agent server tool) =
      (hasSplitPair agent || hasSplitPair name) := by
  have hcolon : lit ":" = [0x3A] := by decide
  have hsep : separator = [0x5F, 0x5F] := by decide
  rw [← join_of_split htarget]
  simp only [ruleOf, join, hcolon, hsep, List.append_assoc, List.cons_append, List.nil_append]
  rw [hasSplitPair_append_cons (by decide) (by decide),
    hasSplitPair_append_cons (by decide) (by decide),
    hasSplitPair_append_cons (by decide) (by decide),
    hasSplitPair_cons_of_not_high (by decide)]

/-- **The payload of a denial comes back as it was** exactly where none of its strings has a
split pair. -/
theorem extractDenial_policyDenied_iff {agent : Str} {d : Decision} :
    extractDenial py (resultText (errorResult .policyDenied (deniedFields agent d))) =
        .ok (some (denialPayload agent d)) ↔
      hasSplitPair d.rule = false ∧ hasSplitPair agent = false ∧
        ∀ detail ∈ d.detail, hasSplitPair detail = false := by
  have hload := loads_dumps_strings py.spareLevels
    ((lit "code", ErrorCode.policyDenied.text) :: deniedFields agent d)
  have hkeys : [lit "code", lit "rule", lit "agent", lit "detail"].map joinSurrogates =
      [lit "code", lit "rule", lit "agent", lit "detail"] := by decide
  simp only [List.map_cons, List.map_nil, List.cons.injEq, and_true] at hkeys
  obtain ⟨hcode, hrule, hagent, hdetail⟩ := hkeys
  have htext : lit "POLICY_DENIED" = ErrorCode.policyDenied.text := rfl
  simp only [extractDenial, resultText, errorResult, CallToolResult.firstText, Option.getD_some,
    hload, htext]
  cases hd : d.detail with
  | none =>
      simp only [deniedFields, denialPayload, hd]
      simp +decide [dictOf, dictSet, dictGet, joinField, strField, hcode, hrule, hagent,
        joinSurrogates_text, joinSurrogates_eq_self_iff]
  | some detail =>
      simp only [deniedFields, denialPayload, hd]
      simp +decide [dictOf, dictSet, dictGet, joinField, strField, hcode, hrule, hagent,
        hdetail, joinSurrogates_text, joinSurrogates_eq_self_iff]

end Reading

/-! ### The contract -/

/-- A call and how `route_call` has answered it. -/
structure AnsweredCall where
  task : Task
  result : CallToolResult
  decision : AuditDecision

namespace AnsweredCall

/-- The call has returned so in a state. -/
def In (c : AnsweredCall) (st : Gateway) : Prop :=
  (∃ i : ℕ, st.tasks[i]? = some c.task) ∧ c.task.phase = .returned c.result c.decision

/-- The condition of the contract: the payload of a denial survives the round trip, and a
relayed result does not read like a denial. -/
def Plain (cfg : Settings) (py : Interpreter) (c : AnsweredCall) : Prop :=
  (c.decision = .denied → Unsplit cfg c.task.request) ∧
    (c.task.sent.isSome → ¬ReadsAsDenial py c.result)

/-- A relayed result can be read. -/
def Readable (py : Interpreter) (c : AnsweredCall) : Prop :=
  c.task.sent.isSome → ¬TooNested py c.result

/-- The denial that the tools node should store for the call. -/
def due (cfg : Settings) (c : AnsweredCall) : Option Payload :=
  dueDenial cfg c.task.request c.decision

end AnsweredCall

section Contract

variable {cfg : Settings} {py : Interpreter} {st₀ st : Gateway} {as : List Action}

/-- The payload of a denial is no empty dictionary. -/
theorem isTruthy_denialPayload (agent : Str) (d : Decision) :
    isTruthy (some (denialPayload agent d)) = true := rfl

/-- What an answered call is due: the payload of its decision, which the answer carries, or
nothing. -/
theorem due_cases (py : Interpreter) {c : AnsweredCall} (hanswered : c.task.Answered cfg)
    (hphase : c.task.phase = .returned c.result c.decision) :
    (c.decision = .denied ∧ c.task.sent = none ∧ ∃ d,
      c.due cfg = some (denialPayload c.task.request.agent d) ∧
      (extractDenial py (resultText c.result) = .ok (c.due cfg) ↔ Unsplit cfg c.task.request)) ∨
    (c.decision ≠ .denied ∧ c.due cfg = none ∧
      (c.task.sent = none → extractDenial py (resultText c.result) = .ok none)) := by
  simp only [AnsweredCall.due, dueDenial]
  rcases hanswered c.result c.decision hphase with ⟨hsent, hrefusal⟩ | ⟨hsent, hne⟩
  · rcases hrefusal with ⟨hdenied, server, tool, d, htarget, hd, hresult⟩ |
      ⟨hne, code, fields, hcode, hfields, hresult⟩
    · refine Or.inl ⟨hdenied, hsent, d, ?_⟩
      have hrule : d.rule = ruleOf c.task.request.agent server tool := rule_of_evaluateEntries hd
      simp only [hresult, if_pos hdenied, htarget, hd, true_and]
      rw [extractDenial_policyDenied_iff, hrule, hasSplitPair_rule htarget, Bool.or_eq_false_iff]
      constructor
      · rintro ⟨⟨hagent, hname⟩, -, hdetail⟩
        refine ⟨hagent, hname, fun server' tool' d' detail htarget' hd' hdetail' => ?_⟩
        obtain ⟨rfl, rfl⟩ := Prod.mk.inj (Option.some.inj (htarget.symm.trans htarget'))
        obtain rfl := Except.ok.inj (hd.symm.trans hd')
        exact hdetail detail hdetail'
      · rintro ⟨hagent, hname, hdetail⟩
        exact ⟨⟨hagent, hname⟩, hagent, fun detail h => hdetail server tool d detail htarget hd h⟩
    · refine Or.inr ⟨hne, if_neg hne, fun _ => ?_⟩
      rw [hresult, extractDenial_error hcode hfields]
  · refine Or.inr ⟨hne, if_neg hne, fun hnone => ?_⟩
    simp [hnone] at hsent

/-- A call is due a denial exactly where it was denied. -/
theorem due_isSome_iff {c : AnsweredCall} (hanswered : c.task.Answered cfg)
    (hphase : c.task.phase = .returned c.result c.decision) :
    (c.due cfg).isSome ↔ c.decision = .denied := by
  rcases due_cases cfg.py hanswered hphase with ⟨hdenied, -, d, hdue, -⟩ | ⟨hne, hdue, -⟩
  · simp [hdenied, hdue]
  · simp [hne, hdue]

/-- **One call** is marked as it should be exactly where the condition holds. -/
theorem marked_iff_plain {c : AnsweredCall} (hanswered : c.task.Answered cfg)
    (hphase : c.task.phase = .returned c.result c.decision) :
    (∀ payload, extractDenial py (resultText c.result) = .ok (some payload) ↔
      c.due cfg = some payload) ↔ c.Plain cfg py := by
  simp only [AnsweredCall.Plain]
  rcases due_cases py hanswered hphase with ⟨hdenied, hsent, d, hdue, hread⟩ |
    ⟨hne, hdue, hread⟩
  · rw [hdue] at hread ⊢
    simp only [hdenied, hsent, true_implies, Option.isSome_none, Bool.false_eq_true, false_implies,
      and_true, ← hread]
    constructor
    · exact fun h => (h _).mpr rfl
    · intro h payload
      rw [h, Except.ok.injEq]
  · rw [hdue]
    simp only [hne, false_implies, true_and, reduceCtorEq, iff_false]
    rw [← (extractDenial_cases py c.result).1, ← not_exists]
    constructor
    · exact fun h _ => h
    · intro h
      cases hsent : c.task.sent with
      | none => simp [hread hsent]
      | some _ => exact h (by simp [hsent])

/-- A call under the condition, whose result can be read, is read as it should be. -/
theorem extractDenial_eq_due {c : AnsweredCall} (hanswered : c.task.Answered cfg)
    (hphase : c.task.phase = .returned c.result c.decision) (hplain : c.Plain cfg py)
    (hreadable : c.Readable py) : extractDenial py (resultText c.result) = .ok (c.due cfg) := by
  rcases due_cases py hanswered hphase with ⟨hdenied, -, -, -, hread⟩ | ⟨-, hdue, hread⟩
  · exact hread.mpr (hplain.1 hdenied)
  · rw [hdue]
    cases hsent : c.task.sent with
    | none => exact hread hsent
    | some _ =>
        have hsome : c.task.sent.isSome = true := by simp [hsent]
        exact extractDenial_eq_none_iff.mpr ⟨hplain.2 hsome, hreadable hsome⟩

/-- A denial that was found stays. -/
theorem toolsFrom_of_truthy {denial : Option Payload} (h : isTruthy denial = true)
    (results : List CallToolResult) : toolsFrom py denial results = .ok denial := by
  induction results with
  | nil => rfl
  | cons result results ih => rw [toolsFrom, if_pos h, ih]

/-- The tools node stores the first denial that is due. Induction on the batch: what is due
is true, so it ends the search. -/
theorem toolsNode_eq_due {batch : List AnsweredCall}
    (hread : ∀ c ∈ batch, extractDenial py (resultText c.result) = .ok (c.due cfg))
    (htruthy : ∀ c ∈ batch, ∀ payload, c.due cfg = some payload → isTruthy (some payload) = true) :
    toolsNode py (batch.map (·.result)) = .ok (batch.findSome? (·.due cfg)) := by
  simp only [toolsNode]
  induction batch with
  | nil => rfl
  | cons c batch ih =>
      rw [List.forall_mem_cons] at hread htruthy
      have ih := ih hread.2 htruthy.2
      rw [List.map_cons, toolsFrom, if_neg (by simp [isTruthy]), hread.1, List.findSome?_cons]
      cases hdue : c.due cfg with
      | none => exact ih
      | some payload => exact toolsFrom_of_truthy (htruthy.1 payload hdue) _

/-- **The contract of a denial.** In every run, whatever the backends answer: the tools node
marks a denial for a result exactly where `route_call` denied the call, with the payload of
the decision, if and only if no string of that payload has a split pair and no relayed text
reads like a denial. For several such calls, none nested too deeply, it stores the first
denial, and the graph goes to `bypass` exactly where a call was denied. -/
theorem denial_contract_iff (py : Interpreter) (hinit : st₀.tasks = [])
    (hrun : (gateway cfg).exec st₀ as = some st) :
    (∀ c : AnsweredCall, c.In st →
      ((∀ payload, toolsNode py [c.result] = .ok (some payload) ↔ c.due cfg = some payload) ↔
        c.Plain cfg py) ∧
      ((c.due cfg).isSome ↔ c.decision = .denied)) ∧
    ∀ batch : List AnsweredCall,
      (∀ c ∈ batch, c.In st ∧ c.Plain cfg py ∧ c.Readable py) →
      toolsNode py (batch.map (·.result)) = .ok (batch.findSome? (·.due cfg)) ∧
      (routeAfterTools ⟨batch.findSome? (·.due cfg), false⟩ = .bypass ↔
        ∃ c ∈ batch, c.decision = .denied) := by
  have hanswered : ∀ c : AnsweredCall, c.In st → c.task.Answered cfg := fun c hin => by
    obtain ⟨i, hi⟩ := hin.1
    exact refusal_of_run hinit hrun hi
  have htruthy : ∀ c : AnsweredCall, c.In st → ∀ payload, c.due cfg = some payload →
      isTruthy (some payload) = true := by
    intro c hin payload hpayload
    rcases due_cases py (hanswered c hin) hin.2 with ⟨-, -, d, hdue, -⟩ | ⟨-, hdue, -⟩
    · obtain rfl := Option.some.inj (hdue.symm.trans hpayload)
      exact isTruthy_denialPayload _ d
    · simp [hdue] at hpayload
  refine ⟨fun c hin => ⟨?_, due_isSome_iff (hanswered c hin) hin.2⟩,
    fun batch hbatch => ⟨?_, ?_⟩⟩
  · rw [toolsNode_singleton]
    exact marked_iff_plain (hanswered c hin) hin.2
  · exact toolsNode_eq_due
      (fun c hc => extractDenial_eq_due (hanswered c (hbatch c hc).1) (hbatch c hc).1.2
        (hbatch c hc).2.1 (hbatch c hc).2.2)
      fun c hc => htruthy c (hbatch c hc).1
  · have hsome : (∃ c ∈ batch, c.decision = .denied) ↔ (batch.findSome? (·.due cfg)).isSome := by
      rw [List.findSome?_isSome_iff]
      exact exists_congr fun c => and_congr_right fun hc =>
        (due_isSome_iff (hanswered c (hbatch c hc).1) (hbatch c hc).1.2).symm
    rw [hsome]
    cases hfound : batch.findSome? (·.due cfg) with
    | none => simp [routeAfterTools, isTruthy]
    | some payload =>
        obtain ⟨c, hc, hdue⟩ := List.exists_of_findSome?_eq_some hfound
        simp [routeAfterTools, htruthy c (hbatch c hc).1 payload hdue]

end Contract

/-- A call that is answered, and one that is denied. -/
def denialRun : List Action :=
  [.arrive sampleRequest, .arrive { sampleRequest with agent := lit "support-agent" },
    .answered 0 sampleResult]

/-- The two answers together send the graph to `bypass`. -/
theorem denial_contract_sample : ∃ st, ∃ c₀ c₁ : AnsweredCall,
    (gateway sampleSettings).exec (sampleStart none true) denialRun = some st ∧
    c₀.In st ∧ c₁.In st ∧ c₀.decision = .allowed ∧ c₁.decision = .denied ∧
    (c₁.due sampleSettings).isSome ∧
    ((∀ payload, toolsNode ⟨100, fun _ => true⟩ [c₀.result] = .ok (some payload) ↔
      c₀.due sampleSettings = some payload) ↔ c₀.Plain sampleSettings ⟨100, fun _ => true⟩) := by
  have hrun : ((gateway sampleSettings).exec (sampleStart none true) denialRun).any (fun st =>
      ((st.tasks[0]?).any fun t => t.phase matches .returned _ .allowed) &&
        (st.tasks[1]?).any fun t => t.phase matches .returned _ .denied) = true := by
    decide +kernel
  obtain ⟨st, hst, h⟩ := (Option.any_eq_true _ _).mp hrun
  obtain ⟨h₀, h₁⟩ := Bool.and_eq_true_iff.mp h
  obtain ⟨t₀, ht₀, h₀⟩ := (Option.any_eq_true _ _).mp h₀
  obtain ⟨t₁, ht₁, h₁⟩ := (Option.any_eq_true _ _).mp h₁
  split at h₀
  · next result₀ hphase₀ =>
      split at h₁
      · next result₁ hphase₁ =>
          have hcontract := denial_contract_iff ⟨100, fun _ => true⟩ rfl hst
          have hin₀ : AnsweredCall.In ⟨t₀, result₀, .allowed⟩ st := ⟨⟨0, ht₀⟩, hphase₀⟩
          have hin₁ : AnsweredCall.In ⟨t₁, result₁, .denied⟩ st := ⟨⟨1, ht₁⟩, hphase₁⟩
          exact ⟨st, _, _, hst, hin₀, hin₁, rfl, rfl, (hcontract.1 _ hin₁).2.mpr rfl,
            (hcontract.1 _ hin₀).1⟩
      · cases h₁
  · cases h₀

/-- A successful result whose text is the object of a denial: data about denials. -/
def denialLookalike : CallToolResult := ⟨false, [.text (lit "\x7b\"code\": \"POLICY_DENIED\"\x7d")]⟩

/-- **A successful answer is taken for a denial**: the call was allowed, and its result sends
the graph to `bypass`. -/
theorem denial_contract_fails : ¬∀ (cfg : Settings) (py : Interpreter) (st₀ st : Gateway)
    (as : List Action), st₀.tasks = [] → (gateway cfg).exec st₀ as = some st →
    ∀ c : AnsweredCall, c.In st →
      ((∃ payload, toolsNode py [c.result] = .ok (some payload)) ↔ c.decision = .denied) := by
  intro hclaim
  have hrun : ((gateway sampleSettings).exec (sampleStart none true)
      [.arrive sampleRequest, .answered 0 denialLookalike]).any (fun st => (st.tasks[0]?).any
        fun t => match t.phase with
          | .returned result .allowed => (toolsNode ⟨100, fun _ => true⟩ [result]).toOption.any
              fun denial => routeAfterTools ⟨denial, false⟩ = .bypass
          | _ => false) = true := by
    decide +kernel
  obtain ⟨st, hst, h⟩ := (Option.any_eq_true _ _).mp hrun
  obtain ⟨t, ht, h⟩ := (Option.any_eq_true _ _).mp h
  split at h
  · next result hphase =>
      have hmark := (hclaim sampleSettings ⟨100, fun _ => true⟩ _ st _ rfl hst
        ⟨t, result, .allowed⟩ ⟨⟨0, ht⟩, hphase⟩).not.mpr (by simp)
      cases hnode : toolsNode ⟨100, fun _ => true⟩ [result] with
      | error e => simp [hnode, Except.toOption] at h
      | ok denial =>
          cases denial with
          | some payload => exact hmark ⟨payload, hnode⟩
          | none => simp [hnode, Except.toOption, routeAfterTools, isTruthy] at h
  · cases h

end AgentOpsGateway
