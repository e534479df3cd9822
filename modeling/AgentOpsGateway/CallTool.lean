import AgentOpsGateway.Audit
import AgentOpsGateway.DeadBackend

/-!
# The `call_tool` Handler and its Audit Trail

Every `tools/call` runs `call_tool`: it authenticates, awaits `route_call`, counts the call
and appends a line to the audit log. The counting and the appending follow the `await`
without a `finally`, so they run only where `route_call` returns.

## Main results

* `audited_iff`: **every ended call has exactly one audit line and one increment, with the
  same decision, exactly when** no handler is cancelled at its await and no exception
  escapes from the policy evaluation or the reading of the backend's answer.
* `audited_fails`: a client that cancels its call leaves no trace of a call that was sent.
-/

namespace AgentOpsGateway

open Python Transition

/-- What is fixed for the life of the application. -/
structure AppSettings extends Settings where
  /-- The claim `agent_id` of a valid token. -/
  decode : Str → Except JwtError (Option Str)
  /-- Writes to the audit log succeed. -/
  writable : Bool

/-- One `tools/call`: its header, its arguments as sent, and the trace it belongs to. -/
structure Call where
  authorization : Option Str
  name : Str
  arguments : Option Arguments
  traceId : Str

/-- `arguments or {}`. -/
def Call.args (c : Call) : Arguments := c.arguments.getD []

/-- How a handler ends. -/
inductive Outcome
  | returned (result : CallToolResult) (decision : AuditDecision)
  /-- An exception escaped from `route_call`. -/
  | raised (e : Raised)
  /-- The await raised what nothing catches, as it does when the handler is cancelled. -/
  | cancelled

/-- A running or ended handler. -/
structure Handler where
  call : Call
  agent : Str
  /-- The `route_call` it awaits; `none` where authentication failed. -/
  task : Option ℕ
  /-- `time.perf_counter()` before the routing; `none` where authentication failed. -/
  start : Option ℚ
  outcome : Option Outcome

/-- The application: the gateway, the handlers in order of arrival, and their trail. -/
structure App where
  routes : Gateway
  handlers : List Handler
  metrics : Metrics
  audit : List (ℕ × AuditLine)
  /-- `time.perf_counter()`. -/
  perfCounter : ℚ
  /-- `datetime.now(timezone.utc).isoformat()`. -/
  utcNow : Str

/-- How the await of a handler ends. -/
inductive Wake
  | reloaded (ok : Bool)
  | answered (result : CallToolResult)
  | abort

/-- The action of the gateway that wakes a task. -/
def Wake.action (k : ℕ) : Wake → Action
  | .reloaded ok => .reloaded k ok
  | .answered result => .answered k result
  | .abort => .abort k

/-- What happens to the gateway beside its tasks. -/
inductive Ambient
  | load (server : Str) (tools : List Tool)
  | limiterClock (now : ℚ)
  | breakerClock (now : ℚ)

/-- The action of the gateway. -/
def Ambient.action : Ambient → Action
  | .load server tools => .load server tools
  | .limiterClock now => .limiterClock now
  | .breakerClock now => .breakerClock now

/-- What can happen next. -/
inductive AppAction
  | call (c : Call)
  | wake (i : ℕ) (w : Wake)
  | ambient (a : Ambient)
  | clock (perfCounter : ℚ) (utcNow : Str)

/-- The end that the phase of a task means for its handler. -/
def Phase.outcome : Phase → Option Outcome
  | .returned result decision => some (.returned result decision)
  | .raised e => some (.raised e)
  | .aborted => some .cancelled
  | .reloading _ _ | .calling => none

/-- The end of task `k`, where it has ended. -/
def Gateway.outcome (st : Gateway) (k : ℕ) : Option Outcome :=
  (st.tasks[k]?).bind fun t => t.phase.outcome

/-- The labels of a call: its name taken apart, or `unknown` and the whole name. -/
def labelsOf (h : Handler) (decision : AuditDecision) : CallLabels :=
  let (server, tool) := (split h.call.name).getD (lit "unknown", h.call.name)
  { agent := h.agent, server, tool, decision }

/-- The audit line of a call. -/
def lineOf (h : Handler) (utcNow : Str) (decision : AuditDecision) : AuditLine :=
  { ts := utcNow, agent := h.agent, tool := h.call.name, argsSummary := argsSummary h.call.args,
    decision, traceId := h.call.traceId }

/-- What handler `i` does after its `await`: `call_tool` records only where `route_call`
has returned. -/
def App.settle (writable : Bool) (st : App) (i : ℕ) (h : Handler) : App :=
  match h.outcome with
  | some (.returned _ decision) =>
    { st with
      metrics := recordCall st.metrics i (labelsOf h decision) (h.start.map (st.perfCounter - ·))
      audit := record writable st.audit i (lineOf h st.utcNow decision) }
  | _ => st

/-- Let the application take one action, where it is possible. -/
def App.step (cfg : AppSettings) (st : App) : AppAction → Option App
  | .call c =>
    match authenticate cfg.decode c.authorization with
    | .error reason =>
      let h : Handler :=
        { call := c, agent := lit "anonymous", task := none, start := none
          outcome := some (.returned (errorResult .authFailed [(lit "reason", reason.text)])
            .authFailed) }
      some ({ st with handlers := st.handlers ++ [h] }.settle cfg.writable st.handlers.length h)
    | .ok agent =>
      match (gateway cfg.toSettings).step st.routes (.arrive ⟨agent, c.name, c.args⟩) with
      | some gw =>
        let h : Handler :=
          { call := c, agent, task := some st.routes.tasks.length, start := some st.perfCounter
            outcome := gw.outcome st.routes.tasks.length }
        some ({ st with routes := gw, handlers := st.handlers ++ [h] }.settle cfg.writable
          st.handlers.length h)
      | none => none
  | .wake i w =>
    match st.handlers[i]? with
    | some h =>
      match h.outcome, h.task with
      | none, some k =>
        match (gateway cfg.toSettings).step st.routes (w.action k) with
        | some gw =>
          let h := { h with outcome := gw.outcome k }
          some ({ st with routes := gw, handlers := st.handlers.set i h }.settle cfg.writable i h)
        | none => none
      | _, _ => none
    | none => none
  | .ambient a =>
    match (gateway cfg.toSettings).step st.routes a.action with
    | some gw => some { st with routes := gw }
    | none => none
  | .clock perfCounter utcNow =>
    if st.perfCounter ≤ perfCounter then some { st with perfCounter, utcNow } else none

/-- The runs of the application. -/
def app (cfg : AppSettings) : System App AppAction := ⟨App.step cfg⟩

/-! ### What each action does -/

section Steps

variable {cfg : AppSettings} {st st' : App}

/-- A call that authentication refuses is answered and recorded at once. -/
theorem app_step_refused {c : Call} {reason : AuthReason}
    (hauth : authenticate cfg.decode c.authorization = .error reason)
    (h : (app cfg).step st (.call c) = some st') :
    ∃ h : Handler, h.call = c ∧ h.agent = lit "anonymous" ∧ h.task = none ∧
      h.outcome = some (.returned (errorResult .authFailed [(lit "reason", reason.text)])
        .authFailed) ∧
      st' =
        { st with handlers := st.handlers ++ [h] }.settle cfg.writable st.handlers.length h := by
  simp only [app, App.step, hauth, Option.some.injEq] at h
  exact ⟨_, rfl, rfl, rfl, rfl, h.symm⟩

/-- A call of an authenticated agent enters `route_call`. -/
theorem app_step_accepted {c : Call} {agent : Str}
    (hauth : authenticate cfg.decode c.authorization = .ok agent)
    (h : (app cfg).step st (.call c) = some st') :
    ∃ gw h, (gateway cfg.toSettings).step st.routes (.arrive ⟨agent, c.name, c.args⟩) = some gw ∧
      h.call = c ∧ h.task = some st.routes.tasks.length ∧
      h.outcome = gw.outcome st.routes.tasks.length ∧
      st' = { st with routes := gw, handlers := st.handlers ++ [h] }.settle cfg.writable
        st.handlers.length h := by
  simp only [app, App.step, hauth] at h
  split at h
  · next gw hgw => exact ⟨gw, _, hgw, rfl, rfl, rfl, (Option.some.inj h).symm⟩
  · simp at h

/-- A call can always be made. -/
theorem exists_app_call (cfg : AppSettings) (st : App) (c : Call) :
    ∃ st', (app cfg).step st (.call c) = some st' := by
  simp only [app, App.step]
  split
  · exact ⟨_, rfl⟩
  · exact ⟨_, rfl⟩

/-- A handler that is woken awaits a task of the gateway. -/
theorem app_step_wake {i : ℕ} {w : Wake} (h : (app cfg).step st (.wake i w) = some st') :
    ∃ h₀ k gw, st.handlers[i]? = some h₀ ∧ h₀.outcome = none ∧ h₀.task = some k ∧
      (gateway cfg.toSettings).step st.routes (w.action k) = some gw ∧
      st' = { st with
          routes := gw, handlers := st.handlers.set i { h₀ with outcome := gw.outcome k }
        }.settle cfg.writable i { h₀ with outcome := gw.outcome k } := by
  simp only [app, App.step] at h
  split at h
  · next h₀ hh₀ =>
      split at h
      · next k houtcome htask =>
          split at h
          · next gw hgw => exact ⟨h₀, k, gw, hh₀, houtcome, htask, hgw, (Option.some.inj h).symm⟩
          · simp at h
      · simp at h
  · simp at h

/-- What happens beside the tasks touches neither handlers nor their trail. -/
theorem app_step_ambient {a : Ambient} (h : (app cfg).step st (.ambient a) = some st') :
    st'.handlers = st.handlers ∧ st'.metrics = st.metrics ∧ st'.audit = st.audit := by
  simp only [app, App.step] at h
  split at h
  · obtain rfl := Option.some.inj h
    exact ⟨rfl, rfl, rfl⟩
  · simp at h

/-- The clocks touch neither handlers nor their trail. -/
theorem app_step_clock {perfCounter : ℚ} {utcNow : Str}
    (h : (app cfg).step st (.clock perfCounter utcNow) = some st') :
    st'.handlers = st.handlers ∧ st'.metrics = st.metrics ∧ st'.audit = st.audit := by
  simp only [app, App.step] at h
  split at h
  · obtain rfl := Option.some.inj h
    exact ⟨rfl, rfl, rfl⟩
  · simp at h

end Steps

/-! ### Where exceptions come from -/

/-- `policy.evaluate` is reached, and raises. -/
def EvaluationRaises (cfg : Settings) (g : Shared) (r : Request) (server tool : Str) : Prop :=
  tool ∈ ((g.toolsOf server).getD []).map Tool.name ∧
    ∃ e, cfg.policy.evaluate cfg.py r.agent server tool r.arguments = .error e

section Raises

variable {cfg : Settings} {g : Shared} {r : Request} {server tool : Str}

/-- The segment before the call raises exactly where the policy evaluation does. -/
theorem routeResolved_raise_iff :
    (∃ e, (routeResolved cfg g r server tool).2 = .raise e) ↔
      EvaluationRaises cfg g r server tool := by
  simp only [routeResolved, EvaluationRaises]
  by_cases hknown : tool ∈ ((g.toolsOf server).getD []).map Tool.name
  · rw [if_neg (not_not.mpr hknown)]
    cases hd : cfg.policy.evaluate cfg.py r.agent server tool r.arguments with
    | error e => simp [hknown]
    | ok d =>
        by_cases hallowed : d.allowed
        · by_cases hcircuit : (g.allowCircuit server).1 <;> simp [hallowed, hcircuit]
        · simp [hallowed]
  · simp [hknown, unknownTool]

/-- The first segment raises exactly where the policy evaluation does. -/
theorem routeArrive_raise_iff :
    (∃ e, (routeArrive cfg g r).2 = .raise e) ↔ (g.takeToken r.agent).1 = true ∧
      ∃ server tool, split r.name = some (server, tool) ∧ EvaluationRaises cfg g r server tool := by
  obtain ⟨hbackends, -⟩ := takeToken_snd g r.agent
  have hraises : ∀ server tool, EvaluationRaises cfg (g.takeToken r.agent).2 r server tool ↔
      EvaluationRaises cfg g r server tool := fun server tool => by
    simp only [EvaluationRaises, Shared.toolsOf, hbackends]
  by_cases htoken : (g.takeToken r.agent).1 = true
  · cases htarget : split r.name with
    | none => simp [routeArrive, htoken, htarget, unknownTool]
    | some target =>
        obtain ⟨server, tool⟩ := target
        cases hbackend : dictGet server g.backends with
        | none =>
            simp [routeArrive, htoken, htarget, hbackends, hbackend, unknownTool, EvaluationRaises,
              Shared.toolsOf]
        | some backend =>
            cases htools : backend.tools with
            | none =>
                simp [routeArrive, htoken, htarget, hbackends, hbackend, htools, EvaluationRaises,
                  Shared.toolsOf]
            | some tools =>
                have hlisted : g.toolsOf server = some tools := by
                  rw [Shared.toolsOf, hbackend, Option.bind_some, htools]
                rw [routeArrive_listed htoken htarget hlisted, routeResolved_raise_iff, hraises]
                simp [htoken]
  · simp [routeArrive, htoken]

/-- The segment after `ensure_session` raises exactly where the policy evaluation does. -/
theorem routeReloaded_raise_iff {ok : Bool} :
    (∃ e, (routeReloaded cfg g r server tool ok).2 = .raise e) ↔
      ok = true ∧ EvaluationRaises cfg g r server tool := by
  cases ok with
  | false => simp [routeReloaded]
  | true => simp only [routeReloaded, if_true, routeResolved_raise_iff, true_and]

/-- The last segment raises exactly where the reading of the answer does. -/
theorem routeAnswered_raise_iff {result : CallToolResult} :
    (∃ e, (routeAnswered cfg g server result).2 = .raise e) ↔
      ∃ e, relayDecision cfg.py result = .error e := by
  simp only [routeAnswered]
  cases relayDecision cfg.py result <;> simp

end Raises

/-! ### The trail of a call -/

/-- The entries of a log that belong to call `i`. -/
def entriesOf {α : Type*} (i : ℕ) (log : List (ℕ × α)) : List α :=
  log.filterMap fun p => if p.1 = i then some p.2 else none

/-- The entries of a log with one entry more. -/
theorem entriesOf_concat {α : Type*} (i j : ℕ) (log : List (ℕ × α)) (x : α) :
    entriesOf i (log ++ [(j, x)]) =
      if j = i then entriesOf i log ++ [x] else entriesOf i log := by
  by_cases hij : j = i <;> simp [entriesOf, hij]

/-- Call `i` has left exactly one audit line and exactly one increment, both with decision
`d`. -/
structure App.Traced (st : App) (i : ℕ) (h : Handler) (d : AuditDecision) : Prop where
  audit : ∃ utcNow, entriesOf i st.audit = [lineOf h utcNow d]
  toolCalls : entriesOf i st.metrics.toolCalls = [labelsOf h d]

/-- Call `i` has left no trace. -/
def App.Untraced (st : App) (i : ℕ) : Prop :=
  entriesOf i st.audit = [] ∧ entriesOf i st.metrics.toolCalls = []

/-- Every ended call has left its trace. -/
def App.Audited (st : App) : Prop :=
  ∀ i h o, st.handlers[i]? = some h → h.outcome = some o → ∃ d, st.Traced i h d

/-- The handler has returned. -/
def Handler.Returned (h : Handler) (d : AuditDecision) : Prop :=
  ∃ result, h.outcome = some (.returned result d)

/-- The handler has ended without returning. -/
def Handler.Escaped (h : Handler) : Prop := ∃ o, h.outcome = some o ∧ ∀ d, ¬h.Returned d

/-- Exactly the calls that returned have left a trace. -/
structure App.Trail (st : App) : Prop where
  traced : ∀ i h d, st.handlers[i]? = some h → h.Returned d → st.Traced i h d
  untraced : ∀ i, (∀ h d, st.handlers[i]? = some h → ¬h.Returned d) → st.Untraced i

section Trail

variable {st : App} {i : ℕ} {h : Handler} {d : AuditDecision}

/-- Settling a handler keeps the table of handlers. -/
theorem settle_handlers (writable : Bool) (st : App) (i : ℕ) (h : Handler) :
    (st.settle writable i h).handlers = st.handlers := by
  simp only [App.settle]
  split <;> rfl

/-- A handler that has not returned settles without a trace. -/
theorem settle_of_not_returned (writable : Bool) (hret : ∀ d, ¬h.Returned d) :
    st.settle writable i h = st := by
  simp only [App.settle]
  split
  · next result d houtcome => exact absurd ⟨result, houtcome⟩ (hret d)
  · rfl

/-- A handler that has returned settles by one line and one increment. -/
theorem settle_of_returned (st : App) (i : ℕ) (hret : h.Returned d) :
    (st.settle true i h).audit = st.audit ++ [(i, lineOf h st.utcNow d)] ∧
      (st.settle true i h).metrics.toolCalls = st.metrics.toolCalls ++ [(i, labelsOf h d)] := by
  obtain ⟨result, houtcome⟩ := hret
  simp [App.settle, houtcome, record, recordCall]

/-- A handler has returned with one decision at most. -/
theorem Handler.Returned.unique {d' : AuditDecision} (hd : h.Returned d) (hd' : h.Returned d') :
    d = d' := by
  obtain ⟨result, hr⟩ := hd
  obtain ⟨result', hr'⟩ := hd'
  simp only [hr, Option.some.injEq, Outcome.returned.injEq] at hr'
  exact hr'.2

end Trail

/-! ### Steps that leave a call without a trace -/

/-- The `route_call` that handler `i` awaits. -/
def App.awaited (st : App) (i : ℕ) : Option Task :=
  (st.handlers[i]?).bind fun h => h.task.bind fun k => st.routes.tasks[k]?

/-- The action ends a handler other than by the return of its `route_call`: it cancels the
handler, or the policy evaluation or the reading of the answer raises. -/
def Escapes (cfg : AppSettings) (st : App) : AppAction → Prop
  | .call c => ∃ agent, authenticate cfg.decode c.authorization = .ok agent ∧
      (st.routes.shared.takeToken agent).1 = true ∧ ∃ server tool,
        split c.name = some (server, tool) ∧
        EvaluationRaises cfg.toSettings st.routes.shared ⟨agent, c.name, c.args⟩ server tool
  | .wake _ .abort => True
  | .wake i (.reloaded ok) => ok = true ∧ ∃ t server tool, st.awaited i = some t ∧
      t.phase = .reloading server tool ∧
      EvaluationRaises cfg.toSettings st.routes.shared t.request server tool
  | .wake _ (.answered result) => ∃ e, relayDecision cfg.py result = .error e
  | .ambient _ => False
  | .clock _ _ => False

/-- Between `st` and `mid` handler `i` has arrived or gone on, and is now `h`. -/
structure Moves (st mid : App) (i : ℕ) (h : Handler) : Prop where
  metrics : mid.metrics = st.metrics
  audit : mid.audit = st.audit
  handlers : ∀ j h', mid.handlers[j]? = some h' ↔
    j = i ∧ h = h' ∨ j ≠ i ∧ st.handlers[j]? = some h'
  running : ∀ h₀, st.handlers[i]? = some h₀ → h₀.outcome = none

section Steps

variable {cfg : AppSettings} {st st' mid : App} {a : AppAction} {i k : ℕ} {h : Handler}

/-- A new handler moves. -/
theorem moves_concat (gw : Gateway) : Moves st
    { st with routes := gw, handlers := st.handlers ++ [h] } st.handlers.length h where
  metrics := rfl
  audit := rfl
  handlers j h' := by
    rw [getElem?_concat_eq_some]
    constructor
    · rintro (hj | ⟨rfl, rfl⟩)
      · exact Or.inr ⟨(lt_length_of_getElem? hj).ne, hj⟩
      · exact Or.inl ⟨rfl, rfl⟩
    · rintro (⟨rfl, rfl⟩ | ⟨-, hj⟩)
      · exact Or.inr ⟨rfl, rfl⟩
      · exact Or.inl hj
  running h₀ hh₀ := absurd (lt_length_of_getElem? hh₀) (lt_irrefl _)

/-- A running handler moves. -/
theorem moves_set {h₀ : Handler} (gw : Gateway) (hh₀ : st.handlers[i]? = some h₀)
    (hrunning : h₀.outcome = none) :
    Moves st { st with routes := gw, handlers := st.handlers.set i h } i h where
  metrics := rfl
  audit := rfl
  handlers _ _ := getElem?_set_eq_some (lt_length_of_getElem? hh₀)
  running _ hh₁ := Option.some.inj (hh₀.symm.trans hh₁) ▸ hrunning

/-- A handler escapes with the exception at which its segment stops. -/
theorem escaped_iff_raise {halt : Halt} (houtcome : h.outcome = halt.phase.outcome) :
    h.Escaped ↔ ∃ e, halt = .raise e := by
  simp only [Handler.Escaped, Handler.Returned]
  rw [houtcome]
  cases halt <;> simp [Halt.phase, Phase.outcome]

/-- The end of a task that has just moved. -/
theorem outcome_of_set (g : Shared) {tasks : List Task} {t₀ : Task} (ht : tasks[k]? = some t₀)
    (t : Task) : Gateway.outcome ⟨g, tasks.set k t⟩ k = t.phase.outcome := by
  simp [Gateway.outcome, lt_length_of_getElem? ht]

/-- **What a step does to the handlers**: nothing, or it moves one handler and settles it,
and that handler escapes exactly where the action lets it. -/
theorem app_step_cases (hstep : (app cfg).step st a = some st') :
    (st'.handlers = st.handlers ∧ st'.metrics = st.metrics ∧ st'.audit = st.audit) ∧
        ¬Escapes cfg st a ∨
      ∃ mid i h, Moves st mid i h ∧ st' = mid.settle cfg.writable i h ∧
        (h.Escaped ↔ Escapes cfg st a) := by
  cases a with
  | call c =>
      refine Or.inr ?_
      cases hauth : authenticate cfg.decode c.authorization with
      | error reason =>
          obtain ⟨h, -, -, -, houtcome, rfl⟩ := app_step_refused hauth hstep
          refine ⟨_, _, h, moves_concat st.routes, rfl, ?_⟩
          simp [Handler.Escaped, Handler.Returned, houtcome, Escapes, hauth]
      | ok agent =>
          obtain ⟨gw, h, hgw, -, -, houtcome, rfl⟩ := app_step_accepted hauth hstep
          refine ⟨_, _, h, moves_concat gw, rfl, ?_⟩
          obtain rfl := step_arrive hgw
          simp only [Gateway.outcome, List.getElem?_concat_length, Option.bind_some] at houtcome
          rw [escaped_iff_raise houtcome, routeArrive_raise_iff]
          simp [Escapes, hauth]
  | wake i w =>
      refine Or.inr ?_
      obtain ⟨h₀, k, gw, hh₀, hrunning, htask, hgw, rfl⟩ := app_step_wake hstep
      refine ⟨_, _, _, moves_set gw hh₀ hrunning, rfl, ?_⟩
      have hawaited : ∀ t, st.routes.tasks[k]? = some t → st.awaited i = some t := fun t ht => by
        simp [App.awaited, hh₀, htask, ht]
      cases w with
      | reloaded ok =>
          obtain ⟨t, server, tool, ht, hphase, rfl⟩ := step_reloaded hgw
          rw [escaped_iff_raise (outcome_of_set _ ht _), routeReloaded_raise_iff]
          refine and_congr_right fun _ => ?_
          simp [hawaited t ht, hphase]
      | answered result =>
          obtain ⟨t, d, ht, -, -, rfl⟩ := step_answered hgw
          rw [escaped_iff_raise (outcome_of_set _ ht _), routeAnswered_raise_iff]
          rfl
      | abort =>
          obtain ⟨t, ht, -, rfl⟩ := step_abort hgw
          simp [Handler.Escaped, Handler.Returned, Escapes, outcome_of_set _ ht, Phase.outcome]
  | ambient a => exact Or.inl ⟨app_step_ambient hstep, id⟩
  | clock perfCounter utcNow => exact Or.inl ⟨app_step_clock hstep, id⟩

/-- **The trail is kept by every step.** -/
theorem App.Trail.step (htrail : st.Trail) (hwritable : cfg.writable = true)
    (hstep : (app cfg).step st a = some st') : st'.Trail := by
  rcases app_step_cases hstep with ⟨⟨hhandlers, hmetrics, haudit⟩, -⟩ | ⟨mid, i, h, hmoves, rfl, -⟩
  · constructor
    · intro j h' d hj hret
      obtain ⟨hline, hlabels⟩ := htrail.traced j h' d (hhandlers ▸ hj) hret
      exact ⟨by rwa [haudit], by rwa [hmetrics]⟩
    · intro j hnone
      obtain ⟨hline, hlabels⟩ := htrail.untraced j fun h' d hj => hnone h' d (hhandlers ▸ hj)
      exact ⟨by rwa [haudit], by rwa [hmetrics]⟩
  · rw [hwritable]
    have huntraced : st.Untraced i := htrail.untraced i fun h₀ d hh₀ => by
      simp [Handler.Returned, hmoves.running h₀ hh₀]
    by_cases hret : ∃ d, h.Returned d
    · obtain ⟨d, hret⟩ := hret
      obtain ⟨haudit, hcalls⟩ := settle_of_returned mid i hret
      constructor
      · intro j h' d' hj hret'
        rw [settle_handlers, hmoves.handlers] at hj
        rcases hj with ⟨rfl, rfl⟩ | ⟨hne, hj⟩
        · obtain rfl := hret.unique hret'
          exact ⟨⟨mid.utcNow, by simp [haudit, entriesOf_concat, hmoves.audit, huntraced.1]⟩,
            by simp [hcalls, entriesOf_concat, hmoves.metrics, huntraced.2]⟩
        · obtain ⟨hline, hlabels⟩ := htrail.traced j h' d' hj hret'
          exact ⟨by simpa [haudit, entriesOf_concat, hmoves.audit, Ne.symm hne] using hline,
            by simpa [hcalls, entriesOf_concat, hmoves.metrics, Ne.symm hne] using hlabels⟩
      · intro j hnone
        have hne : j ≠ i := by
          rintro rfl
          refine hnone h d ?_ hret
          rw [settle_handlers, hmoves.handlers]
          exact Or.inl ⟨rfl, rfl⟩
        obtain ⟨hline, hlabels⟩ := htrail.untraced j fun h' d' hj => hnone h' d' <| by
          rw [settle_handlers, hmoves.handlers]
          exact Or.inr ⟨hne, hj⟩
        exact ⟨by simpa [haudit, entriesOf_concat, hmoves.audit, Ne.symm hne] using hline,
          by simpa [hcalls, entriesOf_concat, hmoves.metrics, Ne.symm hne] using hlabels⟩
    · rw [settle_of_not_returned true (not_exists.mp hret)]
      have hentries : ∀ j, (entriesOf j mid.audit = entriesOf j st.audit) ∧
          entriesOf j mid.metrics.toolCalls = entriesOf j st.metrics.toolCalls := fun j => by
        rw [hmoves.audit, hmoves.metrics]
        exact ⟨rfl, rfl⟩
      constructor
      · intro j h' d' hj hret'
        rcases (hmoves.handlers j h').mp hj with ⟨-, rfl⟩ | ⟨-, hj⟩
        · exact absurd ⟨d', hret'⟩ hret
        · obtain ⟨hline, hlabels⟩ := htrail.traced j h' d' hj hret'
          exact ⟨by rwa [(hentries j).1], by rwa [(hentries j).2]⟩
      · intro j hnone
        have hold : st.Untraced j := by
          by_cases hji : j = i
          · exact hji ▸ huntraced
          · exact htrail.untraced j fun h' d' hj =>
              hnone h' d' ((hmoves.handlers j h').mpr (Or.inr ⟨hji, hj⟩))
        exact ⟨(hentries j).1.trans hold.1, (hentries j).2.trans hold.2⟩

/-- A handler that has ended stays as it is. -/
theorem ended_stays {o : Outcome} (hi : st.handlers[i]? = some h) (ho : h.outcome = some o)
    (hstep : (app cfg).step st a = some st') : st'.handlers[i]? = some h := by
  rcases app_step_cases hstep with ⟨⟨hhandlers, -⟩, -⟩ | ⟨mid, j, h', hmoves, rfl, -⟩
  · rwa [hhandlers]
  · rw [settle_handlers, hmoves.handlers]
    refine Or.inr ⟨?_, hi⟩
    rintro rfl
    simp [hmoves.running h hi] at ho

/-- With the trail kept, all ended calls are traced exactly when none has escaped. -/
theorem App.Trail.noEscape_iff (htrail : st.Trail) :
    st.Audited ↔ ∀ (i : ℕ) (h : Handler), st.handlers[i]? = some h → ¬h.Escaped := by
  constructor
  · rintro haudited i h hi ⟨o, houtcome, hnone⟩
    obtain ⟨d, -, hlabels⟩ := haudited i h o hi houtcome
    have huntraced := htrail.untraced i fun h' d' hi' => by
      obtain rfl := Option.some.inj (hi.symm.trans hi')
      exact hnone d'
    simp [huntraced.2] at hlabels
  · intro hnone i h o hi houtcome
    by_contra htraced
    refine hnone i h hi ⟨o, houtcome, fun d hret => ?_⟩
    exact htraced ⟨d, htrail.traced i h d hi hret⟩

/-- **One step leaves an ended call without a trace exactly when it lets it escape.** -/
theorem App.Audited.step_iff (haudited : st.Audited) (htrail : st.Trail) (htrail' : st'.Trail)
    (hstep : (app cfg).step st a = some st') : st'.Audited ↔ ¬Escapes cfg st a := by
  have hbefore := htrail.noEscape_iff.mp haudited
  rw [htrail'.noEscape_iff]
  rcases app_step_cases hstep with ⟨⟨hhandlers, -, -⟩, hnot⟩ | ⟨mid, i, h, hmoves, rfl, hescaped⟩
  · rw [hhandlers]
    exact iff_of_true hbefore hnot
  · simp only [settle_handlers, hmoves.handlers, ← hescaped]
    constructor
    · intro hafter
      exact hafter i h (Or.inl ⟨rfl, rfl⟩)
    · rintro hnot j h' (⟨rfl, rfl⟩ | ⟨-, hj⟩)
      · exact hnot
      · exact hbefore j h' hj

end Steps

/-- The application before the first call. -/
def App.start (g : Shared) (perfCounter : ℚ) (utcNow : Str) : App :=
  { routes := ⟨g, []⟩, handlers := [], metrics := ⟨[], [], []⟩, audit := [], perfCounter, utcNow }

/-- **Exactly-once audit holds exactly when nothing escapes**: on every run of calls, in any
interleaving, every ended call has left exactly one audit line and exactly one increment
with the same decision at all times if and only if no step cancels a handler, and none
reaches a policy evaluation or a reading of an answer that raises. -/
theorem audited_iff {cfg : AppSettings} {g : Shared} {perfCounter : ℚ} {utcNow : Str} {st : App}
    {as : List AppAction} (hwritable : cfg.writable = true)
    (hrun : (app cfg).exec (.start g perfCounter utcNow) as = some st) :
    (app cfg).Always App.Audited (.start g perfCounter utcNow) as ↔
      (app cfg).Each (fun st a => ¬Escapes cfg st a) (.start g perfCounter utcNow) as := by
  refine System.always_iff_each (I := App.Trail)
    (fun st a st' htrail hstep => htrail.step hwritable hstep)
    (fun st a st' htrail haudited hstep =>
      haudited.step_iff htrail (htrail.step hwritable hstep) hstep) ?_ ?_ hrun
  · exact ⟨by simp [App.start], fun i _ => ⟨rfl, rfl⟩⟩
  · simp [App.Audited, App.start]

/-- The settings of the small gateway, with one valid token. -/
def sampleApp : AppSettings :=
  { sampleSettings with
    decode := fun token =>
      if token = lit "token" then .ok (some (lit "dev-agent")) else .error .invalidToken
    writable := true }

/-- A call of the one tool with the valid token. -/
def sampleCall : Call :=
  ⟨some (lit "Bearer token"), lit "ticket__create_ticket", none, lit "0123456789abcdef"⟩

/-- The application of the small gateway. -/
def appStart : App := .start (sampleStart none true).shared 0 (lit "1970-01-01T00:00:00+00:00")

/-- The trail and its condition for one call that is answered. -/
theorem audited_sample : ∃ st,
    (app sampleApp).exec appStart [.call sampleCall, .wake 0 (.answered sampleResult)] = some st ∧
    ((app sampleApp).Always App.Audited appStart
        [.call sampleCall, .wake 0 (.answered sampleResult)] ↔
      (app sampleApp).Each (fun st a => ¬Escapes sampleApp st a) appStart
        [.call sampleCall, .wake 0 (.answered sampleResult)]) := by
  have hrun : ((app sampleApp).exec appStart
      [.call sampleCall, .wake 0 (.answered sampleResult)]).isSome = true := by decide +kernel
  obtain ⟨st, hst⟩ := Option.isSome_iff_exists.mp hrun
  exact ⟨st, hst, audited_iff rfl hst⟩

/-- **A call without a trace**: it was sent to the backend, and then its client cancelled
it. -/
theorem audited_fails : ¬∀ (cfg : AppSettings) (g : Shared) (perfCounter : ℚ) (utcNow : Str)
    (st : App) (as : List AppAction), cfg.writable = true →
    (app cfg).exec (.start g perfCounter utcNow) as = some st →
    (app cfg).Always App.Audited (.start g perfCounter utcNow) as := by
  intro hclaim
  have hrun : ((app sampleApp).exec appStart [.call sampleCall, .wake 0 .abort]).any (fun st =>
      ((st.handlers[0]?).any fun h => h.outcome.isSome) &&
        ((st.awaited 0).any fun t => t.sent.isSome) &&
        (entriesOf 0 st.metrics.toolCalls).isEmpty) = true := by
    decide +kernel
  obtain ⟨st, hst, htrace⟩ := (Option.any_eq_true _ _).mp hrun
  simp only [Bool.and_eq_true, List.isEmpty_iff] at htrace
  obtain ⟨⟨hended, -⟩, hnone⟩ := htrace
  obtain ⟨h, hh, ho⟩ := (Option.any_eq_true _ _).mp hended
  obtain ⟨o, ho⟩ := Option.isSome_iff_exists.mp ho
  obtain ⟨d, -, hlabels⟩ := (hclaim _ _ _ _ st _ rfl hst).last hst 0 h o hh ho
  simp [hnone] at hlabels

end AgentOpsGateway
