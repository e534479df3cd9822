import AgentOpsGateway.Aggregate
import AgentOpsGateway.Circuit
import AgentOpsGateway.Policy
import AgentOpsGateway.RateLimit
import AgentOpsGateway.Transition

/-!
# Routing of a Tool Call

`route_call` runs as one task for each request and gives up control at two places: at
`await backend.ensure_session()`, when the tools of the backend have never been listed,
and at `await backend.call(…)`. Between them it runs without interruption, so it is
modelled by its three segments — `routeArrive`, `routeReloaded`, `routeAnswered` — each a
function of the state shared by all requests, and the gateway is the transition system
whose actions let one task run to its next stop.

What happens outside `route_call` is a free choice of the run: when requests arrive, what
an await yields, when a backend's tools get listed, and how the two clocks advance.

A task remembers the shared state in which its segments started and the call it sent.
These records are never read by the segments; they are what properties speak about.
-/

namespace AgentOpsGateway

open Python Transition

/-- What `route_call` sees of a backend. -/
structure Backend where
  name : Str
  /-- The tools listed last; `none` where they never were. -/
  tools : Option (List Tool)

/-- The arguments of one `route_call`. -/
structure Request where
  agent : Str
  name : Str
  arguments : Arguments

/-- The state shared by all requests. -/
structure Shared where
  limiter : Option RateLimiter
  breaker : Option CircuitBreaker
  backends : List (Str × Backend)

/-- What is fixed for the life of the gateway. -/
structure Settings where
  py : Interpreter
  policy : Policy

/-- A `backend.call(tool, arguments)` on the backend registered as `server`, with the
circumstances in which the breaker let it through. -/
structure Dispatch where
  server : Str
  tool : Str
  arguments : Arguments
  /-- The circuit of the server was tripped: the call is a half-open probe. -/
  probe : Bool
  time : ℚ

/-- Where a segment stops. -/
inductive Halt
  | reload (server tool : Str)
  | call (d : Dispatch)
  | ret (result : CallToolResult) (decision : AuditDecision)
  | raise (e : Raised)

/-! ### The shared state -/

namespace Shared

/-- `rate_limiter is None or rate_limiter.allow(agent)`. -/
def takeToken (g : Shared) (agent : Str) : Bool × Shared :=
  match g.limiter with
  | none => (true, g)
  | some l => ((l.allow agent).1, { g with limiter := some (l.allow agent).2 })

/-- `breaker is None or breaker.allow(server)`. -/
def allowCircuit (g : Shared) (server : Str) : Bool × Shared :=
  match g.breaker with
  | none => (true, g)
  | some b => ((b.allow server).1, { g with breaker := some (b.allow server).2 })

/-- Report the outcome of a call to the breaker. -/
def report (g : Shared) (server : Str) (relay : AuditDecision) : Shared :=
  { g with
    breaker := g.breaker.map fun b =>
      if relay = .error then b.recordFailure server else b.recordSuccess server }

/-- The tools of a backend, `none` also where no backend has that name. -/
def toolsOf (g : Shared) (server : Str) : Option (List Tool) :=
  (dictGet server g.backends).bind Backend.tools

/-- Whether and when the breaker lets a call through: is it a probe, and at what time. -/
def admission (g : Shared) (server : Str) : Bool × ℚ :=
  match g.breaker with
  | none => (false, 0)
  | some b => (b.isTripped server, b.now)

/-- `self.tools = …` of a connection task. -/
def load (g : Shared) (server : Str) (tools : List Tool) : Shared :=
  { g with
    backends := g.backends.map fun p =>
      if p.1 = server then (p.1, { p.2 with tools := some tools }) else p }

/-- What is registered after the tools of one backend were listed. -/
theorem dictGet_load (g : Shared) (server key : Str) (tools : List Tool) :
    dictGet key (g.load server tools).backends = (dictGet key g.backends).map fun b =>
      if key = server then { b with tools := some tools } else b := by
  simp only [load]
  induction g.backends with
  | nil => rfl
  | cons p bs ih =>
      by_cases hp : p.1 = key
      · subst hp
        by_cases hs : p.1 = server <;> simp [dictGet, hs]
      · by_cases hs : p.1 = server
        · simpa only [List.map_cons, if_pos hs, dictGet, if_neg hp] using ih
        · simpa only [List.map_cons, if_neg hs, dictGet, if_neg hp] using ih

end Shared

/-! ### The segments of `route_call` -/

/-- `error_result("UNKNOWN_TOOL", tool=name)`. -/
def unknownTool (name : Str) : Halt := .ret (errorResult .unknownTool [(lit "tool", name)]) .error

/-- `error_result("BACKEND_UNAVAILABLE", server=server)`. -/
def backendUnavailable (server : Str) : CallToolResult :=
  errorResult .backendUnavailable [(lit "server", server)]

/-- The fields of a policy refusal. -/
def deniedFields (agent : Str) (d : Decision) : List (Str × Str) :=
  [(lit "rule", d.rule), (lit "agent", agent)] ++
    match d.detail with
    | none => []
    | some detail => [(lit "detail", detail)]

/-- `_relay_decision(result)`: only the gateway's own `BACKEND_UNAVAILABLE` is an error. -/
def relayDecision (py : Interpreter) (result : CallToolResult) : Except Raised AuditDecision :=
  if result.isError then
    match result.content with
    | [] => .ok .allowed
    | .other none :: _ => .ok .allowed
    | .text text :: _ | .other (some (.str text)) :: _ =>
      match loads (py.spareLevels + 1) text with
      | .error .valueError => .ok .allowed
      | .error .recursionError => .error .recursionError
      | .ok (.obj payload) =>
        match dictGet (lit "code") payload with
        | some (.str code) =>
          .ok (if code = ErrorCode.backendUnavailable.text then .error else .allowed)
        | _ => .ok .allowed
      | .ok _ => .ok .allowed
    | .other (some _) :: _ => .error .typeError
  else .ok .allowed

/-- The gateway's own `BACKEND_UNAVAILABLE` is relayed as an error. -/
theorem relayDecision_backendUnavailable (py : Interpreter) (server : Str) :
    relayDecision py (backendUnavailable server) = .ok .error := by
  obtain ⟨payload, hload, hcode⟩ := code_of_errorResult py.spareLevels .backendUnavailable
    [(lit "server", server)] (field_ne_code (by decide))
  simp only [relayDecision, backendUnavailable, errorResult, hload, hcode, if_true]

/-- The reading of an answer denies nothing. -/
theorem relayDecision_ne_denied (py : Interpreter) (result : CallToolResult) :
    relayDecision py result ≠ .ok .denied := by
  simp only [relayDecision]
  repeat' split
  all_goals simp

/-- From the resolution of the tool to `backend.call`: the tool is known, the policy allows
it, the circuit is closed. -/
def routeResolved (cfg : Settings) (g : Shared) (r : Request) (server tool : Str) :
    Shared × Halt :=
  if tool ∉ ((g.toolsOf server).getD []).map Tool.name then (g, unknownTool r.name)
  else
    match cfg.policy.evaluate cfg.py r.agent server tool r.arguments with
    | .error e => (g, .raise e)
    | .ok decision =>
      if decision.allowed then
        if (g.allowCircuit server).1 then
          ((g.allowCircuit server).2,
            .call { server, tool, arguments := r.arguments,
                    probe := (g.admission server).1, time := (g.admission server).2 })
        else ((g.allowCircuit server).2, .ret (backendUnavailable server) .error)
      else (g, .ret (errorResult .policyDenied (deniedFields r.agent decision)) .denied)

/-- The first segment: from the call of `route_call` to its first await or its end. -/
def routeArrive (cfg : Settings) (g : Shared) (r : Request) : Shared × Halt :=
  if (g.takeToken r.agent).1 then
    let g := (g.takeToken r.agent).2
    match split r.name with
    | none => (g, unknownTool r.name)
    | some (server, tool) =>
      match dictGet server g.backends with
      | none => (g, unknownTool r.name)
      | some backend =>
        match backend.tools with
        | none => (g, .reload server tool)
        | some _ => routeResolved cfg g r server tool
  else
    ((g.takeToken r.agent).2,
      .ret (errorResult .rateLimited [(lit "agent", r.agent)]) .rateLimited)

/-- The segment after `ensure_session`, which returned or raised an `Exception`. -/
def routeReloaded (cfg : Settings) (g : Shared) (r : Request) (server tool : Str) (ok : Bool) :
    Shared × Halt :=
  if ok then routeResolved cfg g r server tool
  else (g, .ret (backendUnavailable server) .error)

/-- The segment after `backend.call` returned a result. -/
def routeAnswered (cfg : Settings) (g : Shared) (server : Str) (result : CallToolResult) :
    Shared × Halt :=
  match relayDecision cfg.py result with
  | .error e => (g, .raise e)
  | .ok relay => (g.report server relay, .ret result relay)

/-! ### The gateway as a transition system -/

/-- Where a task stands. -/
inductive Phase
  /-- At `await backend.ensure_session()`. -/
  | reloading (server tool : Str)
  /-- At `await backend.call(…)`. -/
  | calling
  | returned (result : CallToolResult) (decision : AuditDecision)
  /-- A segment raised. -/
  | raised (e : Raised)
  /-- The await raised what `route_call` does not catch, as it does when the task is
  cancelled. -/
  | aborted

/-- A running or finished `route_call`. -/
structure Task where
  request : Request
  /-- The shared state in which the request arrived. -/
  arrival : Shared
  /-- How `ensure_session` ended, and the shared state in which the task went on. -/
  reload : Option (Bool × Shared)
  sent : Option Dispatch
  phase : Phase

/-- The result of a task that has returned. -/
def Task.result (t : Task) : Option CallToolResult :=
  match t.phase with
  | .returned result _ => some result
  | .reloading .. | .calling | .raised _ | .aborted => none

theorem Task.result_eq_some_iff {t : Task} {result : CallToolResult} :
    t.result = some result ↔ ∃ decision, t.phase = .returned result decision := by
  rw [Task.result]
  cases t.phase <;> simp

/-- The call a stop stands for. -/
def Halt.sent : Halt → Option Dispatch
  | .call d => some d
  | _ => none

/-- The phase a stop leads to. -/
def Halt.phase : Halt → Phase
  | .reload server tool => .reloading server tool
  | .call _ => .calling
  | .ret result decision => .returned result decision
  | .raise e => .raised e

/-- A stop that returns sends nothing. -/
theorem sent_eq_none_of_returned {h : Halt} {result : CallToolResult} {d : AuditDecision}
    (hphase : h.phase = .returned result d) : h.sent = none := by
  cases h with
  | ret result d => rfl
  | reload _ _ | call _ | raise _ => simp [Halt.phase] at hphase

/-- The gateway: the shared state and the tasks in order of arrival. -/
structure Gateway where
  shared : Shared
  tasks : List Task

/-- What can happen next. -/
inductive Action
  | arrive (r : Request)
  /-- `ensure_session` of a task returns, or raises an `Exception`. -/
  | reloaded (i : ℕ) (ok : Bool)
  /-- `backend.call` of a task returns. -/
  | answered (i : ℕ) (result : CallToolResult)
  /-- The await of a task raises what is not caught. -/
  | abort (i : ℕ)
  /-- A connection task lists the tools of a backend. -/
  | load (server : Str) (tools : List Tool)
  | limiterClock (now : ℚ)
  | breakerClock (now : ℚ)

/-- Let the gateway take one action, where it is possible. -/
def Gateway.step (cfg : Settings) (st : Gateway) : Action → Option Gateway
  | .arrive r =>
    let (shared, h) := routeArrive cfg st.shared r
    some ⟨shared, st.tasks ++
      [{ request := r, arrival := st.shared, reload := none, sent := h.sent, phase := h.phase }]⟩
  | .reloaded i ok =>
    match st.tasks[i]? with
    | some t =>
      match t.phase with
      | .reloading server tool =>
        let (shared, h) := routeReloaded cfg st.shared t.request server tool ok
        some ⟨shared, st.tasks.set i
          { t with reload := some (ok, st.shared), sent := h.sent, phase := h.phase }⟩
      | _ => none
    | none => none
  | .answered i result =>
    match st.tasks[i]? with
    | some t =>
      match t.phase, t.sent with
      | .calling, some d =>
        let (shared, h) := routeAnswered cfg st.shared d.server result
        some ⟨shared, st.tasks.set i { t with phase := h.phase }⟩
      | _, _ => none
    | none => none
  | .abort i =>
    match st.tasks[i]? with
    | some t =>
      match t.phase with
      | .reloading _ _ | .calling => some ⟨st.shared, st.tasks.set i { t with phase := .aborted }⟩
      | _ => none
    | none => none
  | .load server tools => some ⟨st.shared.load server tools, st.tasks⟩
  | .limiterClock now =>
    match st.shared.limiter with
    | some l =>
      if l.now ≤ now then
        some ⟨{ st.shared with limiter := some { l with now } }, st.tasks⟩
      else none
    | none => none
  | .breakerClock now =>
    match st.shared.breaker with
    | some b =>
      if b.now ≤ now then
        some ⟨{ st.shared with breaker := some { b with now } }, st.tasks⟩
      else none
    | none => none

/-- The runs of the gateway. -/
def gateway (cfg : Settings) : System Gateway Action := ⟨Gateway.step cfg⟩

/-! ### What each action does -/

section Steps

variable {cfg : Settings} {st st' : Gateway} {i : ℕ}

/-- A request runs its first segment in the state it arrives in. -/
theorem step_arrive {r : Request} (h : (gateway cfg).step st (.arrive r) = some st') :
    st' = ⟨(routeArrive cfg st.shared r).1, st.tasks ++
      [⟨r, st.shared, none, (routeArrive cfg st.shared r).2.sent,
        (routeArrive cfg st.shared r).2.phase⟩]⟩ :=
  (Option.some.inj h).symm

/-- A task whose `ensure_session` ended runs its second segment. -/
theorem step_reloaded {ok : Bool} (h : (gateway cfg).step st (.reloaded i ok) = some st') :
    ∃ t server tool, st.tasks[i]? = some t ∧ t.phase = .reloading server tool ∧
      st' = ⟨(routeReloaded cfg st.shared t.request server tool ok).1, st.tasks.set i
        ⟨t.request, t.arrival, some (ok, st.shared),
          (routeReloaded cfg st.shared t.request server tool ok).2.sent,
          (routeReloaded cfg st.shared t.request server tool ok).2.phase⟩⟩ := by
  simp only [gateway, Gateway.step] at h
  split at h
  · next t ht =>
      split at h
      · next server tool hphase => exact ⟨t, server, tool, ht, hphase, (Option.some.inj h).symm⟩
      · simp at h
  · simp at h

/-- A task whose `backend.call` returned runs its last segment. -/
theorem step_answered {result : CallToolResult}
    (h : (gateway cfg).step st (.answered i result) = some st') :
    ∃ t d, st.tasks[i]? = some t ∧ t.phase = .calling ∧ t.sent = some d ∧
      st' = ⟨(routeAnswered cfg st.shared d.server result).1, st.tasks.set i
        { t with phase := (routeAnswered cfg st.shared d.server result).2.phase }⟩ := by
  simp only [gateway, Gateway.step] at h
  split at h
  · next t ht =>
      split at h
      · next d hphase hsent => exact ⟨t, d, ht, hphase, hsent, (Option.some.inj h).symm⟩
      · simp at h
  · simp at h

/-- An aborted task stood at one of its two awaits. -/
theorem step_abort (h : (gateway cfg).step st (.abort i) = some st') :
    ∃ t, st.tasks[i]? = some t ∧ ((∃ server tool, t.phase = .reloading server tool) ∨
      t.phase = .calling) ∧ st' = ⟨st.shared, st.tasks.set i { t with phase := .aborted }⟩ := by
  simp only [gateway, Gateway.step] at h
  split at h
  · next t ht =>
      split at h
      · next server tool hphase =>
          exact ⟨t, ht, Or.inl ⟨server, tool, hphase⟩, (Option.some.inj h).symm⟩
      · next hphase => exact ⟨t, ht, Or.inr hphase, (Option.some.inj h).symm⟩
      · simp at h
  · simp at h

/-- Listing tools touches no task. -/
theorem step_load {server : Str} {tools : List Tool}
    (h : (gateway cfg).step st (.load server tools) = some st') :
    st' = ⟨st.shared.load server tools, st.tasks⟩ :=
  (Option.some.inj h).symm

/-- The clock of the rate limiter does not run back. -/
theorem step_limiterClock {now : ℚ} (h : (gateway cfg).step st (.limiterClock now) = some st') :
    ∃ l, st.shared.limiter = some l ∧ l.now ≤ now ∧
      st' = ⟨{ st.shared with limiter := some { l with now } }, st.tasks⟩ := by
  simp only [gateway, Gateway.step] at h
  split at h
  · next l hl =>
      split at h
      · next hnow => exact ⟨l, hl, hnow, (Option.some.inj h).symm⟩
      · simp at h
  · simp at h

/-- The clock of the breaker does not run back. -/
theorem step_breakerClock {now : ℚ} (h : (gateway cfg).step st (.breakerClock now) = some st') :
    ∃ b, st.shared.breaker = some b ∧ b.now ≤ now ∧
      st' = ⟨{ st.shared with breaker := some { b with now } }, st.tasks⟩ := by
  simp only [gateway, Gateway.step] at h
  split at h
  · next b hb =>
      split at h
      · next hnow => exact ⟨b, hb, hnow, (Option.some.inj h).symm⟩
      · simp at h
  · simp at h

/-- **The history of one task**: a task of the state after a step has just arrived, or it
is a task of the state before, unchanged or moved on by an action of its own. -/
theorem task_of_step {a : Action} {t' : Task} (h : (gateway cfg).step st a = some st')
    (ht' : st'.tasks[i]? = some t') :
    (∃ r, a = .arrive r ∧ i = st.tasks.length ∧
      t' = ⟨r, st.shared, none, (routeArrive cfg st.shared r).2.sent,
        (routeArrive cfg st.shared r).2.phase⟩) ∨
    ∃ t, st.tasks[i]? = some t ∧
      (t' = t ∨
      (∃ ok server tool, a = .reloaded i ok ∧ t.phase = .reloading server tool ∧
        t' = ⟨t.request, t.arrival, some (ok, st.shared),
          (routeReloaded cfg st.shared t.request server tool ok).2.sent,
          (routeReloaded cfg st.shared t.request server tool ok).2.phase⟩) ∨
      (∃ result d, a = .answered i result ∧ t.phase = .calling ∧ t.sent = some d ∧
        t' = { t with phase := (routeAnswered cfg st.shared d.server result).2.phase }) ∨
      (a = .abort i ∧ ((∃ server tool, t.phase = .reloading server tool) ∨ t.phase = .calling) ∧
        t' = { t with phase := .aborted })) := by
  cases a with
  | arrive r =>
      obtain rfl := step_arrive h
      rcases getElem?_concat_eq_some.mp ht' with ht | ⟨hi, rfl⟩
      · exact Or.inr ⟨t', ht, Or.inl rfl⟩
      · exact Or.inl ⟨r, rfl, hi, rfl⟩
  | reloaded j ok =>
      obtain ⟨t, server, tool, ht, hphase, rfl⟩ := step_reloaded h
      rcases (getElem?_set_eq_some (lt_length_of_getElem? ht)).mp ht' with ⟨rfl, rfl⟩ | ⟨-, ht'⟩
      · exact Or.inr ⟨t, ht, Or.inr (Or.inl ⟨ok, server, tool, rfl, hphase, rfl⟩)⟩
      · exact Or.inr ⟨t', ht', Or.inl rfl⟩
  | answered j result =>
      obtain ⟨t, d, ht, hphase, hsent, rfl⟩ := step_answered h
      rcases (getElem?_set_eq_some (lt_length_of_getElem? ht)).mp ht' with ⟨rfl, rfl⟩ | ⟨-, ht'⟩
      · exact Or.inr ⟨t, ht, Or.inr (Or.inr (Or.inl ⟨result, d, rfl, hphase, hsent, rfl⟩))⟩
      · exact Or.inr ⟨t', ht', Or.inl rfl⟩
  | abort j =>
      obtain ⟨t, ht, hphase, rfl⟩ := step_abort h
      rcases (getElem?_set_eq_some (lt_length_of_getElem? ht)).mp ht' with ⟨rfl, rfl⟩ | ⟨-, ht'⟩
      · exact Or.inr ⟨t, ht, Or.inr (Or.inr (Or.inr ⟨rfl, hphase, rfl⟩))⟩
      · exact Or.inr ⟨t', ht', Or.inl rfl⟩
  | load server tools =>
      obtain rfl := step_load h
      exact Or.inr ⟨t', ht', Or.inl rfl⟩
  | limiterClock now =>
      obtain ⟨l, -, -, rfl⟩ := step_limiterClock h
      exact Or.inr ⟨t', ht', Or.inl rfl⟩
  | breakerClock now =>
      obtain ⟨b, -, -, rfl⟩ := step_breakerClock h
      exact Or.inr ⟨t', ht', Or.inl rfl⟩

/-- A task keeps its request. -/
theorem request_of_step {a : Action} {k : ℕ} {t : Task}
    (hstep : (gateway cfg).step st a = some st') (ht : st.tasks[k]? = some t) :
    ∃ t', st'.tasks[k]? = some t' ∧ t'.request = t.request := by
  have hset : ∀ {i : ℕ} {t₀ t₁ : Task}, st.tasks[i]? = some t₀ → t₁.request = t₀.request →
      ∃ t', (st.tasks.set i t₁)[k]? = some t' ∧ t'.request = t.request := by
    intro i t₀ t₁ ht₀ hsame
    by_cases hki : k = i
    · subst hki
      obtain rfl := Option.some.inj (ht₀.symm.trans ht)
      exact ⟨t₁, by simp [lt_length_of_getElem? ht], hsame⟩
    · exact ⟨t, by rwa [List.getElem?_set_ne (Ne.symm hki)], rfl⟩
  cases a with
  | arrive r =>
      obtain rfl := step_arrive hstep
      exact ⟨t, getElem?_concat_eq_some.mpr (Or.inl ht), rfl⟩
  | reloaded i ok =>
      obtain ⟨t₀, server, tool, ht₀, -, rfl⟩ := step_reloaded hstep
      exact hset ht₀ rfl
  | answered i result =>
      obtain ⟨t₀, d, ht₀, -, -, rfl⟩ := step_answered hstep
      exact hset ht₀ rfl
  | abort i =>
      obtain ⟨t₀, ht₀, -, rfl⟩ := step_abort hstep
      exact hset ht₀ rfl
  | load server tools =>
      obtain rfl := step_load hstep
      exact ⟨t, ht, rfl⟩
  | limiterClock now =>
      obtain ⟨l, -, -, rfl⟩ := step_limiterClock hstep
      exact ⟨t, ht, rfl⟩
  | breakerClock now =>
      obtain ⟨b, -, -, rfl⟩ := step_breakerClock hstep
      exact ⟨t, ht, rfl⟩

end Steps

/-! ### A small gateway

One agent, one backend with one tool, and a policy that allows it: enough to run the
interleavings that tell the properties of the gateway apart. -/

/-- A policy that allows `dev-agent` the tool `create_ticket` of `ticket`. -/
def samplePolicy : Policy :=
  ⟨[(lit "dev-agent", some [(lit "ticket", some [.tool (lit "create_ticket")])])]⟩

/-- The settings of the small gateway. -/
def sampleSettings : Settings := ⟨⟨100, fun _ => true⟩, samplePolicy⟩

/-- A request of `dev-agent` for the one tool. -/
def sampleRequest : Request := ⟨lit "dev-agent", lit "ticket__create_ticket", []⟩

/-- The backend `ticket`, with its tools listed or not. -/
def sampleBackends (listed : Bool) : List (Str × Backend) :=
  [(lit "ticket", ⟨lit "ticket", if listed then some [⟨lit "create_ticket", []⟩] else none⟩)]

/-- The small gateway before any request. -/
def sampleStart (breaker : Option CircuitBreaker) (listed : Bool) : Gateway :=
  ⟨⟨none, breaker, sampleBackends listed⟩, []⟩

/-- A result of the tool. -/
def sampleResult : CallToolResult := ⟨false, [.text (lit "ok")]⟩

/-- The policy has the documented shape. -/
theorem samplePolicy_documented : samplePolicy.Documented := by
  intro agent server entry hentry
  by_cases hagent : lit "dev-agent" = agent
  · by_cases hserver : lit "ticket" = server
    · simp [samplePolicy, Policy.entries, dictGet, hagent, hserver] at hentry
      subst hentry
      trivial
    · simp [samplePolicy, Policy.entries, dictGet, hagent, hserver] at hentry
  · simp [samplePolicy, Policy.entries, dictGet, hagent] at hentry

end AgentOpsGateway
