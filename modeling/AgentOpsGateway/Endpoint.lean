import AgentOpsGateway.CallTool
import AgentOpsGateway.Encodings
import Mathlib.Logic.Function.Basic

/-!
# The Endpoint `/mcp`

Authentication stands twice on the way of a call. The endpoint authenticates every HTTP
request; where that fails it reads the body of a `POST`, lets a `tools/call` through to the
session manager and answers everything else with 401. What the manager passes on reaches
`call_tool`, which authenticates again and answers `AUTH_FAILED`.

The session manager stands outside: it passes a `tools/call` message, once, to `call_tool`
alone and together with the headers of its own HTTP request; name and arguments are what it
reads in the message. What `jwt.decode` answers may differ from one check to the next.

## Main results

* `unauthenticated_iff`: **an unauthenticated request is refused as it should be exactly
  where its body is not nested too deeply**, and it never interferes: without it, the rate
  limiter, the circuits, the requests to the backends and the results of the others are the
  same.
* `unauthenticated_fails`: a body that is nested too deeply is answered by an exception.
-/

namespace AgentOpsGateway

open Python Transition

/-! ### The body of a request -/

/-- A message of the ASGI channel `receive`: a part of the body, or `http.disconnect`. -/
inductive ReceiveMessage
  | request (body : Bytes) (moreBody : Bool)
  | disconnect

namespace ReceiveMessage

/-- `message.get("body", b"")`. -/
def body : ReceiveMessage → Bytes
  | .request body _ => body
  | .disconnect => []

/-- `message.get("more_body")`, which is falsy where it is missing. -/
def moreBody : ReceiveMessage → Bool
  | .request _ moreBody => moreBody
  | .disconnect => false

end ReceiveMessage

/-- The two variables of the loop of `_buffer_body`. -/
structure Buffer where
  messages : List ReceiveMessage := []
  body : Bytes := []

namespace Buffer

/-- One turn of the loop of `_buffer_body`. -/
def read (b : Buffer) (message : ReceiveMessage) : Buffer :=
  ⟨b.messages ++ [message], b.body ++ message.body⟩

/-- The loop has ended. -/
def ended (b : Buffer) : Bool := b.messages.any fun message => !message.moreBody

/-- The loop has ended with the last part of the body. -/
def whole (b : Buffer) : Bool :=
  match b.messages.getLast? with
  | some (.request _ false) => true
  | _ => false

end Buffer

/-- `_is_tools_call(body)`; only `ValueError` is caught. -/
def isToolsCall (py : Interpreter) (body : Bytes) : Except Raised Bool :=
  match loadsBytes (py.spareLevels + 1) body with
  | .error .valueError => .ok false
  | .error .recursionError => .error .recursionError
  | .ok (.obj message) =>
    match dictGet (lit "method") message with
    | some (.str method) => .ok (method = lit "tools/call")
    | _ => .ok false
  | .ok _ => .ok false

/-! ### The endpoint -/

/-- An HTTP request to `/mcp`. -/
structure HttpRequest where
  method : Str
  authorization : Option Str

/-- `JSONResponse(content, status_code)`. -/
structure JSONResponse where
  content : List (Str × Str)
  statusCode : ℕ
  deriving DecidableEq

/-- The answer to an unauthenticated request. -/
def unauthorized (reason : AuthReason) : JSONResponse :=
  ⟨[(lit "code", ErrorCode.authFailed.text), (lit "reason", reason.text)], 401⟩

/-- How far the endpoint has come with a request. -/
inductive HttpPhase
  /-- It is in `_buffer_body`, after authentication has failed. -/
  | buffering (reason : AuthReason)
  /-- It awaits `manager.handle_request`. -/
  | managed
  /-- The manager has passed the message on to `call_tool`. -/
  | passed
  | answered (response : JSONResponse)
  /-- An exception has escaped from it. -/
  | failed (e : Raised)
  deriving DecidableEq

/-- A request and what the endpoint has done with it. -/
structure HttpExchange where
  request : HttpRequest
  /-- What `authenticate` has answered to the endpoint. -/
  outer : Except AuthReason Str
  /-- What `authenticate` has answered to `call_tool`. -/
  inner : Option (Except AuthReason Str) := none
  /-- `manager.handle_request` was called. -/
  handled : Bool
  buffer : Buffer := {}
  phase : HttpPhase

/-- What `jwt.decode` answers. -/
abbrev JwtAnswer := Except JwtError (Option Str)

namespace HttpExchange

/-- `MCPEndpoint.__call__` up to its first `await`. -/
def arrive (r : HttpRequest) (jwt : JwtAnswer) : HttpExchange :=
  match authenticate (fun _ => jwt) r.authorization with
  | .ok agent => { request := r, outer := .ok agent, handled := true, phase := .managed }
  | .error reason =>
    { request := r, outer := .error reason, handled := false
      phase :=
        if r.method = lit "POST" then .buffering reason else .answered (unauthorized reason) }

/-- `MCPEndpoint.__call__` after the body is read: the message goes to the manager, or the
request is answered. -/
def judge (py : Interpreter) (reason : AuthReason) (e : HttpExchange) : HttpExchange :=
  match isToolsCall py e.buffer.body with
  | .error x => { e with phase := .failed x }
  | .ok true => { e with handled := true, phase := .managed }
  | .ok false => { e with phase := .answered (unauthorized reason) }

/-- The client's next message is read: by `_buffer_body`, or by the manager. -/
def receive (py : Interpreter) (e : HttpExchange) (message : ReceiveMessage) : HttpExchange :=
  let e := { e with buffer := e.buffer.read message }
  match e.phase with
  | .buffering reason => if message.moreBody then e else e.judge py reason
  | _ => e

/-- The body is still being read. -/
def reading (e : HttpExchange) : Bool :=
  match e.phase with
  | .buffering _ | .managed => !e.buffer.ended
  | _ => false

/-- A `POST` whose body is a JSON object with the method `tools/call`. -/
def isCall (py : Interpreter) (e : HttpExchange) : Bool :=
  e.request.method = lit "POST" &&
    match isToolsCall py e.buffer.body with
    | .ok b => b
    | .error _ => false

/-- The manager may pass the message on to `call_tool`: it has read the whole of it. -/
def passable (py : Interpreter) (e : HttpExchange) : Bool :=
  match e.phase with
  | .managed => e.buffer.whole && e.isCall py
  | _ => false

/-- `call_tool` authenticates the call of the exchange. -/
def pass (e : HttpExchange) (jwt : JwtAnswer) : HttpExchange :=
  { e with
    inner := some (authenticate (fun _ => jwt) e.request.authorization)
    phase := .passed }

end HttpExchange

/-- What the manager reads in a `tools/call` message, and the trace the call belongs to. -/
structure ToolsCall where
  name : Str
  arguments : Option Arguments
  traceId : Str

/-- The call of `call_tool`, with the header of the HTTP request. -/
def ToolsCall.call (message : ToolsCall) (r : HttpRequest) : Call :=
  ⟨r.authorization, message.name, message.arguments, message.traceId⟩

/-- The application behind its endpoint. An exchange is named by its connection. -/
structure Endpoint where
  application : App
  exchanges : ℕ → Option HttpExchange
  /-- The handler of the call that an exchange has become. -/
  handlerOf : ℕ → Option ℕ

/-- What can happen next. -/
inductive EndpointAction
  | request (id : ℕ) (r : HttpRequest) (jwt : JwtAnswer)
  | receive (id : ℕ) (message : ReceiveMessage)
  /-- The manager passes the message of a request on to `call_tool`. -/
  | pass (id : ℕ) (message : ToolsCall) (jwt : JwtAnswer)
  /-- The await of the `k`-th `route_call` ends. -/
  | wake (k : ℕ) (w : Wake)
  | ambient (a : Ambient)
  | clock (perfCounter : ℚ) (utcNow : Str)

namespace Endpoint

/-- The state with another exchange. -/
def put (st : Endpoint) (id : ℕ) (e : HttpExchange) : Endpoint :=
  { st with exchanges := Function.update st.exchanges id (some e) }

/-- The settings under which `jwt.decode` answers `jwt`. -/
def settings (cfg : AppSettings) (jwt : JwtAnswer) : AppSettings :=
  { cfg with decode := fun _ => jwt }

/-- Let the endpoint take one action, where it is possible. -/
def step (cfg : AppSettings) (st : Endpoint) : EndpointAction → Option Endpoint
  | .request id r jwt =>
    match st.exchanges id with
    | some _ => none
    | none => some (st.put id (.arrive r jwt))
  | .receive id message =>
    match st.exchanges id with
    | some e => if e.reading then some (st.put id (e.receive cfg.py message)) else none
    | none => none
  | .pass id message jwt =>
    match st.exchanges id with
    | some e =>
      if e.passable cfg.py then
        ((app (settings cfg jwt)).step st.application (.call (message.call e.request))).map
          fun application =>
            { application
              exchanges := Function.update st.exchanges id (some (e.pass jwt))
              handlerOf :=
                Function.update st.handlerOf id (some st.application.handlers.length) }
      else none
    | none => none
  | .wake k w =>
    match st.application.handlers.findIdx? fun h => h.task = some k with
    | some i =>
      ((app cfg).step st.application (.wake i w)).map fun application => { st with application }
    | none => none
  | .ambient a =>
    ((app cfg).step st.application (.ambient a)).map fun application => { st with application }
  | .clock perfCounter utcNow =>
    ((app cfg).step st.application (.clock perfCounter utcNow)).map fun application =>
      { st with application }

/-- The endpoint before the first request. -/
def start (g : Shared) (perfCounter : ℚ) (utcNow : Str) : Endpoint :=
  ⟨.start g perfCounter utcNow, fun _ => none, fun _ => none⟩

end Endpoint

/-- The runs of the endpoint. -/
def endpoint (cfg : AppSettings) : System Endpoint EndpointAction := ⟨Endpoint.step cfg⟩

/-! ### What each action does -/

section Steps

variable {cfg : AppSettings} {st st' : Endpoint} {id : ℕ}

/-- A request opens an exchange. -/
theorem step_request {r : HttpRequest} {jwt : JwtAnswer}
    (h : (endpoint cfg).step st (.request id r jwt) = some st') :
    st.exchanges id = none ∧ st' = st.put id (.arrive r jwt) := by
  simp only [endpoint, Endpoint.step] at h
  split at h
  · simp at h
  · next hnew => exact ⟨hnew, (Option.some.inj h).symm⟩

/-- A message is read where the body is not over. -/
theorem step_receive {message : ReceiveMessage}
    (h : (endpoint cfg).step st (.receive id message) = some st') :
    ∃ e, st.exchanges id = some e ∧ e.reading = true ∧
      st' = st.put id (e.receive cfg.py message) := by
  simp only [endpoint, Endpoint.step] at h
  split at h
  · next e he =>
      split at h
      · next hreading => exact ⟨e, he, hreading, (Option.some.inj h).symm⟩
      · simp at h
  · simp at h

/-- A message that is passed on is a call of the application. -/
theorem step_pass {message : ToolsCall} {jwt : JwtAnswer}
    (h : (endpoint cfg).step st (.pass id message jwt) = some st') :
    ∃ e, st.exchanges id = some e ∧ e.passable cfg.py = true ∧
      (app (Endpoint.settings cfg jwt)).step st.application (.call (message.call e.request)) =
        some st'.application ∧
      st'.exchanges = Function.update st.exchanges id (some (e.pass jwt)) ∧
      st'.handlerOf =
        Function.update st.handlerOf id (some st.application.handlers.length) := by
  simp only [endpoint, Endpoint.step] at h
  split at h
  · next e he =>
      split at h
      · next hpassable =>
          obtain ⟨application, happ, rfl⟩ := Option.map_eq_some_iff.mp h
          exact ⟨e, he, hpassable, happ, rfl, rfl⟩
      · simp at h
  · simp at h

/-- The other actions are actions of the application. -/
theorem step_other {a : EndpointAction} (h : (endpoint cfg).step st a = some st')
    (hother : (∃ k w, a = .wake k w) ∨ (∃ b, a = .ambient b) ∨ ∃ p u, a = .clock p u) :
    st'.exchanges = st.exchanges ∧ st'.handlerOf = st.handlerOf ∧
      ∃ b, (app cfg).step st.application b = some st'.application := by
  rcases hother with ⟨k, w, rfl⟩ | ⟨b, rfl⟩ | ⟨p, u, rfl⟩
  · simp only [endpoint, Endpoint.step] at h
    split at h
    · obtain ⟨application, happ, rfl⟩ := Option.map_eq_some_iff.mp h
      exact ⟨rfl, rfl, _, happ⟩
    · simp at h
  · obtain ⟨application, happ, rfl⟩ := Option.map_eq_some_iff.mp h
    exact ⟨rfl, rfl, _, happ⟩
  · obtain ⟨application, happ, rfl⟩ := Option.map_eq_some_iff.mp h
    exact ⟨rfl, rfl, _, happ⟩

end Steps

/-! ### What the endpoint decides -/

namespace HttpExchange

/-- The body as far as the client has sent it, whatever its parts. -/
def body (e : HttpExchange) : Bytes := e.buffer.messages.flatMap ReceiveMessage.body

/-- The request is a `POST` whose body is a JSON object with the method `tools/call`. -/
def IsCall (py : Interpreter) (e : HttpExchange) : Prop :=
  e.request.method = lit "POST" ∧ ∃ message,
    loadsBytes (py.spareLevels + 1) e.body = .ok (.obj message) ∧
    dictGet (lit "method") message = some (.str (lit "tools/call"))

/-- The request is a `POST` whose body is nested too deeply to be read. -/
def TooDeep (py : Interpreter) (e : HttpExchange) : Prop :=
  e.request.method = lit "POST" ∧
    loadsBytes (py.spareLevels + 1) e.body = .error .recursionError

/-- Both checks of the header have failed, as far as they were made. -/
def Unauthenticated (e : HttpExchange) : Prop :=
  (∃ reason, e.outer = .error reason) ∧ ∀ answer ∈ e.inner, ∃ reason, answer = .error reason

/-- The endpoint has done what it does with the request, up to the result of a call. -/
def Ended (e : HttpExchange) : Prop :=
  match e.phase with
  | .buffering _ | .managed => False
  | .passed | .answered _ | .failed _ => True

/-- What the phase of an exchange says about it. -/
def PhaseSound (py : Interpreter) (e : HttpExchange) : Prop :=
  match e.phase with
  | .buffering reason => e.outer = .error reason ∧ e.inner = none ∧ e.handled = false ∧
      e.request.method = lit "POST"
  | .managed => e.inner = none ∧ e.handled = true ∧
      ((∃ agent, e.outer = .ok agent) ∨ e.IsCall py ∧ e.buffer.ended = true)
  | .passed => e.inner.isSome ∧ e.handled = true ∧ e.IsCall py
  | .answered response => e.inner = none ∧ e.handled = false ∧ ¬e.IsCall py ∧ ¬e.TooDeep py ∧
      ∃ reason, e.outer = .error reason ∧ response = unauthorized reason
  | .failed _ => e.inner = none ∧ e.handled = false ∧ e.TooDeep py

/-- What holds of every exchange. -/
structure Sound (py : Interpreter) (e : HttpExchange) : Prop where
  body : e.buffer.body = e.body
  phase : e.PhaseSound py

section Decisions

variable {py : Interpreter} {e : HttpExchange} {reason : AuthReason}

/-- A buffer that has read one message more. -/
theorem body_read (e : HttpExchange) (message : ReceiveMessage) :
    body { e with buffer := e.buffer.read message } = e.body ++ message.body := by
  simp [body, Buffer.read]

/-- The verdict on a body that was read as bytes. -/
theorem isToolsCall_cases (py : Interpreter) (b : Bytes) :
    (isToolsCall py b = .ok true ∧ ∃ message,
        loadsBytes (py.spareLevels + 1) b = .ok (.obj message) ∧
        dictGet (lit "method") message = some (.str (lit "tools/call"))) ∨
      (isToolsCall py b = .ok false ∧ (∀ message,
        loadsBytes (py.spareLevels + 1) b = .ok (.obj message) →
        dictGet (lit "method") message ≠ some (.str (lit "tools/call"))) ∧
        loadsBytes (py.spareLevels + 1) b ≠ .error .recursionError) ∨
      isToolsCall py b = .error .recursionError ∧
        loadsBytes (py.spareLevels + 1) b = .error .recursionError := by
  simp only [isToolsCall]
  cases hload : loadsBytes (py.spareLevels + 1) b with
  | error x => cases x <;> simp
  | ok value =>
      cases value with
      | obj message =>
          cases hmethod : dictGet (lit "method") message with
          | none => simp [hmethod]
          | some method =>
              cases method with
              | str method => by_cases hcall : method = lit "tools/call" <;> simp [hmethod, hcall]
              | _ => simp [hmethod]
      | _ => simp

theorem isCall_iff (hbody : e.buffer.body = e.body) : e.isCall py = true ↔ e.IsCall py := by
  simp only [isCall, IsCall]
  rw [hbody, Bool.and_eq_true, decide_eq_true_eq]
  refine and_congr_right fun _ => ?_
  rcases isToolsCall_cases py e.body with ⟨hverdict, h⟩ | ⟨hverdict, h, -⟩ | ⟨hverdict, h⟩
  · simpa [hverdict] using h
  · simpa [hverdict] using h
  · simp [hverdict, h]

/-- A request is sound on arrival. -/
theorem sound_arrive (r : HttpRequest) (jwt : JwtAnswer) : (arrive r jwt).Sound py := by
  simp only [arrive]
  split
  · next agent hauth => exact ⟨rfl, rfl, rfl, Or.inl ⟨agent, rfl⟩⟩
  · next reason hauth =>
      refine ⟨rfl, ?_⟩
      by_cases hpost : r.method = lit "POST"
      · simp [PhaseSound, hpost]
      · simp [PhaseSound, hpost, IsCall, TooDeep]

/-- The verdict on a body that was read keeps the exchange sound. -/
theorem sound_judge (hbody : e.buffer.body = e.body) (houter : e.outer = .error reason)
    (hinner : e.inner = none) (hhandled : e.handled = false)
    (hpost : e.request.method = lit "POST") (hended : e.buffer.ended = true) :
    (e.judge py reason).Sound py := by
  simp only [judge]
  rw [hbody]
  rcases isToolsCall_cases py e.body with ⟨hverdict, h⟩ | ⟨hverdict, hnot, hread⟩ | ⟨hverdict, h⟩
  · rw [hverdict]
    exact ⟨hbody, hinner, rfl, Or.inr ⟨⟨hpost, h⟩, hended⟩⟩
  · rw [hverdict]
    refine ⟨hbody, hinner, hhandled, ?_, ?_, reason, houter, rfl⟩
    · rintro ⟨-, message, hload, hmethod⟩
      exact hnot message hload hmethod
    · exact fun hdeep => hread hdeep.2
  · rw [hverdict]
    exact ⟨hbody, hinner, hhandled, hpost, h⟩

/-- A message that is read keeps an exchange sound. -/
theorem Sound.receive (he : e.Sound py) (hreading : e.reading = true) (message : ReceiveMessage) :
    (e.receive py message).Sound py := by
  have hbody : (e.buffer.read message).body =
      HttpExchange.body { e with buffer := e.buffer.read message } := by
    rw [body_read, ← he.body]
    rfl
  have hphase := he.phase
  simp only [reading] at hreading
  simp only [PhaseSound] at hphase
  unfold HttpExchange.receive
  dsimp only
  split at hreading
  · next reason hbuffering =>
      simp only [hbuffering] at hphase ⊢
      obtain ⟨houter, hinner, hhandled, hpost⟩ := hphase
      cases hmore : message.moreBody with
      | true =>
          exact ⟨hbody, houter, hinner, hhandled, hpost⟩
      | false =>
          refine sound_judge hbody houter hinner hhandled hpost ?_
          simp [Buffer.ended, Buffer.read, hmore]
  · next hmanaged =>
      simp only [hmanaged] at hphase ⊢
      obtain ⟨hinner, hhandled, houter | ⟨-, hended⟩⟩ := hphase
      · exact ⟨hbody, hinner, hhandled, Or.inl houter⟩
      · simp [hended] at hreading
  · simp at hreading

/-- Reading makes no check of the header. -/
theorem receive_checks (py : Interpreter) (e : HttpExchange) (message : ReceiveMessage) :
    (e.receive py message).outer = e.outer ∧ (e.receive py message).inner = e.inner := by
  unfold receive judge
  dsimp only
  split
  · split
    · exact ⟨rfl, rfl⟩
    · split <;> exact ⟨rfl, rfl⟩
  · exact ⟨rfl, rfl⟩

/-- What the manager may pass on is a `tools/call` that has not been passed on yet. -/
theorem Sound.of_passable (he : e.Sound py) (hpassable : e.passable py = true) :
    e.inner = none ∧ e.handled = true ∧ e.IsCall py := by
  have hphase := he.phase
  simp only [passable] at hpassable
  simp only [PhaseSound] at hphase
  split at hpassable
  · next hmanaged =>
      simp only [hmanaged] at hphase
      exact ⟨hphase.1, hphase.2.1,
        (isCall_iff he.body).mp (Bool.and_eq_true_iff.mp hpassable).2⟩
  · simp at hpassable

/-- A message that is passed on keeps an exchange sound. -/
theorem Sound.pass (he : e.Sound py) (hpassable : e.passable py = true) (jwt : JwtAnswer) :
    (e.pass jwt).Sound py := by
  obtain ⟨-, hhandled, hcall⟩ := he.of_passable hpassable
  exact ⟨he.body, rfl, hhandled, hcall⟩

end Decisions

end HttpExchange

/-! ### How a request is answered -/

/-- The handler has refused its call as `anonymous`, before any routing. -/
def Handler.Refused (h : Handler) (reason : AuthReason) : Prop :=
  h.agent = lit "anonymous" ∧ h.task = none ∧
    h.outcome = some (.returned (errorResult .authFailed [(lit "reason", reason.text)]) .authFailed)

/-- The request is refused as it should be: a `tools/call` by a result `AUTH_FAILED`, with
one audit line where it can be written, and everything else by 401, without the manager. -/
def Endpoint.Refuses (cfg : AppSettings) (st : Endpoint) (id : ℕ) (e : HttpExchange) : Prop :=
  (e.IsCall cfg.py ∧ e.phase = .passed ∧ ∃ i h reason, st.handlerOf id = some i ∧
      st.application.handlers[i]? = some h ∧ e.inner = some (.error reason) ∧ h.Refused reason ∧
      (cfg.writable = true → st.application.Traced i h .authFailed)) ∨
    ¬e.IsCall cfg.py ∧ e.handled = false ∧ ∃ reason, e.phase = .answered (unauthorized reason)

/-- What holds in every state of the endpoint. -/
structure Endpoint.Sound (cfg : AppSettings) (st : Endpoint) : Prop where
  exchanges : ∀ id e, st.exchanges id = some e → e.Sound cfg.py
  refused : ∀ id e reason, st.exchanges id = some e → e.inner = some (.error reason) →
    ∃ i h, st.handlerOf id = some i ∧ st.application.handlers[i]? = some h ∧ h.Refused reason
  trail : cfg.writable = true → st.application.Trail

/-- The entries of a table in which one has been replaced. -/
theorem update_eq_some {α : Type*} {f : ℕ → Option α} {i j : ℕ} {x y : α} :
    Function.update f i (some x) j = some y ↔ j = i ∧ x = y ∨ j ≠ i ∧ f j = some y := by
  by_cases hj : j = i <;> simp [hj]

section Answers

variable {cfg : AppSettings} {st st' : Endpoint} {a : EndpointAction} {id : ℕ} {e : HttpExchange}

/-- An exchange that is opened or goes on without a call keeps the endpoint sound. -/
theorem Endpoint.Sound.put (hsound : st.Sound cfg) (he : e.Sound cfg.py)
    (hinner : ∀ reason, e.inner = some (.error reason) → ∃ e₀, st.exchanges id = some e₀ ∧
      e₀.inner = some (.error reason)) : (st.put id e).Sound cfg := by
  refine ⟨fun id' e' he' => ?_, fun id' e' reason he' hreason => ?_, hsound.trail⟩
  · rcases update_eq_some.mp he' with ⟨rfl, rfl⟩ | ⟨-, he'⟩
    · exact he
    · exact hsound.exchanges id' e' he'
  · rcases update_eq_some.mp he' with ⟨rfl, rfl⟩ | ⟨-, he'⟩
    · obtain ⟨e₀, he₀, hreason⟩ := hinner reason hreason
      exact hsound.refused id' e₀ reason he₀ hreason
    · exact hsound.refused id' e' reason he' hreason

/-- A step of the application keeps the handlers of refused calls and the trail. -/
theorem Endpoint.Sound.application_step (hsound : st.Sound cfg) (cfg' : AppSettings)
    (hcfg : cfg'.writable = cfg.writable) {b : AppAction}
    (happ : (app cfg').step st.application b = some st'.application) :
    (∀ (i : ℕ) (h : Handler) (reason : AuthReason), st.application.handlers[i]? = some h →
      h.Refused reason → st'.application.handlers[i]? = some h) ∧
      (cfg.writable = true → st'.application.Trail) :=
  ⟨fun _ _ _ hi hrefused => ended_stays hi hrefused.2.2 happ,
    fun hwritable => (hsound.trail hwritable).step (hcfg.trans hwritable) happ⟩

/-- **Every step keeps the endpoint sound.** -/
theorem Endpoint.Sound.step (hsound : st.Sound cfg)
    (hstep : (endpoint cfg).step st a = some st') : st'.Sound cfg := by
  have hother : ∀ {b : AppAction}, (app cfg).step st.application b = some st'.application →
      st'.exchanges = st.exchanges → st'.handlerOf = st.handlerOf → st'.Sound cfg := by
    intro b happ hexchanges hhandler
    obtain ⟨hstays, htrail⟩ := hsound.application_step cfg rfl happ
    refine ⟨fun id e he => hsound.exchanges id e (hexchanges ▸ he),
      fun id e reason he hreason => ?_, htrail⟩
    obtain ⟨i, h, hi, hh, hrefused⟩ := hsound.refused id e reason (hexchanges ▸ he) hreason
    exact ⟨i, h, hhandler ▸ hi, hstays i h reason hh hrefused, hrefused⟩
  cases a with
  | request id r jwt =>
      obtain ⟨-, rfl⟩ := step_request hstep
      refine hsound.put (HttpExchange.sound_arrive r jwt) fun reason hreason => ?_
      simp only [HttpExchange.arrive] at hreason
      split at hreason <;> simp at hreason
  | receive id message =>
      obtain ⟨e, he, hreading, rfl⟩ := step_receive hstep
      have hkept := (hsound.exchanges id e he).receive hreading message
      refine hsound.put hkept fun reason hreason => ?_
      exact ⟨e, he, (HttpExchange.receive_checks cfg.py e message).2 ▸ hreason⟩
  | pass id message jwt =>
      obtain ⟨e, he, hpassable, happ, hexchanges, hhandler⟩ := step_pass hstep
      obtain ⟨hstays, htrail⟩ := hsound.application_step (Endpoint.settings cfg jwt) rfl happ
      refine ⟨fun id' e' he' => ?_, fun id' e' reason he' hreason => ?_, htrail⟩
      · rcases update_eq_some.mp (hexchanges ▸ he') with ⟨rfl, rfl⟩ | ⟨-, he'⟩
        · exact (hsound.exchanges id' e he).pass hpassable jwt
        · exact hsound.exchanges id' e' he'
      · rw [hhandler]
        rcases update_eq_some.mp (hexchanges ▸ he') with ⟨rfl, rfl⟩ | ⟨hne, he'⟩
        · have hauth : authenticate (Endpoint.settings cfg jwt).decode
              (message.call e.request).authorization = .error reason := Option.some.inj hreason
          obtain ⟨h, -, hagent, htask, houtcome, happ'⟩ := app_step_refused hauth happ
          refine ⟨_, h, Function.update_self .., ?_, hagent, htask, houtcome⟩
          rw [happ', settle_handlers, List.getElem?_concat_length]
        · rw [Function.update_of_ne hne]
          obtain ⟨i, h, hi, hh, hrefused⟩ := hsound.refused id' e' reason he' hreason
          exact ⟨i, h, hi, hstays i h reason hh hrefused, hrefused⟩
  | wake k w =>
      obtain ⟨hexchanges, hhandler, b, happ⟩ := step_other hstep (Or.inl ⟨k, w, rfl⟩)
      exact hother happ hexchanges hhandler
  | ambient b =>
      obtain ⟨hexchanges, hhandler, b', happ⟩ := step_other hstep (Or.inr (Or.inl ⟨b, rfl⟩))
      exact hother happ hexchanges hhandler
  | clock p u =>
      obtain ⟨hexchanges, hhandler, b, happ⟩ := step_other hstep (Or.inr (Or.inr ⟨p, u, rfl⟩))
      exact hother happ hexchanges hhandler

/-- The endpoint is sound in every run. -/
theorem sound_of_run {g : Shared} {perfCounter : ℚ} {utcNow : Str} {as : List EndpointAction}
    (hrun : (endpoint cfg).exec (.start g perfCounter utcNow) as = some st) : st.Sound cfg := by
  refine System.invariant' (I := Endpoint.Sound cfg) (fun _ _ _ hI hstep => hI.step hstep) ?_ hrun
  refine ⟨by simp [Endpoint.start], by simp [Endpoint.start], fun _ => ⟨?_, fun i _ => ⟨rfl, rfl⟩⟩⟩
  simp [Endpoint.start, App.start]

/-- **An unauthenticated request is refused as it should be** exactly where its body can be
read. -/
theorem refuses_iff (hsound : st.Sound cfg) (he : st.exchanges id = some e)
    (hauth : e.Unauthenticated) (hended : e.Ended) :
    st.Refuses cfg id e ↔ ¬e.TooDeep cfg.py := by
  have hphase := (hsound.exchanges id e he).phase
  simp only [HttpExchange.PhaseSound] at hphase
  simp only [HttpExchange.Ended] at hended
  simp only [Endpoint.Refuses]
  split at hphase
  · next hp => simp [hp] at hended
  · next hp => simp [hp] at hended
  · next hp =>
      obtain ⟨hinner, -, hcall⟩ := hphase
      obtain ⟨answer, hanswer⟩ := Option.isSome_iff_exists.mp hinner
      obtain ⟨reason, rfl⟩ := hauth.2 answer hanswer
      obtain ⟨i, h, hi, hh, hrefused⟩ := hsound.refused id e reason he hanswer
      refine iff_of_true (Or.inl ⟨hcall, hp, i, h, reason, hi, hh, hanswer, hrefused,
        fun hwritable => ?_⟩) ?_
      · exact (hsound.trail hwritable).traced i h _ hh ⟨_, hrefused.2.2⟩
      · rintro ⟨-, hdeep⟩
        obtain ⟨-, message, hload, -⟩ := hcall
        simp [hload] at hdeep
  · next response hp =>
      obtain ⟨-, hhandled, hcall, hdeep, reason, -, rfl⟩ := hphase
      exact iff_of_true (Or.inr ⟨hcall, hhandled, reason, hp⟩) hdeep
  · next x hp =>
      refine iff_of_false ?_ (not_not.mpr hphase.2.2)
      simp [hp]

/-- Every message that the manager may pass on can be passed on. -/
theorem exists_pass (he : st.exchanges id = some e) (hpassable : e.passable cfg.py = true)
    (message : ToolsCall) (jwt : JwtAnswer) :
    ∃ st', (endpoint cfg).step st (.pass id message jwt) = some st' := by
  obtain ⟨application, happ⟩ := exists_app_call (Endpoint.settings cfg jwt) st.application
    (message.call e.request)
  simp [endpoint, Endpoint.step, he, hpassable, happ]

end Answers

/-! ### Requests that leave no trace in the routing -/

/-- The handlers of the calls that were accepted, in the order of their `route_call`. -/
def App.accepted (st : App) : List Handler := st.handlers.filter fun h => h.task.isSome

/-- Two applications that differ in refused calls and their trail only. -/
structure App.Alike (st t : App) : Prop where
  routes : t.routes = st.routes
  accepted : t.accepted = st.accepted
  perfCounter : t.perfCounter = st.perfCounter
  utcNow : t.utcNow = st.utcNow

namespace App

section Alike

variable {cfg : AppSettings} {st st' t : App}

/-- Settling a handler touches its trail only. -/
theorem settle_parts (w : Bool) (st : App) (i : ℕ) (h : Handler) :
    (st.settle w i h).routes = st.routes ∧ (st.settle w i h).accepted = st.accepted ∧
      (st.settle w i h).perfCounter = st.perfCounter ∧ (st.settle w i h).utcNow = st.utcNow := by
  simp only [App.settle]
  split <;> exact ⟨rfl, rfl, rfl, rfl⟩

theorem Alike.settle_left (halike : st.Alike t) (w : Bool) (i : ℕ) (h : Handler) :
    (st.settle w i h).Alike t := by
  obtain ⟨h₁, h₂, h₃, h₄⟩ := settle_parts w st i h
  exact ⟨h₁ ▸ halike.routes, h₂ ▸ halike.accepted, h₃ ▸ halike.perfCounter, h₄ ▸ halike.utcNow⟩

theorem Alike.settle_right (halike : st.Alike t) (w : Bool) (i : ℕ) (h : Handler) :
    st.Alike (t.settle w i h) := by
  obtain ⟨h₁, h₂, h₃, h₄⟩ := settle_parts w t i h
  exact ⟨h₁ ▸ halike.routes, h₂ ▸ halike.accepted, h₃ ▸ halike.perfCounter, h₄ ▸ halike.utcNow⟩

/-- A refused call is not seen by the routing. -/
theorem alike_refused {c : Call} {reason : AuthReason}
    (hauth : authenticate cfg.decode c.authorization = .error reason)
    (hstep : (app cfg).step st (.call c) = some st') : st.Alike st' := by
  obtain ⟨h, -, -, htask, -, rfl⟩ := app_step_refused hauth hstep
  have hadded : st.Alike { st with handlers := st.handlers ++ [h] } :=
    ⟨rfl, by simp [App.accepted, htask], rfl, rfl⟩
  exact hadded.settle_right ..

theorem Alike.symm (halike : st.Alike t) : t.Alike st :=
  ⟨halike.routes.symm, halike.accepted.symm, halike.perfCounter.symm, halike.utcNow.symm⟩

theorem Alike.trans {u : App} (halike : st.Alike t) (halike' : t.Alike u) : st.Alike u :=
  ⟨halike'.routes.trans halike.routes, halike'.accepted.trans halike.accepted,
    halike'.perfCounter.trans halike.perfCounter, halike'.utcNow.trans halike.utcNow⟩

/-- A call goes the same way in both. -/
theorem Alike.call (halike : st.Alike t) {c : Call}
    (hstep : (app cfg).step st (.call c) = some st') :
    ∃ t', (app cfg).step t (.call c) = some t' ∧ st'.Alike t' := by
  obtain ⟨t', ht'⟩ := exists_app_call cfg t c
  refine ⟨t', ht', ?_⟩
  cases hauth : authenticate cfg.decode c.authorization with
  | error reason =>
      exact ((alike_refused hauth hstep).symm.trans halike).trans (alike_refused hauth ht')
  | ok agent =>
      simp only [app, App.step, hauth, halike.routes, halike.perfCounter] at hstep ht'
      split at hstep
      · next gw hgw =>
          obtain rfl := Option.some.inj hstep
          simp only [hgw, Option.some.injEq] at ht'
          obtain rfl := ht'
          refine Alike.settle_left (Alike.settle_right ?_ ..) ..
          exact ⟨rfl, by simpa [App.accepted] using halike.accepted, rfl, halike.utcNow⟩
      · simp at hstep

/-- A wake goes the same way in both. -/
theorem Alike.wake (halike : st.Alike t) {i k : ℕ} {w : Wake}
    (hi : st.handlers.findIdx? (fun h => h.task = some k) = some i)
    (hstep : (app cfg).step st (.wake i w) = some st') :
    ∃ j t', t.handlers.findIdx? (fun h => h.task = some k) = some j ∧
      (app cfg).step t (.wake j w) = some t' ∧ st'.Alike t' := by
  obtain ⟨h₀, k', gw, hh₀, houtcome, htask, hgw, rfl⟩ := app_step_wake hstep
  have hqp : ∀ h : Handler, decide (h.task = some k) = true → h.task.isSome = true := fun h hk => by
    simp [of_decide_eq_true hk]
  have hmoved : ({ h₀ with outcome := gw.outcome k' } : Handler).task.isSome = true := by
    simp [htask]
  obtain ⟨l, hl, hget, hset⟩ := filter_set_findIdx? hqp hmoved hi
  -- The task is found among the accepted handlers, so also among those of `t`.
  have haccepted : t.handlers.filter (fun h => h.task.isSome) =
      st.handlers.filter fun h => h.task.isSome := halike.accepted
  have hfound : (t.handlers.findIdx? fun h => h.task = some k).isSome = true := by
    have hany : ((t.handlers.filter fun h => h.task.isSome).findIdx?
        fun h => h.task = some k).isSome = true := by simp [haccepted, hl]
    rw [List.findIdx?_isSome, List.any_eq_true] at hany ⊢
    obtain ⟨h, hmem, hk⟩ := hany
    exact ⟨h, List.mem_of_mem_filter hmem, hk⟩
  obtain ⟨j, hj⟩ := Option.isSome_iff_exists.mp hfound
  obtain ⟨l', hl', hget', hset'⟩ := filter_set_findIdx? hqp hmoved hj
  rw [haccepted] at hl' hget' hset'
  obtain rfl := Option.some.inj (hl.symm.trans hl')
  have htj : t.handlers[j]? = some h₀ := hget'.symm.trans (hget.trans hh₀)
  refine ⟨j, _, hj, ?_, Alike.settle_left (Alike.settle_right (t := { t with
    routes := gw, handlers := t.handlers.set j { h₀ with outcome := gw.outcome k' } }) ?_
      cfg.writable j { h₀ with outcome := gw.outcome k' }) ..⟩
  · simp only [app, App.step, htj, houtcome, htask, halike.routes, hgw]
  · exact ⟨rfl, hset'.trans hset.symm, halike.perfCounter, halike.utcNow⟩

/-- What happens beside the tasks goes the same way in both. -/
theorem Alike.ambient (halike : st.Alike t) {a : Ambient}
    (hstep : (app cfg).step st (.ambient a) = some st') :
    ∃ t', (app cfg).step t (.ambient a) = some t' ∧ st'.Alike t' := by
  simp only [app, App.step, halike.routes] at hstep ⊢
  split at hstep
  · obtain rfl := Option.some.inj hstep
    exact ⟨_, rfl, rfl, halike.accepted, halike.perfCounter, halike.utcNow⟩
  · simp at hstep

/-- The clocks go the same way in both. -/
theorem Alike.clock (halike : st.Alike t) {perfCounter : ℚ} {utcNow : Str}
    (hstep : (app cfg).step st (.clock perfCounter utcNow) = some st') :
    ∃ t', (app cfg).step t (.clock perfCounter utcNow) = some t' ∧ st'.Alike t' := by
  simp only [app, App.step, halike.perfCounter] at hstep ⊢
  split at hstep
  · next hle =>
      obtain rfl := Option.some.inj hstep
      exact ⟨_, if_pos hle, halike.routes, halike.accepted, rfl, rfl⟩
  · simp at hstep

end Alike

end App

/-- The exchange that an action belongs to. -/
def EndpointAction.exchange : EndpointAction → Option ℕ
  | .request id _ _ | .receive id _ | .pass id _ _ => some id
  | .wake _ _ | .ambient _ | .clock _ _ => none

/-- The action belongs to none of the exchanges. -/
def EndpointAction.apartFrom (ids : ℕ → Bool) (a : EndpointAction) : Bool :=
  a.exchange.all fun id => !ids id

/-- Two states that differ in the given exchanges and their traces only. -/
structure Endpoint.Agrees (ids : ℕ → Bool) (st t : Endpoint) : Prop where
  exchanges : ∀ id, ids id = false → t.exchanges id = st.exchanges id
  application : st.application.Alike t.application

/-- The given exchanges are unauthenticated, as far as they have come. -/
def Endpoint.Unauthenticated (ids : ℕ → Bool) (st : Endpoint) : Prop :=
  ∀ id e, ids id = true → st.exchanges id = some e → e.Unauthenticated

section Apart

variable (ids : ℕ → Bool) (id : ℕ)

@[simp] theorem apartFrom_request (r : HttpRequest) (jwt : JwtAnswer) :
    (EndpointAction.request id r jwt).apartFrom ids = !ids id := rfl

@[simp] theorem apartFrom_receive (message : ReceiveMessage) :
    (EndpointAction.receive id message).apartFrom ids = !ids id := rfl

@[simp] theorem apartFrom_pass (message : ToolsCall) (jwt : JwtAnswer) :
    (EndpointAction.pass id message jwt).apartFrom ids = !ids id := rfl

@[simp] theorem apartFrom_wake (k : ℕ) (w : Wake) :
    (EndpointAction.wake k w).apartFrom ids = true := rfl

@[simp] theorem apartFrom_ambient (a : Ambient) :
    (EndpointAction.ambient a).apartFrom ids = true := rfl

@[simp] theorem apartFrom_clock (perfCounter : ℚ) (utcNow : Str) :
    (EndpointAction.clock perfCounter utcNow).apartFrom ids = true := rfl

end Apart

section Erasure

variable {cfg : AppSettings} {ids : ℕ → Bool} {st st' t : Endpoint} {a : EndpointAction}

/-- An exchange goes on with the checks it has made. -/
theorem exchange_persists {id : ℕ} {e : HttpExchange} (hsound : st.Sound cfg)
    (he : st.exchanges id = some e) (hstep : (endpoint cfg).step st a = some st') :
    ∃ e', st'.exchanges id = some e' ∧ e'.outer = e.outer ∧
      ∀ answer ∈ e.inner, e'.inner = some answer := by
  have hsame : st'.exchanges = st.exchanges → ∃ e', st'.exchanges id = some e' ∧
      e'.outer = e.outer ∧ ∀ answer ∈ e.inner, e'.inner = some answer := fun h =>
    ⟨e, h ▸ he, rfl, fun _ h => h⟩
  cases a with
  | request id' r jwt =>
      obtain ⟨hnew, rfl⟩ := step_request hstep
      have hne : id ≠ id' := by
        rintro rfl
        simp [hnew] at he
      exact ⟨e, update_eq_some.mpr (Or.inr ⟨hne, he⟩), rfl, fun _ h => h⟩
  | receive id' message =>
      obtain ⟨e₀, he₀, -, rfl⟩ := step_receive hstep
      by_cases hid : id = id'
      · subst hid
        obtain rfl := Option.some.inj (he.symm.trans he₀)
        obtain ⟨houter, hinner⟩ := HttpExchange.receive_checks cfg.py e message
        exact ⟨_, update_eq_some.mpr (Or.inl ⟨rfl, rfl⟩), houter, fun _ h => hinner.trans h⟩
      · exact ⟨e, update_eq_some.mpr (Or.inr ⟨hid, he⟩), rfl, fun _ h => h⟩
  | pass id' message jwt =>
      obtain ⟨e₀, he₀, hpassable, -, hexchanges, -⟩ := step_pass hstep
      rw [hexchanges]
      by_cases hid : id = id'
      · subst hid
        obtain rfl := Option.some.inj (he.symm.trans he₀)
        have hinner := ((hsound.exchanges id e he).of_passable hpassable).1
        exact ⟨_, update_eq_some.mpr (Or.inl ⟨rfl, rfl⟩), rfl, by simp [hinner]⟩
      · exact ⟨e, update_eq_some.mpr (Or.inr ⟨hid, he⟩), rfl, fun _ h => h⟩
  | wake k w => exact hsame (step_other hstep (Or.inl ⟨k, w, rfl⟩)).1
  | ambient b => exact hsame (step_other hstep (Or.inr (Or.inl ⟨b, rfl⟩))).1
  | clock p u => exact hsame (step_other hstep (Or.inr (Or.inr ⟨p, u, rfl⟩))).1

/-- The action passes none of the given exchanges on to a `call_tool` that accepts it. -/
def PassesRefused (ids : ℕ → Bool) (st : Endpoint) (a : EndpointAction) : Prop :=
  ∀ id message jwt e, a = .pass id message jwt → ids id = true → st.exchanges id = some e →
    ∃ reason, authenticate (fun _ => jwt) e.request.authorization = .error reason

/-- Exchanges that are unauthenticated after a step were so before it. -/
theorem unauthenticated_back (hsound : st.Sound cfg)
    (hstep : (endpoint cfg).step st a = some st') (hids : st'.Unauthenticated ids) :
    st.Unauthenticated ids ∧ PassesRefused ids st a := by
  constructor
  · intro id e hid he
    obtain ⟨e', he', houter, hinner⟩ := exchange_persists hsound he hstep
    obtain ⟨hfailed, hanswers⟩ := hids id e' hid he'
    exact ⟨houter ▸ hfailed, fun answer h => hanswers answer (hinner answer h)⟩
  · rintro id message jwt e rfl hid he
    obtain ⟨e₀, he₀, -, -, hexchanges, -⟩ := step_pass hstep
    obtain rfl := Option.some.inj (he.symm.trans he₀)
    have he' : st'.exchanges id = some (e.pass jwt) := by simp [hexchanges]
    exact (hids id _ hid he').2 _ rfl

/-- A step of another exchange, or of the application, goes the same way in both. -/
theorem agrees_visible (hagrees : st.Agrees ids t) (ha : a.apartFrom ids = true)
    (hstep : (endpoint cfg).step st a = some st') :
    ∃ t', (endpoint cfg).step t a = some t' ∧ st'.Agrees ids t' := by
  obtain ⟨hexchanges, halike⟩ := hagrees
  cases a with
  | request id r jwt =>
      have hid : ids id = false := by simpa using ha
      obtain ⟨hnew, rfl⟩ := step_request hstep
      refine ⟨t.put id (.arrive r jwt), ?_, fun id' hid' => ?_, halike⟩
      · simp [endpoint, Endpoint.step, hexchanges id hid, hnew]
      · simp only [Endpoint.put, Function.update_apply, hexchanges id' hid']
  | receive id message =>
      have hid : ids id = false := by simpa using ha
      obtain ⟨e, he, hreading, rfl⟩ := step_receive hstep
      refine ⟨t.put id (e.receive cfg.py message), ?_, fun id' hid' => ?_, halike⟩
      · simp [endpoint, Endpoint.step, hexchanges id hid, he, hreading]
      · simp only [Endpoint.put, Function.update_apply, hexchanges id' hid']
  | pass id message jwt =>
      have hid : ids id = false := by simpa using ha
      obtain ⟨e, he, hpassable, happ, hpassed, -⟩ := step_pass hstep
      obtain ⟨s, hs, halike'⟩ := halike.call happ
      refine ⟨⟨s, Function.update t.exchanges id (some (e.pass jwt)),
        Function.update t.handlerOf id (some t.application.handlers.length)⟩, ?_,
        fun id' hid' => ?_, halike'⟩
      · simp [endpoint, Endpoint.step, hexchanges id hid, he, hpassable, hs]
      · simp only [hpassed, Function.update_apply, hexchanges id' hid']
  | wake k w =>
      simp only [endpoint, Endpoint.step] at hstep ⊢
      split at hstep
      · next i hi =>
          obtain ⟨application, happ, rfl⟩ := Option.map_eq_some_iff.mp hstep
          obtain ⟨j, s, hj, hs, halike'⟩ := halike.wake hi happ
          refine ⟨{ t with application := s }, ?_, hexchanges, halike'⟩
          simp only [hj, hs, Option.map_some]
      · simp at hstep
  | ambient b =>
      obtain ⟨application, happ, rfl⟩ := Option.map_eq_some_iff.mp hstep
      obtain ⟨s, hs, halike'⟩ := halike.ambient happ
      exact ⟨_, Option.map_eq_some_iff.mpr ⟨s, hs, rfl⟩, hexchanges, halike'⟩
  | clock p u =>
      obtain ⟨application, happ, rfl⟩ := Option.map_eq_some_iff.mp hstep
      obtain ⟨s, hs, halike'⟩ := halike.clock happ
      exact ⟨_, Option.map_eq_some_iff.mpr ⟨s, hs, rfl⟩, hexchanges, halike'⟩

/-- A step of an unauthenticated exchange is not seen by the others. -/
theorem agrees_hidden (hagrees : st.Agrees ids t) (hrefused : PassesRefused ids st a)
    (ha : a.apartFrom ids = false) (hstep : (endpoint cfg).step st a = some st') :
    st'.Agrees ids t := by
  obtain ⟨hexchanges, halike⟩ := hagrees
  have hother : ∀ {id id' : ℕ} {x : Option HttpExchange}, ids id = true → ids id' = false →
      t.exchanges id' = Function.update st.exchanges id x id' := fun hid hid' => by
    rw [Function.update_of_ne (by rintro rfl; simp [hid] at hid'), hexchanges _ hid']
  cases a with
  | request id r jwt =>
      have hid : ids id = true := by simpa using ha
      obtain ⟨-, rfl⟩ := step_request hstep
      exact ⟨fun id' hid' => hother hid hid', halike⟩
  | receive id message =>
      have hid : ids id = true := by simpa using ha
      obtain ⟨e, -, -, rfl⟩ := step_receive hstep
      exact ⟨fun id' hid' => hother hid hid', halike⟩
  | pass id message jwt =>
      have hid : ids id = true := by simpa using ha
      obtain ⟨e, he, -, happ, hpassed, -⟩ := step_pass hstep
      obtain ⟨reason, hauth⟩ := hrefused id message jwt e rfl hid he
      refine ⟨fun id' hid' => hpassed ▸ hother hid hid', ?_⟩
      exact (App.alike_refused (c := message.call e.request) hauth happ).symm.trans halike
  | wake _ _ | ambient _ | clock _ _ => simp at ha

/-- **Without the unauthenticated requests the run goes on alike.** -/
theorem agrees_of_run {g : Shared} {perfCounter : ℚ} {utcNow : Str} {as : List EndpointAction}
    (hrun : (endpoint cfg).exec (.start g perfCounter utcNow) as = some st)
    (hids : st.Unauthenticated ids) :
    ∃ t, (endpoint cfg).exec (.start g perfCounter utcNow)
        (as.filter (EndpointAction.apartFrom ids)) = some t ∧ st.Agrees ids t := by
  have hstart : (Endpoint.start g perfCounter utcNow).Sound cfg :=
    sound_of_run (System.exec_nil _)
  obtain ⟨-, heach⟩ := System.each_of_last (I := Endpoint.Sound cfg)
    (fun _ _ _ hI hstep => hI.step hstep)
    (fun _ _ _ hI hstep hids => unauthenticated_back hI hstep hids) hstart hrun hids
  exact System.exec_filter (fun _ _ _ _ hagrees _ ha hstep => agrees_visible hagrees ha hstep)
    (fun _ _ _ _ hagrees hrefused ha hstep => agrees_hidden hagrees hrefused ha hstep)
    ⟨fun _ _ => rfl, rfl, rfl, rfl, rfl⟩ heach hrun

end Erasure

/-- **Unauthenticated traffic does not interfere.** In every run an unauthenticated request
that has ended was refused as it should be if and only if it was no `POST` with a body that
is nested too deeply; one that waits in the manager is a `tools/call`, which the manager can
pass on. And without any set of such requests there is a run to the same rate limiter, the
same circuits, the same calls of the backends and the same results of accepted calls. -/
theorem unauthenticated_iff {cfg : AppSettings} {g : Shared} {perfCounter : ℚ} {utcNow : Str}
    {st : Endpoint} {as : List EndpointAction}
    (hrun : (endpoint cfg).exec (.start g perfCounter utcNow) as = some st) :
    (∀ id e, st.exchanges id = some e → e.Unauthenticated →
      (e.Ended → (st.Refuses cfg id e ↔ ¬e.TooDeep cfg.py)) ∧
      (e.phase = .managed → e.IsCall cfg.py ∧ (e.buffer.whole = true →
        ∀ message jwt, ∃ st', (endpoint cfg).step st (.pass id message jwt) = some st'))) ∧
    ∀ ids : ℕ → Bool, st.Unauthenticated ids →
      ∃ t, (endpoint cfg).exec (.start g perfCounter utcNow)
          (as.filter (EndpointAction.apartFrom ids)) = some t ∧
        t.application.routes.shared = st.application.routes.shared ∧
        t.application.routes.tasks = st.application.routes.tasks ∧
        t.application.accepted = st.application.accepted := by
  have hsound := sound_of_run hrun
  refine ⟨fun id e he hauth => ⟨refuses_iff hsound he hauth, fun hmanaged => ?_⟩,
    fun ids hids => ?_⟩
  · have hphase := (hsound.exchanges id e he).phase
    simp only [HttpExchange.PhaseSound, hmanaged] at hphase
    obtain ⟨-, -, ⟨agent, houter⟩ | ⟨hcall, -⟩⟩ := hphase
    · obtain ⟨reason, hreason⟩ := hauth.1
      simp [houter] at hreason
    · refine ⟨hcall, fun hwhole message jwt => exists_pass he ?_ message jwt⟩
      simp [HttpExchange.passable, hmanaged, hwhole,
        (HttpExchange.isCall_iff (hsound.exchanges id e he).body).mpr hcall]
  · obtain ⟨t, ht, -, halike⟩ := agrees_of_run hrun hids
    exact ⟨t, ht, congrArg _ halike.routes, congrArg _ halike.routes, halike.accepted⟩

/-! ### A request without a header -/

/-- A `POST` without a header. -/
def bareRequest : HttpRequest := ⟨lit "POST", none⟩

/-- A `tools/call` in two parts, without a header, which the manager passes on. -/
def refusedRun : List EndpointAction :=
  [.request 0 bareRequest (.error .invalidToken),
    .receive 0 (.request (asciiBytes (lit "\x7b\"method\": \"tools")) true),
    .receive 0 (.request (asciiBytes (lit "/call\"\x7d")) false),
    .pass 0 ⟨lit "ticket__create_ticket", none, lit "0123456789abcdef"⟩ (.error .invalidToken)]

/-- An answer that is not good is an error. -/
theorem exists_error {ε α : Type} {x : Except ε α} (h : x.isOk = false) : ∃ e, x = .error e := by
  cases x with
  | ok a => cases h
  | error e => exact ⟨e, rfl⟩

/-- The call is refused as it should be. -/
theorem unauthenticated_sample : ∃ st e,
    (endpoint sampleApp).exec (.start (sampleStart none true).shared 0 []) refusedRun = some st ∧
    st.exchanges 0 = some e ∧ e.Unauthenticated ∧ e.Ended ∧
    (st.Refuses sampleApp 0 e ↔ ¬e.TooDeep sampleApp.py) := by
  have hrun : ((endpoint sampleApp).exec (.start (sampleStart none true).shared 0 [])
      refusedRun).any (fun st => (st.exchanges 0).any fun e =>
        !e.outer.isOk && e.inner.all (fun answer => !answer.isOk) && e.phase = .passed) = true := by
    decide +kernel
  obtain ⟨st, hst, h⟩ := (Option.any_eq_true _ _).mp hrun
  obtain ⟨e, he, h⟩ := (Option.any_eq_true _ _).mp h
  simp only [Bool.and_eq_true, Bool.not_eq_true', Option.all_eq_true, decide_eq_true_eq] at h
  obtain ⟨⟨houter, hinner⟩, hphase⟩ := h
  have hunauthenticated : e.Unauthenticated :=
    ⟨exists_error houter, fun answer hanswer => exists_error (hinner answer hanswer)⟩
  have hended : e.Ended := by simp [HttpExchange.Ended, hphase]
  exact ⟨st, e, hst, he, hunauthenticated, hended,
    ((unauthenticated_iff hst).1 0 e he hunauthenticated).1 hended⟩

/-- A body of brackets that no reader of a hundred levels can follow. -/
def deepBody : Bytes := List.replicate 102 0x5B

/-- **An unauthenticated request is answered by an exception**: neither by 401 nor by a
result. -/
theorem unauthenticated_fails : ¬∀ (cfg : AppSettings) (g : Shared) (perfCounter : ℚ)
    (utcNow : Str) (st : Endpoint) (as : List EndpointAction),
    (endpoint cfg).exec (.start g perfCounter utcNow) as = some st →
    ∀ id e, st.exchanges id = some e → e.Unauthenticated → e.Ended → st.Refuses cfg id e := by
  intro hclaim
  have hrun : ((endpoint sampleApp).exec (.start (sampleStart none true).shared 0 [])
      [.request 0 bareRequest (.error .invalidToken),
        .receive 0 (.request deepBody false)]).any (fun st => (st.exchanges 0).any fun e =>
          !e.outer.isOk && e.inner.all (fun answer => !answer.isOk) &&
            e.phase = .failed .recursionError) = true := by
    decide +kernel
  obtain ⟨st, hst, h⟩ := (Option.any_eq_true _ _).mp hrun
  obtain ⟨e, he, h⟩ := (Option.any_eq_true _ _).mp h
  simp only [Bool.and_eq_true, Bool.not_eq_true', Option.all_eq_true, decide_eq_true_eq] at h
  obtain ⟨⟨houter, hinner⟩, hphase⟩ := h
  have hrefuses := hclaim sampleApp _ _ _ st _ hst 0 e he
    ⟨exists_error houter, fun answer hanswer => exists_error (hinner answer hanswer)⟩
    (by simp [HttpExchange.Ended, hphase])
  simp [Endpoint.Refuses, hphase] at hrefuses

end AgentOpsGateway
