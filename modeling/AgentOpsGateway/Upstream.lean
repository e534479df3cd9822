import Mathlib.Logic.Function.Basic
import AgentOpsGateway.Routes

/-!
# The Shared Session of a Backend

A `Backend` object keeps one connection. Every connection belongs to a task of its own,
`_connection_task`, which opens the transport, publishes the session, and closes it again
when it is told to stop or when the connection dies. The tasks that run `ensure_session`,
`call` and `close` share the session and replace the connection under `_lock`.

Each of them runs without interruption between two awaits. An action of the transition
system lets one task run to its next await, or lets the world act: a connection attempt
succeeds or fails, a connection dies, a request is sent or answered, a task is cancelled.
A task that waits for `_lock` may get it whenever it is free; that the lock is handed over
in order of arrival is one of these interleavings.

Callers, connections and requests are numbered; the numbers not yet in use are `idle`
callers, `absent` connections, and the requests from `requestCount` on. What is marked as
a record is never read by the program; it is what properties speak about.
-/

namespace AgentOpsGateway

open Python Transition

/-! ### The parties -/

/-- Where `_connection_task` stands. -/
inductive ConnectionPhase
  | absent
  /-- Created by `create_task`, and not yet running. -/
  | created
  /-- Opening the transport, up to `list_tools`. -/
  | opening
  /-- At `await stop.wait()`. -/
  | serving
  /-- Leaving the `with` blocks. -/
  | closing
  | finished
  deriving DecidableEq

/-- The future `ready` of a connection attempt. -/
inductive Ready
  | pending
  | ok
  | failed
  | cancelled
  deriving DecidableEq

/-- Complete a future that may be done already. -/
def Ready.settle (r outcome : Ready) : Ready := if r = .pending then outcome else r

/-- A connection task with its `ready` future and its `stop` event. -/
structure Connection where
  phase : ConnectionPhase
  ready : Ready
  stop : Bool
  /-- Record: the connection has died by itself. -/
  lost : Bool
  /-- Record: `_connect_locked` left this connection by an exception or a cancellation. -/
  exited : Bool

/-- The connection has begun to open its transport and its task has not ended. -/
def Connection.isOpen (k : Connection) : Bool :=
  match k.phase with
  | .opening | .serving | .closing => true
  | .absent | .created | .finished => false

/-- Why `session.call_tool` raises. -/
inductive Fault
  /-- The backend answers with a JSON-RPC error. -/
  | rpcError
  /-- There is no answer: the transport fails, or the time is up. -/
  | transport
  deriving DecidableEq

/-- How the task of `session.call_tool` stands. -/
inductive Reply
  | pending
  | replied (result : CallToolResult)
  | raised (f : Fault)
  | cancelled

/-- The backend has answered with a result. -/
def Reply.isReplied : Reply → Bool
  | .replied _ => true
  | .pending | .raised _ | .cancelled => false

/-- A `session.call_tool(tool, arguments)` of a caller on the session of a connection. -/
structure Exchange where
  caller : ℕ
  connection : ℕ
  tool : Str
  arguments : Arguments
  /-- The request has gone out to the backend. -/
  sent : Bool
  reply : Reply

/-- What runs on the backend object. -/
inductive Operation
  | ensureSession
  | call (tool : Str) (arguments : Arguments)
  | close

/-- The operation calls a tool. -/
def Operation.isCall : Operation → Bool
  | .call _ _ => true
  | .ensureSession | .close => false

/-- What `_lock` is taken for. -/
inductive Section
  /-- To connect: in `ensure_session`, or, as `retry`, after the first attempt of a call. -/
  | connect (retry : Bool)
  /-- To tear down after the second attempt of a call. -/
  | giveUp
  | close
  deriving DecidableEq

/-- Where a caller stands. -/
inductive CallerPhase
  | idle
  /-- At `async with self._lock`. -/
  | acquiring (s : Section)
  /-- At `await self._task`. -/
  | tearing (s : Section) (c : ℕ)
  /-- At `await ready`. -/
  | connecting (retry : Bool) (c : ℕ)
  /-- At `asyncio.wait({call, owner})`. -/
  | racing (retry : Bool) (r owner : ℕ)
  | returned (result : Option CallToolResult)
  /-- `ensure_session` raised the exception of its connection attempt. -/
  | raised
  | cancelled

/-- How an attempt of a call ended. -/
inductive Attempt
  | result (result : CallToolResult)
  | rpcError
  | noAnswer

/-- What a fault means to the caller. -/
def Fault.attempt : Fault → Attempt
  | .rpcError => .rpcError
  | .transport => .noAnswer

/-- A task that uses the backend object. -/
structure Caller where
  operation : Operation
  phase : CallerPhase
  /-- Record: the attempts of a call that have ended. -/
  attempts : List Attempt

/-- The caller is in a section of `_lock`. -/
def CallerPhase.holds : CallerPhase → Bool
  | .tearing _ _ | .connecting _ _ => true
  | _ => false

/-- The caller has returned. -/
def CallerPhase.isReturned : CallerPhase → Bool
  | .returned _ => true
  | .idle | .acquiring _ | .tearing _ _ | .connecting _ _ | .racing _ _ _ | .raised | .cancelled =>
    false

/-- A `Backend` object and everything that runs on it. -/
structure Upstream extends Backend where
  /-- The connection whose session is in `_session`. -/
  session : Option ℕ
  /-- The connection whose task is in `_task`, with its event in `_stop`. -/
  task : Option ℕ
  /-- The caller in a section of `_lock`. -/
  lock : Option ℕ
  callers : ℕ → Caller
  connections : ℕ → Connection
  connectionCount : ℕ
  requests : ℕ → Exchange
  requestCount : ℕ

/-- A new `Backend` object. -/
def Upstream.init (name : Str) : Upstream where
  name := name
  tools := none
  session := none
  task := none
  lock := none
  callers := fun _ => ⟨.ensureSession, .idle, []⟩
  connections := fun _ => ⟨.absent, .pending, false, false, false⟩
  connectionCount := 0
  requests := fun _ => ⟨0, 0, [], [], false, .pending⟩
  requestCount := 0

/-! ### The segments -/

namespace Upstream

variable (st : Upstream)

/-- Let a caller go on to another place. -/
def move (i : ℕ) (phase : CallerPhase) : Upstream :=
  { st with callers := Function.update st.callers i { st.callers i with phase } }

/-- Change a connection. -/
def setConnection (c : ℕ) (k : Connection) : Upstream :=
  { st with connections := Function.update st.connections c k }

/-- `stop.set()` of a connection. -/
def setStop (c : ℕ) : Upstream := st.setConnection c { st.connections c with stop := true }

/-- Change a request. -/
def setRequest (r : ℕ) (x : Exchange) : Upstream :=
  { st with requests := Function.update st.requests r x }

/-- Leave the section of `_lock`. -/
def release : Upstream := { st with lock := none }

/-- An attempt of a call has failed: go on to the next section of `_lock`. -/
def fail (i : ℕ) (retry : Bool) (a : Attempt) : Upstream :=
  { st with
    callers := Function.update st.callers i
      { st.callers i with
        phase := .acquiring (if retry then .giveUp else .connect true)
        attempts := (st.callers i).attempts ++ [a] } }

/-- An attempt of a call has delivered a result. -/
def answer (i : ℕ) (result : CallToolResult) : Upstream :=
  { st with
    callers := Function.update st.callers i
      { st.callers i with
        phase := .returned (some result)
        attempts := (st.callers i).attempts ++ [.result result] } }

/-- `asyncio.ensure_future(session.call_tool(tool, arguments))` for a caller. -/
def dispatch (i session : ℕ) (tool : Str) (arguments : Arguments) : Upstream :=
  { st with
    requests := Function.update st.requests st.requestCount
      ⟨i, session, tool, arguments, false, .pending⟩
    requestCount := st.requestCount + 1 }

/-- What follows a session in hand: `_race_call` up to its await, where the caller runs
`call`, or the return of `ensure_session`. -/
def proceed (i : ℕ) (retry : Bool) : Upstream :=
  match (st.callers i).operation with
  | .call tool arguments =>
    match st.session, st.task with
    | none, _ => st.fail i retry .noAnswer
    | some session, none => (st.dispatch i session tool arguments).fail i retry .noAnswer
    | some session, some owner =>
      (st.dispatch i session tool arguments).move i (.racing retry st.requestCount owner)
  | _ => st.move i (.returned none)

/-- `_connect_locked` up to its await. -/
def connectLocked (i : ℕ) (retry : Bool) : Upstream :=
  { st with
    connections := Function.update st.connections st.connectionCount
      ⟨.created, .pending, false, false, false⟩
    connectionCount := st.connectionCount + 1 }.move i (.connecting retry st.connectionCount)

/-- The end of `_teardown_locked`, and what follows it in each section. -/
def torn (i : ℕ) (s : Section) : Upstream :=
  let st := { st with task := none, session := none }
  match s with
  | .connect retry => st.connectLocked i retry
  | .giveUp => st.release.move i (.returned (some (backendUnavailable st.name)))
  | .close => st.release.move i (.returned none)

/-- `_teardown_locked`: a task that has already finished is not waited for. -/
def teardownLocked (i : ℕ) (s : Section) : Upstream :=
  match st.task with
  | none => st.torn i s
  | some c =>
    if (st.connections c).phase = .finished then (st.setStop c).torn i s
    else (st.setStop c).move i (.tearing s c)

/-- A caller gets `_lock`. `ensure_session` only connects where there is no session. -/
def acquired (i : ℕ) (s : Section) : Upstream :=
  if s = .connect false ∧ st.session.isSome then st.proceed i false
  else { st with lock := some i }.teardownLocked i s

/-- `await ready` of connection `c` raised an exception. -/
def connectFailed (i : ℕ) (retry : Bool) (c : ℕ) : Upstream :=
  let st := st.release.setConnection c { st.connections c with stop := true, exited := true }
  if retry then st.move i (.returned (some (backendUnavailable st.name)))
  else
    match (st.callers i).operation with
    | .call _ _ => st.fail i false .noAnswer
    | _ => st.move i .raised

/-- `await ready` of connection `c` is cancelled. -/
def connectCancelled (i c : ℕ) : Upstream :=
  (st.release.setConnection c
    { st.connections c with
      ready := (st.connections c).ready.settle .cancelled
      stop := true
      exited := true }).move i .cancelled

/-- A cancelled `await self._task` cancels the connection task, which swallows it. -/
def cancelConnection (c : ℕ) : Upstream :=
  if (st.connections c).phase = .serving then
    st.setConnection c { st.connections c with phase := .closing }
  else st

end Upstream

/-! ### The transition system -/

/-- What can happen next. -/
inductive UpstreamAction
  /-- A task calls a method of the object. -/
  | enter (i : ℕ) (op : Operation)
  | acquire (i : ℕ)
  | torn (i : ℕ)
  | connected (i : ℕ)
  | raced (i : ℕ)
  | cancel (i : ℕ)
  | start (c : ℕ)
  | opened (c : ℕ) (tools : List Tool)
  | openFail (c : ℕ)
  | die (c : ℕ)
  | stopped (c : ℕ)
  | finish (c : ℕ)
  | send (r : ℕ)
  | reply (r : ℕ) (result : CallToolResult)
  | callRaise (r : ℕ) (f : Fault)

/-- The caller that runs. -/
def UpstreamAction.caller : UpstreamAction → Option ℕ
  | .enter i _ | .acquire i | .torn i | .connected i | .raced i | .cancel i => some i
  | _ => none

/-- The section an operation begins with. -/
def Operation.section : Operation → Section
  | .close => .close
  | _ => .connect false

/-- A request that waits for its answer. -/
def Upstream.waiting (st : Upstream) (r : ℕ) : Bool :=
  decide (r < st.requestCount) && match (st.requests r).reply with
    | .pending => true
    | _ => false

/-- A request that waits has no answer. -/
theorem pending_of_waiting {st : Upstream} {r : ℕ} (h : st.waiting r = true) :
    (st.requests r).reply = .pending := by
  simp only [Upstream.waiting] at h
  cases hreply : (st.requests r).reply <;> simp_all

/-- A request that the backend can answer: it has gone out, and its connection is up. -/
def Upstream.answerable (st : Upstream) (r : ℕ) : Bool :=
  (st.requests r).sent &&
    decide ((st.connections (st.requests r).connection).phase ≠ .finished)

/-- Let the backend object take one action, where it is possible. -/
def Upstream.step (st : Upstream) : UpstreamAction → Option Upstream
  | .enter i op =>
    match (st.callers i).phase with
    | .idle =>
      some { st with
        callers := Function.update st.callers i ⟨op, .acquiring op.section, []⟩ }
    | _ => none
  | .acquire i =>
    match (st.callers i).phase with
    | .acquiring s => if st.lock = none then some (st.acquired i s) else none
    | _ => none
  | .torn i =>
    match (st.callers i).phase with
    | .tearing s c => if (st.connections c).phase = .finished then some (st.torn i s) else none
    | _ => none
  | .connected i =>
    match (st.callers i).phase with
    | .connecting retry c =>
      match (st.connections c).ready with
      | .ok => some ({ st with task := some c, lock := none }.proceed i retry)
      | .failed => some (st.connectFailed i retry c)
      | .pending | .cancelled => none
    | _ => none
  | .raced i =>
    match (st.callers i).phase with
    | .racing retry r owner =>
      match (st.requests r).reply with
      | .replied result => some (st.answer i result)
      | .raised f => some (st.fail i retry f.attempt)
      | .pending =>
        if (st.connections owner).phase = .finished then
          some ((st.setRequest r { st.requests r with reply := Reply.cancelled }).fail i retry
            .noAnswer)
        else none
      | .cancelled => none
    | _ => none
  | .cancel i =>
    match (st.callers i).phase with
    | .acquiring _ | .racing _ _ _ => some (st.move i .cancelled)
    | .tearing _ c =>
      if (st.connections c).phase = .finished then some (st.release.move i .cancelled)
      else some (st.cancelConnection c)
    | .connecting _ c => some (st.connectCancelled i c)
    | _ => none
  | .start c =>
    if (st.connections c).phase = .created then
      some (st.setConnection c { st.connections c with phase := .opening })
    else none
  | .opened c tools =>
    if (st.connections c).phase = .opening then
      let published := { st with tools := some tools, session := some c }
      if (st.connections c).ready = .pending then
        some (published.setConnection c { st.connections c with phase := .serving, ready := .ok })
      -- `ready.set_result` raises `InvalidStateError`
      else some (published.setConnection c { st.connections c with phase := .closing })
    else none
  | .openFail c =>
    if (st.connections c).phase = .opening then
      some ({ st with session := none }.setConnection c
        { st.connections c with
          phase := .finished
          ready := (st.connections c).ready.settle .failed })
    else none
  | .die c =>
    if (st.connections c).phase = .serving then
      some (st.setConnection c { st.connections c with phase := .closing, lost := true })
    else none
  | .stopped c =>
    if (st.connections c).phase = .serving ∧ (st.connections c).stop then
      some (st.setConnection c { st.connections c with phase := .closing })
    else none
  | .finish c =>
    if (st.connections c).phase = .closing then
      some ({ st with session := none }.setConnection c
        { st.connections c with phase := .finished })
    else none
  | .send r =>
    if st.waiting r ∧ ¬(st.requests r).sent then
      some (st.setRequest r { st.requests r with sent := true })
    else none
  | .reply r result =>
    if st.waiting r ∧ st.answerable r then
      some (st.setRequest r { st.requests r with reply := .replied result })
    else none
  | .callRaise r f =>
    if st.waiting r ∧ (f = .rpcError → st.answerable r) then
      some (st.setRequest r { st.requests r with reply := .raised f })
    else none

/-- The runs on a backend object. -/
def upstream : System Upstream UpstreamAction := ⟨Upstream.step⟩

/-! ### What each action does -/

section Steps

variable {st st' : Upstream} {i c r : ℕ}

/-- A task enters a method through `_lock`. -/
theorem step_enter {op : Operation} (h : upstream.step st (.enter i op) = some st') :
    (st.callers i).phase = .idle ∧ st' = { st with
      callers := Function.update st.callers i ⟨op, .acquiring op.section, []⟩ } := by
  simp only [upstream, Upstream.step] at h
  split at h
  · next hphase => exact ⟨hphase, (Option.some.inj h).symm⟩
  · simp at h

/-- A caller gets `_lock` where it is free. -/
theorem step_acquire (h : upstream.step st (.acquire i) = some st') :
    ∃ s, (st.callers i).phase = .acquiring s ∧ st.lock = none ∧ st' = st.acquired i s := by
  simp only [upstream, Upstream.step] at h
  split at h
  · next s hphase =>
      split at h
      · next hlock => exact ⟨s, hphase, hlock, (Option.some.inj h).symm⟩
      · simp at h
  · simp at h

/-- A teardown goes on when the connection task has ended. -/
theorem step_torn (h : upstream.step st (.torn i) = some st') :
    ∃ s c, (st.callers i).phase = .tearing s c ∧ (st.connections c).phase = .finished ∧
      st' = st.torn i s := by
  simp only [upstream, Upstream.step] at h
  split at h
  · next s c hphase =>
      split at h
      · next hfinished => exact ⟨s, c, hphase, hfinished, (Option.some.inj h).symm⟩
      · simp at h
  · simp at h

/-- A connection attempt ends for its caller when `ready` is done. -/
theorem step_connected (h : upstream.step st (.connected i) = some st') :
    ∃ retry c, (st.callers i).phase = .connecting retry c ∧
      ((st.connections c).ready = .ok ∧
          st' = { st with task := some c, lock := none }.proceed i retry ∨
        (st.connections c).ready = .failed ∧ st' = st.connectFailed i retry c) := by
  simp only [upstream, Upstream.step] at h
  split at h
  · next retry c hphase =>
      split at h
      · next hready => exact ⟨retry, c, hphase, Or.inl ⟨hready, (Option.some.inj h).symm⟩⟩
      · next hready => exact ⟨retry, c, hphase, Or.inr ⟨hready, (Option.some.inj h).symm⟩⟩
      · simp at h
      · simp at h
  · simp at h

/-- A race ends with the end of the request, or else with the end of the connection task. -/
theorem step_raced (h : upstream.step st (.raced i) = some st') :
    ∃ retry r owner, (st.callers i).phase = .racing retry r owner ∧
      ((∃ result, (st.requests r).reply = .replied result ∧ st' = st.answer i result) ∨
        (∃ f, (st.requests r).reply = .raised f ∧ st' = st.fail i retry f.attempt) ∨
        (st.requests r).reply = .pending ∧ (st.connections owner).phase = .finished ∧
          st' = (st.setRequest r { st.requests r with reply := Reply.cancelled }).fail i retry
            .noAnswer) := by
  simp only [upstream, Upstream.step] at h
  split at h
  · next retry r owner hphase =>
      refine ⟨retry, r, owner, hphase, ?_⟩
      split at h
      · next result hreply => exact Or.inl ⟨result, hreply, (Option.some.inj h).symm⟩
      · next f hreply => exact Or.inr (Or.inl ⟨f, hreply, (Option.some.inj h).symm⟩)
      · next hreply =>
          split at h
          · next hfinished =>
              exact Or.inr (Or.inr ⟨hreply, hfinished, (Option.some.inj h).symm⟩)
          · simp at h
      · simp at h
  · simp at h

/-- What a cancellation does depends on the await it hits. -/
theorem step_cancel (h : upstream.step st (.cancel i) = some st') :
    (((∃ s, (st.callers i).phase = .acquiring s) ∨
        ∃ retry r owner, (st.callers i).phase = .racing retry r owner) ∧
      st' = st.move i .cancelled) ∨
    (∃ s c, (st.callers i).phase = .tearing s c ∧
      ((st.connections c).phase = .finished ∧ st' = st.release.move i .cancelled ∨
        st' = st.cancelConnection c)) ∨
    ∃ retry c, (st.callers i).phase = .connecting retry c ∧ st' = st.connectCancelled i c := by
  simp only [upstream, Upstream.step] at h
  split at h
  · next s hphase => exact Or.inl ⟨Or.inl ⟨s, hphase⟩, (Option.some.inj h).symm⟩
  · next retry r owner hphase =>
      exact Or.inl ⟨Or.inr ⟨retry, r, owner, hphase⟩, (Option.some.inj h).symm⟩
  · next s c hphase =>
      refine Or.inr (Or.inl ⟨s, c, hphase, ?_⟩)
      split at h
      · next hfinished => exact Or.inl ⟨hfinished, (Option.some.inj h).symm⟩
      · exact Or.inr (Option.some.inj h).symm
  · next retry c hphase => exact Or.inr (Or.inr ⟨retry, c, hphase, (Option.some.inj h).symm⟩)
  · simp at h

/-- A connection task begins to open its transport. -/
theorem step_start (h : upstream.step st (.start c) = some st') :
    (st.connections c).phase = .created ∧
      st' = st.setConnection c { st.connections c with phase := .opening } := by
  simp only [upstream, Upstream.step, Option.ite_none_right_eq_some] at h
  exact ⟨h.1, (Option.some.inj h.2).symm⟩

/-- A connection task has opened its session and publishes it, whether or not anyone still
waits for it. -/
theorem step_opened {tools : List Tool} (h : upstream.step st (.opened c tools) = some st') :
    (st.connections c).phase = .opening ∧
      ((st.connections c).ready = .pending ∧
          st' = { st with tools := some tools, session := some c }.setConnection c
            { st.connections c with phase := .serving, ready := .ok } ∨
        (st.connections c).ready ≠ .pending ∧
          st' = { st with tools := some tools, session := some c }.setConnection c
            { st.connections c with phase := .closing }) := by
  simp only [upstream, Upstream.step, Option.ite_none_right_eq_some] at h
  refine ⟨h.1, ?_⟩
  have h := h.2
  split at h
  · next hready => exact Or.inl ⟨hready, (Option.some.inj h).symm⟩
  · next hready => exact Or.inr ⟨hready, (Option.some.inj h).symm⟩

/-- A connection attempt fails. -/
theorem step_openFail (h : upstream.step st (.openFail c) = some st') :
    (st.connections c).phase = .opening ∧
      st' = { st with session := none }.setConnection c
        { st.connections c with
          phase := .finished
          ready := (st.connections c).ready.settle .failed } := by
  simp only [upstream, Upstream.step, Option.ite_none_right_eq_some] at h
  exact ⟨h.1, (Option.some.inj h.2).symm⟩

/-- A connection dies by itself. -/
theorem step_die (h : upstream.step st (.die c) = some st') :
    (st.connections c).phase = .serving ∧
      st' = st.setConnection c { st.connections c with phase := .closing, lost := true } := by
  simp only [upstream, Upstream.step, Option.ite_none_right_eq_some] at h
  exact ⟨h.1, (Option.some.inj h.2).symm⟩

/-- A connection task wakes up from `stop.wait()`. -/
theorem step_stopped (h : upstream.step st (.stopped c) = some st') :
    (st.connections c).phase = .serving ∧ (st.connections c).stop = true ∧
      st' = st.setConnection c { st.connections c with phase := .closing } := by
  simp only [upstream, Upstream.step, Option.ite_none_right_eq_some] at h
  exact ⟨h.1.1, h.1.2, (Option.some.inj h.2).symm⟩

/-- A connection task ends. -/
theorem step_finish (h : upstream.step st (.finish c) = some st') :
    (st.connections c).phase = .closing ∧
      st' = { st with session := none }.setConnection c
        { st.connections c with phase := .finished } := by
  simp only [upstream, Upstream.step, Option.ite_none_right_eq_some] at h
  exact ⟨h.1, (Option.some.inj h.2).symm⟩

/-- A request goes out. -/
theorem step_send (h : upstream.step st (.send r) = some st') :
    st.waiting r = true ∧ ¬(st.requests r).sent = true ∧
      st' = st.setRequest r { st.requests r with sent := true } := by
  simp only [upstream, Upstream.step, Option.ite_none_right_eq_some] at h
  exact ⟨h.1.1, h.1.2, (Option.some.inj h.2).symm⟩

/-- The backend answers a request with a result. -/
theorem step_reply {result : CallToolResult} (h : upstream.step st (.reply r result) = some st') :
    st.waiting r = true ∧ st.answerable r = true ∧
      st' = st.setRequest r { st.requests r with reply := .replied result } := by
  simp only [upstream, Upstream.step, Option.ite_none_right_eq_some] at h
  exact ⟨h.1.1, h.1.2, (Option.some.inj h.2).symm⟩

/-- A request raises. -/
theorem step_callRaise {f : Fault} (h : upstream.step st (.callRaise r f) = some st') :
    st.waiting r = true ∧
      st' = st.setRequest r { st.requests r with reply := .raised f } := by
  simp only [upstream, Upstream.step, Option.ite_none_right_eq_some] at h
  exact ⟨h.1.1, (Option.some.inj h.2).symm⟩

/-- An action of no caller writes one connection, with what it publishes, or goes on with a
request that waits. -/
theorem step_of_no_caller {a : UpstreamAction} (ha : a.caller = none)
    (h : upstream.step st a = some st') :
    (∃ c k session tools, st' = { st with session, tools }.setConnection c k) ∨
      ∃ r x, (st.requests r).reply = .pending ∧ x.caller = (st.requests r).caller ∧
        x.tool = (st.requests r).tool ∧ x.arguments = (st.requests r).arguments ∧
        x.connection = (st.requests r).connection ∧ x.reply ≠ .cancelled ∧
        st' = st.setRequest r x := by
  cases a with
  | enter i op | acquire i | torn i | connected i | raced i | cancel i =>
      simp [UpstreamAction.caller] at ha
  | start c =>
      obtain ⟨-, rfl⟩ := step_start h
      exact Or.inl ⟨c, _, st.session, st.tools, rfl⟩
  | opened c tools =>
      obtain ⟨-, ⟨-, rfl⟩ | ⟨-, rfl⟩⟩ := step_opened h
      · exact Or.inl ⟨c, _, some c, some tools, rfl⟩
      · exact Or.inl ⟨c, _, some c, some tools, rfl⟩
  | openFail c =>
      obtain ⟨-, rfl⟩ := step_openFail h
      exact Or.inl ⟨c, _, none, st.tools, rfl⟩
  | die c =>
      obtain ⟨-, rfl⟩ := step_die h
      exact Or.inl ⟨c, _, st.session, st.tools, rfl⟩
  | stopped c =>
      obtain ⟨-, -, rfl⟩ := step_stopped h
      exact Or.inl ⟨c, _, st.session, st.tools, rfl⟩
  | finish c =>
      obtain ⟨-, rfl⟩ := step_finish h
      exact Or.inl ⟨c, _, none, st.tools, rfl⟩
  | send r =>
      obtain ⟨hwaiting, -, rfl⟩ := step_send h
      have hpending := pending_of_waiting hwaiting
      exact Or.inr ⟨r, { st.requests r with sent := true }, hpending, rfl, rfl, rfl, rfl,
        by simp [hpending], rfl⟩
  | reply r result =>
      obtain ⟨hwaiting, -, rfl⟩ := step_reply h
      exact Or.inr ⟨r, { st.requests r with reply := .replied result },
        pending_of_waiting hwaiting, rfl, rfl, rfl, rfl, by simp, rfl⟩
  | callRaise r f =>
      obtain ⟨hwaiting, rfl⟩ := step_callRaise h
      exact Or.inr ⟨r, { st.requests r with reply := .raised f },
        pending_of_waiting hwaiting, rfl, rfl, rfl, rfl, by simp, rfl⟩

end Steps

/-! ### What each segment does -/

namespace Upstream

variable {st st' : Upstream} {i : ℕ}

@[simp] theorem move_connections (st : Upstream) (i : ℕ) (phase : CallerPhase) :
    (st.move i phase).connections = st.connections := rfl

@[simp] theorem move_phase (st : Upstream) (i : ℕ) (phase : CallerPhase) :
    ((st.move i phase).callers i).phase = phase := by
  simp [move]

theorem move_callers_of_ne (st : Upstream) {i j : ℕ} (h : j ≠ i) (phase : CallerPhase) :
    (st.move i phase).callers j = st.callers j :=
  Function.update_of_ne h _ _

/-- Only the one request changes. -/
theorem setRequest_requests (st : Upstream) (r : ℕ) (x : Exchange) (r' : ℕ) :
    (st.setRequest r x).requests r' = if r' = r then x else st.requests r' :=
  Function.update_apply _ _ _ _

/-- A request that changes stays a request of its caller. -/
theorem setRequest_caller {r : ℕ} {x : Exchange} (hcaller : x.caller = (st.requests r).caller)
    (r' : ℕ) : ((st.setRequest r x).requests r').caller = (st.requests r').caller := by
  rw [setRequest_requests]
  split
  · next heq => rw [hcaller, heq]
  · rfl

@[simp] theorem setStop_callers (st : Upstream) (c : ℕ) :
    (st.setStop c).callers = st.callers := rfl

@[simp] theorem setStop_phase (st : Upstream) (c c' : ℕ) :
    ((st.setStop c).connections c').phase = (st.connections c').phase := by
  by_cases h : c' = c <;> simp [setStop, setConnection, h]

@[simp] theorem setStop_ready (st : Upstream) (c c' : ℕ) :
    ((st.setStop c).connections c').ready = (st.connections c').ready := by
  by_cases h : c' = c <;> simp [setStop, setConnection, h]

@[simp] theorem setStop_lost (st : Upstream) (c c' : ℕ) :
    ((st.setStop c).connections c').lost = (st.connections c').lost := by
  by_cases h : c' = c <;> simp [setStop, setConnection, h]

@[simp] theorem setStop_exited (st : Upstream) (c c' : ℕ) :
    ((st.setStop c).connections c').exited = (st.connections c').exited := by
  by_cases h : c' = c <;> simp [setStop, setConnection, h]

/-- A caller that gets `_lock` goes on with the session there is, tears down what has
already ended, or waits for the end of the connection task. -/
theorem acquired_cases (st : Upstream) (i : ℕ) (s : Section) :
    (s = .connect false ∧ st.session.isSome ∧ st.acquired i s = st.proceed i false) ∨
    (¬(s = .connect false ∧ st.session.isSome) ∧
      ((st.task = none ∧ st.acquired i s = { st with lock := some i }.torn i s) ∨
        ∃ c, st.task = some c ∧
          ((st.connections c).phase = .finished ∧
              st.acquired i s = ({ st with lock := some i }.setStop c).torn i s ∨
            (st.connections c).phase ≠ .finished ∧
              st.acquired i s =
                ({ st with lock := some i }.setStop c).move i (.tearing s c)))) := by
  simp only [acquired]
  split
  · next h => exact Or.inl ⟨h.1, h.2, rfl⟩
  · next h =>
      refine Or.inr ⟨h, ?_⟩
      simp only [teardownLocked]
      cases htask : st.task with
      | none => exact Or.inl ⟨rfl, by simp only⟩
      | some c =>
          refine Or.inr ⟨c, rfl, ?_⟩
          by_cases hfinished : (st.connections c).phase = .finished
          · exact Or.inl ⟨hfinished, by simp only [if_pos hfinished]⟩
          · exact Or.inr ⟨hfinished, by simp only [if_neg hfinished]⟩

/-- Between the two states caller `i` has run: the other callers and their requests are as
they were. -/
structure Aside (i : ℕ) (st st' : Upstream) : Prop where
  others : ∀ j, j ≠ i → st'.callers j = st.callers j
  requestCount : st.requestCount ≤ st'.requestCount
  requests : ∀ r, r < st.requestCount → (st.requests r).caller ≠ i →
    st'.requests r = st.requests r

/-- Caller `i` has run, and it stayed outside the sections. -/
structure Outside (i : ℕ) (st st' : Upstream) : Prop extends Aside i st st' where
  session : st'.session = st.session
  task : st'.task = st.task
  lock : st'.lock = st.lock
  connections : st'.connections = st.connections
  connectionCount : st'.connectionCount = st.connectionCount
  free : (st'.callers i).phase.holds = false

/-- A caller in a section has not moved. -/
theorem Outside.phase_eq (h : Outside i st st') (hfree : (st.callers i).phase.holds = false)
    {j : ℕ} (hj : (st'.callers j).phase.holds = true ∨ (st.callers j).phase.holds = true) :
    (st'.callers j).phase = (st.callers j).phase := by
  by_cases hji : j = i
  · subst hji
    simp [h.free, hfree] at hj
  · rw [h.others j hji]

/-- A caller moves. -/
theorem aside_move (st : Upstream) (phase : CallerPhase) : Aside i st (st.move i phase) :=
  ⟨fun _ hj => Function.update_of_ne hj _ _, le_rfl, fun _ _ _ => rfl⟩

/-- A caller moves to a place outside the sections. -/
theorem outside_move (st : Upstream) {phase : CallerPhase} (h : phase.holds = false) :
    Outside i st (st.move i phase) :=
  { aside_move st phase with
    session := rfl, task := rfl, lock := rfl, connections := rfl, connectionCount := rfl
    free := by simpa using h }

/-- A failed attempt. -/
theorem outside_fail (st : Upstream) (retry : Bool) (a : Attempt) :
    Outside i st (st.fail i retry a) where
  others _ hj := Function.update_of_ne hj _ _
  requestCount := le_rfl
  requests _ _ _ := rfl
  session := rfl
  task := rfl
  lock := rfl
  connections := rfl
  connectionCount := rfl
  free := by simp [fail, CallerPhase.holds]

/-- A caller enters. -/
theorem outside_enter (st : Upstream) (op : Operation) :
    Outside i st { st with
      callers := Function.update st.callers i ⟨op, .acquiring op.section, []⟩ } where
  others _ hj := Function.update_of_ne hj _ _
  requestCount := le_rfl
  requests _ _ _ := rfl
  session := rfl
  task := rfl
  lock := rfl
  connections := rfl
  connectionCount := rfl
  free := by simp [CallerPhase.holds]

/-- An answered attempt. -/
theorem outside_answer (st : Upstream) (result : CallToolResult) :
    Outside i st (st.answer i result) where
  others _ hj := Function.update_of_ne hj _ _
  requestCount := le_rfl
  requests _ _ _ := rfl
  session := rfl
  task := rfl
  lock := rfl
  connections := rfl
  connectionCount := rfl
  free := by simp [answer, CallerPhase.holds]

/-- A request is made, and then its caller goes on. -/
theorem outside_dispatch {session : ℕ} {tool : Str} {arguments : Arguments}
    (h : Outside i (st.dispatch i session tool arguments) st') : Outside i st st' :=
  { h with
    requestCount := (Nat.le_succ _).trans h.requestCount
    requests := fun r hr hcaller => by
      have hold : (st.dispatch i session tool arguments).requests r = st.requests r :=
        Function.update_of_ne hr.ne _ _
      rw [← hold]
      exact h.requests r (Nat.lt_succ_of_lt hr) (by rwa [hold]) }

/-- The start of a race, or a return. -/
theorem outside_proceed (st : Upstream) (retry : Bool) : Outside i st (st.proceed i retry) := by
  simp only [proceed]
  split
  · split
    · exact outside_fail st retry _
    · exact outside_dispatch (outside_fail _ retry _)
    · exact outside_dispatch (outside_move _ rfl)
  · exact outside_move st rfl

/-- Where `proceed` leads a call: to a failed attempt where there is no session, and else
to a race on a new request. -/
theorem proceed_call {tool : Str} {arguments : Arguments} (retry : Bool)
    (hop : (st.callers i).operation = .call tool arguments) :
    (st.session = none ∧ st.proceed i retry = st.fail i retry .noAnswer) ∨
      ∃ session, st.session = some session ∧
        (st.task = none ∧
            st.proceed i retry = (st.dispatch i session tool arguments).fail i retry .noAnswer ∨
          ∃ owner, st.task = some owner ∧ st.proceed i retry =
            (st.dispatch i session tool arguments).move i
              (.racing retry st.requestCount owner)) := by
  simp only [proceed]
  rw [hop]
  cases hsession : st.session with
  | none => exact Or.inl ⟨rfl, rfl⟩
  | some session =>
      cases htask : st.task with
      | none => exact Or.inr ⟨session, rfl, Or.inl ⟨rfl, rfl⟩⟩
      | some owner => exact Or.inr ⟨session, rfl, Or.inr ⟨owner, rfl, rfl⟩⟩

/-- Where `proceed` leads what is not a call. -/
theorem proceed_of_not_call (retry : Bool)
    (hop : ∀ tool arguments, (st.callers i).operation ≠ .call tool arguments) :
    st.proceed i retry = st.move i (.returned none) := by
  unfold proceed
  split
  · next tool arguments h => exact absurd h (hop tool arguments)
  · rfl

/-- The end of a teardown. -/
theorem aside_torn (st : Upstream) (s : Section) : Aside i st (st.torn i s) := by
  simp only [torn]
  cases s <;> exact ⟨fun _ hj => Function.update_of_ne hj _ _, le_rfl, fun _ _ _ => rfl⟩

/-- A caller that gets `_lock` runs alone. -/
theorem aside_acquired (st : Upstream) (s : Section) : Aside i st (st.acquired i s) := by
  rcases acquired_cases st i s with ⟨-, -, heq⟩ | ⟨-, ⟨-, heq⟩ | ⟨c, -, ⟨-, heq⟩ | ⟨-, heq⟩⟩⟩
  · rw [heq]
    exact (outside_proceed st false).toAside
  · rw [heq]
    exact { aside_torn { st with lock := some i } s with }
  · rw [heq]
    exact { aside_torn ({ st with lock := some i }.setStop c) s with }
  · rw [heq]
    exact { aside_move ({ st with lock := some i }.setStop c) _ with }

/-- The end of a failed connection attempt. -/
theorem outside_connectFailed (st : Upstream) (retry : Bool) (c : ℕ) :
    Outside i (st.release.setConnection c { st.connections c with stop := true, exited := true })
      (st.connectFailed i retry c) := by
  unfold connectFailed
  dsimp only
  split
  · exact outside_move _ rfl
  · split
    · exact outside_fail _ _ _
    · exact outside_move _ rfl

/-- The callers that do not run stay as they were. -/
theorem callers_of_step {a : UpstreamAction} (hstep : upstream.step st a = some st') {j : ℕ}
    (hj : a.caller ≠ some j) : st'.callers j = st.callers j := by
  have hne : ∀ {i : ℕ}, a.caller = some i → j ≠ i := fun hi h => hj (h ▸ hi)
  cases a with
  | enter i op =>
      obtain ⟨-, rfl⟩ := step_enter hstep
      exact (outside_enter st op).others j (hne rfl)
  | acquire i =>
      obtain ⟨s, -, -, rfl⟩ := step_acquire hstep
      exact (aside_acquired st s).others j (hne rfl)
  | torn i =>
      obtain ⟨s, c, -, -, rfl⟩ := step_torn hstep
      exact (aside_torn st s).others j (hne rfl)
  | connected i =>
      obtain ⟨retry, c, -, ⟨-, rfl⟩ | ⟨-, rfl⟩⟩ := step_connected hstep
      · exact (outside_proceed { st with task := some c, lock := none } retry).others j (hne rfl)
      · exact (outside_connectFailed st retry c).others j (hne rfl)
  | raced i =>
      obtain ⟨retry, r, owner, -, ⟨result, -, rfl⟩ | ⟨f, -, rfl⟩ | ⟨-, -, rfl⟩⟩ := step_raced hstep
      · exact (outside_answer st result).others j (hne rfl)
      · exact (outside_fail st retry _).others j (hne rfl)
      · exact (outside_fail (st.setRequest r _) retry _).others j (hne rfl)
  | cancel i =>
      rcases step_cancel hstep with ⟨-, rfl⟩ | ⟨s, c, -, ⟨-, rfl⟩ | rfl⟩ | ⟨retry, c, -, rfl⟩
      · exact (aside_move st .cancelled).others j (hne rfl)
      · exact (aside_move st.release .cancelled).others j (hne rfl)
      · simp only [cancelConnection]
        split <;> rfl
      · exact (aside_move (st.release.setConnection c _) .cancelled).others j (hne rfl)
  | start _ | opened _ _ | openFail _ | die _ | stopped _ | finish _ | send _ | reply _ _
  | callRaise _ _ =>
      obtain ⟨c, k, session, tools, rfl⟩ | ⟨r, x, -, -, -, -, -, -, rfl⟩ :=
        step_of_no_caller rfl hstep
      · rfl
      · rfl

end Upstream

end AgentOpsGateway
