import AgentOpsGateway.Channel
import AgentOpsGateway.Endpoint

/-!
# Reading the Body Ahead

Where authentication fails, the endpoint reads the body before the session manager does, and
hands the manager a `receive` that plays the messages back and then goes on with the channel.
The channel is any callable with a state of its own, and may stop answering.

## Main results

* `foldl_receive`: the exchange of the endpoint reads what `_buffer_body` reads.
* `body_buffer_transparent`: **the manager receives the messages as they came**, the body is
  all that was read, and what the request is taken for depends on nothing else.
-/

namespace AgentOpsGateway

open Python

/-- An ASGI message, with the keys that it has. -/
structure AsgiMessage where
  type : Str
  body : Option Bytes := none
  moreBody : Option Bool := none
  deriving DecidableEq

namespace AsgiMessage

/-- `message.get("body", b"")`. -/
def bodyBytes (m : AsgiMessage) : Bytes := m.body.getD []

/-- `message.get("more_body")` is true. -/
def hasMore (m : AsgiMessage) : Bool := m.moreBody.getD false

end AsgiMessage

section

variable {σ : Type*} (receive : σ → Option (AsgiMessage × σ))

/-- The loop of `_buffer_body`, for at most so many turns. -/
def bufferLoop : ℕ → List AsgiMessage → Bytes → σ → Option (Bytes × List AsgiMessage × σ)
  | 0, _, _, _ => none
  | turns + 1, messages, body, channel =>
    match receive channel with
    | none => none
    | some (message, channel) =>
      let messages := messages ++ [message]
      let body := body ++ message.bodyBytes
      if message.hasMore then bufferLoop turns messages body channel
      else some (body, messages, channel)

/-- `_buffer_body(receive)`: the body, and the state of `replaying_receive`. -/
def bufferBody (turns : ℕ) (channel : σ) : Option (Bytes × List AsgiMessage × σ) :=
  bufferLoop receive turns [] [] channel

/-- `replaying_receive()`: the next of the messages kept, and then the channel. -/
def replayingReceive : List AsgiMessage × σ → Option (AsgiMessage × (List AsgiMessage × σ))
  | (message :: replay, channel) => some (message, (replay, channel))
  | ([], channel) => (receive channel).map fun (message, channel) => (message, ([], channel))

/-- The messages that the first `n` calls of a `receive` return. -/
abbrev received := Channel.outputs receive

variable {receive}

/-- The replacement is the replay of the channel. -/
theorem replayingReceive_eq : replayingReceive receive = Channel.replay receive := by
  funext ⟨messages, channel⟩
  cases messages <;> rfl

/-- The loop reads ahead and keeps what it has. -/
theorem bufferLoop_eq (turns : ℕ) (messages : List AsgiMessage) (body : Bytes) (channel : σ) :
    bufferLoop receive turns messages body channel =
      (Channel.readAhead receive AsgiMessage.hasMore turns channel).map fun r =>
        (body ++ r.1.flatMap AsgiMessage.bodyBytes, messages ++ r.1, r.2) := by
  induction turns generalizing messages body channel with
  | zero => rfl
  | succ turns ih =>
      simp only [bufferLoop, Channel.readAhead]
      cases receive channel with
      | none => rfl
      | some r =>
          by_cases hmore : r.1.hasMore = true
          · simp only [hmore, if_true, ih, Option.map_map]
            refine congrArg (fun f => Option.map f _) (funext fun q => ?_)
            simp
          · simp [hmore]

/-- What `_buffer_body` returns is what it has read ahead. -/
theorem bufferBody_eq (turns : ℕ) (channel : σ) :
    bufferBody receive turns channel =
      (Channel.readAhead receive AsgiMessage.hasMore turns channel).map fun r =>
        (r.1.flatMap AsgiMessage.bodyBytes, r) := by
  rw [bufferBody, bufferLoop_eq]
  rfl

/-- What `_buffer_body` returns, and how it came to it. -/
theorem bufferBody_eq_some_iff {turns : ℕ} {channel rest : σ} {body : Bytes}
    {messages : List AsgiMessage} :
    bufferBody receive turns channel = some (body, messages, rest) ↔
      Channel.readAhead receive AsgiMessage.hasMore turns channel = some (messages, rest) ∧
        body = messages.flatMap AsgiMessage.bodyBytes := by
  rw [bufferBody_eq, Option.map_eq_some_iff]
  constructor
  · rintro ⟨r, hr, heq⟩
    obtain ⟨rfl, rfl⟩ := Prod.mk.inj heq
    exact ⟨hr, rfl⟩
  · rintro ⟨hr, rfl⟩
    exact ⟨_, hr, rfl⟩

end

/-! ### The endpoint's messages -/

/-- The message as the endpoint takes it. -/
def AsgiMessage.view (m : AsgiMessage) : ReceiveMessage :=
  match m.body, m.moreBody with
  | none, none => if m.type = lit "http.disconnect" then .disconnect else .request [] false
  | _, _ => .request m.bodyBytes m.hasMore

theorem AsgiMessage.view_body (m : AsgiMessage) : m.view.body = m.bodyBytes := by
  simp only [view]
  split
  · next hbody _ =>
      rw [AsgiMessage.bodyBytes, hbody]
      split <;> rfl
  · rfl

theorem AsgiMessage.view_moreBody (m : AsgiMessage) : m.view.moreBody = m.hasMore := by
  simp only [view]
  split
  · next _ hmore =>
      rw [AsgiMessage.hasMore, hmore]
      split <;> rfl
  · rfl

/-- While there is more, an exchange that reads the body goes on reading. -/
theorem foldl_receive_more {py : Interpreter} {reason : AuthReason} (messages : List AsgiMessage)
    (hmore : ∀ m ∈ messages, m.hasMore = true) {e : HttpExchange}
    (he : e.phase = .buffering reason) :
    (messages.map AsgiMessage.view).foldl (HttpExchange.receive py) e =
      { e with
        buffer := ⟨e.buffer.messages ++ messages.map AsgiMessage.view,
          e.buffer.body ++ messages.flatMap AsgiMessage.bodyBytes⟩ } := by
  induction messages generalizing e with
  | nil => simp
  | cons m messages ih =>
      have hm : m.view.moreBody = true := m.view_moreBody.trans (hmore m List.mem_cons_self)
      have hone : e.receive py m.view = { e with buffer := e.buffer.read m.view } := by
        simp only [HttpExchange.receive, he, hm, if_true]
      have hrest := ih (fun m hm => hmore m (List.mem_cons_of_mem _ hm))
        (e := { e with buffer := e.buffer.read m.view }) he
      rw [List.map_cons, List.foldl_cons, hone, hrest]
      simp [Buffer.read, AsgiMessage.view_body]

/-- **The exchange reads what `_buffer_body` reads**, and judges the request by it. -/
theorem foldl_receive {σ : Type*} {receive : σ → Option (AsgiMessage × σ)} {py : Interpreter}
    {reason : AuthReason} {turns : ℕ} {channel rest : σ} {body : Bytes}
    {messages : List AsgiMessage}
    (h : bufferBody receive turns channel = some (body, messages, rest)) {e : HttpExchange}
    (he : e.phase = .buffering reason) (hempty : e.buffer = {}) :
    (messages.map AsgiMessage.view).foldl (HttpExchange.receive py) e =
      HttpExchange.judge py reason
        { e with buffer := ⟨messages.map AsgiMessage.view, body⟩ } := by
  obtain ⟨hread, rfl⟩ := bufferBody_eq_some_iff.mp h
  obtain ⟨-, before, last, rfl, hbefore, hlast⟩ := Channel.readAhead_spec hread
  have hend : last.view.moreBody = false := last.view_moreBody.trans hlast
  rw [List.map_append, List.foldl_append, foldl_receive_more before hbefore he]
  simp only [List.map_cons, List.map_nil, List.foldl_cons, List.foldl_nil, HttpExchange.receive,
    he, hend, Bool.false_eq_true, if_false, hempty]
  simp [Buffer.read, AsgiMessage.view_body]

/-! ### Transparency -/

/-- **Reading the body ahead is transparent.** `_buffer_body` returns where a message ends the
body, and what it returns does not depend on how long it may take. The replacement gives the
messages of the channel from the first on, however often it is called and whatever comes after
the request; the body is all that was read, up to the first message with no more after it. The
exchange that is given these messages is judged by this body, and two channels with the same
bytes, in whatever parts, are classified alike. -/
theorem body_buffer_transparent {σ : Type*} (receive : σ → Option (AsgiMessage × σ))
    (channel : σ) :
    (∀ turns, (bufferBody receive turns channel).isSome = true ↔
      ∃ m ∈ received receive turns channel, m.hasMore = false) ∧
    (∀ turns turns' result, turns ≤ turns' → bufferBody receive turns channel = some result →
      bufferBody receive turns' channel = some result) ∧
    ∀ turns body messages rest,
      bufferBody receive turns channel = some (body, messages, rest) →
      (∀ n, received (replayingReceive receive) n (messages, rest) =
        received receive n channel) ∧
      body = (received receive messages.length channel).flatMap AsgiMessage.bodyBytes ∧
      (∃ before last, received receive messages.length channel = before ++ [last] ∧
        (∀ m ∈ before, m.hasMore = true) ∧ last.hasMore = false) ∧
      (∀ py reason (e : HttpExchange), e.phase = .buffering reason → e.buffer = {} →
        (messages.map AsgiMessage.view).foldl (HttpExchange.receive py) e =
          HttpExchange.judge py reason
            { e with buffer := ⟨messages.map AsgiMessage.view, body⟩ }) ∧
      ∀ {τ : Type*} (receive' : τ → Option (AsgiMessage × τ)) (channel' : τ) turns' body'
        messages' rest',
        bufferBody receive' turns' channel' = some (body', messages', rest') →
        messages.flatMap AsgiMessage.bodyBytes = messages'.flatMap AsgiMessage.bodyBytes →
        ∀ py, isToolsCall py body = isToolsCall py body' := by
  refine ⟨fun turns => ?_, fun turns turns' result hle h => ?_,
    fun turns body messages rest h => ?_⟩
  · rw [bufferBody_eq, Option.isSome_map, Channel.readAhead_isSome_iff]
  · obtain ⟨body, messages, rest⟩ := result
    obtain ⟨hread, rfl⟩ := bufferBody_eq_some_iff.mp h
    exact bufferBody_eq_some_iff.mpr ⟨Channel.readAhead_mono hle hread, rfl⟩
  · obtain ⟨hread, rfl⟩ := bufferBody_eq_some_iff.mp h
    obtain ⟨houtputs, hend⟩ := Channel.readAhead_spec hread
    refine ⟨fun n => ?_, ?_, ?_, fun py reason e he hempty => foldl_receive h he hempty, ?_⟩
    · rw [replayingReceive_eq]
      exact Channel.outputs_replay hread n
    · rw [received, ← houtputs]
    · rw [received, ← houtputs]
      exact hend
    · intro τ receive' channel' turns' body' messages' rest' h' hsame py
      obtain ⟨-, rfl⟩ := bufferBody_eq_some_iff.mp h'
      rw [hsame]

end AgentOpsGateway
