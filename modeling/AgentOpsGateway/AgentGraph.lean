import AgentOpsGateway.DemoAgent

/-!
# Runs of the Demo Agent

The graph goes from the model to the tools and back, as long as the model asks for tools and
no denial is found; with a denial it goes to `bypass` and ends. What the model replies and
what the tools return is arbitrary. A run that is cut off by the recursion limit is the
beginning of a run.

The texts of the agent's own messages are left out: nothing in the graph reads them.

## Main results

* `toolsLoop_eq`: the tools node appends one message for each call, whatever it finds.
* `routed_iff`: **the routing is as it should be in every state of a run exactly where every
  text that is looked at can be read**.
-/

namespace AgentOpsGateway

open Python Transition

/-! ### Messages -/

/-- An entry of `tool_calls`. -/
structure ToolCall where
  name : Str
  args : List (Str × Json)
  id : Str

/-- A message of the conversation. -/
inductive AgentMessage
  | human
  | ai (id : Option Str) (toolCalls : List ToolCall)
  | tool (content : Json) (toolCallId name : Str)

/-- The id that a message has of its own. The graph gives a fresh one to every other. -/
def AgentMessage.id : AgentMessage → Option Str
  | .ai id _ => id
  | .human | .tool _ _ _ => none

/-- `getattr(message, "tool_calls", None)`. -/
def AgentMessage.toolCalls : AgentMessage → List ToolCall
  | .ai _ toolCalls => toolCalls
  | .human | .tool _ _ _ => []

/-- `add_messages` for one message: it takes the place of one with its id, or comes last. -/
def addMessage (messages : List AgentMessage) (m : AgentMessage) : List AgentMessage :=
  match m.id with
  | none => messages ++ [m]
  | some id =>
    match messages.findIdx? fun m => m.id = some id with
    | none => messages ++ [m]
    | some i => messages.set i m

/-- `add_messages(left, right)`. -/
def addMessages (left right : List AgentMessage) : List AgentMessage := right.foldl addMessage left

/-- The tool calls of the last message. -/
def lastToolCalls (messages : List AgentMessage) : List ToolCall :=
  (messages.getLast?.map AgentMessage.toolCalls).getD []

/-! ### The graph -/

/-- `State`. -/
structure GraphState extends AgentState where
  messages : List AgentMessage

/-- Where a run is. -/
inductive AgentNode
  | callModel
  | tools
  | bypass
  /-- `END`. -/
  | ended
  /-- A node has raised. -/
  | failed
  deriving DecidableEq

/-- `route_after_model(state)`. -/
def routeAfterModel (messages : List AgentMessage) : AgentNode :=
  if (lastToolCalls messages).isEmpty then .ended else .tools

/-- The node that follows the tools node. -/
def NextNode.node : NextNode → AgentNode
  | .bypass => .bypass
  | .callModel => .callModel

/-- `ToolMessage(content=text, tool_call_id=call["id"], name=call["name"])`. -/
def toolMessage (call : ToolCall) (result : CallToolResult) : AgentMessage :=
  .tool (resultText result) call.id call.name

/-- The loop of the tools node over its calls and their results. -/
def toolsLoop (py : Interpreter) (out : List AgentMessage) (denial : Option Payload) :
    List (ToolCall × CallToolResult) → Except Raised (List AgentMessage × Option Payload)
  | [] => .ok (out, denial)
  | (call, result) :: rest =>
    let out := out ++ [toolMessage call result]
    if isTruthy denial then toolsLoop py out denial rest
    else
      match extractDenial py (resultText result) with
      | .error e => .error e
      | .ok denial => toolsLoop py out denial rest

/-- `_result_text(alt)[:400]` is possible: what the attribute holds is a text or a list. -/
def canBeCut : Json → Bool
  | .str _ | .arr _ => true
  | .null | .bool _ | .int _ | .float _ | .obj _ => false

/-- What has happened in a run. -/
inductive AgentEvent
  | model (reply : AgentMessage)
  | tools (calls : List ToolCall) (results : List CallToolResult)
  | bypass (denial : Option Payload)

/-- A run: the state, the node that is next, and what has happened. -/
structure AgentRun where
  state : GraphState
  node : AgentNode
  history : List AgentEvent

/-- What comes from outside: a reply of the model, the results of the tool calls, and the
result of the alternative. -/
inductive AgentAction
  | reply (id : Option Str) (toolCalls : List ToolCall)
  | results (results : List CallToolResult)
  | alternative (result : CallToolResult)

/-- The run that `main` starts. -/
def AgentRun.init : AgentRun :=
  { state := { messages := [.human], denial := none, bypassDone := false }
    node := .callModel
    history := [] }

/-- The node `call_model` and the edge behind it. -/
def AgentRun.callModel (run : AgentRun) (reply : AgentMessage) : AgentRun :=
  let messages := addMessages run.state.messages [reply]
  { state := { run.state with messages := messages }
    node := routeAfterModel messages
    history := run.history ++ [.model reply] }

/-- The node `tools` and the edge behind it. -/
def AgentRun.tools (py : Interpreter) (run : AgentRun) (results : List CallToolResult) : AgentRun :=
  let calls := lastToolCalls run.state.messages
  let history := run.history ++ [.tools calls results]
  match toolsLoop py [] none (calls.zip results) with
  | .error _ => { run with node := .failed, history := history }
  | .ok (out, denial) =>
    let state : GraphState :=
      { run.state with messages := addMessages run.state.messages out, denial := denial }
    { state := state, node := (routeAfterTools state.toAgentState).node, history := history }

/-- The node `bypass` and the edge behind it. -/
def AgentRun.bypass (run : AgentRun) (result : CallToolResult) : AgentRun :=
  let history := run.history ++ [.bypass run.state.denial]
  if canBeCut (resultText result) then
    { state :=
        { run.state with
          messages := addMessages run.state.messages [.ai none []]
          bypassDone := true }
      node := .ended
      history := history }
  else { run with node := .failed, history := history }

/-- The compiled graph, with anything from outside. -/
def agentGraph (py : Interpreter) : System AgentRun AgentAction where
  step run a :=
    match run.node, a with
    | .callModel, .reply id toolCalls => some (run.callModel (.ai id toolCalls))
    | .tools, .results results =>
      if results.length = (lastToolCalls run.state.messages).length then
        some (run.tools py results)
      else none
    | .bypass, .alternative result => some (run.bypass result)
    | _, _ => none

/-! ### The tools node -/

variable {py : Interpreter}

/-- **One message for each call**, in order; the denial is the one of the loop over the
results. -/
theorem toolsLoop_eq (out : List AgentMessage) (denial : Option Payload)
    (pairs : List (ToolCall × CallToolResult)) :
    toolsLoop py out denial pairs =
      (toolsFrom py denial (pairs.map Prod.snd)).map fun denial =>
        (out ++ pairs.map (fun p => toolMessage p.1 p.2), denial) := by
  induction pairs generalizing out denial with
  | nil => simp [toolsLoop, toolsFrom, Except.map]
  | cons p pairs ih =>
      simp only [toolsLoop, List.map_cons, toolsFrom]
      split
      · simp [ih]
      · cases extractDenial py (resultText p.2) with
        | error e => rfl
        | ok denial => simp [ih]

/-- Messages without an id come last. -/
theorem addMessages_eq_append {left right : List AgentMessage} (h : ∀ m ∈ right, m.id = none) :
    addMessages left right = left ++ right := by
  induction right generalizing left with
  | nil => simp [addMessages]
  | cons m right ih =>
      have hm : addMessage left m = left ++ [m] := by
        rw [addMessage, h m List.mem_cons_self]
      have hrest := @ih (left ++ [m]) fun m hm => h m (List.mem_cons_of_mem _ hm)
      rw [addMessages, List.foldl_cons, hm]
      simpa [addMessages] using hrest

/-! ### What is looked at -/

/-- The payload that the agent recognises in a result. -/
def recognised (py : Interpreter) (result : CallToolResult) : Option Payload :=
  match extractDenial py (resultText result) with
  | .ok denial => denial
  | .error _ => none

/-- The first denial of a batch. -/
def firstDenial (py : Interpreter) (results : List CallToolResult) : Option Payload :=
  results.findSome? (recognised py)

/-- Every text that the tools node looks at can be read: the texts up to the first denial. -/
def AllRead (py : Interpreter) : List CallToolResult → Prop
  | [] => True
  | result :: results => ¬TooNested py result ∧ (recognised py result = none → AllRead py results)

/-- A payload that is taken for a denial has the code of one. -/
theorem code_of_extractDenial {text : Json} {payload : Payload}
    (h : extractDenial py text = .ok (some payload)) :
    dictGet (lit "code") payload = some (.str (lit "POLICY_DENIED")) := by
  cases text with
  | str text =>
      cases hload : loads (py.spareLevels + 1) text with
      | error e => cases e <;> simp [extractDenial, hload] at h
      | ok value =>
          cases value with
          | obj fields =>
              cases hget : dictGet (lit "code") fields with
              | none => simp [extractDenial, hload, hget] at h
              | some code =>
                  cases code with
                  | str code =>
                      simp only [extractDenial, hload, hget, Except.ok.injEq] at h
                      split at h
                      · next hcode =>
                          obtain rfl := Option.some.inj h
                          rw [hget, hcode]
                      · cases h
                  | _ => simp [extractDenial, hload, hget] at h
          | _ => simp [extractDenial, hload] at h
  | _ => simp [extractDenial] at h

/-- A denial that is recognised is not empty. -/
theorem isTruthy_of_extractDenial {text : Json} {payload : Payload}
    (h : extractDenial py text = .ok (some payload)) : isTruthy (some payload) = true := by
  cases payload with
  | nil =>
      have hcode := code_of_extractDenial h
      cases hcode
  | cons _ _ => rfl

/-- A text that can be read is recognised or not. -/
theorem extractDenial_eq_recognised {result : CallToolResult} (h : ¬TooNested py result) :
    extractDenial py (resultText result) = .ok (recognised py result) := by
  rw [← (extractDenial_cases py result).2] at h
  simp only [recognised]
  cases hextract : extractDenial py (resultText result) with
  | error e => exact absurd ⟨e, hextract⟩ h
  | ok denial => rfl

/-- **The tools node finds the first denial of its batch** where it can read what it looks
at, and raises where it cannot. Induction on the batch. -/
theorem toolsNode_cases (results : List CallToolResult) :
    (AllRead py results ∧ toolsNode py results = .ok (firstDenial py results)) ∨
      (¬AllRead py results ∧ ∃ e, toolsNode py results = .error e) := by
  simp only [toolsNode]
  induction results with
  | nil => exact .inl ⟨trivial, rfl⟩
  | cons result results ih =>
      have hstep : toolsFrom py none (result :: results) =
          (extractDenial py (resultText result)).bind fun denial =>
            toolsFrom py denial results := by
        rw [toolsFrom, if_neg (by decide)]
        cases extractDenial py (resultText result) <;> rfl
      rw [hstep, firstDenial, List.findSome?_cons, AllRead]
      by_cases hnested : TooNested py result
      · obtain ⟨e, he⟩ := (extractDenial_cases py result).2.mpr hnested
        exact .inr ⟨fun h => h.1 hnested, e, by rw [he]; rfl⟩
      · have hextract := extractDenial_eq_recognised hnested
        rw [hextract, Except.bind]
        cases hrecognised : recognised py result with
        | some payload =>
            rw [hrecognised] at hextract
            left
            refine ⟨⟨hnested, by simp⟩, ?_⟩
            exact toolsFrom_of_truthy (isTruthy_of_extractDenial hextract) results
        | none =>
            rcases ih with ⟨hread, hok⟩ | ⟨hread, he⟩
            · exact .inl ⟨⟨hnested, fun _ => hread⟩, hok⟩
            · exact .inr ⟨fun h => hread (h.2 rfl), he⟩

/-! ### How a run should go -/

/-- The messages after an event: a reply of the model is added, a batch adds one message for
each of its calls, in order and with its id, and the node `bypass` adds its report. -/
def AgentEvent.after (messages : List AgentMessage) : AgentEvent → List AgentMessage
  | .model reply => addMessages messages [reply]
  | .tools calls results => messages ++ List.zipWith toolMessage calls results
  | .bypass _ => messages ++ [.ai none []]

/-- The messages that a history makes. -/
def messagesOf (history : List AgentEvent) : List AgentMessage :=
  history.foldl AgentEvent.after [.human]

/-- An event before any denial: a reply of the model, or a batch without a denial. -/
def AgentEvent.Quiet (py : Interpreter) : AgentEvent → Prop
  | .model _ => True
  | .tools _ results => firstDenial py results = none
  | .bypass _ => False

/-- No denial so far: the model is asked, or its tools are called, or the run has ended with
its answer. -/
def AgentRun.Undenied (py : Interpreter) (run : AgentRun) : Prop :=
  (∀ e ∈ run.history, e.Quiet py) ∧ run.state.bypassDone = false ∧
    (run.node = .callModel ∨ run.node = .tools ∨ run.node = .ended)

/-- The last batch is the first with a denial, and `bypass` is next, with the first denial of
the batch. -/
def AgentRun.Denied (py : Interpreter) (run : AgentRun) : Prop :=
  ∃ before calls results denial, run.history = before ++ [.tools calls results] ∧
    (∀ e ∈ before, e.Quiet py) ∧ firstDenial py results = some denial ∧
    run.state.denial = some denial ∧ run.node = .bypass

/-- The run has ended with `bypass`, behind the first batch with a denial. -/
def AgentRun.Bypassed (py : Interpreter) (run : AgentRun) : Prop :=
  ∃ before calls results denial,
    run.history = before ++ [.tools calls results, .bypass (some denial)] ∧
      (∀ e ∈ before, e.Quiet py) ∧ firstDenial py results = some denial ∧ run.node = .ended

/-- A run as it should be. -/
structure AgentRun.Routed (py : Interpreter) (run : AgentRun) : Prop where
  /-- Every event has added its messages, and nothing else has. -/
  messages : run.state.messages = messagesOf run.history
  /-- A batch answers the calls of the last message before it, one result each. -/
  batches : ∀ before calls results after, run.history = before ++ .tools calls results :: after →
    calls = lastToolCalls (messagesOf before) ∧ results.length = calls.length
  routed : run.Undenied py ∨ run.Denied py ∨ run.Bypassed py

/-- What a step looks at can be read: the texts of a batch up to its first denial, and the
text of the alternative, which has to be a text or a list. -/
def AgentAction.Reads (py : Interpreter) : AgentAction → Prop
  | .reply _ _ => True
  | .results batch => AllRead py batch
  | .alternative answer => canBeCut (resultText answer) = true

theorem AgentRun.routed_init : AgentRun.init.Routed py :=
  ⟨rfl, fun before _ _ _ h => by simp [AgentRun.init] at h,
    .inl ⟨fun _ h => absurd h List.not_mem_nil, rfl, .inl rfl⟩⟩

/-! ### One step -/

/-- The first denial of a batch is not empty. -/
theorem isTruthy_firstDenial {results : List CallToolResult} {denial : Payload}
    (h : firstDenial py results = some denial) : isTruthy (some denial) = true := by
  obtain ⟨result, -, hresult⟩ := List.exists_of_findSome?_eq_some h
  simp only [recognised] at hresult
  split at hresult
  · next hextract =>
      rw [hresult] at hextract
      exact isTruthy_of_extractDenial hextract
  · simp at hresult

theorem messagesOf_concat (history : List AgentEvent) (e : AgentEvent) :
    messagesOf (history ++ [e]) = e.after (messagesOf history) := by
  rw [messagesOf, List.foldl_append]
  rfl

/-- A history that has grown by one event has its old batches, and the new one if it is a
batch. -/
theorem batches_concat {history : List AgentEvent} {e : AgentEvent}
    (h : ∀ before calls results after, history = before ++ .tools calls results :: after →
      calls = lastToolCalls (messagesOf before) ∧ results.length = calls.length)
    (he : ∀ calls results, e = .tools calls results →
      calls = lastToolCalls (messagesOf history) ∧ results.length = calls.length) :
    ∀ before calls results after, history ++ [e] = before ++ .tools calls results :: after →
      calls = lastToolCalls (messagesOf before) ∧ results.length = calls.length := by
  intro before calls results after heq
  rcases List.eq_nil_or_concat after with rfl | ⟨after, last, rfl⟩
  · obtain ⟨rfl, hlast⟩ := List.append_inj' heq rfl
    exact he calls results (List.cons.inj hlast).1
  · rw [List.concat_eq_append, ← List.cons_append, ← List.append_assoc] at heq
    exact h before calls results after (List.append_inj' heq rfl).1

theorem quiet_concat {history : List AgentEvent} {e : AgentEvent}
    (h : ∀ e ∈ history, e.Quiet py) (he : e.Quiet py) : ∀ e' ∈ history ++ [e], e'.Quiet py := by
  intro e' he'
  rcases List.mem_append.mp he' with he' | he'
  · exact h e' he'
  · exact List.mem_singleton.mp he' ▸ he

/-- A run as it should be has not failed. -/
theorem AgentRun.Routed.node_ne_failed {run : AgentRun} (h : run.Routed py) :
    run.node ≠ .failed := by
  obtain ⟨-, -, hnode | hnode | hnode⟩ | ⟨-, -, -, -, -, -, -, -, hnode⟩ |
      ⟨-, -, -, -, -, -, -, hnode⟩ := h.routed <;>
    simp [hnode]

/-- A reply of the model keeps a run as it should be. -/
theorem AgentRun.Routed.callModel {run : AgentRun} (h : run.Routed py)
    (hnode : run.node = .callModel) (reply : AgentMessage) : (run.callModel reply).Routed py := by
  refine ⟨?_, batches_concat h.batches (by simp), ?_⟩
  · rw [AgentRun.callModel, messagesOf_concat, ← h.messages]
    rfl
  · obtain ⟨hquiet, hdone, -⟩ | ⟨-, -, -, -, -, -, -, -, hbypass⟩ | ⟨-, -, -, -, -, -, -, hended⟩ :=
      h.routed
    · refine .inl ⟨?_, hdone, ?_⟩
      · exact quiet_concat hquiet trivial
      · simp only [AgentRun.callModel, routeAfterModel]
        split
        · exact .inr (.inr rfl)
        · exact .inr (.inl rfl)
    · rw [hnode] at hbypass
      cases hbypass
    · rw [hnode] at hended
      cases hended

/-- What the tools node does: where it can read what it looks at, it adds one message for
each call and stores the first denial; otherwise it raises. -/
theorem AgentRun.tools_cases {run : AgentRun} {results : List CallToolResult}
    (hlength : results.length = (lastToolCalls run.state.messages).length) :
    (AllRead py results ∧ (run.tools py results).state.messages =
        run.state.messages ++ List.zipWith toolMessage (lastToolCalls run.state.messages) results ∧
      (run.tools py results).state.denial = firstDenial py results ∧
      (run.tools py results).state.bypassDone = run.state.bypassDone ∧
      (run.tools py results).node =
        if isTruthy (firstDenial py results) && !run.state.bypassDone then .bypass
        else .callModel) ∨
    ¬AllRead py results ∧ (run.tools py results).node = .failed := by
  have hsnd : ((lastToolCalls run.state.messages).zip results).map Prod.snd = results :=
    List.map_snd_zip hlength.le
  have hloop := @toolsLoop_eq py [] none ((lastToolCalls run.state.messages).zip results)
  rw [hsnd] at hloop
  simp only [AgentRun.tools, hloop]
  obtain ⟨hread, hok⟩ | ⟨hread, e, he⟩ := @toolsNode_cases py results
  · left
    rw [toolsNode] at hok
    simp only [hok, Except.map, List.nil_append]
    refine ⟨hread, ?_, trivial, trivial, ?_⟩
    · rw [addMessages_eq_append]
      · rw [List.zip_eq_zipWith, List.map_zipWith]
      · intro m hm
        obtain ⟨p, -, rfl⟩ := List.mem_map.mp hm
        rfl
    · simp only [routeAfterTools]
      split <;> rfl
  · right
    rw [toolsNode] at he
    simp only [he, Except.map]
    exact ⟨hread, trivial⟩

/-- **A batch** keeps a run as it should be exactly where what is looked at can be read. -/
theorem AgentRun.Routed.tools_iff {run : AgentRun} {results : List CallToolResult}
    (h : run.Routed py) (hnode : run.node = .tools)
    (hlength : results.length = (lastToolCalls run.state.messages).length) :
    (run.tools py results).Routed py ↔ AllRead py results := by
  have hhistory : (run.tools py results).history =
      run.history ++ [.tools (lastToolCalls run.state.messages) results] := by
    simp only [AgentRun.tools]
    split <;> rfl
  obtain ⟨hquiet, hdone, -⟩ | ⟨-, -, -, -, -, -, -, -, hbypass⟩ | ⟨-, -, -, -, -, -, -, hended⟩ :=
    h.routed
  · obtain ⟨hread, hmessages, hdenial, hbypassDone, hnext⟩ | ⟨hread, hfailed⟩ :=
      @AgentRun.tools_cases py _ _ hlength
    · refine iff_of_true ⟨?_, ?_, ?_⟩ hread
      · rw [hhistory, messagesOf_concat, ← h.messages, hmessages]
        rfl
      · rw [hhistory]
        refine batches_concat h.batches fun calls results' heq => ?_
        obtain ⟨rfl, rfl⟩ := AgentEvent.tools.inj heq
        exact ⟨congrArg lastToolCalls h.messages, hlength⟩
      · cases hfirst : firstDenial py results with
        | none =>
            rw [hfirst] at hnext
            exact .inl ⟨hhistory ▸ quiet_concat hquiet hfirst, hbypassDone.trans hdone, .inl hnext⟩
        | some denial =>
            rw [hfirst, hdone, isTruthy_firstDenial hfirst] at hnext
            exact .inr (.inl ⟨run.history, _, results, denial, hhistory, hquiet, hfirst,
              hdenial.trans hfirst, hnext⟩)
    · refine iff_of_false (fun hrouted => ?_) hread
      have hnot := hrouted.node_ne_failed
      exact hnot hfailed
  · rw [hnode] at hbypass
    cases hbypass
  · rw [hnode] at hended
    cases hended

/-- **The alternative** ends a run as it should be exactly where its text can be cut. -/
theorem AgentRun.Routed.bypass_iff {run : AgentRun} {result : CallToolResult}
    (h : run.Routed py) (hnode : run.node = .bypass) :
    (run.bypass result).Routed py ↔ canBeCut (resultText result) = true := by
  obtain ⟨-, -, hnext⟩ | ⟨before, calls, results, denial, hhistory, hquiet, hfirst, hdenial, -⟩ |
      ⟨-, -, -, -, -, -, -, hended⟩ := h.routed
  · rw [hnode] at hnext
    simp at hnext
  · by_cases hcut : canBeCut (resultText result) = true
    · refine iff_of_true ⟨?_, ?_, ?_⟩ hcut
      · simp only [AgentRun.bypass, if_pos hcut, messagesOf_concat, h.messages]
        rfl
      · simp only [AgentRun.bypass, if_pos hcut]
        exact batches_concat h.batches (by simp)
      · refine .inr (.inr ⟨before, calls, results, denial, ?_, hquiet, hfirst, ?_⟩)
        · simp only [AgentRun.bypass, if_pos hcut, hdenial, hhistory, List.append_assoc,
            List.cons_append, List.nil_append]
        · simp only [AgentRun.bypass, if_pos hcut]
    · refine iff_of_false (fun hrouted => hrouted.node_ne_failed ?_) hcut
      simp only [AgentRun.bypass, if_neg hcut]
  · rw [hnode] at hended
    cases hended

/-- **One step** keeps a run as it should be exactly where what it looks at can be read. -/
theorem routed_step_iff {run run' : AgentRun} {a : AgentAction} (h : run.Routed py)
    (hstep : (agentGraph py).step run a = some run') : run'.Routed py ↔ a.Reads py := by
  simp only [agentGraph] at hstep
  split at hstep
  · next hnode =>
      obtain rfl := Option.some.inj hstep
      exact iff_of_true (h.callModel hnode _) trivial
  · next results hnode =>
      split at hstep
      · next hlength =>
          obtain rfl := Option.some.inj hstep
          exact h.tools_iff hnode hlength
      · cases hstep
  · next hnode =>
      obtain rfl := Option.some.inj hstep
      exact h.bypass_iff hnode
  · cases hstep

/-! ### Whole runs -/

/-- **The routing of denials.** A run from the initial state is as it should be in every
state exactly where every step can read what it looks at: the texts of each batch up to its
first denial are not nested too deeply, and the result of the alternative has a text that can
be cut. Then every tools step adds one message for each of its calls, in order and with its
id; a batch with a denial is followed by `bypass` with the first denial of the batch, once, and
the run ends there; without one the model goes on, and it is never asked again after a
denial. -/
theorem routed_iff (py : Interpreter) {actions : List AgentAction} {run : AgentRun}
    (hrun : (agentGraph py).exec .init actions = some run) :
    (agentGraph py).Always (AgentRun.Routed py) .init actions ↔
      (agentGraph py).Each (fun _ a => a.Reads py) .init actions :=
  System.always_iff_each (I := fun _ => True) (fun _ _ _ _ _ => trivial)
    (fun _ _ _ _ h hstep => routed_step_iff h hstep) trivial AgentRun.routed_init hrun

/-- A denial as the gateway writes it. -/
def deniedResult : CallToolResult := errorResult .policyDenied []

/-- A result with a plain text. -/
def plainResult : CallToolResult := ⟨false, [.text (lit "ok")]⟩

/-- Two calls, of which the second is denied, and then the alternative. -/
def deniedRun : List AgentAction :=
  [.reply none [⟨lit "docs__search_docs", [], lit "t1"⟩, ⟨lit "ops__query_logs", [], lit "t2"⟩],
    .results [plainResult, deniedResult], .alternative plainResult]

/-- The denial is routed around, and the run ends. -/
theorem routed_deniedRun : ∃ run,
    (agentGraph ⟨100, fun _ => true⟩).exec .init deniedRun = some run ∧
      (agentGraph ⟨100, fun _ => true⟩).Always (AgentRun.Routed ⟨100, fun _ => true⟩) .init
        deniedRun ∧ run.node = .ended ∧ run.state.messages.length = 5 := by
  have hrun : ((agentGraph ⟨100, fun _ => true⟩).exec .init deniedRun).any (fun run =>
      decide (run.node = .ended) && decide (run.state.messages.length = 5)) = true := by
    decide +kernel
  obtain ⟨run, hexec, hend⟩ := (Option.any_eq_true _ _).mp hrun
  rw [Bool.and_eq_true, decide_eq_true_eq, decide_eq_true_eq] at hend
  have hok : (toolsNode ⟨100, fun _ => true⟩ [plainResult, deniedResult]).isOk = true := by
    decide +kernel
  refine ⟨run, hexec, (routed_iff _ hexec).mpr (System.each_of_mem ?_), hend⟩
  simp only [deniedRun, List.forall_mem_cons, List.not_mem_nil, false_implies, implies_true,
    and_true]
  refine ⟨fun _ => trivial, fun _ => ?_, fun _ => rfl⟩
  obtain ⟨hread, -⟩ | ⟨-, e, he⟩ := @toolsNode_cases ⟨100, fun _ => true⟩
    [plainResult, deniedResult]
  · exact hread
  · rw [he] at hok
    cases hok

/-- A text that is nested more deeply than the interpreter can read. -/
def nestedResult : CallToolResult := ⟨false, [.text (List.replicate 200 (ofChar '['))]⟩

/-- **A result that cannot be read** ends the run with an exception: the call gets no message. -/
theorem routed_fails : ¬∀ (py : Interpreter) (actions : List AgentAction) (run : AgentRun),
    (agentGraph py).exec .init actions = some run →
    (agentGraph py).Always (AgentRun.Routed py) .init actions := by
  intro hclaim
  have hrun : ((agentGraph ⟨100, fun _ => true⟩).exec .init
      [.reply none [⟨lit "ops__query_logs", [], lit "t1"⟩], .results [nestedResult]]).any
        (fun run => decide (run.node = .failed)) = true := by decide +kernel
  obtain ⟨run, hexec, hfailed⟩ := (Option.any_eq_true _ _).mp hrun
  exact ((hclaim _ _ run hexec).last hexec).node_ne_failed (of_decide_eq_true hfailed)

end AgentOpsGateway
