import AgentOpsGateway.AuditLog
import AgentOpsGateway.Calendar
import AgentOpsGateway.CallTool

/-!
# The Admin Report and the Metrics

The dashboard counts calls and denials by the labels `call_tool` takes from the name of the
tool; the admin page reads the audit file back and takes the server from the recorded name
once more, by other code.

The counters are kept as the list of their increments, so the sum over all tools is a count
of entries; the `Counter` of the report is kept in the same way.

## Main results

* `App.Ledger.step`: every call leaves an increment and a line that belong together.
* `reports_agree`: **both tell the same story**: the rows of the audit file are the increments
  of `TOOL_CALLS`, label for label, and the denials are counted alike, up to the joining of
  surrogate pairs on the way through the file.
-/

namespace AgentOpsGateway

open Python Transition

/-! ### The report -/

/-- What `summarize_denials` raises. -/
inductive ReportError
  | attributeError
  | typeError
  | overflowError
  deriving DecidableEq

/-- `_server_of(tool)`. -/
def serverOf (tool : Str) : Str :=
  if occursIn (lit "__") tool then (partition (lit "__") tool).1 else tool

/-- The JSON value is the separator. -/
def isSeparator : Json → Bool
  | .str s => s = lit "__"
  | _ => false

/-- `_server_of(…)` of any value that a row can have, as a key of the `Counter`: what is no
string is either not searched, or has no `split`, or is not hashable. -/
def serverOfValue : Json → Except ReportError Str
  | .str tool => .ok (serverOf tool)
  | .arr items => .error (if items.any isSeparator then .attributeError else .typeError)
  | .obj fields =>
    .error (if (dictGet (lit "__") fields).isSome then .attributeError else .typeError)
  | .null | .bool _ | .int _ | .float _ => .error .typeError

/-- The value can be hashed. -/
def isHashable : Json → Bool
  | .arr _ | .obj _ => false
  | .null | .bool _ | .int _ | .float _ | .str _ => true

/-- `_parse_ts(row)`. -/
def parseTs (py : Interpreter) (r : List (Str × Json)) : Option DateTime :=
  match dictGet (lit "ts") r with
  | some (.str ts) => (fromisoformat py ts).toOption
  | _ => none

/-- `ts < cutoff`. -/
def isBefore (ts cutoff : DateTime) : Except ReportError Bool :=
  if ts.offset.isSome = cutoff.offset.isSome then .ok (ts.instant < cutoff.instant)
  else .error .typeError

/-- What the loop of `summarize_denials` counts for one row. -/
def denialKey (py : Interpreter) (cutoff : DateTime) :
    Json → Except ReportError (Option (Json × Str))
  | .obj r =>
    match dictGet (lit "decision") r with
    | some (.str decision) =>
      if decision = lit "denied" then
        match parseTs py r with
        | none => .ok none
        | some ts =>
          match isBefore ts cutoff with
          | .error e => .error e
          | .ok true => .ok none
          | .ok false =>
            match serverOfValue ((dictGet (lit "tool") r).getD (.str (lit "?"))) with
            | .error e => .error e
            | .ok server =>
              let agent := (dictGet (lit "agent") r).getD (.str (lit "?"))
              if isHashable agent then .ok (some (agent, server)) else .error .typeError
      else .ok none
    | _ => .ok none
  | _ => .error .attributeError

/-- The keys that `summarize_denials` counts, in the order of the rows. -/
def denialKeys (py : Interpreter) (cutoff : DateTime) :
    List Json → Except ReportError (List (Json × Str))
  | [] => .ok []
  | row :: rows =>
    match denialKey py cutoff row with
    | .error e => .error e
    | .ok key => (denialKeys py cutoff rows).map (key.toList ++ ·)

/-- `summarize_denials(rows, now, hours)`. -/
def summarizeDenials (py : Interpreter) (rows : List Json) (now : DateTime) (hours : ℤ) :
    Except ReportError (List (Json × Str)) :=
  match now.add (-(hours * 3600000000)) with
  | none => .error .overflowError
  | some cutoff => denialKeys py cutoff rows

/-- The key of the `Counter` is that of the agent and the server. -/
def isKey (agent server : Str) : Json × Str → Bool
  | (.str a, s) => a = agent && s = server
  | _ => false

/-- `counter[(agent, server)]`. -/
def countOf (counter : List (Json × Str)) (agent server : Str) : ℕ :=
  counter.countP (isKey agent server)

/-! ### What is compared -/

/-- The line as the audit file has it. -/
def AuditLine.logLine (line : AuditLine) : LogLine :=
  { ts := line.ts, agent := line.agent, tool := line.tool, argsSummary := line.argsSummary
    decision := line.decision.text, traceId := line.traceId }

/-- The audit file. -/
def App.auditFile (st : App) : Option Str :=
  fileAfter (st.audit.map fun p => p.2.logLine.write)

/-- The label of a tool name. -/
def labelOf (name : Str) : Str × Str := (split name).getD (lit "unknown", name)

/-- The labels that belong to a line. -/
def AuditLine.labels (line : AuditLine) : CallLabels :=
  { agent := line.agent, server := (labelOf line.tool).1, tool := (labelOf line.tool).2
    decision := line.decision }

/-- The sum of `POLICY_DENIED` over all tools of a server. -/
def Metrics.policyDeniedOf (m : Metrics) (agent server : Str) : ℕ :=
  m.policyDenied.countP fun d => d.1 = agent ∧ d.2.1 = server

/-- The sum of `TOOL_CALLS` over all tools of a server, for the decision `denied`. -/
def Metrics.deniedCallsOf (m : Metrics) (agent server : Str) : ℕ :=
  m.toolCalls.countP fun p => p.2.decision = .denied ∧ p.2.agent = agent ∧ p.2.server = server

/-- The agent, the label of the tool name and the decision of a row. -/
def rowCall : Json → Option (Str × (Str × Str) × Str)
  | .obj r =>
    match dictGet (lit "agent") r, dictGet (lit "tool") r, dictGet (lit "decision") r with
    | some (.str agent), some (.str tool), some (.str decision) =>
      some (agent, labelOf tool, decision)
    | _, _, _ => none
  | _ => none

/-- The row is the denial of a call of the agent to the server. -/
def isDenialOf (agent server : Str) : Json → Bool
  | .obj r =>
    match dictGet (lit "agent") r, dictGet (lit "tool") r, dictGet (lit "decision") r with
    | some (.str a), some (.str tool), some (.str decision) =>
      decision = lit "denied" && a = agent && serverOf tool = server
    | _, _, _ => false
  | _ => false

/-- The agent, the label and the decision of an increment. -/
def CallLabels.call (l : CallLabels) : Str × (Str × Str) × Str :=
  (l.agent, (l.server, l.tool), l.decision.text)

/-- The same as they come back from the audit file. -/
def CallLabels.shown (l : CallLabels) : Str × (Str × Str) × Str :=
  (joinSurrogates l.agent, (joinSurrogates l.server, joinSurrogates l.tool), l.decision.text)

/-- No label has a split pair. -/
def CallLabels.Unsplit (l : CallLabels) : Prop :=
  hasSplitPair l.agent = false ∧ hasSplitPair l.server = false ∧ hasSplitPair l.tool = false

/-- Every row is of the last `hours` hours. -/
def InWindow (py : Interpreter) (rows : List Json) (now : DateTime) (hours : ℤ) : Prop :=
  ∃ cutoff, now.add (-(hours * 3600000000)) = some cutoff ∧ ∀ row ∈ rows, ∃ r ts,
    row = .obj r ∧ parseTs py r = some ts ∧ isBefore ts cutoff = .ok false

/-! ### Rows of the audit file -/

/-- A name is split before the round trip as after it. -/
theorem split_joinSurrogates (name : Str) :
    split (joinSurrogates name) = (split name).map (Prod.map joinSurrogates joinSurrogates) := by
  have hbreak := @breakAt_joinSurrogates separator (by decide) (by decide) name
  cases h : breakAt separator name <;> simp [split, occursIn, partition, hbreak, h, Prod.map]

theorem labelOf_joinSurrogates (name : Str) : labelOf (joinSurrogates name) =
    (joinSurrogates (labelOf name).1, joinSurrogates (labelOf name).2) := by
  have hunknown : joinSurrogates (lit "unknown") = lit "unknown" := by decide
  cases h : split name <;> simp [labelOf, split_joinSurrogates, h, hunknown, Prod.map]

/-- Of a name with a prefix, both codes take the same server. -/
theorem serverOf_eq {name : Str} (h : (split name).isSome) : serverOf name = (labelOf name).1 := by
  have hsep : separator = lit "__" := rfl
  simp only [split] at h
  split at h
  · next hoccurs => simp [serverOf, labelOf, split, ← hsep, hoccurs]
  · simp at h

section Rows

variable (line : AuditLine)

/-- The entries of the row of a line. -/
theorem dictGet_logLine :
    dictGet (lit "agent") line.logLine.dict = some (.str (joinSurrogates line.agent)) ∧
      dictGet (lit "tool") line.logLine.dict = some (.str (joinSurrogates line.tool)) ∧
      dictGet (lit "decision") line.logLine.dict = some (.str line.decision.text) := by
  have hdecision := line.logLine.dictGet_dict (p := (lit "decision", line.decision.text))
    (by simp [LogLine.others, AuditLine.logLine])
  rw [joinSurrogates_decision] at hdecision
  refine ⟨line.logLine.dictGet_dict (p := (lit "agent", line.agent)) ?_,
    line.logLine.dictGet_dict (p := (lit "tool", line.tool)) ?_, hdecision⟩ <;>
    simp [LogLine.others, AuditLine.logLine]

/-- The row of a line shows its labels. -/
theorem rowCall_row : rowCall line.logLine.row = some line.labels.shown := by
  obtain ⟨hagent, htool, hdecision⟩ := dictGet_logLine line
  change rowCall (.obj line.logLine.dict) = _
  simp only [rowCall, hagent, htool, hdecision, labelOf_joinSurrogates]
  rfl

theorem denied_text_iff {d : AuditDecision} : d.text = lit "denied" ↔ d = .denied := by
  cases d <;> decide

/-- The row of a line counts as a denial where its labels do. -/
theorem isDenialOf_row (hnamed : line.decision = .denied → (split line.tool).isSome)
    (agent server : Str) : isDenialOf agent server line.logLine.row = true ↔
      line.labels.decision = .denied ∧ joinSurrogates line.labels.agent = agent ∧
        joinSurrogates line.labels.server = server := by
  obtain ⟨hagent, htool, hdecision⟩ := dictGet_logLine line
  change isDenialOf agent server (.obj line.logLine.dict) = true ↔ _
  simp only [isDenialOf, hagent, htool, hdecision, Bool.and_eq_true, decide_eq_true_eq,
    denied_text_iff, and_assoc]
  refine and_congr_right fun hdenied => and_congr_right fun _ => ?_
  have hsome : (split (joinSurrogates line.tool)).isSome := by
    rw [split_joinSurrogates, Option.isSome_map]
    exact hnamed hdenied
  rw [serverOf_eq hsome, labelOf_joinSurrogates]
  rfl

end Rows

/-- **What the report counts of rows in its window** is what their denials are. Induction on
the rows. -/
theorem denialKeys_of_inWindow (py : Interpreter) (cutoff : DateTime) (lines : List AuditLine)
    (hwindow : ∀ row ∈ lines.map fun line => line.logLine.row, ∃ r ts, row = .obj r ∧
      parseTs py r = some ts ∧ isBefore ts cutoff = .ok false) :
    ∃ counter, denialKeys py cutoff (lines.map fun line => line.logLine.row) = .ok counter ∧
      ∀ agent server, countOf counter agent server =
        (lines.map fun line => line.logLine.row).countP (isDenialOf agent server) := by
  induction lines with
  | nil => exact ⟨[], rfl, fun _ _ => rfl⟩
  | cons line lines ih =>
      obtain ⟨counter, hkeys, hcount⟩ :=
        ih fun row hrow => hwindow row (List.mem_cons_of_mem _ hrow)
      obtain ⟨r, ts, hr, hts, hbefore⟩ := hwindow _ List.mem_cons_self
      obtain rfl : line.logLine.dict = r := Json.obj.inj hr
      obtain ⟨hagent, htool, hdecision⟩ := dictGet_logLine line
      have hrow : line.logLine.row = .obj line.logLine.dict := rfl
      have hkey : denialKey py cutoff (.obj line.logLine.dict) = .ok
          (if line.decision.text = lit "denied" then
            some (.str (joinSurrogates line.agent), serverOf (joinSurrogates line.tool))
          else none) := by
        by_cases hdenied : line.decision.text = lit "denied" <;>
          simp [denialKey, hagent, htool, hdecision, hts, hbefore, hdenied, serverOfValue,
            isHashable]
      refine ⟨_, by rw [List.map_cons, denialKeys, hrow, hkey, hkeys]; rfl, fun agent server => ?_⟩
      rw [List.map_cons, List.countP_cons, ← hcount, hrow]
      by_cases hdenied : line.decision.text = lit "denied"
      · simp [countOf, isKey, isDenialOf, hagent, htool, hdecision, hdenied, List.countP_cons]
      · simp [countOf, isDenialOf, hagent, htool, hdecision, hdenied]

/-! ### Denials have a server -/

/-- The tasks that were denied have a name with a prefix. -/
def Gateway.DenialsNamed (st : Gateway) : Prop :=
  ∀ (k : ℕ) (t : Task) result, st.tasks[k]? = some t → t.phase = .returned result .denied →
    (split t.request.name).isSome

section Denials

variable {cfg : Settings} {st st' : Gateway} {a : Action}

/-- A name without a prefix is not denied. -/
theorem routeArrive_denied {g : Shared} {r : Request} {result : CallToolResult}
    (h : (routeArrive cfg g r).2.phase = .returned result .denied) : (split r.name).isSome := by
  cases htarget : split r.name with
  | some target => rfl
  | none =>
      simp only [routeArrive] at h
      rw [htarget] at h
      split at h <;> simp [unknownTool, Halt.phase] at h

/-- **Denials keep having a server.** -/
theorem denialsNamed_step (htargeted : st.Targeted) (hnamed : st.DenialsNamed)
    (hstep : (gateway cfg).step st a = some st') : st'.DenialsNamed := by
  intro k t' result ht' hphase'
  rcases task_of_step hstep ht' with ⟨r, -, -, rfl⟩ | ⟨t, ht, rfl | ⟨ok, server, tool, -, hphase,
    rfl⟩ | ⟨answer, d, -, -, -, rfl⟩ | ⟨-, -, rfl⟩⟩
  · exact routeArrive_denied hphase'
  · exact hnamed k t' result ht hphase'
  · simp [(htargeted k t ht).2 server tool hphase]
  · simp only [routeAnswered] at hphase'
    split at hphase'
    · simp [Halt.phase] at hphase'
    · next relay hrelay =>
        simp only [Halt.phase, Phase.returned.injEq] at hphase'
        exact absurd (hphase'.2 ▸ hrelay) (relayDecision_ne_denied cfg.py answer)
  · simp at hphase'

end Denials

/-! ### The ledger of a run -/

/-- Increments and lines belong together, and every denial is counted and has a server. -/
structure App.Ledger (st : App) : Prop where
  calls : st.metrics.toolCalls.map Prod.snd = st.audit.map fun p => p.2.labels
  denied : st.metrics.policyDenied =
    (st.metrics.toolCalls.filter fun p => p.2.decision = .denied).map fun p =>
      (p.2.agent, p.2.server, p.2.tool)
  named : ∀ p ∈ st.audit, p.2.decision = .denied → (split p.2.tool).isSome

/-- The handlers await tasks of their own names. -/
structure App.Routed (st : App) : Prop where
  targeted : st.routes.Targeted
  denialsNamed : st.routes.DenialsNamed
  awaited : ∀ (i : ℕ) (h : Handler) k, st.handlers[i]? = some h → h.task = some k →
    ∃ t, st.routes.tasks[k]? = some t ∧ t.request.name = h.call.name

section Ledger

variable {cfg : AppSettings} {st st' : App} {a : AppAction}

/-- **What one handler leaves belongs together.** -/
theorem App.Ledger.settle (hledger : st.Ledger) (i : ℕ) (h : Handler)
    (hnamed : h.Returned .denied → (split h.call.name).isSome) : (st.settle true i h).Ledger := by
  by_cases hret : ∃ d, h.Returned d
  · obtain ⟨d, result, houtcome⟩ := hret
    have hsettle : st.settle true i h = { st with
        metrics := recordCall st.metrics i (labelsOf h d) (h.start.map (st.perfCounter - ·))
        audit := record true st.audit i (lineOf h st.utcNow d) } := by
      simp only [App.settle, houtcome]
    have hlabels : (lineOf h st.utcNow d).labels = labelsOf h d := rfl
    rw [hsettle]
    refine ⟨?_, ?_, ?_⟩
    · simp [recordCall, record, hledger.calls, hlabels]
    · have hdecision : ∀ d, (labelsOf h d).decision = d := fun _ => rfl
      by_cases hd : d = .denied <;> simp [recordCall, hledger.denied, hdecision, hd]
    · intro p hp hdenied
      simp only [record, if_true, List.mem_append, List.mem_singleton] at hp
      rcases hp with hp | rfl
      · exact hledger.named p hp hdenied
      · obtain rfl : d = .denied := hdenied
        exact hnamed ⟨result, houtcome⟩
  · rw [settle_of_not_returned true (not_exists.mp hret)]
    exact hledger

/-- Nothing but the trail matters to the ledger. -/
theorem App.Ledger.congr (hledger : st.Ledger) (hmetrics : st'.metrics = st.metrics)
    (haudit : st'.audit = st.audit) : st'.Ledger :=
  ⟨by rw [hmetrics, haudit]; exact hledger.calls, by rw [hmetrics]; exact hledger.denied,
    by rw [haudit]; exact hledger.named⟩

/-- A step of the gateway keeps the handlers' tasks. -/
theorem App.Routed.gateway_step (hrouted : st.Routed) {gw : Gateway} {b : Action}
    (hstep : (gateway cfg.toSettings).step st.routes b = some gw) :
    App.Routed { st with routes := gw } where
  targeted := targeted_step hrouted.targeted hstep
  denialsNamed := denialsNamed_step hrouted.targeted hrouted.denialsNamed hstep
  awaited i h k hi hk := by
    obtain ⟨t, ht, hname⟩ := hrouted.awaited i h k hi hk
    obtain ⟨t', ht', hrequest⟩ := request_of_step hstep ht
    exact ⟨t', ht', by rw [hrequest, hname]⟩

/-- A handler joins, or one goes on: the others await what they awaited. -/
theorem App.Routed.handlers (hrouted : st.Routed) {h : Handler} {hs : List Handler}
    (hothers : ∀ (j : ℕ) h', hs[j]? = some h' → h' = h ∨ st.handlers[j]? = some h')
    (htask : ∀ k, h.task = some k → ∃ t, st.routes.tasks[k]? = some t ∧
      t.request.name = h.call.name) : App.Routed { st with handlers := hs } where
  targeted := hrouted.targeted
  denialsNamed := hrouted.denialsNamed
  awaited j h' k hj hk := by
    rcases hothers j h' hj with rfl | hj
    · exact htask k hk
    · exact hrouted.awaited j h' k hj hk

/-- A handler joins. -/
theorem App.Routed.concat (hrouted : st.Routed) {h : Handler}
    (htask : ∀ k, h.task = some k → ∃ t, st.routes.tasks[k]? = some t ∧
      t.request.name = h.call.name) :
    App.Routed { st with handlers := st.handlers ++ [h] } := by
  refine hrouted.handlers (h := h) (fun j h' hj => ?_) htask
  rcases getElem?_concat_eq_some.mp hj with hj | ⟨-, rfl⟩
  · exact Or.inr hj
  · exact Or.inl rfl

/-- Settling a handler touches neither the tasks nor the handlers. -/
theorem App.Routed.settle (hrouted : st.Routed) (writable : Bool) (i : ℕ) (h : Handler) :
    (st.settle writable i h).Routed := by
  simp only [App.settle]
  split
  · exact ⟨hrouted.targeted, hrouted.denialsNamed, hrouted.awaited⟩
  · exact hrouted

/-- A handler that has just been denied has a name with a prefix. -/
theorem App.Routed.named (hrouted : st.Routed) {h : Handler} {k : ℕ} {t : Task}
    (ht : st.routes.tasks[k]? = some t) (hname : t.request.name = h.call.name)
    (houtcome : h.outcome = st.routes.outcome k) (hdenied : h.Returned .denied) :
    (split h.call.name).isSome := by
  obtain ⟨result, hresult⟩ := hdenied
  have hphase : t.phase.outcome = some (.returned result .denied) := by
    rw [← hresult, houtcome, Gateway.outcome, ht, Option.bind_some]
  rw [← hname]
  refine hrouted.denialsNamed k t result ht ?_
  cases hp : t.phase <;> simp [hp, Phase.outcome] at hphase ⊢
  exact hphase

/-- A handler is settled in a state that the gateway has reached. -/
theorem App.Ledger.settled (hledger : st.Ledger) (hrouted : st'.Routed)
    (hmetrics : st'.metrics = st.metrics) (haudit : st'.audit = st.audit)
    (hwritable : cfg.writable = true) (i : ℕ) (h : Handler)
    (hnamed : h.Returned .denied → (split h.call.name).isSome) :
    (st'.settle cfg.writable i h).Ledger ∧ (st'.settle cfg.writable i h).Routed := by
  refine ⟨?_, hrouted.settle cfg.writable i h⟩
  rw [hwritable]
  exact (hledger.congr hmetrics haudit).settle i h hnamed

/-- **Every step keeps the ledger.** -/
theorem App.Ledger.step (hledger : st.Ledger) (hrouted : st.Routed)
    (hwritable : cfg.writable = true) (hstep : (app cfg).step st a = some st') :
    st'.Ledger ∧ st'.Routed := by
  cases a with
  | call c =>
      cases hauth : authenticate cfg.decode c.authorization with
      | error reason =>
          obtain ⟨h, hcall, -, htask, houtcome, rfl⟩ := app_step_refused hauth hstep
          have hmid : App.Routed { st with handlers := st.handlers ++ [h] } :=
            hrouted.concat (by simp [htask])
          refine hledger.settled hmid rfl rfl hwritable _ h ?_
          rintro ⟨result, hresult⟩
          simp [houtcome] at hresult
      | ok agent =>
          obtain ⟨gw, h, hgw, hcall, htask, houtcome, rfl⟩ := app_step_accepted hauth hstep
          have hnew : ∃ t, gw.tasks[st.routes.tasks.length]? = some t ∧
              t.request.name = h.call.name := by
            obtain rfl := step_arrive hgw
            exact ⟨_, List.getElem?_concat_length, by rw [hcall]⟩
          obtain ⟨t, ht, hname⟩ := hnew
          have hmid : App.Routed { st with routes := gw, handlers := st.handlers ++ [h] } := by
            refine (hrouted.gateway_step hgw).concat fun k hk => ?_
            obtain rfl := Option.some.inj (htask.symm.trans hk)
            exact ⟨t, ht, hname⟩
          exact hledger.settled hmid rfl rfl hwritable _ h (hmid.named ht hname houtcome)
  | wake i w =>
      obtain ⟨h₀, k, gw, hh₀, -, htask, hgw, rfl⟩ := app_step_wake hstep
      have hgateway : App.Routed { st with routes := gw } := hrouted.gateway_step hgw
      obtain ⟨t, ht, hname⟩ := hgateway.awaited i h₀ k hh₀ htask
      set h : Handler := { h₀ with outcome := gw.outcome k }
      have hmid : App.Routed { st with routes := gw, handlers := st.handlers.set i h } := by
        refine hgateway.handlers (h := h) (fun j h' hj => ?_) fun k' hk' =>
          hgateway.awaited i h₀ k' hh₀ hk'
        rcases (getElem?_set_eq_some (lt_length_of_getElem? hh₀)).mp hj with ⟨-, rfl⟩ | ⟨-, hj⟩
        · exact Or.inl rfl
        · exact Or.inr hj
      exact hledger.settled hmid rfl rfl hwritable i h (hmid.named (h := h) ht hname rfl)
  | ambient b =>
      simp only [app, App.step] at hstep
      split at hstep
      · next gw hgw =>
          obtain rfl := Option.some.inj hstep
          exact ⟨hledger.congr rfl rfl, hrouted.gateway_step hgw⟩
      · simp at hstep
  | clock perfCounter utcNow =>
      simp only [app, App.step] at hstep
      split at hstep
      · obtain rfl := Option.some.inj hstep
        exact ⟨hledger.congr rfl rfl, ⟨hrouted.targeted, hrouted.denialsNamed, hrouted.awaited⟩⟩
      · simp at hstep

/-- The ledger of every run. -/
theorem ledger_of_run {g : Shared} {perfCounter : ℚ} {utcNow : Str} {as : List AppAction}
    (hwritable : cfg.writable = true)
    (hrun : (app cfg).exec (.start g perfCounter utcNow) as = some st) : st.Ledger := by
  have hinv := System.invariant' (I := fun st : App => st.Ledger ∧ st.Routed)
    (fun _ _ _ hI hstep => hI.1.step hI.2 hwritable hstep) ?_ hrun
  · exact hinv.1
  · refine ⟨⟨rfl, rfl, fun _ h => absurd h List.not_mem_nil⟩, ⟨?_, ?_, ?_⟩⟩
    · simp [Gateway.Targeted, App.start]
    · simp [Gateway.DenialsNamed, App.start]
    · simp [App.start]

end Ledger

/-! ### One story -/

/-- Labels without split pairs come back as they are. -/
theorem CallLabels.Unsplit.shown {l : CallLabels} (hl : l.Unsplit) : l.shown = l.call := by
  obtain ⟨hagent, hserver, htool⟩ := hl
  rw [CallLabels.shown, CallLabels.call, joinSurrogates_eq_self_iff.mpr hagent,
    joinSurrogates_eq_self_iff.mpr hserver, joinSurrogates_eq_self_iff.mpr htool]

/-- The two counters of denials agree. -/
theorem App.Ledger.policyDeniedOf_eq {st : App} (hledger : st.Ledger) (agent server : Str) :
    st.metrics.policyDeniedOf agent server = st.metrics.deniedCallsOf agent server := by
  rw [Metrics.policyDeniedOf, Metrics.deniedCallsOf, hledger.denied, List.countP_map,
    List.countP_filter]
  refine List.countP_congr fun p _ => ?_
  simp only [Function.comp_apply, Bool.decide_and, Bool.and_eq_true, decide_eq_true_eq]
  exact and_comm

/-- The rows of the audit file. -/
theorem readAudit_auditFile (py : Interpreter) (st : App) :
    readAudit py st.auditFile = .ok (st.audit.map fun p => p.2.logLine.row) := by
  have hread := readAudit_write py (st.audit.map fun p => p.2.logLine)
  rwa [List.map_map, List.map_map] at hread

/-- **The metrics, the audit file and the admin report tell the same story.** In every run,
in any interleaving, and whatever the agents and the names of the tools are: the two counters
of denials agree for every agent and server; the rows of the audit file are the increments of
`TOOL_CALLS` in their order, with agent, label and decision as the round trip shows them; the
denials among the rows, and those that the report counts when all rows are in its window, are
as many as the increments show; and where no label has a split pair, all of this holds of the
labels themselves. -/
theorem reports_agree {cfg : AppSettings} {g : Shared} {perfCounter : ℚ} {utcNow : Str} {st : App}
    {as : List AppAction} (hwritable : cfg.writable = true)
    (hrun : (app cfg).exec (.start g perfCounter utcNow) as = some st) :
    ∃ rows, readAudit cfg.py st.auditFile = .ok rows ∧
      (∀ agent server,
        st.metrics.policyDeniedOf agent server = st.metrics.deniedCallsOf agent server) ∧
      rows.map rowCall = st.metrics.toolCalls.map (fun p => some p.2.shown) ∧
      (∀ agent server, rows.countP (isDenialOf agent server) =
        st.metrics.toolCalls.countP fun p => p.2.decision = .denied ∧
          joinSurrogates p.2.agent = agent ∧ joinSurrogates p.2.server = server) ∧
      (∀ now hours, InWindow cfg.py rows now hours → ∃ counter,
        summarizeDenials cfg.py rows now hours = .ok counter ∧
        ∀ agent server, countOf counter agent server = rows.countP (isDenialOf agent server)) ∧
      ((∀ p ∈ st.metrics.toolCalls, p.2.Unsplit) →
        rows.map rowCall = st.metrics.toolCalls.map (fun p => some p.2.call) ∧
        ∀ agent server, rows.countP (isDenialOf agent server) =
          st.metrics.policyDeniedOf agent server) := by
  have hledger := ledger_of_run hwritable hrun
  -- The rows and the increments are images of the same lines.
  have hcalls : ∀ {β : Type} (f : CallLabels → β), st.metrics.toolCalls.map (fun p => f p.2) =
      st.audit.map fun p => f p.2.labels := fun f => by
    have := congrArg (List.map f) hledger.calls
    rwa [List.map_map, List.map_map] at this
  have hrows : (st.audit.map fun p => p.2.logLine.row).map rowCall =
      st.metrics.toolCalls.map fun p => some p.2.shown := by
    rw [hcalls fun l => some l.shown, List.map_map]
    exact List.map_congr_left fun p _ => rowCall_row p.2
  have hdenials : ∀ agent server,
      (st.audit.map fun p => p.2.logLine.row).countP (isDenialOf agent server) =
        st.metrics.toolCalls.countP fun p => p.2.decision = .denied ∧
          joinSurrogates p.2.agent = agent ∧ joinSurrogates p.2.server = server := by
    intro agent server
    have hcount := congrArg (List.countP fun l : CallLabels => decide (l.decision = .denied ∧
      joinSurrogates l.agent = agent ∧ joinSurrogates l.server = server)) hledger.calls
    rw [List.countP_map, List.countP_map] at hcount
    refine Eq.trans ?_ hcount.symm
    rw [List.countP_map]
    refine List.countP_congr fun p hp => ?_
    simp only [Function.comp_apply, isDenialOf_row p.2 (hledger.named p hp), decide_eq_true_eq]
  refine ⟨_, readAudit_auditFile cfg.py st, hledger.policyDeniedOf_eq, hrows, hdenials, ?_, ?_⟩
  · rintro now hours ⟨cutoff, hcutoff, hwindow⟩
    have hlines := denialKeys_of_inWindow cfg.py cutoff (st.audit.map Prod.snd)
    rw [List.map_map] at hlines
    rw [summarizeDenials, hcutoff]
    exact hlines hwindow
  · intro hunsplit
    refine ⟨hrows.trans (List.map_congr_left fun p hp => ?_), fun agent server => ?_⟩
    · rw [(hunsplit p hp).shown]
    · rw [hdenials, hledger.policyDeniedOf_eq, Metrics.deniedCallsOf]
      refine List.countP_congr fun p hp => ?_
      obtain ⟨hagent, hserver, -⟩ := hunsplit p hp
      rw [joinSurrogates_eq_self_iff.mpr hagent, joinSurrogates_eq_self_iff.mpr hserver]

/-- One call that is answered, in the window of the report. -/
theorem reports_agree_sample : ∃ st rows,
    (app sampleApp).exec appStart [.call sampleCall, .wake 0 (.answered sampleResult)] = some st ∧
    readAudit sampleApp.py st.auditFile = .ok rows ∧
    rows.map rowCall = st.metrics.toolCalls.map (fun p => some p.2.shown) := by
  have hrun : ((app sampleApp).exec appStart
      [.call sampleCall, .wake 0 (.answered sampleResult)]).isSome = true := by decide +kernel
  obtain ⟨st, hst⟩ := Option.isSome_iff_exists.mp hrun
  obtain ⟨rows, hread, -, hrows, -⟩ := reports_agree rfl hst
  exact ⟨st, rows, hst, hread, hrows⟩

/-- The settings of the small gateway, with a token whose `agent_id` is the two halves of an
astral code point. A signed token can have it: the payload is read from bytes as JSON. -/
def splitApp : AppSettings :=
  { sampleApp with decode := fun _ => .ok (some [0xD83D, 0xDE00]) }

/-- **A label that the audit file shows differently**: the agent has no rule and is denied, the
metrics count the two halves, and the row has the one code point. -/
theorem reports_differ : ¬∀ (cfg : AppSettings) (g : Shared) (perfCounter : ℚ) (utcNow : Str)
    (st : App) (as : List AppAction), cfg.writable = true →
    (app cfg).exec (.start g perfCounter utcNow) as = some st →
    ∃ rows, readAudit cfg.py st.auditFile = .ok rows ∧
      (rows.map rowCall).Perm (st.metrics.toolCalls.map fun p => some p.2.call) := by
  intro hclaim
  have hrun : ((app splitApp).exec appStart [.call sampleCall]).any (fun st =>
      (readAudit splitApp.py st.auditFile).toOption.any fun rows =>
        !decide ((rows.map rowCall).Perm
          (st.metrics.toolCalls.map fun p => some p.2.call))) = true := by
    decide +kernel
  obtain ⟨st, hst, hdiffer⟩ := (Option.any_eq_true _ _).mp hrun
  obtain ⟨rows, hread, hperm⟩ := hclaim _ _ _ _ st _ rfl hst
  simp [hread, Except.toOption, hperm] at hdiffer

end AgentOpsGateway
