import AgentOpsGateway.ExactHours
import AgentOpsGateway.Mediation
import AgentOpsGateway.TicketStore

/-!
# The Permission Matrix

The project stands for a matrix: three agents, three servers, and for each pair nothing,
reading, or reading and writing; one tool of one pair is limited to a time range of a day.
`policies/policy.yaml` is said to be the matrix word for word. Here the matrix is stated on its
own, by agents, servers and kinds of access, and compared with what the policy engine makes of
the document.

## Main results

* `evaluate_deployed`: **the policy engine decides by the matrix**, floats and all.
* `matrix_enforced`: in every run of the gateway, what is sent is in the matrix, and what
  passes the gates before the policy is sent or denied as the matrix says.
* `tickets_of_writers`: **who may only read changes no ticket**, whatever reaches the ticket
  server of what the gateway has sent, in whatever order and how often.
-/

namespace AgentOpsGateway

open Python Transition

/-! ### The matrix -/

/-- The agents of the matrix. -/
inductive AgentId
  | support
  | analyst
  | dev
  deriving DecidableEq

/-- The servers of the matrix. -/
inductive ServerId
  | ticket
  | docs
  | ops
  deriving DecidableEq

/-- What an agent may do with a server. -/
inductive Access
  | none
  | read
  | readWrite
  deriving DecidableEq

/-- The name of an agent. -/
def AgentId.text : AgentId → Str
  | .support => lit "support-agent"
  | .analyst => lit "analyst-agent"
  | .dev => lit "dev-agent"

/-- The name of a server. -/
def ServerId.text : ServerId → Str
  | .ticket => lit "ticket"
  | .docs => lit "docs"
  | .ops => lit "ops"

/-- **The matrix.** -/
def access : AgentId → ServerId → Access
  | .support, .ticket => .readWrite
  | .support, .docs => .read
  | .support, .ops => .none
  | .analyst, .ticket => .read
  | .analyst, .docs => .read
  | .analyst, .ops => .read
  | .dev, .ticket => .readWrite
  | .dev, .docs => .read
  | .dev, .ops => .readWrite

/-- The tools of a server for a kind of access: all of them for writing, those that search or
look up for reading. -/
def ServerId.tools : ServerId → Access → List Str
  | _, .none => []
  | .ticket, .read => [lit "search_tickets"]
  | .ticket, .readWrite => [lit "create_ticket", lit "search_tickets", lit "update_status"]
  | .docs, _ => [lit "search_docs", lit "read_doc"]
  | .ops, _ => [lit "get_metrics", lit "query_logs"]

/-- The arguments span a time range of at most a day. -/
def WithinDay (py : Interpreter) (args : Arguments) : Prop :=
  ∃ start stop, argTime py args (lit "start") = .ok start ∧ argTime py args (lit "end") = .ok stop ∧
    start.offset.isSome = stop.offset.isSome ∧ start.instant ≤ stop.instant ∧
    stop.instant - start.instant ≤ dayMicros

/-- What the matrix grants: a tool of the access of the pair, and within a day where an analyst
queries the logs. -/
def Granted (py : Interpreter) (agent server tool : Str) (args : Arguments) : Prop :=
  ∃ a s, AgentId.text a = agent ∧ ServerId.text s = server ∧ tool ∈ s.tools (access a s) ∧
    (a = .analyst → s = .ops → tool = lit "query_logs" → WithinDay py args)

/-! ### The document -/

/-- `policies/policy.yaml`. -/
def deployedPolicy : Policy :=
  ⟨[(lit "support-agent", some
      [(lit "ticket", some
        [.tool (lit "create_ticket"), .tool (lit "search_tickets"), .tool (lit "update_status")]),
       (lit "docs", some [.tool (lit "search_docs"), .tool (lit "read_doc")])]),
    (lit "analyst-agent", some
      [(lit "ticket", some [.tool (lit "search_tickets")]),
       (lit "docs", some [.tool (lit "search_docs"), .tool (lit "read_doc")]),
       (lit "ops", some [.tool (lit "get_metrics"),
        .mapping [(lit "tool", .str (lit "query_logs")), (lit "max_range_hours", .int 24)]])]),
    (lit "dev-agent", some
      [(lit "ticket", some
        [.tool (lit "create_ticket"), .tool (lit "search_tickets"), .tool (lit "update_status")]),
       (lit "docs", some [.tool (lit "search_docs"), .tool (lit "read_doc")]),
       (lit "ops", some [.tool (lit "get_metrics"), .tool (lit "query_logs")])])]⟩

/-- The limited tool of the document. -/
def limitedLogs : List (Str × Yaml) :=
  [(lit "tool", .str (lit "query_logs")), (lit "max_range_hours", .int 24)]

/-- The entries of a pair. -/
def pairEntries (a : AgentId) (s : ServerId) : List Entry :=
  if a = .analyst ∧ s = .ops then [.tool (lit "get_metrics"), .mapping limitedLogs]
  else (s.tools (access a s)).map .tool

/-- The document has the entries of the pair. -/
theorem entries_deployedPolicy (a : AgentId) (s : ServerId) :
    deployedPolicy.entries a.text s.text = pairEntries a s := by
  cases a <;> cases s <;> rfl

/-- The document has no entries but for the pairs of the matrix. -/
theorem exists_pair_of_mem {agent server : Str} {entry : Entry}
    (h : entry ∈ deployedPolicy.entries agent server) :
    ∃ a s, AgentId.text a = agent ∧ ServerId.text s = server := by
  obtain ⟨servers, entries, hagent, hserver, -⟩ := Policy.exists_of_mem_entries h
  have hagents : agent ∈ [AgentId.support, .analyst, .dev].map AgentId.text :=
    List.mem_map_of_mem (f := Prod.fst) hagent
  have hservers : ∀ rules ∈ deployedPolicy.agents, ∀ row ∈ rules.2.getD [],
      row.1 ∈ [ServerId.ticket, .docs, .ops].map ServerId.text := by
    decide
  obtain ⟨a, -, ha⟩ := List.mem_map.mp hagents
  obtain ⟨s, -, hs⟩ := List.mem_map.mp (hservers _ hagent _ hserver)
  exact ⟨a, s, ha, hs⟩

/-- Every entry of the document is one of a pair. -/
theorem exists_pairEntries_of_mem {agent server : Str} {entry : Entry}
    (h : entry ∈ deployedPolicy.entries agent server) : ∃ a s, entry ∈ pairEntries a s := by
  obtain ⟨a, s, rfl, rfl⟩ := exists_pair_of_mem h
  exact ⟨a, s, entries_deployedPolicy a s ▸ h⟩

/-- A pair has tool names, and the limited tool. -/
theorem pairEntries_cases {a : AgentId} {s : ServerId} {entry : Entry}
    (h : entry ∈ pairEntries a s) :
    (∃ name, entry = .tool name) ∨ entry = .mapping limitedLogs := by
  rw [pairEntries] at h
  split at h
  · rcases List.mem_cons.mp h with rfl | h
    · exact .inl ⟨_, rfl⟩
    · exact .inr (List.mem_singleton.mp h)
  · obtain ⟨name, -, rfl⟩ := List.mem_map.mp h
    exact .inl ⟨name, rfl⟩

/-- The limit is the only one. -/
theorem limit_of_limitedLogs {limit : Yaml}
    (h : dictGet (lit "max_range_hours") limitedLogs = some limit) : limit = .int 24 := by
  rw [limitedLogs, dictGet, if_neg (by decide), dictGet, if_pos rfl, Option.some.injEq] at h
  exact h.symm

theorem deployedPolicy_documented : deployedPolicy.Documented := by
  intro agent server entry hentry
  obtain ⟨a, s, hpair⟩ := exists_pairEntries_of_mem hentry
  rcases pairEntries_cases hpair with ⟨name, rfl⟩ | rfl
  · trivial
  · refine ⟨⟨lit "query_logs", rfl⟩, fun limit hlimit => ?_⟩
    rw [limit_of_limitedLogs hlimit]
    decide

theorem deployedPolicy_wholeHours : deployedPolicy.WholeHours := by
  intro agent server entry hentry
  obtain ⟨a, s, hpair⟩ := exists_pairEntries_of_mem hentry
  rcases pairEntries_cases hpair with ⟨name, rfl⟩ | rfl
  · trivial
  · intro limit hlimit
    rw [limit_of_limitedLogs hlimit]
    exact (by decide : (24 : ℤ) ≤ exactLimit)

/-! ### The decision -/

/-- Plain names permit their tool. -/
theorem permits_names_iff {py : Interpreter} {args : Arguments} {tool : Str} {names : List Str} :
    (∃ entry, ((names.map Entry.tool).filter (Entry.names tool)).head? = some entry ∧
      entry.Permits py args) ↔ tool ∈ names := by
  induction names with
  | nil => simp
  | cons name names ih =>
      by_cases hname : name = tool
      · subst hname
        simp [Entry.names, Entry.Permits]
      · have hne : tool ≠ name := fun h => hname h.symm
        rw [List.map_cons, List.filter_cons_of_neg (by simpa [Entry.names] using hname), ih,
          List.mem_cons]
        simp [hne]

/-- The limited tool is permitted within a day. -/
theorem permits_limitedLogs_iff {py : Interpreter} {args : Arguments} :
    (Entry.mapping limitedLogs).Permits py args ↔ WithinDay py args := by
  have hget : dictGet (lit "max_range_hours") limitedLogs = some (.int 24) := rfl
  simp only [Entry.Permits, hget, Option.some.injEq, forall_eq', SpansWithin, WithinDay,
    Yaml.Within]
  refine exists₂_congr fun start stop => and_congr_right fun _ => and_congr_right fun _ =>
    and_congr_right fun _ => and_congr_right fun _ => ?_
  rw [div_le_iff₀ (by norm_num), dayMicros]
  norm_num
  exact_mod_cast Iff.rfl

/-- The first entry of a pair that names a tool permits what the matrix grants. -/
theorem permits_pairEntries_iff {py : Interpreter} {args : Arguments} {tool : Str} (a : AgentId)
    (s : ServerId) :
    (∃ entry, ((pairEntries a s).filter (Entry.names tool)).head? = some entry ∧
      entry.Permits py args) ↔
      tool ∈ s.tools (access a s) ∧
        (a = .analyst → s = .ops → tool = lit "query_logs" → WithinDay py args) := by
  by_cases hpair : a = .analyst ∧ s = .ops
  · obtain ⟨rfl, rfl⟩ := hpair
    have hne : lit "get_metrics" ≠ lit "query_logs" := by decide
    simp only [pairEntries, and_self, if_true, access, ServerId.tools, forall_true_left]
    by_cases hmetrics : tool = lit "get_metrics"
    · subst hmetrics
      rw [List.filter_cons_of_pos (by simp [Entry.names])]
      simp [Entry.Permits, hne]
    · rw [List.filter_cons_of_neg (by simpa [Entry.names] using Ne.symm hmetrics)]
      by_cases hlogs : tool = lit "query_logs"
      · subst hlogs
        rw [List.filter_cons_of_pos rfl]
        simp [permits_limitedLogs_iff]
      · have hnames : Entry.names tool (.mapping limitedLogs) ≠ true := by
          intro h
          exact hlogs (of_decide_eq_true h).symm
        rw [List.filter_cons_of_neg hnames]
        simp [hmetrics, hlogs]
  · rw [pairEntries, if_neg hpair, permits_names_iff]
    exact ⟨fun h => ⟨h, fun ha hs => absurd ⟨ha, hs⟩ hpair⟩, fun h => h.1⟩

/-- **The policy engine decides by the matrix.** -/
theorem evaluate_deployed (py : Interpreter) (agent server tool : Str) (args : Arguments) :
    ∃ d, deployedPolicy.evaluate py agent server tool args = .ok d ∧
      (d.allowed = true ↔ Granted py agent server tool args) := by
  rw [evaluate_exact py deployedPolicy_wholeHours]
  obtain ⟨d, hd, -⟩ :=
    deployedPolicy.evaluateWith_documented exactHours py deployedPolicy_documented agent server
      tool args
  refine ⟨d, hd, ?_⟩
  rw [allowed_of_evaluateEntries hd]
  constructor
  · rintro ⟨entry, hentry, hpasses⟩
    have hmem := List.mem_of_mem_filter (List.mem_of_head? hentry)
    obtain ⟨a, s, rfl, rfl⟩ := exists_pair_of_mem hmem
    have hpermits := (passes_exactHours_iff (deployedPolicy_documented _ _ entry hmem)).mp hpasses
    rw [entries_deployedPolicy] at hentry
    obtain ⟨htool, hday⟩ := (permits_pairEntries_iff a s).mp ⟨entry, hentry, hpermits⟩
    exact ⟨a, s, rfl, rfl, htool, hday⟩
  · rintro ⟨a, s, rfl, rfl, htool, hday⟩
    obtain ⟨entry, hentry, hpermits⟩ := (permits_pairEntries_iff a s).mpr ⟨htool, hday⟩
    rw [← entries_deployedPolicy] at hentry
    have hmem := List.mem_of_mem_filter (List.mem_of_head? hentry)
    exact ⟨entry, hentry,
      (passes_exactHours_iff (deployedPolicy_documented _ _ entry hmem)).mpr hpermits⟩

/-! ### Every run of the gateway -/

section Runs

variable {py : Interpreter} {st₀ st : Gateway} {as : List Action} {i : ℕ} {t : Task}

/-- The gates that are asked before the policy. -/
def gatesBeforePolicy : List Gate := [.rateLimit, .namespaced, .registered, .listed, .known]

/-- The gate of the policy passes what the matrix grants. -/
theorem isPermitted_deployed (r : Request) (server tool : Str) :
    isPermitted ⟨py, deployedPolicy⟩ r server tool = true ↔
      Granted py r.agent server tool r.arguments := by
  obtain ⟨d, hd, hallowed⟩ := evaluate_deployed py r.agent server tool r.arguments
  simp only [isPermitted, hd, hallowed]

/-- What is sent for a request is granted to its agent. -/
theorem granted_of_sent (hinit : st₀.tasks = [])
    (hrun : (gateway ⟨py, deployedPolicy⟩).exec st₀ as = some st) (ht : st.tasks[i]? = some t)
    {d : Dispatch} (hd : t.sent = some d) :
    Granted py t.request.agent d.server d.tool d.arguments := by
  obtain ⟨-, hargs, hpermitted⟩ := permitted_of_sent deployedPolicy_documented hinit hrun ht hd
  rw [hargs]
  exact (isPermitted_deployed _ _ _).mp hpermitted

/-- **The matrix is enforced.** In every run of the gateway under the deployed policy, whatever
its limiter, breaker and backends are at the start and however the requests interleave: what
is sent for a request is granted by the matrix to its agent; a granted request that all other
gates pass is sent; and one that the gates before the policy pass, and that is not granted, is
answered `POLICY_DENIED` and audited as denied. -/
theorem matrix_enforced (hinit : st₀.tasks = [])
    (hrun : (gateway ⟨py, deployedPolicy⟩).exec st₀ as = some st) (ht : st.tasks[i]? = some t) :
    (∀ d, t.sent = some d → Granted py t.request.agent d.server d.tool d.arguments) ∧
    (Granted py t.request.agent t.server t.tool t.request.arguments →
      (∀ gate : Gate, gate ≠ .permitted → gate.verdict ⟨py, deployedPolicy⟩ t = some true) →
        t.sent.isSome = true) ∧
    (¬Granted py t.request.agent t.server t.tool t.request.arguments →
      (∀ gate ∈ gatesBeforePolicy, gate.verdict ⟨py, deployedPolicy⟩ t = some true) →
        t.sent = none ∧
          ∃ fields, t.phase = .returned (errorResult .policyDenied fields) .denied) := by
  have hmed := mediated_of_run deployedPolicy_documented hinit hrun ht
  simp only [Mediated] at hmed
  refine ⟨fun d hd => granted_of_sent hinit hrun ht hd, fun hgranted hothers => ?_,
    fun hdenied hbefore => ?_⟩
  · have hall : t.firstUnpassed ⟨py, deployedPolicy⟩ = none := by
      refine Task.firstUnpassed_eq_none.mpr fun gate => ?_
      by_cases hgate : gate = .permitted
      · rw [hgate, Gate.verdict, Option.some.injEq, isPermitted_deployed]
        exact hgranted
      · exact hothers gate hgate
    rw [hall] at hmed
    obtain ⟨d, hd, -⟩ := hmed
    rw [hd]
    rfl
  · have hfalse : Gate.verdict ⟨py, deployedPolicy⟩ t .permitted = some false := by
      rw [Gate.verdict, Option.some.injEq, Bool.eq_false_iff]
      exact fun h => hdenied ((isPermitted_deployed _ _ _).mp h)
    have hfirst : t.firstUnpassed ⟨py, deployedPolicy⟩ = some .permitted := by
      simp only [gatesBeforePolicy, List.forall_mem_cons] at hbefore
      obtain ⟨h₁, h₂, h₃, h₄, h₅, -⟩ := hbefore
      simp [Task.firstUnpassed, Gate.order, h₁, h₂, h₃, h₄, h₅, hfalse]
    rw [hfirst] at hmed
    exact ⟨hmed.1, hmed.2 hfalse⟩

/-- A request of an analyst, who may only read tickets, to create one. -/
def analystRequest : Request := ⟨lit "analyst-agent", lit "ticket__create_ticket", []⟩

/-- On the small gateway, with the deployed policy, a developer's request to create a ticket is
sent as the matrix grants, and that of an analyst is denied. -/
theorem matrix_enforced_sample : ∃ st t d t' fields,
    (gateway ⟨⟨100, fun _ => true⟩, deployedPolicy⟩).exec (sampleStart none true)
        [.arrive sampleRequest, .arrive analystRequest] = some st ∧
      st.tasks[0]? = some t ∧ t.sent = some d ∧
      Granted ⟨100, fun _ => true⟩ t.request.agent d.server d.tool d.arguments ∧
      st.tasks[1]? = some t' ∧ t'.sent = none ∧
      t'.phase = .returned (errorResult .policyDenied fields) .denied := by
  have hrun : ((gateway ⟨⟨100, fun _ => true⟩, deployedPolicy⟩).exec (sampleStart none true)
      [.arrive sampleRequest, .arrive analystRequest]).any (fun st =>
        ((st.tasks[0]?).any fun t => t.sent.isSome) &&
          (st.tasks[1]?).any fun t =>
            !isPermitted ⟨⟨100, fun _ => true⟩, deployedPolicy⟩ t.request t.server t.tool &&
              gatesBeforePolicy.all fun gate =>
                gate.verdict ⟨⟨100, fun _ => true⟩, deployedPolicy⟩ t = some true) = true := by
    decide +kernel
  obtain ⟨st, hst, htasks⟩ := (Option.any_eq_true _ _).mp hrun
  rw [Bool.and_eq_true] at htasks
  obtain ⟨t, ht, hsent⟩ := (Option.any_eq_true _ _).mp htasks.1
  obtain ⟨t', ht', hdenied⟩ := (Option.any_eq_true _ _).mp htasks.2
  obtain ⟨d, hd⟩ := Option.isSome_iff_exists.mp hsent
  rw [Bool.and_eq_true, Bool.not_eq_true', List.all_eq_true] at hdenied
  obtain ⟨hunpermitted, hbefore⟩ := hdenied
  obtain ⟨-, -, hrefused⟩ := matrix_enforced rfl hst ht'
  obtain ⟨hunsent, fields, hphase⟩ := hrefused
    (fun hgranted => by simp [(isPermitted_deployed _ _ _).mpr hgranted] at hunpermitted)
    (fun gate hgate => of_decide_eq_true (hbefore gate hgate))
  exact ⟨st, t, d, t', fields, hst, ht, hd, (matrix_enforced rfl hst ht).1 d hd, ht', hunsent,
    hphase⟩

/-! ### The tickets of those who may only read -/

/-- The tool of an operation. -/
def TicketOp.tool : TicketOp → Str
  | .create _ _ _ => lit "create_ticket"
  | .search _ => lit "search_tickets"
  | .update _ _ => lit "update_status"

/-- What reaches the ticket server: operations, each with the request it was sent for, in
whatever order and how often. -/
def Received (st : Gateway) (ops : List (ℕ × TicketOp)) : Prop :=
  ∀ op ∈ ops, ∃ t d, st.tasks[op.1]? = some t ∧ t.sent = some d ∧ d.server = lit "ticket" ∧
    d.tool = op.2.tool

/-- The agent may write tickets. -/
def isWriter (agent : Str) : Bool :=
  [AgentId.support, .analyst, .dev].any fun a => a.text = agent ∧ access a .ticket = .readWrite

/-- The request of an operation is one of an agent that may write tickets. -/
def ofWriter (st : Gateway) (op : ℕ × TicketOp) : Bool :=
  st.tasks[op.1]?.any fun t => isWriter t.request.agent

/-- The ticket server, with the request of each operation. -/
def taggedServer (sql : Sqlite) (py : Interpreter) : System TicketRun (ℕ × TicketOp) where
  step st op := (ticketServer sql py).step st op.2

section Tickets

variable {sql : Sqlite}

/-- The tags do not count. -/
theorem exec_taggedServer (ts : TicketRun) (ops : List (ℕ × TicketOp)) :
    (taggedServer sql py).exec ts ops = (ticketServer sql py).exec ts (ops.map Prod.snd) := by
  induction ops generalizing ts with
  | nil => rfl
  | cons op ops ih => exact congrArg _ (funext ih)

/-- An operation sees the file through its connection. -/
theorem connect_perform_congr {file file' : Option TicketDb} (h : connect file = connect file')
    (op : TicketOp) : connect (perform sql py file op).2 = connect (perform sql py file' op).2 := by
  cases op with
  | create title body createdAt => simp only [perform, createTicket, withConnection, h]
  | search query => simp only [perform, searchTickets, withConnection, h]
  | update ticketId status =>
      simp only [perform, updateStatus, withConnection, h]
      split
      · exact h
      · rfl

/-- What is granted of the ticket server to an agent that may not write is a search. -/
theorem search_of_not_isWriter {agent : Str} {op : TicketOp} {args : Arguments}
    (hwriter : isWriter agent = false) (h : Granted py agent (lit "ticket") op.tool args) :
    ∃ query, op = .search query := by
  obtain ⟨a, s, rfl, hs, htool, -⟩ := h
  have hticket : s = .ticket := by
    cases s with
    | ticket => rfl
    | docs | ops => exact absurd hs (by decide)
  subst hticket
  cases a with
  | support | dev => exact absurd hwriter (by decide)
  | analyst =>
      have hsearch : op.tool = lit "search_tickets" := List.mem_singleton.mp htool
      cases op with
      | search query => exact ⟨query, rfl⟩
      | create title body createdAt =>
          exact absurd hsearch (by simp only [TicketOp.tool]; decide)
      | update ticketId status =>
          exact absurd hsearch (by simp only [TicketOp.tool]; decide)

/-- **Who may only read changes no ticket.** In every run of the gateway under the deployed
policy: the tickets after any operations that were sent for its requests are those after the
operations of the agents that may write. -/
theorem tickets_of_writers (hinit : st₀.tasks = [])
    (hrun : (gateway ⟨py, deployedPolicy⟩).exec st₀ as = some st) {ops : List (ℕ × TicketOp)}
    (hreceived : Received st ops) (sql : Sqlite) :
    ∃ ts ts', (ticketServer sql py).exec .init (ops.map Prod.snd) = some ts ∧
      (ticketServer sql py).exec .init ((ops.filter (ofWriter st)).map Prod.snd) = some ts' ∧
      ticketsOf ts'.file = ticketsOf ts.file := by
  obtain ⟨ts, hts, -⟩ := exec_ticketServer sql py (ops.map Prod.snd) .init
  have hsearch : ∀ op ∈ ops, ofWriter st op = false → ∃ query, op.2 = .search query := by
    intro op hop hwriter
    obtain ⟨t, d, ht, hd, hserver, htool⟩ := hreceived op hop
    have hgranted := granted_of_sent hinit hrun ht hd
    rw [hserver, htool] at hgranted
    rw [ofWriter, ht, Option.any_some] at hwriter
    exact search_of_not_isWriter hwriter hgranted
  rw [← exec_taggedServer] at hts
  have hvisible : ∀ (ts : TicketRun) op us (ts' : TicketRun), connect ts.file = connect ts'.file →
      (ofWriter st op = false → ∃ query, op.2 = .search query) → ofWriter st op = true →
      (taggedServer sql py).step ts op = some us →
      ∃ us', (taggedServer sql py).step ts' op = some us' ∧ connect us.file = connect us'.file := by
    intro ts op us ts' hconnect _ _ hstep
    obtain rfl := Option.some.inj hstep
    exact ⟨_, rfl, connect_perform_congr hconnect op.2⟩
  have hhidden : ∀ (ts : TicketRun) op us (ts' : TicketRun), connect ts.file = connect ts'.file →
      (ofWriter st op = false → ∃ query, op.2 = .search query) → ofWriter st op = false →
      (taggedServer sql py).step ts op = some us → connect us.file = connect ts'.file := by
    intro ts op us ts' hconnect hquery hreader hstep
    obtain rfl := Option.some.inj hstep
    obtain ⟨query, hop⟩ := hquery hreader
    simp only [hop]
    exact (connect_searchTickets query).trans hconnect
  obtain ⟨ts', hts', hsame⟩ := System.exec_filter hvisible hhidden rfl
    (System.each_of_mem fun op hop _ => hsearch op hop) hts
  rw [exec_taggedServer] at hts hts'
  exact ⟨ts, ts', hts, hts', congrArg TicketDb.tickets hsame.symm⟩

/-- A gateway with two tools of the ticket server. -/
def ticketsStart : Gateway :=
  ⟨⟨none, none, [(lit "ticket", ⟨lit "ticket", some [⟨lit "create_ticket", []⟩,
    ⟨lit "search_tickets", []⟩]⟩)]⟩, []⟩

/-- A search of an analyst, and a creation of a developer. -/
def ticketsActions : List Action :=
  [.arrive ⟨lit "analyst-agent", lit "ticket__search_tickets", []⟩, .arrive sampleRequest]

/-- What reaches the ticket server of the two: the search again behind the creation. -/
def ticketsReceived : List (ℕ × TicketOp) :=
  [(0, .search []), (1, .create (lit "vpn") [] []), (0, .search [])]

/-- Both are sent. -/
theorem exec_ticketsActions : ∃ st t d u e,
    (gateway ⟨⟨100, fun _ => true⟩, deployedPolicy⟩).exec ticketsStart ticketsActions = some st ∧
      st.tasks[0]? = some t ∧ t.sent = some d ∧ st.tasks[1]? = some u ∧ u.sent = some e ∧
      (d.server = lit "ticket" ∧ d.tool = lit "search_tickets" ∧
        t.request.agent = lit "analyst-agent") ∧
      e.server = lit "ticket" ∧ e.tool = lit "create_ticket" ∧
        u.request.agent = lit "dev-agent" :=
  ⟨_, _, _, _, _, rfl, rfl, rfl, rfl, rfl, ⟨rfl, rfl, rfl⟩, rfl, rfl, rfl⟩

/-- The tickets come from the creation. -/
theorem tickets_of_writers_sample : ∃ ts ts',
    (ticketServer defaultSqlite ⟨100, fun _ => true⟩).exec .init
        [.search [], .create (lit "vpn") [] [], .search []] = some ts ∧
      (ticketServer defaultSqlite ⟨100, fun _ => true⟩).exec .init
        [.create (lit "vpn") [] []] = some ts' ∧ ticketsOf ts'.file = ticketsOf ts.file := by
  obtain ⟨st, t, d, u, e, hrun, ht, hd, hu, he, ⟨hserver, htool, hanalyst⟩, hserver', htool',
    hdev⟩ := exec_ticketsActions
  have hsearch : ofWriter st (0, .search []) = false := by
    rw [ofWriter, ht, Option.any_some, hanalyst]
    decide
  have hcreate : ofWriter st (1, .create (lit "vpn") [] []) = true := by
    rw [ofWriter, hu, Option.any_some, hdev]
    decide
  have hreceived : Received st ticketsReceived := by
    intro op hop
    rcases List.mem_cons.mp hop with rfl | hop
    · exact ⟨t, d, ht, hd, hserver, htool⟩
    · rcases List.mem_cons.mp hop with rfl | hop
      · exact ⟨u, e, hu, he, hserver', htool'⟩
      · obtain rfl := List.mem_singleton.mp hop
        exact ⟨t, d, ht, hd, hserver, htool⟩
  have htickets := tickets_of_writers rfl hrun hreceived defaultSqlite
  simpa only [ticketsReceived, List.filter_cons, List.filter_nil, hsearch, hcreate, if_true,
    Bool.false_eq_true, if_false, List.map_cons, List.map_nil] using htickets

end Tickets

end Runs

end AgentOpsGateway
