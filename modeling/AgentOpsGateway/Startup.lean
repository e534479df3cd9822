import AgentOpsGateway.FailClosed
import AgentOpsGateway.HiddenBackend

/-!
# What the Startup Check Tells

A policy that misspells a tool denies without a word, so `lifespan` connects to the backends
before the gateway serves, and `warn_unknown_tools` compares the policy with what they list.
Here the warnings are compared with what the gateway then answers, in every run in which the
backends go on listing the tools that they listed at the start.

## Main results

* `lifespan_spec`: what the check is given is what the backends list when the loop is over.
* `mem_warnUnknownTools`: what a check that returns has warned of.
* `startup_check_exact`: **of the calls that the policy permits on a server that was reached,
  those that are warned of are answered `UNKNOWN_TOOL`, and the others are sent** or refused by
  the circuit breaker.
-/

namespace AgentOpsGateway

open Python Transition

/-! ### The loop of `lifespan` -/

/-- The state of the loop: the gateway, the names that were listed, and the backends of which
it is logged that they are unreachable. -/
structure Startup where
  shared : Shared
  known : List (Str × List Str)
  unreachable : List Str

/-- One turn of the loop, on the backend registered as `server`. -/
def lifespanTurn (ensure : Shared → Str → Shared × Bool) (st : Startup) (server : Str) : Startup :=
  match dictGet server st.shared.backends with
  | none => st
  | some backend =>
    let (shared, ok) := ensure st.shared server
    if ok then
      { st with
        shared
        known := dictSet backend.name (((shared.toolsOf server).getD []).map Tool.name) st.known }
    else { st with shared, unreachable := st.unreachable ++ [backend.name] }

/-- The loop of `lifespan` over the backends. -/
def lifespan (ensure : Shared → Str → Shared × Bool) (g : Shared) : Startup :=
  (g.backends.map Prod.fst).foldl (lifespanTurn ensure) ⟨g, [], []⟩

/-- `ensure_session` keeps what is listed, and lists the tools of a backend it connects to. -/
structure Connects (ensure : Shared → Str → Shared × Bool) : Prop where
  quiet : Quiet ensure
  lists : ∀ g server, g.Registered server → (ensure g server).2 = true →
    ((ensure g server).1.toolsOf server).isSome

/-- What is known of a server is what it lists. -/
def Backed (g : Shared) (known : List (Str × List Str)) : Prop :=
  ∀ server names, dictGet server known = some names →
    ∃ tools, g.toolsOf server = some tools ∧ ∀ name, name ∈ names ↔ name ∈ tools.map Tool.name

theorem Backed.keeps {g g' : Shared} {known : List (Str × List Str)} (h : Backed g known)
    (hkeeps : Keeps g g') : Backed g' known := by
  intro server names hknown
  obtain ⟨tools, htools, hnames⟩ := h server names hknown
  exact ⟨tools, hkeeps.tools server tools htools, hnames⟩

section Loop

variable {ensure : Shared → Str → Shared × Bool}

/-- **One turn** adds what the backend lists. -/
theorem lifespanTurn_spec (hensure : Connects ensure) {st : Startup} (hkeyed : st.shared.Keyed)
    (hbacked : Backed st.shared st.known) (server : Str) :
    Keeps st.shared (lifespanTurn ensure st server).shared ∧
      Backed (lifespanTurn ensure st server).shared (lifespanTurn ensure st server).known := by
  rw [lifespanTurn]
  cases hbackend : dictGet server st.shared.backends with
  | none => exact ⟨.refl st.shared, hbacked⟩
  | some backend =>
      have hkeeps := hensure.quiet st.shared server
      cases hok : (ensure st.shared server).2 with
      | false =>
          simp only [hok, Bool.false_eq_true, if_false]
          exact ⟨hkeeps, hbacked.keeps hkeeps⟩
      | true =>
          simp only [hok, if_true]
          refine ⟨hkeeps, fun server' names hnames => ?_⟩
          rw [dictGet_dictSet, hkeyed server backend hbackend] at hnames
          split at hnames
          · next hserver =>
              subst hserver
              have hregistered : st.shared.Registered server :=
                Option.isSome_iff_exists.mpr ⟨backend, hbackend⟩
              obtain ⟨tools, htools⟩ :=
                Option.isSome_iff_exists.mp (hensure.lists st.shared server hregistered hok)
              rw [htools, Option.getD_some, Option.some.injEq] at hnames
              exact ⟨tools, htools, fun name => by rw [← hnames]⟩
          · exact hbacked.keeps hkeeps server' names hnames

/-- **The loop** knows what the backends list. Induction on the servers that are left. -/
theorem foldl_lifespanTurn_spec (hensure : Connects ensure) (servers : List Str) :
    ∀ {st : Startup}, st.shared.Keyed → Backed st.shared st.known →
      Keeps st.shared (servers.foldl (lifespanTurn ensure) st).shared ∧
        Backed (servers.foldl (lifespanTurn ensure) st).shared
          (servers.foldl (lifespanTurn ensure) st).known := by
  induction servers with
  | nil => exact fun _ hbacked => ⟨.refl _, hbacked⟩
  | cons server servers ih =>
      intro st hkeyed hbacked
      obtain ⟨hkeeps, hbacked'⟩ := lifespanTurn_spec hensure hkeyed hbacked server
      obtain ⟨hkeeps', hbacked''⟩ := ih (hkeeps.keyed hkeyed) hbacked'
      exact ⟨hkeeps.trans hkeeps', hbacked''⟩

/-- What `lifespan` gives the check is what the backends list. -/
theorem lifespan_spec (hensure : Connects ensure) {g : Shared} (hkeyed : g.Keyed) :
    Keeps g (lifespan ensure g).shared ∧
      Backed (lifespan ensure g).shared (lifespan ensure g).known := by
  have hnothing : Backed g [] := fun server names h => by simp [dictGet] at h
  exact @foldl_lifespanTurn_spec ensure hensure _ ⟨g, [], []⟩ hkeyed hnothing

end Loop

/-! ### What the check warns of -/

section Check

variable {known : List (Str × List Str)} {agent server tool : Str} {names : List Str}

/-- A loop that returns has logged what its rounds have. -/
theorem mem_warnEach {α : Type*} {round : α → Warned} {xs : List α} {w : PolicyWarning}
    (h : (warnEach round xs).2 = none) :
    w ∈ (warnEach round xs).1 ↔ ∃ x ∈ xs, w ∈ (round x).1 := by
  induction xs with
  | nil => simp [warnEach]
  | cons x xs ih =>
      rw [warnEach_returns_iff, List.forall_mem_cons, ← warnEach_returns_iff] at h
      obtain ⟨hround, hrest⟩ := h
      have heq : warnEach round (x :: xs) =
          ((round x).1 ++ (warnEach round xs).1, (warnEach round xs).2) := by
        rw [warnEach]
        cases hx : round x with
        | mk logged raised =>
            obtain rfl : raised = none := by simpa only [hx] using hround
            rfl
      simp [heq, ih hrest]

/-- An entry is warned of where its tool is not listed. -/
theorem mem_warnEntry {agent' server' : Str} {entry : Entry} :
    .unknownTool agent (.str tool) server ∈ (warnEntry agent' server' names entry).1 ↔
      agent' = agent ∧ server' = server ∧ entry.toolValue = .ok (.str tool) ∧ tool ∉ names := by
  rw [warnEntry]
  cases entry.toolValue with
  | error e => simp
  | ok value =>
      cases value with
      | str name =>
          by_cases hmem : name ∈ names
          · simp only [inNames, hmem, decide_true, List.not_mem_nil, false_iff, Except.ok.injEq,
              Yaml.str.injEq]
            rintro ⟨-, -, rfl, hnot⟩
            exact hnot hmem
          · simp only [inNames, hmem, decide_false, List.mem_singleton,
              PolicyWarning.unknownTool.injEq, Except.ok.injEq, Yaml.str.injEq]
            constructor
            · rintro ⟨rfl, rfl, rfl⟩
              exact ⟨rfl, rfl, rfl, hmem⟩
            · rintro ⟨rfl, rfl, rfl, -⟩
              exact ⟨rfl, rfl, rfl⟩
      | null | bool b | int n | float m text | collection | other => simp [inNames]

/-- The entries of a known server are checked. -/
theorem mem_warnServer {agent' : Str} {rules : Str × Option (List Entry)}
    (hreturns : (warnServer known agent' rules).2 = none)
    (hknown : dictGet server known = some names) :
    .unknownTool agent (.str tool) server ∈ (warnServer known agent' rules).1 ↔
      agent' = agent ∧ rules.1 = server ∧
        (∃ entry ∈ rules.2.getD [], entry.toolValue = .ok (.str tool)) ∧ tool ∉ names := by
  rw [warnServer] at hreturns ⊢
  cases hrules : dictGet rules.1 known with
  | none =>
      have hne : rules.1 ≠ server := by
        rintro rfl
        simp [hknown] at hrules
      simp [hne]
  | some names' =>
      rw [hrules] at hreturns
      simp only [mem_warnEach hreturns, mem_warnEntry]
      constructor
      · rintro ⟨entry, hentry, hagent, hserver, hvalue, hnot⟩
        obtain rfl : names' = names := by
          rw [hserver, hknown, Option.some.injEq] at hrules
          exact hrules.symm
        exact ⟨hagent, hserver, ⟨entry, hentry, hvalue⟩, hnot⟩
      · rintro ⟨hagent, hserver, ⟨entry, hentry, hvalue⟩, hnot⟩
        obtain rfl : names' = names := by
          rw [hserver, hknown, Option.some.injEq] at hrules
          exact hrules.symm
        exact ⟨entry, hentry, hagent, hserver, hvalue, hnot⟩

/-- A row of the policy has the entry. -/
def Policy.Has (p : Policy) (agent server : Str) (entry : Entry) : Prop :=
  ∃ row ∈ p.agents, row.1 = agent ∧ ∃ rules ∈ row.2.getD [], rules.1 = server ∧
    entry ∈ rules.2.getD []

/-- **What the check has warned of** where it returns: the tools in the policy that a known
server does not list. -/
theorem mem_warnUnknownTools {p : Policy} (hreturns : (p.warnUnknownTools known).2 = none)
    (hknown : dictGet server known = some names) :
    .unknownTool agent (.str tool) server ∈ (p.warnUnknownTools known).1 ↔
      (∃ entry, p.Has agent server entry ∧ entry.toolValue = .ok (.str tool)) ∧
        tool ∉ names := by
  have hrow : ∀ row ∈ p.agents,
      (warnEach (warnServer known row.1) (row.2.getD [])).2 = none :=
    warnEach_returns_iff.mp hreturns
  have hrules : ∀ row ∈ p.agents, ∀ rules ∈ row.2.getD [],
      (warnServer known row.1 rules).2 = none :=
    fun row hmem => warnEach_returns_iff.mp (hrow row hmem)
  rw [Policy.warnUnknownTools, mem_warnEach hreturns]
  constructor
  · rintro ⟨row, hmem, hw⟩
    obtain ⟨rules, hmem', hw⟩ := (mem_warnEach (hrow row hmem)).mp hw
    obtain ⟨hagent, hserver, ⟨entry, hentry, hvalue⟩, hnot⟩ :=
      (mem_warnServer (hrules row hmem rules hmem') hknown).mp hw
    exact ⟨⟨entry, ⟨row, hmem, hagent, rules, hmem', hserver, hentry⟩, hvalue⟩, hnot⟩
  · rintro ⟨⟨entry, ⟨row, hmem, hagent, rules, hmem', hserver, hentry⟩, hvalue⟩, hnot⟩
    refine ⟨row, hmem, (mem_warnEach (hrow row hmem)).mpr ⟨rules, hmem', ?_⟩⟩
    exact (mem_warnServer (hrules row hmem rules hmem') hknown).mpr
      ⟨hagent, hserver, ⟨entry, hentry, hvalue⟩, hnot⟩

/-- The entry that names a tool has its name. -/
theorem toolValue_of_names {entry : Entry} (h : entry.names tool = true) :
    entry.toolValue = .ok (.str tool) := by
  cases entry with
  | tool name =>
      obtain rfl : name = tool := of_decide_eq_true h
      rfl
  | mapping fields =>
      simp only [Entry.names, namesTool] at h
      split at h
      · next name hname =>
          obtain rfl : name = tool := of_decide_eq_true h
          simp only [Entry.toolValue, hname]
      · simp at h

/-- What the policy permits is in one of its rows. -/
theorem exists_entry_of_isPermitted {cfg : Settings} {r : Request}
    (h : isPermitted cfg r server tool = true) :
    ∃ entry, cfg.policy.Has r.agent server entry ∧ entry.toolValue = .ok (.str tool) := by
  simp only [isPermitted] at h
  split at h
  · next d hd =>
      rw [Policy.evaluate, Policy.evaluateWith] at hd
      obtain ⟨entry, hhead, -⟩ := (allowed_of_evaluateEntries hd).mp h
      obtain ⟨hmem, hnames⟩ := List.mem_filter.mp (List.mem_of_head? hhead)
      obtain ⟨servers, entries, hrow, hrules, hentry⟩ := Policy.exists_of_mem_entries hmem
      exact ⟨entry, ⟨_, hrow, rfl, _, hrules, rfl, hentry⟩, toolValue_of_names hnames⟩
  · simp at h

end Check

/-! ### Every later run -/

section Runs

variable {cfg : Settings} {st₀ st st' : Gateway} {as : List Action} {i : ℕ} {t : Task}
  {known : List (Str × List Str)} {server tool : Str} {names : List Str}

/-- A connection task that lists the tools of a known server lists those that are known. -/
def Relists (known : List (Str × List Str)) (a : Action) : Prop :=
  ∀ server tools names, a = .load server tools → dictGet server known = some names →
    ∀ name, name ∈ names ↔ name ∈ tools.map Tool.name

/-- **One step** keeps what is known of the servers true. -/
theorem Backed.step {a : Action} (h : Backed st.shared known) (hrelists : Relists known a)
    (hstep : (gateway cfg).step st a = some st') : Backed st'.shared known := by
  intro server names hknown
  obtain ⟨tools, htools, hnames⟩ := h server names hknown
  rcases backends_step hstep with heq | ⟨server', tools', rfl, heq⟩
  · exact ⟨tools, by rw [Shared.toolsOf, heq]; exact htools, hnames⟩
  · by_cases hserver : server' = server
    · subst hserver
      refine ⟨tools', ?_, hrelists server' tools' names rfl hknown⟩
      obtain ⟨backend, hbackend, -⟩ := Option.bind_eq_some_iff.mp htools
      simp [Shared.toolsOf, heq, Shared.dictGet_load, hbackend]
    · refine ⟨tools, ?_, hnames⟩
      rw [← htools, ← toolsOf_load_of_ne hserver st.shared tools', Shared.toolsOf, heq,
        Shared.toolsOf]

/-- What is known of the servers stays true. -/
theorem Backed.run (h : Backed st₀.shared known) (hrelists : ∀ a ∈ as, Relists known a)
    (hrun : (gateway cfg).exec st₀ as = some st) : Backed st.shared known :=
  System.invariant (I := fun st => Backed st.shared known) (C := fun _ a => Relists known a)
    (fun _ _ _ hbacked hrelist hstep => hbacked.step hrelist hstep) h
    (System.each_of_mem fun a ha _ => hrelists a ha) hrun

/-- The gates behind the listing are asked in a state of the run, as are those before it. -/
theorem backed_of_run (hinit : st₀.tasks = []) (h : Backed st₀.shared known)
    (hrelists : ∀ a ∈ as, Relists known a) (hrun : (gateway cfg).exec st₀ as = some st)
    (ht : st.tasks[i]? = some t) : Backed t.arrival known ∧ Backed t.late known := by
  have hrecorded := recorded_of_run hinit hrun ht
  have harrival : Backed t.arrival known := by
    obtain ⟨as₁, as₂, st₁, rfl, hrun₁, -, hshared⟩ := hrecorded.arrival
    rw [← hshared]
    exact h.run (fun a ha => hrelists a (List.mem_append_left _ ha)) hrun₁
  refine ⟨harrival, ?_⟩
  cases hreload : t.reload with
  | none => simpa only [Task.late, hreload] using harrival
  | some reload =>
      obtain ⟨ok, g⟩ := reload
      obtain ⟨as₁, as₂, st₁, rfl, hrun₁, hshared⟩ := hrecorded.reload ok g hreload
      simp only [Task.late, hreload]
      rw [← hshared]
      exact h.run (fun a ha => hrelists a (List.mem_append_left _ ha)) hrun₁

/-- On a known server what is left to ask, of what the policy permits, is whether the tool is
listed and whether the circuit is closed. -/
theorem firstUnpassed_of_backed (harrival : Backed t.arrival known) (hlate : Backed t.late known)
    (htoken : Gate.verdict cfg t .rateLimit = some true)
    (htarget : split t.request.name = some (server, tool))
    (hknown : dictGet server known = some names)
    (hpermitted : isPermitted cfg t.request server tool = true) :
    Gate.verdict cfg t .known = some (decide (tool ∈ names)) ∧
      t.firstUnpassed cfg =
        [Gate.known, .circuit].find? fun gate => gate.verdict cfg t ≠ some true := by
  have hserver : t.server = server := by simp [Task.server, htarget]
  have htool : t.tool = tool := by simp [Task.tool, htarget]
  obtain ⟨tools, htools, -⟩ := harrival server names hknown
  obtain ⟨backend, hbackend, -⟩ := Option.bind_eq_some_iff.mp htools
  have hnamespaced : Gate.verdict cfg t .namespaced = some true := by
    simp [Gate.verdict, htarget]
  have hregistered : Gate.verdict cfg t .registered = some true := by
    simp [Gate.verdict, hserver, hbackend]
  have hlisted : Gate.verdict cfg t .listed = some true := by
    simp [Gate.verdict, hserver, htools]
  have hpolicy : Gate.verdict cfg t .permitted = some true := by
    simp [Gate.verdict, hserver, htool, hpermitted]
  constructor
  · obtain ⟨tools', htools', hnames'⟩ := hlate server names hknown
    simp only [Gate.verdict, isKnown, hserver, htool, htools', Option.getD_some, hnames' tool]
  · cases hgate : Gate.verdict cfg t .known with
    | none => simp [Gate.verdict] at hgate
    | some passed =>
        cases passed <;> simp [Task.firstUnpassed, Gate.order, htoken, hnamespaced, hregistered,
          hlisted, hpolicy, hgate]

/-- **What the startup check tells.** Let `lifespan` connect to the backends, and let the check
of a policy of the documented shape return. In every later run, whatever the limiter and the
breaker do and however the requests interleave, as long as the servers that were reached go on
listing the same tools: a request for such a server that is not over its rate, and that the
policy permits, is answered `UNKNOWN_TOOL` if the check has warned of its tool, and else sent or
refused by the breaker. -/
theorem startup_check_exact {ensure : Shared → Str → Shared × Bool} (hensure : Connects ensure)
    {g₀ : Shared} (hkeyed : g₀.Keyed) (hdoc : cfg.policy.Documented)
    (hreturns : (cfg.policy.warnUnknownTools (lifespan ensure g₀).known).2 = none)
    (hrelists : ∀ a ∈ as, Relists (lifespan ensure g₀).known a)
    (hrun : (gateway cfg).exec ⟨(lifespan ensure g₀).shared, []⟩ as = some st)
    (ht : st.tasks[i]? = some t) (htarget : split t.request.name = some (server, tool))
    (hreached : dictGet server (lifespan ensure g₀).known = some names)
    (htoken : Gate.verdict cfg t .rateLimit = some true)
    (hpermitted : isPermitted cfg t.request server tool = true) :
    (.unknownTool t.request.agent (.str tool) server ∈
        (cfg.policy.warnUnknownTools (lifespan ensure g₀).known).1 →
      t.sent = none ∧ ∃ fields, t.phase = .returned (errorResult .unknownTool fields) .error) ∧
    (.unknownTool t.request.agent (.str tool) server ∉
        (cfg.policy.warnUnknownTools (lifespan ensure g₀).known).1 →
      t.sent.isSome = true ∨ t.sent = none ∧
        ∃ fields, t.phase = .returned (errorResult .backendUnavailable fields) .error) := by
  have hbacked := (lifespan_spec hensure hkeyed).2
  obtain ⟨harrival, hlate⟩ := backed_of_run rfl hbacked hrelists hrun ht
  obtain ⟨hverdict, hfirst⟩ :=
    firstUnpassed_of_backed harrival hlate htoken htarget hreached hpermitted
  have hmed := mediated_of_run hdoc rfl hrun ht
  rw [mem_warnUnknownTools hreturns hreached]
  have hentry := exists_entry_of_isPermitted hpermitted
  simp only [Mediated] at hmed
  constructor
  · rintro ⟨-, hnot⟩
    have hfalse : Gate.verdict cfg t .known = some false := by
      rw [hverdict, decide_eq_false hnot]
    rw [hfirst, List.find?_cons_of_pos (by simp [hfalse])] at hmed
    exact ⟨hmed.1, hmed.2 hfalse⟩
  · intro hsilent
    have hmem : tool ∈ names := by
      by_contra hnot
      exact hsilent ⟨hentry, hnot⟩
    rw [decide_eq_true hmem] at hverdict
    rw [List.find?_cons_of_neg (by simp [hverdict])] at hfirst
    cases hcircuit : (t.late.allowCircuit t.server).1 with
    | true =>
        have hpasses : Gate.verdict cfg t .circuit = some true := by simp [Gate.verdict, hcircuit]
        rw [List.find?_cons_of_neg (by simp [hpasses]), List.find?_nil] at hfirst
        rw [hfirst] at hmed
        obtain ⟨d, hd, -⟩ := hmed
        exact .inl (by rw [hd]; rfl)
    | false =>
        have hfails : Gate.verdict cfg t .circuit = some false := by simp [Gate.verdict, hcircuit]
        rw [hfirst, List.find?_cons_of_pos (by simp [hfails])] at hmed
        exact .inr ⟨hmed.1, hmed.2 hfails⟩

end Runs

/-- A policy with a misspelt tool beside the one of the small gateway. -/
def misspeltPolicy : Policy :=
  ⟨[(lit "dev-agent", some
    [(lit "ticket", some [.tool (lit "creat_ticket"), .tool (lit "create_ticket")])])]⟩

/-- The policy has the documented shape. -/
theorem misspeltPolicy_documented : misspeltPolicy.Documented := by
  intro agent server entry hentry
  obtain ⟨servers, entries, hagent, hserver, hmem⟩ := Policy.exists_of_mem_entries hentry
  simp only [misspeltPolicy, List.mem_singleton, Prod.mk.injEq, Option.some.injEq] at hagent
  obtain ⟨-, rfl⟩ := hagent
  simp only [List.mem_singleton, Prod.mk.injEq, Option.some.injEq] at hserver
  obtain ⟨-, rfl⟩ := hserver
  rcases List.mem_pair.mp hmem with rfl | rfl <;> trivial

/-- Where it connects, the backend lists its tool. -/
theorem sampleEnsure_connects : Connects sampleEnsure where
  quiet := sampleEnsure_quiet
  lists g server hregistered _ := by
    simp only [sampleEnsure]
    split_ifs with hlisted
    · exact hlisted
    · obtain ⟨backend, hbackend⟩ := Option.isSome_iff_exists.mp hregistered
      simp [Shared.toolsOf, Shared.dictGet_load, hbackend]

/-- A request for the misspelt tool, and one for the other. -/
def misspeltActions : List Action :=
  [.arrive ⟨lit "dev-agent", lit "ticket__creat_ticket", []⟩, .arrive sampleRequest]

/-- The gateway behind its start. -/
def misspeltStart : Gateway :=
  ⟨(lifespan sampleEnsure (sampleStart none false).shared).shared, []⟩

/-- Both requests run. -/
theorem exec_misspeltActions : ∃ st t u,
    (gateway ⟨⟨100, fun _ => true⟩, misspeltPolicy⟩).exec misspeltStart misspeltActions = some st ∧
      st.tasks[0]? = some t ∧ st.tasks[1]? = some u ∧
      (t.request = ⟨lit "dev-agent", lit "ticket__creat_ticket", []⟩ ∧ t.arrival.limiter = none) ∧
      u.request = sampleRequest ∧ u.arrival.limiter = none :=
  ⟨_, _, _, rfl, rfl, rfl, ⟨rfl, rfl⟩, rfl, rfl⟩

/-- What was listed at the start of the small gateway. -/
theorem known_misspeltStart :
    (lifespan sampleEnsure (sampleStart none false).shared).known =
      [(lit "ticket", [lit "create_ticket"])] := rfl

/-- What the check warns of. -/
theorem warnUnknownTools_misspeltPolicy :
    misspeltPolicy.warnUnknownTools [(lit "ticket", [lit "create_ticket"])] =
      ([.unknownTool (lit "dev-agent") (.str (lit "creat_ticket")) (lit "ticket")], none) := rfl

/-- The misspelt tool is warned of and unknown, the other one is sent. -/
theorem startup_check_exact_sample : ∃ st t u,
    (gateway ⟨⟨100, fun _ => true⟩, misspeltPolicy⟩).exec misspeltStart misspeltActions = some st ∧
    st.tasks[0]? = some t ∧ st.tasks[1]? = some u ∧
    (t.sent = none ∧ ∃ fields, t.phase = .returned (errorResult .unknownTool fields) .error) ∧
    (u.sent.isSome = true ∨ u.sent = none ∧
      ∃ fields, u.phase = .returned (errorResult .backendUnavailable fields) .error) := by
  obtain ⟨st, t, u, hrun, ht, hu, ⟨hrequest, hlimiter⟩, hrequest', hlimiter'⟩ :=
    exec_misspeltActions
  have hkeyed : (sampleStart none false).shared.Keyed := (sampleStart_named none false).keyed
  have hreturns : (misspeltPolicy.warnUnknownTools
      (lifespan sampleEnsure (sampleStart none false).shared).known).2 = none := by
    rw [known_misspeltStart, warnUnknownTools_misspeltPolicy]
  have hrelists : ∀ a ∈ misspeltActions,
      Relists (lifespan sampleEnsure (sampleStart none false).shared).known a := by
    rintro a ha server tools names rfl
    simp [misspeltActions] at ha
  have hreached : dictGet (lit "ticket")
      (lifespan sampleEnsure (sampleStart none false).shared).known =
        some [lit "create_ticket"] := rfl
  have hexact := fun (i : ℕ) (t : Task) (ht : st.tasks[i]? = some t) (tool : Str) =>
    @startup_check_exact _ st misspeltActions i t (lit "ticket") tool [lit "create_ticket"]
      sampleEnsure sampleEnsure_connects (sampleStart none false).shared hkeyed
      misspeltPolicy_documented hreturns hrelists hrun ht
  refine ⟨st, t, u, hrun, ht, hu, ?_, ?_⟩
  · refine (hexact 0 t ht (lit "creat_ticket") ?_ hreached ?_ ?_).1 ?_
    · rw [hrequest]
      rfl
    · simp [Gate.verdict, Shared.takeToken, hlimiter]
    · rw [hrequest]
      rfl
    · rw [hrequest, known_misspeltStart, warnUnknownTools_misspeltPolicy]
      exact List.mem_singleton_self _
  · refine (hexact 1 u hu (lit "create_ticket") ?_ hreached ?_ ?_).2 ?_
    · rw [hrequest']
      rfl
    · simp [Gate.verdict, Shared.takeToken, hlimiter']
    · rw [hrequest']
      rfl
    · rw [hrequest', known_misspeltStart, warnUnknownTools_misspeltPolicy]
      intro hmem
      have htool := List.mem_singleton.mp hmem
      simp only [PolicyWarning.unknownTool.injEq, Yaml.str.injEq] at htool
      exact absurd htool.2.1 (by decide)

end AgentOpsGateway
