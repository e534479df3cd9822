import AgentOpsGateway.DateTime
import AgentOpsGateway.Errors
import AgentOpsGateway.Yaml

/-!
# The Policy Engine

A policy maps agents to servers to lists of entries. A string entry allows the tool it
names; a mapping allows the tool under its key `tool`, and where it has a
`max_range_hours`, only for a time range in the arguments of at most that length. The
first entry that names the tool decides, and what no entry names is denied.

`evaluate` is partial: a limit that is present but not a number raises the `TypeError` of
the comparison, and one of too many digits the `ValueError` of the message, which is why its
result is an `Except`.

## Main results

* `Policy.evaluate_documented`: **on a policy of the documented shape `evaluate` always
  returns**, a decision that carries the rule it was asked about.
* `evaluate_iff`: **the decision is that of the first entry that names the tool**, and it
  depends on the entries that name the tool alone. It is about hours as exact rationals; the
  code compares floats.
-/

namespace AgentOpsGateway

open Python

/-- The outcome of a policy evaluation. -/
structure Decision where
  allowed : Bool
  /-- `<agent>:<server>:<tool>`. -/
  rule : Str
  detail : Option Str := none
  deriving DecidableEq

/-- An entry of a policy: a tool name, or a mapping. Fields under other keys than strings are
left out: none is ever looked up. -/
inductive Entry
  | tool (name : Str)
  | mapping (fields : List (Str × Yaml))

/-- A policy document; an agent or a server without a value is `none`. -/
structure Policy where
  agents : List (Str × Option (List (Str × Option (List Entry))))

/-- The JSON arguments of a call. -/
abbrev Arguments := List (Str × Json)

/-- `f"{agent_id}:{server}:{tool}"`. -/
def ruleOf (agent server tool : Str) : Str := agent ++ lit ":" ++ server ++ lit ":" ++ tool

/-- `datetime.fromisoformat(args[key])`, or the text of what it raises. -/
def argTime (py : Interpreter) (args : Arguments) (key : Str) : Except Str DateTime :=
  match dictGet key args with
  | none => .error (repr py key)
  | some (.str s) => fromisoformat py s
  | some _ => .error (lit "fromisoformat: argument must be str")

/-- `end - start` of the arguments in microseconds, or the text of what it raises. -/
def timeRange (py : Interpreter) (args : Arguments) : Except Str ℤ := do
  let start ← argTime py args (lit "start")
  let stop ← argTime py args (lit "end")
  stop.sub start

/-- `delta.total_seconds() / 3600` as the float Python computes. -/
def floatHours (delta : ℤ) : ℚ := toDouble (toDouble (delta / 1000000) / 3600)

/-- The hours of a time range as an exact rational. -/
def exactHours (delta : ℤ) : ℚ := delta / 3600000000

/-- `Policy._check_args`: the limit of a mapping against the time range of the arguments,
whose hours are compared as `hoursOf` gives them. -/
def checkArgs (hoursOf : ℤ → ℚ) (py : Interpreter) (rule : Str) (fields : List (Str × Yaml))
    (args : Arguments) : Except Raised Decision :=
  match dictGet (lit "max_range_hours") fields with
  | none | some .null => .ok { allowed := true, rule }
  | some maxHours =>
    match timeRange py args with
    | .error e => .ok { allowed := false, rule, detail := lit "invalid time range: " ++ e }
    | .ok delta =>
      if delta < 0 then
        .ok { allowed := false, rule, detail := lit "time range end before start" }
      else
        match maxHours.below (hoursOf delta) with
        | none => .error .typeError
        | some true =>
          match maxHours.text with
          | none => .error .valueError
          | some text =>
            .ok { allowed := false, rule,
                  detail := lit "time range " ++ formatG (floatHours delta) ++
                    lit "h exceeds max " ++ text ++ lit "h" }
        | some false => .ok { allowed := true, rule }

/-- `entry.get("tool") == tool` of a mapping. -/
def namesTool (fields : List (Str × Yaml)) (tool : Str) : Bool :=
  match dictGet (lit "tool") fields with
  | some (.str name) => name = tool
  | _ => false

/-- The loop of `Policy.evaluate` over the entries of a server. -/
def evaluateEntries (hoursOf : ℤ → ℚ) (py : Interpreter) (rule tool : Str)
    (args : Arguments) : List Entry → Except Raised Decision
  | [] => .ok { allowed := false, rule }
  | .mapping fields :: entries =>
    if namesTool fields tool then checkArgs hoursOf py rule fields args
    else evaluateEntries hoursOf py rule tool args entries
  | .tool name :: entries =>
    if name = tool then .ok { allowed := true, rule }
    else evaluateEntries hoursOf py rule tool args entries

namespace Policy

/-- The entries for an agent and a server; a missing or empty value has none. -/
def entries (p : Policy) (agent server : Str) : List Entry :=
  let servers := ((dictGet agent p.agents).getD none).getD []
  ((dictGet server servers).getD none).getD []

/-- `Policy.evaluate`, with the hours of a time range compared as `hoursOf` gives them. -/
def evaluateWith (p : Policy) (hoursOf : ℤ → ℚ) (py : Interpreter) (agent server tool : Str)
    (args : Arguments) : Except Raised Decision :=
  evaluateEntries hoursOf py (ruleOf agent server tool) tool args (p.entries agent server)

/-- `Policy.evaluate`, which compares floats. -/
def evaluate (py : Interpreter) (p : Policy) (agent server tool : Str) (args : Arguments) :
    Except Raised Decision :=
  p.evaluateWith floatHours py agent server tool args

end Policy

/-- Entries are found under the keys of the document. -/
theorem Policy.exists_of_mem_entries {p : Policy} {agent server : Str} {entry : Entry}
    (h : entry ∈ p.entries agent server) :
    ∃ servers entries, (agent, some servers) ∈ p.agents ∧ (server, some entries) ∈ servers ∧
      entry ∈ entries := by
  simp only [Policy.entries] at h
  cases hagent : dictGet agent p.agents with
  | none => simp [hagent, dictGet] at h
  | some rules =>
      cases rules with
      | none => simp [hagent, dictGet] at h
      | some servers =>
          cases hserver : dictGet server servers with
          | none => simp [hagent, hserver] at h
          | some row =>
              cases row with
              | none => simp [hagent, hserver] at h
              | some entries =>
                  exact ⟨servers, entries, mem_of_dictGet hagent, mem_of_dictGet hserver,
                    by simpa [hagent, hserver] using h⟩

/-! ### Policies of the documented shape -/

/-- A mapping of the documented shape: a tool name and, optionally, a numeric limit. -/
def Entry.Documented : Entry → Prop
  | .tool _ => True
  | .mapping fields =>
    (∃ name, dictGet (lit "tool") fields = some (.str name)) ∧
      ∀ limit, dictGet (lit "max_range_hours") fields = some limit → limit.isNumber

/-- Every entry of the policy has the documented shape. -/
def Policy.Documented (p : Policy) : Prop :=
  ∀ agent server, ∀ entry ∈ p.entries agent server, entry.Documented

/-- A number is compared with the hours and printed without an exception. -/
theorem below_of_isNumber {v : Yaml} (hv : v.isNumber) (x : ℚ) :
    (∃ b, v.below x = some b) ∧ ∃ text, v.text = some text := by
  cases v with
  | int n => exact ⟨⟨_, rfl⟩, _, if_pos hv⟩
  | float m text => exact ⟨⟨_, rfl⟩, _, rfl⟩
  | null | bool b | str s | collection | other => simp [Yaml.isNumber] at hv

/-- The limit check of a documented mapping returns a decision with the given rule. -/
theorem checkArgs_documented (hoursOf : ℤ → ℚ) (py : Interpreter) (rule : Str)
    {fields : List (Str × Yaml)} (hdoc : (Entry.mapping fields).Documented) (args : Arguments) :
    ∃ d, checkArgs hoursOf py rule fields args = .ok d ∧ d.rule = rule := by
  simp only [checkArgs]
  split
  · exact ⟨_, rfl, rfl⟩
  · exact ⟨_, rfl, rfl⟩
  · next limit _ hlimit =>
      split
      · exact ⟨_, rfl, rfl⟩
      · next delta _ =>
          split
          · exact ⟨_, rfl, rfl⟩
          · obtain ⟨⟨b, hb⟩, text, htext⟩ :=
              below_of_isNumber (hdoc.2 limit hlimit) (hoursOf delta)
            simp only [hb, htext]
            cases b with
            | true => exact ⟨_, rfl, rfl⟩
            | false => exact ⟨_, rfl, rfl⟩

/-- The loop over documented entries returns a decision with the given rule. Induction on
the entries: the first one that names the tool decides. -/
theorem evaluateEntries_documented (hoursOf : ℤ → ℚ) (py : Interpreter) (rule tool : Str)
    (args : Arguments) {entries : List Entry} (hdoc : ∀ entry ∈ entries, entry.Documented) :
    ∃ d, evaluateEntries hoursOf py rule tool args entries = .ok d ∧ d.rule = rule := by
  induction entries with
  | nil => exact ⟨_, rfl, rfl⟩
  | cons entry entries ih =>
      have ih := ih fun e he => hdoc e (List.mem_cons_of_mem entry he)
      cases entry with
      | tool name =>
          by_cases hname : name = tool
          · refine ⟨{ allowed := true, rule }, ?_, rfl⟩
            simp only [evaluateEntries, if_pos hname]
          · simpa only [evaluateEntries, if_neg hname] using ih
      | mapping fields =>
          by_cases hnames : namesTool fields tool
          · simpa only [evaluateEntries, if_pos hnames] using
              checkArgs_documented hoursOf py rule (hdoc _ List.mem_cons_self) args
          · simpa only [evaluateEntries, if_neg hnames] using ih

/-- However hours are compared, the evaluation of a policy of the documented shape returns
with the rule it was asked about. -/
theorem Policy.evaluateWith_documented (hoursOf : ℤ → ℚ) (py : Interpreter) {p : Policy}
    (hdoc : p.Documented) (agent server tool : Str) (args : Arguments) :
    ∃ d, p.evaluateWith hoursOf py agent server tool args = .ok d ∧
      d.rule = ruleOf agent server tool :=
  evaluateEntries_documented hoursOf py _ tool args (hdoc agent server)

/-- **`evaluate` returns on every policy of the documented shape**, with the rule it was
asked about. -/
theorem Policy.evaluate_documented (py : Interpreter) {p : Policy} (hdoc : p.Documented)
    (agent server tool : Str) (args : Arguments) :
    ∃ d, p.evaluate py agent server tool args = .ok d ∧ d.rule = ruleOf agent server tool :=
  p.evaluateWith_documented floatHours py hdoc agent server tool args

/-- A decision of the limit check carries the given rule. -/
theorem rule_of_checkArgs {hoursOf : ℤ → ℚ} {py : Interpreter} {rule : Str}
    {fields : List (Str × Yaml)} {args : Arguments} {d : Decision}
    (hd : checkArgs hoursOf py rule fields args = .ok d) : d.rule = rule := by
  simp only [checkArgs] at hd
  split at hd
  · exact (Except.ok.inj hd) ▸ rfl
  · exact (Except.ok.inj hd) ▸ rfl
  · split at hd
    · exact (Except.ok.inj hd) ▸ rfl
    · split at hd
      · exact (Except.ok.inj hd) ▸ rfl
      · split at hd
        · cases hd
        · split at hd
          · cases hd
          · exact (Except.ok.inj hd) ▸ rfl
        · exact (Except.ok.inj hd) ▸ rfl

/-- A decision carries the rule it was asked about, whatever the shape of the policy.
Induction on the entries. -/
theorem rule_of_evaluateEntries {hoursOf : ℤ → ℚ} {py : Interpreter} {rule tool : Str}
    {args : Arguments} {entries : List Entry} {d : Decision}
    (hd : evaluateEntries hoursOf py rule tool args entries = .ok d) : d.rule = rule := by
  induction entries with
  | nil => exact (Except.ok.inj hd) ▸ rfl
  | cons entry entries ih =>
      cases entry with
      | tool name =>
          rw [evaluateEntries] at hd
          split at hd
          · exact (Except.ok.inj hd) ▸ rfl
          · exact ih hd
      | mapping fields =>
          rw [evaluateEntries] at hd
          split at hd
          · exact rule_of_checkArgs hd
          · exact ih hd

/-! ### What is permitted -/

/-- The entry names the tool. -/
def Entry.names (tool : Str) : Entry → Bool
  | .tool name => name = tool
  | .mapping fields => namesTool fields tool

/-- The entries for an agent and a server that name a tool. -/
def Policy.naming (p : Policy) (agent server tool : Str) : List Entry :=
  (p.entries agent server).filter (Entry.names tool)

/-- The arguments span a time range of at most the limit: both ends parse, both or neither
carry an offset, and they are in order. -/
def SpansWithin (py : Interpreter) (args : Arguments) (limit : Yaml) : Prop :=
  ∃ start stop, argTime py args (lit "start") = .ok start ∧ argTime py args (lit "end") = .ok stop ∧
    start.offset.isSome = stop.offset.isSome ∧ start.instant ≤ stop.instant ∧
    limit.Within ((stop.instant - start.instant : ℤ) / 3600000000)

/-- The entry permits the tool it names for the arguments. -/
def Entry.Permits (py : Interpreter) (args : Arguments) : Entry → Prop
  | .tool _ => True
  | .mapping fields =>
    ∀ limit, dictGet (lit "max_range_hours") fields = some limit → SpansWithin py args limit

/-- The time range of the arguments is read where both ends parse and both or neither are
aware; it is the difference of their instants. -/
theorem timeRange_eq_ok_iff {py : Interpreter} {args : Arguments} {delta : ℤ} :
    timeRange py args = .ok delta ↔
      ∃ start stop, argTime py args (lit "start") = .ok start ∧
        argTime py args (lit "end") = .ok stop ∧
        start.offset.isSome = stop.offset.isSome ∧ delta = stop.instant - start.instant := by
  simp only [timeRange]
  cases argTime py args (lit "start") with
  | error e => simp [bind, Except.bind]
  | ok start =>
      cases argTime py args (lit "end") with
      | error e => simp [bind, Except.bind]
      | ok stop =>
          simp only [bind, Except.bind, DateTime.sub_eq_ok_iff, eq_comm (a := stop.offset.isSome)]
          constructor
          · exact fun h => ⟨start, stop, rfl, rfl, h⟩
          · rintro ⟨_, _, hstart, hstop, h⟩
            obtain rfl := Except.ok.inj hstart
            obtain rfl := Except.ok.inj hstop
            exact h

/-- The arguments span a range within the limit exactly where their time range is read, not
negative and not above the limit. -/
theorem spansWithin_iff {py : Interpreter} {args : Arguments} {limit : Yaml}
    (hlimit : limit.isNumber) :
    SpansWithin py args limit ↔ ∃ delta, timeRange py args = .ok delta ∧ 0 ≤ delta ∧
      limit.below (delta / 3600000000) = some false := by
  simp only [Yaml.below_eq_false_iff hlimit, timeRange_eq_ok_iff, SpansWithin]
  constructor
  · rintro ⟨start, stop, hstart, hstop, haware, hle, hwithin⟩
    exact ⟨_, ⟨start, stop, hstart, hstop, haware, rfl⟩, by omega, hwithin⟩
  · rintro ⟨_, ⟨start, stop, hstart, hstop, haware, rfl⟩, hle, hwithin⟩
    exact ⟨start, stop, hstart, hstop, haware, by omega, hwithin⟩

/-- The entry lets the arguments pass where hours are compared as `hoursOf` gives them. -/
def Entry.Passes (hoursOf : ℤ → ℚ) (py : Interpreter) (args : Arguments) : Entry → Prop
  | .tool _ => True
  | .mapping fields =>
    ∀ limit, dictGet (lit "max_range_hours") fields = some limit → limit ≠ .null →
      ∃ delta, timeRange py args = .ok delta ∧ 0 ≤ delta ∧
        limit.below (hoursOf delta) = some false

/-- A documented entry lets pass what it permits, where hours are exact. -/
theorem passes_exactHours_iff {py : Interpreter} {args : Arguments} {entry : Entry}
    (hdoc : entry.Documented) : entry.Passes exactHours py args ↔ entry.Permits py args := by
  cases entry with
  | tool name => exact Iff.rfl
  | mapping fields =>
      have hnum := fun limit hlimit => hdoc.2 limit hlimit
      simp only [Entry.Passes, Entry.Permits]
      refine forall₂_congr fun limit hlimit => ?_
      have hnull : limit ≠ .null := by
        rintro rfl
        exact absurd (hnum _ hlimit) (by simp [Yaml.isNumber])
      rw [spansWithin_iff (hnum limit hlimit)]
      exact ⟨fun h => h hnull, fun h _ => h⟩

section Allowed

variable {hoursOf : ℤ → ℚ} {py : Interpreter} {rule tool : Str} {args : Arguments} {d : Decision}

/-- **The limit check allows exactly what the mapping lets pass.** -/
theorem allowed_of_checkArgs {fields : List (Str × Yaml)}
    (h : checkArgs hoursOf py rule fields args = .ok d) :
    d.allowed = true ↔ (Entry.mapping fields).Passes hoursOf py args := by
  simp only [checkArgs] at h
  split at h
  · next hlimit =>
      obtain rfl := Except.ok.inj h
      simp [Entry.Passes, hlimit]
  · next hlimit =>
      obtain rfl := Except.ok.inj h
      simp [Entry.Passes, hlimit]
  · next limit hnull hlimit =>
      have hnull : limit ≠ .null := hnull
      simp only [Entry.Passes, hlimit, Option.some.injEq, forall_eq', hnull, ne_eq,
        not_false_eq_true, forall_true_left]
      split at h
      · next e hrange =>
          obtain rfl := Except.ok.inj h
          simp [hrange]
      · next delta hrange =>
          simp only [hrange, Except.ok.injEq, exists_eq_left']
          split at h
          · next hneg =>
              obtain rfl := Except.ok.inj h
              simp [Int.not_le.mpr hneg]
          · next hle =>
              split at h
              · simp at h
              · next habove =>
                  split at h
                  · simp at h
                  · obtain rfl := Except.ok.inj h
                    simp [habove]
              · next hbelow =>
                  obtain rfl := Except.ok.inj h
                  simp [hbelow, Int.not_lt.mp hle]

/-- The loop decides by the first entry that names the tool. Induction on the entries: those
that do not name it are passed over. -/
theorem allowed_of_evaluateEntries {entries : List Entry}
    (h : evaluateEntries hoursOf py rule tool args entries = .ok d) :
    d.allowed = true ↔ ∃ entry,
      (entries.filter (Entry.names tool)).head? = some entry ∧ entry.Passes hoursOf py args := by
  induction entries with
  | nil =>
      obtain rfl := Except.ok.inj h
      simp
  | cons entry entries ih =>
      by_cases hnames : entry.names tool
      · simp only [List.filter_cons_of_pos hnames, List.head?_cons, Option.some.injEq,
          exists_eq_left']
        cases entry with
        | tool name =>
            rw [evaluateEntries, if_pos (of_decide_eq_true hnames)] at h
            obtain rfl := Except.ok.inj h
            simp [Entry.Passes]
        | mapping fields =>
            rw [evaluateEntries, if_pos (show namesTool fields tool = true from hnames)] at h
            exact allowed_of_checkArgs h
      · rw [List.filter_cons_of_neg hnames]
        cases entry with
        | tool name =>
            rw [evaluateEntries, if_neg fun hname => hnames (decide_eq_true hname)] at h
            exact ih h
        | mapping fields =>
            rw [evaluateEntries, if_neg (show ¬namesTool fields tool = true from hnames)] at h
            exact ih h

end Allowed

/-- Entries that do not name the tool do not count. -/
theorem evaluateEntries_filter (hoursOf : ℤ → ℚ) (py : Interpreter) (rule tool : Str)
    (args : Arguments) (entries : List Entry) :
    evaluateEntries hoursOf py rule tool args (entries.filter (Entry.names tool)) =
      evaluateEntries hoursOf py rule tool args entries := by
  induction entries with
  | nil => rfl
  | cons entry entries ih =>
      by_cases hnames : entry.names tool
      · rw [List.filter_cons_of_pos hnames]
        cases entry with
        | tool name => simp only [evaluateEntries, ih]
        | mapping fields => simp only [evaluateEntries, ih]
      · rw [List.filter_cons_of_neg hnames, ih]
        cases entry with
        | tool name =>
            rw [evaluateEntries, if_neg fun hname => hnames (decide_eq_true hname)]
        | mapping fields =>
            rw [evaluateEntries, if_neg (show ¬namesTool fields tool = true from hnames)]

/-- **Default deny.** On a policy of the documented shape, where hours are compared as exact
rationals, the decision carries the rule `agent:server:tool` and allows the call exactly
where the first entry for the agent and the server that names the tool permits it; any other
policy with the same such entries decides the same. -/
theorem evaluate_iff (py : Interpreter) {p : Policy} (hdoc : p.Documented)
    (agent server tool : Str) (args : Arguments) :
    ∃ d, p.evaluateWith exactHours py agent server tool args = .ok d ∧
      d.rule = ruleOf agent server tool ∧
      (d.allowed = true ↔
        ∃ entry, (p.naming agent server tool).head? = some entry ∧ entry.Permits py args) ∧
      ∀ q : Policy, q.naming agent server tool = p.naming agent server tool →
        q.evaluateWith exactHours py agent server tool args = .ok d := by
  obtain ⟨d, hd, hrule⟩ := p.evaluateWith_documented exactHours py hdoc agent server tool args
  have hfilter := fun q : Policy =>
    evaluateEntries_filter exactHours py (ruleOf agent server tool) tool args
      (q.entries agent server)
  refine ⟨d, hd, hrule, ?_, fun q hq => ?_⟩
  · rw [allowed_of_evaluateEntries hd]
    refine exists_congr fun entry => and_congr_right fun hentry => passes_exactHours_iff ?_
    exact hdoc agent server entry (List.mem_of_mem_filter (List.mem_of_head? hentry))
  · calc q.evaluateWith exactHours py agent server tool args
        = evaluateEntries exactHours py (ruleOf agent server tool) tool args
            (q.naming agent server tool) := (hfilter q).symm
      _ = evaluateEntries exactHours py (ruleOf agent server tool) tool args
            (p.naming agent server tool) := by rw [hq]
      _ = .ok d := (hfilter p).trans hd

/-- A policy that allows `analyst-agent` the tool `query_logs` of `ops`, up to a number of
hours. -/
def cappedPolicy (hours : ℤ) : Policy :=
  ⟨[(lit "analyst-agent", some [(lit "ops", some [.mapping
    [(lit "tool", .str (lit "query_logs")), (lit "max_range_hours", .int hours)]])])]⟩

/-- The policy has the documented shape. -/
theorem cappedPolicy_documented {hours : ℤ} (hhours : isPrinted hours) :
    (cappedPolicy hours).Documented := by
  intro agent server entry hentry
  by_cases hagent : lit "analyst-agent" = agent
  · by_cases hserver : lit "ops" = server
    · simp [cappedPolicy, Policy.entries, dictGet, hagent, hserver] at hentry
      subst hentry
      refine ⟨⟨lit "query_logs", by simp [dictGet]⟩, fun limit hlimit => ?_⟩
      rw [dictGet, if_neg (by decide), dictGet, if_pos rfl, Option.some.injEq] at hlimit
      exact hlimit ▸ hhours
    · simp [cappedPolicy, Policy.entries, dictGet, hagent, hserver] at hentry
  · simp [cappedPolicy, Policy.entries, dictGet, hagent] at hentry

/-- A request for the logs of a day, up to the next midnight of another offset. -/
def dayArguments : Arguments :=
  [(lit "query", .str []), (lit "start", .str (lit "2026-07-01T00:00:00+00:00")),
    (lit "end", .str (lit "2026-07-02T09:00:00+09:00"))]

theorem evaluate_iff_sample :
    ∃ d, (cappedPolicy 24).evaluateWith exactHours ⟨100, fun _ => true⟩ (lit "analyst-agent")
        (lit "ops") (lit "query_logs") dayArguments = .ok d ∧
      d.rule = ruleOf (lit "analyst-agent") (lit "ops") (lit "query_logs") ∧
      (d.allowed = true ↔ ∃ entry,
        ((cappedPolicy 24).naming (lit "analyst-agent") (lit "ops") (lit "query_logs")).head? =
          some entry ∧ entry.Permits ⟨100, fun _ => true⟩ dayArguments) ∧
      ∀ q : Policy, q.naming (lit "analyst-agent") (lit "ops") (lit "query_logs") =
          (cappedPolicy 24).naming (lit "analyst-agent") (lit "ops") (lit "query_logs") →
        q.evaluateWith exactHours ⟨100, fun _ => true⟩ (lit "analyst-agent") (lit "ops")
          (lit "query_logs") dayArguments = .ok d :=
  evaluate_iff _ (cappedPolicy_documented (by decide)) _ _ _ _

end AgentOpsGateway
