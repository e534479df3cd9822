import AgentOpsGateway.Policy

/-!
# Failing Closed

The policy layer is to return on every input, and to deny where it cannot judge. Neither
holds of every document that YAML can express. The startup check looks a tool up by
`entry["tool"]`, which may be missing, in a set, which needs a hash. The comparison with the
limit stands behind the `try`, so a limit that is no number raises there, one of too many
digits when it is printed, and `null`, an infinity, not-a-number or a flag may let a call pass.

## Main results

* `warnUnknownTools_returns_iff`: the startup check returns where every mapping for a known
  server names a tool that has a hash.
* `failsClosed_iff`: **the policy layer fails closed exactly where** the startup check returns
  and the limit that decides is one that is compared and denies, or nothing is compared.
-/

namespace AgentOpsGateway

open Python

/-! ### The startup check -/

/-- A warning of `warn_unknown_tools`, by what it names. -/
inductive PolicyWarning
  | unknownServer (agent server : Str)
  | unknownTool (agent : Str) (tool : Yaml) (server : Str)

/-- What a part of the startup check has logged, and what it raised. -/
abbrev Warned := List PolicyWarning × Option Raised

/-- A loop that logs, up to the first round that raises. -/
def warnEach {α : Type*} (round : α → Warned) : List α → Warned
  | [] => ([], none)
  | x :: xs =>
    match round x with
    | (logged, some e) => (logged, some e)
    | (logged, none) =>
      let rest := warnEach round xs
      (logged ++ rest.1, rest.2)

/-- `entry["tool"] if isinstance(entry, dict) else entry`. -/
def Entry.toolValue : Entry → Except Raised Yaml
  | .tool name => .ok (.str name)
  | .mapping fields =>
    match dictGet (lit "tool") fields with
    | none => .error .keyError
    | some value => .ok value

/-- `tool in names` for a set of strings; a collection has no hash. -/
def inNames (names : List Str) : Yaml → Except Raised Bool
  | .str name => .ok (name ∈ names)
  | .collection => .error .typeError
  | _ => .ok false

/-- The check of an entry. -/
def warnEntry (agent server : Str) (names : List Str) (entry : Entry) : Warned :=
  match entry.toolValue with
  | .error e => ([], some e)
  | .ok tool =>
    match inNames names tool with
    | .error e => ([], some e)
    | .ok true => ([], none)
    | .ok false => ([.unknownTool agent tool server], none)

/-- The check of the entries of a server; what is not known cannot be checked. -/
def warnServer (known : List (Str × List Str)) (agent : Str)
    (rules : Str × Option (List Entry)) : Warned :=
  match dictGet rules.1 known with
  | none => ([.unknownServer agent rules.1], none)
  | some names => warnEach (warnEntry agent rules.1 names) (rules.2.getD [])

/-- `Policy.warn_unknown_tools(known)`. -/
def Policy.warnUnknownTools (p : Policy) (known : List (Str × List Str)) : Warned :=
  warnEach (fun agent => warnEach (warnServer known agent.1) (agent.2.getD [])) p.agents

/-- The entry names a tool that has a hash, if it is a mapping. -/
def Entry.Named (entry : Entry) : Prop :=
  ∀ fields, entry = .mapping fields →
    ∃ tool, dictGet (lit "tool") fields = some tool ∧ tool ≠ .collection

/-- Every entry of a server that is known names its tool. -/
def Policy.Named (p : Policy) (known : List (Str × List Str)) : Prop :=
  ∀ agent ∈ p.agents, ∀ rules ∈ agent.2.getD [], (dictGet rules.1 known).isSome →
    ∀ entry ∈ rules.2.getD [], entry.Named

/-- A loop returns where all of its rounds do. -/
theorem warnEach_returns_iff {α : Type*} {round : α → Warned} {xs : List α} :
    (warnEach round xs).2 = none ↔ ∀ x ∈ xs, (round x).2 = none := by
  induction xs with
  | nil => simp [warnEach]
  | cons x xs ih =>
      rw [List.forall_mem_cons, ← ih, warnEach]
      obtain ⟨logged, raised⟩ := round x
      cases raised with
      | none => simp
      | some e => simp

/-- The check of an entry returns where it names its tool. -/
theorem warnEntry_returns_iff {agent server : Str} {names : List Str} {entry : Entry} :
    (warnEntry agent server names entry).2 = none ↔ entry.Named := by
  cases entry with
  | tool name =>
      have hnamed : (Entry.tool name).Named := fun fields h => by cases h
      by_cases hmem : name ∈ names <;> simp [warnEntry, Entry.toolValue, inNames, hmem, hnamed]
  | mapping fields =>
      have hnamed : (Entry.mapping fields).Named ↔
          ∃ tool, dictGet (lit "tool") fields = some tool ∧ tool ≠ .collection :=
        ⟨fun h => h fields rfl, fun h _ heq => Entry.mapping.inj heq ▸ h⟩
      rw [hnamed, warnEntry, Entry.toolValue]
      cases dictGet (lit "tool") fields with
      | none => simp
      | some tool =>
          cases tool with
          | str name => by_cases hmem : name ∈ names <;> simp [inNames, hmem]
          | null | bool b | int n | float m text | collection | other => simp [inNames]

/-- **When the startup check returns.** -/
theorem warnUnknownTools_returns_iff {p : Policy} {known : List (Str × List Str)} :
    (p.warnUnknownTools known).2 = none ↔ p.Named known := by
  simp only [Policy.warnUnknownTools, warnEach_returns_iff, Policy.Named]
  refine forall₂_congr fun agent _ => forall₂_congr fun rules _ => ?_
  rw [warnServer]
  cases dictGet rules.1 known with
  | none => simp
  | some names => simp [warnEach_returns_iff, warnEntry_returns_iff]

/-! ### The decision -/

/-- **What the policy layer is for**, beyond the permissions: the startup check returns, every
evaluation returns a decision, and a limit that is no finite number denies. -/
structure FailsClosed (py : Interpreter) (p : Policy) (known : List (Str × List Str))
    (agent server tool : Str) (args : Arguments) : Prop where
  checked : (p.warnUnknownTools known).2 = none
  decided : ∃ d, p.evaluate py agent server tool args = .ok d ∧ ∀ fields limit,
    (p.naming agent server tool).head? = some (.mapping fields) →
      dictGet (lit "max_range_hours") fields = some limit → limit.isFinite = false →
        d.allowed = false

/-- The arguments span a number of hours: both ends parse, both or neither carry an offset,
and they are in order. -/
def SpansHours (py : Interpreter) (args : Arguments) (hours : ℚ) : Prop :=
  ∃ start stop, argTime py args (lit "start") = .ok start ∧
    argTime py args (lit "end") = .ok stop ∧ start.offset.isSome = stop.offset.isSome ∧
    start.instant ≤ stop.instant ∧ hours = floatHours (stop.instant - start.instant)

/-- The arguments span the hours of their time range, where it is read and not negative. -/
theorem spansHours_iff {py : Interpreter} {args : Arguments} {hours : ℚ} :
    SpansHours py args hours ↔
      ∃ delta, timeRange py args = .ok delta ∧ 0 ≤ delta ∧ hours = floatHours delta := by
  simp only [SpansHours, timeRange_eq_ok_iff]
  constructor
  · rintro ⟨start, stop, hstart, hstop, haware, hle, rfl⟩
    exact ⟨_, ⟨start, stop, hstart, hstop, haware, rfl⟩, by omega, rfl⟩
  · rintro ⟨_, ⟨start, stop, hstart, hstop, haware, rfl⟩, hle, rfl⟩
    exact ⟨start, stop, hstart, hstop, haware, by omega, rfl⟩

/-- The check of a limit returns, and denies if the limit is no finite number. -/
def LimitChecked (py : Interpreter) (rule : Str) (fields : List (Str × Yaml)) (args : Arguments)
    (limit : Yaml) : Prop :=
  ∃ d, checkArgs floatHours py rule fields args = .ok d ∧
    (limit.isFinite = false → d.allowed = false)

section Limit

variable {py : Interpreter} {rule : Str} {fields : List (Str × Yaml)} {args : Arguments}
  {limit : Yaml}

/-- A limit that is compared: the check returns and denies what it has to where the limit
judges the hours. -/
theorem limitChecked_iff_judges {delta : ℤ}
    (hlimit : dictGet (lit "max_range_hours") fields = some limit) (hnull : limit ≠ .null)
    (hrange : timeRange py args = .ok delta) (hle : 0 ≤ delta) :
    LimitChecked py rule fields args limit ↔ limit.Judges (floatHours delta) := by
  have hneg := Int.not_lt.mpr hle
  cases limit with
  | null => exact absurd rfl hnull
  | bool b =>
      by_cases hlt : (if b then (1 : ℚ) else 0) < floatHours delta <;>
        simp [LimitChecked, checkArgs, hlimit, hrange, hneg, Yaml.below, Yaml.text, Yaml.Judges,
          Yaml.isFinite, hlt]
  | int n =>
      by_cases hlt : (n : ℚ) < floatHours delta <;> by_cases hn : isPrinted n <;>
        simp [LimitChecked, checkArgs, hlimit, hrange, hneg, Yaml.below, Yaml.text, Yaml.Judges,
          Yaml.isFinite, hlt, hn]
  | float m text =>
      cases m with
      | finite q =>
          by_cases hlt : q < floatHours delta <;>
            simp [LimitChecked, checkArgs, hlimit, hrange, hneg, Yaml.below, Magnitude.below,
              Yaml.text, Yaml.Judges, Yaml.isFinite, hlt]
      | posInf | negInf | nan =>
          simp [LimitChecked, checkArgs, hlimit, hrange, hneg, Yaml.below, Magnitude.below,
            Yaml.text, Yaml.Judges, Yaml.isFinite]
  | str s | collection | other =>
      simp [LimitChecked, checkArgs, hlimit, hrange, hneg, Yaml.below, Yaml.Judges]

/-- **When the check of a limit returns** and denies what is no finite number. -/
theorem limitChecked_iff (hlimit : dictGet (lit "max_range_hours") fields = some limit) :
    LimitChecked py rule fields args limit ↔
      limit ≠ .null ∧ ∀ hours, SpansHours py args hours → limit.Judges hours := by
  by_cases hnull : limit = .null
  · subst hnull
    simp [LimitChecked, checkArgs, hlimit, Yaml.isFinite]
  · simp only [spansHours_iff, ne_eq, hnull, not_false_eq_true, true_and]
    cases hrange : timeRange py args with
    | error e =>
        have hcheck : LimitChecked py rule fields args limit := by
          refine ⟨{ allowed := false, rule, detail := lit "invalid time range: " ++ e }, ?_,
            fun _ => rfl⟩
          cases limit with
          | null => exact absurd rfl hnull
          | bool b | int n | float m text | str s | collection | other =>
              simp only [checkArgs, hlimit, hrange]
        simp [hcheck]
    | ok delta =>
        by_cases hle : 0 ≤ delta
        · rw [limitChecked_iff_judges hlimit hnull hrange hle]
          simp [hle]
        · have hcheck : LimitChecked py rule fields args limit := by
            refine ⟨{ allowed := false, rule, detail := lit "time range end before start" }, ?_,
              fun _ => rfl⟩
            cases limit with
            | null => exact absurd rfl hnull
            | bool b | int n | float m text | str s | collection | other =>
                simp only [checkArgs, hlimit, hrange, if_pos (Int.not_le.mp hle)]
          simp [hcheck, hle]

end Limit

/-- The evaluation is that of the first entry that names the tool. -/
theorem evaluate_eq_head (py : Interpreter) (p : Policy) (agent server tool : Str)
    (args : Arguments) :
    p.evaluate py agent server tool args =
      match (p.naming agent server tool).head? with
      | none => .ok { allowed := false, rule := ruleOf agent server tool }
      | some (.tool _) => .ok { allowed := true, rule := ruleOf agent server tool }
      | some (.mapping fields) =>
        checkArgs floatHours py (ruleOf agent server tool) fields args := by
  rw [Policy.evaluate, Policy.evaluateWith, ← evaluateEntries_filter]
  change evaluateEntries floatHours py (ruleOf agent server tool) tool args
    (p.naming agent server tool) = _
  cases hnaming : p.naming agent server tool with
  | nil => rfl
  | cons entry entries =>
      have hnames : entry.names tool = true :=
        (List.mem_filter.mp (hnaming ▸ List.mem_cons_self : entry ∈ p.naming agent server tool)).2
      cases entry with
      | tool name =>
          rw [evaluateEntries, if_pos (of_decide_eq_true hnames)]
          rfl
      | mapping fields =>
          rw [evaluateEntries, if_pos (show namesTool fields tool = true from hnames)]
          rfl

/-- **When the policy layer fails closed.** The startup check has to find a tool with a hash
in every mapping for a known server. And where the first entry that names the tool has a
limit, it must not be `null`, and where the arguments span a time range, it must be compared
with it without an exception and deny it if it is no finite number. -/
theorem failsClosed_iff (py : Interpreter) (p : Policy) (known : List (Str × List Str))
    (agent server tool : Str) (args : Arguments) :
    FailsClosed py p known agent server tool args ↔
      p.Named known ∧ ∀ fields limit,
        (p.naming agent server tool).head? = some (.mapping fields) →
          dictGet (lit "max_range_hours") fields = some limit →
            limit ≠ .null ∧ ∀ hours, SpansHours py args hours → limit.Judges hours := by
  rw [← warnUnknownTools_returns_iff]
  constructor
  · rintro ⟨hchecked, d, hd, hdenied⟩
    refine ⟨hchecked, fun fields limit hfirst hlimit => ?_⟩
    rw [evaluate_eq_head, hfirst] at hd
    exact (limitChecked_iff hlimit).mp ⟨d, hd, hdenied fields limit hfirst hlimit⟩
  · rintro ⟨hchecked, hjudged⟩
    refine ⟨hchecked, ?_⟩
    rw [evaluate_eq_head]
    cases hfirst : (p.naming agent server tool).head? with
    | none => exact ⟨_, rfl, by simp⟩
    | some entry =>
        cases entry with
        | tool name => exact ⟨_, rfl, by simp⟩
        | mapping fields =>
            cases hlimit : dictGet (lit "max_range_hours") fields with
            | none =>
                refine ⟨{ allowed := true, rule := ruleOf agent server tool }, ?_, ?_⟩
                · simp [checkArgs, hlimit]
                · rintro _ limit ⟨rfl⟩ hlimit'
                  simp [hlimit] at hlimit'
            | some limit =>
                obtain ⟨d, hd, hdenied⟩ :=
                  (limitChecked_iff hlimit).mpr (hjudged fields limit hfirst hlimit)
                refine ⟨d, hd, ?_⟩
                rintro _ limit' ⟨rfl⟩ hlimit'
                obtain rfl := Option.some.inj (hlimit.symm.trans hlimit')
                exact hdenied

/-- The policy that allows `analyst-agent` the tool `query_logs` of `ops` up to a number of
hours, with the number in quotes. -/
def quotedPolicy : Policy :=
  ⟨[(lit "analyst-agent", some [(lit "ops", some [.mapping
    [(lit "tool", .str (lit "query_logs")), (lit "max_range_hours", .str (lit "24"))]])])]⟩

/-- **A quoted number raises**: the hours of a day are compared with the text `24`. -/
theorem failsClosed_fails :
    ¬FailsClosed ⟨100, fun _ => true⟩ quotedPolicy [(lit "ops", [lit "query_logs"])]
      (lit "analyst-agent") (lit "ops") (lit "query_logs") dayArguments := by
  rintro ⟨-, d, hd, -⟩
  have hraises : (quotedPolicy.evaluate ⟨100, fun _ => true⟩ (lit "analyst-agent") (lit "ops")
      (lit "query_logs") dayArguments).toOption.isNone = true := by decide +kernel
  simp [hd, Except.toOption] at hraises

end AgentOpsGateway
