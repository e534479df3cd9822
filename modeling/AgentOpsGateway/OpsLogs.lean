import Mathlib.Tactic.Positivity
import AgentOpsGateway.Calendar
import AgentOpsGateway.Policy

/-!
# The Log Search of the Ops Server

`query_logs` makes up a line for every hour mark between two times and returns those that
match a query. It sets no bound on the range: the gateway's policy does, from the same two
strings, which it reads on its own. The gateway compares raw differences and refuses a mix of
aware and naive times; the server takes a missing offset for UTC, rounds the start down to
the hour of its own offset, and counts up in wall-clock hours.

The loop is given with the marks it visits, whether or not it ends in the `OverflowError` of
a mark beyond the year 9999.
-/

namespace AgentOpsGateway

open Python

/-! ### The server -/

/-- `random.Random`: what a seed starts, and how an index up to a bound is drawn. -/
structure Random (σ : Type*) where
  seed : ℤ → σ
  index : (last : ℕ) → σ → Fin (last + 1) × σ

/-- `rng.choice(seq)` of a sequence that is not empty. -/
def Random.choice {σ : Type*} (rng : Random σ) (state : σ) : List Str → Str × σ
  | [] => ([], state)
  | first :: rest =>
    let (i, state) := rng.index rest.length state
    ((first :: rest).get i, state)

/-- `_LEVELS`. -/
def levels : List Str := [lit "INFO", lit "INFO", lit "INFO", lit "WARN", lit "ERROR"]

/-- `_COMPONENTS`. -/
def components : List Str :=
  [lit "gateway", lit "ticket-server", lit "docs-server", lit "ops-server", lit "auth"]

/-- `_MESSAGES`. -/
def messages : List Str :=
  [lit "request completed", lit "connection pool exhausted", lit "retrying upstream call",
    lit "cache miss", lit "token validated", lit "slow query detected"]

/-- The first of January 1970 in UTC, in microseconds from the first of January of year 1. -/
def epochMicros : ℤ := 719162 * dayMicros

/-- `int(ts.timestamp())` of an aware datetime. -/
def timestampSeconds (ts : DateTime) : ℤ :=
  let micros := ts.instant - epochMicros
  let seconds := ⌊toDouble (micros.natAbs / 1000000)⌋
  if micros < 0 then -seconds else seconds

/-- The line of an hour mark. -/
def logLine {σ : Type*} (rng : Random σ) (ts : DateTime) : Str :=
  let (level, state) := rng.choice (rng.seed (timestampSeconds ts)) levels
  let (component, state) := rng.choice state components
  let (message, _) := rng.choice state messages
  ts.isoformat ++ lit " " ++ level ++ lit " [" ++ component ++ lit "] " ++ message

/-- What `query_logs` raises. -/
inductive LogsError
  | valueError (message : Str)
  | overflowError

/-- What `query_logs` returns. -/
structure LogsResult where
  lines : List Str
  count : ℕ

/-- `ts.replace(tzinfo=timezone.utc)`, where there is no offset. -/
def assumeUtc (ts : DateTime) : DateTime :=
  { ts with
    offset := some (ts.offset.getD 0)
    offset_range := by
      cases h : ts.offset with
      | none => simp [dayMicros]
      | some o => simpa using ts.offset_range o h }

/-- `_parse_iso(value, name)`, or the text of its `ValueError`. -/
def parseIso (py : Interpreter) (value name : Str) : Except Str DateTime :=
  match fromisoformat py value with
  | .error _ => .error (lit "invalid ISO8601 for " ++ repr py name ++ lit ": " ++ repr py value)
  | .ok ts => .ok (assumeUtc ts)

/-- An hour in microseconds. -/
def hourMicros : ℤ := 3600000000

/-- Add the line of a mark, where it matches the query in any case. -/
def addLine {σ : Type*} (rng : Random σ) (lower : Str → Str) (query : Str) (ts : DateTime)
    (lines : List Str) : List Str :=
  if occursIn (lower query) (lower (logLine rng ts)) then lines ++ [logLine rng ts] else lines

/-- The loop of `query_logs` from a mark on: the marks it visits, and the lines it has in the
end. -/
def hourLoop {σ : Type*} (rng : Random σ) (lower : Str → Str) (query : Str) (stop ts : DateTime)
    (lines : List Str) : List DateTime × Except LogsError (List Str) :=
  if ts.instant ≤ stop.instant then
    match hnext : ts.add hourMicros with
    | none => ([ts], .error .overflowError)
    | some next =>
      have := DateTime.instant_add hnext
      let rest := hourLoop rng lower query stop next (addLine rng lower query ts lines)
      (ts :: rest.1, rest.2)
  else ([], .ok lines)
termination_by (stop.instant - ts.instant + 1).toNat
decreasing_by
  simp only [hourMicros] at this
  omega

/-- `query_logs(query, start, end)`, with the hour marks its loop visits. -/
def queryLogs {σ : Type*} (py : Interpreter) (rng : Random σ) (lower : Str → Str)
    (query start stop : Str) : List DateTime × Except LogsError LogsResult :=
  match parseIso py start (lit "start") with
  | .error e => ([], .error (.valueError e))
  | .ok startTs =>
    match parseIso py stop (lit "end") with
    | .error e => ([], .error (.valueError e))
    | .ok endTs =>
      if endTs.instant < startTs.instant then
        ([], .error (.valueError (lit "end must not be before start")))
      else
        let (marks, r) := hourLoop rng lower query endTs startTs.floorHour []
        (marks, r.map fun lines => ⟨lines, lines.length⟩)

/-! ### The loop -/

/-- A missing offset counts as UTC. -/
@[simp] theorem instant_assumeUtc (ts : DateTime) : (assumeUtc ts).instant = ts.instant := rfl

section Loop

variable {σ : Type*} {rng : Random σ} {lower : Str → Str} {query : Str} {stop : DateTime}

/-- **The loop visits the hour marks up to the end**, or fewer where it overflows. -/
theorem length_marks_le (ts : DateTime) (lines : List Str) :
    ((hourLoop rng lower query stop ts lines).1.length : ℤ) ≤
      max 0 ((stop.instant - ts.instant) / hourMicros + 1) := by
  fun_induction hourLoop rng lower query stop ts lines with
  | case1 ts lines hle hnone =>
      simp only [hourMicros, List.length_singleton]
      omega
  | case2 ts lines hle next hnext hinstant rest ih =>
      simp only [rest, hourMicros, List.length_cons] at hinstant ih ⊢
      omega
  | case3 ts lines hlt => simp

/-- All that the loop raises is the overflow of a mark. -/
theorem error_of_hourLoop (ts : DateTime) (lines : List Str) {e : LogsError}
    (h : (hourLoop rng lower query stop ts lines).2 = .error e) : e = .overflowError := by
  fun_induction hourLoop rng lower query stop ts lines with
  | case1 ts lines hle hnone => exact (Except.error.inj h).symm
  | case2 ts lines hle next hnext hinstant rest ih => exact ih h
  | case3 ts lines hlt => simp at h

/-- Every line belongs to a mark. -/
theorem length_lines_le (ts : DateTime) (lines : List Str) {lines' : List Str}
    (h : (hourLoop rng lower query stop ts lines).2 = .ok lines') :
    lines'.length ≤ lines.length + (hourLoop rng lower query stop ts lines).1.length := by
  fun_induction hourLoop rng lower query stop ts lines with
  | case1 ts lines hle hnone => simp at h
  | case2 ts lines hle next hnext hinstant rest ih =>
      have hline : (addLine rng lower query ts lines).length ≤ lines.length + 1 := by
        simp only [addLine]
        split <;> simp
      have := ih h
      simp only [rest, List.length_cons]
      omega
  | case3 ts lines hlt =>
      obtain rfl := Except.ok.inj h
      simp

/-- The loop visits all of the hour marks where none of them is out of range. Induction on
their number. -/
theorem length_marks_eq (k : ℕ) : ∀ (ts : DateTime) (lines : List Str),
    (stop.instant - ts.instant) / hourMicros = k →
    ts.wallMicros + k * hourMicros < maxOrdinal * dayMicros →
    (hourLoop rng lower query stop ts lines).1.length = k + 1 := by
  induction k with
  | zero =>
      intro ts lines hk hwall
      have hle : ts.instant ≤ stop.instant := by
        simp only [hourMicros] at hk
        omega
      rw [hourLoop, if_pos hle]
      split
      · rfl
      · next next hnext =>
          have hinstant := DateTime.instant_add hnext
          have hlt : ¬next.instant ≤ stop.instant := by
            simp only [hourMicros] at hk hinstant
            omega
          rw [hourLoop, if_neg hlt]
          rfl
  | succ k ih =>
      intro ts lines hk hwall
      have hle : ts.instant ≤ stop.instant := by
        simp only [hourMicros] at hk
        omega
      have hnonneg := ts.wallMicros_nonneg
      have hsome : (ts.add hourMicros).isSome := by
        refine DateTime.add_isSome ?_ ?_ <;>
        · simp only [hourMicros, maxOrdinal, dayMicros] at hwall ⊢
          push_cast at hwall
          omega
      rw [hourLoop, if_pos hle]
      split
      · next hnone => simp [hnone] at hsome
      · next next hnext =>
          have hinstant := DateTime.instant_add hnext
          have hshift := (DateTime.add_eq_some hnext).1
          rw [List.length_cons, ih next _ ?_ ?_]
          · simp only [hourMicros] at hk hinstant ⊢
            omega
          · simp only [hourMicros, maxOrdinal, dayMicros] at hshift hwall ⊢
            push_cast at hwall
            omega

end Loop

/-! ### What the gateway lets pass -/

/-- **An allowed range**: where the first entry for `query_logs` has an integer limit, both
texts are times, both or neither with an offset, in order and not above the limit. -/
theorem range_of_allowed {hoursOf : ℤ → ℚ} {py : Interpreter} {p : Policy} {agent : Str}
    {fields : List (Str × Yaml)} {hours : ℤ} {args : Arguments} {start stop : Str} {d : Decision}
    (hfirst : (p.naming agent (lit "ops") (lit "query_logs")).head? = some (.mapping fields))
    (hlimit : dictGet (lit "max_range_hours") fields = some (.int hours))
    (hstart : dictGet (lit "start") args = some (.str start))
    (hstop : dictGet (lit "end") args = some (.str stop))
    (hd : p.evaluateWith hoursOf py agent (lit "ops") (lit "query_logs") args = .ok d)
    (hallowed : d.allowed = true) :
    ∃ t₁ t₂, fromisoformat py start = .ok t₁ ∧ fromisoformat py stop = .ok t₂ ∧
      t₁.instant ≤ t₂.instant ∧ hoursOf (t₂.instant - t₁.instant) ≤ hours := by
  obtain ⟨entry, hentry, hpasses⟩ := (allowed_of_evaluateEntries hd).mp hallowed
  obtain rfl : Entry.mapping fields = entry := Option.some.inj (hfirst.symm.trans hentry)
  obtain ⟨delta, hrange, hnonneg, hbelow⟩ := hpasses _ hlimit (by simp)
  obtain ⟨t₁, t₂, ht₁, ht₂, -, rfl⟩ := timeRange_eq_ok_iff.mp hrange
  simp only [argTime, hstart] at ht₁
  simp only [argTime, hstop] at ht₂
  refine ⟨t₁, t₂, ht₁, ht₂, by omega, ?_⟩
  simpa [Yaml.below] using hbelow

/-- A time that is not over has a positive number of seconds, also as a float. -/
theorem seconds_pos {delta : ℤ} (hdelta : 0 < delta) :
    (0 : ℚ) < delta / 1000000 ∧ (0 : ℚ) < toDouble (delta / 1000000) / 3600 := by
  have hseconds : (0 : ℚ) < delta / 1000000 :=
    div_pos (by exact_mod_cast hdelta) (by norm_num)
  have hfloat := le_toDouble hseconds
  have hfloat_pos : (0 : ℚ) < toDouble (delta / 1000000) := lt_of_lt_of_le (by linarith) hfloat
  exact ⟨hseconds, div_pos hfloat_pos (by norm_num)⟩

/-- The float of the hours is below them by no more than its last place. -/
theorem le_floatHours {delta : ℤ} (hdelta : 0 < delta) :
    (delta / 3600000000 : ℚ) * (1 - 1 / 4503599627370496) ≤ floatHours delta := by
  obtain ⟨hseconds_pos, hhours_pos⟩ := seconds_pos hdelta
  have hseconds := le_toDouble hseconds_pos
  have hhours := le_toDouble hhours_pos
  refine le_trans ?_ hhours
  linarith

/-- Below `2 ^ 34` seconds the float of a microsecond above an integer of hours is above it. -/
theorem lt_floatHours {delta hours : ℤ} (hdelta : 0 < delta)
    (hsmall : delta < 17179869184 * 1000000) (hlt : hours * hourMicros < delta) :
    (hours : ℚ) < floatHours delta := by
  obtain ⟨hseconds_pos, hhours_pos⟩ := seconds_pos hdelta
  simp only [floatHours]
  set seconds := (delta : ℚ) / 1000000 with hseconds
  set e := Int.log 2 seconds
  set f := Int.log 2 (toDouble seconds / 3600)
  have hulp : (0 : ℚ) < 2 ^ (e - 52) := zpow_pos (by norm_num) _
  have hlarge : (e : ℤ) < 34 := by
    refine (Int.lt_zpow_iff_log_lt (by norm_num) hseconds_pos).mp ?_
    have : (delta : ℚ) < 17179869184 * 1000000 := by exact_mod_cast hsmall
    rw [hseconds, div_lt_iff₀ (by norm_num)]
    norm_num
    linarith
  -- the seconds are rounded to a float above the limit, which is above it by its last place
  have hfloat : ((hours * 3600 : ℤ) : ℚ) < toDouble seconds := by
    have hround := sub_half_le_toDouble seconds
    have hplace : (2 : ℚ) ^ (e - 52) ≤ 2 ^ (-19 : ℤ) :=
      zpow_le_zpow_right₀ (by norm_num) (by omega)
    have hone : (hours : ℚ) * 3600000000 + 1 ≤ delta := by
      exact_mod_cast Int.add_one_le_of_lt hlt
    norm_num at hplace
    push_cast
    linarith
  have hgap := add_le_toDouble (show e ≤ 52 by omega) hfloat
  -- dividing by 3600 takes off eleven binary digits, and the last place with them
  have hdigits : f + 11 ≤ e := by
    have hlog : (2 : ℚ) ^ f ≤ toDouble seconds / 3600 :=
      Int.zpow_log_le_self (by norm_num) hhours_pos
    have htop := toDouble_le seconds
    have hpow : (2 : ℚ) ^ (f + 11) < 2 ^ (e + 1) := by
      have : (0 : ℚ) < 2 ^ f := zpow_pos (by norm_num) _
      rw [zpow_add₀ (by norm_num)]
      norm_num
      linarith
    have := (zpow_lt_zpow_iff_right₀ (by norm_num : (1 : ℚ) < 2)).mp hpow
    omega
  have hplace : (2 : ℚ) ^ (f - 52) ≤ 2 ^ (e - 52) / 2048 := by
    calc (2 : ℚ) ^ (f - 52) ≤ 2 ^ (e - 52 - 11) := zpow_le_zpow_right₀ (by norm_num) (by omega)
      _ = 2 ^ (e - 52) / 2048 := by
        rw [zpow_sub₀ (by norm_num)]
        norm_num
  have hround := sub_half_le_toDouble (toDouble seconds / 3600)
  push_cast at hgap
  linarith

/-- A datetime has an instant of the years it may lie in, by a day more or less. -/
theorem instant_bounds (t : DateTime) :
    -(dayMicros : ℤ) < t.instant ∧ t.instant < 3652061 * dayMicros := by
  have hmonths : ∀ leap : Bool, ∀ month < 13, daysBefore leap month ≤ 335 := by decide
  have hmonth : daysBeforeMonth t.year t.month ≤ 335 :=
    hmonths (isLeap t.year) t.month (by have := t.month_range; omega)
  have hyear : daysBeforeYear t.year ≤ 3651694 := by
    have := t.year_range
    simp only [daysBeforeYear]
    omega
  have hday : t.day ≤ 31 := by
    have := t.day_range.2
    simp only [daysInMonth] at this
    split_ifs at this <;> omega
  have hordinal : toOrdinal t.year t.month t.day ≤ 3652060 := by
    simp only [toOrdinal]
    omega
  have hoffset : -(dayMicros : ℤ) < t.offset.getD 0 ∧ t.offset.getD 0 < dayMicros := by
    cases ho : t.offset with
    | none => decide
    | some o => exact t.offset_range o ho
  have hwall := t.wallMicros_nonneg
  have hhour := t.hour_range
  have hminute := t.minute_range
  have hsecond := t.second_range
  have hmicrosecond := t.microsecond_range
  simp only [DateTime.instant, DateTime.wallMicros, dayMicros] at hoffset hwall ⊢
  omega

/-- A time range that is not above a limit in floats is above it by less than an hour, and
not at all up to `2 ^ 34` seconds. -/
theorem le_of_floatHours_le {t₁ t₂ : DateTime} {hours : ℤ} (hhours : 0 ≤ hours)
    (hle : floatHours (t₂.instant - t₁.instant) ≤ hours) :
    t₂.instant - t₁.instant < (hours + 1) * hourMicros ∧
      (hours ≤ 4772185 → t₂.instant - t₁.instant ≤ hours * hourMicros) := by
  have hmax : t₂.instant - t₁.instant ≤ 3652062 * dayMicros := by
    have h₁ := instant_bounds t₁
    have h₂ := instant_bounds t₂
    omega
  generalize t₂.instant - t₁.instant = delta at hle hmax ⊢
  by_cases hpos : 0 < delta
  · have hfloat := (le_floatHours hpos).trans hle
    have hmax : (delta : ℚ) ≤ 3652062 * 86400000000 := by exact_mod_cast hmax
    constructor
    · by_contra hge
      have hge : ((hours : ℚ) + 1) * 3600000000 ≤ delta := by exact_mod_cast not_lt.mp hge
      linarith
    · intro hsmall
      by_contra hlt
      have hsmall : (hours : ℚ) ≤ 4772185 := by exact_mod_cast hsmall
      have hseconds : (delta : ℚ) < 17179869184 * 1000000 := by linarith
      exact absurd hle (not_le.mpr
        (lt_floatHours hpos (by exact_mod_cast hseconds) (not_le.mp hlt)))
  · simp only [hourMicros]
    exact ⟨by omega, by omega⟩

/-! ### The cap -/

/-- What a search is promised with at most `n` hour marks: the times pass its own checks, the
loop visits no more marks, and there are no more lines, which are counted right. -/
structure Capped (n : ℤ) (search : List DateTime × Except LogsError LogsResult) : Prop where
  accepted : ∀ message, search.2 ≠ .error (.valueError message)
  marks : (search.1.length : ℤ) ≤ n
  count : ∀ r, search.2 = .ok r → r.count = r.lines.length ∧ (r.count : ℤ) ≤ n

section Search

variable {σ : Type*} {py : Interpreter} {rng : Random σ} {lower : Str → Str}
  {query start stop : Str} {t₁ t₂ : DateTime}

/-- The search of two times in order is the loop between them. -/
theorem queryLogs_eq (ht₁ : fromisoformat py start = .ok t₁) (ht₂ : fromisoformat py stop = .ok t₂)
    (hle : t₁.instant ≤ t₂.instant) :
    queryLogs py rng lower query start stop =
      ((hourLoop rng lower query (assumeUtc t₂) (assumeUtc t₁).floorHour []).1,
        (hourLoop rng lower query (assumeUtc t₂) (assumeUtc t₁).floorHour []).2.map
          fun lines => ⟨lines, lines.length⟩) := by
  simp [queryLogs, parseIso, ht₁, ht₂, Int.not_lt.mpr hle]

/-- A range between two times is searched with a mark for each hour it reaches into. -/
theorem capped_of_range {n : ℤ} (ht₁ : fromisoformat py start = .ok t₁)
    (ht₂ : fromisoformat py stop = .ok t₂) (hle : t₁.instant ≤ t₂.instant)
    (hn : t₂.instant - t₁.instant ≤ n * hourMicros - hourMicros) :
    Capped n (queryLogs py rng lower query start stop) := by
  rw [queryLogs_eq ht₁ ht₂ hle]
  set loop := hourLoop rng lower query (assumeUtc t₂) (assumeUtc t₁).floorHour []
  have hfloor := (assumeUtc t₁).floorHour_instant
  have hmarks : (loop.1.length : ℤ) ≤ n := by
    have : (loop.1.length : ℤ) ≤ max 0
        (((assumeUtc t₂).instant - (assumeUtc t₁).floorHour.instant) / hourMicros + 1) :=
      length_marks_le _ _
    simp only [instant_assumeUtc, hourMicros] at hfloor this hn
    omega
  refine ⟨fun message h => ?_, hmarks, fun r hr => ?_⟩
  · cases hend : loop.2 with
    | error e =>
        obtain rfl := error_of_hourLoop _ _ hend
        simp [hend, Except.map] at h
    | ok lines => simp [hend, Except.map] at h
  · cases hend : loop.2 with
    | error e => simp [hend, Except.map] at hr
    | ok lines =>
        simp only [hend, Except.map, Except.ok.injEq] at hr
        obtain rfl := hr
        have hlines : lines.length ≤ 0 + loop.1.length := length_lines_le _ _ hend
        exact ⟨rfl, by dsimp only; omega⟩

end Search

/-- **The cap binds the scan.** Where the first entry for an agent's `query_logs` on `ops`
has an integer limit and the policy allows the call, the search of the same texts is
accepted by the server and visits at most one hour mark more than the limit, if hours are
compared exactly or the limit is below `2 ^ 34` seconds. Compared as floats they may hide a
rest from a larger limit, and there is at most one mark more. -/
theorem cap_binds {σ : Type*} (rng : Random σ) (lower : Str → Str) {py : Interpreter}
    {p : Policy} {agent : Str} {fields : List (Str × Yaml)} {hours : ℤ} (hhours : 0 ≤ hours)
    (hfirst : (p.naming agent (lit "ops") (lit "query_logs")).head? = some (.mapping fields))
    (hlimit : dictGet (lit "max_range_hours") fields = some (.int hours))
    {args : Arguments} {start stop : Str} (query : Str)
    (hstart : dictGet (lit "start") args = some (.str start))
    (hstop : dictGet (lit "end") args = some (.str stop)) :
    (∀ d, p.evaluateWith exactHours py agent (lit "ops") (lit "query_logs") args = .ok d →
      d.allowed = true → Capped (hours + 1) (queryLogs py rng lower query start stop)) ∧
    ∀ d, p.evaluate py agent (lit "ops") (lit "query_logs") args = .ok d →
      d.allowed = true → Capped (hours + 2) (queryLogs py rng lower query start stop) ∧
        (hours ≤ 4772185 → Capped (hours + 1) (queryLogs py rng lower query start stop)) := by
  constructor
  · intro d hd hallowed
    obtain ⟨t₁, t₂, ht₁, ht₂, hle, hrange⟩ :=
      range_of_allowed hfirst hlimit hstart hstop hd hallowed
    refine capped_of_range ht₁ ht₂ hle ?_
    rw [exactHours, div_le_iff₀ (by norm_num)] at hrange
    have : t₂.instant - t₁.instant ≤ hours * 3600000000 := by exact_mod_cast hrange
    simp only [hourMicros]
    omega
  · intro d hd hallowed
    obtain ⟨t₁, t₂, ht₁, ht₂, hle, hrange⟩ :=
      range_of_allowed hfirst hlimit hstart hstop hd hallowed
    obtain ⟨hrest, hexact⟩ := le_of_floatHours_le hhours hrange
    simp only [hourMicros] at hrest hexact
    refine ⟨capped_of_range ht₁ ht₂ hle ?_, fun hsmall => capped_of_range ht₁ ht₂ hle ?_⟩
    · simp only [hourMicros]
      omega
    · have := hexact hsmall
      simp only [hourMicros]
      omega

/-! ### A range of five centuries -/

/-- A computation that passes a check has returned. -/
theorem exists_of_any {ε α : Type*} {x : Except ε α} {check : α → Bool}
    (h : x.toOption.any check = true) : ∃ a, x = .ok a ∧ check a = true := by
  cases x with
  | error e => simp [Except.toOption] at h
  | ok a => exact ⟨a, rfl, by simpa [Except.toOption] using h⟩

/-- A generator that always draws the first index. -/
def sampleRandom : Random Unit := ⟨fun _ => (), fun _ _ => (0, ())⟩

/-- `str.lower` of an ASCII text. -/
def asciiLower (s : Str) : Str := s.map fun c => if 0x41 ≤ c.val ∧ c.val ≤ 0x5A then c + 0x20 else c

/-- A search of a day under a limit of a day visits at most 25 hour marks. -/
theorem cap_binds_sample :
    (∀ d, (cappedPolicy 24).evaluateWith exactHours ⟨100, fun _ => true⟩ (lit "analyst-agent")
        (lit "ops") (lit "query_logs") dayArguments = .ok d → d.allowed = true →
      Capped (24 + 1) (queryLogs ⟨100, fun _ => true⟩ sampleRandom asciiLower []
        (lit "2026-07-01T00:00:00+00:00") (lit "2026-07-02T09:00:00+09:00"))) ∧
    ∀ d, (cappedPolicy 24).evaluate ⟨100, fun _ => true⟩ (lit "analyst-agent")
        (lit "ops") (lit "query_logs") dayArguments = .ok d → d.allowed = true →
      Capped (24 + 2) (queryLogs ⟨100, fun _ => true⟩ sampleRandom asciiLower []
        (lit "2026-07-01T00:00:00+00:00") (lit "2026-07-02T09:00:00+09:00")) ∧
      ((24 : ℤ) ≤ 4772185 → Capped (24 + 1) (queryLogs ⟨100, fun _ => true⟩ sampleRandom asciiLower
        [] (lit "2026-07-01T00:00:00+00:00") (lit "2026-07-02T09:00:00+09:00"))) := by
  have hentry : ((cappedPolicy 24).naming (lit "analyst-agent") (lit "ops")
      (lit "query_logs")).head? = some (.mapping [(lit "tool", .str (lit "query_logs")),
        (lit "max_range_hours", .int 24)]) := by
    simp [Policy.naming, Policy.entries, cappedPolicy, dictGet, Entry.names, namesTool]
  have hlimit : dictGet (lit "max_range_hours") [(lit "tool", Yaml.str (lit "query_logs")),
      (lit "max_range_hours", .int 24)] = some (.int 24) := by
    rw [dictGet, if_neg (by decide), dictGet, if_pos rfl]
  exact cap_binds sampleRandom asciiLower (by decide) hentry hlimit [] rfl rfl

/-- The texts of a range of 4772186 hours and a microsecond, from the last microsecond of
an hour on. -/
def longArguments : Arguments :=
  [(lit "query", .str []), (lit "start", .str (lit "0001-01-01T00:59:59.999999")),
    (lit "end", .str (lit "0545-05-30T03:00:00"))]

/-- **The cap is passed by a microsecond that the floats do not see**: with a limit of
4772186 hours, the first of `2 ^ 34` seconds, the server visits two hour marks more. -/
theorem cap_exceeded :
    (∃ d, (cappedPolicy 4772186).evaluate ⟨100, fun _ => true⟩
        (lit "analyst-agent") (lit "ops") (lit "query_logs") longArguments = .ok d ∧
      d.allowed = true) ∧
    (queryLogs ⟨100, fun _ => true⟩ sampleRandom asciiLower []
        (lit "0001-01-01T00:59:59.999999") (lit "0545-05-30T03:00:00")).1.length = 4772186 + 2 := by
  have hstart : ((fromisoformat ⟨100, fun _ => true⟩
      (lit "0001-01-01T00:59:59.999999")).toOption.any fun t : DateTime =>
        t.instant = 3599999999 ∧ (assumeUtc t).floorHour.instant = 0 ∧
          (assumeUtc t).floorHour.wallMicros = 0) = true := by
    decide +kernel
  have hstop : ((fromisoformat ⟨100, fun _ => true⟩ (lit "0545-05-30T03:00:00")).toOption.any
      fun t : DateTime => t.instant = 17179873200000000) = true := by decide +kernel
  have hallowed : (((cappedPolicy 4772186).evaluate ⟨100, fun _ => true⟩
      (lit "analyst-agent") (lit "ops") (lit "query_logs") longArguments).toOption.any
        Decision.allowed) = true := by decide +kernel
  obtain ⟨t₁, ht₁, h₁⟩ := exists_of_any hstart
  obtain ⟨t₂, ht₂, h₂⟩ := exists_of_any hstop
  obtain ⟨hinstant, hfloor, hwall⟩ := of_decide_eq_true h₁
  have hstop := of_decide_eq_true h₂
  refine ⟨exists_of_any hallowed, ?_⟩
  rw [queryLogs_eq ht₁ ht₂ (by omega)]
  refine length_marks_eq 4772187 _ _ ?_ ?_
  · rw [instant_assumeUtc, hstop, hfloor]
    decide
  · rw [hwall]
    decide

end AgentOpsGateway
