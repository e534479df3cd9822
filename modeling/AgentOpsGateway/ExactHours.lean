import AgentOpsGateway.OpsLogs

/-!
# The Limit in Floats

`_check_args` divides a time range by 3600 in floats and compares the quotient with the limit.
Two roundings stand between the range and the comparison, and neither moves it across a whole
number of hours: a range of at most that many hours is rounded to at most that many, and a
microsecond more is still seen.

## Main results

* `lt_floatHours_iff`: **a whole number of hours is compared exactly**.
* `evaluate_exact`: under limits of whole hours, **the policy decides in floats as it does in
  exact rationals**, message and all.
-/

namespace AgentOpsGateway

open Python

/-- The hours up to which the float of a range above them is known to be above them. -/
def exactLimit : ℤ := 4772185

/-- At most a number of hours stays at most that in floats. -/
theorem floatHours_le {delta hours : ℤ} (hhours : hours ≤ exactLimit)
    (h : delta ≤ hours * hourMicros) : floatHours delta ≤ hours := by
  simp only [exactLimit, hourMicros] at hhours h
  have hseconds : (delta : ℚ) / 1000000 ≤ (hours * 3600 : ℤ) := by
    have : (delta : ℚ) ≤ hours * 3600000000 := by exact_mod_cast h
    rw [div_le_iff₀ (by norm_num)]
    push_cast
    linarith
  have hfloat := toDouble_le_intCast (by omega) hseconds
  refine toDouble_le_intCast (by omega) ?_
  rw [div_le_iff₀ (by norm_num)]
  exact_mod_cast hfloat

/-- **A whole number of hours is compared exactly**: a range is above it in floats where it is
above it. -/
theorem lt_floatHours_iff {delta hours : ℤ} (hdelta : 0 ≤ delta) (hhours : hours ≤ exactLimit) :
    (hours : ℚ) < floatHours delta ↔ (hours : ℚ) < exactHours delta := by
  have hexact : (hours : ℚ) < exactHours delta ↔ hours * hourMicros < delta := by
    rw [exactHours, lt_div_iff₀ (by norm_num), hourMicros]
    exact_mod_cast Iff.rfl
  rw [hexact]
  refine ⟨fun h => ?_, fun h => ?_⟩
  · by_contra hle
    exact absurd h (not_lt.mpr (floatHours_le hhours (not_lt.mp hle)))
  · rcases hdelta.eq_or_lt with rfl | hpos
    · have hneg : hours < 0 := by
        simp only [hourMicros] at h
        omega
      have hzero : floatHours 0 = 0 := by simp [floatHours, toDouble, roundHalfEven]
      rw [hzero]
      exact_mod_cast hneg
    · by_cases hsmall : delta < 17179869184 * 1000000
      · exact lt_floatHours hpos hsmall h
      · have hlarge : (17179869184 * 1000000 : ℚ) ≤ delta := by exact_mod_cast not_lt.mp hsmall
        have hlimit : (hours : ℚ) ≤ 4772185 := by exact_mod_cast hhours
        have hfloat := le_floatHours hpos
        linarith

/-- A limit of whole hours, as an integer or as a float, up to `exactLimit`; what is not
compared as a number may be anything. -/
def wholeHours : Yaml → Prop
  | .int n => n ≤ exactLimit
  | .float (.finite q) _ => ∃ n : ℤ, q = n ∧ n ≤ exactLimit
  | _ => True

/-- A limit of whole hours is compared in floats as in exact rationals. -/
theorem below_floatHours {limit : Yaml} (hlimit : wholeHours limit) {delta : ℤ}
    (hdelta : 0 ≤ delta) : limit.below (floatHours delta) = limit.below (exactHours delta) := by
  cases limit with
  | int n => simp only [Yaml.below, lt_floatHours_iff hdelta hlimit]
  | float m text =>
      cases m with
      | finite q =>
          obtain ⟨n, rfl, hn⟩ := hlimit
          simp only [Yaml.below, Magnitude.below, lt_floatHours_iff hdelta hn]
      | posInf | negInf | nan => rfl
  | bool b =>
      have hzero := @lt_floatHours_iff delta 0 hdelta (by decide)
      have hone := @lt_floatHours_iff delta 1 hdelta (by decide)
      cases b
      · simpa [Yaml.below] using hzero
      · simpa [Yaml.below] using hone
  | null | str s | collection | other => rfl

/-- The limit of an entry, if it has one, is of whole hours. -/
def Entry.WholeHours : Entry → Prop
  | .tool _ => True
  | .mapping fields =>
    ∀ limit, dictGet (lit "max_range_hours") fields = some limit → wholeHours limit

/-- The limits of a policy are of whole hours. -/
def Policy.WholeHours (p : Policy) : Prop :=
  ∀ agent server, ∀ entry ∈ p.entries agent server, entry.WholeHours

section Decisions

variable {py : Interpreter} {rule tool : Str} {args : Arguments}

/-- A limit of whole hours is checked in floats as in exact rationals. -/
theorem checkArgs_exact {fields : List (Str × Yaml)} (hwhole : (Entry.mapping fields).WholeHours) :
    checkArgs floatHours py rule fields args = checkArgs exactHours py rule fields args := by
  simp only [checkArgs]
  split
  · rfl
  · rfl
  · next limit hnull hget =>
      cases timeRange py args with
      | error e => rfl
      | ok delta =>
          by_cases hneg : delta < 0
          · simp only [if_pos hneg]
          · simp only [if_neg hneg, below_floatHours (hwhole limit hget) (not_lt.mp hneg)]

/-- So are the entries of a server. Induction on the entries. -/
theorem evaluateEntries_exact {entries : List Entry}
    (hwhole : ∀ entry ∈ entries, entry.WholeHours) :
    evaluateEntries floatHours py rule tool args entries =
      evaluateEntries exactHours py rule tool args entries := by
  induction entries with
  | nil => rfl
  | cons entry entries ih =>
      obtain ⟨hentry, hrest⟩ := List.forall_mem_cons.mp hwhole
      cases entry with
      | tool name => simp only [evaluateEntries, ih hrest]
      | mapping fields => simp only [evaluateEntries, ih hrest, checkArgs_exact hentry]

end Decisions

/-- **The policy decides in floats as in exact rationals**, where its limits are of whole
hours. -/
theorem evaluate_exact (py : Interpreter) {p : Policy} (hwhole : p.WholeHours)
    (agent server tool : Str) (args : Arguments) :
    p.evaluate py agent server tool args =
      p.evaluateWith exactHours py agent server tool args :=
  evaluateEntries_exact (hwhole agent server)

theorem cappedPolicy_wholeHours {hours : ℤ} (hhours : hours ≤ exactLimit) :
    (cappedPolicy hours).WholeHours := by
  intro agent server entry hentry
  by_cases hagent : lit "analyst-agent" = agent
  · by_cases hserver : lit "ops" = server
    · simp [cappedPolicy, Policy.entries, dictGet, hagent, hserver] at hentry
      subst hentry
      intro limit hlimit
      rw [dictGet, if_neg (by decide), dictGet, if_pos rfl, Option.some.injEq] at hlimit
      exact hlimit ▸ hhours
    · simp [cappedPolicy, Policy.entries, dictGet, hagent, hserver] at hentry
  · simp [cappedPolicy, Policy.entries, dictGet, hagent] at hentry

theorem evaluate_exact_sample :
    (cappedPolicy 24).evaluate ⟨100, fun _ => true⟩ (lit "analyst-agent") (lit "ops")
        (lit "query_logs") dayArguments =
      (cappedPolicy 24).evaluateWith exactHours ⟨100, fun _ => true⟩ (lit "analyst-agent")
        (lit "ops") (lit "query_logs") dayArguments :=
  evaluate_exact _ (cappedPolicy_wholeHours (by decide)) _ _ _ _

end AgentOpsGateway
