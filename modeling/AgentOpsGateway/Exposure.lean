import Mathlib.Algebra.Order.BigOperators.Group.List
import AgentOpsGateway.Load
import AgentOpsGateway.OpsLogs
import AgentOpsGateway.PermissionMatrix

/-!
# How Much an Agent Sees of the Logs

The ops server puts no limit on a search of its logs: who may see how much is for the gateway
to decide. The gateway decides it in two places that know nothing of each other: the policy
caps the time range of one search, and the rate limiter caps the number of requests. Here the
two are put together with what the server makes of a search, over the replicas of the gateway.

## Main results

* `linesShown_le`: what one permitted search shows.
* `log_exposure_le`: **the lines that a limited agent is shown in a span of time**, over all
  runs of a fleet.
-/

namespace AgentOpsGateway

open Python Transition

section Shown

variable {σ : Type*} (py : Interpreter) (rng : Random σ) (lower : Str → Str)

/-- The lines in the answer of the ops server to a call: none where it is no search of the
logs, its arguments are no texts, or the search raises. -/
def Dispatch.linesShown (d : Dispatch) : ℕ :=
  if d.server = lit "ops" ∧ d.tool = lit "query_logs" then
    match dictGet (lit "query") d.arguments, dictGet (lit "start") d.arguments,
      dictGet (lit "end") d.arguments with
    | some (.str query), some (.str start), some (.str stop) =>
      match (queryLogs py rng lower query start stop).2 with
      | .ok r => r.lines.length
      | .error _ => 0
    | _, _, _ => 0
  else 0

/-- The lines in the answers to the calls of an agent, of requests that arrived in a window. -/
def Gateway.linesShown (agent : Str) (s t : ℚ) (st : Gateway) : ℕ :=
  ((st.tasks.filter (·.sentIn agent s t)).map
    fun k => (k.sent.map (·.linesShown py rng lower)).getD 0).sum

end Shown

section Runs

variable {σ : Type*} {py : Interpreter} {p : Policy} {agent : Str} {fields : List (Str × Yaml)}
  {hours : ℤ}

/-- **What one permitted search shows**: a line for each hour of the limit, and one more. -/
theorem linesShown_le (rng : Random σ) (lower : Str → Str) (hhours : 0 ≤ hours)
    (hsmall : hours ≤ 4772185)
    (hfirst : (p.naming agent (lit "ops") (lit "query_logs")).head? = some (.mapping fields))
    (hlimit : dictGet (lit "max_range_hours") fields = some (.int hours)) {r : Request}
    (hagent : r.agent = agent) {d : Dispatch} (hargs : d.arguments = r.arguments)
    (hpermitted : isPermitted ⟨py, p⟩ r d.server d.tool = true) :
    (d.linesShown py rng lower : ℤ) ≤ hours + 1 := by
  rw [Dispatch.linesShown]
  split
  · next hlogs =>
      split
      · next query start stop hquery hstart hstop =>
          rw [hargs] at hstart hstop
          rw [hlogs.1, hlogs.2, isPermitted, hagent] at hpermitted
          split at hpermitted
          · next decision hd =>
              obtain ⟨t₁, t₂, ht₁, ht₂, hle, hrange⟩ :=
                range_of_allowed hfirst hlimit hstart hstop hd hpermitted
              have hspan := (le_of_floatHours_le hhours hrange).2 hsmall
              have hcapped : Capped (hours + 1) (queryLogs py rng lower query start stop) :=
                capped_of_range ht₁ ht₂ hle (by simp only [hourMicros] at hspan ⊢; omega)
              split
              · next result hresult =>
                  obtain ⟨hcount, hle⟩ := hcapped.count result hresult
                  omega
              · omega
          · cases hpermitted
      · omega
  · omega

/-- The lines that one replica shows are bounded by the searches it lets through. -/
theorem pod_linesShown_le (rng : Random σ) (lower : Str → Str) (hdoc : p.Documented)
    (hhours : 0 ≤ hours) (hsmall : hours ≤ 4772185)
    (hfirst : (p.naming agent (lit "ops") (lit "query_logs")).head? = some (.mapping fields))
    (hlimit : dictGet (lit "max_range_hours") fields = some (.int hours)) {pod pod' : Gateway}
    {acts : List Action} (hinit : pod.tasks = [])
    (hrun : (gateway ⟨py, p⟩).exec pod acts = some pod') (s t : ℚ) :
    (pod'.linesShown py rng lower agent s t : ℚ) ≤ (hours + 1) * pod'.sentIn agent s t := by
  have hone : ∀ n ∈ (pod'.tasks.filter (·.sentIn agent s t)).map
      (fun k => (k.sent.map (·.linesShown py rng lower)).getD 0), n ≤ (hours + 1).toNat := by
    intro n hn
    obtain ⟨k, hk, rfl⟩ := List.mem_map.mp hn
    obtain ⟨hmem, hsentIn⟩ := List.mem_filter.mp hk
    obtain ⟨i, hi⟩ := List.mem_iff_getElem?.mp hmem
    simp only [Task.sentIn, Bool.and_eq_true, decide_eq_true_eq] at hsentIn
    obtain ⟨⟨⟨hsome, hagent⟩, -⟩, -⟩ := hsentIn
    obtain ⟨d, hd⟩ := Option.isSome_iff_exists.mp hsome
    obtain ⟨-, hargs, hpermitted⟩ := permitted_of_sent hdoc hinit hrun hi hd
    have hlines := linesShown_le rng lower hhours hsmall hfirst hlimit hagent hargs hpermitted
    rw [hd, Option.map_some, Option.getD_some]
    omega
  have hsum := List.sum_le_card_nsmul _ _ hone
  rw [List.length_map, ← List.countP_eq_length_filter, nsmul_eq_mul, Nat.cast_id] at hsum
  have hcast : (((hours + 1).toNat : ℕ) : ℚ) = hours + 1 := by
    have hnat : (((hours + 1).toNat : ℕ) : ℤ) = hours + 1 := Int.toNat_of_nonneg (by omega)
    exact_mod_cast congrArg (Int.cast : ℤ → ℚ) hnat
  rw [mul_comm, ← hcast]
  exact_mod_cast hsum

/-- **How much of the logs an agent is shown.** In every run of any number of replicas, whoever
is routed where and whatever the interleaving: where the policy limits an agent's searches to a
number of hours, the lines that answer its searches, of requests that arrived in a span of some
length, are no more than one for each hour of the limit and one more, as often as all the
buckets together have room for. Clocks and tokens are exact rationals; the duration of a range
is the double that the policy computes. -/
theorem log_exposure_le (rng : Random σ) (lower : Str → Str) (hdoc : p.Documented)
    (hhours : 0 ≤ hours) (hsmall : hours ≤ 4772185)
    (hfirst : (p.naming agent (lit "ops") (lit "query_logs")).head? = some (.mapping fields))
    (hlimit : dictGet (lit "max_range_hours") fields = some (.int hours)) {capacity : ℤ}
    {refill : ℚ} (hcapacity : 0 ≤ capacity) (hrefill : 0 ≤ refill) {pods pods' : List Gateway}
    (hpods : ∀ pod ∈ pods, FreshPod capacity refill pod) {acts : List (ℕ × Action)}
    (hrun : (gateway ⟨py, p⟩).fleet.exec pods acts = some pods') (start : ℕ → ℚ) {len : ℚ}
    (hlen : 0 ≤ len) :
    ((pods'.mapIdx fun i pod =>
        pod.linesShown py rng lower agent (start i) (start i + len)).sum : ℕ) ≤
      (pods.length : ℚ) * ((hours + 1) * (capacity + refill * len)) := by
  rw [← (System.exec_fleet hrun).1]
  refine sum_mapIdx_le (K := ℚ) fun i pod' hpod' => ?_
  obtain ⟨pod, hpod, hexec⟩ := System.exec_own hrun hpod'
  have hfresh := hpods pod (List.mem_of_getElem? hpod)
  have hlines := pod_linesShown_le rng lower hdoc hhours hsmall hfirst hlimit hfresh.tasks hexec
    (start i) (start i + len)
  have hload := sentIn_le hfresh hexec hcapacity hrefill agent
    (le_add_of_nonneg_right hlen : start i ≤ start i + len)
  rw [add_sub_cancel_left] at hload
  have hpositive : (0 : ℚ) ≤ hours + 1 := by exact_mod_cast (by omega : 0 ≤ hours + 1)
  exact hlines.trans (mul_le_mul_of_nonneg_left hload hpositive)

/-- A replica with the search of the logs, and a limiter of one token. -/
def logsPod : Gateway :=
  ⟨⟨some (.init 1 0 0), none, [(lit "ops", ⟨lit "ops", some [⟨lit "query_logs", []⟩]⟩)]⟩, []⟩

/-- An analyst's search of the logs of a day. -/
def logsRequest : Request := ⟨lit "analyst-agent", lit "ops__query_logs", dayArguments⟩

/-- Two replicas let one search each through: they show two times 25 lines at most. -/
theorem log_exposure_sample : ∃ pods',
    (gateway ⟨⟨100, fun _ => true⟩, deployedPolicy⟩).fleet.exec [logsPod, logsPod]
        [(0, .arrive logsRequest), (1, .arrive logsRequest), (0, .arrive logsRequest)] =
      some pods' ∧
    (pods'.mapIdx fun _ pod => pod.sentIn (lit "analyst-agent") 0 (0 + 1)).sum = 2 ∧
    ((pods'.mapIdx fun _ pod => pod.linesShown ⟨100, fun _ => true⟩ sampleRandom asciiLower
        (lit "analyst-agent") 0 (0 + 1)).sum : ℕ) ≤
      ([logsPod, logsPod].length : ℚ) * (((24 : ℤ) + 1) * ((1 : ℤ) + 0 * 1)) := by
  have hcheck : ((gateway ⟨⟨100, fun _ => true⟩, deployedPolicy⟩).fleet.exec [logsPod, logsPod]
      [(0, .arrive logsRequest), (1, .arrive logsRequest), (0, .arrive logsRequest)]).any
        (fun pods' => (pods'.mapIdx fun _ pod =>
          pod.sentIn (lit "analyst-agent") 0 (0 + 1)).sum = 2) = true := by
    decide +kernel
  obtain ⟨pods', hrun, hsum⟩ := (Option.any_eq_true _ _).mp hcheck
  have hpods : ∀ pod ∈ [logsPod, logsPod], FreshPod 1 0 pod := by
    intro pod hpod
    obtain rfl : pod = logsPod := by simpa using hpod
    exact ⟨rfl, 0, rfl⟩
  have hlimit : dictGet (lit "max_range_hours") limitedLogs = some (.int 24) := rfl
  exact ⟨pods', hrun, of_decide_eq_true hsum,
    log_exposure_le sampleRandom asciiLower deployedPolicy_documented (by decide) (by decide) rfl
      hlimit (by decide) le_rfl hpods hrun (fun _ => 0) (by norm_num)⟩

end Runs

end AgentOpsGateway
