import AgentOpsGateway.Fleet
import AgentOpsGateway.Probe

/-!
# The Load on a Tripped Server

The breaker does not keep its promise of one probe at a time: a report of a call that is no
probe frees the slot of one that is in flight, and a cancelled probe never gives it back. The
purpose of the promise is kept all the same. Every report of a failure on a tripped circuit
starts the cooldown anew, so that whatever overlaps, the probes of a server are a cooldown
apart, and what a fleet of replicas asks of a server that does not recover is bounded by its
clocks alone, however many requests there are.

## Main results

* `Gateway.Paced.step`: one action of the gateway keeps the probes apart.
* `fleet_probes_le`: **the load of a fleet on a tripped server** in every span, over all runs.
-/

namespace AgentOpsGateway

open Python Transition

/-- When the task sent a call to the server on its tripped circuit, as a probe. -/
def Task.probeTime (server : Str) (t : Task) : Option ℚ :=
  (t.sent.filter fun d => d.server = server && d.probe).map Dispatch.time

/-- The times of the probes of a server. -/
def Gateway.probeTimes (server : Str) (st : Gateway) : List ℚ :=
  st.tasks.filterMap (Task.probeTime server)

/-- The probes of a server that were sent in a window. -/
def Gateway.probesIn (server : Str) (s t : ℚ) (st : Gateway) : ℕ :=
  (st.probeTimes server).countP fun u => s ≤ u && u ≤ t

theorem Task.probeTime_eq_some {server : Str} {t : Task} {u : ℚ} :
    t.probeTime server = some u ↔
      ∃ d, t.sent = some d ∧ d.server = server ∧ d.probe = true ∧ d.time = u := by
  simp only [probeTime, Option.map_eq_some_iff, Option.filter_eq_some_iff, Bool.and_eq_true,
    decide_eq_true_eq]
  exact ⟨fun ⟨d, ⟨hd, hserver, hprobe⟩, hu⟩ => ⟨d, hd, hserver, hprobe, hu⟩,
    fun ⟨d, hd, hserver, hprobe, hu⟩ => ⟨d, ⟨hd, hserver, hprobe⟩, hu⟩⟩

/-- The task at a place sent a probe to the server at a time. -/
def Gateway.ProbedAt (st : Gateway) (server : Str) (i : ℕ) (u : ℚ) : Prop :=
  ∃ t, st.tasks[i]? = some t ∧ t.probeTime server = some u

/-- The probes that have been sent to a server are a cooldown apart, and the circuit has kept
the slot or opened again since each of them. -/
structure Gateway.Paced (params : HalfOpen.Params ℚ) (server : Str) (st : Gateway) : Prop where
  line : ∃ l, LineIs params server st l ∧ HalfOpen.Reached params l ∧
    ∀ i u, st.ProbedAt server i u → HalfOpen.Since u l
  apart : ∀ i j u v, i ≠ j → st.ProbedAt server i u → st.ProbedAt server j v →
    params.cooldown ≤ |u - v|

section Steps

variable {cfg : Settings} {params : HalfOpen.Params ℚ} {server : Str} {st st' : Gateway}
  {l l' : HalfOpen.Line ℕ ℚ} {a : Action} {i j : ℕ} {u v : ℚ}

/-- A call that is new is in flight, and its task had sent nothing. -/
theorem sent_of_step (hwait : ∀ (i : ℕ) (t : Task) server tool, st.tasks[i]? = some t →
      t.phase = .reloading server tool → t.sent = none)
    (hstep : (gateway cfg).step st a = some st') {t' : Task} (ht' : st'.tasks[i]? = some t')
    {d : Dispatch} (hd : t'.sent = some d) :
    (∃ t, st.tasks[i]? = some t ∧ t.sent = some d) ∨
      t'.phase = .calling ∧ ∀ t, st.tasks[i]? = some t → t.sent = none := by
  have hcalling : ∀ halt : Halt, halt.sent = some d → halt.phase = .calling := by
    intro halt hhalt
    cases halt with
    | call d => rfl
    | reload _ _ | ret _ _ | raise _ => simp [Halt.sent] at hhalt
  rcases task_of_step hstep ht' with ⟨r, -, rfl, rfl⟩ | ⟨t, ht, hmove⟩
  · exact .inr ⟨hcalling _ hd, fun t ht => by simp at ht⟩
  · rcases hmove with rfl | ⟨ok, server', tool, -, hphase, rfl⟩ | ⟨result, d', -, -, -, rfl⟩ |
      ⟨-, -, rfl⟩
    · exact .inl ⟨t', ht, hd⟩
    · refine .inr ⟨hcalling _ hd, fun t₀ ht₀ => ?_⟩
      obtain rfl : t = t₀ := Option.some.inj (ht.symm.trans ht₀)
      exact hwait i t server' tool ht hphase
    · exact .inl ⟨t, ht, hd⟩
    · exact .inl ⟨t, ht, hd⟩

/-- **A new probe** is let through now, by a tripped circuit. -/
theorem probed_of_step (hl : LineIs params server st l) (hl' : LineIs params server st' l')
    (hmatch : Matches params l l' (event cfg server st a))
    (hstep : (gateway cfg).step st a = some st') (hu : st'.ProbedAt server i u) :
    st.ProbedAt server i u ∨
      u = l.now ∧ l.circuit.tripped ∧ HalfOpen.step params l (.launch i) = some l' := by
  obtain ⟨t', ht', htime⟩ := hu
  obtain ⟨d, hd, hserver, hprobe, rfl⟩ := Task.probeTime_eq_some.mp htime
  rcases sent_of_step hl.2 hstep ht' hd with ⟨t, ht, hsent⟩ | ⟨hcalling, hfresh⟩
  · exact .inl ⟨t, ht, Task.probeTime_eq_some.mpr ⟨d, hsent, hserver, hprobe, rfl⟩⟩
  · have hin : st'.InFlight server i d := ⟨t', ht', hcalling, hd, hserver⟩
    have hout : ∀ d', ¬st.InFlight server i d' := by
      rintro d' ⟨t, ht, -, hsent, -⟩
      simp [hfresh t ht] at hsent
    obtain ⟨hnow, hlaunch⟩ := hl.started hl' hmatch hin hout
    refine .inr ⟨hnow, ?_, hlaunch⟩
    have hcall := hl'.inFlight.mpr ⟨d, hin, rfl⟩
    obtain ⟨-, -, rfl⟩ := HalfOpen.step_launch hlaunch
    simp only [Function.update_self, HalfOpen.Stage.inFlight.injEq,
      HalfOpen.Admission.mk.injEq] at hcall
    rw [HalfOpen.Circuit.tripped, hcall.1, hprobe]

/-- One step lets one call through at most. -/
theorem launch_unique (hi : HalfOpen.step params l (.launch i) = some l')
    (hj : HalfOpen.step params l (.launch j) = some l') : i = j := by
  obtain ⟨hbefore, -, -⟩ := HalfOpen.step_launch hi
  obtain ⟨-, -, hleft⟩ := HalfOpen.step_launch hi
  obtain ⟨-, -, hright⟩ := HalfOpen.step_launch hj
  by_contra hij
  have hcalls := congrArg (fun l => HalfOpen.Line.calls l i) (hleft.symm.trans hright)
  simp [hij, hbefore] at hcalls

/-- **One action keeps the probes apart.** -/
theorem Gateway.Paced.step (h : st.Paced params server)
    (hstep : (gateway cfg).step st a = some st') : st'.Paced params server := by
  obtain ⟨l, hl, hreached, hsince⟩ := h.line
  obtain ⟨l', hl', hmatch⟩ := hl.step hstep
  have hprobed : ∀ {i u}, st'.ProbedAt server i u → _ := probed_of_step hl hl' hmatch hstep
  -- what holds of the line before the step, behind it
  have hreached' : HalfOpen.Reached params l' := by
    cases hevent : event cfg server st a with
    | none =>
        rw [hevent, Matches] at hmatch
        rwa [hmatch]
    | some e =>
        rw [hevent, Matches] at hmatch
        exact hreached.step hmatch
  have hkeep : ∀ {u}, HalfOpen.Since u l → HalfOpen.Since u l' := by
    intro u hu
    cases hevent : event cfg server st a with
    | none =>
        rw [hevent, Matches] at hmatch
        rwa [hmatch]
    | some e =>
        rw [hevent, Matches] at hmatch
        exact hu.step hreached hmatch
  refine ⟨⟨l', hl', hreached', fun i u hu => ?_⟩, fun i j u v hij hu hv => ?_⟩
  · rcases hprobed hu with hold | ⟨rfl, htripped, hlaunch⟩
    · exact hkeep (hsince i u hold)
    · exact HalfOpen.since_launch htripped hlaunch
  · rcases hprobed hu with hold | ⟨rfl, htripped, hlaunch⟩ <;>
      rcases hprobed hv with hold' | ⟨rfl, htripped', hlaunch'⟩
    · exact h.apart i j u v hij hold hold'
    · have hgap := (hsince i u hold).launch htripped' hlaunch'
      rw [abs_sub_comm]
      exact le_trans (by linarith) (le_abs_self _)
    · have hgap := (hsince j v hold').launch htripped hlaunch
      exact le_trans (by linarith) (le_abs_self _)
    · exact absurd (launch_unique hlaunch hlaunch') hij

end Steps

/-! ### Replicas -/

/-- A replica that has just been started: all of its circuits are closed. -/
structure FreshBreaker (threshold : ℤ) (cooldown : ℚ) (pod : Gateway) : Prop where
  tasks : pod.tasks = []
  breaker : ∃ now, pod.shared.breaker = some (.init threshold cooldown now)

section Pod

variable {cfg : Settings} {threshold : ℤ} {cooldown : ℚ} {pod pod' : Gateway}
  {acts : List Action}

/-- Before any request nothing has been probed. -/
theorem FreshBreaker.paced (h : FreshBreaker threshold cooldown pod) (server : Str) :
    pod.Paced ⟨threshold, cooldown⟩ server := by
  obtain ⟨now, hbreaker⟩ := h.breaker
  have hnone : ∀ i u, ¬pod.ProbedAt server i u := by
    rintro i u ⟨t, ht, -⟩
    simp [h.tasks] at ht
  refine ⟨⟨_, lineIs_start hbreaker h.tasks server, fun t ht => ?_, fun i u hu =>
    absurd hu (hnone i u)⟩, fun i j u v hij hu => absurd hu (hnone i u)⟩
  simp [Gateway.line, HalfOpen.Circuit.succeed] at ht

/-- **The probes of a server are a cooldown apart** in every run. -/
theorem pairwise_probeTimes (h : FreshBreaker threshold cooldown pod)
    (hrun : (gateway cfg).exec pod acts = some pod') (server : Str) :
    (pod'.probeTimes server).Pairwise fun u v => cooldown ≤ |u - v| := by
  have hpaced : pod'.Paced ⟨threshold, cooldown⟩ server :=
    System.invariant' (fun _ _ _ hpaced hstep => hpaced.step hstep) (h.paced server) hrun
  rw [Gateway.probeTimes, List.pairwise_filterMap, List.pairwise_iff_getElem]
  intro i j hi hj hij u hu v hv
  exact hpaced.apart i j u v (Nat.ne_of_lt hij) ⟨_, List.getElem?_eq_getElem hi, hu⟩
    ⟨_, List.getElem?_eq_getElem hj, hv⟩

/-- The probes that one replica sends in a span of time. -/
theorem probesIn_le (h : FreshBreaker threshold cooldown pod)
    (hrun : (gateway cfg).exec pod acts = some pod') (hcooldown : 0 < cooldown) (server : Str)
    (s : ℚ) {len : ℚ} (hlen : 0 ≤ len) :
    (pod'.probesIn server s (s + len) : ℚ) ≤ len / cooldown + 1 := by
  rw [Gateway.probesIn, List.countP_eq_length_filter]
  have hwindow : ∀ u ∈ (pod'.probeTimes server).filter fun u => s ≤ u && u ≤ s + len,
      s ≤ u ∧ u ≤ s + len := by
    intro u hu
    simpa only [Bool.and_eq_true, decide_eq_true_eq] using (List.mem_filter.mp hu).2
  exact HalfOpen.length_le_of_apart hcooldown hlen
    ((pairwise_probeTimes h hrun server).filter _) hwindow

end Pod

/-- **The load of a fleet on a tripped server.** In every run of any number of replicas, whatever
calls overlap, fail, succeed or are cancelled: the calls sent to a server while its circuit is
tripped, in a span of some length on the clock of each replica, are no more than a cooldown
allows for, on all replicas together. The clocks and the cooldown are exact rationals. -/
theorem fleet_probes_le (cfg : Settings) {threshold : ℤ} {cooldown : ℚ} (hcooldown : 0 < cooldown)
    {pods pods' : List Gateway} (hpods : ∀ pod ∈ pods, FreshBreaker threshold cooldown pod)
    {acts : List (ℕ × Action)} (hrun : (gateway cfg).fleet.exec pods acts = some pods')
    (server : Str) (start : ℕ → ℚ) {len : ℚ} (hlen : 0 ≤ len) :
    ((pods'.mapIdx fun i pod => pod.probesIn server (start i) (start i + len)).sum : ℕ) ≤
      (pods.length : ℚ) * (len / cooldown + 1) := by
  rw [← (System.exec_fleet hrun).1]
  refine sum_mapIdx_le (K := ℚ) fun i pod' hpod' => ?_
  obtain ⟨pod, hpod, hexec⟩ := System.exec_own hrun hpod'
  exact probesIn_le (hpods pod (List.mem_of_getElem? hpod)) hexec hcooldown server (start i) hlen

/-- Where a late failure lets a second probe out beside the first, the two are a cooldown apart,
and as many as the bound allows for. -/
theorem fleet_probes_sample : ∃ pods',
    (gateway sampleSettings).fleet.exec [sampleStart (some (.init 1 10 0)) true]
        (staleFailureRun.map fun a => (0, a)) = some pods' ∧
      (pods'.mapIdx fun _ pod => pod.probesIn (lit "ticket") 10 (10 + 10)).sum = 2 ∧
      ((pods'.mapIdx fun _ pod => pod.probesIn (lit "ticket") 10 (10 + 10)).sum : ℕ) ≤
        ([sampleStart (some (.init 1 10 0)) true].length : ℚ) * (10 / 10 + 1) := by
  have hcheck : ((gateway sampleSettings).fleet.exec [sampleStart (some (.init 1 10 0)) true]
      (staleFailureRun.map fun a => (0, a))).any (fun pods' =>
        (pods'.mapIdx fun _ pod => pod.probesIn (lit "ticket") 10 (10 + 10)).sum = 2) = true := by
    decide +kernel
  obtain ⟨pods', hrun, hsum⟩ := (Option.any_eq_true _ _).mp hcheck
  have hpods : ∀ pod ∈ [sampleStart (some (.init 1 10 0)) true], FreshBreaker 1 10 pod := by
    intro pod hpod
    obtain rfl := List.mem_singleton.mp hpod
    exact ⟨rfl, 0, rfl⟩
  exact ⟨pods', hrun, of_decide_eq_true hsum,
    fleet_probes_le sampleSettings (by norm_num) hpods hrun (lit "ticket") (fun _ => 10)
      (by norm_num)⟩

end AgentOpsGateway
