import AgentOpsGateway.Routes

/-!
# The Gateway Runs the Half-Open Protocol

Seen from one server, a run of the gateway is a run of the protocol of `HalfOpen`: sending
a call is an admission, the segment after `backend.call` is a report or, where it raises,
a dropped call, an aborted await is a dropped call, and everything else is invisible.

## Main results

* `line_step`: **each step of the gateway is one event of the protocol for that server, or
  none.**
* `gateway_simulates`: the gateway is simulated by the protocol.
-/

namespace AgentOpsGateway

open Python Transition

/-! ### One server of the gateway -/

/-- The life of a task as a call to the server. -/
def stage (server : Str) (t : Task) : HalfOpen.Stage ℚ :=
  match t.sent with
  | none => .before
  | some d =>
    if d.server = server then
      match t.phase with
      | .calling => .inFlight ⟨d.probe, d.time⟩
      | _ => .ended
    else .before

/-- The calls to the server among the tasks. -/
def callsTo (server : Str) (tasks : List Task) (i : ℕ) : HalfOpen.Stage ℚ :=
  match tasks[i]? with
  | none => .before
  | some t => stage server t

/-- The server with its circuit in the breaker. -/
def Gateway.line (st : Gateway) (b : CircuitBreaker) (server : Str) : HalfOpen.Line ℕ ℚ :=
  ⟨b.now, b.circuit server, callsTo server st.tasks⟩

/-- A new task adds its call. -/
theorem callsTo_concat (server : Str) (tasks : List Task) (t : Task) :
    callsTo server (tasks ++ [t]) =
      Function.update (callsTo server tasks) tasks.length (stage server t) := by
  funext i
  by_cases hi : i = tasks.length
  · subst hi
    simp [callsTo]
  · rw [Function.update_of_ne hi]
    rcases Nat.lt_or_gt_of_ne hi with hlt | hgt
    · simp [callsTo, List.getElem?_append_left hlt]
    · have hlen : (tasks ++ [t]).length ≤ i := by simpa using Nat.succ_le_of_lt hgt
      simp [callsTo, List.getElem?_eq_none hlen, List.getElem?_eq_none hgt.le]

/-- A task that moves on moves its call. -/
theorem callsTo_set (server : Str) {tasks : List Task} {i : ℕ} {t : Task}
    (ht : tasks[i]? = some t) (t' : Task) :
    callsTo server (tasks.set i t') =
      Function.update (callsTo server tasks) i (stage server t') := by
  funext j
  by_cases hj : j = i
  · subst hj
    simp [callsTo, lt_length_of_getElem? ht]
  · simp [callsTo, hj, List.getElem?_set_ne (Ne.symm hj)]

/-- The call of a task beyond the last one. -/
theorem callsTo_length (server : Str) (tasks : List Task) :
    callsTo server tasks tasks.length = .before := by
  simp [callsTo]

/-- A task whose call stays in the same stage changes nothing. -/
theorem update_callsTo_self (server : Str) {tasks : List Task} {i : ℕ} {s : HalfOpen.Stage ℚ}
    (h : callsTo server tasks i = s) : Function.update (callsTo server tasks) i s =
      callsTo server tasks := by
  rw [← h, Function.update_eq_self]

/-! ### What the segments do to the breaker -/

/-- The outcome of a segment that may send a call: it sent none and left the breaker alone,
or it sent one that the breaker let through. -/
def Admits (b : CircuitBreaker) (out : Shared × Halt) : Prop :=
  out.2.sent = none ∧ out.1.breaker = some b ∨
  ∃ d, out.2 = .call d ∧ out.1.breaker = some (b.allow d.server).2 ∧
    (b.allow d.server).1 = true ∧ d.probe = b.isTripped d.server ∧ d.time = b.now

section Segments

variable {cfg : Settings} {g : Shared} {b : CircuitBreaker} (r : Request) (server tool : Str)

/-- A refusal by the breaker leaves it alone. -/
theorem allow_snd_of_refused (h : (b.allow server).1 = false) : (b.allow server).2 = b := by
  simp only [CircuitBreaker.allow] at h ⊢
  cases hopen : b.openedAt server with
  | none => rfl
  | some opened =>
      simp only [hopen] at h ⊢
      split_ifs at h ⊢ <;> rfl

theorem admits_resolved (hb : g.breaker = some b) :
    Admits b (routeResolved cfg g r server tool) := by
  simp only [routeResolved]
  split
  · exact Or.inl ⟨rfl, hb⟩
  · split
    · exact Or.inl ⟨rfl, hb⟩
    · split
      · split
        · next hallow =>
            simp only [Shared.allowCircuit, hb] at hallow
            refine Or.inr ⟨_, rfl, ?_, hallow, ?_, ?_⟩
            · simp [Shared.allowCircuit, hb]
            · simp [Shared.admission, hb]
            · simp [Shared.admission, hb]
        · next hallow =>
            simp only [Shared.allowCircuit, hb, Bool.not_eq_true] at hallow
            refine Or.inl ⟨rfl, ?_⟩
            simp [Shared.allowCircuit, hb, allow_snd_of_refused server hallow]
      · exact Or.inl ⟨rfl, hb⟩

theorem admits_arrive (hb : g.breaker = some b) : Admits b (routeArrive cfg g r) := by
  have hb' : (g.takeToken r.agent).2.breaker = some b := by
    simp only [Shared.takeToken]
    cases g.limiter <;> exact hb
  unfold routeArrive
  dsimp only
  split
  · split
    · exact Or.inl ⟨rfl, hb'⟩
    · split
      · exact Or.inl ⟨rfl, hb'⟩
      · split
        · exact Or.inl ⟨rfl, hb'⟩
        · exact admits_resolved r _ _ hb'
  · exact Or.inl ⟨rfl, hb'⟩

theorem admits_reloaded (ok : Bool) (hb : g.breaker = some b) :
    Admits b (routeReloaded cfg g r server tool ok) := by
  cases ok with
  | false => exact Or.inl ⟨rfl, hb⟩
  | true => exact admits_resolved r server tool hb

end Segments

/-! ### The simulation -/

/-- The event of the protocol that a stop of a task is for the server. -/
def admission (server : Str) (i : ℕ) : Halt → Option (HalfOpen.Event ℕ ℚ)
  | .call d => if d.server = server then some (.launch i) else none
  | _ => none

/-- The event of the protocol that an action is for the server. -/
def event (cfg : Settings) (server : Str) (st : Gateway) : Action →
    Option (HalfOpen.Event ℕ ℚ)
  | .arrive r => admission server st.tasks.length (routeArrive cfg st.shared r).2
  | .reloaded i ok =>
    match st.tasks[i]? with
    | some t =>
      match t.phase with
      | .reloading server' tool =>
        admission server i (routeReloaded cfg st.shared t.request server' tool ok).2
      | _ => none
    | none => none
  | .answered i result =>
    match callsTo server st.tasks i, relayDecision cfg.py result with
    | .inFlight _, .ok .error => some (.fail i)
    | .inFlight _, .ok _ => some (.succeed i)
    | .inFlight _, .error _ => some (.drop i)
    | _, _ => none
  | .abort i =>
    match callsTo server st.tasks i with
    | .inFlight _ => some (.drop i)
    | _ => none
  | .breakerClock now => some (.tick now)
  | .load _ _ | .limiterClock _ => none

/-- The two sides of a step: what the gateway does is the event, or nothing. -/
def Matches (params : HalfOpen.Params ℚ) (l l' : HalfOpen.Line ℕ ℚ) :
    Option (HalfOpen.Event ℕ ℚ) → Prop
  | none => l' = l
  | some e => HalfOpen.step params l e = some l'

section Simulation

variable {cfg : Settings} {st st' : Gateway} {b : CircuitBreaker} (server : Str)

/-- A segment that may send a call does to the server what its stop stands for. -/
theorem matches_of_admits {out : Shared × Halt} (hout : Admits b out) {i : ℕ} {t : Task}
    (hsent : t.sent = out.2.sent) (hphase : t.phase = out.2.phase)
    (hbefore : callsTo server st.tasks i = .before) {tasks : List Task}
    (htasks : callsTo server tasks =
      Function.update (callsTo server st.tasks) i (stage server t)) :
    ∃ b', out.1.breaker = some b' ∧ b'.params = b.params ∧
      Matches b.params (st.line b server) (Gateway.line ⟨out.1, tasks⟩ b' server)
        (admission server i out.2) := by
  rcases hout with ⟨hnone, hb'⟩ | ⟨d, hcall, hb', hallow, hprobe, htime⟩
  · have hstage : stage server t = .before := by simp [stage, hsent, hnone]
    have hevent : admission server i out.2 = none := by
      cases hhalt : out.2 with
      | call d => simp [hhalt, Halt.sent] at hnone
      | reload _ _ | ret _ _ | raise _ => rfl
    refine ⟨b, hb', rfl, ?_⟩
    rw [hevent]
    simp only [Matches, Gateway.line, htasks, hstage, update_callsTo_self server hbefore]
  · refine ⟨_, hb', b.allow_params d.server, ?_⟩
    rw [hcall] at hsent hphase ⊢
    by_cases hserver : d.server = server
    · subst hserver
      have hstage : stage d.server t =
          .inFlight ⟨(b.circuit d.server).openedAt.isSome, b.now⟩ := by
        simp [stage, hsent, hphase, Halt.sent, Halt.phase, hprobe, htime,
          CircuitBreaker.isTripped, CircuitBreaker.circuit]
      have hadmits : (b.circuit d.server).admits b.params b.now = true := by
        rw [← b.allow_fst, hallow]
      simp [Matches, admission, HalfOpen.step, Gateway.line, htasks, hbefore, hadmits, hstage,
        b.circuit_allow, hallow]
    · have hstage : stage server t = .before := by
        simp [stage, hsent, Halt.sent, hserver]
      have hne : server ≠ d.server := fun h => hserver h.symm
      simp [Matches, admission, hserver, Gateway.line, htasks, hstage,
        update_callsTo_self server hbefore, b.circuit_allow, hne]

/-- The stage of a task that has its call in flight to the server. -/
theorem stage_calling {t : Task} {d : Dispatch} (hphase : t.phase = .calling)
    (hsent : t.sent = some d) :
    stage server t = if d.server = server then .inFlight ⟨d.probe, d.time⟩ else .before := by
  simp only [stage, hsent, hphase]

/-- A task whose call has ended. -/
theorem stage_ended {t : Task} {d : Dispatch} (hsent : t.sent = some d)
    (hphase : t.phase ≠ .calling) :
    stage server t = if d.server = server then .ended else .before := by
  simp only [stage, hsent]

/-- A task that waits for an answer is in flight on the line of its server alone. -/
theorem callsTo_calling {i : ℕ} {t : Task} {d : Dispatch} (ht : st.tasks[i]? = some t)
    (hcalling : t.phase = .calling) (hsent : t.sent = some d) :
    callsTo server st.tasks i =
      if d.server = server then .inFlight ⟨d.probe, d.time⟩ else .before := by
  simp only [callsTo, ht, stage_calling server hcalling hsent]

/-- The server after the call of a task has ended: the call is over if it was one to the
server. -/
theorem line_ended {i : ℕ} {t : Task} {d : Dispatch} (ht : st.tasks[i]? = some t)
    (hcalling : t.phase = .calling) (hsent : t.sent = some d) (g : Shared) (b' : CircuitBreaker)
    {phase : Phase} (hphase : phase ≠ .calling) :
    Gateway.line ⟨g, st.tasks.set i { t with phase }⟩ b' server =
      ⟨b'.now, b'.circuit server, if d.server = server then
        Function.update (callsTo server st.tasks) i .ended else callsTo server st.tasks⟩ := by
  have hcall := callsTo_calling server ht hcalling hsent
  have hstage := stage_ended server (t := { t with phase }) hsent hphase
  simp only [Gateway.line, callsTo_set server ht, hstage]
  by_cases hserver : d.server = server
  · simp only [if_pos hserver]
  · rw [if_neg hserver] at hcall
    simp only [if_neg hserver, update_callsTo_self server hcall]

/-- An answer from a backend ends a call on the line of its server. -/
theorem line_answered {i : ℕ} {result : CallToolResult} (hb : st.shared.breaker = some b)
    (hstep : (gateway cfg).step st (.answered i result) = some st') :
    ∃ b', st'.shared.breaker = some b' ∧ b'.params = b.params ∧
      Matches b.params (st.line b server) (st'.line b' server)
        (event cfg server st (.answered i result)) := by
  obtain ⟨t, d, ht, hphase, hsent, rfl⟩ := step_answered hstep
  have hcall := callsTo_calling server ht hphase hsent
  cases hrelay : relayDecision cfg.py result with
  | error e =>
      have hout : routeAnswered cfg st.shared d.server result = (st.shared, .raise e) := by
        simp only [routeAnswered, hrelay]
      simp only [hout]
      refine ⟨b, hb, rfl, ?_⟩
      rw [line_ended server ht hphase hsent st.shared b (by simp [Halt.phase])]
      simp only [event, hcall, hrelay]
      split
      · simp [Matches, HalfOpen.step, Gateway.line, *]
      · rfl
  | ok relay =>
      have hout : routeAnswered cfg st.shared d.server result =
          (st.shared.report d.server relay, .ret result relay) := by
        simp only [routeAnswered, hrelay]
      simp only [hout]
      have hbreaker : (st.shared.report d.server relay).breaker =
          some (if relay = .error then b.recordFailure d.server
            else b.recordSuccess d.server) := by
        simp [Shared.report, hb]
      refine ⟨_, hbreaker, by split <;> rfl, ?_⟩
      rw [line_ended server ht hphase hsent _ _ (by simp [Halt.phase])]
      simp only [event, hcall, hrelay]
      by_cases hserver : d.server = server
      · subst hserver
        cases relay with
        | error =>
            simp [Matches, HalfOpen.step, Gateway.line, hcall, b.circuit_recordFailure]
        | allowed | denied | authFailed | rateLimited =>
            simp [Matches, HalfOpen.step, Gateway.line, hcall, b.circuit_recordSuccess]
      · have hne : server ≠ d.server := fun h => hserver h.symm
        by_cases herror : relay = .error
        · simp [Matches, Gateway.line, hserver, herror, b.circuit_recordFailure, hne]
        · simp [Matches, Gateway.line, hserver, herror, b.circuit_recordSuccess, hne]

/-- A task that is aborted gives no answer to the line of its server. -/
theorem line_aborted {i : ℕ} (hb : st.shared.breaker = some b)
    (hstep : (gateway cfg).step st (.abort i) = some st')
    (hwait : ∀ (i : ℕ) (t : Task) server tool, st.tasks[i]? = some t →
      t.phase = .reloading server tool → t.sent = none) :
    ∃ b', st'.shared.breaker = some b' ∧ b'.params = b.params ∧
      Matches b.params (st.line b server) (st'.line b' server)
        (event cfg server st (.abort i)) := by
  obtain ⟨t, ht, hphase, rfl⟩ := step_abort hstep
  refine ⟨b, hb, rfl, ?_⟩
  rcases Option.eq_none_or_eq_some t.sent with hsent | ⟨d, hsent⟩
  · have hcall : callsTo server st.tasks i = .before := by simp [callsTo, ht, stage, hsent]
    have hstage : stage server { t with phase := .aborted } = .before := by
      simp only [stage, hsent]
    simp only [event, hcall, Matches, Gateway.line, callsTo_set server ht, hstage,
      update_callsTo_self server hcall]
  · have hcalling : t.phase = .calling := by
      rcases hphase with ⟨server', tool, hphase⟩ | hphase
      · simp [hwait i t server' tool ht hphase] at hsent
      · exact hphase
    have hcall := callsTo_calling server ht hcalling hsent
    rw [line_ended server ht hcalling hsent st.shared b (by simp)]
    by_cases hserver : d.server = server
    · simp [event, hcall, hserver, Matches, HalfOpen.step, Gateway.line]
    · simp [event, hcall, hserver, Matches, Gateway.line]

/-- **Each step of the gateway is one event of the protocol for the server, or none.** -/
theorem line_step {a : Action} (hb : st.shared.breaker = some b)
    (hstep : (gateway cfg).step st a = some st')
    (hwait : ∀ (i : ℕ) (t : Task) server tool, st.tasks[i]? = some t →
      t.phase = .reloading server tool → t.sent = none) :
    ∃ b', st'.shared.breaker = some b' ∧ b'.params = b.params ∧
      Matches b.params (st.line b server) (st'.line b' server) (event cfg server st a) := by
  cases a with
  | arrive r =>
      obtain rfl := step_arrive hstep
      exact matches_of_admits server (admits_arrive r hb) rfl rfl
        (callsTo_length server st.tasks) (callsTo_concat server st.tasks _)
  | reloaded i ok =>
      obtain ⟨t, server', tool, ht, hphase, rfl⟩ := step_reloaded hstep
      have hbefore : callsTo server st.tasks i = .before := by
        simp [callsTo, ht, stage, hwait i t server' tool ht hphase]
      simp only [event, ht, hphase]
      exact matches_of_admits server (admits_reloaded t.request server' tool ok hb) rfl rfl
        hbefore (callsTo_set server ht _)
  | answered i result => exact line_answered server hb hstep
  | abort i => exact line_aborted server hb hstep hwait
  | load server' tools =>
      obtain rfl := step_load hstep
      exact ⟨b, hb, rfl, rfl⟩
  | limiterClock now =>
      obtain ⟨l, -, -, rfl⟩ := step_limiterClock hstep
      exact ⟨b, hb, rfl, rfl⟩
  | breakerClock now =>
      obtain ⟨b₀, hb₀, hnow, rfl⟩ := step_breakerClock hstep
      obtain rfl : b₀ = b := Option.some.inj (hb₀.symm.trans hb)
      exact ⟨{ b₀ with now }, rfl, rfl, if_pos hnow⟩

end Simulation

/-- The gateway has a breaker with these settings, its tasks that wait have sent nothing,
and `l` is what it makes of the server. -/
def LineIs (params : HalfOpen.Params ℚ) (server : Str) (st : Gateway)
    (l : HalfOpen.Line ℕ ℚ) : Prop :=
  (∃ b, st.shared.breaker = some b ∧ b.params = params ∧ l = st.line b server) ∧
  ∀ (i : ℕ) (t : Task) server tool, st.tasks[i]? = some t → t.phase = .reloading server tool →
    t.sent = none

section Runs

variable {cfg : Settings} {params : HalfOpen.Params ℚ} {server : Str}

/-- A stop at `ensure_session` has sent nothing. -/
theorem sent_of_reloading {h : Halt} {server tool : Str}
    (hphase : h.phase = .reloading server tool) : h.sent = none := by
  cases h with
  | call d => simp [Halt.phase] at hphase
  | reload _ _ | ret _ _ | raise _ => rfl

/-- A step keeps the tasks that wait from having sent anything. -/
theorem unsent_step {st st' : Gateway} {a : Action} (hstep : (gateway cfg).step st a = some st')
    (hwait : ∀ (i : ℕ) (t : Task) server tool, st.tasks[i]? = some t →
      t.phase = .reloading server tool → t.sent = none) :
    ∀ (i : ℕ) (t : Task) server tool, st'.tasks[i]? = some t →
      t.phase = .reloading server tool → t.sent = none := by
  intro i t' server tool ht' hphase'
  rcases task_of_step hstep ht' with ⟨r, -, -, rfl⟩ | ⟨t, ht, rfl | ⟨ok, server', tool', -, -,
    rfl⟩ | ⟨result, d, -, -, -, rfl⟩ | ⟨-, -, rfl⟩⟩
  · exact sent_of_reloading hphase'
  · exact hwait i t' server tool ht hphase'
  · exact sent_of_reloading hphase'
  · simp only [routeAnswered] at hphase'
    split at hphase' <;> simp [Halt.phase] at hphase'
  · simp at hphase'

/-- **The gateway is simulated by the half-open protocol**, for every server. -/
theorem gateway_simulates (cfg : Settings) (params : HalfOpen.Params ℚ) (server : Str) :
    (gateway cfg).Simulates (HalfOpen.system params) (LineIs params server)
      (event cfg server) := by
  rintro st a st' l ⟨⟨b, hb, rfl, rfl⟩, hwait⟩ hstep
  obtain ⟨b', hb', hparams, hmatch⟩ := line_step server hb hstep hwait
  have hline : LineIs b.params server st' (st'.line b' server) :=
    ⟨⟨b', hb', hparams, rfl⟩, unsent_step hstep hwait⟩
  cases hevent : event cfg server st a with
  | none =>
      simp only [hevent, Matches] at hmatch
      rw [hmatch] at hline
      exact hline
  | some e =>
      simp only [hevent, Matches] at hmatch
      exact ⟨_, hmatch, hline⟩

/-- One step, seen from the server. -/
theorem LineIs.step {st st' : Gateway} {l : HalfOpen.Line ℕ ℚ} {a : Action}
    (hl : LineIs params server st l) (hstep : (gateway cfg).step st a = some st') :
    ∃ l', LineIs params server st' l' ∧ Matches params l l' (event cfg server st a) := by
  have hsim := gateway_simulates cfg params server st a st' l hl hstep
  cases hevent : event cfg server st a with
  | none =>
      rw [hevent] at hsim
      exact ⟨l, hsim, rfl⟩
  | some e =>
      rw [hevent] at hsim
      obtain ⟨l', hmatch, hline⟩ := hsim
      exact ⟨l', hline, hmatch⟩

/-- A gateway without tasks, seen from the server. -/
theorem lineIs_start {st : Gateway} {b : CircuitBreaker} (hb : st.shared.breaker = some b)
    (hinit : st.tasks = []) (server : Str) : LineIs b.params server st (st.line b server) :=
  ⟨⟨b, hb, rfl, rfl⟩, by simp [hinit]⟩

/-- Every state of a run has its line. -/
theorem lineIs_of_run {st st' : Gateway} {l : HalfOpen.Line ℕ ℚ} {as : List Action}
    (hl : LineIs params server st l) (hrun : (gateway cfg).exec st as = some st') :
    ∃ l', LineIs params server st' l' :=
  System.invariant' (I := fun st => ∃ l, LineIs params server st l)
    (fun _ _ _ ⟨_, hl⟩ hstep => (hl.step hstep).imp fun _ h => h.1) ⟨l, hl⟩ hrun

/-- A state has one line. -/
theorem LineIs.unique {st : Gateway} {l l' : HalfOpen.Line ℕ ℚ}
    (hl : LineIs params server st l) (hl' : LineIs params server st l') : l = l' := by
  obtain ⟨⟨b, hb, -, rfl⟩, -⟩ := hl
  obtain ⟨⟨b', hb', -, rfl⟩, -⟩ := hl'
  rw [Option.some.inj (hb.symm.trans hb')]

end Runs

/-! ### Calls in flight -/

/-- The call of a task is in flight to the server. -/
def Gateway.InFlight (st : Gateway) (server : Str) (i : ℕ) (d : Dispatch) : Prop :=
  ∃ t, st.tasks[i]? = some t ∧ t.phase = .calling ∧ t.sent = some d ∧ d.server = server

/-- The call of a task is in flight to the server as a half-open probe. -/
def Gateway.Probes (st : Gateway) (server : Str) (i : ℕ) : Prop :=
  ∃ d, st.InFlight server i d ∧ d.probe = true

/-- The circuit of the server is open or half-open. -/
def Gateway.Tripped (st : Gateway) (server : Str) : Prop :=
  ∃ b, st.shared.breaker = some b ∧ b.isTripped server = true

/-- The reading of the breaker's clock. -/
def Gateway.clock (st : Gateway) : ℚ :=
  match st.shared.breaker with
  | some b => b.now
  | none => 0

/-- A call in flight, as the protocol sees it. -/
theorem callsTo_inFlight {st : Gateway} {server : Str} {i : ℕ} {a : HalfOpen.Admission ℚ} :
    callsTo server st.tasks i = .inFlight a ↔
      ∃ d, st.InFlight server i d ∧ a = ⟨d.probe, d.time⟩ := by
  constructor
  · intro h
    simp only [callsTo] at h
    split at h
    · simp at h
    · next t ht =>
        simp only [stage] at h
        split at h
        · simp at h
        · next d hsent =>
            split at h
            · next hserver =>
                split at h
                · next hphase =>
                    exact ⟨d, ⟨t, ht, hphase, hsent, hserver⟩, (HalfOpen.Stage.inFlight.inj h).symm⟩
                · simp at h
            · simp at h
  · rintro ⟨d, ⟨t, ht, hphase, hsent, hserver⟩, rfl⟩
    simp only [callsTo, ht, stage_calling server hphase hsent, if_pos hserver]

/-- A task has a call in flight to the server. -/
theorem Gateway.exists_inFlight_iff {st : Gateway} {server : Str} {i : ℕ} :
    (∃ d, st.InFlight server i d) ↔ (callsTo server st.tasks i).isInFlight = true := by
  constructor
  · rintro ⟨d, hd⟩
    rw [callsTo_inFlight.mpr ⟨d, hd, rfl⟩]
    rfl
  · intro h
    cases hcall : callsTo server st.tasks i with
    | inFlight a =>
        obtain ⟨d, hd, -⟩ := callsTo_inFlight.mp hcall
        exact ⟨d, hd⟩
    | before => simp [hcall, HalfOpen.Stage.isInFlight] at h
    | ended => simp [hcall, HalfOpen.Stage.isInFlight] at h

/-- The circuit of the server is tripped. -/
theorem Gateway.tripped_iff {st : Gateway} {server : Str} :
    st.Tripped server ↔ (st.shared.breaker.any fun b => b.isTripped server) = true :=
  (Option.any_eq_true _ _).symm

/-- A probe in flight, as the protocol sees it. -/
theorem Gateway.probes_iff {st : Gateway} {server : Str} {i : ℕ} :
    st.Probes server i ↔ (callsTo server st.tasks i).isProbe = true := by
  constructor
  · rintro ⟨d, hd, hprobe⟩
    rw [callsTo_inFlight.mpr ⟨d, hd, rfl⟩]
    exact hprobe
  · intro h
    cases hcall : callsTo server st.tasks i with
    | inFlight a =>
        obtain ⟨d, hd, rfl⟩ := callsTo_inFlight.mp hcall
        rw [hcall] at h
        exact ⟨d, hd, h⟩
    | before => simp [hcall, HalfOpen.Stage.isProbe] at h
    | ended => simp [hcall, HalfOpen.Stage.isProbe] at h

section Views

variable {cfg : Settings} {params : HalfOpen.Params ℚ} {server : Str} {st : Gateway}
  {l : HalfOpen.Line ℕ ℚ}

theorem LineIs.inFlight (hl : LineIs params server st l) {i : ℕ} {a : HalfOpen.Admission ℚ} :
    l.calls i = .inFlight a ↔ ∃ d, st.InFlight server i d ∧ a = ⟨d.probe, d.time⟩ := by
  obtain ⟨⟨b, -, -, rfl⟩, -⟩ := hl
  exact callsTo_inFlight

theorem LineIs.probes (hl : LineIs params server st l) {i : ℕ} :
    l.Probes i ↔ st.Probes server i := by
  constructor
  · rintro ⟨a, ha, hprobe⟩
    obtain ⟨d, hd, rfl⟩ := hl.inFlight.mp ha
    exact ⟨d, hd, hprobe⟩
  · rintro ⟨d, hd, hprobe⟩
    exact ⟨_, hl.inFlight.mpr ⟨d, hd, rfl⟩, hprobe⟩

theorem LineIs.tripped (hl : LineIs params server st l) :
    l.circuit.tripped ↔ st.Tripped server := by
  obtain ⟨⟨b, hb, -, rfl⟩, -⟩ := hl
  simp [Gateway.line, Gateway.Tripped, hb, CircuitBreaker.isTripped_iff]

theorem LineIs.clock (hl : LineIs params server st l) : l.now = st.clock := by
  obtain ⟨⟨b, hb, -, rfl⟩, -⟩ := hl
  simp [Gateway.line, Gateway.clock, hb]

end Views

end AgentOpsGateway
