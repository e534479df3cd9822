import AgentOpsGateway.Contract
import AgentOpsGateway.Line
import AgentOpsGateway.Mediation
import AgentOpsGateway.Readiness

/-!
# From the Client to the Wire

The gateway and its backend objects as one system: `route_call` decides, and `Backend.call` makes
the requests. `route_call` awaits `backend.call` in its own task, so that a task of the gateway and
the caller of a backend object that runs its call are one and the same; the tools that a connection
task lists are those the gateway reads. Whether the `ensure_session` of a task returns or raises is
left open here, which allows more than the source.

## Main results

* `Upstream.asked_step`: every request was made by a call, with its tool and its arguments.
* `service_gateway`, `service_backend`: the parts of a run are runs of the parts.
* `wired_step`: every call of a backend object is that of a task of the gateway, and of no
  other one.
* `wire_mediated`: **nothing reaches a backend that the policy does not permit, and what comes back
  is what the backend has replied.**
-/

namespace AgentOpsGateway

open Python Transition

/-! ### Who makes a request -/

/-- Every request was made by a call that has entered, with the tool and the arguments of the
call. -/
def Upstream.Asked (st : Upstream) : Prop := ∀ r, r < st.requestCount →
  (st.callers (st.requests r).caller).phase ≠ .idle ∧
    (st.callers (st.requests r).caller).operation =
      .call (st.requests r).tool (st.requests r).arguments

/-- Caller `i` has run a segment of its operation: each request is one there was, or a request
of its call. -/
structure Upstream.Runs (i : ℕ) (st st' : Upstream) : Prop where
  operation : (st'.callers i).operation = (st.callers i).operation
  entered : (st'.callers i).phase ≠ .idle
  made : ∀ r, r < st'.requestCount →
    (r < st.requestCount ∧ (st'.requests r).caller = (st.requests r).caller ∧
      (st'.requests r).tool = (st.requests r).tool ∧
      (st'.requests r).arguments = (st.requests r).arguments) ∨
    ((st'.requests r).caller = i ∧ (st.callers i).operation =
      .call (st'.requests r).tool (st'.requests r).arguments)

namespace Upstream

variable {st st' : Upstream} {i j : ℕ} {a : UpstreamAction}

/-- A caller that makes no request. -/
theorem runs_of_eq (hoperation : (st'.callers i).operation = (st.callers i).operation)
    (hentered : (st'.callers i).phase ≠ .idle) (hrequests : st'.requests = st.requests)
    (hcount : st'.requestCount = st.requestCount) : Runs i st st' :=
  ⟨hoperation, hentered, fun r hr => Or.inl ⟨hcount ▸ hr, by rw [hrequests], by rw [hrequests],
    by rw [hrequests]⟩⟩

/-- A caller moves. -/
theorem runs_move (st : Upstream) {phase : CallerPhase} (h : phase ≠ .idle) :
    Runs i st (st.move i phase) :=
  runs_of_eq (by simp [move]) (by rwa [move_phase]) rfl rfl

/-- An attempt fails. -/
theorem runs_fail (st : Upstream) (retry : Bool) (a : Attempt) : Runs i st (st.fail i retry a) :=
  runs_of_eq (by simp [fail]) (by simp [fail]) rfl rfl

/-- An attempt is answered. -/
theorem runs_answer (st : Upstream) (result : CallToolResult) :
    Runs i st (st.answer i result) :=
  runs_of_eq (by simp [answer]) (by simp [answer]) rfl rfl

/-- The caller makes a request of its call, and goes on. -/
theorem runs_dispatch {session : ℕ} {tool : Str} {arguments : Arguments}
    (hop : (st.callers i).operation = .call tool arguments)
    (h : Runs i (st.dispatch i session tool arguments) st') : Runs i st st' := by
  refine ⟨h.operation, h.entered, fun r hr => ?_⟩
  rcases h.made r hr with ⟨hlt, hcaller, htool, harguments⟩ | hown
  · by_cases hnew : r = st.requestCount
    · have hmade : (st.dispatch i session tool arguments).requests r =
          ⟨i, session, tool, arguments, false, .pending⟩ := by
        rw [hnew]
        exact Function.update_self _ _ _
      rw [hmade] at hcaller htool harguments
      exact Or.inr ⟨hcaller, by rw [htool, harguments, hop]⟩
    · have hold : (st.dispatch i session tool arguments).requests r = st.requests r :=
        Function.update_of_ne hnew _ _
      rw [hold] at hcaller htool harguments
      exact Or.inl ⟨Nat.lt_of_le_of_ne (Nat.le_of_lt_succ hlt) hnew, hcaller, htool, harguments⟩
  · exact Or.inr hown

/-- The start of a race, or a return. -/
theorem runs_proceed (st : Upstream) (retry : Bool) : Runs i st (st.proceed i retry) := by
  by_cases hcall : ∃ tool arguments, (st.callers i).operation = .call tool arguments
  · obtain ⟨tool, arguments, hop⟩ := hcall
    rcases proceed_call retry hop with ⟨-, heq⟩ | ⟨session, -, ⟨-, heq⟩ | ⟨owner, -, heq⟩⟩
    · rw [heq]
      exact runs_fail st retry _
    · rw [heq]
      exact runs_dispatch hop (runs_fail _ retry _)
    · rw [heq]
      exact runs_dispatch hop (runs_move _ (by simp))
  · rw [proceed_of_not_call retry fun tool arguments hop => hcall ⟨tool, arguments, hop⟩]
    exact runs_move st (by simp)

/-- The end of a teardown. -/
theorem runs_torn (st : Upstream) (s : Section) : Runs i st (st.torn i s) := by
  cases s with
  | connect retry =>
      have hphase : CallerPhase.connecting retry st.connectionCount ≠ .idle := by simp
      exact { runs_move (i := i) st hphase with }
  | giveUp | close => exact { runs_move (i := i) st (by simp) with }

/-- A caller gets the lock. -/
theorem runs_acquired (st : Upstream) (s : Section) : Runs i st (st.acquired i s) := by
  rcases acquired_cases st i s with ⟨-, -, heq⟩ | ⟨-, ⟨-, heq⟩ | ⟨c, -, ⟨-, heq⟩ | ⟨-, heq⟩⟩⟩
  · rw [heq]
    exact runs_proceed st false
  · rw [heq]
    exact { runs_torn { st with lock := some i } s with }
  · rw [heq]
    exact { runs_torn ({ st with lock := some i }.setStop c) s with }
  · rw [heq]
    exact { runs_move ({ st with lock := some i }.setStop c) (by simp) with }

/-- A connection attempt fails. -/
theorem runs_connectFailed (st : Upstream) (retry : Bool) (c : ℕ) :
    Runs i st (st.connectFailed i retry c) := by
  unfold connectFailed
  dsimp only
  split
  · exact { runs_move (st.release.setConnection c _) (by simp) with }
  · split
    · exact { runs_fail (st.release.setConnection c _) false .noAnswer with }
    · exact { runs_move (st.release.setConnection c _) (by simp) with }

/-- **What a step does to callers and requests**: a caller enters, a caller that is in its
operation runs a segment of it, or no caller runs. -/
theorem runs_of_step (hstep : upstream.step st a = some st') :
    (∃ i op, a = .enter i op ∧ (st.callers i).phase = .idle ∧ st' = { st with
      callers := Function.update st.callers i ⟨op, .acquiring op.section, []⟩ }) ∨
    (∃ i, a.caller = some i ∧ (st.callers i).phase.isActive = true ∧ Runs i st st') ∨
    (a.caller = none ∧ st'.callers = st.callers ∧ ∀ r, r < st'.requestCount →
      r < st.requestCount ∧ (st'.requests r).caller = (st.requests r).caller ∧
        (st'.requests r).tool = (st.requests r).tool ∧
        (st'.requests r).arguments = (st.requests r).arguments) := by
  cases a with
  | enter i op =>
      obtain ⟨hphase, rfl⟩ := step_enter hstep
      exact Or.inl ⟨i, op, rfl, hphase, rfl⟩
  | acquire i =>
      obtain ⟨s, hphase, -, rfl⟩ := step_acquire hstep
      exact Or.inr (Or.inl ⟨i, rfl, by rw [hphase]; rfl, runs_acquired st s⟩)
  | torn i =>
      obtain ⟨s, c, hphase, -, rfl⟩ := step_torn hstep
      exact Or.inr (Or.inl ⟨i, rfl, by rw [hphase]; rfl, runs_torn st s⟩)
  | connected i =>
      obtain ⟨retry, c, hphase, ⟨-, rfl⟩ | ⟨-, rfl⟩⟩ := step_connected hstep
      · exact Or.inr (Or.inl ⟨i, rfl, by rw [hphase]; rfl,
          { runs_proceed { st with task := some c, lock := none } retry with }⟩)
      · exact Or.inr (Or.inl ⟨i, rfl, by rw [hphase]; rfl, runs_connectFailed st retry c⟩)
  | raced i =>
      obtain ⟨retry, r, owner, hphase, ⟨result, -, rfl⟩ | ⟨f, -, rfl⟩ | ⟨-, -, rfl⟩⟩ :=
        step_raced hstep
      · exact Or.inr (Or.inl ⟨i, rfl, by rw [hphase]; rfl, runs_answer st result⟩)
      · exact Or.inr (Or.inl ⟨i, rfl, by rw [hphase]; rfl, runs_fail st retry _⟩)
      · have hfail := runs_fail (i := i)
          (st.setRequest r { st.requests r with reply := Reply.cancelled }) retry .noAnswer
        refine Or.inr (Or.inl ⟨i, rfl, by rw [hphase]; rfl, hfail.operation, hfail.entered,
          fun r' hr' => Or.inl ⟨hr', ?_⟩⟩)
        change ((st.setRequest r { st.requests r with reply := Reply.cancelled }).requests
          r').caller = _ ∧ ((st.setRequest r _).requests r').tool = _ ∧
          ((st.setRequest r _).requests r').arguments = _
        rw [setRequest_requests]
        split
        · next heq => exact heq ▸ ⟨rfl, rfl, rfl⟩
        · exact ⟨rfl, rfl, rfl⟩
  | cancel i =>
      rcases step_cancel hstep with ⟨hphase, rfl⟩ | ⟨s, c, hphase, ⟨-, rfl⟩ | rfl⟩ |
        ⟨retry, c, hphase, rfl⟩
      · refine Or.inr (Or.inl ⟨i, rfl, ?_, runs_move st (by simp)⟩)
        rcases hphase with ⟨s, hphase⟩ | ⟨retry, r, owner, hphase⟩ <;> rw [hphase] <;> rfl
      · exact Or.inr (Or.inl ⟨i, rfl, by rw [hphase]; rfl,
          { runs_move st.release (by simp) with }⟩)
      · refine Or.inr (Or.inl ⟨i, rfl, by rw [hphase]; rfl, ?_⟩)
        simp only [cancelConnection]
        split
        · exact runs_of_eq rfl (by simp [setConnection, hphase]) rfl rfl
        · exact runs_of_eq rfl (by simp [hphase]) rfl rfl
      · exact Or.inr (Or.inl ⟨i, rfl, by rw [hphase]; rfl,
          { runs_move (st.release.setConnection c _) (by simp) with }⟩)
  | start _ | opened _ _ | openFail _ | die _ | stopped _ | finish _ | send _ | reply _ _
  | callRaise _ _ =>
      refine Or.inr (Or.inr ⟨rfl, ?_⟩)
      obtain ⟨c, k, session, tools, rfl⟩ | ⟨r, x, -, hcaller, htool, harguments, -, -, rfl⟩ :=
        step_of_no_caller rfl hstep
      · exact ⟨rfl, fun r hr => ⟨hr, rfl, rfl, rfl⟩⟩
      · refine ⟨rfl, fun r' hr' => ⟨hr', ?_⟩⟩
        rw [setRequest_requests]
        split
        · next heq => exact heq ▸ ⟨hcaller, htool, harguments⟩
        · exact ⟨rfl, rfl, rfl⟩

/-- A caller that has entered stays with its operation. -/
theorem operation_of_step (hstep : upstream.step st a = some st')
    (hj : (st.callers j).phase ≠ .idle) :
    (st'.callers j).operation = (st.callers j).operation ∧ (st'.callers j).phase ≠ .idle := by
  rcases runs_of_step hstep with ⟨i, op, -, hidle, rfl⟩ | ⟨i, hcaller, -, hruns⟩ |
    ⟨-, hcallers, -⟩
  · have hne : j ≠ i := fun h => hj (h ▸ hidle)
    simp [Function.update_of_ne hne, hj]
  · by_cases hji : j = i
    · exact hji ▸ ⟨hruns.operation, hruns.entered⟩
    · rw [callers_of_step hstep (by rw [hcaller]; simpa using Ne.symm hji)]
      exact ⟨rfl, hj⟩
  · rw [hcallers]
    exact ⟨rfl, hj⟩

/-- A caller that has returned stays where it is. -/
theorem returned_of_step (hstep : upstream.step st a = some st') {p : Option CallToolResult}
    (hj : (st.callers j).phase = .returned p) : (st'.callers j).phase = .returned p := by
  rcases runs_of_step hstep with ⟨i, op, -, hidle, rfl⟩ | ⟨i, hcaller, hactive, -⟩ |
    ⟨-, hcallers, -⟩
  · have hne : j ≠ i := fun h => by simp [← h, hj] at hidle
    simpa [Function.update_of_ne hne] using hj
  · have hne : i ≠ j := fun h => by simp [h, hj, CallerPhase.isActive] at hactive
    rw [callers_of_step hstep (by rw [hcaller]; simpa using hne), hj]
  · rw [hcallers, hj]

/-- **Every step keeps every request that of a call.** -/
theorem asked_step (h : st.Asked) (hstep : upstream.step st a = some st') : st'.Asked := by
  have hkept : ∀ r, r < st.requestCount → (st'.requests r).caller = (st.requests r).caller →
      (st'.requests r).tool = (st.requests r).tool →
      (st'.requests r).arguments = (st.requests r).arguments →
      (st'.callers (st'.requests r).caller).phase ≠ .idle ∧
        (st'.callers (st'.requests r).caller).operation =
          .call (st'.requests r).tool (st'.requests r).arguments := by
    intro r hr hcaller htool harguments
    obtain ⟨hentered, hop⟩ := h r hr
    obtain ⟨hop', hentered'⟩ := operation_of_step hstep hentered
    rw [hcaller, htool, harguments]
    exact ⟨hentered', hop'.trans hop⟩
  intro r hr
  rcases runs_of_step hstep with ⟨i, op, -, -, rfl⟩ | ⟨i, -, -, hruns⟩ | ⟨-, -, hsame⟩
  · exact hkept r hr rfl rfl rfl
  · rcases hruns.made r hr with ⟨hlt, hcaller, htool, harguments⟩ | ⟨hcaller, hop⟩
    · exact hkept r hlt hcaller htool harguments
    · rw [hcaller]
      exact ⟨hruns.entered, hruns.operation.trans hop⟩
  · obtain ⟨hlt, hcaller, htool, harguments⟩ := hsame r hr
    exact hkept r hlt hcaller htool harguments

end Upstream

/-! ### The gateway and its backend objects -/

/-- The gateway with its backend objects. -/
structure Service where
  gateway : Gateway
  backend : Str → Upstream
  /-- The `backend.call` of each task that has begun: what it calls, and the caller it is. -/
  calls : ℕ → Option (Dispatch × ℕ)

/-- Change a backend object. -/
def Service.set (st : Service) (server : Str) (up : Upstream) : Service :=
  { st with backend := Function.update st.backend server up }

/-- The tools that a connection task lists. -/
def UpstreamAction.listed : UpstreamAction → Option (List Tool)
  | .opened _ tools => some tools
  | .enter _ _ | .acquire _ | .torn _ | .connected _ | .raced _ | .cancel _ | .start _
  | .openFail _ | .die _ | .stopped _ | .finish _ | .send _ | .reply _ _ | .callRaise _ _ => none

/-- The call that a task has come to. -/
def Gateway.dispatchOf (st : Gateway) (i : ℕ) : Option Dispatch := st.tasks[i]?.bind Task.sent

/-- What happens in the gateway without a backend object: all but the listing of tools and the end
of a call. -/
def Gateway.isOwn (st : Gateway) : Action → Bool
  | .answered _ _ | .load _ _ => false
  | .abort i => (st.dispatchOf i).isNone
  | .arrive _ | .reloaded _ _ | .limiterClock _ | .breakerClock _ => true

/-- How the end of its `backend.call` goes on in task `i`. -/
def CallerPhase.ends (i : ℕ) : CallerPhase → Option Action
  | .returned result => result.map (.answered i)
  | .cancelled => some (.abort i)
  | .idle | .acquiring _ | .tearing _ _ | .connecting _ _ | .racing _ _ _ | .raised => none

/-- What can happen next. -/
inductive ServiceAction
  | gateway (a : Action)
  /-- Something happens at a backend object, besides the start of a `call`. -/
  | backend (server : Str) (a : UpstreamAction)
  /-- Task `i` goes into `backend.call`, as caller `j` of the object. -/
  | call (i j : ℕ)
  /-- The `backend.call` of task `i` has ended. -/
  | ended (i : ℕ)

/-- Let one thing happen, where it is possible. -/
def Service.step (cfg : Settings) (st : Service) : ServiceAction → Option Service
  | .gateway a =>
    if st.gateway.isOwn a then
      (Gateway.step cfg st.gateway a).map fun g => { st with gateway := g }
    else none
  | .backend server a =>
    if a.isCall then none
    else
      (upstream.step (st.backend server) a).map fun up =>
        { st.set server up with
          gateway := a.listed.elim st.gateway fun tools =>
            ⟨st.gateway.shared.load server tools, st.gateway.tasks⟩ }
  | .call i j =>
    if (st.calls i).isSome then none
    else
      (st.gateway.dispatchOf i).bind fun d =>
        (upstream.step (st.backend d.server) (.enter j (.call d.tool d.arguments))).map fun up =>
          { st.set d.server up with calls := Function.update st.calls i (some (d, j)) }
  | .ended i =>
    (st.calls i).bind fun c =>
      (((st.backend c.1.server).callers c.2).phase.ends i).bind fun a =>
        (Gateway.step cfg st.gateway a).map fun g => { st with gateway := g }

/-- The runs of the gateway with its backend objects. -/
def service (cfg : Settings) : System Service ServiceAction := ⟨Service.step cfg⟩

/-- A gateway with new backend objects. -/
def Service.start (g : Gateway) : Service := ⟨g, Upstream.init, fun _ => none⟩

/-! ### The two parts of a run -/

/-- What an action of the service is to the gateway. -/
def Service.gatewayAction (st : Service) : ServiceAction → Option Action
  | .gateway a => some a
  | .backend server a => a.listed.map (.load server)
  | .call _ _ => none
  | .ended i => (st.calls i).bind fun c => ((st.backend c.1.server).callers c.2).phase.ends i

/-- What an action of the service is to a backend object. -/
def Service.backendAction (server : Str) (st : Service) : ServiceAction → Option UpstreamAction
  | .gateway _ | .ended _ => none
  | .backend s a => if s = server then some a else none
  | .call i j => (st.gateway.dispatchOf i).bind fun d =>
    if d.server = server then some (.enter j (.call d.tool d.arguments)) else none

section Steps

variable {cfg : Settings} {st st' : Service}

/-- What each action does. -/
theorem service_cases {b : ServiceAction} (h : (service cfg).step st b = some st') :
    (∃ a g, b = .gateway a ∧ st.gateway.isOwn a = true ∧
      (gateway cfg).step st.gateway a = some g ∧ st' = { st with gateway := g }) ∨
    (∃ server a up, b = .backend server a ∧ a.isCall = false ∧
      upstream.step (st.backend server) a = some up ∧
      st' = { st.set server up with
        gateway := a.listed.elim st.gateway fun tools =>
          ⟨st.gateway.shared.load server tools, st.gateway.tasks⟩ }) ∨
    (∃ i j d up, b = .call i j ∧ st.calls i = none ∧ st.gateway.dispatchOf i = some d ∧
      upstream.step (st.backend d.server) (.enter j (.call d.tool d.arguments)) = some up ∧
      st' = { st.set d.server up with calls := Function.update st.calls i (some (d, j)) }) ∨
    ∃ i d j a g, b = .ended i ∧ st.calls i = some (d, j) ∧
      ((st.backend d.server).callers j).phase.ends i = some a ∧
      (gateway cfg).step st.gateway a = some g ∧ st' = { st with gateway := g } := by
  cases b with
  | gateway a =>
      simp only [service, Service.step, Option.ite_none_right_eq_some] at h
      obtain ⟨g, hg, rfl⟩ := Option.map_eq_some_iff.mp h.2
      exact Or.inl ⟨a, g, rfl, h.1, hg, rfl⟩
  | backend server a =>
      simp only [service, Service.step, Option.ite_none_left_eq_some, Bool.not_eq_true] at h
      obtain ⟨up, hup, rfl⟩ := Option.map_eq_some_iff.mp h.2
      exact Or.inr (Or.inl ⟨server, a, up, rfl, h.1, hup, rfl⟩)
  | call i j =>
      simp only [service, Service.step, Option.ite_none_left_eq_some] at h
      obtain ⟨d, hd, hmap⟩ := Option.bind_eq_some_iff.mp h.2
      obtain ⟨up, hup, rfl⟩ := Option.map_eq_some_iff.mp hmap
      exact Or.inr (Or.inr (Or.inl ⟨i, j, d, up, rfl, by simpa using h.1, hd, hup, rfl⟩))
  | ended i =>
      obtain ⟨⟨d, j⟩, hc, hbind⟩ := Option.bind_eq_some_iff.mp h
      obtain ⟨a, ha, hmap⟩ := Option.bind_eq_some_iff.mp hbind
      obtain ⟨g, hg, rfl⟩ := Option.map_eq_some_iff.mp hmap
      exact Or.inr (Or.inr (Or.inr ⟨i, d, j, a, g, rfl, hc, ha, hg, rfl⟩))

/-- **The gateway of a run runs as a gateway does.** -/
theorem service_gateway (cfg : Settings) :
    (service cfg).Simulates (gateway cfg) (fun st g => st.gateway = g)
      Service.gatewayAction := by
  intro st b st' g hg hstep
  subst hg
  rcases service_cases hstep with ⟨a, g, rfl, -, hg, rfl⟩ | ⟨server, a, up, rfl, -, -, rfl⟩ |
    ⟨i, j, d, up, rfl, -, -, -, rfl⟩ | ⟨i, d, j, a, g, rfl, hc, ha, hg, rfl⟩
  · exact ⟨g, hg, rfl⟩
  · simp only [Service.gatewayAction]
    cases hlisted : a.listed with
    | none => simp
    | some tools => exact ⟨_, rfl, rfl⟩
  · rfl
  · simp only [Service.gatewayAction, hc, Option.bind_some, ha]
    exact ⟨g, hg, rfl⟩

/-- **Each backend object of a run runs as a backend object does.** -/
theorem service_backend (cfg : Settings) (server : Str) :
    (service cfg).Simulates upstream (fun st up => st.backend server = up)
      (Service.backendAction server) := by
  intro st b st' up₀ hup₀ hstep
  subst hup₀
  rcases service_cases hstep with ⟨a, g, rfl, -, -, rfl⟩ | ⟨s, a, up, rfl, -, hup, rfl⟩ |
    ⟨i, j, d, up, rfl, -, hd, hup, rfl⟩ | ⟨i, d, j, a, g, rfl, -, -, -, rfl⟩
  · rfl
  · by_cases hs : s = server
    · subst hs
      simp only [Service.backendAction, if_pos]
      exact ⟨up, hup, Function.update_self _ _ _⟩
    · simp only [Service.backendAction, if_neg hs]
      exact Function.update_of_ne (Ne.symm hs) _ _
  · by_cases hs : d.server = server
    · subst hs
      simp only [Service.backendAction, hd, Option.bind_some, if_pos]
      exact ⟨up, hup, Function.update_self _ _ _⟩
    · simp only [Service.backendAction, hd, Option.bind_some, if_neg hs]
      exact Function.update_of_ne (Ne.symm hs) _ _
  · rfl

end Steps

/-! ### Which call is whose -/

/-- **The wiring.** The calls under way at a backend object are those of the tasks that have come
to them, one for each, and a task returns what its call has returned. -/
structure Service.Wired (st : Service) : Prop where
  unsent : ∀ (i : ℕ) (t : Task) server tool, st.gateway.tasks[i]? = some t →
    t.phase = .reloading server tool → t.sent = none
  asked : ∀ server, (st.backend server).Asked
  sent : ∀ i d j, st.calls i = some (d, j) → st.gateway.dispatchOf i = some d ∧
    ((st.backend d.server).callers j).phase ≠ .idle ∧
    ((st.backend d.server).callers j).operation = .call d.tool d.arguments
  called : ∀ server j tool arguments, ((st.backend server).callers j).phase ≠ .idle →
    ((st.backend server).callers j).operation = .call tool arguments →
    ∃ i d, st.calls i = some (d, j) ∧ d.server = server ∧ d.tool = tool ∧ d.arguments = arguments
  unique : ∀ i i' d d' j, st.calls i = some (d, j) → st.calls i' = some (d', j) →
    d.server = d'.server → i = i'
  answered : ∀ (i : ℕ) (t : Task) d result decision, st.gateway.tasks[i]? = some t →
    t.sent = some d → t.phase = .returned result decision → ∃ j, st.calls i = some (d, j) ∧
      ((st.backend d.server).callers j).phase = .returned (some result)

/-- A task that has come to a call stays with it. -/
theorem dispatchOf_of_step {cfg : Settings} {g g' : Gateway} {a : Action} {i : ℕ} {d : Dispatch}
    (hunsent : ∀ (i : ℕ) (t : Task) server tool, g.tasks[i]? = some t →
      t.phase = .reloading server tool → t.sent = none)
    (hstep : (gateway cfg).step g a = some g') (hd : g.dispatchOf i = some d) :
    g'.dispatchOf i = some d := by
  obtain ⟨t, ht, hsent⟩ := Option.bind_eq_some_iff.mp hd
  have hi : i < g.tasks.length := lt_length_of_getElem? ht
  obtain ⟨t', ht', -⟩ := request_of_step hstep ht
  refine Option.bind_eq_some_iff.mpr ⟨t', ht', ?_⟩
  rcases task_of_step hstep ht' with ⟨r, -, hnew, -⟩ | ⟨t₀, ht₀, hcases⟩
  · exact absurd hi (by omega)
  · obtain rfl : t = t₀ := Option.some.inj (ht.symm.trans ht₀)
    rcases hcases with rfl | ⟨ok, server, tool, -, hphase, -⟩ | ⟨result, d', -, -, -, rfl⟩ |
      ⟨-, -, rfl⟩
    · exact hsent
    · simp [hunsent i t server tool ht hphase] at hsent
    · exact hsent
    · exact hsent

section Wiring

variable {cfg : Settings} {st : Service}

/-- A gateway without tasks, and new backend objects. -/
theorem wired_start {g : Gateway} (hg : g.tasks = []) : (Service.start g).Wired where
  unsent i t server tool ht := by simp [Service.start, hg] at ht
  asked server r hr := absurd hr (Nat.not_lt_zero r)
  sent i d j hc := by simp [Service.start] at hc
  called server j tool arguments hphase := by simp [Service.start, Upstream.init] at hphase
  unique i i' d d' j hc := by simp [Service.start] at hc
  answered i t d result decision ht := by simp [Service.start, hg] at ht

/-- The gateway goes on; a task is answered with what its call has returned. -/
theorem wired_gateway (h : st.Wired) {a : Action} {g : Gateway}
    (hstep : (gateway cfg).step st.gateway a = some g)
    (hanswer : ∀ i result, a = .answered i result → ∃ d j, st.calls i = some (d, j) ∧
      ((st.backend d.server).callers j).phase = .returned (some result)) :
    ({ st with gateway := g } : Service).Wired where
  unsent := unsent_step hstep h.unsent
  asked := h.asked
  sent i d j hc := by
    obtain ⟨hd, hrest⟩ := h.sent i d j hc
    exact ⟨dispatchOf_of_step h.unsent hstep hd, hrest⟩
  called := h.called
  unique := h.unique
  answered i t' d result decision ht' hsent hphase := by
    rcases task_of_step hstep ht' with ⟨r, -, -, rfl⟩ | ⟨t, ht, rfl | ⟨ok, server, tool, -, -,
      rfl⟩ | ⟨result', d', ha, -, hsent', rfl⟩ | ⟨-, -, rfl⟩⟩
    · have hnone := sent_eq_none_of_returned hphase
      exact absurd (hnone.symm.trans hsent) (by simp)
    · exact h.answered i t' d result decision ht hsent hphase
    · have hnone := sent_eq_none_of_returned hphase
      exact absurd (hnone.symm.trans hsent) (by simp)
    · obtain ⟨d₀, j, hc, hreturned⟩ := hanswer i result' ha
      have hd₀ := (h.sent i d₀ j hc).1
      have hd : st.gateway.dispatchOf i = some d := Option.bind_eq_some_iff.mpr ⟨t, ht, hsent⟩
      obtain rfl : d₀ = d := Option.some.inj (hd₀.symm.trans hd)
      have hresult : result' = result := by
        simp only [routeAnswered] at hphase
        split at hphase
        · simp [Halt.phase] at hphase
        · exact (Phase.returned.inj hphase).1
      exact ⟨j, hc, hresult ▸ hreturned⟩
    · simp at hphase

/-- A backend object goes on, without a new call. -/
theorem wired_backend (h : st.Wired) {server : Str} {a : UpstreamAction} {up : Upstream}
    (hcall : a.isCall = false) (hstep : upstream.step (st.backend server) a = some up) :
    (st.set server up).Wired := by
  have hbackend : ∀ s, (st.set server up).backend s = if s = server then up else st.backend s :=
    fun s => Function.update_apply _ _ _ _
  refine ⟨h.unsent, fun s => ?_, fun i d j hc => ?_, fun s j tool arguments hphase hop => ?_,
    h.unique, fun i t d result decision ht hsent hphase => ?_⟩
  · rw [hbackend]
    split
    · next hs => exact Upstream.asked_step (h.asked server) hstep
    · exact h.asked s
  · obtain ⟨hd, hentered, hop⟩ := h.sent i d j hc
    refine ⟨hd, ?_⟩
    rw [hbackend]
    split
    · next hs =>
        rw [hs] at hentered hop
        obtain ⟨hop', hentered'⟩ := Upstream.operation_of_step hstep hentered
        exact ⟨hentered', hop'.trans hop⟩
    · exact ⟨hentered, hop⟩
  · rw [hbackend] at hphase hop
    split at hphase
    · next hs =>
        rw [if_pos hs] at hop
        subst hs
        rcases Upstream.runs_of_step hstep with ⟨i, op, rfl, -, rfl⟩ | ⟨i, hcaller, hactive,
          hruns⟩ | ⟨-, hcallers, -⟩
        · by_cases hji : j = i
          · simp only [hji, Function.update_self] at hop
            simp [UpstreamAction.isCall, Operation.isCall, hop] at hcall
          · simp only [Function.update_of_ne hji] at hphase hop
            exact h.called s j tool arguments hphase hop
        · by_cases hji : j = i
          · subst hji
            refine h.called s j tool arguments (fun hidle => ?_) (hruns.operation.symm.trans hop)
            simp [hidle, CallerPhase.isActive] at hactive
          · rw [Upstream.callers_of_step hstep (by rw [hcaller]; simpa using Ne.symm hji)]
              at hphase hop
            exact h.called s j tool arguments hphase hop
        · rw [hcallers] at hphase hop
          exact h.called s j tool arguments hphase hop
    · next hs =>
        rw [if_neg hs] at hop
        exact h.called s j tool arguments hphase hop
  · obtain ⟨j, hc, hreturned⟩ := h.answered i t d result decision ht hsent hphase
    refine ⟨j, hc, ?_⟩
    rw [hbackend]
    split
    · next hs =>
        rw [hs] at hreturned
        exact Upstream.returned_of_step hstep hreturned
    · exact hreturned

/-- A task goes into its call. -/
theorem wired_call (h : st.Wired) {i j : ℕ} {d : Dispatch} {up : Upstream}
    (hnew : st.calls i = none) (hd : st.gateway.dispatchOf i = some d)
    (hstep : upstream.step (st.backend d.server) (.enter j (.call d.tool d.arguments)) = some up) :
    ({ st.set d.server up with calls := Function.update st.calls i (some (d, j)) } :
      Service).Wired := by
  obtain ⟨hidle, hup⟩ := step_enter hstep
  have hself : up.callers j = ⟨.call d.tool d.arguments, .acquiring (.connect false), []⟩ := by
    rw [hup]
    exact Function.update_self _ _ _
  have hothers : ∀ k, k ≠ j → up.callers k = (st.backend d.server).callers k := by
    intro k hk
    rw [hup]
    exact Function.update_of_ne hk _ _
  obtain ⟨st', hst'⟩ : ∃ st' : Service, st' =
      { st.set d.server up with calls := Function.update st.calls i (some (d, j)) } := ⟨_, rfl⟩
  rw [← hst']
  have hgateway : st'.gateway = st.gateway := by rw [hst']; rfl
  have hcalls : ∀ i', st'.calls i' = if i' = i then some (d, j) else st.calls i' := fun i' => by
    rw [hst']
    exact Function.update_apply _ _ _ _
  have hbackend : ∀ s, st'.backend s = if s = d.server then up else st.backend s := fun s => by
    rw [hst']
    exact Function.update_apply _ _ _ _
  -- a call of another task is another caller
  have hother : ∀ i' d' k, st.calls i' = some (d', k) → d'.server = d.server → k ≠ j := by
    rintro i' d' k hc hs rfl
    exact (hs ▸ (h.sent i' d' k hc).2.1) hidle
  have hkept : ∀ i' d' k, st.calls i' = some (d', k) →
      st'.calls i' = some (d', k) ∧
        (st'.backend d'.server).callers k = (st.backend d'.server).callers k := by
    intro i' d' k hc
    refine ⟨?_, ?_⟩
    · rw [hcalls, if_neg (fun heq => by simp [heq, hnew] at hc), hc]
    · rw [hbackend]
      split
      · next hs => rw [hs, hothers k (hother i' d' k hc hs)]
      · rfl
  have hcases : ∀ i' d' k, st'.calls i' = some (d', k) →
      i' = i ∧ d' = d ∧ k = j ∨ st.calls i' = some (d', k) := by
    intro i' d' k hc
    rw [hcalls] at hc
    split at hc
    · next heq =>
        obtain ⟨rfl, rfl⟩ := Prod.mk.inj (Option.some.inj hc)
        exact Or.inl ⟨heq, rfl, rfl⟩
    · exact Or.inr hc
  refine ⟨by rw [hgateway]; exact h.unsent, fun s => ?_, fun i' d' k hc => ?_,
    fun s k tool arguments hphase hop => ?_, fun i₁ i₂ d₁ d₂ k h₁ h₂ hs => ?_,
    fun i' t d' result decision ht hsent hphase => ?_⟩
  · rw [hbackend]
    split
    · exact Upstream.asked_step (h.asked d.server) hstep
    · exact h.asked s
  · rcases hcases i' d' k hc with ⟨rfl, rfl, rfl⟩ | hold
    · rw [hgateway, hbackend, if_pos rfl, hself]
      exact ⟨hd, by simp, rfl⟩
    · rw [hgateway, (hkept i' d' k hold).2]
      exact h.sent i' d' k hold
  · by_cases hthis : s = d.server ∧ k = j
    · obtain ⟨rfl, rfl⟩ := hthis
      rw [hbackend, if_pos rfl, hself] at hop
      obtain ⟨htool, harguments⟩ := Operation.call.inj hop
      exact ⟨i, d, by rw [hcalls, if_pos rfl], rfl, htool, harguments⟩
    · have hsame : (st'.backend s).callers k = (st.backend s).callers k := by
        rw [hbackend]
        split
        · next hs => rw [hs, hothers k fun hk => hthis ⟨hs, hk⟩]
        · rfl
      rw [hsame] at hphase hop
      obtain ⟨i', d', hc, hrest⟩ := h.called s k tool arguments hphase hop
      exact ⟨i', d', (hkept i' d' k hc).1, hrest⟩
  · rcases hcases i₁ d₁ k h₁ with ⟨rfl, rfl, rfl⟩ | hold₁
    · rcases hcases i₂ d₂ k h₂ with ⟨rfl, -, -⟩ | hold₂
      · rfl
      · exact absurd rfl (hother i₂ d₂ k hold₂ hs.symm)
    · rcases hcases i₂ d₂ k h₂ with ⟨rfl, rfl, rfl⟩ | hold₂
      · exact absurd rfl (hother i₁ d₁ k hold₁ hs)
      · exact h.unique i₁ i₂ d₁ d₂ k hold₁ hold₂ hs
  · rw [hgateway] at ht
    obtain ⟨k, hc, hreturned⟩ := h.answered i' t d' result decision ht hsent hphase
    obtain ⟨hc', hcaller⟩ := hkept i' d' k hc
    exact ⟨k, hc', by rw [hcaller, hreturned]⟩

/-- **Every step keeps the wiring.** -/
theorem wired_step {st' : Service} {b : ServiceAction} (h : st.Wired)
    (hstep : (service cfg).step st b = some st') : st'.Wired := by
  rcases service_cases hstep with ⟨a, g, rfl, hown, hg, rfl⟩ | ⟨server, a, up, rfl, hcall, hup,
    rfl⟩ | ⟨i, j, d, up, rfl, hnew, hd, hup, rfl⟩ | ⟨i, d, j, a, g, rfl, hc, ha, hg, rfl⟩
  · refine wired_gateway h hg ?_
    rintro i result rfl
    simp [Gateway.isOwn] at hown
  · have hset := wired_backend h hcall hup
    cases hlisted : a.listed with
    | none => exact hset
    | some tools =>
        have hload : (gateway cfg).step (st.set server up).gateway (.load server tools) =
            some ⟨st.gateway.shared.load server tools, st.gateway.tasks⟩ := rfl
        exact wired_gateway hset hload (by simp)
  · exact wired_call h hnew hd hup
  · refine wired_gateway h hg ?_
    rintro i' result rfl
    cases hphase : ((st.backend d.server).callers j).phase with
    | returned p =>
        rw [hphase] at ha
        obtain ⟨result', rfl, heq⟩ := Option.map_eq_some_iff.mp ha
        obtain ⟨rfl, rfl⟩ := Action.answered.inj heq
        exact ⟨d, j, hc, hphase⟩
    | _ => simp [hphase, CallerPhase.ends] at ha

/-- The wiring of every run. -/
theorem wired_of_run {g : Gateway} {as : List ServiceAction} (hg : g.tasks = [])
    (hrun : (service cfg).exec (.start g) as = some st) : st.Wired :=
  System.invariant' (I := Service.Wired) (fun _ _ _ h hstep => wired_step h hstep)
    (wired_start hg) hrun

/-- What a task has sent in a run is its request, and the policy permits it. -/
theorem permitted_of_service (hdoc : cfg.policy.Documented) {g : Gateway}
    {as : List ServiceAction} (hg : g.tasks = [])
    (hrun : (service cfg).exec (.start g) as = some st) {i : ℕ} {d : Dispatch}
    (hd : st.gateway.dispatchOf i = some d) : ∃ t, st.gateway.tasks[i]? = some t ∧
      split t.request.name = some (d.server, d.tool) ∧ d.arguments = t.request.arguments ∧
        isPermitted cfg t.request d.server d.tool = true := by
  have hall : (service cfg).Each (fun _ _ => True) (.start g) as :=
    System.each_of_mem fun _ _ _ => trivial
  obtain ⟨bs, g', hgateway, rfl, -⟩ := (service_gateway cfg).run (D := fun _ _ => True)
    (fun _ _ _ _ _ _ _ => trivial) rfl hall hrun
  obtain ⟨t, ht, hsent⟩ := Option.bind_eq_some_iff.mp hd
  exact ⟨t, ht, permitted_of_sent hdoc hg hgateway ht hsent⟩

/-- Where nobody is cancelled at a backend object, its callers keep their contract. -/
theorem kept_of_service {g : Gateway} {as : List ServiceAction} {server : Str}
    (hcancel : ∀ j, .backend server (.cancel j) ∉ as)
    (hrun : (service cfg).exec (.start g) as = some st) (j : ℕ) :
    (st.backend server).Kept server j := by
  have hall : (service cfg).Each (fun _ b => ∀ j, b ≠ .backend server (.cancel j)) (.start g) as :=
    System.each_of_mem fun b hb _ j heq => hcancel j (heq ▸ hb)
  have hnone : ∀ (s : Service) (b : ServiceAction) (up : Upstream) (a : UpstreamAction),
      s.backend server = up → (∀ j, b ≠ .backend server (.cancel j)) →
      s.backendAction server b = some a → ∀ j, a ≠ .cancel j := by
    rintro s b up a - hb ha j rfl
    cases b with
    | gateway _ | ended _ => simp [Service.backendAction] at ha
    | backend s' a =>
        simp only [Service.backendAction, Option.ite_none_right_eq_some] at ha
        obtain ⟨rfl, heq⟩ := ha
        exact hb j (by rw [Option.some.inj heq])
    | call i k =>
        obtain ⟨d, -, hif⟩ := Option.bind_eq_some_iff.mp ha
        simp at hif
  obtain ⟨bs, up, hbackend, rfl, heach⟩ := (service_backend cfg server).run
    (D := fun _ a => ∀ j, a ≠ .cancel j) hnone rfl hall hrun
  exact Upstream.kept_of_run heach hbackend j

end Wiring

/-- **Nothing reaches a backend that the policy does not permit, and what comes back is what the
backend has replied.** In every run of the gateway with its backend objects, whatever is lost or
cancelled, each `call_tool` request on a connection belongs to the one task whose client has
asked for that tool with these arguments, and the policy permits it to its agent. (What
`initialize`, `list_tools` and the pings send is no request here.) And where nobody is cancelled
at the backend objects, a task that had come to a call returns a reply to one of the at most two
requests of this call, or `BACKEND_UNAVAILABLE` where all of them have failed. -/
theorem wire_mediated {cfg : Settings} (hdoc : cfg.policy.Documented) {g : Gateway}
    (hg : g.tasks = []) {as : List ServiceAction} {st : Service}
    (hrun : (service cfg).exec (.start g) as = some st) :
    (∀ server r, r < (st.backend server).requestCount → ∃ i t d,
      st.gateway.tasks[i]? = some t ∧
      st.calls i = some (d, ((st.backend server).requests r).caller) ∧ d.server = server ∧
      split t.request.name = some (server, ((st.backend server).requests r).tool) ∧
      ((st.backend server).requests r).arguments = t.request.arguments ∧
      isPermitted cfg t.request server ((st.backend server).requests r).tool = true) ∧
    (∀ i i' d d' j, st.calls i = some (d, j) → st.calls i' = some (d', j) →
      d.server = d'.server → i = i') ∧
    ((∀ server j, .backend server (.cancel j) ∉ as) →
      ∀ (i : ℕ) (t : Task) d result decision, st.gateway.tasks[i]? = some t →
        t.sent = some d → t.phase = .returned result decision →
        ∃ j, st.calls i = some (d, j) ∧ (st.backend d.server).Dispatches j d.tool d.arguments ∧
          ((∃ r ∈ (st.backend d.server).asked j,
              ((st.backend d.server).requests r).reply = .replied result) ∨
            result = backendUnavailable d.server ∧
              (st.backend d.server).Fails ((st.backend d.server).asked j))) := by
  have hwired := wired_of_run hg hrun
  refine ⟨fun server r hr => ?_, hwired.unique, fun hcancel i t d result decision ht hsent hphase =>
    ?_⟩
  · obtain ⟨hentered, hop⟩ := hwired.asked server r hr
    obtain ⟨i, d, hc, rfl, htool, harguments⟩ := hwired.called server _ _ _ hentered hop
    obtain ⟨t, ht, htarget, hargs, hpermitted⟩ :=
      permitted_of_service hdoc hg hrun (hwired.sent i d _ hc).1
    rw [← htool, ← harguments]
    exact ⟨i, t, d, ht, hc, rfl, htarget, hargs, hpermitted⟩
  · obtain ⟨j, hc, hreturned⟩ := hwired.answered i t d result decision ht hsent hphase
    obtain ⟨-, -, hop⟩ := hwired.sent i d j hc
    have hkept := kept_of_service (hcancel d.server) hrun j
    obtain ⟨result', heq, hresult⟩ := (hkept.returns hop).2.2 _ hreturned
    obtain rfl := Option.some.inj heq
    exact ⟨j, hc, hkept.dispatches hop, hresult⟩

/-- A request that is relayed to its backend and answered. -/
def relayedRun : List ServiceAction :=
  [.gateway (.arrive sampleRequest), .call 0 0, .backend (lit "ticket") (.acquire 0),
    .backend (lit "ticket") (.start 0), .backend (lit "ticket") (.opened 0 []),
    .backend (lit "ticket") (.connected 0), .backend (lit "ticket") (.send 0),
    .backend (lit "ticket") (.reply 0 sampleResult), .backend (lit "ticket") (.raced 0), .ended 0]

/-- The task has returned. -/
def Phase.isReturned : Phase → Bool
  | .returned _ _ => true
  | .reloading _ _ | .calling | .raised _ | .aborted => false

/-- What was on the wire was permitted to somebody who has asked for it, and the task returns the
reply to it. -/
theorem wire_mediated_sample : ∃ (st : Service) (i : ℕ) (t t₀ : Task) (d : Dispatch) (j : ℕ)
    (result : CallToolResult) (decision : AuditDecision),
    (service sampleSettings).exec (.start (sampleStart none true)) relayedRun = some st ∧
      (st.backend (lit "ticket")).requestCount = 1 ∧ st.gateway.tasks[i]? = some t ∧
      isPermitted sampleSettings t.request (lit "ticket")
        ((st.backend (lit "ticket")).requests 0).tool = true ∧
      st.gateway.tasks[0]? = some t₀ ∧ t₀.phase = .returned result decision ∧
      st.calls 0 = some (d, j) ∧ ∃ r ∈ (st.backend d.server).asked j,
        ((st.backend d.server).requests r).reply = .replied result := by
  have hrun : ((service sampleSettings).exec (.start (sampleStart none true)) relayedRun).any
      (fun st => (st.backend (lit "ticket")).requestCount = 1 &&
        ((st.gateway.tasks[0]?).any fun t => t.sent.isSome && t.phase.isReturned) &&
          (st.calls 0).any fun p => ((st.backend p.1.server).asked p.2).any fun r =>
            ((st.backend p.1.server).requests r).reply.isReplied) = true := by
    decide +kernel
  obtain ⟨st, hst, hchecks⟩ := (Option.any_eq_true _ _).mp hrun
  simp only [Bool.and_eq_true, decide_eq_true_eq] at hchecks
  obtain ⟨⟨hcount, htask⟩, hcall⟩ := hchecks
  obtain ⟨t₀, ht₀, hends⟩ := (Option.any_eq_true _ _).mp htask
  obtain ⟨⟨d', j'⟩, hc', hreplied⟩ := (Option.any_eq_true _ _).mp hcall
  obtain ⟨r, hr, hr'⟩ := List.any_eq_true.mp hreplied
  rw [Bool.and_eq_true] at hends
  obtain ⟨d, hd⟩ := Option.isSome_iff_exists.mp hends.1
  obtain ⟨hasked, -, hanswered⟩ := wire_mediated samplePolicy_documented rfl hst
  obtain ⟨i, t, -, ht, -, -, -, -, hpermitted⟩ := hasked (lit "ticket") 0 (by omega)
  cases hphase : t₀.phase with
  | returned result decision =>
      obtain ⟨j, hc, -, hreply | ⟨-, hfails⟩⟩ :=
        hanswered (by simp [relayedRun]) 0 t₀ d result decision ht₀ hd hphase
      · exact ⟨st, i, t, t₀, d, j, result, decision, hst, hcount, ht, hpermitted, ht₀, hphase, hc,
          hreply⟩
      · -- the one request has a reply
        obtain ⟨rfl, rfl⟩ := Prod.mk.inj (Option.some.inj (hc'.symm.trans hc))
        have hfailed := hfails r hr
        cases hreply : ((st.backend d'.server).requests r).reply <;>
          simp [hreply, Reply.isReplied, Reply.isFailed] at hr' hfailed
  | reloading _ _ | calling | raised _ | aborted => simp [hphase, Phase.isReturned] at hends

end AgentOpsGateway
