import AgentOpsGateway.Routes

/-!
# Complete Mediation

`route_call` asks its gates in a fixed order: the rate limiter, the resolution of the tool
(its name has a server prefix, the server is registered, its tools are listed, the tool is
among them), the policy, the circuit breaker. The order and the error of each gate are
stated here once, apart from the code (`Gate.order`, `Gate.code`, `Gate.decision`), and a
gate's verdict on a task is read off the shared states in which the task's segments ran.

## Main results

* `mediation`: **a call is sent only when every gate passed it**, with the server and tool
  its name splits into and the arguments the policy saw; and a request that a gate fails
  sends nothing and is answered with the code and decision of the first failing gate.
-/

namespace AgentOpsGateway

open Python Transition

/-- The gates of `route_call`. -/
inductive Gate
  | rateLimit
  | namespaced
  | registered
  | listed
  | known
  | permitted
  | circuit
  deriving DecidableEq

namespace Gate

/-- The order in which the gates are asked. -/
def order : List Gate :=
  [.rateLimit, .namespaced, .registered, .listed, .known, .permitted, .circuit]

/-- The error code of a request that the gate fails. -/
def code : Gate → ErrorCode
  | .rateLimit => .rateLimited
  | .namespaced | .registered | .known => .unknownTool
  | .listed | .circuit => .backendUnavailable
  | .permitted => .policyDenied

/-- The audit decision of a request that the gate fails. -/
def decision : Gate → AuditDecision
  | .rateLimit => .rateLimited
  | .permitted => .denied
  | .namespaced | .registered | .listed | .known | .circuit => .error

end Gate

/-! ### The gates on their own -/

/-- The tool is among those the backend listed. -/
def isKnown (g : Shared) (server tool : Str) : Bool :=
  tool ∈ ((g.toolsOf server).getD []).map Tool.name

/-- The policy allows the call. -/
def isPermitted (cfg : Settings) (r : Request) (server tool : Str) : Bool :=
  match cfg.policy.evaluate cfg.py r.agent server tool r.arguments with
  | .ok d => d.allowed
  | .error _ => false

namespace Task

/-- The server the name of the request splits into. -/
def server (t : Task) : Str := ((split t.request.name).getD ([], [])).1

/-- The tool the name of the request splits into. -/
def tool (t : Task) : Str := ((split t.request.name).getD ([], [])).2

/-- The shared state in which the gates behind the listing of tools were asked. -/
def late (t : Task) : Shared :=
  match t.reload with
  | some (_, g) => g
  | none => t.arrival

end Task

/-- What a gate says of a task: `none` while `ensure_session` has not ended. -/
def Gate.verdict (cfg : Settings) (t : Task) : Gate → Option Bool
  | .rateLimit => some (t.arrival.takeToken t.request.agent).1
  | .namespaced => some (split t.request.name).isSome
  | .registered => some (dictGet t.server t.arrival.backends).isSome
  | .listed => if (t.arrival.toolsOf t.server).isSome then some true else t.reload.map Prod.fst
  | .known => some (isKnown t.late t.server t.tool)
  | .permitted => some (isPermitted cfg t.request t.server t.tool)
  | .circuit => some (t.late.allowCircuit t.server).1

/-- The first gate that has not passed the task. -/
def Task.firstUnpassed (cfg : Settings) (t : Task) : Option Gate :=
  Gate.order.find? fun gate => gate.verdict cfg t ≠ some true

/-- No gate is left exactly when all have passed the task. -/
theorem Task.firstUnpassed_eq_none {cfg : Settings} {t : Task} :
    t.firstUnpassed cfg = none ↔ ∀ gate : Gate, gate.verdict cfg t = some true := by
  simp only [firstUnpassed, List.find?_eq_none, decide_eq_true_eq, not_not]
  exact ⟨fun h gate => h gate (by cases gate <;> decide), fun h gate _ => h gate⟩

/-! ### The last segment before the call -/

/-- The stop is the refusal of a gate. -/
def Halt.RefusedBy (h : Halt) (gate : Gate) : Prop :=
  ∃ fields, h = .ret (errorResult gate.code fields) gate.decision

/-- **The gates of `routeResolved`**, in order: the first that fails refuses, and past all
of them the call is sent. -/
theorem routeResolved_cases {cfg : Settings} (hdoc : cfg.policy.Documented) (g : Shared)
    (r : Request) (server tool : Str) :
    isKnown g server tool = false ∧ (routeResolved cfg g r server tool).2.RefusedBy .known ∨
    isKnown g server tool = true ∧ isPermitted cfg r server tool = false ∧
      (routeResolved cfg g r server tool).2.RefusedBy .permitted ∨
    isKnown g server tool = true ∧ isPermitted cfg r server tool = true ∧
      (g.allowCircuit server).1 = false ∧
      (routeResolved cfg g r server tool).2.RefusedBy .circuit ∨
    isKnown g server tool = true ∧ isPermitted cfg r server tool = true ∧
      (g.allowCircuit server).1 = true ∧
      (routeResolved cfg g r server tool).2 =
        .call ⟨server, tool, r.arguments, (g.admission server).1, (g.admission server).2⟩ := by
  obtain ⟨d, hd, -⟩ :=
    Policy.evaluate_documented cfg.py hdoc r.agent server tool r.arguments
  have hperm : isPermitted cfg r server tool = d.allowed := by simp only [isPermitted, hd]
  by_cases hknown : tool ∈ ((g.toolsOf server).getD []).map Tool.name
  · have hisKnown : isKnown g server tool = true := by simpa only [isKnown, decide_eq_true_eq]
    cases hallowed : d.allowed with
    | false =>
        refine Or.inr (Or.inl ⟨hisKnown, hperm.trans hallowed, deniedFields r.agent d, ?_⟩)
        simp [routeResolved, hknown, hd, hallowed, Gate.code, Gate.decision]
    | true =>
        cases hcircuit : (g.allowCircuit server).1 with
        | false =>
            refine Or.inr (Or.inr (Or.inl ⟨hisKnown, hperm.trans hallowed, rfl,
              [(lit "server", server)], ?_⟩))
            simp [routeResolved, hknown, hd, hallowed, hcircuit, Gate.code, Gate.decision,
              backendUnavailable]
        | true =>
            refine Or.inr (Or.inr (Or.inr ⟨hisKnown, hperm.trans hallowed, rfl, ?_⟩))
            simp [routeResolved, hknown, hd, hallowed, hcircuit]
  · refine Or.inl ⟨by simpa only [isKnown, decide_eq_false_iff_not],
      [(lit "tool", r.name)], ?_⟩
    simp [routeResolved, hknown, unknownTool, Gate.code, Gate.decision]

/-- Taking a token leaves the backends and the breaker alone. -/
theorem takeToken_snd (g : Shared) (agent : Str) :
    (g.takeToken agent).2.backends = g.backends ∧ (g.takeToken agent).2.breaker = g.breaker := by
  simp only [Shared.takeToken]
  cases g.limiter <;> exact ⟨rfl, rfl⟩

/-- A call of a listed backend goes straight to the resolution of its tool. -/
theorem routeArrive_listed {cfg : Settings} {g : Shared} {r : Request} {server tool : Str}
    {tools : List Tool} (htoken : (g.takeToken r.agent).1 = true)
    (htarget : split r.name = some (server, tool)) (hlisted : g.toolsOf server = some tools) :
    routeArrive cfg g r = routeResolved cfg (g.takeToken r.agent).2 r server tool := by
  obtain ⟨backend, hbackend, htools⟩ := Option.bind_eq_some_iff.mp hlisted
  have hregistered : dictGet server (g.takeToken r.agent).2.backends = some backend := by
    rw [(takeToken_snd g r.agent).1, hbackend]
  simp [routeArrive, htoken, htarget, hregistered, htools]

/-! ### What holds of every task -/

/-- What the gates allow a task to have done. -/
def Mediated (cfg : Settings) (t : Task) : Prop :=
  match t.firstUnpassed cfg with
  | none => ∃ d, t.sent = some d ∧ split t.request.name = some (d.server, d.tool) ∧
      d.arguments = t.request.arguments
  | some gate => t.sent = none ∧ (gate.verdict cfg t = some false →
      ∃ fields, t.phase = .returned (errorResult gate.code fields) gate.decision)

/-- A task that waits for `ensure_session` has passed the gates before it. -/
structure Waiting (t : Task) (server tool : Str) : Prop where
  granted : (t.arrival.takeToken t.request.agent).1 = true
  target : split t.request.name = some (server, tool)
  registered : (dictGet server t.arrival.backends).isSome = true
  unlisted : t.arrival.toolsOf server = none
  fresh : t.reload = none
  unsent : t.sent = none

/-- The invariant of a task. -/
structure TaskInv (cfg : Settings) (t : Task) : Prop where
  mediated : Mediated cfg t
  waiting : ∀ server tool, t.phase = .reloading server tool → Waiting t server tool

section Segments

variable {cfg : Settings} {t : Task} {server tool : Str}

/-- A task refused by a gate that is the first to fail it is mediated. -/
theorem mediated_of_refused (gate : Gate) {h : Halt}
    (hfirst : t.firstUnpassed cfg = some gate) (hsent : t.sent = h.sent)
    (hphase : t.phase = h.phase) (hrefused : h.RefusedBy gate) : TaskInv cfg t := by
  obtain ⟨fields, rfl⟩ := hrefused
  constructor
  · simp only [Mediated, hfirst]
    exact ⟨hsent, fun _ => ⟨fields, hphase⟩⟩
  · intro server tool hwait
    simp [hphase, Halt.phase] at hwait

/-- A task that has run `routeResolved` is mediated, where the gates before it passed and
the state it ran in agrees with the one recorded. -/
theorem taskInv_of_resolved (hdoc : cfg.policy.Documented) {g : Shared}
    (hrate : Gate.verdict cfg t .rateLimit = some true)
    (htarget : split t.request.name = some (server, tool))
    (hregistered : Gate.verdict cfg t .registered = some true)
    (hlisted : Gate.verdict cfg t .listed = some true)
    (hbackends : g.backends = t.late.backends) (hbreaker : g.breaker = t.late.breaker)
    (hsent : t.sent = (routeResolved cfg g t.request server tool).2.sent)
    (hphase : t.phase = (routeResolved cfg g t.request server tool).2.phase) :
    TaskInv cfg t := by
  have hserver : t.server = server := by simp [Task.server, htarget]
  have htool : t.tool = tool := by simp [Task.tool, htarget]
  have hnamespaced : Gate.verdict cfg t .namespaced = some true := by
    simp [Gate.verdict, htarget]
  have hknown : Gate.verdict cfg t .known = some (isKnown g server tool) := by
    simp [Gate.verdict, isKnown, Shared.toolsOf, hbackends, hserver, htool]
  have hpermitted : Gate.verdict cfg t .permitted =
      some (isPermitted cfg t.request server tool) := by
    simp [Gate.verdict, hserver, htool]
  have hcircuit : Gate.verdict cfg t .circuit = some (g.allowCircuit server).1 := by
    simp only [Gate.verdict, Shared.allowCircuit, hbreaker, hserver]
    cases t.late.breaker <;> rfl
  have hfirst : t.firstUnpassed cfg =
      [Gate.known, .permitted, .circuit].find? fun gate => gate.verdict cfg t ≠ some true := by
    simp [Task.firstUnpassed, Gate.order, hrate, hnamespaced, hregistered, hlisted]
  rcases routeResolved_cases hdoc g t.request server tool with ⟨h₁, hhalt⟩ | ⟨h₁, h₂, hhalt⟩ |
    ⟨h₁, h₂, h₃, hhalt⟩ | ⟨h₁, h₂, h₃, hhalt⟩
  · exact mediated_of_refused _ (by simp [hfirst, hknown, h₁]) hsent hphase hhalt
  · exact mediated_of_refused _ (by simp [hfirst, hknown, hpermitted, h₁, h₂]) hsent hphase hhalt
  · exact mediated_of_refused _ (by simp [hfirst, hknown, hpermitted, hcircuit, h₁, h₂, h₃])
      hsent hphase hhalt
  · constructor
    · have hnone : t.firstUnpassed cfg = none := by
        simp [hfirst, hknown, hpermitted, hcircuit, h₁, h₂, h₃]
      simp only [Mediated, hnone]
      exact ⟨_, by rw [hsent, hhalt]; rfl, htarget, rfl⟩
    · intro server tool hwait
      simp [hphase, hhalt, Halt.phase] at hwait

/-- A request that has run its first segment is mediated. -/
theorem taskInv_arrive (hdoc : cfg.policy.Documented) (g : Shared) (r : Request) :
    TaskInv cfg ⟨r, g, none, (routeArrive cfg g r).2.sent, (routeArrive cfg g r).2.phase⟩ := by
  set t : Task := ⟨r, g, none, (routeArrive cfg g r).2.sent, (routeArrive cfg g r).2.phase⟩
    with ht
  cases hrate : (g.takeToken r.agent).1 with
  | false =>
      refine mediated_of_refused .rateLimit ?_ rfl rfl ?_
      · simp [Task.firstUnpassed, Gate.order, Gate.verdict, ht, hrate]
      · exact ⟨[(lit "agent", r.agent)], by
          simp [routeArrive, hrate, Gate.code, Gate.decision]⟩
  | true =>
      cases htarget : split r.name with
      | none =>
          refine mediated_of_refused .namespaced ?_ rfl rfl ?_
          · simp [Task.firstUnpassed, Gate.order, Gate.verdict, ht, hrate, htarget]
          · exact ⟨[(lit "tool", r.name)], by
              simp [routeArrive, hrate, htarget, unknownTool, Gate.code, Gate.decision]⟩
      | some target =>
          obtain ⟨server, tool⟩ := target
          have hserver : t.server = server := by simp [Task.server, ht, htarget]
          obtain ⟨hbackends, hbreaker⟩ := takeToken_snd g r.agent
          cases hbackend : dictGet server g.backends with
          | none =>
              refine mediated_of_refused .registered ?_ rfl rfl ?_
              · simp [Task.firstUnpassed, Gate.order, Gate.verdict, hserver]
                simp [ht, hrate, htarget, hbackend]
              · exact ⟨[(lit "tool", r.name)], by
                  simp [routeArrive, hrate, htarget, hbackends, hbackend, unknownTool, Gate.code,
                    Gate.decision]⟩
          | some backend =>
              cases htools : backend.tools with
              | none =>
                  have hhalt : (routeArrive cfg g r).2 = .reload server tool := by
                    simp [routeArrive, hrate, htarget, hbackends, hbackend, htools]
                  have hfirst : t.firstUnpassed cfg = some .listed := by
                    simp [Task.firstUnpassed, Gate.order, Gate.verdict, hserver]
                    simp [ht, hrate, htarget, hbackend, Shared.toolsOf, htools]
                  constructor
                  · simp only [Mediated, hfirst]
                    refine ⟨by simp [ht, hhalt, Halt.sent], fun hfailed => ?_⟩
                    simp [Gate.verdict, hserver] at hfailed
                    simp [ht, Shared.toolsOf, hbackend, htools] at hfailed
                  · intro server' tool' hwait
                    simp only [ht, hhalt, Halt.phase, Phase.reloading.injEq] at hwait
                    obtain ⟨rfl, rfl⟩ := hwait
                    exact ⟨hrate, htarget, by simp [ht, hbackend],
                      by simp [ht, Shared.toolsOf, hbackend, htools], rfl,
                      by simp [ht, hhalt, Halt.sent]⟩
              | some tools =>
                  have harrive : (routeArrive cfg g r).2 =
                      (routeResolved cfg (g.takeToken r.agent).2 r server tool).2 := by
                    simp [routeArrive, hrate, htarget, hbackends, hbackend, htools]
                  refine taskInv_of_resolved hdoc (g := (g.takeToken r.agent).2) ?_ htarget ?_ ?_
                    hbackends hbreaker (by simp [ht, harrive]) (by simp [ht, harrive])
                  · simp [Gate.verdict, ht, hrate]
                  · simp only [Gate.verdict, hserver]
                    simp [ht, hbackend]
                  · simp only [Gate.verdict, hserver]
                    simp [ht, Shared.toolsOf, hbackend, htools]

/-- A task whose `ensure_session` ended is mediated. -/
theorem taskInv_reloaded (hdoc : cfg.policy.Documented) (hwait : Waiting t server tool)
    (g : Shared) (ok : Bool) :
    TaskInv cfg ⟨t.request, t.arrival, some (ok, g),
      (routeReloaded cfg g t.request server tool ok).2.sent,
      (routeReloaded cfg g t.request server tool ok).2.phase⟩ := by
  set t' : Task := ⟨t.request, t.arrival, some (ok, g),
    (routeReloaded cfg g t.request server tool ok).2.sent,
    (routeReloaded cfg g t.request server tool ok).2.phase⟩ with ht'
  have hserver : t'.server = server := by simp [Task.server, ht', hwait.target]
  cases ok with
  | false =>
      refine mediated_of_refused .listed (h := (routeReloaded cfg g t.request server tool false).2)
        ?_ rfl rfl ?_
      · simp [Task.firstUnpassed, Gate.order, Gate.verdict, hserver]
        simp [ht', hwait.granted, hwait.target, hwait.registered, hwait.unlisted]
      · exact ⟨[(lit "server", server)], by
          simp [routeReloaded, backendUnavailable, Gate.code, Gate.decision]⟩
  | true =>
      refine taskInv_of_resolved hdoc (g := g) ?_ hwait.target ?_ ?_ rfl rfl rfl rfl
      · simp [Gate.verdict, ht', hwait.granted]
      · simp only [Gate.verdict, hserver]
        simp [ht', hwait.registered]
      · simp only [Gate.verdict, hserver]
        simp [ht', hwait.unlisted]

/-- A task that has not returned may move on: its phase matters only for the answer of a
refusal. -/
theorem TaskInv.move (h : TaskInv cfg t)
    (hopen : ∀ result decision, t.phase ≠ .returned result decision) {phase : Phase}
    (hphase : ∀ server tool, phase ≠ .reloading server tool) :
    TaskInv cfg { t with phase } := by
  refine ⟨?_, fun server tool hwait => absurd hwait (hphase server tool)⟩
  have hmed := h.mediated
  simp only [Mediated] at hmed ⊢
  cases hfirst : t.firstUnpassed cfg with
  | none =>
      rw [hfirst] at hmed
      rw [show Task.firstUnpassed cfg { t with phase } = none from hfirst]
      exact hmed
  | some gate =>
      rw [hfirst] at hmed
      rw [show Task.firstUnpassed cfg { t with phase } = some gate from hfirst]
      refine ⟨hmed.1, fun hfailed => ?_⟩
      obtain ⟨fields, hreturned⟩ := hmed.2 hfailed
      exact absurd hreturned (hopen _ _)

/-- The last segment does not stop at an await. -/
theorem routeAnswered_phase (g : Shared) (server : Str) (result : CallToolResult)
    (server' tool : Str) :
    (routeAnswered cfg g server result).2.phase ≠ .reloading server' tool := by
  simp only [routeAnswered]
  split <;> simp [Halt.phase]

end Segments

/-! ### Every run -/

section Runs

variable {cfg : Settings} {st₀ st st' : Gateway} {as : List Action} {i : ℕ} {t : Task}

/-- **One step** keeps the invariant of every task. -/
theorem taskInv_step (hdoc : cfg.policy.Documented) {a : Action}
    (hinv : ∀ (i : ℕ) (t : Task), st.tasks[i]? = some t → TaskInv cfg t)
    (hstep : (gateway cfg).step st a = some st') :
    ∀ (i : ℕ) (t : Task), st'.tasks[i]? = some t → TaskInv cfg t := by
  intro i t' ht'
  rcases task_of_step hstep ht' with ⟨r, -, -, rfl⟩ | ⟨t, ht, rfl | ⟨ok, server, tool, -, hphase,
    rfl⟩ | ⟨result, d, -, hphase, -, rfl⟩ | ⟨-, hphase, rfl⟩⟩
  · exact taskInv_arrive hdoc st.shared r
  · exact hinv i t' ht
  · exact taskInv_reloaded hdoc ((hinv i t ht).waiting server tool hphase) st.shared ok
  · exact (hinv i t ht).move (by simp [hphase]) (routeAnswered_phase st.shared d.server result)
  · refine (hinv i t ht).move ?_ (by simp)
    rcases hphase with ⟨server, tool, hphase⟩ | hphase <;> simp [hphase]

/-- What the gates allow a task of a run to have done. -/
theorem mediated_of_run (hdoc : cfg.policy.Documented) (hinit : st₀.tasks = [])
    (hrun : (gateway cfg).exec st₀ as = some st) (ht : st.tasks[i]? = some t) : Mediated cfg t := by
  have hinv := System.invariant'
    (I := fun st => ∀ (i : ℕ) (t : Task), st.tasks[i]? = some t → TaskInv cfg t)
    (fun _ _ _ hI hstep => taskInv_step hdoc hI hstep) (by simp [hinit]) hrun
  exact (hinv i t ht).mediated

/-- What a task of a run has sent is its request, and the policy permits it. -/
theorem permitted_of_sent (hdoc : cfg.policy.Documented) (hinit : st₀.tasks = [])
    (hrun : (gateway cfg).exec st₀ as = some st) (ht : st.tasks[i]? = some t) {d : Dispatch}
    (hd : t.sent = some d) :
    split t.request.name = some (d.server, d.tool) ∧ d.arguments = t.request.arguments ∧
      isPermitted cfg t.request d.server d.tool = true := by
  have hmed := mediated_of_run hdoc hinit hrun ht
  simp only [Mediated] at hmed
  cases hfirst : t.firstUnpassed cfg with
  | none =>
      rw [hfirst] at hmed
      obtain ⟨d', hd', htarget, hargs⟩ := hmed
      obtain rfl : d' = d := Option.some.inj (hd'.symm.trans hd)
      have hpermitted := Task.firstUnpassed_eq_none.mp hfirst .permitted
      rw [Gate.verdict, Option.some.injEq, Task.server, Task.tool, htarget] at hpermitted
      exact ⟨htarget, hargs, hpermitted⟩
  | some gate =>
      rw [hfirst] at hmed
      simp [hd] at hmed

/-- The shared states a task remembers are those of the run: the one its request arrived
in, and the one `ensure_session` ended in. -/
structure Recorded (cfg : Settings) (st₀ : Gateway) (as : List Action) (i : ℕ) (t : Task) :
    Prop where
  arrival : ∃ as₁ as₂ st₁, as = as₁ ++ .arrive t.request :: as₂ ∧
    (gateway cfg).exec st₀ as₁ = some st₁ ∧ st₁.tasks.length = i ∧ st₁.shared = t.arrival
  reload : ∀ ok g, t.reload = some (ok, g) → ∃ as₁ as₂ st₁, as = as₁ ++ .reloaded i ok :: as₂ ∧
    (gateway cfg).exec st₀ as₁ = some st₁ ∧ st₁.shared = g

/-- What was recorded stays so as the run goes on, whatever the task sends and does. -/
theorem Recorded.snoc (h : Recorded cfg st₀ as i t) (a : Action) (sent : Option Dispatch)
    (phase : Phase) : Recorded cfg st₀ (as ++ [a]) i { t with sent, phase } := by
  constructor
  · obtain ⟨as₁, as₂, st₁, rfl, hrun, hlen, hshared⟩ := h.arrival
    exact ⟨as₁, as₂ ++ [a], st₁, by simp, hrun, hlen, hshared⟩
  · intro ok g hreload
    obtain ⟨as₁, as₂, st₁, rfl, hrun, hshared⟩ := h.reload ok g hreload
    exact ⟨as₁, as₂ ++ [a], st₁, by simp, hrun, hshared⟩

/-- **Every task remembers states of its run.** Induction on the run from its end. -/
theorem recorded_of_run (hinit : st₀.tasks = []) (hrun : (gateway cfg).exec st₀ as = some st)
    (ht : st.tasks[i]? = some t) : Recorded cfg st₀ as i t := by
  induction as using List.reverseRecOn generalizing st i t with
  | nil =>
      obtain rfl := Option.some.inj hrun
      simp [hinit] at ht
  | append_singleton as a ih =>
      obtain ⟨st₁, hrun₁, hstep⟩ := System.exec_concat_eq_some.mp hrun
      rcases task_of_step hstep ht with ⟨r, rfl, rfl, rfl⟩ | ⟨t₁, ht₁, rfl | ⟨ok, server, tool, rfl,
        hphase, rfl⟩ | ⟨result, d, rfl, hphase, hsent, rfl⟩ | ⟨rfl, hphase, rfl⟩⟩
      · exact ⟨⟨as, [], st₁, rfl, hrun₁, rfl, rfl⟩, by simp⟩
      · exact (ih hrun₁ ht₁).snoc a t.sent t.phase
      · refine ⟨((ih hrun₁ ht₁).snoc _ t₁.sent t₁.phase).arrival, fun ok' g hreload => ?_⟩
        simp only [Option.some.injEq, Prod.mk.injEq] at hreload
        obtain ⟨rfl, rfl⟩ := hreload
        exact ⟨as, [], st₁, rfl, hrun₁, rfl⟩
      · exact (ih hrun₁ ht₁).snoc _ t₁.sent _
      · exact (ih hrun₁ ht₁).snoc _ t₁.sent _

/-- **Complete mediation.** On every run of the gateway, whatever the limiter, the breaker
and the backends are at its start and however the requests interleave: a call is sent for
a request only with the server and the tool its name splits into, with its own arguments,
and when each gate passed it; and where the first gate that has not passed it has failed
it, nothing is sent and the answer carries the code and the decision of that gate. -/
theorem mediation (hdoc : cfg.policy.Documented) (hinit : st₀.tasks = [])
    (hrun : (gateway cfg).exec st₀ as = some st) (ht : st.tasks[i]? = some t) :
    Recorded cfg st₀ as i t ∧
    (∀ d, t.sent = some d →
      split t.request.name = some (d.server, d.tool) ∧ d.arguments = t.request.arguments ∧
        ∀ gate : Gate, gate.verdict cfg t = some true) ∧
    (∀ gate, t.firstUnpassed cfg = some gate → t.sent = none ∧
      (gate.verdict cfg t = some false →
        ∃ fields, t.phase = .returned (errorResult gate.code fields) gate.decision)) := by
  have hinv : ∀ (i : ℕ) (t : Task), st.tasks[i]? = some t → TaskInv cfg t :=
    System.invariant' (I := fun st => ∀ (i : ℕ) (t : Task), st.tasks[i]? = some t → TaskInv cfg t)
      (fun _ _ _ hI hstep => taskInv_step hdoc hI hstep) (by simp [hinit]) hrun
  have hmed := (hinv i t ht).mediated
  simp only [Mediated] at hmed
  refine ⟨recorded_of_run hinit hrun ht, fun d hd => ?_, fun gate hfirst => ?_⟩
  · cases hfirst : t.firstUnpassed cfg with
    | none =>
        rw [hfirst] at hmed
        obtain ⟨d', hd', htarget, hargs⟩ := hmed
        obtain rfl : d' = d := Option.some.inj (hd'.symm.trans hd)
        exact ⟨htarget, hargs, Task.firstUnpassed_eq_none.mp hfirst⟩
    | some gate =>
        rw [hfirst] at hmed
        simp [hd] at hmed
  · rw [hfirst] at hmed
    exact hmed

end Runs

/-- The small gateway with a bucket of one token for each agent and a breaker. -/
def guardedStart : Gateway := ⟨⟨some (.init 1 0 0), some (.init 1 10 0), sampleBackends true⟩, []⟩

/-- A permitted request is sent, and every gate passed it; the next one of the agent is refused
by the limiter. -/
theorem mediation_sample : ∃ st t d t' fields,
    (gateway sampleSettings).exec guardedStart [.arrive sampleRequest, .arrive sampleRequest] =
        some st ∧
      st.tasks[0]? = some t ∧ t.sent = some d ∧
      split t.request.name = some (d.server, d.tool) ∧
      (∀ gate : Gate, gate.verdict sampleSettings t = some true) ∧
      st.tasks[1]? = some t' ∧ t'.sent = none ∧
      t'.phase = .returned (errorResult .rateLimited fields) .rateLimited := by
  have hrun : ((gateway sampleSettings).exec guardedStart
      [.arrive sampleRequest, .arrive sampleRequest]).any (fun st =>
        ((st.tasks[0]?).any fun t => t.sent.isSome) &&
          (st.tasks[1]?).any fun t =>
            decide (t.firstUnpassed sampleSettings = some .rateLimit ∧
              Gate.verdict sampleSettings t .rateLimit = some false)) = true := by
    decide +kernel
  obtain ⟨st, hst, htasks⟩ := (Option.any_eq_true _ _).mp hrun
  rw [Bool.and_eq_true] at htasks
  obtain ⟨t, ht, hsent⟩ := (Option.any_eq_true _ _).mp htasks.1
  obtain ⟨t', ht', hunpassed⟩ := (Option.any_eq_true _ _).mp htasks.2
  obtain ⟨hfirst, hfails⟩ := of_decide_eq_true hunpassed
  obtain ⟨d, hd⟩ := Option.isSome_iff_exists.mp hsent
  obtain ⟨-, hpassed, -⟩ := mediation samplePolicy_documented rfl hst ht
  obtain ⟨htarget, -, hall⟩ := hpassed d hd
  obtain ⟨-, -, hrefused⟩ := mediation samplePolicy_documented rfl hst ht'
  obtain ⟨hunsent, hanswer⟩ := hrefused .rateLimit hfirst
  obtain ⟨fields, hphase⟩ := hanswer hfails
  exact ⟨st, t, d, t', fields, hst, ht, hd, htarget, hall, ht', hunsent, hphase⟩

end AgentOpsGateway
