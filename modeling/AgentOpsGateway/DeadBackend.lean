import Mathlib.Data.Finset.Card
import AgentOpsGateway.Mediation
import AgentOpsGateway.Probe

/-!
# A Dead Backend and the Breaker

A backend that fails every connection attempt and every call is meant to trip its breaker:
after as many failed requests as the threshold says, the next ones are refused at once.
But only `backend.call` reports to the breaker. A backend whose tools were never listed
fails earlier, in `ensure_session`, and never trips it.

## Main results

* `breaker_sound_of_run`: a breaker that is below its threshold where it is closed stays so in
  every run.
* `failsFast_iff`: **after the threshold is reached, a permitted request fails fast exactly
  when the tools of the backend were listed** at the start of the outage.
* `failsFast_fails`: a backend that was down from the start is tried again on every request.
-/

namespace AgentOpsGateway

open Python Transition

/-! ### Refusals by the circuit -/

/-- An unknown tool is not taken for an unavailable backend. -/
theorem unknownTool_ne (name server : Str) :
    errorResult .unknownTool [(lit "tool", name)] ≠ backendUnavailable server := by
  intro h
  have := code_eq_of_errorResult_eq (field_ne_code (by decide)) (field_ne_code (by decide)) h
  simp at this

section Refusals

variable {cfg : Settings} {g : Shared} {r : Request} {server tool : Str}

/-- A request for a backend with listed tools is answered `BACKEND_UNAVAILABLE` at once only
where the circuit refuses it. -/
theorem refused_of_unavailable (htarget : split r.name = some (server, tool))
    (hlisted : (g.toolsOf server).isSome)
    (h : (routeArrive cfg g r).2.phase = .returned (backendUnavailable server) .error) :
    (g.allowCircuit server).1 = false := by
  obtain ⟨hbackends, hbreaker⟩ := takeToken_snd g r.agent
  have hallow : ((g.takeToken r.agent).2.allowCircuit server).1 = (g.allowCircuit server).1 := by
    simp only [Shared.allowCircuit, hbreaker]
    cases g.breaker <;> rfl
  simp only [routeArrive] at h
  split at h
  · simp only [htarget, hbackends] at h
    cases hbackend : dictGet server g.backends with
    | none => simp [Shared.toolsOf, hbackend] at hlisted
    | some backend =>
        cases htools : backend.tools with
        | none => simp [Shared.toolsOf, hbackend, htools] at hlisted
        | some tools =>
            simp only [hbackend, htools, routeResolved] at h
            split at h
            · simp only [unknownTool, Halt.phase, Phase.returned.injEq] at h
              exact absurd h.1 (unknownTool_ne r.name server)
            · split at h
              · simp [Halt.phase] at h
              · split at h
                · split at h
                  · simp [Halt.phase] at h
                  · next hcircuit => simpa [hallow] using hcircuit
                · simp [Halt.phase] at h
  · simp [Halt.phase] at h

/-- A permitted request for a listed tool is answered `BACKEND_UNAVAILABLE` at once where
the circuit refuses it. -/
theorem unavailable_of_refused (htoken : (g.takeToken r.agent).1 = true)
    (htarget : split r.name = some (server, tool)) {tools : List Tool}
    (hlisted : g.toolsOf server = some tools) (hknown : tool ∈ tools.map Tool.name)
    (hpermitted : isPermitted cfg r server tool = true)
    (hcircuit : (g.allowCircuit server).1 = false) :
    (routeArrive cfg g r).2 = .ret (backendUnavailable server) .error := by
  obtain ⟨hbackends, hbreaker⟩ := takeToken_snd g r.agent
  have hallow : ((g.takeToken r.agent).2.allowCircuit server).1 = false := by
    simp only [Shared.allowCircuit, hbreaker] at hcircuit ⊢
    cases hb : g.breaker with
    | none => simp [hb] at hcircuit
    | some b => simpa [hb] using hcircuit
  have htools : (g.takeToken r.agent).2.toolsOf server = some tools := by
    simpa only [Shared.toolsOf, hbackends] using hlisted
  simp only [isPermitted] at hpermitted
  split at hpermitted
  · next d hd =>
      cases hbackend : dictGet server g.backends with
      | none => simp [Shared.toolsOf, hbackend] at hlisted
      | some backend =>
          have hbt : backend.tools = some tools := by
            simpa [Shared.toolsOf, hbackend] using hlisted
          simp only [routeArrive, htoken, if_true, htarget, hbackends, hbackend, hbt, routeResolved,
            htools, Option.getD_some, hknown, not_true, if_false, hd, hpermitted, hallow]
          simp
  · simp at hpermitted

/-- A request for a registered backend whose tools are not listed waits for a session. -/
theorem reload_of_unlisted (htoken : (g.takeToken r.agent).1 = true)
    (htarget : split r.name = some (server, tool))
    (hregistered : (dictGet server g.backends).isSome) (hunlisted : g.toolsOf server = none) :
    (routeArrive cfg g r).2 = .reload server tool := by
  obtain ⟨hbackends, -⟩ := takeToken_snd g r.agent
  obtain ⟨backend, hbackend⟩ := Option.isSome_iff_exists.mp hregistered
  have htools : backend.tools = none := by
    simpa [Shared.toolsOf, hbackend] using hunlisted
  simp [routeArrive, htoken, htarget, hbackends, hbackend, htools]

/-- A segment keeps the backends. -/
theorem routeResolved_backends (cfg : Settings) (g : Shared) (r : Request) (server tool : Str) :
    (routeResolved cfg g r server tool).1.backends = g.backends := by
  have hallow : (g.allowCircuit server).2.backends = g.backends := by
    simp only [Shared.allowCircuit]
    cases g.breaker <;> rfl
  simp only [routeResolved]
  split
  · rfl
  · split
    · rfl
    · split
      · split <;> exact hallow
      · rfl

/-- The first segment keeps the backends. -/
theorem routeArrive_backends (cfg : Settings) (g : Shared) (r : Request) :
    (routeArrive cfg g r).1.backends = g.backends := by
  have htoken := (takeToken_snd g r.agent).1
  unfold routeArrive
  dsimp only
  split
  · split
    · exact htoken
    · split
      · exact htoken
      · split
        · exact htoken
        · exact (routeResolved_backends cfg _ r _ _).trans htoken
  · exact htoken

/-- What a stop of the segment before the call says about the target. -/
theorem routeResolved_target (cfg : Settings) (g : Shared) (r : Request) (server tool : Str) :
    (∀ d, (routeResolved cfg g r server tool).2.sent = some d → d.server = server ∧ d.tool = tool) ∧
    ∀ server' tool', (routeResolved cfg g r server tool).2.phase ≠ .reloading server' tool' := by
  simp only [routeResolved]
  split
  · simp [unknownTool, Halt.sent, Halt.phase]
  · split
    · simp [Halt.sent, Halt.phase]
    · split
      · split
        · refine ⟨fun d hd => ?_, by simp [Halt.phase]⟩
          simp only [Halt.sent, Option.some.injEq] at hd
          subst hd
          exact ⟨rfl, rfl⟩
        · simp [Halt.sent, Halt.phase]
      · simp [Halt.sent, Halt.phase]

/-- What a stop of the first segment says about the target. -/
theorem routeArrive_target (cfg : Settings) (g : Shared) (r : Request) :
    (∀ d, (routeArrive cfg g r).2.sent = some d → split r.name = some (d.server, d.tool)) ∧
    ∀ server tool, (routeArrive cfg g r).2.phase = .reloading server tool →
      split r.name = some (server, tool) ∧ g.toolsOf server = none := by
  obtain ⟨hbackends, -⟩ := takeToken_snd g r.agent
  unfold routeArrive
  dsimp only
  split
  · cases htarget : split r.name with
    | none => simp [unknownTool, Halt.sent, Halt.phase]
    | some target =>
        obtain ⟨server, tool⟩ := target
        simp only [hbackends]
        cases hbackend : dictGet server g.backends with
        | none => simp [unknownTool, Halt.sent, Halt.phase]
        | some backend =>
            cases htools : backend.tools with
            | none =>
                simp only [htools]
                refine ⟨by simp [Halt.sent], fun server' tool' h => ?_⟩
                simp only [Halt.phase, Phase.reloading.injEq] at h
                obtain ⟨rfl, rfl⟩ := h
                exact ⟨rfl, by simp [Shared.toolsOf, hbackend, htools]⟩
            | some tools =>
                simp only [htools]
                obtain ⟨hsent, hphase⟩ :=
                  routeResolved_target cfg (g.takeToken r.agent).2 r server tool
                refine ⟨fun d hd => ?_, fun server' tool' h => absurd h (hphase server' tool')⟩
                obtain ⟨rfl, rfl⟩ := hsent d hd
                rfl
  · simp [Halt.sent, Halt.phase]

end Refusals

/-! ### Steps of an outage -/

/-- Every attempt to reach the server fails: `ensure_session` raises, `backend.call` gives
up, and no connection task lists tools. -/
def Dead (server : Str) (st : Gateway) : Action → Prop
  | .reloaded i ok =>
    (∃ t tool, st.tasks[i]? = some t ∧ t.phase = .reloading server tool) → ok = false
  | .answered i result => (∃ d, st.InFlight server i d) → result = backendUnavailable server
  | .load server' _ => server' ≠ server
  | _ => True

/-- The request of a task was for the server, and was answered `BACKEND_UNAVAILABLE`. -/
def Gateway.Unavailable (st : Gateway) (server : Str) (i : ℕ) : Prop :=
  ∃ t tool, st.tasks[i]? = some t ∧ split t.request.name = some (server, tool) ∧
    t.phase = .returned (backendUnavailable server) .error

/-- The tasks go where their names say. -/
def Gateway.Targeted (st : Gateway) : Prop :=
  ∀ (i : ℕ) (t : Task), st.tasks[i]? = some t →
    (∀ d, t.sent = some d → split t.request.name = some (d.server, d.tool)) ∧
    ∀ server tool, t.phase = .reloading server tool → split t.request.name = some (server, tool)

section Steps

variable {cfg : Settings} {server : Str} {st st' : Gateway} {a : Action}

/-- Listing the tools of one backend leaves those of the others. -/
theorem toolsOf_load_of_ne {server' : Str} (h : server' ≠ server) (g : Shared)
    (tools : List Tool) : (g.load server' tools).toolsOf server = g.toolsOf server := by
  simp [Shared.toolsOf, Shared.dictGet_load, Ne.symm h]

/-- During an outage the tools of the server stay as they are. -/
theorem toolsOf_step (hdead : Dead server st a) (hstep : (gateway cfg).step st a = some st') :
    st'.shared.toolsOf server = st.shared.toolsOf server := by
  cases a with
  | arrive r =>
      obtain rfl := step_arrive hstep
      simp only [Shared.toolsOf, routeArrive_backends]
  | reloaded i ok =>
      obtain ⟨t, server', tool, -, -, rfl⟩ := step_reloaded hstep
      cases ok with
      | false => rfl
      | true => simp only [Shared.toolsOf, routeReloaded, if_true, routeResolved_backends]
  | answered i result =>
      obtain ⟨t, d, -, -, -, rfl⟩ := step_answered hstep
      simp only [routeAnswered]
      split <;> rfl
  | abort i =>
      obtain ⟨t, -, -, rfl⟩ := step_abort hstep
      rfl
  | load server' tools =>
      obtain rfl := step_load hstep
      exact toolsOf_load_of_ne hdead st.shared tools
  | limiterClock now =>
      obtain ⟨l, -, -, rfl⟩ := step_limiterClock hstep
      rfl
  | breakerClock now =>
      obtain ⟨b, -, -, rfl⟩ := step_breakerClock hstep
      rfl

/-- Only a connection task changes what is registered. -/
theorem backends_step (hstep : (gateway cfg).step st a = some st') :
    st'.shared.backends = st.shared.backends ∨
      ∃ server tools, a = .load server tools ∧
        st'.shared.backends = (st.shared.load server tools).backends := by
  cases a with
  | arrive r =>
      obtain rfl := step_arrive hstep
      exact .inl (routeArrive_backends cfg st.shared r)
  | reloaded i ok =>
      obtain ⟨t, server', tool, -, -, rfl⟩ := step_reloaded hstep
      cases ok with
      | false => exact .inl rfl
      | true => exact .inl (routeResolved_backends cfg st.shared t.request server' tool)
  | answered i result =>
      obtain ⟨t, d, -, -, -, rfl⟩ := step_answered hstep
      left
      simp only [routeAnswered]
      split <;> rfl
  | abort i =>
      obtain ⟨t, -, -, rfl⟩ := step_abort hstep
      exact .inl rfl
  | load server' tools =>
      obtain rfl := step_load hstep
      exact .inr ⟨server', tools, rfl, rfl⟩
  | limiterClock now =>
      obtain ⟨l, -, -, rfl⟩ := step_limiterClock hstep
      exact .inl rfl
  | breakerClock now =>
      obtain ⟨b, -, -, rfl⟩ := step_breakerClock hstep
      exact .inl rfl

/-- A sound breaker stays sound, whatever the gateway does. -/
theorem breaker_sound_step {b : CircuitBreaker} (hb : st.shared.breaker = some b) (hsound : b.Sound)
    (hstep : (gateway cfg).step st a = some st') :
    ∃ b', st'.shared.breaker = some b' ∧ b'.Sound := by
  have hadmits : ∀ {out : Shared × Halt}, Admits b out →
      ∃ b', out.1.breaker = some b' ∧ b'.Sound := by
    rintro out (⟨-, hsame⟩ | ⟨d, -, hallow, -⟩)
    · exact ⟨b, hsame, hsound⟩
    · exact ⟨_, hallow, (hsound.operations d.server).1⟩
  cases a with
  | arrive r =>
      obtain rfl := step_arrive hstep
      exact hadmits (admits_arrive r hb)
  | reloaded i ok =>
      obtain ⟨t, server', tool, -, -, rfl⟩ := step_reloaded hstep
      exact hadmits (admits_reloaded t.request server' tool ok hb)
  | answered i result =>
      obtain ⟨t, d, -, -, -, rfl⟩ := step_answered hstep
      simp only [routeAnswered]
      split
      · exact ⟨b, hb, hsound⟩
      · next relay _ =>
          obtain ⟨-, hsuccess, hfailure⟩ := hsound.operations d.server
          refine ⟨if relay = .error then b.recordFailure d.server else b.recordSuccess d.server,
            by simp [Shared.report, hb], ?_⟩
          split
          · exact hfailure
          · exact hsuccess
  | abort i =>
      obtain ⟨t, -, -, rfl⟩ := step_abort hstep
      exact ⟨b, hb, hsound⟩
  | load server' tools =>
      obtain rfl := step_load hstep
      exact ⟨b, hb, hsound⟩
  | limiterClock now =>
      obtain ⟨l, -, -, rfl⟩ := step_limiterClock hstep
      exact ⟨b, hb, hsound⟩
  | breakerClock now =>
      obtain ⟨b', hb', -, rfl⟩ := step_breakerClock hstep
      obtain rfl : b' = b := Option.some.inj (hb'.symm.trans hb)
      exact ⟨_, rfl, hsound.one_le, hsound.below⟩

/-- **The breaker is sound in every run** that starts with a sound one. -/
theorem breaker_sound_of_run {as : List Action} {b : CircuitBreaker}
    (hb : st.shared.breaker = some b) (hsound : b.Sound)
    (hrun : (gateway cfg).exec st as = some st') : ∃ b', st'.shared.breaker = some b' ∧ b'.Sound :=
  System.invariant' (I := fun st : Gateway => ∃ b, st.shared.breaker = some b ∧ b.Sound)
    (fun _ _ _ ⟨_, hb, hsound⟩ hstep => breaker_sound_step hb hsound hstep) ⟨b, hb, hsound⟩ hrun

/-- Tasks keep going where their names say. -/
theorem targeted_step (hst : st.Targeted) (hstep : (gateway cfg).step st a = some st') :
    st'.Targeted := by
  intro i t' ht'
  rcases task_of_step hstep ht' with ⟨r, -, -, rfl⟩ | ⟨t, ht, rfl | ⟨ok, server', tool, -, hphase,
    rfl⟩ | ⟨result, d, -, -, -, rfl⟩ | ⟨-, -, rfl⟩⟩
  · obtain ⟨hsent, hphase⟩ := routeArrive_target cfg st.shared r
    exact ⟨hsent, fun server tool h => (hphase server tool h).1⟩
  · exact hst i t' ht
  · have htarget := (hst i t ht).2 server' tool hphase
    cases ok with
    | false => simp [routeReloaded, Halt.sent, Halt.phase]
    | true =>
        obtain ⟨hsent, hnowait⟩ := routeResolved_target cfg st.shared t.request server' tool
        refine ⟨fun d hd => ?_, fun server tool h => absurd h (hnowait server tool)⟩
        obtain ⟨rfl, rfl⟩ := hsent d hd
        exact htarget
  · exact ⟨(hst i t ht).1, fun server tool h =>
      absurd h (routeAnswered_phase st.shared d.server result server tool)⟩
  · exact ⟨(hst i t ht).1, by simp⟩

/-- In an outage no success is reported for the server. -/
theorem event_ne_succeed (hdead : Dead server st a) (i : ℕ) :
    event cfg server st a ≠ some (.succeed i) := by
  intro he
  rcases event_cases he with ⟨j, h⟩ | ⟨now, h⟩ | ⟨j, d, hd, ⟨-, ha⟩ | ⟨h, -⟩ | ⟨h, -⟩⟩
  · simp at h
  · simp at h
  · obtain ⟨result, relay, rfl, hrelay, hne⟩ := ha
    rw [hdead ⟨d, hd⟩, relayDecision_backendUnavailable] at hrelay
    exact hne (Except.ok.inj hrelay).symm
  · simp at h
  · simp at h

end Steps

/-! ### The count of failures -/

/-- The circuit of the server is tripped, or it has counted every request that was answered
`BACKEND_UNAVAILABLE` and stays below the threshold. -/
def Counted (params : HalfOpen.Params ℚ) (server : Str) (st : Gateway)
    (l : HalfOpen.Line ℕ ℚ) : Prop :=
  l.circuit.tripped ∨ (l.circuit.failures : ℤ) < params.threshold ∧
    ∀ is : Finset ℕ, (∀ i ∈ is, st.Unavailable server i) → is.card ≤ l.circuit.failures

/-- What holds in every state of an outage of a server whose tools are listed. -/
structure Outage (params : HalfOpen.Params ℚ) (server : Str) (st : Gateway) : Prop where
  line : ∃ l, LineIs params server st l ∧ Counted params server st l
  listed : (st.shared.toolsOf server).isSome
  targeted : st.Targeted
  settled : ∀ (i : ℕ) (t : Task) tool, st.tasks[i]? = some t → t.phase ≠ .reloading server tool

section Outage

variable {cfg : Settings} {params : HalfOpen.Params ℚ} {server : Str} {st st' : Gateway}
  {a : Action} {l : HalfOpen.Line ℕ ℚ}

/-- A closed circuit refuses nothing, so no request was just answered at the gate. -/
theorem allowCircuit_of_closed (hl : LineIs params server st l) (hclosed : ¬l.circuit.tripped) :
    (st.shared.allowCircuit server).1 = true := by
  obtain ⟨⟨b, hb, -, rfl⟩, -⟩ := hl
  simp only [Gateway.line, HalfOpen.Circuit.tripped, Option.not_isSome_iff_eq_none] at hclosed
  simp only [Shared.allowCircuit, hb]
  rw [b.allow_fst]
  simp only [HalfOpen.Circuit.admits, hclosed]

/-- While the circuit is closed, a request is answered `BACKEND_UNAVAILABLE` only through a
reported failure. -/
theorem unavailable_of_step (hout : Outage params server st) (hl : LineIs params server st l)
    (hclosed : ¬l.circuit.tripped) (hdead : Dead server st a)
    (hstep : (gateway cfg).step st a = some st') {i : ℕ} (hi : st'.Unavailable server i) :
    st.Unavailable server i ∨ event cfg server st a = some (.fail i) := by
  obtain ⟨t', tool, ht', htarget, hphase'⟩ := hi
  rcases task_of_step hstep ht' with ⟨r, -, -, rfl⟩ | ⟨t, ht, rfl | ⟨ok, server', tool', -, hphase,
    rfl⟩ | ⟨result, d, rfl, hphase, hsent, rfl⟩ | ⟨-, -, rfl⟩⟩
  · have hrefused := refused_of_unavailable htarget hout.listed hphase'
    rw [allowCircuit_of_closed hl hclosed] at hrefused
    simp at hrefused
  · exact Or.inl ⟨t', tool, ht, htarget, hphase'⟩
  · have htarget' := (hout.targeted i t ht).2 server' tool' hphase
    obtain ⟨rfl, -⟩ := Prod.mk.inj (Option.some.inj (htarget'.symm.trans htarget))
    exact absurd hphase (hout.settled i t tool' ht)
  · have htarget' := (hout.targeted i t ht).1 d hsent
    obtain ⟨hserver, -⟩ := Prod.mk.inj (Option.some.inj (htarget'.symm.trans htarget))
    have hin : st.InFlight server i d := ⟨t, ht, hphase, hsent, hserver⟩
    refine Or.inr ?_
    rw [event_answered (callsTo_inFlight.mpr ⟨d, hin, rfl⟩), hdead ⟨d, hin⟩,
      relayDecision_backendUnavailable]
  · simp at hphase'

/-- **One step of an outage** trips the circuit or counts the request it answers. -/
theorem Outage.step (hout : Outage params server st) (hdead : Dead server st a)
    (hstep : (gateway cfg).step st a = some st') : Outage params server st' := by
  obtain ⟨l, hl, hcounted⟩ := hout.line
  obtain ⟨l', hl', hmatch⟩ := hl.step hstep
  refine ⟨⟨l', hl', ?_⟩, by rw [toolsOf_step hdead hstep]; exact hout.listed,
    targeted_step hout.targeted hstep, fun i t' tool ht' hphase' => ?_⟩
  · -- what the step does to the counts
    by_cases hfail : ∃ j, event cfg server st a = some (.fail j)
    · obtain ⟨j, hevent⟩ := hfail
      simp only [hevent, Matches] at hmatch
      obtain ⟨adm, -, rfl⟩ := HalfOpen.step_fail hmatch
      by_cases hth : params.threshold ≤ l.circuit.failures + 1
      · exact Or.inl (by simp [HalfOpen.Circuit.tripped, HalfOpen.Circuit.fail, hth])
      · by_cases hclosed : l.circuit.tripped
        · exact Or.inl (by simpa [HalfOpen.Circuit.tripped, HalfOpen.Circuit.fail, hth] using
            hclosed)
        · obtain ⟨-, hcard⟩ := hcounted.resolve_left hclosed
          refine Or.inr ⟨by simpa [HalfOpen.Circuit.fail] using hth, fun is his => ?_⟩
          -- all but the one just answered were counted before
          have herase : (is.erase j).card ≤ l.circuit.failures := by
            refine hcard _ fun i hi => ?_
            obtain ⟨hij, hi⟩ := Finset.mem_erase.mp hi
            rcases unavailable_of_step hout hl hclosed hdead hstep (his i hi) with h | h
            · exact h
            · rw [hevent] at h
              exact absurd (HalfOpen.Event.fail.inj (Option.some.inj h)).symm hij
          have hle := is.pred_card_le_card_erase (a := j)
          simp only [HalfOpen.Circuit.fail]
          omega
    · have hcounts : l'.circuit.failures = l.circuit.failures ∧
          l'.circuit.openedAt = l.circuit.openedAt := by
        cases hevent : event cfg server st a with
        | none =>
            simp only [hevent, Matches] at hmatch
            simp [hmatch]
        | some e =>
            simp only [hevent, Matches] at hmatch
            refine HalfOpen.counts_of_step hmatch fun i => ⟨?_, ?_⟩
            · rintro rfl
              exact event_ne_succeed hdead i hevent
            · rintro rfl
              exact hfail ⟨i, hevent⟩
      by_cases hclosed : l.circuit.tripped
      · exact Or.inl (by simpa [HalfOpen.Circuit.tripped, hcounts.2] using hclosed)
      · obtain ⟨hbelow, hcard⟩ := hcounted.resolve_left hclosed
        refine Or.inr ⟨by rwa [hcounts.1], fun is his => ?_⟩
        rw [hcounts.1]
        refine hcard is fun i hi => ?_
        exact (unavailable_of_step hout hl hclosed hdead hstep (his i hi)).resolve_right
          fun h => hfail ⟨i, h⟩
  · rcases task_of_step hstep ht' with ⟨r, -, -, rfl⟩ | ⟨t, ht, rfl | ⟨ok, server', tool', -, -,
      rfl⟩ | ⟨result, d, -, -, -, rfl⟩ | ⟨-, -, rfl⟩⟩
    · have hnone := ((routeArrive_target cfg st.shared r).2 server tool hphase').2
      exact absurd hout.listed (by simp [hnone])
    · exact hout.settled i t' tool ht hphase'
    · cases ok with
      | false => simp [routeReloaded, Halt.phase] at hphase'
      | true => exact (routeResolved_target cfg st.shared t.request server' tool').2 _ _ hphase'
    · exact routeAnswered_phase st.shared d.server result server tool hphase'
    · simp at hphase'

/-- At the start of an outage nothing has been answered. -/
theorem outage_start {b : CircuitBreaker} (hinit : st.tasks = [])
    (hb : st.shared.breaker = some b) (hsound : b.Sound)
    (hlisted : (st.shared.toolsOf server).isSome) : Outage b.params server st := by
  refine ⟨⟨_, lineIs_start hb hinit server, ?_⟩, hlisted, by simp [Gateway.Targeted, hinit],
    by simp [hinit]⟩
  by_cases hclosed : (b.circuit server).tripped
  · exact Or.inl hclosed
  · refine Or.inr ⟨hsound.below server hclosed, fun is his => ?_⟩
    have hempty : is = ∅ := Finset.eq_empty_of_forall_notMem fun i hi => by
      obtain ⟨t, -, ht, -⟩ := his i hi
      simp [hinit] at ht
    simp [hempty]

end Outage

/-- The request that is next to arrive is answered `BACKEND_UNAVAILABLE` before any await:
neither `ensure_session` nor `call` of the backend has run for it. -/
def FailsFast (st' : Gateway) (server : Str) (i : ℕ) : Prop :=
  ∃ t, st'.tasks[i]? = some t ∧ t.phase = .returned (backendUnavailable server) .error ∧
    t.reload = none ∧ t.sent = none

/-- A request of an agent with a token for a known and permitted tool of the server. -/
structure Permitted (cfg : Settings) (g : Shared) (r : Request) (server tool : Str) : Prop where
  granted : (g.takeToken r.agent).1 = true
  target : split r.name = some (server, tool)
  registered : (dictGet server g.backends).isSome
  known : ∀ tools, g.toolsOf server = some tools → tool ∈ tools.map Tool.name
  permitted : isPermitted cfg r server tool = true

/-- **A dead backend trips the breaker exactly when its tools were listed.** After an
outage in which as many requests as the threshold says were answered
`BACKEND_UNAVAILABLE`, a further permitted request fails fast while the cooldown is not
over if and only if the tools were listed when the outage began. -/
theorem failsFast_iff {cfg : Settings} {st₀ st st' : Gateway} {as : List Action}
    {b₀ b : CircuitBreaker} {r : Request} {server tool : Str} {is : Finset ℕ}
    (hinit : st₀.tasks = []) (hb₀ : st₀.shared.breaker = some b₀) (hsound : b₀.Sound)
    (hrun : (gateway cfg).exec st₀ as = some st) (hdead : (gateway cfg).Each (Dead server) st₀ as)
    (his : ∀ i ∈ is, st.Unavailable server i) (hcard : b₀.threshold ≤ is.card)
    (hb : st.shared.breaker = some b)
    (hcool : ∀ t, b.openedAt server = some t → b.now - t < b.cooldown)
    (hr : Permitted cfg st.shared r server tool)
    (hstep : (gateway cfg).step st (.arrive r) = some st') :
    FailsFast st' server st.tasks.length ↔ (st₀.shared.toolsOf server).isSome := by
  have htools : st.shared.toolsOf server = st₀.shared.toolsOf server :=
    System.invariant (I := fun st => st.shared.toolsOf server = st₀.shared.toolsOf server)
      (fun _ _ _ hI hC hstep => (toolsOf_step hC hstep).trans hI) rfl hdead hrun
  obtain rfl := step_arrive hstep
  constructor
  · -- a backend without tools is asked for a session
    rintro ⟨t, ht, hphase, -⟩
    rw [← htools]
    by_contra hunlisted
    simp only [List.getElem?_concat_length, Option.some.injEq] at ht
    subst ht
    rw [reload_of_unlisted hr.granted hr.target hr.registered (by simpa using hunlisted)] at hphase
    simp [Halt.phase] at hphase
  · intro hlisted
    obtain ⟨tools, htools'⟩ := Option.isSome_iff_exists.mp (htools ▸ hlisted)
    have hout : Outage b₀.params server st :=
      System.invariant (fun _ _ _ hI hC hstep => hI.step hC hstep)
        (outage_start hinit hb₀ hsound hlisted) hdead hrun
    obtain ⟨l, hl, hcounted⟩ := hout.line
    have htripped : l.circuit.tripped := by
      rcases hcounted with h | ⟨hbelow, hcount⟩
      · exact h
      · have hle := hcount is his
        have hlt : (l.circuit.failures : ℤ) < b₀.threshold := hbelow
        omega
    have hrefused : (st.shared.allowCircuit server).1 = false := by
      obtain ⟨⟨b', hb', -, rfl⟩, -⟩ := hl
      obtain rfl : b' = b := Option.some.inj (hb'.symm.trans hb)
      obtain ⟨t, ht⟩ := Option.isSome_iff_exists.mp htripped
      simp only [Shared.allowCircuit, hb, CircuitBreaker.allow]
      simp only [Gateway.line, CircuitBreaker.circuit] at ht
      simp [ht, hcool t ht]
    have hret := unavailable_of_refused hr.granted hr.target htools' (hr.known tools htools')
      hr.permitted hrefused
    refine ⟨_, List.getElem?_concat_length, ?_, rfl, ?_⟩
    · simp [hret, Halt.phase]
    · simp [hret, Halt.sent]

/-- The request is permitted in the small gateway, whether or not the tools are listed. -/
theorem permitted_sample {g : Shared} {listed : Bool} (hlimiter : g.limiter = none)
    (hbackends : g.backends = sampleBackends listed) :
    Permitted sampleSettings g sampleRequest (lit "ticket") (lit "create_ticket") where
  granted := by simp [Shared.takeToken, hlimiter]
  target := by decide
  registered := by
    rw [hbackends]
    rfl
  known := by
    intro tools htools
    rw [Shared.toolsOf, hbackends] at htools
    cases listed with
    | false => exact absurd htools (by simp [sampleBackends, dictGet])
    | true =>
        obtain rfl : [⟨lit "create_ticket", []⟩] = tools := Option.some.inj htools
        simp
  permitted := by decide +kernel

/-- A call that ends with an outage is answered `BACKEND_UNAVAILABLE`; the other tasks stay as
they are. -/
theorem phase_of_outage {cfg : Settings} {st st' : Gateway} {server : Str} {i : ℕ}
    (hstep : (gateway cfg).step st (.answered i (backendUnavailable server)) = some st') :
    (∃ t, st'.tasks[i]? = some t ∧ t.phase = .returned (backendUnavailable server) .error) ∧
      ∀ j, j ≠ i → st'.tasks[j]? = st.tasks[j]? := by
  obtain ⟨t, d, ht, -, -, rfl⟩ := step_answered hstep
  refine ⟨⟨_, List.getElem?_set_self (lt_length_of_getElem? ht), ?_⟩, fun j hj => ?_⟩
  · simp [routeAnswered, relayDecision_backendUnavailable, Halt.phase]
  · exact List.getElem?_set_ne hj.symm

/-- Two calls go out together, and the backend fails both. -/
def failingRun : List Action :=
  [.arrive sampleRequest, .arrive sampleRequest, .answered 0 (backendUnavailable (lit "ticket")),
    .answered 1 (backendUnavailable (lit "ticket"))]

/-- How the run ends on a breaker whose threshold is two: both requests were answered, and the
circuit is open. -/
theorem failingRun_ends : ∃ st b,
    (gateway sampleSettings).exec (sampleStart (some (.init 2 10 0)) true) failingRun = some st ∧
      st.shared.limiter = none ∧ st.shared.backends = sampleBackends true ∧
      st.shared.breaker = some b ∧
      (b.openedAt (lit "ticket") = some 0 ∧ b.now = 0 ∧ b.cooldown = 10) ∧
      ∀ i ∈ ({0, 1} : Finset ℕ), st.Unavailable (lit "ticket") i := by
  have hrun : ((gateway sampleSettings).exec (sampleStart (some (.init 2 10 0)) true)
      failingRun).any (fun st => st.shared.limiter.isNone &&
        (st.tasks.all fun t => split t.request.name = some (lit "ticket", lit "create_ticket")) &&
        st.shared.breaker.any fun b =>
          b.openedAt (lit "ticket") = some 0 ∧ b.now = 0 ∧ b.cooldown = 10) = true := by
    decide +kernel
  obtain ⟨st, hst, hchecks⟩ := (Option.any_eq_true _ _).mp hrun
  simp only [Bool.and_eq_true, Option.isNone_iff_eq_none, List.all_eq_true] at hchecks
  obtain ⟨⟨hlimiter, htargets⟩, hcircuit⟩ := hchecks
  obtain ⟨b, hb, hopen⟩ := (Option.any_eq_true _ _).mp hcircuit
  have hbackends : st.shared.backends = sampleBackends true := by
    refine System.invariant (I := fun st : Gateway => st.shared.backends = sampleBackends true)
      (C := fun _ a => ∀ server tools, a ≠ .load server tools) (fun st a st' hI ha hstep => ?_) rfl
      (System.each_of_mem (by simp [failingRun])) hst
    rcases backends_step hstep with heq | ⟨server, tools, hload, -⟩
    · exact heq.trans hI
    · exact absurd hload (ha server tools)
  refine ⟨st, b, hst, hlimiter, hbackends, hb, of_decide_eq_true hopen, fun i hi => ?_⟩
  have hsplit : failingRun = ([.arrive sampleRequest, .arrive sampleRequest] ++
      [.answered 0 (backendUnavailable (lit "ticket"))]) ++
        [.answered 1 (backendUnavailable (lit "ticket"))] := rfl
  obtain ⟨st₃, hst₃, hstep⟩ := System.exec_concat_eq_some.mp (hsplit ▸ hst)
  obtain ⟨st₂, -, hstep₂⟩ := System.exec_concat_eq_some.mp hst₃
  obtain ⟨⟨t₀, ht₀, hphase₀⟩, -⟩ := phase_of_outage hstep₂
  obtain ⟨⟨t₁, ht₁, hphase₁⟩, hothers⟩ := phase_of_outage hstep
  rw [← hothers 0 (by decide)] at ht₀
  simp only [Finset.mem_insert, Finset.mem_singleton] at hi
  obtain rfl | rfl := hi
  · exact ⟨t₀, _, ht₀, of_decide_eq_true (htargets t₀ (List.mem_of_getElem? ht₀)), hphase₀⟩
  · exact ⟨t₁, _, ht₁, of_decide_eq_true (htargets t₁ (List.mem_of_getElem? ht₁)), hphase₁⟩

/-- Two failed calls trip a fresh breaker whose threshold is two, and the next request is
refused. The breaker is left as the next outage has to find it. -/
theorem failsFast_sample : ∃ st st',
    (gateway sampleSettings).exec (sampleStart (some (.init 2 10 0)) true) failingRun = some st ∧
    (gateway sampleSettings).step st (.arrive sampleRequest) = some st' ∧
    (FailsFast st' (lit "ticket") st.tasks.length ↔
      ((sampleStart (some (.init 2 10 0)) true).shared.toolsOf (lit "ticket")).isSome) ∧
    FailsFast st' (lit "ticket") st.tasks.length ∧
    ∃ b', st'.shared.breaker = some b' ∧ b'.Sound := by
  obtain ⟨st, b, hst, hlimiter, hbackends, hb, ⟨hopened, hnow, hcooldown⟩, hunavailable⟩ :=
    failingRun_ends
  have hdead : (gateway sampleSettings).Each (Dead (lit "ticket"))
      (sampleStart (some (.init 2 10 0)) true) failingRun :=
    System.each_of_mem (by simp [failingRun, Dead])
  have hcool : ∀ t, b.openedAt (lit "ticket") = some t → b.now - t < b.cooldown := by
    intro t ht
    obtain rfl : 0 = t := Option.some.inj (hopened.symm.trans ht)
    rw [hnow, hcooldown]
    decide +kernel
  obtain ⟨st', hst'⟩ : ∃ st', (gateway sampleSettings).step st (.arrive sampleRequest) = some st' :=
    ⟨_, rfl⟩
  have hfresh : (CircuitBreaker.init 2 10 0).Sound := CircuitBreaker.sound_init (by decide) 10 0
  have hiff := failsFast_iff rfl rfl hfresh hst hdead hunavailable (by decide) hb hcool
    (permitted_sample hlimiter hbackends) hst'
  have hsound := breaker_sound_of_run rfl hfresh (System.exec_concat_eq_some.mpr ⟨st, hst, hst'⟩)
  exact ⟨st, st', hst, hst', hiff, hiff.mpr rfl, hsound⟩

/-- The small gateway with a fresh breaker, before the tools were ever listed. -/
def unlistedStart : Gateway := sampleStart (some (.init 1 10 0)) false

/-- A request that waits for a session. -/
def waitingTask : Task :=
  ⟨sampleRequest, unlistedStart.shared, none, none,
    .reloading (lit "ticket") (lit "create_ticket")⟩

/-- A request for which no session could be opened. -/
def failedTask : Task :=
  ⟨sampleRequest, unlistedStart.shared, some (false, unlistedStart.shared), none,
    .returned (backendUnavailable (lit "ticket")) .error⟩

/-- **A backend that was down from the start is never given up**: without a condition on
the listed tools every request tries to connect again. -/
theorem failsFast_fails : ¬∀ (cfg : Settings) (st₀ st st' : Gateway) (as : List Action)
    (b₀ b : CircuitBreaker) (r : Request) (server tool : Str) (is : Finset ℕ),
    st₀.tasks = [] → st₀.shared.breaker = some b₀ → b₀.Sound →
    (gateway cfg).exec st₀ as = some st → (gateway cfg).Each (Dead server) st₀ as →
    (∀ i ∈ is, st.Unavailable server i) → b₀.threshold ≤ is.card →
    st.shared.breaker = some b → (∀ t, b.openedAt server = some t → b.now - t < b.cooldown) →
    Permitted cfg st.shared r server tool →
    (gateway cfg).step st (.arrive r) = some st' → FailsFast st' server st.tasks.length := by
  intro hclaim
  have hpermitted : Permitted sampleSettings unlistedStart.shared sampleRequest (lit "ticket")
    (lit "create_ticket") := permitted_sample rfl rfl
  have hfirst : (gateway sampleSettings).step unlistedStart (.arrive sampleRequest) =
    some ⟨unlistedStart.shared, [waitingTask]⟩ := rfl
  have hsecond : (gateway sampleSettings).step ⟨unlistedStart.shared, [waitingTask]⟩
    (.reloaded 0 false) = some ⟨unlistedStart.shared, [failedTask]⟩ := rfl
  have hthird : (gateway sampleSettings).step ⟨unlistedStart.shared, [failedTask]⟩
    (.arrive sampleRequest) = some ⟨unlistedStart.shared, [failedTask, waitingTask]⟩ := rfl
  have hrun : (gateway sampleSettings).exec unlistedStart
      [.arrive sampleRequest, .reloaded 0 false] = some ⟨unlistedStart.shared, [failedTask]⟩ :=
    System.exec_cons_eq_some.mpr ⟨_, hfirst, System.exec_cons_eq_some.mpr ⟨_, hsecond, rfl⟩⟩
  have hcount : ∀ i ∈ ({0} : Finset ℕ),
      Gateway.Unavailable ⟨unlistedStart.shared, [failedTask]⟩ (lit "ticket") i := by
    intro i hi
    obtain rfl := Finset.mem_singleton.mp hi
    exact ⟨failedTask, _, rfl, hpermitted.target, rfl⟩
  obtain ⟨t, ht, hphase, -⟩ := hclaim sampleSettings unlistedStart _ _ _ (.init 1 10 0)
    (.init 1 10 0) sampleRequest (lit "ticket") (lit "create_ticket") {0} rfl rfl
    (CircuitBreaker.sound_init le_rfl 10 0) hrun
    ⟨trivial, fun _ _ => ⟨fun _ => rfl, fun _ _ => trivial⟩⟩ hcount (by decide) rfl
    (fun t ht => by simp [CircuitBreaker.init] at ht) hpermitted hthird
  obtain rfl : waitingTask = t := Option.some.inj ht
  simp [waitingTask] at hphase

end AgentOpsGateway
