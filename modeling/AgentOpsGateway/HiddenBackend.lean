import AgentOpsGateway.DeadBackend
import AgentOpsGateway.Listing

/-!
# Clients That Call What Is Listed

`aggregate_tools` leaves out a backend whose circuit is tripped, also behind the cooldown, and
only an outcome of a call closes a circuit. So a backend that no client calls because it is not
listed is not listed because no client calls it.

`browser` is the gateway among clients that call what some listing has shown them. A listing
goes through the backends one after the other and may wait at each, so its turns are actions of
their own, in between those of the calls.

## Main results

* `exec_turn`: a turn without anything in between shows what `aggregateTurn` lists.
* `hidden_forever`: **a tripped backend of which no name is known and no call is under way is
  never listed and never called again**, whatever the clock says.
-/

namespace AgentOpsGateway

open Python Transition

/-! ### Listings in turns -/

/-- The gateway, the backends at which a listing waits for `ensure_session`, and the names that
listings have shown. -/
structure Browsing where
  gateway : Gateway
  pending : List Str
  shown : List Str

/-- What can happen among clients that call what is listed. -/
inductive BrowserAction
  /-- The turn of a backend comes in a listing. -/
  | turn (server : Str)
  /-- `ensure_session` of a listing returns, or raises an `Exception`. -/
  | resumed (server : Str) (ok : Bool)
  /-- Any action of the gateway; a request that arrives has a name that has been shown. -/
  | act (a : Action)

/-- The names that a turn shows. -/
def namesOf (backend : Backend) (tools : List Tool) : List Str :=
  (prefixed backend.name tools).map Tool.name

/-- The clients know the name of the request. -/
def Browsing.allows (st : Browsing) : Action → Bool
  | .arrive r => r.name ∈ st.shown
  | _ => true

/-- Let one thing happen, where it is possible. -/
def Browsing.step (cfg : Settings) (st : Browsing) : BrowserAction → Option Browsing
  | .turn server =>
    (dictGet server st.gateway.shared.backends).map fun backend =>
      if st.gateway.shared.isTripped backend.name then st
      else
        match backend.tools with
        | some tools => { st with shown := st.shown ++ namesOf backend tools }
        | none => { st with pending := st.pending ++ [server] }
  | .resumed server ok =>
    if server ∈ st.pending then
      (dictGet server st.gateway.shared.backends).map fun backend =>
        { st with
          pending := st.pending.erase server
          shown := st.shown ++ if ok then namesOf backend (backend.tools.getD []) else [] }
    else none
  | .act a =>
    if st.allows a then
      (Gateway.step cfg st.gateway a).map fun gateway => { st with gateway }
    else none

/-- The gateway among clients that call what is listed. -/
def browser (cfg : Settings) : System Browsing BrowserAction := ⟨Browsing.step cfg⟩

/-! ### A turn and the loop -/

/-- What `ensure_session` does when it lists these tools, or raises. -/
def ensureAs (outcome : Option (List Tool)) (g : Shared) (server : Str) : Shared × Bool :=
  match outcome with
  | some tools => (g.load server tools, true)
  | none => (g, false)

/-- **A turn without anything in between** shows what `aggregateTurn` lists, and leaves the
shared state as it does. -/
theorem exec_turn (cfg : Settings) (st : Browsing) {server : Str}
    (hserver : st.gateway.shared.Registered server) (outcome : Option (List Tool)) :
    ∃ as st', (browser cfg).exec st as = some st' ∧
      st'.gateway = { st.gateway with
        shared := (aggregateTurn (ensureAs outcome) st.gateway.shared server).1 } ∧
      st'.shown = st.shown ++
        (aggregateTurn (ensureAs outcome) st.gateway.shared server).2.map Tool.name ∧
      st'.pending.Perm st.pending := by
  obtain ⟨backend, hbackend⟩ := Option.isSome_iff_exists.mp hserver
  simp only [aggregateTurn, hbackend]
  by_cases htripped : st.gateway.shared.isTripped backend.name = true
  · refine ⟨[.turn server], st, ?_, ?_⟩
    · simp [browser, System.exec, Browsing.step, hbackend, htripped]
    · simp [htripped]
  · cases htools : backend.tools with
    | some tools =>
        refine ⟨[.turn server], { st with shown := st.shown ++ namesOf backend tools }, ?_, ?_⟩
        · simp [browser, System.exec, Browsing.step, hbackend, htripped, htools]
        · simp [htripped, namesOf]
    | none =>
        have herase : ((st.pending ++ [server]).erase server).Perm st.pending := by
          have hperm : (st.pending ++ [server]).Perm (server :: st.pending) :=
            List.perm_append_singleton server st.pending
          simpa using hperm.erase server
        cases outcome with
        | none =>
            refine ⟨[.turn server, .resumed server false],
              ⟨st.gateway, (st.pending ++ [server]).erase server, st.shown ++ []⟩, ?_, ?_⟩
            · simp [browser, System.exec, Browsing.step, hbackend, htripped, htools]
            · simpa [htripped, ensureAs] using herase
        | some tools =>
            have hloaded : dictGet server (st.gateway.shared.load server tools).backends =
                some { backend with tools := some tools } := by
              rw [Shared.dictGet_load, hbackend, Option.map_some, if_pos rfl]
            refine ⟨[.turn server, .act (.load server tools), .resumed server true],
              ⟨⟨st.gateway.shared.load server tools, st.gateway.tasks⟩,
                (st.pending ++ [server]).erase server, st.shown ++ namesOf backend tools⟩, ?_, ?_⟩
            · simp [browser, System.exec, Browsing.step, Browsing.allows, Gateway.step, hbackend,
                htripped, htools, hloaded, namesOf]
            · simpa [htripped, ensureAs, namesOf, Shared.toolsOf, hloaded] using herase

/-! ### One step -/

section Steps

variable {cfg : Settings} {params : HalfOpen.Params ℚ} {server : Str}

/-- Every backend is registered under its own name, and its name is taken off what is listed
of it. -/
structure Named (g : Shared) : Prop where
  keyed : g.Keyed
  unambiguous : ∀ s, g.Registered s → Unambiguous s

/-- A step leaves the names of the backends as they are. -/
theorem Named.step {st st' : Gateway} {a : Action} (h : Named st.shared)
    (hstep : (gateway cfg).step st a = some st') : Named st'.shared := by
  rcases backends_step hstep with heq | ⟨s, tools, -, heq⟩
  · constructor
    · intro key backend hget
      rw [heq] at hget
      exact h.keyed key backend hget
    · intro key hkey
      rw [Shared.Registered, heq] at hkey
      exact h.unambiguous key hkey
  · constructor
    · intro key backend hget
      rw [heq, Shared.dictGet_load, Option.map_eq_some_iff] at hget
      obtain ⟨backend, hget, rfl⟩ := hget
      have hname := h.keyed key backend hget
      split <;> exact hname
    · intro key hkey
      rw [Shared.Registered, heq, Shared.dictGet_load, Option.isSome_map] at hkey
      exact h.unambiguous key hkey

/-- No listed name of another backend is one of the server. -/
theorem split_namesOf {g : Shared} (h : Named g) {s : Str} {backend : Backend}
    (hbackend : dictGet s g.backends = some backend) (hne : backend.name ≠ server)
    {tools : List Tool} {name : Str} (hname : name ∈ namesOf backend tools) (tool : Str) :
    split name ≠ some (server, tool) := by
  rw [namesOf, prefixed, List.map_map] at hname
  obtain ⟨t, -, rfl⟩ := List.mem_map.mp hname
  have hs := h.keyed s backend hbackend
  have hunambiguous := h.unambiguous s (Option.isSome_iff_exists.mpr ⟨backend, hbackend⟩)
  rw [Function.comp_apply, split_join (hs ▸ hunambiguous)]
  intro heq
  exact hne (Prod.mk.inj (Option.some.inj heq)).1

/-- Nothing is admitted for a server for which no request arrives and no task waits. -/
theorem event_ne_launch {st : Gateway} {a : Action} (j : ℕ)
    (harrive : ∀ r, a = .arrive r → ∀ tool, split r.name ≠ some (server, tool))
    (hwaiting : ∀ (i : ℕ) (t : Task) tool,
      st.tasks[i]? = some t → t.phase ≠ .reloading server tool) :
    event cfg server st a ≠ some (.launch j) := by
  have hcall : ∀ {i : ℕ} {h : Halt}, admission server i h = some (.launch j) →
      ∃ d, h.sent = some d ∧ d.server = server := by
    intro i h hadm
    cases h with
    | call d =>
        simp only [admission] at hadm
        split at hadm
        · next hserver => exact ⟨d, rfl, hserver⟩
        · simp at hadm
    | reload _ _ | ret _ _ | raise _ => simp [admission] at hadm
  intro hevent
  cases a with
  | arrive r =>
      obtain ⟨d, hd, rfl⟩ := hcall hevent
      exact harrive r rfl d.tool ((routeArrive_target cfg st.shared r).1 d hd)
  | reloaded i ok =>
      simp only [event] at hevent
      split at hevent
      · next t ht =>
          split at hevent
          · next server' tool hphase =>
              obtain ⟨d, hd, hserver⟩ := hcall hevent
              cases ok with
              | false => simp [routeReloaded, Halt.sent] at hd
              | true =>
                  have hresolved := routeResolved_target cfg st.shared t.request server' tool
                  have htarget := (hresolved.1 d hd).1
                  rw [htarget] at hserver
                  subst hserver
                  exact hwaiting i t tool ht hphase
          · simp at hevent
      · simp at hevent
  | answered i result =>
      simp only [event] at hevent
      split at hevent <;> simp at hevent
  | abort i =>
      simp only [event] at hevent
      split at hevent <;> simp at hevent
  | load _ _ | limiterClock _ | breakerClock _ => simp [event] at hevent

/-! ### Out of sight -/

/-- Nobody can call the server: its circuit is tripped, no call of it is under way, neither a
task nor a listing waits for it, and no name of it has been shown. What was sent to it was sent
before `st₀`. -/
structure Hidden (params : HalfOpen.Params ℚ) (server : Str) (st₀ : Gateway) (st : Browsing) :
    Prop where
  named : Named st.gateway.shared
  line : ∃ l, LineIs params server st.gateway l ∧ l.circuit.tripped ∧
    ∀ i a, l.calls i ≠ .inFlight a
  waiting : ∀ (i : ℕ) (t : Task) tool, st.gateway.tasks[i]? = some t →
    t.phase ≠ .reloading server tool
  pending : server ∉ st.pending
  shown : ∀ name ∈ st.shown, ∀ tool, split name ≠ some (server, tool)
  earlier : ∀ (i : ℕ) (t : Task) d, st.gateway.tasks[i]? = some t → t.sent = some d →
    d.server = server → ∃ t₀, st₀.tasks[i]? = some t₀ ∧ t₀.sent = some d

variable {st₀ : Gateway} {st st' : Browsing}

theorem Hidden.isTripped (h : Hidden params server st₀ st) :
    st.gateway.shared.isTripped server = true := by
  obtain ⟨l, hl, htripped, -⟩ := h.line
  obtain ⟨b, hb, hb'⟩ := hl.tripped.mp htripped
  simpa [Shared.isTripped, hb] using hb'

/-- A turn shows no name of the server, and does not wait for it. -/
theorem Hidden.turn {server' : Str} (h : Hidden params server st₀ st)
    (hstep : (browser cfg).step st (.turn server') = some st') : Hidden params server st₀ st' := by
  obtain ⟨backend, hbackend, hst'⟩ := Option.map_eq_some_iff.mp hstep
  split at hst'
  · exact hst' ▸ h
  · next huntripped =>
      have hne : backend.name ≠ server := by
        rintro rfl
        exact huntripped h.isTripped
      split at hst'
      · subst hst'
        refine { h with shown := fun name hname => ?_ }
        rcases List.mem_append.mp hname with hname | hname
        · exact h.shown name hname
        · exact split_namesOf h.named hbackend hne hname
      · subst hst'
        refine { h with pending := fun hmem => ?_ }
        rcases List.mem_append.mp hmem with hmem | hmem
        · exact h.pending hmem
        · rw [List.mem_singleton.mp hmem] at hne
          exact hne (h.named.keyed server' backend hbackend)

/-- Nor does a turn that goes on. -/
theorem Hidden.resumed {server' : Str} {ok : Bool} (h : Hidden params server st₀ st)
    (hstep : (browser cfg).step st (.resumed server' ok) = some st') :
    Hidden params server st₀ st' := by
  simp only [browser, Browsing.step] at hstep
  split at hstep
  · next hpending =>
      obtain ⟨backend, hbackend, rfl⟩ := Option.map_eq_some_iff.mp hstep
      have hne : backend.name ≠ server := by
        rw [h.named.keyed server' backend hbackend]
        rintro rfl
        exact h.pending hpending
      refine { h with
        pending := fun hmem => h.pending (List.mem_of_mem_erase hmem)
        shown := fun name hname => ?_ }
      rcases List.mem_append.mp hname with hname | hname
      · exact h.shown name hname
      · cases ok with
        | false => simp at hname
        | true => exact split_namesOf h.named hbackend hne hname
  · simp at hstep

/-- An action of the gateway leads to no call of the server and no report on it. -/
theorem Hidden.act {a : Action} (h : Hidden params server st₀ st)
    (hstep : (browser cfg).step st (.act a) = some st') : Hidden params server st₀ st' := by
  simp only [browser, Browsing.step] at hstep
  split at hstep
  · next hallowed =>
      obtain ⟨gw, hgw, rfl⟩ := Option.map_eq_some_iff.mp hstep
      have hgw : (gateway cfg).step st.gateway a = some gw := hgw
      have harrive : ∀ r, a = .arrive r → ∀ tool, split r.name ≠ some (server, tool) := by
        rintro r rfl
        exact h.shown r.name (of_decide_eq_true hallowed)
      refine ⟨h.named.step hgw, ?_, fun i t' tool ht' hphase => ?_, h.pending, h.shown,
        fun i t' d ht' hd hserver => ?_⟩
      · obtain ⟨l, hl, htripped, hidle⟩ := h.line
        obtain ⟨l', hl', hmatch⟩ := hl.step hgw
        cases hevent : event cfg server st.gateway a with
        | none =>
            rw [hevent] at hmatch
            exact ⟨l', hl', hmatch ▸ htripped, hmatch ▸ hidle⟩
        | some e =>
            rw [hevent] at hmatch
            rcases event_cases hevent with ⟨j, rfl⟩ | ⟨now, rfl⟩ | ⟨j, d, hd, -⟩
            · exact absurd hevent (event_ne_launch j harrive h.waiting)
            · obtain ⟨-, rfl⟩ := HalfOpen.step_tick hmatch
              exact ⟨_, hl', htripped, hidle⟩
            · exact absurd (hl.inFlight.mpr ⟨d, hd, rfl⟩) (hidle j _)
      · rcases task_of_step hgw ht' with ⟨r, rfl, -, rfl⟩ | ⟨t, ht, rfl | ⟨ok, server', tool', -, -,
          rfl⟩ | ⟨result, d, -, -, -, rfl⟩ | ⟨-, -, rfl⟩⟩
        · exact harrive r rfl tool
            ((routeArrive_target cfg st.gateway.shared r).2 server tool hphase).1
        · exact h.waiting i t' tool ht hphase
        · cases ok with
          | false => simp [routeReloaded, Halt.phase] at hphase
          | true => exact (routeResolved_target cfg _ _ server' tool').2 server tool hphase
        · exact routeAnswered_phase st.gateway.shared d.server result server tool hphase
        · simp at hphase
      · rcases task_of_step hgw ht' with ⟨r, rfl, -, rfl⟩ | ⟨t, ht, rfl | ⟨ok, server', tool', -,
          hphase, rfl⟩ | ⟨result, d', -, -, -, rfl⟩ | ⟨-, -, rfl⟩⟩
        · have htarget := (routeArrive_target cfg st.gateway.shared r).1 d hd
          rw [hserver] at htarget
          exact absurd htarget (harrive r rfl d.tool)
        · exact h.earlier i t' d ht hd hserver
        · cases ok with
          | false => simp [routeReloaded, Halt.sent] at hd
          | true =>
              have htarget := ((routeResolved_target cfg _ _ server' tool').1 d hd).1
              rw [← htarget, hserver] at hphase
              exact absurd hphase (h.waiting i t tool' ht)
        · exact h.earlier i t d ht hd hserver
        · exact h.earlier i t d ht hd hserver
  · simp at hstep

/-- Out of sight, the server stays out of sight. -/
theorem Hidden.run {as : List BrowserAction} (h : Hidden params server st₀ st)
    (hrun : (browser cfg).exec st as = some st') : Hidden params server st₀ st' := by
  refine System.invariant' (fun st a st' h hstep => ?_) h hrun
  cases a with
  | turn server' => exact h.turn hstep
  | resumed server' ok => exact h.resumed hstep
  | act a => exact h.act hstep

/-- **Out of sight.** Take any state that the gateway reaches in which the circuit of a server
is tripped and no call of it is under way, among clients that know no name of it and no listing
that waits for it. However listings, calls, outcomes and clocks go on, with every request for a
name that a listing has shown: the circuit stays tripped, no listing shows a name of the server,
nor does one whose turns `aggregate_tools` takes without anything in between, and no call of it
is sent. -/
theorem hidden_forever {g₀ : Gateway} {bs : List Action} {b₀ : CircuitBreaker}
    (hinit : g₀.tasks = []) (hbreaker : g₀.shared.breaker = some b₀)
    (hrun₀ : (gateway cfg).exec g₀ bs = some st₀) (hnamed : Named st₀.shared)
    (htripped : st₀.Tripped server) (hidle : ∀ i d, ¬st₀.InFlight server i d)
    (hwaiting : ∀ (i : ℕ) (t : Task) tool, st₀.tasks[i]? = some t →
      t.phase ≠ .reloading server tool)
    {pending shown : List Str} (hpending : server ∉ pending)
    (hshown : ∀ name ∈ shown, ∀ tool, split name ≠ some (server, tool))
    {as : List BrowserAction} (hrun : (browser cfg).exec ⟨st₀, pending, shown⟩ as = some st) :
    st.gateway.Tripped server ∧
      (∀ name ∈ st.shown, ∀ tool, split name ≠ some (server, tool)) ∧
      (∀ s outcome, st.gateway.shared.Registered s →
        ∀ listed ∈ (aggregateTurn (ensureAs outcome) st.gateway.shared s).2,
          ∀ tool, split listed.name ≠ some (server, tool)) ∧
      ∀ (i : ℕ) (t : Task) d, st.gateway.tasks[i]? = some t → t.sent = some d →
        d.server = server → ∃ t₀, st₀.tasks[i]? = some t₀ ∧ t₀.sent = some d := by
  obtain ⟨l₀, hl₀⟩ := lineIs_of_run (lineIs_start hbreaker hinit server) hrun₀
  have hstart : Hidden b₀.params server st₀ ⟨st₀, pending, shown⟩ := by
    refine ⟨hnamed, ⟨l₀, hl₀, hl₀.tripped.mpr htripped, fun i a ha => ?_⟩, hwaiting, hpending,
      hshown, fun i t d ht hd _ => ⟨t, ht, hd⟩⟩
    obtain ⟨d, hd, -⟩ := hl₀.inFlight.mp ha
    exact hidle i d hd
  have hhidden := hstart.run hrun
  obtain ⟨l, hl, htripped, -⟩ := hhidden.line
  refine ⟨hl.tripped.mp htripped, hhidden.shown, fun s outcome hs listed hlisted => ?_,
    hhidden.earlier⟩
  obtain ⟨as', st', hturn, -, hshown', -⟩ := exec_turn cfg st hs outcome
  refine (hhidden.run hturn).shown listed.name ?_
  rw [hshown']
  exact List.mem_append_right _ (List.mem_map_of_mem hlisted)

end Steps

/-- The one backend of the small gateway has a name of its own. -/
theorem sampleStart_named (breaker : Option CircuitBreaker) (listed : Bool) :
    Named (sampleStart breaker listed).shared := by
  have hserver : ∀ server backend,
      dictGet server (sampleStart breaker listed).shared.backends = some backend →
        server = lit "ticket" ∧ backend.name = lit "ticket" := by
    intro server backend h
    have hmem := mem_of_dictGet h
    simp only [sampleStart, sampleBackends, List.mem_singleton, Prod.mk.injEq] at hmem
    exact ⟨hmem.1, hmem.2 ▸ rfl⟩
  constructor
  · intro server backend h
    exact (hserver server backend h).2.trans (hserver server backend h).1.symm
  · intro server h
    obtain ⟨backend, hbackend⟩ := Option.isSome_iff_exists.mp h
    rw [(hserver server backend hbackend).1]
    exact ⟨by decide, by decide⟩

/-- A breaker whose threshold is one, after a failure at time zero. -/
def openBreaker : CircuitBreaker := (CircuitBreaker.init 1 10 0).recordFailure (lit "ticket")

/-- Long after the cooldown the one backend of the small gateway is still not listed. -/
theorem hidden_forever_sample : ∃ st,
    (browser sampleSettings).exec ⟨sampleStart (some openBreaker) true, [], []⟩
      [.turn (lit "ticket"), .act (.breakerClock 1000), .turn (lit "ticket")] = some st ∧
    st.gateway.Tripped (lit "ticket") ∧
    ∀ name ∈ st.shown, ∀ tool, split name ≠ some (lit "ticket", tool) := by
  have hrun : ((browser sampleSettings).exec ⟨sampleStart (some openBreaker) true, [], []⟩
      [.turn (lit "ticket"), .act (.breakerClock 1000), .turn (lit "ticket")]).isSome = true := by
    decide +kernel
  obtain ⟨st, hst⟩ := Option.isSome_iff_exists.mp hrun
  have htripped : (sampleStart (some openBreaker) true).Tripped (lit "ticket") :=
    ⟨openBreaker, rfl, by decide +kernel⟩
  have hhidden := hidden_forever rfl rfl (System.exec_nil _) (sampleStart_named _ _) htripped
    (fun i d ⟨t, ht, _⟩ => by simp [sampleStart] at ht)
    (fun i t tool ht => by simp [sampleStart] at ht)
    List.not_mem_nil (fun name hname => absurd hname List.not_mem_nil) hst
  exact ⟨st, hst, hhidden.1, hhidden.2.1⟩

end AgentOpsGateway
