import AgentOpsGateway.Mediation

/-!
# Listing the Tools

`aggregate_tools` answers `tools/list`: it goes through the backends in the order of their
registration, leaves out those whose circuit is tripped, tries once to connect to those
never listed, and advertises the tools of the others under their prefixed names.

Its `await backend.ensure_session()` gives up control, so whatever other tasks do happens
there: `ensure` takes the state before the await to the state after it.

## Main results

* `aggregateFrom_spec`: what is advertised is what the backends offer, under joined names.
* `listing_agrees`: **listing and calling agree** — an advertised name is taken apart into
  the backend and the tool that advertise it and gets a call past `UNKNOWN_TOOL` to them,
  and what gets past it on a listed backend is advertised.
-/

namespace AgentOpsGateway

open Python

/-- `breaker is not None and breaker.is_tripped(name)`. -/
def Shared.isTripped (g : Shared) (name : Str) : Bool :=
  match g.breaker with
  | none => false
  | some b => b.isTripped name

/-- One turn of the loop, on the backend registered as `server`: the state after it and the
tools it adds. -/
def aggregateTurn (ensure : Shared → Str → Shared × Bool) (g : Shared) (server : Str) :
    Shared × List Tool :=
  match dictGet server g.backends with
  | none => (g, [])
  | some backend =>
    if g.isTripped backend.name then (g, [])
    else
      match backend.tools with
      | some tools => (g, prefixed backend.name tools)
      | none =>
        let (g', ok) := ensure g server
        if ok then (g', prefixed backend.name ((g'.toolsOf server).getD [])) else (g', [])

/-- The loop over the servers that are left. -/
def aggregateFrom (ensure : Shared → Str → Shared × Bool) :
    List Str → Shared → Shared × List Tool
  | [], g => (g, [])
  | server :: servers, g =>
    let (g, out) := aggregateTurn ensure g server
    let (g, rest) := aggregateFrom ensure servers g
    (g, out ++ rest)

/-- `aggregate_tools(backends, breaker)`. -/
def aggregateTools (ensure : Shared → Str → Shared × Bool) (g : Shared) : Shared × List Tool :=
  aggregateFrom ensure (g.backends.map Prod.fst) g

/-! ### What other tasks leave as it is -/

/-- The server is registered. -/
def Shared.Registered (g : Shared) (server : Str) : Prop := (dictGet server g.backends).isSome

/-- Every backend is registered under its own name. -/
def Shared.Keyed (g : Shared) : Prop :=
  ∀ server backend, dictGet server g.backends = some backend → backend.name = server

/-- No circuit is tripped. -/
def Shared.Untripped (g : Shared) : Prop := ∀ server, g.isTripped server = false

/-- The server lists the tool. -/
def Shared.Offers (g : Shared) (server : Str) (tool : Tool) : Prop :=
  ∃ tools, g.toolsOf server = some tools ∧ tool ∈ tools

/-- From one state to a later one: the registrations and the lists of tools are the same,
but for lists that were missing, and no circuit has tripped. -/
structure Keeps (g g' : Shared) : Prop where
  registered : ∀ server, g'.Registered server ↔ g.Registered server
  keyed : g.Keyed → g'.Keyed
  tools : ∀ server tools, g.toolsOf server = some tools → g'.toolsOf server = some tools
  untripped : g.Untripped → g'.Untripped

theorem Keeps.refl (g : Shared) : Keeps g g :=
  ⟨fun _ => Iff.rfl, id, fun _ _ => id, id⟩

theorem Keeps.trans {g g' g'' : Shared} (h : Keeps g g') (h' : Keeps g' g'') : Keeps g g'' :=
  ⟨fun server => (h'.registered server).trans (h.registered server),
    fun hk => h'.keyed (h.keyed hk),
    fun server tools ht => h'.tools server tools (h.tools server tools ht),
    fun hu => h'.untripped (h.untripped hu)⟩

/-- What is offered stays offered. -/
theorem Keeps.offers {g g' : Shared} (h : Keeps g g') {server : Str} {tool : Tool}
    (hoffers : g.Offers server tool) : g'.Offers server tool := by
  obtain ⟨tools, htools, hmem⟩ := hoffers
  exact ⟨tools, h.tools server tools htools, hmem⟩

/-- Every await of the loop keeps what is listed. -/
def Quiet (ensure : Shared → Str → Shared × Bool) : Prop :=
  ∀ g server, Keeps g (ensure g server).1

/-! ### What is advertised -/

/-- The tool as a server advertises it. -/
def advertised (p : Str × Tool) : Tool := { p.2 with name := join p.1 p.2.name }

section Loop

variable {ensure : Shared → Str → Shared × Bool} {g : Shared}

/-- **One turn** advertises tools the server offers, all of them where they were listed. -/
theorem aggregateTurn_spec (hquiet : Quiet ensure) (hkeyed : g.Keyed) (huntripped : g.Untripped)
    (server : Str) :
    Keeps g (aggregateTurn ensure g server).1 ∧ ∃ tools,
      (aggregateTurn ensure g server).2 = tools.map (fun tool => advertised (server, tool)) ∧
      (∀ tool ∈ tools, (aggregateTurn ensure g server).1.Offers server tool) ∧
      ∀ listed, g.toolsOf server = some listed → tools = listed := by
  simp only [aggregateTurn]
  cases hbackend : dictGet server g.backends with
  | none => exact ⟨.refl g, [], rfl, by simp, by simp [Shared.toolsOf, hbackend]⟩
  | some backend =>
      have hname := hkeyed server backend hbackend
      simp only [huntripped backend.name, Bool.false_eq_true, if_false]
      cases htools : backend.tools with
      | some tools =>
          have hlisted : g.toolsOf server = some tools := by simp [Shared.toolsOf, hbackend, htools]
          refine ⟨.refl g, tools, ?_, fun tool hmem => ⟨tools, hlisted, hmem⟩, fun listed h => ?_⟩
          · simp [prefixed, advertised, hname]
          · exact Option.some.inj (hlisted.symm.trans h)
      | none =>
          have hunlisted : g.toolsOf server = none := by simp [Shared.toolsOf, hbackend, htools]
          have hkeeps := hquiet g server
          cases hok : (ensure g server).2 with
          | false => exact ⟨by simpa [hok] using hkeeps, [], by simp, by simp, by simp [hunlisted]⟩
          | true =>
              refine ⟨by simpa [hok] using hkeeps, ((ensure g server).1.toolsOf server).getD [],
                ?_, ?_, by simp [hunlisted]⟩
              · simp [prefixed, advertised, hname]
              · simp only [if_true]
                cases hafter : (ensure g server).1.toolsOf server with
                | none => simp
                | some tools => exact fun tool hmem => ⟨tools, hafter, hmem⟩

/-- **The loop** advertises what the servers offer: everything that was listed before it,
under the joined names. Induction on the servers that are left. -/
theorem aggregateFrom_spec (hquiet : Quiet ensure) (servers : List Str) :
    ∀ {g : Shared}, g.Keyed → g.Untripped →
      Keeps g (aggregateFrom ensure servers g).1 ∧ ∃ pairs : List (Str × Tool),
        (aggregateFrom ensure servers g).2 = pairs.map advertised ∧
        (∀ p ∈ pairs, (aggregateFrom ensure servers g).1.Offers p.1 p.2) ∧
        ∀ server ∈ servers, ∀ tool, g.Offers server tool → (server, tool) ∈ pairs := by
  induction servers with
  | nil => exact fun _ _ => ⟨.refl _, [], rfl, by simp, by simp⟩
  | cons server servers ih =>
      intro g hkeyed huntripped
      obtain ⟨hkeeps, tools, hout, hoffers, hlisted⟩ :=
        aggregateTurn_spec hquiet hkeyed huntripped server
      obtain ⟨hkeeps', pairs, hout', hoffers', hlisted'⟩ :=
        ih (hkeeps.keyed hkeyed) (hkeeps.untripped huntripped)
      refine ⟨hkeeps.trans hkeeps', tools.map (fun tool => (server, tool)) ++ pairs, ?_, ?_, ?_⟩
      · simp [aggregateFrom, hout, hout']
      · intro p hp
        rcases List.mem_append.mp hp with hp | hp
        · obtain ⟨tool, htool, rfl⟩ := List.mem_map.mp hp
          exact hkeeps'.offers (hoffers tool htool)
        · exact hoffers' p hp
      · intro server' hserver' tool hoffer
        rcases List.mem_cons.mp hserver' with rfl | hserver'
        · obtain ⟨listed, hl, hmem⟩ := hoffer
          exact List.mem_append_left _ (List.mem_map.mpr ⟨tool, hlisted listed hl ▸ hmem, rfl⟩)
        · exact List.mem_append_right _ (hlisted' server' hserver' tool (hkeeps.offers hoffer))

end Loop

/-! ### What a call resolves to -/

section Resolution

variable {cfg : Settings} {g : Shared} {r : Request} {server tool : Str} {tools : List Tool}

/-- A tool that is offered is known. -/
theorem isKnown_of_offers {t : Tool} (h : g.Offers server t) : isKnown g server t.name = true := by
  obtain ⟨tools, htools, hmem⟩ := h
  simp only [isKnown, htools, Option.getD_some, decide_eq_true_eq]
  exact List.mem_map_of_mem hmem

/-- Taking a token leaves what is known as it is. -/
theorem isKnown_takeToken (g : Shared) (agent server tool : Str) :
    isKnown (g.takeToken agent).2 server tool = isKnown g server tool := by
  unfold isKnown Shared.toolsOf
  rw [(takeToken_snd g agent).1]

/-- A known tool is not answered with `UNKNOWN_TOOL`. -/
theorem ne_unknownTool_of_isKnown (hknown : isKnown g server tool = true) (name : Str) :
    (routeResolved cfg g r server tool).2 ≠ unknownTool name := by
  have hmem : tool ∈ ((g.toolsOf server).getD []).map Tool.name := of_decide_eq_true hknown
  simp only [routeResolved, unknownTool]
  rw [if_neg (not_not.mpr hmem)]
  cases cfg.policy.evaluate cfg.py r.agent server tool r.arguments with
  | error e => simp
  | ok d =>
      cases hallowed : d.allowed with
      | false => simp [hallowed]
      | true =>
          cases hcircuit : (g.allowCircuit server).1 with
          | true => simp [hallowed]
          | false =>
              simp only [hallowed, if_true, Bool.false_eq_true, if_false]
              intro h
              have hcode := code_eq_of_errorResult_eq (field_ne_code (by decide))
                (field_ne_code (by decide)) (Halt.ret.inj h).1
              simp at hcode

/-- What is not answered with `UNKNOWN_TOOL` is a known tool. -/
theorem isKnown_of_ne_unknownTool (h : (routeResolved cfg g r server tool).2 ≠ unknownTool r.name) :
    isKnown g server tool = true := by
  by_contra hunknown
  have hmem : tool ∉ ((g.toolsOf server).getD []).map Tool.name := fun hmem =>
    hunknown (decide_eq_true hmem)
  exact h (by rw [routeResolved, if_pos hmem])

/-- **A call of an offered tool** gets past `UNKNOWN_TOOL`, to the server that offers it. -/
theorem resolved_of_offers {t : Tool} (hoffer : g.Offers server t)
    (htarget : split r.name = some (server, t.name)) (htoken : (g.takeToken r.agent).1 = true) :
    routeArrive cfg g r = routeResolved cfg (g.takeToken r.agent).2 r server t.name ∧
      (routeArrive cfg g r).2 ≠ unknownTool r.name := by
  have ⟨tools, htools, _⟩ := hoffer
  rw [routeArrive_listed htoken htarget htools]
  refine ⟨rfl, ne_unknownTool_of_isKnown ?_ r.name⟩
  rw [isKnown_takeToken]
  exact isKnown_of_offers hoffer

/-- A call of a listed backend that gets past `UNKNOWN_TOOL` names a tool that is offered. -/
theorem offers_of_resolved (htarget : split r.name = some (server, tool))
    (htoken : (g.takeToken r.agent).1 = true) (hlisted : g.toolsOf server = some tools)
    (hresolved : (routeArrive cfg g r).2 ≠ unknownTool r.name) :
    ∃ t ∈ tools, t.name = tool := by
  rw [routeArrive_listed htoken htarget hlisted] at hresolved
  have hknown := isKnown_of_ne_unknownTool hresolved
  rw [isKnown_takeToken] at hknown
  simpa only [isKnown, hlisted, Option.getD_some, decide_eq_true_eq, List.mem_map] using hknown

end Resolution

/-- **Listing and calling agree.** For backends registered under their own names, none of
which holds a separator or ends in an underscore, and no tripped circuit: what is
advertised is taken apart into the server and the tool that offer it, different ones under
different names, and all that was listed is among it. A call of an advertised name gets
past `UNKNOWN_TOOL` to exactly that server and tool, in every later state that keeps the
lists; and a name that gets past it on a listed backend is advertised. -/
theorem listing_agrees (cfg : Settings) {ensure : Shared → Str → Shared × Bool}
    (hquiet : Quiet ensure) {g : Shared} (hkeyed : g.Keyed) (huntripped : g.Untripped)
    (hnames : ∀ server, g.Registered server → Unambiguous server) :
    let (after, out) := aggregateTools ensure g
    (∃ pairs : List (Str × Tool), out = pairs.map advertised ∧
      (out.map fun t => split t.name) = pairs.map (fun p => some (p.1, p.2.name)) ∧
      (∀ p ∈ pairs, ∀ q ∈ pairs, (advertised p).name = (advertised q).name →
        (p.1, p.2.name) = (q.1, q.2.name)) ∧
      (∀ server tool, g.Offers server tool → (server, tool) ∈ pairs) ∧
      ∀ p ∈ pairs, after.Offers p.1 p.2 ∧ ∀ later, Keeps after later →
        ∀ r : Request, r.name = (advertised p).name → (later.takeToken r.agent).1 = true →
          routeArrive cfg later r =
            routeResolved cfg (later.takeToken r.agent).2 r p.1 p.2.name ∧
          (routeArrive cfg later r).2 ≠ unknownTool r.name) ∧
    ∀ later, Keeps g later → ∀ (r : Request) server tool, (later.takeToken r.agent).1 = true →
      split r.name = some (server, tool) → (g.toolsOf server).isSome →
      (routeArrive cfg later r).2 ≠ unknownTool r.name → ∃ t ∈ out, t.name = r.name := by
  obtain ⟨hkeeps, pairs, hout, hoffers, hlisted⟩ :=
    aggregateFrom_spec hquiet (g.backends.map Prod.fst) hkeyed huntripped
  have hall : ∀ server tool, g.Offers server tool → (server, tool) ∈ pairs := by
    rintro server tool ⟨tools, htools, hmem⟩
    obtain ⟨backend, hbackend, -⟩ := Option.bind_eq_some_iff.mp htools
    exact hlisted server (List.mem_map.mpr ⟨_, mem_of_dictGet hbackend, rfl⟩) tool
      ⟨tools, htools, hmem⟩
  have hsplit : ∀ p ∈ pairs, split (advertised p).name = some (p.1, p.2.name) := by
    intro p hp
    obtain ⟨tools, htools, -⟩ := hoffers p hp
    obtain ⟨backend, hbackend, -⟩ := Option.bind_eq_some_iff.mp htools
    refine split_join (hnames p.1 ((hkeeps.registered p.1).mp ?_)) p.2.name
    exact Option.isSome_iff_exists.mpr ⟨backend, hbackend⟩
  refine ⟨⟨pairs, hout, ?_, ?_, hall, fun p hp => ⟨hoffers p hp, ?_⟩⟩, ?_⟩
  · rw [hout, List.map_map]
    exact List.map_congr_left hsplit
  · intro p hp q hq hname
    exact Option.some.inj ((hsplit p hp).symm.trans ((congrArg split hname).trans (hsplit q hq)))
  · intro later hlater r hname htoken
    exact resolved_of_offers (hlater.offers (hoffers p hp)) (hname ▸ hsplit p hp) htoken
  · intro later hlater r server tool htoken htarget hloaded hresolved
    obtain ⟨tools, htools⟩ := Option.isSome_iff_exists.mp hloaded
    obtain ⟨t, ht, rfl⟩ :=
      offers_of_resolved htarget htoken (hlater.tools server tools htools) hresolved
    refine ⟨advertised (server, t), ?_, join_of_split htarget⟩
    rw [hout]
    exact List.mem_map_of_mem (hall server t ⟨tools, htools, ht⟩)

/-- Listing the tools of a backend that had none keeps everything else. -/
theorem keeps_load {g : Shared} {server : Str} (hunlisted : g.toolsOf server = none)
    (tools : List Tool) : Keeps g (g.load server tools) where
  registered key := by simp [Shared.Registered, Shared.dictGet_load]
  keyed hkeyed key backend hbackend := by
    rw [Shared.dictGet_load, Option.map_eq_some_iff] at hbackend
    obtain ⟨b, hb, rfl⟩ := hbackend
    have := hkeyed key b hb
    split_ifs
    · exact this
    · exact this
  tools key listed hlisted := by
    have hne : key ≠ server := by
      rintro rfl
      simp [hunlisted] at hlisted
    simpa [Shared.toolsOf, Shared.dictGet_load, hne] using hlisted
  untripped huntripped := huntripped

/-- An `ensure_session` that connects: the backend lists its one tool, if it had none. -/
def sampleEnsure (g : Shared) (server : Str) : Shared × Bool :=
  if (g.toolsOf server).isSome then (g, true)
  else (g.load server [⟨lit "create_ticket", []⟩], true)

theorem sampleEnsure_quiet : Quiet sampleEnsure := by
  intro g server
  simp only [sampleEnsure]
  split_ifs with hlisted
  · exact .refl g
  · exact keeps_load (Option.not_isSome_iff_eq_none.mp hlisted) _

/-- The backend `ticket`, never listed, and a backend of a tool with separators in its name. -/
def twoBackends : Shared :=
  ⟨none, none, [(lit "ticket", ⟨lit "ticket", none⟩),
    (lit "log_ops", ⟨lit "log_ops", some [⟨lit "__query__logs_", []⟩]⟩)]⟩

/-- The tools of both are advertised, and a name is taken apart at its first separator. -/
theorem listing_agrees_sample :
    let (after, out) := aggregateTools sampleEnsure twoBackends
    (∃ pairs : List (Str × Tool), out = pairs.map advertised ∧
      (out.map fun t => split t.name) = pairs.map (fun p => some (p.1, p.2.name)) ∧
      ∀ p ∈ pairs, after.Offers p.1 p.2) ∧
    out.map Tool.name = [lit "ticket__create_ticket", lit "log_ops____query__logs_"] ∧
    (out.map fun t => split t.name) =
      [some (lit "ticket", lit "create_ticket"), some (lit "log_ops", lit "__query__logs_")] := by
  have hserver : ∀ server backend, dictGet server twoBackends.backends = some backend →
      (server = lit "ticket" ∨ server = lit "log_ops") ∧ backend.name = server := by
    intro server backend h
    have hmem := mem_of_dictGet h
    simp only [twoBackends, List.mem_cons, List.not_mem_nil, or_false, Prod.mk.injEq] at hmem
    obtain ⟨rfl, rfl⟩ | ⟨rfl, rfl⟩ := hmem
    · exact ⟨.inl rfl, rfl⟩
    · exact ⟨.inr rfl, rfl⟩
  have hkeyed : twoBackends.Keyed := fun server backend h => (hserver server backend h).2
  have hnames : ∀ server, twoBackends.Registered server → Unambiguous server := by
    intro server h
    obtain ⟨backend, hbackend⟩ := Option.isSome_iff_exists.mp h
    obtain ⟨rfl | rfl, -⟩ := hserver server backend hbackend
    · exact ⟨by decide, by decide⟩
    · exact ⟨by decide, by decide⟩
  obtain ⟨⟨pairs, hout, hsplit, -, -, hpairs⟩, -⟩ :=
    listing_agrees sampleSettings sampleEnsure_quiet hkeyed (fun _ => rfl) hnames
  exact ⟨⟨pairs, hout, hsplit, fun p hp => (hpairs p hp).1⟩, by decide, by decide⟩

end AgentOpsGateway
