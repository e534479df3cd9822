import AgentOpsGateway.Line

/-!
# What the Breaker Promises About Half-Open Probes

`record_success` and `record_failure` do not say which call they report, and nothing
reports a call that is cancelled. The three promises of the breaker hold exactly as far as
this does no harm, on every interleaving of requests:

* one probe at a time — as long as no call that is not a probe reports while a probe is in
  flight;
* an open circuit stays open until a probe succeeds — as long as no call that was already
  in flight when the circuit opened succeeds while it is open;
* the probe slot is not leaked — as long as the last probe of a taken slot is not ended
  without a report.

## Main results

* `single_probe`, `staysOpen_iff`, `slotKept_iff`: **the exact conditions**.
* `single_probe_fails`, `staysOpen_fails`, `slotKept_fails`: runs on which each promise is
  broken.
-/

namespace AgentOpsGateway

open Python Transition

/-! ### Reports and ends of calls -/

/-- The action reports the call of a task as a success. -/
def Succeeds (cfg : Settings) (a : Action) (i : ℕ) : Prop :=
  ∃ result relay, a = .answered i result ∧ relayDecision cfg.py result = .ok relay ∧
    relay ≠ .error

/-- The action reports the call of a task as a failure. -/
def Fails (cfg : Settings) (a : Action) (i : ℕ) : Prop :=
  ∃ result, a = .answered i result ∧ relayDecision cfg.py result = .ok .error

/-- The action ends the call of a task without a report: its await is aborted, or the
segment after it raises. -/
def EndsUnreported (cfg : Settings) (a : Action) (i : ℕ) : Prop :=
  a = .abort i ∨ ∃ result e, a = .answered i result ∧ relayDecision cfg.py result = .error e

section Events

variable {cfg : Settings} {server : Str} {st : Gateway} {a : Action} {i : ℕ}

/-- The event of an answer to a call in flight. -/
theorem event_answered {result : CallToolResult} {adm : HalfOpen.Admission ℚ}
    (hcall : callsTo server st.tasks i = .inFlight adm) :
    event cfg server st (.answered i result) =
      match relayDecision cfg.py result with
      | .ok .error => some (.fail i)
      | .ok _ => some (.succeed i)
      | .error _ => some (.drop i) := by
  simp only [event, hcall]
  rcases relayDecision cfg.py result with e | relay
  · rfl
  · cases relay <;> rfl

/-- An event is about a call in flight, or it is an admission or a tick. -/
theorem event_answered_of_not_inFlight {result : CallToolResult}
    (hcall : ∀ adm, callsTo server st.tasks i ≠ .inFlight adm) :
    event cfg server st (.answered i result) = none := by
  simp only [event]
  cases h : callsTo server st.tasks i with
  | inFlight adm => exact absurd h (hcall adm)
  | before | ended => rfl

theorem admission_ne {j : ℕ} {h : Halt} {e : HalfOpen.Event ℕ ℚ}
    (he : admission server j h = some e) : e = .launch j := by
  cases h with
  | call d =>
      simp only [admission] at he
      split at he
      · exact (Option.some.inj he).symm
      · simp at he
  | reload _ _ | ret _ _ | raise _ => simp [admission] at he

/-- **The actions behind the events**: an event that ends a call is about a call in flight
to the server. -/
theorem event_cases {e : HalfOpen.Event ℕ ℚ} (he : event cfg server st a = some e) :
    (∃ j, e = .launch j) ∨ (∃ now, e = .tick now) ∨
    ∃ j d, st.InFlight server j d ∧
      (e = .succeed j ∧ Succeeds cfg a j ∨ e = .fail j ∧ Fails cfg a j ∨
        e = .drop j ∧ EndsUnreported cfg a j) := by
  cases a with
  | arrive r => exact Or.inl ⟨_, admission_ne he⟩
  | reloaded j ok =>
      simp only [event] at he
      split at he
      · split at he
        · exact Or.inl ⟨_, admission_ne he⟩
        · simp at he
      · simp at he
  | answered j result =>
      by_cases hcall : ∃ adm, callsTo server st.tasks j = .inFlight adm
      · obtain ⟨adm, hcall⟩ := hcall
        obtain ⟨d, hd, -⟩ := callsTo_inFlight.mp hcall
        refine Or.inr (Or.inr ⟨j, d, hd, ?_⟩)
        rw [event_answered hcall] at he
        cases hrelay : relayDecision cfg.py result with
        | error r =>
            rw [hrelay] at he
            exact Or.inr (Or.inr ⟨(Option.some.inj he).symm, Or.inr ⟨result, r, rfl, hrelay⟩⟩)
        | ok relay =>
            rw [hrelay] at he
            by_cases herror : relay = .error
            · subst herror
              exact Or.inr (Or.inl ⟨(Option.some.inj he).symm, result, rfl, hrelay⟩)
            · have hsucceed : e = .succeed j := by
                cases relay with
                | error => exact absurd rfl herror
                | allowed | denied | authFailed | rateLimited => exact (Option.some.inj he).symm
              exact Or.inl ⟨hsucceed, result, relay, rfl, hrelay, herror⟩
      · rw [event_answered_of_not_inFlight (fun adm h => hcall ⟨adm, h⟩)] at he
        simp at he
  | abort j =>
      simp only [event] at he
      split at he
      · next adm hcall =>
          obtain ⟨d, hd, -⟩ := callsTo_inFlight.mp hcall
          exact Or.inr (Or.inr ⟨j, d, hd, Or.inr (Or.inr ⟨(Option.some.inj he).symm, Or.inl rfl⟩)⟩)
      · simp at he
  | load server' tools => simp [event] at he
  | limiterClock now => simp [event] at he
  | breakerClock now => exact Or.inr (Or.inl ⟨now, (Option.some.inj he).symm⟩)

/-- A reported success is an event of the server the call is in flight to. -/
theorem event_of_succeeds {d : Dispatch} (ha : Succeeds cfg a i) (hd : st.InFlight server i d) :
    event cfg server st a = some (.succeed i) := by
  obtain ⟨result, relay, rfl, hrelay, hne⟩ := ha
  rw [event_answered (callsTo_inFlight.mpr ⟨d, hd, rfl⟩), hrelay]
  cases relay with
  | error => exact absurd rfl hne
  | allowed | denied | authFailed | rateLimited => rfl

/-- An unreported end is an event of the server the call is in flight to. -/
theorem event_of_endsUnreported {d : Dispatch} (ha : EndsUnreported cfg a i)
    (hd : st.InFlight server i d) : event cfg server st a = some (.drop i) := by
  have hcall := callsTo_inFlight.mpr ⟨d, hd, rfl⟩
  rcases ha with rfl | ⟨result, e, rfl, hrelay⟩
  · simp only [event, hcall]
  · rw [event_answered hcall, hrelay]

/-- An action reports at most one call. -/
theorem Succeeds.unique {j : ℕ} (hi : Succeeds cfg a i) (hj : Succeeds cfg a j) : i = j := by
  obtain ⟨result, relay, rfl, -⟩ := hi
  obtain ⟨result', relay', heq, -⟩ := hj
  exact (Action.answered.inj heq).1

end Events

/-! ### One probe at a time -/

/-- A call that is not a probe reports while a probe of its server is in flight. -/
def StaleReport (cfg : Settings) (server : Str) (st : Gateway) (a : Action) : Prop :=
  ∃ i, (Succeeds cfg a i ∨ Fails cfg a i) ∧
    (∃ d, st.InFlight server i d ∧ d.probe = false) ∧ ∃ j, st.Probes server j

/-- **At most one probe of a server is in flight** in every state that a run without stale
reports reaches, whatever the breaker's settings and its state at the start. -/
theorem single_probe {cfg : Settings} {st₀ st : Gateway} {as : List Action} {b : CircuitBreaker}
    {server : Str} (hinit : st₀.tasks = []) (hb : st₀.shared.breaker = some b)
    (hrun : (gateway cfg).exec st₀ as = some st)
    (hfresh : (gateway cfg).Each (fun st a => ¬StaleReport cfg server st a) st₀ as) :
    ∀ i j, st.Probes server i → st.Probes server j → i = j := by
  have hstart := lineIs_start hb hinit server
  have hnone : ∀ i, ¬(st₀.line b server).Probes i := by
    intro i hi
    obtain ⟨d, ⟨t, ht, -⟩, -⟩ := hstart.probes.mp hi
    simp [hinit] at ht
  -- a stale report of the protocol is one of the gateway
  have hstale : ∀ st a l e, LineIs b.params server st l → ¬StaleReport cfg server st a →
      event cfg server st a = some e → ¬HalfOpen.StaleReport l e := by
    rintro st a l e hl hnot he ⟨i, hreport, hprobe, j, hj⟩
    rcases event_cases he with ⟨k, rfl⟩ | ⟨now, rfl⟩ | ⟨k, d, hd, hend⟩
    · simp at hreport
    · simp at hreport
    · have hdprobe : k = i → d.probe = false := by
        rintro rfl
        cases hp : d.probe with
        | false => rfl
        | true => exact absurd (hl.probes.mpr ⟨d, hd, hp⟩) hprobe
      rcases hend with ⟨rfl, hk⟩ | ⟨rfl, hk⟩ | ⟨rfl, -⟩
      · obtain rfl : k = i := by simpa using hreport
        exact hnot ⟨k, Or.inl hk, ⟨d, hd, hdprobe rfl⟩, j, hl.probes.mp hj⟩
      · obtain rfl : k = i := by simpa using hreport
        exact hnot ⟨k, Or.inr hk, ⟨d, hd, hdprobe rfl⟩, j, hl.probes.mp hj⟩
      · simp at hreport
  obtain ⟨es, l, hes, hl, hfresh'⟩ :=
    (gateway_simulates cfg b.params server).run hstale hstart hfresh hrun
  have hone := (HalfOpen.OneProbe.of_forall_not hnone).run hfresh' hes
  exact fun i j hi hj => hone.unique i j (hl.probes.mpr hi) (hl.probes.mpr hj)

/-- A breaker whose circuit for `ticket` opened at time 0 and has cooled down. -/
def cooledBreaker : CircuitBreaker :=
  { (CircuitBreaker.init 1 10 0).recordFailure (lit "ticket") with now := 10 }

/-- Of two requests that arrive after the cooldown, the first is the only probe. -/
theorem single_probe_sample : ∃ st,
    (gateway sampleSettings).exec (sampleStart (some cooledBreaker) true)
      [.arrive sampleRequest, .arrive sampleRequest] = some st ∧
    st.Probes (lit "ticket") 0 ∧ ∀ i, st.Probes (lit "ticket") i → i = 0 := by
  have hrun : ((gateway sampleSettings).exec (sampleStart (some cooledBreaker) true)
      [.arrive sampleRequest, .arrive sampleRequest]).any
        (fun st => (callsTo (lit "ticket") st.tasks 0).isProbe) = true := by decide +kernel
  obtain ⟨st, hst, hprobe⟩ := (Option.any_eq_true _ _).mp hrun
  have hzero := Gateway.probes_iff.mpr hprobe
  refine ⟨st, hst, hzero, fun i hi => single_probe rfl rfl hst ?_ i 0 hi hzero⟩
  simp [System.Each, StaleReport, Succeeds, Fails]

/-- The answer of a call to a backend that cannot be reached. -/
def sampleOutage : CallToolResult := backendUnavailable (lit "ticket")

/-- Two calls go out, the first fails and opens the circuit; a probe goes out after the
cooldown; then the second call fails, which frees the probe slot and restarts the timer, so
that after another cooldown a second probe goes out beside the first. -/
def staleFailureRun : List Action :=
  [.arrive sampleRequest, .arrive sampleRequest, .answered 0 sampleOutage, .breakerClock 10,
    .arrive sampleRequest, .answered 1 sampleOutage, .breakerClock 20, .arrive sampleRequest]

/-- **Two probes in flight**: without a condition on the reports the promise is broken. -/
theorem single_probe_fails : ¬∀ (cfg : Settings) (st₀ st : Gateway) (as : List Action)
    (b : CircuitBreaker) (server : Str), st₀.tasks = [] → st₀.shared.breaker = some b →
    1 ≤ b.threshold → (gateway cfg).exec st₀ as = some st →
    ∀ i j, st.Probes server i → st.Probes server j → i = j := by
  intro hclaim
  have hrun : ((gateway sampleSettings).exec (sampleStart (some (.init 1 10 0)) true)
      staleFailureRun).any (fun st => (callsTo (lit "ticket") st.tasks 2).isProbe &&
        (callsTo (lit "ticket") st.tasks 3).isProbe) = true := by decide +kernel
  obtain ⟨st, hst, hprobes⟩ := (Option.any_eq_true _ _).mp hrun
  simp only [Bool.and_eq_true] at hprobes
  have h := hclaim _ _ st _ _ (lit "ticket") rfl rfl le_rfl hst 2 3
    (Gateway.probes_iff.mpr hprobes.1) (Gateway.probes_iff.mpr hprobes.2)
  omega

/-! ### An open circuit stays open -/

/-- On the run from `st₀` the circuit of the server opens with the step into `st₂`, and
after `bs` the run takes the step `a` from `st₃` to `st₄`. -/
def Episode (cfg : Settings) (server : Str) (st₀ : Gateway) (as : List Action) (st₂ : Gateway)
    (bs : List Action) (st₃ : Gateway) (a : Action) (st₄ : Gateway) : Prop :=
  ∃ as₁ o cs st₁, as = as₁ ++ o :: (bs ++ a :: cs) ∧ (gateway cfg).exec st₀ as₁ = some st₁ ∧
    (gateway cfg).step st₁ o = some st₂ ∧ ¬st₁.Tripped server ∧ st₂.Tripped server ∧
    (gateway cfg).exec st₂ bs = some st₃ ∧ (gateway cfg).step st₃ a = some st₄

/-- After each opening of the circuit no call starts before the cooldown is over, and the
first step that closes it is the success of a probe admitted since, after the cooldown. -/
def StaysOpen (cfg : Settings) (server : Str) (cooldown : ℚ) (st₀ : Gateway)
    (as : List Action) : Prop :=
  ∀ st₂ bs st₃ a st₄, Episode cfg server st₀ as st₂ bs st₃ a st₄ →
    (∀ i d, st₄.InFlight server i d → (∀ d', ¬st₃.InFlight server i d') →
      st₂.clock + cooldown ≤ d.time) ∧
    ((gateway cfg).Always (fun st => st.Tripped server) st₂ bs → ¬st₄.Tripped server →
      ∃ i d, Succeeds cfg a i ∧ st₃.InFlight server i d ∧ d.probe = true ∧
        st₂.clock + cooldown ≤ d.time ∧ ∀ d', ¬st₂.InFlight server i d')

/-- No call that was in flight when the circuit opened succeeds while it has stayed open. -/
def NoLateSuccess (cfg : Settings) (server : Str) (st₀ : Gateway) (as : List Action) : Prop :=
  ∀ st₂ bs st₃ a st₄, Episode cfg server st₀ as st₂ bs st₃ a st₄ →
    (gateway cfg).Always (fun st => st.Tripped server) st₂ bs →
    ¬∃ i d d', Succeeds cfg a i ∧ st₂.InFlight server i d ∧ st₃.InFlight server i d'

section StaysOpen

variable {cfg : Settings} {params : HalfOpen.Params ℚ} {server : Str} {st₁ st₂ st₃ st₄ : Gateway}
  {l₁ l₂ l₃ l₄ : HalfOpen.Line ℕ ℚ} {o a : Action}

/-- The clock of the breaker never runs back. -/
theorem LineIs.clock_le (hl₃ : LineIs params server st₃ l₃)
    (hstep : (gateway cfg).step st₃ a = some st₄) : st₃.clock ≤ st₄.clock := by
  obtain ⟨l₄, hl₄, hmatch⟩ := hl₃.step hstep
  rw [← hl₃.clock, ← hl₄.clock]
  cases hevent : event cfg server st₃ a with
  | none =>
      simp only [hevent, Matches] at hmatch
      rw [hmatch]
  | some e =>
      simp only [hevent, Matches] at hmatch
      exact HalfOpen.now_le_of_step hmatch

/-- A call that starts does so by an admission, now. -/
theorem LineIs.started (hl₃ : LineIs params server st₃ l₃) (hl₄ : LineIs params server st₄ l₄)
    (hmatch : Matches params l₃ l₄ (event cfg server st₃ a)) {i : ℕ} {d : Dispatch}
    (h₄ : st₄.InFlight server i d) (h₃ : ∀ d', ¬st₃.InFlight server i d') :
    d.time = l₃.now ∧ HalfOpen.step params l₃ (.launch i) = some l₄ := by
  have hin := hl₄.inFlight.mpr ⟨d, h₄, rfl⟩
  have hout : l₃.calls i ≠ .inFlight ⟨d.probe, d.time⟩ := fun h => by
    obtain ⟨d', hd', -⟩ := hl₃.inFlight.mp h
    exact h₃ d' hd'
  cases hevent : event cfg server st₃ a with
  | none =>
      simp only [hevent, Matches] at hmatch
      exact absurd (hmatch ▸ hin) hout
  | some e =>
      simp only [hevent, Matches] at hmatch
      rcases HalfOpen.inFlight_of_step hmatch hin with h | ⟨rfl, htime⟩
      · exact absurd h hout
      · exact ⟨htime, hmatch⟩

/-- The circuit that has just opened is open. -/
theorem LineIs.opened (hl₁ : LineIs params server st₁ l₁) (hl₂ : LineIs params server st₂ l₂)
    (hmatch : Matches params l₁ l₂ (event cfg server st₁ o)) (h₁ : ¬st₁.Tripped server)
    (h₂ : st₂.Tripped server) : HalfOpen.Open params l₂ l₂ := by
  rw [← hl₁.tripped] at h₁
  rw [← hl₂.tripped] at h₂
  cases hevent : event cfg server st₁ o with
  | none =>
      simp only [hevent, Matches] at hmatch
      exact absurd (hmatch ▸ h₂) h₁
  | some e =>
      simp only [hevent, Matches] at hmatch
      exact HalfOpen.open_of_trip hmatch h₁ h₂

/-- **One step of an open circuit**: it stays open, or a call in flight succeeds that was in
flight at the opening, or is a probe admitted after the cooldown. -/
theorem LineIs.openStep (hl₂ : LineIs params server st₂ l₂) (hl₃ : LineIs params server st₃ l₃)
    (hmatch : Matches params l₃ l₄ (event cfg server st₃ a))
    (hopen : HalfOpen.Open params l₂ l₃) :
    HalfOpen.Open params l₂ l₄ ∨ ∃ i d, Succeeds cfg a i ∧ st₃.InFlight server i d ∧
      ((∃ d', st₂.InFlight server i d') ∨
        d.probe = true ∧ st₂.clock + params.cooldown ≤ d.time ∧ d.time ≤ st₃.clock) := by
  cases hevent : event cfg server st₃ a with
  | none =>
      simp only [hevent, Matches] at hmatch
      exact Or.inl (hmatch ▸ hopen)
  | some e =>
      simp only [hevent, Matches] at hmatch
      rcases hopen.step hmatch with h | ⟨i, adm, rfl, hcall, hwhen⟩
      · exact Or.inl h
      · obtain ⟨d, hd, rfl⟩ := hl₃.inFlight.mp hcall
        have hsucceeds : Succeeds cfg a i := by
          rcases event_cases hevent with ⟨j, h⟩ | ⟨now, h⟩ | ⟨j, d', -, ⟨h, hj⟩ | ⟨h, -⟩ | ⟨h, -⟩⟩
          · simp at h
          · simp at h
          · obtain rfl := HalfOpen.Event.succeed.inj h
            exact hj
          · simp at h
          · simp at h
        refine Or.inr ⟨i, d, hsucceeds, hd, ?_⟩
        rw [← hl₂.clock, ← hl₃.clock]
        refine hwhen.imp_left fun h => ?_
        obtain ⟨d', hd', -⟩ := hl₂.inFlight.mp h
        exact ⟨d', hd'⟩

/-- An open circuit is tripped. -/
theorem LineIs.tripped_of_open (hl₃ : LineIs params server st₃ l₃)
    (hopen : HalfOpen.Open params l₂ l₃) : st₃.Tripped server := by
  obtain ⟨t, ht, -⟩ := hopen.opened
  exact hl₃.tripped.mp (by simp [HalfOpen.Circuit.tripped, ht])

/-- The success of a call in flight closes the circuit. -/
theorem LineIs.closed_of_succeeds (hl₄ : LineIs params server st₄ l₄)
    (hmatch : Matches params l₃ l₄ (event cfg server st₃ a)) {i : ℕ} {d : Dispatch}
    (ha : Succeeds cfg a i) (hd : st₃.InFlight server i d) : ¬st₄.Tripped server := by
  rw [event_of_succeeds ha hd] at hmatch
  obtain ⟨adm, -, rfl⟩ := HalfOpen.step_succeed hmatch
  rw [← hl₄.tripped]
  simp [HalfOpen.Circuit.tripped, HalfOpen.Circuit.succeed]

/-- **A run of an open circuit that has stayed tripped** is still open, with the calls in
flight told apart. Induction on the run. -/
theorem LineIs.openRun {bs : List Action} (hl₂ : LineIs params server st₂ l₂)
    (hl : LineIs params server st₃ l₃) (hopen : HalfOpen.Open params l₂ l₃)
    (hrun : (gateway cfg).exec st₃ bs = some st₄)
    (htripped : (gateway cfg).Always (fun st => st.Tripped server) st₃ bs) :
    ∃ l₄, LineIs params server st₄ l₄ ∧ HalfOpen.Open params l₂ l₄ := by
  induction bs generalizing st₃ l₃ with
  | nil =>
      obtain rfl := Option.some.inj hrun
      exact ⟨l₃, hl, hopen⟩
  | cons b bs ih =>
      obtain ⟨st, hstep, hrest⟩ := System.exec_cons_eq_some.mp hrun
      obtain ⟨l, hl', hmatch⟩ := hl.step hstep
      have hnext := htripped.2 st hstep
      rcases hl₂.openStep hl hmatch hopen with h | ⟨i, d, ha, hd, -⟩
      · exact ih hl' h hrest hnext
      · exact absurd hnext.head (hl'.closed_of_succeeds hmatch ha hd)

end StaysOpen

/-- Along a run after the opening, without a late success, the circuit has stayed tripped
or the cooldown is over. Induction on the run from its end. -/
theorem tripped_or_cooled {cfg : Settings} {params : HalfOpen.Params ℚ} {server : Str}
    {st₂ st₃ : Gateway} {l₂ : HalfOpen.Line ℕ ℚ} {bs : List Action}
    (hl₂ : LineIs params server st₂ l₂) (hopen : HalfOpen.Open params l₂ l₂)
    (hnolate : ∀ bs₁ a bs₂ st, bs = bs₁ ++ a :: bs₂ → (gateway cfg).exec st₂ bs₁ = some st →
      (gateway cfg).Always (fun st => st.Tripped server) st₂ bs₁ →
      ¬∃ i d d', Succeeds cfg a i ∧ st₂.InFlight server i d ∧ st.InFlight server i d')
    (hrun : (gateway cfg).exec st₂ bs = some st₃) :
    (gateway cfg).Always (fun st => st.Tripped server) st₂ bs ∨
      st₂.clock + params.cooldown ≤ st₃.clock := by
  induction bs using List.reverseRecOn generalizing st₃ with
  | nil => exact Or.inl (hl₂.tripped_of_open hopen)
  | append_singleton bs a ih =>
      obtain ⟨st, hrun₁, hstep⟩ := System.exec_concat_eq_some.mp hrun
      obtain ⟨l, hl⟩ := lineIs_of_run hl₂ hrun₁
      obtain ⟨l₃, hl₃, hmatch⟩ := hl.step hstep
      rcases ih (fun bs₁ b bs₂ st' heq => hnolate bs₁ b (bs₂ ++ [a]) st' (by simp [heq])) hrun₁ with
        htripped | hcooled
      · obtain ⟨l', hl', hopen'⟩ := hl₂.openRun hl₂ hopen hrun₁ htripped
        obtain rfl := hl.unique hl'
        rcases hl₂.openStep hl hmatch hopen' with h | ⟨i, d, ha, hd, ⟨d', hd'⟩ | ⟨-, hlate,
          hpast⟩⟩
        · refine Or.inl (htripped.concat hrun₁ fun u hu => ?_)
          obtain rfl := Option.some.inj (hstep.symm.trans hu)
          exact hl₃.tripped_of_open h
        · exact absurd ⟨i, d', d, ha, hd', hd⟩ (hnolate bs a [] st rfl hrun₁ htripped)
        · exact Or.inr ((hlate.trans hpast).trans (hl.clock_le hstep))
      · exact Or.inr (hcooled.trans (hl.clock_le hstep))

section Exactly

variable {cfg : Settings} {st₀ : Gateway} {as : List Action} {b : CircuitBreaker} {server : Str}

/-- A late success closes an open circuit through a call that is not a new probe. -/
theorem noLateSuccess_of_staysOpen (hinit : st₀.tasks = []) (hb : st₀.shared.breaker = some b)
    (hstays : StaysOpen cfg server b.cooldown st₀ as) : NoLateSuccess cfg server st₀ as := by
  have hl₀ := lineIs_start hb hinit server
  rintro st₂ bs st₃ a st₄ hepisode htripped ⟨i, d, d', ha, hd, hd'⟩
  obtain ⟨as₁, o, cs, st₁, -, hrun₁, hstep₁, -, -, hbs, hstep⟩ := id hepisode
  obtain ⟨l₂, hl₂⟩ := lineIs_of_run hl₀ (System.exec_concat_eq_some.mpr ⟨st₁, hrun₁, hstep₁⟩)
  obtain ⟨l₃, hl₃⟩ := lineIs_of_run hl₂ hbs
  obtain ⟨l₄, hl₄, hmatch⟩ := hl₃.step hstep
  have hclosed := hl₄.closed_of_succeeds hmatch ha hd'
  obtain ⟨j, -, hj, -, -, -, hfresh⟩ := (hstays st₂ bs st₃ a st₄ hepisode).2 htripped hclosed
  exact hfresh d (ha.unique hj ▸ hd)

/-- Without late successes an open circuit is left only as it should be. -/
theorem staysOpen_of_noLateSuccess (hinit : st₀.tasks = []) (hb : st₀.shared.breaker = some b)
    (hnolate : NoLateSuccess cfg server st₀ as) : StaysOpen cfg server b.cooldown st₀ as := by
  have hl₀ := lineIs_start hb hinit server
  intro st₂ bs st₃ a st₄ hepisode
  obtain ⟨as₁, o, cs, st₁, rfl, hrun₁, hstep₁, h₁, h₂, hbs, hstep⟩ := id hepisode
  obtain ⟨l₁, hl₁⟩ := lineIs_of_run hl₀ hrun₁
  obtain ⟨l₂, hl₂, hmatch₂⟩ := hl₁.step hstep₁
  have hopen := hl₁.opened hl₂ hmatch₂ h₁ h₂
  obtain ⟨l₃, hl₃⟩ := lineIs_of_run hl₂ hbs
  obtain ⟨l₄, hl₄, hmatch⟩ := hl₃.step hstep
  -- the condition, for the run after the opening
  have hlater : ∀ bs₁ a' bs₂ st', bs = bs₁ ++ a' :: bs₂ →
      (gateway cfg).exec st₂ bs₁ = some st' →
      (gateway cfg).Always (fun st => st.Tripped server) st₂ bs₁ →
      ¬∃ i d d', Succeeds cfg a' i ∧ st₂.InFlight server i d ∧ st'.InFlight server i d' := by
    rintro bs₁ a' bs₂ st' rfl hrun' htripped
    have hrest : (gateway cfg).exec st' (a' :: bs₂) = some st₃ := by
      simpa [System.exec_append, hrun'] using hbs
    obtain ⟨st'', hstep', -⟩ := System.exec_cons_eq_some.mp hrest
    exact hnolate st₂ bs₁ st' a' st'' ⟨as₁, o, bs₂ ++ a :: cs, st₁, by simp, hrun₁, hstep₁, h₁,
      h₂, hrun', hstep'⟩ htripped
  constructor
  · intro i d hd hfresh
    obtain ⟨htime, hadmit⟩ := hl₃.started hl₄ hmatch hd hfresh
    rw [htime, ← hl₂.clock]
    rcases tripped_or_cooled hl₂ hopen hlater hbs with htripped | hcooled
    · obtain ⟨l, hl, hopen'⟩ := hl₂.openRun hl₂ hopen hbs htripped
      obtain rfl := hl₃.unique hl
      exact hopen'.launch hadmit
    · rw [hl₂.clock, hl₃.clock]
      exact hcooled
  · intro htripped hclosed
    obtain ⟨l, hl, hopen'⟩ := hl₂.openRun hl₂ hopen hbs htripped
    obtain rfl := hl₃.unique hl
    rcases hl₂.openStep hl₃ hmatch hopen' with h | ⟨i, d, ha, hd, ⟨d', hd'⟩ | ⟨hprobe, hlate, -⟩⟩
    · exact absurd (hl₄.tripped_of_open h) hclosed
    · exact absurd ⟨i, d', d, ha, hd', hd⟩ (hnolate st₂ bs st₃ a st₄ hepisode htripped)
    · exact ⟨i, d, ha, hd, hprobe, hlate, fun d' hd' =>
        hnolate st₂ bs st₃ a st₄ hepisode htripped ⟨i, d', d, ha, hd', hd⟩⟩

end Exactly

/-- **An open circuit stays open until a probe succeeds exactly when** no call that was in
flight at the opening succeeds while it is open, on every run and for every server. -/
theorem staysOpen_iff {cfg : Settings} {st₀ : Gateway} {as : List Action} {b : CircuitBreaker}
    (hinit : st₀.tasks = []) (hb : st₀.shared.breaker = some b) (server : Str) :
    StaysOpen cfg server b.cooldown st₀ as ↔ NoLateSuccess cfg server st₀ as :=
  ⟨noLateSuccess_of_staysOpen hinit hb, staysOpen_of_noLateSuccess hinit hb⟩

/-- The promise and its condition where a circuit opens and its one call in flight has
failed. -/
theorem staysOpen_sample :
    StaysOpen sampleSettings (lit "ticket") 10 (sampleStart (some (.init 1 10 0)) true)
        [.arrive sampleRequest, .answered 0 sampleOutage] ↔
      NoLateSuccess sampleSettings (lit "ticket") (sampleStart (some (.init 1 10 0)) true)
        [.arrive sampleRequest, .answered 0 sampleOutage] :=
  staysOpen_iff (b := .init 1 10 0) rfl rfl (lit "ticket")

/-- Two calls go out, the first fails and opens the circuit, the second succeeds and closes
it at once. -/
def lateSuccessRun : List Action :=
  [.arrive sampleRequest, .arrive sampleRequest, .answered 0 sampleOutage,
    .answered 1 sampleResult]

/-- **A circuit closed by a call from before its opening**: without a condition on the late
successes the promise is broken. -/
theorem staysOpen_fails : ¬∀ (cfg : Settings) (st₀ st : Gateway) (as : List Action)
    (b : CircuitBreaker) (server : Str), st₀.tasks = [] → st₀.shared.breaker = some b →
    1 ≤ b.threshold → 0 ≤ b.cooldown → (gateway cfg).exec st₀ as = some st →
    StaysOpen cfg server b.cooldown st₀ as := by
  intro hclaim
  have hrun : (((gateway sampleSettings).exec (sampleStart (some (.init 1 10 0)) true)
        [.arrive sampleRequest, .arrive sampleRequest]).any fun st₁ =>
      !(st₁.shared.breaker.any fun b => b.isTripped (lit "ticket")) &&
      ((gateway sampleSettings).step st₁ (.answered 0 sampleOutage)).any fun st₂ =>
        (st₂.shared.breaker.any fun b => b.isTripped (lit "ticket")) &&
        (callsTo (lit "ticket") st₂.tasks 1).isInFlight &&
        ((gateway sampleSettings).step st₂ (.answered 1 sampleResult)).isSome) = true := by
    decide +kernel
  obtain ⟨st₁, hrun₁, h⟩ := (Option.any_eq_true _ _).mp hrun
  simp only [Bool.and_eq_true, Bool.not_eq_true', Bool.eq_false_iff] at h
  obtain ⟨h₁, h⟩ := h
  obtain ⟨st₂, hstep₁, h⟩ := (Option.any_eq_true _ _).mp h
  simp only [Bool.and_eq_true] at h
  obtain ⟨⟨h₂, hcall⟩, hlast⟩ := h
  obtain ⟨st₄, hstep⟩ := Option.isSome_iff_exists.mp hlast
  obtain ⟨d, hd⟩ := Gateway.exists_inFlight_iff.mpr hcall
  have hexec : (gateway sampleSettings).exec (sampleStart (some (.init 1 10 0)) true)
      lateSuccessRun = some st₄ := by
    rw [show lateSuccessRun = [.arrive sampleRequest, .arrive sampleRequest] ++
      [.answered 0 sampleOutage, .answered 1 sampleResult] from rfl, System.exec_append, hrun₁]
    simp [System.exec, hstep₁, hstep]
  have hepisode : Episode sampleSettings (lit "ticket") (sampleStart (some (.init 1 10 0)) true)
      lateSuccessRun st₂ [] st₂ (.answered 1 sampleResult) st₄ :=
    ⟨_, _, [], st₁, rfl, hrun₁, hstep₁, mt Gateway.tripped_iff.mp h₁,
      Gateway.tripped_iff.mpr h₂, rfl, hstep⟩
  refine noLateSuccess_of_staysOpen rfl rfl
    (hclaim _ _ st₄ lateSuccessRun _ (lit "ticket") rfl rfl le_rfl (by decide +kernel) hexec)
    _ _ _ _ _ hepisode (Gateway.tripped_iff.mpr h₂) ⟨1, d, d, ?_, hd, hd⟩
  exact ⟨sampleResult, .allowed, rfl, rfl, by simp⟩

/-! ### The probe slot is not leaked -/

/-- A server in `_probing` has a probe in flight. -/
def Gateway.SlotKept (st : Gateway) (server : Str) : Prop :=
  ∀ b, st.shared.breaker = some b → server ∈ b.probing → ∃ i, st.Probes server i

/-- Once no call to the server is in flight, it is callable when the cooldown is over. -/
def Gateway.Recovers (st : Gateway) (server : Str) : Prop :=
  ∀ b, st.shared.breaker = some b → (∀ i d, ¬st.InFlight server i d) →
    (∀ t, b.openedAt server = some t → b.cooldown ≤ b.now - t) → (b.allow server).1 = true

/-- The only probe of a server in `_probing` ends without a report. -/
def LastUnreported (cfg : Settings) (server : Str) (st : Gateway) (a : Action) : Prop :=
  ∃ i, EndsUnreported cfg a i ∧ (∃ b, st.shared.breaker = some b ∧ server ∈ b.probing) ∧
    st.Probes server i ∧ ∀ j, st.Probes server j → j = i

section Slot

variable {cfg : Settings} {params : HalfOpen.Params ℚ} {server : Str} {st st' : Gateway}
  {l l' : HalfOpen.Line ℕ ℚ} {a : Action}

/-- The slot of the protocol is the membership in `_probing`. -/
theorem LineIs.probing (hl : LineIs params server st l) :
    l.circuit.probing = true ↔ ∃ b, st.shared.breaker = some b ∧ server ∈ b.probing := by
  obtain ⟨⟨b, hb, -, rfl⟩, -⟩ := hl
  simp [Gateway.line, CircuitBreaker.circuit, hb]

/-- The promise about the slot, seen from the server, is that the slot is held. -/
theorem LineIs.slotKept (hl : LineIs params server st l) :
    st.SlotKept server ∧ st.Recovers server ↔ HalfOpen.SlotHeld l := by
  constructor
  · rintro ⟨hkept, -⟩ hprobing
    obtain ⟨b, hb, hmem⟩ := hl.probing.mp hprobing
    obtain ⟨i, hi⟩ := hkept b hb hmem
    exact ⟨i, hl.probes.mpr hi⟩
  · intro hheld
    constructor
    · intro b hb hmem
      obtain ⟨i, hi⟩ := hheld (hl.probing.mpr ⟨b, hb, hmem⟩)
      exact ⟨i, hl.probes.mp hi⟩
    · intro b hb hnone hcool
      have hnoprobe : ∀ i, ¬l.Probes i := fun i hi => by
        obtain ⟨d, hd, -⟩ := hl.probes.mp hi
        exact hnone i d hd
      obtain ⟨⟨b', hb', -, rfl⟩, -⟩ := hl
      obtain rfl : b' = b := Option.some.inj (hb'.symm.trans hb)
      rw [CircuitBreaker.allow_fst]
      exact hheld.admits (p := b'.params) hnoprobe hcool

/-- **One step leaks the slot exactly when the last probe ends without a report.** -/
theorem LineIs.slotStep (hl : LineIs params server st l) (hl' : LineIs params server st' l')
    (hmatch : Matches params l l' (event cfg server st a))
    (hkept : st.SlotKept server ∧ st.Recovers server) :
    st'.SlotKept server ∧ st'.Recovers server ↔ ¬LastUnreported cfg server st a := by
  rw [hl'.slotKept]
  have hheld := hl.slotKept.mp hkept
  cases hevent : event cfg server st a with
  | none =>
      simp only [hevent, Matches] at hmatch
      subst hmatch
      refine iff_of_true hheld ?_
      rintro ⟨i, hend, -, ⟨d, hd, -⟩, -⟩
      simp [event_of_endsUnreported hend hd] at hevent
  | some e =>
      simp only [hevent, Matches] at hmatch
      rw [HalfOpen.slotHeld_iff hheld hmatch]
      refine not_congr ⟨?_, ?_⟩
      · rintro ⟨i, rfl, hprobing, hi, honly⟩
        rcases event_cases hevent with ⟨j, h⟩ | ⟨now, h⟩ | ⟨j, d, hd, ⟨h, -⟩ | ⟨h, -⟩ | ⟨h, hj⟩⟩
        · simp at h
        · simp at h
        · simp at h
        · simp at h
        · obtain rfl := HalfOpen.Event.drop.inj h
          exact ⟨i, hj, hl.probing.mp hprobing, hl.probes.mp hi, fun k hk =>
            honly k (hl.probes.mpr hk)⟩
      · rintro ⟨i, hend, hprobing, hi, honly⟩
        obtain ⟨d, hd, -⟩ := id hi
        rw [event_of_endsUnreported hend hd] at hevent
        exact ⟨i, (Option.some.inj hevent).symm, hl.probing.mpr hprobing, hl.probes.mpr hi,
          fun k hk => honly k (hl.probes.mp hk)⟩

end Slot

/-- **The probe slot is never leaked, and a tripped server always recovers, exactly when**
no probe that is the last one of a taken slot ends without a report, on every run and for
every server. -/
theorem slotKept_iff {cfg : Settings} {st₀ st : Gateway} {as : List Action} {b : CircuitBreaker}
    {server : Str} (hinit : st₀.tasks = []) (hb : st₀.shared.breaker = some b)
    (hfree : server ∉ b.probing) (hrun : (gateway cfg).exec st₀ as = some st) :
    (gateway cfg).Always (fun st => st.SlotKept server ∧ st.Recovers server) st₀ as ↔
      (gateway cfg).Each (fun st a => ¬LastUnreported cfg server st a) st₀ as := by
  have hstart := lineIs_start hb hinit server
  refine System.always_iff_each (I := fun st => ∃ l, LineIs b.params server st l)
    (fun st a st' hI hstep => ?_) (fun st a st' hI hkept hstep => ?_) ⟨_, hstart⟩ ?_ hrun
  · obtain ⟨l, hl⟩ := hI
    obtain ⟨l', hl', -⟩ := hl.step hstep
    exact ⟨l', hl'⟩
  · obtain ⟨l, hl⟩ := hI
    obtain ⟨l', hl', hmatch⟩ := hl.step hstep
    exact hl.slotStep hl' hmatch hkept
  · refine hstart.slotKept.mpr fun hprobing => ?_
    obtain ⟨b', hb', hmem⟩ := hstart.probing.mp hprobing
    obtain rfl : b = b' := Option.some.inj (hb.symm.trans hb')
    exact absurd hmem hfree

/-- The promise and its condition for one probe that reports. -/
theorem slotKept_sample : ∃ st,
    (gateway sampleSettings).exec (sampleStart (some cooledBreaker) true)
      [.arrive sampleRequest, .answered 0 sampleResult] = some st ∧
    ((gateway sampleSettings).Always
        (fun st => st.SlotKept (lit "ticket") ∧ st.Recovers (lit "ticket"))
        (sampleStart (some cooledBreaker) true)
        [.arrive sampleRequest, .answered 0 sampleResult] ↔
      (gateway sampleSettings).Each
        (fun st a => ¬LastUnreported sampleSettings (lit "ticket") st a)
        (sampleStart (some cooledBreaker) true)
        [.arrive sampleRequest, .answered 0 sampleResult]) := by
  have hrun : ((gateway sampleSettings).exec (sampleStart (some cooledBreaker) true)
      [.arrive sampleRequest, .answered 0 sampleResult]).isSome = true := by decide +kernel
  obtain ⟨st, hst⟩ := Option.isSome_iff_exists.mp hrun
  exact ⟨st, hst, slotKept_iff rfl rfl (by decide) hst⟩

/-- **A leaked slot**: the one probe is cancelled, and the server is locked out for good. -/
theorem slotKept_fails : ¬∀ (cfg : Settings) (st₀ st : Gateway) (as : List Action)
    (b : CircuitBreaker) (server : Str), st₀.tasks = [] → st₀.shared.breaker = some b →
    server ∉ b.probing → (gateway cfg).exec st₀ as = some st →
    (gateway cfg).Always (fun st => st.SlotKept server ∧ st.Recovers server) st₀ as := by
  intro hclaim
  have hrun : ((gateway sampleSettings).exec (sampleStart (some cooledBreaker) true)
      [.arrive sampleRequest, .abort 0]).any (fun st =>
        (st.shared.breaker.any fun b => lit "ticket" ∈ b.probing) &&
        !(callsTo (lit "ticket") st.tasks 0).isProbe && st.tasks.length = 1) = true := by
    decide +kernel
  obtain ⟨st, hst, hleak⟩ := (Option.any_eq_true _ _).mp hrun
  simp only [Bool.and_eq_true, Bool.not_eq_true', decide_eq_true_eq] at hleak
  obtain ⟨⟨hmem, hprobe⟩, hlen⟩ := hleak
  obtain ⟨b, hb, hmem⟩ := (Option.any_eq_true _ _).mp hmem
  have hkept := (hclaim _ _ st _ _ (lit "ticket") rfl rfl (by decide) hst).last hst
  obtain ⟨i, hi⟩ := hkept.1 b hb (by simpa using hmem)
  have hi0 : i = 0 := by
    obtain ⟨d, ⟨t, ht, -⟩, -⟩ := id hi
    have := lt_length_of_getElem? ht
    omega
  subst hi0
  rw [Gateway.probes_iff, hprobe] at hi
  simp at hi

end AgentOpsGateway
