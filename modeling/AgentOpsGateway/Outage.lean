import AgentOpsGateway.Upstream

/-!
# What Counts as an Outage

`route_call` tells the outages from the answers by reading the text of a result, and
`Backend.call` returns the same result whatever made its attempts fail. So an answer that
reads like the gateway's own `BACKEND_UNAVAILABLE` counts as an outage, and so does a
JSON-RPC error.

## Main results

* `Upstream.Told`: what a call returns is the result of its last attempt, or it is
  `BACKEND_UNAVAILABLE` and no attempt had a result.
* `outage_iff`: **the answers that are classified by who gave them** are exactly the results
  whose text can be read and does not claim an outage, and the JSON-RPC errors that are
  followed by a result.
* `outage_fails`: a backend that is such a gateway itself opens the circuit by its answers.
-/

namespace AgentOpsGateway

open Python Transition

/-! ### How a result is read -/

/-- The first block of the content has this text. -/
def CallToolResult.firstText (result : CallToolResult) : Option Json :=
  match result.content with
  | .text text :: _ => some (.str text)
  | .other extra :: _ => extra
  | [] => none

/-- The result reads like the gateway's own `BACKEND_UNAVAILABLE`: it is an error, and its
first text is a JSON object with that code. -/
def ClaimsOutage (py : Interpreter) (result : CallToolResult) : Prop :=
  result.isError = true ∧ ∃ text payload, result.firstText = some (.str text) ∧
    loads (py.spareLevels + 1) text = .ok (.obj payload) ∧
    dictGet (lit "code") payload = some (.str ErrorCode.backendUnavailable.text)

/-- Reading the result raises what `_relay_decision` does not catch: it is an error, and its
first text is nested too deeply, or is no string. -/
def Unreadable (py : Interpreter) (result : CallToolResult) : Prop :=
  result.isError = true ∧
    ((∃ text, result.firstText = some (.str text) ∧
        loads (py.spareLevels + 1) text = .error .recursionError) ∨
      ∃ value, result.firstText = some value ∧ ∀ text, value ≠ .str text)

/-- How a text is read. -/
theorem relayDecision_of_text (py : Interpreter) {result : CallToolResult} {text : Str}
    (herror : result.isError = true) (htext : result.firstText = some (.str text)) :
    (∃ payload, loads (py.spareLevels + 1) text = .ok (.obj payload) ∧
        dictGet (lit "code") payload = some (.str ErrorCode.backendUnavailable.text) ∧
        relayDecision py result = .ok .error) ∨
      (loads (py.spareLevels + 1) text = .error .recursionError ∧
        relayDecision py result = .error .recursionError) ∨
      ((∀ payload, loads (py.spareLevels + 1) text = .ok (.obj payload) →
          dictGet (lit "code") payload ≠ some (.str ErrorCode.backendUnavailable.text)) ∧
        loads (py.spareLevels + 1) text ≠ .error .recursionError ∧
        relayDecision py result = .ok .allowed) := by
  have hrelay : relayDecision py result = relayDecision py ⟨true, [.text text]⟩ := by
    simp only [CallToolResult.firstText] at htext
    unfold relayDecision
    rw [if_pos herror, if_pos rfl]
    cases hcontent : result.content with
    | nil => simp [hcontent] at htext
    | cons block rest =>
        cases block with
        | text t =>
            obtain rfl : t = text := by simpa [hcontent] using htext
            rfl
        | other extra =>
            obtain rfl : extra = some (.str text) := by simpa [hcontent] using htext
            rfl
  rw [hrelay]
  cases hload : loads (py.spareLevels + 1) text with
  | error e =>
      cases e with
      | valueError => exact Or.inr (Or.inr ⟨by simp, by simp, by simp [relayDecision, hload]⟩)
      | recursionError => exact Or.inr (Or.inl ⟨rfl, by simp [relayDecision, hload]⟩)
  | ok value =>
      cases value with
      | obj payload =>
          by_cases hcode :
              dictGet (lit "code") payload = some (.str ErrorCode.backendUnavailable.text)
          · exact Or.inl ⟨payload, rfl, hcode, by simp [relayDecision, hload, hcode]⟩
          · refine Or.inr (Or.inr ⟨?_, by simp, ?_⟩)
            · intro payload' heq
              obtain rfl : payload = payload' := by simpa using heq
              exact hcode
            · simp only [relayDecision, hload, if_true]
              cases hget : dictGet (lit "code") payload with
              | none => rfl
              | some code =>
                  cases code with
                  | str code =>
                      have hne : code ≠ ErrorCode.backendUnavailable.text := by
                        rintro rfl
                        exact hcode hget
                      simp [hne]
                  | _ => rfl
      | _ => exact Or.inr (Or.inr ⟨by simp, by simp, by simp [relayDecision, hload]⟩)

/-- What happens where there is no text to read. -/
theorem relayDecision_of_no_text (py : Interpreter) {result : CallToolResult}
    (herror : result.isError = true) (htext : ∀ text, result.firstText ≠ some (.str text)) :
    result.firstText = none ∧ relayDecision py result = .ok .allowed ∨
      ∃ value, result.firstText = some value ∧ relayDecision py result = .error .typeError := by
  simp only [CallToolResult.firstText] at htext ⊢
  simp only [relayDecision]
  rw [if_pos herror]
  cases hcontent : result.content with
  | nil => exact Or.inl ⟨rfl, rfl⟩
  | cons block rest =>
      cases block with
      | text text => simp [hcontent] at htext
      | other extra =>
          cases extra with
          | none => exact Or.inl ⟨rfl, rfl⟩
          | some value =>
              refine Or.inr ⟨value, rfl, ?_⟩
              cases value with
              | str text => simp [hcontent] at htext
              | _ => rfl

/-- **Which results are relayed as allowed.** -/
theorem relayDecision_eq_allowed_iff {py : Interpreter} {result : CallToolResult} :
    relayDecision py result = .ok .allowed ↔ ¬ClaimsOutage py result ∧ ¬Unreadable py result := by
  by_cases herror : result.isError = true
  · by_cases htext : ∃ text, result.firstText = some (.str text)
    · obtain ⟨text, htext⟩ := htext
      have hstr : ∀ text', result.firstText = some (.str text') → text' = text := fun text' h => by
        simpa using h.symm.trans htext
      have hvalue : ¬∃ value, result.firstText = some value ∧ ∀ text, value ≠ .str text := by
        rintro ⟨value, hv, hne⟩
        exact hne text (by simpa using hv.symm.trans htext)
      rcases relayDecision_of_text py herror htext with ⟨payload, hload, hcode, hrelay⟩ |
        ⟨hload, hrelay⟩ | ⟨hcode, hload, hrelay⟩
      · simp only [hrelay]
        refine ⟨by simp, fun h => absurd ⟨herror, text, payload, htext, hload, hcode⟩ h.1⟩
      · simp only [hrelay]
        refine ⟨by simp, fun h => absurd ⟨herror, Or.inl ⟨text, htext, hload⟩⟩ h.2⟩
      · refine ⟨fun _ => ⟨?_, ?_⟩, fun _ => hrelay⟩
        · rintro ⟨-, text', payload, htext', hload', hcode'⟩
          obtain rfl := hstr text' htext'
          exact hcode payload hload' hcode'
        · rintro ⟨-, ⟨text', htext', hload'⟩ | hother⟩
          · obtain rfl := hstr text' htext'
            exact hload hload'
          · exact hvalue hother
    · have hnone : ∀ text, result.firstText ≠ some (.str text) := fun text h => htext ⟨text, h⟩
      rcases relayDecision_of_no_text py herror hnone with ⟨hfirst, hrelay⟩ |
        ⟨value, hfirst, hrelay⟩
      · refine ⟨fun _ => ⟨?_, ?_⟩, fun _ => hrelay⟩
        · rintro ⟨-, text, -, h, -⟩
          exact hnone text h
        · rintro ⟨-, ⟨text, h, -⟩ | ⟨value, h, -⟩⟩
          · exact hnone text h
          · simp [hfirst] at h
      · simp only [hrelay]
        refine ⟨by simp, fun h => absurd ⟨herror, Or.inr ⟨value, hfirst, ?_⟩⟩ h.2⟩
        rintro text rfl
        exact hnone text hfirst
  · have hrelay : relayDecision py result = .ok .allowed := by simp [relayDecision, herror]
    exact ⟨fun _ => ⟨fun h => herror h.1, fun h => herror h.1⟩, fun _ => hrelay⟩

/-! ### What a call returns -/

/-- The attempt had a result. -/
def Attempt.delivers : Attempt → Bool
  | .result _ => true
  | .rpcError | .noAnswer => false

/-- The backend answered an attempt, by a result or by a JSON-RPC error. -/
def Attempt.answered : Attempt → Bool
  | .result _ | .rpcError => true
  | .noAnswer => false

/-- What a caller has returned agrees with its attempts: the result of the last one, or
`BACKEND_UNAVAILABLE` where none had a result. -/
def Caller.Told (k : Caller) : Prop :=
  match k.phase with
  | .idle | .raised | .cancelled => True
  | .acquiring s | .tearing s _ =>
    (∀ a ∈ k.attempts, a.delivers = false) ∧
      (s = .close → ∀ tool arguments, k.operation ≠ .call tool arguments)
  | .connecting _ _ | .racing _ _ _ => ∀ a ∈ k.attempts, a.delivers = false
  | .returned p => ∀ tool arguments, k.operation = .call tool arguments →
    (∃ result attempts, p = some result ∧ k.attempts = attempts ++ [.result result] ∧
      ∀ a ∈ attempts, a.delivers = false) ∨
    (∃ server, p = some (backendUnavailable server)) ∧ ∀ a ∈ k.attempts, a.delivers = false

namespace Upstream

variable {st st' : Upstream} {i : ℕ}

/-- A failed attempt had no result. -/
theorem told_fail (retry : Bool) {a : Attempt} (ha : a.delivers = false)
    (h : ∀ a ∈ (st.callers i).attempts, a.delivers = false) :
    ((st.fail i retry a).callers i).Told := by
  have hcaller : (st.fail i retry a).callers i = { st.callers i with
      phase := .acquiring (if retry then .giveUp else .connect true)
      attempts := (st.callers i).attempts ++ [a] } := Function.update_self _ _ _
  rw [hcaller]
  refine ⟨?_, by cases retry <;> simp⟩
  intro b hb
  rcases List.mem_append.mp hb with hb | hb
  · exact h b hb
  · rw [List.mem_singleton.mp hb]
    exact ha

/-- A caller that moves to where it has no result yet. -/
theorem told_move {phase : CallerPhase}
    (h : Caller.Told { st.callers i with phase }) : ((st.move i phase).callers i).Told := by
  have hcaller : (st.move i phase).callers i = { st.callers i with phase } :=
    Function.update_self _ _ _
  rw [hcaller]
  exact h

/-- A caller goes on with the session there is. -/
theorem told_proceed (retry : Bool) (h : ∀ a ∈ (st.callers i).attempts, a.delivers = false) :
    ((st.proceed i retry).callers i).Told := by
  cases hop : (st.callers i).operation with
  | call tool arguments =>
      rcases proceed_call retry hop with ⟨-, heq⟩ | ⟨session, -, ⟨-, heq⟩ | ⟨owner, -, heq⟩⟩
      · rw [heq]
        exact told_fail retry rfl h
      · rw [heq]
        exact told_fail retry rfl h
      · rw [heq]
        exact told_move h
  | ensureSession =>
      rw [proceed_of_not_call retry (by simp [hop])]
      exact told_move fun tool arguments heq => by simp [hop] at heq
  | close =>
      rw [proceed_of_not_call retry (by simp [hop])]
      exact told_move fun tool arguments heq => by simp [hop] at heq

/-- A caller ends a teardown. -/
theorem told_torn {s : Section} (h : ∀ a ∈ (st.callers i).attempts, a.delivers = false)
    (hclose : s = .close → ∀ tool arguments, (st.callers i).operation ≠ .call tool arguments) :
    ((st.torn i s).callers i).Told := by
  cases s with
  | connect retry => exact told_move h
  | giveUp => exact told_move fun _ _ _ => Or.inr ⟨⟨st.name, rfl⟩, h⟩
  | close => exact told_move fun tool arguments heq => absurd heq (hclose rfl tool arguments)

/-- A caller gets the lock. -/
theorem told_acquired {s : Section} (h : ∀ a ∈ (st.callers i).attempts, a.delivers = false)
    (hclose : s = .close → ∀ tool arguments, (st.callers i).operation ≠ .call tool arguments) :
    ((st.acquired i s).callers i).Told := by
  rcases acquired_cases st i s with ⟨-, -, heq⟩ | ⟨-, ⟨-, heq⟩ | ⟨c, -, ⟨-, heq⟩ | ⟨-, heq⟩⟩⟩
  · rw [heq]
    exact told_proceed false h
  · rw [heq]
    exact told_torn h hclose
  · rw [heq]
    exact told_torn h hclose
  · rw [heq]
    exact told_move ⟨h, hclose⟩

/-- A connection attempt fails. -/
theorem told_connectFailed (retry : Bool) (c : ℕ)
    (h : ∀ a ∈ (st.callers i).attempts, a.delivers = false) :
    ((st.connectFailed i retry c).callers i).Told := by
  unfold connectFailed
  dsimp only
  split
  · exact told_move fun _ _ _ => Or.inr ⟨⟨st.name, rfl⟩, h⟩
  · split
    · exact told_fail false rfl h
    · exact told_move trivial

/-- **Every step keeps what callers have been told.** -/
theorem told_step (h : ∀ i, (st.callers i).Told) {a : UpstreamAction}
    (hstep : upstream.step st a = some st') (j : ℕ) : (st'.callers j).Told := by
  by_cases hrun : a.caller = some j
  · cases a with
    | enter i op =>
        obtain rfl : i = j := Option.some.inj hrun
        obtain ⟨-, rfl⟩ := step_enter hstep
        simp only [Function.update_self]
        refine ⟨by simp, fun hclose tool arguments heq => ?_⟩
        subst heq
        simp [Operation.section] at hclose
    | acquire i =>
        obtain rfl : i = j := Option.some.inj hrun
        obtain ⟨s, hphase, -, rfl⟩ := step_acquire hstep
        have hi := h i
        simp only [Caller.Told, hphase] at hi
        exact told_acquired hi.1 hi.2
    | torn i =>
        obtain rfl : i = j := Option.some.inj hrun
        obtain ⟨s, c, hphase, -, rfl⟩ := step_torn hstep
        have hi := h i
        simp only [Caller.Told, hphase] at hi
        exact told_torn hi.1 hi.2
    | connected i =>
        obtain rfl : i = j := Option.some.inj hrun
        obtain ⟨retry, c, hphase, hcases⟩ := step_connected hstep
        have hi := h i
        simp only [Caller.Told, hphase] at hi
        obtain ⟨-, rfl⟩ | ⟨-, rfl⟩ := hcases
        · exact told_proceed retry hi
        · exact told_connectFailed retry c hi
    | raced i =>
        obtain rfl : i = j := Option.some.inj hrun
        obtain ⟨retry, r, owner, hphase, hcases⟩ := step_raced hstep
        have hi := h i
        simp only [Caller.Told, hphase] at hi
        obtain ⟨result, -, rfl⟩ | ⟨f, -, rfl⟩ | ⟨-, -, rfl⟩ := hcases
        · rw [show (st.answer i result).callers i = { st.callers i with
            phase := .returned (some result)
            attempts := (st.callers i).attempts ++ [.result result] } from
              Function.update_self _ _ _]
          exact fun _ _ _ => Or.inl ⟨result, (st.callers i).attempts, rfl, rfl, hi⟩
        · exact told_fail retry (by cases f <;> rfl) hi
        · exact told_fail retry rfl hi
    | cancel i =>
        obtain rfl : i = j := Option.some.inj hrun
        rcases step_cancel hstep with ⟨-, rfl⟩ | ⟨s, c, hphase, ⟨-, rfl⟩ | rfl⟩ |
          ⟨retry, c, hphase, rfl⟩
        · exact told_move trivial
        · exact told_move trivial
        · simp only [cancelConnection]
          split <;> exact h i
        · exact told_move trivial
    | _ => simp [UpstreamAction.caller] at hrun
  · rw [callers_of_step hstep hrun]
    exact h j

/-- **What a call returns**: in every run, the result of its last attempt, or
`BACKEND_UNAVAILABLE` where none had a result. -/
theorem told_of_run {name : Str} {as : List UpstreamAction}
    (hrun : upstream.exec (.init name) as = some st) (i : ℕ) : (st.callers i).Told :=
  System.invariant' (I := fun st => ∀ i, (st.callers i).Told)
    (fun _ _ _ h hstep => told_step h hstep) (fun _ => trivial) hrun i

end Upstream

/-! ### The classification -/

/-- Task `i` has ended with the result and this decision, and the breaker has been told
so. -/
structure Relayed (st st' : Gateway) (i : ℕ) (server : Str) (result : CallToolResult)
    (decision : AuditDecision) : Prop where
  returned : ∃ t, st'.tasks[i]? = some t ∧ t.phase = .returned result decision
  reported : st'.shared = st.shared.report server decision

/-- Where the backend answered, the call counts as allowed; and it counts as an outage
exactly where the backend did not answer. -/
def Classified (st st' : Gateway) (i : ℕ) (server : Str) (result : CallToolResult)
    (attempts : List Attempt) : Prop :=
  ((∃ a ∈ attempts, a.answered = true) → Relayed st st' i server result .allowed) ∧
    (Relayed st st' i server result .error ↔ ∀ a ∈ attempts, a.answered = false)

/-- The answers can be told from an outage: every result can be read and does not claim an
outage, and a JSON-RPC error is followed by a result. -/
def ToldApart (py : Interpreter) (attempts : List Attempt) : Prop :=
  (∀ result, .result result ∈ attempts → ¬ClaimsOutage py result ∧ ¬Unreadable py result) ∧
    (.rpcError ∈ attempts → ∃ result, .result result ∈ attempts)

/-- What the end of a call counts as. -/
theorem relayed_iff {cfg : Settings} {st st' : Gateway} {i : ℕ} {t : Task} {d : Dispatch}
    {result : CallToolResult} {decision : AuditDecision} (ht : st.tasks[i]? = some t)
    (hsent : t.sent = some d) (hstep : (gateway cfg).step st (.answered i result) = some st') :
    Relayed st st' i d.server result decision ↔ relayDecision cfg.py result = .ok decision := by
  obtain ⟨t', d', ht', -, hsent', rfl⟩ := step_answered hstep
  obtain rfl : t = t' := Option.some.inj (ht.symm.trans ht')
  obtain rfl : d = d' := Option.some.inj (hsent.symm.trans hsent')
  have hi : i < st.tasks.length := lt_length_of_getElem? ht
  have hphase : ∀ t'', (st.tasks.set i
      { t with phase := (routeAnswered cfg st.shared d.server result).2.phase })[i]? = some t'' →
        t''.phase = (routeAnswered cfg st.shared d.server result).2.phase := by
    intro t'' h
    obtain rfl := Option.some.inj ((List.getElem?_set_self hi).symm.trans h)
    rfl
  cases hrelay : relayDecision cfg.py result with
  | error e =>
      refine ⟨fun ⟨⟨t'', h, hreturned⟩, _⟩ => ?_, by simp⟩
      have := (hphase t'' h).symm.trans hreturned
      simp [routeAnswered, hrelay, Halt.phase] at this
  | ok relay =>
      constructor
      · rintro ⟨⟨t'', h, hreturned⟩, -⟩
        have := (hphase t'' h).symm.trans hreturned
        simpa [routeAnswered, hrelay, Halt.phase] using this
      · intro h
        obtain rfl : relay = decision := by simpa using h
        exact ⟨⟨_, List.getElem?_set_self hi, by simp [routeAnswered, hrelay, Halt.phase]⟩,
          by simp [routeAnswered, hrelay]⟩

/-- **What counts as an outage**: when `backend.call` returns to a request that was sent, the
call is classified by whether the backend answered exactly if the answers of its attempts can
be told from an outage. -/
theorem outage_iff {cfg : Settings} {st : Gateway} {i : ℕ} {t : Task} {d : Dispatch}
    (ht : st.tasks[i]? = some t) (hphase : t.phase = .calling) (hsent : t.sent = some d)
    {name : Str} {as : List UpstreamAction} {up : Upstream} {k : ℕ} {result : CallToolResult}
    (hrun : upstream.exec (.init name) as = some up)
    (hcall : (up.callers k).operation = .call d.tool d.arguments)
    (hreturned : (up.callers k).phase = .returned (some result)) :
    ∃ st', (gateway cfg).step st (.answered i result) = some st' ∧
      (Classified st st' i d.server result (up.callers k).attempts ↔
        ToldApart cfg.py (up.callers k).attempts) := by
  obtain ⟨st', hstep⟩ : ∃ st', (gateway cfg).step st (.answered i result) = some st' := by
    simp only [gateway, Gateway.step, ht, hphase, hsent]
    exact ⟨_, rfl⟩
  refine ⟨st', hstep, ?_⟩
  have htold := Upstream.told_of_run hrun k
  simp only [Caller.Told, hreturned] at htold
  simp only [Classified, ToldApart]
  rw [relayed_iff ht hsent hstep, relayed_iff ht hsent hstep]
  rcases htold d.tool d.arguments hcall with ⟨result', attempts, hresult, hattempts, hnone⟩ |
    ⟨⟨server, hresult⟩, hnone⟩
  · -- the last attempt had a result
    obtain rfl : result = result' := Option.some.inj hresult
    have hmem : Attempt.result result ∈ (up.callers k).attempts := by simp [hattempts]
    have honly : ∀ r, Attempt.result r ∈ (up.callers k).attempts → r = result := by
      intro r hr
      rw [hattempts] at hr
      rcases List.mem_append.mp hr with hr | hr
      · simpa [Attempt.delivers] using hnone _ hr
      · simpa using hr
    constructor
    · rintro ⟨hallowed, -⟩
      have hrelay := relayDecision_eq_allowed_iff.mp (hallowed ⟨_, hmem, rfl⟩)
      exact ⟨fun r hr => honly r hr ▸ hrelay, fun _ => ⟨result, hmem⟩⟩
    · rintro ⟨hread, -⟩
      have hrelay := relayDecision_eq_allowed_iff.mpr (hread result hmem)
      refine ⟨fun _ => hrelay, by simp [hrelay], fun hall => ?_⟩
      simpa [Attempt.answered] using hall _ hmem
  · -- no attempt had a result
    obtain rfl : result = backendUnavailable server := Option.some.inj hresult
    have hno : ∀ r, Attempt.result r ∉ (up.callers k).attempts := fun r hr => by
      simpa [Attempt.delivers] using hnone _ hr
    rw [relayDecision_backendUnavailable]
    constructor
    · rintro ⟨-, herror⟩
      refine ⟨fun r hr => absurd hr (hno r), fun hrpc => ?_⟩
      simpa [Attempt.answered] using herror.mp rfl _ hrpc
    · rintro ⟨-, hrpc⟩
      have hall : ∀ a ∈ (up.callers k).attempts, a.answered = false := by
        intro a ha
        cases a with
        | result r => exact absurd ha (hno r)
        | rpcError =>
            obtain ⟨r, hr⟩ := hrpc ha
            exact absurd hr (hno r)
        | noAnswer => rfl
      refine ⟨?_, fun _ => hall, fun _ => rfl⟩
      rintro ⟨a, ha, hanswered⟩
      simp [hall a ha] at hanswered

/-- The call of the sample request. -/
def sampleDispatch : Dispatch := ⟨lit "ticket", lit "create_ticket", [], false, 0⟩

/-- The small gateway while it waits for `backend.call`. -/
def callingStart : Gateway :=
  ⟨(sampleStart none true).shared,
    [⟨sampleRequest, (sampleStart none true).shared, none, some sampleDispatch, .calling⟩]⟩

/-- The backend answers the call at once with the result. -/
def answeredRun (result : CallToolResult) : List UpstreamAction :=
  [.enter 0 (.call (lit "create_ticket") []), .acquire 0, .start 0, .opened 0 [], .connected 0,
    .send 0, .reply 0 result, .raced 0]

/-- How the run ends. -/
theorem answeredRun_ends (result : CallToolResult) : ∃ up,
    upstream.exec (.init (lit "ticket")) (answeredRun result) = some up ∧
      (up.callers 0).operation = .call (lit "create_ticket") [] ∧
      (up.callers 0).phase = .returned (some result) ∧
      (up.callers 0).attempts = [.result result] :=
  ⟨_, rfl, rfl, rfl, rfl⟩

/-- An error of the tool, in the form of the errors of the gateway. -/
def errorAnswer : CallToolResult :=
  ⟨true, [.text (lit "\x7b\"code\": \"NOT_FOUND\", \"server\": \"ticket\"\x7d")]⟩

/-- An error result is read, and counts as an answer. -/
theorem outage_sample : ∃ st',
    (gateway sampleSettings).step callingStart (.answered 0 errorAnswer) = some st' ∧
      (Classified callingStart st' 0 (lit "ticket") errorAnswer [.result errorAnswer] ↔
        ToldApart sampleSettings.py [.result errorAnswer]) ∧
      Classified callingStart st' 0 (lit "ticket") errorAnswer [.result errorAnswer] := by
  obtain ⟨up, hrun, hcall, hreturned, hattempts⟩ := answeredRun_ends errorAnswer
  have hrelay : (relayDecision sampleSettings.py errorAnswer).toOption = some .allowed := by
    decide +kernel
  have htold : ToldApart sampleSettings.py [.result errorAnswer] := by
    refine ⟨fun result hmem => ?_, by simp⟩
    obtain rfl : result = errorAnswer := by simpa using hmem
    refine relayDecision_eq_allowed_iff.mp ?_
    cases h : relayDecision sampleSettings.py errorAnswer with
    | ok decision => simpa [h, Except.toOption] using hrelay
    | error e => simp [h, Except.toOption] at hrelay
  have hends : ∃ st', (gateway sampleSettings).step callingStart (.answered 0 errorAnswer) =
      some st' ∧ (Classified callingStart st' 0 (lit "ticket") errorAnswer (up.callers 0).attempts ↔
        ToldApart sampleSettings.py (up.callers 0).attempts) :=
    outage_iff (d := sampleDispatch) rfl rfl rfl hrun hcall hreturned
  rw [hattempts] at hends
  obtain ⟨st', hstep, hiff⟩ := hends
  exact ⟨st', hstep, hiff, hiff.mpr htold⟩

/-- **An answer counts as an outage**: a backend that is itself such a gateway answers that
one of its own backends is unavailable. -/
theorem outage_fails : ¬∀ (cfg : Settings) (st : Gateway) (i : ℕ) (t : Task) (d : Dispatch),
    st.tasks[i]? = some t → t.phase = .calling → t.sent = some d →
    ∀ (name : Str) (as : List UpstreamAction) (up : Upstream) (k : ℕ) (result : CallToolResult),
      upstream.exec (.init name) as = some up →
      (up.callers k).operation = .call d.tool d.arguments →
      (up.callers k).phase = .returned (some result) →
      ∃ st', (gateway cfg).step st (.answered i result) = some st' ∧
        Classified st st' i d.server result (up.callers k).attempts := by
  intro hclaim
  obtain ⟨up, hrun, hcall, hreturned, hattempts⟩ :=
    answeredRun_ends (backendUnavailable (lit "crm"))
  obtain ⟨st', hstep, hanswered, -⟩ := hclaim sampleSettings callingStart 0 _
    sampleDispatch rfl rfl rfl _ _ up 0 _ hrun hcall hreturned
  have hrelayed := hanswered ⟨.result (backendUnavailable (lit "crm")), by simp [hattempts], rfl⟩
  have hrelay := (relayed_iff rfl rfl hstep).mp hrelayed
  simp [relayDecision_backendUnavailable] at hrelay

end AgentOpsGateway
