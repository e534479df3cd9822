import AgentOpsGateway.Load
import AgentOpsGateway.TicketSearch

/-!
# What the Scale-Out Script Measures

`verify_scaleout.py` counts the calls that a gateway of several replicas lets through: it
sets the refill to zero, sends a number of probes, and takes every result whose code is not
`RATE_LIMITED` for a call that has passed. Then it creates a ticket on a ticket server of
several replicas, each with a database of its own, and counts the searches that find it.

## Main results

* `measure_rate_exact`: **the measured limit is the sum over the replicas** of the smaller of
  the capacity and the number of probes that arrived there, whatever the routing.
* `replica_search_iff`: **a search finds what was created on its own replica**, and misses
  silently what was created on others, as long as SQLite takes the query as it is and no text
  that is created has a NUL.
-/

namespace AgentOpsGateway

open Python Transition

/-! ### The script -/

/-- `error_code(result)`: what stands under `code` in the payload of an error. -/
def errorCode (py : Interpreter) (result : CallToolResult) : Except Raised (Option Json) :=
  if result.isError then
    match result.content with
    | [] | .other none :: _ => .ok (some (.str (lit "UNPARSEABLE")))
    | .text text :: _ | .other (some (.str text)) :: _ =>
      match loads (py.spareLevels + 1) text with
      | .error .valueError => .ok (some (.str (lit "UNPARSEABLE")))
      | .error .recursionError => .error .recursionError
      | .ok (.obj payload) => .ok (dictGet (lit "code") payload)
      | .ok _ => .ok (some (.str (lit "UNPARSEABLE")))
    | .other (some _) :: _ => .error .typeError
  else .ok none

/-- `code == "RATE_LIMITED"`. -/
def isRateLimited : Option Json → Bool
  | some (.str code) => code = lit "RATE_LIMITED"
  | _ => false

/-- The loop of `measure_rate` over the results: how many have passed, and how many were
limited. -/
def measureRate (py : Interpreter) (results : List CallToolResult) : Except Raised (ℕ × ℕ) :=
  results.foldlM (fun counts result => do
    let code ← errorCode py result
    pure (if isRateLimited code then (counts.1, counts.2 + 1) else (counts.1 + 1, counts.2)))
    (0, 0)

/-! ### Results -/

/-- The result is read, and is a limited one or not. -/
def CountsAs (py : Interpreter) (limited : Bool) (result : CallToolResult) : Prop :=
  ∃ code, errorCode py result = .ok code ∧ isRateLimited code = limited

variable {py : Interpreter}

/-- The gateway's own errors are read by their code. -/
theorem countsAs_errorResult (py : Interpreter) (code : ErrorCode) {fields : List (Str × Str)}
    (hfields : ∀ p ∈ fields, joinSurrogates p.1 ≠ lit "code") :
    CountsAs py (decide (code = .rateLimited)) (errorResult code fields) := by
  obtain ⟨payload, hload, hcode⟩ := code_of_errorResult py.spareLevels code fields hfields
  refine ⟨some (.str code.text), ?_, by cases code <;> decide⟩
  simp only [errorCode, errorResult, if_true, hload, hcode]

/-- The counts are those of the results, in whatever order. Induction on the results. -/
theorem measureRate_eq {results : List CallToolResult} {limited : CallToolResult → Bool}
    (h : ∀ r ∈ results, CountsAs py (limited r) r) :
    measureRate py results =
      .ok (results.countP fun r => !limited r, results.countP limited) := by
  have hfold : ∀ (results : List CallToolResult), (∀ r ∈ results, CountsAs py (limited r) r) →
      ∀ passed refused : ℕ, results.foldlM (fun counts result => do
        let code ← errorCode py result
        pure (if isRateLimited code then (counts.1, counts.2 + 1) else (counts.1 + 1, counts.2)))
        (passed, refused) = (.ok (passed + results.countP (fun r => !limited r),
          refused + results.countP limited) : Except Raised (ℕ × ℕ)) := by
    intro results
    induction results with
    | nil => exact fun _ _ _ => rfl
    | cons r results ih =>
        intro h passed refused
        obtain ⟨code, hcode, hlimited⟩ := h r List.mem_cons_self
        have hrest := ih fun r' hr' => h r' (List.mem_cons_of_mem r hr')
        rw [List.foldlM_cons, hcode]
        change List.foldlM _ (if isRateLimited code then (passed, refused + 1)
          else (passed + 1, refused)) results = _
        rw [hlimited, List.countP_cons, List.countP_cons]
        cases hr : limited r with
        | true =>
            rw [if_pos rfl, hrest]
            refine congrArg Except.ok (Prod.ext ?_ ?_)
            · simp
            · simp
              omega
        | false =>
            rw [if_neg Bool.false_ne_true, hrest]
            refine congrArg Except.ok (Prod.ext ?_ ?_)
            · simp
              omega
            · simp
  have hstart := hfold results h 0 0
  rw [Nat.zero_add, Nat.zero_add] at hstart
  exact hstart

/-! ### Tasks -/

/-- The names of the fields of a refusal. -/
theorem deniedFields_ne_code (agent : Str) (d : Decision) :
    ∀ p ∈ deniedFields agent d, joinSurrogates p.1 ≠ lit "code" := by
  have hrule : joinSurrogates (lit "rule") ≠ lit "code" := by decide
  have hagent : joinSurrogates (lit "agent") ≠ lit "code" := by decide
  have hdetail : joinSurrogates (lit "detail") ≠ lit "code" := by decide
  intro p hp
  cases hd : d.detail with
  | none =>
      simp only [deniedFields, hd, List.append_nil, List.mem_cons, List.not_mem_nil, or_false] at hp
      rcases hp with rfl | rfl
      · exact hrule
      · exact hagent
  | some detail =>
      simp only [deniedFields, hd, List.mem_append, List.mem_cons, List.not_mem_nil, or_false] at hp
      rcases hp with (rfl | rfl) | rfl
      · exact hrule
      · exact hagent
      · exact hdetail

/-- What a segment returns that is none of the limiter's refusals counts as passed. -/
def Halt.Passes (py : Interpreter) (h : Halt) : Prop :=
  ∀ result decision, h = .ret result decision → CountsAs py false result

/-- Behind the limiter a segment refuses with codes of its own. -/
theorem passes_routeResolved (cfg : Settings) (g : Shared) (r : Request) (server tool : Str) :
    (routeResolved cfg g r server tool).2.Passes cfg.py := by
  have hunknown : CountsAs cfg.py false (errorResult .unknownTool [(lit "tool", r.name)]) :=
    countsAs_errorResult cfg.py .unknownTool (field_ne_code (by decide))
  have hdown : CountsAs cfg.py false (backendUnavailable server) :=
    countsAs_errorResult cfg.py .backendUnavailable (field_ne_code (by decide))
  have hdenied : ∀ d, CountsAs cfg.py false (errorResult .policyDenied (deniedFields r.agent d)) :=
    fun d => countsAs_errorResult cfg.py .policyDenied (deniedFields_ne_code r.agent d)
  intro result decision hret
  simp only [routeResolved, unknownTool] at hret
  split at hret
  · obtain ⟨rfl, -⟩ := Halt.ret.inj hret
    exact hunknown
  · split at hret
    · simp at hret
    · next d _ =>
        split at hret
        · split at hret
          · simp at hret
          · obtain ⟨rfl, -⟩ := Halt.ret.inj hret
            exact hdown
        · obtain ⟨rfl, -⟩ := Halt.ret.inj hret
          exact hdenied d

/-- Where a request has its token, the first segment passes. -/
theorem passes_routeArrive (cfg : Settings) {g : Shared} {r : Request}
    (hgranted : (g.takeToken r.agent).1 = true) : (routeArrive cfg g r).2.Passes cfg.py := by
  have hunknown : CountsAs cfg.py false (errorResult .unknownTool [(lit "tool", r.name)]) :=
    countsAs_errorResult cfg.py .unknownTool (field_ne_code (by decide))
  intro result decision hret
  simp only [routeArrive, if_pos hgranted, unknownTool] at hret
  split at hret
  · obtain ⟨rfl, -⟩ := Halt.ret.inj hret
    exact hunknown
  · split at hret
    · obtain ⟨rfl, -⟩ := Halt.ret.inj hret
      exact hunknown
    · split at hret
      · simp at hret
      · exact passes_routeResolved cfg _ r _ _ result decision hret

theorem passes_routeReloaded (cfg : Settings) (g : Shared) (r : Request) (server tool : Str)
    (ok : Bool) : (routeReloaded cfg g r server tool ok).2.Passes cfg.py := by
  cases ok with
  | true => exact passes_routeResolved cfg g r server tool
  | false =>
      intro result decision hret
      obtain ⟨rfl, -⟩ := Halt.ret.inj hret
      exact countsAs_errorResult cfg.py .backendUnavailable (field_ne_code (by decide))

/-- A task that got its token has been answered what counts as passed. -/
def Task.Passed (py : Interpreter) (t : Task) : Prop :=
  t.granted = true → ∀ result decision, t.phase = .returned result decision →
    CountsAs py false result

/-- No backend answers as if it were the limiter: `error_code` can read each answer, whichever
agent it is for, and finds another code or none. -/
def Action.Unlimited (py : Interpreter) : Action → Prop
  | .answered _ result => CountsAs py false result
  | _ => True

theorem phase_eq_returned {h : Halt} {result : CallToolResult} {decision : AuditDecision}
    (hphase : h.phase = .returned result decision) : h = .ret result decision := by
  cases h <;> simp_all [Halt.phase]

/-- **A task that got its token keeps counting as passed.** -/
theorem passed_step {cfg : Settings} {st st' : Gateway} {a : Action}
    (h : ∀ t ∈ st.tasks, t.Passed cfg.py) (ha : a.Unlimited cfg.py)
    (hstep : (gateway cfg).step st a = some st') : ∀ t ∈ st'.tasks, t.Passed cfg.py := by
  intro t' ht'
  obtain ⟨i, hi⟩ := List.mem_iff_getElem?.mp ht'
  rcases task_of_step hstep hi with ⟨r, -, -, rfl⟩ | ⟨t, ht, hmove⟩
  · exact fun hgranted result decision hphase =>
      passes_routeArrive cfg hgranted result decision (phase_eq_returned hphase)
  · have hpassed := h t (List.mem_of_getElem? ht)
    rcases hmove with rfl | ⟨ok, server, tool, -, -, rfl⟩ | ⟨result, d, rfl, -, -, rfl⟩ |
      ⟨-, -, rfl⟩
    · exact hpassed
    · exact fun _ result decision hphase =>
        passes_routeReloaded cfg _ _ _ _ _ result decision (phase_eq_returned hphase)
    · intro hgranted result' decision hphase
      have hret := phase_eq_returned hphase
      simp only [routeAnswered] at hret
      split at hret
      · simp at hret
      · obtain ⟨rfl, -⟩ := Halt.ret.inj hret
        exact ha
    · exact fun _ result decision hphase => by simp at hphase

/-! ### Replicas without refill -/

/-- The tasks of an agent. -/
def Gateway.tasksOf (agent : Str) (st : Gateway) : List Task :=
  st.tasks.filter fun t => t.request.agent = agent

/-- The results of an agent's tasks. -/
def Gateway.resultsOf (agent : Str) (st : Gateway) : List CallToolResult :=
  (st.tasksOf agent).filterMap Task.result

/-- A count carries over to the images of a partial map that is defined everywhere. -/
theorem countP_filterMap_of_forall {α β : Type*} {f : α → Option β} {p : β → Bool} {q : α → Bool}
    {l : List α} (h : ∀ a ∈ l, ∃ b, f a = some b ∧ p b = q a) :
    (l.filterMap f).countP p = l.countP q ∧ (l.filterMap f).length = l.length := by
  induction l with
  | nil => exact ⟨rfl, rfl⟩
  | cons a l ih =>
      obtain ⟨b, hb, hpq⟩ := h a List.mem_cons_self
      obtain ⟨hcount, hlength⟩ := ih fun a' ha' => h a' (List.mem_cons_of_mem a ha')
      rw [List.filterMap_cons_some hb, List.countP_cons, List.countP_cons, hcount, hpq,
        List.length_cons, List.length_cons, hlength]
      exact ⟨rfl, rfl⟩

section Pod

variable {cfg : Settings} {capacity : ℤ} {pod pod' : Gateway} {acts : List Action}

/-- A replica without refill lets as many requests of an agent through as its bucket had
tokens. -/
theorem granted_eq_min (h : FreshPod capacity 0 pod)
    (hrun : (gateway cfg).exec pod acts = some pod') (hcapacity : 0 ≤ capacity) (agent : Str) :
    (pod'.tasksOf agent).countP Task.granted = min capacity.toNat (pod'.tasksOf agent).length := by
  obtain ⟨now, hmetered, -⟩ := h.metered hrun
  set l := RateLimiter.init capacity 0 now with hl
  set times := ((pod'.tasks.map fun t => t.answer.call).filter fun c => c.2 = agent).map Prod.fst
    with htimes
  have hanswers : (TokenBucket.serve l.params none times).map (Answer.ofPoll agent) =
      (pod'.tasksOf agent).map Task.answer := by
    rw [Gateway.tasksOf, ← hmetered.answersTo, RateLimiter.answersTo_eq]
    rfl
  have hlength : (TokenBucket.serve l.params none times).length = (pod'.tasksOf agent).length := by
    simpa only [List.length_map] using congrArg List.length hanswers
  have hcount : TokenBucket.admissions (TokenBucket.serve l.params none times) =
      (pod'.tasksOf agent).countP Task.granted := by
    have hadmitted := congrArg (List.countP Answer.admitted) hanswers
    rw [List.countP_map, List.countP_map] at hadmitted
    exact hadmitted
  have hlevel : ∀ time, TokenBucket.level l.params none time = (capacity.toNat : ℚ) := by
    intro time
    have hcast : ((capacity.toNat : ℤ) : ℚ) = capacity := by rw [Int.toNat_of_nonneg hcapacity]
    exact hcast.symm.trans (Int.cast_natCast _)
  rw [← hcount, ← hlength, TokenBucket.admissions_of_rate_zero rfl hlevel,
    ← List.length_map TokenBucket.Poll.time, TokenBucket.map_time_serve]

/-- The results of a replica whose requests have all been answered. -/
theorem resultsOf_countP {py : Interpreter} {limited : CallToolResult → Bool}
    (hlimited : ∀ {b : Bool} {r : CallToolResult}, CountsAs py b r → limited r = b)
    (hrefused : ∀ t ∈ pod.tasks, t.granted = false → t.Refused)
    (hpassed : ∀ t ∈ pod.tasks, t.Passed py) {agent : Str}
    (hdone : ∀ t ∈ pod.tasksOf agent, t.result.isSome = true) :
    (pod.resultsOf agent).countP (fun r => !limited r) =
        (pod.tasksOf agent).countP Task.granted ∧
      (pod.resultsOf agent).length = (pod.tasksOf agent).length ∧
      ∀ r ∈ pod.resultsOf agent, CountsAs py (limited r) r := by
  have hresult : ∀ t ∈ pod.tasksOf agent, ∃ r, t.result = some r ∧ CountsAs py (!t.granted) r := by
    intro t ht
    obtain ⟨r, hr⟩ := Option.isSome_iff_exists.mp (hdone t ht)
    have hmem := (List.mem_filter.mp ht).1
    obtain ⟨decision, hphase⟩ := Task.result_eq_some_iff.mp hr
    refine ⟨r, hr, ?_⟩
    cases hgranted : t.granted with
    | true => exact hpassed t hmem hgranted r decision hphase
    | false =>
        have hreturned := (hrefused t hmem hgranted).2
        rw [hphase, Phase.returned.injEq] at hreturned
        rw [hreturned.1]
        exact countsAs_errorResult py .rateLimited (field_ne_code (by decide))
  have hcounts := countP_filterMap_of_forall (f := Task.result) (p := fun r => !limited r)
    (q := Task.granted) (l := pod.tasksOf agent) fun t ht => by
      obtain ⟨r, hr, hcounts⟩ := hresult t ht
      exact ⟨r, hr, by rw [hlimited hcounts, Bool.not_not]⟩
  refine ⟨hcounts.1, hcounts.2, fun r hr => ?_⟩
  obtain ⟨t, ht, htr⟩ := List.mem_filterMap.mp hr
  obtain ⟨r', hr', hcountsAs⟩ := hresult t ht
  obtain rfl : r' = r := Option.some.inj (hr'.symm.trans htr)
  rw [hlimited hcountsAs]
  exact hcountsAs

end Pod

/-- **The measured limit.** Without refill, in every run of any number of replicas in which
`error_code` reads each answer of a backend, to this agent or another, as that of no limiter,
and the requests of the agent have all returned, whichever replica they were routed to and in
whatever order their results are counted: the script counts as passed the sum, over the
replicas, of the smaller of the capacity and the requests that arrived there, and all others as
limited. Where each replica gets its share, the measured limit is the number of replicas times
the capacity. -/
theorem measure_rate_exact (cfg : Settings) {capacity : ℤ} (hcapacity : 0 ≤ capacity)
    {pods pods' : List Gateway} (hpods : ∀ pod ∈ pods, FreshPod capacity 0 pod)
    {acts : List (ℕ × Action)} (hacts : ∀ a ∈ acts, a.2.Unlimited cfg.py)
    (hrun : (gateway cfg).fleet.exec pods acts = some pods') (agent : Str)
    (hdone : ∀ pod ∈ pods', ∀ t ∈ pod.tasksOf agent, t.result.isSome = true)
    {results : List CallToolResult} (hresults : results.Perm (pods'.flatMap (·.resultsOf agent))) :
    let passed := (pods'.map fun pod => min capacity.toNat (pod.tasksOf agent).length).sum
    measureRate cfg.py results = .ok (passed, results.length - passed) ∧
      ((∀ pod ∈ pods', capacity.toNat ≤ (pod.tasksOf agent).length) →
        passed = pods.length * capacity.toNat) := by
  intro passed
  set limited : CallToolResult → Bool := fun r =>
    (errorCode cfg.py r).toOption.any isRateLimited with hlimiteddef
  have hlimited : ∀ {b : Bool} {r : CallToolResult}, CountsAs cfg.py b r → limited r = b := by
    rintro b r ⟨code, hcode, rfl⟩
    simp only [hlimiteddef, hcode]
    rfl
  have hpod : ∀ pod ∈ pods', (pod.resultsOf agent).countP (fun r => !limited r) =
      min capacity.toNat (pod.tasksOf agent).length ∧
        ∀ r ∈ pod.resultsOf agent, CountsAs cfg.py (limited r) r := by
    intro pod' hpod'
    obtain ⟨i, hi⟩ := List.mem_iff_getElem?.mp hpod'
    obtain ⟨pod, hpod, hexec⟩ := System.exec_own hrun hi
    have hfresh := hpods pod (List.mem_of_getElem? hpod)
    obtain ⟨-, -, hrefused⟩ := hfresh.metered hexec
    have hstart : ∀ t ∈ pod.tasks, t.Passed cfg.py := by
      rw [hfresh.tasks]
      exact fun t ht => absurd ht List.not_mem_nil
    have hpassed : ∀ t ∈ pod'.tasks, t.Passed cfg.py :=
      System.invariant (C := fun _ a => a.Unlimited cfg.py)
        (fun _ _ _ h ha hstep => passed_step h ha hstep) hstart
        (System.each_of_mem fun a ha _ => System.forall_mem_own hacts i a ha) hexec
    obtain ⟨hcount, -, hcounts⟩ := resultsOf_countP hlimited hrefused hpassed (hdone pod' hpod')
    exact ⟨hcount.trans (granted_eq_min hfresh hexec hcapacity agent), hcounts⟩
  have hpassed : results.countP (fun r => !limited r) = passed := by
    rw [hresults.countP_eq, List.countP_flatMap]
    exact congrArg List.sum (List.map_congr_left fun pod h => (hpod pod h).1)
  have hlength :
      results.length = results.countP (fun r => !limited r) + results.countP limited := by
    rw [List.length_eq_countP_add_countP limited, Nat.add_comm]
    refine congrArg (· + _) (List.countP_congr fun r _ => ?_)
    simp
  constructor
  · rw [measureRate_eq fun r hr => ?_, hlength, hpassed, Nat.add_sub_cancel_left]
    obtain ⟨pod, h, hmem⟩ := List.mem_flatMap.mp (hresults.mem_iff.mp hr)
    exact (hpod pod h).2 r hmem
  · intro hshare
    have hconst : (pods'.map fun pod => min capacity.toNat (pod.tasksOf agent).length) =
        List.replicate pods'.length capacity.toNat :=
      List.map_eq_replicate_iff.mpr fun pod h => Nat.min_eq_left (hshare pod h)
    rw [← (System.exec_fleet hrun).1]
    exact (congrArg List.sum hconst).trans (List.sum_replicate_nat ..)

/-- The probes of a run on two replicas of one token each: two go to the first one. -/
def sampleProbes : List (ℕ × Action) :=
  [(0, .arrive sampleRequest), (1, .arrive sampleRequest), (0, .arrive sampleRequest),
    (0, .answered 0 sampleResult), (1, .answered 0 sampleResult)]

/-- Three probes on two replicas of one token each: the measured limit is two. -/
theorem measure_rate_sample : ∃ pods',
    (gateway sampleSettings).fleet.exec [samplePod 1 0, samplePod 1 0] sampleProbes = some pods' ∧
      measureRate sampleSettings.py (pods'.flatMap (·.resultsOf (lit "dev-agent"))) =
        .ok (2, 1) := by
  have hcheck : ((gateway sampleSettings).fleet.exec [samplePod 1 0, samplePod 1 0]
      sampleProbes).any (fun pods' =>
        (pods'.all fun pod => (pod.tasksOf (lit "dev-agent")).all fun t => t.result.isSome) &&
        decide ((pods'.map fun pod => min 1 (pod.tasksOf (lit "dev-agent")).length).sum = 2) &&
        decide ((pods'.flatMap (·.resultsOf (lit "dev-agent"))).length = 3)) = true := by
    decide +kernel
  obtain ⟨pods', hrun, hfacts⟩ := (Option.any_eq_true _ _).mp hcheck
  simp only [Bool.and_eq_true, List.all_eq_true, decide_eq_true_eq] at hfacts
  obtain ⟨⟨hdone, hsum⟩, hlength⟩ := hfacts
  have hpods : ∀ pod ∈ [samplePod 1 0, samplePod 1 0], FreshPod 1 0 pod := by
    intro pod hpod
    obtain rfl : pod = samplePod 1 0 := by simpa using hpod
    exact freshPod_sample 1 0
  have hacts : ∀ a ∈ sampleProbes, a.2.Unlimited sampleSettings.py := by
    have hresult : CountsAs sampleSettings.py false sampleResult := ⟨none, rfl, rfl⟩
    simp [sampleProbes, Action.Unlimited, hresult]
  have hmeasure := (measure_rate_exact sampleSettings (by decide) hpods hacts hrun
    (lit "dev-agent") hdone (.refl _)).1
  have hone : (1 : ℤ).toNat = 1 := rfl
  rw [hone, hsum, hlength] at hmeasure
  exact ⟨pods', hrun, hmeasure⟩

/-! ### Ticket servers -/

/-- What a search is counted as. -/
inductive SearchOutcome
  | hit
  | silentMiss
  | loud
  deriving DecidableEq

/-- `classify(result)`: an exception of the server comes back as an error, a list of hits as
the structured content. -/
def classify : Except TicketError TicketReply → SearchOutcome
  | .error _ => .loud
  | .ok (.hits []) => .silentMiss
  | .ok _ => .hit

/-- A ticket with that title and body was created: the call has returned. -/
def TicketRun.Created (st : TicketRun) (title body : Str) : Prop :=
  ∃ createdAt id status,
    (TicketOp.create title body createdAt, .ok (.status id status)) ∈ st.history

/-- The tickets of the table are the created ones. -/
def TicketRun.Recorded (st : TicketRun) : Prop :=
  ∀ title body, (∃ t ∈ ticketsOf st.file, t.title = title ∧ t.body = body) ↔ st.Created title body

/-- A call that creates nothing leaves no trace in what has been created. -/
theorem created_concat {st : TicketRun} {file : Option TicketDb} {e : TicketEvent}
    (he : ∀ title body createdAt id status,
      e ≠ (.create title body createdAt, .ok (.status id status))) (title body : Str) :
    TicketRun.Created ⟨file, st.history ++ [e]⟩ title body ↔ st.Created title body := by
  simp only [TicketRun.Created, List.mem_append, List.mem_singleton]
  constructor
  · rintro ⟨createdAt, id, status, hmem | heq⟩
    · exact ⟨createdAt, id, status, hmem⟩
    · exact absurd heq.symm (he title body createdAt id status)
  · rintro ⟨createdAt, id, status, hmem⟩
    exact ⟨createdAt, id, status, Or.inl hmem⟩

/-- **One operation keeps the table in step with what has been created.** -/
theorem TicketRun.Recorded.step {sql : Sqlite} {st st' : TicketRun} {op : TicketOp}
    (h : st.Recorded) (hstep : (ticketServer sql py).step st op = some st') : st'.Recorded := by
  obtain rfl := Option.some.inj hstep
  -- an operation that leaves the rows, up to their status, where they are
  have hkeep : ∀ {tickets : List Ticket},
      (∀ title body, (∃ t ∈ tickets, t.title = title ∧ t.body = body) ↔
        ∃ t ∈ ticketsOf st.file, t.title = title ∧ t.body = body) →
      ticketsOf (perform sql py st.file op).2 = tickets →
      (∀ title body createdAt id status, (op, (perform sql py st.file op).1) ≠
        (TicketOp.create title body createdAt, .ok (.status id status))) →
      TicketRun.Recorded ⟨(perform sql py st.file op).2,
        st.history ++ [(op, (perform sql py st.file op).1)]⟩ := by
    rintro tickets hsame rfl hevent title body
    rw [hsame, h, created_concat hevent]
  cases op with
  | create title body createdAt =>
      by_cases hinsert : Insertable sql (connect st.file) title body createdAt
      · intro title' body'
        simp only [createTicket_of_insertable hinsert]
        have htable : ticketsOf (some ((connect st.file).inserted title body createdAt)) =
            ticketsOf st.file ++
              [⟨(connect st.file).lastId + 1, title, body, lit "open", createdAt⟩] := rfl
        simp only [htable, List.mem_append, List.mem_singleton, TicketRun.Created]
        constructor
        · rintro ⟨t, ht | rfl, rfl, rfl⟩
          · obtain ⟨c, id, status, hmem⟩ := (h t.title t.body).mp ⟨t, ht, rfl, rfl⟩
            exact ⟨c, id, status, Or.inl hmem⟩
          · exact ⟨createdAt, _, _, Or.inr rfl⟩
        · rintro ⟨c, id, status, hmem | heq⟩
          · obtain ⟨t, ht, htitle, hbody⟩ := (h title' body').mpr ⟨c, id, status, hmem⟩
            exact ⟨t, Or.inl ht, htitle, hbody⟩
          · simp only [Prod.mk.injEq, TicketOp.create.injEq] at heq
            obtain ⟨⟨rfl, rfl, -⟩, -⟩ := heq
            exact ⟨_, Or.inr rfl, rfl, rfl⟩
      · obtain ⟨e, he⟩ := createTicket_of_not_insertable hinsert
        refine hkeep (fun _ _ => Iff.rfl) ?_ ?_
        · simp only [perform, he]
          rfl
        · simp [perform, he]
  | search query =>
      refine hkeep (fun _ _ => Iff.rfl) (congrArg TicketDb.tickets (connect_searchTickets query)) ?_
      simp
  | update ticketId status =>
      obtain ⟨e, he, hconnect⟩ | ⟨-, -, heq⟩ := @updateStatus_cases sql py st.file ticketId status
      · exact hkeep (fun _ _ => Iff.rfl) (congrArg TicketDb.tickets hconnect) (by simp)
      · refine hkeep (fun title body => ?_) (congrArg (fun r => ticketsOf r.2) heq) (by simp)
        have hsame : ∀ t : Ticket, (if t.id = ticketId then t.withStatus status else t).title =
            t.title ∧ (if t.id = ticketId then t.withStatus status else t).body = t.body := by
          intro t
          split <;> exact ⟨rfl, rfl⟩
        constructor
        · rintro ⟨t, ht, htitle, hbody⟩
          obtain ⟨u, hu, rfl⟩ := List.mem_map.mp ht
          exact ⟨u, hu, (hsame u).1 ▸ htitle, (hsame u).2 ▸ hbody⟩
        · rintro ⟨t, ht, htitle, hbody⟩
          exact ⟨_, List.mem_map_of_mem ht, (hsame t).1.trans htitle, (hsame t).2.trans hbody⟩

/-- The texts that are created have no NUL, where `LIKE` would stop reading them. -/
def TicketOp.NulFree : TicketOp → Prop
  | .create title body _ => hasNul title = false ∧ hasNul body = false
  | _ => True

/-- The query is taken as it is: `LIKE` reads no wildcard in it, and its pattern is bound and
short enough. -/
structure PlainQuery (sql : Sqlite) (query : Str) : Prop where
  nulFree : hasNul query = false
  noWildcard : NoWildcard query
  bindable : Bindable sql (likePattern query)
  short : utf8Length (likePattern query) ≤ sql.maxPattern

/-- A plain query finds the tickets that contain it. -/
theorem classify_search {sql : Sqlite} {file : Option TicketDb} {query : Str}
    (hquery : PlainQuery sql query) (hfile : NulFree file) :
    classify (searchTickets sql file query).1 =
      if (ticketsOf file).any fun t => containsText query t.title || containsText query t.body then
        .hit
      else .silentMiss := by
  have honly : FindsOnlyContaining file query := by
    intro t ht hlike
    obtain ⟨htitle, hbody⟩ := hfile t ht
    rw [Bool.or_eq_true] at hlike ⊢
    exact hlike.imp (contains_of_like hquery.nulFree htitle hquery.noWildcard)
      (contains_of_like hquery.nulFree hbody hquery.noWildcard)
  rw [(search_exact_iff hquery.nulFree hfile).mpr
    ⟨⟨hquery.bindable, Or.inr hquery.short⟩, honly⟩, substringHits]
  cases hhits : (ticketsOf file).filter fun t =>
      containsText query t.title || containsText query t.body with
  | nil =>
      have hnone := List.filter_eq_nil_iff.mp hhits
      rw [if_neg fun hany => ?_]
      · rfl
      · obtain ⟨t, ht, hcontains⟩ := List.any_eq_true.mp hany
        exact hnone t ht hcontains
  | cons t tickets =>
      have hmem : t ∈ (ticketsOf file).filter fun t =>
          containsText query t.title || containsText query t.body := by simp [hhits]
      obtain ⟨ht, hcontains⟩ := List.mem_filter.mp hmem
      rw [if_pos (List.any_eq_true.mpr ⟨t, ht, hcontains⟩)]
      rfl

/-- **A search finds what was created on its own replica.** In every run of any number of
ticket servers, whichever of them each call is routed to, where no title or body that is created
has a NUL: a search on one of them, for a query without NUL and wildcards whose pattern can be
bound and is no longer than `LIKE` takes, is a hit exactly where a ticket that contains it has
been created on that one, and otherwise a silent miss, whatever has been created on the others.
-/
theorem replica_search_iff (sql : Sqlite) (py : Interpreter) {n : ℕ}
    {acts : List (ℕ × TicketOp)} {servers : List TicketRun}
    (hrun : (ticketServer sql py).fleet.exec (List.replicate n .init) acts = some servers)
    (hacts : ∀ a ∈ acts, a.2.NulFree) {query : Str} (hquery : PlainQuery sql query) {i : ℕ}
    {server : TicketRun} (hserver : servers[i]? = some server) :
    server.history.map Prod.fst = System.own i acts ∧
      (classify (searchTickets sql server.file query).1 = .hit ↔
        ∃ title body, server.Created title body ∧
          (containsText query title || containsText query body) = true) ∧
      (classify (searchTickets sql server.file query).1 = .silentMiss ↔
        ∀ title body, server.Created title body →
          (containsText query title || containsText query body) = false) := by
  obtain ⟨start, hstart, hexec⟩ := System.exec_own hrun hserver
  obtain rfl : start = .init := (List.mem_replicate.mp (List.mem_of_getElem? hstart)).2
  have hrecorded : server.Recorded := by
    refine System.invariant' (fun _ _ _ h hstep => h.step hstep) (fun title body => ?_) hexec
    simp [ticketsOf, connect, TicketRun.init, TicketRun.Created]
  have hhistory : server.history.map Prod.fst = System.own i acts := by
    obtain ⟨server', hexec', hhistory⟩ := exec_ticketServer sql py (System.own i acts) .init
    obtain rfl : server' = server := Option.some.inj (hexec'.symm.trans hexec)
    exact hhistory
  have hnul : NulFree server.file := by
    intro t ht
    obtain ⟨createdAt, id, status, hmem⟩ := (hrecorded t.title t.body).mp ⟨t, ht, rfl, rfl⟩
    have hop : TicketOp.create t.title t.body createdAt ∈ System.own i acts := by
      rw [← hhistory]
      exact List.mem_map_of_mem hmem
    exact System.forall_mem_own hacts i _ hop
  have hany : ((ticketsOf server.file).any fun t =>
      containsText query t.title || containsText query t.body) = true ↔
        ∃ title body, server.Created title body ∧
          (containsText query title || containsText query body) = true := by
    rw [List.any_eq_true]
    constructor
    · rintro ⟨t, ht, hcontains⟩
      exact ⟨t.title, t.body, (hrecorded _ _).mp ⟨t, ht, rfl, rfl⟩, hcontains⟩
    · rintro ⟨title, body, hcreated, hcontains⟩
      obtain ⟨t, ht, rfl, rfl⟩ := (hrecorded _ _).mpr hcreated
      exact ⟨t, ht, hcontains⟩
  have hnone : (∀ title body, server.Created title body →
      (containsText query title || containsText query body) = false) ↔
        ¬∃ title body, server.Created title body ∧
          (containsText query title || containsText query body) = true := by
    simp only [not_exists, not_and, Bool.not_eq_true]
  rw [classify_search hquery hnul, hnone, ← hany]
  refine ⟨hhistory, ?_, ?_⟩ <;> split <;> simp_all

/-- A ticket created on one of three servers is missed silently on the first. -/
theorem replica_search_sample : ∃ servers,
    (ticketServer defaultSqlite ⟨100, fun _ => true⟩).fleet.exec (List.replicate 3 .init)
        [(1, .create (lit "t7") (lit "T7") someTime)] = some servers ∧
      ∀ server ∈ servers[0]?,
        classify (searchTickets defaultSqlite server.file (lit "t7")).1 = .silentMiss := by
  have hrun : ((ticketServer defaultSqlite ⟨100, fun _ => true⟩).fleet.exec
      (List.replicate 3 .init) [(1, .create (lit "t7") (lit "T7") someTime)]).isSome = true := by
    decide +kernel
  obtain ⟨servers, hrun⟩ := Option.isSome_iff_exists.mp hrun
  have hacts : ∀ a ∈ [((1 : ℕ), TicketOp.create (lit "t7") (lit "T7") someTime)], a.2.NulFree := by
    intro a ha
    obtain rfl := List.mem_singleton.mp ha
    exact ⟨by decide, by decide⟩
  have hplain : ((lit "t7").all fun c => c ≠ ofChar '%' && c ≠ ofChar '_') = true := by decide
  have hquery : PlainQuery defaultSqlite (lit "t7") :=
    ⟨by decide, fun c hc => by simpa using List.all_eq_true.mp hplain c hc,
      ⟨by decide, by decide⟩, by decide⟩
  refine ⟨servers, hrun, fun server hserver => ?_⟩
  obtain ⟨hhistory, -, hmiss⟩ := replica_search_iff defaultSqlite _ hrun hacts hquery hserver
  refine hmiss.mpr fun title body hcreated => ?_
  -- nothing has been called on the first server
  obtain ⟨createdAt, id, status, hmem⟩ := hcreated
  have hempty : server.history = [] := List.map_eq_nil_iff.mp hhistory
  rw [hempty] at hmem
  exact absurd hmem List.not_mem_nil

end AgentOpsGateway
