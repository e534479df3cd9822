import AgentOpsGateway.Isolation

/-!
# The Contract of `Backend.call`

Whatever happens to the connection, a call makes one attempt, reconnects, makes a second one,
and gives up. Here the requests of a caller are counted and followed from their dispatch to
the end of the call.

## Main results

* `call_contract`: **in every run without cancellations** a call returns a reply to a request
  of its own or `BACKEND_UNAVAILABLE`, after at most two requests with its tool and its
  arguments, the second only after the first has failed, each in a race with the connection
  task that has opened its session.
-/

namespace AgentOpsGateway

open Python Transition

/-! ### What is promised -/

/-- The request has ended without a result: it has raised, or the race was lost. -/
def Reply.isFailed : Reply → Bool
  | .raised _ | .cancelled => true
  | .pending | .replied _ => false

/-- The attempts that a call has made when it waits for a section. -/
def Section.attempts : Section → ℕ
  | .connect retry => retry.toNat
  | .giveUp => 2
  | .close => 0

namespace Upstream

/-- The requests of a caller, in the order of their dispatch. -/
def asked (st : Upstream) (i : ℕ) : List ℕ :=
  (List.range st.requestCount).filter fun r => (st.requests r).caller = i

/-- The requests have ended without a result. -/
def Fails (st : Upstream) (rs : List ℕ) : Prop :=
  ∀ r ∈ rs, (st.requests r).reply.isFailed = true

/-- What holds of the requests of caller `i` for a call of `tool` with `arguments`. -/
structure Dispatches (st : Upstream) (i : ℕ) (tool : Str) (arguments : Arguments) : Prop where
  /-- Two requests at most. -/
  twice : (st.asked i).length ≤ 2
  /-- Both with the tool and the arguments of the call. -/
  unchanged : ∀ r ∈ st.asked i, (st.requests r).tool = tool ∧ (st.requests r).arguments = arguments
  /-- The second one only after the first has failed. -/
  ordered : ∀ r ∈ st.asked i, ∀ r' ∈ st.asked i, r < r' → (st.requests r).reply.isFailed = true
  /-- A request that waits for its answer is in a race with the task of its connection. -/
  raced : ∀ r ∈ st.asked i, (st.requests r).reply = .pending →
    ∃ retry, (st.callers i).phase = .racing retry r (st.requests r).connection
  /-- Every race of the call is one of these. -/
  races : ∀ retry r owner, (st.callers i).phase = .racing retry r owner →
    r ∈ st.asked i ∧ (st.requests r).connection = owner

/-- What a call that has ended has returned: a reply to a request of its own, or
`BACKEND_UNAVAILABLE` of this backend. -/
def Returns (name : Str) (st : Upstream) (i : ℕ) : Prop :=
  (st.callers i).phase ≠ .raised ∧ (st.callers i).phase ≠ .cancelled ∧
    ∀ p, (st.callers i).phase = .returned p → ∃ result, p = some result ∧
      ((∃ r ∈ st.asked i, (st.requests r).reply = .replied result) ∨
        result = backendUnavailable name ∧ st.Fails (st.asked i))

/-! ### The invariant -/

/-- Where caller `i` can stand: the requests it has made by then, and how they have ended. -/
def Keeps (name : Str) (st : Upstream) (i : ℕ) : CallerPhase → Prop
  | .idle => st.asked i = []
  | .acquiring s | .tearing s _ => (st.asked i).length ≤ s.attempts ∧ st.Fails (st.asked i) ∧
      (s = .close → (st.callers i).operation.isCall = false)
  | .connecting retry _ => (st.asked i).length ≤ retry.toNat ∧ st.Fails (st.asked i)
  | .racing retry r owner => ∃ rs, st.asked i = rs ++ [r] ∧ rs.length ≤ retry.toNat ∧
      st.Fails rs ∧ (st.requests r).connection = owner ∧ (st.requests r).reply ≠ .cancelled
  | .returned p => (st.callers i).operation.isCall = true → ∃ result, p = some result ∧
      ((∃ rs r, st.asked i = rs ++ [r] ∧ rs.length ≤ 1 ∧ st.Fails rs ∧
          (st.requests r).reply = .replied result) ∨
        result = backendUnavailable name ∧ (st.asked i).length ≤ 2 ∧ st.Fails (st.asked i))
  | .raised => (st.callers i).operation.isCall = false
  | .cancelled => False

/-- **The contract** of caller `i`: its requests are those of its call, and it stands where
it can. -/
structure Kept (name : Str) (st : Upstream) (i : ℕ) : Prop where
  own : ∀ r ∈ st.asked i,
    (st.callers i).operation = .call (st.requests r).tool (st.requests r).arguments
  phase : st.Keeps name i (st.callers i).phase

/-- The requests of caller `j` go on: no new one, and what has ended stays. -/
structure Follows (j : ℕ) (st st' : Upstream) : Prop where
  asked : st'.asked j = st.asked j
  same : ∀ r ∈ st.asked j, (st'.requests r).tool = (st.requests r).tool ∧
    (st'.requests r).arguments = (st.requests r).arguments ∧
    (st'.requests r).connection = (st.requests r).connection
  settled : ∀ r ∈ st.asked j, (st.requests r).reply ≠ .pending →
    (st'.requests r).reply = (st.requests r).reply
  uncancelled : ∀ r ∈ st.asked j, (st.requests r).reply ≠ .cancelled →
    (st'.requests r).reply ≠ .cancelled

variable {name : Str} {st st' : Upstream} {i j c r : ℕ} {retry : Bool} {rs : List ℕ}

/-! ### Requests that go on -/

theorem mem_asked : r ∈ st.asked i ↔ r < st.requestCount ∧ (st.requests r).caller = i := by
  simp [asked]

/-- A caller that makes no request keeps those it has. -/
theorem Extends.follows (h : Extends j st st') : Follows j st st' := by
  have hold : ∀ r ∈ st.asked j, st'.requests r = st.requests r := fun r hr =>
    h.old r (mem_asked.mp hr).1
  refine ⟨?_, fun r hr => ?_, fun r hr _ => by rw [hold r hr], fun r hr h => ?_⟩
  · obtain ⟨n, hn⟩ := Nat.exists_eq_add_of_le h.count
    have hnew : (((List.range n).map (st.requestCount + ·)).filter fun r =>
        (st'.requests r).caller = j) = [] := by
      rw [List.filter_eq_nil_iff]
      intro r hr
      obtain ⟨k, hk, rfl⟩ := List.mem_map.mp hr
      simpa using h.new _ (Nat.le_add_right _ _) (by have := List.mem_range.mp hk; omega)
    rw [asked, hn, List.range_add, List.filter_append, hnew, List.append_nil]
    refine List.filter_congr fun r hr => ?_
    rw [h.old r (List.mem_range.mp hr)]
  · rw [hold r hr]
    exact ⟨rfl, rfl, rfl⟩
  · rwa [hold r hr]

/-- A request that waits changes its answer; only its caller cancels it. -/
theorem follows_setRequest {x : Exchange} (hcaller : x.caller = (st.requests r).caller)
    (htool : x.tool = (st.requests r).tool) (harguments : x.arguments = (st.requests r).arguments)
    (hconnection : x.connection = (st.requests r).connection)
    (hpending : (st.requests r).reply = .pending)
    (hcancelled : (st.requests r).caller = j → x.reply ≠ .cancelled) :
    Follows j st (st.setRequest r x) := by
  have hof := st.setRequest_requests r x
  refine ⟨List.filter_congr fun r' _ => ?_, fun r' hr' => ?_, fun r' hr' hne => ?_,
    fun r' hr' hne => ?_⟩
  · rw [setRequest_caller hcaller]
  · rw [hof]
    split
    · next heq => exact heq ▸ ⟨htool, harguments, hconnection⟩
    · exact ⟨rfl, rfl, rfl⟩
  · rw [hof, if_neg]
    rintro rfl
    exact hne hpending
  · rw [hof]
    split
    · next heq => exact hcancelled (heq ▸ (mem_asked.mp hr').2)
    · exact hne

/-- What has failed stays so. -/
theorem Fails.follows (h : st.Fails rs) (hf : Follows j st st') (hrs : ∀ r ∈ rs, r ∈ st.asked j) :
    st'.Fails rs := by
  intro r hr
  have hfailed := h r hr
  rw [hf.settled r (hrs r hr) (by intro hp; simp [hp, Reply.isFailed] at hfailed)]
  exact hfailed

/-- A caller that has not run keeps the contract. -/
theorem Kept.follows (h : st.Kept name j) (hcaller : st'.callers j = st.callers j)
    (hf : Follows j st st') : st'.Kept name j := by
  obtain ⟨hown, hphase⟩ := h
  constructor
  · intro r hr
    rw [hf.asked] at hr
    obtain ⟨htool, harguments, -⟩ := hf.same r hr
    rw [hcaller, htool, harguments]
    exact hown r hr
  · rw [hcaller]
    have hall : st.Fails (st.asked j) → st'.Fails (st.asked j) := fun h =>
      h.follows hf fun _ hr => hr
    cases hp : (st.callers j).phase with
    | idle =>
        rw [hp] at hphase
        exact hf.asked.trans hphase
    | acquiring s | tearing s c =>
        rw [hp] at hphase
        simp only [Keeps, hf.asked, hcaller]
        exact ⟨hphase.1, hall hphase.2.1, hphase.2.2⟩
    | connecting retry c =>
        rw [hp] at hphase
        simp only [Keeps, hf.asked]
        exact ⟨hphase.1, hall hphase.2⟩
    | racing retry r owner =>
        rw [hp] at hphase
        obtain ⟨rs, hasked, hlen, hfails, hconnection, hreply⟩ := hphase
        have hr : r ∈ st.asked j := by simp [hasked]
        refine ⟨rs, hf.asked.trans hasked, hlen, hfails.follows hf fun r' hr' => ?_,
          (hf.same r hr).2.2.trans hconnection, hf.uncancelled r hr hreply⟩
        simp [hasked, hr']
    | returned p =>
        rw [hp] at hphase
        simp only [Keeps, hcaller]
        intro hcall
        obtain ⟨result, hp', ⟨rs, r, hasked, hlen, hfails, hreply⟩ | ⟨hresult, hlen, hfails⟩⟩ :=
          hphase hcall
        · have hr : r ∈ st.asked j := by simp [hasked]
          refine ⟨result, hp', Or.inl ⟨rs, r, hf.asked.trans hasked, hlen,
            hfails.follows hf fun r' hr' => ?_, ?_⟩⟩
          · simp [hasked, hr']
          · rw [hf.settled r hr (by simp [hreply]), hreply]
        · rw [hf.asked]
          exact ⟨result, hp', Or.inr ⟨hresult, hlen, hall hfails⟩⟩
    | raised =>
        rw [hp] at hphase
        simp only [Keeps, hcaller]
        exact hphase
    | cancelled =>
        rw [hp] at hphase
        exact hphase

/-! ### The segments of the caller -/

/-- The requests of a caller are those of the call it runs. -/
def Owns (st : Upstream) (i : ℕ) : Prop := ∀ r ∈ st.asked i,
  (st.callers i).operation = .call (st.requests r).tool (st.requests r).arguments

/-- A caller moves to where it can stand, whatever else changes but the requests. -/
theorem kept_of_phase (hown : st.Owns i) {phase : CallerPhase} (h : st.Keeps name i phase)
    (hrequests : st'.requests = st.requests) (hcount : st'.requestCount = st.requestCount)
    (hoperation : (st'.callers i).operation = (st.callers i).operation)
    (hphase : (st'.callers i).phase = phase) : st'.Kept name i := by
  have hasked : st'.asked i = st.asked i := by rw [asked, asked, hrequests, hcount]
  constructor
  · intro r hr
    rw [hoperation, hrequests]
    exact hown r (hasked ▸ hr)
  · rw [hphase]
    cases phase with
    | cancelled => exact h.elim
    | _ => simpa only [Keeps, Fails, hasked, hrequests, hoperation] using h

/-- A caller moves. -/
theorem kept_move (hown : st.Owns i) {phase : CallerPhase} (h : st.Keeps name i phase) :
    (st.move i phase).Kept name i :=
  kept_of_phase hown h rfl rfl (by simp [move]) (move_phase st i phase)

/-- An attempt has failed without a request, or with its request. -/
theorem kept_fail (hown : st.Owns i) (a : Attempt) (hlen : (st.asked i).length ≤ retry.toNat + 1)
    (hfails : st.Fails (st.asked i)) : (st.fail i retry a).Kept name i := by
  have hcaller : (st.fail i retry a).callers i = { st.callers i with
      phase := .acquiring (if retry then .giveUp else .connect true)
      attempts := (st.callers i).attempts ++ [a] } := Function.update_self _ _ _
  refine ⟨fun r hr => by rw [hcaller]; exact hown r hr, ?_⟩
  rw [hcaller]
  refine ⟨?_, hfails, by cases retry <;> simp⟩
  cases retry <;> exact hlen

/-- The requests of the caller that makes another one. -/
theorem asked_dispatch (st : Upstream) (i session : ℕ) (tool : Str) (arguments : Arguments) :
    (st.dispatch i session tool arguments).asked i = st.asked i ++ [st.requestCount] := by
  have hold : ∀ r ∈ List.range st.requestCount,
      (st.dispatch i session tool arguments).requests r = st.requests r := fun r hr =>
    Function.update_of_ne (List.mem_range.mp hr).ne _ _
  have hnew : (st.dispatch i session tool arguments).requests st.requestCount =
      ⟨i, session, tool, arguments, false, .pending⟩ := Function.update_self _ _ _
  have hcount : (st.dispatch i session tool arguments).requestCount = st.requestCount + 1 := rfl
  rw [asked, hcount, List.range_succ, List.filter_append]
  congr 1
  · exact List.filter_congr fun r hr => by rw [hold r hr]
  · simp [hnew]

/-- A caller that has failed `retry` times goes on with the session there is, which is that
of `_task`. -/
theorem kept_proceed (hown : st.Owns i) (hlen : (st.asked i).length ≤ retry.toNat)
    (hfails : st.Fails (st.asked i))
    (hsession : ∀ session, st.session = some session → st.task = some session) :
    (st.proceed i retry).Kept name i := by
  by_cases hcall : ∃ tool arguments, (st.callers i).operation = .call tool arguments
  · obtain ⟨tool, arguments, hop⟩ := hcall
    rcases proceed_call retry hop with
      ⟨-, heq⟩ | ⟨session, hsome, ⟨hnone, -⟩ | ⟨owner, howner, heq⟩⟩
    · rw [heq]
      exact kept_fail hown _ (Nat.le_succ_of_le hlen) hfails
    · simp [hsession session hsome] at hnone
    · obtain rfl : session = owner := Option.some.inj ((hsession session hsome).symm.trans howner)
      rw [heq]
      have hnew : (st.dispatch i session tool arguments).requests st.requestCount =
          ⟨i, session, tool, arguments, false, .pending⟩ := Function.update_self _ _ _
      have hold : ∀ r ∈ st.asked i,
          (st.dispatch i session tool arguments).requests r = st.requests r := fun r hr =>
        Function.update_of_ne (mem_asked.mp hr).1.ne _ _
      have hasked := asked_dispatch st i session tool arguments
      refine kept_move (fun r hr => ?_) ⟨st.asked i, hasked, hlen, fun r hr => ?_, ?_, ?_⟩
      · rw [hasked, List.mem_append, List.mem_singleton] at hr
        rcases hr with hr | rfl
        · rw [hold r hr]
          exact hown r hr
        · rw [hnew]
          exact hop
      · rw [hold r hr]
        exact hfails r hr
      · rw [hnew]
      · simp [hnew]
  · rw [proceed_of_not_call retry fun tool arguments hop => hcall ⟨tool, arguments, hop⟩]
    refine kept_move hown fun hiscall => ?_
    cases hop : (st.callers i).operation with
    | call tool arguments => exact absurd ⟨tool, arguments, hop⟩ hcall
    | ensureSession | close => simp [hop, Operation.isCall] at hiscall

/-- A caller ends a teardown. -/
theorem kept_torn (hname : st.name = name) (hown : st.Owns i) {s : Section}
    (h : st.Keeps name i (.acquiring s)) : (st.torn i s).Kept name i := by
  obtain ⟨hlen, hfails, hclose⟩ := h
  cases s with
  | connect retry =>
      have hconnecting : st.Keeps name i (.connecting retry st.connectionCount) := ⟨hlen, hfails⟩
      exact kept_of_phase hown hconnecting rfl rfl (by simp [torn, connectLocked, move])
        (by simp [torn, connectLocked, move])
  | giveUp =>
      have hreturned : st.Keeps name i (.returned (some (backendUnavailable name))) := fun _ =>
        ⟨_, rfl, Or.inr ⟨rfl, hlen, hfails⟩⟩
      exact kept_of_phase hown hreturned rfl rfl (by simp [torn, release, move])
        (by simp [torn, release, move, ← hname])
  | close =>
      have hreturned : st.Keeps name i (.returned none) := fun hcall => by
        simp [hclose rfl] at hcall
      exact kept_of_phase hown hreturned rfl rfl (by simp [torn, release, move])
        (by simp [torn, release, move])

/-- A caller gets the lock. -/
theorem kept_acquired (ho : st.Owned) (hname : st.name = name) (hlock : st.lock = none)
    {s : Section} (h : st.Kept name i) (hphase : (st.callers i).phase = .acquiring s) :
    (st.acquired i s).Kept name i := by
  obtain ⟨hown, hkeeps⟩ := h
  rw [hphase] at hkeeps
  rcases acquired_cases st i s with ⟨rfl, -, heq⟩ | ⟨-, ⟨-, heq⟩ | ⟨c, -, ⟨-, heq⟩ | ⟨-, heq⟩⟩⟩
  · rw [heq]
    exact kept_proceed hown hkeeps.1 hkeeps.2.1 fun session => ho.published hlock session
  · rw [heq]
    have hlocked : ({ st with lock := some i } : Upstream).name = name := hname
    exact kept_torn hlocked hown hkeeps
  · rw [heq]
    have hlocked : (({ st with lock := some i } : Upstream).setStop c).name = name := hname
    exact kept_torn hlocked hown hkeeps
  · rw [heq]
    have htearing : st.Keeps name i (.tearing s c) := hkeeps
    exact kept_of_phase hown htearing rfl rfl (by simp [setStop, setConnection, move])
      (move_phase _ _ _)

/-- A connection attempt has failed. -/
theorem kept_connectFailed (hname : st.name = name) (h : st.Kept name i)
    (hphase : (st.callers i).phase = .connecting retry c) :
    (st.connectFailed i retry c).Kept name i := by
  obtain ⟨hown, hkeeps⟩ := h
  rw [hphase] at hkeeps
  obtain ⟨hlen, hfails⟩ := hkeeps
  unfold connectFailed
  dsimp only
  cases retry with
  | true =>
      have hreturned : st.Keeps name i (.returned (some (backendUnavailable name))) := fun _ =>
        ⟨_, rfl, Or.inr ⟨rfl, hlen.trans (Nat.le_succ 1), hfails⟩⟩
      exact kept_of_phase hown hreturned rfl rfl (by simp [release, setConnection, move])
        (by simp [release, setConnection, move, ← hname])
  | false =>
      simp only [Bool.false_eq_true, if_false]
      split
      · exact kept_fail (show (st.release.setConnection c _).Owns i from hown) _
          (Nat.le_succ_of_le hlen) hfails
      · next hnot =>
          have hraised : st.Keeps name i .raised := by
            cases hop : (st.callers i).operation with
            | call tool arguments => exact absurd hop (hnot tool arguments)
            | ensureSession | close => simp [Keeps, hop, Operation.isCall]
          exact kept_of_phase hown hraised rfl rfl (by simp [release, setConnection, move])
            (by simp [release, setConnection, move])

/-- A race has ended. -/
theorem kept_raced (h : st.Kept name i) (hstep : upstream.step st (.raced i) = some st') :
    st'.Kept name i := by
  obtain ⟨hown, hkeeps⟩ := h
  obtain ⟨retry, r, owner, hphase, hcases⟩ := step_raced hstep
  rw [hphase] at hkeeps
  obtain ⟨rs, hasked, hlen, hfails, -, -⟩ := hkeeps
  have hlen' : (st.asked i).length ≤ retry.toNat + 1 := by simpa [hasked] using hlen
  rcases hcases with ⟨result, hreply, rfl⟩ | ⟨f, hreply, rfl⟩ | ⟨hpending, -, rfl⟩
  · have hreturned : st.Keeps name i (.returned (some result)) := fun _ =>
      ⟨result, rfl, Or.inl ⟨rs, r, hasked, hlen.trans retry.toNat_le, hfails, hreply⟩⟩
    exact kept_of_phase hown hreturned rfl rfl (by simp [answer]) (by simp [answer])
  · refine kept_fail hown _ hlen' fun r' hr' => ?_
    rw [hasked, List.mem_append, List.mem_singleton] at hr'
    rcases hr' with hr' | rfl
    · exact hfails r' hr'
    · simp [hreply, Reply.isFailed]
  · have hof : ∀ r', ((st.setRequest r { st.requests r with reply := .cancelled }).requests r') =
        if r' = r then { st.requests r with reply := .cancelled } else st.requests r' := fun r' =>
      Function.update_apply _ _ _ _
    have hsame : (st.setRequest r { st.requests r with reply := .cancelled }).asked i =
        st.asked i := by
      refine List.filter_congr fun r' _ => ?_
      rw [hof]
      split
      · next heq => rw [heq]
      · rfl
    refine kept_fail (fun r' hr' => ?_) _ (hsame ▸ hlen') fun r' hr' => ?_
    · rw [hsame] at hr'
      rw [hof]
      split
      · next heq => exact heq ▸ hown r' hr'
      · exact hown r' hr'
    · rw [hsame, hasked, List.mem_append, List.mem_singleton] at hr'
      rw [hof]
      split
      · rfl
      · next hne => exact hfails r' (hr'.resolve_right hne)

/-! ### One step -/

/-- Nothing happens to the requests. -/
theorem follows_of_eq (hrequests : st'.requests = st.requests)
    (hcount : st'.requestCount = st.requestCount) : Follows j st st' :=
  (extends_of_eq hrequests hcount).follows

/-- A request that another caller makes. -/
theorem follows_proceed (st : Upstream) (retry : Bool) (hne : j ≠ i) :
    Follows j st (st.proceed i retry) := by
  by_cases hcall : ∃ tool arguments, (st.callers i).operation = .call tool arguments
  · obtain ⟨tool, arguments, hop⟩ := hcall
    have hdispatch : ∀ session, Extends j st (st.dispatch i session tool arguments) := by
      refine fun session => ⟨Nat.le_succ _, fun r hr => Function.update_of_ne hr.ne _ _,
        fun r hle hlt => ?_⟩
      obtain rfl : r = st.requestCount := Nat.le_antisymm (Nat.lt_succ_iff.mp hlt) hle
      rw [show (st.dispatch i session tool arguments).requests st.requestCount =
        ⟨i, session, tool, arguments, false, .pending⟩ from Function.update_self _ _ _]
      exact hne.symm
    rcases proceed_call retry hop with ⟨-, heq⟩ | ⟨session, -, ⟨-, heq⟩ | ⟨owner, -, heq⟩⟩
    · rw [heq]
      exact follows_of_eq rfl rfl
    · rw [heq]
      exact Extends.follows { hdispatch session with }
    · rw [heq]
      exact Extends.follows { hdispatch session with }
  · rw [proceed_of_not_call retry fun tool arguments hop => hcall ⟨tool, arguments, hop⟩]
    exact follows_of_eq rfl rfl

/-- The requests of a caller that does not run go on. -/
theorem follows_of_step {a : UpstreamAction} (hkept : ∀ i, st.Kept name i)
    (hstep : upstream.step st a = some st') (hj : a.caller ≠ some j) : Follows j st st' := by
  have hne : ∀ {i : ℕ}, a.caller = some i → j ≠ i := fun hi h => hj (h ▸ hi)
  cases a with
  | enter i op =>
      obtain ⟨-, rfl⟩ := step_enter hstep
      exact follows_of_eq rfl rfl
  | acquire i =>
      obtain ⟨s, -, -, rfl⟩ := step_acquire hstep
      rcases acquired_cases st i s with ⟨-, -, heq⟩ | ⟨-, ⟨-, heq⟩ | ⟨c, -, ⟨-, heq⟩ | ⟨-, heq⟩⟩⟩
      · rw [heq]
        exact follows_proceed st false (hne rfl)
      · rw [heq]
        cases s <;> exact follows_of_eq rfl rfl
      · rw [heq]
        cases s <;> exact follows_of_eq rfl rfl
      · rw [heq]
        exact follows_of_eq rfl rfl
  | torn i =>
      obtain ⟨s, c, -, -, rfl⟩ := step_torn hstep
      cases s <;> exact follows_of_eq rfl rfl
  | connected i =>
      obtain ⟨retry, c, -, ⟨-, rfl⟩ | ⟨-, rfl⟩⟩ := step_connected hstep
      · have hfollows := follows_proceed { st with task := some c, lock := none } retry (hne rfl)
        exact { hfollows with }
      · unfold connectFailed
        dsimp only
        split
        · exact follows_of_eq rfl rfl
        · split <;> exact follows_of_eq rfl rfl
  | raced i =>
      obtain ⟨retry, r, owner, hphase, ⟨result, -, rfl⟩ | ⟨f, -, rfl⟩ | ⟨hpending, -, rfl⟩⟩ :=
        step_raced hstep
      · exact follows_of_eq rfl rfl
      · exact follows_of_eq rfl rfl
      · have hi := (hkept i).phase
        rw [hphase] at hi
        obtain ⟨rs, hasked, -⟩ := hi
        have hcaller : (st.requests r).caller = i := (mem_asked.mp (by simp [hasked])).2
        have hfollows := follows_setRequest (x := { st.requests r with reply := .cancelled })
          rfl rfl rfl rfl hpending fun h => absurd (h.symm.trans hcaller) (hne rfl)
        exact { hfollows with }
  | cancel i =>
      rcases step_cancel hstep with ⟨-, rfl⟩ | ⟨s, c, -, ⟨-, rfl⟩ | rfl⟩ | ⟨retry, c, -, rfl⟩
      · exact follows_of_eq rfl rfl
      · exact follows_of_eq rfl rfl
      · simp only [cancelConnection]
        split <;> exact follows_of_eq rfl rfl
      · exact follows_of_eq rfl rfl
  | start _ | opened _ _ | openFail _ | die _ | stopped _ | finish _ | send _ | reply _ _
  | callRaise _ _ =>
      obtain ⟨c, k, session, tools, rfl⟩ |
        ⟨r, x, hpending, hcaller, htool, harguments, hconnection, hreply, rfl⟩ :=
        step_of_no_caller rfl hstep
      · exact follows_of_eq rfl rfl
      · exact follows_setRequest hcaller htool harguments hconnection hpending fun _ => hreply

/-- A step keeps the name of the backend. -/
theorem name_of_step {a : UpstreamAction} (hstep : upstream.step st a = some st') :
    st'.name = st.name := by
  have hproceed : ∀ (st : Upstream) (i : ℕ) (retry : Bool),
      (st.proceed i retry).name = st.name := by
    intro st i retry
    simp only [proceed]
    split
    · split <;> rfl
    · rfl
  have htorn : ∀ (st : Upstream) (i : ℕ) (s : Section), (st.torn i s).name = st.name := by
    intro st i s
    cases s <;> rfl
  cases a with
  | enter i op =>
      obtain ⟨-, rfl⟩ := step_enter hstep
      rfl
  | acquire i =>
      obtain ⟨s, -, -, rfl⟩ := step_acquire hstep
      rcases acquired_cases st i s with ⟨-, -, heq⟩ | ⟨-, ⟨-, heq⟩ | ⟨c, -, ⟨-, heq⟩ | ⟨-, heq⟩⟩⟩
      · rw [heq, hproceed]
      · rw [heq, htorn]
      · rw [heq, htorn]
        rfl
      · rw [heq]
        rfl
  | torn i =>
      obtain ⟨s, c, -, -, rfl⟩ := step_torn hstep
      exact htorn st i s
  | connected i =>
      obtain ⟨retry, c, -, ⟨-, rfl⟩ | ⟨-, rfl⟩⟩ := step_connected hstep
      · exact hproceed _ i retry
      · unfold connectFailed
        dsimp only
        split
        · rfl
        · split <;> rfl
  | raced i =>
      obtain ⟨retry, r, owner, -, ⟨result, -, rfl⟩ | ⟨f, -, rfl⟩ | ⟨-, -, rfl⟩⟩ := step_raced hstep
      · rfl
      · rfl
      · rfl
  | cancel i =>
      rcases step_cancel hstep with ⟨-, rfl⟩ | ⟨s, c, -, ⟨-, rfl⟩ | rfl⟩ | ⟨retry, c, -, rfl⟩
      · rfl
      · rfl
      · simp only [cancelConnection]
        split <;> rfl
      · rfl
  | start _ | opened _ _ | openFail _ | die _ | stopped _ | finish _ | send _ | reply _ _
  | callRaise _ _ =>
      obtain ⟨c, k, session, tools, rfl⟩ | ⟨r, x, -, -, -, -, -, -, rfl⟩ :=
        step_of_no_caller rfl hstep
      · rfl
      · rfl

/-- **Every step keeps the contract**, where nobody is cancelled. -/
theorem kept_of_step {a : UpstreamAction} (ho : st.Owned) (hname : st.name = name)
    (hkept : ∀ i, st.Kept name i) (hcancel : ∀ i, a ≠ .cancel i)
    (hstep : upstream.step st a = some st') (j : ℕ) : st'.Kept name j := by
  by_cases hj : a.caller = some j
  · have hkept := hkept j
    cases a with
    | enter i op =>
        obtain rfl : i = j := Option.some.inj hj
        obtain ⟨hphase, rfl⟩ := step_enter hstep
        have hnone : st.asked i = [] := by simpa only [hphase, Keeps] using hkept.phase
        have hstart : ∀ k : Caller, k.operation = op → k.phase = .acquiring op.section →
            Kept name { st with callers := Function.update st.callers i k } i := by
          intro k hop hphase
          have hasked : asked { st with callers := Function.update st.callers i k } i = [] := hnone
          have hself : Function.update st.callers i k i = k := Function.update_self _ _ _
          refine ⟨by simp [hasked], ?_⟩
          change Keeps name _ i (Function.update st.callers i k i).phase
          rw [hself, hphase]
          refine ⟨by simp [hasked], by simp [Fails, hasked], fun hclose => ?_⟩
          change (Function.update st.callers i k i).operation.isCall = false
          rw [hself, hop]
          cases op with
          | close => rfl
          | ensureSession | call tool arguments => simp [Operation.section] at hclose
        exact hstart _ rfl rfl
    | acquire i =>
        obtain rfl : i = j := Option.some.inj hj
        obtain ⟨s, hphase, hlock, rfl⟩ := step_acquire hstep
        exact kept_acquired ho hname hlock hkept hphase
    | torn i =>
        obtain rfl : i = j := Option.some.inj hj
        obtain ⟨s, c, hphase, -, rfl⟩ := step_torn hstep
        obtain ⟨hown, hkeeps⟩ := hkept
        rw [hphase] at hkeeps
        exact kept_torn hname hown hkeeps
    | connected i =>
        obtain rfl : i = j := Option.some.inj hj
        obtain ⟨retry, c, hphase, ⟨-, rfl⟩ | ⟨-, rfl⟩⟩ := step_connected hstep
        · obtain ⟨hown, hkeeps⟩ := hkept
          rw [hphase] at hkeeps
          have hpublished : Owns { st with task := some c, lock := none } i := hown
          refine kept_proceed hpublished hkeeps.1 hkeeps.2 fun session hsession => ?_
          rw [ho.session_of_connecting hphase hsession]
        · exact kept_connectFailed hname hkept hphase
    | raced i =>
        obtain rfl : i = j := Option.some.inj hj
        exact kept_raced hkept hstep
    | cancel i => exact absurd rfl (hcancel i)
    | _ => simp [UpstreamAction.caller] at hj
  · exact (hkept j).follows (callers_of_step hstep hj) (follows_of_step hkept hstep hj)

/-- The requests of a call are two at most, and have failed but for the last one, which
waits in a race only. -/
theorem Kept.shape (h : st.Kept name i) (hcall : (st.callers i).operation.isCall = true) :
    (st.asked i).length ≤ 2 ∧ (st.Fails (st.asked i) ∨
      ∃ rs r, st.asked i = rs ++ [r] ∧ st.Fails rs ∧ ((st.requests r).reply = .pending →
        ∃ retry, (st.callers i).phase = .racing retry r (st.requests r).connection)) := by
  have hphase := h.phase
  cases hp : (st.callers i).phase with
  | idle =>
      rw [hp] at hphase
      have hnone : st.asked i = [] := hphase
      simp [hnone, Fails]
  | acquiring s | tearing s c =>
      rw [hp] at hphase
      refine ⟨hphase.1.trans ?_, Or.inl hphase.2.1⟩
      rcases s with (_ | _) | _ | _ <;> simp [Section.attempts]
  | connecting retry c =>
      rw [hp] at hphase
      exact ⟨hphase.1.trans (retry.toNat_le.trans (Nat.le_succ 1)), Or.inl hphase.2⟩
  | racing retry r owner =>
      rw [hp] at hphase
      obtain ⟨rs, hasked, hlen, hfails, hconnection, -⟩ := hphase
      have hle := hlen.trans retry.toNat_le
      exact ⟨by simpa [hasked] using hle,
        Or.inr ⟨rs, r, hasked, hfails, fun _ => ⟨retry, hconnection ▸ rfl⟩⟩⟩
  | returned p =>
      rw [hp] at hphase
      obtain ⟨result, -, ⟨rs, r, hasked, hlen, hfails, hreply⟩ | ⟨-, hlen, hfails⟩⟩ := hphase hcall
      · exact ⟨by simpa [hasked] using hlen, Or.inr ⟨rs, r, hasked, hfails, by simp [hreply]⟩⟩
      · exact ⟨hlen, Or.inl hfails⟩
  | raised =>
      rw [hp] at hphase
      simp [Keeps, hcall] at hphase
  | cancelled =>
      rw [hp] at hphase
      exact hphase.elim

/-- What the contract says of the requests of a call. -/
theorem Kept.dispatches (h : st.Kept name i) {tool : Str} {arguments : Arguments}
    (hop : (st.callers i).operation = .call tool arguments) : st.Dispatches i tool arguments := by
  have hcall : (st.callers i).operation.isCall = true := by rw [hop]; rfl
  have hsorted : (st.asked i).Pairwise (· < ·) := List.pairwise_lt_range.filter _
  have hpending : ∀ {r}, (st.requests r).reply = .pending →
      (st.requests r).reply.isFailed ≠ true := fun h => by simp [h, Reply.isFailed]
  obtain ⟨htwice, hshape⟩ := h.shape hcall
  refine ⟨htwice, fun r hr => ?_, fun r hr r' hr' hlt => ?_, fun r hr hwaits => ?_,
    fun retry r owner hp => ?_⟩
  · have hown := h.own r hr
    rw [hop] at hown
    obtain ⟨htool, harguments⟩ := Operation.call.inj hown
    exact ⟨htool.symm, harguments.symm⟩
  · rcases hshape with hfails | ⟨rs, last, hasked, hfails, -⟩
    · exact hfails r hr
    · rw [hasked, List.pairwise_append] at hsorted
      rw [hasked, List.mem_append, List.mem_singleton] at hr hr'
      rcases hr with hr | rfl
      · exact hfails r hr
      · rcases hr' with hr' | rfl
        · exact absurd (hsorted.2.2 r' hr' r (List.mem_singleton.mpr rfl)) (by omega)
        · exact absurd hlt (lt_irrefl _)
  · rcases hshape with hfails | ⟨rs, last, hasked, hfails, hraced⟩
    · exact absurd (hfails r hr) (hpending hwaits)
    · rw [hasked, List.mem_append, List.mem_singleton] at hr
      rcases hr with hr | rfl
      · exact absurd (hfails r hr) (hpending hwaits)
      · exact hraced hwaits
  · have hphase := h.phase
    rw [hp] at hphase
    obtain ⟨rs, hasked, -, -, hconnection, -⟩ := hphase
    exact ⟨by simp [hasked], hconnection⟩

/-- What the contract says of the end of a call. -/
theorem Kept.returns (h : st.Kept name i) {tool : Str} {arguments : Arguments}
    (hop : (st.callers i).operation = .call tool arguments) : Returns name st i := by
  have hphase := h.phase
  have hcall : (st.callers i).operation.isCall = true := by rw [hop]; rfl
  refine ⟨fun hp => ?_, fun hp => ?_, fun p hp => ?_⟩
  · rw [hp] at hphase
    simp [Keeps, hcall] at hphase
  · rw [hp] at hphase
    exact hphase
  · rw [hp] at hphase
    obtain ⟨result, hresult, ⟨rs, r, hasked, -, -, hreply⟩ | ⟨hunavailable, -, hfails⟩⟩ :=
      hphase hcall
    · exact ⟨result, hresult, Or.inl ⟨r, by simp [hasked], hreply⟩⟩
    · exact ⟨result, hresult, Or.inr ⟨hunavailable, hfails⟩⟩

/-- Every caller keeps the contract in a run in which nobody is cancelled. -/
theorem kept_of_run {as : List UpstreamAction}
    (hcancel : upstream.Each (fun _ a => ∀ i, a ≠ .cancel i) (.init name) as)
    (hrun : upstream.exec (.init name) as = some st) (i : ℕ) : st.Kept name i := by
  have hinv := System.invariant (M := upstream)
    (I := fun st => st.Owned ∧ st.name = name ∧ ∀ i, st.Kept name i)
    (fun st a st' h hnot hstep => ⟨h.1.step (by cases a <;> simp_all [Detaches]) hstep,
      (name_of_step hstep).trans h.2.1, fun j => kept_of_step h.1 h.2.1 h.2.2 hnot hstep j⟩)
    ⟨.init name, rfl, fun i => ⟨by simp [asked, Upstream.init], rfl⟩⟩ hcancel hrun
  exact hinv.2.2 i

end Upstream

/-- **The contract of `Backend.call`**: in every run in which nobody is cancelled, whatever
else happens, the requests of a call and its end are as promised. -/
theorem call_contract {name : Str} {st : Upstream} {as : List UpstreamAction}
    (hrun : upstream.exec (.init name) as = some st) (hcancel : ∀ i, .cancel i ∉ as)
    {i : ℕ} {tool : Str} {arguments : Arguments}
    (hop : (st.callers i).operation = .call tool arguments) :
    st.Dispatches i tool arguments ∧ Upstream.Returns name st i := by
  have heach : upstream.Each (fun _ a => ∀ i, a ≠ .cancel i) (.init name) as :=
    System.each_of_mem fun a ha _ i heq => hcancel i (heq ▸ ha)
  have hkept := Upstream.kept_of_run heach hrun i
  exact ⟨hkept.dispatches hop, hkept.returns hop⟩

/-- A call that loses its connection and is answered on the next one. -/
theorem call_contract_sample : ∃ st tool arguments,
    upstream.exec (.init (lit "order")) recoveringRun = some st ∧
    (st.callers 0).operation = .call tool arguments ∧
    st.Dispatches 0 tool arguments ∧ Upstream.Returns (lit "order") st 0 := by
  have hrun : (upstream.exec (.init (lit "order")) recoveringRun).any
      (fun st => (st.callers 0).operation.isCall) = true := by
    decide +kernel
  obtain ⟨st, hst, hcall⟩ := (Option.any_eq_true _ _).mp hrun
  cases hop : (st.callers 0).operation with
  | call tool arguments =>
      exact ⟨st, tool, arguments, hst, hop, call_contract hst (by simp [recoveringRun]) hop⟩
  | ensureSession | close => simp [hop, Operation.isCall] at hcall

end AgentOpsGateway
