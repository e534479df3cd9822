import AgentOpsGateway.Progress

/-!
# Recovery of Concurrent Calls from a Lost Connection

When the connection is lost, every call in flight fails, and each of them reconnects on its
own: it tears down whatever connection there is and opens a new one. The lock makes these
reconnections follow one another, but the second attempt of a call runs outside the lock,
on the connection that the next call in line tears down.

## Main results

* `recovers`: **after one loss every call returns an answer to its own request**, in every
  run in which no call takes the lock to reconnect while the second attempt of another call
  waits for its answer.
* `recovers_fails`: two calls in flight at the loss are enough for one of them to return
  `BACKEND_UNAVAILABLE`.
-/

namespace AgentOpsGateway

open Python Transition

/-! ### What is promised -/

/-- Request `r` is one of caller `i` for the call it runs. -/
structure Upstream.Asks (st : Upstream) (i r : ℕ) : Prop where
  made : r < st.requestCount
  caller : (st.requests r).caller = i
  operation : (st.callers i).operation = .call (st.requests r).tool (st.requests r).arguments

/-- A call that has ended has returned what the backend replied to a request of its own. -/
def Upstream.Replied (st : Upstream) (i : ℕ) : Prop :=
  ∀ tool arguments, (st.callers i).operation = .call tool arguments →
    (st.callers i).phase ≠ .raised ∧ (st.callers i).phase ≠ .cancelled ∧
      ∀ p, (st.callers i).phase = .returned p → ∃ r result, p = some result ∧ st.Asks i r ∧
        (st.requests r).reply = .replied result

/-- What happens to the backend while a lost connection is recovered: nobody is cancelled or
closes it, no connection attempt fails, one connection dies at most, and a request raises
only on a connection that is lost or torn down. -/
def lostOnce (st : Upstream) : UpstreamAction → Bool
  | .enter _ .close | .cancel _ | .openFail _ => false
  | .die _ => (List.range st.connectionCount).all fun c => !(st.connections c).lost
  | .callRaise r _ =>
    (st.connections (st.requests r).connection).lost ||
      (st.connections (st.requests r).connection).stop
  | _ => true

/-- The caller waits for the lock to reconnect, after its first attempt. -/
def CallerPhase.reconnects : CallerPhase → Bool
  | .acquiring (.connect true) => true
  | _ => false

/-- The request waits for its answer, and it is the second attempt of its caller. -/
def Upstream.retrying (st : Upstream) (r : ℕ) : Bool :=
  st.waiting r &&
    match (st.callers (st.requests r).caller).phase with
    | .racing true r' _ => r' == r
    | _ => false

/-- A call takes the lock to reconnect while the second attempt of a call waits for its
answer. -/
def collides (st : Upstream) : UpstreamAction → Bool
  | .acquire i =>
    (st.callers i).phase.reconnects && (List.range st.requestCount).any st.retrying
  | _ => false

/-! ### The invariant -/

/-- A connection has died. -/
def Upstream.Lost (st : Upstream) : Prop := ∃ c, (st.connections c).lost = true

/-- The connection is coming up or serving, and nobody has told it to stop. -/
def Connection.isIntact (k : Connection) : Bool :=
  !k.stop &&
    match k.phase with
    | .created | .opening | .serving => true
    | .absent | .closing | .finished => false

/-- The race of a caller on request `r` of connection `owner`: a second attempt that waits
runs on an intact connection, and only a first attempt fails. -/
structure Upstream.Races (st : Upstream) (i : ℕ) (retry : Bool) (r owner : ℕ) : Prop where
  asks : st.Asks i r
  connection : (st.requests r).connection = owner
  lost : retry = true → st.Lost
  waiting : retry = true → (st.requests r).reply = .pending →
    (st.connections owner).isIntact = true
  raised : ∀ f, (st.requests r).reply = .raised f → retry = false
  uncancelled : (st.requests r).reply ≠ .cancelled

/-- Where caller `i` can stand while the connection is recovered. -/
def Upstream.Mends (st : Upstream) (i : ℕ) : CallerPhase → Prop
  | .idle => True
  | .acquiring s | .tearing s _ => ∃ retry, s = .connect retry ∧ (retry = true → st.Lost)
  | .connecting retry c => retry = true → st.Lost ∧ (st.connections c).isIntact = true
  | .racing retry r owner => st.Races i retry r owner
  | .returned p => ∀ tool arguments, (st.callers i).operation = .call tool arguments →
      ∃ r result, p = some result ∧ st.Asks i r ∧ (st.requests r).reply = .replied result
  | _ => False

/-- **Recovery.** Every caller stands where it can, and before the loss no request has raised
and no connection has ended or been told to stop. -/
structure Upstream.Mending (st : Upstream) : Prop where
  callers : ∀ i, st.Mends i (st.callers i).phase
  ready : ∀ c, (st.connections c).ready ≠ .failed
  ended : ∀ c, (st.connections c).phase ≠ .absent → (st.connections c).isIntact = false → st.Lost
  raised : ∀ r f, (st.requests r).reply = .raised f → st.Lost

/-- The second attempt of a caller needs the connection. -/
def Upstream.Relies (st : Upstream) (j c : ℕ) : Prop :=
  (st.callers j).phase = .connecting true c ∨
    ∃ r, (st.callers j).phase = .racing true r c ∧ (st.requests r).reply = .pending

namespace Upstream

variable {st st' : Upstream} {i j c r : ℕ}

namespace Owned

/-- An intact connection has not ended. -/
theorem not_lost_of_isIntact (ho : st.Owned) (hc : (st.connections c).isIntact = true) :
    (st.connections c).lost = false ∧ (st.connections c).stop = false ∧
      (st.connections c).phase ≠ .closing ∧ (st.connections c).phase ≠ .finished := by
  have hsound := ho.sound c
  simp only [Connection.isIntact] at hc
  simp only [Connection.Sound] at hsound
  cases hp : (st.connections c).phase <;> simp_all

/-- The session of an intact connection that has come up is published. -/
theorem session_of_isIntact (ho : st.Owned) (hc : (st.connections c).isIntact = true)
    (hready : (st.connections c).ready = .ok) : st.session = some c := by
  rcases (ho.sound c).isUp_or_finished hready with hup | hfinished
  · exact (ho.session c).mpr hup
  · exact absurd hfinished (ho.not_lost_of_isIntact hc).2.2.2

/-- A connection that has not been created has not died. -/
theorem unused_lost (ho : st.Owned) : (st.connections st.connectionCount).lost = false := by
  have hsound := ho.sound st.connectionCount
  simp only [Connection.Sound, ho.unused _ le_rfl] at hsound
  exact hsound.2.2.2

/-- A connection that has died has been made. -/
theorem used_of_lost (ho : st.Owned) (hc : (st.connections c).lost = true) :
    c < st.connectionCount := by
  by_contra hle
  have hsound := ho.sound c
  simp only [Connection.Sound, ho.unused c (Nat.le_of_not_lt hle)] at hsound
  simp [hsound.2.2.2] at hc

end Owned

/-- Requests keep their callers. -/
theorem Asks.frame (h : st.Asks j r) (hcaller : st'.callers j = st.callers j)
    (hcount : st.requestCount ≤ st'.requestCount)
    (hrequests : ∀ r, r < st.requestCount → (st.requests r).caller = j →
      st'.requests r = st.requests r) : st'.Asks j r ∧ st'.requests r = st.requests r := by
  have hsame := hrequests r h.made h.caller
  exact ⟨⟨h.made.trans_le hcount, by rw [hsame, h.caller],
    by rw [hcaller, hsame, h.operation]⟩, hsame⟩

/-- A request that changes is still one of its caller. -/
theorem Asks.setRequest {r' : ℕ} {x : Exchange} (h : st.Asks i r')
    (hcaller : x.caller = (st.requests r).caller) (htool : x.tool = (st.requests r).tool)
    (harguments : x.arguments = (st.requests r).arguments) : (st.setRequest r x).Asks i r' := by
  obtain ⟨hmade, hc, hop⟩ := h
  refine ⟨hmade, ?_, ?_⟩
  · rw [setRequest_caller hcaller, hc]
  · rw [setRequest_requests]
    split
    · next heq =>
        rw [htool, harguments, ← heq]
        exact hop
    · exact hop

/-- A caller that has not run stands where it stood, as long as what it relies on lasts. -/
theorem Mends.frame (h : st.Mends j (st.callers j).phase)
    (hcaller : st'.callers j = st.callers j) (hcount : st.requestCount ≤ st'.requestCount)
    (hrequests : ∀ r, r < st.requestCount → (st.requests r).caller = j →
      st'.requests r = st.requests r) (hlost : st.Lost → st'.Lost)
    (hintact : ∀ c, st.Relies j c → (st.connections c).isIntact = true →
      (st'.connections c).isIntact = true) : st'.Mends j (st'.callers j).phase := by
  rw [hcaller]
  cases hphase : (st.callers j).phase with
  | idle => trivial
  | acquiring s =>
      rw [hphase] at h
      obtain ⟨retry, hs, hl⟩ := h
      exact ⟨retry, hs, fun hretry => hlost (hl hretry)⟩
  | tearing s c =>
      rw [hphase] at h
      obtain ⟨retry, hs, hl⟩ := h
      exact ⟨retry, hs, fun hretry => hlost (hl hretry)⟩
  | connecting retry c =>
      rw [hphase] at h
      intro hretry
      obtain ⟨hl, hc⟩ := h hretry
      exact ⟨hlost hl, hintact c (Or.inl (hretry ▸ hphase)) hc⟩
  | racing retry r owner =>
      rw [hphase] at h
      obtain ⟨hasks, hsame⟩ := h.asks.frame hcaller hcount hrequests
      refine ⟨hasks, by rw [hsame, h.connection], fun hretry => hlost (h.lost hretry), ?_, ?_, ?_⟩
      · intro hretry hpending
        rw [hsame] at hpending
        exact hintact owner (Or.inr ⟨r, hretry ▸ hphase, hpending⟩) (h.waiting hretry hpending)
      · rw [hsame]
        exact h.raised
      · rw [hsame]
        exact h.uncancelled
  | returned p =>
      rw [hphase] at h
      intro tool arguments hop
      rw [hcaller] at hop
      obtain ⟨r, result, hp, hasks, hreply⟩ := h tool arguments hop
      obtain ⟨hasks', hsame⟩ := hasks.frame hcaller hcount hrequests
      exact ⟨r, result, hp, hasks', by rw [hsame, hreply]⟩
  | raised =>
      rw [hphase] at h
      exact h
  | cancelled =>
      rw [hphase] at h
      exact h

namespace Mending

/-- What a second attempt relies on is intact, and the loss is past. -/
theorem intact_of_relies (h : st.Mending) (hrelies : st.Relies j c) :
    st.Lost ∧ (st.connections c).isIntact = true := by
  have hj := h.callers j
  rcases hrelies with hphase | ⟨r, hphase, hpending⟩
  · rw [hphase] at hj
    exact hj rfl
  · rw [hphase] at hj
    exact ⟨hj.lost rfl, hj.waiting rfl hpending⟩

/-- No second attempt relies on a connection that is told to stop or has died. -/
theorem not_relies (h : st.Mending) (hspoilt : (st.connections c).isIntact = false) (j : ℕ) :
    ¬st.Relies j c := fun hrelies => by
  simpa [hspoilt] using (h.intact_of_relies hrelies).2

/-- Caller `i` has run without touching the connections. -/
theorem aside (h : st.Mending) (haside : Aside i st st') (hi : st'.Mends i (st'.callers i).phase)
    (hconnections : st'.connections = st.connections)
    (hraised : ∀ r f, (st'.requests r).reply = .raised f → st.Lost) : st'.Mending := by
  have hlost : st.Lost ↔ st'.Lost := by simp only [Lost, hconnections]
  refine ⟨fun j => ?_, ?_, ?_, fun r f hr => hlost.mp (hraised r f hr)⟩
  · by_cases hj : j = i
    · exact hj ▸ hi
    · exact (h.callers j).frame (haside.others j hj) haside.requestCount
        (fun r hr hcaller => haside.requests r hr (hcaller ▸ hj)) hlost.mp
        (fun c _ hc => by rwa [hconnections])
  · rw [hconnections]
    exact h.ready
  · rw [hconnections]
    exact fun c hc hspoilt => hlost.mp (h.ended c hc hspoilt)

/-- Neither the lock nor the handles matter. -/
theorem same (h : st.Mending) (hcallers : st'.callers = st.callers)
    (hconnections : st'.connections = st.connections) (hrequests : st'.requests = st.requests)
    (hcount : st'.requestCount = st.requestCount) : st'.Mending := by
  have hlost : st'.Lost ↔ st.Lost := by simp only [Lost, hconnections]
  refine ⟨fun j => ?_, ?_, ?_, ?_⟩
  · exact (h.callers j).frame (by rw [hcallers]) hcount.ge (fun r _ _ => by rw [hrequests])
      hlost.mpr fun c _ hc => by rwa [hconnections]
  · rw [hconnections]
    exact h.ready
  · rw [hconnections]
    exact fun c hc hspoilt => hlost.mpr (h.ended c hc hspoilt)
  · rw [hrequests]
    exact fun r f hr => hlost.mpr (h.raised r f hr)

/-- A connection changes. Where it is no longer intact, the loss is past and no second
attempt relies on it. -/
theorem connection (h : st.Mending) {k : Connection} (hcallers : st'.callers = st.callers)
    (hrequests : st'.requests = st.requests) (hcount : st'.requestCount = st.requestCount)
    (hconnections : st'.connections = Function.update st.connections c k)
    (hready : k.ready ≠ .failed) (hlost : (st.connections c).lost = true → k.lost = true)
    (hspoilt : k.isIntact = false → (st.Lost ∨ k.lost = true) ∧ ∀ j, ¬st.Relies j c) :
    st'.Mending := by
  have hof : ∀ c', st'.connections c' = if c' = c then k else st.connections c' := by
    intro c'
    rw [hconnections]
    exact Function.update_apply _ _ _ _
  have hlost' : st.Lost → st'.Lost := by
    rintro ⟨c', hc'⟩
    refine ⟨c', ?_⟩
    rw [hof]
    split
    · next heq => exact hlost (heq ▸ hc')
    · exact hc'
  refine ⟨fun j => ?_, fun c' => ?_, fun c' hc' hspoilt' => ?_, fun r f hr => ?_⟩
  · refine (h.callers j).frame (by rw [hcallers]) hcount.ge (fun r _ _ => by rw [hrequests]) hlost'
      fun c' hrelies hc' => ?_
    rw [hof]
    split
    · next heq =>
        by_contra hk
        exact (hspoilt (by simpa using hk)).2 j (heq ▸ hrelies)
    · exact hc'
  · rw [hof]
    split
    · exact hready
    · exact h.ready c'
  · rw [hof] at hc' hspoilt'
    split at hspoilt'
    · next heq =>
        rcases (hspoilt hspoilt').1 with hl | hk
        · exact hlost' hl
        · exact ⟨c, by rw [hof, if_pos rfl, hk]⟩
    · next hne =>
        rw [if_neg hne] at hc'
        exact hlost' (h.ended c' hc' hspoilt')
  · rw [hrequests] at hr
    exact hlost' (h.raised r f hr)

/-- The first attempt of a caller has failed after the loss. -/
theorem fail (h : st.Mending) (hlost : st.Lost) (a : Attempt) : (st.fail i false a).Mending := by
  refine h.aside (outside_fail st false a).toAside ?_ rfl h.raised
  simp only [Upstream.fail, Function.update_self]
  exact ⟨true, rfl, fun _ => hlost⟩

/-- A request is made. -/
theorem dispatch (h : st.Mending) (session : ℕ) (tool : Str) (arguments : Arguments) :
    (st.dispatch i session tool arguments).Mending := by
  have hold : ∀ r, r < st.requestCount →
      (st.dispatch i session tool arguments).requests r = st.requests r := fun r hr =>
    Function.update_of_ne hr.ne _ _
  refine ⟨fun j => ?_, h.ready, h.ended, fun r f hr => ?_⟩
  · exact (h.callers j).frame rfl (Nat.le_succ _) (fun r hr _ => hold r hr) id fun _ _ hc => hc
  · by_cases heq : r = st.requestCount
    · simp [Upstream.dispatch, heq] at hr
    · exact h.raised r f (by simpa [Upstream.dispatch, heq] using hr)

/-- A caller goes on with the session there is. -/
theorem proceed (h : st.Mending) {retry : Bool} (hlost : retry = true → st.Lost)
    (hnone : st.session = none → st.Lost ∧ retry = false)
    (hsome : ∀ session, st.session = some session → st.task = some session ∧
      (retry = true → (st.connections session).isIntact = true)) :
    (st.proceed i retry).Mending := by
  cases hop : (st.callers i).operation with
  | call tool arguments =>
      rcases proceed_call retry hop with ⟨hsession, heq⟩ | ⟨session, hsession, ⟨htask, heq⟩ |
        ⟨owner, htask, heq⟩⟩
      · obtain ⟨hl, rfl⟩ := hnone hsession
        rw [heq]
        exact h.fail hl _
      · simp [(hsome session hsession).1] at htask
      · rw [heq]
        obtain ⟨htask', hintact⟩ := hsome session hsession
        obtain rfl : session = owner := Option.some.inj (htask'.symm.trans htask)
        have hd := h.dispatch (i := i) session tool arguments
        refine hd.aside (aside_move _ _) ?_ rfl hd.raised
        rw [move_phase]
        refine ⟨⟨?_, ?_, ?_⟩, ?_, hlost, fun hretry _ => hintact hretry, ?_, ?_⟩ <;>
          simp [Upstream.move, Upstream.dispatch, hop]
  | ensureSession =>
      rw [proceed_of_not_call retry (by simp [hop])]
      refine h.aside (aside_move st _) ?_ rfl h.raised
      simp [Mends, Upstream.move, hop]
  | close =>
      rw [proceed_of_not_call retry (by simp [hop])]
      refine h.aside (aside_move st _) ?_ rfl h.raised
      simp [Mends, Upstream.move, hop]

/-- A caller begins a connection attempt. -/
theorem torn (h : st.Mending) {retry : Bool} (hlost : retry = true → st.Lost)
    (hunused : (st.connections st.connectionCount).lost = false) :
    (st.torn i (.connect retry)).Mending := by
  have hc : ({ st with
      task := none
      session := none
      connections := Function.update st.connections st.connectionCount
        ⟨.created, .pending, false, false, false⟩
      connectionCount := st.connectionCount + 1 } : Upstream).Mending :=
    h.connection rfl rfl rfl rfl (by simp) (by simp [hunused]) (by simp [Connection.isIntact])
  refine hc.aside (aside_move _ (.connecting retry st.connectionCount)) ?_ rfl hc.raised
  have hphase : ((st.torn i (.connect retry)).callers i).phase =
      .connecting retry st.connectionCount := move_phase _ i _
  rw [hphase]
  intro hretry
  obtain ⟨c, hl⟩ := hlost hretry
  have hne : c ≠ st.connectionCount := by
    rintro rfl
    simp [hunused] at hl
  refine ⟨⟨c, ?_⟩, ?_⟩
  · simpa [Upstream.torn, Upstream.connectLocked, Upstream.move, hne] using hl
  · simp [Upstream.torn, Upstream.connectLocked, Upstream.move, Connection.isIntact]

/-- A connection that has ended, or on which no second attempt relies, is told to stop. -/
theorem setStop (h : st.Mending) (hlost : st.Lost) (hrelies : ∀ j, ¬st.Relies j c) :
    (st.setStop c).Mending :=
  h.connection rfl rfl rfl rfl (h.ready c) id fun _ => ⟨Or.inl hlost, hrelies⟩

/-- A request changes. It does not raise where a second attempt of its caller waits. -/
theorem request (h : st.Mending) {x : Exchange} (hcaller : x.caller = (st.requests r).caller)
    (hconnection : x.connection = (st.requests r).connection)
    (htool : x.tool = (st.requests r).tool) (harguments : x.arguments = (st.requests r).arguments)
    (hpending : (st.requests r).reply = .pending) (hcancelled : x.reply ≠ .cancelled)
    (hraised : ∀ f, x.reply = .raised f → st.Lost ∧ ∀ i retry owner,
      (st.callers i).phase = .racing retry r owner → retry = false) :
    (st.setRequest r x).Mending := by
  have hof := st.setRequest_requests r x
  have hasks : ∀ i r', st.Asks i r' → (st.setRequest r x).Asks i r' := fun i r' h =>
    h.setRequest hcaller htool harguments
  refine ⟨fun j => ?_, h.ready, h.ended, fun r' f hr' => ?_⟩
  · have hj := h.callers j
    change (st.setRequest r x).Mends j (st.callers j).phase
    cases hphase : (st.callers j).phase with
    | racing retry r' owner =>
        rw [hphase] at hj
        refine ⟨hasks j r' hj.asks, ?_, hj.lost, fun hretry hp => ?_, fun f hf => ?_, ?_⟩
        · rw [hof]
          split
          · next heq => rw [hconnection, ← heq, hj.connection]
          · exact hj.connection
        · refine hj.waiting hretry ?_
          rw [hof] at hp
          split at hp
          · next heq => rw [heq, hpending]
          · exact hp
        · rw [hof] at hf
          split at hf
          · next heq => exact (hraised f hf).2 j retry owner (heq ▸ hphase)
          · exact hj.raised f hf
        · rw [hof]
          split
          · exact hcancelled
          · exact hj.uncancelled
    | returned p =>
        rw [hphase] at hj
        intro tool arguments hop
        obtain ⟨r', result, hp, ha, hreply⟩ := hj tool arguments hop
        refine ⟨r', result, hp, hasks j r' ha, ?_⟩
        rw [hof, if_neg, hreply]
        rintro rfl
        simp [hpending] at hreply
    | _ =>
        rw [hphase] at hj
        exact hj
  · rw [hof] at hr'
    split at hr'
    · exact (hraised f hr').1
    · exact h.raised r' f hr'

/-- A caller that gets the lock. -/
theorem acquired (h : st.Mending) (ho : st.Owned) {retry : Bool} (hlock : st.lock = none)
    (hlost : retry = true → st.Lost) (hnot : retry = true → ∀ j c, ¬st.Relies j c) :
    (st.acquired i (.connect retry)).Mending := by
  have hl : ({ st with lock := some i } : Upstream).Mending := h.same rfl rfl rfl rfl
  have hunused := ho.unused_lost
  rcases acquired_cases st i (.connect retry) with ⟨hs, hsession, heq⟩ | ⟨hs, ⟨-, heq⟩ | ⟨c, htask,
    ⟨hfinished, heq⟩ | ⟨hrunning, heq⟩⟩⟩
  · rw [heq]
    refine h.proceed (by simp) (fun hnone => by simp [hnone] at hsession) fun session hsome => ?_
    exact ⟨ho.published hlock session hsome, by simp⟩
  · rw [heq]
    exact hl.torn hlost hunused
  · rw [heq]
    have hspoilt : (st.connections c).isIntact = false := by
      simp [Connection.isIntact, hfinished]
    have hpast := h.ended c (by simp [hfinished]) hspoilt
    have hstop := hl.setStop (c := c) hpast (h.not_relies hspoilt)
    refine hstop.torn (fun _ => ?_) ?_
    · obtain ⟨c', hc'⟩ := hpast
      exact ⟨c', by simpa using hc'⟩
    · rw [setStop_lost]
      exact hunused
  · rw [heq]
    -- only a reconnection tears down a connection that is up
    have hretry : retry = true := by
      by_contra hne
      have hsession : st.session = none := by
        simp only [Bool.not_eq_true] at hne
        simpa [hne] using hs
      exact hrunning (ho.finished_of_session_eq_none hsession (ho.tasked c htask))
    have hstop := hl.setStop (c := c) (hlost hretry) fun j => hnot hretry j c
    refine hstop.aside (aside_move _ _) ?_ rfl hstop.raised
    rw [move_phase]
    refine ⟨retry, rfl, fun _ => ?_⟩
    obtain ⟨c', hc'⟩ := hlost hretry
    exact ⟨c', by simpa using hc'⟩

/-- A caller whose connection has come up. -/
theorem connected (h : st.Mending) (ho : st.Owned) {retry : Bool}
    (hphase : (st.callers i).phase = .connecting retry c)
    (hready : (st.connections c).ready = .ok) :
    ({ st with task := some c, lock := none }.proceed i retry).Mending := by
  have hi := h.callers i
  rw [hphase] at hi
  have hl : ({ st with task := some c, lock := none } : Upstream).Mending := h.same rfl rfl rfl rfl
  refine hl.proceed (fun hretry => (hi hretry).1) (fun hnone => ?_) fun session hsome => ?_
  · have hfinished := ho.finished_of_session_eq_none (show st.session = none from hnone) hready
    refine ⟨h.ended c (by simp [hfinished]) (by simp [Connection.isIntact, hfinished]), ?_⟩
    by_contra hretry
    exact (ho.not_lost_of_isIntact (hi (by simpa using hretry)).2).2.2.2 hfinished
  · obtain rfl := ho.session_of_connecting hphase hsome
    exact ⟨rfl, fun hretry => (hi hretry).2⟩

/-- A race that ends. -/
theorem raced (h : st.Mending) (ho : st.Owned) (hstep : upstream.step st (.raced i) = some st') :
    st'.Mending := by
  obtain ⟨retry, r, owner, hphase, hcases⟩ := step_raced hstep
  have hi := h.callers i
  rw [hphase] at hi
  rcases hcases with ⟨result, hreply, rfl⟩ | ⟨f, hreply, rfl⟩ | ⟨hpending, hfinished, rfl⟩
  · refine h.aside (outside_answer st result).toAside ?_ rfl h.raised
    have hphase' : ((st.answer i result).callers i).phase = .returned (some result) := by
      simp [answer]
    rw [hphase']
    intro tool arguments _
    refine ⟨r, result, rfl, ⟨hi.asks.made, hi.asks.caller, ?_⟩, hreply⟩
    simpa [answer] using hi.asks.operation
  · obtain rfl := hi.raised f hreply
    exact h.fail (h.raised r f hreply) _
  · have hretry : retry = false := by
      by_contra hne
      exact (ho.not_lost_of_isIntact (hi.waiting (by simpa using hne) hpending)).2.2.2 hfinished
    subst hretry
    have hpast : st.Lost :=
      h.ended owner (by simp [hfinished]) (by simp [Connection.isIntact, hfinished])
    refine h.aside (i := i) ⟨fun j hj => Function.update_of_ne hj _ _, le_rfl, ?_⟩ ?_ rfl ?_
    · intro r' _ hcaller
      refine Function.update_of_ne ?_ _ _
      rintro rfl
      exact hcaller hi.asks.caller
    · simp only [Upstream.fail, Function.update_self]
      exact ⟨true, rfl, fun _ => hpast⟩
    · intro r' f hr'
      by_cases heq : r' = r
      · simp [Upstream.fail, setRequest, heq] at hr'
      · exact h.raised r' f (by simpa [Upstream.fail, setRequest, heq] using hr')

/-- A second attempt that waits for its answer collides with every reconnection. -/
theorem retrying_of_racing (h : st.Mending) {owner : ℕ}
    (hj : (st.callers j).phase = .racing true r owner)
    (hpending : (st.requests r).reply = .pending) :
    r < st.requestCount ∧ st.retrying r = true := by
  have hraces := h.callers j
  rw [hj] at hraces
  have hmade := hraces.asks.made
  refine ⟨hmade, ?_⟩
  simp [retrying, Upstream.waiting, hmade, hpending, hraces.asks.caller, hj]

/-- A request raises, on a connection that has died or was told to stop. -/
theorem callRaised (h : st.Mending) (ho : st.Owned) {f : Fault}
    (ha : lostOnce st (.callRaise r f) = true) (hpending : (st.requests r).reply = .pending) :
    (st.setRequest r { st.requests r with reply := .raised f }).Mending := by
  have hspoilt : (st.connections (st.requests r).connection).isIntact = false := by
    by_contra hintact
    obtain ⟨hlost, hstop, -⟩ := ho.not_lost_of_isIntact (by simpa using hintact)
    simp [lostOnce, hlost, hstop] at ha
  have hused : (st.connections (st.requests r).connection).phase ≠ .absent := by
    intro habsent
    have hsound := ho.sound (st.requests r).connection
    simp only [Connection.Sound, habsent] at hsound
    simp [lostOnce, hsound.2.2.1, hsound.2.2.2] at ha
  refine h.request rfl rfl rfl rfl hpending (by simp) fun f' _ =>
    ⟨h.ended _ hused hspoilt, fun j retry owner hj => ?_⟩
  have hraces := h.callers j
  rw [hj] at hraces
  by_contra hretry
  have hintact := hraces.waiting (by simpa using hretry) hpending
  rw [← hraces.connection, hspoilt] at hintact
  simp at hintact

/-- **One step of a recovery.** -/
theorem step (h : st.Mending) (ho : st.Owned) {a : UpstreamAction} (ha : lostOnce st a = true)
    (hnot : collides st a = false) (hstep : upstream.step st a = some st') : st'.Mending := by
  cases a with
  | enter i op =>
      obtain ⟨-, rfl⟩ := step_enter hstep
      refine h.aside (outside_enter st op).toAside ?_ rfl h.raised
      have hsection : op.section = .connect false := by
        cases op with
        | close => simp [lostOnce] at ha
        | ensureSession => rfl
        | call tool arguments => rfl
      simp only [Function.update_self, hsection]
      exact ⟨false, rfl, by simp⟩
  | acquire i =>
      obtain ⟨s, hphase, hlock, rfl⟩ := step_acquire hstep
      have hi := h.callers i
      rw [hphase] at hi
      obtain ⟨retry, rfl, hlost⟩ := hi
      refine h.acquired ho hlock hlost fun hretry j c hrelies => ?_
      subst hretry
      rcases hrelies with hj | ⟨r, hj, hpending⟩
      · have := ho.free_of_unlocked hlock j
        simp [hj, CallerPhase.holds] at this
      · obtain ⟨hmade, hretrying⟩ := h.retrying_of_racing hj hpending
        simp only [collides, hphase, CallerPhase.reconnects, Bool.true_and, List.any_eq_false,
          List.mem_range] at hnot
        exact hnot r hmade hretrying
  | torn i =>
      obtain ⟨s, c, hphase, -, rfl⟩ := step_torn hstep
      have hi := h.callers i
      rw [hphase] at hi
      obtain ⟨retry, rfl, hlost⟩ := hi
      exact h.torn hlost (ho.unused_lost)
  | connected i =>
      obtain ⟨retry, c, hphase, ⟨hready, rfl⟩ | ⟨hready, -⟩⟩ := step_connected hstep
      · exact h.connected ho hphase hready
      · exact absurd hready (h.ready c)
  | raced i => exact h.raced ho hstep
  | cancel i => simp [lostOnce] at ha
  | start c =>
      obtain ⟨hphase, rfl⟩ := step_start hstep
      have hsound := ho.sound c
      simp only [Connection.Sound, hphase] at hsound
      refine h.connection rfl rfl rfl rfl (h.ready c) id fun hspoilt => ?_
      simp [Connection.isIntact, hsound.2.2.1] at hspoilt
  | opened c tools =>
      obtain ⟨hphase, hcases⟩ := step_opened hstep
      have hsound := ho.sound c
      simp only [Connection.Sound, hphase] at hsound
      obtain ⟨-, rfl⟩ | ⟨hready, -⟩ := hcases
      · refine h.connection rfl rfl rfl rfl (by simp) id fun hspoilt => ?_
        simp [Connection.isIntact, hsound.2.2.1] at hspoilt
      · exact absurd hsound.1 hready
  | openFail c => simp [lostOnce] at ha
  | die c =>
      obtain ⟨hphase, rfl⟩ := step_die hstep
      refine h.connection rfl rfl rfl rfl (h.ready c) (fun _ => rfl) fun _ =>
        ⟨Or.inr rfl, fun j hrelies => ?_⟩
      obtain ⟨c', hc'⟩ := (h.intact_of_relies hrelies).1
      simp only [lostOnce, List.all_eq_true, List.mem_range, Bool.not_eq_true'] at ha
      simp [ha c' (ho.used_of_lost hc')] at hc'
  | stopped c =>
      obtain ⟨hphase, hstop, rfl⟩ := step_stopped hstep
      have hspoilt : (st.connections c).isIntact = false := by simp [Connection.isIntact, hstop]
      refine h.connection rfl rfl rfl rfl (h.ready c) id fun _ =>
        ⟨Or.inl (h.ended c (by simp [hphase]) hspoilt), h.not_relies hspoilt⟩
  | finish c =>
      obtain ⟨hphase, rfl⟩ := step_finish hstep
      have hspoilt : (st.connections c).isIntact = false := by simp [Connection.isIntact, hphase]
      refine h.connection rfl rfl rfl rfl (h.ready c) id fun _ =>
        ⟨Or.inl (h.ended c (by simp [hphase]) hspoilt), h.not_relies hspoilt⟩
  | send r =>
      obtain ⟨hwaiting, -, rfl⟩ := step_send hstep
      have hpending := pending_of_waiting hwaiting
      exact h.request rfl rfl rfl rfl hpending (by simp [hpending]) (by simp [hpending])
  | reply r result =>
      obtain ⟨hwaiting, -, rfl⟩ := step_reply hstep
      exact h.request rfl rfl rfl rfl (pending_of_waiting hwaiting) (by simp) (by simp)
  | callRaise r f =>
      obtain ⟨hwaiting, rfl⟩ := step_callRaise hstep
      exact h.callRaised ho ha (pending_of_waiting hwaiting)

/-- A new object. -/
theorem init (name : Str) : (Upstream.init name).Mending where
  callers i := trivial
  ready c := by simp [Upstream.init]
  ended c hc := absurd rfl hc
  raised r f := by simp [Upstream.init]

/-- What a call returns is the reply to a request of its own. -/
theorem replied (h : st.Mending) (i : ℕ) : st.Replied i := by
  have hi := h.callers i
  intro tool arguments hop
  refine ⟨fun hphase => ?_, fun hphase => ?_, fun p hphase => ?_⟩
  · rw [hphase] at hi
    exact hi
  · rw [hphase] at hi
    exact hi
  · rw [hphase] at hi
    exact hi tool arguments hop

/-- The races of a recovery. -/
theorem raced_of (h : st.Mending) : st.Raced := by
  intro i retry r owner hphase
  have hi := h.callers i
  rw [hphase] at hi
  exact ⟨hi.asks.made, hi.connection, hi.uncancelled⟩

end Mending

end Upstream

/-- Work that goes on is what may happen during a recovery, and collides with nothing. -/
theorem lostOnce_of_goesOn {st : Upstream} {a : UpstreamAction} (h : a.goesOn = true) :
    lostOnce st a = true ∧ collides st a = false := by
  cases a <;> simp_all [UpstreamAction.goesOn, lostOnce, collides]

/-- **Concurrent recovery**: in every run in which no call takes the lock to reconnect while
the second attempt of a call waits for its answer, every call that ends has returned the
reply to a request of its own; a call that has not ended, or the work it waits for, can
always go on; and the run ends. -/
theorem recovers {name : Str} {st : Upstream} {as : List UpstreamAction}
    (hrun : upstream.exec (.init name) as = some st)
    (hlost : upstream.Each (fun st a => lostOnce st a = true) (.init name) as)
    (hapart : upstream.Each (fun st a => collides st a = false) (.init name) as) :
    upstream.Always (fun st => ∀ i, st.Replied i) (.init name) as ∧
      (∀ i, (st.callers i).phase.isActive = true → ∃ a st', upstream.step st a = some st' ∧
        (a.goesOn = true ∨ a = .acquire i) ∧ lostOnce st a = true ∧ collides st a = false) ∧
      ∀ S : Finset ℕ, (∀ i op, .enter i op ∈ as → i ∈ S) → as.length ≤ 23 * S.card := by
  have hkeep : ∀ st a st', (st.Owned ∧ st.Mending) →
      (lostOnce st a = true ∧ collides st a = false) →
      upstream.step st a = some st' → st'.Owned ∧ st'.Mending := by
    rintro st a st' ⟨ho, hm⟩ ⟨ha, hapart⟩ hstep
    refine ⟨ho.step ?_ hstep, hm.step ho ha hapart hstep⟩
    cases a with
    | cancel i => simp [lostOnce] at ha
    | _ => exact id
  have hinit : (Upstream.init name).Owned ∧ (Upstream.init name).Mending :=
    ⟨.init name, .init name⟩
  have heach := System.each_and.mpr ⟨hlost, hapart⟩
  refine ⟨System.always_of_each hkeep (fun st h => h.2.replied) hinit heach, fun i hactive => ?_,
    fun S hentered => ?_⟩
  · obtain ⟨ho, hm⟩ := System.invariant hkeep hinit heach hrun
    obtain ⟨a, st', hstep, hgoes | ⟨rfl, hidle⟩⟩ := ho.progress hm.raced_of hactive
    · exact ⟨a, st', hstep, Or.inl hgoes, lostOnce_of_goesOn hgoes⟩
    · refine ⟨.acquire i, st', hstep, Or.inr rfl, rfl, ?_⟩
      -- nobody waits for a request
      have hretrying : ∀ r, st.retrying r = false := by
        intro r
        simp only [Upstream.retrying]
        split
        · next r' owner hj => exact absurd hj (hidle _ _ _ _)
        · simp
      simp [collides, hretrying]
  · exact Upstream.length_le hkeep (fun st h => ⟨h.1, h.2.raced_of⟩)
      (fun st i h => by simp [lostOnce] at h) hinit heach hrun hentered

/-- Two calls lose their connection. The first reconnects and is answered, and then the second
tears down that connection, reconnects and is answered. -/
def recoveringRun : List UpstreamAction :=
  [.enter 0 (.call (lit "get_order") []), .acquire 0, .start 0, .opened 0 [], .connected 0, .send 0,
    .enter 1 (.call (lit "get_order") []), .acquire 1, .send 1, .die 0, .finish 0, .raced 0,
    .raced 1, .acquire 0, .start 1, .opened 1 [], .connected 0, .send 2, .reply 2 ⟨false, []⟩,
    .raced 0, .acquire 1, .stopped 1, .finish 1, .torn 1, .start 2, .opened 2 [], .connected 1,
    .send 3, .reply 3 ⟨false, []⟩, .raced 1]

/-- A recovery of two calls that succeeds. -/
theorem recovers_sample : ∃ st,
    upstream.exec (.init (lit "order")) recoveringRun = some st ∧
      (st.callers 0).phase.isReturned = true ∧ (st.callers 1).phase.isReturned = true ∧
      upstream.Always (fun st => ∀ i, st.Replied i) (.init (lit "order")) recoveringRun ∧
      (∀ i, (st.callers i).phase.isActive = true → ∃ a st', upstream.step st a = some st' ∧
        (a.goesOn = true ∨ a = .acquire i) ∧ lostOnce st a = true ∧ collides st a = false) ∧
      ∀ S : Finset ℕ, (∀ i op, .enter i op ∈ recoveringRun → i ∈ S) →
        recoveringRun.length ≤ 23 * S.card := by
  have hrun : (upstream.exec (.init (lit "order")) recoveringRun).any (fun st =>
      (st.callers 0).phase.isReturned && (st.callers 1).phase.isReturned) = true := by
    decide +kernel
  obtain ⟨st, hst, hreturned⟩ := (Option.any_eq_true _ _).mp hrun
  simp only [Bool.and_eq_true] at hreturned
  have hlost : upstream.check lostOnce (.init (lit "order")) recoveringRun = true := by
    decide +kernel
  have hapart : upstream.check (fun st a => !collides st a) (.init (lit "order"))
      recoveringRun = true := by
    decide +kernel
  refine ⟨st, hst, hreturned.1, hreturned.2, recovers hst (System.check_iff.mp hlost) ?_⟩
  simpa using System.check_iff.mp hapart

/-- Two calls are in flight when the connection dies. The second attempt of each waits for
its answer when the other one takes the lock. -/
def collidingRun : List UpstreamAction :=
  [.enter 0 (.call (lit "create_ticket") []), .acquire 0, .start 0, .opened 0 [], .connected 0,
    .enter 1 (.call (lit "create_ticket") []), .acquire 1, .die 0, .finish 0, .raced 0, .raced 1,
    .acquire 0, .start 1, .opened 1 [], .connected 0, .send 2, .acquire 1, .stopped 1, .finish 1,
    .raced 0, .torn 1, .start 2, .opened 2 [], .connected 1, .send 3, .reply 3 ⟨false, []⟩,
    .raced 1, .acquire 0, .stopped 2, .finish 2, .torn 0]

/-- **A reconnection destroys another one**: after one loss, with every connection attempt
successful and every request answered, a call returns `BACKEND_UNAVAILABLE`. -/
theorem recovers_fails : ¬∀ (name : Str) (st : Upstream) (as : List UpstreamAction),
    upstream.exec (.init name) as = some st →
    upstream.Each (fun st a => lostOnce st a = true) (.init name) as →
    upstream.Always (fun st => ∀ i, st.Replied i) (.init name) as := by
  intro hclaim
  -- caller 0 has returned, and the backend has replied to no request of its own
  have hrun : (upstream.exec (.init (lit "ticket")) collidingRun).any (fun st =>
      (st.callers 0).operation.isCall && (st.callers 0).phase.isReturned &&
        (List.range st.requestCount).all fun r =>
          (st.requests r).caller != 0 || !(st.requests r).reply.isReplied) = true := by
    decide +kernel
  obtain ⟨st, hst, hcheck⟩ := (Option.any_eq_true _ _).mp hrun
  have hlost : upstream.check lostOnce (.init (lit "ticket")) collidingRun = true := by
    decide +kernel
  have hreplied := (hclaim _ st _ hst (System.check_iff.mp hlost)).last hst 0
  simp only [Bool.and_eq_true, List.all_eq_true, List.mem_range, Bool.or_eq_true] at hcheck
  obtain ⟨⟨hcalls, hreturned⟩, hunreplied⟩ := hcheck
  cases hop : (st.callers 0).operation with
  | call tool arguments =>
      cases hphase : (st.callers 0).phase with
      | returned p =>
          obtain ⟨r, result, -, hasks, hreply⟩ := (hreplied tool arguments hop).2.2 p hphase
          simpa [hasks.caller, hreply, Reply.isReplied] using hunreplied r hasks.made
      | _ => simp [hphase, CallerPhase.isReturned] at hreturned
  | _ => simp [hop, Operation.isCall] at hcalls

end AgentOpsGateway
