import Mathlib.Algebra.BigOperators.Group.Finset.Basic
import AgentOpsGateway.Ownership

/-!
# Every Call Comes to an End

Two facts turn "whatever a call returns is right" into "every call returns, and what it
returns is right". Both need no more than ownership and that nobody is cancelled in a
section of the lock.

## Main results

* `Upstream.Owned.progress`: **no deadlock** — while a caller has not ended, work that is
  under way can go on, or the caller can take the lock.
* `Upstream.length_le`: **no run goes on for ever** — a run has at most 23 actions for each
  caller that enters.
-/

namespace AgentOpsGateway

open Python Transition

/-! ### No deadlock -/

/-- The caller has entered and has not ended. -/
def CallerPhase.isActive : CallerPhase → Bool
  | .acquiring _ | .tearing _ _ | .connecting _ _ | .racing _ _ _ => true
  | .idle | .returned _ | .raised | .cancelled => false

/-- The caller waits outside the sections, for the lock or for its request. -/
def CallerPhase.waits : CallerPhase → Bool
  | .acquiring _ | .racing _ _ _ => true
  | _ => false

/-- The action is the next segment of work under way: of a caller that waits for a
connection or a request, of a connection task that succeeds, or of the backend that
answers. -/
def UpstreamAction.goesOn : UpstreamAction → Bool
  | .torn _ | .connected _ | .raced _ | .start _ | .opened _ _ | .stopped _ | .finish _
  | .send _ | .reply _ _ => true
  | _ => false

/-- Every race is on a request that has been made on the connection of the race, and that
nobody has cancelled. -/
def Upstream.Raced (st : Upstream) : Prop :=
  ∀ i retry r owner, (st.callers i).phase = .racing retry r owner →
    r < st.requestCount ∧ (st.requests r).connection = owner ∧ (st.requests r).reply ≠ .cancelled

namespace Upstream.Owned

variable {st : Upstream} {i : ℕ}

/-- A caller in a section, or the connection task it waits for, can go on. -/
theorem holder_progress (h : st.Owned) (hi : (st.callers i).phase.holds = true) :
    ∃ a st', a.goesOn = true ∧ upstream.step st a = some st' := by
  cases hphase : (st.callers i).phase with
  | tearing s c =>
      obtain ⟨htask, hstop⟩ := h.tearing i s c hphase
      have hready := h.tasked c htask
      have hsound := h.sound c
      simp only [Connection.Sound] at hsound
      cases hc : (st.connections c).phase with
      | serving =>
          exact ⟨.stopped c, _, rfl, by simp only [upstream, Upstream.step, hc, hstop]; rfl⟩
      | closing => exact ⟨.finish c, _, rfl, by simp only [upstream, Upstream.step, hc]; rfl⟩
      | finished =>
          exact ⟨.torn i, _, rfl, by simp only [upstream, Upstream.step, hphase, hc]; rfl⟩
      | _ => simp [hc, hready] at hsound
  | connecting retry c =>
      have hused := (h.connecting i retry c hphase).2
      have hsound := h.sound c
      simp only [Connection.Sound] at hsound
      have hdone : (st.connections c).ready = .ok ∨ (st.connections c).ready = .failed →
          ∃ a st', a.goesOn = true ∧ upstream.step st a = some st' := by
        rintro (hready | hready)
        · exact ⟨.connected i, _, rfl, by simp only [upstream, Upstream.step, hphase, hready]; rfl⟩
        · exact ⟨.connected i, _, rfl, by simp only [upstream, Upstream.step, hphase, hready]; rfl⟩
      cases hc : (st.connections c).phase with
      | absent => exact absurd hc hused
      | created => exact ⟨.start c, _, rfl, by simp only [upstream, Upstream.step, hc]; rfl⟩
      | opening =>
          simp only [hc] at hsound
          exact ⟨.opened c [], _, rfl, by
            simp only [upstream, Upstream.step, hc, hsound.1]; rfl⟩
      | serving => exact hdone (Or.inl (by simp only [hc] at hsound; exact hsound.1))
      | closing => exact hdone (Or.inl (by simp only [hc] at hsound; exact hsound.1))
      | finished => exact hdone (by simp only [hc] at hsound; exact hsound)
  | _ => simp [hphase, CallerPhase.holds] at hi

/-- A caller at a race, or the request it waits for, can go on. -/
theorem race_progress {retry : Bool} {r owner : ℕ}
    (hphase : (st.callers i).phase = .racing retry r owner) (hr : r < st.requestCount)
    (howner : (st.requests r).connection = owner) (hreply : (st.requests r).reply ≠ .cancelled) :
    ∃ a st', a.goesOn = true ∧ upstream.step st a = some st' := by
  cases hc : (st.requests r).reply with
  | replied result =>
      exact ⟨.raced i, _, rfl, by simp only [upstream, Upstream.step, hphase, hc]; rfl⟩
  | raised f => exact ⟨.raced i, _, rfl, by simp only [upstream, Upstream.step, hphase, hc]; rfl⟩
  | cancelled => exact absurd hc hreply
  | pending =>
      have hwaiting : st.waiting r = true := by simp [Upstream.waiting, hr, hc]
      by_cases hfinished : (st.connections owner).phase = .finished
      · exact ⟨.raced i, _, rfl, by
          simp only [upstream, Upstream.step, hphase, hc, hfinished]; rfl⟩
      · by_cases hsent : (st.requests r).sent = true
        · have hanswerable : st.answerable r = true := by
            simp [Upstream.answerable, hsent, howner, hfinished]
          exact ⟨.reply r ⟨false, []⟩, _, rfl, by
            simp only [upstream, Upstream.step, hwaiting, hanswerable]; rfl⟩
        · exact ⟨.send r, _, rfl, by
            simp only [upstream, Upstream.step, hwaiting, hsent]; rfl⟩

/-- **No deadlock**: while a caller has not ended, work that is under way can go on, or the
caller can take the lock and nobody waits for a request. -/
theorem progress (h : st.Owned) (hraced : st.Raced)
    (hactive : (st.callers i).phase.isActive = true) :
    ∃ a st', upstream.step st a = some st' ∧ (a.goesOn = true ∨
      a = .acquire i ∧ ∀ j retry r owner, (st.callers j).phase ≠ .racing retry r owner) := by
  by_cases hholds : ∃ j, (st.callers j).phase.holds = true
  · obtain ⟨j, hj⟩ := hholds
    obtain ⟨a, st', ha, hstep⟩ := h.holder_progress hj
    exact ⟨a, st', hstep, Or.inl ha⟩
  by_cases hracing : ∃ j retry r owner, (st.callers j).phase = .racing retry r owner
  · obtain ⟨j, retry, r, owner, hphase⟩ := hracing
    obtain ⟨hr, howner, hreply⟩ := hraced j retry r owner hphase
    obtain ⟨a, st', ha, hstep⟩ := race_progress hphase hr howner hreply
    exact ⟨a, st', hstep, Or.inl ha⟩
  have hlock : st.lock = none := by
    cases hlock : st.lock with
    | none => rfl
    | some j => exact absurd ⟨j, (h.holder j).mpr hlock⟩ hholds
  have hacquiring : ∃ s, (st.callers i).phase = .acquiring s := by
    cases hphase : (st.callers i).phase with
    | acquiring s => exact ⟨s, rfl⟩
    | racing retry r owner => exact absurd ⟨i, retry, r, owner, hphase⟩ hracing
    | tearing s c => exact absurd ⟨i, by rw [hphase]; rfl⟩ hholds
    | connecting retry c => exact absurd ⟨i, by rw [hphase]; rfl⟩ hholds
    | _ => simp [hphase, CallerPhase.isActive] at hactive
  obtain ⟨s, hphase⟩ := hacquiring
  refine ⟨.acquire i, st.acquired i s, ?_, Or.inr ⟨rfl, fun j retry r owner hj =>
    hracing ⟨j, retry, r, owner, hj⟩⟩⟩
  simp only [upstream, Upstream.step, hphase, hlock]
  rfl

end Upstream.Owned

/-! ### No run goes on for ever -/

/-- How many actions a caller can still cause: its own segments, and those of the
connections and requests it is still to make. -/
def CallerPhase.remaining : CallerPhase → ℕ
  | .idle => 23
  | .acquiring (.connect false) => 22
  | .tearing (.connect false) _ => 21
  | .connecting false _ => 16
  | .racing false _ _ => 13
  | .acquiring (.connect true) => 12
  | .tearing (.connect true) _ => 11
  | .connecting true _ => 6
  | .racing true _ _ => 3
  | .acquiring _ => 2
  | .tearing _ _ => 1
  | .returned _ | .raised | .cancelled => 0

/-- How many segments a connection task still has. -/
def ConnectionPhase.remaining : ConnectionPhase → ℕ
  | .created => 4
  | .opening => 3
  | .serving => 2
  | .closing => 1
  | .absent | .finished => 0

/-- How many steps a request can still make. -/
def Exchange.remaining (x : Exchange) : ℕ :=
  match x.reply with
  | .pending => if x.sent then 1 else 2
  | _ => 0

namespace Upstream

/-- How many actions the callers in `S` can still cause. -/
def callersLeft (S : Finset ℕ) (st : Upstream) : ℕ := ∑ i ∈ S, (st.callers i).phase.remaining

/-- How many segments the connection tasks still have. -/
def connectionsLeft (st : Upstream) : ℕ :=
  ∑ c ∈ Finset.range st.connectionCount, (st.connections c).phase.remaining

/-- How many steps the requests can still make. -/
def requestsLeft (st : Upstream) : ℕ :=
  ∑ r ∈ Finset.range st.requestCount, (st.requests r).remaining

/-- How many actions are still to come where only the callers in `S` enter. -/
def remaining (S : Finset ℕ) (st : Upstream) : ℕ :=
  st.callersLeft S + st.connectionsLeft + st.requestsLeft

variable {S : Finset ℕ} {st st' : Upstream} {i c r : ℕ}

/-- A sum of which one term changes. -/
theorem sum_of_update {f g : ℕ → ℕ} {T : Finset ℕ} {j : ℕ} (hj : j ∈ T)
    (hothers : ∀ k, k ≠ j → g k = f k) : ∑ k ∈ T, g k + f j = ∑ k ∈ T, f k + g j := by
  have hrest : ∑ k ∈ T.erase j, g k = ∑ k ∈ T.erase j, f k :=
    Finset.sum_congr rfl fun k hk => hothers k (Finset.ne_of_mem_erase hk)
  rw [← Finset.add_sum_erase T f hj, ← Finset.add_sum_erase T g hj, hrest]
  omega

/-- One caller has run. -/
theorem callersLeft_of_aside (hi : i ∈ S) (haside : Aside i st st') :
    st'.callersLeft S + (st.callers i).phase.remaining =
      st.callersLeft S + (st'.callers i).phase.remaining :=
  sum_of_update (f := fun j => (st.callers j).phase.remaining)
    (g := fun j => (st'.callers j).phase.remaining) hi fun j hj => by rw [haside.others j hj]

/-- One connection task has gone on. -/
theorem connectionsLeft_setConnection (hc : c < st.connectionCount) (k : Connection) :
    (st.setConnection c k).connectionsLeft + (st.connections c).phase.remaining =
      st.connectionsLeft + k.phase.remaining := by
  have h := sum_of_update (f := fun d => (st.connections d).phase.remaining)
    (g := fun d => ((st.setConnection c k).connections d).phase.remaining)
    (Finset.mem_range.mpr hc) fun d hd => by simp [setConnection, hd]
  have hk : (st.setConnection c k).connections c = k := Function.update_self _ _ _
  rw [hk] at h
  exact h

/-- Setting an event is not progress. -/
theorem connectionsLeft_setStop (st : Upstream) (c : ℕ) :
    (st.setStop c).connectionsLeft = st.connectionsLeft :=
  Finset.sum_congr rfl fun d _ => by rw [setStop_phase]

/-- One request has made a step. -/
theorem requestsLeft_setRequest (hr : r < st.requestCount) (x : Exchange) :
    (st.setRequest r x).requestsLeft + (st.requests r).remaining =
      st.requestsLeft + x.remaining := by
  have h := sum_of_update (f := fun q => (st.requests q).remaining)
    (g := fun q => ((st.setRequest r x).requests q).remaining)
    (Finset.mem_range.mpr hr) fun q hq => by simp [setRequest, hq]
  have hx : (st.setRequest r x).requests r = x := Function.update_self _ _ _
  rw [hx] at h
  exact h

/-- A new request has two steps to make. -/
theorem requestsLeft_dispatch (st : Upstream) (i session : ℕ) (tool : Str)
    (arguments : Arguments) :
    (st.dispatch i session tool arguments).requestsLeft = st.requestsLeft + 2 := by
  simp only [requestsLeft, dispatch, Finset.sum_range_succ, Function.update_self]
  congr 1
  refine Finset.sum_congr rfl fun q hq => ?_
  rw [Function.update_of_ne (Finset.mem_range.mp hq).ne]

/-- A new connection task has four segments to run. -/
theorem connectionsLeft_connectLocked (st : Upstream) (i : ℕ) (retry : Bool) :
    (st.connectLocked i retry).connectionsLeft = st.connectionsLeft + 4 := by
  simp only [connectionsLeft, connectLocked, move, Finset.sum_range_succ, Function.update_self]
  congr 1
  refine Finset.sum_congr rfl fun q hq => ?_
  rw [Function.update_of_ne (Finset.mem_range.mp hq).ne]

/-- A caller moves, and everything else stays. -/
theorem remaining_move (st : Upstream) (hi : i ∈ S) (phase : CallerPhase) :
    (st.move i phase).remaining S + (st.callers i).phase.remaining =
      st.remaining S + phase.remaining := by
  have h := callersLeft_of_aside hi (aside_move st phase)
  have hc : (st.move i phase).connectionsLeft = st.connectionsLeft := rfl
  have hr : (st.move i phase).requestsLeft = st.requestsLeft := rfl
  rw [move_phase] at h
  simp only [remaining, hc, hr]
  omega

/-- An attempt has failed. -/
theorem remaining_fail (st : Upstream) (hi : i ∈ S) (retry : Bool) (a : Attempt) :
    (st.fail i retry a).remaining S + (st.callers i).phase.remaining =
      st.remaining S + if retry then 2 else 12 := by
  have h := callersLeft_of_aside hi (outside_fail st retry a).toAside
  have hc : (st.fail i retry a).connectionsLeft = st.connectionsLeft := rfl
  have hr : (st.fail i retry a).requestsLeft = st.requestsLeft := rfl
  have hphase : ((st.fail i retry a).callers i).phase.remaining = if retry then 2 else 12 := by
    cases retry <;> simp [fail, CallerPhase.remaining]
  rw [hphase] at h
  simp only [remaining, hc, hr]
  omega

/-- A caller has made a request. -/
theorem remaining_dispatch (S : Finset ℕ) (st : Upstream) (i session : ℕ) (tool : Str)
    (arguments : Arguments) :
    (st.dispatch i session tool arguments).remaining S = st.remaining S + 2 := by
  have hc : (st.dispatch i session tool arguments).callersLeft S = st.callersLeft S := rfl
  have hk : (st.dispatch i session tool arguments).connectionsLeft = st.connectionsLeft := rfl
  simp only [remaining, hc, hk, requestsLeft_dispatch]
  omega

/-- What follows a session in hand costs less than waiting for it. -/
theorem remaining_proceed (st : Upstream) (hi : i ∈ S) (retry : Bool) :
    (st.proceed i retry).remaining S + (st.callers i).phase.remaining <
      st.remaining S + (CallerPhase.connecting retry c).remaining := by
  have hreturn : (st.move i (.returned none)).remaining S + (st.callers i).phase.remaining <
      st.remaining S + (CallerPhase.connecting retry c).remaining := by
    have h := remaining_move st hi (.returned none)
    cases retry <;> simp only [CallerPhase.remaining] at h ⊢ <;> omega
  cases hop : (st.callers i).operation with
  | call tool arguments =>
      rcases proceed_call retry hop with ⟨-, heq⟩ | ⟨session, -, ⟨-, heq⟩ | ⟨owner, -, heq⟩⟩
      · have h := remaining_fail st hi retry .noAnswer
        rw [heq]
        cases retry <;> simp only [CallerPhase.remaining, if_true, Bool.false_eq_true, if_false]
          at h ⊢ <;> omega
      · have h := remaining_fail (st.dispatch i session tool arguments) hi retry .noAnswer
        have hphase : ((st.dispatch i session tool arguments).callers i).phase =
          (st.callers i).phase := rfl
        rw [remaining_dispatch, hphase] at h
        rw [heq]
        cases retry <;> simp only [CallerPhase.remaining, if_true, Bool.false_eq_true, if_false]
          at h ⊢ <;> omega
      · have h := remaining_move (st.dispatch i session tool arguments) hi
          (.racing retry st.requestCount owner)
        have hphase : ((st.dispatch i session tool arguments).callers i).phase =
          (st.callers i).phase := rfl
        rw [remaining_dispatch, hphase] at h
        rw [heq]
        cases retry <;> simp only [CallerPhase.remaining] at h ⊢ <;> omega
  | ensureSession =>
      rw [proceed_of_not_call retry (by simp [hop])]
      exact hreturn
  | close =>
      rw [proceed_of_not_call retry (by simp [hop])]
      exact hreturn

/-- What follows a teardown costs less than waiting for it. -/
theorem remaining_torn (st : Upstream) (hi : i ∈ S) (s : Section) :
    (st.torn i s).remaining S + (st.callers i).phase.remaining <
      st.remaining S + (CallerPhase.tearing s c).remaining := by
  have h := callersLeft_of_aside hi (aside_torn st s)
  have hr : (st.torn i s).requestsLeft = st.requestsLeft := by cases s <;> rfl
  cases s with
  | connect retry =>
      have hphase : ((st.torn i (.connect retry)).callers i).phase =
        .connecting retry st.connectionCount := move_phase _ i _
      have hc := connectionsLeft_connectLocked { st with task := none, session := none } i retry
      have hc : (st.torn i (.connect retry)).connectionsLeft = st.connectionsLeft + 4 := hc
      rw [hphase] at h
      simp only [remaining, hr, hc]
      cases retry <;> simp only [CallerPhase.remaining] at h ⊢ <;> omega
  | giveUp =>
      have hphase : ((st.torn i .giveUp).callers i).phase =
        .returned (some (backendUnavailable st.name)) := move_phase _ i _
      have hc : (st.torn i .giveUp).connectionsLeft = st.connectionsLeft := rfl
      rw [hphase] at h
      simp only [remaining, hr, hc, CallerPhase.remaining] at h ⊢
      omega
  | close =>
      have hphase : ((st.torn i .close).callers i).phase = .returned none := move_phase _ i _
      have hc : (st.torn i .close).connectionsLeft = st.connectionsLeft := rfl
      rw [hphase] at h
      simp only [remaining, hr, hc, CallerPhase.remaining] at h ⊢
      omega

/-- Neither the lock nor an event is progress. -/
theorem remaining_setStop (S : Finset ℕ) (st : Upstream) (c : ℕ) :
    (st.setStop c).remaining S = st.remaining S := by
  have hc : (st.setStop c).callersLeft S = st.callersLeft S := rfl
  have hr : (st.setStop c).requestsLeft = st.requestsLeft := rfl
  simp only [remaining, hc, hr, connectionsLeft_setStop]

/-- A connection task goes on. -/
theorem remaining_setConnection (S : Finset ℕ) (hc : c < st.connectionCount) (k : Connection) :
    (st.setConnection c k).remaining S + (st.connections c).phase.remaining =
      st.remaining S + k.phase.remaining := by
  have h := connectionsLeft_setConnection hc k
  have hcallers : (st.setConnection c k).callersLeft S = st.callersLeft S := rfl
  have hr : (st.setConnection c k).requestsLeft = st.requestsLeft := rfl
  simp only [remaining, hcallers, hr]
  omega

/-- A request makes a step. -/
theorem remaining_setRequest (S : Finset ℕ) (hr : r < st.requestCount) (x : Exchange) :
    (st.setRequest r x).remaining S + (st.requests r).remaining =
      st.remaining S + x.remaining := by
  have h := requestsLeft_setRequest hr x
  have hcallers : (st.setRequest r x).callersLeft S = st.callersLeft S := rfl
  have hc : (st.setRequest r x).connectionsLeft = st.connectionsLeft := rfl
  simp only [remaining, hcallers, hc]
  omega

/-- A connection task that goes on is progress. -/
theorem remaining_lt_of_connection (S : Finset ℕ) (hc : c < st.connectionCount)
    {phase : ConnectionPhase} (hphase : (st.connections c).phase = phase) {k : Connection}
    (hless : k.phase.remaining < phase.remaining) :
    (st.setConnection c k).remaining S < st.remaining S := by
  have h := remaining_setConnection S hc k
  rw [hphase] at h
  omega

/-- A request that goes out or ends is progress. -/
theorem remaining_lt_of_request (S : Finset ℕ) (hwaiting : st.waiting r = true) {x : Exchange}
    (hless : x.remaining < (st.requests r).remaining) :
    (st.setRequest r x).remaining S < st.remaining S := by
  have hr : r < st.requestCount := by
    simp only [Upstream.waiting, Bool.and_eq_true, decide_eq_true_eq] at hwaiting
    exact hwaiting.1
  have h := remaining_setRequest S hr x
  omega

/-- A request that waits has a step to make. -/
theorem remaining_pos_of_waiting (hwaiting : st.waiting r = true) :
    0 < (st.requests r).remaining := by
  simp only [Exchange.remaining, pending_of_waiting hwaiting]
  split <;> omega

/-- A caller that gets the lock is progress. -/
theorem remaining_acquired (hi : i ∈ S) {s : Section}
    (hphase : (st.callers i).phase = .acquiring s) :
    (st.acquired i s).remaining S < st.remaining S := by
  have hcost : ∀ c, (CallerPhase.tearing s c).remaining < (CallerPhase.acquiring s).remaining := by
    intro c
    rcases s with (_ | _) | _ | _ <;> simp [CallerPhase.remaining]
  have hless := hcost 0
  rcases acquired_cases st i s with ⟨rfl, -, heq⟩ | ⟨-, ⟨-, heq⟩ | ⟨c, -, ⟨-, heq⟩ | ⟨-, heq⟩⟩⟩
  · have h := remaining_proceed st (c := 0) hi false
    rw [heq]
    rw [hphase] at h
    simp only [CallerPhase.remaining] at h
    omega
  · have h := remaining_torn { st with lock := some i } (c := 0) hi s
    have hl : ({ st with lock := some i } : Upstream).remaining S = st.remaining S := rfl
    rw [heq]
    rw [hl, hphase] at h
    omega
  · have h := remaining_torn ({ st with lock := some i }.setStop c) (c := 0) hi s
    have hl : ({ st with lock := some i } : Upstream).remaining S = st.remaining S := rfl
    rw [heq]
    rw [remaining_setStop, hl, setStop_callers, hphase] at h
    omega
  · have h := remaining_move ({ st with lock := some i }.setStop c) hi (.tearing s c)
    have hl : ({ st with lock := some i } : Upstream).remaining S = st.remaining S := rfl
    have hless := hcost c
    rw [heq]
    rw [remaining_setStop, hl, setStop_callers, hphase] at h
    omega

/-- A failed connection attempt is progress for its caller. -/
theorem remaining_connectFailed (hi : i ∈ S) {retry : Bool}
    (hphase : (st.callers i).phase = .connecting retry c) :
    (st.connectFailed i retry c).remaining S < st.remaining S := by
  have hstopped : (st.release.setConnection c
      { st.connections c with stop := true, exited := true }).remaining S = st.remaining S := by
    have hc : (st.release.setConnection c
        { st.connections c with stop := true, exited := true }).connectionsLeft =
          st.connectionsLeft :=
      Finset.sum_congr rfl fun d _ => by by_cases hd : d = c <;> simp [setConnection, release, hd]
    simp only [remaining, hc]
    rfl
  have hcallers : (st.release.setConnection c
      { st.connections c with stop := true, exited := true }).callers = st.callers := rfl
  have hmove : ∀ p : CallerPhase, p.remaining = 0 → ((st.release.setConnection c
      { st.connections c with stop := true, exited := true }).move i p).remaining S <
        st.remaining S := by
    intro p hp
    have hcost : 0 < (CallerPhase.connecting retry c).remaining := by
      cases retry <;> simp [CallerPhase.remaining]
    have h := remaining_move (st.release.setConnection c
      { st.connections c with stop := true, exited := true }) hi p
    rw [hstopped, hcallers, hphase, hp] at h
    omega
  have hfail : retry = false → ((st.release.setConnection c
      { st.connections c with stop := true, exited := true }).fail i false
        .noAnswer).remaining S < st.remaining S := by
    intro hretry
    have hcost : (CallerPhase.connecting retry c).remaining = 16 := by
      simp [hretry, CallerPhase.remaining]
    have h := remaining_fail (st.release.setConnection c
      { st.connections c with stop := true, exited := true }) hi false .noAnswer
    rw [hstopped, hcallers, hphase, hcost, if_neg (by decide)] at h
    omega
  unfold connectFailed
  dsimp only
  split
  · exact hmove _ rfl
  · next hretry =>
      split
      · exact hfail (by simpa using hretry)
      · exact hmove _ rfl

/-- The end of a race is progress. -/
theorem remaining_raced (hi : i ∈ S) (hstep : upstream.step st (.raced i) = some st')
    (hmade : ∀ retry r owner, (st.callers i).phase = .racing retry r owner →
      r < st.requestCount) : st'.remaining S < st.remaining S := by
  obtain ⟨retry, r, owner, hphase, hcases⟩ := step_raced hstep
  have hrace : (if retry then 2 else 12) < (CallerPhase.racing retry r owner).remaining := by
    cases retry <;> simp [CallerPhase.remaining]
  rcases hcases with ⟨result, -, rfl⟩ | ⟨f, -, rfl⟩ | ⟨hpending, -, rfl⟩
  · have h := callersLeft_of_aside hi (outside_answer st result).toAside
    have hphase' : ((st.answer i result).callers i).phase = .returned (some result) := by
      simp [answer]
    have hc : (st.answer i result).connectionsLeft = st.connectionsLeft := rfl
    have hr : (st.answer i result).requestsLeft = st.requestsLeft := rfl
    have hdone : (CallerPhase.returned (some result)).remaining = 0 := rfl
    rw [hphase', hphase, hdone] at h
    simp only [remaining, hc, hr]
    omega
  · have h := remaining_fail st hi retry f.attempt
    rw [hphase] at h
    omega
  · have h := remaining_fail (st.setRequest r { st.requests r with reply := Reply.cancelled }) hi
      retry .noAnswer
    have hset := remaining_setRequest S (hmade retry r owner hphase)
      { st.requests r with reply := Reply.cancelled }
    have hcallers : (st.setRequest r { st.requests r with reply := Reply.cancelled }).callers =
      st.callers := rfl
    have hdone : Exchange.remaining { st.requests r with reply := Reply.cancelled } = 0 := rfl
    rw [hcallers, hphase] at h
    rw [hdone] at hset
    omega

/-- **Every action is progress**: less is left after it, where nobody is cancelled in a
section. -/
theorem remaining_step (ho : st.Owned) (hraced : st.Raced)
    (hentered : ∀ i, i ∉ S → (st.callers i).phase = .idle)
    {a : UpstreamAction} (henter : ∀ i op, a = .enter i op → i ∈ S)
    (hcancel : ∀ i, a = .cancel i → (st.callers i).phase.waits = true)
    (hstep : upstream.step st a = some st') : st'.remaining S < st.remaining S := by
  have hmem : ∀ i, (st.callers i).phase ≠ .idle → i ∈ S := fun i hi =>
    by_contra fun hnot => hi (hentered i hnot)
  have hused : ∀ c, (st.connections c).phase ≠ .absent → c < st.connectionCount := fun c hc =>
    Nat.lt_of_not_le fun hle => hc (ho.unused c hle)
  cases a with
  | enter i op =>
      obtain ⟨hphase, rfl⟩ := step_enter hstep
      have h := callersLeft_of_aside (henter i op rfl) (outside_enter st op).toAside
      simp only [Function.update_self, hphase] at h
      have hcost : (CallerPhase.acquiring op.section).remaining ≤ 22 := by
        cases op <;> simp [Operation.section, CallerPhase.remaining]
      have hidle : (CallerPhase.idle).remaining = 23 := rfl
      simp only [remaining, connectionsLeft, requestsLeft]
      omega
  | acquire i =>
      obtain ⟨s, hphase, -, rfl⟩ := step_acquire hstep
      exact remaining_acquired (hmem i (by simp [hphase])) hphase
  | torn i =>
      obtain ⟨s, c, hphase, -, rfl⟩ := step_torn hstep
      have h := remaining_torn (c := c) st (hmem i (by simp [hphase])) s
      rw [hphase] at h
      omega
  | connected i =>
      obtain ⟨retry, c, hphase, ⟨-, rfl⟩ | ⟨-, rfl⟩⟩ := step_connected hstep
      · have h := remaining_proceed (c := c) { st with task := some c, lock := none }
          (hmem i (by simp [hphase])) retry
        have hl : ({ st with task := some c, lock := none } : Upstream).remaining S =
          st.remaining S := rfl
        rw [hl, hphase] at h
        omega
      · exact remaining_connectFailed (hmem i (by simp [hphase])) hphase
  | raced i =>
      obtain ⟨retry, r, owner, hphase, -⟩ := step_raced hstep
      exact remaining_raced (hmem i (by simp [hphase])) hstep fun retry r owner hrace =>
        (hraced i retry r owner hrace).1
  | cancel i =>
      have hwaits := hcancel i rfl
      have hi := hmem i fun hidle => by simp [hidle, CallerPhase.waits] at hwaits
      have hmove := remaining_move st hi .cancelled
      rcases step_cancel hstep with ⟨⟨s, hphase⟩ | ⟨retry, r, owner, hphase⟩, rfl⟩ |
        ⟨s, c, hphase, -⟩ | ⟨retry, c, hphase, -⟩
      · have hpos : 0 < (CallerPhase.acquiring s).remaining := by
          rcases s with (_ | _) | _ | _ <;> simp [CallerPhase.remaining]
        rw [hphase, show CallerPhase.cancelled.remaining = 0 from rfl] at hmove
        omega
      · have hpos : 0 < (CallerPhase.racing retry r owner).remaining := by
          cases retry <;> simp [CallerPhase.remaining]
        rw [hphase, show CallerPhase.cancelled.remaining = 0 from rfl] at hmove
        omega
      · simp [hphase, CallerPhase.waits] at hwaits
      · simp [hphase, CallerPhase.waits] at hwaits
  | start c =>
      obtain ⟨hphase, rfl⟩ := step_start hstep
      exact remaining_lt_of_connection S (hused c (by simp [hphase])) hphase (Nat.lt_succ_self 3)
  | opened c tools =>
      obtain ⟨hphase, ⟨-, rfl⟩ | ⟨-, rfl⟩⟩ := step_opened hstep
      · exact remaining_lt_of_connection S (hused c (by simp [hphase])) hphase
          (Nat.lt_succ_self 2)
      · exact remaining_lt_of_connection S (hused c (by simp [hphase])) hphase
          (Nat.lt_of_sub_eq_succ rfl)
  | openFail c =>
      obtain ⟨hphase, rfl⟩ := step_openFail hstep
      exact remaining_lt_of_connection S (hused c (by simp [hphase])) hphase (Nat.succ_pos 2)
  | die c =>
      obtain ⟨hphase, rfl⟩ := step_die hstep
      exact remaining_lt_of_connection S (hused c (by simp [hphase])) hphase (Nat.lt_succ_self 1)
  | stopped c =>
      obtain ⟨hphase, -, rfl⟩ := step_stopped hstep
      exact remaining_lt_of_connection S (hused c (by simp [hphase])) hphase (Nat.lt_succ_self 1)
  | finish c =>
      obtain ⟨hphase, rfl⟩ := step_finish hstep
      exact remaining_lt_of_connection S (hused c (by simp [hphase])) hphase (Nat.succ_pos 0)
  | send r =>
      obtain ⟨hwaiting, hsent, rfl⟩ := step_send hstep
      refine remaining_lt_of_request S hwaiting ?_
      simp [Exchange.remaining, pending_of_waiting hwaiting, hsent]
  | reply r result =>
      obtain ⟨hwaiting, -, rfl⟩ := step_reply hstep
      exact remaining_lt_of_request S hwaiting (remaining_pos_of_waiting hwaiting)
  | callRaise r f =>
      obtain ⟨hwaiting, rfl⟩ := step_callRaise hstep
      exact remaining_lt_of_request S hwaiting (remaining_pos_of_waiting hwaiting)

/-- A caller that has not entered does not move. -/
theorem idle_step (hidle : (st.callers i).phase = .idle) {a : UpstreamAction}
    (henter : ∀ op, a ≠ .enter i op) (hstep : upstream.step st a = some st') :
    (st'.callers i).phase = .idle := by
  by_cases hrun : a.caller = some i
  · -- whoever runs a segment is not idle
    exfalso
    cases a with
    | enter j op =>
        obtain rfl : j = i := Option.some.inj hrun
        exact henter op rfl
    | acquire j =>
        obtain rfl : j = i := Option.some.inj hrun
        obtain ⟨s, hphase, -⟩ := step_acquire hstep
        simp [hidle] at hphase
    | torn j =>
        obtain rfl : j = i := Option.some.inj hrun
        obtain ⟨s, c, hphase, -⟩ := step_torn hstep
        simp [hidle] at hphase
    | connected j =>
        obtain rfl : j = i := Option.some.inj hrun
        obtain ⟨retry, c, hphase, -⟩ := step_connected hstep
        simp [hidle] at hphase
    | raced j =>
        obtain rfl : j = i := Option.some.inj hrun
        obtain ⟨retry, r, owner, hphase, -⟩ := step_raced hstep
        simp [hidle] at hphase
    | cancel j =>
        obtain rfl : j = i := Option.some.inj hrun
        rcases step_cancel hstep with ⟨⟨s, hphase⟩ | ⟨retry, r, owner, hphase⟩, -⟩ |
          ⟨s, c, hphase, -⟩ | ⟨retry, c, hphase, -⟩ <;> simp [hidle] at hphase
    | _ => simp [UpstreamAction.caller] at hrun
  · rw [callers_of_step hstep hrun, hidle]

/-- **No run goes on for ever**: under an invariant that brings ownership with it, and where
nobody is cancelled in a section, a run has at most 23 actions for each caller that
enters. -/
theorem length_le {name : Str} {C : Upstream → UpstreamAction → Prop} {I : Upstream → Prop}
    (hkeep : ∀ st a st', I st → C st a → upstream.step st a = some st' → I st')
    (hI : ∀ st, I st → st.Owned ∧ st.Raced)
    (hcancel : ∀ st i, C st (.cancel i) → (st.callers i).phase.waits = true)
    {as : List UpstreamAction} (h₀ : I (.init name)) (hC : upstream.Each C (.init name) as)
    (hrun : upstream.exec (.init name) as = some st)
    (hentered : ∀ i op, .enter i op ∈ as → i ∈ S) : as.length ≤ 23 * S.card := by
  have hstart : (Upstream.init name).remaining S = 23 * S.card := by
    simp [remaining, callersLeft, connectionsLeft, requestsLeft, Upstream.init,
      CallerPhase.remaining, Nat.mul_comm]
  have hmem : upstream.Each (fun _ a => ∀ i op, a = .enter i op → i ∈ S) (.init name) as :=
    System.each_of_mem fun a ha _ i op heq => hentered i op (heq ▸ ha)
  have hbound := System.length_add_le (M := upstream) (m := remaining S)
    (I := fun st => I st ∧ ∀ i, i ∉ S → (st.callers i).phase = .idle)
    (fun st a st' h ha hstep => ⟨hkeep st a st' h.1 ha.1 hstep, fun i hi =>
      idle_step (h.2 i hi) (fun op heq => hi (ha.2 i op heq)) hstep⟩)
    (fun st a st' h ha hstep => remaining_step (hI st h.1).1 (hI st h.1).2 h.2 ha.2
      (fun i heq => hcancel st i (heq ▸ ha.1)) hstep)
    ⟨h₀, fun _ _ => rfl⟩ (System.each_and.mpr ⟨hC, hmem⟩) hrun
  omega

end Upstream

end AgentOpsGateway
