import Mathlib.Algebra.Order.BigOperators.Group.Finset
import AgentOpsGateway.Readiness

/-!
# What a Shutdown Leaves

`lifespan` ends with a `close()` of every backend: it takes `_lock`, tells `_task` to stop and
waits for its end. It does not know of the connection tasks that a cancelled probe has left
behind: these still open their transports when `close()` has returned, and publish a session on
the closed object. They come to an end all the same, because nobody leaves a connection task
without having told it to stop.

## Main results

* `Upstream.Tended.step`: who leaves a connection task has told it to stop, after every
  cancellation.
* `Upstream.Closing.step`: a `close()` goes on, is cancelled, or returns, and does not raise.
* `Upstream.Drained.step`: once `close()` has returned, connection tasks only come to their ends.
* `close_drains`: **a `close()` can return from every state, and behind it no connection is left**,
  as long as nobody gets the lock again.
-/

namespace AgentOpsGateway

open Python Transition

/-- **Nobody is forgotten.** A connection task that is not told to stop is `_task`, or the one
whose caller holds `_lock`; and `_task` is kept while it is torn down. -/
structure Upstream.Tended (st : Upstream) : Prop extends st.Coherent where
  live : ∀ c, (st.connections c).isLive = true → (st.connections c).stop = true ∨
    st.task = some c ∨ ∃ i retry, (st.callers i).phase = .connecting retry c
  untasked : ∀ i retry c, (st.callers i).phase = .connecting retry c → st.task = none
  kept : ∀ i s c, (st.callers i).phase = .tearing s c → st.task = some c

namespace Upstream.Tended

variable {st st' : Upstream} {i c : ℕ}

/-- A new object. -/
theorem init (name : Str) : (Upstream.init name).Tended where
  toCoherent := .init name
  live c := by simp [Upstream.init, Connection.isLive]
  untasked i retry c := by simp [Upstream.init]
  kept i s c := by simp [Upstream.init]

/-- Where nobody is in a section. -/
theorem of_free (h : st.Coherent) (hfree : ∀ j, (st.callers j).phase.holds = false)
    (hlive : ∀ c, (st.connections c).isLive = true →
      (st.connections c).stop = true ∨ st.task = some c) : st.Tended where
  toCoherent := h
  live c hc := (hlive c hc).imp_right Or.inl
  untasked j retry c hj := absurd (hfree j) (by simp [hj, CallerPhase.holds])
  kept j s c hj := absurd (hfree j) (by simp [hj, CallerPhase.holds])

/-- A caller that stays outside the sections does not matter. -/
theorem outside (h : st.Tended) (hout : Outside i st st')
    (hfree : (st.callers i).phase.holds = false) : st'.Tended where
  toCoherent := h.toCoherent.outside hout hfree
  live c hc := by
    rw [hout.connections] at hc ⊢
    rw [hout.task]
    refine (h.live c hc).imp_right (Or.imp_right ?_)
    rintro ⟨j, retry, hj⟩
    exact ⟨j, retry, (hout.phase_eq hfree (Or.inr (by rw [hj]; rfl))).trans hj⟩
  untasked j retry c hj := by
    rw [hout.phase_eq hfree (Or.inl (by rw [hj]; rfl))] at hj
    exact hout.task.trans (h.untasked j retry c hj)
  kept j s c hj := by
    rw [hout.phase_eq hfree (Or.inl (by rw [hj]; rfl))] at hj
    exact hout.task.trans (h.kept j s c hj)

/-- A connection task goes on. -/
theorem connection (h : st.Tended) (h' : st'.Coherent) {k : Connection}
    (hconnections : st'.connections = Function.update st.connections c k)
    (hcallers : st'.callers = st.callers) (htask : st'.task = st.task)
    (hlive : k.isLive = true → (st.connections c).isLive = true)
    (hstop : k.stop = (st.connections c).stop) : st'.Tended where
  toCoherent := h'
  live c' hc' := by
    rw [hconnections, Function.update_apply] at hc' ⊢
    rw [hcallers, htask]
    split at hc'
    · next heq =>
        rw [if_pos heq, hstop, heq]
        exact h.live c (hlive hc')
    · next hne =>
        rw [if_neg hne]
        exact h.live c' hc'
  untasked j retry c' hj := by
    rw [hcallers] at hj
    exact htask.trans (h.untasked j retry c' hj)
  kept j s c' hj := by
    rw [hcallers] at hj
    exact htask.trans (h.kept j s c' hj)

/-- The end of a teardown, when every connection task there is has been told to stop. -/
theorem torn {s : Section} (h : (st.torn i s).Coherent)
    (hothers : ∀ j, j ≠ i → (st.callers j).phase.holds = false)
    (hstopped : ∀ c, (st.connections c).isLive = true → (st.connections c).stop = true) :
    (st.torn i s).Tended := by
  have hmoved : ∀ j, j ≠ i → ((st.torn i s).callers j).phase.holds = false := by
    intro j hj
    rw [(aside_torn st s).others j hj]
    exact hothers j hj
  cases s with
  | connect retry =>
      have hphase : ((st.torn i (.connect retry)).callers i).phase =
          .connecting retry st.connectionCount := move_phase _ _ _
      refine ⟨h, fun c hc => ?_, fun _ _ _ _ => rfl, fun j s c hj => ?_⟩
      · by_cases hnew : c = st.connectionCount
        · exact Or.inr (Or.inr ⟨i, retry, hnew ▸ hphase⟩)
        · have hold : (st.torn i (.connect retry)).connections c = st.connections c :=
            Function.update_of_ne hnew _ _
          rw [hold] at hc ⊢
          exact Or.inl (hstopped c hc)
      · by_cases hji : j = i
        · rw [hji, hphase] at hj
          simp at hj
        · exact absurd (hmoved j hji) (by simp [hj, CallerPhase.holds])
  | giveUp | close =>
      refine of_free h (fun j => ?_) fun c hc => Or.inl (hstopped c hc)
      by_cases hji : j = i
      · rw [hji]
        exact (congrArg CallerPhase.holds (move_phase _ _ _)).trans rfl
      · exact hmoved j hji

/-- While `_lock` is free, what is not told to stop is `_task`. -/
theorem task_of_unlocked (h : st.Tended) (hlock : st.lock = none)
    (hc : (st.connections c).isLive = true) :
    (st.connections c).stop = true ∨ st.task = some c := by
  rcases h.live c hc with hstop | htask | ⟨j, retry, hj⟩
  · exact Or.inl hstop
  · exact Or.inr htask
  · have hfree := h.free_of_unlocked hlock j
    simp [hj, CallerPhase.holds] at hfree

/-- A caller gets the lock. -/
theorem acquired (h : st.Tended) {s : Section} (hphase : (st.callers i).phase = .acquiring s)
    (hlock : st.lock = none) : (st.acquired i s).Tended := by
  have hcoherent := h.toCoherent.acquired hphase hlock
  have hnone : ∀ j, j ≠ i → (st.callers j).phase.holds = false := fun j _ =>
    h.free_of_unlocked hlock j
  rcases acquired_cases st i s with ⟨-, -, heq⟩ | ⟨-, ⟨htask, heq⟩ | ⟨c, htask, hcases⟩⟩
  · rw [heq]
    exact h.outside (outside_proceed st false) (by rw [hphase]; rfl)
  · rw [heq] at hcoherent ⊢
    refine torn hcoherent hnone fun c hc => ?_
    exact (h.task_of_unlocked hlock hc).resolve_right (by simp [htask])
  · -- behind `stop.set()` of `_task` everything is told to stop
    have hstopped : ∀ c', (st.connections c').isLive = true →
        (({ st with lock := some i }.setStop c).connections c').stop = true := by
      intro c' hc'
      by_cases hsame : c' = c
      · simp [Upstream.setStop, setConnection, hsame]
      · have hold : ({ st with lock := some i }.setStop c).connections c' = st.connections c' :=
          Function.update_of_ne hsame _ _
        rw [hold]
        refine (h.task_of_unlocked hlock hc').resolve_right fun htask' => hsame ?_
        exact Option.some.inj (htask'.symm.trans htask)
    have hlive : ∀ c', (({ st with lock := some i }.setStop c).connections c').isLive = true →
        (({ st with lock := some i }.setStop c).connections c').stop = true := by
      intro c' hc'
      rw [Owned.setStop_isLive] at hc'
      exact hstopped c' hc'
    rcases hcases with ⟨-, heq⟩ | ⟨-, heq⟩
    · rw [heq] at hcoherent ⊢
      exact torn hcoherent hnone hlive
    · rw [heq] at hcoherent ⊢
      refine ⟨hcoherent, fun c' hc' => Or.inl (hlive c' hc'), fun j retry c' hj => ?_,
        fun j s' c' hj => ?_⟩
      · by_cases hji : j = i
        · simp [hji] at hj
        · rw [move_callers_of_ne _ hji] at hj
          exact absurd (hnone j hji) (by simp [show (st.callers j).phase = _ from hj,
            CallerPhase.holds])
      · by_cases hji : j = i
        · rw [hji, move_phase] at hj
          obtain ⟨-, rfl⟩ := CallerPhase.tearing.inj hj
          exact htask
        · rw [move_callers_of_ne _ hji] at hj
          exact absurd (hnone j hji) (by simp [show (st.callers j).phase = _ from hj,
            CallerPhase.holds])

/-- While a caller waits for its connection attempt, no other connection task goes on untold. -/
theorem stopped_of_connecting (h : st.Tended) {retry : Bool}
    (hphase : (st.callers i).phase = .connecting retry c) {c' : ℕ} (hne : c' ≠ c)
    (hc' : (st.connections c').isLive = true) : (st.connections c').stop = true := by
  rcases h.live c' hc' with hstop | htask | ⟨j, retry', hj⟩
  · exact hstop
  · simp [h.untasked i retry c hphase] at htask
  · by_cases hji : j = i
    · rw [hji, hphase] at hj
      exact absurd (CallerPhase.connecting.inj hj).2.symm hne
    · have hfree := h.others_free (by rw [hphase]; rfl) j hji
      simp [hj, CallerPhase.holds] at hfree

/-- A caller leaves its connection attempt, and has told it to stop. -/
theorem leave (h : st.Tended) {retry : Bool} {k : Connection} (h' : st'.Coherent)
    (hphase : (st.callers i).phase = .connecting retry c) (hstop : k.stop = true)
    (hout : Outside i (st.release.setConnection c k) st') : st'.Tended := by
  refine of_free h' (fun j => ?_) fun c' hc' => Or.inl ?_
  · by_cases hji : j = i
    · rw [hji]
      exact hout.free
    · rw [hout.others j hji]
      exact h.others_free (by rw [hphase]; rfl) j hji
  · have hconnections : st'.connections = Function.update st.connections c k := hout.connections
    rw [hconnections, Function.update_apply] at hc' ⊢
    split at hc'
    · next heq => rw [if_pos heq, hstop]
    · next hne =>
        rw [if_neg hne]
        exact h.stopped_of_connecting hphase hne hc'

/-- **Every step keeps everything tended**, also the cancellations. -/
theorem step (h : st.Tended) {a : UpstreamAction} (hstep : upstream.step st a = some st') :
    st'.Tended := by
  have hcoherent := h.toCoherent.step hstep
  cases a with
  | enter i op =>
      obtain ⟨hphase, rfl⟩ := step_enter hstep
      exact h.outside (outside_enter st op) (by rw [hphase]; rfl)
  | acquire i =>
      obtain ⟨s, hphase, hlock, rfl⟩ := step_acquire hstep
      exact h.acquired hphase hlock
  | torn i =>
      obtain ⟨s, c, hphase, -, rfl⟩ := step_torn hstep
      have hholds : (st.callers i).phase.holds = true := by rw [hphase]; rfl
      refine torn hcoherent (h.others_free hholds) fun c' hc' => ?_
      rcases h.live c' hc' with hstop | htask | ⟨j, retry, hj⟩
      · exact hstop
      · obtain rfl : c = c' := Option.some.inj ((h.kept i s c hphase).symm.trans htask)
        exact (h.tearing i s c hphase).2
      · have hnone := h.untasked j retry c' hj
        simp [h.kept i s c hphase] at hnone
  | connected i =>
      obtain ⟨retry, c, hphase, ⟨-, rfl⟩ | ⟨-, rfl⟩⟩ := step_connected hstep
      · have hout := outside_proceed (i := i) { st with task := some c, lock := none } retry
        refine of_free hcoherent (fun j => ?_) fun c' hc' => ?_
        · by_cases hji : j = i
          · rw [hji]
            exact hout.free
          · rw [hout.others j hji]
            exact h.others_free (by rw [hphase]; rfl) j hji
        · rw [hout.connections] at hc' ⊢
          rw [hout.task]
          by_cases hsame : c' = c
          · exact Or.inr (by rw [hsame])
          · exact Or.inl (h.stopped_of_connecting hphase hsame hc')
      · exact h.leave hcoherent hphase rfl (outside_connectFailed st retry c)
  | raced i =>
      obtain ⟨retry, r, owner, hphase, ⟨result, -, rfl⟩ | ⟨f, -, rfl⟩ | ⟨-, -, rfl⟩⟩ :=
        step_raced hstep
      · exact h.outside (outside_answer st result) (by rw [hphase]; rfl)
      · exact h.outside (outside_fail st retry _) (by rw [hphase]; rfl)
      · have hset : (st.setRequest r { st.requests r with reply := Reply.cancelled }).Tended :=
          { h with }
        refine hset.outside (outside_fail _ retry _) ?_
        change (st.callers i).phase.holds = false
        rw [hphase]
        rfl
  | cancel i =>
      rcases step_cancel hstep with ⟨hphase, rfl⟩ | ⟨s, c, hphase, ⟨hfinished, rfl⟩ | rfl⟩ |
        ⟨retry, c, hphase, rfl⟩
      · refine h.outside (outside_move st rfl) ?_
        rcases hphase with ⟨s, hphase⟩ | ⟨retry, r, owner, hphase⟩ <;> rw [hphase] <;> rfl
      · refine of_free hcoherent (fun j => ?_) fun c' hc' => ?_
        · by_cases hji : j = i
          · rw [hji, move_phase]
            rfl
          · rw [move_callers_of_ne _ hji]
            exact h.others_free (by rw [hphase]; rfl) j hji
        · refine (h.live c' hc').imp_right fun htended => ?_
          rcases htended with htask | ⟨j, retry, hj⟩
          · exact htask
          · have hnone := h.untasked j retry c' hj
            simp [h.kept i s c hphase] at hnone
      · simp only [cancelConnection] at hcoherent ⊢
        split
        · next hserving =>
            rw [if_pos hserving] at hcoherent
            exact h.connection hcoherent rfl rfl rfl (by simp [Connection.isLive, hserving]) rfl
        · exact h
      · exact h.leave hcoherent hphase rfl (outside_move _ rfl)
  | start c =>
      obtain ⟨hphase, rfl⟩ := step_start hstep
      exact h.connection hcoherent rfl rfl rfl (by simp [Connection.isLive, hphase]) rfl
  | opened c tools =>
      obtain ⟨hphase, ⟨-, rfl⟩ | ⟨-, rfl⟩⟩ := step_opened hstep
      · exact h.connection hcoherent rfl rfl rfl (by simp [Connection.isLive, hphase]) rfl
      · exact h.connection hcoherent rfl rfl rfl (by simp [Connection.isLive, hphase]) rfl
  | openFail c =>
      obtain ⟨-, rfl⟩ := step_openFail hstep
      exact h.connection hcoherent rfl rfl rfl (by simp [Connection.isLive]) rfl
  | die c =>
      obtain ⟨hphase, rfl⟩ := step_die hstep
      exact h.connection hcoherent rfl rfl rfl (by simp [Connection.isLive, hphase]) rfl
  | stopped c =>
      obtain ⟨hphase, -, rfl⟩ := step_stopped hstep
      exact h.connection hcoherent rfl rfl rfl (by simp [Connection.isLive, hphase]) rfl
  | finish c =>
      obtain ⟨-, rfl⟩ := step_finish hstep
      exact h.connection hcoherent rfl rfl rfl (by simp [Connection.isLive]) rfl
  | send r =>
      obtain ⟨-, -, rfl⟩ := step_send hstep
      exact { h with }
  | reply r result =>
      obtain ⟨-, -, rfl⟩ := step_reply hstep
      exact { h with }
  | callRaise r f =>
      obtain ⟨-, rfl⟩ := step_callRaise hstep
      exact { h with }

end Upstream.Tended

/-! ### What goes on behind a close -/

/-- The action is a segment of a connection task. -/
def UpstreamAction.isSegment : UpstreamAction → Bool
  | .start _ | .opened _ _ | .openFail _ | .die _ | .stopped _ | .finish _ => true
  | .enter _ _ | .acquire _ | .torn _ | .connected _ | .raced _ | .cancel _ | .send _ | .reply _ _
  | .callRaise _ _ => false

/-- The two states differ in nothing that a connection task or a section of `_lock` reads. -/
structure Upstream.Rests (st st' : Upstream) : Prop where
  task : st'.task = st.task
  lock : st'.lock = st.lock
  connections : st'.connections = st.connections
  connectionCount : st'.connectionCount = st.connectionCount

/-- One connection task has gone on. -/
structure Upstream.GoesOn (c : ℕ) (k : Connection) (st st' : Upstream) : Prop where
  task : st'.task = st.task
  lock : st'.lock = st.lock
  connections : st'.connections = Function.update st.connections c k
  connectionCount : st'.connectionCount = st.connectionCount
  less : k.phase.remaining < (st.connections c).phase.remaining

/-- How many connection tasks have been created and have not ended. -/
def Upstream.liveCount (st : Upstream) : ℕ :=
  ((Finset.range st.connectionCount).filter fun c => (st.connections c).isLive = true).card

/-- Nobody holds the lock, and `_task` is cleared: `close()` has returned, and nobody has had
the lock since. -/
structure Upstream.Drained (st : Upstream) : Prop extends st.Tended where
  unlocked : st.lock = none
  cleared : st.task = none

/-- Caller `i` is in `close()`. -/
def Upstream.Closing (st : Upstream) (i : ℕ) : Prop :=
  (st.callers i).phase = .acquiring .close ∨ ∃ c, (st.callers i).phase = .tearing .close c

namespace Upstream

variable {st st' : Upstream} {i c : ℕ} {a : UpstreamAction}

/-- A caller that stays outside the sections leaves the connections alone. -/
theorem Outside.rests (h : Outside i st st') : st.Rests st' :=
  ⟨h.task, h.lock, h.connections, h.connectionCount⟩

/-- The segments of a connection task go downwards. -/
theorem goesOn_of_segment (ha : a.isSegment = true) (hstep : upstream.step st a = some st') :
    ∃ c k, GoesOn c k st st' := by
  cases a with
  | start c =>
      obtain ⟨hphase, rfl⟩ := step_start hstep
      exact ⟨c, _, rfl, rfl, rfl, rfl, by simp [hphase, ConnectionPhase.remaining]⟩
  | opened c tools =>
      obtain ⟨hphase, ⟨-, rfl⟩ | ⟨-, rfl⟩⟩ := step_opened hstep
      · exact ⟨c, _, rfl, rfl, rfl, rfl, by simp [hphase, ConnectionPhase.remaining]⟩
      · exact ⟨c, _, rfl, rfl, rfl, rfl, by simp [hphase, ConnectionPhase.remaining]⟩
  | openFail c =>
      obtain ⟨hphase, rfl⟩ := step_openFail hstep
      exact ⟨c, _, rfl, rfl, rfl, rfl, by simp [hphase, ConnectionPhase.remaining]⟩
  | die c =>
      obtain ⟨hphase, rfl⟩ := step_die hstep
      exact ⟨c, _, rfl, rfl, rfl, rfl, by simp [hphase, ConnectionPhase.remaining]⟩
  | stopped c =>
      obtain ⟨hphase, -, rfl⟩ := step_stopped hstep
      exact ⟨c, _, rfl, rfl, rfl, rfl, by simp [hphase, ConnectionPhase.remaining]⟩
  | finish c =>
      obtain ⟨hphase, rfl⟩ := step_finish hstep
      exact ⟨c, _, rfl, rfl, rfl, rfl, by simp [hphase, ConnectionPhase.remaining]⟩
  | _ => simp [UpstreamAction.isSegment] at ha

/-- A connection task that goes on has less to do. -/
theorem connectionsLeft_lt (h : st.Linked) {k : Connection} (hgoes : GoesOn c k st st') :
    st'.connectionsLeft < st.connectionsLeft := by
  have hless := hgoes.less
  have hused : c < st.connectionCount := by
    by_contra hle
    rw [h.unused c (Nat.le_of_not_lt hle)] at hless
    exact absurd hless (Nat.not_lt_zero _)
  have heq : st'.connectionsLeft = (st.setConnection c k).connectionsLeft := by
    simp only [connectionsLeft, hgoes.connections, hgoes.connectionCount]
    rfl
  have hsum := connectionsLeft_setConnection hused k
  omega

/-- What is left to the connection tasks: four segments each. -/
theorem connectionsLeft_le (st : Upstream) : st.connectionsLeft ≤ 4 * st.liveCount := by
  have hlive : ∀ c ∈ Finset.range st.connectionCount,
      (st.connections c).phase.remaining ≠ 0 → (st.connections c).isLive = true := by
    intro c _ hne
    simp only [Connection.isLive]
    cases hphase : (st.connections c).phase <;> simp_all [ConnectionPhase.remaining]
  rw [connectionsLeft, ← Finset.sum_filter_of_ne hlive, liveCount, Nat.mul_comm]
  refine Finset.sum_le_card_nsmul _ _ 4 fun c _ => ?_
  cases (st.connections c).phase <;> decide

namespace Drained

/-- What has not ended is told to stop. -/
theorem stopped (h : st.Drained) (hc : (st.connections c).isLive = true) :
    (st.connections c).stop = true :=
  (h.task_of_unlocked h.unlocked hc).resolve_right (by simp [h.cleared])

/-- Nobody is in a section. -/
theorem free (h : st.Drained) (j : ℕ) : (st.callers j).phase.holds = false :=
  h.free_of_unlocked h.unlocked j

/-- Whoever runs without the lock leaves the connections alone. -/
theorem rests (h : st.Drained) (ha : a.isSegment = false) (hlock : ∀ j, a ≠ .acquire j)
    (hstep : upstream.step st a = some st') : st.Rests st' := by
  cases a with
  | enter i op =>
      obtain ⟨-, rfl⟩ := step_enter hstep
      exact (outside_enter st op).rests
  | acquire i => exact absurd rfl (hlock i)
  | torn i =>
      obtain ⟨s, c, hphase, -⟩ := step_torn hstep
      have hfree := h.free i
      simp [hphase, CallerPhase.holds] at hfree
  | connected i =>
      obtain ⟨retry, c, hphase, -⟩ := step_connected hstep
      have hfree := h.free i
      simp [hphase, CallerPhase.holds] at hfree
  | raced i =>
      obtain ⟨retry, r, owner, -, ⟨result, -, rfl⟩ | ⟨f, -, rfl⟩ | ⟨-, -, rfl⟩⟩ := step_raced hstep
      · exact (outside_answer st result).rests
      · exact (outside_fail st retry _).rests
      · have hfailed := (outside_fail (i := i)
          (st.setRequest r { st.requests r with reply := Reply.cancelled }) retry .noAnswer).rests
        exact ⟨hfailed.task, hfailed.lock, hfailed.connections, hfailed.connectionCount⟩
  | cancel i =>
      have hfree := h.free i
      rcases step_cancel hstep with ⟨-, rfl⟩ | ⟨s, c, hphase, -⟩ | ⟨retry, c, hphase, -⟩
      · exact (outside_move st rfl).rests
      · simp [hphase, CallerPhase.holds] at hfree
      · simp [hphase, CallerPhase.holds] at hfree
  | send r =>
      obtain ⟨-, -, rfl⟩ := step_send hstep
      exact ⟨rfl, rfl, rfl, rfl⟩
  | reply r result =>
      obtain ⟨-, -, rfl⟩ := step_reply hstep
      exact ⟨rfl, rfl, rfl, rfl⟩
  | callRaise r f =>
      obtain ⟨-, rfl⟩ := step_callRaise hstep
      exact ⟨rfl, rfl, rfl, rfl⟩
  | _ => simp [UpstreamAction.isSegment] at ha

/-- **What is drained stays drained** while nobody gets the lock, and the connection tasks only
come nearer to their ends. -/
theorem step (h : st.Drained) (hlock : ∀ j, a ≠ .acquire j)
    (hstep : upstream.step st a = some st') :
    st'.Drained ∧ st'.connectionsLeft ≤ st.connectionsLeft ∧
      (a.isSegment = true → st'.connectionsLeft < st.connectionsLeft) := by
  have htended := h.toTended.step hstep
  cases ha : a.isSegment with
  | true =>
      obtain ⟨c, k, hgoes⟩ := goesOn_of_segment ha hstep
      have hless := connectionsLeft_lt h.toLinked hgoes
      exact ⟨⟨htended, hgoes.lock.trans h.unlocked, hgoes.task.trans h.cleared⟩, hless.le,
        fun _ => hless⟩
  | false =>
      have hrests := h.rests ha hlock hstep
      refine ⟨⟨htended, hrests.lock.trans h.unlocked, hrests.task.trans h.cleared⟩, le_of_eq ?_,
        by simp⟩
      simp only [connectionsLeft, hrests.connections, hrests.connectionCount]

/-- A connection task that has not ended can go on. -/
theorem goes_on (h : st.Drained) (hc : (st.connections c).isLive = true) :
    ∃ b st', b.isSegment = true ∧ b.goesOn = true ∧ upstream.step st b = some st' := by
  cases hphase : (st.connections c).phase with
  | created => exact ⟨.start c, _, rfl, rfl, by simp only [upstream, Upstream.step, hphase]; rfl⟩
  | opening =>
      by_cases hready : (st.connections c).ready = .pending
      · exact ⟨.opened c [], _, rfl, rfl, by
          simp only [upstream, Upstream.step, hphase, hready]; rfl⟩
      · exact ⟨.opened c [], _, rfl, rfl, by
          simp only [upstream, Upstream.step, hphase, if_neg hready]; rfl⟩
  | serving =>
      exact ⟨.stopped c, _, rfl, rfl, by
        simp only [upstream, Upstream.step, hphase, h.stopped hc]; rfl⟩
  | closing => exact ⟨.finish c, _, rfl, rfl, by simp only [upstream, Upstream.step, hphase]; rfl⟩
  | absent | finished => simp [Connection.isLive, hphase] at hc

/-- Where all have ended, no session is left. -/
theorem session_eq_none (h : st.Drained) (hended : ∀ c, (st.connections c).isLive = false) :
    st.session = none := by
  cases hsession : st.session with
  | none => rfl
  | some c =>
      have hlive := Connection.isLive_of_isUp (h.session c hsession)
      simp [hended c] at hlive

/-- **The run behind a close**: every segment of a connection task is one of those that were
left to it. -/
theorem run (h : st.Drained) {bs : List UpstreamAction} (hlock : ∀ b ∈ bs, ∀ j, b ≠ .acquire j)
    (hrun : upstream.exec st bs = some st') :
    st'.Drained ∧
      bs.countP UpstreamAction.isSegment + st'.connectionsLeft ≤ st.connectionsLeft := by
  have hkeep : ∀ (s : Upstream) (a : UpstreamAction) (t : Upstream), s.Drained →
      (∀ j, a ≠ .acquire j) → upstream.step s a = some t → t.Drained :=
    fun s a t hs ha hstep => (hs.step ha hstep).1
  have heach : upstream.Each (fun _ a => ∀ j, a ≠ .acquire j) st bs :=
    System.each_of_mem fun b hb _ => hlock b hb
  refine ⟨System.invariant hkeep h heach hrun, ?_⟩
  exact System.countP_add_le hkeep (fun s a t hs ha hstep => (hs.step ha hstep).2.1)
    (fun s a t hs ha hstep => (hs.step ha hstep).2.2) h heach hrun

end Drained

/-! ### The close -/

/-- **What becomes of a close** in one step: it goes on, it is cancelled, or it returns, and then
`_task` and the lock are cleared. It does not raise. -/
theorem Closing.step (h : st.Closing i) (hstep : upstream.step st a = some st') :
    st'.Closing i ∨ (st'.callers i).phase = .cancelled ∨
      (st'.callers i).phase = .returned none ∧ st'.lock = none ∧ st'.task = none := by
  have hclose : ∀ s, (st.callers i).phase = .acquiring s → s = .close := by
    intro s hs
    rcases h with hphase | ⟨c, hphase⟩
    · exact (CallerPhase.acquiring.inj (hphase.symm.trans hs)).symm
    · simp [hs] at hphase
  have hstays : st'.callers i = st.callers i → st'.Closing i := by
    intro hsame
    rw [Closing, hsame]
    exact h
  by_cases hcaller : a.caller = some i
  · cases a with
    | enter j op =>
        obtain rfl : j = i := Option.some.inj hcaller
        obtain ⟨hphase, -⟩ := step_enter hstep
        simp [Closing, hphase] at h
    | acquire j =>
        obtain rfl : j = i := Option.some.inj hcaller
        obtain ⟨s, hphase, -, rfl⟩ := step_acquire hstep
        obtain rfl := hclose s hphase
        rcases acquired_cases st j .close with ⟨hconnect, -⟩ | ⟨-, ⟨-, heq⟩ | ⟨c, -, ⟨-, heq⟩ |
          ⟨-, heq⟩⟩⟩
        · simp at hconnect
        · rw [heq]
          exact Or.inr (Or.inr ⟨move_phase _ _ _, rfl, rfl⟩)
        · rw [heq]
          exact Or.inr (Or.inr ⟨move_phase _ _ _, rfl, rfl⟩)
        · rw [heq]
          exact Or.inl (Or.inr ⟨c, move_phase _ _ _⟩)
    | torn j =>
        obtain rfl : j = i := Option.some.inj hcaller
        obtain ⟨s, c, hphase, -, rfl⟩ := step_torn hstep
        rcases h with hacquiring | ⟨c', htearing⟩
        · simp [hphase] at hacquiring
        · obtain ⟨rfl, -⟩ := CallerPhase.tearing.inj (hphase.symm.trans htearing)
          exact Or.inr (Or.inr ⟨move_phase _ _ _, rfl, rfl⟩)
    | connected j =>
        obtain rfl : j = i := Option.some.inj hcaller
        obtain ⟨retry, c, hphase, -⟩ := step_connected hstep
        simp [Closing, hphase] at h
    | raced j =>
        obtain rfl : j = i := Option.some.inj hcaller
        obtain ⟨retry, r, owner, hphase, -⟩ := step_raced hstep
        simp [Closing, hphase] at h
    | cancel j =>
        obtain rfl : j = i := Option.some.inj hcaller
        rcases step_cancel hstep with ⟨-, rfl⟩ | ⟨s, c, -, ⟨-, rfl⟩ | rfl⟩ | ⟨retry, c, hphase, -⟩
        · exact Or.inr (Or.inl (move_phase _ _ _))
        · exact Or.inr (Or.inl (move_phase _ _ _))
        · -- the cancellation ends in the connection task
          refine Or.inl (hstays ?_)
          simp only [cancelConnection]
          split <;> rfl
        · simp [Closing, hphase] at h
    | _ => simp [UpstreamAction.caller] at hcaller
  · exact Or.inl (hstays (callers_of_step hstep hcaller))

/-- A close that waits for the end of `_task` can return. -/
theorem Coherent.closes_tearing (h : st.Coherent)
    (hphase : (st.callers i).phase = .tearing .close c) :
    ∃ st', upstream.Leads (fun a => a.goesOn = true) st st' ∧
      (st'.callers i).phase = .returned none := by
  obtain ⟨hready, hstop⟩ := h.tearing i .close c hphase
  obtain ⟨st₁, hleads, hcallers, hfinished, -⟩ :=
    h.finishes ((h.settled c).of_ok hready) fun _ => hstop
  have hstep : upstream.step st₁ (.torn i) = some (st₁.torn i .close) := by
    simp only [upstream, Upstream.step, hcallers, hphase, if_pos hfinished]
  exact ⟨_, hleads.trans (System.leads_step hstep rfl), move_phase _ _ _⟩

/-- **A close can return** from every state. -/
theorem Coherent.closes (h : st.Coherent) (hclosing : st.Closing i) :
    ∃ st', upstream.Leads (fun a => a.mends = true) st st' ∧
      (st'.callers i).phase = .returned none := by
  have hmends : ∀ a : UpstreamAction, a.goesOn = true → a.mends = true := by
    intro a ha
    cases a <;> first | rfl | exact ha
  rcases hclosing with hacquiring | ⟨c, htearing⟩
  · obtain ⟨st₁, hleads₁, hlock₁⟩ := h.unlocks
    have hphase₁ : (st₁.callers i).phase = .acquiring .close := by
      rw [acquiring_leads hacquiring hleads₁, hacquiring]
    have hstep : upstream.step st₁ (.acquire i) = some (st₁.acquired i .close) := by
      simp only [upstream, Upstream.step, hphase₁, if_pos hlock₁]
    have hleads₂ : upstream.Leads (fun a => a.mends = true) st (st₁.acquired i .close) :=
      (hleads₁.imp hmends).trans (System.leads_step hstep rfl)
    rcases acquired_cases st₁ i .close with ⟨hconnect, -⟩ | ⟨-, ⟨-, heq⟩ | ⟨c, -, ⟨-, heq⟩ |
      ⟨-, heq⟩⟩⟩
    · simp at hconnect
    · exact ⟨_, hleads₂, by rw [heq]; exact move_phase _ _ _⟩
    · exact ⟨_, hleads₂, by rw [heq]; exact move_phase _ _ _⟩
    · have hphase₂ : ((st₁.acquired i .close).callers i).phase = .tearing .close c := by
        rw [heq]
        exact move_phase _ _ _
      obtain ⟨st', hleads', hreturned⟩ := (h.leads hleads₂).closes_tearing hphase₂
      exact ⟨st', hleads₂.trans (hleads'.imp hmends), hreturned⟩
  · obtain ⟨st', hleads, hreturned⟩ := h.closes_tearing htearing
    exact ⟨st', hleads.imp hmends, hreturned⟩

end Upstream

/-- **A close can return, and behind it no connection is left.** In every run, whatever is
cancelled, a `close()` that has begun can return; each step leaves it in `close()`, cancels it,
or lets it return. And behind its return, as long as nobody gets the lock again, the connection
tasks that are still there run for at most four segments each, can go on until all of them have
ended, and leave no session. -/
theorem close_drains {name : Str} {as : List UpstreamAction} {st : Upstream} {i : ℕ}
    (hrun : upstream.exec (.init name) as = some st) (hclosing : st.Closing i) :
    (∃ st', upstream.Leads (fun a => a.mends = true) st st' ∧
      (st'.callers i).phase = .returned none) ∧
    ∀ a st₁, upstream.step st a = some st₁ →
      st₁.Closing i ∨ (st₁.callers i).phase = .cancelled ∨
        (st₁.callers i).phase = .returned none ∧
        ∀ bs st₂, (∀ b ∈ bs, ∀ j, b ≠ .acquire j) → upstream.exec st₁ bs = some st₂ →
          bs.countP UpstreamAction.isSegment ≤ 4 * st₁.liveCount ∧
            ((∃ b st₃, b.isSegment = true ∧ b.goesOn = true ∧ upstream.step st₂ b = some st₃) ∨
              st₂.session = none ∧ ∀ c, (st₂.connections c).isLive = false) := by
  have htended : st.Tended :=
    System.invariant' (I := Upstream.Tended) (fun _ _ _ h hstep => h.step hstep) (.init name) hrun
  refine ⟨htended.toCoherent.closes hclosing, fun a st₁ hstep => ?_⟩
  refine (hclosing.step hstep).imp_right (Or.imp_right ?_)
  rintro ⟨hreturned, hunlocked, hcleared⟩
  refine ⟨hreturned, fun bs st₂ hlock hbehind => ?_⟩
  have hclosed : st₁.Drained := ⟨htended.step hstep, hunlocked, hcleared⟩
  obtain ⟨hdrained, hcount⟩ := hclosed.run hlock hbehind
  have hleft := st₁.connectionsLeft_le
  refine ⟨by omega, ?_⟩
  by_cases hlive : ∃ c, (st₂.connections c).isLive = true
  · obtain ⟨c, hc⟩ := hlive
    exact Or.inl (hdrained.goes_on hc)
  · have hended : ∀ c, (st₂.connections c).isLive = false := by simpa using hlive
    exact Or.inr ⟨hdrained.session_eq_none hended, hended⟩

/-- A probe is cancelled in the middle of its connection attempt, and then `close()` begins. -/
def abandonedRun : List UpstreamAction :=
  [.enter 0 .ensureSession, .acquire 0, .start 0, .cancel 0, .enter 1 .close]

/-- The attempt opens its session behind the return of `close()`, and comes to its end. -/
theorem close_drains_sample : ∃ st st₁ st₂,
    upstream.exec (.init (lit "ticket")) abandonedRun = some st ∧
      upstream.step st (.acquire 1) = some st₁ ∧ st₁.liveCount = 1 ∧
      upstream.exec st₁ [.opened 0 [], .finish 0] = some st₂ ∧
      [UpstreamAction.opened 0 [], .finish 0].countP UpstreamAction.isSegment ≤ 4 ∧
      (st₂.connections 0).isLive = false := by
  have hrun : ∃ st, upstream.exec (.init (lit "ticket")) abandonedRun = some st ∧ st.Closing 1 ∧
      ∃ st₁, upstream.step st (.acquire 1) = some st₁ ∧ (st₁.callers 1).phase = .returned none ∧
        st₁.liveCount = 1 ∧ ∃ st₂, upstream.exec st₁ [.opened 0 [], .finish 0] = some st₂ ∧
          (st₂.connections 0).isLive = false :=
    ⟨_, rfl, Or.inl rfl, _, rfl, rfl, by decide +kernel, _, rfl, rfl⟩
  obtain ⟨st, hst, hclosing, st₁, hclose, hreturned, hcount, st₂, hbehind, hended⟩ := hrun
  obtain hgoesOn | hcancelled | ⟨-, hdrains⟩ := (close_drains hst hclosing).2 _ _ hclose
  · simp [Upstream.Closing, hreturned] at hgoesOn
  · simp [hreturned] at hcancelled
  · have hsegments := (hdrains _ _ (by simp) hbehind).1
    rw [hcount] at hsegments
    exact ⟨st, st₁, st₂, hst, hclose, hcount, hbehind, hsegments, hended⟩

end AgentOpsGateway
