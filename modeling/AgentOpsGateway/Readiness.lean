import AgentOpsGateway.Progress

/-!
# A Pod Comes Back by Probing

A pod that is not ready gets no traffic, so nothing but `/ready` itself can connect it to its
backends again. That is why the endpoint calls `ensure_session`, and it is why it bounds it by
two seconds; but a probe whose time is up is cancelled wherever it waits, also in the middle of
a connection attempt, and leaves a connection task behind that nobody owns.

Nothing here supposes that a run has no such cancellation.

## Main results

* `Upstream.Coherent.step`: what holds of a backend object after every cancellation.
* `Upstream.Coherent.reconnects`: from every state a probe that waits for `_lock` can come to a
  connection that serves.
* `ready_again`: **from every state of a pod, one `/ready` can answer 200 without any call of a
  tool**, with every backend connected.
-/

namespace AgentOpsGateway

open Python Transition

/-! ### What every cancellation leaves -/

/-- The future of a connection agrees with its phase. -/
def Connection.Settled (k : Connection) : Prop :=
  match k.phase with
  | .absent | .created | .opening => k.ready = .pending ∨ k.ready = .cancelled
  | .serving => k.ready = .ok
  | .closing => k.ready = .ok ∨ k.ready = .cancelled
  | .finished => k.ready ≠ .pending

/-- `_task` has come up, `_session` is up, and what has not been created is absent. -/
structure Upstream.Linked (st : Upstream) : Prop where
  tasked : ∀ c, st.task = some c → (st.connections c).ready = .ok
  session : ∀ c, st.session = some c → (st.connections c).isUp = true
  settled : ∀ c, (st.connections c).Settled
  unused : ∀ c, st.connectionCount ≤ c → (st.connections c).phase = .absent

/-- **Coherence.** The caller in a section is the one that holds `_lock`; what it waits for
still comes: an attempt that nobody has withdrawn, or a connection task that is told to stop. -/
structure Upstream.Coherent (st : Upstream) : Prop extends st.Linked where
  holder : ∀ i, (st.callers i).phase.holds = true ↔ st.lock = some i
  connecting : ∀ i retry c, (st.callers i).phase = .connecting retry c →
    (st.connections c).phase ≠ .absent ∧ (st.connections c).ready ≠ .cancelled
  tearing : ∀ i s c, (st.callers i).phase = .tearing s c →
    (st.connections c).ready = .ok ∧ (st.connections c).stop = true

namespace Connection.Settled

variable {k : Connection}

/-- A connection that has come up serves, closes, or has finished. -/
theorem of_ok (h : k.Settled) (hready : k.ready = .ok) :
    k.phase = .serving ∨ k.phase = .closing ∨ k.phase = .finished := by
  simp only [Settled, hready] at h
  cases hphase : k.phase <;> simp_all

/-- A connection attempt that is under way has been created, or opens. -/
theorem of_pending (h : k.Settled) (hready : k.ready = .pending) (hused : k.phase ≠ .absent) :
    k.phase = .created ∨ k.phase = .opening := by
  simp only [Settled, hready] at h
  cases hphase : k.phase <;> simp_all

/-- A cancelled waiter withdraws the future, if it is not done. -/
theorem withdraw (h : k.Settled) (stop exited : Bool) :
    Connection.Settled { k with ready := k.ready.settle .cancelled, stop, exited } := by
  by_cases hready : k.ready = .pending
  · simp only [Settled, hready] at h ⊢
    cases hphase : k.phase <;> simp_all [Ready.settle]
  · simpa only [Settled, Ready.settle, if_neg hready] using h

end Connection.Settled

namespace Upstream.Linked

variable {st st' : Upstream} {i c : ℕ}

/-- A connection that has come up is not one of those to come. -/
theorem lt_of_ok (h : st.Linked) (hready : (st.connections c).ready = .ok) :
    c < st.connectionCount := by
  by_contra hle
  have hsettled := h.settled c
  simp [Connection.Settled, h.unused c (Nat.le_of_not_lt hle), hready] at hsettled

/-- The connections, and what is published, are the same. -/
theorem same (h : st.Linked) (htask : st'.task = st.task) (hsession : st'.session = st.session)
    (hconnections : st'.connections = st.connections)
    (hcount : st'.connectionCount = st.connectionCount) : st'.Linked where
  tasked c hc := by
    rw [hconnections]
    exact h.tasked c (htask ▸ hc)
  session c hc := by
    rw [hconnections]
    exact h.session c (hsession ▸ hc)
  settled c := by
    rw [hconnections]
    exact h.settled c
  unused c hc := by
    rw [hconnections]
    exact h.unused c (hcount ▸ hc)

/-- One connection changes, and what is published with it. -/
theorem update (h : st.Linked) {k : Connection} (hused : (st.connections c).phase ≠ .absent)
    (hk : k.Settled) (hready : (st.connections c).ready = .ok → k.ready = .ok)
    (hconnections : st'.connections = Function.update st.connections c k)
    (htask : st'.task = st.task) (hcount : st'.connectionCount = st.connectionCount)
    (hsession : ∀ c', st'.session = some c' →
      if c' = c then k.isUp = true else st.session = some c') : st'.Linked where
  tasked c' hc' := by
    rw [htask] at hc'
    rw [hconnections, Function.update_apply]
    split
    · next heq => exact hready (heq ▸ h.tasked c' hc')
    · exact h.tasked c' hc'
  session c' hc' := by
    have hup := hsession c' hc'
    rw [hconnections, Function.update_apply]
    split at hup
    · next heq => rwa [if_pos heq]
    · next hne =>
        rw [if_neg hne]
        exact h.session c' hup
  settled c' := by
    rw [hconnections, Function.update_apply]
    split
    · exact hk
    · exact h.settled c'
  unused c' hc' := by
    rw [hcount] at hc'
    have hne : c' ≠ c := by
      rintro rfl
      exact hused (h.unused c' hc')
    rw [hconnections, Function.update_of_ne hne]
    exact h.unused c' hc'

/-- `stop.set()` of a connection that is not one of those to come. -/
theorem setStop (h : st.Linked) (hused : (st.connections c).phase ≠ .absent) :
    (st.setStop c).Linked := by
  refine h.update (c := c) hused (k := { st.connections c with stop := true }) (h.settled c) id rfl
    rfl rfl fun c' hc' => ?_
  split
  · next heq =>
      subst heq
      exact h.session c' hc'
  · exact hc'

/-- A new connection task. -/
theorem connectLocked (h : st.Linked) (retry : Bool) : (st.connectLocked i retry).Linked where
  tasked c hc := by
    have hready := h.tasked c hc
    exact (congrArg Connection.ready
      (Function.update_of_ne (h.lt_of_ok hready).ne _ _)).trans hready
  session c hc := by
    have hup := h.session c hc
    have hne : c ≠ st.connectionCount := by
      rintro rfl
      simp [Connection.isUp, h.unused _ le_rfl] at hup
    exact (congrArg Connection.isUp (Function.update_of_ne hne _ _)).trans hup
  settled c := by
    change Connection.Settled (Function.update st.connections st.connectionCount _ c)
    rw [Function.update_apply]
    split
    · exact .inl rfl
    · exact h.settled c
  unused c hc := by
    have hc : st.connectionCount + 1 ≤ c := hc
    have hne : c ≠ st.connectionCount := by omega
    exact (congrArg Connection.phase (Function.update_of_ne hne _ _)).trans
      (h.unused c (by omega))

/-- Nothing is published. -/
theorem cleared (h : st.Linked) : ({ st with task := none, session := none } : Upstream).Linked :=
  { h with
    tasked := fun c hc => by simp at hc
    session := fun c hc => by simp at hc }

/-- The end of a teardown. -/
theorem torn (h : st.Linked) (s : Section) : (st.torn i s).Linked := by
  cases s with
  | connect retry => exact h.cleared.connectLocked retry
  | giveUp | close => exact h.cleared.same rfl rfl rfl rfl

end Upstream.Linked

namespace Upstream.Coherent

variable {st st' : Upstream} {i c : ℕ}

/-- A new object. -/
theorem init (name : Str) : (Upstream.init name).Coherent where
  tasked c := by simp [Upstream.init]
  session c := by simp [Upstream.init]
  settled c := by simp [Upstream.init, Connection.Settled]
  unused c _ := rfl
  holder i := by simp [Upstream.init, CallerPhase.holds]
  connecting i retry c := by simp [Upstream.init]
  tearing i s c := by simp [Upstream.init]

/-- While `_lock` is free, nobody is in a section. -/
theorem free_of_unlocked (h : st.Coherent) (hlock : st.lock = none) (j : ℕ) :
    (st.callers j).phase.holds = false := by
  by_contra hj
  have := (h.holder j).mp (by simpa using hj)
  simp [hlock] at this

/-- Nobody else is in a section. -/
theorem others_free (h : st.Coherent) (hi : (st.callers i).phase.holds = true) (j : ℕ)
    (hj : j ≠ i) : (st.callers j).phase.holds = false := by
  by_contra hholds
  have hlock := (h.holder j).mp (by simpa using hholds)
  exact hj (Option.some.inj (hlock.symm.trans ((h.holder i).mp hi)))

/-- Coherence where nobody but one caller can be in a section. -/
theorem of_alone (hlinked : st.Linked)
    (hothers : ∀ j, j ≠ i → (st.callers j).phase.holds = false)
    (hlock : st.lock = none ∨ st.lock = some i)
    (hi : (st.callers i).phase.holds = true ↔ st.lock = some i)
    (hconnecting : ∀ retry c, (st.callers i).phase = .connecting retry c →
      (st.connections c).phase ≠ .absent ∧ (st.connections c).ready ≠ .cancelled)
    (htearing : ∀ s c, (st.callers i).phase = .tearing s c →
      (st.connections c).ready = .ok ∧ (st.connections c).stop = true) : st.Coherent where
  toLinked := hlinked
  holder j := by
    by_cases hj : j = i
    · rw [hj, hi]
    · have hne : st.lock ≠ some j := by
        rcases hlock with hlock | hlock <;> simp [hlock, Ne.symm hj]
      simp [hothers j hj, hne]
  connecting j retry c hj := by
    by_cases hji : j = i
    · exact hconnecting retry c (hji ▸ hj)
    · exact absurd (hothers j hji) (by simp [hj, CallerPhase.holds])
  tearing j s c hj := by
    by_cases hji : j = i
    · exact htearing s c (hji ▸ hj)
    · exact absurd (hothers j hji) (by simp [hj, CallerPhase.holds])

/-- Coherence where the one caller is in no section either. -/
theorem of_free (hlinked : st.Linked) (hothers : ∀ j, j ≠ i → (st.callers j).phase.holds = false)
    (hi : (st.callers i).phase.holds = false) (hlock : st.lock = none) : st.Coherent :=
  of_alone hlinked hothers (.inl hlock) (by simp [hi, hlock])
    (fun retry c hphase => by simp [hphase, CallerPhase.holds] at hi)
    (fun s c hphase => by simp [hphase, CallerPhase.holds] at hi)

/-- A caller that stays outside the sections does not matter. -/
theorem outside (h : st.Coherent) (hout : Outside i st st')
    (hfree : (st.callers i).phase.holds = false) : st'.Coherent := by
  have hsame : ∀ j, _ → (st'.callers j).phase = (st.callers j).phase :=
    fun j => hout.phase_eq hfree
  refine ⟨h.toLinked.same hout.task hout.session hout.connections hout.connectionCount,
    fun j => ?_, fun j retry c hj => ?_, fun j s c hj => ?_⟩
  · rw [hout.lock, ← h.holder]
    constructor
    · intro hj
      rwa [← hsame j (Or.inl hj)]
    · intro hj
      rwa [hsame j (Or.inr hj)]
  · rw [hsame j (Or.inl (by rw [hj]; rfl))] at hj
    rw [hout.connections]
    exact h.connecting j retry c hj
  · rw [hsame j (Or.inl (by rw [hj]; rfl))] at hj
    rw [hout.connections]
    exact h.tearing j s c hj

/-- A connection goes on by itself. -/
theorem connection (h : st.Coherent) {k : Connection} (session : Option ℕ)
    (tools : Option (List Tool)) (hused : (st.connections c).phase ≠ .absent)
    (hk : k.Settled) (hkused : k.phase ≠ .absent)
    (hready : (st.connections c).ready = .ok → k.ready = .ok)
    (hcancelled : k.ready = .cancelled → (st.connections c).ready = .cancelled)
    (hstop : k.stop = (st.connections c).stop)
    (hsession : ∀ c', session = some c' →
      if c' = c then k.isUp = true else st.session = some c') :
    ({ st with session, tools }.setConnection c k : Upstream).Coherent where
  toLinked := h.toLinked.update hused hk hready rfl rfl rfl hsession
  holder := h.holder
  connecting j retry c' hj := by
    change (Function.update st.connections c k c').phase ≠ _ ∧
      (Function.update st.connections c k c').ready ≠ _
    rw [Function.update_apply]
    split
    · next heq => exact ⟨hkused, fun hk => (h.connecting j retry c' hj).2 (heq ▸ hcancelled hk)⟩
    · exact h.connecting j retry c' hj
  tearing j s c' hj := by
    change (Function.update st.connections c k c').ready = _ ∧
      (Function.update st.connections c k c').stop = _
    rw [Function.update_apply]
    split
    · next heq =>
        subst heq
        exact ⟨hready (h.tearing j s c' hj).1, hstop.trans (h.tearing j s c' hj).2⟩
    · exact h.tearing j s c' hj

/-- The end of a teardown by the caller that holds `_lock`. -/
theorem torn (hlinked : st.Linked) (hothers : ∀ j, j ≠ i → (st.callers j).phase.holds = false)
    (hlock : st.lock = some i) (s : Section) : (st.torn i s).Coherent := by
  have hmoved : ∀ j, j ≠ i → ((st.torn i s).callers j).phase.holds = false := by
    intro j hj
    rw [(aside_torn st s).others j hj]
    exact hothers j hj
  cases s with
  | connect retry =>
      have hphase : ((st.torn i (.connect retry)).callers i).phase =
          .connecting retry st.connectionCount := move_phase _ _ _
      refine of_alone (hlinked.torn _) hmoved (.inr hlock) ?_ ?_ ?_
      · rw [hphase]
        exact iff_of_true rfl hlock
      · intro retry' c hc
        rw [hphase] at hc
        obtain ⟨-, rfl⟩ := CallerPhase.connecting.inj hc
        have hnew : (st.torn i (.connect retry)).connections st.connectionCount =
            ⟨.created, .pending, false, false, false⟩ := Function.update_self _ _ _
        rw [hnew]
        simp
      · intro s c hc
        simp [hphase] at hc
  | giveUp | close =>
      refine of_free (hlinked.torn _) hmoved ?_ rfl
      exact (congrArg CallerPhase.holds (move_phase _ _ _)).trans rfl

/-- A caller gets the lock. -/
theorem acquired (h : st.Coherent) {s : Section} (hphase : (st.callers i).phase = .acquiring s)
    (hlock : st.lock = none) : (st.acquired i s).Coherent := by
  have hnone : ∀ j, j ≠ i → (st.callers j).phase.holds = false := fun j _ =>
    h.free_of_unlocked hlock j
  rcases acquired_cases st i s with ⟨-, -, heq⟩ | ⟨-, ⟨-, heq⟩ | ⟨c, htask, hcases⟩⟩
  · rw [heq]
    exact h.outside (outside_proceed st false) (by rw [hphase]; rfl)
  · rw [heq]
    have hlocked : ({ st with lock := some i } : Upstream).Linked :=
      h.toLinked.same rfl rfl rfl rfl
    exact torn hlocked hnone rfl s
  · have hready := h.tasked c htask
    have hused : (st.connections c).phase ≠ .absent := by
      rcases (h.settled c).of_ok hready with hc | hc | hc <;> simp [hc]
    have hlocked : ({ st with lock := some i } : Upstream).Linked :=
      h.toLinked.same rfl rfl rfl rfl
    have hstopped := hlocked.setStop hused
    rcases hcases with ⟨-, heq⟩ | ⟨-, heq⟩
    · rw [heq]
      exact torn hstopped hnone rfl s
    · rw [heq]
      have hmove : (({ st with lock := some i }.setStop c).move i (.tearing s c)).Linked :=
        hstopped.same rfl rfl rfl rfl
      refine of_alone (i := i) hmove (fun j hj => ?_) (.inr rfl) ?_ (fun retry c' hc' => ?_)
        fun s' c' hc' => ?_
      · rw [move_callers_of_ne _ hj]
        exact hnone j hj
      · rw [move_phase]
        exact iff_of_true rfl rfl
      · simp at hc'
      · rw [move_phase] at hc'
        obtain ⟨-, rfl⟩ := CallerPhase.tearing.inj hc'
        exact ⟨by simpa using hready, by simp [Upstream.setStop, setConnection]⟩

/-- A caller that is in a section leaves it, with its connection attempt. -/
theorem leave (h : st.Coherent) {retry : Bool} {k : Connection}
    (hphase : (st.callers i).phase = .connecting retry c) (hk : k.Settled)
    (hup : k.isUp = (st.connections c).isUp)
    (hready : (st.connections c).ready = .ok → k.ready = .ok)
    (hout : Outside i (st.release.setConnection c k) st') : st'.Coherent := by
  have hused := (h.connecting i retry c hphase).1
  have hlinked : (st.release.setConnection c k).Linked := by
    refine h.toLinked.update hused hk hready rfl rfl rfl fun c' hc' => ?_
    split
    · next heq =>
        subst heq
        exact hup.trans (h.session c' hc')
    · exact hc'
  refine of_free (i := i)
    (hlinked.same hout.task hout.session hout.connections hout.connectionCount) (fun j hj => ?_)
    hout.free hout.lock
  rw [hout.others j hj]
  exact h.others_free (by rw [hphase]; rfl) j hj

/-- A serving connection begins to close, and its session stays published until it ends. -/
theorem closing (h : st.Coherent) {k : Connection} (hserving : (st.connections c).phase = .serving)
    (hk : k.phase = .closing) (hready : k.ready = (st.connections c).ready)
    (hstop : k.stop = (st.connections c).stop) : (st.setConnection c k).Coherent := by
  have hok := h.settled c
  simp only [Connection.Settled, hserving] at hok
  have hsettled : k.Settled := by simp [Connection.Settled, hk, hready, hok]
  refine h.connection st.session st.tools (by simp [hserving]) hsettled (by simp [hk])
    (fun hok => hready.trans hok) (fun hcancelled => hready.symm.trans hcancelled) hstop
    fun c' hc' => ?_
  split
  · simp [Connection.isUp, hk]
  · exact hc'

/-- A caller is cancelled, wherever it waits. -/
theorem cancelled (h : st.Coherent) (hstep : upstream.step st (.cancel i) = some st') :
    st'.Coherent := by
  rcases step_cancel hstep with ⟨hphase, rfl⟩ | ⟨s, c, hphase, ⟨hfinished, rfl⟩ | rfl⟩ |
    ⟨retry, c, hphase, rfl⟩
  · refine h.outside (outside_move st rfl) ?_
    rcases hphase with ⟨s, hphase⟩ | ⟨retry, r, owner, hphase⟩ <;> rw [hphase] <;> rfl
  · have hlinked : (st.release.move i .cancelled).Linked := h.toLinked.same rfl rfl rfl rfl
    refine of_free (i := i) hlinked (fun j hj => ?_) ?_ rfl
    · rw [move_callers_of_ne _ hj]
      exact h.others_free (by rw [hphase]; rfl) j hj
    · rw [move_phase]
      rfl
  · simp only [cancelConnection]
    split
    · next hserving => exact h.closing hserving rfl rfl rfl
    · exact h
  · refine h.leave hphase ((h.settled c).withdraw true true) rfl (fun hready => ?_)
      (outside_move _ rfl)
    simp [Ready.settle, hready]

/-- **Every step keeps coherence**, also the cancellations. -/
theorem step (h : st.Coherent) {a : UpstreamAction} (hstep : upstream.step st a = some st') :
    st'.Coherent := by
  cases a with
  | enter i op =>
      obtain ⟨hphase, rfl⟩ := step_enter hstep
      exact h.outside (outside_enter st op) (by rw [hphase]; rfl)
  | acquire i =>
      obtain ⟨s, hphase, hlock, rfl⟩ := step_acquire hstep
      exact h.acquired hphase hlock
  | torn i =>
      obtain ⟨s, c, hphase, -, rfl⟩ := step_torn hstep
      have hholds : (st.callers i).phase.holds = true := by rw [hphase]; rfl
      exact torn h.toLinked (h.others_free hholds) ((h.holder i).mp hholds) s
  | connected i =>
      obtain ⟨retry, c, hphase, ⟨hready, rfl⟩ | ⟨-, rfl⟩⟩ := step_connected hstep
      · have hlinked : ({ st with task := some c, lock := none } : Upstream).Linked :=
          { h.toLinked with
            tasked := fun c' hc' => by
              obtain rfl := Option.some.inj hc'
              exact hready }
        have hout := outside_proceed (i := i) { st with task := some c, lock := none } retry
        refine of_free (i := i)
          (hlinked.same hout.task hout.session hout.connections hout.connectionCount)
          (fun j hj => ?_) hout.free hout.lock
        rw [hout.others j hj]
        exact h.others_free (by rw [hphase]; rfl) j hj
      · refine h.leave hphase ?_ ?_ ?_ (outside_connectFailed st retry c)
        · exact h.settled c
        · rfl
        · exact id
  | raced i =>
      obtain ⟨retry, r, owner, hphase, ⟨result, -, rfl⟩ | ⟨f, -, rfl⟩ | ⟨-, -, rfl⟩⟩ :=
        step_raced hstep
      · exact h.outside (outside_answer st result) (by rw [hphase]; rfl)
      · exact h.outside (outside_fail st retry _) (by rw [hphase]; rfl)
      · have hset : (st.setRequest r { st.requests r with reply := Reply.cancelled }).Coherent :=
          { h with }
        refine hset.outside (outside_fail _ retry _) ?_
        change (st.callers i).phase.holds = false
        rw [hphase]
        rfl
  | cancel i => exact h.cancelled hstep
  | start c =>
      obtain ⟨hphase, rfl⟩ := step_start hstep
      have hsettled := h.settled c
      simp only [Connection.Settled, hphase] at hsettled
      refine h.connection st.session st.tools (by simp [hphase]) hsettled (by simp) id id rfl
        fun c' hc' => ?_
      split
      · next heq =>
          have hup := heq ▸ h.session c' hc'
          simp [Connection.isUp, hphase] at hup
      · exact hc'
  | opened c tools =>
      obtain ⟨hphase, ⟨hready, rfl⟩ | ⟨hready, rfl⟩⟩ := step_opened hstep
      · refine h.connection (some c) (some tools) (by simp [hphase]) rfl (by simp) (fun _ => rfl)
          (by simp) rfl fun c' hc' => ?_
        obtain rfl := Option.some.inj hc'
        simp [Connection.isUp]
      · have hsettled := h.settled c
        simp only [Connection.Settled, hphase] at hsettled
        refine h.connection (some c) (some tools) (by simp [hphase])
          (Or.inr (hsettled.resolve_left hready)) (by simp) id id rfl fun c' hc' => ?_
        obtain rfl := Option.some.inj hc'
        simp [Connection.isUp]
  | openFail c =>
      obtain ⟨hphase, rfl⟩ := step_openFail hstep
      have hsettled := h.settled c
      simp only [Connection.Settled, hphase] at hsettled
      refine h.connection none st.tools (by simp [hphase]) ?_ (by simp) ?_ ?_ rfl (by simp)
      · rcases hsettled with hready | hready <;> simp [Connection.Settled, Ready.settle, hready]
      · rcases hsettled with hready | hready <;> simp [hready]
      · rcases hsettled with hready | hready <;> simp [Ready.settle, hready]
  | die c =>
      obtain ⟨hphase, rfl⟩ := step_die hstep
      exact h.closing hphase rfl rfl rfl
  | stopped c =>
      obtain ⟨hphase, -, rfl⟩ := step_stopped hstep
      exact h.closing hphase rfl rfl rfl
  | finish c =>
      obtain ⟨hphase, rfl⟩ := step_finish hstep
      have hsettled := h.settled c
      simp only [Connection.Settled, hphase] at hsettled
      refine h.connection none st.tools (by simp [hphase]) ?_ (by simp) id id rfl (by simp)
      rcases hsettled with hready | hready <;> simp [Connection.Settled, hready]
  | send r =>
      obtain ⟨-, -, rfl⟩ := step_send hstep
      exact { h with }
  | reply r result =>
      obtain ⟨-, -, rfl⟩ := step_reply hstep
      exact { h with }
  | callRaise r f =>
      obtain ⟨-, rfl⟩ := step_callRaise hstep
      exact { h with }

end Upstream.Coherent

/-! ### The way back -/

/-- The action goes on with what is under way, or hands `_lock` over. -/
def UpstreamAction.mends : UpstreamAction → Bool
  | .acquire _ => true
  | a => a.goesOn

/-- The session in `_session` is that of a connection that serves and is not told to stop. -/
def Upstream.Serving (st : Upstream) : Prop :=
  ∃ c, st.session = some c ∧ (st.connections c).phase = .serving ∧ (st.connections c).stop = false

/-- The caller waits for `_lock` in `ensure_session`, and has not been there before. -/
def Upstream.Ensures (st : Upstream) (i : ℕ) : Prop :=
  st.callers i = ⟨.ensureSession, .acquiring (.connect false), []⟩

namespace Upstream.Coherent

variable {st : Upstream} {i c : ℕ}

/-- Whoever waits for `_lock` goes on waiting while others go on. -/
theorem acquiring_step {st' : Upstream} {a : UpstreamAction} {s : Section}
    (h : (st.callers i).phase = .acquiring s) (ha : a.goesOn = true)
    (hstep : upstream.step st a = some st') : st'.callers i = st.callers i := by
  refine Upstream.callers_of_step hstep fun hcaller => ?_
  cases a with
  | torn j =>
      obtain rfl : j = i := Option.some.inj hcaller
      obtain ⟨s', c, hphase, -⟩ := step_torn hstep
      simp [h] at hphase
  | connected j =>
      obtain rfl : j = i := Option.some.inj hcaller
      obtain ⟨retry, c, hphase, -⟩ := step_connected hstep
      simp [h] at hphase
  | raced j =>
      obtain rfl : j = i := Option.some.inj hcaller
      obtain ⟨retry, r, owner, hphase, -⟩ := step_raced hstep
      simp [h] at hphase
  | enter _ _ | acquire _ | cancel _ => simp [UpstreamAction.goesOn] at ha
  | _ => simp [UpstreamAction.caller] at hcaller

/-- A connection attempt that is under way can come up. -/
theorem opens (h : st.Coherent) (hused : (st.connections c).phase ≠ .absent)
    (hready : (st.connections c).ready = .pending) :
    ∃ st', upstream.Leads (fun a => a.goesOn = true) st st' ∧ st'.callers = st.callers ∧
      st'.session = some c ∧ (st'.connections c).phase = .serving ∧
      (st'.connections c).ready = .ok ∧ (st'.connections c).stop = (st.connections c).stop := by
  have hopens : ∀ st : Upstream, (st.connections c).phase = .opening →
      (st.connections c).ready = .pending →
      ∃ st', upstream.step st (.opened c []) = some st' ∧ st'.callers = st.callers ∧
        st'.session = some c ∧ (st'.connections c).phase = .serving ∧
        (st'.connections c).ready = .ok ∧ (st'.connections c).stop = (st.connections c).stop := by
    intro st hphase hready
    have hstep : upstream.step st (.opened c []) =
        some ({ st with tools := some [], session := some c }.setConnection c
          { st.connections c with phase := .serving, ready := .ok }) := by
      simp only [upstream, Upstream.step, if_pos hphase, if_pos hready]
    refine ⟨_, hstep, rfl, rfl, ?_, ?_, ?_⟩ <;> simp [setConnection]
  rcases (h.settled c).of_pending hready hused with hphase | hphase
  · have hstart : upstream.step st (.start c) =
        some (st.setConnection c { st.connections c with phase := .opening }) := by
      simp only [upstream, Upstream.step, if_pos hphase]
    obtain ⟨st', hstep, hcallers, hsession, hserving, hok, hstop⟩ :=
      hopens (st.setConnection c { st.connections c with phase := .opening })
        (by simp [setConnection]) (by simpa [setConnection] using hready)
    have hfirst : upstream.Leads (fun a => a.goesOn = true) st _ := System.leads_step hstart rfl
    refine ⟨st', hfirst.trans (System.leads_step hstep rfl), hcallers, hsession, hserving, hok,
      hstop.trans ?_⟩
    simp [setConnection]
  · obtain ⟨st', hstep, hrest⟩ := hopens st hphase hready
    exact ⟨st', System.leads_step hstep rfl, hrest⟩

/-- A connection task that has come up and is told to stop can come to its end. -/
theorem finishes (h : st.Coherent) (hphase : (st.connections c).phase = .serving ∨
      (st.connections c).phase = .closing ∨ (st.connections c).phase = .finished)
    (hstop : (st.connections c).phase = .serving → (st.connections c).stop = true) :
    ∃ st', upstream.Leads (fun a => a.goesOn = true) st st' ∧ st'.callers = st.callers ∧
      (st'.connections c).phase = .finished ∧ (st.session = some c → st'.session = none) := by
  have hfinishes : ∀ st : Upstream, (st.connections c).phase = .closing →
      ∃ st', upstream.step st (.finish c) = some st' ∧ st'.callers = st.callers ∧
        (st'.connections c).phase = .finished ∧ st'.session = none := by
    intro st hphase
    have hstep : upstream.step st (.finish c) =
        some ({ st with session := none }.setConnection c
          { st.connections c with phase := .finished }) := by
      simp only [upstream, Upstream.step, if_pos hphase]
    refine ⟨_, hstep, rfl, ?_, rfl⟩
    simp [setConnection]
  rcases hphase with hphase | hphase | hphase
  · have hstopped : upstream.step st (.stopped c) =
        some (st.setConnection c { st.connections c with phase := .closing }) := by
      simp only [upstream, Upstream.step, if_pos (And.intro hphase (hstop hphase))]
    obtain ⟨st', hstep, hcallers, hfinished, hsession⟩ :=
      hfinishes (st.setConnection c { st.connections c with phase := .closing })
        (by simp [setConnection])
    have hfirst : upstream.Leads (fun a => a.goesOn = true) st _ := System.leads_step hstopped rfl
    exact ⟨st', hfirst.trans (System.leads_step hstep rfl), hcallers, hfinished, fun _ => hsession⟩
  · obtain ⟨st', hstep, hcallers, hfinished, hsession⟩ := hfinishes st hphase
    exact ⟨st', System.leads_step hstep rfl, hcallers, hfinished, fun _ => hsession⟩
  · refine ⟨st, .refl st, rfl, hphase, fun hsession => ?_⟩
    have hup := h.session c hsession
    simp [Connection.isUp, hphase] at hup

/-- Coherence is kept on the way. -/
theorem leads {C : UpstreamAction → Prop} {st' : Upstream} (h : st.Coherent)
    (hleads : upstream.Leads C st st') : st'.Coherent :=
  hleads.keeps h fun _ _ _ h _ hstep => h.step hstep

/-- Whoever waits for `_lock` still does on the way. -/
theorem acquiring_leads {st' : Upstream} {s : Section}
    (h : (st.callers i).phase = .acquiring s)
    (hleads : upstream.Leads (fun a => a.goesOn = true) st st') :
    st'.callers i = st.callers i := by
  have hkeep : ∀ (st₁ : Upstream) a st₂, st₁.callers i = st.callers i → a.goesOn = true →
      upstream.step st₁ a = some st₂ → st₂.callers i = st.callers i := by
    intro st₁ a st₂ hsame ha hstep
    rw [acquiring_step (by rw [hsame, h]) ha hstep, hsame]
  have hstart : st.callers i = st.callers i := rfl
  exact System.Leads.keeps (I := fun st₁ => st₁.callers i = st.callers i) hleads hstart hkeep

/-- `_lock` is free where nobody is in a section. -/
theorem unlocked (h : st.Coherent) (hfree : ∀ j, (st.callers j).phase.holds = false) :
    st.lock = none := by
  cases hlock : st.lock with
  | none => rfl
  | some j =>
      have hholds := (h.holder j).mpr hlock
      simp [hfree j] at hholds

/-- A caller that waits for its connection attempt can leave the section. -/
theorem unlocks_connecting (h : st.Coherent) {retry : Bool}
    (hphase : (st.callers i).phase = .connecting retry c) :
    ∃ st', upstream.Leads (fun a => a.goesOn = true) st st' ∧ st'.lock = none := by
  obtain ⟨hused, hcancelled⟩ := h.connecting i retry c hphase
  have hok : ∀ st : Upstream, (st.callers i).phase = .connecting retry c →
      (st.connections c).ready = .ok →
      ∃ st', upstream.step st (.connected i) = some st' ∧ st'.lock = none := by
    intro st hphase hready
    have hstep : upstream.step st (.connected i) =
        some ({ st with task := some c, lock := none }.proceed i retry) := by
      simp only [upstream, Upstream.step, hphase, hready]
    exact ⟨_, hstep, (outside_proceed _ retry).lock⟩
  cases hready : (st.connections c).ready with
  | pending =>
      obtain ⟨st₁, hleads, hcallers, -, -, hready₁, -⟩ := h.opens hused hready
      obtain ⟨st', hstep, hlock⟩ := hok st₁ (by rw [hcallers, hphase]) hready₁
      exact ⟨st', hleads.trans (System.leads_step hstep rfl), hlock⟩
  | ok =>
      obtain ⟨st', hstep, hlock⟩ := hok st hphase hready
      exact ⟨st', System.leads_step hstep rfl, hlock⟩
  | failed =>
      have hstep : upstream.step st (.connected i) = some (st.connectFailed i retry c) := by
        simp only [upstream, Upstream.step, hphase, hready]
      exact ⟨_, System.leads_step hstep rfl, (outside_connectFailed st retry c).lock⟩
  | cancelled => exact absurd hready hcancelled

/-- **`_lock` can always become free.** -/
theorem unlocks (h : st.Coherent) :
    ∃ st', upstream.Leads (fun a => a.goesOn = true) st st' ∧ st'.lock = none := by
  cases hlock : st.lock with
  | none => exact ⟨st, .refl st, hlock⟩
  | some j =>
      have hholds := (h.holder j).mpr hlock
      cases hphase : (st.callers j).phase with
      | tearing s c =>
          obtain ⟨hready, hstop⟩ := h.tearing j s c hphase
          obtain ⟨st₁, hleads, hcallers, hfinished, -⟩ :=
            h.finishes ((h.settled c).of_ok hready) fun _ => hstop
          have hstep : upstream.step st₁ (.torn j) = some (st₁.torn j s) := by
            simp only [upstream, Upstream.step, hcallers, hphase, if_pos hfinished]
          have hleads₂ := hleads.trans (System.leads_step hstep rfl)
          cases s with
          | connect retry =>
              obtain ⟨st', hleads', hlock'⟩ := (h.leads hleads₂).unlocks_connecting
                (i := j) (move_phase _ _ _)
              exact ⟨st', hleads₂.trans hleads', hlock'⟩
          | giveUp | close => exact ⟨_, hleads₂, rfl⟩
      | connecting retry c => exact h.unlocks_connecting hphase
      | _ => simp [hphase, CallerPhase.holds] at hholds

/-- And `_session` is then that of a connection that serves, or can be withdrawn. -/
theorem settles (h : st.Coherent) (hlock : st.lock = none) :
    ∃ st', upstream.Leads (fun a => a.goesOn = true) st st' ∧ st'.lock = none ∧
      (st'.session = none ∨ st'.Serving) := by
  cases hsession : st.session with
  | none => exact ⟨st, .refl st, hlock, .inl hsession⟩
  | some c =>
      by_cases hserving : (st.connections c).phase = .serving ∧ (st.connections c).stop = false
      · exact ⟨st, .refl st, hlock, .inr ⟨c, hsession, hserving⟩⟩
      · have hup := h.session c hsession
        have hphase : (st.connections c).phase = .serving ∨ (st.connections c).phase = .closing ∨
            (st.connections c).phase = .finished := by
          simp only [Connection.isUp] at hup
          cases hc : (st.connections c).phase <;> simp_all
        have hstop : (st.connections c).phase = .serving → (st.connections c).stop = true := by
          intro hc
          by_contra hstop
          exact hserving ⟨hc, by simpa using hstop⟩
        obtain ⟨st', hleads, hcallers, -, hnone⟩ := h.finishes hphase hstop
        refine ⟨st', hleads, (h.leads hleads).unlocked fun j => ?_, .inl (hnone hsession)⟩
        rw [hcallers]
        exact h.free_of_unlocked hlock j

/-- A caller behind a teardown in `ensure_session` can return, with a connection that serves. -/
theorem returns_of_torn (h : (st.torn i (.connect false)).Coherent)
    (hop : (st.callers i).operation = .ensureSession) :
    ∃ st', upstream.Leads (fun a => a.goesOn = true) (st.torn i (.connect false)) st' ∧
      st'.callers i = ⟨.ensureSession, .returned none, (st.callers i).attempts⟩ ∧ st'.Serving := by
  have hcaller : (st.torn i (.connect false)).callers i =
      ⟨.ensureSession, .connecting false st.connectionCount, (st.callers i).attempts⟩ := by
    rw [← hop]
    exact Function.update_self _ _ _
  have hnew : (st.torn i (.connect false)).connections st.connectionCount =
      ⟨.created, .pending, false, false, false⟩ := Function.update_self _ _ _
  obtain ⟨st₁, hleads, hcallers, hsession, hserving, hready, hstop⟩ :=
    h.opens (c := st.connectionCount) (by simp [hnew]) (by rw [hnew])
  rw [hnew] at hstop
  have hphase : (st₁.callers i).phase = .connecting false st.connectionCount := by
    rw [hcallers, hcaller]
  have hop₁ : (st₁.callers i).operation = .ensureSession := by rw [hcallers, hcaller]
  have hproceed : ({ st₁ with task := some st.connectionCount, lock := none } : Upstream).proceed i
      false = ({ st₁ with task := some st.connectionCount, lock := none } : Upstream).move i
        (.returned none) :=
    proceed_of_not_call false (by simp [hop₁])
  have hstep : upstream.step st₁ (.connected i) =
      some (({ st₁ with task := some st.connectionCount, lock := none } : Upstream).move i
        (.returned none)) := by
    simp only [upstream, Upstream.step, hphase, hready, hproceed]
  refine ⟨_, hleads.trans (System.leads_step hstep rfl), ?_, st.connectionCount, hsession, hserving,
    hstop⟩
  simp only [move, Function.update_self, hcallers, hcaller]

/-- **A probe can come back** from every state: to a session that serves. -/
theorem reconnects (h : st.Coherent) (hensures : st.Ensures i) :
    ∃ st', upstream.Leads (fun a => a.mends = true) st st' ∧
      st'.callers i = ⟨.ensureSession, .returned none, []⟩ ∧ st'.Serving := by
  have hmends : ∀ a : UpstreamAction, a.goesOn = true → a.mends = true := by
    intro a ha
    cases a <;> first | rfl | exact ha
  obtain ⟨st₁, hleads₁, hlock₁⟩ := h.unlocks
  obtain ⟨st₂, hleads₂, hlock₂, hsession₂⟩ := (h.leads hleads₁).settles hlock₁
  have hleads₂ := hleads₁.trans hleads₂
  have h₂ := h.leads hleads₂
  have hcaller : st₂.callers i = ⟨.ensureSession, .acquiring (.connect false), []⟩ := by
    rw [← hensures]
    exact acquiring_leads (by rw [hensures]) hleads₂
  have hphase : (st₂.callers i).phase = .acquiring (.connect false) := by rw [hcaller]
  have hstep : upstream.step st₂ (.acquire i) = some (st₂.acquired i (.connect false)) := by
    simp only [upstream, Upstream.step, hphase, if_pos hlock₂]
  have hleads₃ : upstream.Leads (fun a => a.mends = true) st (st₂.acquired i (.connect false)) :=
    (hleads₂.imp hmends).trans (System.leads_step hstep rfl)
  have h₃ := h.leads hleads₃
  -- behind the teardown the caller connects
  have hback : ∀ st₄ : Upstream, (st₄.callers i).operation = .ensureSession →
      (st₄.callers i).attempts = [] →
      upstream.Leads (fun a => a.mends = true) st (st₄.torn i (.connect false)) →
      ∃ st', upstream.Leads (fun a => a.mends = true) st st' ∧
        st'.callers i = ⟨.ensureSession, .returned none, []⟩ ∧ st'.Serving := by
    intro st₄ hop hattempts hleads₄
    obtain ⟨st', hleads', hreturned, hserving⟩ := (h.leads hleads₄).returns_of_torn hop
    exact ⟨st', hleads₄.trans (hleads'.imp hmends), hattempts ▸ hreturned, hserving⟩
  rcases acquired_cases st₂ i (.connect false) with ⟨-, hsome, heq⟩ | ⟨hnot, ⟨-, heq⟩ | ⟨c, htask,
    ⟨-, heq⟩ | ⟨-, heq⟩⟩⟩
  · obtain ⟨c, hsession, hserving⟩ : st₂.Serving := by
      rcases hsession₂ with hnone | hserving
      · simp [hnone] at hsome
      · exact hserving
    rw [heq, proceed_of_not_call false (by simp [hcaller])] at hleads₃
    refine ⟨_, hleads₃, ?_, c, hsession, hserving⟩
    simp only [move, Function.update_self, hcaller]
  · rw [heq] at hleads₃
    exact hback _ (by rw [hcaller]) (by rw [hcaller]) hleads₃
  · rw [heq] at hleads₃
    exact hback _ (by rw [setStop_callers, hcaller]) (by rw [setStop_callers, hcaller]) hleads₃
  · rw [heq] at hleads₃ h₃
    have hcaller₃ : (({ st₂ with lock := some i }.setStop c).move i
        (.tearing (.connect false) c)).callers i =
          ⟨.ensureSession, .tearing (.connect false) c, []⟩ := by
      simp only [move, Function.update_self, setStop_callers, hcaller]
    obtain ⟨hready, hstop⟩ := h₃.tearing i (.connect false) c (by rw [hcaller₃])
    obtain ⟨st₄, hleads₄, hcallers₄, hfinished, -⟩ :=
      h₃.finishes ((h₃.settled c).of_ok hready) fun _ => hstop
    have htorn : upstream.step st₄ (.torn i) = some (st₄.torn i (.connect false)) := by
      simp only [upstream, Upstream.step, hcallers₄, hcaller₃, if_pos hfinished]
    refine hback st₄ (by rw [hcallers₄, hcaller₃]) (by rw [hcallers₄, hcaller₃]) ?_
    exact (hleads₃.trans (hleads₄.imp hmends)).trans (System.leads_step htorn rfl)

end Upstream.Coherent

/-! ### The pod -/

/-- An answer of `/ready`. -/
structure ReadyAnswer where
  status : Str
  backends : List (Str × Bool)
  statusCode : ℕ

/-- The answer of `ready` to what the probes of the backends have found. -/
def readyAnswer (connected : List (Str × Bool)) : ReadyAnswer :=
  let ok := connected.any Prod.snd
  ⟨if ok then lit "ready" else lit "not ready", connected, if ok then 200 else 503⟩

/-- What `probe(backend)` returns: its `ensure_session` has returned and the ping has come back
within the two seconds, or not. `none` while it has not ended. -/
def probe (k : Caller) (pong : Bool) : Option Bool :=
  match k.operation, k.phase with
  | .ensureSession, .returned _ => some pong
  | .ensureSession, .raised | .ensureSession, .cancelled => some false
  | _, _ => none

/-- A pod: its backends, the requests to `/ready` under way, each with the caller that it runs
on each backend, and whether the last answer has put it into the load balancer. -/
structure Pod where
  backend : Str → Upstream
  asked : List (Str → ℕ)
  ready : Bool

/-- Change a backend. -/
def Pod.set (st : Pod) (server : Str) (up : Upstream) : Pod :=
  { st with backend := Function.update st.backend server up }

/-- A new pod. -/
def Pod.init : Pod := ⟨Upstream.init, [], false⟩

/-- What can happen to a pod. -/
inductive PodAction
  | on (server : Str) (a : UpstreamAction)
  /-- A request to `/ready` arrives, and all its probes start. -/
  | ask (callers : Str → ℕ)
  /-- The probes of a request to `/ready` have ended, with these pings back. -/
  | answer (k : ℕ) (pongs : Str → Bool)

/-- A `tools/call` reaches the backend object. -/
def UpstreamAction.isCall : UpstreamAction → Bool
  | .enter _ op => op.isCall
  | _ => false

/-- The start of a probe. -/
def startProbe (up : Upstream) (i : ℕ) : Option Upstream :=
  upstream.step up (.enter i .ensureSession)

/-- Let one thing happen, where it is possible. A pod that is not ready gets no calls. -/
def Pod.step (names : List Str) (st : Pod) : PodAction → Option Pod
  | .on server a =>
    if server ∈ names ∧ (a.isCall = true → st.ready = true) then
      (upstream.step (st.backend server) a).map (st.set server)
    else none
  | .ask callers =>
    if ∀ s ∈ names, (startProbe (st.backend s) (callers s)).isSome then
      some { st with
        backend := fun s => (startProbe (st.backend s) (callers s)).getD (st.backend s)
        asked := st.asked ++ [callers] }
    else none
  | .answer k pongs =>
    st.asked[k]?.bind fun callers =>
      (names.mapM fun s => (probe ((st.backend s).callers (callers s)) (pongs s)).map (s, ·)).map
        fun connected =>
          { st with
            asked := st.asked.eraseIdx k
            ready := (readyAnswer connected).statusCode = 200 }

/-- The runs of a pod with these backends. -/
def pods (names : List Str) : System Pod PodAction := ⟨Pod.step names⟩

/-- The action goes on with what is under way at some backend. -/
def PodAction.Mends (b : PodAction) : Prop := ∃ server a, b = .on server a ∧ a.mends = true

/-- What holds of a backend object of a pod: coherence, and callers that have not entered. -/
structure Upstream.Open (st : Upstream) : Prop where
  coherent : st.Coherent
  idle : ∃ n, ∀ i, n ≤ i → (st.callers i).phase = .idle

theorem Upstream.Open.init (name : Str) : (Upstream.init name).Open :=
  ⟨.init name, 0, fun _ _ => rfl⟩

/-- Every step keeps it. -/
theorem Upstream.Open.step {st st' : Upstream} {a : UpstreamAction} (h : st.Open)
    (hstep : upstream.step st a = some st') : st'.Open := by
  obtain ⟨n, hidle⟩ := h.idle
  refine ⟨h.coherent.step hstep, ?_⟩
  cases hcaller : a.caller with
  | none => exact ⟨n, fun i hi => by rw [callers_of_step hstep (by simp [hcaller]), hidle i hi]⟩
  | some j =>
      refine ⟨max n (j + 1), fun i hi => ?_⟩
      rw [callers_of_step hstep (by rw [hcaller]; simp; omega)]
      exact hidle i (by omega)

section Pods

variable {names : List Str} {st st' : Pod}

/-- Only the one backend changes. -/
theorem set_backend (st : Pod) (server : Str) (up : Upstream) (s : Str) :
    (st.set server up).backend s = if s = server then up else st.backend s :=
  Function.update_apply _ _ _ _

/-- Every step of the pod keeps it of all backends. -/
theorem open_step {b : PodAction} (h : ∀ s, (st.backend s).Open)
    (hstep : (pods names).step st b = some st') : ∀ s, (st'.backend s).Open := by
  intro s
  cases b with
  | on server a =>
      simp only [pods, Pod.step, Option.ite_none_right_eq_some] at hstep
      obtain ⟨up, hup, rfl⟩ := Option.map_eq_some_iff.mp hstep.2
      rw [set_backend]
      split
      · exact (h server).step hup
      · exact h s
  | ask callers =>
      simp only [pods, Pod.step, Option.ite_none_right_eq_some] at hstep
      obtain rfl := Option.some.inj hstep.2
      cases hstart : startProbe (st.backend s) (callers s) with
      | none => simpa [hstart] using h s
      | some up => simpa [hstart] using (h s).step hstart
  | answer k pongs =>
      obtain ⟨callers, -, hmap⟩ := Option.bind_eq_some_iff.mp hstep
      obtain ⟨connected, -, rfl⟩ := Option.map_eq_some_iff.mp hmap
      exact h s

/-- What leads on at a backend leads on in the pod. -/
theorem leads_on {server : Str} (hserver : server ∈ names) {up : Upstream}
    (hleads : upstream.Leads (fun a => a.mends = true) (st.backend server) up) :
    (pods names).Leads PodAction.Mends st (st.set server up) := by
  have hself : st.set server (st.backend server) = st := by
    rw [Pod.set, Function.update_eq_self]
  have hlift : (pods names).Leads PodAction.Mends (st.set server (st.backend server))
      (st.set server up) := by
    refine hleads.map fun up a up' ha hstep => ?_
    have hcall : a.isCall = false := by
      cases a <;> first | rfl | simp [UpstreamAction.mends, UpstreamAction.goesOn] at ha
    refine ⟨.on server a, ⟨server, a, rfl, ha⟩, ?_⟩
    have hup : (st.set server up).backend server = up := by rw [set_backend, if_pos rfl]
    have hset : (st.set server up).set server up' = st.set server up' := by
      simp [Pod.set]
    simp [pods, Pod.step, hserver, hcall, hup, hstep, hset]
  rwa [hself] at hlift

/-- Every backend of some can be connected, by the probes that wait there. -/
theorem connects_all {callers : Str → ℕ} (hopen : ∀ s, (st.backend s).Open) {servers : List Str}
    (hservers : ∀ s ∈ servers, s ∈ names ∧ (st.backend s).Ensures (callers s)) :
    ∃ st', (pods names).Leads PodAction.Mends st st' ∧ st'.asked = st.asked ∧
      (∀ s ∉ servers, st'.backend s = st.backend s) ∧
      ∀ s ∈ servers, ((st'.backend s).callers (callers s)) = ⟨.ensureSession, .returned none, []⟩ ∧
        (st'.backend s).Serving := by
  induction servers with
  | nil => exact ⟨st, .refl st, rfl, fun _ _ => rfl, by simp⟩
  | cons server servers ih =>
      obtain ⟨st₁, hleads, hasked, hothers, hdone⟩ :=
        ih fun s hs => hservers s (List.mem_cons_of_mem _ hs)
      by_cases hmem : server ∈ servers
      · refine ⟨st₁, hleads, hasked, fun s hs => hothers s fun h => hs (List.mem_cons_of_mem _ h),
          fun s hs => ?_⟩
        rcases List.mem_cons.mp hs with rfl | hs
        · exact hdone s hmem
        · exact hdone s hs
      · obtain ⟨hname, hensures⟩ := hservers server List.mem_cons_self
        rw [← hothers server hmem] at hensures
        have hcoherent : (st₁.backend server).Coherent := by
          rw [hothers server hmem]
          exact (hopen server).coherent
        obtain ⟨up, hup, hreturned, hserving⟩ := hcoherent.reconnects hensures
        refine ⟨_, hleads.trans (leads_on hname hup), hasked, fun s hs => ?_, fun s hs => ?_⟩
        · have hne : s ≠ server := fun h => hs (h ▸ List.mem_cons_self)
          rw [set_backend, if_neg hne]
          exact hothers s fun h => hs (List.mem_cons_of_mem _ h)
        · rw [set_backend]
          split
          · next heq =>
              subst heq
              exact ⟨hreturned, hserving⟩
          · next hne => exact hdone s ((List.mem_cons.mp hs).resolve_left hne)

/-- The probes have all ended with success. -/
theorem mapM_probe {callers : Str → ℕ}
    (h : ∀ s ∈ names, (st.backend s).callers (callers s) = ⟨.ensureSession, .returned none, []⟩) :
    (names.mapM fun s => (probe ((st.backend s).callers (callers s)) true).map (s, ·)) =
      some (names.map fun s => (s, true)) := by
  induction names with
  | nil => rfl
  | cons s names ih =>
      rw [List.mapM_cons, ih fun s hs => h s (List.mem_cons_of_mem _ hs), h s List.mem_cons_self]
      rfl

/-- **A pod comes back by probing alone.** Take any state that a pod with some backends reaches,
whatever calls, cancelled probes and lost connections led to it. A request to `/ready` can then
run to its end with no other request arriving and nobody being cancelled, be answered 200 itself,
and leave every backend with a connection that serves. -/
theorem ready_again (hnames : names ≠ []) {as : List PodAction}
    (hrun : (pods names).exec .init as = some st) :
    ∃ callers bs pongs st', (∀ b ∈ bs, PodAction.Mends b) ∧
      (pods names).exec st (.ask callers :: bs ++ [.answer st.asked.length pongs]) = some st' ∧
      st'.ready = true ∧ ∀ s ∈ names, (st'.backend s).Serving := by
  have hopen : ∀ s, (st.backend s).Open :=
    System.invariant' (I := fun st => ∀ s, (st.backend s).Open)
      (fun _ _ _ hI hstep => open_step hI hstep) (fun s => .init s) hrun
  choose callers hidle using fun s => (hopen s).idle
  have hstart : ∀ s, startProbe (st.backend s) (callers s) = some { st.backend s with
      callers := Function.update (st.backend s).callers (callers s)
        ⟨.ensureSession, .acquiring (.connect false), []⟩ } := by
    intro s
    simp only [startProbe, upstream, Upstream.step, hidle s _ le_rfl, Operation.section]
  have hask : ∃ st₁, (pods names).step st (.ask callers) = some st₁ ∧
      st₁.asked = st.asked ++ [callers] ∧ ∀ s, (st₁.backend s).Ensures (callers s) := by
    refine ⟨_, by simp only [pods, Pod.step, hstart]; simp; rfl, rfl, fun s => ?_⟩
    exact Function.update_self _ _ _
  obtain ⟨st₁, hask, hasked, hensures⟩ := hask
  obtain ⟨st₂, ⟨bs, hbs, hrun₂⟩, hasked₂, -, hdone⟩ := connects_all (open_step hopen hask)
    (fun s hs => ⟨hs, hensures s⟩ : ∀ s ∈ names, s ∈ names ∧ (st₁.backend s).Ensures (callers s))
  have hthere : st₂.asked[st.asked.length]? = some callers := by simp [hasked₂, hasked]
  have hresults := mapM_probe fun s hs => (hdone s hs).1
  have hanswer : (pods names).step st₂ (.answer st.asked.length fun _ => true) =
      some { st₂ with asked := st₂.asked.eraseIdx st.asked.length, ready := true } := by
    have hready : (readyAnswer (names.map fun s => (s, true))).statusCode = 200 := by
      obtain ⟨s, hs⟩ := List.exists_mem_of_ne_nil names hnames
      have hany : (names.map fun s => (s, true)).any Prod.snd = true :=
        List.any_eq_true.mpr ⟨(s, true), List.mem_map_of_mem hs, rfl⟩
      simp [readyAnswer, hany]
    simp only [pods, Pod.step, hthere, Option.bind_some, hresults, Option.map_some, hready,
      decide_true]
  refine ⟨callers, bs, fun _ => true,
    { st₂ with asked := st₂.asked.eraseIdx st.asked.length, ready := true }, hbs, ?_, rfl,
    fun s hs => (hdone s hs).2⟩
  rw [List.cons_append, System.exec_cons_eq_some]
  exact ⟨st₁, hask, System.exec_concat_eq_some.mpr ⟨st₂, hrun₂, hanswer⟩⟩

end Pods

/-- A first request to `/ready` whose probe is cancelled in the middle of its connection
attempt, and is answered 503. -/
def timedOutRun : List PodAction :=
  [.ask fun _ => 0, .on (lit "ticket") (.acquire 0), .on (lit "ticket") (.start 0),
    .on (lit "ticket") (.cancel 0), .answer 0 fun _ => true]

/-- The next request can be answered 200. -/
theorem ready_again_sample : ∃ st, (pods [lit "ticket"]).exec .init timedOutRun = some st ∧
    st.ready = false ∧ ∃ callers bs pongs st',
      (pods [lit "ticket"]).exec st (.ask callers :: bs ++ [.answer st.asked.length pongs]) =
        some st' ∧ st'.ready = true := by
  have hrun : ((pods [lit "ticket"]).exec .init timedOutRun).any (fun st => !st.ready) = true := by
    decide +kernel
  obtain ⟨st, hst, hready⟩ := (Option.any_eq_true _ _).mp hrun
  obtain ⟨callers, bs, pongs, st', -, hexec, hready', -⟩ := ready_again (by simp) hst
  exact ⟨st, hst, by simpa using hready, callers, bs, pongs, st', hexec, hready'⟩

end AgentOpsGateway
