import AgentOpsGateway.Upstream

/-!
# One Owned Session per Backend

The intent of `_lock`, `_task` and `_session` is that one connection task at a time belongs
to a backend, and that `_session` is its session. A task that is cancelled while it waits
for `ready` breaks this: it leaves a connection task behind that nobody owns.

## Main results

* `oneSession`: **every run in which no caller is cancelled while its connection attempt is
  under way** keeps one connection task at a time, publishes the session of `_task` only,
  and lets no abandoned connection task write `_session`.
* `oneSession_fails`: one `/ready` probe that times out during a slow connection attempt
  leads to two open connection tasks.
-/

namespace AgentOpsGateway

open Python Transition

/-! ### What is promised -/

/-- At most one connection task has begun to open its transport and has not ended. -/
def Upstream.OneOpen (st : Upstream) : Prop :=
  ∀ c c', (st.connections c).isOpen = true → (st.connections c').isOpen = true → c = c'

/-- Outside the sections of `_lock`, `_session` is the session opened by `_task`. -/
def Upstream.Published (st : Upstream) : Prop :=
  st.lock = none → ∀ c, st.session = some c → st.task = some c

/-- The action runs a segment of connection task `c` that assigns `_session`. -/
def WritesSession (c : ℕ) : UpstreamAction → Prop
  | .opened c' _ | .openFail c' | .finish c' => c' = c
  | _ => False

/-- A connection task that `_connect_locked` has left by an exception or a cancellation does
not write `_session`. -/
def Silent (st : Upstream) (a : UpstreamAction) : Prop :=
  ∀ c, WritesSession c a → (st.connections c).exited = false

/-- The action cancels a caller whose connection attempt is under way. -/
def Detaches (st : Upstream) : UpstreamAction → Prop
  | .cancel i => ∃ retry c, (st.callers i).phase = .connecting retry c ∧
      (st.connections c).phase ≠ .finished
  | _ => False

/-! ### The invariant -/

/-- The connection task has been created and has not ended. -/
def Connection.isLive (k : Connection) : Bool :=
  match k.phase with
  | .created | .opening | .serving | .closing => true
  | .absent | .finished => false

/-- The future and the records of a connection agree with its phase. -/
def Connection.Sound (k : Connection) : Prop :=
  match k.phase with
  | .absent | .created | .opening =>
    k.ready = .pending ∧ k.exited = false ∧ k.stop = false ∧ k.lost = false
  | .serving => k.ready = .ok ∧ k.exited = false ∧ k.lost = false
  | .closing => k.ready = .ok ∧ k.exited = false
  | .finished => k.ready = .ok ∨ k.ready = .failed

/-- The session of the connection is published. -/
def Connection.isUp (k : Connection) : Bool :=
  match k.phase with
  | .serving | .closing => true
  | .absent | .created | .opening | .finished => false

/-- **Ownership.** The caller in a section is the one that holds `_lock`; a live connection
task is `_task` or the one the lock holder waits for; and `_session` is the session of the
connection that is up. -/
structure Upstream.Owned (st : Upstream) : Prop where
  holder : ∀ i, (st.callers i).phase.holds = true ↔ st.lock = some i
  live : ∀ c, (st.connections c).isLive = true →
    st.task = some c ∨ ∃ i retry, (st.callers i).phase = .connecting retry c
  connecting : ∀ i retry c, (st.callers i).phase = .connecting retry c →
    st.task = none ∧ (st.connections c).phase ≠ .absent
  tearing : ∀ i s c, (st.callers i).phase = .tearing s c →
    st.task = some c ∧ (st.connections c).stop = true
  tasked : ∀ c, st.task = some c → (st.connections c).ready = .ok
  session : ∀ c, st.session = some c ↔ (st.connections c).isUp = true
  sound : ∀ c, (st.connections c).Sound
  unused : ∀ c, st.connectionCount ≤ c → (st.connections c).phase = .absent

namespace Connection

variable {k : Connection}

/-- A connection whose session is published is live. -/
theorem isLive_of_isUp (h : k.isUp = true) : k.isLive = true := by
  simp only [isUp] at h
  simp only [isLive]
  cases hphase : k.phase <;> simp_all

/-- An open connection is live. -/
theorem isLive_of_isOpen (h : k.isOpen = true) : k.isLive = true := by
  simp only [isOpen] at h
  simp only [isLive]
  cases hphase : k.phase <;> simp_all

/-- A finished connection is not live. -/
theorem not_isLive_of_finished (h : k.phase = .finished) : k.isLive = false := by
  simp [isLive, h]

/-- A connection that has come up is up until it has finished. -/
theorem Sound.isUp_or_finished (h : k.Sound) (hready : k.ready = .ok) :
    k.isUp = true ∨ k.phase = .finished := by
  simp only [Sound] at h
  simp only [isUp]
  cases hphase : k.phase <;> simp_all

/-- Only a finished connection is left by an exception. -/
theorem Sound.exited_eq_false (h : k.Sound) (hphase : k.phase ≠ .finished) :
    k.exited = false := by
  simp only [Sound] at h
  cases hp : k.phase <;> simp_all

/-- A connection that has not come up has finished. -/
theorem Sound.finished_of_failed (h : k.Sound) (hready : k.ready = .failed) :
    k.phase = .finished := by
  simp only [Sound] at h
  cases hphase : k.phase <;> simp_all

end Connection

namespace Upstream.Owned

variable {st st' : Upstream} {i : ℕ}

/-- A new object. -/
theorem init (name : Str) : (Upstream.init name).Owned where
  holder i := by simp [Upstream.init, CallerPhase.holds]
  live c := by simp [Upstream.init, Connection.isLive]
  connecting i retry c := by simp [Upstream.init]
  tearing i s c := by simp [Upstream.init]
  tasked c := by simp [Upstream.init]
  session c := by simp [Upstream.init, Connection.isUp]
  sound c := by simp [Upstream.init, Connection.Sound]
  unused c _ := rfl

/-- Two callers that connect are the same. -/
theorem connecting_unique (h : st.Owned) {i j c c' : ℕ} {retry retry' : Bool}
    (hi : (st.callers i).phase = .connecting retry c)
    (hj : (st.callers j).phase = .connecting retry' c') : c = c' := by
  have hlock : ∀ i retry c, (st.callers i).phase = .connecting retry c → st.lock = some i :=
    fun i retry c hi => (h.holder i).mp (by rw [hi]; rfl)
  obtain rfl : i = j := Option.some.inj ((hlock i _ _ hi).symm.trans (hlock j _ _ hj))
  rw [hi] at hj
  simpa using (CallerPhase.connecting.inj hj).2

/-- **Two live connection tasks are the same.** -/
theorem live_unique (h : st.Owned) {c c' : ℕ} (hc : (st.connections c).isLive = true)
    (hc' : (st.connections c').isLive = true) : c = c' := by
  rcases h.live c hc with htask | ⟨i, retry, hi⟩
  · rcases h.live c' hc' with htask' | ⟨j, retry', hj⟩
    · exact Option.some.inj (htask.symm.trans htask')
    · rw [(h.connecting j retry' c' hj).1] at htask
      simp at htask
  · rcases h.live c' hc' with htask' | ⟨j, retry', hj⟩
    · rw [(h.connecting i retry c hi).1] at htask'
      simp at htask'
    · exact h.connecting_unique hi hj

/-- There is one open connection task at most. -/
theorem oneOpen (h : st.Owned) : st.OneOpen := fun _ _ hc hc' =>
  h.live_unique (Connection.isLive_of_isOpen hc) (Connection.isLive_of_isOpen hc')

/-- While `_lock` is free, the published session is that of `_task`. -/
theorem published (h : st.Owned) : st.Published := by
  intro hlock c hsession
  have hlive := Connection.isLive_of_isUp ((h.session c).mp hsession)
  rcases h.live c hlive with htask | ⟨i, retry, hi⟩
  · exact htask
  · have hholds := (h.holder i).mp (by rw [hi]; rfl)
    simp [hlock] at hholds

/-- An abandoned connection task has ended, so it does not write `_session`. -/
theorem silent (h : st.Owned) {a : UpstreamAction} (hstep : upstream.step st a = some st') :
    Silent st a := by
  intro c hwrites
  refine (h.sound c).exited_eq_false fun hphase => ?_
  cases a with
  | opened c' tools =>
      obtain rfl := hwrites
      simp [upstream, Upstream.step, hphase] at hstep
  | openFail c' =>
      obtain rfl := hwrites
      simp [upstream, Upstream.step, hphase] at hstep
  | finish c' =>
      obtain rfl := hwrites
      simp [upstream, Upstream.step, hphase] at hstep
  | _ => exact hwrites

/-! ### Kept by every step -/

/-- Callers outside the sections do not matter to ownership. -/
theorem outside (h : st.Owned) (hout : Outside i st st')
    (hfree : (st.callers i).phase.holds = false) : st'.Owned := by
  -- a caller in a section has not moved
  have hsame : ∀ j, (st'.callers j).phase.holds = true ∨ (st.callers j).phase.holds = true →
      (st'.callers j).phase = (st.callers j).phase := by
    intro j hj
    by_cases hji : j = i
    · subst hji
      simp [hout.free, hfree] at hj
    · rw [hout.others j hji]
  constructor
  · intro j
    rw [hout.lock, ← h.holder]
    constructor
    · intro hj
      rwa [← hsame j (Or.inl hj)]
    · intro hj
      rwa [hsame j (Or.inr hj)]
  · intro c hc
    rw [hout.connections] at hc
    rw [hout.task]
    refine (h.live c hc).imp_right ?_
    rintro ⟨j, retry, hj⟩
    exact ⟨j, retry, by rw [hsame j (Or.inr (by rw [hj]; rfl)), hj]⟩
  · intro j retry c hj
    rw [hsame j (Or.inl (by rw [hj]; rfl))] at hj
    rw [hout.task, hout.connections]
    exact h.connecting j retry c hj
  · intro j s c hj
    rw [hsame j (Or.inl (by rw [hj]; rfl))] at hj
    rw [hout.task, hout.connections]
    exact h.tearing j s c hj
  · intro c hc
    rw [hout.task] at hc
    rw [hout.connections]
    exact h.tasked c hc
  · intro c
    rw [hout.session, hout.connections]
    exact h.session c
  · intro c
    rw [hout.connections]
    exact h.sound c
  · intro c hc
    rw [hout.connectionCount] at hc
    rw [hout.connections]
    exact h.unused c hc

/-- While `_lock` is free, nobody is in a section. -/
theorem free_of_unlocked (h : st.Owned) (hlock : st.lock = none) (j : ℕ) :
    (st.callers j).phase.holds = false := by
  by_contra hj
  have := (h.holder j).mp (by simpa using hj)
  simp [hlock] at this

/-- Nobody else is in a section. -/
theorem others_free (h : st.Owned) (hi : (st.callers i).phase.holds = true) (j : ℕ) (hj : j ≠ i) :
    (st.callers j).phase.holds = false := by
  by_contra hholds
  have hlock := (h.holder j).mp (by simpa using hholds)
  exact hj (Option.some.inj (hlock.symm.trans ((h.holder i).mp hi)))

/-- While `_lock` is free, every live connection task is `_task`. -/
theorem task_of_unlocked (h : st.Owned) (hlock : st.lock = none) {c : ℕ}
    (hc : (st.connections c).isLive = true) : st.task = some c := by
  rcases h.live c hc with htask | ⟨i, retry, hi⟩
  · exact htask
  · have := h.free_of_unlocked hlock i
    rw [hi] at this
    simp [CallerPhase.holds] at this

/-- Ownership where nobody is in a section. -/
theorem of_unlocked (hfree : ∀ j, (st.callers j).phase.holds = false) (hlock : st.lock = none)
    (hlive : ∀ c, (st.connections c).isLive = true → st.task = some c)
    (htasked : ∀ c, st.task = some c → (st.connections c).ready = .ok)
    (hsession : ∀ c, st.session = some c ↔ (st.connections c).isUp = true)
    (hsound : ∀ c, (st.connections c).Sound)
    (hunused : ∀ c, st.connectionCount ≤ c → (st.connections c).phase = .absent) : st.Owned where
  holder j := by simp [hfree j, hlock]
  live c hc := Or.inl (hlive c hc)
  connecting j retry c hj := absurd (hfree j) (by simp [hj, CallerPhase.holds])
  tearing j s c hj := absurd (hfree j) (by simp [hj, CallerPhase.holds])
  tasked := htasked
  session := hsession
  sound := hsound
  unused := hunused

/-- Ownership where caller `i` waits for the end of connection task `c`. -/
theorem of_tearing {s : Section} {c : ℕ} (hi : (st.callers i).phase = .tearing s c)
    (hothers : ∀ j, j ≠ i → (st.callers j).phase.holds = false) (hlock : st.lock = some i)
    (htask : st.task = some c) (hstop : (st.connections c).stop = true)
    (htasked : (st.connections c).ready = .ok)
    (hlive : ∀ c', (st.connections c').isLive = true → c' = c)
    (hsession : ∀ c, st.session = some c ↔ (st.connections c).isUp = true)
    (hsound : ∀ c, (st.connections c).Sound)
    (hunused : ∀ c, st.connectionCount ≤ c → (st.connections c).phase = .absent) : st.Owned where
  holder j := by
    by_cases hj : j = i
    · simp [hj, hi, hlock, CallerPhase.holds]
    · simp [hothers j hj, hlock, Ne.symm hj]
  live c' hc' := Or.inl (by rw [hlive c' hc', htask])
  connecting j retry c' hj := by
    by_cases hji : j = i
    · simp [hji, hi] at hj
    · exact absurd (hothers j hji) (by simp [hj, CallerPhase.holds])
  tearing j s' c' hj := by
    by_cases hji : j = i
    · rw [hji, hi] at hj
      obtain ⟨-, rfl⟩ := CallerPhase.tearing.inj hj
      exact ⟨htask, hstop⟩
    · exact absurd (hothers j hji) (by simp [hj, CallerPhase.holds])
  tasked c' hc' := by
    obtain rfl : c = c' := Option.some.inj (htask.symm.trans hc')
    exact htasked
  session := hsession
  sound := hsound
  unused := hunused

/-- Ownership where caller `i` waits for `ready` of connection task `c`. -/
theorem of_connecting {retry : Bool} {c : ℕ} (hi : (st.callers i).phase = .connecting retry c)
    (hothers : ∀ j, j ≠ i → (st.callers j).phase.holds = false) (hlock : st.lock = some i)
    (htask : st.task = none) (hused : (st.connections c).phase ≠ .absent)
    (hlive : ∀ c', (st.connections c').isLive = true → c' = c)
    (hsession : ∀ c, st.session = some c ↔ (st.connections c).isUp = true)
    (hsound : ∀ c, (st.connections c).Sound)
    (hunused : ∀ c, st.connectionCount ≤ c → (st.connections c).phase = .absent) : st.Owned where
  holder j := by
    by_cases hj : j = i
    · simp [hj, hi, hlock, CallerPhase.holds]
    · simp [hothers j hj, hlock, Ne.symm hj]
  live c' hc' := Or.inr ⟨i, retry, by rw [hlive c' hc', hi]⟩
  connecting j retry' c' hj := by
    by_cases hji : j = i
    · rw [hji, hi] at hj
      obtain ⟨-, rfl⟩ := CallerPhase.connecting.inj hj
      exact ⟨htask, hused⟩
    · exact absurd (hothers j hji) (by simp [hj, CallerPhase.holds])
  tearing j s c' hj := by
    by_cases hji : j = i
    · simp [hji, hi] at hj
    · exact absurd (hothers j hji) (by simp [hj, CallerPhase.holds])
  tasked c' hc' := absurd hc' (by simp [htask])
  session := hsession
  sound := hsound
  unused := hunused

/-- The end of a teardown by caller `i`, when every connection task has ended. -/
theorem torn {s : Section} (hothers : ∀ j, j ≠ i → (st.callers j).phase.holds = false)
    (hlock : st.lock = some i) (hlive : ∀ c, (st.connections c).isLive = false)
    (hsound : ∀ c, (st.connections c).Sound)
    (hunused : ∀ c, st.connectionCount ≤ c → (st.connections c).phase = .absent) :
    (st.torn i s).Owned := by
  have hup : ∀ c, (st.connections c).isUp = false := fun c =>
    Bool.eq_false_iff.mpr fun hup => by simpa [hlive c] using Connection.isLive_of_isUp hup
  have hleft : ∀ result, ({ st with task := none, session := none, lock := none }.move i
      (.returned result)).Owned := fun result => by
    refine of_unlocked (fun j => ?_) rfl (fun c hc => ?_)
      (fun c hc => absurd hc (by simp [Upstream.move])) (fun c => ?_) hsound hunused
    · by_cases hj : j = i
      · simp [hj, Upstream.move, CallerPhase.holds]
      · simpa [Upstream.move, hj] using hothers j hj
    · simp [Upstream.move, hlive c] at hc
    · simp [Upstream.move, hup c]
  cases s with
  | connect retry =>
      have hi : ((st.torn i (.connect retry)).callers i).phase =
          .connecting retry st.connectionCount :=
        Upstream.move_phase _ i _
      refine of_connecting hi (fun j hj => ?_) hlock rfl ?_ (fun c hc => ?_) (fun c => ?_)
        (fun c => ?_) (fun c hc => ?_)
      · simpa [Upstream.torn, Upstream.connectLocked, Upstream.move, hj] using hothers j hj
      · simp [Upstream.torn, Upstream.connectLocked, Upstream.move]
      · by_contra hne
        simp [Upstream.torn, Upstream.connectLocked, Upstream.move, hne, hlive c] at hc
      · by_cases hc : c = st.connectionCount
        · simp [Upstream.torn, Upstream.connectLocked, Upstream.move, hc, Connection.isUp]
        · simp [Upstream.torn, Upstream.connectLocked, Upstream.move, hc, hup]
      · by_cases hc : c = st.connectionCount
        · simp [Upstream.torn, Upstream.connectLocked, Upstream.move, hc, Connection.Sound]
        · simpa [Upstream.torn, Upstream.connectLocked, Upstream.move, hc] using hsound c
      · have hlt : st.connectionCount < c := hc
        simpa [Upstream.torn, Upstream.connectLocked, Upstream.move, hlt.ne'] using
          hunused c hlt.le
  | giveUp => exact hleft _
  | close => exact hleft _

/-- Setting an event does not touch what ownership speaks about. -/
theorem setStop_sound (h : ∀ c, (st.connections c).Sound) {c : ℕ}
    (hready : (st.connections c).ready = .ok) (c' : ℕ) :
    ((st.setStop c).connections c').Sound := by
  by_cases hc : c' = c
  · have hsound := h c
    subst hc
    simp only [Connection.Sound, Upstream.setStop_phase, Upstream.setStop_ready,
      Upstream.setStop_exited, Upstream.setStop_lost] at hsound ⊢
    cases hp : (st.connections c').phase <;> simp_all
  · simpa [Upstream.setStop, Upstream.setConnection, hc] using h c'

@[simp] theorem setStop_isLive (st : Upstream) (c c' : ℕ) :
    ((st.setStop c).connections c').isLive = (st.connections c').isLive := by
  simp only [Connection.isLive, Upstream.setStop_phase]

@[simp] theorem setStop_isUp (st : Upstream) (c c' : ℕ) :
    ((st.setStop c).connections c').isUp = (st.connections c').isUp := by
  simp only [Connection.isUp, Upstream.setStop_phase]

/-- A connection task goes on, and may assign `_session`. -/
theorem connection (h : st.Owned) {c : ℕ} {k : Connection} (s : Option ℕ)
    (tools : Option (List Tool)) (hsound : k.Sound)
    (hlive : k.isLive = true → (st.connections c).isLive = true)
    (hused : (st.connections c).phase ≠ .absent) (hused' : k.phase ≠ .absent)
    (hstop : k.stop = (st.connections c).stop)
    (hready : (st.connections c).ready = .ok → k.ready = .ok) (hc : s = some c ↔ k.isUp = true)
    (hother : ∀ c', c' ≠ c → (s = some c' ↔ st.session = some c')) :
    ({ st with tools, session := s }.setConnection c k).Owned where
  holder := h.holder
  live c' hc' := by
    refine h.live c' ?_
    by_cases heq : c' = c
    · subst heq
      exact hlive (by simpa [Upstream.setConnection] using hc')
    · simpa [Upstream.setConnection, heq] using hc'
  connecting i retry c' hi := by
    refine ⟨(h.connecting i retry c' hi).1, ?_⟩
    by_cases heq : c' = c
    · simpa [Upstream.setConnection, heq] using hused'
    · simpa [Upstream.setConnection, heq] using (h.connecting i retry c' hi).2
  tearing i s' c' hi := by
    refine ⟨(h.tearing i s' c' hi).1, ?_⟩
    by_cases heq : c' = c
    · subst heq
      simpa [Upstream.setConnection, hstop] using (h.tearing i s' c' hi).2
    · simpa [Upstream.setConnection, heq] using (h.tearing i s' c' hi).2
  tasked c' hc' := by
    by_cases heq : c' = c
    · subst heq
      simpa [Upstream.setConnection] using hready (h.tasked c' hc')
    · simpa [Upstream.setConnection, heq] using h.tasked c' hc'
  session c' := by
    by_cases heq : c' = c
    · simpa [Upstream.setConnection, heq] using hc
    · simpa [Upstream.setConnection, heq, hother c' heq] using h.session c'
  sound c' := by
    by_cases heq : c' = c
    · simpa [Upstream.setConnection, heq] using hsound
    · simpa [Upstream.setConnection, heq] using h.sound c'
  unused c' hc' := by
    have hphase := h.unused c' hc'
    have hne : c' ≠ c := by
      rintro rfl
      exact hused hphase
    simpa [Upstream.setConnection, hne] using hphase

/-- While a connection attempt is under way, no other connection task is live. -/
theorem live_of_connecting (h : st.Owned) {retry : Bool} {c c' : ℕ}
    (hi : (st.callers i).phase = .connecting retry c)
    (hc' : (st.connections c').isLive = true) : c' = c := by
  rcases h.live c' hc' with htask | ⟨j, retry', hj⟩
  · simp [(h.connecting i retry c hi).1] at htask
  · exact (h.connecting_unique hi hj).symm

/-- The session there is when a connection attempt ends is that of the attempt. -/
theorem session_of_connecting (h : st.Owned) {retry : Bool} {c session : ℕ}
    (hi : (st.callers i).phase = .connecting retry c) (hsession : st.session = some session) :
    session = c :=
  h.live_of_connecting hi (Connection.isLive_of_isUp ((h.session session).mp hsession))

/-- Where no session is published, a connection that has come up has finished. -/
theorem finished_of_session_eq_none (h : st.Owned) {c : ℕ} (hnone : st.session = none)
    (hready : (st.connections c).ready = .ok) : (st.connections c).phase = .finished := by
  rcases (h.sound c).isUp_or_finished hready with hup | hfinished
  · simp [(h.session c).mpr hup] at hnone
  · exact hfinished

/-- The session of a connection that is not up is not published. -/
theorem session_ne (h : st.Owned) {c : ℕ} (hup : (st.connections c).isUp = false) :
    st.session ≠ some c := fun hsession => by
  simpa [hup] using (h.session c).mp hsession

/-- While one connection task is live, no session of another one is published. -/
theorem session_ne_of_live (h : st.Owned) {c c' : ℕ} (hc : (st.connections c).isLive = true)
    (hne : c' ≠ c) : st.session ≠ some c' := fun hsession =>
  hne (h.live_unique (Connection.isLive_of_isUp ((h.session c').mp hsession)) hc)

/-- Caller `i` leaves its section. -/
theorem leave (h : st.Owned) (hi : (st.callers i).phase.holds = true)
    (hfree : (st'.callers i).phase.holds = false)
    (hothers : ∀ j, j ≠ i → st'.callers j = st.callers j) (hlock : st'.lock = none)
    (hsession : st'.session = st.session) (hcount : st'.connectionCount = st.connectionCount)
    (hphase : ∀ c, (st'.connections c).phase = (st.connections c).phase)
    (hsound : ∀ c, (st'.connections c).Sound)
    (htasked : ∀ c, st'.task = some c → (st'.connections c).ready = .ok)
    (hlive : ∀ c, (st.connections c).isLive = true → st'.task = some c) : st'.Owned := by
  refine of_unlocked (fun j => ?_) hlock (fun c hc => hlive c ?_) htasked (fun c => ?_) hsound
    (fun c hc => ?_)
  · by_cases hj : j = i
    · rw [hj, hfree]
    · rw [hothers j hj, h.others_free hi j hj]
  · simpa only [Connection.isLive, hphase] using hc
  · rw [hsession, h.session c]
    simp only [Connection.isUp, hphase]
  · rw [hphase]
    exact h.unused c (hcount ▸ hc)

/-- Caller `i` leaves its connection attempt by an exception or a cancellation, after the
connection task has ended. -/
theorem exit (h : st.Owned) {retry : Bool} {c : ℕ} {k : Connection}
    (hi : (st.callers i).phase = .connecting retry c)
    (hfinished : (st.connections c).phase = .finished) (hk : k.phase = .finished)
    (hready : k.ready = (st.connections c).ready)
    (hout : Upstream.Outside i (st.release.setConnection c k) st') : st'.Owned := by
  have hconnections : ∀ c', st'.connections c' = if c' = c then k else st.connections c' := by
    intro c'
    rw [hout.connections]
    exact Function.update_apply _ _ _ _
  refine h.leave (by rw [hi]; rfl) hout.free hout.others hout.lock hout.session
    hout.connectionCount (fun c' => ?_) (fun c' => ?_) (fun c' hc' => ?_) (fun c' hc' => ?_)
  · rw [hconnections]
    split
    · next heq => rw [hk, heq, hfinished]
    · rfl
  · have hsound := h.sound c
    simp only [Connection.Sound, hfinished] at hsound
    rw [hconnections]
    split
    · simpa only [Connection.Sound, hk, hready] using hsound
    · exact h.sound c'
  · rw [hout.task] at hc'
    exact absurd hc' (by
      simp [Upstream.setConnection, Upstream.release, (h.connecting i retry c hi).1])
  · obtain rfl := h.live_of_connecting hi hc'
    simp [Connection.not_isLive_of_finished hfinished] at hc'

/-- A caller gets the lock. -/
theorem acquired (h : st.Owned) {s : Section} (hphase : (st.callers i).phase = .acquiring s)
    (hlock : st.lock = none) : (st.acquired i s).Owned := by
  have hnone : ∀ j, j ≠ i → (st.callers j).phase.holds = false := fun j _ =>
    h.free_of_unlocked hlock j
  rcases Upstream.acquired_cases st i s with ⟨-, -, heq⟩ | ⟨-, ⟨htask, heq⟩ | ⟨c, htask,
    ⟨hfinished, heq⟩ | ⟨hlive, heq⟩⟩⟩
  · rw [heq]
    exact h.outside (Upstream.outside_proceed st false) (by rw [hphase]; rfl)
  · rw [heq]
    refine torn hnone rfl (fun c => Bool.eq_false_iff.mpr fun hc => ?_) h.sound h.unused
    simp [h.task_of_unlocked hlock hc] at htask
  · rw [heq]
    refine torn hnone rfl (fun c' => Bool.eq_false_iff.mpr fun hc' => ?_)
      (setStop_sound h.sound (h.tasked c htask)) (fun c' hc' => ?_)
    · rw [setStop_isLive] at hc'
      obtain rfl : c = c' := Option.some.inj (htask.symm.trans (h.task_of_unlocked hlock hc'))
      simp [Connection.not_isLive_of_finished hfinished] at hc'
    · rw [Upstream.setStop_phase]
      exact h.unused c' hc'
  · rw [heq]
    refine of_tearing (i := i) (s := s) (c := c) ?_ (fun j hj => ?_) rfl htask
      (by simp [Upstream.setStop, Upstream.setConnection]) (by simpa using h.tasked c htask)
      (fun c' hc' => ?_) (fun c' => ?_) (setStop_sound h.sound (h.tasked c htask))
      (fun c' hc' => ?_)
    · exact Upstream.move_phase _ i _
    · rw [Upstream.move_callers_of_ne _ hj]
      exact hnone j hj
    · rw [Upstream.move_connections, setStop_isLive] at hc'
      exact Option.some.inj ((h.task_of_unlocked hlock hc').symm.trans htask)
    · rw [Upstream.move_connections, setStop_isUp]
      exact h.session c'
    · rw [Upstream.move_connections, Upstream.setStop_phase]
      exact h.unused c' hc'

/-- A connection attempt has come up. -/
theorem connected (h : st.Owned) {retry : Bool} {c : ℕ}
    (hphase : (st.callers i).phase = .connecting retry c)
    (hready : (st.connections c).ready = .ok) :
    ({ st with task := some c, lock := none }.proceed i retry).Owned := by
  have hout := Upstream.outside_proceed (i := i) { st with task := some c, lock := none } retry
  refine h.leave (by rw [hphase]; rfl) hout.free hout.others hout.lock hout.session
    hout.connectionCount (fun c' => by rw [hout.connections])
    (fun c' => by rw [hout.connections]; exact h.sound c') (fun c' hc' => ?_) (fun c' hc' => ?_)
  · rw [hout.task] at hc'
    rw [hout.connections, ← Option.some.inj hc']
    exact hready
  · rw [hout.task, h.live_of_connecting hphase hc']

/-- A teardown goes on when the connection task has ended. -/
theorem tornDown (h : st.Owned) {s : Section} {c : ℕ}
    (hphase : (st.callers i).phase = .tearing s c)
    (hfinished : (st.connections c).phase = .finished) : (st.torn i s).Owned := by
  have hholds : (st.callers i).phase.holds = true := by rw [hphase]; rfl
  refine torn (h.others_free hholds) ((h.holder i).mp hholds)
    (fun c' => Bool.eq_false_iff.mpr fun hc' => ?_) h.sound h.unused
  have htask := (h.tearing i s c hphase).1
  rcases h.live c' hc' with htask' | ⟨j, retry, hj⟩
  · obtain rfl : c = c' := Option.some.inj (htask.symm.trans htask')
    simp [Connection.not_isLive_of_finished hfinished] at hc'
  · simp [(h.connecting j retry c' hj).1] at htask

/-- A serving connection begins to close, and its session stays published until it ends. -/
theorem closing (h : st.Owned) {c : ℕ} {k : Connection}
    (hserving : (st.connections c).phase = .serving) (hk : k.phase = .closing)
    (hready : k.ready = (st.connections c).ready) (hstop : k.stop = (st.connections c).stop)
    (hexited : k.exited = (st.connections c).exited) : (st.setConnection c k).Owned := by
  have hsound := h.sound c
  simp only [Connection.Sound, hserving] at hsound
  refine h.connection st.session st.tools ?_ ?_ (by simp [hserving]) (by simp [hk]) hstop
    (fun hok => hready.trans hok) ?_ (fun _ _ => Iff.rfl)
  · simp [Connection.Sound, hk, hready, hexited, hsound]
  · simp [Connection.isLive, hserving]
  · simp [h.session c, Connection.isUp, hserving, hk]

/-- A connection task ends and withdraws what is published. -/
theorem withdrawn (h : st.Owned) {c : ℕ} {k : Connection}
    (hlive : (st.connections c).isLive = true) (hk : k.phase = .finished) (hsound : k.Sound)
    (hready : (st.connections c).ready = .ok → k.ready = .ok)
    (hstop : k.stop = (st.connections c).stop) :
    ({ st with session := none }.setConnection c k).Owned := by
  have hused : (st.connections c).phase ≠ .absent := fun habsent => by
    simp [Connection.isLive, habsent] at hlive
  refine h.connection none st.tools hsound (fun _ => hlive) hused (by simp [hk]) hstop hready ?_
    (fun c' hc' => ?_)
  · simp [Connection.isUp, hk]
  · simp [h.session_ne_of_live hlive hc']

/-- A caller is cancelled, but not while its connection attempt is under way. -/
theorem cancelled (h : st.Owned) (hnot : ¬Detaches st (.cancel i))
    (hstep : upstream.step st (.cancel i) = some st') : st'.Owned := by
  rcases step_cancel hstep with ⟨hphase, rfl⟩ | ⟨s, c, hphase, ⟨hfinished, rfl⟩ | rfl⟩ |
    ⟨retry, c, hphase, rfl⟩
  · refine h.outside (Upstream.outside_move st rfl) ?_
    rcases hphase with ⟨s, hphase⟩ | ⟨retry, r, owner, hphase⟩ <;> rw [hphase] <;> rfl
  · have hout : Upstream.Outside i st.release (st.release.move i .cancelled) :=
      Upstream.outside_move st.release rfl
    refine h.leave (by rw [hphase]; rfl) hout.free hout.others hout.lock hout.session
      hout.connectionCount (fun _ => rfl) h.sound (fun c' hc' => h.tasked c' (hout.task ▸ hc'))
      (fun c' hc' => ?_)
    rw [hout.task]
    rcases h.live c' hc' with htask | ⟨j, retry', hj⟩
    · exact htask
    · have htask := (h.tearing i s c hphase).1
      simp [(h.connecting j retry' c' hj).1] at htask
  · simp only [Upstream.cancelConnection]
    split
    · next hserving => exact h.closing hserving rfl rfl rfl rfl
    · exact h
  · have hfinished : (st.connections c).phase = .finished := by
      by_contra hne
      exact hnot ⟨retry, c, hphase, hne⟩
    have hready : (st.connections c).ready ≠ .pending := by
      have hsound := h.sound c
      simp only [Connection.Sound, hfinished] at hsound
      rcases hsound with hsound | hsound <;> simp [hsound]
    refine h.exit hphase hfinished ?_ ?_ (Upstream.outside_move _ rfl)
    · exact hfinished
    · exact if_neg hready

/-- **Ownership is kept by every step that does not detach a connection task.** -/
theorem step (h : st.Owned) {a : UpstreamAction} (hnot : ¬Detaches st a)
    (hstep : upstream.step st a = some st') : st'.Owned := by
  cases a with
  | enter i op =>
      obtain ⟨hphase, rfl⟩ := step_enter hstep
      exact h.outside (Upstream.outside_enter st op) (by rw [hphase]; rfl)
  | acquire i =>
      obtain ⟨s, hphase, hlock, rfl⟩ := step_acquire hstep
      exact h.acquired hphase hlock
  | torn i =>
      obtain ⟨s, c, hphase, hfinished, rfl⟩ := step_torn hstep
      exact h.tornDown hphase hfinished
  | connected i =>
      obtain ⟨retry, c, hphase, ⟨hready, rfl⟩ | ⟨hready, rfl⟩⟩ := step_connected hstep
      · exact h.connected hphase hready
      · have hfinished := (h.sound c).finished_of_failed hready
        refine h.exit hphase hfinished ?_ ?_ (Upstream.outside_connectFailed st retry c)
        · exact hfinished
        · rfl
  | raced i =>
      obtain ⟨retry, r, owner, hphase, ⟨result, -, rfl⟩ | ⟨f, -, rfl⟩ | ⟨-, -, rfl⟩⟩ :=
        step_raced hstep
      · exact h.outside (Upstream.outside_answer st result) (by rw [hphase]; rfl)
      · exact h.outside (Upstream.outside_fail st retry _) (by rw [hphase]; rfl)
      · have hset : (st.setRequest r { st.requests r with reply := Reply.cancelled }).Owned :=
          { h with }
        refine hset.outside (Upstream.outside_fail _ retry _) ?_
        change (st.callers i).phase.holds = false
        rw [hphase]
        rfl
  | cancel i => exact h.cancelled hnot hstep
  | start c =>
      obtain ⟨hphase, rfl⟩ := step_start hstep
      have hsound := h.sound c
      simp only [Connection.Sound, hphase] at hsound
      refine h.connection st.session st.tools hsound ?_ (by simp [hphase])
        (by simp) rfl id ?_ (fun _ _ => Iff.rfl)
      · simp [Connection.isLive, hphase]
      · simp [Connection.isUp, h.session_ne (c := c) (by simp [Connection.isUp, hphase])]
  | opened c tools =>
      obtain ⟨hphase, hcases⟩ := step_opened hstep
      have hsound := h.sound c
      simp only [Connection.Sound, hphase] at hsound
      obtain ⟨-, rfl⟩ | ⟨hready, -⟩ := hcases
      · refine h.connection (some c) (some tools) ⟨rfl, hsound.2.1, hsound.2.2.2⟩ ?_
          (by simp [hphase]) (by simp) rfl (fun _ => rfl) ?_ (fun c' hc' => ?_)
        · simp [Connection.isLive, hphase]
        · simp [Connection.isUp]
        · have := h.session_ne_of_live (c := c) (by simp [Connection.isLive, hphase]) hc'
          simp [this, Ne.symm hc']
      · exact absurd hsound.1 hready
  | openFail c =>
      obtain ⟨hphase, rfl⟩ := step_openFail hstep
      have hsound := h.sound c
      simp only [Connection.Sound, hphase] at hsound
      refine h.withdrawn (by simp [Connection.isLive, hphase]) rfl ?_ (by simp [hsound.1]) rfl
      simp [Connection.Sound, hsound.1, Ready.settle]
  | die c =>
      obtain ⟨hphase, rfl⟩ := step_die hstep
      exact h.closing hphase rfl rfl rfl rfl
  | stopped c =>
      obtain ⟨hphase, -, rfl⟩ := step_stopped hstep
      exact h.closing hphase rfl rfl rfl rfl
  | finish c =>
      obtain ⟨hphase, rfl⟩ := step_finish hstep
      have hsound := h.sound c
      simp only [Connection.Sound, hphase] at hsound
      exact h.withdrawn (by simp [Connection.isLive, hphase]) rfl (Or.inl hsound.1) id rfl
  | send r =>
      obtain ⟨-, -, rfl⟩ := step_send hstep
      exact { h with }
  | reply r result =>
      obtain ⟨-, -, rfl⟩ := step_reply hstep
      exact { h with }
  | callRaise r f =>
      obtain ⟨-, rfl⟩ := step_callRaise hstep
      exact { h with }

end Upstream.Owned

/-- **One owned session**: in every run in which no caller is cancelled while its connection
attempt is under way, one connection task at most is open at any time, `_session` is the
session of `_task` whenever `_lock` is free, and no connection task that `_connect_locked`
has left by an exception or a cancellation writes `_session`. -/
theorem oneSession {name : Str} {st : Upstream} {as : List UpstreamAction}
    (hrun : upstream.exec (.init name) as = some st)
    (hnot : upstream.Each (fun st a => ¬Detaches st a) (.init name) as) :
    upstream.Always (fun st => st.OneOpen ∧ st.Published) (.init name) as ∧
      upstream.Each Silent (.init name) as := by
  have hkeep : ∀ st a st', Upstream.Owned st → ¬Detaches st a →
      upstream.step st a = some st' → st'.Owned := fun st a st' h hnot hstep => h.step hnot hstep
  constructor
  · exact System.always_of_each hkeep (fun st h => ⟨h.oneOpen, h.published⟩) (.init name) hnot
  · exact System.each_of_each hkeep (fun st a st' h _ hstep => h.silent hstep) (.init name) hnot
      hrun

/-- The first connection attempt fails and the second one of the same call comes up; another
call goes out on it and is cancelled while it waits for its answer. -/
def attemptsRun : List UpstreamAction :=
  [.enter 0 (.call (lit "create_ticket") []), .acquire 0, .start 0,
    .enter 1 (.call (lit "search_tickets") []), .openFail 0, .connected 0, .acquire 0, .start 1,
    .opened 1 [], .connected 0, .send 0, .acquire 1, .send 1, .cancel 1, .reply 0 ⟨false, []⟩,
    .raced 0]

/-- A cancelled request leaves the connection as it is. -/
theorem oneSession_sample : ∃ st,
    upstream.exec (.init (lit "ticket")) attemptsRun = some st ∧
      (st.callers 0).phase.isReturned = true ∧
      upstream.Always (fun st => st.OneOpen ∧ st.Published) (.init (lit "ticket")) attemptsRun ∧
      upstream.Each Silent (.init (lit "ticket")) attemptsRun := by
  have hrun : (upstream.exec (.init (lit "ticket")) attemptsRun).any (fun st =>
      (st.callers 0).phase.isReturned) = true := by
    decide +kernel
  obtain ⟨st, hst, hreturned⟩ := (Option.any_eq_true _ _).mp hrun
  -- the caller that is cancelled connects nothing
  have hoff : upstream.check (fun st _ => !(st.callers 1).phase.holds) (.init (lit "ticket"))
      attemptsRun = true := by
    decide +kernel
  have hcancel : upstream.Each (fun _ a => ∀ i, a = .cancel i → i = 1) (.init (lit "ticket"))
      attemptsRun :=
    System.each_of_mem fun a ha _ i heq => by simpa [heq, attemptsRun] using ha
  refine ⟨st, hst, hreturned, oneSession hst ?_⟩
  refine System.Each.imp (fun st a h hdetaches => ?_)
    (System.each_and.mpr ⟨System.check_iff.mp hoff, hcancel⟩)
  cases a with
  | cancel i =>
      obtain ⟨retry, c, hphase, -⟩ := hdetaches
      obtain rfl := h.2 i rfl
      simp [hphase, CallerPhase.holds] at h
  | _ => exact hdetaches

/-- A probe is cancelled while its connection attempt is under way, and the next caller
starts another one. -/
def detachedRun : List UpstreamAction :=
  [.enter 0 .ensureSession, .acquire 0, .start 0, .cancel 0, .enter 1 .ensureSession, .acquire 1,
    .start 1]

/-- **Two open connection tasks**: without a condition on the cancellations a backend does
not keep to one connection task. -/
theorem oneSession_fails : ¬∀ (name : Str) (st : Upstream) (as : List UpstreamAction),
    upstream.exec (.init name) as = some st →
    upstream.Always (fun st => st.OneOpen ∧ st.Published) (.init name) as ∧
      upstream.Each Silent (.init name) as := by
  intro hclaim
  have hrun : (upstream.exec (.init (lit "ticket")) detachedRun).any (fun st =>
      (st.connections 0).isOpen && (st.connections 1).isOpen) = true := by
    decide +kernel
  obtain ⟨st, hst, hopen⟩ := (Option.any_eq_true _ _).mp hrun
  simp only [Bool.and_eq_true] at hopen
  have hone := ((hclaim _ st _ hst).1.last hst).1 0 1 hopen.1 hopen.2
  simp at hone

end AgentOpsGateway
