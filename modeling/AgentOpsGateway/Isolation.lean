import AgentOpsGateway.Recovery

/-!
# Isolation of Calls that Share a Session

The calls on a backend share one session. When the attempt of one of them raises, that call
tears the session down, whoever else uses it: the other calls in flight lose their requests
and make them again.

## Main results

* `isolated`: **one call that fails does not harm the others** — each of them is dispatched
  once and returns the reply — in every run in which the failing call does not tear down the
  session while another call waits for its answer.
* `isolated_fails`: with one other call in flight, that call's request is sent to the backend
  twice.
-/

namespace AgentOpsGateway

open Python Transition

/-! ### What is promised -/

/-- Caller `j` has made one request at most, the gateway has not cancelled it, and a return
returns the reply to it. -/
structure Upstream.Unharmed (st : Upstream) (j : ℕ) : Prop where
  once : ∀ r r', r < st.requestCount → r' < st.requestCount → (st.requests r).caller = j →
    (st.requests r').caller = j → r = r'
  kept : ∀ r, r < st.requestCount → (st.requests r).caller = j → (st.requests r).reply ≠ .cancelled
  served : (st.callers j).phase ≠ .raised ∧ ∀ p, (st.callers j).phase = .returned p →
    ∃ r result, p = some result ∧ st.Asks j r ∧ (st.requests r).sent = true ∧
      (st.requests r).reply = .replied result

/-- What happens to the backend while its connection stays alive and only the requests of
caller `A` raise: nobody closes it, no connection dies or fails to come up, a request of
another caller raises only on a connection that is torn down, and a caller may be cancelled
where it waits for the lock or for its answer. -/
def raisesOnly (A : ℕ) (st : Upstream) : UpstreamAction → Bool
  | .enter _ .close | .openFail _ | .die _ => false
  | .cancel i => (st.callers i).phase.waits
  | .callRaise r _ =>
    (st.requests r).caller == A || (st.connections (st.requests r).connection).stop
  | _ => true

/-- The caller waits for the lock to tear down whatever connection there is. -/
def CallerPhase.tearsDown : CallerPhase → Bool
  | .acquiring (.connect true) | .acquiring .giveUp | .acquiring .close => true
  | _ => false

/-- The request waits for its answer, and its caller for the request. -/
def Upstream.awaited (st : Upstream) (r : ℕ) : Bool :=
  st.waiting r &&
    match (st.callers (st.requests r).caller).phase with
    | .racing _ r' _ => r' == r
    | _ => false

/-- A caller takes the lock to tear down the connection while another one waits for the
answer to its request. -/
def disturbs (st : Upstream) : UpstreamAction → Bool
  | .acquire i =>
    (st.callers i).phase.tearsDown &&
      (List.range st.requestCount).any fun r => (st.requests r).caller != i && st.awaited r
  | _ => false

/-! ### The invariant -/

/-- Caller `i` has made no request. -/
def Upstream.Fresh (st : Upstream) (i : ℕ) : Prop :=
  ∀ r, r < st.requestCount → (st.requests r).caller ≠ i

/-- Request `r` is the one request of caller `i`, and nobody has cancelled it. -/
structure Upstream.Serves (st : Upstream) (i r : ℕ) : Prop extends Upstream.Asks st i r where
  only : ∀ r', r' < st.requestCount → (st.requests r').caller = i → r' = r
  kept : (st.requests r).reply ≠ .cancelled

/-- The race of caller `i` on request `r` of connection `owner`, which is intact while the
request waits. -/
structure Upstream.Waits (st : Upstream) (i r owner : ℕ) : Prop extends Upstream.Asks st i r where
  connection : (st.requests r).connection = owner
  kept : (st.requests r).reply ≠ .cancelled
  intact : (st.requests r).reply = .pending → (st.connections owner).isIntact = true

/-- Where caller `i` can stand while only the requests of caller `A` raise: the others come
to their first attempt, and no further. -/
def Upstream.Shares (st : Upstream) (A i : ℕ) : CallerPhase → Prop
  | .idle => i ≠ A → st.Fresh i
  | .acquiring s => s ≠ .close ∧ (i ≠ A → s = .connect false ∧ st.Fresh i)
  | .tearing s _ => s ≠ .close ∧ i = A
  | .connecting retry c =>
    (st.connections c).isIntact = true ∧ (i ≠ A → retry = false ∧ st.Fresh i)
  | .racing retry r owner =>
    st.Waits i r owner ∧
      (i ≠ A → retry = false ∧ st.Serves i r ∧ ∀ f, (st.requests r).reply ≠ .raised f)
  | .returned p => i ≠ A → ∀ tool arguments, (st.callers i).operation = .call tool arguments →
      ∃ r result, p = some result ∧ st.Serves i r ∧ (st.requests r).reply = .replied result
  | .cancelled => i ≠ A → st.Fresh i ∨ ∃ r, st.Serves i r
  | .raised => False

/-- **Isolation.** Every caller stands where it can, the connection in `_task` is intact
unless caller `A` tears it down, and what has been answered has been sent. -/
structure Upstream.Sharing (A : ℕ) (st : Upstream) : Prop where
  callers : ∀ i, st.Shares A i (st.callers i).phase
  ready : ∀ c, (st.connections c).ready ≠ .failed
  tasked : ∀ c, st.task = some c → (st.connections c).isIntact = true ∨
    ∃ s, (st.callers A).phase = .tearing s c
  sent : ∀ r result, (st.requests r).reply = .replied result → (st.requests r).sent = true

/-- Caller `j` needs the connection. -/
def Upstream.Needs (st : Upstream) (j c : ℕ) : Prop :=
  (∃ retry, (st.callers j).phase = .connecting retry c) ∨
    ∃ retry r, (st.callers j).phase = .racing retry r c ∧ (st.requests r).reply = .pending

namespace Upstream

variable {st st' : Upstream} {A i j c r : ℕ}

/-- The requests there were are as they were, and those of caller `j` are all among them. -/
structure Extends (j : ℕ) (st st' : Upstream) : Prop where
  count : st.requestCount ≤ st'.requestCount
  old : ∀ r, r < st.requestCount → st'.requests r = st.requests r
  new : ∀ r, st.requestCount ≤ r → r < st'.requestCount → (st'.requests r).caller ≠ j

/-- Nothing happens to the requests. -/
theorem extends_of_eq (hrequests : st'.requests = st.requests)
    (hcount : st'.requestCount = st.requestCount) : Extends j st st' :=
  ⟨hcount.ge, fun r _ => by rw [hrequests], fun r hle hlt => by omega⟩

/-- The requests of a caller are those it had. -/
theorem Extends.caller (h : Extends j st st') (hr : r < st'.requestCount)
    (hcaller : (st'.requests r).caller = j) :
    r < st.requestCount ∧ (st.requests r).caller = j := by
  by_cases hold : r < st.requestCount
  · exact ⟨hold, h.old r hold ▸ hcaller⟩
  · exact absurd hcaller (h.new r (Nat.le_of_not_lt hold) hr)

/-- A caller without requests still has none. -/
theorem Fresh.frame (h : st.Fresh j) (hext : Extends j st st') : st'.Fresh j := by
  intro r hr hcaller
  obtain ⟨hold, hc⟩ := hext.caller hr hcaller
  exact h r hold hc

/-- A caller with one request still has one. -/
theorem Serves.frame (h : st.Serves j r) (hcaller : st'.callers j = st.callers j)
    (hext : Extends j st st') : st'.Serves j r := by
  obtain ⟨hasks, hsame⟩ := h.toAsks.frame hcaller hext.count fun r hr _ => hext.old r hr
  refine ⟨hasks, fun r' hr' hc' => ?_, hsame ▸ h.kept⟩
  obtain ⟨hold, hc⟩ := hext.caller hr' hc'
  exact h.only r' hold hc

section SetRequest

variable {r' owner : ℕ} {x : Exchange}

/-- A request that changes is not cancelled by it. -/
theorem setRequest_kept (hcancelled : x.reply ≠ .cancelled)
    (hkept : (st.requests r').reply ≠ .cancelled) :
    ((st.setRequest r x).requests r').reply ≠ .cancelled := by
  rw [setRequest_requests]
  split
  · exact hcancelled
  · exact hkept

/-- The requests of others do not matter to a caller without any. -/
theorem Fresh.setRequest (h : st.Fresh i) (hcaller : x.caller = (st.requests r).caller) :
    (st.setRequest r x).Fresh i := by
  intro r' hr'
  rw [setRequest_caller hcaller]
  exact h r' hr'

/-- The one request of a caller stays its one request. -/
theorem Serves.setRequest (h : st.Serves i r') (hcaller : x.caller = (st.requests r).caller)
    (htool : x.tool = (st.requests r).tool) (harguments : x.arguments = (st.requests r).arguments)
    (hcancelled : x.reply ≠ .cancelled) : (st.setRequest r x).Serves i r' := by
  refine ⟨h.toAsks.setRequest hcaller htool harguments, fun q hq hc => h.only q hq ?_,
    setRequest_kept hcancelled h.kept⟩
  rwa [setRequest_caller hcaller] at hc

/-- A caller that waits for its answer still waits, or has got it. -/
theorem Waits.setRequest (h : st.Waits i r' owner)
    (hcaller : x.caller = (st.requests r).caller)
    (hconnection : x.connection = (st.requests r).connection)
    (htool : x.tool = (st.requests r).tool) (harguments : x.arguments = (st.requests r).arguments)
    (hpending : (st.requests r).reply = .pending) (hcancelled : x.reply ≠ .cancelled) :
    (st.setRequest r x).Waits i r' owner := by
  refine ⟨h.toAsks.setRequest hcaller htool harguments, ?_, setRequest_kept hcancelled h.kept,
    fun hp => h.intact ?_⟩
  · rw [setRequest_requests]
    split
    · next heq => rw [hconnection, ← heq, h.connection]
    · exact h.connection
  · rw [setRequest_requests] at hp
    split at hp
    · next heq => rw [heq, hpending]
    · exact hp

end SetRequest

/-- A caller that has not run stands where it stood, as long as the connection it needs
lasts. -/
theorem Shares.frame (h : st.Shares A j (st.callers j).phase)
    (hcaller : st'.callers j = st.callers j) (hext : Extends j st st')
    (hintact : ∀ c, st.Needs j c → (st.connections c).isIntact = true →
      (st'.connections c).isIntact = true) : st'.Shares A j (st'.callers j).phase := by
  rw [hcaller]
  cases hphase : (st.callers j).phase with
  | idle =>
      rw [hphase] at h
      exact fun hj => (h hj).frame hext
  | acquiring s =>
      rw [hphase] at h
      exact ⟨h.1, fun hj => ⟨(h.2 hj).1, (h.2 hj).2.frame hext⟩⟩
  | tearing s c =>
      rw [hphase] at h
      exact h
  | connecting retry c =>
      rw [hphase] at h
      exact ⟨hintact c (Or.inl ⟨retry, hphase⟩) h.1,
        fun hj => ⟨(h.2 hj).1, (h.2 hj).2.frame hext⟩⟩
  | racing retry r owner =>
      rw [hphase] at h
      obtain ⟨hwaits, hother⟩ := h
      obtain ⟨hasks, hsame⟩ := hwaits.toAsks.frame hcaller hext.count fun r hr _ => hext.old r hr
      refine ⟨⟨hasks, hsame ▸ hwaits.connection, hsame ▸ hwaits.kept, fun hpending => ?_⟩,
        fun hj => ?_⟩
      · rw [hsame] at hpending
        exact hintact owner (Or.inr ⟨retry, r, hphase, hpending⟩) (hwaits.intact hpending)
      · obtain ⟨hretry, hserves, hraised⟩ := hother hj
        exact ⟨hretry, hserves.frame hcaller hext, hsame ▸ hraised⟩
  | returned p =>
      rw [hphase] at h
      intro hj tool arguments hop
      rw [hcaller] at hop
      obtain ⟨r, result, hp, hserves, hreply⟩ := h hj tool arguments hop
      exact ⟨r, result, hp, hserves.frame hcaller hext, by rw [hext.old r hserves.made, hreply]⟩
  | raised =>
      rw [hphase] at h
      exact h
  | cancelled =>
      rw [hphase] at h
      intro hj
      rcases h hj with hfresh | ⟨r, hserves⟩
      · exact Or.inl (hfresh.frame hext)
      · exact Or.inr ⟨r, hserves.frame hcaller hext⟩

namespace Sharing

/-- A caller has run. -/
theorem run (h : st.Sharing A) (hothers : ∀ j, j ≠ i → st'.callers j = st.callers j)
    (hi : st'.Shares A i (st'.callers i).phase) (hext : ∀ j, j ≠ i → Extends j st st')
    (hintact : ∀ j, j ≠ i → ∀ c, st.Needs j c → (st.connections c).isIntact = true →
      (st'.connections c).isIntact = true)
    (hready : ∀ c, (st'.connections c).ready ≠ .failed)
    (htasked : ∀ c, st'.task = some c → (st'.connections c).isIntact = true ∨
      ∃ s, (st'.callers A).phase = .tearing s c)
    (hsent : ∀ r result, (st'.requests r).reply = .replied result → (st'.requests r).sent = true) :
    st'.Sharing A := by
  refine ⟨fun j => ?_, hready, htasked, hsent⟩
  by_cases hj : j = i
  · exact hj ▸ hi
  · exact (h.callers j).frame (hothers j hj) (hext j hj) (hintact j hj)

/-- Caller `i` has run outside the sections, and has made no request. -/
theorem outside (h : st.Sharing A) (hout : Outside i st st')
    (hfree : (st.callers i).phase.holds = false) (hi : st'.Shares A i (st'.callers i).phase)
    (hrequests : st'.requests = st.requests) (hcount : st'.requestCount = st.requestCount) :
    st'.Sharing A := by
  refine h.run hout.others hi (fun j _ => extends_of_eq hrequests hcount)
    (fun j _ c _ hc => by rwa [hout.connections]) (fun c => ?_) (fun c hc => ?_) ?_
  · rw [hout.connections]
    exact h.ready c
  · rw [hout.task] at hc
    rw [hout.connections]
    refine (h.tasked c hc).imp_right ?_
    rintro ⟨s, hA⟩
    have hne : A ≠ i := by
      rintro rfl
      simp [hA, CallerPhase.holds] at hfree
    exact ⟨s, by rw [hout.others A hne, hA]⟩
  · rw [hrequests]
    exact h.sent

/-- A connection changes and stays intact if it was. -/
theorem connection (h : st.Sharing A) {k : Connection} (hcallers : st'.callers = st.callers)
    (hrequests : st'.requests = st.requests) (hcount : st'.requestCount = st.requestCount)
    (hconnections : st'.connections = Function.update st.connections c k)
    (htask : st'.task = st.task) (hready : k.ready ≠ .failed)
    (hintact : (st.connections c).isIntact = true → k.isIntact = true) : st'.Sharing A := by
  have hof : ∀ c', st'.connections c' = if c' = c then k else st.connections c' := by
    intro c'
    rw [hconnections]
    exact Function.update_apply _ _ _ _
  have hkept : ∀ c', (st.connections c').isIntact = true →
      (st'.connections c').isIntact = true := by
    intro c' hc'
    rw [hof]
    split
    · next heq => exact hintact (heq ▸ hc')
    · exact hc'
  refine ⟨fun j => ?_, fun c' => ?_, fun c' hc' => ?_, ?_⟩
  · exact (h.callers j).frame (by rw [hcallers]) (extends_of_eq hrequests hcount)
      fun c' _ => hkept c'
  · rw [hof]
    split
    · exact hready
    · exact h.ready c'
  · rw [htask] at hc'
    rw [hcallers]
    exact (h.tasked c' hc').imp_left (hkept c')
  · rw [hrequests]
    exact h.sent

/-- The lock does not matter, and `_task` may be any intact connection. -/
theorem same (h : st.Sharing A) (hcallers : st'.callers = st.callers)
    (hconnections : st'.connections = st.connections) (hrequests : st'.requests = st.requests)
    (hcount : st'.requestCount = st.requestCount)
    (htask : ∀ c, st'.task = some c → st.task = some c ∨ (st.connections c).isIntact = true) :
    st'.Sharing A := by
  refine ⟨fun j => ?_, ?_, fun c hc => ?_, ?_⟩
  · exact (h.callers j).frame (by rw [hcallers]) (extends_of_eq hrequests hcount)
      fun c _ hc => by rwa [hconnections]
  · rw [hconnections]
    exact h.ready
  · rw [hconnections, hcallers]
    rcases htask c hc with hold | hintact
    · exact h.tasked c hold
    · exact Or.inl hintact
  · rw [hrequests]
    exact h.sent

/-- While nobody is in a section, the connection in `_task` is intact. -/
theorem task_isIntact (h : st.Sharing A) (ho : st.Owned) (hlock : st.lock = none)
    (htask : st.task = some c) : (st.connections c).isIntact = true := by
  rcases h.tasked c htask with hc | ⟨s, hA⟩
  · exact hc
  · have := ho.free_of_unlocked hlock A
    simp [hA, CallerPhase.holds] at this

/-- A caller goes on with an intact connection. -/
theorem proceed (h : st.Sharing A) {retry : Bool} (hsession : st.session = some c)
    (htask : st.task = some c) (hc : (st.connections c).isIntact = true)
    (hi : i ≠ A → retry = false ∧ st.Fresh i) : (st.proceed i retry).Sharing A := by
  have hreturn : (∀ tool arguments, (st.callers i).operation ≠ .call tool arguments) →
      (st.proceed i retry).Sharing A := by
    intro hop
    rw [proceed_of_not_call retry hop]
    refine h.run (aside_move st _).others ?_ (fun j _ => extends_of_eq rfl rfl)
      (fun _ _ _ _ hc' => hc') h.ready (fun c' hc' => ?_) h.sent
    · rw [move_phase]
      intro _ tool arguments hcall
      rw [show ((st.move i (.returned none)).callers i).operation = (st.callers i).operation by
        simp [Upstream.move]] at hcall
      exact absurd hcall (hop tool arguments)
    · obtain rfl : c = c' := Option.some.inj (htask.symm.trans hc')
      exact Or.inl hc
  cases hop : (st.callers i).operation with
  | ensureSession => exact hreturn (by simp [hop])
  | close => exact hreturn (by simp [hop])
  | call tool arguments =>
      rcases proceed_call retry hop with
        ⟨hnone, -⟩ | ⟨session, hsome, ⟨hnone, -⟩ | ⟨owner, howner, heq⟩⟩
      · simp [hsession] at hnone
      · simp [htask] at hnone
      · obtain rfl : c = session := Option.some.inj (hsession.symm.trans hsome)
        obtain rfl : c = owner := Option.some.inj (htask.symm.trans howner)
        rw [heq]
        -- the new request is the one of caller `i`
        have hnew : ((st.dispatch i c tool arguments).move i
            (.racing retry st.requestCount c)).requests st.requestCount =
              ⟨i, c, tool, arguments, false, .pending⟩ := Function.update_self _ _ _
        have hold : ∀ r, r ≠ st.requestCount → ((st.dispatch i c tool arguments).move i
            (.racing retry st.requestCount c)).requests r = st.requests r := fun r hr =>
          Function.update_of_ne hr _ _
        have hasks : ((st.dispatch i c tool arguments).move i
            (.racing retry st.requestCount c)).Asks i st.requestCount :=
          ⟨Nat.lt_succ_self _, by rw [hnew],
            by rw [hnew]; simp [Upstream.move, Upstream.dispatch, hop]⟩
        refine h.run (fun j hj => Function.update_of_ne hj _ _) ?_ (fun j hj => ⟨Nat.le_succ _,
          fun r hr => hold r hr.ne, fun r hle hlt => ?_⟩) (fun _ _ _ _ hc' => hc') h.ready
          (fun c' hc' => ?_) (fun r result hreply => ?_)
        · rw [move_phase]
          refine ⟨⟨hasks, by rw [hnew], by simp [hnew], fun _ => hc⟩, fun hne => ?_⟩
          obtain ⟨hretry, hfresh⟩ := hi hne
          refine ⟨hretry, ⟨hasks, fun r' hr' hcaller => ?_, by simp [hnew]⟩, by simp [hnew]⟩
          by_contra hr
          rw [hold r' hr] at hcaller
          exact hfresh r' (Nat.lt_of_le_of_ne (Nat.lt_succ_iff.mp hr') hr) hcaller
        · obtain rfl : r = st.requestCount := Nat.le_antisymm (Nat.lt_succ_iff.mp hlt) hle
          rw [hnew]
          exact hj.symm
        · obtain rfl : c = c' := Option.some.inj (htask.symm.trans hc')
          exact Or.inl hc
        · by_cases hr : r = st.requestCount
          · simp [hr, hnew] at hreply
          · rw [hold r hr] at hreply ⊢
            exact h.sent r result hreply

/-- A caller ends a teardown. -/
theorem torn (h : st.Sharing A) {s : Section} (hs : s ≠ .close)
    (hi : i ≠ A → s = .connect false ∧ st.Fresh i) : (st.torn i s).Sharing A := by
  cases s with
  | close => exact absurd rfl hs
  | giveUp =>
      have hA : i = A := by
        by_contra hne
        simpa using (hi hne).1
      refine h.run (aside_torn st .giveUp).others ?_ (fun j _ => extends_of_eq rfl rfl)
        (fun _ _ _ _ hc' => hc') h.ready
        (fun c hc => by simp [Upstream.torn, release, Upstream.move] at hc) h.sent
      rw [show ((st.torn i .giveUp).callers i).phase =
        .returned (some (backendUnavailable st.name)) from move_phase _ i _]
      exact fun hne => absurd hA hne
  | connect retry =>
      have hof : ∀ c, (st.torn i (.connect retry)).connections c = if c = st.connectionCount then
          ⟨.created, .pending, false, false, false⟩ else st.connections c := fun c =>
        Function.update_apply _ _ _ _
      refine h.run (aside_torn st (.connect retry)).others ?_ (fun j _ => extends_of_eq rfl rfl)
        (fun _ _ c _ hc => ?_) (fun c => ?_)
        (fun c hc => by simp [Upstream.torn, connectLocked, Upstream.move] at hc) h.sent
      · rw [show ((st.torn i (.connect retry)).callers i).phase =
          .connecting retry st.connectionCount from move_phase _ i _]
        refine ⟨by rw [hof, if_pos rfl]; rfl, fun hne => ?_⟩
        obtain ⟨hsection, hfresh⟩ := hi hne
        exact ⟨by simpa using hsection, hfresh⟩
      · rw [hof]
        split
        · rfl
        · exact hc
      · rw [hof]
        split
        · simp
        · exact h.ready c

/-- A caller that gets the lock. -/
theorem acquired (h : st.Sharing A) (ho : st.Owned) {s : Section}
    (hphase : (st.callers i).phase = .acquiring s) (hlock : st.lock = none)
    (hnot : disturbs st (.acquire i) = false) : (st.acquired i s).Sharing A := by
  have hi := h.callers i
  rw [hphase] at hi
  obtain ⟨hs, hi⟩ := hi
  have hl : ({ st with lock := some i } : Upstream).Sharing A :=
    h.same rfl rfl rfl rfl fun _ hc => Or.inl hc
  rcases acquired_cases st i s with ⟨rfl, hsession, heq⟩ | ⟨hsection, ⟨-, heq⟩ | ⟨c, htask,
    ⟨hfinished, -⟩ | ⟨-, heq⟩⟩⟩
  · obtain ⟨c, hc⟩ := Option.isSome_iff_exists.mp hsession
    have htask := ho.published hlock c hc
    rw [heq]
    exact h.proceed hc htask (h.task_isIntact ho hlock htask) fun hne => ⟨rfl, (hi hne).2⟩
  · rw [heq]
    exact hl.torn hs hi
  · exact absurd hfinished (ho.not_lost_of_isIntact (h.task_isIntact ho hlock htask)).2.2.2
  · rw [heq]
    -- only a caller whose attempt has failed tears down a connection that is intact
    have hne : s ≠ .connect false := fun heq => hsection
      ⟨heq, by simp [ho.session_of_isIntact (h.task_isIntact ho hlock htask) (ho.tasked c htask)]⟩
    obtain rfl : i = A := by
      by_contra hA
      exact hne (hi hA).1
    have htears : (st.callers i).phase.tearsDown = true := by
      rw [hphase]
      rcases s with (_ | _) | _ | _
      · exact absurd rfl hne
      · rfl
      · rfl
      · rfl
    simp only [disturbs, htears, Bool.true_and, List.any_eq_false, List.mem_range] at hnot
    refine hl.run (i := i) (fun j hj => Function.update_of_ne hj _ _) ?_
      (fun j _ => extends_of_eq rfl rfl) (fun j hj c' hneeds hc' => ?_) (fun c' => ?_)
      (fun c' hc' => ?_) h.sent
    · rw [move_phase]
      exact ⟨hs, rfl⟩
    · exfalso
      rcases hneeds with ⟨retry, hconnecting⟩ | ⟨retry, r, hracing, hpending⟩
      · have := ho.free_of_unlocked hlock j
        rw [show (st.callers j).phase = .connecting retry c' from hconnecting] at this
        simp [CallerPhase.holds] at this
      · have hracing : (st.callers j).phase = .racing retry r c' := hracing
        have hpending : (st.requests r).reply = .pending := hpending
        have hj' := h.callers j
        rw [hracing] at hj'
        obtain ⟨hwaits, -⟩ := hj'
        refine hnot r hwaits.made ?_
        simp [awaited, Upstream.waiting, hwaits.made, hpending, hwaits.caller, hracing, hj]
    · rw [move_connections, setStop_ready]
      exact h.ready c'
    · obtain rfl : c = c' := Option.some.inj (htask.symm.trans hc')
      exact Or.inr ⟨s, by rw [move_phase]⟩

/-- A caller whose connection has come up. -/
theorem connected (h : st.Sharing A) (ho : st.Owned) {retry : Bool}
    (hphase : (st.callers i).phase = .connecting retry c)
    (hready : (st.connections c).ready = .ok) :
    ({ st with task := some c, lock := none }.proceed i retry).Sharing A := by
  have hi := h.callers i
  rw [hphase] at hi
  obtain ⟨hc, hi⟩ := hi
  have hl : ({ st with task := some c, lock := none } : Upstream).Sharing A :=
    h.same rfl rfl rfl rfl fun c' hc' => by
      obtain rfl : c = c' := Option.some.inj hc'
      exact Or.inr hc
  exact hl.proceed (ho.session_of_isIntact hc hready) rfl hc hi

/-- A race that ends. -/
theorem raced (h : st.Sharing A) (ho : st.Owned)
    (hstep : upstream.step st (.raced i) = some st') : st'.Sharing A := by
  obtain ⟨retry, r, owner, hphase, hcases⟩ := step_raced hstep
  have hi := h.callers i
  have hfree : (st.callers i).phase.holds = false := by simp [hphase, CallerPhase.holds]
  rw [hphase] at hi
  obtain ⟨hwaits, hother⟩ := hi
  rcases hcases with ⟨result, hreply, rfl⟩ | ⟨f, hreply, rfl⟩ | ⟨hpending, hfinished, -⟩
  · refine h.outside (outside_answer st result) hfree ?_ rfl rfl
    rw [show ((st.answer i result).callers i).phase = .returned (some result) by simp [answer]]
    intro hne tool arguments _
    obtain ⟨-, hserves, -⟩ := hother hne
    refine ⟨r, result, rfl, ⟨⟨hserves.made, hserves.caller, ?_⟩, hserves.only, hserves.kept⟩,
      hreply⟩
    simpa [answer] using hserves.operation
  · refine h.outside (outside_fail st retry _) hfree ?_ rfl rfl
    rw [show ((st.fail i retry f.attempt).callers i).phase =
      .acquiring (if retry then .giveUp else .connect true) by simp [Upstream.fail]]
    refine ⟨by cases retry <;> simp, fun hne => ?_⟩
    exact absurd hreply ((hother hne).2.2 f)
  · exact absurd hfinished (ho.not_lost_of_isIntact (hwaits.intact hpending)).2.2.2

/-- A request that waits changes. It raises only if it is one of caller `A`, or its
connection is no longer intact. -/
theorem request (h : st.Sharing A) {x : Exchange} (hcaller : x.caller = (st.requests r).caller)
    (hconnection : x.connection = (st.requests r).connection)
    (htool : x.tool = (st.requests r).tool) (harguments : x.arguments = (st.requests r).arguments)
    (hpending : (st.requests r).reply = .pending) (hcancelled : x.reply ≠ .cancelled)
    (hsent : ∀ result, x.reply = .replied result → x.sent = true)
    (hraised : ∀ f, x.reply = .raised f → (st.requests r).caller = A ∨
      (st.connections (st.requests r).connection).isIntact = false) :
    (st.setRequest r x).Sharing A := by
  have hof := st.setRequest_requests r x
  have hfresh : ∀ i, st.Fresh i → (st.setRequest r x).Fresh i := fun i hi =>
    hi.setRequest hcaller
  have hserves : ∀ i r', st.Serves i r' → (st.setRequest r x).Serves i r' := fun i r' hi =>
    hi.setRequest hcaller htool harguments hcancelled
  refine ⟨fun j => ?_, h.ready, h.tasked, fun r' result hr' => ?_⟩
  · have hj := h.callers j
    change (st.setRequest r x).Shares A j (st.callers j).phase
    cases hphase : (st.callers j).phase with
    | idle =>
        rw [hphase] at hj
        exact fun hne => hfresh j (hj hne)
    | acquiring s =>
        rw [hphase] at hj
        exact ⟨hj.1, fun hne => ⟨(hj.2 hne).1, hfresh j (hj.2 hne).2⟩⟩
    | tearing s c =>
        rw [hphase] at hj
        exact hj
    | connecting retry c =>
        rw [hphase] at hj
        exact ⟨hj.1, fun hne => ⟨(hj.2 hne).1, hfresh j (hj.2 hne).2⟩⟩
    | racing retry r' owner =>
        rw [hphase] at hj
        obtain ⟨hwaits, hother⟩ := hj
        refine ⟨hwaits.setRequest hcaller hconnection htool harguments hpending hcancelled,
          fun hne => ?_⟩
        obtain ⟨hretry, hs, hnot⟩ := hother hne
        refine ⟨hretry, hserves j r' hs, fun f hf => ?_⟩
        rw [hof] at hf
        split at hf
        · next heq =>
            -- a request that raises is one of `A`, or its connection is gone
            subst heq
            rcases hraised f hf with hA | hspoilt
            · exact hne (hwaits.caller ▸ hA)
            · rw [hwaits.connection, hwaits.intact hpending] at hspoilt
              simp at hspoilt
        · exact hnot f hf
    | returned p =>
        rw [hphase] at hj
        intro hne tool arguments hop
        obtain ⟨r', result, hp, hs, hreply⟩ := hj hne tool arguments hop
        refine ⟨r', result, hp, hserves j r' hs, ?_⟩
        rw [hof, if_neg, hreply]
        rintro rfl
        simp [hpending] at hreply
    | raised =>
        rw [hphase] at hj
        exact hj
    | cancelled =>
        rw [hphase] at hj
        intro hne
        rcases hj hne with hf | ⟨r', hs⟩
        · exact Or.inl (hfresh j hf)
        · exact Or.inr ⟨r', hserves j r' hs⟩
  · rw [hof] at hr' ⊢
    split at hr'
    · next heq =>
        rw [if_pos heq]
        exact hsent result hr'
    · next hne =>
        rw [if_neg hne]
        exact h.sent r' result hr'

/-- A caller that is cancelled where it waits. -/
theorem cancel (h : st.Sharing A) (hwaits : (st.callers i).phase.waits = true)
    (hstep : upstream.step st (.cancel i) = some st') : st'.Sharing A := by
  have hi := h.callers i
  rcases step_cancel hstep with ⟨⟨s, hphase⟩ | ⟨retry, r, owner, hphase⟩, rfl⟩ | ⟨s, c, hphase, -⟩ |
    ⟨retry, c, hphase, -⟩
  · rw [hphase] at hi
    refine h.outside (outside_move st rfl) (by simp [hphase, CallerPhase.holds]) ?_ rfl rfl
    rw [move_phase]
    exact fun hne => Or.inl ((hi.2 hne).2.frame (extends_of_eq rfl rfl))
  · rw [hphase] at hi
    refine h.outside (outside_move st rfl) (by simp [hphase, CallerPhase.holds]) ?_ rfl rfl
    rw [move_phase]
    intro hne
    have hserves := (hi.2 hne).2.1
    have hoperation := hserves.operation
    exact Or.inr ⟨r, ⟨hserves.made, hserves.caller, by simpa [Upstream.move] using hoperation⟩,
      hserves.only, hserves.kept⟩
  · simp [hphase, CallerPhase.waits] at hwaits
  · simp [hphase, CallerPhase.waits] at hwaits

/-- **One step of an isolated run.** -/
theorem step (h : st.Sharing A) (ho : st.Owned) {a : UpstreamAction}
    (ha : raisesOnly A st a = true) (hnot : disturbs st a = false)
    (hstep : upstream.step st a = some st') : st'.Sharing A := by
  cases a with
  | enter i op =>
      obtain ⟨hphase, rfl⟩ := step_enter hstep
      have hi := h.callers i
      rw [hphase] at hi
      have hsection : op.section = .connect false := by
        cases op with
        | close => simp [raisesOnly] at ha
        | ensureSession => rfl
        | call tool arguments => rfl
      refine h.outside (outside_enter st op) (by simp [hphase, CallerPhase.holds]) ?_ rfl rfl
      simp only [Function.update_self, hsection]
      exact ⟨by simp, fun hne => ⟨rfl, hi hne⟩⟩
  | acquire i =>
      obtain ⟨s, hphase, hlock, rfl⟩ := step_acquire hstep
      exact h.acquired ho hphase hlock hnot
  | torn i =>
      obtain ⟨s, c, hphase, -, rfl⟩ := step_torn hstep
      have hi := h.callers i
      rw [hphase] at hi
      exact h.torn hi.1 fun hne => absurd hi.2 hne
  | connected i =>
      obtain ⟨retry, c, hphase, ⟨hready, rfl⟩ | ⟨hready, -⟩⟩ := step_connected hstep
      · exact h.connected ho hphase hready
      · exact absurd hready (h.ready c)
  | raced i => exact h.raced ho hstep
  | cancel i => exact h.cancel ha hstep
  | start c =>
      obtain ⟨hphase, rfl⟩ := step_start hstep
      refine h.connection rfl rfl rfl rfl rfl (h.ready c) fun hc => ?_
      simpa [Connection.isIntact, hphase] using hc
  | opened c tools =>
      obtain ⟨hphase, hcases⟩ := step_opened hstep
      have hsound := ho.sound c
      simp only [Connection.Sound, hphase] at hsound
      obtain ⟨-, rfl⟩ | ⟨hready, -⟩ := hcases
      · refine h.connection rfl rfl rfl rfl rfl (by simp) fun hc => ?_
        simpa [Connection.isIntact, hphase] using hc
      · exact absurd hsound.1 hready
  | openFail c => simp [raisesOnly] at ha
  | die c => simp [raisesOnly] at ha
  | stopped c =>
      obtain ⟨-, hstop, rfl⟩ := step_stopped hstep
      refine h.connection rfl rfl rfl rfl rfl (h.ready c) fun hc => ?_
      simp [Connection.isIntact, hstop] at hc
  | finish c =>
      obtain ⟨hphase, rfl⟩ := step_finish hstep
      refine h.connection rfl rfl rfl rfl rfl (h.ready c) fun hc => ?_
      simp [Connection.isIntact, hphase] at hc
  | send r =>
      obtain ⟨hwaiting, -, rfl⟩ := step_send hstep
      have hpending := pending_of_waiting hwaiting
      exact h.request rfl rfl rfl rfl hpending (by simp [hpending]) (by simp) (by simp [hpending])
  | reply r result =>
      obtain ⟨hwaiting, hanswerable, rfl⟩ := step_reply hstep
      simp only [answerable, Bool.and_eq_true] at hanswerable
      exact h.request rfl rfl rfl rfl (pending_of_waiting hwaiting) (by simp)
        (fun _ _ => hanswerable.1) (by simp)
  | callRaise r f =>
      obtain ⟨hwaiting, rfl⟩ := step_callRaise hstep
      refine h.request rfl rfl rfl rfl (pending_of_waiting hwaiting) (by simp) (by simp)
        fun _ _ => ?_
      simp only [raisesOnly, Bool.or_eq_true, beq_iff_eq] at ha
      exact ha.imp_right fun hstop => by simp [Connection.isIntact, hstop]

/-- A new object. -/
theorem init (name : Str) : (Upstream.init name).Sharing A where
  callers i := fun _ r hr => by simp [Upstream.init] at hr
  ready c := by simp [Upstream.init]
  tasked c hc := by simp [Upstream.init] at hc
  sent r result hr := by simp [Upstream.init] at hr

/-- The races of an isolated run. -/
theorem raced_of (h : st.Sharing A) : st.Raced := by
  intro i retry r owner hphase
  have hi := h.callers i
  rw [hphase] at hi
  exact ⟨hi.1.made, hi.1.connection, hi.1.kept⟩

/-- A caller with one request is unharmed when what it has returned is the reply. -/
theorem unharmed_of_serves (h : st.Serves j r) (hraised : (st.callers j).phase ≠ .raised)
    (hreturned : ∀ p, (st.callers j).phase = .returned p →
      ∃ result, p = some result ∧ (st.requests r).sent = true ∧
        (st.requests r).reply = .replied result) : st.Unharmed j := by
  refine ⟨fun q q' hq hq' hc hc' => ?_, fun q hq hc => ?_, hraised, fun p hp => ?_⟩
  · rw [h.only q hq hc, h.only q' hq' hc']
  · rw [h.only q hq hc]
    exact h.kept
  · obtain ⟨result, heq, hsent, hreply⟩ := hreturned p hp
    exact ⟨r, result, heq, h.toAsks, hsent, hreply⟩

/-- A caller without requests is unharmed while it has not returned. -/
theorem unharmed_of_fresh (h : st.Fresh j) (hraised : (st.callers j).phase ≠ .raised)
    (hreturned : ∀ p, (st.callers j).phase ≠ .returned p) : st.Unharmed j :=
  ⟨fun q _ hq _ hc _ => absurd hc (h q hq), fun q hq hc => absurd hc (h q hq), hraised,
    fun p hp => absurd hp (hreturned p)⟩

/-- The other calls are unharmed. -/
theorem unharmed (h : st.Sharing A) (hj : j ≠ A) {tool : Str} {arguments : Arguments}
    (hop : (st.callers j).operation = .call tool arguments) : st.Unharmed j := by
  have hphase := h.callers j
  cases hp : (st.callers j).phase with
  | idle =>
      rw [hp] at hphase
      exact unharmed_of_fresh (hphase hj) (by simp [hp]) (by simp [hp])
  | acquiring s =>
      rw [hp] at hphase
      exact unharmed_of_fresh (hphase.2 hj).2 (by simp [hp]) (by simp [hp])
  | tearing s c =>
      rw [hp] at hphase
      exact absurd hphase.2 hj
  | connecting retry c =>
      rw [hp] at hphase
      exact unharmed_of_fresh (hphase.2 hj).2 (by simp [hp]) (by simp [hp])
  | racing retry r owner =>
      rw [hp] at hphase
      exact unharmed_of_serves (hphase.2 hj).2.1 (by simp [hp]) (by simp [hp])
  | returned p =>
      rw [hp] at hphase
      obtain ⟨r, result, heq, hserves, hreply⟩ := hphase hj tool arguments hop
      refine unharmed_of_serves hserves (by simp [hp]) fun q hq => ?_
      obtain rfl : p = q := CallerPhase.returned.inj (hp.symm.trans hq)
      exact ⟨result, heq, h.sent r result hreply, hreply⟩
  | raised =>
      rw [hp] at hphase
      exact hphase.elim
  | cancelled =>
      rw [hp] at hphase
      rcases hphase hj with hfresh | ⟨r, hserves⟩
      · exact unharmed_of_fresh hfresh (by simp [hp]) (by simp [hp])
      · exact unharmed_of_serves hserves (by simp [hp]) (by simp [hp])

end Sharing

end Upstream

/-- Work that goes on raises nothing, and disturbs nobody. -/
theorem raisesOnly_of_goesOn {A : ℕ} {st : Upstream} {a : UpstreamAction}
    (h : a.goesOn = true) : raisesOnly A st a = true ∧ disturbs st a = false := by
  cases a <;> simp_all [UpstreamAction.goesOn, raisesOnly, disturbs]

/-- **Isolation**: in every run in which no caller takes the lock to tear down the connection
while another one waits for its answer, every call but the one whose requests raise is
dispatched once and returns the reply; a call that has not ended, or the work it waits for,
can always go on; and the run ends. -/
theorem isolated {name : Str} {A : ℕ} {st : Upstream} {as : List UpstreamAction}
    (hrun : upstream.exec (.init name) as = some st)
    (hraises : upstream.Each (fun st a => raisesOnly A st a = true) (.init name) as)
    (hapart : upstream.Each (fun st a => disturbs st a = false) (.init name) as) :
    upstream.Always (fun st => ∀ j tool arguments, j ≠ A →
        (st.callers j).operation = .call tool arguments → st.Unharmed j) (.init name) as ∧
      (∀ i, (st.callers i).phase.isActive = true → ∃ a st', upstream.step st a = some st' ∧
        (a.goesOn = true ∨ a = .acquire i) ∧ raisesOnly A st a = true ∧ disturbs st a = false) ∧
      ∀ S : Finset ℕ, (∀ i op, .enter i op ∈ as → i ∈ S) → as.length ≤ 23 * S.card := by
  have hkeep : ∀ st a st', (st.Owned ∧ st.Sharing A) →
      (raisesOnly A st a = true ∧ disturbs st a = false) →
      upstream.step st a = some st' → st'.Owned ∧ st'.Sharing A := by
    rintro st a st' ⟨ho, hs⟩ ⟨ha, hapart⟩ hstep
    refine ⟨ho.step ?_ hstep, hs.step ho ha hapart hstep⟩
    cases a with
    | cancel i =>
        rintro ⟨retry, c, hphase, -⟩
        simp [raisesOnly, hphase, CallerPhase.waits] at ha
    | _ => exact id
  have hinit : (Upstream.init name).Owned ∧ (Upstream.init name).Sharing A :=
    ⟨.init name, .init name⟩
  have heach := System.each_and.mpr ⟨hraises, hapart⟩
  refine ⟨System.always_of_each hkeep (fun st h j tool arguments hj hop => h.2.unharmed hj hop)
    hinit heach, fun i hactive => ?_, fun S hentered => ?_⟩
  · obtain ⟨ho, hs⟩ := System.invariant hkeep hinit heach hrun
    obtain ⟨a, st', hstep, hgoes | ⟨rfl, hidle⟩⟩ := ho.progress hs.raced_of hactive
    · exact ⟨a, st', hstep, Or.inl hgoes, raisesOnly_of_goesOn hgoes⟩
    · refine ⟨.acquire i, st', hstep, Or.inr rfl, rfl, ?_⟩
      -- nobody waits for a request
      have hawaited : ∀ r, st.awaited r = false := by
        intro r
        simp only [Upstream.awaited]
        split
        · next retry r' owner hj => exact absurd hj (hidle _ _ _ _)
        · simp
      simp [disturbs, hawaited]
  · exact Upstream.length_le hkeep (fun st h => ⟨h.1, h.2.raced_of⟩) (fun st i h => h.1) hinit heach
      hrun hentered

/-- Call 0 raises and reconnects after call 1 has its answer. -/
def isolatedRun : List UpstreamAction :=
  [.enter 0 (.call (lit "create_ticket") []), .acquire 0, .start 0, .opened 0 [], .connected 0,
    .enter 1 (.call (lit "create_ticket") []), .acquire 1, .send 0, .send 1,
    .callRaise 0 .rpcError, .raced 0, .reply 1 ⟨false, []⟩, .raced 1, .acquire 0]

/-- An isolated run. -/
theorem isolated_sample : ∃ st,
    upstream.exec (.init (lit "ticket")) isolatedRun = some st ∧
      upstream.Always (fun st => ∀ j tool arguments, j ≠ 0 →
        (st.callers j).operation = .call tool arguments → st.Unharmed j) (.init (lit "ticket"))
          isolatedRun ∧
      (∀ i, (st.callers i).phase.isActive = true → ∃ a st', upstream.step st a = some st' ∧
        (a.goesOn = true ∨ a = .acquire i) ∧ raisesOnly 0 st a = true ∧ disturbs st a = false) ∧
      ∀ S : Finset ℕ, (∀ i op, .enter i op ∈ isolatedRun → i ∈ S) →
        isolatedRun.length ≤ 23 * S.card := by
  have hrun : (upstream.exec (.init (lit "ticket")) isolatedRun).isSome = true := by
    decide +kernel
  obtain ⟨st, hst⟩ := Option.isSome_iff_exists.mp hrun
  have hraises : upstream.check (raisesOnly 0) (.init (lit "ticket")) isolatedRun = true := by
    decide +kernel
  have hapart : upstream.check (fun st a => !disturbs st a) (.init (lit "ticket"))
      isolatedRun = true := by
    decide +kernel
  refine ⟨st, hst, isolated hst (System.check_iff.mp hraises) ?_⟩
  simpa using System.check_iff.mp hapart

/-- Call 0 raises and tears down the session while call 1 waits for its answer. Call 1 loses
its request and makes it again. -/
def disturbedRun : List UpstreamAction :=
  [.enter 0 (.call (lit "create_ticket") []), .acquire 0, .start 0, .opened 0 [], .connected 0,
    .enter 1 (.call (lit "create_ticket") []), .acquire 1, .send 0, .send 1,
    .callRaise 0 .rpcError, .raced 0, .acquire 0, .stopped 0, .finish 0, .raced 1, .torn 0,
    .start 1, .opened 1 [], .connected 0, .send 2, .reply 2 ⟨false, []⟩, .raced 0, .acquire 1,
    .stopped 1, .finish 1, .torn 1, .start 2, .opened 2 [], .connected 1, .send 3]

/-- **A call is executed twice**: the backend has answered every request but the one that
raised, and it has received the request of call 1 twice. -/
theorem isolated_fails : ¬∀ (name : Str) (A : ℕ) (st : Upstream) (as : List UpstreamAction),
    upstream.exec (.init name) as = some st →
    upstream.Each (fun st a => raisesOnly A st a = true) (.init name) as →
    upstream.Always (fun st => ∀ j tool arguments, j ≠ A →
      (st.callers j).operation = .call tool arguments → st.Unharmed j) (.init name) as := by
  intro hclaim
  have hrun : (upstream.exec (.init (lit "ticket")) disturbedRun).any (fun st =>
      (st.callers 1).operation.isCall && ([1, 3].all fun r => decide (r < st.requestCount) &&
        (st.requests r).caller == 1 && (st.requests r).sent)) = true := by
    decide +kernel
  obtain ⟨st, hst, hcheck⟩ := (Option.any_eq_true _ _).mp hrun
  have hraises : upstream.check (raisesOnly 0) (.init (lit "ticket")) disturbedRun = true := by
    decide +kernel
  have hunharmed := (hclaim _ 0 st _ hst (System.check_iff.mp hraises)).last hst 1
  simp only [Bool.and_eq_true, List.all_cons, List.all_nil, Bool.and_true, decide_eq_true_eq,
    beq_iff_eq] at hcheck
  obtain ⟨hcalls, ⟨⟨hmade, hcaller⟩, -⟩, ⟨hmade', hcaller'⟩, -⟩ := hcheck
  cases hop : (st.callers 1).operation with
  | call tool arguments =>
      have := (hunharmed tool arguments (by decide) hop).once 1 3 hmade hmade' hcaller hcaller'
      simp at this
  | _ => simp [hop, Operation.isCall] at hcalls

end AgentOpsGateway
