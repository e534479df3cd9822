import Mathlib.Algebra.Order.Ring.Rat
import Mathlib.Logic.Function.Basic
import AgentOpsGateway.PyStr
import AgentOpsGateway.TokenBucket

/-!
# The Rate Limiter

One token bucket for each agent, refilled by the time since the agent was last seen and
never above the capacity. `now` is the reading of its clock; tokens and times are exact.

## Main results

* `RateLimiter.allow_eq`: `allow` is a poll of the bucket of its agent, and touches no other.
* `RateLimiter.answersTo_eq`: what an agent is answered is what its own bucket answers to its
  own calls.
* `RateLimiter.answers_of_sublist`: denied calls leave no trace.
* `allow_exact`: **the law of the limiter** over all interleavings of calls.
-/

namespace AgentOpsGateway

open Python

/-- `RateLimiter`. -/
structure RateLimiter where
  capacity : ℤ
  refillPerSec : ℚ
  /-- What `_now()` returns. -/
  now : ℚ
  /-- `_buckets`: tokens and time last seen. -/
  buckets : Str → Option (ℚ × ℚ)

/-- `allow(agent)`: take a token, if there is one. -/
def RateLimiter.allow (l : RateLimiter) (agent : Str) : Bool × RateLimiter :=
  let (tokens, last) := (l.buckets agent).getD (l.capacity, l.now)
  let tokens := min (l.capacity : ℚ) (tokens + (l.now - last) * l.refillPerSec)
  if tokens < 1 then
    (false, { l with buckets := Function.update l.buckets agent (some (tokens, l.now)) })
  else (true, { l with buckets := Function.update l.buckets agent (some (tokens - 1, l.now)) })

namespace RateLimiter

/-- `RateLimiter(capacity, refill_per_sec)`: nobody has been seen yet. -/
def init (capacity : ℤ) (refillPerSec now : ℚ) : RateLimiter :=
  ⟨capacity, refillPerSec, now, fun _ => none⟩

/-- The settings of every bucket. -/
def params (l : RateLimiter) : TokenBucket.Params ℚ := ⟨l.capacity, l.refillPerSec⟩

/-- The tokens `allow` sees are the level of the agent's bucket. -/
theorem level_eq (l : RateLimiter) (agent : Str) :
    TokenBucket.level l.params (l.buckets agent) l.now =
      min (l.capacity : ℚ) (((l.buckets agent).getD (l.capacity, l.now)).1 +
        (l.now - ((l.buckets agent).getD (l.capacity, l.now)).2) * l.refillPerSec) := by
  cases hb : l.buckets agent with
  | none => simp [TokenBucket.level, params]
  | some s => simp [TokenBucket.level, params]

/-- **`allow` polls the agent's bucket** and no other. -/
theorem allow_eq (l : RateLimiter) (agent : Str) :
    l.allow agent =
      ((TokenBucket.poll l.params (l.buckets agent) l.now).1,
        { l with
          buckets := Function.update l.buckets agent
            (TokenBucket.poll l.params (l.buckets agent) l.now).2 }) := by
  simp only [allow, TokenBucket.poll, level_eq]
  split_ifs <;> rfl

/-- The settings stay. -/
@[simp] theorem params_allow (l : RateLimiter) (agent : Str) :
    (l.allow agent).2.params = l.params := by
  rw [allow_eq]
  rfl

end RateLimiter

/-! ### Calls of any agents -/

/-- A call of `allow` that has been answered. -/
structure Answer where
  time : ℚ
  agent : Str
  admitted : Bool
  deriving DecidableEq

/-- The call that was answered: when, and by whom. -/
def Answer.call (a : Answer) : ℚ × Str := (a.time, a.agent)

/-- A poll of the agent's bucket, as an answer. -/
def Answer.ofPoll (agent : Str) (e : TokenBucket.Poll ℚ) : Answer := ⟨e.time, agent, e.admitted⟩

/-- The answer admitted a call in a window, its ends included. -/
def Answer.admittedIn (s t : ℚ) (a : Answer) : Bool :=
  a.admitted && decide (s ≤ a.time) && decide (a.time ≤ t)

namespace RateLimiter

/-- Answer calls in order, each at its reading of the clock. -/
def answers (l : RateLimiter) : List (ℚ × Str) → List Answer
  | [] => []
  | (time, agent) :: calls =>
    let (admitted, l) := { l with now := time }.allow agent
    ⟨time, agent, admitted⟩ :: answers l calls

/-- The answers to one agent. -/
def answersTo (l : RateLimiter) (agent : Str) (calls : List (ℚ × Str)) : List Answer :=
  (l.answers calls).filter fun a => a.agent = agent

/-- The limiter after a call. -/
def called (l : RateLimiter) (time : ℚ) (agent : Str) : RateLimiter :=
  ({ l with now := time }.allow agent).2

theorem called_params (l : RateLimiter) (time : ℚ) (agent : Str) :
    (l.called time agent).params = l.params :=
  params_allow { l with now := time } agent

/-- The bucket of an agent after a call. -/
theorem called_buckets (l : RateLimiter) (time : ℚ) (agent other : Str) :
    (l.called time agent).buckets other =
      if other = agent then (TokenBucket.poll l.params (l.buckets agent) time).2
      else l.buckets other := by
  simp only [called, allow_eq, Function.update_apply]
  rfl

theorem answers_cons (l : RateLimiter) (time : ℚ) (agent : Str) (calls : List (ℚ × Str)) :
    l.answers ((time, agent) :: calls) =
      ⟨time, agent, (TokenBucket.poll l.params (l.buckets agent) time).1⟩ ::
        (l.called time agent).answers calls := by
  simp only [answers, called, allow_eq]
  rfl

@[simp] theorem map_call_answers (l : RateLimiter) (calls : List (ℚ × Str)) :
    (l.answers calls).map Answer.call = calls := by
  induction calls generalizing l with
  | nil => rfl
  | cons c calls ih => simp only [answers, List.map_cons, ih, Answer.call]

/-- **An agent is answered by its bucket alone**: what it is answered among the calls of
others is what the bucket answers to its own calls. Induction on the calls. -/
theorem answersTo_eq (l : RateLimiter) (agent : Str) (calls : List (ℚ × Str)) :
    l.answersTo agent calls =
      (TokenBucket.serve l.params (l.buckets agent)
        ((calls.filter fun c => c.2 = agent).map Prod.fst)).map (Answer.ofPoll agent) := by
  induction calls generalizing l with
  | nil => rfl
  | cons c calls ih =>
      obtain ⟨time, other⟩ := c
      have hrest := ih (l.called time other)
      rw [called_params, called_buckets] at hrest
      by_cases hagent : other = agent
      · subst hagent
        simp only [answersTo, answers_cons, List.filter_cons, decide_true, if_true, List.map_cons,
          TokenBucket.serve, Answer.ofPoll] at hrest ⊢
        rw [hrest]
      · rw [if_neg (Ne.symm hagent)] at hrest
        simpa only [answersTo, answers_cons, List.filter_cons, hagent, decide_false,
          Bool.false_eq_true, if_false] using hrest

/-- The calls of others have no part in what an agent is answered. -/
theorem answersTo_eq_answers (l : RateLimiter) (agent : Str) (calls : List (ℚ × Str)) :
    l.answersTo agent calls = l.answers (calls.filter fun c => c.2 = agent) := by
  have hown : l.answersTo agent (calls.filter fun c => c.2 = agent) =
      l.answers (calls.filter fun c => c.2 = agent) := by
    refine List.filter_eq_self.mpr fun a ha => ?_
    have hcall : a.call ∈ calls.filter fun c => c.2 = agent := by
      rw [← l.map_call_answers (calls.filter fun c => c.2 = agent)]
      exact List.mem_map_of_mem ha
    exact (List.mem_filter.mp hcall).2
  rw [← hown, answersTo_eq, answersTo_eq, List.filter_filter]
  simp only [Bool.and_self]

/-! ### Polls that are denied -/

/-- Limiters with the same settings whose buckets hold the same from a time on. -/
structure Alike (time : ℚ) (l l' : RateLimiter) : Prop where
  params : l.params = l'.params
  buckets : ∀ agent, TokenBucket.Alike l.params time (l.buckets agent) (l'.buckets agent)

theorem Alike.refl (time : ℚ) (l : RateLimiter) : Alike time l l :=
  ⟨rfl, fun _ _ _ => rfl⟩

/-- The same call of limiters that are alike leaves them alike. -/
theorem Alike.called {time t : ℚ} {l l' : RateLimiter} (h : Alike time l l') (ht : time ≤ t)
    (agent : Str) : Alike t (l.called t agent) (l'.called t agent) := by
  refine ⟨by rw [called_params, called_params, h.params], fun other => ?_⟩
  rw [called_params, called_buckets, called_buckets, ← h.params,
    ((h.buckets agent).later ht).poll]
  by_cases hother : other = agent
  · simp only [hother, if_true]
    exact fun _ _ => rfl
  · simp only [hother, if_false]
    exact (h.buckets other).later ht

/-- A call that one of them denies may be left out at the other. -/
theorem Alike.skip {time t : ℚ} {l l' : RateLimiter} (hrate : 0 ≤ l.refillPerSec)
    (h : Alike time l l') (ht : time ≤ t) {agent : Str}
    (hdenied : (TokenBucket.poll l.params (l.buckets agent) t).1 = false) :
    Alike t (l.called t agent) l' := by
  refine ⟨by rw [called_params, h.params], fun other => ?_⟩
  rw [called_params, called_buckets]
  by_cases hother : other = agent
  · subst hother
    rw [if_pos rfl]
    exact ((h.buckets other).later ht).skip hrate hdenied
  · rw [if_neg hother]
    exact (h.buckets other).later ht

/-- **Denied calls leave no trace.** Without some of the denied calls, the other calls are
answered as before. Induction on the calls, between limiters that are alike. -/
theorem answers_of_sublist {calls : List (ℚ × Str)} {l l' : RateLimiter} {time : ℚ}
    {kept : List Answer} (hrate : 0 ≤ l.refillPerSec)
    (hclock : (calls.map Prod.fst).Pairwise (· ≤ ·)) (hstart : ∀ c ∈ calls, time ≤ c.1)
    (h : Alike time l l') (hkept : kept.Sublist (l.answers calls))
    (hall : kept.filter Answer.admitted = (l.answers calls).filter Answer.admitted) :
    l'.answers (kept.map Answer.call) = kept := by
  induction calls generalizing l l' time kept with
  | nil =>
      obtain rfl : kept = [] := List.sublist_nil.mp hkept
      rfl
  | cons c calls ih =>
      obtain ⟨t, agent⟩ := c
      have ht : time ≤ t := hstart _ List.mem_cons_self
      rw [List.map_cons, List.pairwise_cons] at hclock
      have hlater : ∀ c ∈ calls, t ≤ c.1 := fun c hc => hclock.1 _ (List.mem_map_of_mem hc)
      have hrate' : 0 ≤ (l.called t agent).refillPerSec :=
        hrate.trans_eq (congrArg TokenBucket.Params.rate (l.called_params t agent)).symm
      rw [answers_cons] at hkept hall
      cases hkept with
      | cons _ hkept =>
          -- the call is left out, so it was denied
          cases hdenied : (TokenBucket.poll l.params (l.buckets agent) t).1 with
          | false =>
              rw [hdenied, List.filter_cons_of_neg (by simp)] at hall
              exact ih hrate' hclock.2 hlater (h.skip hrate ht hdenied) hkept hall
          | true =>
              rw [hdenied, List.filter_cons_of_pos rfl] at hall
              have hlength := (hkept.filter Answer.admitted).length_le
              rw [hall, List.length_cons] at hlength
              omega
      | cons_cons _ hkept =>
          rename_i kept
          have hall : kept.filter Answer.admitted =
              ((l.called t agent).answers calls).filter Answer.admitted := by
            rw [List.filter_cons, List.filter_cons] at hall
            split at hall
            · exact (List.cons_inj_right _).mp hall
            · exact hall
          have hrest := ih hrate' hclock.2 hlater (h.called ht agent) hkept hall
          rw [List.map_cons, Answer.call, answers_cons, hrest, ← h.params,
            ((h.buckets agent).later ht).poll]

end RateLimiter

/-- **The law of the limiter**, for calls of any agents in the order of the clock. A call of
an agent is admitted exactly where no window from one of its calls up to this one would see
more admissions than the capacity and the refill of the window; so no window ever sees more,
and where a call is denied its admission would have been too much for one of them. The other
answers are the same without denied calls, and without the calls of other agents. -/
theorem allow_exact (capacity : ℤ) (refill start : ℚ) (hcapacity : 1 ≤ capacity)
    (hrefill : 0 ≤ refill) (calls : List (ℚ × Str))
    (hclock : (calls.map Prod.fst).Pairwise (· ≤ ·)) (agent : Str) :
    let l := RateLimiter.init capacity refill start
    let own := l.answersTo agent calls
    (∀ (k : ℕ) (e : Answer), own[k]? = some e →
      (e.admitted = true ↔ ∀ j ≤ k, ∀ f : Answer, own[j]? = some f →
        (((own.take k).drop j).countP Answer.admitted : ℚ) + 1 ≤
          capacity + refill * (e.time - f.time))) ∧
    (∀ s t, s ≤ t → (own.countP (Answer.admittedIn s t) : ℚ) ≤ capacity + refill * (t - s)) ∧
    (∀ (k : ℕ) (e : Answer), own[k]? = some e → e.admitted = false →
      ∃ s ≤ e.time, capacity + refill * (e.time - s) <
        ((own.take k).countP (Answer.admittedIn s e.time) : ℚ) + 1) ∧
    (∀ kept : List Answer, kept.Sublist (l.answers calls) →
      kept.filter Answer.admitted = (l.answers calls).filter Answer.admitted →
      l.answers (kept.map Answer.call) = kept) ∧
    own = l.answers (calls.filter fun c => c.2 = agent) := by
  intro l own
  set times := (calls.filter fun c => c.2 = agent).map Prod.fst with htimes
  have hown : own = (TokenBucket.serve l.params none times).map (Answer.ofPoll agent) :=
    l.answersTo_eq agent calls
  have hsorted : times.Pairwise (· ≤ ·) :=
    hclock.sublist (List.filter_sublist.map Prod.fst)
  have hpoll : ∀ {k : ℕ} {e : Answer}, own[k]? = some e →
      ∃ p, (TokenBucket.serve l.params none times)[k]? = some p ∧ Answer.ofPoll agent p = e := by
    intro k e he
    rwa [hown, List.getElem?_map, Option.map_eq_some_iff] at he
  have hone : (1 : ℚ) ≤ l.params.capacity := by
    show (1 : ℚ) ≤ capacity
    exact_mod_cast hcapacity
  refine ⟨fun k e he => ?_, fun s t hst => ?_, fun k e he hdenied => ?_, fun kept hkept hall => ?_,
    l.answersTo_eq_answers agent calls⟩
  · obtain ⟨p, hp, rfl⟩ := hpoll he
    have hcount : ∀ j, ((own.take k).drop j).countP Answer.admitted =
        TokenBucket.admissions (((TokenBucket.serve l.params none times).take k).drop j) := by
      intro j
      rw [hown, ← List.map_take, ← List.map_drop, List.countP_map]
      rfl
    have hlaw := TokenBucket.admitted_iff l.params hp
    constructor
    · intro hadmitted j hj f hf
      obtain ⟨q, hq, rfl⟩ := hpoll hf
      rw [hcount, mul_comm]
      exact hlaw.mp hadmitted j hj q hq
    · intro h
      refine hlaw.mpr fun j hj q hq => ?_
      have hwindow := h j hj (.ofPoll agent q)
        (by rw [hown, List.getElem?_map, hq, Option.map_some])
      rw [hcount, mul_comm] at hwindow
      exact hwindow
  · have hbound := TokenBucket.countP_window_le l.params (zero_le_one.trans hone) hrefill times hst
    rw [hown, List.countP_map, mul_comm]
    exact hbound
  · obtain ⟨p, hp, rfl⟩ := hpoll he
    obtain ⟨s, hs, hlt⟩ := TokenBucket.exists_window_of_rejected l.params hsorted hp hdenied
    refine ⟨s, hs, ?_⟩
    rw [hown, ← List.map_take, List.countP_map, mul_comm]
    exact hlt
  · cases calls with
    | nil =>
        obtain rfl : kept = [] := List.sublist_nil.mp hkept
        rfl
    | cons c calls =>
        have hstart : ∀ d ∈ c :: calls, c.1 ≤ d.1 := by
          intro d hd
          rw [List.map_cons, List.pairwise_cons] at hclock
          rcases List.mem_cons.mp hd with rfl | hd
          · exact le_rfl
          · exact hclock.1 _ (List.mem_map_of_mem hd)
        exact RateLimiter.answers_of_sublist hrefill hclock hstart (.refl c.1 l) hkept hall

/-- Three calls of one agent against a capacity of two, with a call of another between them:
the third has to wait until the window since the first has room for it. -/
theorem allow_exact_burst :
    let l := RateLimiter.init 2 (1 / 2) 0
    let calls := [(0, lit "a"), (0, lit "a"), (1, lit "b"), (1, lit "a"), (2, lit "a")]
    (l.answersTo (lit "a") calls).map Answer.admitted = [true, true, false, true] ∧
      ((l.answersTo (lit "a") calls).countP (Answer.admittedIn 0 2) : ℚ) ≤ 2 + 1 / 2 * (2 - 0) ∧
      l.answersTo (lit "a") calls =
        l.answers [(0, lit "a"), (0, lit "a"), (1, lit "a"), (2, lit "a")] := by
  have h := allow_exact 2 (1 / 2) 0 (by decide) (by norm_num)
    [(0, lit "a"), (0, lit "a"), (1, lit "b"), (1, lit "a"), (2, lit "a")] (by decide +kernel)
    (lit "a")
  exact ⟨by decide +kernel, h.2.1 0 2 (by norm_num), h.2.2.2.2⟩

end AgentOpsGateway
