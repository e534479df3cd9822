import AgentOpsGateway.Circuit

/-!
# The Circuit Breaker Against the Log of Its Operations

The three tables of `CircuitBreaker` are a summary of what has happened to each server. The
log keeps all of it: every operation with the reading of the clock and what it returned, the
latest first. What the breaker answers about a server is stated here on the log, with no
table in between, for operations in any order — results without an `allow` before them,
failures of an open circuit, thresholds below one.

## Main results

* `Refines.perform`: **one operation keeps the circuit of a server in step with the log**.
* `answers_iff`: what `is_tripped` and `allow` answer after any operations, and that the
  operations on other servers have no part in it.
-/

namespace AgentOpsGateway

open Python

/-- An operation of the breaker. -/
inductive BreakerOp
  | allow (server : Str)
  | recordSuccess (server : Str)
  | recordFailure (server : Str)
  | isTripped (server : Str)
  deriving DecidableEq

/-- The server an operation is about. -/
def BreakerOp.server : BreakerOp → Str
  | .allow server | .recordSuccess server | .recordFailure server | .isTripped server => server

/-- An operation that has happened: when, and what it returned. -/
structure BreakerEvent where
  time : ℚ
  operation : BreakerOp
  /-- `none` where the operation returns nothing. -/
  answer : Option Bool

/-! ### What the log says -/

/-- Failures of the server since its last success. -/
def failuresSince (server : Str) (log : List BreakerEvent) : ℕ :=
  (log.takeWhile fun e => e.operation ≠ .recordSuccess server).countP fun e =>
    e.operation = .recordFailure server

/-- When the server failed last. -/
def lastFailure (server : Str) (log : List BreakerEvent) : Option ℚ :=
  (log.find? fun e => e.operation = .recordFailure server).map BreakerEvent.time

/-- A call of the server has been let through since it failed last. -/
def admittedSince (server : Str) (log : List BreakerEvent) : Bool :=
  (log.takeWhile fun e => e.operation ≠ .recordFailure server).any fun e =>
    e.operation = .allow server ∧ e.answer = some true

/-! ### What the breaker does -/

/-- The operation as the circuit of its server takes it. -/
def BreakerOp.apply (p : HalfOpen.Params ℚ) (time : ℚ) (c : HalfOpen.Circuit ℚ) :
    BreakerOp → HalfOpen.Circuit ℚ
  | .allow _ => if c.admits p time then c.launch else c
  | .recordSuccess _ => .succeed
  | .recordFailure _ => c.fail p time
  | .isTripped _ => c

namespace CircuitBreaker

/-- One operation at a reading of the clock, and what it returns. -/
def perform (b : CircuitBreaker) (time : ℚ) : BreakerOp → Option Bool × CircuitBreaker
  | .allow server =>
    let (answer, b) := { b with now := time }.allow server
    (some answer, b)
  | .recordSuccess server => (none, { b with now := time }.recordSuccess server)
  | .recordFailure server => (none, { b with now := time }.recordFailure server)
  | .isTripped server => (some (b.isTripped server), { b with now := time })

/-- Perform operations in order, each at its reading of the clock, and log them. -/
def performAll (b : CircuitBreaker) (log : List BreakerEvent) :
    List (ℚ × BreakerOp) → CircuitBreaker × List BreakerEvent
  | [] => (b, log)
  | (time, op) :: ops =>
    performAll (b.perform time op).2 (⟨time, op, (b.perform time op).1⟩ :: log) ops

/-- The settings stay. -/
theorem perform_params (b : CircuitBreaker) (time : ℚ) (op : BreakerOp) :
    (b.perform time op).2.params = b.params := by
  cases op with
  | allow server => exact allow_params { b with now := time } server
  | recordSuccess server | recordFailure server | isTripped server => rfl

/-- **An operation changes the circuit of its server**, as the half-open protocol has it,
and no other. -/
theorem circuit_perform (b : CircuitBreaker) (time : ℚ) (op : BreakerOp) (server : Str) :
    (b.perform time op).2.circuit server =
      if op.server = server then op.apply b.params time (b.circuit server)
      else b.circuit server := by
  have hclock : ∀ s, ({ b with now := time } : CircuitBreaker).circuit s = b.circuit s :=
    fun _ => rfl
  have hparams : ({ b with now := time } : CircuitBreaker).params = b.params := rfl
  cases op with
  | allow server' =>
      simp only [perform, circuit_allow, allow_fst, BreakerOp.server, BreakerOp.apply, hclock,
        hparams]
      by_cases hs : server' = server
      · subst hs
        by_cases hadmits : (b.circuit server').admits b.params time <;> simp [hadmits]
      · simp [hs, Ne.symm hs]
  | recordSuccess server' =>
      by_cases hs : server' = server
      · simp [perform, circuit_recordSuccess, BreakerOp.server, BreakerOp.apply, hs]
      · simp [perform, circuit_recordSuccess, BreakerOp.server, hs, Ne.symm hs, hclock]
  | recordFailure server' =>
      by_cases hs : server' = server
      · simp [perform, circuit_recordFailure, BreakerOp.server, BreakerOp.apply, hs, hclock,
          hparams]
      · simp [perform, circuit_recordFailure, BreakerOp.server, hs, Ne.symm hs, hclock]
  | isTripped server' => simp [perform, BreakerOp.apply, hclock]

theorem performAll_params (ops : List (ℚ × BreakerOp)) :
    ∀ (b : CircuitBreaker) (log : List BreakerEvent),
      (b.performAll log ops).1.params = b.params := by
  induction ops with
  | nil => exact fun _ _ => rfl
  | cons p ops ih => exact fun b log => (ih _ _).trans (b.perform_params p.1 p.2)

/-- An `allow` answers what the circuit of its server admits. -/
theorem perform_allow_fst (b : CircuitBreaker) (time : ℚ) (server : Str) :
    (b.perform time (.allow server)).1 = some ((b.circuit server).admits b.params time) :=
  congrArg some (allow_fst { b with now := time } server)

end CircuitBreaker

/-! ### The circuit of a server is told by the log -/

/-- The circuit of a server says what the log says. Where it is tripped, the time it opened
is that of the last failure, and the probe slot is taken by a call let through since. -/
structure Refines (threshold : ℤ) (server : Str) (log : List BreakerEvent)
    (c : HalfOpen.Circuit ℚ) : Prop where
  failures : c.failures = failuresSince server log
  tripped : c.tripped ↔ max 1 threshold ≤ c.failures
  opened : ∀ t, c.openedAt = some t → lastFailure server log = some t
  probing : c.tripped → c.probing = admittedSince server log

section Refines

variable {threshold : ℤ} {server : Str} {log : List BreakerEvent} {c : HalfOpen.Circuit ℚ}

/-- A closed circuit that has not failed refines a log without a failure since the last
success. -/
theorem refines_succeed (hlog : failuresSince server log = 0) :
    Refines threshold server log .succeed where
  failures := hlog.symm
  tripped := by simp [HalfOpen.Circuit.tripped, HalfOpen.Circuit.succeed]
  opened := by simp [HalfOpen.Circuit.succeed]
  probing := by simp [HalfOpen.Circuit.tripped, HalfOpen.Circuit.succeed]

/-- A tripped circuit admits a call after the cooldown, unless one has been let through
since the last failure; a closed one always does. -/
theorem Refines.admits_iff (hc : Refines threshold server log c) {p : HalfOpen.Params ℚ}
    {now : ℚ} :
    c.admits p now = true ↔ ¬c.tripped ∨
      ∃ t, lastFailure server log = some t ∧ p.cooldown ≤ now - t ∧
        admittedSince server log = false := by
  cases hopen : c.openedAt with
  | none => simp [HalfOpen.Circuit.admits, HalfOpen.Circuit.tripped, hopen]
  | some t =>
      have htripped : c.tripped := by simp [HalfOpen.Circuit.tripped, hopen]
      simp [HalfOpen.Circuit.admits, hopen, htripped, hc.opened t hopen, hc.probing htripped]

/-- What the log says of a server, one operation later. -/
theorem failuresSince_cons (e : BreakerEvent) :
    failuresSince server (e :: log) =
      if e.operation = .recordSuccess server then 0
      else if e.operation = .recordFailure server then failuresSince server log + 1
      else failuresSince server log := by
  by_cases hs : e.operation = .recordSuccess server
  · simp [failuresSince, hs]
  · by_cases hf : e.operation = .recordFailure server <;> simp [failuresSince, hs, hf]

theorem lastFailure_cons (e : BreakerEvent) :
    lastFailure server (e :: log) =
      if e.operation = .recordFailure server then some e.time else lastFailure server log := by
  by_cases hf : e.operation = .recordFailure server <;> simp [lastFailure, hf]

theorem admittedSince_cons (e : BreakerEvent) :
    admittedSince server (e :: log) =
      if e.operation = .recordFailure server then false
      else decide (e.operation = .allow server ∧ e.answer = some true) ||
        admittedSince server log := by
  by_cases hf : e.operation = .recordFailure server <;> simp [admittedSince, hf]

/-- An entry that is neither a report nor an admission of the server says nothing of it. -/
theorem Refines.skip (hc : Refines threshold server log c) {e : BreakerEvent}
    (hs : e.operation ≠ .recordSuccess server) (hf : e.operation ≠ .recordFailure server)
    (ha : e.operation = .allow server → e.answer ≠ some true) :
    Refines threshold server (e :: log) c where
  failures := by rw [failuresSince_cons, if_neg hs, if_neg hf, hc.failures]
  tripped := hc.tripped
  opened := by
    rw [lastFailure_cons, if_neg hf]
    exact hc.opened
  probing := by
    have hnot : decide (e.operation = .allow server ∧ e.answer = some true) = false :=
      decide_eq_false fun h => ha h.1 h.2
    rw [admittedSince_cons, if_neg hf, hnot, Bool.false_or]
    exact hc.probing

/-- An operation of another server says nothing about this one. -/
theorem Refines.other (hc : Refines threshold server log c) {e : BreakerEvent}
    (he : e.operation.server ≠ server) : Refines threshold server (e :: log) c := by
  have hne : ∀ op : BreakerOp, op.server = server → e.operation ≠ op :=
    fun op hop h => he ((congrArg BreakerOp.server h).trans hop)
  exact hc.skip (hne _ rfl) (hne _ rfl) fun h => absurd h (hne (.allow server) rfl)

/-- **A failure** is counted, and opens the circuit once there are enough. -/
theorem Refines.fail (hc : Refines threshold server log c) (cooldown time : ℚ) :
    Refines threshold server (⟨time, .recordFailure server, none⟩ :: log)
      (c.fail ⟨threshold, cooldown⟩ time) := by
  have hcount : failuresSince server (⟨time, .recordFailure server, none⟩ :: log) =
      failuresSince server log + 1 := by simp [failuresSince_cons]
  have hlast : lastFailure server (⟨time, .recordFailure server, none⟩ :: log) = some time := by
    simp [lastFailure_cons]
  have hadmitted : admittedSince server (⟨time, .recordFailure server, none⟩ :: log) = false := by
    simp [admittedSince_cons]
  by_cases hth : threshold ≤ c.failures + 1
  · have hopen : (c.fail ⟨threshold, cooldown⟩ time).openedAt = some time := by
      simp [HalfOpen.Circuit.fail, hth]
    refine ⟨by rw [hcount, ← hc.failures]; rfl, ?_, fun t ht => ?_, fun _ => hadmitted.symm⟩
    · have henough : max 1 threshold ≤ ((c.failures + 1 : ℕ) : ℤ) := by omega
      exact iff_of_true (by simp [HalfOpen.Circuit.tripped, hopen]) henough
    · rw [hlast, ← ht, hopen]
  · -- too few failures now, so too few before: the circuit has been closed
    have hclosed : ¬c.tripped := fun h => hth (by have := hc.tripped.mp h; omega)
    have hopen : (c.fail ⟨threshold, cooldown⟩ time).openedAt = none := by
      cases hat : c.openedAt with
      | none => simp [HalfOpen.Circuit.fail, hth, hat]
      | some t => exact absurd (by simp [HalfOpen.Circuit.tripped, hat]) hclosed
    refine ⟨by rw [hcount, ← hc.failures]; rfl, ?_, by simp [hopen], fun _ => hadmitted.symm⟩
    have hfew : ¬max 1 threshold ≤ ((c.failures + 1 : ℕ) : ℤ) := by omega
    exact iff_of_false (by simp [HalfOpen.Circuit.tripped, hopen]) hfew

/-- **A call let through** takes the probe slot of a tripped circuit. -/
theorem Refines.launch (hc : Refines threshold server log c) (time : ℚ) :
    Refines threshold server (⟨time, .allow server, some true⟩ :: log) c.launch := by
  have hcount : failuresSince server (⟨time, .allow server, some true⟩ :: log) =
      failuresSince server log := by simp [failuresSince_cons]
  have hlast : lastFailure server (⟨time, .allow server, some true⟩ :: log) =
      lastFailure server log := by simp [lastFailure_cons]
  cases hopen : c.openedAt with
  | none =>
      have hlaunch : c.launch = c := by simp [HalfOpen.Circuit.launch, hopen]
      rw [hlaunch]
      exact ⟨hcount ▸ hc.failures, hc.tripped, hlast ▸ hc.opened,
        fun h => by simp [HalfOpen.Circuit.tripped, hopen] at h⟩
  | some t =>
      have hlaunch : c.launch = { c with probing := true } := by
        simp [HalfOpen.Circuit.launch, hopen]
      rw [hlaunch]
      exact ⟨hcount ▸ hc.failures, hc.tripped, hlast ▸ hc.opened,
        fun _ => by simp [admittedSince_cons]⟩

end Refines

section Performed

variable {threshold : ℤ} {server : Str}

/-- **One operation keeps the circuit of a server in step with the log**, whatever server it
is about. -/
theorem Refines.perform {b : CircuitBreaker} {log : List BreakerEvent}
    (hth : b.threshold = threshold) (hc : Refines threshold server log (b.circuit server))
    (time : ℚ) (op : BreakerOp) :
    Refines threshold server (⟨time, op, (b.perform time op).1⟩ :: log)
      ((b.perform time op).2.circuit server) := by
  subst hth
  rw [b.circuit_perform]
  by_cases hop : op.server = server
  · rw [if_pos hop]
    cases op with
    | allow s =>
        obtain rfl : s = server := hop
        rw [b.perform_allow_fst, BreakerOp.apply]
        cases hadmits : (b.circuit s).admits b.params time with
        | true => exact hc.launch time
        | false => exact hc.skip (by simp) (by simp) (by simp)
    | recordSuccess s =>
        obtain rfl : s = server := hop
        exact refines_succeed (by simp [failuresSince_cons])
    | recordFailure s =>
        obtain rfl : s = server := hop
        exact hc.fail b.cooldown time
    | isTripped s => exact hc.skip (by simp) (by simp) (by simp)
  · rw [if_neg hop]
    exact hc.other hop

/-- Any operations keep it in step. -/
theorem Refines.performAll (ops : List (ℚ × BreakerOp)) :
    ∀ {b : CircuitBreaker} {log : List BreakerEvent}, b.threshold = threshold →
      Refines threshold server log (b.circuit server) →
      Refines threshold server (b.performAll log ops).2
        ((b.performAll log ops).1.circuit server) := by
  induction ops with
  | nil => exact fun _ hc => hc
  | cons p ops ih =>
      intro b log hth hc
      have hth' : (b.perform p.1 p.2).2.threshold = threshold :=
        (congrArg HalfOpen.Params.threshold (b.perform_params p.1 p.2)).trans hth
      exact ih hth' (hc.perform hth p.1 p.2)

end Performed

/-- The circuit of a server depends on the operations on that server alone. -/
theorem circuit_performAll_filter (server : Str) (ops : List (ℚ × BreakerOp)) :
    ∀ {b b' : CircuitBreaker} (log log' : List BreakerEvent), b.params = b'.params →
      b.circuit server = b'.circuit server →
      (b.performAll log ops).1.circuit server =
        (b'.performAll log' (ops.filter fun p => p.2.server = server)).1.circuit server := by
  induction ops with
  | nil => exact fun _ _ _ hc => hc
  | cons p ops ih =>
      intro b b' log log' hp hc
      by_cases hop : p.2.server = server
      · rw [List.filter_cons_of_pos (by simpa using hop)]
        refine ih _ _ ?_ ?_
        · rw [b.perform_params, b'.perform_params, hp]
        · rw [b.circuit_perform, b'.circuit_perform, if_pos hop, if_pos hop, hp, hc]
      · rw [List.filter_cons_of_neg (by simpa using hop)]
        refine ih _ _ ?_ ?_
        · rw [b.perform_params, hp]
        · rw [b.circuit_perform, if_neg hop, hc]

/-- A breaker after operations on it, and their log. -/
def CircuitBreaker.after (threshold : ℤ) (cooldown start : ℚ) (ops : List (ℚ × BreakerOp)) :
    CircuitBreaker × List BreakerEvent :=
  (init threshold cooldown start).performAll [] ops

/-- **The breaker refines its log.** After any operations on any servers, `is_tripped` is
true of the servers with enough failures since their last success, and `allow` at any
reading of the clock lets a call through exactly where the server is not tripped, or it
failed last a cooldown ago and no call has been let through since. The answers are those
without the operations on other servers. -/
theorem answers_iff (threshold : ℤ) (cooldown start : ℚ) (ops : List (ℚ × BreakerOp))
    (server : Str) (u : ℚ) :
    let (b, log) := CircuitBreaker.after threshold cooldown start ops
    let alone := (CircuitBreaker.after threshold cooldown start
      (ops.filter fun p => p.2.server = server)).1
    ((b.perform u (.isTripped server)).1 = some true ↔
      max 1 threshold ≤ (failuresSince server log : ℤ)) ∧
    ((b.perform u (.allow server)).1 = some true ↔
      ¬max 1 threshold ≤ (failuresSince server log : ℤ) ∨
        ∃ t, lastFailure server log = some t ∧ cooldown ≤ u - t ∧
          admittedSince server log = false) ∧
    (b.perform u (.isTripped server)).1 = (alone.perform u (.isTripped server)).1 ∧
    (b.perform u (.allow server)).1 = (alone.perform u (.allow server)).1 := by
  have hinit : Refines threshold server []
      ((CircuitBreaker.init threshold cooldown start).circuit server) := by
    rw [CircuitBreaker.circuit_init]
    exact refines_succeed rfl
  have hlog := Refines.performAll (b := .init threshold cooldown start) ops rfl hinit
  have hparams := CircuitBreaker.performAll_params ops
    (CircuitBreaker.init threshold cooldown start) []
  have hparams' := CircuitBreaker.performAll_params (ops.filter fun p => p.2.server = server)
    (CircuitBreaker.init threshold cooldown start) []
  have halone := circuit_performAll_filter server ops [] []
    (Eq.refl (CircuitBreaker.init threshold cooldown start).params) rfl
  have htripped : ∀ b : CircuitBreaker, (b.perform u (.isTripped server)).1 =
      some (b.circuit server).openedAt.isSome := fun _ => rfl
  simp only [CircuitBreaker.after, htripped, CircuitBreaker.perform_allow_fst, hparams, hparams',
    halone, Option.some.injEq, and_true]
  rw [← halone]
  constructor
  · rw [← hlog.failures]
    exact hlog.tripped
  · rw [hlog.admits_iff, hlog.tripped, hlog.failures]
    rfl

end AgentOpsGateway
