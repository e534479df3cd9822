import Mathlib.Data.Finset.Erase
import Mathlib.Data.Finset.Insert
import Mathlib.Data.Rat.Defs
import Mathlib.Algebra.Order.Ring.Rat
import AgentOpsGateway.HalfOpen
import AgentOpsGateway.PyStr

/-!
# The Circuit Breaker

`CircuitBreaker` keeps, by server, the number of consecutive failures, the time the
circuit opened (no key where it is closed) and whether a half-open probe is under way.
`now` is the reading of its clock.

## Main results

* `circuit_allow`, `circuit_recordSuccess`, `circuit_recordFailure`: **each operation is
  the operation of `HalfOpen.Circuit` on its server** and changes no other server.
-/

namespace AgentOpsGateway

open Python

/-- `CircuitBreaker`. -/
structure CircuitBreaker where
  threshold : ℤ
  cooldown : ℚ
  /-- What `_now()` returns. -/
  now : ℚ
  /-- `_failures`, with 0 for a missing key. -/
  failures : Str → ℕ
  /-- `_opened_at`. -/
  openedAt : Str → Option ℚ
  /-- `_probing`. -/
  probing : Finset Str

namespace CircuitBreaker

/-- A breaker as `__init__` leaves it. -/
def init (threshold : ℤ) (cooldown now : ℚ) : CircuitBreaker :=
  { threshold, cooldown, now, failures := fun _ => 0, openedAt := fun _ => none, probing := ∅ }

/-- `allow(server)`: may a call be sent? -/
def allow (b : CircuitBreaker) (server : Str) : Bool × CircuitBreaker :=
  match b.openedAt server with
  | none => (true, b)
  | some opened =>
    if b.now - opened < b.cooldown then (false, b)
    else if server ∈ b.probing then (false, b)
    else (true, { b with probing := insert server b.probing })

/-- `record_success(server)`. -/
def recordSuccess (b : CircuitBreaker) (server : Str) : CircuitBreaker :=
  { b with
    failures := Function.update b.failures server 0
    openedAt := Function.update b.openedAt server none
    probing := b.probing.erase server }

/-- `record_failure(server)`. -/
def recordFailure (b : CircuitBreaker) (server : Str) : CircuitBreaker :=
  let failures := b.failures server + 1
  { b with
    failures := Function.update b.failures server failures
    openedAt :=
      if b.threshold ≤ failures then Function.update b.openedAt server (some b.now)
      else b.openedAt
    probing := b.probing.erase server }

/-- `is_tripped(server)`. -/
def isTripped (b : CircuitBreaker) (server : Str) : Bool := (b.openedAt server).isSome

/-! ### The circuit of one server -/

/-- The settings, as the half-open protocol has them. -/
def params (b : CircuitBreaker) : HalfOpen.Params ℚ := ⟨b.threshold, b.cooldown⟩

/-- What the breaker keeps about a server. -/
def circuit (b : CircuitBreaker) (server : Str) : HalfOpen.Circuit ℚ :=
  ⟨b.failures server, b.openedAt server, decide (server ∈ b.probing)⟩

/-- `is_tripped` is read off the circuit of the server. -/
theorem isTripped_iff (b : CircuitBreaker) (server : Str) :
    b.isTripped server = true ↔ (b.circuit server).tripped := Iff.rfl

/-- A fresh breaker has every circuit closed. -/
@[simp] theorem circuit_init (threshold : ℤ) (cooldown now : ℚ) (server : Str) :
    (init threshold cooldown now).circuit server = .succeed := by
  simp [init, circuit, HalfOpen.Circuit.succeed]

/-- `allow` answers what the circuit of the server admits. -/
theorem allow_fst (b : CircuitBreaker) (server : Str) :
    (b.allow server).1 = (b.circuit server).admits b.params b.now := by
  simp only [allow, HalfOpen.Circuit.admits, circuit, params]
  cases b.openedAt server with
  | none => rfl
  | some opened =>
      by_cases hcool : b.now - opened < b.cooldown
      · simp [hcool]
      · by_cases hprobe : server ∈ b.probing <;> simp [hcool, hprobe]

/-- **`allow` takes the probe slot of its server** where it lets a call through a tripped
circuit, and changes nothing else. -/
theorem circuit_allow (b : CircuitBreaker) (server server' : Str) :
    (b.allow server).2.circuit server' =
      if server' = server ∧ (b.allow server).1 = true then (b.circuit server).launch
      else b.circuit server' := by
  unfold allow HalfOpen.Circuit.launch circuit
  cases hopen : b.openedAt server with
  | none =>
      by_cases hs : server' = server
      · simp [hs, hopen]
      · simp [hs]
  | some opened =>
      by_cases hcool : b.now - opened < b.cooldown
      · simp [hcool]
      · by_cases hprobe : server ∈ b.probing
        · simp [hcool, hprobe]
        · by_cases hs : server' = server
          · simp [hcool, hprobe, hs, hopen]
          · simp [hcool, hprobe, hs]

/-- **`record_success` closes the circuit of its server.** -/
theorem circuit_recordSuccess (b : CircuitBreaker) (server server' : Str) :
    (b.recordSuccess server).circuit server' =
      if server' = server then .succeed else b.circuit server' := by
  by_cases hs : server' = server
  · simp [recordSuccess, circuit, HalfOpen.Circuit.succeed, hs]
  · simp [recordSuccess, circuit, hs]

/-- **`record_failure` counts a failure of its server** and opens its circuit at the
threshold. -/
theorem circuit_recordFailure (b : CircuitBreaker) (server server' : Str) :
    (b.recordFailure server).circuit server' =
      if server' = server then (b.circuit server).fail b.params b.now
      else b.circuit server' := by
  by_cases hth : b.threshold ≤ b.failures server + 1
  · by_cases hs : server' = server
    · simp [recordFailure, circuit, HalfOpen.Circuit.fail, params, hth, hs]
    · simp [recordFailure, circuit, hth, hs]
  · by_cases hs : server' = server
    · simp [recordFailure, circuit, HalfOpen.Circuit.fail, params, hth, hs]
    · simp [recordFailure, circuit, hth, hs]

/-- A breaker in use: its threshold is at least one, and a circuit that has counted as many
failures is tripped. -/
structure Sound (b : CircuitBreaker) : Prop where
  one_le : 1 ≤ b.threshold
  below : ∀ server, ¬(b.circuit server).tripped → (b.failures server : ℤ) < b.threshold

/-- A fresh breaker is sound. -/
theorem sound_init {threshold : ℤ} (h : 1 ≤ threshold) (cooldown now : ℚ) :
    (init threshold cooldown now).Sound :=
  ⟨h, fun _ _ => by simp [init]; omega⟩

/-- Every operation keeps a breaker sound. -/
theorem Sound.operations {b : CircuitBreaker} (hb : b.Sound) (server : Str) :
    (b.allow server).2.Sound ∧ (b.recordSuccess server).Sound ∧ (b.recordFailure server).Sound := by
  refine ⟨?_, ⟨hb.one_le, fun s hs => ?_⟩, ⟨hb.one_le, fun s hs => ?_⟩⟩
  · simp only [allow]
    cases b.openedAt server with
    | none => exact hb
    | some opened =>
        dsimp only
        split_ifs
        · exact hb
        · exact hb
        · exact ⟨hb.one_le, hb.below⟩
  · by_cases heq : s = server
    · subst heq
      have := hb.one_le
      simp [recordSuccess]
      omega
    · rw [circuit_recordSuccess, if_neg heq] at hs
      simpa [recordSuccess, heq] using hb.below s hs
  · rw [circuit_recordFailure] at hs
    by_cases heq : s = server
    · subst heq
      rw [if_pos rfl] at hs
      by_cases hth : b.threshold ≤ b.failures s + 1
      · simp [HalfOpen.Circuit.tripped, HalfOpen.Circuit.fail, params, circuit, hth] at hs
      · simpa [recordFailure] using hth
    · rw [if_neg heq] at hs
      simpa [recordFailure, heq] using hb.below s hs

@[simp] theorem allow_now (b : CircuitBreaker) (server : Str) :
    (b.allow server).2.now = b.now := by
  simp only [allow]
  cases b.openedAt server with
  | none => rfl
  | some opened => dsimp only; split_ifs <;> rfl

@[simp] theorem allow_params (b : CircuitBreaker) (server : Str) :
    (b.allow server).2.params = b.params := by
  simp only [allow]
  cases b.openedAt server with
  | none => rfl
  | some opened => dsimp only; split_ifs <;> rfl

@[simp] theorem recordSuccess_now (b : CircuitBreaker) (server : Str) :
    (b.recordSuccess server).now = b.now := rfl

@[simp] theorem recordSuccess_params (b : CircuitBreaker) (server : Str) :
    (b.recordSuccess server).params = b.params := rfl

@[simp] theorem recordFailure_now (b : CircuitBreaker) (server : Str) :
    (b.recordFailure server).now = b.now := rfl

@[simp] theorem recordFailure_params (b : CircuitBreaker) (server : Str) :
    (b.recordFailure server).params = b.params := rfl

end CircuitBreaker

end AgentOpsGateway
