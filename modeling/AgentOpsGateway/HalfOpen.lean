import Mathlib.Algebra.Order.Field.Basic
import Mathlib.Algebra.Order.Floor.Ring
import Mathlib.Algebra.Order.Group.Defs
import Mathlib.Data.Int.Interval
import Mathlib.Logic.Function.Basic
import Mathlib.Tactic.Linarith
import Mathlib.Tactic.NormNum
import AgentOpsGateway.Transition

/-!
# The Half-Open Protocol of a Circuit Breaker

One server behind a circuit breaker, alone: the circuit counts consecutive failures and
opens at a threshold; after a cooldown it lets one call through, the probe. Calls overlap
freely, a report carries no identity of the call it reports, and a call may end without a
report. Times are any ordered group, calls any type of identifiers, each used once.

The protocol is meant to keep three promises, and this module says exactly when it does:

* no two probes are in flight together (`OneProbe`);
* an open circuit is left only through the success of a probe admitted after the cooldown
  (`Open`, which keeps apart the calls already in flight when the circuit opened);
* the probe slot is taken only while a probe is in flight (`SlotHeld`).

## Main results

* `OneProbe.step`: every step but a stale report keeps the probe slot with its one probe.
* `Open.step`, `Open.launch`: how an open circuit is left, and when a call enters it.
* `slotHeld_iff`: **the slot leaks exactly when the last probe is dropped**.
* `Since.launch`: whatever is reported and dropped, the probes are a cooldown apart.
* `length_le_of_apart`: how many times that keep a distance a span can hold.
-/

namespace HalfOpen

variable {ι T : Type*}

/-- The two settings of a breaker. -/
structure Params (T : Type*) where
  threshold : ℤ
  cooldown : T

/-- The circuit of one server. -/
structure Circuit (T : Type*) where
  /-- Failures since the last success. -/
  failures : ℕ
  /-- When the circuit opened last; `none` where it is closed. -/
  openedAt : Option T
  /-- The probe slot is taken. -/
  probing : Bool

/-- How a call was let through. -/
structure Admission (T : Type*) where
  /-- On a tripped circuit: the call is a probe. -/
  probe : Bool
  time : T

/-- The life of an identifier. -/
inductive Stage (T : Type*)
  | before
  | inFlight (a : Admission T)
  | ended

/-- In flight as a probe. -/
def Stage.isProbe : Stage T → Bool
  | .inFlight a => a.probe
  | .before | .ended => false

/-- In flight. -/
def Stage.isInFlight : Stage T → Bool
  | .inFlight _ => true
  | .before | .ended => false

/-- A server: its circuit, the clock, and the calls let through to it. -/
structure Line (ι T : Type*) where
  now : T
  circuit : Circuit T
  calls : ι → Stage T

/-- What can happen to a server. -/
inductive Event (ι T : Type*)
  | launch (i : ι)
  | succeed (i : ι)
  | fail (i : ι)
  | drop (i : ι)
  | tick (now : T)

/-- The call is in flight as a probe. -/
def Line.Probes (l : Line ι T) (i : ι) : Prop := ∃ a, l.calls i = .inFlight a ∧ a.probe = true

section Calls

variable [DecidableEq ι]

/-- Ending a call takes it from the probes. -/
theorem probes_ended {l : Line ι T} {now : T} {c : Circuit T} {i j : ι} :
    (⟨now, c, Function.update l.calls i .ended⟩ : Line ι T).Probes j ↔ j ≠ i ∧ l.Probes j := by
  by_cases hj : j = i
  · subst hj
    simp [Line.Probes]
  · simp [Line.Probes, hj]

/-- Admitting a call adds it to the probes if it is one. -/
theorem probes_inFlight {l : Line ι T} {now : T} {c : Circuit T} {a : Admission T} {i j : ι} :
    (⟨now, c, Function.update l.calls i (.inFlight a)⟩ : Line ι T).Probes j ↔
      if j = i then a.probe = true else l.Probes j := by
  by_cases hj : j = i
  · subst hj
    simp [Line.Probes]
  · simp [Line.Probes, hj]

end Calls

/-! ### The promises -/

/-- A probe in flight holds the slot, and there is at most one. -/
structure OneProbe (l : Line ι T) : Prop where
  slot : ∀ i, l.Probes i → l.circuit.probing = true
  unique : ∀ i j, l.Probes i → l.Probes j → i = j

/-- A report of a call that is not a probe, while a probe is in flight. -/
def StaleReport (l : Line ι T) (e : Event ι T) : Prop :=
  ∃ i, (e = .succeed i ∨ e = .fail i) ∧ ¬l.Probes i ∧ ∃ j, l.Probes j

/-- A report that is not stale leaves no probe in flight: it is the report of the one probe,
or there is none. -/
theorem OneProbe.not_probes_of_report {l : Line ι T} (hl : OneProbe l) {e : Event ι T} {i : ι}
    (he : e = .succeed i ∨ e = .fail i) (hfresh : ¬StaleReport l e) {j : ι} (hji : j ≠ i) :
    ¬l.Probes j := by
  intro hj
  by_cases hi : l.Probes i
  · exact hji (hl.unique j i hj hi)
  · exact hfresh ⟨i, he, hi, j, hj⟩

/-- A line without probes has at most one. -/
theorem OneProbe.of_forall_not {l : Line ι T} (h : ∀ i, ¬l.Probes i) : OneProbe l :=
  ⟨fun i hi => absurd hi (h i), fun i _ hi _ => absurd hi (h i)⟩

/-- The slot is taken only while a probe is in flight. -/
def SlotHeld (l : Line ι T) : Prop := l.circuit.probing = true → ∃ i, l.Probes i

/-- The only probe in flight is dropped while it holds the slot. -/
def LastDropped (l : Line ι T) (e : Event ι T) : Prop :=
  ∃ i, e = .drop i ∧ l.circuit.probing = true ∧ l.Probes i ∧ ∀ j, l.Probes j → j = i

section Protocol

variable [AddCommGroup T] [LinearOrder T]

/-! ### The circuit -/

namespace Circuit

/-- The circuit is open or half-open. -/
def tripped (c : Circuit T) : Prop := c.openedAt.isSome

/-- A call would be let through. -/
def admits (p : Params T) (now : T) (c : Circuit T) : Bool :=
  match c.openedAt with
  | none => true
  | some t => !decide (now - t < p.cooldown) && !c.probing

/-- Let a call through: on a tripped circuit it takes the probe slot. -/
def launch (c : Circuit T) : Circuit T :=
  match c.openedAt with
  | none => c
  | some _ => { c with probing := true }

/-- Report a success. -/
def succeed : Circuit T := ⟨0, none, false⟩

/-- Report a failure. -/
def fail (p : Params T) (now : T) (c : Circuit T) : Circuit T :=
  ⟨c.failures + 1, if p.threshold ≤ c.failures + 1 then some now else c.openedAt, false⟩

end Circuit

/-- Where the slot is held only by probes and none is in flight, the circuit lets a call
through once the cooldown is over. -/
theorem SlotHeld.admits {p : Params T} {l : Line ι T} (hl : SlotHeld l)
    (hnone : ∀ i, ¬l.Probes i)
    (hcool : ∀ t, l.circuit.openedAt = some t → p.cooldown ≤ l.now - t) :
    l.circuit.admits p l.now = true := by
  have hfree : l.circuit.probing = false := by
    cases hprobing : l.circuit.probing with
    | false => rfl
    | true =>
        obtain ⟨i, hi⟩ := hl hprobing
        exact absurd hi (hnone i)
  cases hopen : l.circuit.openedAt with
  | none => simp [Circuit.admits, hopen]
  | some t => simp [Circuit.admits, hopen, hfree, hcool t hopen]

/-! ### The steps -/

variable [DecidableEq ι]

/-- One event, where it is possible. -/
def step (p : Params T) (l : Line ι T) : Event ι T → Option (Line ι T)
  | .launch i =>
    match l.calls i, l.circuit.admits p l.now with
    | .before, true =>
      some { l with
        circuit := l.circuit.launch
        calls := Function.update l.calls i (.inFlight ⟨l.circuit.openedAt.isSome, l.now⟩) }
    | _, _ => none
  | .succeed i =>
    match l.calls i with
    | .inFlight _ => some { l with circuit := .succeed, calls := Function.update l.calls i .ended }
    | _ => none
  | .fail i =>
    match l.calls i with
    | .inFlight _ =>
      some { l with circuit := l.circuit.fail p l.now, calls := Function.update l.calls i .ended }
    | _ => none
  | .drop i =>
    match l.calls i with
    | .inFlight _ => some { l with calls := Function.update l.calls i .ended }
    | _ => none
  | .tick now => if l.now ≤ now then some { l with now } else none

/-! ### What a step does -/

section Steps

variable {p : Params T} {l l' : Line ι T} {i : ι}

/-- An admitted call: the circuit let it through, and it is a probe where it is tripped. -/
theorem step_launch (h : step p l (.launch i) = some l') :
    l.calls i = .before ∧ l.circuit.admits p l.now = true ∧
      l' = ⟨l.now, l.circuit.launch,
        Function.update l.calls i (.inFlight ⟨l.circuit.openedAt.isSome, l.now⟩)⟩ := by
  simp only [step] at h
  split at h
  · next hcall hadmits => exact ⟨hcall, hadmits, (Option.some.inj h).symm⟩
  · simp at h

/-- A reported success. -/
theorem step_succeed (h : step p l (.succeed i) = some l') :
    ∃ a, l.calls i = .inFlight a ∧
      l' = ⟨l.now, .succeed, Function.update l.calls i .ended⟩ := by
  simp only [step] at h
  split at h
  · next a hcall => exact ⟨a, hcall, (Option.some.inj h).symm⟩
  · simp at h

/-- A reported failure. -/
theorem step_fail (h : step p l (.fail i) = some l') :
    ∃ a, l.calls i = .inFlight a ∧
      l' = ⟨l.now, l.circuit.fail p l.now, Function.update l.calls i .ended⟩ := by
  simp only [step] at h
  split at h
  · next a hcall => exact ⟨a, hcall, (Option.some.inj h).symm⟩
  · simp at h

/-- A call that ends without a report. -/
theorem step_drop (h : step p l (.drop i) = some l') :
    ∃ a, l.calls i = .inFlight a ∧
      l' = ⟨l.now, l.circuit, Function.update l.calls i .ended⟩ := by
  simp only [step] at h
  split at h
  · next a hcall => exact ⟨a, hcall, (Option.some.inj h).symm⟩
  · simp at h

/-- The clock does not run back. -/
theorem step_tick {now : T} (h : step p l (.tick now) = some l') :
    l.now ≤ now ∧ l' = ⟨now, l.circuit, l.calls⟩ := by
  simp only [step] at h
  split at h
  · next hle => exact ⟨hle, (Option.some.inj h).symm⟩
  · simp at h

end Steps

/-- The protocol as a transition system. -/
def system (p : Params T) : Transition.System (Line ι T) (Event ι T) := ⟨step p⟩

/-- A call in flight after a step was in flight before it, or is admitted by it, now. -/
theorem inFlight_of_step {p : Params T} {l l' : Line ι T} {e : Event ι T} {i : ι}
    {a : Admission T} (h : step p l e = some l') (hi : l'.calls i = .inFlight a) :
    l.calls i = .inFlight a ∨ e = .launch i ∧ a.time = l.now := by
  have hothers : ∀ j, Function.update l.calls j .ended i = .inFlight a →
      l.calls i = .inFlight a := by
    intro j hj
    by_cases hji : i = j
    · subst hji
      simp at hj
    · rwa [Function.update_of_ne hji] at hj
  cases e with
  | launch j =>
      obtain ⟨-, -, rfl⟩ := step_launch h
      by_cases hji : i = j
      · subst hji
        simp only [Function.update_self, Stage.inFlight.injEq] at hi
        subst hi
        exact Or.inr ⟨rfl, rfl⟩
      · exact Or.inl (by simpa [hji] using hi)
  | succeed j =>
      obtain ⟨-, -, rfl⟩ := step_succeed h
      exact Or.inl (hothers j hi)
  | fail j =>
      obtain ⟨-, -, rfl⟩ := step_fail h
      exact Or.inl (hothers j hi)
  | drop j =>
      obtain ⟨-, -, rfl⟩ := step_drop h
      exact Or.inl (hothers j hi)
  | tick now =>
      obtain ⟨-, rfl⟩ := step_tick h
      exact Or.inl hi

/-- The clock never runs back. -/
theorem now_le_of_step {p : Params T} {l l' : Line ι T} {e : Event ι T}
    (h : step p l e = some l') : l.now ≤ l'.now := by
  cases e with
  | launch i => obtain ⟨-, -, rfl⟩ := step_launch h; exact le_rfl
  | succeed i => obtain ⟨-, -, rfl⟩ := step_succeed h; exact le_rfl
  | fail i => obtain ⟨-, -, rfl⟩ := step_fail h; exact le_rfl
  | drop i => obtain ⟨-, -, rfl⟩ := step_drop h; exact le_rfl
  | tick now =>
      obtain ⟨hnow, rfl⟩ := step_tick h
      exact hnow

/-- Only reports change the count of failures and the time of opening. -/
theorem counts_of_step {p : Params T} {l l' : Line ι T} {e : Event ι T}
    (h : step p l e = some l') (hreport : ∀ i, e ≠ .succeed i ∧ e ≠ .fail i) :
    l'.circuit.failures = l.circuit.failures ∧ l'.circuit.openedAt = l.circuit.openedAt := by
  cases e with
  | launch i =>
      obtain ⟨-, -, rfl⟩ := step_launch h
      cases hopen : l.circuit.openedAt <;> simp [Circuit.launch, hopen]
  | succeed i => exact absurd rfl (hreport i).1
  | fail i => exact absurd rfl (hreport i).2
  | drop i => obtain ⟨-, -, rfl⟩ := step_drop h; exact ⟨rfl, rfl⟩
  | tick now => obtain ⟨-, rfl⟩ := step_tick h; exact ⟨rfl, rfl⟩

/-! ### One probe at a time -/

/-- **Every step but a stale report keeps the probe slot with its one probe.** -/
theorem OneProbe.step {p : Params T} {l l' : Line ι T} {e : Event ι T} (hl : OneProbe l)
    (hfresh : ¬StaleReport l e) (h : step p l e = some l') : OneProbe l' := by
  cases e with
  | launch i =>
      obtain ⟨-, hadmits, rfl⟩ := step_launch h
      cases hopen : l.circuit.openedAt with
      | none =>
          -- a closed circuit: the call is no probe
          have hprobes : ∀ j, (⟨l.now, l.circuit.launch, Function.update l.calls i
              (.inFlight ⟨false, l.now⟩)⟩ : Line ι T).Probes j → l.Probes j := by
            intro j hj
            rw [probes_inFlight] at hj
            split at hj
            · simp at hj
            · exact hj
          simp only [Option.isSome_none]
          refine ⟨fun j hj => ?_, fun j k hj hk => hl.unique j k (hprobes j hj) (hprobes k hk)⟩
          simpa [Circuit.launch, hopen] using hl.slot j (hprobes j hj)
      | some t =>
          -- a tripped circuit lets a call through only while the slot is free
          have hfree : l.circuit.probing = false := by
            simp only [Circuit.admits, hopen, Bool.and_eq_true, Bool.not_eq_true'] at hadmits
            exact hadmits.2
          have hnone : ∀ j, ¬l.Probes j := fun j hj => by simp [hl.slot j hj] at hfree
          have honly : ∀ j, (⟨l.now, l.circuit.launch, Function.update l.calls i
              (.inFlight ⟨true, l.now⟩)⟩ : Line ι T).Probes j → j = i := by
            intro j hj
            rw [probes_inFlight] at hj
            by_contra hji
            rw [if_neg hji] at hj
            exact hnone j hj
          simp only [Option.isSome_some]
          refine ⟨fun j _ => by simp [Circuit.launch, hopen], fun j k hj hk => ?_⟩
          rw [honly j hj, honly k hk]
  | succeed i =>
      obtain ⟨a, -, rfl⟩ := step_succeed h
      refine .of_forall_not fun j hj => ?_
      obtain ⟨hji, hj⟩ := probes_ended.mp hj
      exact hl.not_probes_of_report (Or.inl rfl) hfresh hji hj
  | fail i =>
      obtain ⟨a, -, rfl⟩ := step_fail h
      refine .of_forall_not fun j hj => ?_
      obtain ⟨hji, hj⟩ := probes_ended.mp hj
      exact hl.not_probes_of_report (Or.inr rfl) hfresh hji hj
  | drop i =>
      obtain ⟨a, -, rfl⟩ := step_drop h
      exact ⟨fun j hj => hl.slot j (probes_ended.mp hj).2, fun j k hj hk =>
        hl.unique j k (probes_ended.mp hj).2 (probes_ended.mp hk).2⟩
  | tick now =>
      obtain ⟨-, rfl⟩ := step_tick h
      exact ⟨hl.slot, hl.unique⟩

/-- A run without stale reports never has two probes in flight. -/
theorem OneProbe.run {p : Params T} {l l' : Line ι T} {es : List (Event ι T)}
    (hl : OneProbe l) (hfresh : (system p).Each (fun l e => ¬StaleReport l e) l es)
    (hrun : (system p).exec l es = some l') : OneProbe l' :=
  Transition.System.invariant (fun _ _ _ hI hC hstep => hI.step hC hstep) hl hfresh hrun

/-! ### An open circuit -/

/-- The circuit has been tripped since it opened in `l₂`, and every call in flight was in
flight then or is a probe admitted after the cooldown. -/
structure Open (p : Params T) (l₂ l : Line ι T) : Prop where
  clock : l₂.now ≤ l.now
  opened : ∃ t, l.circuit.openedAt = some t ∧ l₂.now ≤ t
  calls : ∀ i a, l.calls i = .inFlight a → l₂.calls i = .inFlight a ∨
    a.probe = true ∧ l₂.now + p.cooldown ≤ a.time ∧ a.time ≤ l.now

/-- A circuit that has just opened is open. -/
theorem open_of_trip {p : Params T} {l₁ l₂ : Line ι T} {e : Event ι T}
    (h : step p l₁ e = some l₂) (h₁ : ¬l₁.circuit.tripped) (h₂ : l₂.circuit.tripped) :
    Open p l₂ l₂ := by
  refine ⟨le_rfl, ?_, fun i a hi => Or.inl hi⟩
  simp only [Circuit.tripped, Option.not_isSome_iff_eq_none] at h₁
  cases e with
  | launch i =>
      obtain ⟨-, -, rfl⟩ := step_launch h
      simp [Circuit.tripped, Circuit.launch, h₁] at h₂
  | succeed i =>
      obtain ⟨a, -, rfl⟩ := step_succeed h
      simp [Circuit.tripped, Circuit.succeed] at h₂
  | fail i =>
      obtain ⟨a, -, rfl⟩ := step_fail h
      simp only [Circuit.tripped, Circuit.fail, h₁] at h₂ ⊢
      split at h₂
      · next hle => exact ⟨l₁.now, by rw [if_pos hle], le_rfl⟩
      · simp at h₂
  | drop i =>
      obtain ⟨a, -, rfl⟩ := step_drop h
      simp [Circuit.tripped, h₁] at h₂
  | tick now =>
      obtain ⟨-, rfl⟩ := step_tick h
      simp [Circuit.tripped, h₁] at h₂

section Ordered

variable [IsOrderedAddMonoid T] {p : Params T} {l₂ l l' : Line ι T}

/-- **No call enters an open circuit before the cooldown**, counted from its opening. -/
theorem Open.launch {i : ι} (hl : Open p l₂ l) (h : step p l (.launch i) = some l') :
    l₂.now + p.cooldown ≤ l.now := by
  obtain ⟨-, hadmits, -⟩ := step_launch h
  obtain ⟨t, hopen, hle⟩ := hl.opened
  simp only [Circuit.admits, hopen, Bool.and_eq_true, Bool.not_eq_true', decide_eq_false_iff_not,
    not_lt] at hadmits
  calc l₂.now + p.cooldown ≤ t + p.cooldown := add_le_add_left hle p.cooldown
    _ ≤ t + (l.now - t) := add_le_add_right hadmits.1 t
    _ = l.now := add_sub_cancel t l.now

/-- **An open circuit is left only through a success**: of a call in flight when it opened,
or of a probe admitted after the cooldown. -/
theorem Open.step {e : Event ι T} (hl : Open p l₂ l) (h : HalfOpen.step p l e = some l') :
    Open p l₂ l' ∨ ∃ i a, e = .succeed i ∧ l.calls i = .inFlight a ∧
      (l₂.calls i = .inFlight a ∨
        a.probe = true ∧ l₂.now + p.cooldown ≤ a.time ∧ a.time ≤ l.now) := by
  obtain ⟨t, hopen, hle⟩ := hl.opened
  -- the calls still in flight after one has ended
  have hothers : ∀ i, ∀ j a, Function.update l.calls i .ended j = .inFlight a →
      l.calls j = .inFlight a := by
    intro i j a hj
    by_cases hji : j = i
    · subst hji
      simp at hj
    · rwa [Function.update_of_ne hji] at hj
  cases e with
  | launch i =>
      have hlate := hl.launch h
      obtain ⟨-, -, rfl⟩ := step_launch h
      refine Or.inl ⟨hl.clock, ⟨t, by simp [Circuit.launch, hopen], hle⟩, fun j a hj => ?_⟩
      by_cases hji : j = i
      · subst hji
        simp only [Function.update_self, hopen, Stage.inFlight.injEq] at hj
        subst hj
        exact Or.inr ⟨rfl, hlate, le_rfl⟩
      · exact hl.calls j a (by simpa [hji] using hj)
  | succeed i =>
      obtain ⟨a, hcall, -⟩ := step_succeed h
      exact Or.inr ⟨i, a, rfl, hcall, hl.calls i a hcall⟩
  | fail i =>
      obtain ⟨a, -, rfl⟩ := step_fail h
      refine Or.inl ⟨hl.clock, ?_, fun j a hj => hl.calls j a (hothers i j a hj)⟩
      by_cases hth : p.threshold ≤ l.circuit.failures + 1
      · exact ⟨l.now, by simp [Circuit.fail, hth], hl.clock⟩
      · exact ⟨t, by simp [Circuit.fail, hth, hopen], hle⟩
  | drop i =>
      obtain ⟨a, -, rfl⟩ := step_drop h
      exact Or.inl ⟨hl.clock, hl.opened, fun j a hj => hl.calls j a (hothers i j a hj)⟩
  | tick now =>
      obtain ⟨hnow, rfl⟩ := step_tick h
      refine Or.inl ⟨hl.clock.trans hnow, hl.opened, fun j a hj => ?_⟩
      exact (hl.calls j a hj).imp_right fun ⟨hp, hlate, hpast⟩ => ⟨hp, hlate, hpast.trans hnow⟩

end Ordered

/-! ### The probe slot -/

/-- **The slot leaks exactly when the last probe is dropped.** -/
theorem slotHeld_iff {p : Params T} {l l' : Line ι T} {e : Event ι T} (hl : SlotHeld l)
    (h : step p l e = some l') : SlotHeld l' ↔ ¬LastDropped l e := by
  cases e with
  | launch i =>
      obtain ⟨hcall, -, rfl⟩ := step_launch h
      refine iff_of_true ?_ (by simp [LastDropped])
      intro hprobing
      cases hopen : l.circuit.openedAt with
      | none =>
          obtain ⟨j, hj⟩ := hl (by simpa [Circuit.launch, hopen] using hprobing)
          have hji : j ≠ i := by
            rintro rfl
            obtain ⟨a, ha, -⟩ := hj
            simp [hcall] at ha
          exact ⟨j, probes_inFlight.mpr (by rwa [if_neg hji])⟩
      | some t => exact ⟨i, probes_inFlight.mpr (by simp)⟩
  | succeed i =>
      obtain ⟨a, -, rfl⟩ := step_succeed h
      exact iff_of_true (fun hprobing => by simp [Circuit.succeed] at hprobing)
        (by simp [LastDropped])
  | fail i =>
      obtain ⟨a, -, rfl⟩ := step_fail h
      exact iff_of_true (fun hprobing => by simp [Circuit.fail] at hprobing)
        (by simp [LastDropped])
  | drop i =>
      obtain ⟨a, -, rfl⟩ := step_drop h
      constructor
      · rintro hheld ⟨k, hk, hprobing, -, honly⟩
        obtain rfl := Event.drop.inj hk
        obtain ⟨j, hj⟩ := hheld hprobing
        obtain ⟨hji, hj⟩ := probes_ended.mp hj
        exact hji (honly j hj)
      · intro hlast hprobing
        obtain ⟨j, hj⟩ := hl hprobing
        by_contra hnone
        -- no other probe is left, so the one dropped was the last
        have honly : ∀ k, l.Probes k → k = i := fun k hk => by
          by_contra hki
          exact hnone ⟨k, probes_ended.mpr ⟨hki, hk⟩⟩
        exact hlast ⟨i, rfl, hprobing, honly j hj ▸ hj, honly⟩
  | tick now =>
      obtain ⟨-, rfl⟩ := step_tick h
      exact iff_of_true hl (by simp [LastDropped])

/-! ### The pace of the probes -/

/-- A tripped circuit has reached the threshold. -/
def Reached (p : Params T) (l : Line ι T) : Prop :=
  ∀ t, l.circuit.openedAt = some t → p.threshold ≤ l.circuit.failures

/-- Since a time: a probe was let through then, and it still holds the slot, or the circuit has
opened again. -/
structure Since (u : T) (l : Line ι T) : Prop where
  clock : u ≤ l.now
  slot : l.circuit.probing = true ∨ ∀ t, l.circuit.openedAt = some t → u ≤ t

section Pace

variable {p : Params T} {l l' : Line ι T} {e : Event ι T} {i : ι} {u : T}

/-- **Every step keeps a tripped circuit at the threshold.** -/
theorem Reached.step (hl : Reached p l) (h : step p l e = some l') : Reached p l' := by
  intro t ht
  by_cases hreport : ∀ i, e ≠ .succeed i ∧ e ≠ .fail i
  · obtain ⟨hfailures, hopened⟩ := counts_of_step h hreport
    rw [hfailures]
    exact hl t (hopened ▸ ht)
  · simp only [ne_eq, not_forall, not_and_or, not_not] at hreport
    obtain ⟨i, rfl | rfl⟩ := hreport
    · obtain ⟨a, -, rfl⟩ := step_succeed h
      simp [Circuit.succeed] at ht
    · obtain ⟨a, -, rfl⟩ := step_fail h
      simp only [Circuit.fail] at ht ⊢
      split at ht
      · next hle => exact_mod_cast hle
      · have := hl t ht
        push_cast
        omega

/-- A probe that is let through takes the slot. -/
theorem since_launch (htripped : l.circuit.tripped) (h : step p l (.launch i) = some l') :
    Since l.now l' := by
  obtain ⟨t, ht⟩ := Option.isSome_iff_exists.mp htripped
  obtain ⟨-, -, rfl⟩ := step_launch h
  exact ⟨le_rfl, .inl (by simp [Circuit.launch, ht])⟩

/-- **Every step keeps what holds since a probe**: the slot is given back by a report, and a
failure opens the circuit again, now. -/
theorem Since.step (hl : Since u l) (hreached : Reached p l) (h : HalfOpen.step p l e = some l') :
    Since u l' := by
  refine ⟨hl.clock.trans (now_le_of_step h), ?_⟩
  cases e with
  | launch i =>
      obtain ⟨-, -, rfl⟩ := step_launch h
      cases hopen : l.circuit.openedAt with
      | none => exact .inr fun t ht => by simp [Circuit.launch, hopen] at ht
      | some t => exact .inl (by simp [Circuit.launch, hopen])
  | succeed i =>
      obtain ⟨a, -, rfl⟩ := step_succeed h
      exact .inr fun t ht => by simp [Circuit.succeed] at ht
  | fail i =>
      obtain ⟨a, -, rfl⟩ := step_fail h
      refine .inr fun t ht => ?_
      simp only [Circuit.fail] at ht
      split at ht
      · rw [← Option.some.inj ht]
        exact hl.clock
      · next hbelow =>
          -- a tripped circuit is at the threshold, so this failure opens it again
          have := hreached t ht
          omega
  | drop i =>
      obtain ⟨a, -, rfl⟩ := step_drop h
      exact hl.slot
  | tick now =>
      obtain ⟨-, rfl⟩ := step_tick h
      exact hl.slot

/-- **The next probe comes a cooldown later.** -/
theorem Since.launch [IsOrderedAddMonoid T] (hl : Since u l) (htripped : l.circuit.tripped)
    (h : HalfOpen.step p l (.launch i) = some l') : u + p.cooldown ≤ l.now := by
  obtain ⟨-, hadmits, -⟩ := step_launch h
  obtain ⟨t, ht⟩ := Option.isSome_iff_exists.mp htripped
  simp only [Circuit.admits, ht, Bool.and_eq_true, Bool.not_eq_true', decide_eq_false_iff_not,
    not_lt] at hadmits
  obtain ⟨hcooled, hfree⟩ := hadmits
  have hle : u ≤ t := by
    rcases hl.slot with hprobing | hopened
    · simp [hfree] at hprobing
    · exact hopened t ht
  calc u + p.cooldown ≤ t + p.cooldown := add_le_add_left hle p.cooldown
    _ ≤ t + (l.now - t) := add_le_add_right hcooled t
    _ = l.now := add_sub_cancel t l.now

end Pace

end Protocol

/-! ### Times that keep a distance -/

/-- **Times at a distance from each other**: a span holds one for each distance in it, and one
more. -/
theorem length_le_of_apart {K : Type*} [Field K] [LinearOrder K] [IsStrictOrderedRing K]
    [FloorRing K] {ts : List K} {c s len : K} (hc : 0 < c) (hlen : 0 ≤ len)
    (hts : ts.Pairwise fun t u => c ≤ |t - u|) (hspan : ∀ t ∈ ts, s ≤ t ∧ t ≤ s + len) :
    (ts.length : K) ≤ len / c + 1 := by
  have hslots : (ts.map fun t => ⌊(t - s) / c⌋).Nodup := by
    rw [List.Nodup, List.pairwise_map]
    refine hts.imp fun {t u} hapart heq => ?_
    have hclose := Int.abs_sub_lt_one_of_floor_eq_floor heq
    rw [← sub_div, sub_sub_sub_cancel_right, abs_div, abs_of_pos hc, div_lt_one hc] at hclose
    exact absurd hapart (not_le.mpr hclose)
  have hsub : (ts.map fun t => ⌊(t - s) / c⌋).toFinset ⊆ Finset.Icc 0 ⌊len / c⌋ := by
    intro k hk
    obtain ⟨t, ht, rfl⟩ := List.mem_map.mp (List.mem_toFinset.mp hk)
    obtain ⟨hs, hle⟩ := hspan t ht
    rw [Finset.mem_Icc]
    exact ⟨Int.floor_nonneg.mpr (div_nonneg (sub_nonneg.mpr hs) hc.le),
      Int.floor_le_floor (div_le_div_of_nonneg_right (by linarith) hc.le)⟩
  have hcard := Finset.card_le_card hsub
  rw [List.toFinset_card_of_nodup hslots, List.length_map, Int.card_Icc, sub_zero] at hcard
  have hfloor : 0 ≤ ⌊len / c⌋ := Int.floor_nonneg.mpr (div_nonneg hlen hc.le)
  have hcount : (ts.length : ℤ) ≤ ⌊len / c⌋ + 1 := by omega
  calc (ts.length : K) ≤ ((⌊len / c⌋ + 1 : ℤ) : K) := by exact_mod_cast hcount
    _ = ⌊len / c⌋ + 1 := by push_cast; rfl
    _ ≤ len / c + 1 := by linarith [Int.floor_le (len / c)]

end HalfOpen
