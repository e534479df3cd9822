import Mathlib.Algebra.BigOperators.Group.List.Basic
import Mathlib.Algebra.Order.Ring.Nat
import Mathlib.Algebra.Order.Ring.Defs
import Mathlib.Data.Nat.Cast.Order.Ring
import AgentOpsGateway.Transition

/-!
# Copies of a Transition System

`M.fleet` runs copies of `M` side by side that share nothing: an action names the copy that
takes it, so who is served by which copy is part of the run. A run of the fleet is a run of
each copy along its own actions, and what bounds a quantity of one copy bounds its sum over
the fleet as many times as there are copies.

## Main results

* `exec_fleet`: **a run of a fleet is a run of each copy**, along its own actions.
* `exec_own`: the same, from a copy at the end of the run.
* `sum_mapIdx_le`: **the sum rule** for a quantity that is bounded on each copy.
-/

namespace Transition

namespace System

variable {σ α : Type*} {M : System σ α} {ss ts : List σ} {i : ℕ}

/-- Copies of a system: an action is taken by the copy it names. -/
def fleet (M : System σ α) : System (List σ) (ℕ × α) where
  step ss a := ss[a.1]?.bind fun s => (M.step s a.2).map fun t => ss.set a.1 t

/-- The actions of one copy. -/
def own (i : ℕ) (as : List (ℕ × α)) : List α := (as.filter fun a => a.1 = i).map Prod.snd

theorem own_cons_self (a : α) (as : List (ℕ × α)) : own i ((i, a) :: as) = a :: own i as := by
  simp [own]

theorem own_cons_of_ne {j : ℕ} (hij : j ≠ i) (a : α) (as : List (ℕ × α)) :
    own i ((j, a) :: as) = own i as := by
  simp [own, hij]

/-- A step of the fleet is a step of the copy it names. -/
theorem step_fleet {a : ℕ × α} (h : M.fleet.step ss a = some ts) :
    ∃ s t, ss[a.1]? = some s ∧ M.step s a.2 = some t ∧ ts = ss.set a.1 t := by
  simp only [fleet, Option.bind_eq_some_iff, Option.map_eq_some_iff] at h
  obtain ⟨s, hs, t, ht, rfl⟩ := h
  exact ⟨s, t, hs, ht, rfl⟩

/-- **A run of a fleet is a run of each copy.** Induction on the run. -/
theorem exec_fleet {as : List (ℕ × α)} (hrun : M.fleet.exec ss as = some ts) :
    ts.length = ss.length ∧ ∀ i s, ss[i]? = some s →
      ∃ t, ts[i]? = some t ∧ M.exec s (own i as) = some t := by
  induction as generalizing ss with
  | nil =>
      obtain rfl := Option.some.inj hrun
      exact ⟨rfl, fun i s hs => ⟨s, hs, rfl⟩⟩
  | cons a as ih =>
      obtain ⟨j, a⟩ := a
      obtain ⟨us, hstep, hrest⟩ := exec_cons_eq_some.mp hrun
      obtain ⟨s₀, t₀, hs₀, ht₀, rfl⟩ := step_fleet hstep
      obtain ⟨hlength, hcopies⟩ := ih hrest
      have hj := lt_length_of_getElem? hs₀
      refine ⟨by rw [hlength, List.length_set], fun i s hs => ?_⟩
      by_cases hij : j = i
      · subst hij
        obtain rfl : s₀ = s := Option.some.inj (hs₀.symm.trans hs)
        obtain ⟨t, ht, hexec⟩ := hcopies j t₀ (by simp [hj])
        exact ⟨t, ht, by rw [own_cons_self]; exact exec_cons_eq_some.mpr ⟨t₀, ht₀, hexec⟩⟩
      · obtain ⟨t, ht, hexec⟩ := hcopies i s (by rw [List.getElem?_set_ne hij, hs])
        exact ⟨t, ht, by rw [own_cons_of_ne hij]; exact hexec⟩

/-- The copy behind a state that a run of the fleet ends in. -/
theorem exec_own {as : List (ℕ × α)} (hrun : M.fleet.exec ss as = some ts) {t : σ}
    (ht : ts[i]? = some t) : ∃ s, ss[i]? = some s ∧ M.exec s (own i as) = some t := by
  obtain ⟨hlength, hcopies⟩ := exec_fleet hrun
  obtain ⟨s, hs⟩ : ∃ s, ss[i]? = some s :=
    ⟨_, List.getElem?_eq_getElem (hlength ▸ lt_length_of_getElem? ht)⟩
  obtain ⟨t', ht', hexec⟩ := hcopies i s hs
  obtain rfl : t' = t := Option.some.inj (ht'.symm.trans ht)
  exact ⟨s, hs, hexec⟩

/-- What all actions of a run satisfy, those of a copy do. -/
theorem forall_mem_own {C : α → Prop} {as : List (ℕ × α)} (h : ∀ a ∈ as, C a.2) (i : ℕ) :
    ∀ a ∈ own i as, C a := by
  intro a ha
  obtain ⟨b, hb, rfl⟩ := List.mem_map.mp ha
  exact h b (List.mem_filter.mp hb).1

end System

/-! ### Sums over copies -/

section Sums

variable {σ K : Type*} [CommRing K] [LinearOrder K] [IsStrictOrderedRing K]

/-- **The sum rule**: a quantity bounded on each copy is bounded, as often as there are copies,
over all of them. Induction on the copies. -/
theorem sum_mapIdx_le {ss : List σ} {f : ℕ → σ → ℕ} {b : K}
    (h : ∀ i s, ss[i]? = some s → (f i s : K) ≤ b) :
    ((ss.mapIdx f).sum : K) ≤ ss.length * b := by
  induction ss generalizing f with
  | nil => simp
  | cons s ss ih =>
      have hhead : (f 0 s : K) ≤ b := h 0 s rfl
      have htail := @ih (fun i => f (i + 1)) fun i t ht => h (i + 1) t (by simpa using ht)
      rw [List.mapIdx_cons, List.sum_cons, List.length_cons, Nat.cast_add, Nat.cast_add,
        Nat.cast_one, add_mul, one_mul, add_comm (_ * b)]
      exact add_le_add hhead htail

end Sums

end Transition
