import Mathlib.Data.List.Basic

/-!
# Loops that Take a List Piece by Piece

A loop over a list may raise in any of its rounds, and otherwise puts out what its rounds put
out, one after the other. Such a loop takes a concatenation piece by piece: it returns where
it returns on both pieces, and what it puts out for the first stands before what it puts out
for the second. Two loops in a row do the same.

## Main results

* `Appends.of_cons`: **a loop takes its list piece by piece**, whatever a round does.
* `Appends.bind`: so do two loops in a row.
* `Appends.eq_nil_iff`: nothing is put out for a list where nothing is for each of its entries.
-/

namespace Appending

variable {α β γ ε : Type*}

/-- The function takes its list piece by piece. -/
def Appends (g : List α → Except ε (List β)) : Prop :=
  ∀ a b out, g (a ++ b) = .ok out ↔ ∃ x y, g a = .ok x ∧ g b = .ok y ∧ out = x ++ y

/-- **A loop takes its list piece by piece**, whatever a round does. Induction on the first
piece. -/
theorem Appends.of_cons {g : List α → Except ε (List β)} {round : α → Except ε (List β)}
    (hnil : g [] = .ok [])
    (hcons : ∀ e es, g (e :: es) = (round e).bind fun x => (g es).map fun y => x ++ y) :
    Appends g := by
  intro a b out
  induction a generalizing out with
  | nil => simp [hnil]
  | cons e a ih =>
      rw [List.cons_append, hcons, hcons]
      cases round e with
      | error e => simp [Except.bind]
      | ok x =>
          simp only [Except.bind]
          cases hrest : g (a ++ b) with
          | error e =>
              have hnone := fun out => (ih out).not.mp (by simp [hrest])
              simp only [Except.map, reduceCtorEq, false_iff]
              rintro ⟨x', y, hx', hy, -⟩
              cases ha : g a with
              | error e => simp [ha] at hx'
              | ok z => exact hnone (z ++ y) ⟨z, y, ha, hy, rfl⟩
          | ok rest =>
              obtain ⟨z, y, hz, hy, rfl⟩ := (ih rest).mp hrest
              simp [Except.map, hz, hy, eq_comm]

/-- A function that puts its list out again. -/
theorem Appends.ok : Appends fun a : List α => (.ok a : Except ε (List α)) := by
  intro a b out
  simp [eq_comm]

/-- **Two loops in a row** take their list piece by piece. -/
theorem Appends.bind {g : List α → Except ε (List β)} {h : List β → Except ε (List γ)}
    (hg : Appends g) (hh : Appends h) : Appends fun a => (g a).bind h := by
  intro a b out
  constructor
  · intro hab
    cases hgab : g (a ++ b) with
    | error e => simp [hgab, Except.bind] at hab
    | ok mid =>
        obtain ⟨x, y, hx, hy, rfl⟩ := (hg a b mid).mp hgab
        simp only [hgab, Except.bind] at hab
        obtain ⟨z, w, hz, hw, rfl⟩ := (hh x y out).mp hab
        exact ⟨z, w, by simp only [hx, Except.bind, hz], by simp only [hy, Except.bind, hw], rfl⟩
  · rintro ⟨z, w, hz, hw, rfl⟩
    cases hx : g a with
    | error e => simp [hx, Except.bind] at hz
    | ok x =>
        cases hy : g b with
        | error e => simp [hy, Except.bind] at hw
        | ok y =>
            simp only [hx, Except.bind] at hz
            simp only [hy, Except.bind] at hw
            have hab := (hg a b (x ++ y)).mpr ⟨x, y, hx, hy, rfl⟩
            simp only [hab, Except.bind]
            exact (hh x y (z ++ w)).mpr ⟨z, w, hz, hw, rfl⟩

/-- What is put out, where the loop returns. -/
theorem Appends.toOption {g : List α → Except ε (List β)} (hg : Appends g) (a b : List α) :
    (g (a ++ b)).toOption =
      (g a).toOption.bind fun x => (g b).toOption.map fun y => x ++ y := by
  have hiff : ∀ (r : Except ε (List β)) (out : List β), r.toOption = some out ↔ r = .ok out := by
    intro r out
    cases r <;> simp [Except.toOption]
  ext out
  simp only [Option.bind_eq_some_iff, Option.map_eq_some_iff, hiff, hg a b out]
  constructor
  · rintro ⟨x, y, hx, hy, rfl⟩
    exact ⟨x, hx, y, hy, rfl⟩
  · rintro ⟨x, hx, y, hy, rfl⟩
    exact ⟨x, y, hx, hy, rfl⟩

/-- **Nothing is put out** for a list where nothing is for each of its entries. -/
theorem Appends.eq_nil_iff {g : List α → Except ε (List β)} (hg : Appends g)
    (hnil : g [] = .ok []) (a : List α) : g a = .ok [] ↔ ∀ e ∈ a, g [e] = .ok [] := by
  induction a with
  | nil => simp [hnil]
  | cons e a ih =>
      have hcons := hg [e] a []
      rw [List.singleton_append] at hcons
      rw [hcons, List.forall_mem_cons, ← ih]
      constructor
      · rintro ⟨x, y, hx, hy, hxy⟩
        obtain ⟨rfl, rfl⟩ := List.append_eq_nil_iff.mp hxy.symm
        exact ⟨hx, hy⟩
      · rintro ⟨hx, hy⟩
        exact ⟨[], [], hx, hy, rfl⟩

end Appending
