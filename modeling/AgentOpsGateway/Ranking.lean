import Mathlib.Data.List.Nodup
import Mathlib.Order.Lattice

/-!
# Ranked Lists

`sortedDesc key xs` is `sorted(xs, key=key, reverse=True)`: from the largest key down, equal
keys in the order they came in. The entries of a list are told apart by their places, and
`Outranks` says which of two comes first: every entry of the ranked list stands behind
exactly those that outrank it.

## Main results

* `map_rankedIdx`: the ranked list is the list of the entries ranked with their places.
* `mem_take_rankedIdx`: **the first `k` of a ranked list are the entries outranked by fewer
  than `k` others**.
* `sorted_eq_of_perm`: sorting by a key that tells the entries apart forgets their order.
-/

namespace Python

/-! ### Positions in an ordered list -/

/-- In an ordered list the first `k` are those that fewer than `k` entries come before.
Induction on the list. -/
theorem mem_take_iff_countP {α : Type*} {r : α → α → Prop} [DecidableRel r]
    (hasymm : ∀ a b, r a b → ¬r b a) {l : List α} (hl : l.Pairwise r) (k : ℕ) (a : α) :
    a ∈ l.take k ↔ a ∈ l ∧ l.countP (fun b => r b a) < k := by
  induction l generalizing k with
  | nil => simp
  | cons b l ih =>
      obtain ⟨hb, hl⟩ := List.pairwise_cons.mp hl
      cases k with
      | zero => simp
      | succ k =>
          rw [List.take_succ_cons, List.mem_cons, List.mem_cons, ih hl k, List.countP_cons]
          constructor
          · rintro (rfl | ⟨ha, hk⟩)
            · have hnone : l.countP (fun c => decide (r c a)) = 0 :=
                List.countP_eq_zero.mpr fun c hc hca =>
                  hasymm a c (hb c hc) (of_decide_eq_true hca)
              have hself : ¬r a a := fun h => hasymm a a h h
              simp [hnone, hself]
            · simp only [hb a ha, decide_true, if_true]
              exact ⟨.inr ha, by omega⟩
          · rintro ⟨rfl | ha, hk⟩
            · exact .inl rfl
            · simp only [hb a ha, decide_true, if_true] at hk
              exact .inr ⟨ha, by omega⟩

/-! ### Ranking by a key -/

section Ranked

variable {α β : Type*} [LinearOrder β] (key : α → β)

/-- `sorted(xs, key=key, reverse=True)`. -/
def sortedDesc (xs : List α) : List α := xs.mergeSort fun a b => key b ≤ key a

/-- An entry comes before another: its key is larger, or the same at an earlier place. -/
def Outranks (p q : α × ℕ) : Prop := key q.1 < key p.1 ∨ key p.1 = key q.1 ∧ p.2 < q.2

instance decidableOutranks : DecidableRel (Outranks key) :=
  fun p q => inferInstanceAs (Decidable (key q.1 < key p.1 ∨ key p.1 = key q.1 ∧ p.2 < q.2))

/-- The entries with their places, ranked. -/
def rankedIdx (xs : List α) : List (α × ℕ) :=
  xs.zipIdx.mergeSort (List.zipIdxLE fun a b => key b ≤ key a)

/-- **The ranked list, without the places.** -/
theorem map_rankedIdx (xs : List α) : (rankedIdx key xs).map Prod.fst = sortedDesc key xs :=
  List.mergeSort_zipIdx

/-- Nothing outranks what outranks it. -/
theorem not_outranks_of_outranks (p q : α × ℕ) (h : Outranks key p q) : ¬Outranks key q p := by
  rintro (hlt | ⟨heq, hplace⟩)
  · rcases h with h | ⟨h, -⟩
    · exact lt_asymm h hlt
    · exact absurd h (ne_of_lt hlt)
  · rcases h with h | ⟨-, h⟩
    · exact absurd heq (ne_of_lt h)
    · omega

/-- The ranked entries are those of the list, at their places. -/
theorem mem_rankedIdx {xs : List α} {p : α × ℕ} : p ∈ rankedIdx key xs ↔ xs[p.2]? = some p.1 := by
  rw [rankedIdx, List.mem_mergeSort, List.mem_zipIdx_iff_getElem?]

/-- Each entry of the ranked list outranks those behind it. -/
theorem pairwise_rankedIdx (xs : List α) : (rankedIdx key xs).Pairwise (Outranks key) := by
  have htrans : ∀ a b c : α, decide (key b ≤ key a) = true → decide (key c ≤ key b) = true →
      decide (key c ≤ key a) = true := by
    intro a b c hab hbc
    exact decide_eq_true (le_trans (of_decide_eq_true hbc) (of_decide_eq_true hab))
  have htotal : ∀ a b : α, (decide (key b ≤ key a) || decide (key a ≤ key b)) = true := by
    intro a b
    rcases le_total (key b) (key a) with h | h <;> simp [h]
  have hsorted : (rankedIdx key xs).Pairwise
      fun p q => List.zipIdxLE (fun a b => decide (key b ≤ key a)) p q = true :=
    List.pairwise_mergeSort (List.zipIdxLE_trans htrans) (List.zipIdxLE_total htotal) _
  have hplaces : (rankedIdx key xs).Pairwise fun p q => p.2 ≠ q.2 := by
    have hnodup : (xs.zipIdx.map Prod.snd).Nodup := by
      rw [List.zipIdx_map_snd]
      exact List.nodup_range'
    have hperm := (List.mergeSort_perm xs.zipIdx
      (List.zipIdxLE fun a b => decide (key b ≤ key a))).map Prod.snd
    exact List.pairwise_map.mp (hperm.nodup_iff.mpr hnodup)
  refine (hsorted.and hplaces).imp fun {p q} h => ?_
  obtain ⟨hle, hne⟩ := h
  simp only [List.zipIdxLE, decide_eq_true_eq] at hle
  split at hle
  · next hqp =>
      split at hle
      · next hpq => exact .inr ⟨le_antisymm hpq hqp, by simp at hle; omega⟩
      · next hpq => exact .inl (lt_of_not_ge hpq)
  · simp at hle

/-- **The first `k` of a ranked list are the entries outranked by fewer than `k` others.** -/
theorem mem_take_rankedIdx {xs : List α} {k : ℕ} {p : α × ℕ} :
    p ∈ (rankedIdx key xs).take k ↔
      xs[p.2]? = some p.1 ∧ xs.zipIdx.countP (fun q => Outranks key q p) < k := by
  rw [mem_take_iff_countP (not_outranks_of_outranks key) (pairwise_rankedIdx key xs),
    mem_rankedIdx, rankedIdx, (List.mergeSort_perm _ _).countP_eq]

end Ranked

/-! ### Sorting by a key of its own -/

section Sorted

variable {α β : Type*} [LinearOrder β] {key : α → β} {xs ys : List α}

/-- Sorting by a key orders the keys. -/
theorem pairwise_mergeSort_key (key : α → β) (xs : List α) :
    (xs.mergeSort fun a b => key a ≤ key b).Pairwise fun a b => key a ≤ key b := by
  have h := @List.pairwise_mergeSort α (fun a b => decide (key a ≤ key b))
    (fun a b c hab hbc => decide_eq_true
      (le_trans (of_decide_eq_true hab) (of_decide_eq_true hbc)))
    (fun a b => by rcases le_total (key a) (key b) with h | h <;> simp [h]) xs
  exact h.imp fun hab => of_decide_eq_true hab

/-- Sorting by a key that tells the entries apart gives one list for every order they came
in. -/
theorem sorted_eq_of_perm (hkey : (xs.map key).Nodup) (hperm : ys.Perm xs) :
    (ys.mergeSort fun a b => key a ≤ key b) = xs.mergeSort fun a b => key a ≤ key b := by
  refine List.Perm.eq_of_pairwise (fun a b ha hb hab hba => ?_) (pairwise_mergeSort_key key ys)
    (pairwise_mergeSort_key key xs)
    ((List.mergeSort_perm ys _).trans (hperm.trans (List.mergeSort_perm xs _).symm))
  exact List.inj_on_of_nodup_map hkey (hperm.subset (List.mem_mergeSort.mp ha))
    (List.mem_mergeSort.mp hb) (le_antisymm hab hba)

end Sorted

end Python
