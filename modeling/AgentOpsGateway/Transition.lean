import Mathlib.Data.List.Basic

/-!
# Transition Systems with an Executable Step

A `System σ α` is a partial step function: `step s a` is the state after action `a` in
state `s`, or `none` when the action is not enabled there. Interleavings are runs over
lists of actions, so "for every interleaving" is a quantifier over `List α`, and a
concrete interleaving is evaluated by `exec`.

Two predicates speak about a whole run from `s` along `as`:

* `Always P s as`: every state the run passes through, `s` included, satisfies `P`;
* `Each C s as`: every step the run takes, with the state it is taken in, satisfies `C`.

## Main results

* `System.exec_append`: a run splits at any point.
* `System.invariant`: **the invariant rule** — a predicate that holds at the start and is
  kept by every step meeting `C` holds at the end of every run whose steps meet `C`.
* `System.always_of_each`: the same for all the states on the way.
* `System.countP_add_le`: **the counting rule** — a run has no more of the steps that make a
  measure smaller than the measure at its start, where no step raises it.
* `System.length_add_le`: **the measure rule** — no run is longer than a measure that every
  step makes smaller.
* `System.always_iff_each`: the exact condition on the steps under which a run stays in a
  predicate.
* `System.exec_filter`: **the erasure rule** — what is left of a run without its invisible
  steps is a run that ends alike.
* `System.Leads.trans`: what can be reached in stages can be reached.
* `System.Simulates.run`: a step-by-step simulation, stuttering allowed, carries whole
  runs and the conditions on their steps.
-/

namespace Transition

/-! ### Tables of processes

A state keeps its processes in a list, in the order of their creation; a process is named
by its place. -/

section Tables

variable {α : Type*} {l : List α} {x y : α} {i j : ℕ}

/-- The entries of a table with one process more. -/
theorem getElem?_concat_eq_some :
    (l ++ [x])[i]? = some y ↔ l[i]? = some y ∨ i = l.length ∧ x = y := by
  rcases Nat.lt_trichotomy i l.length with hlt | heq | hgt
  · simp [List.getElem?_append_left hlt, Nat.ne_of_lt hlt]
  · subst heq
    simp
  · have hlen : (l ++ [x]).length ≤ i := by simpa using Nat.succ_le_of_lt hgt
    simp [List.getElem?_eq_none hlen, List.getElem?_eq_none (Nat.le_of_lt hgt),
      Nat.ne_of_gt hgt]

/-- The entries of a table in which one process has moved on. -/
theorem getElem?_set_eq_some (hj : j < l.length) :
    (l.set j x)[i]? = some y ↔ i = j ∧ x = y ∨ i ≠ j ∧ l[i]? = some y := by
  by_cases hij : i = j
  · subst hij
    simp [hj]
  · simp [List.getElem?_set_ne (Ne.symm hij), hij]

/-- The place of an entry. -/
theorem lt_length_of_getElem? (h : l[i]? = some x) : i < l.length :=
  (List.getElem?_eq_some_iff.mp h).1

/-- A process that moves on in a table with hidden processes moves on in the table of the
visible ones. Induction on the table. -/
theorem filter_set_findIdx? {p q : α → Bool} (hqp : ∀ x, q x = true → p x = true)
    (hy : p y = true) (hi : l.findIdx? q = some i) :
    ∃ j, (l.filter p).findIdx? q = some j ∧ (l.filter p)[j]? = l[i]? ∧
      (l.set i y).filter p = (l.filter p).set j y := by
  induction l generalizing i with
  | nil => simp at hi
  | cons x l ih =>
      rw [List.findIdx?_cons] at hi
      by_cases hq : q x = true
      · rw [if_pos hq] at hi
        obtain rfl := Option.some.inj hi
        refine ⟨0, ?_, ?_, ?_⟩ <;> simp [hqp x hq, hq, hy, List.findIdx?_cons]
      · rw [if_neg hq, Option.map_eq_some_iff] at hi
        obtain ⟨i', hi', rfl⟩ := hi
        obtain ⟨j, hj, hget, hset⟩ := ih hi'
        by_cases hp : p x = true
        · refine ⟨j + 1, ?_, ?_, ?_⟩
          · simp [hp, hq, List.findIdx?_cons, hj]
          · simpa [hp] using hget
          · simp [hp, hset]
        · refine ⟨j, ?_, ?_, ?_⟩
          · simpa [hp] using hj
          · simpa [hp] using hget
          · simp [hp, hset]

end Tables

/-- A labelled transition system given by an executable partial step function. -/
structure System (σ α : Type*) where
  /-- The state after the action, or `none` where the action is not enabled. -/
  step : σ → α → Option σ

namespace System

variable {σ α τ β : Type*} (M : System σ α)

/-- Run a list of actions; `none` as soon as one of them is not enabled. -/
def exec : σ → List α → Option σ
  | s, [] => some s
  | s, a :: as => (M.step s a).bind fun t => exec t as

/-- Every state along the run from `s` satisfies `P`, the first one included. -/
def Always (P : σ → Prop) : σ → List α → Prop
  | s, [] => P s
  | s, a :: as => P s ∧ ∀ t, M.step s a = some t → Always P t as

/-- Every step along the run from `s` satisfies `C`, read in the state it is taken in. -/
def Each (C : σ → α → Prop) : σ → List α → Prop
  | _, [] => True
  | s, a :: as => C s a ∧ ∀ t, M.step s a = some t → Each C t as

variable {M}

@[simp] theorem exec_nil (s : σ) : M.exec s [] = some s := rfl

/-- A nonempty run is a first step followed by a run. -/
theorem exec_cons_eq_some {s u : σ} {a : α} {as : List α} :
    M.exec s (a :: as) = some u ↔ ∃ t, M.step s a = some t ∧ M.exec t as = some u := by
  simp only [exec, Option.bind_eq_some_iff]

/-- A run along a concatenation is a run along the first part, then along the second. -/
theorem exec_append (s : σ) (as bs : List α) :
    M.exec s (as ++ bs) = (M.exec s as).bind fun t => M.exec t bs := by
  induction as generalizing s with
  | nil => rfl
  | cons a as ih =>
      simp only [List.cons_append, exec, Option.bind_assoc]
      exact congrArg _ (funext fun t => ih t)

/-- A run that ends with one more step. -/
theorem exec_concat_eq_some {s u : σ} {as : List α} {a : α} :
    M.exec s (as ++ [a]) = some u ↔
      ∃ t, M.exec s as = some t ∧ M.step t a = some u := by
  simp [exec_append, exec, Option.bind_eq_some_iff]

/-- The first state of a run satisfies what all its states satisfy. -/
theorem Always.head {P : σ → Prop} {s : σ} {as : List α} (h : M.Always P s as) : P s := by
  cases as with
  | nil => exact h
  | cons a as => exact h.1

/-- The last state of a run satisfies what all its states satisfy. -/
theorem Always.last {P : σ → Prop} {s u : σ} {as : List α} (h : M.Always P s as)
    (hrun : M.exec s as = some u) : P u := by
  induction as generalizing s with
  | nil =>
      obtain rfl := Option.some.inj hrun
      exact h
  | cons a as ih =>
      obtain ⟨t, hstep, hrest⟩ := exec_cons_eq_some.mp hrun
      exact ih (h.2 t hstep) hrest

/-- Conditions on steps are weakened pointwise. -/
theorem Each.imp {C D : σ → α → Prop} (hCD : ∀ s a, C s a → D s a) {s : σ} {as : List α}
    (h : M.Each C s as) : M.Each D s as := by
  induction as generalizing s with
  | nil => trivial
  | cons a as ih => exact ⟨hCD s a h.1, fun t hstep => ih (h.2 t hstep)⟩

/-- Two conditions hold at every step exactly when their conjunction does. -/
theorem each_and {C D : σ → α → Prop} {s : σ} {as : List α} :
    M.Each (fun t a => C t a ∧ D t a) s as ↔ M.Each C s as ∧ M.Each D s as := by
  induction as generalizing s with
  | nil => simp [Each]
  | cons a as ih =>
      constructor
      · rintro ⟨⟨hC, hD⟩, h⟩
        exact ⟨⟨hC, fun t ht => (ih.mp (h t ht)).1⟩, hD, fun t ht => (ih.mp (h t ht)).2⟩
      · rintro ⟨⟨hC, h₁⟩, hD, h₂⟩
        exact ⟨⟨hC, hD⟩, fun t ht => ih.mpr ⟨h₁ t ht, h₂ t ht⟩⟩

/-- **The invariant rule.** What holds at the start and is kept by every step that meets
`C` holds at the end of every run whose steps meet `C`. -/
theorem invariant {C : σ → α → Prop} {I : σ → Prop}
    (hkeep : ∀ s a t, I s → C s a → M.step s a = some t → I t)
    {s u : σ} {as : List α} (h₀ : I s) (hC : M.Each C s as) (hrun : M.exec s as = some u) :
    I u := by
  induction as generalizing s with
  | nil =>
      obtain rfl := Option.some.inj hrun
      exact h₀
  | cons a as ih =>
      obtain ⟨t, hstep, hrest⟩ := exec_cons_eq_some.mp hrun
      exact ih (hkeep s a t h₀ hC.1 hstep) (hC.2 t hstep) hrest

/-- The invariant rule for a system whose steps need no condition. -/
theorem invariant' {I : σ → Prop} (hkeep : ∀ s a t, I s → M.step s a = some t → I t)
    {s u : σ} {as : List α} (h₀ : I s) (hrun : M.exec s as = some u) : I u := by
  have htrue : M.Each (fun _ _ => True) s as := by
    clear hrun h₀
    induction as generalizing s with
    | nil => trivial
    | cons a as ih => exact ⟨trivial, fun t _ => ih⟩
  exact invariant (fun s a t hI _ hstep => hkeep s a t hI hstep) h₀ htrue hrun

/-- The invariant rule for all the states of a run, with the invariant weakened at each
state to what is to be shown there. -/
theorem always_of_each {C : σ → α → Prop} {I P : σ → Prop}
    (hkeep : ∀ s a t, I s → C s a → M.step s a = some t → I t) (hP : ∀ s, I s → P s)
    {s : σ} {as : List α} (h₀ : I s) (hC : M.Each C s as) : M.Always P s as := by
  induction as generalizing s with
  | nil => exact hP s h₀
  | cons a as ih =>
      exact ⟨hP s h₀, fun t hstep => ih (hkeep s a t h₀ hC.1 hstep) (hC.2 t hstep)⟩

/-- The invariant rule for the steps of a run: what each of them satisfies where the
invariant holds. -/
theorem each_of_each {C D : σ → α → Prop} {I : σ → Prop}
    (hkeep : ∀ s a t, I s → C s a → M.step s a = some t → I t)
    (hD : ∀ s a t, I s → C s a → M.step s a = some t → D s a)
    {s u : σ} {as : List α} (h₀ : I s) (hC : M.Each C s as) (hrun : M.exec s as = some u) :
    M.Each D s as := by
  induction as generalizing s with
  | nil => trivial
  | cons a as ih =>
      obtain ⟨t, hstep, hrest⟩ := exec_cons_eq_some.mp hrun
      refine ⟨hD s a t h₀ hC.1 hstep, fun t' hstep' => ?_⟩
      obtain rfl : t = t' := Option.some.inj (hstep.symm.trans hstep')
      exact ih (hkeep s a t h₀ hC.1 hstep) (hC.2 t hstep) hrest

/-- What a step satisfies because of its action alone. -/
theorem each_of_mem {C : σ → α → Prop} {s : σ} {as : List α} (h : ∀ a ∈ as, ∀ s, C s a) :
    M.Each C s as := by
  induction as generalizing s with
  | nil => trivial
  | cons a as ih =>
      exact ⟨h a List.mem_cons_self s, fun t _ => ih fun b hb => h b (List.mem_cons_of_mem a hb)⟩

variable (M) in
/-- Check a condition along a run. -/
def check (c : σ → α → Bool) : σ → List α → Bool
  | _, [] => true
  | s, a :: as => c s a && (M.step s a).all fun t => check c t as

/-- A run passes the check exactly when all its steps meet the condition. -/
theorem check_iff {c : σ → α → Bool} {s : σ} {as : List α} :
    M.check c s as = true ↔ M.Each (fun s a => c s a = true) s as := by
  induction as generalizing s with
  | nil => simp [check, Each]
  | cons a as ih => simp only [check, Each, Bool.and_eq_true, Option.all_eq_true, ih]

/-- **The counting rule.** Where the steps `p` counts make a measure smaller and the other ones
do not raise it, a run has no more of them than the measure at its start. -/
theorem countP_add_le {C : σ → α → Prop} {I : σ → Prop} {m : σ → ℕ} {p : α → Bool}
    (hkeep : ∀ s a t, I s → C s a → M.step s a = some t → I t)
    (hle : ∀ s a t, I s → C s a → M.step s a = some t → m t ≤ m s)
    (hless : ∀ s a t, I s → C s a → M.step s a = some t → p a = true → m t < m s)
    {s u : σ} {as : List α} (h₀ : I s) (hC : M.Each C s as) (hrun : M.exec s as = some u) :
    as.countP p + m u ≤ m s := by
  induction as generalizing s with
  | nil =>
      obtain rfl := Option.some.inj hrun
      simp
  | cons a as ih =>
      obtain ⟨t, hstep, hrest⟩ := exec_cons_eq_some.mp hrun
      have htail := ih (hkeep s a t h₀ hC.1 hstep) (hC.2 t hstep) hrest
      by_cases hp : p a = true
      · have hhead := hless s a t h₀ hC.1 hstep hp
        rw [List.countP_cons_of_pos hp]
        omega
      · have hhead := hle s a t h₀ hC.1 hstep
        rw [List.countP_cons_of_neg hp]
        omega

/-- **The measure rule.** Where every step that meets `C` makes a measure smaller, a run is
no longer than the measure at its start. -/
theorem length_add_le {C : σ → α → Prop} {I : σ → Prop} {m : σ → ℕ}
    (hkeep : ∀ s a t, I s → C s a → M.step s a = some t → I t)
    (hless : ∀ s a t, I s → C s a → M.step s a = some t → m t < m s)
    {s u : σ} {as : List α} (h₀ : I s) (hC : M.Each C s as) (hrun : M.exec s as = some u) :
    as.length + m u ≤ m s := by
  have hcount := countP_add_le (p := fun _ => true) hkeep
    (fun s a t hI hCa hstep => Nat.le_of_lt (hless s a t hI hCa hstep))
    (fun s a t hI hCa hstep _ => hless s a t hI hCa hstep) h₀ hC hrun
  rwa [List.countP_true] at hcount

/-- A run that stays in `P` and takes one more step into `P` stays in `P`. -/
theorem Always.concat {P : σ → Prop} {s t : σ} {as : List α} {a : α} (h : M.Always P s as)
    (hrun : M.exec s as = some t) (hlast : ∀ u, M.step t a = some u → P u) :
    M.Always P s (as ++ [a]) := by
  induction as generalizing s with
  | nil =>
      obtain rfl := Option.some.inj hrun
      exact ⟨h, hlast⟩
  | cons b as ih =>
      obtain ⟨v, hstep, hrest⟩ := exec_cons_eq_some.mp hrun
      refine ⟨h.1, fun w hw => ?_⟩
      obtain rfl : v = w := Option.some.inj (hstep.symm.trans hw)
      exact ih (h.2 v hstep) hrest

/-- Under an invariant `I`, where every step taken from a state that satisfies `P` leads to
one that does exactly when it meets `C`, a run stays in `P` exactly when all its steps meet
`C`. -/
theorem always_iff_each {C : σ → α → Prop} {I P : σ → Prop}
    (hkeep : ∀ s a t, I s → M.step s a = some t → I t)
    (hstep : ∀ s a t, I s → P s → M.step s a = some t → (P t ↔ C s a)) {s u : σ} {as : List α}
    (hI : I s) (h₀ : P s) (hrun : M.exec s as = some u) :
    M.Always P s as ↔ M.Each C s as := by
  induction as generalizing s with
  | nil => exact ⟨fun _ => trivial, fun _ => h₀⟩
  | cons a as ih =>
      obtain ⟨t, ht, hrest⟩ := exec_cons_eq_some.mp hrun
      have hiff := hstep s a t hI h₀ ht
      have hI := hkeep s a t hI ht
      simp only [Always, Each, ht, Option.some.injEq, forall_eq']
      constructor
      · rintro ⟨-, hrun⟩
        exact ⟨hiff.mp hrun.head, (ih hI hrun.head hrest).mp hrun⟩
      · rintro ⟨hC, heach⟩
        exact ⟨h₀, (ih hI (hiff.mpr hC) hrest).mpr heach⟩

/-- A condition that the last state of a run shows to have held at all its steps. -/
theorem each_of_last {C : σ → α → Prop} {I P : σ → Prop}
    (hkeep : ∀ s a t, I s → M.step s a = some t → I t)
    (hback : ∀ s a t, I s → M.step s a = some t → P t → P s ∧ C s a) {s u : σ} {as : List α}
    (h₀ : I s) (hrun : M.exec s as = some u) (hu : P u) : P s ∧ M.Each C s as := by
  induction as generalizing s with
  | nil => exact ⟨Option.some.inj hrun ▸ hu, trivial⟩
  | cons a as ih =>
      obtain ⟨t, hstep, hrest⟩ := exec_cons_eq_some.mp hrun
      obtain ⟨ht, heach⟩ := ih (hkeep s a t h₀ hstep) hrest
      obtain ⟨hs, hC⟩ := hback s a t h₀ hstep ht
      refine ⟨hs, hC, fun t' ht' => ?_⟩
      obtain rfl := Option.some.inj (hstep.symm.trans ht')
      exact heach

/-- **Erasure.** Where hidden steps are invisible along `R` and visible ones are matched by
themselves, what is left of a run without its hidden steps is a run that ends alike. -/
theorem exec_filter {N : System τ α} {R : σ → τ → Prop} {C : σ → α → Prop} {visible : α → Bool}
    (hvisible : ∀ s a s' t, R s t → C s a → visible a = true → M.step s a = some s' →
      ∃ t', N.step t a = some t' ∧ R s' t')
    (hhidden : ∀ s a s' t, R s t → C s a → visible a = false → M.step s a = some s' → R s' t)
    {s u : σ} {t : τ} {as : List α} (hR : R s t) (hC : M.Each C s as)
    (hrun : M.exec s as = some u) : ∃ v, N.exec t (as.filter visible) = some v ∧ R u v := by
  induction as generalizing s t with
  | nil =>
      obtain rfl := Option.some.inj hrun
      exact ⟨t, rfl, hR⟩
  | cons a as ih =>
      obtain ⟨s', hstep, hrest⟩ := exec_cons_eq_some.mp hrun
      cases ha : visible a with
      | true =>
          obtain ⟨t', htstep, hR'⟩ := hvisible s a s' t hR hC.1 ha hstep
          obtain ⟨v, hv, hR''⟩ := ih hR' (hC.2 s' hstep) hrest
          rw [List.filter_cons_of_pos ha]
          exact ⟨v, exec_cons_eq_some.mpr ⟨t', htstep, hv⟩, hR''⟩
      | false =>
          rw [List.filter_cons_of_neg (by simp [ha])]
          exact ih (hhidden s a s' t hR hC.1 ha hstep) (hC.2 s' hstep) hrest

variable (M) in
/-- `M` is simulated by `N` along the relation `R`: every step of `M` is, as `lab` says,
either a step of `N` or invisible to it. -/
def Simulates (N : System τ β) (R : σ → τ → Prop) (lab : σ → α → Option β) : Prop :=
  ∀ s a s' t, R s t → M.step s a = some s' →
    match lab s a with
    | none => R s' t
    | some b => ∃ t', N.step t b = some t' ∧ R s' t'

/-- **A simulation carries runs.** A run of `M` is matched by a run of `N`, and a
condition on the steps of `M` that implies one on the matching steps of `N` is carried
with it. -/
theorem Simulates.run {N : System τ β} {R : σ → τ → Prop} {lab : σ → α → Option β}
    (hsim : M.Simulates N R lab) {C : σ → α → Prop} {D : τ → β → Prop}
    (hCD : ∀ s a t b, R s t → C s a → lab s a = some b → D t b)
    {s u : σ} {t : τ} {as : List α} (hR : R s t) (hC : M.Each C s as)
    (hrun : M.exec s as = some u) :
    ∃ bs v, N.exec t bs = some v ∧ R u v ∧ N.Each D t bs := by
  induction as generalizing s t with
  | nil =>
      obtain rfl := Option.some.inj hrun
      exact ⟨[], t, rfl, hR, trivial⟩
  | cons a as ih =>
      obtain ⟨s', hstep, hrest⟩ := exec_cons_eq_some.mp hrun
      have hmatch := hsim s a s' t hR hstep
      cases hlab : lab s a with
      | none =>
          rw [hlab] at hmatch
          exact ih hmatch (hC.2 s' hstep) hrest
      | some b =>
          rw [hlab] at hmatch
          obtain ⟨t', htb, hR'⟩ := hmatch
          obtain ⟨bs, v, hbs, hv, hD⟩ := ih hR' (hC.2 s' hstep) hrest
          refine ⟨b :: bs, v, exec_cons_eq_some.mpr ⟨t', htb, hbs⟩, hv, ?_⟩
          refine ⟨hCD s a t b hR hC.1 hlab, fun t'' ht'' => ?_⟩
          rw [htb] at ht''
          obtain rfl := Option.some.inj ht''
          exact hD

variable (M) in
/-- Actions of a kind lead from one state to another. -/
def Leads (C : α → Prop) (s t : σ) : Prop := ∃ as, (∀ a ∈ as, C a) ∧ M.exec s as = some t

theorem Leads.refl {C : α → Prop} (s : σ) : M.Leads C s s := ⟨[], by simp, rfl⟩

theorem Leads.trans {C : α → Prop} {s t u : σ} (h : M.Leads C s t) (h' : M.Leads C t u) :
    M.Leads C s u := by
  obtain ⟨as, has, hrun⟩ := h
  obtain ⟨bs, hbs, hrun'⟩ := h'
  refine ⟨as ++ bs, fun a ha => ?_, by rw [exec_append, hrun, Option.bind_some, hrun']⟩
  exact (List.mem_append.mp ha).elim (has a) (hbs a)

/-- One step leads on. -/
theorem leads_step {C : α → Prop} {s t : σ} {a : α} (hstep : M.step s a = some t) (ha : C a) :
    M.Leads C s t :=
  ⟨[a], by simpa using ha, exec_cons_eq_some.mpr ⟨t, hstep, rfl⟩⟩

theorem Leads.imp {C D : α → Prop} {s t : σ} (hCD : ∀ a, C a → D a) (h : M.Leads C s t) :
    M.Leads D s t := by
  obtain ⟨as, has, hrun⟩ := h
  exact ⟨as, fun a ha => hCD a (has a ha), hrun⟩

/-- What every step of the kind keeps holds where they lead. -/
theorem Leads.keeps {C : α → Prop} {I : σ → Prop} {s t : σ} (h : M.Leads C s t) (h₀ : I s)
    (hkeep : ∀ s a t, I s → C a → M.step s a = some t → I t) : I t := by
  obtain ⟨as, has, hrun⟩ := h
  exact invariant hkeep h₀ (each_of_mem fun a ha _ => has a ha) hrun

/-- Where each step of the kind in `M` is one in `N`, what it leads to is led to in `N`. -/
theorem Leads.map {N : System τ β} {C : α → Prop} {D : β → Prop} {s s' : σ} {f : σ → τ}
    (h : M.Leads C s s')
    (hstep : ∀ s a s', C a → M.step s a = some s' → ∃ b, D b ∧ N.step (f s) b = some (f s')) :
    N.Leads D (f s) (f s') := by
  obtain ⟨as, has, hrun⟩ := h
  induction as generalizing s with
  | nil =>
      obtain rfl := Option.some.inj hrun
      exact .refl _
  | cons a as ih =>
      obtain ⟨t, ht, hrest⟩ := exec_cons_eq_some.mp hrun
      obtain ⟨b, hb, hstepb⟩ := hstep s a t (has a List.mem_cons_self) ht
      exact (leads_step hstepb hb).trans (ih (fun a ha => has a (List.mem_cons_of_mem _ ha)) hrest)

end System

end Transition
