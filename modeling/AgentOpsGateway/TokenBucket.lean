import Mathlib.Algebra.Order.Ring.Defs
import Mathlib.Tactic.Linarith
import Mathlib.Tactic.Ring

/-!
# The Token Bucket

A bucket holds at most `capacity` tokens and is refilled at `rate` by the time since it was
last polled. A poll takes a token if there is one, and otherwise leaves only its time
behind. What the bucket holds is a saturating counter; what it admits is the law of all
windows: a poll is admitted exactly where no window that ends with it would see more
admissions than `capacity + rate * length`.

## Main results

* `le_level_after_iff`: **the level is the least of the rooms left by the windows that are
  open** (the min-plus form of the counter).
* `admitted_iff`: **the law of all windows**, for each poll of a history.
* `countP_window_le`, `exists_window_of_rejected`: the bound on every window, and that every
  rejection is one this bound demands.
* `Alike.skip`: a rejected poll leaves no trace in what the bucket holds later.
* `admissions_of_rate_zero`: what a bucket admits that is not refilled.
-/

namespace TokenBucket

variable {K : Type*} [CommRing K] [LinearOrder K]

/-- What a bucket is made with. -/
structure Params (K : Type*) where
  capacity : K
  rate : K

/-- The tokens left by the last poll, and its time; `none` before the first one. -/
abbrev Bucket (K : Type*) := Option (K × K)

/-- The time and the answer of a poll. -/
structure Poll (K : Type*) where
  time : K
  admitted : Bool
  deriving DecidableEq

/-- The tokens in the bucket at a time. -/
def level (p : Params K) : Bucket K → K → K
  | none, _ => p.capacity
  | some (tokens, last), time => min p.capacity (tokens + (time - last) * p.rate)

/-- Take a token, if there is one. -/
def poll (p : Params K) (b : Bucket K) (time : K) : Bool × Bucket K :=
  if level p b time < 1 then (false, some (level p b time, time))
  else (true, some (level p b time - 1, time))

/-- The bucket after the polls of a history. -/
def after (p : Params K) (b : Bucket K) : List (Poll K) → Bucket K
  | [] => b
  | e :: polls =>
    after p (some (level p b e.time - (if e.admitted then 1 else 0), e.time)) polls

/-- Poll a bucket at each of the times. -/
def serve (p : Params K) (b : Bucket K) : List K → List (Poll K)
  | [] => []
  | time :: times => ⟨time, (poll p b time).1⟩ :: serve p (poll p b time).2 times

/-- How many of the polls were admitted. -/
def admissions (polls : List (Poll K)) : ℕ :=
  polls.countP Poll.admitted

omit [CommRing K] [LinearOrder K] in
@[simp] theorem admissions_nil : admissions ([] : List (Poll K)) = 0 := rfl

omit [CommRing K] [LinearOrder K] in
theorem admissions_cons (e : Poll K) (polls : List (Poll K)) :
    admissions (e :: polls) = admissions polls + if e.admitted then 1 else 0 :=
  List.countP_cons

/-! ### The level -/

variable (p : Params K)

theorem level_le_capacity (b : Bucket K) (time : K) : level p b time ≤ p.capacity := by
  cases b with
  | none => exact le_refl _
  | some s => exact min_le_left _ _

/-- The first component of a poll. -/
theorem poll_fst (b : Bucket K) (time : K) : (poll p b time).1 = decide (1 ≤ level p b time) := by
  by_cases h : level p b time < 1
  · simp [poll, h, not_le.mpr h]
  · simp [poll, h, not_lt.mp h]

/-- The second component of a poll. -/
theorem poll_snd (b : Bucket K) (time : K) :
    (poll p b time).2 =
      some (level p b time - (if (poll p b time).1 then 1 else 0), time) := by
  by_cases h : level p b time < 1 <;> simp [poll, h]

variable [IsStrictOrderedRing K]

/-- A bucket has room for `x` after some polls exactly where the capacity has, what was
left at the start has, and so has each window that begins with one of the polls. Induction
on the polls: the first of them turns what was left at the start into its own window. -/
theorem le_level_after_iff (polls : List (Poll K)) (b : Bucket K) (time x : K) :
    x ≤ level p (after p b polls) time ↔
      x ≤ p.capacity ∧
      (∀ s ∈ b, x + admissions polls ≤ s.1 + (time - s.2) * p.rate) ∧
      ∀ (j : ℕ) (e : Poll K), polls[j]? = some e →
        x + admissions (polls.drop j) ≤ p.capacity + (time - e.time) * p.rate := by
  induction polls generalizing b with
  | nil =>
      cases b with
      | none => simp [after, level]
      | some s => simp [after, level]
  | cons e polls ih =>
      -- what the first poll leaves bounds what was left before it and its own window
      have hfirst : x + admissions polls ≤
            level p b e.time - (if e.admitted then 1 else 0) + (time - e.time) * p.rate ↔
          (∀ s ∈ b, x + admissions (e :: polls) ≤ s.1 + (time - s.2) * p.rate) ∧
          x + admissions (e :: polls) ≤ p.capacity + (time - e.time) * p.rate := by
        have hshift : x + admissions polls ≤
              level p b e.time - (if e.admitted then 1 else 0) + (time - e.time) * p.rate ↔
            x + admissions (e :: polls) - (time - e.time) * p.rate ≤ level p b e.time := by
          rw [admissions_cons]
          push_cast
          constructor <;> intro h <;> linarith
        rw [hshift]
        cases b with
        | none => simp [level]
        | some s =>
            have hsplit : (e.time - s.2) * p.rate + (time - e.time) * p.rate =
                (time - s.2) * p.rate := by ring
            simp only [level, le_min_iff, Option.mem_some_iff, forall_eq', ← hsplit,
              sub_le_iff_le_add]
            rw [and_comm, add_assoc]
      have hwindows : (∀ (j : ℕ) (f : Poll K), (e :: polls)[j]? = some f →
            x + admissions ((e :: polls).drop j) ≤ p.capacity + (time - f.time) * p.rate) ↔
          x + admissions (e :: polls) ≤ p.capacity + (time - e.time) * p.rate ∧
          ∀ (j : ℕ) (f : Poll K), polls[j]? = some f →
            x + admissions (polls.drop j) ≤ p.capacity + (time - f.time) * p.rate := by
        rw [← Nat.and_forall_add_one]
        simp
      rw [after, ih, hwindows]
      simp only [Option.mem_some_iff, forall_eq', hfirst]
      tauto

/-! ### The law of all windows -/

omit [IsStrictOrderedRing K] in
/-- A poll of a history is answered by the bucket after the polls before it. -/
theorem admitted_of_getElem? {times : List K} {b : Bucket K} {k : ℕ} {e : Poll K}
    (he : (serve p b times)[k]? = some e) :
    e.admitted = (poll p (after p b ((serve p b times).take k)) e.time).1 := by
  induction times generalizing b k with
  | nil => simp [serve] at he
  | cons time times ih =>
      cases k with
      | zero =>
          obtain rfl : (⟨time, (poll p b time).1⟩ : Poll K) = e := by simpa [serve] using he
          rfl
      | succ k =>
          rw [serve, List.getElem?_cons_succ] at he
          rw [ih he, serve, List.take_succ_cons, after, poll_snd]

/-- **The law of all windows.** A poll is admitted exactly where every window that begins
with a poll up to it has room for one more admission. -/
theorem admitted_iff {times : List K} {k : ℕ} {e : Poll K}
    (he : (serve p none times)[k]? = some e) :
    e.admitted = true ↔
      ∀ j ≤ k, ∀ f, (serve p none times)[j]? = some f →
        (admissions (((serve p none times).take k).drop j) : K) + 1 ≤
          p.capacity + (e.time - f.time) * p.rate := by
  rw [admitted_of_getElem? p he, poll_fst, decide_eq_true_eq, le_level_after_iff]
  constructor
  · rintro ⟨hcapacity, -, hwindows⟩ j hj f hf
    rcases Nat.lt_or_eq_of_le hj with hlt | rfl
    · rw [add_comm]
      exact hwindows j f (by rw [List.getElem?_take_of_lt hlt, hf])
    · obtain rfl := Option.some.inj (he.symm.trans hf)
      simpa using hcapacity
  · intro h
    refine ⟨by simpa using h k le_rfl e he, by simp, fun j f hf => ?_⟩
    obtain ⟨hj, hf⟩ : j < k ∧ (serve p none times)[j]? = some f := by
      simpa [List.getElem?_take] using hf
    rw [add_comm]
    exact h j hj.le f hf

/-- The polls admitted in a window, its ends included. -/
def inWindow (s t : K) (e : Poll K) : Bool :=
  e.admitted && decide (s ≤ e.time) && decide (e.time ≤ t)

omit [CommRing K] [IsStrictOrderedRing K] in
theorem countP_inWindow_le_admissions (s t : K) (polls : List (Poll K)) :
    polls.countP (inWindow s t) ≤ admissions polls :=
  List.countP_mono_left fun e _ he => by simp_all [inWindow]

omit [CommRing K] [IsStrictOrderedRing K] in
/-- The first poll that is not before the window: the admissions in the window come from it
on. Induction on the history. -/
theorem exists_first_in_window {polls : List (Poll K)} {k : ℕ} {e : Poll K} {s : K} (t : K)
    (he : polls[k]? = some e) (hs : s ≤ e.time) :
    ∃ j ≤ k, ∃ f, polls[j]? = some f ∧ s ≤ f.time ∧
      (polls.take k).countP (inWindow s t) ≤ admissions ((polls.take k).drop j) := by
  induction polls generalizing k with
  | nil => simp at he
  | cons g polls ih =>
      by_cases hg : s ≤ g.time
      · exact ⟨0, Nat.zero_le k, g, rfl, hg, countP_inWindow_le_admissions s t _⟩
      · cases k with
        | zero =>
            obtain rfl : g = e := by simpa using he
            exact absurd hs hg
        | succ k =>
            obtain ⟨j, hj, f, hf, hsf, hcount⟩ := ih (by simpa using he)
            refine ⟨j + 1, by omega, f, by simpa using hf, hsf, ?_⟩
            simpa [inWindow, hg] using hcount

/-- **No window sees more admissions than it has room for.** Induction on the length of the
history: an admission in the window is bounded by the law of the first poll there. -/
theorem countP_window_le (hcapacity : 0 ≤ p.capacity) (hrate : 0 ≤ p.rate) (times : List K)
    {s t : K} (hst : s ≤ t) :
    ((serve p none times).countP (inWindow s t) : K) ≤ p.capacity + (t - s) * p.rate := by
  have hroom : 0 ≤ (t - s) * p.rate := mul_nonneg (sub_nonneg.mpr hst) hrate
  suffices htake : ∀ n, (((serve p none times).take n).countP (inWindow s t) : K) ≤
      p.capacity + (t - s) * p.rate by
    simpa using htake (serve p none times).length
  intro n
  induction n with
  | zero => simpa using add_nonneg hcapacity hroom
  | succ n ih =>
      rw [List.take_add_one, List.countP_append]
      cases he : (serve p none times)[n]? with
      | none => simpa using ih
      | some e =>
          by_cases hin : inWindow s t e = true
          · have ⟨⟨hadmitted, hs⟩, ht⟩ : (e.admitted = true ∧ s ≤ e.time) ∧ e.time ≤ t := by
              simpa [inWindow] using hin
            obtain ⟨j, hj, f, hf, hsf, hcount⟩ := exists_first_in_window t he hs
            have hlaw := (admitted_iff p he).mp hadmitted j hj f hf
            have hcast : ((((serve p none times).take n).countP (inWindow s t) : ℕ) : K) ≤
                admissions (((serve p none times).take n).drop j) := Nat.cast_le.mpr hcount
            have hspan : (e.time - f.time) * p.rate ≤ (t - s) * p.rate :=
              mul_le_mul_of_nonneg_right (sub_le_sub ht hsf) hrate
            simp only [Option.toList_some, List.countP_singleton, hin, if_true, Nat.cast_add,
              Nat.cast_one]
            linarith
          · simpa [hin] using ih

omit [IsStrictOrderedRing K] in
/-- The times of a history are the times it was polled at. -/
@[simp] theorem map_time_serve (times : List K) (b : Bucket K) :
    (serve p b times).map Poll.time = times := by
  induction times generalizing b with
  | nil => rfl
  | cons time times ih => rw [serve, List.map_cons, ih]

omit [CommRing K] [IsStrictOrderedRing K] in
/-- In a history in order, the earlier poll has the earlier time. -/
theorem time_le_of_getElem? {polls : List (Poll K)}
    (hsorted : polls.Pairwise fun e f => e.time ≤ f.time) {i j : ℕ} (hij : i ≤ j) {e f : Poll K}
    (he : polls[i]? = some e) (hf : polls[j]? = some f) : e.time ≤ f.time := by
  obtain ⟨hi, rfl⟩ := List.getElem?_eq_some_iff.mp he
  obtain ⟨hj, rfl⟩ := List.getElem?_eq_some_iff.mp hf
  rcases Nat.lt_or_eq_of_le hij with hlt | rfl
  · exact List.pairwise_iff_getElem.mp hsorted i j hi hj hlt
  · exact le_rfl

omit [CommRing K] [IsStrictOrderedRing K] in
/-- Between two polls of a history in order, the admissions are those in the window the two
make. -/
theorem admissions_le_countP_inWindow {polls : List (Poll K)}
    (hsorted : polls.Pairwise fun e f => e.time ≤ f.time) {j k : ℕ} {e f : Poll K}
    (he : polls[k]? = some e) (hf : polls[j]? = some f) :
    admissions ((polls.take k).drop j) ≤ (polls.take k).countP (inWindow f.time e.time) := by
  have hwindow : ∀ g ∈ (polls.take k).drop j, f.time ≤ g.time ∧ g.time ≤ e.time := by
    intro g hg
    obtain ⟨i, hi⟩ := List.getElem?_of_mem hg
    rw [List.getElem?_drop] at hi
    obtain ⟨hik, hi⟩ : j + i < k ∧ polls[j + i]? = some g := by
      simpa [List.getElem?_take] using hi
    exact ⟨time_le_of_getElem? hsorted (Nat.le_add_right j i) hf hi,
      time_le_of_getElem? hsorted hik.le hi he⟩
  calc admissions ((polls.take k).drop j)
      ≤ ((polls.take k).drop j).countP (inWindow f.time e.time) :=
        List.countP_mono_left fun g hg hadmitted => by
          simp [inWindow, hadmitted, hwindow g hg]
    _ ≤ (polls.take k).countP (inWindow f.time e.time) :=
        (List.drop_sublist j _).countP_le

/-- **Every rejection is demanded.** Where a poll is rejected, its admission would have
broken the bound of a window that ends with it. -/
theorem exists_window_of_rejected {times : List K} (hclock : times.Pairwise (· ≤ ·)) {k : ℕ}
    {e : Poll K} (he : (serve p none times)[k]? = some e) (hrejected : e.admitted = false) :
    ∃ s ≤ e.time, p.capacity + (e.time - s) * p.rate <
      (((serve p none times).take k).countP (inWindow s e.time) : K) + 1 := by
  have hsorted : (serve p none times).Pairwise fun e f => e.time ≤ f.time := by
    rw [← map_time_serve p times none, List.pairwise_map] at hclock
    exact hclock
  have hnot : ¬e.admitted = true := by simp [hrejected]
  rw [admitted_iff p he] at hnot
  push Not at hnot
  obtain ⟨j, hj, f, hf, hlt⟩ := hnot
  have hcount := admissions_le_countP_inWindow hsorted he hf
  refine ⟨f.time, time_le_of_getElem? hsorted hj hf he, lt_of_lt_of_le hlt ?_⟩
  have hcast : (admissions (((serve p none times).take k).drop j) : K) ≤
      (((serve p none times).take k).countP (inWindow f.time e.time) : ℕ) :=
    Nat.cast_le.mpr hcount
  linarith

/-! ### Rejected polls leave no trace -/

/-- Two buckets that hold the same from a time on. -/
def Alike (time : K) (b b' : Bucket K) : Prop :=
  ∀ t, time ≤ t → level p b t = level p b' t

variable {p}

omit [IsStrictOrderedRing K] in
theorem Alike.later {time time' : K} {b b' : Bucket K} (h : Alike p time b b')
    (htime : time ≤ time') : Alike p time' b b' :=
  fun t ht => h t (htime.trans ht)

omit [IsStrictOrderedRing K] in
/-- A poll sees of the bucket what it holds. -/
theorem Alike.poll {time : K} {b b' : Bucket K} (h : Alike p time b b') :
    poll p b time = poll p b' time := by
  simp only [TokenBucket.poll, h time le_rfl]

/-- **A rejected poll leaves the bucket as it was**, for every later time: refilling twice is
refilling once. -/
theorem Alike.skip {time : K} {b b' : Bucket K} (hrate : 0 ≤ p.rate) (h : Alike p time b b')
    (hrejected : (TokenBucket.poll p b time).1 = false) :
    Alike p time (TokenBucket.poll p b time).2 b' := by
  intro t ht
  have hroom : 0 ≤ (t - time) * p.rate := mul_nonneg (sub_nonneg.mpr ht) hrate
  rw [← h t ht, poll_snd, hrejected]
  cases b with
  | none => simpa [level] using hroom
  | some s =>
      have hsplit : s.1 + (t - s.2) * p.rate =
          s.1 + (time - s.2) * p.rate + (t - time) * p.rate := by ring
      have hcapacity : p.capacity ≤ p.capacity + (t - time) * p.rate :=
        le_add_of_nonneg_right hroom
      simp only [level, Bool.false_eq_true, if_false, sub_zero]
      rw [hsplit, ← min_add_add_right, ← min_assoc, min_eq_left hcapacity]

/-! ### Buckets that are not refilled -/

/-- Where nothing is refilled, a bucket of `n` tokens admits the first `n` polls. Induction on
the polls. -/
theorem admissions_of_rate_zero (hrate : p.rate = 0) {n : ℕ} {b : Bucket K}
    (hlevel : ∀ time, level p b time = n) (times : List K) :
    admissions (serve p b times) = min n times.length := by
  induction times generalizing n b with
  | nil => simp [serve]
  | cons time times ih =>
      have hcapacity : (n : K) ≤ p.capacity := hlevel time ▸ level_le_capacity p b time
      rw [serve, admissions_cons, List.length_cons]
      cases n with
      | zero =>
          have hrejected : (poll p b time).1 = false := by
            rw [poll_fst, hlevel, Nat.cast_zero, decide_eq_false_iff_not, not_le]
            exact zero_lt_one
          have hrest := @ih 0 (poll p b time).2 fun t => by
            rw [poll_snd, hrejected, hlevel]
            simpa [level, hrate] using hcapacity
          simp [hrejected, hrest]
      | succ n =>
          have hadmitted : (poll p b time).1 = true := by
            rw [poll_fst, hlevel, Nat.cast_succ, decide_eq_true_eq]
            exact le_add_of_nonneg_left (Nat.cast_nonneg n)
          have hless : (n : K) ≤ p.capacity :=
            (Nat.cast_le.mpr (Nat.le_succ n)).trans hcapacity
          have hrest := @ih n (poll p b time).2 fun t => by
            rw [poll_snd, hadmitted, hlevel]
            simpa [level, hrate] using hless
          rw [if_pos hadmitted, hrest]
          omega

end TokenBucket
